import VfsRedirector.Redirect.Dispatch

/-!
# The sizes of a shadow file

Getattr on a shadow vnode answers with the attributes of the original file, and
with the sizes of the backing file where the request has them active. The hook
asks for the sizes in a local `struct vnode_attr`. `VATTR_INIT` clears its masks
only, and a file system fills what it supports, so an attribute that it does not
support keeps what was on the stack; the hook copies every active one.

`getattr_kept_iff` compares the runs of a request over all contents of the stack:
nothing of them gets to the caller exactly if the file system of the backing
file supports each active size, or fails.

## Results

* `trace_getattr` — what a diverted request returns.
* `getattr_kept_iff` — when this is what the files have.
-/

namespace VfsRedirector

open Library Prog Kernel

variable {Vnode : Type}

-- ---------------------------------------------------------------------------
-- What file systems answer
-- ---------------------------------------------------------------------------

/-- The attributes that the hook takes from the backing file. -/
inductive SizeAttr where
  | totalSize
  | totalAlloc
  | dataSize
  | dataAlloc
  deriving DecidableEq

def VnodeAttr.size (va : VnodeAttr) : SizeAttr → Attribute
  | .totalSize => va.va_total_size
  | .totalAlloc => va.va_total_alloc
  | .dataSize => va.va_data_size
  | .dataAlloc => va.va_data_alloc

/-- What a file system answers to a getattr: the error, and values for the attributes
that it supports. -/
structure FsAnswer where
  error : Int
  size : SizeAttr → Option Nat
  other : Nat → Option Nat

/-- `VATTR_RETURN` of what is supported; the rest stays as it is. -/
def Attribute.returned (a : Attribute) : Option Nat → Attribute
  | some value => { a with supported := true, value }
  | none => a

def VnodeAttr.returned (va : VnodeAttr) (answer : FsAnswer) : VnodeAttr :=
  ⟨va.va_total_size.returned (answer.size .totalSize),
    va.va_total_alloc.returned (answer.size .totalAlloc),
    va.va_data_size.returned (answer.size .dataSize),
    va.va_data_alloc.returned (answer.size .dataAlloc),
    va.others.mapIdx fun i a => a.returned (answer.other i)⟩

/-- The environment of a request: the file system of the original file, and the backing
vnode that the shadow vnode has in `InstanceForVnodeIO`, with its file system. -/
structure GetattrFiles (Vnode : Type) where
  original : FsAnswer
  backing : Option (Vnode × FsAnswer)

/-- The calls of a request that is diverted to the original vnode, with `stack` in the
memory of the local `struct vnode_attr`. -/
structure Diverted (files : GetattrFiles Vnode) (stack : VnodeAttr)
    (log : List (KernelCall Vnode)) : Prop where
  diverted : ∀ vn real, ⟨.getVnodeShadowReverseRef vn, real⟩ ∈ log → real ≠ none
  notRecursive : ∀ cookie, ⟨.cookieForRecursiveCall, cookie⟩ ∈ log → cookie = none
  notUserClient : ∀ client, ⟨.isUserClient, client⟩ ∈ log → client = false
  original : ∀ implementation ap r, ⟨.vnopGetattr implementation ap, r⟩ ∈ log →
    r = (files.original.error, ap.a_vap.returned files.original)
  io : ∀ vn r, ⟨.getVnodeIoRef vn, r⟩ ∈ log → r = files.backing.map Prod.fst
  stack : ∀ va, ⟨.localVnodeAttr, va⟩ ∈ log → va = stack
  backing : ∀ vn fs, files.backing = some (vn, fs) → ∀ va r, ⟨.vnodeGetattr vn va, r⟩ ∈ log →
    r = (fs.error, va.returned fs)

theorem Diverted.mono {files : GetattrFiles Vnode} {stack : VnodeAttr}
    {log log' : List (KernelCall Vnode)} (h : Diverted files stack log')
    (hsub : ∀ call ∈ log, call ∈ log') : Diverted files stack log where
  diverted vn real hcall := h.diverted vn real (hsub _ hcall)
  notRecursive cookie hcall := h.notRecursive cookie (hsub _ hcall)
  notUserClient client hcall := h.notUserClient client (hsub _ hcall)
  original implementation ap r hcall := h.original implementation ap r (hsub _ hcall)
  io vn r hcall := h.io vn r (hsub _ hcall)
  stack va hcall := h.stack va (hsub _ hcall)
  backing vn fs hfs va r hcall := h.backing vn fs hfs va r (hsub _ hcall)

-- ---------------------------------------------------------------------------
-- What the hook returns
-- ---------------------------------------------------------------------------

/-- The attributes of the caller in the end, from what `stack` held. -/
def GetattrFiles.answer (files : GetattrFiles Vnode) (stack a_vap : VnodeAttr) : VnodeAttr :=
  match files.backing with
  | none => a_vap.returned files.original
  | some (_, backing) =>
    if files.original.error = 0 ∧ (a_vap.returned files.original).queryAttributes = true ∧
        backing.error = 0 then
      (a_vap.returned files.original).takeValues
        ((stack.init.wanted (a_vap.returned files.original)).returned backing)
    else a_vap.returned files.original

/-- Where the original fails the caller gets what it returned. -/
theorem GetattrFiles.answer_of_failed (files : GetattrFiles Vnode) (stack a_vap : VnodeAttr)
    (h : files.original.error ≠ 0) : files.answer stack a_vap = a_vap.returned files.original := by
  unfold answer
  split
  · rfl
  · rw [if_neg fun hall => h hall.1]

/-- The sizes of the backing file replace those that were wanted. -/
theorem trace_adjustSizes {files : GetattrFiles Vnode} {stack a_vap r : VnodeAttr}
    {shadowVp : Vnode} {log : List (KernelCall Vnode)} (hdiverted : Diverted files stack log)
    (h : (adjustSizes shadowVp (a_vap.returned files.original)).Trace log r)
    (herror : files.original.error = 0) : r = files.answer stack a_vap := by
  obtain ⟨backingVnodeRef, log₁, rfl, h₁⟩ := trace_perform_bind.mp h
  have hio := hdiverted.io _ _ List.mem_cons_self
  unfold GetattrFiles.answer
  cases hbacking : files.backing with
  -- no backing vnode: the attributes stay
  | none =>
    rw [hbacking] at hio
    subst hio
    exact (trace_pure.mp h₁).2
  | some b =>
    obtain ⟨backing, answer⟩ := b
    rw [hbacking] at hio
    subst hio
    obtain ⟨va, log₂, rfl, h₂⟩ := trace_perform_bind.mp h₁
    obtain rfl := hdiverted.stack va (by simp)
    dsimp only at h₂ ⊢
    cases hquery : (a_vap.returned files.original).queryAttributes with
    -- none of the sizes was asked for
    | false =>
      rw [hquery] at h₂
      obtain ⟨_, _, log₃, rfl, hpure, h₃⟩ := trace_bind.mp h₂
      obtain ⟨rfl, rfl⟩ := trace_pure.mp hpure
      obtain ⟨_, log₄, rfl, h₄⟩ := trace_perform_bind.mp h₃
      rw [(trace_pure.mp h₄).2, if_neg (by simp)]
    -- the sizes are those of the backing file, where it gave them
    | true =>
      rw [hquery] at h₂
      obtain ⟨⟨attrError, va'⟩, log₃, rfl, h₃⟩ := trace_perform_bind.mp h₂
      have hanswer := hdiverted.backing backing answer hbacking
        (va.init.wanted (a_vap.returned files.original)) (attrError, va') (by simp)
      obtain ⟨rfl, rfl⟩ := Prod.mk.inj hanswer
      obtain ⟨_, _, log₄, rfl, hpure, h₄⟩ := trace_bind.mp h₃
      obtain ⟨rfl, rfl⟩ := trace_pure.mp hpure
      obtain ⟨_, log₅, rfl, h₅⟩ := trace_perform_bind.mp h₄
      rw [(trace_pure.mp h₅).2]
      simp [herror]

/-- A request that is diverted and succeeds or fails as the original does. -/
theorem trace_getattr {files : GetattrFiles Vnode} {stack : VnodeAttr} {ap : GetattrArgs Vnode}
    {log : List (KernelCall Vnode)} {r : Int × GetattrArgs Vnode}
    (hdiverted : Diverted files stack log) (h : (qvrVnopGetattrHookEx2 ap).Trace log r) :
    r = (files.original.error, { ap with a_vap := files.answer stack ap.a_vap }) := by
  obtain ⟨real, log₁, rfl, h₁⟩ := trace_perform_bind.mp h
  cases real with
  | none => exact absurd rfl (hdiverted.diverted ap.a_vp none List.mem_cons_self)
  | some real =>
    obtain ⟨skip, asked, log₂, rfl, hasked, h₂⟩ := trace_bind.mp h₁
    obtain ⟨cookie, rfl, -⟩ | rfl := trace_isRecursiveCallOrUserClient hasked
    · cases hdiverted.notRecursive (some cookie) (by simp)
    -- neither in a recursive call nor for the daemon
    obtain rfl : skip = false := hdiverted.notUserClient skip (by simp)
    obtain ⟨⟨error, ap'⟩, first, log₃, rfl, hfirst, h₃⟩ := trace_bind.mp h₂
    obtain ⟨_, log₄, rfl, h₄⟩ := trace_perform_bind.mp h₃
    obtain ⟨rfl, rfl⟩ := trace_pure.mp h₄
    obtain ⟨inner, rfl, hreal⟩ := trace_inRecursiveCall hfirst
    obtain ⟨⟨e, a_vap⟩, log₅, rfl, h₅⟩ := trace_perform_bind.mp hreal
    have horiginal := hdiverted.original (.vnop real) { ap with a_vp := real } (e, a_vap) (by simp)
    obtain ⟨rfl, rfl⟩ := Prod.mk.inj horiginal
    dsimp only at h₅
    split at h₅
    · -- the error of the original file is returned, with what it left
      rename_i herror
      obtain ⟨-, hr⟩ := trace_pure.mp h₅
      obtain ⟨rfl, rfl⟩ := Prod.mk.inj hr
      rw [files.answer_of_failed stack ap.a_vap herror]
    · rename_i herror
      rw [not_not] at herror
      obtain ⟨a_vap', sizes, log₆, rfl, hsizes, h₆⟩ := trace_bind.mp h₅
      obtain ⟨-, hr⟩ := trace_pure.mp h₆
      obtain ⟨rfl, rfl⟩ := Prod.mk.inj hr
      have hinner : Diverted files stack sizes := hdiverted.mono fun call hcall => by simp [hcall]
      rw [trace_adjustSizes hinner hsizes herror]

-- ---------------------------------------------------------------------------
-- The values that the caller gets
-- ---------------------------------------------------------------------------

/-- What a file system returns is returned size by size. -/
theorem VnodeAttr.size_returned (va : VnodeAttr) (fs : FsAnswer) (x : SizeAttr) :
    (va.returned fs).size x = (va.size x).returned (fs.size x) := by
  cases x <;> rfl

/-- What is wanted of the backing file is wanted size by size. -/
theorem VnodeAttr.size_wanted (va request : VnodeAttr) (x : SizeAttr) :
    (va.init.wanted request).size x = (va.size x).init.wanted (request.size x) := by
  cases x <;> rfl

/-- What is taken from the backing file is taken size by size. -/
theorem VnodeAttr.size_takeValues (va backing : VnodeAttr) (x : SizeAttr) :
    (va.takeValues backing).size x = (va.size x).takeValue (backing.size x) := by
  cases x <;> rfl

/-- Only the values of active attributes are taken. -/
theorem VnodeAttr.takeValues_congr {va backing backing' : VnodeAttr}
    (h : ∀ x, (va.size x).active = true → (backing.size x).value = (backing'.size x).value) :
    va.takeValues backing = va.takeValues backing' := by
  have htake : ∀ x, (va.size x).takeValue (backing.size x) =
      (va.size x).takeValue (backing'.size x) := by
    intro x
    unfold Attribute.takeValue
    split
    · rw [h x ‹_›]
    · rfl
  have h₁ := htake .totalSize
  have h₂ := htake .totalAlloc
  have h₃ := htake .dataSize
  have h₄ := htake .dataAlloc
  simp only [size] at h₁ h₂ h₃ h₄
  simp only [takeValues, h₁, h₂, h₃, h₄]

/-- A file system does not change what is wanted. -/
theorem Attribute.active_returned (a : Attribute) (value : Option Nat) :
    (a.returned value).active = a.active := by
  cases value <;> rfl

/-- What is supported has the value of the file system, whatever was there. -/
theorem Attribute.value_returned_some (a : Attribute) (value : Nat) :
    (a.returned (some value)).value = value := rfl

/-- The value of what is not supported is that of the memory. -/
theorem Attribute.value_unsupported (a request : Attribute) :
    ((a.init.wanted request).returned none).value = a.value := by
  show (a.init.wanted request).value = a.value
  unfold wanted
  split <;> rfl

/-- The backing file is asked just if one of the four sizes is wanted. -/
theorem VnodeAttr.queryAttributes_eq_true {va : VnodeAttr} :
    va.queryAttributes = true ↔ ∃ x, (va.size x).active = true := by
  unfold queryAttributes
  simp only [Bool.or_eq_true]
  constructor
  · rintro (((h | h) | h) | h)
    · exact ⟨.totalSize, h⟩
    · exact ⟨.totalAlloc, h⟩
    · exact ⟨.dataSize, h⟩
    · exact ⟨.dataAlloc, h⟩
  · rintro ⟨x, h⟩
    cases x with
    | totalSize => exact .inl (.inl (.inl h))
    | totalAlloc => exact .inl (.inl (.inr h))
    | dataSize => exact .inl (.inr h)
    | dataAlloc => exact .inr h

namespace GetattrFiles

variable (files : GetattrFiles Vnode) (stack a_vap : VnodeAttr)

/-- Attributes that are no sizes come from the original file. -/
theorem others_answer :
    (files.answer stack a_vap).others = (a_vap.returned files.original).others := by
  unfold answer
  split
  · rfl
  · split <;> rfl

/-- An attribute is as the original left it, or it was active and is from the local structure. -/
theorem size_answer (x : SizeAttr) :
    (files.answer stack a_vap).size x = (a_vap.returned files.original).size x ∨
    ∃ vn fs, files.original.error = 0 ∧ files.backing = some (vn, fs) ∧ fs.error = 0 ∧
      (a_vap.size x).active = true ∧ ((files.answer stack a_vap).size x).value =
        (((stack.init.wanted (a_vap.returned files.original)).size x).returned
          (fs.size x)).value := by
  unfold answer
  split
  · exact .inl rfl
  · rename_i vn fs hbacking
    split
    · rename_i hall
      rw [VnodeAttr.size_takeValues, VnodeAttr.size_returned _ fs]
      unfold Attribute.takeValue
      split
      · rename_i hactive
        rw [VnodeAttr.size_returned, Attribute.active_returned] at hactive
        exact .inr ⟨vn, fs, hall.1, hbacking, hall.2.2, hactive, rfl⟩
      · exact .inl rfl
    · exact .inl rfl

/-- The file system of the backing file supports the sizes that are active, where its
answer is used. -/
def SupportsSizes : Prop :=
  files.original.error = 0 → ∀ vn fs, files.backing = some (vn, fs) → fs.error = 0 →
    ∀ x, (a_vap.size x).active = true → fs.size x ≠ none

/-- The values of what is supported hide what was on the stack. -/
theorem answer_congr {files : GetattrFiles Vnode} {a_vap : VnodeAttr}
    (hsupports : files.SupportsSizes a_vap) (stack stack' : VnodeAttr) :
    files.answer stack a_vap = files.answer stack' a_vap := by
  unfold answer
  split
  · rfl
  · rename_i vn fs hbacking
    split
    · rename_i hall
      refine VnodeAttr.takeValues_congr fun x hactive => ?_
      rw [VnodeAttr.size_returned, Attribute.active_returned] at hactive
      have hsome := hsupports hall.1 vn fs hbacking hall.2.2 x hactive
      obtain ⟨value, hvalue⟩ := Option.ne_none_iff_exists'.mp hsome
      rw [VnodeAttr.size_returned, VnodeAttr.size_returned, hvalue,
        Attribute.value_returned_some, Attribute.value_returned_some]
    · rfl

end GetattrFiles

/-- **What a diverted request gives to the caller**, in all its runs: sizes of the backing
file that its file system supports or what the original left, all else from the original,
and the same whatever the local structure held. -/
structure GetattrKept (files : GetattrFiles Vnode) (ap : GetattrArgs Vnode) : Prop where
  sizes : ∀ stack log ap', Diverted files stack log →
    (qvrVnopGetattrHookEx2 ap).Trace log (0, ap') → ∀ x,
      (∃ vn fs, files.backing = some (vn, fs) ∧ fs.error = 0 ∧
        fs.size x = some (ap'.a_vap.size x).value) ∨
      (ap'.a_vap.size x).value = ((ap.a_vap.returned files.original).size x).value
  others : ∀ stack log ap', Diverted files stack log →
    (qvrVnopGetattrHookEx2 ap).Trace log (0, ap') →
      ap'.a_vap.others = (ap.a_vap.returned files.original).others
  independent : ∀ stack stack' log log' r r', Diverted files stack log →
    Diverted files stack' log' → (qvrVnopGetattrHookEx2 ap).Trace log r →
      (qvrVnopGetattrHookEx2 ap).Trace log' r' → r = r'

/-- If the backing file system supports the sizes that are wanted, the caller gets them. -/
theorem kept_of_supportsSizes {files : GetattrFiles Vnode} {ap : GetattrArgs Vnode}
    (hsupports : files.SupportsSizes ap.a_vap) : GetattrKept files ap where
  sizes stack log ap' hdiverted h x := by
    obtain ⟨-, rfl⟩ := Prod.mk.inj (trace_getattr hdiverted h)
    dsimp only
    obtain hsize | ⟨vn, fs, horiginal, hbacking, herror, hactive, hvalue⟩ :=
      files.size_answer stack ap.a_vap x
    · exact .inr (congrArg Attribute.value hsize)
    · have hsome := hsupports horiginal vn fs hbacking herror x hactive
      obtain ⟨value, hx⟩ := Option.ne_none_iff_exists'.mp hsome
      rw [hx, Attribute.value_returned_some] at hvalue
      exact .inl ⟨vn, fs, hbacking, herror, by rw [hx, hvalue]⟩
  others stack log ap' hdiverted h := by
    obtain ⟨-, rfl⟩ := Prod.mk.inj (trace_getattr hdiverted h)
    exact files.others_answer stack ap.a_vap
  independent stack stack' log log' r r' hdiverted hdiverted' h h' := by
    rw [trace_getattr hdiverted h, trace_getattr hdiverted' h',
      GetattrFiles.answer_congr hsupports stack stack']

-- ---------------------------------------------------------------------------
-- What is not supported
-- ---------------------------------------------------------------------------

/-- The sizes are asked for. -/
theorem trace_adjustSizes_wanted {a_vap : VnodeAttr} (hquery : a_vap.queryAttributes = true)
    (shadowVp vn : Vnode) (stack va : VnodeAttr) (error : Int) :
    (adjustSizes shadowVp a_vap).Trace
      [⟨.getVnodeIoRef shadowVp, some vn⟩, ⟨.localVnodeAttr, stack⟩,
        ⟨.vnodeGetattr vn (stack.init.wanted a_vap), (error, va)⟩, ⟨.vnodePut vn, ()⟩]
      (if error = 0 then a_vap.takeValues va else a_vap) := by
  refine .call (.call ?_)
  dsimp only
  rw [hquery]
  exact .call (.call .pure)

/-- The calls of a getattr of the real vnode that succeeds. -/
theorem trace_getattrOfReal {shadowVp : Vnode} {a_vap a_vap' : VnodeAttr}
    {log : List (KernelCall Vnode)} {error : Int} (herror : error = 0)
    (h : (adjustSizes shadowVp a_vap).Trace log a_vap') (real : Vnode) (ap : GetattrArgs Vnode) :
    (getattrOfReal shadowVp real ap).Trace (⟨.vnopGetattr (.vnop real) ap, (error, a_vap)⟩ :: log)
      (error, { ap with a_vap := a_vap' }) := by
  refine trace_perform_bind.mpr ⟨_, _, rfl, ?_⟩
  dsimp only
  rw [if_neg (not_not.mpr herror)]
  exact trace_bind.mpr ⟨_, _, [], (List.append_nil _).symm, h, .pure⟩

/-- There is a run that asks the backing file, for all contents of the stack. -/
theorem exists_diverted {files : GetattrFiles Vnode} {ap : GetattrArgs Vnode} {vn : Vnode}
    {fs : FsAnswer} (horiginal : files.original.error = 0)
    (hbacking : files.backing = some (vn, fs))
    (hquery : (ap.a_vap.returned files.original).queryAttributes = true) (stack : VnodeAttr) :
    ∃ log r, Diverted files stack log ∧ (qvrVnopGetattrHookEx2 ap).Trace log r := by
  have hsizes := trace_adjustSizes_wanted hquery ap.a_vp vn stack
    ((stack.init.wanted (ap.a_vap.returned files.original)).returned fs) fs.error
  have hreal := trace_getattrOfReal horiginal hsizes ap.a_vp ap
  have hrecursive := trace_inRecursiveCall_of .currentThread hreal
  have hhook : (qvrVnopGetattrHookEx2 ap).Trace
      (⟨.getVnodeShadowReverseRef ap.a_vp, some ap.a_vp⟩ ::
        ⟨.cookieForRecursiveCall, none⟩ :: ⟨.isUserClient, false⟩ :: _) _ :=
    trace_perform_bind.mpr ⟨_, _, rfl, trace_notInRecursion.mpr (trace_bind.mpr
      ⟨_, _, _, rfl, hrecursive, trace_perform_bind.mpr ⟨(), [], rfl, .pure⟩⟩)⟩
  refine ⟨_, _, ?_, hhook⟩
  constructor
  case original =>
    intro implementation ap' r hcall
    simp at hcall
    obtain ⟨⟨rfl, rfl⟩, rfl⟩ := hcall
    rfl
  case backing =>
    intro vn' fs' hfs va r hcall
    obtain ⟨rfl, rfl⟩ := Prod.mk.inj (Option.some.inj (hbacking.symm.trans hfs))
    simp at hcall
    obtain ⟨rfl, rfl⟩ := hcall
    rfl
  all_goals simp [hbacking]

/-- An active attribute that is not supported has what was on the stack. -/
theorem GetattrFiles.size_answer_unsupported {files : GetattrFiles Vnode} {a_vap : VnodeAttr}
    {vn : Vnode} {fs : FsAnswer} {x : SizeAttr} (horiginal : files.original.error = 0)
    (hbacking : files.backing = some (vn, fs)) (herror : fs.error = 0)
    (hactive : ((a_vap.returned files.original).size x).active = true) (hnone : fs.size x = none)
    (stack : VnodeAttr) : ((files.answer stack a_vap).size x).value = (stack.size x).value := by
  have hquery := VnodeAttr.queryAttributes_eq_true.mpr ⟨x, hactive⟩
  unfold answer
  rw [hbacking]
  dsimp only
  rw [if_pos ⟨horiginal, hquery, herror⟩, VnodeAttr.size_takeValues, Attribute.takeValue,
    if_pos hactive, VnodeAttr.size_returned _ fs, hnone, VnodeAttr.size_wanted]
  exact Attribute.value_unsupported _ _

/-- A stack with the same value everywhere. -/
def VnodeAttr.filled (value : Nat) : VnodeAttr :=
  ⟨⟨true, true, value⟩, ⟨true, true, value⟩, ⟨true, true, value⟩, ⟨true, true, value⟩, []⟩

/-- Attributes that are all filled with one value have it. -/
theorem VnodeAttr.value_filled (value : Nat) (x : SizeAttr) :
    ((filled value).size x).value = value := by
  cases x <;> rfl

/-- If the caller gets the sizes of the backing file, its file system supports them. -/
theorem supportsSizes_of_kept {files : GetattrFiles Vnode} {ap : GetattrArgs Vnode}
    (hkept : GetattrKept files ap) : files.SupportsSizes ap.a_vap := by
  intro horiginal vn fs hbacking herror x hactive hnone
  rw [← Attribute.active_returned _ (files.original.size x), ← VnodeAttr.size_returned] at hactive
  have hquery := VnodeAttr.queryAttributes_eq_true.mpr ⟨x, hactive⟩
  -- the stack holds another value than the original file has
  let stack := VnodeAttr.filled (((ap.a_vap.returned files.original).size x).value + 1)
  obtain ⟨log, r, hdiverted, htrace⟩ := exists_diverted horiginal hbacking hquery stack
  obtain rfl := trace_getattr hdiverted htrace
  rw [horiginal] at htrace
  have hvalue := files.size_answer_unsupported horiginal hbacking herror hactive hnone stack
  rw [VnodeAttr.value_filled] at hvalue
  obtain ⟨vn', fs', hbacking', -, hsome⟩ | hsame := hkept.sizes stack log _ hdiverted htrace x
  · obtain ⟨rfl, rfl⟩ := Prod.mk.inj (Option.some.inj (hbacking.symm.trans hbacking'))
    rw [hnone] at hsome
    cases hsome
  · dsimp only at hsame
    omega

/-- **What a diverted request gives to the caller** is as it should be exactly if the file
system of the backing file supports each size that is active, or its answer is not used. -/
theorem getattr_kept_iff (files : GetattrFiles Vnode) (ap : GetattrArgs Vnode) :
    GetattrKept files ap ↔ files.SupportsSizes ap.a_vap :=
  ⟨supportsSizes_of_kept, kept_of_supportsSizes⟩

/-- `va_total_alloc` is wanted, and the file system of the backing file does not support it:
the caller gets what was on the stack. -/
theorem getattr_leaks_stack : ¬ ∀ (files : GetattrFiles Nat) (ap : GetattrArgs Nat),
    GetattrKept files ap := by
  intro h
  let supported : FsAnswer := ⟨0, fun _ => some 10, fun _ => none⟩
  let withoutAlloc : FsAnswer :=
    ⟨0, fun x => if x = .totalAlloc then none else some 20, fun _ => none⟩
  have hkept := h ⟨supported, some (5, withoutAlloc)⟩
    ⟨4, { va_total_alloc := ⟨true, false, 0⟩ }, .caller⟩
  exact supportsSizes_of_kept hkept rfl 5 withoutAlloc rfl rfl .totalAlloc rfl rfl

end VfsRedirector
