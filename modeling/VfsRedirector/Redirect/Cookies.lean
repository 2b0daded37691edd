import VfsRedirector.Library.Memory
import VfsRedirector.Redirect.Marks
import VfsRedirector.Redirect.RenameBlocks

/-!
# What a cookie points to

A rename puts `&apRedirected.a_fcnp` or `&apRedirected.a_tcnp` in the recursion engine
for the lookups that it causes, and the lookup hook reads a `cn_nameiop` at this address.
The address is that of a pointer to a componentname, not of a componentname, so what is
read is the lower half of the pointer: with path redirection it is NULL then, with IO
redirection it is the address of a local variable. Neither is the operation of the
rename (`not_cookieRight`).

Objects in memory do not overlap and are aligned; that is all that is used of where they
are (`RenameFrame`).

## Results

* `RenameObject.apart` — the objects of the frame do not overlap.
* `not_cookieRight` — no cookie is the address of a componentname.
-/

namespace VfsRedirector

open Library Prog Kernel

variable {Vnode : Type}

-- ---------------------------------------------------------------------------
-- The objects of a rename
-- ---------------------------------------------------------------------------

def pointerLayout : Layout := ⟨8, 8⟩

def int32Layout : Layout := ⟨4, 4⟩

/-- The fields of `struct vnop_rename_args`: eight pointers. -/
def vnopRenameArgsFields : List Layout := List.replicate 8 pointerLayout

/-- The fields of `struct componentname`: `cn_nameiop`, `cn_flags`, two reserved pointers,
`cn_pnbuf`, `cn_pnlen`, `cn_nameptr`, `cn_namelen`, `cn_hash` and `cn_consume`. -/
def componentnameFields : List Layout :=
  [int32Layout, int32Layout, pointerLayout, pointerLayout, pointerLayout, int32Layout,
    pointerLayout, int32Layout, int32Layout, int32Layout]

/-- The structs that are live in the rename hook; the last two are the request's. -/
inductive RenameObject where
  | apRedirected
  | apOriginal
  | apShadow
  | fcnpRedirected
  | tcnpRedirected
  | fcnpOriginal
  | tcnpOriginal
  | fcnpShadow
  | tcnpShadow
  | a_fcnp
  | a_tcnp
  deriving DecidableEq

namespace RenameObject

def fields : RenameObject → List Layout
  | apRedirected | apOriginal | apShadow => vnopRenameArgsFields
  | _ => componentnameFields

def size (o : RenameObject) : Nat := (Layout.struct o.fields).size

/-- Every object of the frame has 64 bytes. -/
theorem size_eq (o : RenameObject) : o.size = 64 := by
  cases o <;> decide

end RenameObject

/-- Where the objects are. -/
structure RenameFrame where
  address : RenameObject → Nat
  thread : Nat
  aligned : ∀ o, 8 ∣ address o
  apart : ∀ o o', o ≠ o' → address o + o.size ≤ address o' ∨ address o' + o'.size ≤ address o

namespace RenameFrame

variable (frame : RenameFrame)

/-- The cookie as the pointer that it is. -/
def pointer : Cookie → Nat
  | .currentThread => frame.thread
  | .a_fcnp => frame.address .apRedirected + Layout.offset vnopRenameArgsFields 3
  | .a_tcnp => frame.address .apRedirected + Layout.offset vnopRenameArgsFields 6

/-- `apRedirected` is nulled, and gets its componentnames with `redirectIO` only. -/
def content (redirectIo : Bool) (o : RenameObject) : Nat :=
  if redirectIo then frame.address o else 0

/-- What is in memory while the rename looks something up. -/
structure Holds (ap : RenameArgs Vnode) (redirectIo : Bool) (m : List UInt8) : Prop where
  inside : ∀ o, frame.address o + o.size ≤ m.length
  a_fcnp : HoldsAt m (frame.pointer .a_fcnp) (toLE 8 (frame.content redirectIo .fcnpRedirected))
  a_tcnp : HoldsAt m (frame.pointer .a_tcnp) (toLE 8 (frame.content redirectIo .tcnpRedirected))
  nameiopFrom : HoldsAt m (frame.address .a_fcnp) (toLE 4 ap.a_fcnp.cn_nameiop.toNat)
  nameiopTo : HoldsAt m (frame.address .a_tcnp) (toLE 4 ap.a_tcnp.cn_nameiop.toNat)

end RenameFrame

-- ---------------------------------------------------------------------------
-- A lookup that a rename causes
-- ---------------------------------------------------------------------------

/-- A call of a redirected rename is where it has the cookie in the recursion engine, and
`log` are the calls of a lookup hook that finds the cookie there. -/
structure NestedLookup [DecidableEq Vnode] (ap : RenameArgs Vnode) (redirectIo : Bool)
    (cookie : Cookie) (frame : RenameFrame) (m : List UInt8) (log : List (KernelCall Vnode)) :
    Prop where
  rename : ∃ ctx fvp appData before call after r,
    (qvrVnopRenameHookEx2 ctx fvp ap).Trace (before ++ call :: after) r ∧
    RenameRedirected ctx fvp appData before ∧ appData.redirectIo = redirectIo ∧
    Log.after KernelOp.mark none before = some cookie
  memory : frame.Holds ap redirectIo m
  lookup : ∃ ctx dvp cnp r, (qvrVnopLookupHookEx2 ctx dvp cnp).Trace log r
  finds : ∀ found, ⟨.cookieForRecursiveCall, found⟩ ∈ log → found = some cookie
  reads : ∀ nameiop : NameiOp, ⟨.nameiopAt cookie, nameiop⟩ ∈ log →
    readLE m (frame.pointer cookie) 4 = some nameiop.toNat

/-- The name operation of the rename for the file that the cookie stands for. -/
def RenameArgs.nameiop (ap : RenameArgs Vnode) : Cookie → NameiOp
  | .a_tcnp => ap.a_tcnp.cn_nameiop
  | _ => ap.a_fcnp.cn_nameiop

/-- The cookie is the address of a componentname of the rename, and the lookup that is passed
on has the operation of the rename. -/
structure CookieRight (ap : RenameArgs Vnode) (cookie : Cookie) (frame : RenameFrame)
    (log : List (KernelCall Vnode)) : Prop where
  address : ∃ o : RenameObject,
    o.fields = componentnameFields ∧ frame.address o = frame.pointer cookie
  written : ∀ dvp cnp r, ⟨.vnopLookup dvp cnp, r⟩ ∈ log → cnp.cn_nameiop = ap.nameiop cookie

-- ---------------------------------------------------------------------------
-- What is at the address
-- ---------------------------------------------------------------------------

namespace RenameFrame

variable {frame : RenameFrame} {cookie : Cookie} {ap : RenameArgs Vnode} {redirectIo : Bool}
  {m : List UInt8}

/-- The cookie of the source is the address of a field of `apRedirected`. -/
theorem pointer_a_fcnp : frame.pointer .a_fcnp = frame.address .apRedirected + 24 := rfl

/-- The cookie of the target is the address of another field of it. -/
theorem pointer_a_tcnp : frame.pointer .a_tcnp = frame.address .apRedirected + 48 := rfl

/-- The address is inside of `apRedirected`, and not where it begins. -/
theorem pointer_ne_address (hcookie : cookie ≠ .currentThread) {o : RenameObject}
    (ho : o.fields = componentnameFields) : frame.address o ≠ frame.pointer cookie := by
  have hne : o ≠ .apRedirected := by
    rintro rfl
    exact absurd (congrArg List.length ho) (by decide)
  have hapart := frame.apart _ _ hne
  rw [RenameObject.size_eq, RenameObject.size_eq] at hapart
  cases cookie with
  | currentThread => exact absurd rfl hcookie
  | a_fcnp =>
    rw [pointer_a_fcnp]
    omega
  | a_tcnp =>
    rw [pointer_a_tcnp]
    omega

/-- The lower half of the pointer, which is a multiple of 8. -/
theorem readLE_pointer (hcookie : cookie ≠ .currentThread) (h : frame.Holds ap redirectIo m) :
    ∃ n, readLE m (frame.pointer cookie) 4 = some (n % 2 ^ 32) ∧ 8 ∣ n ∧
      (redirectIo = false → n = 0) := by
  have hinside := h.inside .apRedirected
  rw [RenameObject.size_eq] at hinside
  have hcontent : ∀ o, 8 ∣ frame.content redirectIo o ∧
      (redirectIo = false → frame.content redirectIo o = 0) := by
    intro o
    unfold content
    cases redirectIo with
    | false => simp
    | true => simpa using frame.aligned o
  cases cookie with
  | currentThread => exact absurd rfl hcookie
  | a_fcnp =>
    refine ⟨_, (h.a_fcnp.of_le (by omega)).readLE ?_, hcontent _⟩
    rw [pointer_a_fcnp]
    omega
  | a_tcnp =>
    refine ⟨_, (h.a_tcnp.of_le (by omega)).readLE ?_, hcontent _⟩
    rw [pointer_a_tcnp]
    omega

end RenameFrame

-- ---------------------------------------------------------------------------
-- What the lookup does
-- ---------------------------------------------------------------------------

variable {cookie : Cookie} {log : List (KernelCall Vnode)} {dvp : Vnode} {cnp : Componentname}
  {r : Int × Option Vnode}

/-- A lookup that finds the cookie of a rename reads the operation there and passes it on. -/
theorem trace_lookupOriginal (hcookie : cookie ≠ .currentThread)
    (hfinds : ∀ found, ⟨.cookieForRecursiveCall, found⟩ ∈ log → found = some cookie)
    (h : (lookupOriginal dvp cnp).Trace log r) : ∃ nameiop : NameiOp,
      log = [⟨.cookieForRecursiveCall, some cookie⟩, ⟨.nameiopAt cookie, nameiop⟩,
        ⟨.vnopLookup dvp { cnp with cn_nameiop := nameiop }, r⟩] := by
  obtain ⟨found, log₁, rfl, h₁⟩ := trace_perform_bind.mp h
  obtain rfl := hfinds found List.mem_cons_self
  cases cookie with
  | currentThread => exact absurd rfl hcookie
  | a_fcnp =>
    obtain ⟨nameiop, log₂, rfl, h₂⟩ := trace_perform_bind.mp h₁
    obtain rfl := trace_perform.mp h₂
    exact ⟨nameiop, rfl⟩
  | a_tcnp =>
    obtain ⟨nameiop, log₂, rfl, h₂⟩ := trace_perform_bind.mp h₁
    obtain rfl := trace_perform.mp h₂
    exact ⟨nameiop, rfl⟩

/-- A hook that finds a cookie of a rename passes the lookup on with what it reads there. -/
theorem trace_nestedLookup [DecidableEq Vnode] {ctx : VfsContext}
    (hcookie : cookie ≠ .currentThread)
    (hfinds : ∀ found, ⟨.cookieForRecursiveCall, found⟩ ∈ log → found = some cookie)
    (h : (qvrVnopLookupHookEx2 ctx dvp cnp).Trace log r) : ∃ nameiop : NameiOp,
      ⟨.nameiopAt cookie, nameiop⟩ ∈ log ∧
        ⟨.vnopLookup dvp { cnp with cn_nameiop := nameiop }, r⟩ ∈ log := by
  unfold qvrVnopLookupHookEx2 at h
  split at h
  · obtain ⟨skip, asked, rest, rfl, hasked, h₁⟩ := trace_bind.mp h
    obtain ⟨found, rfl, rfl⟩ | rfl := trace_isRecursiveCallOrUserClient hasked
    · have hrest : ∀ found, ⟨.cookieForRecursiveCall, found⟩ ∈ rest → found = some cookie :=
        fun found hmem => hfinds found (List.mem_append_right _ hmem)
      obtain ⟨nameiop, rfl⟩ := trace_lookupOriginal hcookie hrest h₁
      exact ⟨nameiop, by simp, by simp⟩
    · cases hfinds none List.mem_cons_self
  · obtain ⟨nameiop, rfl⟩ := trace_lookupOriginal hcookie hfinds h
    exact ⟨nameiop, by simp, by simp⟩

/-- No cookie is the address of a componentname, and the operation that a nested lookup gets
is the lower half of a pointer: 0 with path redirection, and a multiple of 8 in any case. -/
theorem not_cookieRight [DecidableEq Vnode] {ap : RenameArgs Vnode} {redirectIo : Bool}
    {frame : RenameFrame} {m : List UInt8} (hcookie : cookie ≠ .currentThread)
    (h : NestedLookup ap redirectIo cookie frame m log) :
    ¬CookieRight ap cookie frame log ∧ ∃ dvp cnp r, ⟨.vnopLookup dvp cnp, r⟩ ∈ log ∧
      cnp.cn_nameiop ≠ .DELETE ∧ cnp.cn_nameiop ≠ .RENAME ∧
      (redirectIo = false → cnp.cn_nameiop = .LOOKUP) := by
  constructor
  · rintro ⟨⟨o, ho, haddress⟩, -⟩
    exact RenameFrame.pointer_ne_address hcookie ho haddress
  · obtain ⟨ctx, dvp, cnp, r, hlookup⟩ := h.lookup
    obtain ⟨nameiop, hread, hpassed⟩ := trace_nestedLookup hcookie h.finds hlookup
    obtain ⟨n, hn, hdvd, hzero⟩ := RenameFrame.readLE_pointer hcookie h.memory
    have hnameiop : nameiop.toNat = n % 2 ^ 32 :=
      Option.some.inj ((h.reads nameiop hread).symm.trans hn)
    refine ⟨dvp, _, r, hpassed, ?_, ?_, fun hio => ?_⟩
    · rintro rfl
      have htwo : (NameiOp.DELETE).toNat = 2 := rfl
      omega
    · rintro rfl
      have hthree : (NameiOp.RENAME).toNat = 3 := rfl
      omega
    · rw [hzero hio, Nat.zero_mod] at hnameiop
      exact UInt32.toNat_inj.mp hnameiop

-- ---------------------------------------------------------------------------
-- A rename with path redirection
-- ---------------------------------------------------------------------------

/-- Two objects of the frame do not overlap. -/
theorem RenameObject.apart {o o' : RenameObject} (h : o ≠ o') :
    64 * o.ctorIdx + o.size ≤ 64 * o'.ctorIdx ∨ 64 * o'.ctorIdx + o'.size ≤ 64 * o.ctorIdx := by
  have hidx : o.ctorIdx ≠ o'.ctorIdx := by
    revert h
    cases o <;> cases o' <;> decide
  rw [size_eq, size_eq]
  omega

/-- Each object of the frame is aligned. -/
theorem RenameObject.aligned (o : RenameObject) : 8 ∣ 64 * o.ctorIdx := by
  omega

/-- One object after the other. -/
def stackFrame : RenameFrame where
  address o := 64 * o.ctorIdx
  thread := 704
  aligned := RenameObject.aligned
  apart _ _ := RenameObject.apart

/-- The componentnames of the request have their operations, and the rest is 0. -/
def stackMemory : List UInt8 :=
  List.replicate 576 0 ++ (2 :: List.replicate 63 0 ++ (3 :: List.replicate 63 0))

/-- The calls of a lookup of `/d/a` that finds the cookie of its rename. -/
def nestedCalls : List (KernelCall Nat) :=
  [⟨.cookieForRecursiveCall, some .a_fcnp⟩, ⟨.cookieForRecursiveCall, some .a_fcnp⟩,
    ⟨.nameiopAt .a_fcnp, .LOOKUP⟩,
    ⟨.vnopLookup 2 ⟨[47, 100, 47, 97], 4, [97], 1, .LOOKUP, true, 0⟩, (0, some 4)⟩]

/-- The calls above are those of a lookup that a rename to the protected storage causes. -/
theorem nestedLookup_calls :
    NestedLookup renameToProtected false .a_fcnp stackFrame stackMemory nestedCalls where
  rename := by
    refine ⟨⟨some [47, 114]⟩, 5, ⟨[47, 114], false⟩, renameToProtectedLog.take 4, _,
      renameToProtectedLog.drop 5, _, trace_play (renameAnswer false) _, ?_, rfl, rfl⟩
    exact ⟨_, rfl, ⟨_, rfl⟩⟩
  memory := by
    refine ⟨fun o => ?_, ?_, ?_, ?_, ?_⟩
    · cases o <;> decide +kernel
    all_goals
      unfold HoldsAt
      decide +kernel
  lookup := by
    refine ⟨⟨some [47, 114]⟩, 2, ⟨[47, 100, 47, 97], 4, [97], 1, .DELETE, true, 0⟩, (0, some 4), ?_⟩
    exact .call (.call (.call (.call .pure)))
  finds := by simp [nestedCalls]
  reads := by
    intro nameiop h
    have hnameiop : nameiop = .LOOKUP := by simpa [nestedCalls] using h
    rw [hnameiop]
    decide +kernel

/-- The original is looked up with the operation 0 in place of that of the rename. -/
theorem not_cookieRight_nested :
    ¬CookieRight renameToProtected .a_fcnp stackFrame nestedCalls ∧
      ∃ dvp cnp r, ⟨.vnopLookup dvp cnp, r⟩ ∈ nestedCalls ∧ cnp.cn_nameiop ≠ .DELETE ∧
        cnp.cn_nameiop ≠ .RENAME ∧ (false = false → cnp.cn_nameiop = .LOOKUP) :=
  not_cookieRight (by decide) nestedLookup_calls

/-- In the run above the nested lookup is for `LOOKUP`, where the rename is to give `DELETE`. -/
theorem cookies_not_right : ¬∀ (ap : RenameArgs Nat) (redirectIo : Bool) (cookie : Cookie)
    (frame : RenameFrame) (m : List UInt8) (log : List (KernelCall Nat)),
      cookie ≠ .currentThread → NestedLookup ap redirectIo cookie frame m log →
        CookieRight ap cookie frame log := by
  intro h
  have hright := h renameToProtected false .a_fcnp stackFrame stackMemory nestedCalls (by decide)
    nestedLookup_calls
  have hwritten := hright.written _ _ _ (List.mem_of_getLast? (l := nestedCalls) rfl)
  exact absurd hwritten (by decide)

end VfsRedirector
