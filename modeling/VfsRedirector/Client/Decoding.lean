import VfsRedirector.Client.Encoding

/-!
# What the client reads

`VFSFilter0NotificationHandler` dequeues a message over `vdata` and looks at the
fields that `Header.Type` and `op` say are there. `received` reads them, a
string only if it ends in its `char[MAXPATHLEN]`.

A message is cut after its last string, at a length that is computed from the
whole union. `sent_received`: the cut leaves all the fields of its variant, and
nothing that `vdata` held before can be seen in them. `named_received` says it
also of a message that gives a vnode in place of a path.

## Results

* `named_received` — the buffer holds what was sent, whatever it held before.
* `sent_received` — with the names that `vn_getpath` gives for the vnodes.
-/

namespace VfsRedirector

open Library UserClientLayout Layout

-- ---------------------------------------------------------------------------
-- As in the source
-- ---------------------------------------------------------------------------

/-- `vdata` after `IODataQueueDequeue` of the first `size` bytes of `data`. -/
def dequeue (data : List UInt8) (size : Nat) (vdata : List UInt8) : List UInt8 :=
  data.take size ++ vdata.drop size

/-- What there is for a `Type` and an `op`. -/
inductive ReceivedData where
  | audit (opcode : UInt32) (error : Int32) (path redirectedPath : List UInt8)
  | lookup (op : UInt32) (id : Int64) (calledFromCreate : UInt16)
      (redirectedPath path shadowFilePath : List UInt8)
  | exchange (op : UInt32) (id : Int64) (source target : List UInt8)
  | filter (op : UInt32) (id : Int64) (filterOp : UInt32) (path : List UInt8)
  deriving DecidableEq

structure Received where
  Version : Int32
  Type' : UInt32
  Data : ReceivedData
  deriving DecidableEq

def readUInt32 (vdata : List UInt8) (field : Nat) : Option UInt32 :=
  (readLE vdata field 4).map UInt32.ofNat

def readPath (vdata : List UInt8) (field : Nat) : Option (List UInt8) :=
  readString vdata field MAXPATHLEN

def receivedAudit (vdata : List UInt8) : Option ReceivedData := do
  let opcode ← readUInt32 vdata (auditField 0)
  let error ← readUInt32 vdata (auditField 1)
  let path ← readPath vdata (auditField 2)
  let redirectedPath ← readPath vdata (auditField 3)
  pure (.audit opcode error.toInt32 path redirectedPath)

def receivedCallback (vdata : List UInt8) : Option ReceivedData := do
  let op ← readUInt32 vdata (preOperationField 0)
  let id := (UInt64.ofNat (← readLE vdata (preOperationField 1) 8)).toInt64
  if op = VFSOpcode.lookup.code then
    let calledFromCreate := UInt16.ofNat (← readLE vdata (lookupField 0) 2)
    let redirectedPath ← readPath vdata (lookupField 1)
    let path ← readPath vdata (lookupField 2)
    let shadowFilePath ← readPath vdata (lookupField 3)
    pure (.lookup op id calledFromCreate redirectedPath path shadowFilePath)
  else if op = VFSOpcode.exchange.code then
    let source ← readPath vdata (exchangeField 0)
    let target ← readPath vdata (exchangeField 1)
    pure (.exchange op id source target)
  else if op = VFSOpcode.filter.code then
    let filterOp ← readUInt32 vdata (filterField 0)
    let path ← readPath vdata (filterField 1)
    pure (.filter op id filterOp path)
  else none

def received (vdata : List UInt8) : Option Received := do
  let version ← readUInt32 vdata (offset header 0)
  let type ← readUInt32 vdata (offset header 1)
  if type = VFSDataType_Audit then
    pure ⟨version.toInt32, type, ← receivedAudit vdata⟩
  else if type = VFSDataType_PreOperationCallback then
    pure ⟨version.toInt32, type, ← receivedCallback vdata⟩
  else none

-- ---------------------------------------------------------------------------
-- What it should read
-- ---------------------------------------------------------------------------

/-- The pointer is to a string that ends. -/
def Terminated (path : List UInt8) : Prop := ∃ s, cstring path = some s

/-- The string, if it fits in a field with its terminator, else the empty one. -/
def fitted (path : List UInt8) : List UInt8 :=
  match cstring path with
  | some s => if s.length + 1 ≤ MAXPATHLEN then s else []
  | none => []

/-- The same, or the empty string for NULL. -/
def fittedOptional : Option (List UInt8) → List UInt8
  | some path => fitted path
  | none => []

section Spec

variable {Vnode : Type}

def VFSDataUnion.asReceived : VFSDataUnion Vnode → ReceivedData
  | .audit a => .audit a.op.code a.error (fittedOptional a.path) (fittedOptional a.redirectedPath)
  | .preOperationCallback ⟨id, .lookup path _ redirectedPath shadowFilePath calledFromCreate⟩ =>
    .lookup VFSOpcode.lookup.code id (if calledFromCreate then 1 else 0)
      (fittedOptional redirectedPath) (fittedOptional path) (fittedOptional shadowFilePath)
  | .preOperationCallback ⟨id, .exchange source target⟩ =>
    .exchange VFSOpcode.exchange.code id (fitted source) (fitted target)
  | .preOperationCallback ⟨id, .filter op path⟩ =>
    .filter VFSOpcode.filter.code id op.code (fitted path)

/-- What there is to read in a message, of the kernel's own data. -/
def VFSData.asReceived (kernelData : VFSData Vnode) : Received :=
  ⟨kernelData.Version, kernelData.Data.type, kernelData.Data.asReceived⟩

/-- Every string of the message ends. -/
def VFSDataUnion.Terminated : VFSDataUnion Vnode → Prop
  | .audit a => (∀ path ∈ a.path, VfsRedirector.Terminated path) ∧
      ∀ path ∈ a.redirectedPath, VfsRedirector.Terminated path
  | .preOperationCallback ⟨_, .lookup path _ redirectedPath shadowFilePath _⟩ =>
    (∀ p ∈ path, VfsRedirector.Terminated p) ∧
      (∀ p ∈ redirectedPath, VfsRedirector.Terminated p) ∧
      ∀ p ∈ shadowFilePath, VfsRedirector.Terminated p
  | .preOperationCallback ⟨_, .exchange source target⟩ =>
    VfsRedirector.Terminated source ∧ VfsRedirector.Terminated target
  | .preOperationCallback ⟨_, .filter _ path⟩ => VfsRedirector.Terminated path

/-- The message does not give a vnode in place of a path. -/
def VFSDataUnion.NoVnode : VFSDataUnion Vnode → Prop
  | .audit a => a.path = none → a.vn = none
  | .preOperationCallback ⟨_, .lookup path vn _ _ _⟩ => path = none → vn = none
  | _ => True

/-- The path that goes into a message, or the name in its place. -/
def sentPath (vnGetpath : Vnode → Except Int32 (List UInt8)) :
    Option (List UInt8) → Option Vnode → List UInt8
  | some path, _ => fitted path
  | none, none => []
  | none, some vn =>
    match vnGetpath vn with
    | .ok name => name
    | .error _ => []

/-- A name that is asked for goes into a field with its terminator. -/
def NameFits (vnGetpath : Vnode → Except Int32 (List UInt8)) (path : Option (List UInt8))
    (vn : Option Vnode) : Prop :=
  path = none → ∀ v ∈ vn, ∀ name, vnGetpath v = .ok name → 0 ∉ name ∧ name.length < MAXPATHLEN

def VFSDataUnion.NamesFit (vnGetpath : Vnode → Except Int32 (List UInt8)) :
    VFSDataUnion Vnode → Prop
  | .audit a => NameFits vnGetpath a.path a.vn
  | .preOperationCallback ⟨_, .lookup path vn _ _ _⟩ => NameFits vnGetpath path vn
  | _ => True

/-- `asReceived`, with the names that were asked for. -/
def VFSDataUnion.namedAs (vnGetpath : Vnode → Except Int32 (List UInt8)) :
    VFSDataUnion Vnode → ReceivedData
  | .audit a =>
    .audit a.op.code a.error (sentPath vnGetpath a.path a.vn) (fittedOptional a.redirectedPath)
  | .preOperationCallback ⟨id, .lookup path vn redirectedPath shadowFilePath calledFromCreate⟩ =>
    .lookup VFSOpcode.lookup.code id (if calledFromCreate then 1 else 0)
      (fittedOptional redirectedPath) (sentPath vnGetpath path vn) (fittedOptional shadowFilePath)
  | data => data.asReceived

-- ---------------------------------------------------------------------------
-- The fields that the encoder fills
-- ---------------------------------------------------------------------------

variable {m path : List UInt8} {k n lo : Nat} {fields : List (Nat × List UInt8)}
  {vnGetpath : Vnode → Except Int32 (List UInt8)}

/-- A string that ends goes into its field whole if it fits, and is left out if not. -/
theorem fitted_terminated {s rest : List UInt8} (h : 0 ∉ s) :
    fitted (s ++ 0 :: rest) = if s.length + 1 ≤ MAXPATHLEN then s else [] := by
  rw [fitted, cstring_terminated h]

/-- What goes into a field for a path has no terminator in it. -/
theorem zero_notMem_fitted (path : List UInt8) : 0 ∉ fitted path := by
  rw [fitted]
  split
  · rename_i s hs
    obtain ⟨rest, -, h0⟩ := eq_of_cstring hs
    split
    · exact h0
    · exact List.not_mem_nil
  · exact List.not_mem_nil

/-- What goes into a field for a path leaves room for its terminator. -/
theorem length_fitted (path : List UInt8) : (fitted path).length < MAXPATHLEN := by
  rw [fitted]
  split
  · split
    · assumption
    · decide
  · decide

/-- What goes into a field for an optional path has no terminator in it. -/
theorem zero_notMem_fittedOptional (path : Option (List UInt8)) : 0 ∉ fittedOptional path := by
  cases path with
  | none => exact List.not_mem_nil
  | some path => exact zero_notMem_fitted path

/-- What goes into a field for an optional path leaves room for its terminator. -/
theorem length_fittedOptional (path : Option (List UInt8)) :
    (fittedOptional path).length < MAXPATHLEN := by
  cases path with
  | none => decide
  | some path => exact length_fitted path

/-- An empty string in a field of its own. -/
theorem emptyPath_fields (h : Fields n fields m) (hbelow : Below fields lo) (hlo : lo ≤ k)
    (hin : k + MAXPATHLEN ≤ n) :
    ∃ m', write m k [0] = some m' ∧ Fields n ((k, [] ++ [0]) :: fields) m' ∧
      Below ((k, [] ++ [0]) :: fields) (k + MAXPATHLEN) := by
  have hroom : k + ([] ++ [(0 : UInt8)]).length ≤ k + MAXPATHLEN :=
    Nat.add_le_add_left (by decide) k
  exact h.write_next hbelow hlo hroom hin

/-- `copyPath` fills one field, behind those that are filled. -/
theorem copyPath_fields (h : Fields n fields m) (hbelow : Below fields lo)
    (hpath : Terminated path) (hlo : lo ≤ k) (hin : k + MAXPATHLEN ≤ n) :
    ∃ m', copyPath m k path = some m' ∧
      Fields n ((k, fitted path ++ [0]) :: fields) m' ∧
      Below ((k, fitted path ++ [0]) :: fields) (k + MAXPATHLEN) := by
  obtain ⟨s, hs⟩ := hpath
  obtain ⟨rest, rfl, h0⟩ := eq_of_cstring hs
  rw [copyPath, strlen_terminated h0, Option.bind_eq_bind, Option.bind_some,
    fitted_terminated h0]
  by_cases hfits : s.length + 1 ≤ MAXPATHLEN
  · have htake : (s ++ 0 :: rest).take (s.length + 1) = s ++ [0] := by
      rw [List.take_length_add_append]
      rfl
    have hroom : k + (s ++ [0]).length ≤ k + MAXPATHLEN := by
      rw [List.length_append, List.length_singleton]
      omega
    rw [if_pos hfits, if_pos hfits, memcpy, if_pos (by simp), htake]
    exact h.write_next hbelow hlo hroom hin
  · rw [if_neg hfits, if_neg hfits]
    exact emptyPath_fields h hbelow hlo hin

/-- For NULL the field gets the empty string. -/
theorem copyOptionalPath_fields (h : Fields n fields m) (hbelow : Below fields lo)
    {path : Option (List UInt8)} (hpath : ∀ p ∈ path, Terminated p) (hlo : lo ≤ k)
    (hin : k + MAXPATHLEN ≤ n) :
    ∃ m', copyOptionalPath m k path = some m' ∧
      Fields n ((k, fittedOptional path ++ [0]) :: fields) m' ∧
      Below ((k, fittedOptional path ++ [0]) :: fields) (k + MAXPATHLEN) := by
  cases path with
  | none => exact emptyPath_fields h hbelow hlo hin
  | some path => exact copyPath_fields h hbelow (hpath path rfl) hlo hin

/-- Without a vnode what is sent is the path, or the empty string. -/
theorem sentPath_eq {path : Option (List UInt8)} {vn : Option Vnode}
    (h : path = none → vn = none) : sentPath vnGetpath path vn = fittedOptional path := by
  cases path with
  | none =>
    rw [h rfl]
    rfl
  | some path => rfl

/-- The path that is sent, or the name in its place, has no terminator in it. -/
theorem zero_notMem_sentPath {path : Option (List UInt8)} {vn : Option Vnode}
    (h : NameFits vnGetpath path vn) : 0 ∉ sentPath vnGetpath path vn := by
  unfold sentPath
  split
  · exact zero_notMem_fitted _
  · exact List.not_mem_nil
  · split
    · rename_i name hname
      exact (h rfl _ rfl name hname).1
    · exact List.not_mem_nil

/-- The path that is sent, or the name in its place, leaves room for its terminator. -/
theorem length_sentPath {path : Option (List UInt8)} {vn : Option Vnode}
    (h : NameFits vnGetpath path vn) : (sentPath vnGetpath path vn).length < MAXPATHLEN := by
  unfold sentPath
  split
  · exact length_fitted _
  · decide
  · split
    · rename_i name hname
      exact (h rfl _ rfl name hname).2
    · decide

/-- A path, or the name of the vnode where there is none, fills one field. -/
theorem copyPathOrVnode_fields (h : Fields n fields m) (hbelow : Below fields lo)
    {path : Option (List UInt8)} {vn : Option Vnode} (hpath : ∀ p ∈ path, Terminated p)
    (hname : NameFits vnGetpath path vn) (hlo : lo ≤ k) (hin : k + MAXPATHLEN ≤ n) :
    ∃ m', copyPathOrVnode vnGetpath m k path vn = some m' ∧
      Fields n ((k, sentPath vnGetpath path vn ++ [0]) :: fields) m' ∧
      Below ((k, sentPath vnGetpath path vn ++ [0]) :: fields) (k + MAXPATHLEN) := by
  have hlength := length_sentPath hname
  cases path with
  | some path => exact copyPath_fields h hbelow (hpath _ rfl) hlo hin
  | none =>
    cases vn with
    | none => exact emptyPath_fields h hbelow hlo hin
    | some vn =>
      unfold sentPath at hlength ⊢
      unfold copyPathOrVnode
      cases hok : vnGetpath vn with
      | error error =>
        simp only [hok]
        exact emptyPath_fields h hbelow hlo hin
      | ok name =>
        simp only [hok] at hlength ⊢
        refine h.write_next hbelow hlo ?_ hin
        rw [List.length_append, List.length_singleton]
        omega

/-- A number fills the bytes of its field. -/
theorem writeLE_fields (h : Fields n fields m) (hbelow : Below fields lo) (w bits : Nat)
    (hlo : lo ≤ k) (hin : k + w ≤ n) :
    ∃ m', write m k (toLE w bits) = some m' ∧ Fields n ((k, toLE w bits) :: fields) m' ∧
      Below ((k, toLE w bits) :: fields) (k + w) :=
  h.write_next hbelow hlo (by rw [length_toLE]) hin

/-- The length that is added for the last string is that of what the field holds, with its
terminator. -/
theorem addedLength_eq {path : Option (List UInt8)} (hpath : ∀ p ∈ path, Terminated p) :
    addedLength path = some ((fittedOptional path).length + 1) := by
  cases path with
  | none => rfl
  | some path =>
    obtain ⟨s, hs⟩ := hpath path rfl
    obtain ⟨rest, rfl, h0⟩ := eq_of_cstring hs
    rw [addedLength, strlen_terminated h0, fittedOptional, fitted_terminated h0]
    rw [Option.bind_eq_bind, Option.bind_some]
    dsimp only
    by_cases hfits : s.length + 1 ≤ MAXPATHLEN
    · rw [if_pos hfits, if_pos hfits]
      rfl
    · rw [if_neg hfits, if_neg hfits]
      rfl

/-- `strlen` of a field is the length of the string that was put there. -/
theorem strlen_field {s : List UInt8} (h : Fields n ((k, s ++ [0]) :: fields) m)
    (h0 : 0 ∉ s) : strlen (m.drop k) = some s.length := by
  rw [strlen, (h.2 _ List.mem_cons_self).cstring h0]
  rfl

-- ---------------------------------------------------------------------------
-- A message as it is enqueued
-- ---------------------------------------------------------------------------

/-- What the client has at each place of the list, whatever it had before. -/
def Enqueued (data : List UInt8) (size : Nat) (fields : List (Nat × List UInt8)) : Prop :=
  0 < size ∧ size ≤ sizeofData ∧ ∀ vdata : List UInt8, vdata.length = sizeofData →
    Fields sizeofData fields (dequeue data size vdata)

/-- The cut is at the end of the last string, and all that is filled in lies before it. -/
theorem enqueued_fields {s : List UInt8} (h : Fields sizeofData ((k, s ++ [0]) :: fields) m)
    (hbelow : Below fields lo) (hlo : lo ≤ sizeofData - MAXPATHLEN)
    (hfield : k ≤ sizeofData - MAXPATHLEN) (hs : s.length < MAXPATHLEN) :
    Enqueued m (sizeofData - MAXPATHLEN + (s.length + 1)) ((k, s ++ [0]) :: fields) := by
  have hmax : MAXPATHLEN ≤ sizeofData := by decide
  have hcut : sizeofData - MAXPATHLEN + (s.length + 1) ≤ sizeofData := by omega
  refine ⟨by omega, hcut, fun vdata hvdata => h.take hvdata hcut (hbelow.cons (by omega) ?_)⟩
  rw [List.length_append, List.length_singleton]
  omega

/-- An audit record is filled in field by field and cut after the redirected path. -/
theorem encodeAudit_fields (h : Fields sizeofData fields m) (hbelow : Below fields (auditField 0))
    {a : VFSAudit Vnode} (hterm : (VFSDataUnion.audit a).Terminated)
    (hname : NameFits vnGetpath a.path a.vn) :
    ∃ data size, encodeAudit vnGetpath m a = some (data, size) ∧
      Enqueued data size ((auditField 3, fittedOptional a.redirectedPath ++ [0]) ::
        (auditField 2, sentPath vnGetpath a.path a.vn ++ [0]) ::
        (auditField 1, toLE 4 a.error.toUInt32.toNat) ::
        (auditField 0, toLE 4 a.op.code.toNat) :: fields) := by
  obtain ⟨hsize, -, -, h0, h1, h2, h3, -⟩ := places
  have hmax : MAXPATHLEN = 1024 := rfl
  obtain ⟨m₁, hm₁, hf₁, hb₁⟩ := writeLE_fields h hbelow 4 a.op.code.toNat le_rfl (by omega)
  obtain ⟨m₂, hm₂, hf₂, hb₂⟩ := writeLE_fields (k := auditField 1) hf₁ hb₁ 4
    a.error.toUInt32.toNat (by omega) (by omega)
  obtain ⟨m₃, hm₃, hf₃, hb₃⟩ := copyPathOrVnode_fields (k := auditField 2) hf₂ hb₂ hterm.1
    hname (by omega) (by omega)
  obtain ⟨m₄, hm₄, hf₄, -⟩ := copyOptionalPath_fields (k := auditField 3) hf₃ hb₃ hterm.2
    (by omega) (by omega)
  refine ⟨m₄, _, ?_, enqueued_fields hf₄ hb₃ (by omega) (by omega) (length_fittedOptional _)⟩
  simp only [encodeAudit, writeInt32, hm₁, hm₂, hm₃, hm₄,
    addedLength_eq hterm.2, Option.bind_eq_bind, Option.bind_some]
  rfl

/-- The `id` goes first, though it is behind the `op`. -/
theorem writeCallback_fields (h : Fields sizeofData fields m)
    (hbelow : Below fields (preOperationField 0)) (id : Int64) (op : UInt32) :
    ∃ m₁ data, write m (preOperationField 1) (toLE 8 id.toUInt64.toNat) = some m₁ ∧
      writeInt32 m₁ (preOperationField 0) op = some data ∧
      Fields sizeofData ((preOperationField 0, toLE 4 op.toNat) ::
        (preOperationField 1, toLE 8 id.toUInt64.toNat) :: fields) data ∧
      Below ((preOperationField 0, toLE 4 op.toNat) ::
        (preOperationField 1, toLE 8 id.toUInt64.toNat) :: fields) (preOperationField 2) := by
  have hop : preOperationField 0 + 4 ≤ preOperationField 1 := by decide
  have hid : preOperationField 1 + 8 ≤ preOperationField 2 := by decide
  have hsize : preOperationField 2 ≤ sizeofData := by decide
  obtain ⟨m₁, hm₁, hf₁, hb₁⟩ := writeLE_fields (k := preOperationField 1) h hbelow 8
    id.toUInt64.toNat (by omega) (by omega)
  have hapart : ∀ f ∈ (preOperationField 1, toLE 8 id.toUInt64.toNat) :: fields,
      f.1 + f.2.length ≤ preOperationField 0 ∨
        preOperationField 0 + (toLE 4 op.toNat).length ≤ f.1 := by
    intro f hf
    obtain rfl | hf := List.mem_cons.mp hf
    · right
      rw [length_toLE]
      exact hop
    · exact Or.inl (hbelow f hf)
  obtain ⟨data, hdata, hf₂⟩ := hf₁.write (by rw [length_toLE]; omega) hapart
  exact ⟨m₁, data, hm₁, hdata, hf₂, hb₁.cons hid (by rw [length_toLE]; omega)⟩

/-- The data for a lookup is cut after the path of the shadow file. -/
theorem encodeLookup_fields (h : Fields sizeofData fields m)
    (hbelow : Below fields (lookupField 0)) {id : Int64} {path : Option (List UInt8)}
    {vn : Option Vnode} {redirectedPath shadowFilePath : Option (List UInt8)}
    {calledFromCreate : Bool}
    (hterm : VFSDataUnion.Terminated (.preOperationCallback
      ⟨id, .lookup path vn redirectedPath shadowFilePath calledFromCreate⟩))
    (hname : NameFits vnGetpath path vn) :
    ∃ data size, encodeParameters vnGetpath m
        (.lookup path vn redirectedPath shadowFilePath calledFromCreate) = some (data, size) ∧
      Enqueued data size ((lookupField 3, fittedOptional shadowFilePath ++ [0]) ::
        (lookupField 2, sentPath vnGetpath path vn ++ [0]) ::
        (lookupField 1, fittedOptional redirectedPath ++ [0]) ::
        (lookupField 0, toLE 2 calledFromCreate.toNat) :: fields) := by
  obtain ⟨hsize, -, -, -, -, -, -, -, -, h0, h1, h2, h3, -⟩ := places
  have hmax : MAXPATHLEN = 1024 := rfl
  obtain ⟨hpath, hredirected, hshadow⟩ := hterm
  obtain ⟨m₁, hm₁, hf₁, hb₁⟩ := writeLE_fields h hbelow 2 calledFromCreate.toNat le_rfl (by omega)
  obtain ⟨m₂, hm₂, hf₂, hb₂⟩ := copyOptionalPath_fields (k := lookupField 1) hf₁ hb₁
    hredirected (by omega) (by omega)
  obtain ⟨m₃, hm₃, hf₃, hb₃⟩ := copyPathOrVnode_fields (k := lookupField 2) hf₂ hb₂ hpath
    hname (by omega) (by omega)
  obtain ⟨m₄, hm₄, hf₄, -⟩ := copyOptionalPath_fields (k := lookupField 3) hf₃ hb₃ hshadow
    (by omega) (by omega)
  refine ⟨m₄, _, ?_, enqueued_fields hf₄ hb₃ (by omega) (by omega) (length_fittedOptional _)⟩
  simp only [encodeParameters, hm₁, hm₂, hm₃, hm₄,
    strlen_field hf₄ (zero_notMem_fittedOptional _), Option.bind_eq_bind, Option.bind_some]
  rfl

/-- The data for an exchange is cut after the target. -/
theorem encodeExchange_fields (h : Fields sizeofData fields m)
    (hbelow : Below fields (exchangeField 0)) {source target : List UInt8}
    (hsource : Terminated source) (htarget : Terminated target) :
    ∃ data size, encodeParameters vnGetpath m (.exchange source target) = some (data, size) ∧
      Enqueued data size ((exchangeField 1, fitted target ++ [0]) ::
        (exchangeField 0, fitted source ++ [0]) :: fields) := by
  obtain ⟨hsize, -, -, -, -, -, -, -, -, -, -, -, -, h0, h1, -⟩ := places
  have hmax : MAXPATHLEN = 1024 := rfl
  obtain ⟨m₁, hm₁, hf₁, hb₁⟩ := copyPath_fields h hbelow hsource le_rfl (by omega)
  obtain ⟨m₂, hm₂, hf₂, -⟩ := copyPath_fields (k := exchangeField 1) hf₁ hb₁ htarget
    (by omega) (by omega)
  refine ⟨m₂, _, ?_, enqueued_fields hf₂ hb₁ (by omega) (by omega) (length_fitted _)⟩
  simp only [encodeParameters, hm₁, hm₂, strlen_field hf₂ (zero_notMem_fitted _),
    Option.bind_eq_bind, Option.bind_some]
  rfl

/-- The data for a filter request is cut after its path. -/
theorem encodeFilter_fields (h : Fields sizeofData fields m)
    (hbelow : Below fields (filterField 0)) {op : VFSOpcode} {path : List UInt8}
    (hpath : Terminated path) :
    ∃ data size, encodeParameters vnGetpath m (.filter op path) = some (data, size) ∧
      Enqueued data size ((filterField 1, fitted path ++ [0]) ::
        (filterField 0, toLE 4 op.code.toNat) :: fields) := by
  obtain ⟨hsize, -, -, -, -, -, -, -, -, -, -, -, -, -, -, h0, h1⟩ := places
  have hmax : MAXPATHLEN = 1024 := rfl
  obtain ⟨m₁, hm₁, hf₁, hb₁⟩ := writeLE_fields h hbelow 4 op.code.toNat le_rfl (by omega)
  obtain ⟨m₂, hm₂, hf₂, -⟩ := copyPath_fields (k := filterField 1) hf₁ hb₁ hpath
    (by omega) (by omega)
  refine ⟨m₂, _, ?_, enqueued_fields hf₂ hb₁ (by omega) (by omega) (length_fitted _)⟩
  simp only [encodeParameters, writeInt32, hm₁, hm₂, strlen_field hf₂ (zero_notMem_fitted _),
    Option.bind_eq_bind, Option.bind_some]
  rfl

-- ---------------------------------------------------------------------------
-- A message as it is read
-- ---------------------------------------------------------------------------

/-- A number that is among the fields is read as it was written. -/
theorem readUInt32_of_mem (h : Fields sizeofData fields m) {bits : UInt32}
    (hmem : (k, toLE 4 bits.toNat) ∈ fields) (hin : k + 4 ≤ sizeofData) :
    readUInt32 m k = some bits := by
  have hlt : bits.toNat < 256 ^ 4 := bits.toNat_lt
  rw [readUInt32, h.readLE hmem hin, Option.map_some, Nat.mod_eq_of_lt hlt, UInt32.ofNat_toNat]

/-- A string that is among the fields is read as it was written. -/
theorem readPath_of_mem (h : Fields sizeofData fields m) {path : List UInt8}
    (hmem : (k, fitted path ++ [0]) ∈ fields) (hin : k + MAXPATHLEN ≤ sizeofData) :
    readPath m k = some (fitted path) :=
  h.readString hmem (zero_notMem_fitted path) (length_fitted path) hin

/-- An optional string that is among the fields is read, for NULL as the empty one. -/
theorem readOptionalPath_of_mem (h : Fields sizeofData fields m) {path : Option (List UInt8)}
    (hmem : (k, fittedOptional path ++ [0]) ∈ fields) (hin : k + MAXPATHLEN ≤ sizeofData) :
    readPath m k = some (fittedOptional path) :=
  h.readString hmem (zero_notMem_fittedOptional path) (length_fittedOptional path) hin

/-- A name that was asked for in place of a path is read as it was written. -/
theorem readSentPath_of_mem (h : Fields sizeofData fields m) {path : Option (List UInt8)}
    {vn : Option Vnode} (hname : NameFits vnGetpath path vn)
    (hmem : (k, sentPath vnGetpath path vn ++ [0]) ∈ fields) (hin : k + MAXPATHLEN ≤ sizeofData) :
    readPath m k = some (sentPath vnGetpath path vn) :=
  h.readString hmem (zero_notMem_sentPath hname) (length_sentPath hname) hin

/-- From the fields of an audit record all its data is read. -/
theorem received_audit {a : VFSAudit Vnode} (hname : NameFits vnGetpath a.path a.vn)
    (h : Fields sizeofData ((auditField 3, fittedOptional a.redirectedPath ++ [0]) ::
      (auditField 2, sentPath vnGetpath a.path a.vn ++ [0]) ::
      (auditField 1, toLE 4 a.error.toUInt32.toNat) ::
      (auditField 0, toLE 4 a.op.code.toNat) :: fields) m) :
    receivedAudit m = some (VFSDataUnion.namedAs vnGetpath (.audit a)) := by
  have hopcode : readUInt32 m (auditField 0) = some a.op.code :=
    readUInt32_of_mem h (by simp) (by decide)
  have herror : readUInt32 m (auditField 1) = some a.error.toUInt32 :=
    readUInt32_of_mem h (by simp) (by decide)
  have hpath : readPath m (auditField 2) = some (sentPath vnGetpath a.path a.vn) :=
    readSentPath_of_mem h hname (by simp) (by decide)
  have hredirected : readPath m (auditField 3) = some (fittedOptional a.redirectedPath) :=
    readOptionalPath_of_mem h (by simp) (by decide)
  simp only [receivedAudit, hopcode, herror, hpath, hredirected, Option.bind_eq_bind,
    Option.bind_some]
  rfl

/-- The `op` and the `id` of a callback. -/
theorem read_op_id (h : Fields sizeofData fields m) {op : UInt32} {id : Int64}
    (hop : (preOperationField 0, toLE 4 op.toNat) ∈ fields)
    (hid : (preOperationField 1, toLE 8 id.toUInt64.toNat) ∈ fields) :
    readUInt32 m (preOperationField 0) = some op ∧
      readLE m (preOperationField 1) 8 = some id.toUInt64.toNat := by
  have hlt : id.toUInt64.toNat < 256 ^ 8 := id.toUInt64.toNat_lt
  refine ⟨readUInt32_of_mem h hop (by decide), ?_⟩
  rw [h.readLE hid (by decide), Nat.mod_eq_of_lt hlt]

/-- From the fields of a lookup all its data is read. -/
theorem received_lookup {id : Int64} {path : Option (List UInt8)} {vn : Option Vnode}
    {redirectedPath shadowFilePath : Option (List UInt8)} {calledFromCreate : Bool}
    (hname : NameFits vnGetpath path vn)
    (h : Fields sizeofData ((lookupField 3, fittedOptional shadowFilePath ++ [0]) ::
      (lookupField 2, sentPath vnGetpath path vn ++ [0]) ::
      (lookupField 1, fittedOptional redirectedPath ++ [0]) ::
      (lookupField 0, toLE 2 calledFromCreate.toNat) ::
      (preOperationField 0, toLE 4 VFSOpcode.lookup.code.toNat) ::
      (preOperationField 1, toLE 8 id.toUInt64.toNat) :: fields) m) :
    receivedCallback m = some (VFSDataUnion.namedAs vnGetpath (.preOperationCallback
      ⟨id, .lookup path vn redirectedPath shadowFilePath calledFromCreate⟩)) := by
  -- each field is read where it was written, the others apart
  have hopid : readUInt32 m (preOperationField 0) = some VFSOpcode.lookup.code ∧
      readLE m (preOperationField 1) 8 = some id.toUInt64.toNat :=
    read_op_id h (by simp) (by simp)
  obtain ⟨hop, hid⟩ := hopid
  have hcalled : readLE m (lookupField 0) 2 = some calledFromCreate.toNat := by
    have hread : readLE m (lookupField 0) 2 = some (calledFromCreate.toNat % 256 ^ 2) :=
      h.readLE (by simp) (by decide)
    rw [hread]
    cases calledFromCreate <;> rfl
  have hredirected : readPath m (lookupField 1) = some (fittedOptional redirectedPath) :=
    readOptionalPath_of_mem h (by simp) (by decide)
  have hpath : readPath m (lookupField 2) = some (sentPath vnGetpath path vn) :=
    readSentPath_of_mem h hname (by simp) (by decide)
  have hshadow : readPath m (lookupField 3) = some (fittedOptional shadowFilePath) :=
    readOptionalPath_of_mem h (by simp) (by decide)
  simp only [receivedCallback, hop, hid, if_true, hcalled, hredirected,
    hpath, hshadow, Option.bind_eq_bind, Option.bind_some, UInt64.ofNat_toNat]
  cases calledFromCreate <;> rfl

/-- From the fields of an exchange all its data is read. -/
theorem received_exchange {id : Int64} {source target : List UInt8}
    (h : Fields sizeofData ((exchangeField 1, fitted target ++ [0]) ::
      (exchangeField 0, fitted source ++ [0]) ::
      (preOperationField 0, toLE 4 VFSOpcode.exchange.code.toNat) ::
      (preOperationField 1, toLE 8 id.toUInt64.toNat) :: fields) m) :
    receivedCallback m =
      some (.exchange VFSOpcode.exchange.code id (fitted source) (fitted target)) := by
  have hopid : readUInt32 m (preOperationField 0) = some VFSOpcode.exchange.code ∧
      readLE m (preOperationField 1) 8 = some id.toUInt64.toNat :=
    read_op_id h (by simp) (by simp)
  obtain ⟨hop, hid⟩ := hopid
  have hsource : readPath m (exchangeField 0) = some (fitted source) :=
    readPath_of_mem h (by simp) (by decide)
  have htarget : readPath m (exchangeField 1) = some (fitted target) :=
    readPath_of_mem h (by simp) (by decide)
  have hne : VFSOpcode.exchange.code ≠ VFSOpcode.lookup.code := by decide
  simp only [receivedCallback, hop, hid, if_neg hne, if_true, hsource,
    htarget, Option.bind_eq_bind, Option.bind_some, UInt64.ofNat_toNat]
  rfl

/-- From the fields of a filter request all its data is read. -/
theorem received_filter {id : Int64} {op : VFSOpcode} {path : List UInt8}
    (h : Fields sizeofData ((filterField 1, fitted path ++ [0]) ::
      (filterField 0, toLE 4 op.code.toNat) ::
      (preOperationField 0, toLE 4 VFSOpcode.filter.code.toNat) ::
      (preOperationField 1, toLE 8 id.toUInt64.toNat) :: fields) m) :
    receivedCallback m =
      some (.filter VFSOpcode.filter.code id op.code (fitted path)) := by
  have hopid : readUInt32 m (preOperationField 0) = some VFSOpcode.filter.code ∧
      readLE m (preOperationField 1) 8 = some id.toUInt64.toNat :=
    read_op_id h (by simp) (by simp)
  obtain ⟨hop, hid⟩ := hopid
  have hfilter : readUInt32 m (filterField 0) = some op.code :=
    readUInt32_of_mem h (by simp) (by decide)
  have hpath : readPath m (filterField 1) = some (fitted path) :=
    readPath_of_mem h (by simp) (by decide)
  have hlookup : VFSOpcode.filter.code ≠ VFSOpcode.lookup.code := by decide
  have hexchange : VFSOpcode.filter.code ≠ VFSOpcode.exchange.code := by decide
  simp only [receivedCallback, hop, hid, if_neg hlookup,
    if_neg hexchange, if_true, hfilter, hpath, Option.bind_eq_bind, Option.bind_some,
    UInt64.ofNat_toNat]
  rfl

-- ---------------------------------------------------------------------------
-- Main results
-- ---------------------------------------------------------------------------

/-- What `Header` and the data of its type give, read together. -/
theorem received_eq (kernelData : VFSData Vnode) {data : ReceivedData}
    (h : Fields sizeofData fields m)
    (hversion : (offset header 0, toLE 4 kernelData.Version.toUInt32.toNat) ∈ fields)
    (htype : (offset header 1, toLE 4 kernelData.Data.type.toNat) ∈ fields)
    (haudit : kernelData.Data.type = VFSDataType_Audit → receivedAudit m = some data)
    (hcallback : kernelData.Data.type = VFSDataType_PreOperationCallback →
      receivedCallback m = some data) :
    received m = some ⟨kernelData.Version, kernelData.Data.type, data⟩ := by
  have hv : readUInt32 m (offset header 0) = some kernelData.Version.toUInt32 :=
    readUInt32_of_mem h hversion (by decide)
  have ht : readUInt32 m (offset header 1) = some kernelData.Data.type :=
    readUInt32_of_mem h htype (by decide)
  have hne : VFSDataType_PreOperationCallback ≠ VFSDataType_Audit := by decide
  rw [received, hv, Option.bind_eq_bind, Option.bind_some, ht, Option.bind_eq_bind,
    Option.bind_some]
  cases hdata : kernelData.Data with
  | audit a =>
    rw [hdata] at haudit
    rw [VFSDataUnion.type, if_pos rfl, haudit rfl]
    rfl
  | preOperationCallback callback =>
    rw [hdata] at hcallback
    rw [VFSDataUnion.type, if_neg hne, if_pos rfl, hcallback rfl]
    rfl

/-- A message is at most as long as the buffer of the client, which reads from it what
the kernel sent, whatever the buffer held. -/
theorem named_received (kernelData : VFSData Vnode) (hterm : kernelData.Data.Terminated)
    (hname : kernelData.Data.NamesFit vnGetpath) :
    ∃ data size, sendVFSDataToClient vnGetpath kernelData = some (data, size) ∧
      0 < size ∧ size ≤ sizeofData ∧ ∀ vdata : List UInt8, vdata.length = sizeofData →
        (dequeue data size vdata).length = sizeofData ∧ received (dequeue data size vdata) =
          some ⟨kernelData.Version, kernelData.Data.type, kernelData.Data.namedAs vnGetpath⟩ := by
  obtain ⟨hsize, hh0, hh1, ha0, -⟩ := places
  obtain ⟨version, content⟩ := kernelData
  -- the message starts as zeros; the fields are written one after the other
  have hzero : Fields sizeofData [] (List.replicate sizeofData 0) :=
    Fields.nil List.length_replicate
  obtain ⟨m₁, hm₁, hf₁, hb₁⟩ := writeLE_fields (k := offset header 0) hzero Below.nil 4
    version.toUInt32.toNat (Nat.zero_le _) (by omega)
  obtain ⟨m₂, hm₂, hf₂, hb₂⟩ := writeLE_fields (k := offset header 1) hf₁ hb₁ 4
    content.type.toNat (by omega) (by omega)
  -- the union begins after the header
  have hheader : offset header 1 + 4 = auditField 0 := by decide
  rw [hheader] at hb₂
  have hne : VFSDataType_PreOperationCallback ≠ VFSDataType_Audit := by decide
  unfold sendVFSDataToClient
  simp only [writeInt32, hm₁, hm₂, Option.bind_eq_bind, Option.bind_some]
  cases content with
  | audit a =>
    obtain ⟨data, size, hencode, hpos, hle, hread⟩ := encodeAudit_fields hf₂ hb₂ hterm hname
    refine ⟨data, size, hencode, hpos, hle, fun vdata hvdata => ?_⟩
    have hfields := hread vdata hvdata
    refine ⟨hfields.1, received_eq ⟨version, _⟩ hfields (by simp) (by simp)
      (fun _ => received_audit hname hfields) (fun htype => absurd htype.symm hne)⟩
  | preOperationCallback callback =>
    obtain ⟨m₃, m₄, hm₃, hm₄, hf₄, hb₄⟩ := writeCallback_fields hf₂ hb₂ callback.id
      callback.Parameters.code
    rw [writeInt32] at hm₄
    simp only [hm₃, hm₄, Option.bind_some]
    obtain ⟨id, parameters⟩ := callback
    cases parameters with
    | lookup path vn redirectedPath shadowFilePath calledFromCreate =>
      obtain ⟨data, size, hencode, hpos, hle, hread⟩ := encodeLookup_fields hf₄ hb₄ hterm hname
      refine ⟨data, size, hencode, hpos, hle, fun vdata hvdata => ?_⟩
      have hfields := hread vdata hvdata
      refine ⟨hfields.1, received_eq ⟨version, _⟩ hfields (by simp) (by simp)
        (fun htype => absurd htype hne) (fun _ => received_lookup hname hfields)⟩
    | exchange source target =>
      obtain ⟨data, size, hencode, hpos, hle, hread⟩ :=
        encodeExchange_fields hf₄ hb₄ hterm.1 hterm.2
      refine ⟨data, size, hencode, hpos, hle, fun vdata hvdata => ?_⟩
      have hfields := hread vdata hvdata
      refine ⟨hfields.1, received_eq ⟨version, _⟩ hfields (by simp) (by simp)
        (fun htype => absurd htype hne) (fun _ => received_exchange hfields)⟩
    | filter op path =>
      obtain ⟨data, size, hencode, hpos, hle, hread⟩ := encodeFilter_fields hf₄ hb₄ hterm
      refine ⟨data, size, hencode, hpos, hle, fun vdata hvdata => ?_⟩
      have hfields := hread vdata hvdata
      refine ⟨hfields.1, received_eq ⟨version, _⟩ hfields (by simp) (by simp)
        (fun htype => absurd htype hne) (fun _ => received_filter hfields)⟩

/-- A message that gives no vnode in place of a path has no name that could be too long. -/
theorem VFSDataUnion.NoVnode.namesFit {data : VFSDataUnion Vnode} (h : data.NoVnode) :
    data.NamesFit vnGetpath := by
  unfold VFSDataUnion.NamesFit
  split
  · intro hpath v hv
    rw [h hpath] at hv
    cases hv
  · intro hpath v hv
    rw [h hpath] at hv
    cases hv
  · trivial

/-- A message that gives no vnode in place of a path is read as what it is. -/
theorem VFSDataUnion.NoVnode.namedAs_eq {data : VFSDataUnion Vnode} (h : data.NoVnode) :
    data.namedAs vnGetpath = data.asReceived := by
  unfold VFSDataUnion.namedAs
  split
  · rw [sentPath_eq h]
    rfl
  · rw [sentPath_eq h]
    rfl
  · rfl

/-- A message is at most as long as the buffer of the client, which reads the data
of the kernel from it, whatever the buffer held. -/
theorem sent_received (kernelData : VFSData Vnode) (hterm : kernelData.Data.Terminated)
    (hvn : kernelData.Data.NoVnode) :
    ∃ data size, sendVFSDataToClient vnGetpath kernelData = some (data, size) ∧
      0 < size ∧ size ≤ sizeofData ∧ ∀ vdata : List UInt8, vdata.length = sizeofData →
        received (dequeue data size vdata) = some kernelData.asReceived := by
  have hname : kernelData.Data.NamesFit vnGetpath := hvn.namesFit
  obtain ⟨data, size, hsent, hpos, hle, hread⟩ := named_received kernelData hterm hname
  refine ⟨data, size, hsent, hpos, hle, fun vdata hvdata => ?_⟩
  rw [(hread vdata hvdata).2, hvn.namedAs_eq]
  rfl

end Spec

/-- A create of `/a`, with `id` 7; memory goes on behind the string. -/
def filterOfCreate : VFSData Nat :=
  ⟨1, .preOperationCallback ⟨7, .filter .create [47, 97, 0, 98]⟩⟩

/-- What the client reads of that request, the byte behind the string not among it. -/
theorem sent_received_filter :
    ∃ data size, sendVFSDataToClient (fun _ => .error 2) filterOfCreate = some (data, size) ∧
      0 < size ∧ size ≤ sizeofData ∧ ∀ vdata : List UInt8, vdata.length = sizeofData →
        received (dequeue data size vdata) = some ⟨1, 2, .filter 8 7 2 [47, 97]⟩ :=
  sent_received filterOfCreate ⟨[47, 97], by decide⟩ trivial

end VfsRedirector
