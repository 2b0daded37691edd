import Mathlib.Data.List.Basic
import VfsRedirector.Library.Memory
import VfsRedirector.Path.Routes

/-!
# Messages to the client

`sendVFSDataToClient` copies a `VFSData` into a `VFSFilter0UserClientData` on the
stack and enqueues it without what follows the last string. The client dequeues
it over its own `VFSFilter0UserClientData`, `vdata`, and reads the fields there.

Both are given here as they access memory. The structs are laid out as on
x86_64, where kernel and client agree on them. A string of the kernel is a
pointer into memory, `none` for NULL.

## Results

* `places` — where the fields of a message are, on x86_64.
-/

namespace VfsRedirector

open Library

-- ---------------------------------------------------------------------------
-- The kernel's messages
-- ---------------------------------------------------------------------------

inductive VFSOpcode where
  | unknown | lookup | create | read | write | rename | exchange | «open» | filter
  deriving DecidableEq

def VFSOpcode.code : VFSOpcode → UInt32
  | unknown => 0
  | lookup => 1
  | create => 2
  | read => 3
  | write => 4
  | rename => 5
  | exchange => 6
  | «open» => 7
  | filter => 8

def VFSDataType_Audit : UInt32 := 1
def VFSDataType_PreOperationCallback : UInt32 := 2

structure VFSAudit (Vnode : Type) where
  vn : Option Vnode
  path : Option (List UInt8)
  redirectedPath : Option (List UInt8)
  op : VFSOpcode
  error : Int32

/-- `Parameters` of a `VFSPreOperationCallback`, with `op`. -/
inductive PreOperationParameters (Vnode : Type) where
  | lookup (path : Option (List UInt8)) (vn : Option Vnode) (redirectedPath : Option (List UInt8))
      (shadowFilePath : Option (List UInt8)) (calledFromCreate : Bool)
  | exchange (source target : List UInt8)
  | filter (op : VFSOpcode) (path : List UInt8)

/-- The `op` of the callback. -/
def PreOperationParameters.code {Vnode : Type} : PreOperationParameters Vnode → UInt32
  | lookup .. => VFSOpcode.lookup.code
  | exchange .. => VFSOpcode.exchange.code
  | filter .. => VFSOpcode.filter.code

structure VFSPreOperationCallback (Vnode : Type) where
  id : Int64
  Parameters : PreOperationParameters Vnode

inductive VFSDataUnion (Vnode : Type) where
  | audit (data : VFSAudit Vnode)
  | preOperationCallback (data : VFSPreOperationCallback Vnode)

/-- `Header.Type` -/
def VFSDataUnion.type {Vnode : Type} : VFSDataUnion Vnode → UInt32
  | audit _ => VFSDataType_Audit
  | preOperationCallback _ => VFSDataType_PreOperationCallback

structure VFSData (Vnode : Type) where
  Version : Int32
  Data : VFSDataUnion Vnode

-- ---------------------------------------------------------------------------
-- The client's structs
-- ---------------------------------------------------------------------------

namespace UserClientLayout

open Layout

def int16 : Layout := ⟨2, 2⟩
def int32 : Layout := ⟨4, 4⟩
def int64 : Layout := ⟨8, 8⟩

/-- `char [MAXPATHLEN]` -/
def path : Layout := array ⟨1, 1⟩ MAXPATHLEN

/-- `VFSDataHeader`: Version, Type -/
def header : List Layout := [int32, int32]

/-- `VFSFilter0UserClientAudit`: opcode, error, path, redirectedPath -/
def audit : List Layout := [int32, int32, path, path]

/-- `Lookup`: calledFromCreate, redirectedPath, path, shadowFilePath -/
def lookup : List Layout := [int16, path, path, path]

/-- `Exchange`: from, to -/
def exchange : List Layout := [path, path]

/-- `Filter`: op, path -/
def filter : List Layout := [int32, path]

/-- `VFSFilter0PreOperationCallback`: op, id, Parameters -/
def preOperationCallback : List Layout :=
  [int32, int64, union [struct lookup, struct exchange, struct filter]]

/-- `VFSFilter0UserClientData`: Header, Data -/
def userClientData : List Layout :=
  [struct header, union [struct audit, struct preOperationCallback]]

/-- `sizeof( data )` -/
def sizeofData : Nat := (struct userClientData).size

/-- Where `Data` is. -/
def data : Nat := offset userClientData 1

/-- Where the fields of `Data.Audit` are. -/
def auditField (i : Nat) : Nat := data + offset audit i

/-- Where the fields of `Data.PreOperationCallback` are. -/
def preOperationField (i : Nat) : Nat := data + offset preOperationCallback i

/-- Where the fields of `Parameters.Lookup`, `Exchange` and `Filter` are. -/
def lookupField (i : Nat) : Nat := preOperationField 2 + offset lookup i

def exchangeField (i : Nat) : Nat := preOperationField 2 + offset exchange i

def filterField (i : Nat) : Nat := preOperationField 2 + offset filter i

/-- The places on x86_64. -/
theorem places : sizeofData = 3104 ∧ offset header 0 = 0 ∧ offset header 1 = 4 ∧
    auditField 0 = 8 ∧ auditField 1 = 12 ∧ auditField 2 = 16 ∧ auditField 3 = 1040 ∧
    preOperationField 0 = 8 ∧ preOperationField 1 = 16 ∧
    lookupField 0 = 24 ∧ lookupField 1 = 26 ∧ lookupField 2 = 1050 ∧ lookupField 3 = 2074 ∧
    exchangeField 0 = 24 ∧ exchangeField 1 = 1048 ∧ filterField 0 = 24 ∧ filterField 1 = 28 := by
  decide

end UserClientLayout

open UserClientLayout Layout

-- ---------------------------------------------------------------------------
-- As in the source
-- ---------------------------------------------------------------------------

section Encoder

-- what `vn_getpath` writes for a vnode, or its error
variable {Vnode : Type} (vnGetpath : Vnode → Except Int32 (List UInt8))

/-- A string goes into a field of `MAXPATHLEN` bytes if it fits with its terminator;
else the field is the empty string. -/
def copyPath (data : List UInt8) (field : Nat) (path : List UInt8) : Option (List UInt8) := do
  let nameLen := (← strlen path) + 1
  if nameLen ≤ MAXPATHLEN then memcpy data field path nameLen else write data field [0]

def copyOptionalPath (data : List UInt8) (field : Nat) : Option (List UInt8) → Option (List UInt8)
  | some path => copyPath data field path
  | none => write data field [0]

/-- The path, or else that of the vnode. -/
def copyPathOrVnode (data : List UInt8) (field : Nat) :
    Option (List UInt8) → Option Vnode → Option (List UInt8)
  | some path, _ => copyPath data field path
  | none, none => write data field [0]
  | none, some vn =>
    match vnGetpath vn with
    | .ok name => write data field (name ++ [0])
    | .error _ => write data field [0]

def writeInt32 (data : List UInt8) (field : Nat) (n : UInt32) : Option (List UInt8) :=
  write data field (toLE 4 n.toNat)

/-- What `encodeAudit` adds to `size` for `redirectedPath`. -/
def addedLength : Option (List UInt8) → Option Nat
  | some path => do
    let nameLen := (← strlen path) + 1
    pure (if nameLen ≤ MAXPATHLEN then nameLen else 1)
  | none => some 1

def encodeAudit (data : List UInt8) (audit : VFSAudit Vnode) : Option (List UInt8 × Nat) := do
  let data ← writeInt32 data (auditField 0) audit.op.code
  let data ← writeInt32 data (auditField 1) audit.error.toUInt32
  let data ← copyPathOrVnode vnGetpath data (auditField 2) audit.path audit.vn
  let data ← copyOptionalPath data (auditField 3) audit.redirectedPath
  pure (data, sizeofData - MAXPATHLEN + (← addedLength audit.redirectedPath))

def encodeParameters (data : List UInt8) : PreOperationParameters Vnode → Option (List UInt8 × Nat)
  | .lookup path vn redirectedPath shadowFilePath calledFromCreate => do
    let data ← write data (lookupField 0) (toLE 2 calledFromCreate.toNat)
    let data ← copyOptionalPath data (lookupField 1) redirectedPath
    let data ← copyPathOrVnode vnGetpath data (lookupField 2) path vn
    let data ← copyOptionalPath data (lookupField 3) shadowFilePath
    pure (data, sizeofData - MAXPATHLEN + ((← strlen (data.drop (lookupField 3))) + 1))
  | .exchange source target => do
    let data ← copyPath data (exchangeField 0) source
    let data ← copyPath data (exchangeField 1) target
    pure (data, sizeofData - MAXPATHLEN + ((← strlen (data.drop (exchangeField 1))) + 1))
  | .filter op path => do
    let data ← writeInt32 data (filterField 0) op.code
    let data ← copyPath data (filterField 1) path
    pure (data, sizeofData - MAXPATHLEN + ((← strlen (data.drop (filterField 1))) + 1))

/-- What is enqueued: the contents of `data`, and `size`. -/
def sendVFSDataToClient (kernelData : VFSData Vnode) : Option (List UInt8 × Nat) := do
  let data := List.replicate sizeofData 0
  let data ← writeInt32 data (offset header 0) kernelData.Version.toUInt32
  let data ← writeInt32 data (offset header 1) kernelData.Data.type
  match kernelData.Data with
  | .audit audit => encodeAudit vnGetpath data audit
  | .preOperationCallback callback => do
    let data ← write data (preOperationField 1) (toLE 8 callback.id.toUInt64.toNat)
    let data ← writeInt32 data (preOperationField 0) callback.Parameters.code
    encodeParameters vnGetpath data callback.Parameters

end Encoder

end VfsRedirector
