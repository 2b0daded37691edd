import VfsRedirector.Client.Decoding

/-!
# What the client does

`VFSFilter0NotificationHandler` has one `vdata` for all the messages. It dequeues
the next one over it and acts on the fields, without a look at the length that
was received. The queue holds the messages of `sendVFSDataToClient` and the byte
that `stop` enqueues.

A message of the kernel brings everything that is looked at: what is done for it
depends on its bytes alone. The byte of `stop` replaces the first byte of
`Header.Version`, so that the handler does once more what it did before.

Main results:

* `action_of_bytes_iff`: what is done depends on the bytes of the message alone
  exactly for the messages other than that of `stop`.
* `stop_repeats`: for that one it is what was done for the message before.

## Results

* `callback_action` — the action for the message of a request.
* `action_of_bytes_iff` — the action depends on the bytes alone, but for the message
  of `stop`.
-/

namespace VfsRedirector

open Library UserClientLayout Layout

-- ---------------------------------------------------------------------------
-- As in the source
-- ---------------------------------------------------------------------------

def kt_kStopListeningToMessages : UInt8 := 0xff

/-- What `enqueue` is called with. -/
structure QueueEntry where
  data : List UInt8
  size : Nat
  deriving DecidableEq

/-- The message of `VFSFilter0UserClient::stop`. -/
def stopMessage : QueueEntry := ⟨[kt_kStopListeningToMessages], 1⟩

/-- The messages of the kernel side. -/
inductive Enqueues {Vnode : Type} (vnGetpath : Vnode → Except Int32 (List UInt8)) :
    QueueEntry → Prop
  | sent (kernelData : VFSData Vnode) (data : List UInt8) (size : Nat)
      (h : sendVFSDataToClient vnGetpath kernelData = some (data, size)) :
      Enqueues vnGetpath ⟨data, size⟩
  | stop : Enqueues vnGetpath stopMessage

/-- `OpcodeToString`, which does not know `VFSOpcode_Open` and `VFSOpcode_Filter`. -/
def opcodeToString (op : UInt32) : String :=
  if op = VFSOpcode.unknown.code then "Unknown"
  else if op = VFSOpcode.lookup.code then "Lookup"
  else if op = VFSOpcode.create.code then "Create"
  else if op = VFSOpcode.read.code then "Read"
  else if op = VFSOpcode.write.code then "Write"
  else if op = VFSOpcode.rename.code then "Rename"
  else if op = VFSOpcode.exchange.code then "Exchange"
  else "Wrong Opcode Value"

structure VFSClientReply where
  id : Int64
  isControlledFile : Int8
  deriving DecidableEq

/-- What is done for a message: `print` is the line of an audit, `copy` is `cp` and
`exchange` is `exchangedata`, and all but the audit end with the reply. -/
inductive ClientAction where
  | nothing
  | print (opcode : String) (path redirectedPath : List UInt8)
  | copy (target source : List UInt8) (reply : VFSClientReply)
  | exchange (source target : List UInt8) (reply : VFSClientReply)
  | filter (reply : VFSClientReply)
  | oops (reply : VFSClientReply)
  deriving DecidableEq

/-- A string that is read from a field on, to wherever it ends. -/
def stringAt (vdata : List UInt8) (field : Nat) : Option (List UInt8) :=
  cstring (vdata.drop field)

def callbackAction (vdata : List UInt8) : Option ClientAction := do
  let id := (UInt64.ofNat (← readLE vdata (preOperationField 1) 8)).toInt64
  let op ← readUInt32 vdata (preOperationField 0)
  if op = VFSOpcode.lookup.code then
    let redirectedPath ← stringAt vdata (lookupField 1)
    let path ← stringAt vdata (lookupField 2)
    pure (.copy redirectedPath path ⟨id, 0⟩)
  else if op = VFSOpcode.exchange.code then
    let source ← stringAt vdata (exchangeField 0)
    let target ← stringAt vdata (exchangeField 1)
    pure (.exchange source target ⟨id, 0⟩)
  else if op = VFSOpcode.filter.code then
    pure (.filter ⟨id, 1⟩)
  else
    pure (.oops ⟨id, 0⟩)

/-- What the handler does with `vdata`; `none` when it would read past its end. -/
def clientAction (vdata : List UInt8) : Option ClientAction := do
  let type ← readUInt32 vdata (offset header 1)
  if type = VFSDataType_Audit then
    let opcode ← readUInt32 vdata (auditField 0)
    let path ← stringAt vdata (auditField 2)
    let redirectedPath ← stringAt vdata (auditField 3)
    pure (.print (opcodeToString opcode) path redirectedPath)
  else if type = VFSDataType_PreOperationCallback then
    callbackAction vdata
  else
    pure .nothing

/-- The loop: what is done for each message, with what `vdata` holds at first. -/
def vfsFilter0NotificationHandler (vdata : List UInt8) :
    List QueueEntry → List (Option ClientAction)
  | [] => []
  | entry :: entries =>
    let vdata := dequeue entry.data entry.size vdata
    -- nothing clears `vdata` between two messages
    clientAction vdata :: vfsFilter0NotificationHandler vdata entries

-- ---------------------------------------------------------------------------
-- The buffer
-- ---------------------------------------------------------------------------

/-- What `vdata` holds after a history. -/
def bufferAfter (vdata : List UInt8) (history : List QueueEntry) : List UInt8 :=
  history.foldl (fun vdata entry => dequeue entry.data entry.size vdata) vdata

/-- The handler does one thing more for one more message, with the buffer as the others left it. -/
theorem handler_append (vdata : List UInt8) (history : List QueueEntry) (entry : QueueEntry) :
    vfsFilter0NotificationHandler vdata (history ++ [entry]) =
      vfsFilter0NotificationHandler vdata history ++
        [clientAction (dequeue entry.data entry.size (bufferAfter vdata history))] := by
  induction history generalizing vdata with
  | nil => rfl
  | cons first history ih =>
    rw [List.cons_append, vfsFilter0NotificationHandler, ih]
    rfl

-- ---------------------------------------------------------------------------
-- A message of the kernel
-- ---------------------------------------------------------------------------

/-- What is done for what is received. -/
def ReceivedData.action : ReceivedData → ClientAction
  | .audit opcode _ path redirectedPath => .print (opcodeToString opcode) path redirectedPath
  | .lookup _ id _ redirectedPath path _ => .copy redirectedPath path ⟨id, 0⟩
  | .exchange _ id source target => .exchange source target ⟨id, 0⟩
  | .filter _ id _ _ => .filter ⟨id, 1⟩

/-- A string that ends in its field is read as it is. -/
theorem stringAt_of_readPath {vdata : List UInt8} {field : Nat} {path : List UInt8}
    (h : readPath vdata field = some path) : stringAt vdata field = some path :=
  cstring_of_readString h

/-- For an audit that can be received the line of its data is printed. -/
theorem audit_action {vdata : List UInt8} {data : ReceivedData}
    (htype : readUInt32 vdata (offset header 1) = some VFSDataType_Audit)
    (h : receivedAudit vdata = some data) : clientAction vdata = some data.action := by
  simp only [receivedAudit, Option.bind_eq_bind, Option.bind_eq_some_iff] at h
  obtain ⟨opcode, hopcode, error, -, path, hpath, redirectedPath, hredirected, hdata⟩ := h
  obtain rfl := Option.some.inj hdata
  simp only [clientAction, htype, hopcode, stringAt_of_readPath hpath,
    stringAt_of_readPath hredirected, Option.bind_eq_bind, Option.bind_some, if_true]
  rfl

/-- For a callback that can be received what its data says is done. -/
theorem callback_action {vdata : List UInt8} {data : ReceivedData}
    (htype : readUInt32 vdata (offset header 1) = some VFSDataType_PreOperationCallback)
    (h : receivedCallback vdata = some data) : clientAction vdata = some data.action := by
  have hne : VFSDataType_PreOperationCallback ≠ VFSDataType_Audit := by decide
  simp only [receivedCallback, Option.bind_eq_bind, Option.bind_eq_some_iff] at h
  obtain ⟨op, hop, id, hid, h⟩ := h
  -- no audit: the client looks at the opcode
  have haction : clientAction vdata = callbackAction vdata := by
    simp only [clientAction, htype, Option.bind_eq_bind, Option.bind_some, if_neg hne, if_true]
  rw [haction]
  unfold callbackAction
  simp only [hid, hop, Option.bind_eq_bind, Option.bind_some]
  split at h
  -- the fields that were read as data are those the client takes its action from
  · rename_i hlookup
    simp only [Option.bind_eq_some_iff] at h
    obtain ⟨called, -, redirectedPath, hredirected, path, hpath, shadow, -, hdata⟩ := h
    obtain rfl := Option.some.inj hdata
    rw [if_pos hlookup, stringAt_of_readPath hredirected, stringAt_of_readPath hpath]
    rfl
  · rename_i hlookup
    rw [if_neg hlookup]
    split at h
    · rename_i hexchange
      simp only [Option.bind_eq_some_iff] at h
      obtain ⟨source, hsource, target, htarget, hdata⟩ := h
      obtain rfl := Option.some.inj hdata
      rw [if_pos hexchange, stringAt_of_readPath hsource, stringAt_of_readPath htarget]
      rfl
    · rename_i hexchange
      rw [if_neg hexchange]
      split at h
      · rename_i hfilter
        simp only [Option.bind_eq_some_iff] at h
        obtain ⟨filterOp, -, path, -, hdata⟩ := h
        obtain rfl := Option.some.inj hdata
        rw [if_pos hfilter]
        rfl
      · cases h

/-- What is done for a message that can be received depends on its data. -/
theorem received_action {vdata : List UInt8} {r : Received} (h : received vdata = some r) :
    clientAction vdata = some r.Data.action := by
  simp only [received, Option.bind_eq_bind, Option.bind_eq_some_iff] at h
  obtain ⟨version, -, type, htype, h⟩ := h
  split at h
  · rename_i haudit
    simp only [Option.bind_eq_some_iff] at h
    obtain ⟨data, hdata, hr⟩ := h
    obtain rfl := Option.some.inj hr
    exact audit_action (haudit ▸ htype) hdata
  · split at h
    · rename_i hcallback
      simp only [Option.bind_eq_some_iff] at h
      obtain ⟨data, hdata, hr⟩ := h
      obtain rfl := Option.some.inj hr
      exact callback_action (hcallback ▸ htype) hdata
    · cases h

section Sent

variable {Vnode : Type} {vnGetpath : Vnode → Except Int32 (List UInt8)} {m m' : List UInt8}
  {k : Nat}

/-- A path that could be copied ends. -/
theorem terminated_of_copyPath {path : List UInt8} (h : copyPath m k path = some m') :
    Terminated path := by
  simp only [copyPath, Option.bind_eq_bind, Option.bind_eq_some_iff] at h
  obtain ⟨n, hn, -⟩ := h
  rw [strlen, Option.map_eq_some_iff] at hn
  obtain ⟨s, hs, -⟩ := hn
  exact ⟨s, hs⟩

/-- An optional path that could be copied ends. -/
theorem terminated_of_copyOptionalPath {path : Option (List UInt8)}
    (h : copyOptionalPath m k path = some m') : ∀ p ∈ path, Terminated p := by
  intro p hp
  obtain rfl := Option.mem_def.mp hp
  exact terminated_of_copyPath h

/-- A path that could be copied, in place of a name, ends. -/
theorem terminated_of_copyPathOrVnode {path : Option (List UInt8)} {vn : Option Vnode}
    (h : copyPathOrVnode vnGetpath m k path vn = some m') : ∀ p ∈ path, Terminated p := by
  intro p hp
  obtain rfl := Option.mem_def.mp hp
  exact terminated_of_copyPath h

/-- A message is made of strings that end only. -/
theorem terminated_of_sent {kernelData : VFSData Vnode} {entry : List UInt8 × Nat}
    (h : sendVFSDataToClient vnGetpath kernelData = some entry) :
    kernelData.Data.Terminated := by
  obtain ⟨version, content⟩ := kernelData
  simp only [sendVFSDataToClient, Option.bind_eq_bind, Option.bind_eq_some_iff] at h
  obtain ⟨m₁, -, m₂, -, h⟩ := h
  cases content with
  | audit a =>
    simp only [encodeAudit, Option.bind_eq_bind, Option.bind_eq_some_iff] at h
    obtain ⟨m₃, -, m₄, -, m₅, hpath, m₆, hredirected, -⟩ := h
    exact ⟨terminated_of_copyPathOrVnode hpath, terminated_of_copyOptionalPath hredirected⟩
  | preOperationCallback callback =>
    simp only [Option.bind_eq_some_iff] at h
    obtain ⟨m₃, -, m₄, -, h⟩ := h
    obtain ⟨id, parameters⟩ := callback
    cases parameters with
    | lookup path vn redirectedPath shadowFilePath calledFromCreate =>
      simp only [encodeParameters, Option.bind_eq_bind, Option.bind_eq_some_iff] at h
      obtain ⟨m₅, -, m₆, hredirected, m₇, hpath, m₈, hshadow, -⟩ := h
      exact ⟨terminated_of_copyPathOrVnode hpath, terminated_of_copyOptionalPath hredirected,
        terminated_of_copyOptionalPath hshadow⟩
    | exchange source target =>
      simp only [encodeParameters, Option.bind_eq_bind, Option.bind_eq_some_iff] at h
      obtain ⟨m₅, hsource, m₆, htarget, -⟩ := h
      exact ⟨terminated_of_copyPath hsource, terminated_of_copyPath htarget⟩
    | filter op path =>
      simp only [encodeParameters, Option.bind_eq_bind, Option.bind_eq_some_iff] at h
      obtain ⟨m₅, -, m₆, hpath, -⟩ := h
      exact terminated_of_copyPath hpath

/-- `vn_getpath` gives a name that ends in the buffer it was given, or fails. -/
def GetpathFits (vnGetpath : Vnode → Except Int32 (List UInt8)) : Prop :=
  ∀ vn name, vnGetpath vn = .ok name → 0 ∉ name ∧ name.length < MAXPATHLEN

/-- The names that `vn_getpath` gives fit into every message. -/
theorem GetpathFits.namesFit (h : GetpathFits vnGetpath) (data : VFSDataUnion Vnode) :
    data.NamesFit vnGetpath := by
  unfold VFSDataUnion.NamesFit
  split
  · exact fun _ vn _ name => h vn name
  · exact fun _ vn _ name => h vn name
  · trivial

/-- What is done for a message of the kernel, whatever `vdata` held. -/
theorem sent_action (hgetpath : GetpathFits vnGetpath) {kernelData : VFSData Vnode}
    {data : List UInt8} {size : Nat}
    (h : sendVFSDataToClient vnGetpath kernelData = some (data, size)) {vdata : List UInt8}
    (hvdata : vdata.length = sizeofData) :
    (dequeue data size vdata).length = sizeofData ∧
      clientAction (dequeue data size vdata) =
        some (kernelData.Data.namedAs vnGetpath).action := by
  obtain ⟨data', size', hsent, -, -, hread⟩ := named_received kernelData (terminated_of_sent h)
    (hgetpath.namesFit kernelData.Data)
  rw [h, Option.some.injEq, Prod.mk.injEq] at hsent
  obtain ⟨rfl, rfl⟩ := hsent
  obtain ⟨hlen, hreceived⟩ := hread vdata hvdata
  exact ⟨hlen, received_action hreceived⟩

-- ---------------------------------------------------------------------------
-- The message of `stop`
-- ---------------------------------------------------------------------------

/-- The handler looks at nothing before `Header.Type`. -/
theorem clientAction_congr (hlen : m.length = m'.length)
    (hdrop : m.drop (offset header 1) = m'.drop (offset header 1)) :
    clientAction m = clientAction m' := by
  have hread32 : ∀ field, offset header 1 ≤ field → readUInt32 m field = readUInt32 m' field := by
    intro field hfield
    unfold readUInt32
    rw [readLE_congr hlen hdrop hfield]
  have hstring : ∀ field, offset header 1 ≤ field → stringAt m field = stringAt m' field := by
    intro field hfield
    obtain ⟨i, rfl⟩ := Nat.exists_eq_add_of_le hfield
    unfold stringAt
    rw [← List.drop_drop, ← List.drop_drop, hdrop]
  have hid : readLE m (preOperationField 1) 8 = readLE m' (preOperationField 1) 8 :=
    readLE_congr hlen hdrop (by decide)
  unfold clientAction callbackAction
  rw [hid, hread32 (offset header 1) le_rfl, hread32 (auditField 0) (by decide),
    hread32 (preOperationField 0) (by decide), hstring (auditField 2) (by decide),
    hstring (auditField 3) (by decide), hstring (lookupField 1) (by decide),
    hstring (lookupField 2) (by decide), hstring (exchangeField 0) (by decide),
    hstring (exchangeField 1) (by decide)]

/-- The message of `stop` changes nothing that the handler looks at. -/
theorem stop_action {vdata : List UInt8} (hvdata : vdata.length = sizeofData) :
    (dequeue stopMessage.data stopMessage.size vdata).length = sizeofData ∧
      clientAction (dequeue stopMessage.data stopMessage.size vdata) = clientAction vdata := by
  have hsize : sizeofData = 3104 := by decide
  have hlen : (dequeue stopMessage.data stopMessage.size vdata).length = vdata.length := by
    show ([kt_kStopListeningToMessages] ++ vdata.drop 1).length = vdata.length
    rw [List.length_append, List.length_drop, List.length_singleton]
    omega
  refine ⟨hlen.trans hvdata, clientAction_congr hlen ?_⟩
  -- the byte is the first one of `Header.Version`
  show ([kt_kStopListeningToMessages] ++ vdata.drop 1).drop 4 = vdata.drop 4
  rw [List.singleton_append, List.drop_succ_cons, List.drop_drop]

-- ---------------------------------------------------------------------------
-- Main results
-- ---------------------------------------------------------------------------

/-- The buffer keeps its length over a history. -/
theorem length_bufferAfter (hgetpath : GetpathFits vnGetpath) {vdata : List UInt8}
    (hvdata : vdata.length = sizeofData) {history : List QueueEntry}
    (h : ∀ entry ∈ history, Enqueues vnGetpath entry) :
    (bufferAfter vdata history).length = sizeofData := by
  induction history generalizing vdata with
  | nil => exact hvdata
  | cons entry history ih =>
    refine ih ?_ fun e he => h e (List.mem_cons_of_mem _ he)
    cases h entry List.mem_cons_self with
    | sent kernelData data size hsent => exact (sent_action hgetpath hsent hvdata).1
    | stop => exact (stop_action hvdata).1

/-- What is done for the last message of a history. -/
def lastAction (vdata : List UInt8) (history : List QueueEntry) : Option (Option ClientAction) :=
  (vfsFilter0NotificationHandler vdata history).getLast?

/-- The last message decides, with the buffer that the others left. -/
theorem lastAction_append (vdata : List UInt8) (history : List QueueEntry) (entry : QueueEntry) :
    lastAction vdata (history ++ [entry]) =
      some (clientAction (dequeue entry.data entry.size (bufferAfter vdata history))) := by
  rw [lastAction, handler_append, List.getLast?_concat]

/-- For `stop` the handler does once more what it did for the message before. -/
theorem stop_repeats (hgetpath : GetpathFits vnGetpath) {vdata : List UInt8}
    (hvdata : vdata.length = sizeofData) (history : List QueueEntry)
    (h : ∀ entry ∈ history, Enqueues vnGetpath entry) {entry : QueueEntry}
    (hentry : Enqueues vnGetpath entry) :
    lastAction vdata (history ++ [entry] ++ [stopMessage]) =
      lastAction vdata (history ++ [entry]) := by
  have hlen : (bufferAfter vdata (history ++ [entry])).length = sizeofData := by
    refine length_bufferAfter hgetpath hvdata fun e he => ?_
    obtain he | he := List.mem_append.mp he
    · exact h e he
    · rwa [List.mem_singleton.mp he]
  have hbuffer : bufferAfter vdata (history ++ [entry]) =
      dequeue entry.data entry.size (bufferAfter vdata history) := by
    rw [bufferAfter, List.foldl_append]
    rfl
  rw [lastAction_append, lastAction_append, (stop_action hlen).2, hbuffer]

/-- Whatever messages came before, in whatever buffer, the same is done for the message. -/
def ActionOfBytes (vnGetpath : Vnode → Except Int32 (List UInt8)) (entry : QueueEntry) : Prop :=
  ∀ vdata vdata' : List UInt8, vdata.length = sizeofData → vdata'.length = sizeofData →
    ∀ history history' : List QueueEntry, (∀ e ∈ history, Enqueues vnGetpath e) →
      (∀ e ∈ history', Enqueues vnGetpath e) →
        lastAction vdata (history ++ [entry]) = lastAction vdata' (history' ++ [entry])

/-- `/a` is to be copied to `/b`. -/
def copyRequest : VFSData Vnode :=
  ⟨1, .preOperationCallback ⟨7, .lookup (some [47, 97, 0]) none (some [47, 98, 0]) none false⟩⟩

/-- `/a` was created as `/b`. -/
def createdAudit : VFSData Vnode :=
  ⟨1, .audit ⟨none, some [47, 97, 0], some [47, 98, 0], .create, 0⟩⟩

/-- The request to copy is sent, and the copy is made in every buffer. -/
theorem copyRequest_sent (hgetpath : GetpathFits vnGetpath) :
    ∃ entry, Enqueues vnGetpath entry ∧
      ∀ vdata : List UInt8, vdata.length = sizeofData → lastAction vdata [entry] =
        some (some (.copy [47, 98] [47, 97] ⟨7, 0⟩)) := by
  have hterm : (copyRequest : VFSData Vnode).Data.Terminated :=
    ⟨fun p hp => ⟨[47, 97], by cases hp; decide⟩, fun p hp => ⟨[47, 98], by cases hp; decide⟩,
      fun p hp => by cases hp⟩
  obtain ⟨data, size, hsent, -⟩ := named_received copyRequest hterm (hgetpath.namesFit _)
  refine ⟨⟨data, size⟩, .sent copyRequest data size hsent, fun vdata hvdata => ?_⟩
  exact congrArg some (sent_action hgetpath hsent hvdata).2

/-- The audit is sent, and its line is printed in every buffer. -/
theorem createdAudit_sent (hgetpath : GetpathFits vnGetpath) :
    ∃ entry, Enqueues vnGetpath entry ∧
      ∀ vdata : List UInt8, vdata.length = sizeofData → lastAction vdata [entry] =
        some (some (.print "Create" [47, 97] [47, 98])) := by
  have hterm : (createdAudit : VFSData Vnode).Data.Terminated :=
    ⟨fun p hp => ⟨[47, 97], by cases hp; decide⟩, fun p hp => ⟨[47, 98], by cases hp; decide⟩⟩
  obtain ⟨data, size, hsent, -⟩ := named_received createdAudit hterm (hgetpath.namesFit _)
  refine ⟨⟨data, size⟩, .sent createdAudit data size hsent, fun vdata hvdata => ?_⟩
  exact congrArg some (sent_action hgetpath hsent hvdata).2

/-- The action is one of the bytes alone, except for the message of `stop`. -/
theorem action_of_bytes_iff (hgetpath : GetpathFits vnGetpath) {entry : QueueEntry}
    (hentry : Enqueues vnGetpath entry) :
    ActionOfBytes vnGetpath entry ↔ entry ≠ stopMessage := by
  constructor
  · rintro h rfl
    obtain ⟨copying, hcopying, hcopy⟩ := copyRequest_sent hgetpath
    obtain ⟨audit, haudit, hprint⟩ := createdAudit_sent hgetpath
    have hzero : (List.replicate sizeofData (0 : UInt8)).length = sizeofData :=
      List.length_replicate
    have hsame := h _ _ hzero hzero ([] ++ [copying]) ([] ++ [audit])
      (fun e he => by rwa [List.mem_singleton.mp he])
      fun e he => by rwa [List.mem_singleton.mp he]
    rw [stop_repeats hgetpath hzero [] (fun e he => absurd he List.not_mem_nil) hcopying,
      stop_repeats hgetpath hzero [] (fun e he => absurd he List.not_mem_nil) haudit,
      List.nil_append, List.nil_append, hcopy _ hzero, hprint _ hzero] at hsame
    cases hsame
  · intro hne vdata vdata' hvdata hvdata' history history' h h'
    cases hentry with
    | stop => exact absurd rfl hne
    | sent kernelData data size hsent =>
      have hbuffer := length_bufferAfter hgetpath hvdata h
      have hbuffer' := length_bufferAfter hgetpath hvdata' h'
      rw [lastAction_append, lastAction_append, (sent_action hgetpath hsent hbuffer).2,
        (sent_action hgetpath hsent hbuffer').2]

end Sent

/-- The request to copy is a message whose bytes say what is done. -/
theorem action_of_bytes_copyRequest :
    ∃ entry, Enqueues (fun _ : Nat => .error 2) entry ∧
      ActionOfBytes (fun _ : Nat => .error 2) entry := by
  have hgetpath : GetpathFits fun _ : Nat => (.error 2 : Except Int32 (List UInt8)) :=
    fun _ _ h => by cases h
  have hzero : (List.replicate sizeofData (0 : UInt8)).length = sizeofData := List.length_replicate
  have hnothing : clientAction (List.replicate sizeofData 0) = some .nothing := by
    decide +kernel
  obtain ⟨copying, hcopying, hcopy⟩ := copyRequest_sent hgetpath
  refine ⟨copying, hcopying, (action_of_bytes_iff hgetpath hcopying).mpr ?_⟩
  rintro rfl
  have hstop := lastAction_append (List.replicate sizeofData 0) [] stopMessage
  rw [List.nil_append, hcopy _ hzero, bufferAfter, List.foldl_nil, (stop_action hzero).2,
    hnothing] at hstop
  cases hstop

/-- After a copy the message of `stop` copies once more; after an audit it prints once more. -/
theorem action_not_of_bytes :
    (∃ copying audit, Enqueues (fun _ : Nat => .error 2) copying ∧
      Enqueues (fun _ : Nat => .error 2) audit ∧
      lastAction (List.replicate sizeofData 0) [copying, stopMessage] =
        some (some (.copy [47, 98] [47, 97] ⟨7, 0⟩)) ∧
      lastAction (List.replicate sizeofData 0) [audit, stopMessage] =
        some (some (.print "Create" [47, 97] [47, 98]))) ∧
    ¬ ∀ entry, Enqueues (fun _ : Nat => .error 2) entry →
      ActionOfBytes (fun _ : Nat => .error 2) entry := by
  have hgetpath : GetpathFits fun _ : Nat => (.error 2 : Except Int32 (List UInt8)) :=
    fun _ _ h => by cases h
  have hzero : (List.replicate sizeofData (0 : UInt8)).length = sizeofData := List.length_replicate
  obtain ⟨copying, hcopying, hcopy⟩ := copyRequest_sent hgetpath
  obtain ⟨audit, haudit, hprint⟩ := createdAudit_sent hgetpath
  have hcopied : lastAction (List.replicate sizeofData 0) [copying, stopMessage] =
      some (some (.copy [47, 98] [47, 97] ⟨7, 0⟩)) := by
    have hstop := stop_repeats hgetpath hzero [] (fun e he => absurd he List.not_mem_nil) hcopying
    exact hstop.trans (hcopy _ hzero)
  have hprinted : lastAction (List.replicate sizeofData 0) [audit, stopMessage] =
      some (some (.print "Create" [47, 97] [47, 98])) := by
    have hstop := stop_repeats hgetpath hzero [] (fun e he => absurd he List.not_mem_nil) haudit
    exact hstop.trans (hprint _ hzero)
  refine ⟨⟨copying, audit, hcopying, haudit, hcopied, hprinted⟩, fun h => ?_⟩
  have hsame := h stopMessage .stop _ _ hzero hzero [copying] [audit]
    (fun e he => by rwa [List.mem_singleton.mp he]) fun e he => by rwa [List.mem_singleton.mp he]
  rw [List.singleton_append, List.singleton_append, hcopied, hprinted] at hsame
  cases hsame

end VfsRedirector
