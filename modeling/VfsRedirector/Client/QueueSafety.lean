import VfsRedirector.Client.RequestSteps
import Mathlib.Algebra.BigOperators.Group.List.Basic

/-!
# sendVFSDataToClient: a full data queue

`sendVFSDataToClient` sets `Status.WasEnqueued` without looking at what
`enqueue` returned, so a request waits for a reply whether or not its message
was stored. It waits for a stored message in the runs in which every message
of a request finds room (`waits_stored`); a queue filled by audit messages
makes a request sleep on a message that was never stored
(`waits_stored_fails`).

## Results

* `Stored.step` — what was stored stays, or was received.
* `waits_stored` — where the queue has room, a request waits only for a message that was
  stored.
-/

namespace VfsRedirector.Client

open Library RequestPc

namespace RequestPc

variable {Id : Type}

/-- In `WaitingList::wait`. -/
def Waiting : RequestPc Id → Request Id → Prop
  | .waitLock r _, r' | .waitTest r _, r' | .waitAssert r _, r' | .waitUnlock r _ _, r'
  | .waitBlock r _, r' => r = r'
  | _, _ => False

end RequestPc

variable {Thread Id : Type} [DecidableEq Thread] [DecidableEq Id]

/-- The message of the request is in the queue, or the client has dequeued it. -/
def Stored (s : Requests Thread Id) (r : Request Id) : Prop :=
  .preOperation r ∈ s.fDataQueue ∨ .preOperation r ∈ s.received

/-- A request finds room for its message. -/
def RoomForRequests (hasRoom : List (Message Id) → Nat → Bool) (s : Requests Thread Id) :
    RequestAction Thread Id → Prop
  | .advance t _ =>
    match s.pc t with
    | .send r _ => hasRoom s.fDataQueue (messageSize r.length) = true
    | _ => True
  | _ => True

variable {owner : Id → Thread} {hasRoom : List (Message Id) → Nat → Bool}
variable {s s' : Requests Thread Id} {a : RequestAction Thread Id} {t u : Thread} {alloc : Bool}

omit [DecidableEq Id] in
/-- What is in the queue stays there, whether or not there is room for more. -/
theorem mem_enqueue {queue : List (Message Id)} {m m' : Message Id} (h : m ∈ queue) :
    m ∈ enqueue hasRoom queue m' := by
  unfold enqueue
  split
  · exact List.mem_append_left _ h
  · exact h

/-- Nothing that was stored is lost. -/
theorem Stored.step {r : Request Id} (hr : Stored s r) (h : s.step owner hasRoom a = some s') :
    Stored s' r := by
  cases a with
  | advance t alloc =>
    revert h
    simp only [Requests.step]
    fun_cases Requests.advance hasRoom s t alloc <;> intro h <;> cases h
    all_goals first
      | exact hr
      | exact hr.imp_left mem_enqueue
  -- what is dequeued was received
  | dequeue =>
    simp only [Requests.step] at h
    split at h
    · cases h
    · rename_i m queue hqueue
      cases h
      unfold Stored at hr ⊢
      rw [hqueue, List.mem_cons] at hr
      rcases hr with (rfl | hin) | hin
      · exact .inr List.mem_cons_self
      · exact .inl hin
      · exact .inr (List.mem_cons_of_mem _ hin)
  | audit t length =>
    simp only [Requests.step] at h
    split at h <;> cases h
    exact hr.imp_left mem_enqueue
  | call t op id length | replyTo t r isControlledFile | reply t id isControlledFile =>
    simp only [Requests.step] at h
    split at h <;> cases h
    exact hr

/-- A request comes to its wait by sending its message. -/
theorem advance_waits {r : Request Id} (hok : RoomForRequests hasRoom s (.advance t alloc))
    (h : s.advance hasRoom t alloc = some s') (hr : (s'.pc t).Waiting r) :
    (s.pc t).Waiting r ∨ Stored s' r := by
  revert h hok
  fun_cases Requests.advance hasRoom s t alloc <;> intro hok h <;> cases h
  case case7 r₀ inserted hp hsize =>
    simp only [Requests.goto, Function.update_self] at hr
    obtain rfl : r₀ = r := hr
    simp only [RoomForRequests, hp] at hok
    refine .inr (.inl ?_)
    simp [enqueue, Message.size, hok]
  all_goals simp_all [Requests.goto, Waiting]

/-- A request waits only for a message that was stored, if the messages of
requests find room. -/
theorem waits_stored
    (h : ReachableBy (requestSystem owner hasRoom) (RoomForRequests hasRoom) s) {r : Request Id}
    {inserted : Bool} (ht : s.pc t = .waitBlock r inserted) : Stored s r := by
  have hinv : ∀ t r, (s.pc t).Waiting r → Stored s r := by
    refine h.invariant (I := fun s => ∀ t r, (s.pc t).Waiting r → Stored s r) ?_ ?_
    · rintro s rfl t r hr
      exact hr.elim
    · intro s a s' hinv hok (hstep : s.step owner hasRoom a = some s') u r hr
      rcases step_cases hstep with ⟨t, alloc, rfl, hadvance⟩ | ⟨t, p, -, hstart, hpc, -⟩ |
        ⟨hpc, -, -⟩
      · rcases eq_or_ne u t with rfl | hut
        · rcases advance_waits hok hadvance hr with hold | hstored
          · exact (hinv u r hold).step hstep
          · exact hstored
        · exact (hinv u r (advance_pc hadvance hut ▸ hr)).step hstep
      · rw [hpc] at hr
        refine (hinv u r ?_).step hstep
        rcases eq_or_ne u t with rfl | hut
        · rw [Function.update_self] at hr
          cases hstart <;> exact hr.elim
        · rwa [Function.update_of_ne hut] at hr
      · exact (hinv u r (hpc ▸ hr)).step hstep
  exact hinv t r (by rw [ht]; rfl)

/-- Thread 0 asks about a path of three characters and sleeps on id 10. -/
def askAndBlock : List (RequestAction Nat Nat) :=
  [.call 0 .filter 10 3, .advance 0 true, .advance 0 true, .advance 0 true, .advance 0 true,
   .advance 0 true, .advance 0 true, .advance 0 true]

/-- Thread 0 sleeps, and its message is in the queue. -/
theorem waits_stored_run :
    ∃ s, exec (requestSystem (fun _ : Nat => 0) fun _ _ => true) Requests.initial askAndBlock =
        some s ∧
      s.pc 0 = .waitBlock ⟨.filter, 10, 0, 3⟩ true ∧ Stored s ⟨.filter, 10, 0, 3⟩ := by
  have hrun : ∃ s, exec (requestSystem (fun _ : Nat => 0) fun _ _ => true) Requests.initial
      askAndBlock = some s ∧ s.pc 0 = .waitBlock ⟨.filter, 10, 0, 3⟩ true := ⟨_, rfl, rfl⟩
  obtain ⟨s, hexec, hpc⟩ := hrun
  have hroom : ∀ (s : Requests Nat Nat) a, RoomForRequests (fun _ _ => true) s a := by
    intro s a
    cases a with
    | advance t alloc =>
      simp only [RoomForRequests]
      split <;> trivial
    | _ => trivial
  have hr := (ReachableBy.exec (.init rfl) askAndBlock hexec).mono fun s a _ => hroom s a
  exact ⟨s, hexec, hpc, waits_stored hr hpc⟩

-- ---------------------------------------------------------------------------
-- A queue full of audit messages
-- ---------------------------------------------------------------------------

/-- `kt_kMaximumEventsToHold` -/
def maximumEventsToHold : Nat := 512

/-- `DATA_QUEUE_ENTRY_HEADER_SIZE` -/
def dataQueueEntryHeaderSize : Nat := 4

/-- The capacity that `start` gives the data queue. -/
def queueCapacity : Nat :=
  sizeofUserClientData * maximumEventsToHold + dataQueueEntryHeaderSize

/-- A queue of bytes, in which each entry takes its header and its data. -/
def fitsIn {Id : Type} (capacity : Nat) (queue : List (Message Id)) (size : Nat) : Bool :=
  (queue.map fun m => m.size + dataQueueEntryHeaderSize).sum + size + dataQueueEntryHeaderSize ≤
    capacity

/-- The queue holds `n` audit messages with paths of 1023 characters. -/
def filledWithAudits (n : Nat) : Requests Nat Nat :=
  { Requests.initial with fDataQueue := List.replicate n (.audit (messageSize 1023)) }

/-- Beside `n` audit messages there is room for a message of that size up to the capacity. -/
theorem fitsIn_replicate (n size : Nat) :
    fitsIn queueCapacity (List.replicate n (.audit (messageSize 1023) : Message Nat)) size =
      decide (n * 3108 + size + 4 ≤ 1589252) := by
  simp [fitsIn, queueCapacity, maximumEventsToHold, dataQueueEntryHeaderSize,
    sizeofUserClientData, messageSize, maxPathLen, Message.size]

/-- As many as fit can have been enqueued. -/
theorem filledWithAudits_reachable {n : Nat} (hn : n ≤ 511) :
    Reachable (requestSystem (fun _ => 0) (fitsIn queueCapacity)) (filledWithAudits n) := by
  induction n with
  | zero => exact .init rfl
  | succ n ih =>
    refine (ih (by omega)).step (a := .audit 1 1023) trivial ?_
    have hfits : fitsIn queueCapacity (filledWithAudits n).fDataQueue
        (Message.audit (messageSize 1023) : Message Nat).size = true := by
      rw [filledWithAudits, fitsIn_replicate, decide_eq_true_iff]
      have hsize : (Message.audit (messageSize 1023) : Message Nat).size = 3104 := by decide
      omega
    have hidle : (filledWithAudits n).pc 1 = .idle := rfl
    simp only [requestSystem, Requests.step, hidle, if_true, enqueue, hfits]
    rw [filledWithAudits, filledWithAudits, List.replicate_succ']

/-- The run of `askAndBlock` does not depend on whether the message is stored. -/
theorem askAndBlock_sleeps (hasRoom : List (Message Nat) → Nat → Bool)
    (queue : List (Message Nat)) :
    ∃ s, exec (requestSystem (fun _ : Nat => (0 : Nat)) hasRoom)
        { Requests.initial with fDataQueue := queue } askAndBlock = some s ∧
      s.pc 0 = .waitBlock ⟨.filter, 10, 0, 3⟩ true ∧ s.waitEvent 0 = some 10 ∧
      s.fDataQueue = enqueue hasRoom queue (.preOperation ⟨.filter, 10, 0, 3⟩) ∧
      s.received = [] :=
  ⟨_, rfl, rfl, rfl, rfl, rfl⟩

/-- With 511 audit messages in the queue there is no room left for a request. -/
theorem waits_stored_fails :
    ¬ ∀ s, Reachable (requestSystem (fun _ : Nat => (0 : Nat)) (fitsIn queueCapacity)) s →
      ∀ t r inserted, s.pc t = .waitBlock r inserted → s.waitEvent t = some r.id →
        Stored s r := by
  intro h
  have hfull : fitsIn queueCapacity (filledWithAudits 511).fDataQueue
      (Message.preOperation ⟨.filter, 10, 0, 3⟩ : Message Nat).size = false := by
    rw [filledWithAudits, fitsIn_replicate]
    decide
  obtain ⟨s, hexec, hpc, hevent, hqueue, hreceived⟩ :=
    askAndBlock_sleeps (fitsIn queueCapacity) (filledWithAudits 511).fDataQueue
  have hr := (filledWithAudits_reachable (Nat.le_refl 511)).exec askAndBlock hexec
  rcases h s hr 0 _ _ hpc hevent with hstored | hstored
  · rw [hqueue, enqueue, hfull, if_neg Bool.false_ne_true, filledWithAudits] at hstored
    cases List.eq_of_mem_replicate hstored
  · rw [hreceived] at hstored
    simp at hstored

end VfsRedirector.Client
