import VfsRedirector.VNodeHook.Refs

/-!
# VNodeHook: what the vectors hold

`written k initialOps w hooked` is the vector `w` with the hooks of the
operations `hooked` in it and the functions of its file system in the other
slots. In every run each vector is of this form: `hooked` is empty while the
table has no entry for the vector and everything that is listed while it has
one, except for the vector whose slots a thread is writing just now, where it
is the part of the list the loop has behind it (hooking) or before it
(unhooking). `VectorInv` says this, and that an entry which the table has, or
from which a thread is going to read, has saved the functions of all listed
operations.

## Results

* `VectorInv.hookSlot_advance`, `VectorInv.unhookSlot_advance` — one slot of a vector
  is hooked, or restored.
* `VectorInv.addEntry_advance`, `VectorInv.removeEntry_advance` — an entry comes into
  the table, or leaves it.
* `VectorInv.reachable` — the invariant holds in every state.
-/

namespace VfsRedirector.VNodeHook

open Library HookPc

variable {Thread Vnode OpVec : Type}

def written (k : Kernel) (initialOps : OpVec → Nat → Nat) (w : OpVec)
    (hooked : List (VnodeopvEntryDesc Hook)) (offset : Nat) : Vopfunc :=
  match hooked.find? fun desc => k.vnopOffset desc.opveOp = offset with
  | some desc => .hook desc.opveImpl
  | none => .fsd (initialOps w offset)

section Written

variable {k : Kernel} {initialOps : OpVec → Nat → Nat} {w : OpVec}
variable {hooked : List (VnodeopvEntryDesc Hook)} {desc : VnodeopvEntryDesc Hook} {offset : Nat}

@[simp] theorem written_nil :
    written k initialOps w [] offset = .fsd (initialOps w offset) := rfl

/-- To hook one more slot writes its offset. -/
theorem written_cons : written k initialOps w (desc :: hooked) offset =
    if k.vnopOffset desc.opveOp = offset then .hook desc.opveImpl
    else written k initialOps w hooked offset := by
  unfold written
  rw [List.find?_cons]
  by_cases h : k.vnopOffset desc.opveOp = offset <;> simp [h]

/-- An offset at which nothing is hooked keeps its operation. -/
theorem written_other (h : ∀ desc ∈ hooked, k.vnopOffset desc.opveOp ≠ offset) :
    written k initialOps w hooked offset = .fsd (initialOps w offset) := by
  induction hooked with
  | nil => rfl
  | cons desc hooked ih =>
    rw [List.forall_mem_cons] at h
    rw [written_cons, if_neg h.1, ih h.2]

/-- An operation that is not hooked has an offset of its own. -/
theorem vnopOffset_ne (h : desc.opveOp ∉ hooked.map VnodeopvEntryDesc.opveOp) :
    ∀ desc' ∈ hooked, k.vnopOffset desc'.opveOp ≠ k.vnopOffset desc.opveOp := by
  intro desc' hmem heq
  rw [← k.vnopOffset_injective heq] at h
  exact h (List.mem_map_of_mem hmem)

/-- An operation that is hooked has its hook at its offset. -/
theorem written_listed (hnodup : (hooked.map VnodeopvEntryDesc.opveOp).Nodup)
    (hmem : desc ∈ hooked) :
    written k initialOps w hooked (k.vnopOffset desc.opveOp) = .hook desc.opveImpl := by
  induction hooked with
  | nil => cases hmem
  | cons desc₀ hooked ih =>
    rw [List.map_cons, List.nodup_cons] at hnodup
    rw [written_cons]
    rcases List.mem_cons.mp hmem with rfl | hmem
    · rw [if_pos rfl]
    · have hne : k.vnopOffset desc₀.opveOp ≠ k.vnopOffset desc.opveOp :=
        (vnopOffset_ne hnodup.1 desc hmem).symm
      rw [if_neg hne, ih hnodup.2 hmem]

/-- Writing the hook of one more operation. -/
theorem update_written_hook (h : desc.opveOp ∉ hooked.map VnodeopvEntryDesc.opveOp) :
    Function.update (written k initialOps w hooked) (k.vnopOffset desc.opveOp)
      (.hook desc.opveImpl) = written k initialOps w (hooked ++ [desc]) := by
  induction hooked with
  | nil =>
    funext offset
    rw [List.nil_append, written_cons, Function.update_apply]
    by_cases ho : offset = k.vnopOffset desc.opveOp
    · rw [if_pos ho, if_pos ho.symm]
    · rw [if_neg ho, if_neg (Ne.symm ho)]
  | cons desc₀ hooked ih =>
    have hne := vnopOffset_ne (k := k) h desc₀ List.mem_cons_self
    rw [List.map_cons, List.mem_cons, not_or] at h
    have ih := ih h.2
    funext offset
    have iho := congrFun ih offset
    rw [Function.update_apply] at iho
    rw [Function.update_apply, List.cons_append, written_cons, written_cons, ← iho]
    by_cases ho : offset = k.vnopOffset desc.opveOp
    · subst ho
      rw [if_pos rfl, if_neg hne, if_pos rfl]
    · rw [if_neg ho, if_neg ho]

/-- Restoring the function of one operation. -/
theorem update_written_fsd (h : desc.opveOp ∉ hooked.map VnodeopvEntryDesc.opveOp) :
    Function.update (written k initialOps w (desc :: hooked)) (k.vnopOffset desc.opveOp)
      (.fsd (initialOps w (k.vnopOffset desc.opveOp))) = written k initialOps w hooked := by
  funext offset
  rw [Function.update_apply, written_cons]
  by_cases ho : offset = k.vnopOffset desc.opveOp
  · subst ho
    rw [if_pos rfl, written_other (vnopOffset_ne h)]
  · rw [if_neg ho, if_neg (Ne.symm ho)]

end Written

/-- The entry has saved the functions that the operations `hooked` have in the
vector at first. -/
def Hooks.Saves (k : Kernel) (initialOps : OpVec → Nat → Nat) (s : Hooks Thread Vnode OpVec)
    (e : Nat) (w : OpVec) (hooked : List (VnodeopvEntryDesc Hook)) : Prop :=
  ∀ desc ∈ hooked, s.saved e desc.opveOp.indx = .fsd (initialOps w (k.vnopOffset desc.opveOp))

structure VectorInv (k : Kernel) (initialOps : OpVec → Nat → Nat)
    (s : Hooks Thread Vnode OpVec) : Prop where
  still : ∀ w, (∀ t, ¬ (s.pc t).Writing w) → s.slots w = written k initialOps w
    (if (s.sVnodeHooksHashTable w).isSome then gQvrVnodeVopHookEntries else [])
  saved : ∀ w e, (∀ t, ¬ (s.pc t).Writing w) → s.sVnodeHooksHashTable w = some e →
    s.Saves k initialOps e w gQvrVnodeVopHookEntries
  hooking : ∀ t v e descs, s.pc t = .hookLoop v e descs →
    ∃ hooked, hooked ++ descs = gQvrVnodeVopHookEntries ∧
      s.sVnodeHooksHashTable v.vOp = some e ∧
      s.slots v.vOp = written k initialOps v.vOp hooked ∧ s.Saves k initialOps e v.vOp hooked
  unhooking : ∀ t v e descs, s.pc t = .unhookLoop v e descs →
    (∃ restored, restored ++ descs = gQvrVnodeVopHookEntries) ∧
      s.sVnodeHooksHashTable v.vOp = none ∧
      s.slots v.vOp = written k initialOps v.vOp descs ∧
      s.Saves k initialOps e v.vOp gQvrVnodeVopHookEntries
  reading : ∀ t v indx e, s.pc t = .getRead v indx e →
    s.Saves k initialOps e v.vOp gQvrVnodeVopHookEntries
  found : ∀ t v indx f, (s.pc t).Found v indx f → ∀ desc ∈ gQvrVnodeVopHookEntries,
    desc.opveOp.indx = indx → f = .fsd (initialOps v.vOp (k.vnopOffset desc.opveOp))

variable {k : Kernel} {initialOps : OpVec → Nat → Nat}
variable {s s' : Hooks Thread Vnode OpVec} {t u : Thread} {e : Nat} {w : OpVec}

/-- The invariant holds before the first hooking. -/
theorem VectorInv.initial :
    VectorInv k initialOps (Hooks.initial initialOps : Hooks Thread Vnode OpVec) := by
  constructor
  case still =>
    intro w _
    rfl
  case saved =>
    intro w e _ h
    cases h
  case hooking =>
    intro t v e descs h
    cases h
  case unhooking =>
    intro t v e descs h
    cases h
  case reading =>
    intro t v indx e h
    cases h
  case found =>
    intro t v indx f h
    exact h.elim

/-- While the lock is free nobody is writing a vector. -/
theorem RefInv.not_writing (hr : RefInv s) (hlock : s.lock = none) (t : Thread) (w : OpVec) :
    ¬ (s.pc t).Writing w := by
  intro h
  have hexclusive := (hr.lock_iff t).mp h.exclusive
  rw [hlock] at hexclusive
  cases hexclusive

/-- While one thread has the lock no other writes to a vector. -/
theorem RefInv.not_writing_of (hr : RefInv s) (ht : (s.pc t).Exclusive) (hut : u ≠ t) (w : OpVec) :
    ¬ (s.pc u).Writing w := fun h => hut (hr.exclusive h.exclusive ht)

section Advance

variable [DecidableEq Thread] [DecidableEq Vnode] [DecidableEq OpVec] {alloc : Option Nat}
variable {v : VnodeT Vnode OpVec} {desc : VnodeopvEntryDesc Hook}
variable {descs : List (VnodeopvEntryDesc Hook)}
variable (hs : VectorInv k initialOps s) (hr : RefInv s) (h : s.advance k t alloc = some s')

include hs hr h

/-- A thread that looks for an original finds that of the file system. -/
theorem VectorInv.found_advance {indx : QvrVopEnum} {f : Vopfunc}
    (hfound : (s'.pc u).Found v indx f) (hmem : desc ∈ gQvrVnodeVopHookEntries)
    (hindx : desc.opveOp.indx = indx) :
    f = .fsd (initialOps v.vOp (k.vnopOffset desc.opveOp)) := by
  rcases eq_or_ne u t with rfl | hu
  · rcases advance_found h hfound with hold | ⟨e, hp, hf⟩ | ⟨hlock, htable, offset, hoff, hf⟩
    · exact hs.found u v indx f hold desc hmem hindx
    · rw [← hf, ← hindx]
      exact hs.reading u v indx e hp desc hmem
    · have hstill := hs.still v.vOp fun t => hr.not_writing hlock t _
      rw [← hindx, offsetOf_listed k desc hmem, Option.some.injEq] at hoff
      rw [htable] at hstill
      rw [← hf, hstill, ← hoff]
      rfl
  · rw [advance_pc h hu] at hfound
    exact hs.found u v indx f hfound desc hmem hindx

/-- A step that leaves the vectors, the table and the entries alone: it may end
a loop, and then the vector is complete. -/
theorem VectorInv.quiet_advance (hsame : SameVectors s s') (hnot : ∀ w, ¬ (s'.pc t).Writing w)
    (hend : ∀ w, (s.pc t).Writing w → ∃ v e, v.vOp = w ∧
      (s.pc t = .hookLoop v e [] ∨ s.pc t = .unhookLoop v e [])) :
    VectorInv k initialOps s' := by
  have hsaves : ∀ {e w hooked}, s.Saves k initialOps e w hooked →
      s'.Saves k initialOps e w hooked := fun hsave desc hmem => by
    rw [hsame.saved]
    exact hsave desc hmem
  -- who writes w in s, if nobody does in s'
  have hwho : ∀ w, (∀ u, ¬ (s'.pc u).Writing w) → (∀ u, ¬ (s.pc u).Writing w) ∨
      ∃ v e, v.vOp = w ∧ (s.pc t = .hookLoop v e [] ∨ s.pc t = .unhookLoop v e []) := by
    intro w hw
    by_cases ht : (s.pc t).Writing w
    · exact .inr (hend w ht)
    · refine .inl fun u hu => ?_
      rcases eq_or_ne u t with rfl | hut
      · exact ht hu
      · exact hw u (by rwa [advance_pc h hut])
  constructor
  case still =>
    intro w hw
    rw [hsame.slots, hsame.table]
    rcases hwho w hw with hold | ⟨v, e, rfl, hp | hp⟩
    · exact hs.still w hold
    · obtain ⟨hooked, happend, htable, hslots, -⟩ := hs.hooking t v e [] hp
      rw [List.append_nil] at happend
      rw [hslots, htable, happend]
      rfl
    · obtain ⟨-, htable, hslots, -⟩ := hs.unhooking t v e [] hp
      rw [hslots, htable]
      rfl
  case saved =>
    intro w e hw htable
    rw [hsame.table] at htable
    rcases hwho w hw with hold | ⟨v, e', rfl, hp | hp⟩
    · exact hsaves (hs.saved w e hold htable)
    · obtain ⟨hooked, happend, htable', -, hsave⟩ := hs.hooking t v e' [] hp
      rw [List.append_nil] at happend
      rw [htable, Option.some.injEq] at htable'
      rw [htable', ← happend]
      exact hsaves hsave
    · obtain ⟨-, htable', -⟩ := hs.unhooking t v e' [] hp
      rw [htable'] at htable
      cases htable
  case hooking =>
    intro u v e descs hp
    rcases eq_or_ne u t with rfl | hut
    · exact (hnot v.vOp (by rw [hp]; rfl)).elim
    · rw [advance_pc h hut] at hp
      obtain ⟨hooked, happend, htable, hslots, hsave⟩ := hs.hooking u v e descs hp
      exact ⟨hooked, happend, hsame.table ▸ htable, hsame.slots ▸ hslots, hsaves hsave⟩
  case unhooking =>
    intro u v e descs hp
    rcases eq_or_ne u t with rfl | hut
    · exact (hnot v.vOp (by rw [hp]; rfl)).elim
    · rw [advance_pc h hut] at hp
      obtain ⟨happend, htable, hslots, hsave⟩ := hs.unhooking u v e descs hp
      exact ⟨happend, hsame.table ▸ htable, hsame.slots ▸ hslots, hsaves hsave⟩
  case reading =>
    intro u v indx e hp
    rcases eq_or_ne u t with rfl | hut
    · obtain ⟨hlock, htable⟩ := advance_read h hp
      exact hsaves (hs.saved v.vOp e (fun t => hr.not_writing hlock t _) htable)
    · rw [advance_pc h hut] at hp
      exact hsaves (hs.reading u v indx e hp)
  case found =>
    intro u v indx f hfound desc hmem hindx
    exact hs.found_advance hr h hfound hmem hindx

/-- An entry is made at an address that nobody has: what the entries in use
have saved stays. -/
theorem VectorInv.newEntry_advance (hp : s.pc t = .hookNewEntry v) (hp' : s'.pc t = .hookLock v e)
    (hfree : s.counts e = 0) (hslots : s'.slots = s.slots)
    (htable : s'.sVnodeHooksHashTable = s.sVnodeHooksHashTable)
    (hsaved : s'.saved = Function.update s.saved e fun _ => .null) :
    VectorInv k initialOps s' := by
  -- a free entry is nobody's, so clearing it touches no saved operation that counts
  have hsaves : ∀ {r e' w hooked}, s.refs r = some e' → s.Saves k initialOps e' w hooked →
      s'.Saves k initialOps e' w hooked := fun {r} _ _ _ hr' hsave desc hmem => by
    have hne : _ ≠ e := fun heq => hr.free hfree r (heq ▸ hr')
    rw [hsaved, Function.update_of_ne hne]
    exact hsave desc hmem
  have hwriting : ∀ u w, (s'.pc u).Writing w ↔ (s.pc u).Writing w := by
    intro u w
    rcases eq_or_ne u t with rfl | hut
    · rw [hp, hp']
      exact Iff.rfl
    · rw [advance_pc h hut]
  -- only this thread is at another place than before
  have hother : ∀ {u p}, s'.pc u = p → p ≠ .hookLock v e → s.pc u = p := by
    intro u p hu hne
    rcases eq_or_ne u t with rfl | hut
    · exact (hne (hu.symm.trans hp')).elim
    · rwa [advance_pc h hut] at hu
  constructor
  case still =>
    intro w hw
    rw [hslots, htable]
    exact hs.still w fun u => by rw [← hwriting]; exact hw u
  case saved =>
    intro w e' hw htab
    rw [htable] at htab
    exact hsaves (r := .inr w) htab
      (hs.saved w e' (fun u => by rw [← hwriting]; exact hw u) htab)
  case hooking =>
    intro u v' e' descs hu
    have hold := hother hu (by simp)
    obtain ⟨hooked, happend, htab, hslots', hsave⟩ := hs.hooking u v' e' descs hold
    exact ⟨hooked, happend, htable ▸ htab, hslots ▸ hslots', hsaves (r := .inr v'.vOp) htab hsave⟩
  case unhooking =>
    intro u v' e' descs hu
    have hold := hother hu (by simp)
    obtain ⟨happend, htab, hslots', hsave⟩ := hs.unhooking u v' e' descs hold
    exact ⟨happend, htable ▸ htab, hslots ▸ hslots',
      hsaves (r := .inl u) (by rw [refs_inl, hold]; rfl) hsave⟩
  case reading =>
    intro u v' indx e' hu
    have hold := hother hu (by simp)
    exact hsaves (r := .inl u) (by rw [refs_inl, hold]; rfl) (hs.reading u v' indx e' hold)
  case found =>
    intro u v' indx f hfound desc hmem hindx
    exact hs.found_advance hr h hfound hmem hindx

/-- A step of the thread in the exclusive region that works on the vector `x`:
what it does to that vector is left to be shown, the others are as before. -/
theorem VectorInv.exclusive_advance {x : OpVec} (ht : (s.pc t).Exclusive)
    (hwas : ∀ w, (s.pc t).Writing w → w = x) (hnow : (s'.pc t).Writing x)
    (hslots : ∀ w, w ≠ x → s'.slots w = s.slots w)
    (htable : ∀ w, w ≠ x → s'.sVnodeHooksHashTable w = s.sVnodeHooksHashTable w)
    (hsaved : ∀ r e, r ≠ .inl t → r ≠ .inr x → s.refs r = some e → s'.saved e = s.saved e)
    (hhooking : ∀ v e descs, s'.pc t = .hookLoop v e descs →
      ∃ hooked, hooked ++ descs = gQvrVnodeVopHookEntries ∧
        s'.sVnodeHooksHashTable v.vOp = some e ∧
        s'.slots v.vOp = written k initialOps v.vOp hooked ∧
        s'.Saves k initialOps e v.vOp hooked)
    (hunhooking : ∀ v e descs, s'.pc t = .unhookLoop v e descs →
      (∃ restored, restored ++ descs = gQvrVnodeVopHookEntries) ∧
        s'.sVnodeHooksHashTable v.vOp = none ∧
        s'.slots v.vOp = written k initialOps v.vOp descs ∧
        s'.Saves k initialOps e v.vOp gQvrVnodeVopHookEntries) :
    VectorInv k initialOps s' := by
  have hothers : ∀ u w, u ≠ t → ¬ (s'.pc u).Writing w := by
    intro u w hut
    rw [advance_pc h hut]
    exact hr.not_writing_of ht hut w
  -- a vector that nobody writes in s' is another one, and nobody wrote it in s
  have hwho : ∀ w, (∀ u, ¬ (s'.pc u).Writing w) → w ≠ x ∧ ∀ u, ¬ (s.pc u).Writing w := by
    intro w hw
    have hne : w ≠ x := by
      rintro rfl
      exact hw t hnow
    refine ⟨hne, fun u hu => ?_⟩
    rcases eq_or_ne u t with rfl | hut
    · exact hne (hwas w hu)
    · exact hr.not_writing_of ht hut w hu
  constructor
  case still =>
    intro w hw
    obtain ⟨hne, hold⟩ := hwho w hw
    rw [hslots w hne, htable w hne]
    exact hs.still w hold
  case saved =>
    intro w e hw htab desc hmem
    obtain ⟨hne, hold⟩ := hwho w hw
    rw [htable w hne] at htab
    rw [hsaved (.inr w) e (by simp) (by simpa using hne) htab]
    exact hs.saved w e hold htab desc hmem
  case hooking =>
    intro u v e descs hp
    rcases eq_or_ne u t with rfl | hut
    · exact hhooking v e descs hp
    · exact (hothers u v.vOp hut (by rw [hp]; rfl)).elim
  case unhooking =>
    intro u v e descs hp
    rcases eq_or_ne u t with rfl | hut
    · exact hunhooking v e descs hp
    · exact (hothers u v.vOp hut (by rw [hp]; rfl)).elim
  case reading =>
    intro u v indx e hp desc hmem
    rcases eq_or_ne u t with rfl | hut
    · rw [hp] at hnow
      exact hnow.elim
    · rw [advance_pc h hut] at hp
      have hu : s.refs (.inl u) = some e := by
        rw [refs_inl, hp]
        rfl
      rw [hsaved (.inl u) e (by simpa using hut) (by simp) hu]
      exact hs.reading u v indx e hp desc hmem
  case found =>
    intro u v indx f hfound desc hmem hindx
    exact hs.found_advance hr h hfound hmem hindx

/-- A new entry comes with its vector not hooked yet. -/
theorem VectorInv.addEntry_advance (hp : s.pc t = .hookRecheck v e)
    (hp' : s'.pc t = .hookLoop v e gQvrVnodeVopHookEntries)
    (hnone : s.sVnodeHooksHashTable v.vOp = none) (hslots : s'.slots = s.slots)
    (htable : s'.sVnodeHooksHashTable = Function.update s.sVnodeHooksHashTable v.vOp (some e))
    (hsaved : s'.saved = s.saved) : VectorInv k initialOps s' := by
  have ht : (s.pc t).Exclusive := by
    rw [hp]
    trivial
  refine hs.exclusive_advance (x := v.vOp) hr h ht ?_ ?_ ?_ ?_ ?_ ?_ ?_
  · intro w hw
    rw [hp] at hw
    exact hw.elim
  · rw [hp']
    rfl
  · exact fun w _ => by rw [hslots]
  · exact fun w hne => by rw [htable, Function.update_of_ne hne]
  · exact fun r e _ _ _ => by rw [hsaved]
  · intro v' e' descs hloop
    rw [hp'] at hloop
    cases hloop
    -- nobody else writes, and the table had nothing: the slots hold the original operations
    have hstill := hs.still v.vOp fun u hu => by
      rcases eq_or_ne u t with rfl | hut
      · rw [hp] at hu
        exact hu
      · exact hr.not_writing_of ht hut _ hu
    rw [hnone] at hstill
    refine ⟨[], rfl, ?_, ?_, ?_⟩
    · rw [htable, Function.update_self]
    · rw [hslots, hstill]
      rfl
    · exact fun desc hmem => by cases hmem
  · intro v' e' descs hloop
    rw [hp'] at hloop
    cases hloop

/-- An entry that is taken out leaves its vector hooked until the slots are restored. -/
theorem VectorInv.removeEntry_advance (hp : s.pc t = .unhookRemove v)
    (hp' : s'.pc t = .unhookLoop v e gQvrVnodeVopHookEntries)
    (hsome : s.sVnodeHooksHashTable v.vOp = some e) (hslots : s'.slots = s.slots)
    (htable : s'.sVnodeHooksHashTable = Function.update s.sVnodeHooksHashTable v.vOp none)
    (hsaved : s'.saved = s.saved) : VectorInv k initialOps s' := by
  have ht : (s.pc t).Exclusive := by
    rw [hp]
    trivial
  refine hs.exclusive_advance (x := v.vOp) hr h ht ?_ ?_ ?_ ?_ ?_ ?_ ?_
  · intro w hw
    rw [hp] at hw
    exact hw.elim
  · rw [hp']
    rfl
  · exact fun w _ => by rw [hslots]
  · exact fun w hne => by rw [htable, Function.update_of_ne hne]
  · exact fun r e _ _ _ => by rw [hsaved]
  · intro v' e' descs hloop
    rw [hp'] at hloop
    cases hloop
  · intro v' e' descs hloop
    rw [hp'] at hloop
    cases hloop
    -- nobody else writes, so the slots and saved operations are those of a hooked vector
    have hold : ∀ u, ¬ (s.pc u).Writing v.vOp := fun u hu => by
      rcases eq_or_ne u t with rfl | hut
      · rw [hp] at hu
        exact hu
      · exact hr.not_writing_of ht hut _ hu
    have hstill := hs.still v.vOp hold
    rw [hsome] at hstill
    refine ⟨⟨[], rfl⟩, ?_, ?_, ?_⟩
    · rw [htable, Function.update_self]
    · rw [hslots, hstill]
      rfl
    · intro desc hmem
      rw [hsaved]
      exact hs.saved v.vOp e hold hsome desc hmem

end Advance

/-- What the body of the hooking loop does for an operation of the list. -/
theorem hookSlot_listed [DecidableEq OpVec] {v : VnodeT Vnode OpVec}
    {desc : VnodeopvEntryDesc Hook} (hmem : desc ∈ gQvrVnodeVopHookEntries) :
    s.hookSlot k v e desc =
      (s.modifyEntry e fun entry => entry.setOriginalVop desc.opveOp.indx
        (s.slots v.vOp (k.vnopOffset desc.opveOp))).writeSlot v.vOp (k.vnopOffset desc.opveOp)
          (.hook desc.opveImpl) := by
  unfold Hooks.hookSlot
  rw [resolve_listed k desc hmem]
  exact if_neg fun h => strategy_not_listed desc hmem h.2.2

/-- What the body of the unhooking loop does for an operation whose function
the entry has saved. -/
theorem unhookSlot_saved [DecidableEq OpVec] {v : VnodeT Vnode OpVec}
    {desc : VnodeopvEntryDesc Hook} (hmem : desc ∈ gQvrVnodeVopHookEntries)
    (hsave : s.Saves k initialOps e v.vOp gQvrVnodeVopHookEntries) :
    s.unhookSlot k v e desc = s.writeSlot v.vOp (k.vnopOffset desc.opveOp)
      (.fsd (initialOps v.vOp (k.vnopOffset desc.opveOp))) := by
  have hsaved := hsave desc hmem
  unfold Hooks.saved at hsaved
  unfold Hooks.unhookSlot QvrVnodeHookEntry.isHooked QvrVnodeHookEntry.getOrignalVop
  rw [resolve_listed k desc hmem]
  simp [hsaved]

section Loops

variable [DecidableEq Thread] [DecidableEq Vnode] [DecidableEq OpVec] {alloc : Option Nat}
variable {v : VnodeT Vnode OpVec} {desc : VnodeopvEntryDesc Hook}
variable {descs hooked : List (VnodeopvEntryDesc Hook)}

/-- In the list of the operations none comes twice. -/
theorem not_mem_of_split (h : hooked ++ desc :: descs = gQvrVnodeVopHookEntries) :
    desc ∈ gQvrVnodeVopHookEntries ∧ desc.opveOp ∉ hooked.map VnodeopvEntryDesc.opveOp ∧
      desc.opveOp ∉ descs.map VnodeopvEntryDesc.opveOp := by
  have hnodup := listed_nodup
  rw [← h, List.map_append, List.map_cons, List.nodup_append, List.nodup_cons] at hnodup
  obtain ⟨-, ⟨hdescs, -⟩, hdisjoint⟩ := hnodup
  refine ⟨h ▸ List.mem_append_right _ List.mem_cons_self, fun hmem => ?_, hdescs⟩
  exact hdisjoint _ hmem _ List.mem_cons_self rfl

variable (hs : VectorInv k initialOps s) (hr : RefInv s) (h : s.advance k t alloc = some s')

include hs hr h

/-- A slot that is hooked has its operation saved in the entry. -/
theorem VectorInv.hookSlot_advance (hp : s.pc t = .hookLoop v e (desc :: descs))
    (hs' : s' = (s.hookSlot k v e desc).goto t (.hookLoop v e descs)) :
    VectorInv k initialOps s' := by
  have ht : (s.pc t).Exclusive := by
    rw [hp]
    trivial
  have hp' : s'.pc t = .hookLoop v e descs := by
    rw [hs']
    exact Function.update_self _ _ _
  obtain ⟨hooked, happend, htab, hslots, hsave⟩ := hs.hooking t v e _ hp
  -- each operation is hooked once, so its slot still holds the original
  obtain ⟨hmem, hnew, -⟩ := not_mem_of_split happend
  rw [hookSlot_listed hmem] at hs'
  have hslots' : s'.slots = Function.update s.slots v.vOp (Function.update (s.slots v.vOp)
      (k.vnopOffset desc.opveOp) (.hook desc.opveImpl)) := by
    rw [hs']
    rfl
  have htable' : s'.sVnodeHooksHashTable = s.sVnodeHooksHashTable := by
    rw [hs']
    rfl
  have hsaved' : s'.saved = Function.update s.saved e (Function.update (s.saved e)
      desc.opveOp.indx (s.slots v.vOp (k.vnopOffset desc.opveOp))) := by
    rw [hs', Hooks.saved_eq]
    exact update_origVop _ _ _
  refine hs.exclusive_advance (x := v.vOp) hr h ht ?_ ?_ ?_ ?_ ?_ ?_ ?_
  · intro w hw
    rw [hp] at hw
    exact hw.symm
  · rw [hp']
    rfl
  · exact fun w hne => by rw [hslots', Function.update_of_ne hne]
  · exact fun w _ => by rw [htable']
  · intro r e' hrt hrw hre
    -- the entry is known to this thread and the table alone
    have hne : e' ≠ e := by
      rintro rfl
      rcases hr.hooking t v e' _ hp r hre with rfl | rfl
      · exact hrt rfl
      · exact hrw rfl
    rw [hsaved', Function.update_of_ne hne]
  · intro v' e' descs' hloop
    rw [hp'] at hloop
    cases hloop
    have hfirst : s.slots v.vOp (k.vnopOffset desc.opveOp) =
        .fsd (initialOps v.vOp (k.vnopOffset desc.opveOp)) := by
      rw [hslots]
      exact written_other (vnopOffset_ne hnew)
    -- the hooked part of the list grows by this operation
    refine ⟨hooked ++ [desc], by rw [List.append_assoc]; exact happend, ?_, ?_, ?_⟩
    · rw [htable', htab]
    · rw [hslots', Function.update_self, hslots, update_written_hook hnew]
    · intro desc' hmem'
      rw [hsaved', Function.update_self]
      rcases List.mem_append.mp hmem' with hold | hlast
      · have hne : desc'.opveOp.indx ≠ desc.opveOp.indx := fun heq => by
          rw [← VnodeopDesc.indx_injective heq] at hnew
          exact hnew (List.mem_map_of_mem hold)
        rw [Function.update_of_ne hne]
        exact hsave desc' hold
      · rw [List.mem_singleton.mp hlast, Function.update_self, hfirst]
  · intro v' e' descs' hloop
    rw [hp'] at hloop
    cases hloop

/-- A slot that is restored gets the operation that was saved. -/
theorem VectorInv.unhookSlot_advance (hp : s.pc t = .unhookLoop v e (desc :: descs))
    (hs' : s' = (s.unhookSlot k v e desc).goto t (.unhookLoop v e descs)) :
    VectorInv k initialOps s' := by
  have ht : (s.pc t).Exclusive := by
    rw [hp]
    trivial
  have hp' : s'.pc t = .unhookLoop v e descs := by
    rw [hs']
    exact Function.update_self _ _ _
  obtain ⟨⟨restored, happend⟩, htab, hslots, hsave⟩ := hs.unhooking t v e _ hp
  obtain ⟨hmem, -, hnew⟩ := not_mem_of_split happend
  -- what is written back is the operation that was saved
  rw [unhookSlot_saved hmem hsave] at hs'
  have hslots' : s'.slots = Function.update s.slots v.vOp (Function.update (s.slots v.vOp)
      (k.vnopOffset desc.opveOp) (.fsd (initialOps v.vOp (k.vnopOffset desc.opveOp)))) := by
    rw [hs']
    rfl
  have htable' : s'.sVnodeHooksHashTable = s.sVnodeHooksHashTable := by
    rw [hs']
    rfl
  have hsaved' : s'.saved = s.saved := by
    rw [hs']
    rfl
  refine hs.exclusive_advance (x := v.vOp) hr h ht ?_ ?_ ?_ ?_ ?_ ?_ ?_
  · intro w hw
    rw [hp] at hw
    exact hw.symm
  · rw [hp']
    rfl
  · exact fun w hne => by rw [hslots', Function.update_of_ne hne]
  · exact fun w _ => by rw [htable']
  · exact fun r e _ _ _ => by rw [hsaved']
  · intro v' e' descs' hloop
    rw [hp'] at hloop
    cases hloop
  · intro v' e' descs' hloop
    rw [hp'] at hloop
    cases hloop
    -- the restored part of the list grows by this operation
    refine ⟨⟨restored ++ [desc], by rw [List.append_assoc]; exact happend⟩, ?_, ?_, ?_⟩
    · rw [htable', htab]
    · rw [hslots', Function.update_self, hslots, update_written_fsd hnew]
    · intro desc' hmem'
      rw [hsaved']
      exact hsave desc' hmem'

/-- The next operation of a thread keeps the invariant. -/
theorem VectorInv.advance : VectorInv k initialOps s' := by
  rcases advance_vectors h with ⟨hsame, hnot, hend⟩ |
    ⟨v, e, hp, hp', hfree, hslots, htable, hsaved⟩ |
    ⟨v, e, hp, hp', hnone, hslots, htable, hsaved⟩ | ⟨v, e, desc, descs, hp, hs'⟩ |
    ⟨v, e, hp, hp', hsome, hslots, htable, hsaved⟩ | ⟨v, e, desc, descs, hp, hs'⟩
  · exact hs.quiet_advance hr h hsame hnot hend
  · exact hs.newEntry_advance hr h hp hp' hfree hslots htable hsaved
  · exact hs.addEntry_advance hr h hp hp' hnone hslots htable hsaved
  · exact hs.hookSlot_advance hr h hp hs'
  · exact hs.removeEntry_advance hr h hp hp' hsome hslots htable hsaved
  · exact hs.unhookSlot_advance hr h hp hs'

end Loops

/-- A thread that starts writes to no vector. -/
theorem VectorInv.start {p : HookPc Vnode OpVec} [DecidableEq Thread]
    (hs : VectorInv k initialOps s) (hidle : s.pc t = .idle) (hp : p.Starting) :
    VectorInv k initialOps (s.goto t p) := by
  -- the place where a call starts writes no slot and has read none
  have hquiet : (∀ w, ¬ p.Writing w) ∧ (∀ v indx f, ¬ p.Found v indx f) ∧
      ∀ v indx e, p ≠ .getRead v indx e := by
    cases p <;> first | exact hp.elim | simp [Writing, Found]
  obtain ⟨hwriting, hfound, hread⟩ := hquiet
  have hself : (s.goto t p).pc t = p := Function.update_self _ _ _
  have hother : ∀ {u}, u ≠ t → (s.goto t p).pc u = s.pc u := fun hu => Function.update_of_ne hu _ _
  -- an idle thread was not writing
  have hwas : ∀ u w, (s.pc u).Writing w → ((s.goto t p).pc u).Writing w := by
    intro u w hw
    rcases eq_or_ne u t with rfl | hut
    · rw [hidle] at hw
      exact hw.elim
    · rwa [hother hut]
  constructor
  case still =>
    exact fun w hw => hs.still w fun u hu => hw u (hwas u w hu)
  case saved =>
    exact fun w e hw htable => hs.saved w e (fun u hu => hw u (hwas u w hu)) htable
  case hooking =>
    intro u v e descs hu
    rcases eq_or_ne u t with rfl | hut
    · exact (hwriting v.vOp (by rw [← hself, hu]; rfl)).elim
    · exact hs.hooking u v e descs (hother hut ▸ hu)
  case unhooking =>
    intro u v e descs hu
    rcases eq_or_ne u t with rfl | hut
    · exact (hwriting v.vOp (by rw [← hself, hu]; rfl)).elim
    · exact hs.unhooking u v e descs (hother hut ▸ hu)
  case reading =>
    intro u v indx e hu
    rcases eq_or_ne u t with rfl | hut
    · exact (hread v indx e (hself.symm.trans hu)).elim
    · exact hs.reading u v indx e (hother hut ▸ hu)
  case found =>
    intro u v indx f hu
    rcases eq_or_ne u t with rfl | hut
    · exact (hfound v indx f (hself ▸ hu)).elim
    · exact hs.found u v indx f (hother hut ▸ hu)

/-- The invariant holds in every state that can be reached. -/
theorem VectorInv.reachable [DecidableEq Thread] [DecidableEq Vnode] [DecidableEq OpVec]
    (h : Reachable (hookSystem k initialOps) s) : VectorInv k initialOps s := by
  refine ReachableBy.invariant_of (fun s hs => RefInv.reachable hs) (fun s hs => ?_)
    (fun s a s' hs hr _ _ hstep => ?_) h
  · cases hs
    exact .initial
  · rcases step_cases hstep with ⟨alloc, hadv⟩ | ⟨p, hidle, hp, rfl⟩
    · exact hs.advance hr hadv
    · exact hs.start hidle hp

end VfsRedirector.VNodeHook
