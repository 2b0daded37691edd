import VfsRedirector.VNodeHook.Original

/-!
# VNodeHook: the order in which the slots are written

The slots of a vector are written one at a time while other threads call through
them. The comment over `gQvrVnodeVopHookEntries` says why the order of the list
matters: a vnode must not be discovered by a hook whose vector does not have the
reclaim hook yet, as nobody would see it go.

At each instant the hooks in a vector are a part of the list: the first ones, or
the last ones while a thread writes the functions back, as that goes through the
list in the same order. `hooked_in_order` is what follows for any two operations.

## Results

* `VectorInv.segment` — a vector has the first hooks of the list, or the last ones.
* `hooked_in_order` — hooks come and go in the order of the list.
-/

namespace VfsRedirector.VNodeHook

open Library HookPc

variable {Thread Vnode OpVec : Type} {k : Kernel} {initialOps : OpVec → Nat → Nat}
  {s : Hooks Thread Vnode OpVec} {w : OpVec} {desc : VnodeopvEntryDesc Hook}
  {hooked before after rest : List (VnodeopvEntryDesc Hook)}

/-- The slot of the operation has its hook. -/
def Hooks.Hooked (k : Kernel) (s : Hooks Thread Vnode OpVec) (w : OpVec)
    (desc : VnodeopvEntryDesc Hook) : Prop :=
  s.slots w (k.vnopOffset desc.opveOp) = .hook desc.opveImpl

/-- A thread writes the functions of the file system back. -/
def Hooks.Restoring (s : Hooks Thread Vnode OpVec) (w : OpVec) : Prop :=
  ∃ t v e descs, s.pc t = .unhookLoop v e descs ∧ v.vOp = w

-- ---------------------------------------------------------------------------
-- Parts of the list
-- ---------------------------------------------------------------------------

/-- The list has one descriptor for each operation. -/
theorem opveOp_injOn {desc' : VnodeopvEntryDesc Hook} (hmem : desc ∈ gQvrVnodeVopHookEntries)
    (hmem' : desc' ∈ gQvrVnodeVopHookEntries) (h : desc.opveOp = desc'.opveOp) : desc = desc' :=
  List.inj_on_of_nodup_map listed_nodup hmem hmem' h

/-- Of a part of the list, the operations in it are those that have their hook. -/
theorem written_eq_hook_iff (hsub : hooked.Sublist gQvrVnodeVopHookEntries)
    (hmem : desc ∈ gQvrVnodeVopHookEntries) :
    written k initialOps w hooked (k.vnopOffset desc.opveOp) = .hook desc.opveImpl ↔
      desc ∈ hooked := by
  constructor
  · intro h
    by_contra hnot
    have hother : ∀ desc' ∈ hooked, k.vnopOffset desc'.opveOp ≠ k.vnopOffset desc.opveOp := by
      intro desc' hmem' heq
      obtain rfl := opveOp_injOn (hsub.subset hmem') hmem (k.vnopOffset_injective heq)
      exact hnot hmem'
    rw [written_other hother] at h
    cases h
  · intro h
    exact written_listed (listed_nodup.sublist (hsub.map _)) h

/-- What comes before a member of the first part is in it. -/
theorem before_of_first (hsplit : before ++ desc :: after = hooked ++ rest)
    (hnodup : (hooked ++ rest).Nodup) (hmem : desc ∈ hooked) : ∀ d ∈ before, d ∈ hooked := by
  obtain ⟨middle, rfl, -⟩ | ⟨middle, rfl, hrest⟩ := List.append_eq_append_iff.mp hsplit
  · intro d hd
    exact List.mem_append_left _ hd
  · intro d hd
    rw [List.mem_append] at hd
    obtain hd | hd := hd
    · exact hd
    · -- then `desc` would be in the rest too
      have hagain : desc ∈ rest := by
        rw [hrest]
        exact List.mem_append_right _ List.mem_cons_self
      exact absurd rfl ((List.nodup_append.mp hnodup).2.2 desc hmem desc hagain)

/-- What comes after a member of the last part is in it. -/
theorem after_of_last (hsplit : before ++ desc :: after = rest ++ hooked)
    (hnodup : (rest ++ hooked).Nodup) (hmem : desc ∈ hooked) : ∀ d ∈ after, d ∈ hooked := by
  have hreverse : after.reverse ++ desc :: before.reverse = hooked.reverse ++ rest.reverse := by
    rw [← List.reverse_append, ← hsplit]
    simp
  have hnodup' : (hooked.reverse ++ rest.reverse).Nodup := by
    rwa [← List.reverse_append, List.nodup_reverse]
  intro d hd
  have hfirst := before_of_first hreverse hnodup' (List.mem_reverse.mpr hmem) d
    (List.mem_reverse.mpr hd)
  exact List.mem_reverse.mp hfirst

-- ---------------------------------------------------------------------------
-- Every instant
-- ---------------------------------------------------------------------------

/-- The vector has the first hooks of the list, or the last ones while it is restored. -/
theorem VectorInv.segment (hs : VectorInv k initialOps s) (w : OpVec) :
    ∃ hooked rest, s.slots w = written k initialOps w hooked ∧
      ((¬ s.Restoring w ∧ hooked ++ rest = gQvrVnodeVopHookEntries) ∨
        (s.Restoring w ∧ rest ++ hooked = gQvrVnodeVopHookEntries)) := by
  by_cases hrestoring : s.Restoring w
  · obtain ⟨t, v, e, descs, hp, rfl⟩ := hrestoring
    obtain ⟨⟨restored, happend⟩, -, hslots, -⟩ := hs.unhooking t v e descs hp
    exact ⟨descs, restored, hslots, .inr ⟨⟨t, v, e, descs, hp, rfl⟩, happend⟩⟩
  by_cases hwriting : ∃ t, (s.pc t).Writing w
  · obtain ⟨t, ht⟩ := hwriting
    cases hp : s.pc t <;> rw [hp] at ht <;> try exact ht.elim
    case hookLoop v e descs =>
      obtain rfl : v.vOp = w := ht
      obtain ⟨hooked, happend, -, hslots, -⟩ := hs.hooking t v e descs hp
      exact ⟨hooked, descs, hslots, .inl ⟨hrestoring, happend⟩⟩
    case unhookLoop v e descs => exact absurd ⟨t, v, e, descs, hp, ht⟩ hrestoring
  · have hslots := hs.still w fun t ht => hwriting ⟨t, ht⟩
    by_cases htable : (s.sVnodeHooksHashTable w).isSome
    · rw [if_pos htable] at hslots
      exact ⟨_, [], hslots, .inl ⟨hrestoring, List.append_nil _⟩⟩
    · rw [if_neg htable] at hslots
      exact ⟨[], _, hslots, .inl ⟨hrestoring, rfl⟩⟩

/-- A vector is restored when its entry has been taken out of the table. -/
theorem VectorInv.not_restoring {e : Nat} (hs : VectorInv k initialOps s)
    (htable : s.sVnodeHooksHashTable w = some e) : ¬ s.Restoring w := by
  rintro ⟨t, v, e', descs, hp, rfl⟩
  obtain ⟨-, hnone, -, -⟩ := hs.unhooking t v e' descs hp
  rw [htable] at hnone
  cases hnone

variable [DecidableEq Thread] [DecidableEq Vnode] [DecidableEq OpVec]

/-- **Hooks come and go in the order of the list.** In every state of every run, if the slot
of a listed operation has its hook then so have those of all operations before it, the
reclaim operation first of all; while a thread writes the functions of the vector back, it
is those after it. In the slots of the other operations there is always the function of
the file system. -/
theorem hooked_in_order (h : Reachable (hookSystem k initialOps) s) (w : OpVec) :
    (∀ before desc after, before ++ desc :: after = gQvrVnodeVopHookEntries →
      s.Hooked k w desc →
        (¬ s.Restoring w → ∀ d ∈ ⟨.reclaim, .qvrFsdReclaimHookEx2⟩ :: before, s.Hooked k w d) ∧
        (s.Restoring w → ∀ d ∈ after, s.Hooked k w d)) ∧
    ∀ offset, (∀ desc ∈ gQvrVnodeVopHookEntries, k.vnopOffset desc.opveOp ≠ offset) →
      s.slots w offset = .fsd (initialOps w offset) := by
  obtain ⟨hooked, rest, hslots, hpart⟩ := (VectorInv.reachable h).segment w
  -- whether hooking or restoring, the hooked operations are a part of the list
  have hsub : hooked.Sublist gQvrVnodeVopHookEntries := by
    obtain ⟨-, happend⟩ | ⟨-, happend⟩ := hpart
    · exact happend ▸ List.sublist_append_left _ _
    · exact happend ▸ List.sublist_append_right _ _
  have hhooked : ∀ d ∈ gQvrVnodeVopHookEntries, (s.Hooked k w d ↔ d ∈ hooked) := by
    intro d hd
    rw [Hooks.Hooked, hslots]
    exact written_eq_hook_iff hsub hd
  have hnodup : gQvrVnodeVopHookEntries.Nodup := listed_nodup.of_map
  refine ⟨fun before desc after hsplit hdesc => ?_, fun offset hoffset => ?_⟩
  · have hmem : desc ∈ gQvrVnodeVopHookEntries := by
      rw [← hsplit]
      exact List.mem_append_right _ List.mem_cons_self
    rw [hhooked desc hmem] at hdesc
    constructor
    · intro hnot d hd
      -- the hooked part is a first part of the list
      obtain ⟨-, happend⟩ | ⟨hrestoring, -⟩ := hpart
      · obtain ⟨first, hooked, rfl⟩ := List.exists_cons_of_ne_nil (List.ne_nil_of_mem hdesc)
        have hfirst := List.head_eq_of_cons_eq happend
        subst hfirst
        obtain rfl | hd := List.mem_cons.mp hd
        · exact (hhooked _ List.mem_cons_self).mpr List.mem_cons_self
        · have hbefore : d ∈ gQvrVnodeVopHookEntries := hsplit ▸ List.mem_append_left _ hd
          rw [← happend] at hsplit hnodup
          exact (hhooked d hbefore).mpr (before_of_first hsplit hnodup hdesc d hd)
      · exact absurd hrestoring hnot
    · intro hrestoring d hd
      obtain ⟨hnot, -⟩ | ⟨-, happend⟩ := hpart
      · exact absurd hrestoring hnot
      -- the hooked part is a last part of the list
      · have hafter : d ∈ gQvrVnodeVopHookEntries := by
          rw [← hsplit]
          exact List.mem_append_right _ (List.mem_cons_of_mem _ hd)
        rw [← happend] at hsplit hnodup
        exact (hhooked d hafter).mpr (after_of_last hsplit hnodup hdesc d hd)
  · rw [hslots]
    exact written_other fun desc hdesc => hoffset desc (hsub.subset hdesc)

/-- A thread hooks a vector and has come to the lookup operation, so that the vector can
discover vnodes; the operations up to it are hooked, and create is not. -/
theorem hooked_in_order_lookup : ∃ s : Hooks Nat Nat Nat,
    Reachable (hookSystem .inOrder fun w offset => 100 * w + offset) s ∧
    s.Hooked .inOrder 3 ⟨.lookup, .qvrVnopLookupHookEx2⟩ ∧
    s.slots 3 (Kernel.inOrder.vnopOffset .create) = .fsd 308 ∧
    ∀ d ∈ gQvrVnodeVopHookEntries.take 6, s.Hooked .inOrder 3 d := by
  have hrun : ((exec (hookSystem .inOrder fun w offset => 100 * w + offset)
      (Hooks.initial fun w offset => 100 * w + offset : Hooks Nat Nat Nat)
      ([.hook 0 ⟨7, 3, .vreg⟩ false] ++ List.replicate 11 (.advance 0 (some 0)))).any fun s =>
      s.sVnodeHooksHashTable 3 = some 0 ∧
      s.slots 3 (Kernel.inOrder.vnopOffset .lookup) = .hook .qvrVnopLookupHookEx2 ∧
      s.slots 3 (Kernel.inOrder.vnopOffset .create) = .fsd 308) = true := by decide +kernel
  rw [Option.any_eq_true] at hrun
  obtain ⟨s, hexec, hfacts⟩ := hrun
  obtain ⟨htable, hlookup, hcreate⟩ := of_decide_eq_true hfacts
  have hreach := ReachableBy.exec (.init rfl) _ hexec
  have hnot := (VectorInv.reachable hreach).not_restoring htable
  obtain ⟨horder, -⟩ := hooked_in_order hreach 3
  have hearlier := (horder (gQvrVnodeVopHookEntries.take 6) ⟨.lookup, .qvrVnopLookupHookEx2⟩
    (gQvrVnodeVopHookEntries.drop 7) rfl hlookup).1 hnot
  exact ⟨s, hreach, hlookup, hcreate, fun d hd => hearlier d (List.mem_cons_of_mem _ hd)⟩

end VfsRedirector.VNodeHook
