import Mathlib.Tactic.Tauto
import VfsRedirector.DataMap

/-!
# VNode: what is associated with a vnode

`VNodeMap` has a map for the data of the application that controls a vnode, one
for the vnode its I/O goes to and one from a shadow vnode back to the original.
Each operation on the last two is one region under `VNodeMap::Lock`. The
vnodes that they map to are referenced: an operation that adds says whether it
called `vnode_get` on the value, and one that removes says on which vnode
`vnode_put` is due once the lock is released.

The fourth map, `InstanceForHookedVnodes`, is part of the model of hooking.

## Results

* `getVnodeIo_addVnodeIo_self` — an entry that is there stays, whatever is added.
* `addVnodeIO_other`, `addVnodeShadowReverse_other` — what is added for one vnode
  leaves the others.
* `addVnodeShadowReverse_fail` — without memory the entry that was to be replaced is
  lost.
-/

namespace VfsRedirector

structure VNodeMap (Vnode App : Type) where
  instanceForAppData : DataMap Vnode App
  instanceForVnodeIo : DataMap Vnode Vnode
  instanceForShadowToVnode : DataMap Vnode Vnode

namespace VNodeMap

variable {Vnode App : Type} [DecidableEq Vnode]

def empty : VNodeMap Vnode App := ⟨.empty, .empty, .empty⟩

def getVnodeAppData (m : VNodeMap Vnode App) (vn : Vnode) : Option App :=
  m.instanceForAppData.getDataByKey vn

def getVnodeIo (m : VNodeMap Vnode App) (vn : Vnode) : Option Vnode :=
  m.instanceForVnodeIo.getDataByKey vn

def getVnodeShadowReverse (m : VNodeMap Vnode App) (vnodeShadow : Vnode) : Option Vnode :=
  m.instanceForShadowToVnode.getDataByKey vnodeShadow

def addVnodeAppData (m : VNodeMap Vnode App) (vn : Vnode) (data : App) (alloc : Bool) :
    VNodeMap Vnode App :=
  { m with instanceForAppData := (m.instanceForAppData.addDataByKey vn data alloc).1 }

def removeVnodeAppData (m : VNodeMap Vnode App) (vn : Vnode) : VNodeMap Vnode App :=
  { m with instanceForAppData := m.instanceForAppData.removeKey vn }

/-- Does not replace an entry. -/
def addVnodeIo (m : VNodeMap Vnode App) (vn vnodeIo : Vnode) (alloc : Bool) :
    VNodeMap Vnode App × Bool :=
  match m.getVnodeIo vn with
  | none =>
    let added := m.instanceForVnodeIo.addDataByKey vn vnodeIo alloc
    ({ m with instanceForVnodeIo := added.1 }, added.2)
  | some _ => (m, false)

def removeVnodeIo (m : VNodeMap Vnode App) (vn : Vnode) : VNodeMap Vnode App × Option Vnode :=
  match m.getVnodeIo vn with
  | none => (m, none)
  | some vnodeIo =>
    ({ m with instanceForVnodeIo := m.instanceForVnodeIo.removeKey vn }, some vnodeIo)

/-- Replaces an entry for another vnode, which is the one to be put. -/
def addVnodeShadowReverse (m : VNodeMap Vnode App) (vnodeShadow vn : Vnode) (alloc : Bool) :
    VNodeMap Vnode App × Bool × Option Vnode :=
  match m.getVnodeShadowReverse vnodeShadow with
  | none =>
    let added := m.instanceForShadowToVnode.addDataByKey vnodeShadow vn alloc
    ({ m with instanceForShadowToVnode := added.1 }, added.2, none)
  | some currentVnode =>
    if vn ≠ currentVnode then
      let added :=
        (m.instanceForShadowToVnode.removeKey vnodeShadow).addDataByKey vnodeShadow vn alloc
      ({ m with instanceForShadowToVnode := added.1 }, added.2, some currentVnode)
    else (m, false, none)

def removeShadowReverse (m : VNodeMap Vnode App) (vnodeShadow : Vnode) :
    VNodeMap Vnode App × Option Vnode :=
  match m.getVnodeShadowReverse vnodeShadow with
  | none => (m, none)
  | some vn =>
    ({ m with instanceForShadowToVnode := m.instanceForShadowToVnode.removeKey vnodeShadow },
      some vn)

-- ---------------------------------------------------------------------------
-- What the operations do to the entries
-- ---------------------------------------------------------------------------

/-- A vnode is a key of one of the maps. -/
def Associated (m : VNodeMap Vnode App) (vn : Vnode) : Prop :=
  m.getVnodeAppData vn ≠ none ∨ m.getVnodeIo vn ≠ none ∨ m.getVnodeShadowReverse vn ≠ none

instance (m : VNodeMap Vnode App) (vn : Vnode) [DecidableEq App] : Decidable (m.Associated vn) :=
  inferInstanceAs (Decidable (_ ∨ _ ∨ _))

/-- A vnode is not associated if it is in none of the three maps. -/
theorem not_associated_iff {m : VNodeMap Vnode App} {vn : Vnode} : ¬ m.Associated vn ↔
    m.getVnodeAppData vn = none ∧ m.getVnodeIo vn = none ∧ m.getVnodeShadowReverse vn = none := by
  simp [Associated]

@[simp] theorem not_associated_empty (vn : Vnode) :
    ¬ (empty : VNodeMap Vnode App).Associated vn := by
  simp [Associated, empty, getVnodeAppData, getVnodeIo, getVnodeShadowReverse]

variable {m : VNodeMap Vnode App} {vn vn' : Vnode}

@[simp] theorem getVnodeAppData_removeVnodeAppData :
    (m.removeVnodeAppData vn').getVnodeAppData vn =
      if vn = vn' then none else m.getVnodeAppData vn := by
  simp [removeVnodeAppData, getVnodeAppData]

@[simp] theorem getVnodeIO_removeVnodeAppData :
    (m.removeVnodeAppData vn').getVnodeIo vn = m.getVnodeIo vn := rfl

@[simp] theorem getVnodeShadowReverse_removeVnodeAppData :
    (m.removeVnodeAppData vn').getVnodeShadowReverse vn = m.getVnodeShadowReverse vn := rfl

@[simp] theorem getVnodeIO_removeVnodeIo :
    (m.removeVnodeIo vn').1.getVnodeIo vn = if vn = vn' then none else m.getVnodeIo vn := by
  unfold removeVnodeIo
  cases hget : m.getVnodeIo vn' with
  | none =>
    by_cases h : vn = vn'
    · rw [if_pos h, h, hget]
    · rw [if_neg h]
  | some vnodeIo => simp [getVnodeIo]

@[simp] theorem getVnodeAppData_removeVnodeIo :
    (m.removeVnodeIo vn').1.getVnodeAppData vn = m.getVnodeAppData vn := by
  unfold removeVnodeIo
  cases m.getVnodeIo vn' <;> rfl

@[simp] theorem getVnodeShadowReverse_removeVnodeIo :
    (m.removeVnodeIo vn').1.getVnodeShadowReverse vn = m.getVnodeShadowReverse vn := by
  unfold removeVnodeIo
  cases m.getVnodeIo vn' <;> rfl

@[simp] theorem getVnodeShadowReverse_removeShadowReverse :
    (m.removeShadowReverse vn').1.getVnodeShadowReverse vn =
      if vn = vn' then none else m.getVnodeShadowReverse vn := by
  unfold removeShadowReverse
  cases hget : m.getVnodeShadowReverse vn' with
  | none =>
    by_cases h : vn = vn'
    · rw [if_pos h, h, hget]
    · rw [if_neg h]
  | some vnodeIo => simp [getVnodeShadowReverse]

@[simp] theorem getVnodeAppData_removeShadowReverse :
    (m.removeShadowReverse vn').1.getVnodeAppData vn = m.getVnodeAppData vn := by
  unfold removeShadowReverse
  cases m.getVnodeShadowReverse vn' <;> rfl

@[simp] theorem getVnodeIO_removeShadowReverse :
    (m.removeShadowReverse vn').1.getVnodeIo vn = m.getVnodeIo vn := by
  unfold removeShadowReverse
  cases m.getVnodeShadowReverse vn' <;> rfl

/-- The maps have the same for a vnode. -/
structure SameAt (m m' : VNodeMap Vnode App) (vn : Vnode) : Prop where
  appData : m'.getVnodeAppData vn = m.getVnodeAppData vn
  vnodeIo : m'.getVnodeIo vn = m.getVnodeIo vn
  shadowReverse : m'.getVnodeShadowReverse vn = m.getVnodeShadowReverse vn

/-- Maps that have the same for a vnode agree on whether it is associated. -/
theorem SameAt.associated_iff {m' : VNodeMap Vnode App} (h : SameAt m m' vn) :
    m'.Associated vn ↔ m.Associated vn := by
  unfold Associated
  rw [h.appData, h.vnodeIo, h.shadowReverse]

-- An operation that adds an entry adds it for its own key, and none if the
-- allocation fails.

/-- Application data that is added for one vnode leaves what the others have. -/
theorem addVnodeAppData_other {data : App} {alloc : Bool} (hvn : vn ≠ vn') :
    SameAt m (m.addVnodeAppData vn' data alloc) vn := by
  refine ⟨?_, rfl, rfl⟩
  cases alloc with
  | false => rfl
  | true => simp [addVnodeAppData, getVnodeAppData, hvn]

/-- A backing vnode that is added for one vnode leaves what the others have. -/
theorem addVnodeIO_other {vnodeIo : Vnode} {alloc : Bool} (hvn : vn ≠ vn') :
    SameAt m (m.addVnodeIo vn' vnodeIo alloc).1 vn := by
  unfold addVnodeIo
  cases hget : m.getVnodeIo vn' with
  | some _ => exact ⟨rfl, rfl, rfl⟩
  | none =>
    refine ⟨rfl, ?_, rfl⟩
    cases alloc with
    | false => rfl
    | true => simp [getVnodeIo, hvn]

/-- A reverse entry that is added for one vnode leaves what the others have. -/
theorem addVnodeShadowReverse_other {vnode : Vnode} {alloc : Bool} (hvn : vn ≠ vn') :
    SameAt m (m.addVnodeShadowReverse vn' vnode alloc).1 vn := by
  unfold addVnodeShadowReverse
  cases hget : m.getVnodeShadowReverse vn' with
  | none =>
    refine ⟨rfl, rfl, ?_⟩
    cases alloc with
    | false => rfl
    | true => simp [getVnodeShadowReverse, hvn]
  | some currentVnode =>
    by_cases hcur : vnode = currentVnode
    · simp only [hcur, ne_eq, not_true_eq_false, if_false]
      exact ⟨rfl, rfl, rfl⟩
    · simp only [ne_eq, hcur, not_false_eq_true, if_true]
      refine ⟨rfl, rfl, ?_⟩
      cases alloc <;> simp [getVnodeShadowReverse, hvn]

/-- Without memory no backing vnode is added. -/
theorem addVnodeIO_fail {vnodeIo : Vnode} : (m.addVnodeIo vn' vnodeIo false).1 = m := by
  unfold addVnodeIo
  cases m.getVnodeIo vn' <;> rfl

/-- Without memory an entry that was to be replaced is lost, and none is added. -/
theorem addVnodeShadowReverse_fail {vnode : Vnode}
    (h : (m.addVnodeShadowReverse vn' vnode false).1.Associated vn) : m.Associated vn := by
  rcases eq_or_ne vn vn' with rfl | hvn
  · unfold addVnodeShadowReverse at h
    cases hget : m.getVnodeShadowReverse vn with
    | none =>
      rw [hget] at h
      exact h
    | some currentVnode =>
      refine .inr (.inr ?_)
      rw [hget]
      exact Option.some_ne_none _
  · exact (addVnodeShadowReverse_other hvn).associated_iff.mp h

@[simp] theorem getVnodeIO_addVnodeAppData {data : App} {alloc : Bool} :
    (m.addVnodeAppData vn' data alloc).getVnodeIo vn = m.getVnodeIo vn := rfl

@[simp] theorem getVnodeAppData_addVnodeIo {vnodeIo : Vnode} {alloc : Bool} :
    (m.addVnodeIo vn' vnodeIo alloc).1.getVnodeAppData vn = m.getVnodeAppData vn := by
  unfold addVnodeIo
  cases m.getVnodeIo vn' <;> rfl

@[simp] theorem getVnodeShadowReverse_addVnodeIo {vnodeIo : Vnode} {alloc : Bool} :
    (m.addVnodeIo vn' vnodeIo alloc).1.getVnodeShadowReverse vn = m.getVnodeShadowReverse vn := by
  unfold addVnodeIo
  cases m.getVnodeIo vn' <;> rfl

@[simp] theorem getVnodeIO_addVnodeShadowReverse {vnode : Vnode} {alloc : Bool} :
    (m.addVnodeShadowReverse vn' vnode alloc).1.getVnodeIo vn = m.getVnodeIo vn := by
  unfold addVnodeShadowReverse
  cases m.getVnodeShadowReverse vn' with
  | none => rfl
  | some currentVnode =>
    by_cases h : vnode = currentVnode
    · simp [h]
    · simp only [ne_eq, h, not_false_eq_true, if_true]
      rfl

@[simp] theorem getVnodeAppData_addVnodeShadowReverse {vnode : Vnode} {alloc : Bool} :
    (m.addVnodeShadowReverse vn' vnode alloc).1.getVnodeAppData vn = m.getVnodeAppData vn := by
  unfold addVnodeShadowReverse
  cases m.getVnodeShadowReverse vn' with
  | none => rfl
  | some currentVnode =>
    by_cases h : vnode = currentVnode
    · simp [h]
    · simp only [ne_eq, h, not_false_eq_true, if_true]
      rfl

/-- What is found after an addition is the new data or was there before. -/
theorem of_getVnodeAppData_addVnodeAppData {data d : App} {alloc : Bool}
    (h : (m.addVnodeAppData vn' data alloc).getVnodeAppData vn = some d) :
    d = data ∨ m.getVnodeAppData vn = some d := by
  by_cases hvn : vn = vn'
  · cases alloc with
    | false => exact .inr h
    | true => exact .inl (by simpa [addVnodeAppData, getVnodeAppData, hvn] using h.symm)
  · rw [(addVnodeAppData_other hvn).appData] at h
    exact .inr h

/-- A backing vnode that is found after an addition is the new one, of its own key, or was there
before. -/
theorem of_getVnodeIO_addVnodeIo {vnodeIo b : Vnode} {alloc : Bool}
    (h : (m.addVnodeIo vn' vnodeIo alloc).1.getVnodeIo vn = some b) :
    (vn = vn' ∧ b = vnodeIo) ∨ m.getVnodeIo vn = some b := by
  by_cases hvn : vn = vn'
  · unfold addVnodeIo at h
    cases hget : m.getVnodeIo vn' with
    | some _ =>
      rw [hget] at h
      exact .inr h
    | none =>
      rw [hget] at h
      cases alloc with
      | false => exact .inr h
      | true => exact .inl ⟨hvn, by simpa [getVnodeIo, hvn] using h.symm⟩
  · rw [(addVnodeIO_other hvn).vnodeIo] at h
    exact .inr h

/-- An entry that is there stays as it is. -/
theorem getVnodeIo_addVnodeIo_self {vnodeIo : Vnode} {alloc : Bool} :
    (m.addVnodeIo vn vnodeIo alloc).1.getVnodeIo vn =
      if alloc ∧ m.getVnodeIo vn = none then some vnodeIo else m.getVnodeIo vn := by
  unfold addVnodeIo
  cases hget : m.getVnodeIo vn with
  | some x => simp [hget]
  | none =>
    cases alloc with
    | false => simpa [getVnodeIo] using hget
    | true => simp [getVnodeIo]

-- A removal adds nothing.

/-- A removal of application data associates no vnode. -/
theorem associated_removeVnodeAppData (h : (m.removeVnodeAppData vn').Associated vn) :
    m.Associated vn := by
  by_cases hvn : vn = vn' <;> simp_all [Associated]

/-- A removal of a backing vnode associates no vnode. -/
theorem associated_removeVnodeIo (h : (m.removeVnodeIo vn').1.Associated vn) :
    m.Associated vn := by
  by_cases hvn : vn = vn' <;> simp_all [Associated]
  tauto

/-- A removal of a reverse entry associates no vnode. -/
theorem associated_removeShadowReverse (h : (m.removeShadowReverse vn').1.Associated vn) :
    m.Associated vn := by
  by_cases hvn : vn = vn' <;> simp_all [Associated]
  tauto

end VNodeMap

end VfsRedirector
