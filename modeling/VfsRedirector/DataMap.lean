import Mathlib.Algebra.Order.Ring.Nat
import Mathlib.Data.List.Nodup

/-!
# DataMap

`DataMap` (RecursionEngine.h) associates a datum with a key: the waiting list,
the map of pending requests and the four vnode maps are all of this class.
Each operation runs under the map's own lock, so it is one function on the
contents here. The entries are listed from the head of the list:
`addDataByKey` inserts there, and `removeFirstEntryAndReturnItsData` takes from
there, so the order can be observed.

No key occurs twice; the structure carries that. `DataMap.Refinement` has the list in
memory that this stands for.

## Results

* `getDataByKey_addDataByKey` — a key that is added has the new data.
* `getDataByKey_removeFirst` — the first entry is taken out whole.
-/

namespace VfsRedirector

/-- The contents of a `DataMap`, from the head of its list. -/
structure DataMap (K D : Type) where
  entries : List (K × D)
  nodupKeys : (entries.map Prod.fst).Nodup

namespace DataMap

variable {K D : Type} [DecidableEq K]

def empty : DataMap K D := ⟨[], List.nodup_nil⟩

/-- The data of the first entry of `key`; the source's `findEntryByKey`. -/
def findEntryByKey (key : K) : List (K × D) → Option D
  | [] => none
  | (k, d) :: es => if k = key then some d else findEntryByKey key es

/-- `existingEntry->data = data` -/
def replace (key : K) (data : D) : List (K × D) → List (K × D)
  | [] => []
  | (k, d) :: es => if k = key then (k, data) :: es else (k, d) :: replace key data es

def erase (key : K) : List (K × D) → List (K × D)
  | [] => []
  | (k, d) :: es => if k = key then es else (k, d) :: erase key es

/-- `none` for the NULL the source returns. -/
def getDataByKey (m : DataMap K D) (key : K) : Option D := findEntryByKey key m.entries

def isEmpty (m : DataMap K D) : Bool := m.entries.isEmpty

/-- A key is found if there is an entry of it. -/
theorem find_eq_none_iff {key : K} {es : List (K × D)} :
    findEntryByKey key es = none ↔ key ∉ es.map Prod.fst := by
  induction es with
  | nil => simp [findEntryByKey]
  | cons e es ih =>
    obtain ⟨k, d⟩ := e
    by_cases hk : k = key
    · simp [findEntryByKey, hk]
    · simp [findEntryByKey, hk, ih, Ne.symm hk]

/-- To replace data leaves the keys as they are. -/
theorem map_fst_replace (key : K) (data : D) (es : List (K × D)) :
    (replace key data es).map Prod.fst = es.map Prod.fst := by
  induction es with
  | nil => rfl
  | cons e es ih =>
    obtain ⟨k, d⟩ := e
    by_cases hk : k = key
    · simp [replace, hk]
    · simp [replace, hk, ih]

/-- To erase takes an entry away and moves none. -/
theorem erase_sublist (key : K) (es : List (K × D)) : (erase key es).Sublist es := by
  induction es with
  | nil => exact .slnil
  | cons e es ih =>
    obtain ⟨k, d⟩ := e
    by_cases hk : k = key
    · rw [erase, if_pos hk]
      exact List.sublist_cons_self _ _
    · rw [erase, if_neg hk]
      exact ih.cons_cons _

/-- `alloc` is whether `IOMalloc` delivers the entry. Without it nothing
happens and the result is `false`; else the data of an existing entry is
replaced in place, or a new entry becomes the first. -/
def addDataByKey (m : DataMap K D) (key : K) (data : D) (alloc : Bool) : DataMap K D × Bool :=
  if alloc then
    if h : findEntryByKey key m.entries = none then
      (⟨(key, data) :: m.entries, by
        rw [List.map_cons, List.nodup_cons]
        exact ⟨find_eq_none_iff.mp h, m.nodupKeys⟩⟩, true)
    else
      (⟨replace key data m.entries, by rw [map_fst_replace]; exact m.nodupKeys⟩, true)
  else (m, false)

def removeKey (m : DataMap K D) (key : K) : DataMap K D :=
  ⟨erase key m.entries, m.nodupKeys.sublist ((erase_sublist key m.entries).map _)⟩

/-- The key and the data of the first entry, which is removed. -/
def removeFirstEntryAndReturnItsData (m : DataMap K D) : DataMap K D × Option (K × D) :=
  (⟨m.entries.tail, m.nodupKeys.sublist ((List.tail_sublist m.entries).map _)⟩, m.entries.head?)

-- ---------------------------------------------------------------------------
-- What the operations do to the contents
-- ---------------------------------------------------------------------------

/-- After a replacement the key has the new data, if it was there. -/
theorem find_replace (key k : K) (data : D) (es : List (K × D)) :
    findEntryByKey k (replace key data es) =
      if k = key then (findEntryByKey key es).map fun _ => data else findEntryByKey k es := by
  induction es with
  | nil => simp [findEntryByKey, replace]
  | cons e es ih =>
    obtain ⟨k₀, d⟩ := e
    by_cases hk₀ : k₀ = key
    · by_cases hk : k = key
      · simp [findEntryByKey, replace, hk₀, hk]
      · simp [findEntryByKey, replace, hk₀, hk, Ne.symm hk]
    · by_cases hk : k = key
      · subst hk
        simpa [findEntryByKey, replace, hk₀] using ih
      · simp [findEntryByKey, replace, hk₀, hk, ih]

/-- After an erasure the key is not found, where no key is there twice. -/
theorem find_erase {es : List (K × D)} (hnodup : (es.map Prod.fst).Nodup) (key k : K) :
    findEntryByKey k (erase key es) = if k = key then none else findEntryByKey k es := by
  induction es with
  | nil => simp [findEntryByKey, erase]
  | cons e es ih =>
    obtain ⟨k₀, d⟩ := e
    rw [List.map_cons, List.nodup_cons] at hnodup
    by_cases hk₀ : k₀ = key
    · subst hk₀
      rw [erase, if_pos rfl]
      by_cases hk : k = k₀
      · subst hk
        rw [if_pos rfl, find_eq_none_iff]
        exact hnodup.1
      · rw [if_neg hk, findEntryByKey, if_neg (Ne.symm hk)]
    · rw [erase, if_neg hk₀]
      by_cases hk : k = key
      · subst hk
        rw [findEntryByKey, if_neg hk₀, ih hnodup.2, if_pos rfl, if_pos rfl]
      · rw [if_neg hk, findEntryByKey, findEntryByKey, ih hnodup.2, if_neg hk]

@[simp] theorem getDataByKey_empty (k : K) : (empty : DataMap K D).getDataByKey k = none := rfl

@[simp] theorem addDataByKey_fail (m : DataMap K D) (key : K) (data : D) :
    m.addDataByKey key data false = (m, false) := rfl

@[simp] theorem addDataByKey_result (m : DataMap K D) (key : K) (data : D) (alloc : Bool) :
    (m.addDataByKey key data alloc).2 = alloc := by
  unfold addDataByKey
  cases alloc with
  | false => rfl
  | true => by_cases h : findEntryByKey key m.entries = none <;> simp [h]

/-- Afterwards the key has the new data, whether or not it was there before. -/
@[simp] theorem getDataByKey_addDataByKey (m : DataMap K D) (key k : K) (data : D) :
    (m.addDataByKey key data true).1.getDataByKey k =
      if k = key then some data else m.getDataByKey k := by
  unfold addDataByKey getDataByKey
  rw [if_pos rfl]
  by_cases h : findEntryByKey key m.entries = none
  · rw [dif_pos h]
    by_cases hk : k = key
    · simp [findEntryByKey, hk]
    · simp [findEntryByKey, hk, Ne.symm hk]
  · rw [dif_neg h, find_replace]
    obtain ⟨d, hd⟩ := Option.ne_none_iff_exists'.mp h
    simp [hd]

@[simp] theorem getDataByKey_removeKey (m : DataMap K D) (key k : K) :
    (m.removeKey key).getDataByKey k = if k = key then none else m.getDataByKey k :=
  find_erase m.nodupKeys key k

/-- The first entry is taken out whole. -/
theorem getDataByKey_removeFirst (m : DataMap K D) (k : K) :
    m.removeFirstEntryAndReturnItsData.1.getDataByKey k =
      if m.removeFirstEntryAndReturnItsData.2.map Prod.fst = some k then none
      else m.getDataByKey k := by
  obtain ⟨es, hnodup⟩ := m
  unfold removeFirstEntryAndReturnItsData getDataByKey
  cases es with
  | nil => simp
  | cons e es =>
    obtain ⟨k₀, d⟩ := e
    rw [List.map_cons, List.nodup_cons] at hnodup
    by_cases hk : k₀ = k
    · subst hk
      simpa using find_eq_none_iff.mpr hnodup.1
    · simp [findEntryByKey, hk]

/-- A map is empty if it has no key. -/
theorem isEmpty_iff (m : DataMap K D) : m.isEmpty = true ↔ ∀ k, m.getDataByKey k = none := by
  unfold isEmpty getDataByKey
  constructor
  · intro h k
    rw [List.isEmpty_iff] at h
    rw [h]
    rfl
  · intro h
    cases hes : m.entries with
    | nil => rfl
    | cons e es =>
      have hk := h e.1
      rw [hes] at hk
      simp [findEntryByKey] at hk

end DataMap

end VfsRedirector
