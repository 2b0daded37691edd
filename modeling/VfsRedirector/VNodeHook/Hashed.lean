import VfsRedirector.HashTable.Shortage
import VfsRedirector.VNodeHook.Original

/-!
# Hooking on the hash table

`Hooks` has a function for `sVnodeHooksHashTable`. Here it is the table itself, in its heap:
`RetrieveEntry`, `AddEntry` and `RemoveEntry` are `ght_get`, `ght_insert` and `ght_remove`
with the address of the vector as the key, and the memory for a hash entry may be missing.
What a thread does with an entry once it has it is that of `Hooks`.

The function is what a lookup in the table gives (`HashedHooks.hooks`), and with it the two
take the same steps: what is true of `Hooks` in all its runs is true of the driver with its
hash table. Threads look entries up at the same time under the lock in shared mode; they may,
as a lookup in a table without heuristics writes nothing.

## Results

* `step_hooks`: a step is one of `Hooks`, and is possible where that is.
* `hashed_hooks_refine`: every reachable state is one of `Hooks`.
-/

namespace VfsRedirector

open Library

/-- Two vectors have different keys. -/
theorem vopKey_injective : Function.Injective vopKey := by
  intro v w h
  have hle := congrArg ofLE h
  have hpow : (256 : Nat) ^ 8 = 2 ^ 64 := by decide
  rw [vopKey, vopKey, ofLE_toLE, ofLE_toLE, hpow, Nat.mod_eq_of_lt v.toNat_lt,
    Nat.mod_eq_of_lt w.toNat_lt] at hle
  exact UInt64.toNat_inj.mp hle

namespace VNodeHook

/-- `Hooks`, with the hash table. -/
structure HashedHooks (Thread Vnode Addr : Type) where
  slots : UInt64 → Nat → Vopfunc
  sVnodeHooksHashTable : Ght Addr Nat
  lock : Option Thread
  entries : Nat → QvrVnodeHookEntry
  instanceForHookedVnodes : DataMap Vnode Vnode
  pc : Thread → HookPc Vnode UInt64

/-- The actions, with the memory that an `AddEntry` of the step gets. -/
inductive HashedAction (Thread Vnode Addr : Type) where
  | hook (t : Thread) (v : VnodeT Vnode UInt64) (isRecycled : Bool)
  | unhook (t : Thread) (v : VnodeT Vnode UInt64)
  | getOriginal (t : Thread) (v : VnodeT Vnode UInt64) (indx : QvrVopEnum)
  | advance (t : Thread) (alloc : Option Nat) (memory : Allocator Addr)

/-- The state with another table. -/
def Hooks.withTable {Thread Vnode OpVec : Type} (s : Hooks Thread Vnode OpVec)
    (table : OpVec → Option Nat) : Hooks Thread Vnode OpVec :=
  { s with sVnodeHooksHashTable := table }

namespace HashedHooks

variable {Thread Vnode Addr : Type}

/-- The state without the hash table, where a lookup gives what `table` does. -/
def onTable (s : HashedHooks Thread Vnode Addr) (table : UInt64 → Option Nat) :
    Hooks Thread Vnode UInt64 where
  slots := s.slots
  sVnodeHooksHashTable := table
  lock := s.lock
  entries := s.entries
  instanceForHookedVnodes := s.instanceForHookedVnodes
  pc := s.pc

/-- The state with what a step has made of it, and the table after the step. -/
def after (s : Hooks Thread Vnode UInt64) (table : Ght Addr Nat) :
    HashedHooks Thread Vnode Addr where
  slots := s.slots
  sVnodeHooksHashTable := table
  lock := s.lock
  entries := s.entries
  instanceForHookedVnodes := s.instanceForHookedVnodes
  pc := s.pc

variable [DecidableEq Addr] [DecidableEq Thread] [DecidableEq Vnode]

/-- The next atomic operation of a thread. Where it calls the table, it goes on with what the
call has returned; elsewhere it does the same whatever the table has. -/
def advance (k : Kernel) (s : HashedHooks Thread Vnode Addr) (t : Thread) (alloc : Option Nat)
    (memory : Allocator Addr) : Option (HashedHooks Thread Vnode Addr) :=
  match s.pc t with
  -- RetrieveEntry
  | .hookRetrieve v | .unhookRetrieve v | .getRetrieve v _ | .getRetrieveAgain v _ => do
    let (table, existingEntry) ← s.sVnodeHooksHashTable.ghtGet (vopKey v.vOp)
    let hooks ← Hooks.advance k (s.onTable fun _ => existingEntry) t alloc
    return after hooks table
  | .hookRecheck v newEntry => do
    let (table, existingEntry) ← s.sVnodeHooksHashTable.ghtGet (vopKey v.vOp)
    match existingEntry with
    | some _ =>
      let hooks ← Hooks.advance k (s.onTable fun _ => existingEntry) t none
      return after hooks table
    | none =>
      -- AddEntry
      let (table, rc) ← table.ghtInsert memory newEntry (vopKey v.vOp)
      let added := if rc = .GHT_OK then some newEntry else none
      let hooks ← Hooks.advance k (s.onTable fun _ => none) t added
      return after hooks table
  | .unhookRemove v => do
    -- RemoveEntry
    let (table, existingEntry) ← s.sVnodeHooksHashTable.ghtRemove (vopKey v.vOp)
    let hooks ← Hooks.advance k (s.onTable fun _ => existingEntry) t alloc
    return after hooks table
  | _ => do
    let hooks ← Hooks.advance k (s.onTable fun _ => none) t alloc
    return after hooks s.sVnodeHooksHashTable

/-- The step of `Hooks` that an action is. -/
def act (s : HashedHooks Thread Vnode Addr) :
    HashedAction Thread Vnode Addr → HookAction Thread Vnode UInt64
  | .hook t v isRecycled => .hook t v isRecycled
  | .unhook t v => .unhook t v
  | .getOriginal t v indx => .getOriginal t v indx
  | .advance t alloc memory =>
    match s.pc t with
    | .hookRecheck v newEntry =>
      match s.sVnodeHooksHashTable.ghtInsert memory newEntry (vopKey v.vOp) with
      | some (_, .GHT_OK) => .advance t (some newEntry)
      | _ => .advance t none
    | _ => .advance t alloc

def step (k : Kernel) (s : HashedHooks Thread Vnode Addr) :
    HashedAction Thread Vnode Addr → Option (HashedHooks Thread Vnode Addr)
  | .advance t alloc memory => s.advance k t alloc memory
  | a => (Hooks.step k (s.onTable fun _ => none) (s.act a)).map
    fun hooks => after hooks s.sVnodeHooksHashTable

/-- What a lookup gives. -/
def lookups (table : Ght Addr Nat) (v_op : UInt64) : Option Nat :=
  (table.ghtGet (vopKey v_op)).bind Prod.snd

/-- The state as one of `Hooks`. -/
def hooks (s : HashedHooks Thread Vnode Addr) : Hooks Thread Vnode UInt64 :=
  s.onTable (lookups s.sVnodeHooksHashTable)

end HashedHooks

/-- The driver, with the table that `CreateStaticTableWithSize` has made. -/
def hashedSystem {Thread Vnode Addr : Type} [DecidableEq Addr] [DecidableEq Thread]
    [DecidableEq Vnode] (k : Kernel) (initialOps : UInt64 → Nat → Nat) (table : Ght Addr Nat) :
    System (HashedHooks Thread Vnode Addr) (HashedAction Thread Vnode Addr) where
  init s := s = HashedHooks.after (Hooks.initial initialOps) table
  step := HashedHooks.step k

-- ---------------------------------------------------------------------------
-- What a step of a thread has to do with the table
-- ---------------------------------------------------------------------------

namespace Hooks

variable {Thread Vnode OpVec : Type} [DecidableEq Thread] [DecidableEq Vnode] [DecidableEq OpVec]
  {s : Hooks Thread Vnode OpVec} {t : Thread} {v : VnodeT Vnode OpVec} {newEntry : Nat}

/-- The vector whose entry the next operation of a thread retrieves. -/
def retrieves : HookPc Vnode OpVec → Option OpVec
  | .hookRetrieve v | .unhookRetrieve v | .getRetrieve v _ | .getRetrieveAgain v _ => some v.vOp
  | _ => none

omit [DecidableEq Thread] [DecidableEq Vnode] in
/-- To hook a slot does not look at the table. -/
theorem hookSlot_withTable (k : Kernel) (desc : VnodeopvEntryDesc Hook)
    (table : OpVec → Option Nat) :
    (s.withTable table).hookSlot k v newEntry desc =
      (s.hookSlot k v newEntry desc).withTable table := by
  rw [hookSlot, hookSlot]
  cases resolve k desc.opveOp with
  | none => rfl
  | some r =>
    simp only
    split_ifs <;> rfl

omit [DecidableEq Thread] [DecidableEq Vnode] in
/-- To unhook a slot does not look at the table. -/
theorem unhookSlot_withTable (k : Kernel) (desc : VnodeopvEntryDesc Hook)
    (table : OpVec → Option Nat) :
    (s.withTable table).unhookSlot k v newEntry desc =
      (s.unhookSlot k v newEntry desc).withTable table := by
  rw [unhookSlot, unhookSlot]
  cases resolve k desc.opveOp with
  | none => rfl
  | some r =>
    show (if (s.entries newEntry).isHooked r.2 then _ else _) = _
    simp only
    split_ifs <;> rfl

omit [DecidableEq Thread] [DecidableEq Vnode] [DecidableEq OpVec] in
/-- A choice between two steps. -/
theorem map_ite_withTable (c : Prop) [Decidable c] (table : OpVec → Option Nat)
    {x y x' y' : Option (Hooks Thread Vnode OpVec)} (hx : x' = x.map (·.withTable table))
    (hy : y' = y.map (·.withTable table)) :
    (if c then x' else y') = (if c then x else y).map (·.withTable table) := by
  split_ifs
  · exact hx
  · exact hy

/-- A step without a call of the table is the same with any table. -/
theorem advance_withTable (k : Kernel) (hretrieves : retrieves (s.pc t) = none)
    (hrecheck : ∀ v newEntry, s.pc t ≠ .hookRecheck v newEntry)
    (hremove : ∀ v, s.pc t ≠ .unhookRemove v) (alloc : Option Nat)
    (table : OpVec → Option Nat) :
    (s.withTable table).advance k t alloc = (s.advance k t alloc).map (·.withTable table) := by
  have hpc' : (s.withTable table).pc t = s.pc t := rfl
  rw [advance, advance, hpc']
  cases h : s.pc t with
  -- the places that look into the table are excluded
  | hookRetrieve | unhookRetrieve | getRetrieve | getRetrieveAgain =>
    rw [h] at hretrieves
    cases hretrieves
  | hookRecheck v newEntry => exact absurd h (hrecheck v newEntry)
  | unhookRemove v => exact absurd h (hremove v)
  -- the rest goes the same way, whatever the table
  | idle | hookReleaseFound | hookUnlock | hookAddVnode | unhookRemoveVnode | unhookDrop
  | unhookRelease | getRead | getRelease | getReturn => rfl
  | hookNewEntry v =>
    cases alloc with
    | none => rfl
    | some e => exact map_ite_withTable _ table rfl rfl
  | hookLock | unhookTest | unhookDecrement | unhookLock | unhookCheck =>
    exact map_ite_withTable _ table rfl rfl
  | hookLoop v newEntry descs =>
    cases descs with
    | nil => rfl
    | cons desc descs =>
      simp only [hookSlot_withTable]
      rfl
  | hookReleaseNew v newEntry success => cases success <;> rfl
  | unhookLoop v existingEntry descs =>
    cases descs with
    | nil => rfl
    | cons desc descs =>
      simp only [unhookSlot_withTable]
      rfl
  | unhookUnlock existingEntry => cases existingEntry <;> rfl

/-- A retrieval reads the entry of its vector and leaves the table alone. -/
theorem advance_retrieve (k : Kernel) {vOp : OpVec} (hpc : retrieves (s.pc t) = some vOp)
    (alloc : Option Nat) (table : OpVec → Option Nat) :
    (s.withTable table).advance k t alloc =
      ((s.withTable fun _ => table vOp).advance k t alloc).map (·.withTable table) := by
  have hpc' : ∀ table, (s.withTable table).pc t = s.pc t := fun _ => rfl
  rw [advance, advance, hpc', hpc']
  cases h : s.pc t with
  | hookRetrieve v | unhookRetrieve v | getRetrieve v indx =>
    rw [h] at hpc
    obtain rfl := Option.some.inj hpc
    refine map_ite_withTable _ table ?_ rfl
    show (match table v.vOp with | some e => _ | none => _) = Option.map _ (match table v.vOp with
      | some e => _
      | none => _)
    cases table v.vOp <;> rfl
  | getRetrieveAgain v indx =>
    rw [h] at hpc
    obtain rfl := Option.some.inj hpc
    refine map_ite_withTable _ table ?_ rfl
    show (match table v.vOp with | some e => _ | none => _) = Option.map _ (match table v.vOp with
      | some e => _
      | none => _)
    cases table v.vOp with
    | some e => rfl
    | none =>
      simp only
      cases offsetOf k indx <;> rfl
  | _ =>
    rw [h] at hpc
    cases hpc

/-- The second look at the table finds the entry that another thread has added. -/
theorem advance_recheck_found (k : Kernel) {e : Nat} (hpc : s.pc t = .hookRecheck v newEntry)
    (alloc : Option Nat) {table : OpVec → Option Nat} (hfound : table v.vOp = some e) :
    (s.withTable table).advance k t alloc =
      ((s.withTable fun _ => some e).advance k t alloc).map (·.withTable table) := by
  have hpc' : ∀ table, (s.withTable table).pc t = s.pc t := fun _ => rfl
  have hfound' : (s.withTable table).sVnodeHooksHashTable v.vOp = some e := hfound
  rw [advance, advance, hpc', hpc', hpc]
  simp only [hfound']
  rfl

/-- `AddEntry`, with success or without. -/
theorem advance_recheck_add (k : Kernel) (hpc : s.pc t = .hookRecheck v newEntry)
    (added : Option Nat) {table : OpVec → Option Nat} (hnone : table v.vOp = none) :
    (s.withTable table).advance k t added =
      ((s.withTable fun _ => none).advance k t added).map (·.withTable
        (if added.isSome then Function.update table v.vOp (some newEntry) else table)) := by
  have hpc' : ∀ table, (s.withTable table).pc t = s.pc t := fun _ => rfl
  have hnone' : (s.withTable table).sVnodeHooksHashTable v.vOp = none := hnone
  rw [advance, advance, hpc', hpc', hpc]
  simp only [hnone']
  cases added <;> rfl

/-- `RemoveEntry` -/
theorem advance_remove (k : Kernel) (hpc : s.pc t = .unhookRemove v) (alloc : Option Nat)
    (table : OpVec → Option Nat) :
    (s.withTable table).advance k t alloc =
      ((s.withTable fun _ => table v.vOp).advance k t alloc).map (·.withTable
        (Function.update table v.vOp none)) := by
  have hpc' : ∀ table, (s.withTable table).pc t = s.pc t := fun _ => rfl
  rw [advance, advance, hpc', hpc', hpc]
  show (match table v.vOp with | some e => _ | none => _) = Option.map _ (match table v.vOp with
    | some e => _
    | none => _)
  cases h : table v.vOp with
  | none =>
    have hsame : Function.update table v.vOp none = table := by rw [← h, Function.update_eq_self]
    rw [hsame]
    rfl
  | some e => rfl

/-- The first steps of the functions do not call the table. -/
theorem step_withTable (k : Kernel) {a : HookAction Thread Vnode OpVec}
    (ha : ∀ t alloc, a ≠ .advance t alloc) (table : OpVec → Option Nat) :
    (s.withTable table).step k a = (s.step k a).map (·.withTable table) := by
  cases a with
  | hook t v isRecycled =>
    exact map_ite_withTable _ table (map_ite_withTable _ table rfl rfl) rfl
  | unhook t v => exact map_ite_withTable _ table rfl rfl
  | getOriginal t v indx => exact map_ite_withTable _ table rfl rfl
  | advance t alloc => exact absurd rfl (ha t alloc)

end Hooks

-- ---------------------------------------------------------------------------
-- The refinement
-- ---------------------------------------------------------------------------

/-- The table stands for the map, has no settings, and nothing of it is leaked. -/
structure PlainTable {Addr : Type} (others : List Addr) (table : Ght Addr Nat) (m : KeyMap Nat) :
    Prop where
  contents : ∃ ages chains, table.Contents others m ages chains
  heuristics : table.table.i_heuristics = 0
  no_rehash : table.table.i_automatic_rehash = false

namespace PlainTable

variable {Addr : Type} [DecidableEq Addr] {others : List Addr} {table : Ght Addr Nat}
  {m : KeyMap Nat}

/-- A lookup writes nothing. -/
theorem ghtGet (h : PlainTable others table m) (key : List UInt8) :
    table.ghtGet key = some (table, m.lookup key) := by
  obtain ⟨ages, chains, hc⟩ := h.contents
  exact hc.ghtGet_still h.heuristics key

/-- The chains have for each vector what the map has for its key. -/
theorem lookups (h : PlainTable others table m) :
    HashedHooks.lookups table = fun v_op => m.lookup (vopKey v_op) := by
  funext v_op
  rw [HashedHooks.lookups, h.ghtGet]
  rfl

/-- `AddEntry` of a vector that has no entry. -/
theorem ghtInsert (h : PlainTable others table m) (memory : Allocator Addr) (e : Nat)
    {v_op : UInt64} (hnone : m.lookup (vopKey v_op) = none) :
    ∃ table' rc m', table.ghtInsert memory e (vopKey v_op) = some (table', rc) ∧
      PlainTable others table' m' ∧
      HashedHooks.lookups table' =
        if rc = .GHT_OK then Function.update (HashedHooks.lookups table) v_op (some e)
        else HashedHooks.lookups table := by
  obtain ⟨ages, chains, hc⟩ := h.contents
  have harrays : table.table.i_automatic_rehash = true → memory.table = true := fun hyes => by
    cases h.no_rehash.symm.trans hyes
  obtain ⟨table', rc, m', ages', chains', hrun, hstep, hheuristics, hc'⟩ :=
    hc.ghtInsert harrays e (vopKey v_op)
  have hnew : vopKey v_op ∉ m := AList.lookup_eq_none.mp hnone
  obtain ⟨hauto, hmap⟩ := hstep.of_no_rehash h.no_rehash hnew
  have h' : PlainTable others table' m' :=
    ⟨⟨ages', chains', hc'⟩, hheuristics.trans h.heuristics, hauto⟩
  refine ⟨table', rc, m', hrun, h', ?_⟩
  have hmap : m' = if rc = .GHT_OK then m.insert (vopKey v_op) e else m := hmap
  rw [h'.lookups, h.lookups, hmap]
  by_cases hok : rc = .GHT_OK
  · rw [if_pos hok, if_pos hok]
    funext w
    rcases eq_or_ne w v_op with rfl | hne
    · rw [AList.lookup_insert, Function.update_self]
    · rw [AList.lookup_insert_ne (fun heq => hne (vopKey_injective heq)),
        Function.update_of_ne hne]
  · rw [if_neg hok, if_neg hok]

/-- An insertion of a key that is there leaves the table. -/
theorem ghtInsert_present (h : PlainTable others table m) (memory : Allocator Addr) (e : Nat)
    {key : List UInt8} {e' : Nat} (hsome : m.lookup key = some e') :
    table.ghtInsert memory e key = some (table, .GHT_ALREADY_IN_HASH) := by
  obtain ⟨ages, chains, hc⟩ := h.contents
  cases hkey : table.entryOf ages key with
  | none =>
    have hnone := AList.lookup_eq_none.mpr ((Ght.entryOf_eq_none hc.view).mp hkey)
    cases hnone.symm.trans hsome
  | some a => exact hc.listed.insertWith_present e _ hkey

/-- `RemoveEntry` -/
theorem ghtRemove (h : PlainTable others table m) (v_op : UInt64) :
    ∃ table' m', table.ghtRemove (vopKey v_op) = some (table', m.lookup (vopKey v_op)) ∧
      PlainTable others table' m' ∧
      HashedHooks.lookups table' = Function.update (HashedHooks.lookups table) v_op none := by
  obtain ⟨ages, chains, hc⟩ := h.contents
  obtain ⟨table', ages', chains', hrun, hsame, -, -, -, hc'⟩ := hc.ghtRemove (vopKey v_op)
  have h' : PlainTable others table' (m.erase (vopKey v_op)) :=
    ⟨⟨ages', chains', hc'⟩, hsame.heuristics.trans h.heuristics, hsame.auto.trans h.no_rehash⟩
  refine ⟨table', _, hrun, h', ?_⟩
  rw [h'.lookups, h.lookups]
  funext w
  rcases eq_or_ne w v_op with rfl | hne
  · rw [AList.lookup_erase, Function.update_self]
  · rw [AList.lookup_erase_ne (fun heq => hne (vopKey_injective heq)), Function.update_of_ne hne]

end PlainTable

namespace HashedHooks

variable {Thread Vnode Addr : Type} [DecidableEq Addr] [DecidableEq Thread] [DecidableEq Vnode]
  {others : List Addr} {s : HashedHooks Thread Vnode Addr} {m : KeyMap Nat}

/-- What a thread makes of a step, and the table after it. -/
theorem advance_hooks (k : Kernel) (h : PlainTable others s.sVnodeHooksHashTable m) (t : Thread)
    (alloc : Option Nat) (memory : Allocator Addr) :
    ∃ (r : Option (Hooks Thread Vnode UInt64)) (table : Ght Addr Nat) (m' : KeyMap Nat),
      PlainTable others table m' ∧
      s.advance k t alloc memory = r.map (fun hooks => after hooks table) ∧
      s.hooks.step k (s.act (.advance t alloc memory)) =
        r.map (·.withTable (lookups table)) := by
  -- each case: what the step does with the chains, and the abstract step with the allocation that
  -- the chains had
  have hget := fun v : VnodeT Vnode UInt64 => h.ghtGet (vopKey v.vOp)
  have hlookup : ∀ v : VnodeT Vnode UInt64,
      lookups s.sVnodeHooksHashTable v.vOp = m.lookup (vopKey v.vOp) := fun v => by rw [h.lookups]
  have hbind : ∀ (r : Option (Hooks Thread Vnode UInt64)) (table : Ght Addr Nat),
      (r >>= fun hooks => some (after hooks table)) = r.map fun hooks => after hooks table :=
    fun r table => by cases r <;> rfl
  have hact : ∀ alloc' (r : Option (Hooks Thread Vnode UInt64)),
      ((s.onTable fun _ => none).withTable (lookups s.sVnodeHooksHashTable)).advance k t alloc' =
        r →
      s.act (.advance t alloc memory) = .advance t alloc' →
      s.hooks.step k (s.act (.advance t alloc memory)) = r := by
    intro alloc' r hstep hsame
    rw [hsame]
    exact hstep
  have hpc' : (s.onTable fun _ => none).pc t = s.pc t := rfl
  cases hpc : s.pc t with
  -- the table is only read; the chains find what the map has
  | hookRetrieve v | unhookRetrieve v | getRetrieve v indx | getRetrieveAgain v indx =>
    have hretrieves : Hooks.retrieves ((s.onTable fun _ => none).pc t) = some v.vOp :=
      congrArg Hooks.retrieves hpc
    have hstep := Hooks.advance_retrieve k hretrieves alloc (lookups s.sVnodeHooksHashTable)
    rw [hlookup] at hstep
    refine ⟨_, s.sVnodeHooksHashTable, m, h, ?_, hact _ _ hstep ?_⟩
    · rw [advance, hpc]
      simp only [hget, Option.bind_eq_bind, Option.bind_some]
      exact hbind _ _
    · rw [act, hpc]
  -- ght_insert runs where the table has nothing, and can fail for want of memory
  | hookRecheck v newEntry =>
    cases hm : m.lookup (vopKey v.vOp) with
    | some e =>
      have hstep := Hooks.advance_recheck_found k (hpc'.trans hpc) none ((hlookup v).trans hm)
      refine ⟨_, s.sVnodeHooksHashTable, m, h, ?_, hact _ _ hstep ?_⟩
      · rw [advance, hpc]
        simp only [hget, hm, Option.bind_eq_bind, Option.bind_some]
        exact hbind _ _
      · rw [act, hpc]
        simp only [h.ghtInsert_present memory newEntry hm]
    | none =>
      obtain ⟨table, rc, m', hrun, h', hupdate⟩ := h.ghtInsert memory newEntry hm
      have hstep := Hooks.advance_recheck_add k (hpc'.trans hpc)
        (if rc = .GHT_OK then some newEntry else none) ((hlookup v).trans hm)
      -- a failed ght_insert is an abstract step without memory
      have hadded : (if (if rc = .GHT_OK then some newEntry else none).isSome then
          Function.update (lookups s.sVnodeHooksHashTable) v.vOp (some newEntry)
          else lookups s.sVnodeHooksHashTable) = lookups table := by
        rw [hupdate]
        cases rc <;> rfl
      rw [hadded] at hstep
      refine ⟨_, table, m', h', ?_, hact _ _ hstep ?_⟩
      · rw [advance, hpc]
        simp only [hget, hm, hrun, Option.bind_eq_bind, Option.bind_some]
        exact hbind _ _
      · rw [act, hpc]
        simp only [hrun]
        cases rc <;> rfl
  -- ght_remove takes out the entry of the vector, or finds none
  | unhookRemove v =>
    obtain ⟨table, m', hrun, h', hupdate⟩ := h.ghtRemove v.vOp
    have hstep := Hooks.advance_remove k (hpc'.trans hpc) alloc (lookups s.sVnodeHooksHashTable)
    rw [hlookup, ← hupdate] at hstep
    refine ⟨_, table, m', h', ?_, hact _ _ hstep ?_⟩
    · rw [advance, hpc]
      simp only [hrun, Option.bind_eq_bind, Option.bind_some]
      exact hbind _ _
    · rw [act, hpc]
  -- the other places do not touch the table
  | _ =>
    have hstep := Hooks.advance_withTable (s := s.onTable fun _ => none) k
      (congrArg Hooks.retrieves hpc) (fun v e hne => by cases hpc.symm.trans hne)
      (fun v hne => by cases hpc.symm.trans hne) alloc (lookups s.sVnodeHooksHashTable)
    refine ⟨_, s.sVnodeHooksHashTable, m, h, ?_, hact _ _ hstep ?_⟩
    · rw [advance, hpc]
      exact hbind _ _
    · rw [act, hpc]

/-- A step of the driver is one of `Hooks`, and the table stays a table. -/
theorem step_hooks (k : Kernel) (h : PlainTable others s.sVnodeHooksHashTable m)
    (a : HashedAction Thread Vnode Addr) :
    (s.step k a).map hooks = s.hooks.step k (s.act a) ∧
      ∀ s', s.step k a = some s' → ∃ m', PlainTable others s'.sVnodeHooksHashTable m' := by
  have hstep : ∃ (r : Option (Hooks Thread Vnode UInt64)) (table : Ght Addr Nat) (m' : KeyMap Nat),
      PlainTable others table m' ∧ s.step k a = r.map (fun hooks => after hooks table) ∧
      s.hooks.step k (s.act a) = r.map (·.withTable (lookups table)) := by
    have hfirst := Hooks.step_withTable (s := s.onTable fun _ => none) (a := s.act a) k
    cases a with
    | advance t alloc memory => exact s.advance_hooks k h t alloc memory
    | hook t v isRecycled =>
      exact ⟨_, _, m, h, rfl, hfirst (fun t alloc hne => by cases hne) _⟩
    | unhook t v =>
      exact ⟨_, _, m, h, rfl, hfirst (fun t alloc hne => by cases hne) _⟩
    | getOriginal t v indx =>
      exact ⟨_, _, m, h, rfl, hfirst (fun t alloc hne => by cases hne) _⟩
  obtain ⟨r, table, m', h', hrun, hhooks⟩ := hstep
  rw [hrun, hhooks]
  refine ⟨by cases r <;> rfl, fun s' hs' => ⟨m', ?_⟩⟩
  obtain ⟨hooks, -, rfl⟩ := Option.map_eq_some_iff.mp hs'
  exact h'

end HashedHooks

/-- Hooking with the hash table does what hooking with a function for a table does, in every
run and whatever memory there is for the entries: each state is one of `Hooks`, and has the
same steps. A lookup leaves the table as it is, and no entry of it is leaked. -/
theorem hashed_hooks_refine {Thread Vnode Addr : Type} [DecidableEq Addr] [DecidableEq Thread]
    [DecidableEq Vnode] (k : Kernel) (initialOps : UInt64 → Nat → Nat)
    (fn_hash : List UInt8 → UInt32) {i_size : UInt32} (hsize : i_size ≤ sizeLimit)
    (heap : EntryHeap Addr Nat) :
    ∃ table, ghtCreate fn_hash i_size true = some table ∧
      ∀ s : HashedHooks Thread Vnode Addr,
        Reachable (hashedSystem k initialOps ⟨heap, table⟩) s →
        Reachable (hookSystem k initialOps) s.hooks ∧
        (∀ a, (s.step k a).map HashedHooks.hooks = s.hooks.step k (s.act a)) ∧
        (∀ v_op, s.sVnodeHooksHashTable.ghtGet (vopKey v_op) =
          some (s.sVnodeHooksHashTable, s.hooks.sVnodeHooksHashTable v_op)) ∧
        ∃ m ages chains, s.sVnodeHooksHashTable.Contents heap.live m ages chains := by
  obtain ⟨table, hcreate, -, hempty⟩ := Ght.ghtCreate_listed fn_hash hsize heap
  refine ⟨table, hcreate, fun s hs => ?_⟩
  -- a new table is plain and empty
  have hinit : PlainTable heap.live ⟨heap, table⟩ ∅ := by
    obtain ⟨r, -, hr⟩ := Option.bind_eq_some_iff.mp hcreate
    cases hr
    exact ⟨⟨[], _, hempty, rfl, List.Perm.refl _⟩, rfl, rfl⟩
  -- no step leaves the chains disordered
  have hplain : ∀ s : HashedHooks Thread Vnode Addr,
      Reachable (hashedSystem k initialOps ⟨heap, table⟩) s →
      ∃ m, PlainTable heap.live s.sVnodeHooksHashTable m := by
    intro s hs
    refine hs.invariant (I := fun s => ∃ m, PlainTable heap.live s.sVnodeHooksHashTable m)
      (fun s hs => ?_) fun s a s' h _ hstep => ?_
    · rw [show s = _ from hs]
      exact ⟨∅, hinit⟩
    · obtain ⟨m, h⟩ := h
      exact (s.step_hooks k h a).2 s' hstep
  obtain ⟨m, h⟩ := hplain s hs
  refine ⟨?_, fun a => (s.step_hooks k h a).1, fun v_op => ?_, m, h.contents⟩
  · refine hs.map (fun s hs => ?_) fun s a s' hr _ hstep => ?_
    · rw [show s = _ from hs]
      show HashedHooks.hooks _ = Hooks.initial initialOps
      rw [HashedHooks.hooks, HashedHooks.onTable, HashedHooks.after, hinit.lookups]
      rfl
    -- a step over the chains is the step over the table with the translated action
    · obtain ⟨m, h⟩ := hplain s hr
      have hhooks := (s.step_hooks k h a).1
      rw [show s.step k a = some s' from hstep] at hhooks
      exact .inr ⟨_, trivial, hhooks.symm⟩
  · rw [h.ghtGet, HashedHooks.hooks, HashedHooks.onTable, h.lookups]

/-- Two vectors in one bucket of a table of eight: the first is hooked, and for the second
there is no memory. -/
theorem hashed_hooks_refine_twoVectors :
    ∃ table, ghtCreate (fun _ => 3) 8 true = some table ∧
      ∃ s : HashedHooks Nat Nat Nat,
        exec (hashedSystem .inOrder (fun _ offset => offset) ⟨noEntries, table⟩)
          (.after (Hooks.initial fun _ offset => offset) ⟨noEntries, table⟩)
          ([.hook 0 ⟨7, 4096, .vreg⟩ false] ++
            List.replicate 4 (.advance 0 (some 0) nextAddress) ++
            List.replicate 17 (.advance 0 none nextAddress) ++
            [.hook 1 ⟨8, 8192, .vreg⟩ false] ++ List.replicate 4 (.advance 1 (some 1) noEntry)) =
          some s ∧
        Reachable (hookSystem .inOrder fun _ offset => offset) s.hooks ∧
        s.hooks.sVnodeHooksHashTable 4096 = some 0 ∧
        s.hooks.sVnodeHooksHashTable 8192 = none := by
  obtain ⟨table, hcreate, hrefine⟩ :=
    @hashed_hooks_refine Nat Nat Nat _ _ _ .inOrder (fun _ offset => offset) (fun _ => 3) 8
      (by decide) noEntries
  have hrun : ((ghtCreate (fun _ => 3) 8 true).bind fun table =>
      exec (hashedSystem .inOrder (fun _ offset => offset) ⟨noEntries, table⟩)
        (.after (Hooks.initial fun _ offset => offset) ⟨noEntries, table⟩)
        ([.hook 0 ⟨7, 4096, .vreg⟩ false] ++
          List.replicate 4 (.advance 0 (some 0) nextAddress) ++
          List.replicate 17 (.advance 0 none nextAddress) ++
          [.hook 1 ⟨8, 8192, .vreg⟩ false] ++
          List.replicate 4 (.advance 1 (some 1) noEntry))).any (fun s : HashedHooks Nat Nat Nat =>
      s.hooks.sVnodeHooksHashTable 4096 = some 0 ∧
      s.hooks.sVnodeHooksHashTable 8192 = none) = true := by decide +kernel
  rw [hcreate, Option.bind_some, Option.any_eq_true] at hrun
  obtain ⟨s, hexec, hfacts⟩ := hrun
  obtain ⟨hfirst, hsecond⟩ := of_decide_eq_true hfacts
  have hreach := ReachableBy.exec (.init rfl) _ hexec
  exact ⟨table, hcreate, s, hexec, (hrefine s hreach).1, hfirst, hsecond⟩

end VNodeHook

end VfsRedirector
