import VfsRedirector.Library.Account
import VfsRedirector.Redirect.Calls
import VfsRedirector.VNode.References

/-!
# What the hooks take and give back

`Ledger` is what the hooks run in when only ownership matters: the iocounts and
use counts of all vnodes, the buffers of `IOMalloc`, and `VNodeMap` with the
references that its entries have. Every call may end in any way that
`Documented` allows: a call that looks a vnode up, opens or creates it gives one
with a new iocount exactly if it succeeds.

A hook holds iocounts, use counts and buffers (`Resource`). An iocount that an
entry of `VNodeMap` has is the map's: `Ledger.held` does not count it, so that
adding and removing entries changes nothing in the hands of the hook.

## Results

* `owns_vnodeLookup`, `owns_vnodeOpen`, `owns_vnodePut` — what the calls of the kernel
  give and take.
* `owns_neutral` — a program of neutral calls leaves everything as it is.
* `Owns.settled` — what is settled if code starts with empty hands.
-/

namespace VfsRedirector

open Library HasCard References

variable {Vnode : Type} [DecidableEq Vnode]

-- ---------------------------------------------------------------------------
-- The entries for a vnode
-- ---------------------------------------------------------------------------

/-- How many keys are mapped to `x`. -/
def DataMap.keysTo {K D : Type} [DecidableEq D] (m : DataMap K D) (x : D) : Nat :=
  m.entries.countP fun e => e.2 = x

/-- `keysTo` is the number of the keys with the value. -/
theorem DataMap.hasCard_keysTo {K D : Type} [DecidableEq K] [DecidableEq D] (m : DataMap K D)
    (x : D) : HasCard (fun k => m.getDataByKey k = some x) (m.keysTo x) := by
  obtain ⟨entries, hnodup⟩ := m
  unfold DataMap.getDataByKey DataMap.keysTo
  dsimp only
  induction entries with
  | nil => exact zero fun k => by simp [DataMap.findEntryByKey]
  | cons e entries ih =>
    obtain ⟨key, data⟩ := e
    rw [List.map_cons, List.nodup_cons] at hnodup
    obtain ⟨hkey, hnodup⟩ := hnodup
    have hnone : DataMap.findEntryByKey key entries = none := DataMap.find_eq_none_iff.mpr hkey
    have hrest := (ih hnodup).set key (some data)
    rw [hnone, one_none, sub_zero] at hrest
    have hcount : ((List.countP (fun e : K × D => decide (e.2 = x)) ((key, data) :: entries) :
        Nat) : Int) =
        List.countP (fun e : K × D => decide (e.2 = x)) entries + one (some data) x := by
      by_cases hdata : data = x
      · simp [one, hdata]
      · simp [one, hdata]
    rw [hcount]
    refine hrest.congr fun k => ?_
    by_cases hk : k = key
    · simp [DataMap.findEntryByKey, hk]
    · simp [DataMap.findEntryByKey, hk, Ne.symm hk]

/-- How many entries of the maps have a reference on `x`. -/
def VNodeMap.entriesTo {App : Type} (m : VNodeMap Vnode App) (x : Vnode) : Int :=
  m.instanceForVnodeIo.keysTo x + m.instanceForShadowToVnode.keysTo x

/-- A region accounts for the entries that it adds and removes. -/
theorem entriesTo_of_balances {App : Type} {m : VNodeMap Vnode App} {r : Region Vnode App}
    (h : Balances m r) (x : Vnode) :
    r.maps.entriesTo x + one r.put x + one r.returned x = m.entriesTo x + one r.get x := by
  obtain ⟨a, b, ha, hb, heq⟩ := h x _ _ (m.instanceForVnodeIo.hasCard_keysTo x)
    (m.instanceForShadowToVnode.hasCard_keysTo x)
  have hio := ha.unique (r.maps.instanceForVnodeIo.hasCard_keysTo x)
  have hshadow := hb.unique (r.maps.instanceForShadowToVnode.hasCard_keysTo x)
  unfold VNodeMap.entriesTo
  omega

-- ---------------------------------------------------------------------------
-- The ledger
-- ---------------------------------------------------------------------------

/-- `allocated addr` is the size of the buffer that `IOMalloc` gave at `addr`; an address
is given once only, and stays here when the buffer is freed. `frees addr size` counts
the calls of `IOFree`. -/
structure Ledger (Vnode : Type) where
  iocount : Vnode → Int
  usecount : Vnode → Int
  allocated : Nat → Option Nat
  frees : Nat → Nat → Int
  next : Nat
  fresh : ∀ addr, next ≤ addr → allocated addr = none
  map : VNodeMap Vnode ApplicationData

/-- How the environment answers: with any result, and with an entry for a map or not. -/
structure Outcome (Vnode : Type) where
  result : ∀ o : KernelOp Vnode, o.Res
  alloc : Bool

namespace Ledger

def malloc (s : Ledger Vnode) (size : Nat) : Ledger Vnode :=
  { s with
    allocated := Function.update s.allocated s.next (some size)
    next := s.next + 1
    fresh := fun addr haddr => by
      rw [Function.update_of_ne (by omega)]
      exact s.fresh addr (by omega) }

def free (s : Ledger Vnode) (addr size : Nat) : Ledger Vnode :=
  { s with frees := fun a n => s.frees a n + if a = addr ∧ n = size then 1 else 0 }

def gainIocount (s : Ledger Vnode) (vn : Option Vnode) : Ledger Vnode :=
  { s with iocount := fun x => s.iocount x + one vn x }

def loseIocount (s : Ledger Vnode) (vn : Option Vnode) : Ledger Vnode :=
  { s with iocount := fun x => s.iocount x - one vn x }

def gainUsecount (s : Ledger Vnode) (vn : Option Vnode) : Ledger Vnode :=
  { s with usecount := fun x => s.usecount x + one vn x }

def loseUsecount (s : Ledger Vnode) (vn : Option Vnode) : Ledger Vnode :=
  { s with usecount := fun x => s.usecount x - one vn x }

/-- A function of `VNodeMap`, with the put that is due after its region. -/
def mapCall (s : Ledger Vnode) (call : MapCall Vnode) (alloc : Bool) :
    Ledger Vnode × Option Vnode :=
  let r := region s.map alloc call
  ((({ s with map := r.maps }).gainIocount r.get).loseIocount r.put, r.returned)

/-- The environment of the hooks. -/
def effect : Env (@KernelOp.Res Vnode) (Ledger Vnode) (Outcome Vnode)
  | s, .ioMalloc size, c =>
    match c.result (.ioMalloc size) with
    | some _ => (s.malloc size, some s.next)
    | none => (s, none)
  | s, .ioFree addr size, _ => (s.free addr size, ())
  | s, .vnodeLookup path context, c =>
    (s.gainIocount (c.result (.vnodeLookup path context)).2, c.result (.vnodeLookup path context))
  | s, .vnodeOpen path, c =>
    ((s.gainIocount (c.result (.vnodeOpen path)).2).gainUsecount (c.result (.vnodeOpen path)).2,
      c.result (.vnodeOpen path))
  | s, .vnodeClose vp, _ => ((s.loseIocount (some vp)).loseUsecount (some vp), ())
  | s, .vnodeGet vp, _ => (s.gainIocount (some vp), ())
  | s, .vnodePut vp, _ => (s.loseIocount (some vp), ())
  | s, .vnopLookup dvp cnp, c =>
    (s.gainIocount (c.result (.vnopLookup dvp cnp)).2, c.result (.vnopLookup dvp cnp))
  | s, .vnopCreate dvp cnp, c =>
    (s.gainIocount (c.result (.vnopCreate dvp cnp)).2, c.result (.vnopCreate dvp cnp))
  | s, .getVnodeAppData vn, _ => (s, s.map.getVnodeAppData vn)
  | s, .addVnodeAppData vn data, c => ({ s with map := s.map.addVnodeAppData vn data c.alloc }, ())
  | s, .getVnodeIoRef vn, c => s.mapCall (.getVnodeIoRef vn) c.alloc
  | s, .addVnodeIo vn vnodeIo, c => ((s.mapCall (.addVnodeIo vn vnodeIo) c.alloc).1, ())
  | s, .removeVnodeIo vn, c => ((s.mapCall (.removeVnodeIo vn) c.alloc).1, ())
  | s, .getVnodeShadowReverseRef vnodeShadow, c =>
    s.mapCall (.getVnodeShadowReverseRef vnodeShadow) c.alloc
  | s, .addVnodeShadowReverse vnodeShadow vn, c =>
    ((s.mapCall (.addVnodeShadowReverse vnodeShadow vn) c.alloc).1, ())
  | s, .removeShadowReverse vnodeShadow, c =>
    ((s.mapCall (.removeShadowReverse vnodeShadow) c.alloc).1, ())
  | s, o, c => (s, c.result o)

end Ledger

-- ---------------------------------------------------------------------------
-- Resources
-- ---------------------------------------------------------------------------

inductive Resource (Vnode : Type) where
  | iocount (vn : Vnode)
  | usecount (vn : Vnode)
  | buffer (addr size : Nat)

/-- How much of each resource there is in some hands. -/
abbrev Held (Vnode : Type) := Resource Vnode → Int

namespace Held

/-- An iocount, where there is a vnode. -/
def iocount (vn : Option Vnode) : Held Vnode
  | .iocount x => one vn x
  | _ => 0

def usecount (vn : Option Vnode) : Held Vnode
  | .usecount x => one vn x
  | _ => 0

def memory (addr : Option Nat) (size : Nat) : Held Vnode
  | .buffer a n => if addr = some a ∧ n = size then 1 else 0
  | _ => 0

/-- The buffer of a path, where there is one. -/
def path (p : Option PathBuffer) : Held Vnode := memory (p.map (·.addr)) (p.elim 0 (·.size))

end Held

def Ledger.held (s : Ledger Vnode) : Held Vnode
  | .iocount x => s.iocount x - s.map.entriesTo x
  | .usecount x => s.usecount x
  | .buffer addr size => one (s.allocated addr) size - s.frees addr size

-- ---------------------------------------------------------------------------
-- What each call does to them
-- ---------------------------------------------------------------------------

/-- A vnode is there exactly if there is no error; an error satisfies `E`. -/
def Gives (E : Int → Prop) (r : Int × Option Vnode) : Prop :=
  (∃ vn, r = (0, some vn)) ∨ ∃ error, error ≠ 0 ∧ E error ∧ r = (error, none)

/-- How calls that give a vnode end. -/
def Documented (E : Int → Prop) (o : KernelOp Vnode) (c : Outcome Vnode) : Prop :=
  match o with
  | .vnodeLookup path context => Gives E (c.result (.vnodeLookup path context))
  | .vnodeOpen path => Gives E (c.result (.vnodeOpen path))
  | .vnopLookup dvp cnp => Gives E (c.result (.vnopLookup dvp cnp))
  | .vnopCreate dvp cnp => Gives E (c.result (.vnopCreate dvp cnp))
  | _ => True

/-- Calls that leave the hands of a hook as they are. -/
def KernelOp.Neutral : KernelOp Vnode → Prop
  | .ioMalloc _ | .ioFree .. | .vnodeLookup .. | .vnodeOpen _ | .vnodeClose _ | .vnodeGet _ |
    .vnodePut _ | .vnopLookup .. | .vnopCreate .. | .getVnodeIoRef _ |
    .getVnodeShadowReverseRef _ => False
  | _ => True

@[simp] theorem Held.iocount_none : Held.iocount (none : Option Vnode) = 0 := by
  funext r
  cases r <;> rfl

@[simp] theorem Held.usecount_none : Held.usecount (none : Option Vnode) = 0 := by
  funext r
  cases r <;> rfl

omit [DecidableEq Vnode] in
@[simp] theorem Held.memory_none (size : Nat) : (Held.memory none size : Held Vnode) = 0 := by
  funext r
  cases r with
  | buffer a n => simp [Held.memory]
  | _ => rfl

omit [DecidableEq Vnode] in
@[simp] theorem Held.path_none : (Held.path none : Held Vnode) = 0 := Held.memory_none 0

/-- An iocount that is given comes into the hands. -/
theorem Ledger.held_gainIocount (s : Ledger Vnode) (vn : Option Vnode) :
    (s.gainIocount vn).held = s.held + Held.iocount vn := by
  funext r
  cases r with
  | iocount x => exact (add_sub_right_comm _ _ _)
  | _ => exact (add_zero _).symm

/-- An iocount that is put goes out of the hands. -/
theorem Ledger.held_loseIocount (s : Ledger Vnode) (vn : Option Vnode) :
    (s.loseIocount vn).held = s.held - Held.iocount vn := by
  funext r
  cases r with
  | iocount x => exact sub_right_comm _ _ _
  | _ => exact (sub_zero _).symm

/-- A use count that is given comes into the hands. -/
theorem Ledger.held_gainUsecount (s : Ledger Vnode) (vn : Option Vnode) :
    (s.gainUsecount vn).held = s.held + Held.usecount vn := by
  funext r
  cases r with
  | usecount x => rfl
  | _ => exact (add_zero _).symm

/-- A use count that is dropped goes out of the hands. -/
theorem Ledger.held_loseUsecount (s : Ledger Vnode) (vn : Option Vnode) :
    (s.loseUsecount vn).held = s.held - Held.usecount vn := by
  funext r
  cases r with
  | usecount x => rfl
  | _ => exact (sub_zero _).symm

/-- A buffer that is allocated is held with its size. -/
theorem Ledger.held_malloc (s : Ledger Vnode) (size : Nat) :
    (s.malloc size).held = s.held + Held.memory (some s.next) size := by
  funext r
  cases r with
  | buffer a n =>
    have hfresh : s.allocated s.next = none := s.fresh s.next le_rfl
    by_cases ha : a = s.next
    · subst ha
      simp [Ledger.held, Ledger.malloc, Held.memory, hfresh, one, eq_comm]
      omega
    · simp [Ledger.held, Ledger.malloc, Held.memory, ha, Ne.symm ha]
  | _ => exact (add_zero _).symm

/-- A buffer that is freed goes out of the hands. -/
theorem Ledger.held_free (s : Ledger Vnode) (addr size : Nat) :
    (s.free addr size).held = s.held - Held.memory (some addr) size := by
  funext r
  cases r with
  | buffer a n => simp [Ledger.held, Ledger.free, Held.memory, eq_comm, sub_sub]
  | _ => exact (sub_zero _).symm

/-- The entries have their references; the hands have what is returned. -/
theorem Ledger.held_mapCall (s : Ledger Vnode) (call : MapCall Vnode) (alloc : Bool) :
    (s.mapCall call alloc).1.held = s.held + Held.iocount (s.mapCall call alloc).2 := by
  funext r
  cases r with
  | iocount x =>
    have hentries := entriesTo_of_balances (region_balances s.map alloc call) x
    simp only [Ledger.held, Ledger.mapCall, Ledger.gainIocount, Ledger.loseIocount, Pi.add_apply,
      Held.iocount]
    omega
  | _ => exact (add_zero _).symm

/-- A neutral call leaves in the hands what was there. -/
theorem Ledger.held_neutral (s : Ledger Vnode) {o : KernelOp Vnode} (c : Outcome Vnode)
    (h : o.Neutral) : (Ledger.effect s o c).1.held = s.held := by
  cases o with
  | addVnodeAppData vn data =>
    funext r
    cases r <;> rfl
  | addVnodeIo vn vnodeIo =>
    have hheld := s.held_mapCall (.addVnodeIo vn vnodeIo) c.alloc
    exact hheld.trans (by simp [Ledger.mapCall, region])
  | removeVnodeIo vn =>
    have hheld := s.held_mapCall (.removeVnodeIo vn) c.alloc
    exact hheld.trans (by simp [Ledger.mapCall, region])
  | addVnodeShadowReverse vnodeShadow vn =>
    have hheld := s.held_mapCall (.addVnodeShadowReverse vnodeShadow vn) c.alloc
    exact hheld.trans (by simp [Ledger.mapCall, region])
  | removeShadowReverse vnodeShadow =>
    have hheld := s.held_mapCall (.removeShadowReverse vnodeShadow) c.alloc
    exact hheld.trans (by simp [Ledger.mapCall, region])
  | ioMalloc | ioFree | vnodeLookup | vnodeOpen | vnodeClose | vnodeGet | vnodePut | vnopLookup
  | vnopCreate | getVnodeIoRef | getVnodeShadowReverseRef => exact h.elim
  | _ => rfl

section Calls

variable {E : Int → Prop} {allow : KernelOp Vnode → Outcome Vnode → Prop}
  (hallow : ∀ o c, allow o c → Documented E o c)

/-- A program over the ledger, accounted for. -/
abbrev Owns (allow : KernelOp Vnode → Outcome Vnode → Prop) {α : Type} (pre : Held Vnode)
    (p : Kernel Vnode α) (P : α → Prop) (post : α → Held Vnode) : Prop :=
  Accounts Ledger.effect allow Ledger.held pre p P post

/-- `IOMalloc` gives a buffer of its size, or none. -/
theorem owns_ioMalloc (size : Nat) : Owns allow 0 (Kernel.ioMalloc size) (fun _ => True)
    (Held.memory · size) := by
  refine Accounts.perform fun s c _ => ⟨trivial, ?_⟩
  simp only [Ledger.effect]
  split
  · rw [s.held_malloc, sub_zero]
  · simp

/-- `IOFree` takes the buffer of that size. -/
theorem owns_ioFree (addr size : Nat) : Owns allow (Held.memory (some addr) size)
    (Kernel.ioFree addr size) (fun _ => True) fun _ => 0 := by
  refine Accounts.perform fun s c _ => ⟨trivial, ?_⟩
  rw [zero_sub, ← sub_eq_add_neg]
  exact s.held_free addr size

include hallow in
/-- A lookup gives a vnode with an iocount, if it succeeds. -/
theorem owns_vnodeLookup (path : List UInt8) (context : Context) :
    Owns allow 0 (Kernel.vnodeLookup path context) (Gives E) (Held.iocount ·.2) := by
  refine Accounts.perform fun s c hc => ⟨hallow _ _ hc, ?_⟩
  rw [sub_zero]
  exact s.held_gainIocount _

include hallow in
/-- `vnode_open` gives a use count besides. -/
theorem owns_vnodeOpen (path : List UInt8) :
    Owns allow 0 (Kernel.vnodeOpen path) (Gives E)
      fun r => Held.iocount r.2 + Held.usecount r.2 := by
  refine Accounts.perform fun s c hc => ⟨hallow _ _ hc, ?_⟩
  rw [sub_zero, ← add_assoc, ← s.held_gainIocount]
  exact Ledger.held_gainUsecount _ _

include hallow in
/-- The original lookup gives a vnode with an iocount, if it succeeds. -/
theorem owns_vnopLookup (dvp : Vnode) (cnp : Componentname) :
    Owns allow 0 (Kernel.vnopLookup dvp cnp) (Gives E) (Held.iocount ·.2) := by
  refine Accounts.perform fun s c hc => ⟨hallow _ _ hc, ?_⟩
  rw [sub_zero]
  exact s.held_gainIocount _

include hallow in
/-- The original create gives a vnode with an iocount, if it succeeds. -/
theorem owns_vnopCreate (dvp : Vnode) (cnp : Componentname) :
    Owns allow 0 (Kernel.vnopCreate dvp cnp) (Gives E) (Held.iocount ·.2) := by
  refine Accounts.perform fun s c hc => ⟨hallow _ _ hc, ?_⟩
  rw [sub_zero]
  exact s.held_gainIocount _

/-- `vnode_close` takes the use count and an iocount. -/
theorem owns_vnodeClose (vp : Vnode) :
    Owns allow (Held.iocount (some vp) + Held.usecount (some vp)) (Kernel.vnodeClose vp)
      (fun _ => True) fun _ => 0 := by
  refine Accounts.perform fun s c _ => ⟨trivial, ?_⟩
  rw [zero_sub, ← sub_eq_add_neg, ← sub_sub, ← s.held_loseIocount]
  exact Ledger.held_loseUsecount _ _

/-- `vnode_get` gives an iocount. -/
theorem owns_vnodeGet (vp : Vnode) : Owns allow 0 (Kernel.vnodeGet vp) (fun _ => True)
    fun _ => Held.iocount (some vp) := by
  refine Accounts.perform fun s c _ => ⟨trivial, ?_⟩
  rw [sub_zero]
  exact s.held_gainIocount _

/-- `vnode_put` takes one. -/
theorem owns_vnodePut (vp : Vnode) : Owns allow (Held.iocount (some vp)) (Kernel.vnodePut vp)
    (fun _ => True) fun _ => 0 := by
  refine Accounts.perform fun s c _ => ⟨trivial, ?_⟩
  rw [zero_sub, ← sub_eq_add_neg]
  exact s.held_loseIocount _

/-- The backing vnode from the map comes with an iocount. -/
theorem owns_getVnodeIoRef (vn : Vnode) :
    Owns allow 0 (Kernel.getVnodeIoRef vn) (fun _ => True) Held.iocount := by
  refine Accounts.perform fun s c _ => ⟨trivial, ?_⟩
  rw [sub_zero]
  exact s.held_mapCall _ _

/-- The original vnode of a shadow vnode comes with an iocount. -/
theorem owns_getVnodeShadowReverseRef (vnodeShadow : Vnode) :
    Owns allow 0 (Kernel.getVnodeShadowReverseRef vnodeShadow) (fun _ => True) Held.iocount := by
  refine Accounts.perform fun s c _ => ⟨trivial, ?_⟩
  rw [sub_zero]
  exact s.held_mapCall _ _

/-- A program of neutral calls leaves everything as it is. -/
theorem owns_neutral {α : Type} {p : Kernel Vnode α} {P : α → Prop}
    (hp : p.Calls KernelOp.Neutral) (hP : p.Returns P) : Owns allow 0 p P fun _ => 0 := by
  intro s a s' hrun
  refine ⟨hP.of_runs hrun, ?_⟩
  have hheld : s'.held = s.held := hp.triple (I := fun t => t.held = s.held)
    (fun t o c ho ht => (t.held_neutral c ho).trans ht) s a s' rfl hrun
  rw [sub_zero, add_zero]
  exact hheld

omit [DecidableEq Vnode] in
theorem KernelOp.Caching.neutral {o : KernelOp Vnode} (h : o.Caching) : o.Neutral := by
  cases o <;> trivial

/-- Code of such calls as refill a cache takes and gives nothing. -/
theorem owns_caching {α : Type} {p : Kernel Vnode α} (hp : p.Calls KernelOp.Caching) :
    Owns allow 0 p (fun _ => True) fun _ => 0 :=
  owns_neutral (hp.mono fun _ => KernelOp.Caching.neutral) (.trivial _)

-- ---------------------------------------------------------------------------
-- Before and after a hook
-- ---------------------------------------------------------------------------

/-- An address is not given a second time. -/
theorem Ledger.allocated_effect (s : Ledger Vnode) (o : KernelOp Vnode) (c : Outcome Vnode)
    {addr size : Nat} (h : s.allocated addr = some size) :
    (Ledger.effect s o c).1.allocated addr = some size := by
  cases o with
  | ioMalloc n =>
    simp only [Ledger.effect]
    split
    · have hne : addr ≠ s.next := by
        rintro rfl
        rw [s.fresh s.next le_rfl] at h
        exact Option.some_ne_none size h.symm
      simp only [Ledger.malloc, Function.update_of_ne hne]
      exact h
    · exact h
  | _ => exact h

/-- What was allocated keeps its size over a run. -/
theorem Ledger.allocated_runs {α : Type} {p : Kernel Vnode α} {s s' : Ledger Vnode} {a : α}
    (hrun : Prog.Runs Ledger.effect allow p s a s') {addr size : Nat}
    (h : s.allocated addr = some size) : s'.allocated addr = some size := by
  induction hrun with
  | pure => exact h
  | call hc hrun ih => exact ih (Ledger.allocated_effect _ _ _ h)

/-- From `s` to `s'` the iocounts of all vnodes are changed by the entries of `VNodeMap`
alone, but for one more on `vn`; what was allocated was freed, once and with its size. -/
structure Ledger.Settled (s s' : Ledger Vnode) (vn : Option Vnode) : Prop where
  iocount : ∀ x, s'.iocount x - s.iocount x =
    (s'.map.entriesTo x - s.map.entriesTo x) + one vn x
  usecount : ∀ x, s'.usecount x = s.usecount x
  frees : ∀ addr size, s'.frees addr size - s.frees addr size =
    if s.allocated addr = none ∧ s'.allocated addr = some size then 1 else 0

/-- Code that starts with empty hands settles the ledger, up to the vnode that it returns. -/
theorem Owns.settled {α : Type} {p : Kernel Vnode α} {P : α → Prop} {vnode : α → Option Vnode}
    (h : Owns allow 0 p P fun a => Held.iocount (vnode a)) {s s' : Ledger Vnode} {a : α}
    (hrun : Prog.Runs Ledger.effect allow p s a s') : P a ∧ s.Settled s' (vnode a) := by
  obtain ⟨hP, hheld⟩ := h s a s' hrun
  rw [sub_zero] at hheld
  refine ⟨hP, fun x => ?_, fun x => ?_, fun addr size => ?_⟩
  · have hx := congrFun hheld (.iocount x)
    simp only [Ledger.held, Pi.add_apply, Held.iocount] at hx
    omega
  · have hx := congrFun hheld (.usecount x)
    simpa [Ledger.held, Held.iocount] using hx
  · have hx := congrFun hheld (.buffer addr size)
    simp only [Ledger.held, Pi.add_apply, Held.iocount, add_zero] at hx
    cases hbefore : s.allocated addr with
    | none =>
      rw [hbefore, one_none] at hx
      simp only [one, true_and] at hx ⊢
      omega
    | some n =>
      rw [Ledger.allocated_runs hrun hbefore, hbefore] at hx
      simp only [reduceCtorEq, false_and, if_false]
      omega

end Calls

-- ---------------------------------------------------------------------------
-- A ledger to start with, and answers
-- ---------------------------------------------------------------------------

namespace Ledger

def empty : Ledger Nat where
  iocount _ := 0
  usecount _ := 0
  allocated _ := none
  frees _ _ := 0
  next := 0
  fresh _ _ := rfl
  map := .empty

/-- Every call succeeds: the original vnode is 3, the shadow vnode 4, and the file in the
protected storage 5. -/
def success (shadowPath : List UInt8) : (o : KernelOp Nat) → o.Res
  | .ioMalloc _ => some 0
  | .vnodeLookup path _ => if path = shadowPath then (ENOENT, none) else (0, some 5)
  | .vnodeOpen _ => (0, some 4)
  | .vnopLookup .. | .vnopCreate .. => (0, some 3)
  | .vnodeVtype _ => .vreg
  | .localVnodeAttr => {}
  | .vnodeGetattr _ va => (0, va)
  | .vnopGetattr _ ap => (0, ap.a_vap)
  | .vnGetpath _ => (0, shadowPath)
  | .qvrGetVnodeVfsFlags _ => ⟨false, false⟩
  | .qvrVnodeGetSize .. | .ubcUplMap _ => (0, 1)
  | .ubcCreateUpl .. => (0, some 1)
  | .vnRdwr .. | .qvrVnodeSetsize .. => (0 : Int)
  | .vnopClose .. | .vnopInactive _ | .vnopExchange _ | .vnopRename .. => (0 : Int)
  | .vnopRead .. | .vnopWrite .. | .vnopPagein .. | .vnopPageout .. => (0 : Int)
  | .ubcPagesResident _ | .isUserClient => false
  | .filter .. => true
  | .cookieForRecursiveCall => none
  | .nameiopAt _ => NameiOp.LOOKUP
  | .getVnodeAppData _ => none
  | .getVnodeIoRef _ | .getVnodeShadowReverseRef _ => none
  | .ioFree .. | .vnodeClose _ | .vnodeGet _ | .vnodePut _ | .vnodeRecycle _ | .clusterPush _
  | .cachePurge _ | .ubcMsync .. | .ubcUplUnmap _ | .ubcUplAbortRange .. | .callDaemon _
  | .exchangeFiles .. | .audit _ | .auditVnode .. | .enterRecursiveCall _ | .leaveRecursiveCall
  | .addVnodeAppData .. | .addVnodeIo .. | .removeVnodeIo _ | .addVnodeShadowReverse ..
  | .removeShadowReverse _ => ()

/-- The answers of `success` are documented ones. -/
theorem documented_success {E : Int → Prop} (hE : E ENOENT) (shadowPath : List UInt8)
    (o : KernelOp Nat) : Documented E o ⟨success shadowPath, true⟩ := by
  cases o with
  | vnodeLookup path context =>
    unfold Documented success
    dsimp only
    split
    · exact Or.inr ⟨ENOENT, by decide, hE, rfl⟩
    · exact Or.inl ⟨5, rfl⟩
  | vnodeOpen path => exact Or.inl ⟨4, rfl⟩
  | vnopLookup dvp cnp => exact Or.inl ⟨3, rfl⟩
  | vnopCreate dvp cnp => exact Or.inl ⟨3, rfl⟩
  | _ => trivial

end Ledger

end VfsRedirector
