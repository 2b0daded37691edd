import VfsRedirector.Library.Transition
import VfsRedirector.Library.Count
import VfsRedirector.VNode

/-!
# The references that VNodeMap takes

`VNodeMap` calls `vnode_get` on the vnodes that two of its maps map to and on
those it returns, and `vnode_put` when an entry is gone. Any number of threads
are in its functions: a region under `VNodeMap::Lock` is one step of a thread,
the `vnode_put` after it is another, and so is the test of `isEmpty`, which
`releaseAllVnodeIO` makes without the lock. In between, others take and drop
iocounts of their own, and callers put what they were given.

`refs_balance` is the account of it: what was got and not yet put is in an entry
of one of the maps, in the hands of a caller, or about to be put.

## Results

* `region_balances` — what a call gets and puts is in the entries, or with the caller.
* `step_balanced` — every step keeps the balance.
* `refs_balance` — the balance in every state, and the kernel's iocount.
-/

namespace VfsRedirector.References

open Library HasCard

/-- The maps with referenced vnodes. -/
inductive RefMap where
  | vnodeIo
  | shadowReverse
  deriving DecidableEq

/-- The calls that are one region. -/
inductive MapCall (Vnode : Type) where
  | addVnodeShadowReverse (vnodeShadow vn : Vnode)
  | removeShadowReverse (vnodeShadow : Vnode)
  | getVnodeShadowReverseRef (vnodeShadow : Vnode)
  | addVnodeIo (vn vnodeIo : Vnode)
  | removeVnodeIo (vn : Vnode)
  | getVnodeIoRef (vn : Vnode)

inductive MapPc (Vnode : Type) where
  | idle
  /-- Past the unlock; a `releaseAll` goes on with its map. -/
  | vnodePut (vn : Vnode) (next : Option RefMap)
  -- the loop of releaseAllVnodeIO and releaseAllShadowReverse
  | isEmpty (map : RefMap)
  | removeFirst (map : RefMap)
  deriving DecidableEq

def MapPc.pendingPut {Vnode : Type} : MapPc Vnode → Option Vnode
  | vnodePut vn _ => some vn
  | _ => none

/-- What a region does: the maps it leaves, the vnode it called `vnode_get` on,
what the function returns, and what it has to put. -/
structure Region (Vnode App : Type) where
  maps : VNodeMap Vnode App
  get : Option Vnode
  returned : Option Vnode
  put : Option Vnode

structure Refs (Thread Vnode App : Type) where
  maps : VNodeMap Vnode App
  /-- The kernel's count. -/
  iocount : Vnode → Int
  /-- How much of it others hold, on their own account. -/
  others : Vnode → Nat
  /-- How often `vnode_get` was called by the functions of `VNodeMap`. -/
  gets : Vnode → Nat
  /-- How often `vnode_put` was called, by them or on what they returned. -/
  puts : Vnode → Nat
  /-- What was returned to callers and not yet put. -/
  handed : Vnode → Nat
  pc : Thread → MapPc Vnode

inductive RefAction (Thread Vnode : Type) where
  /-- A thread calls a function; `alloc` is whether `IOMalloc` delivers an entry. -/
  | call (t : Thread) (c : MapCall Vnode) (alloc : Bool)
  /-- A thread calls `releaseAllVnodeIO` or `releaseAllShadowReverse`. -/
  | releaseAll (t : Thread) (map : RefMap)
  | advance (t : Thread)
  /-- A caller puts what it was given. -/
  | putReturned (vn : Vnode)
  -- iocounts that have nothing to do with the maps
  | hold (vn : Vnode)
  | drop (vn : Vnode)

section Model

variable {Thread Vnode App : Type} [DecidableEq Thread] [DecidableEq Vnode]

def mapOf (maps : VNodeMap Vnode App) : RefMap → DataMap Vnode Vnode
  | .vnodeIo => maps.instanceForVnodeIo
  | .shadowReverse => maps.instanceForShadowToVnode

def setMap (maps : VNodeMap Vnode App) (map : RefMap) (m : DataMap Vnode Vnode) :
    VNodeMap Vnode App :=
  match map with
  | .vnodeIo => { maps with instanceForVnodeIo := m }
  | .shadowReverse => { maps with instanceForShadowToVnode := m }

def region (maps : VNodeMap Vnode App) (alloc : Bool) : MapCall Vnode → Region Vnode App
  | .addVnodeShadowReverse vnodeShadow vn =>
    let (maps', added, oldVn) := maps.addVnodeShadowReverse vnodeShadow vn alloc
    ⟨maps', if added then some vn else none, none, oldVn⟩
  | .removeShadowReverse vnodeShadow =>
    let (maps', vn) := maps.removeShadowReverse vnodeShadow
    ⟨maps', none, none, vn⟩
  | .getVnodeShadowReverseRef vnodeShadow =>
    let vn := maps.getVnodeShadowReverse vnodeShadow
    ⟨maps, vn, vn, none⟩
  | .addVnodeIo vn vnodeIo =>
    let (maps', added) := maps.addVnodeIo vn vnodeIo alloc
    ⟨maps', if added then some vnodeIo else none, none, none⟩
  | .removeVnodeIo vn =>
    let (maps', vnodeIo) := maps.removeVnodeIo vn
    ⟨maps', none, none, vnodeIo⟩
  | .getVnodeIoRef vn =>
    let vnodeIo := maps.getVnodeIo vn
    ⟨maps, vnodeIo, vnodeIo, none⟩

/-- The region in the loop of `releaseAllVnodeIO` and of `releaseAllShadowReverse`. -/
def releaseRegion (maps : VNodeMap Vnode App) (map : RefMap) : Region Vnode App :=
  let (m, entry) := (mapOf maps map).removeFirstEntryAndReturnItsData
  ⟨setMap maps map m, none, none, entry.map Prod.snd⟩

/-- A thread goes on with the put, or else with its loop. -/
def afterRegion : Option Vnode → Option RefMap → MapPc Vnode
  | some vn, next => .vnodePut vn next
  | none, some map => .isEmpty map
  | none, none => .idle

namespace Refs

def goto (s : Refs Thread Vnode App) (t : Thread) (p : MapPc Vnode) : Refs Thread Vnode App :=
  { s with pc := Function.update s.pc t p }

/-- `vnode_get`, if there is a vnode. It takes an iocount only if the vnode is in use. -/
def vnodeGet (s : Refs Thread Vnode App) : Option Vnode → Refs Thread Vnode App
  | none => s
  | some vn =>
    { s with
      gets := Function.update s.gets vn (s.gets vn + 1)
      iocount := if 0 < s.iocount vn then Function.update s.iocount vn (s.iocount vn + 1)
        else s.iocount }

def vnodePut (s : Refs Thread Vnode App) (vn : Vnode) : Refs Thread Vnode App :=
  { s with
    puts := Function.update s.puts vn (s.puts vn + 1)
    iocount := Function.update s.iocount vn (s.iocount vn - 1) }

def returnRef (s : Refs Thread Vnode App) : Option Vnode → Refs Thread Vnode App
  | none => s
  | some vn => { s with handed := Function.update s.handed vn (s.handed vn + 1) }

/-- A thread runs a region. -/
def enter (s : Refs Thread Vnode App) (t : Thread) (r : Region Vnode App) (next : Option RefMap) :
    Refs Thread Vnode App :=
  ((({ s with maps := r.maps }).vnodeGet r.get).returnRef r.returned).goto t
    (afterRegion r.put next)

def advance (s : Refs Thread Vnode App) (t : Thread) : Option (Refs Thread Vnode App) :=
  match s.pc t with
  | .idle => none
  | .vnodePut vn none => some ((s.vnodePut vn).goto t .idle)
  | .vnodePut vn (some map) => some ((s.vnodePut vn).goto t (.isEmpty map))
  | .isEmpty map =>
    if (mapOf s.maps map).isEmpty then some (s.goto t .idle) else some (s.goto t (.removeFirst map))
  | .removeFirst map => some (s.enter t (releaseRegion s.maps map) (some map))

def step (s : Refs Thread Vnode App) : RefAction Thread Vnode → Option (Refs Thread Vnode App)
  | .call t c alloc =>
    if s.pc t = .idle then some (s.enter t (region s.maps alloc c) none) else none
  | .releaseAll t map => if s.pc t = .idle then some (s.goto t (.isEmpty map)) else none
  | .advance t => s.advance t
  | .putReturned vn =>
    if 0 < s.handed vn then
      some { s.vnodePut vn with handed := Function.update s.handed vn (s.handed vn - 1) }
    else none
  | .hold vn =>
    some { s with
      others := Function.update s.others vn (s.others vn + 1)
      iocount := Function.update s.iocount vn (s.iocount vn + 1) }
  | .drop vn =>
    if 0 < s.others vn then
      some { s with
        others := Function.update s.others vn (s.others vn - 1)
        iocount := Function.update s.iocount vn (s.iocount vn - 1) }
    else none

end Refs

def refsInit (s : Refs Thread Vnode App) : Prop :=
  s.maps = .empty ∧ (∀ vn, s.iocount vn = s.others vn ∧ s.gets vn = 0 ∧ s.puts vn = 0 ∧
    s.handed vn = 0) ∧ ∀ t, s.pc t = .idle

def refsSystem : System (Refs Thread Vnode App) (RefAction Thread Vnode) :=
  ⟨refsInit, Refs.step⟩

/-- Who adds an entry holds an iocount on its value. -/
def callersHold (s : Refs Thread Vnode App) : RefAction Thread Vnode → Prop
  | .call _ (.addVnodeShadowReverse _ vn) _ => 0 < s.others vn ∨ 0 < s.handed vn
  | .call _ (.addVnodeIo _ vnodeIo) _ => 0 < s.others vnodeIo ∨ 0 < s.handed vnodeIo
  | _ => True

instance (s : Refs Thread Vnode App) (a : RefAction Thread Vnode) : Decidable (callersHold s a) :=
  match a with
  | .call _ (.addVnodeShadowReverse _ _) _ => inferInstanceAs (Decidable (_ ∨ _))
  | .call _ (.addVnodeIo _ _) _ => inferInstanceAs (Decidable (_ ∨ _))
  | .call _ (.removeShadowReverse _) _ | .call _ (.getVnodeShadowReverseRef _) _
  | .call _ (.removeVnodeIo _) _ | .call _ (.getVnodeIoRef _) _
  | .releaseAll _ _ | .advance _ | .putReturned _ | .hold _ | .drop _ =>
    inferInstanceAs (Decidable True)

-- ---------------------------------------------------------------------------
-- What a region does to the entries
-- ---------------------------------------------------------------------------

variable {maps : VNodeMap Vnode App} {vn vn' x : Vnode} {alloc : Bool} {a b : Int}

/-- An addition changes one key, which holds what it did or what was added. -/
theorem getVnodeIO_addVnodeIO_eq (maps : VNodeMap Vnode App) (vn vn' : Vnode) (alloc : Bool) :
    ∃ r, (maps.addVnodeIo vn vn' alloc).1.getVnodeIo = Function.update maps.getVnodeIo vn r ∧
      ∀ x, one r x = one (maps.getVnodeIo vn) x +
        one (if (maps.addVnodeIo vn vn' alloc).2 then some vn' else none) x := by
  have hsame := Function.update_eq_self vn maps.getVnodeIo
  unfold VNodeMap.addVnodeIo
  cases hget : maps.getVnodeIo vn with
  | some current =>
    rw [hget] at hsame
    exact ⟨some current, hsame.symm, fun x => (add_zero _).symm⟩
  | none =>
    rw [hget] at hsame
    cases alloc with
    | false => exact ⟨none, hsame.symm, fun x => rfl⟩
    | true =>
      refine ⟨some vn', ?_, fun x => ?_⟩
      · funext k
        simp [VNodeMap.getVnodeIo, Function.update_apply]
      · simp

/-- A removal returns what the key had, and the key has nothing then. -/
theorem getVnodeIO_removeVnodeIO_eq (maps : VNodeMap Vnode App) (vn : Vnode) :
    (maps.removeVnodeIo vn).2 = maps.getVnodeIo vn ∧
      (maps.removeVnodeIo vn).1.getVnodeIo = Function.update maps.getVnodeIo vn none := by
  constructor
  · unfold VNodeMap.removeVnodeIo
    cases maps.getVnodeIo vn <;> rfl
  · funext k
    rw [VNodeMap.getVnodeIO_removeVnodeIo, Function.update_apply]

/-- A removal returns the reverse entry of the key, which has none then. -/
theorem getVnodeShadowReverse_removeShadowReverse_eq (maps : VNodeMap Vnode App) (vn : Vnode) :
    (maps.removeShadowReverse vn).2 = maps.getVnodeShadowReverse vn ∧
      (maps.removeShadowReverse vn).1.getVnodeShadowReverse =
        Function.update maps.getVnodeShadowReverse vn none := by
  constructor
  · unfold VNodeMap.removeShadowReverse
    cases maps.getVnodeShadowReverse vn <;> rfl
  · funext k
    rw [VNodeMap.getVnodeShadowReverse_removeShadowReverse, Function.update_apply]

/-- An entry for another vnode goes before the new one comes, or does not come. -/
theorem getVnodeShadowReverse_addVnodeShadowReverse_eq (maps : VNodeMap Vnode App)
    (vn vn' : Vnode) (alloc : Bool) :
    ∃ r, (maps.addVnodeShadowReverse vn vn' alloc).1.getVnodeShadowReverse =
        Function.update maps.getVnodeShadowReverse vn r ∧
      ∀ x, one r x + one (maps.addVnodeShadowReverse vn vn' alloc).2.2 x =
        one (maps.getVnodeShadowReverse vn) x +
          one (if (maps.addVnodeShadowReverse vn vn' alloc).2.1 then some vn' else none) x := by
  have hsame := Function.update_eq_self vn maps.getVnodeShadowReverse
  unfold VNodeMap.addVnodeShadowReverse
  cases hget : maps.getVnodeShadowReverse vn with
  | none =>
    rw [hget] at hsame
    cases alloc with
    | false => exact ⟨none, hsame.symm, fun x => rfl⟩
    | true =>
      refine ⟨some vn', ?_, fun x => ?_⟩
      · funext k
        simp [VNodeMap.getVnodeShadowReverse, Function.update_apply]
      · simp
  | some current =>
    -- the same vnode: nothing changes hands; another: the old one is given back
    by_cases hvn : vn' = current
    · rw [hget] at hsame
      simp only [hvn, ne_eq, not_true_eq_false, if_false]
      exact ⟨some current, hsame.symm, fun x => rfl⟩
    · cases alloc with
      | false =>
        refine ⟨none, ?_, fun x => ?_⟩
        · funext k
          simp [hvn, VNodeMap.getVnodeShadowReverse, Function.update_apply]
        · simp [hvn]
      | true =>
        refine ⟨some vn', ?_, fun x => ?_⟩
        · funext k
          by_cases hk : k = vn
          · simp [hvn, VNodeMap.getVnodeShadowReverse, hk]
          · simp [hvn, VNodeMap.getVnodeShadowReverse, hk]
        · simp [hvn, add_comm]

/-- The first entry is the one that goes. -/
theorem getDataByKey_removeFirst_eq (m : DataMap Vnode Vnode) :
    (m.removeFirstEntryAndReturnItsData.2 = none ∧
      m.removeFirstEntryAndReturnItsData.1.getDataByKey = m.getDataByKey) ∨
    ∃ key data, m.removeFirstEntryAndReturnItsData.2 = some (key, data) ∧
      m.getDataByKey key = some data ∧
      m.removeFirstEntryAndReturnItsData.1.getDataByKey =
        Function.update m.getDataByKey key none := by
  cases hfirst : m.removeFirstEntryAndReturnItsData.2 with
  | none =>
    refine Or.inl ⟨rfl, funext fun k => ?_⟩
    rw [DataMap.getDataByKey_removeFirst, hfirst, Option.map_none,
      if_neg (Option.some_ne_none k).symm]
  | some entry =>
    obtain ⟨key, data⟩ := entry
    refine Or.inr ⟨key, data, rfl, ?_, funext fun k => ?_⟩
    · obtain ⟨entries, hnodup⟩ := m
      cases entries with
      | nil => cases hfirst
      | cons e entries =>
        cases hfirst
        simp [DataMap.getDataByKey, DataMap.findEntryByKey]
    · rw [DataMap.getDataByKey_removeFirst, hfirst, Function.update_apply]
      by_cases hk : k = key
      · simp [hk]
      · simp [hk, Ne.symm hk]

/-- A region balances: what it got goes into an entry or to the caller, and what
leaves an entry is to be put. -/
def Balances (maps : VNodeMap Vnode App) (r : Region Vnode App) : Prop :=
  ∀ x a b, HasCard (fun k => maps.getVnodeIo k = some x) a →
    HasCard (fun k => maps.getVnodeShadowReverse k = some x) b →
    ∃ a' b', HasCard (fun k => r.maps.getVnodeIo k = some x) a' ∧
      HasCard (fun k => r.maps.getVnodeShadowReverse k = some x) b' ∧
      a' + b' + one r.put x + one r.returned x = a + b + one r.get x

/-- A region that replaces what a key has in `InstanceForVnodeIO`. -/
theorem balances_vnodeIo {r : Region Vnode App} {o : Option Vnode}
    (hio : r.maps.getVnodeIo = Function.update maps.getVnodeIo vn o)
    (hshadow : r.maps.getVnodeShadowReverse = maps.getVnodeShadowReverse)
    (hone : ∀ x, one o x + one r.put x + one r.returned x =
      one (maps.getVnodeIo vn) x + one r.get x) : Balances maps r := by
  intro x a b ha hb
  refine ⟨_, b, hio ▸ ha.set vn o, hshadow ▸ hb, ?_⟩
  have := hone x
  omega

/-- A region that replaces what a key has in `InstanceForShadowToVnode`. -/
theorem balances_shadowReverse {r : Region Vnode App} {o : Option Vnode}
    (hio : r.maps.getVnodeIo = maps.getVnodeIo)
    (hshadow : r.maps.getVnodeShadowReverse = Function.update maps.getVnodeShadowReverse vn o)
    (hone : ∀ x, one o x + one r.put x + one r.returned x =
      one (maps.getVnodeShadowReverse vn) x + one r.get x) : Balances maps r := by
  intro x a b ha hb
  refine ⟨a, _, hio ▸ ha, hshadow ▸ hb.set vn o, ?_⟩
  have := hone x
  omega

/-- The region of every call balances. -/
theorem region_balances (maps : VNodeMap Vnode App) (alloc : Bool) (c : MapCall Vnode) :
    Balances maps (region maps alloc c) := by
  cases c with
  | addVnodeShadowReverse vnodeShadow vn =>
    obtain ⟨o, hget, hone⟩ := getVnodeShadowReverse_addVnodeShadowReverse_eq maps vnodeShadow vn
      alloc
    refine balances_shadowReverse ?_ hget fun x => ?_
    · funext k
      exact VNodeMap.getVnodeIO_addVnodeShadowReverse
    · exact (add_zero _).trans (hone x)
  | removeShadowReverse vnodeShadow =>
    obtain ⟨hold, hget⟩ := getVnodeShadowReverse_removeShadowReverse_eq maps vnodeShadow
    refine balances_shadowReverse ?_ hget fun x => ?_
    · funext k
      exact VNodeMap.getVnodeIO_removeShadowReverse
    · simp [region, hold]
  | getVnodeShadowReverseRef vnodeShadow =>
    -- a lookup gives a reference with each vnode it returns
    intro x a b ha hb
    exact ⟨a, b, ha, hb, by simp [region]⟩
  | addVnodeIo vn vnodeIo =>
    obtain ⟨o, hget, hone⟩ := getVnodeIO_addVnodeIO_eq maps vn vnodeIo alloc
    refine balances_vnodeIo hget ?_ fun x => ?_
    · funext k
      exact VNodeMap.getVnodeShadowReverse_addVnodeIo
    · exact (add_zero _).trans ((add_zero _).trans (hone x))
  | removeVnodeIo vn =>
    obtain ⟨hold, hget⟩ := getVnodeIO_removeVnodeIO_eq maps vn
    refine balances_vnodeIo hget ?_ fun x => ?_
    · funext k
      exact VNodeMap.getVnodeShadowReverse_removeVnodeIo
    · simp [region, hold]
  | getVnodeIoRef vn =>
    intro x a b ha hb
    exact ⟨a, b, ha, hb, by simp [region]⟩

/-- The region of a release of all entries balances. -/
theorem releaseRegion_balances (maps : VNodeMap Vnode App) (map : RefMap) :
    Balances maps (releaseRegion maps map) := by
  intro x a b ha hb
  cases map with
  | vnodeIo =>
    obtain ⟨hput, hget⟩ | ⟨key, data, hput, hdata, hget⟩ :=
      getDataByKey_removeFirst_eq maps.instanceForVnodeIo
    · have hsame : (releaseRegion maps .vnodeIo).maps.getVnodeIo = maps.getVnodeIo := hget
      refine ⟨a, b, hsame ▸ ha, hb, ?_⟩
      simp [releaseRegion, mapOf, hput]
    · have hget' : (releaseRegion maps .vnodeIo).maps.getVnodeIo =
          Function.update maps.getVnodeIo key none := hget
      have hdata' : maps.getVnodeIo key = some data := hdata
      refine balances_vnodeIo hget' rfl (fun y => ?_) x a b ha hb
      simp [releaseRegion, mapOf, hput, hdata']
  | shadowReverse =>
    obtain ⟨hput, hget⟩ | ⟨key, data, hput, hdata, hget⟩ :=
      getDataByKey_removeFirst_eq maps.instanceForShadowToVnode
    · have hsame : (releaseRegion maps .shadowReverse).maps.getVnodeShadowReverse =
          maps.getVnodeShadowReverse := hget
      refine ⟨a, b, ha, hsame ▸ hb, ?_⟩
      simp [releaseRegion, mapOf, hput]
    · have hget' : (releaseRegion maps .shadowReverse).maps.getVnodeShadowReverse =
          Function.update maps.getVnodeShadowReverse key none := hget
      have hdata' : maps.getVnodeShadowReverse key = some data := hdata
      have hsame : (releaseRegion maps .shadowReverse).maps.getVnodeIo = maps.getVnodeIo := rfl
      refine balances_shadowReverse hsame hget' (fun y => ?_) x a b ha hb
      simp [releaseRegion, mapOf, hput, hdata']

-- ---------------------------------------------------------------------------
-- What a step does to the account
-- ---------------------------------------------------------------------------

/-- The account of `VNodeMap` for a vnode, and what there is of it in the kernel's count. -/
structure Balanced (s : Refs Thread Vnode App) (x : Vnode) : Prop where
  balance : ∃ vnodeIo shadow pending : Int,
    HasCard (fun k => s.maps.getVnodeIo k = some x) vnodeIo ∧
    HasCard (fun k => s.maps.getVnodeShadowReverse k = some x) shadow ∧
    HasCard (fun t => (s.pc t).pendingPut = some x) pending ∧
    (s.gets x : Int) - s.puts x = vnodeIo + shadow + s.handed x + pending
  iocount : s.iocount x = s.others x + s.gets x - s.puts x

variable {s s' : Refs Thread Vnode App} {t : Thread} {r : Region Vnode App} {next : Option RefMap}

omit [DecidableEq Thread] in
/-- Puts do not exceed gets. -/
theorem Balanced.puts_le (h : Balanced s x) : s.puts x ≤ s.gets x := by
  obtain ⟨io, shadow, pending, hio, hshadow, hpending, heq⟩ := h.balance
  have := hio.nonneg
  have := hshadow.nonneg
  have := hpending.nonneg
  omega

omit [DecidableEq Thread] in
/-- A vnode that an entry maps to has an iocount. -/
theorem Balanced.iocount_pos (h : Balanced s x)
    (hentry : (∃ k, s.maps.getVnodeIo k = some x) ∨ ∃ k, s.maps.getVnodeShadowReverse k = some x) :
    0 < s.iocount x := by
  obtain ⟨io, shadow, pending, hio, hshadow, hpending, heq⟩ := h.balance
  have hiocount := h.iocount
  have := hio.nonneg
  have := hshadow.nonneg
  have := hpending.nonneg
  rcases hentry with ⟨k, hk⟩ | ⟨k, hk⟩
  · have := hio.pos hk
    omega
  · have := hshadow.pos hk
    omega

omit [DecidableEq Vnode] in
/-- The put that is due is that of the thread's place. -/
theorem pendingPut_goto (s : Refs Thread Vnode App) (t : Thread) (p : MapPc Vnode) :
    (fun u => ((s.goto t p).pc u).pendingPut) =
      Function.update (fun u => (s.pc u).pendingPut) t p.pendingPut := by
  funext u
  by_cases hu : u = t
  · rw [hu, Function.update_self]
    simp [Refs.goto]
  · rw [Function.update_of_ne hu]
    simp [Refs.goto, hu]

omit [DecidableEq Thread] in
/-- `vnode_get` on a vnode in use counts in both. -/
theorem vnodeGet_eq (s : Refs Thread Vnode App) (o : Option Vnode)
    (hget : ∀ vn, o = some vn → 0 < s.iocount vn) (x : Vnode) :
    ((s.vnodeGet o).gets x : Int) = s.gets x + one o x ∧
      (s.vnodeGet o).iocount x = s.iocount x + one o x := by
  cases o with
  | none => exact ⟨(add_zero _).symm, (add_zero _).symm⟩
  | some vn =>
    rw [Refs.vnodeGet, if_pos (hget vn rfl)]
    by_cases hx : x = vn
    · simp [one, hx]
    · simp [one, hx, Ne.symm hx]

omit [DecidableEq Thread] in
/-- A reference that is handed out counts for its vnode. -/
theorem returnRef_eq (s : Refs Thread Vnode App) (o : Option Vnode) (x : Vnode) :
    ((s.returnRef o).handed x : Int) = s.handed x + one o x := by
  cases o with
  | none => exact (add_zero _).symm
  | some vn =>
    rw [Refs.returnRef]
    by_cases hx : x = vn
    · simp [one, hx]
    · simp [one, hx, Ne.symm hx]

omit [DecidableEq Thread] in
@[simp] theorem vnodeGet_fields (s : Refs Thread Vnode App) (o : Option Vnode) :
    (s.vnodeGet o).maps = s.maps ∧ (s.vnodeGet o).puts = s.puts ∧
      (s.vnodeGet o).others = s.others ∧ (s.vnodeGet o).handed = s.handed ∧
      (s.vnodeGet o).pc = s.pc := by
  cases o <;> exact ⟨rfl, rfl, rfl, rfl, rfl⟩

omit [DecidableEq Thread] in
@[simp] theorem returnRef_fields (s : Refs Thread Vnode App) (o : Option Vnode) :
    (s.returnRef o).maps = s.maps ∧ (s.returnRef o).puts = s.puts ∧
      (s.returnRef o).others = s.others ∧ (s.returnRef o).gets = s.gets ∧
      (s.returnRef o).iocount = s.iocount ∧ (s.returnRef o).pc = s.pc := by
  cases o <;> exact ⟨rfl, rfl, rfl, rfl, rfl, rfl⟩

omit [DecidableEq Vnode] in
/-- After its region a thread has the region's put to do. -/
theorem pendingPut_afterRegion (o : Option Vnode) (next : Option RefMap) :
    (afterRegion o next).pendingPut = o := by
  cases o <;> cases next <;> rfl

/-- What a region leaves: all that its own account says. -/
theorem enter_eq (s : Refs Thread Vnode App) (t : Thread) (r : Region Vnode App)
    (next : Option RefMap) (hget : ∀ vn, r.get = some vn → 0 < s.iocount vn) (x : Vnode) :
    (s.enter t r next).maps = r.maps ∧ ((s.enter t r next).gets x : Int) = s.gets x + one r.get x ∧
      (s.enter t r next).puts = s.puts ∧ (s.enter t r next).others = s.others ∧
      ((s.enter t r next).handed x : Int) = s.handed x + one r.returned x ∧
      (s.enter t r next).iocount x = s.iocount x + one r.get x ∧
      (fun u => ((s.enter t r next).pc u).pendingPut) =
        Function.update (fun u => (s.pc u).pendingPut) t r.put := by
  obtain ⟨hgets, hiocount⟩ := vnodeGet_eq { s with maps := r.maps } r.get hget x
  have hhanded := returnRef_eq (({ s with maps := r.maps }).vnodeGet r.get) r.returned x
  have hpending := pendingPut_goto
    ((({ s with maps := r.maps }).vnodeGet r.get).returnRef r.returned) t (afterRegion r.put next)
  simp only [pendingPut_afterRegion, returnRef_fields, vnodeGet_fields] at hpending hhanded
  refine ⟨?_, ?_, ?_, ?_, ?_, ?_, hpending⟩
  all_goals simp only [Refs.enter, Refs.goto, returnRef_fields, vnodeGet_fields]
  · exact hgets
  · exact hhanded
  · exact hiocount

/-- A region that balances leaves the account true. -/
theorem enter_balanced (h : Balanced s x) (hpc : (s.pc t).pendingPut = none)
    (hr : Balances s.maps r) (hget : ∀ vn, r.get = some vn → 0 < s.iocount vn) :
    Balanced (s.enter t r next) x := by
  obtain ⟨hmaps, hgets, hputs, hothers, hhanded, hiocount, hpending⟩ :=
    enter_eq s t r next hget x
  obtain ⟨io, shadow, pending, hio, hshadow, hpend, heq⟩ := h.balance
  obtain ⟨io', shadow', hio', hshadow', hone⟩ := hr x io shadow hio hshadow
  have hset := hpend.set t r.put
  rw [hpc, one_none, ← hpending] at hset
  refine ⟨⟨io', shadow', _, hmaps ▸ hio', hmaps ▸ hshadow', hset, ?_⟩, ?_⟩
  · rw [hgets, hputs, hhanded]
    omega
  · rw [hiocount, hgets, hputs, hothers, h.iocount]
    omega

/-- What a region calls `vnode_get` on is in an entry, or what the caller adds. -/
theorem region_get {c : MapCall Vnode} (hget : (region maps alloc c).get = some vn) :
    ((∃ k, maps.getVnodeIo k = some vn) ∨ ∃ k, maps.getVnodeShadowReverse k = some vn) ∨
      (∃ k, c = .addVnodeIo k vn) ∨ ∃ k, c = .addVnodeShadowReverse k vn := by
  cases c with
  | addVnodeShadowReverse vnodeShadow v =>
    simp only [region, Option.ite_none_right_eq_some, Option.some.injEq] at hget
    exact Or.inr (Or.inr ⟨vnodeShadow, by rw [hget.2]⟩)
  | removeShadowReverse vnodeShadow => cases hget
  | getVnodeShadowReverseRef vnodeShadow => exact Or.inl (Or.inr ⟨vnodeShadow, hget⟩)
  | addVnodeIo v vnodeIo =>
    simp only [region, Option.ite_none_right_eq_some, Option.some.injEq] at hget
    exact Or.inr (Or.inl ⟨v, by rw [hget.2]⟩)
  | removeVnodeIo v => cases hget
  | getVnodeIoRef v => exact Or.inl (Or.inl ⟨v, hget⟩)

omit [DecidableEq Thread] in
/-- A caller that has an iocount shows in the kernel's count. -/
theorem Balanced.iocount_pos_of_caller (h : Balanced s x)
    (hcaller : 0 < s.others x ∨ 0 < s.handed x) : 0 < s.iocount x := by
  obtain ⟨io, shadow, pending, hio, hshadow, hpending, heq⟩ := h.balance
  have hiocount := h.iocount
  have := hio.nonneg
  have := hshadow.nonneg
  have := hpending.nonneg
  omega

/-- A put is of what a thread or a caller had got, so it leaves the account true. -/
theorem vnodePut_goto_balanced (h : Balanced s x) (hpc : (s.pc t).pendingPut = some vn)
    {p : MapPc Vnode} (hp : p.pendingPut = none) : Balanced ((s.vnodePut vn).goto t p) x := by
  obtain ⟨io, shadow, pending, hio, hshadow, hpend, heq⟩ := h.balance
  have hset := hpend.set t p.pendingPut
  rw [hpc, hp, one_none, ← hp, ← pendingPut_goto] at hset
  have hiocount := h.iocount
  refine ⟨⟨io, shadow, _, hio, hshadow, hset, ?_⟩, ?_⟩
  · by_cases hx : x = vn
    · simp [Refs.goto, Refs.vnodePut, one, hx] at heq ⊢
      omega
    · simp [Refs.goto, Refs.vnodePut, one, hx, Ne.symm hx] at heq ⊢
      omega
  · by_cases hx : x = vn
    · simp [Refs.goto, Refs.vnodePut, hx] at hiocount ⊢
      omega
    · simp [Refs.goto, Refs.vnodePut, hx] at hiocount ⊢
      omega

/-- A thread that goes on without a put. -/
theorem goto_balanced (h : Balanced s x) (hpc : (s.pc t).pendingPut = none) {p : MapPc Vnode}
    (hp : p.pendingPut = none) : Balanced (s.goto t p) x := by
  obtain ⟨io, shadow, pending, hio, hshadow, hpend, heq⟩ := h.balance
  have hset := hpend.set t p.pendingPut
  rw [hpc, hp, one_none, sub_zero, add_zero, ← hp, ← pendingPut_goto] at hset
  exact ⟨⟨io, shadow, pending, hio, hshadow, hset, heq⟩, h.iocount⟩

/-- The next operation of a thread leaves the account true. -/
theorem advance_balanced (h : ∀ x, Balanced s x) (hstep : s.advance t = some s') (x : Vnode) :
    Balanced s' x := by
  unfold Refs.advance at hstep
  cases hpc : s.pc t with
  | idle => simp [hpc] at hstep
  -- the reference that was pending is put
  | vnodePut vn next =>
    have hput : (s.pc t).pendingPut = some vn := by rw [hpc]; rfl
    rw [hpc] at hstep
    cases next with
    | none =>
      cases hstep
      exact vnodePut_goto_balanced (h x) hput rfl
    | some map =>
      cases hstep
      exact vnodePut_goto_balanced (h x) hput rfl
  | isEmpty map =>
    have hput : (s.pc t).pendingPut = none := by rw [hpc]; rfl
    rw [hpc] at hstep
    dsimp only at hstep
    split at hstep
    · cases hstep
      exact goto_balanced (h x) hput rfl
    · cases hstep
      exact goto_balanced (h x) hput rfl
  -- the vnode that is taken out of the map is pending to be put
  | removeFirst map =>
    have hput : (s.pc t).pendingPut = none := by rw [hpc]; rfl
    rw [hpc] at hstep
    cases hstep
    refine enter_balanced (h x) hput (releaseRegion_balances s.maps map) fun vn hget => ?_
    cases hget

/-- Every step leaves the account true, if callers hold what they add. -/
theorem step_balanced {a : RefAction Thread Vnode} (h : ∀ x, Balanced s x) (hok : callersHold s a)
    (hstep : s.step a = some s') (x : Vnode) : Balanced s' x := by
  cases a with
  | call t c alloc =>
    simp only [Refs.step, Option.ite_none_right_eq_some, Option.some.injEq] at hstep
    obtain ⟨hpc, rfl⟩ := hstep
    have hput : (s.pc t).pendingPut = none := by rw [hpc]; rfl
    refine enter_balanced (h x) hput (region_balances s.maps alloc c) fun vn hget => ?_
    obtain hentry | ⟨k, rfl⟩ | ⟨k, rfl⟩ := region_get hget
    · exact (h vn).iocount_pos hentry
    · exact (h vn).iocount_pos_of_caller hok
    · exact (h vn).iocount_pos_of_caller hok
  | releaseAll t map =>
    simp only [Refs.step, Option.ite_none_right_eq_some, Option.some.injEq] at hstep
    obtain ⟨hpc, rfl⟩ := hstep
    have hput : (s.pc t).pendingPut = none := by rw [hpc]; rfl
    exact goto_balanced (h x) hput rfl
  | advance t => exact advance_balanced h hstep x
  -- a caller puts a vnode it was handed
  | putReturned vn =>
    simp only [Refs.step, Option.ite_none_right_eq_some, Option.some.injEq] at hstep
    obtain ⟨hhanded, rfl⟩ := hstep
    obtain ⟨⟨io, shadow, pending, hio, hshadow, hpend, heq⟩, hiocount⟩ := h x
    refine ⟨⟨io, shadow, pending, hio, hshadow, hpend, ?_⟩, ?_⟩
    · by_cases hx : x = vn
      · simp [Refs.vnodePut, hx] at heq ⊢
        omega
      · simpa [Refs.vnodePut, hx] using heq
    · by_cases hx : x = vn
      · simp [Refs.vnodePut, hx] at hiocount ⊢
        omega
      · simpa [Refs.vnodePut, hx] using hiocount
  | hold vn =>
    cases hstep
    refine ⟨(h x).balance, ?_⟩
    have hiocount := (h x).iocount
    by_cases hx : x = vn
    · simp [hx] at hiocount ⊢
      omega
    · simpa [hx] using hiocount
  -- the iocounts of others come and go
  | drop vn =>
    simp only [Refs.step, Option.ite_none_right_eq_some, Option.some.injEq] at hstep
    obtain ⟨hothers, rfl⟩ := hstep
    refine ⟨(h x).balance, ?_⟩
    have hiocount := (h x).iocount
    by_cases hx : x = vn
    · simp [hx] at hiocount ⊢
      omega
    · simpa [hx] using hiocount

omit [DecidableEq Thread] in
/-- The account is true before the first call. -/
theorem init_balanced (hinit : refsInit s) (x : Vnode) : Balanced s x := by
  obtain ⟨hmaps, hcounts, hidle⟩ := hinit
  obtain ⟨hiocount, hgets, hputs, hhanded⟩ := hcounts x
  refine ⟨⟨0, 0, 0, zero fun k => ?_, zero fun k => ?_, zero fun t => ?_, ?_⟩, ?_⟩
  · rw [hmaps]
    exact Option.some_ne_none x |>.symm
  · rw [hmaps]
    exact Option.some_ne_none x |>.symm
  · rw [hidle]
    exact Option.some_ne_none x |>.symm
  · rw [hgets, hputs, hhanded]
    rfl
  · rw [hiocount, hgets, hputs]
    simp

-- ---------------------------------------------------------------------------
-- Main result
-- ---------------------------------------------------------------------------

/-- At every moment of every run what `VNodeMap` got and did not put is in the
entries of its maps, with callers, or about to be put; and the kernel's count has
it, on top of what others hold. -/
theorem refs_balance (h : ReachableBy refsSystem callersHold s) (x : Vnode) :
    (∃ vnodeIo shadow pending : Int,
      HasCard (fun k => s.maps.getVnodeIo k = some x) vnodeIo ∧
      HasCard (fun k => s.maps.getVnodeShadowReverse k = some x) shadow ∧
      HasCard (fun t => (s.pc t).pendingPut = some x) pending ∧
      (s.gets x : Int) - s.puts x = vnodeIo + shadow + s.handed x + pending) ∧
    s.puts x ≤ s.gets x ∧ s.iocount x = s.others x + s.gets x - s.puts x := by
  have hbalanced : ∀ x, Balanced s x := h.invariant (I := fun s => ∀ x, Balanced s x)
    (fun s hs => init_balanced hs) fun s a s' hs hok hstep => step_balanced hs hok hstep
  exact ⟨(hbalanced x).balance, (hbalanced x).puts_le, (hbalanced x).iocount⟩

end Model

namespace Released

def initial : Refs Nat Nat Unit :=
  ⟨.empty, fun _ => 0, fun _ => 0, fun _ => 0, fun _ => 0, fun _ => 0, fun _ => .idle⟩

/-- A backing vnode is looked up and associated, a request takes a reference on it,
and the entry is removed before the request is done. -/
def removedInRequest : List (RefAction Nat Nat) :=
  [.hold 5, .call 0 (.addVnodeIo 1 5) true, .drop 5, .call 0 (.getVnodeIoRef 1) true,
    .call 1 (.removeVnodeIo 1) true]

end Released

open Released in
/-- Thread 0 has been handed the backing vnode when thread 1 removes the entry and has yet to put
it. -/
theorem refs_balance_removed : ∃ s : Refs Nat Nat Unit, s.pc 1 = .vnodePut 5 none ∧
    s.gets 5 = 2 ∧ s.puts 5 = 0 ∧ s.handed 5 = 1 ∧ s.maps.getVnodeIo 1 = none ∧
    (∃ vnodeIo shadow pending : Int,
      HasCard (fun k => s.maps.getVnodeIo k = some 5) vnodeIo ∧
      HasCard (fun k => s.maps.getVnodeShadowReverse k = some 5) shadow ∧
      HasCard (fun t => (s.pc t).pendingPut = some 5) pending ∧
      (s.gets 5 : Int) - s.puts 5 = vnodeIo + shadow + s.handed 5 + pending) ∧
    s.puts 5 ≤ s.gets 5 ∧ s.iocount 5 = s.others 5 + s.gets 5 - s.puts 5 := by
  have hallowed : allowed refsSystem (fun s a => decide (callersHold s a)) initial
      removedInRequest = true := by decide +kernel
  have hrun : ((exec refsSystem initial removedInRequest).any fun s =>
      s.pc 1 = .vnodePut 5 none ∧ s.gets 5 = 2 ∧ s.puts 5 = 0 ∧ s.handed 5 = 1 ∧
        s.maps.getVnodeIo 1 = none) = true := by decide +kernel
  rw [Option.any_eq_true] at hrun
  obtain ⟨s, hexec, hfacts⟩ := hrun
  obtain ⟨hpc, hgets, hputs, hhanded, hentry⟩ := of_decide_eq_true hfacts
  have hinit : refsInit initial := ⟨rfl, fun _ => ⟨rfl, rfl, rfl, rfl⟩, fun _ => rfl⟩
  exact ⟨s, hpc, hgets, hputs, hhanded, hentry,
    refs_balance
      (ReachableBy.execBy (fun _ _ h => of_decide_eq_true h) (.init hinit) _ hallowed hexec) 5⟩

end VfsRedirector.References
