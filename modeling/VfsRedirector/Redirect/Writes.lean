import VfsRedirector.Redirect.Requests

/-!
# Writes to redirected files

A write or a pageout on a vnode with `redirectIO` data looks for its backing vnode
anew each time, and calls the original file system when there is none. So such a request
reaches the original file if there is no entry in `InstanceForVnodeIO` and one of the calls
that look for the backing file fails (`write_done_iff`). In a run in which these calls do
not fail, no write or pageout does that is neither recursive nor of the user client, whatever
else is removed or fails (`writes_redirected`).

That a request is to be redirected is said of the state in which it is made (`ToRedirect`):
`InstanceForAppData` has `redirectIO` data for the vnode, and the thread has no mark. What
the hook asks, and when, is up to the hook (`Served`).

## Results

* `write_done_iff` — a request that is done was kept from the original file just if its
  search has not failed.
* `writes_redirected` — in a run whose searches do not fail, all such requests are.
-/

namespace VfsRedirector

open Library Prog Kernel

variable {Thread Vnode : Type}

-- ---------------------------------------------------------------------------
-- The requests
-- ---------------------------------------------------------------------------

/-- The vnode that a write or a pageout is for. -/
def Request.written : Request Vnode → Option Vnode
  | .other _ (.write ap) => some ap.a_vp
  | .other _ (.pageout ap) => some ap.a_vp
  | _ => none

namespace KernelOp

/-- The operation of the original file system on `vn`. -/
def WritesOriginal (vn : Vnode) : KernelOp Vnode → Prop
  | .vnopWrite (.original v) _ | .vnopPageout (.original v) _ => v = vn
  | _ => False

/-- The operation of its own file system on the backing vnode. -/
def WritesBacking (backing : Vnode) : KernelOp Vnode → Prop
  | .vnopWrite (.vnop v) ap => v = backing ∧ ap.a_vp = backing
  | .vnopPageout (.vnop v) ap => v = backing ∧ ap.a_vp = backing
  | _ => False

/-- The calls that look for the backing file, where they do not fail. -/
def Succeeds : (o : KernelOp Vnode) → o.Res → Prop
  | .ioMalloc _, addr => addr ≠ none
  | .vnGetpath _, r => r.1 = 0
  | .vnodeLookup .., r => ∃ vn, r = (0, some vn)
  | _, _ => True

/-- A vnode keeps its type, and `ubc_create_upl` gives a upl if it succeeds. -/
def Contract (vtype : Vnode → Vtype) : (o : KernelOp Vnode) → o.Res → Prop
  | .vnodeVtype vn, type => type = vtype vn
  | .ubcCreateUpl .., r => r.1 = 0 → r.2 ≠ none
  | _, _ => True

end KernelOp

/-- The calls of a log, without what they returned. -/
def made (log : CallLog Vnode) : List (KernelOp Vnode) := log.map Sigma.fst

/-- A request for the regular file `vn` that thread `t` is at is to be redirected. Until the
request has asked for the application data, the vnode is associated with `redirectIO` data,
and until it has looked for a mark, its thread has none. -/
structure ToRedirect [DecidableEq Thread] [DecidableEq Vnode] (vtype : Vnode → Vtype) (t : Thread)
    (vn : Vnode) (s : RedirectHooks Thread Vnode)
    (v : Invocation (@KernelOp.Res Vnode) (Request Vnode) Int) : Prop where
  vreg : vtype vn = .vreg
  associated : .getVnodeAppData vn ∉ made v.log →
    (s.shared.map.getVnodeAppData vn).any (·.redirectIo) = true
  notRecursive : .cookieForRecursiveCall ∉ made v.log → s.shared.marks.getDataByKey t = none
  /-- `IsUserClient()` has not been true for the request. -/
  notUserClient : ⟨.isUserClient, true⟩ ∉ v.log

instance [DecidableEq Thread] [DecidableEq Vnode] (vtype : Vnode → Vtype) (t : Thread) (vn : Vnode)
    (s : RedirectHooks Thread Vnode) (v : Invocation (@KernelOp.Res Vnode) (Request Vnode) Int) :
    Decidable (ToRedirect vtype t vn s v) :=
  decidable_of_iff (vtype vn = .vreg ∧ (.getVnodeAppData vn ∉ made v.log →
      (s.shared.map.getVnodeAppData vn).any (·.redirectIo) = true) ∧
      (.cookieForRecursiveCall ∉ made v.log → s.shared.marks.getDataByKey t = none) ∧
      ⟨.isUserClient, true⟩ ∉ v.log)
    ⟨fun h => ⟨h.1, h.2.1, h.2.2.1, h.2.2.2⟩,
      fun h => ⟨h.vreg, h.associated, h.notRecursive, h.notUserClient⟩⟩

/-- The entry in `InstanceForVnodeIO`, or the file at the path that the vnode is redirected to
by what it is associated with. -/
def FoundBacking (log : CallLog Vnode) (vn backing : Vnode) : Prop :=
  ⟨.getVnodeIoRef vn, some backing⟩ ∈ log ∨
    ∃ data path, ⟨.getVnodeAppData vn, some data⟩ ∈ log ∧ ⟨.vnGetpath vn, (0, path)⟩ ∈ log ∧
      ⟨.vnodeLookup (redirected data.redirectTo path) .superUser, (0, some backing)⟩ ∈ log

def AllSucceed (log : CallLog Vnode) : Prop := ∀ call ∈ log, call.1.Succeeds call.2

def ReachesOriginal (vn : Vnode) (log : CallLog Vnode) : Prop :=
  ∃ call ∈ log, call.1.WritesOriginal vn

def ReachesBacking (vn : Vnode) (log : CallLog Vnode) : Prop :=
  ∃ backing, FoundBacking log vn backing ∧ ∃ call ∈ log, call.1.WritesBacking backing

/-- The request has not reached the original file system, and if it is done it has gone to the
backing vnode, or failed. -/
structure KeptFromOriginal (vn : Vnode) (v : Invocation (@KernelOp.Res Vnode) (Request Vnode) Int) :
    Prop where
  original : ¬ ReachesOriginal vn v.log
  done : ∀ error, v.code = .pure error → ReachesBacking vn v.log ∨ error ≠ 0

/-- In every run whose steps meet the guard, every write or pageout that was to be redirected
when it was made is kept from the original file system, in every state from then on. -/
def WritesRedirected [DecidableEq Thread] [DecidableEq Vnode] (vtype : Vnode → Vtype)
    (ok : RedirectHooks Thread Vnode → HooksAction Thread Vnode → Prop) : Prop :=
  ∀ t request vn, request.written = some vn → ∀ stack s v,
    Served (redirectHookSystem Thread Vnode) ok t request (ToRedirect vtype t vn) stack s v →
      KeptFromOriginal vn v

variable {vtype : Vnode → Vtype} {vn : Vnode} {data : ApplicationData} {log : CallLog Vnode}
  {o : KernelOp Vnode} {r : o.Res} {α : Type} {p : Kernel Vnode α}

-- ---------------------------------------------------------------------------
-- The log as it grows
-- ---------------------------------------------------------------------------

/-- All calls succeed if those so far do and the last one does. -/
theorem allSucceed_append : AllSucceed (log ++ [⟨o, r⟩]) ↔ AllSucceed log ∧ o.Succeeds r := by
  rw [AllSucceed, List.forall_mem_append, List.forall_mem_singleton, AllSucceed]

/-- The original is reached before the last call, or by it. -/
theorem reachesOriginal_append :
    ReachesOriginal vn (log ++ [⟨o, r⟩]) ↔ ReachesOriginal vn log ∨ o.WritesOriginal vn := by
  simp [ReachesOriginal, or_and_right, exists_or]

/-- What has been found stays found. -/
theorem FoundBacking.append {backing : Vnode} (h : FoundBacking log vn backing)
    (calls : CallLog Vnode) : FoundBacking (log ++ calls) vn backing := by
  obtain h | ⟨data, path, hdata, hpath, hlookup⟩ := h
  · exact Or.inl (List.mem_append_left _ h)
  · exact Or.inr ⟨data, path, List.mem_append_left _ hdata, List.mem_append_left _ hpath,
      List.mem_append_left _ hlookup⟩

/-- What has been written stays written. -/
theorem ReachesBacking.append (h : ReachesBacking vn log) (calls : CallLog Vnode) :
    ReachesBacking vn (log ++ calls) := by
  obtain ⟨backing, hbacking, call, hcall, hwrites⟩ := h
  exact ⟨backing, hbacking.append calls, call, List.mem_append_left _ hcall, hwrites⟩

/-- What comes back in a request that is to be redirected. -/
def KernelOp.Answers (vn : Vnode) (log : CallLog Vnode) : (o : KernelOp Vnode) → o.Res → Prop
  | .getVnodeAppData v, r =>
    v = vn → .getVnodeAppData vn ∉ made log → r.any (·.redirectIo) = true
  | .cookieForRecursiveCall, r => .cookieForRecursiveCall ∉ made log → r = none
  | .isUserClient, r => r = false
  | .vnodeVtype v, type => v = vn → type = .vreg
  | .ubcCreateUpl .., r => r.1 = 0 → r.2 ≠ none
  | _, _ => True

/-- As long as no call has failed, the original is not called. -/
def Safe (vn : Vnode) (log : CallLog Vnode) : Prop := AllSucceed log → ¬ ReachesOriginal vn log

/-- Code of a write or pageout on `vn` that is to be redirected, from `log` on. -/
abbrev Writes (vn : Vnode) (p : Kernel Vnode α) (Q : α → CallLog Vnode → Prop)
    (log : CallLog Vnode) : Prop :=
  p.Always (fun log _ => Safe vn log) (fun log o r => o.Answers vn log r) Q log

-- ---------------------------------------------------------------------------
-- The search for the backing vnode
-- ---------------------------------------------------------------------------

/-- The search goes on: `data` is what the vnode is associated with. -/
structure Searching (vn : Vnode) (data : ApplicationData) (log : CallLog Vnode) : Prop where
  succeed : AllSucceed log
  original : ¬ ReachesOriginal vn log
  appData : ⟨.getVnodeAppData vn, some data⟩ ∈ log

/-- The search has failed. -/
structure Failed (vn : Vnode) (log : CallLog Vnode) : Prop where
  failed : ¬ AllSucceed log
  original : ¬ ReachesOriginal vn log

/-- Calls that are no part of the search. -/
def KernelOp.Aside : KernelOp Vnode → Prop
  | .ioMalloc _ | .vnGetpath _ | .vnodeLookup .. | .vnopWrite (.original _) _ |
    .vnopPageout (.original _) _ => False
  | _ => True

theorem KernelOp.Caching.aside (h : o.Caching) : o.Aside := by
  cases o <;> trivial

/-- Only the search can fail. -/
theorem KernelOp.Aside.succeeds (h : o.Aside) (r : o.Res) : o.Succeeds r := by
  cases o <;> trivial

/-- A call that is no part of the search does not reach the original. -/
theorem KernelOp.Aside.original (h : o.Aside) : ¬ o.WritesOriginal vn := by
  cases o with
  | vnopWrite implementation ap =>
    cases implementation with
    | original v => exact h.elim
    | vnop v => exact id
  | vnopPageout implementation ap =>
    cases implementation with
    | original v => exact h.elim
    | vnop v => exact id
  | _ => exact id

/-- A call that succeeds keeps the search going. -/
theorem Searching.append (h : Searching vn data log) (hsucceeds : o.Succeeds r)
    (horiginal : ¬ o.WritesOriginal vn) : Searching vn data (log ++ [⟨o, r⟩]) := by
  refine ⟨allSucceed_append.mpr ⟨h.succeed, hsucceeds⟩, ?_, List.mem_append_left _ h.appData⟩
  rw [reachesOriginal_append, not_or]
  exact ⟨h.original, horiginal⟩

/-- A call that is no part of the search keeps it going, whatever it returns. -/
theorem Searching.aside (h : Searching vn data log) (ho : o.Aside) (r : o.Res) :
    Searching vn data (log ++ [⟨o, r⟩]) :=
  h.append (ho.succeeds r) ho.original

/-- A call that fails ends the search. -/
theorem Searching.fail (h : Searching vn data log) (hfails : ¬ o.Succeeds r)
    (horiginal : ¬ o.WritesOriginal vn) : Failed vn (log ++ [⟨o, r⟩]) := by
  refine ⟨fun hall => hfails (allSucceed_append.mp hall).2, ?_⟩
  rw [reachesOriginal_append, not_or]
  exact ⟨h.original, horiginal⟩

/-- A failed search stays failed while the original is not called. -/
theorem Failed.append (h : Failed vn log) (horiginal : ¬ o.WritesOriginal vn) (r : o.Res) :
    Failed vn (log ++ [⟨o, r⟩]) := by
  refine ⟨fun hall => h.failed (allSucceed_append.mp hall).1, ?_⟩
  rw [reachesOriginal_append, not_or]
  exact ⟨h.original, horiginal⟩

/-- As long as the original is not reached there is nothing to show. -/
theorem safe_of_original (h : ¬ ReachesOriginal vn log) : Safe vn log := fun _ => h

/-- Once the search has failed, code that does not call the original leaves it at that. -/
theorem writes_failed (hp : p.Calls fun o => ¬ o.WritesOriginal vn) (h : Failed vn log) :
    Writes vn p (fun _ => Failed vn) log :=
  Always.calls hp h (fun _ _ _ h => safe_of_original h.original) fun _ _ r ho h _ => h.append ho r

/-- Code that is no part of the search leaves it going. -/
theorem writes_searching (hp : p.Calls KernelOp.Aside) (h : Searching vn data log) :
    Writes vn p (fun _ => Searching vn data) log :=
  Always.calls hp h (fun _ _ _ h => safe_of_original h.original) fun _ _ r ho h _ => h.aside ho r

/-- What is found does not get lost. -/
theorem writes_found {backing : Vnode} (hp : p.Calls KernelOp.Aside) (h : Searching vn data log)
    (hbacking : FoundBacking log vn backing) :
    Writes vn p (fun _ log => Searching vn data log ∧ FoundBacking log vn backing) log :=
  Always.calls hp ⟨h, hbacking⟩ (fun _ _ _ h => safe_of_original h.1.original)
    fun _ _ r ho h _ => ⟨h.1.aside ho r, h.2.append _⟩

/-- What a search returns, and whether it has failed. -/
def SearchResult (vn : Vnode) (data : ApplicationData) (r : Option Vnode) (log : CallLog Vnode) :
    Prop :=
  (r = none ∧ Failed vn log) ∨
    ∃ backing, r = some backing ∧ Searching vn data log ∧ FoundBacking log vn backing

/-- A search by itself does not reach the original. -/
theorem SearchResult.safe {r : Option Vnode} (h : SearchResult vn data r log) : Safe vn log := by
  obtain ⟨-, h⟩ | ⟨_, -, h, -⟩ := h
  · exact safe_of_original h.original
  · exact safe_of_original h.original

/-- To free a path does not reach the original. -/
theorem noWrite_freePath (path : Option PathBuffer) :
    (freePath path).Calls fun o : KernelOp Vnode => ¬ o.WritesOriginal vn :=
  (light_freePath path).mono fun o ho => by cases o <;> first | exact id | exact ho.elim

/-- To free a path is no part of the search. -/
theorem aside_freePath (path : Option PathBuffer) :
    (freePath path : Kernel Vnode Unit).Calls KernelOp.Aside := by
  cases path with
  | none => exact .pure
  | some path => exact .perform trivial

/-- The path is converted, or there was no memory for it; `call` is one to be remembered. -/
theorem writes_convertToRedirectedPath {call : Σ o : KernelOp Vnode, o.Res}
    (h : Searching vn data log) (hcall : call ∈ log) (file redirectedDir : List UInt8) :
    Writes vn (convertToRedirectedPath file redirectedDir) (fun r log =>
      (r = ((ENOMEM : Int), none) ∧ Failed vn log) ∨ ∃ b : PathBuffer, r = (0, some b) ∧
        b.string = redirected redirectedDir file ∧ Searching vn data log ∧ call ∈ log) log := by
  refine .call (safe_of_original h.original) fun addr _ => ?_
  cases addr with
  | none => exact Or.inl ⟨rfl, h.fail (· rfl) id⟩
  | some addr =>
    exact Or.inr ⟨_, rfl, rfl, h.append (Option.some_ne_none addr) id, List.mem_append_left _ hcall⟩

/-- The lookup finds a vnode, which the log says then, or has failed. -/
theorem writes_vnodeLookup {call : Σ o : KernelOp Vnode, o.Res} (h : Searching vn data log)
    (hcall : call ∈ log) (path : List UInt8) (context : Context) :
    Writes vn (inRecursiveCall .currentThread (vnodeLookup path context)) (fun r log =>
      ((∀ backing, r ≠ (0, some backing)) ∧ Failed vn log) ∨ ∃ backing, r = (0, some backing) ∧
        Searching vn data log ∧ call ∈ log ∧
          ⟨.vnodeLookup path context, (0, some backing)⟩ ∈ log) log := by
  have henter := h.aside (o := .enterRecursiveCall .currentThread) trivial ()
  refine .call (safe_of_original h.original) fun _ _ => ?_
  refine .call (safe_of_original henter.original) fun r _ => ?_
  by_cases hr : ∃ backing, r = (0, some backing)
  · obtain ⟨backing, rfl⟩ := hr
    have hfound := henter.append (o := .vnodeLookup path context) (r := (0, some backing))
      ⟨backing, rfl⟩ id
    refine .call (safe_of_original hfound.original) fun _ _ => Or.inr ⟨backing, rfl, ?_⟩
    exact ⟨hfound.aside (o := .leaveRecursiveCall) trivial (), by simp [hcall], by simp⟩
  · have hfailed := henter.fail (o := .vnodeLookup path context) (r := r) hr id
    refine .call (safe_of_original hfailed.original) fun _ _ => Or.inl ⟨?_, ?_⟩
    · exact fun backing heq => hr ⟨backing, heq⟩
    · exact hfailed.append (o := .leaveRecursiveCall) id ()

/-- From the path of the vnode on. -/
theorem writes_lookupBackingVnode {path : List UInt8} (h : Searching vn data log)
    (hpath : ⟨.vnGetpath vn, (0, path)⟩ ∈ log) :
    Writes vn (lookupBackingVnode vn path data) (SearchResult vn data) log := by
  refine .bind (writes_convertToRedirectedPath h hpath path data.redirectTo) ?_
  rintro _ log (⟨rfl, hfailed⟩ | ⟨b, rfl, hb, h, hpath⟩)
  · exact Or.inl ⟨rfl, hfailed⟩
  · refine .bind (writes_vnodeLookup h hpath b.string .superUser) ?_
    rintro ⟨error, backingVnode⟩ log (⟨hr, hfailed⟩ | ⟨backing, heq, h, hpath, hlookup⟩)
    · dsimp only
      split
      · exact absurd rfl (hr _)
      · refine .bind (writes_failed (noWrite_freePath _) hfailed) fun _ log hfailed => ?_
        exact Or.inl ⟨rfl, hfailed⟩
    · cases heq
      rw [hb] at hlookup
      have hbacking : FoundBacking log vn backing := Or.inr ⟨data, path, h.appData, hpath, hlookup⟩
      refine .mono (Q := fun r log => r = some backing ∧ Searching vn data log ∧
        FoundBacking log vn backing) ?_ fun _ _ h => Or.inr ⟨backing, h⟩
      refine .bind (writes_found (.perform trivial) h hbacking) fun _ log h => ?_
      refine .bind (writes_found (calls_inRecursiveCall trivial trivial
        ((calls_refillCache _ _).mono fun _ => KernelOp.Caching.aside)) h.1 h.2) fun _ log h => ?_
      exact .bind (writes_found (aside_freePath _) h.1 h.2) fun _ log h => ⟨rfl, h⟩

/-- There is no entry: the file is looked for at the redirected path. -/
theorem writes_findBackingVnode (h : Searching vn data log) :
    Writes vn (findBackingVnode vn data) (SearchResult vn data) log := by
  have hfree : ∀ {r : Option Vnode} {log : CallLog Vnode} {addr : Nat},
      SearchResult vn data r log → Writes vn (do
        ioFree addr MAXPATHLEN
        Pure.pure r) (SearchResult vn data) log := by
    rintro r log addr (⟨rfl, hfailed⟩ | ⟨backing, rfl, h, hbacking⟩)
    · refine .bind (writes_failed (.perform id) hfailed) fun _ log hfailed => ?_
      exact Or.inl ⟨rfl, hfailed⟩
    · refine .bind (writes_found (.perform trivial) h hbacking) fun _ log h => ?_
      exact Or.inr ⟨backing, rfl, h⟩
  refine .call (safe_of_original h.original) fun addr _ => ?_
  cases addr with
  | none => exact Or.inl ⟨rfl, h.fail (· rfl) id⟩
  | some vnodePath =>
    have h := h.append (o := .ioMalloc MAXPATHLEN) (r := some vnodePath)
      (Option.some_ne_none vnodePath) id
    refine .call (safe_of_original h.original) fun r _ => ?_
    obtain ⟨error, path⟩ := r
    dsimp only
    split
    · have h := h.append (o := .vnGetpath vn) (r := (0, path)) rfl id
      exact .bind (writes_lookupBackingVnode h (by simp)) fun _ log hr => hfree hr
    · next herror =>
      have hfailed := h.fail (o := .vnGetpath vn) (r := (error, path)) herror id
      exact hfree (Or.inl ⟨rfl, hfailed⟩)

/-- A regular file with `redirectIO` data is looked for. -/
theorem writes_qvrGetBackingVnodeForRedirectedIo (h : Searching vn data log)
    (hio : data.redirectIo = true) :
    Writes vn (qvrGetBackingVnodeForRedirectedIo vn data false) (SearchResult vn data) log := by
  refine .call (safe_of_original h.original) fun type htype => ?_
  obtain rfl : type = .vreg := htype rfl
  have h := h.aside (o := .vnodeVtype vn) trivial .vreg
  split
  · next hnot =>
    obtain hvreg | hfalse := hnot
    · exact absurd rfl hvreg
    · rw [hio] at hfalse
      cases hfalse
  · refine .call (safe_of_original h.original) fun existing _ => ?_
    have h := h.aside (o := .getVnodeIoRef vn) trivial existing
    cases existing with
    | some backing => exact Or.inr ⟨backing, rfl, h, Or.inl (by simp)⟩
    | none => exact writes_findBackingVnode h

/-- The hook asks for the application data, for a mark and for the client, in this order, and
then looks for the backing vnode. -/
theorem writes_backingVnodeForIo (op : HookedOp) :
    Writes vn (backingVnodeForIo op vn) (fun r log => ∃ data, SearchResult vn data r log) [] := by
  refine .call (safe_of_original (by simp [ReachesOriginal])) fun appData happData => ?_
  have happData := happData rfl (by simp [made])
  cases appData with
  | none => cases happData
  | some data =>
    have h : Searching vn data [⟨.getVnodeAppData vn, some data⟩] := by
      refine ⟨?_, ?_, List.mem_singleton_self _⟩
      · simp [AllSucceed, KernelOp.Succeeds]
      · simp [ReachesOriginal, KernelOp.WritesOriginal]
    refine .call (safe_of_original h.original) fun cookie hcookie => ?_
    obtain rfl : cookie = none := hcookie (by simp [made])
    have h := h.aside (o := .cookieForRecursiveCall) trivial none
    refine .call (safe_of_original h.original) fun client hclient => ?_
    obtain rfl : client = false := hclient
    have h := h.aside (o := .isUserClient) trivial false
    refine .call (safe_of_original h.original) fun _ _ => ?_
    have h := h.aside (o := .auditVnode op vn) trivial ()
    exact (writes_qvrGetBackingVnodeForRedirectedIo h happData).mono fun _ _ h => ⟨data, h⟩

-- ---------------------------------------------------------------------------
-- The requests themselves
-- ---------------------------------------------------------------------------

/-- The backing vnode has been written to. -/
def Reached (vn : Vnode) (log : CallLog Vnode) : Prop :=
  (∃ data, Searching vn data log) ∧ ReachesBacking vn log

/-- After the backing vnode was written to, the rest writes nothing. -/
theorem writes_reached (hp : p.Calls KernelOp.Aside) (h : Reached vn log) :
    Writes vn p (fun _ => Reached vn) log := by
  refine Always.calls hp h (fun _ _ _ ⟨⟨_, h⟩, _⟩ => safe_of_original h.original) ?_
  rintro log o r ho ⟨⟨data, h⟩, hreached⟩ -
  exact ⟨⟨data, h.aside ho r⟩, hreached.append _⟩

/-- The operation on the backing vnode. -/
theorem writes_perform {backing : Vnode} (h : Searching vn data log)
    (hbacking : FoundBacking log vn backing) (ho : o.Aside) (hwrites : o.WritesBacking backing) :
    Writes vn (.perform o) (fun _ => Reached vn) log := by
  refine .perform (safe_of_original h.original) fun r _ => ⟨⟨data, h.aside ho r⟩, backing, ?_⟩
  exact ⟨hbacking.append _, ⟨o, r⟩, by simp, hwrites⟩

/-- The operation of the backing vnode in the recursion, with the size that follows it. -/
theorem writes_throughBacking {backing : Vnode} {backingVnop : Kernel Vnode Int}
    (h : Searching vn data log) (hbacking : FoundBacking log vn backing)
    (hvnop : ∀ log, Searching vn data log → FoundBacking log vn backing →
      Writes vn backingVnop (fun _ => Reached vn) log) (context : Context) :
    Writes vn (inRecursiveCall .currentThread
      (thenAdjustSize vn backing context backingVnop)) (fun _ => Reached vn) log := by
  refine .bind (writes_found (.perform trivial) h hbacking) fun _ log h => ?_
  refine .bind (.bind (hvnop log h.1 h.2) fun error log h => ?_)
    fun _ log h => writes_reached (.bind (.perform trivial) fun _ => .pure) h
  refine writes_reached ?_ h
  split
  · exact .bind ((calls_qvrAdjustVnodeSizeByBackingVnode _ _ _).mono
      fun _ => KernelOp.Caching.aside) fun _ => .pure
  · exact .pure

/-- A request that is done: it is kept from the original file, or a call has failed and it is
not. -/
def WriteDone (vn : Vnode) (error : Int) (log : CallLog Vnode) : Prop :=
  (AllSucceed log ∧ ¬ ReachesOriginal vn log ∧ (ReachesBacking vn log ∨ error ≠ 0)) ∨
    (¬ AllSucceed log ∧ ReachesOriginal vn log)

/-- A request that has reached the backing vnode is done, whatever it returns. -/
theorem Reached.writeDone (h : Reached vn log) (error : Int) : WriteDone vn error log := by
  obtain ⟨⟨data, h⟩, hreached⟩ := h
  exact Or.inl ⟨h.succeed, h.original, Or.inl hreached⟩

/-- The original operation, where there is no backing vnode. -/
theorem writeDone_original {error : Int} (hr : SearchResult vn data none log)
    (horiginal : o.WritesOriginal vn) : WriteDone vn error (log ++ [⟨o, r⟩]) := by
  obtain ⟨-, h⟩ | ⟨_, hr, -⟩ := hr
  · refine Or.inr ⟨fun hall => h.failed (allSucceed_append.mp hall).1, ?_⟩
    exact reachesOriginal_append.mpr (Or.inr horiginal)
  · exact absurd hr.symm (Option.some_ne_none _)

/-- A write that is to be redirected is kept from the original file, or its search has failed. -/
theorem writes_qvrVnopWriteHookEx2 (ap : IoArgs Vnode) :
    Writes ap.a_vp (qvrVnopWriteHookEx2 ap) (WriteDone ap.a_vp) [] := by
  refine .bind (writes_backingVnodeForIo .write) ?_
  rintro vnodeIo log ⟨data, hr⟩
  cases vnodeIo with
  | none => exact ⟨hr.safe, fun error _ => writeDone_original hr rfl⟩
  | some vnodeIo =>
    obtain ⟨hr, -⟩ | ⟨backing, hr, h, hbacking⟩ := hr
    · exact absurd hr (Option.some_ne_none _)
    · obtain rfl := Option.some.inj hr
      refine .bind (writes_throughBacking h hbacking (fun log h hbacking => ?_) _)
        fun error log h => ?_
      · exact writes_perform h hbacking trivial ⟨rfl, rfl⟩
      · refine .bind (writes_reached (.perform trivial) h) fun _ log h => ?_
        exact h.writeDone error

/-- A pageout through the backing vnode has reached it, or fails before. -/
def PageoutResult (vn : Vnode) (error : Int) (log : CallLog Vnode) : Prop :=
  Reached vn log ∨ ∃ data, Searching vn data log ∧ error ≠ 0

/-- A pageout through the backing vnode is done. -/
theorem PageoutResult.writeDone {error : Int} (h : PageoutResult vn error log) :
    WriteDone vn error log := by
  obtain h | ⟨data, h, herror⟩ := h
  · exact h.writeDone error
  · exact Or.inl ⟨h.succeed, h.original, Or.inr herror⟩

/-- To abort a UPL is no part of the search. -/
theorem aside_abortIfMustCommit (upl : Option Nat) (apIo : PagingArgs Vnode) :
    (abortIfMustCommit upl apIo).Calls KernelOp.Aside := by
  unfold abortIfMustCommit
  split
  · split
    · exact .perform trivial
    · exact .pure
  · exact .pure

/-- The pages go to the backing vnode that was found. -/
theorem writes_pageoutToBackingVnode {ap apIo : PagingArgs Vnode} {backing : Vnode}
    {upl : Option Nat} (h : Searching ap.a_vp data log)
    (hbacking : FoundBacking log ap.a_vp backing) (hap : apIo.a_vp = backing) :
    Writes ap.a_vp (pageoutToBackingVnode ap apIo backing upl) (PageoutResult ap.a_vp)
      log := by
  refine .bind (writes_throughBacking h hbacking (fun log h hbacking => ?_) _)
    fun error log h => ?_
  · exact writes_perform h hbacking trivial ⟨rfl, hap⟩
  · have habort : ∀ error : Int, Calls KernelOp.Aside (do
        abortIfMustCommit upl apIo
        Pure.pure error) := fun _ => .bind (aside_abortIfMustCommit _ _) fun _ => .pure
    refine (writes_reached ?_ h).mono fun _ _ h => Or.inl h
    dsimp only
    split
    · exact .bind ((calls_writePages _ _ _).mono fun _ => KernelOp.Caching.aside) fun _ => habort _
    · exact habort _

/-- A pageout through the backing vnode reaches it, or fails for want of a UPL. -/
theorem writes_pageoutBacking {ap : PagingArgs Vnode} {backing : Vnode}
    (h : Searching ap.a_vp data log) (hbacking : FoundBacking log ap.a_vp backing) :
    Writes ap.a_vp (pageoutBacking ap backing) (PageoutResult ap.a_vp) log := by
  refine .bind (writes_found (.perform trivial) h hbacking) fun flags log ⟨h, hbacking⟩ => ?_
  dsimp only
  split
  · refine .call (safe_of_original h.original) fun r hupl => ?_
    obtain ⟨error, upl⟩ := r
    have h := h.aside (o := .ubcCreateUpl backing ap.a_f_offset ap.a_size
      [msyncOr ap.a_flags .UBC_PAGEOUT, .RET_ONLY_DIRTY]) trivial (error, upl)
    dsimp only
    split
    · exact writes_pageoutToBackingVnode h (hbacking.append _) rfl
    · next hne =>
      have herror : error ≠ 0 := by
        rintro rfl
        obtain ⟨upl, rfl⟩ := Option.ne_none_iff_exists'.mp (hupl rfl)
        exact hne upl rfl rfl
      refine .bind (writes_searching (aside_abortIfMustCommit _ _) h) fun _ log h => ?_
      exact Or.inr ⟨data, h, herror⟩
  · exact writes_pageoutToBackingVnode h hbacking rfl

/-- A pageout that is to be redirected is kept from the original file as a write is. -/
theorem writes_qvrVnopPageoutHookEx2 (ap : PagingArgs Vnode) :
    Writes ap.a_vp (qvrVnopPageoutHookEx2 ap) (WriteDone ap.a_vp) [] := by
  refine .bind (writes_backingVnodeForIo .write) ?_
  rintro vnodeIo log ⟨data, hr⟩
  cases vnodeIo with
  | none =>
    refine .call ?_ fun error _ => ?_
    · exact hr.safe
    · exact writeDone_original hr rfl
  | some vnodeIo =>
    obtain ⟨hr, -⟩ | ⟨backing, hr, h, hbacking⟩ := hr
    · exact absurd hr (Option.some_ne_none _)
    · obtain rfl := Option.some.inj hr
      refine .bind (writes_pageoutBacking h hbacking) fun error log h => ?_
      obtain h | ⟨data, h, herror⟩ := h
      · refine .bind (writes_reached (.perform trivial) h) fun _ log h => ?_
        exact h.writeDone error
      · refine .bind (writes_searching (.perform trivial) h) fun _ log h => ?_
        exact PageoutResult.writeDone (Or.inr ⟨data, h, herror⟩)

/-- Whatever else its calls return, a write or a pageout that is to be redirected goes to the
backing vnode or fails if the search for the backing vnode does not fail; otherwise it
reaches the original file system. -/
theorem code_written [DecidableEq Vnode] {request : Request Vnode}
    (h : request.written = some vn) : Writes vn request.code (WriteDone vn) [] := by
  have hreturn : ∀ {hook : Kernel Vnode Int} {vnodes : RequestVnodes Vnode},
      Writes vn hook (WriteDone vn) [] →
      Writes vn (do return (← (do return (← hook, vnodes))).1) (WriteDone vn) [] := by
    intro hook vnodes hhook
    have hpair : Writes vn (do return (← hook, vnodes)) (fun r => WriteDone vn r.1) [] :=
      .bind hhook fun _ _ h => h
    exact .bind hpair fun _ _ h => h
  unfold Request.written at h
  split at h
  · obtain rfl := Option.some.inj h
    exact hreturn (writes_qvrVnopWriteHookEx2 _)
  · obtain rfl := Option.some.inj h
    exact hreturn (writes_qvrVnopPageoutHookEx2 _)
  · exact absurd h.symm (Option.some_ne_none _)

-- ---------------------------------------------------------------------------
-- Main result
-- ---------------------------------------------------------------------------

variable [DecidableEq Thread] [DecidableEq Vnode]

/-- Calls return what the kernel promises. -/
def Contracts (vtype : Vnode → Vtype) (s : RedirectHooks Thread Vnode)
    (a : HooksAction Thread Vnode) : Prop :=
  ∀ call ∈ s.returned Shared.effect a, call.2.1.Contract vtype call.2.2

/-- In a write or a pageout no call that looks for the backing file fails. -/
def SearchesSucceed (s : RedirectHooks Thread Vnode) (a : HooksAction Thread Vnode) : Prop :=
  ∀ call ∈ s.returned Shared.effect a, call.1.written ≠ none → call.2.1.Succeeds call.2.2

variable {s s' : RedirectHooks Thread Vnode} {t : Thread} {request : Request Vnode}
  {stack : List (Invocation (@KernelOp.Res Vnode) (Request Vnode) Int)}
  {v v' : Invocation (@KernelOp.Res Vnode) (Request Vnode) Int}
  {ok : RedirectHooks Thread Vnode → HooksAction Thread Vnode → Prop}

/-- What a request that is to be redirected asks, it finds in `VNodeMap` and in the marks. -/
theorem answers_of_toRedirect {c : Outcome Vnode} {k : o.Res → Kernel Vnode Int}
    (hcontracts : Contracts vtype s (.call t c))
    (hs : s.stack t = ⟨request, .call o k, log⟩ :: stack)
    (h : ToRedirect vtype t vn s ⟨request, .call o k, log⟩)
    (h' : ToRedirect vtype t vn s' ⟨request, k (Shared.effect t s.shared o c).2,
      log ++ [⟨o, (Shared.effect t s.shared o c).2⟩]⟩) :
    o.Answers vn log (Shared.effect t s.shared o c).2 := by
  have hcontract := hcontracts _ (Threads.returned_call hs)
  cases o with
  | getVnodeAppData vp =>
    rintro rfl hfirst
    exact h.associated hfirst
  | cookieForRecursiveCall => exact fun hfirst => h.notRecursive hfirst
  | isUserClient =>
    refine Bool.eq_false_iff.mpr fun htrue => h'.notUserClient ?_
    rw [← htrue]
    exact List.mem_append_right _ (List.mem_singleton_self _)
  | vnodeVtype vp =>
    rintro rfl
    exact hcontract.trans h.vreg
  | ubcCreateUpl vp offset size flags => exact hcontract
  | _ => trivial

/-- In a run, a write or pageout that was to be redirected does what its code does on its own. -/
theorem written_of_served (hok : ∀ s a, ok s a → Contracts vtype s a)
    (hwritten : request.written = some vn)
    (h : Served (redirectHookSystem Thread Vnode) ok t request (ToRedirect vtype t vn) stack s v) :
    Writes vn v.code (WriteDone vn) v.log := by
  refine (h.always (code_written hwritten) ?_).2
  exact fun s s' c o k log hcall hs hP hP' => answers_of_toRedirect (hok s _ hcall) hs hP hP'

/-- In a run in which the searches succeed, those of a write or pageout have. -/
theorem allSucceed_of_served (hok : ∀ s a, ok s a → SearchesSucceed s a)
    (hwritten : request.written = some vn)
    (h : Served (redirectHookSystem Thread Vnode) ok t request (ToRedirect vtype t vn) stack s v) :
    AllSucceed v.log := by
  have hcode : request.code.Always (fun log _ => AllSucceed log) (fun _ o r => o.Succeeds r)
      (fun _ => AllSucceed) [] := by
    refine Always.calls (Calls.trivial _) (by simp [AllSucceed]) (fun _ _ _ h => h) ?_
    exact fun _ _ _ _ h hr => allSucceed_append.mpr ⟨h, hr⟩
  have hne : request.written ≠ none := hwritten ▸ Option.some_ne_none vn
  have halways := (h.always hcode fun s s' c o k log hcall hs _ _ =>
    hok s _ hcall _ (Threads.returned_call hs) hne).2
  exact halways.now (fun _ h => h) fun _ h => h

/-- In every run, a write or pageout that was to be redirected and is done was kept from the
original file system if and only if its search for the backing vnode has not failed. -/
theorem write_done_iff (hwritten : request.written = some vn)
    (h : Served (redirectHookSystem Thread Vnode) (Contracts vtype) t request
      (ToRedirect vtype t vn) stack s v) {error : Int} (hdone : v.code = .pure error) :
    KeptFromOriginal vn v ↔ AllSucceed v.log := by
  have hwrites := written_of_served (fun _ _ h => h) hwritten h
  rw [hdone] at hwrites
  obtain ⟨hall, horiginal, hbacking⟩ | ⟨hfailed, horiginal⟩ := hwrites
  · refine iff_of_true ⟨horiginal, fun error' hdone' => ?_⟩ hall
    obtain rfl : error = error' := Prog.pure.inj (hdone.symm.trans hdone')
    exact hbacking
  · exact iff_of_false (fun h => h.original horiginal) hfailed

/-- In every run in which the searches for backing vnodes do not fail, no write or pageout
on a redirected file reaches the original file system, whatever other calls return and
whatever entries of `VNodeMap` are removed. -/
theorem writes_redirected : WritesRedirected vtype
    (fun (s : RedirectHooks Thread Vnode) a => Contracts vtype s a ∧ SearchesSucceed s a) := by
  intro t request vn hwritten stack s v h
  have hwrites := written_of_served (fun _ _ h => h.1) hwritten h
  have hall := allSucceed_of_served (fun _ _ h => h.2) hwritten h
  refine ⟨?_, fun error hdone => ?_⟩
  · refine hwrites.now (I := fun log => ¬ ReachesOriginal vn log) (fun _ hsafe => hsafe hall) ?_
    exact fun error h => (h.resolve_right fun h => h.1 hall).2.1
  · rw [hdone] at hwrites
    exact (hwrites.resolve_right fun h => h.1 hall).2.2

-- ---------------------------------------------------------------------------
-- A write after the client has closed
-- ---------------------------------------------------------------------------

/-- The application creates `/d/a` and gets the shadow vnode 4, and the client closes. -/
def clientClosed : List (HooksAction Nat Nat) :=
  .start 0 createRequest :: List.replicate 39 (.call 0 (answerAll 0)) ++
    [.finish 0, .other .releaseVnodeIo]

def writeRequest : Request Nat := .other ⟨none⟩ (.write ⟨4, 0, 0, .caller⟩)

/-- The application writes, and of the request `calls` calls are made. -/
def writeRun (getpath : Int) (calls : Nat) : List (HooksAction Nat Nat) :=
  .start 0 writeRequest :: List.replicate calls (.call 0 (answerAll getpath))

/-- The answers are those of a kernel in which every vnode is a regular file. -/
theorem contract_answerAll (shared : Shared Nat Nat) (o : KernelOp Nat) (getpath : Int) :
    o.Contract (fun _ => .vreg) (Shared.effect 0 shared o (answerAll getpath)).2 := by
  cases o with
  | ubcCreateUpl vp offset size flags => exact fun _ => Option.some_ne_none 1
  | vnodeVtype vp => rfl
  | _ => trivial

/-- No search fails that gets these answers. -/
theorem succeeds_answerAll (shared : Shared Nat Nat) (o : KernelOp Nat) :
    o.Succeeds (Shared.effect 0 shared o (answerAll 0)).2 := by
  cases o with
  | ioMalloc size => exact Option.some_ne_none 0
  | vnGetpath vp => rfl
  | vnodeLookup path context => exact ⟨5, rfl⟩
  | _ => trivial

/-- In the run up to the close all calls are answered in one way. -/
theorem answer_clientClosed {t : Nat} {c : Outcome Nat} (h : .call t c ∈ clientClosed) :
    t = 0 ∧ c = answerAll 0 := by
  simpa [clientClosed] using h

/-- In the run with the write all calls are answered in one way. -/
theorem answer_writeRun {getpath : Int} {calls t : Nat} {c : Outcome Nat}
    (h : .call t c ∈ writeRun getpath calls) : t = 0 ∧ c = answerAll getpath := by
  simp only [writeRun, List.mem_cons, List.mem_replicate, ThreadAction.call.injEq, reduceCtorEq,
    false_or] at h
  exact h.2

/-- A run with these answers meets the contracts. -/
theorem contracts_of_answers {as : List (HooksAction Nat Nat)} {getpath : Int}
    (has : ∀ t c, .call t c ∈ as → t = 0 ∧ c = answerAll getpath) :
    ∀ a ∈ as, ∀ s, Contracts (fun _ => .vreg) s a := by
  intro a ha s call hcall
  obtain ⟨t, c, request, o, rfl, rfl⟩ := Threads.mem_returned hcall
  obtain ⟨rfl, rfl⟩ := has t c ha
  exact contract_answerAll s.shared o getpath

/-- In a run with these answers in which the path is given no search fails. -/
theorem succeed_of_answers {as : List (HooksAction Nat Nat)}
    (has : ∀ t c, .call t c ∈ as → t = 0 ∧ c = answerAll 0) :
    ∀ a ∈ as, ∀ s, SearchesSucceed s a := by
  intro a ha s call hcall _
  obtain ⟨t, c, request, o, rfl, rfl⟩ := Threads.mem_returned hcall
  obtain ⟨rfl, rfl⟩ := has t c ha
  exact succeeds_answerAll s.shared o

/-- The write is to be redirected, and stays so as long as the check says. -/
theorem served_writeRun (ok : RedirectHooks Nat Nat → HooksAction Nat Nat → Prop) (getpath : Int)
    (calls : Nat) (check : Invocation (@KernelOp.Res Nat) (Request Nat) Int → Bool)
    (hclosed : ∀ a ∈ clientClosed, ∀ s, ok s a)
    (hwrite : ∀ a ∈ writeRun getpath calls, ∀ s, ok s a)
    (hrun : (exec (redirectHookSystem Nat Nat) unloaded clientClosed).any (fun s =>
      (s.stack 0).isEmpty &&
        keeps (redirectHookSystem Nat Nat) 0 (ToRedirect (fun _ => .vreg) 0 4) s
          (writeRun getpath calls) &&
        (exec (redirectHookSystem Nat Nat) s (writeRun getpath calls)).any fun s' =>
          (s'.stack 0).getLast?.any check) = true) :
    ∃ s v, Served (redirectHookSystem Nat Nat) ok 0 writeRequest
      (ToRedirect (fun _ => .vreg) 0 4) [] s v ∧ check v = true := by
  obtain ⟨s, hs, hall⟩ := (Option.any_eq_true _ _).mp hrun
  rw [Bool.and_eq_true, Bool.and_eq_true, List.isEmpty_iff] at hall
  obtain ⟨⟨hidle, hkeeps⟩, hend⟩ := hall
  obtain ⟨s', hs', hlast⟩ := (Option.any_eq_true _ _).mp hend
  obtain ⟨v, hv, hcheck⟩ := (Option.any_eq_true _ _).mp hlast
  obtain ⟨v', hserved, hv'⟩ := Served.run (reachable_unloaded.execAll _ hclosed hs) hidle _ hwrite
    hkeeps hs'
  obtain rfl : v = v' := Option.some.inj (hv.symm.trans hv')
  exact ⟨s', v, hserved, hcheck⟩

/-- `vn_getpath` fails for the shadow vnode, and the write goes to the shadow file. -/
theorem write_not_redirected : ¬ WritesRedirected (fun _ => .vreg)
    (Contracts (fun _ => .vreg) : RedirectHooks Nat Nat → HooksAction Nat Nat → Prop) := by
  intro h
  obtain ⟨s, v, hserved, hcheck⟩ := served_writeRun _ ENOENT 10
    (fun v => decide (⟨.vnopWrite (.original 4) ⟨4, 0, 0, .caller⟩, (0 : Int)⟩ ∈ v.log))
    (contracts_of_answers fun _ _ => answer_clientClosed)
    (contracts_of_answers fun _ _ => answer_writeRun) (by decide +kernel)
  exact (h 0 writeRequest 4 rfl [] s v hserved).original ⟨_, of_decide_eq_true hcheck, rfl⟩

/-- The backing file is found anew, and is what is written to. -/
theorem write_redirected : ∃ (s : RedirectHooks Nat Nat) (v : _),
    Served (redirectHookSystem Nat Nat)
      (fun s a => Contracts (fun _ => .vreg) s a ∧ SearchesSucceed s a) 0 writeRequest
      (ToRedirect (fun _ => .vreg) 0 4) [] s v ∧
    v.code = .pure 0 ∧ KeptFromOriginal 4 v := by
  obtain ⟨s, v, hserved, hcheck⟩ := served_writeRun
    (fun s a => Contracts (fun _ => .vreg) s a ∧ SearchesSucceed s a) 0 26
    (fun v => decide (v.code.result = some 0))
    (fun a ha s => ⟨contracts_of_answers (fun _ _ => answer_clientClosed) a ha s,
      succeed_of_answers (fun _ _ => answer_clientClosed) a ha s⟩)
    (fun a ha s => ⟨contracts_of_answers (fun _ _ => answer_writeRun) a ha s,
      succeed_of_answers (fun _ _ => answer_writeRun) a ha s⟩) (by decide +kernel)
  refine ⟨s, v, hserved, Prog.result_eq_some.mp (of_decide_eq_true hcheck), ?_⟩
  exact writes_redirected 0 writeRequest 4 rfl [] s v hserved

end VfsRedirector
