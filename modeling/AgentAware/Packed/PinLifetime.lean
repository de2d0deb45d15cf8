import AgentAware.Packed.PageCache

/-!
# The lifetime of the pins of a query

A query pins the page of every node it expands. `finish_query` gives the pins back, at the end of
the search or, after an exception, from the destructor of the session. Before it does, it harvests
the outstanding reads and appends the prefetch trace to a file, and both may throw.

## Main definitions

- `QueryPageSession` — what a query holds of the index, and its trace
- `QueryPageSession.finishQuery` — the end of a query
- `searchOne` — a search, its end and the destructor, with what throws on the way

## Main results

- `pins_restored_iff` — the pins are given back unless the trace file cannot be written
-/

namespace Packed

/-- A decision of the prefetch planner, kept for the trace. -/
structure PrefetchTraceRecord where
  step_id : ℕ
  trigger : String
  page_id : PageId
  deriving DecidableEq

structure QueryPageSession (α D : Type) where
  index : PageCache α D
  prefetch_trace_path : String := ""
  prefetch_trace_records : List PrefetchTraceRecord := []
  pinned_pages : List PageId := []
  finished : Bool := false

/-- What the calls that `finish_query` makes throw, none when they return. -/
structure FinishOutcome where
  /-- `harvest_prefetch`: reaping or decoding an outstanding read. -/
  harvest_error : Option String := none
  /-- Creating the directory of the trace, sizing or opening its file. -/
  trace_error : Option String := none

variable {α D : Type}

namespace QueryPageSession

def pinPage (session : QueryPageSession α D) (page_id : PageId) : Bool × QueryPageSession α D :=
  if page_id ∈ session.pinned_pages then (false, session)
  else
    let pinned := session.index.pinIfCached page_id
    if pinned.1 then
      (true, { session with
        index := pinned.2
        pinned_pages := page_id :: session.pinned_pages })
    else (false, session)

def unpinEach (index : PageCache α D) : List PageId → Option String × PageCache α D
  | [] => (none, index)
  | page_id :: page_ids =>
    match index.unpinIfCached page_id with
    | .error error => (some error, index)
    | .ok index => unpinEach index page_ids

def unpinAll (session : QueryPageSession α D) : Option String × QueryPageSession α D :=
  match unpinEach session.index session.pinned_pages with
  | (some error, index) => (some error, { session with index := index })
  | (none, index) => (none, { session with index := index, pinned_pages := [] })

def recordPrefetchPlan (session : QueryPageSession α D) (trigger : String) (step_id : ℕ)
    (candidates : List PageId) : QueryPageSession α D :=
  if session.prefetch_trace_path = "" ∨ candidates = [] then session
  else
    { session with
      prefetch_trace_records := session.prefetch_trace_records ++
        candidates.map fun page_id => ⟨step_id, trigger, page_id⟩ }

/-- What `write_prefetch_trace` throws. Without a path or records it does not touch the file. -/
def writePrefetchTrace (session : QueryPageSession α D) (outcome : FinishOutcome) :
    Option String :=
  if session.prefetch_trace_path = "" ∨ session.prefetch_trace_records = [] then none
  else outcome.trace_error

/-- The error thrown, and the session left. -/
def finishQuery (session : QueryPageSession α D) (outcome : FinishOutcome) :
    Option String × QueryPageSession α D :=
  if session.finished then (none, session)
  else
    match outcome.harvest_error with
    | some error =>
      -- The handler: the pins are given back and the exception is thrown again.
      match session.unpinAll with
      | (some underflow, session) => (some underflow, session)
      | (none, session) => (some error, { session with finished := true })
    | none =>
      match session.writePrefetchTrace outcome with
      | some error => (some error, session)
      | none =>
        match session.unpinAll with
        | (some underflow, session) => (some underflow, session)
        | (none, session) => (none, { session with finished := true })

end QueryPageSession

/-- What a search asks of the cache and of its session, one call after the other. -/
inductive SessionCall (α : Type)
  | lookup (page_id : PageId)
  | store (page : DecodedPage α)
  | pin (page_id : PageId)
  | recordPlan (trigger : String) (step_id : ℕ) (candidates : List PageId)

/-- A run of `search_one`: its calls up to the end of the search or up to what throws there (a read,
a decoder, a distance, the planner), and the outcome of the end of the query, in `finalize_topk` and
in the destructor of the session. -/
structure Search (α : Type) where
  calls : List (SessionCall α)
  thrown : Option String := none
  finalized : FinishOutcome := {}
  destroyed : FinishOutcome := {}

section Search

variable [LT D] [DecidableLT D] [DecidableEq D]

def QueryPageSession.call (session : QueryPageSession α D) : SessionCall α → QueryPageSession α D
  | .lookup page_id => { session with index := (session.index.lookupCachedPage page_id).2 }
  | .store page => { session with index := session.index.storeCachedPage page }
  | .pin page_id => (session.pinPage page_id).2
  | .recordPlan trigger step_id candidates => session.recordPrefetchPlan trigger step_id candidates

/-- The session when the search loop is left. -/
def sessionAfter (index : PageCache α D) (prefetch_trace_path : String)
    (calls : List (SessionCall α)) : QueryPageSession α D :=
  calls.foldl QueryPageSession.call { index := index, prefetch_trace_path := prefetch_trace_path }

/-- What `search_one` throws, and the cache it leaves. The destructor swallows what is thrown in
it. -/
def searchOne (index : PageCache α D) (prefetch_trace_path : String) (search : Search α) :
    Option String × PageCache α D :=
  let session := sessionAfter index prefetch_trace_path search.calls
  match search.thrown with
  | some error => (some error, (session.finishQuery search.destroyed).2.index)
  | none =>
    let finalized := session.finishQuery search.finalized
    (finalized.1, (finalized.2.finishQuery search.destroyed).2.index)

end Search

/-- While a query runs, its pins are the only ones added to those it found. -/
structure Pinned (before : PageCache α D) (session : QueryPageSession α D) : Prop where
  keyed : session.index.Keyed
  nodup : session.pinned_pages.Nodup
  pins : ∀ page_id, session.index.pinCount page_id =
    before.pinCount page_id + if page_id ∈ session.pinned_pages then 1 else 0

section Steps

variable {before : PageCache α D} {session : QueryPageSession α D}

/-- Only the index and the pinned pages matter. -/
theorem Pinned.congr (h : Pinned before session) {other : QueryPageSession α D}
    (hindex : other.index = session.index) (hpinned : other.pinned_pages = session.pinned_pages) :
    Pinned before other :=
  ⟨hindex ▸ h.keyed, hpinned ▸ h.nodup, by rw [hindex, hpinned]; exact h.pins⟩

/-- A call on the cache that changes no pin count. -/
theorem Pinned.withIndex (h : Pinned before session) {index : PageCache α D} (hindex : index.Keyed)
    (hpins : ∀ page_id, index.pinCount page_id = session.index.pinCount page_id) :
    Pinned before { session with index := index } :=
  ⟨hindex, h.nodup, fun page_id => (hpins page_id).trans (h.pins page_id)⟩

theorem pinned_pinPage (h : Pinned before session) (page_id : PageId) :
    Pinned before (session.pinPage page_id).2 := by
  rw [QueryPageSession.pinPage]
  split
  · exact h
  · next hfresh =>
    dsimp only
    split
    · next hpinned =>
      refine ⟨keyed_pin h.keyed, List.nodup_cons.mpr ⟨hfresh, h.nodup⟩, fun other => ?_⟩
      change ((session.index.pinIfCached page_id).2).pinCount other = _
      rw [pinCount_pin, h.pins]
      by_cases hother : other = page_id
      · subst hother
        simp [hpinned, hfresh]
      · simp [hother]
    · exact h

theorem pinned_call [LT D] [DecidableLT D] [DecidableEq D] (h : Pinned before session)
    (call : SessionCall α) : Pinned before (session.call call) := by
  cases call with
  | lookup page_id => exact h.withIndex (keyed_lookup h.keyed) pinCount_lookup
  | store page =>
    obtain ⟨hkeyed, hpins⟩ := pinCount_store h.keyed page
    exact h.withIndex hkeyed hpins
  | pin page_id => exact pinned_pinPage h page_id
  | recordPlan trigger step_id candidates =>
    rw [QueryPageSession.call, QueryPageSession.recordPrefetchPlan]
    split
    · exact h
    · exact h.congr rfl rfl

/-- Whatever a search calls, its session keeps account of its pins. -/
theorem pinned_sessionAfter [LT D] [DecidableLT D] [DecidableEq D] (hbefore : before.Keyed)
    (prefetch_trace_path : String) (calls : List (SessionCall α)) :
    Pinned before (sessionAfter before prefetch_trace_path calls) := by
  have hrun : ∀ session : QueryPageSession α D, Pinned before session →
      Pinned before (calls.foldl QueryPageSession.call session) := by
    induction calls with
    | nil => exact fun session h => h
    | cons call calls ih => exact fun session h => ih _ (pinned_call h call)
  exact hrun _ ⟨hbefore, List.nodup_nil, fun page_id => by simp⟩

theorem unpinEach_spec {page_ids : List PageId} {index : PageCache α D} (hindex : index.Keyed)
    (hnodup : page_ids.Nodup) (hpins : ∀ page_id, index.pinCount page_id =
      before.pinCount page_id + if page_id ∈ page_ids then 1 else 0) :
    ∃ next, QueryPageSession.unpinEach index page_ids = (none, next) ∧
      ∀ page_id, next.pinCount page_id = before.pinCount page_id := by
  induction page_ids generalizing index with
  | nil => exact ⟨index, rfl, fun page_id => by simpa using hpins page_id⟩
  | cons page_id page_ids ih =>
    obtain ⟨hfresh, hnodup⟩ := List.nodup_cons.mp hnodup
    have hpositive : 0 < index.pinCount page_id := by
      rw [hpins, if_pos List.mem_cons_self]
      exact Nat.succ_pos _
    obtain ⟨next, hnext, hkeyed, hcount⟩ := unpin_eq_ok hpositive hindex
    rw [QueryPageSession.unpinEach, hnext]
    refine ih hkeyed hnodup fun other => ?_
    rw [hcount, hpins]
    by_cases hother : other = page_id
    · subst hother
      simp [hfresh]
    · simp [hother]

/-- No underflow: `unpin_all` returns, and every count is what it was before the query. -/
theorem unpinAll_spec (h : Pinned before session) :
    ∃ next, session.unpinAll =
        (none, { session with index := next, pinned_pages := [] }) ∧
      ∀ page_id, next.pinCount page_id = before.pinCount page_id := by
  obtain ⟨next, hnext, hpins⟩ := unpinEach_spec h.keyed h.nodup h.pins
  refine ⟨next, ?_, hpins⟩
  rw [QueryPageSession.unpinAll, hnext]

end Steps

/-- The end of the query gets as far as `unpin_all`. -/
def QueryPageSession.Unpins (session : QueryPageSession α D) (outcome : FinishOutcome) : Prop :=
  outcome.harvest_error ≠ none ∨ session.prefetch_trace_path = "" ∨
    session.prefetch_trace_records = [] ∨ outcome.trace_error = none

section Finish

variable {before : PageCache α D} {session : QueryPageSession α D} {outcome : FinishOutcome}

theorem finishQuery_of_unpins (h : Pinned before session) (hfinished : session.finished = false)
    (hunpins : session.Unpins outcome) :
    (session.finishQuery outcome).2.finished = true ∧
      ∀ page_id, (session.finishQuery outcome).2.index.pinCount page_id =
        before.pinCount page_id := by
  obtain ⟨next, hnext, hpins⟩ := unpinAll_spec h
  rw [QueryPageSession.finishQuery, hfinished]
  cases hharvest : outcome.harvest_error with
  | some error => simpa [hnext] using hpins
  | none =>
    have htrace : session.writePrefetchTrace outcome = none := by
      rw [QueryPageSession.writePrefetchTrace]
      rcases hunpins with hne | hpath | hrecords | hnone
      · exact absurd hharvest hne
      · rw [if_pos (Or.inl hpath)]
      · rw [if_pos (Or.inr hrecords)]
      · rw [hnone, ite_self]
    simpa [htrace, hnext] using hpins

/-- When the trace cannot be written the session is left as it is, with its pins. -/
theorem finishQuery_of_not_unpins (hfinished : session.finished = false)
    (hunpins : ¬ session.Unpins outcome) : (session.finishQuery outcome).2 = session := by
  rw [QueryPageSession.Unpins, not_or, not_or, not_or, not_not] at hunpins
  obtain ⟨hharvest, hpath, hrecords, htrace⟩ := hunpins
  obtain ⟨error, herror⟩ := Option.ne_none_iff_exists'.mp htrace
  have hwrite : session.writePrefetchTrace outcome = some error := by
    rw [QueryPageSession.writePrefetchTrace, if_neg (not_or.mpr ⟨hpath, hrecords⟩), herror]
  simp [QueryPageSession.finishQuery, hfinished, hharvest, hwrite]

theorem finishQuery_finished (hfinished : session.finished = true) :
    (session.finishQuery outcome).2 = session := by
  rw [QueryPageSession.finishQuery, if_pos hfinished]

/-- A session that pinned no page leaves the counts alone, whatever its end does. -/
theorem finishQuery_unpinned (h : Pinned before session) (hnone : session.pinned_pages = []) :
    Pinned before (session.finishQuery outcome).2 ∧
      (session.finishQuery outcome).2.pinned_pages = [] := by
  have hunpin : session.unpinAll = (none, session) := by
    rw [QueryPageSession.unpinAll, hnone, QueryPageSession.unpinEach]
    cases session
    simp_all
  rw [QueryPageSession.finishQuery]
  split
  · exact ⟨h, hnone⟩
  · split
    · rw [hunpin]
      exact ⟨h.congr rfl rfl, hnone⟩
    · split
      · exact ⟨h, hnone⟩
      · rw [hunpin]
        exact ⟨h.congr rfl rfl, hnone⟩

end Finish

section Search

variable [LT D] [DecidableLT D] [DecidableEq D]

theorem sessionAfter_finished (index : PageCache α D) (prefetch_trace_path : String)
    (calls : List (SessionCall α)) :
    (sessionAfter index prefetch_trace_path calls).finished = false := by
  have hrun : ∀ session : QueryPageSession α D, session.finished = false →
      (calls.foldl QueryPageSession.call session).finished = false := by
    induction calls with
    | nil => exact fun session h => h
    | cons call calls ih =>
      refine fun session h => ih _ ?_
      cases call with
      | lookup page_id => exact h
      | store page => exact h
      | pin page_id =>
        rw [QueryPageSession.call, QueryPageSession.pinPage]
        dsimp only
        split_ifs <;> exact h
      | recordPlan trigger step_id candidates =>
        rw [QueryPageSession.call, QueryPageSession.recordPrefetchPlan]
        split_ifs <;> exact h
  exact hrun _ rfl

/-- For every cache, every search and everything that may throw: after `search_one` every pin count
is what it was, exactly when the search pinned no page or one end of the query, in `finalize_topk`
or in the destructor, gets past the trace file. -/
theorem pins_restored_iff (index : { cache : PageCache α D // cache.Keyed })
    (prefetch_trace_path : String) (search : Search α) :
    (∀ page_id, (searchOne index.1 prefetch_trace_path search).2.pinCount page_id =
      index.1.pinCount page_id) ↔
      (sessionAfter index.1 prefetch_trace_path search.calls).pinned_pages = [] ∨
      (sessionAfter index.1 prefetch_trace_path search.calls).Unpins search.destroyed ∨
      search.thrown = none ∧
        (sessionAfter index.1 prefetch_trace_path search.calls).Unpins search.finalized := by
  have hpinned := pinned_sessionAfter index.2 prefetch_trace_path search.calls
  have hfinished := sessionAfter_finished index.1 prefetch_trace_path search.calls
  rw [searchOne]
  dsimp only
  generalize sessionAfter index.1 prefetch_trace_path search.calls = session at *
  have hleak : session.pinned_pages ≠ [] →
      ¬ ∀ page_id, session.index.pinCount page_id = index.1.pinCount page_id := by
    intro hne hall
    obtain ⟨page_id, rest, heq⟩ := List.exists_cons_of_ne_nil hne
    have hpin := hpinned.pins page_id
    rw [hall, heq, if_pos List.mem_cons_self] at hpin
    omega
  have hdestroyed : (∀ page_id, (session.finishQuery search.destroyed).2.index.pinCount page_id =
      index.1.pinCount page_id) ↔
      session.pinned_pages = [] ∨ session.Unpins search.destroyed := by
    by_cases hnone : session.pinned_pages = []
    · have hstay := @finishQuery_unpinned _ _ _ _ search.destroyed hpinned hnone
      obtain ⟨hafter, hstill⟩ := hstay
      refine ⟨fun _ => Or.inl hnone, fun _ page_id => ?_⟩
      rw [hafter.pins, hstill]
      simp
    · by_cases hunpins : session.Unpins search.destroyed
      · exact ⟨fun _ => Or.inr hunpins,
          fun _ => (finishQuery_of_unpins hpinned hfinished hunpins).2⟩
      · rw [finishQuery_of_not_unpins hfinished hunpins]
        exact ⟨fun hall => absurd hall (hleak hnone), fun h => (h.elim hnone hunpins).elim⟩
  cases hthrown : search.thrown with
  | some error => simpa using hdestroyed
  | none =>
    dsimp only
    by_cases hunpins : session.Unpins search.finalized
    · -- `finalize_topk` finishes the query, and the destructor finds it finished.
      obtain ⟨hdone, hpins⟩ := finishQuery_of_unpins hpinned hfinished hunpins
      rw [finishQuery_finished hdone]
      exact ⟨fun _ => Or.inr (Or.inr ⟨rfl, hunpins⟩), fun _ => hpins⟩
    · rw [finishQuery_of_not_unpins hfinished hunpins, hdestroyed]
      simp [hunpins]

end Search

/-- A cached page is pinned, a prefetch is traced, and the trace file cannot be opened, in
`finalize_topk` or later: the search throws and the page keeps its pin. -/
theorem pin_leaked_by_trace :
    let index : PageCache Unit ℕ :=
      { policy := { cache_policy := "lru", cache_capacity_pages := 4,
                    cache_score := fun entry => entry.last_access, page_hot_score := fun _ => 0 } }
    let unwritable : FinishOutcome :=
      { trace_error := some "Cannot write prefetch trace: /proc/trace.csv" }
    let search : Search Unit :=
      { calls := [.lookup 0, .store ⟨0, ()⟩, .pin 0, .recordPlan "neighbor_xgb" 0 [1]]
        finalized := unwritable
        destroyed := unwritable }
    (searchOne index "/proc/trace.csv" search).1 =
        some "Cannot write prefetch trace: /proc/trace.csv" ∧
      index.pinCount 0 = 0 ∧ (searchOne index "/proc/trace.csv" search).2.pinCount 0 = 1 := by
  decide

end Packed
