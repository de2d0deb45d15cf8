import AgentAware.Packed.DemandBuffers

/-!
# The reader over many queries

The reader of an index outlives the queries. Every query keeps its own accounts, so many prefetches
and so many demand reads, and together they fit into the pool of buffers. But a query that ends
forgets the prefetches that are still under way, and the next one counts from zero.

## Main definitions

- `wholeQuery`, `runQueries` — a query with its destructor, and queries one after the other
- `roomAtStart` — every query starts with room for its own accounts

## Main results

- `holds_wholeQuery` — a query that starts with room
- `outstanding_le` — every state of every sequence of queries that start with room
- `pool_exhausted_by_leftovers` — a query that starts without
-/

namespace Packed.PageIo

open Interaction

variable {α D : Type}

section Queries

variable [LT D] [DecidableLT D] [DecidableEq D]

/-- `finish_query` with its handler: when a harvest throws, the pins are released. -/
def finishQueryGuarded : SessionM α D Unit := do
  let session ← get
  if session.finished then pure ()
  else if session.async_prefetch then
    onThrow harvestAll do
      unpinAll
      change fun session => { session with finished := true }
    closeQuery
  else closeQuery

/-- A query with its destructor, which finishes the query when an exception has ended it. -/
def wholeQuery (calls : List SessionCall) : SessionM α D Unit :=
  onThrow
    (do
      forEach call calls
      finishQueryGuarded)
    finishQueryGuarded

/-- A query: its configuration and the calls of its search, what the reader answers and how many
rounds a loop may take. -/
structure Query (α : Type) where
  config : PrefetchConfig
  calls : List SessionCall
  replies : List (Reply α)
  rounds : ℕ

/-- A query on an index and its reader. -/
def Query.exec (query : Query α) (page_count : ℕ) (index : PageCache α D)
    (page_reader : AsyncPageReader α) : Progress (QueryPageSession α D) (Reply α) Unit :=
  (wholeQuery query.calls).run query.rounds
    (QueryPageSession.new index page_reader page_count query.config) query.replies

/-- Where a query leaves the index and the reader. -/
def Query.after (query : Query α) (page_count : ℕ) (index : PageCache α D)
    (page_reader : AsyncPageReader α) : QueryPageSession α D :=
  (query.exec page_count index page_reader).last
    (QueryPageSession.new index page_reader page_count query.config)

/-- The states of queries that run one after the other, whether they return or throw. -/
def runQueries (page_count : ℕ) :
    PageCache α D → AsyncPageReader α → List (Query α) → List (QueryPageSession α D)
  | _, _, [] => []
  | index, page_reader, query :: queries =>
    let run := query.exec page_count index page_reader
    let after := query.after page_count index page_reader
    run.seen ++ if run.ending = .waiting then []
      else runQueries page_count after.index after.page_reader queries

/-- A query has room for its prefetches and its demand reads beside the reads left over. -/
def hasRoom (page_reader : AsyncPageReader α) (config : PrefetchConfig) : Bool :=
  page_reader.async_buffers.length + sessionPrefetchBudget page_reader.status config +
    sessionDemandIoReserve page_reader.status ≤ page_reader.status.depth

/-- Every query of a sequence has room when it starts. -/
def roomAtStart (page_count : ℕ) :
    PageCache α D → AsyncPageReader α → List (Query α) → Bool
  | _, _, [] => true
  | index, page_reader, query :: queries =>
    let run := query.exec page_count index page_reader
    let after := query.after page_count index page_reader
    hasRoom page_reader query.config && (run.ending = .waiting ||
      roomAtStart page_count after.index after.page_reader queries)

end Queries

variable {status : DiskGraphIoStatus} {reserve leftover : ℕ}
  {s t : QueryPageSession α D}

section Whole

variable {enabled : Bool} {budget : ℕ} [LT D] [DecidableLT D] [DecidableEq D]

omit [LT D] [DecidableLT D] [DecidableEq D] in
theorem holds_pinInFlight (h : InFlight status reserve leftover 0 0 s) (p : PageId) :
    Holds (ReaderBound status) (pinPage p)
      (fun _ t => InFlight status reserve leftover 0 0 t) s := by
  have hsame : SameReads s (if p ∈ s.pinned_pages then s
      else if (s.index.pinIfCached p).1 then
        { s with index := (s.index.pinIfCached p).2, pinned_pages := p :: s.pinned_pages }
      else s) := by
    split
    · exact ⟨rfl, rfl, rfl⟩
    · split
      · exact ⟨rfl, rfl, rfl⟩
      · exact ⟨rfl, rfl, rfl⟩
  rw [pinPage, holds_change]
  exact ⟨(h.same hsame).toReaderBound, h.same hsame⟩

/-- Every call of a query that started with room. -/
theorem holds_callInFlight (huring : status.io_uring_enabled = true)
    (hroom : leftover + budget + reserve ≤ status.depth) (hreserve : 0 < reserve)
    (hinv : Inv enabled budget ∅ s) (h : InFlight status reserve leftover 0 0 s)
    (c : SessionCall) :
    Holds (ReaderBound status) (call c)
      (fun _ t => InFlight status reserve leftover 0 0 t) s := by
  cases c with
  | getOrLoadPage page_id =>
    apply holds_bind
    exact (holds_getInFlight huring (by omega) hinv h page_id).mono fun _ t ht =>
      holds_pure.mpr ht
  | ensurePagesLoadedBatch page_ids => exact holds_ensureInFlight huring hroom hinv h page_ids
  | submitPrefetchPlan page_ids =>
    exact holds_submitPlanInFlight huring (by omega) hinv h page_ids
  | drainReadyPages => exact holds_drainInFlight h
  | pinPage page_id => exact holds_pinInFlight h page_id

omit [LT D] [DecidableLT D] [DecidableEq D] in
theorem holds_unpinBound (h : ReaderBound status s) :
    Holds (ReaderBound status) unpinAll (fun _ t => ReaderBound status t) s := by
  apply holds_bind
  rw [holds_act]
  have hunpinned : ReaderBound status { s with
      index := (Packed.QueryPageSession.unpinEach s.index s.pinned_pages).2
      pinned_pages := [] } := h.sub rfl fun _ htoken => htoken
  refine ⟨hunpinned, ?_⟩
  cases (Packed.QueryPageSession.unpinEach s.index s.pinned_pages).1 with
  | none => exact holds_pure.mpr hunpinned
  | some message => exact holds_throw

omit [LT D] [DecidableLT D] [DecidableEq D] in
theorem holds_closeBound (h : ReaderBound status s) :
    Holds (ReaderBound status) closeQuery (fun _ t => ReaderBound status t) s := by
  have hclosed : ReaderBound status (closeAccounts s) :=
    h.sub rfl fun token htoken => absurd htoken (AList.notMem_empty token)
  apply holds_bind
  rw [holds_change]
  refine ⟨hclosed, ?_⟩
  apply holds_bind
  apply holds_mayFail
  apply holds_bind
  refine (holds_unpinBound hclosed).mono fun _ t ht => ?_
  rw [holds_change]
  have hfinished : ReaderBound status { t with finished := true } :=
    ht.sub rfl fun _ htoken => htoken
  exact ⟨hfinished, hfinished⟩

omit [LT D] [DecidableLT D] [DecidableEq D] in
/-- The end of a query starts no read, from whatever state. -/
theorem holds_finishBound (h : ReaderBound status s) :
    Holds (ReaderBound status) finishQueryGuarded (fun _ t => ReaderBound status t) s := by
  apply holds_bind
  rw [holds_get]
  apply holds_ite
  · intro _
    exact holds_pure.mpr h
  · intro _
    apply holds_ite
    · intro _
      apply holds_bind
      have hleft : InFlight status s.demandIoReserve s.page_reader.async_buffers.length 0 0 s :=
        { h with
          reserve_eq := rfl
          accounted := by omega }
      refine (holds_onThrow (holds_harvestAllInFlight hleft) h fun t ht => ?_).mono
        fun _ t ht => holds_closeBound ht.toReaderBound
      apply holds_bind
      refine (holds_unpinBound ht).mono fun _ u hu => ?_
      rw [holds_change]
      exact ⟨hu.sub rfl fun _ htoken => htoken, trivial⟩
    · intro _
      exact holds_closeBound h

/-- A query that starts with room for its prefetches and its demand reads. -/
theorem holds_wholeQuery (huring : status.io_uring_enabled = true)
    (hroom : leftover + budget + reserve ≤ status.depth) (hreserve : 0 < reserve)
    (hinv : Inv enabled budget ∅ s) (h : InFlight status reserve leftover 0 0 s)
    (calls : List SessionCall) :
    Holds (ReaderBound status) (wholeQuery calls) (fun _ t => ReaderBound status t) s := by
  refine holds_onThrow ?_ h.toReaderBound fun t ht =>
    (holds_finishBound ht).mono fun _ _ _ => trivial
  apply holds_bind
  refine (holds_forEach (fun t => Inv enabled budget ∅ t ∧
    InFlight status reserve leftover 0 0 t) calls (fun c _ t ht => ?_) ⟨hinv, h⟩).mono
      fun _ t ht => holds_finishBound ht.2.toReaderBound
  exact (holds_call ht.1 c).both
    (holds_callInFlight huring hroom hreserve ht.1 ht.2 c)

end Whole

section Sequence

variable [LT D] [DecidableLT D] [DecidableEq D]

theorem one_le_sessionDemandIoReserve (status : DiskGraphIoStatus) :
    1 ≤ sessionDemandIoReserve status := by
  rw [sessionDemandIoReserve]
  split
  · exact le_rfl
  · dsimp only
    split
    · exact le_rfl
    · exact le_max_left _ _

/-- With no read outstanding there is room, whatever the configuration. -/
theorem hasRoom_of_empty (page_reader : AsyncPageReader α) (config : PrefetchConfig)
    (hempty : page_reader.async_buffers = []) (hdepth : 0 < page_reader.status.depth) :
    hasRoom page_reader config = true := by
  have hreserve : sessionDemandIoReserve page_reader.status ≤ page_reader.status.depth := by
    rw [sessionDemandIoReserve]
    split
    · exact hdepth
    · dsimp only
      split
      · exact hdepth
      · omega
  rw [hasRoom, hempty, List.length_nil, Nat.zero_add, decide_eq_true_eq, sessionPrefetchBudget]
  split
  · rw [Nat.zero_add]
    exact hreserve
  · dsimp only
    rw [max_eq_right (Nat.succ_le_of_lt hdepth)]
    split
    · rw [Nat.zero_add]
      exact hreserve
    · have hshare := min_le_right ((if max config.prefetch_width config.prefetch_top_k = 0 then
          max 1 (page_reader.status.depth / 4)
        else max config.prefetch_width config.prefetch_top_k) * max 1 config.prefetch_depth % 2 ^ 64)
        (page_reader.status.depth - sessionDemandIoReserve page_reader.status)
      omega

omit [LT D] [DecidableLT D] [DecidableEq D] in
theorem inFlight_new {page_reader : AsyncPageReader α} (h : PoolBound status page_reader)
    (index : PageCache α D) (page_count : ℕ) (config : PrefetchConfig) :
    InFlight status (sessionDemandIoReserve status) page_reader.async_buffers.length 0 0
      (QueryPageSession.new index page_reader page_count config) where
  pool := h
  tokens_lt := fun token htoken => absurd htoken (AList.notMem_empty token)
  reserve_eq := by
    have hreserve := one_le_sessionDemandIoReserve status
    rw [QueryPageSession.demandIoReserve, QueryPageSession.new, h.status_eq]
    exact max_eq_right hreserve
  accounted := le_rfl

theorem readerBound_exec (huring : status.io_uring_enabled = true)
    {page_reader : AsyncPageReader α} (h : PoolBound status page_reader) (query : Query α)
    (hroom : hasRoom page_reader query.config = true) (page_count : ℕ) (index : PageCache α D) :
    (∀ t ∈ (query.exec page_count index page_reader).seen, ReaderBound status t) ∧
      ReaderBound status (query.after page_count index page_reader) := by
  have hnew := inFlight_new h index page_count query.config
  rw [hasRoom, decide_eq_true_eq, h.status_eq] at hroom
  have hquery := holds_wholeQuery huring hroom (one_le_sessionDemandIoReserve status)
    (h.status_eq ▸ inv_new index page_reader page_count query.config) hnew query.calls
  exact ⟨(hquery query.rounds query.replies).1,
    hquery.last hnew.toReaderBound query.rounds query.replies⟩

theorem readerBound_runQueries (huring : status.io_uring_enabled = true) (page_count : ℕ)
    (queries : List (Query α)) {page_reader : AsyncPageReader α} {index : PageCache α D}
    (h : PoolBound status page_reader)
    (hroom : roomAtStart page_count index page_reader queries = true) :
    ∀ t ∈ runQueries page_count index page_reader queries, ReaderBound status t := by
  induction queries generalizing index page_reader with
  | nil => simp [runQueries]
  | cons query queries ih =>
    rw [roomAtStart, Bool.and_eq_true, Bool.or_eq_true, decide_eq_true_eq] at hroom
    have hexec := readerBound_exec huring h query hroom.1 page_count index
    intro t ht
    rw [runQueries] at ht
    rcases List.mem_append.mp ht with ht | ht
    · exact hexec.1 t ht
    · split at ht
      · cases ht
      · next hending =>
        exact ih hexec.2.pool (hroom.2.resolve_left hending) t ht

/-- In every sequence of queries on one reader, each of which starts with room for its prefetches
and its demand reads: no more reads are ever outstanding than there are buffers, and no read finds
the pool empty. -/
theorem outstanding_le (index : PageCache α D) (status : DiskGraphIoStatus)
    (huring : status.io_uring_enabled = true) (page_count : ℕ) (queries : List (Query α))
    (hroom : roomAtStart page_count index { status := status } queries = true) :
    ∀ t ∈ runQueries page_count index { status := status } queries,
      t.page_reader.async_buffers.length ≤ status.depth ∧
        t.page_reader.pool_exhausted = false := by
  intro t ht
  have hnew : PoolBound status ({ status := status } : AsyncPageReader α) :=
    ⟨rfl, rfl, rfl, Nat.zero_le _⟩
  have hbound := (readerBound_runQueries huring page_count queries hnew hroom t ht).pool
  exact ⟨hbound.outstanding, hbound.not_exhausted⟩

end Sequence

/-- Two queries; the prefetch of the first one completes before it ends. -/
theorem outstanding_le_two :
    let index : PageCache ℕ ℕ :=
      { policy := { cache_score := fun _ => 0, page_hot_score := fun _ => 0 } }
    let status : DiskGraphIoStatus := { io_uring_enabled := true, depth := 2, batch_size := 1 }
    let config : PrefetchConfig := { prefetch_policy := "xgboost", prefetch_width := 1 }
    let queries : List (Query ℕ) := [
      { config := config
        calls := [.submitPrefetchPlan [1]]
        replies := [.nothing, .nothing, .nothing, .nothing, .nothing, .completed 1 (.ok 0), .nothing,
          .nothing, .nothing, .nothing]
        rounds := 3 },
      { config := config
        calls := [.submitPrefetchPlan [2], .getOrLoadPage 3]
        replies := [.nothing, .nothing, .nothing, .nothing, .nothing, .nothing, .completed 3 (.ok 0),
          .nothing, .nothing, .nothing]
        rounds := 3 }]
    ∀ t ∈ runQueries 10 index { status := status } queries,
      t.page_reader.async_buffers.length ≤ 2 ∧ t.page_reader.pool_exhausted = false :=
  outstanding_le _ _ rfl _ _ (by decide)

/-- The first query ends while its prefetch is under way. The second one prefetches a page and needs
another, and its third read finds no buffer. -/
theorem pool_exhausted_by_leftovers :
    let index : PageCache ℕ ℕ :=
      { policy := { cache_score := fun _ => 0, page_hot_score := fun _ => 0 } }
    let status : DiskGraphIoStatus := { io_uring_enabled := true, depth := 2, batch_size := 1 }
    let config : PrefetchConfig := { prefetch_policy := "xgboost", prefetch_width := 1 }
    let queries : List (Query ℕ) := [
      { config := config
        calls := [.submitPrefetchPlan [1]]
        replies := [.nothing, .nothing, .nothing, .nothing, .nothing, .nothing, .nothing]
        rounds := 3 },
      { config := config
        calls := [.submitPrefetchPlan [2], .getOrLoadPage 3]
        replies := [.nothing, .nothing, .nothing, .nothing, .nothing, .nothing, .nothing]
        rounds := 3 }]
    ∃ t ∈ runQueries 10 index { status := status } queries, t.page_reader.pool_exhausted = true := by
  decide

end Packed.PageIo
