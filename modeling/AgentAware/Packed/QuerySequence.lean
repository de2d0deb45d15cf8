import AgentAware.Packed.SearchTransparency

/-!
# Queries one after the other

The queries on an index share its cache: each one starts with what the queries before it left there,
and the reader may change between them. Whatever they leave is of the file, so every query of a
sequence computes on the nodes of the file, as if it were the first.

## Main definitions

- `SearchQuery` — a query, with its reader, its prefetches and what it is answered
- `Serves` — a sequence of queries, from one cache to another

## Main results

- `serves_transparent` — every query of a sequence computes on the nodes of the file
-/

namespace Packed.PageIo

open Interaction

/-- A query, the reader that it finds, and what happens during it. -/
structure SearchQuery (D E : Type) where
  config : Graph.DiskGraphSearchConfig
  distances : Graph.QueryDistances E
  prefetcher : Prefetcher D E
  page_reader : AsyncPageReader PageContent
  prefetch : PrefetchConfig
  rounds : ℕ
  replies : List (Reply PageContent)

section Queries

variable {D E : Type} [LT D] [DecidableLT D] [DecidableEq D] [LinearOrder E]
  {index : PackedDiskGraphIndex}

/-- The run of a query with a cache. -/
def SearchQuery.run (query : SearchQuery D E) (index : PackedDiskGraphIndex)
    (cache : PageCache PageContent D) :
    Progress (NodeSession D) (Reply PageContent) (Graph.DiskGraphSearchResult E) :=
  (SessionSearch.searchOne index query.config query.distances query.prefetcher).run query.rounds
    (startQuery index cache query.page_reader query.prefetch) query.replies

/-- The reads of a query, those that still wait in line included, are answered with their pages. -/
def SearchQuery.Answered (query : SearchQuery D E) (index : PackedDiskGraphIndex)
    (cache : PageCache PageContent D) : Prop :=
  ∃ log : ReadLog PageContent, log.file = fileOf index ∧
    (∀ completed ∈ query.page_reader.inline_completions,
      completed.page = log.file (log.assigned completed.token)) ∧
    Delivers log (startQuery index cache query.page_reader query.prefetch).1 query.replies ∧
    Chain (LoggedNodes log) (startQuery index cache query.page_reader query.prefetch)
      (query.run index cache).seen

/-- What a cache holds is of the file. -/
def CacheOf (index : PackedDiskGraphIndex) (cache : PageCache PageContent D) : Prop :=
  ∀ entry ∈ cache.page_cache, fileOf index entry.page.page_id = .ok entry.page.content

/-- Queries that return, one after the other, with what they return and the caches in between. -/
inductive Serves (index : PackedDiskGraphIndex) : PageCache PageContent D →
    List (SearchQuery D E × Graph.DiskGraphSearchResult E) → PageCache PageContent D → Prop
  | none (cache : PageCache PageContent D) : Serves index cache [] cache
  | next {cache last : PageCache PageContent D} {query : SearchQuery D E}
      {result : Graph.DiskGraphSearchResult E}
      {queries : List (SearchQuery D E × Graph.DiskGraphSearchResult E)} :
      query.Answered index cache → (query.run index cache).ending = .returned result →
      Serves index (query.run index cache).state.1.index queries last →
      Serves index cache ((query, result) :: queries) last

/-- A query with a cache of the file computes on the nodes of the file, and leaves a cache of the
file. -/
theorem SearchQuery.transparent (hdirected : Directed index)
    (hcount : index.node_to_page.length = index.metadata.vector_count)
    {cache : PageCache PageContent D} (hcache : CacheOf index cache) {query : SearchQuery D E}
    (hanswered : query.Answered index cache) {result : Graph.DiskGraphSearchResult E}
    (hreturned : (query.run index cache).ending = .returned result) :
    Graph.searchOne (fileIndex index) query.config query.distances = .ok result ∧
      CacheOf index (query.run index cache).state.1.index := by
  obtain ⟨log, hfile, hinline, hdelivers, hchain⟩ := hanswered
  have hfaithful : Faithful log (startQuery index cache query.page_reader query.prefetch).1
      query.replies := by
    refine faithful_startQuery (fun entry hentry => ?_) hinline hdelivers
    rw [ReadLog.Holds, hfile]
    exact hcache entry hentry
  have hstart : SessionSearch.At index log
      (startQuery index cache query.page_reader query.prefetch) query.replies :=
    ⟨hfaithful, storedNodes_empty⟩
  obtain ⟨_, hleft, hresult⟩ := SessionSearch.relies_searchOne hfile hdirected hcount hstart
    query.rounds hchain result hreturned
  refine ⟨hresult, fun entry hentry => ?_⟩
  rw [← hfile]
  exact hleft entry hentry

/-- Any number of queries, with any readers, prefetches and completion orders, that start with a cache
of the file: each one returns what it would compute on the nodes of the file alone. -/
theorem serves_transparent (hdirected : Directed index)
    (hcount : index.node_to_page.length = index.metadata.vector_count)
    {cache last : PageCache PageContent D} (hcache : CacheOf index cache)
    {queries : List (SearchQuery D E × Graph.DiskGraphSearchResult E)}
    (hserves : Serves index cache queries last) :
    (∀ served ∈ queries,
      Graph.searchOne (fileIndex index) served.1.config served.1.distances = .ok served.2) ∧
      CacheOf index last := by
  induction hserves with
  | none cache => exact ⟨fun served hserved => absurd hserved List.not_mem_nil, hcache⟩
  | next hanswered hreturned _ ih =>
    obtain ⟨hresult, hleft⟩ := SearchQuery.transparent hdirected hcount hcache hanswered hreturned
    obtain ⟨hrest, hlast⟩ := ih hleft
    refine ⟨fun served hserved => ?_, hlast⟩
    rcases List.mem_cons.mp hserved with rfl | hserved
    · exact hresult
    · exact hrest served hserved

end Queries

/-- One query of the nodes of the pair, without a ring. -/
def pairQuery (replies : List (Reply PageContent)) : SearchQuery ℕ ℕ where
  config :=
    { top_k := 2, search_width := 2, beam_width := 1, entry_count := 1, adc_enable := true
      rerank_topk := 2 }
  distances :=
    { adc := UInt32.toNat, exact := fun values => (values.map UInt32.toNat).sum
      improves := fun _ _ => true }
  prefetcher := ⟨fun _ _ _ => [], fun _ _ => []⟩
  page_reader := {}
  prefetch := {}
  rounds := 3
  replies := replies

/-- The second query finds the first page in the cache. -/
theorem serves_transparent_pair :
    let cache : PageCache PageContent ℕ :=
      { policy := { cache_policy := "lru", cache_capacity_pages := 1,
                    cache_score := CacheEntry.last_access, page_hot_score := fun _ => 0 } }
    let first := pairQuery [.completed 0 (fileOf pairIndex 0), .completed 0 (fileOf pairIndex 1),
      .completed 0 (fileOf pairIndex 1), .nothing]
    let second := pairQuery [.completed 0 (fileOf pairIndex 1), .completed 0 (fileOf pairIndex 1),
      .nothing]
    let result : Graph.DiskGraphSearchResult ℕ :=
      { topk := [⟨1, 2⟩, ⟨0, 5⟩], expanded := 2, visited := 2 }
    ∃ last, Serves pairIndex cache [(first, result), (second, result)] last ∧
      Graph.searchOne (fileIndex pairIndex) second.config second.distances = .ok result := by
  intro cache first second result
  have hserial : ∀ (index : PageCache PageContent ℕ) (query : SearchQuery ℕ ℕ),
      query.page_reader = {} → ¬(startQuery pairIndex index query.page_reader
        query.prefetch).1.page_reader.status.io_uring_enabled = true := by
    intro index query hreader
    rw [hreader]
    exact Bool.false_ne_true
  have hfirst : first.Answered pairIndex cache := by
    refine ⟨⟨fileOf pairIndex, fun token => if token = 1 then 0 else 1,
      fun i => if i = 0 then 0 else 1⟩, rfl,
      fun completed hcompleted => absurd hcompleted List.not_mem_nil, ?_, by decide +kernel⟩
    rw [Delivers, if_neg (hserial cache first rfl)]
    intro i token page hreply
    obtain _ | _ | _ | _ | i := i
    · cases hreply
      rfl
    · cases hreply
      rfl
    · cases hreply
      rfl
    · cases hreply
    · cases hreply
  have hsecond : second.Answered pairIndex (first.run pairIndex cache).state.1.index := by
    refine ⟨⟨fileOf pairIndex, fun _ => 1, fun _ => 1⟩, rfl,
      fun completed hcompleted => absurd hcompleted List.not_mem_nil, ?_, by decide +kernel⟩
    rw [Delivers, if_neg (hserial _ second rfl)]
    intro i token page hreply
    obtain _ | _ | _ | i := i
    · cases hreply
      rfl
    · cases hreply
      rfl
    · cases hreply
    · cases hreply
  have hempty : CacheOf pairIndex cache := fun entry hentry => absurd hentry List.not_mem_nil
  have hserves : Serves pairIndex cache [(first, result), (second, result)] _ :=
    .next hfirst (by decide +kernel) (.next hsecond (by decide +kernel) (.none _))
  exact ⟨_, hserves, (serves_transparent directed_pairIndex rfl hempty hserves).1 (second, result)
    (List.mem_cons_of_mem _ List.mem_cons_self)⟩

end Packed.PageIo
