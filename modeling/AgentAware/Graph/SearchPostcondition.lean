import AgentAware.Graph.DeletedResults
import AgentAware.Graph.NaiveSearch

/-!
# What a search returns

The loop of `search_one`, with the nodes it expands in order. Which nodes these are depends on the
stopping rules; what is visited, what is in the pool and what is returned follow from them alone.

## Main definitions

- `expansions` — the nodes that the loop expands
- `SearchPost` — the postcondition

## Main results

- `searched_searchLoop` — the invariant of the loop
- `searchOne_post` — every search that is accepted
-/

namespace Graph

section Expansions

variable {D : Type} [LinearOrder D] (index : PackedIndex) (config : DiskGraphSearchConfig)
  (distances : QueryDistances D)

/-- The nodes that `searchLoop` expands, round after round. -/
def expansions (effective_beam_width : ℕ) : ℕ → SearchState D → List NodeId
  | 0, _ => []
  | rounds + 1, state =>
    if state.candidates.isEmpty || config.search_width ≤ state.expanded then []
    else
      let (batch, state) := selectCandidateBatch index config effective_beam_width state
      if batch.isEmpty then []
      else
        batch.map SearchResult.id ++ expansions effective_beam_width rounds
          (expandCandidateBatch index config distances state batch)

omit [LinearOrder D] in
/-- A node with its approximate distance. -/
def adcResult (id : NodeId) : SearchResult D := ⟨id, distances.adc id⟩

/-- The `result_capacity` smallest of some nodes. -/
def adcPool (ids : List NodeId) : List (SearchResult D) :=
  TopK.topk SearchResult.rank (resultCapacity index config) (ids.map (adcResult distances))

/-- The loop so far: `done` are the expanded nodes. -/
structure Searched (state : SearchState D) (done : List NodeId) : Prop where
  tracks : Tracks index config (fun _ => True) state done
  reached : ∀ id ∈ state.visited,
    id ∈ acceptedEntries index config ∨ ∃ source ∈ done, Follows index source id
  pool : state.best.Perm (adcPool index config distances state.visited)
  width : state.expanded ≤ config.search_width

end Expansions

section Loop

variable {D : Type} [LinearOrder D] {index : PackedIndex} {config : DiskGraphSearchConfig}
  {distances : QueryDistances D} {state : SearchState D} {done : List NodeId}

omit [LinearOrder D] in
theorem adcResult_ids (ids : List NodeId) :
    (ids.map (adcResult distances)).map SearchResult.id = ids := by
  rw [List.map_map]
  exact List.map_id _

theorem adcPool_perm {ids ids' : List NodeId} (hids : ids.Nodup) (hperm : ids.Perm ids') :
    adcPool index config distances ids = adcPool index config distances ids' := by
  refine TopK.topk_perm (TopK.separates_of_nodup (SearchResult.rank_nodup ?_)) (hperm.map _)
  rwa [adcResult_ids]

theorem adcPool_sorted {ids : List NodeId} (hids : ids.Nodup) :
    (adcPool index config distances ids).Pairwise fun a b => a.rank < b.rank := by
  refine TopK.topk_pairwise_lt (SearchResult.rank_nodup ?_)
  rwa [adcResult_ids]

theorem resultCapacity_pos (htop : config.top_k ≠ 0) (hcount : 0 < index.vector_count) :
    0 < resultCapacity index config := by
  rw [resultCapacity, effectiveK]
  omega

/-- Some nodes are ranked and pushed. -/
theorem pool_push (hcapacity : 0 < resultCapacity index config) {ids seen : List NodeId}
    (hall : (ids ++ seen).Nodup) (hpool : state.best.Perm (adcPool index config distances seen)) :
    ((rankByDistance distances ids).foldl (pushCandidate index config) state).best.Perm
      (adcPool index config distances (ids ++ seen)) := by
  have hranked : (rankByDistance distances ids).Perm (ids.map (adcResult distances)) :=
    TopK.sortBy_perm _ _
  have hnodup : ((ids.map (adcResult distances) ++ seen.map (adcResult distances)).map
      SearchResult.rank).Nodup := by
    refine SearchResult.rank_nodup ?_
    rwa [List.map_append, adcResult_ids, adcResult_ids]
  have hperm := hranked.append_right (seen.map (adcResult distances))
  have hsep := TopK.separates_of_nodup ((hperm.map SearchResult.rank).nodup_iff.mpr hnodup)
  rw [foldl_pushCandidate]
  refine (TopK.foldl_offer_append hcapacity hsep hpool).trans ?_
  rw [adcPool, List.map_append, TopK.topk_perm hsep hperm]

omit [LinearOrder D] in
theorem best_updateAdaptiveStop [LinearOrder D] (state : SearchState D) :
    (updateAdaptiveStop index config distances state).best = state.best := by
  rw [updateAdaptiveStop]
  split
  · rfl
  · split <;> rfl

/-- A whole batch is pushed, the neighbours of one node after the other. -/
theorem pool_batch (hcapacity : 0 < resultCapacity index config) (found : List (List NodeId))
    {seen : List NodeId} (hall : (found.flatten ++ seen).Nodup)
    (hpool : state.best.Perm (adcPool index config distances seen)) :
    (found.foldl (pushRanked index config distances) state).best.Perm
      (adcPool index config distances (found.flatten ++ seen)) := by
  induction found generalizing state seen with
  | nil => exact hpool
  | cons ids found ih =>
    have hswap : (found.flatten ++ (ids ++ seen)).Perm ((ids :: found).flatten ++ seen) := by
      rw [List.flatten_cons, ← List.append_assoc]
      exact List.perm_append_comm.append_right seen
    have hall' := hswap.nodup_iff.mpr hall
    have hpushed : (pushRanked index config distances state ids).best.Perm
        (adcPool index config distances (ids ++ seen)) := by
      rw [pushRanked, best_updateAdaptiveStop]
      exact pool_push hcapacity (List.nodup_append.mp hall').2.1 hpool
    rw [List.foldl_cons, ← adcPool_perm hall' hswap]
    exact ih hall' hpushed

theorem takeBatch_length (limit : ℕ) (state : SearchState D) :
    (takeBatch index config limit state).1.length ≤ limit := by
  induction limit generalizing state with
  | zero => exact Nat.le_refl 0
  | succ limit ih =>
    rw [takeBatch]
    split
    · exact Nat.zero_le _
    · split
      · exact Nat.zero_le _
      · exact Nat.succ_le_succ (ih _)

theorem searched_start (hcapacity : 0 < resultCapacity index config) :
    Searched index config distances (initializeSearchState index config distances) [] := by
  have htracks : Tracks index config (fun _ => True)
      (initializeSearchState index config distances) [] := tracks_start fun _ _ => trivial
  have hvisited : (initializeSearchState index config distances).visited =
      acceptedEntries index config := visited_start
  refine ⟨htracks, fun id hid => Or.inl (hvisited ▸ hid), ?_, ?_⟩
  · have hnodup := htracks.nodup
    rw [hvisited] at hnodup ⊢
    have hnil : adcPool index config distances [] = [] := List.take_nil
    have hpush := @pool_push D _ index config distances { visited := acceptedEntries index config }
      hcapacity (acceptedEntries index config) [] (by rwa [List.append_nil])
      (by rw [hnil])
    rwa [List.append_nil] at hpush
  · rw [← htracks.expanded]
    exact Nat.zero_le _

/-- One round. -/
theorem searched_expand (hcapacity : 0 < resultCapacity index config)
    (h : Searched index config distances state done) {batch rest : List (SearchResult D)}
    (hbatch : (batch ++ rest).Perm state.candidates)
    (hwidth : batch.length ≤ config.search_width - state.expanded) :
    Searched index config distances
      (expandCandidateBatch index config distances { state with candidates := rest } batch)
      (done ++ batch.map SearchResult.id) := by
  have htracks : Tracks index config (fun _ => True)
      (expandCandidateBatch index config distances { state with candidates := rest } batch)
      (done ++ batch.map SearchResult.id) := tracks_expand (fun _ _ _ _ => trivial) h.tracks hbatch
  obtain ⟨hnodup, hsound, -⟩ := batchNeighbors_spec index state.visited batch
  have hvisited : (expandCandidateBatch index config distances { state with candidates := rest }
      batch).visited = (batchNeighbors index state.visited batch).flatten.reverse ++
        state.visited := (pushed_batch _).visited
  have hexpanded : (expandCandidateBatch index config distances { state with candidates := rest }
      batch).expanded = state.expanded + batch.length := (pushed_batch _).expanded
  have hall := htracks.nodup
  rw [hvisited] at hall
  have hperm : ((batchNeighbors index state.visited batch).flatten ++ state.visited).Perm
      ((batchNeighbors index state.visited batch).flatten.reverse ++ state.visited) :=
    (List.reverse_perm _).symm.append_right _
  -- what is visited now was visited before, or is a neighbour of the batch
  refine ⟨htracks, fun id hid => ?_, ?_, ?_⟩
  · rw [hvisited, List.mem_append, List.mem_reverse] at hid
    rcases hid with hid | hid
    · obtain ⟨-, hlt, current, hcurrent, hneighbor⟩ := hsound id hid
      refine Or.inr ⟨current.id, ?_, hneighbor, hlt⟩
      exact List.mem_append_right _ (List.mem_map_of_mem hcurrent)
    · refine (h.reached id hid).imp_right ?_
      rintro ⟨source, hsource, hfollows⟩
      exact ⟨source, List.mem_append_left _ hsource, hfollows⟩
  · rw [hvisited, ← adcPool_perm (hperm.nodup_iff.mpr hall) hperm]
    exact pool_batch hcapacity _ (hperm.nodup_iff.mpr hall) h.pool
  · rw [hexpanded]
    have := h.width
    omega

/-- The whole loop. -/
theorem searched_searchLoop (hcapacity : 0 < resultCapacity index config)
    (effective_beam_width rounds : ℕ) (h : Searched index config distances state done) :
    Searched index config distances
      (searchLoop index config distances effective_beam_width rounds state)
      (done ++ expansions index config distances effective_beam_width rounds state) := by
  induction rounds generalizing state done with
  | zero =>
    rw [expansions, List.append_nil]
    exact h
  | succ rounds ih =>
    rw [searchLoop, expansions]
    split
    · rw [List.append_nil]
      exact h
    · obtain ⟨hperm, hsame⟩ := takeBatch_spec index config
        (min effective_beam_width (config.search_width - state.expanded)) state
      have hlength := @takeBatch_length D _ index config
        (min effective_beam_width (config.search_width - state.expanded)) state
      rw [selectCandidateBatch]
      generalize takeBatch index config
        (min effective_beam_width (config.search_width - state.expanded)) state = taken at *
      obtain ⟨batch, next⟩ := taken
      dsimp only at hperm hsame hlength ⊢
      rw [hsame]
      have hround := searched_expand hcapacity h hperm (hlength.trans (min_le_right _ _))
      split
      · next hempty =>
        -- A rule stops the search; what it had taken is nothing.
        rw [List.isEmpty_iff.mp hempty, List.nil_append] at hperm
        rw [List.append_nil]
        have htracks := h.tracks
        refine ⟨⟨htracks.nodup, htracks.range, htracks.holds, ?_, htracks.expanded, htracks.closed,
          htracks.best_sub, htracks.best_all⟩, h.reached, h.pool, h.width⟩
        exact ((hperm.map _).append_left done).trans htracks.split
      · rw [← List.append_assoc]
        exact ih hround

/-- The width bounds the rounds: with more of them the loop ends in the same state. -/
theorem searchLoop_rounds (effective_beam_width rounds more : ℕ)
    (hrounds : config.search_width ≤ state.expanded + rounds) :
    searchLoop index config distances effective_beam_width (rounds + more) state =
      searchLoop index config distances effective_beam_width rounds state := by
  induction rounds generalizing state with
  | zero =>
    rw [Nat.zero_add]
    cases more with
    | zero => rfl
    | succ more =>
      change searchLoop index config distances effective_beam_width (more + 1) state = state
      rw [searchLoop, if_pos]
      rw [Bool.or_eq_true, decide_eq_true_eq]
      exact Or.inr hrounds
  | succ rounds ih =>
    rw [Nat.succ_add, searchLoop, searchLoop]
    split
    · rfl
    · obtain ⟨-, hsame⟩ := takeBatch_spec index config
        (min effective_beam_width (config.search_width - state.expanded)) state
      rw [selectCandidateBatch]
      generalize takeBatch index config
        (min effective_beam_width (config.search_width - state.expanded)) state = taken at *
      obtain ⟨batch, next⟩ := taken
      dsimp only at hsame ⊢
      split
      · rfl
      · next hne =>
        refine ih ?_
        have hexpanded : (expandCandidateBatch index config distances next batch).expanded =
            next.expanded + batch.length := (pushed_batch _).expanded
        have hnext : next.expanded = state.expanded := by rw [hsame]
        -- a round that goes on expands a node
        have hpositive : 0 < batch.length :=
          List.length_pos_iff.mpr fun hnil => hne (by rw [hnil]; rfl)
        omega

end Loop

section Post

variable {D : Type} [LinearOrder D]

/-- The postcondition of a search: `final` is the state its loop ends in, `expanded` are the nodes
expanded. -/
structure SearchPost (index : PackedIndex) (config : DiskGraphSearchConfig)
    (distances : QueryDistances D) (expanded : List NodeId) (final : SearchState D)
    (result : DiskGraphSearchResult D) : Prop where
  expanded_nodup : expanded.Nodup
  expanded_width : expanded.length ≤ config.search_width
  expanded_count : result.expanded = expanded.length
  visited_nodup : final.visited.Nodup
  visited_iff : ∀ id, id ∈ final.visited ↔
    id ∈ acceptedEntries index config ∨ ∃ source ∈ expanded, Follows index source id
  visited_count : result.visited = final.visited.length
  pool : TopK.sortBy SearchResult.rank final.best = adcPool index config distances final.visited
  topk : result.topk = TopK.topk SearchResult.rank (effectiveK index config)
    (if 0 < config.rerank_topk then
      (adcPool index config distances final.visited).map (rerank index distances)
    else adcPool index config distances final.visited)
  topk_nodup : (result.topk.map SearchResult.id).Nodup
  topk_range : ∀ found ∈ result.topk, found.id.toNat < index.vector_count
  topk_sorted : result.topk.Pairwise fun a b => a.rank < b.rank

variable {index : PackedIndex} {config : DiskGraphSearchConfig} {distances : QueryDistances D}

/-- The pool as it is handed to the re-ranking. -/
theorem sortBy_best {state : SearchState D} {done : List NodeId}
    (h : Searched index config distances state done) :
    TopK.sortBy SearchResult.rank state.best = adcPool index config distances state.visited := by
  have hsorted : (adcPool index config distances state.visited).Pairwise
      fun a b => a.rank < b.rank := adcPool_sorted h.tracks.nodup
  have hpool : ((adcPool index config distances state.visited).map SearchResult.rank).Nodup := by
    rw [List.Nodup, List.pairwise_map]
    exact hsorted.imp fun hlt => hlt.ne
  rw [TopK.sortBy_eq_of_perm
      (TopK.separates_of_nodup ((h.pool.map _).nodup_iff.mpr hpool)) h.pool,
    TopK.sortBy_eq_self hsorted]

theorem searchPost_of_searched {state : SearchState D} {done : List NodeId}
    (h : Searched index config distances state done)
    (hentries : ∀ id ∈ acceptedEntries index config, id ∈ state.visited) :
    SearchPost index config distances done state (finalizeTopk index config distances state) := by
  have hsorted := sortBy_best h
  have hpoolIds : ((adcPool index config distances state.visited).map SearchResult.id).Nodup :=
    TopK.topk_map_nodup (by rw [adcResult_ids]; exact h.tracks.nodup)
  have hpoolVisited : ∀ found ∈ adcPool index config distances state.visited,
      found.id ∈ state.visited := by
    intro found hfound
    obtain ⟨id, hid, rfl⟩ := List.mem_map.mp (TopK.mem_of_mem_topk hfound)
    exact hid
  obtain ⟨pool, hpool⟩ : ∃ pool, pool = (if 0 < config.rerank_topk then
      (adcPool index config distances state.visited).map (rerank index distances)
    else adcPool index config distances state.visited) := ⟨_, rfl⟩
  -- re-ranking changes distances only
  have hids : pool.map SearchResult.id =
      (adcPool index config distances state.visited).map SearchResult.id := by
    rw [hpool]
    split
    · rw [List.map_map]
      rfl
    · rfl
  have hnodup : (pool.map SearchResult.id).Nodup := hids ▸ hpoolIds
  have htopk : (finalizeTopk index config distances state).topk =
      TopK.topk SearchResult.rank (effectiveK index config) pool := by
    rw [finalizeTopk, hsorted, hpool]
    dsimp only
    split
    · rfl
    · rw [TopK.topk, TopK.sortBy_eq_self (adcPool_sorted h.tracks.nodup)]
  have hsplit := h.tracks.split.nodup_iff.mpr h.tracks.nodup
  refine ⟨(List.nodup_append.mp hsplit).1, ?_, h.tracks.expanded.symm, h.tracks.nodup,
    fun id => ⟨h.reached id, ?_⟩, rfl, hsorted, ?_, ?_, fun found hfound => ?_, ?_⟩
  · rw [h.tracks.expanded]
    exact h.width
  · rintro (hentry | ⟨source, hsource, hneighbor, hlt⟩)
    · exact hentries id hentry
    · exact h.tracks.closed source hsource id hneighbor hlt
  · rw [htopk, hpool]
  · rw [htopk]
    exact TopK.topk_map_nodup hnodup
  · rw [htopk] at hfound
    have hmem := List.mem_map_of_mem (f := SearchResult.id) (TopK.mem_of_mem_topk hfound)
    rw [hids] at hmem
    obtain ⟨pooled, hpooled, hid⟩ := List.mem_map.mp hmem
    exact hid ▸ h.tracks.range _ (hpoolVisited pooled hpooled)
  · rw [htopk]
    exact TopK.topk_pairwise_lt (SearchResult.rank_nodup hnodup)

/-- For every index, every query and every configuration that is accepted: the loop ends, in the same
state however many rounds it is given, and the result satisfies the postcondition. -/
theorem searchOne_post {result : DiskGraphSearchResult D} (hindex : 0 < index.vector_count)
    (h : searchOne index config distances = .ok result) :
    let start := initializeSearchState index config distances
    let beam := effectiveBeamWidth config
    (∀ more, searchLoop index config distances beam (config.search_width + more) start =
      searchLoop index config distances beam config.search_width start) ∧
    SearchPost index config distances
      (expansions index config distances beam config.search_width start)
      (searchLoop index config distances beam config.search_width start) result := by
  intro start beam
  have htop : config.top_k ≠ 0 := by
    rw [searchOne, throwIf_bind_eq_ok] at h
    exact fun hzero => h.1 (Or.inl hzero)
  refine ⟨fun more => searchLoop_rounds _ _ _ (Nat.le_add_left _ _), ?_⟩
  have hsearched : Searched index config distances
      (searchLoop index config distances beam config.search_width start)
      ([] ++ expansions index config distances beam config.search_width start) :=
    searched_searchLoop (resultCapacity_pos htop hindex) beam config.search_width
      (searched_start (resultCapacity_pos htop hindex))
  rw [searchOne_eq_ok h]
  refine searchPost_of_searched hsearched fun id hid => ?_
  exact visited_searchLoop _ _ _ _ _ _ (by rw [visited_start]; exact hid)

/-- A line of three nodes, searched from its first with a pool of two. -/
theorem searchOne_post_line :
    let index : PackedIndex := ⟨[⟨[], [1]⟩, ⟨[], [0, 2]⟩, ⟨[], [1, 9]⟩]⟩
    let config : DiskGraphSearchConfig :=
      { top_k := 1, search_width := 2, beam_width := 1, entry_count := 1, adc_enable := true,
        rerank_topk := 2 }
    let distances : QueryDistances ℕ := ⟨fun id => 2 - id.toNat, fun _ => 0, fun _ _ => true⟩
    let start := initializeSearchState index config distances
    let beam := effectiveBeamWidth config
    (∀ more, searchLoop index config distances beam (2 + more) start =
      searchLoop index config distances beam 2 start) ∧
    SearchPost index config distances (expansions index config distances beam 2 start)
      (searchLoop index config distances beam 2 start)
      (finalizeTopk index config distances (searchLoop index config distances beam 2 start)) :=
  searchOne_post (by decide) (searchOne_ok (by decide) (by decide) (by decide) rfl)

end Post

end Graph
