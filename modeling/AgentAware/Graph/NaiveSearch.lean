import AgentAware.Graph.DeletedResults

/-!
# The naive search

`NaiveDiskGraphIndex` keeps one node to a page and expands one candidate after the other: a neighbour
is pushed as soon as it is met, where the packed search collects the neighbours of a batch, ranks them
and pushes them then. With a beam of one the two searches decide the same at every step, since pools
that hold the same results have the same top.

## Main definitions

- `naiveSearchOne` — the naive search
- `Agree` — a state of the packed search and one of the naive search

## Main results

- `agree_searchLoop` — the two loops stay in step
- `naive_eq_packed` — with a beam of one, both return the same
-/

namespace Graph

section Naive

variable {D : Type} [LinearOrder D] (index : PackedIndex) (config : DiskGraphSearchConfig)
  (distances : QueryDistances D)

/-- Without ADC the naive search ranks by exact distances. -/
def candidateDistance (id : NodeId) : D :=
  if config.adc_enable then distances.adc id else distances.exact (index.loadNode id).vector

/-- An entry or a neighbour, when it is met. -/
def naiveVisit (state : SearchState D) (id : NodeId) : SearchState D :=
  if index.vector_count ≤ id.toNat ∨ id ∈ state.visited then state
  else
    pushCandidate index config { state with visited := id :: state.visited }
      ⟨id, candidateDistance index config distances id⟩

def naiveStart : SearchState D :=
  let entries := if config.seed_ids = [] then
      selectEvenlySpacedEntries index.vector_count config.entry_count
    else config.seed_ids
  entries.foldl (naiveVisit index config distances) {}

def naiveExpand (state : SearchState D) (current : SearchResult D) : SearchState D :=
  updateAdaptiveStop index config distances
    ((index.loadNode current.id).neighbors.foldl (naiveVisit index config distances)
      { state with
        candidates := state.candidates.erase current
        expanded := state.expanded + 1 })

/-- The inner loop. A rule that stops the search empties the candidates. -/
def naiveRound : ℕ → SearchState D → SearchState D
  | 0, state => state
  | limit + 1, state =>
    if config.search_width ≤ state.expanded then state
    else
      match state.candidates.argmin SearchResult.rank with
      | none => state
      | some current =>
        if updateFrontier index config state current then { state with candidates := [] }
        else naiveRound limit (naiveExpand index config distances state current)

/-- Every round expands a node or empties the candidates, so `search_width` bounds the rounds. -/
def naiveLoop (effective_beam_width : ℕ) : ℕ → SearchState D → SearchState D
  | 0, state => state
  | rounds + 1, state =>
    if state.candidates.isEmpty || config.search_width ≤ state.expanded then state
    else
      naiveLoop effective_beam_width rounds
        (naiveRound index config distances effective_beam_width state)

def naiveFinalize (state : SearchState D) : DiskGraphSearchResult D :=
  let sorted := TopK.sortBy SearchResult.rank state.best
  let topk := if config.adc_enable ∧ 0 < config.rerank_topk then
      TopK.sortBy SearchResult.rank (sorted.map (rerank index distances))
    else sorted
  { topk := topk.take (effectiveK index config)
    expanded := state.expanded
    visited := state.visited.length }

def naiveSearchOne : Except String (DiskGraphSearchResult D) := do
  throwIf (config.top_k = 0 ∨ config.search_width = 0 ∨ config.entry_count = 0)
    "Graph search top_k, search_width, and entry_count must be positive"
  return naiveFinalize index config distances
    (naiveLoop index config distances (effectiveBeamWidth config) config.search_width
      (naiveStart index config distances))

end Naive

/-- Two states with the same pools, in any order. `offered` are the results offered so far. -/
structure Agree {D : Type} [LinearOrder D] (index : PackedIndex) (config : DiskGraphSearchConfig)
    (packed naive : SearchState D) : Prop where
  visited : packed.visited.Perm naive.visited
  nodup : packed.visited.Nodup
  candidates : packed.candidates.Perm naive.candidates
  waiting : (packed.candidates.map SearchResult.id).Nodup
  waiting_visited : ∀ result ∈ packed.candidates, result.id ∈ packed.visited
  pools : ∃ offered : List (SearchResult D),
    (offered.map SearchResult.id).Perm packed.visited ∧
      packed.best.Perm (TopK.topk SearchResult.rank (resultCapacity index config) offered) ∧
      naive.best.Perm (TopK.topk SearchResult.rank (resultCapacity index config) offered)
  expanded : packed.expanded = naive.expanded
  stagnant : packed.stagnant_expansions = naive.stagnant_expansions
  previous : packed.previous_worst_distance = naive.previous_worst_distance

section Agreement

variable {D : Type} [LinearOrder D] {index : PackedIndex} {config : DiskGraphSearchConfig}
  {distances : QueryDistances D} {packed naive : SearchState D}

/-- The pools of best results are the same, with the same last one. -/
theorem Agree.best (h : Agree index config packed naive) :
    packed.best.Perm naive.best ∧ worstBest packed = worstBest naive ∧
      (packed.best.map SearchResult.rank).Nodup := by
  obtain ⟨offered, hids, hpacked, hnaive⟩ := h.pools
  have hperm := hpacked.trans hnaive.symm
  have hoffered : (offered.map SearchResult.rank).Nodup :=
    SearchResult.rank_nodup (hids.nodup_iff.mpr h.nodup)
  have hnodup : (packed.best.map SearchResult.rank).Nodup :=
    (hpacked.map _).nodup_iff.mpr (TopK.topk_map_nodup hoffered)
  refine ⟨hperm, ?_, hnodup⟩
  rw [worstBest, worstBest, TopK.argmax_perm (TopK.separates_of_nodup hnodup) hperm]

/-- The states at the end of two searches that return the same. -/
structure SameResult (packed naive : SearchState D) : Prop where
  visited : packed.visited.Perm naive.visited
  best : packed.best.Perm naive.best
  nodup : (packed.best.map SearchResult.rank).Nodup
  expanded : packed.expanded = naive.expanded

theorem Agree.sameResult (h : Agree index config packed naive) : SameResult packed naive :=
  ⟨h.visited, h.best.1, h.best.2.2, h.expanded⟩

theorem Agree.top (h : Agree index config packed naive) :
    packed.candidates.argmin SearchResult.rank = naive.candidates.argmin SearchResult.rank :=
  TopK.argmin_perm (TopK.separates_of_nodup (SearchResult.rank_nodup h.waiting)) h.candidates

theorem Agree.updateFrontier (h : Agree index config packed naive) (top : SearchResult D) :
    updateFrontier index config packed top = updateFrontier index config naive top := by
  obtain ⟨hperm, hworst, -⟩ := h.best
  rw [Graph.updateFrontier, Graph.updateFrontier, shouldStop, shouldStop, hworst,
    hperm.length_eq, h.expanded, h.stagnant]

variable (distances) in
theorem Agree.updateAdaptiveStop (h : Agree index config packed naive) :
    Agree index config (updateAdaptiveStop index config distances packed)
      (updateAdaptiveStop index config distances naive) := by
  obtain ⟨hperm, hworst, -⟩ := h.best
  rw [Graph.updateAdaptiveStop, Graph.updateAdaptiveStop, hworst, hperm.length_eq, h.stagnant,
    h.previous]
  split
  · exact h
  · split
    · exact h
    · exact ⟨h.visited, h.nodup, h.candidates, h.waiting, h.waiting_visited, h.pools, h.expanded,
        rfl, rfl⟩

/-- Some pushes, in a row. -/
theorem foldl_pushCandidate (results : List (SearchResult D)) (state : SearchState D) :
    results.foldl (pushCandidate index config) state =
      { state with
        candidates := results.reverse ++ state.candidates
        best := results.foldl (TopK.offer SearchResult.rank (resultCapacity index config))
          state.best } := by
  induction results generalizing state with
  | nil => rfl
  | cons result results ih =>
    rw [List.foldl_cons, ih, List.reverse_cons, List.append_assoc]
    rfl

/-- Only which ids were visited counts. -/
theorem Agree.reorder (h : Agree index config packed naive) {visited : List NodeId}
    (hperm : visited.Perm packed.visited) :
    Agree index config { packed with visited := visited } naive := by
  obtain ⟨offered, hids, hpacked, hnaive⟩ := h.pools
  exact ⟨hperm.trans h.visited, hperm.nodup_iff.mpr h.nodup, h.candidates, h.waiting,
    fun result hresult => hperm.mem_iff.mpr (h.waiting_visited result hresult),
    ⟨offered, hids.trans hperm.symm, hpacked, hnaive⟩, h.expanded, h.stagnant, h.previous⟩

/-- Both searches take the same candidate to expand it. -/
theorem Agree.erase (h : Agree index config packed naive) (top : SearchResult D) :
    Agree index config
      { packed with candidates := packed.candidates.erase top, expanded := packed.expanded + 1 }
      { naive with candidates := naive.candidates.erase top, expanded := naive.expanded + 1 } where
  visited := h.visited
  nodup := h.nodup
  candidates := h.candidates.erase top
  waiting := h.waiting.sublist (List.erase_sublist.map _)
  waiting_visited result hresult := h.waiting_visited result (List.mem_of_mem_erase hresult)
  pools := h.pools
  expanded := congrArg (· + 1) h.expanded
  stagnant := h.stagnant
  previous := h.previous

/-- Both searches push the same new results, each in its own order. -/
theorem Agree.push (h : Agree index config packed naive)
    (hcapacity : 0 < resultCapacity index config) {results results' : List (SearchResult D)}
    (hperm : results.Perm results') (hnodup : (results.map SearchResult.id).Nodup)
    (hfresh : ∀ result ∈ results, result.id ∉ packed.visited) :
    Agree index config
      (results.foldl (pushCandidate index config)
        { packed with visited := (results'.map SearchResult.id).reverse ++ packed.visited })
      (results'.foldl (pushCandidate index config)
        { naive with visited := (results'.map SearchResult.id).reverse ++ naive.visited }) := by
  rw [foldl_pushCandidate, foldl_pushCandidate]
  have hids : (results'.map SearchResult.id).reverse.Perm (results.map SearchResult.id) :=
    (List.reverse_perm _).trans (hperm.map _).symm
  have hall : ((results.map SearchResult.id) ++ packed.visited).Nodup := by
    rw [List.nodup_append]
    refine ⟨hnodup, h.nodup, fun a ha b hb hab => ?_⟩
    obtain ⟨result, hresult, rfl⟩ := List.mem_map.mp ha
    exact hfresh result hresult (hab ▸ hb)
  refine ⟨h.visited.append_left _, ?_, ?_, ?_, ?_, ?_, h.expanded, h.stagnant, h.previous⟩
  · exact (hids.append_right _).nodup_iff.mpr hall
  · exact (((List.reverse_perm _).trans hperm).trans (List.reverse_perm _).symm).append
      h.candidates
  · rw [List.map_append, List.map_reverse, List.nodup_append]
    refine ⟨List.nodup_reverse.mpr hnodup, h.waiting, fun a ha b hb hab => ?_⟩
    obtain ⟨result, hresult, rfl⟩ := List.mem_map.mp (List.mem_reverse.mp ha)
    obtain ⟨waiting, hwaiting, rfl⟩ := List.mem_map.mp hb
    exact hfresh result hresult (hab ▸ h.waiting_visited waiting hwaiting)
  · intro result hresult
    rcases List.mem_append.mp hresult with hresult | hresult
    · refine List.mem_append_left _ (hids.mem_iff.mpr ?_)
      exact List.mem_map_of_mem (List.mem_reverse.mp hresult)
    · exact List.mem_append_right _ (h.waiting_visited result hresult)
  · obtain ⟨offered, hoffered, hpacked, hnaive⟩ := h.pools
    have htotal : ((results ++ offered).map SearchResult.id).Nodup := by
      rw [List.map_append]
      exact (hoffered.append_left _).nodup_iff.mpr hall
    have hswap : (results' ++ offered).Perm (results ++ offered) := hperm.symm.append_right _
    have hsep := TopK.separates_of_nodup (SearchResult.rank_nodup htotal)
    have hsep' := hsep.mono fun result hresult => hswap.mem_iff.mp hresult
    refine ⟨results ++ offered, ?_, TopK.foldl_offer_append hcapacity hsep hpacked, ?_⟩
    · rw [List.map_append]
      exact (hoffered.append_left _).trans (hids.symm.append_right _)
    · have hbest := TopK.foldl_offer_append hcapacity hsep' hnaive
      rwa [TopK.topk_perm hsep' hswap] at hbest

theorem newNeighbors_congr {visited visited' : List NodeId}
    (h : ∀ id, id ∈ visited ↔ id ∈ visited') (neighbors : List NodeId) :
    newNeighbors index visited neighbors = newNeighbors index visited' neighbors := by
  induction neighbors generalizing visited visited' with
  | nil => rfl
  | cons id neighbors ih =>
    rw [newNeighbors, newNeighbors]
    simp only [h id]
    split
    · exact ih h
    · have hcons : ∀ other, other ∈ id :: visited ↔ other ∈ id :: visited' := fun other => by
        rw [List.mem_cons, List.mem_cons, h other]
      rw [ih hcons]

/-- The naive search pushes the new ones among the ids it meets, in their order. -/
theorem foldl_naiveVisit (ids : List NodeId) (state : SearchState D) :
    ids.foldl (naiveVisit index config distances) state =
      ((newNeighbors index state.visited ids).map fun id =>
        ⟨id, candidateDistance index config distances id⟩).foldl (pushCandidate index config)
        { state with visited := (newNeighbors index state.visited ids).reverse ++ state.visited } := by
  induction ids generalizing state with
  | nil => rfl
  | cons id ids ih =>
    rw [List.foldl_cons, ih, naiveVisit, newNeighbors]
    split
    · rfl
    · rw [List.map_cons, List.foldl_cons, List.reverse_cons, List.append_assoc]
      rfl

variable (index) in
/-- Without repetitions and out-of-range ids, the entries are the new ones of the empty state. -/
theorem newNeighbors_eq_firsts (seen ids : List NodeId) :
    newNeighbors index seen ids =
      Versions.firstsFrom id seen (ids.filter fun id => id.toNat < index.vector_count) := by
  induction ids generalizing seen with
  | nil => rfl
  | cons first ids ih =>
    rw [newNeighbors]
    by_cases hrange : first.toNat < index.vector_count
    · rw [List.filter_cons_of_pos (by simpa using hrange), Versions.firstsFrom]
      by_cases hseen : first ∈ seen
      · rw [if_pos (Or.inr hseen), if_pos (show id first ∈ seen from hseen), ih]
      · rw [if_neg (by simp [hrange, hseen]), if_neg (show id first ∉ seen from hseen), ih]
        rfl
    · rw [List.filter_cons_of_neg (by simpa using hrange), if_pos (Or.inl (not_lt.mp hrange)), ih]

variable (hadc : config.adc_enable = true) (hcapacity : 0 < resultCapacity index config)
include hadc hcapacity

variable (distances) in
/-- One list of ids: the packed search ranks the new ones and pushes them, the naive search pushes
them one by one. -/
theorem Agree.visit (h : Agree index config packed naive) (ids : List NodeId) :
    Agree index config
      ((rankByDistance distances (newNeighbors index packed.visited ids)).foldl
        (pushCandidate index config) { packed with
          visited := (newNeighbors index packed.visited ids).reverse ++ packed.visited })
      (ids.foldl (naiveVisit index config distances) naive) := by
  obtain ⟨hnodup, hsound, -⟩ := newNeighbors_spec index packed.visited ids
  rw [foldl_naiveVisit, ← newNeighbors_congr (fun id => h.visited.mem_iff) ids]
  generalize newNeighbors index packed.visited ids = found at *
  have hdistance : (found.map fun id =>
      (⟨id, candidateDistance index config distances id⟩ : SearchResult D)) =
      found.map fun id => ⟨id, distances.adc id⟩ := by
    refine List.map_congr_left fun id _ => ?_
    rw [candidateDistance, if_pos hadc]
  have hids : (found.map fun id => (⟨id, distances.adc id⟩ : SearchResult D)).map
      SearchResult.id = found := by
    rw [List.map_map]
    exact List.map_id _
  have hranked := rankByDistance_ids distances found
  have hsorted : (rankByDistance distances found).Perm
      (found.map fun id => (⟨id, distances.adc id⟩ : SearchResult D)) := TopK.sortBy_perm _ _
  have hpush := h.push hcapacity hsorted
    (hranked.nodup_iff.mpr hnodup) fun result hresult =>
      (hsound result.id (hranked.mem_iff.mp (List.mem_map_of_mem hresult))).1
  rw [hids] at hpush
  rw [hdistance]
  exact hpush

theorem agree_start :
    Agree index config (initializeSearchState index config distances)
      (naiveStart index config distances) := by
  have hempty : Agree index config ({} : SearchState D) ({} : SearchState D) :=
    ⟨List.Perm.refl _, List.nodup_nil, List.Perm.refl _, List.nodup_nil, nofun,
      ⟨[], List.Perm.refl _, by simp [TopK.topk, TopK.sortBy], by simp [TopK.topk, TopK.sortBy]⟩,
      rfl, rfl, rfl⟩
  have hvisit := Agree.visit distances hadc hcapacity hempty
    (if config.seed_ids = [] then
      selectEvenlySpacedEntries index.vector_count config.entry_count else config.seed_ids)
  rw [newNeighbors_eq_firsts, List.append_nil, foldl_pushCandidate] at hvisit
  have hstart := hvisit.reorder (List.reverse_perm (acceptedEntries index config)).symm
  rw [initializeSearchState, foldl_pushCandidate]
  exact hstart

/-- One expansion with a beam of one. -/
theorem Agree.expand (h : Agree index config packed naive) (top : SearchResult D) :
    Agree index config
      (expandCandidateBatch index config distances
        { packed with candidates := packed.candidates.erase top } [top])
      (naiveExpand index config distances naive top) := by
  have hvisit := Agree.visit distances hadc hcapacity (h.erase top)
    (index.loadNode top.id).neighbors
  have hadaptive := hvisit.updateAdaptiveStop distances
  rw [expandCandidateBatch, batchNeighbors, batchNeighbors, List.foldl_cons, List.foldl_nil,
    List.flatten_cons, List.flatten_nil, List.append_nil]
  exact hadaptive

/-- With a beam of one the loops stay in step: each round both expand the closest candidate, or both
are at their end. -/
theorem agree_searchLoop (rounds : ℕ) (h : Agree index config packed naive) :
    SameResult (searchLoop index config distances 1 rounds packed)
      (naiveLoop index config distances 1 rounds naive) := by
  induction rounds generalizing packed naive with
  | zero => exact h.sameResult
  | succ rounds ih =>
    have hempty : packed.candidates.isEmpty = naive.candidates.isEmpty := by
      rw [Bool.eq_iff_iff, List.isEmpty_iff, List.isEmpty_iff, ← List.length_eq_zero_iff,
        ← List.length_eq_zero_iff, h.candidates.length_eq]
    rw [searchLoop, naiveLoop, ← hempty, ← h.expanded]
    split
    · exact h.sameResult
    · next hgo =>
      obtain ⟨hsome, hwidth⟩ : packed.candidates ≠ [] ∧ ¬ config.search_width ≤ packed.expanded := by
        simpa using hgo
      obtain ⟨top, htop⟩ : ∃ top, packed.candidates.argmin SearchResult.rank = some top :=
        Option.ne_none_iff_exists'.mp (mt List.argmin_eq_none.mp hsome)
      have hlimit : min 1 (config.search_width - packed.expanded) = 1 := by omega
      rw [naiveRound, if_neg (h.expanded ▸ hwidth), ← h.top, selectCandidateBatch, hlimit, takeBatch,
        htop]
      dsimp only
      rw [← h.updateFrontier]
      by_cases hstop : updateFrontier index config packed top = true
      · -- the packed search finds no batch, the naive search has no candidates left
        rw [if_pos hstop, if_pos hstop]
        have hend : naiveLoop index config distances 1 rounds { naive with candidates := [] } =
            { naive with candidates := [] } := by
          cases rounds <;> rfl
        rw [hend]
        exact ⟨h.visited, h.best.1, h.best.2.2, h.expanded⟩
      · rw [if_neg hstop, if_neg hstop]
        exact ih (h.expand hadc hcapacity top)

end Agreement

section Equality

variable {D : Type} [LinearOrder D] {index : PackedIndex} {config : DiskGraphSearchConfig}
  {distances : QueryDistances D}

/-- Both searches end on an index without nodes before the first round. -/
theorem sameResult_of_empty (hcount : index.vector_count = 0) (rounds : ℕ) :
    SameResult
      (searchLoop index config distances 1 rounds (initializeSearchState index config distances))
      (naiveLoop index config distances 1 rounds (naiveStart index config distances)) := by
  have hfound : ∀ ids, newNeighbors index [] ids = [] := by
    intro ids
    induction ids with
    | nil => rfl
    | cons id ids ih => rw [newNeighbors, if_pos (Or.inl (by omega)), ih]
  have haccepted : acceptedEntries index config = [] := by
    have hfirsts := newNeighbors_eq_firsts index [] (if config.seed_ids = [] then
      selectEvenlySpacedEntries index.vector_count config.entry_count else config.seed_ids)
    rw [hfound] at hfirsts
    exact hfirsts.symm
  have hpacked : initializeSearchState index config distances = {} := by
    rw [initializeSearchState, haccepted]
    rfl
  have hnaive : naiveStart index config distances = {} := by
    rw [naiveStart, foldl_naiveVisit, hfound]
    rfl
  have hend : SameResult ({} : SearchState D) ({} : SearchState D) :=
    ⟨List.Perm.refl _, List.Perm.refl _, List.nodup_nil, rfl⟩
  rw [hpacked, hnaive]
  cases rounds <;> exact hend

theorem naiveFinalize_eq (hadc : config.adc_enable = true) {packed naive : SearchState D}
    (h : SameResult packed naive) :
    naiveFinalize index config distances naive = finalizeTopk index config distances packed := by
  rw [naiveFinalize, finalizeTopk, TopK.sortBy_eq_of_perm (TopK.separates_of_nodup h.nodup) h.best,
    h.visited.length_eq, h.expanded]
  simp only [hadc, true_and]

/-- For every index, query distances and configuration with ADC and a beam of one, the naive search
returns what the packed search returns: the same best results in the same order, after as many
expansions and visits; and one throws only when the other does. -/
theorem naive_eq_packed (hadc : config.adc_enable = true) (hbeam : config.beam_width = 1) :
    (naiveSearchOne index config distances).toOption =
      (searchOne index config distances).toOption := by
  by_cases hbad : config.top_k = 0 ∨ config.search_width = 0 ∨ config.entry_count = 0
  · have hnaive : throwIf (config.top_k = 0 ∨ config.search_width = 0 ∨ config.entry_count = 0)
        "Graph search top_k, search_width, and entry_count must be positive" = .error _ :=
      if_pos hbad
    have hpacked : throwIf (config.top_k = 0 ∨ config.search_width = 0 ∨ config.entry_count = 0)
        "Packed graph search top_k, search_width, and entry_count must be positive" = .error _ :=
      if_pos hbad
    rw [naiveSearchOne, searchOne, hnaive, hpacked]
    rfl
  · obtain ⟨htop, hwidth, hentry⟩ := not_or.mp hbad |>.imp_right not_or.mp
    have hnaive : naiveSearchOne index config distances = .ok (naiveFinalize index config distances
        (naiveLoop index config distances (effectiveBeamWidth config) config.search_width
          (naiveStart index config distances))) := by
      rw [naiveSearchOne, throwIf_bind_eq_ok]
      exact ⟨hbad, rfl⟩
    have hwidthOne : effectiveBeamWidth config = 1 := by
      rw [effectiveBeamWidth, hbeam, if_neg Nat.one_ne_zero]
      omega
    have hsame : SameResult
        (searchLoop index config distances 1 config.search_width
          (initializeSearchState index config distances))
        (naiveLoop index config distances 1 config.search_width
          (naiveStart index config distances)) := by
      rcases Nat.eq_zero_or_pos index.vector_count with hcount | hcount
      · exact sameResult_of_empty hcount config.search_width
      · have hcapacity : 0 < resultCapacity index config := by
          rw [resultCapacity, effectiveK]
          omega
        exact agree_searchLoop hadc hcapacity config.search_width (agree_start hadc hcapacity)
    rw [hnaive, searchOne_ok htop hwidth hentry hadc, hwidthOne, naiveFinalize_eq hadc hsame]

/-- Four nodes on a line, searched from both ends. -/
theorem naive_eq_packed_line :
    let index : PackedIndex :=
      { nodes := [⟨[0], [1, 2]⟩, ⟨[1], [0, 2, 3]⟩, ⟨[2], [3, 1]⟩, ⟨[3], [2]⟩] }
    let config : DiskGraphSearchConfig :=
      { top_k := 2, search_width := 4, beam_width := 1, entry_count := 2, adc_enable := true
        early_stop := true, adaptive_early_stop := true, min_expansions := 3
        early_stop_patience := 1, rerank_topk := 3 }
    let distances : QueryDistances ℕ :=
      { adc := fun id => 3 - id.toNat, exact := lineOps.squared_l2 [3]
        improves := fun before now => before.all fun worst => now < worst }
    (naiveSearchOne index config distances).toOption =
      (searchOne index config distances).toOption :=
  naive_eq_packed rfl rfl

end Equality

end Graph
