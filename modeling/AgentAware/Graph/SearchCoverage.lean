import AgentAware.Graph.PackedSearch
import Mathlib.Logic.Relation

/-!
# What a search covers

A search visits its entries and neighbours of nodes it expanded, each node once; candidates are
visited nodes that wait. When the pool of best results has room for every node it drops none, and
when no rule stops the search early it ends with no candidate left, unless its width is used up.

## Main definitions

- `Tracks` — the invariant of the search, with the nodes expanded so far

## Main results

- `tracks_searchLoop` — the invariant of a whole search
- `searchLoop_exhausts` — a search that nothing stops
- `visited_of_reachable` — such a search visits what can be reached from its entries
-/

namespace Graph

section Neighbors

variable {D : Type} {index : PackedIndex} {visited : List NodeId}

variable (index visited) in
theorem newNeighbors_spec (neighbors : List NodeId) :
    (newNeighbors index visited neighbors).Nodup ∧
      (∀ id ∈ newNeighbors index visited neighbors,
        id ∉ visited ∧ id.toNat < index.vector_count ∧ id ∈ neighbors) ∧
      ∀ id ∈ neighbors, id.toNat < index.vector_count →
        id ∈ visited ∨ id ∈ newNeighbors index visited neighbors := by
  induction neighbors generalizing visited with
  | nil => exact ⟨List.nodup_nil, nofun, nofun⟩
  | cons id neighbors ih =>
    rw [newNeighbors]
    split
    · next hskip =>
      obtain ⟨hnodup, hsound, hcomplete⟩ := ih visited
      refine ⟨hnodup, fun other h => ?_, fun other h hlt => ?_⟩
      · obtain ⟨hnew, hlt, hmem⟩ := hsound other h
        exact ⟨hnew, hlt, List.mem_cons_of_mem _ hmem⟩
      · rcases List.mem_cons.mp h with rfl | h
        · exact Or.inl (hskip.resolve_left (not_le.mpr hlt))
        · exact hcomplete other h hlt
    · next htake =>
      rw [not_or, not_le] at htake
      obtain ⟨hnodup, hsound, hcomplete⟩ := ih (id :: visited)
      refine ⟨List.nodup_cons.mpr ⟨fun h => (hsound id h).1 List.mem_cons_self, hnodup⟩,
        fun other h => ?_, fun other h hlt => ?_⟩
      · rcases List.mem_cons.mp h with rfl | h
        · exact ⟨htake.2, htake.1, List.mem_cons_self⟩
        · obtain ⟨hnew, hlt, hmem⟩ := hsound other h
          exact ⟨fun hv => hnew (List.mem_cons_of_mem _ hv), hlt, List.mem_cons_of_mem _ hmem⟩
      · rcases List.mem_cons.mp h with rfl | h
        · exact Or.inr List.mem_cons_self
        · rcases hcomplete other h hlt with hv | hv
          · rcases List.mem_cons.mp hv with rfl | hv
            · exact Or.inr List.mem_cons_self
            · exact Or.inl hv
          · exact Or.inr (List.mem_cons_of_mem _ hv)

variable (index visited) in
theorem batchNeighbors_spec (batch : List (SearchResult D)) :
    (batchNeighbors index visited batch).flatten.Nodup ∧
      (∀ id ∈ (batchNeighbors index visited batch).flatten,
        id ∉ visited ∧ id.toNat < index.vector_count ∧
          ∃ current ∈ batch, id ∈ (index.loadNode current.id).neighbors) ∧
      ∀ current ∈ batch, ∀ id ∈ (index.loadNode current.id).neighbors,
        id.toNat < index.vector_count →
          id ∈ visited ∨ id ∈ (batchNeighbors index visited batch).flatten := by
  induction batch generalizing visited with
  | nil => exact ⟨List.nodup_nil, nofun, nofun⟩
  | cons current batch ih =>
    rw [batchNeighbors, List.flatten_cons]
    obtain ⟨hnodup, hsound, hcomplete⟩ :=
      newNeighbors_spec index visited (index.loadNode current.id).neighbors
    generalize newNeighbors index visited (index.loadNode current.id).neighbors = found at *
    obtain ⟨hrest, hsound', hcomplete'⟩ := ih (found.reverse ++ visited)
    have hlater : ∀ id ∈ (batchNeighbors index (found.reverse ++ visited) batch).flatten,
        id ∉ found ∧ id ∉ visited := by
      intro id hid
      have hnew := (hsound' id hid).1
      rw [List.mem_append, List.mem_reverse, not_or] at hnew
      exact hnew
    refine ⟨?_, fun id hid => ?_, fun other hother id hid hlt => ?_⟩
    · rw [List.nodup_append]
      exact ⟨hnodup, hrest, fun a ha b hb hab => (hlater b hb).1 (hab ▸ ha)⟩
    · rcases List.mem_append.mp hid with hid | hid
      · obtain ⟨hnew, hlt, hmem⟩ := hsound id hid
        exact ⟨hnew, hlt, current, List.mem_cons_self, hmem⟩
      · obtain ⟨-, hlt, other, hother, hmem⟩ := hsound' id hid
        exact ⟨(hlater id hid).2, hlt, other, List.mem_cons_of_mem _ hother, hmem⟩
    · rw [List.mem_append]
      rcases List.mem_cons.mp hother with rfl | hother
      · exact (hcomplete id hid hlt).imp_right Or.inl
      · rcases hcomplete' other hother id hid hlt with hv | hv
        · rw [List.mem_append, List.mem_reverse] at hv
          rcases hv with hv | hv
          · exact Or.inr (Or.inl hv)
          · exact Or.inl hv
        · exact Or.inr (Or.inr hv)

/-- Distinct ids below a bound. -/
theorem length_le_of_range {count : ℕ} {ids : List NodeId} (hnodup : ids.Nodup)
    (hrange : ∀ id ∈ ids, id.toNat < count) : ids.length ≤ count := by
  have hmap : (ids.map UInt32.toNat).Nodup :=
    hnodup.map fun _ _ h => UInt32.toNat_inj.mp h
  have hsub : ∀ n ∈ ids.map UInt32.toNat, n ∈ List.range count := by
    intro n hn
    obtain ⟨id, hid, rfl⟩ := List.mem_map.mp hn
    exact List.mem_range.mpr (hrange id hid)
  have hle := (List.subperm_of_subset hmap hsub).length_le
  rwa [List.length_map, List.length_range] at hle

end Neighbors

section Pushes

variable {D : Type} [LinearOrder D] {index : PackedIndex} {config : DiskGraphSearchConfig}
  {distances : QueryDistances D} {state : SearchState D}

variable (distances) in
theorem rankByDistance_ids (ids : List NodeId) :
    ((rankByDistance distances ids).map SearchResult.id).Perm ids := by
  have hperm := (TopK.sortBy_perm SearchResult.rank
    (ids.map fun id => (⟨id, distances.adc id⟩ : SearchResult D))).map SearchResult.id
  have hids : (ids.map fun id => (⟨id, distances.adc id⟩ : SearchResult D)).map
      SearchResult.id = ids := by
    rw [List.map_map]
    exact List.map_id _
  rwa [hids] at hperm

/-- What some pushes do to the two pools. -/
structure Pushed (index : PackedIndex) (config : DiskGraphSearchConfig) (state next : SearchState D)
    (ids : List NodeId) : Prop where
  visited : next.visited = state.visited
  expanded : next.expanded = state.expanded
  candidates : (next.candidates.map SearchResult.id).Perm
    (ids ++ state.candidates.map SearchResult.id)
  best_sub : ∀ result ∈ next.best, result.id ∈ ids ∨ result ∈ state.best
  best_room : state.best.length + ids.length ≤ resultCapacity index config →
    (next.best.map SearchResult.id).Perm (ids ++ state.best.map SearchResult.id)

omit [LinearOrder D] in
theorem Pushed.trans {next final : SearchState D} {ids more : List NodeId}
    (h : Pushed index config state next ids) (h' : Pushed index config next final more) :
    Pushed index config state final (ids ++ more) := by
  have hswap : ∀ rest : List NodeId, (more ++ (ids ++ rest)).Perm (ids ++ more ++ rest) := by
    intro rest
    rw [← List.append_assoc]
    exact List.perm_append_comm.append_right rest
  refine ⟨h'.visited.trans h.visited, h'.expanded.trans h.expanded,
    (h'.candidates.trans (h.candidates.append_left more)).trans (hswap _), fun result hr => ?_,
    fun hroom => ?_⟩
  · rw [List.mem_append]
    rcases h'.best_sub result hr with hid | hmem
    · exact Or.inl (Or.inr hid)
    · exact (h.best_sub result hmem).imp_left Or.inl
  · rw [List.length_append] at hroom
    have hfirst := h.best_room (by omega)
    have hlength := hfirst.length_eq
    rw [List.length_map, List.length_append, List.length_map] at hlength
    exact ((h'.best_room (by omega)).trans (hfirst.append_left more)).trans (hswap _)

theorem pushed_pushCandidate (result : SearchResult D) :
    Pushed index config state (pushCandidate index config state result) [result.id] where
  visited := rfl
  expanded := rfl
  candidates := List.Perm.refl _
  best_sub other hother := by
    rcases TopK.mem_offer hother with rfl | hmem
    · exact Or.inl List.mem_cons_self
    · exact Or.inr hmem
  best_room hroom := by
    have hoffer : (pushCandidate index config state result).best = result :: state.best :=
      TopK.offer_of_lt hroom
    rw [hoffer]
    exact List.Perm.refl _

omit [LinearOrder D] in
theorem Pushed.perm {next : SearchState D} {ids ids' : List NodeId}
    (h : Pushed index config state next ids) (hperm : ids.Perm ids') :
    Pushed index config state next ids' :=
  ⟨h.visited, h.expanded, h.candidates.trans (hperm.append_right _),
    fun result hr => (h.best_sub result hr).imp_left hperm.mem_iff.mp,
    fun hroom => (h.best_room (hperm.length_eq.symm ▸ hroom)).trans (hperm.append_right _)⟩

omit [LinearOrder D] in
theorem pushed_refl : Pushed index config state state [] :=
  ⟨rfl, rfl, List.Perm.refl _, fun _ => Or.inr, fun _ => List.Perm.refl _⟩

theorem pushed_foldl (results : List (SearchResult D)) :
    Pushed index config state (results.foldl (pushCandidate index config) state)
      (results.map SearchResult.id) := by
  induction results generalizing state with
  | nil => exact pushed_refl
  | cons result results ih => exact (pushed_pushCandidate result).trans ih

variable (index config distances state) in
theorem pushed_ranked (ids : List NodeId) :
    Pushed index config state
      ((rankByDistance distances ids).foldl (pushCandidate index config) state) ids :=
  (pushed_foldl _).perm (rankByDistance_ids distances ids)

theorem pushed_updateAdaptiveStop {next : SearchState D} {ids : List NodeId}
    (h : Pushed index config state next ids) :
    Pushed index config state (updateAdaptiveStop index config distances next) ids := by
  rw [updateAdaptiveStop]
  split
  · exact h
  · split
    · exact h
    · exact ⟨h.visited, h.expanded, h.candidates, h.best_sub, h.best_room⟩

theorem pushed_batch (found : List (List NodeId)) :
    Pushed index config state (found.foldl (pushRanked index config distances) state)
      found.flatten := by
  induction found generalizing state with
  | nil => exact pushed_refl
  | cons ids found ih =>
    exact (pushed_updateAdaptiveStop (pushed_ranked _ _ _ _ ids)).trans ih

end Pushes

section Batch

variable {D : Type} [LinearOrder D] {index : PackedIndex} {config : DiskGraphSearchConfig}

variable (index config) in
theorem takeBatch_spec (limit : ℕ) (state : SearchState D) :
    ((takeBatch index config limit state).1 ++
        (takeBatch index config limit state).2.candidates).Perm state.candidates ∧
      (takeBatch index config limit state).2 =
        { state with candidates := (takeBatch index config limit state).2.candidates } := by
  induction limit generalizing state with
  | zero => exact ⟨List.Perm.refl _, rfl⟩
  | succ limit ih =>
    rw [takeBatch]
    cases htop : state.candidates.argmin SearchResult.rank with
    | none => exact ⟨List.Perm.refl _, rfl⟩
    | some top =>
      dsimp only
      split
      · exact ⟨List.Perm.refl _, rfl⟩
      · obtain ⟨hperm, hsame⟩ := ih { state with candidates := state.candidates.erase top }
        refine ⟨?_, hsame⟩
        exact (hperm.cons top).trans (List.perm_cons_erase (List.argmin_mem htop)).symm

variable (index) in
/-- With no rule that stops the search, a round finds a candidate to expand. -/
theorem takeBatch_ne_nil (hstop : config.early_stop = false)
    (hadaptive : config.adaptive_early_stop = false) {limit : ℕ} (hlimit : 0 < limit)
    {state : SearchState D} (hcandidates : state.candidates ≠ []) :
    (takeBatch index config limit state).1 ≠ [] := by
  obtain ⟨limit, rfl⟩ := Nat.exists_eq_succ_of_ne_zero hlimit.ne'
  rw [takeBatch]
  cases htop : state.candidates.argmin SearchResult.rank with
  | none => exact absurd (List.argmin_eq_none.mp htop) hcandidates
  | some top =>
    have hgo : updateFrontier index config state top = false := by
      simp [updateFrontier, shouldStop, hstop, hadaptive]
    simp [hgo]

end Batch

/-- The nodes `done` are expanded, the candidates wait; together they are what was visited. Every
node visited satisfies `P`. -/
structure Tracks {D : Type} (index : PackedIndex) (config : DiskGraphSearchConfig)
    (P : NodeId → Prop) (state : SearchState D) (done : List NodeId) : Prop where
  nodup : state.visited.Nodup
  range : ∀ id ∈ state.visited, id.toNat < index.vector_count
  holds : ∀ id ∈ state.visited, P id
  split : (done ++ state.candidates.map SearchResult.id).Perm state.visited
  expanded : done.length = state.expanded
  closed : ∀ id ∈ done, ∀ neighbor ∈ (index.loadNode id).neighbors,
    neighbor.toNat < index.vector_count → neighbor ∈ state.visited
  best_sub : ∀ result ∈ state.best, result.id ∈ state.visited
  best_all : resultCapacity index config = index.vector_count →
    (state.best.map SearchResult.id).Perm state.visited

section Run

variable {D : Type} [LinearOrder D] {index : PackedIndex} {config : DiskGraphSearchConfig}
  {distances : QueryDistances D} {P : NodeId → Prop} {state : SearchState D} {done : List NodeId}

theorem tracks_start (hentries : ∀ id ∈ acceptedEntries index config, P id) :
    Tracks index config P (initializeSearchState index config distances) [] := by
  have haccepted : (acceptedEntries index config).Nodup := by
    have hnodup : ((acceptedEntries index config).map id).Nodup := Versions.firstsFrom_nodup [] _
    rwa [List.map_id] at hnodup
  have hrange : ∀ entry ∈ acceptedEntries index config, entry.toNat < index.vector_count := by
    intro entry hentry
    have hmem := (Versions.mem_firstsFrom hentry).1
    exact of_decide_eq_true (List.mem_filter.mp hmem).2
  have hpushed : Pushed index config ({ visited := acceptedEntries index config } : SearchState D)
      (initializeSearchState index config distances) (acceptedEntries index config) :=
    pushed_ranked _ _ _ _ _
  have hvisited := hpushed.visited
  refine ⟨?_, ?_, ?_, ?_, hpushed.expanded.symm, nofun, fun result hr => ?_, fun hcapacity => ?_⟩
  · rw [hvisited]
    exact haccepted
  · rw [hvisited]
    exact hrange
  · rw [hvisited]
    exact hentries
  · rw [hvisited]
    have hcandidates := hpushed.candidates
    rwa [List.map_nil, List.append_nil] at hcandidates
  · rw [hvisited]
    rcases hpushed.best_sub result hr with hid | hmem
    · exact hid
    · cases hmem
  · rw [hvisited]
    have hroom : ([] : List (SearchResult D)).length + (acceptedEntries index config).length ≤
        resultCapacity index config := by
      rw [hcapacity, List.length_nil, Nat.zero_add]
      exact length_le_of_range haccepted hrange
    have hbest := hpushed.best_room hroom
    rwa [List.map_nil, List.append_nil] at hbest

/-- One round: a batch leaves the candidates, and its new neighbours join them. -/
theorem tracks_expand (hP : ∀ id, ∀ neighbor ∈ (index.loadNode id).neighbors,
      neighbor.toNat < index.vector_count → P neighbor)
    (h : Tracks index config P state done) {batch rest : List (SearchResult D)}
    (hbatch : (batch ++ rest).Perm state.candidates) :
    Tracks index config P
      (expandCandidateBatch index config distances { state with candidates := rest } batch)
      (done ++ batch.map SearchResult.id) := by
  obtain ⟨hnodup, hsound, hcomplete⟩ :=
    batchNeighbors_spec index state.visited batch
  rw [expandCandidateBatch]
  dsimp only
  generalize batchNeighbors index state.visited batch = found at *
  obtain ⟨start, hstart⟩ : ∃ start : SearchState D, start = { state with
    candidates := rest
    visited := found.flatten.reverse ++ state.visited
    expanded := state.expanded + batch.length } := ⟨_, rfl⟩
  have hpushed : Pushed index config start
      (found.foldl (pushRanked index config distances) start) found.flatten := pushed_batch found
  rw [hstart] at hpushed
  have hvisited := hpushed.visited
  have hmem : ∀ id, id ∈ found.flatten.reverse ++ state.visited ↔
      id ∈ found.flatten ∨ id ∈ state.visited := by
    intro id
    rw [List.mem_append, List.mem_reverse]
  have hall : (found.flatten.reverse ++ state.visited).Nodup := by
    rw [List.nodup_append]
    refine ⟨List.nodup_reverse.mpr hnodup, h.nodup, fun a ha b hb hab => ?_⟩
    exact (hsound a (List.mem_reverse.mp ha)).1 (hab ▸ hb)
  have hrange : ∀ id ∈ found.flatten.reverse ++ state.visited, id.toNat < index.vector_count := by
    intro id hid
    rcases (hmem id).mp hid with hid | hid
    · exact (hsound id hid).2.1
    · exact h.range id hid
  have hperm : (found.flatten ++ state.visited).Perm (found.flatten.reverse ++ state.visited) :=
    (List.reverse_perm _).symm.append_right _
  refine ⟨?_, ?_, ?_, ?_, ?_, ?_, ?_, ?_⟩
  · rw [hvisited]
    exact hall
  · rw [hvisited]
    exact hrange
  · rw [hvisited]
    intro id hid
    rcases (hmem id).mp hid with hid | hid
    · obtain ⟨-, hlt, current, -, hneighbor⟩ := hsound id hid
      exact hP current.id id hneighbor hlt
    · exact h.holds id hid
  · rw [hvisited]
    have hsplit : (done ++ batch.map SearchResult.id ++ rest.map SearchResult.id).Perm
        state.visited := by
      refine List.Perm.trans ?_ h.split
      rw [List.append_assoc, ← List.map_append]
      exact (hbatch.map _).append_left done
    refine (hpushed.candidates.append_left _).trans (List.Perm.trans ?_ hperm)
    rw [← List.append_assoc]
    refine (List.perm_append_comm.append_right _).trans ?_
    rw [List.append_assoc]
    exact hsplit.append_left _
  · rw [List.length_append, List.length_map, h.expanded]
    exact hpushed.expanded.symm
  · rw [hvisited]
    intro id hid neighbor hneighbor hlt
    rw [hmem]
    rcases List.mem_append.mp hid with hid | hid
    · exact Or.inr (h.closed id hid neighbor hneighbor hlt)
    · obtain ⟨current, hcurrent, rfl⟩ := List.mem_map.mp hid
      exact (hcomplete current hcurrent neighbor hneighbor hlt).symm
  · rw [hvisited]
    intro result hr
    rw [hmem]
    rcases hpushed.best_sub result hr with hid | hbest
    · exact Or.inl hid
    · exact Or.inr (h.best_sub result hbest)
  · rw [hvisited]
    intro hcapacity
    have hbest := h.best_all hcapacity
    have hlength := hbest.length_eq
    rw [List.length_map] at hlength
    have htotal := length_le_of_range hall hrange
    rw [List.length_append, List.length_reverse] at htotal
    refine (hpushed.best_room ?_).trans ((hbest.append_left _).trans hperm)
    rw [hcapacity]
    change state.best.length + _ ≤ _
    omega

/-- A whole search: some nodes are expanded, and the invariant holds. -/
theorem tracks_searchLoop (hP : ∀ id, ∀ neighbor ∈ (index.loadNode id).neighbors,
      neighbor.toNat < index.vector_count → P neighbor)
    (effective_beam_width rounds : ℕ) (h : Tracks index config P state done) :
    ∃ expanded, Tracks index config P
      (searchLoop index config distances effective_beam_width rounds state) expanded := by
  induction rounds generalizing state done with
  | zero => exact ⟨done, h⟩
  | succ rounds ih =>
    rw [searchLoop]
    split
    · exact ⟨done, h⟩
    · obtain ⟨hperm, hsame⟩ := takeBatch_spec index config
        (min effective_beam_width (config.search_width - state.expanded)) state
      rw [selectCandidateBatch]
      generalize takeBatch index config
        (min effective_beam_width (config.search_width - state.expanded)) state = taken at *
      obtain ⟨batch, next⟩ := taken
      dsimp only at hperm hsame ⊢
      rw [hsame]
      split
      · next hempty =>
        rw [List.isEmpty_iff.mp hempty, List.nil_append] at hperm
        refine ⟨done, h.nodup, h.range, h.holds, ?_, h.expanded, h.closed, h.best_sub, h.best_all⟩
        exact ((hperm.map _).append_left done).trans h.split
      · exact ih (tracks_expand hP h hperm)

variable (index config distances) in
/-- Nothing visited is forgotten. -/
theorem visited_searchLoop (effective_beam_width rounds : ℕ) (state : SearchState D) {id : NodeId}
    (hid : id ∈ state.visited) :
    id ∈ (searchLoop index config distances effective_beam_width rounds state).visited := by
  induction rounds generalizing state with
  | zero => exact hid
  | succ rounds ih =>
    rw [searchLoop]
    split
    · exact hid
    · obtain ⟨-, hsame⟩ := takeBatch_spec index config
        (min effective_beam_width (config.search_width - state.expanded)) state
      rw [selectCandidateBatch]
      generalize takeBatch index config
        (min effective_beam_width (config.search_width - state.expanded)) state = taken at *
      obtain ⟨batch, next⟩ := taken
      dsimp only at hsame ⊢
      have hnext : id ∈ next.visited := by
        rw [hsame]
        exact hid
      split
      · exact hnext
      · refine ih _ ?_
        rw [expandCandidateBatch, (pushed_batch _).visited]
        exact List.mem_append_right _ hnext

theorem visited_start :
    (initializeSearchState index config distances).visited = acceptedEntries index config :=
  (pushed_ranked index config distances { visited := acceptedEntries index config }
    (acceptedEntries index config)).visited

/-- A search that nothing stops early ends without candidates or with its width used up. -/
theorem searchLoop_exhausts (hstop : config.early_stop = false)
    (hadaptive : config.adaptive_early_stop = false) {effective_beam_width : ℕ}
    (hbeam : 0 < effective_beam_width) (rounds : ℕ) (state : SearchState D)
    (hrounds : config.search_width ≤ state.expanded + rounds) :
    (searchLoop index config distances effective_beam_width rounds state).candidates = [] ∨
      config.search_width ≤
        (searchLoop index config distances effective_beam_width rounds state).expanded := by
  induction rounds generalizing state with
  | zero => exact Or.inr hrounds
  | succ rounds ih =>
    rw [searchLoop]
    split
    · next hend =>
      rw [Bool.or_eq_true, List.isEmpty_iff, decide_eq_true_eq] at hend
      exact hend
    · next hgo =>
      rw [Bool.or_eq_true, not_or, List.isEmpty_iff, decide_eq_true_eq, not_le] at hgo
      obtain ⟨hcandidates, hwidth⟩ := hgo
      have hlimit : 0 < min effective_beam_width (config.search_width - state.expanded) := by omega
      have hne := takeBatch_ne_nil index hstop hadaptive hlimit hcandidates
      obtain ⟨-, hsame⟩ := takeBatch_spec index config
        (min effective_beam_width (config.search_width - state.expanded)) state
      rw [selectCandidateBatch]
      generalize takeBatch index config
        (min effective_beam_width (config.search_width - state.expanded)) state = taken at *
      obtain ⟨batch, next⟩ := taken
      dsimp only at hne hsame ⊢
      rw [if_neg (by simpa using hne)]
      refine ih _ ?_
      have hexpanded : (expandCandidateBatch index config distances next batch).expanded =
          next.expanded + batch.length := (pushed_batch _).expanded
      have hnext : next.expanded = state.expanded := by rw [hsame]
      have hpositive := List.length_pos_iff.mpr hne
      omega

end Run

/-- An edge of the index that the search follows. -/
def Follows (index : PackedIndex) (source target : NodeId) : Prop :=
  target ∈ (index.loadNode source).neighbors ∧ target.toNat < index.vector_count

/-- Without candidates left, the search has visited everything it can reach. -/
theorem visited_of_reachable {D : Type} {index : PackedIndex} {config : DiskGraphSearchConfig}
    {P : NodeId → Prop} {state : SearchState D} {done : List NodeId}
    (h : Tracks index config P state done) (hcandidates : state.candidates = [])
    {entry id : NodeId} (hentry : entry ∈ state.visited)
    (hreach : Relation.ReflTransGen (Follows index) entry id) : id ∈ state.visited := by
  have hdone : ∀ node ∈ state.visited, node ∈ done := by
    intro node hnode
    have hsplit := h.split
    rw [hcandidates, List.map_nil, List.append_nil] at hsplit
    exact hsplit.mem_iff.mpr hnode
  induction hreach with
  | refl => exact hentry
  | tail _ hedge ih => exact h.closed _ (hdone _ ih) _ hedge.1 hedge.2

end Graph
