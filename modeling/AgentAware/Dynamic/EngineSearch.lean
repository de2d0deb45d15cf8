import AgentAware.Dynamic.BaseDeltaMerge
import AgentAware.Dynamic.ReadIsolation
import AgentAware.Graph.SearchPostcondition
import AgentAware.Lib.Interaction

/-!
# The engine's search beside writers

`PackedGraphEngine::search_one` takes no lock. It loads the sequence, searches the graph, and then
loads the published view twice, for the newest records of the ids that it found and for the nearest
records of the delta. Writers may take any number of steps between these loads. The search returns
what it would return if it had been alone with the manager from the first load on.

## Main definitions

- `PackedGraphEngine.searchOne` — the search, as a program that takes what it loads as replies
- `LoadsFrom` — loads that follow each other while a manager is open
- `PackedGraphEngine.searchedAt` — the result of a search at one moment

## Main results

- `LoadsFrom.extends` — what is loaded later extends what was loaded first
- `engineSearch_atomic` — beside any writers the search is one at the moment of its first load
-/

namespace Dynamic

open DynamicWriteManager Graph

/-- The statistics that are not times. -/
structure EngineSearchStats where
  used_graph_path : Bool := false
  dynamic_read_sequence : ℕ := 0
  expanded : ℕ := 0
  visited : ℕ := 0
  deriving DecidableEq, Repr

structure EngineSearchResult (D : Type) where
  topk : List (SearchResult D)
  stats : EngineSearchStats := {}
  deriving DecidableEq, Repr

namespace PackedGraphEngine

section Search

variable {D : Type} [LinearOrder D] (squared_l2 : List FloatBits → List FloatBits → D)
  (walk : List DynamicRecord → List DynamicRecord)
  (index_search : DiskGraphSearchConfig → Except String (DiskGraphSearchResult D))
  (search : DiskGraphSearchConfig) (query : List FloatBits) (top_k : ℕ)

/-- A reply is the manager at the moment of a load. `walk` is the order in which the table of
`latest_records_for` is walked. -/
def searchOne (has_manager : Bool) : Interaction Unit Manager (EngineSearchResult D) := do
  let read_sequence ←
    if has_manager then do
      let manager ← Interaction.ask
      pure manager.latest_sequence
    else pure 0
  let graph_result ← Interaction.ofExcept (index_search { search with top_k := top_k })
  let stats : EngineSearchStats :=
    { used_graph_path := true
      dynamic_read_sequence := read_sequence
      expanded := graph_result.expanded
      visited := graph_result.visited }
  if has_manager then do
    let latest ← Interaction.ask
    let latest_base_records := DynamicReadView.latestRecordsFor latest.read_view
      (graph_result.topk.map SearchResult.id) read_sequence true
    let delta ← Interaction.ask
    let delta_records :=
      DynamicReadView.searchDeltaL2At delta.read_view squared_l2 query top_k read_sequence
    pure
      { topk := mergeBaseAndDeltaL2 squared_l2 graph_result.topk
          (delta_records ++ walk (latest_base_records.entries.map Sigma.snd)) query top_k
        stats := stats }
  else pure { topk := graph_result.topk, stats := stats }

/-- The first `top_k` of the base results and the records of a manager, at the sequence that the
manager has published. -/
def searchedAt (manager : Manager) (graph_result : DiskGraphSearchResult D) : EngineSearchResult D where
  topk := TopK.topk SearchResult.rank top_k (overlay squared_l2 query graph_result.topk
    (DynamicReadView.collectAllDeltaRecordsAt manager.read_view manager.latest_sequence))
  stats :=
    { used_graph_path := true
      dynamic_read_sequence := manager.latest_sequence
      expanded := graph_result.expanded
      visited := graph_result.visited }

end Search

end PackedGraphEngine

/-- Loads that follow each other while the worlds of a list pass, latest first. Between two loads any
number of worlds may pass, or none. -/
inductive LoadsFrom : List World → List World → Prop
  | done (seen : List World) : LoadsFrom seen []
  | load {newer older : List World} {world : World} {loads : List World} :
    LoadsFrom (newer ++ [world]) loads → LoadsFrom (newer ++ world :: older) (world :: loads)

section Loads

variable {D : Type} [LinearOrder D] {config : Config D} {seen loads : List World} {first : World}

theorem LoadsFrom.mem (h : LoadsFrom seen loads) : ∀ world ∈ loads, world ∈ seen := by
  induction h with
  | done seen => exact fun world hworld => absurd hworld List.not_mem_nil
  | @load newer older world loads _ ih =>
    intro other hother
    rcases List.mem_cons.mp hother with rfl | hlater
    · exact List.mem_append_right _ List.mem_cons_self
    · rcases List.mem_append.mp (ih other hlater) with hnewer | hsame
      · exact List.mem_append_left _ hnewer
      · rw [List.mem_singleton.mp hsame]
        exact List.mem_append_right _ List.mem_cons_self

/-- Whatever is loaded after the first load extends what was loaded then. -/
theorem LoadsFrom.extends (h : LoadsFrom seen (first :: loads))
    (hpairs : seen.Pairwise fun later earlier => Extends earlier.manager later.manager) :
    ∀ world ∈ loads, Extends first.manager world.manager := by
  intro world hworld
  cases h with
  | load hlater =>
    rcases List.mem_append.mp (hlater.mem world hworld) with hnewer | hsame
    · exact (List.pairwise_append.mp hpairs).2.2 world hnewer first List.mem_cons_self
    · rw [List.mem_singleton.mp hsame]
      exact Extends.refl _

/-- What a reader loads first and what it loads later give it the same answers. -/
theorem LoadsFrom.readsAgree (hseen : Timeline config seen) (h : LoadsFrom seen (first :: loads)) :
    ∀ world ∈ loads, ReadsAgree first.manager world.manager := by
  obtain ⟨-, hopen, hpairs⟩ := hseen.spec
  intro world hworld
  exact readsAgree_of_extends (h.extends hpairs world hworld)
    (hopen first (h.mem first List.mem_cons_self))

end Loads

section Graph

variable {D : Type} [LinearOrder D] {index : PackedIndex} {config : DiskGraphSearchConfig}
  {distances : QueryDistances D} {result : DiskGraphSearchResult D}

theorem searchOne_topk_nodup (hindex : 0 < index.vector_count)
    (h : Graph.searchOne index config distances = .ok result) :
    (result.topk.map SearchResult.id).Nodup := by
  have htop : config.top_k ≠ 0 := by
    rw [Graph.searchOne, throwIf_bind_eq_ok] at h
    exact fun hzero => h.1 (Or.inl hzero)
  have hstart : Searched index config distances (initializeSearchState index config distances) [] :=
    searched_start (resultCapacity_pos htop hindex)
  have hsearched := searched_searchLoop (resultCapacity_pos htop hindex)
    (effectiveBeamWidth config) config.search_width hstart
  rw [searchOne_eq_ok h]
  refine (searchPost_of_searched hsearched fun id hid => ?_).topk_nodup
  exact visited_searchLoop _ _ _ _ _ _ (by rw [visited_start]; exact hid)

end Graph

namespace PackedGraphEngine

section Atomic

variable {D : Type} [LinearOrder D] {config : Config D} {walk : List DynamicRecord → List DynamicRecord}
  {index_search : DiskGraphSearchConfig → Except String (DiskGraphSearchResult D)}
  {search : DiskGraphSearchConfig} {query : List FloatBits} {top_k : ℕ}

/-- The search with what it loads filled in. -/
theorem ending_searchOne (squared_l2 : List FloatBits → List FloatBits → D)
    (sequenced latest delta : Manager) (rounds : ℕ) :
    ((searchOne squared_l2 walk index_search search query top_k true).run rounds ()
        [sequenced, latest, delta]).ending =
      match index_search { search with top_k := top_k } with
      | .error message => .threw message
      | .ok graph_result => .returned
        { topk := mergeBaseAndDeltaL2 squared_l2 graph_result.topk
            (DynamicReadView.searchDeltaL2At delta.read_view squared_l2 query top_k
                sequenced.latest_sequence ++
              walk ((DynamicReadView.latestRecordsFor latest.read_view
                (graph_result.topk.map SearchResult.id) sequenced.latest_sequence
                true).entries.map Sigma.snd)) query top_k
          stats := (searchedAt squared_l2 query top_k sequenced graph_result).stats } := by
  cases hgraph : index_search { search with top_k := top_k } with
  | error message =>
    simp only [searchOne, hgraph]
    rfl
  | ok graph_result =>
    simp only [searchOne, hgraph]
    rfl

/-- Whichever base results the search merges, it merges them with what was published at its first
load. -/
theorem ending_searchOne_eq {seen : List World} {sequenced latest delta : World}
    (hseen : Timeline config seen) (hloads : LoadsFrom seen [sequenced, latest, delta])
    (hwalk : ∀ records, (walk records).Perm records) (hquery : query ≠ [])
    (hnodup : ∀ graph_result, index_search { search with top_k := top_k } = .ok graph_result →
      (graph_result.topk.map SearchResult.id).Nodup) (rounds : ℕ) :
    ((searchOne config.squared_l2 walk index_search search query top_k true).run rounds ()
        [sequenced.manager, latest.manager, delta.manager]).ending =
      match index_search { search with top_k := top_k } with
      | .error message => .threw message
      | .ok graph_result =>
        .returned (searchedAt config.squared_l2 query top_k sequenced.manager graph_result) := by
  have hagree := hloads.readsAgree hseen
  have hlatest := hagree latest List.mem_cons_self
  have hdelta := hagree delta (List.mem_cons_of_mem _ List.mem_cons_self)
  rw [ending_searchOne]
  cases hgraph : index_search { search with top_k := top_k } with
  | error message => rfl
  | ok graph_result =>
    have hwalked : LatestBaseRecords sequenced.manager.read_view sequenced.manager.latest_sequence
        graph_result.topk (walk ((DynamicReadView.latestRecordsFor sequenced.manager.read_view
          (graph_result.topk.map SearchResult.id) sequenced.manager.latest_sequence
          true).entries.map Sigma.snd)) := hwalk _
    have hmerge : combine config.squared_l2 sequenced.manager.read_view
        sequenced.manager.latest_sequence graph_result.topk _ query top_k = _ :=
      combine_eq_topk (hnodup graph_result hgraph) hwalked hquery
    rw [combine] at hmerge
    dsimp only
    rw [hlatest.latest_records_for, hdelta.search, hmerge]
    rfl

/-- Whatever writers do between the loads, and in whichever order the table is walked, a search of the
packed graph returns what it would return at the moment of its first load, or throws what the search
of the graph throws. -/
theorem engineSearch_atomic {index : PackedIndex} {distances : QueryDistances D}
    {seen : List World} {sequenced latest delta : World} (hseen : Timeline config seen)
    (hloads : LoadsFrom seen [sequenced, latest, delta])
    (hwalk : ∀ records, (walk records).Perm records) (hindex : 0 < index.vector_count)
    (hquery : query ≠ []) (rounds : ℕ) :
    ((searchOne config.squared_l2 walk (fun search => Graph.searchOne index search distances) search
        query top_k true).run rounds ()
        [sequenced.manager, latest.manager, delta.manager]).ending =
      match Graph.searchOne index { search with top_k := top_k } distances with
      | .error message => .threw message
      | .ok graph_result =>
        .returned (searchedAt config.squared_l2 query top_k sequenced.manager graph_result) :=
  ending_searchOne_eq hseen hloads hwalk hquery
    (fun _ hgraph => searchOne_topk_nodup hindex hgraph) rounds

end Atomic

/-- The first load is before the writer's call, the others are after it. -/
theorem loadsFrom_visited (run : Run World) (past : List World) :
    LoadsFrom (run.visited ++ past)
      [run.visited.getLast (List.cons_ne_nil _ _), run.store, run.store] := by
  have hne : run.visited ≠ [] := List.cons_ne_nil _ _
  have hagain : LoadsFrom [run.store] [run.store] := @LoadsFrom.load [] [] _ [] (.done _)
  have hlater : LoadsFrom run.visited [run.store, run.store] :=
    @LoadsFrom.load [] run.past run.store _ hagain
  rw [← List.dropLast_append_getLast hne] at hlater
  have hall : LoadsFrom (run.visited.dropLast ++ run.visited.getLast hne :: past) _ := hlater.load
  rwa [← List.singleton_append, ← List.append_assoc, List.dropLast_append_getLast] at hall

/-- A node is erased after the sequence was loaded: the search returns it. -/
theorem engineSearch_atomic_erase :
    let config : Config ℕ := { squared_l2 := fun _ vector => (vector.headD 0).toNat }
    let index : PackedIndex := ⟨[⟨[], [1]⟩, ⟨[], [0, 2]⟩, ⟨[], [1]⟩]⟩
    let search : DiskGraphSearchConfig := { search_width := 3, entry_count := 1, adc_enable := true }
    let distances : QueryDistances ℕ := ⟨fun id => 4 + id.toNat, fun _ => 0, fun _ _ => true⟩
    let opened := ((DynamicWriteManager.open config).exec ⟨{}, new config⟩ []).2
    let inserted := (((Call.insert 7 [3]).program config).exec opened.store []).2
    let erased := (((Call.erase 7).program config).exec inserted.store []).2
    let sequenced := erased.visited.getLast (List.cons_ne_nil _ _)
    ((searchOne config.squared_l2 List.reverse (fun search => Graph.searchOne index search distances)
        search [0] 2 true).run 1 ()
        [sequenced.manager, erased.store.manager, erased.store.manager]).ending =
      .returned ⟨[⟨7, 3⟩, ⟨0, 4⟩], ⟨true, 1, 3, 3⟩⟩ := by
  intro config index search distances opened inserted erased sequenced
  have hopened : Timeline config [opened.store] := .opened rfl (by decide +kernel)
  have hinserted : Timeline config (inserted.visited ++ []) := hopened.call (by decide)
    (by decide +kernel)
  rw [List.append_nil] at hinserted
  have hseen : Timeline config (erased.visited ++ inserted.past) :=
    @Timeline.call _ _ config inserted.store inserted.past (.erase 7) [] hinserted (by decide)
      (by decide +kernel)
  refine (engineSearch_atomic hseen (loadsFrom_visited erased inserted.past) List.reverse_perm
    (by decide) (by decide) 1).trans ?_
  decide +kernel

end PackedGraphEngine

end Dynamic
