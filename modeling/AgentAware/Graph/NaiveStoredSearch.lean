import AgentAware.Graph.IndexSize
import AgentAware.Graph.NaiveIndexRoundTrip
import AgentAware.Graph.NaiveSearch
import AgentAware.Lib.ReturnsFrom

/-!
# The naive search of a file

`NaiveDiskGraphIndex::search_one` reads a node when it first needs it and keeps it in `local_nodes` for
the rest of the query. On a file that stores every node the search returns what the naive search of
the nodes returns, and reads every node at most once: without ADC each node that it visits, with ADC
only the nodes that it expands and the results that it ranks again.

## Main definitions

- `LocalNodes`, `loadNode` — the nodes that were read, and reading one
- `searchOne` — the search
- `Serves` — a file that stores the nodes of an index
- `Tracked` — the nodes that were read in a state of the search

## Main results

- `returnsFrom_loop`, `returnsFrom_finalize` — the rounds and the end of the search
- `searchOne_eq_naive` — the search of a file is the naive search of its nodes
- `naiveSearch_built` — the search of a file that was built is the naive search of the graph
-/

open Graph

namespace NaiveDiskGraphIndex

/-- `local_nodes`, and how often a node was read. -/
structure LocalNodes where
  nodes : AList fun _ : NodeId => DiskPageCodec.DiskNode := ∅
  node_reads : ℕ := 0

/-- Code that reads nodes; what a read throws ends the search. -/
abbrev NodeM := StateT LocalNodes (Except Fault)

section Search

variable {D : Type} [LinearOrder D] (index : NaiveDiskGraphIndex) (config : DiskGraphSearchConfig)
  (distances : QueryDistances D)

/-- What is known of the index before any of its nodes is read. -/
def sized : PackedIndex := PackedIndex.ofCount index.metadata.vector_count

/-- A node is read unless it was read before. -/
def loadNode (id : NodeId) : NodeM DiskPageCodec.DiskNode := do
  let read ← get
  match read.nodes.lookup id with
  | some node => return node
  | none =>
    let node ← StateT.lift (index.readNode id)
    set { nodes := read.nodes.insert id node, node_reads := read.node_reads + 1 : LocalNodes }
    return node

/-- Without ADC the search ranks by exact distances. -/
def candidateDistance (id : NodeId) : NodeM D :=
  if config.adc_enable then return distances.adc id
  else do
    let node ← loadNode index id
    return distances.exact node.vector

/-- An entry or a neighbour, when it is met. -/
def visit (state : SearchState D) (id : NodeId) : NodeM (SearchState D) :=
  if index.metadata.vector_count ≤ id.toNat ∨ id ∈ state.visited then return state
  else do
    let distance ← candidateDistance index config distances id
    return pushCandidate (sized index) config { state with visited := id :: state.visited }
      ⟨id, distance⟩

def start : NodeM (SearchState D) :=
  let entries := if config.seed_ids = [] then
      selectEvenlySpacedEntries index.metadata.vector_count config.entry_count
    else config.seed_ids
  entries.foldlM (visit index config distances) {}

def expand (state : SearchState D) (current : SearchResult D) : NodeM (SearchState D) := do
  let node ← loadNode index current.id
  let state ← node.neighbors.foldlM (visit index config distances)
    { state with
      candidates := state.candidates.erase current
      expanded := state.expanded + 1 }
  return updateAdaptiveStop (sized index) config distances state

/-- The inner loop. A rule that stops the search empties the candidates. -/
def round : ℕ → SearchState D → NodeM (SearchState D)
  | 0, state => return state
  | limit + 1, state =>
    if config.search_width ≤ state.expanded then return state
    else
      match state.candidates.argmin SearchResult.rank with
      | none => return state
      | some current =>
        if updateFrontier (sized index) config state current then
          return { state with candidates := [] }
        else do
          let state ← expand index config distances state current
          round limit state

/-- Every round expands a node or empties the candidates, so `search_width` bounds the rounds. -/
def loop (effective_beam_width : ℕ) : ℕ → SearchState D → NodeM (SearchState D)
  | 0, state => return state
  | rounds + 1, state =>
    if state.candidates.isEmpty || config.search_width ≤ state.expanded then return state
    else do
      let state ← round index config distances effective_beam_width state
      loop effective_beam_width rounds state

/-- The exact distances of the results. -/
def rerankResults : List (SearchResult D) → NodeM (List (SearchResult D))
  | [] => return []
  | result :: results => do
    let node ← loadNode index result.id
    return ⟨result.id, distances.exact node.vector⟩ :: (← rerankResults results)

def rankedResults (state : SearchState D) : NodeM (List (SearchResult D)) := do
  let sorted := TopK.sortBy SearchResult.rank state.best
  if config.adc_enable ∧ 0 < config.rerank_topk then
    let results ← rerankResults index distances sorted
    return TopK.sortBy SearchResult.rank results
  else return sorted

def finalize (state : SearchState D) : NodeM (DiskGraphSearchResult D) := do
  let topk ← rankedResults index config distances state
  return {
    topk := topk.take (effectiveK (sized index) config)
    expanded := state.expanded
    visited := state.visited.length }

/-- The search, with the nodes that it has read. -/
def searchOne : Except Fault (DiskGraphSearchResult D × LocalNodes) := do
  throwFault (config.top_k = 0 ∨ config.search_width = 0 ∨ config.entry_count = 0)
    "Graph search top_k, search_width, and entry_count must be positive"
  let search : NodeM (DiskGraphSearchResult D) := do
    let state ← start index config distances
    let state ← loop index config distances (effectiveBeamWidth config) config.search_width state
    finalize index config distances state
  search {}

end Search

/-- The file stores the nodes of an index. -/
structure Serves (index : NaiveDiskGraphIndex) (nodes : PackedIndex) : Prop where
  count_eq : index.metadata.vector_count = nodes.vector_count
  reads : ∀ id : NodeId, id.toNat < nodes.vector_count → ∃ node, index.readNode id = .ok node ∧
    node.vector = (nodes.loadNode id).vector ∧ node.neighbors = (nodes.loadNode id).neighbors

/-- The nodes that were read, each of them once. -/
structure ReadOnce (nodes : PackedIndex) (known : LocalNodes) : Prop where
  node_eq : ∀ id node, known.nodes.lookup id = some node →
    node.vector = (nodes.loadNode id).vector ∧ node.neighbors = (nodes.loadNode id).neighbors
  reads_eq : known.node_reads = known.nodes.keys.length

/-- A state of the search, and the nodes that were read for it. -/
structure Tracked {D : Type} (nodes : PackedIndex) (config : DiskGraphSearchConfig)
    (state : SearchState D) (known : LocalNodes) : Prop where
  read_once : ReadOnce nodes known
  in_range : ∀ id ∈ state.visited, id.toNat < nodes.vector_count
  nodup : state.visited.Nodup
  waiting : ∀ result ∈ state.candidates, result.id ∈ state.visited
  best : ∀ result ∈ state.best, result.id ∈ state.visited
  room : state.best.length ≤ resultCapacity nodes config
  /-- Without ADC the nodes visited were read, and no others. -/
  exact : config.adc_enable = false → ∀ id, id ∈ known.nodes.keys ↔ id ∈ state.visited
  /-- With ADC no more nodes were read than expanded. -/
  few : config.adc_enable = true → known.node_reads ≤ state.expanded

section Steps

variable {D : Type} [LinearOrder D] {index : NaiveDiskGraphIndex} {config : DiskGraphSearchConfig}
  {distances : QueryDistances D} {nodes : PackedIndex} {state : SearchState D} {known : LocalNodes}
  {id : NodeId}

/-- A node is read when it is not known. -/
structure Loaded (nodes : PackedIndex) (id : NodeId) (known : LocalNodes)
    (node : DiskPageCodec.DiskNode) (after : LocalNodes) : Prop where
  vector_eq : node.vector = (nodes.loadNode id).vector
  neighbors_eq : node.neighbors = (nodes.loadNode id).neighbors
  read_once : ReadOnce nodes after
  mem_keys : ∀ other, other ∈ after.nodes.keys ↔ other = id ∨ other ∈ known.nodes.keys
  reads_le : after.node_reads ≤ known.node_reads + 1

theorem returnsFrom_loadNode (hserves : Serves index nodes) (h : ReadOnce nodes known)
    (hid : id.toNat < nodes.vector_count) :
    ReturnsFrom (loadNode index id) known (Loaded nodes id known) := by
  apply ReturnsFrom.get_bind
  cases hlookup : known.nodes.lookup id with
  | some node =>
    have hkey : id ∈ known.nodes.keys := AList.lookup_isSome.mp (hlookup ▸ rfl)
    obtain ⟨hvector, hneighbors⟩ := h.node_eq id node hlookup
    refine ReturnsFrom.pure ⟨hvector, hneighbors, h, fun other => ⟨Or.inr, ?_⟩, Nat.le_succ _⟩
    rintro (rfl | hother)
    · exact hkey
    · exact hother
  | none =>
    have hkey : id ∉ known.nodes.keys := AList.lookup_eq_none.mp hlookup
    obtain ⟨node, hnode, hvector, hneighbors⟩ := hserves.reads id hid
    refine ReturnsFrom.lift_bind ⟨node, hnode, rfl⟩ ?_
    rintro _ rfl
    apply ReturnsFrom.set_bind
    refine ReturnsFrom.pure ⟨hvector, hneighbors, ⟨fun other found hfound => ?_, ?_⟩,
      fun other => ?_, le_rfl⟩
    · by_cases heq : other = id
      · subst heq
        rw [AList.lookup_insert] at hfound
        cases hfound
        exact ⟨hvector, hneighbors⟩
      · rw [AList.lookup_insert_ne heq] at hfound
        exact h.node_eq other found hfound
    · rw [h.reads_eq, AList.keys_insert, List.length_cons, List.erase_of_not_mem hkey]
    · rw [AList.keys_insert, List.erase_of_not_mem hkey]
      exact List.mem_cons

/-- Reading a node that is known changes nothing. -/
theorem Loaded.reads_eq {node : DiskPageCodec.DiskNode} {after : LocalNodes}
    (h : Loaded nodes id known node after) (hknown : ReadOnce nodes known)
    (hid : id ∈ known.nodes.keys) : after.node_reads = known.node_reads := by
  have hkeys : ∀ other, other ∈ after.nodes.keys ↔ other ∈ known.nodes.keys := by
    intro other
    rw [h.mem_keys]
    exact ⟨fun hor => hor.elim (fun heq => heq ▸ hid) fun hother => hother, Or.inr⟩
  rw [h.read_once.reads_eq, hknown.reads_eq]
  exact ((List.perm_ext_iff_of_nodup after.nodes.keys_nodup known.nodes.keys_nodup).mpr
    hkeys).length_eq

section Counted

variable (hcount : index.metadata.vector_count = nodes.vector_count)
include hcount

theorem sized_vector_count : (sized index).vector_count = nodes.vector_count := by
  rw [sized, PackedIndex.vector_count_ofCount, hcount]

end Counted

/-- An id is met. -/
theorem returnsFrom_visit (hserves : Serves index nodes) (h : Tracked nodes config state known)
    (id : NodeId) :
    ReturnsFrom (visit index config distances state id) known fun next after =>
      next = naiveVisit nodes config distances state id ∧ Tracked nodes config next after := by
  have hcount := hserves.count_eq
  have hsized := sized_vector_count hcount
  rw [visit, naiveVisit, hcount]
  split
  · exact ReturnsFrom.pure ⟨rfl, h⟩
  · next hnew =>
    rw [not_or, not_le] at hnew
    obtain ⟨hrange, hfresh⟩ := hnew
    have hpushed : ∀ (distance : D) (after : LocalNodes), ReadOnce nodes after →
        (config.adc_enable = false →
          ∀ other, other ∈ after.nodes.keys ↔ other = id ∨ other ∈ known.nodes.keys) →
        (config.adc_enable = true → after.node_reads ≤ known.node_reads) →
        Tracked nodes config (pushCandidate nodes config
          { state with visited := id :: state.visited } ⟨id, distance⟩) after := by
      intro distance after honce hkeys hreads
      constructor
      · exact honce
      · intro other hother
        rcases List.mem_cons.mp hother with rfl | hother
        · exact hrange
        · exact h.in_range other hother
      · exact List.nodup_cons.mpr ⟨hfresh, h.nodup⟩
      · intro result hresult
        rcases List.mem_cons.mp hresult with rfl | hresult
        · exact List.mem_cons_self
        · exact List.mem_cons_of_mem _ (h.waiting result hresult)
      · intro result hresult
        rcases TopK.mem_offer hresult with rfl | hresult
        · exact List.mem_cons_self
        · exact List.mem_cons_of_mem _ (h.best result hresult)
      · exact TopK.length_offer_le h.room
      · intro hadc other
        rw [hkeys hadc, h.exact hadc]
        exact List.mem_cons.symm
      · exact fun hadc => (hreads hadc).trans (h.few hadc)
    rw [candidateDistance, Graph.candidateDistance, pushCandidate_of_count hsized]
    split
    · next hadc =>
      exact ReturnsFrom.pure ⟨rfl, hpushed _ known h.read_once
        (fun hexact => absurd hadc (Bool.eq_false_iff.mp hexact)) fun _ => le_rfl⟩
    · next hexact =>
      refine ReturnsFrom.bind (P := fun distance after =>
        distance = distances.exact (nodes.loadNode id).vector ∧ ReadOnce nodes after ∧
          ∀ other, other ∈ after.nodes.keys ↔ other = id ∨ other ∈ known.nodes.keys) ?_ ?_
      · refine ReturnsFrom.bind (returnsFrom_loadNode hserves h.read_once hrange)
          fun node after hloaded => ?_
        exact ReturnsFrom.pure ⟨congrArg distances.exact hloaded.vector_eq, hloaded.read_once,
          hloaded.mem_keys⟩
      · rintro _ after ⟨rfl, honce, hkeys⟩
        exact ReturnsFrom.pure ⟨rfl, hpushed _ after honce (fun _ => hkeys)
          fun hadc => absurd hadc hexact⟩

theorem returnsFrom_visits (hserves : Serves index nodes) (h : Tracked nodes config state known)
    (ids : List NodeId) :
    ReturnsFrom (ids.foldlM (visit index config distances) state) known fun next after =>
      next = ids.foldl (naiveVisit nodes config distances) state ∧
        Tracked nodes config next after :=
  ReturnsFrom.foldlM (fun _ id _ hstate => returnsFrom_visit hserves hstate id) h ids

theorem Tracked.updateAdaptiveStop (h : Tracked nodes config state known) :
    Tracked nodes config (updateAdaptiveStop nodes config distances state) known := by
  rw [Graph.updateAdaptiveStop]
  split
  · exact h
  · split
    · exact h
    · exact { h with }

/-- A candidate is expanded: its node is read if it is not known, and its neighbours are met. -/
theorem returnsFrom_expand (hserves : Serves index nodes) (h : Tracked nodes config state known)
    {current : SearchResult D} (hcurrent : current ∈ state.candidates) :
    ReturnsFrom (expand index config distances state current) known fun next after =>
      next = naiveExpand nodes config distances state current ∧ Tracked nodes config next after := by
  have hvisited := h.waiting current hcurrent
  refine ReturnsFrom.bind (returnsFrom_loadNode hserves h.read_once
    (h.in_range current.id hvisited)) fun node after hloaded => ?_
  have htaken : Tracked nodes config
      { state with
        candidates := state.candidates.erase current
        expanded := state.expanded + 1 } after := by
    refine { h with
      read_once := hloaded.read_once
      waiting := fun result hresult => h.waiting result (List.mem_of_mem_erase hresult)
      exact := fun hadc other => ?_
      few := fun hadc => hloaded.reads_le.trans (Nat.add_le_add_right (h.few hadc) 1) }
    rw [hloaded.mem_keys, h.exact hadc]
    exact ⟨fun hor => hor.elim (fun heq => heq ▸ hvisited) fun hother => hother, Or.inr⟩
  rw [hloaded.neighbors_eq]
  refine ReturnsFrom.bind (returnsFrom_visits hserves htaken _) ?_
  rintro _ last ⟨rfl, hlast⟩
  rw [updateAdaptiveStop_of_count (sized_vector_count hserves.count_eq)]
  exact ReturnsFrom.pure ⟨rfl, hlast.updateAdaptiveStop⟩

theorem returnsFrom_round (hserves : Serves index nodes) (limit : ℕ)
    (h : Tracked nodes config state known) :
    ReturnsFrom (round index config distances limit state) known fun next after =>
      next = naiveRound nodes config distances limit state ∧ Tracked nodes config next after := by
  induction limit generalizing state known with
  | zero => exact ReturnsFrom.pure ⟨rfl, h⟩
  | succ limit ih =>
    rw [round, naiveRound]
    split
    · exact ReturnsFrom.pure ⟨rfl, h⟩
    cases hcurrent : state.candidates.argmin SearchResult.rank with
    | none => exact ReturnsFrom.pure ⟨rfl, h⟩
    | some current =>
      dsimp only
      rw [updateFrontier_of_count (sized_vector_count hserves.count_eq)]
      split
      · exact ReturnsFrom.pure ⟨rfl, { h with
          waiting := fun result hresult => absurd hresult List.not_mem_nil }⟩
      · refine ReturnsFrom.bind (returnsFrom_expand hserves h (List.argmin_mem hcurrent)) ?_
        rintro _ after ⟨rfl, hnext⟩
        exact ih hnext

theorem returnsFrom_loop (hserves : Serves index nodes) (effective_beam_width rounds : ℕ)
    (h : Tracked nodes config state known) :
    ReturnsFrom (loop index config distances effective_beam_width rounds state) known
      fun next after => next = naiveLoop nodes config distances effective_beam_width rounds state ∧
        Tracked nodes config next after := by
  induction rounds generalizing state known with
  | zero => exact ReturnsFrom.pure ⟨rfl, h⟩
  | succ rounds ih =>
    rw [loop, naiveLoop]
    split
    · exact ReturnsFrom.pure ⟨rfl, h⟩
    · refine ReturnsFrom.bind (returnsFrom_round hserves effective_beam_width h) ?_
      rintro _ after ⟨rfl, hnext⟩
      exact ih hnext

theorem returnsFrom_start (hserves : Serves index nodes) :
    ReturnsFrom (start index config distances) {} fun next after =>
      next = naiveStart nodes config distances ∧ Tracked nodes config next after := by
  have hnone : Tracked nodes config ({} : SearchState D) {} := by
    refine ⟨⟨fun id node hnode => ?_, rfl⟩, fun id hid => absurd hid List.not_mem_nil,
      List.nodup_nil, fun result hresult => absurd hresult List.not_mem_nil,
      fun result hresult => absurd hresult List.not_mem_nil, Nat.zero_le _, fun _ id => ?_,
      fun _ => le_rfl⟩
    · cases hnode
    · exact ⟨fun hid => absurd hid List.not_mem_nil, fun hid => absurd hid List.not_mem_nil⟩
  rw [start, naiveStart, hserves.count_eq]
  exact returnsFrom_visits hserves hnone _

omit [LinearOrder D] in
/-- The results are ranked again by the vectors that their nodes have. -/
theorem returnsFrom_rerankResults (hserves : Serves index nodes) (results : List (SearchResult D))
    (hids : ∀ result ∈ results, result.id.toNat < nodes.vector_count) (h : ReadOnce nodes known) :
    ReturnsFrom (rerankResults index distances results) known fun ranked after =>
      ranked = results.map (rerank nodes distances) ∧ ReadOnce nodes after ∧
        after.node_reads ≤ known.node_reads + results.length := by
  induction results generalizing known with
  | nil => exact ReturnsFrom.pure ⟨rfl, h, le_rfl⟩
  | cons result results ih =>
    refine ReturnsFrom.bind (returnsFrom_loadNode hserves h (hids result List.mem_cons_self))
      fun node after hloaded => ?_
    refine ReturnsFrom.bind (ih (fun other hother => hids other (List.mem_cons_of_mem _ hother))
      hloaded.read_once) ?_
    rintro _ last ⟨rfl, honce, hle⟩
    refine ReturnsFrom.pure ⟨?_, honce, ?_⟩
    · rw [List.map_cons, rerank, hloaded.vector_eq]
    · have hfirst := hloaded.reads_le
      rw [List.length_cons]
      omega

end Steps

/-- What a search costs: no node is read twice. Without ADC the nodes visited are read, with ADC no
more than those expanded and those ranked again. -/
structure ReadCost {D : Type} (nodes : PackedIndex) (config : DiskGraphSearchConfig)
    (result : DiskGraphSearchResult D) (known : LocalNodes) : Prop where
  once : known.node_reads = known.nodes.keys.length
  exact : config.adc_enable = false → known.node_reads = result.visited
  few : config.adc_enable = true → known.node_reads ≤
    result.expanded + if 0 < config.rerank_topk then resultCapacity nodes config else 0

section Transparency

variable {D : Type} [LinearOrder D] {index : NaiveDiskGraphIndex} {config : DiskGraphSearchConfig}
  {distances : QueryDistances D} {nodes : PackedIndex} {state : SearchState D} {known : LocalNodes}

theorem returnsFrom_finalize (hserves : Serves index nodes) (h : Tracked nodes config state known) :
    ReturnsFrom (finalize index config distances state) known fun result after =>
      result = naiveFinalize nodes config distances state ∧ ReadCost nodes config result after := by
  have hsorted : ∀ result ∈ TopK.sortBy SearchResult.rank state.best,
      result.id.toNat < nodes.vector_count := fun result hresult =>
    h.in_range _ (h.best result (TopK.mem_sortBy.mp hresult))
  have hlength : (TopK.sortBy SearchResult.rank state.best).length ≤ resultCapacity nodes config := by
    rw [(TopK.sortBy_perm SearchResult.rank state.best).length_eq]
    exact h.room
  rw [finalize, rankedResults, naiveFinalize,
    effectiveK_of_count (sized_vector_count hserves.count_eq)]
  split
  · next hrerank =>
    refine ReturnsFrom.bind (ReturnsFrom.bind
      (returnsFrom_rerankResults hserves _ hsorted h.read_once) fun ranked after hranked =>
      ReturnsFrom.pure (Q := fun topk after => topk = TopK.sortBy SearchResult.rank
          ((TopK.sortBy SearchResult.rank state.best).map (rerank nodes distances)) ∧
        ReadOnce nodes after ∧ after.node_reads ≤ known.node_reads + resultCapacity nodes config)
        ⟨congrArg (TopK.sortBy SearchResult.rank) hranked.1, hranked.2.1,
          hranked.2.2.trans (Nat.add_le_add_left hlength _)⟩) ?_
    rintro _ after ⟨rfl, honce, hle⟩
    refine ReturnsFrom.pure ⟨rfl, honce.reads_eq, fun hexact => ?_, fun hadc => ?_⟩
    · exact absurd hrerank.1 (Bool.eq_false_iff.mp hexact)
    · rw [if_pos hrerank.2]
      exact hle.trans (Nat.add_le_add_right (h.few hadc) _)
  · refine ReturnsFrom.pure ⟨rfl, h.read_once.reads_eq, fun hexact => ?_, fun hadc => ?_⟩
    · rw [h.read_once.reads_eq]
      exact ((List.perm_ext_iff_of_nodup known.nodes.keys_nodup h.nodup).mpr
        (h.exact hexact)).length_eq
    · exact (h.few hadc).trans (Nat.le_add_right _ _)

/-- On a file that stores the nodes of an index, the search returns what the naive search of the index
returns, refuses what that refuses, and reads no node twice. -/
theorem searchOne_eq_naive (hserves : Serves index nodes) :
    (searchOne index config distances).map Prod.fst =
        (naiveSearchOne nodes config distances).mapError Fault.thrown ∧
      ∀ result known, searchOne index config distances = .ok (result, known) →
        ReadCost nodes config result known := by
  have hsearch : ReturnsFrom (do
      let state ← start index config distances
      let state ← loop index config distances (effectiveBeamWidth config) config.search_width state
      finalize index config distances state) {} fun result after =>
      result = naiveFinalize nodes config distances (naiveLoop nodes config distances
        (effectiveBeamWidth config) config.search_width (naiveStart nodes config distances)) ∧
      ReadCost nodes config result after := by
    refine ReturnsFrom.bind (returnsFrom_start hserves) ?_
    rintro _ after ⟨rfl, hstart⟩
    refine ReturnsFrom.bind (returnsFrom_loop hserves _ _ hstart) ?_
    rintro _ after ⟨rfl, hloop⟩
    exact returnsFrom_finalize hserves hloop
  obtain ⟨result, known, hresult, hnaive, hcost⟩ := hsearch
  by_cases hpositive : config.top_k = 0 ∨ config.search_width = 0 ∨ config.entry_count = 0
  · have hrefused : searchOne index config distances = .error
        (.thrown "Graph search top_k, search_width, and entry_count must be positive") := by
      rw [searchOne, throwFault, if_pos hpositive]
      rfl
    rw [hrefused, naiveSearchOne, throwIf, if_pos hpositive]
    refine ⟨rfl, fun _ _ hok => ?_⟩
    cases hok
  · have hreturned : searchOne index config distances = .ok (result, known) := by
      rw [searchOne, throwFault_ok hpositive]
      exact hresult
    rw [hreturned, naiveSearchOne, throwIf, if_neg hpositive, hnaive]
    rw [hnaive] at hcost
    refine ⟨rfl, fun _ _ hok => ?_⟩
    cases hok
    exact hcost

section Built

variable {F : Type} {base : VectorSet} {graph : Adjacency} {build : PackedBuildConfig F}

/-- A file that was built serves the nodes that it was built from. -/
theorem serves_of_roundTrip (h : NaiveDiskGraphBuilder.RoundTrip base graph build index) :
    Serves index (builtIndex base graph) := by
  have hcount := builtIndex_vector_count base graph
  refine ⟨h.vector_count_eq.trans hcount.symm, fun id hid => ?_⟩
  rw [hcount] at hid
  have hread := h.stored id.toNat hid
  rw [nodeId_toNat] at hread
  have hnode : (builtIndex base graph).loadNode id =
      ⟨base.row id.toNat, neighborsOf graph id.toNat⟩ := by
    rw [PackedIndex.loadNode, builtIndex, List.getD_eq_getElem?_getD, List.getElem?_map,
      List.getElem?_range hid]
    rfl
  rw [hnode]
  exact ⟨_, hread, rfl, rfl⟩

/-- A search of a file that was built and opened again is the naive search of the vectors and the
graph that the builder was given. -/
theorem naiveSearch_built (hgraph : PackedDiskGraphBuilder.GraphOver base graph build.degree)
    (hpage : build.page_size ≤ maxTransfer)
    (hrecord : DiskPageCodec.graphRecordBytes base.dim build.degree
      (DiskPageCodec.pqCodeBytes build.pq_model) < 2 ^ 64)
    {path : String} {file : Bytes} (hbuild : NaiveDiskGraphBuilder.build base graph build = .ok file)
    (hopen : openIndex path file = .ok index) :
    (searchOne index config distances).map Prod.fst =
        (naiveSearchOne (builtIndex base graph) config distances).mapError Fault.thrown ∧
      ∀ result known, searchOne index config distances = .ok (result, known) →
        ReadCost (builtIndex base graph) config result known := by
  have haccept : NaiveDiskGraphBuilder.acceptConfig base build = .ok () := by
    rw [NaiveDiskGraphBuilder.build, except_bind_eq_ok] at hbuild
    exact hbuild.choose_spec.1
  have haccepted := NaiveDiskGraphBuilder.acceptConfig_ok haccept hrecord
  have hfile := NaiveDiskGraphBuilder.returns_build haccept haccepted hgraph
  rw [hbuild] at hfile
  cases hfile
  have hindex : openIndex path (NaiveDiskGraphBuilder.fileOf base graph build) = _ :=
    NaiveDiskGraphBuilder.openIndex_fileOf haccepted hpage path
  rw [hopen] at hindex
  cases hindex
  exact searchOne_eq_naive (serves_of_roundTrip
    (NaiveDiskGraphBuilder.roundTrip_fileOf haccepted hpage hgraph))

end Built

end Transparency

/-- A node and its neighbour: both are visited, and each is read once. -/
theorem naiveSearch_built_pair :
    let base : VectorSet := { dim := 1, values := [4, 9] }
    let graph : Adjacency := [[1], []]
    let build : PackedBuildConfig ℕ := { degree := 2 }
    let search : DiskGraphSearchConfig := { top_k := 2, search_width := 2, entry_count := 1 }
    let distances : QueryDistances ℕ :=
      { adc := UInt32.toNat, exact := fun values => (values.headD 0).toNat
        improves := fun _ _ => true }
    ∃ file index result known, NaiveDiskGraphBuilder.build base graph build = .ok file ∧
      openIndex "index" file = .ok index ∧
      searchOne index search distances = .ok (result, known) ∧
      result = { topk := [⟨0, 4⟩, ⟨1, 9⟩], expanded := 2, visited := 2 } ∧ known.node_reads = 2 := by
  intro base graph build search distances
  have hgraph : PackedDiskGraphBuilder.GraphOver base graph build.degree :=
    NaiveDiskGraphBuilder.graphOver_pair
  have haccept : NaiveDiskGraphBuilder.acceptConfig base build = .ok () := by decide +kernel
  have hrecord : DiskPageCodec.graphRecordBytes base.dim build.degree
      (DiskPageCodec.pqCodeBytes build.pq_model) < 2 ^ 64 := by decide
  have hpage : build.page_size ≤ maxTransfer := by decide
  have haccepted := NaiveDiskGraphBuilder.acceptConfig_ok haccept hrecord
  have hbuild := NaiveDiskGraphBuilder.returns_build haccept haccepted hgraph
  have hopen : openIndex "index" (NaiveDiskGraphBuilder.fileOf base graph build) = _ :=
    NaiveDiskGraphBuilder.openIndex_fileOf haccepted hpage "index"
  obtain ⟨hsame, hcost⟩ := @naiveSearch_built _ _ _ search distances _ base graph build hgraph hpage
    hrecord _ _ hbuild hopen
  have hnaive : naiveSearchOne (builtIndex base graph) search distances =
      .ok { topk := [⟨0, 4⟩, ⟨1, 9⟩], expanded := 2, visited := 2 } := by decide +kernel
  rw [hnaive] at hsame
  cases hsearch : searchOne ⟨NaiveDiskGraphBuilder.metadataOf base build,
      NaiveDiskGraphBuilder.fileOf base graph build⟩ search distances with
  | error fault =>
    rw [hsearch] at hsame
    cases hsame
  | ok found =>
    rw [hsearch] at hsame
    have hfound : found.1 = { topk := [⟨0, 4⟩, ⟨1, 9⟩], expanded := 2, visited := 2 } :=
      Except.ok.inj hsame
    have hreads := (hcost found.1 found.2 hsearch).exact rfl
    rw [hfound] at hreads
    exact ⟨_, _, found.1, found.2, hbuild, hopen, hsearch, hfound, hreads⟩

end NaiveDiskGraphIndex
