import AgentAware.Core.Types
import AgentAware.Lib.Checked
import AgentAware.Lib.TopK
import AgentAware.Lib.Versions

/-!
# Searching the packed index

The beam search of `PackedDiskGraphIndex::search_one` over the nodes of an opened index. A node that
the search loads is the one on its page; where the page comes from, a cache, a prefetch or a read, is
not part of this model. Approximate distances rank the candidates, exact ones the result.

## Main definitions

- `PackedIndex` — the nodes of an index
- `SearchState` — visited ids, the candidates, the best results
- `selectCandidateBatch`, `expandCandidateBatch` — one round of the search
- `searchOne` — the search
-/

namespace Graph

structure DiskNode where
  vector : List FloatBits
  neighbors : List NodeId
  deriving DecidableEq

/-- An opened index: every node id below `vector_count` has its node. -/
structure PackedIndex where
  nodes : List DiskNode

def PackedIndex.vector_count (index : PackedIndex) : ℕ := index.nodes.length

def PackedIndex.loadNode (index : PackedIndex) (id : NodeId) : DiskNode :=
  index.nodes.getD id.toNat ⟨[], []⟩

structure DiskGraphSearchConfig where
  top_k : ℕ := 10
  search_width : ℕ := 64
  beam_width : ℕ := 0
  entry_count : ℕ := 32
  seed_ids : List NodeId := []
  early_stop : Bool := false
  early_stop_min_expansions : ℕ := 0
  adaptive_early_stop : Bool := false
  early_stop_patience : ℕ := 16
  min_expansions : ℕ := 64
  /-- `adc_enable`, with a model that is there and enabled. -/
  adc_enable : Bool := false
  rerank_topk : ℕ := 0

/-- What a search computes with floats, for its query. -/
structure QueryDistances (D : Type) where
  /-- `adc_distance` with the table of the query. -/
  adc : NodeId → D
  /-- The exact distance of a vector from the query. -/
  exact : List FloatBits → D
  /-- The improvement of the worst result exceeds `early_stop_eps`; none is infinity. -/
  improves : Option D → D → Bool

structure SearchState (D : Type) where
  visited : List NodeId := []
  candidates : List (SearchResult D) := []
  best : List (SearchResult D) := []
  expanded : ℕ := 0
  stagnant_expansions : ℕ := 0
  previous_worst_distance : Option D := none

structure DiskGraphSearchResult (D : Type) where
  topk : List (SearchResult D)
  expanded : ℕ
  visited : ℕ
  deriving DecidableEq

def selectEvenlySpacedEntries (count requested : ℕ) : List NodeId :=
  if count = 0 ∨ requested = 0 then []
  else
    let actual := min requested count
    Versions.firsts id ((List.range actual).map fun i =>
      if actual = 1 then 0 else UInt32.ofNat (i * (count - 1) / (actual - 1)))

section Search

variable {D : Type} [LinearOrder D] (index : PackedIndex) (config : DiskGraphSearchConfig)
  (distances : QueryDistances D)

def effectiveK : ℕ := min config.top_k index.vector_count

def resultCapacity : ℕ :=
  min (max (effectiveK index config) config.rerank_topk) index.vector_count

/-- The entries in range, each once. -/
def acceptedEntries : List NodeId :=
  let entries := if config.seed_ids = [] then
      selectEvenlySpacedEntries index.vector_count config.entry_count
    else config.seed_ids
  Versions.firsts id (entries.filter fun entry => entry.toNat < index.vector_count)

def rankByDistance (ids : List NodeId) : List (SearchResult D) :=
  TopK.sortBy SearchResult.rank (ids.map fun id => ⟨id, distances.adc id⟩)

/-- Push to the candidates and offer to the best results. -/
def pushCandidate (state : SearchState D) (result : SearchResult D) : SearchState D :=
  { state with
    candidates := result :: state.candidates
    best := TopK.offer SearchResult.rank (resultCapacity index config) state.best result }

def initializeSearchState : SearchState D :=
  let accepted := acceptedEntries index config
  (rankByDistance distances accepted).foldl (pushCandidate index config) { visited := accepted }

/-- `best.top()`. -/
def worstBest (state : SearchState D) : Option D :=
  (state.best.argmax SearchResult.rank).map SearchResult.distance

def shouldStop (state : SearchState D) (next : SearchResult D) : Bool :=
  if !config.early_stop || state.best.length < resultCapacity index config ||
      state.expanded < config.early_stop_min_expansions then false
  else
    match worstBest state with
    | none => false
    | some worst => worst < next.distance

def updateAdaptiveStop (state : SearchState D) : SearchState D :=
  if !config.adaptive_early_stop || state.best.length < resultCapacity index config then state
  else
    match worstBest state with
    | none => state
    | some current =>
      { state with
        stagnant_expansions :=
          if distances.improves state.previous_worst_distance current then 0
          else state.stagnant_expansions + 1
        previous_worst_distance := some current }

/-- `update_frontier`, with the top of the candidates. -/
def updateFrontier (state : SearchState D) (top : SearchResult D) : Bool :=
  (config.adaptive_early_stop && config.min_expansions ≤ state.expanded &&
    config.early_stop_patience ≤ state.stagnant_expansions) || shouldStop index config state top

/-- Take the closest candidates, up to a limit, until a rule stops the search. -/
def takeBatch : ℕ → SearchState D → List (SearchResult D) × SearchState D
  | 0, state => ([], state)
  | limit + 1, state =>
    match state.candidates.argmin SearchResult.rank with
    | none => ([], state)
    | some top =>
      if updateFrontier index config state top then ([], state)
      else
        let (window, state) :=
          takeBatch limit { state with candidates := state.candidates.erase top }
        (top :: window, state)

/-- The window reserves its space beforehand, which is taken to succeed: a `search_width` above `2 ^ 60`
with no beam limit asks for more than a vector may hold. -/
def selectCandidateBatch (effective_beam_width : ℕ) (state : SearchState D) :
    List (SearchResult D) × SearchState D :=
  takeBatch index config (min effective_beam_width (config.search_width - state.expanded)) state

/-- The neighbours of a node that were not visited before, in its order. -/
def newNeighbors (visited : List NodeId) : List NodeId → List NodeId
  | [] => []
  | id :: neighbors =>
    if index.vector_count ≤ id.toNat ∨ id ∈ visited then newNeighbors visited neighbors
    else id :: newNeighbors (id :: visited) neighbors

/-- The new neighbours of every node of a batch, one node after the other. -/
def batchNeighbors : List NodeId → List (SearchResult D) → List (List NodeId)
  | _, [] => []
  | visited, current :: batch =>
    let found := newNeighbors index visited (index.loadNode current.id).neighbors
    found :: batchNeighbors (found.reverse ++ visited) batch

/-- The ranked neighbours of one node of the batch. -/
def pushRanked (state : SearchState D) (found : List NodeId) : SearchState D :=
  updateAdaptiveStop index config distances
    ((rankByDistance distances found).foldl (pushCandidate index config) state)

def expandCandidateBatch (state : SearchState D) (batch : List (SearchResult D)) :
    SearchState D :=
  let found := batchNeighbors index state.visited batch
  found.foldl (pushRanked index config distances)
    { state with
      visited := found.flatten.reverse ++ state.visited
      expanded := state.expanded + batch.length }

/-- Every round expands a node, so `search_width` bounds the rounds. -/
def searchLoop (effective_beam_width : ℕ) : ℕ → SearchState D → SearchState D
  | 0, state => state
  | rounds + 1, state =>
    if state.candidates.isEmpty || config.search_width ≤ state.expanded then state
    else
      let (batch, state) := selectCandidateBatch index config effective_beam_width state
      if batch.isEmpty then state
      else
        searchLoop effective_beam_width rounds
          (expandCandidateBatch index config distances state batch)

/-- The exact distance of a result. -/
def rerank (result : SearchResult D) : SearchResult D :=
  ⟨result.id, distances.exact (index.loadNode result.id).vector⟩

def finalizeTopk (state : SearchState D) : DiskGraphSearchResult D :=
  let sorted := TopK.sortBy SearchResult.rank state.best
  let topk := if 0 < config.rerank_topk then
      TopK.sortBy SearchResult.rank (sorted.map (rerank index distances))
    else sorted
  { topk := topk.take (effectiveK index config)
    expanded := state.expanded
    visited := state.visited.length }

def effectiveBeamWidth : ℕ :=
  max 1 (min (if config.beam_width = 0 then config.search_width else config.beam_width)
    config.search_width)

def searchOne : Except String (DiskGraphSearchResult D) := do
  throwIf (config.top_k = 0 ∨ config.search_width = 0 ∨ config.entry_count = 0)
    "Packed graph search top_k, search_width, and entry_count must be positive"
  throwIf (config.adc_enable = false)
    "Packed graph search requires PQ+ADC; non-PQ candidate generation was removed"
  return finalizeTopk index config distances
    (searchLoop index config distances (effectiveBeamWidth config) config.search_width
      (initializeSearchState index config distances))

end Search

end Graph
