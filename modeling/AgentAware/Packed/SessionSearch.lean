import AgentAware.Graph.IndexSize
import AgentAware.Graph.PackedIndexFile
import AgentAware.Packed.NodeSession

/-!
# The search over a session

`PackedDiskGraphIndex::search_one` with its session: the rounds of the search, and between them the
pages it asks for, the prefetches it hands over and the pages it pins. Which pages are handed over
depends on everything the search has seen, and on a planner with a history of its own; it is any
function here. What the rounds compute is taken from `PackedSearch`.

## Main definitions

- `Prefetcher` — the pages that are handed over
- `SessionSearch.searchOne` — the search
- `fileOf`, `fileIndex` — the pages and the nodes of an opened index
-/

namespace Packed.PageIo

open Interaction

/-- The message of an exception. -/
def Fault.describe : Fault → String
  | .thrown message => message
  | .outOfRange => "out of range"

/-- A page of an index, as every read of it finds it. -/
def fileOf (index : PackedDiskGraphIndex) (page_id : PageId) : Except String PageContent :=
  match index.loadPage page_id with
  | some (.ok page) => .ok page
  | some (.error fault) => .error (Fault.describe fault)
  | none => .error "Graph page read failed: "

/-- The node that the directory leads to. -/
def fileNode (index : PackedDiskGraphIndex) (id : NodeId) : Graph.DiskNode :=
  match index.node_to_page[id.toNat]? with
  | none => ⟨[], []⟩
  | some page_id =>
    match fileOf index page_id with
    | .error _ => ⟨[], []⟩
    | .ok page =>
      match DiskPageCodec.findNode page id with
      | .error _ => ⟨[], []⟩
      | .ok node =>
        match DiskPageCodec.vectorData index.metadata.toDiskGraphMetadata page node with
        | .error _ => ⟨[], node.neighbors⟩
        | .ok values => ⟨values, node.neighbors⟩

/-- The nodes of an index. -/
def fileIndex (index : PackedDiskGraphIndex) : Graph.PackedIndex where
  nodes := (List.range index.metadata.vector_count).map fun i => fileNode index (Graph.nodeId i)

/-- What is handed over to be prefetched. -/
structure Prefetcher (D E : Type) where
  /-- After a batch: the pages that `submit_pages_direct` gets, or those that the planner selects. -/
  neighbors : NodeSession D → Graph.SearchState E → List (List NodeId) → List PageId
  /-- Before the exact distances. -/
  rerank : NodeSession D → Graph.SearchState E → List PageId

namespace SessionSearch

variable {D E : Type} [LT D] [DecidableLT D] [DecidableEq D] [LinearOrder E]
  (index : PackedDiskGraphIndex) (config : Graph.DiskGraphSearchConfig)
  (distances : Graph.QueryDistances E) (prefetcher : Prefetcher D E)

/-- What is known of the index before any of its nodes is read. -/
def sized : Graph.PackedIndex := Graph.PackedIndex.ofCount index.metadata.vector_count

def pagesForNodes : List (SearchResult E) → NodeM D (List PageId)
  | [] => return []
  | candidate :: batch => do
    let page_id ← NodeSession.pageForNode index.node_to_page candidate.id
    return page_id :: (← pagesForNodes batch)

/-- The loop of `expand_candidate_batch` over the batch: the new neighbours of its nodes. -/
def expandNodes : List NodeId → List (SearchResult E) → NodeM D (List (List NodeId))
  | _, [] => return []
  | visited, current :: batch => do
    let node ← NodeSession.getNode index.metadata.toDiskGraphMetadata index.node_to_page current.id
    let page_id ← NodeSession.pageForNode index.node_to_page current.id
    lift (pinPage page_id)
    let found := Graph.newNeighbors (sized index) visited node.neighbors
    return found :: (← expandNodes (found.reverse ++ visited) batch)

def expandCandidateBatch (state : Graph.SearchState E) (batch : List (SearchResult E)) :
    NodeM D (Graph.SearchState E) := do
  let found ← expandNodes index state.visited batch
  let x ← get
  lift (submitPrefetchPlan (prefetcher.neighbors x state found))
  return found.foldl (Graph.pushRanked (sized index) config distances)
    { state with
      visited := found.flatten.reverse ++ state.visited
      expanded := state.expanded + batch.length }

/-- The rounds; every one expands a node, so `search_width` bounds them. -/
def searchLoop (effective_beam_width : ℕ) :
    ℕ → Graph.SearchState E → NodeM D (Graph.SearchState E)
  | 0, state => return state
  | rounds + 1, state => do
    if state.candidates.isEmpty || config.search_width ≤ state.expanded then return state
    else
      lift drainReadyPages
      let selected := Graph.selectCandidateBatch (sized index) config effective_beam_width state
      if selected.1.isEmpty then return selected.2
      else
        let page_ids ← pagesForNodes index selected.1
        NodeSession.ensurePagesLoadedBatch index.metadata.toDiskGraphMetadata page_ids
        let state ← expandCandidateBatch index config distances prefetcher selected.2 selected.1
        searchLoop effective_beam_width rounds state

/-- The exact distances of the results, from their pages. -/
def rerankResults : List (SearchResult E) → NodeM D (List (SearchResult E))
  | [] => return []
  | result :: results => do
    let page_id ← NodeSession.pageForNode index.node_to_page result.id
    let page ← NodeSession.getOrLoadPage index.metadata.toDiskGraphMetadata page_id
    let node ← ofExcept ((DiskPageCodec.findNode page.content result.id).mapError Fault.describe)
    let values ← ofExcept ((DiskPageCodec.vectorData index.metadata.toDiskGraphMetadata
      page.content node).mapError Fault.describe)
    return ⟨result.id, distances.exact values⟩ :: (← rerankResults results)

def rankedResults (state : Graph.SearchState E) : NodeM D (List (SearchResult E)) := do
  let sorted := TopK.sortBy SearchResult.rank state.best
  if 0 < config.rerank_topk then
    let x ← get
    lift (submitPrefetchPlan (prefetcher.rerank x state))
    let results ← rerankResults index distances sorted
    return TopK.sortBy SearchResult.rank results
  else return sorted

def finalizeTopk (state : Graph.SearchState E) : NodeM D (Graph.DiskGraphSearchResult E) := do
  let topk ← rankedResults index config distances prefetcher state
  lift finishQuery
  return {
    topk := topk.take (Graph.effectiveK (sized index) config)
    expanded := state.expanded
    visited := state.visited.length }

def searchOne : NodeM D (Graph.DiskGraphSearchResult E) := do
  if config.top_k = 0 ∨ config.search_width = 0 ∨ config.entry_count = 0 then
    throw "Packed graph search top_k, search_width, and entry_count must be positive"
  else if config.adc_enable = false then
    throw "Packed graph search requires PQ+ADC; non-PQ candidate generation was removed"
  else
    let state ← searchLoop index config distances prefetcher (Graph.effectiveBeamWidth config)
      config.search_width (Graph.initializeSearchState (sized index) config distances)
    finalizeTopk index config distances prefetcher state

end SessionSearch

end Packed.PageIo
