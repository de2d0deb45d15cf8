import AgentAware.Graph.DiskPageCodec
import AgentAware.Lib.Relies
import AgentAware.Packed.PageSession

/-!
# The nodes of a session

A page is decoded once, and its nodes are copied to the session the first time that the query needs
the page. A node that is there already stays as it is, so that of two pages that store a node the one
that came first counts. The session of pages is the one of `PageSession`, with the nodes beside it;
whatever does not copy nodes is taken from there as it is.

## Main definitions

- `LocalNodes`, `materializeNodes` — `local_nodes_` and what a page adds to it
- `NodeSession.getOrLoadPage`, `NodeSession.ensurePagesLoadedBatch` — the pages that the query needs
- `NodeSession.getNode` — a node of the query

## Main results

- `projects_getOrLoadPage`, `projects_ensurePagesLoadedBatch` — without its nodes, the session is that
  of `PageSession`
-/

namespace Packed.PageIo

open Interaction

/-- What a packed page holds. -/
abbrev PageContent := DiskPageCodec.DecodedPage

abbrev LocalNodes := AList (fun _ : NodeId => DiskPageCodec.DiskNode)

/-- A session with `local_nodes_` beside it. -/
abbrev NodeSession (D : Type) := QueryPageSession PageContent D × LocalNodes

abbrev NodeM (D : Type) := Interaction (NodeSession D) (Reply PageContent)

section Nodes

variable (metadata : DiskPageCodec.DiskGraphMetadata) (page : DecodedPage PageContent)

/-- The vector of a node, which the decoder leaves in the page. -/
def assignVector (node : DiskPageCodec.DiskNode) : DiskPageCodec.DiskNode :=
  if node.vector = [] then
    match DiskPageCodec.vectorData metadata page.content node with
    | .ok values => { node with vector := values }
    | .error _ => node
  else node

/-- `local_nodes_.emplace`. -/
def emplaceNode (nodes : LocalNodes) (node : DiskPageCodec.DiskNode) : LocalNodes :=
  if node.id ∈ nodes then nodes else nodes.insert node.id (assignVector metadata page node)

/-- What `materialize_page` copies, in a session that it was called on. -/
def materializeNodes {D : Type} (session : QueryPageSession PageContent D) (nodes : LocalNodes) :
    LocalNodes :=
  if page.page_id ∈ session.materialized_pages then nodes
  else page.content.nodes.foldl (emplaceNode metadata page) nodes

end Nodes

namespace NodeSession

variable {D : Type} [LT D] [DecidableLT D] [DecidableEq D]
  (metadata : DiskPageCodec.DiskGraphMetadata)

/-- The nodes after a page was found, or not. -/
def foundNodes (found : Option (DecodedPage PageContent)) (x : NodeSession D) : LocalNodes :=
  match found with
  | some page => materializeNodes metadata page x.1 x.2
  | none => x.2

def takePage (page_id : PageId) (x : NodeSession D) :
    Option (DecodedPage PageContent) × NodeSession D :=
  let taken := PageIo.takePage page_id x.1
  (taken.1, taken.2, foundNodes metadata taken.1 x)

/-- The page that `materialize_available_page` copies, unless it is materialized already. -/
def availablePage (page_id : PageId) (session : QueryPageSession PageContent D) :
    Option (DecodedPage PageContent) :=
  match session.owned_pages.lookup page_id with
  | some page => some page
  | none =>
    if page_id ∈ session.materialized_pages then none
    else
      let cached := session.tryGetCachedPage page_id
      if cached.1.isSome then cached.1 else (cached.2.takeReadyPrefetchPage page_id).1

def materializeAvailablePage (page_id : PageId) (x : NodeSession D) : Bool × NodeSession D :=
  let available := x.1.materializeAvailablePage page_id
  (available.1, available.2, foundNodes metadata (availablePage page_id x.1) x)

def loadPage (page_id : PageId) : NodeM D (DecodedPage PageContent) := do
  lift (change fun session => { session with
    stats := { session.stats with demand_reads := session.stats.demand_reads + 1 }
    demand_pages := insert page_id session.demand_pages })
  let page ← lift (readDemandPage page_id)
  change fun x => ((x.1.keepPage page_id page).materializePage page_id,
    materializeNodes metadata page x.1 x.2)
  return page

def takeOrLoadPage (page_id : PageId) : NodeM D (DecodedPage PageContent) := do
  match ← act (takePage metadata page_id) with
  | some page => return page
  | none => loadPage metadata page_id

def getOrLoadPage (page_id : PageId) : NodeM D (DecodedPage PageContent) := do
  let x ← get
  if x.1.page_count ≤ page_id.toNat then throw "Packed page id out of range"
  else
    lift (change fun session => { session with
      visited_pages := insert page_id session.visited_pages })
    match x.1.owned_pages.lookup page_id with
    | some page => return page
    | none =>
      match ← act (takePage metadata page_id) with
      | some page => return page
      | none =>
        let x ← get
        if page_id ∈ x.1.pending_pages then
          lift (change fun session => { session with
            pending_hit_pages := insert page_id session.pending_hit_pages })
          lift (waitForPrefetchPage page_id)
          takeOrLoadPage metadata page_id
        else takeOrLoadPage metadata page_id

def awaitAvailablePage (page_id : PageId) : NodeM D Bool := do
  if ← act (materializeAvailablePage metadata page_id) then return true
  else
    let x ← get
    if page_id ∈ x.1.pending_pages then
      lift (change fun session => { session with
        pending_hit_pages := insert page_id session.pending_hit_pages })
      lift (waitForPrefetchPage page_id)
      act (materializeAvailablePage metadata page_id)
    else return false

def collectMissing : List PageId → NodeM D (List PageId)
  | [] => return []
  | page_id :: page_ids => do
    if ← awaitAvailablePage metadata page_id then collectMissing page_ids
    else return page_id :: (← collectMissing page_ids)

def collectRequests : List PageId → NodeM D (List PageId)
  | [] => return []
  | page_id :: page_ids => do
    if ← awaitAvailablePage metadata page_id then collectRequests page_ids
    else
      lift (change fun session => { session with
        stats := { session.stats with demand_reads := session.stats.demand_reads + 1 }
        demand_pages := insert page_id session.demand_pages })
      return page_id :: (← collectRequests page_ids)

def awaitBatch : ℕ → AList (fun _ : Token => PageId) → NodeM D Unit
  | 0, _ => pure ()
  | remaining + 1, submitted_pages => do
    let completed ← lift (awaitCompletion submitted_pages)
    match submitted_pages.lookup completed.token with
    | none => awaitBatch remaining submitted_pages
    | some page_id =>
      let content ← ofExcept completed.page
      change fun x =>
        ((x.1.keepPage page_id { page_id := page_id, content := content }).materializePage page_id,
          materializeNodes metadata { page_id := page_id, content := content } x.1 x.2)
      lift (change fun session => { session with
        demand_inflight_pages := session.demand_inflight_pages - 1 })
      awaitBatch remaining (submitted_pages.erase completed.token)

def loadChunk (chunk : List PageId) : NodeM D Unit := do
  let requests ← collectRequests metadata chunk
  if requests = [] then pure ()
  else
    let submitted ← lift (batchSubmit requests)
    let submitted_pages := submittedPages submitted
    lift (change fun session => { session with
      demand_inflight_pages := session.demand_inflight_pages + submitted_pages.keys.length })
    awaitBatch metadata submitted_pages.keys.length submitted_pages

def loadChunks (chunk_limit : ℕ) : ℕ → List PageId → NodeM D Unit
  | 0, _ => pure ()
  | chunks + 1, missing_pages => do
    if missing_pages = [] then pure ()
    else
      loadChunk metadata (missing_pages.take chunk_limit)
      loadChunks chunk_limit chunks (missing_pages.drop chunk_limit)

def ensurePagesLoadedBatch (page_ids : List PageId) : NodeM D Unit := do
  let x ← get
  if page_ids = [] then pure ()
  else if page_ids.any fun page_id => x.1.page_count ≤ page_id.toNat then
    throw "Packed page id out of range"
  else
    lift (change fun session => { session with
      visited_pages := session.visited_pages ∪ page_ids.toFinset })
    let missing_pages ← collectMissing metadata (Versions.firsts id page_ids)
    if x.1.async_prefetch then lift harvestAll
    let chunk_limit :=
      if x.1.page_reader.status.io_uring_enabled then x.1.demandIoReserve
      else missing_pages.length
    loadChunks metadata chunk_limit missing_pages.length missing_pages

/-- `page_for_node`. -/
def pageForNode (node_to_page : List PageId) (node_id : NodeId) : NodeM D PageId :=
  match node_to_page[node_id.toNat]? with
  | some page_id => pure page_id
  | none => throw "Packed graph node id out of range"

def getNode (node_to_page : List PageId) (node_id : NodeId) : NodeM D DiskPageCodec.DiskNode := do
  let x ← get
  match x.2.lookup node_id with
  | some node => return node
  | none =>
    let page_id ← pageForNode node_to_page node_id
    let _ ← getOrLoadPage metadata page_id
    let x ← get
    match x.2.lookup node_id with
    | some node => return node
    | none => throw "Node is missing from packed page"

section Projects

variable {metadata}

theorem projects_loadPage (page_id : PageId) :
    Projects (loadPage (D := D) metadata page_id) (PageIo.loadPage page_id) := by
  refine projects_bind (projects_lift _) fun _ => ?_
  refine projects_bind (projects_lift _) fun page => ?_
  refine projects_bind (projects_act fun s t => ⟨rfl, rfl⟩) fun _ => ?_
  exact projects_pure page

theorem projects_takeOrLoadPage (page_id : PageId) :
    Projects (takeOrLoadPage (D := D) metadata page_id) (PageIo.takeOrLoadPage page_id) := by
  refine projects_bind (projects_act fun s t => ⟨rfl, rfl⟩) fun found => ?_
  cases found with
  | some page => exact projects_pure page
  | none => exact projects_loadPage page_id

theorem projects_getOrLoadPage (page_id : PageId) :
    Projects (getOrLoadPage (D := D) metadata page_id) (PageIo.getOrLoadPage page_id) := by
  refine projects_get_bind fun s t => ?_
  refine projects_ite (projects_throw _) ?_
  refine projects_bind (projects_lift _) fun _ => ?_
  dsimp only
  cases s.owned_pages.lookup page_id with
  | some page => exact projects_pure page
  | none =>
    refine projects_bind (projects_act fun s t => ⟨rfl, rfl⟩) fun found => ?_
    cases found with
    | some page => exact projects_pure page
    | none =>
      refine projects_get_bind fun s t => ?_
      refine projects_ite ?_ (projects_takeOrLoadPage page_id)
      refine projects_bind (projects_lift _) fun _ => ?_
      exact projects_bind (projects_lift _) fun _ => projects_takeOrLoadPage page_id

theorem projects_awaitAvailablePage (page_id : PageId) :
    Projects (awaitAvailablePage (D := D) metadata page_id)
      (PageIo.awaitAvailablePage page_id) := by
  refine projects_bind (projects_act fun s t => ⟨rfl, rfl⟩) fun available => ?_
  refine projects_ite (projects_pure true) ?_
  refine projects_get_bind fun s t => ?_
  refine projects_ite ?_ (projects_pure false)
  refine projects_bind (projects_lift _) fun _ => ?_
  exact projects_bind (projects_lift _) fun _ => projects_act fun s t => ⟨rfl, rfl⟩

theorem projects_collectMissing (page_ids : List PageId) :
    Projects (collectMissing (D := D) metadata page_ids) (PageIo.collectMissing page_ids) := by
  induction page_ids with
  | nil => exact projects_pure []
  | cons page_id page_ids ih =>
    refine projects_bind (projects_awaitAvailablePage page_id) fun available => ?_
    refine projects_ite ih ?_
    exact projects_bind ih fun missing => projects_pure (page_id :: missing)

theorem projects_collectRequests (page_ids : List PageId) :
    Projects (collectRequests (D := D) metadata page_ids) (PageIo.collectRequests page_ids) := by
  induction page_ids with
  | nil => exact projects_pure []
  | cons page_id page_ids ih =>
    refine projects_bind (projects_awaitAvailablePage page_id) fun available => ?_
    refine projects_ite ih ?_
    refine projects_bind (projects_lift _) fun _ => ?_
    exact projects_bind ih fun requests => projects_pure (page_id :: requests)

theorem projects_awaitBatch (remaining : ℕ) (submitted_pages : AList (fun _ : Token => PageId)) :
    Projects (awaitBatch (D := D) metadata remaining submitted_pages)
      (PageIo.awaitBatch remaining submitted_pages) := by
  induction remaining generalizing submitted_pages with
  | zero => exact projects_pure ()
  | succ remaining ih =>
    refine projects_bind (projects_lift _) fun completed => ?_
    cases submitted_pages.lookup completed.token with
    | none => exact ih submitted_pages
    | some page_id =>
      refine projects_bind (projects_ofExcept _) fun content => ?_
      refine projects_bind (projects_act fun s t => ⟨rfl, rfl⟩) fun _ => ?_
      exact projects_bind (projects_lift _) fun _ => ih _

theorem projects_loadChunk (chunk : List PageId) :
    Projects (loadChunk (D := D) metadata chunk) (PageIo.loadChunk chunk) := by
  refine projects_bind (projects_collectRequests chunk) fun requests => ?_
  refine projects_ite (projects_pure ()) ?_
  refine projects_bind (projects_lift _) fun submitted => ?_
  refine projects_bind (projects_lift _) fun _ => ?_
  exact projects_awaitBatch _ _

theorem projects_loadChunks (chunk_limit chunks : ℕ) (missing_pages : List PageId) :
    Projects (loadChunks (D := D) metadata chunk_limit chunks missing_pages)
      (PageIo.loadChunks chunk_limit chunks missing_pages) := by
  induction chunks generalizing missing_pages with
  | zero => exact projects_pure ()
  | succ chunks ih =>
    refine projects_ite (projects_pure ()) ?_
    exact projects_bind (projects_loadChunk _) fun _ => ih _

theorem projects_ensurePagesLoadedBatch (page_ids : List PageId) :
    Projects (ensurePagesLoadedBatch (D := D) metadata page_ids)
      (PageIo.ensurePagesLoadedBatch page_ids) := by
  refine projects_get_bind fun s t => ?_
  refine projects_ite (projects_pure ()) ?_
  refine projects_ite (projects_throw _) ?_
  refine projects_bind (projects_lift _) fun _ => ?_
  refine projects_bind (projects_collectMissing _) fun missing_pages => ?_
  refine projects_ite ?_ (projects_loadChunks _ _ _)
  exact projects_bind (projects_lift _) fun _ => projects_loadChunks _ _ _

end Projects

end NodeSession

end Packed.PageIo
