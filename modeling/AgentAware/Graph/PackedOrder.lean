import AgentAware.Core.PQEncoder
import AgentAware.Graph.VamanaBuilder
import Mathlib.Data.Rat.Defs

/-!
# Packing orders

The nodes of a graph are laid out on pages in one of four orders: shuffled, breadth first, page by page
with nodes that simulated sessions access together, and by how often sampled queries visit them. An
order is the list of the ids, place by place.

## Main definitions

- `DoubleOps` — the arithmetic of the scores, about which nothing is assumed
- `bfsOrder`, `coaccessOrder`, `hotpathOrder` — the orders
- `packedOrder` — the order of a packing strategy
-/

namespace Graph

/-- What is computed with `double`. -/
structure DoubleOps (D : Type) where
  /-- A literal. -/
  literal : ℚ → D
  add : D → D → D
  mul : D → D → D
  lt : D → D → Bool

/-- The configuration with the fields that only the packed builder reads. -/
structure PackedBuildConfig (F : Type) extends DiskGraphBuildConfig where
  page_size : ℕ := 4096
  packing_strategy : String := "one-node"
  coaccess_sessions : ℕ := 64
  coaccess_trace_length : ℕ := 32
  hotpath_queries : Option VectorSet := none
  pq_model : Option (PQEncoder F) := none
  hotpath_train_queries : ℕ := 200
  hotpath_search_width : ℕ := 128
  hotpath_entry_count : ℕ := 32

def naturalOrder (count : ℕ) : List NodeId := (List.range count).map nodeId

def randomOrder (random : Random) (count : ℕ) (seed : UInt32) : List NodeId :=
  random.shuffle seed (naturalOrder count)

def marked (marks : List Bool) (id : NodeId) : Bool := marks.getD id.toNat false

section Bfs

variable (graph : Adjacency)

structure BfsState where
  order : List NodeId := []
  seen : List Bool
  queue : List NodeId := []

def bfsVisit (state : BfsState) (neighbor : NodeId) : BfsState :=
  if neighbor.toNat < state.seen.length ∧ marked state.seen neighbor = false then
    { state with
      seen := state.seen.set neighbor.toNat true
      queue := state.queue ++ [neighbor] }
  else state

/-- No node is queued twice, so the number of nodes bounds the rounds. -/
def bfsDrain : ℕ → BfsState → BfsState
  | 0, state => state
  | rounds + 1, state =>
    match state.queue with
    | [] => state
    | current :: queue =>
      bfsDrain rounds ((neighborsOf graph current.toNat).foldl bfsVisit
        { state with order := state.order ++ [current], queue := queue })

def bfsStart (state : BfsState) (start : ℕ) : BfsState :=
  if marked state.seen (nodeId start) then state
  else
    bfsDrain graph graph.length
      { state with
        seen := state.seen.set start true
        queue := state.queue ++ [nodeId start] }

def bfsOrder : List NodeId :=
  ((List.range graph.length).foldl (bfsStart graph)
    { seen := List.replicate graph.length false }).order

end Bfs

section Coaccess

variable {D : Type} (double : DoubleOps D) (graph : Adjacency)

def pairKey (lhs rhs : NodeId) : UInt64 :=
  (min lhs rhs).toUInt64 <<< 32 ||| (max lhs rhs).toUInt64

/-- How hot the nodes are, and which pairs are accessed together. -/
structure AccessTrace (D : Type) where
  hotness : List D
  coaccess : UInt64 → Option D
  current : NodeId
  previous : NodeId

/-- `coaccess[key] += amount`. -/
def addCoaccess (amount : D) (coaccess : UInt64 → Option D) (key : UInt64) : UInt64 → Option D :=
  fun other =>
    if other = key then some (double.add ((coaccess key).getD (double.literal 0)) amount)
    else coaccess other

/-- The steps of session `s`, the first of them being `step`. -/
def traceSession (s : ℕ) : ℕ → ℕ → AccessTrace D → AccessTrace D
  | 0, _, trace => trace
  | steps + 1, step, trace =>
    let neighbors := neighborsOf graph trace.current.toNat
    let hotness := trace.hotness.modify trace.current.toNat (double.add · (double.literal 2))
    let coaccess :=
      if trace.previous ≠ 0xffffffff then
        addCoaccess double (double.literal 4) trace.coaccess (pairKey trace.previous trace.current)
      else trace.coaccess
    let coaccess := (neighbors.take 4).foldl (fun coaccess neighbor =>
      addCoaccess double (double.literal 1) coaccess (pairKey trace.current neighbor)) coaccess
    if neighbors.isEmpty then { trace with hotness := hotness, coaccess := coaccess }
    else
      traceSession s steps (step + 1)
        { hotness := hotness, coaccess := coaccess, previous := trace.current
          current := neighbors.getD ((step + s) % neighbors.length) 0 }

def traceSessions (sessions trace_length : ℕ) : AccessTrace D :=
  (List.range sessions).foldl (fun trace s =>
    traceSession double graph s trace_length 0 { trace with
      current := nodeId (s * graph.length / sessions)
      previous := 0xffffffff })
    { hotness := List.replicate graph.length (double.literal 1), coaccess := fun _ => none
      current := 0, previous := 0xffffffff }

structure PackState where
  order : List NodeId := []
  placed : List Bool
  remaining : ℕ
  next_unplaced : ℕ := 0

/-- The first place behind `next_unplaced` that is not taken; all ones when there is none. -/
def takeNextUnplaced (state : PackState) : NodeId × PackState :=
  let next := state.next_unplaced + ((state.placed.drop state.next_unplaced).takeWhile id).length
  (if state.placed.length ≤ next then 0xffffffff else nodeId next, { state with next_unplaced := next })

def PackState.place (state : PackState) (id : NodeId) : PackState :=
  { state with
    order := state.order ++ [id]
    placed := state.placed.set id.toNat true
    remaining := state.remaining - 1 }

def scoreForPage (trace : AccessTrace D) (page_nodes : List NodeId) (candidate : NodeId) : D :=
  page_nodes.foldl (fun score page_node =>
    let score := match trace.coaccess (pairKey candidate page_node) with
      | none => score
      | some found => double.add score (double.mul found (double.literal 20))
    if (neighborsOf graph candidate.toNat).contains page_node ||
        (neighborsOf graph page_node.toNat).contains candidate then
      double.add score (double.literal 10)
    else score)
    (double.mul (trace.hotness.getD candidate.toNat (double.literal 1)) (double.literal (1 / 1000)))

/-- The neighbours of a page that are not placed, in increasing order. -/
def pageCandidates (placed : List Bool) (page_nodes : List NodeId) : List NodeId :=
  ((page_nodes.flatMap fun page_node => (neighborsOf graph page_node.toNat).filter fun neighbor =>
    neighbor.toNat < placed.length ∧ marked placed neighbor = false).insertionSort (· ≤ ·)).dedup

def bestForPage (trace : AccessTrace D) (page_nodes candidates : List NodeId) : NodeId :=
  (candidates.foldl (fun (best : NodeId × D) candidate =>
    let score := scoreForPage double graph trace page_nodes candidate
    if double.lt best.2 score then (candidate, score) else best)
    (0xffffffff, double.literal (-1))).1

variable (nodes_per_page : ℕ)

/-- A page has at most `nodes_per_page` nodes, so that many rounds fill it. -/
def fillPage (trace : AccessTrace D) : ℕ → PackState → List NodeId → PackState
  | 0, state, _ => state
  | rounds + 1, state, page_nodes =>
    if state.remaining = 0 ∨ nodes_per_page ≤ page_nodes.length then state
    else
      let best := bestForPage double graph trace page_nodes
        (pageCandidates graph state.placed page_nodes)
      let taken := if best = 0xffffffff then takeNextUnplaced state else (best, state)
      if taken.1 = 0xffffffff then taken.2
      else fillPage trace rounds (taken.2.place taken.1) (page_nodes ++ [taken.1])

/-- Every page takes a node, so the number of nodes bounds the pages. -/
def fillPages (trace : AccessTrace D) : ℕ → PackState → PackState
  | 0, state => state
  | pages + 1, state =>
    if state.remaining = 0 then state
    else
      let anchor := takeNextUnplaced state
      if anchor.1 = 0xffffffff then anchor.2
      else
        fillPages trace pages (fillPage double graph nodes_per_page trace nodes_per_page
          (anchor.2.place anchor.1) [anchor.1])

def coaccessOrder (sessions trace_length : ℕ) : List NodeId :=
  if graph.isEmpty then []
  else
    let trace := traceSessions double graph (max 1 (min sessions graph.length)) (max 1 trace_length)
    (fillPages double graph nodes_per_page trace graph.length
      { placed := List.replicate graph.length false, remaining := graph.length }).order

end Coaccess

section Hotpath

variable {F : Type} (ops : FloatOps F) (base : VectorSet) (graph : Adjacency)
  (config : PackedBuildConfig F)

def entryPoints (count requested : ℕ) : List NodeId :=
  if count = 0 ∨ requested = 0 then []
  else
    let actual := min requested count
    Versions.firsts id ((List.range actual).map fun i =>
      nodeId (if actual = 1 then 0 else i * (count - 1) / (actual - 1)))

structure HotpathState (F : Type) where
  visit_count : List ℕ
  visited : List Bool
  candidates : List (NeighborCandidate F) := []

def hotpathVisit (query : List FloatBits) (state : HotpathState F) (id : NodeId) : HotpathState F :=
  if graph.length ≤ id.toNat ∨ marked state.visited id then state
  else
    { visit_count := state.visit_count.modify id.toNat (· + 1)
      visited := state.visited.set id.toNat true
      candidates := ⟨id, ops.squared_l2 query (base.row id.toNat)⟩ :: state.candidates }

/-- Every round expands the closest candidate. -/
def hotpathExpand (query : List FloatBits) : ℕ → HotpathState F → HotpathState F
  | 0, state => state
  | rounds + 1, state =>
    match VamanaBuilder.frontierTop ops state.candidates with
    | none => state
    | some current =>
      let state := { state with
        candidates := state.candidates.eraseP fun candidate => candidate.id == current.id }
      hotpathExpand query rounds ((neighborsOf graph current.id.toNat).foldl
        (hotpathVisit ops base graph query) state)

def hotpathQuery (queries : VectorSet) (visit_count : List ℕ) (query_id : ℕ) : List ℕ :=
  let query := queries.row query_id
  let entered := (entryPoints graph.length config.hotpath_entry_count).foldl
    (hotpathVisit ops base graph query)
    { visit_count := visit_count, visited := List.replicate graph.length false }
  (hotpathExpand ops base graph query config.hotpath_search_width entered).visit_count

/-- The comparison of the final sort. -/
def visitedMore (visit_count : List ℕ) (lhs rhs : NodeId) : Bool :=
  if visit_count.getD lhs.toNat 0 = visit_count.getD rhs.toNat 0 then lhs < rhs
  else visit_count.getD rhs.toNat 0 < visit_count.getD lhs.toNat 0

def hotpathOrder : Except String (List NodeId) :=
  match config.hotpath_queries with
  | none => .error "hotpath packing requires sampled queries during index build"
  | some queries => do
    throwIf (queries.size = 0) "hotpath packing requires sampled queries during index build"
    throwIf (queries.dim ≠ base.dim) "hotpath query dimension does not match base"
    let visit_count := (List.range (min config.hotpath_train_queries queries.size)).foldl
      (hotpathQuery ops base graph config queries) (List.replicate graph.length 0)
    return (naturalOrder graph.length).insertionSort fun a b => visitedMore visit_count b a = false

end Hotpath

def packedOrder {F D : Type} (ops : FloatOps F) (double : DoubleOps D) (random : Random)
    (base : VectorSet) (graph : Adjacency) (config : PackedBuildConfig F) (nodes_per_page : ℕ) :
    Except String (List NodeId) :=
  if config.packing_strategy = "random" then .ok (randomOrder random graph.length config.random_seed)
  else if config.packing_strategy = "bfs" then .ok (bfsOrder graph)
  else if config.packing_strategy = "coaccess" then
    .ok (coaccessOrder double graph nodes_per_page config.coaccess_sessions
      config.coaccess_trace_length)
  else if config.packing_strategy = "hotpath" then hotpathOrder ops base graph config
  else .error ("Unknown packing strategy: " ++ config.packing_strategy)

end Graph
