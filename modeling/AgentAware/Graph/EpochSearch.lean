import AgentAware.Graph.RobustPrune
import AgentAware.Lib.EpochMarks

/-!
# Visited marks over a history of searches

`search_for_construction` keeps the nodes that it has visited in a thread-local array of marks, which
every search on the thread reuses under a new epoch. The builders, graphs and bases of the searches may
differ in every respect, and a search may throw. Each search is compared with the one that starts with
no node visited.

## Main definitions

- `ConstructionCall` — a call, with everything it is given
- `searchMarked` — a search on the marks of its thread
- `searchRun` — the searches of a thread, one after the other

## Main results

- `searchMarked_eq` — a search on any marks is the search without marks
- `searchOk_explore`, `searchForConstruction_spec` — what the search without marks returns
- `searchRun_fresh` — the same for every search of a thread
-/

namespace Graph

/-- A search under construction, with `visited_epoch` and `current_epoch`. -/
structure MarkedSearch (F : Type) where
  visited : EpochMarks
  frontier : List (NeighborCandidate F) := []
  explored : List (NeighborCandidate F) := []

structure ConstructionCall where
  config : VamanaBuildConfig
  base : VectorSet
  graph : Adjacency
  query : List FloatBits
  entry_id : NodeId
  excluded_id : NodeId

namespace VamanaBuilder

section Marked

variable {F : Type} (ops : FloatOps F) (base : VectorSet) (config : VamanaBuildConfig)

/-- The lambda `push` of `search_for_construction`, on marks. -/
def pushMarked (graph : Adjacency) (deleted : List Bool) (query : List FloatBits)
    (excluded_id : NodeId) (search : MarkedSearch F) (id : NodeId) : MarkedSearch F :=
  if graph.length ≤ id.toNat || id == excluded_id || isDeleted deleted id.toNat then search
  else if search.visited.isMarked id.toNat then search
  else
    { search with
      visited := search.visited.mark id.toNat
      frontier := ⟨id, ops.l2_distance_sq_simd query (base.row id.toNat)⟩ :: search.frontier }

def exploreMarked (graph : Adjacency) (deleted : List Bool) (query : List FloatBits)
    (excluded_id : NodeId) : ℕ → MarkedSearch F → MarkedSearch F
  | 0, search => search
  | rounds + 1, search =>
    match frontierTop ops search.frontier with
    | none => search
    | some current =>
      let search := { search with
        frontier := search.frontier.eraseP fun candidate => candidate.id == current.id
        explored := search.explored ++ [current] }
      exploreMarked graph deleted query excluded_id rounds
        ((neighborsOf graph current.id.toNat).foldl
          (pushMarked ops base graph deleted query excluded_id) search)

/-- What comes in front of the marks: the check of the graph, and the entry. -/
def constructionEntry (graph : Adjacency) (entry_id : NodeId) : Except String NodeId := do
  throwIf (graph.length ≠ base.size) "Vamana construction graph size mismatch"
  let deleted := deletedMask config base.size
  if graph.length ≤ entry_id.toNat || isDeleted deleted entry_id.toNat then
    findMedoid ops base config
  else return entry_id

/-- `search_for_construction` on the marks of its thread. -/
def searchMarked (graph : Adjacency) (query : List FloatBits) (entry_id excluded_id : NodeId)
    (marks : EpochMarks) : Except String (List NodeId) × EpochMarks :=
  match constructionEntry ops base config graph entry_id with
  | .error e => (.error e, marks)
  | .ok entry_id =>
    let deleted := deletedMask config base.size
    let pushed := pushMarked ops base graph deleted query excluded_id
      { visited := marks.next graph.length } entry_id
    let started := (List.range graph.length).foldl (fun search i =>
      if search.frontier.isEmpty then
        pushMarked ops base graph deleted query excluded_id search (nodeId i)
      else search) pushed
    let finished :=
      exploreMarked ops base graph deleted query excluded_id config.search_width started
    (.ok ((sortNeighbors ops finished.explored).map NeighborCandidate.id), finished.visited)

end Marked

section Run

variable {F : Type} (ops : FloatOps F)

def ConstructionCall.search (call : ConstructionCall) (marks : EpochMarks) :
    Except String (List NodeId) × EpochMarks :=
  searchMarked ops call.base call.config call.graph call.query call.entry_id call.excluded_id marks

/-- The searches of a thread and what they return. -/
def searchRun : List ConstructionCall → EpochMarks → List (Except String (List NodeId)) × EpochMarks
  | [], marks => ([], marks)
  | call :: calls, marks =>
    let found := ConstructionCall.search ops call marks
    let rest := searchRun calls found.2
    (found.1 :: rest.1, rest.2)

/-- The search of a call with no node visited. -/
def ConstructionCall.fresh (call : ConstructionCall) : Except String (List NodeId) :=
  searchForConstruction ops call.base call.config call.graph call.query call.entry_id
    call.excluded_id

end Run

section Simulation

variable {F : Type} {ops : FloatOps F} {base : VectorSet} {config : VamanaBuildConfig}
  {graph : Adjacency} {deleted : List Bool} {query : List FloatBits} {excluded_id : NodeId}

/-- The marked nodes are the visited ones. -/
structure Marks (graph : Adjacency) (marked : MarkedSearch F) (search : ConstructionSearch F) :
    Prop where
  room : graph.length ≤ marked.visited.marks.length
  marked_iff : ∀ id : NodeId, id.toNat < graph.length →
    (marked.visited.isMarked id.toNat = true ↔ id ∈ search.visited)
  frontier_eq : marked.frontier = search.frontier
  explored_eq : marked.explored = search.explored

/-- A new epoch is an empty set of visited nodes. -/
theorem marks_next (marks : EpochMarks) :
    Marks graph ({ visited := marks.next graph.length } : MarkedSearch F) {} := by
  refine ⟨marks.size_le_length_next _, fun id hid => ?_, rfl, rfl⟩
  rw [marks.isMarked_next hid]
  simp

theorem marks_push {marked : MarkedSearch F} {search : ConstructionSearch F}
    (h : Marks graph marked search) (id : NodeId) :
    Marks graph (pushMarked ops base graph deleted query excluded_id marked id)
      (push ops base graph deleted query excluded_id search id) := by
  rw [pushMarked, push]
  by_cases hskip : (graph.length ≤ id.toNat || id == excluded_id || isDeleted deleted id.toNat) = true
  · rw [if_pos hskip, if_pos (by rw [hskip, Bool.true_or])]
    exact h
  · have hrange : id.toNat < graph.length := by
      by_contra hge
      exact hskip (by simp [not_lt.mp hge])
    have hiff := h.marked_iff id hrange
    rw [if_neg hskip, Bool.eq_false_iff.mpr hskip, Bool.false_or]
    by_cases hvisited : id ∈ search.visited
    · rw [if_pos (hiff.mpr hvisited), if_pos (List.contains_iff_mem.mpr hvisited)]
      exact h
    · rw [if_neg (mt hiff.mp hvisited), if_neg (mt List.contains_iff_mem.mp hvisited)]
      refine ⟨?_, ?_, congrArg _ h.frontier_eq, h.explored_eq⟩
      · rw [EpochMarks.length_mark]
        exact h.room
      · intro other hother
        rw [EpochMarks.isMarked_mark _ (lt_of_lt_of_le hrange h.room), Bool.or_eq_true, beq_iff_eq,
          UInt32.toNat_inj, h.marked_iff other hother, List.mem_cons]

theorem marks_pushAll {marked : MarkedSearch F} {search : ConstructionSearch F}
    (h : Marks graph marked search) (ids : List NodeId) :
    Marks graph (ids.foldl (pushMarked ops base graph deleted query excluded_id) marked)
      (ids.foldl (push ops base graph deleted query excluded_id) search) := by
  induction ids generalizing marked search with
  | nil => exact h
  | cons id ids ih =>
    rw [List.foldl_cons, List.foldl_cons]
    exact ih (marks_push h id)

theorem marks_start {marked : MarkedSearch F} {search : ConstructionSearch F}
    (h : Marks graph marked search) (indices : List ℕ) :
    Marks graph
      (indices.foldl (fun search i => if search.frontier.isEmpty then
        pushMarked ops base graph deleted query excluded_id search (nodeId i) else search) marked)
      (indices.foldl (fun search i => if search.frontier.isEmpty then
        push ops base graph deleted query excluded_id search (nodeId i) else search) search) := by
  induction indices generalizing marked search with
  | nil => exact h
  | cons i indices ih =>
    rw [List.foldl_cons, List.foldl_cons, h.frontier_eq]
    split
    · exact ih (marks_push h (nodeId i))
    · exact ih h

theorem marks_explore (rounds : ℕ) {marked : MarkedSearch F} {search : ConstructionSearch F}
    (h : Marks graph marked search) :
    Marks graph (exploreMarked ops base graph deleted query excluded_id rounds marked)
      (explore ops base graph deleted query excluded_id rounds search) := by
  induction rounds generalizing marked search with
  | zero => exact h
  | succ rounds ih =>
    rw [exploreMarked, explore, h.frontier_eq]
    cases frontierTop ops search.frontier with
    | none => exact h
    | some current =>
      have htaken : Marks graph
          { marked with
            frontier := search.frontier.eraseP fun candidate => candidate.id == current.id
            explored := marked.explored ++ [current] }
          { search with
            frontier := search.frontier.eraseP fun candidate => candidate.id == current.id
            explored := search.explored ++ [current] } :=
        ⟨h.room, h.marked_iff, rfl, congrArg (· ++ [current]) h.explored_eq⟩
      exact ih (marks_pushAll htaken _)

variable (ops base config graph query excluded_id) in
/-- What a search explores, with no node visited in front of it. -/
def freshSearch (entry_id : NodeId) : ConstructionSearch F :=
  let deleted := deletedMask config base.size
  let pushed := push ops base graph deleted query excluded_id {} entry_id
  let started := (List.range graph.length).foldl (fun search i =>
    if search.frontier.isEmpty then push ops base graph deleted query excluded_id search (nodeId i)
    else search) pushed
  explore ops base graph deleted query excluded_id config.search_width started

theorem searchForConstruction_eq (entry_id : NodeId) :
    searchForConstruction ops base config graph query entry_id excluded_id =
      (constructionEntry ops base config graph entry_id).map fun entry_id =>
        (sortNeighbors ops (freshSearch ops base config graph query excluded_id entry_id).explored).map
          NeighborCandidate.id := by
  rw [searchForConstruction, constructionEntry]
  cases throwIf (graph.length ≠ base.size) "Vamana construction graph size mismatch" with
  | error e => rfl
  | ok _ =>
    dsimp only [bind, Except.bind]
    by_cases hentry : (graph.length ≤ entry_id.toNat ||
        isDeleted (deletedMask config base.size) entry_id.toNat) = true
    · rw [if_pos hentry, if_pos hentry]
      cases findMedoid ops base config with
      | error e => rfl
      | ok medoid => rfl
    · rw [if_neg hentry, if_neg hentry]
      rfl

/-- Whatever searches have left in the marks, a search returns what it returns without them. -/
theorem searchMarked_eq (entry_id : NodeId) (marks : EpochMarks) :
    (searchMarked ops base config graph query entry_id excluded_id marks).1 =
      searchForConstruction ops base config graph query entry_id excluded_id := by
  rw [searchForConstruction_eq, searchMarked]
  cases constructionEntry ops base config graph entry_id with
  | error e => rfl
  | ok entry_id =>
    have hmarks : Marks graph _ (freshSearch ops base config graph query excluded_id entry_id) :=
      marks_explore config.search_width
        (marks_start (marks_push (marks_next marks) entry_id) (List.range graph.length))
    exact congrArg (fun explored => Except.ok ((sortNeighbors ops explored).map
      NeighborCandidate.id)) hmarks.explored_eq

end Simulation

section Fresh

variable {F : Type} {ops : FloatOps F} {base : VectorSet} {config : VamanaBuildConfig}
  {graph : Adjacency} {deleted : List Bool} {query : List FloatBits} {excluded_id : NodeId}

theorem frontierTop_mem {frontier : List (NeighborCandidate F)} {current : NeighborCandidate F}
    (h : frontierTop ops frontier = some current) : current ∈ frontier := by
  refine foldl_top_mem (fun top candidate => ?_) h
  cases top with
  | none => exact Or.inl rfl
  | some best =>
    dsimp only
    split
    · exact Or.inl rfl
    · exact Or.inr rfl

/-- The visited nodes are those of the frontier and the explored ones, each of them once. -/
structure SearchOk (ops : FloatOps F) (base : VectorSet) (graph : Adjacency) (deleted : List Bool)
    (query : List FloatBits) (excluded_id : NodeId) (search : ConstructionSearch F) : Prop where
  nodup : search.visited.Nodup
  perm : ((search.explored ++ search.frontier).map NeighborCandidate.id).Perm search.visited
  in_range : ∀ id ∈ search.visited, id.toNat < graph.length
  not_excluded : excluded_id ∉ search.visited
  not_deleted : ∀ id ∈ search.visited, isDeleted deleted id.toNat = false
  distance_eq : ∀ candidate ∈ search.explored ++ search.frontier,
    candidate.distance = ops.l2_distance_sq_simd query (base.row candidate.id.toNat)

theorem searchOk_empty : SearchOk ops base graph deleted query excluded_id {} where
  nodup := List.nodup_nil
  perm := List.Perm.refl []
  in_range _ h := absurd h List.not_mem_nil
  not_excluded := List.not_mem_nil
  not_deleted _ h := absurd h List.not_mem_nil
  distance_eq _ h := absurd h List.not_mem_nil

theorem searchOk_push {search : ConstructionSearch F}
    (h : SearchOk ops base graph deleted query excluded_id search) (id : NodeId) :
    SearchOk ops base graph deleted query excluded_id
      (push ops base graph deleted query excluded_id search id) := by
  rw [push]
  split
  · exact h
  · next hnew =>
    simp only [Bool.or_eq_true, decide_eq_true_eq, beq_iff_eq, List.contains_iff_mem, not_or,
      not_le, Bool.not_eq_true] at hnew
    obtain ⟨⟨⟨hrange, hexcluded⟩, hdeleted⟩, hvisited⟩ := hnew
    constructor
    · exact List.nodup_cons.mpr ⟨hvisited, h.nodup⟩
    · rw [List.map_append, List.map_cons]
      rw [List.perm_middle.congr_left, ← List.map_append]
      exact h.perm.cons id
    · intro other hother
      cases List.mem_cons.mp hother with
      | inl heq => exact heq ▸ hrange
      | inr hmem => exact h.in_range other hmem
    · intro hmem
      cases List.mem_cons.mp hmem with
      | inl heq => exact hexcluded heq.symm
      | inr hmem => exact h.not_excluded hmem
    · intro other hother
      cases List.mem_cons.mp hother with
      | inl heq => exact heq ▸ hdeleted
      | inr hmem => exact h.not_deleted other hmem
    · intro candidate hcandidate
      cases List.mem_cons.mp (List.perm_middle.mem_iff.mp hcandidate) with
      | inl heq => exact heq ▸ rfl
      | inr hmem => exact h.distance_eq candidate hmem

theorem searchOk_pushAll {search : ConstructionSearch F}
    (h : SearchOk ops base graph deleted query excluded_id search) (ids : List NodeId) :
    SearchOk ops base graph deleted query excluded_id
      (ids.foldl (push ops base graph deleted query excluded_id) search) := by
  induction ids generalizing search with
  | nil => exact h
  | cons id ids ih => exact ih (searchOk_push h id)

theorem explored_push (search : ConstructionSearch F) (id : NodeId) :
    (push ops base graph deleted query excluded_id search id).explored = search.explored := by
  rw [push]
  split
  · rfl
  · rfl

theorem explored_pushAll (search : ConstructionSearch F) (ids : List NodeId) :
    (ids.foldl (push ops base graph deleted query excluded_id) search).explored =
      search.explored := by
  induction ids generalizing search with
  | nil => rfl
  | cons id ids ih => rw [List.foldl_cons, ih, explored_push]

/-- The top of the frontier moves to the explored nodes. -/
theorem searchOk_take {search : ConstructionSearch F}
    (h : SearchOk ops base graph deleted query excluded_id search) {current : NeighborCandidate F}
    (hcurrent : current ∈ search.frontier) :
    SearchOk ops base graph deleted query excluded_id
      { search with
        frontier := search.frontier.eraseP fun candidate => candidate.id == current.id
        explored := search.explored ++ [current] } := by
  have hids : (search.frontier.map NeighborCandidate.id).Nodup := by
    have hall := h.perm.nodup_iff.mpr h.nodup
    rw [List.map_append] at hall
    exact hall.of_append_right
  have htaken : search.frontier.Perm (current ::
      search.frontier.eraseP fun candidate => candidate.id == current.id) := by
    obtain ⟨taken, front, back, _, hid, hsplit, herase⟩ :=
      List.exists_of_eraseP (p := fun candidate => candidate.id == current.id) hcurrent
        (beq_self_eq_true _)
    have htaken : taken ∈ search.frontier := by
      rw [hsplit]
      exact List.mem_append_right _ List.mem_cons_self
    obtain rfl : taken = current :=
      List.inj_on_of_nodup_map hids htaken hcurrent (beq_iff_eq.mp hid)
    rw [herase, hsplit]
    exact List.perm_middle
  have hperm : (search.explored ++ [current] ++
      search.frontier.eraseP fun candidate => candidate.id == current.id).Perm
      (search.explored ++ search.frontier) := by
    rw [List.append_assoc]
    exact htaken.symm.append_left search.explored
  exact ⟨h.nodup, (hperm.map _).trans h.perm, h.in_range, h.not_excluded, h.not_deleted,
    fun candidate hmem => h.distance_eq candidate (hperm.mem_iff.mp hmem)⟩

theorem searchOk_explore (rounds : ℕ) {search : ConstructionSearch F}
    (h : SearchOk ops base graph deleted query excluded_id search) :
    SearchOk ops base graph deleted query excluded_id
        (explore ops base graph deleted query excluded_id rounds search) ∧
      (explore ops base graph deleted query excluded_id rounds search).explored.length ≤
        search.explored.length + rounds := by
  induction rounds generalizing search with
  | zero => exact ⟨h, Nat.le_refl _⟩
  | succ rounds ih =>
    rw [explore]
    cases htop : frontierTop ops search.frontier with
    | none => exact ⟨h, Nat.le_add_right _ _⟩
    | some current =>
      obtain ⟨hok, hlength⟩ := ih (searchOk_pushAll (searchOk_take h (frontierTop_mem htop))
        (neighborsOf graph current.id.toNat))
      refine ⟨hok, hlength.trans ?_⟩
      rw [explored_pushAll, List.length_append, List.length_singleton]
      omega

theorem searchOk_start {search : ConstructionSearch F}
    (h : SearchOk ops base graph deleted query excluded_id search) (indices : List ℕ) :
    SearchOk ops base graph deleted query excluded_id
      (indices.foldl (fun search i => if search.frontier.isEmpty then
        push ops base graph deleted query excluded_id search (nodeId i) else search) search) := by
  induction indices generalizing search with
  | nil => exact h
  | cons i indices ih =>
    rw [List.foldl_cons]
    split
    · exact ih (searchOk_push h (nodeId i))
    · exact ih h

theorem explored_start (search : ConstructionSearch F) (indices : List ℕ) :
    (indices.foldl (fun search i => if search.frontier.isEmpty then
      push ops base graph deleted query excluded_id search (nodeId i) else search) search).explored =
      search.explored := by
  induction indices generalizing search with
  | nil => rfl
  | cons i indices ih =>
    rw [List.foldl_cons, ih]
    split
    · exact explored_push search (nodeId i)
    · rfl

theorem freshSearch_ok (entry_id : NodeId) :
    SearchOk ops base graph (deletedMask config base.size) query excluded_id
        (freshSearch ops base config graph query excluded_id entry_id) ∧
      (freshSearch ops base config graph query excluded_id entry_id).explored.length ≤
        config.search_width := by
  obtain ⟨hok, hlength⟩ := searchOk_explore config.search_width
    (searchOk_start (searchOk_push (@searchOk_empty F ops base graph (deletedMask config base.size)
      query excluded_id) entry_id) (List.range graph.length))
  refine ⟨hok, hlength.trans ?_⟩
  rw [explored_start, explored_push]
  exact (Nat.zero_add _).le

/-- What a search returns: nodes that take part, the closest first. -/
structure ConstructionResult [LinearOrder F] (ops : FloatOps F) (call : ConstructionCall)
    (ids : List NodeId) : Prop where
  nodup : ids.Nodup
  length_le : ids.length ≤ call.config.search_width
  in_range : ∀ id ∈ ids, id.toNat < call.base.size
  not_excluded : call.excluded_id ∉ ids
  not_deleted : ∀ id ∈ ids, id ∉ call.config.deleted_ids
  sorted : LawfulOps ops → ids.Pairwise fun a b =>
    toLex (ops.l2_distance_sq_simd call.query (call.base.row a.toNat), a) <
      toLex (ops.l2_distance_sq_simd call.query (call.base.row b.toNat), b)

theorem sortNeighbors_perm (ops : FloatOps F) (pool : List (NeighborCandidate F)) :
    (sortNeighbors ops pool).Perm pool := List.perm_insertionSort _ _

theorem constructionEntry_size {entry_id found : NodeId}
    (h : constructionEntry ops base config graph entry_id = .ok found) :
    graph.length = base.size := by
  rw [constructionEntry, throwIf_bind_eq_ok] at h
  exact not_not.mp h.1

/-- What a search returns that starts with no node visited. -/
theorem searchForConstruction_spec [LinearOrder F] {call : ConstructionCall} {ids : List NodeId}
    (h : ConstructionCall.fresh ops call = .ok ids) : ConstructionResult ops call ids := by
  rw [ConstructionCall.fresh, searchForConstruction_eq] at h
  cases hentry : constructionEntry ops call.base call.config call.graph call.entry_id with
  | error e =>
    rw [hentry] at h
    cases h
  | ok entry_id =>
    rw [hentry] at h
    cases h
    beta_reduce
    have hsize : call.graph.length = call.base.size := constructionEntry_size hentry
    obtain ⟨hok, hlength⟩ := @freshSearch_ok F ops call.base call.config call.graph call.query
      call.excluded_id entry_id
    generalize freshSearch ops call.base call.config call.graph call.query call.excluded_id
      entry_id = search at hok hlength
    have hnodup : (search.explored.map NeighborCandidate.id).Nodup := by
      have hall := hok.perm.nodup_iff.mpr hok.nodup
      rw [List.map_append] at hall
      exact hall.of_append_left
    have hperm : ((sortNeighbors ops search.explored).map NeighborCandidate.id).Perm
        (search.explored.map NeighborCandidate.id) := (sortNeighbors_perm ops _).map _
    have hvisited : ∀ id ∈ (sortNeighbors ops search.explored).map NeighborCandidate.id,
        id ∈ search.visited := by
      intro id hid
      refine hok.perm.mem_iff.mp ?_
      rw [List.map_append]
      exact List.mem_append_left _ (hperm.mem_iff.mp hid)
    constructor
    · exact hperm.nodup_iff.mpr hnodup
    · rw [List.length_map, (sortNeighbors_perm ops _).length_eq]
      exact hlength
    · intro id hid
      exact hsize ▸ hok.in_range id (hvisited id hid)
    · exact fun hid => hok.not_excluded (hvisited _ hid)
    · intro id hid hdeleted
      have hrange : id.toNat < call.base.size := hsize ▸ hok.in_range id (hvisited id hid)
      rw [← @isDeleted_deletedMask call.base call.config id hrange,
        hok.not_deleted id (hvisited id hid)] at hdeleted
      cases hdeleted
    · intro hlawful
      have hranks : (search.explored.map NeighborCandidate.rank).Nodup :=
        List.Nodup.of_map (fun rank => (ofLex rank).2) (by rwa [List.map_map])
      rw [sortNeighbors_eq hlawful, List.pairwise_map]
      refine (TopK.sortBy_pairwise_lt hranks).imp_of_mem fun ha hb hlt => ?_
      rw [← hok.distance_eq _ (List.mem_append_left _ (TopK.mem_sortBy.mp ha)),
        ← hok.distance_eq _ (List.mem_append_left _ (TopK.mem_sortBy.mp hb))]
      exact hlt

/-- Whatever searches a thread has made, on whatever builders, graphs and bases, and wherever its
epoch stands, every search returns what it returns with no node visited. -/
theorem searchRun_fresh [LinearOrder F] (ops : FloatOps F) (calls : List ConstructionCall)
    (marks : EpochMarks) :
    (searchRun ops calls marks).1 = calls.map (ConstructionCall.fresh ops) ∧
      ∀ call ∈ calls, ∀ ids, ConstructionCall.fresh ops call = .ok ids →
        ConstructionResult ops call ids := by
  refine ⟨?_, fun call _ ids h => searchForConstruction_spec h⟩
  induction calls generalizing marks with
  | nil => rfl
  | cons call calls ih =>
    rw [searchRun, List.map_cons]
    exact congrArg₂ List.cons (searchMarked_eq call.entry_id marks) (ih _)

/-- Two searches across the end of the epoch numbers, the second one of a larger base. -/
example :
    let small : ConstructionCall :=
      { config := {}, base := { dim := 1, values := [4, 9] }, graph := [[1], [0]], query := [0]
        entry_id := 0, excluded_id := 7 }
    let large : ConstructionCall :=
      { config := { deleted_ids := [0] }, base := { dim := 1, values := [4, 5, 7] }
        graph := [[1], [2], [1]], query := [0], entry_id := 2, excluded_id := 7 }
    (searchRun wholeOps [small, large]
      { marks := [0xffffffff, 3], epoch := 0xffffffff
        le_epoch := fun mark _ => Nat.le_of_lt_succ mark.toNat_lt }).1 =
        [.ok [0, 1], .ok [1, 2]] := by
  decide +kernel

end Fresh

end VamanaBuilder

end Graph
