import AgentAware.Lib.Walk
import AgentAware.Prefetch.RankerDump

/-!
# Scoring a page with any accepted model

The loader takes the children of a split as they stand in the text, so a model may refer to nodes it
does not have, or lead back to a node already met. The scorer follows these references.

A feature vector is what the planner knows of a page, with numbers that may not be finite. How a text is
read as a double, how a size is converted to one and how a sum is rounded are parameters.

## Main definitions

- `PrefetchPlanner.Doubles` — the double arithmetic of the loader and the scorer
- `PrefetchPlanner.PrefetchFeature` — what the planner knows of a page
- `PrefetchPlanner.scoreXgboostModel` — the walks through the trees, for a number of steps

## Main results

- `PrefetchPlanner.scoreXgboostModel_ofRow` — the scorer of finite rows is this one
- `PrefetchPlanner.scoreXgboostModel_loops` — an accepted model that is walked without end
- `PrefetchPlanner.scoreXgboostModel_ends` — what scoring does when no walk meets a node twice
-/

namespace Prefetch

/-- The reasons a page is skipped for. -/
inductive SkipReason where
  | cached
  | pending
  | materialized
  | seen_before
  | low_page_reuse
  | score_threshold
  | budget_full
  | inflight_full
  deriving DecidableEq

namespace PrefetchPlanner

/-- The double arithmetic of the loader and the scorer: `std::stod`, the conversion of a size, which is
always finite, and a sum. -/
structure Doubles where
  stod : Text → Except String Double
  ofSize : ℕ → ℚ
  add : Double → Double → Double

/-- Sums of finite doubles without rounding. -/
def exactAdd : Double → Double → Double
  | .finite a, .finite b => .finite (a + b)
  | .finite _, b => b
  | a, .finite _ => a
  | .posInf, .posInf => .posInf
  | .negInf, .negInf => .negInf
  | _, _ => .nan

def Doubles.exact : Doubles where
  stod := exactStod
  ofSize size := size
  add := exactAdd

structure PrefetchFeature where
  page_id : ℕ := 0
  num_candidates_on_page : ℕ := 0
  min_pq_rank_on_page : ℕ := 0
  avg_pq_rank_on_page : Double := .finite 0
  candidate_rank_span : ℕ := 0
  contains_top1_candidate : Bool := false
  contains_topk_candidate : Bool := false
  is_cached : Bool := false
  is_inflight : Bool := false
  is_ready : Bool := false
  is_materialized : Bool := false
  search_step : ℕ := 0
  visited_count : ℕ := 0
  frontier_size : ℕ := 0
  result_size : ℕ := 0
  current_candidate_distance : Double := .posInf
  worst_result_distance : Double := .posInf
  ef_search : ℕ := 0
  beam_width : ℕ := 0
  io_queue_depth : ℕ := 0
  max_prefetch_inflight : ℕ := 0
  cache_pressure : Double := .finite 0
  /-- A finite number, or negative infinity. -/
  score : WithBot ℚ := some 0
  rank : ℕ := 0
  selected : Bool := false
  /-- `none` is the empty string. -/
  skip_reason : Option SkipReason := none
  deriving DecidableEq

def finiteOrZero : Double → Double
  | .finite value => .finite value
  | _ => .finite 0

def featureValue (doubles : Doubles) (feature : PrefetchFeature) (name : String) : Double :=
  let size (count : ℕ) := Double.finite (doubles.ofSize count)
  if name = "num_candidates_on_page" then size feature.num_candidates_on_page
  else if name = "min_pq_rank_on_page" then size feature.min_pq_rank_on_page
  else if name = "avg_pq_rank_on_page" then feature.avg_pq_rank_on_page
  else if name = "candidate_rank_span" then size feature.candidate_rank_span
  else if name = "contains_top1_candidate" then .finite (boolValue feature.contains_top1_candidate)
  else if name = "contains_topk_candidate" then .finite (boolValue feature.contains_topk_candidate)
  else if name = "is_cached" then .finite (boolValue feature.is_cached)
  else if name = "is_inflight" then .finite (boolValue feature.is_inflight)
  else if name = "is_ready" then .finite (boolValue feature.is_ready)
  else if name = "is_materialized" then .finite (boolValue feature.is_materialized)
  else if name = "search_step" then size feature.search_step
  else if name = "visited_count" then size feature.visited_count
  else if name = "frontier_size" then size feature.frontier_size
  else if name = "result_size" then size feature.result_size
  else if name = "current_candidate_distance" then finiteOrZero feature.current_candidate_distance
  else if name = "worst_result_distance" then finiteOrZero feature.worst_result_distance
  else if name = "ef_search" then size feature.ef_search
  else if name = "beam_width" then size feature.beam_width
  else if name = "io_queue_depth" then size feature.io_queue_depth
  else if name = "max_prefetch_inflight" then size feature.max_prefetch_inflight
  else if name = "cache_pressure" then feature.cache_pressure
  else .finite 0

/-- The child a split goes to. -/
def child (value : Double) (threshold : ℚ) (yes no missing : ℤ) : ℤ :=
  match value with
  | .finite value => if value < threshold then yes else no
  | _ => missing

section Score

variable (doubles : Doubles)

/-- One iteration of the inner loop: the next node, the value of a leaf, or what is thrown. -/
def nextNode (tree : XGBoostTree) (feature : PrefetchFeature) (node_id : ℤ) :
    ℤ ⊕ Except String ℚ :=
  match tree.lookup node_id with
  | none => .inr (.error "XGBoost prefetch model references missing node")
  | some (.leaf leaf_value) => .inr (.ok leaf_value)
  | some (.split name threshold yes no missing) =>
    .inl (child (featureValue doubles feature name) threshold yes no missing)

def scoreTrees (steps : ℕ) (feature : PrefetchFeature) :
    Double → List XGBoostTree → Option (Except String Double)
  | score, [] => some (.ok score)
  | score, tree :: trees =>
    match Walk.run (nextNode doubles tree feature) steps 0 with
    | some (.ok leaf_value) => scoreTrees steps feature (doubles.add score (.finite leaf_value)) trees
    | some (.error message) => some (.error message)
    | none => none

/-- `none` when the walk of a tree goes on after `steps` nodes. -/
def scoreXgboostModel (steps : ℕ) (model : ℚ × List XGBoostTree) (feature : PrefetchFeature) :
    Option (Except String Double) :=
  scoreTrees doubles steps feature (.finite model.1) model.2

end Score

variable {doubles : Doubles} {tree : XGBoostTree} {feature : PrefetchFeature} {node_id : ℤ}
  {steps : ℕ}

/-- A walk goes on from nodes of the tree only. -/
theorem mem_of_nextNode {next : ℤ} (h : nextNode doubles tree feature node_id = .inl next) :
    node_id ∈ tree.map Prod.fst := by
  rw [nextNode] at h
  cases hfound : tree.lookup node_id with
  | none =>
    rw [hfound] at h
    cases h
  | some node =>
    rw [List.lookup_eq_some_iff] at hfound
    obtain ⟨before, after, rfl, -⟩ := hfound
    simp

theorem nextNode_eq_error {message : String}
    (h : nextNode doubles tree feature node_id = .inr (.error message)) :
    tree.lookup node_id = none ∧ message = "XGBoost prefetch model references missing node" := by
  rw [nextNode] at h
  cases hfound : tree.lookup node_id with
  | none =>
    rw [hfound] at h
    cases h
    exact ⟨rfl, rfl⟩
  | some node => cases node <;> simp [hfound] at h

theorem nextNode_eq_ok {leaf_value : ℚ}
    (h : nextNode doubles tree feature node_id = .inr (.ok leaf_value)) :
    tree.lookup node_id = some (.leaf leaf_value) := by
  rw [nextNode] at h
  cases hfound : tree.lookup node_id with
  | none => simp [hfound] at h
  | some node => cases node <;> simp_all

variable (doubles) in
theorem nextNode_of_missing (h : tree.lookup node_id = none) :
    nextNode doubles tree feature node_id =
      .inr (.error "XGBoost prefetch model references missing node") := by
  rw [nextNode, h]

/-- With more steps than nodes in any tree, a score that is found at all is found. -/
theorem scoreTrees_enough {trees : List XGBoostTree} {score : Double} {more : ℕ}
    {result : Except String Double} (h : scoreTrees doubles steps feature score trees = some result)
    (hmore : ∀ tree ∈ trees, tree.length < more) :
    scoreTrees doubles more feature score trees = some result := by
  induction trees generalizing score with
  | nil => exact h
  | cons tree trees ih =>
    rw [List.forall_mem_cons] at hmore
    rw [scoreTrees] at h ⊢
    cases hrun : Walk.run (nextNode doubles tree feature) steps 0 with
    | none =>
      rw [hrun] at h
      cases h
    | some outcome =>
      have hmany : Walk.run (nextNode doubles tree feature) more 0 = some outcome :=
        Walk.run_enough (fun _ _ => mem_of_nextNode) hrun (by simpa using hmore.1)
      rw [hrun] at h
      rw [hmany]
      cases outcome with
      | ok leaf_value => exact ih h hmore.2
      | error message => exact h

/-! ### Rows with finite numbers -/

/-- A row as a feature vector. -/
def ofRow (row : Prefetch.PrefetchFeature) : PrefetchFeature where
  num_candidates_on_page := row.num_candidates_on_page
  min_pq_rank_on_page := row.min_pq_rank_on_page
  avg_pq_rank_on_page := .finite row.avg_pq_rank_on_page
  candidate_rank_span := row.candidate_rank_span
  contains_top1_candidate := row.contains_top1_candidate
  contains_topk_candidate := row.contains_topk_candidate
  is_cached := row.is_cached
  is_inflight := row.is_inflight
  is_ready := row.is_ready
  is_materialized := row.is_materialized
  search_step := row.search_step
  visited_count := row.visited_count
  frontier_size := row.frontier_size
  result_size := row.result_size
  current_candidate_distance := row.current_candidate_distance.elim .posInf .finite
  worst_result_distance := row.worst_result_distance.elim .posInf .finite
  ef_search := row.ef_search
  beam_width := row.beam_width
  io_queue_depth := row.io_queue_depth
  max_prefetch_inflight := row.max_prefetch_inflight
  cache_pressure := .finite row.cache_pressure

theorem finiteOrZero_elim (value : Option ℚ) :
    finiteOrZero (value.elim .posInf .finite) = .finite (Prefetch.finiteOrZero value) := by
  cases value <;> rfl

theorem featureValue_ofRow (row : Prefetch.PrefetchFeature) (name : String) :
    featureValue .exact (ofRow row) name = .finite (Prefetch.featureValue row name) := by
  rw [featureValue, Prefetch.featureValue]
  simp only [ofRow, finiteOrZero_elim, apply_ite Double.finite, Doubles.exact]

theorem walkTree_eq_run (tree : XGBoostTree) (row : Prefetch.PrefetchFeature) (steps : ℕ)
    (node_id : ℤ) :
    walkTree tree row steps node_id = Walk.run (nextNode .exact tree (ofRow row)) steps node_id := by
  induction steps generalizing node_id with
  | zero => rfl
  | succ steps ih =>
    rw [walkTree, Walk.run, nextNode]
    cases hfound : tree.lookup node_id with
    | none => rfl
    | some node =>
      cases node with
      | leaf leaf_value => rfl
      | split name threshold yes no missing =>
        simp only [featureValue_ofRow, child]
        exact ih _

/-- In exact arithmetic, any number of steps that is more than the nodes of every tree is enough. -/
theorem scoreXgboostModel_ofRow {model : ℚ × List XGBoostTree} (row : Prefetch.PrefetchFeature)
    (hsteps : ∀ tree ∈ model.2, tree.length < steps) :
    scoreXgboostModel .exact steps model (ofRow row) =
      (Prefetch.scoreXgboostModel model row).map (Except.map .finite) := by
  obtain ⟨score, trees⟩ := model
  rw [scoreXgboostModel, Prefetch.scoreXgboostModel]
  simp only at hsteps ⊢
  induction trees generalizing score with
  | nil => rfl
  | cons tree trees ih =>
    rw [List.forall_mem_cons] at hsteps
    have hrun : Walk.run (nextNode .exact tree (ofRow row)) steps 0 =
        walkTree tree row (tree.length + 1) 0 := by
      rw [walkTree_eq_run]
      exact Walk.run_eq_of_enough (fun _ _ => mem_of_nextNode)
        (by simpa using hsteps.1) (by simp)
    rw [scoreTrees, hrun, List.foldl_cons]
    match walkTree tree row (tree.length + 1) 0 with
    -- a walk that failed is not followed by another
    | none =>
      show none = Option.map _ (List.foldl _ none trees)
      rw [List.foldl_fixed' fun _ => rfl]
      rfl
    | some (.error message) =>
      show some (Except.error message) = Option.map _ (List.foldl _ (some (Except.error message)) trees)
      rw [List.foldl_fixed' fun _ => rfl]
      rfl
    | some (.ok value) => exact ih _ hsteps.2

/-! ### Walks that end -/

variable (doubles) in
/-- Every node that the walk of the tree meets is in the tree. -/
def Closed (feature : PrefetchFeature) (tree : XGBoostTree) : Prop :=
  ∀ steps, ∀ node_id ∈ Walk.visited (nextNode doubles tree feature) steps 0, tree.lookup node_id ≠ none

variable (doubles) in
/-- The walk of the tree comes to a leaf with this value. -/
def Reaches (feature : PrefetchFeature) (tree : XGBoostTree) (leaf_value : ℚ) : Prop :=
  ∃ steps, ∃ node_id ∈ Walk.visited (nextNode doubles tree feature) steps 0,
    tree.lookup node_id = some (.leaf leaf_value)

/-- A walk that meets no node twice comes to a leaf when it is closed, and throws otherwise. -/
theorem walk_ends
    (hwalk : ∀ steps, (Walk.visited (nextNode doubles tree feature) steps 0).Nodup) :
    ∃ outcome, (∀ steps, tree.length < steps →
        Walk.run (nextNode doubles tree feature) steps 0 = some outcome) ∧
      ((Closed doubles feature tree ∧ ∃ leaf_value, Reaches doubles feature tree leaf_value ∧
          outcome = .ok leaf_value) ∨
        (¬Closed doubles feature tree ∧
          outcome = .error "XGBoost prefetch model references missing node")) := by
  have hknown : ∀ x next, nextNode doubles tree feature x = .inl next → x ∈ tree.map Prod.fst :=
    fun _ _ => mem_of_nextNode
  obtain ⟨outcome, hrun⟩ := Walk.run_of_nodup hknown (hwalk _)
    (show (tree.map Prod.fst).length < tree.length + 1 by simp)
  refine ⟨outcome, fun steps hsteps => Walk.run_enough hknown hrun (by simpa using hsteps), ?_⟩
  obtain ⟨last, hlast, hstop⟩ := Walk.exists_of_run hrun
  cases outcome with
  | ok leaf_value =>
    refine Or.inl ⟨fun steps node_id hvisited hmissing => ?_, leaf_value,
      ⟨_, last, hlast, nextNode_eq_ok hstop⟩, rfl⟩
    exact nomatch Walk.eq_of_mem_visited hrun hvisited (nextNode_of_missing doubles hmissing)
  | error message =>
    obtain ⟨hmissing, rfl⟩ := nextNode_eq_error hstop
    exact Or.inr ⟨fun hclosed => hclosed _ _ hlast hmissing, rfl⟩

variable (doubles) in
/-- The base score and the values of the leaves, added in the order of the trees. -/
def total (base_score : Double) (leaves : List ℚ) : Double :=
  leaves.foldl (fun score leaf_value => doubles.add score (.finite leaf_value)) base_score

theorem scoreTrees_ends {trees : List XGBoostTree} (score : Double)
    (hwalks : ∀ tree ∈ trees, ∀ steps,
      (Walk.visited (nextNode doubles tree feature) steps 0).Nodup) :
    ∃ result, (∀ steps, (∀ tree ∈ trees, tree.length < steps) →
        scoreTrees doubles steps feature score trees = some result) ∧
      (((∀ tree ∈ trees, Closed doubles feature tree) ∧ ∃ leaves,
          List.Forall₂ (Reaches doubles feature) trees leaves ∧
            result = .ok (total doubles score leaves)) ∨
        ((∃ tree ∈ trees, ¬Closed doubles feature tree) ∧
          result = .error "XGBoost prefetch model references missing node")) := by
  induction trees generalizing score with
  | nil =>
    exact ⟨.ok score, fun _ _ => rfl,
      Or.inl ⟨fun _ htree => absurd htree List.not_mem_nil, [], .nil, rfl⟩⟩
  | cons tree trees ih =>
    rw [List.forall_mem_cons] at hwalks
    obtain ⟨outcome, hrun, ⟨hclosed, leaf_value, hreaches, rfl⟩ | ⟨hopen, rfl⟩⟩ :=
      walk_ends hwalks.1
    -- The first tree came to a leaf, and the others decide.
    · obtain ⟨result, hscore, hresult⟩ := ih (doubles.add score (.finite leaf_value)) hwalks.2
      refine ⟨result, fun steps hsteps => ?_, ?_⟩
      · rw [List.forall_mem_cons] at hsteps
        rw [scoreTrees, hrun steps hsteps.1]
        exact hscore steps hsteps.2
      · rcases hresult with ⟨hall, leaves, hleaves, rfl⟩ | ⟨⟨other, hother, hopen⟩, rfl⟩
        · exact Or.inl ⟨List.forall_mem_cons.mpr ⟨hclosed, hall⟩, leaf_value :: leaves,
            .cons hreaches hleaves, rfl⟩
        · exact Or.inr ⟨⟨other, List.mem_cons_of_mem _ hother, hopen⟩, rfl⟩
    · refine ⟨_, fun steps hsteps => ?_, Or.inr ⟨⟨tree, List.mem_cons_self, hopen⟩, rfl⟩⟩
      rw [scoreTrees, hrun steps (hsteps tree List.mem_cons_self)]

/-- The value of a feature does not matter when all children of a split are the same. -/
theorem nextNode_same {name : String} {threshold : ℚ} {next : ℤ}
    (h : tree.lookup node_id = some (.split name threshold next next next)) :
    nextNode doubles tree feature node_id = .inl next := by
  rw [nextNode, h]
  refine congrArg Sum.inl ?_
  cases featureValue doubles feature name with
  | finite value => exact ite_self _
  | nan | negInf | posInf => rfl

/-- A model whose only split leads back to itself. -/
def selfReferring : Text := "0:[cache_pressure<0.5] yes=0,no=0,missing=0".toList

/-- A model whose only split refers to a node that is not there. -/
def danglingReference : Text := "0:[cache_pressure<0.5] yes=1,no=1,missing=1".toList

/-- The loader takes a model whose walk comes back to its root, and one that refers to a node it does
not have. -/
theorem scoreXgboostModel_loops :
    (∃ model, loadXgboostModel exactStod "ranker.txt" selfReferring = .ok model ∧
      ∀ doubles feature steps, scoreXgboostModel doubles steps model feature = none) ∧
    ∃ model, loadXgboostModel exactStod "ranker.txt" danglingReference = .ok model ∧
      ∀ doubles feature steps, scoreXgboostModel doubles (steps + 2) model feature =
        some (.error "XGBoost prefetch model references missing node") := by
  refine ⟨⟨(0, [[(0, .split "cache_pressure" (1 / 2) 0 0 0)]]), by with_unfolding_all rfl,
      fun doubles feature steps => ?_⟩,
    (0, [[(0, .split "cache_pressure" (1 / 2) 1 1 1)]]), by with_unfolding_all rfl,
      fun doubles feature steps => ?_⟩
  · have hback : nextNode doubles [(0, .split "cache_pressure" (1 / 2) 0 0 0)] feature 0 = .inl 0 :=
      nextNode_same rfl
    have hrepeat : ¬(Walk.visited
        (nextNode doubles [(0, .split "cache_pressure" (1 / 2) 0 0 0)] feature) 2 0).Nodup := by
      rw [Walk.visited_inl hback, Walk.visited_inl hback]
      simp
    rw [scoreXgboostModel, scoreTrees, Walk.run_eq_none_of_repeat hrepeat]
  · have hfirst : nextNode doubles [(0, .split "cache_pressure" (1 / 2) 1 1 1)] feature 0 = .inl 1 :=
      nextNode_same rfl
    have hsecond := @nextNode_of_missing doubles [(0, .split "cache_pressure" (1 / 2) 1 1 1)] feature 1 rfl
    rw [scoreXgboostModel, scoreTrees, Walk.run_inl hfirst, Walk.run_inr hsecond]

/-- For an accepted text and a feature vector with which no walk meets a node twice, scoring ends: it
returns the base score and the leaves of all trees when every node met is in its tree, and throws
otherwise. -/
theorem scoreXgboostModel_ends (doubles : Doubles) (path : String) (file : Text)
    {model : ℚ × List XGBoostTree} (hload : loadXgboostModel doubles.stod path file = .ok model)
    (feature : PrefetchFeature) (hwalks : ∀ tree ∈ model.2, ∀ steps,
      (Walk.visited (nextNode doubles tree feature) steps 0).Nodup) :
    model.2 ≠ [] ∧
      ∃ result, (∀ steps, (∀ tree ∈ model.2, tree.length < steps) →
          scoreXgboostModel doubles steps model feature = some result) ∧
        (((∀ tree ∈ model.2, Closed doubles feature tree) ∧ ∃ leaves,
            List.Forall₂ (Reaches doubles feature) model.2 leaves ∧
              result = .ok (total doubles (.finite model.1) leaves)) ∨
          ((∃ tree ∈ model.2, ¬Closed doubles feature tree) ∧
            result = .error "XGBoost prefetch model references missing node")) := by
  refine ⟨?_, scoreTrees_ends _ hwalks⟩
  rw [loadXgboostModel, except_bind_eq_ok] at hload
  obtain ⟨state, -, hload⟩ := hload
  rw [throwIf_bind_eq_ok] at hload
  obtain ⟨hsome, hmodel⟩ := hload
  cases hmodel
  exact hsome

/-- A split with two leaves. -/
def stumpText : Text :=
  "base_score=1\n0:[search_step<5] yes=1,no=2,missing=1\n1:leaf=2\n2:leaf=3".toList

theorem scoreXgboostModel_ends_stump :
    ∃ model, loadXgboostModel exactStod "ranker.txt" stumpText = .ok model ∧
      (∀ steps, (∀ tree ∈ model.2, tree.length < steps) →
        scoreXgboostModel .exact steps model { search_step := 5 } = some (.ok (.finite 4))) ∧
      ∀ tree ∈ model.2, Closed .exact { search_step := 5 } tree := by
  have hload : loadXgboostModel exactStod "ranker.txt" stumpText =
      .ok (1, [[(2, .leaf 3), (1, .leaf 2), (0, .split "search_step" 5 1 2 1)]]) := by
    with_unfolding_all rfl
  have hfirst : nextNode .exact [(2, .leaf 3), (1, .leaf 2), (0, .split "search_step" 5 1 2 1)]
      { search_step := 5 } 0 = .inl 2 := by with_unfolding_all rfl
  have hsecond : nextNode .exact [(2, .leaf 3), (1, .leaf 2), (0, .split "search_step" 5 1 2 1)]
      { search_step := 5 } 2 = .inr (.ok 3) := rfl
  have hwalks : ∀ tree ∈ [[((2 : ℤ), XGBoostNode.leaf 3), (1, .leaf 2),
      (0, .split "search_step" 5 1 2 1)]], ∀ steps,
        (Walk.visited (nextNode .exact tree { search_step := 5 }) steps 0).Nodup := by
    intro tree htree steps
    rw [List.mem_singleton.mp htree]
    match steps with
    | 0 => exact List.nodup_nil
    | 1 => exact List.nodup_singleton 0
    | steps + 2 =>
      rw [Walk.visited_inl hfirst, Walk.visited_inr hsecond]
      decide
  obtain ⟨-, result, hscore, hresult⟩ :=
    scoreXgboostModel_ends .exact "ranker.txt" stumpText hload { search_step := 5 } hwalks
  have hfour : result = .ok (.finite 4) :=
    Option.some.inj ((hscore 4 (by decide)).symm.trans (by with_unfolding_all rfl))
  refine ⟨_, hload, fun steps hsteps => hfour ▸ hscore steps hsteps, ?_⟩
  rcases hresult with ⟨hclosed, -⟩ | ⟨-, herror⟩
  · exact hclosed
  · rw [hfour] at herror
    cases herror

end PrefetchPlanner

end Prefetch
