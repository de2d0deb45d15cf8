import AgentAware.Lib.TopK
import AgentAware.Prefetch.ModelScore
import Mathlib.Algebra.Order.BigOperators.Group.List
import Mathlib.Data.Finset.Card
import Mathlib.Data.Prod.Lex
import Mathlib.Order.WithBot

/-!
# The prefetch planner

A planner takes the pages of the ranked candidates, drops those that are available or were planned
before, scores the others, and selects pages until a limit is met. When it selects none, it may fall
back to a page that has few candidates.

How a page is scored is a field of the planner; it is the scorer of the loaded model when the planner
is constructed. Page ids and sizes are natural numbers.

## Main definitions

- `PrefetchPlanner.Request` — the arguments of one call
- `PrefetchPlanner.rankAndThrottle` — scoring, ranking, the limits and the fallback
- `PrefetchPlanner.planCandidates` — one call, which returns a plan, throws, or does not end
- `PrefetchPlanner.planAll` — a sequence of calls

## Main results

- `PrefetchPlanner.comesBefore_iff` — the order of the candidates is that of a rank
- `PrefetchPlanner.score_of_construct` — a constructed planner scores as its model does
-/

namespace Prefetch

namespace PrefetchPlanner

structure Config where
  policy : String := "none"
  prefetch_width : ℕ := 0
  prefetch_depth : ℕ := 1
  min_candidates_per_page : ℕ := 2
  model_path : String := ""
  prefetch_top_k : ℕ := 0
  score_threshold : Double := .negInf
  max_prefetch_inflight : ℕ := 0

structure PageAvailability where
  cached : Bool := false
  ready : Bool := false
  pending : Bool := false
  materialized : Bool := false
  deriving DecidableEq

structure PlanStats where
  page_requests_before_dedup : ℕ := 0
  dedup_requests : ℕ := 0
  dedup_hits : ℕ := 0
  skip_seen_before : ℕ := 0
  skip_cached : ℕ := 0
  skip_pending : ℕ := 0
  skip_materialized : ℕ := 0
  skip_budget_full : ℕ := 0
  skip_low_page_reuse : ℕ := 0
  skip_score_threshold : ℕ := 0
  skip_inflight_full : ℕ := 0
  deriving DecidableEq

structure PlanningContext where
  search_step : ℕ := 0
  visited_count : ℕ := 0
  frontier_size : ℕ := 0
  result_size : ℕ := 0
  current_candidate_distance : Double := .posInf
  worst_result_distance : Double := .posInf
  ef_search : ℕ := 0
  beam_width : ℕ := 0
  io_queue_depth : ℕ := 0
  max_prefetch_inflight : ℕ := 0
  min_candidates_per_page : ℕ := 0
  cache_pressure : Double := .finite 0

structure Plan where
  pages : List ℕ := []
  candidates : List PrefetchFeature := []
  stats : PlanStats := {}
  deriving DecidableEq

structure PageCandidate where
  feature : PrefetchFeature
  eligible : Bool

/-- The arguments of one call, and the order in which it visits the entries of its hash map. -/
structure Request where
  page_ids : List ℕ
  availability : ℕ → PageAvailability := fun _ => {}
  max_pages : ℕ := 0
  allow_low_reuse_fallback : Bool := false
  context : PlanningContext := {}
  iterate : List PageCandidate → List PageCandidate := id
  iterate_perm : ∀ candidates, (iterate candidates).Perm candidates := by exact fun _ => .refl _

/-- One more page was skipped for this reason. -/
def PlanStats.skip (stats : PlanStats) : SkipReason → PlanStats
  | .cached => { stats with skip_cached := stats.skip_cached + 1 }
  | .pending => { stats with skip_pending := stats.skip_pending + 1 }
  | .materialized => { stats with skip_materialized := stats.skip_materialized + 1 }
  | .seen_before => { stats with skip_seen_before := stats.skip_seen_before + 1 }
  | .low_page_reuse => { stats with skip_low_page_reuse := stats.skip_low_page_reuse + 1 }
  | .score_threshold => { stats with skip_score_threshold := stats.skip_score_threshold + 1 }
  | .budget_full => { stats with skip_budget_full := stats.skip_budget_full + 1 }
  | .inflight_full => { stats with skip_inflight_full := stats.skip_inflight_full + 1 }

/-- The sum of the `skip_*` counters. -/
def PlanStats.skipped (stats : PlanStats) : ℕ :=
  stats.skip_seen_before + stats.skip_cached + stats.skip_pending + stats.skip_materialized +
    stats.skip_budget_full + stats.skip_low_page_reuse + stats.skip_score_threshold +
    stats.skip_inflight_full

def finiteOrNegativeInfinity : Double → WithBot ℚ
  | .finite value => value
  | _ => ⊥

/-- `score < threshold`; nothing is less than what is not a number. -/
def isBelow (score : WithBot ℚ) : Double → Bool
  | .finite threshold => score < (threshold : WithBot ℚ)
  | .posInf => true
  | .nan | .negInf => false

/-- The order that candidates are sorted by. -/
def comesBefore (lhs rhs : PrefetchFeature) : Prop :=
  if lhs.score ≠ rhs.score then rhs.score < lhs.score
  else if lhs.num_candidates_on_page ≠ rhs.num_candidates_on_page then
    rhs.num_candidates_on_page < lhs.num_candidates_on_page
  else if lhs.min_pq_rank_on_page ≠ rhs.min_pq_rank_on_page then
    lhs.min_pq_rank_on_page < rhs.min_pq_rank_on_page
  else lhs.page_id < rhs.page_id

/-- The same order as a rank. -/
def rankKey (feature : PrefetchFeature) : (WithBot ℚ)ᵒᵈ ×ₗ ℕᵒᵈ ×ₗ ℕ ×ₗ ℕ :=
  toLex (.toDual feature.score, toLex (.toDual feature.num_candidates_on_page,
    toLex (feature.min_pq_rank_on_page, feature.page_id)))

theorem comesBefore_iff {lhs rhs : PrefetchFeature} :
    comesBefore lhs rhs ↔ rankKey lhs < rankKey rhs := by
  rw [comesBefore, rankKey, rankKey]
  simp only [Prod.Lex.toLex_lt_toLex, OrderDual.toDual_lt_toDual, OrderDual.toDual_inj]
  split_ifs with hscore hcount hrank
  · simp [hscore]
  · have hscore := not_not.mp hscore
    simp [hscore, hcount]
  · have hscore := not_not.mp hscore
    have hcount := not_not.mp hcount
    simp [hscore, hcount, hrank]
  · have hscore := not_not.mp hscore
    have hcount := not_not.mp hcount
    have hrank := not_not.mp hrank
    simp [hscore, hcount, hrank]

/-! ### What is collected of a page -/

structure Aggregate where
  feature : PrefetchFeature
  rank_sum : ℕ := 0
  last_rank : ℕ := 0
  eligible : Bool := true

def topCandidateCutoff : ℕ := 4

/-- One more candidate on the page. -/
def Aggregate.touch (aggregate : Aggregate) (rank : ℕ) : Aggregate :=
  { aggregate with
    rank_sum := aggregate.rank_sum + rank
    last_rank := max aggregate.last_rank rank
    feature :=
      { aggregate.feature with
        num_candidates_on_page := aggregate.feature.num_candidates_on_page + 1
        min_pq_rank_on_page := min aggregate.feature.min_pq_rank_on_page rank
        contains_top1_candidate := aggregate.feature.contains_top1_candidate || rank == 0
        contains_topk_candidate :=
          aggregate.feature.contains_topk_candidate || decide (rank < topCandidateCutoff) } }

def Aggregate.toCandidate (aggregate : Aggregate) : PageCandidate where
  feature :=
    { aggregate.feature with
      avg_pq_rank_on_page :=
        if 0 < aggregate.feature.num_candidates_on_page then
          .finite (aggregate.rank_sum / aggregate.feature.num_candidates_on_page)
        else aggregate.feature.avg_pq_rank_on_page
      candidate_rank_span := aggregate.last_rank - aggregate.feature.min_pq_rank_on_page }
  eligible := aggregate.eligible

/-- The variables of the loop over the ranked pages. -/
structure Aggregation where
  stats : PlanStats := {}
  aggregates : List Aggregate := []

/-- The variables of the loop over the ranked candidates. -/
structure Throttle where
  pages : List ℕ := []
  candidates : List PrefetchFeature := []
  stats : PlanStats
  seen_pages : Finset ℕ

def PrefetchFeature.atRank (feature : PrefetchFeature) (rank : ℕ) : PrefetchFeature :=
  { feature with rank }

def PrefetchFeature.skipFor (feature : PrefetchFeature) (reason : SkipReason) : PrefetchFeature :=
  { feature with skip_reason := some reason }

def PrefetchFeature.select (feature : PrefetchFeature) : PrefetchFeature :=
  { feature with selected := true }

/-- The fallback selects a page that was skipped. -/
def PrefetchFeature.reconsider (feature : PrefetchFeature) : PrefetchFeature :=
  { feature with skip_reason := none, selected := true }

namespace Throttle

def push (loop : Throttle) (feature : PrefetchFeature) : Throttle :=
  { loop with candidates := loop.candidates ++ [feature] }

def skip (loop : Throttle) (feature : PrefetchFeature) (reason : SkipReason) : Throttle :=
  { loop with
    candidates := loop.candidates ++ [feature.skipFor reason]
    stats := loop.stats.skip reason }

def select (loop : Throttle) (feature : PrefetchFeature) : Throttle :=
  { loop with
    pages := loop.pages ++ [feature.page_id]
    candidates := loop.candidates ++ [feature.select]
    seen_pages := insert feature.page_id loop.seen_pages }

/-- The fallback stops at the limit on pages in flight. -/
def block (loop : Throttle) : Throttle := { loop with stats := loop.stats.skip .inflight_full }

/-- The fallback selects `feature`, which stands between `passed` and `features`. -/
def reconsider (loop : Throttle) (passed : List PrefetchFeature) (feature : PrefetchFeature)
    (features : List PrefetchFeature) : Throttle where
  pages := loop.pages ++ [feature.page_id]
  candidates := passed ++ feature.reconsider :: features
  stats := { loop.stats with skip_low_page_reuse := loop.stats.skip_low_page_reuse - 1 }
  seen_pages := insert feature.page_id loop.seen_pages

end Throttle

end PrefetchPlanner

open PrefetchPlanner

structure PrefetchPlanner where
  config : PrefetchPlanner.Config
  /-- `none` when scoring does not end. -/
  score_candidate : PrefetchPlanner.PrefetchFeature → Option (Except String Double)
  seen_pages : Finset ℕ := ∅

namespace PrefetchPlanner

/-- The model that the configuration names; `file` is what the path leads to. -/
def configuredModel (doubles : Doubles) (config : Config) (file : Option Text) :
    Except String (ℚ × List XGBoostTree) :=
  if config.policy = "xgboost" ∧ config.model_path ≠ "" then
    match file with
    | none => .error ("Cannot open prefetch model: " ++ config.model_path)
    | some text => loadXgboostModel doubles.stod config.model_path text
  else .ok (0, [])

def construct (doubles : Doubles) (config : Config) (file : Option Text) :
    Except String PrefetchPlanner := do
  let model ← configuredModel doubles config file
  return {
    config
    score_candidate := scoreXgboostModel doubles ((model.2.map List.length).sum + 1) model }

/-- A constructed planner scores a page as its model does, whatever number of steps that takes. -/
theorem score_of_construct {doubles : Doubles} {config : Config} {file : Option Text}
    {planner : PrefetchPlanner} (h : construct doubles config file = .ok planner) :
    ∃ model, configuredModel doubles config file = .ok model ∧ ∀ steps feature result,
      scoreXgboostModel doubles steps model feature = some result →
        planner.score_candidate feature = some result := by
  rw [construct, except_bind_eq_ok] at h
  obtain ⟨model, hmodel, h⟩ := h
  cases h
  refine ⟨model, hmodel, fun steps feature result hresult => ?_⟩
  exact scoreTrees_enough hresult fun tree htree =>
    Nat.lt_succ_of_le (List.le_sum_of_mem (List.mem_map_of_mem htree))

variable (planner : PrefetchPlanner) (request : Request)

def topK : ℕ :=
  if planner.config.prefetch_top_k = 0 then planner.config.prefetch_width
  else planner.config.prefetch_top_k

/-- How many pages a plan may have. -/
def limit : ℕ := if request.max_pages = 0 then planner.topK else request.max_pages

def minReuse : ℕ :=
  if request.context.min_candidates_per_page = 0 then max 1 planner.config.min_candidates_per_page
  else max 1 request.context.min_candidates_per_page

/-- 0 is no limit. -/
def inflightLimit : ℕ :=
  if request.context.max_prefetch_inflight = 0 then planner.config.max_prefetch_inflight
  else if planner.config.max_prefetch_inflight = 0 then request.context.max_prefetch_inflight
  else min request.context.max_prefetch_inflight planner.config.max_prefetch_inflight

/-- Why a page is not considered at all. -/
def rejection (page_id : ℕ) : Option SkipReason :=
  let state := request.availability page_id
  if state.cached || state.pending || state.ready || state.materialized then
    if state.cached then some .cached
    else if state.pending then some .pending
    else some .materialized
  else if page_id ∈ planner.seen_pages then some .seen_before
  else none

/-- The entry of a page when it is inserted. -/
def newAggregate (page_id rank : ℕ) : Aggregate where
  feature :=
    { page_id
      min_pq_rank_on_page := rank
      search_step := request.context.search_step
      visited_count := request.context.visited_count
      frontier_size := request.context.frontier_size
      result_size := request.context.result_size
      current_candidate_distance := request.context.current_candidate_distance
      worst_result_distance := request.context.worst_result_distance
      ef_search := request.context.ef_search
      beam_width := request.context.beam_width
      io_queue_depth := request.context.io_queue_depth
      max_prefetch_inflight :=
        if request.context.max_prefetch_inflight = 0 then planner.config.max_prefetch_inflight
        else request.context.max_prefetch_inflight
      cache_pressure := request.context.cache_pressure
      is_cached := (request.availability page_id).cached
      is_inflight := (request.availability page_id).pending
      is_ready := (request.availability page_id).ready
      is_materialized := (request.availability page_id).materialized
      skip_reason := planner.rejection request page_id }
  last_rank := rank
  eligible := (planner.rejection request page_id).isNone

/-- One iteration of the loop over the ranked pages. -/
def addPage (loop : Aggregation) (entry : ℕ × ℕ) : Aggregation :=
  let (page_id, rank) := entry
  let stats :=
    { loop.stats with
      page_requests_before_dedup := loop.stats.page_requests_before_dedup + 1
      dedup_requests := loop.stats.dedup_requests + 1 }
  if page_id ∈ loop.aggregates.map (·.feature.page_id) then
    { stats
      aggregates := loop.aggregates.map fun aggregate =>
        if aggregate.feature.page_id = page_id then aggregate.touch rank else aggregate }
  else
    { stats :=
        match planner.rejection request page_id with
        | none => stats
        | some reason => { stats with dedup_hits := stats.dedup_hits + 1 }.skip reason
      aggregates := loop.aggregates ++ [(planner.newAggregate request page_id rank).touch rank] }

def collect : Aggregation := request.page_ids.zipIdx.foldl (planner.addPage request) {}

/-! ### Scores, limits and the fallback -/

/-- The candidates with their scores, or the first failure to score one. -/
def scoreAll : List PageCandidate → Option (Except String (List PageCandidate))
  | [] => some (.ok [])
  | candidate :: candidates =>
    match planner.score_candidate candidate.feature with
    | none => none
    | some (.error message) => some (.error message)
    | some (.ok score) =>
      match scoreAll candidates with
      | some (.ok scored) =>
        some (.ok ({ candidate with
          feature := { candidate.feature with score := finiteOrNegativeInfinity score } } :: scored))
      | failed => failed

/-- `std::sort`; different pages have different ranks. -/
def sortCandidates (candidates : List PageCandidate) : List PageCandidate :=
  TopK.sortBy (fun candidate => rankKey candidate.feature) candidates

/-- One iteration of the loop over the ranked candidates. -/
def throttleStep (loop : Throttle) (entry : PageCandidate × ℕ) : Throttle :=
  let (candidate, i) := entry
  let feature := candidate.feature.atRank (i + 1)
  if candidate.eligible = false then loop.push feature
  else if feature.num_candidates_on_page < planner.minReuse request then
    loop.skip feature .low_page_reuse
  else if isBelow feature.score planner.config.score_threshold then
    loop.skip feature .score_threshold
  else if planner.limit request ≤ loop.pages.length then loop.skip feature .budget_full
  else if planner.inflightLimit request ≠ 0 ∧
      planner.inflightLimit request ≤ request.context.io_queue_depth + loop.pages.length then
    loop.skip feature .inflight_full
  else loop.select feature

/-- The loop over the candidates again, `passed` being those before. -/
def fallback (loop : Throttle) (passed : List PrefetchFeature) : List PrefetchFeature → Throttle
  | [] => loop
  | feature :: features =>
    if feature.skip_reason ≠ some .low_page_reuse ∨
        isBelow feature.score planner.config.score_threshold then
      fallback loop (passed ++ [feature]) features
    else if planner.inflightLimit request ≠ 0 ∧
        planner.inflightLimit request ≤ request.context.io_queue_depth then
      loop.block
    else loop.reconsider passed feature features

def throttleLoop (stats : PlanStats) (ranked : List PageCandidate) : Throttle :=
  ranked.zipIdx.foldl (planner.throttleStep request) { stats, seen_pages := planner.seen_pages }

/-- The loop over the ranked candidates, and the fallback when it selects none. -/
def throttle (stats : PlanStats) (ranked : List PageCandidate) : Throttle :=
  let loop := planner.throttleLoop request stats ranked
  if loop.pages = [] ∧ request.allow_low_reuse_fallback = true then
    planner.fallback request loop [] loop.candidates
  else loop

/-- The plan, and the planner with the pages it has seen now. -/
def rankAndThrottle (stats : PlanStats) (candidates : List PageCandidate) :
    Option (Except String (Plan × PrefetchPlanner)) :=
  if candidates = [] then some (.ok ({ stats }, planner))
  else
    match planner.scoreAll candidates with
    | none => none
    | some (.error message) => some (.error message)
    | some (.ok scored) =>
      let loop := planner.throttle request stats (sortCandidates scored)
      some (.ok ({ pages := loop.pages, candidates := loop.candidates, stats := loop.stats },
        { planner with seen_pages := loop.seen_pages }))

def planCoalescedCandidates : Option (Except String (Plan × PrefetchPlanner)) :=
  let loop := planner.collect request
  planner.rankAndThrottle request loop.stats
    (request.iterate (loop.aggregates.map Aggregate.toCandidate))

/-- `none` when scoring a page does not end. -/
def planCandidates : Option (Except String (Plan × PrefetchPlanner)) :=
  if planner.limit request = 0 ∨ planner.config.prefetch_depth = 0 then some (.ok ({}, planner))
  else planner.planCoalescedCandidates request

def planFrontier : Option (Except String (Plan × PrefetchPlanner)) :=
  if planner.config.policy ≠ "xgboost" ∨ planner.topK = 0 ∨ planner.config.prefetch_depth = 0 then
    some (.ok ({}, planner))
  else planner.planCandidates { request with max_pages := 0, allow_low_reuse_fallback := true }

/-- A sequence of calls. One that throws leaves the planner as it was. -/
def planAll (planner : PrefetchPlanner) :
    List Request → Option (List (Except String Plan) × PrefetchPlanner)
  | [] => some ([], planner)
  | request :: requests =>
    match planner.planCandidates request with
    | none => none
    | some (.error message) =>
      (planAll planner requests).map fun (plans, last) => (.error message :: plans, last)
    | some (.ok (plan, next)) =>
      (planAll next requests).map fun (plans, last) => (.ok plan :: plans, last)

end PrefetchPlanner

end Prefetch
