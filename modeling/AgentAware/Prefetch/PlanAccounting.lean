import AgentAware.Prefetch.PlanSelection

/-!
# The skip counters of a plan

Every distinct page is selected or counted as skipped once, and the fallback takes the page it selects
out of its counter. When the limit on pages in flight stops the fallback, it counts a page that the
loop has counted already.

## Main definitions

- `PrefetchPlanner.Counted` — the invariant of the counters
- `PrefetchPlanner.FallbackBlocked` — the limit stops the fallback

## Main results

- `PrefetchPlanner.counted_loop` — the counters after the loop over the ranked pages
- `PrefetchPlanner.fallback_counts_twice` — a plan for one page that accounts for two
- `PrefetchPlanner.planCandidates_accounts_iff` — when a plan accounts for every page once
-/

namespace Prefetch

namespace PrefetchPlanner

variable (planner : PrefetchPlanner) (request : Request)

/-- The counters after the pages `done`, which started from `stats`. -/
structure Counted (stats : PlanStats) (done : List ℕ) (loop : Throttle) : Prop where
  skipped : loop.stats.skipped + loop.pages.length =
    stats.skipped + done.countP fun page => (planner.rejection request page).isNone
  low : loop.stats.skip_low_page_reuse =
    loop.candidates.countP fun feature => feature.skip_reason = some .low_page_reuse

/-- The fallback is allowed and would take a page, but the limit on pages in flight is reached. -/
structure FallbackBlocked : Prop where
  allowed : request.allow_low_reuse_fallback = true
  blocked : planner.Blocked request
  reconsidered : ∃ page ∈ request.page_ids, planner.rejection request page = none ∧
    request.page_ids.count page < planner.minReuse request ∧
    isBelow (planner.pageScore request page) planner.config.score_threshold = false

variable {planner request} {loop : Throttle} {page : ℕ} {done ranked : List ℕ} {stats : PlanStats}

theorem skip_low (stats : PlanStats) (reason : SkipReason) :
    (stats.skip reason).skip_low_page_reuse =
      stats.skip_low_page_reuse + if reason = .low_page_reuse then 1 else 0 := by
  cases reason <;> rfl

theorem counted_step (h : planner.Counted request stats done loop) (page i : ℕ) :
    planner.Counted request stats (done ++ [page])
      (planner.throttleStep request loop (planner.rankedPage request page, i)) := by
  obtain ⟨hskipped, hlow⟩ := h
  have hreason : (planner.rankedPage request page).feature.skip_reason =
      planner.rejection request page := rankedPage_skip_reason
  have hmark : ((planner.rankedPage request page).feature.atRank (i + 1)).skip_reason ≠
      some .low_page_reuse := fun heq => rejection_ne_low (hreason.symm.trans heq)
  obtain ⟨hrejection, heq⟩ | ⟨reason, hrejection, -, heq⟩ | ⟨hrejection, -, -, -, -, heq⟩ :=
    @throttleStep_cases planner request loop page i
  · rw [heq, Throttle.push]
    constructor
    · rw [List.countP_append, List.countP_singleton, if_neg (by simpa using hrejection)]
      exact hskipped
    · rw [List.countP_append, List.countP_singleton, if_neg (by simpa using hmark)]
      exact hlow
  · rw [heq, Throttle.skip]
    constructor
    · show (loop.stats.skip reason).skipped + loop.pages.length = _
      rw [List.countP_append, List.countP_singleton, if_pos (by simp [hrejection]), skipped_skip]
      omega
    · rw [List.countP_append, List.countP_singleton, skip_low, hlow]
      simp [PrefetchFeature.skipFor]
  · rw [heq, Throttle.select]
    constructor
    · show loop.stats.skipped + (loop.pages ++ [_]).length = _
      rw [List.countP_append, List.countP_singleton, if_pos (by simp [hrejection]),
        List.length_append, List.length_singleton]
      omega
    · have hselect : ((planner.rankedPage request page).feature.atRank
          (i + 1)).select.skip_reason ≠ some .low_page_reuse := hmark
      rw [List.countP_append, List.countP_singleton, if_neg (by simpa using hselect)]
      exact hlow

theorem counted_loop (hlow : stats.skip_low_page_reuse = 0) (ranked : List ℕ) :
    planner.Counted request stats ranked
      (planner.throttleLoop request stats (ranked.map (planner.rankedPage request))) :=
  @throttleLoop_invariant planner request stats (planner.Counted request stats)
    (fun _ _ page i h => counted_step h page i) ⟨rfl, hlow⟩ ranked

/-- A ranked page is taken by the fallback when it was skipped for few candidates. -/
theorem exists_reconsidered_iff (h : planner.Throttled request ranked loop)
    (hmarks : planner.MarksLowReuse request loop.candidates)
    (hmem : ∀ page, page ∈ ranked ↔ page ∈ request.page_ids) :
    (∃ feature ∈ loop.candidates, planner.Reconsidered feature) ↔
      ∃ page ∈ request.page_ids, planner.rejection request page = none ∧
        request.page_ids.count page < planner.minReuse request ∧
        isBelow (planner.pageScore request page) planner.config.score_threshold = false := by
  have hscore : ∀ feature ∈ loop.candidates,
      feature.score = planner.pageScore request feature.page_id := fun feature hfeature =>
    congrArg PrefetchFeature.score (h.of_mem hfeature).2
  constructor
  · rintro ⟨feature, hfeature, hreason, hbelow⟩
    obtain ⟨hrejection, hreuse⟩ := (hmarks feature hfeature).mp hreason
    rw [hscore feature hfeature] at hbelow
    exact ⟨feature.page_id, (hmem _).mp (h.of_mem hfeature).1, hrejection, hreuse, hbelow⟩
  · rintro ⟨page, hpage, hrejection, hreuse, hbelow⟩
    have hin : page ∈ loop.candidates.map (·.page_id) := by
      rw [h.page_ids]
      exact (hmem page).mpr hpage
    obtain ⟨feature, hfeature, rfl⟩ := List.mem_map.mp hin
    refine ⟨feature, hfeature, (hmarks feature hfeature).mpr ⟨hrejection, hreuse⟩, ?_⟩
    rw [hscore feature hfeature]
    exact hbelow

theorem skipped_reconsider {before after : List PrefetchFeature} {feature : PrefetchFeature}
    (hlow : 0 < loop.stats.skip_low_page_reuse) :
    (loop.reconsider before feature after).stats.skipped + 1 = loop.stats.skipped := by
  simp only [Throttle.reconsider, PlanStats.skipped]
  omega

/-- The loop and the fallback account for every ranked page once, unless the limit stops the
fallback. -/
theorem throttle_accounts_iff (hranking : planner.Ranking request ranked stats) :
    (ranked.length =
        (planner.throttle request stats (ranked.map (planner.rankedPage request))).pages.length +
        (planner.throttle request stats (ranked.map (planner.rankedPage request))).stats.skipped) ↔
      ¬planner.FallbackBlocked request := by
  have hloop := @throttled_loop planner request stats ranked
  have hmarks := @marksLowReuse_loop planner request stats ranked
  obtain ⟨hskipped, hlow⟩ := @counted_loop planner request stats hranking.low ranked
  have hiff := exists_reconsidered_iff hloop hmarks hranking.mem_iff
  rw [throttle]
  generalize planner.throttleLoop request stats (ranked.map (planner.rankedPage request)) = loop
    at *
  have htotal : ranked.length = loop.pages.length + loop.stats.skipped := by
    have hsplit := @List.length_eq_countP_add_countP _
      (fun page => (planner.rejection request page).isSome) ranked
    have hnone : ranked.countP (fun page => decide ¬(planner.rejection request page).isSome = true) =
        ranked.countP fun page => (planner.rejection request page).isNone :=
      List.countP_congr fun page _ => by simp
    rw [hnone, ← hranking.skipped, ← hskipped] at hsplit
    omega
  split_ifs with hfallback
  · obtain ⟨hnone, heq⟩ | ⟨hsome, hblocked, heq⟩ | ⟨hfree, before, feature, after, hsplit, hre, heq⟩ :=
      @fallback_cases planner request loop [] loop.candidates
    · rw [heq]
      refine iff_of_true htotal fun h => ?_
      obtain ⟨feature, hfeature, hre⟩ := hiff.mpr h.reconsidered
      exact hnone feature hfeature hre
    -- The limit stops the fallback: the page it met is counted a second time.
    · rw [heq]
      refine iff_of_false ?_ (not_not.mpr ⟨hfallback.2, hblocked, hiff.mp hsome⟩)
      show ¬ranked.length = loop.pages.length + (loop.stats.skip .inflight_full).skipped
      rw [skipped_skip]
      omega
    · rw [heq]
      refine iff_of_true ?_ fun h => hfree h.blocked
      have hpositive : 0 < loop.stats.skip_low_page_reuse := by
        rw [hlow, List.countP_pos_iff]
        exact ⟨feature, by rw [hsplit]; simp, by simpa using hre.1⟩
      have hless := @skipped_reconsider loop ([] ++ before) after feature hpositive
      have hpages : (loop.reconsider ([] ++ before) feature after).pages.length =
          loop.pages.length + 1 := List.length_append
      omega
  -- A plan with pages has room in flight, so the fallback could not have been blocked.
  · refine iff_of_true htotal fun h => ?_
    have hpages : loop.pages ≠ [] := fun hnil => hfallback ⟨hnil, h.allowed⟩
    have hpositive := List.length_pos_of_ne_nil hpages
    have hle := hloop.inflight h.blocked.1 hpages
    have hge := h.blocked.2
    omega

/-- A page with one candidate, where two are wanted, and no room in flight. -/
def tightConfig : Config := { prefetch_width := 1, max_prefetch_inflight := 1 }

/-- The page is counted once for its few candidates and once for the limit. -/
theorem fallback_counts_twice : ∃ planner plan next,
    construct .exact tightConfig none = .ok planner ∧
    planner.planCandidates {
        page_ids := [7]
        allow_low_reuse_fallback := true
        context := { io_queue_depth := 1 } } = some (.ok (plan, next)) ∧
      plan.pages = [] ∧ plan.stats.skip_low_page_reuse = 1 ∧ plan.stats.skip_inflight_full = 1 ∧
      plan.pages.length + plan.stats.skipped = 2 := by
  refine ⟨_, _, _, rfl, by with_unfolding_all rfl, ?_⟩
  with_unfolding_all exact ⟨rfl, rfl, rfl, rfl⟩

/-- A plan accounts for every distinct page of its input once exactly when the limit on pages in
flight does not stop the fallback. -/
theorem planCandidates_accounts_iff (planner : PrefetchPlanner) (request : Request)
    (hlimit : planner.limit request ≠ 0) (hdepth : planner.config.prefetch_depth ≠ 0) :
    planner.PlansOrFails request fun plan _ =>
      (request.page_ids.toFinset.card = plan.pages.length + plan.stats.skipped ↔
        ¬planner.FallbackBlocked request) := by
  refine (plansOrFails_ranked hlimit hdepth).imp fun plan next hplan => ?_
  obtain ⟨ranked, stats, loop, hranking, rfl, rfl, -⟩ := hplan
  have hcard : request.page_ids.toFinset.card = ranked.length := by
    rw [← List.toFinset_card_of_nodup hranking.nodup]
    refine congrArg Finset.card (Finset.ext fun page => ?_)
    rw [List.mem_toFinset, List.mem_toFinset, hranking.mem_iff]
  rw [hcard]
  exact throttle_accounts_iff hranking

/-- Two pages with one candidate each and room in flight: the fallback takes the first. -/
def roomyRequest : Request := { page_ids := [7, 9], allow_low_reuse_fallback := true }

theorem planCandidates_accounts_iff_tight : ∃ planner plan next,
    construct .exact tightConfig none = .ok planner ∧
      planner.planCandidates roomyRequest = some (.ok (plan, next)) ∧ plan.pages = [7] ∧
      plan.stats.skip_low_page_reuse = 1 ∧
      roomyRequest.page_ids.toFinset.card = plan.pages.length + plan.stats.skipped := by
  obtain ⟨planner, hplanner⟩ : ∃ planner, construct .exact tightConfig none = .ok planner := ⟨_, rfl⟩
  obtain ⟨plan, next, hplan, hpages, hlow⟩ : ∃ plan next,
      planner.planCandidates roomyRequest = some (.ok (plan, next)) ∧ plan.pages = [7] ∧
        plan.stats.skip_low_page_reuse = 1 := by
    cases hplanner
    exact ⟨_, _, by with_unfolding_all rfl, by with_unfolding_all rfl, by with_unfolding_all rfl⟩
  have hroom : ¬planner.FallbackBlocked roomyRequest := by
    cases hplanner
    exact fun h => absurd h.blocked.2 (by decide)
  have haccounts := planCandidates_accounts_iff planner roomyRequest
    (by cases hplanner; decide) (by cases hplanner; decide)
  rw [PlansOrFails, hplan] at haccounts
  exact ⟨planner, plan, next, hplanner, hplan, hpages, hlow, haccounts.mpr hroom⟩

end PrefetchPlanner

end Prefetch
