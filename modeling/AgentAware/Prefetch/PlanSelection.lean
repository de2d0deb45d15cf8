import AgentAware.Prefetch.PlanRanking

/-!
# The pages a plan selects

The loop over the ranked pages writes every one of them to the plan and selects those that pass all
checks; the fallback selects one more when there is none. An invariant of both says what holds of the
selected pages.

## Main definitions

- `PrefetchPlanner.Throttled` — the invariant of the loop and the fallback
- `PrefetchPlanner.PlanCorrect` — what holds of a plan

## Main results

- `PrefetchPlanner.throttleStep_cases`, `PrefetchPlanner.fallback_cases` — what one iteration does
- `PrefetchPlanner.throttled_throttle` — the invariant holds at the end
- `PrefetchPlanner.planAll_seen` — the planner remembers what its plans selected
- `PrefetchPlanner.planCandidates_correct` — every plan is correct, after any sequence of plans
-/

namespace Prefetch

namespace PrefetchPlanner

variable (planner : PrefetchPlanner) (request : Request)

/-- A feature without what the loop over the ranked candidates writes. -/
def PrefetchFeature.core (feature : PrefetchFeature) : PrefetchFeature :=
  { feature with rank := 0, selected := false, skip_reason := none }

@[simp] theorem PrefetchFeature.core_atRank (feature : PrefetchFeature) (rank : ℕ) :
    (feature.atRank rank).core = feature.core := rfl

@[simp] theorem PrefetchFeature.core_skipFor (feature : PrefetchFeature) (reason : SkipReason) :
    (feature.skipFor reason).core = feature.core := rfl

@[simp] theorem PrefetchFeature.core_select (feature : PrefetchFeature) :
    feature.select.core = feature.core := rfl

@[simp] theorem PrefetchFeature.core_reconsider (feature : PrefetchFeature) :
    feature.reconsider.core = feature.core := rfl

/-- The limit on pages in flight is reached before the first page is selected. -/
def Blocked : Prop :=
  planner.inflightLimit request ≠ 0 ∧
    planner.inflightLimit request ≤ request.context.io_queue_depth

/-- The fallback takes the candidate. -/
def Reconsidered (feature : PrefetchFeature) : Prop :=
  feature.skip_reason = some .low_page_reuse ∧
    isBelow feature.score planner.config.score_threshold = false

/-- What holds after the pages `done`. -/
structure Throttled (done : List ℕ) (loop : Throttle) : Prop where
  core : loop.candidates.map PrefetchFeature.core =
    done.map fun page => (planner.rankedPage request page).feature.core
  selected : ∀ feature ∈ loop.candidates, feature.selected = true →
    planner.rejection request feature.page_id = none ∧
      isBelow feature.score planner.config.score_threshold = false
  pages : loop.pages = (loop.candidates.filter (·.selected)).map (·.page_id)
  within_limit : loop.pages.length ≤ planner.limit request
  /-- So the sum in the check never overflows. -/
  inflight : planner.inflightLimit request ≠ 0 → loop.pages ≠ [] →
    request.context.io_queue_depth + loop.pages.length ≤ planner.inflightLimit request
  seen : loop.seen_pages = planner.seen_pages ∪ loop.pages.toFinset

variable {planner request} {loop : Throttle} {page i : ℕ} {done : List ℕ} {stats : PlanStats}

/-- The three things that can happen to a page. -/
theorem throttleStep_cases (loop : Throttle) (page i : ℕ) :
    let feature := (planner.rankedPage request page).feature.atRank (i + 1)
    let next := planner.throttleStep request loop (planner.rankedPage request page, i)
    (planner.rejection request page ≠ none ∧ next = loop.push feature) ∨
    (∃ reason, planner.rejection request page = none ∧
      (reason = SkipReason.low_page_reuse ↔
        request.page_ids.count page < planner.minReuse request) ∧
      next = loop.skip feature reason) ∨
    (planner.rejection request page = none ∧
      planner.minReuse request ≤ request.page_ids.count page ∧
      isBelow feature.score planner.config.score_threshold = false ∧
      loop.pages.length < planner.limit request ∧
      (planner.inflightLimit request ≠ 0 →
        request.context.io_queue_depth + loop.pages.length < planner.inflightLimit request) ∧
      next = loop.select feature) := by
  intro feature next
  have hnext : next = planner.throttleStep request loop (planner.rankedPage request page, i) := rfl
  have hcount : feature.num_candidates_on_page = request.page_ids.count page := rankedPage_count
  rw [throttleStep] at hnext
  simp only [rankedPage_eligible] at hnext
  cases hrejection : planner.rejection request page with
  | some reason =>
    rw [hrejection, Option.isNone_some, if_pos rfl] at hnext
    exact Or.inl ⟨Option.some_ne_none reason, hnext⟩
  | none =>
    refine Or.inr ?_
    rw [hrejection, Option.isNone_none, if_neg (Bool.noConfusion)] at hnext
    have hother : ∀ {reason}, reason ≠ SkipReason.low_page_reuse →
        ¬feature.num_candidates_on_page < planner.minReuse request →
        (reason = SkipReason.low_page_reuse ↔
          request.page_ids.count page < planner.minReuse request) :=
      fun hne hreuse => ⟨fun h => absurd h hne, fun h => absurd (hcount ▸ h) hreuse⟩
    split_ifs at hnext with hreuse hbelow hbudget hinflight
    · exact Or.inl ⟨.low_page_reuse, rfl, ⟨fun _ => hcount ▸ hreuse, fun _ => rfl⟩, hnext⟩
    · exact Or.inl ⟨.score_threshold, rfl, hother nofun hreuse, hnext⟩
    · exact Or.inl ⟨.budget_full, rfl, hother nofun hreuse, hnext⟩
    · exact Or.inl ⟨.inflight_full, rfl, hother nofun hreuse, hnext⟩
    · refine Or.inr ⟨rfl, ?_, Bool.eq_false_iff.mpr hbelow, Nat.not_le.mp hbudget,
        fun hne => Nat.not_le.mp fun hle => hinflight ⟨hne, hle⟩, hnext⟩
      rw [← hcount]
      exact Nat.not_lt.mp hreuse

/-- What the fallback does: nothing, or it meets the limit, or it selects one candidate. -/
theorem fallback_cases (loop : Throttle) (passed features : List PrefetchFeature) :
    ((∀ feature ∈ features, ¬planner.Reconsidered feature) ∧
      planner.fallback request loop passed features = loop) ∨
    ((∃ feature ∈ features, planner.Reconsidered feature) ∧ planner.Blocked request ∧
      planner.fallback request loop passed features = loop.block) ∨
    (¬planner.Blocked request ∧ ∃ before feature after,
      features = before ++ feature :: after ∧ planner.Reconsidered feature ∧
      planner.fallback request loop passed features =
        loop.reconsider (passed ++ before) feature after) := by
  induction features generalizing passed with
  | nil => exact Or.inl ⟨fun _ h => absurd h List.not_mem_nil, rfl⟩
  | cons feature features ih =>
    rw [fallback]
    by_cases htaken : planner.Reconsidered feature
    · have hkeep : ¬(feature.skip_reason ≠ some .low_page_reuse ∨
          isBelow feature.score planner.config.score_threshold = true) := by
        rintro (h | h)
        · exact h htaken.1
        · rw [htaken.2] at h
          cases h
      rw [if_neg hkeep]
      split_ifs with hblocked
      · exact Or.inr (Or.inl ⟨⟨feature, List.mem_cons_self, htaken⟩, hblocked, rfl⟩)
      · refine Or.inr (Or.inr ⟨hblocked, [], feature, features, rfl, htaken, ?_⟩)
        rw [List.append_nil]
    · have hpass : feature.skip_reason ≠ some .low_page_reuse ∨
          isBelow feature.score planner.config.score_threshold = true := by
        by_contra h
        obtain ⟨hlow, hbelow⟩ := not_or.mp h
        exact htaken ⟨not_not.mp hlow, Bool.eq_false_iff.mpr hbelow⟩
      rw [if_pos hpass]
      obtain ⟨hnone, heq⟩ | ⟨⟨other, hother, hre⟩, hblocked, heq⟩ |
        ⟨hfree, before, other, after, rfl, hre, heq⟩ := ih (passed ++ [feature])
      · exact Or.inl ⟨List.forall_mem_cons.mpr ⟨htaken, hnone⟩, heq⟩
      · exact Or.inr (Or.inl ⟨⟨other, List.mem_cons_of_mem _ hother, hre⟩, hblocked, heq⟩)
      · refine Or.inr (Or.inr ⟨hfree, feature :: before, other, after, rfl, hre, ?_⟩)
        rw [heq, List.append_assoc passed]
        rfl

/-! ### The loop over the ranked pages -/

/-- What one iteration keeps, the loop keeps. -/
theorem foldl_throttleStep {P : List ℕ → Throttle → Prop}
    (hstep : ∀ done loop page i, P done loop →
      P (done ++ [page]) (planner.throttleStep request loop (planner.rankedPage request page, i)))
    (hinit : P done loop) (ranked : List ℕ) (start : ℕ) :
    P (done ++ ranked) (((ranked.map (planner.rankedPage request)).zipIdx start).foldl
      (planner.throttleStep request) loop) := by
  induction ranked generalizing done loop start with
  | nil =>
    rw [List.append_nil]
    exact hinit
  | cons page ranked ih =>
    rw [List.map_cons, List.zipIdx_cons, List.foldl_cons]
    have hrest := ih (hstep done loop page start hinit) (start + 1)
    rwa [List.append_assoc, List.singleton_append] at hrest

theorem throttleLoop_invariant {P : List ℕ → Throttle → Prop}
    (hstep : ∀ done loop page i, P done loop →
      P (done ++ [page]) (planner.throttleStep request loop (planner.rankedPage request page, i)))
    (hinit : P [] { stats, seen_pages := planner.seen_pages }) (ranked : List ℕ) :
    P ranked (planner.throttleLoop request stats (ranked.map (planner.rankedPage request))) :=
  foldl_throttleStep hstep hinit ranked 0

theorem Throttled.core_concat (h : planner.Throttled request done loop) {feature : PrefetchFeature}
    (hcore : feature.core = (planner.rankedPage request page).feature.core) :
    (loop.candidates ++ [feature]).map PrefetchFeature.core =
      (done ++ [page]).map fun page => (planner.rankedPage request page).feature.core := by
  rw [List.map_append, List.map_append, h.core, List.map_singleton, List.map_singleton, hcore]

/-- A page that is not selected changes nothing but the candidates. -/
theorem Throttled.unselected (h : planner.Throttled request done loop) {feature : PrefetchFeature}
    (hcore : feature.core = (planner.rankedPage request page).feature.core)
    (hselected : feature.selected = false) (stats : PlanStats) :
    planner.Throttled request (done ++ [page])
      { loop with candidates := loop.candidates ++ [feature], stats } where
  core := h.core_concat hcore
  selected other hother hsel := by
    rcases List.mem_append.mp hother with hother | hother
    · exact h.selected other hother hsel
    · rw [List.mem_singleton.mp hother, hselected] at hsel
      cases hsel
  pages := by
    rw [List.filter_append, List.filter_singleton, hselected, h.pages]
    simp
  within_limit := h.within_limit
  inflight := h.inflight
  seen := h.seen

theorem throttled_step (h : planner.Throttled request done loop) (page i : ℕ) :
    planner.Throttled request (done ++ [page])
      (planner.throttleStep request loop (planner.rankedPage request page, i)) := by
  obtain ⟨-, heq⟩ | ⟨reason, -, -, heq⟩ | ⟨hrejection, -, hbelow, hlimit, hinflight, heq⟩ :=
    @throttleStep_cases planner request loop page i
  -- Rejected or skipped, the page is written to the plan and not selected.
  · have hselected : ((planner.rankedPage request page).feature.atRank (i + 1)).selected = false :=
      rankedPage_selected
    rw [heq]
    exact h.unselected (PrefetchFeature.core_atRank _ _) hselected loop.stats
  · have hselected : (((planner.rankedPage request page).feature.atRank (i + 1)).skipFor
        reason).selected = false := rankedPage_selected
    rw [heq]
    exact h.unselected (by rw [PrefetchFeature.core_skipFor, PrefetchFeature.core_atRank])
      hselected _
  · rw [heq]
    have hlength : (loop.select ((planner.rankedPage request page).feature.atRank
        (i + 1))).pages.length = loop.pages.length + 1 := List.length_append
    refine ⟨h.core_concat (by simp), fun other hother hsel => ?_, ?_, ?_, fun hne _ => ?_, ?_⟩
    · rcases List.mem_append.mp hother with hother | hother
      · exact h.selected other hother hsel
      · rw [List.mem_singleton.mp hother]
        show planner.rejection request (planner.rankedPage request page).feature.page_id = none ∧ _
        rw [rankedPage_page_id]
        exact ⟨hrejection, hbelow⟩
    · show loop.pages ++ [_] = ((loop.candidates ++ [_]).filter _).map _
      rw [List.filter_append, List.map_append, ← h.pages]
      rfl
    · rw [hlength]
      exact hlimit
    · rw [hlength]
      exact hinflight hne
    · show insert _ loop.seen_pages = _ ∪ (loop.pages ++ [_]).toFinset
      rw [List.toFinset_append, ← Finset.union_assoc, ← h.seen, Finset.union_comm]
      rfl

theorem throttled_nil (stats : PlanStats) :
    planner.Throttled request [] { stats, seen_pages := planner.seen_pages } where
  core := rfl
  selected _ h := nomatch h
  pages := rfl
  within_limit := Nat.zero_le _
  inflight _ h := absurd rfl h
  seen := (Finset.union_empty _).symm

variable (planner request) in
/-- The candidates that are marked are the ones considered that have few candidates. -/
def MarksLowReuse (candidates : List PrefetchFeature) : Prop :=
  ∀ feature ∈ candidates, feature.skip_reason = some .low_page_reuse ↔
    planner.rejection request feature.page_id = none ∧
      request.page_ids.count feature.page_id < planner.minReuse request

theorem MarksLowReuse.concat {candidates : List PrefetchFeature} {feature : PrefetchFeature}
    (h : planner.MarksLowReuse request candidates) (hid : feature.page_id = page)
    (hmark : feature.skip_reason = some .low_page_reuse ↔
      planner.rejection request page = none ∧
        request.page_ids.count page < planner.minReuse request) :
    planner.MarksLowReuse request (candidates ++ [feature]) := by
  intro other hother
  rcases List.mem_append.mp hother with hother | hother
  · exact h other hother
  · rw [List.mem_singleton.mp hother, hid]
    exact hmark

theorem marksLowReuse_step (h : planner.MarksLowReuse request loop.candidates) (page i : ℕ) :
    planner.MarksLowReuse request
      (planner.throttleStep request loop (planner.rankedPage request page, i)).candidates := by
  have hid : (planner.rankedPage request page).feature.page_id = page := rankedPage_page_id
  have hreason : (planner.rankedPage request page).feature.skip_reason =
      planner.rejection request page := rankedPage_skip_reason
  obtain ⟨hrejection, heq⟩ | ⟨reason, hrejection, hlow, heq⟩ | ⟨hrejection, hreuse, -, -, -, heq⟩ :=
    @throttleStep_cases planner request loop page i
  · rw [heq]
    refine h.concat hid ⟨fun heq => ?_, fun h => absurd h.1 hrejection⟩
    exact absurd (hreason.symm.trans heq) rejection_ne_low
  · rw [heq]
    refine h.concat hid ?_
    show some reason = _ ↔ _
    rw [Option.some_inj, hlow]
    exact ⟨fun h => ⟨hrejection, h⟩, fun h => h.2⟩
  · rw [heq]
    refine h.concat hid ⟨fun heq => ?_, fun h => absurd h.2 (Nat.not_lt.mpr hreuse)⟩
    exact absurd (hreason.symm.trans heq) rejection_ne_low

theorem marksLowReuse_loop (stats : PlanStats) (ranked : List ℕ) :
    planner.MarksLowReuse request
      (planner.throttleLoop request stats (ranked.map (planner.rankedPage request))).candidates :=
  @throttleLoop_invariant planner request stats
    (fun _ loop => planner.MarksLowReuse request loop.candidates)
    (fun _ _ page i h => marksLowReuse_step h page i) (fun _ h => nomatch h) ranked

/-! ### The fallback -/

theorem filter_selected_of_pages (h : planner.Throttled request done loop) (hnone : loop.pages = []) :
    loop.candidates.filter (·.selected) = [] := by
  rw [h.pages] at hnone
  exact List.map_eq_nil_iff.mp hnone

theorem throttled_reconsider (h : planner.Throttled request done loop) (hnone : loop.pages = [])
    (hmarks : planner.MarksLowReuse request loop.candidates) (hlimit : planner.limit request ≠ 0)
    (hfree : ¬planner.Blocked request) {before after : List PrefetchFeature}
    {feature : PrefetchFeature} (hsplit : loop.candidates = before ++ feature :: after)
    (hre : planner.Reconsidered feature) :
    planner.Throttled request done (loop.reconsider before feature after) := by
  have hfilter := filter_selected_of_pages h hnone
  rw [hsplit, List.filter_append, List.append_eq_nil_iff] at hfilter
  have hmem : feature ∈ loop.candidates := by
    rw [hsplit]
    exact List.mem_append_right _ List.mem_cons_self
  -- No candidate is selected yet, so the one that is taken now is the only one.
  have hafter : after.filter (·.selected) = [] := by
    rw [List.filter_cons] at hfilter
    split at hfilter
    · cases hfilter.2
    · exact hfilter.2
  have hpages : (loop.reconsider before feature after).pages = [feature.page_id] := by
    rw [Throttle.reconsider, hnone]
    rfl
  refine ⟨?_, fun other hother hsel => ?_, ?_, ?_, fun hne _ => ?_, ?_⟩
  · rw [← h.core, hsplit, Throttle.reconsider]
    simp only [List.map_append, List.map_cons, PrefetchFeature.core_reconsider]
  · have hcases : other ∈ loop.candidates ∨ other = feature.reconsider := by
      rcases List.mem_append.mp hother with hother | hother
      · exact Or.inl (hsplit ▸ List.mem_append_left _ hother)
      · rcases List.mem_cons.mp hother with rfl | hother
        · exact Or.inr rfl
        · exact Or.inl (hsplit ▸ List.mem_append_right _ (List.mem_cons_of_mem _ hother))
    rcases hcases with hother | rfl
    · exact h.selected other hother hsel
    · exact ⟨((hmarks feature hmem).mp hre.1).1, hre.2⟩
  · rw [hpages, Throttle.reconsider, List.filter_append, hfilter.1, List.nil_append,
      List.filter_cons_of_pos rfl, hafter]
    rfl
  · rw [hpages]
    exact Nat.pos_of_ne_zero hlimit
  · rw [hpages]
    exact Nat.not_le.mp fun hle => hfree ⟨hne, hle⟩
  · rw [hpages, Throttle.reconsider]
    show insert _ loop.seen_pages = _
    rw [h.seen, hnone, Finset.insert_eq, Finset.union_comm]
    simp

theorem throttled_loop (stats : PlanStats) (ranked : List ℕ) :
    planner.Throttled request ranked
      (planner.throttleLoop request stats (ranked.map (planner.rankedPage request))) :=
  @throttleLoop_invariant planner request stats (planner.Throttled request)
    (fun _ _ page i h => throttled_step h page i) (throttled_nil stats) ranked

theorem throttled_throttle (hlimit : planner.limit request ≠ 0) (stats : PlanStats)
    (ranked : List ℕ) :
    planner.Throttled request ranked
      (planner.throttle request stats (ranked.map (planner.rankedPage request))) := by
  have hloop := @throttled_loop planner request stats ranked
  have hmarks := @marksLowReuse_loop planner request stats ranked
  rw [throttle]
  split_ifs with hfallback
  · obtain ⟨-, heq⟩ | ⟨-, -, heq⟩ | ⟨hfree, before, feature, after, hsplit, hre, heq⟩ :=
      @fallback_cases planner request _ [] _
    · rw [heq]
      exact hloop
    · rw [heq]
      exact ⟨hloop.core, hloop.selected, hloop.pages, hloop.within_limit, hloop.inflight,
        hloop.seen⟩
    · rw [heq]
      exact throttled_reconsider hloop hfallback.1 hmarks hlimit hfree hsplit hre
  · exact hloop

/-! ### Plans -/

/-- The score is at least the threshold. -/
def reachesThreshold (score : WithBot ℚ) : Double → Prop
  | .finite threshold => (threshold : WithBot ℚ) ≤ score
  | .negInf => True
  | .nan | .posInf => False

theorem reachesThreshold_of_not_isBelow {score : WithBot ℚ} {threshold : Double}
    (hnan : threshold ≠ .nan) (h : isBelow score threshold = false) :
    reachesThreshold score threshold := by
  cases threshold with
  | nan => exact absurd rfl hnan
  | negInf => trivial
  | posInf => cases h
  | finite threshold => exact not_lt.mp (decide_eq_false_iff_not.mp h)

variable (planner request) in
/-- What holds of a plan. -/
structure PlanCorrect (plan : Plan) : Prop where
  nodup : plan.pages.Nodup
  mem_input : ∀ page ∈ plan.pages, page ∈ request.page_ids
  within_limit : plan.pages.length ≤ planner.limit request
  /-- No selected page is cached, pending, ready or materialized. -/
  available : ∀ page ∈ plan.pages, request.availability page = {}
  unseen : ∀ page ∈ plan.pages, page ∉ planner.seen_pages
  inflight : planner.inflightLimit request ≠ 0 → plan.pages ≠ [] →
    request.context.io_queue_depth + plan.pages.length ≤ planner.inflightLimit request
  /-- Every distinct page of the input is among the candidates once. -/
  candidates_nodup : (plan.candidates.map (·.page_id)).Nodup
  candidates_mem : ∀ page, page ∈ plan.candidates.map (·.page_id) ↔ page ∈ request.page_ids
  /-- What the candidates are ranked by. -/
  described : ∀ feature ∈ plan.candidates,
    feature.num_candidates_on_page = request.page_ids.count feature.page_id ∧
    feature.min_pq_rank_on_page = request.page_ids.idxOf feature.page_id ∧
    ∃ score, planner.score_candidate
        (planner.pageCandidate request feature.page_id).feature = some (.ok score) ∧
      feature.score = finiteOrNegativeInfinity score
  ordered : plan.candidates.Pairwise comesBefore
  /-- The pages are the selected candidates, in their order. -/
  selected : plan.pages = (plan.candidates.filter (·.selected)).map (·.page_id)
  scored : ∀ feature ∈ plan.candidates, feature.selected = true →
    reachesThreshold feature.score planner.config.score_threshold

theorem rejection_eq_none (h : planner.rejection request page = none) :
    request.availability page = {} ∧ page ∉ planner.seen_pages := by
  cases hstate : request.availability page with
  | mk cached ready pending materialized =>
    rw [rejection, hstate] at h
    cases cached <;> cases ready <;> cases pending <;> cases materialized <;> simp_all

/-- The candidates are the ranked pages. -/
theorem Throttled.page_ids (h : planner.Throttled request done loop) :
    loop.candidates.map (·.page_id) = done := by
  have hcore := congrArg (List.map (·.page_id)) h.core
  rw [List.map_map, List.map_map] at hcore
  refine Eq.trans (b := _) hcore ?_
  exact (List.map_congr_left fun page _ => rankedPage_page_id).trans (List.map_id _)

theorem Throttled.of_mem (h : planner.Throttled request done loop) {feature : PrefetchFeature}
    (hfeature : feature ∈ loop.candidates) :
    feature.page_id ∈ done ∧
      feature.core = (planner.rankedPage request feature.page_id).feature.core := by
  have hmem : feature.core ∈ loop.candidates.map PrefetchFeature.core :=
    List.mem_map_of_mem hfeature
  rw [h.core] at hmem
  obtain ⟨page, hpage, heq⟩ := List.mem_map.mp hmem
  have hid : page = feature.page_id := by
    have hsame := congrArg PrefetchFeature.page_id heq
    exact rankedPage_page_id.symm.trans hsame
  exact ⟨hid ▸ hpage, hid ▸ heq.symm⟩

theorem planCorrect_of_throttled {ranked : List ℕ} (hranking : planner.Ranking request ranked stats)
    (h : planner.Throttled request ranked loop) (hnan : planner.config.score_threshold ≠ .nan) :
    planner.PlanCorrect request
      { pages := loop.pages, candidates := loop.candidates, stats := loop.stats } := by
  have hids := h.page_ids
  have hselected : ∀ page ∈ loop.pages, ∃ feature ∈ loop.candidates, feature.selected = true ∧
      feature.page_id = page := by
    intro page hpage
    rw [h.pages] at hpage
    obtain ⟨feature, hfeature, rfl⟩ := List.mem_map.mp hpage
    exact ⟨feature, List.mem_of_mem_filter hfeature, (List.mem_filter.mp hfeature).2, rfl⟩
  have hrejection : ∀ page ∈ loop.pages, planner.rejection request page = none := by
    intro page hpage
    obtain ⟨feature, hfeature, hsel, rfl⟩ := hselected page hpage
    exact (h.selected feature hfeature hsel).1
  constructor
  case nodup =>
    show loop.pages.Nodup
    rw [h.pages]
    exact ((hids ▸ hranking.nodup : (loop.candidates.map (·.page_id)).Nodup)).sublist
      (List.filter_sublist.map _)
  case mem_input =>
    intro page hpage
    obtain ⟨feature, hfeature, -, rfl⟩ := hselected page hpage
    exact (hranking.mem_iff _).mp (h.of_mem hfeature).1
  case within_limit => exact h.within_limit
  case available => exact fun page hpage => (rejection_eq_none (hrejection page hpage)).1
  case unseen => exact fun page hpage => (rejection_eq_none (hrejection page hpage)).2
  case inflight => exact h.inflight
  case candidates_nodup => exact hids.symm ▸ hranking.nodup
  case candidates_mem =>
    intro page
    rw [← hranking.mem_iff, ← hids]
  case described =>
    intro feature hfeature
    obtain ⟨hmem, heq⟩ := h.of_mem hfeature
    obtain ⟨score, hscore⟩ := hranking.scored _ hmem
    refine ⟨?_, ?_, score, hscore, ?_⟩
    · exact (congrArg PrefetchFeature.num_candidates_on_page heq).trans rankedPage_count
    · exact (congrArg PrefetchFeature.min_pq_rank_on_page heq).trans
        (rankedPage_min ((hranking.mem_iff _).mp hmem))
    · refine (congrArg PrefetchFeature.score heq).trans ?_
      show planner.pageScore request feature.page_id = _
      rw [pageScore, hscore]
  case ordered =>
    have hkeys : loop.candidates.map rankKey =
        ranked.map fun page => rankKey (planner.rankedPage request page).feature := by
      have hmap := congrArg (List.map rankKey) h.core
      rwa [List.map_map, List.map_map] at hmap
    have hsorted := hranking.sorted
    simp only [List.pairwise_map, comesBefore_iff] at hsorted
    have hpairwise : (loop.candidates.map rankKey).Pairwise (· < ·) := by
      rw [hkeys, List.pairwise_map]
      exact hsorted
    rw [List.pairwise_map] at hpairwise
    exact hpairwise.imp comesBefore_iff.mpr
  case selected => exact h.pages
  case scored =>
    intro feature hfeature hsel
    exact reachesThreshold_of_not_isBelow hnan (h.selected feature hfeature hsel).2

theorem limit_congr {other : PrefetchPlanner} (h : other.config = planner.config) :
    other.limit request = planner.limit request := by
  rw [limit, limit, topK, topK, h]

/-- After a plan the planner has seen the pages it selected, and nothing else has changed. -/
theorem planCandidates_next {plan : Plan} {next : PrefetchPlanner}
    (h : planner.planCandidates request = some (.ok (plan, next))) :
    next.config = planner.config ∧ next.seen_pages = planner.seen_pages ∪ plan.pages.toFinset := by
  by_cases hzero : planner.limit request = 0 ∨ planner.config.prefetch_depth = 0
  · rw [planCandidates, if_pos hzero] at h
    cases h
    exact ⟨rfl, (Finset.union_empty _).symm⟩
  · obtain ⟨hlimit, hdepth⟩ := not_or.mp hzero
    have hplan := plansOrFails_ranked hlimit hdepth
    rw [PlansOrFails, h] at hplan
    obtain ⟨ranked, stats, loop, -, rfl, rfl, rfl⟩ := hplan
    exact ⟨rfl, (throttled_throttle hlimit stats ranked).seen⟩

/-- After a sequence of plans the planner has seen what any of them selected. -/
theorem planAll_seen {requests : List Request} {plans : List (Except String Plan)}
    {last : PrefetchPlanner} (h : planner.planAll requests = some (plans, last)) :
    last.config = planner.config ∧ planner.seen_pages ⊆ last.seen_pages ∧
      ∀ plan, .ok plan ∈ plans → ∀ page ∈ plan.pages, page ∈ last.seen_pages := by
  induction requests generalizing planner plans with
  | nil =>
    cases h
    exact ⟨rfl, Finset.Subset.refl _, fun _ hplan => nomatch hplan⟩
  | cons request requests ih =>
    rw [planAll] at h
    match hcall : planner.planCandidates request with
    | none => simp [hcall] at h
    | some (.error message) =>
      simp only [hcall, Option.map_eq_some_iff, Prod.exists, Prod.mk.injEq] at h
      obtain ⟨rest, other, hrest, rfl, rfl⟩ := h
      obtain ⟨hconfig, hseen, hall⟩ := ih hrest
      refine ⟨hconfig, hseen, fun plan hplan => ?_⟩
      exact hall plan ((List.mem_cons.mp hplan).resolve_left nofun)
    | some (.ok (first, next)) =>
      simp only [hcall, Option.map_eq_some_iff, Prod.exists, Prod.mk.injEq] at h
      obtain ⟨rest, other, hrest, rfl, rfl⟩ := h
      obtain ⟨hconfig, hseen, hall⟩ := ih hrest
      obtain ⟨hfirst, hnext⟩ := planCandidates_next hcall
      rw [hnext] at hseen
      refine ⟨hconfig.trans hfirst, Finset.union_subset_left hseen, fun plan hplan page hpage => ?_⟩
      rcases List.mem_cons.mp hplan with heq | hplan
      · cases heq
        exact hseen (Finset.mem_union_right _ (List.mem_toFinset.mpr hpage))
      · exact hall plan hplan page hpage

/-- After any sequence of calls, a call returns a correct plan, which selects nothing that an earlier
plan selected, or it fails as scoring one of the pages does. -/
theorem planCandidates_correct (planner : PrefetchPlanner)
    (hdepth : planner.config.prefetch_depth ≠ 0) (hnan : planner.config.score_threshold ≠ .nan)
    {history : List Request} {earlier : List (Except String Plan)} {current : PrefetchPlanner}
    (hhistory : planner.planAll history = some (earlier, current)) (request : Request)
    (hlimit : planner.limit request ≠ 0) :
    current.PlansOrFails request fun plan _ => current.PlanCorrect request plan ∧
      ∀ old, .ok old ∈ earlier → ∀ page ∈ plan.pages, page ∉ old.pages := by
  obtain ⟨hconfig, -, hseen⟩ := planAll_seen hhistory
  rw [← limit_congr hconfig] at hlimit
  rw [← hconfig] at hdepth hnan
  refine (plansOrFails_ranked hlimit hdepth).imp fun plan next hplan => ?_
  obtain ⟨ranked, stats, loop, hranking, rfl, rfl, -⟩ := hplan
  have hcorrect := planCorrect_of_throttled hranking (throttled_throttle hlimit stats ranked) hnan
  exact ⟨hcorrect, fun old hold page hpage hmem =>
    hcorrect.unseen page hpage (hseen old hold page hmem)⟩

/-- A planner without a model. -/
def flatPlanner : PrefetchPlanner where
  config := { prefetch_width := 2, min_candidates_per_page := 1 }
  score_candidate _ := some (.ok (.finite 0))

theorem planCandidates_correct_flat : ∃ earlier current,
    flatPlanner.planAll [{ page_ids := [1] }] = some (earlier, current) ∧
      current.PlansOrFails { page_ids := [1, 2, 2] } fun plan _ =>
        ∀ old, .ok old ∈ earlier → ∀ page ∈ plan.pages, page ∉ old.pages := by
  obtain ⟨earlier, current, hhistory⟩ : ∃ earlier current,
      flatPlanner.planAll [{ page_ids := [1] }] = some (earlier, current) :=
    ⟨_, _, by with_unfolding_all rfl⟩
  exact ⟨earlier, current, hhistory,
    (planCandidates_correct flatPlanner (by decide) nofun hhistory { page_ids := [1, 2, 2] }
      (by decide)).imp fun _ _ h => h.2⟩

end PrefetchPlanner

end Prefetch
