import AgentAware.Prefetch.Planner

/-!
# The ranking of the pages

The loop over the pages leaves one entry for each distinct page, which depends on the ranks of that
page only. Scoring and sorting keep these entries, so a plan comes from a list of the distinct pages
in the order of their scores, however the hash map is visited.

## Main definitions

- `PrefetchPlanner.pageCandidate`, `PrefetchPlanner.rankedPage` — a page before and after scoring
- `PrefetchPlanner.PlansOrFails` — a call returns a plan, or fails because scoring a page does

## Main results

- `PrefetchPlanner.foldl_addPage` — the entries after the loop over the pages
- `PrefetchPlanner.rankedPage_count`, `PrefetchPlanner.rankedPage_min` — what a page is ranked by
- `PrefetchPlanner.plansOrFails_ranked` — a plan comes from the ranking of the distinct pages
-/

namespace Prefetch

namespace PrefetchPlanner

variable (planner : PrefetchPlanner) (request : Request)

/-! ### The entries of the pages -/

/-- The ranks of a page. -/
def ranksOf (entries : List (ℕ × ℕ)) (page_id : ℕ) : List ℕ :=
  (entries.filter fun entry => entry.1 = page_id).map Prod.snd

/-- What the ranks of a page leave. -/
def pageAggregate (entries : List (ℕ × ℕ)) (page_id : ℕ) : Aggregate :=
  (ranksOf entries page_id).foldl Aggregate.touch
    (planner.newAggregate request page_id ((ranksOf entries page_id).headD 0))

/-- What is collected of a page. -/
def pageCandidate (page_id : ℕ) : PageCandidate :=
  (planner.pageAggregate request request.page_ids.zipIdx page_id).toCandidate

variable {planner request} {page_id rank : ℕ} {entries : List (ℕ × ℕ)} {aggregate : Aggregate}

theorem ranksOf_concat (entries : List (ℕ × ℕ)) (page_id other rank : ℕ) :
    ranksOf (entries ++ [(other, rank)]) page_id =
      ranksOf entries page_id ++ if other = page_id then [rank] else [] := by
  rw [ranksOf, List.filter_append, List.map_append, ranksOf]
  by_cases h : other = page_id <;> simp [h]

theorem ranksOf_eq_nil (h : page_id ∉ entries.map Prod.fst) : ranksOf entries page_id = [] := by
  rw [ranksOf, List.map_eq_nil_iff, List.filter_eq_nil_iff]
  intro entry hentry heq
  rw [decide_eq_true_eq] at heq
  exact h (List.mem_map.mpr ⟨entry, hentry, heq⟩)

theorem ranksOf_ne_nil (h : page_id ∈ entries.map Prod.fst) : ranksOf entries page_id ≠ [] := by
  obtain ⟨entry, hentry, rfl⟩ := List.mem_map.mp h
  have hmem : entry.2 ∈ ranksOf entries entry.1 :=
    List.mem_map_of_mem (List.mem_filter.mpr ⟨hentry, decide_eq_true rfl⟩)
  exact List.ne_nil_of_mem hmem

/-- What `touch` keeps, a sequence of them keeps. -/
theorem foldl_touch_same {γ : Type} (field : Aggregate → γ)
    (h : ∀ aggregate rank, field (aggregate.touch rank) = field aggregate) (ranks : List ℕ)
    (aggregate : Aggregate) : field (ranks.foldl Aggregate.touch aggregate) = field aggregate := by
  induction ranks generalizing aggregate with
  | nil => rfl
  | cons rank ranks ih => rw [List.foldl_cons, ih, h]

theorem foldl_touch_count (ranks : List ℕ) (aggregate : Aggregate) :
    (ranks.foldl Aggregate.touch aggregate).feature.num_candidates_on_page =
      aggregate.feature.num_candidates_on_page + ranks.length := by
  induction ranks generalizing aggregate with
  | nil => rfl
  | cons rank ranks ih =>
    rw [List.foldl_cons, ih, List.length_cons]
    show aggregate.feature.num_candidates_on_page + 1 + ranks.length = _
    omega

theorem foldl_touch_min (ranks : List ℕ) (aggregate : Aggregate)
    (h : ∀ rank ∈ ranks, aggregate.feature.min_pq_rank_on_page ≤ rank) :
    (ranks.foldl Aggregate.touch aggregate).feature.min_pq_rank_on_page =
      aggregate.feature.min_pq_rank_on_page := by
  induction ranks generalizing aggregate with
  | nil => rfl
  | cons rank ranks ih =>
    rw [List.forall_mem_cons] at h
    have hmin : (aggregate.touch rank).feature.min_pq_rank_on_page =
        aggregate.feature.min_pq_rank_on_page := Nat.min_eq_left h.1
    rw [List.foldl_cons, ih _ (by rw [hmin]; exact h.2), hmin]

@[simp] theorem pageAggregate_page_id :
    (planner.pageAggregate request entries page_id).feature.page_id = page_id :=
  foldl_touch_same (fun aggregate => aggregate.feature.page_id) (fun _ _ => rfl) _ _

@[simp] theorem pageAggregate_eligible :
    (planner.pageAggregate request entries page_id).eligible =
      (planner.rejection request page_id).isNone :=
  foldl_touch_same (fun aggregate => aggregate.eligible) (fun _ _ => rfl) _ _

@[simp] theorem pageAggregate_skip_reason :
    (planner.pageAggregate request entries page_id).feature.skip_reason =
      planner.rejection request page_id :=
  foldl_touch_same (fun aggregate => aggregate.feature.skip_reason) (fun _ _ => rfl) _ _

@[simp] theorem pageAggregate_selected :
    (planner.pageAggregate request entries page_id).feature.selected = false :=
  foldl_touch_same (fun aggregate => aggregate.feature.selected) (fun _ _ => rfl) _ _

theorem pageAggregate_concat_other {other : ℕ} (h : other ≠ page_id) :
    planner.pageAggregate request (entries ++ [(other, rank)]) page_id =
      planner.pageAggregate request entries page_id := by
  rw [pageAggregate, pageAggregate, ranksOf_concat, if_neg h, List.append_nil]

theorem pageAggregate_concat_old (h : page_id ∈ entries.map Prod.fst) :
    planner.pageAggregate request (entries ++ [(page_id, rank)]) page_id =
      (planner.pageAggregate request entries page_id).touch rank := by
  rw [pageAggregate, pageAggregate, ranksOf_concat, if_pos rfl, List.foldl_append]
  cases hranks : ranksOf entries page_id with
  | nil => exact absurd hranks (ranksOf_ne_nil h)
  | cons first ranks => rfl

theorem pageAggregate_concat_new (h : page_id ∉ entries.map Prod.fst) :
    planner.pageAggregate request (entries ++ [(page_id, rank)]) page_id =
      (planner.newAggregate request page_id rank).touch rank := by
  rw [pageAggregate, ranksOf_concat, if_pos rfl, ranksOf_eq_nil h]
  rfl

@[simp] theorem skipped_skip (stats : PlanStats) (reason : SkipReason) :
    (stats.skip reason).skipped = stats.skipped + 1 := by
  cases reason <;> simp only [PlanStats.skip, PlanStats.skipped] <;> omega

theorem rejection_ne_low : planner.rejection request page_id ≠ some .low_page_reuse := by
  rw [rejection]
  split_ifs <;> exact nofun

theorem skip_low_of_rejection (stats : PlanStats) {reason : SkipReason}
    (h : planner.rejection request page_id = some reason) :
    (stats.skip reason).skip_low_page_reuse = stats.skip_low_page_reuse := by
  cases reason with
  | low_page_reuse => exact absurd h rejection_ne_low
  | _ => rfl

/-- The loop keeps one entry for each page it met, in the order of their first ranks. -/
theorem foldl_addPage (entries : List (ℕ × ℕ)) :
    ∃ pages : List ℕ, pages.Nodup ∧ (∀ page, page ∈ pages ↔ page ∈ entries.map Prod.fst) ∧
      (entries.foldl (planner.addPage request) {}).aggregates =
        pages.map (planner.pageAggregate request entries) ∧
      (entries.foldl (planner.addPage request) {}).stats.skipped =
        pages.countP (fun page => (planner.rejection request page).isSome) ∧
      (entries.foldl (planner.addPage request) {}).stats.skip_low_page_reuse = 0 := by
  induction entries using List.reverseRecOn with
  | nil => exact ⟨[], List.nodup_nil, fun _ => Iff.rfl, rfl, rfl, rfl⟩
  | append_singleton entries entry ih =>
    obtain ⟨pages, hnodup, hmem, haggregates, hskipped, hlow⟩ := ih
    obtain ⟨page_id, rank⟩ := entry
    rw [List.foldl_concat]
    have hids : (entries.foldl (planner.addPage request) {}).aggregates.map
        (·.feature.page_id) = pages := by
      rw [haggregates, List.map_map]
      exact (List.map_congr_left fun page _ => pageAggregate_page_id).trans (List.map_id _)
    by_cases hold : page_id ∈ pages
    -- The page was met before: its entry is touched, the others stay.
    · refine ⟨pages, hnodup, fun page => ?_, ?_, ?_, ?_⟩
      · rw [hmem, List.map_append, List.mem_append, List.map_singleton, List.mem_singleton]
        refine ⟨Or.inl, ?_⟩
        rintro (h | rfl)
        · exact h
        · exact (hmem _).mp hold
      · rw [addPage]
        simp only [hids, if_pos hold]
        rw [haggregates, List.map_map]
        refine List.map_congr_left fun page hpage => ?_
        rw [Function.comp_apply, pageAggregate_page_id]
        by_cases heq : page = page_id
        · rw [if_pos heq, heq, pageAggregate_concat_old ((hmem page_id).mp hold)]
        · rw [if_neg heq, pageAggregate_concat_other (Ne.symm heq)]
      · rw [addPage]
        simp only [hids, if_pos hold]
        exact hskipped
      · rw [addPage]
        simp only [hids, if_pos hold]
        exact hlow
    -- A new page gets an entry, and is counted when it is rejected.
    · have hnew : page_id ∉ entries.map Prod.fst := fun h => hold ((hmem page_id).mpr h)
      refine ⟨pages ++ [page_id], ?_, fun page => ?_, ?_, ?_, ?_⟩
      · rw [← List.concat_eq_append]
        exact hnodup.concat hold
      · rw [List.map_append, List.mem_append, List.mem_append, hmem]
        rfl
      · rw [addPage]
        simp only [hids, if_neg hold]
        rw [haggregates, List.map_append, List.map_singleton, pageAggregate_concat_new hnew]
        refine congrArg (· ++ _) (List.map_congr_left fun page hpage => ?_)
        have hne : page_id ≠ page := fun heq => hold (heq ▸ hpage)
        exact (pageAggregate_concat_other hne).symm
      · rw [addPage, List.countP_append, ← hskipped]
        simp only [hids, if_neg hold]
        cases hreason : planner.rejection request page_id with
        | none => simp [hreason, PlanStats.skipped]
        | some reason =>
          simp only [skipped_skip, List.countP_singleton, hreason, Option.isSome_some]
          rfl
      · rw [addPage]
        simp only [hids, if_neg hold]
        cases hreason : planner.rejection request page_id with
        | none => exact hlow
        | some reason => exact (skip_low_of_rejection _ hreason).trans hlow

/-! ### The ranked pages -/

/-- A page as it is found in the hash map. -/
theorem collect_eq : ∃ pages : List ℕ, pages.Nodup ∧ (∀ page, page ∈ pages ↔ page ∈ request.page_ids) ∧
    (planner.collect request).aggregates.map Aggregate.toCandidate =
      pages.map (planner.pageCandidate request) ∧
    (planner.collect request).stats.skipped =
      pages.countP (fun page => (planner.rejection request page).isSome) ∧
    (planner.collect request).stats.skip_low_page_reuse = 0 := by
  obtain ⟨pages, hnodup, hmem, haggregates, hskipped, hlow⟩ :=
    @foldl_addPage planner request request.page_ids.zipIdx
  refine ⟨pages, hnodup, fun page => ?_, ?_, hskipped, hlow⟩
  · rw [hmem, List.zipIdx_map_fst]
  · rw [collect, haggregates, List.map_map]
    rfl

variable (planner request) in
/-- The score of a page, if it has one. -/
def pageScore (page_id : ℕ) : WithBot ℚ :=
  match planner.score_candidate (planner.pageCandidate request page_id).feature with
  | some (.ok score) => finiteOrNegativeInfinity score
  | _ => ⊥

variable (planner request) in
/-- A page with its score. -/
def rankedPage (page_id : ℕ) : PageCandidate :=
  { planner.pageCandidate request page_id with
    feature :=
      { (planner.pageCandidate request page_id).feature with
        score := planner.pageScore request page_id } }

@[simp] theorem rankedPage_page_id : (planner.rankedPage request page_id).feature.page_id = page_id :=
  pageAggregate_page_id

@[simp] theorem rankedPage_eligible :
    (planner.rankedPage request page_id).eligible = (planner.rejection request page_id).isNone :=
  pageAggregate_eligible

@[simp] theorem rankedPage_skip_reason :
    (planner.rankedPage request page_id).feature.skip_reason = planner.rejection request page_id :=
  pageAggregate_skip_reason

@[simp] theorem rankedPage_selected :
    (planner.rankedPage request page_id).feature.selected = false :=
  pageAggregate_selected

@[simp] theorem rankedPage_score :
    (planner.rankedPage request page_id).feature.score = planner.pageScore request page_id :=
  rfl

theorem length_ranksOf (pages : List ℕ) (start page_id : ℕ) :
    (ranksOf (pages.zipIdx start) page_id).length = pages.count page_id := by
  rw [ranksOf, List.length_map]
  induction pages generalizing start with
  | nil => rfl
  | cons page pages ih =>
    rw [List.zipIdx_cons, List.count_cons]
    by_cases h : page = page_id
    · rw [List.filter_cons_of_pos (by simpa using h), List.length_cons, ih, if_pos (by simpa using h)]
    · rw [List.filter_cons_of_neg (by simpa using h), ih, if_neg (by simpa using h), Nat.add_zero]

theorem le_of_mem_ranksOf {pages : List ℕ} {start : ℕ}
    (h : rank ∈ ranksOf (pages.zipIdx start) page_id) : start + pages.idxOf page_id ≤ rank := by
  induction pages generalizing start with
  | nil => cases h
  | cons page pages ih =>
    rw [ranksOf, List.zipIdx_cons] at h
    by_cases heq : page = page_id
    · rw [heq, List.idxOf_cons_self, Nat.add_zero]
      obtain ⟨entry, hentry, rfl⟩ := List.mem_map.mp h
      rcases List.mem_cons.mp (List.mem_of_mem_filter hentry) with rfl | hentry
      · exact Nat.le_refl _
      · have hle := (List.mem_zipIdx hentry).1
        omega
    · rw [List.filter_cons_of_neg (by simpa using heq)] at h
      have hle := ih h
      rw [List.idxOf_cons_ne _ heq]
      omega

theorem head?_ranksOf {pages : List ℕ} (start : ℕ) (h : page_id ∈ pages) :
    (ranksOf (pages.zipIdx start) page_id).head? = some (start + pages.idxOf page_id) := by
  induction pages generalizing start with
  | nil => cases h
  | cons page pages ih =>
    rw [ranksOf, List.zipIdx_cons]
    by_cases heq : page = page_id
    · rw [List.filter_cons_of_pos (by simpa using heq), heq, List.idxOf_cons_self]
      rfl
    · have hrest := ih (start + 1) ((List.mem_cons.mp h).resolve_left (Ne.symm heq))
      rw [List.filter_cons_of_neg (by simpa using heq), List.idxOf_cons_ne _ heq]
      rw [ranksOf] at hrest
      rw [hrest]
      congr 1
      omega

/-- The reuse count of a page is how often it occurs. -/
theorem rankedPage_count :
    (planner.rankedPage request page_id).feature.num_candidates_on_page =
      request.page_ids.count page_id := by
  have hcount := foldl_touch_count (ranksOf request.page_ids.zipIdx page_id)
    (planner.newAggregate request page_id ((ranksOf request.page_ids.zipIdx page_id).headD 0))
  rw [length_ranksOf] at hcount
  exact hcount.trans (Nat.zero_add _)

/-- The best rank of a page is where it occurs first. -/
theorem rankedPage_min (h : page_id ∈ request.page_ids) :
    (planner.rankedPage request page_id).feature.min_pq_rank_on_page =
      request.page_ids.idxOf page_id := by
  have hfirst : (ranksOf request.page_ids.zipIdx page_id).headD 0 =
      request.page_ids.idxOf page_id := by
    rw [List.headD_eq_head?_getD, head?_ranksOf 0 h, Nat.zero_add]
    rfl
  have hmin := foldl_touch_min (ranksOf request.page_ids.zipIdx page_id)
    (planner.newAggregate request page_id ((ranksOf request.page_ids.zipIdx page_id).headD 0))
    (fun rank hrank => by
      show (ranksOf request.page_ids.zipIdx page_id).headD 0 ≤ rank
      rw [hfirst]
      exact (Nat.zero_add _).symm.le.trans (le_of_mem_ranksOf hrank))
  exact hmin.trans hfirst

/-! ### From the pages to the plan -/

variable (planner) in
/-- A candidate with its score. -/
def withScore (candidate : PageCandidate) : PageCandidate :=
  { candidate with
    feature :=
      { candidate.feature with
        score :=
          match planner.score_candidate candidate.feature with
          | some (.ok score) => finiteOrNegativeInfinity score
          | _ => ⊥ } }

/-- All candidates are scored, or one of them is not. -/
theorem scoreAll_cases (candidates : List PageCandidate) :
    (planner.scoreAll candidates = some (.ok (candidates.map planner.withScore)) ∧
        ∀ candidate ∈ candidates, ∃ score,
          planner.score_candidate candidate.feature = some (.ok score)) ∨
      (∃ message, planner.scoreAll candidates = some (.error message) ∧
        ∃ candidate ∈ candidates,
          planner.score_candidate candidate.feature = some (.error message)) ∨
      (planner.scoreAll candidates = none ∧
        ∃ candidate ∈ candidates, planner.score_candidate candidate.feature = none) := by
  induction candidates with
  | nil => exact Or.inl ⟨rfl, fun _ h => nomatch h⟩
  | cons candidate candidates ih =>
    rw [scoreAll]
    cases hscore : planner.score_candidate candidate.feature with
    | none => exact Or.inr (Or.inr ⟨rfl, candidate, List.mem_cons_self, hscore⟩)
    | some outcome =>
      cases outcome with
      | error message =>
        exact Or.inr (Or.inl ⟨message, rfl, candidate, List.mem_cons_self, hscore⟩)
      | ok score =>
        obtain ⟨hall, hscored⟩ | ⟨message, hall, other, hother, hfail⟩ |
          ⟨hall, other, hother, hfail⟩ := ih
        · refine Or.inl ⟨?_, List.forall_mem_cons.mpr ⟨⟨score, hscore⟩, hscored⟩⟩
          simp only [hall, List.map_cons, withScore, hscore]
        · refine Or.inr (Or.inl ⟨message, ?_, other, List.mem_cons_of_mem _ hother, hfail⟩)
          simp only [hall]
        · refine Or.inr (Or.inr ⟨?_, other, List.mem_cons_of_mem _ hother, hfail⟩)
          simp only [hall]

theorem page_id_eq_of_rankKey {lhs rhs : PrefetchFeature} (h : rankKey lhs = rankKey rhs) :
    lhs.page_id = rhs.page_id :=
  congrArg (fun key => (ofLex (ofLex (ofLex key).2).2).2) h

/-- Different pages have different ranks. -/
theorem rankKey_rankedPage_injective :
    Function.Injective fun page => rankKey (planner.rankedPage request page).feature := by
  intro page other h
  have heq := page_id_eq_of_rankKey h
  rwa [rankedPage_page_id, rankedPage_page_id] at heq

/-- Sorting the pages in any order puts them into one list. -/
theorem sortCandidates_pages {pages : List ℕ} (hnodup : pages.Nodup) :
    ∃ ranked : List ℕ, ranked.Perm pages ∧
      (∀ candidates : List PageCandidate,
        candidates.Perm (pages.map (planner.rankedPage request)) →
        sortCandidates candidates = ranked.map (planner.rankedPage request)) ∧
      (ranked.map (planner.rankedPage request)).Pairwise fun lhs rhs =>
        comesBefore lhs.feature rhs.feature := by
  let key := fun candidate : PageCandidate => rankKey candidate.feature
  let rank := fun page => key (planner.rankedPage request page)
  have hkeys : (pages.map rank).Nodup := hnodup.map rankKey_rankedPage_injective
  have hpairwise := TopK.sortBy_pairwise_lt hkeys
  have hsorted : ((TopK.sortBy rank pages).map (planner.rankedPage request)).Pairwise
      fun lhs rhs => key lhs < key rhs := by
    rw [List.pairwise_map]
    exact hpairwise
  have hperm := TopK.sortBy_perm rank pages
  refine ⟨TopK.sortBy rank pages, hperm, fun candidates hcandidates => ?_, ?_⟩
  · have hseparates : TopK.Separates key candidates := by
      refine TopK.Separates.mono (TopK.separates_of_nodup ?_) fun a ha => hcandidates.mem_iff.mp ha
      rw [List.map_map]
      exact hkeys
    rw [sortCandidates, TopK.sortBy_eq_of_perm hseparates
      (hcandidates.trans (hperm.map (planner.rankedPage request)).symm)]
    exact TopK.sortBy_eq_self hsorted
  · exact hsorted.imp comesBefore_iff.mpr

variable (planner request) in
/-- The call returns a plan with the postcondition, or fails as scoring one of the pages does. -/
def PlansOrFails (post : Plan → PrefetchPlanner → Prop) : Prop :=
  match planner.planCandidates request with
  | some (.ok (plan, next)) => post plan next
  | some (.error message) => ∃ page ∈ request.page_ids,
    planner.score_candidate (planner.pageCandidate request page).feature = some (.error message)
  | none => ∃ page ∈ request.page_ids,
    planner.score_candidate (planner.pageCandidate request page).feature = none

theorem PlansOrFails.imp {post stronger : Plan → PrefetchPlanner → Prop}
    (h : planner.PlansOrFails request stronger)
    (himp : ∀ plan next, stronger plan next → post plan next) :
    planner.PlansOrFails request post := by
  rw [PlansOrFails] at h ⊢
  split <;> simp_all

variable (planner request) in
/-- The distinct pages of a request as they are ranked, and the counters before the ranking. -/
structure Ranking (ranked : List ℕ) (stats : PlanStats) : Prop where
  nodup : ranked.Nodup
  mem_iff : ∀ page, page ∈ ranked ↔ page ∈ request.page_ids
  sorted : (ranked.map (planner.rankedPage request)).Pairwise fun lhs rhs =>
    comesBefore lhs.feature rhs.feature
  scored : ∀ page ∈ ranked, ∃ score,
    planner.score_candidate (planner.pageCandidate request page).feature = some (.ok score)
  skipped : stats.skipped = ranked.countP fun page => (planner.rejection request page).isSome
  low : stats.skip_low_page_reuse = 0

/-- A plan is what the loop over the ranked pages leaves. -/
theorem plansOrFails_ranked (hlimit : planner.limit request ≠ 0)
    (hdepth : planner.config.prefetch_depth ≠ 0) :
    planner.PlansOrFails request fun plan next => ∃ ranked stats loop,
      planner.Ranking request ranked stats ∧
      loop = planner.throttle request stats (ranked.map (planner.rankedPage request)) ∧
      plan = { pages := loop.pages, candidates := loop.candidates, stats := loop.stats } ∧
      next = { planner with seen_pages := loop.seen_pages } := by
  obtain ⟨pages, hnodup, hmem, hcandidates, hskipped, hlow⟩ := @collect_eq planner request
  have hperm := request.iterate_perm ((planner.collect request).aggregates.map Aggregate.toCandidate)
  rw [hcandidates] at hperm
  obtain ⟨ranked, hranked, hsort, hsorted⟩ := @sortCandidates_pages planner request pages hnodup
  have hmem_ranked : ∀ page, page ∈ ranked ↔ page ∈ request.page_ids := fun page =>
    hranked.mem_iff.trans (hmem page)
  rw [PlansOrFails, planCandidates, if_neg (not_or.mpr ⟨hlimit, hdepth⟩), planCoalescedCandidates,
    rankAndThrottle, hcandidates]
  -- Without candidates the source returns before any page is scored.
  by_cases hempty : request.iterate (pages.map (planner.pageCandidate request)) = []
  · rw [if_pos hempty]
    rw [hempty] at hperm
    have hpages : pages = [] := List.map_eq_nil_iff.mp hperm.nil_eq.symm
    have hnil : ranked = [] := by rw [hpages] at hranked; exact hranked.eq_nil
    subst hnil
    refine ⟨[], (planner.collect request).stats, _,
      ⟨List.nodup_nil, hmem_ranked, List.Pairwise.nil, (fun _ h => nomatch h), ?_, hlow⟩, rfl, ?_⟩
    · rw [hskipped, hpages]
    · rw [throttle, throttleLoop]
      simp only [List.map_nil, List.zipIdx_nil, List.foldl_nil, fallback, ite_self, and_self]
  · rw [if_neg hempty]
    have hof_mem : ∀ candidate ∈ request.iterate (pages.map (planner.pageCandidate request)),
        ∃ page ∈ request.page_ids, planner.pageCandidate request page = candidate := by
      intro candidate h
      obtain ⟨page, hpage, heq⟩ := List.mem_map.mp (hperm.mem_iff.mp h)
      exact ⟨page, (hmem page).mp hpage, heq⟩
    rcases @scoreAll_cases planner
      (request.iterate (pages.map (planner.pageCandidate request))) with
      ⟨hall, hscored⟩ | ⟨message, hall, candidate, hin, hfail⟩ | ⟨hall, candidate, hin, hfail⟩
    · rw [hall]
      have hwith := hperm.map planner.withScore
      rw [List.map_map] at hwith
      simp only [hsort _ hwith]
      refine ⟨ranked, _, _, ⟨hranked.nodup_iff.mpr hnodup, hmem_ranked, hsorted, fun page hpage => ?_,
        hskipped.trans (hranked.countP_eq _).symm, hlow⟩, rfl, rfl, rfl⟩
      exact hscored _ (hperm.mem_iff.mpr (List.mem_map_of_mem (hranked.mem_iff.mp hpage)))
    · rw [hall]
      obtain ⟨page, hpage, rfl⟩ := hof_mem candidate hin
      exact ⟨page, hpage, hfail⟩
    · rw [hall]
      obtain ⟨page, hpage, rfl⟩ := hof_mem candidate hin
      exact ⟨page, hpage, hfail⟩

end PrefetchPlanner

end Prefetch
