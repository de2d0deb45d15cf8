import AgentAware.Packed.SessionRuns

/-!
# The prefetches and the reads of a whole query

## Main results

- `prefetch_accounts` — the prefetch counters add up, and the budget is kept
- `reads_once` — without a cache no page is read twice
-/

namespace Packed.PageIo

open Interaction

variable {α D : Type} {enabled : Bool} {budget : ℕ} {s t : QueryPageSession α D}

/-- The prefetches of a finished query: every page that was submitted is in one of the two
counts. -/
structure Settled (s : QueryPageSession α D) : Prop where
  counters : s.stats.prefetch_submitted_pages =
    s.stats.prefetch_useful_pages + s.stats.prefetch_wasted_pages
  submitted_count : s.stats.prefetch_submitted_pages = s.prefetched.card
  useful_count : s.stats.prefetch_useful_pages = s.promoted.card
  wasted_count : s.stats.prefetch_wasted_pages = s.dropped.card
  fates : s.prefetched = s.promoted + s.dropped

theorem settled_closeAccounts (h : Inv enabled budget ∅ s) : Settled (closeAccounts s) := by
  have hfates : s.prefetched =
      s.promoted + (s.pending_pages.val + s.ready_prefetch_pages.keys + s.dropped) := by
    ext p
    have hfate := h.fates p
    have hpending : s.pending_pages.val.count p = if p ∈ s.pending_pages then 1 else 0 :=
      Multiset.count_eq_of_nodup s.pending_pages.nodup
    have hready : (s.ready_prefetch_pages.keys : Multiset PageId).count p =
        if p ∈ s.ready_prefetch_pages then 1 else 0 := by
      rw [Multiset.count_eq_of_nodup (Multiset.coe_nodup.mpr s.ready_prefetch_pages.keys_nodup)]
      exact if_congr Iff.rfl rfl rfl
    rw [Multiset.count_add, Multiset.count_add, Multiset.count_add, hpending, hready]
    omega
  have hwasted : (closeAccounts s).stats.prefetch_wasted_pages = (closeAccounts s).dropped.card := by
    change s.stats.prefetch_dropped + s.pending_pages.card + s.ready_prefetch_pages.keys.length =
      (s.pending_pages.val + s.ready_prefetch_pages.keys + s.dropped).card
    rw [Multiset.card_add, Multiset.card_add, Multiset.coe_card, Finset.card_val, h.dropped_count]
    omega
  refine ⟨?_, h.submitted_count, h.useful_count, hwasted, hfates⟩
  rw [hwasted]
  change s.stats.prefetch_submitted_pages = s.stats.prefetch_useful_pages + _
  rw [h.submitted_count, h.useful_count, hfates, Multiset.card_add]
  rfl

theorem sound_closeAccounts (h : Inv enabled budget ∅ s) :
    Sound enabled budget (closeAccounts s) where
  budget_eq := h.budget_eq
  enabled_eq := h.enabled_eq
  within_budget := Nat.zero_le budget
  reads_nodup := h.reads_nodup

theorem holds_unpinAll (hsound : Sound enabled budget s) (hsettled : Settled s) :
    Holds (Sound enabled budget) unpinAll
      (fun _ t => Sound enabled budget t ∧ Settled t) s := by
  have hunpinned : Sound enabled budget { s with
      index := (Packed.QueryPageSession.unpinEach s.index s.pinned_pages).2
      pinned_pages := [] } :=
    { hsound with
      enabled_eq := by
        rw [← hsound.enabled_eq]
        simp only [PageCache.cacheEnabled, policy_unpinEach] }
  apply holds_bind
  rw [holds_act]
  refine ⟨hunpinned, ?_⟩
  cases (Packed.QueryPageSession.unpinEach s.index s.pinned_pages).1 with
  | none =>
    exact holds_pure.mpr ⟨hunpinned, hsettled.1, hsettled.2, hsettled.3, hsettled.4, hsettled.5⟩
  | some message => exact holds_throw

theorem holds_closeQuery (h : Inv enabled budget ∅ s) :
    Holds (Sound enabled budget) closeQuery (fun _ t => Settled t) s := by
  apply holds_bind
  rw [holds_change]
  refine ⟨sound_closeAccounts h, ?_⟩
  apply holds_bind
  apply holds_mayFail
  apply holds_bind
  refine (holds_unpinAll (sound_closeAccounts h) (settled_closeAccounts h)).mono fun _ t ht => ?_
  rw [holds_change]
  obtain ⟨hsound, hsettled⟩ := ht
  exact ⟨⟨hsound.1, hsound.2, hsound.3, hsound.4⟩, hsettled.1, hsettled.2, hsettled.3, hsettled.4,
    hsettled.5⟩

theorem holds_finishQuery (h : Inv enabled budget ∅ s) :
    Holds (Sound enabled budget) finishQuery (fun _ t => Settled t) s := by
  apply holds_bind
  rw [holds_get]
  apply holds_ite
  · intro hfinished
    exact absurd (h.not_finished.symm.trans hfinished) (by simp)
  · intro _
    apply holds_ite
    · intro _
      apply holds_bind
      exact (holds_harvestAll h).mono fun _ t ht => holds_closeQuery ht.inv
    · intro _
      exact holds_closeQuery h

theorem inv_new (index : PageCache α D) (page_reader : AsyncPageReader α) (page_count : ℕ)
    (config : PrefetchConfig) :
    Inv index.cacheEnabled (sessionPrefetchBudget page_reader.status config) ∅
      (QueryPageSession.new index page_reader page_count config) where
  budget_eq := rfl
  enabled_eq := rfl
  within_budget := Nat.zero_le _
  reads_nodup := fun _ => List.nodup_nil
  token_pending := nofun
  token_inj := nofun
  completed_ready := fun p => by simp [QueryPageSession.new]
  pending_not_ready := by simp [QueryPageSession.new]
  ready_not_cached := by simp [QueryPageSession.new]
  ready_id := nofun
  not_finished := rfl
  submitted_count := rfl
  useful_count := rfl
  dropped_count := rfl
  fates := fun p => by simp [QueryPageSession.new]
  away_absent := nofun
  reads_held := fun _ => by simp [QueryPageSession.new]
  materialized_owned := fun _ => by simp [QueryPageSession.new]
  held_not_owned := fun _ => by simp [QueryPageSession.new]

theorem holds_pinPage (h : Inv enabled budget ∅ s) (page_id : PageId) :
    Holds (Sound enabled budget) (pinPage page_id) (fun _ t => Inv enabled budget ∅ t) s := by
  have hpin : Inv enabled budget ∅ { s with
      index := (s.index.pinIfCached page_id).2
      pinned_pages := page_id :: s.pinned_pages } := by
    have hindex := inv_index h policy_pin fun q => @find_isSome_pin α D s.index page_id q
    exact { hindex with away_absent := nofun }
  rw [pinPage, holds_change]
  dsimp only
  split
  · exact ⟨h.toSound, h⟩
  · split
    · exact ⟨hpin.toSound, hpin⟩
    · exact ⟨h.toSound, h⟩

variable [LT D] [DecidableLT D] [DecidableEq D]

/-- Every call keeps the invariant. -/
theorem holds_call (h : Inv enabled budget ∅ s) (c : SessionCall) :
    Holds (Sound enabled budget) (call c) (fun _ t => Inv enabled budget ∅ t) s := by
  cases c with
  | getOrLoadPage page_id =>
    apply holds_bind
    exact (holds_getOrLoadPage h page_id).mono fun _ t ht => holds_pure.mpr ht
  | ensurePagesLoadedBatch page_ids => exact holds_ensurePagesLoadedBatch h page_ids
  | submitPrefetchPlan page_ids => exact holds_submitPrefetchPlan h page_ids
  | drainReadyPages => exact holds_drainReadyPages h
  | pinPage page_id => exact holds_pinPage h page_id

/-- A whole query, whatever the reader answers. -/
theorem holds_query (h : Inv enabled budget ∅ s) (calls : List SessionCall) :
    Holds (Sound enabled budget) (query calls) (fun _ t => Settled t) s := by
  apply holds_bind
  refine (holds_forEach (Inv enabled budget ∅) calls (fun c _ t ht => holds_call ht c) h).mono
    fun _ t ht => ?_
  exact holds_finishQuery ht

/-- In every query the pages under way and the ready ones together stay within the budget at every
step; and when the query returns, every prefetch was either used or wasted. -/
theorem prefetch_accounts (index : PageCache α D) (page_reader : AsyncPageReader α)
    (page_count : ℕ) (config : PrefetchConfig) (calls : List SessionCall) (rounds : ℕ)
    (replies : List (Reply α)) :
    let run := (query calls).run rounds
      (QueryPageSession.new index page_reader page_count config) replies
    (∀ t ∈ run.seen, t.pending_pages.card + t.ready_prefetch_pages.keys.length ≤
      sessionPrefetchBudget page_reader.status config) ∧
      (run.ending = .returned () → Settled run.state) := by
  intro run
  have hquery := holds_query (inv_new index page_reader page_count config) calls rounds replies
  exact ⟨fun t ht => (hquery.1 t ht).within_budget, fun hreturned => hquery.2 () hreturned⟩

/-- Two pages are prefetched, one of them is used. -/
theorem prefetch_accounts_two :
    let run := (query [.submitPrefetchPlan [7, 8], .getOrLoadPage 7]).run 3
      (@QueryPageSession.new ℕ ℕ
        { policy := { cache_score := fun _ => 0, page_hot_score := fun _ => 0 } }
        { status := { io_uring_enabled := true, depth := 4, batch_size := 2 } } 10
        { prefetch_policy := "xgboost", prefetch_width := 1, prefetch_depth := 2 })
      [.nothing, .nothing, .nothing, .nothing, .completed 1 (.ok 0), .nothing, .nothing,
        .nothing, .nothing]
    run.state.promoted = {7} ∧ run.state.dropped = {8} ∧ Settled run.state :=
  ⟨by decide, by decide, (prefetch_accounts _ _ _ _ _ _ _).2 rfl⟩

/-- Without a cache, no page was submitted to the reader twice, at any step of any query. -/
theorem reads_once (index : PageCache α D) (hdisabled : index.cacheEnabled = false)
    (page_reader : AsyncPageReader α) (page_count : ℕ) (config : PrefetchConfig)
    (calls : List SessionCall) (rounds : ℕ) (replies : List (Reply α)) :
    ∀ t ∈ ((query calls).run rounds
      (QueryPageSession.new index page_reader page_count config) replies).seen,
        t.submitted_reads.Nodup := by
  intro t ht
  have hquery := holds_query (inv_new index page_reader page_count config) calls rounds replies
  exact (hquery.1 t ht).reads_nodup hdisabled

/-- A batch whose second page is under way as a prefetch. -/
theorem reads_once_batch :
    let run := (query [.submitPrefetchPlan [8], .ensurePagesLoadedBatch [3, 8]]).run 3
      (@QueryPageSession.new ℕ ℕ
        { policy := { cache_score := fun _ => 0, page_hot_score := fun _ => 0 } }
        { status := { io_uring_enabled := true, depth := 4, batch_size := 2 } } 10
        { prefetch_policy := "xgboost", prefetch_width := 1, prefetch_depth := 2 })
      [.nothing, .nothing, .nothing, .nothing, .nothing, .completed 1 (.ok 0), .nothing,
        .nothing, .nothing, .nothing, .nothing, .completed 2 (.ok 0), .nothing, .nothing, .nothing]
    run.state.submitted_reads = [3, 8] ∧ ∀ t ∈ run.seen, t.submitted_reads.Nodup :=
  ⟨by decide, reads_once _ (by decide) _ _ _ _ _ _⟩

end Packed.PageIo
