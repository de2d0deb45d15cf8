import AgentAware.Packed.PageSession

/-!
# What a query keeps true of its pages

A prefetched page is under way, ready, used or dropped, and is counted once. A page that the reader
was asked for is under way, ready or in the session, so that nothing asks for it again.

## Main definitions

- `Sound` — what holds after every step of a query
- `Inv` — what holds between two calls of the session, `away` being the demand reads under way
- `Absent` — a page that is neither under way, nor ready, nor owned

## Main results

- `inv_read`, `inv_keepPage`, `inv_enterPrefetch`, `inv_takeReady` — a page moves from one place to
  another
- `inv_consume` — a completion arrives
-/

namespace Packed

section Cached

variable {α D : Type} {cache : PageCache α D} {page_id q : PageId}

theorem find_isSome_iff :
    (cache.find q).isSome ↔ q ∈ cache.page_cache.map CacheEntry.page_id := by
  simp [PageCache.find, List.find?_isSome]

theorem find_isSome_modify {change : CacheEntry α → CacheEntry α}
    (hid : ∀ entry : CacheEntry α, entry.page_id = page_id → (change entry).page_id = page_id) :
    ((cache.modify page_id change).find q).isSome = (cache.find q).isSome := by
  rw [find_modify hid, Option.isSome_map]

theorem find_isSome_lookup :
    ((cache.lookupCachedPage page_id).2.find q).isSome = (cache.find q).isSome := by
  rw [PageCache.lookupCachedPage]
  split
  · cases cache.find page_id with
    | none => rfl
    | some found => exact find_isSome_modify fun _ h => h
  · rfl

theorem lookup_isSome :
    (cache.lookupCachedPage page_id).1.isSome =
      (cache.cacheEnabled && (cache.find page_id).isSome) := by
  rw [PageCache.lookupCachedPage]
  split
  · next h => cases hf : cache.find page_id <;> simp [h]
  · next h => simp [h]

theorem lookup_of_none (h : (cache.lookupCachedPage page_id).1.isSome = false) :
    (cache.lookupCachedPage page_id).2 = cache := by
  rw [PageCache.lookupCachedPage] at h ⊢
  split at h
  · next he =>
    rw [if_pos he]
    cases hf : cache.find page_id with
    | none => rfl
    | some found => rw [hf] at h; simp at h
  · next he => rw [if_neg he]

theorem find_isSome_pin :
    ((cache.pinIfCached page_id).2.find q).isSome = (cache.find q).isSome := by
  rw [PageCache.pinIfCached]
  cases cache.find page_id with
  | none => rfl
  | some found => exact find_isSome_modify fun _ h => h

theorem policy_unpinEach (page_ids : List PageId) :
    (QueryPageSession.unpinEach cache page_ids).2.policy = cache.policy := by
  induction page_ids generalizing cache with
  | nil => rfl
  | cons page_id page_ids ih =>
    rw [QueryPageSession.unpinEach]
    cases hunpin : cache.unpinIfCached page_id with
    | error message => rfl
    | ok next => exact ih.trans (policy_unpin hunpin)

variable [LT D] [DecidableLT D] [DecidableEq D]

theorem find_isSome_evict (h : (cache.evictOnePage.2.find q).isSome) :
    (cache.find q).isSome := by
  rw [find_isSome_iff] at h ⊢
  rw [PageCache.evictOnePage] at h
  split at h
  · exact h
  · obtain ⟨entry, hentry, hid⟩ := List.mem_map.mp h
    exact List.mem_map.mpr ⟨entry, (List.mem_filter.mp hentry).1, hid⟩

theorem find_isSome_store (page : DecodedPage α)
    (h : ((cache.storeCachedPage page).find q).isSome) :
    q = page.page_id ∨ (cache.find q).isSome := by
  rw [PageCache.storeCachedPage] at h
  split at h
  · cases hfound : cache.find page.page_id with
    | some found =>
      rw [hfound] at h
      refine .inr ?_
      have hmodify := @find_isSome_modify α D cache page.page_id q (fun entry =>
        { cache.touch entry with page := page, hot_score := cache.policy.page_hot_score page })
        fun _ _ => rfl
      rw [← hmodify]
      exact h
    | none =>
      rw [hfound] at h
      dsimp only at h
      have happend : ∀ (other : PageCache α D) (entry : CacheEntry α) (clock : ℕ),
          ((PageCache.mk other.policy (other.page_cache ++ [entry]) clock).find q).isSome →
            q = entry.page_id ∨ (other.find q).isSome := by
        intro other entry clock hq
        rw [find_isSome_iff, List.map_append, List.mem_append] at hq
        rcases hq with hq | hq
        · exact .inr (find_isSome_iff.mpr hq)
        · exact .inl (by simpa using hq)
      split at h
      · split at h
        · exact (happend _ _ _ h).imp id find_isSome_evict
        · exact .inr (find_isSome_evict h)
      · exact happend _ _ _ h
  · exact .inr h

end Cached

namespace PageIo

variable {α D : Type}

/-- What holds after every step: the prefetch budget is kept and, without a cache, no page was
submitted twice. -/
structure Sound (enabled : Bool) (budget : ℕ) (s : QueryPageSession α D) : Prop where
  budget_eq : s.prefetch_budget_pages = budget
  enabled_eq : s.index.cacheEnabled = enabled
  within_budget : s.asyncPageFootprint ≤ budget
  reads_nodup : enabled = false → s.submitted_reads.Nodup

/-- Neither under way, nor ready, nor owned when there is no cache. -/
structure Absent (enabled : Bool) (s : QueryPageSession α D) (p : PageId) : Prop where
  not_pending : p ∉ s.pending_pages
  not_ready : p ∉ s.ready_prefetch_pages
  not_owned : enabled = false → p ∉ s.owned_pages

/-- Between two calls; `away` are the pages that a demand read is under way for. -/
structure Inv (enabled : Bool) (budget : ℕ) (away : Set PageId) (s : QueryPageSession α D) :
    Prop extends Sound enabled budget s where
  token_pending : ∀ t p, s.token_to_page.lookup t = some p → p ∈ s.pending_pages
  token_inj : ∀ t u p, s.token_to_page.lookup t = some p → s.token_to_page.lookup u = some p →
    t = u
  completed_ready : ∀ p, p ∈ s.completed_prefetch_pages ↔ p ∈ s.ready_prefetch_pages
  pending_not_ready : ∀ p ∈ s.pending_pages, p ∉ s.ready_prefetch_pages
  ready_not_cached : ∀ p ∈ s.ready_prefetch_pages, s.pageInCache p = false
  ready_id : ∀ p page, s.ready_prefetch_pages.lookup p = some page → page.page_id = p
  not_finished : s.finished = false
  submitted_count : s.stats.prefetch_submitted_pages = s.prefetched.card
  useful_count : s.stats.prefetch_useful_pages = s.promoted.card
  dropped_count : s.stats.prefetch_dropped = s.dropped.card
  fates : ∀ p, s.prefetched.count p = s.promoted.count p + s.dropped.count p +
    (if p ∈ s.pending_pages then 1 else 0) + if p ∈ s.ready_prefetch_pages then 1 else 0
  away_absent : ∀ p ∈ away, Absent enabled s p
  reads_held : enabled = false → ∀ p ∈ s.submitted_reads,
    p ∈ s.pending_pages ∨ p ∈ s.ready_prefetch_pages ∨ p ∈ s.owned_pages ∨ p ∈ away
  materialized_owned : enabled = false → ∀ p ∈ s.materialized_pages, p ∈ s.owned_pages
  held_not_owned : enabled = false →
    ∀ p, p ∈ s.pending_pages ∨ p ∈ s.ready_prefetch_pages → p ∉ s.owned_pages

variable {enabled : Bool} {budget : ℕ} {away : Set PageId} {s t : QueryPageSession α D}
  {p q : PageId}

/-- Reaping leaves absent pages absent and starts no prefetch. -/
structure Harvested (enabled : Bool) (s t : QueryPageSession α D) : Prop where
  absent : ∀ p, Absent enabled s p → Absent enabled t p
  footprint : t.asyncPageFootprint ≤ s.asyncPageFootprint
  same_owned : t.owned_pages = s.owned_pages

theorem Harvested.refl (s : QueryPageSession α D) : Harvested enabled s s :=
  ⟨fun _ h => h, le_rfl, rfl⟩

theorem Harvested.trans {u : QueryPageSession α D} (h : Harvested enabled s t)
    (h' : Harvested enabled t u) : Harvested enabled s u :=
  ⟨fun p hp => h'.absent p (h.absent p hp), h'.footprint.trans h.footprint,
    h'.same_owned.trans h.same_owned⟩

theorem not_read_of_absent (h : Inv enabled budget away s) (hp : Absent enabled s p)
    (haway : p ∉ away) (hdisabled : enabled = false) : p ∉ s.submitted_reads := by
  intro hmem
  rcases h.reads_held hdisabled p hmem with hp' | hp' | hp' | hp'
  · exact hp.not_pending hp'
  · exact hp.not_ready hp'
  · exact hp.not_owned hdisabled hp'
  · exact haway hp'

/-- The reader, and what only the statistics read, change on their own account. -/
theorem inv_counters (h : Inv enabled budget away s) (reader : AsyncPageReader α)
    (demand_inflight_pages : ℕ) (visited_pages demand_pages pending_hit_pages : Finset PageId)
    (demand_reads : ℕ) :
    Inv enabled budget away { s with
      page_reader := reader
      demand_inflight_pages := demand_inflight_pages
      visited_pages := visited_pages
      demand_pages := demand_pages
      pending_hit_pages := pending_hit_pages
      stats := { s.stats with demand_reads := demand_reads } } :=
  { h with
    away_absent := fun p hp => ⟨(h.away_absent p hp).1, (h.away_absent p hp).2,
      (h.away_absent p hp).3⟩ }

/-- A page that is absent is submitted to the reader. -/
theorem inv_read (h : Inv enabled budget away s) (hp : Absent enabled s p) (haway : p ∉ away)
    (reader : AsyncPageReader α) :
    Inv enabled budget (insert p away)
      { s with page_reader := reader, submitted_reads := p :: s.submitted_reads } where
  budget_eq := h.budget_eq
  enabled_eq := h.enabled_eq
  within_budget := h.within_budget
  reads_nodup := fun hdisabled => List.nodup_cons.mpr
    ⟨not_read_of_absent h hp haway hdisabled, h.reads_nodup hdisabled⟩
  token_pending := h.token_pending
  token_inj := h.token_inj
  completed_ready := h.completed_ready
  pending_not_ready := h.pending_not_ready
  ready_not_cached := h.ready_not_cached
  ready_id := h.ready_id
  not_finished := h.not_finished
  submitted_count := h.submitted_count
  useful_count := h.useful_count
  dropped_count := h.dropped_count
  fates := h.fates
  away_absent := by
    rintro q (rfl | hq)
    · exact ⟨hp.1, hp.2, hp.3⟩
    · exact ⟨(h.away_absent q hq).1, (h.away_absent q hq).2, (h.away_absent q hq).3⟩
  reads_held := by
    intro hdisabled q hq
    rcases List.mem_cons.mp hq with rfl | hq
    · exact .inr (.inr (.inr (Set.mem_insert q away)))
    · exact (h.reads_held hdisabled q hq).imp id (Or.imp id (Or.imp id (Or.inr)))
  materialized_owned := h.materialized_owned
  held_not_owned := h.held_not_owned

/-- A page that is owned, or found in the cache, is materialized. -/
theorem inv_materialize (h : Inv enabled budget away s)
    (hp : enabled = false → p ∈ s.owned_pages) :
    Inv enabled budget away (s.materializePage p) :=
  { h with
    away_absent := fun q hq => ⟨(h.away_absent q hq).1, (h.away_absent q hq).2,
      (h.away_absent q hq).3⟩
    materialized_owned := by
      intro hdisabled q hq
      rcases Finset.mem_insert.mp hq with rfl | hq
      · exact hp hdisabled
      · exact h.materialized_owned hdisabled q hq }

/-- A completed read of a page leaves the reader and is kept. -/
theorem inv_keepPage [LT D] [DecidableLT D] [DecidableEq D] (h : Inv enabled budget away s)
    (hp : Absent enabled s p) (page : DecodedPage α) (hid : page.page_id = p) :
    Inv enabled budget (away \ {p}) ((s.keepPage p page).materializePage p) := by
  unfold QueryPageSession.keepPage
  split
  · next hcache =>
    have htrue : enabled = true := h.enabled_eq ▸ hcache
    subst htrue
    -- the cache takes the page; it may give up others, but those were not ready
    have hstore : Inv true budget away { s with index := s.index.storeCachedPage page } :=
      { h with
        enabled_eq := by
          rw [← h.enabled_eq]
          simp only [PageCache.cacheEnabled, policy_store]
        away_absent := fun q hq => ⟨(h.away_absent q hq).1, (h.away_absent q hq).2,
          (h.away_absent q hq).3⟩
        ready_not_cached := by
          intro q hq
          have hbefore := h.ready_not_cached q hq
          simp only [QueryPageSession.pageInCache, Bool.and_eq_false_iff] at hbefore ⊢
          refine .inr ?_
          by_contra hfind
          rw [Bool.not_eq_false] at hfind
          rcases find_isSome_store page hfind with hq' | hq'
          · exact hp.not_ready (hid ▸ hq' ▸ hq)
          · rcases hbefore with hbefore | hbefore
            · exact Bool.false_ne_true (hbefore.symm.trans h.enabled_eq)
            · exact Bool.false_ne_true (hbefore.symm.trans hq') }
    have hmaterialized := inv_materialize (p := p) hstore nofun
    exact { hmaterialized with
      away_absent := fun q hq => hmaterialized.away_absent q hq.1
      reads_held := nofun }
  · next hcache =>
    have hfalse : enabled = false := by
      rw [← h.enabled_eq]
      simpa using hcache
    subst hfalse
    -- the session takes the page, which now answers for its read
    have howned : ∀ q, q ∈ s.owned_pages.insert p page ↔ q = p ∨ q ∈ s.owned_pages :=
      fun q => AList.mem_insert _
    exact { h with
      reads_nodup := h.reads_nodup
      away_absent := fun q hq => ⟨(h.away_absent q hq.1).1, (h.away_absent q hq.1).2,
        fun hdisabled hmem => by
          rcases (howned q).mp hmem with rfl | hmem
          · exact hq.2 rfl
          · exact (h.away_absent q hq.1).3 hdisabled hmem⟩
      reads_held := by
        intro hdisabled q hq
        by_cases hqp : q = p
        · exact .inr (.inr (.inl ((howned q).mpr (.inl hqp))))
        · rcases h.reads_held hdisabled q hq with hq | hq | hq | hq
          · exact .inl hq
          · exact .inr (.inl hq)
          · exact .inr (.inr (.inl ((howned q).mpr (.inr hq))))
          · exact .inr (.inr (.inr ⟨hq, hqp⟩))
      materialized_owned := by
        intro hdisabled q hq
        refine (howned q).mpr ?_
        rcases Finset.mem_insert.mp hq with rfl | hq
        · exact .inl rfl
        · exact .inr (h.materialized_owned hdisabled q hq)
      held_not_owned := by
        intro hdisabled q hq hmem
        rcases (howned q).mp hmem with rfl | hmem
        · exact hq.elim hp.not_pending hp.not_ready
        · exact h.held_not_owned hdisabled q hq hmem }

/-- Only what is known of the cached pages matters. -/
theorem inv_index (h : Inv enabled budget away s) {index : PageCache α D}
    (hpolicy : index.policy = s.index.policy)
    (hfind : ∀ q, (index.find q).isSome = (s.index.find q).isSome) :
    Inv enabled budget away { s with index := index } :=
  { h with
    enabled_eq := by
      rw [← h.enabled_eq]
      simp only [PageCache.cacheEnabled, hpolicy]
    away_absent := fun q hq => ⟨(h.away_absent q hq).1, (h.away_absent q hq).2,
      (h.away_absent q hq).3⟩
    ready_not_cached := by
      intro q hq
      have hbefore := h.ready_not_cached q hq
      simp only [QueryPageSession.pageInCache, PageCache.cacheEnabled] at hbefore ⊢
      rw [hpolicy, hfind]
      exact hbefore }

theorem tryGetCachedPage_cached (h : Inv enabled budget away s) (hcached : s.pageInCache p) :
    s.tryGetCachedPage p = ((s.index.lookupCachedPage p).1,
      { s with index := (s.index.lookupCachedPage p).2 }) := by
  have hready : p ∉ s.ready_prefetch_pages := by
    intro hp
    exact Bool.false_ne_true ((h.ready_not_cached p hp).symm.trans hcached)
  have hcompleted : p ∉ s.completed_prefetch_pages := fun hp =>
    hready ((h.completed_ready p).mp hp)
  have hsome : (s.index.lookupCachedPage p).1.isSome = true := lookup_isSome.trans hcached
  simp only [QueryPageSession.tryGetCachedPage, hsome, if_true]
  rw [QueryPageSession.markPrefetchUsed, if_neg hcompleted]

theorem tryGetCachedPage_missing (hmissing : s.pageInCache p = false) :
    s.tryGetCachedPage p = (none, s) := by
  have hnone : (s.index.lookupCachedPage p).1.isSome = false := lookup_isSome.trans hmissing
  simp only [QueryPageSession.tryGetCachedPage, hnone, lookup_of_none hnone]
  rfl

theorem takeReady_none [LT D] [DecidableLT D] [DecidableEq D]
    (hp : p ∉ s.ready_prefetch_pages) : s.takeReadyPrefetchPage p = (none, s) := by
  rw [QueryPageSession.takeReadyPrefetchPage, AList.lookup_eq_none.mpr hp]

theorem length_keys_erase {κ β : Type} [DecidableEq κ] {m : AList (fun _ : κ => β)} {k : κ}
    (hk : k ∈ m) : (m.erase k).keys.length + 1 = m.keys.length := by
  have hpos : 0 < m.keys.length := List.length_pos_of_mem hk
  rw [AList.keys_erase, List.length_erase_of_mem hk]
  omega

theorem length_keys_insert {κ β : Type} [DecidableEq κ] {m : AList (fun _ : κ => β)} {k : κ}
    {b : β} (hk : k ∉ m) : (m.insert k b).keys.length = m.keys.length + 1 := by
  rw [AList.keys_insert, List.length_cons, List.erase_of_not_mem hk]

/-- A ready page on its way into the session. -/
theorem inv_promote (h : Inv enabled budget away s) (hp : p ∈ s.ready_prefetch_pages) :
    Inv enabled budget (insert p away)
      { s with
        pending_hit_pages := s.pending_hit_pages.erase p
        completed_prefetch_pages := s.completed_prefetch_pages.erase p
        promoted := p ::ₘ s.promoted
        stats := { s.stats with
          prefetch_useful_pages := s.stats.prefetch_useful_pages + 1
          prefetch_promoted := s.stats.prefetch_promoted + 1 }
        ready_prefetch_pages := s.ready_prefetch_pages.erase p } := by
  have hlength := length_keys_erase hp
  have hbudget := h.within_budget
  simp only [QueryPageSession.asyncPageFootprint] at hbudget
  exact { h with
    reads_nodup := h.reads_nodup
    within_budget := by
      simp only [QueryPageSession.asyncPageFootprint]
      omega
    completed_ready := by
      intro q
      rw [Finset.mem_erase, AList.mem_erase, h.completed_ready q]
    pending_not_ready := fun q hq hmem =>
      h.pending_not_ready q hq (AList.mem_erase.mp hmem).2
    ready_not_cached := fun q hq => h.ready_not_cached q (AList.mem_erase.mp hq).2
    ready_id := by
      intro q page hlookup
      by_cases hq : q = p
      · subst hq
        rw [AList.lookup_erase] at hlookup
        cases hlookup
      · rw [AList.lookup_erase_ne hq] at hlookup
        exact h.ready_id q page hlookup
    useful_count := by rw [Multiset.card_cons, ← h.useful_count]
    fates := by
      intro q
      have hfate := h.fates q
      -- one of the pages moves from the ready ones to the promoted ones
      change s.prefetched.count q = (p ::ₘ s.promoted).count q + s.dropped.count q +
        (if q ∈ s.pending_pages then 1 else 0) +
          if q ∈ s.ready_prefetch_pages.erase p then 1 else 0
      by_cases hqp : q = p
      · subst hqp
        have hgone : q ∉ s.ready_prefetch_pages.erase q := fun hmem => (AList.mem_erase.mp hmem).1 rfl
        rw [if_pos hp] at hfate
        rw [Multiset.count_cons_self, if_neg hgone]
        omega
      · have hsame : q ∈ s.ready_prefetch_pages.erase p ↔ q ∈ s.ready_prefetch_pages := by
          rw [AList.mem_erase, and_iff_right hqp]
        rw [Multiset.count_cons_of_ne hqp, if_congr hsame rfl rfl]
        exact hfate
    away_absent := by
      rintro q (rfl | hq)
      · exact ⟨fun hq => h.pending_not_ready q hq hp,
          fun hmem => (AList.mem_erase.mp hmem).1 rfl,
          fun hdisabled => h.held_not_owned hdisabled q (.inr hp)⟩
      · exact ⟨(h.away_absent q hq).1,
          fun hmem => (h.away_absent q hq).2 (AList.mem_erase.mp hmem).2,
          (h.away_absent q hq).3⟩
    reads_held := by
      intro hdisabled q hq
      by_cases hqp : q = p
      · exact .inr (.inr (.inr (.inl hqp)))
      · rcases h.reads_held hdisabled q hq with hq | hq | hq | hq
        · exact .inl hq
        · exact .inr (.inl (AList.mem_erase.mpr ⟨hqp, hq⟩))
        · exact .inr (.inr (.inl hq))
        · exact .inr (.inr (.inr (.inr hq)))
    held_not_owned := by
      intro hdisabled q hq
      refine h.held_not_owned hdisabled q ?_
      exact hq.imp id fun hmem => (AList.mem_erase.mp hmem).2 }

/-- What a step that looks for a page does: the page is found, or it is nowhere and nothing
changes. -/
structure Found (enabled : Bool) (budget : ℕ) (away : Set PageId) (s : QueryPageSession α D)
    (p : PageId) (found : Bool) (t : QueryPageSession α D) : Prop where
  inv : Inv enabled budget away t
  absent : ∀ q, q ≠ p → Absent enabled s q → Absent enabled t q
  missing : found = false → t = s ∧ p ∉ s.ready_prefetch_pages

theorem found_cached (h : Inv enabled budget away s) (hcached : s.pageInCache p) :
    (s.tryGetCachedPage p).1.isSome = true ∧
      Found enabled budget away s p true ((s.tryGetCachedPage p).2.materializePage p) := by
  rw [tryGetCachedPage_cached h hcached]
  refine ⟨lookup_isSome.trans hcached, ?_, fun q _ hq => ⟨hq.1, hq.2, hq.3⟩, nofun⟩
  refine inv_materialize (inv_index h policy_lookup fun q => find_isSome_lookup) fun hdisabled => ?_
  have henabled : s.index.cacheEnabled = true := (Bool.and_eq_true _ _ ▸ hcached).1
  exact absurd (h.enabled_eq.symm.trans henabled) (by simp [hdisabled])

section Take

variable [LT D] [DecidableLT D] [DecidableEq D]

theorem absent_keepPage {page : DecodedPage α} (hq : Absent enabled s q) (hne : q ≠ p) :
    Absent enabled ((s.keepPage p page).materializePage p) q := by
  unfold QueryPageSession.keepPage
  split
  · exact ⟨hq.1, hq.2, hq.3⟩
  · refine ⟨hq.1, hq.2, fun hdisabled hmem => ?_⟩
    rcases (AList.mem_insert s.owned_pages).mp hmem with rfl | hmem
    · exact hne rfl
    · exact hq.3 hdisabled hmem

theorem found_takeReady (h : Inv enabled budget away s) (hp : p ∈ s.ready_prefetch_pages) :
    (s.takeReadyPrefetchPage p).1.isSome = true ∧
      Found enabled budget away s p true ((s.takeReadyPrefetchPage p).2.materializePage p) := by
  obtain ⟨page, hpage⟩ := Option.isSome_iff_exists.mp (AList.lookup_isSome.mpr hp)
  have hcompleted : p ∈ s.completed_prefetch_pages := (h.completed_ready p).mpr hp
  have haway : p ∉ away := fun hmem => (h.away_absent p hmem).not_ready hp
  have hpromote := inv_promote h hp
  have hkeep := inv_keepPage hpromote (hpromote.away_absent p (Set.mem_insert p away)) page
    (h.ready_id p page hpage)
  rw [Set.insert_sdiff_self_of_notMem haway] at hkeep
  simp only [QueryPageSession.takeReadyPrefetchPage, hpage, QueryPageSession.markPrefetchUsed,
    hcompleted, if_true]
  refine ⟨rfl, hkeep, fun q hne hq => ?_, nofun⟩
  refine absent_keepPage ⟨hq.1, fun hmem => ?_, hq.3⟩ hne
  exact hq.2 (AList.mem_erase.mp hmem).2

theorem found_takePage (h : Inv enabled budget away s) :
    Found enabled budget away s p (takePage p s).1.isSome (takePage p s).2 := by
  by_cases hcached : s.pageInCache p = true
  · have hfound := found_cached h hcached
    simp only [takePage, hfound.1, if_true]
    exact hfound.2
  · rw [Bool.not_eq_true] at hcached
    simp only [takePage, tryGetCachedPage_missing hcached, Option.isSome_none,
      Bool.false_eq_true, if_false]
    by_cases hready : p ∈ s.ready_prefetch_pages
    · have hfound := found_takeReady h hready
      simp only [hfound.1, if_true]
      exact hfound.2
    · rw [takeReady_none hready]
      exact ⟨h, fun q _ hq => hq, fun _ => ⟨rfl, hready⟩⟩

theorem found_materializeAvailable (h : Inv enabled budget away s) :
    Found enabled budget away s p (s.materializeAvailablePage p).1
        (s.materializeAvailablePage p).2 ∧
      ((s.materializeAvailablePage p).1 = false → p ∉ s.owned_pages) := by
  rw [QueryPageSession.materializeAvailablePage]
  -- in the order of the source: owned, materialized, cached, ready
  by_cases howned : p ∈ s.owned_pages
  · rw [if_pos howned]
    exact ⟨⟨inv_materialize h fun _ => howned, fun q _ hq => ⟨hq.1, hq.2, hq.3⟩, nofun⟩, nofun⟩
  · rw [if_neg howned]
    by_cases hmaterialized : p ∈ s.materialized_pages
    · rw [if_pos hmaterialized]
      exact ⟨⟨h, fun q _ hq => hq, nofun⟩, nofun⟩
    · rw [if_neg hmaterialized]
      refine ⟨?_, fun _ => howned⟩
      by_cases hcached : s.pageInCache p = true
      · have hfound := found_cached h hcached
        simp only [hfound.1, if_true]
        exact hfound.2
      · rw [Bool.not_eq_true] at hcached
        simp only [tryGetCachedPage_missing hcached, Option.isSome_none, Bool.false_eq_true,
          if_false]
        by_cases hready : p ∈ s.ready_prefetch_pages
        · have hfound := found_takeReady h hready
          simp only [hfound.1, if_true]
          exact hfound.2
        · rw [takeReady_none hready]
          exact ⟨h, fun q _ hq => hq, fun _ => ⟨rfl, hready⟩⟩

end Take

section Complete

variable {token : Token}

theorem footprint_completeToken (h : Inv enabled budget away s)
    (htoken : s.token_to_page.lookup token = some p) :
    (completeToken token p s).asyncPageFootprint + 1 = s.asyncPageFootprint := by
  have hcard := Finset.card_erase_add_one (h.token_pending token p htoken)
  simp only [completeToken, QueryPageSession.asyncPageFootprint]
  omega

theorem sound_completeToken (h : Inv enabled budget away s)
    (htoken : s.token_to_page.lookup token = some p) :
    Sound enabled budget (completeToken token p s) where
  budget_eq := h.budget_eq
  enabled_eq := h.enabled_eq
  within_budget := by
    have hfootprint := footprint_completeToken h htoken
    have hbudget := h.within_budget
    omega
  reads_nodup := h.reads_nodup

/-- The tokens that are left belong to the pages that are left. -/
theorem lookup_completeToken (h : Inv enabled budget away s)
    (htoken : s.token_to_page.lookup token = some p) {u : Token}
    (hlookup : (s.token_to_page.erase token).lookup u = some q) :
    s.token_to_page.lookup u = some q ∧ q ∈ s.pending_pages.erase p := by
  by_cases hu : u = token
  · subst hu
    rw [AList.lookup_erase] at hlookup
    cases hlookup
  · rw [AList.lookup_erase_ne hu] at hlookup
    refine ⟨hlookup, Finset.mem_erase.mpr ⟨?_, h.token_pending u q hlookup⟩⟩
    rintro rfl
    exact hu (h.token_inj u token q hlookup htoken)

/-- Without a cache, a page that was under way is not there yet. -/
theorem not_there_of_pending (h : Inv enabled budget away s) (hp : p ∈ s.pending_pages)
    (hdisabled : enabled = false) :
    (s.pageReadyInSession p || s.pageInCache p) = false := by
  have howned : p ∉ s.owned_pages := h.held_not_owned hdisabled p (.inl hp)
  have hmaterialized : p ∉ s.materialized_pages := fun hmem =>
    howned (h.materialized_owned hdisabled p hmem)
  have hready : p ∉ s.ready_prefetch_pages := h.pending_not_ready p hp
  have hcache : s.index.cacheEnabled = false := h.enabled_eq.trans hdisabled
  simp [QueryPageSession.pageReadyInSession, QueryPageSession.pageInCache, howned, hmaterialized,
    hready, hcache]

theorem inv_lateHit (h : Inv enabled budget away s)
    (htoken : s.token_to_page.lookup token = some p)
    (hthere : (s.pageReadyInSession p || s.pageInCache p) = true) :
    Inv enabled budget away (dropLateHit p (completeToken token p s)) := by
  have hp : p ∈ s.pending_pages := h.token_pending token p htoken
  -- without a cache nothing else can have brought the page
  have henabled : enabled = true := by
    by_contra hne
    rw [Bool.not_eq_true] at hne
    exact Bool.false_ne_true ((not_there_of_pending h hp hne).symm.trans hthere)
  subst henabled
  have hsound := sound_completeToken h htoken
  exact { h with
    within_budget := hsound.within_budget
    reads_nodup := h.reads_nodup
    token_pending := fun u q hlookup => (lookup_completeToken h htoken hlookup).2
    token_inj := fun u v q hu hv => h.token_inj u v q (lookup_completeToken h htoken hu).1
      (lookup_completeToken h htoken hv).1
    pending_not_ready := fun q hq => h.pending_not_ready q (Finset.mem_of_mem_erase hq)
    dropped_count := by
      change s.stats.prefetch_dropped + 1 = (p ::ₘ s.dropped).card
      rw [Multiset.card_cons, ← h.dropped_count]
    fates := by
      intro q
      have hfate := h.fates q
      -- from the pages under way to the dropped ones
      change s.prefetched.count q = s.promoted.count q + (p ::ₘ s.dropped).count q +
        (if q ∈ s.pending_pages.erase p then 1 else 0) +
          if q ∈ s.ready_prefetch_pages then 1 else 0
      by_cases hqp : q = p
      · subst hqp
        rw [if_pos hp] at hfate
        rw [Multiset.count_cons_self, if_neg (Finset.notMem_erase q s.pending_pages)]
        omega
      · have hsame : q ∈ s.pending_pages.erase p ↔ q ∈ s.pending_pages := by
          rw [Finset.mem_erase, and_iff_right hqp]
        rw [Multiset.count_cons_of_ne hqp, if_congr hsame rfl rfl]
        exact hfate
    away_absent := fun q hq =>
      ⟨fun hmem => (h.away_absent q hq).1 (Finset.mem_of_mem_erase hmem),
        (h.away_absent q hq).2, nofun⟩
    reads_held := nofun
    materialized_owned := nofun
    held_not_owned := nofun }

theorem keepReady_eq (h : Inv enabled budget away s)
    (htoken : s.token_to_page.lookup token = some p) (page : DecodedPage α) :
    keepReady true p page (completeToken token p s) =
      { completeToken token p s with
        completed_prefetch_pages := insert p s.completed_prefetch_pages
        ready_prefetch_pages := s.ready_prefetch_pages.insert p page } := by
  have hfootprint := footprint_completeToken h htoken
  -- the read has just left the footprint, so its page fits
  have hroom : s.ready_prefetch_pages.keys.length < s.prefetch_budget_pages := by
    have hbudget := h.within_budget
    have hbudget_eq := h.budget_eq
    simp only [completeToken, QueryPageSession.asyncPageFootprint] at hfootprint hbudget
    omega
  have hkeep : (true && decide (s.ready_prefetch_pages.keys.length < s.prefetch_budget_pages)) =
      true := by simpa using hroom
  exact if_pos hkeep

theorem inv_ready (h : Inv enabled budget away s)
    (htoken : s.token_to_page.lookup token = some p)
    (hmissing : (s.pageReadyInSession p || s.pageInCache p) = false) (page : DecodedPage α)
    (hid : page.page_id = p) :
    Inv enabled budget away (keepReady true p page (completeToken token p s)) ∧
      (keepReady true p page (completeToken token p s)).asyncPageFootprint =
        s.asyncPageFootprint := by
  have hp : p ∈ s.pending_pages := h.token_pending token p htoken
  have hready : p ∉ s.ready_prefetch_pages := h.pending_not_ready p hp
  have hlength := length_keys_insert (b := page) hready
  have hcard := Finset.card_erase_add_one hp
  have hbudget := h.within_budget
  rw [Bool.or_eq_false_iff] at hmissing
  rw [keepReady_eq h htoken page]
  have hfootprint : QueryPageSession.asyncPageFootprint
      { completeToken token p s with
        completed_prefetch_pages := insert p s.completed_prefetch_pages
        ready_prefetch_pages := s.ready_prefetch_pages.insert p page } =
      s.asyncPageFootprint := by
    simp only [completeToken, QueryPageSession.asyncPageFootprint]
    omega
  refine ⟨?_, hfootprint⟩
  have hmem : ∀ q, q ∈ s.ready_prefetch_pages.insert p page ↔
      q = p ∨ q ∈ s.ready_prefetch_pages := fun q => AList.mem_insert _
  exact { h with
    within_budget := hfootprint.trans_le hbudget
    reads_nodup := h.reads_nodup
    token_pending := fun u q hlookup => (lookup_completeToken h htoken hlookup).2
    token_inj := fun u v q hu hv => h.token_inj u v q (lookup_completeToken h htoken hu).1
      (lookup_completeToken h htoken hv).1
    completed_ready := by
      intro q
      rw [Finset.mem_insert, hmem, h.completed_ready q]
    pending_not_ready := by
      intro q hq hmem'
      have hq' := Finset.mem_erase.mp hq
      rcases (hmem q).mp hmem' with rfl | hmem'
      · exact hq'.1 rfl
      · exact h.pending_not_ready q hq'.2 hmem'
    ready_not_cached := by
      intro q hq
      rcases (hmem q).mp hq with rfl | hq
      · exact hmissing.2
      · exact h.ready_not_cached q hq
    ready_id := by
      intro q other hlookup
      by_cases hq : q = p
      · subst hq
        rw [AList.lookup_insert] at hlookup
        cases hlookup
        exact hid
      · rw [AList.lookup_insert_ne hq] at hlookup
        exact h.ready_id q other hlookup
    fates := by
      intro q
      have hfate := h.fates q
      -- from the pages under way to the ready ones
      change s.prefetched.count q = s.promoted.count q + s.dropped.count q +
        (if q ∈ s.pending_pages.erase p then 1 else 0) +
          if q ∈ s.ready_prefetch_pages.insert p page then 1 else 0
      by_cases hqp : q = p
      · subst hqp
        rw [if_pos hp, if_neg hready] at hfate
        rw [if_neg (Finset.notMem_erase q s.pending_pages), if_pos ((hmem q).mpr (.inl rfl))]
        exact hfate
      · have hpending : q ∈ s.pending_pages.erase p ↔ q ∈ s.pending_pages := by
          rw [Finset.mem_erase, and_iff_right hqp]
        have hsame : q ∈ s.ready_prefetch_pages.insert p page ↔ q ∈ s.ready_prefetch_pages := by
          rw [hmem, or_iff_right hqp]
        rw [if_congr hpending rfl rfl, if_congr hsame rfl rfl]
        exact hfate
    away_absent := by
      intro q hq
      have habsent := h.away_absent q hq
      refine ⟨fun hmem' => habsent.1 (Finset.mem_of_mem_erase hmem'), fun hmem' => ?_, habsent.3⟩
      rcases (hmem q).mp hmem' with rfl | hmem'
      · exact habsent.1 hp
      · exact habsent.2 hmem'
    reads_held := by
      intro hdisabled q hq
      by_cases hqp : q = p
      · exact .inr (.inl ((hmem q).mpr (.inl hqp)))
      · rcases h.reads_held hdisabled q hq with hq | hq | hq | hq
        · exact .inl (Finset.mem_erase.mpr ⟨hqp, hq⟩)
        · exact .inr (.inl ((hmem q).mpr (.inr hq)))
        · exact .inr (.inr (.inl hq))
        · exact .inr (.inr (.inr hq))
    held_not_owned := by
      intro hdisabled q hq
      refine h.held_not_owned hdisabled q ?_
      rcases hq with hq | hq
      · exact .inl (Finset.mem_of_mem_erase hq)
      · rcases (hmem q).mp hq with rfl | hq
        · exact .inl hp
        · exact .inr hq }

theorem absent_lateHit (hq : Absent enabled s q) :
    Absent enabled (dropLateHit p (completeToken token p s)) q :=
  ⟨fun hmem => hq.1 (Finset.mem_of_mem_erase hmem), hq.2, hq.3⟩

theorem absent_keepReady (h : Inv enabled budget away s)
    (htoken : s.token_to_page.lookup token = some p) (page : DecodedPage α)
    (hq : Absent enabled s q) :
    Absent enabled (keepReady true p page (completeToken token p s)) q := by
  have hne : q ≠ p := by
    rintro rfl
    exact hq.1 (h.token_pending token q htoken)
  rw [keepReady_eq h htoken page]
  refine ⟨fun hmem => hq.1 (Finset.mem_of_mem_erase hmem), fun hmem => ?_, hq.3⟩
  rcases (AList.mem_insert s.ready_prefetch_pages).mp hmem with hmem | hmem
  · exact hne hmem
  · exact hq.2 hmem

end Complete

/-- The reader has accepted a prefetch of a page that was absent. -/
theorem inv_enterPrefetch (h : Inv enabled budget away s) {token : Token} (hp : p ∈ away)
    (hroom : s.asyncPageFootprint + 1 ≤ budget) :
    Inv enabled budget (away \ {p}) (enterPrefetch (p, token) s) ∧
      (enterPrefetch (p, token) s).asyncPageFootprint = s.asyncPageFootprint + 1 := by
  have habsent := h.away_absent p hp
  have hcard := Finset.card_insert_of_notMem habsent.not_pending
  have hfootprint : (enterPrefetch (p, token) s).asyncPageFootprint =
      s.asyncPageFootprint + 1 := by
    simp only [enterPrefetch, QueryPageSession.asyncPageFootprint]
    omega
  refine ⟨?_, hfootprint⟩
  -- no other token leads to the page, which was not pending
  have hlookup : ∀ u q, (s.token_to_page.insert token p).lookup u = some q →
      (u = token ∧ q = p) ∨ (u ≠ token ∧ q ≠ p ∧ s.token_to_page.lookup u = some q) := by
    intro u q hq
    by_cases hu : u = token
    · subst hu
      rw [AList.lookup_insert] at hq
      cases hq
      exact .inl ⟨rfl, rfl⟩
    · rw [AList.lookup_insert_ne hu] at hq
      refine .inr ⟨hu, ?_, hq⟩
      rintro rfl
      exact habsent.not_pending (h.token_pending u q hq)
  exact { h with
    within_budget := hfootprint.trans_le hroom
    reads_nodup := h.reads_nodup
    token_pending := by
      intro u q hq
      rcases hlookup u q hq with ⟨-, rfl⟩ | ⟨-, -, hq⟩
      · exact Finset.mem_insert_self q s.pending_pages
      · exact Finset.mem_insert_of_mem (h.token_pending u q hq)
    token_inj := by
      intro u v q hu hv
      rcases hlookup u q hu with ⟨rfl, rfl⟩ | ⟨-, hne, hu⟩
      · rcases hlookup v q hv with ⟨rfl, -⟩ | ⟨-, hne, -⟩
        · rfl
        · exact absurd rfl hne
      · rcases hlookup v q hv with ⟨-, rfl⟩ | ⟨-, -, hv⟩
        · exact absurd rfl hne
        · exact h.token_inj u v q hu hv
    pending_not_ready := by
      intro q hq
      rcases Finset.mem_insert.mp hq with rfl | hq
      · exact habsent.not_ready
      · exact h.pending_not_ready q hq
    submitted_count := by
      change s.stats.prefetch_submitted_pages + 1 = (p ::ₘ s.prefetched).card
      rw [Multiset.card_cons, ← h.submitted_count]
    fates := by
      intro q
      have hfate := h.fates q
      -- one prefetch more, and it is under way
      change (p ::ₘ s.prefetched).count q = s.promoted.count q + s.dropped.count q +
        (if q ∈ insert p s.pending_pages then 1 else 0) +
          if q ∈ s.ready_prefetch_pages then 1 else 0
      by_cases hqp : q = p
      · subst hqp
        rw [if_neg habsent.not_pending] at hfate
        rw [Multiset.count_cons_self, if_pos (Finset.mem_insert_self q s.pending_pages)]
        omega
      · have hsame : q ∈ insert p s.pending_pages ↔ q ∈ s.pending_pages := by
          rw [Finset.mem_insert, or_iff_right hqp]
        rw [Multiset.count_cons_of_ne hqp, if_congr hsame rfl rfl]
        exact hfate
    away_absent := by
      intro q hq
      have habsent' := h.away_absent q hq.1
      refine ⟨fun hmem => ?_, habsent'.2, habsent'.3⟩
      rcases Finset.mem_insert.mp hmem with rfl | hmem
      · exact hq.2 rfl
      · exact habsent'.1 hmem
    reads_held := by
      intro hdisabled q hq
      by_cases hqp : q = p
      · exact .inl (hqp ▸ Finset.mem_insert_self p s.pending_pages)
      · rcases h.reads_held hdisabled q hq with hq | hq | hq | hq
        · exact .inl (Finset.mem_insert_of_mem hq)
        · exact .inr (.inl hq)
        · exact .inr (.inr (.inl hq))
        · exact .inr (.inr (.inr ⟨hq, hqp⟩))
    held_not_owned := by
      intro hdisabled q hq
      rcases hq with hq | hq
      · rcases Finset.mem_insert.mp hq with rfl | hq
        · exact habsent.not_owned hdisabled
        · exact h.held_not_owned hdisabled q (.inl hq)
      · exact h.held_not_owned hdisabled q (.inr hq) }

end PageIo

end Packed
