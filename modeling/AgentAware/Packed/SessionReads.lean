import AgentAware.Packed.SessionInvariant

/-!
# Completions and prefetches of a query

Taking completions, submitting reads and prefetching keep the invariant of `SessionInvariant`,
whatever the reader answers.

## Main results

- `holds_harvestPrefetch`, `holds_waitForPrefetchPage` — taking completions
- `holds_batchSubmit` — submitting reads
- `holds_submitPrefetchPlan`, `holds_drainReadyPages` — prefetching
-/

namespace Packed.PageIo

open Interaction

variable {α D : Type} {enabled : Bool} {budget : ℕ} {away : Set PageId}
  {s t : QueryPageSession α D} {p q : PageId}

section Reap

theorem holds_mayFail {J : QueryPageSession α D → Prop} {Q : Unit → QueryPageSession α D → Prop}
    (h : Q () s) : Holds J mayFail Q s := by
  apply holds_bind
  apply holds_ask
  intro reply
  cases reply with
  | nothing => exact holds_pure.mpr h
  | completed token page => exact holds_pure.mpr h
  | failed token reason => exact holds_throw

theorem holds_submitAsyncReads {J : QueryPageSession α D → Prop}
    {Q : Unit → QueryPageSession α D → Prop} (h : Q () s) : Holds J submitAsyncReads Q s := by
  apply holds_bind
  rw [holds_get]
  apply holds_ite
  · intro _
    exact holds_mayFail h
  · intro _
    exact holds_pure.mpr h

/-- What taking completions leaves behind. -/
structure Reaped (enabled : Bool) (budget : ℕ) (away : Set PageId)
    (s t : QueryPageSession α D) : Prop where
  inv : Inv enabled budget away t
  harvested : Harvested enabled s t

theorem Reaped.trans {u : QueryPageSession α D} (h : Reaped enabled budget away s t)
    (h' : Reaped enabled budget away t u) : Reaped enabled budget away s u :=
  ⟨h'.inv, h.harvested.trans h'.harvested⟩

theorem reaped_reader (h : Inv enabled budget away s) (reader : AsyncPageReader α) :
    Reaped enabled budget away s { s with page_reader := reader } :=
  ⟨inv_counters h reader _ _ _ _ _, fun _ hp => ⟨hp.1, hp.2, hp.3⟩, le_rfl, rfl⟩

theorem holds_reapAsyncRead (h : Inv enabled budget away s) :
    Holds (Sound enabled budget) reapAsyncRead (fun _ t => Reaped enabled budget away s t) s := by
  apply holds_bind
  rw [holds_get]
  -- reads without `io_uring` come first, in the order of their submission
  cases s.page_reader.inline_completions with
  | cons completed rest =>
    apply holds_bind
    rw [holds_change]
    have hreaped := reaped_reader h { s.page_reader with inline_completions := rest }
    exact ⟨hreaped.inv.toSound, holds_pure.mpr hreaped⟩
  | nil =>
    apply holds_ite
    · intro _
      apply holds_bind
      apply holds_ask
      intro reply
      cases reply with
      | nothing => exact holds_pure.mpr ⟨h, .refl s⟩
      | failed token reason =>
        cases token with
        | none => exact holds_throw
        | some token =>
          apply holds_ite
          · intro _
            apply holds_bind
            rw [holds_change]
            exact ⟨(reaped_reader h _).inv.toSound, holds_throw⟩
          · intro _
            exact holds_throw
      | completed token page =>
        apply holds_ite
        · intro _
          apply holds_bind
          rw [holds_change]
          have hreaped := reaped_reader h
            { s.page_reader with async_buffers := s.page_reader.async_buffers.erase token }
          exact ⟨hreaped.inv.toSound, holds_pure.mpr hreaped⟩
        · intro _
          exact holds_throw
    · intro _
      exact holds_pure.mpr ⟨h, .refl s⟩

theorem holds_consumePrefetchCompletion (h : Inv enabled budget away s)
    (completed : CompletedRead α) :
    Holds (Sound enabled budget) (consumePrefetchCompletion completed true)
      (fun _ t => Reaped enabled budget away s t) s := by
  apply holds_bind
  rw [holds_get]
  -- an unknown token is left over from an earlier query
  cases htoken : s.token_to_page.lookup completed.token with
  | none => exact holds_pure.mpr ⟨h, .refl s⟩
  | some page_id =>
    apply holds_bind
    rw [holds_change]
    refine ⟨sound_completeToken h htoken, ?_⟩
    apply holds_bind
    rw [holds_get]
    apply holds_ite
    · intro hthere
      apply holds_bind
      rw [holds_change]
      have hinv := inv_lateHit h htoken hthere
      have hfootprint := footprint_completeToken h htoken
      refine ⟨hinv.toSound, holds_pure.mpr ⟨hinv, fun q hq => absent_lateHit hq, ?_, rfl⟩⟩
      change (completeToken completed.token page_id s).asyncPageFootprint ≤ s.asyncPageFootprint
      omega
    · intro hmissing
      rw [Bool.not_eq_true] at hmissing
      apply holds_bind
      apply holds_ofExcept
      intro content _
      apply holds_bind
      rw [holds_change]
      have hready := inv_ready h htoken hmissing { page_id := page_id, content := content } rfl
      refine ⟨hready.1.toSound, holds_pure.mpr ⟨hready.1, fun q hq => ?_, hready.2.le, ?_⟩⟩
      · exact absent_keepReady h htoken _ hq
      · rw [keepReady_eq h htoken]
        rfl

theorem holds_harvestPrefetch (h : Inv enabled budget away s) :
    Holds (Sound enabled budget) harvestPrefetch (fun _ t => Reaped enabled budget away s t) s := by
  apply holds_bind
  rw [holds_get]
  apply holds_ite
  · intro _
    apply holds_bind
    apply holds_submitAsyncReads
    apply holds_bind
    refine (holds_reapAsyncRead h).mono fun o t ht => ?_
    cases o with
    | none => exact holds_pure.mpr ht
    | some completed =>
      apply holds_bind
      refine (holds_consumePrefetchCompletion ht.inv completed).mono fun _ u hu => ?_
      refine holds_repeatUntil (Reaped enabled budget away s) (fun v hv => ?_) (ht.trans hu)
      apply holds_bind
      refine (holds_reapAsyncRead hv.inv).mono fun o w hw => ?_
      cases o with
      | none => exact holds_pure.mpr (hv.trans hw)
      | some completed =>
        apply holds_bind
        refine (holds_consumePrefetchCompletion hw.inv completed).mono fun _ x hx => ?_
        exact holds_pure.mpr (hv.trans (hw.trans hx))
  · intro _
    exact holds_pure.mpr ⟨h, .refl s⟩

theorem holds_harvestAll (h : Inv enabled budget away s) :
    Holds (Sound enabled budget) harvestAll (fun _ t => Reaped enabled budget away s t) s := by
  refine holds_repeatUntil (Reaped enabled budget away s) (fun t ht => ?_) ⟨h, .refl s⟩
  apply holds_bind
  refine (holds_harvestPrefetch ht.inv).mono fun harvested u hu => ?_
  apply holds_ite
  · intro _
    exact holds_pure.mpr (ht.trans hu)
  · intro _
    exact holds_pure.mpr (ht.trans hu)

theorem holds_waitForPrefetchPage (h : Inv enabled budget away s) (p : PageId) :
    Holds (Sound enabled budget) (waitForPrefetchPage p)
      (fun _ t => Reaped enabled budget away s t ∧ p ∉ t.pending_pages) s := by
  refine holds_repeatUntil (Reaped enabled budget away s) (fun t ht => ?_) ⟨h, .refl s⟩
  apply holds_bind
  rw [holds_get]
  apply holds_ite
  · intro _
    apply holds_bind
    refine (holds_harvestPrefetch ht.inv).mono fun harvested u hu => ?_
    apply holds_ite
    · intro _
      exact holds_pure.mpr (ht.trans hu)
    · intro _
      exact holds_throw
  · intro hpending
    exact holds_pure.mpr ⟨ht, hpending⟩

end Reap

section Submit

/-- What submitting a batch leaves behind: its pages are away, under tokens of their own. -/
structure Submitted (enabled : Bool) (budget : ℕ) (away : Set PageId) (requests : List PageId)
    (s : QueryPageSession α D) (submitted : List (PageId × Token)) (t : QueryPageSession α D) :
    Prop where
  inv : Inv enabled budget ({p | p ∈ requests} ∪ away) t
  harvested : Harvested enabled s t
  pages : submitted.map Prod.fst = requests
  tokens : (submitted.map Prod.snd).Nodup
  fresh : ∀ token ∈ submitted.map Prod.snd, s.page_reader.next_async_token ≤ token
  next : s.page_reader.next_async_token ≤ t.page_reader.next_async_token

theorem union_insert_away (p : PageId) (requests : List PageId) :
    {q | q ∈ requests} ∪ insert p away = {q | q ∈ p :: requests} ∪ away := by
  ext q
  simp only [Set.mem_union, Set.mem_ofPred_eq, Set.mem_insert_iff, List.mem_cons]
  tauto

/-- The first request of a batch, then the others. -/
theorem Submitted.cons {requests : List PageId} {submitted : List (PageId × Token)}
    {u : QueryPageSession α D} (hs : Harvested enabled s t)
    (hnext : t.page_reader.next_async_token = s.page_reader.next_async_token + 1)
    (h : Submitted enabled budget (insert p away) requests t submitted u) :
    Submitted enabled budget away (p :: requests) s
      ((p, s.page_reader.next_async_token) :: submitted) u where
  inv := union_insert_away p requests ▸ h.inv
  harvested := hs.trans h.harvested
  pages := by rw [List.map_cons, h.pages]
  tokens := by
    refine List.nodup_cons.mpr ⟨fun hmem => ?_, h.tokens⟩
    have hfresh := h.fresh _ hmem
    rw [hnext] at hfresh
    exact Nat.not_succ_le_self _ hfresh
  fresh := by
    intro token htoken
    rcases List.mem_cons.mp htoken with rfl | htoken
    · exact le_rfl
    · have hfresh := h.fresh token htoken
      rw [hnext] at hfresh
      exact Nat.le_of_succ_le hfresh
  next := by
    have hnext' := h.next
    rw [hnext] at hnext'
    exact Nat.le_of_succ_le hnext'

theorem holds_startAsyncRead (h : Inv enabled budget away s) (hp : Absent enabled s p)
    (haway : p ∉ away) :
    Holds (Sound enabled budget) (startAsyncRead p)
      (fun token t => Inv enabled budget (insert p away) t ∧ Harvested enabled s t ∧
        token = s.page_reader.next_async_token ∧
        t.page_reader.next_async_token = s.page_reader.next_async_token + 1) s := by
  apply holds_bind
  rw [holds_get]
  apply holds_ite
  · intro _
    apply holds_bind
    rw [holds_change]
    exact ⟨(reaped_reader h _).inv.toSound, holds_throw⟩
  · intro _
    apply holds_bind
    apply holds_mayFail
    rw [holds_act]
    have hinv := inv_read h hp haway { s.page_reader with
      next_async_token := s.page_reader.next_async_token + 1
      async_buffers := s.page_reader.next_async_token :: s.page_reader.async_buffers }
    exact ⟨hinv.toSound, hinv, ⟨fun _ hq => ⟨hq.1, hq.2, hq.3⟩, le_rfl, rfl⟩, rfl, rfl⟩

theorem holds_readSync (h : Inv enabled budget away s) (hp : Absent enabled s p)
    (haway : p ∉ away) :
    Holds (Sound enabled budget) (readSync p)
      (fun _ t => Inv enabled budget (insert p away) t ∧ Harvested enabled s t ∧
        t.page_reader = s.page_reader) s := by
  apply holds_bind
  rw [holds_change]
  have hinv := inv_read h hp haway s.page_reader
  refine ⟨hinv.toSound, ?_⟩
  apply holds_bind
  apply holds_ask
  intro reply
  cases reply with
  | nothing => exact holds_throw
  | failed token reason => exact holds_throw
  | completed token page =>
    exact holds_pure.mpr ⟨hinv, ⟨fun _ hq => ⟨hq.1, hq.2, hq.3⟩, le_rfl, rfl⟩, rfl⟩

theorem holds_readInline (h : Inv enabled budget away s) (hp : Absent enabled s p)
    (haway : p ∉ away) :
    Holds (Sound enabled budget) (readInline p)
      (fun token t => Inv enabled budget (insert p away) t ∧ Harvested enabled s t ∧
        token = s.page_reader.next_async_token ∧
        t.page_reader.next_async_token = s.page_reader.next_async_token + 1) s := by
  apply holds_bind
  refine (holds_readSync h hp haway).mono fun page t ht => ?_
  rw [holds_act]
  have hreaped := reaped_reader ht.1 { t.page_reader with
    next_async_token := t.page_reader.next_async_token + 1
    inline_completions := t.page_reader.inline_completions ++
      [{ token := t.page_reader.next_async_token, page := page }] }
  refine ⟨hreaped.inv.toSound, hreaped.inv, ht.2.1.trans hreaped.harvested, ?_, ?_⟩
  · rw [ht.2.2]
  · change t.page_reader.next_async_token + 1 = _
    rw [ht.2.2]

theorem holds_batchSubmitFrom (requests : List PageId) (queued_in_batch : ℕ)
    (h : Inv enabled budget away s) (hnodup : requests.Nodup)
    (habsent : ∀ p ∈ requests, Absent enabled s p ∧ p ∉ away) :
    Holds (Sound enabled budget) (batchSubmitFrom requests queued_in_batch)
      (Submitted enabled budget away requests s) s := by
  induction requests generalizing s away queued_in_batch with
  | nil =>
    have hnone : Submitted enabled budget away [] s [] s :=
      ⟨by simpa using h, .refl s, rfl, List.nodup_nil, by simp, le_rfl⟩
    rw [batchSubmitFrom]
    apply holds_ite
    · intro _
      apply holds_bind
      apply holds_submitAsyncReads
      exact holds_pure.mpr hnone
    · intro _
      exact holds_pure.mpr hnone
  | cons p requests ih =>
    have hp := habsent p List.mem_cons_self
    rw [List.nodup_cons] at hnodup
    -- once the first page is away, the others are as absent as before
    have hrest : ∀ t, Harvested enabled s t →
        ∀ q ∈ requests, Absent enabled t q ∧ q ∉ insert p away := by
      intro t ht q hq
      have hq' := habsent q (List.mem_cons_of_mem p hq)
      refine ⟨ht.absent q hq'.1, ?_⟩
      rintro (rfl | hmem)
      · exact hnodup.1 hq
      · exact hq'.2 hmem
    rw [batchSubmitFrom]
    apply holds_bind
    rw [holds_get]
    apply holds_ite
    · intro _
      apply holds_bind
      refine (holds_startAsyncRead h hp.1 hp.2).mono fun token t ht => ?_
      obtain ⟨hinv, hharvested, rfl, hnext⟩ := ht
      apply holds_ite
      · intro _
        apply holds_bind
        apply holds_submitAsyncReads
        apply holds_bind
        refine (ih 0 hinv hnodup.2 (hrest t hharvested)).mono fun submitted u hu => ?_
        exact holds_pure.mpr (hu.cons hharvested hnext)
      · intro _
        apply holds_bind
        refine (ih _ hinv hnodup.2 (hrest t hharvested)).mono fun submitted u hu => ?_
        exact holds_pure.mpr (hu.cons hharvested hnext)
    · intro _
      apply holds_bind
      refine (holds_readInline h hp.1 hp.2).mono fun token t ht => ?_
      obtain ⟨hinv, hharvested, rfl, hnext⟩ := ht
      apply holds_bind
      refine (ih 0 hinv hnodup.2 (hrest t hharvested)).mono fun submitted u hu => ?_
      exact holds_pure.mpr (hu.cons hharvested hnext)

theorem holds_batchSubmit (requests : List PageId) (h : Inv enabled budget away s)
    (hnodup : requests.Nodup) (habsent : ∀ p ∈ requests, Absent enabled s p ∧ p ∉ away) :
    Holds (Sound enabled budget) (batchSubmit requests)
      (Submitted enabled budget away requests s) s :=
  holds_batchSubmitFrom requests 0 h hnodup habsent

end Submit

section Prefetch

/-- Prefetches that the reader has accepted are entered one after the other. -/
theorem holds_enterPrefetches (submitted : List (PageId × Token))
    (h : Inv enabled budget {p | p ∈ submitted.map Prod.fst} s)
    (hnodup : (submitted.map Prod.fst).Nodup)
    (hroom : s.asyncPageFootprint + submitted.length ≤ budget) :
    Holds (Sound enabled budget)
      (forEach (fun read => change (enterPrefetch read)) submitted : SessionM α D Unit)
      (fun _ t => Inv enabled budget ∅ t) s := by
  induction submitted generalizing s with
  | nil =>
    refine holds_pure.mpr ?_
    have hnone : {p | p ∈ ([] : List (PageId × Token)).map Prod.fst} = (∅ : Set PageId) := by
      ext q
      simp
    exact hnone ▸ h
  | cons read submitted ih =>
    rw [List.map_cons, List.nodup_cons] at hnodup
    rw [List.length_cons] at hroom
    have hmem : read.1 ∈ {p | p ∈ (read :: submitted).map Prod.fst} := by simp
    have henter := @inv_enterPrefetch α D enabled budget _ s read.1 h read.2 hmem (by omega)
    have haway : {p | p ∈ (read :: submitted).map Prod.fst} \ {read.1} =
        {p | p ∈ submitted.map Prod.fst} := by
      ext q
      simp only [List.map_cons, List.mem_cons, Set.mem_sdiff, Set.mem_ofPred_eq,
        Set.mem_singleton_iff]
      constructor
      · rintro ⟨hq | hq, hne⟩
        · exact absurd hq hne
        · exact hq
      · intro hq
        refine ⟨.inr hq, ?_⟩
        rintro rfl
        exact hnodup.1 hq
    rw [haway] at henter
    rw [forEach]
    apply holds_bind
    rw [holds_change]
    refine ⟨henter.1.toSound, ih henter.1 hnodup.2 ?_⟩
    have hfootprint : (enterPrefetch read s).asyncPageFootprint = s.asyncPageFootprint + 1 :=
      henter.2
    omega

/-- The requests that wait for their flush. -/
structure Queued (enabled : Bool) (budget : ℕ) (requests : List PageId)
    (s : QueryPageSession α D) : Prop where
  inv : Inv enabled budget ∅ s
  nodup : requests.Nodup
  absent : ∀ p ∈ requests, Absent enabled s p
  room : s.asyncPageFootprint + requests.length ≤ budget

theorem holds_flushPrefetchRequests {requests : List PageId}
    (h : Queued enabled budget requests s) :
    Holds (Sound enabled budget) (flushPrefetchRequests requests)
      (fun _ t => Inv enabled budget ∅ t) s := by
  apply holds_ite
  · intro _
    exact holds_pure.mpr h.inv
  · intro _
    apply holds_bind
    refine (holds_batchSubmit requests h.inv h.nodup fun p hp => ⟨h.absent p hp, id⟩).mono
      fun submitted t ht => ?_
    have hinv := ht.inv
    rw [Set.union_empty, ← ht.pages] at hinv
    refine holds_enterPrefetches submitted hinv (ht.pages ▸ h.nodup) ?_
    have hroom := h.room
    have hfootprint := ht.harvested.footprint
    have hlength : submitted.length = requests.length := by rw [← ht.pages, List.length_map]
    omega

theorem Queued.harvest {requests : List PageId} (h : Queued enabled budget requests s)
    (ht : Reaped enabled budget ∅ s t) : Queued enabled budget requests t where
  inv := ht.inv
  nodup := h.nodup
  absent := fun p hp => ht.harvested.absent p (h.absent p hp)
  room := by
    have hroom := h.room
    have hfootprint := ht.harvested.footprint
    omega

/-- The pages that were looked at, and so will not be queued again. -/
def Covers (requests : List PageId) (queued_pages : Finset PageId) : Prop :=
  ∀ p ∈ requests, p ∈ queued_pages

theorem Covers.admit {requests queued : List PageId} {queued_pages : Finset PageId}
    (h : Covers requests queued_pages) (hqueued : ∀ q ∈ queued, q = p ∨ q ∈ requests) :
    Covers queued (insert p queued_pages) := by
  intro q hq
  rcases hqueued q hq with rfl | hq
  · exact Finset.mem_insert_self q queued_pages
  · exact Finset.mem_insert_of_mem (h q hq)

theorem holds_admitRequest {requests : List PageId} (h : Queued enabled budget requests s)
    (hp : p ∉ requests) :
    Holds (Sound enabled budget) (admitRequest p requests)
      (fun queued t => Queued enabled budget queued t ∧ ∀ q ∈ queued, q = p ∨ q ∈ requests) s := by
  have hsame : Queued enabled budget requests s ∧ ∀ q ∈ requests, q = p ∨ q ∈ requests :=
    ⟨h, fun q hq => .inr hq⟩
  apply holds_bind
  rw [holds_get]
  apply holds_ite
  · intro _
    exact holds_pure.mpr hsame
  · intro hroom
    apply holds_ite
    · intro _
      exact holds_pure.mpr hsame
    · intro _
      apply holds_ite
      · intro _
        exact holds_pure.mpr hsame
      · intro hpending
        apply holds_ite
        · intro _
          exact holds_pure.mpr hsame
        · intro hready
          simp only [QueryPageSession.pageReadyInSession, Bool.or_eq_true, decide_eq_true_eq,
            not_or] at hready
          -- every test has failed, so the page is nowhere
          refine holds_pure.mpr ⟨⟨h.inv, ?_, ?_, ?_⟩, ?_⟩
          · refine List.nodup_append.mpr ⟨h.nodup, List.nodup_singleton p, ?_⟩
            rintro q hq r hr rfl
            exact hp (List.mem_singleton.mp hr ▸ hq)
          · intro q hq
            rcases List.mem_append.mp hq with hq | hq
            · exact h.absent q hq
            · rw [List.mem_singleton.mp hq]
              exact ⟨hpending, hready.2, fun _ => hready.1.2⟩
          · have hbudget := h.inv.budget_eq
            rw [List.length_append, List.length_singleton]
            omega
          · intro q hq
            rcases List.mem_append.mp hq with hq | hq
            · exact .inr hq
            · exact .inl (List.mem_singleton.mp hq)

theorem holds_queuePrefetchRequest {requests : List PageId} {queued_pages : Finset PageId}
    (h : Queued enabled budget requests s) (hcovers : Covers requests queued_pages) (p : PageId) :
    Holds (Sound enabled budget) (queuePrefetchRequest p requests queued_pages)
      (fun queued t => Queued enabled budget queued.1 t ∧ Covers queued.1 queued.2) s := by
  apply holds_bind
  rw [holds_get]
  apply holds_ite
  · intro _
    exact holds_pure.mpr ⟨h, hcovers⟩
  · intro _
    apply holds_ite
    · intro _
      exact holds_pure.mpr ⟨h, hcovers⟩
    · intro _
      apply holds_ite
      · intro _
        exact holds_pure.mpr ⟨h, hcovers⟩
      · intro hqueued
        have hp : p ∉ requests := fun hmem => hqueued (hcovers p hmem)
        apply holds_ite
        · intro _
          apply holds_bind
          -- a full session takes what has completed before it looks again
          refine (holds_harvestPrefetch h.inv).mono fun _ t ht => ?_
          apply holds_bind
          refine (holds_admitRequest (h.harvest ht) hp).mono fun queued u hu => ?_
          exact holds_pure.mpr ⟨hu.1, hcovers.admit hu.2⟩
        · intro _
          apply holds_bind
          refine (holds_admitRequest h hp).mono fun queued u hu => ?_
          exact holds_pure.mpr ⟨hu.1, hcovers.admit hu.2⟩

theorem holds_queuePrefetchRequests (batch_limit : ℕ) (page_ids : List PageId)
    {requests : List PageId} {queued_pages : Finset PageId}
    (h : Queued enabled budget requests s) (hcovers : Covers requests queued_pages) :
    Holds (Sound enabled budget) (queuePrefetchRequests batch_limit page_ids requests queued_pages)
      (fun requests t => Queued enabled budget requests t) s := by
  induction page_ids generalizing s requests queued_pages with
  | nil => exact holds_pure.mpr h
  | cons p page_ids ih =>
    rw [queuePrefetchRequests]
    apply holds_ite
    · intro _
      apply holds_bind
      refine (holds_flushPrefetchRequests h).mono fun _ t ht => ?_
      apply holds_bind
      -- the flush has sent the requests that were waiting
      have hnone : Queued enabled budget [] t :=
        ⟨ht, List.nodup_nil, by simp, ht.within_budget⟩
      have hcovers' : Covers [] queued_pages := by simp [Covers]
      refine (holds_queuePrefetchRequest hnone hcovers' p).mono fun queued u hu => ?_
      exact ih hu.1 hu.2
    · intro _
      apply holds_bind
      refine (holds_queuePrefetchRequest h hcovers p).mono fun queued u hu => ?_
      exact ih hu.1 hu.2

theorem holds_submitPrefetchPlan (h : Inv enabled budget ∅ s) (page_ids : List PageId) :
    Holds (Sound enabled budget) (submitPrefetchPlan page_ids)
      (fun _ t => Inv enabled budget ∅ t) s := by
  apply holds_bind
  rw [holds_get]
  apply holds_ite
  · intro _
    exact holds_pure.mpr h
  · intro _
    have hnone : Queued enabled budget [] s := ⟨h, List.nodup_nil, by simp, h.within_budget⟩
    apply holds_bind
    refine (holds_queuePrefetchRequests _ page_ids hnone (by simp [Covers])).mono
      fun requests t ht => ?_
    apply holds_bind
    refine (holds_flushPrefetchRequests ht).mono fun _ u hu => ?_
    apply holds_bind
    exact (holds_harvestPrefetch hu).mono fun _ v hv => holds_pure.mpr hv.inv

theorem holds_drainReadyPages (h : Inv enabled budget ∅ s) :
    Holds (Sound enabled budget) drainReadyPages (fun _ t => Inv enabled budget ∅ t) s := by
  apply holds_bind
  rw [holds_get]
  apply holds_ite
  · intro _
    apply holds_bind
    apply holds_submitAsyncReads
    apply holds_bind
    exact (holds_harvestPrefetch h).mono fun _ v hv => holds_pure.mpr hv.inv
  · intro _
    exact holds_pure.mpr h

end Prefetch

end Packed.PageIo
