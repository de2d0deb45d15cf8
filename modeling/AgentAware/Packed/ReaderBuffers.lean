import AgentAware.Packed.PrefetchAccounting

/-!
# The buffers of the reader

Every read under way holds one of the `io_depth` buffers of the reader. Within a query the reads are
those left over from earlier queries, the prefetches, and the demand reads of the step in hand; a
completion gives its buffer back and leaves the account it was on.

## Main definitions

- `ReaderBound` — no more reads than buffers, at every step
- `InFlight` — what the outstanding reads belong to

## Main results

- `holds_harvestInFlight`, `holds_waitInFlight` — completions
- `holds_batchInFlight` — reads that are submitted find a buffer
- `holds_submitPlanInFlight`, `holds_drainInFlight` — prefetches
-/

namespace Packed.PageIo

open Interaction

variable {α D : Type}

variable {status : DiskGraphIoStatus} {reserve leftover spare under_way : ℕ}
  {s t : QueryPageSession α D} {p : PageId}

/-- No more reads are outstanding than there are buffers, and the pool was never found empty. -/
structure PoolBound (status : DiskGraphIoStatus) (page_reader : AsyncPageReader α) : Prop where
  status_eq : page_reader.status = status
  inline_nil : page_reader.inline_completions = []
  not_exhausted : page_reader.pool_exhausted = false
  outstanding : page_reader.async_buffers.length ≤ status.depth

/-- What holds at every step. -/
structure ReaderBound (status : DiskGraphIoStatus) (s : QueryPageSession α D) : Prop where
  pool : PoolBound status s.page_reader
  tokens_lt : ∀ token ∈ s.token_to_page, token < s.page_reader.next_async_token

/-- The outstanding reads are those left over from earlier queries, prefetches, and the
`under_way` ones that the step in hand has submitted; `spare` of them have just completed. -/
structure InFlight (status : DiskGraphIoStatus) (reserve leftover spare under_way : ℕ)
    (s : QueryPageSession α D) : Prop extends ReaderBound status s where
  reserve_eq : s.demandIoReserve = reserve
  accounted : s.page_reader.async_buffers.length + spare ≤
    leftover + s.token_to_page.keys.length + under_way

/-- Steps that neither ask the reader nor enter a token. -/
structure SameReads (s t : QueryPageSession α D) : Prop where
  page_reader : t.page_reader = s.page_reader
  token_to_page : t.token_to_page = s.token_to_page
  reserve : t.demandIoReserve = s.demandIoReserve

theorem SameReads.trans {u : QueryPageSession α D} (h : SameReads s t) (h' : SameReads t u) :
    SameReads s u :=
  ⟨h'.1.trans h.1, h'.2.trans h.2, h'.3.trans h.3⟩

theorem ReaderBound.sub (h : ReaderBound status s) (hreader : t.page_reader = s.page_reader)
    (htokens : ∀ token ∈ t.token_to_page, token ∈ s.token_to_page) : ReaderBound status t where
  pool := by
    rw [hreader]
    exact h.pool
  tokens_lt := by
    intro token htoken
    rw [hreader]
    exact h.tokens_lt token (htokens token htoken)

theorem InFlight.same (h : InFlight status reserve leftover spare under_way s)
    (hs : SameReads s t) : InFlight status reserve leftover spare under_way t where
  toReaderBound := h.toReaderBound.sub hs.page_reader fun token htoken =>
    hs.token_to_page ▸ htoken
  reserve_eq := hs.reserve.trans h.reserve_eq
  accounted := by
    rw [hs.page_reader, hs.token_to_page]
    exact h.accounted

theorem InFlight.weaken {spare' under_way' : ℕ}
    (h : InFlight status reserve leftover spare under_way s)
    (hle : under_way + spare' ≤ under_way' + spare) :
    InFlight status reserve leftover spare' under_way' s where
  toReaderBound := h.toReaderBound
  reserve_eq := h.reserve_eq
  accounted := by
    have haccounted := h.accounted
    omega

/-- The tokens of prefetches are no more than the pages under way. -/
theorem length_tokens_le {enabled : Bool} {budget : ℕ} {away : Set PageId}
    (h : Inv enabled budget away s) :
    s.token_to_page.keys.length + s.ready_prefetch_pages.keys.length ≤ s.asyncPageFootprint := by
  have hcard : s.token_to_page.keys.toFinset.card ≤ s.pending_pages.card := by
    refine Finset.card_le_card_of_injOn (fun token => (s.token_to_page.lookup token).getD 0)
      (fun token htoken => ?_) fun token htoken other hother heq => ?_
    · obtain ⟨page_id, hpage⟩ := Option.isSome_iff_exists.mp
        (AList.lookup_isSome.mpr (List.mem_toFinset.mp htoken))
      have hpending := h.token_pending token page_id hpage
      simpa [hpage] using hpending
    · obtain ⟨page_id, hpage⟩ := Option.isSome_iff_exists.mp
        (AList.lookup_isSome.mpr (List.mem_toFinset.mp htoken))
      obtain ⟨other_id, hother_id⟩ := Option.isSome_iff_exists.mp
        (AList.lookup_isSome.mpr (List.mem_toFinset.mp hother))
      have hsame : page_id = other_id := by simpa [hpage, hother_id] using heq
      exact h.token_inj token other page_id hpage (hsame ▸ hother_id)
  rw [List.toFinset_card_of_nodup s.token_to_page.keys_nodup] at hcard
  rw [QueryPageSession.asyncPageFootprint]
  omega

section Same

variable [LT D] [DecidableLT D] [DecidableEq D]

omit [LT D] [DecidableLT D] [DecidableEq D] in
theorem sameReads_markPrefetchUsed : SameReads s (s.markPrefetchUsed p) := by
  rw [QueryPageSession.markPrefetchUsed]
  split
  · exact ⟨rfl, rfl, rfl⟩
  · exact ⟨rfl, rfl, rfl⟩

omit [LT D] [DecidableLT D] [DecidableEq D] in
theorem sameReads_tryGetCachedPage : SameReads s (s.tryGetCachedPage p).2 := by
  have hindex : SameReads s { s with index := (s.index.lookupCachedPage p).2 } := ⟨rfl, rfl, rfl⟩
  unfold QueryPageSession.tryGetCachedPage
  dsimp only
  split
  · exact hindex.trans sameReads_markPrefetchUsed
  · exact hindex

theorem sameReads_keepPage (page : DecodedPage α) : SameReads s (s.keepPage p page) := by
  rw [QueryPageSession.keepPage]
  split
  · exact ⟨rfl, rfl, rfl⟩
  · exact ⟨rfl, rfl, rfl⟩

omit [LT D] [DecidableLT D] [DecidableEq D] in
theorem sameReads_materializePage : SameReads s (s.materializePage p) := ⟨rfl, rfl, rfl⟩

theorem sameReads_keepMaterialized (p : PageId) (page : DecodedPage α) :
    SameReads s ((s.keepPage p page).materializePage p) :=
  (sameReads_keepPage page).trans sameReads_materializePage

theorem sameReads_takeReadyPrefetchPage : SameReads s (s.takeReadyPrefetchPage p).2 := by
  rw [QueryPageSession.takeReadyPrefetchPage]
  cases s.ready_prefetch_pages.lookup p with
  | none => exact ⟨rfl, rfl, rfl⟩
  | some page =>
    have hhit : SameReads s { s with pending_hit_pages := s.pending_hit_pages.erase p } :=
      ⟨rfl, rfl, rfl⟩
    have hused := hhit.trans (@sameReads_markPrefetchUsed α D _ p)
    have hkeep : ∀ u, SameReads s u → SameReads s (u.keepPage p page) :=
      fun u hu => hu.trans (sameReads_keepPage page)
    exact hkeep _ ⟨hused.1, hused.2, hused.3⟩

theorem sameReads_takePage : SameReads s (takePage p s).2 := by
  rw [takePage]
  dsimp only
  split
  · exact sameReads_tryGetCachedPage.trans sameReads_materializePage
  · have hready := (@sameReads_tryGetCachedPage α D s p).trans
      (@sameReads_takeReadyPrefetchPage α D (s.tryGetCachedPage p).2 p _ _ _)
    split
    · exact hready.trans sameReads_materializePage
    · exact hready

theorem sameReads_materializeAvailablePage : SameReads s (s.materializeAvailablePage p).2 := by
  rw [QueryPageSession.materializeAvailablePage]
  split
  · exact ⟨rfl, rfl, rfl⟩
  · split
    · exact ⟨rfl, rfl, rfl⟩
    · dsimp only
      split
      · exact sameReads_tryGetCachedPage.trans sameReads_materializePage
      · have hready := (@sameReads_tryGetCachedPage α D s p).trans
          (@sameReads_takeReadyPrefetchPage α D (s.tryGetCachedPage p).2 p _ _ _)
        split
        · exact hready.trans sameReads_materializePage
        · exact hready

end Same

section Reap

theorem sameReads_keepReady {page : DecodedPage α} {keep_ready : Bool} :
    SameReads s (keepReady keep_ready p page s) := by
  rw [keepReady]
  split
  · exact ⟨rfl, rfl, rfl⟩
  · exact ⟨rfl, rfl, rfl⟩

/-- A read that is over leaves the reader. -/
theorem inFlight_reaped (h : InFlight status reserve leftover 0 under_way s) {token : Token}
    (htoken : token ∈ s.page_reader.async_buffers) :
    InFlight status reserve leftover 1 under_way { s with
      page_reader := { s.page_reader with
        async_buffers := s.page_reader.async_buffers.erase token } } := by
  have hlength := List.length_erase_add_one htoken
  have haccounted := h.accounted
  have hbound := h.pool.outstanding
  exact
    { pool := ⟨h.pool.status_eq, h.pool.inline_nil, h.pool.not_exhausted, by
        change (s.page_reader.async_buffers.erase token).length ≤ status.depth
        omega⟩
      tokens_lt := h.tokens_lt
      reserve_eq := h.reserve_eq
      accounted := by
        change (s.page_reader.async_buffers.erase token).length + 1 ≤
          leftover + s.token_to_page.keys.length + under_way
        omega }

theorem holds_reapInFlight (h : InFlight status reserve leftover 0 under_way s) :
    Holds (ReaderBound status) reapAsyncRead (fun completed t =>
      t.token_to_page = s.token_to_page ∧
        InFlight status reserve leftover (if completed.isSome then 1 else 0) under_way t) s := by
  apply holds_bind
  rw [holds_get]
  rw [h.pool.inline_nil]
  apply holds_ite
  · intro _
    apply holds_bind
    apply holds_ask
    intro reply
    cases reply with
    | nothing => exact holds_pure.mpr ⟨rfl, h⟩
    | failed token reason =>
      cases token with
      | none => exact holds_throw
      | some token =>
        apply holds_ite
        · intro htoken
          apply holds_bind
          rw [holds_change]
          exact ⟨(inFlight_reaped h htoken).toReaderBound, holds_throw⟩
        · intro _
          exact holds_throw
    | completed token page =>
      apply holds_ite
      · intro htoken
        apply holds_bind
        rw [holds_change]
        have hreaped := inFlight_reaped h htoken
        exact ⟨hreaped.toReaderBound, holds_pure.mpr ⟨rfl, hreaped⟩⟩
      · intro _
        exact holds_throw
  · intro _
    exact holds_pure.mpr ⟨rfl, h⟩

theorem holds_consumeInFlight (h : InFlight status reserve leftover 1 under_way s)
    (completed : CompletedRead α) :
    Holds (ReaderBound status) (consumePrefetchCompletion completed true)
      (fun _ t => InFlight status reserve leftover 0 under_way t) s := by
  apply holds_bind
  rw [holds_get]
  cases htoken : s.token_to_page.lookup completed.token with
  | none => exact holds_pure.mpr (h.weaken (by omega))
  | some page_id =>
    apply holds_bind
    rw [holds_change]
    have hmem : completed.token ∈ s.token_to_page := AList.lookup_isSome.mp (by rw [htoken]; rfl)
    have hlength := length_keys_erase hmem
    have haccounted := h.accounted
    have hcompleted : InFlight status reserve leftover 0 under_way
        (completeToken completed.token page_id s) :=
      { pool := h.pool
        reserve_eq := h.reserve_eq
        tokens_lt := fun token hmem' => h.tokens_lt token (AList.mem_erase.mp hmem').2
        accounted := by
          change s.page_reader.async_buffers.length + 0 ≤
            leftover + (s.token_to_page.erase completed.token).keys.length + under_way
          omega }
    refine ⟨hcompleted.toReaderBound, ?_⟩
    apply holds_bind
    rw [holds_get]
    apply holds_ite
    · intro _
      apply holds_bind
      rw [holds_change]
      have hdropped := hcompleted.same
        (t := dropLateHit page_id (completeToken completed.token page_id s)) ⟨rfl, rfl, rfl⟩
      exact ⟨hdropped.toReaderBound, holds_pure.mpr hdropped⟩
    · intro _
      apply holds_bind
      apply holds_ofExcept
      intro content _
      apply holds_bind
      rw [holds_change]
      have hkept := hcompleted.same (t := keepReady true page_id
        { page_id := page_id, content := content } (completeToken completed.token page_id s))
        sameReads_keepReady
      exact ⟨hkept.toReaderBound, holds_pure.mpr hkept⟩

theorem holds_harvestInFlight (h : InFlight status reserve leftover 0 under_way s) :
    Holds (ReaderBound status) harvestPrefetch
      (fun _ t => InFlight status reserve leftover 0 under_way t) s := by
  apply holds_bind
  rw [holds_get]
  apply holds_ite
  · intro _
    apply holds_bind
    apply holds_submitAsyncReads
    apply holds_bind
    refine (holds_reapInFlight h).mono fun o t ht => ?_
    cases o with
    | none => exact holds_pure.mpr ht.2
    | some completed =>
      apply holds_bind
      refine (holds_consumeInFlight ht.2 completed).mono fun _ u hu => ?_
      refine holds_repeatUntil (InFlight status reserve leftover 0 under_way) (fun v hv => ?_) hu
      apply holds_bind
      refine (holds_reapInFlight hv).mono fun o w hw => ?_
      cases o with
      | none => exact holds_pure.mpr hw.2
      | some completed =>
        apply holds_bind
        refine (holds_consumeInFlight hw.2 completed).mono fun _ x hx => ?_
        exact holds_pure.mpr hx
  · intro _
    exact holds_pure.mpr h

theorem holds_harvestAllInFlight (h : InFlight status reserve leftover 0 under_way s) :
    Holds (ReaderBound status) harvestAll
      (fun _ t => InFlight status reserve leftover 0 under_way t) s := by
  refine holds_repeatUntil (InFlight status reserve leftover 0 under_way) (fun t ht => ?_) h
  apply holds_bind
  refine (holds_harvestInFlight ht).mono fun harvested u hu => ?_
  apply holds_ite
  · intro _
    exact holds_pure.mpr hu
  · intro _
    exact holds_pure.mpr hu

theorem holds_waitInFlight (h : InFlight status reserve leftover 0 under_way s) (p : PageId) :
    Holds (ReaderBound status) (waitForPrefetchPage p)
      (fun _ t => InFlight status reserve leftover 0 under_way t) s := by
  refine holds_repeatUntil (InFlight status reserve leftover 0 under_way) (fun t ht => ?_) h
  apply holds_bind
  rw [holds_get]
  apply holds_ite
  · intro _
    apply holds_bind
    refine (holds_harvestInFlight ht).mono fun harvested u hu => ?_
    apply holds_ite
    · intro _
      exact holds_pure.mpr hu
    · intro _
      exact holds_throw
  · intro _
    exact holds_pure.mpr ht

end Reap

section Submit

/-- What submitting reads leaves behind; `under_way` of them are not entered anywhere yet. -/
structure Sent (status : DiskGraphIoStatus) (reserve leftover under_way : ℕ)
    (s : QueryPageSession α D) (submitted : List (PageId × Token)) (t : QueryPageSession α D) :
    Prop where
  inFlight : InFlight status reserve leftover 0 under_way t
  same_tokens : t.token_to_page = s.token_to_page
  next : s.page_reader.next_async_token ≤ t.page_reader.next_async_token
  tokens_lt : ∀ read ∈ submitted, read.2 < t.page_reader.next_async_token

/-- The first read of a batch, then the others. -/
theorem Sent.cons {u : QueryPageSession α D} {read : PageId × Token}
    {submitted : List (PageId × Token)} {more : ℕ}
    (h : Sent status reserve leftover (under_way + 1) s [read] t)
    (h' : Sent status reserve leftover (under_way + 1 + more) t submitted u) :
    Sent status reserve leftover (under_way + (more + 1)) s (read :: submitted) u where
  inFlight := h'.inFlight.weaken (by omega)
  same_tokens := h'.same_tokens.trans h.same_tokens
  next := h.next.trans h'.next
  tokens_lt := by
    intro other hother
    rcases List.mem_cons.mp hother with rfl | hother
    · exact (h.tokens_lt other List.mem_cons_self).trans_le h'.next
    · exact h'.tokens_lt other hother

/-- A read starts when there is a buffer left, and there is. -/
theorem holds_startInFlight (h : InFlight status reserve leftover 0 under_way s)
    (hroom : leftover + s.token_to_page.keys.length + under_way < status.depth) (p : PageId) :
    Holds (ReaderBound status) (startAsyncRead p) (fun token t =>
      Sent status reserve leftover (under_way + 1) s [(p, token)] t) s := by
  have haccounted := h.accounted
  have hlength : s.page_reader.async_buffers.length < s.page_reader.status.depth := by
    rw [h.pool.status_eq]
    omega
  apply holds_bind
  rw [holds_get]
  apply holds_ite
  · intro hempty
    exact absurd hlength (not_lt.mpr hempty)
  · intro _
    apply holds_bind
    apply holds_mayFail
    rw [holds_act]
    have hstarted : InFlight status reserve leftover 0 (under_way + 1) { s with
        page_reader := { s.page_reader with
          next_async_token := s.page_reader.next_async_token + 1
          async_buffers := s.page_reader.next_async_token :: s.page_reader.async_buffers }
        submitted_reads := p :: s.submitted_reads } :=
      { pool := ⟨h.pool.status_eq, h.pool.inline_nil, h.pool.not_exhausted, by
          rw [← h.pool.status_eq]
          exact hlength⟩
        reserve_eq := h.reserve_eq
        tokens_lt := fun token htoken => Nat.lt_succ_of_lt (h.tokens_lt token htoken)
        accounted := by
          change s.page_reader.async_buffers.length + 1 + 0 ≤
            leftover + s.token_to_page.keys.length + (under_way + 1)
          omega }
    refine ⟨hstarted.toReaderBound, hstarted, rfl, Nat.le_succ _, fun read hread => ?_⟩
    rw [List.mem_singleton.mp hread]
    exact Nat.lt_succ_self s.page_reader.next_async_token

theorem holds_batchInFlight (huring : status.io_uring_enabled = true) (requests : List PageId)
    (queued_in_batch : ℕ) (h : InFlight status reserve leftover 0 under_way s)
    (hroom : leftover + s.token_to_page.keys.length + under_way + requests.length ≤
      status.depth) :
    Holds (ReaderBound status) (batchSubmitFrom requests queued_in_batch)
      (Sent status reserve leftover (under_way + requests.length) s) s := by
  induction requests generalizing s under_way queued_in_batch with
  | nil =>
    have hnone : Sent status reserve leftover under_way s [] s := ⟨h, rfl, le_rfl, by simp⟩
    rw [batchSubmitFrom]
    apply holds_ite
    · intro _
      apply holds_bind
      apply holds_submitAsyncReads
      exact holds_pure.mpr hnone
    · intro _
      exact holds_pure.mpr hnone
  | cons p requests ih =>
    rw [List.length_cons] at hroom ⊢
    rw [batchSubmitFrom]
    apply holds_bind
    rw [holds_get]
    apply holds_ite
    · intro _
      apply holds_bind
      refine (holds_startInFlight h (by omega) p).mono fun token t ht => ?_
      have hrest := fun queued_in_batch =>
        ih queued_in_batch ht.inFlight (by rw [ht.same_tokens]; omega)
      apply holds_ite
      · intro _
        apply holds_bind
        apply holds_submitAsyncReads
        apply holds_bind
        exact (hrest 0).mono fun _ u hu => holds_pure.mpr (ht.cons hu)
      · intro _
        apply holds_bind
        exact (hrest _).mono fun _ u hu => holds_pure.mpr (ht.cons hu)
    · intro hdisabled
      exact absurd (h.pool.status_eq ▸ huring) hdisabled

end Submit

section Prefetch

variable {enabled : Bool} {budget : ℕ}

/-- Entered as prefetches, the reads of a batch are accounted for by their tokens. -/
theorem holds_enterInFlight (submitted : List (PageId × Token))
    (h : InFlight status reserve leftover 0 submitted.length s)
    (hnodup : (submitted.map Prod.snd).Nodup)
    (hfresh : ∀ read ∈ submitted, read.2 ∉ s.token_to_page)
    (hnext : ∀ read ∈ submitted, read.2 < s.page_reader.next_async_token) :
    Holds (ReaderBound status)
      (forEach (fun read => change (enterPrefetch read)) submitted : SessionM α D Unit)
      (fun _ t => InFlight status reserve leftover 0 0 t) s := by
  induction submitted generalizing s with
  | nil => exact holds_pure.mpr h
  | cons read submitted ih =>
    rw [List.map_cons, List.nodup_cons] at hnodup
    rw [forEach]
    apply holds_bind
    rw [holds_change]
    have hlength := length_keys_insert (b := read.1) (hfresh read List.mem_cons_self)
    have haccounted := h.accounted
    rw [List.length_cons] at haccounted
    have hmem : ∀ token, token ∈ s.token_to_page.insert read.2 read.1 ↔
        token = read.2 ∨ token ∈ s.token_to_page := fun token => AList.mem_insert _
    have hentered : InFlight status reserve leftover 0 submitted.length (enterPrefetch read s) :=
      { pool := h.pool
        reserve_eq := h.reserve_eq
        tokens_lt := by
          intro token htoken
          rcases (hmem token).mp htoken with rfl | htoken
          · exact hnext read List.mem_cons_self
          · exact h.tokens_lt token htoken
        accounted := by
          change s.page_reader.async_buffers.length + 0 ≤
            leftover + (s.token_to_page.insert read.2 read.1).keys.length + submitted.length
          omega }
    refine ⟨hentered.toReaderBound, ih hentered hnodup.2 (fun other hother hin => ?_)
      fun other hother => hnext other (List.mem_cons_of_mem _ hother)⟩
    rcases (hmem other.2).mp hin with heq | hin
    · exact hnodup.1 (heq ▸ List.mem_map_of_mem hother)
    · exact hfresh other (List.mem_cons_of_mem _ hother) hin

theorem holds_flushInFlight (huring : status.io_uring_enabled = true)
    (hroom : leftover + budget ≤ status.depth) {requests : List PageId}
    (hqueued : Queued enabled budget requests s)
    (h : InFlight status reserve leftover 0 0 s) :
    Holds (ReaderBound status) (flushPrefetchRequests requests)
      (fun _ t => InFlight status reserve leftover 0 0 t) s := by
  apply holds_ite
  · intro _
    exact holds_pure.mpr h
  · intro _
    apply holds_bind
    have htokens := length_tokens_le hqueued.inv
    have hbudget := hqueued.room
    have hsent := @holds_batchInFlight α D status reserve leftover 0 s huring requests 0 h
      (by omega)
    refine ((holds_batchSubmit requests hqueued.inv hqueued.nodup fun p hp =>
      ⟨hqueued.absent p hp, id⟩).both hsent).mono fun submitted t ht => ?_
    obtain ⟨hsubmitted, hsent⟩ := ht
    have hlength : submitted.length = requests.length := by
      rw [← hsubmitted.pages, List.length_map]
    refine holds_enterInFlight submitted (hsent.inFlight.weaken (by omega)) hsubmitted.tokens
      (fun read hread hin => ?_) hsent.tokens_lt
    rw [hsent.same_tokens] at hin
    exact absurd (h.tokens_lt read.2 hin)
      (not_lt.mpr (hsubmitted.fresh read.2 (List.mem_map_of_mem hread)))

theorem holds_admitInFlight (h : InFlight status reserve leftover 0 0 s) (p : PageId)
    (requests : List PageId) :
    Holds (ReaderBound status) (admitRequest p requests)
      (fun _ t => InFlight status reserve leftover 0 0 t) s := by
  apply holds_bind
  rw [holds_get]
  apply holds_ite
  · intro _
    exact holds_pure.mpr h
  · intro _
    apply holds_ite
    · intro _
      exact holds_pure.mpr h
    · intro _
      apply holds_ite
      · intro _
        exact holds_pure.mpr h
      · intro _
        apply holds_ite
        · intro _
          exact holds_pure.mpr h
        · intro _
          exact holds_pure.mpr h

theorem holds_queueInFlight (h : InFlight status reserve leftover 0 0 s) (p : PageId)
    (requests : List PageId) (queued_pages : Finset PageId) :
    Holds (ReaderBound status) (queuePrefetchRequest p requests queued_pages)
      (fun _ t => InFlight status reserve leftover 0 0 t) s := by
  apply holds_bind
  rw [holds_get]
  apply holds_ite
  · intro _
    exact holds_pure.mpr h
  · intro _
    apply holds_ite
    · intro _
      exact holds_pure.mpr h
    · intro _
      apply holds_ite
      · intro _
        exact holds_pure.mpr h
      · intro _
        apply holds_ite
        · intro _
          apply holds_bind
          refine (holds_harvestInFlight h).mono fun _ t ht => ?_
          apply holds_bind
          exact (holds_admitInFlight ht p requests).mono fun _ u hu => holds_pure.mpr hu
        · intro _
          apply holds_bind
          exact (holds_admitInFlight h p requests).mono fun _ u hu => holds_pure.mpr hu

theorem holds_queueRequestsInFlight (huring : status.io_uring_enabled = true)
    (hroom : leftover + budget ≤ status.depth) (batch_limit : ℕ) (page_ids : List PageId)
    {requests : List PageId} {queued_pages : Finset PageId}
    (hqueued : Queued enabled budget requests s) (hcovers : Covers requests queued_pages)
    (h : InFlight status reserve leftover 0 0 s) :
    Holds (ReaderBound status) (queuePrefetchRequests batch_limit page_ids requests queued_pages)
      (fun _ t => InFlight status reserve leftover 0 0 t) s := by
  induction page_ids generalizing s requests queued_pages with
  | nil => exact holds_pure.mpr h
  | cons p page_ids ih =>
    rw [queuePrefetchRequests]
    apply holds_ite
    · intro _
      apply holds_bind
      refine ((holds_flushPrefetchRequests hqueued).both
        (holds_flushInFlight huring hroom hqueued h)).mono fun _ t ht => ?_
      apply holds_bind
      have hnone : Queued enabled budget [] t :=
        ⟨ht.1, List.nodup_nil, by simp, ht.1.within_budget⟩
      have hcovers' : Covers [] queued_pages := by simp [Covers]
      refine ((holds_queuePrefetchRequest hnone hcovers' p).both
        (holds_queueInFlight ht.2 p [] queued_pages)).mono fun queued u hu => ?_
      exact ih hu.1.1 hu.1.2 hu.2
    · intro _
      apply holds_bind
      refine ((holds_queuePrefetchRequest hqueued hcovers p).both
        (holds_queueInFlight h p requests queued_pages)).mono fun queued u hu => ?_
      exact ih hu.1.1 hu.1.2 hu.2

theorem holds_submitPlanInFlight (huring : status.io_uring_enabled = true)
    (hroom : leftover + budget ≤ status.depth) (hinv : Inv enabled budget ∅ s)
    (h : InFlight status reserve leftover 0 0 s) (page_ids : List PageId) :
    Holds (ReaderBound status) (submitPrefetchPlan page_ids)
      (fun _ t => InFlight status reserve leftover 0 0 t) s := by
  apply holds_bind
  rw [holds_get]
  apply holds_ite
  · intro _
    exact holds_pure.mpr h
  · intro _
    have hnone : Queued enabled budget [] s :=
      ⟨hinv, List.nodup_nil, by simp, hinv.within_budget⟩
    have hcovers : Covers [] ∅ := by simp [Covers]
    apply holds_bind
    refine ((holds_queuePrefetchRequests _ page_ids hnone hcovers).both
      (holds_queueRequestsInFlight huring hroom _ page_ids hnone hcovers h)).mono
      fun requests t ht => ?_
    apply holds_bind
    refine (holds_flushInFlight huring hroom ht.1 ht.2).mono fun _ u hu => ?_
    apply holds_bind
    exact (holds_harvestInFlight hu).mono fun _ v hv => holds_pure.mpr hv

theorem holds_drainInFlight (h : InFlight status reserve leftover 0 0 s) :
    Holds (ReaderBound status) drainReadyPages
      (fun _ t => InFlight status reserve leftover 0 0 t) s := by
  apply holds_bind
  rw [holds_get]
  apply holds_ite
  · intro _
    apply holds_bind
    apply holds_submitAsyncReads
    apply holds_bind
    exact (holds_harvestInFlight h).mono fun _ t ht => holds_pure.mpr ht
  · intro _
    exact holds_pure.mpr h

end Prefetch

end Packed.PageIo
