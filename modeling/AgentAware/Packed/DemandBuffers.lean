import AgentAware.Packed.ReaderBuffers

/-!
# Buffers for the pages that a query needs now

A query keeps a reserve of buffers for its demand reads: a batch is read in chunks that fit into it,
a page by itself takes one of them.

## Main results

- `holds_getInFlight`, `holds_ensureInFlight` — the calls
-/

namespace Packed.PageIo

open Interaction

variable {α D : Type}

variable {status : DiskGraphIoStatus} {reserve leftover spare under_way : ℕ}
  {s t : QueryPageSession α D} {p : PageId}

section Demand

variable {enabled : Bool} {budget : ℕ}

/-- A demand read takes one buffer beside those of the prefetches. -/
theorem holds_demandInFlight (huring : status.io_uring_enabled = true)
    (hroom : leftover + budget < status.depth) (hinv : Inv enabled budget ∅ s)
    (h : InFlight status reserve leftover 0 0 s) (p : PageId) :
    Holds (ReaderBound status) (readDemandPage p)
      (fun _ t => InFlight status reserve leftover 0 0 t) s := by
  have htokens := length_tokens_le hinv
  have hbudget := hinv.within_budget
  apply holds_bind
  rw [holds_get]
  apply holds_ite
  · intro _
    apply holds_bind
    refine (holds_batchInFlight huring [p] 0 h (by rw [List.length_singleton]; omega)).mono
      fun submitted t ht => ?_
    cases submitted with
    | nil => exact holds_throw
    | cons read rest =>
      apply holds_bind
      rw [holds_change]
      have hinflight : InFlight status reserve leftover 0 1 { t with
          demand_inflight_pages := t.demand_inflight_pages + 1 } :=
        ht.inFlight.same ⟨rfl, rfl, rfl⟩
      refine ⟨hinflight.toReaderBound, ?_⟩
      refine holds_repeatUntil (InFlight status reserve leftover 0 1) (fun u hu => ?_) hinflight
      apply holds_bind
      refine (holds_reapInFlight hu).mono fun o v hv => ?_
      cases o with
      | none => exact holds_throw
      | some completed =>
        apply holds_ite
        · intro _
          apply holds_bind
          rw [holds_change]
          have hdone : InFlight status reserve leftover 0 0 { v with
              demand_inflight_pages := v.demand_inflight_pages - 1 } :=
            (hv.2.weaken (Nat.le_refl 1)).same ⟨rfl, rfl, rfl⟩
          refine ⟨hdone.toReaderBound, ?_⟩
          apply holds_bind
          apply holds_ofExcept
          intro content _
          exact holds_pure.mpr hdone
        · intro _
          apply holds_bind
          exact (holds_consumeInFlight hv.2 completed).mono fun _ w hw => holds_pure.mpr hw
  · intro hdisabled
    exact absurd (h.pool.status_eq ▸ huring) hdisabled

variable [LT D] [DecidableLT D] [DecidableEq D]

theorem holds_loadInFlight (huring : status.io_uring_enabled = true)
    (hroom : leftover + budget < status.depth) (hinv : Inv enabled budget ∅ s)
    (h : InFlight status reserve leftover 0 0 s) (p : PageId) :
    Holds (ReaderBound status) (loadPage p)
      (fun _ t => InFlight status reserve leftover 0 0 t) s := by
  apply holds_bind
  rw [holds_change]
  have hdemand : Inv enabled budget ∅ { s with
      stats := { s.stats with demand_reads := s.stats.demand_reads + 1 }
      demand_pages := insert p s.demand_pages } := inv_counters hinv _ _ _ _ _ _
  have hsame : InFlight status reserve leftover 0 0 { s with
      stats := { s.stats with demand_reads := s.stats.demand_reads + 1 }
      demand_pages := insert p s.demand_pages } := h.same ⟨rfl, rfl, rfl⟩
  refine ⟨hsame.toReaderBound, ?_⟩
  apply holds_bind
  refine (holds_demandInFlight huring hroom hdemand hsame p).mono fun page t ht => ?_
  apply holds_bind
  rw [holds_change]
  have hkept := ht.same (sameReads_keepMaterialized p page)
  exact ⟨hkept.toReaderBound, holds_pure.mpr hkept⟩

theorem holds_takeOrLoadInFlight (huring : status.io_uring_enabled = true)
    (hroom : leftover + budget < status.depth) (hinv : Inv enabled budget ∅ s)
    (h : InFlight status reserve leftover 0 0 s) (p : PageId) :
    Holds (ReaderBound status) (takeOrLoadPage p)
      (fun _ t => InFlight status reserve leftover 0 0 t) s := by
  apply holds_bind
  rw [holds_act]
  have htaken := h.same (@sameReads_takePage α D s p _ _ _)
  refine ⟨htaken.toReaderBound, ?_⟩
  cases htake : (takePage p s).1 with
  | some page => exact holds_pure.mpr htaken
  | none => exact holds_loadInFlight huring hroom (found_takePage hinv).inv htaken p

theorem holds_getInFlight (huring : status.io_uring_enabled = true)
    (hroom : leftover + budget < status.depth) (hinv : Inv enabled budget ∅ s)
    (h : InFlight status reserve leftover 0 0 s) (p : PageId) :
    Holds (ReaderBound status) (getOrLoadPage p)
      (fun _ t => InFlight status reserve leftover 0 0 t) s := by
  apply holds_bind
  rw [holds_get]
  apply holds_ite
  · intro _
    exact holds_throw
  · intro _
    apply holds_bind
    rw [holds_change]
    have hvisited : Inv enabled budget ∅ { s with
        visited_pages := insert p s.visited_pages } := inv_counters hinv _ _ _ _ _ _
    have hsame : InFlight status reserve leftover 0 0 { s with
        visited_pages := insert p s.visited_pages } := h.same ⟨rfl, rfl, rfl⟩
    refine ⟨hsame.toReaderBound, ?_⟩
    cases s.owned_pages.lookup p with
    | some page => exact holds_pure.mpr hsame
    | none =>
      apply holds_bind
      rw [holds_act]
      have htaken := hsame.same (@sameReads_takePage α D _ p _ _ _)
      have hfound := (found_takePage (p := p) hvisited).inv
      refine ⟨htaken.toReaderBound, ?_⟩
      cases htake : (takePage p { s with visited_pages := insert p s.visited_pages }).1 with
      | some page => exact holds_pure.mpr htaken
      | none =>
        generalize (takePage p { s with visited_pages := insert p s.visited_pages }).2 = t at *
        apply holds_bind
        rw [holds_get]
        apply holds_ite
        · intro _
          apply holds_bind
          rw [holds_change]
          have hhit : Inv enabled budget ∅ { t with
              pending_hit_pages := insert p t.pending_hit_pages } :=
            inv_counters hfound _ _ _ _ _ _
          have hsame' : InFlight status reserve leftover 0 0 { t with
              pending_hit_pages := insert p t.pending_hit_pages } := htaken.same ⟨rfl, rfl, rfl⟩
          refine ⟨hsame'.toReaderBound, ?_⟩
          apply holds_bind
          refine ((holds_waitForPrefetchPage hhit p).both (holds_waitInFlight hsame' p)).mono
            fun _ u hu => ?_
          exact holds_takeOrLoadInFlight huring hroom hu.1.1.inv hu.2 p
        · intro _
          exact holds_takeOrLoadInFlight huring hroom hfound htaken p

theorem holds_awaitAvailableInFlight (h : InFlight status reserve leftover 0 0 s) (p : PageId) :
    Holds (ReaderBound status) (awaitAvailablePage p)
      (fun _ t => InFlight status reserve leftover 0 0 t) s := by
  apply holds_bind
  rw [holds_act]
  have hlooked := h.same (@sameReads_materializeAvailablePage α D s p _ _ _)
  refine ⟨hlooked.toReaderBound, ?_⟩
  apply holds_ite
  · intro _
    exact holds_pure.mpr hlooked
  · intro _
    apply holds_bind
    rw [holds_get]
    apply holds_ite
    · intro _
      apply holds_bind
      rw [holds_change]
      have hhit := hlooked.same (t := { (s.materializeAvailablePage p).2 with
        pending_hit_pages := insert p (s.materializeAvailablePage p).2.pending_hit_pages })
        ⟨rfl, rfl, rfl⟩
      refine ⟨hhit.toReaderBound, ?_⟩
      apply holds_bind
      refine (holds_waitInFlight hhit p).mono fun _ t ht => ?_
      rw [holds_act]
      have hagain := ht.same (@sameReads_materializeAvailablePage α D t p _ _ _)
      exact ⟨hagain.toReaderBound, hagain⟩
    · intro _
      exact holds_pure.mpr hlooked

theorem holds_collectMissingInFlight (page_ids : List PageId)
    (h : InFlight status reserve leftover 0 0 s) :
    Holds (ReaderBound status) (collectMissing page_ids)
      (fun _ t => InFlight status reserve leftover 0 0 t) s := by
  induction page_ids generalizing s with
  | nil => exact holds_pure.mpr h
  | cons p page_ids ih =>
    rw [collectMissing]
    apply holds_bind
    refine (holds_awaitAvailableInFlight h p).mono fun found t ht => ?_
    apply holds_ite
    · intro _
      exact ih ht
    · intro _
      apply holds_bind
      exact (ih ht).mono fun _ u hu => holds_pure.mpr hu

theorem holds_collectRequestsInFlight (chunk : List PageId)
    (h : InFlight status reserve leftover 0 0 s) :
    Holds (ReaderBound status) (collectRequests chunk)
      (fun _ t => InFlight status reserve leftover 0 0 t) s := by
  induction chunk generalizing s with
  | nil => exact holds_pure.mpr h
  | cons p chunk ih =>
    rw [collectRequests]
    apply holds_bind
    refine (holds_awaitAvailableInFlight h p).mono fun found t ht => ?_
    apply holds_ite
    · intro _
      exact ih ht
    · intro _
      apply holds_bind
      rw [holds_change]
      have hsame := ht.same (t := { t with
        stats := { t.stats with demand_reads := t.stats.demand_reads + 1 }
        demand_pages := insert p t.demand_pages }) ⟨rfl, rfl, rfl⟩
      refine ⟨hsame.toReaderBound, ?_⟩
      apply holds_bind
      exact (ih hsame).mono fun _ u hu => holds_pure.mpr hu

omit [LT D] [DecidableLT D] [DecidableEq D] in
theorem holds_awaitCompletionInFlight (submitted_pages : AList (fun _ : Token => PageId))
    (h : InFlight status reserve leftover 0 under_way s) :
    Holds (ReaderBound status) (awaitCompletion submitted_pages) (fun completed t =>
      completed.token ∈ submitted_pages ∧ InFlight status reserve leftover 1 under_way t) s := by
  refine holds_repeatUntil (InFlight status reserve leftover 0 under_way) (fun t ht => ?_) h
  apply holds_bind
  refine (holds_reapInFlight ht).mono fun o u hu => ?_
  cases o with
  | none => exact holds_throw
  | some completed =>
    apply holds_ite
    · intro htoken
      exact holds_pure.mpr ⟨htoken, hu.2⟩
    · intro _
      apply holds_bind
      exact (holds_consumeInFlight hu.2 completed).mono fun _ v hv => holds_pure.mpr hv

theorem holds_awaitBatchInFlight (remaining : ℕ)
    {submitted_pages : AList (fun _ : Token => PageId)}
    (h : InFlight status reserve leftover 0 remaining s)
    (hremaining : submitted_pages.keys.length = remaining) :
    Holds (ReaderBound status) (awaitBatch remaining submitted_pages)
      (fun _ t => InFlight status reserve leftover 0 0 t) s := by
  induction remaining generalizing s submitted_pages with
  | zero => exact holds_pure.mpr h
  | succ remaining ih =>
    rw [awaitBatch]
    apply holds_bind
    refine (holds_awaitCompletionInFlight submitted_pages h).mono fun completed t ht => ?_
    obtain ⟨htoken, hinflight⟩ := ht
    cases hlookup : submitted_pages.lookup completed.token with
    | none => exact absurd htoken (AList.lookup_eq_none.mp hlookup)
    | some p =>
      apply holds_bind
      apply holds_ofExcept
      intro content _
      apply holds_bind
      rw [holds_change]
      have hdone : InFlight status reserve leftover 0 remaining t :=
        hinflight.weaken (by omega)
      have hkept := hdone.same (sameReads_keepMaterialized p { page_id := p, content := content })
      refine ⟨hkept.toReaderBound, ?_⟩
      apply holds_bind
      rw [holds_change]
      have hlength := length_keys_erase htoken
      generalize (t.keepPage p { page_id := p, content := content }).materializePage p = u
        at hkept
      have hcounted : InFlight status reserve leftover 0 remaining { u with
          demand_inflight_pages := u.demand_inflight_pages - 1 } := hkept.same ⟨rfl, rfl, rfl⟩
      exact ⟨hcounted.toReaderBound, ih hcounted (by omega)⟩

omit [LT D] [DecidableLT D] [DecidableEq D] in
theorem length_foldl_emplaceRead (submitted : List (PageId × Token))
    {pages : AList (fun _ : Token => PageId)} (hnodup : (submitted.map Prod.snd).Nodup)
    (hfresh : ∀ read ∈ submitted, read.2 ∉ pages) :
    (submitted.foldl emplaceRead pages).keys.length = pages.keys.length + submitted.length := by
  induction submitted generalizing pages with
  | nil => rfl
  | cons read submitted ih =>
    rw [List.map_cons, List.nodup_cons] at hnodup
    have hread := hfresh read List.mem_cons_self
    rw [List.foldl_cons, emplaceRead, if_neg hread, ih hnodup.2, length_keys_insert hread,
      List.length_cons]
    · omega
    · intro other hother hin
      rcases (AList.mem_insert pages).mp hin with heq | hin
      · exact hnodup.1 (heq ▸ List.mem_map_of_mem hother)
      · exact hfresh other (List.mem_cons_of_mem _ hother) hin

theorem holds_loadChunkInFlight (huring : status.io_uring_enabled = true)
    (hroom : leftover + budget + reserve ≤ status.depth) {chunk : List PageId}
    (hchunk : chunk.length ≤ reserve) (hnodup : chunk.Nodup) (hinv : Inv enabled budget ∅ s)
    (h : InFlight status reserve leftover 0 0 s) :
    Holds (ReaderBound status) (loadChunk chunk)
      (fun _ t => InFlight status reserve leftover 0 0 t) s := by
  apply holds_bind
  refine ((holds_collectRequests chunk hinv hnodup).both
    (holds_collectRequestsInFlight chunk h)).mono fun requests t ht => ?_
  obtain ⟨hcollected, hinflight⟩ := ht
  apply holds_ite
  · intro _
    exact holds_pure.mpr hinflight
  · intro _
    apply holds_bind
    have htokens := length_tokens_le hcollected.inv
    have hbudget := hcollected.inv.within_budget
    have hrequests := hcollected.sublist.length_le
    refine ((holds_batchSubmit requests hcollected.inv (hnodup.sublist hcollected.sublist)
      fun p hp => ⟨hcollected.requested p hp, id⟩).both
        (holds_batchInFlight huring requests 0 hinflight (by omega))).mono fun submitted u hu => ?_
    obtain ⟨hsubmitted, hsent⟩ := hu
    apply holds_bind
    rw [holds_change]
    have hlength : (submittedPages submitted).keys.length = requests.length := by
      rw [submittedPages, length_foldl_emplaceRead submitted hsubmitted.tokens (by simp),
        ← hsubmitted.pages, List.length_map]
      exact Nat.zero_add _
    have hcounted : InFlight status reserve leftover 0 (submittedPages submitted).keys.length
        { u with demand_inflight_pages :=
            u.demand_inflight_pages + (submittedPages submitted).keys.length } :=
      (hsent.inFlight.weaken (by omega)).same ⟨rfl, rfl, rfl⟩
    exact ⟨hcounted.toReaderBound, holds_awaitBatchInFlight _ hcounted rfl⟩

theorem holds_loadChunksInFlight (huring : status.io_uring_enabled = true)
    (hroom : leftover + budget + reserve ≤ status.depth) (chunks : ℕ)
    {missing_pages : List PageId} (hnodup : missing_pages.Nodup)
    (hinv : Inv enabled budget ∅ s) (h : InFlight status reserve leftover 0 0 s) :
    Holds (ReaderBound status) (loadChunks reserve chunks missing_pages)
      (fun _ t => InFlight status reserve leftover 0 0 t) s := by
  induction chunks generalizing s missing_pages with
  | zero => exact holds_pure.mpr h
  | succ chunks ih =>
    rw [loadChunks]
    apply holds_ite
    · intro _
      exact holds_pure.mpr h
    · intro _
      apply holds_bind
      have hchunk : (missing_pages.take reserve).Nodup := hnodup.sublist (List.take_sublist _ _)
      refine ((holds_loadChunk hinv hchunk).both (holds_loadChunkInFlight huring hroom
        (List.length_take_le _ _) hchunk hinv h)).mono fun _ t ht => ?_
      exact ih (hnodup.sublist (List.drop_sublist _ _)) ht.1 ht.2

theorem holds_ensureInFlight (huring : status.io_uring_enabled = true)
    (hroom : leftover + budget + reserve ≤ status.depth) (hinv : Inv enabled budget ∅ s)
    (h : InFlight status reserve leftover 0 0 s) (page_ids : List PageId) :
    Holds (ReaderBound status) (ensurePagesLoadedBatch page_ids)
      (fun _ t => InFlight status reserve leftover 0 0 t) s := by
  have hunique : (Versions.firsts id page_ids).Nodup := by
    have hnodup := Versions.firstsFrom_nodup (f := (id : PageId → PageId)) [] page_ids
    rwa [List.map_id] at hnodup
  have hlimit : ∀ missing_pages : List PageId,
      (if s.page_reader.status.io_uring_enabled = true then s.demandIoReserve
        else missing_pages.length) = reserve := by
    intro missing_pages
    rw [h.pool.status_eq, if_pos huring, h.reserve_eq]
  apply holds_bind
  rw [holds_get]
  apply holds_ite
  · intro _
    exact holds_pure.mpr h
  · intro _
    apply holds_ite
    · intro _
      exact holds_throw
    · intro _
      apply holds_bind
      rw [holds_change]
      have hvisited : Inv enabled budget ∅ { s with
          visited_pages := s.visited_pages ∪ page_ids.toFinset } :=
        inv_counters hinv _ _ _ _ _ _
      have hsame : InFlight status reserve leftover 0 0 { s with
          visited_pages := s.visited_pages ∪ page_ids.toFinset } := h.same ⟨rfl, rfl, rfl⟩
      refine ⟨hsame.toReaderBound, ?_⟩
      apply holds_bind
      refine ((holds_collectMissing _ hvisited).both
        (holds_collectMissingInFlight _ hsame)).mono fun missing t ht => ?_
      obtain ⟨⟨hcollected, hsublist⟩, hinflight⟩ := ht
      have hmissing : missing.Nodup := hunique.sublist hsublist
      apply holds_ite
      · intro _
        apply holds_bind
        refine ((holds_harvestAll hcollected).both
          (holds_harvestAllInFlight hinflight)).mono fun _ u hu => ?_
        dsimp only
        rw [hlimit]
        exact holds_loadChunksInFlight huring hroom _ hmissing hu.1.inv hu.2
      · intro _
        dsimp only
        rw [hlimit]
        exact holds_loadChunksInFlight huring hroom _ hmissing hcollected hinflight

end Demand

end Packed.PageIo
