import AgentAware.Packed.SessionReads

/-!
# Pages that a query needs now

A page that is neither there nor under way is read once, alone or in a batch.

## Main results

- `holds_getOrLoadPage`, `holds_ensurePagesLoadedBatch` — the calls
-/

namespace Packed.PageIo

open Interaction

variable {α D : Type} {enabled : Bool} {budget : ℕ} {away : Set PageId}
  {s t : QueryPageSession α D} {p q : PageId}

/-- A page that was looked for in vain and is not under way is absent. -/
theorem Found.absent_of_missing {found : Bool} (h : Found enabled budget away s p found t)
    (hmissing : found = false) (hpending : p ∉ s.pending_pages)
    (howned : enabled = false → p ∉ s.owned_pages) : Absent enabled t p := by
  obtain ⟨hsame, hready⟩ := h.missing hmissing
  rw [hsame]
  exact ⟨hpending, hready, howned⟩

theorem holds_readDemandPage (h : Inv enabled budget ∅ s) (hp : Absent enabled s p) :
    Holds (Sound enabled budget) (readDemandPage p)
      (fun page t => Inv enabled budget {p} t ∧ page.page_id = p) s := by
  apply holds_bind
  rw [holds_get]
  apply holds_ite
  · intro _
    apply holds_bind
    refine (holds_batchSubmit [p] h (List.nodup_singleton p) fun q hq => ?_).mono
      fun submitted t ht => ?_
    · rw [List.mem_singleton.mp hq]
      exact ⟨hp, id⟩
    · have haway : {q | q ∈ [p]} ∪ ∅ = ({p} : Set PageId) := by
        ext q
        simp
      have hinv : Inv enabled budget {p} t := haway ▸ ht.inv
      cases submitted with
      | nil => exact holds_throw
      | cons read rest =>
        apply holds_bind
        rw [holds_change]
        have hinflight : Inv enabled budget {p} { t with
            demand_inflight_pages := t.demand_inflight_pages + 1 } :=
          inv_counters hinv _ _ _ _ _ _
        refine ⟨hinflight.toSound, ?_⟩
        -- the page stays away while completions of prefetches come in
        refine holds_repeatUntil (Inv enabled budget {p}) (fun u hu => ?_) hinflight
        apply holds_bind
        refine (holds_reapAsyncRead hu).mono fun o v hv => ?_
        cases o with
        | none => exact holds_throw
        | some completed =>
          apply holds_ite
          · intro _
            apply holds_bind
            rw [holds_change]
            have hdone : Inv enabled budget {p} { v with
                demand_inflight_pages := v.demand_inflight_pages - 1 } :=
              inv_counters hv.inv _ _ _ _ _ _
            refine ⟨hdone.toSound, ?_⟩
            apply holds_bind
            apply holds_ofExcept
            intro content _
            exact holds_pure.mpr ⟨hdone, rfl⟩
          · intro _
            apply holds_bind
            refine (holds_consumePrefetchCompletion hv.inv completed).mono fun _ w hw => ?_
            exact holds_pure.mpr hw.inv
  · intro _
    apply holds_bind
    refine (holds_readSync h hp (Set.notMem_empty p)).mono fun page t ht => ?_
    apply holds_bind
    apply holds_ofExcept
    intro content _
    have haway : insert p ∅ = ({p} : Set PageId) := by
      ext q
      simp
    exact holds_pure.mpr ⟨haway ▸ ht.1, rfl⟩

section Demand

variable [LT D] [DecidableLT D] [DecidableEq D]

theorem holds_loadPage (h : Inv enabled budget ∅ s) (hp : Absent enabled s p) :
    Holds (Sound enabled budget) (loadPage p) (fun _ t => Inv enabled budget ∅ t) s := by
  apply holds_bind
  rw [holds_change]
  have hdemand : Inv enabled budget ∅ { s with
      stats := { s.stats with demand_reads := s.stats.demand_reads + 1 }
      demand_pages := insert p s.demand_pages } := inv_counters h _ _ _ _ _ _
  refine ⟨hdemand.toSound, ?_⟩
  apply holds_bind
  refine (holds_readDemandPage hdemand ⟨hp.1, hp.2, hp.3⟩).mono fun page t ht => ?_
  apply holds_bind
  rw [holds_change]
  have hkeep := inv_keepPage ht.1 (ht.1.away_absent p rfl) page ht.2
  rw [Set.sdiff_self] at hkeep
  exact ⟨hkeep.toSound, holds_pure.mpr hkeep⟩

/-- The last look for a page, with no read of it under way. -/
theorem holds_takeOrLoadPage (h : Inv enabled budget ∅ s) (hpending : p ∉ s.pending_pages)
    (howned : enabled = false → p ∉ s.owned_pages) :
    Holds (Sound enabled budget) (takeOrLoadPage p) (fun _ t => Inv enabled budget ∅ t) s := by
  apply holds_bind
  rw [holds_act]
  have hfound := found_takePage (p := p) h
  refine ⟨hfound.inv.toSound, ?_⟩
  cases htake : (takePage p s).1 with
  | some page => exact holds_pure.mpr hfound.inv
  | none =>
    have hnone : (takePage p s).1.isSome = false := by rw [htake]; rfl
    exact holds_loadPage hfound.inv (hfound.absent_of_missing hnone hpending howned)

theorem holds_getOrLoadPage (h : Inv enabled budget ∅ s) (p : PageId) :
    Holds (Sound enabled budget) (getOrLoadPage p) (fun _ t => Inv enabled budget ∅ t) s := by
  apply holds_bind
  rw [holds_get]
  apply holds_ite
  · intro _
    exact holds_throw
  · intro _
    apply holds_bind
    rw [holds_change]
    have hvisited : Inv enabled budget ∅ { s with
        visited_pages := insert p s.visited_pages } := inv_counters h _ _ _ _ _ _
    refine ⟨hvisited.toSound, ?_⟩
    cases howned : s.owned_pages.lookup p with
    | some page => exact holds_pure.mpr hvisited
    | none =>
      rw [AList.lookup_eq_none] at howned
      apply holds_bind
      rw [holds_act]
      have hfound := found_takePage (p := p) hvisited
      refine ⟨hfound.inv.toSound, ?_⟩
      cases htake : (takePage p { s with visited_pages := insert p s.visited_pages }).1 with
      | some page => exact holds_pure.mpr hfound.inv
      | none =>
        obtain ⟨hsame, -⟩ := hfound.missing (by rw [htake]; rfl)
        rw [hsame]
        apply holds_bind
        rw [holds_get]
        apply holds_ite
        · intro _
          apply holds_bind
          rw [holds_change]
          have hhit : Inv enabled budget ∅ { s with
              visited_pages := insert p s.visited_pages
              pending_hit_pages := insert p s.pending_hit_pages } := inv_counters h _ _ _ _ _ _
          refine ⟨hhit.toSound, ?_⟩
          apply holds_bind
          -- the prefetch has come; if its page is gone again, it is read
          refine (holds_waitForPrefetchPage hhit p).mono fun _ t ht => ?_
          exact holds_takeOrLoadPage ht.1.inv ht.2 fun _ => ht.1.harvested.same_owned ▸ howned
        · intro hpending
          exact holds_takeOrLoadPage hvisited hpending fun _ => howned

/-- What waiting for one page leaves behind. -/
structure Awaited (enabled : Bool) (budget : ℕ) (s : QueryPageSession α D) (p : PageId)
    (found : Bool) (t : QueryPageSession α D) : Prop where
  inv : Inv enabled budget ∅ t
  absent : ∀ q, q ≠ p → Absent enabled s q → Absent enabled t q
  missing : found = false → Absent enabled t p

theorem awaited_materializeAvailable (h : Inv enabled budget ∅ s) (hpending : p ∉ s.pending_pages) :
    Awaited enabled budget s p (s.materializeAvailablePage p).1
      (s.materializeAvailablePage p).2 := by
  obtain ⟨hfound, howned⟩ := found_materializeAvailable (p := p) h
  exact ⟨hfound.inv, hfound.absent, fun hmissing =>
    hfound.absent_of_missing hmissing hpending fun _ => howned hmissing⟩

theorem holds_awaitAvailablePage (h : Inv enabled budget ∅ s) (p : PageId) :
    Holds (Sound enabled budget) (awaitAvailablePage p) (Awaited enabled budget s p) s := by
  apply holds_bind
  rw [holds_act]
  obtain ⟨hfound, howned⟩ := found_materializeAvailable (p := p) h
  refine ⟨hfound.inv.toSound, ?_⟩
  cases hresult : (s.materializeAvailablePage p).1 with
  | true => exact holds_pure.mpr ⟨hfound.inv, hfound.absent, nofun⟩
  | false =>
    obtain ⟨hsame, hready⟩ := hfound.missing hresult
    rw [hsame]
    apply holds_bind
    rw [holds_get]
    apply holds_ite
    · intro _
      apply holds_bind
      rw [holds_change]
      have hhit : Inv enabled budget ∅ { s with
          pending_hit_pages := insert p s.pending_hit_pages } := inv_counters h _ _ _ _ _ _
      refine ⟨hhit.toSound, ?_⟩
      apply holds_bind
      refine (holds_waitForPrefetchPage hhit p).mono fun _ t ht => ?_
      rw [holds_act]
      have hawaited := awaited_materializeAvailable ht.1.inv ht.2
      refine ⟨hawaited.inv.toSound, hawaited.inv, fun q hne hq => ?_, hawaited.missing⟩
      exact hawaited.absent q hne (ht.1.harvested.absent q ⟨hq.1, hq.2, hq.3⟩)
    · intro hpending
      exact holds_pure.mpr ⟨h, fun q _ hq => hq, fun _ => ⟨hpending, hready, fun _ =>
        howned hresult⟩⟩

theorem holds_collectMissing (page_ids : List PageId) (h : Inv enabled budget ∅ s) :
    Holds (Sound enabled budget) (collectMissing page_ids)
      (fun missing t => Inv enabled budget ∅ t ∧ missing.Sublist page_ids) s := by
  induction page_ids generalizing s with
  | nil => exact holds_pure.mpr ⟨h, .slnil⟩
  | cons p page_ids ih =>
    rw [collectMissing]
    apply holds_bind
    refine (holds_awaitAvailablePage h p).mono fun found t ht => ?_
    apply holds_ite
    · intro _
      exact (ih ht.inv).mono fun missing u hu => ⟨hu.1, hu.2.cons p⟩
    · intro _
      apply holds_bind
      refine (ih ht.inv).mono fun missing u hu => ?_
      exact holds_pure.mpr ⟨hu.1, hu.2.cons_cons p⟩

/-- What collecting the requests of a chunk leaves behind. -/
structure Collected (enabled : Bool) (budget : ℕ) (chunk : List PageId)
    (s : QueryPageSession α D) (requests : List PageId) (t : QueryPageSession α D) : Prop where
  inv : Inv enabled budget ∅ t
  sublist : requests.Sublist chunk
  requested : ∀ p ∈ requests, Absent enabled t p
  absent : ∀ p, p ∉ chunk → Absent enabled s p → Absent enabled t p

theorem holds_collectRequests (chunk : List PageId) (h : Inv enabled budget ∅ s)
    (hnodup : chunk.Nodup) :
    Holds (Sound enabled budget) (collectRequests chunk) (Collected enabled budget chunk s) s := by
  induction chunk generalizing s with
  | nil => exact holds_pure.mpr ⟨h, .slnil, by simp, fun p _ hp => hp⟩
  | cons p chunk ih =>
    rw [List.nodup_cons] at hnodup
    rw [collectRequests]
    apply holds_bind
    refine (holds_awaitAvailablePage h p).mono fun found t ht => ?_
    apply holds_ite
    · intro _
      refine (ih ht.inv hnodup.2).mono fun requests u hu => ?_
      refine ⟨hu.inv, hu.sublist.cons p, hu.requested, fun q hq habsent => ?_⟩
      rw [List.mem_cons, not_or] at hq
      exact hu.absent q hq.2 (ht.absent q hq.1 habsent)
    · intro hfound
      apply holds_bind
      rw [holds_change]
      have hdemand : Inv enabled budget ∅ { t with
          stats := { t.stats with demand_reads := t.stats.demand_reads + 1 }
          demand_pages := insert p t.demand_pages } := inv_counters ht.inv _ _ _ _ _ _
      refine ⟨hdemand.toSound, ?_⟩
      apply holds_bind
      refine (ih hdemand hnodup.2).mono fun requests u hu => ?_
      refine holds_pure.mpr ⟨hu.inv, hu.sublist.cons_cons p, fun q hq => ?_, fun q hq habsent => ?_⟩
      · rcases List.mem_cons.mp hq with rfl | hq
        · have hmissing := ht.missing (by simpa using hfound)
          exact hu.absent q hnodup.1 ⟨hmissing.1, hmissing.2, hmissing.3⟩
        · exact hu.requested q hq
      · rw [List.mem_cons, not_or] at hq
        have habsent' := ht.absent q hq.1 habsent
        exact hu.absent q hq.2 ⟨habsent'.1, habsent'.2, habsent'.3⟩

end Demand

section Batch

/-- The pages that are still to come. -/
def awayPages (submitted_pages : AList (fun _ : Token => PageId)) : Set PageId :=
  {p | ∃ token, submitted_pages.lookup token = some p}

theorem lookup_foldl_emplaceRead (submitted : List (PageId × Token))
    {pages : AList (fun _ : Token => PageId)} (hnodup : (submitted.map Prod.snd).Nodup)
    (hfresh : ∀ token ∈ submitted.map Prod.snd, token ∉ pages) (token : Token) (p : PageId) :
    (submitted.foldl emplaceRead pages).lookup token = some p ↔
      pages.lookup token = some p ∨ (p, token) ∈ submitted := by
  induction submitted generalizing pages with
  | nil => simp
  | cons read submitted ih =>
    rw [List.map_cons, List.nodup_cons] at hnodup
    have hread : read.2 ∉ pages := hfresh read.2 (by simp)
    rw [List.foldl_cons, emplaceRead, if_neg hread, ih hnodup.2]
    · by_cases htoken : token = read.2
      · subst htoken
        rw [AList.lookup_insert, AList.lookup_eq_none.mpr hread]
        have hnot : (p, read.2) ∉ submitted := fun hmem =>
          hnodup.1 (List.mem_map.mpr ⟨(p, read.2), hmem, rfl⟩)
        constructor
        · rintro (heq | hmem)
          · cases heq
            exact .inr List.mem_cons_self
          · exact absurd hmem hnot
        · rintro (heq | hmem)
          · cases heq
          · rcases List.mem_cons.mp hmem with heq | hmem
            · exact .inl (by rw [← heq])
            · exact absurd hmem hnot
      · rw [AList.lookup_insert_ne htoken, List.mem_cons]
        have hne : (p, token) ≠ read := by
          rintro rfl
          exact htoken rfl
        simp [hne]
    · intro other hother hmem
      rcases (AList.mem_insert pages).mp hmem with rfl | hmem
      · exact hnodup.1 hother
      · exact hfresh other (List.mem_cons_of_mem _ hother) hmem

theorem lookup_submittedPages {submitted : List (PageId × Token)}
    (hnodup : (submitted.map Prod.snd).Nodup) (token : Token) (p : PageId) :
    (submittedPages submitted).lookup token = some p ↔ (p, token) ∈ submitted := by
  have hlookup := @lookup_foldl_emplaceRead submitted ∅ hnodup (by simp) token p
  simpa [submittedPages] using hlookup

theorem awayPages_submittedPages {submitted : List (PageId × Token)}
    (hnodup : (submitted.map Prod.snd).Nodup) :
    awayPages (submittedPages submitted) = {p | p ∈ submitted.map Prod.fst} := by
  ext p
  constructor
  · rintro ⟨token, htoken⟩
    exact List.mem_map.mpr ⟨(p, token), (lookup_submittedPages hnodup token p).mp htoken, rfl⟩
  · intro hp
    obtain ⟨⟨q, token⟩, hmem, rfl⟩ := List.mem_map.mp hp
    exact ⟨token, (lookup_submittedPages hnodup token q).mpr hmem⟩

/-- No page is read under two tokens. -/
def Distinct (submitted_pages : AList (fun _ : Token => PageId)) : Prop :=
  ∀ t u p, submitted_pages.lookup t = some p → submitted_pages.lookup u = some p → t = u

theorem distinct_submittedPages {submitted : List (PageId × Token)}
    (htokens : (submitted.map Prod.snd).Nodup) (hpages : (submitted.map Prod.fst).Nodup) :
    Distinct (submittedPages submitted) := by
  intro t u p ht hu
  rw [lookup_submittedPages htokens] at ht hu
  have hpair := List.inj_on_of_nodup_map hpages ht hu rfl
  exact congrArg Prod.snd hpair

theorem awayPages_erase {submitted_pages : AList (fun _ : Token => PageId)} {token : Token}
    (hdistinct : Distinct submitted_pages) (htoken : submitted_pages.lookup token = some p) :
    awayPages (submitted_pages.erase token) = awayPages submitted_pages \ {p} := by
  ext q
  constructor
  · rintro ⟨u, hu⟩
    have hne : u ≠ token := by
      rintro rfl
      rw [AList.lookup_erase] at hu
      cases hu
    rw [AList.lookup_erase_ne hne] at hu
    refine ⟨⟨u, hu⟩, ?_⟩
    rintro rfl
    exact hne (hdistinct u token q hu htoken)
  · rintro ⟨⟨u, hu⟩, hqp⟩
    have hne : u ≠ token := by
      rintro rfl
      rw [htoken] at hu
      cases hu
      exact hqp rfl
    exact ⟨u, by rw [AList.lookup_erase_ne hne]; exact hu⟩

theorem Distinct.erase {submitted_pages : AList (fun _ : Token => PageId)}
    (hdistinct : Distinct submitted_pages) (token : Token) :
    Distinct (submitted_pages.erase token) := by
  have hlookup : ∀ u q, (submitted_pages.erase token).lookup u = some q →
      submitted_pages.lookup u = some q := by
    intro u q hu
    by_cases hne : u = token
    · subst hne
      rw [AList.lookup_erase] at hu
      cases hu
    · rw [AList.lookup_erase_ne hne] at hu
      exact hu
  intro t u p ht hu
  exact hdistinct t u p (hlookup t p ht) (hlookup u p hu)

theorem inv_inflight (h : Inv enabled budget away s) (demand_inflight_pages : ℕ) :
    Inv enabled budget away { s with demand_inflight_pages := demand_inflight_pages } :=
  inv_counters h _ _ _ _ _ _

variable [LT D] [DecidableLT D] [DecidableEq D]

theorem holds_awaitBatch (remaining : ℕ) {submitted_pages : AList (fun _ : Token => PageId)}
    (h : Inv enabled budget (awayPages submitted_pages) s) (hdistinct : Distinct submitted_pages)
    (hremaining : submitted_pages.keys.length = remaining) :
    Holds (Sound enabled budget) (awaitBatch remaining submitted_pages)
      (fun _ t => Inv enabled budget ∅ t) s := by
  induction remaining generalizing s submitted_pages with
  | zero =>
    have hnone : awayPages submitted_pages = ∅ := by
      ext p
      simp only [awayPages, Set.mem_ofPred_eq, Set.mem_empty_iff_false, iff_false, not_exists]
      intro token htoken
      have hmem : token ∈ submitted_pages.keys :=
        AList.lookup_isSome.mp (by rw [htoken]; rfl)
      rw [List.length_eq_zero_iff.mp hremaining] at hmem
      exact absurd hmem List.not_mem_nil
    exact holds_pure.mpr (hnone ▸ h)
  | succ remaining ih =>
    rw [awaitBatch]
    apply holds_bind
    -- what comes under another token is a prefetch
    have hwait : Holds (Sound enabled budget)
        (awaitCompletion submitted_pages : SessionM α D (CompletedRead α))
        (fun completed t => Inv enabled budget (awayPages submitted_pages) t ∧
          completed.token ∈ submitted_pages) s := by
      refine holds_repeatUntil (Inv enabled budget (awayPages submitted_pages)) (fun t ht => ?_) h
      apply holds_bind
      refine (holds_reapAsyncRead ht).mono fun o u hu => ?_
      cases o with
      | none => exact holds_throw
      | some completed =>
        apply holds_ite
        · intro htoken
          exact holds_pure.mpr ⟨hu.inv, htoken⟩
        · intro _
          apply holds_bind
          refine (holds_consumePrefetchCompletion hu.inv completed).mono fun _ v hv => ?_
          exact holds_pure.mpr hv.inv
    refine hwait.mono fun completed t ht => ?_
    obtain ⟨hinv, htoken⟩ := ht
    cases hlookup : submitted_pages.lookup completed.token with
    | none => exact absurd htoken (AList.lookup_eq_none.mp hlookup)
    | some p =>
      apply holds_bind
      apply holds_ofExcept
      intro content _
      apply holds_bind
      rw [holds_change]
      -- the page has come, and leaves those that are away
      have hkeep := inv_keepPage hinv (hinv.away_absent p ⟨completed.token, hlookup⟩)
        { page_id := p, content := content } rfl
      rw [← awayPages_erase hdistinct hlookup] at hkeep
      refine ⟨hkeep.toSound, ?_⟩
      apply holds_bind
      rw [holds_change]
      refine ⟨(inv_inflight hkeep _).toSound, ih (inv_inflight hkeep _)
        (hdistinct.erase completed.token) ?_⟩
      have hlength := length_keys_erase htoken
      omega

theorem holds_loadChunk {chunk : List PageId} (h : Inv enabled budget ∅ s)
    (hnodup : chunk.Nodup) :
    Holds (Sound enabled budget) (loadChunk chunk) (fun _ t => Inv enabled budget ∅ t) s := by
  apply holds_bind
  refine (holds_collectRequests chunk h hnodup).mono fun requests t ht => ?_
  apply holds_ite
  · intro _
    exact holds_pure.mpr ht.inv
  · intro _
    apply holds_bind
    have hrequests : requests.Nodup := hnodup.sublist ht.sublist
    refine (holds_batchSubmit requests ht.inv hrequests fun p hp => ⟨ht.requested p hp, id⟩).mono
      fun submitted u hu => ?_
    have haway : {p | p ∈ requests} ∪ ∅ = awayPages (submittedPages submitted) := by
      rw [awayPages_submittedPages hu.tokens, hu.pages, Set.union_empty]
    have hinv := hu.inv
    rw [haway] at hinv
    apply holds_bind
    rw [holds_change]
    have hinflight : Inv enabled budget (awayPages (submittedPages submitted)) { u with
        demand_inflight_pages :=
          u.demand_inflight_pages + (submittedPages submitted).keys.length } :=
      inv_counters hinv _ _ _ _ _ _
    refine ⟨hinflight.toSound, ?_⟩
    exact holds_awaitBatch _ hinflight
      (distinct_submittedPages hu.tokens (hu.pages ▸ hrequests)) rfl

theorem holds_loadChunks (chunk_limit chunks : ℕ) {missing_pages : List PageId}
    (h : Inv enabled budget ∅ s) (hnodup : missing_pages.Nodup) :
    Holds (Sound enabled budget) (loadChunks chunk_limit chunks missing_pages)
      (fun _ t => Inv enabled budget ∅ t) s := by
  induction chunks generalizing s missing_pages with
  | zero => exact holds_pure.mpr h
  | succ chunks ih =>
    rw [loadChunks]
    apply holds_ite
    · intro _
      exact holds_pure.mpr h
    · intro _
      apply holds_bind
      refine (holds_loadChunk h (hnodup.sublist (List.take_sublist _ _))).mono fun _ t ht => ?_
      exact ih ht (hnodup.sublist (List.drop_sublist _ _))

theorem holds_ensurePagesLoadedBatch (h : Inv enabled budget ∅ s) (page_ids : List PageId) :
    Holds (Sound enabled budget) (ensurePagesLoadedBatch page_ids)
      (fun _ t => Inv enabled budget ∅ t) s := by
  have hunique : (Versions.firsts id page_ids).Nodup := by
    have hnodup := Versions.firstsFrom_nodup (f := (id : PageId → PageId)) [] page_ids
    rwa [List.map_id] at hnodup
  apply holds_bind
  rw [holds_get]
  apply holds_ite
  · intro _
    exact holds_pure.mpr h
  · intro _
    apply holds_ite
    · intro _
      exact holds_throw
    · intro _
      apply holds_bind
      rw [holds_change]
      -- the statistics only
      have hvisited : Inv enabled budget ∅ { s with
          visited_pages := s.visited_pages ∪ page_ids.toFinset } := inv_counters h _ _ _ _ _ _
      refine ⟨hvisited.toSound, ?_⟩
      apply holds_bind
      refine (holds_collectMissing _ hvisited).mono fun missing t ht => ?_
      have hmissing : missing.Nodup := hunique.sublist ht.2
      apply holds_ite
      · intro _
        apply holds_bind
        refine (holds_harvestAll ht.1).mono fun _ u hu => ?_
        exact holds_loadChunks _ _ hu.inv hmissing
      · intro _
        exact holds_loadChunks _ _ ht.1 hmissing

end Batch

end Packed.PageIo
