import AgentAware.Lib.Relies
import AgentAware.Packed.SessionInvariant

/-!
# The contents of the pages of a session

Every read is answered with the bytes of the page it was submitted for, after any time and in any
order. Then a page that the cache or the session holds under an id is the page of that id in the file:
no completion, whichever order it comes in, brings a page under the id of another one.

## Main definitions

- `ReadLog` — the file, and what the reads of a run are of
- `Logged`, `Delivers` — the reads are those of the log, and the replies answer them
- `Faithful` — what a session holds is what the file holds

## Main results

- `relies_readDemandPage`, `relies_waitForPrefetchPage`, `relies_submitPrefetchPlan` — the programs of
  a session keep it faithful
-/

namespace Packed.PageIo

open Interaction

variable {α D : Type}

/-- The pages of the file, decoded, and the pages that the reads of a run are of. -/
structure ReadLog (α : Type) where
  file : PageId → Except String α
  /-- The page that a token was submitted for, in this query or in one before it. -/
  assigned : Token → PageId
  /-- The page of a read of this query, in the order of submission. -/
  reads : ℕ → PageId

/-- A page that is the one of the file. -/
def ReadLog.Holds (log : ReadLog α) (page : DecodedPage α) : Prop :=
  log.file page.page_id = .ok page.content

/-- A step of a run submits the reads of the log, under their tokens. -/
def Logged (log : ReadLog α) (s t : QueryPageSession α D) : Prop :=
  (∀ i p, t.submitted_reads.reverse[i]? = some p → log.reads i = p) ∧
  (t.page_reader.next_async_token = s.page_reader.next_async_token + 1 →
    t.submitted_reads.head? = some (log.assigned s.page_reader.next_async_token))

instance Logged.decidable (log : ReadLog α) (s t : QueryPageSession α D) :
    Decidable (Logged log s t) :=
  decidable_of_iff ((∀ read ∈ t.submitted_reads.reverse.zipIdx, log.reads read.2 = read.1) ∧
    (t.page_reader.next_async_token = s.page_reader.next_async_token + 1 →
      t.submitted_reads.head? = some (log.assigned s.page_reader.next_async_token)))
    (and_congr_left fun _ => ⟨fun h i p hread => h (p, i) (List.mem_zipIdx_iff_getElem?.mpr hread),
      fun h read hread => h read.2 read.1 (List.mem_zipIdx_iff_getElem?.mp hread)⟩)

/-- The replies to come answer the reads: by their tokens, or in turn when reads are synchronous. -/
def Delivers (log : ReadLog α) (s : QueryPageSession α D) (replies : List (Reply α)) : Prop :=
  if s.page_reader.status.io_uring_enabled then
    ∀ token page, .completed token page ∈ replies → page = log.file (log.assigned token)
  else
    ∀ i token page, replies[i]? = some (.completed token page) →
      page = log.file (log.reads (s.submitted_reads.length + i))

/-- What the session, its cache and its reader hold is what the file holds. -/
structure Faithful (log : ReadLog α) (s : QueryPageSession α D) (replies : List (Reply α)) :
    Prop where
  cached : ∀ entry ∈ s.index.page_cache, log.Holds entry.page
  owned : ∀ p page, s.owned_pages.lookup p = some page → page.page_id = p ∧ log.Holds page
  ready : ∀ p page, s.ready_prefetch_pages.lookup p = some page →
    page.page_id = p ∧ log.Holds page
  tokens : ∀ token p, s.token_to_page.lookup token = some p → log.assigned token = p
  inline_completions : ∀ completed ∈ s.page_reader.inline_completions,
    completed.page = log.file (log.assigned completed.token)
  delivers : Delivers log s replies

variable {log : ReadLog α} {s t : QueryPageSession α D} {replies rest : List (Reply α)}
  {p q : PageId}

section Frame

/-- What the contents are read from. -/
structure SameContents (s t : QueryPageSession α D) : Prop where
  page_cache : t.index.page_cache = s.index.page_cache
  owned_pages : t.owned_pages = s.owned_pages
  ready_prefetch_pages : t.ready_prefetch_pages = s.ready_prefetch_pages
  token_to_page : t.token_to_page = s.token_to_page
  inline_completions : t.page_reader.inline_completions = s.page_reader.inline_completions
  enabled : t.page_reader.status.io_uring_enabled = s.page_reader.status.io_uring_enabled
  submitted_reads : t.submitted_reads = s.submitted_reads

theorem Faithful.same (h : Faithful log s replies) (hsame : SameContents s t) :
    Faithful log t replies where
  cached := hsame.page_cache ▸ h.cached
  owned := hsame.owned_pages ▸ h.owned
  ready := hsame.ready_prefetch_pages ▸ h.ready
  tokens := hsame.token_to_page ▸ h.tokens
  inline_completions := hsame.inline_completions ▸ h.inline_completions
  delivers := by
    have hdelivers := h.delivers
    rw [Delivers] at hdelivers ⊢
    rw [hsame.enabled, hsame.submitted_reads]
    exact hdelivers

/-- A reply that answers no read is passed over. -/
theorem Faithful.tail {reply : Reply α} (h : Faithful log s (reply :: rest))
    (henabled : s.page_reader.status.io_uring_enabled = true) : Faithful log s rest :=
  { h with
    delivers := by
      have hdelivers := h.delivers
      rw [Delivers, if_pos henabled] at hdelivers ⊢
      exact fun token page hmem => hdelivers token page (List.mem_cons_of_mem _ hmem) }

end Frame

section Reap

theorem relies_mayFail (h : Faithful log s replies)
    (henabled : s.page_reader.status.io_uring_enabled = true) :
    Relies (Logged log) mayFail (fun _ t rest => t = s ∧ Faithful log t rest) s replies := by
  apply relies_bind
  apply relies_ask
  rintro reply rest rfl
  cases reply with
  | nothing => exact relies_pure ⟨rfl, h.tail henabled⟩
  | completed token page => exact relies_pure ⟨rfl, h.tail henabled⟩
  | failed token reason => exact relies_throw

theorem relies_submitAsyncReads (h : Faithful log s replies) :
    Relies (Logged log) submitAsyncReads (fun _ t rest => t = s ∧ Faithful log t rest) s
      replies := by
  apply relies_bind
  apply relies_get
  apply relies_ite
  · intro henabled
    exact relies_mayFail h henabled
  · intro _
    exact relies_pure ⟨rfl, h⟩

/-- A completed read brings the page that its token was submitted for. -/
def Delivered (log : ReadLog α) (o : Option (CompletedRead α)) (t : QueryPageSession α D)
    (rest : List (Reply α)) : Prop :=
  Faithful log t rest ∧ ∀ completed, o = some completed →
    completed.page = log.file (log.assigned completed.token)

theorem relies_reapAsyncRead (h : Faithful log s replies) :
    Relies (Logged log) reapAsyncRead (Delivered log) s replies := by
  apply relies_bind
  apply relies_get
  cases hinline : s.page_reader.inline_completions with
  | cons completed later =>
    apply relies_bind
    refine relies_change fun _ => relies_pure ⟨?_, fun _ heq => ?_⟩
    · exact { h.same (t := s) ⟨rfl, rfl, rfl, rfl, rfl, rfl, rfl⟩ with
        inline_completions := fun other hother =>
          h.inline_completions other (hinline ▸ List.mem_cons_of_mem _ hother) }
    · cases heq
      exact h.inline_completions completed (hinline ▸ List.mem_cons_self)
  | nil =>
    apply relies_ite
    · intro henabled
      apply relies_bind
      apply relies_ask
      rintro reply rest rfl
      have htail := h.tail henabled
      cases reply with
      | nothing => exact relies_pure ⟨htail, nofun⟩
      | failed token reason =>
        cases token with
        | none => exact relies_throw
        | some token =>
          apply relies_ite
          · intro _
            apply relies_bind
            exact relies_change fun _ => relies_throw
          · intro _
            exact relies_throw
      | completed token page =>
        have hpage : page = log.file (log.assigned token) := by
          have hdelivers := h.delivers
          rw [Delivers, if_pos henabled] at hdelivers
          exact hdelivers token page List.mem_cons_self
        apply relies_ite
        · intro _
          apply relies_bind
          refine relies_change fun _ => relies_pure ⟨htail.same ⟨rfl, rfl, rfl, rfl, rfl, rfl, rfl⟩,
            fun _ heq => ?_⟩
          cases heq
          exact hpage
        · intro _
          exact relies_throw
    · intro _
      exact relies_pure ⟨h, nofun⟩

theorem Faithful.completeToken (h : Faithful log s replies) (token : Token) (p : PageId) :
    Faithful log (completeToken token p s) replies :=
  { h with
    tokens := fun other q hlookup => by
      refine h.tokens other q ?_
      by_cases heq : other = token
      · subst heq
        rw [show (PageIo.completeToken other p s).token_to_page = s.token_to_page.erase other from rfl,
          AList.lookup_erase] at hlookup
        cases hlookup
      · rwa [show (PageIo.completeToken token p s).token_to_page = s.token_to_page.erase token from rfl,
          AList.lookup_erase_ne heq] at hlookup
    delivers := h.delivers }

theorem Faithful.keepReady (h : Faithful log s replies) (keep_ready : Bool)
    {page : DecodedPage α} (hpage : log.Holds page) :
    Faithful log (keepReady keep_ready page.page_id page s) replies := by
  rw [PageIo.keepReady]
  split
  · exact { h with
      ready := fun p other hlookup => by
        by_cases heq : p = page.page_id
        · subst heq
          rw [AList.lookup_insert] at hlookup
          cases hlookup
          exact ⟨rfl, hpage⟩
        · rw [AList.lookup_insert_ne heq] at hlookup
          exact h.ready p other hlookup
      delivers := h.delivers }
  · exact h.same ⟨rfl, rfl, rfl, rfl, rfl, rfl, rfl⟩

theorem relies_consumePrefetchCompletion {completed : CompletedRead α}
    (h : Faithful log s replies)
    (hpage : completed.page = log.file (log.assigned completed.token)) (keep_ready : Bool) :
    Relies (Logged log) (consumePrefetchCompletion completed keep_ready)
      (fun _ => Faithful log) s replies := by
  apply relies_bind
  apply relies_get
  -- an unknown token is left over from an earlier query
  cases htoken : s.token_to_page.lookup completed.token with
  | none => exact relies_pure h
  | some page_id =>
    have hassigned := h.tokens _ _ htoken
    apply relies_bind
    refine relies_change fun _ => ?_
    have hcomplete := h.completeToken completed.token page_id
    apply relies_bind
    apply relies_get
    apply relies_ite
    · intro _
      apply relies_bind
      exact relies_change fun _ =>
        relies_pure (hcomplete.same ⟨rfl, rfl, rfl, rfl, rfl, rfl, rfl⟩)
    · intro _
      apply relies_bind
      apply relies_ofExcept
      intro content hcontent
      rw [hpage, hassigned] at hcontent
      apply relies_bind
      exact relies_change fun _ => relies_pure
        (hcomplete.keepReady keep_ready
          (show log.Holds ⟨page_id, content⟩ from hcontent))

theorem relies_harvestPrefetch (h : Faithful log s replies) :
    Relies (Logged log) harvestPrefetch (fun _ => Faithful log) s replies := by
  apply relies_bind
  apply relies_get
  apply relies_ite
  · intro _
    apply relies_bind
    refine (relies_submitAsyncReads h).mono ?_
    rintro _ t rest ⟨rfl, ht⟩
    apply relies_bind
    refine (relies_reapAsyncRead ht).mono fun o u rest hu => ?_
    cases o with
    | none => exact relies_pure hu.1
    | some completed =>
      apply relies_bind
      refine (relies_consumePrefetchCompletion hu.1 (hu.2 completed rfl) true).mono
        fun _ v rest hv => ?_
      refine relies_repeatUntil (Faithful log) (fun w rest hw => ?_) hv
      apply relies_bind
      refine (relies_reapAsyncRead hw).mono fun o x rest hx => ?_
      cases o with
      | none => exact relies_pure hx.1
      | some completed =>
        apply relies_bind
        refine (relies_consumePrefetchCompletion hx.1 (hx.2 completed rfl) true).mono
          fun _ y rest hy => ?_
        exact relies_pure hy
  · intro _
    exact relies_pure h

theorem relies_harvestAll (h : Faithful log s replies) :
    Relies (Logged log) harvestAll (fun _ => Faithful log) s replies := by
  refine relies_repeatUntil (Faithful log) (fun t rest ht => ?_) h
  apply relies_bind
  refine (relies_harvestPrefetch ht).mono fun harvested u rest hu => ?_
  apply relies_ite
  · intro _
    exact relies_pure hu
  · intro _
    exact relies_pure hu

theorem relies_waitForPrefetchPage (h : Faithful log s replies) (p : PageId) :
    Relies (Logged log) (waitForPrefetchPage p) (fun _ => Faithful log) s replies := by
  refine relies_repeatUntil (Faithful log) (fun t rest ht => ?_) h
  apply relies_bind
  apply relies_get
  apply relies_ite
  · intro _
    apply relies_bind
    refine (relies_harvestPrefetch ht).mono fun harvested u rest hu => ?_
    apply relies_ite
    · intro _
      exact relies_pure hu
    · intro _
      exact relies_throw
  · intro _
    exact relies_pure ht

end Reap

section Submit

theorem relies_startAsyncRead (h : Faithful log s replies) (p : PageId)
    (henabled : s.page_reader.status.io_uring_enabled = true) :
    Relies (Logged log) (startAsyncRead p)
      (fun token t rest => Faithful log t rest ∧ log.assigned token = p) s replies := by
  apply relies_bind
  apply relies_get
  apply relies_ite
  · intro _
    apply relies_bind
    exact relies_change fun _ => relies_throw
  · intro _
    apply relies_bind
    refine (relies_mayFail h henabled).mono ?_
    rintro _ t rest ⟨rfl, ht⟩
    refine relies_act fun hlogged => ⟨?_, ?_⟩
    · exact { ht with
        delivers := by
          have hdelivers := ht.delivers
          rw [Delivers, if_pos henabled] at hdelivers
          rw [Delivers, if_pos henabled]
          exact hdelivers }
    · exact (Option.some.inj (hlogged.2 rfl)).symm

theorem relies_readSync (h : Faithful log s replies) (p : PageId)
    (hdisabled : ¬s.page_reader.status.io_uring_enabled = true) :
    Relies (Logged log) (readSync p) (fun page t rest => Faithful log t rest ∧
      t.submitted_reads.head? = some p ∧ page = log.file p) s replies := by
  apply relies_bind
  refine relies_change fun hlogged => ?_
  have hreads : log.reads s.submitted_reads.length = p := by
    refine hlogged.1 s.submitted_reads.length p ?_
    rw [List.reverse_cons, ← List.length_reverse]
    exact List.getElem?_concat_length
  apply relies_bind
  apply relies_ask
  rintro reply rest rfl
  have hdelivers := h.delivers
  rw [Delivers, if_neg hdisabled] at hdelivers
  cases reply with
  | nothing => exact relies_throw
  | failed token reason => exact relies_throw
  | completed token page =>
    refine relies_pure ⟨?_, rfl, ?_⟩
    · exact { h with
        delivers := by
          rw [Delivers, if_neg hdisabled]
          intro i other content hreply
          rw [hdelivers (i + 1) other content hreply, List.length_cons, Nat.add_right_comm,
            Nat.add_assoc] }
    · rw [hdelivers 0 token page rfl, Nat.add_zero, hreads]

theorem relies_readInline (h : Faithful log s replies) (p : PageId)
    (hdisabled : ¬s.page_reader.status.io_uring_enabled = true) :
    Relies (Logged log) (readInline p)
      (fun token t rest => Faithful log t rest ∧ log.assigned token = p) s replies := by
  apply relies_bind
  refine (relies_readSync h p hdisabled).mono fun page t rest ht => ?_
  obtain ⟨hfaithful, hhead, hpage⟩ := ht
  refine relies_act fun hlogged => ?_
  have hassigned : log.assigned t.page_reader.next_async_token = p :=
    Option.some.inj ((hlogged.2 rfl).symm.trans hhead)
  refine ⟨?_, hassigned⟩
  exact { hfaithful with
    inline_completions := fun completed hcompleted => by
      rcases List.mem_append.mp hcompleted with hold | hnew
      · exact hfaithful.inline_completions completed hold
      · rw [List.mem_singleton.mp hnew, hassigned]
        exact hpage
    delivers := hfaithful.delivers }

/-- The reads of a batch are under tokens of their pages. -/
def Entered (log : ReadLog α) (requests : List PageId) (submitted : List (PageId × Token))
    (t : QueryPageSession α D) (rest : List (Reply α)) : Prop :=
  Faithful log t rest ∧ ∀ read ∈ submitted, read.1 ∈ requests ∧ log.assigned read.2 = read.1

theorem Entered.cons {requests : List PageId} {submitted : List (PageId × Token)} {token : Token}
    (h : Entered log requests submitted t rest) (htoken : log.assigned token = p) :
    Entered log (p :: requests) ((p, token) :: submitted) t rest := by
  refine ⟨h.1, fun read hread => ?_⟩
  rcases List.mem_cons.mp hread with rfl | hread
  · exact ⟨List.mem_cons_self, htoken⟩
  · exact ⟨List.mem_cons_of_mem p (h.2 read hread).1, (h.2 read hread).2⟩

theorem relies_batchSubmitFrom (requests : List PageId) (queued_in_batch : ℕ)
    (h : Faithful log s replies) :
    Relies (Logged log) (batchSubmitFrom requests queued_in_batch) (Entered log requests) s
      replies := by
  induction requests generalizing s replies queued_in_batch with
  | nil =>
    rw [batchSubmitFrom]
    apply relies_ite
    · intro _
      apply relies_bind
      refine (relies_submitAsyncReads h).mono ?_
      rintro _ t rest ⟨rfl, ht⟩
      exact relies_pure ⟨ht, nofun⟩
    · intro _
      exact relies_pure ⟨h, nofun⟩
  | cons p requests ih =>
    apply relies_bind
    apply relies_get
    apply relies_ite
    · intro henabled
      apply relies_bind
      refine (relies_startAsyncRead h p henabled).mono fun token t rest ht => ?_
      dsimp only
      apply relies_ite
      · intro _
        apply relies_bind
        refine (relies_submitAsyncReads ht.1).mono ?_
        rintro _ u rest ⟨rfl, hu⟩
        apply relies_bind
        exact (ih 0 hu).mono fun submitted v rest hv => relies_pure (hv.cons ht.2)
      · intro _
        apply relies_bind
        exact (ih (queued_in_batch + 1) ht.1).mono fun submitted v rest hv =>
          relies_pure (hv.cons ht.2)
    · intro hdisabled
      apply relies_bind
      refine (relies_readInline h p hdisabled).mono fun token t rest ht => ?_
      apply relies_bind
      exact (ih 0 ht.1).mono fun submitted v rest hv => relies_pure (hv.cons ht.2)

theorem relies_batchSubmit (requests : List PageId) (h : Faithful log s replies) :
    Relies (Logged log) (batchSubmit requests) (Entered log requests) s replies :=
  relies_batchSubmitFrom requests 0 h

theorem Faithful.enterPrefetch {read : PageId × Token} (h : Faithful log s replies)
    (hread : log.assigned read.2 = read.1) : Faithful log (enterPrefetch read s) replies :=
  { h with
    tokens := fun token p hlookup => by
      by_cases heq : token = read.2
      · subst heq
        rw [PageIo.enterPrefetch, AList.lookup_insert] at hlookup
        rw [hread, Option.some.inj hlookup]
      · rw [PageIo.enterPrefetch, AList.lookup_insert_ne heq] at hlookup
        exact h.tokens token p hlookup
    delivers := h.delivers }

theorem relies_flushPrefetchRequests (requests : List PageId) (h : Faithful log s replies) :
    Relies (Logged log) (flushPrefetchRequests requests) (fun _ => Faithful log) s replies := by
  apply relies_ite
  · intro _
    exact relies_pure h
  · intro _
    apply relies_bind
    refine (relies_batchSubmit requests h).mono fun submitted t rest ht => ?_
    exact relies_forEach (Faithful log) submitted
      (fun read hread u left hu => relies_change fun _ => hu.enterPrefetch (ht.2 read hread).2)
      ht.1

theorem relies_admitRequest (p : PageId) (requests : List PageId) (h : Faithful log s replies) :
    Relies (Logged log) (admitRequest p requests) (fun _ => Faithful log) s replies := by
  apply relies_bind
  apply relies_get
  apply relies_ite
  · exact fun _ => relies_pure h
  intro _
  apply relies_ite
  · exact fun _ => relies_pure h
  intro _
  apply relies_ite
  · exact fun _ => relies_pure h
  intro _
  apply relies_ite
  · exact fun _ => relies_pure h
  · exact fun _ => relies_pure h

theorem relies_queuePrefetchRequest (p : PageId) (requests : List PageId)
    (queued_pages : Finset PageId) (h : Faithful log s replies) :
    Relies (Logged log) (queuePrefetchRequest p requests queued_pages) (fun _ => Faithful log) s
      replies := by
  apply relies_bind
  apply relies_get
  apply relies_ite
  · exact fun _ => relies_pure h
  intro _
  apply relies_ite
  · exact fun _ => relies_pure h
  intro _
  apply relies_ite
  · exact fun _ => relies_pure h
  intro _
  apply relies_ite
  · intro _
    apply relies_bind
    refine (relies_harvestPrefetch h).mono fun _ t rest ht => ?_
    apply relies_bind
    exact (relies_admitRequest p requests ht).mono fun _ u rest hu => relies_pure hu
  · intro _
    apply relies_bind
    exact (relies_admitRequest p requests h).mono fun _ u rest hu => relies_pure hu

theorem relies_queuePrefetchRequests (batch_limit : ℕ) (page_ids requests : List PageId)
    (queued_pages : Finset PageId) (h : Faithful log s replies) :
    Relies (Logged log) (queuePrefetchRequests batch_limit page_ids requests queued_pages)
      (fun _ => Faithful log) s replies := by
  induction page_ids generalizing s replies requests queued_pages with
  | nil => exact relies_pure h
  | cons p page_ids ih =>
    apply relies_ite
    · intro _
      apply relies_bind
      refine (relies_flushPrefetchRequests requests h).mono fun _ t rest ht => ?_
      apply relies_bind
      exact (relies_queuePrefetchRequest p [] queued_pages ht).mono fun queued u rest hu =>
        ih queued.1 queued.2 hu
    · intro _
      apply relies_bind
      exact (relies_queuePrefetchRequest p requests queued_pages h).mono fun queued u rest hu =>
        ih queued.1 queued.2 hu

theorem relies_submitPrefetchPlan (page_ids : List PageId) (h : Faithful log s replies) :
    Relies (Logged log) (submitPrefetchPlan page_ids) (fun _ => Faithful log) s replies := by
  apply relies_bind
  apply relies_get
  apply relies_ite
  · intro _
    exact relies_pure h
  · intro _
    apply relies_bind
    refine (relies_queuePrefetchRequests _ page_ids [] ∅ h).mono fun requests t rest ht => ?_
    apply relies_bind
    refine (relies_flushPrefetchRequests requests ht).mono fun _ u rest hu => ?_
    apply relies_bind
    exact (relies_harvestPrefetch hu).mono fun _ v rest hv => relies_pure hv

theorem relies_drainReadyPages (h : Faithful log s replies) :
    Relies (Logged log) drainReadyPages (fun _ => Faithful log) s replies := by
  apply relies_bind
  apply relies_get
  apply relies_ite
  · intro _
    apply relies_bind
    refine (relies_submitAsyncReads h).mono ?_
    rintro _ t rest ⟨rfl, ht⟩
    apply relies_bind
    exact (relies_harvestPrefetch ht).mono fun _ u rest hu => relies_pure hu
  · intro _
    exact relies_pure h

end Submit

section Cache

variable {cache : PageCache α D} {P : DecodedPage α → Prop}

theorem pages_modify {change : CacheEntry α → CacheEntry α}
    (h : ∀ entry ∈ cache.page_cache, P entry.page)
    (hchange : ∀ entry, P entry.page → P (change entry).page) :
    ∀ entry ∈ (cache.modify p change).page_cache, P entry.page := by
  intro entry hentry
  obtain ⟨old, hold, rfl⟩ := List.mem_map.mp hentry
  by_cases heq : old.page_id = p
  · rw [if_pos heq]
    exact hchange old (h old hold)
  · rw [if_neg heq]
    exact h old hold

theorem pages_lookup (h : ∀ entry ∈ cache.page_cache, P entry.page) :
    ∀ entry ∈ (cache.lookupCachedPage p).2.page_cache, P entry.page := by
  rw [PageCache.lookupCachedPage]
  split
  · cases cache.find p with
    | none => exact h
    | some found => exact pages_modify h fun (_ : CacheEntry α) hentry => hentry
  · exact h

theorem pages_pin (h : ∀ entry ∈ cache.page_cache, P entry.page) :
    ∀ entry ∈ (cache.pinIfCached p).2.page_cache, P entry.page := by
  rw [PageCache.pinIfCached]
  cases cache.find p with
  | none => exact h
  | some found => exact pages_modify h fun entry hentry => hentry

theorem pages_unpinEach (page_ids : List PageId) (h : ∀ entry ∈ cache.page_cache, P entry.page) :
    ∀ entry ∈ (Packed.QueryPageSession.unpinEach cache page_ids).2.page_cache, P entry.page := by
  induction page_ids generalizing cache with
  | nil => exact h
  | cons p page_ids ih =>
    rw [Packed.QueryPageSession.unpinEach]
    cases hunpin : cache.unpinIfCached p with
    | error message => exact h
    | ok next =>
      refine ih ?_
      rw [PageCache.unpinIfCached] at hunpin
      split at hunpin
      · cases hunpin
        exact h
      · split at hunpin
        · cases hunpin
        · cases hunpin
          exact pages_modify h fun entry hentry => hentry

/-- A page that the cache answers with is kept under its id. -/
theorem lookup_page {page : DecodedPage α} (h : ∀ entry ∈ cache.page_cache, P entry.page)
    (hlookup : (cache.lookupCachedPage p).1 = some page) : page.page_id = p ∧ P page := by
  rw [PageCache.lookupCachedPage] at hlookup
  split at hlookup
  · cases hfind : cache.find p with
    | none =>
      rw [hfind] at hlookup
      cases hlookup
    | some found =>
      rw [hfind] at hlookup
      cases hlookup
      have hid := List.find?_some hfind
      rw [decide_eq_true_iff] at hid
      exact ⟨hid, h found (List.mem_of_find?_eq_some hfind)⟩
  · cases hlookup

variable [LT D] [DecidableLT D] [DecidableEq D]

theorem pages_evict (h : ∀ entry ∈ cache.page_cache, P entry.page) :
    ∀ entry ∈ cache.evictOnePage.2.page_cache, P entry.page := by
  rw [PageCache.evictOnePage]
  split
  · exact h
  · exact fun entry hentry => h entry (List.mem_filter.mp hentry).1

theorem pages_store {page : DecodedPage α} (h : ∀ entry ∈ cache.page_cache, P entry.page)
    (hpage : P page) : ∀ entry ∈ (cache.storeCachedPage page).page_cache, P entry.page := by
  have happend : ∀ (entries : List (CacheEntry α)) (entry : CacheEntry α),
      (∀ old ∈ entries, P old.page) → entry.page = page →
        ∀ new ∈ entries ++ [entry], P new.page := by
    intro entries entry hentries hentry new hnew
    rcases List.mem_append.mp hnew with hold | hlast
    · exact hentries new hold
    · rw [List.mem_singleton.mp hlast, hentry]
      exact hpage
  rw [PageCache.storeCachedPage]
  split
  · cases cache.find page.page_id with
    | some found => exact pages_modify h fun _ _ => hpage
    | none =>
      dsimp only
      split
      · split
        · exact happend _ _ (pages_evict h) rfl
        · exact pages_evict h
      · exact happend _ _ h rfl
  · exact h

end Cache

section Demand

/-- A page that was asked for, as the file has it. -/
def ReadLog.Is (log : ReadLog α) (p : PageId) (page : DecodedPage α) : Prop :=
  page.page_id = p ∧ log.Holds page

theorem Faithful.index (h : Faithful log s replies) {index : PageCache α D}
    (hindex : ∀ entry ∈ index.page_cache, log.Holds entry.page) :
    Faithful log { s with index := index } replies :=
  { h with
    cached := hindex
    delivers := h.delivers }

theorem Faithful.materializePage (h : Faithful log s replies) :
    Faithful log (s.materializePage p) replies :=
  h.same ⟨rfl, rfl, rfl, rfl, rfl, rfl, rfl⟩

theorem Faithful.markPrefetchUsed (h : Faithful log s replies) :
    Faithful log (s.markPrefetchUsed p) replies := by
  rw [QueryPageSession.markPrefetchUsed]
  split
  · exact h.same ⟨rfl, rfl, rfl, rfl, rfl, rfl, rfl⟩
  · exact h

theorem Faithful.tryGetCachedPage (h : Faithful log s replies) :
    Faithful log (s.tryGetCachedPage p).2 replies ∧
      ∀ page, (s.tryGetCachedPage p).1 = some page → log.Is p page := by
  have hindex := h.index (pages_lookup (p := p) h.cached)
  rw [QueryPageSession.tryGetCachedPage]
  split
  · exact ⟨hindex.markPrefetchUsed, fun page hpage => lookup_page h.cached hpage⟩
  · exact ⟨hindex, fun page hnone => absurd hnone (Option.some_ne_none page).symm⟩

theorem relies_readDemandPage (h : Faithful log s replies) (p : PageId) :
    Relies (Logged log) (readDemandPage p)
      (fun page t rest => Faithful log t rest ∧ log.Is p page) s replies := by
  apply relies_bind
  apply relies_get
  apply relies_ite
  · intro _
    apply relies_bind
    refine (relies_batchSubmit [p] h).mono fun submitted t rest ht => ?_
    cases submitted with
    | nil => exact relies_throw
    | cons read later =>
      obtain ⟨hmem, hassigned⟩ := ht.2 read List.mem_cons_self
      rw [List.mem_singleton.mp hmem] at hassigned
      apply relies_bind
      refine relies_change fun _ => ?_
      refine relies_repeatUntil (Faithful log) (fun u rest hu => ?_)
        (ht.1.same ⟨rfl, rfl, rfl, rfl, rfl, rfl, rfl⟩)
      apply relies_bind
      refine (relies_reapAsyncRead hu).mono fun o v rest hv => ?_
      cases o with
      | none => exact relies_throw
      | some completed =>
        have hpage := hv.2 completed rfl
        apply relies_ite
        · intro htoken
          rw [htoken, hassigned] at hpage
          apply relies_bind
          refine relies_change fun _ => ?_
          apply relies_bind
          apply relies_ofExcept
          intro content hcontent
          rw [hpage] at hcontent
          exact relies_pure ⟨hv.1.same ⟨rfl, rfl, rfl, rfl, rfl, rfl, rfl⟩, rfl, hcontent⟩
        · intro _
          apply relies_bind
          exact (relies_consumePrefetchCompletion hv.1 hpage true).mono fun _ w rest hw =>
            relies_pure hw
  · intro hdisabled
    apply relies_bind
    refine (relies_readSync h p hdisabled).mono fun page t rest ht => ?_
    apply relies_bind
    apply relies_ofExcept
    intro content hcontent
    rw [ht.2.2] at hcontent
    exact relies_pure ⟨ht.1, rfl, hcontent⟩

theorem relies_awaitCompletion (submitted_pages : AList (fun _ : Token => PageId))
    (h : Faithful log s replies) :
    Relies (Logged log) (awaitCompletion submitted_pages)
      (fun completed => Delivered log (some completed)) s replies := by
  refine relies_repeatUntil (Faithful log) (fun t rest ht => ?_) h
  apply relies_bind
  refine (relies_reapAsyncRead ht).mono fun o u rest hu => ?_
  cases o with
  | none => exact relies_throw
  | some completed =>
    apply relies_ite
    · intro _
      exact relies_pure hu
    · intro _
      apply relies_bind
      refine (relies_consumePrefetchCompletion hu.1 (hu.2 completed rfl) true).mono
        fun _ v rest hv => ?_
      exact relies_pure hv

theorem relies_pinPage (h : Faithful log s replies) (p : PageId) :
    Relies (Logged log) (pinPage p) (fun _ => Faithful log) s replies := by
  refine relies_change fun _ => ?_
  split
  · exact h
  · dsimp only
    split
    · exact (h.index (pages_pin (p := p) h.cached)).same ⟨rfl, rfl, rfl, rfl, rfl, rfl, rfl⟩
    · exact h

/-- What a query leaves in the cache is what the file holds. -/
def CacheFaithful (log : ReadLog α) (s : QueryPageSession α D) : Prop :=
  ∀ entry ∈ s.index.page_cache, log.Holds entry.page

theorem relies_closeQuery (h : CacheFaithful log s) :
    Relies (Logged log) closeQuery (fun _ t _ => CacheFaithful log t) s replies := by
  apply relies_bind
  refine relies_change fun _ => ?_
  apply relies_bind
  apply relies_bind
  apply relies_ask
  intro reply rest _
  have hunpin : Relies (Logged log) (do
      unpinAll
      change fun session => { session with finished := true })
      (fun _ t _ => CacheFaithful log t) (closeAccounts s) rest := by
    apply relies_bind
    apply relies_bind
    refine relies_act fun _ => ?_
    have hpages := pages_unpinEach s.pinned_pages h
    dsimp only
    split
    · exact relies_pure (relies_change fun _ => hpages)
    · exact relies_throw
  cases reply with
  | nothing => exact relies_pure hunpin
  | completed token page => exact relies_pure hunpin
  | failed token reason => exact relies_throw

theorem relies_finishQuery (h : Faithful log s replies) :
    Relies (Logged log) finishQuery (fun _ t _ => CacheFaithful log t) s replies := by
  apply relies_bind
  apply relies_get
  apply relies_ite
  · exact fun _ => relies_pure h.cached
  intro _
  apply relies_ite
  · intro _
    apply relies_bind
    exact (relies_harvestAll h).mono fun _ t rest ht => relies_closeQuery ht.cached
  · exact fun _ => relies_closeQuery h.cached

variable [LT D] [DecidableLT D] [DecidableEq D]

theorem Faithful.keepPage (h : Faithful log s replies) {page : DecodedPage α}
    (hpage : log.Is p page) : Faithful log (s.keepPage p page) replies := by
  rw [QueryPageSession.keepPage]
  split
  · exact h.index (pages_store h.cached hpage.2)
  · exact { h with
      owned := fun q other hlookup => by
        by_cases heq : q = p
        · subst heq
          rw [AList.lookup_insert] at hlookup
          cases hlookup
          exact hpage
        · rw [AList.lookup_insert_ne heq] at hlookup
          exact h.owned q other hlookup
      delivers := h.delivers }

theorem Faithful.takeReadyPrefetchPage (h : Faithful log s replies) :
    Faithful log (s.takeReadyPrefetchPage p).2 replies ∧
      ∀ page, (s.takeReadyPrefetchPage p).1 = some page → log.Is p page := by
  rw [QueryPageSession.takeReadyPrefetchPage]
  cases hlookup : s.ready_prefetch_pages.lookup p with
  | none => exact ⟨h, fun page hnone => absurd hnone (Option.some_ne_none page).symm⟩
  | some page =>
    have hpage : log.Is p page := h.ready p page hlookup
    dsimp only
    generalize hu : QueryPageSession.markPrefetchUsed
      { s with pending_hit_pages := s.pending_hit_pages.erase p } p = u
    have hmarked : Faithful log u replies := by
      rw [← hu]
      exact Faithful.markPrefetchUsed (h.same ⟨rfl, rfl, rfl, rfl, rfl, rfl, rfl⟩)
    refine ⟨Faithful.keepPage ?_ hpage, fun other hother => ?_⟩
    · exact { hmarked with
        ready := fun q other hother => by
          by_cases heq : q = p
          · subst heq
            rw [AList.lookup_erase] at hother
            cases hother
          · rw [AList.lookup_erase_ne heq] at hother
            exact hmarked.ready q other hother
        delivers := hmarked.delivers }
    · cases hother
      exact hpage

theorem Faithful.takePage (h : Faithful log s replies) :
    Faithful log (takePage p s).2 replies ∧
      ∀ page, (takePage p s).1 = some page → log.Is p page := by
  obtain ⟨hcached, hfound⟩ := h.tryGetCachedPage (p := p)
  obtain ⟨hready, htaken⟩ := hcached.takeReadyPrefetchPage (p := p)
  rw [PageIo.takePage]
  dsimp only
  split
  · exact ⟨hcached.materializePage, hfound⟩
  · split
    · exact ⟨hready.materializePage, htaken⟩
    · exact ⟨hready, fun page hnone => absurd hnone (Option.some_ne_none page).symm⟩

end Demand

end Packed.PageIo
