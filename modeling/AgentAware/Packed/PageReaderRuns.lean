import AgentAware.Packed.PageReaderInvariant

/-!
# Runs of the page reader

Whatever a client calls, whatever the kernel answers and in whichever order it serves what it has
accepted, the reader keeps its invariant. So no completion is lost or comes twice, each one brings the
bytes that were asked for under its token, and the kernel writes only to buffers of pending reads.

## Main definitions

- `Call.Fits` — a call whose reads fit a buffer

## Main results

- `holds_perform`, `sound_runCalls` — the calls keep the invariant
- `completions_exact` — what the completions of a run are
- `buffers_exclusive` — what the kernel writes to
- `closeNative_waits` — closing waits for a read that was never submitted
-/

namespace Packed.Uring

open Interaction

variable {file : Bytes} {page_size : ℕ} {reader : PageReader} {cqe : Completion}

/-- A message that is none of the two that never come. -/
def Harmless (message : String) : Prop :=
  message.toList.take 3 ≠ "Unk".toList ∧ message.toList.take 3 ≠ "Inv".toList

instance (message : String) : Decidable (Harmless message) :=
  inferInstanceAs (Decidable (_ ∧ _))

theorem Harmless.append {label : String} (h : Harmless label) (hlength : 3 ≤ label.toList.length)
    (rest : String) : Harmless (label ++ rest) := by
  rw [Harmless, String.toList_append, List.take_append_of_le_length hlength]
  exact h

theorem holds_refuse {α : Type} {Q : α → PageReader → Prop} (h : Sound file page_size reader)
    {message : String} (hmessage : Harmless message) :
    Holds (Sound file page_size) (refuse message) Q reader := by
  apply holds_bind
  refine holds_change.mpr ⟨h.refused ?_ ?_, holds_throw⟩
  · rintro rfl
    exact hmessage.1 (by decide)
  · rintro rfl
    exact hmessage.2 (by decide)

variable (hsmall : page_size < 2 ^ 32)

section Calls

include hsmall

theorem holds_syscall {Q : ℤ → PageReader → Prop} (h : Sound file page_size reader)
    (hQ : ∀ result t, Sound file page_size t → SameClient reader t → Q result t) :
    Holds (Sound file page_size) (syscall file) Q reader := by
  apply holds_bind
  apply holds_ask
  intro reply
  apply holds_bind
  have hserved := h.serveAll hsmall reply.services
  exact holds_change.mpr ⟨hserved,
    holds_pure.mpr (hQ _ _ hserved (sameClient_serveAll reply.services))⟩

omit hsmall in
theorem holds_startAsyncRead (h : Sound file page_size reader) {request : ReadRequest}
    (hfits : request.bytes ≤ page_size) :
    Holds (Sound file page_size) (startAsyncRead request)
      (fun _ => Sound file page_size) reader := by
  apply holds_bind
  rw [holds_get]
  apply holds_ite
  · exact fun _ => holds_refuse h (by decide)
  intro henabled
  apply holds_ite
  · exact fun _ => holds_refuse h (by decide)
  intro haligned
  apply holds_ite
  · exact fun _ => holds_refuse h (by decide)
  intro _
  have hdirect := h.direct (Bool.eq_true_of_not_eq_false henabled)
  have hsectors : request.bytes % kDirectIoAlignment = 0 := by
    by_contra hsectors
    exact haligned ⟨hdirect, Or.inr hsectors⟩
  cases hfree : reader.async_buffer_pool.free_list.getLast? with
  | none => exact holds_refuse h (by decide)
  | some index =>
    apply holds_ite
    · intro _
      apply holds_bind
      exact holds_change.mpr ⟨h.skipToken, holds_refuse h.skipToken (by decide)⟩
    · intro _
      have hqueued := h.queueRead hfree hfits hsectors
      exact holds_act.mpr ⟨hqueued, hqueued⟩

theorem holds_submitQueued (h : Sound file page_size reader) :
    Holds (Sound file page_size) (submitQueued file) (fun _ => Sound file page_size) reader := by
  refine holds_repeatUntil (Sound file page_size) (fun reader h => ?_) h
  apply holds_bind
  rw [holds_get]
  apply holds_ite
  · exact fun _ => holds_pure.mpr h
  intro _
  apply holds_bind
  refine holds_syscall hsmall h fun submitted t ht _ => ?_
  apply holds_ite
  · exact fun _ => holds_pure.mpr ht
  intro _
  apply holds_ite
  · exact fun _ => holds_pure.mpr ht
  intro _
  apply holds_bind
  exact holds_change.mpr ⟨ht.accept _, holds_pure.mpr (ht.accept _)⟩

theorem holds_submitAsyncReads (h : Sound file page_size reader) :
    Holds (Sound file page_size) (submitAsyncReads file) (fun _ => Sound file page_size) reader := by
  apply holds_bind
  rw [holds_get]
  apply holds_ite
  · exact fun _ => holds_pure.mpr h
  intro _
  apply holds_bind
  refine (holds_submitQueued hsmall h).mono fun refused t ht => ?_
  cases refused with
  | none => exact holds_pure.mpr ht
  | some reason => exact holds_refuse ht (Harmless.append (by decide) (by decide) _)

theorem holds_readSync (h : Sound file page_size reader) (offset bytes : ℕ) :
    Holds (Sound file page_size) (readSync file offset bytes)
      (fun data t => Sound file page_size t ∧ SameClient reader t ∧
        data.length = bytes ∧ data = transfer file offset bytes) reader := by
  apply holds_bind
  rw [holds_get]
  apply holds_ite
  · exact fun _ => holds_refuse h (by decide)
  intro _
  apply holds_bind
  refine holds_syscall hsmall h fun result t ht hsame => ?_
  apply holds_ite
  · exact fun _ => holds_refuse ht (Harmless.append (by decide) (by decide) _)
  intro _
  apply holds_ite
  · exact fun _ => holds_refuse ht (Harmless.append (by decide) (by decide) _)
  intro hlength
  rw [not_not] at hlength
  refine holds_pure.mpr ⟨ht, hsame, hlength, List.take_of_length_le ?_⟩
  rw [List.length_take] at hlength
  have hle := length_transfer_le file offset bytes
  omega

theorem holds_readInline (h : Sound file page_size reader) (request : ReadRequest) :
    Holds (Sound file page_size) (readInline file request)
      (fun _ => Sound file page_size) reader := by
  apply holds_bind
  refine holds_act.mpr ⟨h.skipToken, ?_⟩
  apply holds_bind
  refine (holds_readSync hsmall h.skipToken request.offset request.bytes).mono
    fun data t ⟨ht, hsame, hdata⟩ => ?_
  apply holds_bind
  have hnew : reader.next_async_token ∉ t.log.issued.map Prod.fst := by
    rw [hsame.log]
    intro hmem
    obtain ⟨entry, hentry, heq⟩ := List.mem_map.mp hmem
    exact absurd (h.fresh entry hentry) (heq ▸ lt_irrefl _)
  have hlt : reader.next_async_token < t.next_async_token := by
    rw [hsame.next_async_token]
    exact Nat.lt_succ_self _
  have hinline := ht.readInline hlt hnew hdata
  exact holds_change.mpr ⟨hinline, holds_pure.mpr hinline⟩

theorem holds_batchSubmitFrom {read_requests : List ReadRequest}
    (hfits : ∀ request ∈ read_requests, request.bytes ≤ page_size) (queued_in_batch : ℕ)
    (h : Sound file page_size reader) :
    Holds (Sound file page_size) (batchSubmitFrom file read_requests queued_in_batch)
      (fun _ => Sound file page_size) reader := by
  induction read_requests generalizing queued_in_batch reader with
  | nil =>
    rw [batchSubmitFrom]
    apply holds_ite
    · intro _
      apply holds_bind
      exact (holds_submitAsyncReads hsmall h).mono fun _ t ht => holds_pure.mpr ht
    · exact fun _ => holds_pure.mpr h
  | cons request read_requests ih =>
    have hrest := fun other hother => hfits other (List.mem_cons_of_mem request hother)
    rw [batchSubmitFrom]
    apply holds_bind
    rw [holds_get]
    apply holds_ite
    · intro _
      apply holds_bind
      refine (holds_startAsyncRead h (hfits request List.mem_cons_self)).mono fun token t ht => ?_
      apply holds_ite
      · intro _
        apply holds_bind
        refine (holds_submitAsyncReads hsmall ht).mono fun _ u hu => ?_
        apply holds_bind
        exact (ih hrest 0 hu).mono fun _ _ hv => holds_pure.mpr hv
      · intro _
        apply holds_bind
        exact (ih hrest _ ht).mono fun _ _ hv => holds_pure.mpr hv
    · intro _
      apply holds_bind
      refine (holds_readInline hsmall h request).mono fun token t ht => ?_
      apply holds_bind
      exact (ih hrest 0 ht).mono fun _ _ hv => holds_pure.mpr hv

/-- What is popped belongs to a pending read; a wait that brings nothing has failed. -/
def Popped.Leaves (wait : Bool) (popped : Popped) (reader : PageReader) : Prop :=
  match popped with
  | .completion cqe => cqe ∈ reader.ring.popped
  | .nothing => wait = true → reader.log.wait_failed = true
  | .failed _ => wait = true → reader.log.wait_failed = true

theorem holds_popRound (wait : Bool) (h : Sound file page_size reader) :
    Holds (Sound file page_size) (popRound file wait) (fun o t => Sound file page_size t ∧
      t.ring.queued = reader.ring.queued ∧ ∀ popped, o = some popped → popped.Leaves wait t) reader := by
  apply holds_bind
  refine holds_syscall hsmall h fun result t ht hsame => ?_
  apply holds_bind
  rw [holds_get]
  cases hcompletions : t.ring.completions with
  | cons cqe completions =>
    apply holds_bind
    have hpop := ht.pop hcompletions
    refine holds_change.mpr ⟨hpop, holds_pure.mpr ⟨hpop, hsame.queued, fun popped hpopped => ?_⟩⟩
    cases hpopped
    exact List.mem_cons_self
  | nil =>
    apply holds_ite
    · intro _
      refine holds_pure.mpr ⟨ht, hsame.queued, fun popped hpopped => ?_⟩
      cases wait with
      | true => cases hpopped
      | false =>
        cases hpopped
        exact fun hwait => nomatch hwait
    · intro _
      apply holds_bind
      have hfailed := ht.waitFailed wait
      refine holds_change.mpr ⟨hfailed, ?_⟩
      have hwaited : wait = true → (wait || t.log.wait_failed) = true := by
        rintro rfl
        rfl
      apply holds_ite
      · intro _
        refine holds_pure.mpr ⟨hfailed, hsame.queued, fun popped hpopped => ?_⟩
        cases hpopped
        exact hwaited
      · intro _
        refine holds_pure.mpr ⟨hfailed, hsame.queued, fun popped hpopped => ?_⟩
        cases hpopped
        exact hwaited

theorem holds_popCompletion (wait : Bool) (h : Sound file page_size reader) :
    Holds (Sound file page_size) (popCompletion file wait) (fun popped t =>
      (Sound file page_size t ∧ t.ring.queued = reader.ring.queued) ∧ popped.Leaves wait t)
      reader := by
  refine holds_repeatUntil
    (fun t => Sound file page_size t ∧ t.ring.queued = reader.ring.queued)
    (fun t ht => (holds_popRound hsmall wait ht.1).mono fun o u hu => ?_) ⟨h, rfl⟩
  have hleft := And.intro hu.1 (hu.2.1.trans ht.2)
  cases o with
  | none => exact hleft
  | some popped => exact ⟨hleft, hu.2.2 popped rfl⟩

theorem holds_finishRead (h : Sound file page_size reader) (hpopped : cqe ∈ reader.ring.popped) :
    Holds (Sound file page_size) (finishRead file cqe) (fun _ => Sound file page_size) reader := by
  apply holds_bind
  refine holds_syscall hsmall h fun _ t ht hsame => ?_
  apply holds_bind
  rw [holds_get]
  have hpopped' : cqe ∈ t.ring.popped := hsame.popped ▸ hpopped
  obtain ⟨buffer, hlookup, hbuffer⟩ := ht.lookup_popped hpopped'
  rw [hlookup]
  dsimp only
  rw [ht.release_ok hbuffer]
  dsimp only
  apply holds_ite
  · intro _
    apply holds_bind
    have hlost := ht.loseRead hpopped' hbuffer
    exact holds_change.mpr ⟨hlost, holds_refuse hlost (Harmless.append (by decide) (by decide) _)⟩
  · intro hresult
    apply holds_bind
    have hkept := ht.keepRead hpopped' hbuffer (not_not.mp hresult)
    exact holds_change.mpr ⟨hkept, holds_pure.mpr hkept⟩

theorem holds_reapAsyncRead (wait : Bool) (h : Sound file page_size reader) :
    Holds (Sound file page_size) (reapAsyncRead file wait)
      (fun _ => Sound file page_size) reader := by
  apply holds_bind
  rw [holds_get]
  cases hinline : reader.inline_completions with
  | cons completed rest =>
    apply holds_bind
    have htaken := h.takeInline hinline
    exact holds_change.mpr ⟨htaken, holds_pure.mpr htaken⟩
  | nil =>
    apply holds_ite
    · exact fun _ => holds_pure.mpr h
    intro _
    apply holds_bind
    refine (holds_popCompletion hsmall wait h).mono fun popped t ⟨⟨ht, _⟩, hleaves⟩ => ?_
    cases popped with
    | failed reason => exact holds_refuse ht (Harmless.append (by decide) (by decide) _)
    | nothing => exact holds_pure.mpr ht
    | completion cqe =>
      apply holds_bind
      exact (holds_finishRead hsmall ht hleaves).mono fun _ _ hu => holds_pure.mpr hu

/-- A round of closing leaves the queue as it is, and ends with nothing pending or a failed wait. -/
theorem holds_closeRound (h : Sound file page_size reader) :
    Holds (Sound file page_size) (closeRound file) (fun o t => Sound file page_size t ∧
      t.ring.queued = reader.ring.queued ∧
      (o = some () → t.async_buffers = [] ∨ t.log.wait_failed = true)) reader := by
  apply holds_bind
  rw [holds_get]
  apply holds_ite
  · exact fun hnone => holds_pure.mpr ⟨h, rfl, fun _ => Or.inl (List.isEmpty_iff.mp hnone)⟩
  intro _
  apply holds_bind
  refine (holds_popCompletion hsmall true h).mono fun popped t ⟨⟨ht, hqueued⟩, hleaves⟩ => ?_
  cases popped with
  | failed reason => exact holds_pure.mpr ⟨ht, hqueued, fun _ => Or.inr (hleaves rfl)⟩
  | nothing => exact holds_pure.mpr ⟨ht, hqueued, fun _ => Or.inr (hleaves rfl)⟩
  | completion cqe =>
    apply holds_bind
    rw [holds_get]
    obtain ⟨buffer, hlookup, hbuffer⟩ := ht.lookup_popped hleaves
    rw [hlookup]
    dsimp only
    rw [ht.release_ok hbuffer]
    dsimp only
    apply holds_bind
    have hlost := ht.loseRead hleaves hbuffer
    exact holds_change.mpr ⟨hlost, holds_pure.mpr ⟨hlost, hqueued, nofun⟩⟩

theorem holds_closeNative (h : Sound file page_size reader) :
    Holds (Sound file page_size) (closeNative file)
      (fun _ t => Sound file page_size t ∧ t.async_buffers = []) reader := by
  apply holds_bind
  refine (holds_repeatUntil (Sound file page_size)
    (Q := fun _ t => Sound file page_size t ∧ (t.async_buffers = [] ∨ t.log.wait_failed = true))
    (fun t ht => (holds_closeRound hsmall ht).mono fun o u hu => ?_) h).mono fun _ t ht => ?_
  · cases o with
    | none => exact hu.1
    | some _ => exact ⟨hu.1, hu.2.2 rfl⟩
  · have hclosed := ht.1.closeRing ht.2
    exact holds_change.mpr ⟨hclosed, hclosed, rfl⟩

theorem holds_openFd {label : String} (hlabel : Harmless label)
    (hlength : 3 ≤ label.toList.length) (h : Sound file page_size reader) :
    Holds (Sound file page_size) (openFd file label) (fun _ => Sound file page_size) reader := by
  apply holds_bind
  refine holds_syscall hsmall h fun result t ht _ => ?_
  apply holds_bind
  rw [holds_get]
  apply holds_ite
  · intro _
    refine holds_refuse ht ?_
    simp only [errnoReason, String.append_assoc]
    exact hlabel.append hlength _
  · exact fun _ => holds_pure.mpr ht

theorem holds_fallbackToPread (reason : String) (h : Sound file page_size reader) :
    Holds (Sound file page_size) (fallbackToPread file reason)
      (fun _ => Sound file page_size) reader := by
  apply holds_bind
  refine (holds_closeNative hsmall h).mono fun _ t ht => ?_
  apply holds_bind
  refine (holds_openFd hsmall (by decide) (by decide) ht.1).mono fun _ u hu => ?_
  have hpread := hu.synchronous { u.status with
    effective_mode := "pread"
    direct_enabled := false
    io_uring_enabled := false
    fallback_reason := reason } (by simp)
  exact holds_change.mpr ⟨hpread, hpread⟩

theorem holds_openRing (io_depth : ℕ) (h : Sound file page_size reader)
    (hnone : reader.async_buffers = []) :
    Holds (Sound file page_size) (openRing file io_depth)
      (fun _ => Sound file page_size) reader := by
  apply holds_bind
  refine holds_syscall hsmall h fun result t ht hsame => ?_
  apply holds_ite
  · exact fun _ => holds_fallbackToPread hsmall _ ht
  · intro _
    have hopened := ht.openRing (hsame.async_buffers.trans hnone)
      (max (max 1 (min io_depth 4096)) result.toNat) io_depth { t.status with
        effective_mode := "io_uring"
        direct_enabled := true
        io_uring_enabled := true } rfl
    exact holds_change.mpr ⟨hopened, hopened⟩

theorem holds_configure (mode : String) (batch_size io_depth : ℕ)
    (h : Sound file page_size reader) :
    Holds (Sound file page_size) (configure file mode batch_size io_depth)
      (fun _ => Sound file page_size) reader := by
  apply holds_ite
  · exact fun _ => holds_refuse h (Harmless.append (by decide) (by decide) _)
  intro _
  apply holds_ite
  · exact fun _ => holds_refuse h (by decide)
  intro _
  apply holds_ite
  · exact fun _ => holds_refuse h (by decide)
  intro _
  apply holds_bind
  refine (holds_closeNative hsmall h).mono fun _ t ht => ?_
  apply holds_bind
  have hreset := ht.1.synchronous
    { requested_mode := mode, batch_size := batch_size, depth := io_depth } (by simp)
  refine holds_change.mpr ⟨hreset, ?_⟩
  apply holds_bind
  rw [holds_get]
  apply holds_ite
  · exact fun _ => holds_openFd hsmall (by decide) (by decide) hreset
  intro _
  apply holds_ite
  · exact fun _ => holds_fallbackToPread hsmall _ hreset
  intro _
  apply holds_bind
  refine holds_syscall hsmall hreset fun opened u hu hsame => ?_
  apply holds_ite
  · exact fun _ => holds_fallbackToPread hsmall _ hu
  intro _
  apply holds_ite
  · intro _
    have hdirect := hu.synchronous
      { u.status with effective_mode := "odirect", direct_enabled := true } (by simp)
    exact holds_change.mpr ⟨hdirect, hdirect⟩
  · exact fun _ => holds_openRing hsmall io_depth hu (hsame.async_buffers.trans ht.2)

/-- The reads of a call fit a buffer. -/
def Call.Fits (page_size : ℕ) : Call → Prop
  | .startAsyncRead request => request.bytes ≤ page_size
  | .batchSubmit read_requests => ∀ request ∈ read_requests, request.bytes ≤ page_size
  | _ => True

theorem holds_perform {call : Call} (hfits : call.Fits page_size)
    (h : Sound file page_size reader) :
    Holds (Sound file page_size) (perform file call) (fun _ => Sound file page_size) reader := by
  cases call with
  | configure mode batch_size io_depth => exact holds_configure hsmall mode batch_size io_depth h
  | startAsyncRead request =>
    apply holds_bind
    exact (holds_startAsyncRead h hfits).mono fun _ _ ht => holds_pure.mpr ht
  | batchSubmit read_requests =>
    apply holds_bind
    exact (holds_batchSubmitFrom hsmall hfits 0 h).mono fun _ _ ht => holds_pure.mpr ht
  | submitAsyncReads => exact holds_submitAsyncReads hsmall h
  | reapAsyncRead wait =>
    apply holds_bind
    exact (holds_reapAsyncRead hsmall wait h).mono fun _ _ ht => holds_pure.mpr ht

theorem holds_runCalls {calls : List Call} (hfits : ∀ call ∈ calls, call.Fits page_size)
    (h : Sound file page_size reader) :
    Holds (Sound file page_size) (runCalls file calls) (fun _ => Sound file page_size) reader := by
  refine holds_forEach (Sound file page_size) calls (fun call hcall t ht => ?_) h
  apply holds_bind
  exact holds_attempt ((holds_perform hsmall (hfits call hcall) ht).mono
    fun _ _ hu => holds_pure.mpr hu) ht fun _ _ hu => holds_pure.mpr hu

end Calls

/-- A reader that was just made. -/
def newReader (path : String) (page_size : ℕ) : PageReader := { path := path, page_size := page_size }

theorem sound_newReader (path : String) (page_size : ℕ) :
    Sound file page_size (newReader path page_size) where
  page_size_eq := rfl
  direct := nofun
  free := List.Perm.refl _
  room := nofun
  tokens := List.Perm.refl _
  counted := rfl
  fresh := nofun
  nodup := List.nodup_nil
  account := List.Perm.refl _
  answered := nofun
  pending := nofun
  prepared := nofun
  filled := nofun
  known := ⟨List.not_mem_nil, List.not_mem_nil⟩
  closed := Or.inl rfl

section Runs

variable {calls : List Call} {path : String} {rounds : ℕ} {replies : List KernelReply} {t : PageReader}

/-- A state of a run. -/
def Reached (file : Bytes) (path : String) (page_size : ℕ) (calls : List Call) (rounds : ℕ)
    (replies : List KernelReply) (t : PageReader) : Prop :=
  t ∈ ((runCalls file calls).run rounds (newReader path page_size) replies).seen

include hsmall

theorem sound_reached (hfits : ∀ call ∈ calls, call.Fits page_size)
    (ht : Reached file path page_size calls rounds replies t) : Sound file page_size t :=
  (holds_runCalls hsmall hfits (sound_newReader path page_size) rounds replies).1 t ht

/-- Whatever is called and whatever the kernel does: a completion that was handed out brings the bytes
that its token was issued for, no token comes twice, every issued token has completed, was lost or is
still pending, and the reader never meets a token it does not know. -/
theorem completions_exact (hfits : ∀ call ∈ calls, call.Fits page_size)
    (ht : Reached file path page_size calls rounds replies t) :
    (∀ read ∈ t.log.completed, ∃ request, (read.token, request) ∈ t.log.issued ∧
      read.data.length = request.bytes ∧
        read.data = (file.drop request.offset).take request.bytes) ∧
      (t.log.issued.map Prod.fst).Nodup ∧
      ((t.log.completed.map CompletedRead.token ++ t.log.lost) ++
        (t.inline_completions.map CompletedRead.token ++ t.async_buffers.map Prod.fst)).Perm
          (t.log.issued.map Prod.fst) ∧
      "Unknown graph async completion token" ∉ t.log.refused := by
  have h := sound_reached hsmall hfits ht
  refine ⟨fun read hread => ?_, h.nodup, h.account, h.known.1⟩
  obtain ⟨request, hissued, hread⟩ := h.answered read (List.mem_append_left _ hread)
  exact ⟨request, hissued, hread.1, hread.data_eq⟩

variable (file calls path page_size rounds replies) in
omit hsmall in
theorem reached_last
    (hseen : ((runCalls file calls).run rounds (newReader path page_size) replies).seen ≠ []) :
    Reached file path page_size calls rounds replies
      (((runCalls file calls).run rounds (newReader path page_size) replies).last
        (newReader path page_size)) := by
  rw [Reached, Progress.last]
  cases hcase : ((runCalls file calls).run rounds (newReader path page_size) replies).seen with
  | nil => exact absurd hcase hseen
  | cons t seen => exact List.mem_cons_self

omit hsmall in
/-- Two reads that are submitted together: the second one is served first, the first one is cut
short. -/
theorem completions_exact_two :
    let file : Bytes := List.replicate 8192 7
    let calls : List Call := [.configure "io_uring" 2 2, .batchSubmit [⟨0, 0, 4096⟩, ⟨1, 4096, 4096⟩],
      .reapAsyncRead true, .reapAsyncRead true]
    let replies : List KernelReply :=
      [⟨[], 3⟩, ⟨[], 0⟩, ⟨[], 2⟩, ⟨[(1, .read 4096)], 0⟩, ⟨[(0, .read 100)], 0⟩, ⟨[], 0⟩, ⟨[], 0⟩]
    ∃ t, Reached file "index" 4096 calls 4 replies t ∧
      t.log.completed.map CompletedRead.token = [2] ∧ t.log.lost = [1] ∧
      (∀ read ∈ t.log.completed, ∃ request, (read.token, request) ∈ t.log.issued ∧
        read.data.length = request.bytes ∧
          read.data = (file.drop request.offset).take request.bytes) := by
  intro file calls replies
  have hfits : ∀ call ∈ calls, call.Fits 4096 := by
    intro call hcall
    simp only [calls, List.mem_cons, List.not_mem_nil, or_false] at hcall
    rcases hcall with rfl | rfl | rfl | rfl
    · trivial
    · intro request hrequest
      simp only [List.mem_cons, List.not_mem_nil, or_false] at hrequest
      rcases hrequest with rfl | rfl
      · exact le_rfl
      · exact le_rfl
    · trivial
    · trivial
  have hreached := reached_last file 4096 calls "index" 4 replies
    (List.ne_nil_of_length_pos (by decide +kernel))
  exact ⟨_, hreached, by decide +kernel, by decide +kernel,
    (completions_exact (by decide) hfits hreached).1⟩

/-- Every buffer is free or belongs to one pending read. A read that the kernel has still to serve is a
pending one, writes to its own buffer and has room there; only a wait that failed lets the ring be
closed over such a read. -/
theorem buffers_exclusive (hfits : ∀ call ∈ calls, call.Fits page_size)
    (ht : Reached file path page_size calls rounds replies t) :
    (t.async_buffer_pool.free_list ++ t.async_buffers.map fun entry => entry.2.index).Perm
        (List.range t.async_buffer_pool.buffers.length) ∧
      t.ring.tokens.Perm (t.async_buffers.map Prod.fst) ∧
      (∀ sqe ∈ t.ring.accepted, ∃ buffer, (sqe.user_data, buffer) ∈ t.async_buffers ∧
        sqe.buffer = buffer.index ∧
        sqe.bytes ≤ (t.async_buffer_pool.buffers.getD sqe.buffer []).length) ∧
      (t.log.stray = [] ∨ t.log.wait_failed = true) := by
  have h := sound_reached hsmall hfits ht
  refine ⟨h.free, h.tokens, fun sqe hsqe => ?_, h.closed⟩
  obtain ⟨request, _, hbuffer, _, hbytes⟩ := h.prepared sqe (List.mem_append_right _ hsqe)
  obtain ⟨_, _, hequal, hle, _⟩ := h.pending _ hbuffer
  have hlt : sqe.buffer < t.async_buffer_pool.buffers.length := h.index_lt hbuffer
  refine ⟨_, hbuffer, rfl, ?_⟩
  have hroom := h.room _ (List.getElem_mem hlt)
  rw [List.getD_eq_getElem?_getD, List.getElem?_eq_getElem hlt, Option.getD_some, hroom, hbytes]
  exact (Nat.mod_le _ _).trans (le_of_eq_of_le hequal hle)

omit hsmall in
/-- A read that the kernel has accepted, beside a free buffer. -/
theorem buffers_exclusive_one :
    let calls : List Call := [.configure "io_uring" 2 2, .batchSubmit [⟨1, 4096, 4096⟩]]
    let replies : List KernelReply := [⟨[], 3⟩, ⟨[], 0⟩, ⟨[], 1⟩]
    ∃ t, Reached [] "index" 4096 calls 3 replies t ∧ t.ring.accepted = [⟨1, 1, 4096, 4096⟩] ∧
      t.async_buffer_pool.free_list = [0] ∧
      (t.async_buffer_pool.free_list ++ t.async_buffers.map fun entry => entry.2.index).Perm
        (List.range t.async_buffer_pool.buffers.length) := by
  intro calls replies
  have hfits : ∀ call ∈ calls, call.Fits 4096 := by
    intro call hcall
    simp only [calls, List.mem_cons, List.not_mem_nil, or_false] at hcall
    rcases hcall with rfl | rfl
    · trivial
    · intro request hrequest
      rw [List.mem_singleton.mp hrequest]
  have hreached := reached_last [] 4096 calls "index" 3 replies
    (List.ne_nil_of_length_pos (by decide +kernel))
  exact ⟨_, hreached, by decide +kernel, by decide +kernel,
    (buffers_exclusive (by decide) hfits hreached).1⟩

/-- Closing waits for completions only: while a read is queued that was never submitted, closing does
not return until a wait fails. -/
theorem closeNative_waits (hfits : ∀ call ∈ calls, call.Fits page_size)
    (ht : Reached file path page_size calls rounds replies t) (hqueued : t.ring.queued ≠ [])
    {rounds' : ℕ} {replies' : List KernelReply}
    (hreturned : ((closeNative file).run rounds' t replies').ending = .returned ()) :
    ((closeNative file).run rounds' t replies').state.log.wait_failed = true := by
  have h := sound_reached hsmall hfits ht
  have hclose : Holds (Sound file page_size) (closeNative file)
      (fun _ u => u.log.wait_failed = true) t := by
    apply holds_bind
    refine (holds_repeatUntil
      (fun u => Sound file page_size u ∧ u.ring.queued = t.ring.queued)
      (Q := fun _ u => Sound file page_size u ∧ u.log.wait_failed = true)
      (fun u hu => (holds_closeRound hsmall hu.1).mono fun o v hv => ?_) ⟨h, rfl⟩).mono
        fun _ u hu => ?_
    · have hstill := hv.2.1.trans hu.2
      cases o with
      | none => exact ⟨hv.1, hstill⟩
      | some _ =>
        refine ⟨hv.1, (hv.2.2 rfl).resolve_left fun hnone => hqueued ?_⟩
        -- the queued read is pending
        have hempty := hv.1.tokens
        rw [hnone, List.map_nil, List.perm_nil, LibUring.tokens, List.append_eq_nil_iff,
          List.map_eq_nil_iff, List.append_eq_nil_iff] at hempty
        exact hstill ▸ hempty.1.1
    · exact holds_change.mpr ⟨hu.1.closeRing (Or.inr hu.2), hu.2⟩
  exact (hclose rounds' replies').2 () hreturned

omit hsmall in
/-- A read that waits for its batch, and a wait that a signal interrupts. -/
theorem closeNative_waits_interrupted :
    let calls : List Call := [.configure "io_uring" 2 2, .startAsyncRead ⟨1, 4096, 4096⟩]
    let replies : List KernelReply := [⟨[], 3⟩, ⟨[], 0⟩]
    ∃ t, Reached [] "index" 4096 calls 3 replies t ∧ t.log.wait_failed = false ∧
      ((closeNative []).run 3 t [⟨[], 0⟩, ⟨[], 0⟩, ⟨[], 0⟩]).ending = .waiting ∧
      ((closeNative []).run 3 t [⟨[], 0⟩, ⟨[], -4⟩]).state.log.wait_failed = true := by
  intro calls replies
  have hfits : ∀ call ∈ calls, call.Fits 4096 := by
    intro call hcall
    simp only [calls, List.mem_cons, List.not_mem_nil, or_false] at hcall
    rcases hcall with rfl | rfl
    · trivial
    · exact Nat.le_refl 4096
  have hreached := reached_last [] 4096 calls "index" 3 replies
    (List.ne_nil_of_length_pos (by decide +kernel))
  exact ⟨_, hreached, by decide +kernel, by decide +kernel,
    closeNative_waits (by decide) hfits hreached (by decide +kernel) (by decide +kernel)⟩

end Runs

end Packed.Uring
