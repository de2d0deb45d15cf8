import AgentAware.Packed.PageReader
import Mathlib.Data.List.Perm.Basic

/-!
# The invariant of the page reader

Every buffer is free or belongs to one pending read, and every pending read is in one place: queued,
with the kernel, or completed. A completed read that counts as complete has the bytes of the file in its
buffer, which nothing else writes to as long as the read is pending.

## Main definitions

- `Sound` — the invariant
- `SameClient` — the kernel leaves what belongs to the reader

## Main results

- `Sound.serve`, `Sound.accept`, `Sound.pop` — the steps of the kernel and the ring
- `Sound.queueRead`, `Sound.loseRead`, `Sound.keepRead`, `Sound.closeRing` — the steps of the reader
-/

namespace Packed.Uring

/-- The entries of the ring, in all their places. -/
def LibUring.tokens (ring : LibUring) : List Token :=
  (ring.queued ++ ring.accepted).map Sqe.user_data ++
    (ring.completions ++ ring.popped).map Completion.user_data

/-- All bytes that a request asks for, in one transfer. -/
def ReadRequest.ReadAs (request : ReadRequest) (file data : Bytes) : Prop :=
  data.length = request.bytes ∧ data = transfer file request.offset request.bytes

theorem ReadRequest.ReadAs.data_eq {request : ReadRequest} {file data : Bytes}
    (h : request.ReadAs file data) : data = (file.drop request.offset).take request.bytes := by
  obtain ⟨hlength, hdata⟩ := h
  rw [hdata] at hlength
  rw [hdata, transfer_eq (le_maxTransfer_of_length hlength)]

/-- A read that counts as complete has left its bytes in its buffer. -/
def Filled (file : Bytes) (reader : PageReader) (cqe : Completion) : Prop :=
  ∀ buffer, (cqe.user_data, buffer) ∈ reader.async_buffers → cqe.result = castInt buffer.bytes →
    ∀ request, (cqe.user_data, request) ∈ reader.log.issued →
      request.ReadAs file
        ((reader.async_buffer_pool.buffers.getD buffer.index []).take buffer.bytes)

/-- A read that the kernel has not served is the one that was asked for. -/
def Prepared (reader : PageReader) (sqe : Sqe) : Prop :=
  ∃ request, (sqe.user_data, request) ∈ reader.log.issued ∧
    (sqe.user_data, ⟨request.bytes, sqe.buffer⟩) ∈ reader.async_buffers ∧
    sqe.offset = request.offset ∧ sqe.bytes = request.bytes % 2 ^ 32

structure Sound (file : Bytes) (page_size : ℕ) (reader : PageReader) : Prop where
  page_size_eq : reader.page_size = page_size
  direct : asyncEnabled reader = true → reader.status.direct_enabled = true
  free : (reader.async_buffer_pool.free_list ++
    reader.async_buffers.map fun entry => entry.2.index).Perm
      (List.range reader.async_buffer_pool.buffers.length)
  room : ∀ buffer ∈ reader.async_buffer_pool.buffers, buffer.length = page_size
  tokens : reader.ring.tokens.Perm (reader.async_buffers.map Prod.fst)
  counted : reader.ring.queued_submissions = reader.ring.queued.length
  fresh : ∀ entry ∈ reader.log.issued, entry.1 < reader.next_async_token
  nodup : (reader.log.issued.map Prod.fst).Nodup
  account : ((reader.log.completed.map CompletedRead.token ++ reader.log.lost) ++
    (reader.inline_completions.map CompletedRead.token ++ reader.async_buffers.map Prod.fst)).Perm
      (reader.log.issued.map Prod.fst)
  answered : ∀ read ∈ reader.log.completed ++ reader.inline_completions,
    ∃ request, (read.token, request) ∈ reader.log.issued ∧ request.ReadAs file read.data
  pending : ∀ entry ∈ reader.async_buffers, ∃ request, (entry.1, request) ∈ reader.log.issued ∧
    entry.2.bytes = request.bytes ∧ request.bytes ≤ page_size ∧
    request.bytes % kDirectIoAlignment = 0
  prepared : ∀ sqe ∈ reader.ring.queued ++ reader.ring.accepted, Prepared reader sqe
  filled : ∀ cqe ∈ reader.ring.completions ++ reader.ring.popped, Filled file reader cqe
  known : "Unknown graph async completion token" ∉ reader.log.refused ∧
    "Invalid graph I/O buffer pool release" ∉ reader.log.refused
  closed : reader.log.stray = [] ∨ reader.log.wait_failed = true

section Lists

variable {α β : Type} [DecidableEq α] {l : List (α × β)} {k : α} {v : β}

theorem perm_forget (hnodup : (l.map Prod.fst).Nodup) (hmem : (k, v) ∈ l) :
    l.Perm ((k, v) :: l.filter fun entry => entry.1 ≠ k) := by
  induction l with
  | nil => cases hmem
  | cons entry l ih =>
    rw [List.map_cons, List.nodup_cons] at hnodup
    rcases List.mem_cons.mp hmem with rfl | hmem
    · have hall : l.filter (fun entry => entry.1 ≠ k) = l := by
        refine List.filter_eq_self.mpr fun other hother => decide_eq_true fun heq => ?_
        exact hnodup.1 (List.mem_map.mpr ⟨other, hother, heq⟩)
      rw [List.filter_cons_of_neg (by simp), hall]
    · have hne : entry.1 ≠ k := by
        rintro rfl
        exact hnodup.1 (List.mem_map.mpr ⟨_, hmem, rfl⟩)
      rw [List.filter_cons_of_pos (p := fun entry : α × β => decide (entry.1 ≠ k))
        (decide_eq_true hne)]
      exact ((ih hnodup.2 hmem).cons entry).trans (List.Perm.swap _ _ _)

omit [DecidableEq α] in
theorem value_eq (hnodup : (l.map Prod.fst).Nodup) {w : β} (hv : (k, v) ∈ l) (hw : (k, w) ∈ l) :
    v = w := by
  have heq : ((k, v) : α × β) = (k, w) := List.inj_on_of_nodup_map hnodup hv hw rfl
  exact (Prod.mk.inj heq).2

theorem lookup_of_mem (hnodup : (l.map Prod.fst).Nodup) (hmem : (k, v) ∈ l) :
    l.lookup k = some v := by
  induction l with
  | nil => cases hmem
  | cons entry l ih =>
    rw [List.map_cons, List.nodup_cons] at hnodup
    rw [List.lookup_cons]
    rcases List.mem_cons.mp hmem with rfl | hmem
    · simp
    · have hne : (k == entry.1) = false := by
        refine beq_false_of_ne ?_
        rintro rfl
        exact hnodup.1 (List.mem_map.mpr ⟨_, hmem, rfl⟩)
      rw [hne]
      exact ih hnodup.2 hmem

end Lists

variable {file : Bytes} {page_size : ℕ} {reader : PageReader} {cqe : Completion}

namespace Sound

theorem keys_nodup (h : Sound file page_size reader) :
    (reader.async_buffers.map Prod.fst).Nodup := by
  have hall := h.account.nodup_iff.mpr h.nodup
  exact (List.nodup_append.mp (List.nodup_append.mp hall).2.1).2.1

theorem indices_nodup (h : Sound file page_size reader) :
    (reader.async_buffers.map fun entry => entry.2.index).Nodup := by
  have hall := h.free.nodup_iff.mpr List.nodup_range
  exact (List.nodup_append.mp hall).2.1

/-- Two pending reads have two buffers. -/
theorem index_inj (h : Sound file page_size reader) {token other : Token} {buffer buffer' : AsyncBuffer}
    (hmem : (token, buffer) ∈ reader.async_buffers) (hother : (other, buffer') ∈ reader.async_buffers)
    (hindex : buffer.index = buffer'.index) : token = other := by
  have heq : (token, buffer) = (other, buffer') :=
    List.inj_on_of_nodup_map h.indices_nodup hmem hother hindex
  exact (Prod.mk.inj heq).1

theorem index_lt (h : Sound file page_size reader) {token : Token} {buffer : AsyncBuffer}
    (hmem : (token, buffer) ∈ reader.async_buffers) :
    buffer.index < reader.async_buffer_pool.buffers.length := by
  refine List.mem_range.mp (h.free.mem_iff.mp (List.mem_append_right _ ?_))
  exact List.mem_map_of_mem (f := fun entry : Token × AsyncBuffer => entry.2.index) hmem

end Sound

/-- The kernel leaves what belongs to the reader. -/
structure SameClient (reader other : PageReader) : Prop where
  path : other.path = reader.path
  page_size : other.page_size = reader.page_size
  status : other.status = reader.status
  async_buffers : other.async_buffers = reader.async_buffers
  inline_completions : other.inline_completions = reader.inline_completions
  free_list : other.async_buffer_pool.free_list = reader.async_buffer_pool.free_list
  buffers : other.async_buffer_pool.buffers.length = reader.async_buffer_pool.buffers.length
  next_async_token : other.next_async_token = reader.next_async_token
  queued : other.ring.queued = reader.ring.queued
  popped : other.ring.popped = reader.ring.popped
  entries : other.ring.entries = reader.ring.entries
  log : other.log = reader.log

theorem SameClient.refl (reader : PageReader) : SameClient reader reader :=
  ⟨rfl, rfl, rfl, rfl, rfl, rfl, rfl, rfl, rfl, rfl, rfl, rfl⟩

theorem SameClient.trans {reader other third : PageReader} (h : SameClient reader other)
    (h' : SameClient other third) : SameClient reader third :=
  ⟨h'.path.trans h.path, h'.page_size.trans h.page_size, h'.status.trans h.status,
    h'.async_buffers.trans h.async_buffers, h'.inline_completions.trans h.inline_completions,
    h'.free_list.trans h.free_list, h'.buffers.trans h.buffers,
    h'.next_async_token.trans h.next_async_token, h'.queued.trans h.queued, h'.popped.trans h.popped,
    h'.entries.trans h.entries, h'.log.trans h.log⟩

theorem sameClient_serve (service : ℕ × Served) : SameClient reader (serve file reader service) := by
  rw [serve]
  cases reader.ring.accepted[service.1]? with
  | none => exact SameClient.refl reader
  | some sqe =>
    exact ⟨rfl, rfl, rfl, rfl, rfl, rfl, List.length_modify _ _ _, rfl, rfl, rfl, rfl, rfl⟩

section Kernel

theorem castInt_eq {value : ℕ} (h : value < 2 ^ 32) :
    castInt value = if value < 2 ^ 31 then (value : ℤ) else (value : ℤ) - 2 ^ 32 := by
  rw [castInt, Nat.mod_eq_of_lt h]

/-- What a read of a whole number of sectors leaves in its buffer when it counts as complete. -/
theorem outcome_complete {sqe : Sqe} {served : Served} (hbytes : sqe.bytes < 2 ^ 32)
    (haligned : sqe.bytes % kDirectIoAlignment = 0)
    (hresult : (served.outcome file sqe).2 = castInt sqe.bytes) :
    (served.outcome file sqe).1.length = sqe.bytes ∧
      (served.outcome file sqe).1 = transfer file sqe.offset sqe.bytes := by
  rw [castInt_eq hbytes] at hresult
  rw [show kDirectIoAlignment = 4096 from rfl] at haligned
  cases served with
  | read count =>
    have hlength : (((transfer file sqe.offset sqe.bytes).take count).length : ℤ) =
        if sqe.bytes < 2 ^ 31 then (sqe.bytes : ℤ) else sqe.bytes - 2 ^ 32 := hresult
    have htake : ((transfer file sqe.offset sqe.bytes).take count).length = sqe.bytes := by
      split at hlength <;> omega
    refine ⟨htake, List.take_of_length_le ?_⟩
    rw [List.length_take] at htake
    have hle := length_transfer_le file sqe.offset sqe.bytes
    omega
  | failed errno written =>
    have hnegative : -(((errno : ℕ) : ℤ) + 1) =
        if sqe.bytes < 2 ^ 31 then (sqe.bytes : ℤ) else sqe.bytes - 2 ^ 32 := hresult
    have herrno := errno.isLt
    split at hnegative <;> omega

theorem getD_modify_ne {buffers : List Bytes} {i j : ℕ} (hne : i ≠ j) (f : Bytes → Bytes) :
    (buffers.modify i f).getD j [] = buffers.getD j [] := by
  rw [List.getD_eq_getElem?_getD, List.getD_eq_getElem?_getD, List.getElem?_modify]
  simp [hne]

theorem getD_modify_self {buffers : List Bytes} {i : ℕ} (hi : i < buffers.length)
    (f : Bytes → Bytes) : (buffers.modify i f).getD i [] = f (buffers.getD i []) := by
  simp [List.getD_eq_getElem?_getD, hi]

theorem length_overwrite {data buffer : Bytes} (h : data.length ≤ buffer.length) :
    (overwrite data buffer).length = buffer.length := by
  rw [overwrite, List.length_append, List.length_drop]
  omega

theorem length_outcome_le (file : Bytes) (sqe : Sqe) (served : Served) :
    (served.outcome file sqe).1.length ≤ sqe.bytes := by
  cases served with
  | read count => exact (List.length_take_le' _ _).trans (length_transfer_le _ _ _)
  | failed errno written => exact List.length_take_le _ _

namespace Sound

/-- The kernel serves a read into the buffer of that read, and of no other one. -/
theorem serve (h : Sound file page_size reader) (hsmall : page_size < 2 ^ 32)
    (service : ℕ × Served) : Sound file page_size (serve file reader service) := by
  rw [Uring.serve]
  cases haccepted : reader.ring.accepted[service.1]? with
  | none => exact h
  | some sqe =>
    have hmem : sqe ∈ reader.ring.queued ++ reader.ring.accepted :=
      List.mem_append_right _ (List.mem_of_getElem? haccepted)
    obtain ⟨request, hissued, hbuffer, hoffset, hbytes⟩ := h.prepared sqe hmem
    obtain ⟨_, hissued', hequal, hle, haligned⟩ := h.pending _ hbuffer
    obtain rfl := value_eq h.nodup hissued hissued'
    have hsqe : sqe.bytes = request.bytes := by
      rw [hbytes, Nat.mod_eq_of_lt (lt_of_le_of_lt hle hsmall)]
    have hindex : sqe.buffer < reader.async_buffer_pool.buffers.length := h.index_lt hbuffer
    obtain ⟨hlt, hget⟩ := List.getElem?_eq_some_iff.mp haccepted
    have hsplit := List.getElem_cons_eraseIdx_perm hlt
    rw [hget] at hsplit
    have hdistinct := (List.nodup_append.mp (h.tokens.nodup_iff.mpr h.keys_nodup)).2.2
    refine { h with free := ?_, room := ?_, tokens := ?_, prepared := ?_, filled := ?_ }
    · rw [List.length_modify]
      exact h.free
    · intro buffer hmodified
      obtain ⟨i, hi⟩ := List.mem_iff_getElem?.mp hmodified
      rw [List.getElem?_modify, Option.map_eq_map, Option.map_eq_some_iff] at hi
      obtain ⟨old, hold, rfl⟩ := hi
      have hroom := h.room old (List.mem_of_getElem? hold)
      split
      · rw [length_overwrite, hroom]
        have hwritten := length_outcome_le file sqe service.2
        omega
      · exact hroom
    · refine List.Perm.trans ?_ h.tokens
      have hkeys := hsplit.map Sqe.user_data
      rw [List.perm_iff_count] at hkeys ⊢
      intro token
      have hcount := hkeys token
      simp only [LibUring.tokens, List.map_append, List.map_cons, List.map_nil, List.count_append,
        List.count_cons, List.count_nil] at hcount ⊢
      omega
    · intro other hother
      refine h.prepared other ?_
      rcases List.mem_append.mp hother with hother | hother
      · exact List.mem_append_left _ hother
      · exact List.mem_append_right _ (List.mem_of_mem_eraseIdx hother)
    · intro cqe hcqe
      have hcases : cqe ∈ reader.ring.completions ++ reader.ring.popped ∨
          cqe = ⟨sqe.user_data, (service.2.outcome file sqe).2⟩ := by
        simp only [List.mem_append, List.mem_singleton] at hcqe ⊢
        tauto
      rcases hcases with hold | rfl
      · intro other hother hresult asked hasked
        have hne : sqe.buffer ≠ other.index := by
          intro hsame
          exact hdistinct _ (List.mem_map_of_mem hmem) _ (List.mem_map_of_mem hold)
            (h.index_inj hbuffer hother hsame)
        show asked.ReadAs file (((reader.async_buffer_pool.buffers.modify sqe.buffer
          (overwrite (service.2.outcome file sqe).1)).getD other.index []).take other.bytes)
        rw [getD_modify_ne hne]
        exact h.filled cqe hold other hother hresult asked hasked
      · intro other hother hresult asked hasked
        obtain rfl := value_eq h.keys_nodup hbuffer hother
        obtain rfl := value_eq h.nodup hissued hasked
        have hcomplete : (service.2.outcome file sqe).2 = castInt sqe.bytes := by
          rw [hsqe]
          exact hresult
        obtain ⟨hlength, hdata⟩ := outcome_complete (by omega) (by rw [hsqe]; exact haligned) hcomplete
        show request.ReadAs file (((reader.async_buffer_pool.buffers.modify sqe.buffer
          (overwrite (service.2.outcome file sqe).1)).getD sqe.buffer []).take request.bytes)
        rw [getD_modify_self hindex, overwrite, ← hsqe, List.take_left' hlength]
        exact ⟨hlength.trans hsqe, by rw [hdata, hsqe, hoffset]⟩

theorem serveAll (h : Sound file page_size reader) (hsmall : page_size < 2 ^ 32)
    (services : List (ℕ × Served)) :
    Sound file page_size (services.foldl (Uring.serve file) reader) := by
  induction services generalizing reader with
  | nil => exact h
  | cons service services ih => exact ih (h.serve hsmall service)

/-- The kernel accepts entries. -/
theorem accept (h : Sound file page_size reader) (count : ℕ) :
    Sound file page_size (accept count reader) := by
  refine { h with tokens := ?_, counted := ?_, prepared := ?_ }
  · refine List.Perm.trans ?_ h.tokens
    have hsplit := congrArg (List.map Sqe.user_data) (List.take_append_drop count reader.ring.queued)
    rw [List.perm_iff_count]
    intro token
    have hcount := congrArg (List.count token) hsplit
    simp only [LibUring.tokens, Uring.accept, List.map_append, List.count_append] at hcount ⊢
    omega
  · have hcounted := h.counted
    simp only [Uring.accept, List.length_drop]
    split <;> omega
  · intro sqe hsqe
    refine h.prepared sqe ?_
    simp only [Uring.accept, List.mem_append] at hsqe ⊢
    rcases hsqe with hsqe | hsqe | hsqe
    · exact Or.inl (List.mem_of_mem_drop hsqe)
    · exact Or.inr hsqe
    · exact Or.inl (List.mem_of_mem_take hsqe)

end Sound

theorem sameClient_serveAll (services : List (ℕ × Served)) :
    SameClient reader (services.foldl (serve file) reader) := by
  induction services generalizing reader with
  | nil => exact SameClient.refl reader
  | cons service services ih => exact (sameClient_serve service).trans ih

end Kernel

section Steps

variable {token : Token} {request : ReadRequest} {buffer : AsyncBuffer} {index : ℕ} {data : Bytes}

namespace Sound

theorem refused (h : Sound file page_size reader) {message : String}
    (hunknown : "Unknown graph async completion token" ≠ message)
    (hinvalid : "Invalid graph I/O buffer pool release" ≠ message) :
    Sound file page_size { reader with
      log := { reader.log with refused := message :: reader.log.refused } } :=
  { h with
    known := ⟨List.not_mem_cons_of_ne_of_not_mem hunknown h.known.1,
      List.not_mem_cons_of_ne_of_not_mem hinvalid h.known.2⟩ }

theorem skipToken (h : Sound file page_size reader) :
    Sound file page_size { reader with next_async_token := reader.next_async_token + 1 } :=
  { h with fresh := fun entry hentry => (h.fresh entry hentry).trans (Nat.lt_succ_self _) }

theorem waitFailed (h : Sound file page_size reader) (wait : Bool) :
    Sound file page_size { reader with
      log := { reader.log with wait_failed := wait || reader.log.wait_failed } } :=
  { h with closed := h.closed.imp_right fun hfailed => by simp [hfailed] }

/-- A status that does not say `io_uring`. -/
theorem synchronous (h : Sound file page_size reader) (status : DiskGraphIoStatus)
    (hmode : status.effective_mode ≠ "io_uring") :
    Sound file page_size { reader with status := status } :=
  { h with direct := fun henabled => absurd (eq_of_beq henabled) hmode }

/-- A read takes the last free buffer. -/
theorem queueRead (h : Sound file page_size reader)
    (hfree : reader.async_buffer_pool.free_list.getLast? = some index)
    (hbytes : request.bytes ≤ page_size) (haligned : request.bytes % kDirectIoAlignment = 0) :
    Sound file page_size (Uring.queueRead request index reader) := by
  have hnew : reader.next_async_token ∉ reader.log.issued.map Prod.fst := by
    intro hmem
    obtain ⟨entry, hentry, heq⟩ := List.mem_map.mp hmem
    exact absurd (h.fresh entry hentry) (heq ▸ lt_irrefl _)
  have hlast : reader.async_buffer_pool.free_list =
      reader.async_buffer_pool.free_list.dropLast ++ [index] :=
    (List.dropLast_append_getLast? index hfree).symm
  refine { h with
    free := ?_
    tokens := ?_
    counted := ?_
    fresh := ?_
    nodup := ?_
    account := ?_
    answered := ?_
    pending := ?_
    prepared := ?_
    filled := ?_ }
  · have hcount := List.perm_iff_count.mp h.free
    rw [List.perm_iff_count]
    intro i
    have hi := hcount i
    have hi' := congrArg (List.count i) hlast
    simp only [Uring.queueRead, List.map_cons, List.count_append, List.count_cons,
      List.count_nil] at hi hi' ⊢
    omega
  · have hcount := List.perm_iff_count.mp h.tokens
    rw [List.perm_iff_count]
    intro other
    have hother := hcount other
    simp only [Uring.queueRead, LibUring.tokens, List.map_append, List.map_cons, List.map_nil,
      List.count_append, List.count_cons, List.count_nil] at hother ⊢
    omega
  · have hcounted := h.counted
    simp only [Uring.queueRead, List.length_append, List.length_singleton]
    omega
  · intro entry hentry
    rcases List.mem_cons.mp hentry with rfl | hentry
    · exact Nat.lt_succ_self _
    · exact (h.fresh entry hentry).trans (Nat.lt_succ_self _)
  · exact List.nodup_cons.mpr ⟨hnew, h.nodup⟩
  · have hcount := List.perm_iff_count.mp h.account
    rw [List.perm_iff_count]
    intro other
    have hother := hcount other
    simp only [Uring.queueRead, List.map_cons, List.count_append, List.count_cons] at hother ⊢
    omega
  · intro read hread
    obtain ⟨asked, hasked, hdata⟩ := h.answered read hread
    exact ⟨asked, List.mem_cons_of_mem _ hasked, hdata⟩
  · intro entry hentry
    rcases List.mem_cons.mp hentry with rfl | hentry
    · exact ⟨request, List.mem_cons_self, rfl, hbytes, haligned⟩
    · obtain ⟨asked, hasked, hrest⟩ := h.pending entry hentry
      exact ⟨asked, List.mem_cons_of_mem _ hasked, hrest⟩
  · intro sqe hsqe
    simp only [Uring.queueRead, List.mem_append, List.mem_singleton] at hsqe
    have hcases : sqe ∈ reader.ring.queued ++ reader.ring.accepted ∨
        sqe = ⟨reader.next_async_token, index, request.offset, request.bytes % 2 ^ 32⟩ := by
      rw [List.mem_append]
      tauto
    rcases hcases with hold | rfl
    · obtain ⟨asked, hasked, hbuffer, hrest⟩ := h.prepared sqe hold
      exact ⟨asked, List.mem_cons_of_mem _ hasked, List.mem_cons_of_mem _ hbuffer, hrest⟩
    · exact ⟨request, List.mem_cons_self, List.mem_cons_self, rfl, rfl⟩
  · intro cqe hcqe buffer hbuffer hresult asked hasked
    have hold : cqe.user_data ∈ reader.log.issued.map Prod.fst := by
      have htoken : cqe.user_data ∈ reader.ring.tokens :=
        List.mem_append_right _ (List.mem_map_of_mem hcqe)
      exact h.account.mem_iff.mp (List.mem_append_right _ (List.mem_append_right _
        (h.tokens.mem_iff.mp htoken)))
    have hne : cqe.user_data ≠ reader.next_async_token := fun heq => hnew (heq ▸ hold)
    refine h.filled cqe hcqe buffer ?_ hresult asked ?_
    · rcases List.mem_cons.mp hbuffer with heq | hmem
      · exact absurd (Prod.mk.inj heq).1 hne
      · exact hmem
    · rcases List.mem_cons.mp hasked with heq | hmem
      · exact absurd (Prod.mk.inj heq).1 hne
      · exact hmem

/-- A completion is popped. -/
theorem pop (h : Sound file page_size reader) {completions : List Completion}
    (hcompletions : reader.ring.completions = cqe :: completions) :
    Sound file page_size { reader with
      ring := { reader.ring with
        completions := completions
        popped := cqe :: reader.ring.popped } } := by
  refine { h with tokens := ?_, filled := ?_ }
  · refine List.Perm.trans ?_ h.tokens
    rw [List.perm_iff_count]
    intro token
    simp only [LibUring.tokens, hcompletions, List.map_append, List.map_cons, List.cons_append,
      List.count_append, List.count_cons]
    omega
  · intro other hother
    refine h.filled other ?_
    simp only [hcompletions, List.mem_append, List.mem_cons] at hother ⊢
    tauto

/-- A popped completion belongs to a pending read. -/
theorem lookup_popped (h : Sound file page_size reader) (hpopped : cqe ∈ reader.ring.popped) :
    ∃ buffer, reader.async_buffers.lookup cqe.user_data = some buffer ∧
      (cqe.user_data, buffer) ∈ reader.async_buffers := by
  have htoken : cqe.user_data ∈ reader.ring.tokens :=
    List.mem_append_right _ (List.mem_map_of_mem (List.mem_append_right _ hpopped))
  obtain ⟨entry, hentry, heq⟩ := List.mem_map.mp (h.tokens.mem_iff.mp htoken)
  obtain ⟨token, buffer⟩ := entry
  cases heq
  exact ⟨buffer, lookup_of_mem h.keys_nodup hentry, hentry⟩

theorem release_ok (h : Sound file page_size reader)
    (hbuffer : (token, buffer) ∈ reader.async_buffers) :
    reader.async_buffer_pool.release buffer.index = .ok { reader.async_buffer_pool with
      free_list := reader.async_buffer_pool.free_list ++ [buffer.index] } := by
  rw [AlignedBufferPool.release, if_neg (not_le.mpr (h.index_lt hbuffer))]

/-- The reader is done with a popped completion, and its buffer is free again. -/
theorem forgotten (h : Sound file page_size reader) (hpopped : cqe ∈ reader.ring.popped)
    (hbuffer : (cqe.user_data, buffer) ∈ reader.async_buffers) {log : ReaderLog}
    (hissued : log.issued = reader.log.issued) (hrefused : log.refused = reader.log.refused)
    (hstray : log.stray = reader.log.stray) (hwait : log.wait_failed = reader.log.wait_failed)
    (haccount : (log.completed.map CompletedRead.token ++ log.lost).Perm
      (cqe.user_data :: (reader.log.completed.map CompletedRead.token ++ reader.log.lost)))
    (hanswered : ∀ read ∈ log.completed, read ∉ reader.log.completed →
      ∃ request, (read.token, request) ∈ reader.log.issued ∧ request.ReadAs file read.data) :
    Sound file page_size { forget cqe reader with
      async_buffer_pool := { reader.async_buffer_pool with
        free_list := reader.async_buffer_pool.free_list ++ [buffer.index] }
      log := log } := by
  have hsplit := perm_forget h.keys_nodup hbuffer
  have hindices := hsplit.map fun entry => entry.2.index
  have hkeys := hsplit.map Prod.fst
  have herase := List.perm_cons_erase hpopped
  refine { h with
    free := ?_
    tokens := ?_
    fresh := ?_
    nodup := ?_
    account := ?_
    answered := ?_
    pending := ?_
    prepared := ?_
    filled := ?_
    known := ?_
    closed := ?_ }
  · have hcount := List.perm_iff_count.mp h.free
    rw [List.perm_iff_count] at hindices ⊢
    intro i
    have hi := hcount i
    have hi' := hindices i
    simp only [forget, List.map_cons, List.count_append, List.count_cons, List.count_nil] at hi hi' ⊢
    omega
  · have hpopped_keys := herase.map Completion.user_data
    have htokens := h.tokens
    rw [List.perm_iff_count] at hpopped_keys hkeys htokens ⊢
    intro token
    have h1 := hpopped_keys token
    have h2 := hkeys token
    have h3 := htokens token
    simp only [forget, LibUring.tokens, List.map_append, List.map_cons, List.count_append,
      List.count_cons] at h1 h2 h3 ⊢
    omega
  · exact fun entry hentry => h.fresh entry (hissued ▸ hentry)
  · rw [show (log.issued.map Prod.fst) = reader.log.issued.map Prod.fst by rw [hissued]]
    exact h.nodup
  · have hall := h.account
    rw [List.perm_iff_count] at hkeys hall haccount ⊢
    intro token
    have h1 := hkeys token
    have h2 := hall token
    have h3 := haccount token
    simp only [forget, hissued, List.map_cons, List.count_append, List.count_cons] at h1 h2 h3 ⊢
    omega
  · intro read hread
    rw [show ({ forget cqe reader with
      async_buffer_pool := { reader.async_buffer_pool with
        free_list := reader.async_buffer_pool.free_list ++ [buffer.index] }
      log := log } : PageReader).log.issued = reader.log.issued from hissued]
    by_cases hold : read ∈ reader.log.completed ++ reader.inline_completions
    · exact h.answered read hold
    · rw [List.mem_append, not_or] at hold
      rcases List.mem_append.mp hread with hread | hread
      · exact hanswered read hread hold.1
      · exact absurd hread hold.2
  · intro entry hentry
    obtain ⟨asked, hasked, hrest⟩ := h.pending entry (List.mem_of_mem_filter hentry)
    exact ⟨asked, hissued ▸ hasked, hrest⟩
  · intro sqe hsqe
    obtain ⟨asked, hasked, hsqe_buffer, hrest⟩ := h.prepared sqe hsqe
    refine ⟨asked, hissued ▸ hasked, List.mem_filter.mpr ⟨hsqe_buffer, decide_eq_true ?_⟩, hrest⟩
    have hdistinct := (List.nodup_append.mp (h.tokens.nodup_iff.mpr h.keys_nodup)).2.2
    exact hdistinct _ (List.mem_map_of_mem hsqe) _
      (List.mem_map_of_mem (List.mem_append_right _ hpopped))
  · intro other hother buffer' hbuffer' hresult asked hasked
    refine h.filled other ?_ buffer' (List.mem_of_mem_filter hbuffer') hresult asked
      (hissued ▸ hasked)
    rcases List.mem_append.mp hother with hother | hother
    · exact List.mem_append_left _ hother
    · exact List.mem_append_right _ (List.mem_of_mem_erase hother)
  · rw [show ({ forget cqe reader with
      async_buffer_pool := { reader.async_buffer_pool with
        free_list := reader.async_buffer_pool.free_list ++ [buffer.index] }
      log := log } : PageReader).log.refused = reader.log.refused from hrefused]
    exact h.known
  · rw [show ({ forget cqe reader with
      async_buffer_pool := { reader.async_buffer_pool with
        free_list := reader.async_buffer_pool.free_list ++ [buffer.index] }
      log := log } : PageReader).log = log from rfl, hstray, hwait]
    exact h.closed

theorem loseRead (h : Sound file page_size reader) (hpopped : cqe ∈ reader.ring.popped)
    (hbuffer : (cqe.user_data, buffer) ∈ reader.async_buffers) :
    Sound file page_size (Uring.loseRead cqe { reader.async_buffer_pool with
      free_list := reader.async_buffer_pool.free_list ++ [buffer.index] } reader) :=
  h.forgotten hpopped hbuffer rfl rfl rfl rfl List.perm_middle fun _ hread hnew => absurd hread hnew

theorem keepRead (h : Sound file page_size reader) (hpopped : cqe ∈ reader.ring.popped)
    (hbuffer : (cqe.user_data, buffer) ∈ reader.async_buffers)
    (hresult : cqe.result = castInt buffer.bytes) :
    Sound file page_size (Uring.keepRead cqe { reader.async_buffer_pool with
        free_list := reader.async_buffer_pool.free_list ++ [buffer.index] }
      ((reader.async_buffer_pool.buffers.getD buffer.index []).take buffer.bytes) reader) := by
  refine h.forgotten hpopped hbuffer rfl rfl rfl rfl (List.Perm.refl _) fun read hread hnew => ?_
  rcases List.mem_cons.mp hread with rfl | hread
  · obtain ⟨request, hissued, _⟩ := h.pending _ hbuffer
    exact ⟨request, hissued, h.filled cqe (List.mem_append_right _ hpopped) buffer hbuffer hresult
      request hissued⟩
  · exact absurd hread hnew

/-- A read without the ring is entered with its data. -/
theorem readInline (h : Sound file page_size reader) (hlt : token < reader.next_async_token)
    (hnew : token ∉ reader.log.issued.map Prod.fst) (hdata : request.ReadAs file data) :
    Sound file page_size { reader with
      inline_completions := reader.inline_completions ++ [⟨token, data⟩]
      log := { reader.log with issued := (token, request) :: reader.log.issued } } := by
  have hpending : ∀ {other : Token} {asked : ReadRequest},
      other ∈ reader.async_buffers.map Prod.fst →
      (other, asked) ∈ (token, request) :: reader.log.issued → (other, asked) ∈ reader.log.issued := by
    intro other asked hother hasked
    rcases List.mem_cons.mp hasked with heq | hmem
    · have hold := h.account.mem_iff.mp (List.mem_append_right _ (List.mem_append_right _ hother))
      rw [(Prod.mk.inj heq).1] at hold
      exact absurd hold hnew
    · exact hmem
  refine { h with
    fresh := ?_
    nodup := ?_
    account := ?_
    answered := ?_
    pending := ?_
    prepared := ?_
    filled := ?_ }
  · intro entry hentry
    rcases List.mem_cons.mp hentry with rfl | hentry
    · exact hlt
    · exact h.fresh entry hentry
  · exact List.nodup_cons.mpr ⟨hnew, h.nodup⟩
  · have hall := h.account
    rw [List.perm_iff_count] at hall ⊢
    intro other
    have hother := hall other
    simp only [List.map_append, List.map_cons, List.map_nil, List.count_append, List.count_cons,
      List.count_nil] at hother ⊢
    omega
  · intro read hread
    have hcases : read ∈ reader.log.completed ++ reader.inline_completions ∨ read = ⟨token, data⟩ := by
      simp only [List.mem_append, List.mem_singleton] at hread ⊢
      tauto
    rcases hcases with hold | rfl
    · obtain ⟨asked, hasked, hrest⟩ := h.answered read hold
      exact ⟨asked, List.mem_cons_of_mem _ hasked, hrest⟩
    · exact ⟨request, List.mem_cons_self, hdata⟩
  · intro entry hentry
    obtain ⟨asked, hasked, hrest⟩ := h.pending entry hentry
    exact ⟨asked, List.mem_cons_of_mem _ hasked, hrest⟩
  · intro sqe hsqe
    obtain ⟨asked, hasked, hrest⟩ := h.prepared sqe hsqe
    exact ⟨asked, List.mem_cons_of_mem _ hasked, hrest⟩
  · intro cqe hcqe buffer hbuffer hresult asked hasked
    exact h.filled cqe hcqe buffer hbuffer hresult asked
      (hpending (List.mem_map_of_mem (f := Prod.fst) hbuffer) hasked)

/-- The first completion in line is handed out. -/
theorem takeInline (h : Sound file page_size reader) {completed : CompletedRead}
    {rest : List CompletedRead} (hinline : reader.inline_completions = completed :: rest) :
    Sound file page_size { reader with
      inline_completions := rest
      log := { reader.log with completed := completed :: reader.log.completed } } := by
  refine { h with account := ?_, answered := ?_ }
  · have hall := h.account
    rw [hinline, List.perm_iff_count] at hall
    rw [List.perm_iff_count]
    intro token
    have htoken := hall token
    simp only [List.map_cons, List.count_append, List.count_cons] at htoken ⊢
    omega
  · intro read hread
    refine h.answered read ?_
    rw [hinline]
    simp only [List.mem_append, List.mem_cons] at hread ⊢
    tauto

/-- The ring is closed with nothing pending, or after a wait that failed. -/
theorem closeRing (h : Sound file page_size reader)
    (hdrained : reader.async_buffers = [] ∨ reader.log.wait_failed = true) :
    Sound file page_size (Uring.closeRing reader) := by
  refine { h with
    free := ?_
    room := ?_
    tokens := ?_
    counted := ?_
    account := ?_
    answered := ?_
    pending := ?_
    prepared := ?_
    filled := ?_
    closed := ?_ }
  · exact List.Perm.refl _
  · exact fun buffer hbuffer => absurd hbuffer List.not_mem_nil
  · exact List.Perm.refl _
  · rfl
  · have hall := h.account
    rw [List.perm_iff_count] at hall ⊢
    intro token
    have htoken := hall token
    simp only [Uring.closeRing, List.map_nil, List.count_append, List.count_nil] at htoken ⊢
    omega
  · intro read hread
    refine h.answered read ?_
    simp only [Uring.closeRing, List.append_nil] at hread
    exact List.mem_append_left _ hread
  · exact fun entry hentry => absurd hentry List.not_mem_nil
  · exact fun sqe hsqe => absurd hsqe List.not_mem_nil
  · exact fun cqe hcqe => absurd hcqe List.not_mem_nil
  · rcases hdrained with hnone | hfailed
    · refine h.closed.imp_left fun hstray => ?_
      have hempty := h.tokens
      rw [hnone, List.map_nil, List.perm_nil, LibUring.tokens, List.append_eq_nil_iff,
        List.map_eq_nil_iff, List.append_eq_nil_iff] at hempty
      rw [Uring.closeRing, hempty.1.2]
      exact hstray
    · exact Or.inr hfailed

/-- A ring is opened when nothing is pending. -/
theorem openRing (h : Sound file page_size reader) (hnone : reader.async_buffers = [])
    (entries io_depth : ℕ) (status : DiskGraphIoStatus) (hdirect : status.direct_enabled = true) :
    Sound file page_size { reader with
      ring := { entries := entries }
      async_buffer_pool := AlignedBufferPool.reset io_depth reader.page_size
      status := status } := by
  refine { h with
    direct := fun _ => hdirect
    free := ?_
    room := ?_
    tokens := ?_
    counted := rfl
    prepared := ?_
    filled := ?_ }
  · rw [hnone, AlignedBufferPool.reset]
    split
    · exact List.Perm.refl _
    · rw [List.length_replicate, List.map_nil, List.append_nil]
  · intro buffer hbuffer
    rw [AlignedBufferPool.reset] at hbuffer
    split at hbuffer
    · exact absurd hbuffer List.not_mem_nil
    · rw [List.eq_of_mem_replicate hbuffer, List.length_replicate]
      exact h.page_size_eq
  · rw [hnone]
    exact List.Perm.refl _
  · exact fun sqe hsqe => absurd hsqe List.not_mem_nil
  · exact fun cqe hcqe => absurd hcqe List.not_mem_nil

end Sound

end Steps

end Packed.Uring
