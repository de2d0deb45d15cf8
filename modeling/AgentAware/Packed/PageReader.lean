import AgentAware.Lib.Interaction
import AgentAware.Lib.PageFile
import AgentAware.Packed.PageCache

/-!
# The page reader

`AsyncPageReader` with the ring and the buffers below it. A read takes a buffer of the pool and an entry
of the ring; the kernel accepts entries when they are submitted, serves what it has accepted in any
order, writes to the buffers while it does, and leaves completions to be reaped. What the kernel does
comes with its answer to a system call, so a run over all answers is one over all ways in which the
kernel and the reader interleave. The synchronous read of `LibUring::read` is not part of this model.

## Main definitions

- `LibUring`, `AlignedBufferPool`, `PageReader` — the ring, the pool and the reader
- `serve` — the kernel serves a read
- `startAsyncRead`, `batchSubmit`, `submitAsyncReads`, `reapAsyncRead`, `configure` — the calls
- `runCalls` — a client that makes calls and survives their exceptions
-/

namespace Packed.Uring

open Interaction

abbrev Token := ℕ

def kDirectIoAlignment : ℕ := 4096

structure DiskGraphIoStatus where
  requested_mode : String := "pread"
  effective_mode : String := "pread"
  fallback_reason : String := ""
  direct_enabled : Bool := false
  io_uring_enabled : Bool := false
  batch_size : ℕ := 1
  depth : ℕ := 1
  deriving DecidableEq

structure ReadRequest where
  page_id : PageId
  offset : ℕ
  bytes : ℕ
  deriving DecidableEq

structure CompletedRead where
  token : Token
  data : Bytes
  deriving DecidableEq

/-- The buffer of a pending read. -/
structure AsyncBuffer where
  bytes : ℕ
  index : ℕ
  deriving DecidableEq

/-- An entry of the submission queue, with its buffer in the pool. -/
structure Sqe where
  user_data : Token
  buffer : ℕ
  offset : ℕ
  bytes : ℕ
  deriving DecidableEq

structure Completion where
  user_data : Token
  result : ℤ
  deriving DecidableEq

structure LibUring where
  entries : ℕ := 0
  /-- Prepared, and not accepted by the kernel. -/
  queued : List Sqe := []
  queued_submissions : ℕ := 0
  accepted : List Sqe := []
  completions : List Completion := []
  /-- Popped, and not handled yet. -/
  popped : List Completion := []
  deriving DecidableEq

structure AlignedBufferPool where
  buffers : List Bytes := []
  free_list : List ℕ := []
  deriving DecidableEq

/-- What a run has done so far, latest first. -/
structure ReaderLog where
  issued : List (Token × ReadRequest) := []
  completed : List CompletedRead := []
  /-- Reads that failed, and reads that were dropped. -/
  lost : List Token := []
  /-- Reads that the kernel was still to serve when the ring was closed. -/
  stray : List Sqe := []
  wait_failed : Bool := false
  refused : List String := []
  deriving DecidableEq

/-- `AsyncPageReader::Impl`. -/
structure PageReader where
  path : String
  page_size : ℕ
  status : DiskGraphIoStatus := {}
  async_buffers : List (Token × AsyncBuffer) := []
  inline_completions : List CompletedRead := []
  async_buffer_pool : AlignedBufferPool := {}
  next_async_token : Token := 1
  ring : LibUring := {}
  log : ReaderLog := {}
  deriving DecidableEq

/-- How the kernel serves a read. -/
inductive Served
  /-- At most so many bytes are read. -/
  | read (count : ℕ)
  /-- An error, and what was written before it. -/
  | failed (errno : Fin 4095) (written : Bytes)

/-- The answer to a system call, and the accepted reads that are served before it. -/
structure KernelReply where
  services : List (ℕ × Served) := []
  result : ℤ := 0

abbrev ReaderM := Interaction PageReader KernelReply

/-- `static_cast<int>`. -/
def castInt (value : ℕ) : ℤ :=
  if value % 2 ^ 32 < 2 ^ 31 then (value % 2 ^ 32 : ℕ) else (value % 2 ^ 32 : ℕ) - 2 ^ 32

namespace AlignedBufferPool

def reset (count bytes : ℕ) : AlignedBufferPool :=
  if count = 0 ∨ bytes = 0 then {}
  else { buffers := List.replicate count (List.replicate bytes 0), free_list := List.range count }

def release (pool : AlignedBufferPool) (index : ℕ) : Except String AlignedBufferPool :=
  if pool.buffers.length ≤ index then .error "Invalid graph I/O buffer pool release"
  else .ok { pool with free_list := pool.free_list ++ [index] }

end AlignedBufferPool

section Kernel

variable (file : Bytes)

/-- The bytes that a read leaves in its buffer, and its result. -/
def Served.outcome (sqe : Sqe) : Served → Bytes × ℤ
  | .read count =>
    let data := (transfer file sqe.offset sqe.bytes).take count
    (data, data.length)
  | .failed errno written => (written.take sqe.bytes, -(errno + 1))

def overwrite (data buffer : Bytes) : Bytes := data ++ buffer.drop data.length

/-- The kernel serves a read that it has accepted. -/
def serve (reader : PageReader) (service : ℕ × Served) : PageReader :=
  match reader.ring.accepted[service.1]? with
  | none => reader
  | some sqe =>
    { reader with
      async_buffer_pool := { reader.async_buffer_pool with
        buffers := reader.async_buffer_pool.buffers.modify sqe.buffer
          (overwrite (service.2.outcome file sqe).1) }
      ring := { reader.ring with
        accepted := reader.ring.accepted.eraseIdx service.1
        completions := reader.ring.completions ++
          [⟨sqe.user_data, (service.2.outcome file sqe).2⟩] } }

/-- A system call. -/
def syscall : ReaderM ℤ := do
  let reply ← ask
  change fun reader => reply.services.foldl (serve file) reader
  return reply.result

end Kernel

section Calls

variable (file : Bytes)

/-- Throw, and remember it. -/
def refuse {α : Type} (message : String) : ReaderM α := do
  change fun reader => { reader with
    log := { reader.log with refused := message :: reader.log.refused } }
  throw message

def errnoReason (label : String) (result : ℤ) : String := label ++ "_" ++ toString (-result)

def asyncEnabled (reader : PageReader) : Bool := reader.status.effective_mode == "io_uring"

def maxPendingReads (reader : PageReader) : ℕ :=
  if asyncEnabled reader then max 1 reader.status.depth else 0

def pendingAsyncReads (reader : PageReader) : ℕ :=
  reader.async_buffers.length + reader.inline_completions.length

/-- The ring has an entry for the read, which now has its buffer. -/
def queueRead (request : ReadRequest) (index : ℕ) (reader : PageReader) : PageReader :=
  { reader with
    next_async_token := reader.next_async_token + 1
    async_buffer_pool := { reader.async_buffer_pool with
      free_list := reader.async_buffer_pool.free_list.dropLast }
    ring := { reader.ring with
      queued := reader.ring.queued ++
        [⟨reader.next_async_token, index, request.offset, request.bytes % 2 ^ 32⟩]
      queued_submissions := reader.ring.queued_submissions + 1 }
    async_buffers := (reader.next_async_token, ⟨request.bytes, index⟩) :: reader.async_buffers
    log := { reader.log with
      issued := (reader.next_async_token, request) :: reader.log.issued } }

def startAsyncRead (request : ReadRequest) : ReaderM Token := do
  let reader ← get
  if asyncEnabled reader = false then refuse "Async graph reads require io_uring mode"
  else if reader.status.direct_enabled ∧ (request.offset % kDirectIoAlignment ≠ 0 ∨
      request.bytes % kDirectIoAlignment ≠ 0) then
    refuse "Direct graph I/O requires aligned page offsets and lengths"
  else if reader.async_buffer_pool.buffers.length = 0 then
    refuse "Graph async I/O buffer pool is not initialized"
  else
    match reader.async_buffer_pool.free_list.getLast? with
    | none => refuse "Graph async I/O buffer pool is exhausted"
    | some index =>
      if reader.ring.entries ≤ reader.ring.queued.length then
        -- the buffer is taken and given back; the token is gone
        change fun reader => { reader with next_async_token := reader.next_async_token + 1 }
        refuse "Graph page async read failed: io_uring_get_sqe_queue_full"
      else act fun reader => (reader.next_async_token, queueRead request index reader)

/-- The kernel accepts entries from the front of the queue. -/
def accept (count : ℕ) (reader : PageReader) : PageReader :=
  { reader with
    ring := { reader.ring with
      accepted := reader.ring.accepted ++ reader.ring.queued.take count
      queued := reader.ring.queued.drop count
      queued_submissions := if reader.ring.queued_submissions ≤ min count reader.ring.queued.length
        then 0 else reader.ring.queued_submissions - min count reader.ring.queued.length } }

/-- A round of `submit_queued`, with the reason when it fails. -/
def submitRound : ReaderM (Option (Option String)) := do
  let reader ← get
  if reader.ring.queued_submissions = 0 then return some none
  else
    let submitted ← syscall file
    if submitted < 0 then return some (some (errnoReason "io_uring_submit_failed_errno" submitted))
    else if submitted = 0 then return some (some "io_uring_submit_submitted_zero")
    else
      change (accept submitted.toNat)
      return none

def submitQueued : ReaderM (Option String) := repeatUntil (submitRound file)

def submitAsyncReads : ReaderM Unit := do
  let reader ← get
  if asyncEnabled reader = false then return ()
  else
    match ← submitQueued file with
    | some reason => refuse ("Graph page async submit failed: " ++ reason)
    | none => return ()

/-- `read_with_pread`, through a mode that reads synchronously. -/
def readSync (offset bytes : ℕ) : ReaderM Bytes := do
  let reader ← get
  if reader.status.direct_enabled ∧ (offset % kDirectIoAlignment ≠ 0 ∨
      bytes % kDirectIoAlignment ≠ 0) then
    refuse "Direct graph I/O requires aligned page offsets and lengths"
  else
    let result ← syscall file
    if result < 0 then
      refuse ("Graph page read failed: " ++ errnoReason "pread_failed_errno" result)
    else
      let data := (transfer file offset bytes).take result.toNat
      if data.length ≠ bytes then
        refuse ("Graph page read failed: pread_short_read_" ++ toString data.length)
      else return data

/-- A request that is read at once; its completion waits in line. -/
def readInline (request : ReadRequest) : ReaderM Token := do
  let token ← act fun reader => (reader.next_async_token,
    { reader with next_async_token := reader.next_async_token + 1 })
  let data ← readSync file request.offset request.bytes
  change fun reader => { reader with
    inline_completions := reader.inline_completions ++ [⟨token, data⟩]
    log := { reader.log with issued := (token, request) :: reader.log.issued } }
  return token

/-- The requests of a batch, with `queued_in_batch` of them not submitted yet. -/
def batchSubmitFrom : List ReadRequest → ℕ → ReaderM (List (PageId × Token))
  | [], queued_in_batch => do
    if 0 < queued_in_batch then submitAsyncReads file else pure ()
    return []
  | request :: requests, queued_in_batch => do
    let reader ← get
    if asyncEnabled reader then
      let token ← startAsyncRead request
      let batch_limit := max 1 (min reader.status.batch_size (max 1 (maxPendingReads reader)))
      if batch_limit ≤ queued_in_batch + 1 then
        submitAsyncReads file
        return (request.page_id, token) :: (← batchSubmitFrom requests 0)
      else return (request.page_id, token) :: (← batchSubmitFrom requests (queued_in_batch + 1))
    else
      let token ← readInline file request
      return (request.page_id, token) :: (← batchSubmitFrom requests 0)

def batchSubmit (read_requests : List ReadRequest) : ReaderM (List (PageId × Token)) :=
  batchSubmitFrom file read_requests 0

/-- What `io_uring_peek_cqe` or `io_uring_wait_cqe` finds. -/
inductive Popped
  | completion (cqe : Completion)
  | nothing
  | failed (reason : String)

/-- A round of `pop_completion`; a wait goes on until there is a completion or a failure. -/
def popRound (wait : Bool) : ReaderM (Option Popped) := do
  let result ← syscall file
  let reader ← get
  match reader.ring.completions with
  | cqe :: completions =>
    change fun reader => { reader with
      ring := { reader.ring with
        completions := completions
        popped := cqe :: reader.ring.popped } }
    return some (.completion cqe)
  | [] =>
    if 0 ≤ result then return if wait then none else some .nothing
    else
      change fun reader => { reader with
        log := { reader.log with wait_failed := wait || reader.log.wait_failed } }
      if result = -11 then return some .nothing
      else
        return some (.failed (errnoReason
          (if wait then "io_uring_wait_cqe_failed_errno" else "io_uring_peek_cqe_failed_errno")
          result))

def popCompletion (wait : Bool) : ReaderM Popped := repeatUntil (popRound file wait)

/-- The reader is done with a completion. -/
def forget (cqe : Completion) (reader : PageReader) : PageReader :=
  { reader with
    async_buffers := reader.async_buffers.filter fun entry => entry.1 ≠ cqe.user_data
    ring := { reader.ring with popped := reader.ring.popped.erase cqe } }

/-- A read that brings no data. -/
def loseRead (cqe : Completion) (pool : AlignedBufferPool) (reader : PageReader) : PageReader :=
  { forget cqe reader with
    async_buffer_pool := pool
    log := { reader.log with lost := cqe.user_data :: reader.log.lost } }

/-- A read that brings its data. -/
def keepRead (cqe : Completion) (pool : AlignedBufferPool) (data : Bytes) (reader : PageReader) :
    PageReader :=
  { forget cqe reader with
    async_buffer_pool := pool
    log := { reader.log with completed := ⟨cqe.user_data, data⟩ :: reader.log.completed } }

def readFailure (result : ℤ) : String :=
  if result < 0 then errnoReason "io_uring_read_failed_errno" result
  else "io_uring_short_read_" ++ toString result

/-- What `reap_async_read` does with a completion. -/
def finishRead (cqe : Completion) : ReaderM CompletedRead := do
  -- the kernel goes on before the data is copied
  let _ ← syscall file
  let reader ← get
  match reader.async_buffers.lookup cqe.user_data with
  | none => refuse "Unknown graph async completion token"
  | some buffer =>
    match reader.async_buffer_pool.release buffer.index with
    | .error message => refuse message
    | .ok pool =>
      if cqe.result ≠ castInt buffer.bytes then
        change (loseRead cqe pool)
        refuse ("Graph page async read failed: " ++ readFailure cqe.result)
      else
        let data := (reader.async_buffer_pool.buffers.getD buffer.index []).take buffer.bytes
        change (keepRead cqe pool data)
        return ⟨cqe.user_data, data⟩

def reapAsyncRead (wait : Bool) : ReaderM (Option CompletedRead) := do
  let reader ← get
  match reader.inline_completions with
  | completed :: rest =>
    change fun reader => { reader with
      inline_completions := rest
      log := { reader.log with completed := completed :: reader.log.completed } }
    return some completed
  | [] =>
    if asyncEnabled reader = false then return none
    else
      match ← popCompletion file wait with
      | .failed reason => refuse ("Graph page async wait failed: " ++ reason)
      | .nothing => return none
      | .completion cqe => return some (← finishRead file cqe)

/-- A round of `close_native`, which ends when no read is pending or the wait fails. -/
def closeRound : ReaderM (Option Unit) := do
  let reader ← get
  if reader.async_buffers.isEmpty then return some ()
  else
    match ← popCompletion file true with
    | .failed _ => return some ()
    | .nothing => return some ()
    | .completion cqe =>
      let reader ← get
      match reader.async_buffers.lookup cqe.user_data with
      | none =>
        change (forget cqe)
        return none
      | some buffer =>
        match reader.async_buffer_pool.release buffer.index with
        | .error message => refuse message
        | .ok pool =>
          change (loseRead cqe pool)
          return none

/-- The ring is closed, the buffers are freed. -/
def closeRing (reader : PageReader) : PageReader :=
  { reader with
    async_buffers := []
    inline_completions := []
    async_buffer_pool := {}
    ring := {}
    log := { reader.log with
      lost := reader.async_buffers.map Prod.fst ++ reader.inline_completions.map CompletedRead.token ++
        reader.log.lost
      stray := reader.ring.accepted ++ reader.log.stray } }

def closeNative : ReaderM Unit := do
  repeatUntil (closeRound file)
  change closeRing

def openFd (label : String) : ReaderM Unit := do
  let result ← syscall file
  let reader ← get
  if result < 0 then refuse (errnoReason label result ++ ": " ++ reader.path) else return ()

def fallbackToPread (reason : String) : ReaderM Unit := do
  closeNative file
  openFd file "pread_fallback_open_failed_errno"
  change fun reader => { reader with
    status := { reader.status with
      effective_mode := "pread"
      direct_enabled := false
      io_uring_enabled := false
      fallback_reason := reason } }

/-- `ring.open`, and the pool behind it. -/
def openRing (io_depth : ℕ) : ReaderM Unit := do
  let result ← syscall file
  if result < 0 then
    fallbackToPread file (errnoReason "io_uring_queue_init_failed_errno" result)
  else
    -- the kernel rounds the number of entries up
    let entries := max (max 1 (min io_depth 4096)) result.toNat
    change fun reader => { reader with
      ring := { entries := entries }
      async_buffer_pool := AlignedBufferPool.reset io_depth reader.page_size
      status := { reader.status with
        effective_mode := "io_uring"
        direct_enabled := true
        io_uring_enabled := true } }

def configure (mode : String) (batch_size io_depth : ℕ) : ReaderM Unit := do
  if mode ≠ "pread" ∧ mode ≠ "odirect" ∧ mode ≠ "io_uring" then
    refuse ("Unsupported disk I/O mode: " ++ mode)
  else if batch_size = 0 then refuse "Disk I/O batch size must be positive"
  else if io_depth = 0 then refuse "Disk I/O depth must be positive"
  else
    closeNative file
    change fun reader => { reader with
      status := { requested_mode := mode, batch_size := batch_size, depth := io_depth } }
    let reader ← get
    if mode = "pread" then openFd file "pread_open_failed_errno"
    else if reader.page_size % kDirectIoAlignment ≠ 0 then
      fallbackToPread file (mode ++ "_requires_4096_aligned_pages")
    else
      let opened ← syscall file
      if opened < 0 then
        fallbackToPread file (errnoReason
          (if mode = "odirect" then "odirect_open_failed_errno"
           else "io_uring_odirect_open_failed_errno") opened)
      else if mode = "odirect" then
        change fun reader => { reader with
          status := { reader.status with effective_mode := "odirect", direct_enabled := true } }
      else openRing file io_depth

/-- What a client calls. -/
inductive Call
  | configure (mode : String) (batch_size io_depth : ℕ)
  | startAsyncRead (request : ReadRequest)
  | batchSubmit (read_requests : List ReadRequest)
  | submitAsyncReads
  | reapAsyncRead (wait : Bool)

def perform : Call → ReaderM Unit
  | .configure mode batch_size io_depth => configure file mode batch_size io_depth
  | .startAsyncRead request => do
    let _ ← startAsyncRead request
    return ()
  | .batchSubmit read_requests => do
    let _ ← batchSubmit file read_requests
    return ()
  | .submitAsyncReads => submitAsyncReads file
  | .reapAsyncRead wait => do
    let _ ← reapAsyncRead file wait
    return ()

/-- Calls one after the other; the client goes on after an exception. -/
def runCalls (calls : List Call) : ReaderM Unit :=
  forEach (fun call => do
    let _ ← attempt (perform file call)
    return ()) calls

end Calls

end Packed.Uring
