import AgentAware.Lib.Interaction
import AgentAware.Lib.Versions
import AgentAware.Packed.PinLifetime
import Mathlib.Data.Finset.Card
import Mathlib.Data.List.AList

/-!
# The pages of a query

A query asks its session for pages, one at a time or in batches, and hints at pages it may need
next. The session looks into the cache, waits for a read that is under way, or reads the page; it
reads ahead within a budget. The reader is asked for pages and hands completed reads back, in an
order and at times that are not the session's choice: its answers are the replies of an
`Interaction`.

## Main definitions

- `Reply`, `AsyncPageReader` — what the reader answers, and what it keeps
- `QueryPageSession` — the pages of a query and where each of them is
- `getOrLoadPage`, `ensurePagesLoadedBatch` — pages that the query needs now
- `submitPrefetchPlan`, `drainReadyPages` — pages that it may need next
- `finishQuery`, `query` — the end of a query, and a whole one
-/

namespace Packed.PageIo

/-- Tokens count the reads of a reader. -/
abbrev Token := ℕ

/-- What the reader answers. A page that was read comes decoded, or with the message of what went
wrong; `decode_page` refuses a page that names another id. A failure names the token of the read, if a
read has failed. -/
inductive Reply (α : Type)
  | nothing
  | completed (token : Token) (page : Except String α)
  | failed (token : Option Token) (reason : String)

structure DiskGraphIoStatus where
  io_uring_enabled : Bool := false
  depth : ℕ := 0
  batch_size : ℕ := 0
  deriving DecidableEq

/-- A completed read. -/
structure CompletedRead (α : Type) where
  token : Token
  page : Except String α

structure AsyncPageReader (α : Type) where
  status : DiskGraphIoStatus := {}
  /-- The tokens of `async_buffers_`, each with a buffer of the pool, which has `status.depth`. -/
  async_buffers : List Token := []
  /-- The pool was found empty. -/
  pool_exhausted : Bool := false
  inline_completions : List (CompletedRead α) := []
  next_async_token : Token := 1

structure PrefetchConfig where
  prefetch_policy : String := "none"
  prefetch_width : ℕ := 0
  prefetch_top_k : ℕ := 0
  prefetch_depth : ℕ := 1

structure DiskGraphSearchStats where
  prefetch_submitted_pages : ℕ := 0
  prefetch_submitted : ℕ := 0
  prefetch_completed : ℕ := 0
  prefetch_useful_pages : ℕ := 0
  prefetch_promoted : ℕ := 0
  prefetch_late_hit : ℕ := 0
  prefetch_dropped : ℕ := 0
  prefetch_wasted_pages : ℕ := 0
  demand_reads : ℕ := 0
  unique_pages_touched : ℕ := 0
  unique_demand_pages : ℕ := 0
  unique_prefetch_pages : ℕ := 0
  deriving DecidableEq

structure QueryPageSession (α D : Type) where
  index : PageCache α D
  page_reader : AsyncPageReader α
  page_count : ℕ
  async_prefetch : Bool := false
  prefetch_budget_pages : ℕ := 0
  demand_io_reserve_pages : ℕ := 1
  demand_inflight_pages : ℕ := 0
  finished : Bool := false
  visited_pages : Finset PageId := ∅
  demand_pages : Finset PageId := ∅
  prefetch_pages : Finset PageId := ∅
  pinned_pages : List PageId := []
  owned_pages : AList (fun _ : PageId => DecodedPage α) := ∅
  materialized_pages : Finset PageId := ∅
  ready_prefetch_pages : AList (fun _ : PageId => DecodedPage α) := ∅
  token_to_page : AList (fun _ : Token => PageId) := ∅
  pending_pages : Finset PageId := ∅
  completed_prefetch_pages : Finset PageId := ∅
  pending_hit_pages : Finset PageId := ∅
  stats : DiskGraphSearchStats := {}
  /-- Every page id that this query submitted to the reader, latest first. -/
  submitted_reads : List PageId := []
  /-- The pages behind `prefetch_submitted_pages`. -/
  prefetched : Multiset PageId := 0
  /-- The pages behind `prefetch_useful_pages`. -/
  promoted : Multiset PageId := 0
  /-- The pages behind `prefetch_dropped`. -/
  dropped : Multiset PageId := 0

def sessionAsyncPrefetchEnabled (status : DiskGraphIoStatus) (config : PrefetchConfig) : Bool :=
  status.io_uring_enabled && 0 < status.depth && 0 < config.prefetch_depth &&
    config.prefetch_policy ≠ "none"

def sessionDemandIoReserve (status : DiskGraphIoStatus) : ℕ :=
  if !status.io_uring_enabled || status.depth = 0 then 1
  else
    let io_depth := max 1 status.depth
    if io_depth ≤ 1 then 1 else max 1 (min (max 1 status.batch_size) (max 1 (io_depth / 2)))

def sessionPrefetchBudget (status : DiskGraphIoStatus) (config : PrefetchConfig) : ℕ :=
  if !sessionAsyncPrefetchEnabled status config then 0
  else
    let io_depth := max 1 status.depth
    let demand_reserve := sessionDemandIoReserve status
    if io_depth ≤ demand_reserve then 0
    else
      let width := max config.prefetch_width config.prefetch_top_k
      let width := if width = 0 then max 1 (io_depth / 4) else width
      min (width * max 1 config.prefetch_depth % 2 ^ 64) (io_depth - demand_reserve)

variable {α D : Type}

/-- A new session over an index, its reader and its number of pages. -/
def QueryPageSession.new (index : PageCache α D) (page_reader : AsyncPageReader α)
    (page_count : ℕ) (config : PrefetchConfig) : QueryPageSession α D where
  index := index
  page_reader := page_reader
  page_count := page_count
  async_prefetch := sessionAsyncPrefetchEnabled page_reader.status config
  prefetch_budget_pages := sessionPrefetchBudget page_reader.status config
  demand_io_reserve_pages := sessionDemandIoReserve page_reader.status

namespace QueryPageSession

variable (session : QueryPageSession α D) (page_id : PageId)

def asyncPageFootprint : ℕ :=
  session.pending_pages.card + session.ready_prefetch_pages.keys.length

def demandIoReserve : ℕ := max 1 session.demand_io_reserve_pages

def pageInCache : Bool := session.index.cacheEnabled && (session.index.find page_id).isSome

def pageReadyInSession : Bool :=
  page_id ∈ session.materialized_pages || page_id ∈ session.owned_pages ||
    page_id ∈ session.ready_prefetch_pages

def materializePage : QueryPageSession α D :=
  { session with materialized_pages := insert page_id session.materialized_pages }

def markPrefetchUsed : QueryPageSession α D :=
  if page_id ∈ session.completed_prefetch_pages then
    { session with
      completed_prefetch_pages := session.completed_prefetch_pages.erase page_id
      promoted := page_id ::ₘ session.promoted
      stats := { session.stats with
        prefetch_useful_pages := session.stats.prefetch_useful_pages + 1 } }
  else session

def tryGetCachedPage : Option (DecodedPage α) × QueryPageSession α D :=
  let found := session.index.lookupCachedPage page_id
  let session := { session with index := found.2 }
  if found.1.isSome then (found.1, session.markPrefetchUsed page_id) else (none, session)

section Store

variable [LT D] [DecidableLT D] [DecidableEq D] (page : DecodedPage α)

/-- Where a page that was read goes: to the cache, or to the session when there is none. -/
def keepPage : QueryPageSession α D :=
  if session.index.cacheEnabled then
    { session with index := session.index.storeCachedPage page }
  else { session with owned_pages := session.owned_pages.insert page_id page }

def takeReadyPrefetchPage : Option (DecodedPage α) × QueryPageSession α D :=
  match session.ready_prefetch_pages.lookup page_id with
  | none => (none, session)
  | some page =>
    let session := { session with pending_hit_pages := session.pending_hit_pages.erase page_id }
    let session := session.markPrefetchUsed page_id
    let session := { session with
      stats := { session.stats with prefetch_promoted := session.stats.prefetch_promoted + 1 }
      ready_prefetch_pages := session.ready_prefetch_pages.erase page_id }
    (some page, session.keepPage page_id page)

def materializeAvailablePage : Bool × QueryPageSession α D :=
  if page_id ∈ session.owned_pages then (true, session.materializePage page_id)
  else if page_id ∈ session.materialized_pages then (true, session)
  else
    let cached := session.tryGetCachedPage page_id
    if cached.1.isSome then (true, cached.2.materializePage page_id)
    else
      let ready := cached.2.takeReadyPrefetchPage page_id
      if ready.1.isSome then (true, ready.2.materializePage page_id) else (false, ready.2)

end Store

end QueryPageSession

open Interaction

/-- What a session does, with the answers of the reader. -/
abbrev SessionM (α D : Type) := Interaction (QueryPageSession α D) (Reply α)

section Reader

/-- Something that the reader may refuse to do. -/
def mayFail : SessionM α D Unit := do
  match ← ask with
  | .failed _ reason => throw reason
  | _ => pure ()

/-- `submit_async_reads`. -/
def submitAsyncReads : SessionM α D Unit := do
  let session ← get
  if session.page_reader.status.io_uring_enabled then mayFail else pure ()

/-- `start_async_read`; the read is entered in the log of the query. -/
def startAsyncRead (page_id : PageId) : SessionM α D Token := do
  let session ← get
  if session.page_reader.status.depth ≤ session.page_reader.async_buffers.length then
    change fun session => { session with
      page_reader := { session.page_reader with pool_exhausted := true } }
    throw "Graph async I/O buffer pool is exhausted"
  else
    mayFail
    act fun session =>
      (session.page_reader.next_async_token, { session with
        page_reader := { session.page_reader with
          next_async_token := session.page_reader.next_async_token + 1
          async_buffers := session.page_reader.next_async_token ::
            session.page_reader.async_buffers }
        submitted_reads := page_id :: session.submitted_reads })

/-- A read that is over when it returns. -/
def readSync (page_id : PageId) : SessionM α D (Except String α) := do
  change fun session => { session with submitted_reads := page_id :: session.submitted_reads }
  match ← ask with
  | .completed _ page => pure page
  | .failed _ reason => throw reason
  | .nothing => throw "Graph page read failed: "

/-- A read without `io_uring`; its completion waits in line. -/
def readInline (page_id : PageId) : SessionM α D Token := do
  let page ← readSync page_id
  act fun session =>
    (session.page_reader.next_async_token, { session with
      page_reader := { session.page_reader with
        next_async_token := session.page_reader.next_async_token + 1
        inline_completions := session.page_reader.inline_completions ++
          [{ token := session.page_reader.next_async_token, page := page }] } })

/-- The requests of a batch, with `queued_in_batch` of them not handed to the kernel yet. -/
def batchSubmitFrom : List PageId → ℕ → SessionM α D (List (PageId × Token))
  | [], queued_in_batch => do
    if 0 < queued_in_batch then submitAsyncReads else pure ()
    return []
  | page_id :: requests, queued_in_batch => do
    let session ← get
    if session.page_reader.status.io_uring_enabled then
      let token ← startAsyncRead page_id
      let batch_limit := max 1 (min session.page_reader.status.batch_size
        (max 1 session.page_reader.status.depth))
      if batch_limit ≤ queued_in_batch + 1 then
        submitAsyncReads
        return (page_id, token) :: (← batchSubmitFrom requests 0)
      else
        return (page_id, token) :: (← batchSubmitFrom requests (queued_in_batch + 1))
    else
      let token ← readInline page_id
      return (page_id, token) :: (← batchSubmitFrom requests 0)

def batchSubmit (requests : List PageId) : SessionM α D (List (PageId × Token)) :=
  batchSubmitFrom requests 0

/-- `reap_async_read`; whether a read completes, waited for or not, is the reader's to say. -/
def reapAsyncRead : SessionM α D (Option (CompletedRead α)) := do
  let session ← get
  match session.page_reader.inline_completions with
  | completed :: rest =>
    change fun session => { session with
      page_reader := { session.page_reader with inline_completions := rest } }
    return some completed
  | [] =>
    if session.page_reader.status.io_uring_enabled then
      match ← ask with
      | .nothing => return none
      | .failed none reason => throw reason
      | .failed (some token) reason =>
        if token ∈ session.page_reader.async_buffers then
          change fun session => { session with
            page_reader := { session.page_reader with
              async_buffers := session.page_reader.async_buffers.erase token } }
          throw reason
        else throw "Unknown graph async completion token"
      | .completed token page =>
        if token ∈ session.page_reader.async_buffers then
          change fun session => { session with
            page_reader := { session.page_reader with
              async_buffers := session.page_reader.async_buffers.erase token } }
          return some { token := token, page := page }
        else throw "Unknown graph async completion token"
    else return none

end Reader

section Prefetch

/-- The completion of a token is taken note of. -/
def completeToken (token : Token) (page_id : PageId) (session : QueryPageSession α D) :
    QueryPageSession α D :=
  { session with
    token_to_page := session.token_to_page.erase token
    pending_pages := session.pending_pages.erase page_id
    stats := { session.stats with prefetch_completed := session.stats.prefetch_completed + 1 } }

/-- A prefetch that completed when its page is there already. -/
def dropLateHit (page_id : PageId) (session : QueryPageSession α D) : QueryPageSession α D :=
  { session with
    dropped := page_id ::ₘ session.dropped
    stats := { session.stats with
      prefetch_late_hit := session.stats.prefetch_late_hit + 1
      prefetch_dropped := session.stats.prefetch_dropped + 1 } }

/-- The page of a completed prefetch becomes ready, or is dropped. -/
def keepReady (keep_ready : Bool) (page_id : PageId) (page : DecodedPage α)
    (session : QueryPageSession α D) : QueryPageSession α D :=
  if keep_ready &&
      session.ready_prefetch_pages.keys.length < session.prefetch_budget_pages then
    { session with
      completed_prefetch_pages := insert page_id session.completed_prefetch_pages
      ready_prefetch_pages := session.ready_prefetch_pages.insert page_id page }
  else
    { session with
      completed_prefetch_pages := session.completed_prefetch_pages.erase page_id
      dropped := page_id ::ₘ session.dropped
      stats := { session.stats with prefetch_dropped := session.stats.prefetch_dropped + 1 } }

/-- A completion under a token that the session does not know is one of an earlier query. -/
def consumePrefetchCompletion (completed : CompletedRead α) (keep_ready : Bool) :
    SessionM α D Bool := do
  let session ← get
  match session.token_to_page.lookup completed.token with
  | none => return false
  | some page_id =>
    change (completeToken completed.token page_id)
    let session ← get
    if session.pageReadyInSession page_id || session.pageInCache page_id then
      change (dropLateHit page_id)
      return true
    else
      let content ← ofExcept completed.page
      change (keepReady keep_ready page_id { page_id := page_id, content := content })
      return true

/-- Take what has completed, and answer whether anything had. -/
def harvestPrefetch : SessionM α D Bool := do
  let session ← get
  if session.async_prefetch then
    submitAsyncReads
    match ← reapAsyncRead with
    | none => return false
    | some completed =>
      let _ ← consumePrefetchCompletion completed true
      repeatUntil do
        match ← reapAsyncRead with
        | none => return some true
        | some completed =>
          let _ ← consumePrefetchCompletion completed true
          return none
  else return false

/-- Harvest until nothing more has completed. -/
def harvestAll : SessionM α D Unit :=
  repeatUntil do
    if ← harvestPrefetch then return none else return some ()

def waitForPrefetchPage (page_id : PageId) : SessionM α D Unit :=
  repeatUntil do
    let session ← get
    if page_id ∈ session.pending_pages then
      if ← harvestPrefetch then return none
      else throw "Failed to wait for packed graph prefetch"
    else return some ()

def prefetchBatchLimit (session : QueryPageSession α D) : ℕ :=
  let io_batch := max 1 session.page_reader.status.batch_size
  if session.prefetch_budget_pages = 0 then io_batch
  else max 1 (min io_batch session.prefetch_budget_pages)

/-- The requests with one page more, when there is room and the page is nowhere. -/
def admitRequest (page_id : PageId) (requests : List PageId) : SessionM α D (List PageId) := do
  let session ← get
  if session.prefetch_budget_pages ≤ session.asyncPageFootprint + requests.length then
    return requests
  else if session.pageInCache page_id then return requests
  else if page_id ∈ session.pending_pages then return requests
  else if session.pageReadyInSession page_id then return requests
  else return requests ++ [page_id]

/-- The requests and the pages queued so far, after one page more. -/
def queuePrefetchRequest (page_id : PageId) (requests : List PageId)
    (queued_pages : Finset PageId) : SessionM α D (List PageId × Finset PageId) := do
  let session ← get
  if !session.async_prefetch || session.page_count ≤ page_id.toNat then
    return (requests, queued_pages)
  else if session.prefetch_budget_pages = 0 ||
      session.demandIoReserve ≤ session.demand_inflight_pages then
    return (requests, queued_pages)
  else if page_id ∈ queued_pages then
    return (requests, queued_pages)
  else if session.prefetch_budget_pages ≤ session.asyncPageFootprint + requests.length then
    let _ ← harvestPrefetch
    return (← admitRequest page_id requests, insert page_id queued_pages)
  else
    return (← admitRequest page_id requests, insert page_id queued_pages)

/-- A prefetch that the reader has accepted. -/
def enterPrefetch (read : PageId × Token) (session : QueryPageSession α D) :
    QueryPageSession α D :=
  { session with
    token_to_page := session.token_to_page.insert read.2 read.1
    pending_pages := insert read.1 session.pending_pages
    prefetch_pages := insert read.1 session.prefetch_pages
    prefetched := read.1 ::ₘ session.prefetched
    stats := { session.stats with
      prefetch_submitted_pages := session.stats.prefetch_submitted_pages + 1
      prefetch_submitted := session.stats.prefetch_submitted + 1 } }

def flushPrefetchRequests (requests : List PageId) : SessionM α D Unit := do
  if requests = [] then pure ()
  else
    let submitted ← batchSubmit requests
    forEach (fun read => change (enterPrefetch read)) submitted

/-- The loop of `submit_prefetch_plan`; it answers the requests left to flush. -/
def queuePrefetchRequests (batch_limit : ℕ) :
    List PageId → List PageId → Finset PageId → SessionM α D (List PageId)
  | [], requests, _ => return requests
  | page_id :: page_ids, requests, queued_pages => do
    if batch_limit ≤ requests.length then
      flushPrefetchRequests requests
      let queued ← queuePrefetchRequest page_id [] queued_pages
      queuePrefetchRequests batch_limit page_ids queued.1 queued.2
    else
      let queued ← queuePrefetchRequest page_id requests queued_pages
      queuePrefetchRequests batch_limit page_ids queued.1 queued.2

def submitPrefetchPlan (page_ids : List PageId) : SessionM α D Unit := do
  let session ← get
  if !session.async_prefetch || page_ids = [] then pure ()
  else
    let requests ← queuePrefetchRequests (prefetchBatchLimit session) page_ids [] ∅
    flushPrefetchRequests requests
    let _ ← harvestPrefetch

/-- `drain_ready_pages` by way of `submit_prefetches`. -/
def drainReadyPages : SessionM α D Unit := do
  let session ← get
  if session.async_prefetch then
    submitAsyncReads
    let _ ← harvestPrefetch

end Prefetch

section Demand

variable [LT D] [DecidableLT D] [DecidableEq D]

/-- `read_demand_page`: other completions that arrive meanwhile are prefetches. -/
def readDemandPage (page_id : PageId) : SessionM α D (DecodedPage α) := do
  let session ← get
  if session.page_reader.status.io_uring_enabled then
    match ← batchSubmit [page_id] with
    | [] => throw "Failed to submit packed graph demand page"
    | (_, demand_token) :: _ =>
      change fun session => { session with
        demand_inflight_pages := session.demand_inflight_pages + 1 }
      repeatUntil do
        match ← reapAsyncRead with
        | none => throw "Failed to wait for packed graph demand page"
        | some completed =>
          if completed.token = demand_token then
            change fun session => { session with
              demand_inflight_pages := session.demand_inflight_pages - 1 }
            let content ← ofExcept completed.page
            return some { page_id := page_id, content := content }
          else
            let _ ← consumePrefetchCompletion completed true
            return none
  else
    let content ← ofExcept (← readSync page_id)
    return { page_id := page_id, content := content }

/-- The page is not there and no read of it is under way. -/
def loadPage (page_id : PageId) : SessionM α D (DecodedPage α) := do
  change fun session => { session with
    stats := { session.stats with demand_reads := session.stats.demand_reads + 1 }
    demand_pages := insert page_id session.demand_pages }
  let page ← readDemandPage page_id
  change fun session => (session.keepPage page_id page).materializePage page_id
  return page

/-- `try_get_cached_page`, then `take_ready_prefetch_page`, with what follows on success. -/
def takePage (page_id : PageId) (session : QueryPageSession α D) :
    Option (DecodedPage α) × QueryPageSession α D :=
  let cached := session.tryGetCachedPage page_id
  if cached.1.isSome then (cached.1, cached.2.materializePage page_id)
  else
    let ready := cached.2.takeReadyPrefetchPage page_id
    if ready.1.isSome then (ready.1, ready.2.materializePage page_id) else (none, ready.2)

/-- The page when it has become available meanwhile, and a read of it otherwise. -/
def takeOrLoadPage (page_id : PageId) : SessionM α D (DecodedPage α) := do
  match ← act (takePage page_id) with
  | some page => return page
  | none => loadPage page_id

/-- `get_or_load_page` before the query is finished. -/
def getOrLoadPage (page_id : PageId) : SessionM α D (DecodedPage α) := do
  let session ← get
  if session.page_count ≤ page_id.toNat then throw "Packed page id out of range"
  else
    change fun session => { session with
      visited_pages := insert page_id session.visited_pages }
    match session.owned_pages.lookup page_id with
    | some page => return page
    | none =>
      match ← act (takePage page_id) with
      | some page => return page
      | none =>
        let session ← get
        if page_id ∈ session.pending_pages then
          change fun session => { session with
            pending_hit_pages := insert page_id session.pending_hit_pages }
          waitForPrefetchPage page_id
          takeOrLoadPage page_id
        else takeOrLoadPage page_id

/-- Make a page available without a read of its own, waiting for a prefetch that is under way. -/
def awaitAvailablePage (page_id : PageId) : SessionM α D Bool := do
  if ← act fun session => session.materializeAvailablePage page_id then return true
  else
    let session ← get
    if page_id ∈ session.pending_pages then
      change fun session => { session with
        pending_hit_pages := insert page_id session.pending_hit_pages }
      waitForPrefetchPage page_id
      act fun session => session.materializeAvailablePage page_id
    else return false

/-- The pages that are not available, in order. -/
def collectMissing : List PageId → SessionM α D (List PageId)
  | [] => return []
  | page_id :: page_ids => do
    if ← awaitAvailablePage page_id then collectMissing page_ids
    else return page_id :: (← collectMissing page_ids)

/-- The requests of a chunk: the pages that are still not available. -/
def collectRequests : List PageId → SessionM α D (List PageId)
  | [] => return []
  | page_id :: page_ids => do
    if ← awaitAvailablePage page_id then collectRequests page_ids
    else
      change fun session => { session with
        stats := { session.stats with demand_reads := session.stats.demand_reads + 1 }
        demand_pages := insert page_id session.demand_pages }
      return page_id :: (← collectRequests page_ids)

def emplaceRead (pages : AList (fun _ : Token => PageId)) (read : PageId × Token) :
    AList (fun _ : Token => PageId) :=
  if read.2 ∈ pages then pages else pages.insert read.2 read.1

/-- `submitted_pages`. -/
def submittedPages (submitted : List (PageId × Token)) : AList (fun _ : Token => PageId) :=
  submitted.foldl emplaceRead ∅

/-- The next completion of a batch; those of prefetches may come first. -/
def awaitCompletion (submitted_pages : AList (fun _ : Token => PageId)) :
    SessionM α D (CompletedRead α) :=
  repeatUntil do
    match ← reapAsyncRead with
    | none => throw "Failed to wait for packed graph page batch"
    | some completed =>
      if completed.token ∈ submitted_pages then return some completed
      else
        let _ ← consumePrefetchCompletion completed true
        return none

/-- Wait until every page of a batch has been read. -/
def awaitBatch : ℕ → AList (fun _ : Token => PageId) → SessionM α D Unit
  | 0, _ => pure ()
  | remaining + 1, submitted_pages => do
    let completed ← awaitCompletion submitted_pages
    match submitted_pages.lookup completed.token with
    | none => awaitBatch remaining submitted_pages
    | some page_id =>
      let content ← ofExcept completed.page
      change fun session =>
        (session.keepPage page_id { page_id := page_id, content := content }).materializePage
          page_id
      change fun session => { session with
        demand_inflight_pages := session.demand_inflight_pages - 1 }
      awaitBatch remaining (submitted_pages.erase completed.token)

/-- Read the pages of a chunk that are still missing. -/
def loadChunk (chunk : List PageId) : SessionM α D Unit := do
  let requests ← collectRequests chunk
  if requests = [] then pure ()
  else
    let submitted ← batchSubmit requests
    let submitted_pages := submittedPages submitted
    change fun session => { session with
      demand_inflight_pages := session.demand_inflight_pages + submitted_pages.keys.length }
    awaitBatch submitted_pages.keys.length submitted_pages

/-- The missing pages, a chunk at a time; their number bounds the chunks. -/
def loadChunks (chunk_limit : ℕ) : ℕ → List PageId → SessionM α D Unit
  | 0, _ => pure ()
  | chunks + 1, missing_pages => do
    if missing_pages = [] then pure ()
    else
      loadChunk (missing_pages.take chunk_limit)
      loadChunks chunk_limit chunks (missing_pages.drop chunk_limit)

/-- `ensure_pages_loaded_batch` before the query is finished. -/
def ensurePagesLoadedBatch (page_ids : List PageId) : SessionM α D Unit := do
  let session ← get
  if page_ids = [] then pure ()
  else if page_ids.any fun page_id => session.page_count ≤ page_id.toNat then
    throw "Packed page id out of range"
  else
    change fun session => { session with
      visited_pages := session.visited_pages ∪ page_ids.toFinset }
    let missing_pages ← collectMissing (Versions.firsts id page_ids)
    if session.async_prefetch then harvestAll
    let chunk_limit :=
      if session.page_reader.status.io_uring_enabled then session.demandIoReserve
      else missing_pages.length
    loadChunks chunk_limit missing_pages.length missing_pages

def pinPage (page_id : PageId) : SessionM α D Unit :=
  change fun session =>
    if page_id ∈ session.pinned_pages then session
    else
      let pinned := session.index.pinIfCached page_id
      if pinned.1 then
        { session with index := pinned.2, pinned_pages := page_id :: session.pinned_pages }
      else session

/-- What `finish_query` counts and clears. -/
def closeAccounts (session : QueryPageSession α D) : QueryPageSession α D :=
  let dropped := session.stats.prefetch_dropped + session.pending_pages.card +
    session.ready_prefetch_pages.keys.length
  { session with
    pending_pages := ∅
    token_to_page := ∅
    ready_prefetch_pages := ∅
    completed_prefetch_pages := ∅
    pending_hit_pages := ∅
    dropped := session.pending_pages.val + session.ready_prefetch_pages.keys + session.dropped
    stats := { session.stats with
      prefetch_dropped := dropped
      prefetch_wasted_pages := dropped
      unique_pages_touched := session.visited_pages.card
      unique_demand_pages := session.demand_pages.card
      unique_prefetch_pages := session.prefetch_pages.card } }

def unpinAll : SessionM α D Unit := do
  let unpinned ← act fun session =>
    let unpinned := Packed.QueryPageSession.unpinEach session.index session.pinned_pages
    (unpinned.1, { session with index := unpinned.2, pinned_pages := [] })
  match unpinned with
  | none => pure ()
  | some message => throw message

/-- The end of `finish_query`, with the prefetch trace that is appended to its file. -/
def closeQuery : SessionM α D Unit := do
  change closeAccounts
  mayFail
  unpinAll
  change fun session => { session with finished := true }

def finishQuery : SessionM α D Unit := do
  let session ← get
  if session.finished then pure ()
  else if session.async_prefetch then
    harvestAll
    closeQuery
  else closeQuery

/-- A call of the search. Which calls it makes, and with which pages, depends on what it has read
and on what the planner picks. -/
inductive SessionCall
  | getOrLoadPage (page_id : PageId)
  | ensurePagesLoadedBatch (page_ids : List PageId)
  /-- `submit_pages_direct`, and `submit_candidate_prefetch` and `submit_jit_prefetch` with the
  pages of their plan. -/
  | submitPrefetchPlan (page_ids : List PageId)
  | drainReadyPages
  | pinPage (page_id : PageId)
  deriving DecidableEq

def call : SessionCall → SessionM α D Unit
  | .getOrLoadPage page_id => do
    let _ ← getOrLoadPage page_id
  | .ensurePagesLoadedBatch page_ids => ensurePagesLoadedBatch page_ids
  | .submitPrefetchPlan page_ids => submitPrefetchPlan page_ids
  | .drainReadyPages => drainReadyPages
  | .pinPage page_id => pinPage page_id

/-- A query: the calls that its search makes, and its end. -/
def query (calls : List SessionCall) : SessionM α D Unit := do
  forEach call calls
  finishQuery

end Demand

end Packed.PageIo
