import AgentAware.Packed.PageReaderRuns
import AgentAware.Packed.SearchTransparency

/-!
# What the page reader delivers to a session

A search relies on replies that bring the page that was asked for. The page reader keeps that promise:
when its requests are requests for pages of the index, whatever completes in a run is, decoded, the page
of the file that its token was issued for.

## Main definitions

- `pageRequest`, `decodeRead` — the request for a page, and a page from the bytes of a read

## Main results

- `decodeRead_completed` — a completed read brings the page of the file
- `delivers_of_run` — the replies of a run are those that a session relies on
-/

namespace Packed.Uring

open PageIo

variable (index : PackedDiskGraphIndex)

/-- The request of a session for a page, at `page_offset`. -/
def pageRequest (page_id : PageId) : ReadRequest where
  page_id := page_id
  offset := index.pageOffset page_id
  bytes := index.metadata.page_size

/-- `decode_page`. -/
def decodeRead (page_id : PageId) (data : Bytes) : Except String PageContent :=
  (DiskPageCodec.decodePackedPage index.metadata.toDiskGraphMetadata page_id data).mapError
    Fault.describe

variable {index}

theorem fileOf_of_readAs {page_id : PageId} {data : Bytes}
    (hdata : (pageRequest index page_id).ReadAs index.file data) :
    fileOf index page_id = decodeRead index page_id data := by
  obtain ⟨hlength, heq⟩ := hdata
  have hread : index.readPage page_id = some data := by
    rw [heq] at hlength ⊢
    exact if_pos hlength
  rw [fileOf, PackedDiskGraphIndex.loadPage, hread, decodeRead]
  dsimp only [Option.map_some]
  cases DiskPageCodec.decodePackedPage index.metadata.toDiskGraphMetadata page_id data with
  | ok page => rfl
  | error fault => rfl

section Runs

variable {path : String} {calls : List Call} {rounds : ℕ} {replies : List KernelReply} {t : PageReader}

/-- A completed read brings, decoded, the page that its token was issued for. -/
theorem decodeRead_completed (hsmall : index.metadata.page_size < 2 ^ 32)
    (hfits : ∀ call ∈ calls, call.Fits index.metadata.page_size)
    (ht : Reached index.file path index.metadata.page_size calls rounds replies t)
    {assigned : Token → PageId}
    (hissued : ∀ entry ∈ t.log.issued, entry.2 = pageRequest index (assigned entry.1))
    {read : CompletedRead} (hread : read ∈ t.log.completed) :
    decodeRead index (assigned read.token) read.data = fileOf index (assigned read.token) := by
  obtain ⟨request, hrequest, hdata⟩ :=
    (sound_reached hsmall hfits ht).answered read (List.mem_append_left _ hread)
  rw [show request = pageRequest index (assigned read.token) from hissued _ hrequest] at hdata
  exact (fileOf_of_readAs hdata).symm

variable {D : Type} {session : PageIo.QueryPageSession PageContent D} {log : ReadLog PageContent}

/-- Whatever is called and in whichever order the kernel serves the reads, replies that hand on what
completes, decoded, are replies that a session relies on. -/
theorem delivers_of_run (hsmall : index.metadata.page_size < 2 ^ 32)
    (hfits : ∀ call ∈ calls, call.Fits index.metadata.page_size)
    (ht : Reached index.file path index.metadata.page_size calls rounds replies t)
    (hfile : log.file = fileOf index)
    (hissued : ∀ entry ∈ t.log.issued, entry.2 = pageRequest index (log.assigned entry.1))
    (henabled : session.page_reader.status.io_uring_enabled = true)
    {answers : List (Reply PageContent)}
    (hanswers : ∀ token page, .completed token page ∈ answers → ∃ read ∈ t.log.completed,
      read.token = token ∧ page = decodeRead index (log.assigned token) read.data) :
    Delivers log session answers := by
  rw [Delivers, if_pos henabled]
  intro token page hanswer
  obtain ⟨read, hread, rfl, rfl⟩ := hanswers token page hanswer
  rw [hfile]
  exact decodeRead_completed hsmall hfits ht hissued hread

end Runs

/-- An index with one page of a sector. -/
def sectorIndex : PackedDiskGraphIndex where
  metadata :=
    { dim := 1, degree := 1, vector_count := 1, page_size := 4096, records_offset := 0
      directory_offset := 0, page_count := 1 }
  node_to_page := [0]
  file := List.replicate 4096 0

/-- The one page of the index, read through a ring. -/
theorem delivers_of_run_sector :
    let calls : List Call :=
      [.configure "io_uring" 1 1, .batchSubmit [pageRequest sectorIndex 0], .reapAsyncRead true]
    let replies : List KernelReply :=
      [⟨[], 2⟩, ⟨[], 0⟩, ⟨[], 1⟩, ⟨[(0, .read 4096)], 0⟩, ⟨[], 0⟩]
    let log : ReadLog PageContent := ⟨fileOf sectorIndex, fun _ => 0, fun _ => 0⟩
    let session : PageIo.QueryPageSession PageContent ℕ := PageIo.QueryPageSession.new
      { policy := { cache_policy := "none", cache_capacity_pages := 0,
                    cache_score := CacheEntry.last_access, page_hot_score := fun _ => 0 } }
      { status := { io_uring_enabled := true, depth := 1, batch_size := 1 } } 1 {}
    ∃ t, Reached sectorIndex.file "index" 4096 calls 3 replies t ∧ ∃ read ∈ t.log.completed,
      Delivers log session [.completed 1 (decodeRead sectorIndex 0 read.data)] := by
  intro calls replies log session
  have hfits : ∀ call ∈ calls, call.Fits 4096 := by
    intro call hcall
    simp only [calls, List.mem_cons, List.not_mem_nil, or_false] at hcall
    rcases hcall with rfl | rfl | rfl
    · trivial
    · intro request hrequest
      rw [List.mem_singleton.mp hrequest]
      exact Nat.le_refl 4096
    · trivial
  have hreached := reached_last sectorIndex.file 4096 calls "index" 3 replies
    (List.ne_nil_of_length_pos (by decide +kernel))
  generalize hlast : ((runCalls sectorIndex.file calls).run 3 (newReader "index" 4096) replies).last
    (newReader "index" 4096) = t at hreached
  have htokens : t.log.completed.map CompletedRead.token = [1] := by
    rw [← hlast]
    decide +kernel
  have hissued : ∀ entry ∈ t.log.issued, entry.2 = pageRequest sectorIndex (log.assigned entry.1) := by
    have hone : t.log.issued = [(1, pageRequest sectorIndex 0)] := by
      rw [← hlast]
      decide +kernel
    intro entry hentry
    rw [hone, List.mem_singleton] at hentry
    rw [hentry]
  obtain ⟨read, hread, htoken⟩ := List.mem_map.mp (htokens ▸ List.mem_singleton_self 1)
  have hfile : log.file = fileOf sectorIndex := by dsimp only [log]
  have henabled : session.page_reader.status.io_uring_enabled = true := by
    dsimp only [session]
    rfl
  refine ⟨t, hreached, read, hread, @delivers_of_run sectorIndex _ _ _ _ _ _ _ _ (by decide)
    hfits hreached hfile hissued henabled _ fun token page hanswer => ?_⟩
  obtain ⟨rfl, rfl⟩ := Reply.completed.inj (List.mem_singleton.mp hanswer)
  exact ⟨read, hread, htoken, rfl⟩

end Packed.Uring
