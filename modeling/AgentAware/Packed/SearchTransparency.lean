import AgentAware.Graph.GraphInvariants
import AgentAware.Packed.NodeContents
import AgentAware.Packed.SessionSearch

/-!
# Caches, prefetches and completions do not show in a search

A search that returns has computed what it computes on the nodes of the file, whatever the cache held
and keeps, whatever was prefetched, and whenever and in whichever order reads complete. The directory
has to name every page that stores a node: a node on two pages would be taken from the one that came
first.

## Main definitions

- `Directed` — the directory names the pages of the nodes
- `Answered` — a run in which every read is answered with its page

## Main results

- `relies_searchLoop`, `relies_finalizeTopk` — the rounds and the end of a search
- `searchOne_transparent` — a search that returns computes on the nodes of the file
-/

namespace Packed.PageIo

open Interaction

/-- A stored node is on the page that the directory names. -/
def Directed (index : PackedDiskGraphIndex) : Prop :=
  ∀ page_id page, fileOf index page_id = .ok page → ∀ node ∈ page.nodes,
    node.id.toNat < index.node_to_page.length → index.node_to_page[node.id.toNat]? = some page_id

section Files

variable {index : PackedDiskGraphIndex}

theorem sized_vector_count :
    (SessionSearch.sized index).vector_count = (fileIndex index).vector_count := by
  rw [SessionSearch.sized, Graph.PackedIndex.vector_count_ofCount, Graph.PackedIndex.vector_count,
    fileIndex, List.length_map, List.length_range]

/-- A node is looked up by its id. -/
theorem loadNode_fileIndex {id : NodeId} (h : id.toNat < index.metadata.vector_count) :
    (fileIndex index).loadNode id = fileNode index id := by
  rw [Graph.PackedIndex.loadNode, fileIndex, List.getD_eq_getElem?_getD, List.getElem?_map,
    List.getElem?_range h]
  show fileNode index (Graph.nodeId id.toNat) = fileNode index id
  rw [Graph.nodeId_toNat]

/-- A node of a page of the file, whichever page it is, is the node of the file. -/
theorem neighbors_fileNode (hdirected : Directed index) {page : DecodedPage PageContent} {id : NodeId}
    {node : DiskPageCodec.DiskNode} (hpage : fileOf index page.page_id = .ok page.content)
    (hstored : storedNode index.metadata.toDiskGraphMetadata page id = some node)
    (hid : id.toNat < index.node_to_page.length) :
    (fileNode index id).neighbors = node.neighbors := by
  obtain ⟨raw, hraw, hnode⟩ := Option.map_eq_some_iff.mp hstored
  have hraw_id : raw.id = id := by simpa using List.find?_some hraw
  have hnamed := hdirected _ _ hpage raw (List.mem_of_find?_eq_some hraw) (hraw_id ▸ hid)
  rw [hraw_id] at hnamed
  have hneighbors : node.neighbors = raw.neighbors := by
    rw [← hnode, assignVector]
    split
    · split
      · rfl
      · rfl
    · rfl
  rw [fileNode, hnamed, hneighbors]
  dsimp only
  rw [hpage]
  dsimp only
  rw [DiskPageCodec.findNode, hraw]
  dsimp only
  split
  · rfl
  · rfl

/-- The vector that a page brings is the one of the file. -/
theorem vector_fileNode {page : DecodedPage PageContent} {id : NodeId}
    {node : DiskPageCodec.DiskNode} {values : List FloatBits}
    (hnamed : index.node_to_page[id.toNat]? = some page.page_id)
    (hpage : fileOf index page.page_id = .ok page.content)
    (hnode : DiskPageCodec.findNode page.content id = .ok node)
    (hvalues : DiskPageCodec.vectorData index.metadata.toDiskGraphMetadata page.content node =
      .ok values) : (fileNode index id).vector = values := by
  rw [fileNode, hnamed]
  dsimp only
  rw [hpage]
  dsimp only
  rw [hnode]
  dsimp only
  rw [hvalues]

end Files

namespace SessionSearch

variable {D E : Type} [LinearOrder E]
  {index : PackedDiskGraphIndex} {config : Graph.DiskGraphSearchConfig}
  {distances : Graph.QueryDistances E} {prefetcher : Prefetcher D E} {log : ReadLog PageContent}
  {x : NodeSession D} {replies : List (Reply PageContent)}

/-- The session and its nodes are those of the file of an index. -/
abbrev At (index : PackedDiskGraphIndex) (log : ReadLog PageContent) (x : NodeSession D)
    (replies : List (Reply PageContent)) : Prop :=
  FaithfulNodes log index.metadata.toDiskGraphMetadata x replies

omit [LinearOrder E] in
theorem relies_pagesForNodes (batch : List (SearchResult E)) (h : At index log x replies) :
    Relies (LoggedNodes log) (pagesForNodes index batch) (fun _ => At index log) x replies := by
  induction batch generalizing x replies with
  | nil => exact relies_pure h
  | cons candidate batch ih =>
    apply relies_bind
    refine (NodeSession.relies_pageForNode candidate.id h).mono fun p y rest hy => ?_
    apply relies_bind
    exact (ih hy.1).mono fun page_ids z rest hz => relies_pure hz

variable [LT D] [DecidableLT D] [DecidableEq D]
  (hfile : log.file = fileOf index) (hdirected : Directed index)
  (hcount : index.node_to_page.length = index.metadata.vector_count)
include hfile hdirected hcount

omit [LinearOrder E] in
theorem relies_expandNodes (visited : List NodeId) (batch : List (SearchResult E))
    (h : At index log x replies) :
    Relies (LoggedNodes log) (expandNodes index visited batch) (fun found y rest =>
      At index log y rest ∧ found = Graph.batchNeighbors (fileIndex index) visited batch) x
      replies := by
  induction batch generalizing x replies visited with
  | nil => exact relies_pure ⟨h, rfl⟩
  | cons current batch ih =>
    apply relies_bind
    refine (NodeSession.relies_getNode current.id h).mono fun node y rest hy => ?_
    obtain ⟨hy, page, hpage, hstored⟩ := hy
    apply relies_bind
    refine (NodeSession.relies_pageForNode current.id hy).mono fun p z rest hz => ?_
    have hid : current.id.toNat < index.node_to_page.length :=
      (List.getElem?_eq_some_iff.mp hz.2).1
    have hneighbors : ((fileIndex index).loadNode current.id).neighbors = node.neighbors := by
      rw [loadNode_fileIndex (hcount ▸ hid)]
      exact neighbors_fileNode hdirected (hfile ▸ hpage) hstored hid
    apply relies_bind
    refine (NodeSession.relies_session_unit hz.1 (relies_pinPage hz.1.session p)).mono
      fun _ w rest hw => ?_
    apply relies_bind
    refine (ih _ hw).mono fun found v rest hv => relies_pure ⟨hv.1, ?_⟩
    rw [Graph.batchNeighbors, hneighbors, hv.2, Graph.newNeighbors_of_count sized_vector_count]

theorem relies_expandCandidateBatch (state : Graph.SearchState E) (batch : List (SearchResult E))
    (h : At index log x replies) :
    Relies (LoggedNodes log) (expandCandidateBatch index config distances prefetcher state batch)
      (fun final y rest => At index log y rest ∧
        final = Graph.expandCandidateBatch (fileIndex index) config distances state batch) x
      replies := by
  apply relies_bind
  refine (relies_expandNodes hfile hdirected hcount state.visited batch h).mono
    fun found y rest hy => ?_
  apply relies_bind
  apply relies_get
  apply relies_bind
  refine (NodeSession.relies_session_unit hy.1 (relies_submitPrefetchPlan _ hy.1.session)).mono
    fun _ z rest hz => relies_pure ⟨hz, ?_⟩
  rw [Graph.expandCandidateBatch, hy.2, Graph.pushRanked_of_count sized_vector_count]

theorem relies_searchLoop (effective_beam_width rounds : ℕ) (state : Graph.SearchState E)
    (h : At index log x replies) :
    Relies (LoggedNodes log)
      (searchLoop index config distances prefetcher effective_beam_width rounds state)
      (fun final y rest => At index log y rest ∧ final =
        Graph.searchLoop (fileIndex index) config distances effective_beam_width rounds state) x
      replies := by
  induction rounds generalizing x replies state with
  | zero => exact relies_pure ⟨h, rfl⟩
  | succ rounds ih =>
    rw [Graph.searchLoop]
    by_cases hdone : (state.candidates.isEmpty || decide (config.search_width ≤ state.expanded)) = true
    · rw [searchLoop, if_pos hdone, if_pos hdone]
      exact relies_pure ⟨h, rfl⟩
    · rw [searchLoop, if_neg hdone, if_neg hdone]
      have hselect : Graph.selectCandidateBatch (sized index) config effective_beam_width state =
          Graph.selectCandidateBatch (fileIndex index) config effective_beam_width state := by
        rw [Graph.selectCandidateBatch, Graph.selectCandidateBatch,
          Graph.takeBatch_of_count sized_vector_count]
      rw [hselect]
      generalize Graph.selectCandidateBatch (fileIndex index) config effective_beam_width state =
        selected
      apply relies_bind
      refine (NodeSession.relies_session_unit h (relies_drainReadyPages h.session)).mono
        fun _ y rest hy => ?_
      by_cases hnone : selected.1.isEmpty = true
      · dsimp only
        rw [if_pos hnone, if_pos hnone]
        exact relies_pure ⟨hy, rfl⟩
      · dsimp only
        rw [if_neg hnone, if_neg hnone]
        apply relies_bind
        refine (relies_pagesForNodes selected.1 hy).mono fun page_ids z rest hz => ?_
        apply relies_bind
        refine (NodeSession.relies_ensurePagesLoadedBatch page_ids hz).mono fun _ w rest hw => ?_
        apply relies_bind
        refine (relies_expandCandidateBatch hfile hdirected hcount selected.2 selected.1 hw).mono
          fun next v rest hv => ?_
        rw [hv.2]
        exact ih _ hv.1

omit [LinearOrder E] hdirected in
theorem relies_rerankResults (results : List (SearchResult E)) (h : At index log x replies) :
    Relies (LoggedNodes log) (rerankResults index distances results) (fun ranked y rest =>
      At index log y rest ∧ ranked = results.map (Graph.rerank (fileIndex index) distances)) x
      replies := by
  induction results generalizing x replies with
  | nil => exact relies_pure ⟨h, rfl⟩
  | cons result results ih =>
    apply relies_bind
    refine (NodeSession.relies_pageForNode result.id h).mono fun p y rest hy => ?_
    apply relies_bind
    refine (NodeSession.relies_getOrLoadPage hy.1 p).mono fun page z rest hz => ?_
    obtain ⟨hz, hid, hholds⟩ := hz
    apply relies_bind
    apply relies_ofExcept
    intro node hnode
    apply relies_bind
    apply relies_ofExcept
    intro values hvalues
    apply relies_bind
    refine (ih hz).mono fun ranked w rest hw => relies_pure ⟨hw.1, ?_⟩
    have hlt : result.id.toNat < index.metadata.vector_count :=
      hcount ▸ (List.getElem?_eq_some_iff.mp hy.2).1
    have hok : ∀ {β : Type} {e : Except Fault β} {b : β},
        e.mapError Fault.describe = .ok b → e = .ok b := by
      intro β e b he
      cases e with
      | ok b' => exact congrArg Except.ok (Except.ok.inj he)
      | error fault => cases he
    have hvector : ((fileIndex index).loadNode result.id).vector = values := by
      rw [loadNode_fileIndex hlt]
      exact vector_fileNode (hid ▸ hy.2) (hfile ▸ hholds) (hok hnode) (hok hvalues)
    rw [List.map_cons, Graph.rerank, hvector, hw.2]

omit hdirected in
theorem relies_rankedResults (state : Graph.SearchState E) (h : At index log x replies) :
    Relies (LoggedNodes log) (rankedResults index config distances prefetcher state)
      (fun topk y rest => At index log y rest ∧ topk = if 0 < config.rerank_topk then
        TopK.sortBy SearchResult.rank ((TopK.sortBy SearchResult.rank state.best).map
          (Graph.rerank (fileIndex index) distances))
        else TopK.sortBy SearchResult.rank state.best) x replies := by
  by_cases hrerank : 0 < config.rerank_topk
  · rw [rankedResults, if_pos hrerank]
    simp only [if_pos hrerank]
    apply relies_bind
    apply relies_get
    apply relies_bind
    refine (NodeSession.relies_session_unit h (relies_submitPrefetchPlan _ h.session)).mono
      fun _ y rest hy => ?_
    apply relies_bind
    exact (relies_rerankResults hfile hcount _ hy).mono fun ranked z rest hz =>
      relies_pure ⟨hz.1, congrArg _ hz.2⟩
  · rw [rankedResults, if_neg hrerank]
    simp only [if_neg hrerank]
    exact relies_pure ⟨h, rfl⟩

omit hdirected in
theorem relies_finalizeTopk (state : Graph.SearchState E) (h : At index log x replies) :
    Relies (LoggedNodes log) (finalizeTopk index config distances prefetcher state)
      (fun result y _ => CacheFaithful log y.1 ∧
        result = Graph.finalizeTopk (fileIndex index) config distances state) x replies := by
  apply relies_bind
  refine (relies_rankedResults hfile hcount state h).mono fun topk y rest hy => ?_
  apply relies_bind
  refine (relies_lift (t := y.2) (relies_finishQuery hy.1.session)).mono fun _ z rest hz =>
    relies_pure ⟨hz.1, ?_⟩
  rw [Graph.finalizeTopk, hy.2, Graph.effectiveK_of_count sized_vector_count]

theorem relies_searchOne (h : At index log x replies) :
    Relies (LoggedNodes log) (searchOne index config distances prefetcher)
      (fun result y _ => CacheFaithful log y.1 ∧
        Graph.searchOne (fileIndex index) config distances = .ok result) x replies := by
  rw [Graph.searchOne]
  apply relies_ite
  · exact fun _ => relies_throw
  intro hpositive
  apply relies_ite
  · exact fun _ => relies_throw
  intro hadc
  apply relies_bind
  refine (relies_searchLoop hfile hdirected hcount _ _ _ h).mono fun state y rest hy => ?_
  refine (relies_finalizeTopk hfile hcount state hy.1).mono fun result z rest hz => ⟨hz.1, ?_⟩
  rw [hz.2, hy.2, Graph.initializeSearchState_of_count sized_vector_count, throwIf,
    if_neg hpositive, throwIf, if_neg hadc]
  rfl

end SessionSearch

section Answered

variable {D E : Type} [LT D] [DecidableLT D] [DecidableEq D] [LinearOrder E]
  {index : PackedDiskGraphIndex} {config : Graph.DiskGraphSearchConfig}
  {distances : Graph.QueryDistances E} {prefetcher : Prefetcher D E}

/-- A query on an index, with a cache that earlier queries have left. -/
def startQuery (index : PackedDiskGraphIndex) (cache : PageCache PageContent D)
    (page_reader : AsyncPageReader PageContent) (prefetch : PrefetchConfig) : NodeSession D :=
  (QueryPageSession.new cache page_reader index.metadata.page_count prefetch, ∅)

omit [LT D] [DecidableLT D] [DecidableEq D] in
/-- A session starts with nothing but the cache, and with the reads that still wait in line. -/
theorem faithful_startQuery {log : ReadLog PageContent} {cache : PageCache PageContent D}
    {page_reader : AsyncPageReader PageContent} {prefetch : PrefetchConfig}
    {replies : List (Reply PageContent)} (hcache : ∀ entry ∈ cache.page_cache, log.Holds entry.page)
    (hinline : ∀ completed ∈ page_reader.inline_completions,
      completed.page = log.file (log.assigned completed.token))
    (hdelivers : Delivers log (startQuery index cache page_reader prefetch).1 replies) :
    Faithful log (startQuery index cache page_reader prefetch).1 replies := by
  refine ⟨hcache, fun p page hpage => ?_, fun p page hpage => ?_, fun token p hp => ?_, hinline,
    hdelivers⟩
  · cases hpage
  · cases hpage
  · cases hp

/-- A run of a program in which every read is answered with the page that it was submitted for. -/
def Answered {α : Type} (index : PackedDiskGraphIndex) (m : NodeM D α) (x : NodeSession D)
    (rounds : ℕ) (replies : List (Reply PageContent)) : Prop :=
  ∃ log : ReadLog PageContent, log.file = fileOf index ∧ Faithful log x.1 replies ∧
    Chain (LoggedNodes log) x (m.run rounds x replies).seen

/-- A search that returns has computed on the nodes of the file, and leaves pages of it in the cache. -/
theorem Answered.returned (hdirected : Directed index)
    (hcount : index.node_to_page.length = index.metadata.vector_count)
    {cache : PageCache PageContent D} {page_reader : AsyncPageReader PageContent}
    {prefetch : PrefetchConfig} {rounds : ℕ} {replies : List (Reply PageContent)}
    (hanswered : Answered index (SessionSearch.searchOne index config distances prefetcher)
      (startQuery index cache page_reader prefetch) rounds replies)
    {result : Graph.DiskGraphSearchResult E}
    (hreturned : ((SessionSearch.searchOne index config distances prefetcher).run rounds
      (startQuery index cache page_reader prefetch) replies).ending = .returned result) :
    Graph.searchOne (fileIndex index) config distances = .ok result ∧
      ∃ log : ReadLog PageContent, log.file = fileOf index ∧
        CacheFaithful log ((SessionSearch.searchOne index config distances prefetcher).run rounds
          (startQuery index cache page_reader prefetch) replies).state.1 := by
  obtain ⟨log, hfile, hfaithful, hchain⟩ := hanswered
  have hstart : SessionSearch.At index log (startQuery index cache page_reader prefetch) replies :=
    ⟨hfaithful, storedNodes_empty⟩
  obtain ⟨_, hcache, hresult⟩ := SessionSearch.relies_searchOne hfile hdirected hcount hstart rounds
    hchain result hreturned
  exact ⟨hresult, log, hfile, hcache⟩

/-- Whatever the cache holds of the file and does with it, however the index is read, whatever is
prefetched and whenever reads complete, a search that returns computes on the nodes of the file. What
it leaves in the cache is of the file again. -/
theorem searchOne_transparent (hdirected : Directed index)
    (hcount : index.node_to_page.length = index.metadata.vector_count)
    {cache : PageCache PageContent D} {page_reader : AsyncPageReader PageContent}
    {prefetch : PrefetchConfig} {rounds : ℕ} {replies : List (Reply PageContent)}
    (hanswered : Answered index (SessionSearch.searchOne index config distances prefetcher)
      (startQuery index cache page_reader prefetch) rounds replies)
    {result : Graph.DiskGraphSearchResult E}
    (hreturned : ((SessionSearch.searchOne index config distances prefetcher).run rounds
      (startQuery index cache page_reader prefetch) replies).ending = .returned result) :
    Graph.searchOne (fileIndex index) config distances = .ok result ∧
      ∀ entry ∈ ((SessionSearch.searchOne index config distances prefetcher).run rounds
        (startQuery index cache page_reader prefetch) replies).state.1.index.page_cache,
        fileOf index entry.page.page_id = .ok entry.page.content := by
  obtain ⟨hresult, log, hfile, hcache⟩ := hanswered.returned hdirected hcount hreturned
  refine ⟨hresult, fun entry hentry => ?_⟩
  rw [← hfile]
  exact hcache entry hentry

end Answered

/-- Two nodes that point to each other, each on its page. -/
def pairIndex : PackedDiskGraphIndex where
  metadata :=
    { dim := 1, degree := 1, vector_count := 2, page_size := 24, records_offset := 0
      directory_offset := 0, page_count := 2 }
  node_to_page := [0, 1]
  file := [0, 0, 0, 0, 1, 0, 0, 0, 0, 0, 0, 0, 1, 0, 0, 0, 5, 0, 0, 0, 1, 0, 0, 0,
    1, 0, 0, 0, 1, 0, 0, 0, 1, 0, 0, 0, 1, 0, 0, 0, 2, 0, 0, 0, 0, 0, 0, 0]

theorem directed_pairIndex : Directed pairIndex := by
  intro page_id page hpage
  have hlt : page_id.toNat < 2 := by
    by_contra hge
    have hoffset : pairIndex.pageOffset page_id = page_id.toNat * 24 := by
      have hid := page_id.toNat_lt
      show (0 + page_id.toNat * 24) % 2 ^ 64 = _
      omega
    have hnone : pread pairIndex.file (page_id.toNat * 24) 24 = none := by
      refine pread_eq_none ?_ (by decide)
      show 48 < page_id.toNat * 24 + 24
      omega
    rw [fileOf, PackedDiskGraphIndex.loadPage, PackedDiskGraphIndex.readPage, hoffset,
      show pairIndex.metadata.page_size = 24 from rfl, hnone] at hpage
    cases hpage
  have hboth : ∀ i < 2, ∀ page, fileOf pairIndex (UInt32.ofNat i) = .ok page →
      ∀ node ∈ page.nodes, pairIndex.node_to_page[node.id.toNat]? = some (UInt32.ofNat i) := by
    have hstored : ∀ i < 2, ((fileOf pairIndex (UInt32.ofNat i)).toOption.elim true fun page =>
        page.nodes.all fun node =>
          pairIndex.node_to_page[node.id.toNat]? == some (UInt32.ofNat i)) = true := by
      decide +kernel
    intro i hi page hpage node hnode
    have hall := hstored i hi
    rw [hpage] at hall
    exact eq_of_beq (List.all_eq_true.mp hall node hnode)
  rw [← UInt32.ofNat_toNat (x := page_id)] at hpage ⊢
  exact fun node hnode _ => hboth _ hlt page hpage node hnode

/-- A search with one page of cache that prefetches the second page: it comes with the second round,
finds no room beside the pinned first page, and is read again for its exact distance. -/
theorem searchOne_transparent_pair :
    let config : Graph.DiskGraphSearchConfig :=
      { top_k := 2, search_width := 2, beam_width := 1, entry_count := 1, adc_enable := true
        rerank_topk := 2 }
    let distances : Graph.QueryDistances ℕ :=
      { adc := UInt32.toNat, exact := fun values => (values.map UInt32.toNat).sum
        improves := fun _ _ => true }
    let prefetcher : Prefetcher ℕ ℕ := ⟨fun _ _ _ => [1], fun _ _ => []⟩
    let cache : PageCache PageContent ℕ :=
      { policy := { cache_policy := "lru", cache_capacity_pages := 1,
                    cache_score := CacheEntry.last_access, page_hot_score := fun _ => 0 } }
    let page_reader : AsyncPageReader PageContent :=
      { status := { io_uring_enabled := true, depth := 4, batch_size := 2 } }
    let prefetch : PrefetchConfig := { prefetch_policy := "pq", prefetch_width := 2 }
    let replies : List (Reply PageContent) :=
      List.replicate 7 .nothing ++ .completed 1 (fileOf pairIndex 0) :: List.replicate 6 .nothing ++
        .completed 2 (fileOf pairIndex 1) :: List.replicate 7 .nothing ++
        .completed 3 (fileOf pairIndex 1) :: List.replicate 3 .nothing
    Answered pairIndex (SessionSearch.searchOne pairIndex config distances prefetcher)
        (startQuery pairIndex cache page_reader prefetch) 4 replies ∧
      Graph.searchOne (fileIndex pairIndex) config distances =
        .ok { topk := [⟨1, 2⟩, ⟨0, 5⟩], expanded := 2, visited := 2 } := by
  intro config distances prefetcher cache page_reader prefetch replies
  have hanswered : Answered pairIndex (SessionSearch.searchOne pairIndex config distances prefetcher)
      (startQuery pairIndex cache page_reader prefetch) 4 replies := by
    refine ⟨⟨fileOf pairIndex, fun token => if token = 1 then 0 else 1,
      fun i => if i = 0 then 0 else 1⟩, rfl, ?_, by decide +kernel⟩
    refine ⟨nofun, nofun, nofun, nofun, nofun, ?_⟩
    have hring : (startQuery pairIndex cache page_reader prefetch).1.page_reader.status.io_uring_enabled
        = true := rfl
    rw [Delivers, if_pos hring]
    intro token page hreply
    simp only [replies, List.mem_append, List.mem_cons, List.mem_replicate, reduceCtorEq, and_false,
      false_or, or_false, Reply.completed.injEq] at hreply
    rcases hreply with (⟨rfl, rfl⟩ | ⟨rfl, rfl⟩) | ⟨rfl, rfl⟩
    · rfl
    · rfl
    · rfl
  have hreturned : ((SessionSearch.searchOne pairIndex config distances prefetcher).run 4
      (startQuery pairIndex cache page_reader prefetch) replies).ending =
      .returned { topk := [⟨1, 2⟩, ⟨0, 5⟩], expanded := 2, visited := 2 } := by
    decide +kernel
  exact ⟨hanswered, (searchOne_transparent directed_pairIndex rfl hanswered hreturned).1⟩

end Packed.PageIo
