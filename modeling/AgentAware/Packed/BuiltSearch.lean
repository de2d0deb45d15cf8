import AgentAware.Graph.DeletedResults
import AgentAware.Graph.PackedIndexRoundTrip
import AgentAware.Packed.SearchTransparency

/-!
# Searching a file that was built

The builder writes the vectors and the graph to a file, in the order of its packing strategy; the file
is opened again and searched over pages. Such a search computes what the beam search computes on the
vectors and the graph that were given, so neither the strategy nor anything that happens to the pages
on the way shows in a result.

## Main results

- `directed_fileOf`, `fileIndex_fileOf` — the directory and the nodes of a file that was built
- `searchOne_built` — a search of the file is a search of the graph
-/

namespace PackedDiskGraphBuilder

open Graph DiskPageCodec Packed Packed.PageIo

section Pages

variable {F : Type} {base : VectorSet} {graph : Adjacency} {order : List NodeId}
  {config : PackedBuildConfig F} {nodes_per_page : ℕ} {node_to_page : List UInt32}

/-- What opening the file gives. -/
def indexOf (base : VectorSet) (graph : Adjacency) (order : List NodeId)
    (config : PackedBuildConfig F) (nodes_per_page : ℕ) (node_to_page : List UInt32) :
    PackedDiskGraphIndex :=
  ⟨metadataOf base config nodes_per_page, node_to_page,
    fileOf base graph order config nodes_per_page node_to_page⟩

section Small

variable (haccepted : Accepted base config nodes_per_page) (hpage : config.page_size ≤ maxTransfer)
  (hgraph : GraphOver base graph config.degree) (horder : order.Perm (naturalOrder base.size))
  (hlength : node_to_page.length = base.size)
include haccepted hpage hgraph horder hlength

/-- No read behind the last page succeeds. -/
theorem lt_pageCount_of_load {page_id : UInt32} {read : Except Fault DiskPageCodec.DecodedPage}
    (hload : (indexOf base graph order config nodes_per_page node_to_page).loadPage page_id =
      some read) :
    page_id.toNat < pageCount base nodes_per_page := by
  have hfile := length_fileOf haccepted hgraph horder hlength
  by_contra hge
  have hend : pageCount base nodes_per_page * config.page_size ≤
      page_id.toNat * config.page_size := Nat.mul_le_mul_right _ (not_lt.mp hge)
  have hpositive := haccepted.page_size_le
  have hoffset : kRecordsOffset = 4096 := rfl
  have hnone : (indexOf base graph order config nodes_per_page node_to_page).loadPage page_id =
      none := by
    rw [indexOf, PackedDiskGraphIndex.loadPage, PackedDiskGraphIndex.readPage,
      PackedDiskGraphIndex.pageOffset, page_size_eq hpage, records_offset_eq haccepted hpage,
      Nat.mod_eq_of_lt (pageStart_lt haccepted hpage page_id.toNat_lt),
      pread_eq_none (by rw [hfile]; omega) (by omega)]
    rfl
  rw [hnone] at hload
  cases hload

theorem directed_fileOf
    (hnamed : ∀ position id, order[position]? = some id →
      node_to_page[id.toNat]? = some (UInt32.ofNat (position / nodes_per_page))) :
    Directed (indexOf base graph order config nodes_per_page node_to_page) := by
  intro page_id page hfound node hnode _
  rw [Packed.PageIo.fileOf] at hfound
  cases hload : (indexOf base graph order config nodes_per_page node_to_page).loadPage page_id with
  | none =>
    rw [hload] at hfound
    cases hfound
  | some read =>
    have hlt := lt_pageCount_of_load haccepted hpage hgraph horder hlength hload
    obtain ⟨decoded, hdecoded, has⟩ :=
      loadPage_fileOf haccepted hpage hgraph horder hlength hlt node_to_page
    rw [UInt32.ofNat_toNat] at hdecoded
    rw [indexOf, hdecoded] at hfound
    cases hfound
    obtain ⟨k, hk⟩ := List.getElem?_of_mem hnode
    obtain ⟨hposition, hslot⟩ := id_of_decoded has hk
    have hdiv : (page_id.toNat * nodes_per_page + k) / nodes_per_page = page_id.toNat := by
      rw [Nat.mul_comm, Nat.mul_add_div haccepted.nodes_pos, Nat.div_eq_of_lt hslot, Nat.add_zero]
    have hpage_id := hnamed _ _ hposition
    rw [hdiv, UInt32.ofNat_toNat] at hpage_id
    exact hpage_id

theorem fileIndex_fileOf
    (hnamed : ∀ position id, order[position]? = some id →
      node_to_page[id.toNat]? = some (UInt32.ofNat (position / nodes_per_page))) :
    fileIndex (indexOf base graph order config nodes_per_page node_to_page) =
      builtIndex base graph := by
  refine congrArg Graph.PackedIndex.mk (List.map_congr_left fun i hi => ?_)
  have hsize := haccepted.size_le
  have hlt : i < base.size := List.mem_range.mp hi
  have hid : (nodeId i).toNat = i := toNat_nodeId (by omega)
  obtain ⟨page_id, hpage_id, ⟨decoded, node, hload, hnode, hvector, hneighbors, _⟩, _⟩ :=
    storedOnce_fileOf haccepted hpage hgraph horder hlength hnamed hlt
  have hread : Packed.PageIo.fileOf
      (indexOf base graph order config nodes_per_page node_to_page) page_id = .ok decoded := by
    rw [Packed.PageIo.fileOf, indexOf, hload]
  have hdirectory : (indexOf base graph order config nodes_per_page
      node_to_page).node_to_page[(nodeId i).toNat]? = some page_id := by
    rw [hid]
    exact hpage_id
  have hdata : vectorData (indexOf base graph order config nodes_per_page
      node_to_page).metadata.toDiskGraphMetadata decoded node = .ok (base.row i) := hvector
  rw [fileNode, hdirectory]
  dsimp only
  rw [hread]
  dsimp only
  rw [hnode]
  dsimp only
  rw [hdata, hneighbors]

end Small

variable {D : Type} {ops : FloatOps F} {double : DoubleOps D} {random : Random} {path : String}
  {file : Bytes} {index : PackedDiskGraphIndex}

/-- An order of an accepted configuration gives a file that opens. -/
theorem build_open (hgraph : GraphOver base graph config.degree) (hpage : config.page_size ≤ maxTransfer)
    (hrecord : graphRecordBytes base.dim config.degree (pqCodeBytes config.pq_model) < 2 ^ 64)
    (haccept : acceptConfig base config = .ok nodes_per_page)
    (hordered : packedOrder ops double random base graph config nodes_per_page = .ok order)
    (path : String) :
    ∃ node_to_page, node_to_page.length = base.size ∧
      (∀ position id, order[position]? = some id →
        node_to_page[id.toNat]? = some (UInt32.ofNat (position / nodes_per_page))) ∧
      build ops double random base graph config =
        .ok (indexOf base graph order config nodes_per_page node_to_page).file ∧
      PackedDiskGraphIndex.openIndex path
        (indexOf base graph order config nodes_per_page node_to_page).file =
        .ok (indexOf base graph order config nodes_per_page node_to_page) := by
  have haccepted := acceptConfig_ok haccept hrecord
  have hsize := haccepted.size_le
  have horder : order.Perm (naturalOrder base.size) := by
    rw [← hgraph.length_eq]
    exact packedOrder_perm (hgraph.length_eq.trans_le hsize) hordered
  obtain ⟨node_to_page, hfile, hlength, hnamed⟩ :=
    returns_build haccept haccepted hgraph hordered horder
  refine ⟨node_to_page, hlength, hnamed, hfile, ?_⟩
  rw [indexOf, openIndex_fileOf hsize path, checkMetadata_ok haccepted hpage,
    readDirectory_fileOf hlength]
  show (throwFault _ _ >>= _) = _
  rw [throwFault_ok (by omega)]
  rfl

/-- The steps of the builder in front of the file. -/
theorem ordered_of_build (hbuild : build ops double random base graph config = .ok file) :
    ∃ nodes_per_page order, acceptConfig base config = .ok nodes_per_page ∧
      packedOrder ops double random base graph config nodes_per_page = .ok order := by
  rw [build, except_bind_eq_ok] at hbuild
  obtain ⟨nodes_per_page, haccept, hbuild⟩ := hbuild
  rw [except_bind_eq_ok] at hbuild
  obtain ⟨order, hordered, _⟩ := hbuild
  refine ⟨nodes_per_page, order, haccept, ?_⟩
  cases hpacked : packedOrder ops double random base graph config nodes_per_page with
  | error message =>
    rw [hpacked] at hordered
    cases hordered
  | ok found =>
    rw [hpacked] at hordered
    cases hordered
    rfl

/-- A file that the builder wrote opens as the index of its base and graph. -/
theorem index_of_build (hgraph : GraphOver base graph config.degree)
    (hpage : config.page_size ≤ maxTransfer)
    (hrecord : graphRecordBytes base.dim config.degree (pqCodeBytes config.pq_model) < 2 ^ 64)
    (hbuild : build ops double random base graph config = .ok file)
    (hopen : PackedDiskGraphIndex.openIndex path file = .ok index) :
    Directed index ∧ fileIndex index = builtIndex base graph ∧
      index.node_to_page.length = index.metadata.vector_count := by
  obtain ⟨nodes_per_page, order, haccept, hordered⟩ := ordered_of_build hbuild
  have haccepted := acceptConfig_ok haccept hrecord
  have horder : order.Perm (naturalOrder base.size) := by
    rw [← hgraph.length_eq]
    exact packedOrder_perm (hgraph.length_eq.trans_le haccepted.size_le) hordered
  obtain ⟨node_to_page, hlength, hnamed, hfile, hindex⟩ :=
    build_open hgraph hpage hrecord haccept hordered path
  rw [hbuild] at hfile
  cases hfile
  rw [hopen] at hindex
  cases hindex
  exact ⟨directed_fileOf haccepted hpage hgraph horder hlength hnamed,
    fileIndex_fileOf haccepted hpage hgraph horder hlength hnamed, hlength⟩

variable {S E : Type} [LT S] [DecidableLT S] [DecidableEq S] [LinearOrder E]
  {search : DiskGraphSearchConfig} {distances : QueryDistances E} {prefetcher : Prefetcher S E}

/-- A search of a file that was built and opened again, over pages that are cached, prefetched and
read in any way, is the beam search on the vectors and the graph that the builder was given, whatever
the packing strategy. -/
theorem searchOne_built (hgraph : GraphOver base graph config.degree)
    (hpage : config.page_size ≤ maxTransfer)
    (hrecord : graphRecordBytes base.dim config.degree (pqCodeBytes config.pq_model) < 2 ^ 64)
    (hbuild : build ops double random base graph config = .ok file)
    (hopen : PackedDiskGraphIndex.openIndex path file = .ok index)
    {cache : PageCache PageContent S} {page_reader : AsyncPageReader PageContent}
    {prefetch : PrefetchConfig} {rounds : ℕ} {replies : List (Reply PageContent)}
    (hanswered : Answered index (SessionSearch.searchOne index search distances prefetcher)
      (startQuery index cache page_reader prefetch) rounds replies)
    {result : DiskGraphSearchResult E}
    (hreturned : ((SessionSearch.searchOne index search distances prefetcher).run rounds
      (startQuery index cache page_reader prefetch) replies).ending = .returned result) :
    Graph.searchOne (builtIndex base graph) search distances = .ok result := by
  obtain ⟨hdirected, hnodes, hcount⟩ := index_of_build hgraph hpage hrecord hbuild hopen
  obtain ⟨log, hfile, hfaithful, hchain⟩ := hanswered
  have hstart : SessionSearch.At index log (startQuery index cache page_reader prefetch) replies :=
    ⟨hfaithful, storedNodes_empty⟩
  obtain ⟨_, _, hresult⟩ := SessionSearch.relies_searchOne hfile hdirected hcount hstart rounds
    hchain result hreturned
  rw [← hnodes]
  exact hresult

end Pages

/-- Two vectors that each fill a page: the cache keeps the first one, which is pinned, so the second
one is read once for its neighbours and once for its exact distance. -/
theorem searchOne_built_two :
    let base : VectorSet :=
      { dim := 1019, values := List.replicate 1019 4 ++ List.replicate 1019 9 }
    let graph : Adjacency := [[1], [0]]
    let config : PackedBuildConfig ℕ := { degree := 1, packing_strategy := "bfs" }
    let index := indexOf base graph [0, 1] config 1 [0, 1]
    let search : DiskGraphSearchConfig :=
      { top_k := 2, search_width := 2, beam_width := 1, entry_count := 1, adc_enable := true
        rerank_topk := 2 }
    let distances : QueryDistances ℕ :=
      { adc := UInt32.toNat, exact := fun values => (values.headD 0).toNat
        improves := fun _ _ => true }
    let prefetcher : Prefetcher ℕ ℕ := ⟨fun _ _ _ => [], fun _ _ => []⟩
    let cache : PageCache PageContent ℕ :=
      { policy := { cache_policy := "lru", cache_capacity_pages := 1,
                    cache_score := CacheEntry.last_access, page_hot_score := fun _ => 0 } }
    let page_reader : AsyncPageReader PageContent :=
      { status := { io_uring_enabled := false, depth := 0, batch_size := 0 } }
    let prefetch : PrefetchConfig := { prefetch_policy := "none", prefetch_width := 0 }
    let replies : List (Reply PageContent) :=
      [.completed 0 (Packed.PageIo.fileOf index 0), .completed 0 (Packed.PageIo.fileOf index 1),
        .completed 0 (Packed.PageIo.fileOf index 1), .nothing]
    build lineOps exactScores idleRandom base graph config = .ok index.file ∧
      PackedDiskGraphIndex.openIndex "index" index.file = .ok index ∧
      Answered index (SessionSearch.searchOne index search distances prefetcher)
        (startQuery index cache page_reader prefetch) 3 replies ∧
      Graph.searchOne (builtIndex base graph) search distances =
        .ok { topk := [⟨0, 4⟩, ⟨1, 9⟩], expanded := 2, visited := 2 } := by
  intro base graph config index search distances prefetcher cache page_reader prefetch replies
  have hgraph : GraphOver base graph config.degree := by
    refine ⟨by decide +kernel, fun neighbors hneighbors id hid => ?_, fun neighbors hneighbors => ?_⟩
    · have hsize : base.size = 2 := by decide +kernel
      rw [hsize]
      simp only [graph, List.mem_cons, List.not_mem_nil, or_false] at hneighbors
      obtain rfl | rfl := hneighbors
      · rw [List.mem_singleton.mp hid]
        decide
      · rw [List.mem_singleton.mp hid]
        decide
    · simp only [graph, List.mem_cons, List.not_mem_nil, or_false] at hneighbors
      obtain rfl | rfl := hneighbors
      · exact le_rfl
      · exact le_rfl
  have haccept : acceptConfig base config = .ok 1 := by decide +kernel
  have hordered : packedOrder lineOps exactScores idleRandom base graph config 1 = .ok [0, 1] := by
    decide +kernel
  have hrecord : graphRecordBytes base.dim config.degree (pqCodeBytes config.pq_model) < 2 ^ 64 := by
    decide +kernel
  have hpage : config.page_size ≤ maxTransfer := by decide
  obtain ⟨node_to_page, hlength, hnamed, hbuild, hopen⟩ :=
    build_open hgraph hpage hrecord haccept hordered "index"
  have hdirectory : node_to_page = [0, 1] := by
    have hsize : base.size = 2 := by decide +kernel
    rw [hsize] at hlength
    refine List.ext_getElem? fun i => ?_
    obtain _ | _ | i := i
    · exact hnamed 0 0 rfl
    · exact hnamed 1 1 rfl
    · rw [List.getElem?_eq_none (by omega), List.getElem?_eq_none (Nat.le_add_left 2 i)]
  subst hdirectory
  have hdelivers : ∀ (file : PageId → Except String PageContent) (i : ℕ) (token : Token)
      (page : Except String PageContent),
      [Reply.completed 0 (file 0), .completed 0 (file 1), .completed 0 (file 1), .nothing][i]? =
        some (.completed token page) → page = file (if 0 + i = 0 then 0 else 1) := by
    intro file i token page hreply
    obtain _ | _ | _ | _ | i := i
    · cases hreply
      rfl
    · cases hreply
      rfl
    · cases hreply
      rfl
    · cases hreply
    · cases hreply
  have hanswered : Answered index (SessionSearch.searchOne index search distances prefetcher)
      (startQuery index cache page_reader prefetch) 3 replies := by
    refine ⟨⟨Packed.PageIo.fileOf index, fun token => if token = 1 then 0 else 1,
      fun i => if i = 0 then 0 else 1⟩, by dsimp only, ?_, by decide +kernel⟩
    refine faithful_startQuery (fun entry hentry => absurd hentry List.not_mem_nil)
      (fun completed hcompleted => absurd hcompleted List.not_mem_nil) ?_
    have hserial : ¬(startQuery index cache page_reader prefetch).1.page_reader.status.io_uring_enabled
        = true := Bool.false_ne_true
    have hnone : (startQuery index cache page_reader prefetch).1.submitted_reads.length = 0 := rfl
    rw [Delivers, if_neg hserial, hnone]
    intro i token page hreply
    have hpage := hdelivers (Packed.PageIo.fileOf index) i token page hreply
    dsimp only
    exact hpage
  have hreturned : ((SessionSearch.searchOne index search distances prefetcher).run 3
      (startQuery index cache page_reader prefetch) replies).ending =
      .returned { topk := [⟨0, 4⟩, ⟨1, 9⟩], expanded := 2, visited := 2 } := by
    decide +kernel
  exact ⟨hbuild, hopen, hanswered,
    searchOne_built hgraph hpage hrecord hbuild hopen hanswered hreturned⟩

end PackedDiskGraphBuilder
