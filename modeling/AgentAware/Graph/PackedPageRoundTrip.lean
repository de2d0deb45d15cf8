import AgentAware.Graph.DecodedPages
import AgentAware.Graph.PackedPageEncoder

/-!
# Decoding an encoded page

The decoder finds every section of a page where the encoder has put it, so it accepts the page and
returns the nodes that the page is made of: their ids, vectors, neighbours and codes.

## Main definitions

- `Fits` — the metadata that describes an encoded page
- `DecodedAs` — the nodes of a page, as they were encoded

## Main results

- `decodePackedPage_packedPage` — what the decoder returns for an encoded page
-/

namespace DiskPageCodec

section Sections

variable {source : PageSource} {dim degree pq_code_bytes nodes_per_page : ℕ} {rest : Bytes}

theorem wordAt_eq {page : Bytes} {offset : ℕ} {value : UInt32}
    (h : slice page offset 4 = wordBytes value) : wordAt page offset = value := by
  have hword : Codec.getLE (wordBytes value) = value.toNat := by
    rw [wordBytes, Codec.getLE_putLE]
    exact Nat.mod_eq_of_lt value.toNat_lt
  rw [wordAt, ← slice, h, hword, UInt32.ofNat_toNat]

theorem slice_wordBytes (value : UInt32) : slice (wordBytes value) 0 4 = wordBytes value := by
  have hall := slice_zero_length (wordBytes value)
  rwa [length_wordBytes] at hall

/-- The page, with the bytes behind its sections. -/
def pageOf (source : PageSource) (dim degree pq_code_bytes nodes_per_page : ℕ) (rest : Bytes) :
    Bytes :=
  packedPage source dim degree pq_code_bytes nodes_per_page ++ rest

theorem wordAt_pageOf_id :
    wordAt (pageOf source dim degree pq_code_bytes nodes_per_page rest) 0 = source.page_id := by
  refine wordAt_eq ?_
  simp only [pageOf, packedPage, List.append_assoc]
  rw [slice_append_left (length_wordBytes _).ge, slice_wordBytes]

theorem wordAt_pageOf_count :
    wordAt (pageOf source dim degree pq_code_bytes nodes_per_page rest) 4 =
      UInt32.ofNat source.node_count := by
  refine wordAt_eq ?_
  simp only [pageOf, packedPage, List.append_assoc]
  rw [← Nat.add_zero 4, slice_skip (length_wordBytes _), slice_append_left (length_wordBytes _).ge,
    slice_wordBytes]

variable {slot offset part : ℕ}

theorem slice_pageOf_ids (hslot : slot < nodes_per_page) (hpart : offset + part ≤ 4) :
    slice (pageOf source dim degree pq_code_bytes nodes_per_page rest)
        (4 + (4 + (slot * 4 + offset))) part = slice (idRow source slot) offset part := by
  simp only [pageOf, packedPage, List.append_assoc]
  rw [slice_skip (length_wordBytes _), slice_skip (length_wordBytes _),
    slice_row (fun slot _ => length_idRow source slot) hslot hpart]

theorem length_ids : (table (idRow source) nodes_per_page).length = nodes_per_page * 4 :=
  length_table fun _ _ => length_wordBytes _

theorem length_degrees : (table (degreeRow source) nodes_per_page).length = nodes_per_page * 4 :=
  length_table fun _ _ => length_wordBytes _

theorem slice_pageOf_degrees (hslot : slot < nodes_per_page) (hpart : offset + part ≤ 4) :
    slice (pageOf source dim degree pq_code_bytes nodes_per_page rest)
        (4 + (4 + (nodes_per_page * 4 + (slot * 4 + offset)))) part =
      slice (degreeRow source slot) offset part := by
  simp only [pageOf, packedPage, List.append_assoc]
  rw [slice_skip (length_wordBytes _), slice_skip (length_wordBytes _), slice_skip length_ids,
    slice_row (fun slot _ => length_degreeRow source slot) hslot hpart]

section Vectors

variable (hrow : ∀ slot < nodes_per_page, (vectorRow source dim slot).length = dim * 4)
include hrow

theorem slice_pageOf_vectors (hslot : slot < nodes_per_page) (hpart : offset + part ≤ dim * 4) :
    slice (pageOf source dim degree pq_code_bytes nodes_per_page rest)
        (4 + (4 + (nodes_per_page * 4 + (nodes_per_page * 4 + (slot * (dim * 4) + offset))))) part =
      slice (vectorRow source dim slot) offset part := by
  simp only [pageOf, packedPage, List.append_assoc]
  rw [slice_skip (length_wordBytes _), slice_skip (length_wordBytes _), slice_skip length_ids,
    slice_skip length_degrees, slice_row hrow hslot hpart]

theorem slice_pageOf_neighbors (hslot : slot < nodes_per_page)
    (hpart : offset + part ≤ degree * 4) :
    slice (pageOf source dim degree pq_code_bytes nodes_per_page rest)
        (4 + (4 + (nodes_per_page * 4 + (nodes_per_page * 4 + (nodes_per_page * (dim * 4) +
          (slot * (degree * 4) + offset)))))) part =
      slice (neighborRow source degree slot) offset part := by
  simp only [pageOf, packedPage, List.append_assoc]
  rw [slice_skip (length_wordBytes _), slice_skip (length_wordBytes _), slice_skip length_ids,
    slice_skip length_degrees, slice_skip (length_table hrow),
    slice_row (fun _ _ => length_neighborRow _) hslot hpart]

theorem slice_pageOf_codes (hslot : slot < nodes_per_page)
    (hpart : offset + part ≤ degree * pq_code_bytes) :
    slice (pageOf source dim degree pq_code_bytes nodes_per_page rest)
        (4 + (4 + (nodes_per_page * 4 + (nodes_per_page * 4 + (nodes_per_page * (dim * 4) +
          (nodes_per_page * (degree * 4) + (slot * (degree * pq_code_bytes) + offset))))))) part =
      slice (codeRow source degree pq_code_bytes slot) offset part := by
  simp only [pageOf, packedPage, List.append_assoc]
  rw [slice_skip (length_wordBytes _), slice_skip (length_wordBytes _), slice_skip length_ids,
    slice_skip length_degrees, slice_skip (length_table hrow),
    slice_skip (length_table fun _ _ => length_neighborRow _),
    slice_row (fun _ _ => length_codeRow _ _) hslot hpart]

end Vectors

end Sections

section Decoding

variable {metadata : DiskGraphMetadata} {source : PageSource}
  {dim degree pq_code_bytes nodes_per_page : ℕ} {rest : Bytes}

/-- The metadata holds these numbers. -/
structure Fits (metadata : DiskGraphMetadata) (dim degree pq_code_bytes nodes_per_page : ℕ) :
    Prop where
  dim_eq : metadata.dim.toNat = dim
  degree_eq : metadata.degree.toNat = degree
  nodes_eq : metadata.nodes_per_page.toNat = nodes_per_page
  codes_eq : metadata.neighbor_pq_code_bytes.toNat = pq_code_bytes

/-- What the decoder relies on: the nodes fit their slots, and all neighbours are there. -/
structure PageSource.Sound (source : PageSource) (dim degree nodes_per_page : ℕ) : Prop where
  count_le : source.node_count ≤ nodes_per_page
  row_length : ∀ slot < source.node_count, (source.row slot).length = dim
  degree_le : ∀ slot < source.node_count, (source.neighbors slot).length ≤ degree
  neighbor_ne : ∀ slot < source.node_count, ∀ neighbor ∈ source.neighbors slot,
    neighbor ≠ kNoNeighbor

theorem Fits.pageBytes_eq (h : Fits metadata dim degree pq_code_bytes nodes_per_page) :
    pageBytes metadata = 8 + nodes_per_page * graphRecordBytes dim degree pq_code_bytes := by
  rw [pageBytes, codesOffset, neighborsOffset, vectorsOffset, slotCount, vectorBytes, neighborBytes,
    codeBytes, h.dim_eq, h.degree_eq, h.nodes_eq, h.codes_eq, graphRecordBytes]
  ring

theorem PageSource.Sound.length_vectorRow (hsound : source.Sound dim degree nodes_per_page)
    (slot : ℕ) : (vectorRow source dim slot).length = dim * 4 := by
  rw [vectorRow]
  split
  · next hin => rw [length_flatMap_wordBytes, hsound.row_length slot hin]
  · exact List.length_replicate

section Stored

variable (h : Fits metadata dim degree pq_code_bytes nodes_per_page)
  (hsound : source.Sound dim degree nodes_per_page) {slot : ℕ} (hslot : slot < source.node_count)
include h hsound hslot

omit h in
theorem storedId_pageOf :
    storedId (pageOf source dim degree pq_code_bytes nodes_per_page rest) slot = source.id slot := by
  have hids := @slice_pageOf_ids source dim degree pq_code_bytes nodes_per_page rest slot 0 4
    (lt_of_lt_of_le hslot hsound.count_le) le_rfl
  rw [idRow, if_pos hslot, slice_wordBytes] at hids
  refine wordAt_eq ?_
  rw [← hids]
  congr 1
  omega

theorem storedDegree_pageOf :
    storedDegree metadata (pageOf source dim degree pq_code_bytes nodes_per_page rest) slot =
      UInt32.ofNat (source.neighbors slot).length := by
  have hdegrees := @slice_pageOf_degrees source dim degree pq_code_bytes nodes_per_page rest slot 0 4
    (lt_of_lt_of_le hslot hsound.count_le) le_rfl
  rw [degreeRow, if_pos hslot, slice_wordBytes] at hdegrees
  refine wordAt_eq ?_
  rw [← hdegrees, slotCount, h.nodes_eq]
  congr 1
  omega

theorem storedDegree_toNat :
    (storedDegree metadata (pageOf source dim degree pq_code_bytes nodes_per_page rest) slot).toNat =
      (source.neighbors slot).length := by
  have hlimit : (source.neighbors slot).length < 2 ^ 32 := by
    refine lt_of_le_of_lt (hsound.degree_le slot hslot) ?_
    rw [← h.degree_eq]
    exact metadata.degree.toNat_lt
  rw [storedDegree_pageOf h hsound hslot, UInt32.toNat_ofNat']
  exact Nat.mod_eq_of_lt hlimit

theorem storedNeighbor_pageOf {n : ℕ} (hn : n < (source.neighbors slot).length) :
    storedNeighbor metadata (pageOf source dim degree pq_code_bytes nodes_per_page rest) slot n =
      (source.neighbors slot).getD n 0xffffffff := by
  have hdegree : n < degree := lt_of_lt_of_le hn (hsound.degree_le slot hslot)
  have hneighbors := @slice_pageOf_neighbors source dim degree pq_code_bytes nodes_per_page rest slot
    (n * 4) 4 (fun slot _ => hsound.length_vectorRow slot) (lt_of_lt_of_le hslot hsound.count_le)
    (by omega)
  have hword := @slice_table _ (fun n => wordBytes (sourceNeighbor source slot n)) 4 degree n 0 4
    (fun _ _ => length_wordBytes _) hdegree le_rfl
  rw [Nat.add_zero] at hword
  rw [neighborRow, hword, slice_wordBytes, sourceNeighbor, if_pos hslot] at hneighbors
  refine wordAt_eq ?_
  rw [← hneighbors, neighborsOffset, vectorsOffset, slotCount, vectorBytes, neighborBytes,
    h.nodes_eq, h.dim_eq, h.degree_eq]
  congr 1
  omega

theorem whole_pageOf :
    Whole metadata (pageOf source dim degree pq_code_bytes nodes_per_page rest) slot := by
  have hdegree := @storedDegree_toNat metadata source dim degree pq_code_bytes nodes_per_page rest h
    hsound slot hslot
  refine ⟨?_, fun n hn => ?_⟩
  · rw [UInt32.le_iff_toNat_le, hdegree, h.degree_eq]
    exact hsound.degree_le slot hslot
  · rw [hdegree] at hn
    rw [storedNeighbor_pageOf h hsound hslot hn, List.getD_eq_getElem?_getD,
      List.getElem?_eq_getElem hn]
    exact hsound.neighbor_ne slot hslot _ (List.getElem_mem hn)

theorem vector_pageOf {d : ℕ} (hd : d < dim) :
    wordAt (pageOf source dim degree pq_code_bytes nodes_per_page rest)
        (vectorsOffset metadata + slot * vectorBytes metadata + d * 4) =
      (source.row slot).getD d 0 := by
  have hvectors := @slice_pageOf_vectors source dim degree pq_code_bytes nodes_per_page rest slot
    (d * 4) 4 (fun slot _ => hsound.length_vectorRow slot) (lt_of_lt_of_le hslot hsound.count_le)
    (by omega)
  have hword := @slice_table _ (fun d => wordBytes ((source.row slot).getD d 0)) 4
    (source.row slot).length d 0 4 (fun _ _ => length_wordBytes _)
    (hsound.row_length slot hslot ▸ hd) le_rfl
  rw [Nat.add_zero, table_getD, slice_wordBytes] at hword
  rw [vectorRow, if_pos hslot, hword] at hvectors
  refine wordAt_eq ?_
  rw [← hvectors, vectorsOffset, slotCount, vectorBytes, h.nodes_eq, h.dim_eq]
  congr 1
  omega

theorem neighbors_pageOf :
    (keptPlaces metadata (pageOf source dim degree pq_code_bytes nodes_per_page rest) slot).map
        (storedNeighbor metadata (pageOf source dim degree pq_code_bytes nodes_per_page rest) slot) =
      source.neighbors slot := by
  have hwhole := @whole_pageOf metadata source dim degree pq_code_bytes nodes_per_page rest h hsound
    slot hslot
  have hdegree := @storedDegree_toNat metadata source dim degree pq_code_bytes nodes_per_page rest h
    hsound slot hslot
  rw [keptPlaces_eq hwhole.1, List.filter_eq_self.mpr fun n hn =>
    decide_eq_true (hwhole.2 n (List.mem_range.mp hn)), hdegree]
  refine List.ext_getElem (by rw [List.length_map, List.length_range]) fun n hn hn' => ?_
  rw [List.getElem_map, List.getElem_range, storedNeighbor_pageOf h hsound hslot hn',
    List.getD_eq_getElem?_getD, List.getElem?_eq_getElem hn']
  rfl

theorem codes_pageOf :
    decodedCodes metadata (pageOf source dim degree pq_code_bytes nodes_per_page rest) slot =
      (source.neighbors slot).flatMap (codesOf source pq_code_bytes) := by
  have hdegree := hsound.degree_le slot hslot
  have hle : (source.neighbors slot).length * pq_code_bytes ≤ degree * pq_code_bytes :=
    Nat.mul_le_mul_right pq_code_bytes hdegree
  have hcodes := @slice_pageOf_codes source dim degree pq_code_bytes nodes_per_page rest slot 0
    ((source.neighbors slot).length * pq_code_bytes) (fun slot _ => hsound.length_vectorRow slot)
    (lt_of_lt_of_le hslot hsound.count_le) (by omega)
  have hrows : table (fun n => codesOf source pq_code_bytes (sourceNeighbor source slot n))
      (source.neighbors slot).length =
      (source.neighbors slot).flatMap (codesOf source pq_code_bytes) := by
    rw [← table_getD _ _ 0xffffffff]
    refine table_congr fun n _ => ?_
    rw [sourceNeighbor, if_pos hslot]
  rw [codeRow, slice_table_first (fun _ _ => length_codesOf _ _) hdegree, hrows] at hcodes
  rw [decodedCodes, storedCodes, storedDegree_toNat h hsound hslot, codeBytes, h.degree_eq, h.codes_eq,
    Nat.min_eq_right hle, Nat.sub_self, List.replicate_zero, List.append_nil, ← hcodes, codesOffset,
    neighborsOffset, vectorsOffset, slotCount, vectorBytes, neighborBytes, h.nodes_eq, h.dim_eq,
    h.degree_eq]
  congr 1
  omega

end Stored

/-- The nodes of a page are those it was encoded from. -/
structure DecodedAs (metadata : DiskGraphMetadata) (source : PageSource) (pq_code_bytes : ℕ)
    (decoded : DecodedPage) : Prop where
  length_eq : decoded.nodes.length = source.node_count
  node_eq : ∀ slot < source.node_count, ∃ node, decoded.nodes[slot]? = some node ∧
    node.id = source.id slot ∧ vectorData metadata decoded node = .ok (source.row slot) ∧
    node.neighbors = source.neighbors slot ∧
    node.neighbor_pq_codes = (source.neighbors slot).flatMap (codesOf source pq_code_bytes)

/-- An encoded page is accepted, and its nodes are decoded as they were encoded. -/
theorem decodePackedPage_packedPage (h : Fits metadata dim degree pq_code_bytes nodes_per_page)
    (hsound : source.Sound dim degree nodes_per_page) (hlimit : degree * pq_code_bytes < 2 ^ 63)
    (rest : Bytes) :
    ∃ decoded, decodePackedPage metadata source.page_id
        (pageOf source dim degree pq_code_bytes nodes_per_page rest) = .ok decoded ∧
      DecodedAs metadata source pq_code_bytes decoded := by
  generalize hpage : pageOf source dim degree pq_code_bytes nodes_per_page rest = page
  have hcount : (storedCount page).toNat = source.node_count := by
    have hlt : source.node_count < 2 ^ 32 := by
      refine lt_of_le_of_lt hsound.count_le ?_
      rw [← h.nodes_eq]
      exact metadata.nodes_per_page.toNat_lt
    rw [storedCount, ← hpage, wordAt_pageOf_count, UInt32.toNat_ofNat']
    exact Nat.mod_eq_of_lt hlt
  have hlength : pageBytes metadata ≤ page.length := by
    rw [h.pageBytes_eq, ← hpage, pageOf, List.length_append, length_packedPage source degree
      pq_code_bytes nodes_per_page fun slot _ => hsound.length_vectorRow slot]
    exact Nat.le_add_right _ _
  have haccepted : ¬Refused metadata source.page_id page := by
    rw [not_refused_iff]
    refine ⟨hlength, ?_, fun slot hslot => ?_⟩
    · rw [not_or, not_not, not_lt, UInt32.le_iff_toNat_le, hcount, h.nodes_eq, ← hpage]
      exact ⟨wordAt_pageOf_id, hsound.count_le⟩
    · rw [hcount] at hslot
      rw [storedCodes, ← hpage, storedDegree_toNat h hsound hslot, h.codes_eq]
      have hle := Nat.mul_le_mul_right pq_code_bytes (hsound.degree_le slot hslot)
      omega
  obtain ⟨decoded, hdecoded, hok⟩ :=
    (decides_decodePackedPage metadata source.page_id page).returns haccepted
  refine ⟨decoded, hdecoded, hok.nodes_ok.length_eq.trans hcount, fun slot hslot => ?_⟩
  have hplace : slot < decoded.nodes.length := by rwa [hok.nodes_ok.length_eq, hcount]
  have hnode := List.getElem?_eq_getElem hplace
  have hin : slot < slotCount metadata := by
    rw [slotCount, h.nodes_eq]
    exact lt_of_lt_of_le hslot hsound.count_le
  obtain ⟨hid, hoffset⟩ := hok.nodes_ok.place_eq slot _ hnode
  refine ⟨_, hnode, ?_, ?_, ?_, ?_⟩
  · rw [hid, ← hpage]
    exact storedId_pageOf hsound hslot
  · have hfits := hok.offset_le _ (List.getElem_mem hplace)
    rw [vectorData, throwFault_ok (not_lt.mpr hfits)]
    refine congrArg Except.ok (List.ext_getElem ?_ fun d hd hd' => ?_)
    · rw [List.length_map, List.length_range, h.dim_eq, hsound.row_length slot hslot]
    · have hlt : d < dim := hsound.row_length slot hslot ▸ hd'
      rw [List.getElem_map, List.getElem_range, hok.bytes_eq, hoffset, ← hpage,
        vector_pageOf h hsound hslot hlt, List.getD_eq_getElem?_getD, List.getElem?_eq_getElem hd']
      rfl
  · rw [hok.nodes_ok.neighbors_eq slot _ hnode hin, ← hpage]
    exact neighbors_pageOf h hsound hslot
  · by_cases hcodes : 0 < metadata.neighbor_pq_code_bytes.toNat
    · rw [hok.nodes_ok.codes_eq slot _ hnode (by rwa [if_pos hcodes]), ← hpage]
      exact codes_pageOf h hsound hslot
    · have hzero : pq_code_bytes = 0 := by
        rw [← h.codes_eq]
        exact Nat.eq_zero_of_not_pos hcodes
      rw [hok.nodes_ok.codes_nil slot _ hnode (by rw [if_neg hcodes]; exact Nat.zero_le _), hzero]
      exact (List.flatMap_eq_nil_iff.mpr fun _ _ => rfl).symm

end Decoding

end DiskPageCodec
