import AgentAware.Lib.ByteChange
import AgentAware.Storage.DiskIndex

/-!
# Damaged node pages

What `read_node` makes of a page in which one byte was changed. The checksum covers the vector, the
neighbours and the codes; of the header it covers nothing, but the layout checks pin down every field
that decides where these are read from.

## Main results

- `decodeNodeRecord_eq_ok` — what a page that decodes holds
- `readNode_changeByte` — one changed byte
-/

theorem Codec.putFields_append (fields fields' : List (ℕ × ℕ)) :
    Codec.putFields (fields ++ fields') = Codec.putFields fields ++ Codec.putFields fields' := by
  induction fields with
  | nil => rfl
  | cons field fields ih =>
    rw [List.cons_append, Codec.putFields, ih, Codec.putFields, List.append_assoc]

section Page

variable {page : Bytes} {offset width count i : ℕ} {byte : UInt8}

theorem fieldAt_set (h : i < offset ∨ offset + width ≤ i) :
    fieldAt (page.set i byte) offset width = fieldAt page offset width := by
  rw [fieldAt, fieldAt, List.drop_set]
  split_ifs with hbefore
  · rfl
  · rw [List.take_set_of_le (by omega)]

theorem readAt_set_self (file : Bytes) (offset count i : ℕ) (byte : UInt8) :
    readAt (file.set (offset + i) byte) offset count =
      (readAt file offset count).map fun page => page.set i byte := by
  rw [readAt, readAt, List.length_set]
  split_ifs with hfile
  · rw [Option.map_some, List.drop_set, if_neg (by omega), Nat.add_sub_cancel_left, List.take_set]
  · rfl

theorem readAt_set_other {file : Bytes} (h : i < offset ∨ offset + count ≤ i) :
    readAt (file.set i byte) offset count = readAt file offset count := by
  rw [readAt, readAt, List.length_set, List.drop_set]
  split_ifs with hfile hbefore
  · rfl
  · rw [List.take_set_of_le (by omega)]
  · rfl

/-- The integers read from a page, written again. -/
theorem putFields_arrayAt (h : offset + width * count ≤ page.length) :
    Codec.putFields (Codec.arrayFields width (arrayAt page offset width count)) =
      (page.drop offset).take (width * count) := by
  induction count with
  | zero => rfl
  | succ count ih =>
    rw [Nat.mul_succ] at h ⊢
    have hlength : ((page.drop (offset + width * count)).take width).length = width := by
      rw [List.length_take, List.length_drop]
      omega
    have hlast := Codec.putLE_getLE ((page.drop (offset + width * count)).take width)
    rw [hlength] at hlast
    rw [arrayAt, List.range_succ, List.map_append, Codec.arrayFields, List.map_append,
      Codec.putFields_append]
    change Codec.putFields (Codec.arrayFields width (arrayAt page offset width count)) ++
      (Codec.putLE width (fieldAt page (offset + width * count) width) ++ []) = _
    rw [ih (by omega), fieldAt, hlast, List.append_nil, List.take_add, List.drop_drop]

end Page

namespace Storage

open Dynamic (wordsBytes wordBytes length_wordsBytes)

/-- The bytes of a payload: the vector, the neighbours, the codes. -/
def payloadOf (vector : List FloatBits) (neighbors : List NodeId) (codes : Bytes) : Bytes :=
  wordsBytes vector ++ (wordsBytes neighbors ++ codes)

section Payload

variable {vector vector' : List FloatBits} {neighbors neighbors' : List NodeId}
  {codes codes' : Bytes}

theorem wordsBytes_inj {words words' : List UInt32} (hlength : words'.length = words.length)
    (h : wordsBytes words' = wordsBytes words) : words' = words := by
  have hread := Dynamic.readWords_wordsBytes words []
  rw [← h, ← hlength, Dynamic.readWords_wordsBytes] at hread
  cases hread
  rfl

/-- The bytes and the sizes say what the parts are. -/
theorem payloadOf_inj (hvector : vector'.length = vector.length)
    (hneighbors : neighbors'.length = neighbors.length)
    (h : payloadOf vector' neighbors' codes' = payloadOf vector neighbors codes) :
    vector' = vector ∧ neighbors' = neighbors ∧ codes' = codes := by
  obtain ⟨hfirst, hrest⟩ := List.append_inj h (by
    rw [length_wordsBytes, length_wordsBytes, hvector])
  obtain ⟨hsecond, hthird⟩ := List.append_inj hrest (by
    rw [length_wordsBytes, length_wordsBytes, hneighbors])
  exact ⟨wordsBytes_inj hvector hfirst, wordsBytes_inj hneighbors hsecond, hthird⟩

/-- The checksum runs over the payload. An empty part changes nothing. -/
theorem payloadChecksum_eq (vector : List FloatBits) (neighbors : List NodeId) (codes : Bytes) :
    payloadChecksum vector neighbors codes =
      fnv1aBytes (payloadOf vector neighbors codes) 2166136261 := by
  have hwords : ∀ (words : List UInt32) (hash : UInt32),
      (if 0 < words.length then fnv1aBytes (wordsBytes words) hash else hash) =
        fnv1aBytes (wordsBytes words) hash := by
    intro words hash
    cases words with
    | nil => rfl
    | cons word words => exact if_pos (Nat.succ_pos _)
  have hbytes : ∀ (bytes : Bytes) (hash : UInt32),
      (if 0 < bytes.length then fnv1aBytes bytes hash else hash) = fnv1aBytes bytes hash := by
    intro bytes hash
    cases bytes with
    | nil => rfl
    | cons byte bytes => exact if_pos (Nat.succ_pos _)
  rw [payloadChecksum]
  simp only [hwords, hbytes]
  rw [payloadOf, fnv1aBytes, fnv1aBytes, fnv1aBytes, fnv1aBytes, List.foldl_append,
    List.foldl_append]

end Payload

section Decode

variable {page : Bytes} {record : NodeRecord} {i : ℕ} {byte : UInt8}

theorem wordsBytes_wordsAt {offset count : ℕ} (h : offset + 4 * count ≤ page.length) :
    wordsBytes (wordsAt page offset count) = (page.drop offset).take (4 * count) := by
  have hround : (wordsAt page offset count).map UInt32.toNat = arrayAt page offset 4 count := by
    rw [wordsAt, List.map_map]
    refine (List.map_congr_left fun value hvalue => ?_).trans (List.map_id _)
    obtain ⟨k, -, rfl⟩ := List.mem_map.mp hvalue
    have hlt := Codec.getLE_lt ((page.drop (offset + 4 * k)).take 4)
    refine UInt32.toNat_ofNat_of_lt' (hlt.trans_le ?_)
    exact Nat.pow_le_pow_right (by decide) (List.length_take_le _ _)
  rw [wordsBytes, hround]
  exact putFields_arrayAt h

theorem length_wordsAt (page : Bytes) (offset count : ℕ) :
    (wordsAt page offset count).length = count := by
  rw [wordsAt, List.length_map, arrayAt, List.length_map, List.length_range]

/-- What a page that decodes holds: a header with the format's offsets, and behind it the payload
with its checksum. -/
theorem decodeNodeRecord_eq_ok (h : decodeNodeRecord page = .ok record) :
    let header := DiskNodeRecordHeader.ofBytes page
    record.node_id = header.node_id ∧ record.dim = header.dim ∧ record.degree = header.degree ∧
      record.vector.length = header.dim.toNat ∧ record.neighbors.length = header.degree.toNat ∧
      header.payload_bytes.toNat = 32 + header.dim.toNat * 4 + header.degree.toNat * 4 +
        header.degree.toNat * header.neighbor_pq_code_bytes.toNat ∧
      payloadOf record.vector record.neighbors record.neighbor_pq_codes =
        (page.drop 32).take (header.dim.toNat * 4 + header.degree.toNat * 4 +
          header.degree.toNat * header.neighbor_pq_code_bytes.toNat) ∧
      payloadChecksum record.vector record.neighbors record.neighbor_pq_codes = header.checksum := by
  obtain ⟨header, hheader⟩ : ∃ header, header = DiskNodeRecordHeader.ofBytes page := ⟨_, rfl⟩
  rw [← hheader]
  rw [decodeNodeRecord, unit_bind_eq_ok, requireExactPage, throwIf_eq_ok, not_not] at h
  obtain ⟨hlength, h⟩ := h
  rw [← hheader] at h
  dsimp only at h ⊢
  rw [throwIf_bind_eq_ok, unit_bind_eq_ok, validateDiskRecordShape_eq_ok, throwIf_bind_eq_ok,
    throwIf_bind_eq_ok, not_or, not_or, not_not, not_not, not_not] at h
  obtain ⟨-, hfits, ⟨hvectorAt, hneighborsAt, hpayload⟩, hchecksum, hrecord⟩ := h
  rw [not_not] at hchecksum
  have hbytes := hfits.bytes_le
  rw [UInt16.toNat_toUInt32, UInt16.toNat_toUInt32, sizeofDiskNodeRecordHeader, kDiskIndexPageSize]
    at hbytes
  change 32 + header.dim.toNat * 4 + header.degree.toNat * 4 +
    header.degree.toNat * header.neighbor_pq_code_bytes.toNat ≤ 4096 at hbytes
  change page.length = 4096 at hlength
  have hsize : ∀ n, n ≤ 4096 → (UInt32.ofNat n).toNat = n := fun n hn =>
    UInt32.toNat_ofNat_of_lt' (by rw [UInt32.size]; omega)
  have hneighborsNat : (UInt32.ofNat sizeofDiskNodeRecordHeader +
      UInt32.ofNat (header.dim.toNat * 4)).toNat = 32 + header.dim.toNat * 4 := by
    rw [← UInt32.ofNat_add, sizeofDiskNodeRecordHeader, hsize _ (by omega)]
  have hcodesNat : (UInt32.ofNat sizeofDiskNodeRecordHeader +
      UInt32.ofNat (header.dim.toNat * 4) + UInt32.ofNat (header.degree.toNat * 4)).toNat =
        32 + header.dim.toNat * 4 + header.degree.toNat * 4 := by
    rw [← UInt32.ofNat_add, ← UInt32.ofNat_add, sizeofDiskNodeRecordHeader, hsize _ (by omega)]
  have hvectorNat : (UInt32.ofNat sizeofDiskNodeRecordHeader).toNat = 32 := by decide
  cases hrecord
  refine ⟨rfl, rfl, rfl, length_wordsAt _ _ _, length_wordsAt _ _ _, ?_, ?_, hchecksum⟩
  · rw [not_not.mp hpayload]
    refine (hsize _ ?_).trans ?_
    · exact hfits.bytes_le
    · rw [diskRecordBytes, UInt16.toNat_toUInt32, UInt16.toNat_toUInt32, sizeofDiskNodeRecordHeader]
  · rw [payloadOf, hvectorAt, hneighborsAt]
    rw [hvectorNat, hneighborsNat, hcodesNat, wordsBytes_wordsAt, wordsBytes_wordsAt]
    · rw [List.take_add, List.take_add, List.drop_drop, List.drop_drop, List.append_assoc,
        Nat.mul_comm 4, Nat.mul_comm 4]
      rw [Nat.add_assoc]
    · omega
    · omega

/-- A page that decodes before and after one of its bytes was changed, and not to another dimension,
has the same payload. -/
theorem decodeNodeRecord_set {written : NodeRecord} (hwritten : decodeNodeRecord page = .ok written)
    (hread : decodeNodeRecord (page.set i byte) = .ok record) (hdim : record.dim = written.dim) :
    record.vector = written.vector ∧ record.neighbors = written.neighbors ∧
      record.neighbor_pq_codes = written.neighbor_pq_codes := by
  obtain ⟨-, hdimW, -, hvectorW, hneighborsW, hbytesW, hpayloadW, hsumW⟩ :=
    decodeNodeRecord_eq_ok hwritten
  obtain ⟨-, hdimR, -, hvectorR, hneighborsR, hbytesR, hpayloadR, hsumR⟩ :=
    decodeNodeRecord_eq_ok hread
  rw [hdimR, hdimW] at hdim
  -- A field keeps its value when the byte is not one of its own.
  have hdegree (h : i < 8 ∨ 8 + 2 ≤ i) : (DiskNodeRecordHeader.ofBytes (page.set i byte)).degree =
      (DiskNodeRecordHeader.ofBytes page).degree := congrArg UInt16.ofNat (fieldAt_set h)
  have hcode (h : i < 12 ∨ 12 + 2 ≤ i) :
      (DiskNodeRecordHeader.ofBytes (page.set i byte)).neighbor_pq_code_bytes =
        (DiskNodeRecordHeader.ofBytes page).neighbor_pq_code_bytes :=
    congrArg UInt16.ofNat (fieldAt_set h)
  have hchecksum (h : i < 16 ∨ 16 + 4 ≤ i) :
      (DiskNodeRecordHeader.ofBytes (page.set i byte)).checksum =
        (DiskNodeRecordHeader.ofBytes page).checksum := congrArg UInt32.ofNat (fieldAt_set h)
  have hbytes (h : i < 28 ∨ 28 + 4 ≤ i) :
      (DiskNodeRecordHeader.ofBytes (page.set i byte)).payload_bytes =
        (DiskNodeRecordHeader.ofBytes page).payload_bytes := congrArg UInt32.ofNat (fieldAt_set h)
  rw [hdim] at hvectorR hbytesR hpayloadR
  -- The size of the payload is stored twice, so it cannot have changed.
  have hcounts : (DiskNodeRecordHeader.ofBytes (page.set i byte)).degree.toNat =
      (DiskNodeRecordHeader.ofBytes page).degree.toNat ∧
        (DiskNodeRecordHeader.ofBytes (page.set i byte)).degree.toNat *
          (DiskNodeRecordHeader.ofBytes (page.set i byte)).neighbor_pq_code_bytes.toNat =
        (DiskNodeRecordHeader.ofBytes page).degree.toNat *
          (DiskNodeRecordHeader.ofBytes page).neighbor_pq_code_bytes.toNat := by
    by_cases hat : 8 ≤ i ∧ i < 10
    · rw [hcode (by omega)] at hbytesR ⊢
      rw [hbytes (by omega)] at hbytesR
      have hsame := hbytesR.symm.trans hbytesW
      have hdeg : (DiskNodeRecordHeader.ofBytes (page.set i byte)).degree.toNat =
          (DiskNodeRecordHeader.ofBytes page).degree.toNat := by
        have hfactor : (DiskNodeRecordHeader.ofBytes (page.set i byte)).degree.toNat *
            (4 + (DiskNodeRecordHeader.ofBytes page).neighbor_pq_code_bytes.toNat) =
            (DiskNodeRecordHeader.ofBytes page).degree.toNat *
              (4 + (DiskNodeRecordHeader.ofBytes page).neighbor_pq_code_bytes.toNat) := by
          rw [Nat.mul_add, Nat.mul_add]
          omega
        exact Nat.eq_of_mul_eq_mul_right (by omega) hfactor
      exact ⟨hdeg, by rw [hdeg]⟩
    · rw [hdegree (by omega)] at hbytesR ⊢
      refine ⟨rfl, ?_⟩
      by_cases hcodeAt : 12 ≤ i ∧ i < 14
      · rw [hbytes (by omega)] at hbytesR
        omega
      · rw [hcode (by omega)]
  rw [hcounts.2, hcounts.1] at hpayloadR
  rw [hcounts.1] at hneighborsR
  -- the byte is in the header, behind the payload, or the checksum tells
  have hpayload : payloadOf record.vector record.neighbors record.neighbor_pq_codes =
      payloadOf written.vector written.neighbors written.neighbor_pq_codes := by
    rw [List.drop_set] at hpayloadR
    split_ifs at hpayloadR with hfront
    · rw [hpayloadR, hpayloadW]
    · rw [List.take_set, ← hpayloadW] at hpayloadR
      by_contra hne
      refine fnv_set_ne 2166136261 (fun heq => hne (hpayloadR.trans heq)) ?_
      rw [← hpayloadR]
      change fnv1aBytes _ _ = fnv1aBytes _ _
      rw [← payloadChecksum_eq, ← payloadChecksum_eq, hsumR, hsumW, hchecksum (by omega)]
  exact payloadOf_inj (hvectorR.trans hvectorW.symm) (hneighborsR.trans hneighborsW.symm) hpayload

end Decode

section Damaged

variable {path : String} {dim max_degree : UInt32} {num_nodes entry_node : UInt64}
  {created opened : DiskIndexWriter}

/-- A file in which one byte of the page of a node was changed: it opens, and `read_node` of that
node throws or returns what was written. -/
theorem readNode_changeByte (hcreate : DiskIndexWriter.create path dim max_degree = .ok created)
    (hheader : created.writeHeader num_nodes entry_node = .ok opened) {calls : List NodeWrite}
    {node_id : NodeId} {call : NodeWrite}
    (hlast : lastWrite (opened.writeNodes calls).2 node_id = some call) (i : ℕ) (byte : UInt8) :
    ∃ reader, DiskIndexReader.create path ((opened.writeNodes calls).1.close.file.set
        ((node_id.toNat + 1) * kDiskIndexPageSize + i) byte) = .ok reader ∧
      ∀ record, reader.readNode node_id = .ok record →
        record.node_id = call.node_id ∧ record.vector = call.vector ∧
          record.neighbors = call.neighbors ∧ record.neighbor_pq_codes = call.neighbor_pq_codes := by
  obtain ⟨hwriting, -, hfirst⟩ := writeHeader_eq_ok hcreate hheader
  obtain ⟨haccepted, hfile⟩ := writeNodes_spec calls hwriting
  obtain ⟨hmem, hid⟩ := lastWrite_eq_some hlast
  have hcall := haccepted call hmem
  have hpages : (opened.writeNodes calls).1.close.file = writePages kDiskIndexPageSize []
      (indexPages opened.header (opened.writeNodes calls).2) := by
    change (opened.writeNodes calls).1.file = _
    rw [hfile, hfirst, indexPages, writePages, writePages, List.foldl_cons, Nat.zero_mul]
  obtain ⟨file, hdamaged⟩ : ∃ file, file = (opened.writeNodes calls).1.close.file.set
      ((node_id.toNat + 1) * kDiskIndexPageSize + i) byte := ⟨_, rfl⟩
  rw [← hdamaged]
  rw [hpages] at hdamaged
  -- The header's page is not the one that was changed.
  have hopen : readPageAt path file 0 = .ok opened.header.toPage := by
    have hread := readAt_writePages (by decide) (length_indexPages haccepted) 0
    rw [lastPage_header, Nat.zero_mul] at hread
    rw [readPageAt, UInt64.toNat_zero, hdamaged, readAt_set_other (Or.inr ?_), hread]
    rw [kDiskIndexPageSize]
    omega
  refine ⟨{ path, header := opened.header, file }, ?_, fun record hread => ?_⟩
  · rw [DiskIndexReader.create, except_bind_eq_ok]
    refine ⟨opened.header.toPage, hopen, ?_⟩
    dsimp only
    rw [opened.header.ofPage_toPage, unit_bind_eq_ok, validateIndexFileHeader_eq_ok]
    exact ⟨hwriting.valid, rfl⟩
  · rw [DiskIndexReader.readNode, except_bind_eq_ok] at hread
    obtain ⟨page, hpage, hread⟩ := hread
    obtain ⟨decoded, hdecode, hread⟩ := except_bind_eq_ok.mp hread
    rw [throwIf_bind_eq_ok, throwIf_bind_eq_ok, throwIf_bind_eq_ok, not_not, not_not] at hread
    obtain ⟨hnode, hdim, -, hrecord⟩ := hread
    cases hrecord
    obtain ⟨offset, hoffset, hat⟩ := diskRecordOffset_of_lt hwriting.valid
      (hid ▸ hcall.node_id)
    have hset : page = call.page.2.set i byte := by
      have hslot := readAt_writePages (by decide) (length_indexPages haccepted) (node_id.toNat + 1)
      rw [lastPage_node, hlast] at hslot
      rw [DiskIndexReader.readNodeInto, throwIf_bind_eq_ok, except_bind_eq_ok] at hpage
      obtain ⟨-, offset', hoffset', hpage⟩ := hpage
      cases hoffset.symm.trans hoffset'
      rw [readPageAt, hat, hdamaged, readAt_set_self, hslot] at hpage
      exact (Except.ok.inj hpage).symm
    have hwritten : decodeNodeRecord call.page.2 = .ok call.record :=
      decodeNodeRecord_recordPage call.length_vector hcall.fits hcall.codes
    have hsame : record.dim = call.record.dim := by
      have hsize : call.vector.length < UInt16.size := Nat.lt_succ_of_le hcall.fits.dim_le
      have hdimNat := congrArg UInt32.toNat (hdim.trans hcall.dim.symm)
      rw [UInt16.toNat_toUInt32, ← call.length_vector] at hdimNat
      rw [← UInt16.toNat_inj, hdimNat]
      exact (UInt16.toNat_ofNat_of_lt' hsize).symm
    rw [hset] at hdecode
    exact ⟨hnode.trans hid.symm, decodeNodeRecord_set hwritten hdecode hsame⟩

/-- A page whose degree was changed. -/
theorem readNode_changeByte_degree :
    ∃ created opened reader, DiskIndexWriter.create "graph.idx" 1 2 = .ok created ∧
      created.writeHeader 3 1 = .ok opened ∧
      DiskIndexReader.create "graph.idx" ((opened.writeNodes
        [⟨2, 1, [7], [0, 1], [], 0, rfl⟩]).1.close.file.set
          (((2 : NodeId).toNat + 1) * kDiskIndexPageSize + 8) 1) = .ok reader ∧
      ∀ record, reader.readNode 2 = .ok record →
        record.node_id = 2 ∧ record.vector = [7] ∧ record.neighbors = [0, 1] ∧
          record.neighbor_pq_codes = [] := by
  obtain ⟨created, hcreate⟩ : ∃ created, DiskIndexWriter.create "graph.idx" 1 2 = .ok created :=
    ⟨_, rfl⟩
  obtain ⟨opened, hheader⟩ : ∃ opened, created.writeHeader 3 1 = .ok opened := by
    cases hcreate
    exact ⟨_, rfl⟩
  have hlast : ∀ opened, created.writeHeader 3 1 = .ok opened →
      lastWrite (opened.writeNodes [⟨2, 1, [7], [0, 1], [], 0, rfl⟩]).2 2 =
        some ⟨2, 1, [7], [0, 1], [], 0, rfl⟩ := by
    cases hcreate
    rintro opened hheader
    cases hheader
    decide +kernel
  obtain ⟨reader, hopen, hread⟩ := readNode_changeByte hcreate hheader (hlast opened hheader) 8 1
  exact ⟨created, opened, reader, hcreate, hheader, hopen, hread⟩

end Damaged

end Storage
