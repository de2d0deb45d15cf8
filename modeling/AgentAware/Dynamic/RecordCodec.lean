import AgentAware.Dynamic.DynamicRecord

/-!
# Records as bytes

The log and the tables store a record the same way: a header with the sizes and a checksum, the
vector, the neighbours. Only the order of the header's fields and its constants differ, so the
format is stated once over a `HeaderLayout` and both files instantiate it.

## Main definitions

- `HeaderLayout` — the fields of a header, written and read
- `encodeRecord`, `decodeRecord` — a record written, and read with every check of the reader
- `recordCodec` — both, as a prefix codec

## Main results

- `decodeRecord_encodeRecord`, `encodeRecord_of_decodeRecord` — the two laws of the codec
-/

namespace Dynamic

/-- What the headers of both formats hold besides their constants. -/
structure RecordHeader where
  sequence_id : ℕ
  node_id : ℕ
  dim : ℕ
  vector_bytes : ℕ
  neighbor_count : ℕ
  deleted : ℕ
  payload_checksum : ℕ
  deriving DecidableEq, Repr

/-- Every value fits the field it is stored in. -/
structure RecordHeader.Fits (header : RecordHeader) : Prop where
  sequence_id : header.sequence_id < 2 ^ 64
  node_id : header.node_id < 2 ^ 64
  dim : header.dim < 2 ^ 32
  vector_bytes : header.vector_bytes < 2 ^ 32
  neighbor_count : header.neighbor_count < 2 ^ 32
  deleted : header.deleted < 2 ^ 8
  payload_checksum : header.payload_checksum < 2 ^ 32

/-- How a header is laid out: its fields in order, and how they are read back. `parse` rejects
constants other than the format's own. -/
structure HeaderLayout where
  widths : List ℕ
  fields : RecordHeader → List (ℕ × ℕ)
  parse : List ℕ → Option RecordHeader
  fields_fst : ∀ header, (fields header).map Prod.fst = widths
  fields_fit : ∀ header, Codec.FieldsFit (fields header) ↔ header.Fits
  parse_fields : ∀ header, parse ((fields header).map Prod.snd) = some header
  fields_of_parse : ∀ {values header}, parse values = some header →
    widths.zip values = fields header

/-- The checks both readers make on a header before they read the payload. -/
def headerShapeIsValid (header : RecordHeader) : Bool :=
  header.deleted ≤ 1 && header.dim ≤ maxUInt32 / wordBytes &&
    header.vector_bytes == header.dim * wordBytes &&
    header.vector_bytes + header.neighbor_count * wordBytes ≤ kMaxPayloadBytes &&
    header.node_id ≤ maxUInt32

/-- The header written for a record. -/
def headerOf (record : DynamicRecord) : RecordHeader where
  sequence_id := record.sequence_id
  node_id := record.node_id.toNat
  dim := record.dim
  vector_bytes := record.vector.length * wordBytes
  neighbor_count := record.neighbors.length
  deleted := if record.deleted then 1 else 0
  payload_checksum := (checksumPayload record.vector record.neighbors).toNat

/-- The checks both writers make before they write. -/
def writable (record : DynamicRecord) : Bool :=
  record.dim == record.vector.length && record.vector.length ≤ maxUInt32 / wordBytes &&
    record.neighbors.length ≤ maxUInt32

/-- The writes of one record, in order: the fields of its header, then the vector and the
neighbours unless they are empty. -/
def recordChunks (layout : HeaderLayout) (record : DynamicRecord) : List Bytes :=
  (layout.fields (headerOf record)).map (fun f => Codec.putLE f.1 f.2) ++
    [wordsBytes record.vector, wordsBytes record.neighbors].filter fun chunk => !chunk.isEmpty

def encodeRecord (layout : HeaderLayout) (record : DynamicRecord) : Bytes :=
  Codec.putFields (layout.fields (headerOf record)) ++
    (wordsBytes record.vector ++ wordsBytes record.neighbors)

/-- An array of 32-bit words. -/
def readWords (count : ℕ) (bytes : Bytes) : Option (List UInt32 × Bytes) :=
  match Codec.readArray wordBytes count bytes with
  | none => none
  | some (values, rest) => some (values.map UInt32.ofNat, rest)

def decodeRecord (layout : HeaderLayout) (bytes : Bytes) : Option (DynamicRecord × Bytes) :=
  match Codec.readFields layout.widths bytes with
  | none => none
  | some (values, bytes) =>
    match layout.parse values with
    | none => none
    | some header =>
      if headerShapeIsValid header then
        match readWords header.dim bytes with
        | none => none
        | some (vector, bytes) =>
          match readWords header.neighbor_count bytes with
          | none => none
          | some (neighbors, bytes) =>
            if (checksumPayload vector neighbors).toNat = header.payload_checksum then
              some ({ sequence_id := header.sequence_id
                      node_id := UInt32.ofNat header.node_id
                      dim := header.dim
                      vector := vector
                      neighbors := neighbors
                      deleted := header.deleted != 0 }, bytes)
            else none
      else none

/-- A record the readers accept: the dimension is that of the vector, the payload is within the
limit, the sequence id is 64-bit. -/
structure DynamicRecord.Valid (record : DynamicRecord) : Prop where
  dim : record.dim = record.vector.length
  payload : record.payloadBytes ≤ kMaxPayloadBytes
  sequence_id : record.sequence_id < 2 ^ 64

@[simp] theorem length_wordsBytes (words : List UInt32) :
    (wordsBytes words).length = wordBytes * words.length := by
  rw [wordsBytes, Codec.length_putFields_arrayFields, List.length_map]

theorem readWords_wordsBytes (words : List UInt32) (rest : Bytes) :
    readWords words.length (wordsBytes words ++ rest) = some (words, rest) := by
  have hfit : ∀ v ∈ words.map UInt32.toNat, v < 256 ^ wordBytes := by
    intro v hv
    obtain ⟨w, _, rfl⟩ := List.mem_map.mp hv
    exact w.toNat_lt
  have hread := Codec.readArray_putFields wordBytes (words.map UInt32.toNat) hfit rest
  rw [List.length_map] at hread
  have hround : (words.map UInt32.toNat).map UInt32.ofNat = words := by
    rw [List.map_map]
    exact List.map_id'' (fun w => UInt32.ofNat_toNat) words
  rw [readWords, wordsBytes, hread]
  simp only [hround]

theorem wordsBytes_of_readWords {count : ℕ} {bytes rest : Bytes} {words : List UInt32}
    (h : readWords count bytes = some (words, rest)) :
    words.length = count ∧ bytes = wordsBytes words ++ rest := by
  rw [readWords] at h
  split at h
  · cases h
  · next values rest' hread =>
    simp only [Option.some.injEq, Prod.mk.injEq] at h
    obtain ⟨rfl, rfl⟩ := h
    obtain ⟨hcount, hfit, hbytes⟩ := Codec.putFields_of_readArray hread
    have hround : (values.map UInt32.ofNat).map UInt32.toNat = values := by
      rw [List.map_map]
      refine (List.map_congr_left fun v hv => ?_).trans (List.map_id values)
      exact UInt32.toNat_ofNat_of_lt' (hfit v hv)
    exact ⟨by rw [List.length_map, hcount], by rw [wordsBytes, hround, hbytes]⟩

theorem recordChunks_flatten (layout : HeaderLayout) (record : DynamicRecord) :
    (recordChunks layout record).flatten = encodeRecord layout record := by
  have hfields : ∀ fields : List (ℕ × ℕ),
      (fields.map fun f => Codec.putLE f.1 f.2).flatten = Codec.putFields fields := by
    intro fields
    induction fields with
    | nil => rfl
    | cons f fields ih => rw [List.map_cons, List.flatten_cons, ih]; rfl
  rw [recordChunks, encodeRecord, List.flatten_append, hfields, List.flatten_filter_not_isEmpty]
  simp

theorem headerOf_fits {record : DynamicRecord} (h : record.Valid) : (headerOf record).Fits := by
  have hpayload := h.payload
  have hdim := h.dim
  simp only [DynamicRecord.payloadBytes, kMaxPayloadBytes, wordBytes] at hpayload
  refine ⟨h.sequence_id, ?_, ?_, ?_, ?_, ?_, UInt32.toNat_lt _⟩
  · exact lt_trans (UInt32.toNat_lt _) (by decide)
  · simp only [headerOf]; omega
  · simp only [headerOf, wordBytes]; omega
  · simp only [headerOf]; omega
  · simp only [headerOf]; split <;> decide

theorem headerShapeIsValid_iff {header : RecordHeader} :
    headerShapeIsValid header = true ↔
      header.deleted ≤ 1 ∧ header.dim ≤ 1073741823 ∧ header.vector_bytes = header.dim * 4 ∧
        header.vector_bytes + header.neighbor_count * 4 ≤ 536870912 ∧
        header.node_id ≤ 4294967295 := by
  simp only [headerShapeIsValid, Bool.and_eq_true, decide_eq_true_eq, beq_iff_eq, and_assoc]
  rfl

theorem headerShapeIsValid_headerOf {record : DynamicRecord} (h : record.Valid) :
    headerShapeIsValid (headerOf record) = true := by
  have hpayload := h.payload
  have hdim := h.dim
  have hnode := record.node_id.toNat_lt
  have hdeleted : (if record.deleted then 1 else 0) ≤ 1 := by split <;> decide
  simp only [DynamicRecord.payloadBytes, kMaxPayloadBytes, wordBytes] at hpayload
  rw [headerShapeIsValid_iff]
  simp only [headerOf, wordBytes]
  exact ⟨hdeleted, by omega, by omega, by omega, by omega⟩

theorem writable_of_valid {record : DynamicRecord} (h : record.Valid) : writable record = true := by
  have hpayload := h.payload
  have hdim := h.dim
  simp only [DynamicRecord.payloadBytes, kMaxPayloadBytes, wordBytes] at hpayload
  simp only [writable, Bool.and_eq_true, decide_eq_true_eq, beq_iff_eq]
  simp only [maxUInt32, wordBytes]
  exact ⟨⟨hdim, by omega⟩, by omega⟩

theorem decodeRecord_encodeRecord (layout : HeaderLayout) (record : DynamicRecord) (rest : Bytes)
    (h : record.Valid) :
    decodeRecord layout (encodeRecord layout record ++ rest) = some (record, rest) := by
  have hfields := Codec.readFields_putFields (layout.fields (headerOf record))
    ((layout.fields_fit _).mpr (headerOf_fits h)) (wordsBytes record.vector ++
      (wordsBytes record.neighbors ++ rest))
  rw [layout.fields_fst] at hfields
  have hvector : readWords (headerOf record).dim (wordsBytes record.vector ++
      (wordsBytes record.neighbors ++ rest)) =
      some (record.vector, wordsBytes record.neighbors ++ rest) := by
    have hdim : (headerOf record).dim = record.vector.length := h.dim
    rw [hdim, readWords_wordsBytes]
  have hneighbors : readWords (headerOf record).neighbor_count (wordsBytes record.neighbors ++ rest)
      = some (record.neighbors, rest) := readWords_wordsBytes _ _
  have hdeleted : ((if record.deleted then 1 else 0 : ℕ) != 0) = record.deleted := by
    cases record.deleted <;> rfl
  rw [decodeRecord, encodeRecord, List.append_assoc, List.append_assoc, hfields]
  simp only [layout.parse_fields, headerShapeIsValid_headerOf h, if_true, hvector, hneighbors]
  simp [headerOf, hdeleted]

theorem encodeRecord_of_decodeRecord (layout : HeaderLayout) {bytes rest : Bytes}
    {record : DynamicRecord} (h : decodeRecord layout bytes = some (record, rest)) :
    record.Valid ∧ bytes = encodeRecord layout record ++ rest := by
  rw [decodeRecord] at h
  split at h
  · cases h
  next values bytes₁ hread =>
  split at h
  · cases h
  next header hparse =>
  split at h
  case isFalse => cases h
  next hshape =>
  split at h
  · cases h
  next vector bytes₂ hvector =>
  split at h
  · cases h
  next neighbors bytes₃ hneighbors =>
  split at h
  case isFalse => cases h
  next hsum =>
  simp only [Option.some.injEq, Prod.mk.injEq] at h
  obtain ⟨rfl, rfl⟩ := h
  obtain ⟨hcount, hfit, hbytes⟩ := Codec.putFields_of_readFields hread
  obtain ⟨hlen, hbytes₁⟩ := wordsBytes_of_readWords hvector
  obtain ⟨hlen', hbytes₂⟩ := wordsBytes_of_readWords hneighbors
  rw [layout.fields_of_parse hparse] at hbytes hfit
  obtain ⟨hdeleted, hdim, hvector_bytes, hpayload, hnode⟩ := headerShapeIsValid_iff.mp hshape
  have hheader : headerOf { sequence_id := header.sequence_id
                            node_id := UInt32.ofNat header.node_id
                            dim := header.dim
                            vector := vector
                            neighbors := neighbors
                            deleted := header.deleted != 0 } = header := by
    have hnode' : (UInt32.ofNat header.node_id).toNat = header.node_id :=
      UInt32.toNat_ofNat_of_lt' (lt_of_le_of_lt hnode (by decide))
    have hflag : (if (header.deleted != 0) = true then 1 else 0) = header.deleted := by
      rcases Nat.le_one_iff_eq_zero_or_eq_one.mp hdeleted with h0 | h1
      · simp [h0]
      · simp [h1]
    simp only [headerOf, hnode', hflag, hsum, hlen, hlen', wordBytes, ← hvector_bytes]
  refine ⟨⟨hlen.symm, ?_, ((layout.fields_fit header).mp hfit).sequence_id⟩, ?_⟩
  · simp only [DynamicRecord.payloadBytes, kMaxPayloadBytes, wordBytes, hlen, hlen']
    omega
  · rw [encodeRecord, hheader, hbytes, hbytes₁, hbytes₂]
    simp only [List.append_assoc]

theorem length_encodeRecord (layout : HeaderLayout) (record : DynamicRecord) :
    (encodeRecord layout record).length = layout.widths.sum + record.payloadBytes := by
  rw [encodeRecord, List.length_append, Codec.length_putFields, layout.fields_fst,
    List.length_append, length_wordsBytes, length_wordsBytes, DynamicRecord.payloadBytes]

theorem encodeRecord_ne_nil (layout : HeaderLayout) (hwidths : layout.widths.sum ≠ 0)
    (record : DynamicRecord) : encodeRecord layout record ≠ [] := by
  intro hnil
  have hlen := congrArg List.length hnil
  rw [length_encodeRecord, List.length_nil] at hlen
  omega

/-- The record format of a layout, as a prefix codec. -/
def recordCodec (layout : HeaderLayout) (hwidths : layout.widths.sum ≠ 0) :
    PrefixCodec DynamicRecord where
  encode := encodeRecord layout
  decode := decodeRecord layout
  Valid := DynamicRecord.Valid
  encode_ne_nil := encodeRecord_ne_nil layout hwidths
  decode_encode := decodeRecord_encodeRecord layout
  encode_of_decode := encodeRecord_of_decodeRecord layout

-- Proofs go through the laws of the codec, never through its bytes.
attribute [irreducible] encodeRecord decodeRecord

end Dynamic
