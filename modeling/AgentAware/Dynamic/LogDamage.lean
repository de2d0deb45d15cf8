import AgentAware.Dynamic.Acceptance
import AgentAware.Lib.ByteChange
import Mathlib.Tactic.IntervalCases

/-!
# Damaged logs

What `replay` makes of a log that was cut short, or in which one byte was changed. A cut log has its
complete records. A changed byte leaves the records in front of it alone; whether the record that
holds it is dropped depends on the checksum, which covers the payload and nothing else.

## Main definitions

- `truncateLog`, `changeLogByte` — the damage
- `Unseen` — the changes that the checks of the reader do not see

## Main results

- `replay_truncateLog` — the longest prefix that is complete
- `replay_changeLogByte` — one changed byte
-/

namespace Dynamic

/-- The log cut to a length. -/
def truncateLog (disk : Disk) (length : ℕ) : Disk :=
  disk.modifyFile .wal fun file => { synced := file.synced.take length }

/-- The log with one byte changed. -/
def changeLogByte (disk : Disk) (offset : ℕ) (byte : UInt8) : Disk :=
  disk.modifyFile .wal fun file => { synced := file.synced.set offset byte }

section Written

variable {disk : Disk} {records : List DynamicRecord}

/-- The log that a run of appends leaves, when every append returned true. -/
theorem read_writeLog (hempty : walBytes disk = [])
    (hwritten : ((writeLog records).exec disk []).1 = true) :
    ((writeLog records).exec disk []).2.store.read .wal = some (walCodec.encodeAll records) ∧
      ∀ record ∈ records, writable record = true := by
  have hwp : (writeLog records).wp _ _ _ disk := wp_writeLog hempty
  obtain ⟨⟨hok, hread⟩, -⟩ := Prog.wp_exec hwp
  exact ⟨hread hwritten, List.all_eq_true.mp (hok.symm.trans hwritten)⟩

theorem valid_of_writable {record : DynamicRecord} (hwritable : writable record = true)
    (hpayload : record.payloadBytes ≤ kMaxPayloadBytes) (hsequence : record.sequence_id < 2 ^ 64) :
    record.Valid := by
  simp only [writable, Bool.and_eq_true, beq_iff_eq] at hwritable
  exact ⟨hwritable.1.1, hpayload, hsequence⟩

theorem exec_replay (disk : Disk) : (replay.exec disk []).1 = logRecords disk :=
  (Prog.wp_exec (R := fun _ _ => True) (Q := fun out _ => out = logRecords disk)
    (wp_replay.mpr ⟨trivial, rfl⟩)).1

theorem replay_modifyLog {disk : Disk} {bytes : Bytes} (hread : disk.read .wal = some bytes)
    (damage : Bytes → Bytes) :
    (replay.exec (disk.modifyFile .wal fun file => { synced := damage file.synced }) []).1 =
      replayBytes (damage bytes) := by
  rw [exec_replay, logRecords, Disk.read, modifyFile_files_self]
  rw [Disk.read] at hread
  cases hfile : disk.files .wal with
  | none =>
    rw [hfile] at hread
    cases hread
  | some file =>
    rw [hfile] at hread
    cases hread
    rfl

/-- For every list of records that were appended to an empty log, and every length it is cut to:
`replay` returns the longest prefix of the list whose encodings are complete. -/
theorem replay_truncateLog (hempty : walBytes disk = [])
    (hpayload : ∀ record ∈ records, record.payloadBytes ≤ kMaxPayloadBytes)
    (hsequence : ∀ record ∈ records, record.sequence_id < 2 ^ 64)
    (hwritten : ((writeLog records).exec disk []).1 = true) (length : ℕ) :
    let replayed := (replay.exec (truncateLog ((writeLog records).exec disk []).2.store length)
      []).1
    replayed <+: records ∧ (walCodec.encodeAll replayed).length ≤ length ∧
      ∀ longer, longer <+: records → (walCodec.encodeAll longer).length ≤ length →
        longer <+: replayed := by
  obtain ⟨hread, hwritable⟩ := read_writeLog hempty hwritten
  have hvalid : ∀ record ∈ records, walCodec.Valid record := fun record h =>
    valid_of_writable (hwritable record h) (hpayload record h) (hsequence record h)
  intro replayed
  have hreplayed : replayed = walCodec.fitting length records := by
    change (replay.exec (truncateLog _ length) []).1 = _
    rw [truncateLog, replay_modifyLog hread fun bytes => bytes.take length, replayBytes,
      walCodec.decodeAll_take_encodeAll hvalid]
  rw [hreplayed]
  exact ⟨walCodec.fitting_prefix length records, walCodec.length_encodeAll_fitting length records,
    fun longer hlonger hfits => walCodec.prefix_fitting hlonger hfits⟩

/-- Two erases, cut inside the second. -/
theorem replay_truncateLog_erase :
    let records : List DynamicRecord := [{ sequence_id := 1, node_id := 7, deleted := true },
      { sequence_id := 2, node_id := 8, deleted := true }]
    let replayed := (replay.exec (truncateLog ((writeLog records).exec {} []).2.store 60) []).1
    replayed <+: records ∧ (walCodec.encodeAll replayed).length ≤ 60 ∧
      ∀ longer, longer <+: records → (walCodec.encodeAll longer).length ≤ 60 →
        longer <+: replayed :=
  replay_truncateLog rfl (by decide) (by decide) (by decide +kernel) 60

end Written

/-- What a changed byte of an encoding does that no check of the reader sees. `following` is what the
log holds behind the encoding. -/
def Unseen (record : DynamicRecord) (following : Bytes) (offset : ℕ) (byte : UInt8) : Prop :=
  -- the sequence id and the low half of the node id: any value passes
  (8 ≤ offset ∧ offset < 20) ∨
  -- the number of neighbours: others are read, with the same checksum
  (32 ≤ offset ∧ offset < 36 ∧ ∃ neighbors rest,
    wordBytes * record.vector.length + wordBytes * neighbors.length ≤ kMaxPayloadBytes ∧
      readWords (Codec.changeByte 4 record.neighbors.length (offset - 32) byte)
        (wordsBytes record.neighbors ++ following) = some (neighbors, rest) ∧
      checksumPayload record.vector neighbors = checksumPayload record.vector record.neighbors) ∨
  -- the deletion flag
  (offset = 36 ∧ byte ≤ 1) ∨
  -- the vector: another one with the same checksum
  (41 ≤ offset ∧ offset < 41 + wordBytes * record.vector.length ∧ ∃ vector,
    wordsBytes vector = (wordsBytes record.vector).set (offset - 41) byte ∧
      checksumPayload vector record.neighbors = checksumPayload record.vector record.neighbors)

section Checksum

/-- The checksum of bytes sees every change of one of them. -/
theorem checksumBytes_set_ne {bytes : Bytes} {i : ℕ} {byte : UInt8}
    (h : bytes.set i byte ≠ bytes) : checksumBytes (bytes.set i byte) ≠ checksumBytes bytes :=
  fnv_set_ne _ h

/-- That of a payload sees every change of one byte of its neighbours. -/
theorem checksumPayload_neighbors_ne {vector : List FloatBits} {neighbors neighbors' : List NodeId}
    {i : ℕ} {byte : UInt8} (hbytes : wordsBytes neighbors' = (wordsBytes neighbors).set i byte)
    (h : (wordsBytes neighbors).set i byte ≠ wordsBytes neighbors) :
    checksumPayload vector neighbors' ≠ checksumPayload vector neighbors := by
  have hlength := congrArg List.length hbytes
  rw [List.length_set, length_wordsBytes, length_wordsBytes] at hlength
  have hne : neighbors ≠ [] := by
    rintro rfl
    exact h List.set_nil
  have hne' : neighbors' ≠ [] := by
    rintro rfl
    rw [List.length_nil, Nat.mul_zero, wordBytes] at hlength
    exact hne (List.length_eq_zero_iff.mp (by omega))
  intro heq
  simp only [checksumPayload, List.isEmpty_iff, hne, hne', if_false] at heq
  have hsum := (UInt32.xor_right_inj _).mp heq
  have hneighbors := (UInt32.add_left_inj _).mp ((UInt32.add_left_inj _).mp
    ((UInt32.add_left_inj _).mp hsum))
  rw [hbytes] at hneighbors
  exact checksumBytes_set_ne h hneighbors

end Checksum

section Decode

variable {record : DynamicRecord} {header : RecordHeader} {following bytes : Bytes} {j : ℕ}
  {byte : UInt8}

/-- When a record is read behind a header whose fields fit. -/
theorem isSome_decode (hfits : header.Fits) (bytes : Bytes) :
    (walCodec.decode (Codec.putFields (walLayout.fields header) ++ bytes)).isSome = true ↔
      headerShapeIsValid header = true ∧ ∃ vector rest neighbors rest',
        readWords header.dim bytes = some (vector, rest) ∧
          readWords header.neighbor_count rest = some (neighbors, rest') ∧
          (checksumPayload vector neighbors).toNat = header.payload_checksum := by
  have hread := Codec.readFields_putFields (walLayout.fields header)
    ((walLayout.fields_fit header).mpr hfits) bytes
  rw [walLayout.fields_fst] at hread
  change (decodeRecord walLayout _).isSome = true ↔ _
  rw [decodeRecord, hread]
  simp only [walLayout.parse_fields]
  cases hshape : headerShapeIsValid header with
  | false => simp
  | true =>
    simp only [if_true, true_and]
    -- vector, neighbours, checksum, as the reader takes them
    cases hvector : readWords header.dim bytes with
    | none => simp
    | some found =>
      obtain ⟨vector, rest⟩ := found
      dsimp only
      cases hneighbors : readWords header.neighbor_count rest with
      | none => simp [hneighbors]
      | some found' =>
        obtain ⟨neighbors, rest'⟩ := found'
        dsimp only
        split
        · next hsum => simpa [hneighbors] using hsum
        · next hsum => simpa [hneighbors] using hsum

/-- The same, when only the header may have changed, and not in its counts. -/
theorem isSome_decode_header (hfits : header.Fits) (hdim : header.dim = record.vector.length)
    (hcount : header.neighbor_count = record.neighbors.length) (following : Bytes) :
    (walCodec.decode (Codec.putFields (walLayout.fields header) ++ (wordsBytes record.vector ++
      (wordsBytes record.neighbors ++ following)))).isSome = true ↔
      headerShapeIsValid header = true ∧
        (checksumPayload record.vector record.neighbors).toNat = header.payload_checksum := by
  rw [isSome_decode hfits, hdim, hcount]
  refine and_congr_right fun _ => ⟨?_, fun hsum => ?_⟩
  · rintro ⟨vector, rest, neighbors, rest', hvector, hneighbors, hsum⟩
    rw [readWords_wordsBytes] at hvector
    cases hvector
    rw [readWords_wordsBytes] at hneighbors
    cases hneighbors
    exact hsum
  · exact ⟨_, _, _, _, readWords_wordsBytes _ _, readWords_wordsBytes _ _, hsum⟩

/-- Any bytes of the right length are words. -/
theorem exists_wordsBytes {count : ℕ} (h : bytes.length = wordBytes * count) :
    ∃ words, words.length = count ∧ bytes = wordsBytes words := by
  induction count generalizing bytes with
  | zero => exact ⟨[], rfl, List.length_eq_zero_iff.mp h⟩
  | succ count ih =>
    rw [wordBytes] at h
    have hdrop : (bytes.drop 4).length = wordBytes * count := by
      rw [List.length_drop, wordBytes]
      omega
    obtain ⟨words, hlength, hrest⟩ := ih hdrop
    have hfour : (bytes.take 4).length = 4 := by
      rw [List.length_take]
      omega
    have hlt : Codec.getLE (bytes.take 4) < UInt32.size := by
      have hbound := Codec.getLE_lt (bytes.take 4)
      rwa [hfour] at hbound
    have hput := Codec.putLE_getLE (bytes.take 4)
    rw [hfour] at hput
    refine ⟨UInt32.ofNat (Codec.getLE (bytes.take 4)) :: words, by rw [List.length_cons, hlength],
      ?_⟩
    change bytes = Codec.putLE 4 (UInt32.ofNat (Codec.getLE (bytes.take 4))).toNat ++
      wordsBytes words
    rw [UInt32.toNat_ofNat_of_lt' hlt, hput, ← hrest, List.take_append_drop]

/-- A changed payload is another payload. -/
theorem exists_wordsBytes_set (words : List UInt32) (i : ℕ) (byte : UInt8) :
    ∃ words', words'.length = words.length ∧
      wordsBytes words' = (wordsBytes words).set i byte := by
  have hlength' : ((wordsBytes words).set i byte).length = wordBytes * words.length := by
    rw [List.length_set, length_wordsBytes]
  obtain ⟨words', hlength, hbytes⟩ := exists_wordsBytes hlength'
  exact ⟨words', hlength, hbytes.symm⟩

theorem encode_eq (record : DynamicRecord) :
    walCodec.encode record = Codec.putFields (walLayout.fields (headerOf record)) ++
      (wordsBytes record.vector ++ wordsBytes record.neighbors) := by
  change encodeRecord walLayout record = _
  rw [encodeRecord]

/-- Constants other than the format's own are rejected. -/
theorem decode_constants {fields : List (ℕ × ℕ)} (hwidths : fields.map Prod.fst = walLayout.widths)
    (hfit : Codec.FieldsFit fields) (hparse : walLayout.parse (fields.map Prod.snd) = none)
    (bytes : Bytes) : ¬ (walCodec.decode (Codec.putFields fields ++ bytes)).isSome = true := by
  have hread := Codec.readFields_putFields fields hfit bytes
  rw [hwidths] at hread
  change ¬ (decodeRecord walLayout _).isSome = true
  rw [decodeRecord, hread]
  simp [hparse]

/-- The bytes of the header that are checked against a constant, another field or the payload. -/
theorem not_unseen {offset : ℕ}
    (h : offset < 8 ∨ (20 ≤ offset ∧ offset < 32) ∨ (37 ≤ offset ∧ offset < 41)) :
    ¬ Unseen record following offset byte := by
  rintro (hunseen | hunseen | hunseen | hunseen)
  · omega
  · omega
  · omega
  · omega

/-- A node id is too large for one when its high half is changed. -/
theorem decode_nodeId_set (hrecord : record.Valid) (following : Bytes) {i : ℕ} (hi : i < 8)
    (hchanged : (Codec.putLE 8 record.node_id.toNat).set i byte ≠
      Codec.putLE 8 record.node_id.toNat)
    (hfits : RecordHeader.Fits { headerOf record with
      node_id := Codec.changeByte 8 record.node_id.toNat i byte }) :
    (walCodec.decode (Codec.putFields (walLayout.fields { headerOf record with
      node_id := Codec.changeByte 8 record.node_id.toNat i byte }) ++
        (wordsBytes record.vector ++ (wordsBytes record.neighbors ++ following)))).isSome = true ↔
      Unseen record following (16 + i) byte := by
  have hshape := headerShapeIsValid_iff.mp (headerShapeIsValid_headerOf hrecord)
  have hhalf : Codec.changeByte (4 + 4) record.node_id.toNat i byte < 256 ^ 4 ↔ i < 4 :=
    Codec.changeByte_lt_iff record.node_id.toNat_lt hchanged
  refine (isSome_decode_header hfits hrecord.dim rfl following).trans ?_
  rw [headerShapeIsValid_iff]
  change (_ ∧ _ ∧ _ ∧ _ ∧ Codec.changeByte 8 record.node_id.toNat i byte ≤ maxUInt32) ∧ _ ↔
    Unseen record following (16 + i) byte
  constructor
  · rintro ⟨⟨-, -, -, -, hnode⟩, -⟩
    refine Or.inl ⟨by omega, ?_⟩
    have hlow := hhalf.mp (Nat.lt_succ_of_le hnode)
    omega
  · intro hunseen
    by_cases hlow : i < 4
    · exact ⟨⟨hshape.1, hshape.2.1, hshape.2.2.1, hshape.2.2.2.1,
        Nat.le_of_lt_succ (hhalf.mpr hlow)⟩, rfl⟩
    · exact absurd hunseen (not_unseen (by omega))

/-- With another number of neighbours, the bytes behind the vector are read as others. -/
theorem decode_neighborCount_set (hrecord : record.Valid) (following : Bytes) {i : ℕ} (hi : i < 4)
    (hfits : RecordHeader.Fits { headerOf record with
      neighbor_count := Codec.changeByte 4 record.neighbors.length i byte }) :
    (walCodec.decode (Codec.putFields (walLayout.fields { headerOf record with
      neighbor_count := Codec.changeByte 4 record.neighbors.length i byte }) ++
        (wordsBytes record.vector ++ (wordsBytes record.neighbors ++ following)))).isSome = true ↔
      Unseen record following (32 + i) byte := by
  have hshape := headerShapeIsValid_iff.mp (headerShapeIsValid_headerOf hrecord)
  have hdim : (headerOf record).dim = record.vector.length := hrecord.dim
  refine (isSome_decode hfits _).trans ?_
  rw [headerShapeIsValid_iff]
  change (_ ∧ _ ∧ _ ∧ record.vector.length * wordBytes +
    Codec.changeByte 4 record.neighbors.length i byte * wordBytes ≤ kMaxPayloadBytes ∧ _) ∧ _ ↔
      Unseen record following (32 + i) byte
  constructor
  · rintro ⟨⟨-, -, -, hpayload, -⟩, vector, rest, neighbors, rest', hvector, hneighbors, hsum⟩
    rw [hdim, readWords_wordsBytes] at hvector
    cases hvector
    refine Or.inr (Or.inl ⟨by omega, by omega, neighbors, rest', ?_, ?_, UInt32.toNat_inj.mp hsum⟩)
    · rw [(wordsBytes_of_readWords hneighbors).1, Nat.mul_comm, Nat.mul_comm wordBytes]
      exact hpayload
    · rw [Nat.add_sub_cancel_left]
      exact hneighbors
  · rintro (hunseen | ⟨-, -, neighbors, rest, hpayload, hneighbors, hsum⟩ | hunseen | hunseen)
    · omega
    · rw [Nat.add_sub_cancel_left] at hneighbors
      refine ⟨⟨hshape.1, hshape.2.1, hshape.2.2.1, ?_, hshape.2.2.2.2⟩, record.vector, _, neighbors,
        rest, ?_, hneighbors, congrArg UInt32.toNat hsum⟩
      · rw [(wordsBytes_of_readWords hneighbors).1, Nat.mul_comm, Nat.mul_comm wordBytes]
          at hpayload
        exact hpayload
      · rw [hdim]
        exact readWords_wordsBytes _ _
    · omega
    · omega

/-- The flag may be any of its two values. -/
theorem decode_deleted_set (hrecord : record.Valid) (following : Bytes)
    (hfits : RecordHeader.Fits { headerOf record with
      deleted := Codec.changeByte 1 (if record.deleted then 1 else 0) 0 byte }) :
    (walCodec.decode (Codec.putFields (walLayout.fields { headerOf record with
      deleted := Codec.changeByte 1 (if record.deleted then 1 else 0) 0 byte }) ++
        (wordsBytes record.vector ++ (wordsBytes record.neighbors ++ following)))).isSome = true ↔
      Unseen record following 36 byte := by
  have hshape := headerShapeIsValid_iff.mp (headerShapeIsValid_headerOf hrecord)
  refine (isSome_decode_header hfits hrecord.dim rfl following).trans ?_
  rw [headerShapeIsValid_iff]
  change (Codec.changeByte 1 _ 0 byte ≤ 1 ∧ _) ∧ _ ↔ Unseen record following 36 byte
  rw [Codec.changeByte_one]
  constructor
  · rintro ⟨⟨hdeleted, -⟩, -⟩
    exact Or.inr (Or.inr (Or.inl ⟨rfl, hdeleted⟩))
  · rintro (hunseen | hunseen | ⟨-, hdeleted⟩ | hunseen)
    · omega
    · omega
    · exact ⟨⟨hdeleted, hshape.2⟩, rfl⟩
    · omega

/-- A change in the header. -/
theorem decode_header_set (hrecord : record.Valid) (following : Bytes) {j : ℕ} (hj : j < 41)
    (h : (Codec.putFields (walLayout.fields (headerOf record))).set j byte ≠
      Codec.putFields (walLayout.fields (headerOf record))) :
    (walCodec.decode ((Codec.putFields (walLayout.fields (headerOf record))).set j byte ++
        (wordsBytes record.vector ++ (wordsBytes record.neighbors ++ following)))).isSome = true ↔
      Unseen record following j byte := by
  have hlength : (Codec.putFields (walLayout.fields (headerOf record))).length = 41 := by
    rw [Codec.length_putFields, walLayout.fields_fst]
    rfl
  -- the byte is one of a field; every field has its own fate
  obtain ⟨k, hk, i, hi, rfl⟩ := Codec.exists_field_of_lt (by rw [hlength]; exact hj)
  have hchanged := Codec.changeByte_field_ne hk hi h
  clear hj h hlength
  rw [Codec.putFields_set hk hi]
  have hne := Codec.changeByte_ne hchanged
  have hfit := ((walLayout.fields_fit _).mpr (headerOf_fits hrecord)).set k
    (Codec.changeByte_lt ((walLayout.fields (headerOf record))[k]).1
      ((walLayout.fields (headerOf record))[k]).2 i byte)
  have hshape := headerShapeIsValid_headerOf hrecord
  have hdim : (headerOf record).dim = record.vector.length := hrecord.dim
  change k < 10 at hk
  interval_cases k
  · -- the magic number
    change i < 4 at hi
    refine iff_of_false (decode_constants rfl hfit (if_neg fun h => hne h.1) _) (not_unseen ?_)
    change 0 + i < 8 ∨ _
    omega
  · -- the version
    change i < 2 at hi
    refine iff_of_false (decode_constants rfl hfit (if_neg fun h => hne h.2.1) _) (not_unseen ?_)
    change 4 + i < 8 ∨ _
    omega
  · -- the operation
    change i < 2 at hi
    refine iff_of_false (decode_constants rfl hfit (if_neg fun h => hne h.2.2) _) (not_unseen ?_)
    change 6 + i < 8 ∨ _
    omega
  · -- the sequence id
    change i < 8 at hi
    have hfits : RecordHeader.Fits { headerOf record with
      sequence_id := Codec.changeByte 8 record.sequence_id i byte } := (walLayout.fields_fit _).mp hfit
    refine (isSome_decode_header hfits hdim rfl following).trans
      (iff_of_true ⟨hshape, rfl⟩ (Or.inl ?_))
    change 8 ≤ 8 + i ∧ 8 + i < 20
    omega
  · -- the node id
    exact decode_nodeId_set hrecord following hi hchanged ((walLayout.fields_fit _).mp hfit)
  · -- the dimension
    change i < 4 at hi
    have hfits : RecordHeader.Fits { headerOf record with
      dim := Codec.changeByte 4 record.dim i byte } := (walLayout.fields_fit _).mp hfit
    change (walCodec.decode _).isSome = true ↔ Unseen record following (24 + i) byte
    refine iff_of_false (fun hdecode => ?_) (not_unseen (by omega))
    have hvalid := headerShapeIsValid_iff.mp ((isSome_decode hfits _).mp hdecode).1
    have hbytes := hvalid.2.2.1.symm.trans (headerShapeIsValid_iff.mp hshape).2.2.1
    exact hne (Nat.eq_of_mul_eq_mul_right (by decide) hbytes)
  · -- the bytes of the vector
    change i < 4 at hi
    have hfits : RecordHeader.Fits { headerOf record with
      vector_bytes := Codec.changeByte 4 (record.vector.length * wordBytes) i byte } :=
        (walLayout.fields_fit _).mp hfit
    change (walCodec.decode _).isSome = true ↔ Unseen record following (28 + i) byte
    refine iff_of_false (fun hdecode => ?_) (not_unseen (by omega))
    have hvalid := headerShapeIsValid_iff.mp ((isSome_decode hfits _).mp hdecode).1
    exact hne (hvalid.2.2.1.trans (headerShapeIsValid_iff.mp hshape).2.2.1.symm)
  · -- the number of neighbours
    exact decode_neighborCount_set hrecord following hi ((walLayout.fields_fit _).mp hfit)
  · -- the deletion flag
    obtain rfl : i = 0 := Nat.lt_one_iff.mp hi
    exact decode_deleted_set hrecord following ((walLayout.fields_fit _).mp hfit)
  · -- the checksum
    change i < 4 at hi
    have hfits : RecordHeader.Fits { headerOf record with
      payload_checksum := Codec.changeByte 4
        (checksumPayload record.vector record.neighbors).toNat i byte } :=
          (walLayout.fields_fit _).mp hfit
    change (walCodec.decode _).isSome = true ↔ Unseen record following (37 + i) byte
    refine iff_of_false (fun hdecode => ?_) (not_unseen (by omega))
    exact hne ((isSome_decode_header hfits hdim rfl following).mp hdecode).2.symm

/-- A change in the payload. -/
theorem decode_payload_set (hrecord : record.Valid) (following : Bytes) {i : ℕ}
    (h : (wordsBytes record.vector ++ wordsBytes record.neighbors).set i byte ≠
      wordsBytes record.vector ++ wordsBytes record.neighbors) :
    (walCodec.decode (Codec.putFields (walLayout.fields (headerOf record)) ++
        ((wordsBytes record.vector ++ wordsBytes record.neighbors).set i byte ++
          following))).isSome = true ↔
      Unseen record following (41 + i) byte := by
  have hfits := headerOf_fits hrecord
  have hshape := headerShapeIsValid_headerOf hrecord
  have hdim : (headerOf record).dim = record.vector.length := hrecord.dim
  by_cases hvector : i < (wordsBytes record.vector).length
  · obtain ⟨vector, hlength, hbytes⟩ := exists_wordsBytes_set record.vector i byte
    have hlt := hvector
    rw [length_wordsBytes, wordBytes] at hlt
    rw [List.set_append_left _ _ hvector, ← hbytes, List.append_assoc, isSome_decode hfits]
    constructor
    · rintro ⟨-, vector', rest, neighbors, rest', hread, hneighbors, hsum⟩
      rw [hdim, ← hlength, readWords_wordsBytes] at hread
      cases hread
      rw [show (headerOf record).neighbor_count = record.neighbors.length from rfl,
        readWords_wordsBytes] at hneighbors
      cases hneighbors
      refine Or.inr (Or.inr (Or.inr ⟨Nat.le_add_right _ _, by rw [wordBytes]; omega, vector, ?_,
        UInt32.toNat_inj.mp hsum⟩))
      rw [Nat.add_sub_cancel_left, hbytes]
    · rintro (hunseen | hunseen | hunseen | ⟨-, -, vector', hbytes', hsum⟩)
      · omega
      · omega
      · omega
      · rw [Nat.add_sub_cancel_left, ← hbytes] at hbytes'
        have hsame : vector' = vector := by
          have hcount := congrArg List.length hbytes'
          rw [length_wordsBytes, length_wordsBytes, wordBytes] at hcount
          have hone := readWords_wordsBytes vector' []
          rw [hbytes', show vector'.length = vector.length by omega, readWords_wordsBytes] at hone
          cases hone
          rfl
        subst hsame
        refine ⟨hshape, vector', _, record.neighbors, following, ?_, readWords_wordsBytes _ _,
          congrArg UInt32.toNat hsum⟩
        rw [hdim, ← hlength, readWords_wordsBytes]
  · obtain ⟨neighbors, hlength, hbytes⟩ := exists_wordsBytes_set record.neighbors
      (i - (wordsBytes record.vector).length) byte
    -- behind the vector are the neighbours, whose checksum sees every byte
    have hge := not_lt.mp hvector
    rw [List.set_append_right _ _ hge] at h ⊢
    have hchanged : (wordsBytes record.neighbors).set (i - (wordsBytes record.vector).length) byte ≠
        wordsBytes record.neighbors := fun heq => h (by rw [heq])
    rw [length_wordsBytes, wordBytes] at hge
    rw [← hbytes, List.append_assoc, isSome_decode hfits]
    refine iff_of_false ?_ ?_
    · rintro ⟨-, vector', rest, neighbors', rest', hread, hneighbors, hsum⟩
      rw [hdim, readWords_wordsBytes] at hread
      cases hread
      rw [show (headerOf record).neighbor_count = record.neighbors.length from rfl, ← hlength,
        readWords_wordsBytes] at hneighbors
      cases hneighbors
      exact checksumPayload_neighbors_ne hbytes hchanged (UInt32.toNat_inj.mp hsum)
    · rintro (hunseen | hunseen | hunseen | ⟨-, hunseen, -⟩)
      · omega
      · omega
      · omega
      · rw [wordBytes] at hunseen
        omega

/-- The reader accepts a changed encoding exactly when the change is unseen. -/
theorem decode_set_iff (hrecord : record.Valid) (following : Bytes) {j : ℕ}
    (h : (walCodec.encode record).set j byte ≠ walCodec.encode record) :
    (walCodec.decode ((walCodec.encode record).set j byte ++ following)).isSome = true ↔
      Unseen record following j byte := by
  have hlength : (Codec.putFields (walLayout.fields (headerOf record))).length = 41 := by
    rw [Codec.length_putFields, walLayout.fields_fst]
    rfl
  rw [encode_eq] at h ⊢
  by_cases hheader : j < 41
  · rw [List.set_append_left _ _ (by rw [hlength]; exact hheader)] at h ⊢
    rw [List.append_assoc, List.append_assoc]
    exact decode_header_set hrecord following hheader fun heq => h (by rw [heq])
  · obtain ⟨i, rfl⟩ := Nat.exists_eq_add_of_le (not_lt.mp hheader)
    rw [List.set_append_right _ _ (by rw [hlength]; exact Nat.le_add_right 41 i), hlength,
      Nat.add_sub_cancel_left] at h ⊢
    rw [List.append_assoc]
    exact decode_payload_set hrecord following fun heq => h (by rw [heq])

end Decode

section Changed

variable {disk : Disk} {records : List DynamicRecord}

/-- For every list of records that were appended to an empty log, and every change of one byte of
it: the records in front of the changed one are returned, and what is returned is a prefix of the
list exactly when the reader sees the change. -/
theorem replay_changeLogByte (hempty : walBytes disk = [])
    (hpayload : ∀ record ∈ records, record.payloadBytes ≤ kMaxPayloadBytes)
    (hsequence : ∀ record ∈ records, record.sequence_id < 2 ^ 64)
    (hwritten : ((writeLog records).exec disk []).1 = true) {bytes : Bytes}
    (hbytes : ((writeLog records).exec disk []).2.store.read .wal = some bytes) {offset : ℕ}
    {byte : UInt8} (hchanged : bytes.set offset byte ≠ bytes) :
    let replayed := (replay.exec (changeLogByte ((writeLog records).exec disk []).2.store offset
      byte) []).1
    ∃ before record after j, records = before ++ record :: after ∧
      j < (walCodec.encode record).length ∧ offset = (walCodec.encodeAll before).length + j ∧
        before <+: replayed ∧
          (replayed <+: records ↔ ¬ Unseen record (walCodec.encodeAll after) j byte) := by
  obtain ⟨hread, hwritable⟩ := read_writeLog hempty hwritten
  have hvalid : ∀ record ∈ records, record.Valid := fun record h =>
    valid_of_writable (hwritable record h) (hpayload record h) (hsequence record h)
  intro replayed
  have hreplayed : replayed = walCodec.decodeAll ((walCodec.encodeAll records).set offset byte) := by
    change (replay.exec (changeLogByte _ offset byte) []).1 = _
    rw [changeLogByte, replay_modifyLog hread fun bytes => bytes.set offset byte, replayBytes]
  obtain rfl : bytes = walCodec.encodeAll records := Option.some.inj (hbytes.symm.trans hread)
  have hoffset : offset < (walCodec.encodeAll records).length := by
    by_contra hlarge
    exact hchanged (List.set_eq_of_length_le (not_lt.mp hlarge))
  obtain ⟨before, record, after, j, rfl, hj, rfl⟩ := walCodec.exists_encoding_of_lt hoffset
  have hbefore : ∀ b ∈ before, walCodec.Valid b := fun b h =>
    hvalid b (List.mem_append_left _ h)
  rw [walCodec.encodeAll_append, walCodec.encodeAll_cons,
    List.set_append_right _ _ (Nat.le_add_right _ _), Nat.add_sub_cancel_left,
    List.set_append_left _ _ hj] at hchanged
  have hencoding : (walCodec.encode record).set j byte ≠ walCodec.encode record :=
    fun heq => hchanged (by rw [heq])
  refine ⟨before, record, after, j, rfl, hj, rfl, ?_, ?_⟩
  · rw [hreplayed, walCodec.decodeAll_set hbefore hj]
    exact List.prefix_append _ _
  · rw [hreplayed, walCodec.decodeAll_set_prefix_iff hbefore hj hencoding, ← decode_set_iff
      (hvalid record (List.mem_append_right _ List.mem_cons_self)) _ hencoding,
      Bool.not_eq_true, Option.isSome_eq_false_iff, Option.isNone_iff_eq_none]

/-- The middle one of three erases, whose sequence id is read from another byte. -/
theorem replay_changeLogByte_erase :
    let first : DynamicRecord := { sequence_id := 1, node_id := 5, deleted := true }
    let middle : DynamicRecord := { sequence_id := 2, node_id := 7, deleted := true }
    let last : DynamicRecord := { sequence_id := 3, node_id := 9, deleted := true }
    let written := (writeLog [first, middle, last]).exec {} []
    let replayed := (replay.exec (changeLogByte written.2.store 49 4) []).1
    [first] <+: replayed ∧
      (replayed <+: [first, middle, last] ↔ ¬ Unseen middle (walCodec.encodeAll [last]) 8 4) := by
  intro first middle last written replayed
  have hread : written.2.store.read .wal = some (walCodec.encodeAll [first, middle, last]) := by
    decide +kernel
  obtain ⟨before, record, after, j, hrecords, hj, hoffset, hbefore, hiff⟩ :=
    replay_changeLogByte rfl (by decide) (by decide) (by decide +kernel) hread
      (show (walCodec.encodeAll [first, middle, last]).set 49 4 ≠ _ by decide +kernel)
  have hfirst : (walCodec.encode first).length = 41 := by decide +kernel
  have hmiddle : (walCodec.encode middle).length = 41 := by decide +kernel
  -- the byte is the ninth of the second record
  rcases before with _ | ⟨b, _ | ⟨b', before⟩⟩
  · obtain ⟨rfl, rfl⟩ := List.cons.inj hrecords
    simp only [PrefixCodec.encodeAll_nil, List.length_nil, hfirst] at hj hoffset
    omega
  · simp only [List.cons_append, List.nil_append, List.cons.injEq] at hrecords
    obtain ⟨rfl, rfl, rfl⟩ := hrecords
    obtain rfl : j = 8 := by
      simp only [PrefixCodec.encodeAll_cons, PrefixCodec.encodeAll_nil, List.length_append,
        List.length_nil, hfirst] at hoffset
      omega
    exact ⟨hbefore, hiff⟩
  · simp only [List.cons_append, List.cons.injEq] at hrecords
    obtain ⟨rfl, rfl, -⟩ := hrecords
    simp only [PrefixCodec.encodeAll_cons, List.length_append, hfirst, hmiddle] at hoffset
    omega

/-- An erase that is read with another sequence id than the one it was appended with. -/
theorem replay_sequence_changed :
    let records : List DynamicRecord := [{ sequence_id := 1, node_id := 7, deleted := true }]
    let written := (writeLog records).exec {} []
    written.1 = true ∧ (written.2.store.read .wal).map (fun bytes => bytes[8]?) = some (some 1) ∧
      (replay.exec (changeLogByte written.2.store 8 2) []).1 =
        [{ sequence_id := 2, node_id := 7, deleted := true }] ∧
      ¬ (replay.exec (changeLogByte written.2.store 8 2) []).1 <+: records := by
  decide +kernel

end Changed

end Dynamic
