import AgentAware.Dynamic.SSTable

/-!
# What a table writer writes, a table reader reads

The writer leaves, under the base path of its table and nowhere else, the bytes of the records, an
index with the offset of each, and the counts. A reader of these files finds exactly the records
written, in the order of their node ids.

## Main definitions

- `TableFrame` — two directories that differ at most in the files of one table
- `TableFiles` — the three files of a list of records

## Main results

- `wp_sstableWrite` — the writer produces `TableFiles` and stays within `TableFrame`
- `scan_of_tableFiles` — the reader returns the records of `TableFiles`
- `basePath_injective` — different tables have different base paths
-/

namespace Dynamic

theorem sstableName_injective {a b : ℕ} (h : sstableName a = sstableName b) : a = b := by
  have hval : ∀ n, Nat.ofDigitChars 10
      (List.replicate (6 - (Nat.toDigits 10 n).length) '0' ++ Nat.toDigits 10 n) 0 = n := by
    intro n
    rw [Nat.ofDigitChars_append, Nat.ofDigitChars_replicate_zero, Nat.mul_zero,
      Nat.ofDigitChars_ten_toDigits]
  simp only [sstableName, String.append_right_inj, String.ofList_inj] at h
  rw [← hval a, ← hval b, h]

theorem basePath_injective {a b : ℕ} (h : basePath a = basePath b) : a = b :=
  sstableName_injective (String.append_right_inj _ |>.mp h)

/-- The index entries of records stored from `offset` on. -/
def entriesBytes : ℕ → List DynamicRecord → Bytes
  | _, [] => []
  | offset, record :: records =>
    Codec.putFields (indexEntryFields record offset) ++
      entriesBytes (offset + (sstableCodec.encode record).length) records

def indexBytes (records : List DynamicRecord) : Bytes :=
  Codec.putFields (indexHeaderFields records.length) ++ entriesBytes 0 records

def tableMeta (sstable_id : ℕ) (level : ℤ) (records : List DynamicRecord) : SSTableMeta where
  version := kSSTableVersion
  sstable_id := sstable_id
  level := level
  record_count := records.length
  min_sequence_id := minSequenceId records
  max_sequence_id := maxSequenceId records

/-- `disk'` differs from `disk` at most in the files of the table at `base`. -/
structure TableFrame (base : String) (disk disk' : Disk) : Prop where
  manifest : disk'.manifest = disk.manifest
  files : ∀ path, path ≠ .data base → path ≠ .index base → disk'.files path = disk.files path
  metas : ∀ b, b ≠ base → disk'.metas b = disk.metas b

/-- The files at `base` are those of `records`, with nothing left in a stream. -/
structure TableFiles (disk : Disk) (base : String) (records : List DynamicRecord)
    (value : SSTableMeta) : Prop where
  data : disk.files (.data base) = some { synced := sstableCodec.encodeAll records }
  index : disk.files (.index base) = some { synced := indexBytes records }
  value : disk.metas base = some value

theorem entriesBytes_append (offset : ℕ) (records records' : List DynamicRecord) :
    entriesBytes offset (records ++ records') =
      entriesBytes offset records ++
        entriesBytes (offset + (sstableCodec.encodeAll records).length) records' := by
  induction records generalizing offset with
  | nil => simp [entriesBytes]
  | cons record records ih =>
    simp only [List.cons_append, entriesBytes, ih, PrefixCodec.encodeAll_cons, List.length_append,
      List.append_assoc, Nat.add_assoc]

namespace TableFrame

variable {base : String} {disk disk' disk'' : Disk}

theorem refl (base : String) (disk : Disk) : TableFrame base disk disk :=
  ⟨rfl, fun _ _ _ => rfl, fun _ _ => rfl⟩

theorem trans (h : TableFrame base disk disk') (h' : TableFrame base disk' disk'') :
    TableFrame base disk disk'' :=
  ⟨h'.manifest.trans h.manifest,
    fun path hd hi => (h'.files path hd hi).trans (h.files path hd hi),
    fun b hb => (h'.metas b hb).trans (h.metas b hb)⟩

theorem setFile {path : Path} (hpath : path = .data base ∨ path = .index base)
    (file : Option File) : TableFrame base disk (disk.setFile path file) := by
  refine ⟨rfl, fun path' hd hi => setFile_files_of_ne disk ?_ file, fun _ _ => rfl⟩
  rcases hpath with rfl | rfl
  · exact hd
  · exact hi

theorem modifyFile {path : Path} (hpath : path = .data base ∨ path = .index base)
    (f : File → File) : TableFrame base disk (disk.modifyFile path f) :=
  setFile hpath _

theorem setMeta (value : Option SSTableMeta) : TableFrame base disk (disk.setMeta base value) :=
  ⟨rfl, fun _ _ _ => rfl, fun _ hb => setMeta_metas_of_ne disk hb value⟩

end TableFrame

section Writer

variable {base : String} {disk : Disk}

/-- Chunks written to a file of the table are appended to it; nothing else changes. -/
theorem wp_writeTableFile {α : Type} {path : Path} {file : File} (chunk : α → Bytes)
    (as : List α) (hpath : path = .data base ∨ path = .index base)
    (hfile : disk.files path = some file) :
    (Prog.forEach (fun a => write path (chunk a)) as).wp Prog.Quiet
      (fun _ d => TableFrame base disk d)
      (fun ok d => ok = true ∧
        d = disk.modifyFile path fun file => file.append (as.map chunk).flatten) disk := by
  refine Prog.wp_mono (wp_writeAll chunk as hfile) (fun _ _ => id) fun _ d hd => ?_
  obtain ⟨p, _, _, rfl⟩ := hd
  exact TableFrame.modifyFile hpath _

theorem flatten_putFields (fields : List (ℕ × ℕ)) :
    (fields.map fun f => Codec.putLE f.1 f.2).flatten = Codec.putFields fields := by
  induction fields with
  | nil => rfl
  | cons f fields ih => rw [List.map_cons, List.flatten_cons, ih]; rfl

theorem wp_writeFields {file : File} (fields : List (ℕ × ℕ))
    (hfile : disk.files (.index base) = some file) :
    (writeFields (.index base) fields).wp Prog.Quiet (fun _ d => TableFrame base disk d)
      (fun ok d => ok = true ∧ d = disk.modifyFile (.index base) fun file =>
        file.append (Codec.putFields fields)) disk := by
  rw [← flatten_putFields]
  exact wp_writeTableFile (fun f => Codec.putLE f.1 f.2) fields (.inr rfl) hfile

theorem wp_writeRecord {file : File} {record : DynamicRecord} (hwritable : writable record = true)
    (hfile : disk.files (.data base) = some file) :
    (writeRecord base record).wp Prog.Quiet (fun _ d => TableFrame base disk d)
      (fun ok d => ok = true ∧ d = disk.modifyFile (.data base) fun file =>
        file.append (sstableCodec.encode record)) disk := by
  have hwrite := wp_writeTableFile id (recordChunks sstableLayout record) (.inl rfl) hfile
  rw [List.map_id, recordChunks_flatten] at hwrite
  rw [writeRecord, if_pos hwritable]
  exact hwrite

/-- One turn of the writer's loop. -/
theorem wp_writeRecordAndEntry {data index : File} {record : DynamicRecord}
    (hwritable : writable record = true) (hdata : disk.files (.data base) = some data)
    (hindex : disk.files (.index base) = some index) :
    (writeRecordAndEntry base record).wp Prog.Quiet (fun _ d => TableFrame base disk d)
      (fun ok d => ok = true ∧ TableFrame base disk d ∧
        d.files (.data base) = some (data.append (sstableCodec.encode record)) ∧
        d.files (.index base) = some (index.append
          (Codec.putFields (indexEntryFields record data.contents.length)))) disk := by
  rw [writeRecordAndEntry, Prog.wp_bind, Prog.wp_look]
  simp only [hdata, Option.getD_some, Prog.wp_bind]
  refine Prog.wp_post (wp_writeRecord hwritable hdata) ?_
  rintro _ d ⟨rfl, rfl⟩
  have hframe : TableFrame base disk _ := TableFrame.modifyFile (.inl rfl)
    fun file => file.append (sstableCodec.encode record)
  have hindex' : (disk.modifyFile (.data base) fun file =>
      file.append (sstableCodec.encode record)).files (.index base) = some index := by
    rw [modifyFile_files_of_ne _ (by simp), hindex]
  rw [if_pos rfl]
  refine Prog.wp_mono (wp_writeFields _ hindex') ?_ fun _ d hd => hframe.trans hd
  rintro _ d ⟨rfl, rfl⟩
  refine ⟨rfl, hframe.trans (TableFrame.modifyFile (.inr rfl) _), ?_, ?_⟩
  · rw [modifyFile_files_of_ne _ (by simp), modifyFile_files_self, hdata]
    rfl
  · rw [modifyFile_files_self, hindex']
    rfl

/-- The writer's loop: the data file holds the records written so far, the index file the header
and their entries. -/
theorem wp_writeRecords (header : Bytes) {records : List DynamicRecord}
    (hwritable : ∀ record ∈ records, writable record = true)
    (hdata : disk.files (.data base) = some {})
    (hindex : disk.files (.index base) = some { buffered := header }) :
    (Prog.forEach (writeRecordAndEntry base) records).wp Prog.Quiet
      (fun _ d => TableFrame base disk d)
      (fun ok d => ok = true ∧ TableFrame base disk d ∧
        d.files (.data base) = some { buffered := sstableCodec.encodeAll records } ∧
        d.files (.index base) = some { buffered := header ++ entriesBytes 0 records }) disk := by
  refine Prog.wp_post (Prog.wp_forEach (fun done d => TableFrame base disk d ∧
      d.files (.data base) = some { buffered := sstableCodec.encodeAll done } ∧
      d.files (.index base) = some { buffered := header ++ entriesBytes 0 done })
    (fun _ => False) records ?_ ⟨.refl _ _, hdata, by simpa [entriesBytes] using hindex⟩) ?_
  · rintro done record rest d rfl ⟨hframe, hd, hi⟩
    have hrecord := hwritable record (by simp)
    refine Prog.wp_mono (wp_writeRecordAndEntry hrecord hd hi) ?_ fun _ d' hd' => hframe.trans hd'
    rintro _ d' ⟨rfl, hframe', hd', hi'⟩
    rw [if_pos rfl]
    refine ⟨hframe.trans hframe', ?_, ?_⟩
    · rw [hd']
      simp [File.append]
    · rw [hi']
      simp [File.append, File.contents, entriesBytes_append, entriesBytes]
  · rintro ok d hd
    cases ok with
    | true => exact ⟨rfl, hd⟩
    | false => exact hd.elim

/-- Without I/O errors the writer succeeds, leaves the files of the deduplicated records, and
touches no other file. -/
theorem wp_sstableWrite (sstable_id : ℕ) (level : ℤ) (records : List DynamicRecord) (disk : Disk)
    (hwritable : ∀ record ∈ deduplicateNewest records, writable record = true) :
    (SSTableWriter.write sstable_id level records).wp Prog.Quiet
      (fun _ d => TableFrame (basePath sstable_id) disk d)
      (fun ok d => ok = true ∧ TableFrame (basePath sstable_id) disk d ∧
        TableFiles d (basePath sstable_id) (deduplicateNewest records)
          (tableMeta sstable_id level (deduplicateNewest records))) disk := by
  have hframe₂ : TableFrame (basePath sstable_id) disk
      ((disk.setFile (.data (basePath sstable_id)) (some {})).setFile
        (.index (basePath sstable_id)) (some {})) :=
    (TableFrame.setFile (.inl rfl) _).trans (TableFrame.setFile (.inr rfl) _)
  rw [SSTableWriter.write]
  simp only [Prog.wp_bind, Prog.wp_probe_quiet, create, Prog.wp_attempt_quiet, if_true,
    Bool.and_self]
  refine ⟨.refl _ _, TableFrame.setFile (.inl rfl) _, hframe₂, ?_⟩
  refine Prog.wp_mono (wp_writeFields (indexHeaderFields _) (setFile_files_self _ _ _)) ?_
    fun _ d hd => hframe₂.trans hd
  rintro _ d₃ ⟨rfl, rfl⟩
  have hframe₃ := hframe₂.trans (TableFrame.modifyFile (.inr rfl) fun file =>
    file.append (Codec.putFields (indexHeaderFields (deduplicateNewest records).length)))
  rw [if_pos rfl, Prog.wp_bind]
  refine Prog.wp_mono (wp_writeRecords
    (Codec.putFields (indexHeaderFields (deduplicateNewest records).length)) hwritable ?_ ?_) ?_
    fun _ d hd => hframe₃.trans hd
  · rw [modifyFile_files_of_ne _ (by simp), setFile_files_of_ne _ (by simp), setFile_files_self]
  · rw [modifyFile_files_self, setFile_files_self]
    rfl
  rintro _ d₄ ⟨rfl, hframe₄, hdata, hindex⟩
  have hframe := hframe₃.trans hframe₄
  simp only [Prog.wp_bind, flush, writeMetaFile, Prog.wp_attempt_quiet, if_true, Bool.and_self]
  have hdata' := hframe.trans (TableFrame.modifyFile (.inl rfl) File.flush)
  have hindex' := hdata'.trans (TableFrame.modifyFile (.inr rfl) File.flush)
  refine ⟨hdata', hindex', hindex'.trans (TableFrame.setMeta none),
    (hindex'.trans (TableFrame.setMeta none)).trans (TableFrame.setMeta _), trivial,
    (hindex'.trans (TableFrame.setMeta none)).trans (TableFrame.setMeta _), ?_, ?_, ?_⟩
  · simp only [setMeta_files]
    rw [modifyFile_files_of_ne _ (by simp), modifyFile_files_self, hdata]
    simp [File.flush, File.contents]
  · simp only [setMeta_files]
    rw [modifyFile_files_self, modifyFile_files_of_ne _ (by simp), hindex]
    simp [File.flush, File.contents, indexBytes]
  · simp [tableMeta]

end Writer

section Reader

variable {disk : Disk} {reader : SSTableReader} {node_id : NodeId} {record : DynamicRecord}

theorem node_id_of_find (h : reader.find disk node_id = some record) :
    record.node_id = node_id := by
  rw [SSTableReader.find] at h
  split at h
  · cases h
  · split at h
    · cases h
    · split at h
      · next hcheck =>
        cases h
        exact hcheck.1
      · cases h

theorem mem_keys_of_find (h : reader.find disk node_id = some record) :
    node_id ∈ reader.index.keys := by
  rw [SSTableReader.find] at h
  split at h
  · cases h
  · next entry hlookup =>
    exact AList.mem_keys.mp (AList.lookup_isSome.mp (by rw [hlookup]; rfl))

theorem valid_of_find (h : reader.find disk node_id = some record) : record.Valid := by
  rw [SSTableReader.find] at h
  split at h
  · cases h
  split at h
  · cases h
  next r hread =>
  split at h
  case isFalse => cases h
  cases h
  rw [SSTableReader.readRecordAt] at hread
  split at hread
  · cases hread
  obtain ⟨⟨r', rest⟩, hdecode, rfl⟩ := Option.map_eq_some_iff.mp hread
  exact (sstableCodec.encode_of_decode hdecode).1

/-- A scan returns the records `find` has, and no others. -/
theorem mem_scan : record ∈ reader.scan disk ↔ reader.find disk record.node_id = some record := by
  rw [SSTableReader.scan, List.mem_insertionSort, List.mem_filterMap]
  constructor
  · rintro ⟨node_id, _, h⟩
    rw [node_id_of_find h, h]
  · intro h
    exact ⟨record.node_id, mem_keys_of_find h, h⟩

theorem scan_sorted (disk : Disk) (reader : SSTableReader) :
    (reader.scan disk).Pairwise fun a b => a.node_id < b.node_id := by
  have hle : (reader.scan disk).Pairwise fun a b => a.node_id ≤ b.node_id := by
    have : IsTrans DynamicRecord fun a b => a.node_id ≤ b.node_id := ⟨fun _ _ _ => le_trans⟩
    have : Std.Total fun a b : DynamicRecord => a.node_id ≤ b.node_id :=
      ⟨fun a b => le_total a.node_id b.node_id⟩
    exact List.pairwise_insertionSort _ _
  have hnodup : ((reader.scan disk).map DynamicRecord.node_id).Nodup := by
    have hperm := (List.perm_insertionSort (fun a b => a.node_id ≤ b.node_id)
      (reader.index.keys.filterMap (reader.find disk))).map DynamicRecord.node_id
    refine hperm.nodup_iff.mpr ?_
    rw [List.map_filterMap]
    refine List.Nodup.filterMap ?_ reader.index.keys_nodup
    intro a a' b hb hb'
    obtain ⟨r, hr, rfl⟩ := Option.map_eq_some_iff.mp hb
    obtain ⟨r', hr', heq⟩ := Option.map_eq_some_iff.mp hb'
    rw [← node_id_of_find hr, ← node_id_of_find hr', heq]
  rw [List.Nodup, List.pairwise_map] at hnodup
  exact (hle.and hnodup).imp fun h => lt_of_le_of_ne h.1 h.2

/-- Lists of records in the order of their node ids are equal when they have the same members. -/
theorem eq_of_sorted_of_mem_iff {records records' : List DynamicRecord}
    (h : records.Pairwise fun a b => a.node_id < b.node_id)
    (h' : records'.Pairwise fun a b => a.node_id < b.node_id)
    (hmem : ∀ record, record ∈ records ↔ record ∈ records') : records = records' := by
  have hnodup : ∀ {l : List DynamicRecord}, l.Pairwise (fun a b => a.node_id < b.node_id) →
      l.Nodup := fun hl => hl.imp fun hlt heq => absurd (heq ▸ hlt) (lt_irrefl _)
  refine List.Perm.eq_of_pairwise ?_ h h'
    ((List.perm_ext_iff_of_nodup (hnodup h) (hnodup h')).mpr hmem)
  intro a b _ _ hab hba
  exact absurd (hab.trans hba) (lt_irrefl _)

end Reader

section ReadBack

/-- The index of records stored from `offset` on. -/
def indexOf : ℕ → List DynamicRecord → (AList fun _ : NodeId => IndexEntry) →
    AList fun _ : NodeId => IndexEntry
  | _, [], index => index
  | offset, record :: records, index =>
    indexOf (offset + (sstableCodec.encode record).length) records
      (index.insert record.node_id ⟨record.sequence_id, offset⟩)

theorem metaLoadable_iff {value : SSTableMeta} :
    metaLoadable value = true ↔ value.version = kSSTableVersion ∧ value.sstable_id < 2 ^ 63 ∧
      value.record_count < 2 ^ 63 ∧ value.min_sequence_id < 2 ^ 63 ∧
      value.max_sequence_id < 2 ^ 63 ∧ -2 ^ 31 ≤ value.level ∧ value.level < 2 ^ 31 := by
  simp only [metaLoadable, Bool.and_eq_true, beq_iff_eq, decide_eq_true_eq, and_assoc]

theorem length_encode_lt {record : DynamicRecord} (h : record.Valid) :
    (sstableCodec.encode record).length < 2 ^ 30 := by
  have hlen : (sstableCodec.encode record).length = 39 + record.payloadBytes :=
    length_encodeRecord sstableLayout record
  have hpayload := h.payload
  rw [kMaxPayloadBytes] at hpayload
  omega

theorem length_encodeAll_le {records : List DynamicRecord}
    (h : ∀ record ∈ records, record.Valid) :
    (sstableCodec.encodeAll records).length ≤ records.length * 2 ^ 30 := by
  induction records with
  | nil => simp
  | cons record records ih =>
    have hfirst := length_encode_lt (h record List.mem_cons_self)
    have hrest := ih fun r hr => h r (List.mem_cons_of_mem _ hr)
    rw [PrefixCodec.encodeAll_cons, List.length_append, List.length_cons]
    omega

/-- Node ids are 32-bit, so a table has at most `2 ^ 32` records. -/
theorem length_le_of_sorted {records : List DynamicRecord}
    (h : records.Pairwise fun a b => a.node_id < b.node_id) : records.length ≤ 2 ^ 32 := by
  have hnodup : (records.map fun record => record.node_id.toNat).Nodup := by
    rw [List.Nodup, List.pairwise_map]
    exact h.imp fun hlt => Nat.ne_of_lt (UInt32.lt_iff_toNat_lt.mp hlt)
  have hsub : ∀ n ∈ records.map fun record => record.node_id.toNat, n ∈ List.range (2 ^ 32) := by
    intro n hn
    obtain ⟨record, _, rfl⟩ := List.mem_map.mp hn
    exact List.mem_range.mpr record.node_id.toNat_lt
  have hle := (List.subperm_of_subset hnodup hsub).length_le
  rwa [List.length_map, List.length_range] at hle

theorem readIndexEntries_entriesBytes {offset : ℕ} {records : List DynamicRecord}
    {index : AList fun _ : NodeId => IndexEntry} (rest : Bytes)
    (hvalid : ∀ record ∈ records, record.Valid)
    (hoffset : offset + (sstableCodec.encodeAll records).length < 2 ^ 64) :
    readIndexEntries records.length (entriesBytes offset records ++ rest) index =
      some (indexOf offset records index) := by
  induction records generalizing offset index with
  | nil => rfl
  | cons record records ih =>
    rw [PrefixCodec.encodeAll_cons, List.length_append] at hoffset
    have hfit : Codec.FieldsFit (indexEntryFields record offset) := by
      intro f hf
      simp only [indexEntryFields, List.mem_cons, List.not_mem_nil, or_false] at hf
      rcases hf with rfl | rfl | rfl
      · exact lt_trans record.node_id.toNat_lt (by decide : 2 ^ 32 < 256 ^ 8)
      · exact (hvalid record List.mem_cons_self).sequence_id
      · exact lt_of_le_of_lt (Nat.le_add_right _ _) hoffset
    have hread := Codec.readFields_putFields (indexEntryFields record offset) hfit
      (entriesBytes (offset + (sstableCodec.encode record).length) records ++ rest)
    have hnode : record.node_id.toNat ≤ maxUInt32 := by
      have hlt := record.node_id.toNat_lt
      rw [maxUInt32]
      omega
    rw [List.length_cons, entriesBytes, List.append_assoc, readIndexEntries]
    simp only [indexEntryFields, List.map_cons, List.map_nil] at hread ⊢
    rw [hread]
    simp only [hnode, if_true, UInt32.ofNat_toNat]
    exact ih (fun r hr => hvalid r (List.mem_cons_of_mem _ hr)) (by omega)

theorem readIndex_indexBytes {records : List DynamicRecord}
    (hvalid : ∀ record ∈ records, record.Valid)
    (hsorted : records.Pairwise fun a b => a.node_id < b.node_id) :
    readIndex records.length (indexBytes records) = some (indexOf 0 records ∅) := by
  have hcount := length_le_of_sorted hsorted
  have hbytes := length_encodeAll_le hvalid
  have hfit : Codec.FieldsFit (indexHeaderFields records.length) := by
    intro f hf
    simp only [indexHeaderFields, List.mem_cons, List.not_mem_nil, or_false] at hf
    rcases hf with rfl | rfl | rfl
    · decide
    · decide
    · exact lt_of_le_of_lt hcount (by decide : 2 ^ 32 < 256 ^ 8)
  have hread := Codec.readFields_putFields (indexHeaderFields records.length) hfit
    (entriesBytes 0 records)
  have hentries : readIndexEntries records.length (entriesBytes 0 records ++ []) ∅ =
      some (indexOf 0 records ∅) := readIndexEntries_entriesBytes [] hvalid (by omega)
  rw [List.append_nil] at hentries
  simp only [indexHeaderFields, List.map_cons, List.map_nil] at hread
  rw [readIndex, indexBytes]
  simp only [indexHeaderFields, hread, and_self, if_true, hentries]

theorem lookup_indexOf_of_not_mem {offset : ℕ} {records : List DynamicRecord}
    {index : AList fun _ : NodeId => IndexEntry} {node_id : NodeId}
    (h : ∀ record ∈ records, record.node_id ≠ node_id) :
    (indexOf offset records index).lookup node_id = index.lookup node_id := by
  induction records generalizing offset index with
  | nil => rfl
  | cons record records ih =>
    rw [indexOf, ih fun r hr => h r (List.mem_cons_of_mem _ hr)]
    exact AList.lookup_insert_ne (h record List.mem_cons_self).symm

theorem lookup_indexOf {offset : ℕ} {before after : List DynamicRecord} {record : DynamicRecord}
    {index : AList fun _ : NodeId => IndexEntry}
    (h : ∀ r ∈ after, r.node_id ≠ record.node_id) :
    (indexOf offset (before ++ record :: after) index).lookup record.node_id =
      some ⟨record.sequence_id, offset + (sstableCodec.encodeAll before).length⟩ := by
  induction before generalizing offset index with
  | nil =>
    rw [List.nil_append, indexOf, lookup_indexOf_of_not_mem h, AList.lookup_insert]
    simp
  | cons r before ih =>
    rw [List.cons_append, indexOf, ih, PrefixCodec.encodeAll_cons, List.length_append,
      Nat.add_assoc]

variable {disk : Disk} {base : String} {records : List DynamicRecord} {value : SSTableMeta}

/-- The reader of the files of `records`. -/
def readerOf (base : String) (records : List DynamicRecord) (value : SSTableMeta) :
    SSTableReader where
  base_path := base
  index := indexOf 0 records ∅
  id := value.sstable_id
  level := value.level
  record_count := value.record_count
  min_sequence_id := value.min_sequence_id
  max_sequence_id := value.max_sequence_id

theorem openFiles_of_tableFiles (h : TableFiles disk base records value)
    (hcount : value.record_count = records.length)
    (hvalid : ∀ record ∈ records, record.Valid)
    (hsorted : records.Pairwise fun a b => a.node_id < b.node_id) :
    SSTableReader.openFiles disk base =
      if metaLoadable value then some (readerOf base records value) else none := by
  have hindex : disk.read (.index base) = some (indexBytes records) := by
    rw [Disk.read, h.index]
    rfl
  rw [SSTableReader.openFiles, h.value]
  simp only [hindex, hcount, readIndex_indexBytes hvalid hsorted, h.data, Option.isSome_some,
    if_true, readerOf]

/-- The reader of a list of records returns that list. -/
theorem scan_of_tableFiles (h : TableFiles disk base records value)
    (hvalid : ∀ record ∈ records, record.Valid)
    (hsorted : records.Pairwise fun a b => a.node_id < b.node_id) :
    (readerOf base records value).scan disk = records := by
  refine eq_of_sorted_of_mem_iff (scan_sorted disk (readerOf base records value)) hsorted
    fun record => ?_
  rw [mem_scan]
  have hfind : ∀ r ∈ records, (readerOf base records value).find disk r.node_id = some r := by
    intro r hr
    obtain ⟨before, after, rfl⟩ := List.append_of_mem hr
    have hafter : ∀ r' ∈ after, r'.node_id ≠ r.node_id := fun r' hr' =>
      ((List.pairwise_cons.mp (List.pairwise_append.mp hsorted).2.1).1 r' hr').ne'
    have hdecode := sstableCodec.decode_encode r (sstableCodec.encodeAll after)
      (hvalid r (by simp))
    have hread : SSTableReader.readRecordAt disk base (sstableCodec.encodeAll before).length =
        some r := by
      rw [SSTableReader.readRecordAt, Disk.read, h.data]
      simp only [Option.map_some, PrefixCodec.encodeAll_append, PrefixCodec.encodeAll_cons,
        List.drop_left, hdecode]
    have hlookup : (readerOf base (before ++ r :: after) value).index.lookup r.node_id =
        some ⟨r.sequence_id, (sstableCodec.encodeAll before).length⟩ := by
      rw [readerOf, lookup_indexOf hafter, Nat.zero_add]
    have hpath : (readerOf base (before ++ r :: after) value).base_path = base := rfl
    simp only [SSTableReader.find, hlookup, hpath, hread, and_self, if_true]
  constructor
  · intro hrecord
    have hmem := mem_keys_of_find hrecord
    by_contra hnot
    have hnone : (indexOf 0 records ∅).lookup record.node_id = none := by
      by_cases hnode : ∃ r ∈ records, r.node_id = record.node_id
      · obtain ⟨r, hr, hrn⟩ := hnode
        have hr' := hfind r hr
        rw [hrn, hrecord] at hr'
        exact absurd (Option.some.inj hr' ▸ hr) hnot
      · rw [lookup_indexOf_of_not_mem fun r hr hrn => hnode ⟨r, hr, hrn⟩]
        rfl
    rw [← AList.mem_keys, ← AList.lookup_isSome] at hmem
    rw [readerOf] at hmem
    simp [hnone] at hmem
  · exact hfind record

end ReadBack

section Quiet

variable {R : Disk → Disk → Prop} {disk : Disk}

theorem wp_open {base : String} {Q : Option SSTableReader → Disk → Prop} (hR : R disk disk)
    (hQ : Q (SSTableReader.openFiles disk base) disk) :
    (SSTableReader.open base).wp Prog.Quiet R Q disk := by
  simp [SSTableReader.open, hR, hQ]

theorem wp_collect {reader : SSTableReader} {node_ids : List NodeId}
    {Q : List DynamicRecord → Disk → Prop} (hR : R disk disk)
    (hQ : Q (node_ids.filterMap (reader.find disk)) disk) :
    (reader.collect node_ids).wp Prog.Quiet R Q disk := by
  induction node_ids generalizing Q with
  | nil => exact hQ
  | cons node_id node_ids ih =>
    rw [List.filterMap_cons] at hQ
    simp only [SSTableReader.collect, SSTableReader.get, Prog.wp_bind, Prog.wp_look,
      Prog.wp_probe_quiet, if_true, Prog.wp_pure]
    refine ⟨hR, ?_⟩
    cases hfind : reader.find disk node_id with
    | none =>
      rw [hfind] at hQ
      exact ih hQ
    | some record =>
      rw [hfind] at hQ
      exact Prog.wp_bind.mpr (ih hQ)

theorem wp_scanAll {reader : SSTableReader} {Q : List DynamicRecord → Disk → Prop}
    (hR : R disk disk) (hQ : Q (reader.scan disk) disk) :
    reader.scanAll.wp Prog.Quiet R Q disk := by
  rw [SSTableReader.scanAll, Prog.wp_bind]
  exact wp_collect hR hQ

end Quiet

end Dynamic
