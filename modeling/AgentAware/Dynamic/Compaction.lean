import AgentAware.Dynamic.SSTableInternal

/-!
# Compaction

A compaction job reads every record of its input tables, keeps the newest of every node and writes
them as one table.
-/

namespace Dynamic

structure CompactionInput where
  input_tables : List SSTableReader
  output_sstable_id : ℕ
  output_level : ℤ := 1

structure CompactionResult where
  success : Bool := false
  output_base_path : String
  input_record_count : ℕ := 0
  output_record_count : ℕ := 0

/-- The records of the input tables, one table after the other. -/
def readTables : List SSTableReader → Prog Disk (List DynamicRecord)
  | [] => pure []
  | table :: tables => do
    let table_records ← table.scanAll
    let records ← readTables tables
    return table_records ++ records

def CompactionJob.run (input : CompactionInput) : Prog Disk CompactionResult := do
  let output_base_path := basePath input.output_sstable_id
  if input.input_tables.isEmpty then
    return { output_base_path := output_base_path }
  else
    let records ← readTables input.input_tables
    let compacted := deduplicateNewest records
    let success ← SSTableWriter.write input.output_sstable_id input.output_level compacted
    return { success := success
             output_base_path := output_base_path
             input_record_count := records.length
             output_record_count := compacted.length }

/-- The readable records of some tables. -/
def scanTables (disk : Disk) (tables : List SSTableReader) : List DynamicRecord :=
  tables.flatMap fun table => table.scan disk

theorem wp_readTables {R : Disk → Disk → Prop} {Q : List DynamicRecord → Disk → Prop} {disk : Disk}
    {tables : List SSTableReader} (hR : R disk disk) (hQ : Q (scanTables disk tables) disk) :
    (readTables tables).wp Prog.Quiet R Q disk := by
  induction tables generalizing Q with
  | nil => exact hQ
  | cons table tables ih =>
    rw [readTables, Prog.wp_bind]
    refine wp_scanAll hR ?_
    rw [Prog.wp_bind]
    exact ih hQ

theorem deduplicateNewest_deduplicateNewest (records : List DynamicRecord) :
    deduplicateNewest (deduplicateNewest records) = deduplicateNewest records := by
  refine eq_of_sorted_of_mem_iff (deduplicateNewest_sorted _) (deduplicateNewest_sorted _)
    fun record => ?_
  rw [mem_deduplicateNewest, mem_deduplicateNewest, newestOf, deduplicateNewest,
    Versions.newest_newestList]

theorem valid_of_mem_scanTables {disk : Disk} {tables : List SSTableReader}
    {record : DynamicRecord} (h : record ∈ scanTables disk tables) : record.Valid := by
  obtain ⟨table, _, hrecord⟩ := List.mem_flatMap.mp h
  exact valid_of_find (mem_scan.mp hrecord)

/-- Without I/O errors the job writes the newest readable record of every node. -/
theorem wp_compactionJob {disk : Disk} {input : CompactionInput} (hne : input.input_tables ≠ []) :
    (CompactionJob.run input).wp Prog.Quiet
      (fun _ d => TableFrame (basePath input.output_sstable_id) disk d)
      (fun result d => result.success = true ∧
        result.output_base_path = basePath input.output_sstable_id ∧
        TableFrame (basePath input.output_sstable_id) disk d ∧
        TableFiles d (basePath input.output_sstable_id)
          (deduplicateNewest (scanTables disk input.input_tables))
          (tableMeta input.output_sstable_id input.output_level
            (deduplicateNewest (scanTables disk input.input_tables)))) disk := by
  have hempty : input.input_tables.isEmpty = false := by
    simpa using hne
  have hwrite := wp_sstableWrite input.output_sstable_id input.output_level
    (deduplicateNewest (scanTables disk input.input_tables)) disk
    fun r hr => writable_of_valid (valid_of_mem_scanTables ((deduplicateNewest_covers _).1 r
      ((deduplicateNewest_covers _).1 r hr)))
  rw [deduplicateNewest_deduplicateNewest] at hwrite
  simp only [CompactionJob.run, hempty, Bool.false_eq_true, if_false, Prog.wp_bind]
  refine wp_readTables (.refl _ _) ?_
  refine Prog.wp_post hwrite ?_
  rintro _ d ⟨rfl, hframe, hfiles⟩
  exact ⟨rfl, rfl, hframe, hfiles⟩

end Dynamic
