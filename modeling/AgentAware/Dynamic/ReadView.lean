import AgentAware.Dynamic.DynamicRecord
import AgentAware.Lib.TopK
import Mathlib.Data.Prod.Lex

/-!
# Reads at a sequence

Readers hold no lock: they load the published read view and compute on its history. Every read
takes the newest record of a node among those with a sequence id up to the one the reader chose.

Distances are a parameter: `squared_l2` is any function into a linear order.

## Main definitions

- `DynamicReadView` — what is published
- `uniqueRecordVersions`, `deduplicateNewestAt`, `latestRecordFromHistory`,
  `latestRecordsForFromHistory`, `searchDeltaL2At` — the readers' computations
-/

namespace Dynamic

/-- The first record of every node and sequence id. -/
def uniqueRecordVersions (records : List DynamicRecord) : List DynamicRecord :=
  Versions.firsts (fun record => (record.node_id, record.sequence_id)) records

def deduplicateNewestAt (records : List DynamicRecord) (read_sequence : ℕ) :
    List DynamicRecord :=
  deduplicateNewest (records.filter fun record => record.sequence_id ≤ read_sequence)

/-- The loop keeps the newest record met so far, skipping other nodes and later sequence ids. -/
def latestRecordFromHistory (records : List DynamicRecord) (node_id : NodeId)
    (read_sequence : ℕ) (include_deleted : Bool) : Option DynamicRecord :=
  let latest := records.foldl (fun latest record =>
    if record.node_id ≠ node_id ∨ record.sequence_id > read_sequence then latest
    else match latest with
      | none => some record
      | some found => if record.sequence_id > found.sequence_id then some record else some found)
    none
  match latest with
  | none => none
  | some found => if found.deleted && !include_deleted then none else some found

/-- The same for a list of nodes at once, as a table. -/
def latestRecordsForFromHistory (records : List DynamicRecord) (node_ids : List NodeId)
    (read_sequence : ℕ) (include_deleted : Bool) : AList fun _ : NodeId => DynamicRecord :=
  let latest := records.foldl (fun latest record =>
    if record.sequence_id > read_sequence ∨ record.node_id ∉ node_ids then latest
    else match latest.lookup record.node_id with
      | none => latest.insert record.node_id record
      | some found =>
        if record.sequence_id > found.sequence_id then latest.insert record.node_id record
        else latest)
    ∅
  if include_deleted then latest
  else latest.keys.foldl (fun table node_id =>
    match table.lookup node_id with
    | some record => if record.deleted then table.erase node_id else table
    | none => table) latest

structure DynamicReadView where
  opened : Bool := false
  latest_sequence : ℕ := 0
  history_records : List DynamicRecord := []

structure DynamicSnapshot where
  read_sequence : ℕ := 0
  records : List DynamicRecord := []
  deleted_count : ℕ := 0

/-- A record with its distance from the query. -/
structure ScoredRecord (D : Type) where
  record : DynamicRecord
  distance : D

section Search

variable {D : Type} [LinearOrder D] (squared_l2 : List FloatBits → List FloatBits → D)

/-- The order of `scored_less`: by distance, then by node id. -/
def ScoredRecord.rank (scored : ScoredRecord D) : D ×ₗ NodeId :=
  toLex (scored.distance, scored.record.node_id)

/-- The live records of the query's dimension, with their distances. -/
def scoreRecords (query : List FloatBits) (records : List DynamicRecord) :
    List (ScoredRecord D) :=
  (records.filter fun record => !(record.deleted || record.dim != query.length ||
    record.vector.length != query.length)).map
    fun record => ⟨record, squared_l2 query record.vector⟩

/-- The body of `search_delta_l2_at`, on the records it collected. -/
def searchRecordsL2 (query : List FloatBits) (topk : ℕ) (records : List DynamicRecord) :
    List DynamicRecord :=
  if query.isEmpty || topk == 0 then []
  else (TopK.topk ScoredRecord.rank topk (scoreRecords squared_l2 query records)).map
    ScoredRecord.record

end Search

namespace DynamicReadView

/-- What the readers do when no view was published, or a closed one. -/
def history (view : Option DynamicReadView) : Option (List DynamicRecord) :=
  match view with
  | none => none
  | some view => if view.opened then some view.history_records else none

variable (view : Option DynamicReadView)

def latestRecord (node_id : NodeId) (read_sequence : ℕ) (include_deleted : Bool) :
    Option DynamicRecord :=
  match history view with
  | none => none
  | some records => latestRecordFromHistory records node_id read_sequence include_deleted

def latestRecordsFor (node_ids : List NodeId) (read_sequence : ℕ) (include_deleted : Bool) :
    AList fun _ : NodeId => DynamicRecord :=
  match history view with
  | none => ∅
  | some records => latestRecordsForFromHistory records node_ids read_sequence include_deleted

def collectAllDeltaRecordsAt (read_sequence : ℕ) : List DynamicRecord :=
  match history view with
  | none => []
  | some records => deduplicateNewestAt records read_sequence

def snapshot (read_sequence : ℕ) : DynamicSnapshot :=
  match history view with
  | none => { read_sequence := read_sequence }
  | some records =>
    let records := deduplicateNewestAt records read_sequence
    { read_sequence := read_sequence
      records := records
      deleted_count := records.countP DynamicRecord.deleted }

def searchDeltaL2At {D : Type} [LinearOrder D] (squared_l2 : List FloatBits → List FloatBits → D)
    (query : List FloatBits) (topk read_sequence : ℕ) : List DynamicRecord :=
  searchRecordsL2 squared_l2 query topk (collectAllDeltaRecordsAt view read_sequence)

end DynamicReadView

/-- The newest record of a node among those up to a sequence. -/
def newestAt (records : List DynamicRecord) (node_id : NodeId) (read_sequence : ℕ) :
    Option DynamicRecord :=
  newestOf (records.filter fun record => record.sequence_id ≤ read_sequence) node_id

/-- What a read that leaves out deleted records makes of a record. -/
def present (include_deleted : Bool) (found : DynamicRecord) : Bool :=
  !found.deleted || include_deleted

section Reads

variable {records : List DynamicRecord} {record : DynamicRecord} {node_id : NodeId}
  {read_sequence : ℕ} {include_deleted : Bool}

theorem filter_present_true (found : Option DynamicRecord) : found.filter (present true) = found := by
  cases found <;> simp [present]

theorem mem_deduplicateNewestAt :
    record ∈ deduplicateNewestAt records read_sequence ↔
      newestAt records record.node_id read_sequence = some record :=
  mem_deduplicateNewest

theorem latestRecordFromHistory_eq :
    latestRecordFromHistory records node_id read_sequence include_deleted =
      (newestAt records node_id read_sequence).filter (present include_deleted) := by
  have hloop : ∀ found : Option DynamicRecord,
      records.foldl (fun latest record =>
        if record.node_id ≠ node_id ∨ record.sequence_id > read_sequence then latest
        else match latest with
          | none => some record
          | some found => if record.sequence_id > found.sequence_id then some record else some found)
        found =
      (records.filter fun record => record.sequence_id ≤ read_sequence).foldl
        (fun found record => if record.node_id = node_id then
          Versions.pick DynamicRecord.sequence_id found record else found) found := by
    induction records with
    | nil => intro found; rfl
    | cons r records ih =>
      intro found
      by_cases hseq : r.sequence_id ≤ read_sequence
      · rw [List.filter_cons_of_pos (by simpa using hseq), List.foldl_cons, List.foldl_cons, ih]
        have hnot : ¬r.sequence_id > read_sequence := by omega
        by_cases hnode : r.node_id = node_id <;> cases found <;>
          simp [hnode, hnot, Versions.pick]
      · rw [List.filter_cons_of_neg (by simpa using hseq), List.foldl_cons, ih]
        have hgt : r.sequence_id > read_sequence := by omega
        simp [hgt]
  rw [latestRecordFromHistory, hloop, newestAt, newestOf, Versions.newest]
  cases List.foldl _ none _ with
  | none => rfl
  | some found =>
    cases hdeleted : found.deleted <;> cases include_deleted <;>
      simp [present, hdeleted, Option.filter_some]

/-- The second loop of `latest_records_for_from_history` drops the deleted records. -/
theorem lookup_eraseDeleted (table : AList fun _ : NodeId => DynamicRecord) (node_id : NodeId) :
    (table.keys.foldl (fun table node_id =>
      match table.lookup node_id with
      | some record => if record.deleted then table.erase node_id else table
      | none => table) table).lookup node_id =
      (table.lookup node_id).filter fun record => !record.deleted := by
  have hstep : ∀ (table : AList fun _ : NodeId => DynamicRecord) (k n : NodeId),
      (match table.lookup k with
        | some record => if record.deleted then table.erase k else table
        | none => table).lookup n =
      if n = k then (table.lookup n).filter fun record => !record.deleted
      else table.lookup n := by
    intro table k n
    by_cases hn : n = k
    · subst hn
      cases hk : table.lookup n with
      | none => simp [hk]
      | some record => cases hdeleted : record.deleted <;> simp [hk, hdeleted, Option.filter_some]
    · cases hk : table.lookup k with
      | none => simp [hn]
      | some record => cases hdeleted : record.deleted <;> simp [hn, hdeleted]
  have hloop : ∀ (keys : List NodeId) (table : AList fun _ : NodeId => DynamicRecord),
      (keys.foldl (fun table node_id =>
        match table.lookup node_id with
        | some record => if record.deleted then table.erase node_id else table
        | none => table) table).lookup node_id =
        if node_id ∈ keys then (table.lookup node_id).filter fun record => !record.deleted
        else table.lookup node_id := by
    intro keys
    induction keys with
    | nil => intro table; simp
    | cons k keys ih =>
      intro table
      rw [List.foldl_cons, ih, hstep]
      by_cases hk : node_id = k <;> by_cases hmem : node_id ∈ keys <;>
        simp_all [Option.filter_filter]
  rw [hloop]
  split
  · rfl
  · next hnot =>
    rw [AList.lookup_eq_none.mpr hnot]
    rfl

/-- The first loop reads the records up to the sequence, of the given nodes, one after the other. -/
theorem latestRecordsFor_loop (records : List DynamicRecord) (node_ids : List NodeId)
    (read_sequence : ℕ) (table : AList fun _ : NodeId => DynamicRecord) :
    (records.foldl (fun latest record =>
      if record.sequence_id > read_sequence ∨ record.node_id ∉ node_ids then latest
      else match latest.lookup record.node_id with
        | none => latest.insert record.node_id record
        | some found =>
          if record.sequence_id > found.sequence_id then latest.insert record.node_id record
          else latest) table) =
    ((records.filter fun record => record.sequence_id ≤ read_sequence).filter
      fun record => decide (record.node_id ∈ node_ids)).foldl
      (Versions.record DynamicRecord.node_id DynamicRecord.sequence_id) table := by
  induction records generalizing table with
  | nil => rfl
  | cons r records ih =>
    rw [List.foldl_cons, ih]
    by_cases hseq : r.sequence_id ≤ read_sequence
    · rw [List.filter_cons_of_pos (by simpa using hseq)]
      by_cases hnode : r.node_id ∈ node_ids
      · have hkeep : ¬(r.sequence_id > read_sequence ∨ r.node_id ∉ node_ids) := by
          rw [not_or, not_not]
          exact ⟨not_lt.mpr hseq, hnode⟩
        rw [List.filter_cons_of_pos (by simpa using hnode), List.foldl_cons, if_neg hkeep]
        cases hlookup : table.lookup r.node_id <;> simp [Versions.record, hlookup]
      · rw [List.filter_cons_of_neg (by simpa using hnode), if_pos (.inr hnode)]
    · rw [List.filter_cons_of_neg (by simpa using hseq), if_pos (.inl (not_le.mp hseq))]

theorem lookup_latestRecordsForFromHistory {node_ids : List NodeId} :
    (latestRecordsForFromHistory records node_ids read_sequence include_deleted).lookup node_id =
      if node_id ∈ node_ids then
        latestRecordFromHistory records node_id read_sequence include_deleted
      else none := by
  have hlookup : ∀ n, (((records.filter fun record => record.sequence_id ≤ read_sequence).filter
        fun record => decide (record.node_id ∈ node_ids)).foldl
        (Versions.record DynamicRecord.node_id DynamicRecord.sequence_id) ∅).lookup n =
      if n ∈ node_ids then newestAt records n read_sequence else none := by
    intro n
    rw [Versions.lookup_foldl_record, Versions.newest_filter_key fun n => n ∈ node_ids]
    by_cases hn : n ∈ node_ids
    · cases hnewest : newestAt records n read_sequence <;>
        simp_all [Versions.join, Versions.pick, newestAt, newestOf]
    · simp [hn, Versions.join]
  rw [latestRecordsForFromHistory, latestRecordsFor_loop]
  cases include_deleted with
  | true =>
    rw [if_pos rfl, hlookup, latestRecordFromHistory_eq, filter_present_true]
  | false =>
    rw [if_neg (by simp), lookup_eraseDeleted, hlookup, latestRecordFromHistory_eq]
    by_cases hmem : node_id ∈ node_ids <;> cases newestAt records node_id read_sequence <;>
      simp [hmem, present, Option.filter_some]

/-- Reads at a sequence look at the records up to it only. -/
theorem latestRecordsForFromHistory_congr {records' : List DynamicRecord} {node_ids : List NodeId}
    (h : (records'.filter fun record => record.sequence_id ≤ read_sequence) =
      records.filter fun record => record.sequence_id ≤ read_sequence) :
    latestRecordsForFromHistory records' node_ids read_sequence include_deleted =
      latestRecordsForFromHistory records node_ids read_sequence include_deleted := by
  rw [latestRecordsForFromHistory, latestRecordsForFromHistory, latestRecordsFor_loop,
    latestRecordsFor_loop, h]

end Reads

end Dynamic
