import AgentAware.Dynamic.Operations

/-!
# Runs of a manager, and where they can stop

A run is a sequence of calls on one directory that was closed cleanly before, or is empty: several
sessions, each between an `open` and a `close`, without I/O errors. A process can stop between two
calls or between two steps of a call. The invariant of a run says that wherever it stops, the
directory holds the acknowledged writes (`Recoverable`).

What the writes mean is stated by itself: a store that maps a node to its last value.

## Main definitions

- `Value`, `Call.apply`, `applyAcked` — the meaning of a sequence of calls
- `CleanlyClosed` — where runs start
- `Runs` — the runs of a manager
- `Stop` — where a process can stop, and the call in flight

## Main results

- `wp_call` — every call keeps the invariant
- `runs_invariant` — between two calls
- `recoverable_of_stop` — wherever a run stops
-/

namespace Dynamic

open DynamicWriteManager

/-- The state of a node that was written: its vector, or deleted. -/
inductive Value
  | live (vector : List FloatBits)
  | tombstone
  deriving DecidableEq, Repr

/-- The value a record stores. -/
def valueOf (record : DynamicRecord) : Value :=
  if record.deleted then .tombstone else .live record.vector

/-- The public operations. -/
inductive Call
  | «open»
  | insert (node_id : NodeId) (vector : List FloatBits)
  | update (node_id : NodeId) (vector : List FloatBits)
  | erase (node_id : NodeId)
  | flush
  | compactOnce
  | close
  deriving DecidableEq, Repr

/-- What a successful call does to the store. -/
def Call.apply (store : NodeId → Option Value) : Call → NodeId → Option Value
  | .insert node_id vector | .update node_id vector =>
    Function.update store node_id (some (.live vector))
  | .erase node_id => Function.update store node_id (some .tombstone)
  | .open | .flush | .compactOnce | .close => store

/-- The calls that write a record. -/
def Call.isWrite : Call → Bool
  | .insert _ _ | .update _ _ | .erase _ => true
  | .open | .flush | .compactOnce | .close => false

/-- A call that was made, with the record it writes unless it is refused at once. -/
structure Request where
  call : Call
  record : Option DynamicRecord
  deriving DecidableEq, Repr

/-- The store after a sequence of calls with their results, of which the successful ones count. -/
def applyAcked (store : NodeId → Option Value) (history : List (Request × Bool)) :
    NodeId → Option Value :=
  history.foldl (fun store done => if done.2 then done.1.call.apply store else store) store

/-- The records a directory held at first and those of the successful calls since. -/
def ackedRecords (initial : List DynamicRecord) (history : List (Request × Bool)) :
    List DynamicRecord :=
  initial ++ history.flatMap fun done => if done.2 then done.1.record.toList else []

/-- The store that a log of records stands for. -/
def storeOf (records : List DynamicRecord) (node_id : NodeId) : Option Value :=
  (newestOf records node_id).map valueOf

section

variable {D : Type} [LinearOrder D] (config : Config D)

def Call.program : Call → Prog World Bool
  | .open => DynamicWriteManager.open config
  | .insert node_id vector => DynamicWriteManager.insert config node_id vector
  | .update node_id vector => DynamicWriteManager.update config node_id vector
  | .erase node_id => DynamicWriteManager.erase config node_id
  | .flush => DynamicWriteManager.flush config
  | .compactOnce => do return (← DynamicWriteManager.compactOnce).1
  | .close => DynamicWriteManager.close

/-- The record a call writes, unless it is refused at once. -/
def Call.record (manager : Manager) : Call → Option DynamicRecord
  | .insert node_id vector | .update node_id vector =>
    if manager.opened && !vector.isEmpty then some (insertRecord config manager node_id vector)
    else none
  | .erase node_id => if manager.opened then some (eraseRecord manager node_id) else none
  | .open | .flush | .compactOnce | .close => none

/-- A call made of a manager. -/
def Call.request (call : Call) (manager : Manager) : Request := ⟨call, call.record config manager⟩

/-- A directory that was closed cleanly: the tables are complete, and so is every record of the
log. An empty directory is one. -/
structure CleanlyClosed (disk : Disk) (manifest : ManifestData) (tables : List LiveTable)
    (logged : List DynamicRecord) : Prop where
  directory : Directory disk manifest tables
  log : LogHolds disk logged []
  settled : LogSettled disk
  increasing : logged.Pairwise fun a b => a.sequence_id < b.sequence_id
  functional : Versions.Functional DynamicRecord.node_id DynamicRecord.sequence_id
    (tableRecords tables ++ logged)
  bounded : ∀ record ∈ tableRecords tables ++ logged, record.sequence_id < 2 ^ 63

/-- The limits of the formats: counters are read back as `std::int64_t`, and readers reject a
payload of more than 512 MiB. -/
structure Within (world : World) (call : Call) : Prop where
  sequence : world.manager.manifest.next_sequence_id + 1 < 2 ^ 63
  sstable : world.manager.manifest.next_sstable_id + 1 < 2 ^ 63
  payload : ∀ record ∈ call.record config world.manager, record.payloadBytes ≤ kMaxPayloadBytes

/-- A run on a directory without I/O errors: the calls with their results, and the world after
them. A closed manager may be replaced by a new one. -/
inductive Runs (disk : Disk) : List (Request × Bool) → World → Prop
  | start : Runs disk [] ⟨disk, new config⟩
  | call {history : List (Request × Bool)} {world : World} {call : Call} :
    Runs disk history world → Within config world call →
    Runs disk (history ++ [(call.request config world.manager,
        ((call.program config).exec world []).1)])
      ((call.program config).exec world []).2.store
  | restart {history : List (Request × Bool)} {world : World} :
    Runs disk history world → world.manager.opened = false →
    Runs disk history ⟨world.disk, new config⟩

/-- Where a process can stop: the calls that returned, the one in flight, the directory when that
one was made, and the directory at the stop. -/
inductive Stop (disk : Disk) : List (Request × Bool) → Option Request → Disk → Disk → Prop
  | idle {history : List (Request × Bool)} {world : World} :
    Runs config disk history world → Stop disk history none world.disk world.disk
  | during {history : List (Request × Bool)} {world world' : World} {call : Call} :
    Runs config disk history world → Within config world call →
    world' ∈ ((call.program config).exec world []).2.visited →
    Stop disk history (some (call.request config world.manager)) world.disk world'.disk

variable {config}

theorem within_iff {world : World} {call : Call} : Within config world call ↔
    world.manager.manifest.next_sequence_id + 1 < 2 ^ 63 ∧
      world.manager.manifest.next_sstable_id + 1 < 2 ^ 63 ∧
      ∀ record ∈ call.record config world.manager, record.payloadBytes ≤ kMaxPayloadBytes :=
  ⟨fun h => ⟨h.sequence, h.sstable, h.payload⟩, fun h => ⟨h.1, h.2.1, h.2.2⟩⟩

instance (world : World) (call : Call) : Decidable (Within config world call) :=
  decidable_of_iff' _ within_iff

variable (config)

/-- Make some calls, one after the other. -/
def runCalls : List Call → World → List (Request × Bool) × World
  | [], world => ([], world)
  | call :: calls, world =>
    let out := (call.program config).exec world []
    let rest := runCalls calls out.2.store
    ((call.request config world.manager, out.1) :: rest.1, rest.2)

/-- Every one of these calls is made within the limits. -/
def withinAll : List Call → World → Bool
  | [], _ => true
  | call :: calls, world =>
    decide (Within config world call) &&
      withinAll calls ((call.program config).exec world []).2.store

theorem Runs.calls {disk : Disk} {history : List (Request × Bool)} {world : World}
    (h : Runs config disk history world) (calls : List Call)
    (hwithin : withinAll config calls world = true) :
    Runs config disk (history ++ (runCalls config calls world).1)
      (runCalls config calls world).2 := by
  induction calls generalizing history world with
  | nil => simpa [runCalls] using h
  | cons call calls ih =>
    rw [withinAll, Bool.and_eq_true, decide_eq_true_eq] at hwithin
    have hcalls := ih (.call h hwithin.1) hwithin.2
    rwa [List.append_assoc] at hcalls

end

theorem cleanlyClosed_empty : CleanlyClosed {} {} [] [] where
  directory := ⟨rfl, rfl, by simp, by simp⟩
  log := ⟨by simp, rfl, walCodec.decode_eq_none_of_decodeAll rfl⟩
  settled := by simp [LogSettled]
  increasing := .nil
  functional := by simp [tableRecords, Versions.Functional]
  bounded := by simp [tableRecords]

/-- What the directory of a manager holds between two calls. -/
structure Holding (world : World) (acked : List DynamicRecord) (tables : List LiveTable)
    (live : List DynamicRecord) : Prop where
  log : LogHolds world.disk live []
  covers : Covers (tableRecords tables ++ live) acked
  increasing : live.Pairwise fun a b => a.sequence_id < b.sequence_id
  bounded : ∀ record ∈ acked, record.sequence_id < 2 ^ 63

/-- The invariant of runs between two calls: the manager is in a session or closed. -/
def RunInv (world : World) (acked : List DynamicRecord) : Prop :=
  ∃ manifest tables live, Holding world acked tables live ∧
    (Session world manifest tables live ∨
      world.manager.opened = false ∧ world.manager.wal_writer = none ∧
        Directory world.disk manifest tables ∧ LogSettled world.disk)

/-- A stopped process left the acknowledged writes, and the one in flight wholly or not at all. The
log still starts with what it held when the call was made, unless it was replaced. -/
def Recoverable (start disk : Disk) (acked inflight : List DynamicRecord) : Prop :=
  ∃ manifest tables live logged, CrashPoint disk acked inflight manifest tables logged ∧
    LogHolds start live [] ∧
    (logged = [] ∨ ∃ more, logged = live ++ more ∧ ∀ record ∈ more, record ∈ inflight)

section Calls

variable {D : Type} {config : Config D} {world : World} {acked inflight live logged : List DynamicRecord}
  {manifest : ManifestData} {tables : List LiveTable} {disk : Disk} {tail : Bytes}

/-- Tables and log hold the acknowledged writes; the log may hold the one in flight too. -/
theorem CrashPoint.of_covers (hdir : Directory disk manifest tables)
    (hlog : LogHolds disk logged tail) (hcovers : Covers (tableRecords tables ++ live) acked)
    (hlive : ∀ r ∈ live, r ∈ logged) (hlogged : ∀ r ∈ logged, r ∈ acked ++ inflight)
    (hincreasing : logged.Pairwise fun a b => a.sequence_id < b.sequence_id) :
    CrashPoint disk acked inflight manifest tables logged where
  directory := hdir
  log := ⟨tail, hlog⟩
  known r hr := by
    rcases List.mem_append.mp hr with hr | hr
    · exact List.mem_append_left _ (hcovers.1 r (List.mem_append_left _ hr))
    · exact hlogged r hr
  held r hr := by
    obtain ⟨a, ha, hnode, hseq⟩ := hcovers.2 r hr
    refine ⟨a, ?_, hnode, hseq, .inr (hcovers.1 a ha)⟩
    rcases List.mem_append.mp ha with ha | ha
    · exact List.mem_append_left _ ha
    · exact List.mem_append_right _ (hlive a ha)
  increasing := hincreasing

/-- The tables alone hold everything. -/
theorem CrashPoint.of_tables (hdir : Directory disk manifest tables)
    (hlog : LogHolds disk logged tail) (hcovers : Covers (tableRecords tables) (acked ++ inflight))
    (hlogged : ∀ r ∈ logged, r ∈ acked ++ inflight)
    (hincreasing : logged.Pairwise fun a b => a.sequence_id < b.sequence_id) :
    CrashPoint disk acked inflight manifest tables logged where
  directory := hdir
  log := ⟨tail, hlog⟩
  known r hr := by
    rcases List.mem_append.mp hr with hr | hr
    · exact hcovers.1 r hr
    · exact hlogged r hr
  held r hr := by
    obtain ⟨a, ha, hnode, hseq⟩ := hcovers.2 r (List.mem_append_left _ hr)
    exact ⟨a, List.mem_append_left _ ha, hnode, hseq, .inl ha⟩
  increasing := hincreasing

theorem logHolds_of_empty (h : walBytes disk = []) : LogHolds disk [] [] :=
  ⟨by simp, by simpa using h, walCodec.decode_eq_none_of_decodeAll rfl⟩

theorem tableRecords_append (tables : List LiveTable) (table : LiveTable) :
    tableRecords (tables ++ [table]) = tableRecords tables ++ table.records := by
  simp [tableRecords]

/-- Every directory of a flush is recoverable. The memtable `held ++ more` holds the writes `held`
of the session, which include all acknowledged ones, and the one in flight if it was just
logged. -/
theorem recoverable_of_flushPasses {start : Disk} {held more : List DynamicRecord}
    (hs : Session world manifest tables (held ++ more))
    (hstart : LogHolds start held []) (hlog : LogHolds world.disk (held ++ more) [])
    (hcovers : Covers (tableRecords tables ++ held) acked)
    (hcovers' : Covers (tableRecords tables ++ (held ++ more)) (acked ++ inflight))
    (hmore : ∀ r ∈ more, r ∈ inflight)
    (hincreasing : (held ++ more).Pairwise fun a b => a.sequence_id < b.sequence_id)
    {manifest' : ManifestData}
    (h : FlushPasses world.disk manifest tables manifest' (tables ++ [flushedTable world.manager])
      disk) : Recoverable start disk acked inflight := by
  have hheld : ∀ r ∈ held, r ∈ held ++ more := fun r hr => List.mem_append_left _ hr
  have hlive : ∀ r ∈ held ++ more, r ∈ acked ++ inflight := fun r hr =>
    hcovers'.1 r (List.mem_append_right _ hr)
  have htables : Covers (tableRecords (tables ++ [flushedTable world.manager]))
      (acked ++ inflight) := by
    rw [tableRecords_append]
    exact ((Versions.Covers.refl _).append (flushedTable_covers hs)).trans hcovers'
  have hsame : walBytes disk = walBytes world.disk → LogHolds disk (held ++ more) [] :=
    fun hbytes => ⟨hlog.valid, hbytes.trans hlog.bytes, hlog.stops⟩
  have hkept : held ++ more = [] ∨ ∃ more', held ++ more = held ++ more' ∧
      ∀ r ∈ more', r ∈ inflight := .inr ⟨more, rfl, hmore⟩
  rcases h with ⟨hdir, hbytes⟩ | ⟨hdir, hbytes | hbytes⟩
  · exact ⟨_, _, _, _, .of_covers hdir (hsame hbytes) hcovers hheld hlive hincreasing, hstart,
      hkept⟩
  · exact ⟨_, _, _, _, .of_tables hdir (hsame hbytes) htables hlive hincreasing, hstart, hkept⟩
  · exact ⟨_, _, _, _, .of_tables hdir (logHolds_of_empty hbytes) htables (by simp) .nil, hstart,
      .inl rfl⟩

/-- A flush keeps the invariant. -/
theorem wp_flushRun (hwal : config.options.enable_wal = true) {start : Disk}
    {held more : List DynamicRecord} (hs : Session world manifest tables (held ++ more))
    (hstart : LogHolds start held []) (hlog : LogHolds world.disk (held ++ more) [])
    (hcovers : Covers (tableRecords tables ++ held) acked)
    (hcovers' : Covers (tableRecords tables ++ (held ++ more)) (acked ++ inflight))
    (hmore : ∀ r ∈ more, r ∈ inflight)
    (hincreasing : (held ++ more).Pairwise fun a b => a.sequence_id < b.sequence_id)
    (hbounded : ∀ r ∈ acked ++ inflight, r.sequence_id < 2 ^ 63)
    (hid : world.manager.manifest.next_sstable_id + 1 < 2 ^ 63)
    (hseq : world.manager.manifest.next_sequence_id < 2 ^ 63) :
    (flushLocked config).wp Prog.Quiet (fun _ u => Recoverable start u.disk acked inflight)
      (fun ok u => ok = true ∧ RunInv u (acked ++ inflight)) world := by
  by_cases hempty : held ++ more = []
  · have hsnapshot : world.manager.memtable.snapshot.isEmpty = true := by
      rw [List.isEmpty_iff, List.eq_nil_iff_forall_not_mem]
      intro r hr
      simpa [hempty] using hs.memtable.snapshot_covers.1 r hr
    simp only [flushLocked, Prog.wp_bind, Prog.wp_look, hsnapshot, if_true, Prog.wp_pure]
    exact ⟨trivial, manifest, tables, _, ⟨hlog, hcovers', hincreasing, hbounded⟩,
      .inl hs⟩
  · refine Prog.wp_mono (wp_flushLocked hwal hs hempty hid hseq) ?_ fun _ u hu =>
      recoverable_of_flushPasses hs hstart hlog hcovers hcovers' hmore hincreasing hu
    rintro ok u ⟨rfl, hs', hwal', _⟩
    refine ⟨rfl, _, _, [], ⟨logHolds_of_empty ?_, ?_, .nil, hbounded⟩, .inl hs'⟩
    · rw [walBytes, hwal']
      rfl
    · rw [List.append_nil, tableRecords_append]
      exact ((Versions.Covers.refl _).append (flushedTable_covers hs)).trans hcovers'

/-- Every acknowledged record is older than the next write of a session. -/
theorem below_of_covers (hs : Session world manifest tables live)
    (hcovers : Covers (tableRecords tables ++ live) acked) :
    ∀ r ∈ acked, r.sequence_id < world.manager.manifest.next_sequence_id := by
  intro r hr
  obtain ⟨a, ha, _, hseq⟩ := hcovers.2 r hr
  exact lt_of_le_of_lt hseq (hs.below a ha)

/-- A write of the next sequence id keeps the invariant: it is acknowledged, and wherever it stops
it is wholly there or not at all. -/
theorem wp_appendRun {record : DynamicRecord} (hwal : config.options.enable_wal = true)
    (hs : Session world manifest tables live) (hh : Holding world acked tables live)
    (hvalid : record.Valid) (hseq : record.sequence_id = world.manager.manifest.next_sequence_id)
    (hid : world.manager.manifest.next_sstable_id + 1 < 2 ^ 63)
    (hnext : world.manager.manifest.next_sequence_id + 1 < 2 ^ 63) :
    (appendRecordLocked config record).wp Prog.Quiet
      (fun _ u => Recoverable world.disk u.disk acked [record])
      (fun ok u => ok = true ∧ RunInv u (acked ++ [record])) world := by
  have hlive : ∀ r ∈ live, r ∈ acked := fun r hr => hh.covers.1 r (List.mem_append_right _ hr)
  have hincreasing : (live ++ [record]).Pairwise fun a b => a.sequence_id < b.sequence_id := by
    refine List.pairwise_append.mpr ⟨hh.increasing, List.pairwise_singleton _ _, ?_⟩
    intro a ha b hb
    rw [List.mem_singleton.mp hb, hseq]
    exact hs.below a (List.mem_append_right _ ha)
  have hcovers' : Covers (tableRecords tables ++ (live ++ [record])) (acked ++ [record]) := by
    rw [← List.append_assoc]
    exact hh.covers.append (Versions.Covers.refl _)
  have hbounded : ∀ r ∈ acked ++ [record], r.sequence_id < 2 ^ 63 := by
    intro r hr
    rcases List.mem_append.mp hr with hr | hr
    · exact hh.bounded r hr
    · rw [List.mem_singleton.mp hr, hseq]
      omega
  have happended : ∀ p q, walCodec.encode record = p ++ q →
      Recoverable world.disk (appended world.disk p) acked [record] := by
    intro p q hpq
    have hdir := (SameTables.modifyFile world.disk fun file => file.append p).directory hs.directory
    obtain ⟨hpart, hwhole⟩ := hh.log.append hs.created hvalid hpq
    by_cases hq : q = []
    · exact ⟨_, _, live, _, .of_covers hdir (hwhole hq) hh.covers
        (fun r hr => List.mem_append_left _ hr)
        (fun r hr => hcovers'.1 r (List.mem_append_right _ hr)) hincreasing, hh.log,
        .inr ⟨[record], rfl, fun _ => id⟩⟩
    · exact ⟨_, _, live, _, .of_covers hdir (hpart hq) hh.covers (fun _ => id)
        (fun r hr => List.mem_append_left _ (hlive r hr)) hh.increasing, hh.log,
        .inr ⟨[], (List.append_nil _).symm, by simp⟩⟩
  rw [appendRecordLocked, Prog.wp_bind]
  refine Prog.wp_mono (wp_recordLocked hwal hs hvalid hseq (hnext.trans (by decide))) ?_ ?_
  · rintro ok u ⟨rfl, memtable, hmemtable, _, rfl⟩
    have hs' := hs.append hvalid hseq hmemtable (walCodec.encode record)
    have hlog' := (hh.log.append hs.created hvalid (List.append_nil _).symm).2 rfl
    simp only [if_true, Prog.wp_bind, Prog.wp_look]
    refine Prog.wp_ite (fun _ => ?_) fun _ => ?_
    · exact wp_flushRun hwal hs' hh.log hlog' hh.covers hcovers' (fun _ => id) hincreasing
        hbounded hid hnext
    · exact ⟨rfl, _, _, _, ⟨hlog', hcovers', hincreasing, hbounded⟩, .inl hs'⟩
  · rintro _ u ⟨p, q, hpq, hdisk⟩
    rw [hdisk]
    exact happended p q hpq

/-- The directory of a log that still holds all acknowledged writes together with its tables. -/
theorem recoverable_of_covers {start : Disk} (hdir : Directory disk manifest tables)
    (hlog : LogHolds disk live []) (hstart : LogHolds start live [])
    (hcovers : Covers (tableRecords tables ++ live) acked)
    (hincreasing : live.Pairwise fun a b => a.sequence_id < b.sequence_id) :
    Recoverable start disk acked inflight :=
  ⟨_, _, _, _, .of_covers hdir hlog hcovers (fun _ => id)
    (fun r hr => List.mem_append_left _ (hcovers.1 r (List.mem_append_right _ hr))) hincreasing,
    hstart, .inr ⟨[], (List.append_nil _).symm, by simp⟩⟩

theorem wp_openRun (hwal : config.options.enable_wal = true) (h : RunInv world acked) :
    (DynamicWriteManager.open config).wp Prog.Quiet
      (fun _ u => Recoverable world.disk u.disk acked [])
      (fun ok u => ok = true ∧ RunInv u acked) world := by
  obtain ⟨manifest, tables, live, hh, hs | ⟨hclosed, _, hdir, hsettled⟩⟩ := h
  · rw [DynamicWriteManager.open, Prog.wp_bind, Prog.wp_look, if_pos hs.opened]
    exact ⟨rfl, manifest, tables, live, hh, .inl hs⟩
  · refine Prog.wp_mono (wp_openSession hclosed hwal hdir hsettled hh.log fun r hr =>
      hh.bounded r (hh.covers.1 r hr)) ?_ fun _ u hu => ?_
    · rintro ok u ⟨rfl, hsame, _, hs, _⟩
      exact ⟨rfl, manifest, tables, live,
        ⟨hsame.logHolds hh.log, hh.covers, hh.increasing, hh.bounded⟩, .inl hs⟩
    · exact recoverable_of_covers (hu.toSameTables.directory hdir) (hu.logHolds hh.log) hh.log
        hh.covers hh.increasing

theorem wp_compactRun (hs : Session world manifest tables live)
    (hh : Holding world acked tables live)
    (hid : world.manager.manifest.next_sstable_id + 1 < 2 ^ 63)
    (hseq : world.manager.manifest.next_sequence_id < 2 ^ 63) :
    compactOnce.wp Prog.Quiet (fun _ u => Recoverable world.disk u.disk acked [])
      (fun _ u => RunInv u acked) world := by
  by_cases htables : 2 ≤ world.manager.sstables.length
  · have hcovers : Covers (tableRecords [compactedTable world] ++ live) acked := by
      have hcompacted : tableRecords [compactedTable world] = compactedRecords world := by
        simp [tableRecords, compactedTable, newTable]
      rw [hcompacted]
      exact ((compactedRecords_covers hs).append (Versions.Covers.refl _)).trans hh.covers
    have hlog : ∀ d : Disk, d.files .wal = world.disk.files .wal → LogHolds d live [] :=
      fun d hd => ⟨hh.log.valid, (walBytes_congr hd).trans hh.log.bytes, hh.log.stops⟩
    refine Prog.wp_mono (wp_compactSession hs htables hid hseq) ?_ fun _ u hu => ?_
    · rintro out u ⟨_, hsame, hs'⟩
      exact ⟨_, _, live, ⟨hlog _ hsame, hcovers, hh.increasing, hh.bounded⟩,
        .inl hs'⟩
    · rcases hu with ⟨hdir | hdir, hsame⟩
      · exact recoverable_of_covers hdir (hlog _ hsame) hh.log hh.covers hh.increasing
      · exact recoverable_of_covers hdir (hlog _ hsame) hh.log hcovers hh.increasing
  · have hguard : (!world.manager.opened || decide (world.manager.sstables.length < 2)) = true := by
      simp only [Bool.or_eq_true, decide_eq_true_eq]
      exact .inr (by omega)
    rw [compactOnce, Prog.wp_bind, Prog.wp_look, if_pos hguard]
    exact ⟨manifest, tables, live, hh, .inl hs⟩

theorem wp_closeRun (h : RunInv world acked)
    (hid : world.manager.manifest.next_sstable_id < 2 ^ 63)
    (hseq : world.manager.manifest.next_sequence_id < 2 ^ 63) :
    close.wp Prog.Quiet (fun _ u => Recoverable world.disk u.disk acked [])
      (fun ok u => ok = true ∧ RunInv u acked ∧ u.manager.opened = false) world := by
  obtain ⟨manifest, tables, live, hh, hs | ⟨hclosed, hwriter, hdir, hsettled⟩⟩ := h
  · have hlog : ∀ d : Disk, walBytes d = walBytes world.disk → LogHolds d live [] :=
      fun d hd => ⟨hh.log.valid, hd.trans hh.log.bytes, hh.log.stops⟩
    refine Prog.wp_mono (wp_close hs hid hseq) ?_ fun _ u hu => ?_
    · rintro ok u ⟨rfl, hdir, hbytes, hsettled, hclosed, hwriter, _⟩
      exact ⟨rfl, ⟨_, tables, live, ⟨hlog _ hbytes, hh.covers, hh.increasing, hh.bounded⟩,
        .inr ⟨hclosed, hwriter, hdir, hsettled⟩⟩, hclosed⟩
    · obtain ⟨manifest', hdir, hbytes⟩ := hu
      exact recoverable_of_covers hdir (hlog _ hbytes) hh.log hh.covers hh.increasing
  · have hsame : Recoverable world.disk world.disk acked [] :=
      recoverable_of_covers hdir hh.log hh.log hh.covers hh.increasing
    rw [close, Prog.wp_bind, Prog.wp_look]
    simp only [hclosed, hwriter, Bool.false_eq_true, if_false, Prog.wp_bind, Prog.wp_pure,
      wp_assign, wp_publish]
    exact ⟨hsame, hsame, hsame, rfl, ⟨manifest, tables, live,
      ⟨hh.log, hh.covers, hh.increasing, hh.bounded⟩, .inr ⟨rfl, rfl, hdir, hsettled⟩⟩, trivial⟩

variable [LinearOrder D]

/-- A record within the payload limit, of a dimension that is its vector's, is valid. -/
theorem Call.valid_of_record {call : Call} {record : DynamicRecord}
    (hw : Within config world call) (h : call.record config world.manager = some record) :
    record.Valid ∧ record.sequence_id = world.manager.manifest.next_sequence_id := by
  have hpayload := hw.payload record h
  have hsequence := hw.sequence
  have hfits : world.manager.manifest.next_sequence_id < 2 ^ 64 := by omega
  cases call with
  | insert | update =>
    simp only [Call.record, Option.ite_none_right_eq_some, Option.some.injEq] at h
    obtain ⟨_, rfl⟩ := h
    exact ⟨⟨rfl, hpayload, hfits⟩, rfl⟩
  | erase =>
    simp only [Call.record, Option.ite_none_right_eq_some, Option.some.injEq] at h
    obtain ⟨_, rfl⟩ := h
    exact ⟨⟨rfl, hpayload, hfits⟩, rfl⟩
  | «open» | flush | compactOnce | close => cases h

theorem Call.isWrite_of_record {call : Call} {manager : Manager} {record : DynamicRecord}
    (h : call.record config manager = some record) : call.isWrite = true := by
  cases call with
  | insert | update | erase => rfl
  | «open» | flush | compactOnce | close => cases h

theorem Call.opened_of_record {call : Call} {manager : Manager} {record : DynamicRecord}
    (h : call.record config manager = some record) : manager.opened = true := by
  cases call with
  | insert | update =>
    simp only [Call.record, Option.ite_none_right_eq_some, Bool.and_eq_true] at h
    exact h.1.1
  | erase =>
    simp only [Call.record, Option.ite_none_right_eq_some] at h
    exact h.1
  | «open» | flush | compactOnce | close => cases h

/-- A call that writes a record does to the store what the record says. -/
theorem Call.apply_of_record {call : Call} {manager : Manager} {record : DynamicRecord}
    (h : call.record config manager = some record) (store : NodeId → Option Value) :
    call.apply store = Function.update store record.node_id (some (valueOf record)) := by
  cases call with
  | insert | update =>
    simp only [Call.record, Option.ite_none_right_eq_some, Option.some.injEq] at h
    obtain ⟨_, rfl⟩ := h
    rfl
  | erase =>
    simp only [Call.record, Option.ite_none_right_eq_some, Option.some.injEq] at h
    obtain ⟨_, rfl⟩ := h
    rfl
  | «open» | flush | compactOnce | close => cases h

/-- A call that writes a record appends it. -/
theorem Call.wp_append {F : Outcome → Prop} {R : World → World → Prop} {Q : Bool → World → Prop}
    {call : Call} {record : DynamicRecord} (h : call.record config world.manager = some record)
    (happend : (appendRecordLocked config record).wp F R Q world) :
    (call.program config).wp F R Q world := by
  have hinsert : ∀ node_id vector, (if world.manager.opened && !vector.isEmpty then
        some (insertRecord config world.manager node_id vector) else none) = some record →
      (DynamicWriteManager.insert config node_id vector).wp F R Q world := by
    intro node_id vector hrecord
    simp only [Option.ite_none_right_eq_some, Bool.and_eq_true, Bool.not_eq_true',
      Option.some.injEq] at hrecord
    obtain ⟨⟨hopened, hvector⟩, rfl⟩ := hrecord
    rw [DynamicWriteManager.insert, if_neg (by simp [hvector]), Prog.wp_bind, Prog.wp_look,
      if_pos hopened]
    exact happend
  cases call with
  | insert node_id vector => exact hinsert node_id vector h
  | update node_id vector => exact hinsert node_id vector h
  | erase node_id =>
    simp only [Call.record, Option.ite_none_right_eq_some, Option.some.injEq] at h
    obtain ⟨hopened, rfl⟩ := h
    rw [Call.program, DynamicWriteManager.erase, Prog.wp_bind, Prog.wp_look, if_pos hopened]
    exact happend
  | «open» | flush | compactOnce | close => cases h

/-- A write that is refused changes nothing. -/
theorem Call.wp_refused {F : Outcome → Prop} {R : World → World → Prop} {Q : Bool → World → Prop}
    {call : Call} (hwrite : call.isWrite = true) (h : call.record config world.manager = none)
    (hQ : Q false world) : (call.program config).wp F R Q world := by
  have hinsert : ∀ node_id vector, (if world.manager.opened && !vector.isEmpty then
        some (insertRecord config world.manager node_id vector) else none) = none →
      (DynamicWriteManager.insert config node_id vector).wp F R Q world := by
    intro node_id vector hrecord
    simp only [ite_eq_right_iff, reduceCtorEq, imp_false] at hrecord
    rw [DynamicWriteManager.insert]
    refine Prog.wp_ite (fun _ => hQ) fun hvector => ?_
    rw [Prog.wp_bind, Prog.wp_look]
    refine Prog.wp_ite (fun hopened => absurd ?_ hrecord) fun _ => hQ
    simp [hopened, hvector]
  cases call with
  | insert node_id vector => exact hinsert node_id vector h
  | update node_id vector => exact hinsert node_id vector h
  | erase node_id =>
    simp only [Call.record, ite_eq_right_iff, reduceCtorEq, imp_false] at h
    rw [Call.program, DynamicWriteManager.erase, Prog.wp_bind, Prog.wp_look, if_neg h]
    exact hQ
  | «open» | flush | compactOnce | close => cases hwrite

/-- What a call that returned has done. -/
structure Returned (config : Config D) (call : Call) (start : Manager) (acked : List DynamicRecord)
    (ok : Bool) (world : World) : Prop where
  inv : RunInv world (acked ++ (call.record config start).toList)
  accepted : call.record config start ≠ none → ok = true
  effect : call.record config start = none → ok = true → ∀ store, call.apply store = store

/-- Every call keeps the invariant, and wherever it stops the directory is recoverable. -/
theorem wp_call (hwal : config.options.enable_wal = true) {call : Call} (h : RunInv world acked)
    (hw : Within config world call) :
    (call.program config).wp Prog.Quiet
      (fun _ u => Recoverable world.disk u.disk acked (call.record config world.manager).toList)
      (Returned config call world.manager acked) world := by
  have hnext : world.manager.manifest.next_sequence_id < 2 ^ 63 := by
    have := hw.sequence
    omega
  have hsession : world.manager.opened = true → ∃ manifest tables live,
      Holding world acked tables live ∧ Session world manifest tables live := by
    intro hopened
    obtain ⟨manifest, tables, live, hh, hs | ⟨hclosed, _⟩⟩ := h
    · exact ⟨manifest, tables, live, hh, hs⟩
    · rw [hopened] at hclosed
      cases hclosed
  have hwrite : call.isWrite = true → (call.program config).wp Prog.Quiet
      (fun _ u => Recoverable world.disk u.disk acked (call.record config world.manager).toList)
      (Returned config call world.manager acked) world := by
    intro hwrite
    cases hrecord : call.record config world.manager with
    | none => exact Call.wp_refused hwrite hrecord ⟨by simpa [hrecord] using h,
        fun hsome => absurd hrecord hsome, fun _ hok => by cases hok⟩
    | some record =>
      obtain ⟨manifest, tables, live, hh, hs⟩ := hsession (Call.opened_of_record hrecord)
      obtain ⟨hvalid, hseq⟩ := Call.valid_of_record hw hrecord
      refine Call.wp_append hrecord (Prog.wp_post
        (wp_appendRun hwal hs hh hvalid hseq hw.sstable hw.sequence) ?_)
      rintro ok u ⟨rfl, hinv⟩
      exact ⟨by rw [hrecord]; exact hinv, fun _ => rfl, fun hnone => by simp [hrecord] at hnone⟩
  have hkeeps : call.record config world.manager = none →
      (∀ store : NodeId → Option Value, call.apply store = store) →
      ∀ (ok : Bool) (u : World), RunInv u acked →
        Returned config call world.manager acked ok u := fun hnone happly ok u hu =>
    ⟨by simpa [hnone] using hu, fun hsome => absurd hnone hsome, fun _ _ => happly⟩
  cases call with
  | «open» =>
    exact Prog.wp_post (wp_openRun hwal h) fun ok u hu => hkeeps rfl (fun _ => rfl) ok u hu.2
  | insert | update | erase => exact hwrite rfl
  | flush =>
    rw [Call.program, DynamicWriteManager.flush, Prog.wp_bind, Prog.wp_look]
    refine Prog.wp_ite (fun hopened => ?_) fun _ => hkeeps rfl (fun _ => rfl) false world h
    obtain ⟨manifest, tables, live, hh, hs⟩ := hsession hopened
    have hflush := @wp_flushRun D config world acked [] manifest tables hwal world.disk live []
      (by simpa using hs) hh.log (by simpa using hh.log) hh.covers
      (by simpa using hh.covers) (by simp) (by simpa using hh.increasing)
      (by simpa using hh.bounded) hw.sstable hnext
    rw [List.append_nil] at hflush
    exact Prog.wp_post hflush fun ok u hu => hkeeps rfl (fun _ => rfl) ok u hu.2
  | compactOnce =>
    rw [Call.program, Prog.wp_bind]
    cases hopened : world.manager.opened with
    | true =>
      obtain ⟨manifest, tables, live, hh, hs⟩ := hsession hopened
      exact Prog.wp_post (wp_compactRun hs hh hw.sstable hnext) fun out u hu =>
        hkeeps rfl (fun _ => rfl) out.1 u hu
    | false =>
      have hguard : (!world.manager.opened || decide (world.manager.sstables.length < 2)) = true := by
        simp [hopened]
      rw [DynamicWriteManager.compactOnce, Prog.wp_bind, Prog.wp_look, if_pos hguard]
      exact hkeeps rfl (fun _ => rfl) false world h
  | close =>
    have hid : world.manager.manifest.next_sstable_id < 2 ^ 63 := by
      have := hw.sstable
      omega
    exact Prog.wp_post (wp_closeRun h hid hnext) fun ok u hu =>
      hkeeps rfl (fun _ => rfl) ok u hu.2.1

end Calls

section Stops

variable {D : Type} [LinearOrder D] {config : Config D} {world : World} {disk start stopped : Disk}
  {manifest : ManifestData} {tables : List LiveTable} {logged acked inflight : List DynamicRecord}
  {store : NodeId → Option Value} {history : List (Request × Bool)} {request : Request}
  {record : DynamicRecord}

theorem applyAcked_concat (store : NodeId → Option Value) (history : List (Request × Bool))
    (request : Request) (ok : Bool) :
    applyAcked store (history ++ [(request, ok)]) =
      if ok then request.call.apply (applyAcked store history) else applyAcked store history := by
  rw [applyAcked, List.foldl_append]
  rfl

theorem ackedRecords_concat (initial : List DynamicRecord) (history : List (Request × Bool))
    (request : Request) (ok : Bool) :
    ackedRecords initial (history ++ [(request, ok)]) =
      ackedRecords initial history ++ if ok then request.record.toList else [] := by
  simp [ackedRecords]

theorem storeOf_concat (h : ∀ r ∈ acked, r.sequence_id < record.sequence_id) :
    storeOf (acked ++ [record]) =
      Function.update (storeOf acked) record.node_id (some (valueOf record)) := by
  funext node_id
  by_cases hnode : node_id = record.node_id
  · subst hnode
    rw [storeOf, newestOf, Versions.newest_concat_of_lt h, Function.update_self]
    rfl
  · rw [storeOf, newestOf, Versions.newest_concat_of_ne (Ne.symm hnode),
      Function.update_of_ne hnode]
    rfl

omit [LinearOrder D] in
theorem RunInv.of_cleanlyClosed (h : CleanlyClosed disk manifest tables logged) :
    RunInv ⟨disk, new config⟩ (tableRecords tables ++ logged) :=
  ⟨manifest, tables, logged, ⟨h.log, Versions.Covers.refl _, h.increasing, h.bounded⟩,
    .inr ⟨rfl, rfl, h.directory, h.settled⟩⟩

omit [LinearOrder D] in
/-- A new manager finds what a closed one left. -/
theorem RunInv.restart (h : RunInv world acked) (hclosed : world.manager.opened = false) :
    RunInv ⟨world.disk, new config⟩ acked := by
  obtain ⟨manifest, tables, live, hh, hs | ⟨_, _, hdir, hsettled⟩⟩ := h
  · rw [hs.opened] at hclosed
    cases hclosed
  · exact ⟨manifest, tables, live,
      ⟨hh.log, hh.covers, hh.increasing, hh.bounded⟩, .inr ⟨rfl, rfl, hdir, hsettled⟩⟩

theorem RunInv.recoverable (h : RunInv world acked) :
    Recoverable world.disk world.disk acked inflight := by
  obtain ⟨manifest, tables, live, hh, hs | ⟨_, _, hdir, _⟩⟩ := h
  · exact recoverable_of_covers hs.directory hh.log hh.log hh.covers hh.increasing
  · exact recoverable_of_covers hdir hh.log hh.log hh.covers hh.increasing

/-- A call writes a record newer than all acknowledged ones. -/
theorem RunInv.newer {call : Call} (h : RunInv world acked) (hw : Within config world call)
    (hrecord : call.record config world.manager = some record) :
    ∀ r ∈ acked, r.sequence_id < record.sequence_id := by
  have hopened := Call.opened_of_record hrecord
  rw [(Call.valid_of_record hw hrecord).2]
  obtain ⟨manifest, tables, live, hh, hs | ⟨hclosed, _⟩⟩ := h
  · exact below_of_covers hs hh.covers
  · rw [hopened] at hclosed
    cases hclosed

/-- What the records of a call do to the store is what the call does. -/
theorem storeOf_returned {call : Call} {ok : Bool} {u : World} (h : RunInv world acked)
    (hw : Within config world call) (hu : Returned config call world.manager acked ok u) :
    acked ++ (call.record config world.manager).toList =
        (acked ++ if ok then (call.record config world.manager).toList else []) ∧
      storeOf (acked ++ (call.record config world.manager).toList) =
        if ok then call.apply (storeOf acked) else storeOf acked := by
  cases hrecord : call.record config world.manager with
  | none =>
    refine ⟨by simp, ?_⟩
    cases hok : ok with
    | false => simp
    | true => simp [hu.effect hrecord hok]
  | some record =>
    have hok := hu.accepted (by simp [hrecord])
    subst hok
    exact ⟨by simp, by
      simp [storeOf_concat (h.newer hw hrecord), Call.apply_of_record hrecord]⟩

/-- A call without I/O errors keeps the invariant of runs. -/
theorem RunInv.call {call : Call} (hwal : config.options.enable_wal = true)
    (h : RunInv world acked) (hw : Within config world call) :
    RunInv ((call.program config).exec world []).2.store
      (acked ++ if ((call.program config).exec world []).1 then
        (call.record config world.manager).toList else []) := by
  have hreturned := (Prog.wp_exec (wp_call hwal h hw)).1
  rw [← (storeOf_returned h hw hreturned).1]
  exact hreturned.inv

/-- A record newer than all others repeats no version. -/
theorem functional_record {made : Option DynamicRecord}
    (h : Versions.Functional DynamicRecord.node_id DynamicRecord.sequence_id acked)
    (hlt : ∀ r, made = some r → ∀ a ∈ acked, a.sequence_id < r.sequence_id) :
    Versions.Functional DynamicRecord.node_id DynamicRecord.sequence_id
      (acked ++ made.toList) := by
  intro a ha b hb hnode hseq
  rw [List.mem_append, Option.mem_toList] at ha hb
  rcases ha with ha | ha <;> rcases hb with hb | hb
  · exact h a ha b hb hnode hseq
  · exact absurd hseq (hlt b hb a ha).ne
  · exact absurd hseq (hlt a ha b hb).ne'
  · rw [ha] at hb
    exact Option.some.inj hb

/-- Between two calls the directory holds the acknowledged records, no two of one version, and these
stand for the calls that succeeded. -/
theorem runs_invariant (hwal : config.options.enable_wal = true)
    (hclean : CleanlyClosed disk manifest tables logged) (h : Runs config disk history world) :
    RunInv world (ackedRecords (tableRecords tables ++ logged) history) ∧
      Versions.Functional DynamicRecord.node_id DynamicRecord.sequence_id
        (ackedRecords (tableRecords tables ++ logged) history) ∧
      storeOf (ackedRecords (tableRecords tables ++ logged) history) =
        applyAcked (storeOf (tableRecords tables ++ logged)) history := by
  induction h with
  | start =>
    exact ⟨by simpa [ackedRecords] using .of_cleanlyClosed hclean,
      by simpa [ackedRecords] using hclean.functional, by simp [ackedRecords, applyAcked]⟩
  | @call history world call _ hw ih =>
    obtain ⟨hinv, hfunctional, hstore⟩ := ih
    have hreturned := (Prog.wp_exec (wp_call hwal hinv hw)).1
    obtain ⟨hrecords, hstore'⟩ := storeOf_returned hinv hw hreturned
    rw [ackedRecords_concat, applyAcked_concat, ← hstore]
    refine ⟨hinv.call hwal hw, ?_, ?_⟩
    · have hnext := functional_record hfunctional fun r hr => hinv.newer hw hr
      rwa [hrecords] at hnext
    · rwa [hrecords] at hstore'
  | restart _ hclosed ih => exact ⟨ih.1.restart hclosed, ih.2⟩

/-- The records of the call in flight: one, or none. -/
def pending (inflight : Option Request) : List DynamicRecord := (inflight.bind Request.record).toList

theorem length_pending (inflight : Option Request) : (pending inflight).length ≤ 1 := by
  rw [pending]
  cases inflight.bind Request.record <;> simp

/-- Where a process stopped, and which writes it had acknowledged. -/
structure Stopped (store : NodeId → Option Value) (acked : List DynamicRecord)
    (history : List (Request × Bool)) (inflight : Option Request) (start disk : Disk) : Prop where
  recoverable : Recoverable start disk acked (pending inflight)
  fresh : ∀ record ∈ pending inflight, record ∉ acked
  functional : Versions.Functional DynamicRecord.node_id DynamicRecord.sequence_id
    (acked ++ pending inflight)
  bounded : ∀ record ∈ acked ++ pending inflight, record.sequence_id < 2 ^ 63
  acknowledged : storeOf acked = applyAcked store history
  whole : ∀ request, inflight = some request →
    storeOf (acked ++ pending inflight) = applyAcked store (history ++ [(request, true)]) ∨
      pending inflight = []

/-- Wherever a run stops, the directory holds the acknowledged records, and the one in flight
wholly or not at all. -/
theorem recoverable_of_stop (hwal : config.options.enable_wal = true)
    (hclean : CleanlyClosed disk manifest tables logged) {inflight : Option Request}
    (h : Stop config disk history inflight start stopped) :
    Stopped (storeOf (tableRecords tables ++ logged))
      (ackedRecords (tableRecords tables ++ logged) history) history inflight start stopped := by
  cases h with
  | idle hrun =>
    obtain ⟨hinv, hfunctional, hstore⟩ := runs_invariant hwal hclean hrun
    obtain ⟨_, _, _, hh, _⟩ := id hinv
    exact ⟨hinv.recoverable, by simp [pending], by simpa [pending] using hfunctional,
      by simpa [pending] using hh.bounded, hstore, by simp⟩
  | @during world world' call hrun hw hvisited =>
    obtain ⟨hinv, hfunctional, hstore⟩ := runs_invariant hwal hclean hrun
    obtain ⟨hreturned, hmoves⟩ := Prog.wp_exec (wp_call hwal hinv hw)
    obtain ⟨_, _, _, hh, _⟩ := hreturned.inv
    have hpending : pending (some (call.request config world.manager)) =
        (call.record config world.manager).toList := rfl
    refine ⟨?_, ?_, functional_record hfunctional fun r hr => hinv.newer hw hr,
      by rw [hpending]; exact hh.bounded, hstore, ?_⟩
    · exact hmoves.forall_mem (J := fun u => Recoverable world.disk u.disk _ _) hinv.recoverable
        world' hvisited
    · intro record hrecord hacked
      rw [hpending, Option.mem_toList] at hrecord
      exact lt_irrefl _ (hinv.newer hw hrecord record hacked)
    · rintro request ⟨⟩
      rw [hpending, applyAcked_concat, ← hstore]
      cases hrecord : call.record config world.manager with
      | none => exact .inr rfl
      | some record =>
        obtain ⟨_, hwhole⟩ := storeOf_returned hinv hw hreturned
        rw [hreturned.accepted (by simp [hrecord]), hrecord] at hwhole
        exact .inl hwhole

end Stops

end Dynamic
