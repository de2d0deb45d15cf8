import AgentAware.Dynamic.FaultPatterns
import AgentAware.Dynamic.ReadIsolation

/-!
# Writes that report a failure

A write can fail before its record is published: then no reader can tell that it was tried. But
`append_record_locked` returns what the automatic flush returns, after the record was logged, kept
in memory and published, so a write whose flush fails reports a failure and is visible.

## Main definitions

- `PackedGraphEngine.insert`, `.update`, `.erase` — the engine's operations, which throw
- `SameVisible` — what no reader can tell apart
- `autoFlushFails` — the state before the write and the outcomes of its operations make its flush
  fail

## Main results

- `failed_write_invisible_iff` — a failed write is invisible unless its flush failed
-/

namespace Dynamic

open DynamicWriteManager

/-- Readers of the two managers get the same answers. -/
structure SameVisible (manager manager' : Manager) : Prop where
  current_sequence : manager'.latest_sequence = manager.latest_sequence
  latest_record : ∀ node_id read_sequence include_deleted,
    DynamicReadView.latestRecord manager'.read_view node_id read_sequence include_deleted =
      DynamicReadView.latestRecord manager.read_view node_id read_sequence include_deleted
  latest_records_for : ∀ node_ids read_sequence include_deleted,
    DynamicReadView.latestRecordsFor manager'.read_view node_ids read_sequence include_deleted =
      DynamicReadView.latestRecordsFor manager.read_view node_ids read_sequence include_deleted
  snapshot : ∀ read_sequence, DynamicReadView.snapshot manager'.read_view read_sequence =
    DynamicReadView.snapshot manager.read_view read_sequence
  collect : ∀ read_sequence,
    DynamicReadView.collectAllDeltaRecordsAt manager'.read_view read_sequence =
      DynamicReadView.collectAllDeltaRecordsAt manager.read_view read_sequence

theorem SameReads.sameVisible {manager manager' : Manager} (h : SameReads manager manager') :
    SameVisible manager manager' := by
  constructor
  · exact h.latest
  all_goals intros; rw [h.read_view]

variable {D : Type} [LinearOrder D] (config : Config D)

/-- The outcomes left behind the log, when it takes the record. -/
def afterLog (record : DynamicRecord) (manager : Manager) (faults : List Outcome) :
    Option (List Outcome) :=
  if config.options.enable_wal then
    if canLog manager record then Role.survive (logRoles record) faults else none
  else some faults

/-- The record is logged and makes a flush due, and the memtable then holds what no table can
store, or an operation of the flush fails without which it does not succeed. -/
def autoFlushFails (record : DynamicRecord) (world : World) (faults : List Outcome) : Bool :=
  match afterLog config record world.manager faults, world.manager.memtable.insert record with
  | some faults, some memtable =>
    config.options.enable_auto_flush && memtable.shouldFlush &&
      !(tableStorable world.manager.manifest.next_sstable_id memtable.snapshot &&
        (Role.survive (flushRoles config.options.enable_wal memtable.snapshot) faults).isSome)
  | _, _ => false

/-- The calls that write a record and have its flush fail. -/
def Call.autoFlushFails (call : Call) (world : World) (faults : List Outcome) : Bool :=
  match call.record config world.manager with
  | none => false
  | some record => Dynamic.autoFlushFails config record world faults

namespace PackedGraphEngine

/-- The engine's operations differ in the operation of the manager they call, and in the name in
their errors. `has_manager` tells whether the engine was given a `DynamicWriteManager`. -/
def write (operation : String) (call : Call) (has_manager : Bool) :
    Prog World (Except String Unit) := do
  if has_manager then
    if ← call.program config then return .ok ()
    else return .error ("PackedGraphEngine " ++ operation ++ " failed")
  else
    return .error ("PackedGraphEngine " ++ operation ++ " requires DynamicWriteManager")

def insert (id : NodeId) (vector : List FloatBits) :=
  write config "insert" (.insert id vector)

def update (id : NodeId) (vector : List FloatBits) :=
  write config "update" (.update id vector)

def erase (id : NodeId) := write config "erase" (.erase id)

/-- The operation of the engine for a call. -/
def ofCall : Call → Bool → Prog World (Except String Unit)
  | .insert id vector => insert config id vector
  | .update id vector => update config id vector
  | .erase id => erase config id
  | .open | .flush | .compactOnce | .close => fun _ => return .ok ()

end PackedGraphEngine

variable {config} {world : World} {faults : List Outcome}

/-- A call that writes a record runs as `append_record_locked` does. -/
theorem Call.exec_append {call : Call} {record : DynamicRecord}
    (h : call.record config world.manager = some record) :
    (call.program config).exec world faults =
      (appendRecordLocked config record).exec world faults := by
  have hinsert : ∀ node_id vector, (if world.manager.opened && !vector.isEmpty then
        some (insertRecord config world.manager node_id vector) else none) = some record →
      (DynamicWriteManager.insert config node_id vector).exec world faults =
        (appendRecordLocked config record).exec world faults := by
    intro node_id vector hrecord
    simp only [Option.ite_none_right_eq_some, Bool.and_eq_true, Bool.not_eq_true',
      Option.some.injEq] at hrecord
    obtain ⟨⟨hopened, hvector⟩, rfl⟩ := hrecord
    rw [DynamicWriteManager.insert, if_neg (by simp [hvector]), Prog.exec, Prog.run_bind]
    change Prog.run (if world.manager.opened = true then _ else _) _ = _
    rw [if_pos hopened]
    rfl
  cases call with
  | insert node_id vector => exact hinsert node_id vector h
  | update node_id vector => exact hinsert node_id vector h
  | erase node_id =>
    simp only [Call.record, Option.ite_none_right_eq_some, Option.some.injEq] at h
    obtain ⟨hopened, rfl⟩ := h
    rw [Call.program, DynamicWriteManager.erase, Prog.exec, Prog.run_bind]
    change Prog.run (if world.manager.opened = true then _ else _) _ = _
    rw [if_pos hopened]
    rfl
  | «open» | flush | compactOnce | close => cases h

omit [LinearOrder D] in
theorem exec_appendRecordLocked {record : DynamicRecord} :
    (appendRecordLocked config record).exec world faults =
      if ((recordLocked config record).exec world faults).1 then
        if config.options.enable_auto_flush &&
            ((recordLocked config record).exec world faults).2.store.manager.memtable.shouldFlush then
          (flushLocked config).run ((recordLocked config record).exec world faults).2
        else (true, ((recordLocked config record).exec world faults).2)
      else (false, ((recordLocked config record).exec world faults).2) := by
  rw [Prog.exec, appendRecordLocked, Prog.run_bind, Prog.exec]
  split
  · change Prog.run (if _ then _ else _) _ = _
    split <;> rfl
  · rfl

omit [LinearOrder D] in
/-- Readers notice a record by the sequence, also when the counter wraps around. -/
theorem wp_recordLocked_noticed {F : Outcome → Prop} {record : DynamicRecord}
    (hp : Published world.manager) :
    (recordLocked config record).wp F (fun _ _ => True) (fun ok v =>
      (ok = false → SameReads world.manager v.manager) ∧
        (ok = true → v.manager.latest_sequence ≠ world.manager.latest_sequence)) world := by
  refine wp_recordLocked_of (fun _ _ _ => trivial) (fun u hu => ⟨fun _ => hu, by simp⟩)
    fun u memtable hu => ?_
  simp only [Prog.wp_bind, wp_assign, wp_publish, Prog.wp_pure]
  refine ⟨trivial, trivial, trivial, by simp, fun _ => ?_⟩
  have hpositive := hp.positive
  rw [hp.latest, publishedSequence, publishedSequence, hu.next]
  dsimp only
  omega

omit [LinearOrder D] in
/-- The condition holds exactly when a flush is begun and returns false. -/
theorem autoFlushFails_eq {record : DynamicRecord} :
    autoFlushFails config record world faults =
      (((recordLocked config record).exec world faults).1 &&
        (config.options.enable_auto_flush &&
          ((recordLocked config record).exec world faults).2.store.manager.memtable.shouldFlush) &&
        !((flushLocked config).run ((recordLocked config record).exec world faults).2).1) := by
  have hrefused : (config.options.enable_wal = true ∧ canLog world.manager record = false) ∨
      world.manager.memtable.insert record = none →
      ((recordLocked config record).exec world faults).1 = false := fun h =>
    Prog.follows_refused (recordLocked_refused h) ⟨world, faults, []⟩ rfl
  cases hinsert : world.manager.memtable.insert record with
  | none => simp [autoFlushFails, hinsert, hrefused (.inr hinsert)]
  | some memtable =>
    by_cases hlog : config.options.enable_wal = true → canLog world.manager record = true
    · obtain ⟨hgood, hbad⟩ := follows_recordLocked hlog hinsert ⟨world, faults, []⟩ rfl
      have hafter : afterLog config record world.manager faults =
          Role.survive (if config.options.enable_wal then logRoles record else []) faults := by
        rw [afterLog]
        cases hwal : config.options.enable_wal with
        | false => simp
        | true => simp [hlog hwal]
      rw [autoFlushFails, hafter, hinsert]
      cases hsurvive : Role.survive (if config.options.enable_wal then logRoles record else [])
          faults with
      | none =>
        have hfailed : ((recordLocked config record).exec world faults).1 = false := hbad hsurvive
        simp [hfailed]
      | some rest =>
        obtain ⟨⟨hok, hmemtable, hid, hwriter⟩, hrest⟩ := hgood rest hsurvive
        have hsnapshot : memtable.snapshot.isEmpty = false := MemTable.snapshot_insert hinsert
        have hflush : ((flushLocked config).run
            ((recordLocked config record).run ⟨world, faults, []⟩).2).1 = _ :=
          run_flushLocked (by rw [hmemtable]; exact hsnapshot) hwriter
        rw [hmemtable, hid, hrest] at hflush
        rw [Prog.exec, hok, hmemtable, hflush, Bool.true_and]
    · push Not at hlog
      have hcan : config.options.enable_wal = true ∧ canLog world.manager record = false :=
        ⟨hlog.1, by simpa using hlog.2⟩
      have hafter : afterLog config record world.manager faults = none := by
        rw [afterLog, if_pos hcan.1, if_neg (by simp [hcan.2])]
      simp [autoFlushFails, hafter, hrefused (.inl hcan)]

omit [LinearOrder D] in
theorem append_invisible_iff {record : DynamicRecord} (hp : Published world.manager) :
    (((appendRecordLocked config record).exec world faults).1 = false →
      SameVisible world.manager
        ((appendRecordLocked config record).exec world faults).2.store.manager) ↔
      autoFlushFails config record world faults = false := by
  have hwp : (recordLocked config record).wp Prog.Faulty _ _ world :=
    wp_recordLocked_noticed hp
  have hrecorded := (Prog.wp_run hwp fun o (_ : o ∈ faults) => trivial).1
  rw [exec_appendRecordLocked, autoFlushFails_eq]
  generalize (recordLocked config record).exec world faults = recorded at hrecorded ⊢
  obtain ⟨ok, run⟩ := recorded
  cases ok with
  | false => exact iff_of_true (fun _ => (hrecorded.1 rfl).sameVisible) rfl
  | true =>
    cases hdue : config.options.enable_auto_flush && run.store.manager.memtable.shouldFlush with
    | false => simp
    | true =>
      -- the flush leaves the readers what the record gave them
      have hkeeps : KeepsReads Prog.Faulty (flushLocked config) run.store :=
        keepsReads_flushLocked
      have hflush := (Prog.wp_run_aux run hkeeps fun _ _ => trivial).1
      simp only [if_true, Bool.and_true, Bool.true_and, Bool.not_eq_false']
      cases hok : ((flushLocked config).run run).1 with
      | true => simp
      | false =>
        refine iff_of_false (fun hsame => ?_) (by simp)
        have hsequence := (hsame rfl).current_sequence
        exact hrecorded.2 rfl (hflush.latest.symm.trans hsequence)

theorem Call.sequence_of_record {call : Call} {record : DynamicRecord}
    (h : call.record config world.manager = some record) :
    record.sequence_id = world.manager.manifest.next_sequence_id := by
  cases call with
  | insert | update | erase =>
    simp only [Call.record, Option.ite_none_right_eq_some, Option.some.injEq] at h
    obtain ⟨_, rfl⟩ := h
    rfl
  | «open» | flush | compactOnce | close => cases h

/-- A write that fails is invisible unless it is its automatic flush that fails. -/
theorem call_invisible_iff {call : Call} (hp : Published world.manager)
    (hwrite : call.isWrite = true) :
    (((call.program config).exec world faults).1 = false →
      SameVisible world.manager ((call.program config).exec world faults).2.store.manager) ↔
      call.autoFlushFails config world faults = false := by
  cases hrecord : call.record config world.manager with
  | none =>
    rw [Call.autoFlushFails, hrecord]
    refine iff_of_true (fun _ => ?_) rfl
    have hwp : (call.program config).wp Prog.Faulty (fun _ _ => True)
        (fun _ v => SameReads world.manager v.manager) world :=
      Call.wp_refused hwrite hrecord (SameReads.refl _)
    exact (Prog.wp_run hwp fun o (_ : o ∈ faults) => trivial).1.sameVisible
  | some record =>
    rw [Call.exec_append hrecord, Call.autoFlushFails, hrecord]
    exact append_invisible_iff hp

/-- The engine passes a write on to its manager, and throws when that reports a failure. -/
theorem PackedGraphEngine.exec_ofCall {call : Call} (hwrite : call.isWrite = true)
    (has_manager : Bool) :
    ((PackedGraphEngine.ofCall config call has_manager).exec world faults).2 =
      (if has_manager then ((call.program config).exec world faults).2 else ⟨world, faults, []⟩) ∧
    ((∃ message, ((PackedGraphEngine.ofCall config call has_manager).exec world faults).1 =
      .error message) ↔
        (has_manager = true → ((call.program config).exec world faults).1 = false)) := by
  have hengine : ∀ operation,
      ((PackedGraphEngine.write config operation call has_manager).exec world faults).2 =
        (if has_manager then ((call.program config).exec world faults).2
          else ⟨world, faults, []⟩) ∧
      ((∃ message, ((PackedGraphEngine.write config operation call has_manager).exec world
        faults).1 = .error message) ↔
          (has_manager = true → ((call.program config).exec world faults).1 = false)) := by
    intro operation
    cases has_manager with
    | false => exact ⟨rfl, iff_of_true ⟨_, rfl⟩ (by simp)⟩
    | true =>
      rw [PackedGraphEngine.write, if_pos rfl, if_pos rfl, Prog.exec, Prog.run_bind, Prog.exec]
      cases hok : ((call.program config).run ⟨world, faults, []⟩).1 with
      | false => exact ⟨rfl, iff_of_true ⟨_, rfl⟩ fun _ => rfl⟩
      | true =>
        refine ⟨rfl, iff_of_false ?_ (by simp)⟩
        rintro ⟨message, hmessage⟩
        cases hmessage
  cases call with
  | insert | update | erase => exact hengine _
  | «open» | flush | compactOnce | close => cases hwrite

/-- In every reachable state of an open manager and whatever fails meanwhile, a write that returns
false, or makes the engine throw, is invisible if and only if it does not get as far as an
automatic flush that fails. -/
theorem failed_write_invisible_iff {past : List World} {call : Call}
    (h : Timeline config (world :: past)) (hwrite : call.isWrite = true) (has_manager : Bool) :
    ((((call.program config).exec world faults).1 = false →
        SameVisible world.manager ((call.program config).exec world faults).2.store.manager) ↔
      call.autoFlushFails config world faults = false) ∧
    (((∃ message, ((PackedGraphEngine.ofCall config call has_manager).exec world faults).1 =
          .error message) →
        SameVisible world.manager
          ((PackedGraphEngine.ofCall config call has_manager).exec world faults).2.store.manager) ↔
      (has_manager = true → call.autoFlushFails config world faults = false)) := by
  obtain ⟨⟨world', past', heq, hp⟩, -⟩ := h.spec
  obtain ⟨rfl, rfl⟩ := List.cons.inj heq
  refine ⟨call_invisible_iff hp hwrite, ?_⟩
  rw [(PackedGraphEngine.exec_ofCall hwrite has_manager).1,
    (PackedGraphEngine.exec_ofCall hwrite has_manager).2]
  cases has_manager with
  | false => simp [(SameReads.refl world.manager).sameVisible]
  | true => simpa using call_invisible_iff hp hwrite

/-- The log of the erase of node 7 cannot be written. -/
theorem failed_write_invisible_log :
    let config : Config ℕ := { squared_l2 := fun _ _ => 0 }
    let opened := ((DynamicWriteManager.open config).exec ⟨{}, new config⟩ []).2.store
    let failed := (DynamicWriteManager.erase config 7).exec opened [.fail 0]
    failed.1 = false ∧ SameVisible opened.manager failed.2.store.manager := by
  intro config opened failed
  have hfails : failed.1 = false := by decide +kernel
  have hopened : Timeline config [opened] := .opened rfl (by decide +kernel)
  have hiff := @failed_write_invisible_iff ℕ _ config opened [.fail 0] [] (.erase 7) hopened rfl false
  exact ⟨hfails, hiff.1.mpr (by decide +kernel) hfails⟩

/-- The erase of node 7 is logged and published, and then the table of its flush cannot be
written. -/
theorem failed_write_visible :
    let config : Config ℕ :=
      { options := { memtable_flush_bytes := 1 }, squared_l2 := fun _ _ => 0 }
    let opened := ((DynamicWriteManager.open config).exec ⟨{}, new config⟩ []).2.store
    let failed := (DynamicWriteManager.erase config 7).exec opened
      (List.replicate 10 .done ++ [.fail 0])
    Timeline config [opened] ∧ failed.1 = false ∧
      ¬SameVisible opened.manager failed.2.store.manager := by
  refine ⟨.opened rfl (by decide +kernel), by decide +kernel, fun hsame => ?_⟩
  exact absurd hsame.current_sequence (by decide +kernel)

end Dynamic
