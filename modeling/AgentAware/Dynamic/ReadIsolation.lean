import AgentAware.Dynamic.Runs

/-!
# Readers beside writers

A reader takes no lock. It loads the latest sequence once, and later, between any two steps of the
writers, it loads the published view and reads it at that sequence. Writers only ever extend the
published history, by records newer than every sequence a reader can have loaded before, so all
reads at one sequence agree, whatever happens between them and whether or not it succeeds.

## Main definitions

- `Extends` — what any number of steps of the writers can do to what readers load
- `Published` — the invariant of an open manager between two calls
- `Timeline` — the worlds that readers may look at while a manager stays open

## Main results

- `wp_extends` — every step of every call extends the published history
- `reads_isolated` — reads at a sequence are repeatable, newest, and complete
-/

namespace Dynamic

open DynamicWriteManager

/-- The records that a reader who loads the view can find. -/
def publishedRecords (manager : Manager) : List DynamicRecord :=
  (DynamicReadView.history manager.read_view).getD []

/-- Later on, a reader finds what it found before and records newer than any sequence that could be
loaded before. -/
structure Extends (manager manager' : Manager) : Prop where
  isOpen : (DynamicReadView.history manager.read_view).isSome →
    (DynamicReadView.history manager'.read_view).isSome
  latest : manager.latest_sequence ≤ manager'.latest_sequence
  records : ∃ added, publishedRecords manager' = publishedRecords manager ++ added ∧
    ∀ record ∈ added, manager.latest_sequence < record.sequence_id

/-- Steps that leave alone what readers load, and what the next view is made of. -/
structure SameReads (manager manager' : Manager) : Prop where
  opened : manager'.opened = manager.opened
  read_view : manager'.read_view = manager.read_view
  latest : manager'.latest_sequence = manager.latest_sequence
  recent : manager'.recent_records = manager.recent_records
  next : manager'.manifest.next_sequence_id = manager.manifest.next_sequence_id

/-- Between two calls the view of an open manager is up to date. -/
structure Published (manager : Manager) : Prop where
  opened : manager.opened = true
  view : manager.read_view = some (currentView manager)
  latest : manager.latest_sequence = publishedSequence manager.manifest
  positive : 0 < manager.manifest.next_sequence_id

section Relations

variable {manager manager' manager'' : Manager}

theorem Extends.refl (manager : Manager) : Extends manager manager :=
  ⟨id, le_rfl, [], by simp, by simp⟩

theorem Extends.trans (h : Extends manager manager') (h' : Extends manager' manager'') :
    Extends manager manager'' := by
  obtain ⟨added, hrecords, hadded⟩ := h.records
  obtain ⟨added', hrecords', hadded'⟩ := h'.records
  refine ⟨fun hopen => h'.isOpen (h.isOpen hopen), h.latest.trans h'.latest, added ++ added', ?_, ?_⟩
  · rw [hrecords', hrecords, List.append_assoc]
  · intro record hrecord
    rcases List.mem_append.mp hrecord with hr | hr
    · exact hadded record hr
    · exact lt_of_le_of_lt h.latest (hadded' record hr)

theorem SameReads.refl (manager : Manager) : SameReads manager manager := ⟨rfl, rfl, rfl, rfl, rfl⟩

theorem SameReads.trans (h : SameReads manager manager') (h' : SameReads manager' manager'') :
    SameReads manager manager'' :=
  ⟨h'.opened.trans h.opened, h'.read_view.trans h.read_view, h'.latest.trans h.latest,
    h'.recent.trans h.recent, h'.next.trans h.next⟩

theorem SameReads.extends (h : SameReads manager manager') : Extends manager manager' :=
  ⟨by rw [h.read_view]; exact id, h.latest.ge, [], by
    rw [publishedRecords, h.read_view, List.append_nil, publishedRecords], by simp⟩

theorem SameReads.published (h : SameReads manager manager') (hp : Published manager) :
    Published manager' where
  opened := h.opened.trans hp.opened
  view := by
    rw [h.read_view, hp.view, currentView, currentView, h.opened, h.recent, publishedSequence,
      publishedSequence, h.next]
  latest := by rw [h.latest, hp.latest, publishedSequence, publishedSequence, h.next]
  positive := by rw [h.next]; exact hp.positive

end Relations

section Steps

variable {D : Type} {config : Config D} {F : Outcome → Prop} {world : World}

/-- The steps of `m` leave the readers alone. -/
abbrev KeepsReads {α : Type} (F : Outcome → Prop) (m : Prog World α) (world : World) : Prop :=
  m.wp F (fun u v => SameReads u.manager v.manager)
    (fun _ v => SameReads world.manager v.manager) world

theorem KeepsReads.bind {α β : Type} {m : Prog World α} {f : α → Prog World β}
    (hm : KeepsReads F m world)
    (hf : ∀ a u, SameReads world.manager u.manager → KeepsReads F (f a) u) :
    KeepsReads F (m >>= f) world :=
  Prog.wp_bind_trans (fun _ _ _ => SameReads.trans) hm hf

theorem keepsReads_pure {α : Type} (a : α) : KeepsReads F (pure a) world := SameReads.refl _

theorem keepsReads_onDisk {α : Type} (m : Prog Disk α) : KeepsReads F (onDisk m) world := by
  rw [KeepsReads, wp_onDisk]
  exact Prog.wp_post (Prog.wp_trivial m fun _ _ => SameReads.refl _) fun _ _ _ => SameReads.refl _

theorem keepsReads_assign {f : Manager → Manager} (h : SameReads world.manager (f world.manager)) :
    KeepsReads F (assign f) world := ⟨h, h⟩

theorem keepsReads_look {α : Type} {f : World → Prog World α} (h : KeepsReads F (f world) world) :
    KeepsReads F (Prog.look >>= f) world := h

theorem keepsReads_ite {α : Type} {c : Prop} [Decidable c] {m m' : Prog World α}
    (h : KeepsReads F m world) (h' : KeepsReads F m' world) :
    KeepsReads F (if c then m else m') world :=
  Prog.wp_ite (fun _ => h) fun _ => h'

theorem keepsReads_rotateWalLocked : KeepsReads F (rotateWalLocked config) world := by
  apply keepsReads_ite
  · -- the log is closed if there is one, and then started anew
    have hrest : ∀ (closed : Bool) (u : World), KeepsReads F (if closed then do
        assign fun manager => { manager with wal_writer := none }
        let _ ← onDisk (removeFile .wal)
        let writer ← onDisk WalWriter.new
        let synced ← onDisk writer.sync
        assign fun manager => { manager with wal_writer := some synced.2 }
        return synced.1
      else return false) u := by
      intro closed u
      apply keepsReads_ite
      · refine (keepsReads_assign ⟨rfl, rfl, rfl, rfl, rfl⟩).bind fun _ _ _ => ?_
        refine (keepsReads_onDisk _).bind fun _ _ _ => ?_
        refine (keepsReads_onDisk _).bind fun _ _ _ => ?_
        refine (keepsReads_onDisk _).bind fun _ _ _ => ?_
        exact (keepsReads_assign ⟨rfl, rfl, rfl, rfl, rfl⟩).bind fun _ _ _ => keepsReads_pure _
      · exact keepsReads_pure false
    apply keepsReads_look
    cases world.manager.wal_writer with
    | none => exact hrest true world
    | some writer =>
      refine (keepsReads_onDisk _).bind fun closed u _ => ?_
      exact (keepsReads_assign ⟨rfl, rfl, rfl, rfl, rfl⟩).bind fun _ v _ => hrest _ v
  · exact keepsReads_pure true

theorem keepsReads_flushLocked : KeepsReads F (flushLocked config) world := by
  apply keepsReads_look
  apply keepsReads_ite
  · exact keepsReads_pure true
  · refine (keepsReads_onDisk _).bind fun written u hu => keepsReads_ite ?_ (keepsReads_pure false)
    refine (keepsReads_onDisk _).bind fun saved v hv => keepsReads_ite ?_ (keepsReads_pure false)
    refine (keepsReads_onDisk _).bind fun reader w hw => ?_
    cases reader with
    | none => exact keepsReads_pure false
    | some reader =>
      -- the manifest saved has the sequence counter of the manager
      have hnext := ((hu.trans hv).trans hw).next.symm
      exact (keepsReads_assign ⟨rfl, rfl, rfl, rfl, hnext⟩).bind fun _ _ _ =>
        keepsReads_rotateWalLocked

theorem keepsReads_removeTables (output_sstable_id : ℕ) (sstables : List SSTableReader) :
    KeepsReads F (removeTables output_sstable_id sstables) world := by
  induction sstables generalizing world with
  | nil => exact keepsReads_pure ()
  | cons table sstables ih =>
    apply keepsReads_ite
    · refine (keepsReads_onDisk _).bind fun _ _ _ => ?_
      refine (keepsReads_onDisk _).bind fun _ _ _ => ?_
      exact (keepsReads_onDisk _).bind fun _ _ _ => ih
    · exact ih

theorem keepsReads_compactOnce : KeepsReads F compactOnce world := by
  apply keepsReads_look
  apply keepsReads_ite
  · exact keepsReads_pure _
  · refine (keepsReads_onDisk _).bind fun result u hu => keepsReads_ite ?_ (keepsReads_pure _)
    refine (keepsReads_onDisk _).bind fun reader v hv => ?_
    cases reader with
    | none => exact keepsReads_pure _
    | some reader =>
      refine (keepsReads_onDisk _).bind fun saved w hw => keepsReads_ite ?_ (keepsReads_pure _)
      have hnext := ((hu.trans hv).trans hw).next.symm
      refine (keepsReads_assign ⟨rfl, rfl, rfl, rfl, hnext⟩).bind fun _ _ _ => ?_
      exact (keepsReads_removeTables _ _).bind fun _ _ _ => keepsReads_pure _

/-- `record_locked` leaves the readers alone until the record is in the log and in the memtable. -/
theorem wp_recordLocked_of {record : DynamicRecord} {R : World → World → Prop} {Q : Bool → World → Prop}
    (hquiet : ∀ u v : World, SameReads u.manager v.manager → R u v)
    (hrefused : ∀ u : World, SameReads world.manager u.manager → Q false u)
    (hpublish : ∀ (u : World) (memtable : MemTable), SameReads world.manager u.manager →
      Prog.wp F R (do
        assign fun manager =>
          { manager with
            memtable := memtable
            recent_records := manager.recent_records ++ [record]
            manifest := { manager.manifest with
              next_sequence_id := (manager.manifest.next_sequence_id + 1) % 2 ^ 64 } }
        publishReadViewLocked
        return true) Q u) :
    (recordLocked config record).wp F R Q world := by
  have hrest : ∀ (logged : Bool) (u : World), SameReads world.manager u.manager →
      Prog.wp F R (if logged then
          Option.casesOn (motive := fun _ => Prog World Bool)
            (world.manager.memtable.insert record) (return false) fun memtable => do
            assign fun manager =>
              { manager with
                memtable := memtable
                recent_records := manager.recent_records ++ [record]
                manifest := { manager.manifest with
                  next_sequence_id := (manager.manifest.next_sequence_id + 1) % 2 ^ 64 } }
            publishReadViewLocked
            return true
        else return false) Q u := by
    intro logged u hu
    refine Prog.wp_ite (fun _ => ?_) fun _ => hrefused u hu
    cases world.manager.memtable.insert record with
    | none => exact hrefused u hu
    | some memtable => exact hpublish u memtable hu
  rw [recordLocked, Prog.wp_bind, Prog.wp_look]
  dsimp only
  -- with a log, and without one
  split
  · cases world.manager.wal_writer with
    | none => exact hrest false world (SameReads.refl _)
    | some writer =>
      dsimp only
      rw [Prog.wp_bind]
      refine Prog.wp_mono (keepsReads_onDisk (F := F) _) (fun logged u hu => ?_) fun u v => hquiet u v
      have hassign : SameReads u.manager { u.manager with wal_writer := some logged.2 } :=
        ⟨rfl, rfl, rfl, rfl, rfl⟩
      have hnext := hrest logged.1 ⟨u.disk, { u.manager with wal_writer := some logged.2 }⟩
        (hu.trans hassign)
      refine ⟨hquiet u _ hassign, ?_⟩
      revert hnext
      cases world.manager.memtable.insert record <;> exact id
  · have hnext := hrest true world (SameReads.refl _)
    revert hnext
    cases world.manager.memtable.insert record <;> exact id

/-- The two stores of `publish_read_view_locked` after a record was added. -/
theorem wp_publish_extends {u : World} {record : DynamicRecord} {memtable : MemTable}
    (hp : Published u.manager) (hseq : record.sequence_id = u.manager.manifest.next_sequence_id)
    (hnext : u.manager.manifest.next_sequence_id + 1 < 2 ^ 64) :
    Prog.wp F (fun v w : World => Extends v.manager w.manager) (do
        assign fun manager =>
          { manager with
            memtable := memtable
            recent_records := manager.recent_records ++ [record]
            manifest := { manager.manifest with
              next_sequence_id := (manager.manifest.next_sequence_id + 1) % 2 ^ 64 } }
        publishReadViewLocked
        return true) (fun _ v => Published v.manager) u := by
  have hlatest : u.manager.latest_sequence + 1 = u.manager.manifest.next_sequence_id := by
    have hpos := hp.positive
    rw [hp.latest, publishedSequence]
    omega
  simp only [Prog.wp_bind, wp_assign, wp_publish, Prog.wp_pure, Nat.mod_eq_of_lt hnext]
  refine ⟨⟨id, le_rfl, [], by simp [publishedRecords], by simp⟩, ?_, ?_,
    ⟨hp.opened, rfl, rfl, Nat.succ_pos _⟩⟩
  · -- the view that is published has at most this record in addition
    have hbefore : publishedRecords u.manager = uniqueRecordVersions u.manager.recent_records := by
      simp [publishedRecords, hp.view, DynamicReadView.history, currentView, hp.opened]
    refine ⟨fun _ => by simp [DynamicReadView.history, currentView, hp.opened], le_rfl, ?_⟩
    show ∃ added, (DynamicReadView.history (some (currentView _))).getD [] =
      publishedRecords u.manager ++ added ∧ _
    simp only [DynamicReadView.history, currentView, hp.opened, if_true, Option.getD_some,
      uniqueRecordVersions, hbefore]
    rw [Versions.firsts_concat]
    split
    · exact ⟨[], (List.append_nil _).symm, by simp⟩
    · refine ⟨[record], rfl, fun r hr => ?_⟩
      rw [List.mem_singleton.mp hr, hseq]
      show u.manager.latest_sequence < u.manager.manifest.next_sequence_id
      omega
  · -- the sequence follows the view
    refine ⟨id, ?_, [], by simp [publishedRecords], by simp⟩
    show u.manager.latest_sequence ≤ u.manager.manifest.next_sequence_id + 1 - 1
    omega

theorem wp_recordLocked_extends {record : DynamicRecord} (hp : Published world.manager)
    (hseq : record.sequence_id = world.manager.manifest.next_sequence_id)
    (hnext : world.manager.manifest.next_sequence_id + 1 < 2 ^ 64) :
    (recordLocked config record).wp F (fun u v => Extends u.manager v.manager)
      (fun _ v => Published v.manager) world :=
  wp_recordLocked_of (fun _ _ hu => hu.extends) (fun _ hu => hu.published hp) fun _ _ hu =>
    wp_publish_extends (hu.published hp) (hseq.trans hu.next.symm) (hu.next ▸ hnext)

theorem KeepsReads.extends {α : Type} {m : Prog World α} (h : KeepsReads F m world)
    (hp : Published world.manager) :
    m.wp F (fun u v => Extends u.manager v.manager) (fun _ v => Published v.manager) world :=
  Prog.wp_mono h (fun _ _ hv => hv.published hp) fun _ _ hv => hv.extends

theorem wp_appendRecordLocked_extends {record : DynamicRecord} (hp : Published world.manager)
    (hseq : record.sequence_id = world.manager.manifest.next_sequence_id)
    (hnext : world.manager.manifest.next_sequence_id + 1 < 2 ^ 64) :
    (appendRecordLocked config record).wp F (fun u v => Extends u.manager v.manager)
      (fun _ v => Published v.manager) world := by
  rw [appendRecordLocked, Prog.wp_bind]
  refine Prog.wp_post (wp_recordLocked_extends hp hseq hnext) fun recorded u hu => ?_
  refine Prog.wp_ite (fun _ => ?_) fun _ => hu
  rw [Prog.wp_bind, Prog.wp_look]
  exact Prog.wp_ite (fun _ => keepsReads_flushLocked.extends hu) fun _ => hu

theorem wp_insert_extends [LinearOrder D] {node_id : NodeId} {vector : List FloatBits}
    (hp : Published world.manager) (hnext : world.manager.manifest.next_sequence_id + 1 < 2 ^ 64) :
    (DynamicWriteManager.insert config node_id vector).wp F
      (fun u v => Extends u.manager v.manager) (fun _ v => Published v.manager) world := by
  unfold DynamicWriteManager.insert
  refine Prog.wp_ite (fun _ => hp) fun _ => ?_
  rw [Prog.wp_bind, Prog.wp_look]
  exact Prog.wp_ite (fun _ => wp_appendRecordLocked_extends hp rfl hnext) fun _ => hp

/-- Every step of every call extends what readers find, whatever fails, unless the sequence counter
wraps around. -/
theorem wp_extends [LinearOrder D] {call : Call} (hcall : call ≠ .close)
    (hnext : call.isWrite = true → world.manager.manifest.next_sequence_id + 1 < 2 ^ 64)
    (hp : Published world.manager) :
    (call.program config).wp F (fun u v => Extends u.manager v.manager)
      (fun _ v => Published v.manager) world := by
  cases call with
  | «open» =>
    unfold Call.program DynamicWriteManager.open
    rw [Prog.wp_bind, Prog.wp_look]
    exact Prog.wp_ite (fun _ => hp) fun hclosed => absurd hp.opened hclosed
  | insert node_id vector => exact wp_insert_extends hp (hnext rfl)
  | update node_id vector => exact wp_insert_extends hp (hnext rfl)
  | erase node_id =>
    unfold Call.program DynamicWriteManager.erase
    rw [Prog.wp_bind, Prog.wp_look]
    exact Prog.wp_ite (fun _ => wp_appendRecordLocked_extends hp rfl (hnext rfl)) fun _ => hp
  | flush =>
    unfold Call.program DynamicWriteManager.flush
    rw [Prog.wp_bind, Prog.wp_look]
    exact Prog.wp_ite (fun _ => keepsReads_flushLocked.extends hp) fun _ => hp
  | compactOnce =>
    unfold Call.program
    rw [Prog.wp_bind]
    exact Prog.wp_post (keepsReads_compactOnce.extends hp) fun _ _ hv => hv
  | close => exact absurd rfl hcall

/-- Reading the tables leaves the loaded manifest alone. -/
theorem wp_loadTables_manifest (entries : List ManifestSSTableEntry) (largest : ℕ)
    (world : World) :
    (loadTables entries largest).wp F (fun _ _ => True)
      (fun _ v => v.manager.manifest = world.manager.manifest) world := by
  induction entries generalizing largest world with
  | nil => rfl
  | cons entry entries ih =>
    rw [loadTables, Prog.wp_bind, wp_onDisk]
    refine Prog.wp_post (Prog.wp_trivial _ fun _ _ => trivial) fun reader d _ => ?_
    cases reader with
    | none => rfl
    | some reader =>
      rw [Prog.wp_bind, wp_onDisk]
      refine Prog.wp_post (Prog.wp_trivial _ fun _ _ => trivial) fun records d' _ => ?_
      rw [Prog.wp_bind, wp_assign]
      refine ⟨trivial, Prog.wp_post (ih _ _) fun _ v hv => ?_⟩
      exact hv

theorem wp_load_positive (disk : Disk) :
    Manifest.load.wp F (fun _ _ => True)
      (fun loaded _ => ∀ manifest, loaded = some manifest → 0 < manifest.next_sequence_id)
      disk := by
  have hstored : ∀ manifest, Manifest.stored disk = some manifest →
      0 < manifest.next_sequence_id := fun manifest h =>
    (Manifest.loadable_iff.mp (Manifest.loadable_of_stored h)).2.2.2.2.1
  rw [Manifest.load, Prog.wp_bind, Prog.wp_look]
  refine Prog.wp_ite (fun _ => ?_) fun _ => ?_
  · rintro manifest ⟨⟩
    exact Nat.one_pos
  · rw [Prog.wp_bind, Prog.probe, Prog.wp_attempt]
    exact ⟨⟨trivial, hstored⟩, fun _ _ => ⟨trivial, by rintro _ ⟨⟩⟩⟩

theorem wp_finishOpen_published (h : 0 < world.manager.manifest.next_sequence_id) :
    (do finishOpen; return true).wp F (fun _ _ => True)
      (fun ok v => ok = true → Published v.manager) world := by
  simp only [finishOpen, Prog.wp_bind, wp_assign, wp_publish, Prog.wp_pure]
  exact ⟨trivial, trivial, trivial, trivial, fun _ => ⟨rfl, rfl, rfl, h⟩⟩

/-- The counter only grows while the log is replayed. -/
theorem wp_openWal_positive {largest : ℕ} (h : 0 < world.manager.manifest.next_sequence_id) :
    (openWal largest).wp F (fun _ _ => True)
      (fun _ v => 0 < v.manager.manifest.next_sequence_id) world := by
  rw [openWal, Prog.wp_bind, wp_onDisk]
  refine Prog.wp_post (Prog.wp_trivial _ fun _ _ => trivial) fun records d _ => ?_
  rw [Prog.wp_bind, wp_assign]
  refine ⟨trivial, ?_⟩
  rw [Prog.wp_bind, wp_onDisk]
  refine Prog.wp_post (Prog.wp_trivial _ fun _ _ => trivial) fun writer d' _ => ?_
  rw [Prog.wp_bind, wp_onDisk]
  refine Prog.wp_post (Prog.wp_trivial _ fun _ _ => trivial) fun synced d'' _ => ?_
  rw [Prog.wp_bind, wp_assign]
  exact ⟨trivial, lt_of_lt_of_le h (le_max_left _ _)⟩

/-- A manager that was opened has published its view, whatever failed on the way. -/
theorem wp_open_published (hclosed : world.manager.opened = false) :
    (DynamicWriteManager.open config).wp F (fun _ _ => True)
      (fun ok v => ok = true → Published v.manager) world := by
  have hfails : ∀ {m : Prog World Bool} {u : World},
      m.wp F (fun _ _ => True) (fun ok v => ok = true → Published v.manager) u →
      ((onDisk Prog.probe) >>= fun ok => if ok = true then m else pure false).wp F
        (fun _ _ => True) (fun ok v => ok = true → Published v.manager) u := fun h =>
    ⟨⟨trivial, h⟩, fun _ _ => ⟨trivial, fun hfalse => absurd hfalse Bool.false_ne_true⟩⟩
  rw [DynamicWriteManager.open, Prog.wp_bind, Prog.wp_look]
  refine Prog.wp_ite (fun hopen => absurd hopen (by simp [hclosed])) fun _ => ?_
  refine hfails (hfails (hfails ?_))
  rw [Prog.wp_bind, wp_onDisk]
  refine Prog.wp_post (wp_load_positive _) fun loaded d hloaded => ?_
  cases loaded with
  | none => simp
  | some manifest =>
    rw [Prog.wp_bind, wp_assign]
    refine ⟨trivial, ?_⟩
    rw [Prog.wp_bind]
    refine Prog.wp_post (wp_loadTables_manifest _ _ _) fun largest u hu => ?_
    have hpos : 0 < u.manager.manifest.next_sequence_id := by
      rw [hu]
      exact hloaded manifest rfl
    cases largest with
    | none => simp
    | some largest =>
      rw [Prog.wp_bind, wp_assign]
      refine ⟨trivial, Prog.wp_ite (fun _ => ?_) fun _ => ?_⟩
      · rw [Prog.wp_bind]
        refine Prog.wp_post (wp_openWal_positive hpos) fun ok v hv => ?_
        refine Prog.wp_ite (fun _ => wp_finishOpen_published hv) fun _ => by simp
      · rw [Prog.wp_bind, wp_assign]
        exact ⟨trivial, wp_finishOpen_published (lt_of_lt_of_le hpos (le_max_left _ _))⟩

end Steps

section Readers

variable {D : Type} [LinearOrder D] (config : Config D)

/-- The worlds that readers may look at while a manager stays open, latest first: from a successful
`open`, through any calls and any failures in them, each write with a sequence id to spare. -/
inductive Timeline : List World → Prop
  | opened {world : World} {faults : List Outcome} : world.manager.opened = false →
    ((DynamicWriteManager.open config).exec world faults).1 = true →
    Timeline [((DynamicWriteManager.open config).exec world faults).2.store]
  | call {world : World} {past : List World} {call : Call} {faults : List Outcome} :
    Timeline (world :: past) → call ≠ .close →
    (call.isWrite = true → world.manager.manifest.next_sequence_id + 1 < 2 ^ 64) →
    Timeline (((call.program config).exec world faults).2.visited ++ past)

variable {config}

/-- Of any two moments the later one extends the earlier one, and the writers may go on. -/
theorem Timeline.spec {seen : List World} (h : Timeline config seen) :
    (∃ world past, seen = world :: past ∧ Published world.manager) ∧
      (∀ world ∈ seen, (DynamicReadView.history world.manager.read_view).isSome) ∧
      seen.Pairwise fun later earlier => Extends earlier.manager later.manager := by
  have hopen : ∀ {manager : Manager}, Published manager →
      (DynamicReadView.history manager.read_view).isSome := fun hp => by
    simp [DynamicReadView.history, hp.view, currentView, hp.opened]
  have hreach : ∀ {u v : World}, Relation.ReflTransGen
      (fun u v => Extends u.manager v.manager) u v → Extends u.manager v.manager := by
    intro u v huv
    induction huv with
    | refl => exact Extends.refl _
    | tail _ hstep ih => exact ih.trans hstep
  induction h with
  | @opened world faults hclosed hok =>
    have hwp : (DynamicWriteManager.open config).wp Prog.Faulty _ _ world :=
      wp_open_published hclosed
    have hrun := Prog.wp_run hwp fun o (_ : o ∈ faults) => trivial
    exact ⟨⟨_, [], rfl, hrun.1 hok⟩, by simpa using hopen (hrun.1 hok),
      List.pairwise_singleton _ _⟩
  | @call world past call faults hseen hcall hnext ih =>
    obtain ⟨⟨world', past', heq, hp⟩, hopened, hpairs⟩ := ih
    obtain ⟨rfl, rfl⟩ := List.cons.inj heq
    have hwp : (call.program config).wp Prog.Faulty _ _ world := wp_extends hcall hnext hp
    obtain ⟨hpublished, hmoves⟩ := Prog.wp_run hwp fun o (_ : o ∈ faults) => trivial
    refine ⟨⟨_, _, rfl, hpublished⟩, fun later hlater => ?_,
      List.pairwise_append.mpr ⟨?_, hpairs.tail, ?_⟩⟩
    · rcases List.mem_append.mp hlater with hlater | hlater
      · exact (hreach (hmoves.reach_to_mem hlater)).isOpen (hopen hp)
      · exact hopened later (List.mem_cons_of_mem _ hlater)
    · exact hmoves.pairwise.imp hreach
    · intro later hlater earlier hearlier
      have hbefore := (List.pairwise_cons.mp hpairs).1 earlier hearlier
      exact hbefore.trans (hreach (hmoves.reach_to_mem hlater))

/-- What a reader finds up to a sequence that it loaded before is what it would have found then. -/
theorem filter_publishedRecords {earlier later : Manager} (h : Extends earlier later) :
    ((publishedRecords later).filter fun record =>
      record.sequence_id ≤ earlier.latest_sequence) =
      (publishedRecords earlier).filter fun record =>
        record.sequence_id ≤ earlier.latest_sequence := by
  obtain ⟨added, hrecords, hadded⟩ := h.records
  have hnone : added.filter (fun record =>
      record.sequence_id ≤ earlier.latest_sequence) = [] := by
    rw [List.filter_eq_nil_iff]
    intro record hrecord
    have hgt := hadded record hrecord
    simpa using hgt
  rw [hrecords, List.filter_append, hnone, List.append_nil]

end Readers

/-- The reads of one reader: `earlier` is when it loaded the sequence, `later` when it loads the
view. -/
structure ReadsAgree (earlier later : Manager) : Prop where
  latest_record : ∀ node_id include_deleted,
    DynamicReadView.latestRecord later.read_view node_id earlier.latest_sequence include_deleted =
      DynamicReadView.latestRecord earlier.read_view node_id earlier.latest_sequence include_deleted
  newest : ∀ node_id include_deleted,
    DynamicReadView.latestRecord later.read_view node_id earlier.latest_sequence include_deleted =
      (newestAt (publishedRecords earlier) node_id earlier.latest_sequence).filter
        (present include_deleted)
  latest_records_for : ∀ node_ids include_deleted,
    DynamicReadView.latestRecordsFor later.read_view node_ids earlier.latest_sequence
        include_deleted =
      DynamicReadView.latestRecordsFor earlier.read_view node_ids earlier.latest_sequence
        include_deleted
  pointwise : ∀ node_ids include_deleted node_id,
    (DynamicReadView.latestRecordsFor later.read_view node_ids earlier.latest_sequence
        include_deleted).lookup node_id =
      if node_id ∈ node_ids then
        DynamicReadView.latestRecord later.read_view node_id earlier.latest_sequence
          include_deleted
      else none
  snapshot : DynamicReadView.snapshot later.read_view earlier.latest_sequence =
    DynamicReadView.snapshot earlier.read_view earlier.latest_sequence
  mem_snapshot : ∀ record,
    record ∈ (DynamicReadView.snapshot later.read_view earlier.latest_sequence).records ↔
      DynamicReadView.latestRecord later.read_view record.node_id earlier.latest_sequence true =
        some record
  collect : DynamicReadView.collectAllDeltaRecordsAt later.read_view earlier.latest_sequence =
    DynamicReadView.collectAllDeltaRecordsAt earlier.read_view earlier.latest_sequence
  search : ∀ {D : Type} [LinearOrder D] (squared_l2 : List FloatBits → List FloatBits → D)
    (query : List FloatBits) (topk : ℕ),
    DynamicReadView.searchDeltaL2At later.read_view squared_l2 query topk
        earlier.latest_sequence =
      DynamicReadView.searchDeltaL2At earlier.read_view squared_l2 query topk
        earlier.latest_sequence

theorem readsAgree_of_extends {earlier later : Manager} (h : Extends earlier later)
    (hopen : (DynamicReadView.history earlier.read_view).isSome) : ReadsAgree earlier later := by
  have hfilter := filter_publishedRecords h
  obtain ⟨records, hrecords⟩ := Option.isSome_iff_exists.mp hopen
  obtain ⟨records', hrecords'⟩ := Option.isSome_iff_exists.mp (h.isOpen hopen)
  simp only [publishedRecords, hrecords, hrecords', Option.getD_some] at hfilter
  have hnewest : ∀ node_id, newestAt records' node_id earlier.latest_sequence =
      newestAt records node_id earlier.latest_sequence := by
    intro node_id
    rw [newestAt, hfilter, newestAt]
  have hcollect : deduplicateNewestAt records' earlier.latest_sequence =
      deduplicateNewestAt records earlier.latest_sequence := by
    rw [deduplicateNewestAt, hfilter, deduplicateNewestAt]
  constructor
  · intro node_id include_deleted
    simp only [DynamicReadView.latestRecord, hrecords, hrecords', latestRecordFromHistory_eq,
      hnewest]
  · intro node_id include_deleted
    simp only [DynamicReadView.latestRecord, publishedRecords, hrecords, hrecords',
      latestRecordFromHistory_eq, hnewest, Option.getD_some]
  · intro node_ids include_deleted
    simp only [DynamicReadView.latestRecordsFor, hrecords, hrecords']
    exact latestRecordsForFromHistory_congr hfilter
  · intro node_ids include_deleted node_id
    simp only [DynamicReadView.latestRecordsFor, DynamicReadView.latestRecord, hrecords']
    exact lookup_latestRecordsForFromHistory
  · simp only [DynamicReadView.snapshot, hrecords, hrecords', hcollect]
  · intro record
    simp only [DynamicReadView.snapshot, DynamicReadView.latestRecord, hrecords',
      latestRecordFromHistory_eq, filter_present_true]
    exact mem_deduplicateNewestAt
  · simp only [DynamicReadView.collectAllDeltaRecordsAt, hrecords, hrecords', hcollect]
  · intro D _ squared_l2 query topk
    simp only [DynamicReadView.searchDeltaL2At, DynamicReadView.collectAllDeltaRecordsAt, hrecords,
      hrecords', hcollect]

section Isolation

variable {D : Type} [LinearOrder D] {config : Config D}

/-- Whatever the writers do meanwhile, reads at a sequence that a reader loaded are what they were
at that moment, agree with each other, and miss no record up to the sequence. -/
theorem reads_isolated {newer older : List World} {earlier later : World}
    (h : Timeline config (newer ++ earlier :: older)) (hlater : later ∈ newer ++ [earlier]) :
    ReadsAgree earlier.manager later.manager ∧
      ∀ world ∈ newer ++ earlier :: older, ∀ record ∈ publishedRecords world.manager,
        record.sequence_id ≤ earlier.manager.latest_sequence →
        record ∈ publishedRecords later.manager := by
  obtain ⟨-, hopen, hpairs⟩ := h.spec
  have hextends : Extends earlier.manager later.manager := by
    rcases List.mem_append.mp hlater with hnew | hsame
    · exact (List.pairwise_append.mp hpairs).2.2 later hnew earlier List.mem_cons_self
    · rw [List.mem_singleton.mp hsame]
      exact Extends.refl _
  have hmem : later ∈ newer ++ earlier :: older := by
    rcases List.mem_append.mp hlater with hnew | hsame
    · exact List.mem_append_left _ hnew
    · rw [List.mem_singleton.mp hsame]
      exact List.mem_append_right _ List.mem_cons_self
  refine ⟨readsAgree_of_extends hextends (hopen earlier (by simp)), ?_⟩
  intro world hworld record hrecord hseq
  -- of any two moments one extends the other
  have htotal : (newer ++ earlier :: older).Pairwise fun u v =>
      Extends u.manager v.manager ∨ Extends v.manager u.manager := hpairs.imp .inr
  have hsymm : Std.Symm fun u v : World =>
      Extends u.manager v.manager ∨ Extends v.manager u.manager := ⟨fun _ _ huv => huv.symm⟩
  rcases List.Pairwise.forall_of_forall (fun u _ => .inl (Extends.refl _)) htotal hworld hmem with hext | hext
  · obtain ⟨added, hrecords, -⟩ := hext.records
    rw [hrecords]
    exact List.mem_append_left _ hrecord
  · obtain ⟨added, hrecords, hadded⟩ := hext.records
    rw [hrecords] at hrecord
    rcases List.mem_append.mp hrecord with hold | hnew
    · exact hold
    · exact absurd (hadded record hnew) (not_lt.mpr (hseq.trans hextends.latest))

end Isolation

/-- A reader that loaded the sequence before an erase does not see it afterwards. -/
theorem reads_isolated_erase :
    let config : Config ℕ := { squared_l2 := fun _ _ => 0 }
    let opened := ((DynamicWriteManager.open config).exec ⟨{}, new config⟩ []).2.store
    let erased := ((DynamicWriteManager.erase config 7).exec opened []).2.store
    (DynamicReadView.latestRecord erased.manager.read_view 7 1 true).isSome ∧
      DynamicReadView.latestRecord erased.manager.read_view 7 opened.manager.latest_sequence true =
        none ∧
      ReadsAgree opened.manager erased.manager := by
  intro config opened erased
  have htimeline : Timeline config
      ((((Call.erase 7).program config).exec opened []).2.visited ++ []) :=
    .call (.opened rfl (by decide +kernel)) (by decide) (by decide +kernel)
  have hmoves := (Prog.wp_exec (Prog.wp_trivial ((Call.erase 7).program config)
    fun _ _ => trivial : Prog.wp (fun _ => True) (fun _ _ => True) _ _ opened)).2
  obtain ⟨newer, hnewer⟩ := hmoves.eq_concat
  rw [List.append_nil, Run.visited, hnewer] at htimeline
  refine ⟨by decide +kernel, by decide +kernel, (reads_isolated htimeline ?_).1⟩
  rw [← hnewer]
  exact List.mem_cons_self

/-- Where the counter wraps around, a reader that loaded the sequence 0 meets a record that is written
later. -/
theorem reads_not_isolated :
    let config : Config ℕ := { squared_l2 := fun _ _ => 0 }
    let logged : DynamicRecord := { sequence_id := 2 ^ 64 - 2, node_id := 1, deleted := true }
    let disk := ({} : Disk).setFile .wal (some { synced := walCodec.encode logged })
    let opened := (DynamicWriteManager.open config).exec ⟨disk, new config⟩ []
    let erased := (DynamicWriteManager.erase config 7).exec opened.2.store []
    let erased' := (DynamicWriteManager.erase config 9).exec erased.2.store []
    opened.1 = true ∧ erased.1 = true ∧ erased'.1 = true ∧
      erased.2.store.manager.latest_sequence = 0 ∧
      ¬ReadsAgree erased.2.store.manager erased'.2.store.manager := by
  intro config logged disk opened erased erased'
  refine ⟨by decide +kernel, by decide +kernel, by decide +kernel, by decide +kernel, fun h => ?_⟩
  have hlatest := h.latest_record 9 true
  have hbefore : DynamicReadView.latestRecord erased.2.store.manager.read_view 9
      erased.2.store.manager.latest_sequence true = none := by decide +kernel
  have hafter : DynamicReadView.latestRecord erased'.2.store.manager.read_view 9
      erased.2.store.manager.latest_sequence true ≠ none := by decide +kernel
  exact hafter (hlatest.trans hbefore)

end Dynamic
