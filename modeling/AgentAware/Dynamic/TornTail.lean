import AgentAware.Dynamic.Recovery
import Mathlib.Tactic.IntervalCases

/-!
# Writing behind a torn tail

A log can end in bytes the reader stops at: a record that was written in part, or garbage. `open`
keeps those bytes and appends behind them, so the next reader stops before everything written since.
Only a flush helps, which starts a new log. This file says exactly when the writes made after such
an `open` survive a clean close.

## Main definitions

- `WritesSurvive` — every sequence of writes made after an `open` is recovered
- `FirstWriteFlushes` — the first write after an `open` makes an automatic flush due

## Main results

- `writesSurvive_iff` — writes behind a torn tail survive exactly when the first of them flushes
-/

namespace Dynamic

open DynamicWriteManager

/-- A word that starts inside itself repeats with the period of the shift. -/
theorem getElem?_of_border {α : Type} {tail word rest : List α} (h : tail ++ word = word ++ rest)
    {i : ℕ} (hi : i + tail.length < word.length) : word[i + tail.length]? = word[i]? := by
  have hleft : (tail ++ word)[i + tail.length]? = word[i]? := by
    rw [List.getElem?_append_right (by omega), Nat.add_sub_cancel]
  rw [← hleft, h, List.getElem?_append_left hi]

/-- The log encoding of an erase: only the sequence id and the node id vary. -/
def eraseBytes (ids : Bytes) : Bytes :=
  [0x50, 0x4C, 0x57, 0x41, 1, 0, 1, 0] ++ ids ++
    (List.replicate 16 0 ++ [1, 0xC5, 0x9D, 0x1C, 0x81])

theorem encode_eraseRecord (manager : Manager) (node_id : NodeId) :
    ∃ ids : Bytes, ids.length = 12 ∧
      walCodec.encode (eraseRecord manager node_id) = eraseBytes ids := by
  have hnode : node_id.toNat < 2 ^ 32 := node_id.toNat_lt
  have hhigh : node_id.toNat / 256 / 256 / 256 / 256 = 0 := by omega
  have hput : Codec.putLE 8 node_id.toNat = Codec.putLE 4 node_id.toNat ++ [0, 0, 0, 0] := by
    simp only [Codec.putLE, hhigh]
    rfl
  refine ⟨Codec.putLE 8 manager.manifest.next_sequence_id ++ Codec.putLE 4 node_id.toNat, by simp,
    ?_⟩
  change encodeRecord walLayout _ = _
  rw [encodeRecord]
  simp only [walLayout, headerOf, eraseRecord, Codec.putFields, hput]
  rfl

/-- No encoding of an erase starts inside itself: the first byte of the magic number and the last
byte of the checksum would have to fall on the ids both times. -/
theorem eraseBytes_no_border {ids tail rest : Bytes} (hids : ids.length = 12)
    (h : tail ++ eraseBytes ids = eraseBytes ids ++ rest) (hpos : 0 < tail.length)
    (hlt : tail.length < 41) : False := by
  obtain ⟨a, b, c, d, e, f, g, i, j, k, l, m, rfl⟩ : ∃ a b c d e f g i j k l m,
      ids = [a, b, c, d, e, f, g, i, j, k, l, m] := by
    match ids, hids with
    | [a, b, c, d, e, f, g, i, j, k, l, m], _ => exact ⟨a, b, c, d, e, f, g, i, j, k, l, m, rfl⟩
  have hfirst := @getElem?_of_border _ _ _ _ h 0 (by simpa [eraseBytes] using hlt)
  have hlast := @getElem?_of_border _ _ _ _ h (40 - tail.length) (by simp [eraseBytes]; omega)
  generalize tail.length = t at hpos hlt hfirst hlast
  interval_cases t <;> simp [eraseBytes] at hfirst hlast

theorem length_walCodec_encode (record : DynamicRecord) :
    (walCodec.encode record).length = 41 + record.payloadBytes :=
  length_encodeRecord walLayout record

/-- An erase written behind a bad tail is not read back. -/
theorem eraseRecord_not_replayed {manager : Manager} {node_id : NodeId} {tail : Bytes}
    (htail : tail ≠ []) (hstops : walCodec.decode tail = none) :
    eraseRecord manager node_id ∉
      replayBytes (tail ++ walCodec.encode (eraseRecord manager node_id)) := by
  obtain ⟨ids, hids, hencode⟩ := encode_eraseRecord manager node_id
  have hlength : (walCodec.encode (eraseRecord manager node_id)).length = 41 :=
    length_walCodec_encode _
  rw [replayBytes]
  cases hdecode : walCodec.decode (tail ++ walCodec.encode (eraseRecord manager node_id)) with
  | none => simp [walCodec.decodeAll_eq_nil hdecode]
  | some read =>
    obtain ⟨phantom, rest⟩ := read
    obtain ⟨hvalid, hbytes⟩ := walCodec.encode_of_decode hdecode
    -- a record read here reaches beyond the tail, so too little is left for another one
    have hlong : tail.length < (walCodec.encode phantom).length := by
      by_contra hshort
      obtain ⟨more, hmore⟩ := List.prefix_of_prefix_length_le (List.prefix_append _ _)
        (hbytes ▸ List.prefix_append tail _) (not_lt.mp hshort)
      have hsome := walCodec.decode_encode phantom more hvalid
      rw [hmore, hstops] at hsome
      cases hsome
    have htotal := congrArg List.length hbytes
    rw [List.length_append, List.length_append] at htotal
    have hnone : walCodec.decode rest = none := by
      cases hrest : walCodec.decode rest with
      | none => rfl
      | some read =>
        obtain ⟨_, hbytes'⟩ := walCodec.encode_of_decode hrest
        have hlen := congrArg List.length hbytes'
        rw [List.length_append, length_walCodec_encode] at hlen
        omega
    rw [walCodec.decodeAll_eq_cons hdecode, walCodec.decodeAll_eq_nil hnone, List.mem_singleton]
    rintro rfl
    rw [hencode] at hbytes hlong hlength
    exact eraseBytes_no_border hids hbytes (List.length_pos_iff.mpr htail) (by omega)

variable {D : Type} [LinearOrder D] (config : Config D)

/-- The world after an `open` by a new manager. -/
def openedWorld (disk : Disk) : World := (runCalls config [.open] ⟨disk, new config⟩).2

/-- Every sequence of successful writes after an `open`, followed by a close, is what the next
`open` recovers of the nodes written. -/
def WritesSurvive (disk : Disk) : Prop :=
  ∀ calls : List Call, (∀ call ∈ calls, call.isWrite = true) →
    withinAll config (calls ++ [.close]) (openedWorld config disk) = true →
    let written := runCalls config calls (openedWorld config disk)
    let closed := runCalls config [.close] written.2
    (∀ done ∈ written.1, done.2 = true) → ∀ record ∈ ackedRecords [] written.1,
      newestVersion (recover config closed.2.disk).2 record.node_id =
        newestOf (ackedRecords [] written.1) record.node_id

/-- Automatic flushes are enabled, and the smallest write of any node makes one due. -/
def FirstWriteFlushes (manager : Manager) : Prop :=
  config.options.enable_auto_flush = true ∧ ∀ node_id,
    (manager.memtable.insertReplayed (eraseRecord manager node_id)).shouldFlush = true

variable {config} {world : World} {disk : Disk} {manifest : ManifestData} {tables : List LiveTable}
  {live logged old recent : List DynamicRecord} {record : DynamicRecord} {tail : Bytes}

omit [LinearOrder D] in
/-- An erase is the smallest write of a node. -/
theorem shouldFlush_of_eraseRecord {manager : Manager} {memtable : MemTable}
    (hseq : record.sequence_id = manager.manifest.next_sequence_id)
    (hinsert : manager.memtable.insert record = some memtable)
    (h : (manager.memtable.insertReplayed (eraseRecord manager record.node_id)).shouldFlush = true) :
    memtable.shouldFlush = true := by
  have hsize : estimateRecordBytes (eraseRecord manager record.node_id) ≤
      estimateRecordBytes record := by
    simp only [estimateRecordBytes, eraseRecord, List.length_nil]
    omega
  simp only [MemTable.shouldFlush, decide_eq_true_eq, ge_iff_le] at h ⊢
  cases hlookup : manager.memtable.records.lookup record.node_id with
  | none =>
    simp only [MemTable.insert, hlookup, Option.some.injEq] at hinsert
    subst hinsert
    simp only [MemTable.insertReplayed, MemTable.insert, eraseRecord, hlookup,
      Option.getD_some] at h hsize
    dsimp only
    omega
  | some existing =>
    simp only [MemTable.insert, hlookup, Option.ite_none_left_eq_some, Option.some.injEq] at hinsert
    obtain ⟨hnewer, rfl⟩ := hinsert
    rw [hseq] at hnewer
    simp only [MemTable.insertReplayed, MemTable.insert, eraseRecord, hlookup, hnewer, if_false,
      Option.getD_some] at h hsize
    dsimp only
    omega

omit [LinearOrder D] in
/-- A first write that flushes replaces the log: from there on the run is one without a bad tail. -/
theorem wp_firstWrite (hwal : config.options.enable_wal = true)
    (hs : Session world manifest tables live) (hvalid : record.Valid)
    (hseq : record.sequence_id = world.manager.manifest.next_sequence_id)
    (hbound : ∀ r ∈ tableRecords tables ++ (live ++ [record]), r.sequence_id < 2 ^ 63)
    (hnext : world.manager.manifest.next_sequence_id + 1 < 2 ^ 63)
    (hid : world.manager.manifest.next_sstable_id + 1 < 2 ^ 63)
    (hflush : FirstWriteFlushes config world.manager) :
    (appendRecordLocked config record).wp Prog.Quiet (fun _ _ => True)
      (fun ok u => ok = true ∧ RunInv u (tableRecords tables ++ (live ++ [record]))) world := by
  rw [appendRecordLocked, Prog.wp_bind]
  refine Prog.wp_mono (wp_recordLocked hwal hs hvalid hseq (hnext.trans (by decide))) ?_
    fun _ _ _ => trivial
  rintro ok u ⟨rfl, memtable, hmemtable, hinsert, rfl⟩
  have hs' := hs.append hvalid hseq hmemtable (walCodec.encode record)
  have hdue : memtable.shouldFlush = true :=
    shouldFlush_of_eraseRecord hseq hinsert (hflush.2 record.node_id)
  have hguard : (config.options.enable_auto_flush &&
      (published world.manager memtable record).memtable.shouldFlush) = true := by
    rw [hflush.1]
    exact hdue
  simp only [if_true, Prog.wp_bind, Prog.wp_look, hguard]
  refine Prog.wp_mono (wp_flushLocked hwal hs' (by simp) hid hnext) ?_ fun _ _ _ => trivial
  rintro ok u ⟨rfl, hs'', hwal'', _⟩
  refine ⟨rfl, _, _, [], ⟨logHolds_of_empty ?_, ?_, .nil, hbound⟩, .inl hs''⟩
  · rw [walBytes, hwal'']
    rfl
  · rw [List.append_nil, tableRecords_append]
    exact (Versions.Covers.refl _).append (flushedTable_covers hs')

/-- Later calls write newer and newer records. -/
theorem RunInv.calls (hwal : config.options.enable_wal = true) (h : RunInv world (old ++ recent))
    (hold : ∀ a ∈ old, ∀ b ∈ recent, a.sequence_id < b.sequence_id)
    (hnew : recent.Pairwise fun a b => a.sequence_id < b.sequence_id) (calls : List Call)
    (hwithin : withinAll config calls world = true) :
    RunInv (runCalls config calls world).2
        (old ++ ackedRecords recent (runCalls config calls world).1) ∧
      (∀ a ∈ old, ∀ b ∈ ackedRecords recent (runCalls config calls world).1,
        a.sequence_id < b.sequence_id) ∧
      (ackedRecords recent (runCalls config calls world).1).Pairwise
        fun a b => a.sequence_id < b.sequence_id := by
  induction calls generalizing world recent with
  | nil => simpa [runCalls, ackedRecords] using ⟨h, hold, hnew⟩
  | cons call calls ih =>
    rw [withinAll, Bool.and_eq_true, decide_eq_true_eq] at hwithin
    have hstep := h.call hwal hwithin.1
    have hnewer : ∀ b ∈ (if ((call.program config).exec world []).1 then
        (call.record config world.manager).toList else []), ∀ a ∈ old ++ recent,
        a.sequence_id < b.sequence_id := by
      intro b hb
      split at hb
      · exact h.newer hwithin.1 (Option.mem_toList.mp hb)
      · cases hb
    rw [List.append_assoc] at hstep
    have hrest := ih hstep
      (fun a ha b hb => (List.mem_append.mp hb).elim (hold a ha b)
        fun hb => hnewer b hb a (List.mem_append_left _ ha))
      (List.pairwise_append.mpr ⟨hnew, ?_, fun a ha b hb =>
        hnewer b hb a (List.mem_append_right _ ha)⟩) hwithin.2
    · simpa [runCalls, ackedRecords, Call.request] using hrest
    · split
      · cases call.record config world.manager <;> simp
      · exact .nil

omit [LinearOrder D] in
/-- After a clean close the newest records written are those recovered. -/
theorem newestVersion_of_closed (hwal : config.options.enable_wal = true)
    (h : RunInv world (old ++ recent)) (hclosed : world.manager.opened = false)
    (hold : ∀ a ∈ old, ∀ b ∈ recent, a.sequence_id < b.sequence_id)
    (hnew : recent.Pairwise fun a b => a.sequence_id < b.sequence_id) :
    ∀ record ∈ recent, newestVersion (recover config world.disk).2 record.node_id =
      newestOf recent record.node_id := by
  obtain ⟨manifest, tables, live, hh, hs | ⟨_, _, hdir, hsettled⟩⟩ := h
  · rw [hs.opened] at hclosed
    cases hclosed
  obtain ⟨_, _, _, hnewest⟩ := @recover_of_directory D config _ _ _ _ _ hwal hdir hsettled hh.log
    fun r hr => hh.bounded r (hh.covers.1 r hr)
  have hfunctional : Versions.Functional DynamicRecord.node_id DynamicRecord.sequence_id recent := by
    intro a ha b hb _ hseq
    have hne : (recent.map DynamicRecord.sequence_id).Nodup := by
      rw [List.Nodup, List.pairwise_map]
      exact hnew.imp ne_of_lt
    exact List.inj_on_of_nodup_map hne ha hb hseq
  intro record hrecord
  obtain ⟨kept, hkept, hnode, hseq⟩ := hh.covers.2 record (List.mem_append_right _ hrecord)
  obtain ⟨found, hfound⟩ : ∃ found,
      newestOf (tableRecords tables ++ live) kept.node_id = some found :=
    Versions.exists_newest hkept
  have hle := Versions.ver_le_of_newest hfound hkept rfl
  obtain ⟨hmem, hnode'⟩ := Versions.mem_of_newest hfound
  -- it is newer than what was there before, so it was written since
  have hwritten : found ∈ recent := by
    rcases List.mem_append.mp (hh.covers.1 found hmem) with hr | hr
    · exact absurd (hold found hr record hrecord) (by omega)
    · exact hr
  rw [hnewest, ← hnode, hfound]
  refine ((Versions.newest_eq_some_iff hfunctional).mpr ⟨hwritten, hnode', fun b hb hbnode => ?_⟩).symm
  obtain ⟨a, ha, hanode, haseq⟩ := hh.covers.2 b (List.mem_append_right _ hb)
  exact haseq.trans (Versions.ver_le_of_newest hfound ha (hanode.trans hbnode))

/-- What `open` makes of a directory with a bad tail. -/
theorem openedWorld_session (hwal : config.options.enable_wal = true)
    (hdir : Directory disk manifest tables) (hsettled : LogSettled disk)
    (hlog : LogHolds disk logged tail)
    (hbound : ∀ r ∈ tableRecords tables ++ logged, r.sequence_id < 2 ^ 63) :
    Session (openedWorld config disk) manifest tables logged ∧
      walBytes (openedWorld config disk).disk = walCodec.encodeAll logged ++ tail := by
  obtain ⟨⟨_, hsame, _, hs, _⟩, _⟩ := Prog.wp_exec (@wp_openSession D config
    ⟨disk, new config⟩ _ _ _ _ rfl hwal hdir hsettled hlog hbound)
  exact ⟨hs, hsame.bytes.trans hlog.bytes⟩

theorem withinAll_append (calls calls' : List Call) (world : World) :
    withinAll config (calls ++ calls') world =
      (withinAll config calls world && withinAll config calls' (runCalls config calls world).2) := by
  induction calls generalizing world with
  | nil => rfl
  | cons call calls ih => simp [withinAll, runCalls, ih, Bool.and_assoc]

/-- Where the first write flushes, all writes survive. -/
theorem writesSurvive_of_flushes (hwal : config.options.enable_wal = true)
    (hs : Session (openedWorld config disk) manifest tables live)
    (hbound : ∀ r ∈ tableRecords tables ++ live, r.sequence_id < 2 ^ 63)
    (hflush : FirstWriteFlushes config (openedWorld config disk).manager) :
    WritesSurvive config disk := by
  intro calls hwrites hwithin written closed hok
  cases calls with
  | nil => simp [written, runCalls, ackedRecords]
  | cons call calls =>
    have hwithin' := hwithin
    rw [List.cons_append, withinAll, Bool.and_eq_true, decide_eq_true_eq] at hwithin
    obtain ⟨hw, hrest⟩ := hwithin
    have hsuccess : ((call.program config).exec (openedWorld config disk) []).1 = true :=
      hok _ List.mem_cons_self
    cases hrecord : call.record config (openedWorld config disk).manager with
    | none =>
      -- a write without a record is refused, so it did not succeed
      have hrefused : (call.program config).wp Prog.Quiet (fun _ _ => True)
          (fun ok _ => ok = false) (openedWorld config disk) :=
        Call.wp_refused (hwrites call List.mem_cons_self) hrecord rfl
      exact absurd (Prog.wp_exec hrefused).1 (by rw [hsuccess]; simp)
    | some record =>
      obtain ⟨hvalid, hseq⟩ := Call.valid_of_record hw hrecord
      have hbound' : ∀ r ∈ tableRecords tables ++ (live ++ [record]), r.sequence_id < 2 ^ 63 := by
        intro r hr
        rw [← List.append_assoc] at hr
        rcases List.mem_append.mp hr with hr | hr
        · exact hbound r hr
        · have := hw.sequence
          rw [List.mem_singleton.mp hr, hseq]
          omega
      have hfirst := (Prog.wp_exec (Call.wp_append hrecord (wp_firstWrite hwal hs hvalid hseq hbound'
        hw.sequence hw.sstable hflush))).1.2
      rw [← List.append_assoc] at hfirst
      have hold : ∀ a ∈ tableRecords tables ++ live, ∀ b ∈ [record],
          a.sequence_id < b.sequence_id := by
        intro a ha b hb
        rw [List.mem_singleton.mp hb, hseq]
        exact hs.below a ha
      rw [withinAll_append, Bool.and_eq_true] at hrest
      obtain ⟨hinv, hnewer, hsorted⟩ := hfirst.calls hwal hold (List.pairwise_singleton _ _) calls
        hrest.1
      have hacked : ackedRecords [] written.1 = ackedRecords [record]
          (runCalls config calls ((call.program config).exec (openedWorld config disk) []).2.store).1 := by
        simp [written, runCalls, ackedRecords, hsuccess, Call.request, hrecord]
      rw [hacked]
      have hclose := hrest.2
      rw [withinAll, Bool.and_eq_true, decide_eq_true_eq] at hclose
      have hclosed := (Prog.wp_exec (wp_closeRun hinv (by have := hclose.1.sstable; omega)
        (by have := hclose.1.sequence; omega))).1
      exact newestVersion_of_closed hwal hclosed.2.1 hclosed.2.2 hnewer hsorted

omit [LinearOrder D] in
/-- A write that makes no automatic flush due is appended, and that is all. -/
theorem wp_appendOnly (hwal : config.options.enable_wal = true)
    (hs : Session world manifest tables live) (hvalid : record.Valid)
    (hseq : record.sequence_id = world.manager.manifest.next_sequence_id)
    (hnext : world.manager.manifest.next_sequence_id + 1 < 2 ^ 63)
    (hflush : ¬(config.options.enable_auto_flush = true ∧
      (world.manager.memtable.insertReplayed record).shouldFlush = true)) :
    (appendRecordLocked config record).wp Prog.Quiet (fun _ _ => True)
      (fun ok u => ok = true ∧ Session u manifest tables (live ++ [record]) ∧
        u.disk = appended world.disk (walCodec.encode record) ∧
        u.manager.manifest = { world.manager.manifest with
          next_sequence_id := world.manager.manifest.next_sequence_id + 1 }) world := by
  rw [appendRecordLocked, Prog.wp_bind]
  refine Prog.wp_mono (wp_recordLocked hwal hs hvalid hseq (hnext.trans (by decide))) ?_
    fun _ _ _ => trivial
  rintro ok u ⟨rfl, memtable, hmemtable, hinsert, rfl⟩
  have hguard : (config.options.enable_auto_flush &&
      (published world.manager memtable record).memtable.shouldFlush) ≠ true := by
    rw [MemTable.insertReplayed, hinsert, Option.getD_some] at hflush
    rwa [ne_eq, Bool.and_eq_true]
  simp only [if_true, Prog.wp_bind, Prog.wp_look, hguard]
  exact ⟨rfl, hs.append hvalid hseq hmemtable _, rfl, rfl⟩

omit [LinearOrder D] in
/-- Readers after an `open` see records that were recovered. -/
theorem mem_recovered (hwal : config.options.enable_wal = true)
    (hdir : Directory disk manifest tables) (hsettled : LogSettled disk)
    (hlog : LogHolds disk logged tail) {node_id : NodeId}
    (h : newestVersion (recover config disk).2 node_id = some record) :
    record ∈ tableRecords tables ++ logged := by
  obtain ⟨⟨_, _, _, _, hmanager⟩, _⟩ := Prog.wp_exec (@wp_openDirectory D config
    ⟨disk, new config⟩ _ _ _ _ rfl hwal hdir hsettled hlog)
  rw [recover, newestVersion, hmanager, DynamicReadView.latestRecord, openedManager,
    DynamicReadView.history] at h
  simp only [if_true, latestRecordFromHistory_eq, filter_present_true, newestAt] at h
  exact (Versions.mem_firstsFrom (List.mem_of_mem_filter (Versions.mem_of_newest h).1)).1

/-- Where some first write does not flush, an erase of its node is lost. -/
theorem not_writesSurvive (hwal : config.options.enable_wal = true)
    (hs : Session (openedWorld config disk) manifest tables live)
    (hlog : walBytes (openedWorld config disk).disk = walCodec.encodeAll live ++ tail)
    (htail : tail ≠ []) (hstops : walCodec.decode tail = none)
    (hnext : (openedWorld config disk).manager.manifest.next_sequence_id + 2 < 2 ^ 63)
    (hid : (openedWorld config disk).manager.manifest.next_sstable_id + 1 < 2 ^ 63)
    (hflush : ¬FirstWriteFlushes config (openedWorld config disk).manager) :
    ¬WritesSurvive config disk := by
  obtain ⟨node_id, hquiet⟩ : ∃ node_id, ¬(config.options.enable_auto_flush = true ∧
      ((openedWorld config disk).manager.memtable.insertReplayed
        (eraseRecord (openedWorld config disk).manager node_id)).shouldFlush = true) := by
    by_contra hall
    rw [not_exists] at hall
    exact hflush ⟨(not_not.mp (hall 0)).1, fun node_id => (not_not.mp (hall node_id)).2⟩
  generalize hworld : openedWorld config disk = world at *
  have hrecord : (Call.erase node_id).record config world.manager =
      some (eraseRecord world.manager node_id) := if_pos hs.opened
  have hw : Within config world (.erase node_id) := ⟨by omega, hid, by
    rw [hrecord]
    rintro record ⟨⟩
    exact Nat.zero_le _⟩
  obtain ⟨hvalid, hseq⟩ := Call.valid_of_record hw hrecord
  obtain ⟨⟨hok, hs', hdisk, hmanifest⟩, _⟩ := Prog.wp_exec (Call.wp_append hrecord
    (wp_appendOnly hwal hs hvalid hseq (by omega) hquiet))
  generalize hout : ((Call.erase node_id).program config).exec world [] = out at hok hs' hdisk hmanifest
  have hw' : Within config out.2.store .close :=
    ⟨by rw [hmanifest]; dsimp only; omega, by rw [hmanifest]; exact hid, by rintro record ⟨⟩⟩
  obtain ⟨⟨_, hdir, hbytes, hsettled, _⟩, _⟩ := Prog.wp_exec (wp_close hs'
    (by rw [hmanifest]; dsimp only; omega) (by rw [hmanifest]; dsimp only; omega))
  -- the log is read up to the bad tail, and whatever the erase looks like behind it
  obtain ⟨file, hfile⟩ := Option.isSome_iff_exists.mp hs.created
  have hcontents : walBytes out.2.store.disk = walCodec.encodeAll live ++
      (tail ++ walCodec.encode (eraseRecord world.manager node_id)) := by
    rw [walBytes, hfile] at hlog
    rw [hdisk, appended, SameContents.walBytes_modifyFile, hfile, File.contents_append,
      ← List.append_assoc]
    exact congrArg (· ++ _) hlog
  obtain ⟨tail', hlog'⟩ := logHolds_replay (close.exec out.2.store []).2.store.disk
  rw [hbytes, hcontents, replayBytes, walCodec.decodeAll_encodeAll_append hs.valid] at hlog'
  intro hsurvive
  have hfound := hsurvive [.erase node_id] (by simp [Call.isWrite])
    (by simp [withinAll, hworld, hw, hout, hw'])
  simp only [runCalls, hworld, hout, ackedRecords, Call.request, hrecord, hok, List.flatMap_cons,
    List.flatMap_nil, if_true, List.mem_singleton, forall_eq, forall_const, List.nil_append,
    List.append_nil, Option.toList_some] at hfound
  have hnewest : newestOf [eraseRecord world.manager node_id]
      (eraseRecord world.manager node_id).node_id = some (eraseRecord world.manager node_id) := by
    simp [newestOf, Versions.newest, Versions.pick]
  rw [hnewest] at hfound
  rcases List.mem_append.mp (mem_recovered hwal hdir hsettled hlog' hfound) with hr | hr
  · exact absurd (hs.below _ (List.mem_append_left _ hr)) (by rw [hseq]; exact lt_irrefl _)
  · rcases List.mem_append.mp hr with hr | hr
    · exact absurd (hs.below _ (List.mem_append_right _ hr)) (by rw [hseq]; exact lt_irrefl _)
    · exact eraseRecord_not_replayed htail hstops hr

/-- Writes behind a bad tail survive a clean close exactly when the first of them flushes. -/
theorem writesSurvive_iff (hwal : config.options.enable_wal = true)
    (hdir : Directory disk manifest tables) (hsettled : LogSettled disk)
    (hlog : LogHolds disk logged tail) (htail : tail ≠ [])
    (hbound : ∀ r ∈ tableRecords tables ++ logged, r.sequence_id < 2 ^ 63)
    (hnext : (openedWorld config disk).manager.manifest.next_sequence_id + 2 < 2 ^ 63)
    (hid : (openedWorld config disk).manager.manifest.next_sstable_id + 1 < 2 ^ 63) :
    WritesSurvive config disk ↔ FirstWriteFlushes config (openedWorld config disk).manager := by
  obtain ⟨hs, hbytes⟩ := openedWorld_session hwal hdir hsettled hlog hbound
  refine ⟨fun hsurvive => ?_, writesSurvive_of_flushes hwal hs hbound⟩
  by_contra hflush
  exact not_writesSurvive hwal hs hbytes htail hlog.stops hnext hid hflush hsurvive

/-- A directory whose log holds nothing but one byte of garbage. -/
def garbageLog : Disk := ({} : Disk).setFile .wal (some { synced := [0] })

theorem garbageLog_holds : LogHolds garbageLog [] [0] ∧ LogSettled garbageLog := by
  refine ⟨⟨by simp, by simp [walBytes, garbageLog, File.contents], by decide +kernel⟩, ?_⟩
  intro file hfile
  rw [garbageLog, setFile_files_self, Option.some.injEq] at hfile
  rw [← hfile]

/-- When every write flushes, writes behind the garbage survive. -/
theorem writesSurvive_garbage :
    WritesSurvive ({ options := { memtable_flush_bytes := 0 }, squared_l2 := fun _ _ => 0 } :
      Config ℕ) garbageLog := by
  have hdir : Directory garbageLog {} [] := ⟨rfl, rfl, by simp, by simp⟩
  refine (writesSurvive_iff rfl hdir garbageLog_holds.2 garbageLog_holds.1 (by simp)
    (by simp [tableRecords]) (by decide +kernel) (by decide +kernel)).mpr ⟨rfl, fun node_id => ?_⟩
  have hzero : ∀ (memtable : MemTable) (record : DynamicRecord),
      memtable.flush_threshold_bytes = 0 → (memtable.insertReplayed record).shouldFlush = true := by
    intro memtable record h
    rw [MemTable.insertReplayed, MemTable.insert]
    split
    · split <;> simp [MemTable.shouldFlush, h]
    · simp [MemTable.shouldFlush, h]
  exact hzero _ _ (by decide +kernel)

/-- An erase that was acknowledged behind the garbage is gone after a clean close. -/
theorem erase_behind_garbage_lost :
    let config : Config ℕ := { squared_l2 := fun _ _ => 0 }
    let run := runCalls config [.open, .erase 7, .close] ⟨garbageLog, new config⟩
    walCodec.decode [0] = none ∧ run.1.map Prod.snd = [true, true, true] ∧
      (recover config run.2.disk).1 = true ∧
      newestVersion (recover config run.2.disk).2 7 = none ∧ ¬WritesSurvive config garbageLog := by
  refine ⟨by decide +kernel, by decide +kernel, by decide +kernel, by decide +kernel, ?_⟩
  intro hsurvive
  have hfound := hsurvive [.erase 7] (by decide) (by decide +kernel) (by decide +kernel)
    { sequence_id := 1, node_id := 7, deleted := true } (by decide +kernel)
  revert hfound
  decide +kernel

end Dynamic
