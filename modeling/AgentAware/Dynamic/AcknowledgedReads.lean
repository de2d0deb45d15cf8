import AgentAware.Dynamic.EngineSearch
import AgentAware.Dynamic.FailedWrites

/-!
# Searches see the writes that were acknowledged

A write that returned true has published its record before, and no later step takes the record away.
So a search that starts afterwards answers for its node with that record or with a newer one, and
never with a result of the base.

## Main definitions

- `Covered` — the sequence that readers load covers every record that they find
- `Acknowledged` — a timeline with the records of the calls that returned true
- `SeesRecord` — what a result owes to a record

## Main results

- `wp_call_answered` — a call that returns true has published its record
- `Acknowledged.spec` — acknowledged records stay published
- `engineSearch_sees_acknowledged` — searches see acknowledged writes
-/

namespace Dynamic

open DynamicWriteManager

def Covered (manager : Manager) : Prop :=
  ∀ record ∈ publishedRecords manager, record.sequence_id ≤ manager.latest_sequence

instance (manager : Manager) : Decidable (Covered manager) := List.decidableBAll _ _

/-- After a call: what readers load is up to date, and has the record of a call that succeeded. -/
structure CallAnswered (record : Option DynamicRecord) (ok : Bool) (manager : Manager) : Prop where
  published : Published manager
  covered : Covered manager
  acknowledged : ok = true → ∀ written ∈ record, written ∈ publishedRecords manager

section Steps

variable {D : Type} {config : Config D} {F : Outcome → Prop} {world : World}
  {manager manager' : Manager} {record : DynamicRecord}

theorem publishedRecords_of_published (hp : Published manager) :
    publishedRecords manager = uniqueRecordVersions manager.recent_records := by
  rw [publishedRecords, hp.view, DynamicReadView.history, currentView, hp.opened]
  rfl

theorem SameReads.publishedRecords_eq (h : SameReads manager manager') :
    publishedRecords manager' = publishedRecords manager := by
  rw [publishedRecords, publishedRecords, h.read_view]

theorem SameReads.covered (h : SameReads manager manager') (hc : Covered manager) :
    Covered manager' := by
  rw [Covered, h.publishedRecords_eq, h.latest]
  exact hc

theorem SameReads.answered {made : Option DynamicRecord} {ok ok' : Bool}
    (h : SameReads manager manager') (hanswered : CallAnswered made ok manager)
    (hok : ok' = true → ok = true) : CallAnswered made ok' manager' := by
  refine ⟨h.published hanswered.published, h.covered hanswered.covered, fun hdone written hmade => ?_⟩
  rw [h.publishedRecords_eq]
  exact hanswered.acknowledged (hok hdone) written hmade

/-- A call that wrote nothing. -/
theorem SameReads.unwritten (h : SameReads manager manager') (hp : Published manager)
    (hc : Covered manager) (ok : Bool) : CallAnswered none ok manager' :=
  ⟨h.published hp, h.covered hc, fun _ _ hmade => absurd hmade (Option.not_mem_none _)⟩

/-- The next sequence is free, so the record is published beside all others. -/
theorem unique_concat (hp : Published manager) (hc : Covered manager)
    (hseq : record.sequence_id = manager.manifest.next_sequence_id) :
    uniqueRecordVersions (manager.recent_records ++ [record]) =
      publishedRecords manager ++ [record] := by
  have hnew : ¬∃ other ∈ manager.recent_records, (other.node_id, other.sequence_id) =
      (record.node_id, record.sequence_id) := by
    rintro ⟨other, hother, hkey⟩
    obtain ⟨found, hfound, hsame⟩ : ∃ found ∈ publishedRecords manager,
        (found.node_id, found.sequence_id) = (other.node_id, other.sequence_id) := by
      rw [publishedRecords_of_published hp]
      exact Versions.exists_firstsFrom hother List.not_mem_nil
    have hle := hc found hfound
    have hsequence : found.sequence_id = record.sequence_id :=
      (Prod.mk.inj (hsame.trans hkey)).2
    -- readers load the counter less one
    have hpositive := hp.positive
    rw [hp.latest, publishedSequence] at hle
    omega
  rw [publishedRecords_of_published hp, uniqueRecordVersions, Versions.firsts_concat, if_neg hnew]
  rfl

theorem answered_of_recorded {last : Manager} (hp : Published manager) (hc : Covered manager)
    (hseq : record.sequence_id = manager.manifest.next_sequence_id) (hlast : Published last)
    (hrecent : last.recent_records = manager.recent_records ++ [record])
    (hnext : last.manifest.next_sequence_id = manager.manifest.next_sequence_id + 1) (ok : Bool) :
    CallAnswered (some record) ok last := by
  have hrecords : publishedRecords last = publishedRecords manager ++ [record] := by
    rw [publishedRecords_of_published hlast, hrecent, unique_concat hp hc hseq]
  have hlatest : last.latest_sequence = record.sequence_id := by
    rw [hlast.latest, publishedSequence, hnext, hseq, Nat.add_sub_cancel]
  refine ⟨hlast, fun found hfound => ?_, fun _ written hmade => ?_⟩
  · rw [hrecords] at hfound
    rcases List.mem_append.mp hfound with hold | hnew
    · have hle := hc found hold
      rw [hp.latest, publishedSequence] at hle
      rw [hlatest, hseq]
      omega
    · rw [List.mem_singleton.mp hnew, hlatest]
  · cases hmade
    rw [hrecords]
    exact List.mem_append_right _ List.mem_cons_self

theorem wp_recordLocked_answered (hp : Published world.manager) (hc : Covered world.manager)
    (hseq : record.sequence_id = world.manager.manifest.next_sequence_id)
    (hnext : world.manager.manifest.next_sequence_id + 1 < 2 ^ 64) :
    (recordLocked config record).wp F (fun _ _ => True)
      (fun ok v => CallAnswered (some record) ok v.manager) world := by
  refine wp_recordLocked_of (fun _ _ _ => trivial) (fun u hu => ?_) fun u memtable hu => ?_
  · exact ⟨hu.published hp, hu.covered hc, fun hok => absurd hok Bool.false_ne_true⟩
  · have hpublished := hu.published hp
    rw [← hu.next] at hnext
    simp only [Prog.wp_bind, wp_assign, wp_publish, Prog.wp_pure, Nat.mod_eq_of_lt hnext]
    refine ⟨trivial, trivial, trivial, ?_⟩
    refine answered_of_recorded hpublished (hu.covered hc) (hseq.trans hu.next.symm) ?_ rfl rfl true
    exact ⟨hpublished.opened, rfl, rfl, Nat.succ_pos _⟩

/-- A call that leaves the readers alone. -/
theorem KeepsReads.answered {m : Prog World Bool} {made : Option DynamicRecord}
    (h : KeepsReads F m world) (hanswered : CallAnswered made true world.manager) :
    m.wp F (fun _ _ => True) (fun ok v => CallAnswered made ok v.manager) world :=
  Prog.wp_mono h (fun _ _ hv => hv.answered hanswered fun _ => rfl) fun _ _ _ => trivial

theorem wp_appendRecordLocked_answered (hp : Published world.manager) (hc : Covered world.manager)
    (hseq : record.sequence_id = world.manager.manifest.next_sequence_id)
    (hnext : world.manager.manifest.next_sequence_id + 1 < 2 ^ 64) :
    (appendRecordLocked config record).wp F (fun _ _ => True)
      (fun ok v => CallAnswered (some record) ok v.manager) world := by
  rw [appendRecordLocked, Prog.wp_bind]
  refine Prog.wp_post (wp_recordLocked_answered hp hc hseq hnext) fun recorded u hu => ?_
  cases recorded with
  | false => exact hu
  | true =>
    rw [if_pos rfl, Prog.wp_bind, Prog.wp_look]
    exact Prog.wp_ite (fun _ => keepsReads_flushLocked.answered hu) fun _ => hu

/-- A call that returns true has published the record that it writes, whatever failed on the way. -/
theorem wp_call_answered [LinearOrder D] {call : Call} (hcall : call ≠ .close)
    (hnext : call.isWrite = true → world.manager.manifest.next_sequence_id + 1 < 2 ^ 64)
    (hp : Published world.manager) (hc : Covered world.manager) :
    (call.program config).wp F (fun _ _ => True)
      (fun ok v => CallAnswered (call.record config world.manager) ok v.manager) world := by
  have hunwritten : CallAnswered none true world.manager :=
    (SameReads.refl _).unwritten hp hc true
  cases hrecord : call.record config world.manager with
  | some record =>
    exact Call.wp_append hrecord
      (wp_appendRecordLocked_answered hp hc (Call.sequence_of_record hrecord)
        (hnext (Call.isWrite_of_record hrecord)))
  | none =>
    cases call with
    | «open» =>
      unfold Call.program DynamicWriteManager.open
      rw [Prog.wp_bind, Prog.wp_look]
      exact Prog.wp_ite (fun _ => hunwritten) fun hclosed => absurd hp.opened hclosed
    | insert | update | erase =>
      exact Call.wp_refused rfl hrecord ((SameReads.refl _).unwritten hp hc false)
    | flush =>
      unfold Call.program DynamicWriteManager.flush
      rw [Prog.wp_bind, Prog.wp_look]
      exact Prog.wp_ite (fun _ => keepsReads_flushLocked.answered hunwritten) fun _ =>
        (SameReads.refl _).unwritten hp hc false
    | compactOnce =>
      unfold Call.program
      rw [Prog.wp_bind]
      refine Prog.wp_mono keepsReads_compactOnce (fun _ v hv => ?_) fun _ _ _ => trivial
      exact hv.unwritten hp hc _
    | close => exact absurd rfl hcall

end Steps

section History

variable {D : Type} [LinearOrder D] (config : Config D)

/-- The worlds that readers may look at while a manager stays open, latest first, with the records of
the calls that returned true. It begins with a manager whose sequence covers what it found on disk,
as it does unless a counter of `2 ^ 64 - 1` was read back. -/
inductive Acknowledged : List World → List DynamicRecord → Prop
  | opened {world : World} {faults : List Outcome} : world.manager.opened = false →
    ((DynamicWriteManager.open config).exec world faults).1 = true →
    Covered ((DynamicWriteManager.open config).exec world faults).2.store.manager →
    Acknowledged [((DynamicWriteManager.open config).exec world faults).2.store] []
  | call {world : World} {past : List World} {acked : List DynamicRecord} {call : Call}
    {faults : List Outcome} : Acknowledged (world :: past) acked → call ≠ .close →
    (call.isWrite = true → world.manager.manifest.next_sequence_id + 1 < 2 ^ 64) →
    Acknowledged (((call.program config).exec world faults).2.visited ++ past)
      (acked ++ if ((call.program config).exec world faults).1 then
        (call.record config world.manager).toList else [])

variable {config} {seen : List World} {acked : List DynamicRecord}

/-- The loads may as well be of a timeline that goes on into the past. -/
theorem LoadsFrom.append {loads : List World} (h : LoadsFrom seen loads) (older : List World) :
    LoadsFrom (seen ++ older) loads := by
  cases h with
  | done => exact .done _
  | load hlater =>
    rw [List.append_assoc]
    exact hlater.load

theorem Acknowledged.timeline (h : Acknowledged config seen acked) : Timeline config seen := by
  induction h with
  | opened hclosed hok _ => exact .opened hclosed hok
  | call _ hcall hnext ih => exact .call ih hcall hnext

theorem exec_extends {world : World} {call : Call} {faults : List Outcome} (hcall : call ≠ .close)
    (hnext : call.isWrite = true → world.manager.manifest.next_sequence_id + 1 < 2 ^ 64)
    (hp : Published world.manager) :
    Extends world.manager ((call.program config).exec world faults).2.store.manager := by
  have hwp : (call.program config).wp Prog.Faulty _ _ world := wp_extends hcall hnext hp
  have hreach := (Prog.wp_run hwp fun o (_ : o ∈ faults) => trivial).2.reach
  generalize ((call.program config).exec world faults).2.store = last at hreach ⊢
  induction hreach with
  | refl => exact Extends.refl _
  | tail _ hstep ih => exact ih.trans hstep

/-- What was acknowledged is published, and stays so. -/
theorem Acknowledged.spec (h : Acknowledged config seen acked) :
    ∃ world past, seen = world :: past ∧ Published world.manager ∧ Covered world.manager ∧
      ∀ record ∈ acked, record ∈ publishedRecords world.manager := by
  induction h with
  | opened hclosed hok hcovered =>
    obtain ⟨⟨world, past, hseen, hpublished⟩, -⟩ := (Timeline.opened hclosed hok).spec
    obtain ⟨rfl, rfl⟩ := List.cons.inj hseen
    exact ⟨_, [], rfl, hpublished, hcovered, fun record hrecord => absurd hrecord List.not_mem_nil⟩
  | @call world past acked call faults hacked hcall hnext ih =>
    obtain ⟨world', past', hseen, hpublished, hcovered, hall⟩ := ih
    obtain ⟨rfl, rfl⟩ := List.cons.inj hseen
    have hwp : (call.program config).wp Prog.Faulty _ _ world :=
      wp_call_answered hcall hnext hpublished hcovered
    have hanswered := (Prog.wp_run hwp fun o (_ : o ∈ faults) => trivial).1
    have hextends : Extends world.manager
        ((call.program config).exec world faults).2.store.manager :=
      exec_extends hcall hnext hpublished
    obtain ⟨added, hrecords, -⟩ := hextends.records
    refine ⟨_, _, rfl, hanswered.published, hanswered.covered, fun record hrecord => ?_⟩
    rcases List.mem_append.mp hrecord with hold | hnew
    · -- records are added behind those that were published
      rw [hrecords]
      exact List.mem_append_left _ (hall record hold)
    · split at hnew
      · next hok => exact hanswered.acknowledged hok record (Option.mem_toList.mp hnew)
      · exact absurd hnew List.not_mem_nil

/-- A write that returns true is acknowledged. -/
theorem Acknowledged.write {world : World} {past : List World} {call : Call}
    {faults : List Outcome} {record : DynamicRecord} (h : Acknowledged config (world :: past) acked)
    (hrecord : call.record config world.manager = some record)
    (hroom : world.manager.manifest.next_sequence_id + 1 < 2 ^ 64)
    (hok : ((call.program config).exec world faults).1 = true) :
    Acknowledged config (((call.program config).exec world faults).2.store ::
      (((call.program config).exec world faults).2.past ++ past)) (acked ++ [record]) := by
  have hcall : call ≠ .close := by
    rintro rfl
    cases hrecord
  have hnext : Acknowledged config (((call.program config).exec world faults).2.visited ++ past) _ :=
    h.call hcall fun _ => hroom
  rwa [if_pos hok, hrecord] at hnext

end History

/-- What a result owes to a record that was published when its search began: it answers for the node
by the newest record that the search could load, which is this one or one after it. -/
structure SeesRecord {D : Type} [LinearOrder D] (squared_l2 : List FloatBits → List FloatBits → D)
    (query : List FloatBits) (top_k : ℕ) (manager : Manager) (record newest : DynamicRecord)
    (topk : List (SearchResult D)) : Prop where
  newest_at : newestAt (publishedRecords manager) record.node_id manager.latest_sequence = some newest
  not_older : record.sequence_id ≤ newest.sequence_id
  deleted : newest.deleted = true → record.node_id ∉ topk.map SearchResult.id
  distance : newest.deleted = false → fits query.length newest = true → ∀ result ∈ topk,
    result.id = record.node_id → result.distance = squared_l2 query newest.vector
  /-- It is missing only from a full result of nearer nodes. -/
  complete : newest.deleted = false → fits query.length newest = true →
    record.node_id ∈ topk.map SearchResult.id ∨ topk.length = top_k ∧
      ∀ result ∈ topk, result.rank < toLex (squared_l2 query newest.vector, record.node_id)

section Sees

variable {D : Type} [LinearOrder D] {squared_l2 : List FloatBits → List FloatBits → D}
  {query : List FloatBits} {top_k : ℕ} {graph_topk : List (SearchResult D)}
  {records : List DynamicRecord} {newest : DynamicRecord}

omit [LinearOrder D] in
/-- A node with a record that overrides the base has at most the result of that record. -/
theorem eq_of_mem_overlay (hnodup : (records.map DynamicRecord.node_id).Nodup)
    (hnewest : newest ∈ records) (hover : overrides query newest = true) {result : SearchResult D}
    (hresult : result ∈ overlay squared_l2 query graph_topk records)
    (hid : result.id = newest.node_id) :
    newest.deleted = false ∧ result.distance = squared_l2 query newest.vector := by
  rcases List.mem_append.mp hresult with hbase | hscored
  · exact absurd hid.symm (untouched_iff.mp (List.mem_filter.mp hbase).2 newest hnewest hover)
  · obtain ⟨scored, hmem, rfl⟩ := List.mem_map.mp hscored
    obtain ⟨hmem, hlive, -, heq⟩ := mem_scoreRecords.mp hmem
    have hsame : scored.record = newest := List.inj_on_of_nodup_map hnodup hmem hnewest hid
    rw [heq, ← hsame]
    exact ⟨hlive, rfl⟩

omit [LinearOrder D] in
theorem mem_overlay (hnewest : newest ∈ records) (hlive : newest.deleted = false)
    (hfits : fits query.length newest = true) :
    ⟨newest.node_id, squared_l2 query newest.vector⟩ ∈
      overlay squared_l2 query graph_topk records :=
  List.mem_append_right _ (List.mem_map.mpr ⟨⟨newest, squared_l2 query newest.vector⟩,
    mem_scoreRecords.mpr ⟨hnewest, hlive, hfits, rfl⟩, rfl⟩)

/-- What the newest record of a node does to the results of that node. -/
theorem topk_overlay_of_mem {base : List (SearchResult D)} (hbase : (base.map SearchResult.id).Nodup)
    (hnodup : (records.map DynamicRecord.node_id).Nodup) (hnewest : newest ∈ records) :
    let topk := TopK.topk SearchResult.rank top_k (overlay squared_l2 query base records)
    (newest.deleted = true → newest.node_id ∉ topk.map SearchResult.id) ∧
    (newest.deleted = false → fits query.length newest = true →
      (∀ result ∈ topk, result.id = newest.node_id →
        result.distance = squared_l2 query newest.vector) ∧
      (newest.node_id ∈ topk.map SearchResult.id ∨ topk.length = top_k ∧
        ∀ result ∈ topk, result.rank < toLex (squared_l2 query newest.vector, newest.node_id))) := by
  intro topk
  have hseparates : TopK.Separates SearchResult.rank (overlay squared_l2 query base records) :=
    TopK.separates_of_nodup (SearchResult.rank_nodup (overlay_ids_nodup hbase hnodup))
  refine ⟨fun hdeleted hmem => ?_, fun hlive hfits => ⟨fun result hresult hid => ?_, ?_⟩⟩
  · obtain ⟨result, hresult, hid⟩ := List.mem_map.mp hmem
    have hlive := (eq_of_mem_overlay hnodup hnewest (by rw [overrides, hdeleted, Bool.true_or])
      (TopK.mem_of_mem_topk hresult) hid).1
    rw [hdeleted] at hlive
    exact Bool.noConfusion hlive
  · exact (eq_of_mem_overlay hnodup hnewest (by rw [overrides, hfits, Bool.or_true])
      (TopK.mem_of_mem_topk hresult) hid).2
  · have hall : ⟨newest.node_id, squared_l2 query newest.vector⟩ ∈
        overlay squared_l2 query base records := mem_overlay hnewest hlive hfits
    by_cases hmem : ⟨newest.node_id, squared_l2 query newest.vector⟩ ∈ topk
    · exact .inl (List.mem_map_of_mem hmem)
    · -- the record was cut off, so the result is full of nearer ones
      refine .inr ⟨?_, fun result hresult =>
        TopK.lt_of_not_mem_topk hseparates hall hmem hresult⟩
      have hle : topk.length ≤ top_k := by
        rw [TopK.length_topk]
        exact min_le_left _ _
      refine le_antisymm hle (not_lt.mp fun hshort => hmem ?_)
      exact TopK.mem_topk_of_length_lt hseparates hall hshort

theorem seesRecord_searchedAt {manager : Manager} {record : DynamicRecord}
    {graph_result : Graph.DiskGraphSearchResult D}
    (hbase : (graph_result.topk.map SearchResult.id).Nodup)
    (hrecord : record ∈ publishedRecords manager)
    (hsequence : record.sequence_id ≤ manager.latest_sequence) :
    ∃ newest, SeesRecord squared_l2 query top_k manager record newest
      (PackedGraphEngine.searchedAt squared_l2 query top_k manager graph_result).topk := by
  have hvisible : record ∈ (publishedRecords manager).filter fun other =>
      other.sequence_id ≤ manager.latest_sequence :=
    List.mem_filter.mpr ⟨hrecord, decide_eq_true hsequence⟩
  obtain ⟨newest, hnewest⟩ : ∃ newest, newestAt (publishedRecords manager) record.node_id
      manager.latest_sequence = some newest := Versions.exists_newest hvisible
  have hnode : newest.node_id = record.node_id := (Versions.mem_of_newest hnewest).2
  have hcollected : newest ∈ DynamicReadView.collectAllDeltaRecordsAt manager.read_view
      manager.latest_sequence := by
    rw [mem_collectAllDeltaRecordsAt, hnode]
    exact hnewest
  obtain ⟨hdeleted, hlive⟩ := topk_overlay_of_mem hbase
    (collectAllDeltaRecordsAt_nodup manager.read_view manager.latest_sequence) hcollected
  rw [hnode] at hdeleted hlive
  exact ⟨newest, hnewest, Versions.ver_le_of_newest hnewest hvisible rfl, hdeleted,
    fun halive hfits => (hlive halive hfits).1, fun halive hfits => (hlive halive hfits).2⟩

end Sees

namespace PackedGraphEngine

section Searches

variable {D : Type} [LinearOrder D] {config : Config D} {walk : List DynamicRecord → List DynamicRecord}
  {search : Graph.DiskGraphSearchConfig} {query : List FloatBits} {top_k : ℕ}
  {index : Graph.PackedIndex} {distances : Graph.QueryDistances D}

/-- A search that starts after a write was acknowledged sees it or a later one of the same node,
whatever writers do before and during the search and whatever fails. -/
theorem engineSearch_sees_acknowledged {newer past : List World} {world : World}
    {sequenced latest delta : World} {acked : List DynamicRecord}
    (hacked : Acknowledged config (world :: past) acked)
    (hseen : Timeline config (newer ++ world :: past))
    (hloads : LoadsFrom (newer ++ [world]) [sequenced, latest, delta])
    (hwalk : ∀ records, (walk records).Perm records) (hindex : 0 < index.vector_count)
    (hquery : query ≠ []) {rounds : ℕ} {output : EngineSearchResult D}
    (hreturned : ((searchOne config.squared_l2 walk (fun search => Graph.searchOne index search
      distances) search query top_k true).run rounds ()
      [sequenced.manager, latest.manager, delta.manager]).ending = .returned output) :
    ∀ record ∈ acked, ∃ newest, SeesRecord config.squared_l2 query top_k sequenced.manager record
      newest output.topk := by
  obtain ⟨last, past', hlast, -, hcovered, hall⟩ := hacked.spec
  obtain ⟨rfl, rfl⟩ := List.cons.inj hlast
  have hwhole : LoadsFrom (newer ++ world :: past) [sequenced, latest, delta] := by
    have happend := hloads.append past
    rwa [List.append_assoc] at happend
  -- the search began after the writes were acknowledged
  obtain ⟨-, -, hpairs⟩ := hseen.spec
  have hextends : Extends world.manager sequenced.manager :=
    hloads.load.extends hpairs sequenced List.mem_cons_self
  obtain ⟨added, hrecords, -⟩ := hextends.records
  intro record hrecord
  have hmem : record ∈ publishedRecords sequenced.manager := by
    rw [hrecords]
    exact List.mem_append_left _ (hall record hrecord)
  have hle : record.sequence_id ≤ sequenced.manager.latest_sequence :=
    (hcovered record (hall record hrecord)).trans hextends.latest
  rw [ending_searchOne_eq hseen hwhole hwalk hquery
    fun _ hgraph => searchOne_topk_nodup hindex hgraph] at hreturned
  cases hgraph : Graph.searchOne index { search with top_k := top_k } distances with
  | error message =>
    rw [hgraph] at hreturned
    cases hreturned
  | ok graph_result =>
    rw [hgraph] at hreturned
    cases hreturned
    exact seesRecord_searchedAt (searchOne_topk_nodup hindex hgraph) hmem hle

end Searches

/-- A node is inserted and erased before the search: both writes were acknowledged, and the erase is
the newer one. -/
theorem engineSearch_sees_acknowledged_erase :
    let config : Config ℕ := { squared_l2 := fun _ vector => (vector.headD 0).toNat }
    let index : Graph.PackedIndex := ⟨[⟨[], [1]⟩, ⟨[], [0, 2]⟩, ⟨[], [1]⟩]⟩
    let search : Graph.DiskGraphSearchConfig :=
      { search_width := 3, entry_count := 1, adc_enable := true }
    let distances : Graph.QueryDistances ℕ := ⟨fun id => 4 + id.toNat, fun _ => 0, fun _ _ => true⟩
    let opened := ((DynamicWriteManager.open config).exec ⟨{}, new config⟩ []).2
    let inserted := (((Call.insert 7 [3]).program config).exec opened.store []).2
    let erased := (((Call.erase 7).program config).exec inserted.store []).2
    let manager := erased.store.manager
    ((searchOne config.squared_l2 List.reverse (fun search => Graph.searchOne index search distances)
        search [0] 2 true).run 1 () [manager, manager, manager]).ending =
      .returned ⟨[⟨0, 4⟩, ⟨1, 5⟩], ⟨true, 2, 3, 3⟩⟩ ∧
    ∀ record ∈ [insertRecord config opened.store.manager 7 [3], eraseRecord inserted.store.manager 7],
      ∃ newest, SeesRecord config.squared_l2 [0] 2 manager record newest [⟨0, 4⟩, ⟨1, 5⟩] := by
  intro config index search distances opened inserted erased manager
  have hopened : Acknowledged config [opened.store] [] :=
    .opened rfl (by decide +kernel) (by decide +kernel)
  have hinserted : Acknowledged config (inserted.store :: (inserted.past ++ []))
      [insertRecord config opened.store.manager 7 [3]] :=
    hopened.write (by decide +kernel) (by decide +kernel) (by decide +kernel)
  have herased : Acknowledged config (erased.store :: (erased.past ++ (inserted.past ++ [])))
      [insertRecord config opened.store.manager 7 [3], eraseRecord inserted.store.manager 7] :=
    hinserted.write (by decide +kernel) (by decide +kernel) (by decide +kernel)
  have hloads : LoadsFrom [erased.store] [erased.store, erased.store, erased.store] :=
    @LoadsFrom.load [] [] _ _ (@LoadsFrom.load [] [] _ _ (@LoadsFrom.load [] [] _ _ (.done _)))
  have hreturned : ((searchOne config.squared_l2 List.reverse (fun search => Graph.searchOne index
      search distances) search [0] 2 true).run 1 () [manager, manager, manager]).ending =
      .returned ⟨[⟨0, 4⟩, ⟨1, 5⟩], ⟨true, 2, 3, 3⟩⟩ := by decide +kernel
  exact ⟨hreturned, @engineSearch_sees_acknowledged _ _ config _ _ _ _ index distances []
    (erased.past ++ (inserted.past ++ [])) erased.store erased.store erased.store erased.store _ herased
    herased.timeline hloads List.reverse_perm (by decide) (by decide) _ _ hreturned⟩

end PackedGraphEngine

end Dynamic
