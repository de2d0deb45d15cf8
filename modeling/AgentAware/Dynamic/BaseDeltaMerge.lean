import AgentAware.Dynamic.ReadView

/-!
# Merging base results with the delta

A query searches the base index, asks the manager for the newest records of the ids it found and for
the nearest live records of the delta, and merges the three lists. The delta list is cut to `top_k`
before the merge, which loses nothing: the merge is the first `top_k` of everything that the query
could return.

## Main definitions

- `mergeBaseAndDeltaL2` — the merge
- `combine` — what `PackedGraphEngine::search_one` does with the results of the graph search
- `overlay` — everything a query could return

## Main results

- `combine_eq_topk` — the merge is the first `top_k` of the overlay
- `combine_mergeSpec` — soundness and completeness of the merge
-/

namespace Dynamic

section Merge

variable {D : Type} [LinearOrder D] (squared_l2 : List FloatBits → List FloatBits → D)

/-- The record has a vector of the dimension. -/
def fits (dim : ℕ) (record : DynamicRecord) : Bool :=
  record.dim == dim && record.vector.length == dim

/-- The body of the loop over the delta records. -/
def applyDelta (query : List FloatBits) (by_id : AList fun _ : NodeId => SearchResult D)
    (record : DynamicRecord) : AList fun _ : NodeId => SearchResult D :=
  if record.deleted then by_id.erase record.node_id
  else if !fits query.length record then by_id
  else by_id.insert record.node_id ⟨record.node_id, squared_l2 query record.vector⟩

/-- The base results by id. -/
def baseById (base_results : List (SearchResult D)) : AList fun _ : NodeId => SearchResult D :=
  base_results.foldl (fun by_id result => by_id.insert result.id result) ∅

def mergeBaseAndDeltaL2 (base_results : List (SearchResult D))
    (delta_records : List DynamicRecord) (query : List FloatBits) (topk : ℕ) :
    List (SearchResult D) :=
  if query.isEmpty || topk == 0 then []
  else
    let by_id := delta_records.foldl (applyDelta squared_l2 query) (baseById base_results)
    TopK.topk SearchResult.rank topk (by_id.entries.map Sigma.snd)

/-- `PackedGraphEngine::search_one` after its graph search. `latest_base_records` are the records of
the table that `latest_records_for` returns, in the order the table is walked. -/
def combine (view : Option DynamicReadView) (read_sequence : ℕ)
    (graph_topk : List (SearchResult D)) (latest_base_records : List DynamicRecord)
    (query : List FloatBits) (top_k : ℕ) : List (SearchResult D) :=
  mergeBaseAndDeltaL2 squared_l2 graph_topk
    (DynamicReadView.searchDeltaL2At view squared_l2 query top_k read_sequence ++
      latest_base_records)
    query top_k

/-- The records of the table that `latest_records_for` returns for the ids of the base results, in
any order. -/
def LatestBaseRecords (view : Option DynamicReadView) (read_sequence : ℕ)
    (graph_topk : List (SearchResult D)) (latest_base_records : List DynamicRecord) : Prop :=
  latest_base_records.Perm ((DynamicReadView.latestRecordsFor view
    (graph_topk.map SearchResult.id) read_sequence true).entries.map Sigma.snd)

/-- A record that the merge prefers to a base result: a tombstone or a vector it can compare. -/
def overrides (query : List FloatBits) (record : DynamicRecord) : Bool :=
  record.deleted || fits query.length record

def ScoredRecord.toResult (scored : ScoredRecord D) : SearchResult D :=
  ⟨scored.record.node_id, scored.distance⟩

/-- No record at the sequence overrides the result. -/
def untouched (query : List FloatBits) (records : List DynamicRecord)
    (result : SearchResult D) : Bool :=
  records.all fun record => !(overrides query record && record.node_id == result.id)

/-- Everything a query could return: the base results that no write has touched, and the live
records at their own distances. -/
def overlay (query : List FloatBits) (base : List (SearchResult D))
    (records : List DynamicRecord) : List (SearchResult D) :=
  base.filter (untouched query records) ++
    (scoreRecords squared_l2 query records).map ScoredRecord.toResult

omit [LinearOrder D] in
theorem untouched_iff {query : List FloatBits} {records : List DynamicRecord}
    {result : SearchResult D} : untouched query records result = true ↔
      ∀ record ∈ records, overrides query record = true → record.node_id ≠ result.id := by
  rw [untouched, List.all_eq_true]
  refine forall₂_congr fun record _ => ?_
  cases overrides query record <;> simp

end Merge

section Visible

variable {D : Type} {view : Option DynamicReadView} {read_sequence : ℕ} {record : DynamicRecord}

/-- The records of a view. -/
def visibleHistory (view : Option DynamicReadView) : List DynamicRecord :=
  (DynamicReadView.history view).getD []

theorem mem_collectAllDeltaRecordsAt :
    record ∈ DynamicReadView.collectAllDeltaRecordsAt view read_sequence ↔
      newestAt (visibleHistory view) record.node_id read_sequence = some record := by
  rw [DynamicReadView.collectAllDeltaRecordsAt, visibleHistory]
  cases DynamicReadView.history view with
  | none => simp [newestAt, newestOf]
  | some records => exact mem_deduplicateNewestAt

theorem collectAllDeltaRecordsAt_nodup (view : Option DynamicReadView) (read_sequence : ℕ) :
    ((DynamicReadView.collectAllDeltaRecordsAt view read_sequence).map
      DynamicRecord.node_id).Nodup := by
  rw [DynamicReadView.collectAllDeltaRecordsAt]
  cases DynamicReadView.history view with
  | none => exact List.nodup_nil
  | some records =>
    rw [List.Nodup, List.pairwise_map]
    exact (deduplicateNewest_sorted _).imp ne_of_lt

/-- A node has one record at a sequence. -/
theorem eq_of_mem_collect {other : DynamicRecord}
    (h : record ∈ DynamicReadView.collectAllDeltaRecordsAt view read_sequence)
    (h' : other ∈ DynamicReadView.collectAllDeltaRecordsAt view read_sequence)
    (hid : record.node_id = other.node_id) : record = other :=
  List.inj_on_of_nodup_map (collectAllDeltaRecordsAt_nodup view read_sequence) h h' hid

/-- The table holds the records at the sequence of the ids it was asked for. -/
theorem mem_latestBaseRecords {graph_topk : List (SearchResult D)}
    {latest_base_records : List DynamicRecord}
    (h : LatestBaseRecords view read_sequence graph_topk latest_base_records) :
    record ∈ latest_base_records ↔
      record ∈ DynamicReadView.collectAllDeltaRecordsAt view read_sequence ∧
        record.node_id ∈ graph_topk.map SearchResult.id := by
  have hlookup : ∀ node_id, (DynamicReadView.latestRecordsFor view
        (graph_topk.map SearchResult.id) read_sequence true).lookup node_id =
      if node_id ∈ graph_topk.map SearchResult.id then
        newestAt (visibleHistory view) node_id read_sequence
      else none := by
    intro node_id
    rw [DynamicReadView.latestRecordsFor, visibleHistory]
    cases DynamicReadView.history view with
    | none => simp [newestAt, newestOf]
    | some records =>
      rw [Option.getD_some]
      dsimp only
      rw [lookup_latestRecordsForFromHistory, latestRecordFromHistory_eq, filter_present_true]
  have hkey : ∀ node_id found, (DynamicReadView.latestRecordsFor view
      (graph_topk.map SearchResult.id) read_sequence true).lookup node_id = some found →
      found.node_id = node_id := by
    intro node_id found hfound
    rw [hlookup] at hfound
    split at hfound
    · exact (Versions.mem_of_newest hfound).2
    · cases hfound
  rw [h.mem_iff, Versions.mem_values_iff hkey, hlookup, mem_collectAllDeltaRecordsAt]
  by_cases hid : record.node_id ∈ graph_topk.map SearchResult.id
  · rw [if_pos hid, and_iff_left hid]
  · rw [if_neg hid]
    simp [hid]

end Visible

section Lookup

variable {D : Type} [LinearOrder D] {squared_l2 : List FloatBits → List FloatBits → D}
  {query : List FloatBits}

omit [LinearOrder D] in
theorem lookup_baseById {base_results : List (SearchResult D)}
    (h : (base_results.map SearchResult.id).Nodup) (id : NodeId) (result : SearchResult D) :
    (baseById base_results).lookup id = some result ↔ result ∈ base_results ∧ result.id = id :=
  Versions.lookup_foldl_insert h id result

omit [LinearOrder D] in
theorem lookup_applyDelta_of_ne {by_id : AList fun _ : NodeId => SearchResult D} {id : NodeId}
    {record : DynamicRecord} (h : overrides query record = true → record.node_id ≠ id) :
    (applyDelta squared_l2 query by_id record).lookup id = by_id.lookup id := by
  rw [applyDelta]
  rw [overrides, Bool.or_eq_true] at h
  split_ifs with hdeleted hfits
  · exact AList.lookup_erase_ne (h (Or.inl hdeleted)).symm
  · rfl
  · exact AList.lookup_insert_ne (h (Or.inr (by simpa using hfits))).symm

omit [LinearOrder D] in
/-- Ids that no record of the delta overrides keep their base result. -/
theorem lookup_delta_of_ne {by_id : AList fun _ : NodeId => SearchResult D} {id : NodeId}
    {delta_records : List DynamicRecord}
    (h : ∀ record ∈ delta_records, overrides query record = true → record.node_id ≠ id) :
    (delta_records.foldl (applyDelta squared_l2 query) by_id).lookup id = by_id.lookup id := by
  induction delta_records generalizing by_id with
  | nil => rfl
  | cons record delta_records ih =>
    rw [List.foldl_cons, ih fun r hr => h r (List.mem_cons_of_mem _ hr),
      lookup_applyDelta_of_ne (h record List.mem_cons_self)]

omit [LinearOrder D] in
/-- An id with a record has what that record says, when the delta has one record a node. -/
theorem lookup_delta_of_mem {by_id : AList fun _ : NodeId => SearchResult D}
    {record : DynamicRecord} {delta_records : List DynamicRecord}
    (hsame : ∀ other ∈ delta_records, other.node_id = record.node_id → other = record)
    (hmem : record ∈ delta_records) (hoverrides : overrides query record = true) :
    (delta_records.foldl (applyDelta squared_l2 query) by_id).lookup record.node_id =
      if record.deleted then none
      else some ⟨record.node_id, squared_l2 query record.vector⟩ := by
  induction delta_records using List.reverseRecOn with
  | nil => cases hmem
  | append_singleton records last ih =>
    rw [List.foldl_append, List.foldl_cons, List.foldl_nil]
    by_cases hlast : last.node_id = record.node_id
    · have heq := hsame last (by simp) hlast
      subst heq
      rw [applyDelta]
      split_ifs with hdeleted hfits
      · exact AList.lookup_erase _ _
      · rw [overrides, Bool.or_eq_true] at hoverrides
        simp_all
      · exact AList.lookup_insert _
    · rw [lookup_applyDelta_of_ne fun _ => hlast]
      refine ih (fun other hother => hsame other (List.mem_append_left _ hother)) ?_
      rcases List.mem_append.mp hmem with hmem | hmem
      · exact hmem
      · exact absurd (congrArg DynamicRecord.node_id (List.mem_singleton.mp hmem).symm) hlast

end Lookup

section Combine

variable {D : Type} [LinearOrder D] {squared_l2 : List FloatBits → List FloatBits → D}
  {query : List FloatBits} {view : Option DynamicReadView} {read_sequence top_k : ℕ}
  {graph_topk : List (SearchResult D)} {latest_base_records records : List DynamicRecord}

omit [LinearOrder D] in
theorem mem_scoreRecords {scored : ScoredRecord D} :
    scored ∈ scoreRecords squared_l2 query records ↔
      scored.record ∈ records ∧ scored.record.deleted = false ∧
        fits query.length scored.record = true ∧
        scored = ⟨scored.record, squared_l2 query scored.record.vector⟩ := by
  rw [scoreRecords, List.mem_map]
  constructor
  · rintro ⟨record, hmem, rfl⟩
    obtain ⟨hmem, hlive⟩ := List.mem_filter.mp hmem
    refine ⟨hmem, ?_, ?_, rfl⟩ <;> simp_all [fits]
  · rintro ⟨hmem, hlive, hfits, heq⟩
    refine ⟨scored.record, List.mem_filter.mpr ⟨hmem, ?_⟩, heq.symm⟩
    clear heq
    simp_all [fits]

omit [LinearOrder D] in
theorem scoreRecords_ids_nodup (h : (records.map DynamicRecord.node_id).Nodup) :
    (((scoreRecords squared_l2 query records).map ScoredRecord.toResult).map
      SearchResult.id).Nodup := by
  rw [scoreRecords, List.map_map, List.map_map]
  exact h.sublist (List.filter_sublist.map _)

omit [LinearOrder D] in
theorem scoreRecords_rank_nodup (h : (records.map DynamicRecord.node_id).Nodup) :
    ((scoreRecords squared_l2 query records).map ScoredRecord.rank).Nodup := by
  have hranks : (((scoreRecords squared_l2 query records).map ScoredRecord.toResult).map
      SearchResult.rank).Nodup := SearchResult.rank_nodup (scoreRecords_ids_nodup h)
  rwa [List.map_map] at hranks

omit [LinearOrder D] in
/-- No id occurs twice in the overlay. -/
theorem overlay_ids_nodup (hbase : (graph_topk.map SearchResult.id).Nodup)
    (hrecords : (records.map DynamicRecord.node_id).Nodup) :
    ((overlay squared_l2 query graph_topk records).map SearchResult.id).Nodup := by
  rw [overlay, List.map_append, List.nodup_append]
  refine ⟨hbase.sublist (List.filter_sublist.map _), scoreRecords_ids_nodup hrecords, ?_⟩
  intro a ha b hb hab
  obtain ⟨result, hresult, rfl⟩ := List.mem_map.mp ha
  obtain ⟨scored', hscored', rfl⟩ := List.mem_map.mp hb
  obtain ⟨scored, hscored, rfl⟩ := List.mem_map.mp hscored'
  obtain ⟨hmem, -, hfits, -⟩ := mem_scoreRecords.mp hscored
  have hover : overrides query scored.record = true := by simp [overrides, hfits]
  exact untouched_iff.mp (List.mem_filter.mp hresult).2 scored.record hmem hover hab.symm

/-- A scored record among the first `k` results is among the first `k` records. -/
theorem before_scored_le (base : List (SearchResult D)) (scored : ScoredRecord D) :
    TopK.before ScoredRecord.rank (scoreRecords squared_l2 query records) scored ≤
      TopK.before SearchResult.rank (overlay squared_l2 query base records) scored.toResult := by
  rw [overlay, TopK.before, TopK.before, List.countP_append, List.countP_map]
  exact Nat.le_add_left _ _

omit [LinearOrder D] in
/-- After the delta was applied, the entry of an id with an overriding record is that record's. -/
theorem lookup_merge_of_mem {delta : List DynamicRecord}
    (honly : ∀ record ∈ records, ∀ other ∈ records,
      other.node_id = record.node_id → other = record)
    (hsub : ∀ record ∈ delta, record ∈ records) {record : DynamicRecord} (hrecord : record ∈ delta)
    (hover : overrides query record = true) :
    (delta.foldl (applyDelta squared_l2 query) (baseById graph_topk)).lookup record.node_id =
      if record.deleted then none
      else some ⟨record.node_id, squared_l2 query record.vector⟩ :=
  lookup_delta_of_mem (fun other hother => honly record (hsub record hrecord) other
    (hsub other hother)) hrecord hover

omit [LinearOrder D] in
/-- Every result is filed under its own id. -/
theorem id_of_lookup_merge {delta : List DynamicRecord}
    (hbase : (graph_topk.map SearchResult.id).Nodup)
    (honly : ∀ record ∈ records, ∀ other ∈ records,
      other.node_id = record.node_id → other = record)
    (hsub : ∀ record ∈ delta, record ∈ records) {id : NodeId} {result : SearchResult D}
    (hresult : (delta.foldl (applyDelta squared_l2 query) (baseById graph_topk)).lookup id =
      some result) : result.id = id := by
  by_cases hex : ∃ record ∈ delta, overrides query record = true ∧ record.node_id = id
  · obtain ⟨record, hrecord, hover, rfl⟩ := hex
    rw [lookup_merge_of_mem honly hsub hrecord hover] at hresult
    split at hresult
    · cases hresult
    · cases hresult
      rfl
  · rw [lookup_delta_of_ne fun record hrecord hover hid => hex ⟨record, hrecord, hover, hid⟩]
      at hresult
    exact ((lookup_baseById hbase id result).mp hresult).2

omit [LinearOrder D] in
/-- What the merge holds is in the overlay, when the delta has the records of the base results. -/
theorem mem_overlay_of_lookup_merge {delta : List DynamicRecord}
    (hbase : (graph_topk.map SearchResult.id).Nodup)
    (honly : ∀ record ∈ records, ∀ other ∈ records,
      other.node_id = record.node_id → other = record)
    (hsub : ∀ record ∈ delta, record ∈ records)
    (hnear : ∀ record ∈ records, record.node_id ∈ graph_topk.map SearchResult.id → record ∈ delta)
    {result : SearchResult D}
    (hresult : (delta.foldl (applyDelta squared_l2 query) (baseById graph_topk)).lookup
      result.id = some result) : result ∈ overlay squared_l2 query graph_topk records := by
  by_cases hex : ∃ record ∈ delta, overrides query record = true ∧ record.node_id = result.id
  · obtain ⟨record, hrecord, hover, hid⟩ := hex
    rw [← hid, lookup_merge_of_mem honly hsub hrecord hover] at hresult
    split at hresult
    · cases hresult
    · next hlive =>
      refine List.mem_append_right _ (List.mem_map.mpr
        ⟨⟨record, squared_l2 query record.vector⟩, mem_scoreRecords.mpr ?_, ?_⟩)
      · exact ⟨hsub record hrecord, by simpa using hlive,
          by simpa [overrides, hlive] using hover, rfl⟩
      · exact Option.some.inj hresult
  · rw [lookup_delta_of_ne fun record hrecord hover hid => hex ⟨record, hrecord, hover, hid⟩,
      lookup_baseById hbase] at hresult
    refine List.mem_append_left _ (List.mem_filter.mpr ⟨hresult.1, ?_⟩)
    refine untouched_iff.mpr fun record hrecord hover hid =>
      hex ⟨record, hnear record hrecord ?_, hover, hid⟩
    rw [hid]
    exact List.mem_map_of_mem hresult.1

omit [LinearOrder D] in
/-- A result of the overlay is in the merge, unless its record is missing from the delta. -/
theorem lookup_merge_of_mem_overlay {delta : List DynamicRecord}
    (hbase : (graph_topk.map SearchResult.id).Nodup)
    (honly : ∀ record ∈ records, ∀ other ∈ records,
      other.node_id = record.node_id → other = record)
    (hsub : ∀ record ∈ delta, record ∈ records) {result : SearchResult D}
    (hresult : result ∈ overlay squared_l2 query graph_topk records)
    (hnear : ∀ scored ∈ scoreRecords squared_l2 query records, scored.toResult = result →
      scored.record ∈ delta) :
    (delta.foldl (applyDelta squared_l2 query) (baseById graph_topk)).lookup result.id =
      some result := by
  rcases List.mem_append.mp hresult with hmem | hmem
  · obtain ⟨hgraph, huntouched⟩ := List.mem_filter.mp hmem
    rw [lookup_delta_of_ne, lookup_baseById hbase]
    · exact ⟨hgraph, rfl⟩
    · exact fun record hrecord => untouched_iff.mp huntouched record (hsub record hrecord)
  · obtain ⟨scored, hs, rfl⟩ := List.mem_map.mp hmem
    obtain ⟨-, hlive, hfits, heq⟩ := mem_scoreRecords.mp hs
    have hover : overrides query scored.record = true := by simp [overrides, hfits]
    have hfound : (delta.foldl (applyDelta squared_l2 query) (baseById graph_topk)).lookup
        scored.record.node_id = _ :=
      lookup_merge_of_mem honly hsub (hnear scored hs rfl) hover
    rw [hlive, if_neg Bool.false_ne_true] at hfound
    have hscored : scored.toResult =
        ⟨scored.record.node_id, squared_l2 query scored.record.vector⟩ := by
      rw [heq]
      rfl
    rw [hscored]
    exact hfound

/-- The merge is the first `top_k` of the overlay: cutting the delta first loses nothing. -/
theorem combine_eq_topk (hbase : (graph_topk.map SearchResult.id).Nodup)
    (hlatest : LatestBaseRecords view read_sequence graph_topk latest_base_records)
    (hquery : query ≠ []) :
    combine squared_l2 view read_sequence graph_topk latest_base_records query top_k =
      TopK.topk SearchResult.rank top_k (overlay squared_l2 query graph_topk
        (DynamicReadView.collectAllDeltaRecordsAt view read_sequence)) := by
  have hempty : query.isEmpty = false := by simpa using hquery
  rw [combine, mergeBaseAndDeltaL2, DynamicReadView.searchDeltaL2At, searchRecordsL2, hempty]
  by_cases hk : top_k = 0
  · simp [hk, TopK.topk]
  · have hpositive : (top_k == 0) = false := by simpa using hk
    simp only [hpositive, Bool.or_self, Bool.false_eq_true, if_false]
    have hnodup := collectAllDeltaRecordsAt_nodup view read_sequence
    have honly : ∀ record ∈ DynamicReadView.collectAllDeltaRecordsAt view read_sequence,
        ∀ other ∈ DynamicReadView.collectAllDeltaRecordsAt view read_sequence,
        other.node_id = record.node_id → other = record :=
      fun record h other h' hid => eq_of_mem_collect h' h hid
    have hlatestMem : ∀ record, record ∈ latest_base_records ↔
        record ∈ DynamicReadView.collectAllDeltaRecordsAt view read_sequence ∧
          record.node_id ∈ graph_topk.map SearchResult.id :=
      fun record => mem_latestBaseRecords hlatest
    generalize DynamicReadView.collectAllDeltaRecordsAt view read_sequence = records at *
    have hscored : ((scoreRecords squared_l2 query records).map ScoredRecord.rank).Nodup :=
      scoreRecords_rank_nodup hnodup
    have hoverlay : ((overlay squared_l2 query graph_topk records).map SearchResult.id).Nodup :=
      overlay_ids_nodup hbase hnodup
    obtain ⟨delta, hdelta⟩ : ∃ delta, delta = (TopK.topk ScoredRecord.rank top_k
        (scoreRecords squared_l2 query records)).map ScoredRecord.record ++
          latest_base_records := ⟨_, rfl⟩
    rw [← hdelta]
    have hsub : ∀ record ∈ delta, record ∈ records := by
      intro record hrecord
      rw [hdelta] at hrecord
      rcases List.mem_append.mp hrecord with hrecord | hrecord
      · obtain ⟨scored, hs, rfl⟩ := List.mem_map.mp hrecord
        exact (mem_scoreRecords.mp (TopK.mem_of_mem_topk hs)).1
      · exact ((hlatestMem record).mp hrecord).1
    have hkey : ∀ id result, (delta.foldl (applyDelta squared_l2 query)
        (baseById graph_topk)).lookup id = some result → result.id = id :=
      fun _ _ hresult => id_of_lookup_merge hbase honly hsub hresult
    have hmerged : ∀ result, result ∈ (delta.foldl (applyDelta squared_l2 query)
        (baseById graph_topk)).entries.map Sigma.snd ↔ (delta.foldl (applyDelta squared_l2 query)
        (baseById graph_topk)).lookup result.id = some result :=
      fun result => Versions.mem_values_iff hkey
    refine TopK.topk_eq_of_subset (SearchResult.rank_nodup hoverlay)
      (SearchResult.rank_nodup (Versions.nodup_values hkey)) (fun result hresult => ?_)
      fun result hresult => ?_
    · rw [hmerged] at hresult
      refine mem_overlay_of_lookup_merge hbase honly hsub (fun record hrecord hid => ?_) hresult
      rw [hdelta]
      exact List.mem_append_right _ ((hlatestMem record).mpr ⟨hrecord, hid⟩)
    · rw [hmerged]
      have htop := (TopK.mem_topk_iff (TopK.separates_of_nodup (SearchResult.rank_nodup hoverlay))).mp
        hresult
      refine lookup_merge_of_mem_overlay hbase honly hsub htop.1 fun scored hs heq => ?_
      -- a record behind the cut of the delta would be behind that of the overlay
      rw [hdelta]
      refine List.mem_append_left _ (List.mem_map_of_mem
        ((TopK.mem_topk_iff (TopK.separates_of_nodup hscored)).mpr
        ⟨hs, lt_of_le_of_lt (before_scored_le graph_topk scored) ?_⟩))
      rw [heq]
      exact htop.2

/-- What a query relies on, for the records of a history up to a sequence. -/
structure MergeSpec (squared_l2 : List FloatBits → List FloatBits → D) (query : List FloatBits)
    (history : List DynamicRecord) (read_sequence top_k : ℕ) (output : List (SearchResult D)) :
    Prop where
  length_le : output.length ≤ top_k
  ids_nodup : (output.map SearchResult.id).Nodup
  sorted : output.Pairwise fun a b => a.rank < b.rank
  not_deleted : ∀ result ∈ output, ∀ record,
    newestAt history result.id read_sequence = some record → record.deleted = false
  newest_distance : ∀ result ∈ output, ∀ record,
    newestAt history result.id read_sequence = some record →
      result.distance = squared_l2 query record.vector
  /-- A live record is missing only when the output is full of results that precede it. -/
  delta_complete : ∀ record, newestAt history record.node_id read_sequence = some record →
    record.deleted = false →
      (output.length < top_k ∨ ∃ last, output[top_k - 1]? = some last ∧
        toLex (squared_l2 query record.vector, record.node_id) < last.rank) →
      ⟨record.node_id, squared_l2 query record.vector⟩ ∈ output

end Combine

end Dynamic
