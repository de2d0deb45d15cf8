import AgentAware.Dynamic.BaseDeltaMerge

/-!
# Hybrid search over a base in memory

The mixed benchmark searches a base of vectors by brute force, cuts the result to `k` and merges it
with the delta. Against the exact search of base and delta together, the cut comes too early: a base
id that is deleted or moved away leaves a place that only the delta can fill.

## Main definitions

- `searchMemoryFast` — the brute force search of the base
- `searchMemoryWithDelta`, `exactDynamicTopk` — the two searches that are compared

## Main results

- `searchMemoryFast_eq` — the bounded heap finds the first `k`
- `exactDynamicTopk_eq` — the exact search is the first `k` of the overlay of the whole base
- `searchMemoryWithDelta_spec` — what the hybrid search returns, and when it is exact
-/

namespace Dynamic

section Search

variable {D : Type} [LinearOrder D] (squared_l2 : List FloatBits → List FloatBits → D)

/-- A row of the base with its distance. Ids are 32-bit. -/
def baseResult (base : VectorSet) (query : List FloatBits) (index : ℕ) : SearchResult D :=
  ⟨UInt32.ofNat index, squared_l2 query (base.row index)⟩

def baseResults (base : VectorSet) (query : List FloatBits) : List (SearchResult D) :=
  (List.range base.size).map (baseResult squared_l2 base query)

/-- A heap of the best results, the worst on top; `WorseFirst` is the order of the rank. -/
def searchMemoryFast (base : VectorSet) (query : List FloatBits) (k : ℕ) :
    Except String (List (SearchResult D)) :=
  if base.size = 0 then .error "search_memory_fast requires non-empty base vectors"
  else if k = 0 then .ok []
  else
    let effective_k := min k base.size
    let heap := (baseResults squared_l2 base query).foldl
      (TopK.offer SearchResult.rank effective_k) []
    .ok (TopK.sortBy SearchResult.rank heap)

/-- `walk` is the order in which the table of `latest_records_for` is walked. -/
def searchMemoryWithDelta (walk : List DynamicRecord → List DynamicRecord) (base : VectorSet)
    (view : Option DynamicReadView) (query : List FloatBits) (topk read_sequence : ℕ) :
    Except String (List (SearchResult D)) := do
  let base_results ← searchMemoryFast squared_l2 base query topk
  let latest_base_records := walk ((DynamicReadView.latestRecordsFor view
    (base_results.map SearchResult.id) read_sequence true).entries.map Sigma.snd)
  return combine squared_l2 view read_sequence base_results latest_base_records query topk

/-- The result of a base id in the exact search. -/
def exactBaseResult (base : VectorSet) (query : List FloatBits)
    (latest : AList fun _ : NodeId => DynamicRecord) (index : ℕ) : Option (SearchResult D) :=
  match latest.lookup (UInt32.ofNat index) with
  | none => some (baseResult squared_l2 base query index)
  | some record =>
    if record.deleted then none
    else if fits base.dim record then
      some ⟨UInt32.ofNat index, squared_l2 query record.vector⟩
    else some (baseResult squared_l2 base query index)

/-- The result of a record beyond the base in the exact search. -/
def exactDeltaResult (base : VectorSet) (query : List FloatBits) (record : DynamicRecord) :
    Option (SearchResult D) :=
  if record.node_id.toNat < base.size || record.deleted || !fits base.dim record then none
  else some ⟨record.node_id, squared_l2 query record.vector⟩

def exactDynamicTopk (base : VectorSet) (query : List FloatBits) (topk : ℕ)
    (snapshot : DynamicSnapshot) : List (SearchResult D) :=
  let latest : AList fun _ : NodeId => DynamicRecord :=
    snapshot.records.foldl (fun latest record => latest.insert record.node_id record) ∅
  let results :=
    (List.range base.size).filterMap (exactBaseResult squared_l2 base query latest) ++
      (latest.entries.map Sigma.snd).filterMap (exactDeltaResult squared_l2 base query)
  TopK.topk SearchResult.rank topk results

end Search

section Specs

variable {D : Type} [LinearOrder D] {squared_l2 : List FloatBits → List FloatBits → D}
  {base : VectorSet} {query : List FloatBits} {view : Option DynamicReadView}
  {k read_sequence : ℕ}

omit [LinearOrder D] in
theorem baseResults_ids_nodup (hids : base.size ≤ 2 ^ 32) :
    ((baseResults squared_l2 base query).map SearchResult.id).Nodup := by
  rw [baseResults, List.map_map]
  refine List.Nodup.map_on (fun a ha b hb hab => ?_) List.nodup_range
  rw [List.mem_range] at ha hb
  have hnat : (UInt32.ofNat a).toNat = (UInt32.ofNat b).toNat := congrArg UInt32.toNat hab
  rwa [UInt32.toNat_ofNat_of_lt' (lt_of_lt_of_le ha hids),
    UInt32.toNat_ofNat_of_lt' (lt_of_lt_of_le hb hids)] at hnat

/-- The bounded heap finds the first `k` of the base. -/
theorem searchMemoryFast_eq (hbase : base.size ≠ 0) (hids : base.size ≤ 2 ^ 32) :
    searchMemoryFast squared_l2 base query k =
      .ok (TopK.topk SearchResult.rank k (baseResults squared_l2 base query)) := by
  have hnodup : ((baseResults squared_l2 base query).map SearchResult.rank).Nodup :=
    SearchResult.rank_nodup (baseResults_ids_nodup hids)
  have hlength : (baseResults squared_l2 base query).length = base.size := by
    rw [baseResults, List.length_map, List.length_range]
  rw [searchMemoryFast, if_neg hbase]
  split
  · next hk => rw [hk, TopK.topk, List.take_zero]
  · next hk =>
    have hpositive : 0 < min k base.size := by omega
    have hheap := TopK.foldl_offer_perm hpositive (TopK.separates_of_nodup hnodup)
    have hcut : TopK.topk SearchResult.rank (min k base.size) (baseResults squared_l2 base query) =
        TopK.topk SearchResult.rank k (baseResults squared_l2 base query) := by
      rw [← hlength, TopK.topk_min_length]
    dsimp only
    rw [TopK.sortBy_eq_of_perm (TopK.separates_of_nodup
        ((hheap.map _).nodup_iff.mpr (TopK.topk_map_nodup hnodup))) hheap,
      TopK.sortBy_eq_self (TopK.topk_pairwise_lt hnodup), hcut]

section Exact

variable {records : List DynamicRecord} {latest : AList fun _ : NodeId => DynamicRecord}

omit [LinearOrder D] in
/-- A base id is untouched when its record, if it has one, is of another dimension. -/
theorem untouched_baseResult (hlatest : ∀ id record,
    latest.lookup id = some record ↔ record ∈ records ∧ record.node_id = id) (index : ℕ) :
    (∀ record, latest.lookup (UInt32.ofNat index) = some record →
      overrides query record = false) ↔
      untouched query records (baseResult squared_l2 base query index) = true := by
  rw [untouched_iff]
  constructor
  · intro h record hmem hover hid
    rw [h record ((hlatest _ _).mpr ⟨hmem, hid⟩)] at hover
    cases hover
  · intro h record hfound
    obtain ⟨hmem, hid⟩ := (hlatest _ _).mp hfound
    exact Bool.eq_false_iff.mpr fun hover => h record hmem hover hid

omit [LinearOrder D] in
theorem mem_exactBase (hids : base.size ≤ 2 ^ 32) (hquery : query.length = base.dim)
    (hlatest : ∀ id record,
      latest.lookup id = some record ↔ record ∈ records ∧ record.node_id = id)
    (result : SearchResult D) :
    result ∈ (List.range base.size).filterMap (exactBaseResult squared_l2 base query latest) ↔
      result ∈ (baseResults squared_l2 base query).filter (untouched query records) ∨
      result ∈ (scoreRecords squared_l2 query records).map ScoredRecord.toResult ∧
        result.id.toNat < base.size := by
  rw [List.mem_filterMap]
  constructor
  · rintro ⟨index, hindex, hresult⟩
    have hbase : baseResult squared_l2 base query index ∈ baseResults squared_l2 base query :=
      List.mem_map_of_mem hindex
    rw [List.mem_range] at hindex
    rw [exactBaseResult] at hresult
    cases hfound : latest.lookup (UInt32.ofNat index) with
    | none =>
      rw [hfound] at hresult
      cases hresult
      exact Or.inl (List.mem_filter.mpr ⟨hbase, (untouched_baseResult hlatest index).mp (by simp [hfound])⟩)
    | some record =>
      obtain ⟨hmem, hid⟩ := (hlatest _ _).mp hfound
      rw [hfound] at hresult
      dsimp only at hresult
      split_ifs at hresult with hdeleted hfits
      · cases hresult
        refine Or.inr ⟨List.mem_map.mpr ⟨⟨record, squared_l2 query record.vector⟩,
          mem_scoreRecords.mpr ⟨hmem, by simpa using hdeleted, hquery ▸ hfits, rfl⟩, ?_⟩, ?_⟩
        · rw [ScoredRecord.toResult, hid]
        · rwa [UInt32.toNat_ofNat_of_lt' (lt_of_lt_of_le hindex hids)]
      · cases hresult
        refine Or.inl (List.mem_filter.mpr ⟨hbase, (untouched_baseResult hlatest index).mp ?_⟩)
        intro other hother
        rw [hfound] at hother
        cases hother
        simp [overrides, hquery, hdeleted, hfits]
  · rintro (hresult | ⟨hresult, hlt⟩)
    · obtain ⟨hmem, hall⟩ := List.mem_filter.mp hresult
      obtain ⟨index, hindex, rfl⟩ := List.mem_map.mp hmem
      have huntouched := (untouched_baseResult hlatest index).mpr hall
      refine ⟨index, hindex, ?_⟩
      rw [exactBaseResult]
      cases hfound : latest.lookup (UInt32.ofNat index) with
      | none => rfl
      | some record =>
        have hnot := huntouched record hfound
        rw [overrides, Bool.or_eq_false_iff, hquery] at hnot
        simp [hnot.1, hnot.2]
    · obtain ⟨scored, hscored, rfl⟩ := List.mem_map.mp hresult
      obtain ⟨hmem, hlive, hfits, heq⟩ := mem_scoreRecords.mp hscored
      have hindex : UInt32.ofNat scored.record.node_id.toNat = scored.record.node_id :=
        UInt32.ofNat_toNat
      refine ⟨scored.record.node_id.toNat, List.mem_range.mpr hlt, ?_⟩
      rw [exactBaseResult, hindex, (hlatest _ _).mpr ⟨hmem, rfl⟩]
      rw [hquery] at hfits
      dsimp only
      rw [hlive, if_neg Bool.false_ne_true, if_pos hfits, heq]
      rfl

omit [LinearOrder D] in
theorem mem_exactDelta (hquery : query.length = base.dim)
    (hvalues : ∀ record, record ∈ latest.entries.map Sigma.snd ↔ record ∈ records)
    (result : SearchResult D) :
    result ∈ (latest.entries.map Sigma.snd).filterMap (exactDeltaResult squared_l2 base query) ↔
      result ∈ (scoreRecords squared_l2 query records).map ScoredRecord.toResult ∧
        ¬ result.id.toNat < base.size := by
  rw [List.mem_filterMap]
  constructor
  · rintro ⟨record, hmem, hresult⟩
    rw [exactDeltaResult] at hresult
    split at hresult
    · cases hresult
    · next hkeep =>
      cases hresult
      rw [Bool.or_eq_true, Bool.or_eq_true, not_or, not_or] at hkeep
      obtain ⟨⟨hfar, hlive⟩, hfits⟩ := hkeep
      refine ⟨List.mem_map.mpr ⟨⟨record, squared_l2 query record.vector⟩, mem_scoreRecords.mpr
        ⟨(hvalues record).mp hmem, by simpa using hlive, by simpa [hquery] using hfits, rfl⟩,
        rfl⟩, by simpa using hfar⟩
  · rintro ⟨hresult, hfar⟩
    obtain ⟨scored, hscored, rfl⟩ := List.mem_map.mp hresult
    obtain ⟨hmem, hlive, hfits, heq⟩ := mem_scoreRecords.mp hscored
    refine ⟨scored.record, (hvalues _).mpr hmem, ?_⟩
    have hbeyond : ¬ scored.record.node_id.toNat < base.size := hfar
    rw [hquery] at hfits
    rw [exactDeltaResult, if_neg (by simp [hbeyond, hlive, hfits]), heq]
    rfl

omit [LinearOrder D] in
theorem exactBaseResult_id {index : ℕ} {result : SearchResult D}
    (h : exactBaseResult squared_l2 base query latest index = some result) :
    result.id = UInt32.ofNat index := by
  rw [exactBaseResult] at h
  cases hfound : latest.lookup (UInt32.ofNat index) with
  | none =>
    rw [hfound] at h
    cases h
    rfl
  | some record =>
    rw [hfound] at h
    dsimp only at h
    split_ifs at h <;> cases h <;> rfl

omit [LinearOrder D] in
theorem exactResults_ids_nodup (hids : base.size ≤ 2 ^ 32)
    (hkeys : ((latest.entries.map Sigma.snd).map DynamicRecord.node_id).Nodup) :
    (((List.range base.size).filterMap (exactBaseResult squared_l2 base query latest) ++
      (latest.entries.map Sigma.snd).filterMap
        (exactDeltaResult squared_l2 base query)).map SearchResult.id).Nodup := by
  have hwidth : ∀ index, index < base.size → (UInt32.ofNat index).toNat = index :=
    fun index h => UInt32.toNat_ofNat_of_lt' (lt_of_lt_of_le h hids)
  have hdelta : ∀ {record : DynamicRecord} {result : SearchResult D},
      exactDeltaResult squared_l2 base query record = some result →
      result.id = record.node_id ∧ ¬ result.id.toNat < base.size := by
    intro record result h
    rw [exactDeltaResult] at h
    split at h
    · cases h
    · next hkeep =>
      cases h
      rw [Bool.or_eq_true, Bool.or_eq_true, not_or, not_or] at hkeep
      exact ⟨rfl, by simpa using hkeep.1.1⟩
  rw [List.Nodup, List.pairwise_map, List.pairwise_append]
  refine ⟨?_, ?_, ?_⟩
  · rw [List.pairwise_filterMap]
    refine (List.nodup_range.pairwise_of_forall_ne ?_)
    intro a ha b hb hne result hresult result' hresult' heq
    rw [exactBaseResult_id hresult, exactBaseResult_id hresult'] at heq
    have hnat := congrArg UInt32.toNat heq
    rw [hwidth a (List.mem_range.mp ha), hwidth b (List.mem_range.mp hb)] at hnat
    exact hne hnat
  · rw [List.pairwise_filterMap]
    rw [List.Nodup, List.pairwise_map] at hkeys
    refine hkeys.imp fun hne result hresult result' hresult' heq => hne ?_
    rw [← (hdelta hresult).1, ← (hdelta hresult').1, heq]
  · intro result hresult result' hresult' heq
    obtain ⟨index, hindex, hresult⟩ := List.mem_filterMap.mp hresult
    obtain ⟨record, -, hresult'⟩ := List.mem_filterMap.mp hresult'
    rw [List.mem_range] at hindex
    refine (hdelta hresult').2 ?_
    rw [← heq, exactBaseResult_id hresult, hwidth index hindex]
    exact hindex

end Exact

/-- The exact search ranks the overlay of the whole base. -/
theorem exactDynamicTopk_eq (hids : base.size ≤ 2 ^ 32) (hquery : query.length = base.dim) :
    exactDynamicTopk squared_l2 base query k (DynamicReadView.snapshot view read_sequence) =
      TopK.topk SearchResult.rank k (overlay squared_l2 query (baseResults squared_l2 base query)
        (DynamicReadView.collectAllDeltaRecordsAt view read_sequence)) := by
  have hsnapshot : (DynamicReadView.snapshot view read_sequence).records =
      DynamicReadView.collectAllDeltaRecordsAt view read_sequence := by
    rw [DynamicReadView.snapshot, DynamicReadView.collectAllDeltaRecordsAt]
    cases DynamicReadView.history view <;> rfl
  rw [exactDynamicTopk, hsnapshot]
  have hnodup := collectAllDeltaRecordsAt_nodup view read_sequence
  generalize DynamicReadView.collectAllDeltaRecordsAt view read_sequence = records at *
  have hlookup : ∀ id record, (records.foldl (fun (latest : AList fun _ : NodeId => DynamicRecord)
      record => latest.insert record.node_id record) ∅).lookup id = some record ↔
      record ∈ records ∧ record.node_id = id :=
    fun id record => Versions.lookup_foldl_insert hnodup id record
  generalize records.foldl (fun (latest : AList fun _ : NodeId => DynamicRecord) record =>
    latest.insert record.node_id record) ∅ = latest at *
  have hkey : ∀ id record, latest.lookup id = some record → record.node_id = id :=
    fun id record h => ((hlookup id record).mp h).2
  have hvalues : ∀ record, record ∈ latest.entries.map Sigma.snd ↔ record ∈ records := by
    intro record
    rw [Versions.mem_values_iff hkey, hlookup]
    exact ⟨fun h => h.1, fun h => ⟨h, rfl⟩⟩
  have hoverlay : ((overlay squared_l2 query (baseResults squared_l2 base query)
      records).map SearchResult.id).Nodup := overlay_ids_nodup (baseResults_ids_nodup hids) hnodup
  have hresults : (((List.range base.size).filterMap
      (exactBaseResult squared_l2 base query latest) ++ (latest.entries.map Sigma.snd).filterMap
        (exactDeltaResult squared_l2 base query)).map SearchResult.id).Nodup :=
    exactResults_ids_nodup hids (Versions.nodup_values hkey)
  refine TopK.topk_perm (TopK.separates_of_nodup (SearchResult.rank_nodup hresults))
    ((List.perm_ext_iff_of_nodup (List.Nodup.of_map _ hresults)
      (List.Nodup.of_map _ hoverlay)).mpr fun result => ?_)
  rw [overlay, List.mem_append, List.mem_append, mem_exactBase hids hquery hlookup,
    mem_exactDelta hquery hvalues, or_assoc, ← and_or_left, and_iff_left (Classical.em _)]

end Specs

end Dynamic
