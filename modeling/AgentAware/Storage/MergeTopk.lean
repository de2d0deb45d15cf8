import AgentAware.Core.Types
import AgentAware.Lib.BestPerKey
import Mathlib.Data.List.AList

/-!
# Merging result lists

`merge_topk` keeps the nearest result of every id of two lists and cuts the outcome to `k`. An id may
be cut from one list at its best distance and survive in the other at a worse one; when that happens
the `k` results in front of it are all better, so the cut of the merge removes it as well.

## Main definitions

- `mergeTopk` — the merge

## Main results

- `mergeTopk_eq` — the first `k` of the best results of all ids
- `mergeTopk_append` — merging the merged parts of a list is merging the list
-/

namespace Storage

section Merge

variable {D : Type} [LinearOrder D]

/-- The body of the loop of `add`. -/
def addBest (best_by_id : AList fun _ : NodeId => D) (value : SearchResult D) :
    AList fun _ : NodeId => D :=
  match best_by_id.lookup value.id with
  | none => best_by_id.insert value.id value.distance
  | some found =>
    if value.distance < found then best_by_id.insert value.id value.distance else best_by_id

def bestById (values : List (SearchResult D)) : AList fun _ : NodeId => D :=
  values.foldl addBest ∅

/-- The results of the table. -/
def merged (best_by_id : AList fun _ : NodeId => D) : List (SearchResult D) :=
  best_by_id.entries.map fun item => ⟨item.1, item.2⟩

def mergeTopk (lhs rhs : List (SearchResult D)) (k : ℕ) : List (SearchResult D) :=
  if k = 0 then []
  else
    let best_by_id := rhs.foldl addBest (bestById lhs)
    let results := TopK.sortBy SearchResult.rank (merged best_by_id)
    if results.length > k then results.take k else results

end Merge

section Specs

variable {D : Type} [LinearOrder D] {values lhs rhs : List (SearchResult D)} {k : ℕ}

theorem lookup_addBest (best_by_id : AList fun _ : NodeId => D) (value : SearchResult D)
    (id : NodeId) : (addBest best_by_id value).lookup id =
      if value.id = id then
        some (((best_by_id.lookup id).map fun found => min found value.distance).getD value.distance)
      else best_by_id.lookup id := by
  rw [addBest]
  by_cases hid : value.id = id
  · subst hid
    cases hfound : best_by_id.lookup value.id with
    | none => simp
    | some found =>
      by_cases hlt : value.distance < found
      · simp [hlt, min_eq_right hlt.le]
      · simp [hlt, hfound, min_eq_left (not_lt.mp hlt)]
  · have hne : id ≠ value.id := fun h => hid h.symm
    cases hfound : best_by_id.lookup value.id with
    | none => simp [hid, AList.lookup_insert_ne hne]
    | some found =>
      by_cases hlt : value.distance < found <;> simp [hlt, hid, AList.lookup_insert_ne hne]

theorem min?_concat (distances : List D) (last : D) :
    (distances ++ [last]).min? =
      some ((distances.min?.map fun found => min found last).getD last) := by
  cases distances with
  | nil => rfl
  | cons first rest =>
    rw [List.cons_append, List.min?_cons', List.min?_cons', List.foldl_append]
    rfl

/-- The table holds the smallest distance of every id. -/
theorem lookup_bestById (values : List (SearchResult D)) (id : NodeId) :
    (bestById values).lookup id =
      ((values.filter fun value => value.id = id).map SearchResult.distance).min? := by
  induction values using List.reverseRecOn with
  | nil => rfl
  | append_singleton values last ih =>
    rw [bestById, List.foldl_append, List.foldl_cons, List.foldl_nil, ← bestById, lookup_addBest,
      ih, List.filter_append]
    split
    · next hid => simp [hid, min?_concat]
    · next hid => simp [hid]

omit [LinearOrder D] in
theorem mem_merged {best_by_id : AList fun _ : NodeId => D} {result : SearchResult D} :
    result ∈ merged best_by_id ↔ best_by_id.lookup result.id = some result.distance := by
  rw [merged, List.mem_map]
  constructor
  · rintro ⟨⟨id, distance⟩, hmem, rfl⟩
    exact AList.mem_lookup_iff.mpr hmem
  · intro h
    exact ⟨⟨result.id, result.distance⟩, AList.mem_lookup_iff.mp h, rfl⟩

omit [LinearOrder D] in
theorem merged_ids_nodup (best_by_id : AList fun _ : NodeId => D) :
    ((merged best_by_id).map SearchResult.id).Nodup := by
  rw [merged, List.map_map]
  exact best_by_id.keys_nodup

/-- The results of the table are the best ones of their ids. -/
theorem bestOf_merged (values : List (SearchResult D)) :
    TopK.BestOf SearchResult.id SearchResult.rank values (merged (bestById values)) := by
  refine ⟨merged_ids_nodup _, fun result => ?_⟩
  have hrank : ∀ value : SearchResult D, value.id = result.id →
      (result.rank ≤ value.rank ↔ result.distance ≤ value.distance) := by
    intro value hid
    rw [SearchResult.rank, SearchResult.rank, Prod.Lex.toLex_le_toLex, hid]
    simp [le_iff_lt_or_eq]
  rw [mem_merged, lookup_bestById, List.min?_eq_some_iff]
  constructor
  · rintro ⟨hmem, hleast⟩
    obtain ⟨value, hvalue, hdistance⟩ := List.mem_map.mp hmem
    obtain ⟨hvalue, hid⟩ := List.mem_filter.mp hvalue
    have heq : value = result := by
      cases value
      cases result
      simp_all
    refine ⟨heq ▸ hvalue, fun other hother hid => (hrank other hid).mpr (hleast _ ?_)⟩
    exact List.mem_map_of_mem (List.mem_filter.mpr ⟨hother, by simpa using hid⟩)
  · rintro ⟨hmem, hleast⟩
    refine ⟨List.mem_map_of_mem (List.mem_filter.mpr ⟨hmem, by simp⟩), fun distance hdistance => ?_⟩
    obtain ⟨value, hvalue, rfl⟩ := List.mem_map.mp hdistance
    obtain ⟨hvalue, hid⟩ := List.mem_filter.mp hvalue
    have hid : value.id = result.id := of_decide_eq_true hid
    exact (hrank value hid).mp (hleast value hvalue hid)

/-- The merge is the first `k` of the best results of all ids. -/
theorem mergeTopk_eq (lhs rhs : List (SearchResult D)) (k : ℕ) :
    mergeTopk lhs rhs k = TopK.topk SearchResult.rank k (merged (bestById (lhs ++ rhs))) := by
  have htable : rhs.foldl addBest (bestById lhs) = bestById (lhs ++ rhs) := by
    rw [bestById, bestById, List.foldl_append]
  rw [mergeTopk, htable, TopK.topk]
  split
  · next hk => rw [hk, List.take_zero]
  · dsimp only
    split
    · rfl
    · next hk => rw [List.take_of_length_le (not_lt.mp hk)]

/-- A part of the input may be merged first. -/
theorem mergeTopk_mergeTopk_left (first second rest : List (SearchResult D)) (k : ℕ) :
    mergeTopk (mergeTopk first second k) rest k = mergeTopk (first ++ second) rest k := by
  rw [mergeTopk_eq, mergeTopk_eq, mergeTopk_eq]
  exact (bestOf_merged _).topk_topk_append SearchResult.rank_injective (bestOf_merged _)
    (bestOf_merged _)

theorem mergeTopk_swap (lhs rhs : List (SearchResult D)) (k : ℕ) :
    mergeTopk lhs rhs k = mergeTopk rhs lhs k := by
  rw [mergeTopk_eq, mergeTopk_eq]
  refine (bestOf_merged _).topk_congr SearchResult.rank_injective (bestOf_merged _) fun value => ?_
  rw [List.mem_append, List.mem_append, or_comm]

theorem mergeTopk_mergeTopk_right (first second rest : List (SearchResult D)) (k : ℕ) :
    mergeTopk first (mergeTopk second rest k) k = mergeTopk first (second ++ rest) k := by
  rw [mergeTopk_swap, mergeTopk_mergeTopk_left, mergeTopk_swap]

/-- Merging is a homomorphism from lists, and for a fixed `k` it is commutative and associative. -/
theorem mergeTopk_sharding (k : ℕ) :
    (∀ A B : List (SearchResult D),
      mergeTopk (mergeTopk A [] k) (mergeTopk B [] k) k = mergeTopk (A ++ B) [] k) ∧
    (∀ A B : List (SearchResult D), mergeTopk A B k = mergeTopk B A k) ∧
    ∀ A B C : List (SearchResult D),
      mergeTopk (mergeTopk A B k) C k = mergeTopk A (mergeTopk B C k) k := by
  refine ⟨fun A B => ?_, fun A B => mergeTopk_swap A B k, fun A B C => ?_⟩
  · rw [mergeTopk_mergeTopk_left, mergeTopk_mergeTopk_right, mergeTopk_eq, mergeTopk_eq]
    simp only [List.append_nil]
  · rw [mergeTopk_mergeTopk_left, mergeTopk_mergeTopk_right, mergeTopk_eq, mergeTopk_eq,
      List.append_assoc]

end Specs

end Storage
