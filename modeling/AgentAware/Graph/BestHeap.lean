import AgentAware.Dynamic.HybridSearch
import AgentAware.Graph.PackedSearch
import AgentAware.Storage.DeltaFlatIndex

/-!
# Heaps of the best results

Three loops keep the best results of a scan in a priority queue with the worst on top: the brute
force search of a base, the search of a delta block, and `add_best` of the graph search. Each writes
its own comparison with the top beside the order of the queue. Here the queue and the comparisons are
those of the source, and the loops are shown to be the bounded heap that the searches are stated with.

## Main definitions

- `worseFirst`, `top` — the order of a queue and its top
- `closer` — the comparison in front of a replacement
- `memoryHeap`, `blockHeap`, `bestHeap` — the three loops

## Main results

- `addBest_eq_offer` — one offer to a queue
- `searchMemoryFast_eq_memoryHeap`, `searchBlock_eq_blockHeap`, `best_pushCandidate` — the searches
  run these loops
- `heaps_perm_topk` — every loop ends with the first `k` items, in whatever order they arrive
-/

namespace BestHeap

open TopK (offer topk)

section Queue

variable {D : Type} [LinearOrder D]

/-- `WorseFirst`, by which the queues are ordered. -/
def worseFirst (lhs rhs : SearchResult D) : Bool :=
  if lhs.distance = rhs.distance then lhs.id < rhs.id else lhs.distance < rhs.distance

/-- `top()`: an element of the queue that is ordered before no other one. -/
def top : List (SearchResult D) → Option (SearchResult D)
  | [] => none
  | first :: heap =>
    some (heap.foldl (fun worst next => if worseFirst worst next then next else worst) first)

/-- The result is put in the place of the worst one. -/
def closer (result worst : SearchResult D) : Bool :=
  result.distance < worst.distance ||
    (result.distance = worst.distance && result.id < worst.id)

/-- `add_best`, and the body of the other loops. -/
def addBest (result_capacity : ℕ) (best : List (SearchResult D)) (result : SearchResult D) :
    List (SearchResult D) :=
  if best.length < result_capacity then result :: best
  else
    match top best with
    | none => best
    | some worst => if closer result worst then result :: best.erase worst else best

/-- The loop of `search_memory_fast`. -/
def memoryHeap (k : ℕ) (items : List (SearchResult D)) : List (SearchResult D) :=
  let effective_k := min k items.length
  items.foldl (addBest effective_k) []

/-- The loop of `search_block`. -/
def blockHeap (k : ℕ) (items : List (SearchResult D)) : List (SearchResult D) :=
  let effective_k := min k items.length
  items.foldl (addBest effective_k) []

/-- The best results of a search, which has offered `items`. -/
def bestHeap (result_capacity : ℕ) (items : List (SearchResult D)) : List (SearchResult D) :=
  items.foldl (addBest result_capacity) []

theorem worseFirst_iff (lhs rhs : SearchResult D) :
    worseFirst lhs rhs = true ↔ lhs.rank < rhs.rank := by
  rw [SearchResult.rank, SearchResult.rank, Prod.Lex.toLex_lt_toLex, worseFirst]
  by_cases heq : lhs.distance = rhs.distance
  · simp [heq]
  · simp [heq]

/-- The comparison with the worst result is the order of the queue. -/
theorem closer_iff (result worst : SearchResult D) :
    closer result worst = true ↔ result.rank < worst.rank := by
  rw [SearchResult.rank, SearchResult.rank, Prod.Lex.toLex_lt_toLex, closer]
  simp

theorem top_eq_argmax (heap : List (SearchResult D)) : top heap = heap.argmax SearchResult.rank := by
  cases heap with
  | nil => rfl
  | cons first heap =>
    rw [top, List.argmax, List.foldl_cons]
    show _ = heap.foldl _ (some first)
    induction heap generalizing first with
    | nil => rfl
    | cons next heap ih =>
      rw [List.foldl_cons, List.foldl_cons, ih]
      congr 1
      by_cases h : first.rank < next.rank
      · rw [if_pos ((worseFirst_iff first next).mpr h)]
        exact (if_pos h).symm
      · rw [if_neg (mt (worseFirst_iff first next).mp h)]
        exact (if_neg h).symm

theorem addBest_eq_offer (result_capacity : ℕ) :
    addBest result_capacity = offer (@SearchResult.rank D) result_capacity := by
  funext best result
  rw [addBest, offer, top_eq_argmax]
  cases best.argmax SearchResult.rank with
  | none => rfl
  | some worst =>
    by_cases h : result.rank < worst.rank
    · simp only [(closer_iff result worst).mpr h, if_pos h, if_true]
    · simp only [Bool.eq_false_iff.mpr (mt (closer_iff result worst).mp h), if_neg h]
      rfl

/-- The best results of a search are the first ones of what was offered. -/
theorem bestHeap_perm {k : ℕ} (hk : 0 < k) (items : List (SearchResult D)) :
    (bestHeap k items).Perm (topk SearchResult.rank k items) := by
  rw [bestHeap, addBest_eq_offer]
  exact TopK.foldl_offer_perm hk (TopK.separates_of_injective SearchResult.rank_injective items)

theorem memoryHeap_perm {k : ℕ} (hk : 0 < k) (items : List (SearchResult D)) :
    (memoryHeap k items).Perm (topk SearchResult.rank k items) := by
  cases items with
  | nil => simp [memoryHeap, TopK.topk, TopK.sortBy]
  | cons item items =>
    have hpositive : 0 < min k (item :: items).length := by
      rw [List.length_cons]
      omega
    rw [← TopK.topk_min_length]
    exact bestHeap_perm hpositive (item :: items)

theorem blockHeap_perm {k : ℕ} (hk : 0 < k) (items : List (SearchResult D)) :
    (blockHeap k items).Perm (topk SearchResult.rank k items) :=
  memoryHeap_perm hk items

end Queue

section Searches

variable {D : Type} [LinearOrder D] {squared_l2 : List FloatBits → List FloatBits → D}

theorem searchMemoryFast_eq_memoryHeap {base : VectorSet} {k : ℕ} (query : List FloatBits)
    (hbase : base.size ≠ 0) (hk : k ≠ 0) :
    Dynamic.searchMemoryFast squared_l2 base query k =
      .ok (TopK.sortBy SearchResult.rank
        (memoryHeap k (Dynamic.baseResults squared_l2 base query))) := by
  have hlength : (Dynamic.baseResults squared_l2 base query).length = base.size := by
    rw [Dynamic.baseResults, List.length_map, List.length_range]
  rw [Dynamic.searchMemoryFast, if_neg hbase, if_neg hk, memoryHeap, hlength, addBest_eq_offer]

theorem searchBlock_eq_blockHeap {dim k : ℕ} {block : Storage.Block dim} (query : List FloatBits)
    (hids : block.ids ≠ []) (hk : k ≠ 0) :
    Storage.DeltaFlatIndex.searchBlock squared_l2 block query k =
      TopK.sortBy SearchResult.rank
        (blockHeap k (block.rows.map (Storage.item squared_l2 query))) := by
  have hempty : ¬(k = 0 ∨ block.ids.isEmpty) := by
    rw [not_or, List.isEmpty_iff]
    exact ⟨hk, hids⟩
  have hlength : (block.rows.map (Storage.item squared_l2 query)).length = block.ids.length := by
    rw [List.length_map, Storage.Block.length_rows]
  rw [Storage.DeltaFlatIndex.searchBlock, if_neg hempty, blockHeap, hlength, addBest_eq_offer]
  rfl

/-- Pushing candidates offers them to the best results. -/
theorem best_pushCandidate (index : Graph.PackedIndex) (config : Graph.DiskGraphSearchConfig)
    (state : Graph.SearchState D) (results : List (SearchResult D)) :
    (results.foldl (Graph.pushCandidate index config) state).best =
      results.foldl (addBest (Graph.resultCapacity index config)) state.best := by
  induction results generalizing state with
  | nil => rfl
  | cons result results ih =>
    rw [List.foldl_cons, List.foldl_cons, ih, Graph.pushCandidate, addBest_eq_offer]

end Searches

/-- Every loop ends with the `k` smallest items, whatever order they arrive in. -/
theorem heaps_perm_topk {D : Type} [LinearOrder D] {k : ℕ} (hk : 0 < k)
    {items arrived : List (SearchResult D)} (harrived : arrived.Perm items) :
    (memoryHeap k arrived).Perm (topk SearchResult.rank k items) ∧
      (blockHeap k arrived).Perm (topk SearchResult.rank k items) ∧
      (bestHeap k arrived).Perm (topk SearchResult.rank k items) := by
  have horder : topk SearchResult.rank k arrived = topk SearchResult.rank k items :=
    TopK.topk_perm (TopK.separates_of_injective SearchResult.rank_injective arrived) harrived
  rw [← horder]
  exact ⟨memoryHeap_perm hk arrived, blockHeap_perm hk arrived, bestHeap_perm hk arrived⟩

/-- Equal items and a tie on the distance; the closest item arrives last. -/
theorem heaps_perm_topk_ties :
    0 < 2 ∧ [(⟨7, 5⟩ : SearchResult ℕ), ⟨3, 5⟩, ⟨3, 5⟩, ⟨9, 1⟩].Perm
        [⟨9, 1⟩, ⟨3, 5⟩, ⟨7, 5⟩, ⟨3, 5⟩] ∧
      (memoryHeap 2 [(⟨7, 5⟩ : SearchResult ℕ), ⟨3, 5⟩, ⟨3, 5⟩, ⟨9, 1⟩]).Perm
        (topk SearchResult.rank 2 [⟨9, 1⟩, ⟨3, 5⟩, ⟨7, 5⟩, ⟨3, 5⟩]) := by
  have hperm : [(⟨7, 5⟩ : SearchResult ℕ), ⟨3, 5⟩, ⟨3, 5⟩, ⟨9, 1⟩].Perm
      [⟨9, 1⟩, ⟨3, 5⟩, ⟨7, 5⟩, ⟨3, 5⟩] := by decide
  exact ⟨by decide, hperm, (heaps_perm_topk (by decide) hperm).1⟩

end BestHeap
