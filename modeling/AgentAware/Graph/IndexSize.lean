import AgentAware.Graph.PackedSearch

/-!
# What a search knows of an index that it has not read

A search knows the number of the nodes before it reads any of them. What it decides by that number, how
many results it keeps, where it starts and when it stops, is the same for all indexes of one size.

## Main definitions

- `PackedIndex.ofCount` — an index of which only the number of nodes is known

## Main results

- `pushRanked_of_count`, `updateFrontier_of_count`, `takeBatch_of_count` — the steps of a search
-/

namespace Graph

/-- An index of which only the number of nodes is known. -/
def PackedIndex.ofCount (count : ℕ) : PackedIndex where
  nodes := List.replicate count ⟨[], []⟩

@[simp] theorem PackedIndex.vector_count_ofCount (count : ℕ) :
    (PackedIndex.ofCount count).vector_count = count := List.length_replicate

section Sized

variable {D : Type} [LinearOrder D] {index other : PackedIndex} {config : DiskGraphSearchConfig}
  {distances : QueryDistances D} (h : index.vector_count = other.vector_count)
include h

theorem effectiveK_of_count : effectiveK index config = effectiveK other config := by
  rw [effectiveK, effectiveK, h]

theorem resultCapacity_of_count : resultCapacity index config = resultCapacity other config := by
  rw [resultCapacity, resultCapacity, effectiveK_of_count h, h]

theorem pushCandidate_of_count :
    pushCandidate (D := D) index config = pushCandidate other config := by
  funext state result
  rw [pushCandidate, pushCandidate, resultCapacity_of_count h]

theorem updateAdaptiveStop_of_count :
    updateAdaptiveStop index config distances = updateAdaptiveStop other config distances := by
  funext state
  rw [updateAdaptiveStop, updateAdaptiveStop, resultCapacity_of_count h]

theorem updateFrontier_of_count (state : SearchState D) (top : SearchResult D) :
    updateFrontier index config state top = updateFrontier other config state top := by
  rw [updateFrontier, updateFrontier, shouldStop, shouldStop, resultCapacity_of_count h]

theorem pushRanked_of_count : pushRanked index config distances = pushRanked other config distances := by
  funext state found
  rw [pushRanked, pushRanked, updateAdaptiveStop_of_count h, pushCandidate_of_count h]

theorem takeBatch_of_count (limit : ℕ) (state : SearchState D) :
    takeBatch index config limit state = takeBatch other config limit state := by
  induction limit generalizing state with
  | zero => rfl
  | succ limit ih =>
    rw [takeBatch, takeBatch]
    cases state.candidates.argmin SearchResult.rank with
    | none => rfl
    | some top =>
      dsimp only
      rw [updateFrontier_of_count h, ih]

theorem newNeighbors_of_count (visited neighbors : List NodeId) :
    newNeighbors index visited neighbors = newNeighbors other visited neighbors := by
  induction neighbors generalizing visited with
  | nil => rfl
  | cons id neighbors ih => rw [newNeighbors, newNeighbors, h, ih, ih]

theorem initializeSearchState_of_count :
    initializeSearchState index config distances = initializeSearchState other config distances := by
  rw [initializeSearchState, initializeSearchState, acceptedEntries, acceptedEntries,
    pushCandidate_of_count h, h]

end Sized

end Graph
