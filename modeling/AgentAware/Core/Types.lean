import Mathlib.Algebra.Ring.Nat
import Mathlib.Data.List.Nodup
import Mathlib.Data.Prod.Lex
import Mathlib.Tactic.Common

/-!
# Node ids, vectors and search results

The types of `core/types.h`, which the graph and the dynamic layer share.

## Main definitions

- `NodeId`, `FloatBits` — 32-bit ids, and floats as their bit patterns
- `VectorSet` — a base of vectors of one dimension
- `SearchResult` — an id with its distance, ordered by both
-/

/-- Node ids are 32-bit. -/
abbrev NodeId := UInt32

/-- The bit pattern of a `float`. -/
abbrev FloatBits := UInt32

instance : LinearOrder NodeId where
  le_refl a := UInt32.le_refl a
  le_trans _ _ _ := UInt32.le_trans
  le_antisymm _ _ := UInt32.le_antisymm
  le_total a b := UInt32.le_total a b
  lt_iff_le_not_ge a b := by
    rw [UInt32.lt_iff_toNat_lt, UInt32.le_iff_toNat_le, UInt32.le_iff_toNat_le]
    omega
  toDecidableLE := inferInstance
  toDecidableLT := inferInstance
  toDecidableEq := inferInstance

instance NodeId.lawfulBEq : LawfulBEq NodeId := inferInstance

structure VectorSet where
  dim : ℕ := 0
  values : List FloatBits := []
  deriving DecidableEq

def VectorSet.size (base : VectorSet) : ℕ :=
  if base.dim = 0 then 0 else base.values.length / base.dim

def VectorSet.row (base : VectorSet) (index : ℕ) : List FloatBits :=
  (base.values.drop (index * base.dim)).take base.dim

structure SearchResult (D : Type) where
  id : NodeId
  distance : D
  deriving DecidableEq, Repr

section Order

variable {D : Type} [LinearOrder D]

/-- The order of `search_result_less`: by distance, then by id. -/
def SearchResult.rank (result : SearchResult D) : D ×ₗ NodeId :=
  toLex (result.distance, result.id)

def searchResultLess (lhs rhs : SearchResult D) : Bool :=
  if lhs.distance = rhs.distance then lhs.id < rhs.id else lhs.distance < rhs.distance

omit [LinearOrder D] in
theorem SearchResult.rank_injective : Function.Injective (@SearchResult.rank D) := by
  rintro ⟨id, distance⟩ ⟨id', distance'⟩ h
  obtain ⟨rfl, rfl⟩ := Prod.mk.inj (toLex.injective h)
  rfl

omit [LinearOrder D] in
/-- Results with distinct ids have distinct ranks. -/
theorem SearchResult.rank_nodup {results : List (SearchResult D)}
    (h : (results.map SearchResult.id).Nodup) : (results.map SearchResult.rank).Nodup := by
  refine List.Nodup.of_map (fun rank : D ×ₗ NodeId => (ofLex rank).2) ?_
  rwa [List.map_map]

theorem searchResultLess_iff {lhs rhs : SearchResult D} :
    searchResultLess lhs rhs = true ↔ lhs.rank < rhs.rank := by
  rw [searchResultLess, SearchResult.rank, SearchResult.rank, Prod.Lex.toLex_lt_toLex]
  split
  · next h => simp [h]
  · next h => simp [h]

end Order
