import Mathlib.Data.List.Nodup
import Mathlib.Data.List.Range
import Mathlib.Order.Monotone.Basic
import Mathlib.Tactic.Common

/-!
# The buckets of a counting sort

Numbers below a bound are sorted by a key: the numbers with one key are a bucket, a bucket starts
behind all numbers with smaller keys, and every number is placed behind those that its bucket holds
already. When all are placed, each bucket is a slice of the cells.

## Main definitions

- `Buckets.bucket` — the numbers with a key, in increasing order
- `Buckets.start` — where the bucket of a key starts
- `Buckets.Placed` — the cells after some of the numbers have been placed

## Main results

- `Buckets.placed_succ` — placing one more number
- `Buckets.slice_eq` — a bucket is a slice of the cells
- `Buckets.cells_perm` — every number has one cell
-/

namespace Buckets

variable (key : ℕ → ℕ)

/-- The numbers below `count` with key `s`. -/
def bucket (count s : ℕ) : List ℕ := (List.range count).filter fun i => key i = s

/-- How many numbers below `count` have a key smaller than `s`. -/
def start (count s : ℕ) : ℕ := (List.range count).countP fun i => key i < s

section

variable {key} {count s : ℕ}

theorem bucket_succ_self : bucket key (count + 1) (key count) =
    bucket key count (key count) ++ [count] := by
  rw [bucket, List.range_succ, List.filter_append, ← bucket]
  simp

theorem bucket_succ_of_ne (h : key count ≠ s) : bucket key (count + 1) s = bucket key count s := by
  rw [bucket, List.range_succ, List.filter_append, ← bucket]
  simp [h]

theorem mem_bucket {i : ℕ} : i ∈ bucket key count s ↔ i < count ∧ key i = s := by
  simp [bucket]

theorem length_bucket_mono {placed : ℕ} (h : placed ≤ count) :
    (bucket key placed s).length ≤ (bucket key count s).length := by
  have hsub : (List.range placed).Sublist (List.range count) := List.range_sublist.mpr h
  exact (hsub.filter _).length_le

theorem start_zero : start key count 0 = 0 := by
  simp [start]

/-- A bucket ends where the next one starts. -/
theorem start_succ : start key count (s + 1) = start key count s + (bucket key count s).length := by
  rw [start, start, bucket, ← List.countP_eq_length_filter]
  induction List.range count with
  | nil => rfl
  | cons i numbers ih =>
    rw [List.countP_cons, List.countP_cons, List.countP_cons, ih]
    by_cases hlt : key i < s
    · have hne : key i ≠ s := by omega
      simp [hlt, hne, Nat.lt_succ_of_lt hlt]
      omega
    · by_cases heq : key i = s
      · simp [heq]
        omega
      · have hge : ¬key i < s + 1 := by omega
        simp [hlt, heq, hge]

theorem start_mono : Monotone (start key count) := by
  refine monotone_nat_of_le_succ fun s => ?_
  rw [start_succ]
  omega

theorem start_le (s : ℕ) : start key count s ≤ count := by
  have hle := (List.range count).countP_le_length (p := fun i => decide (key i < s))
  rwa [List.length_range] at hle

/-- Behind the last bucket all numbers have been counted. -/
theorem start_of_lt (h : ∀ i < count, key i < s) : start key count s = count := by
  have hall : (List.range count).countP (fun i => decide (key i < s)) = (List.range count).length := by
    rw [List.countP_eq_length]
    intro i hi
    exact decide_eq_true (h i (List.mem_range.mp hi))
  rw [start, hall, List.length_range]

/-- The buckets of different keys do not overlap. -/
theorem start_add_ne {s' r r' : ℕ} (hne : s ≠ s') (h : r < (bucket key count s).length)
    (h' : r' < (bucket key count s').length) : start key count s + r ≠ start key count s' + r' := by
  have hend : start key count (s + 1) = start key count s + _ := start_succ
  have hend' : start key count (s' + 1) = start key count s' + _ := start_succ
  rcases Nat.lt_or_gt_of_ne hne with hlt | hgt
  · have hmono : start key count (s + 1) ≤ start key count s' := start_mono hlt
    omega
  · have hmono : start key count (s' + 1) ≤ start key count s := start_mono hgt
    omega

/-- Every number stands in one bucket. -/
theorem flatMap_bucket_perm {buckets : ℕ} (h : ∀ i < count, key i < buckets) :
    ((List.range buckets).flatMap (bucket key count)).Perm (List.range count) := by
  refine (List.perm_ext_iff_of_nodup ?_ List.nodup_range).mpr fun i => ?_
  · rw [List.nodup_flatMap]
    refine ⟨fun s _ => List.nodup_range.filter _, ?_⟩
    refine List.nodup_range.imp fun hne => ?_
    intro i hi hi'
    rw [mem_bucket] at hi hi'
    exact hne (hi.2.symm.trans hi'.2)
  · rw [List.mem_flatMap, List.mem_range]
    constructor
    · rintro ⟨s, _, hi⟩
      exact (mem_bucket.mp hi).1
    · intro hi
      exact ⟨key i, List.mem_range.mpr (h i hi), mem_bucket.mpr ⟨hi, rfl⟩⟩

end

section Cells

variable {α : Type} (value : ℕ → α)

/-- The cells after the numbers below `placed` have been put behind each other in their buckets. -/
structure Placed (count placed : ℕ) (cells : List α) : Prop where
  length_eq : cells.length = count
  cell_eq : ∀ s r, r < (bucket key placed s).length →
    cells[start key count s + r]? = ((bucket key placed s).map value)[r]?

variable {key value} {count : ℕ} {cells : List α}

theorem placed_zero (h : cells.length = count) : Placed key value count 0 cells :=
  ⟨h, fun _ r hr => absurd hr (Nat.not_lt_zero r)⟩

/-- The cell of the next number is in range, and free. -/
theorem position_lt {placed : ℕ} (h : placed < count) :
    start key count (key placed) + (bucket key placed (key placed)).length < count := by
  have hone : (bucket key (placed + 1) (key placed)).length =
      (bucket key placed (key placed)).length + 1 := by
    rw [bucket_succ_self, List.length_append, List.length_singleton]
  have hfits : (bucket key (placed + 1) (key placed)).length ≤ (bucket key count (key placed)).length :=
    length_bucket_mono h
  have hend : start key count (key placed + 1) = start key count (key placed) + _ := start_succ
  have hle : start key count (key placed + 1) ≤ count := start_le _
  omega

theorem placed_succ {placed : ℕ} (hcells : Placed key value count placed cells)
    (h : placed < count) :
    Placed key value count (placed + 1)
      (cells.set (start key count (key placed) + (bucket key placed (key placed)).length)
        (value placed)) := by
  have hin : start key count (key placed) + (bucket key placed (key placed)).length < cells.length := by
    rw [hcells.length_eq]
    exact position_lt h
  have hone : (bucket key (placed + 1) (key placed)).length =
      (bucket key placed (key placed)).length + 1 := by
    rw [bucket_succ_self, List.length_append, List.length_singleton]
  have hroom : (bucket key (placed + 1) (key placed)).length ≤ (bucket key count (key placed)).length :=
    length_bucket_mono h
  constructor
  · rw [List.length_set, hcells.length_eq]
  · intro s r hr
    by_cases hs : key placed = s
    · subst hs
      rw [bucket_succ_self, List.map_append] at *
      rw [List.getElem?_set]
      rcases Nat.lt_or_ge r (bucket key placed (key placed)).length with hlt | hge
      · rw [if_neg (by omega), hcells.cell_eq _ r hlt,
          List.getElem?_append_left (by rwa [List.length_map])]
      · have hlast : r = (bucket key placed (key placed)).length := by omega
        rw [hlast, if_pos rfl, if_pos hin, List.getElem?_append_right (by rw [List.length_map])]
        simp
    · rw [bucket_succ_of_ne hs] at hr ⊢
      have hrange : r < (bucket key count s).length := lt_of_lt_of_le hr (length_bucket_mono h.le)
      rw [List.getElem?_set, if_neg (start_add_ne hs (by omega) hrange), hcells.cell_eq s r hr]

theorem slice_eq (hcells : Placed key value count count cells) (s : ℕ) :
    (cells.drop (start key count s)).take (bucket key count s).length =
      (bucket key count s).map value := by
  refine List.ext_getElem? fun r => ?_
  rw [List.getElem?_take]
  split
  · next hr => rw [List.getElem?_drop, hcells.cell_eq s r hr]
  · next hr => exact (List.getElem?_eq_none (by rw [List.length_map]; omega)).symm

theorem take_start (hcells : Placed key value count count cells) (s : ℕ) :
    cells.take (start key count s) = ((List.range s).flatMap (bucket key count)).map value := by
  induction s with
  | zero => rw [start_zero]; rfl
  | succ s ih =>
    rw [start_succ, List.take_add, ih, slice_eq hcells, List.range_succ, List.flatMap_append,
      List.map_append, List.flatMap_singleton]

theorem cells_perm (hcells : Placed key value count count cells) {buckets : ℕ}
    (h : ∀ i < count, key i < buckets) : cells.Perm ((List.range count).map value) := by
  have hall : cells = ((List.range buckets).flatMap (bucket key count)).map value := by
    rw [← take_start hcells, start_of_lt h, List.take_of_length_le hcells.length_eq.le]
  rw [hall]
  exact (flatMap_bucket_perm h).map value

end Cells

end Buckets
