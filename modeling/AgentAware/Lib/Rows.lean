import AgentAware.Lib.Returns
import Mathlib.Data.List.GetD
import Mathlib.Data.List.Induction
import Mathlib.Tactic.Common

/-!
# Rows in a buffer

A buffer of a fixed size is filled from its front by a cursor. What is filled in is a table when it
consists of rows of one width, and a row, or a part of one, is a slice of the buffer.

## Main definitions

- `slice` — some elements behind an offset
- `table` — the rows, one after the other
- `overwrite`, `Filled` — a write at an offset, and a buffer that is filled up to its cursor

## Main results

- `slice_table`, `slice_row` — a part of a row
- `Filled.write`, `Filled.skip`, `Filled.rows` — filling in some elements, none, or a table in a loop
-/

section Slices

variable {α : Type} {xs ys : List α} {offset count : ℕ}

def slice (xs : List α) (offset count : ℕ) : List α := (xs.drop offset).take count

theorem length_slice (h : offset + count ≤ xs.length) : (slice xs offset count).length = count := by
  rw [slice, List.length_take, List.length_drop]
  omega

theorem slice_zero_length (xs : List α) : slice xs 0 xs.length = xs := by
  rw [slice, List.drop_zero, List.take_length]

theorem slice_append_left (h : offset + count ≤ xs.length) :
    slice (xs ++ ys) offset count = slice xs offset count := by
  rw [slice, slice, List.drop_append_of_le_length (by omega),
    List.take_append_of_le_length (by rw [List.length_drop]; omega)]

theorem slice_append_right (xs ys : List α) (offset count : ℕ) :
    slice (xs ++ ys) (xs.length + offset) count = slice ys offset count := by
  rw [slice, slice, ← List.drop_drop, List.drop_left]

theorem slice_skip {start : ℕ} (h : xs.length = start) (offset count : ℕ) :
    slice (xs ++ ys) (start + offset) count = slice ys offset count :=
  h ▸ slice_append_right xs ys offset count

/-- The next element of a slice. -/
theorem slice_succ (h : offset + count < xs.length) :
    slice xs offset (count + 1) = slice xs offset count ++ [xs[offset + count]] := by
  rw [slice, slice, List.take_add_one, List.getElem?_drop, List.getElem?_eq_getElem h]
  rfl

end Slices

section Tables

variable {α : Type} {row : ℕ → List α} {width : ℕ}

def table (row : ℕ → List α) (count : ℕ) : List α := (List.range count).flatMap row

theorem table_succ (row : ℕ → List α) (count : ℕ) :
    table row (count + 1) = table row count ++ row count := by
  rw [table, List.range_succ, List.flatMap_append, List.flatMap_singleton, ← table]

theorem length_table {count : ℕ} (hrow : ∀ i < count, (row i).length = width) :
    (table row count).length = count * width := by
  induction count with
  | zero => rw [Nat.zero_mul]; rfl
  | succ count ih =>
    rw [table_succ, List.length_append, ih fun i hi => hrow i (Nat.lt_succ_of_lt hi),
      hrow count (Nat.lt_succ_self count), Nat.succ_mul]

/-- A part of a row. -/
theorem slice_table {count i offset part : ℕ} (hrow : ∀ i < count, (row i).length = width)
    (hi : i < count) (hpart : offset + part ≤ width) :
    slice (table row count) (i * width + offset) part = slice (row i) offset part := by
  induction count with
  | zero => exact absurd hi (Nat.not_lt_zero i)
  | succ count ih =>
    have hbefore : (table row count).length = count * width :=
      length_table fun i hi => hrow i (Nat.lt_succ_of_lt hi)
    rw [table_succ]
    by_cases hlast : i = count
    · subst hlast
      rw [← hbefore, slice_append_right]
    · have hlt : i < count := by omega
      have hrows : (i + 1) * width ≤ count * width := Nat.mul_le_mul_right width hlt
      rw [Nat.succ_mul] at hrows
      rw [slice_append_left (by omega), ih (fun i hi => hrow i (Nat.lt_succ_of_lt hi)) hlt]

/-- The first rows of a table. -/
theorem slice_table_first {count first : ℕ} (hrow : ∀ i < count, (row i).length = width)
    (hfirst : first ≤ count) : slice (table row count) 0 (first * width) = table row first := by
  induction count with
  | zero =>
    rw [Nat.le_zero.mp hfirst, Nat.zero_mul]
    rfl
  | succ count ih =>
    have hbefore : (table row count).length = count * width :=
      length_table fun i hi => hrow i (Nat.lt_succ_of_lt hi)
    by_cases hall : first = count + 1
    · rw [hall, ← length_table hrow, slice_zero_length]
    · have hle : first * width ≤ count * width := Nat.mul_le_mul_right width (by omega)
      rw [table_succ, slice_append_left (by omega),
        ih (fun i hi => hrow i (Nat.lt_succ_of_lt hi)) (by omega)]

theorem table_congr {other : ℕ → List α} {count : ℕ} (h : ∀ i < count, row i = other i) :
    table row count = table other count := by
  induction count with
  | zero => rfl
  | succ count ih =>
    rw [table_succ, table_succ, ih fun i hi => h i (Nat.lt_succ_of_lt hi),
      h count (Nat.lt_succ_self count)]

/-- Rows that belong to the elements of a list. -/
theorem table_getD {β : Type} (f : β → List α) (values : List β) (fallback : β) :
    table (fun i => f (values.getD i fallback)) values.length = values.flatMap f := by
  induction values using List.reverseRecOn with
  | nil => rfl
  | append_singleton values value ih =>
    have hbefore : ∀ i < values.length,
        f ((values ++ [value]).getD i fallback) = f (values.getD i fallback) := by
      intro i hi
      rw [List.getD_append _ _ _ _ hi]
    rw [List.length_append, List.length_singleton, table_succ, table_congr hbefore, ih,
      List.flatMap_append, List.flatMap_singleton, List.getD_append_right _ _ _ _ (Nat.le_refl _),
      Nat.sub_self]
    rfl

/-- A part of a row of a table that is followed by other elements. -/
theorem slice_row {after : List α} {count i offset part : ℕ}
    (hrow : ∀ i < count, (row i).length = width) (hi : i < count) (hpart : offset + part ≤ width) :
    slice (table row count ++ after) (i * width + offset) part = slice (row i) offset part := by
  have hrows : (i + 1) * width ≤ count * width := Nat.mul_le_mul_right width hi
  rw [Nat.succ_mul] at hrows
  have hlength := length_table hrow
  rw [slice_append_left (by omega), slice_table hrow hi hpart]

end Tables

section Filling

variable {ε α : Type} {blank : α} {size : ℕ} {written data : List α} {state : List α × ℕ}

def overwrite (xs : List α) (offset : ℕ) (data : List α) : List α :=
  xs.take offset ++ (data ++ xs.drop (offset + data.length))

/-- A buffer that is filled up to its cursor, and blank behind it. -/
structure Filled (blank : α) (size : ℕ) (written : List α) (state : List α × ℕ) : Prop where
  buffer_eq : state.1 = written ++ List.replicate (size - written.length) blank
  cursor_eq : state.2 = written.length
  length_le : written.length ≤ size

theorem Filled.nil (blank : α) (size : ℕ) :
    Filled blank size [] (List.replicate size blank, 0) :=
  ⟨rfl, rfl, Nat.zero_le size⟩

theorem Filled.length_eq (h : Filled blank size written state) : state.1.length = size := by
  rw [h.buffer_eq, List.length_append, List.length_replicate]
  exact Nat.add_sub_cancel' h.length_le

theorem Filled.write (h : Filled blank size written state)
    (hfits : written.length + data.length ≤ size) :
    Filled blank size (written ++ data)
      (overwrite state.1 state.2 data, state.2 + data.length) := by
  constructor
  · dsimp only [overwrite]
    rw [h.buffer_eq, h.cursor_eq, List.take_left, ← List.drop_drop, List.drop_left,
      List.drop_replicate, List.append_assoc, List.length_append, Nat.sub_add_eq]
  · rw [List.length_append, h.cursor_eq]
  · rwa [List.length_append]

/-- The cursor may move over blanks. -/
theorem Filled.skip (h : Filled blank size written state) {width : ℕ}
    (hfits : written.length + width ≤ size) :
    Filled blank size (written ++ List.replicate width blank) (state.1, state.2 + width) := by
  constructor
  · dsimp only
    rw [h.buffer_eq, List.append_assoc, List.length_append, List.length_replicate,
      List.replicate_append_replicate]
    congr 2
    omega
  · rw [List.length_append, List.length_replicate, h.cursor_eq]
  · rwa [List.length_append, List.length_replicate]

/-- A loop that fills in a row in every round. -/
theorem Filled.rows {row : ℕ → List α} {f : List α × ℕ → ℕ → Except ε (List α × ℕ)}
    {count width : ℕ} (hrow : ∀ i < count, (row i).length = width)
    (h : ∀ i < count, ∀ written state, Filled blank size written state →
      written.length + width ≤ size → Returns (f state i) (Filled blank size (written ++ row i)))
    (hfits : written.length + count * width ≤ size) (hstate : Filled blank size written state) :
    Returns ((List.range count).foldlM f state) (Filled blank size (written ++ table row count)) := by
  refine Returns.foldlM_range (S := fun i => Filled blank size (written ++ table row i))
    (fun i hi state hstate => ?_) ?_
  · rw [table_succ, ← List.append_assoc]
    refine h i hi _ _ hstate ?_
    have hrows : (i + 1) * width ≤ count * width := Nat.mul_le_mul_right width hi
    rw [Nat.succ_mul] at hrows
    rw [List.length_append, length_table fun j hj => hrow j (Nat.lt_trans hj hi)]
    omega
  · exact (List.append_nil written).symm ▸ hstate

end Filling
