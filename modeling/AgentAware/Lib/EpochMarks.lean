import Mathlib.Data.List.GetD
import Mathlib.Tactic.Common

/-!
# Marks that are cleared by counting on

A set of indices is kept as an array of 32-bit marks and the number of the current epoch: an index is
in the set when its mark is that number. The set is emptied by taking the next number. The array grows
by starting over with zeros, and it is filled with zeros when the numbers are used up. As no mark is
ever ahead of the epoch, no mark of an earlier epoch counts.

## Main definitions

- `EpochMarks` — the marks, none of them ahead of the epoch
- `EpochMarks.next`, `EpochMarks.mark`, `EpochMarks.isMarked` — clear, insert, look up

## Main results

- `EpochMarks.isMarked_next` — no index is marked in a new epoch
- `EpochMarks.isMarked_mark` — marking an index marks it alone
-/

structure EpochMarks where
  marks : List UInt32 := []
  epoch : UInt32 := 0
  le_epoch : ∀ mark ∈ marks, mark.toNat ≤ epoch.toNat := by simp

namespace EpochMarks

/-- Start over with zeros when the array is too short. -/
def grow (marks : List UInt32) (size : ℕ) : List UInt32 :=
  if marks.length < size then List.replicate size 0 else marks

theorem le_of_mem_grow (state : EpochMarks) {size : ℕ} {mark : UInt32}
    (h : mark ∈ grow state.marks size) : mark.toNat ≤ state.epoch.toNat := by
  rw [grow] at h
  split at h
  · rw [(List.mem_replicate.mp h).2]
    exact Nat.zero_le _
  · exact state.le_epoch mark h

theorem toNat_succ_epoch {epoch : UInt32} (h : epoch ≠ 0xffffffff) :
    (epoch + 1).toNat = epoch.toNat + 1 := by
  have hlt : epoch.toNat < 2 ^ 32 := epoch.toNat_lt
  have hne : epoch.toNat ≠ 2 ^ 32 - 1 := fun heq => h (UInt32.toNat_inj.mp heq)
  rw [UInt32.toNat_add, UInt32.toNat_one, Nat.mod_eq_of_lt (by omega)]

/-- The next epoch, for indices below `size`. -/
def next (state : EpochMarks) (size : ℕ) : EpochMarks :=
  if h : state.epoch = 0xffffffff then
    { marks := List.replicate (grow state.marks size).length 0
      epoch := 0 + 1
      le_epoch := fun mark hmark => by
        rw [(List.mem_replicate.mp hmark).2]
        exact Nat.zero_le _ }
  else
    { marks := grow state.marks size
      epoch := state.epoch + 1
      le_epoch := fun mark hmark => by
        rw [toNat_succ_epoch h]
        exact Nat.le_succ_of_le (state.le_of_mem_grow hmark) }

def mark (state : EpochMarks) (index : ℕ) : EpochMarks :=
  { state with
    marks := state.marks.set index state.epoch
    le_epoch := fun mark hmark => by
      rcases List.mem_or_eq_of_mem_set hmark with hmem | rfl
      · exact state.le_epoch mark hmem
      · exact Nat.le_refl _ }

def isMarked (state : EpochMarks) (index : ℕ) : Bool := state.marks.getD index 0 == state.epoch

theorem length_grow (marks : List UInt32) (size : ℕ) : size ≤ (grow marks size).length := by
  rw [grow]
  split
  · exact Nat.le_of_eq List.length_replicate.symm
  · omega

theorem size_le_length_next (state : EpochMarks) (size : ℕ) :
    size ≤ (state.next size).marks.length := by
  rw [next]
  split
  · rw [List.length_replicate]
    exact length_grow _ _
  · exact length_grow _ _

@[simp] theorem length_mark (state : EpochMarks) (index : ℕ) :
    (state.mark index).marks.length = state.marks.length := List.length_set

/-- A new epoch is ahead of every mark. -/
theorem lt_epoch_next (state : EpochMarks) (size : ℕ) {mark : UInt32}
    (h : mark ∈ (state.next size).marks) : mark.toNat < (state.next size).epoch.toNat := by
  by_cases hwrap : state.epoch = 0xffffffff
  · simp only [next, dif_pos hwrap] at h ⊢
    rw [(List.mem_replicate.mp h).2]
    decide
  · simp only [next, dif_neg hwrap] at h ⊢
    rw [toNat_succ_epoch hwrap]
    exact Nat.lt_succ_of_le (state.le_of_mem_grow h)

/-- No index is marked in a new epoch. -/
theorem isMarked_next (state : EpochMarks) {size index : ℕ} (h : index < size) :
    (state.next size).isMarked index = false := by
  have hindex : index < (state.next size).marks.length :=
    Nat.lt_of_lt_of_le h (state.size_le_length_next size)
  have hlt := state.lt_epoch_next size (List.getElem_mem hindex)
  rw [isMarked, List.getD_eq_getElem _ _ hindex, beq_eq_false_iff_ne]
  intro heq
  rw [heq] at hlt
  exact absurd hlt (Nat.lt_irrefl _)

/-- Marking an index marks it alone. -/
theorem isMarked_mark (state : EpochMarks) {index : ℕ} (h : index < state.marks.length)
    (other : ℕ) : (state.mark index).isMarked other = (other == index || state.isMarked other) := by
  rw [isMarked, isMarked, mark, List.getD_eq_getElem?_getD, List.getElem?_set]
  by_cases heq : index = other
  · subst heq
    simp [h]
  · have hne : (other == index) = false := beq_eq_false_iff_ne.mpr (Ne.symm heq)
    rw [if_neg heq, hne, Bool.false_or, List.getD_eq_getElem?_getD]

end EpochMarks
