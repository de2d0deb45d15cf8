import Mathlib.Order.Lattice
import Mathlib.Tactic.Common

/-!
# The nearest of some numbered items

A loop over the numbers below a count keeps the first item whose distance is smaller than that of all
items before it, starting from a limit. When some distance is below the limit the item it ends with is
a nearest one; its number is below the count in any case.

## Main definitions

- `Nearest.scan` — the loop, with the distance of the item kept

## Main results

- `Nearest.scan_lt` — the number is below the count
- `Nearest.scan_le` — the item is a nearest one
-/

namespace Nearest

variable {D : Type} [LinearOrder D] {limit : D} {distance : ℕ → D} {count : ℕ}

/-- The body of the loop. -/
def step (distance : ℕ → D) (best : ℕ × D) (c : ℕ) : ℕ × D :=
  if distance c < best.2 then (c, distance c) else best

def scan (limit : D) (distance : ℕ → D) (count : ℕ) : ℕ × D :=
  (List.range count).foldl (step distance) (0, limit)

theorem scan_succ : scan limit distance (count + 1) = step distance (scan limit distance count) count := by
  rw [scan, List.range_succ, List.foldl_append]
  rfl

theorem scan_lt (h : 0 < count) : (scan limit distance count).1 < count := by
  have hle : ∀ count, (scan limit distance count).1 < max count 1 := by
    intro count
    induction count with
    | zero => exact Nat.one_pos
    | succ count ih =>
      rw [scan_succ, step]
      split
      · simp only
        omega
      · omega
  have := hle count
  omega

/-- No item is nearer than the distance kept, which is that of the item or the limit. -/
theorem scan_spec (limit : D) (distance : ℕ → D) (count : ℕ) :
    (∀ c < count, (scan limit distance count).2 ≤ distance c) ∧
      (scan limit distance count = (0, limit) ∨
        (scan limit distance count).2 = distance (scan limit distance count).1) := by
  induction count with
  | zero => exact ⟨fun c hc => absurd hc (Nat.not_lt_zero c), Or.inl rfl⟩
  | succ count ih =>
    rw [scan_succ, step]
    split
    · next hlt =>
      refine ⟨fun c hc => ?_, Or.inr rfl⟩
      rcases Nat.lt_succ_iff_lt_or_eq.mp hc with hc | rfl
      · exact hlt.le.trans (ih.1 c hc)
      · exact le_rfl
    · next hge =>
      refine ⟨fun c hc => ?_, ih.2⟩
      rcases Nat.lt_succ_iff_lt_or_eq.mp hc with hc | rfl
      · exact ih.1 c hc
      · exact not_lt.mp hge

/-- When the distances are below the limit, the item kept is a nearest one. -/
theorem scan_le (h : ∀ c < count, distance c < limit) :
    ∀ c < count, distance (scan limit distance count).1 ≤ distance c := by
  intro c hc
  obtain ⟨hleast, hkept⟩ := scan_spec limit distance count
  rcases hkept with hnone | hkept
  · have hle := hleast c hc
    rw [hnone] at hle
    exact absurd (h c hc) (not_lt.mpr hle)
  · exact hkept ▸ hleast c hc

/-- Among items at the same distance the first one is kept. -/
theorem scan_const (limit d : D) (count : ℕ) : (scan limit (fun _ => d) count).1 = 0 := by
  have hkept : (scan limit (fun _ => d) count).1 = 0 ∧
      (0 < count → (scan limit (fun _ => d) count).2 ≤ d) := by
    induction count with
    | zero => exact ⟨rfl, fun h => absurd h (Nat.lt_irrefl 0)⟩
    | succ count ih =>
      rw [scan_succ, step]
      split
      · next hlt =>
        refine ⟨?_, fun _ => le_rfl⟩
        by_contra hne
        exact absurd (ih.2 (Nat.pos_of_ne_zero hne)) (not_le.mpr hlt)
      · next hge => exact ⟨ih.1, fun _ => not_lt.mp hge⟩
  exact hkept.1

end Nearest
