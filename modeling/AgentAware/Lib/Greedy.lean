import Mathlib.Data.List.Sort
import Mathlib.Tactic.Common

/-!
# Greedy selection from a sorted list

The first element of a list is picked, the elements that it does not keep are dropped, and so on up to
a limit. Whether repeated elements are removed beforehand makes no difference when no element keeps
itself.

## Main definitions

- `Greedy.select` — the selection

## Main results

- `Greedy.select_pairwise` — every picked element keeps the later ones
- `Greedy.mem_select_or` — what is not picked below the limit is dropped by a picked element
- `Greedy.select_eq_of_mem_iff` — repeated elements make no difference
-/

namespace Greedy

variable {α ρ : Type} (keeps : α → α → Bool)

def select : ℕ → List α → List α
  | 0, _ => []
  | _ + 1, [] => []
  | limit + 1, picked :: xs => picked :: select limit (xs.filter (keeps picked))

variable {keeps} {limit : ℕ} {xs ys : List α}

theorem select_sublist (limit : ℕ) (xs : List α) : (select keeps limit xs).Sublist xs := by
  induction limit generalizing xs with
  | zero => exact List.nil_sublist _
  | succ limit ih =>
    cases xs with
    | nil => exact List.nil_sublist _
    | cons picked xs => exact ((ih _).trans List.filter_sublist).cons_cons picked

theorem length_select_le (limit : ℕ) (xs : List α) : (select keeps limit xs).length ≤ limit := by
  induction limit generalizing xs with
  | zero => exact Nat.le_refl 0
  | succ limit ih =>
    cases xs with
    | nil => exact Nat.zero_le _
    | cons picked xs => exact Nat.succ_le_succ (ih _)

/-- The first element is picked. -/
theorem head?_select (hlimit : 0 < limit) (xs : List α) :
    (select keeps limit xs).head? = xs.head? := by
  obtain ⟨limit, rfl⟩ := Nat.exists_eq_succ_of_ne_zero hlimit.ne'
  cases xs <;> rfl

/-- Every picked element keeps the later ones. -/
theorem select_pairwise (limit : ℕ) (xs : List α) :
    (select keeps limit xs).Pairwise fun p q => keeps p q = true := by
  induction limit generalizing xs with
  | zero => exact List.Pairwise.nil
  | succ limit ih =>
    cases xs with
    | nil => exact List.Pairwise.nil
    | cons picked xs =>
      refine List.Pairwise.cons (fun q hq => ?_) (ih _)
      exact (List.mem_filter.mp ((select_sublist _ _).subset hq)).2

/-- Below the limit, an element that is not picked is dropped by one that is. -/
theorem mem_select_or (hlimit : (select keeps limit xs).length < limit) {q : α} (hq : q ∈ xs) :
    q ∈ select keeps limit xs ∨ ∃ p ∈ select keeps limit xs, keeps p q = false := by
  induction limit generalizing xs with
  | zero => exact absurd hlimit (Nat.not_lt_zero _)
  | succ limit ih =>
    cases xs with
    | nil => simp at hq
    | cons picked xs =>
      rcases List.mem_cons.mp hq with rfl | hq
      · exact Or.inl List.mem_cons_self
      · cases hkeep : keeps picked q with
        | false => exact Or.inr ⟨picked, List.mem_cons_self, hkeep⟩
        | true =>
          have hrest := ih (Nat.lt_of_succ_lt_succ hlimit) (List.mem_filter.mpr ⟨hq, hkeep⟩)
          rcases hrest with hrest | ⟨p, hp, hdrop⟩
          · exact Or.inl (List.mem_cons_of_mem _ hrest)
          · exact Or.inr ⟨p, List.mem_cons_of_mem _ hp, hdrop⟩

/-- Sorted lists with the same elements, one of them with repetitions, have the same selection. -/
theorem select_eq_of_mem_iff [LinearOrder ρ] {rank : α → ρ} (hrank : Function.Injective rank)
    (hself : ∀ a ∈ xs, keeps a a = false) (hxs : xs.Pairwise fun a b => rank a ≤ rank b)
    (hys : ys.Pairwise fun a b => rank a < rank b) (hmem : ∀ a, a ∈ xs ↔ a ∈ ys) (limit : ℕ) :
    select keeps limit xs = select keeps limit ys := by
  induction limit generalizing xs ys with
  | zero => rfl
  | succ limit ih =>
    cases xs with
    | nil =>
      cases ys with
      | nil => rfl
      | cons y ys => exact absurd ((hmem y).mpr List.mem_cons_self) List.not_mem_nil
    | cons x xs =>
      cases ys with
      | nil => exact absurd ((hmem x).mp List.mem_cons_self) List.not_mem_nil
      | cons y ys =>
        rw [List.pairwise_cons] at hxs hys
        -- both lists start with their least element
        have hxy : rank x ≤ rank y := by
          rcases List.mem_cons.mp ((hmem y).mpr List.mem_cons_self) with heq | hy
          · exact heq ▸ le_rfl
          · exact hxs.1 y hy
        have hyx : rank y ≤ rank x := by
          rcases List.mem_cons.mp ((hmem x).mp List.mem_cons_self) with heq | hx
          · exact heq ▸ le_rfl
          · exact (hys.1 x hx).le
        obtain rfl := hrank (le_antisymm hxy hyx)
        have hdrop : keeps x x = false := hself x List.mem_cons_self
        rw [select, select]
        refine congrArg (x :: ·) (ih (fun a ha => ?_) (hxs.2.filter _) (hys.2.filter _) fun a => ?_)
        · exact hself a (List.mem_cons_of_mem _ (List.mem_filter.mp ha).1)
        · rw [List.mem_filter, List.mem_filter]
          refine and_congr_left fun hkeep => ?_
          have hne : a ≠ x := by
            rintro rfl
            rw [hdrop] at hkeep
            cases hkeep
          have hsame := hmem a
          rw [List.mem_cons, List.mem_cons] at hsame
          exact ⟨fun ha => (hsame.mp (Or.inr ha)).resolve_left hne,
            fun ha => (hsame.mpr (Or.inr ha)).resolve_left hne⟩

end Greedy
