import Mathlib.Data.List.Nodup
import Mathlib.Data.List.Perm.Subperm
import Mathlib.Tactic.Common

/-!
# Walks that follow references

At every node a walk stops with a result or goes to the next node. A walk that ends meets no node
twice, and when it can only go on from finitely many nodes, a walk that meets no node twice ends.

## Main definitions

- `Walk.run` — the result of a walk, within a number of nodes
- `Walk.visited` — the nodes a walk meets

## Main results

- `Walk.run_eq_none_of_repeat` — a walk that comes back to a node never ends
- `Walk.run_of_nodup` — any other walk ends, within one more than the nodes it can go on from
- `Walk.exists_of_run` — the result is that of the last node
-/

namespace Walk

variable {α β : Type} (next : α → α ⊕ β)

/-- The result of a walk; `none` when it goes on after `steps` nodes. -/
def run : ℕ → α → Option β
  | 0, _ => none
  | steps + 1, a =>
    match next a with
    | .inl b => run steps b
    | .inr result => some result

/-- The first `steps` nodes of a walk. -/
def visited : ℕ → α → List α
  | 0, _ => []
  | steps + 1, a =>
    match next a with
    | .inl b => a :: visited steps b
    | .inr _ => [a]

variable {next} {a b x : α} {result : β} {steps more : ℕ}

theorem run_inl (h : next a = .inl b) : run next (steps + 1) a = run next steps b := by
  rw [run, h]

theorem run_inr (h : next a = .inr result) : run next (steps + 1) a = some result := by
  rw [run, h]

theorem visited_inl (h : next a = .inl b) :
    visited next (steps + 1) a = a :: visited next steps b := by
  rw [visited, h]

theorem visited_inr (h : next a = .inr result) : visited next (steps + 1) a = [a] := by
  rw [visited, h]

/-- More steps do not change the result. -/
theorem run_mono (h : run next steps a = some result) (hle : steps ≤ more) :
    run next more a = some result := by
  induction steps generalizing a more with
  | zero => cases h
  | succ steps ih =>
    obtain ⟨more, rfl⟩ := Nat.exists_eq_succ_of_ne_zero (by omega : more ≠ 0)
    cases hnext : next a with
    | inl b =>
      rw [run_inl hnext] at h ⊢
      exact ih h (by omega)
    | inr r =>
      rw [run_inr hnext] at h ⊢
      exact h

/-- The rest of a walk has the same result. -/
theorem run_of_mem_visited (h : run next steps a = some result) (hx : x ∈ visited next more a) :
    run next steps x = some result := by
  induction more generalizing a steps with
  | zero => cases hx
  | succ more ih =>
    cases hnext : next a with
    | inr r =>
      rw [visited_inr hnext, List.mem_singleton] at hx
      exact hx ▸ h
    | inl b =>
      rw [visited_inl hnext, List.mem_cons] at hx
      rcases hx with rfl | hx
      · exact h
      · cases steps with
        | zero => cases h
        | succ steps =>
          rw [run_inl hnext] at h
          exact run_mono (ih h hx) (Nat.le_succ _)

/-- A walk that ends meets no node twice. -/
theorem visited_nodup_of_run (h : run next steps a = some result) (more : ℕ) :
    (visited next more a).Nodup := by
  induction steps generalizing a more with
  | zero => cases h
  | succ steps ih =>
    by_cases hless : run next steps a = some result
    · exact ih hless more
    · cases more with
      | zero => exact List.nodup_nil
      | succ more =>
        cases hnext : next a with
        | inr r =>
          rw [visited_inr hnext]
          exact List.nodup_singleton a
        | inl b =>
          rw [run_inl hnext] at h
          rw [visited_inl hnext]
          -- a walk that came back to `a` would have ended one step earlier
          exact (ih h more).cons fun ha => hless (run_of_mem_visited h ha)

theorem run_eq_none_of_repeat (h : ¬(visited next more a).Nodup) (steps : ℕ) :
    run next steps a = none := by
  cases hrun : run next steps a with
  | none => rfl
  | some result => exact absurd (visited_nodup_of_run hrun more) h

/-- A walk that has not ended has met as many nodes as it made steps, and went on from all. -/
theorem visited_of_run_none (h : run next steps a = none) :
    (visited next steps a).length = steps ∧ ∀ x ∈ visited next steps a, ∃ b, next x = .inl b := by
  induction steps generalizing a with
  | zero => exact ⟨rfl, fun x hx => nomatch hx⟩
  | succ steps ih =>
    cases hnext : next a with
    | inr r =>
      rw [run_inr hnext] at h
      cases h
    | inl b =>
      rw [run_inl hnext] at h
      obtain ⟨hlength, hall⟩ := ih h
      rw [visited_inl hnext, List.length_cons, hlength]
      exact ⟨rfl, List.forall_mem_cons.mpr ⟨⟨b, hnext⟩, hall⟩⟩

theorem run_of_nodup {known : List α} (hknown : ∀ x b, next x = .inl b → x ∈ known)
    (hnodup : (visited next steps a).Nodup) (hsteps : known.length < steps) :
    ∃ result, run next steps a = some result := by
  cases hrun : run next steps a with
  | some result => exact ⟨result, rfl⟩
  | none =>
    -- `steps` different nodes do not fit into the known ones
    obtain ⟨hlength, hall⟩ := visited_of_run_none hrun
    have hsub : visited next steps a ⊆ known := by
      intro x hx
      obtain ⟨b, hb⟩ := hall x hx
      exact hknown x b hb
    have hle := (hnodup.subperm hsub).length_le
    omega

/-- Which number of steps is enough does not depend on the walk. -/
theorem run_enough {known : List α} (hknown : ∀ x b, next x = .inl b → x ∈ known)
    (h : run next steps a = some result) (hmore : known.length < more) :
    run next more a = some result := by
  obtain ⟨other, hother⟩ := run_of_nodup hknown (visited_nodup_of_run h more) hmore
  have hsame := (run_mono h (Nat.le_max_left steps more)).symm.trans
    (run_mono hother (Nat.le_max_right steps more))
  rw [hother, ← hsame]

theorem run_eq_of_enough {known : List α} (hknown : ∀ x b, next x = .inl b → x ∈ known)
    (hsteps : known.length < steps) (hmore : known.length < more) :
    run next steps a = run next more a := by
  cases hrun : run next more a with
  | some result => exact run_enough hknown hrun hsteps
  | none =>
    cases hother : run next steps a with
    | none => rfl
    | some result =>
      rw [run_enough hknown hother hmore] at hrun
      cases hrun

theorem exists_of_run (h : run next steps a = some result) :
    ∃ x ∈ visited next steps a, next x = .inr result := by
  induction steps generalizing a with
  | zero => cases h
  | succ steps ih =>
    cases hnext : next a with
    | inr r =>
      rw [run_inr hnext] at h
      cases h
      rw [visited_inr hnext]
      exact ⟨a, List.mem_singleton_self a, hnext⟩
    | inl b =>
      rw [run_inl hnext] at h
      obtain ⟨x, hx, hresult⟩ := ih h
      rw [visited_inl hnext]
      exact ⟨x, List.mem_cons_of_mem _ hx, hresult⟩

/-- A node where the walk stops is its last. -/
theorem eq_of_mem_visited (h : run next steps a = some result) {stop : β}
    (hx : x ∈ visited next more a) (hstop : next x = .inr stop) : stop = result := by
  have hrest := run_of_mem_visited h hx
  cases steps with
  | zero => cases hrest
  | succ steps =>
    rw [run_inr hstop] at hrest
    exact Option.some.inj hrest

end Walk
