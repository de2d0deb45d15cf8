import AgentAware.Lib.Checked

/-!
# Rules for code that returns

Code whose accesses are checked returns when each of its steps does. The rules follow the code: a step
is followed by the next one under what the step establishes, and a loop keeps what its rounds keep.

## Main definitions

- `Returns` — an action returns a value with a property

## Main results

- `Returns.bind` — a sequence of steps
- `Returns.foldlM`, `Returns.foldlM_range`, `Returns.mapM` — loops
-/

/-- The action returns, and what it returns has the property. -/
def Returns {ε α : Type} (action : Except ε α) (Q : α → Prop) : Prop :=
  ∃ value, action = .ok value ∧ Q value

namespace Returns

variable {ε α β : Type} {action : Except ε α} {P Q : α → Prop}

theorem pure {value : α} (h : Q value) : Returns (Pure.pure value : Except ε α) Q := ⟨value, rfl, h⟩

theorem mono (h : Returns action P) (himp : ∀ value, P value → Q value) : Returns action Q := by
  obtain ⟨value, hvalue, hP⟩ := h
  exact ⟨value, hvalue, himp value hP⟩

theorem bind {next : α → Except ε β} {R : β → Prop} (h : Returns action P)
    (hnext : ∀ value, P value → Returns (next value) R) : Returns (action >>= next) R := by
  obtain ⟨value, rfl, hP⟩ := h
  exact hnext value hP

theorem foldlM {S : β → Prop} {f : β → α → Except ε β} {xs : List α} {first : β}
    (h : ∀ a ∈ xs, ∀ state, S state → Returns (f state a) S) (hfirst : S first) :
    Returns (xs.foldlM f first) S := foldlM_ok h hfirst

theorem foldlM_range {S : ℕ → β → Prop} {f : β → ℕ → Except ε β} {count : ℕ} {first : β}
    (h : ∀ i < count, ∀ state, S i state → Returns (f state i) (S (i + 1))) (hfirst : S 0 first) :
    Returns ((List.range count).foldlM f first) (S count) := foldlM_range_ok h hfirst

theorem mapM {R : α → β → Prop} {f : α → Except ε β} {xs : List α}
    (h : ∀ a ∈ xs, Returns (f a) (R a)) :
    Returns (xs.mapM f) fun ys => ys.length = xs.length ∧ ∀ b ∈ ys, ∃ a ∈ xs, R a b := by
  induction xs with
  | nil => exact ⟨[], rfl, rfl, fun b hb => absurd hb List.not_mem_nil⟩
  | cons a xs ih =>
    obtain ⟨b, hb, hR⟩ := h a List.mem_cons_self
    obtain ⟨bs, hbs, hlength, hall⟩ := ih fun c hc => h c (List.mem_cons_of_mem _ hc)
    refine ⟨b :: bs, ?_, by rw [List.length_cons, List.length_cons, hlength], fun c hc => ?_⟩
    · rw [List.mapM_cons, hb, hbs]
      rfl
    · cases List.mem_cons.mp hc with
      | inl heq => exact ⟨a, List.mem_cons_self, heq ▸ hR⟩
      | inr hmem =>
        obtain ⟨d, hd, hlast⟩ := hall c hmem
        exact ⟨d, List.mem_cons_of_mem _ hd, hlast⟩

end Returns
