import Mathlib.Data.List.Basic

/-!
# Checks that throw

Code that checks its arguments one after the other and throws at the first check that fails is a
chain of `throwIf`. It returns exactly when every check passes.

## Main definitions

- `throwIf` — `if (condition) throw message`

## Main results

- `except_bind_eq_ok`, `throwIf_bind_eq_ok` — when a chain of checks returns
- `exists_error_of_ne_ok` — what does not return throws
- `foldlM_ok`, `foldlM_range_ok`, `foldlM_eq_ok` — loops whose rounds return
- `round_of_foldlM_ok` — when a loop has returned, every round has
-/

/-- `if (condition) throw message`. -/
def throwIf (condition : Prop) [Decidable condition] (message : String) : Except String Unit :=
  if condition then .error message else .ok ()

section

variable {ε α β : Type} {condition : Prop} [Decidable condition] {message : String}

theorem except_bind_eq_ok {action : Except ε α} {next : α → Except ε β} {result : β} :
    (action >>= next) = .ok result ↔ ∃ value, action = .ok value ∧ next value = .ok result := by
  cases action with
  | error e => simp [bind, Except.bind]
  | ok value => simp [bind, Except.bind]

@[simp] theorem throwIf_eq_ok {value : Unit} :
    throwIf condition message = .ok value ↔ ¬condition := by
  rw [throwIf]
  split_ifs with h
  · exact ⟨nofun, fun hn => absurd h hn⟩
  · exact ⟨fun _ => h, fun _ => rfl⟩

theorem throwIf_bind_eq_ok {next : Unit → Except String β} {result : β} :
    (throwIf condition message >>= next) = .ok result ↔ ¬condition ∧ next () = .ok result := by
  rw [except_bind_eq_ok]
  exact ⟨fun ⟨_, h, hnext⟩ => ⟨throwIf_eq_ok.mp h, hnext⟩,
    fun ⟨h, hnext⟩ => ⟨(), throwIf_eq_ok.mpr h, hnext⟩⟩

theorem unit_bind_eq_ok {action : Except ε Unit} {next : Unit → Except ε β} {result : β} :
    (action >>= next) = .ok result ↔ action = .ok () ∧ next () = .ok result := by
  rw [except_bind_eq_ok]
  exact ⟨fun ⟨_, h, hnext⟩ => ⟨h, hnext⟩, fun ⟨h, hnext⟩ => ⟨(), h, hnext⟩⟩

/-- What does not return throws. -/
theorem exists_error_of_ne_ok {action : Except ε α} (h : ∀ value, action ≠ .ok value) :
    ∃ e, action = .error e := by
  cases action with
  | error e => exact ⟨e, rfl⟩
  | ok value => exact absurd rfl (h value)

/-- A loop returns when every round returns and keeps what the next one needs. -/
theorem foldlM_ok {P : β → Prop} {f : β → α → Except ε β} {xs : List α} {init : β}
    (h : ∀ a ∈ xs, ∀ state, P state → ∃ next, f state a = .ok next ∧ P next) (hinit : P init) :
    ∃ final, xs.foldlM f init = .ok final ∧ P final := by
  induction xs generalizing init with
  | nil => exact ⟨init, rfl, hinit⟩
  | cons a xs ih =>
    obtain ⟨next, hnext, hkeep⟩ := h a List.mem_cons_self init hinit
    obtain ⟨final, hfinal, hlast⟩ := ih (fun b hb => h b (List.mem_cons_of_mem _ hb)) hkeep
    refine ⟨final, ?_, hlast⟩
    rw [List.foldlM_cons, hnext]
    exact hfinal

/-- A counted loop, with what holds before each round. -/
theorem foldlM_range_ok {P : ℕ → β → Prop} {f : β → ℕ → Except ε β} {count : ℕ} {init : β}
    (h : ∀ i < count, ∀ state, P i state → ∃ next, f state i = .ok next ∧ P (i + 1) next)
    (hinit : P 0 init) : ∃ final, (List.range count).foldlM f init = .ok final ∧ P count final := by
  induction count with
  | zero => exact ⟨init, rfl, hinit⟩
  | succ count ih =>
    obtain ⟨state, hstate, hkeep⟩ := ih fun i hi => h i (Nat.lt_succ_of_lt hi)
    obtain ⟨final, hfinal, hlast⟩ := h count (Nat.lt_succ_self count) state hkeep
    refine ⟨final, ?_, hlast⟩
    rw [List.range_succ, List.foldlM_append, hstate]
    exact (bind_pure _).trans hfinal

/-- When a loop has returned, it has kept what its rounds keep, and every round has returned. -/
theorem round_of_foldlM_ok {P : β → Prop} {f : β → α → Except ε β} {xs : List α} {init final : β}
    (hkeep : ∀ a ∈ xs, ∀ state next, P state → f state a = .ok next → P next) (hinit : P init)
    (hfinal : xs.foldlM f init = .ok final) :
    P final ∧ ∀ a ∈ xs, ∃ state next, P state ∧ f state a = .ok next := by
  induction xs generalizing init with
  | nil =>
    obtain rfl : init = final := Except.ok.inj hfinal
    exact ⟨hinit, fun a ha => absurd ha List.not_mem_nil⟩
  | cons a xs ih =>
    rw [List.foldlM_cons, except_bind_eq_ok] at hfinal
    obtain ⟨next, hnext, hrest⟩ := hfinal
    obtain ⟨hlast, hrounds⟩ := ih (fun b hb => hkeep b (List.mem_cons_of_mem _ hb))
      (hkeep a List.mem_cons_self init next hinit hnext) hrest
    refine ⟨hlast, fun b hb => ?_⟩
    rcases List.mem_cons.mp hb with rfl | hb
    · exact ⟨init, next, hinit, hnext⟩
    · exact hrounds b hb

/-- A counted loop whose first round does not return. -/
theorem foldlM_range_error {f : β → ℕ → Except ε β} {init : β} {e : ε} {count : ℕ}
    (hcount : 0 < count) (h : f init 0 = .error e) :
    (List.range count).foldlM f init = .error e := by
  obtain ⟨count, rfl⟩ := Nat.exists_eq_add_of_lt hcount
  rw [Nat.zero_add, List.range_succ_eq_map, List.foldlM_cons, h]
  rfl

/-- A loop whose rounds return what a function computes. -/
theorem foldlM_eq_ok {f : β → α → Except ε β} {g : β → α → β} {xs : List α} {init : β}
    (h : ∀ a ∈ xs, ∀ state, f state a = .ok (g state a)) :
    xs.foldlM f init = .ok (xs.foldl g init) := by
  induction xs generalizing init with
  | nil => rfl
  | cons a xs ih =>
    rw [List.foldlM_cons, h a List.mem_cons_self, List.foldl_cons]
    exact ih fun b hb => h b (List.mem_cons_of_mem _ hb)

end
