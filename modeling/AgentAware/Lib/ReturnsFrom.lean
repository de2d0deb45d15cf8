import AgentAware.Lib.Returns

/-!
# Rules for code with a state that returns

The rules of `Returns` for code that also changes a state. Where a loop is compared with one that has
no state, its rounds are the steps of a fold, and what relates the two is kept by every round.

## Main definitions

- `ReturnsFrom` — from a state, a program returns a value and a state with a property

## Main results

- `ReturnsFrom.bind` — a sequence of steps
- `ReturnsFrom.foldlM` — a loop beside a fold
-/

/-- From the state the program returns, and what it returns and leaves has the property. -/
def ReturnsFrom {ε σ α : Type} (m : StateT σ (Except ε) α) (s : σ) (Q : α → σ → Prop) : Prop :=
  ∃ value t, m s = .ok (value, t) ∧ Q value t

namespace ReturnsFrom

variable {ε σ α β : Type} {m : StateT σ (Except ε) α} {s : σ} {P Q : α → σ → Prop}

theorem pure {value : α} (h : Q value s) : ReturnsFrom (Pure.pure value : StateT σ (Except ε) α) s Q :=
  ⟨value, s, rfl, h⟩

theorem mono (h : ReturnsFrom m s P) (himp : ∀ value t, P value t → Q value t) :
    ReturnsFrom m s Q := by
  obtain ⟨value, t, hvalue, hP⟩ := h
  exact ⟨value, t, hvalue, himp value t hP⟩

theorem bind {next : α → StateT σ (Except ε) β} {R : β → σ → Prop} (h : ReturnsFrom m s P)
    (hnext : ∀ value t, P value t → ReturnsFrom (next value) t R) :
    ReturnsFrom (m >>= next) s R := by
  obtain ⟨value, t, hvalue, hP⟩ := h
  obtain ⟨result, u, hresult, hR⟩ := hnext value t hP
  refine ⟨result, u, ?_, hR⟩
  show (m s >>= fun p => next p.1 p.2) = _
  rw [hvalue]
  exact hresult

theorem get_bind {next : σ → StateT σ (Except ε) β} {R : β → σ → Prop}
    (h : ReturnsFrom (next s) s R) : ReturnsFrom (MonadState.get >>= next) s R := h

theorem set_bind {t : σ} {next : PUnit → StateT σ (Except ε) β} {R : β → σ → Prop}
    (h : ReturnsFrom (next ⟨⟩) t R) : ReturnsFrom (MonadStateOf.set t >>= next) s R := h

/-- Code that leaves the state alone. -/
theorem lift_bind {action : Except ε α} {next : α → StateT σ (Except ε) β} {P : α → Prop}
    {R : β → σ → Prop} (h : Returns action P)
    (hnext : ∀ value, P value → ReturnsFrom (next value) s R) :
    ReturnsFrom (StateT.lift action >>= next) s R := by
  obtain ⟨value, rfl, hP⟩ := h
  exact hnext value hP

/-- A loop that does to its value what a fold does, and keeps what relates the value to the state. -/
theorem foldlM {f : β → α → StateT σ (Except ε) β} {g : β → α → β} {S : β → σ → Prop}
    (h : ∀ value a t, S value t →
      ReturnsFrom (f value a) t fun next u => next = g value a ∧ S next u)
    {first : β} (hfirst : S first s) (xs : List α) :
    ReturnsFrom (xs.foldlM f first) s fun last u => last = xs.foldl g first ∧ S last u := by
  induction xs generalizing first s with
  | nil => exact pure ⟨rfl, hfirst⟩
  | cons a xs ih =>
    rw [List.foldlM_cons]
    refine bind (h first a s hfirst) ?_
    rintro _ t ⟨rfl, hnext⟩
    exact ih hnext

end ReturnsFrom
