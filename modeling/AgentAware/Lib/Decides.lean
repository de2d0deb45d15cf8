import AgentAware.Lib.Returns

/-!
# Rules for code that checks its input

Code that reads untrusted input returns or throws, and which of the two is decided by its checks. The
condition of a sequence is that of all its steps, and the condition of a loop that of all its rounds.

## Main definitions

- `Decides` — an action returns exactly under a condition, and fails as expected otherwise

## Main results

- `Decides.bind`, `Decides.foldlM_range` — sequences and loops
- `Decides.ok_iff` — when the action returns
-/

/-- Under the condition the action returns a value with the property, otherwise it fails with an
expected error. -/
structure Decides {ε α : Type} (expected : ε → Prop) (condition : Prop) (action : Except ε α)
    (Q : α → Prop) : Prop where
  returns : condition → Returns action Q
  fails : ¬condition → ∃ e, action = .error e ∧ expected e

namespace Decides

variable {ε α β : Type} {expected : ε → Prop} {c d : Prop} {action : Except ε α} {P Q : α → Prop}

theorem of_returns (h : Returns action Q) : Decides expected True action Q :=
  ⟨fun _ => h, fun hfalse => absurd trivial hfalse⟩

theorem pure {value : α} (h : Q value) : Decides expected True (Pure.pure value : Except ε α) Q :=
  of_returns (Returns.pure h)

theorem mono (h : Decides expected c action P) (himp : ∀ value, P value → Q value) :
    Decides expected c action Q :=
  ⟨fun hc => (h.returns hc).mono himp, h.fails⟩

theorem iff (h : Decides expected c action Q) (hiff : c ↔ d) : Decides expected d action Q :=
  ⟨fun hd => h.returns (hiff.mpr hd), fun hd => h.fails fun hc => hd (hiff.mp hc)⟩

theorem bind {next : α → Except ε β} {R : β → Prop} (h : Decides expected c action P)
    (hnext : ∀ value, P value → Decides expected d (next value) R) :
    Decides expected (c ∧ d) (action >>= next) R := by
  constructor
  · rintro ⟨hc, hd⟩
    exact Returns.bind (h.returns hc) fun value hvalue => (hnext value hvalue).returns hd
  · intro hneither
    by_cases hc : c
    · obtain ⟨value, rfl, hvalue⟩ := h.returns hc
      exact (hnext value hvalue).fails fun hd => hneither ⟨hc, hd⟩
    · obtain ⟨e, rfl, he⟩ := h.fails hc
      exact ⟨e, rfl, he⟩

/-- A step that returns does not add to the condition. -/
theorem after {next : α → Except ε β} {R : β → Prop} (h : Returns action P)
    (hnext : ∀ value, P value → Decides expected d (next value) R) :
    Decides expected d (action >>= next) R :=
  ((of_returns h).bind hnext).iff (Iff.of_eq (true_and d))

theorem followed {next : α → Except ε β} {R : β → Prop} (h : Decides expected c action P)
    (hnext : ∀ value, P value → Returns (next value) R) :
    Decides expected c (action >>= next) R :=
  (h.bind fun value hvalue => of_returns (hnext value hvalue)).iff (Iff.of_eq (and_true c))

theorem foldlM_range {S : ℕ → β → Prop} {condition : ℕ → Prop} {f : β → ℕ → Except ε β} {count : ℕ}
    {first : β}
    (h : ∀ i < count, ∀ state, S i state → Decides expected (condition i) (f state i) (S (i + 1)))
    (hfirst : S 0 first) :
    Decides expected (∀ i < count, condition i) ((List.range count).foldlM f first) (S count) := by
  induction count with
  | zero =>
    refine (pure hfirst).iff ⟨fun _ i hi => absurd hi (Nat.not_lt_zero i), fun _ => trivial⟩
  | succ count ih =>
    rw [List.range_succ, List.foldlM_append]
    have hrounds := ih fun i hi => h i (Nat.lt_succ_of_lt hi)
    have hlast : ∀ state, S count state →
        Decides expected (condition count) ([count].foldlM f state) (S (count + 1)) := by
      intro state hstate
      rw [List.foldlM_cons]
      exact (h count (Nat.lt_succ_self count) state hstate).followed fun next hnext =>
        Returns.pure hnext
    refine (hrounds.bind hlast).iff ⟨fun hall i hi => ?_, fun hall =>
      ⟨fun i hi => hall i (Nat.lt_succ_of_lt hi), hall count (Nat.lt_succ_self count)⟩⟩
    by_cases heq : i = count
    · exact heq ▸ hall.2
    · exact hall.1 i (by omega)

theorem ok_iff (h : Decides expected c action Q) : (∃ value, action = .ok value) ↔ c := by
  constructor
  · rintro ⟨value, rfl⟩
    by_contra hc
    obtain ⟨e, he, _⟩ := h.fails hc
    cases he
  · intro hc
    obtain ⟨value, hvalue, _⟩ := h.returns hc
    exact ⟨value, hvalue⟩

/-- What a returned value satisfies. -/
theorem of_ok (h : Decides expected c action Q) {value : α} (hvalue : action = .ok value) :
    Q value := by
  have hc : c := h.ok_iff.mp ⟨value, hvalue⟩
  obtain ⟨other, hother, hQ⟩ := h.returns hc
  rw [hvalue] at hother
  cases hother
  exact hQ

end Decides
