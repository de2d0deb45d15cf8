import Mathlib.Tactic.Common

/-!
# Programs that wait for replies

An `Interaction` works on a state and now and then takes a reply from its environment: which read
has completed, whether a write was accepted. The replies stand for everything the environment may
decide, so that a statement about all lists of replies is one about every order and timing. A loop
takes as many rounds as a run allows it; a statement about every number of rounds is one about
every loop that ends.

## Main definitions

- `Interaction` — the programs, with `get`, `act`, `change`, `throw`, `ask`
- `Interaction.forEach`, `Interaction.repeatUntil` — loops
- `Interaction.onThrow`, `Interaction.attempt` — a program with what follows when it throws
- `Interaction.Holds` — what is so at every step and at the end, whatever the replies are

## Main results

- `holds_bind`, `holds_onThrow`, `Holds.mono` — composition and consequence
- `holds_forEach`, `holds_repeatUntil` — the invariant rules of the loops
-/

/-- How a run ends. It is left waiting when the replies are used up, or the rounds of a loop. -/
inductive Ending (α : Type)
  | returned (a : α)
  | threw (message : String)
  | waiting
  deriving DecidableEq

/-- A finished run: its end, the last state, the replies left over, and the state after every step,
latest first. -/
structure Progress (σ ρ α : Type) where
  ending : Ending α
  state : σ
  replies : List ρ
  seen : List σ := []

/-- The state after the last step of a run that started at `s`. -/
def Progress.last {σ ρ α : Type} (p : Progress σ ρ α) (s : σ) : σ := p.seen.headD s

/-- A program over the state `σ` that takes replies from `ρ`. The number bounds the rounds of each
of its loops. -/
def Interaction (σ ρ α : Type) := ℕ → σ → List ρ → Progress σ ρ α

namespace Interaction

variable {σ ρ α β : Type}

def run (m : Interaction σ ρ α) (rounds : ℕ) (s : σ) (replies : List ρ) : Progress σ ρ α :=
  m rounds s replies

def bind (m : Interaction σ ρ α) (f : α → Interaction σ ρ β) : Interaction σ ρ β :=
  fun rounds s replies =>
    let p := m rounds s replies
    match p.ending with
    | .returned a =>
      let q := f a rounds p.state p.replies
      { q with seen := q.seen ++ p.seen }
    | .threw message => { p with ending := .threw message }
    | .waiting => { p with ending := .waiting }

instance : Monad (Interaction σ ρ) where
  pure a := fun _ s replies => { ending := .returned a, state := s, replies := replies }
  bind := bind

/-- Look at the state. -/
def get : Interaction σ ρ σ :=
  fun _ s replies => { ending := .returned s, state := s, replies := replies }

/-- One step, with what it answers. -/
def act (f : σ → α × σ) : Interaction σ ρ α :=
  fun _ s replies =>
    { ending := .returned (f s).1, state := (f s).2, replies := replies, seen := [(f s).2] }

/-- One step. -/
def change (f : σ → σ) : Interaction σ ρ Unit := act fun s => ((), f s)

def throw (message : String) : Interaction σ ρ α :=
  fun _ s replies => { ending := .threw message, state := s, replies := replies }

/-- Take a reply. -/
def ask : Interaction σ ρ ρ
  | _, s, [] => { ending := .waiting, state := s, replies := [] }
  | _, s, reply :: replies => { ending := .returned reply, state := s, replies := replies }

/-- What is there, or throw. -/
def ofExcept : Except String α → Interaction σ ρ α
  | .ok a => pure a
  | .error message => throw message

def forEach (body : α → Interaction σ ρ Unit) : List α → Interaction σ ρ Unit
  | [] => pure ()
  | a :: as => do
    body a
    forEach body as

/-- Run `body` until it has an answer, at most `rounds` times. -/
def repeatAtMost (body : Interaction σ ρ (Option β)) : ℕ → Interaction σ ρ β
  | 0 => fun _ s replies => { ending := .waiting, state := s, replies := replies }
  | rounds + 1 => do
    match ← body with
    | some b => pure b
    | none => repeatAtMost body rounds

/-- Run `body` until it has an answer. -/
def repeatUntil (body : Interaction σ ρ (Option β)) : Interaction σ ρ β :=
  fun rounds => repeatAtMost body rounds rounds

/-- When `m` throws, `cleanup` runs from the state that was reached. What it throws is dropped, and
what `m` threw is passed on. -/
def onThrow (m : Interaction σ ρ α) (cleanup : Interaction σ ρ Unit) : Interaction σ ρ α :=
  fun rounds s replies =>
    let p := m rounds s replies
    match p.ending with
    | .threw message =>
      let q := cleanup rounds (p.last s) p.replies
      { q with
        ending := if q.ending = .waiting then .waiting else .threw message
        seen := q.seen ++ p.seen }
    | .returned _ => p
    | .waiting => p

/-- Go on after what `m` throws. -/
def attempt (m : Interaction σ ρ α) : Interaction σ ρ (Except String α) :=
  fun rounds s replies =>
    let p := m rounds s replies
    match p.ending with
    | .returned a => { p with ending := .returned (.ok a) }
    | .threw message => { p with ending := .returned (.error message), state := p.last s }
    | .waiting => { p with ending := .waiting }

/-- Started at `s`, whatever the replies are, every step leads to a state within `J`, and a result
satisfies `Q`. -/
def Holds (J : σ → Prop) (m : Interaction σ ρ α) (Q : α → σ → Prop) (s : σ) : Prop :=
  ∀ rounds replies, (∀ t ∈ (m.run rounds s replies).seen, J t) ∧
    ∀ a, (m.run rounds s replies).ending = .returned a → Q a (m.run rounds s replies).state

variable {J : σ → Prop} {Q Q' : α → σ → Prop} {s : σ}

@[simp] theorem holds_pure {a : α} : Holds J (pure a : Interaction σ ρ α) Q s ↔ Q a s := by
  constructor
  · intro h
    exact (h 0 []).2 a rfl
  · intro h rounds replies
    refine ⟨fun t ht => absurd ht (by simp [run, pure]), fun b hb => ?_⟩
    cases hb
    exact h

@[simp] theorem holds_get {Q : σ → σ → Prop} :
    Holds J (get : Interaction σ ρ σ) Q s ↔ Q s s := by
  constructor
  · intro h
    exact (h 0 []).2 s rfl
  · intro h rounds replies
    refine ⟨fun t ht => absurd ht (by simp [run, get]), fun b hb => ?_⟩
    cases hb
    exact h

@[simp] theorem holds_act {f : σ → α × σ} :
    Holds J (act f : Interaction σ ρ α) Q s ↔ J (f s).2 ∧ Q (f s).1 (f s).2 := by
  constructor
  · intro h
    exact ⟨(h 0 []).1 _ (by simp [run, act]), (h 0 []).2 _ rfl⟩
  · intro h rounds replies
    refine ⟨fun t ht => ?_, fun b hb => ?_⟩
    · rw [show t = (f s).2 by simpa [run, act] using ht]
      exact h.1
    · cases hb
      exact h.2

@[simp] theorem holds_change {f : σ → σ} {Q : Unit → σ → Prop} :
    Holds J (change f : Interaction σ ρ Unit) Q s ↔ J (f s) ∧ Q () (f s) := holds_act

@[simp] theorem holds_throw {message : String} :
    Holds J (throw message : Interaction σ ρ α) Q s := by
  intro rounds replies
  exact ⟨fun t ht => absurd ht (by simp [run, throw]), fun b hb => nomatch hb⟩

theorem holds_ask {Q : ρ → σ → Prop} (h : ∀ reply, Q reply s) :
    Holds J (ask : Interaction σ ρ ρ) Q s := by
  intro rounds replies
  cases replies with
  | nil => exact ⟨fun t ht => absurd ht (by simp [run, ask]), fun b hb => nomatch hb⟩
  | cons reply replies =>
    refine ⟨fun t ht => absurd ht (by simp [run, ask]), fun b hb => ?_⟩
    cases hb
    exact h reply

theorem holds_ofExcept {e : Except String α} (h : ∀ a, e = .ok a → Q a s) :
    Holds J (ofExcept e : Interaction σ ρ α) Q s := by
  cases e with
  | ok a => exact holds_pure.mpr (h a rfl)
  | error message => exact holds_throw

theorem Holds.mono {m : Interaction σ ρ α} (h : Holds J m Q s) (hQ : ∀ a t, Q a t → Q' a t) :
    Holds J m Q' s := by
  intro rounds replies
  exact ⟨(h rounds replies).1, fun a ha => hQ a _ ((h rounds replies).2 a ha)⟩

/-- Two results of one program, within the steps of the second. -/
theorem Holds.both {J' : σ → Prop} {m : Interaction σ ρ α} (h : Holds J m Q s)
    (h' : Holds J' m Q' s) : Holds J' m (fun a t => Q a t ∧ Q' a t) s := by
  intro rounds replies
  exact ⟨(h' rounds replies).1, fun a ha =>
    ⟨(h rounds replies).2 a ha, (h' rounds replies).2 a ha⟩⟩

theorem Holds.last {m : Interaction σ ρ α} (h : Holds J m Q s) (hs : J s) (rounds : ℕ)
    (replies : List ρ) : J ((m.run rounds s replies).last s) := by
  have hseen := (h rounds replies).1
  rw [Progress.last]
  cases hlast : (m.run rounds s replies).seen with
  | nil => exact hs
  | cons t seen => exact hseen t (hlast ▸ List.mem_cons_self)

theorem holds_onThrow {m : Interaction σ ρ α} {cleanup : Interaction σ ρ Unit}
    (h : Holds J m Q s) (hs : J s) (hcleanup : ∀ t, J t → Holds J cleanup (fun _ _ => True) t) :
    Holds J (onThrow m cleanup) Q s := by
  intro rounds replies
  have hm := h rounds replies
  have hlast := h.last hs rounds replies
  change (∀ t ∈ (onThrow m cleanup rounds s replies).seen, J t) ∧
    ∀ a, (onThrow m cleanup rounds s replies).ending = .returned a →
      Q a (onThrow m cleanup rounds s replies).state
  unfold onThrow
  unfold run at hm hlast
  generalize m rounds s replies = p at hm hlast
  obtain ⟨ending, t, rest, seen⟩ := p
  cases ending with
  | returned a => exact hm
  | waiting => exact hm
  | threw message =>
    have hclean := hcleanup _ hlast rounds rest
    refine ⟨fun u hu => ?_, fun a ha => ?_⟩
    · rcases List.mem_append.mp hu with hu | hu
      · exact hclean.1 u hu
      · exact hm.1 u hu
    · dsimp only at ha
      split at ha
      · cases ha
      · cases ha

theorem holds_attempt {m : Interaction σ ρ α} {Q : Except String α → σ → Prop}
    (h : Holds J m (fun a t => Q (.ok a) t) s) (hs : J s)
    (hthrew : ∀ message t, J t → Q (.error message) t) : Holds J (attempt m) Q s := by
  intro rounds replies
  have hm := h rounds replies
  have hlast := h.last hs rounds replies
  change (∀ t ∈ (attempt m rounds s replies).seen, J t) ∧
    ∀ a, (attempt m rounds s replies).ending = .returned a →
      Q a (attempt m rounds s replies).state
  unfold attempt
  unfold run at hm hlast
  generalize m rounds s replies = p at hm hlast
  obtain ⟨ending, t, rest, seen⟩ := p
  cases ending with
  | returned a =>
    refine ⟨hm.1, fun b hb => ?_⟩
    cases hb
    exact hm.2 a rfl
  | threw message =>
    refine ⟨hm.1, fun b hb => ?_⟩
    cases hb
    exact hthrew message _ hlast
  | waiting => exact ⟨hm.1, fun b hb => nomatch hb⟩

theorem holds_bind {m : Interaction σ ρ α} {f : α → Interaction σ ρ β} {Q : β → σ → Prop}
    (h : Holds J m (fun a t => Holds J (f a) Q t) s) : Holds J (m >>= f) Q s := by
  intro rounds replies
  have hm := h rounds replies
  change (∀ t ∈ (bind m f rounds s replies).seen, J t) ∧
    ∀ b, (bind m f rounds s replies).ending = .returned b → Q b (bind m f rounds s replies).state
  unfold bind
  unfold run at hm
  generalize m rounds s replies = p at hm
  obtain ⟨ending, t, rest, seen⟩ := p
  cases ending with
  | returned a =>
    have hf := hm.2 a rfl rounds rest
    refine ⟨fun u hu => ?_, hf.2⟩
    rcases List.mem_append.mp hu with hu | hu
    · exact hf.1 u hu
    · exact hm.1 u hu
  | threw message => exact ⟨hm.1, fun b hb => nomatch hb⟩
  | waiting => exact ⟨hm.1, fun b hb => nomatch hb⟩

theorem holds_ite {c : Prop} [Decidable c] {m m' : Interaction σ ρ α} (h : c → Holds J m Q s)
    (h' : ¬c → Holds J m' Q s) : Holds J (if c then m else m') Q s := by
  by_cases hc : c
  · rw [if_pos hc]
    exact h hc
  · rw [if_neg hc]
    exact h' hc

/-- A loop over a list: `I done` holds while the elements `done` are finished. -/
theorem holds_forEach {body : α → Interaction σ ρ Unit} (I : σ → Prop) (as : List α)
    (hbody : ∀ a ∈ as, ∀ t, I t → Holds J (body a) (fun _ u => I u) t) (hs : I s) :
    Holds J (forEach body as) (fun _ t => I t) s := by
  induction as generalizing s with
  | nil => exact holds_pure.mpr hs
  | cons a as ih =>
    rw [forEach]
    apply holds_bind
    refine (hbody a (by simp) s hs).mono fun _ t ht => ?_
    exact ih (fun b hb => hbody b (List.mem_cons_of_mem a hb)) ht

theorem holds_repeatUntil {body : Interaction σ ρ (Option β)} (I : σ → Prop)
    {Q : β → σ → Prop}
    (hbody : ∀ t, I t → Holds J body (fun o u => o.elim (I u) fun b => Q b u) t) (hs : I s) :
    Holds J (repeatUntil body) Q s := by
  intro most replies
  have hrounds : ∀ rounds t, I t → Holds J (repeatAtMost body rounds) Q t := by
    intro rounds
    induction rounds with
    | zero =>
      intro t _ rounds replies
      exact ⟨fun u hu => absurd hu (by simp [run, repeatAtMost]), fun b hb => nomatch hb⟩
    | succ rounds ih =>
      intro t ht
      rw [repeatAtMost]
      apply holds_bind
      refine (hbody t ht).mono fun o u hu => ?_
      cases o with
      | some b => exact holds_pure.mpr hu
      | none => exact ih u hu
  exact hrounds most s hs most replies

end Interaction
