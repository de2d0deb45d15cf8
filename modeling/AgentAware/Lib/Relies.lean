import AgentAware.Lib.Interaction

/-!
# Programs that rely on their replies

What a program achieves may depend on what its environment promises: that a reply belongs to the
request it answers. A promise about the replies speaks of the requests, and those are found in the
states of the run. So a triple here has a relation between consecutive states that the run is known to
respect, and its conditions see the replies that are left.

## Main definitions

- `Interaction.Chain` — consecutive states of a run are related
- `Interaction.Relies` — what a program that returns achieves, in runs that respect a relation
- `Interaction.lift` — a program beside a second state
- `Interaction.Projects` — one program is another one with a second state

## Main results

- `relies_bind`, `Relies.mono`, `relies_forEach`, `relies_repeatUntil` — the rules of the triple
- `relies_lift` — the second state stays as it is
- `projects_bind`, `projects_repeatUntil` — forgetting the second state
-/

namespace Interaction

variable {σ ρ τ α β : Type}

/-- Every step of a run, latest first, is related to the one before it. -/
def Chain (A : σ → σ → Prop) (s : σ) : List σ → Prop
  | [] => True
  | t :: seen => Chain A s seen ∧ A (seen.headD s) t

instance Chain.decidable (A : σ → σ → Prop) [DecidableRel A] (s : σ) :
    (seen : List σ) → Decidable (Chain A s seen)
  | [] => .isTrue trivial
  | t :: seen =>
    have := Chain.decidable A s seen
    inferInstanceAs (Decidable (Chain A s seen ∧ A (seen.headD s) t))

theorem chain_append {A : σ → σ → Prop} {s : σ} {seen more : List σ} :
    Chain A s (more ++ seen) ↔ Chain A s seen ∧ Chain A (seen.headD s) more := by
  induction more with
  | nil => simp [Chain]
  | cons t more ih =>
    have hhead : (more ++ seen).headD s = more.headD (seen.headD s) := by
      cases more with
      | nil => rfl
      | cons _ _ => rfl
    rw [List.cons_append, Chain, Chain, ih, hhead, and_assoc]

/-- Started at `s` with these replies, a run that respects `A` and returns ends in the state of its
last step, with a result, a state and replies left that satisfy `Q`. -/
def Relies (A : σ → σ → Prop) (m : Interaction σ ρ α) (Q : α → σ → List ρ → Prop) (s : σ)
    (replies : List ρ) : Prop :=
  ∀ rounds, Chain A s (m.run rounds s replies).seen →
    ∀ a, (m.run rounds s replies).ending = .returned a →
      (m.run rounds s replies).state = (m.run rounds s replies).last s ∧
      Q a (m.run rounds s replies).state (m.run rounds s replies).replies

section Rules

variable {A : σ → σ → Prop} {Q Q' : α → σ → List ρ → Prop} {s : σ} {replies : List ρ}

theorem relies_pure {a : α} (h : Q a s replies) :
    Relies A (pure a : Interaction σ ρ α) Q s replies := by
  intro rounds _ b hb
  cases hb
  exact ⟨rfl, h⟩

theorem relies_get {Q : σ → σ → List ρ → Prop} (h : Q s s replies) :
    Relies A (get : Interaction σ ρ σ) Q s replies := by
  intro rounds _ b hb
  cases hb
  exact ⟨rfl, h⟩

theorem relies_act {f : σ → α × σ} (h : A s (f s).2 → Q (f s).1 (f s).2 replies) :
    Relies A (act f : Interaction σ ρ α) Q s replies := by
  intro rounds hchain b hb
  cases hb
  exact ⟨rfl, h hchain.2⟩

theorem relies_change {f : σ → σ} {Q : Unit → σ → List ρ → Prop} (h : A s (f s) → Q () (f s) replies) :
    Relies A (change f : Interaction σ ρ Unit) Q s replies :=
  relies_act h

theorem relies_throw {message : String} :
    Relies A (throw message : Interaction σ ρ α) Q s replies :=
  fun _ _ _ hb => nomatch hb

theorem relies_ask {Q : ρ → σ → List ρ → Prop}
    (h : ∀ reply rest, replies = reply :: rest → Q reply s rest) :
    Relies A (ask : Interaction σ ρ ρ) Q s replies := by
  intro rounds _ b hb
  cases replies with
  | nil => cases hb
  | cons reply rest =>
    cases hb
    exact ⟨rfl, h _ rest rfl⟩

theorem relies_ofExcept {e : Except String α} (h : ∀ a, e = .ok a → Q a s replies) :
    Relies A (ofExcept e : Interaction σ ρ α) Q s replies := by
  cases e with
  | ok a => exact relies_pure (h a rfl)
  | error message => exact relies_throw

theorem Relies.mono {m : Interaction σ ρ α} (h : Relies A m Q s replies)
    (hQ : ∀ a t rest, Q a t rest → Q' a t rest) : Relies A m Q' s replies := by
  intro rounds hchain a ha
  obtain ⟨hlast, hq⟩ := h rounds hchain a ha
  exact ⟨hlast, hQ _ _ _ hq⟩

theorem relies_bind {m : Interaction σ ρ α} {f : α → Interaction σ ρ β}
    {Q : β → σ → List ρ → Prop}
    (h : Relies A m (fun a t rest => Relies A (f a) Q t rest) s replies) :
    Relies A (m >>= f) Q s replies := by
  intro rounds
  have hm := h rounds
  change Chain A s (bind m f rounds s replies).seen →
    ∀ b, (bind m f rounds s replies).ending = .returned b →
      (bind m f rounds s replies).state = (bind m f rounds s replies).last s ∧
      Q b (bind m f rounds s replies).state (bind m f rounds s replies).replies
  unfold bind
  unfold run at hm
  generalize m rounds s replies = p at hm
  obtain ⟨ending, t, rest, seen⟩ := p
  cases ending with
  | returned a =>
    intro hchain b hb
    rw [chain_append] at hchain
    obtain ⟨hlast, hf⟩ := hm hchain.1 a rfl
    dsimp only [Progress.last] at hlast
    subst hlast
    obtain ⟨hend, hq⟩ := hf rounds hchain.2 b hb
    refine ⟨hend.trans ?_, hq⟩
    show ((f a).run rounds _ rest).last _ = ((f a rounds _ rest).seen ++ seen).headD s
    unfold run
    rw [Progress.last]
    cases (f a rounds (seen.headD s) rest).seen with
    | nil => rfl
    | cons _ _ => rfl
  | threw message =>
    intro _ b hb
    cases hb
  | waiting =>
    intro _ b hb
    cases hb

theorem relies_ite {c : Prop} [Decidable c] {m m' : Interaction σ ρ α}
    (h : c → Relies A m Q s replies) (h' : ¬c → Relies A m' Q s replies) :
    Relies A (if c then m else m') Q s replies := by
  by_cases hc : c
  · rw [if_pos hc]
    exact h hc
  · rw [if_neg hc]
    exact h' hc

/-- A loop over a list. -/
theorem relies_forEach {body : α → Interaction σ ρ Unit} (I : σ → List ρ → Prop) (as : List α)
    (hbody : ∀ a ∈ as, ∀ t rest, I t rest → Relies A (body a) (fun _ u left => I u left) t rest)
    (hs : I s replies) : Relies A (forEach body as) (fun _ t rest => I t rest) s replies := by
  induction as generalizing s replies with
  | nil => exact relies_pure hs
  | cons a as ih =>
    rw [forEach]
    apply relies_bind
    refine (hbody a List.mem_cons_self s replies hs).mono fun _ t rest ht => ?_
    exact ih (fun b hb => hbody b (List.mem_cons_of_mem a hb)) ht

theorem relies_repeatUntil {body : Interaction σ ρ (Option β)} (I : σ → List ρ → Prop)
    {Q : β → σ → List ρ → Prop}
    (hbody : ∀ t rest, I t rest →
      Relies A body (fun o u left => o.elim (I u left) fun b => Q b u left) t rest)
    (hs : I s replies) : Relies A (repeatUntil body) Q s replies := by
  have hrounds : ∀ rounds t rest, I t rest → Relies A (repeatAtMost body rounds) Q t rest := by
    intro rounds
    induction rounds with
    | zero => exact fun t rest _ _ _ b hb => nomatch hb
    | succ rounds ih =>
      intro t rest ht
      rw [repeatAtMost]
      apply relies_bind
      refine (hbody t rest ht).mono fun o u left hu => ?_
      cases o with
      | some b => exact relies_pure hu
      | none => exact ih u left hu
  exact fun rounds => hrounds rounds s replies hs rounds

end Rules

section Lift

/-- A program beside a second state. -/
def lift (m : Interaction σ ρ α) : Interaction (σ × τ) ρ α :=
  fun rounds s replies =>
    let p := m rounds s.1 replies
    { ending := p.ending
      state := (p.state, s.2)
      replies := p.replies
      seen := p.seen.map fun t => (t, s.2) }

theorem chain_map {A : σ → σ → Prop} {s : σ} {t : τ} {seen : List σ} :
    Chain (fun x y : σ × τ => A x.1 y.1) (s, t) (seen.map fun u => (u, t)) ↔ Chain A s seen := by
  induction seen with
  | nil => exact Iff.rfl
  | cons u seen ih =>
    have hhead : ((seen.map fun u => (u, t)).headD (s, t)).1 = seen.headD s := by
      cases seen with
      | nil => rfl
      | cons _ _ => rfl
    rw [List.map_cons, Chain, Chain, ih, hhead]

theorem relies_lift {A : σ → σ → Prop} {m : Interaction σ ρ α} {Q : α → σ → List ρ → Prop}
    {s : σ} {t : τ} {replies : List ρ} (h : Relies A m Q s replies) :
    Relies (fun x y : σ × τ => A x.1 y.1) (lift m)
      (fun a x rest => Q a x.1 rest ∧ x.2 = t) (s, t) replies := by
  intro rounds hchain a ha
  obtain ⟨hlast, hq⟩ := h rounds (chain_map.mp hchain) a ha
  refine ⟨?_, hq, rfl⟩
  show ((m.run rounds s replies).state, t) =
    ((m.run rounds s replies).seen.map fun u => (u, t)).headD (s, t)
  rw [hlast, Progress.last]
  cases (m.run rounds s replies).seen with
  | nil => rfl
  | cons _ _ => rfl

end Lift

section Projects

/-- The runs of `m` are those of `n` when the second state is forgotten. -/
def Projects (m : Interaction (σ × τ) ρ α) (n : Interaction σ ρ α) : Prop :=
  ∀ rounds s t replies,
    (m.run rounds (s, t) replies).ending = (n.run rounds s replies).ending ∧
    (m.run rounds (s, t) replies).state.1 = (n.run rounds s replies).state ∧
    (m.run rounds (s, t) replies).replies = (n.run rounds s replies).replies ∧
    (m.run rounds (s, t) replies).seen.map Prod.fst = (n.run rounds s replies).seen

theorem projects_lift (m : Interaction σ ρ α) :
    Projects (lift m : Interaction (σ × τ) ρ α) m := by
  intro rounds s t replies
  refine ⟨rfl, rfl, rfl, ?_⟩
  show ((m rounds s replies).seen.map fun u => (u, t)).map Prod.fst = (m rounds s replies).seen
  rw [List.map_map]
  exact List.map_id _

theorem projects_pure (a : α) :
    Projects (pure a : Interaction (σ × τ) ρ α) (pure a : Interaction σ ρ α) :=
  fun _ _ _ _ => ⟨rfl, rfl, rfl, rfl⟩

theorem projects_throw (message : String) :
    Projects (throw message : Interaction (σ × τ) ρ α) (throw message : Interaction σ ρ α) :=
  fun _ _ _ _ => ⟨rfl, rfl, rfl, rfl⟩

theorem projects_act {f : σ × τ → α × (σ × τ)} {g : σ → α × σ}
    (h : ∀ s t, (f (s, t)).1 = (g s).1 ∧ (f (s, t)).2.1 = (g s).2) :
    Projects (act f : Interaction (σ × τ) ρ α) (act g : Interaction σ ρ α) := by
  intro rounds s t replies
  obtain ⟨hanswer, hstate⟩ := h s t
  refine ⟨congrArg Ending.returned hanswer, hstate, rfl, ?_⟩
  show [(f (s, t)).2.1] = [(g s).2]
  rw [hstate]

theorem projects_ofExcept (e : Except String α) :
    Projects (ofExcept e : Interaction (σ × τ) ρ α) (ofExcept e : Interaction σ ρ α) := by
  cases e with
  | ok a => exact projects_pure a
  | error message => exact projects_throw message

theorem projects_bind {m : Interaction (σ × τ) ρ α} {n : Interaction σ ρ α}
    {f : α → Interaction (σ × τ) ρ β} {g : α → Interaction σ ρ β} (h : Projects m n)
    (hf : ∀ a, Projects (f a) (g a)) : Projects (m >>= f) (n >>= g) := by
  intro rounds s t replies
  have hm := h rounds s t replies
  change (bind m f rounds (s, t) replies).ending = (bind n g rounds s replies).ending ∧
    (bind m f rounds (s, t) replies).state.1 = (bind n g rounds s replies).state ∧
    (bind m f rounds (s, t) replies).replies = (bind n g rounds s replies).replies ∧
    (bind m f rounds (s, t) replies).seen.map Prod.fst = (bind n g rounds s replies).seen
  unfold bind
  unfold run at hm
  generalize m rounds (s, t) replies = p at hm ⊢
  generalize n rounds s replies = q at hm ⊢
  obtain ⟨ending, ⟨u, v⟩, rest, seen⟩ := p
  obtain ⟨ending', u', rest', seen'⟩ := q
  obtain ⟨rfl, rfl, rfl, rfl⟩ := hm
  cases ending with
  | returned a =>
    obtain ⟨hending, hstate, hreplies, hseen⟩ := hf a rounds u v rest
    refine ⟨hending, hstate, hreplies, ?_⟩
    show ((f a rounds (u, v) rest).seen ++ seen).map Prod.fst = _ ++ seen.map Prod.fst
    rw [List.map_append]
    exact congrArg (· ++ seen.map Prod.fst) hseen
  | threw message => exact ⟨rfl, rfl, rfl, rfl⟩
  | waiting => exact ⟨rfl, rfl, rfl, rfl⟩

/-- A look at the state, of which the second part does not matter. -/
theorem projects_get_bind {f : σ × τ → Interaction (σ × τ) ρ β} {g : σ → Interaction σ ρ β}
    (h : ∀ s t, Projects (f (s, t)) (g s)) : Projects (get >>= f) (get >>= g) :=
  fun rounds s t replies => by
    obtain ⟨hending, hstate, hreplies, hseen⟩ := h s t rounds s t replies
    refine ⟨hending, hstate, hreplies, ?_⟩
    show ((f (s, t) rounds (s, t) replies).seen ++ []).map Prod.fst = (g s rounds s replies).seen ++ []
    rw [List.append_nil, List.append_nil]
    exact hseen

theorem projects_repeatUntil {body : Interaction (σ × τ) ρ (Option β)}
    {body' : Interaction σ ρ (Option β)} (h : Projects body body') :
    Projects (repeatUntil body) (repeatUntil body') := by
  have hrounds : ∀ rounds, Projects (repeatAtMost body rounds) (repeatAtMost body' rounds) := by
    intro rounds
    induction rounds with
    | zero => exact fun _ _ _ _ => ⟨rfl, rfl, rfl, rfl⟩
    | succ rounds ih =>
      refine projects_bind h fun o => ?_
      cases o with
      | some b => exact projects_pure b
      | none => exact ih
  exact fun rounds => hrounds rounds rounds

theorem projects_ite {c : Prop} [Decidable c] {m m' : Interaction (σ × τ) ρ α}
    {n n' : Interaction σ ρ α} (h : Projects m n) (h' : Projects m' n') :
    Projects (if c then m else m') (if c then n else n') := by
  by_cases hc : c
  · rw [if_pos hc, if_pos hc]
    exact h
  · rw [if_neg hc, if_neg hc]
    exact h'

end Projects

end Interaction
