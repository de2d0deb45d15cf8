import Mathlib.Logic.Relation
import Mathlib.Tactic.Common

/-!
# Programs that take atomic steps on a store

A `Prog σ α` changes a store one atomic step at a time. A step may be a fallible operation, whose
outcome the environment decides, and a run records every store it passes through, so that a
statement can speak about a crash between two steps or about a reader that looks in meanwhile.

## Main definitions

- `Prog` — the programs, with `Prog.look`, `Prog.step`, `Prog.attempt`, `Prog.probe`
- `Prog.run` — run a program under given outcomes
- `Prog.Moves` — a chain of atomic steps, each within a relation
- `Prog.wp` — what must hold before a program for its steps and its result to be as required

## Main results

- `Prog.wp_bind`, `Prog.wp_mono` — composition, consequence
- `Prog.wp_bind_trans` — composition of programs that keep a transitive relation
- `Prog.wp_forEach` — the invariant rule for a loop that stops at the first failure
- `Prog.wp_zoom` — a program on a part of the store leaves the rest alone
- `Prog.wp_run` — what `wp` says about a run
- `Prog.Moves.pairwise` — of any two stores of a run the later one is reached from the earlier one
-/

/-- What the environment answers to a fallible operation; a failure may leave part of the effect
behind. -/
inductive Outcome
  | done
  | fail (progress : ℕ)
  deriving DecidableEq, Repr

/-- The store of a running program, the outcomes still to come (none left means that everything
succeeds), and the stores it passed through, latest first. -/
structure Run (σ : Type) where
  store : σ
  faults : List Outcome := []
  past : List σ := []

/-- Every store a run passed through, latest first. -/
def Run.visited {σ : Type} (r : Run σ) : List σ := r.store :: r.past

theorem Run.getD_past_mem {σ : Type} (r : Run σ) {i : ℕ} (h : i < r.past.length) (s : σ) :
    r.past.getD i s ∈ r.visited := by
  rw [List.getD_eq_getElem?_getD, List.getElem?_eq_getElem h]
  exact List.mem_cons_of_mem _ (List.getElem_mem h)

/-- A program over the store `σ`: it returns, or looks at the store, or takes a step that cannot
fail, or one that can. -/
inductive Prog (σ α : Type) : Type
  | ret (a : α)
  | observe (next : σ → Prog σ α)
  | act (f : σ → σ) (next : Prog σ α)
  | risk (ok : σ → σ) (bad : ℕ → σ → σ) (next : Bool → Prog σ α)

namespace Prog

variable {σ τ α β : Type}

def bind : Prog σ α → (α → Prog σ β) → Prog σ β
  | ret a, f => f a
  | observe next, f => observe fun s => (next s).bind f
  | act g next, f => act g (next.bind f)
  | risk ok bad next, f => risk ok bad fun b => (next b).bind f

instance : Monad (Prog σ) where
  pure := ret
  bind := bind

/-- Read the store. -/
def look : Prog σ σ := observe ret

/-- One atomic step that cannot fail. -/
def step (f : σ → σ) : Prog σ Unit := act f (ret ())

/-- One fallible step: `ok` when it succeeds, `bad n` when it fails after `n` units. -/
def attempt (ok : σ → σ) (bad : ℕ → σ → σ) : Prog σ Bool := risk ok bad ret

/-- A fallible operation that changes nothing. -/
def probe : Prog σ Bool := attempt id fun _ => id

/-- Run `body` over a list until it first answers `false`. -/
def forEach (body : α → Prog σ Bool) : List α → Prog σ Bool
  | [] => pure true
  | a :: as => do
    if ← body a then forEach body as
    else pure false

/-- Run a program on a part of a larger store. -/
def zoom (get : τ → σ) (set : σ → τ → τ) : Prog σ α → Prog τ α
  | ret a => ret a
  | observe next => observe fun t => zoom get set (next (get t))
  | act f next => act (fun t => set (f (get t)) t) (zoom get set next)
  | risk ok bad next =>
    risk (fun t => set (ok (get t)) t) (fun n t => set (bad n (get t)) t)
      fun b => zoom get set (next b)

/-- Run a program. -/
def run : Prog σ α → Run σ → α × Run σ
  | ret a, r => (a, r)
  | observe next, r => (next r.store).run r
  | act f next, r => next.run { r with store := f r.store, past := r.store :: r.past }
  | risk ok bad next, r =>
    match r.faults with
    | [] => (next true).run { r with store := ok r.store, past := r.store :: r.past }
    | .done :: faults =>
      (next true).run { store := ok r.store, faults := faults, past := r.store :: r.past }
    | .fail n :: faults =>
      (next false).run { store := bad n r.store, faults := faults, past := r.store :: r.past }

/-- The result and the final run of a program started at `s`. -/
def exec (m : Prog σ α) (s : σ) (faults : List Outcome) : α × Run σ := m.run ⟨s, faults, []⟩

/-- `Moves R s seen t`: from `s` to `t` by steps within `R`, where `seen` are the stores before
each step, latest first. -/
inductive Moves (R : σ → σ → Prop) (s : σ) : List σ → σ → Prop
  | refl : Moves R s [] s
  | tail {seen : List σ} {t u : σ} : Moves R s seen t → R t u → Moves R s (t :: seen) u

namespace Moves

variable {R : σ → σ → Prop} {s t u : σ} {seen seen' : List σ}

theorem single (h : R s t) : Moves R s [s] t := tail refl h

theorem trans (h : Moves R s seen t) (h' : Moves R t seen' u) : Moves R s (seen' ++ seen) u := by
  induction h' with
  | refl => exact h
  | tail _ hstep ih => exact tail ih hstep

theorem reach (h : Moves R s seen t) : Relation.ReflTransGen R s t := by
  induction h with
  | refl => exact .refl
  | tail _ hstep ih => exact ih.tail hstep

theorem reach_of_mem (h : Moves R s seen t) {v : σ} (hv : v ∈ seen) :
    Relation.ReflTransGen R v t := by
  induction h with
  | refl => simp at hv
  | tail hmoves hstep ih =>
    rcases List.mem_cons.mp hv with rfl | hv
    · exact .single hstep
    · exact (ih hv).tail hstep

theorem reach_to_mem (h : Moves R s seen t) {v : σ} (hv : v ∈ t :: seen) :
    Relation.ReflTransGen R s v := by
  induction h with
  | refl =>
    rw [List.mem_singleton.mp hv]
  | tail hmoves hstep ih =>
    rcases List.mem_cons.mp hv with rfl | hv
    · exact hmoves.reach.tail hstep
    · exact ih hv

/-- A run begins with the store that it was started at. -/
theorem eq_concat (h : Moves R s seen t) : ∃ newer, t :: seen = newer ++ [s] := by
  induction h with
  | refl => exact ⟨[], rfl⟩
  | @tail seen t u hmoves hstep ih =>
    obtain ⟨newer, hnewer⟩ := ih
    exact ⟨u :: newer, by rw [hnewer, List.cons_append]⟩

/-- Of any two stores of a run, the later one is reached from the earlier one. -/
theorem pairwise (h : Moves R s seen t) :
    (t :: seen).Pairwise fun later earlier => Relation.ReflTransGen R earlier later := by
  induction h with
  | refl => simp
  | tail hmoves hstep ih =>
    refine List.pairwise_cons.mpr ⟨fun v hv => ?_, ih⟩
    rcases List.mem_cons.mp hv with rfl | hv
    · exact .single hstep
    · exact (hmoves.reach_of_mem hv).tail hstep

/-- A property that every step establishes holds at every store of the run. -/
theorem forall_mem {J : σ → Prop} (hs : J s) (h : Moves (fun _ b => J b) s seen t) :
    ∀ v ∈ t :: seen, J v := by
  induction h with
  | refl => simpa using hs
  | tail _ hstep ih =>
    intro v hv
    rcases List.mem_cons.mp hv with rfl | hv
    · exact hstep
    · exact ih v hv

end Moves

/-- Started at `s`, and whatever outcomes within `F` the environment chooses, every atomic step of
the program is within `R` and its result satisfies `Q`. -/
def wp (F : Outcome → Prop) (R : σ → σ → Prop) : Prog σ α → (α → σ → Prop) → σ → Prop
  | ret a, Q, s => Q a s
  | observe next, Q, s => wp F R (next s) Q s
  | act f next, Q, s => R s (f s) ∧ wp F R next Q (f s)
  | risk ok bad next, Q, s =>
    (R s (ok s) ∧ wp F R (next true) Q (ok s)) ∧
      ∀ n, F (.fail n) → R s (bad n s) ∧ wp F R (next false) Q (bad n s)

/-- No operation fails. -/
def Quiet : Outcome → Prop := fun _ => False

/-- Any operation may fail. -/
def Faulty : Outcome → Prop := fun _ => True

variable {F F' : Outcome → Prop} {R R' : σ → σ → Prop} {Q Q' : α → σ → Prop} {s : σ}

@[simp] theorem wp_pure {a : α} : (pure a : Prog σ α).wp F R Q s ↔ Q a s := Iff.rfl

@[simp] theorem wp_look {Q : σ → σ → Prop} : look.wp F R Q s ↔ Q s s := Iff.rfl

@[simp] theorem wp_step {f : σ → σ} {Q : Unit → σ → Prop} :
    (step f).wp F R Q s ↔ R s (f s) ∧ Q () (f s) := Iff.rfl

theorem wp_attempt {ok : σ → σ} {bad : ℕ → σ → σ} {Q : Bool → σ → Prop} :
    (attempt ok bad).wp F R Q s ↔ (R s (ok s) ∧ Q true (ok s)) ∧
      ∀ n, F (.fail n) → R s (bad n s) ∧ Q false (bad n s) := Iff.rfl

@[simp] theorem wp_attempt_quiet {ok : σ → σ} {bad : ℕ → σ → σ} {Q : Bool → σ → Prop} :
    (attempt ok bad).wp Quiet R Q s ↔ R s (ok s) ∧ Q true (ok s) :=
  ⟨fun h => h.1, fun h => ⟨h, fun _ hF => hF.elim⟩⟩

@[simp] theorem wp_probe_quiet {Q : Bool → σ → Prop} :
    probe.wp Quiet R Q s ↔ R s s ∧ Q true s := wp_attempt_quiet

@[simp] theorem wp_bind {m : Prog σ α} {f : α → Prog σ β} {Q : β → σ → Prop} :
    (m >>= f).wp F R Q s ↔ m.wp F R (fun a t => (f a).wp F R Q t) s := by
  change (bind m f).wp F R Q s ↔ _
  induction m generalizing s with
  | ret a => rfl
  | observe next ih => exact ih s
  | act g next ih => exact and_congr Iff.rfl ih
  | risk ok bad next ih =>
    exact and_congr (and_congr Iff.rfl (ih true))
      (forall_congr' fun n => imp_congr Iff.rfl (and_congr Iff.rfl (ih false)))

theorem wp_ite {c : Prop} [Decidable c] {m m' : Prog σ α} (h : c → m.wp F R Q s)
    (h' : ¬c → m'.wp F R Q s) : (if c then m else m').wp F R Q s := by
  split
  · next hc => exact h hc
  · next hc => exact h' hc

theorem wp_mono {m : Prog σ α} (h : m.wp F R Q s) (hQ : ∀ a t, Q a t → Q' a t)
    (hR : ∀ t u, R t u → R' t u) : m.wp F R' Q' s := by
  induction m generalizing s with
  | ret a => exact hQ _ _ h
  | observe next ih => exact ih s h
  | act f next ih => exact ⟨hR _ _ h.1, ih h.2⟩
  | risk ok bad next ih =>
    exact ⟨⟨hR _ _ h.1.1, ih true h.1.2⟩, fun n hn => ⟨hR _ _ (h.2 n hn).1, ih false (h.2 n hn).2⟩⟩

theorem wp_post {m : Prog σ α} (h : m.wp F R Q s) (hQ : ∀ a t, Q a t → Q' a t) :
    m.wp F R Q' s :=
  wp_mono h hQ fun _ _ => id

/-- A chain of programs each of which keeps a transitive relation keeps it. -/
theorem wp_bind_trans {m : Prog σ α} {f : α → Prog σ β} (htrans : ∀ s t u, R s t → R t u → R s u)
    (hm : m.wp F R (fun _ t => R s t) s)
    (hf : ∀ a t, R s t → (f a).wp F R (fun _ u => R t u) t) :
    (m >>= f).wp F R (fun _ u => R s u) s := by
  rw [wp_bind]
  refine wp_post hm fun a t hst => ?_
  exact wp_post (hf a t hst) fun _ u htu => htrans s t u hst htu

/-- Any program takes steps within the full relation. -/
theorem wp_trivial (m : Prog σ α) (hR : ∀ t u, R t u) : m.wp F R (fun _ _ => True) s := by
  induction m generalizing s with
  | ret a => trivial
  | observe next ih => exact ih s
  | act f next ih => exact ⟨hR _ _, ih⟩
  | risk ok bad next ih => exact ⟨⟨hR _ _, ih true⟩, fun _ _ => ⟨hR _ _, ih false⟩⟩

/-- A loop that stops at the first failure: `I done` holds while the elements `done` are
finished. -/
theorem wp_forEach {body : α → Prog σ Bool} (I : List α → σ → Prop) (bad : σ → Prop) (as : List α)
    (hbody : ∀ done a rest t, as = done ++ a :: rest → I done t →
      (body a).wp F R (fun ok u => if ok then I (done ++ [a]) u else bad u) t) (h : I [] s) :
    (forEach body as).wp F R (fun ok t => if ok then I as t else bad t) s := by
  suffices hgen : ∀ done rest t, as = done ++ rest → I done t →
      (forEach body rest).wp F R (fun ok u => if ok then I as u else bad u) t from
    hgen [] as s rfl h
  intro done rest
  induction rest generalizing done with
  | nil =>
    intro t heq ht
    have hdone : as = done := by simpa using heq
    simpa [forEach, hdone] using ht
  | cons a rest ih =>
    intro t heq ht
    rw [forEach, wp_bind]
    refine wp_post (hbody done a rest t heq ht) fun ok u hu => ?_
    cases ok with
    | true => exact ih (done ++ [a]) u (by simpa using heq) (by simpa using hu)
    | false => simpa using hu

/-- A program on a part of the store leaves the rest alone. -/
theorem wp_zoom {get : τ → σ} {set : σ → τ → τ} {R : τ → τ → Prop} {Q : α → τ → Prop}
    {m : Prog σ α} {t : τ} (hget : ∀ s t, get (set s t) = s)
    (hset : ∀ s s' t, set s (set s' t) = set s t) (hget' : set (get t) t = t) :
    (m.zoom get set).wp F R Q t ↔
      m.wp F (fun s s' => R (set s t) (set s' t)) (fun a s => Q a (set s t)) (get t) := by
  suffices hgen : ∀ s, (m.zoom get set).wp F R Q (set s t) ↔
      m.wp F (fun s s' => R (set s t) (set s' t)) (fun a s => Q a (set s t)) s by
    rw [← hgen, hget']
  intro s
  induction m generalizing s with
  | ret a => rfl
  | observe next ih =>
    simp only [zoom, wp, hget]
    exact ih s s
  | act f next ih =>
    simp only [zoom, wp, hget, hset]
    exact and_congr Iff.rfl (ih _)
  | risk ok bad next ih =>
    simp only [zoom, wp, hget, hset]
    exact and_congr (and_congr Iff.rfl (ih true _))
      (forall_congr' fun n => imp_congr Iff.rfl (and_congr Iff.rfl (ih false _)))

theorem wp_run_aux {m : Prog σ α} (r : Run σ) (h : m.wp F R Q r.store)
    (hF : ∀ o ∈ r.faults, F o) :
    Q (m.run r).1 (m.run r).2.store ∧
      ∃ seen, (m.run r).2.past = seen ++ r.past ∧ Moves R r.store seen (m.run r).2.store := by
  induction m generalizing r with
  | ret a => exact ⟨h, [], rfl, .refl⟩
  | observe next ih => exact ih r.store r h hF
  | act f next ih =>
    obtain ⟨hQ, seen, hpast, hmoves⟩ :=
      ih { r with store := f r.store, past := r.store :: r.past } h.2 hF
    exact ⟨hQ, seen ++ [r.store], by simpa [run] using hpast, (Moves.single h.1).trans hmoves⟩
  | risk ok bad next ih =>
    obtain ⟨s, faults, past⟩ := r
    match faults, hF with
    | [], hF =>
      obtain ⟨hQ, seen, hpast, hmoves⟩ := ih true ⟨ok s, [], s :: past⟩ h.1.2 hF
      exact ⟨hQ, seen ++ [s], by simpa [run] using hpast, (Moves.single h.1.1).trans hmoves⟩
    | .done :: faults, hF =>
      obtain ⟨hQ, seen, hpast, hmoves⟩ := ih true ⟨ok s, faults, s :: past⟩ h.1.2
        fun o ho => hF o (List.mem_cons_of_mem _ ho)
      exact ⟨hQ, seen ++ [s], by simpa [run] using hpast, (Moves.single h.1.1).trans hmoves⟩
    | .fail n :: faults, hF =>
      have hn := hF _ List.mem_cons_self
      obtain ⟨hQ, seen, hpast, hmoves⟩ := ih false ⟨bad n s, faults, s :: past⟩ (h.2 n hn).2
        fun o ho => hF o (List.mem_cons_of_mem _ ho)
      exact ⟨hQ, seen ++ [s], by simpa [run] using hpast, (Moves.single (h.2 n hn).1).trans hmoves⟩

theorem run_bind (m : Prog σ α) (f : α → Prog σ β) (r : Run σ) :
    (m >>= f).run r = (f (m.run r).1).run (m.run r).2 := by
  change (bind m f).run r = _
  induction m generalizing r with
  | ret a => rfl
  | observe next ih => exact ih r.store r
  | act g next ih => exact ih _
  | risk ok bad next ih =>
    obtain ⟨s, faults, past⟩ := r
    match faults with
    | [] => exact ih true _
    | .done :: faults => exact ih true _
    | .fail n :: faults => exact ih false _

/-- What `wp` says about a run. -/
theorem wp_run {m : Prog σ α} (h : m.wp F R Q s) {faults : List Outcome}
    (hF : ∀ o ∈ faults, F o) :
    Q (m.exec s faults).1 (m.exec s faults).2.store ∧
      Moves R s (m.exec s faults).2.past (m.exec s faults).2.store := by
  obtain ⟨hQ, seen, hpast, hmoves⟩ := wp_run_aux ⟨s, faults, []⟩ h hF
  rw [List.append_nil] at hpast
  exact ⟨hQ, hpast ▸ hmoves⟩

/-- A run in which everything succeeds. -/
theorem wp_exec {m : Prog σ α} (h : m.wp F R Q s) :
    Q (m.exec s []).1 (m.exec s []).2.store ∧
      Moves R s (m.exec s []).2.past (m.exec s []).2.store :=
  wp_run h (by simp)

end Prog
