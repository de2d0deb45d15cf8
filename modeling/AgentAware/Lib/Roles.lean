import AgentAware.Lib.Prog

/-!
# Which failures a program survives

A program succeeds or fails as a whole, and the failure of one of its steps may mean different things
to it. The roles of its steps, in order, decide for any outcomes whether the program succeeds, and how
many of the outcomes it takes.

## Main definitions

- `Role`, `Role.survive` — what a failure means, and whether outcomes are survived
- `Prog.Follows` — a program succeeds exactly when its roles survive

## Main results

- `Role.survive_append` — steps one after the other
- `Prog.Follows.bind`, `Prog.Follows.andThen`, `Prog.follows_forEach`, `Prog.follows_zoom` — composition
- `Prog.Follows.and_quiet` — what a program does when nothing fails, where all its steps are required
-/

/-- What the failure of a fallible step means: that the program fails, nothing, or that a step whose
failure means nothing and a second try follow. -/
inductive Role
  | required
  | ignored
  | retried
  deriving DecidableEq, Repr

namespace Role

/-- The outcomes that steps with these roles leave over, when the program survives them. -/
def survive : List Role → List Outcome → Option (List Outcome)
  | [], faults => some faults
  | _ :: _, [] => some []
  | .required :: roles, .done :: faults => survive roles faults
  | .required :: _, .fail _ :: _ => none
  | .ignored :: roles, _ :: faults => survive roles faults
  | .retried :: roles, .done :: faults => survive roles faults
  | .retried :: roles, .fail _ :: faults => survive (.ignored :: .required :: roles) faults

@[simp] theorem survive_nil (faults : List Outcome) : survive [] faults = some faults := by
  cases faults <;> rfl

@[simp] theorem survive_quiet (roles : List Role) : survive roles [] = some [] := by
  cases roles <;> rfl

theorem survive_append (roles roles' : List Role) (faults : List Outcome) :
    survive (roles ++ roles') faults = (survive roles faults).bind (survive roles') := by
  induction faults generalizing roles with
  | nil => simp
  | cons outcome faults ih =>
    cases roles with
    | nil => simp
    | cons role roles =>
      cases role with
      | required => cases outcome <;> simp [survive, ih]
      | ignored => simp [survive, ih]
      | retried =>
        cases outcome with
        | done => simp [survive, ih]
        | fail n =>
          -- the failure is used up, and two more steps come in front of the others
          exact ih (.ignored :: .required :: roles)

/-- Required steps survive outcomes that are all successes. -/
theorem done_of_survive {roles : List Role} {faults rest : List Outcome}
    (hroles : ∀ role ∈ roles, role = .required) (h : survive roles faults = some rest) :
    ∃ taken, faults = taken ++ rest ∧ ∀ outcome ∈ taken, outcome = .done := by
  induction roles generalizing faults with
  | nil =>
    rw [survive_nil] at h
    exact ⟨[], Option.some.inj h, fun _ ho => absurd ho List.not_mem_nil⟩
  | cons role roles ih =>
    obtain rfl := hroles role List.mem_cons_self
    cases faults with
    | nil =>
      rw [survive_quiet] at h
      exact ⟨[], Option.some.inj h, fun _ ho => absurd ho List.not_mem_nil⟩
    | cons outcome faults =>
      cases outcome with
      | done =>
        obtain ⟨taken, rfl, htaken⟩ := ih (fun r hr => hroles r (List.mem_cons_of_mem _ hr)) h
        exact ⟨.done :: taken, rfl, List.forall_mem_cons.mpr ⟨rfl, htaken⟩⟩
      | fail n => cases h

end Role

namespace Prog

open Role

variable {σ τ α β : Type} {F : Outcome → Prop} {R : σ → σ → Prop} {s : σ}
  {roles roles' roles'' : List Role} {Q Q' : α → σ → Prop} {B : α → Prop}

/-- Started at `s`, the program succeeds as `Q` says and takes the outcomes of its roles when they
survive, and otherwise answers as `B` says. -/
def Follows (roles : List Role) (m : Prog σ α) (Q : α → σ → Prop) (B : α → Prop) (s : σ) : Prop :=
  ∀ r : Run σ, r.store = s →
    (∀ rest, survive roles r.faults = some rest →
      Q (m.run r).1 (m.run r).2.store ∧ (m.run r).2.faults = rest) ∧
    (survive roles r.faults = none → B (m.run r).1)

/-- A program that never succeeds. -/
theorem follows_refused {m : Prog σ α} (h : m.wp Faulty (fun _ _ => True) (fun a _ => B a) s) :
    ∀ r : Run σ, r.store = s → B (m.run r).1 := by
  rintro r rfl
  exact (wp_run_aux r h fun _ _ => trivial).1

theorem follows_pure {a : α} (h : Q a s) : Follows [] (pure a : Prog σ α) Q B s := by
  rintro r rfl
  refine ⟨fun rest hrest => ⟨h, ?_⟩, fun hnone => ?_⟩
  · rw [survive_nil] at hrest
    exact Option.some.inj hrest
  · rw [survive_nil] at hnone
    cases hnone

theorem follows_look {f : σ → Prog σ α} (h : Follows roles (f s) Q B s) :
    Follows roles (look >>= f) Q B s := by
  rintro r rfl
  exact h r rfl

theorem follows_step {f : σ → σ} {next : Unit → Prog σ α} (h : Follows roles (next ()) Q B (f s)) :
    Follows roles (step f >>= next) Q B s := by
  rintro r rfl
  exact h { r with store := f r.store, past := r.store :: r.past } rfl

theorem follows_lastStep {f : σ → σ} {B : Unit → Prop} :
    Follows [] (step f) (fun _ t => t = f s) B s := by
  have hstep : Follows [] (step f >>= pure) (fun _ t => t = f s) B s :=
    follows_step (follows_pure rfl)
  exact hstep

theorem follows_next {a : β} {f : β → Prog σ α} (h : Follows roles (f a) Q B s) :
    Follows roles (pure a >>= f) Q B s := h

theorem follows_attempt {ok : σ → σ} {bad : ℕ → σ → σ} :
    Follows [.required] (attempt ok bad) (fun done t => done = true ∧ t = ok s)
      (fun done => done = false) s := by
  rintro ⟨s, faults, past⟩ rfl
  match faults with
  | [] => exact ⟨fun rest hrest => ⟨⟨rfl, rfl⟩, Option.some.inj hrest⟩, fun hnone => by cases hnone⟩
  | .done :: faults =>
    refine ⟨fun rest hrest => ⟨⟨rfl, rfl⟩, ?_⟩, fun hnone => ?_⟩
    · rw [survive, survive_nil] at hrest
      exact Option.some.inj hrest
    · rw [survive, survive_nil] at hnone
      cases hnone
  | .fail n :: faults => exact ⟨fun rest hrest => absurd hrest (by simp [survive]), fun _ => rfl⟩

/-- A step whose failure is ignored. -/
theorem follows_ignored {ok : σ → σ} {bad : ℕ → σ → σ} :
    Follows [.ignored] (attempt ok bad) (fun _ _ => True) (fun _ => False) s := by
  rintro ⟨s, faults, past⟩ rfl
  match faults with
  | [] => exact ⟨fun rest hrest => ⟨trivial, Option.some.inj hrest⟩, fun hnone => by cases hnone⟩
  | .done :: faults | .fail n :: faults =>
    refine ⟨fun rest hrest => ⟨trivial, ?_⟩, fun hnone => ?_⟩
    · rw [survive, survive_nil] at hrest
      exact Option.some.inj hrest
    · rw [survive, survive_nil] at hnone
      cases hnone

theorem Follows.post {m : Prog σ α} {B' : α → Prop} (h : Follows roles m Q B s)
    (hQ : ∀ a t, Q a t → Q' a t) (hB : ∀ a, B a → B' a) : Follows roles m Q' B' s := by
  intro r hr
  obtain ⟨hgood, hbad⟩ := h r hr
  exact ⟨fun rest hrest => ⟨hQ _ _ (hgood rest hrest).1, (hgood rest hrest).2⟩,
    fun hnone => hB _ (hbad hnone)⟩

/-- Steps one after the other; when the first have failed, so does the whole. -/
theorem Follows.bind {m : Prog σ α} {f : α → Prog σ β} {Q' : β → σ → Prop} {B' : β → Prop}
    (h : Follows roles m Q B s) (hf : ∀ a t, Q a t → Follows roles' (f a) Q' B' t)
    (hbad : ∀ a t, B a → (f a).wp Faulty (fun _ _ => True) (fun b _ => B' b) t) :
    Follows (roles ++ roles') (m >>= f) Q' B' s := by
  intro r hr
  obtain ⟨hgood, hfail⟩ := h r hr
  rw [run_bind, survive_append]
  cases hfirst : survive roles r.faults with
  | none =>
    refine ⟨fun rest hrest => ?_, fun _ => ?_⟩
    · cases hrest
    · exact (wp_run_aux _ (hbad _ _ (hfail hfirst)) fun _ _ => trivial).1
  | some rest =>
    obtain ⟨hQ, hrest⟩ := hgood rest hfirst
    have hnext := hf _ _ hQ (m.run r).2 rfl
    rw [hrest] at hnext
    exact hnext

theorem Follows.succeeds {m : Prog σ Bool}
    (h : Follows roles m (fun ok _ => ok = true) (fun ok => ok = false) s) :
    Follows roles m (fun ok _ => ok = true ∧ True) (fun ok => ok = false) s :=
  h.post (fun _ _ hok => ⟨hok, trivial⟩) fun _ hok => hok

/-- What follows a step that cannot fail, or comes behind the last step that can. -/
theorem Follows.bindLast {m : Prog σ α} {f : α → Prog σ β} {Q' : β → σ → Prop} {B' : β → Prop}
    (h : Follows roles m Q B s) (hf : ∀ a t, Q a t → Follows [] (f a) Q' B' t)
    (hbad : ∀ a t, B a → (f a).wp Faulty (fun _ _ => True) (fun b _ => B' b) t) :
    Follows roles (m >>= f) Q' B' s := by
  have hboth := h.bind hf hbad
  rw [List.append_nil] at hboth
  exact hboth

/-- The next step is only taken when the first has succeeded. -/
theorem Follows.andThen {m : Prog σ Bool} {f g : Prog σ α} {Q' : σ → Prop}
    (h : Follows roles m (fun ok t => ok = true ∧ Q' t) (fun ok => ok = false) s)
    (hf : ∀ t, Q' t → Follows roles' f Q B t)
    (hg : ∀ t, g.wp Faulty (fun _ _ => True) (fun a _ => B a) t) :
    Follows (roles ++ roles') (m >>= fun ok => if ok then f else g) Q B s := by
  refine h.bind (fun ok t hok => ?_) fun ok t hok => ?_
  · rw [if_pos hok.1]
    exact hf t hok.2
  · rw [if_neg (by simp [hok])]
    exact hg t

/-- Two steps are taken before their results are looked at. -/
theorem Follows.bothThen {m m' : Prog σ Bool} {f g : Prog σ α}
    (h : Follows roles m (fun ok _ => ok = true) (fun ok => ok = false) s)
    (h' : ∀ t, Follows roles' m' (fun ok _ => ok = true) (fun ok => ok = false) t)
    (hf : ∀ t, Follows roles'' f Q B t)
    (hg : ∀ t, g.wp Faulty (fun _ _ => True) (fun a _ => B a) t) :
    Follows (roles ++ (roles' ++ roles''))
      (m >>= fun ok => m' >>= fun ok' => if ok && ok' then f else g) Q B s := by
  refine h.bind (fun ok t hok => (h' t).bind (fun ok' u hok' => ?_) fun ok' u hok' => ?_)
    fun ok t hok => ?_
  · rw [if_pos (by simp [hok, hok'])]
    exact hf u
  · rw [if_neg (by simp [hok'])]
    exact hg u
  · rw [wp_bind]
    refine wp_post (wp_trivial _ fun _ _ => trivial) fun ok' u _ => ?_
    rw [if_neg (by simp [hok])]
    exact hg u

/-- What a program answers whose success does not depend on the store. -/
theorem Follows.run_eq {m : Prog σ Bool} {b : Bool} {r : Run σ}
    (h : Follows roles m (fun ok _ => ok = b) (fun ok => ok = false) r.store) :
    (m.run r).1 = (b && (survive roles r.faults).isSome) := by
  obtain ⟨hgood, hbad⟩ := h r rfl
  cases hsurvive : survive roles r.faults with
  | none => simpa using hbad hsurvive
  | some rest => simpa using (hgood rest hsurvive).1

/-- A second try behind a step whose failure is ignored. -/
theorem follows_retry {ok ok' ok'' : σ → σ} {bad bad' bad'' : ℕ → σ → σ} :
    Follows [.retried] (do
      if ← attempt ok bad then return true
      else
        let _ ← attempt ok' bad'
        attempt ok'' bad'') (fun done _ => done = true) (fun done => done = false) s := by
  rintro ⟨s, faults, past⟩ rfl
  match faults with
  | [] => exact ⟨fun rest hrest => ⟨rfl, Option.some.inj hrest⟩, fun hnone => by cases hnone⟩
  | .done :: faults =>
    refine ⟨fun rest hrest => ⟨rfl, ?_⟩, fun hnone => ?_⟩
    · rw [survive, survive_nil] at hrest
      exact Option.some.inj hrest
    · rw [survive, survive_nil] at hnone
      cases hnone
  | .fail n :: faults =>
    have hsecond : ∀ t : σ, Follows ([.ignored] ++ [.required]) (do
        let _ ← attempt ok' bad'
        attempt ok'' bad'') (fun done _ => done = true) (fun done => done = false) t := fun t =>
      follows_ignored.bind (fun _ _ _ => follows_attempt.post (fun _ _ h => h.1) fun _ h => h)
        fun _ _ h => h.elim
    exact hsecond _ ⟨bad n s, faults, s :: past⟩ rfl

/-- A loop that stops at the first failure. -/
theorem follows_forEach {body : α → Prog σ Bool} {rolesOf : α → List Role} {as : List α}
    (hbody : ∀ a ∈ as, ∀ t, Follows (rolesOf a) (body a) (fun ok _ => ok = true)
      (fun ok => ok = false) t) :
    Follows (as.flatMap rolesOf) (forEach body as) (fun ok _ => ok = true) (fun ok => ok = false)
      s := by
  induction as generalizing s with
  | nil => exact follows_pure rfl
  | cons a as ih =>
    rw [List.flatMap_cons, forEach]
    refine (hbody a List.mem_cons_self s).bind (fun ok t hok => ?_) fun ok t hok => ?_
    · rw [if_pos hok]
      exact ih fun b hb => hbody b (List.mem_cons_of_mem _ hb)
    · rw [if_neg (by simp [hok])]
      rfl

/-- A program takes the first of the outcomes, and what it does depends on these only. -/
theorem exists_taken (m : Prog σ α) (r : Run σ) :
    ∃ taken, r.faults = taken ++ (m.run r).2.faults ∧
      ∀ (F : Outcome → Prop) (R : σ → σ → Prop) (Q : α → σ → Prop), m.wp F R Q r.store →
        (∀ n, .fail n ∈ taken → F (.fail n)) → Q (m.run r).1 (m.run r).2.store := by
  induction m generalizing r with
  | ret a => exact ⟨[], rfl, fun F R Q h _ => h⟩
  | observe next ih => exact ih r.store r
  | act f next ih =>
    obtain ⟨taken, htaken, hQ⟩ := ih { r with store := f r.store, past := r.store :: r.past }
    exact ⟨taken, htaken, fun F R Q h hF => hQ F R Q h.2 hF⟩
  | risk ok bad next ih =>
    obtain ⟨s, faults, past⟩ := r
    match faults with
    | [] =>
      obtain ⟨taken, htaken, hQ⟩ := ih true ⟨ok s, [], s :: past⟩
      exact ⟨taken, htaken, fun F R Q h hF => hQ F R Q h.1.2 hF⟩
    | .done :: faults =>
      obtain ⟨taken, htaken, hQ⟩ := ih true ⟨ok s, faults, s :: past⟩
      exact ⟨.done :: taken, congrArg (.done :: ·) htaken, fun F R Q h hF =>
        hQ F R Q h.1.2 fun n hn => hF n (List.mem_cons_of_mem _ hn)⟩
    | .fail n :: faults =>
      obtain ⟨taken, htaken, hQ⟩ := ih false ⟨bad n s, faults, s :: past⟩
      exact ⟨.fail n :: taken, congrArg (.fail n :: ·) htaken, fun F R Q h hF =>
        hQ F R Q (h.2 n (hF n List.mem_cons_self)).2 fun k hk => hF k (List.mem_cons_of_mem _ hk)⟩

/-- Where all steps are required, a program that succeeds has met no failure. -/
theorem Follows.and_quiet {m : Prog σ α} (h : Follows roles m Q B s)
    (hroles : ∀ role ∈ roles, role = .required) (hwp : m.wp Quiet R Q' s) :
    Follows roles m (fun a t => Q a t ∧ Q' a t) B s := by
  rintro r rfl
  obtain ⟨hgood, hbad⟩ := h r rfl
  refine ⟨fun rest hrest => ⟨⟨(hgood rest hrest).1, ?_⟩, (hgood rest hrest).2⟩, hbad⟩
  obtain ⟨taken, htaken, hQ⟩ := exists_taken m r
  obtain ⟨done, hdone, hall⟩ := done_of_survive hroles hrest
  rw [(hgood rest hrest).2] at htaken
  obtain rfl := List.append_cancel_right (htaken.symm.trans hdone)
  exact hQ Quiet R Q' hwp fun n hn => by cases hall _ hn

/-- What holds whatever fails. -/
theorem Follows.and_faulty {m : Prog σ α} (h : Follows roles m Q B s) (hwp : m.wp Faulty R Q' s) :
    Follows roles m (fun a t => Q a t ∧ Q' a t) B s := by
  rintro r rfl
  obtain ⟨hgood, hbad⟩ := h r rfl
  exact ⟨fun rest hrest => ⟨⟨(hgood rest hrest).1, (wp_run_aux r hwp fun _ _ => trivial).1⟩,
    (hgood rest hrest).2⟩, hbad⟩

/-- A program on a part of the store runs as it does on that part alone. -/
theorem run_zoom {get : τ → σ} {set : σ → τ → τ} (hget : ∀ s t, get (set s t) = s)
    (hset : ∀ s s' t, set s (set s' t) = set s t) (hget' : ∀ t, set (get t) t = t) (m : Prog σ α)
    (r : Run τ) (past : List σ) :
    ((m.zoom get set).run r).1 = (m.run ⟨get r.store, r.faults, past⟩).1 ∧
      ((m.zoom get set).run r).2.faults = (m.run ⟨get r.store, r.faults, past⟩).2.faults ∧
      ((m.zoom get set).run r).2.store =
        set (m.run ⟨get r.store, r.faults, past⟩).2.store r.store := by
  induction m generalizing r past with
  | ret a => exact ⟨rfl, rfl, (hget' r.store).symm⟩
  | observe next ih => exact ih (get r.store) r past
  | act f next ih =>
    have hnext := ih { r with store := set (f (get r.store)) r.store, past := r.store :: r.past }
      (get r.store :: past)
    simp only [hget, hset] at hnext
    exact hnext
  | risk ok bad next ih =>
    obtain ⟨t, faults, seen⟩ := r
    match faults with
    | [] =>
      have hnext := ih true ⟨set (ok (get t)) t, [], t :: seen⟩ (get t :: past)
      simp only [hget, hset] at hnext
      exact hnext
    | .done :: faults =>
      have hnext := ih true ⟨set (ok (get t)) t, faults, t :: seen⟩ (get t :: past)
      simp only [hget, hset] at hnext
      exact hnext
    | .fail n :: faults =>
      have hnext := ih false ⟨set (bad n (get t)) t, faults, t :: seen⟩ (get t :: past)
      simp only [hget, hset] at hnext
      exact hnext

theorem follows_zoom {get : τ → σ} {set : σ → τ → τ} {m : Prog σ α} {Q : α → τ → Prop} {t : τ}
    (hget : ∀ s t, get (set s t) = s) (hset : ∀ s s' t, set s (set s' t) = set s t)
    (hget' : ∀ t, set (get t) t = t) (h : Follows roles m (fun a s => Q a (set s t)) B (get t)) :
    Follows roles (m.zoom get set) Q B t := by
  rintro r rfl
  obtain ⟨hvalue, hfaults, hstore⟩ := run_zoom hget hset hget' m r []
  rw [hvalue, hfaults, hstore]
  exact h ⟨get r.store, r.faults, []⟩ rfl

end Prog
