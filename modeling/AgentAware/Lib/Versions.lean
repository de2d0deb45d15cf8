import Mathlib.Data.List.AList
import Mathlib.Data.List.Induction
import Mathlib.Data.List.Sort
import Mathlib.Tactic.Common

/-!
# Newest versions

Values carry a key and a version, and a log of them is read by taking, for each key, the value of
the largest version; among equal versions the one met first wins. This file computes that value
in three ways (one key, a table of all keys, a sorted list), shows that they agree, and says which
logs cannot be told apart by reading them.

## Main definitions

- `Versions.newest` — the newest value of one key
- `Versions.table`, `Versions.newestList` — the newest value of every key
- `Versions.firsts` — drop what has the same image as an earlier element
- `Versions.Wins` — the first of the newest values of its key
- `Versions.Covers` — a log that may have lost superseded values only

## Main results

- `Versions.newest_append` — reading a concatenation
- `Versions.lookup_table`, `Versions.mem_newestList` — the three readings agree
- `Versions.newest_eq_of_covers` — covering logs read the same
- `Versions.newest_firsts` — so does a log without its repeated versions
-/

namespace Versions

variable {α κ β : Type} [DecidableEq κ] [DecidableEq β] (key : α → κ) (ver : α → ℕ)

/-- Keep what was found unless the new value has a larger version. -/
def pick : Option α → α → Option α
  | none, a => some a
  | some b, a => if ver b < ver a then some a else some b

/-- The newest value of key `k`. -/
def newest (log : List α) (k : κ) : Option α :=
  log.foldl (fun found a => if key a = k then pick ver found a else found) none

/-- Put `a` in the table unless the table has a value of its key that is as new. -/
def record (t : AList fun _ : κ => α) (a : α) : AList fun _ : κ => α :=
  match t.lookup (key a) with
  | none => t.insert (key a) a
  | some b => if ver b < ver a then t.insert (key a) a else t

/-- The newest value of every key. -/
def table (log : List α) : AList fun _ : κ => α := log.foldl (record key ver) ∅

/-- The newest values in the order of their keys. -/
def newestList {κ : Type} [LinearOrder κ] (key : α → κ) (log : List α) : List α :=
  ((table key ver log).entries.map Sigma.snd).insertionSort fun a b => key a ≤ key b

/-- Drop every element whose image was seen before. -/
def firstsFrom (f : α → β) : List β → List α → List α
  | _, [] => []
  | seen, a :: log =>
    if f a ∈ seen then firstsFrom f seen log else a :: firstsFrom f (f a :: seen) log

/-- The first element of each image. -/
def firsts (f : α → β) (log : List α) : List α := firstsFrom f [] log

/-- No two values share key and version. -/
def Functional (log : List α) : Prop :=
  ∀ a ∈ log, ∀ b ∈ log, key a = key b → ver a = ver b → a = b

/-- `part` is a selection from `log` that has lost superseded values only. -/
def Covers (part log : List α) : Prop :=
  (∀ a ∈ part, a ∈ log) ∧ ∀ b ∈ log, ∃ a ∈ part, key a = key b ∧ ver b ≤ ver a

/-- A value is newer than those of its key in front of it, and as new as those behind it. -/
def Wins (log : List α) (a : α) : Prop :=
  ∃ before after, log = before ++ a :: after ∧ (∀ b ∈ before, key b = key a → ver b < ver a) ∧
    ∀ b ∈ after, key b = key a → ver b ≤ ver a

/-- What is left of two readings, the first one made earlier. -/
def join : Option α → Option α → Option α
  | found, none => found
  | found, some a => pick ver found a

section Newest

variable {key ver} {log log' : List α} {k : κ} {a b : α}

theorem join_pick (found next : Option α) (a : α) :
    join ver found (pick ver next a) = pick ver (join ver found next) a := by
  cases next with
  | none => rfl
  | some c =>
    cases found with
    | none => by_cases hca : ver c < ver a <;> simp [pick, join, hca]
    | some b =>
      by_cases hca : ver c < ver a <;> by_cases hbc : ver b < ver c <;>
        by_cases hba : ver b < ver a <;> simp [pick, join, hca, hbc, hba] <;> omega

@[simp] theorem newest_nil : newest key ver [] k = none := rfl

theorem foldl_pick (found : Option α) (log : List α) :
    log.foldl (fun found a => if key a = k then pick ver found a else found) found =
      join ver found (newest key ver log k) := by
  induction log using List.reverseRecOn with
  | nil => rfl
  | append_singleton log a ih =>
    rw [newest, List.foldl_append, List.foldl_append, ih, ← newest]
    simp only [List.foldl_cons, List.foldl_nil]
    split
    · rw [join_pick]
    · rfl

theorem newest_append :
    newest key ver (log ++ log') k = join ver (newest key ver log k) (newest key ver log' k) := by
  rw [newest, List.foldl_append, foldl_pick]
  rfl

theorem newest_concat_of_ne (h : key a ≠ k) :
    newest key ver (log ++ [a]) k = newest key ver log k := by
  rw [newest_append]
  simp [newest, h, join]

theorem newest_concat (h : key a = k) :
    newest key ver (log ++ [a]) k = pick ver (newest key ver log k) a := by
  rw [newest_append]
  simp [newest, h, join, pick]

theorem newest_eq_none_iff : newest key ver log k = none ↔ ∀ a ∈ log, key a ≠ k := by
  induction log using List.reverseRecOn with
  | nil => simp
  | append_singleton log a ih =>
    by_cases ha : key a = k
    · rw [newest_concat ha]
      have hpick : pick ver (newest key ver log k) a ≠ none := by
        cases newest key ver log k with
        | none => simp [pick]
        | some b => simp only [pick]; split <;> simp
      simp [hpick, ha]
    · rw [newest_concat_of_ne ha, ih]
      simp only [List.mem_append, List.mem_singleton, or_imp, forall_and, forall_eq]
      exact ⟨fun h => ⟨h, ha⟩, fun h => h.1⟩

theorem mem_of_newest (h : newest key ver log k = some a) : a ∈ log ∧ key a = k := by
  induction log using List.reverseRecOn generalizing a with
  | nil => simp at h
  | append_singleton log c ih =>
    by_cases hc : key c = k
    · rw [newest_concat hc] at h
      cases hlog : newest key ver log k with
      | none =>
        rw [hlog, pick, Option.some.injEq] at h
        exact ⟨by simp [h], h ▸ hc⟩
      | some d =>
        rw [hlog, pick] at h
        split at h <;> cases h
        · exact ⟨by simp, hc⟩
        · exact ⟨List.mem_append_left _ (ih hlog).1, (ih hlog).2⟩
    · rw [newest_concat_of_ne hc] at h
      exact ⟨List.mem_append_left _ (ih h).1, (ih h).2⟩

/-- No value of the key is newer than the one found. -/
theorem ver_le_of_newest (h : newest key ver log k = some a) (hb : b ∈ log) (hk : key b = k) :
    ver b ≤ ver a := by
  induction log using List.reverseRecOn generalizing a with
  | nil => simp at hb
  | append_singleton log c ih =>
    by_cases hc : key c = k
    · rw [newest_concat hc] at h
      cases hlog : newest key ver log k with
      | none =>
        rw [hlog, pick, Option.some.injEq] at h
        rcases List.mem_append.mp hb with hb | hb
        · exact absurd hk (newest_eq_none_iff.mp hlog b hb)
        · rw [List.mem_singleton.mp hb, h]
      | some d =>
        rw [hlog, pick] at h
        rcases List.mem_append.mp hb with hb | hb
        · have hbd := ih hlog hb
          split at h <;> cases h <;> omega
        · rw [List.mem_singleton.mp hb]
          split at h <;> cases h <;> omega
    · rw [newest_concat_of_ne hc] at h
      rcases List.mem_append.mp hb with hb | hb
      · exact ih h hb
      · exact absurd (List.mem_singleton.mp hb ▸ hk) hc

theorem exists_newest (hb : b ∈ log) : ∃ a, newest key ver log (key b) = some a := by
  cases h : newest key ver log (key b) with
  | none => exact absurd rfl (newest_eq_none_iff.mp h b hb)
  | some a => exact ⟨a, rfl⟩

/-- Reading a key looks at the values of that key only. -/
theorem newest_filter_key (p : κ → Bool) (log : List α) (k : κ) :
    newest key ver (log.filter fun a => p (key a)) k = if p k then newest key ver log k else none := by
  induction log using List.reverseRecOn with
  | nil => simp
  | append_singleton log a ih =>
    by_cases hp : p (key a) = true
    · have hfilter : (log ++ [a]).filter (fun a => p (key a)) =
          log.filter (fun a => p (key a)) ++ [a] := by
        simp [hp]
      rw [hfilter]
      by_cases hk : key a = k
      · rw [newest_concat hk, newest_concat hk, ih, ← hk, if_pos hp, if_pos hp]
      · rw [newest_concat_of_ne hk, newest_concat_of_ne hk, ih]
    · have hfilter : (log ++ [a]).filter (fun a => p (key a)) =
          log.filter fun a => p (key a) := by
        simp [hp]
      rw [hfilter, ih]
      by_cases hk : key a = k
      · rw [← hk, if_neg hp, if_neg hp]
      · rw [newest_concat_of_ne hk]

/-- In a log without two values of one key and version, the newest value is the one no other value
of its key exceeds. -/
theorem newest_eq_some_iff (hlog : Functional key ver log) :
    newest key ver log k = some a ↔
      a ∈ log ∧ key a = k ∧ ∀ b ∈ log, key b = k → ver b ≤ ver a := by
  constructor
  · intro h
    exact ⟨(mem_of_newest h).1, (mem_of_newest h).2, fun b hb hk => ver_le_of_newest h hb hk⟩
  · rintro ⟨hmem, rfl, hmax⟩
    obtain ⟨c, hc⟩ : ∃ c, newest key ver log (key a) = some c := exists_newest hmem
    have hle := ver_le_of_newest hc hmem rfl
    have hge := hmax c (mem_of_newest hc).1 (mem_of_newest hc).2
    rw [hc, hlog c (mem_of_newest hc).1 a hmem (mem_of_newest hc).2 (by omega)]

omit [DecidableEq κ] in
theorem wins_concat {c : α} :
    Wins key ver (log ++ [c]) a ↔ (Wins key ver log a ∧ (key c = key a → ver c ≤ ver a)) ∨
      (c = a ∧ ∀ b ∈ log, key b = key a → ver b < ver a) := by
  constructor
  · rintro ⟨before, after, hlog, hbefore, hafter⟩
    rcases List.eq_nil_or_concat' after with rfl | ⟨after, d, rfl⟩
    · obtain ⟨rfl, hlast⟩ := List.append_inj' hlog rfl
      cases hlast
      exact Or.inr ⟨rfl, hbefore⟩
    · rw [← List.cons_append, ← List.append_assoc] at hlog
      obtain ⟨rfl, hlast⟩ := List.append_inj' hlog rfl
      cases hlast
      refine Or.inl ⟨⟨before, after, rfl, hbefore, fun b hb => ?_⟩, hafter c (by simp)⟩
      exact hafter b (List.mem_append_left _ hb)
  · rintro (⟨⟨before, after, rfl, hbefore, hafter⟩, hc⟩ | ⟨rfl, hbefore⟩)
    · refine ⟨before, after ++ [c], by simp, hbefore, fun b hb => ?_⟩
      rcases List.mem_append.mp hb with hb | hb
      · exact hafter b hb
      · exact (List.mem_singleton.mp hb) ▸ hc
    · exact ⟨log, [], rfl, hbefore, nofun⟩

/-- The newest value of a key is the first of those with the largest version. -/
theorem newest_eq_some_iff_wins :
    newest key ver log k = some a ↔ key a = k ∧ Wins key ver log a := by
  induction log using List.reverseRecOn generalizing a with
  | nil =>
    refine iff_of_false (by simp) ?_
    rintro ⟨-, before, after, hnil, -⟩
    simp at hnil
  | append_singleton log c ih =>
    rw [wins_concat]
    by_cases hc : key c = k
    · rw [newest_concat hc]
      cases hlog : newest key ver log k with
      | none =>
        have hother := newest_eq_none_iff.mp hlog
        constructor
        · intro h
          obtain rfl := Option.some.inj h
          exact ⟨hc, Or.inr ⟨rfl, fun b hb hk => absurd (hk.trans hc) (hother b hb)⟩⟩
        · rintro ⟨hk, ⟨⟨before, after, rfl, -⟩, -⟩ | ⟨rfl, -⟩⟩
          · exact absurd hk (hother a (by simp))
          · rfl
      | some d =>
        obtain ⟨hd, hwins⟩ := ih.mp hlog
        rw [pick]
        split_ifs with hver
        · constructor
          · intro h
            obtain rfl := Option.some.inj h
            refine ⟨hc, Or.inr ⟨rfl, fun b hb hk => ?_⟩⟩
            exact lt_of_le_of_lt (ver_le_of_newest hlog hb (hk.trans hc)) hver
          · rintro ⟨hk, ⟨ha, hle⟩ | ⟨rfl, -⟩⟩
            · obtain rfl := Option.some.inj (hlog.symm.trans (ih.mpr ⟨hk, ha⟩))
              exact absurd (hle (hc.trans hk.symm)) (not_le.mpr hver)
            · rfl
        · constructor
          · intro h
            obtain rfl := Option.some.inj h
            exact ⟨hd, Or.inl ⟨hwins, fun _ => not_lt.mp hver⟩⟩
          · rintro ⟨hk, ⟨ha, -⟩ | ⟨rfl, hless⟩⟩
            · rw [← hlog, ih.mpr ⟨hk, ha⟩]
            · exact absurd (hless d (mem_of_newest hlog).1 (hd.trans hk.symm)) hver
    · rw [newest_concat_of_ne hc, ih]
      constructor
      · rintro ⟨hk, hwins⟩
        exact ⟨hk, Or.inl ⟨hwins, fun h => absurd (h.trans hk) hc⟩⟩
      · rintro ⟨hk, ⟨hwins, -⟩ | ⟨rfl, -⟩⟩
        · exact ⟨hk, hwins⟩
        · exact absurd hk hc

/-- The last value wins when it is newer than everything before it. -/
theorem newest_concat_of_lt (h : ∀ b ∈ log, ver b < ver a) :
    newest key ver (log ++ [a]) (key a) = some a := by
  rw [newest_concat rfl]
  cases hlog : newest key ver log (key a) with
  | none => rfl
  | some b => simp [pick, h b (mem_of_newest hlog).1]

end Newest

section Covers

variable {key ver} {part part' log log' : List α}

omit [DecidableEq κ]

theorem Functional.mono (h : Functional key ver log) (hsub : ∀ a ∈ part, a ∈ log) :
    Functional key ver part :=
  fun a ha b hb => h a (hsub a ha) b (hsub b hb)

theorem Covers.refl (log : List α) : Covers key ver log log :=
  ⟨fun _ => id, fun b hb => ⟨b, hb, rfl, le_rfl⟩⟩

theorem Covers.trans (h : Covers key ver part part') (h' : Covers key ver part' log) :
    Covers key ver part log := by
  refine ⟨fun a ha => h'.1 a (h.1 a ha), fun b hb => ?_⟩
  obtain ⟨c, hc, hkey, hver⟩ := h'.2 b hb
  obtain ⟨a, ha, hkey', hver'⟩ := h.2 c hc
  exact ⟨a, ha, hkey'.trans hkey, hver.trans hver'⟩

theorem Covers.append (h : Covers key ver part log) (h' : Covers key ver part' log') :
    Covers key ver (part ++ part') (log ++ log') := by
  refine ⟨fun a ha => ?_, fun b hb => ?_⟩
  · rcases List.mem_append.mp ha with ha | ha
    · exact List.mem_append_left _ (h.1 a ha)
    · exact List.mem_append_right _ (h'.1 a ha)
  · rcases List.mem_append.mp hb with hb | hb
    · obtain ⟨a, ha, hab⟩ := h.2 b hb
      exact ⟨a, List.mem_append_left _ ha, hab⟩
    · obtain ⟨a, ha, hab⟩ := h'.2 b hb
      exact ⟨a, List.mem_append_right _ ha, hab⟩

/-- What covers part of a log and adds values of the log covers the log. -/
theorem Covers.mono (h : Covers key ver part log) (hpart : ∀ a ∈ part, a ∈ part')
    (hlog : ∀ a ∈ part', a ∈ log) : Covers key ver part' log := by
  refine ⟨hlog, fun b hb => ?_⟩
  obtain ⟨a, ha, hab⟩ := h.2 b hb
  exact ⟨a, hpart a ha, hab⟩

end Covers

section ReadCovers

variable {key ver} {part log : List α}

/-- A log that has lost superseded values only reads as the whole log. -/
theorem newest_eq_of_covers (hlog : Functional key ver log) (h : Covers key ver part log) (k : κ) :
    newest key ver part k = newest key ver log k := by
  cases hpart : newest key ver part k with
  | none =>
    refine (newest_eq_none_iff.mpr fun b hb hk => ?_).symm
    obtain ⟨a, ha, hkey, _⟩ := h.2 b hb
    exact newest_eq_none_iff.mp hpart a ha (hkey.trans hk)
  | some a =>
    refine ((newest_eq_some_iff hlog).mpr
      ⟨h.1 a (mem_of_newest hpart).1, (mem_of_newest hpart).2, fun b hb hk => ?_⟩).symm
    obtain ⟨c, hc, hkey, hver⟩ := h.2 b hb
    exact hver.trans (ver_le_of_newest hpart hc (hkey.trans hk))

/-- A list that holds the newest value of every key, and nothing else, covers the log. -/
theorem covers_of_newest (h : ∀ a, a ∈ part ↔ newest key ver log (key a) = some a) :
    Covers key ver part log := by
  refine ⟨fun a ha => (mem_of_newest ((h a).mp ha)).1, fun b hb => ?_⟩
  obtain ⟨a, ha⟩ : ∃ a, newest key ver log (key b) = some a := exists_newest hb
  have hkey := (mem_of_newest ha).2
  exact ⟨a, (h a).mpr (hkey ▸ ha), hkey, ver_le_of_newest ha hb rfl⟩

end ReadCovers

section Table

variable {key ver} {log : List α}

theorem lookup_record (t : AList fun _ : κ => α) (a : α) (k : κ) :
    (record key ver t a).lookup k =
      if key a = k then pick ver (t.lookup k) a else t.lookup k := by
  by_cases hk : key a = k
  · subst hk
    cases h : t.lookup (key a) with
    | none => simp [record, h, pick]
    | some b =>
      by_cases hver : ver b < ver a <;> simp [record, h, pick, hver]
  · have hne : k ≠ key a := fun h => hk h.symm
    cases h : t.lookup (key a) with
    | none => simp [record, h, hk, AList.lookup_insert_ne hne]
    | some b =>
      by_cases hver : ver b < ver a <;> simp [record, h, hk, hver, AList.lookup_insert_ne hne]

theorem lookup_foldl_record (t : AList fun _ : κ => α) (log : List α) (k : κ) :
    (log.foldl (record key ver) t).lookup k = join ver (t.lookup k) (newest key ver log k) := by
  induction log using List.reverseRecOn with
  | nil => rfl
  | append_singleton log a ih =>
    rw [List.foldl_append, List.foldl_cons, List.foldl_nil, lookup_record, ih]
    split
    · next h => rw [newest_concat h, join_pick]
    · next h => rw [newest_concat_of_ne h]

@[simp] theorem lookup_table (log : List α) (k : κ) :
    (table key ver log).lookup k = newest key ver log k := by
  rw [table, lookup_foldl_record]
  cases newest key ver log k <;> simp [join, pick]

theorem mem_values_iff {t : AList fun _ : κ => α} (ht : ∀ k a, t.lookup k = some a → key a = k)
    {a : α} : a ∈ t.entries.map Sigma.snd ↔ t.lookup (key a) = some a := by
  rw [List.mem_map]
  constructor
  · rintro ⟨⟨k, b⟩, hmem, rfl⟩
    have hlookup := AList.mem_lookup_iff.mpr hmem
    rwa [ht k b hlookup]
  · intro h
    exact ⟨⟨key a, a⟩, AList.mem_lookup_iff.mp h, rfl⟩

/-- A table filled from values with distinct keys. -/
theorem lookup_foldl_insert {log : List α} (h : (log.map key).Nodup) (k : κ) (a : α) :
    (log.foldl (fun (t : AList fun _ : κ => α) b => t.insert (key b) b) ∅).lookup k = some a ↔
      a ∈ log ∧ key a = k := by
  induction log using List.reverseRecOn with
  | nil => simp
  | append_singleton log last ih =>
    rw [List.map_append, List.nodup_append] at h
    obtain ⟨hlog, -, hfresh⟩ := h
    rw [List.foldl_append, List.foldl_cons, List.foldl_nil]
    by_cases hk : k = key last
    · subst hk
      rw [AList.lookup_insert]
      constructor
      · rintro ⟨⟩
        exact ⟨by simp, rfl⟩
      · rintro ⟨hmem, hsame⟩
        rcases List.mem_append.mp hmem with hmem | hmem
        · exact absurd hsame (hfresh _ (List.mem_map_of_mem hmem) _ (by simp))
        · rw [List.mem_singleton.mp hmem]
    · rw [AList.lookup_insert_ne hk, ih hlog]
      refine ⟨fun ⟨hmem, hsame⟩ => ⟨List.mem_append_left _ hmem, hsame⟩, fun ⟨hmem, hsame⟩ => ?_⟩
      rcases List.mem_append.mp hmem with hmem | hmem
      · exact ⟨hmem, hsame⟩
      · rw [List.mem_singleton.mp hmem] at hsame
        exact absurd hsame.symm hk

theorem nodup_values {t : AList fun _ : κ => α} (ht : ∀ k a, t.lookup k = some a → key a = k) :
    ((t.entries.map Sigma.snd).map key).Nodup := by
  have hkeys : (t.entries.map Sigma.snd).map key = t.keys := by
    rw [List.map_map, AList.keys, List.keys]
    refine List.map_congr_left fun e he => ?_
    exact ht e.1 e.2 (AList.mem_lookup_iff.mpr he)
  rw [hkeys]
  exact t.keys_nodup

variable {κ : Type} [LinearOrder κ] {key : α → κ} {log : List α}

theorem mem_newestList {a : α} :
    a ∈ newestList ver key log ↔ newest key ver log (key a) = some a := by
  rw [newestList, List.mem_insertionSort, mem_values_iff, lookup_table]
  intro k a h
  rw [lookup_table] at h
  exact (mem_of_newest h).2

theorem newestList_covers (log : List α) : Covers key ver (newestList ver key log) log :=
  covers_of_newest fun _ => mem_newestList

/-- Reading the list of newest values is reading the log. -/
theorem newest_newestList (log : List α) (k : κ) :
    newest key ver (newestList ver key log) k = newest key ver log k := by
  cases hlog : newest key ver log k with
  | none =>
    refine newest_eq_none_iff.mpr fun a ha hk => ?_
    rw [← hk, mem_newestList.mp ha] at hlog
    cases hlog
  | some a =>
    have hkey := (mem_of_newest hlog).2
    have ha : a ∈ newestList ver key log := mem_newestList.mpr (hkey ▸ hlog)
    obtain ⟨b, hb⟩ : ∃ b, newest key ver (newestList ver key log) (key a) = some b :=
      exists_newest ha
    have hmem := mem_newestList.mp (mem_of_newest hb).1
    rw [(mem_of_newest hb).2, hkey, hlog] at hmem
    rw [← hkey, hb, ← hmem]

/-- The list is in strictly increasing order of the keys. -/
theorem newestList_sorted (log : List α) :
    (newestList ver key log).Pairwise fun a b => key a < key b := by
  have hle : (newestList ver key log).Pairwise fun a b => key a ≤ key b := by
    have : IsTrans α fun a b => key a ≤ key b := ⟨fun _ _ _ => le_trans⟩
    have : Std.Total fun a b : α => key a ≤ key b := ⟨fun a b => le_total (key a) (key b)⟩
    exact List.pairwise_insertionSort _ _
  have hnodup : ((newestList ver key log).map key).Nodup := by
    have hperm := (List.perm_insertionSort (fun a b => key a ≤ key b)
      ((table key ver log).entries.map Sigma.snd)).map key
    refine hperm.nodup_iff.mpr (nodup_values fun k a h => ?_)
    rw [lookup_table] at h
    exact (mem_of_newest h).2
  rw [List.Nodup, List.pairwise_map] at hnodup
  exact (hle.and hnodup).imp fun h => lt_of_le_of_ne h.1 h.2

end Table

section Firsts

variable {f : α → β} {log : List α}

theorem mem_firstsFrom {seen : List β} {a : α} (h : a ∈ firstsFrom f seen log) :
    a ∈ log ∧ f a ∉ seen := by
  induction log generalizing seen with
  | nil => simp [firstsFrom] at h
  | cons b log ih =>
    rw [firstsFrom] at h
    split at h
    · exact ⟨List.mem_cons_of_mem _ (ih h).1, (ih h).2⟩
    · next hb =>
      rcases List.mem_cons.mp h with rfl | h
      · exact ⟨List.mem_cons_self, hb⟩
      · exact ⟨List.mem_cons_of_mem _ (ih h).1, fun hs => (ih h).2 (List.mem_cons_of_mem _ hs)⟩

theorem firstsFrom_nodup (seen : List β) (log : List α) : ((firstsFrom f seen log).map f).Nodup := by
  induction log generalizing seen with
  | nil => simp [firstsFrom]
  | cons a log ih =>
    rw [firstsFrom]
    split
    · exact ih seen
    · refine List.nodup_cons.mpr ⟨fun hmem => ?_, ih _⟩
      obtain ⟨b, hb, hfb⟩ := List.mem_map.mp hmem
      exact (mem_firstsFrom hb).2 (hfb ▸ List.mem_cons_self)

theorem exists_firstsFrom {seen : List β} {a : α} (h : a ∈ log) (hs : f a ∉ seen) :
    ∃ b ∈ firstsFrom f seen log, f b = f a := by
  induction log generalizing seen with
  | nil => simp at h
  | cons c log ih =>
    rw [firstsFrom]
    rcases List.mem_cons.mp h with rfl | h
    · rw [if_neg hs]
      exact ⟨a, List.mem_cons_self, rfl⟩
    · split
      · exact ih h hs
      · by_cases hc : f c = f a
        · exact ⟨c, List.mem_cons_self, hc⟩
        · obtain ⟨b, hb, hfb⟩ := @ih (f c :: seen) h (by
            rw [List.mem_cons, not_or]
            exact ⟨fun heq => hc heq.symm, hs⟩)
          exact ⟨b, List.mem_cons_of_mem _ hb, hfb⟩

theorem firsts_concat (log : List α) (a : α) :
    firsts f (log ++ [a]) =
      if ∃ b ∈ log, f b = f a then firsts f log else firsts f log ++ [a] := by
  suffices hgen : ∀ seen, firstsFrom f seen (log ++ [a]) =
      if f a ∈ seen ∨ ∃ b ∈ log, f b = f a then firstsFrom f seen log
      else firstsFrom f seen log ++ [a] by
    rw [firsts, hgen, firsts]
    simp
  induction log with
  | nil => intro seen; by_cases h : f a ∈ seen <;> simp [firstsFrom, h]
  | cons b log ih =>
    intro seen
    rw [List.cons_append, firstsFrom, firstsFrom]
    by_cases hb : f b ∈ seen
    · have hsame : (f a ∈ seen ∨ ∃ c ∈ b :: log, f c = f a) ↔
          (f a ∈ seen ∨ ∃ c ∈ log, f c = f a) := by
        simp only [List.mem_cons, exists_eq_or_imp]
        exact ⟨fun h => h.elim .inl fun h => h.elim (fun h => .inl (h ▸ hb)) .inr,
          fun h => h.elim .inl fun h => .inr (.inr h)⟩
      simp only [if_pos hb, ih, hsame]
    · have hsame : (f a ∈ seen ∨ ∃ c ∈ b :: log, f c = f a) ↔
          (f a ∈ f b :: seen ∨ ∃ c ∈ log, f c = f a) := by
        simp only [List.mem_cons, exists_eq_or_imp]
        exact ⟨fun h => h.elim (fun h => .inl (.inr h)) fun h => h.elim (fun h => .inl (.inl h.symm))
          .inr, fun h => h.elim (fun h => h.elim (fun h => .inr (.inl h.symm)) .inl)
          fun h => .inr (.inr h)⟩
      simp only [if_neg hb, ih, hsame]
      split <;> simp

/-- Dropping repeated versions of a key does not change what is read. -/
theorem newest_firsts {key : α → κ} {ver : α → ℕ} (log : List α) (k : κ) :
    newest key ver (firsts (fun a => (key a, ver a)) log) k = newest key ver log k := by
  induction log using List.reverseRecOn with
  | nil => rfl
  | append_singleton log a ih =>
    rw [firsts_concat]
    by_cases hk : key a = k
    · rw [newest_concat hk]
      split
      · next h =>
        obtain ⟨b, hb, hab⟩ := h
        obtain ⟨hkey, hver⟩ := Prod.mk.inj hab
        obtain ⟨c, hc⟩ : ∃ c, newest key ver log (key b) = some c := exists_newest hb
        have hle := ver_le_of_newest hc hb rfl
        have hnot : ¬ver c < ver a := by omega
        rw [hkey, hk] at hc
        rw [ih, hc, pick, if_neg hnot]
      · rw [newest_concat hk, ih]
    · rw [newest_concat_of_ne hk]
      split
      · exact ih
      · rw [newest_concat_of_ne hk, ih]

end Firsts

end Versions
