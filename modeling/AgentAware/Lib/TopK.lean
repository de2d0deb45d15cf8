import Mathlib.Data.List.MinMax
import Mathlib.Data.List.Sort
import Mathlib.Tactic.Common

/-!
# The first `k` of a ranked list

The elements of a list are ordered by a rank; `topk` keeps the `k` of smallest rank, in order. When
different elements have different ranks, an element is kept exactly when fewer than `k` elements
precede it, and the laws here are read off that count. Elements may repeat unless a law says that
no rank does.

## Main definitions

- `TopK.sortBy`, `TopK.topk` — sort by rank, keep the first `k`
- `TopK.Separates` — different elements of a list have different ranks
- `TopK.offer` — a heap of at most `k` elements

## Main results

- `TopK.mem_topk_iff` — an element is kept when fewer than `k` precede it
- `TopK.topk_eq_of_dominated` — elements outside the first `k` may be dropped or moved back
- `TopK.topk_cons_topk` — what is added to a list may be added to its first `k`
- `TopK.topk_perm` — the order of the input does not matter
- `TopK.topk_filter_append_iff` — when a list may be cut before a part of it is replaced
- `TopK.foldl_offer_perm` — a bounded heap holds the first `k`
-/

namespace TopK

variable {α β ρ : Type} [LinearOrder ρ] (rank : α → ρ)

/-- Sort by rank. -/
def sortBy (xs : List α) : List α := xs.insertionSort fun a b => rank a ≤ rank b

/-- The `k` elements of smallest rank. -/
def topk (k : ℕ) (xs : List α) : List α := (sortBy rank xs).take k

/-- How many elements precede `a`. -/
def before (xs : List α) (a : α) : ℕ := xs.countP fun b => rank b < rank a

/-- Different elements have different ranks. -/
def Separates (xs : List α) : Prop := ∀ a ∈ xs, ∀ b ∈ xs, rank a = rank b → a = b

section

variable {rank} {xs ys : List α} {a b : α} {k : ℕ}

omit [LinearOrder ρ] in
theorem separates_of_nodup (h : (xs.map rank).Nodup) : Separates rank xs :=
  fun _ ha _ hb => List.inj_on_of_nodup_map h ha hb

omit [LinearOrder ρ] in
theorem separates_of_injective (h : Function.Injective rank) (xs : List α) : Separates rank xs :=
  fun _ _ _ _ heq => h heq

omit [LinearOrder ρ] in
theorem Separates.mono (h : Separates rank ys) (hsub : ∀ a ∈ xs, a ∈ ys) : Separates rank xs :=
  fun a ha b hb => h a (hsub a ha) b (hsub b hb)

variable (rank) in
theorem sortBy_perm (xs : List α) : (sortBy rank xs).Perm xs := List.perm_insertionSort _ _

theorem mem_sortBy : a ∈ sortBy rank xs ↔ a ∈ xs := (sortBy_perm _ xs).mem_iff

theorem sortBy_pairwise_le (xs : List α) :
    (sortBy rank xs).Pairwise fun a b => rank a ≤ rank b := by
  have : IsTrans α fun a b => rank a ≤ rank b := ⟨fun _ _ _ => le_trans⟩
  have : Std.Total fun a b : α => rank a ≤ rank b := ⟨fun a b => le_total (rank a) (rank b)⟩
  exact List.pairwise_insertionSort _ _

theorem sortBy_pairwise_lt (h : (xs.map rank).Nodup) :
    (sortBy rank xs).Pairwise fun a b => rank a < rank b := by
  have hnodup : ((sortBy rank xs).map rank).Nodup := ((sortBy_perm _ xs).map rank).nodup_iff.mpr h
  rw [List.Nodup, List.pairwise_map] at hnodup
  exact ((sortBy_pairwise_le xs).and hnodup).imp fun h => lt_of_le_of_ne h.1 h.2

/-- Sorting determines the list when its ranks tell its elements apart. -/
theorem sortBy_eq_of_perm (h : Separates rank xs) (hperm : xs.Perm ys) :
    sortBy rank xs = sortBy rank ys := by
  refine List.Perm.eq_of_pairwise ?_ (sortBy_pairwise_le xs)
    (sortBy_pairwise_le ys) (((sortBy_perm _ xs).trans hperm).trans (sortBy_perm _ ys).symm)
  intro a b ha hb hab hba
  have ha' := mem_sortBy.mp ha
  have hb' := hperm.mem_iff.mpr (mem_sortBy.mp hb)
  exact h a ha' b hb' (le_antisymm hab hba)

/-- A sorted list without repeated ranks is its own sorting. -/
theorem sortBy_eq_self (h : xs.Pairwise fun a b => rank a < rank b) : sortBy rank xs = xs := by
  refine List.Perm.eq_of_pairwise ?_ (sortBy_pairwise_le xs)
    (h.imp le_of_lt) (sortBy_perm _ xs)
  have hnodup : (xs.map rank).Nodup := by
    rw [List.Nodup, List.pairwise_map]
    exact h.imp ne_of_lt
  intro a b ha hb hab hba
  exact List.inj_on_of_nodup_map hnodup (mem_sortBy.mp ha) hb (le_antisymm hab hba)

theorem topk_perm (h : Separates rank xs) (hperm : xs.Perm ys) :
    topk rank k xs = topk rank k ys := by
  rw [topk, topk, sortBy_eq_of_perm h hperm]

theorem length_topk (k : ℕ) (xs : List α) : (topk rank k xs).length = min k xs.length := by
  rw [topk, List.length_take, (sortBy_perm _ xs).length_eq]

theorem topk_min_length : topk rank (min k xs.length) xs = topk rank k xs := by
  rw [topk, topk, List.take_eq_take_iff, (sortBy_perm _ xs).length_eq]
  omega

theorem mem_of_mem_topk (h : a ∈ topk rank k xs) : a ∈ xs :=
  mem_sortBy.mp (List.mem_of_mem_take h)

theorem topk_pairwise_lt (h : (xs.map rank).Nodup) :
    (topk rank k xs).Pairwise fun a b => rank a < rank b :=
  (sortBy_pairwise_lt h).sublist (List.take_sublist _ _)

theorem topk_nodup (h : (xs.map rank).Nodup) : (topk rank k xs).Nodup :=
  (topk_pairwise_lt h).imp fun hlt heq => absurd (heq ▸ hlt) (lt_irrefl _)

theorem before_perm (hperm : xs.Perm ys) (a : α) : before rank xs a = before rank ys a :=
  hperm.countP_eq _

theorem mem_take_of_sorted (hsep : Separates rank xs)
    (h : xs.Pairwise fun a b => rank a ≤ rank b) (ha : a ∈ xs) :
    a ∈ xs.take k ↔ before rank xs a < k := by
  induction xs generalizing k with
  | nil => simp at ha
  | cons x xs ih =>
    rw [List.pairwise_cons] at h
    cases k with
    | zero => simp
    | succ k =>
      rw [List.take_succ_cons, List.mem_cons, before, List.countP_cons]
      by_cases hx : a = x
      · subst hx
        have hzero : xs.countP (fun b => rank b < rank a) = 0 := by
          rw [List.countP_eq_zero]
          intro b hb
          simpa using h.1 b hb
        simp [hzero]
      · have hmem : a ∈ xs := (List.mem_cons.mp ha).resolve_left hx
        have hlt : rank x < rank a := lt_of_le_of_ne (h.1 a hmem)
          fun heq => hx (hsep a ha x List.mem_cons_self heq.symm)
        rw [ih (hsep.mono fun b hb => List.mem_cons_of_mem _ hb) h.2 hmem, before]
        simp [hlt, hx]

/-- An element is kept exactly when fewer than `k` elements precede it. -/
theorem mem_topk_iff (h : Separates rank xs) :
    a ∈ topk rank k xs ↔ a ∈ xs ∧ before rank xs a < k := by
  have hsep : Separates rank (sortBy rank xs) := h.mono fun b hb => mem_sortBy.mp hb
  rw [← before_perm (sortBy_perm rank xs)]
  constructor
  · intro ha
    have hmem := List.mem_of_mem_take ha
    exact ⟨mem_sortBy.mp hmem, (mem_take_of_sorted hsep (sortBy_pairwise_le xs) hmem).mp ha⟩
  · rintro ⟨hmem, hlt⟩
    exact (mem_take_of_sorted hsep (sortBy_pairwise_le xs) (mem_sortBy.mpr hmem)).mpr hlt

/-- Lists without repeated ranks that keep the same elements keep them in the same order. -/
theorem topk_eq_of_mem_iff {k' : ℕ} (hx : (xs.map rank).Nodup) (hy : (ys.map rank).Nodup)
    (h : ∀ a, a ∈ topk rank k xs ↔ a ∈ topk rank k' ys) : topk rank k xs = topk rank k' ys := by
  refine List.Perm.eq_of_pairwise ?_ (topk_pairwise_lt hx)
    (topk_pairwise_lt hy) ((List.perm_ext_iff_of_nodup (topk_nodup hx) (topk_nodup hy)).mpr h)
  intro a b _ _ hab hba
  exact absurd (hab.trans hba) (lt_irrefl _)

/-- An element outside the first `k` is preceded by all of them. -/
theorem lt_of_not_mem_topk (h : Separates rank xs) (ha : a ∈ xs) (hk : a ∉ topk rank k xs)
    (hb : b ∈ topk rank k xs) : rank b < rank a := by
  by_contra hle
  have hmem := (mem_topk_iff h).mp hb
  refine hk ((mem_topk_iff h).mpr ⟨ha, lt_of_le_of_lt ?_ hmem.2⟩)
  refine List.countP_mono_left fun c _ hc => ?_
  simp only [decide_eq_true_eq] at hc ⊢
  exact lt_of_lt_of_le hc (not_lt.mp hle)

/-- A list shorter than `k` is kept whole. -/
theorem mem_topk_of_length_lt (h : Separates rank xs) (ha : a ∈ xs)
    (hk : (topk rank k xs).length < k) : a ∈ topk rank k xs := by
  refine (mem_topk_iff h).mpr ⟨ha, ?_⟩
  rw [length_topk] at hk
  have hle : before rank xs a ≤ xs.length := List.countP_le_length
  omega

theorem topk_map_nodup {f : α → β} (h : (xs.map f).Nodup) : ((topk rank k xs).map f).Nodup :=
  (((sortBy_perm _ xs).map f).nodup_iff.mpr h).sublist ((List.take_sublist _ _).map f)

section Dominated

variable {κ : Type} {key : α → κ}

/-- Every element of `xs` stands in `ys` under its key, at the same place or in front of it. -/
theorem before_le_of_dominated (hkeys : (xs.map key).Nodup)
    (hdom : ∀ b ∈ xs, ∃ c ∈ ys, key c = key b ∧ rank c ≤ rank b) (a : α) :
    before rank xs a ≤ before rank ys a := by
  rw [before, before, List.countP_eq_length_filter, List.countP_eq_length_filter,
    ← List.length_map key, ← List.length_map key]
  refine (List.subperm_of_subset (hkeys.sublist (List.filter_sublist.map key)) ?_).length_le
  intro k hk
  obtain ⟨b, hb, rfl⟩ := List.mem_map.mp hk
  obtain ⟨hb, hlt⟩ := List.mem_filter.mp hb
  obtain ⟨c, hc, hkey, hle⟩ := hdom b hb
  rw [← hkey]
  refine List.mem_map_of_mem (List.mem_filter.mpr ⟨hc, ?_⟩)
  exact decide_eq_true (lt_of_le_of_lt hle (of_decide_eq_true hlt))

omit [LinearOrder ρ] in
theorem length_le_of_keys (hkeys : (xs.map key).Nodup) (hdom : ∀ b ∈ xs, ∃ c ∈ ys, key c = key b) :
    xs.length ≤ ys.length := by
  rw [← List.length_map key, ← @List.length_map _ _ ys key]
  refine (List.subperm_of_subset hkeys fun k hk => ?_).length_le
  obtain ⟨b, hb, rfl⟩ := List.mem_map.mp hk
  obtain ⟨c, hc, hkey⟩ := hdom b hb
  exact hkey ▸ List.mem_map_of_mem hc

/-- Outside the first `k`, elements can be dropped and moved back. -/
theorem topk_eq_of_dominated (hy : (ys.map rank).Nodup) (hx : (xs.map rank).Nodup)
    (hkeys : (xs.map key).Nodup) (hdom : ∀ b ∈ xs, ∃ c ∈ ys, key c = key b ∧ rank c ≤ rank b)
    (htop : ∀ b ∈ topk rank k ys, b ∈ xs) : topk rank k xs = topk rank k ys := by
  have hsub : topk rank k ys ⊆ topk rank k xs := by
    intro b hb
    have hmem := (mem_topk_iff (separates_of_nodup hy)).mp hb
    exact (mem_topk_iff (separates_of_nodup hx)).mpr
      ⟨htop b hb, lt_of_le_of_lt (before_le_of_dominated hkeys hdom b) hmem.2⟩
  have hlength : (topk rank k xs).length ≤ (topk rank k ys).length := by
    have hle : xs.length ≤ ys.length := length_le_of_keys hkeys fun b hb =>
      (hdom b hb).imp fun c hc => ⟨hc.1, hc.2.1⟩
    rw [length_topk, length_topk]
    omega
  have hperm := (List.subperm_of_subset (topk_nodup hy) hsub).perm_of_length_le hlength
  exact topk_eq_of_mem_iff hx hy fun a => (hperm.mem_iff).symm

end Dominated

/-- Elements outside the first `k` can be dropped. -/
theorem topk_eq_of_subset (hy : (ys.map rank).Nodup) (hx : (xs.map rank).Nodup)
    (hsub : ∀ b ∈ xs, b ∈ ys) (htop : ∀ b ∈ topk rank k ys, b ∈ xs) :
    topk rank k xs = topk rank k ys :=
  topk_eq_of_dominated hy hx hx (fun b hb => ⟨b, hsub b hb, rfl, le_rfl⟩) htop

/-- Without its last element a list of `k + 1` is its first `k`. -/
theorem topk_perm_erase [DecidableEq α] (h : Separates rank xs) (ha : a ∈ xs)
    (hlast : ∀ b ∈ xs, rank b ≤ rank a) (hk : xs.length = k + 1) :
    (topk rank k xs).Perm (xs.erase a) := by
  have hlength : ((sortBy rank xs).drop k).length = 1 := by
    rw [List.length_drop, (sortBy_perm _ _).length_eq, hk]
    omega
  obtain ⟨last, hdrop⟩ := List.length_eq_one_iff.mp hlength
  have hsplit : topk rank k xs ++ [last] = sortBy rank xs := by
    rw [← hdrop, topk, List.take_append_drop]
  have hsorted : (topk rank k xs ++ [last]).Pairwise fun a b => rank a ≤ rank b := by
    rw [hsplit]
    exact sortBy_pairwise_le xs
  rw [List.pairwise_append] at hsorted
  have hlast' : last ∈ xs := mem_sortBy.mp (hsplit ▸ List.mem_append_right _ List.mem_cons_self)
  have hle : rank a ≤ rank last := by
    have hmem : a ∈ sortBy rank xs := mem_sortBy.mpr ha
    rw [← hsplit, List.mem_append, List.mem_singleton] at hmem
    rcases hmem with hmem | rfl
    · exact hsorted.2.2 a hmem last List.mem_cons_self
    · exact le_rfl
  obtain rfl := h last hlast' a ha (le_antisymm (hlast last hlast') hle)
  have hperm : (topk rank k xs ++ [last]).Perm (last :: xs.erase last) := by
    rw [hsplit]
    exact (sortBy_perm rank xs).trans (List.perm_cons_erase ha)
  exact (List.perm_cons last).mp ((List.perm_append_singleton _ _).symm.trans hperm)

omit [LinearOrder ρ] in
theorem take_orderedInsert (r : α → α → Prop) [DecidableRel r] (xs : List α) :
    ((xs.take k).orderedInsert r a).take k = (xs.orderedInsert r a).take k := by
  induction xs generalizing k with
  | nil => simp
  | cons x xs ih =>
    cases k with
    | zero => simp
    | succ k =>
      rw [List.take_succ_cons, List.orderedInsert_cons, List.orderedInsert_cons]
      split
      · rw [List.take_succ_cons, List.take_succ_cons]
        cases k with
        | zero => simp
        | succ k => rw [List.take_succ_cons, List.take_succ_cons, List.take_take, min_eq_left (by omega)]
      · rw [List.take_succ_cons, List.take_succ_cons, ih]

theorem sortBy_topk (k : ℕ) (xs : List α) : sortBy rank (topk rank k xs) = topk rank k xs :=
  ((sortBy_pairwise_le xs).sublist (List.take_sublist _ _)).insertionSort_eq

/-- The first `k` of a list and one more element are found among the first `k` and that element. -/
theorem topk_cons_topk : topk rank k (a :: topk rank k xs) = topk rank k (a :: xs) := by
  rw [topk, sortBy, List.insertionSort_cons, ← sortBy, sortBy_topk, topk, take_orderedInsert]
  rfl

/-- Cutting `xs` to its first `k` before a part of it is replaced by `ys` changes the outcome, unless
every kept element beyond the cut has enough elements of `ys` in front of it. -/
theorem topk_filter_append_iff {p : α → Bool} (hx : (xs.map rank).Nodup)
    (hall : ((xs.filter p ++ ys).map rank).Nodup) :
    topk rank k ((topk rank k xs).filter p ++ ys) = topk rank k (xs.filter p ++ ys) ↔
      ∀ a ∈ xs, p a = true → a ∉ topk rank k xs →
        (topk rank k xs).countP (fun b => !p b) ≤ before rank ys a := by
  have hsub : ∀ b ∈ (topk rank k xs).filter p ++ ys, b ∈ xs.filter p ++ ys := by
    intro b hb
    rcases List.mem_append.mp hb with hb | hb
    · obtain ⟨hmem, hp⟩ := List.mem_filter.mp hb
      exact List.mem_append_left _ (List.mem_filter.mpr ⟨mem_of_mem_topk hmem, hp⟩)
    · exact List.mem_append_right _ hb
  have hcut : (((topk rank k xs).filter p ++ ys).map rank).Nodup := by
    rw [List.map_append, List.nodup_append] at hall ⊢
    refine ⟨(topk_map_nodup hx).sublist (List.filter_sublist.map rank), hall.2.1, ?_⟩
    intro b hb c hc
    obtain ⟨b', hb', rfl⟩ := List.mem_map.mp hb
    obtain ⟨hmem, hp⟩ := List.mem_filter.mp hb'
    exact hall.2.2 _ (List.mem_map_of_mem (List.mem_filter.mpr ⟨mem_of_mem_topk hmem, hp⟩)) _ hc
  have hsplit : (topk rank k xs).countP p + (topk rank k xs).countP (fun b => !p b) =
      (topk rank k xs).length := by
    rw [List.length_eq_countP_add_countP p]
    simp
  have hbefore : ∀ a, before rank (xs.filter p ++ ys) a =
      before rank (xs.filter p) a + before rank ys a := fun a => List.countP_append
  constructor
  · intro heq a ha hp hcutoff
    classical
    -- the nearest kept element beyond the cut
    obtain ⟨first, hfirst⟩ : ∃ first, first ∈ List.argmin rank
        (xs.filter fun b => p b && decide (b ∉ topk rank k xs)) := by
      refine Option.ne_none_iff_exists'.mp fun hnone => ?_
      rw [List.argmin_eq_none, List.filter_eq_nil_iff] at hnone
      exact hnone a ha (by simp [hp, hcutoff])
    have hmem := List.mem_filter.mp (List.argmin_mem hfirst)
    rw [Bool.and_eq_true, decide_eq_true_iff] at hmem
    obtain ⟨hmem, hpf, hfar⟩ := hmem
    have hle : rank first ≤ rank a :=
      List.le_of_mem_argmin (List.mem_filter.mpr ⟨ha, by simp [hp, hcutoff]⟩) hfirst
    have hkept : first ∈ xs.filter p := List.mem_filter.mpr ⟨hmem, hpf⟩
    have hout : first ∉ topk rank k (xs.filter p ++ ys) := by
      rw [← heq]
      intro hin
      rcases List.mem_append.mp (mem_of_mem_topk hin) with hin | hin
      · exact hfar (List.mem_filter.mp hin).1
      · rw [List.map_append, List.nodup_append] at hall
        exact hall.2.2 _ (List.mem_map_of_mem hkept) _ (List.mem_map_of_mem hin) rfl
    have hfull : k ≤ before rank (xs.filter p ++ ys) first := by
      by_contra hlt
      exact hout ((mem_topk_iff (separates_of_nodup hall)).mpr ⟨List.mem_append_left _ hkept, not_le.mp hlt⟩)
    have hnear : before rank (xs.filter p) first ≤ (topk rank k xs).countP p := by
      rw [before, List.countP_eq_length_filter, List.countP_eq_length_filter]
      refine (List.subperm_of_subset ?_ fun b hb => ?_).length_le
      · exact ((List.Nodup.of_map rank hx).filter _).filter _
      · obtain ⟨hb, hlt⟩ := List.mem_filter.mp hb
        obtain ⟨hb, hpb⟩ := List.mem_filter.mp hb
        refine List.mem_filter.mpr ⟨?_, hpb⟩
        by_contra hnot
        have hge : rank first ≤ rank b :=
          List.le_of_mem_argmin (List.mem_filter.mpr ⟨hb, by simp [hpb, hnot]⟩) hfirst
        exact absurd (of_decide_eq_true hlt) (not_lt.mpr hge)
    have hmono : before rank ys first ≤ before rank ys a :=
      List.countP_mono_left fun b _ hb => by
        simp only [decide_eq_true_eq] at hb ⊢
        exact lt_of_lt_of_le hb hle
    have hlength : (topk rank k xs).length ≤ k := by
      rw [length_topk]
      exact min_le_left _ _
    rw [hbefore] at hfull
    omega
  · intro hroom
    refine topk_eq_of_subset hall hcut hsub fun b hb => ?_
    obtain ⟨hmem, hlt⟩ := (mem_topk_iff (separates_of_nodup hall)).mp hb
    rcases List.mem_append.mp hmem with hmem | hmem
    · obtain ⟨hb, hp⟩ := List.mem_filter.mp hmem
      refine List.mem_append_left _ (List.mem_filter.mpr ⟨?_, hp⟩)
      by_contra hfar
      -- all of the first `k` precede `b`, and `ys` makes up for those that are replaced
      have hlength : k ≤ (topk rank k xs).length := by
        by_contra hshort
        exact hfar (mem_topk_of_length_lt (separates_of_nodup hx) hb (not_le.mp hshort))
      have hnear : (topk rank k xs).countP p ≤ before rank (xs.filter p) b := by
        rw [before, List.countP_eq_length_filter, List.countP_eq_length_filter]
        refine (List.subperm_of_subset ((topk_nodup hx).filter _) fun c hc => ?_).length_le
        obtain ⟨hc, hpc⟩ := List.mem_filter.mp hc
        refine List.mem_filter.mpr ⟨List.mem_filter.mpr ⟨mem_of_mem_topk hc, hpc⟩, ?_⟩
        exact decide_eq_true (lt_of_not_mem_topk (separates_of_nodup hx) hb hfar hc)
      have hmore := hroom b hb hp hfar
      rw [hbefore] at hlt
      omega
    · exact List.mem_append_right _ hmem

end

section Bounded

variable [DecidableEq α]

/-- Offer `a` to a heap of at most `k` elements: when it is full, `a` replaces the last of them, if
it precedes it. -/
def offer (k : ℕ) (heap : List α) (a : α) : List α :=
  if heap.length < k then a :: heap
  else
    match heap.argmax rank with
    | none => heap
    | some worst => if rank a < rank worst then a :: heap.erase worst else heap

variable {rank} {xs heap : List α} {a : α} {k : ℕ}

theorem mem_offer {b : α} (h : b ∈ offer rank k heap a) : b = a ∨ b ∈ heap := by
  rw [offer] at h
  split at h
  · exact List.mem_cons.mp h
  · cases hworst : heap.argmax rank with
    | none =>
      rw [hworst] at h
      exact Or.inr h
    | some worst =>
      rw [hworst] at h
      dsimp only at h
      split at h
      · rcases List.mem_cons.mp h with rfl | h
        · exact Or.inl rfl
        · exact Or.inr (List.mem_of_mem_erase h)
      · exact Or.inr h

theorem length_offer_le (h : heap.length ≤ k) : (offer rank k heap a).length ≤ k := by
  rw [offer]
  split
  · next hroom => exact hroom
  · cases hworst : heap.argmax rank with
    | none => exact h
    | some worst =>
      dsimp only
      split
      · have hpos := List.length_pos_of_mem (List.argmax_mem hworst)
        rw [List.length_cons, List.length_erase_of_mem (List.argmax_mem hworst)]
        omega
      · exact h

theorem offer_of_lt (h : heap.length < k) : offer rank k heap a = a :: heap := if_pos h

theorem offer_perm (hk : 0 < k) (h : Separates rank (a :: xs)) (hheap : heap.Perm (topk rank k xs)) :
    (offer rank k heap a).Perm (topk rank k (a :: xs)) := by
  have hcons : Separates rank (a :: heap) := by
    refine h.mono fun b hb => ?_
    rcases List.mem_cons.mp hb with rfl | hb
    · exact List.mem_cons_self
    · exact List.mem_cons_of_mem _ (mem_of_mem_topk (hheap.mem_iff.mp hb))
  have htop : topk rank k (a :: heap) = topk rank k (a :: xs) := by
    have hcut : topk rank k (a :: topk rank k xs) = topk rank k (a :: xs) := topk_cons_topk
    rw [← hcut]
    exact topk_perm hcons (hheap.cons a)
  have hlength : heap.length ≤ k := by
    rw [hheap.length_eq, length_topk]
    exact min_le_left _ _
  rw [← htop, offer]
  split
  · next hroom =>
    rw [topk, List.take_of_length_le]
    · exact (sortBy_perm _ _).symm
    · rw [(sortBy_perm _ _).length_eq, List.length_cons]
      exact hroom
  · next hfull =>
    have hsize : (a :: heap).length = k + 1 := by
      rw [List.length_cons]
      omega
    cases hworst : heap.argmax rank with
    | none =>
      rw [List.argmax_eq_none] at hworst
      rw [hworst, List.length_nil] at hfull
      exact absurd hk hfull
    | some worst =>
      have hmem := List.argmax_mem hworst
      have hmax : ∀ b ∈ heap, rank b ≤ rank worst := fun b hb => List.le_of_mem_argmax hb hworst
      dsimp only
      split
      · next hlt =>
        have hne : a ≠ worst := fun heq => absurd (heq ▸ hlt) (lt_irrefl _)
        have herase : (a :: heap).erase worst = a :: heap.erase worst :=
          List.erase_cons_tail (by simpa using hne)
        rw [← herase]
        refine (topk_perm_erase hcons (List.mem_cons_of_mem _ hmem) (fun b hb => ?_) hsize).symm
        rcases List.mem_cons.mp hb with rfl | hb
        · exact hlt.le
        · exact hmax b hb
      · next hge =>
        have hlast := topk_perm_erase hcons List.mem_cons_self (fun b hb => ?_) hsize
        · rw [List.erase_cons_head] at hlast
          exact hlast.symm
        · rcases List.mem_cons.mp hb with rfl | hb
          · exact le_rfl
          · exact (hmax b hb).trans (not_lt.mp hge)

/-- A heap that holds the first `k` of `xs` is offered `ys`. -/
theorem foldl_offer_append (hk : 0 < k) {ys : List α} (h : Separates rank (ys ++ xs))
    (hheap : heap.Perm (topk rank k xs)) :
    (ys.foldl (offer rank k) heap).Perm (topk rank k (ys ++ xs)) := by
  induction ys generalizing heap xs with
  | nil => exact hheap
  | cons a ys ih =>
    have hperm : (a :: ys ++ xs).Perm (ys ++ a :: xs) := List.perm_middle.symm
    have hmiddle : Separates rank (ys ++ a :: xs) := h.mono fun b hb => hperm.mem_iff.mpr hb
    have hcons : Separates rank (a :: xs) := hmiddle.mono fun b hb => List.mem_append_right _ hb
    rw [List.foldl_cons, topk_perm h hperm]
    exact ih hmiddle (offer_perm hk hcons hheap)

omit [DecidableEq α] in
/-- The last of a list does not depend on its order. -/
theorem argmax_perm (h : Separates rank xs) {ys : List α} (hperm : xs.Perm ys) :
    xs.argmax rank = ys.argmax rank := by
  cases hx : xs.argmax rank with
  | none =>
    rw [List.argmax_eq_none] at hx
    rw [hx] at hperm
    rw [← hperm.nil_eq, List.argmax_nil]
  | some a =>
    cases hy : ys.argmax rank with
    | none =>
      rw [List.argmax_eq_none] at hy
      rw [hy] at hperm
      rw [hperm.eq_nil, List.argmax_nil] at hx
      cases hx
    | some b =>
      have ha := List.argmax_mem hx
      have hb := List.argmax_mem hy
      have hab := List.le_of_mem_argmax (hperm.mem_iff.mp ha) hy
      have hba := List.le_of_mem_argmax (hperm.mem_iff.mpr hb) hx
      rw [h a ha b (hperm.mem_iff.mpr hb) (le_antisymm hab hba)]

omit [DecidableEq α] in
/-- Nor does the first. -/
theorem argmin_perm (h : Separates rank xs) {ys : List α} (hperm : xs.Perm ys) :
    xs.argmin rank = ys.argmin rank := by
  cases hx : xs.argmin rank with
  | none =>
    rw [List.argmin_eq_none] at hx
    rw [hx] at hperm
    rw [← hperm.nil_eq, List.argmin_nil]
  | some a =>
    cases hy : ys.argmin rank with
    | none =>
      rw [List.argmin_eq_none] at hy
      rw [hy] at hperm
      rw [hperm.eq_nil, List.argmin_nil] at hx
      cases hx
    | some b =>
      have ha := List.argmin_mem hx
      have hb := List.argmin_mem hy
      have hba := List.le_of_mem_argmin (hperm.mem_iff.mp ha) hy
      have hab := List.le_of_mem_argmin (hperm.mem_iff.mpr hb) hx
      rw [h a ha b (hperm.mem_iff.mpr hb) (le_antisymm hab hba)]

/-- A bounded heap that has seen `xs` holds the first `k` of them. -/
theorem foldl_offer_perm (hk : 0 < k) (h : Separates rank xs) :
    (xs.foldl (offer rank k) []).Perm (topk rank k xs) := by
  have hnil : ([] : List α).Perm (topk rank k []) := by simp [topk, sortBy]
  have happend := foldl_offer_append hk (h.mono fun b hb => by simpa using hb) hnil
  rwa [List.append_nil] at happend

end Bounded

end TopK
