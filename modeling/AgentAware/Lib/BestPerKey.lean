import Mathlib.Data.List.Dedup
import AgentAware.Lib.TopK

/-!
# The best element of every key

Elements carry a key and a rank, and several of them may share a key. A list of the best elements
holds the element of smallest rank of every key. Selections from a list have best elements of their
own, and when a selection keeps the first `k` best ones it agrees with the whole list on them: that
is what makes it sound to cut parts of a list to `k` before the best elements of all are taken.

## Main definitions

- `TopK.BestOf` — a list of the best elements of another
- `TopK.bestPerKey` — such a list

## Main results

- `TopK.BestOf.topk_eq` — a selection that keeps the first `k` best elements
- `TopK.BestOf.mem_topk_of_subset` — the first `k` best elements of a list are among those of a part
- `TopK.BestOf.topk_topk_append` — cutting a part of a list to its `k` best elements
- `TopK.BestOf.reaches_iff` — when the first `k` elements hold the first `k` best ones
-/

namespace TopK

variable {α κ ρ : Type} [LinearOrder ρ] (key : α → κ) (rank : α → ρ)

/-- `best` holds the element of smallest rank of every key of `xs`, and nothing else. -/
structure BestOf (xs best : List α) : Prop where
  nodup : (best.map key).Nodup
  mem_iff : ∀ a, a ∈ best ↔ a ∈ xs ∧ ∀ b ∈ xs, key b = key a → rank a ≤ rank b

/-- The elements of smallest rank of their key. -/
def bestPerKey [DecidableEq α] [DecidableEq κ] (xs : List α) : List α :=
  (xs.filter fun a => xs.all fun b => !decide (key b = key a) || decide (rank a ≤ rank b)).dedup

section

variable {key rank} {xs ys best best' : List α} {a b : α} {k : ℕ}

theorem bestOf_bestPerKey [DecidableEq α] [DecidableEq κ] (hrank : Function.Injective rank)
    (xs : List α) : BestOf key rank xs (bestPerKey key rank xs) := by
  have hmem : ∀ a, a ∈ bestPerKey key rank xs ↔
      a ∈ xs ∧ ∀ b ∈ xs, key b = key a → rank a ≤ rank b := by
    intro a
    rw [bestPerKey, List.mem_dedup, List.mem_filter, List.all_eq_true]
    refine and_congr_right fun _ => forall₂_congr fun b _ => ?_
    simp [imp_iff_not_or]
  refine ⟨(List.nodup_dedup _).map_on ?_, hmem⟩
  intro a ha b hb hkey
  obtain ⟨ha, hfirst⟩ := (hmem a).mp ha
  obtain ⟨hb, hfirst'⟩ := (hmem b).mp hb
  exact hrank (le_antisymm (hfirst b hb hkey.symm) (hfirst' a ha hkey))

namespace BestOf

theorem mem (h : BestOf key rank xs best) (ha : a ∈ best) : a ∈ xs := ((h.mem_iff a).mp ha).1

theorem rank_nodup (h : BestOf key rank xs best) (hrank : Function.Injective rank) :
    (best.map rank).Nodup :=
  (List.Nodup.of_map key h.nodup).map hrank

/-- Every element is matched by the best one of its key. -/
theorem exists_le (h : BestOf key rank xs best) (hb : b ∈ xs) :
    ∃ a ∈ best, key a = key b ∧ rank a ≤ rank b := by
  classical
  obtain ⟨a, ha⟩ : ∃ a, a ∈ List.argmin rank (xs.filter fun c => key c = key b) := by
    refine Option.ne_none_iff_exists'.mp fun hnone => ?_
    rw [List.argmin_eq_none, List.filter_eq_nil_iff] at hnone
    exact hnone b hb (by simp)
  have hfirst : ∀ c ∈ xs, key c = key b → rank a ≤ rank c := fun c hc hkey =>
    List.le_of_mem_argmin (List.mem_filter.mpr ⟨hc, by simpa using hkey⟩) ha
  obtain ⟨hmem, hkey⟩ := List.mem_filter.mp (List.argmin_mem ha)
  have hkey : key a = key b := of_decide_eq_true hkey
  refine ⟨a, (h.mem_iff a).mpr ⟨hmem, fun c hc hca => ?_⟩, hkey, hfirst b hb rfl⟩
  exact hfirst c hc (hca.trans hkey)

/-- The best elements of a selection are matched by those of the whole list. -/
theorem dominated (h : BestOf key rank xs best) (h' : BestOf key rank ys best')
    (hsub : ∀ a ∈ ys, a ∈ xs) : ∀ b ∈ best', ∃ c ∈ best, key c = key b ∧ rank c ≤ rank b :=
  fun b hb => h.exists_le (hsub b (h'.mem hb))

/-- What is best in the whole list is best in a selection. -/
theorem mem_of_subset (h : BestOf key rank xs best) (h' : BestOf key rank ys best')
    (hsub : ∀ a ∈ ys, a ∈ xs) (ha : a ∈ best) (hys : a ∈ ys) : a ∈ best' :=
  (h'.mem_iff a).mpr ⟨hys, fun b hb hkey => ((h.mem_iff a).mp ha).2 b (hsub b hb) hkey⟩

/-- A selection that keeps the first `k` best elements. -/
theorem topk_eq (hrank : Function.Injective rank) (h : BestOf key rank xs best)
    (h' : BestOf key rank ys best') (hsub : ∀ a ∈ ys, a ∈ xs)
    (htop : ∀ b ∈ topk rank k best, b ∈ ys) : topk rank k best' = topk rank k best :=
  topk_eq_of_dominated (h.rank_nodup hrank) (h'.rank_nodup hrank) h'.nodup (h.dominated h' hsub)
    fun b hb => h.mem_of_subset h' hsub (mem_of_mem_topk hb) (htop b hb)

/-- The first `k` best elements of a list are among those of the part they stand in. -/
theorem mem_topk_of_subset (hrank : Function.Injective rank) (h : BestOf key rank xs best)
    (h' : BestOf key rank ys best') (hsub : ∀ a ∈ ys, a ∈ xs) (hb : b ∈ topk rank k best)
    (hys : b ∈ ys) : b ∈ topk rank k best' := by
  obtain ⟨hmem, hlt⟩ := (mem_topk_iff (separates_of_injective hrank _)).mp hb
  refine (mem_topk_iff (separates_of_injective hrank _)).mpr
    ⟨h.mem_of_subset h' hsub hmem hys, lt_of_le_of_lt ?_ hlt⟩
  exact before_le_of_dominated h'.nodup (h.dominated h' hsub) b

/-- Lists with the same elements have the same first best ones. -/
theorem topk_congr (hrank : Function.Injective rank) (h : BestOf key rank xs best)
    (h' : BestOf key rank ys best') (hmem : ∀ a, a ∈ ys ↔ a ∈ xs) :
    topk rank k best' = topk rank k best :=
  h.topk_eq hrank h' (fun a => (hmem a).mp) fun b hb =>
    (hmem b).mpr (h.mem (mem_of_mem_topk hb))

/-- The first part of a list may be cut to its first `k` best elements. -/
theorem topk_topk_append {xs' cut : List α} (hrank : Function.Injective rank)
    (h : BestOf key rank (xs ++ xs') best) (hcut : BestOf key rank xs cut)
    (h' : BestOf key rank (topk rank k cut ++ xs') best') :
    topk rank k best' = topk rank k best := by
  refine h.topk_eq hrank h' (fun a ha => ?_) fun b hb => ?_
  · rcases List.mem_append.mp ha with ha | ha
    · exact List.mem_append_left _ (hcut.mem (mem_of_mem_topk ha))
    · exact List.mem_append_right _ ha
  · rcases List.mem_append.mp (h.mem (mem_of_mem_topk hb)) with hxs | hxs'
    · refine List.mem_append_left _ ?_
      exact h.mem_topk_of_subset hrank hcut (fun a ha => List.mem_append_left _ ha) hb hxs
    · exact List.mem_append_right _ hxs'

/-- There are as many best elements as keys. -/
theorem length_eq [DecidableEq κ] (h : BestOf key rank xs best) :
    best.length = (xs.map key).dedup.length := by
  rw [← List.length_map key]
  refine List.Perm.length_eq ((List.perm_ext_iff_of_nodup h.nodup (List.nodup_dedup _)).mpr ?_)
  intro k
  rw [List.mem_dedup, List.mem_map, List.mem_map]
  constructor
  · rintro ⟨a, ha, rfl⟩
    exact ⟨a, h.mem ha, rfl⟩
  · rintro ⟨b, hb, rfl⟩
    obtain ⟨a, ha, hkey, -⟩ := h.exists_le hb
    exact ⟨a, ha, hkey⟩

/-- The first `k` elements hold the first `k` best ones exactly when they hold as many keys. -/
theorem reaches_iff {cut : List α} (hrank : Function.Injective rank) (h : BestOf key rank xs best)
    (hcut : BestOf key rank (topk rank k xs) cut) :
    (∀ b ∈ topk rank k best, b ∈ topk rank k xs) ↔ min k best.length ≤ cut.length := by
  have hsub : ∀ a ∈ topk rank k xs, a ∈ xs := fun a => mem_of_mem_topk
  constructor
  · intro hreach
    have hlength := congrArg List.length (h.topk_eq hrank hcut hsub hreach)
    rw [length_topk, length_topk] at hlength
    omega
  · intro hkeys b hb
    obtain ⟨hbest, hbefore⟩ := (mem_topk_iff (separates_of_injective hrank _)).mp hb
    by_contra hfar
    -- every best element within the cut precedes `b`
    have hlt : ∀ a ∈ cut, rank a < rank b := fun a ha =>
      lt_of_not_mem_topk (separates_of_injective hrank xs) (h.mem hbest) hfar (hcut.mem ha)
    have hall : before rank cut b = cut.length := by
      rw [before, List.countP_eq_length]
      exact fun a ha => decide_eq_true (hlt a ha)
    have hle : before rank cut b ≤ before rank best b :=
      before_le_of_dominated hcut.nodup (h.dominated hcut hsub) b
    have hstrict : before rank best b < best.length := by
      refine lt_of_le_of_ne List.countP_le_length fun heq => ?_
      simpa using List.countP_eq_length.mp heq b hbest
    omega

end BestOf

end

end TopK
