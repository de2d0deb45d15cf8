import AgentAware.Graph.BuildInvariants
import AgentAware.Lib.TopK
import Mathlib.Algebra.Order.BigOperators.Group.List
import Mathlib.Algebra.Order.Ring.Int

/-!
# What robust pruning selects

Both builders prune a list of candidates by the same rule: pick the nearest one, drop every candidate
that it occludes, and go on up to the degree. One removes repeated candidates before the loop, the
other leaves them to the occlusion test, which drops a repeated candidate because its distance to
itself is zero.

## Main definitions

- `LawfulOps` — comparisons of distances that are not NaN
- `Occludes` — a picked candidate replaces another one
- `PruneSpec` — what a pruned list looks like

## Main results

- `VamanaBuilder.robustPrune_spec` — what `VamanaBuilder::robust_prune` returns
- `robustPrune_eq_robustPruneNeighbors` — the two implementations agree
-/

namespace Graph

/-- Comparisons of values that are not NaN. -/
structure LawfulOps {F : Type} [LinearOrder F] (ops : FloatOps F) : Prop where
  lt_iff : ∀ a b, ops.lt a b = true ↔ a < b
  eq_iff : ∀ a b, ops.eq a b = true ↔ a = b

/-- The distances of both builders are the same function, and exact at zero. -/
structure ExactOps {F : Type} [LinearOrder F] [Zero F] (ops : FloatOps F) : Prop
    extends LawfulOps ops where
  same : ∀ a b, ops.squared_l2 a b = ops.l2_distance_sq_simd a b
  self_zero : ∀ a, ops.l2_distance_sq_simd a a = 0
  nonneg : ∀ a b, 0 ≤ ops.l2_distance_sq_simd a b
  square_mul_zero : ∀ alpha, ops.mul (ops.mul (ops.double alpha) (ops.double alpha)) 0 = 0

/-- The order of `closer_candidate` and `BetterNeighborFirst`. -/
def NeighborCandidate.rank {F : Type} (candidate : NeighborCandidate F) : F ×ₗ NodeId :=
  toLex (candidate.distance, candidate.id)

section Distances

variable {F : Type} (ops : FloatOps F) (base : VectorSet)

/-- The distance of two nodes. -/
def nodeDistance (p q : NodeId) : F := ops.l2_distance_sq_simd (base.row p.toNat) (base.row q.toNat)

/-- An id with its distance from a node. -/
def candidateOf (node id : NodeId) : NeighborCandidate F := ⟨id, nodeDistance ops base node id⟩

/-- `p` occludes `q`: `alpha ^ 2 * d(p, q) ≤ d(node, q)`. -/
def Occludes [LinearOrder F] (alpha : DoubleBits) (node p q : NodeId) : Prop :=
  ops.mul (ops.mul (ops.double alpha) (ops.double alpha)) (nodeDistance ops base p q) ≤
    nodeDistance ops base node q

end Distances

/-- A pruned list: valid ids in the order of their ranks, the first one of smallest rank; none is
occluded by an earlier one, and below the limit every other valid id is occluded. -/
structure PruneSpec {ρ : Type} [LinearOrder ρ] (candidate : NodeId → Prop) (rank : NodeId → ρ)
    (occludes : NodeId → NodeId → Prop) (limit : ℕ) (output : List NodeId) : Prop where
  valid : ∀ id ∈ output, candidate id
  nodup : output.Nodup
  length_le : output.length ≤ limit
  sorted : output.Pairwise fun p q => rank p < rank q
  nearest : ∀ q, candidate q → 0 < limit → ∃ p, output.head? = some p ∧ rank p ≤ rank q
  unoccluded : output.Pairwise fun p q => ¬occludes p q
  maximal : output.length < limit → ∀ q, candidate q → q ∉ output → ∃ p ∈ output, occludes p q

section Selection

variable {F : Type} [LinearOrder F] {ops : FloatOps F} {base : VectorSet}

omit [LinearOrder F] in
theorem rank_injective : Function.Injective (@NeighborCandidate.rank F) := by
  rintro ⟨id, distance⟩ ⟨id', distance'⟩ h
  obtain ⟨rfl, rfl⟩ := Prod.mk.inj (toLex.injective h)
  rfl

theorem betterNeighbor_iff (h : LawfulOps ops) {lhs rhs : NeighborCandidate F} :
    betterNeighbor ops lhs rhs = true ↔ lhs.rank < rhs.rank := by
  rw [betterNeighbor, NeighborCandidate.rank, NeighborCandidate.rank, Prod.Lex.toLex_lt_toLex]
  by_cases heq : lhs.distance = rhs.distance
  · rw [if_pos ((h.eq_iff _ _).mpr heq)]
    simp [heq]
  · have hne : ops.eq lhs.distance rhs.distance = false :=
      Bool.eq_false_iff.mpr fun htrue => heq ((h.eq_iff _ _).mp htrue)
    simp [hne, h.lt_iff, heq]

theorem sortNeighbors_eq (h : LawfulOps ops) (pool : List (NeighborCandidate F)) :
    sortNeighbors ops pool = TopK.sortBy NeighborCandidate.rank pool := by
  have hrel : (fun a b : NeighborCandidate F => betterNeighbor ops b a = false) =
      fun a b => a.rank ≤ b.rank := by
    funext a b
    rw [eq_iff_iff, ← not_lt, ← betterNeighbor_iff h, Bool.not_eq_true]
  simp only [sortNeighbors, TopK.sortBy, hrel]

/-- The selection from a sorted pool of different ids. -/
theorem pruneSpec_select (h : LawfulOps ops) {ids : List NodeId} (hids : ids.Nodup)
    (node : NodeId) (alpha : DoubleBits) (limit : ℕ) :
    PruneSpec (fun id => id ∈ ids) (fun id => (candidateOf ops base node id).rank)
      (Occludes ops base alpha node) limit
      (pruneLoop (fun picked candidate => ops.keeps alpha
        (nodeDistance ops base picked.id candidate.id) candidate.distance) limit
        (sortNeighbors ops (ids.map (candidateOf ops base node)))) := by
  rw [pruneLoop_eq, sortNeighbors_eq h]
  generalize hselected : Greedy.select (fun picked candidate => ops.keeps alpha
    (nodeDistance ops base picked.id candidate.id) candidate.distance) limit
    (TopK.sortBy NeighborCandidate.rank (ids.map (candidateOf ops base node))) = selected
  have hids_map : (ids.map (candidateOf ops base node)).map NeighborCandidate.id = ids := by
    rw [List.map_map]
    exact List.map_id _
  have hranks : ((ids.map (candidateOf ops base node)).map NeighborCandidate.rank).Nodup :=
    (List.Nodup.of_map NeighborCandidate.id (hids_map.symm ▸ hids)).map rank_injective
  have hsub : selected.Sublist
      (TopK.sortBy NeighborCandidate.rank (ids.map (candidateOf ops base node))) :=
    hselected ▸ Greedy.select_sublist _ _
  -- every picked candidate is an id with its distance
  have hpicked : ∀ p ∈ selected, p.id ∈ ids ∧ candidateOf ops base node p.id = p := by
    intro p hp
    obtain ⟨id, hid, rfl⟩ := List.mem_map.mp (TopK.mem_sortBy.mp (hsub.subset hp))
    exact ⟨hid, rfl⟩
  have hkeeps : ∀ p q : NodeId, ops.keeps alpha (nodeDistance ops base p q)
      (nodeDistance ops base node q) = true ↔ ¬Occludes ops base alpha node p q := by
    intro p q
    rw [FloatOps.keeps, h.lt_iff, Occludes, not_le]
  have hsorted : selected.Pairwise fun p q => p.rank < q.rank :=
    (TopK.sortBy_pairwise_lt hranks).sublist hsub
  refine ⟨?_, ?_, ?_, ?_, ?_, ?_, ?_⟩
  · intro id hid
    obtain ⟨p, hp, rfl⟩ := List.mem_map.mp hid
    exact (hpicked p hp).1
  · rw [List.Nodup, List.pairwise_map]
    refine hsorted.imp_of_mem fun {p q} hp hq hlt heq => ?_
    rw [← (hpicked p hp).2, ← (hpicked q hq).2, heq] at hlt
    exact lt_irrefl _ hlt
  · rw [List.length_map, ← hselected]
    exact Greedy.length_select_le _ _
  · rw [List.pairwise_map]
    refine hsorted.imp_of_mem fun {p q} hp hq hlt => ?_
    rw [(hpicked p hp).2, (hpicked q hq).2]
    exact hlt
  · intro q hq hlimit
    have hmem : candidateOf ops base node q ∈
        TopK.sortBy NeighborCandidate.rank (ids.map (candidateOf ops base node)) :=
      TopK.mem_sortBy.mpr (List.mem_map_of_mem hq)
    have hhead : selected.head? = (TopK.sortBy NeighborCandidate.rank
        (ids.map (candidateOf ops base node))).head? := hselected ▸ Greedy.head?_select hlimit _
    have hle : (TopK.sortBy NeighborCandidate.rank (ids.map (candidateOf ops base node))).Pairwise
        fun a b => a.rank ≤ b.rank := TopK.sortBy_pairwise_le _
    cases hpool : TopK.sortBy NeighborCandidate.rank (ids.map (candidateOf ops base node)) with
    | nil =>
      rw [hpool] at hmem
      exact absurd hmem List.not_mem_nil
    | cons first pool =>
      rw [hpool] at hmem hhead hle
      have hfirst : first ∈ selected := List.mem_of_mem_head? (hhead ▸ rfl)
      refine ⟨first.id, by rw [List.head?_map, hhead]; rfl, ?_⟩
      rw [(hpicked first hfirst).2]
      rcases List.mem_cons.mp hmem with heq | hmem
      · exact heq ▸ le_rfl
      · exact (List.pairwise_cons.mp hle).1 _ hmem
  · rw [List.pairwise_map]
    have hkept : selected.Pairwise fun p q =>
        ops.keeps alpha (nodeDistance ops base p.id q.id) q.distance = true :=
      hselected ▸ Greedy.select_pairwise _ _
    refine hkept.imp_of_mem fun {p q} hp hq hkeep => ?_
    rw [← (hpicked q hq).2] at hkeep
    exact (hkeeps p.id q.id).mp hkeep
  · intro hlength q hq hout
    rw [List.length_map, ← hselected] at hlength
    have hmem : candidateOf ops base node q ∈
        TopK.sortBy NeighborCandidate.rank (ids.map (candidateOf ops base node)) :=
      TopK.mem_sortBy.mpr (List.mem_map_of_mem hq)
    rcases Greedy.mem_select_or hlength hmem with hin | ⟨p, hp, hdrop⟩
    · rw [hselected] at hin
      exact absurd (List.mem_map_of_mem hin) hout
    · rw [hselected] at hp
      refine ⟨p.id, List.mem_map_of_mem hp, ?_⟩
      by_contra hfree
      have hkeep := (hkeeps p.id q).mpr hfree
      exact Bool.false_ne_true (hdrop.symm.trans hkeep)

end Selection

namespace VamanaBuilder

variable {F : Type} [LinearOrder F] {ops : FloatOps F} {base : VectorSet}
  {config : VamanaBuildConfig}

theorem mem_uniqueIds_iff {ids : List NodeId} {excluded id : NodeId} {deleted : List Bool} :
    id ∈ uniqueIds ids excluded deleted ↔
      id ∈ ids ∧ id ≠ excluded ∧ isDeleted deleted id.toNat = false := by
  refine ⟨mem_uniqueIds, fun ⟨hmem, hne, hlive⟩ => ?_⟩
  have hfilter : id ∈ ids.filter fun id => !(id == excluded || isDeleted deleted id.toNat) :=
    List.mem_filter.mpr ⟨hmem, by simp [hne, hlive]⟩
  obtain ⟨other, hother, heq⟩ : ∃ other ∈ uniqueIds ids excluded deleted, other = id :=
    Versions.exists_firstsFrom hfilter List.not_mem_nil
  exact heq ▸ hother

/-- The mask deletes the deleted ids. -/
theorem isDeleted_deletedMask {id : NodeId} (h : id.toNat < base.size) :
    isDeleted (deletedMask config base.size) id.toNat = true ↔ id ∈ config.deleted_ids := by
  rw [isDeleted_eq h, deletedAt_deletedMask_iff h]

/-- A candidate that may be picked. -/
def ValidCandidate (config : VamanaBuildConfig) (node_id : NodeId) (candidates : List NodeId)
    (id : NodeId) : Prop :=
  id ∈ candidates ∧ id ≠ node_id ∧ id ∉ config.deleted_ids

theorem mem_uniqueIds_deletedMask (config : VamanaBuildConfig) (node_id : NodeId)
    {candidates : List NodeId}
    (hcandidates : ∀ id ∈ candidates, id.toNat < base.size) (id : NodeId) :
    id ∈ uniqueIds candidates node_id (deletedMask config base.size) ↔
      ValidCandidate config node_id candidates id := by
  rw [mem_uniqueIds_iff, ValidCandidate]
  refine and_congr_right fun hmem => and_congr_right fun _ => ?_
  rw [← Bool.not_eq_true, isDeleted_deletedMask (hcandidates id hmem)]

omit [LinearOrder F] in
/-- With candidates in range the function returns. -/
theorem robustPrune_eq {node_id : NodeId} (hnode : node_id.toNat < base.size)
    (hlive : node_id ∉ config.deleted_ids) {candidates : List NodeId}
    (hcandidates : ∀ id ∈ candidates, id.toNat < base.size) :
    robustPrune ops base config node_id candidates =
      .ok (pruneLoop (fun picked candidate => ops.keeps config.alpha
        (nodeDistance ops base picked.id candidate.id) candidate.distance)
        (min config.max_degree (base.size - 1))
        (sortNeighbors ops ((uniqueIds candidates node_id (deletedMask config base.size)).map
          (candidateOf ops base node_id)))) := by
  have hthrow : ¬base.size ≤ node_id.toNat := not_le.mpr hnode
  have hdeleted : isDeleted (deletedMask config base.size) node_id.toNat = false :=
    Bool.eq_false_iff.mpr fun h => hlive ((isDeleted_deletedMask hnode).mp h)
  have hrows : checkRows base (uniqueIds candidates node_id (deletedMask config base.size)) =
      .ok () := by
    rw [checkRows, throwIf_eq_ok, Bool.not_eq_true, List.any_eq_false]
    intro id hid
    have hrange := hcandidates id (mem_uniqueIds hid).1
    simpa using hrange
  rw [robustPrune, throwIf, if_neg hthrow]
  simp only [bind, Except.bind, pure, Except.pure, hdeleted, hrows, Bool.false_or]
  by_cases hdegree : min config.max_degree (base.size - 1) = 0
  · rw [hdegree]
    rfl
  · rw [if_neg (by simpa using hdegree)]
    rfl

/-- For every base, every live node and every list of candidates in range, `robust_prune` returns a
list of the valid candidates as `PruneSpec` describes it. -/
theorem robustPrune_spec (h : LawfulOps ops) {node_id : NodeId}
    (hnode : node_id.toNat < base.size) (hlive : node_id ∉ config.deleted_ids)
    {candidates : List NodeId} (hcandidates : ∀ id ∈ candidates, id.toNat < base.size) :
    ∃ output, robustPrune ops base config node_id candidates = .ok output ∧
      PruneSpec (ValidCandidate config node_id candidates)
        (fun id => toLex (nodeDistance ops base node_id id, id))
        (Occludes ops base config.alpha node_id) (min config.max_degree (base.size - 1))
        output := by
  have hvalid : (fun id => id ∈ uniqueIds candidates node_id (deletedMask config base.size)) =
      ValidCandidate config node_id candidates :=
    funext fun id => propext (mem_uniqueIds_deletedMask config node_id hcandidates id)
  refine ⟨_, robustPrune_eq hnode hlive hcandidates, ?_⟩
  rw [← hvalid]
  exact pruneSpec_select h (uniqueIds_nodup _ _ _) node_id config.alpha _

/-- Whole coordinates, and a whole `alpha`. -/
def wholeOps : FloatOps ℤ :=
  let distance : List FloatBits → List FloatBits → ℤ := fun a b =>
    (List.zipWith (fun x y => ((x.toNat : ℤ) - y.toNat) ^ 2) a b).sum
  { squared_l2 := distance, l2_distance_sq_simd := distance, lt := fun a b => a < b
    eq := fun a b => a == b, score := distance, nonneg := fun a => 0 ≤ a
    double := fun bits => wholePart bits, mul := fun a b => a * b, belowOne := fun _ => false
    centroid := fun _ => [0], max := 2 ^ 80 }

theorem lawful_wholeOps : LawfulOps wholeOps :=
  ⟨fun _ _ => decide_eq_true_iff, fun _ _ => beq_iff_eq⟩

theorem line_in_range : ∀ id ∈ ([2, 1, 0, 3, 1, 4] : List NodeId),
    id.toNat < VectorSet.size { dim := 1, values := [4, 5, 7, 2, 9] } := by
  intro id hid
  simp only [List.mem_cons, List.not_mem_nil, or_false] at hid
  rcases hid with rfl | rfl | rfl | rfl | rfl | rfl <;> decide

/-- Five points on a line, and `alpha` 2.0: 5 does not occlude 7, which is not twice as close to it as
to the node at 4, but 7 occludes 9. -/
theorem robustPrune_spec_line :
    let base : VectorSet := { dim := 1, values := [4, 5, 7, 2, 9] }
    let config : VamanaBuildConfig := { max_degree := 4, alpha := 0x4000000000000000 }
    robustPrune wholeOps base config 0 [2, 1, 0, 3, 1, 4] = .ok [1, 3, 2] ∧
      PruneSpec (ValidCandidate config 0 [2, 1, 0, 3, 1, 4])
        (fun id => toLex (nodeDistance wholeOps base 0 id, id))
        (Occludes wholeOps base config.alpha 0)
        (min config.max_degree (base.size - 1)) [1, 3, 2] := by
  intro base config
  have hpruned : robustPrune wholeOps base config 0 [2, 1, 0, 3, 1, 4] = .ok [1, 3, 2] := by
    decide +kernel
  obtain ⟨output, houtput, hspec⟩ := @robustPrune_spec ℤ _ wholeOps base config lawful_wholeOps 0
    (by decide) (by decide) [2, 1, 0, 3, 1, 4] line_in_range
  obtain rfl := Except.ok.inj (hpruned.symm.trans houtput)
  exact ⟨hpruned, hspec⟩

end VamanaBuilder

section Agreement

variable {F : Type} [LinearOrder F] [Zero F] {ops : FloatOps F} {base : VectorSet}
  {config : VamanaBuildConfig}

/-- The pool of the other builder holds the same candidates, with repetitions. -/
theorem candidatePool_eq (h : ExactOps ops) (node : NodeId) (candidates : List NodeId)
    (deleted : List Bool) : candidatePool ops base node candidates deleted =
      (candidates.filter fun candidate => !(candidate == node || base.size ≤ candidate.toNat ||
        deleted.length ≤ candidate.toNat || deletedAt deleted candidate.toNat)).map
        (candidateOf ops base node) := by
  rw [candidatePool]
  refine List.map_congr_left fun candidate _ => ?_
  rw [candidateOf, nodeDistance, h.same]

theorem mem_candidatePool_ids (config : VamanaBuildConfig) (node : NodeId) {candidates : List NodeId}
    (hcandidates : ∀ id ∈ candidates, id.toNat < base.size) (id : NodeId) :
    (id ∈ candidates.filter fun candidate => !(candidate == node ||
        base.size ≤ candidate.toNat ||
        (deletedMask base.size config.deleted_ids).length ≤ candidate.toNat ||
        deletedAt (deletedMask base.size config.deleted_ids) candidate.toNat)) ↔
      VamanaBuilder.ValidCandidate config node candidates id := by
  rw [List.mem_filter, VamanaBuilder.ValidCandidate]
  refine and_congr_right fun hmem => ?_
  have hrange := hcandidates id hmem
  have hdeleted := @deletedAt_deletedMask_iff _ config.deleted_ids _ hrange
  rw [length_deletedMask]
  simp [hrange, ← hdeleted]

/-- A candidate does not keep its copies. -/
theorem keeps_self (h : ExactOps ops) (alpha : DoubleBits) (node id : NodeId) :
    ops.keeps alpha (nodeDistance ops base id id) (nodeDistance ops base node id) = false := by
  rw [Bool.eq_false_iff]
  intro hkeep
  have hlt := (h.lt_iff _ _).mp hkeep
  have hzero : nodeDistance ops base id id = 0 := h.self_zero _
  rw [hzero, h.square_mul_zero] at hlt
  exact absurd (h.nonneg _ _) (not_le.mpr hlt)

/-- With the same exact distances, the two implementations of robust pruning agree. -/
theorem robustPrune_eq_robustPruneNeighbors (h : ExactOps ops) {node : NodeId}
    (hnode : node.toNat < base.size) {candidates : List NodeId}
    (hcandidates : ∀ id ∈ candidates, id.toNat < base.size) :
    VamanaBuilder.robustPrune ops base config node candidates =
      .ok (robustPruneNeighbors ops base node candidates config.max_degree config.alpha
        (deletedMask base.size config.deleted_ids)) := by
  have hmask : ¬(deletedMask base.size config.deleted_ids).length ≤ node.toNat := by
    rw [length_deletedMask]
    exact not_le.mpr hnode
  by_cases hlive : node ∈ config.deleted_ids
  · have hdeleted := (deletedAt_deletedMask_iff hnode).mpr hlive
    have hdeleted' := (VamanaBuilder.isDeleted_deletedMask hnode).mpr hlive
    rw [VamanaBuilder.robustPrune, throwIf, if_neg (not_le.mpr hnode), robustPruneNeighbors]
    simp [hdeleted, hdeleted', bind, Except.bind, pure, Except.pure]
  · have hdeleted : deletedAt (deletedMask base.size config.deleted_ids) node.toNat = false :=
      Bool.eq_false_iff.mpr fun h => hlive ((deletedAt_deletedMask_iff hnode).mp h)
    rw [VamanaBuilder.robustPrune_eq hnode hlive hcandidates, robustPruneNeighbors]
    by_cases hdegree : min config.max_degree (base.size - 1) = 0
    · simp [hdegree, pruneLoop]
    · simp only [hdegree, hmask, hdeleted, beq_iff_eq, decide_false, Bool.or_false, if_false]
      rw [candidatePool_eq h, pruneLoop_eq, pruneLoop_eq, sortNeighbors_eq h.toLawfulOps,
        sortNeighbors_eq h.toLawfulOps]
      simp only [h.same]
      have hsame := mem_candidatePool_ids config node hcandidates
      have hunique := VamanaBuilder.mem_uniqueIds_deletedMask config node hcandidates
      refine congrArg (fun selected => Except.ok (selected.map NeighborCandidate.id))
        (Greedy.select_eq_of_mem_iff (@rank_injective F) ?_ (TopK.sortBy_pairwise_le _)
          (TopK.sortBy_pairwise_lt ?_) ?_ _).symm
      · intro candidate hcandidate
        obtain ⟨id, -, rfl⟩ := List.mem_map.mp (TopK.mem_sortBy.mp hcandidate)
        exact keeps_self h config.alpha node id
      · rw [List.map_map]
        refine (VamanaBuilder.uniqueIds_nodup candidates node _).map fun p q hpq => ?_
        have heq : candidateOf ops base node p = candidateOf ops base node q := @rank_injective F _ _ hpq
        exact congrArg NeighborCandidate.id heq
      · intro candidate
        rw [TopK.mem_sortBy, TopK.mem_sortBy, List.mem_map, List.mem_map]
        exact exists_congr fun id => and_congr_left fun _ => (hsame id).trans (hunique id).symm

theorem exact_wholeOps : ExactOps VamanaBuilder.wholeOps := by
  refine ⟨VamanaBuilder.lawful_wholeOps, fun _ _ => rfl, fun a => ?_, fun a b => ?_,
    fun _ => mul_zero _⟩
  · refine List.sum_eq_zero fun square hsquare => ?_
    rw [List.zipWith_self, List.mem_map] at hsquare
    obtain ⟨x, _, rfl⟩ := hsquare
    rw [sub_self]
    rfl
  · refine List.sum_nonneg fun square hsquare => ?_
    rw [← List.map_uncurry_zip_eq_zipWith, List.mem_map] at hsquare
    obtain ⟨_, _, rfl⟩ := hsquare
    exact sq_nonneg _

/-- The five points again: the copy is removed by the occlusion test. -/
theorem robustPruneNeighbors_line :
    let base : VectorSet := { dim := 1, values := [4, 5, 7, 2, 9] }
    let config : VamanaBuildConfig := { max_degree := 4, alpha := 0x4000000000000000 }
    VamanaBuilder.robustPrune VamanaBuilder.wholeOps base config 0 [2, 1, 0, 3, 1, 4] =
      .ok (robustPruneNeighbors VamanaBuilder.wholeOps base 0 [2, 1, 0, 3, 1, 4] 4 config.alpha
        (deletedMask base.size config.deleted_ids)) :=
  robustPrune_eq_robustPruneNeighbors exact_wholeOps (by decide) VamanaBuilder.line_in_range

end Agreement

end Graph
