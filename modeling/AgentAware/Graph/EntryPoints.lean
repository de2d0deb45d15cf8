import AgentAware.Graph.EntrySelector

/-!
# How many entry points

Evenly spaced ids are distinct because a step along the ids is at least one. The hybrid strategy adds
them last, so whatever its other sources have put into the list, there are as many entries as the base
allows. No access is out of range, and no index computation overflows or divides by zero.

## Main definitions

- `spacedId` — an evenly spaced id
- `Entries` — what the list of entries and the set of seen ids keep

## Main results

- `selectEvenlySpacedEntries_eq` — the evenly spaced ids
- `returns_selectGlobalMedoid`, `returns_selectHubEntries`, `returns_selectClusterMedoids` — the other
  sources return ids of the base
- `selectEntryPoints_count` — the entries of both strategies
-/

namespace EntrySelector

section Accesses

variable {α : Type} {values : List α} {index a b : ℕ}

theorem returns_mulIndex (h : a * b < 2 ^ 64) : Returns (mulIndex a b) (· = a * b) :=
  ⟨_, if_pos h, rfl⟩

theorem returns_subIndex (h : b ≤ a) : Returns (subIndex a b) (· = a - b) := ⟨_, if_pos h, rfl⟩

theorem returns_divIndex (h : b ≠ 0) : Returns (divIndex a b) (· = a / b) := ⟨_, if_neg h, rfl⟩

variable {dim cells d : ℕ}

theorem cell_lt (hindex : index < cells) (hd : d < dim) : index * dim + d < cells * dim := by
  have hrow : (index + 1) * dim ≤ cells * dim := Nat.mul_le_mul_right dim hindex
  rw [Nat.add_mul, Nat.one_mul] at hrow
  omega

theorem returns_loadCell (hsize : cells * dim < 2 ^ 64) (hvalues : values.length = cells * dim)
    (hindex : index < cells) (hd : d < dim) :
    Returns (loadCell values dim index d) fun _ => True := by
  have hcell := cell_lt hindex hd
  refine Returns.bind (returns_mulIndex (by omega)) fun offset hoffset => ?_
  exact (returns_load (by omega)).mono fun _ _ => trivial

theorem returns_storeCell (hsize : cells * dim < 2 ^ 64) (hvalues : values.length = cells * dim)
    (hindex : index < cells) (hd : d < dim) (value : α) :
    Returns (storeCell values dim index d value) fun next => next.length = cells * dim := by
  have hcell := cell_lt hindex hd
  refine Returns.bind (returns_mulIndex (by omega)) fun offset hoffset => ?_
  exact (returns_store (by omega) value).mono fun next hnext => hnext.trans hvalues

variable {base : VectorSet}

theorem size_mul_dim_le (base : VectorSet) : base.size * base.dim ≤ base.values.length := by
  rw [VectorSet.size]
  split
  · rw [Nat.zero_mul]
    exact Nat.zero_le _
  · exact Nat.div_mul_le_self _ _

theorem returns_rowAt (hvalues : base.values.length < 2 ^ 64) (h : index < base.size) :
    Returns (rowAt base index) fun row => row.length = base.dim := by
  have hfits : (index + 1) * base.dim ≤ base.values.length :=
    (Nat.mul_le_mul_right base.dim h).trans (size_mul_dim_le base)
  rw [Nat.add_mul, Nat.one_mul] at hfits
  refine Returns.bind (returns_throwFault (not_le.mpr h)) fun _ _ => ?_
  refine Returns.bind (returns_mulIndex (by omega)) fun _ _ => Returns.pure ?_
  rw [VectorSet.row, List.length_take, List.length_drop]
  omega

end Accesses

section Spaced

variable {count actual : ℕ}

/-- An evenly spaced id. -/
def spacedId (count actual i : ℕ) : ℕ :=
  if actual = 1 then 0 else i * (count - 1) / (actual - 1)

/-- A step along the ids is at least one. -/
theorem spacedId_lt_succ (hactual : actual ≤ count) {i : ℕ} (hi : i + 1 < actual) :
    spacedId count actual i < spacedId count actual (i + 1) := by
  have hstep : i * (count - 1) + (actual - 1) ≤ (i + 1) * (count - 1) := by
    rw [Nat.add_mul, Nat.one_mul]
    omega
  rw [spacedId, spacedId, if_neg (by omega), if_neg (by omega)]
  calc i * (count - 1) / (actual - 1)
      < (i * (count - 1) + (actual - 1)) / (actual - 1) := by
        rw [Nat.add_div_right _ (by omega)]
        exact Nat.lt_succ_self _
    _ ≤ (i + 1) * (count - 1) / (actual - 1) := Nat.div_le_div_right hstep

theorem spacedId_lt {i j : ℕ} (hactual : actual ≤ count) (hij : i < j) (hj : j < actual) :
    spacedId count actual i < spacedId count actual j := by
  induction hij with
  | refl => exact spacedId_lt_succ hactual hj
  | step hle ih => exact (ih (by omega)).trans (spacedId_lt_succ hactual hj)

theorem spacedId_zero : spacedId count actual 0 = 0 := by
  rw [spacedId, Nat.zero_mul, Nat.zero_div, ite_self]

theorem spacedId_last (h : 2 ≤ actual) : spacedId count actual (actual - 1) = count - 1 := by
  rw [spacedId, if_neg (by omega)]
  exact Nat.mul_div_cancel_left _ (by omega)

theorem spacedId_lt_count (hcount : 0 < count) {i : ℕ} (hi : i < actual) :
    spacedId count actual i < count := by
  rw [spacedId]
  split
  · exact hcount
  · have hle : i * (count - 1) ≤ (actual - 1) * (count - 1) := Nat.mul_le_mul_right _ (by omega)
    have hdiv : i * (count - 1) / (actual - 1) ≤ count - 1 := by
      refine (Nat.div_le_div_right hle).trans ?_
      rw [Nat.mul_div_cancel_left _ (by omega)]
    omega

/-- The ids of the first rounds, and the same ids as seen. -/
def SpacedPrefix (count actual i : ℕ) (state : List NodeId × List NodeId) : Prop :=
  state.1 = (List.range i).map (fun j => UInt32.ofNat (spacedId count actual j)) ∧
    ∀ id, id ∈ state.2 ↔ id ∈ state.1

theorem returns_spacedIndex {index last parts : ℕ} (hscaled : index * last < 2 ^ 64)
    (hparts : 2 ≤ parts) :
    Returns (spacedIndex index last parts) (· = index * last / (parts - 1)) := by
  refine Returns.bind (returns_mulIndex hscaled) fun scaled hmul => ?_
  refine Returns.bind (returns_subIndex (by omega)) fun divisor hsub => ?_
  rw [hmul, hsub]
  exact returns_divIndex (by omega)

theorem returns_roundId (hcount : 0 < count) (hlimit : count ≤ 2 ^ 32) (hactual : actual ≤ count)
    {i : ℕ} (hi : i < actual) : Returns (roundId count actual i) (· = spacedId count actual i) := by
  rw [roundId, spacedId]
  split
  · exact Returns.pure rfl
  · refine Returns.bind (returns_subIndex hcount) fun last hlast => ?_
    have hscaled : i * last < 2 ^ 32 * 2 ^ 32 :=
      Nat.mul_lt_mul_of_lt_of_le (by omega) (by omega) (by decide)
    rw [← hlast]
    exact returns_spacedIndex hscaled (by omega)

theorem returns_spacedEntry (hcount : 0 < count) (hlimit : count ≤ 2 ^ 32)
    (hactual : actual ≤ count) {i : ℕ} (hi : i < actual) {state : List NodeId × List NodeId}
    (hstate : SpacedPrefix count actual i state) :
    Returns (spacedEntry count actual state i) (SpacedPrefix count actual (i + 1)) := by
  have hlt : spacedId count actual i < count := spacedId_lt_count hcount hi
  refine Returns.bind (returns_roundId hcount hlimit hactual hi) fun id hspaced => ?_
  subst hspaced
  refine Returns.bind (returns_throwFault (by omega)) fun _ _ => Returns.pure ?_
  have hfresh : UInt32.ofNat (spacedId count actual i) ∉ state.2 := by
    rw [hstate.2, hstate.1, List.mem_map]
    rintro ⟨j, hj, heq⟩
    rw [List.mem_range] at hj
    have hbefore : spacedId count actual j < spacedId count actual i := spacedId_lt hactual hj hi
    have hnat := congrArg UInt32.toNat heq
    rw [UInt32.toNat_ofNat_of_lt' (lt_of_lt_of_le (hbefore.trans hlt) hlimit),
      UInt32.toNat_ofNat_of_lt' (lt_of_lt_of_le hlt hlimit)] at hnat
    omega
  rw [if_neg hfresh]
  refine ⟨?_, fun id => ?_⟩
  · rw [hstate.1, List.range_succ, List.map_append, List.map_singleton]
  · rw [List.mem_cons, List.mem_append, List.mem_singleton, hstate.2, or_comm]

/-- Evenly spaced ids: as many as there can be, and every one of them once. -/
theorem selectEvenlySpacedEntries_eq (hlimit : count ≤ 2 ^ 32) (requested : ℕ) :
    selectEvenlySpacedEntries count requested =
      .ok ((List.range (min requested count)).map fun i =>
        UInt32.ofNat (spacedId count (min requested count) i)) := by
  rw [selectEvenlySpacedEntries]
  split
  · next hzero =>
    have hmin : min requested count = 0 := by omega
    rw [hmin]
    rfl
  · next hzero =>
    obtain ⟨state, hloop, hstate⟩ := @Returns.foldlM_range _ _
      (SpacedPrefix count (min requested count)) (spacedEntry count (min requested count))
      (min requested count) ([], [])
      (fun i hi state hstate => returns_spacedEntry (by omega) hlimit (by omega) hi hstate)
      ⟨rfl, fun id => Iff.rfl⟩
    simp only [hloop, bind, Except.bind]
    exact congrArg Except.ok hstate.1

/-- What `select_evenly_spaced_entries` returns. -/
structure SpacedEntries (count requested : ℕ) (ids : List NodeId) : Prop where
  length_eq : ids.length = min requested count
  increasing : ids.Pairwise fun a b => a.toNat < b.toNat
  in_range : ∀ id ∈ ids, id.toNat < count
  first_mem : 2 ≤ ids.length → 0 ∈ ids
  last_mem : 2 ≤ ids.length → ∃ id ∈ ids, id.toNat = count - 1

theorem selectEvenlySpacedEntries_spec (hlimit : count ≤ 2 ^ 32) (requested : ℕ) :
    Returns (selectEvenlySpacedEntries count requested) (SpacedEntries count requested) := by
  have hlt : ∀ i < min requested count, spacedId count (min requested count) i < count :=
    fun i hi => spacedId_lt_count (by omega) hi
  have hnat : ∀ i < min requested count,
      (UInt32.ofNat (spacedId count (min requested count) i)).toNat =
        spacedId count (min requested count) i := by
    intro i hi
    exact UInt32.toNat_ofNat_of_lt' (lt_of_lt_of_le (hlt i hi) hlimit)
  refine ⟨_, selectEvenlySpacedEntries_eq hlimit requested, ?_⟩
  constructor
  · rw [List.length_map, List.length_range]
  · rw [List.pairwise_map]
    refine List.pairwise_lt_range.imp_of_mem fun ha hb hab => ?_
    rw [List.mem_range] at ha hb
    rw [hnat _ ha, hnat _ hb]
    exact spacedId_lt (by omega) hab hb
  · intro id hid
    obtain ⟨i, hi, rfl⟩ := List.mem_map.mp hid
    rw [List.mem_range] at hi
    rw [hnat i hi]
    exact hlt i hi
  · intro htwo
    rw [List.length_map, List.length_range] at htwo
    exact List.mem_map.mpr ⟨0, List.mem_range.mpr (by omega), by rw [spacedId_zero]; rfl⟩
  · intro htwo
    rw [List.length_map, List.length_range] at htwo
    refine ⟨_, List.mem_map.mpr ⟨min requested count - 1, List.mem_range.mpr (by omega), rfl⟩, ?_⟩
    rw [hnat _ (by omega), spacedId_last htwo]

end Spaced

section Sources

variable {floats : EntryFloats} {base : VectorSet}

theorem returns_squaredL2ToVector {lhs rhs : List FloatBits} {dim : ℕ} (hlhs : lhs.length = dim)
    (hrhs : rhs.length = dim) :
    Returns (squaredL2ToVector floats lhs rhs dim) fun _ => True := by
  refine Returns.foldlM (fun d hd distance _ => ?_) trivial
  rw [List.mem_range] at hd
  refine Returns.bind (returns_load (by omega)) fun left _ => ?_
  exact Returns.bind (returns_load (by omega)) fun right _ => Returns.pure trivial

theorem returns_addRow (hvalues : base.values.length < 2 ^ 64) {centroid : List FloatBits}
    (hcentroid : centroid.length = base.dim) {row : ℕ} (hrow : row < base.size) :
    Returns (addRow floats base centroid row) fun next => next.length = base.dim := by
  refine Returns.bind (returns_rowAt hvalues hrow) fun values hlength => ?_
  refine Returns.foldlM (fun d hd sums hsums => ?_) hcentroid
  rw [List.mem_range] at hd
  refine Returns.bind (returns_load (by omega)) fun sum _ => ?_
  refine Returns.bind (returns_load (by omega)) fun value _ => ?_
  exact (returns_store (by omega) _).mono fun next hnext => hnext.trans hsums

theorem returns_selectGlobalMedoid (hvalues : base.values.length < 2 ^ 64)
    (hlimit : base.size ≤ 2 ^ 32) (hbase : 0 < base.size) :
    Returns (selectGlobalMedoid floats base) fun id => id.toNat < base.size := by
  refine Returns.bind (returns_throwFault hbase.ne') fun _ _ => ?_
  refine Returns.bind (Returns.foldlM (fun row hrow centroid hcentroid =>
    returns_addRow hvalues hcentroid (List.mem_range.mp hrow)) List.length_replicate)
    fun sums hsums => ?_
  refine Returns.bind (Returns.foldlM (S := fun best => best.1.toNat < base.size)
    (fun row hrow best hbest => ?_) hbase) fun best hbest => Returns.pure hbest
  rw [List.mem_range] at hrow
  refine Returns.bind (returns_rowAt hvalues hrow) fun values hlength => ?_
  refine Returns.bind (returns_squaredL2ToVector hlength (by rw [List.length_map, hsums]))
    fun distance _ => Returns.pure ?_
  split
  · change (UInt32.ofNat row).toNat < base.size
    rwa [UInt32.toNat_ofNat_of_lt' (lt_of_lt_of_le hrow hlimit)]
  · exact hbest

theorem returns_selectHubEntries (degrees : List UInt32) {count : ℕ} (hlimit : count ≤ 2 ^ 32)
    (requested : ℕ) :
    Returns (selectHubEntries degrees count requested) fun ids => ∀ id ∈ ids, id.toNat < count := by
  rw [selectHubEntries]
  split
  · exact Returns.pure fun id hid => absurd hid List.not_mem_nil
  · have hid : ∀ id ∈ (List.range (min degrees.length count)).map UInt32.ofNat,
        id.toNat < min degrees.length count := by
      intro id hid
      obtain ⟨i, hi, rfl⟩ := List.mem_map.mp hid
      rw [List.mem_range] at hi
      rwa [UInt32.toNat_ofNat_of_lt' (lt_of_lt_of_le (lt_of_lt_of_le hi (Nat.min_le_right _ _)) hlimit)]
    have hdegree : ∀ id ∈ (List.range (min degrees.length count)).map UInt32.ofNat,
        Returns (do
          let degree ← load degrees id.toNat
          return (degree, id) : Except Fault (UInt32 × NodeId)) fun pair => pair.2 = id := by
      intro id hmem
      have hlt := hid id hmem
      exact Returns.bind (returns_load (by omega)) fun degree _ => Returns.pure rfl
    refine Returns.bind (Returns.mapM hdegree) fun ranked hall => Returns.pure fun id hmem => ?_
    obtain ⟨pair, hpair, rfl⟩ := List.mem_map.mp (List.mem_of_mem_take hmem)
    obtain ⟨source, hsource, heq⟩ := hall.2 pair ((List.perm_insertionSort _ _).mem_iff.mp hpair)
    have hlt := hid source hsource
    rw [heq]
    omega

end Sources

section Clusters

variable {floats : EntryFloats} {base : VectorSet} {sample_ids : List NodeId} {centroid_count : ℕ}

/-- What the loops over clusters are given: samples of the base, and no more centroids than samples. -/
structure Clusters (base : VectorSet) (sample_ids : List NodeId) (centroid_count : ℕ) : Prop where
  values_lt : base.values.length < 2 ^ 64
  size_lt : centroid_count * base.dim < 2 ^ 64
  count_pos : 0 < centroid_count
  count_le : centroid_count ≤ sample_ids.length
  samples_le : sample_ids.length ≤ 2 ^ 32
  samples : ∀ id ∈ sample_ids, id.toNat < base.size

theorem returns_sampleIndex (h : Clusters base sample_ids centroid_count) {centroid : ℕ}
    (hcentroid : centroid < centroid_count) :
    Returns (sampleIndex sample_ids centroid_count centroid) (· < sample_ids.length) := by
  have hpos := h.count_pos
  have hle := h.count_le
  have hsamples := h.samples_le
  rw [sampleIndex]
  split
  · exact (returns_divIndex (by decide)).mono fun index hindex => by omega
  · refine Returns.bind (returns_subIndex (by omega)) fun last hlast => ?_
    have hscaled : centroid * last < 2 ^ 32 * 2 ^ 32 :=
      Nat.mul_lt_mul_of_lt_of_le (by omega) (by omega) (by decide)
    refine (returns_spacedIndex hscaled (by omega)).mono fun index hindex => ?_
    have hmul : centroid * last ≤ (centroid_count - 1) * last := Nat.mul_le_mul_right _ (by omega)
    have hdiv : centroid * last / (centroid_count - 1) ≤ last := by
      refine (Nat.div_le_div_right hmul).trans ?_
      rw [Nat.mul_div_cancel_left _ (by omega)]
    omega

theorem returns_seedCentroid (h : Clusters base sample_ids centroid_count)
    {centroids : List FloatBits} (hcentroids : centroids.length = centroid_count * base.dim)
    {centroid : ℕ} (hcentroid : centroid < centroid_count) :
    Returns (seedCentroid base sample_ids centroid_count centroids centroid) fun next =>
      next.length = centroid_count * base.dim := by
  refine Returns.bind (returns_sampleIndex h hcentroid) fun sample_index hindex => ?_
  refine Returns.bind (returns_load hindex) fun id hid => ?_
  refine Returns.bind (returns_rowAt h.values_lt (h.samples id hid)) fun row hrow => ?_
  refine Returns.foldlM (fun d hd centroids hcentroids => ?_) hcentroids
  rw [List.mem_range] at hd
  refine Returns.bind (returns_load (by omega)) fun value _ => ?_
  exact returns_storeCell h.size_lt hcentroids hcentroid hd value

theorem returns_centroidDistance (h : Clusters base sample_ids centroid_count)
    {vector centroids : List FloatBits} (hvector : vector.length = base.dim)
    (hcentroids : centroids.length = centroid_count * base.dim) {centroid : ℕ}
    (hcentroid : centroid < centroid_count) :
    Returns (centroidDistance floats base vector centroids centroid) fun _ => True := by
  refine Returns.foldlM (fun d hd distance _ => ?_) trivial
  rw [List.mem_range] at hd
  refine Returns.bind (returns_load (by omega)) fun value _ => ?_
  exact Returns.bind (returns_loadCell h.size_lt hcentroids hcentroid hd) fun _ _ =>
    Returns.pure trivial

theorem returns_nearestCentroid (h : Clusters base sample_ids centroid_count)
    {vector centroids : List FloatBits} (hvector : vector.length = base.dim)
    (hcentroids : centroids.length = centroid_count * base.dim) :
    Returns (nearestCentroid floats base vector centroids centroid_count) (· < centroid_count) := by
  refine Returns.bind (Returns.foldlM (S := fun best => best.1 < centroid_count)
    (fun centroid hcentroid best hbest => ?_) h.count_pos) fun best hbest => Returns.pure hbest
  rw [List.mem_range] at hcentroid
  refine Returns.bind (returns_centroidDistance h hvector hcentroids hcentroid)
    fun distance _ => Returns.pure ?_
  split
  · exact hcentroid
  · exact hbest

/-- The sizes of what an iteration collects. -/
structure SumsOk (base : VectorSet) (sample_ids : List NodeId) (centroid_count : ℕ)
    (state : ClusterSums) : Prop where
  sums : state.sums.length = centroid_count * base.dim
  counts : state.counts.length = centroid_count
  assignments : state.assignments.length = sample_ids.length

theorem returns_assignSample (h : Clusters base sample_ids centroid_count)
    {centroids : List FloatBits} (hcentroids : centroids.length = centroid_count * base.dim)
    {state : ClusterSums} (hstate : SumsOk base sample_ids centroid_count state) {i : ℕ}
    (hi : i < sample_ids.length) :
    Returns (assignSample floats base sample_ids centroid_count centroids state i)
      (SumsOk base sample_ids centroid_count) := by
  have hassignments := hstate.assignments
  have hcounts := hstate.counts
  refine Returns.bind (returns_load hi) fun id hid => ?_
  refine Returns.bind (returns_rowAt h.values_lt (h.samples id hid)) fun row hrow => ?_
  refine Returns.bind (returns_nearestCentroid h hrow hcentroids) fun centroid hcentroid => ?_
  refine Returns.bind (returns_store (by omega) _) fun assignments hassigned => ?_
  refine Returns.bind (returns_load (by omega)) fun count _ => ?_
  refine Returns.bind (returns_store (by omega) _) fun counts hcounted => ?_
  refine Returns.bind (Returns.foldlM (fun d hd sums hsums => ?_) hstate.sums) fun sums hsums =>
    Returns.pure ⟨hsums, hcounted.trans hcounts, hassigned.trans hassignments⟩
  rw [List.mem_range] at hd
  refine Returns.bind (returns_loadCell h.size_lt hsums hcentroid hd) fun sum _ => ?_
  refine Returns.bind (returns_load (by omega)) fun value _ => ?_
  exact returns_storeCell h.size_lt hsums hcentroid hd _

theorem returns_moveCentroid (h : Clusters base sample_ids centroid_count) {state : ClusterSums}
    (hstate : SumsOk base sample_ids centroid_count state) {centroids : List FloatBits}
    (hcentroids : centroids.length = centroid_count * base.dim) {centroid : ℕ}
    (hcentroid : centroid < centroid_count) :
    Returns (moveCentroid floats base state centroids centroid) fun next =>
      next.length = centroid_count * base.dim := by
  have hcounts := hstate.counts
  refine Returns.bind (returns_load (by omega)) fun count _ => ?_
  split
  · exact Returns.pure hcentroids
  · refine Returns.foldlM (fun d hd centroids hcentroids => ?_) hcentroids
    rw [List.mem_range] at hd
    refine Returns.bind (returns_loadCell h.size_lt hstate.sums hcentroid hd) fun sum _ => ?_
    exact returns_storeCell h.size_lt hcentroids hcentroid hd _

/-- The sizes of the centroids and the assignments. -/
def Trained (base : VectorSet) (sample_ids : List NodeId) (centroid_count : ℕ)
    (state : List FloatBits × List ℕ) : Prop :=
  state.1.length = centroid_count * base.dim ∧ state.2.length = sample_ids.length

theorem returns_trainIteration (h : Clusters base sample_ids centroid_count)
    {state : List FloatBits × List ℕ} (hstate : Trained base sample_ids centroid_count state)
    (iter : ℕ) :
    Returns (trainIteration floats base sample_ids centroid_count state iter)
      (Trained base sample_ids centroid_count) := by
  refine Returns.bind (returns_mulIndex h.size_lt) fun size hsize => ?_
  subst hsize
  have hempty : SumsOk base sample_ids centroid_count
      ⟨List.replicate (centroid_count * base.dim) 0, List.replicate centroid_count 0, state.2⟩ :=
    ⟨List.length_replicate, List.length_replicate, hstate.2⟩
  refine Returns.bind (Returns.foldlM (fun i hi sums hsums =>
    returns_assignSample h hstate.1 hsums (List.mem_range.mp hi)) hempty) fun sums hsums => ?_
  refine Returns.bind (Returns.foldlM (fun centroid hcentroid centroids hcentroids =>
    returns_moveCentroid h hsums hcentroids (List.mem_range.mp hcentroid)) hstate.1)
    fun centroids hcentroids => Returns.pure ⟨hcentroids, hsums.assignments⟩

theorem returns_considerSample (h : Clusters base sample_ids centroid_count)
    {assignments : List ℕ} (hassignments : assignments.length = sample_ids.length)
    {center : List FloatBits} (hcenter : center.length = base.dim) (used : List NodeId)
    (centroid : ℕ) {best : ClusterBest}
    (hbest : best.found = true → best.best_id.toNat < base.size) {i : ℕ}
    (hi : i < sample_ids.length) :
    Returns (considerSample floats base sample_ids assignments used center centroid best i)
      fun next => next.found = true → next.best_id.toNat < base.size := by
  refine Returns.bind (returns_load (by omega)) fun assigned _ => ?_
  split
  · exact Returns.pure hbest
  · refine Returns.bind (returns_load hi) fun id hid => ?_
    split
    · exact Returns.pure hbest
    · refine Returns.bind (returns_rowAt h.values_lt (h.samples id hid)) fun row hrow => ?_
      refine Returns.bind (returns_squaredL2ToVector hrow hcenter) fun distance _ =>
        Returns.pure ?_
      split
      · exact fun _ => h.samples id hid
      · exact hbest

theorem returns_pickMedoid (h : Clusters base sample_ids centroid_count)
    {trained : List FloatBits × List ℕ} (htrained : Trained base sample_ids centroid_count trained)
    {state : List NodeId × List NodeId} (hstate : ∀ id ∈ state.2, id.toNat < base.size)
    {centroid : ℕ} (hcentroid : centroid < centroid_count) :
    Returns (pickMedoid floats base sample_ids trained.1 trained.2 state centroid) fun next =>
      ∀ id ∈ next.2, id.toNat < base.size := by
  have hcells : ∀ d ∈ List.range base.dim,
      Returns (loadCell trained.1 base.dim centroid d) fun _ => True := fun d hd =>
    returns_loadCell h.size_lt htrained.1 hcentroid (List.mem_range.mp hd)
  refine Returns.bind (Returns.mapM hcells) fun center hcenter => ?_
  have hlength : center.length = base.dim := by rw [hcenter.1, List.length_range]
  refine Returns.bind (Returns.foldlM (fun i hi best hbest => returns_considerSample h htrained.2
    hlength state.1 centroid hbest (List.mem_range.mp hi)) fun hfound => absurd hfound (by decide))
    fun best hbest => Returns.pure ?_
  split
  · next hfound =>
    intro id hid
    cases List.mem_append.mp hid with
    | inl hmem => exact hstate id hmem
    | inr hlast =>
      rw [List.mem_singleton] at hlast
      exact hlast ▸ hbest hfound
  · exact hstate

theorem returns_selectClusterMedoids (hvalues : base.values.length < 2 ^ 64)
    (hlimit : base.size ≤ 2 ^ 32) (requested train_limit iterations : ℕ) :
    Returns (selectClusterMedoids floats base requested train_limit iterations) fun ids =>
      ∀ id ∈ ids, id.toNat < base.size := by
  rw [selectClusterMedoids]
  split
  · exact Returns.pure fun id hid => absurd hid List.not_mem_nil
  · refine Returns.bind (selectEvenlySpacedEntries_spec hlimit _) fun sample_ids hspaced => ?_
    have hlength : sample_ids.length ≤ base.size := by
      rw [hspaced.length_eq]
      exact Nat.min_le_right _ _
    dsimp only
    split
    · exact Returns.pure fun id hid => absurd hid List.not_mem_nil
    · next hcount =>
      have hcells : min requested sample_ids.length * base.dim ≤ base.size * base.dim :=
        Nat.mul_le_mul_right _ ((Nat.min_le_right _ _).trans hlength)
      have hbound : base.size * base.dim ≤ base.values.length := size_mul_dim_le base
      have h : Clusters base sample_ids (min requested sample_ids.length) :=
        ⟨hvalues, by omega, Nat.pos_of_ne_zero hcount, Nat.min_le_right _ _, by omega,
          hspaced.in_range⟩
      refine Returns.bind (returns_mulIndex h.size_lt) fun size hsize => ?_
      subst hsize
      refine Returns.bind (Returns.foldlM (fun centroid hcentroid centroids hcentroids =>
        returns_seedCentroid h hcentroids (List.mem_range.mp hcentroid)) List.length_replicate)
        fun centroids hcentroids => ?_
      have hinitial : Trained base sample_ids (min requested sample_ids.length)
          (centroids, List.replicate sample_ids.length 0) := ⟨hcentroids, List.length_replicate⟩
      refine Returns.bind (Returns.foldlM (fun iter _ state hstate =>
        returns_trainIteration h hstate iter) hinitial) fun trained htrained => ?_
      refine Returns.bind (Returns.foldlM (S := fun state => ∀ id ∈ state.2, id.toNat < base.size)
        (fun centroid hcentroid state hstate =>
          returns_pickMedoid h htrained hstate (List.mem_range.mp hcentroid))
        fun id hid => absurd hid List.not_mem_nil) fun picked hpicked => Returns.pure hpicked

end Clusters

section Hybrid

variable {count limit : ℕ} {state : List NodeId × List NodeId}

/-- The entries are distinct ids of the base, within the limit; they are the ids seen. -/
structure Entries (count limit : ℕ) (state : List NodeId × List NodeId) : Prop where
  nodup : state.1.Nodup
  seen_iff : ∀ id, id ∈ state.2 ↔ id ∈ state.1
  in_range : ∀ id ∈ state.1, id.toNat < count
  length_le : state.1.length ≤ limit

theorem entries_nil : Entries count limit ([], []) :=
  ⟨List.nodup_nil, fun _ => Iff.rfl, fun _ hid => absurd hid List.not_mem_nil, Nat.zero_le _⟩

theorem entries_appendUnique (h : Entries count limit state) {id : NodeId} (hid : id.toNat < count) :
    Entries count limit (appendUnique limit state id) := by
  rw [appendUnique]
  split
  · exact h
  · next hroom =>
    split
    · exact h
    · next hnew =>
      rw [h.seen_iff] at hnew
      constructor
      · refine List.nodup_append.mpr ⟨h.nodup, List.nodup_singleton id, fun a ha b hb => ?_⟩
        rw [List.mem_singleton] at hb
        exact fun heq => hnew (hb ▸ heq ▸ ha)
      · intro other
        rw [List.mem_cons, List.mem_append, List.mem_singleton, h.seen_iff, or_comm]
      · intro other hother
        cases List.mem_append.mp hother with
        | inl hmem => exact h.in_range other hmem
        | inr hlast =>
          rw [List.mem_singleton] at hlast
          exact hlast ▸ hid
      · rw [List.length_append, List.length_singleton]
        omega

theorem entries_foldl (h : Entries count limit state) {ids : List NodeId}
    (hids : ∀ id ∈ ids, id.toNat < count) :
    Entries count limit (ids.foldl (appendUnique limit) state) := by
  induction ids generalizing state with
  | nil => exact h
  | cons id ids ih =>
    exact ih (entries_appendUnique h (hids id List.mem_cons_self))
      fun other hother => hids other (List.mem_cons_of_mem _ hother)

/-- No entry is taken out again. -/
theorem mem_foldl_of_mem {id : NodeId} (h : id ∈ state.1) (ids : List NodeId) :
    id ∈ (ids.foldl (appendUnique limit) state).1 := by
  induction ids generalizing state with
  | nil => exact h
  | cons other ids ih =>
    refine ih ?_
    rw [appendUnique]
    split
    · exact h
    · split
      · exact h
      · exact List.mem_append_left _ h

/-- An id that is offered is an entry, unless there are enough. -/
theorem foldl_covers (h : Entries count limit state) {ids : List NodeId}
    (hids : ∀ id ∈ ids, id.toNat < count) :
    limit ≤ (ids.foldl (appendUnique limit) state).1.length ∨
      ∀ id ∈ ids, id ∈ (ids.foldl (appendUnique limit) state).1 := by
  induction ids generalizing state with
  | nil => exact Or.inr fun id hid => absurd hid List.not_mem_nil
  | cons id ids ih =>
    have hnext := entries_appendUnique h (hids id List.mem_cons_self)
    rw [List.foldl_cons]
    cases ih hnext fun other hother => hids other (List.mem_cons_of_mem _ hother) with
    | inl hfull => exact Or.inl hfull
    | inr hall =>
      by_cases hroom : limit ≤ state.1.length
      · left
        have hkeep : state.1.length ≤ (ids.foldl (appendUnique limit)
            (appendUnique limit state id)).1.length := by
          refine (List.subperm_of_subset h.nodup fun other hother => ?_).length_le
          exact @mem_foldl_of_mem limit state other hother (id :: ids)
        omega
      · right
        intro other hother
        cases List.mem_cons.mp hother with
        | inr hmem => exact hall other hmem
        | inl heq =>
          refine mem_foldl_of_mem ?_ ids
          rw [heq, appendUnique, if_neg hroom]
          split
          · next hseen => exact (h.seen_iff id).mp hseen
          · exact List.mem_append_right _ List.mem_cons_self

/-- Distinct ids of a base are at most as many as it has vectors. -/
theorem Entries.length_le_count (h : Entries count limit state) : state.1.length ≤ count := by
  have hnodup : (state.1.map UInt32.toNat).Nodup :=
    h.nodup.map fun a b hab => UInt32.toNat_inj.mp hab
  have hsub : state.1.map UInt32.toNat ⊆ List.range count := by
    intro n hn
    obtain ⟨id, hid, rfl⟩ := List.mem_map.mp hn
    exact List.mem_range.mpr (h.in_range id hid)
  have hle := (List.subperm_of_subset hnodup hsub).length_le
  rwa [List.length_map, List.length_range] at hle

/-- Entries that hold the evenly spaced ids, or as many as are asked for, are enough. -/
theorem Entries.length_eq (h : Entries count limit state) {fallback : List NodeId}
    (hfallback : SpacedEntries count limit fallback)
    (hcover : limit ≤ state.1.length ∨ ∀ id ∈ fallback, id ∈ state.1) :
    state.1.length = min limit count := by
  have hcount := h.length_le_count
  have hlimit := h.length_le
  cases hcover with
  | inl hfull => omega
  | inr hall =>
    have hnodup : fallback.Nodup :=
      hfallback.increasing.imp fun hlt heq => absurd (heq ▸ hlt) (lt_irrefl _)
    have hle := (List.subperm_of_subset hnodup hall).length_le
    rw [hfallback.length_eq] at hle
    omega

variable {floats : EntryFloats} {base : VectorSet}

theorem returns_hubEntries (degrees : Option (List UInt32)) (hcount : count ≤ 2 ^ 32)
    (requested : ℕ) :
    Returns (hubEntries degrees count requested) fun ids => ∀ id ∈ ids, id.toNat < count := by
  cases degrees with
  | none => exact Returns.pure fun id hid => absurd hid List.not_mem_nil
  | some degrees => exact returns_selectHubEntries degrees hcount requested

theorem returns_remainingEntries (entry_count size : ℕ) :
    Returns (remainingEntries entry_count size) fun _ => True := by
  rw [remainingEntries]
  split
  · next hlt => exact (returns_subIndex (Nat.le_of_lt hlt)).mono fun _ _ => trivial
  · exact Returns.pure trivial

/-- What both strategies return. -/
structure EntryPoints (base : VectorSet) (entry_count : ℕ) (ids : List NodeId) : Prop where
  length_eq : ids.length = min entry_count base.size
  nodup : ids.Nodup
  in_range : ∀ id ∈ ids, id.toNat < base.size

theorem returns_selectHybridEntries (hvalues : base.values.length < 2 ^ 64)
    (hlimit : base.size ≤ 2 ^ 32) (hbase : 0 < base.size) (config : EntrySelectionConfig)
    (degrees : Option (List UInt32)) :
    Returns (selectHybridEntries floats base config degrees)
      (EntryPoints base config.entry_count) := by
  refine Returns.bind (returns_selectGlobalMedoid hvalues hlimit hbase) fun medoid hmedoid => ?_
  have hstarted : Entries base.size config.entry_count
      (appendUnique config.entry_count ([], []) medoid) := entries_appendUnique entries_nil hmedoid
  refine Returns.bind (returns_hubEntries degrees hlimit _) fun hubs hhubs => ?_
  have hwithHubs := entries_foldl hstarted hhubs
  refine Returns.bind (returns_remainingEntries _ _) fun remaining _ => ?_
  refine Returns.bind (returns_selectClusterMedoids hvalues hlimit _ _ _) fun medoids hmedoids => ?_
  have hwithMedoids := entries_foldl hwithHubs hmedoids
  dsimp only
  split
  · refine Returns.bind (selectEvenlySpacedEntries_spec hlimit _) fun fallback hfallback =>
      Returns.pure ?_
    have hall := entries_foldl hwithMedoids hfallback.in_range
    exact ⟨hall.length_eq hfallback (foldl_covers hwithMedoids hfallback.in_range), hall.nodup,
      hall.in_range⟩
  · next hfull =>
    obtain ⟨fallback, _, hfallback⟩ :=
      selectEvenlySpacedEntries_spec hlimit config.entry_count
    exact Returns.pure ⟨hwithMedoids.length_eq hfallback (Or.inl (not_lt.mp hfull)),
      hwithMedoids.nodup, hwithMedoids.in_range⟩

/-- Both strategies return as many distinct ids as are asked for, or all of the base; evenly spaced ids
increase from the first to the last. Every call returns, so no access and no index computation fails. -/
theorem selectEntryPoints_count (floats : EntryFloats) (hvalues : base.values.length < 2 ^ 64)
    (hlimit : base.size ≤ 2 ^ 32) (config : EntrySelectionConfig)
    (hstrategy : config.strategy = .evenlySpaced ∨ config.strategy = .hybridMedoidHubsClusters)
    (node_in_degrees : Option (List UInt32)) :
    Returns (selectEntryPoints floats base config node_in_degrees)
        (EntryPoints base config.entry_count) ∧
      ∀ requested, Returns (selectEvenlySpacedEntries base.size requested)
        (SpacedEntries base.size requested) := by
  refine ⟨?_, fun requested => selectEvenlySpacedEntries_spec hlimit requested⟩
  rw [selectEntryPoints]
  split
  · next hempty =>
    refine Returns.pure ⟨?_, List.nodup_nil, fun id hid => absurd hid List.not_mem_nil⟩
    rw [List.length_nil]
    omega
  · next hnonempty =>
    cases hstrategy with
    | inl hspaced =>
      rw [hspaced]
      refine (selectEvenlySpacedEntries_spec hlimit config.entry_count).mono fun ids hids =>
        ⟨hids.length_eq, ?_, hids.in_range⟩
      exact hids.increasing.imp fun hlt heq => absurd (heq ▸ hlt) (lt_irrefl _)
    | inr hhybrid =>
      rw [hhybrid]
      exact returns_selectHybridEntries hvalues hlimit (by omega) config node_in_degrees

/-- Four vectors, and hubs and clusters that collide with the medoid. -/
theorem selectEntryPoints_count_four :
    let floats : EntryFloats :=
      { add := fun a b => a + b, sub := fun a b => if a < b then b - a else a - b
        mul := fun a b => a * b, lt := fun a b => a < b, eq := fun a b => a == b
        reciprocal := fun _ => 1, accumulate := fun sum value => sum + value.toUInt64
        average := fun sum count => (sum / UInt64.ofNat count).toUInt32 }
    let base : VectorSet := { dim := 1, values := [1, 2, 7, 9] }
    let config : EntrySelectionConfig :=
      { strategy := .hybridMedoidHubsClusters, entry_count := 3, hub_count := 2, cluster_count := 1 }
    base.values.length < 2 ^ 64 ∧ base.size ≤ 2 ^ 32 ∧
      config.strategy = .hybridMedoidHubsClusters ∧
      Returns (selectEntryPoints floats base config (some [0, 4, 0, 4]))
        (EntryPoints base config.entry_count) := by
  intro floats base config
  exact ⟨by decide, by decide, rfl,
    (selectEntryPoints_count floats (by decide) (by decide) config (Or.inr rfl) _).1⟩

end Hybrid

end EntrySelector
