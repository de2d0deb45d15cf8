import AgentAware.Core.PQEncoder
import AgentAware.Lib.Returns
import Mathlib.Algebra.BigOperators.Intervals
import Mathlib.Algebra.Order.BigOperators.Group.Finset

/-!
# Distances to decoded vectors

The offsets of the subspaces cut the dimensions into consecutive parts, so a squared distance is the
sum of its parts. The table holds the parts for all centroids, and a code names one of them in every
subspace.

## Main definitions

- `PQEncoder.Shaped` — the sizes of the arrays fit together
- `PQEncoder.gap` — the part of a squared distance that a centroid contributes
- `squaredL2` — the squared distance of two vectors

## Main results

- `PQEncoder.encode_ok`, `PQEncoder.decodeCode_ok` — encoding and decoding stay within the arrays
- `PQEncoder.buildAdcTable_ok`, `PQEncoder.adcDistance_ok` — the table and the sum over it
-/

section Arrays

variable {α : Type} {values : List α} {index : ℕ}

theorem load_eq_ok {value : α} (h : values[index]? = some value) :
    load values index = .ok value := by
  rw [load, h]

theorem load_ok (h : index < values.length) (fallback : α) :
    load values index = .ok (values.getD index fallback) := by
  rw [load_eq_ok (List.getElem?_eq_getElem h), List.getD_eq_getElem?_getD,
    List.getElem?_eq_getElem h]
  rfl

theorem store_ok (h : index < values.length) (value : α) :
    store values index value = .ok (values.set index value) := if_pos h

theorem returns_load_eq {value : α} (h : values[index]? = some value) :
    Returns (load values index) (· = value) := ⟨value, load_eq_ok h, rfl⟩

theorem returns_load (h : index < values.length) : Returns (load values index) (· ∈ values) :=
  ⟨_, load_eq_ok (List.getElem?_eq_getElem h), List.getElem_mem h⟩

theorem returns_store (h : index < values.length) (value : α) :
    Returns (store values index value) fun next => next.length = values.length :=
  ⟨_, store_ok h value, List.length_set⟩

theorem getD_set (values : List α) {index : ℕ} (h : index < values.length) (value fallback : α)
    (other : ℕ) : (values.set index value).getD other fallback =
      if other = index then value else values.getD other fallback := by
  rw [List.getD_eq_getElem?_getD, List.getD_eq_getElem?_getD, List.getElem?_set]
  by_cases heq : index = other
  · simp [← heq, h]
  · simp [heq, Ne.symm heq]

theorem throwFault_ok {condition : Prop} [Decidable condition] {message : String}
    (h : ¬condition) : throwFault condition message = .ok () := if_neg h

theorem returns_throwFault {condition : Prop} [Decidable condition] {message : String}
    (h : ¬condition) : Returns (throwFault condition message) fun _ => True :=
  ⟨(), throwFault_ok h, trivial⟩

theorem load_eq_ok_iff {value : α} :
    load values index = .ok value ↔ values[index]? = some value := by
  rw [load]
  cases values[index]? with
  | none => simp
  | some found => simp

theorem store_eq_ok_iff {value : α} {next : List α} :
    store values index value = .ok next ↔ index < values.length ∧ values.set index value = next := by
  rw [store]
  split
  · next h => simp [h]
  · next h => simp [h]

theorem throwFault_eq_ok_iff {condition : Prop} [Decidable condition] {message : String}
    {value : Unit} : throwFault condition message = .ok value ↔ ¬condition := by
  rw [throwFault]
  split
  · next h => simp [h]
  · next h => simp [h]

/-- A copy that has returned was within the target. -/
theorem of_copyRange_eq_ok {source target result : List α} {source_offset target_offset first last : ℕ}
    (h : copyRange source source_offset target target_offset first last = .ok result) :
    result.length = target.length ∧
      ∀ d, first ≤ d → d < last → target_offset + d < target.length := by
  have hround : ∀ d (state next : List α), (do
      let value ← load source (source_offset + d)
      store state (target_offset + d) value) = Except.ok next →
      target_offset + d < state.length ∧ next.length = state.length := by
    intro d state next hnext
    obtain ⟨value, -, hstore⟩ := except_bind_eq_ok.mp hnext
    obtain ⟨hlt, rfl⟩ := store_eq_ok_iff.mp hstore
    exact ⟨hlt, List.length_set⟩
  obtain ⟨hlength, hrounds⟩ := round_of_foldlM_ok
    (P := fun state : List α => state.length = target.length)
    (fun d _ state next hstate hnext => (hround d state next hnext).2.trans hstate) rfl h
  refine ⟨hlength, fun d hfirst hlast => ?_⟩
  obtain ⟨state, next, hstate, hnext⟩ := hrounds d (List.mem_range'_1.mpr ⟨hfirst, by omega⟩)
  exact hstate ▸ (hround d state next hnext).1

/-- A copy within both arrays. -/
theorem copyRange_ok {source target : List α} {source_offset target_offset first last : ℕ}
    (hrange : first ≤ last) (hsource : source_offset + last ≤ source.length)
    (htarget : target_offset + last ≤ target.length) (fallback : α) :
    ∃ result, copyRange source source_offset target target_offset first last = .ok result ∧
      result.length = target.length ∧ ∀ t, result.getD t fallback =
        if target_offset + first ≤ t ∧ t < target_offset + last then
          source.getD (source_offset + (t - target_offset)) fallback
        else target.getD t fallback := by
  obtain ⟨count, rfl⟩ := Nat.exists_eq_add_of_le hrange
  rw [copyRange, Nat.add_sub_cancel_left]
  induction count generalizing first target with
  | zero =>
    refine ⟨target, rfl, rfl, fun t => ?_⟩
    rw [if_neg (by omega)]
  | succ count ih =>
    have hstart : target_offset + first < target.length := by omega
    obtain ⟨result, hresult, hlength, hvalues⟩ := @ih
      (target.set (target_offset + first) (source.getD (source_offset + first) fallback)) (first + 1)
      (by omega) (by omega) (by rw [List.length_set]; omega)
    refine ⟨result, ?_, by rw [hlength, List.length_set], fun t => ?_⟩
    · rw [List.range'_succ, List.foldlM_cons, load_ok (by omega) fallback]
      simp only [bind, Except.bind, store_ok hstart]
      exact hresult
    · rw [hvalues, getD_set _ hstart]
      by_cases ht : t = target_offset + first
      · subst ht
        rw [if_neg (by omega), if_pos rfl, if_pos (by omega), Nat.add_sub_cancel_left]
      · rw [if_neg ht]
        by_cases hin : target_offset + first ≤ t ∧ t < target_offset + (first + (count + 1))
        · rw [if_pos (by omega), if_pos hin]
        · rw [if_neg (by omega), if_neg hin]

end Arrays

section Sums

variable {F : Type} [Field F]

/-- The squared distance of two vectors. -/
def squaredL2 (a b : List F) : F :=
  ∑ d ∈ Finset.range a.length, (a.getD d 0 - b.getD d 0) * (a.getD d 0 - b.getD d 0)

theorem foldl_range'_add (f : ℕ → F) (first count : ℕ) (init : F) :
    (List.range' first count).foldl (fun sum d => sum + f d) init =
      init + ∑ d ∈ Finset.Ico first (first + count), f d := by
  induction count with
  | zero => simp
  | succ count ih =>
    rw [List.range'_1_concat, List.foldl_append, ih, ← Nat.add_assoc,
      Finset.sum_Ico_succ_top (Nat.le_add_right _ _), ← add_assoc]
    rfl

end Sums

namespace PQEncoder

variable {F : Type}

/-- Where a subspace starts. -/
def offset (encoder : PQEncoder F) (m : ℕ) : ℕ := m * encoder.dim / encoder.subspaces

/-- The sizes of the arrays fit together. -/
structure Shaped (encoder : PQEncoder F) : Prop where
  subspaces_pos : 0 < encoder.subspaces
  subspaces_le : encoder.subspaces ≤ encoder.dim
  centroids_pos : 2 ≤ encoder.centroids
  centroids_le : encoder.centroids ≤ 256
  offsets : encoder.offsets = (List.range (encoder.subspaces + 1)).map encoder.offset
  codebooks : encoder.codebooks.length = encoder.subspaces * encoder.centroids * encoder.dim
  fits : encoder.codebooks.length < 2 ^ 64

/-- Two encoders that differ in the values of their codebooks only. -/
def SameShape (encoder other : PQEncoder F) : Prop :=
  ∃ codebooks, codebooks.length = encoder.codebooks.length ∧ other = { encoder with codebooks }

namespace Shaped

variable {encoder other : PQEncoder F} {m c d : ℕ}

theorem of_sameShape (h : Shaped encoder) (hsame : SameShape encoder other) : Shaped other := by
  obtain ⟨codebooks, hlength, rfl⟩ := hsame
  exact ⟨h.subspaces_pos, h.subspaces_le, h.centroids_pos, h.centroids_le, h.offsets,
    hlength.trans h.codebooks, hlength.trans_lt h.fits⟩

theorem offset_zero (encoder : PQEncoder F) : encoder.offset 0 = 0 := by
  rw [offset, Nat.zero_mul, Nat.zero_div]

theorem offset_last (h : Shaped encoder) : encoder.offset encoder.subspaces = encoder.dim := by
  rw [offset, Nat.mul_div_cancel_left _ h.subspaces_pos]

/-- There are at least as many dimensions as subspaces, so every subspace has one. -/
theorem div_lt_div_succ {subspaces dim : ℕ} (hpos : 0 < subspaces) (hle : subspaces ≤ dim) (m : ℕ) :
    m * dim / subspaces < (m + 1) * dim / subspaces := by
  have hstep : m * dim / subspaces + 1 = (m * dim + subspaces) / subspaces := by
    rw [Nat.add_div_right _ hpos]
  have hnext : m * dim + subspaces ≤ (m + 1) * dim := by
    rw [Nat.add_mul, Nat.one_mul]
    exact Nat.add_le_add_left hle _
  have := Nat.div_le_div_right (c := subspaces) hnext
  rw [← hstep] at this
  exact this

theorem offset_lt (h : Shaped encoder) (m : ℕ) : encoder.offset m < encoder.offset (m + 1) :=
  div_lt_div_succ h.subspaces_pos h.subspaces_le m

theorem offset_strictMono (h : Shaped encoder) : StrictMono encoder.offset :=
  strictMono_nat_of_lt_succ h.offset_lt

theorem offset_le (h : Shaped encoder) (hm : m ≤ encoder.subspaces) :
    encoder.offset m ≤ encoder.dim :=
  (h.offset_strictMono.monotone hm).trans_eq h.offset_last

theorem load_offset (h : Shaped encoder) (hm : m ≤ encoder.subspaces) :
    load encoder.offsets m = .ok (encoder.offset m) := by
  have hlength : m < encoder.offsets.length := by
    rw [h.offsets, List.length_map, List.length_range]
    omega
  rw [load_ok hlength 0, h.offsets, List.getD_eq_getElem?_getD, List.getElem?_map,
    List.getElem?_range (by omega)]
  rfl

/-- The rows of the codebooks are in range. -/
theorem centroidOffset_le (h : Shaped encoder) (hm : m < encoder.subspaces)
    (hc : c < encoder.centroids) :
    encoder.centroidOffset m c + encoder.dim ≤ encoder.codebooks.length := by
  have hrow : m * encoder.centroids + c + 1 ≤ encoder.subspaces * encoder.centroids := by
    have hle : (m + 1) * encoder.centroids ≤ encoder.subspaces * encoder.centroids :=
      Nat.mul_le_mul_right _ hm
    rw [Nat.add_mul, Nat.one_mul] at hle
    omega
  have hle := Nat.mul_le_mul_right encoder.dim hrow
  rw [Nat.add_mul, Nat.one_mul] at hle
  rw [h.codebooks, centroidOffset]
  exact (Nat.add_le_add_right (Nat.mod_le _ _) _).trans hle

/-- The sums of a subspace are no more than the codebooks, so their number does not wrap. -/
theorem sums_lt (h : Shaped encoder) (hm : m < encoder.subspaces) :
    encoder.centroids * (encoder.offset (m + 1) - encoder.offset m) < 2 ^ 64 := by
  have hlast : encoder.offset (m + 1) ≤ encoder.dim := h.offset_le (Nat.succ_le_of_lt hm)
  have hfloats : encoder.centroids * encoder.dim ≤ encoder.codebooks.length := by
    rw [h.codebooks, Nat.mul_assoc]
    exact Nat.le_mul_of_pos_left _ h.subspaces_pos
  refine lt_of_le_of_lt (Nat.mul_le_mul_left _ ?_) (hfloats.trans_lt h.fits)
  exact (Nat.sub_le _ _).trans hlast

theorem validateTrained_ok (h : Shaped encoder) : encoder.validateTrained = .ok () := by
  have hlength : encoder.offsets.length = encoder.subspaces + 1 := by
    rw [h.offsets, List.length_map, List.length_range]
  have hcodebooks : 0 < encoder.codebooks.length := by
    have := h.centroidOffset_le h.subspaces_pos (lt_of_lt_of_le Nat.two_pos h.centroids_pos)
    have := h.subspaces_pos
    have := h.subspaces_le
    omega
  refine throwFault_ok ?_
  rw [List.isEmpty_iff, ← List.length_eq_zero_iff]
  have := h.subspaces_pos
  have := h.subspaces_le
  have := h.centroids_pos
  omega

end Shaped

theorem SameShape.refl (encoder : PQEncoder F) : SameShape encoder encoder :=
  ⟨encoder.codebooks, rfl, rfl⟩

theorem SameShape.eqs {encoder other : PQEncoder F} (h : SameShape encoder other) :
    other.subspaces = encoder.subspaces ∧ other.centroids = encoder.centroids ∧
      other.dim = encoder.dim ∧ other.offset = encoder.offset ∧
      other.codebooks.length = encoder.codebooks.length := by
  obtain ⟨codebooks, hlength, rfl⟩ := h
  exact ⟨rfl, rfl, rfl, rfl, hlength⟩

theorem SameShape.set {encoder other : PQEncoder F} (h : SameShape encoder other)
    {codebooks : List F} (hlength : codebooks.length = other.codebooks.length) :
    SameShape encoder { other with codebooks } := by
  obtain ⟨before, hbefore, rfl⟩ := h
  exact ⟨codebooks, hlength.trans hbefore, rfl⟩

theorem SameShape.trans {encoder other third : PQEncoder F} (h : SameShape encoder other)
    (h' : SameShape other third) : SameShape encoder third := by
  obtain ⟨codebooks, hlength, rfl⟩ := h'
  exact h.set hlength

section Nearest

variable [Field F] {encoder : PQEncoder F} {vector : List F} {m c : ℕ}

/-- The part of a squared distance that a centroid contributes. -/
def gap (encoder : PQEncoder F) (vector : List F) (m c : ℕ) : F :=
  ∑ d ∈ Finset.Ico (encoder.offset m) (encoder.offset (m + 1)),
    (vector.getD d 0 - encoder.codebooks.getD (encoder.centroidOffset m c + d) 0) *
      (vector.getD d 0 - encoder.codebooks.getD (encoder.centroidOffset m c + d) 0)

theorem centroidDistance_ok (h : Shaped encoder) (hvector : vector.length = encoder.dim)
    (hm : m < encoder.subspaces) (hc : c < encoder.centroids) :
    encoder.centroidDistance vector m c (encoder.offset m) (encoder.offset (m + 1)) =
      .ok (encoder.gap vector m c) := by
  have hlast : encoder.offset (m + 1) ≤ encoder.dim := h.offset_le (Nat.succ_le_of_lt hm)
  have hrow := h.centroidOffset_le hm hc
  have hrange := (h.offset_lt m).le
  rw [centroidDistance, foldlM_eq_ok (g := fun distance d => distance +
    (vector.getD d 0 - encoder.codebooks.getD (encoder.centroidOffset m c + d) 0) *
      (vector.getD d 0 - encoder.codebooks.getD (encoder.centroidOffset m c + d) 0)),
    foldl_range'_add, zero_add, Nat.add_sub_cancel' hrange]
  · rfl
  · intro d hd distance
    rw [List.mem_range'_1] at hd
    rw [load_ok (by omega) 0]
    simp only [bind, Except.bind]
    rw [load_ok (by omega) 0]
    rfl

variable [LinearOrder F] (float_max : F)

/-- The centroid that is found for a subspace. -/
def nearest (encoder : PQEncoder F) (vector : List F) (m : ℕ) : ℕ :=
  (Nearest.scan float_max (encoder.gap vector m) encoder.centroids).1

theorem nearest_lt (h : Shaped encoder) : encoder.nearest float_max vector m < encoder.centroids :=
  Nearest.scan_lt (lt_of_lt_of_le Nat.two_pos h.centroids_pos)

theorem nearestCentroid_ok (h : Shaped encoder) (hvector : vector.length = encoder.dim)
    (hm : m < encoder.subspaces) :
    encoder.nearestCentroid float_max vector m = .ok (encoder.nearest float_max vector m) := by
  rw [nearestCentroid, h.load_offset hm.le, h.load_offset (Nat.succ_le_of_lt hm)]
  simp only [bind, Except.bind]
  rw [foldlM_eq_ok (g := Nearest.step (encoder.gap vector m))]
  · rfl
  · intro c hc best
    rw [centroidDistance_ok h hvector hm (List.mem_range.mp hc)]
    rfl

/-- The narrowing of a code loses nothing. -/
theorem toNat_code (h : Shaped encoder) :
    (UInt8.ofNat (encoder.nearest float_max vector m)).toNat = encoder.nearest float_max vector m := by
  have hlt : encoder.nearest float_max vector m < encoder.centroids := nearest_lt float_max h
  have hle := h.centroids_le
  have hsize : UInt8.size = 256 := rfl
  exact UInt8.toNat_ofNat_of_lt' (by omega)

theorem encode_ok (h : Shaped encoder) (hvector : vector.length = encoder.dim) :
    encoder.encode float_max vector = .ok ((List.range encoder.subspaces).map fun m =>
      UInt8.ofNat (encoder.nearest float_max vector m)) := by
  have hloop : ∃ code, (List.range encoder.subspaces).foldlM (fun code m => do
      let nearest ← encoder.nearestCentroid float_max vector m
      store code m (UInt8.ofNat nearest)) (List.replicate encoder.subspaces 0) = .ok code ∧
      code.length = encoder.subspaces ∧ ∀ m < encoder.subspaces,
        code.getD m 0 = UInt8.ofNat (encoder.nearest float_max vector m) := by
    refine foldlM_range_ok (P := fun i (code : List UInt8) => code.length = encoder.subspaces ∧
      ∀ m < i, code.getD m 0 = UInt8.ofNat (encoder.nearest float_max vector m)) ?_
      ⟨List.length_replicate, fun m hm => absurd hm (Nat.not_lt_zero m)⟩
    rintro m hm code ⟨hlength, hvalues⟩
    have hstore : m < code.length := hlength.symm ▸ hm
    refine ⟨code.set m (UInt8.ofNat (encoder.nearest float_max vector m)), ?_, ?_, fun other hother => ?_⟩
    · rw [nearestCentroid_ok float_max h hvector hm]
      exact store_ok hstore _
    · rw [List.length_set, hlength]
    · rw [getD_set _ hstore]
      by_cases heq : other = m
      · rw [if_pos heq, heq]
      · rw [if_neg heq]
        exact hvalues other (by omega)
  obtain ⟨code, hcode, hlength, hvalues⟩ := hloop
  rw [encode, h.validateTrained_ok]
  refine hcode.trans (congrArg Except.ok ?_)
  refine List.ext_getElem (by rw [hlength, List.length_map, List.length_range]) fun i hi hi' => ?_
  have hvalue := hvalues i (hlength ▸ hi)
  rw [List.getD_eq_getElem?_getD, List.getElem?_eq_getElem hi, Option.getD_some] at hvalue
  rw [hvalue, List.getElem_map, List.getElem_range]

end Nearest

section Decode

variable [Field F] {encoder : PQEncoder F} {query : List F} {m c : ℕ}

/-- The offsets cut the dimensions into consecutive parts. -/
theorem sum_subspaces (h : Shaped encoder) (f : ℕ → F) :
    ∑ m ∈ Finset.range encoder.subspaces,
        ∑ d ∈ Finset.Ico (encoder.offset m) (encoder.offset (m + 1)), f d =
      ∑ d ∈ Finset.range encoder.dim, f d := by
  have hparts : ∀ count, ∑ m ∈ Finset.range count,
      ∑ d ∈ Finset.Ico (encoder.offset m) (encoder.offset (m + 1)), f d =
        ∑ d ∈ Finset.range (encoder.offset count), f d := by
    intro count
    induction count with
    | zero => rw [Shaped.offset_zero, Finset.sum_range_zero, Finset.sum_range_zero]
    | succ count ih =>
      rw [Finset.sum_range_succ, ih, Finset.range_eq_Ico, Finset.range_eq_Ico,
        Finset.sum_Ico_consecutive f (Nat.zero_le _) (h.offset_lt count).le]
  rw [hparts, h.offset_last]

/-- A code of every subspace, below the centroid count. -/
def ValidCode (encoder : PQEncoder F) (code : List UInt8) (start : ℕ) : Prop :=
  ∀ m < encoder.subspaces,
    start + m < code.length ∧ (code.getD (start + m) 0).toNat < encoder.centroids

/-- What a code decodes to, and how far it is. -/
theorem decodeCode_ok (h : Shaped encoder) {code : List UInt8} {start : ℕ}
    (hcode : ValidCode encoder code start) : ∃ decoded, encoder.decodeCode code start = .ok decoded ∧
      ∀ query : List F, query.length = encoder.dim → squaredL2 query decoded =
        ∑ m ∈ Finset.range encoder.subspaces,
          encoder.gap query m (code.getD (start + m) 0).toNat := by
  have hloop : ∃ decoded, (List.range encoder.subspaces).foldlM (fun decoded m => do
      let centroid_id ← load code (start + m)
      throwFault (encoder.centroids ≤ centroid_id.toNat) "Invalid PQ code centroid id"
      let first ← load encoder.offsets m
      let last ← load encoder.offsets (m + 1)
      copyRange encoder.codebooks (encoder.centroidOffset m centroid_id.toNat) decoded 0 first last)
      (List.replicate encoder.dim 0) = .ok decoded ∧ decoded.length = encoder.dim ∧
      ∀ m < encoder.subspaces, ∀ d, encoder.offset m ≤ d → d < encoder.offset (m + 1) →
        decoded.getD d 0 = encoder.codebooks.getD
          (encoder.centroidOffset m (code.getD (start + m) 0).toNat + d) 0 := by
    refine foldlM_range_ok (P := fun i (decoded : List F) => decoded.length = encoder.dim ∧
      ∀ m < i, ∀ d, encoder.offset m ≤ d → d < encoder.offset (m + 1) →
        decoded.getD d 0 = encoder.codebooks.getD
          (encoder.centroidOffset m (code.getD (start + m) 0).toNat + d) 0) ?_
      ⟨List.length_replicate, fun m hm => absurd hm (Nat.not_lt_zero m)⟩
    rintro m hm decoded ⟨hlength, hvalues⟩
    obtain ⟨hin, hlt⟩ := hcode m hm
    have hlast : encoder.offset (m + 1) ≤ encoder.dim := h.offset_le (Nat.succ_le_of_lt hm)
    have hrow := h.centroidOffset_le hm hlt
    obtain ⟨next, hnext, hsize, hcopied⟩ := copyRange_ok (h.offset_lt m).le
      (show encoder.centroidOffset m (code.getD (start + m) 0).toNat + encoder.offset (m + 1) ≤
        encoder.codebooks.length by omega)
      (show 0 + encoder.offset (m + 1) ≤ decoded.length by omega) 0
    refine ⟨next, ?_, hsize.trans hlength, fun other hother d hfirst hsecond => ?_⟩
    · rw [load_ok hin 0]
      simp only [bind, Except.bind]
      rw [throwFault_ok (not_le.mpr hlt), h.load_offset hm.le, h.load_offset (Nat.succ_le_of_lt hm)]
      exact hnext
    · rw [hcopied, Nat.zero_add, Nat.zero_add, Nat.sub_zero]
      rcases Nat.lt_succ_iff_lt_or_eq.mp hother with hother | rfl
      · -- later subspaces are behind this one
        have hbehind : encoder.offset (other + 1) ≤ encoder.offset m :=
          h.offset_strictMono.monotone (Nat.succ_le_of_lt hother)
        rw [if_neg (by omega)]
        exact hvalues other hother d hfirst hsecond
      · rw [if_pos ⟨hfirst, hsecond⟩]
  obtain ⟨decoded, hdecoded, -, hvalues⟩ := hloop
  refine ⟨decoded, ?_, fun query hquery => ?_⟩
  · rw [decodeCode, h.validateTrained_ok]
    exact hdecoded
  · rw [squaredL2, hquery, ← sum_subspaces h]
    refine Finset.sum_congr rfl fun m hm => ?_
    rw [gap]
    refine Finset.sum_congr rfl fun d hd => ?_
    obtain ⟨hfirst, hlast⟩ := Finset.mem_Ico.mp hd
    rw [hvalues m (Finset.mem_range.mp hm) d hfirst hlast]

/-- The table holds the parts for all centroids. -/
theorem buildAdcTable_ok (h : Shaped encoder) (henabled : encoder.enabled = true)
    (hquery : query.length = encoder.dim) : ∃ table, encoder.buildAdcTable query = .ok table ∧
      table.length = encoder.subspaces * encoder.centroids ∧
      ∀ m < encoder.subspaces, ∀ c < encoder.centroids,
        table.getD (m * encoder.centroids + c) 0 = encoder.gap query m c := by
  rw [buildAdcTable, henabled]
  refine foldlM_range_ok (P := fun i (table : List F) =>
    table.length = encoder.subspaces * encoder.centroids ∧ ∀ m < i, ∀ c < encoder.centroids,
      table.getD (m * encoder.centroids + c) 0 = encoder.gap query m c) ?_
    ⟨List.length_replicate, fun m hm => absurd hm (Nat.not_lt_zero m)⟩
  rintro m hm table ⟨hlength, hvalues⟩
  have hrow : (m + 1) * encoder.centroids ≤ encoder.subspaces * encoder.centroids :=
    Nat.mul_le_mul_right _ hm
  rw [Nat.add_mul, Nat.one_mul] at hrow
  have hinner : ∃ next, (List.range encoder.centroids).foldlM (fun table c => do
      let distance ← encoder.centroidDistance query m c (encoder.offset m) (encoder.offset (m + 1))
      store table (m * encoder.centroids + c) distance) table = .ok next ∧
      next.length = encoder.subspaces * encoder.centroids ∧
      (∀ other < m * encoder.centroids, next.getD other 0 = table.getD other 0) ∧
      ∀ c < encoder.centroids, next.getD (m * encoder.centroids + c) 0 = encoder.gap query m c := by
    refine foldlM_range_ok (P := fun i (next : List F) =>
      next.length = encoder.subspaces * encoder.centroids ∧
      (∀ other < m * encoder.centroids, next.getD other 0 = table.getD other 0) ∧
      ∀ c < i, next.getD (m * encoder.centroids + c) 0 = encoder.gap query m c) ?_
      ⟨hlength, fun _ _ => rfl, fun c hc => absurd hc (Nat.not_lt_zero c)⟩
    rintro c hc next ⟨hsize, hbefore, hparts⟩
    have hstore : m * encoder.centroids + c < next.length := by omega
    refine ⟨next.set (m * encoder.centroids + c) (encoder.gap query m c), ?_, ?_,
      fun other hother => ?_, fun other hother => ?_⟩
    · rw [centroidDistance_ok h hquery hm hc]
      exact store_ok hstore _
    · rw [List.length_set, hsize]
    · rw [getD_set _ hstore, if_neg (by omega)]
      exact hbefore other hother
    · rw [getD_set _ hstore]
      rcases Nat.lt_succ_iff_lt_or_eq.mp hother with hother | rfl
      · rw [if_neg (by omega)]
        exact hparts other hother
      · rw [if_pos rfl]
  obtain ⟨next, hnext, hsize, hbefore, hparts⟩ := hinner
  refine ⟨next, ?_, hsize, fun other hother c hc => ?_⟩
  · rw [h.load_offset hm.le, h.load_offset (Nat.succ_le_of_lt hm)]
    exact hnext
  · rcases Nat.lt_succ_iff_lt_or_eq.mp hother with hother | rfl
    · have hle : (other + 1) * encoder.centroids ≤ m * encoder.centroids :=
        Nat.mul_le_mul_right _ hother
      rw [Nat.add_mul, Nat.one_mul] at hle
      rw [hbefore _ (by omega)]
      exact hvalues other hother c hc
    · exact hparts c hc

/-- A lookup adds the parts of the stored codes. -/
theorem adcDistance_ok (henabled : encoder.enabled = true) {id : NodeId}
    (hid : id.toNat < encoder.vectorCount) {table : List F}
    (htable : table.length = encoder.subspaces * encoder.centroids)
    (hcode : ValidCode encoder encoder.codes (id.toNat * encoder.subspaces)) :
    encoder.adcDistance id table = .ok (∑ m ∈ Finset.range encoder.subspaces,
      table.getD (m * encoder.centroids +
        (encoder.codes.getD (id.toNat * encoder.subspaces + m) 0).toNat) 0) := by
  rw [adcDistance, throwFault_ok (by rw [henabled]; simp [hid, htable])]
  simp only [bind, Except.bind]
  rw [foldlM_eq_ok (g := fun distance m => distance + table.getD (m * encoder.centroids +
    (encoder.codes.getD (id.toNat * encoder.subspaces + m) 0).toNat) 0)]
  · rw [List.range_eq_range', foldl_range'_add, zero_add, Nat.zero_add, ← Finset.range_eq_Ico]
  · intro m hm distance
    obtain ⟨hin, hlt⟩ := hcode m (List.mem_range.mp hm)
    have hrow : (m + 1) * encoder.centroids ≤ encoder.subspaces * encoder.centroids :=
      Nat.mul_le_mul_right _ (List.mem_range.mp hm)
    rw [Nat.add_mul, Nat.one_mul] at hrow
    rw [load_ok hin 0]
    simp only
    rw [load_ok (by omega) 0]
    rfl

end Decode

end PQEncoder
