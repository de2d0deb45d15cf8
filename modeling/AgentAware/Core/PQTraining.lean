import AgentAware.Core.PQDistances
import Mathlib.Algebra.Field.Rat
import Mathlib.Algebra.Order.Ring.Rat

/-!
# Trained encoders

Every round of the training keeps the sizes of the arrays, so with an accepted configuration it returns
an encoder for which distances from the table are those to the decoded vectors, and the nearest
centroid of every subspace makes the distance least.

## Main definitions

- `PQEncoder.Trainable` — what every round of the training keeps
- `PQEncoder.CodebooksFit` — the size of the codebooks does not wrap

## Main results

- `PQEncoder.train_ok` — training returns a shaped encoder with the codes of the base
- `PQEncoder.codebooksFit_of_train_ok` — codebooks of a wrapped size are never trained
- `PQEncoder.train_adc_iff` — distances from the table are those to the decoded vectors
- `PQEncoder.train_outOfRange` — a size that wraps to zero ends in a write out of range
- `PQEncoder.encode_nearest` — no code word decodes nearer than the code of a vector
-/

namespace PQEncoder

variable {F : Type}

section Train

variable [Field F] [LinearOrder F] {float_max : F} {random : UniformInts} {base : FloatSet F}
  {encoder : PQEncoder F} {sample_ids : List NodeId} {m : ℕ}

omit [Field F] [LinearOrder F] in
theorem row_ok {index : ℕ} (h : index < base.size) :
    ∃ row, base.row index = .ok row ∧ row.length = base.dim := by
  refine ⟨_, by rw [FloatSet.row, throwFault_ok (not_le.mpr h)]; rfl, ?_⟩
  have hfits : (index + 1) * base.dim ≤ base.values.length := by
    rw [FloatSet.size] at h
    split at h
    · exact absurd h (Nat.not_lt_zero _)
    · exact (Nat.mul_le_mul_right _ h).trans (Nat.div_mul_le_self _ _)
  rw [Nat.add_mul, Nat.one_mul] at hfits
  rw [List.length_take, List.length_drop]
  omega

/-- The samples are rows of the base, also where their ids are narrowed. -/
theorem sampleIds_lt {size sample_count : ℕ} (hcount : sample_count ≤ size) :
    ∀ id ∈ sampleIds size sample_count, id.toNat < size := by
  intro id hid
  obtain ⟨i, hi, rfl⟩ := List.mem_map.mp hid
  rw [List.mem_range] at hi
  rw [UInt32.toNat_ofNat']
  by_cases hsize : size ≤ 2 ^ 32
  · have hle : i * size ≤ 2 ^ 32 * size := Nat.mul_le_mul_right _ (by omega)
    have hlt : i * size < 2 ^ 64 := by
      have hstrict : i * size < 2 ^ 32 * 2 ^ 32 :=
        Nat.mul_lt_mul_of_lt_of_le (by omega) hsize (Nat.two_pow_pos 32)
      exact hstrict
    refine lt_of_le_of_lt (Nat.mod_le _ _) ?_
    rw [Nat.mod_eq_of_lt hlt, Nat.div_lt_iff_lt_mul (by omega), Nat.mul_comm]
    exact Nat.mul_lt_mul_of_pos_left hi (by omega)
  · exact lt_of_lt_of_le (Nat.mod_lt _ (Nat.two_pow_pos 32)) (by omega)

variable (base encoder sample_ids) in
/-- What a training step needs: some samples of the base, of the encoder's dimension. -/
structure Trainable : Prop where
  shaped : Shaped encoder
  dim : base.dim = encoder.dim
  samples_pos : 0 < sample_ids.length
  samples : ∀ id ∈ sample_ids, id.toNat < base.size

namespace Trainable

omit [Field F] [LinearOrder F] in
theorem of_sameShape {other : PQEncoder F} (h : Trainable base encoder sample_ids)
    (hsame : SameShape encoder other) : Trainable base other sample_ids := by
  refine ⟨h.shaped.of_sameShape hsame, ?_, h.samples_pos, h.samples⟩
  obtain ⟨_, _, rfl⟩ := hsame
  exact h.dim

omit [LinearOrder F] in
/-- A sample is copied to a centroid. -/
theorem copySample_ok (h : Trainable base encoder sample_ids) (hm : m < encoder.subspaces) {c index : ℕ}
    (hc : c < encoder.centroids) (hindex : index < sample_ids.length) :
    ∃ id row codebooks, load sample_ids index = .ok id ∧ base.row id.toNat = .ok row ∧
      copyRange row 0 encoder.codebooks (encoder.centroidOffset m c) (encoder.offset m)
        (encoder.offset (m + 1)) = .ok codebooks ∧
      codebooks.length = encoder.codebooks.length := by
  have hid : sample_ids.getD index 0 ∈ sample_ids := by
    rw [List.getD_eq_getElem?_getD, List.getElem?_eq_getElem hindex]
    exact List.getElem_mem hindex
  obtain ⟨row, hrow, hlength⟩ := row_ok (h.samples _ hid)
  have hlast : encoder.offset (m + 1) ≤ encoder.dim := h.shaped.offset_le (Nat.succ_le_of_lt hm)
  have hcentroid := h.shaped.centroidOffset_le hm hc
  have hdim := h.dim
  obtain ⟨codebooks, hcopied, hsize, -⟩ := copyRange_ok (h.shaped.offset_lt m).le
    (show 0 + encoder.offset (m + 1) ≤ row.length by omega)
    (show encoder.centroidOffset m c + encoder.offset (m + 1) ≤ encoder.codebooks.length by omega) 0
  exact ⟨_, row, codebooks, load_ok hindex 0, hrow, hcopied, hsize⟩

omit [LinearOrder F] in
theorem initializeCentroids_ok (h : Trainable base encoder sample_ids) (hm : m < encoder.subspaces) :
    ∃ other, initializeCentroids base encoder sample_ids m (encoder.offset m)
      (encoder.offset (m + 1)) = .ok other ∧ SameShape encoder other := by
  refine foldlM_ok (P := SameShape encoder) ?_ (SameShape.refl encoder)
  intro c hc state hsame
  obtain ⟨hsubspaces, hcentroids, -, hoffset, -⟩ := hsame.eqs
  rw [List.mem_range] at hc
  have hindex : c * sample_ids.length % 2 ^ 64 / state.centroids < sample_ids.length := by
    refine lt_of_le_of_lt (Nat.div_le_div_right (Nat.mod_le _ _)) ?_
    rw [Nat.div_lt_iff_lt_mul (by omega), Nat.mul_comm]
    exact Nat.mul_lt_mul_of_pos_left (by omega) h.samples_pos
  obtain ⟨id, row, codebooks, hid, hrow, hcopied, hsize⟩ :=
    (h.of_sameShape hsame).copySample_ok (hsubspaces ▸ hm) (hcentroids ▸ hc) hindex
  refine ⟨{ state with codebooks }, ?_, hsame.set hsize⟩
  rw [hoffset] at hcopied
  simp only [bind, Except.bind, hid, hrow, hcopied]
  rfl

/-- The sums and counts of an iteration, with a place for every centroid. -/
def Sized (encoder : PQEncoder F) (width : ℕ) (state : List F × List ℕ) : Prop :=
  state.1.length = encoder.centroids * width ∧ state.2.length = encoder.centroids

omit [Field F] [LinearOrder F] in
theorem sum_index_lt {width c d : ℕ} {state : List F × List ℕ} (hsized : Sized encoder width state)
    (hc : c < encoder.centroids) (hd : d < width) : c * width + d < state.1.length := by
  have hrow : (c + 1) * width ≤ encoder.centroids * width := Nat.mul_le_mul_right _ hc
  rw [Nat.add_mul, Nat.one_mul] at hrow
  rw [hsized.1]
  omega

theorem assignSample_ok (h : Trainable base encoder sample_ids) (hm : m < encoder.subspaces)
    {id : NodeId} (hid : id ∈ sample_ids) {state : List F × List ℕ}
    (hsized : Sized encoder (encoder.offset (m + 1) - encoder.offset m) state) :
    ∃ next, assignSample float_max base encoder m (encoder.offset m) (encoder.offset (m + 1)) state id =
      .ok next ∧ Sized encoder (encoder.offset (m + 1) - encoder.offset m) next := by
  obtain ⟨sums, counts⟩ := state
  obtain ⟨row, hrow, hlength⟩ := row_ok (h.samples id hid)
  have hvector : row.length = encoder.dim := hlength.trans h.dim
  have hnear : encoder.nearest float_max row m < encoder.centroids := nearest_lt float_max h.shaped
  have hcount : encoder.nearest float_max row m < counts.length := by
    rw [hsized.2]
    exact hnear
  have hlast : encoder.offset (m + 1) ≤ encoder.dim := h.shaped.offset_le (Nat.succ_le_of_lt hm)
  have hsums : ∃ next, (List.range' (encoder.offset m)
      (encoder.offset (m + 1) - encoder.offset m)).foldlM (fun sums d => do
        let sum ← load sums (encoder.nearest float_max row m *
          (encoder.offset (m + 1) - encoder.offset m) + (d - encoder.offset m))
        let value ← load row d
        store sums (encoder.nearest float_max row m *
          (encoder.offset (m + 1) - encoder.offset m) + (d - encoder.offset m)) (sum + value)) sums =
      .ok next ∧ next.length = sums.length := by
    refine foldlM_ok (P := fun next : List F => next.length = sums.length) ?_ rfl
    intro d hd next hnext
    rw [List.mem_range'_1] at hd
    have hindex := sum_index_lt hsized hnear
      (show d - encoder.offset m < encoder.offset (m + 1) - encoder.offset m by omega)
    have hindex' := hnext.symm ▸ hindex
    have hvalue : d < row.length := by omega
    simp only [bind, Except.bind, load_ok hindex' 0, load_ok hvalue 0]
    exact ⟨_, store_ok hindex' _, by rw [List.length_set, hnext]⟩
  obtain ⟨next, hnext, hsize⟩ := hsums
  refine ⟨(next, counts.set (encoder.nearest float_max row m)
    (counts.getD (encoder.nearest float_max row m) 0 + 1)), ?_, hsize.trans hsized.1, ?_⟩
  · rw [assignSample]
    simp only [bind, Except.bind, hrow, nearestCentroid_ok float_max h.shaped hvector hm,
      load_ok hcount 0, store_ok hcount]
    exact (congrArg (fun sums => sums >>= fun sums => Except.ok (sums, _)) hnext).trans rfl
  · rw [List.length_set]
    exact hsized.2

omit [LinearOrder F] in
theorem updateCentroid_ok (h : Trainable base encoder sample_ids) (hm : m < encoder.subspaces)
    {state : List F × List ℕ}
    (hsized : Sized encoder (encoder.offset (m + 1) - encoder.offset m) state) {c : ℕ}
    (hc : c < encoder.centroids) (engine : random.Engine) :
    ∃ next, updateCentroid random base sample_ids state.1 state.2 m (encoder.offset m)
      (encoder.offset (m + 1)) (encoder, engine) c = .ok next ∧ SameShape encoder next.1 := by
  obtain ⟨sums, counts⟩ := state
  have hcount : c < counts.length := by
    rw [hsized.2]
    exact hc
  rw [updateCentroid]
  simp only [bind, Except.bind, load_ok hcount 0]
  split
  · have hdrawn : (random.draw engine (sample_ids.length - 1)).1 < sample_ids.length := by
      have hle := random.draw_le engine (sample_ids.length - 1)
      have hpos := h.samples_pos
      omega
    obtain ⟨id, row, codebooks, hid, hrow, hcopied, hsize⟩ := h.copySample_ok hm hc hdrawn
    refine ⟨({ encoder with codebooks }, (random.draw engine (sample_ids.length - 1)).2), ?_,
      (SameShape.refl encoder).set hsize⟩
    simp only [hid, hrow, hcopied]
    rfl
  · have hrow := h.shaped.centroidOffset_le hm hc
    have hlast : encoder.offset (m + 1) ≤ encoder.dim := h.shaped.offset_le (Nat.succ_le_of_lt hm)
    have hmeans : ∃ codebooks, (List.range' (encoder.offset m)
        (encoder.offset (m + 1) - encoder.offset m)).foldlM (fun codebooks d => do
          let sum ← load sums (c * (encoder.offset (m + 1) - encoder.offset m) +
            (d - encoder.offset m))
          store codebooks (encoder.centroidOffset m c + d) (sum / (counts.getD c 0 : F)))
        encoder.codebooks = .ok codebooks ∧ codebooks.length = encoder.codebooks.length := by
      refine foldlM_ok (P := fun next : List F => next.length = encoder.codebooks.length) ?_ rfl
      intro d hd next hnext
      rw [List.mem_range'_1] at hd
      have hindex := sum_index_lt hsized hc
        (show d - encoder.offset m < encoder.offset (m + 1) - encoder.offset m by omega)
      have hstore : encoder.centroidOffset m c + d < next.length := by omega
      simp only [bind, Except.bind, load_ok hindex 0]
      exact ⟨_, store_ok hstore _, by rw [List.length_set, hnext]⟩
    obtain ⟨codebooks, hcodebooks, hsize⟩ := hmeans
    refine ⟨({ encoder with codebooks }, engine), ?_, (SameShape.refl encoder).set hsize⟩
    exact (congrArg (fun codebooks => codebooks >>= fun codebooks =>
      Except.ok ({ encoder with codebooks }, engine)) hcodebooks).trans rfl

theorem trainIteration_ok (h : Trainable base encoder sample_ids) (hm : m < encoder.subspaces)
    (engine : random.Engine) : ∃ next, trainIteration float_max random base sample_ids m
      (encoder.offset m) (encoder.offset (m + 1)) (encoder, engine) = .ok next ∧
      SameShape encoder next.1 := by
  have hassign : ∃ state, sample_ids.foldlM
      (assignSample float_max base encoder m (encoder.offset m) (encoder.offset (m + 1)))
      (List.replicate (encoder.centroids * (encoder.offset (m + 1) - encoder.offset m) % 2 ^ 64) 0,
        List.replicate encoder.centroids 0) = .ok state ∧
      Sized encoder (encoder.offset (m + 1) - encoder.offset m) state := by
    refine foldlM_ok (fun id hid state hsized => h.assignSample_ok hm hid hsized)
      ⟨?_, List.length_replicate⟩
    rw [List.length_replicate, Nat.mod_eq_of_lt (h.shaped.sums_lt hm)]
  obtain ⟨state, hstate, hsized⟩ := hassign
  have hupdate : ∃ next, (List.range encoder.centroids).foldlM (updateCentroid random base sample_ids
      state.1 state.2 m (encoder.offset m) (encoder.offset (m + 1))) (encoder, engine) = .ok next ∧
      SameShape encoder next.1 := by
    refine foldlM_ok (P := fun next : PQEncoder F × random.Engine => SameShape encoder next.1) ?_
      (SameShape.refl encoder)
    rintro c hc ⟨other, engine⟩ hsame
    rw [List.mem_range] at hc
    have hother := h.of_sameShape hsame
    obtain ⟨codebooks, hlength, rfl⟩ := hsame
    obtain ⟨next, hnext, hkeep⟩ := hother.updateCentroid_ok hm hsized hc engine
    exact ⟨next, hnext, SameShape.trans ⟨codebooks, hlength, rfl⟩ hkeep⟩
  obtain ⟨next, hnext, hsame⟩ := hupdate
  refine ⟨next, ?_, hsame⟩
  rw [trainIteration]
  simp only [bind, Except.bind, hstate]
  exact hnext

theorem trainSubspace_ok (h : Trainable base encoder sample_ids) (hm : m < encoder.subspaces)
    (iterations : ℕ) (engine : random.Engine) :
    ∃ next, trainSubspace float_max random base sample_ids iterations (encoder, engine) m = .ok next ∧
      SameShape encoder next.1 := by
  obtain ⟨first, hfirst, hsame⟩ := h.initializeCentroids_ok hm
  have hloop : ∃ next, (List.range iterations).foldlM (fun state _ =>
      trainIteration float_max random base sample_ids m (encoder.offset m) (encoder.offset (m + 1))
        state) (first, engine) = .ok next ∧ SameShape encoder next.1 := by
    refine foldlM_ok (P := fun next : PQEncoder F × random.Engine => SameShape encoder next.1) ?_ hsame
    rintro _ - ⟨other, engine⟩ hsame
    have hother := h.of_sameShape hsame
    obtain ⟨codebooks, hlength, rfl⟩ := hsame
    obtain ⟨next, hnext, hkeep⟩ := hother.trainIteration_ok hm engine
    exact ⟨next, hnext, SameShape.trans ⟨codebooks, hlength, rfl⟩ hkeep⟩
  obtain ⟨next, hnext, hkeep⟩ := hloop
  refine ⟨next, ?_, hkeep⟩
  rw [trainSubspace]
  simp only [bind, Except.bind, h.shaped.load_offset hm.le,
    h.shaped.load_offset (Nat.succ_le_of_lt hm), hfirst]
  exact hnext

variable (float_max) in
/-- The codes of the base are below the centroid count. -/
theorem encodeBase_ok (h : Trainable base encoder sample_ids) :
    ∃ codes, encodeBase float_max base encoder = .ok codes ∧
      codes.length = base.size * encoder.subspaces ∧
      ∀ i, (codes.getD i 0).toNat < encoder.centroids := by
  have hpositive : 0 < encoder.centroids := lt_of_lt_of_le Nat.two_pos h.shaped.centroids_pos
  refine foldlM_ok (P := fun codes : List UInt8 => codes.length = base.size * encoder.subspaces ∧
    ∀ i, (codes.getD i 0).toNat < encoder.centroids) ?_ ⟨List.length_replicate, fun i => ?_⟩
  · rintro i hi codes ⟨hlength, hcodes⟩
    rw [List.mem_range] at hi
    obtain ⟨row, hrow, hsize⟩ := row_ok hi
    have hcode := encode_ok float_max h.shaped (hsize.trans h.dim)
    have hfits : (i + 1) * encoder.subspaces ≤ base.size * encoder.subspaces :=
      Nat.mul_le_mul_right _ hi
    rw [Nat.add_mul, Nat.one_mul] at hfits
    have hwidth : ((List.range encoder.subspaces).map fun m =>
        UInt8.ofNat (encoder.nearest float_max row m)).length = encoder.subspaces := by
      rw [List.length_map, List.length_range]
    obtain ⟨next, hnext, hlength', hvalues⟩ := copyRange_ok (Nat.zero_le _)
      (Nat.zero_add ((List.range encoder.subspaces).map fun m =>
        UInt8.ofNat (encoder.nearest float_max row m)).length).le
      (show i * encoder.subspaces + ((List.range encoder.subspaces).map fun m =>
        UInt8.ofNat (encoder.nearest float_max row m)).length ≤ codes.length by omega) 0
    refine ⟨next, ?_, hlength'.trans hlength, fun t => ?_⟩
    · simp only [bind, Except.bind, hrow, hcode]
      exact hnext
    · rw [hvalues]
      split
      · next hin =>
        rw [hwidth] at hin
        rw [List.getD_eq_getElem?_getD, List.getElem?_map, List.getElem?_range (by omega)]
        rw [Option.map_some, Option.getD_some, toNat_code float_max h.shaped]
        exact nearest_lt float_max h.shaped
      · exact hcodes t
  · rw [List.getD_eq_getElem?_getD, List.getElem?_replicate]
    split <;> exact hpositive

end Trainable

variable (base) in
/-- The size of the codebooks does not wrap. -/
def CodebooksFit (config : PQTrainingConfig) : Prop :=
  min config.subspaces base.dim * config.centroids * base.dim < 2 ^ 64

omit [Field F] [LinearOrder F] in
/-- Where the codebooks fit, so do the products that give the offsets. -/
theorem CodebooksFit.offset_lt {config : PQTrainingConfig} (hfits : CodebooksFit base config)
    (hcentroids : 0 < config.centroids) (hm : m ≤ min config.subspaces base.dim) :
    m * base.dim < 2 ^ 64 := by
  have hle : m * base.dim ≤ min config.subspaces base.dim * config.centroids * base.dim :=
    Nat.mul_le_mul_right _ (hm.trans (Nat.le_mul_of_pos_right _ hcentroids))
  exact hle.trans_lt hfits

omit [LinearOrder F] in
theorem trainable_initialEncoder {config : PQTrainingConfig} (hvalid : ¬InvalidConfig base config)
    (hfits : CodebooksFit base config) :
    Trainable base (initialEncoder base config) (sampleIds base.size (sampleCount base config)) := by
  simp only [InvalidConfig, not_or] at hvalid
  obtain ⟨hsize, hdim, hsubspaces, hfew, hmany, hlimit, -⟩ := hvalid
  have hfloats : (initialEncoder base config).codebooks.length =
      min config.subspaces base.dim * config.centroids * base.dim := by
    rw [initialEncoder, List.length_replicate, codebookFloats, Nat.mod_eq_of_lt hfits]
  refine ⟨⟨?_, min_le_right _ _, not_lt.mp hfew, not_lt.mp hmany, ?_, hfloats, hfloats.trans_lt hfits⟩,
    rfl, ?_, sampleIds_lt (min_le_left _ _)⟩
  · exact lt_min (Nat.pos_of_ne_zero hsubspaces) (Nat.pos_of_ne_zero hdim)
  · refine List.map_congr_left fun m hm => ?_
    have hlt := hfits.offset_lt (by omega) (Nat.lt_succ_iff.mp (List.mem_range.mp hm))
    rw [Nat.mod_eq_of_lt hlt]
    rfl
  · rw [sampleIds, List.length_map, List.length_range, sampleCount]
    omega

variable (float_max random) in
/-- With an accepted configuration and codebooks that a vector can hold, training returns an encoder
whose arrays fit together. -/
theorem train_ok {config : PQTrainingConfig} (hvalid : ¬InvalidConfig base config)
    (hroom : codebookFloats base config ≤ maxFloats) (hfits : CodebooksFit base config) :
    ∃ stats encoder, train float_max random base config = .ok (stats, encoder) ∧ Shaped encoder ∧
      encoder.dim = base.dim ∧ encoder.codes.length = base.size * encoder.subspaces ∧
      ∀ i, (encoder.codes.getD i 0).toNat < encoder.centroids := by
  have hstart := trainable_initialEncoder hvalid hfits
  have hloop : ∃ next, (List.range (initialEncoder base config).subspaces).foldlM
      (trainSubspace float_max random base (sampleIds base.size (sampleCount base config))
        config.iterations)
      (initialEncoder base config, random.seeded (config.seed ^^^ 0x0adc0de)) = .ok next ∧
      SameShape (initialEncoder base config) next.1 := by
    refine foldlM_ok (P := fun next : PQEncoder F × random.Engine =>
      SameShape (initialEncoder base config) next.1) ?_ (SameShape.refl _)
    rintro m hm ⟨other, engine⟩ hsame
    have hother := hstart.of_sameShape hsame
    obtain ⟨next, hnext, hkeep⟩ := hother.trainSubspace_ok
      (hsame.eqs.1 ▸ List.mem_range.mp hm) config.iterations engine
    exact ⟨next, hnext, hsame.trans hkeep⟩
  obtain ⟨⟨trained, engine⟩, htrained, hsame⟩ := hloop
  have hready : Trainable base trained _ := hstart.of_sameShape hsame
  obtain ⟨codes, hcodes, hcount, hsmall⟩ := hready.encodeBase_ok float_max
  refine ⟨trainingStats base config { trained with codes }, { trained with codes }, ?_, ?_,
    hready.dim.symm, hcount, hsmall⟩
  · rw [train, throwFault_ok hvalid, throwFault_ok (not_lt.mpr hroom)]
    simp only [bind, Except.bind, htrained, hcodes]
    rfl
  · exact ⟨hready.shaped.subspaces_pos, hready.shaped.subspaces_le, hready.shaped.centroids_pos,
      hready.shaped.centroids_le, hready.shaped.offsets, hready.shaped.codebooks,
      hready.shaped.fits⟩

omit [Field F] [LinearOrder F] in
theorem validCode_codes (hcount : encoder.codes.length = base.size * encoder.subspaces)
    (hsmall : ∀ i, (encoder.codes.getD i 0).toNat < encoder.centroids) {id : NodeId}
    (hid : id.toNat < base.size) :
    ValidCode encoder encoder.codes (id.toNat * encoder.subspaces) := by
  intro m hm
  have hfits : (id.toNat + 1) * encoder.subspaces ≤ base.size * encoder.subspaces :=
    Nat.mul_le_mul_right _ hid
  rw [Nat.add_mul, Nat.one_mul] at hfits
  exact ⟨by omega, hsmall _⟩

omit [Field F] [LinearOrder F] in
/-- The first centroids of a subspace were within the codebooks. -/
theorem of_initializeCentroids_eq_ok {other : PQEncoder F} {first last : ℕ}
    (h : initializeCentroids base encoder sample_ids m first last = .ok other) :
    SameShape encoder other ∧ ∀ c < encoder.centroids, ∀ d, first ≤ d → d < last →
      encoder.centroidOffset m c + d < encoder.codebooks.length := by
  have hround : ∀ c (state next : PQEncoder F), (do
      let sample ← load sample_ids (c * sample_ids.length % 2 ^ 64 / state.centroids)
      let row ← base.row sample.toNat
      let codebooks ← copyRange row 0 state.codebooks (state.centroidOffset m c) first last
      return { state with codebooks }) = Except.ok next → SameShape state next ∧
        ∀ d, first ≤ d → d < last → state.centroidOffset m c + d < state.codebooks.length := by
    intro c state next hnext
    obtain ⟨sample, -, hnext⟩ := except_bind_eq_ok.mp hnext
    obtain ⟨row, -, hnext⟩ := except_bind_eq_ok.mp hnext
    obtain ⟨codebooks, hcopied, hnext⟩ := except_bind_eq_ok.mp hnext
    obtain rfl := Except.ok.inj hnext
    obtain ⟨hlength, hinside⟩ := of_copyRange_eq_ok hcopied
    exact ⟨(SameShape.refl state).set hlength, hinside⟩
  obtain ⟨hsame, hrounds⟩ := round_of_foldlM_ok
    (fun c _ state next hstate hnext => hstate.trans (hround c state next hnext).1)
    (SameShape.refl encoder) h
  refine ⟨hsame, fun c hc d hfirst hlast => ?_⟩
  obtain ⟨_, next, ⟨codebooks, hlength, rfl⟩, hnext⟩ := hrounds c (List.mem_range.mpr hc)
  exact hlength ▸ (hround c _ next hnext).2 d hfirst hlast

omit [LinearOrder F] in
theorem sameShape_of_updateCentroid {sums : List F} {counts : List ℕ} {first last c : ℕ}
    {state next : PQEncoder F × random.Engine}
    (h : updateCentroid random base sample_ids sums counts m first last state c = .ok next) :
    SameShape state.1 next.1 := by
  obtain ⟨encoder, engine⟩ := state
  rw [updateCentroid] at h
  obtain ⟨count, -, h⟩ := except_bind_eq_ok.mp h
  split at h
  · obtain ⟨replacement, -, h⟩ := except_bind_eq_ok.mp h
    obtain ⟨row, -, h⟩ := except_bind_eq_ok.mp h
    obtain ⟨codebooks, hcopied, h⟩ := except_bind_eq_ok.mp h
    obtain rfl := Except.ok.inj h
    exact (SameShape.refl encoder).set (of_copyRange_eq_ok hcopied).1
  · obtain ⟨codebooks, hmeans, h⟩ := except_bind_eq_ok.mp h
    obtain rfl := Except.ok.inj h
    refine (SameShape.refl encoder).set (round_of_foldlM_ok
      (P := fun state : List F => state.length = encoder.codebooks.length) ?_ rfl hmeans).1
    intro d _ state next hstate hnext
    obtain ⟨sum, -, hstore⟩ := except_bind_eq_ok.mp hnext
    obtain ⟨-, rfl⟩ := store_eq_ok_iff.mp hstore
    rw [List.length_set, hstate]

theorem sameShape_of_trainIteration {first last : ℕ} {state next : PQEncoder F × random.Engine}
    (h : trainIteration float_max random base sample_ids m first last state = .ok next) :
    SameShape state.1 next.1 := by
  obtain ⟨sums, -, h⟩ := except_bind_eq_ok.mp h
  exact (round_of_foldlM_ok (P := fun next : PQEncoder F × random.Engine => SameShape state.1 next.1)
    (fun c _ _ _ hstate hnext => hstate.trans (sameShape_of_updateCentroid hnext))
    (SameShape.refl state.1) h).1

/-- A subspace that has been trained had its centroids within the codebooks. -/
theorem of_trainSubspace_eq_ok {iterations : ℕ} {state next : PQEncoder F × random.Engine}
    (h : trainSubspace float_max random base sample_ids iterations state m = .ok next) :
    SameShape state.1 next.1 ∧ ∃ first last, load state.1.offsets m = .ok first ∧
      load state.1.offsets (m + 1) = .ok last ∧ ∀ c < state.1.centroids, ∀ d, first ≤ d → d < last →
        state.1.centroidOffset m c + d < state.1.codebooks.length := by
  obtain ⟨first, hfirst, h⟩ := except_bind_eq_ok.mp h
  obtain ⟨last, hlast, h⟩ := except_bind_eq_ok.mp h
  obtain ⟨encoder, hencoder, h⟩ := except_bind_eq_ok.mp h
  obtain ⟨hsame, hinside⟩ := of_initializeCentroids_eq_ok hencoder
  refine ⟨?_, first, last, hfirst, hlast, hinside⟩
  exact (round_of_foldlM_ok (P := fun next : PQEncoder F × random.Engine => SameShape state.1 next.1)
    (fun _ _ _ _ hstate hnext => hstate.trans (sameShape_of_trainIteration hnext)) hsame h).1

omit [Field F] [LinearOrder F] in
/-- A base with a row has no more dimensions than a vector has floats. -/
theorem dim_le_maxFloats (h : base.size ≠ 0) : base.dim ≤ maxFloats := by
  refine le_trans ?_ base.length_le
  rw [FloatSet.size] at h
  split at h
  · exact absurd rfl h
  · exact (Nat.div_ne_zero_iff.mp h).2

/-- A number that wraps, but whose remainder a vector can hold, is that of rows of which one starts
behind the remainder and does not wrap. -/
theorem exists_row_behind {rows dim : ℕ} (hdim : dim ≠ 0) (hsmall : dim ≤ maxFloats)
    (hwraps : 2 ^ 64 ≤ rows * dim) (hroom : rows * dim % 2 ^ 64 ≤ maxFloats) :
    ∃ r < rows, rows * dim % 2 ^ 64 ≤ r * dim ∧ (r + 1) * dim < 2 ^ 64 := by
  have hmax : maxFloats < 2 ^ 61 := by decide
  have hdivide := Nat.div_add_mod (rows * dim % 2 ^ 64 + dim - 1) dim
  have hrest := Nat.mod_lt (rows * dim % 2 ^ 64 + dim - 1) (Nat.pos_of_ne_zero hdim)
  rw [Nat.mul_comm dim] at hdivide
  refine ⟨(rows * dim % 2 ^ 64 + dim - 1) / dim, ?_, by omega, ?_⟩
  · refine Nat.lt_of_mul_lt_mul_right (a := dim) ?_
    omega
  · rw [Nat.add_mul, Nat.one_mul]
    omega

omit [Field F] [LinearOrder F] in
/-- Where an offset of the configured subspaces does not wrap, it is the start of its subspace. -/
theorem load_initialOffset [Zero F] {config : PQTrainingConfig}
    (hm : m ≤ min config.subspaces base.dim) (hfits : m * base.dim < 2 ^ 64) {offset : ℕ}
    (h : load ((List.range (min config.subspaces base.dim + 1)).map fun m =>
      m * base.dim % 2 ^ 64 / min config.subspaces base.dim) m = .ok offset) :
    offset = m * base.dim / min config.subspaces base.dim := by
  rw [load_eq_ok_iff, List.getElem?_map, List.getElem?_range (by omega), Option.map_some,
    Nat.mod_eq_of_lt hfits] at h
  exact (Option.some.inj h).symm

/-- Codebooks of a wrapped size are not trained: some centroid starts behind their end. -/
theorem codebooksFit_of_train_ok {config : PQTrainingConfig} {stats : PQTrainingStats}
    (htrain : train float_max random base config = .ok (stats, encoder)) :
    ¬InvalidConfig base config ∧ codebookFloats base config ≤ maxFloats ∧
      CodebooksFit base config := by
  obtain ⟨_, hvalid, htrain⟩ := except_bind_eq_ok.mp htrain
  obtain ⟨_, hroom, htrain⟩ := except_bind_eq_ok.mp htrain
  obtain ⟨final, hloop, -⟩ := except_bind_eq_ok.mp htrain
  rw [throwFault_eq_ok_iff] at hvalid hroom
  rw [not_lt] at hroom
  refine ⟨hvalid, hroom, ?_⟩
  simp only [InvalidConfig, not_or] at hvalid
  obtain ⟨hsize, hdim, hsubspaces, hfew, -, -, -⟩ := hvalid
  rw [CodebooksFit]
  by_contra hwraps
  obtain ⟨r, hr, hbehind, hfits⟩ := exists_row_behind hdim (dim_le_maxFloats hsize) (not_lt.mp hwraps)
    hroom
  have hcentroids : 0 < config.centroids := by omega
  have hm : r / config.centroids < min config.subspaces base.dim := by
    rw [Nat.div_lt_iff_lt_mul hcentroids]
    exact hr
  have hsame : ∀ state : PQEncoder F × random.Engine, SameShape (initialEncoder base config) state.1 →
      ∀ m next, trainSubspace float_max random base (sampleIds base.size (sampleCount base config))
        config.iterations state m = .ok next → SameShape (initialEncoder base config) next.1 :=
    fun state hstate m next hnext => hstate.trans (of_trainSubspace_eq_ok hnext).1
  obtain ⟨-, hrounds⟩ := round_of_foldlM_ok
    (fun m _ state next hstate hnext => hsame state hstate m next hnext) (SameShape.refl _) hloop
  obtain ⟨state, next, hstate, hnext⟩ := hrounds _ (List.mem_range.mpr hm)
  obtain ⟨-, first, last, hfirst, hlast, hinside⟩ := of_trainSubspace_eq_ok hnext
  obtain ⟨trained, engine⟩ := state
  obtain ⟨codebooks, hlength, rfl⟩ := hstate
  have hrow : r / config.centroids * base.dim + base.dim ≤ (r + 1) * base.dim := by
    rw [Nat.add_mul, Nat.one_mul]
    exact Nat.add_le_add_right (Nat.mul_le_mul_right _ (Nat.div_le_self _ _)) _
  obtain rfl := load_initialOffset hm.le (by omega) hfirst
  obtain rfl := load_initialOffset hm (by rw [Nat.succ_mul]; omega) hlast
  have hstore := hinside (r % config.centroids) (Nat.mod_lt _ hcentroids) _ le_rfl
    (Shaped.div_lt_div_succ (by omega) (min_le_right _ _) _)
  have hstart : r / config.centroids * config.centroids + r % config.centroids = r := by
    rw [Nat.mul_comm]
    exact Nat.div_add_mod r _
  rw [hlength] at hstore
  simp only [centroidOffset, initialEncoder, List.length_replicate, codebookFloats, hstart] at hstore
  rw [Nat.mod_eq_of_lt (by rw [Nat.add_mul] at hfits; omega)] at hstore
  exact absurd hbehind (not_le.mpr (lt_of_le_of_lt (Nat.le_add_right _ _) hstore))

/-- Where the codebooks get no float, the first centroid is written behind their end. -/
theorem train_outOfRange {config : PQTrainingConfig} (hvalid : ¬InvalidConfig base config)
    (hempty : codebookFloats base config = 0) (hoffset : base.dim < 2 ^ 64) :
    train float_max random base config = .error .outOfRange := by
  have hbounds := hvalid
  simp only [InvalidConfig, not_or] at hbounds
  obtain ⟨hsize, hdim, hsubspaces, hfew, -, hlimit, -⟩ := hbounds
  have hpos : 0 < min config.subspaces base.dim := by omega
  have hsamples : 0 < (sampleIds base.size (sampleCount base config)).length := by
    rw [sampleIds, List.length_map, List.length_range, sampleCount]
    omega
  have hid : (sampleIds base.size (sampleCount base config)).getD 0 0 ∈
      sampleIds base.size (sampleCount base config) := by
    rw [List.getD_eq_getElem?_getD, List.getElem?_eq_getElem hsamples]
    exact List.getElem_mem hsamples
  obtain ⟨row, hrow, hlength⟩ := row_ok (sampleIds_lt (min_le_left _ _) _ hid)
  have hwidth : 0 < base.dim / min config.subspaces base.dim :=
    Nat.div_pos (min_le_right _ _) hpos
  have hcopy : copyRange row 0 (initialEncoder base config).codebooks
      ((initialEncoder base config).centroidOffset 0 0) 0
      (base.dim / min config.subspaces base.dim) = .error .outOfRange := by
    have hcodebooks : (initialEncoder base config).codebooks = [] := by
      rw [initialEncoder, hempty, List.replicate_zero]
    obtain ⟨count, hcount⟩ := Nat.exists_eq_add_of_lt hwidth
    rw [copyRange, hcodebooks, hcount, Nat.zero_add, Nat.sub_zero, List.range'_succ, List.foldlM_cons,
      load_ok (by omega) 0]
    rfl
  have hinitialize : initializeCentroids base (initialEncoder base config)
      (sampleIds base.size (sampleCount base config)) 0 0
      (base.dim / min config.subspaces base.dim) = .error .outOfRange := by
    refine foldlM_range_error (show 0 < config.centroids by omega) ?_
    rw [Nat.zero_mul, Nat.zero_mod, Nat.zero_div, load_ok hsamples 0]
    simp only [bind, Except.bind, hrow, hcopy]
  have hoffsets : load (initialEncoder base config).offsets 0 = .ok 0 ∧
      load (initialEncoder base config).offsets (0 + 1) =
        .ok (base.dim / min config.subspaces base.dim) := by
    constructor
    · refine load_eq_ok_iff.mpr ?_
      rw [initialEncoder, List.getElem?_map, List.getElem?_range (by omega), Option.map_some,
        Nat.zero_mul, Nat.zero_mod, Nat.zero_div]
    · refine load_eq_ok_iff.mpr ?_
      rw [initialEncoder, List.getElem?_map, List.getElem?_range (by omega), Option.map_some,
        Nat.zero_add, Nat.one_mul, Nat.mod_eq_of_lt hoffset]
  have hloop : (List.range (initialEncoder base config).subspaces).foldlM
      (trainSubspace float_max random base (sampleIds base.size (sampleCount base config))
        config.iterations)
      (initialEncoder base config, random.seeded (config.seed ^^^ 0x0adc0de)) =
        .error .outOfRange := by
    refine foldlM_range_error hpos ?_
    rw [trainSubspace, hoffsets.1, hoffsets.2]
    simp only [bind, Except.bind, hinitialize]
  rw [train, throwFault_ok hvalid, throwFault_ok (by rw [hempty]; decide)]
  simp only [bind, Except.bind, hloop]

/-- What has been trained is shaped. -/
theorem shaped_of_train_ok {config : PQTrainingConfig} {stats : PQTrainingStats}
    (htrain : train float_max random base config = .ok (stats, encoder)) :
    Shaped encoder ∧ encoder.dim = base.dim := by
  obtain ⟨hvalid, hroom, hfits⟩ := codebooksFit_of_train_ok htrain
  obtain ⟨_, _, hagain, hshaped, hdim, -⟩ := train_ok float_max random hvalid hroom hfits
  obtain ⟨-, rfl⟩ := Prod.ext_iff.mp (Except.ok.inj (htrain.symm.trans hagain))
  exact ⟨hshaped, hdim⟩

/-- What an encoder promises to the searches that use it: the offsets cut the dimensions into
consecutive parts that are not empty, the codes are below the centroid count, and for every query and
every id the distance from the table is the squared distance to the decoded vector. No call throws or
leaves an array. -/
structure ExactDistances (base : FloatSet F) (encoder : PQEncoder F) : Prop where
  offsets_lt : encoder.offsets.Pairwise (· < ·)
  offsets_length : encoder.offsets.length = encoder.subspaces + 1
  offsets_head : encoder.offsets.head? = some 0
  offsets_last : encoder.offsets.getLast? = some base.dim
  codes_lt : ∀ code ∈ encoder.codes, code.toNat < encoder.centroids
  adc : ∀ (query : List F) (id : NodeId), query.length = base.dim → id.toNat < base.size →
    ∃ table decoded, encoder.buildAdcTable query = .ok table ∧ encoder.decode id = .ok decoded ∧
      encoder.adcDistance id table = .ok (squaredL2 query decoded)

omit [LinearOrder F] in
theorem exactDistances_of_shaped (hshaped : Shaped encoder) (hdim : encoder.dim = base.dim)
    (hcount : encoder.codes.length = base.size * encoder.subspaces)
    (hsmall : ∀ i, (encoder.codes.getD i 0).toNat < encoder.centroids) :
    ExactDistances base encoder := by
  refine ⟨?_, ?_, ?_, ?_, fun code hcode => ?_, fun query id hquery hid => ?_⟩
  · rw [hshaped.offsets, List.pairwise_map]
    exact List.pairwise_lt_range.imp fun h => hshaped.offset_strictMono h
  · rw [hshaped.offsets, List.length_map, List.length_range]
  · rw [hshaped.offsets, List.range_succ_eq_map, List.map_cons, List.head?_cons, Shaped.offset_zero]
  · rw [hshaped.offsets, List.range_succ, List.map_append, List.map_singleton,
      List.getLast?_concat, hshaped.offset_last, hdim]
  · obtain ⟨i, hi, rfl⟩ := List.mem_iff_getElem.mp hcode
    have hlt := hsmall i
    rwa [List.getD_eq_getElem?_getD, List.getElem?_eq_getElem hi] at hlt
  · have hcodes := validCode_codes hcount hsmall hid
    have hvectors : encoder.vectorCount = base.size := by
      rw [vectorCount, if_neg hshaped.subspaces_pos.ne', hcount,
        Nat.mul_div_cancel _ hshaped.subspaces_pos]
    have henabled : encoder.enabled = true := by
      have hfirst := (hcodes 0 hshaped.subspaces_pos).1
      rw [enabled, Bool.not_eq_true', List.isEmpty_eq_false_iff]
      exact List.ne_nil_of_length_pos (by omega)
    obtain ⟨table, htable, hlength, hparts⟩ := buildAdcTable_ok hshaped henabled (hquery.trans hdim.symm)
    obtain ⟨decoded, hdecoded, hdistance⟩ := decodeCode_ok hshaped hcodes
    refine ⟨table, decoded, htable, ?_, ?_⟩
    · rw [decode, hshaped.validateTrained_ok]
      simp only [bind, Except.bind]
      rw [throwFault_ok (by rw [hvectors]; exact not_le.mpr hid)]
      exact hdecoded
    · rw [adcDistance_ok henabled (hvectors.symm ▸ hid) hlength hcodes,
        hdistance query (hquery.trans hdim.symm)]
      refine congrArg Except.ok (Finset.sum_congr rfl fun m hm => ?_)
      rw [Finset.mem_range] at hm
      exact hparts m hm _ (hcodes m hm).2

variable (base) in
/-- With an accepted configuration whose codebooks a vector can hold, training returns an encoder with
exact distances if and only if the size of the codebooks does not wrap. -/
theorem train_adc_iff (float_max : F) (random : UniformInts) {config : PQTrainingConfig}
    (hvalid : ¬InvalidConfig base config) (hroom : codebookFloats base config ≤ maxFloats) :
    (∃ stats encoder, train float_max random base config = .ok (stats, encoder) ∧
      ExactDistances base encoder) ↔ CodebooksFit base config := by
  constructor
  · rintro ⟨stats, encoder, htrain, -⟩
    exact (codebooksFit_of_train_ok htrain).2.2
  · intro hfits
    obtain ⟨stats, encoder, htrain, hshaped, hdim, hcount, hsmall⟩ :=
      train_ok float_max random hvalid hroom hfits
    exact ⟨stats, encoder, htrain, exactDistances_of_shaped hshaped hdim hcount hsmall⟩

/-- Two vectors of three dimensions in two uneven subspaces. -/
def pairBase : FloatSet ℚ := { dim := 3, values := [0, 1, 2, 5, 5, 5] }

def pairConfig : PQTrainingConfig := { subspaces := 2, centroids := 2, train_limit := 2, iterations := 1 }

/-- An engine that always draws the first number. -/
def firstInts : UniformInts := ⟨Unit, fun _ => (), fun _ _ => (0, ()), fun _ bound => Nat.zero_le bound⟩

theorem train_adc_iff_pair : ∃ stats encoder,
    train (2 ^ 128) firstInts pairBase pairConfig = .ok (stats, encoder) ∧
      ExactDistances pairBase encoder :=
  (train_adc_iff pairBase (2 ^ 128) firstInts (by decide) (by decide)).mpr
    (show 2 * 2 * 3 < 2 ^ 64 by decide)

/-- One vector of `2 ^ 28` dimensions. -/
def wideBase : FloatSet ℚ :=
  { dim := 2 ^ 28, values := List.replicate (2 ^ 28) 0
    length_le := by rw [List.length_replicate]; decide }

def wideConfig : PQTrainingConfig := { subspaces := 2 ^ 28 }

/-- The configuration is accepted, the codebooks get no float, and the first centroid is written behind
their end. -/
theorem train_leaves_codebooks : ¬InvalidConfig wideBase wideConfig ∧
    codebookFloats wideBase wideConfig = 0 ∧
    train (2 ^ 128) firstInts wideBase wideConfig = .error .outOfRange := by
  have hlength : wideBase.values.length = wideBase.dim := List.length_replicate
  have hdim : wideBase.dim ≠ 0 := by decide
  have hsize : wideBase.size = 1 := by
    rw [FloatSet.size, if_neg hdim, hlength, Nat.div_self (Nat.pos_of_ne_zero hdim)]
  have hvalid : ¬InvalidConfig wideBase wideConfig := by
    rw [InvalidConfig, hsize]
    show ¬(1 = 0 ∨ 2 ^ 28 = 0 ∨ 2 ^ 28 = 0 ∨ 256 < 2 ∨ 256 < 256 ∨ 100000 = 0 ∨ 4 = 0)
    omega
  have hempty : codebookFloats wideBase wideConfig = 0 := by
    show min (2 ^ 28) (2 ^ 28) * 256 * 2 ^ 28 % 2 ^ 64 = 0
    decide
  exact ⟨hvalid, hempty, train_outOfRange hvalid hempty (by decide)⟩

/-- For a trained encoder and a vector whose distances in the subspaces are below the limit, the
narrowing of its codes loses nothing, and no code word with codes below the centroid count decodes to
a nearer vector. -/
theorem encode_nearest [IsStrictOrderedRing F] {config : PQTrainingConfig} {stats : PQTrainingStats}
    (htrain : train float_max random base config = .ok (stats, encoder)) (vector : List F)
    (hvector : vector.length = base.dim)
    (hlimit : ∀ m < encoder.subspaces, ∀ c < encoder.centroids, encoder.gap vector m c < float_max) :
    ∃ code decoded, encoder.encode float_max vector = .ok code ∧
      encoder.decodeCode code 0 = .ok decoded ∧
      (∀ m < encoder.subspaces, ∃ nearest, encoder.nearestCentroid float_max vector m =
        .ok nearest ∧ (code.getD m 0).toNat = nearest) ∧
      ∀ word : List UInt8, word.length = encoder.subspaces →
        (∀ code ∈ word, code.toNat < encoder.centroids) →
        ∃ other, encoder.decodeCode word 0 = .ok other ∧
          squaredL2 vector decoded ≤ squaredL2 vector other := by
  obtain ⟨hshaped, hdim⟩ := shaped_of_train_ok htrain
  have hlength : vector.length = encoder.dim := hvector.trans hdim.symm
  have hgetD : ∀ m < encoder.subspaces, (((List.range encoder.subspaces).map fun m =>
      UInt8.ofNat (encoder.nearest float_max vector m)).getD m 0).toNat =
      encoder.nearest float_max vector m := by
    intro m hm
    rw [List.getD_eq_getElem?_getD, List.getElem?_map, List.getElem?_range hm]
    exact toNat_code float_max hshaped
  have hcode : ValidCode encoder ((List.range encoder.subspaces).map fun m =>
      UInt8.ofNat (encoder.nearest float_max vector m)) 0 := by
    intro m hm
    rw [Nat.zero_add, hgetD m hm, List.length_map, List.length_range]
    exact ⟨hm, nearest_lt float_max hshaped⟩
  obtain ⟨decoded, hdecoded, hdistance⟩ := decodeCode_ok hshaped hcode
  refine ⟨_, decoded, encode_ok float_max hshaped hlength, hdecoded, fun m hm =>
    ⟨_, nearestCentroid_ok float_max hshaped hlength hm, hgetD m hm⟩, fun word hword hsmall => ?_⟩
  have hwordCode : ValidCode encoder word 0 := by
    intro m hm
    have hin : m < word.length := hword.symm ▸ hm
    rw [Nat.zero_add, List.getD_eq_getElem?_getD, List.getElem?_eq_getElem hin]
    exact ⟨hin, hsmall _ (List.getElem_mem hin)⟩
  obtain ⟨other, hother, hdistance'⟩ := decodeCode_ok hshaped hwordCode
  refine ⟨other, hother, ?_⟩
  rw [hdistance vector hlength, hdistance' vector hlength]
  -- the sum is least because every part is
  refine Finset.sum_le_sum fun m hm => ?_
  rw [Finset.mem_range] at hm
  rw [Nat.zero_add, hgetD m hm]
  have hleast := Nearest.scan_le (hlimit m hm) (word.getD m 0).toNat
    (by simpa using (hwordCode m hm).2)
  exact hleast

theorem encode_nearest_pair : ∃ stats encoder,
    train (2 ^ 128) firstInts pairBase pairConfig = .ok (stats, encoder) ∧
      ∀ vector : List ℚ, vector.length = 3 →
        (∀ m < encoder.subspaces, ∀ c < encoder.centroids, encoder.gap vector m c < 2 ^ 128) →
        ∃ code decoded, encoder.encode (2 ^ 128) vector = .ok code ∧
          encoder.decodeCode code 0 = .ok decoded ∧
          ∀ word : List UInt8, word.length = encoder.subspaces →
            (∀ code ∈ word, code.toNat < encoder.centroids) →
            ∃ other, encoder.decodeCode word 0 = .ok other ∧
              squaredL2 vector decoded ≤ squaredL2 vector other := by
  have hfits : CodebooksFit pairBase pairConfig := show 2 * 2 * 3 < 2 ^ 64 by decide
  obtain ⟨stats, encoder, htrain, -⟩ :=
    train_ok (2 ^ 128) firstInts (by decide) (by decide) hfits
  refine ⟨stats, encoder, htrain, fun vector hvector hlimit => ?_⟩
  obtain ⟨code, decoded, hcode, hdecoded, -, hleast⟩ := encode_nearest htrain vector hvector hlimit
  exact ⟨code, decoded, hcode, hdecoded, hleast⟩

end Train

end PQEncoder
