import AgentAware.Core.Types
import AgentAware.Lib.Checked
import AgentAware.Lib.Nearest
import Mathlib.Algebra.Field.Basic

/-!
# The product quantizer

`PQEncoder` cuts vectors into subspaces and replaces each part by the nearest of a few centroids. The
arithmetic is exact, in a field `F`. Every access to an array is checked: a call fails when it throws
or when it reads or writes outside an array. The offsets into the codebooks and their size wrap at 64
bits; the other products are at most that size, or the size of the base, and are plain numbers.

## Main definitions

- `Fault`, `load`, `store` — checked accesses
- `FloatSet` — a base of vectors
- `PQEncoder.train` — the training of the codebooks, and the codes of the base
- `PQEncoder.encode`, `PQEncoder.decodeCode`, `PQEncoder.decode` — codes and vectors
- `PQEncoder.buildAdcTable`, `PQEncoder.adcDistance` — distances from a table
-/

/-- How a call fails. -/
inductive Fault where
  | thrown (message : String)
  | outOfRange
  deriving DecidableEq

section Arrays

variable {α : Type}

def load (values : List α) (index : ℕ) : Except Fault α :=
  match values[index]? with
  | none => .error .outOfRange
  | some value => .ok value

def store (values : List α) (index : ℕ) (value : α) : Except Fault (List α) :=
  if index < values.length then .ok (values.set index value) else .error .outOfRange

/-- `std::copy` of the elements `first`, ..., `last - 1` behind one offset to behind another. -/
def copyRange (source : List α) (source_offset : ℕ) (target : List α)
    (target_offset first last : ℕ) : Except Fault (List α) :=
  (List.range' first (last - first)).foldlM (fun target d => do
    let value ← load source (source_offset + d)
    store target (target_offset + d) value) target

def throwFault (condition : Prop) [Decidable condition] (message : String) : Except Fault Unit :=
  if condition then .error (.thrown message) else .ok ()

end Arrays

/-- `std::vector<float>::max_size()`. -/
def maxFloats : ℕ := 2 ^ 61 - 1

/-- `VectorSet`, with exact values. -/
structure FloatSet (F : Type) where
  dim : ℕ := 0
  values : List F := []
  length_le : values.length ≤ maxFloats := by decide

namespace FloatSet

variable {F : Type}

def size (base : FloatSet F) : ℕ := if base.dim = 0 then 0 else base.values.length / base.dim

def row (base : FloatSet F) (index : ℕ) : Except Fault (List F) := do
  throwFault (base.size ≤ index) "VectorSet row index out of range"
  return (base.values.drop (index * base.dim)).take base.dim

end FloatSet

structure PQTrainingConfig where
  subspaces : ℕ := 8
  centroids : ℕ := 256
  train_limit : ℕ := 100000
  iterations : ℕ := 4
  seed : UInt32 := 42

structure PQTrainingStats where
  vector_count : ℕ := 0
  training_vectors : ℕ := 0
  dim : ℕ := 0
  subspaces : ℕ := 0
  centroids : ℕ := 0
  code_bytes : ℕ := 0
  codebook_bytes : ℕ := 0

/-- `std::mt19937` with `std::uniform_int_distribution`: numbers up to and including a bound. -/
structure UniformInts where
  Engine : Type
  seeded : UInt32 → Engine
  draw : Engine → ℕ → ℕ × Engine
  draw_le : ∀ engine bound, (draw engine bound).1 ≤ bound

structure PQEncoder (F : Type) where
  subspaces : ℕ := 0
  centroids : ℕ := 0
  dim : ℕ := 0
  offsets : List ℕ := []
  codebooks : List F := []
  codes : List UInt8 := []

namespace PQEncoder

variable {F : Type}

def enabled (encoder : PQEncoder F) : Bool := !encoder.codes.isEmpty

def vectorCount (encoder : PQEncoder F) : ℕ :=
  if encoder.subspaces = 0 then 0 else encoder.codes.length / encoder.subspaces

/-- Where the row of a centroid starts in the codebooks. -/
def centroidOffset (encoder : PQEncoder F) (subspace c : ℕ) : ℕ :=
  (subspace * encoder.centroids + c) * encoder.dim % 2 ^ 64

def validateTrained (encoder : PQEncoder F) : Except Fault Unit :=
  throwFault (encoder.subspaces = 0 ∨ encoder.centroids = 0 ∨ encoder.dim = 0 ∨
    encoder.offsets.length ≠ encoder.subspaces + 1 ∨ encoder.codebooks.isEmpty)
    "PQ encoder has not been trained"

section Distances

variable [Field F] (encoder : PQEncoder F)

/-- The loop over the dimensions of a subspace in `nearest_centroid` and `build_adc_table`. -/
def centroidDistance (vector : List F) (subspace c first last : ℕ) : Except Fault F :=
  (List.range' first (last - first)).foldlM (fun distance d => do
    let value ← load vector d
    let centroid ← load encoder.codebooks (encoder.centroidOffset subspace c + d)
    let diff := value - centroid
    return distance + diff * diff) 0

variable [LinearOrder F] (float_max : F)

def nearestCentroid (vector : List F) (subspace : ℕ) : Except Fault ℕ := do
  let first ← load encoder.offsets subspace
  let last ← load encoder.offsets (subspace + 1)
  let best ← (List.range encoder.centroids).foldlM (fun (best : ℕ × F) c => do
    let distance ← encoder.centroidDistance vector subspace c first last
    return if distance < best.2 then (c, distance) else best) (0, float_max)
  return best.1

def encode (vector : List F) : Except Fault (List UInt8) := do
  encoder.validateTrained
  (List.range encoder.subspaces).foldlM (fun code m => do
    let nearest ← encoder.nearestCentroid float_max vector m
    store code m (UInt8.ofNat nearest)) (List.replicate encoder.subspaces 0)

end Distances

section Decode

variable [Field F] (encoder : PQEncoder F)

/-- `offset` is where the code starts. -/
def decodeCode (code : List UInt8) (offset : ℕ) : Except Fault (List F) := do
  encoder.validateTrained
  (List.range encoder.subspaces).foldlM (fun decoded m => do
    let centroid_id ← load code (offset + m)
    throwFault (encoder.centroids ≤ centroid_id.toNat) "Invalid PQ code centroid id"
    let first ← load encoder.offsets m
    let last ← load encoder.offsets (m + 1)
    copyRange encoder.codebooks (encoder.centroidOffset m centroid_id.toNat) decoded 0 first last)
    (List.replicate encoder.dim 0)

def decode (id : NodeId) : Except Fault (List F) := do
  encoder.validateTrained
  throwFault (encoder.vectorCount ≤ id.toNat) "PQ decode id out of range"
  encoder.decodeCode encoder.codes (id.toNat * encoder.subspaces)

def buildAdcTable (query : List F) : Except Fault (List F) :=
  if !encoder.enabled then .ok []
  else
    (List.range encoder.subspaces).foldlM (fun table m => do
      let first ← load encoder.offsets m
      let last ← load encoder.offsets (m + 1)
      (List.range encoder.centroids).foldlM (fun table c => do
        let distance ← encoder.centroidDistance query m c first last
        store table (m * encoder.centroids + c) distance) table)
      (List.replicate (encoder.subspaces * encoder.centroids) 0)

def adcDistance (id : NodeId) (table : List F) : Except Fault F := do
  throwFault (!encoder.enabled ∨ encoder.vectorCount ≤ id.toNat ∨
    table.length ≠ encoder.subspaces * encoder.centroids) "Invalid PQ ADC lookup"
  (List.range encoder.subspaces).foldlM (fun distance m => do
    let code ← load encoder.codes (id.toNat * encoder.subspaces + m)
    let part ← load table (m * encoder.centroids + code.toNat)
    return distance + part) 0

end Decode

section Train

variable [Field F] [LinearOrder F] (float_max : F) (random : UniformInts) (base : FloatSet F)

/-- The samples are spread evenly over the base; their ids are narrowed to 32 bits. -/
def sampleIds (size sample_count : ℕ) : List NodeId :=
  (List.range sample_count).map fun i => UInt32.ofNat (i * size % 2 ^ 64 / sample_count)

/-- The first centroids of a subspace are samples. -/
def initializeCentroids (encoder : PQEncoder F) (sample_ids : List NodeId)
    (m first last : ℕ) : Except Fault (PQEncoder F) :=
  (List.range encoder.centroids).foldlM (fun encoder c => do
    let sample ← load sample_ids (c * sample_ids.length % 2 ^ 64 / encoder.centroids)
    let row ← base.row sample.toNat
    let codebooks ← copyRange row 0 encoder.codebooks (encoder.centroidOffset m c) first last
    return { encoder with codebooks }) encoder

/-- Adds a sample to the sum and the count of its nearest centroid. -/
def assignSample (encoder : PQEncoder F) (m first last : ℕ) (state : List F × List ℕ)
    (id : NodeId) : Except Fault (List F × List ℕ) := do
  let (sums, counts) := state
  let width := last - first
  let row ← base.row id.toNat
  let best ← encoder.nearestCentroid float_max row m
  let count ← load counts best
  let counts ← store counts best (count + 1)
  let sums ← (List.range' first width).foldlM (fun sums d => do
    let sum ← load sums (best * width + (d - first))
    let value ← load row d
    store sums (best * width + (d - first)) (sum + value)) sums
  return (sums, counts)

/-- The mean of the samples of a centroid, or, if it has none, a random sample. -/
def updateCentroid (sample_ids : List NodeId) (sums : List F) (counts : List ℕ) (m first last : ℕ)
    (state : PQEncoder F × random.Engine) (c : ℕ) : Except Fault (PQEncoder F × random.Engine) := do
  let (encoder, engine) := state
  let width := last - first
  let count ← load counts c
  if count = 0 then
    let (drawn, engine) := random.draw engine (sample_ids.length - 1)
    let replacement ← load sample_ids drawn
    let row ← base.row replacement.toNat
    let codebooks ← copyRange row 0 encoder.codebooks (encoder.centroidOffset m c) first last
    return ({ encoder with codebooks }, engine)
  else
    let codebooks ← (List.range' first width).foldlM (fun codebooks d => do
      let sum ← load sums (c * width + (d - first))
      store codebooks (encoder.centroidOffset m c + d) (sum / (count : F))) encoder.codebooks
    return ({ encoder with codebooks }, engine)

def trainIteration (sample_ids : List NodeId) (m first last : ℕ)
    (state : PQEncoder F × random.Engine) : Except Fault (PQEncoder F × random.Engine) := do
  let sums := List.replicate (state.1.centroids * (last - first) % 2 ^ 64) 0
  let counts := List.replicate state.1.centroids 0
  let (sums, counts) ← sample_ids.foldlM (assignSample float_max base state.1 m first last)
    (sums, counts)
  (List.range state.1.centroids).foldlM
    (updateCentroid random base sample_ids sums counts m first last) state

def trainSubspace (sample_ids : List NodeId) (iterations : ℕ) (state : PQEncoder F × random.Engine)
    (m : ℕ) : Except Fault (PQEncoder F × random.Engine) := do
  let first ← load state.1.offsets m
  let last ← load state.1.offsets (m + 1)
  let encoder ← initializeCentroids base state.1 sample_ids m first last
  (List.range iterations).foldlM
    (fun state _ => trainIteration float_max random base sample_ids m first last state)
    (encoder, state.2)

/-- The codes of the base. -/
def encodeBase (encoder : PQEncoder F) : Except Fault (List UInt8) :=
  (List.range base.size).foldlM (fun codes i => do
    let row ← base.row i
    let code ← encoder.encode float_max row
    copyRange code 0 codes (i * encoder.subspaces) 0 code.length)
    (List.replicate (base.size * encoder.subspaces) 0)

/-- What `train` refuses. -/
def InvalidConfig (config : PQTrainingConfig) : Prop :=
  base.size = 0 ∨ base.dim = 0 ∨ config.subspaces = 0 ∨ config.centroids < 2 ∨
    256 < config.centroids ∨ config.train_limit = 0 ∨ config.iterations = 0

instance (config : PQTrainingConfig) : Decidable (InvalidConfig base config) :=
  inferInstanceAs (Decidable (_ ∨ _))

/-- How many samples are taken. -/
def sampleCount (config : PQTrainingConfig) : ℕ :=
  min base.size (max config.centroids config.train_limit)

/-- How many floats the codebooks get. -/
def codebookFloats (config : PQTrainingConfig) : ℕ :=
  min config.subspaces base.dim * config.centroids * base.dim % 2 ^ 64

/-- The encoder before the training of its codebooks. -/
def initialEncoder (config : PQTrainingConfig) : PQEncoder F :=
  let subspaces := min config.subspaces base.dim
  { subspaces, centroids := config.centroids, dim := base.dim
    offsets := (List.range (subspaces + 1)).map fun m => m * base.dim % 2 ^ 64 / subspaces
    codebooks := List.replicate (codebookFloats base config) 0 }

def trainingStats (config : PQTrainingConfig) (encoder : PQEncoder F) : PQTrainingStats :=
  { vector_count := base.size, training_vectors := sampleCount base config, dim := encoder.dim
    subspaces := encoder.subspaces, centroids := encoder.centroids
    code_bytes := encoder.codes.length, codebook_bytes := encoder.codebooks.length * 4 }

def train (config : PQTrainingConfig) : Except Fault (PQTrainingStats × PQEncoder F) := do
  throwFault (InvalidConfig base config) "Invalid PQ training configuration"
  throwFault (maxFloats < codebookFloats base config)
    "cannot create std::vector larger than max_size()"
  let encoder := initialEncoder base config
  let sample_ids := sampleIds base.size (sampleCount base config)
  let engine := random.seeded (config.seed ^^^ 0x0adc0de)
  let (encoder, _) ← (List.range encoder.subspaces).foldlM
    (trainSubspace float_max random base sample_ids config.iterations) (encoder, engine)
  let codes ← encodeBase float_max base encoder
  let encoder := { encoder with codes }
  return (trainingStats base config encoder, encoder)

end Train

end PQEncoder
