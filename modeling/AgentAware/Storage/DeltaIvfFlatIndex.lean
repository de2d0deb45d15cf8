import AgentAware.Lib.Checked
import AgentAware.Lib.Nearest
import AgentAware.Storage.Block
import Mathlib.Algebra.Ring.Int.Defs

/-!
# The IVF delta index

Every insert goes to a copy of all rows, and then either to the bucket of its nearest centroid, or,
while there are few rows or after a number of inserts, through a rebuild that trains the centroids and
assigns all rows again. A search scans the buckets of the centroids nearest to the query.

The centroids are numbered in the 32-bit ids of search results, so with more than `2 ^ 32` of them a
search scans some buckets twice and others not at all.

## Main definitions

- `FloatOps` — the float operations of the index
- `DeltaIvfFlatIndex` — its state
- `DeltaIvfFlatIndex.insert`, `DeltaIvfFlatIndex.searchOne` — the two calls
- `DeltaIvfFlatIndex.Partitioned` — the buckets hold the rows

## Main results

- `DeltaIvfFlatIndex.partitioned_run` — a history of inserts leaves the buckets partitioned
- `DeltaIvfFlatIndex.fullProbe_exact` — a search of all buckets finds the first `k` rows
-/

namespace Storage

/-- The float operations of the index. -/
structure FloatOps (D : Type) where
  squared_l2 : List FloatBits → List FloatBits → D
  /-- `std::numeric_limits<float>::max()`. -/
  float_max : D
  /-- `-1.0f`. -/
  minus_one : D
  /-- `0.0f`. -/
  zero : FloatBits
  add : FloatBits → FloatBits → FloatBits
  mul : FloatBits → FloatBits → FloatBits
  /-- `1.0f / static_cast<float>(count)`. -/
  reciprocal : ℕ → FloatBits

/-- The code keeps the centroids in one array, whose size is computed in 64 bits; here they are apart, so
the model is that of the code as long as the initialized ones lie in the array. -/
structure DeltaIvfFlatIndex (dim : ℕ) where
  centroid_count : ℕ
  probe_count : ℕ
  train_iterations : ℕ
  rebuild_interval : ℕ
  initialized_centroids : ℕ := 0
  dirty_since_rebuild : ℕ := 0
  centroids : List (List FloatBits)
  /-- `centroids_.size()`. -/
  centroid_floats : ℕ
  /-- `all_ids_` and `all_values_`. -/
  all : Block dim
  /-- `bucket_ids_` and `bucket_values_`. -/
  buckets : List (Block dim)

namespace DeltaIvfFlatIndex

variable {dim : ℕ}

/-- The constructor. -/
def create (zero : FloatBits) (dim centroid_count probe_count train_iterations rebuild_interval : ℕ) :
    Except String (DeltaIvfFlatIndex dim) := do
  throwIf (dim = 0) "DeltaIvfFlatIndex dimension must be positive"
  throwIf (centroid_count = 0) "Delta IVF centroid count must be positive"
  throwIf (probe_count = 0) "Delta IVF probe count must be positive"
  throwIf (train_iterations = 0) "Delta IVF train iterations must be positive"
  throwIf (rebuild_interval = 0) "Delta IVF rebuild interval must be positive"
  return {
    centroid_count, probe_count, train_iterations, rebuild_interval
    centroids := List.replicate centroid_count (List.replicate dim zero)
    centroid_floats := centroid_count * dim % 2 ^ 64
    all := Block.empty dim
    buckets := List.replicate centroid_count (Block.empty dim) }

/-- `size_` is counted along with the rows. -/
def size (index : DeltaIvfFlatIndex dim) : ℕ := index.all.ids.length

section Train

variable {D : Type} [LinearOrder D] (ops : FloatOps D)

def nearestCentroidInRange (centroids : List (List FloatBits)) (vector : List FloatBits)
    (centroid_count : ℕ) : ℕ :=
  (Nearest.scan ops.float_max (fun c => ops.squared_l2 vector (centroids.getD c []))
    centroid_count).1

def nearestCentroid (index : DeltaIvfFlatIndex dim) (vector : List FloatBits) : ℕ :=
  if index.initialized_centroids = 0 then 0
  else nearestCentroidInRange ops index.centroids vector index.initialized_centroids

def storedVector (index : DeltaIvfFlatIndex dim) (i : ℕ) : List FloatBits := index.all.vector i

/-- The row that is farthest by `distance`; the first of several. -/
def farthestRow (size : ℕ) (distance : ℕ → D) : ℕ :=
  ((List.range size).foldl (fun (farthest : ℕ × D) i =>
    if farthest.2 < distance i then (i, distance i) else farthest) (0, ops.minus_one)).1

/-- Centroid `c` is the row farthest from the centroids before it; `nearest_distances` are the
distances of the rows from the nearest of these. -/
def initializeCentroid (index : DeltaIvfFlatIndex dim)
    (state : List (List FloatBits) × List D) (c : ℕ) : List (List FloatBits) × List D :=
  let nearest_distances := state.2.mapIdx fun i nearest =>
    min nearest (ops.squared_l2 (index.storedVector i) (state.1.getD (c - 1) []))
  let farthest := farthestRow ops index.size fun i => nearest_distances.getD i ops.float_max
  (state.1.set c (index.storedVector farthest), nearest_distances)

def initializeCentroids (index : DeltaIvfFlatIndex dim) (effective_centroids : ℕ) :
    List (List FloatBits) :=
  if effective_centroids = 0 then index.centroids
  else
    let centroids := index.centroids.set 0 (index.storedVector 0)
    let nearest_distances := List.replicate index.size ops.float_max
    ((List.range' 1 (effective_centroids - 1)).foldl (initializeCentroid ops index)
      (centroids, nearest_distances)).1

/-- The assignments of an iteration, with the sums and counts of the buckets. -/
def assignRow (index : DeltaIvfFlatIndex dim) (centroids : List (List FloatBits))
    (state : List ℕ × List (List FloatBits) × List ℕ) (i : ℕ) :
    List ℕ × List (List FloatBits) × List ℕ :=
  let vector := index.storedVector i
  let bucket := nearestCentroidInRange ops centroids vector index.initialized_centroids
  (state.1.set i bucket, state.2.1.modify bucket fun sum => List.zipWith ops.add sum vector,
    state.2.2.modify bucket (· + 1))

/-- The new centroid of a bucket: the mean of its rows, or, if it has none, the row farthest from the
centroid it is assigned to. -/
def updateCentroid (index : DeltaIvfFlatIndex dim) (assignments : List ℕ)
    (sums : List (List FloatBits)) (counts : List ℕ) (centroids : List (List FloatBits)) (c : ℕ) :
    List (List FloatBits) :=
  if counts.getD c 0 = 0 then
    let farthest := farthestRow ops index.size fun i =>
      ops.squared_l2 (index.storedVector i) (centroids.getD (assignments.getD i 0) [])
    centroids.set c (index.storedVector farthest)
  else
    let scale := ops.reciprocal (counts.getD c 0)
    centroids.set c ((sums.getD c []).map fun sum => ops.mul sum scale)

/-- One iteration of the training loop; the assignments are kept for the next one. -/
def trainIteration (index : DeltaIvfFlatIndex dim) (state : List (List FloatBits) × List ℕ) :
    List (List FloatBits) × List ℕ :=
  let sums := List.replicate index.initialized_centroids (List.replicate dim ops.zero)
  let counts := List.replicate index.initialized_centroids 0
  let (assignments, sums, counts) :=
    (List.range index.size).foldl (assignRow ops index state.1) (state.2, sums, counts)
  let centroids := (List.range index.initialized_centroids).foldl
    (updateCentroid ops index assignments sums counts) state.1
  (centroids, assignments)

/-- The centroids of a rebuild. -/
def trainCentroids (index : DeltaIvfFlatIndex dim) : List (List FloatBits) :=
  let centroids := initializeCentroids ops index index.initialized_centroids
  let assignments := List.replicate index.size 0
  ((trainIteration ops index)^[index.train_iterations] (centroids, assignments)).1

end Train

section Calls

variable {D : Type} [LinearOrder D] (ops : FloatOps D)

/-- The last loop of `rebuild`: all rows are assigned again. -/
def assignBuckets (index : DeltaIvfFlatIndex dim) : List (Block dim) :=
  (List.finRange index.all.ids.length).foldl (fun buckets (i : Fin index.all.ids.length) =>
    let bucket := nearestCentroidInRange ops index.centroids (index.storedVector i)
      index.initialized_centroids
    buckets.modify bucket fun block => block.push (index.all.ids.get i) (index.all.vectorAt i))
    (index.buckets.map fun _ => Block.empty dim)

def rebuild (index : DeltaIvfFlatIndex dim) : DeltaIvfFlatIndex dim :=
  if index.size = 0 then index
  else
    let index := { index with initialized_centroids := min index.centroid_count index.size }
    let index := { index with centroids := trainCentroids ops index }
    { index with buckets := assignBuckets ops index, dirty_since_rebuild := 0 }

def insert (index : DeltaIvfFlatIndex dim) (id : NodeId) (vector : Vector FloatBits dim) :
    DeltaIvfFlatIndex dim :=
  let index := { index with
    all := index.all.push id vector
    dirty_since_rebuild := index.dirty_since_rebuild + 1 }
  if index.size ≤ index.centroid_count ∨ index.rebuild_interval ≤ index.dirty_since_rebuild then
    rebuild ops index
  else
    let bucket := nearestCentroid ops index vector.toList
    { index with buckets := index.buckets.modify bucket fun block => block.push id vector }

/-- The buckets to scan. The centroids are numbered in the ids of search results. -/
def closestCentroids (index : DeltaIvfFlatIndex dim) (query : List FloatBits) : List ℕ :=
  let scored := (List.range index.initialized_centroids).map fun c =>
    (⟨UInt32.ofNat c, ops.squared_l2 query (index.centroids.getD c [])⟩ : SearchResult D)
  let sorted := TopK.sortBy SearchResult.rank scored
  let probes := min index.probe_count (min index.initialized_centroids scored.length)
  (sorted.take probes).map fun result => result.id.toNat

/-- The rows of a bucket. -/
def bucketRows (index : DeltaIvfFlatIndex dim) (bucket : ℕ) : List (NodeId × List FloatBits) :=
  (index.buckets.getD bucket (Block.empty dim)).rows

def searchOne (index : DeltaIvfFlatIndex dim) (query : List FloatBits) (k : ℕ) :
    List (SearchResult D) :=
  if k = 0 ∨ index.size = 0 ∨ index.initialized_centroids = 0 then []
  else
    let heap := (closestCentroids ops index query).foldl (fun heap bucket =>
      scanRows ops.squared_l2 query k heap (index.bucketRows bucket)) []
    TopK.sortBy SearchResult.rank heap

/-- A history of inserts. -/
def run (index : DeltaIvfFlatIndex dim) (inserts : List (NodeId × Vector FloatBits dim)) :
    DeltaIvfFlatIndex dim :=
  inserts.foldl (fun index row => index.insert ops row.1 row.2) index

end Calls

/-- The buckets hold the rows, each once and only below the initialized centroids. -/
structure Partitioned (index : DeltaIvfFlatIndex dim) : Prop where
  buckets_length : index.buckets.length = index.centroid_count
  initialized : index.initialized_centroids = min index.centroid_count index.size
  rows : (index.buckets.flatMap Block.rows).Perm index.all.rows
  beyond : ∀ bucket, index.initialized_centroids ≤ bucket → index.bucketRows bucket = []

section Buckets

variable {D : Type} [LinearOrder D] (ops : FloatOps D)

theorem nearestCentroidInRange_lt (centroids : List (List FloatBits)) (vector : List FloatBits)
    {centroid_count : ℕ} (h : 0 < centroid_count) :
    nearestCentroidInRange ops centroids vector centroid_count < centroid_count :=
  Nearest.scan_lt h

/-- A row that is added to a bucket is added to the rows of all of them. -/
theorem flatMap_modify_push {buckets : List (Block dim)} {bucket : ℕ} (h : bucket < buckets.length)
    (id : NodeId) (vector : Vector FloatBits dim) :
    ((buckets.modify bucket fun block => block.push id vector).flatMap Block.rows).Perm
      (buckets.flatMap Block.rows ++ [(id, vector.toList)]) := by
  induction buckets generalizing bucket with
  | nil => simp at h
  | cons block buckets ih =>
    cases bucket with
    | zero =>
      rw [List.modify_zero_cons, List.flatMap_cons, List.flatMap_cons, Block.rows_push,
        List.append_assoc, List.append_assoc]
      exact List.Perm.append_left _ List.perm_append_comm
    | succ bucket =>
      rw [List.modify_succ_cons, List.flatMap_cons, List.flatMap_cons, List.append_assoc]
      exact (ih (by simpa using h)).append_left _

theorem getD_modify_of_ne (buckets : List (Block dim)) {bucket other : ℕ} (h : other ≠ bucket)
    (f : Block dim → Block dim) :
    (buckets.modify bucket f).getD other (Block.empty dim) = buckets.getD other (Block.empty dim) := by
  rw [List.getD_eq_getElem?_getD, List.getD_eq_getElem?_getD, List.getElem?_modify]
  simp only [h.symm, if_false, Option.map_eq_map, Option.map_id_fun', id_eq]

/-- The loop that assigns rows, started with any buckets. -/
theorem foldl_assign (index : DeltaIvfFlatIndex dim) (hpositive : 0 < index.initialized_centroids)
    (is : List (Fin index.all.ids.length)) (buckets : List (Block dim))
    (hlength : index.initialized_centroids ≤ buckets.length) :
    let assigned := is.foldl (fun buckets (i : Fin index.all.ids.length) =>
      let bucket := nearestCentroidInRange ops index.centroids (index.storedVector i)
        index.initialized_centroids
      buckets.modify bucket fun block => block.push (index.all.ids.get i) (index.all.vectorAt i))
      buckets
    assigned.length = buckets.length ∧
      (assigned.flatMap Block.rows).Perm (buckets.flatMap Block.rows ++
        is.map fun i => (index.all.ids.get i, (index.all.vectorAt i).toList)) ∧
      ∀ bucket, (∀ vector, nearestCentroidInRange ops index.centroids vector
          index.initialized_centroids ≠ bucket) →
        assigned.getD bucket (Block.empty dim) = buckets.getD bucket (Block.empty dim) := by
  induction is generalizing buckets with
  | nil => exact ⟨rfl, by simp, fun _ _ => rfl⟩
  | cons i is ih =>
    have hnear := nearestCentroidInRange_lt ops index.centroids (index.storedVector i)
      hpositive
    obtain ⟨hcount, hrows, hbeyond⟩ := ih (buckets.modify (nearestCentroidInRange ops
      index.centroids (index.storedVector i) index.initialized_centroids)
      fun block => block.push (index.all.ids.get i) (index.all.vectorAt i))
      (by rwa [List.length_modify])
    refine ⟨hcount.trans (List.length_modify _ _ _), hrows.trans ?_, fun bucket hbucket => ?_⟩
    · have hpush := flatMap_modify_push (lt_of_lt_of_le hnear hlength) (index.all.ids.get i)
        (index.all.vectorAt i)
      rw [List.map_cons]
      exact (hpush.append_right _).trans (by simp)
    · rw [List.foldl_cons, hbeyond bucket hbucket]
      exact getD_modify_of_ne _ (hbucket _).symm _

theorem getD_empty_buckets (buckets : List (Block dim)) (bucket : ℕ) :
    (buckets.map fun _ => Block.empty dim).getD bucket (Block.empty dim) = Block.empty dim := by
  rw [List.getD_eq_getElem?_getD, List.getElem?_map]
  cases buckets[bucket]? <;> rfl

/-- A bucket that is nearest to nothing is empty after a rebuild. -/
theorem bucketRows_rebuild (index : DeltaIvfFlatIndex dim) (hcentroids : 0 < index.centroid_count)
    (hrows : 0 < index.size) (hlength : index.buckets.length = index.centroid_count) {bucket : ℕ}
    (hfar : ∀ centroids vector, nearestCentroidInRange ops centroids vector
      (min index.centroid_count index.size) ≠ bucket) :
    (rebuild ops index).bucketRows bucket = [] := by
  have hassign := (foldl_assign ops
    { index with
      initialized_centroids := min index.centroid_count index.size
      centroids := trainCentroids ops
        { index with initialized_centroids := min index.centroid_count index.size } }
    (lt_min hcentroids hrows) (List.finRange _) (index.buckets.map fun _ => Block.empty dim)
    (by rw [List.length_map, hlength]; exact min_le_left _ _)).2.2 bucket fun vector => hfar _ vector
  rw [rebuild, if_neg hrows.ne', bucketRows]
  exact congrArg Block.rows (hassign.trans (getD_empty_buckets _ _))

theorem Partitioned.rebuild {index : DeltaIvfFlatIndex dim} (hcentroids : 0 < index.centroid_count)
    (hrows : 0 < index.size) (hlength : index.buckets.length = index.centroid_count) :
    Partitioned (rebuild ops index) := by
  have hpositive : 0 < min index.centroid_count index.size := lt_min hcentroids hrows
  have hnone : (index.buckets.map fun _ => Block.empty dim).flatMap Block.rows = [] := by
    rw [List.flatMap_eq_nil_iff]
    intro block hblock
    obtain ⟨_, _, rfl⟩ := List.mem_map.mp hblock
    rfl
  obtain ⟨hcount, hperm, -⟩ := foldl_assign ops
    { index with
      initialized_centroids := min index.centroid_count index.size
      centroids := trainCentroids ops
        { index with initialized_centroids := min index.centroid_count index.size } }
    hpositive (List.finRange _) (index.buckets.map fun _ => Block.empty dim)
    (by rw [List.length_map, hlength]; exact min_le_left _ _)
  have hbeyond : ∀ bucket, min index.centroid_count index.size ≤ bucket →
      (DeltaIvfFlatIndex.rebuild ops index).bucketRows bucket = [] := fun bucket hbucket =>
    bucketRows_rebuild ops index hcentroids hrows hlength fun centroids vector =>
      (lt_of_lt_of_le (nearestCentroidInRange_lt ops centroids vector hpositive) hbucket).ne
  rw [hnone, List.nil_append, ← Block.rows_eq_map_finRange] at hperm
  rw [DeltaIvfFlatIndex.rebuild, if_neg hrows.ne'] at hbeyond ⊢
  exact ⟨hcount.trans ((List.length_map _).trans hlength), rfl, hperm, hbeyond⟩

theorem Partitioned.insert {index : DeltaIvfFlatIndex dim} (h : Partitioned index)
    (hcentroids : 0 < index.centroid_count) (id : NodeId) (vector : Vector FloatBits dim) :
    Partitioned (index.insert ops id vector) := by
  have hsize : (index.all.push id vector).ids.length = index.size + 1 := by
    rw [Block.push, List.length_append, size, List.length_singleton]
  rw [DeltaIvfFlatIndex.insert]
  dsimp only
  split
  · refine Partitioned.rebuild ops hcentroids ?_ h.buckets_length
    rw [size, hsize]
    omega
  · next hkeep =>
    rw [not_or, size, hsize] at hkeep
    have hfull : index.initialized_centroids = index.centroid_count := by
      rw [h.initialized]
      omega
    have hne : index.initialized_centroids ≠ 0 := by omega
    have hnear : nearestCentroidInRange ops index.centroids vector.toList
        index.initialized_centroids < index.initialized_centroids :=
      nearestCentroidInRange_lt ops _ _ (by omega)
    have hbucket : nearestCentroid ops { index with
        all := index.all.push id vector
        dirty_since_rebuild := index.dirty_since_rebuild + 1 } vector.toList =
        nearestCentroidInRange ops index.centroids vector.toList index.initialized_centroids :=
      if_neg hne
    rw [hbucket]
    refine ⟨(List.length_modify _ _ _).trans h.buckets_length, ?_, ?_, fun bucket hbeyond => ?_⟩
    · rw [size, hsize, hfull]
      exact (min_eq_left (by omega)).symm
    · rw [Block.rows_push]
      exact (flatMap_modify_push (by rw [h.buckets_length]; omega) id vector).trans
        (h.rows.append_right _)
    · have hsame := getD_modify_of_ne index.buckets (lt_of_lt_of_le hnear hbeyond).ne'
        fun block => block.push id vector
      rw [bucketRows, hsame]
      exact h.beyond bucket hbeyond

theorem partitioned_of_create {centroid_count probe_count train_iterations rebuild_interval : ℕ}
    {zero : FloatBits} {index : DeltaIvfFlatIndex dim}
    (h : create zero dim centroid_count probe_count train_iterations rebuild_interval = .ok index) :
    Partitioned index ∧ 0 < index.centroid_count ∧ index.centroid_count = centroid_count ∧
      index.probe_count = probe_count ∧ index.centroid_floats = centroid_count * dim % 2 ^ 64 ∧
      index.all.rows = [] := by
  rw [create] at h
  simp only [throwIf_bind_eq_ok] at h
  obtain ⟨-, hcentroids, -, -, -, hindex⟩ := h
  obtain rfl := Except.ok.inj hindex
  have hnone : ∀ bucket, (List.replicate centroid_count (Block.empty dim)).getD bucket
      (Block.empty dim) = Block.empty dim := by
    intro bucket
    rw [List.getD_eq_getElem?_getD, List.getElem?_replicate]
    split <;> rfl
  have hrows : (List.replicate centroid_count (Block.empty dim)).flatMap Block.rows = [] := by
    rw [List.flatMap_eq_nil_iff]
    intro block hblock
    rw [List.eq_of_mem_replicate hblock]
    rfl
  refine ⟨⟨List.length_replicate, ?_, ?_, fun bucket _ => ?_⟩, Nat.pos_of_ne_zero hcentroids, rfl, rfl,
    rfl, rfl⟩
  · exact (min_eq_right (Nat.zero_le _)).symm
  · rw [hrows]
    exact List.Perm.refl _
  · rw [bucketRows, hnone]
    rfl

theorem insert_all (index : DeltaIvfFlatIndex dim) (id : NodeId)
    (vector : Vector FloatBits dim) :
    (index.insert ops id vector).all = index.all.push id vector ∧
      (index.insert ops id vector).centroid_count = index.centroid_count ∧
      (index.insert ops id vector).probe_count = index.probe_count ∧
      (index.insert ops id vector).centroid_floats = index.centroid_floats := by
  rw [DeltaIvfFlatIndex.insert, DeltaIvfFlatIndex.rebuild]
  dsimp only
  split_ifs <;> exact ⟨rfl, rfl, rfl, rfl⟩

/-- A history of inserts adds its rows and keeps the buckets partitioned. -/
theorem partitioned_run {index : DeltaIvfFlatIndex dim} (h : Partitioned index)
    (hcentroids : 0 < index.centroid_count) (inserts : List (NodeId × Vector FloatBits dim)) :
    Partitioned (index.run ops inserts) ∧
      (index.run ops inserts).all.rows =
        index.all.rows ++ inserts.map (fun row => (row.1, row.2.toList)) ∧
      (index.run ops inserts).centroid_count = index.centroid_count ∧
      (index.run ops inserts).probe_count = index.probe_count ∧
      (index.run ops inserts).centroid_floats = index.centroid_floats := by
  induction inserts generalizing index with
  | nil => exact ⟨h, (List.append_nil _).symm, rfl, rfl, rfl⟩
  | cons row inserts ih =>
    obtain ⟨hall, hcount, hprobe, hfloats⟩ := insert_all ops index row.1 row.2
    obtain ⟨hpart, hrows, hcount', hprobe', hfloats'⟩ := ih (h.insert ops hcentroids row.1 row.2)
      (hcount ▸ hcentroids)
    refine ⟨hpart, hrows.trans ?_, hcount'.trans hcount, hprobe'.trans hprobe,
      hfloats'.trans hfloats⟩
    rw [hall, Block.rows_push, List.append_assoc]
    rfl

end Buckets

section Search

variable {D : Type} [LinearOrder D] (ops : FloatOps D) {index : DeltaIvfFlatIndex dim}

theorem foldl_scanRows (squared_l2 : List FloatBits → List FloatBits → D) (query : List FloatBits)
    (k : ℕ) (f : ℕ → List (NodeId × List FloatBits)) (buckets : List ℕ)
    (heap : List (SearchResult D)) :
    buckets.foldl (fun heap bucket => scanRows squared_l2 query k heap (f bucket)) heap =
      scanRows squared_l2 query k heap (buckets.flatMap f) := by
  induction buckets generalizing heap with
  | nil => rfl
  | cons bucket buckets ih =>
    rw [List.foldl_cons, ih, List.flatMap_cons, scanRows, scanRows, scanRows, List.map_append,
      List.foldl_append]

/-- A full probe scans the buckets of all centroid numbers, which are 32-bit. -/
theorem closestCentroids_perm (hprobe : index.initialized_centroids ≤ index.probe_count)
    (query : List FloatBits) : (closestCentroids ops index query).Perm
      ((List.range index.initialized_centroids).map fun c => c % 2 ^ 32) := by
  rw [closestCentroids]
  simp only [List.length_map, List.length_range, min_self, min_eq_right hprobe]
  rw [List.take_of_length_le]
  · refine ((TopK.sortBy_perm _ _).map _).trans ?_
    rw [List.map_map]
    refine List.Perm.of_eq (List.map_congr_left fun c _ => ?_)
    exact UInt32.toNat_ofNat'
  · rw [(TopK.sortBy_perm _ _).length_eq, List.length_map, List.length_range]

/-- A full probe finds the first `k` rows of the buckets it scans. -/
theorem searchOne_fullProbe (h : Partitioned index) (hprobe : index.centroid_count ≤ index.probe_count)
    (query : List FloatBits) (k : ℕ) :
    searchOne ops index query k = TopK.topk SearchResult.rank k
      (((List.range index.initialized_centroids).flatMap fun c => index.bucketRows (c % 2 ^ 32)).map
        (item ops.squared_l2 query)) := by
  have hinit : index.initialized_centroids ≤ index.probe_count := by
    rw [h.initialized]
    omega
  have hscan : ((closestCentroids ops index query).flatMap index.bucketRows).Perm
      ((List.range index.initialized_centroids).flatMap fun c => index.bucketRows (c % 2 ^ 32)) := by
    refine ((closestCentroids_perm ops hinit query).flatMap_right _).trans ?_
    rw [List.flatMap_map]
  rw [searchOne]
  split
  · next hempty =>
    rcases hempty with rfl | hempty
    · rw [TopK.topk, List.take_zero]
    · have hzero : index.initialized_centroids = 0 := by
        have := h.initialized
        omega
      rw [hzero]
      simp [TopK.topk, TopK.sortBy]
  · next hne =>
    rw [foldl_scanRows, sortBy_scanRows _ _ (by omega)]
    exact TopK.topk_perm (separates_rank _) (hscan.map _)

/-- The buckets below the initialized centroids hold the rows. -/
theorem Partitioned.range_rows (h : Partitioned index) :
    ((List.range index.initialized_centroids).flatMap index.bucketRows).Perm index.all.rows := by
  have hall : (List.range index.centroid_count).flatMap index.bucketRows =
      index.buckets.flatMap Block.rows := by
    have hbuckets : (List.range index.centroid_count).map
        (fun c => index.buckets.getD c (Block.empty dim)) = index.buckets := by
      refine List.ext_getElem (by simp [h.buckets_length]) fun i hi hi' => ?_
      simp [hi']
    have hrows := congrArg (List.flatMap Block.rows) hbuckets
    rw [List.flatMap_map] at hrows
    exact hrows
  have hbeyond : (List.range index.centroid_count).flatMap index.bucketRows =
      (List.range index.initialized_centroids).flatMap index.bucketRows := by
    have hle : index.initialized_centroids ≤ index.centroid_count := by
      rw [h.initialized]
      exact min_le_left _ _
    obtain ⟨more, hmore⟩ := Nat.exists_eq_add_of_le hle
    rw [hmore, List.range_add, List.flatMap_append]
    have hnone : ((List.range more).map (index.initialized_centroids + ·)).flatMap
        index.bucketRows = [] := by
      rw [List.flatMap_eq_nil_iff]
      intro bucket hbucket
      obtain ⟨extra, _, rfl⟩ := List.mem_map.mp hbucket
      exact h.beyond _ (Nat.le_add_right _ _)
    rw [hnone, List.append_nil]
  rw [← hbeyond, hall]
  exact h.rows

/-- After every sequence of inserts whose centroids lie in their array, the buckets hold the inserted
rows, each once and only below the initialized centroids; and with at most `2 ^ 32` initialized
centroids a full probe finds the first `k` of them, repeated ids counted. -/
theorem fullProbe_exact {centroid_count probe_count train_iterations rebuild_interval : ℕ}
    (hcreate : create ops.zero dim centroid_count probe_count train_iterations rebuild_interval =
      .ok index)
    (inserts : List (NodeId × Vector FloatBits dim))
    (hfits : min centroid_count inserts.length * dim ≤ centroid_count * dim % 2 ^ 64) :
    (index.run ops inserts).initialized_centroids * dim ≤ (index.run ops inserts).centroid_floats ∧
      ((index.run ops inserts).buckets.flatMap Block.rows).Perm
        (inserts.map fun row => (row.1, row.2.toList)) ∧
      (∀ bucket, (index.run ops inserts).initialized_centroids ≤ bucket →
        (index.run ops inserts).bucketRows bucket = []) ∧
      (min centroid_count inserts.length ≤ 2 ^ 32 → centroid_count ≤ probe_count → ∀ query k,
        (index.run ops inserts).searchOne ops query k = TopK.topk SearchResult.rank k
          (inserts.map fun row => item ops.squared_l2 query (row.1, row.2.toList))) := by
  obtain ⟨hpart, hpositive, rfl, rfl, hfloats, hnone⟩ := partitioned_of_create hcreate
  obtain ⟨hrun, hrows, hcentroids, hprobes, hfloats'⟩ := partitioned_run ops hpart hpositive inserts
  rw [hnone, List.nil_append] at hrows
  have hsize : (index.run ops inserts).size = inserts.length := by
    rw [size, ← Block.length_rows, hrows, List.length_map]
  refine ⟨?_, hrows ▸ hrun.rows, hrun.beyond, fun hcount hprobe query k => ?_⟩
  · rwa [hrun.initialized, hcentroids, hsize, hfloats', hfloats]
  -- the numbers of the centroids fit 32 bits
  have hnumbers : (List.range (index.run ops inserts).initialized_centroids).flatMap
      (fun c => (index.run ops inserts).bucketRows (c % 2 ^ 32)) =
      (List.range (index.run ops inserts).initialized_centroids).flatMap
        (index.run ops inserts).bucketRows := by
    refine List.flatMap_congr fun c hc => ?_
    rw [List.mem_range, hrun.initialized, hcentroids, hsize] at hc
    rw [Nat.mod_eq_of_lt (by omega)]
  rw [searchOne_fullProbe ops hrun (by omega), hnumbers, TopK.topk_perm (separates_rank _)
    (hrun.range_rows.map _), hrows, List.map_map]
  rfl

/-- Two centroids, both probed, and an id that is inserted twice. -/
theorem fullProbe_exact_three :
    let ops : FloatOps ℤ :=
      { squared_l2 := fun query vector =>
          (List.zipWith (fun a b => ((a.toNat : ℤ) - b.toNat) ^ 2) query vector).sum
        float_max := 2 ^ 80, minus_one := -1, zero := 0, add := (· + ·), mul := fun a _ => a
        reciprocal := fun _ => 1 }
    ∃ index, create ops.zero 1 2 2 1 2 = .ok index ∧
      (index.run ops [(7, #v[0]), (7, #v[5]), (3, #v[4])]).searchOne ops [3] 2 =
        [⟨3, 1⟩, ⟨7, 4⟩] := by
  intro ops
  refine ⟨_, rfl, ?_⟩
  have h := (@fullProbe_exact 1 ℤ _ ops _ 2 2 1 2 rfl
    [(7, #v[0]), (7, #v[5]), (3, #v[4])] (by decide)).2.2.2 (by decide) le_rfl [3] 2
  exact h.trans (by decide)

/-- When all distances are equal, every row goes to the first bucket. -/
theorem nearestCentroidInRange_const {distance : D} (hconst : ops.squared_l2 = fun _ _ => distance)
    (centroids : List (List FloatBits)) (vector : List FloatBits) (centroid_count : ℕ) :
    nearestCentroidInRange ops centroids vector centroid_count = 0 := by
  rw [nearestCentroidInRange, hconst]
  exact Nearest.scan_const _ _ _

theorem bucketRows_run_const {distance : D} (hconst : ops.squared_l2 = fun _ _ => distance)
    (h : Partitioned index) (hcentroids : 0 < index.centroid_count)
    (hfirst : ∀ bucket ≠ 0, index.bucketRows bucket = [])
    (inserts : List (NodeId × Vector FloatBits dim)) :
    ∀ bucket ≠ 0, (index.run ops inserts).bucketRows bucket = [] := by
  induction inserts generalizing index with
  | nil => exact hfirst
  | cons row inserts ih =>
    refine ih (h.insert ops hcentroids row.1 row.2) ?_ fun bucket hbucket => ?_
    · rw [(insert_all ops index row.1 row.2).2.1]
      exact hcentroids
    · change (index.insert ops row.1 row.2).bucketRows bucket = []
      rw [DeltaIvfFlatIndex.insert]
      dsimp only
      split
      · refine bucketRows_rebuild ops { index with
            all := index.all.push row.1 row.2
            dirty_since_rebuild := index.dirty_since_rebuild + 1 } hcentroids ?_ h.buckets_length
          fun centroids vector => ?_
        · rw [size, Block.push, List.length_append]
          exact Nat.succ_pos _
        · rw [nearestCentroidInRange_const ops hconst]
          exact hbucket.symm
      · have hzero : nearestCentroid ops { index with
            all := index.all.push row.1 row.2
            dirty_since_rebuild := index.dirty_since_rebuild + 1 } row.2.toList = 0 := by
          rw [nearestCentroid, nearestCentroidInRange_const ops hconst, ite_self]
        rw [bucketRows, hzero]
        exact (congrArg Block.rows (getD_modify_of_ne index.buckets hbucket _)).trans
          (hfirst bucket hbucket)

/-- With all rows in the first bucket and one centroid too many, that bucket is scanned twice. -/
theorem length_scanned {n : ℕ} (hpositive : 0 < n) (h : Partitioned index)
    (hinit : index.initialized_centroids = n + 1)
    (hfirst : ∀ bucket ≠ 0, index.bucketRows bucket = []) : 2 * index.size ≤
      ((List.range index.initialized_centroids).flatMap fun c => index.bucketRows (c % n)).length := by
  have hall : (index.bucketRows 0).length = index.size := by
    have hrows := h.range_rows.length_eq
    have hrest : ((List.range n).map Nat.succ).flatMap index.bucketRows = [] := by
      rw [List.flatMap_eq_nil_iff]
      intro bucket hbucket
      obtain ⟨c, _, rfl⟩ := List.mem_map.mp hbucket
      exact hfirst _ (Nat.succ_ne_zero c)
    rwa [hinit, List.range_succ_eq_map, List.flatMap_cons, hrest, List.append_nil,
      Block.length_rows] at hrows
  have hsecond : ((List.range n).flatMap fun c => index.bucketRows (c % n)).length ≥ index.size := by
    obtain ⟨m, rfl⟩ := Nat.exists_eq_succ_of_ne_zero hpositive.ne'
    rw [List.range_succ_eq_map, List.flatMap_cons, List.length_append, Nat.zero_mod, hall]
    exact Nat.le_add_right _ _
  rw [hinit, List.range_succ, List.flatMap_append, List.length_append, List.flatMap_singleton,
    Nat.mod_self, hall]
  omega

theorem length_searchOne_twice {k : ℕ} (h : Partitioned index)
    (hprobe : index.centroid_count ≤ index.probe_count)
    (hinit : index.initialized_centroids = 2 ^ 32 + 1)
    (hfirst : ∀ bucket ≠ 0, index.bucketRows bucket = []) (hk : k ≤ 2 * index.size)
    (query : List FloatBits) : (index.searchOne ops query k).length = k := by
  have hscanned := length_scanned (Nat.two_pow_pos 32) h hinit hfirst
  rw [searchOne_fullProbe ops h hprobe, TopK.length_topk, List.length_map]
  exact min_eq_left (hk.trans hscanned)

/-- Equal vectors in `2 ^ 32 + 1` centroids: the first bucket, which holds all rows, is scanned
twice. -/
theorem fullProbe_repeats :
    let ops : FloatOps ℤ :=
      { squared_l2 := fun _ _ => 0, float_max := 2 ^ 80, minus_one := -1, zero := 0
        add := fun a _ => a, mul := fun a _ => a, reciprocal := fun _ => 1 }
    let inserts : List (NodeId × Vector FloatBits 1) := List.replicate (2 ^ 32 + 1) (0, #v[0])
    ∃ index, create ops.zero 1 (2 ^ 32 + 1) (2 ^ 32 + 1) 1 1 = .ok index ∧
      (index.run ops inserts).searchOne ops [0] (2 ^ 32 + 2) ≠
        TopK.topk SearchResult.rank (2 ^ 32 + 2)
          (inserts.map fun row => item ops.squared_l2 [0] (row.1, row.2.toList)) := by
  intro ops inserts
  obtain ⟨index, hcreate⟩ : ∃ index, create ops.zero 1 (2 ^ 32 + 1) (2 ^ 32 + 1) 1 1 =
      .ok index := ⟨_, rfl⟩
  refine ⟨index, hcreate, fun heq => ?_⟩
  have hlength : inserts.length = 2 ^ 32 + 1 := List.length_replicate
  obtain ⟨hpart, hpositive, hcentroids, hprobes, _, hnone⟩ := partitioned_of_create hcreate
  obtain ⟨hrun, hrows, hcentroids', hprobes', _⟩ := partitioned_run ops hpart hpositive inserts
  have hsize : (index.run ops inserts).size = 2 ^ 32 + 1 := by
    rw [size, ← Block.length_rows, hrows, hnone, List.nil_append, List.length_map, hlength]
  have hnew : index.initialized_centroids = 0 := by
    rw [hpart.initialized, size, ← Block.length_rows, hnone, List.length_nil, Nat.min_zero]
  have hfirst := bucketRows_run_const ops rfl hpart hpositive
    (fun bucket _ => hpart.beyond bucket (hnew.trans_le (Nat.zero_le _))) inserts
  have hinit : (index.run ops inserts).initialized_centroids = 2 ^ 32 + 1 := by
    rw [hrun.initialized, hcentroids', hcentroids, hsize, min_self]
  have hprobe : (index.run ops inserts).centroid_count ≤ (index.run ops inserts).probe_count := by
    rw [hcentroids', hcentroids, hprobes', hprobes]
  have htwice := length_searchOne_twice ops hrun hprobe hinit hfirst
    (by rw [hsize]; omega : 2 ^ 32 + 2 ≤ 2 * (index.run ops inserts).size) [0]
  rw [heq, TopK.length_topk, List.length_map, hlength] at htwice
  omega

end Search

end DeltaIvfFlatIndex

end Storage
