import AgentAware.Core.PQDistances
import AgentAware.Graph.BuildInvariants
import AgentAware.Lib.Buckets

/-!
# The buckets of the LSH index

`build_lsh_index` sorts the ids of every table by their signatures: it counts the signatures, sums the
counts up, and puts every id behind those of its bucket. Every access to an array is checked, and the
offsets are 32-bit. The candidates of a node are read from the buckets of the signatures it probes,
all of a small bucket and samples of a large one.

## Main definitions

- `LshTable`, `LshIndex` — the arrays of a table, and the tables
- `buildLshIndex` — counting, prefix sums and placement, for each table
- `LshIndex.addLshCandidates` — the candidates of a node

## Main results

- `buildLshTable_ok` — what the loops leave in a table
- `addLshBucketCandidates_ok`, `addLshCandidates_ok` — the candidates are read in range
- `lshIndex_partition` — the buckets of an index partition the ids
-/

namespace Graph

structure LshTable where
  signatures : List UInt32 := []
  ids_by_bucket : List NodeId := []
  offsets : List UInt32 := []

structure LshIndex where
  bits : ℕ := 0
  tables : List LshTable := []

section Build

variable {F : Type} (ops : FloatOps F) (random : Random) (base : VectorSet)
  (config : DiskGraphBuildConfig)

/-- Store the signature of a row and count it behind its bucket. -/
def countSignature (t : ℕ) (table : LshTable) (i : ℕ) : Except Fault LshTable := do
  let signature := computeLshSignature ops random config t (base.row i)
  let signatures ← store table.signatures i signature
  let count ← load table.offsets (signature + 1).toNat
  let offsets ← store table.offsets (signature + 1).toNat (count + 1)
  return { table with signatures := signatures, offsets := offsets }

/-- `offsets[bucket] += offsets[bucket - 1]`. -/
def sumOffset (offsets : List UInt32) (bucket : ℕ) : Except Fault (List UInt32) := do
  let count ← load offsets bucket
  let before ← load offsets (bucket - 1)
  store offsets bucket (count + before)

/-- `ids_by_bucket[cursor[signature]++] = i`. -/
def placeId (signatures : List UInt32) (arrays : List UInt32 × List NodeId) (i : ℕ) :
    Except Fault (List UInt32 × List NodeId) := do
  let signature ← load signatures i
  let position ← load arrays.1 signature.toNat
  let cursor ← store arrays.1 signature.toNat (position + 1)
  let ids_by_bucket ← store arrays.2 position.toNat (nodeId i)
  return (cursor, ids_by_bucket)

def buildLshTable (t : ℕ) : Except Fault LshTable := do
  let bucket_count := 2 ^ config.lsh_bits
  let empty : LshTable := ⟨List.replicate base.size 0, [], List.replicate (bucket_count + 1) 0⟩
  let counted ← (List.range base.size).foldlM (countSignature ops random base config t) empty
  let offsets ← (List.range' 1 (counted.offsets.length - 1)).foldlM sumOffset counted.offsets
  let placed ← (List.range base.size).foldlM (placeId counted.signatures)
    (offsets, List.replicate base.size 0)
  return { counted with ids_by_bucket := placed.2, offsets := offsets }

def buildLshIndex : Except Fault LshIndex := do
  let tables ← (List.range config.lsh_tables).mapM (buildLshTable ops random base config)
  return ⟨config.lsh_bits, tables⟩

end Build

section Candidates

variable (config : DiskGraphBuildConfig)

/-- What `add_lsh_bucket_candidates` appends. The addition to the signature is 32-bit. -/
def LshTable.addLshBucketCandidates (table : LshTable) (self : NodeId) (signature : UInt32) :
    Except Fault (List NodeId) :=
  if table.offsets.length ≤ (signature + 1).toNat then .ok []
  else do
    let first ← load table.offsets signature.toNat
    let last ← load table.offsets (signature + 1).toNat
    let size := last - first
    if size.toNat ≤ config.lsh_bucket_limit then
      (List.range' first.toNat (last.toNat - first.toNat)).mapM (load table.ids_by_bucket)
    else
      let seed := mixU32 (self ^^^ signature ^^^ 0x15a4e35)
      (List.range config.lsh_bucket_limit).mapM fun i =>
        let offset := mixU32 (seed + nodeId i) % size
        load table.ids_by_bucket (first + offset).toNat

/-- What `add_lsh_candidates` appends for one table. -/
def LshTable.addLshCandidates (table : LshTable) (self : NodeId) : Except Fault (List NodeId) := do
  let mask : UInt32 := if config.lsh_bits = 32 then 0xffffffff
    else ((1 : UInt32) <<< nodeId config.lsh_bits) - 1
  let signature := (← load table.signatures self.toNat) &&& mask
  let exact ← table.addLshBucketCandidates config self signature
  let probed ← if config.lsh_probe_radius = 1 then
      (List.range config.lsh_bits).mapM fun bit =>
        table.addLshBucketCandidates config self (signature ^^^ ((1 : UInt32) <<< nodeId bit))
    else .ok []
  return exact ++ probed.flatten

def LshIndex.addLshCandidates (index : LshIndex) (self : NodeId) : Except Fault (List NodeId) := do
  let candidates ← index.tables.mapM fun table => table.addLshCandidates config self
  return candidates.flatten

end Candidates

section Arrays

variable {α : Type}

theorem load_map_range {f : ℕ → α} {count index : ℕ} (h : index < count) :
    load ((List.range count).map f) index = .ok (f index) :=
  load_eq_ok (by simp [h])

/-- Storing into an array that a function describes. -/
theorem store_map_range {f g : ℕ → α} {count index : ℕ} (h : index < count)
    (hother : ∀ i, i ≠ index → g i = f i) :
    store ((List.range count).map f) index (g index) = .ok ((List.range count).map g) := by
  rw [store_ok (by simpa using h)]
  refine congrArg _ (List.ext_getElem (by simp) fun i hi hi' => ?_)
  by_cases heq : index = i
  · subst heq
    simp
  · simp [heq, hother i (Ne.symm heq)]

theorem mapM_map_ok {β γ : Type} {f : α → Except Fault β} {h : γ → α} {g : γ → β} {xs : List γ}
    (hok : ∀ c ∈ xs, f (h c) = .ok (g c)) : (xs.map h).mapM f = .ok (xs.map g) := by
  induction xs with
  | nil => rfl
  | cons c xs ih =>
    rw [List.map_cons, List.mapM_cons, hok c List.mem_cons_self,
      ih fun b hb => hok b (List.mem_cons_of_mem _ hb)]
    rfl

theorem mapM_eq_ok {β : Type} {f : α → Except Fault β} {g : α → β} {xs : List α}
    (h : ∀ a ∈ xs, f a = .ok (g a)) : xs.mapM f = .ok (xs.map g) := by
  simpa using mapM_map_ok (h := id) h

/-- Reading a slice, element by element. -/
theorem mapM_load_range' {values : List α} {first count : ℕ} (h : first + count ≤ values.length) :
    (List.range' first count).mapM (load values) = .ok ((values.drop first).take count) := by
  induction count generalizing first with
  | zero => rw [List.take_zero]; rfl
  | succ count ih =>
    have hlt : first < values.length := by omega
    rw [List.range'_succ, List.mapM_cons, load_eq_ok (List.getElem?_eq_getElem hlt),
      ih (by omega), List.drop_eq_getElem_cons hlt, List.take_succ_cons]
    rfl

end Arrays

section Loops

open Buckets (bucket start Placed)

variable {F : Type} {ops : FloatOps F} {random : Random} {base : VectorSet}
  {config : DiskGraphBuildConfig} {t : ℕ}

theorem toNat_shifted_one {bit : ℕ} (h : bit < 32) :
    ((1 : UInt32) <<< nodeId bit).toNat = 2 ^ bit := by
  have hlt : 2 ^ bit < 2 ^ 32 := Nat.pow_lt_pow_right (by omega) h
  rw [UInt32.toNat_shiftLeft, toNat_nodeId (by omega), Nat.mod_eq_of_lt h, UInt32.toNat_one,
    Nat.shiftLeft_eq, Nat.one_mul, Nat.mod_eq_of_lt hlt]

theorem computeLshSignature_lt (hbits : config.lsh_bits ≤ 32) (row : List FloatBits) :
    (computeLshSignature ops random config t row).toNat < 2 ^ config.lsh_bits := by
  rw [computeLshSignature]
  suffices hloop : ∀ bits, bits ≤ config.lsh_bits → ((List.range bits).foldl (fun signature bit =>
      if ops.nonneg (ops.score row
          (random.lshPlane (config.random_seed ^^^ 0x51f15eed) t bit)) then
        signature ||| ((1 : UInt32) <<< nodeId bit)
      else signature) 0).toNat < 2 ^ config.lsh_bits from hloop _ le_rfl
  intro bits hle
  induction bits with
  | zero => exact Nat.two_pow_pos _
  | succ bits ih =>
    rw [List.range_succ, List.foldl_append, List.foldl_cons, List.foldl_nil]
    split
    · rw [UInt32.toNat_or, toNat_shifted_one (by omega)]
      exact Nat.or_lt_two_pow (ih (by omega)) (Nat.pow_lt_pow_right (by omega) (by omega))
    · exact ih (by omega)

variable (ops random base config t) in
/-- The signature of a row, as a number. -/
def signatureKey (i : ℕ) : ℕ := (computeLshSignature ops random config t (base.row i)).toNat

theorem toNat_succ_signature (hbits : config.lsh_bits ≤ 24) (row : List FloatBits) :
    (computeLshSignature ops random config t row + 1).toNat =
      (computeLshSignature ops random config t row).toNat + 1 := by
  have hlt : (computeLshSignature ops random config t row).toNat < 2 ^ config.lsh_bits :=
    computeLshSignature_lt (by omega) row
  have hpow : 2 ^ config.lsh_bits ≤ 2 ^ 24 := Nat.pow_le_pow_right (by omega) hbits
  rw [UInt32.toNat_add, UInt32.toNat_one, Nat.mod_eq_of_lt (by omega)]

/-- The count behind every bucket after the rows below `m`. -/
def countOffset (key : ℕ → ℕ) (m j : ℕ) : ℕ := if j = 0 then 0 else (bucket key m (j - 1)).length

/-- The table after the signatures of the rows below `m` have been counted. -/
structure Counted (ops : FloatOps F) (random : Random) (base : VectorSet)
    (config : DiskGraphBuildConfig) (t m : ℕ) (table : LshTable) : Prop where
  signatures_eq : table.signatures = (List.range base.size).map fun i =>
    if i < m then computeLshSignature ops random config t (base.row i) else 0
  offsets_eq : table.offsets = (List.range (2 ^ config.lsh_bits + 1)).map fun j =>
    nodeId (countOffset (signatureKey ops random base config t) m j)

theorem countSignature_ok (hbits : config.lsh_bits ≤ 24) {table : LshTable} {m : ℕ}
    (h : m < base.size) (hcounted : Counted ops random base config t m table) :
    ∃ next, countSignature ops random base config t table m = .ok next ∧
      Counted ops random base config t (m + 1) next := by
  have hlt : signatureKey ops random base config t m < 2 ^ config.lsh_bits :=
    computeLshSignature_lt (by omega) _
  have hindex : (computeLshSignature ops random config t (base.row m) + 1).toNat =
      signatureKey ops random base config t m + 1 := toNat_succ_signature hbits _
  have hsignatures : store table.signatures m (computeLshSignature ops random config t (base.row m)) =
      .ok ((List.range base.size).map fun i =>
        if i < m + 1 then computeLshSignature ops random config t (base.row i) else 0) := by
    rw [hcounted.signatures_eq]
    have hstore := @store_map_range _
      (fun i => if i < m then computeLshSignature ops random config t (base.row i) else 0)
      (fun i => if i < m + 1 then computeLshSignature ops random config t (base.row i) else 0)
      base.size m h fun i hi => by
        have hiff : i < m + 1 ↔ i < m := by omega
        simp only [hiff]
    simpa using hstore
  have hload : load table.offsets (signatureKey ops random base config t m + 1) =
      .ok (nodeId (bucket (signatureKey ops random base config t) m
        (signatureKey ops random base config t m)).length) := by
    rw [hcounted.offsets_eq, load_map_range (by omega)]
    rfl
  have hoffsets : store table.offsets (signatureKey ops random base config t m + 1)
      (nodeId (bucket (signatureKey ops random base config t) m
        (signatureKey ops random base config t m)).length + 1) =
      .ok ((List.range (2 ^ config.lsh_bits + 1)).map fun j =>
        nodeId (countOffset (signatureKey ops random base config t) (m + 1) j)) := by
    rw [hcounted.offsets_eq]
    have hstore := @store_map_range _
      (fun j => nodeId (countOffset (signatureKey ops random base config t) m j))
      (fun j => nodeId (countOffset (signatureKey ops random base config t) (m + 1) j))
      (2 ^ config.lsh_bits + 1) (signatureKey ops random base config t m + 1) (by omega)
      fun j hj => by
        rw [countOffset, countOffset]
        split
        · rfl
        · rw [Buckets.bucket_succ_of_ne (by omega)]
    rw [← hstore]
    congr 1
    show _ = nodeId (bucket _ (m + 1) (signatureKey ops random base config t m)).length
    rw [Buckets.bucket_succ_self, List.length_append, List.length_singleton, nodeId, nodeId,
      UInt32.ofNat_add]
    rfl
  refine ⟨{ table with signatures := _, offsets := _ }, ?_, ⟨rfl, rfl⟩⟩
  rw [countSignature]
  simp only [hindex, hsignatures, hload, hoffsets, bind, Except.bind, pure, Except.pure]

/-- The offsets after those up to `last` have been summed up. -/
def summedOffset (key : ℕ → ℕ) (count last j : ℕ) : ℕ :=
  if j ≤ last then start key count j else countOffset key count j

theorem sumOffset_ok (key : ℕ → ℕ) (count : ℕ) {buckets last : ℕ} (h : last < buckets) :
    sumOffset ((List.range (buckets + 1)).map fun j => nodeId (summedOffset key count last j))
        (last + 1) =
      .ok ((List.range (buckets + 1)).map fun j => nodeId (summedOffset key count (last + 1) j)) := by
  have hcount : summedOffset key count last (last + 1) = (bucket key count last).length :=
    if_neg (by omega)
  have hbefore : summedOffset key count last last = start key count last := if_pos le_rfl
  have hsum : summedOffset key count (last + 1) (last + 1) =
      (bucket key count last).length + start key count last := by
    rw [summedOffset, if_pos le_rfl, Buckets.start_succ, Nat.add_comm]
  have hstore := @store_map_range _ (fun j => nodeId (summedOffset key count last j))
    (fun j => nodeId (summedOffset key count (last + 1) j)) (buckets + 1) (last + 1) (by omega)
    fun j hj => by
      have hiff : j ≤ last + 1 ↔ j ≤ last := by omega
      simp only [summedOffset, hiff]
  rw [sumOffset, load_map_range (by omega), Nat.add_sub_cancel, load_map_range (by omega), hcount,
    hbefore, ← hstore]
  simp only [hsum, nodeId, UInt32.ofNat_add]
  rfl

/-- The prefix sums of the counts are where the buckets start. -/
theorem sumOffsets_ok (key : ℕ → ℕ) (count buckets : ℕ) :
    (List.range' 1 buckets).foldlM sumOffset
        ((List.range (buckets + 1)).map fun j => nodeId (countOffset key count j)) =
      .ok ((List.range (buckets + 1)).map fun j => nodeId (start key count j)) := by
  have hfirst : ∀ j, countOffset key count j = summedOffset key count 0 j := by
    intro j
    by_cases hj : j = 0
    · rw [hj, summedOffset, if_pos le_rfl, Buckets.start_zero]
      rfl
    · exact (if_neg (by omega)).symm
  have hround : ∀ last < buckets, ∀ offsets, offsets = ((List.range (buckets + 1)).map fun j =>
      nodeId (summedOffset key count last j)) →
      ∃ next, sumOffset offsets (last + 1) = .ok next ∧ next = ((List.range (buckets + 1)).map
        fun j => nodeId (summedOffset key count (last + 1) j)) := by
    rintro last h _ rfl
    exact ⟨_, sumOffset_ok key count h, rfl⟩
  obtain ⟨final, hfinal, hlast⟩ := foldlM_range_ok hround rfl
  have hrange : List.range' 1 buckets = (List.range buckets).map (· + 1) := by
    rw [List.range'_eq_map_range]
    exact List.map_congr_left fun i _ => Nat.add_comm 1 i
  simp only [hfirst]
  rw [hrange, List.foldlM_map, hfinal, hlast]
  refine congrArg _ (List.map_congr_left fun j hj => ?_)
  rw [List.mem_range] at hj
  rw [summedOffset, if_pos (by omega)]

/-- The cursors and the cells after the ids below `m` have been placed. -/
structure PlacedIds (key : ℕ → ℕ) (count buckets m : ℕ) (arrays : List UInt32 × List NodeId) :
    Prop where
  cursor_eq : arrays.1 = (List.range (buckets + 1)).map fun s =>
    nodeId (start key count s + (bucket key m s).length)
  placed : Placed key nodeId count m arrays.2

theorem placeId_ok {key : ℕ → ℕ} {count buckets m : ℕ} {signatures : List UInt32}
    {arrays : List UInt32 × List NodeId} (hcount : count ≤ 2 ^ 32 - 1)
    (hkeys : ∀ i < count, key i < buckets)
    (hsignatures : ∀ i < count, ∃ signature, signatures[i]? = some signature ∧
      signature.toNat = key i) (h : m < count) (harrays : PlacedIds key count buckets m arrays) :
    ∃ next, placeId signatures arrays m = .ok next ∧ PlacedIds key count buckets (m + 1) next := by
  obtain ⟨signature, hsignature, hkey⟩ := hsignatures m h
  have hlt : key m < buckets := hkeys m h
  have hposition : start key count (key m) + (bucket key m (key m)).length < count :=
    Buckets.position_lt h
  have hload : load arrays.1 signature.toNat =
      .ok (nodeId (start key count (key m) + (bucket key m (key m)).length)) := by
    rw [hkey, harrays.cursor_eq, load_map_range (by omega)]
  have hcursor : store arrays.1 signature.toNat
      (nodeId (start key count (key m) + (bucket key m (key m)).length) + 1) =
      .ok ((List.range (buckets + 1)).map fun s =>
        nodeId (start key count s + (bucket key (m + 1) s).length)) := by
    have hstore := @store_map_range _
      (fun s => nodeId (start key count s + (bucket key m s).length))
      (fun s => nodeId (start key count s + (bucket key (m + 1) s).length)) (buckets + 1) (key m)
      (by omega) fun s hs => by rw [Buckets.bucket_succ_of_ne (Ne.symm hs)]
    rw [hkey, harrays.cursor_eq, ← hstore, Buckets.bucket_succ_self, List.length_append,
      List.length_singleton, ← Nat.add_assoc, nodeId, nodeId, UInt32.ofNat_add _ 1]
    rfl
  have hids : store arrays.2 (nodeId (start key count (key m) + (bucket key m (key m)).length)).toNat
      (nodeId m) = .ok (arrays.2.set (start key count (key m) + (bucket key m (key m)).length)
        (nodeId m)) := by
    rw [toNat_nodeId (by omega)]
    refine store_ok ?_ _
    rw [harrays.placed.length_eq]
    exact hposition
  refine ⟨(_, _), ?_, ⟨rfl, Buckets.placed_succ harrays.placed h⟩⟩
  rw [placeId, load_eq_ok hsignature]
  simp only [hload, hcursor, hids, bind, Except.bind, pure, Except.pure]

/-- The table of the ids that are sorted by their signatures. -/
structure LshTable.Sorted (ops : FloatOps F) (random : Random) (base : VectorSet)
    (config : DiskGraphBuildConfig) (t : ℕ) (table : LshTable) : Prop where
  signatures_eq : table.signatures =
    (List.range base.size).map fun i => computeLshSignature ops random config t (base.row i)
  offsets_eq : table.offsets = (List.range (2 ^ config.lsh_bits + 1)).map fun j =>
    nodeId (start (signatureKey ops random base config t) base.size j)
  placed : Placed (signatureKey ops random base config t) nodeId base.size base.size
    table.ids_by_bucket

theorem buildLshTable_ok (hbase : base.size ≤ 2 ^ 32 - 1) (hbits : config.lsh_bits ≤ 24) (t : ℕ) :
    ∃ table, buildLshTable ops random base config t = .ok table ∧
      table.Sorted ops random base config t := by
  have hkeys : ∀ i < base.size, signatureKey ops random base config t i < 2 ^ config.lsh_bits :=
    fun i _ => computeLshSignature_lt (by omega) _
  have hempty : Counted ops random base config t 0
      ⟨List.replicate base.size 0, [], List.replicate (2 ^ config.lsh_bits + 1) 0⟩ := by
    constructor
    · exact List.ext_getElem (by simp) fun i hi hi' => by simp
    · refine List.ext_getElem (by simp) fun j hj hj' => ?_
      have hzero : countOffset (signatureKey ops random base config t) 0 j = 0 := by
        rw [countOffset]
        split
        · rfl
        · rfl
      rw [List.getElem_replicate, List.getElem_map, List.getElem_range, hzero]
      rfl
  obtain ⟨counted, hcounted, hcounts⟩ := foldlM_range_ok
    (fun m h table htable => countSignature_ok hbits h htable) hempty
  have hsignatures : counted.signatures =
      (List.range base.size).map fun i => computeLshSignature ops random config t (base.row i) := by
    rw [hcounts.signatures_eq]
    refine List.map_congr_left fun i hi => if_pos (List.mem_range.mp hi)
  have hlength : counted.offsets.length - 1 = 2 ^ config.lsh_bits := by
    rw [hcounts.offsets_eq, List.length_map, List.length_range, Nat.add_sub_cancel]
  have hsums := sumOffsets_ok (signatureKey ops random base config t) base.size
    (2 ^ config.lsh_bits)
  have hstored : ∀ i < base.size, ∃ signature, counted.signatures[i]? = some signature ∧
      signature.toNat = signatureKey ops random base config t i := by
    intro i hi
    refine ⟨computeLshSignature ops random config t (base.row i), ?_, rfl⟩
    rw [hsignatures]
    simp [hi]
  have hinit : PlacedIds (signatureKey ops random base config t) base.size (2 ^ config.lsh_bits) 0
      ((List.range (2 ^ config.lsh_bits + 1)).map fun j =>
        nodeId (start (signatureKey ops random base config t) base.size j),
        List.replicate base.size 0) :=
    ⟨rfl, Buckets.placed_zero List.length_replicate⟩
  obtain ⟨placed, hplaced, hcells⟩ := foldlM_range_ok
    (fun m h arrays harrays => placeId_ok hbase hkeys hstored h harrays) hinit
  refine ⟨{ counted with ids_by_bucket := placed.2, offsets := _ }, ?_,
    ⟨hsignatures, rfl, hcells.placed⟩⟩
  rw [buildLshTable]
  simp only [hcounted, bind, Except.bind]
  rw [hlength, hcounts.offsets_eq, hsums]
  simp only [hplaced, pure, Except.pure]

namespace LshTable.Sorted

variable {table : LshTable} {signature : UInt32}

/-- Where the bucket of a signature starts, and where it ends. -/
theorem offset_eq (h : table.Sorted ops random base config t) {s : ℕ}
    (hs : s ≤ 2 ^ config.lsh_bits) :
    table.offsets[s]? = some (nodeId (start (signatureKey ops random base config t) base.size s)) := by
  rw [h.offsets_eq, List.getElem?_map, List.getElem?_range (by omega)]
  rfl

theorem toNat_offset (hbase : base.size ≤ 2 ^ 32 - 1) (s : ℕ) :
    (nodeId (start (signatureKey ops random base config t) base.size s)).toNat =
      start (signatureKey ops random base config t) base.size s :=
  toNat_nodeId (by
    have hle : start (signatureKey ops random base config t) base.size s ≤ base.size :=
      Buckets.start_le s
    omega)

theorem lshBucket_eq : lshBucket ops random base config t signature =
    (bucket (signatureKey ops random base config t) base.size signature.toNat).map nodeId := by
  rw [lshBucket, bucket]
  congr 1
  refine List.filter_congr fun i _ => ?_
  rw [signatureKey, Bool.eq_iff_iff, beq_iff_eq, decide_eq_true_iff, UInt32.toNat_inj]

theorem bucket_le_length (h : table.Sorted ops random base config t) (s : ℕ) :
    start (signatureKey ops random base config t) base.size s +
        (bucket (signatureKey ops random base config t) base.size s).length ≤
      table.ids_by_bucket.length := by
  rw [← Buckets.start_succ, h.placed.length_eq]
  exact Buckets.start_le _

/-- The candidates of a bucket are read in range, and they are ids of the bucket. -/
theorem addLshBucketCandidates_ok (h : table.Sorted ops random base config t)
    (hbase : base.size ≤ 2 ^ 32 - 1) (hbits : config.lsh_bits ≤ 24) (self : NodeId)
    (hsignature : signature.toNat < 2 ^ config.lsh_bits) :
    table.addLshBucketCandidates config self signature =
      .ok (Graph.addLshBucketCandidates ops random base config self t signature) := by
  have hpow : 2 ^ config.lsh_bits ≤ 2 ^ 24 := Nat.pow_le_pow_right (by omega) hbits
  have hsucc : (signature + 1).toNat = signature.toNat + 1 := by
    rw [UInt32.toNat_add, UInt32.toNat_one, Nat.mod_eq_of_lt (by omega)]
  have hlength : table.offsets.length = 2 ^ config.lsh_bits + 1 := by
    rw [h.offsets_eq, List.length_map, List.length_range]
  have hend := @Buckets.start_succ (signatureKey ops random base config t) base.size signature.toNat
  have hfits := h.bucket_le_length signature.toNat
  have hids : table.ids_by_bucket.length = base.size := h.placed.length_eq
  have hsize : (nodeId (start (signatureKey ops random base config t) base.size
        (signature.toNat + 1)) -
      nodeId (start (signatureKey ops random base config t) base.size signature.toNat)).toNat =
      (bucket (signatureKey ops random base config t) base.size signature.toNat).length := by
    have hle : nodeId (start (signatureKey ops random base config t) base.size signature.toNat) ≤
        nodeId (start (signatureKey ops random base config t) base.size (signature.toNat + 1)) := by
      rw [UInt32.le_iff_toNat_le, toNat_offset hbase, toNat_offset hbase]
      omega
    rw [UInt32.toNat_sub_of_le _ _ hle, toNat_offset hbase, toNat_offset hbase]
    omega
  rw [addLshBucketCandidates, if_neg (by omega), hsucc, load_eq_ok (h.offset_eq hsignature.le),
    load_eq_ok (h.offset_eq hsignature), Graph.addLshBucketCandidates, if_neg (by omega)]
  simp only [bind, Except.bind, hsize, lshBucket_eq, List.length_map]
  by_cases hsmall : (bucket (signatureKey ops random base config t) base.size
      signature.toNat).length ≤ config.lsh_bucket_limit
  · rw [if_pos hsmall, if_pos hsmall, toNat_offset hbase, toNat_offset hbase, hend,
      Nat.add_sub_cancel_left, mapM_load_range' hfits, Buckets.slice_eq h.placed]
  · -- a sample stands behind the start of the bucket, at a number below its size
    rw [if_neg hsmall, if_neg hsmall]
    refine mapM_eq_ok fun i _ => load_eq_ok ?_
    have hlt : (mixU32 (mixU32 (self ^^^ signature ^^^ 0x15a4e35) + nodeId i)).toNat %
        (bucket (signatureKey ops random base config t) base.size signature.toNat).length <
        (bucket (signatureKey ops random base config t) base.size signature.toNat).length :=
      Nat.mod_lt _ (by omega)
    rw [UInt32.toNat_add, UInt32.toNat_mod, hsize, toNat_offset hbase, Nat.mod_eq_of_lt (by omega),
      h.placed.cell_eq _ _ hlt, List.getD_eq_getElem?_getD]
    rw [List.getElem?_eq_getElem (by rwa [List.length_map])]
    rfl

theorem addLshCandidates_ok (h : table.Sorted ops random base config t)
    (hbase : base.size ≤ 2 ^ 32 - 1) (hbits : config.lsh_bits ≤ 24) {self : NodeId}
    (hself : self.toNat < base.size) :
    table.addLshCandidates config self =
      .ok (let mask : UInt32 := if config.lsh_bits = 32 then 0xffffffff
          else ((1 : UInt32) <<< nodeId config.lsh_bits) - 1
        let signature := computeLshSignature ops random config t (base.row self.toNat) &&& mask
        Graph.addLshBucketCandidates ops random base config self t signature ++
          if config.lsh_probe_radius = 1 then
            (List.range config.lsh_bits).flatMap fun bit =>
              Graph.addLshBucketCandidates ops random base config self t
                (signature ^^^ ((1 : UInt32) <<< nodeId bit))
          else []) := by
  have hload : load table.signatures self.toNat =
      .ok (computeLshSignature ops random config t (base.row self.toNat)) := by
    rw [h.signatures_eq, load_map_range hself]
  have hmasked : ∀ mask : UInt32, (computeLshSignature ops random config t
      (base.row self.toNat) &&& mask).toNat < 2 ^ config.lsh_bits := by
    intro mask
    rw [UInt32.toNat_and]
    exact lt_of_le_of_lt Nat.and_le_left (computeLshSignature_lt (by omega) _)
  rw [addLshCandidates, hload]
  simp only [bind, Except.bind, pure, Except.pure]
  generalize (if config.lsh_bits = 32 then (0xffffffff : UInt32)
    else ((1 : UInt32) <<< nodeId config.lsh_bits) - 1) = mask
  rw [h.addLshBucketCandidates_ok hbase hbits self (hmasked mask)]
  by_cases hradius : config.lsh_probe_radius = 1
  · have hprobed : ∀ bit ∈ List.range config.lsh_bits, table.addLshBucketCandidates config self
        (computeLshSignature ops random config t (base.row self.toNat) &&& mask ^^^
          ((1 : UInt32) <<< nodeId bit)) =
        .ok (Graph.addLshBucketCandidates ops random base config self t
          (computeLshSignature ops random config t (base.row self.toNat) &&& mask ^^^
            ((1 : UInt32) <<< nodeId bit))) := by
      intro bit hbit
      rw [List.mem_range] at hbit
      refine h.addLshBucketCandidates_ok hbase hbits self ?_
      rw [UInt32.toNat_xor, toNat_shifted_one (by omega)]
      exact Nat.xor_lt_two_pow (hmasked mask) (Nat.pow_lt_pow_right (by omega) hbit)
    simp only [if_pos hradius, mapM_eq_ok hprobed]
    rfl
  · simp only [if_neg hradius]
    rfl

end LshTable.Sorted

theorem buildLshIndex_ok (hbase : base.size ≤ 2 ^ 32 - 1) (hbits : config.lsh_bits ≤ 24) :
    ∃ tables : ℕ → LshTable, (∀ t, (tables t).Sorted ops random base config t) ∧
      buildLshIndex ops random base config =
        .ok ⟨config.lsh_bits, (List.range config.lsh_tables).map tables⟩ := by
  choose tables hbuilt hsorted using
    fun t => @buildLshTable_ok _ ops random base config hbase hbits t
  refine ⟨tables, hsorted, ?_⟩
  rw [buildLshIndex, mapM_eq_ok fun t _ => hbuilt t]
  rfl

theorem validateBuildPolicy_lsh_bits
    (hpolicy : config.build_policy = "lsh-rp" ∨ config.build_policy = "lsh-vamana")
    (h : validateBuildPolicy ops config = .ok ()) : config.lsh_bits ≤ 24 := by
  rw [validateBuildPolicy] at h
  simp only [throwIf_bind_eq_ok] at h
  obtain ⟨_, _, _, _, _, hbits, _⟩ := h
  by_contra hlarge
  exact hbits ⟨hpolicy, Or.inr (not_le.mp hlarge)⟩

/-- The buckets of every table hold the ids with their signature in increasing order, every id stands
in one bucket, and the candidates of every node are read in range. A base that is too large for the
ids is refused before a graph is built. -/
theorem lshIndex_partition (hbase : base.size ≤ 2 ^ 32 - 1)
    (hpolicy : config.build_policy = "lsh-rp" ∨ config.build_policy = "lsh-vamana")
    (hconfig : validateBuildPolicy ops config = .ok ()) :
    ∃ index, buildLshIndex ops random base config = .ok index ∧
      index.tables.length = config.lsh_tables ∧
      (∀ t table, index.tables[t]? = some table →
        (∀ s : UInt32, s.toNat < 2 ^ config.lsh_bits → ∃ first last : UInt32,
          table.offsets[s.toNat]? = some first ∧ table.offsets[s.toNat + 1]? = some last ∧
          first.toNat ≤ last.toNat ∧ last.toNat ≤ table.ids_by_bucket.length ∧
          (table.ids_by_bucket.drop first.toNat).take (last.toNat - first.toNat) =
            ((List.range base.size).filter fun i =>
              computeLshSignature ops random config t (base.row i) = s).map nodeId) ∧
        (∀ i < base.size, (computeLshSignature ops random config t (base.row i)).toNat <
          2 ^ config.lsh_bits) ∧
        table.ids_by_bucket.Perm ((List.range base.size).map nodeId)) ∧
      ∀ self : NodeId, self.toNat < base.size →
        index.addLshCandidates config self = .ok (addLshCandidates ops random base config self) := by
  have hbits : config.lsh_bits ≤ 24 := validateBuildPolicy_lsh_bits hpolicy hconfig
  obtain ⟨tables, hsorted, hindex⟩ :=
    @buildLshIndex_ok _ ops random base config hbase hbits
  have hkeys : ∀ t, ∀ i < base.size,
      signatureKey ops random base config t i < 2 ^ config.lsh_bits :=
    fun t i _ => computeLshSignature_lt (by omega) _
  refine ⟨_, hindex, by rw [List.length_map, List.length_range], ?_, ?_⟩
  · intro t table htable
    obtain ⟨number, hnumber, rfl⟩ : ∃ number, (List.range config.lsh_tables)[t]? = some number ∧
        tables number = table := by simpa using htable
    obtain ⟨_, rfl⟩ := List.getElem?_eq_some_iff.mp hnumber
    rw [List.getElem_range]
    have h := hsorted t
    refine ⟨fun s hs => ⟨_, _, h.offset_eq hs.le, h.offset_eq hs, ?_, ?_, ?_⟩, hkeys t,
      Buckets.cells_perm h.placed (hkeys t)⟩
    · rw [LshTable.Sorted.toNat_offset hbase, LshTable.Sorted.toNat_offset hbase]
      exact Buckets.start_mono (Nat.le_succ _)
    · rw [LshTable.Sorted.toNat_offset hbase, h.placed.length_eq]
      exact Buckets.start_le _
    · rw [LshTable.Sorted.toNat_offset hbase, LshTable.Sorted.toNat_offset hbase,
        Buckets.start_succ, Nat.add_sub_cancel_left, Buckets.slice_eq h.placed,
        ← LshTable.Sorted.lshBucket_eq, lshBucket]
      rfl
  · intro self hself
    rw [LshIndex.addLshCandidates, mapM_map_ok fun t _ =>
      (hsorted t).addLshCandidates_ok hbase hbits hself]
    rfl

/-- Three rows and one table of two buckets. -/
theorem lshIndex_partition_three :
    let ops := { lineOps with nonneg := fun score => 2 ≤ score }
    let base : VectorSet := { dim := 1, values := [0, 3, 1] }
    let config : DiskGraphBuildConfig :=
      { build_policy := "lsh-rp", lsh_tables := 1, lsh_bits := 1, lsh_probe_radius := 1 }
    base.size ≤ 2 ^ 32 - 1 ∧ validateBuildPolicy ops config = .ok () ∧
      ∃ index, buildLshIndex ops idleRandom base config = .ok index ∧ index.tables.length = 1 := by
  intro ops base config
  have hbase : base.size ≤ 2 ^ 32 - 1 := by decide
  have hconfig : validateBuildPolicy ops config = .ok () := by decide +kernel
  obtain ⟨index, hindex, hlength, _⟩ :=
    @lshIndex_partition _ ops idleRandom base config hbase (Or.inl rfl) hconfig
  exact ⟨hbase, hconfig, index, hindex, hlength⟩

end Loops

end Graph
