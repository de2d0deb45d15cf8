import AgentAware.Core.Types
import AgentAware.Lib.Codec
import AgentAware.Lib.Versions
import Mathlib.Order.Lex

/-!
# Dynamic records

The record that the write-ahead log, the memtable, the SSTables and the read views all store, its
checksum, and the deduplication that keeps the newest record of every node.

Floats are their bit patterns: nothing here computes with them, and distances are a parameter of
the functions that need them. `sequence_id` is a natural number; the counters that produce it grow
by one per write, and where a value comes from a file its width is part of the format.

## Main definitions

- `DynamicRecord` — one version of one node
- `checksumPayload` — the checksum stored with a record
- `deduplicateNewest` — the newest record of every node, by node id
-/

namespace Dynamic

structure DynamicRecord where
  sequence_id : ℕ := 0
  node_id : NodeId := 0
  dim : ℕ := 0
  vector : List FloatBits := []
  neighbors : List NodeId := []
  deleted : Bool := false
  deriving DecidableEq, Repr

/-- `sizeof(float)` and `sizeof(NodeId)`. -/
def wordBytes : ℕ := 4

/-- `std::numeric_limits<std::uint32_t>::max()`. -/
def maxUInt32 : ℕ := 2 ^ 32 - 1

/-- `kMaxPayloadBytes` of the log and `kMaxRecordPayloadBytes` of the tables. -/
def kMaxPayloadBytes : ℕ := 512 * 1024 * 1024

/-- Bytes of vector and neighbours together. -/
def DynamicRecord.payloadBytes (record : DynamicRecord) : ℕ :=
  wordBytes * record.vector.length + wordBytes * record.neighbors.length

/-- The bytes of an array of 32-bit words. -/
def wordsBytes (words : List UInt32) : Bytes :=
  Codec.putFields (Codec.arrayFields wordBytes (words.map UInt32.toNat))

def checksumBytes (data : Bytes) : UInt32 :=
  data.foldl (fun hash byte => (hash ^^^ byte.toUInt32) * 16777619) 2166136261

def checksumPayload (vector : List FloatBits) (neighbors : List NodeId) : UInt32 :=
  let hash : UInt32 := if vector.isEmpty then 2166136261 else checksumBytes (wordsBytes vector)
  if neighbors.isEmpty then hash
  else
    let neighborHash := checksumBytes (wordsBytes neighbors)
    hash ^^^ (neighborHash + 0x9e3779b9 + (hash <<< (6 : UInt32)) + (hash >>> (2 : UInt32)))

/-- `deduplicate_newest` of the manager and of compaction, `deduplicate_records` of the tables:
the same code three times. -/
def deduplicateNewest (records : List DynamicRecord) : List DynamicRecord :=
  Versions.newestList DynamicRecord.sequence_id DynamicRecord.node_id records

/-- The newest record of a node in a log of records. -/
abbrev newestOf (records : List DynamicRecord) (node : NodeId) : Option DynamicRecord :=
  Versions.newest DynamicRecord.node_id DynamicRecord.sequence_id records node

/-- A selection of a log that has lost superseded records only. -/
abbrev Covers (part log : List DynamicRecord) : Prop :=
  Versions.Covers DynamicRecord.node_id DynamicRecord.sequence_id part log

theorem mem_deduplicateNewest {records : List DynamicRecord} {record : DynamicRecord} :
    record ∈ deduplicateNewest records ↔ newestOf records record.node_id = some record :=
  Versions.mem_newestList

theorem deduplicateNewest_covers (records : List DynamicRecord) :
    Covers (deduplicateNewest records) records :=
  Versions.newestList_covers records

theorem deduplicateNewest_sorted (records : List DynamicRecord) :
    (deduplicateNewest records).Pairwise fun a b => a.node_id < b.node_id :=
  Versions.newestList_sorted records

example : deduplicateNewest
    [{ sequence_id := 1, node_id := 9 }, { sequence_id := 2, node_id := 3 },
     { sequence_id := 3, node_id := 9, deleted := true }] =
    [{ sequence_id := 2, node_id := 3 }, { sequence_id := 3, node_id := 9, deleted := true }] := by
  decide

end Dynamic
