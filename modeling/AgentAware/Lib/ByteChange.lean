import AgentAware.Lib.Codec

/-!
# Changing one byte

What one changed byte does to an integer, to the fields of a header, to a log of encodings and to a
hash. A hash whose steps are injective in the state and in the byte sees every change of one byte.

## Main definitions

- `Codec.changeByte` — a field with one byte changed

## Main results

- `foldl_set_ne`, `fnv_set_ne` — a hash with injective steps, and FNV-1a
- `Codec.putFields_set` — the header with one field changed
- `PrefixCodec.decodeAll_set` — a log reads as before up to the value that holds the byte
- `PrefixCodec.decodeAll_set_prefix_iff` — the changed value is dropped exactly when it is rejected
-/

section Fold

variable {σ β : Type} {step : σ → β → σ}

theorem foldl_injective (hstate : ∀ b, Function.Injective fun s => step s b) (bytes : List β) :
    Function.Injective fun s => bytes.foldl step s := by
  induction bytes with
  | nil => exact Function.injective_id
  | cons b bytes ih => exact ih.comp (hstate b)

/-- Two strings that differ in one place have different hashes. -/
theorem foldl_set_ne (hstate : ∀ b, Function.Injective fun s => step s b)
    (hbyte : ∀ s, Function.Injective (step s)) (s : σ) {bytes : List β} {i : ℕ} {b : β}
    (h : bytes.set i b ≠ bytes) : (bytes.set i b).foldl step s ≠ bytes.foldl step s := by
  induction bytes generalizing s i with
  | nil => exact absurd List.set_nil h
  | cons first bytes ih =>
    cases i with
    | zero =>
      intro heq
      have hfirst : b = first := hbyte s (foldl_injective hstate bytes heq)
      exact h (by rw [List.set_cons_zero, hfirst])
    | succ i =>
      rw [List.set_cons_succ] at h ⊢
      exact ih (step s first) fun heq => h (by rw [heq])

end Fold

section Fnv

/-- The multiplier is odd, so its multiplication loses nothing. -/
theorem mul_prime_injective : Function.Injective fun x : UInt32 => x * 16777619 := by
  intro x y heq
  have hinverse : ∀ x : UInt32, x * 16777619 * 899433627 = x := by
    intro x
    rw [UInt32.mul_assoc]
    exact UInt32.mul_one x
  rw [← hinverse x, ← hinverse y]
  exact congrArg (· * 899433627) heq

theorem fnv_state_injective (byte : UInt8) :
    Function.Injective fun hash : UInt32 => (hash ^^^ byte.toUInt32) * 16777619 :=
  fun _ _ heq => (UInt32.xor_left_inj _).mp (mul_prime_injective heq)

theorem fnv_byte_injective (hash : UInt32) :
    Function.Injective fun byte : UInt8 => (hash ^^^ byte.toUInt32) * 16777619 := by
  intro byte byte' heq
  have hwide : byte.toUInt32 = byte'.toUInt32 :=
    (UInt32.xor_right_inj _).mp (mul_prime_injective heq)
  exact UInt8.toUInt32_inj.mp hwide

/-- FNV-1a sees every change of one byte, from any seed. -/
theorem fnv_set_ne (seed : UInt32) {bytes : Bytes} {i : ℕ} {byte : UInt8}
    (h : bytes.set i byte ≠ bytes) :
    (bytes.set i byte).foldl (fun hash byte => (hash ^^^ byte.toUInt32) * 16777619) seed ≠
      bytes.foldl (fun hash byte => (hash ^^^ byte.toUInt32) * 16777619) seed :=
  foldl_set_ne fnv_state_injective fnv_byte_injective seed h

end Fnv

namespace Codec

/-- A field of `width` bytes, with one of them changed. -/
def changeByte (width value i : ℕ) (byte : UInt8) : ℕ := getLE ((putLE width value).set i byte)

theorem changeByte_lt (width value i : ℕ) (byte : UInt8) :
    changeByte width value i byte < 256 ^ width := by
  have hlt := getLE_lt ((putLE width value).set i byte)
  rwa [List.length_set, length_putLE] at hlt

theorem putLE_changeByte (width value i : ℕ) (byte : UInt8) :
    putLE width (changeByte width value i byte) = (putLE width value).set i byte := by
  have hput := putLE_getLE ((putLE width value).set i byte)
  rwa [List.length_set, length_putLE] at hput

theorem changeByte_ne {width value i : ℕ} {byte : UInt8}
    (h : (putLE width value).set i byte ≠ putLE width value) :
    changeByte width value i byte ≠ value := by
  intro heq
  rw [← putLE_changeByte, heq] at h
  exact h rfl

/-- A field of one byte. -/
theorem changeByte_one (value : ℕ) (byte : UInt8) : changeByte 1 value 0 byte = byte.toNat := by
  simp [changeByte, putLE, getLE]

theorem putLE_add (low high value : ℕ) :
    putLE (low + high) value = putLE low value ++ putLE high (value / 256 ^ low) := by
  induction low generalizing value with
  | zero => rw [Nat.zero_add, Nat.pow_zero, Nat.div_one]; rfl
  | succ low ih =>
    rw [Nat.succ_add, putLE, putLE, ih, List.cons_append, Nat.div_div_eq_div_mul, pow_succ']

theorem getLE_append (front back : Bytes) :
    getLE (front ++ back) = getLE front + 256 ^ front.length * getLE back := by
  induction front with
  | nil => simp [getLE]
  | cons byte front ih =>
    rw [List.cons_append, getLE, getLE, ih, List.length_cons, pow_succ']
    ring

/-- A field with a small value becomes large when one of its high bytes is set, and only then. -/
theorem changeByte_lt_iff {low high value i : ℕ} {byte : UInt8} (hvalue : value < 256 ^ low)
    (h : (putLE (low + high) value).set i byte ≠ putLE (low + high) value) :
    changeByte (low + high) value i byte < 256 ^ low ↔ i < low := by
  have hbytes : putLE (low + high) value = putLE low value ++ putLE high 0 := by
    rw [putLE_add, Nat.div_eq_of_lt hvalue]
  rw [changeByte, hbytes]
  rw [hbytes] at h
  by_cases hi : i < low
  · have hzero : getLE (putLE high 0) = 0 := by rw [getLE_putLE, Nat.zero_mod]
    have hlt := changeByte_lt low value i byte
    rw [changeByte] at hlt
    rw [List.set_append_left _ _ (by rwa [length_putLE]), getLE_append, hzero, Nat.mul_zero,
      Nat.add_zero]
    exact iff_of_true hlt hi
  · have hlow : (putLE low value).length ≤ i := by rw [length_putLE]; exact not_lt.mp hi
    rw [List.set_append_right _ _ hlow] at h ⊢
    have hne : changeByte high 0 (i - (putLE low value).length) byte ≠ 0 :=
      changeByte_ne fun heq => h (by rw [heq])
    rw [changeByte] at hne
    rw [getLE_append, length_putLE]
    rw [length_putLE] at hne
    refine iff_of_false (not_lt.mpr ?_) hi
    exact (Nat.le_mul_of_pos_right _ (Nat.pos_of_ne_zero hne)).trans (Nat.le_add_left _ _)

theorem exists_field_of_lt {fields : List (ℕ × ℕ)} {j : ℕ} (hj : j < (putFields fields).length) :
    ∃ k, ∃ hk : k < fields.length, ∃ i, i < fields[k].1 ∧
      j = ((fields.take k).map Prod.fst).sum + i := by
  induction fields generalizing j with
  | nil => exact absurd hj (Nat.not_lt_zero j)
  | cons field fields ih =>
    rw [putFields, List.length_append, length_putLE] at hj
    by_cases hfirst : j < field.1
    · exact ⟨0, Nat.succ_pos _, j, hfirst, (Nat.zero_add j).symm⟩
    · obtain ⟨k, hk, i, hi, hsum⟩ := ih (j := j - field.1) (by omega)
      refine ⟨k + 1, Nat.succ_lt_succ hk, i, hi, ?_⟩
      rw [List.take_succ_cons, List.map_cons, List.sum_cons]
      omega

/-- One byte of a header belongs to one field. -/
theorem putFields_set {fields : List (ℕ × ℕ)} {k i : ℕ} (hk : k < fields.length)
    (hi : i < fields[k].1) (byte : UInt8) :
    (putFields fields).set (((fields.take k).map Prod.fst).sum + i) byte =
      putFields (fields.set k (fields[k].1, changeByte fields[k].1 fields[k].2 i byte)) := by
  induction fields generalizing k with
  | nil => exact absurd hk (Nat.not_lt_zero k)
  | cons field fields ih =>
    cases k with
    | zero =>
      rw [List.set_cons_zero, putFields, putFields, List.getElem_cons_zero, putLE_changeByte]
      rw [List.take_zero, List.map_nil, List.sum_nil, Nat.zero_add]
      exact List.set_append_left _ _ (by rwa [length_putLE])
    | succ k =>
      have hrest := ih (Nat.lt_of_succ_lt_succ hk) hi
      rw [List.set_cons_succ, putFields, putFields, List.getElem_cons_succ, ← hrest]
      rw [List.take_succ_cons, List.map_cons, List.sum_cons, Nat.add_assoc,
        List.set_append_right _ _ (by rw [length_putLE]; omega), length_putLE]
      congr 2
      omega

theorem FieldsFit.set {fields : List (ℕ × ℕ)} (h : FieldsFit fields) (k : ℕ) {width value : ℕ}
    (hvalue : value < 256 ^ width) : FieldsFit (fields.set k (width, value)) := by
  intro field hfield
  rcases List.mem_or_eq_of_mem_set hfield with hold | rfl
  · exact h field hold
  · exact hvalue

theorem changeByte_field_ne {fields : List (ℕ × ℕ)} {k i : ℕ} (hk : k < fields.length)
    (hi : i < fields[k].1) {byte : UInt8}
    (h : (putFields fields).set (((fields.take k).map Prod.fst).sum + i) byte ≠ putFields fields) :
    (putLE fields[k].1 fields[k].2).set i byte ≠ putLE fields[k].1 fields[k].2 := by
  intro heq
  rw [putFields_set hk hi] at h
  have hput : ∀ value, putLE fields[k].1 value = putLE fields[k].1 fields[k].2 →
      putFields (fields.set k (fields[k].1, value)) = putFields fields := by
    intro value hvalue
    clear h heq hi
    induction fields generalizing k with
    | nil => exact absurd hk (Nat.not_lt_zero k)
    | cons field fields ih =>
      cases k with
      | zero =>
        rw [List.getElem_cons_zero] at hvalue
        rw [List.set_cons_zero, List.getElem_cons_zero, putFields, putFields, hvalue]
      | succ k =>
        rw [List.set_cons_succ, List.getElem_cons_succ, putFields, putFields,
          ih (Nat.lt_of_succ_lt_succ hk) hvalue]
  exact h (hput _ (by rw [putLE_changeByte, heq]))

end Codec

namespace PrefixCodec

variable {α : Type} (c : PrefixCodec α)

/-- Every byte of a log belongs to one encoding. -/
theorem exists_encoding_of_lt {as : List α} {i : ℕ} (hi : i < (c.encodeAll as).length) :
    ∃ before a after j, as = before ++ a :: after ∧ j < (c.encode a).length ∧
      i = (c.encodeAll before).length + j := by
  induction as generalizing i with
  | nil => exact absurd hi (Nat.not_lt_zero i)
  | cons a as ih =>
    rw [encodeAll_cons, List.length_append] at hi
    by_cases hfirst : i < (c.encode a).length
    · exact ⟨[], a, as, i, rfl, hfirst, (Nat.zero_add i).symm⟩
    · obtain ⟨before, b, after, j, rfl, hj, hsum⟩ := ih (i := i - (c.encode a).length) (by omega)
      refine ⟨a :: before, b, after, j, rfl, hj, ?_⟩
      rw [encodeAll_cons, List.length_append]
      omega

variable {before after : List α} {a : α} {j : ℕ}

/-- The values before the one that holds the changed byte are read; what follows them decides the
rest. -/
theorem decodeAll_set (hbefore : ∀ b ∈ before, c.Valid b) (hj : j < (c.encode a).length)
    (byte : UInt8) :
    c.decodeAll ((c.encodeAll (before ++ a :: after)).set ((c.encodeAll before).length + j) byte) =
      before ++ c.decodeAll ((c.encode a).set j byte ++ c.encodeAll after) := by
  rw [encodeAll_append, encodeAll_cons, List.set_append_right _ _ (Nat.le_add_right _ _),
    Nat.add_sub_cancel_left, List.set_append_left _ _ hj]
  exact c.decodeAll_encodeAll_append hbefore _

/-- The reader returns some of the values that were written exactly when it rejects the one that
was changed: no other value has its encoding. -/
theorem decodeAll_set_prefix_iff (hbefore : ∀ b ∈ before, c.Valid b) (hj : j < (c.encode a).length)
    {byte : UInt8} (h : (c.encode a).set j byte ≠ c.encode a) :
    c.decodeAll ((c.encodeAll (before ++ a :: after)).set ((c.encodeAll before).length + j) byte) <+:
        before ++ a :: after ↔
      c.decode ((c.encode a).set j byte ++ c.encodeAll after) = none := by
  rw [c.decodeAll_set hbefore hj, List.prefix_append_right_inj]
  constructor
  · intro hprefix
    cases hdecode : c.decode ((c.encode a).set j byte ++ c.encodeAll after) with
    | none => rfl
    | some read =>
      obtain ⟨b, rest⟩ := read
      rw [c.decodeAll_eq_cons hdecode] at hprefix
      obtain ⟨rfl, -⟩ := List.cons_prefix_cons.mp hprefix
      obtain ⟨-, hbytes⟩ := c.encode_of_decode hdecode
      have hfront := (List.append_inj hbytes (by rw [List.length_set])).1
      exact absurd hfront h
  · intro hdecode
    rw [c.decodeAll_eq_nil hdecode]
    exact List.nil_prefix

end PrefixCodec
