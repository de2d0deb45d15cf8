import Mathlib.Algebra.BigOperators.Group.List.Basic
import Mathlib.Algebra.GroupWithZero.Action.Defs
import Mathlib.Tactic.Ring

/-!
# Prefix codecs for byte strings

A `PrefixCodec` reads one value off the front of a byte string and hands back the rest. Two laws
make it usable for append-only files: what was encoded is decoded again whatever follows, and
whatever is decoded was the encoding of a valid value. Everything a log needs follows from them:
encodings are prefix free, a truncated encoding is rejected, and a reader that decodes until it is
rejected returns exactly the values whose encodings are complete.

## Main definitions

- `putLE`, `getLE` — little-endian integers of a fixed width
- `readFields`, `putFields` — a record header, field by field
- `PrefixCodec` — encoder, decoder, valid values and the two laws
- `PrefixCodec.decodeAll` — decode until the decoder rejects

## Main results

- `PrefixCodec.decode_eq_none_of_lt` — a proper prefix of an encoding is rejected
- `PrefixCodec.decodeAll_encodeAll_append` — complete encodings are read, the tail decides the rest
- `PrefixCodec.exists_tail` — every byte string is complete encodings and a rejected tail
- `PrefixCodec.decodeAll_prefix`, `PrefixCodec.decodeAll_take_encodeAll` — the truncation law
-/

/-- A byte string, first byte first. -/
abbrev Bytes := List UInt8

namespace Codec

/-- The `width` low bytes of `value`, least significant first. -/
def putLE : ℕ → ℕ → Bytes
  | 0, _ => []
  | width + 1, value => UInt8.ofNat (value % 256) :: putLE width (value / 256)

/-- The integer a little-endian byte string denotes. -/
def getLE : Bytes → ℕ
  | [] => 0
  | byte :: rest => byte.toNat + 256 * getLE rest

@[simp] theorem length_putLE (width value : ℕ) : (putLE width value).length = width := by
  induction width generalizing value with
  | zero => rfl
  | succ width ih => simp [putLE, ih]

theorem getLE_putLE (width value : ℕ) : getLE (putLE width value) = value % 256 ^ width := by
  induction width generalizing value with
  | zero => simp [putLE, getLE, Nat.mod_one]
  | succ width ih =>
    have hbyte : (UInt8.ofNat (value % 256)).toNat = value % 256 := by
      simp
    rw [putLE, getLE, hbyte, ih, pow_succ', Nat.mod_mul]

theorem getLE_putLE_of_lt {width value : ℕ} (h : value < 256 ^ width) :
    getLE (putLE width value) = value := by
  rw [getLE_putLE, Nat.mod_eq_of_lt h]

theorem getLE_lt (bytes : Bytes) : getLE bytes < 256 ^ bytes.length := by
  induction bytes with
  | nil => simp [getLE]
  | cons byte rest ih =>
    have hbyte : byte.toNat < 256 := byte.toNat_lt
    simp only [getLE, List.length_cons, pow_succ']
    omega

theorem putLE_getLE (bytes : Bytes) : putLE bytes.length (getLE bytes) = bytes := by
  induction bytes with
  | nil => rfl
  | cons byte rest ih =>
    have hbyte : byte.toNat < 256 := byte.toNat_lt
    have hmod : (byte.toNat + 256 * getLE rest) % 256 = byte.toNat := by omega
    have hdiv : (byte.toNat + 256 * getLE rest) / 256 = getLE rest := by omega
    simp only [List.length_cons, putLE, getLE, hmod, hdiv, ih, UInt8.ofNat_toNat]

/-- The bytes of a header: each field is its width and its value. -/
def putFields : List (ℕ × ℕ) → Bytes
  | [] => []
  | (width, value) :: fields => putLE width value ++ putFields fields

/-- Read a header whose fields have the given widths; `none` when the bytes run out. -/
def readFields : List ℕ → Bytes → Option (List ℕ × Bytes)
  | [], bytes => some ([], bytes)
  | width :: widths, bytes =>
    if bytes.length < width then none
    else match readFields widths (bytes.drop width) with
      | none => none
      | some (values, rest) => some (getLE (bytes.take width) :: values, rest)

/-- Read `count` integers of one width; the length is checked before any of them is read. -/
def readArray (width count : ℕ) (bytes : Bytes) : Option (List ℕ × Bytes) :=
  if bytes.length < width * count then none
  else readFields (List.replicate count width) bytes

/-- Every value fits the width of its field. -/
def FieldsFit (fields : List (ℕ × ℕ)) : Prop := ∀ f ∈ fields, f.2 < 256 ^ f.1

theorem length_putFields (fields : List (ℕ × ℕ)) :
    (putFields fields).length = (fields.map Prod.fst).sum := by
  induction fields with
  | nil => rfl
  | cons f fields ih => simp [putFields, ih]

/-- A value that does not fit its field is truncated. -/
theorem readFields_putFields_mod (fields : List (ℕ × ℕ)) (rest : Bytes) :
    readFields (fields.map Prod.fst) (putFields fields ++ rest) =
      some (fields.map fun f => f.2 % 256 ^ f.1, rest) := by
  induction fields with
  | nil => rfl
  | cons f fields ih =>
    obtain ⟨width, value⟩ := f
    have hlen : ¬(putLE width value ++ (putFields fields ++ rest)).length < width := by
      simp
    simp only [List.map_cons, putFields, List.append_assoc, readFields, hlen, if_false]
    rw [List.drop_left' (length_putLE width value), List.take_left' (length_putLE width value),
      ih, getLE_putLE]

theorem readFields_putFields (fields : List (ℕ × ℕ)) (h : FieldsFit fields) (rest : Bytes) :
    readFields (fields.map Prod.fst) (putFields fields ++ rest) =
      some (fields.map Prod.snd, rest) := by
  rw [readFields_putFields_mod]
  have hvalues : (fields.map fun f => f.2 % 256 ^ f.1) = fields.map Prod.snd :=
    List.map_congr_left fun f hf => Nat.mod_eq_of_lt (h f hf)
  rw [hvalues]

/-- What `readFields` accepts is exactly the header of the values it returns. -/
theorem putFields_of_readFields {widths : List ℕ} {bytes rest : Bytes} {values : List ℕ}
    (h : readFields widths bytes = some (values, rest)) :
    values.length = widths.length ∧ FieldsFit (widths.zip values) ∧
      bytes = putFields (widths.zip values) ++ rest := by
  induction widths generalizing bytes values with
  | nil =>
    simp only [readFields, Option.some.injEq, Prod.mk.injEq] at h
    obtain ⟨rfl, rfl⟩ := h
    exact ⟨rfl, by simp [FieldsFit], rfl⟩
  | cons width widths ih =>
    simp only [readFields] at h
    split at h
    · cases h
    · next hlen =>
      split at h
      · cases h
      · next values' rest' htail =>
        simp only [Option.some.injEq, Prod.mk.injEq] at h
        obtain ⟨rfl, rfl⟩ := h
        obtain ⟨hcount, hfit, hbytes⟩ := ih htail
        -- the bytes of the first field are those of its value
        have htake : (bytes.take width).length = width := by
          rw [List.length_take]; omega
        have hput : putLE width (getLE (bytes.take width)) = bytes.take width := by
          have hround := putLE_getLE (bytes.take width)
          rwa [htake] at hround
        refine ⟨by simp [hcount], ?_, ?_⟩
        · intro f hf
          rw [List.zip_cons_cons, List.mem_cons] at hf
          rcases hf with rfl | hf
          · have hlt := getLE_lt (bytes.take width)
            rwa [htake] at hlt
          · exact hfit f hf
        · rw [List.zip_cons_cons, putFields, hput, List.append_assoc, ← hbytes,
            List.take_append_drop]

/-- The fields of an array of integers of one width. -/
def arrayFields (width : ℕ) (values : List ℕ) : List (ℕ × ℕ) := values.map fun v => (width, v)

theorem readArray_putFields (width : ℕ) (values : List ℕ) (h : ∀ v ∈ values, v < 256 ^ width)
    (rest : Bytes) :
    readArray width values.length (putFields (arrayFields width values) ++ rest) =
      some (values, rest) := by
  have hfst : (arrayFields width values).map Prod.fst = List.replicate values.length width := by
    simp [arrayFields, List.map_map, Function.comp_def]
  have hsnd : (arrayFields width values).map Prod.snd = values := by
    simp [arrayFields, List.map_map, Function.comp_def]
  have hfit : FieldsFit (arrayFields width values) := by
    intro f hf
    obtain ⟨v, hv, rfl⟩ := List.mem_map.mp hf
    exact h v hv
  have hlen : ¬(putFields (arrayFields width values) ++ rest).length < width * values.length := by
    rw [List.length_append, length_putFields, hfst, List.sum_replicate, smul_eq_mul, mul_comm]
    omega
  rw [readArray, if_neg hlen, ← hfst, readFields_putFields _ hfit, hsnd]

theorem putFields_of_readArray {width count : ℕ} {bytes rest : Bytes} {values : List ℕ}
    (h : readArray width count bytes = some (values, rest)) :
    values.length = count ∧ (∀ v ∈ values, v < 256 ^ width) ∧
      bytes = putFields (arrayFields width values) ++ rest := by
  rw [readArray] at h
  split at h
  · cases h
  · obtain ⟨hcount, hfit, hbytes⟩ := putFields_of_readFields h
    rw [List.length_replicate] at hcount
    have hzip : (List.replicate count width).zip values = arrayFields width values := by
      rw [← hcount]
      clear * -
      induction values with
      | nil => rfl
      | cons v values ih => simpa [List.replicate_succ, arrayFields] using ih
    rw [hzip] at hfit hbytes
    exact ⟨hcount, fun v hv => hfit (width, v) (List.mem_map.mpr ⟨v, hv, rfl⟩), hbytes⟩

theorem length_putFields_arrayFields (width : ℕ) (values : List ℕ) :
    (putFields (arrayFields width values)).length = width * values.length := by
  rw [length_putFields]
  have hfst : (arrayFields width values).map Prod.fst = List.replicate values.length width := by
    simp [arrayFields, List.map_map, Function.comp_def]
  rw [hfst, List.sum_replicate, smul_eq_mul, mul_comm]

end Codec

/-- An encoder and a decoder that agree: `decode` undoes `encode` whatever follows, and accepts
nothing but encodings of valid values. -/
structure PrefixCodec (α : Type) where
  encode : α → Bytes
  decode : Bytes → Option (α × Bytes)
  Valid : α → Prop
  encode_ne_nil : ∀ a, encode a ≠ []
  decode_encode : ∀ a rest, Valid a → decode (encode a ++ rest) = some (a, rest)
  encode_of_decode : ∀ {bytes a rest}, decode bytes = some (a, rest) →
    Valid a ∧ bytes = encode a ++ rest

namespace PrefixCodec

variable {α : Type} (c : PrefixCodec α)

theorem length_rest_lt {bytes rest : Bytes} {a : α} (h : c.decode bytes = some (a, rest)) :
    rest.length < bytes.length := by
  obtain ⟨_, rfl⟩ := c.encode_of_decode h
  have hpos := List.length_pos_iff.mpr (c.encode_ne_nil a)
  rw [List.length_append]
  omega

/-- A proper prefix of an encoding is rejected: otherwise the encoding it starts would decode to
two different values. -/
theorem decode_eq_none_of_prefix {a : α} {p q : Bytes} (ha : c.Valid a)
    (h : c.encode a = p ++ q) (hq : q ≠ []) : c.decode p = none := by
  cases hp : c.decode p with
  | none => rfl
  | some r =>
    obtain ⟨b, rest⟩ := r
    obtain ⟨hb, rfl⟩ := c.encode_of_decode hp
    have hwhole := c.decode_encode a [] ha
    rw [List.append_nil, h, List.append_assoc, c.decode_encode b _ hb] at hwhole
    simp only [Option.some.injEq, Prod.mk.injEq, List.append_eq_nil_iff] at hwhole
    exact absurd hwhole.2.2 hq

theorem decode_eq_none_of_lt {a : α} (ha : c.Valid a) {n : ℕ} (hn : n < (c.encode a).length) :
    c.decode ((c.encode a).take n) = none := by
  refine c.decode_eq_none_of_prefix ha (List.take_append_drop n _).symm ?_
  intro hnil
  have hlen := congrArg List.length hnil
  rw [List.length_drop, List.length_nil] at hlen
  omega

/-- The encodings of a list of values, one after the other. -/
def encodeAll (as : List α) : Bytes := as.flatMap c.encode

@[simp] theorem encodeAll_nil : c.encodeAll [] = [] := rfl

@[simp] theorem encodeAll_cons (a : α) (as : List α) :
    c.encodeAll (a :: as) = c.encode a ++ c.encodeAll as := rfl

@[simp] theorem encodeAll_append (as bs : List α) :
    c.encodeAll (as ++ bs) = c.encodeAll as ++ c.encodeAll bs := by
  simp [encodeAll]

/-- Decode at most `fuel` values, stopping at the first position that is rejected. -/
def decodeUpTo : ℕ → Bytes → List α
  | 0, _ => []
  | fuel + 1, bytes =>
    match c.decode bytes with
    | none => []
    | some (a, rest) => a :: decodeUpTo fuel rest

/-- Decode until the decoder rejects. Every value takes at least one byte, so the length of the
input bounds the number of steps. -/
def decodeAll (bytes : Bytes) : List α := c.decodeUpTo bytes.length bytes

theorem decodeUpTo_eq {m n : ℕ} {bytes : Bytes} (hm : bytes.length ≤ m) (hn : bytes.length ≤ n) :
    c.decodeUpTo m bytes = c.decodeUpTo n bytes := by
  induction m generalizing n bytes with
  | zero =>
    have hnil : bytes = [] := List.length_eq_zero_iff.mp (by omega)
    subst hnil
    have hdec : c.decode [] = none := by
      cases h : c.decode [] with
      | none => rfl
      | some r => simpa using c.length_rest_lt h
    cases n with
    | zero => rfl
    | succ n => simp [decodeUpTo, hdec]
  | succ m ih =>
    cases n with
    | zero =>
      have hnil : bytes = [] := List.length_eq_zero_iff.mp (by omega)
      subst hnil
      have hdec : c.decode [] = none := by
        cases h : c.decode [] with
        | none => rfl
        | some r => simpa using c.length_rest_lt h
      simp [decodeUpTo, hdec]
    | succ n =>
      cases h : c.decode bytes with
      | none => simp [decodeUpTo, h]
      | some r =>
        obtain ⟨a, rest⟩ := r
        -- what is left is shorter, so both bounds still reach
        have hlt := c.length_rest_lt h
        simp only [decodeUpTo, h]
        rw [ih (n := n) (by omega) (by omega)]

theorem decodeAll_eq_nil {bytes : Bytes} (h : c.decode bytes = none) : c.decodeAll bytes = [] := by
  unfold decodeAll
  cases bytes.length with
  | zero => rfl
  | succ n => simp [decodeUpTo, h]

theorem decodeAll_eq_cons {bytes rest : Bytes} {a : α} (h : c.decode bytes = some (a, rest)) :
    c.decodeAll bytes = a :: c.decodeAll rest := by
  have hlt := c.length_rest_lt h
  obtain ⟨n, hn⟩ : ∃ n, bytes.length = n + 1 := ⟨bytes.length - 1, by omega⟩
  unfold decodeAll
  rw [hn]
  simp only [decodeUpTo, h]
  rw [@decodeUpTo_eq _ c n rest.length _ (by omega) le_rfl]

theorem decode_eq_none_of_decodeAll {bytes : Bytes} (h : c.decodeAll bytes = []) :
    c.decode bytes = none := by
  cases hd : c.decode bytes with
  | none => rfl
  | some r =>
    obtain ⟨a, rest⟩ := r
    rw [c.decodeAll_eq_cons hd] at h
    cases h

theorem valid_of_mem_decodeAll {bytes : Bytes} {a : α} (h : a ∈ c.decodeAll bytes) :
    c.Valid a := by
  unfold decodeAll at h
  generalize bytes.length = n at h
  induction n generalizing bytes with
  | zero => simp [decodeUpTo] at h
  | succ n ih =>
    simp only [decodeUpTo] at h
    split at h
    · simp at h
    · next b rest hd =>
      rcases List.mem_cons.mp h with rfl | h
      · exact (c.encode_of_decode hd).1
      · exact ih h

/-- Complete encodings at the front are read in order; the tail decides the rest. -/
theorem decodeAll_encodeAll_append {as : List α} (h : ∀ a ∈ as, c.Valid a) (tail : Bytes) :
    c.decodeAll (c.encodeAll as ++ tail) = as ++ c.decodeAll tail := by
  induction as with
  | nil => rfl
  | cons a as ih =>
    have hdec := c.decode_encode a (c.encodeAll as ++ tail) (h a List.mem_cons_self)
    rw [encodeAll_cons, List.append_assoc, c.decodeAll_eq_cons hdec,
      ih fun b hb => h b (List.mem_cons_of_mem _ hb)]
    rfl

theorem decodeAll_encodeAll {as : List α} (h : ∀ a ∈ as, c.Valid a) :
    c.decodeAll (c.encodeAll as) = as := by
  have hnil : c.decodeAll [] = [] := rfl
  simpa [hnil] using c.decodeAll_encodeAll_append h []

/-- Every byte string is the encodings of the values read from it, followed by bytes the decoder
rejects. -/
theorem exists_tail (bytes : Bytes) :
    ∃ tail, bytes = c.encodeAll (c.decodeAll bytes) ++ tail ∧ c.decode tail = none := by
  induction hn : bytes.length using Nat.strong_induction_on generalizing bytes with
  | _ n ih =>
    cases hd : c.decode bytes with
    | none => exact ⟨bytes, by rw [c.decodeAll_eq_nil hd]; rfl, hd⟩
    | some r =>
      obtain ⟨a, rest⟩ := r
      obtain ⟨_, hbytes⟩ := c.encode_of_decode hd
      obtain ⟨tail, hrest, htail⟩ := ih rest.length (hn ▸ c.length_rest_lt hd) rest rfl
      refine ⟨tail, ?_, htail⟩
      rw [c.decodeAll_eq_cons hd, encodeAll_cons, List.append_assoc, ← hrest, ← hbytes]

/-- **Truncation law.** A log that was cut short reads as the first of its values. -/
theorem decodeAll_prefix {p q : Bytes} (h : p <+: q) : c.decodeAll p <+: c.decodeAll q := by
  obtain ⟨more, rfl⟩ := h
  obtain ⟨tail, hp, _⟩ := c.exists_tail p
  have hvalid : ∀ a ∈ c.decodeAll p, c.Valid a := fun _ => c.valid_of_mem_decodeAll
  have hwhole : c.decodeAll (p ++ more) = c.decodeAll p ++ c.decodeAll (tail ++ more) := by
    conv_lhs => rw [hp, List.append_assoc]
    exact c.decodeAll_encodeAll_append hvalid _
  rw [hwhole]
  exact List.prefix_append _ _

/-- The values at the front whose encodings fit in `n` bytes. -/
def fitting : ℕ → List α → List α
  | _, [] => []
  | n, a :: as =>
    if (c.encode a).length ≤ n then a :: fitting (n - (c.encode a).length) as else []

theorem fitting_prefix (n : ℕ) (as : List α) : c.fitting n as <+: as := by
  induction as generalizing n with
  | nil => exact List.nil_prefix
  | cons a as ih =>
    rw [fitting]
    split
    · exact List.cons_prefix_cons.mpr ⟨rfl, ih _⟩
    · exact List.nil_prefix

theorem length_encodeAll_fitting (n : ℕ) (as : List α) :
    (c.encodeAll (c.fitting n as)).length ≤ n := by
  induction as generalizing n with
  | nil => exact Nat.zero_le n
  | cons a as ih =>
    rw [fitting]
    split
    · next hfits =>
      have hrest := ih (n - (c.encode a).length)
      rw [encodeAll_cons, List.length_append]
      omega
    · exact Nat.zero_le n

/-- No longer prefix fits. -/
theorem prefix_fitting {n : ℕ} {as front : List α} (hfront : front <+: as)
    (hfits : (c.encodeAll front).length ≤ n) : front <+: c.fitting n as := by
  induction as generalizing n front with
  | nil => exact hfront
  | cons a as ih =>
    cases front with
    | nil => exact List.nil_prefix
    | cons b front =>
      obtain ⟨rfl, hrest⟩ := List.cons_prefix_cons.mp hfront
      rw [encodeAll_cons, List.length_append] at hfits
      rw [fitting, if_pos (by omega)]
      exact List.cons_prefix_cons.mpr ⟨rfl, ih hrest (by omega)⟩

/-- A log cut at any byte reads as the values whose encodings are complete. -/
theorem decodeAll_take_encodeAll {as : List α} (h : ∀ a ∈ as, c.Valid a) (n : ℕ) :
    c.decodeAll ((c.encodeAll as).take n) = c.fitting n as := by
  induction as generalizing n with
  | nil =>
    rw [encodeAll_nil, List.take_nil]
    rfl
  | cons a as ih =>
    have ha := h a List.mem_cons_self
    rw [encodeAll_cons, fitting]
    split
    · next hfits =>
      rw [List.take_append, List.take_of_length_le hfits,
        c.decodeAll_eq_cons (c.decode_encode a _ ha), ih fun b hb => h b (List.mem_cons_of_mem _ hb)]
    · next hcut =>
      rw [List.take_append_of_le_length (by omega)]
      exact c.decodeAll_eq_nil (c.decode_eq_none_of_lt ha (not_le.mp hcut))

end PrefixCodec
