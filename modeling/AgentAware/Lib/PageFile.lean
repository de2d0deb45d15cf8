import AgentAware.Lib.Codec
import Mathlib.Data.List.Induction

/-!
# Files written at offsets

A file is the list of its bytes. A write at an offset replaces what is there, and fills the gap with
zeros when it starts behind the end; a read that does not find all its bytes is short. A file that
is only written in pages is, slot by slot, the last page written there.

## Main definitions

- `pwrite`, `readAt` — a write and a read at an offset
- `transfer`, `pread` — what one system call reads, and a read that is a single call
- `lastPage` — the last page written to a slot

## Main results

- `readAt_pwrite_self`, `readAt_pwrite_disjoint`, `readAt_pwrite_hole` — a read after a write
- `readAt_writePages` — a slot of a file written in pages
- `pread_eq_readAt` — when one call is enough
-/

/-- Write at an offset; a gap behind the end of the file reads as zeros. -/
def pwrite (file : Bytes) (offset : ℕ) (data : Bytes) : Bytes :=
  let padded := file ++ List.replicate (offset - file.length) 0
  padded.take offset ++ (data ++ padded.drop (offset + data.length))

/-- Read `count` bytes at an offset, or nothing when the file ends before. -/
def readAt (file : Bytes) (offset count : ℕ) : Option Bytes :=
  if offset + count ≤ file.length then some ((file.drop offset).take count) else none

/-- The most that Linux reads in one call. -/
def maxTransfer : ℕ := 0x7ffff000

/-- What one call reads when nothing interrupts it. -/
def transfer (file : Bytes) (offset count : ℕ) : Bytes :=
  (file.drop offset).take (min count maxTransfer)

/-- Read `count` bytes in one call, or nothing when it falls short of them. -/
def pread (file : Bytes) (offset count : ℕ) : Option Bytes :=
  if (transfer file offset count).length = count then some (transfer file offset count) else none

section

variable {file data : Bytes} {offset offset' count : ℕ}

theorem length_transfer (file : Bytes) (offset count : ℕ) :
    (transfer file offset count).length = min (min count maxTransfer) (file.length - offset) := by
  rw [transfer, List.length_take, List.length_drop]

theorem length_transfer_le (file : Bytes) (offset count : ℕ) :
    (transfer file offset count).length ≤ count := by
  rw [length_transfer]
  omega

theorem lt_of_le_maxTransfer (h : count ≤ maxTransfer) : count < 2 ^ 31 :=
  lt_of_le_of_lt h (by decide)

theorem le_maxTransfer_of_length (h : (transfer file offset count).length = count) :
    count ≤ maxTransfer := by
  rw [length_transfer] at h
  omega

theorem transfer_eq (h : count ≤ maxTransfer) :
    transfer file offset count = (file.drop offset).take count := by
  rw [transfer, min_eq_left h]

theorem pread_eq_readAt (h : count ≤ maxTransfer) (hcount : 0 < count) :
    pread file offset count = readAt file offset count := by
  rw [pread, readAt, transfer_eq h, List.length_take, List.length_drop]
  exact if_congr (by omega) rfl rfl

theorem pread_eq_none_of_large (h : maxTransfer < count) : pread file offset count = none :=
  if_neg fun hlength => absurd (le_maxTransfer_of_length hlength) (not_le.mpr h)

theorem pread_eq_none (h : file.length < offset + count) (hcount : 0 < count) :
    pread file offset count = none := by
  refine if_neg fun hlength => ?_
  rw [length_transfer] at hlength
  omega

theorem length_take_padded (file : Bytes) (offset : ℕ) :
    ((file ++ List.replicate (offset - file.length) (0 : UInt8)).take offset).length = offset := by
  rw [List.length_take, List.length_append, List.length_replicate]
  omega

@[simp] theorem length_pwrite (file : Bytes) (offset : ℕ) (data : Bytes) :
    (pwrite file offset data).length = max file.length (offset + data.length) := by
  rw [pwrite, List.length_append, List.length_append, length_take_padded, List.length_drop,
    List.length_append, List.length_replicate]
  omega

theorem readAt_eq_none (h : file.length < offset + count) : readAt file offset count = none :=
  if_neg (not_le.mpr h)

theorem readAt_pwrite_self (file : Bytes) (offset : ℕ) (data : Bytes) :
    readAt (pwrite file offset data) offset data.length = some data := by
  rw [readAt, if_pos (by rw [length_pwrite]; exact le_max_right _ _), pwrite,
    List.drop_left' (length_take_padded file offset), List.take_left]

/-- What is read before the write comes from the padded file. -/
theorem take_drop_pwrite_before (h : offset' + count ≤ offset) :
    ((pwrite file offset data).drop offset').take count =
      ((file ++ List.replicate (offset - file.length) 0).drop offset').take count := by
  have hlen := length_take_padded file offset
  rw [pwrite, List.drop_append_of_le_length (by omega),
    List.take_append_of_le_length (by rw [List.length_drop]; omega), List.drop_take,
    List.take_take, min_eq_left (by omega)]

theorem readAt_pwrite_disjoint (h : offset' + count ≤ offset ∨ offset + data.length ≤ offset')
    (hfile : offset' + count ≤ file.length) :
    readAt (pwrite file offset data) offset' count = readAt file offset' count := by
  rw [readAt, readAt, if_pos hfile, if_pos (by rw [length_pwrite]; omega)]
  congr 1
  rcases h with h | h
  · rw [take_drop_pwrite_before h, List.drop_append_of_le_length (by omega),
      List.take_append_of_le_length (by rw [List.length_drop]; omega)]
  · have hsplit : offset' = offset + (data.length + (offset' - (offset + data.length))) := by omega
    have hnone : offset - file.length = 0 := by omega
    rw [pwrite, hnone, List.replicate_zero, List.append_nil]
    conv_lhs => rw [hsplit]
    have hlen : (file.take offset).length = offset := by rw [List.length_take]; omega
    rw [← List.drop_drop, List.drop_left' hlen, ← List.drop_drop, List.drop_left, List.drop_drop]
    congr 2
    omega

theorem readAt_pwrite_hole (hfile : file.length ≤ offset') (h : offset' + count ≤ offset) :
    readAt (pwrite file offset data) offset' count = some (List.replicate count 0) := by
  rw [readAt, if_pos (by rw [length_pwrite]; omega), take_drop_pwrite_before h,
    List.drop_append, List.drop_eq_nil_of_le hfile, List.nil_append, List.drop_replicate,
    List.take_replicate, min_eq_left (by omega)]

end

section Pages

variable {size : ℕ}

/-- Write pages of one size to slots, one after the other. -/
def writePages (size : ℕ) (file : Bytes) (writes : List (ℕ × Bytes)) : Bytes :=
  writes.foldl (fun file write => pwrite file (write.1 * size) write.2) file

/-- The last page written to a slot. -/
def lastPage (writes : List (ℕ × Bytes)) (slot : ℕ) : Option Bytes :=
  ((writes.filter fun write => write.1 = slot).getLast?).map Prod.snd

/-- The slots up to the last one written. -/
def pageCount (writes : List (ℕ × Bytes)) : ℕ :=
  writes.foldl (fun count write => max count (write.1 + 1)) 0

theorem writePages_concat (file : Bytes) (writes : List (ℕ × Bytes)) (write : ℕ × Bytes) :
    writePages size file (writes ++ [write]) =
      pwrite (writePages size file writes) (write.1 * size) write.2 := by
  rw [writePages, List.foldl_append]
  rfl

theorem lastPage_concat (writes : List (ℕ × Bytes)) (write : ℕ × Bytes) (slot : ℕ) :
    lastPage (writes ++ [write]) slot =
      if write.1 = slot then some write.2 else lastPage writes slot := by
  by_cases h : write.1 = slot <;> simp [lastPage, List.filter_append, h]

theorem pageCount_concat (writes : List (ℕ × Bytes)) (write : ℕ × Bytes) :
    pageCount (writes ++ [write]) = max (pageCount writes) (write.1 + 1) := by
  rw [pageCount, List.foldl_append]
  rfl

theorem length_writePages {writes : List (ℕ × Bytes)}
    (hwrites : ∀ write ∈ writes, write.2.length = size) :
    (writePages size [] writes).length = pageCount writes * size := by
  induction writes using List.reverseRecOn with
  | nil => simp [writePages, pageCount]
  | append_singleton writes write ih =>
    rw [writePages_concat, length_pwrite, pageCount_concat, hwrites write (by simp),
      ih fun w hw => hwrites w (List.mem_append_left _ hw), ← Nat.succ_mul, ← Nat.mul_max_mul_right]

/-- A slot of a file that was empty and written in pages: the last page written there, zeros if
only later slots were written, and nothing behind the end. -/
theorem readAt_writePages (hsize : 0 < size) {writes : List (ℕ × Bytes)}
    (hwrites : ∀ write ∈ writes, write.2.length = size) (slot : ℕ) :
    readAt (writePages size [] writes) (slot * size) size =
      match lastPage writes slot with
      | some page => some page
      | none => if slot < pageCount writes then some (List.replicate size 0) else none := by
  induction writes using List.reverseRecOn with
  | nil =>
    simp [writePages, readAt, lastPage, pageCount, hsize.ne']
  | append_singleton writes write ih =>
    have hpages := fun w hw => hwrites w (List.mem_append_left [write] hw)
    have hpage : write.2.length = size := hwrites write (by simp)
    have hlength : (writePages size [] writes).length = pageCount writes * size :=
      length_writePages hpages
    rw [writePages_concat, lastPage_concat, pageCount_concat]
    by_cases hslot : write.1 = slot
    · rw [if_pos hslot, ← hslot]
      have hself := readAt_pwrite_self (writePages size [] writes) (write.1 * size) write.2
      rwa [hpage] at hself
    · rw [if_neg hslot]
      by_cases hin : slot < pageCount writes
      · -- A slot that exists already keeps its page.
        have hfile : (slot + 1) * size ≤ pageCount writes * size := Nat.mul_le_mul_right _ hin
        have hapart : (slot + 1) * size ≤ write.1 * size ∨ (write.1 + 1) * size ≤ slot * size :=
          (lt_or_gt_of_ne (Ne.symm hslot)).imp (Nat.mul_le_mul_right _) (Nat.mul_le_mul_right _)
        rw [Nat.succ_mul] at hfile hapart
        rw [Nat.succ_mul] at hapart
        rw [readAt_pwrite_disjoint (by rwa [hpage]) (by rwa [hlength]), ih hpages, if_pos hin,
          if_pos (lt_max_of_lt_left hin)]
      · have hnone : lastPage writes slot = none := by
          cases hlast : lastPage writes slot with
          | none => rfl
          | some page =>
            have hread := ih hpages
            rw [hlast, readAt_eq_none (by
              have := Nat.mul_le_mul_right size (not_lt.mp hin)
              omega)] at hread
            exact absurd hread (by simp)
        rw [hnone]
        by_cases hbefore : slot < write.1
        · -- The write leaves a hole in front of it.
          have hfile := Nat.mul_le_mul_right size (not_lt.mp hin)
          have hhole : (slot + 1) * size ≤ write.1 * size := Nat.mul_le_mul_right _ hbefore
          rw [Nat.succ_mul] at hhole
          have hcount : slot < max (pageCount writes) (write.1 + 1) :=
            lt_max_of_lt_right (by omega)
          rw [readAt_pwrite_hole (by omega) hhole, if_pos hcount]
        · have hcount : max (pageCount writes) (write.1 + 1) ≤ slot :=
            max_le (not_lt.mp hin) (by omega)
          have hfile := Nat.mul_le_mul_right size hcount
          rw [if_neg (not_lt.mpr hcount), readAt_eq_none]
          rw [length_pwrite, hlength, hpage, ← Nat.succ_mul, Nat.mul_max_mul_right]
          change max (pageCount writes) (write.1 + 1) * size < _
          omega

end Pages

/-! ### Reading a page -/

/-- The integer stored little-endian in the `width` bytes at an offset. -/
def fieldAt (page : Bytes) (offset width : ℕ) : ℕ := Codec.getLE ((page.drop offset).take width)

theorem fieldAt_putFields (before after : List (ℕ × ℕ)) {width value : ℕ} (rest : Bytes)
    (h : value < 256 ^ width) :
    fieldAt (Codec.putFields (before ++ (width, value) :: after) ++ rest)
      (before.map Prod.fst).sum width = value := by
  have hsplit : Codec.putFields (before ++ (width, value) :: after) ++ rest =
      Codec.putFields before ++
        (Codec.putLE width value ++ (Codec.putFields after ++ rest)) := by
    induction before with
    | nil => simp [Codec.putFields]
    | cons field before ih =>
      rw [List.cons_append, Codec.putFields, List.append_assoc, ih, Codec.putFields,
        List.append_assoc]
  rw [fieldAt, hsplit, List.drop_left' (Codec.length_putFields before),
    List.take_left' (Codec.length_putLE width value), Codec.getLE_putLE_of_lt h]

/-- `count` integers of `width` bytes each, stored one after the other from an offset on. -/
def arrayAt (page : Bytes) (offset width count : ℕ) : List ℕ :=
  (List.range count).map fun i => fieldAt page (offset + width * i) width

theorem arrayAt_putFields (before : Bytes) {width : ℕ} {values : List ℕ}
    (h : ∀ v ∈ values, v < 256 ^ width) (rest : Bytes) :
    arrayAt (before ++ (Codec.putFields (Codec.arrayFields width values) ++ rest)) before.length
      width values.length = values := by
  refine List.ext_getElem (by rw [arrayAt, List.length_map, List.length_range]) fun i _ hi' => ?_
  have hsplit : Codec.arrayFields width values =
      Codec.arrayFields width (values.take i) ++
        (width, values[i]) :: Codec.arrayFields width (values.drop (i + 1)) := by
    conv_lhs => rw [← List.take_append_drop i values, List.drop_eq_getElem_cons hi']
    rw [Codec.arrayFields, List.map_append, List.map_cons]
    rfl
  have hsum : ((Codec.arrayFields width (values.take i)).map Prod.fst).sum = width * i := by
    rw [← Codec.length_putFields, Codec.length_putFields_arrayFields, List.length_take,
      min_eq_left hi'.le]
  have hfield := fieldAt_putFields (Codec.arrayFields width (values.take i))
    (Codec.arrayFields width (values.drop (i + 1))) rest (h values[i] (List.getElem_mem hi'))
  rw [hsum, ← hsplit] at hfield
  have hentry : (arrayAt (before ++ (Codec.putFields (Codec.arrayFields width values) ++ rest))
      before.length width values.length)[i] = fieldAt (before ++
        (Codec.putFields (Codec.arrayFields width values) ++ rest)) (before.length + width * i)
        width := by
    simp [arrayAt]
  rw [hentry, fieldAt, List.drop_length_add_append]
  exact hfield

/-- A copy into a zeroed page right behind what was copied before. -/
theorem pwrite_append_replicate (front data : Bytes) (room : ℕ) :
    pwrite (front ++ List.replicate room 0) front.length data =
      (front ++ data) ++ List.replicate (room - data.length) 0 := by
  have hpad : front.length - (front ++ List.replicate room (0 : UInt8)).length = 0 := by
    rw [List.length_append]
    omega
  rw [pwrite, hpad, List.replicate_zero, List.append_nil, List.take_left,
    List.drop_length_add_append, List.drop_replicate, List.append_assoc]
