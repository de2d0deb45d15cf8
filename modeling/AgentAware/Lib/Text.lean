import Mathlib.Algebra.Order.Ring.Unbundled.Rat
import Mathlib.Data.List.DropRight
import Mathlib.Data.List.Infix
import Mathlib.Tactic.Common

/-!
# Scanning text

Text is a list of characters. Readers of hand-written formats look for the first place where a
pattern occurs, drop white space, and take digits; writers print decimal numbers. A text whose
quotes are known is a chain of pieces without quotes, and a quoted key is found where a piece is
that key.

## Main definitions

- `Text.find` — the text from the first occurrence of a pattern on
- `Text.literal`, `Text.digits` — steps of a scanner
- `Text.cut` — a text as what stands before and behind the first occurrence of a pattern
- `Text.trim`, `Text.lines`, `Text.unlines` — white space at both ends, and lines
- `Text.decimal` — a decimal number with a fraction and an exponent
- `Text.joinQuoted`, `Text.findPiece` — a text as its pieces between quotes

## Main results

- `Text.find_skip`, `Text.find_joinQuoted` — where a pattern is found
- `Text.digits_toDigits` — a printed number is read back
- `Text.cut_append`, `Text.lines_unlines` — a text is cut where it was put together
-/

abbrev Text := List Char

namespace Text

/-- `std::isspace` in the classic locale. -/
def isSpace (c : Char) : Bool := c == ' ' || (9 ≤ c.toNat && c.toNat ≤ 13)

/-- The text from the first occurrence of a pattern on. -/
def find (pattern : Text) : Text → Option Text
  | [] => if pattern.isEmpty then some [] else none
  | c :: text => if pattern.isPrefixOf (c :: text) then some (c :: text) else find pattern text

/-- What follows a prefix. -/
def literal (pattern text : Text) : Option Text :=
  if pattern.isPrefixOf text then some (text.drop pattern.length) else none

def spaces (text : Text) : Text := text.dropWhile isSpace

/-- One digit or more, as far as they go. -/
def digits (text : Text) : Option (Text × Text) :=
  let taken := text.takeWhile Char.isDigit
  if taken.isEmpty then none else some (taken, text.dropWhile Char.isDigit)

/-- A minus sign, if there is one. -/
def sign : Text → Bool × Text
  | [] => (false, [])
  | c :: text => if c = '-' then (true, text) else (false, c :: text)

/-- The number that digits stand for. -/
def number (digits : Text) : ℕ := Nat.ofDigitChars 10 digits 0

/-- A sign, if there is one; `true` is a minus. -/
def plusMinus : Text → Bool × Text
  | [] => (false, [])
  | c :: text => if c = '-' then (true, text) else if c = '+' then (false, text)
      else (false, c :: text)

/-- What stands before and behind the first occurrence of a pattern. -/
def cut (pattern : Text) : Text → Option (Text × Text)
  | [] => if pattern.isEmpty then some ([], []) else none
  | c :: text =>
    if pattern.isPrefixOf (c :: text) then some ([], (c :: text).drop pattern.length)
    else (cut pattern text).map fun parts => (c :: parts.1, parts.2)

/-- Drop characters of a kind at both ends. -/
def trim (kind : Char → Bool) (text : Text) : Text := (text.dropWhile kind).rdropWhile kind

/-- The lines of a text, without what ends them. -/
def lines : Text → List Text
  | [] => []
  | c :: text =>
    if c = '\n' then [] :: lines text
    else match lines text with
      | [] => [[c]]
      | line :: rest => (c :: line) :: rest

/-- Lines, each ended. -/
def unlines (lines : List Text) : Text := lines.flatMap fun line => line ++ ['\n']

/-- An exponent, if there is one. -/
def exponent : Text → ℤ × Text
  | [] => (0, [])
  | c :: text =>
    if c = 'e' ∨ c = 'E' then
      match digits (plusMinus text).2 with
      | some (taken, rest) => (if (plusMinus text).1 then -number taken else number taken, rest)
      | none => (0, c :: text)
    else (0, c :: text)

/-- A decimal number: a sign, digits, a fraction, an exponent; exact. -/
def decimal (text : Text) : Option (ℚ × Text) :=
  let (minus, text) := plusMinus text
  let whole := text.takeWhile Char.isDigit
  let (fraction, text) := match text.dropWhile Char.isDigit with
    | '.' :: rest => (rest.takeWhile Char.isDigit, rest.dropWhile Char.isDigit)
    | rest => ([], rest)
  if whole.isEmpty && fraction.isEmpty then none
  else
    let (power, rest) := exponent text
    let mantissa : ℚ := number (whole ++ fraction)
    let value := mantissa * (10 : ℚ) ^ (power - fraction.length)
    some (if minus then -value else value, rest)

/-- A chain of pieces, each behind a quote. -/
def joinQuoted : List Text → Text
  | [] => []
  | piece :: pieces => '"' :: piece ++ joinQuoted pieces

/-- The pieces from the first one on that is a key between two quotes. -/
def findPiece (key : Text) : List Text → Option (List Text)
  | piece :: next :: pieces =>
    if piece = key then some (piece :: next :: pieces) else findPiece key (next :: pieces)
  | _ => none

variable {pattern text rest : Text} {p c : Char}

@[simp] theorem literal_append (pattern text : Text) :
    literal pattern (pattern ++ text) = some text := by
  simp [literal]

theorem find_cons_of_ne (h : c ≠ p) : find (p :: pattern) (c :: text) = find (p :: pattern) text := by
  rw [find, if_neg]
  simp [List.isPrefixOf, Ne.symm h]

/-- A pattern is not found in text without its first character. -/
theorem find_skip {skipped : Text} (h : p ∉ skipped) :
    find (p :: pattern) (skipped ++ text) = find (p :: pattern) text := by
  induction skipped with
  | nil => rfl
  | cons c skipped ih =>
    rw [List.mem_cons, not_or] at h
    rw [List.cons_append, find_cons_of_ne (Ne.symm h.1), ih h.2]

variable (text) in
/-- A pattern that neither starts in the skipped text nor reaches over its end is not found there. -/
theorem find_skip_of {skipped : Text}
    (h : ∀ tail ∈ skipped.tails, tail = [] ∨ ¬pattern <+: tail ∧ ¬tail <+: pattern) :
    find pattern (skipped ++ text) = find pattern text := by
  induction skipped with
  | nil => rfl
  | cons c skipped ih =>
    rw [List.tails_cons] at h
    have hrest := ih fun tail htail => h tail (List.mem_cons_of_mem _ htail)
    obtain hnil | ⟨hstart, hover⟩ := h (c :: skipped) List.mem_cons_self
    · cases hnil
    · have hnot : ¬pattern <+: c :: skipped ++ text := fun hpre =>
        (List.prefix_or_prefix_of_prefix hpre (List.prefix_append _ text)).elim hstart hover
      rw [List.cons_append, find, if_neg (by simpa [List.isPrefixOf_iff_prefix] using hnot), hrest]

theorem find_self (pattern text : Text) : find (p :: pattern) (p :: pattern ++ text) =
    some (p :: pattern ++ text) := by
  rw [List.cons_append, find, if_pos]
  simp [List.isPrefixOf_iff_prefix]

/-- Two pieces without quotes that stand before a quote each are the same, or neither text starts
like the other. -/
theorem quoted_prefix_iff {key piece : Text} (hkey : '"' ∉ key) (hpiece : '"' ∉ piece) :
    key ++ ['"'] <+: piece ++ '"' :: text ↔ piece = key := by
  induction key generalizing piece with
  | nil =>
    cases piece with
    | nil => simp
    | cons c piece =>
      rw [List.mem_cons, not_or] at hpiece
      simp [List.cons_prefix_cons, hpiece.1]
  | cons k key ih =>
    rw [List.mem_cons, not_or] at hkey
    cases piece with
    | nil => simp [List.cons_prefix_cons, Ne.symm hkey.1]
    | cons c piece =>
      rw [List.mem_cons, not_or] at hpiece
      rw [List.cons_append, List.cons_append, List.cons_prefix_cons, ih hkey.2 hpiece.2,
        List.cons.injEq, eq_comm (a := k)]

/-- A quoted key is found where a piece between two quotes is that key. -/
theorem find_joinQuoted {key : Text} (hkey : '"' ∉ key) {pieces : List Text}
    (hpieces : ∀ piece ∈ pieces, '"' ∉ piece) :
    find ('"' :: (key ++ ['"'])) (joinQuoted pieces) = (findPiece key pieces).map joinQuoted := by
  induction pieces with
  | nil => rfl
  | cons piece pieces ih =>
    have hpiece := hpieces piece List.mem_cons_self
    have hrest := ih fun q hq => hpieces q (List.mem_cons_of_mem _ hq)
    cases pieces with
    | nil =>
      have hnot : ¬key ++ ['"'] <+: piece := fun hpre =>
        hpiece (hpre.subset (by simp))
      rw [joinQuoted, joinQuoted, List.append_nil, find, if_neg (by simp [hnot]), findPiece]
      · have hskip : find ('"' :: (key ++ ['"'])) (piece ++ []) = find ('"' :: (key ++ ['"'])) [] :=
          find_skip hpiece
        rw [List.append_nil] at hskip
        rw [hskip]
        rfl
      · simp
    | cons next pieces =>
      have hsame : key ++ ['"'] <+: piece ++ joinQuoted (next :: pieces) ↔ piece = key :=
        quoted_prefix_iff hkey hpiece
      rw [joinQuoted, List.cons_append, find, findPiece]
      by_cases heq : piece = key
      · rw [if_pos (by simpa using hsame.mpr heq), if_pos heq]
        rfl
      · rw [if_neg (by simp [hsame, heq]), if_neg heq, find_skip hpiece, hrest]

theorem spaces_append {blank : Text} (h : ∀ c ∈ blank, isSpace c = true) :
    spaces (blank ++ text) = spaces text :=
  List.dropWhile_append_of_pos h

theorem spaces_cons (h : isSpace c = false) : spaces (c :: text) = c :: text := by
  simp [spaces, h]

/-- A printed number is read back, when no digit follows it. -/
theorem digits_toDigits (n : ℕ) (h : c.isDigit = false) :
    digits (Nat.toDigits 10 n ++ c :: text) = some (Nat.toDigits 10 n, c :: text) := by
  have hall : ∀ d ∈ Nat.toDigits 10 n, d.isDigit = true := fun d hd =>
    Nat.isDigit_of_mem_toDigits (by decide) (by decide) hd
  have htake : (Nat.toDigits 10 n ++ c :: text).takeWhile Char.isDigit = Nat.toDigits 10 n := by
    rw [List.takeWhile_append_of_pos hall]
    simp [h]
  have hdrop : (Nat.toDigits 10 n ++ c :: text).dropWhile Char.isDigit = c :: text := by
    rw [List.dropWhile_append_of_pos hall]
    simp [h]
  rw [digits, htake, hdrop]
  simp [Nat.toDigits_ne_nil]

/-- The same at the end of the text. -/
theorem digits_toDigits_nil (n : ℕ) :
    digits (Nat.toDigits 10 n) = some (Nat.toDigits 10 n, []) := by
  have hall : ∀ d ∈ Nat.toDigits 10 n, d.isDigit = true := fun d hd =>
    Nat.isDigit_of_mem_toDigits (by decide) (by decide) hd
  rw [digits, List.takeWhile_eq_self_iff.mpr hall, List.dropWhile_eq_nil_iff.mpr hall]
  simp [Nat.toDigits_ne_nil]

/-- A printed number starts with a digit. -/
theorem exists_toDigits_eq_cons (n : ℕ) :
    ∃ d ds, Nat.toDigits 10 n = d :: ds ∧ d.isDigit = true := by
  cases hdigits : Nat.toDigits 10 n with
  | nil => exact absurd hdigits Nat.toDigits_ne_nil
  | cons d ds =>
    have hmem : d ∈ Nat.toDigits 10 n := by simp [hdigits]
    exact ⟨d, ds, rfl, Nat.isDigit_of_mem_toDigits (by decide) (by decide) hmem⟩

theorem plusMinus_of_isDigit (h : c.isDigit = true) : plusMinus (c :: text) = (false, c :: text) := by
  have hminus : c ≠ '-' := by
    rintro rfl
    cases h
  have hplus : c ≠ '+' := by
    rintro rfl
    cases h
  rw [plusMinus, if_neg hminus, if_neg hplus]

@[simp] theorem number_toDigits (n : ℕ) : number (Nat.toDigits 10 n) = n :=
  Nat.ofDigitChars_ten_toDigits

theorem not_mem_toDigits (n : ℕ) (h : c.isDigit = false) : c ∉ Nat.toDigits 10 n := by
  intro hc
  rw [Nat.isDigit_of_mem_toDigits (by decide) (by decide) hc] at h
  cases h

theorem cut_append {before after : Text} (h : p ∉ before) :
    cut (p :: pattern) (before ++ (p :: pattern ++ after)) = some (before, after) := by
  induction before with
  | nil =>
    rw [List.nil_append, List.cons_append, cut, if_pos (by simp [List.isPrefixOf_iff_prefix])]
    simp
  | cons c before ih =>
    rw [List.mem_cons, not_or] at h
    rw [List.cons_append, cut, if_neg (by simp [List.isPrefixOf, h.1]), ih h.2]
    rfl

theorem cut_skip {skipped : Text} (h : p ∉ skipped) :
    cut (p :: pattern) (skipped ++ text) =
      (cut (p :: pattern) text).map fun parts => (skipped ++ parts.1, parts.2) := by
  induction skipped with
  | nil => simp
  | cons c skipped ih =>
    rw [List.mem_cons, not_or] at h
    rw [List.cons_append, cut, if_neg (by simp [List.isPrefixOf, h.1]), ih h.2, Option.map_map]
    rfl

/-- A pattern is not found in text without its first character. -/
theorem cut_eq_none (h : p ∉ text) : cut (p :: pattern) text = none := by
  induction text with
  | nil => rfl
  | cons c text ih =>
    rw [List.mem_cons, not_or] at h
    rw [cut, if_neg (by simp [List.isPrefixOf, h.1]), ih h.2]
    rfl

theorem takeWhile_ne_self (h : c ∉ text) : text.takeWhile (· ≠ c) = text :=
  List.takeWhile_eq_self_iff.mpr fun _ hd => decide_eq_true fun heq => h (heq ▸ hd)

theorem takeWhile_ne_append (h : c ∉ text) : (text ++ c :: rest).takeWhile (· ≠ c) = text := by
  induction text with
  | nil => simp
  | cons d text ih =>
    rw [List.mem_cons, not_or] at h
    rw [List.cons_append, List.takeWhile_cons_of_pos (by simpa using Ne.symm h.1), ih h.2]

theorem trim_self {kind : Char → Bool} (h : ∀ c ∈ text, kind c = false) :
    trim kind text = text := by
  have hdrop : text.dropWhile kind = text := by
    cases text with
    | nil => rfl
    | cons c text => rw [List.dropWhile_cons_of_neg (by simp [h c])]
  rw [trim, hdrop, List.rdropWhile_eq_self_iff]
  exact fun hne => by simp [h _ (List.getLast_mem hne)]

/-- White space in front is dropped, up to a text that neither starts nor ends with any. -/
theorem trim_append {kind : Char → Bool} {blank front : Text} {first last : Char}
    (hblank : ∀ c ∈ blank, kind c = true) (hfirst : kind first = false)
    (hlast : kind last = false) (hends : first :: text = front ++ [last]) :
    trim kind (blank ++ first :: text) = first :: text := by
  rw [trim, List.dropWhile_append_of_pos hblank, List.dropWhile_cons_of_neg (by simp [hfirst]),
    hends, List.rdropWhile_concat_neg _ _ _ (by simp [hlast])]

theorem lines_append {line : Text} (h : '\n' ∉ line) (rest : Text) :
    lines (line ++ '\n' :: rest) = line :: lines rest := by
  induction line with
  | nil => simp [lines]
  | cons c line ih =>
    rw [List.mem_cons, not_or] at h
    rw [List.cons_append, lines, if_neg (Ne.symm h.1), ih h.2]

/-- Lines that are ended are read back. -/
theorem lines_unlines {ls : List Text} (h : ∀ line ∈ ls, '\n' ∉ line) :
    lines (unlines ls) = ls := by
  induction ls with
  | nil => rfl
  | cons line ls ih =>
    have hrest := ih fun other hother => h other (List.mem_cons_of_mem _ hother)
    rw [unlines, List.flatMap_cons, List.append_assoc, List.singleton_append,
      lines_append (h line List.mem_cons_self)]
    exact congrArg _ hrest

theorem findPiece_self (key next : Text) (pieces : List Text) :
    findPiece key (key :: next :: pieces) = some (key :: next :: pieces) := if_pos rfl

theorem findPiece_of_ne {key piece : Text} (h : piece ≠ key) (next : Text) (pieces : List Text) :
    findPiece key (piece :: next :: pieces) = findPiece key (next :: pieces) := if_neg h

/-- A piece with a character that the key lacks is not the key. -/
theorem ne_of_mem {key piece : Text} (h : c ∈ piece) (hkey : c ∉ key) : piece ≠ key := by
  rintro rfl
  exact hkey h

end Text
