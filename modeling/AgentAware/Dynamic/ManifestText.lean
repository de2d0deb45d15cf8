import AgentAware.Dynamic.Manifest
import AgentAware.Lib.Text

/-!
# The text of the manifest

`Manifest::save` prints the manifest by hand, escaping quotes and backslashes in base paths.
`Manifest::load` takes each counter after the first place where its quoted key occurs, and finds
the entries with a regular expression whose base path is anything without a quote. It never undoes
the escapes, and a base path can be taken for the key `wal_checkpoint`.

Text is a list of characters; a `std::string` is one whose characters are bytes.

## Main definitions

- `Manifest.savedText` — what `save` writes
- `Manifest.loadText` — what `load` reads
- `Manifest.KeptByText` — the base paths that survive

## Main results

- `Manifest.loadText_savedText_iff` — when a saved manifest is loaded back
-/

namespace Dynamic.Manifest

open Text

/-- Why `load` gives no manifest: it returns false, or `std::stoull` or `std::stoi` throws. -/
inductive LoadError
  | rejected
  | outOfRange
  deriving DecidableEq, Repr

def signed (negative : Bool) (n : ℕ) : ℤ := if negative then -n else n

/-- A decimal `std::int64_t` at the front, as `std::from_chars` reads it. -/
def fromChars (text : Text) : Option ℤ :=
  match digits (sign text).2 with
  | none => none
  | some (taken, _) =>
    let value := signed (sign text).1 (number taken)
    if -2 ^ 63 ≤ value ∧ value < 2 ^ 63 then some value else none

/-- The integer behind the first colon. -/
def integerAfterColon (text : Text) : Option ℤ :=
  match find [':'] text with
  | some (_ :: rest) => fromChars (spaces rest)
  | _ => none

def parseJsonInteger (text : Text) (key : Text) : Option ℤ :=
  (find ('"' :: (key ++ ['"'])) text).bind integerAfterColon

def escapeJsonString (value : Text) : Text :=
  value.flatMap fun c => if c == '\\' || c == '"' then ['\\', c] else [c]

/-- The groups of a match: the digits of the id, the sign and the digits of the level, and the base
path. -/
structure EntryMatch where
  id : Text
  negative : Bool
  level : Text
  base_path : Text
  deriving DecidableEq, Repr

/-- The entry pattern at the front of a text, with what follows the match. Where it repeats a class
of characters, a character outside that class comes next, so a repetition always takes all it can. -/
def matchEntry (text : Text) : Option (EntryMatch × Text) := do
  let text ← literal "\x7b".toList text
  let text ← literal "\"id\"".toList (spaces text)
  let text ← literal ":".toList (spaces text)
  let (id, text) ← digits (spaces text)
  let text ← literal ",".toList (spaces text)
  let text ← literal "\"level\"".toList (spaces text)
  let text ← literal ":".toList (spaces text)
  let (negative, text) := sign (spaces text)
  let (level, text) ← digits text
  let text ← literal ",".toList (spaces text)
  let text ← literal "\"base_path\"".toList (spaces text)
  let text ← literal ":".toList (spaces text)
  let text ← literal "\"".toList (spaces text)
  let base_path := text.takeWhile fun c => c != '"'
  let text ← literal "\"".toList (text.dropWhile fun c => c != '"')
  let text ← literal "\x7d".toList (spaces text)
  return (⟨id, negative, level, base_path⟩, text)

/-- The matches of `std::sregex_iterator`, leftmost first; `covered` characters still belong to the
match before. -/
def entryMatches : ℕ → Text → List EntryMatch
  | _, [] => []
  | covered + 1, _ :: text => entryMatches covered text
  | 0, c :: text =>
    match matchEntry (c :: text) with
    | none => entryMatches 0 text
    | some (found, rest) => found :: entryMatches (text.length - rest.length) text

/-- `std::stoull` and `std::stoi` of the groups. -/
def entryOfMatch (found : EntryMatch) : Except LoadError ManifestSSTableEntry :=
  let level := signed found.negative (number found.level)
  if number found.id < 2 ^ 64 ∧ -2 ^ 31 ≤ level ∧ level < 2 ^ 31 then
    .ok { id := number found.id, level := level, base_path := String.ofList found.base_path }
  else .error .outOfRange

def loadText (text : Text) : Except LoadError ManifestData :=
  match parseJsonInteger text "version".toList, parseJsonInteger text "next_sequence_id".toList,
    parseJsonInteger text "next_sstable_id".toList,
    parseJsonInteger text "wal_checkpoint".toList with
  | some version, some next_sequence, some next_sstable, some checkpoint =>
    if version = kManifestVersion ∧ 0 < next_sequence ∧ 0 < next_sstable ∧ 0 ≤ checkpoint then do
      let sstables ← (entryMatches 0 text).mapM entryOfMatch
      return { version := version.toNat
               next_sequence_id := next_sequence.toNat
               next_sstable_id := next_sstable.toNat
               wal_checkpoint := checkpoint.toNat
               sstables := sstables }
    else .error .rejected
  | _, _, _, _ => .error .rejected

def printNat (n : ℕ) : Text := Nat.toDigits 10 n

def printInt (n : ℤ) : Text := if n < 0 then '-' :: printNat n.natAbs else printNat n.natAbs

def entryText (entry : ManifestSSTableEntry) (last : Bool) : Text :=
  "    \x7b\n".toList ++
  "      \"id\": ".toList ++ printNat entry.id ++ ",\n".toList ++
  "      \"level\": ".toList ++ printInt entry.level ++ ",\n".toList ++
  "      \"base_path\": \"".toList ++ escapeJsonString entry.base_path.toList ++ "\"\n".toList ++
  "    \x7d".toList ++ (if last then "\n".toList else ",\n".toList)

def entriesText : List ManifestSSTableEntry → Text
  | [] => []
  | entry :: entries => entryText entry entries.isEmpty ++ entriesText entries

/-- What `save` writes. -/
def savedText (data : ManifestData) : Text :=
  "\x7b\n".toList ++
  "  \"version\": ".toList ++ printNat kManifestVersion ++ ",\n".toList ++
  "  \"next_sequence_id\": ".toList ++ printNat data.next_sequence_id ++ ",\n".toList ++
  "  \"next_sstable_id\": ".toList ++ printNat data.next_sstable_id ++ ",\n".toList ++
  "  \"sstables\": [\n".toList ++
  entriesText data.sstables ++
  "  ],\n".toList ++
  "  \"wal_checkpoint\": ".toList ++ printNat data.wal_checkpoint ++ "\n".toList ++
  "\x7d\n".toList

section Numbers

variable {c : Char} {text : Text}

theorem isDigit_of_mem_printNat {n : ℕ} (h : c ∈ printNat n) : c.isDigit = true :=
  Nat.isDigit_of_mem_toDigits (by decide) (by decide) h

/-- A printed number starts with a digit. -/
theorem printNat_cons (n : ℕ) : ∃ d ds, printNat n = d :: ds ∧ d.isDigit = true := by
  cases h : printNat n with
  | nil => exact absurd h Nat.toDigits_ne_nil
  | cons d ds => exact ⟨d, ds, rfl, isDigit_of_mem_printNat (h ▸ List.mem_cons_self)⟩

theorem isSpace_of_isDigit (h : c.isDigit = true) : isSpace c = false := by
  simp only [Char.isDigit, Bool.and_eq_true, decide_eq_true_eq, UInt32.le_iff_toNat_le] at h
  obtain ⟨hlow, hhigh⟩ := h
  have hlow' : 48 ≤ c.toNat := hlow
  have hspace : c ≠ ' ' := by
    rintro rfl
    exact absurd hlow' (by decide)
  simp only [isSpace, Bool.or_eq_false_iff, beq_eq_false_iff_ne, Bool.and_eq_false_iff,
    decide_eq_false_iff_not]
  exact ⟨hspace, .inr (by omega)⟩

theorem spaces_printNat (n : ℕ) (text : Text) : spaces (printNat n ++ text) = printNat n ++ text := by
  obtain ⟨d, ds, heq, hd⟩ := printNat_cons n
  rw [heq, List.cons_append, spaces_cons (isSpace_of_isDigit hd)]

theorem digits_printNat (n : ℕ) (h : c.isDigit = false) :
    digits (printNat n ++ c :: text) = some (printNat n, c :: text) := digits_toDigits n h

theorem sign_printNat (n : ℕ) (text : Text) : sign (printNat n ++ text) = (false, printNat n ++ text) := by
  obtain ⟨d, ds, heq, hd⟩ := printNat_cons n
  have hsign : d ≠ '-' := by
    rintro rfl
    exact absurd hd (by decide)
  rw [heq, List.cons_append, sign, if_neg hsign]

theorem fromChars_printNat (n : ℕ) (h : c.isDigit = false) :
    fromChars (printNat n ++ c :: text) = if n < 2 ^ 63 then some (n : ℤ) else none := by
  have hnumber : number (printNat n) = n := number_toDigits n
  have hiff : (-2 ^ 63 ≤ (n : ℤ) ∧ (n : ℤ) < 2 ^ 63) ↔ n < 2 ^ 63 := by omega
  rw [fromChars, sign_printNat, digits_printNat n h]
  simp only [signed, Bool.false_eq_true, if_false, hnumber, hiff]

variable (c text) in
/-- The integer behind a key is the number printed there. -/
theorem integerAfterColon_printNat {before : Text} (n : ℕ) (hbefore : ':' ∉ before)
    (h : c.isDigit = false) :
    integerAfterColon (before ++ ':' :: ' ' :: (printNat n ++ c :: text)) =
      if n < 2 ^ 63 then some (n : ℤ) else none := by
  rw [integerAfterColon, find_skip hbefore]
  have hspaces : spaces (' ' :: (printNat n ++ c :: text)) = printNat n ++ c :: text :=
    (List.dropWhile_cons_of_pos rfl).trans (spaces_printNat n (c :: text))
  simp only [find, List.isPrefixOf, BEq.rfl, Bool.and_self, if_true, hspaces,
    fromChars_printNat n h]

theorem mem_escapeJsonString {value : Text} :
    c ∈ escapeJsonString value ↔ c ∈ value ∨ c = '\\' ∧ '"' ∈ value := by
  induction value with
  | nil => simp [escapeJsonString]
  | cons d value ih =>
    rw [escapeJsonString, List.flatMap_cons, List.mem_append]
    change _ ∨ c ∈ escapeJsonString value ↔ _
    rw [ih]
    by_cases hd : d = '\\' ∨ d = '"'
    · rcases hd with rfl | rfl <;> simp <;> tauto
    · rw [not_or] at hd
      simp [hd.1, hd.2, Ne.symm hd.2, or_assoc]

/-- Only a value without quotes and backslashes is its own escape. -/
theorem escapeJsonString_eq_self_iff {value : Text} :
    escapeJsonString value = value ↔ '"' ∉ value ∧ '\\' ∉ value := by
  have hlength : ∀ value : Text, (escapeJsonString value).length =
      value.length + value.countP fun c => c == '\\' || c == '"' := by
    intro value
    induction value with
    | nil => rfl
    | cons d value ih =>
      rw [escapeJsonString, List.flatMap_cons, List.length_append, List.countP_cons,
        List.length_cons]
      change _ + (escapeJsonString value).length = _
      rw [ih]
      split <;> simp <;> omega
  constructor
  · intro h
    have hcount := hlength value
    rw [h] at hcount
    have hzero := List.countP_eq_zero.mp (Nat.left_eq_add.mp hcount)
    constructor <;> intro hmem <;> simpa using hzero _ hmem
  · rintro ⟨hquote, hslash⟩
    induction value with
    | nil => rfl
    | cons d value ih =>
      rw [List.mem_cons, not_or] at hquote hslash
      have hrest := ih hquote.2 hslash.2
      rw [escapeJsonString] at hrest ⊢
      rw [List.flatMap_cons, hrest, if_neg (by simp [Ne.symm hquote.1, Ne.symm hslash.1])]
      rfl

theorem escapeJsonString_eq_iff {value key : Text} (hquote : '"' ∉ key) (hslash : '\\' ∉ key) :
    escapeJsonString value = key ↔ value = key := by
  constructor
  · rintro rfl
    have hquote' : '"' ∉ value := fun h => hquote (mem_escapeJsonString.mpr (.inl h))
    have hslash' : '\\' ∉ value := fun h => hslash (mem_escapeJsonString.mpr (.inl h))
    exact (escapeJsonString_eq_self_iff.mpr ⟨hquote', hslash'⟩).symm
  · rintro rfl
    exact escapeJsonString_eq_self_iff.mpr ⟨hquote, hslash⟩

end Numbers

-- From here on, numbers and paths are what the lemmas above say.
attribute [irreducible] printNat printInt escapeJsonString

section Keys

/-- The pieces of the text behind the opening of an entry list, or behind an entry: `lead` is what
stands before the next quote. -/
def entryPieces (checkpoint : ℕ) (lead : Text) : List ManifestSSTableEntry → List Text
  | [] =>
    [lead ++ "  ],\n  ".toList, "wal_checkpoint".toList,
      ": ".toList ++ printNat checkpoint ++ "\n\x7d\n".toList]
  | entry :: entries =>
    (lead ++ "    \x7b\n      ".toList) :: "id".toList ::
      (": ".toList ++ printNat entry.id ++ ",\n      ".toList) :: "level".toList ::
      (": ".toList ++ printInt entry.level ++ ",\n      ".toList) :: "base_path".toList ::
      ": ".toList :: escapeJsonString entry.base_path.toList ::
      entryPieces checkpoint
        ("\n    \x7d".toList ++ if entries.isEmpty then "\n".toList else ",\n".toList) entries

/-- The pieces of a saved manifest behind its first quote. -/
def pieces (data : ManifestData) : List Text :=
  "version".toList :: (": ".toList ++ printNat kManifestVersion ++ ",\n  ".toList) ::
    "next_sequence_id".toList ::
    (": ".toList ++ printNat data.next_sequence_id ++ ",\n  ".toList) ::
    "next_sstable_id".toList ::
    (": ".toList ++ printNat data.next_sstable_id ++ ",\n  ".toList) ::
    "sstables".toList :: entryPieces data.wal_checkpoint ": [\n".toList data.sstables

variable {lead : Text} {checkpoint : ℕ} {entries : List ManifestSSTableEntry}

/-- The text of a number under a key, split at its quotes. -/
theorem literal_id : "      \"id\": ".toList =
    "      ".toList ++ '"' :: ("id".toList ++ '"' :: ": ".toList) := by simp

theorem literal_level : "      \"level\": ".toList =
    "      ".toList ++ '"' :: ("level".toList ++ '"' :: ": ".toList) := by simp

theorem literal_base_path : "      \"base_path\": \"".toList =
    "      ".toList ++ '"' :: ("base_path".toList ++ '"' :: (": ".toList ++ ['"'])) := by simp

theorem literal_wal_checkpoint : "  \"wal_checkpoint\": ".toList =
    "  ".toList ++ '"' :: ("wal_checkpoint".toList ++ '"' :: ": ".toList) := by simp

theorem literal_open : "    \x7b\n      ".toList = "    \x7b\n".toList ++ "      ".toList := by simp

theorem literal_next : ",\n      ".toList = ",\n".toList ++ "      ".toList := by simp

theorem literal_close : "\n    \x7d".toList = "\n".toList ++ "    \x7d".toList := by simp

theorem literal_quote : "\"\n".toList = '"' :: "\n".toList := by simp

theorem literal_end : "  ],\n  ".toList = "  ],\n".toList ++ "  ".toList := by simp

theorem literal_last : "\n\x7d\n".toList = "\n".toList ++ "\x7d\n".toList := by simp

theorem joinQuoted_entryPieces (checkpoint : ℕ) (lead : Text)
    (entries : List ManifestSSTableEntry) :
    joinQuoted (entryPieces checkpoint lead entries) =
      '"' :: (lead ++ (entriesText entries ++ ("  ],\n".toList ++ ("  \"wal_checkpoint\": ".toList ++
        (printNat checkpoint ++ ("\n".toList ++ "\x7d\n".toList)))))) := by
  induction entries generalizing lead with
  | nil =>
    simp only [entryPieces, joinQuoted, entriesText, literal_wal_checkpoint, literal_end,
      literal_last, List.append_assoc, List.cons_append, List.append_nil, List.nil_append]
  | cons entry entries ih =>
    unfold entriesText entryText
    simp only [entryPieces, joinQuoted, ih, literal_id, literal_level, literal_base_path,
      literal_open, literal_next, literal_close, literal_quote, List.append_assoc,
      List.cons_append, List.nil_append]

theorem literal_begin : "\x7b\n  ".toList = "\x7b\n".toList ++ "  ".toList := by simp

theorem literal_version : "  \"version\": ".toList =
    "  ".toList ++ '"' :: ("version".toList ++ '"' :: ": ".toList) := by simp

theorem literal_next_sequence_id : "  \"next_sequence_id\": ".toList =
    "  ".toList ++ '"' :: ("next_sequence_id".toList ++ '"' :: ": ".toList) := by simp

theorem literal_next_sstable_id : "  \"next_sstable_id\": ".toList =
    "  ".toList ++ '"' :: ("next_sstable_id".toList ++ '"' :: ": ".toList) := by simp

theorem literal_sstables : "  \"sstables\": [\n".toList =
    "  ".toList ++ '"' :: ("sstables".toList ++ '"' :: ": [\n".toList) := by simp

theorem literal_comma : ",\n  ".toList = ",\n".toList ++ "  ".toList := by simp

theorem savedText_eq (data : ManifestData) :
    savedText data = "\x7b\n  ".toList ++ joinQuoted (pieces data) := by
  unfold savedText pieces
  simp only [joinQuoted, joinQuoted_entryPieces, literal_begin, literal_version,
    literal_next_sequence_id, literal_next_sstable_id, literal_sstables, literal_comma,
    List.append_assoc, List.cons_append]

theorem quote_not_mem_printNat (n : ℕ) : '"' ∉ printNat n := fun h =>
  absurd (isDigit_of_mem_printNat h) (by decide)

theorem quote_not_mem_printInt (n : ℤ) : '"' ∉ printInt n := by
  unfold printInt
  split <;> simp [quote_not_mem_printNat]

theorem quote_not_mem_entryPieces (hlead : '"' ∉ lead)
    (hpaths : ∀ entry ∈ entries, '"' ∉ entry.base_path.toList) :
    ∀ piece ∈ entryPieces checkpoint lead entries, '"' ∉ piece := by
  induction entries generalizing lead with
  | nil => simp [entryPieces, hlead, quote_not_mem_printNat]
  | cons entry entries ih =>
    have hpath : '"' ∉ escapeJsonString entry.base_path.toList := by
      rw [mem_escapeJsonString]
      simp [hpaths entry List.mem_cons_self]
    have hrest := @ih ("\n    \x7d".toList ++ if entries.isEmpty then "\n".toList else ",\n".toList)
      (by split <;> simp) fun e he => hpaths e (List.mem_cons_of_mem _ he)
    rw [entryPieces]
    simp only [List.forall_mem_cons]
    refine ⟨by simp [hlead], by simp, by simp [quote_not_mem_printNat], by simp,
      by simp [quote_not_mem_printInt], by simp, by simp, hpath, hrest⟩

theorem quote_not_mem_pieces {data : ManifestData}
    (hpaths : ∀ entry ∈ data.sstables, '"' ∉ entry.base_path.toList) :
    ∀ piece ∈ pieces data, '"' ∉ piece := by
  unfold pieces
  simp only [List.forall_mem_cons]
  refine ⟨by simp, by simp [quote_not_mem_printNat], by simp, by simp [quote_not_mem_printNat],
    by simp, by simp [quote_not_mem_printNat], by simp, ?_⟩
  exact quote_not_mem_entryPieces (by simp) hpaths

/-- The integer of the first piece, a key, whose number is the second piece. -/
theorem integerAfterColon_key {key stop rest : Text} {c : Char} (n : ℕ) (pieces : List Text)
    (hkey : ':' ∉ key) (hstop : stop = c :: rest) (hc : c.isDigit = false) :
    integerAfterColon (joinQuoted (key :: (": ".toList ++ printNat n ++ stop) :: pieces)) =
      if n < 2 ^ 63 then some (n : ℤ) else none := by
  have hbefore : ':' ∉ '"' :: (key ++ ['"']) := by simp [hkey]
  have hread := integerAfterColon_printNat c (rest ++ joinQuoted pieces) n hbefore hc
  rw [← hread, joinQuoted, joinQuoted, hstop]
  simp

/-- The number that follows the opening of a list of entries. -/
def firstNumber (checkpoint : ℕ) : List ManifestSSTableEntry → ℕ
  | [] => checkpoint
  | entry :: _ => entry.id

/-- The number that is read for the key `wal_checkpoint`: the first base path that is this key
hides the real one, unless its entry is the last. -/
def checkpointRead (checkpoint : ℕ) : List ManifestSSTableEntry → ℕ
  | [] => checkpoint
  | entry :: entries =>
    if entry.base_path = "wal_checkpoint" then firstNumber checkpoint entries
    else checkpointRead checkpoint entries

theorem integerAfterColon_entryPieces (key : Text) (hkey : ':' ∉ key) (hlead : ':' ∉ lead) :
    integerAfterColon (joinQuoted (key :: entryPieces checkpoint lead entries)) =
      if firstNumber checkpoint entries < 2 ^ 63 then some (firstNumber checkpoint entries : ℤ)
      else none := by
  have hbefore : ∀ rest : Text, ':' ∉ rest →
      ':' ∉ '"' :: key ++ '"' :: (lead ++ rest) := fun rest hrest => by simp [hkey, hlead, hrest]
  cases entries with
  | nil =>
    have hread := integerAfterColon_printNat '\n' "\x7d\n".toList checkpoint
      (hbefore ("  ],\n  \"wal_checkpoint\"".toList) (by simp)) (by decide)
    rw [firstNumber, ← hread, entryPieces]
    simp [joinQuoted]
  | cons entry entries =>
    rw [firstNumber, entryPieces]
    generalize hrest : "level".toList :: _ = rest
    have hread := integerAfterColon_printNat ',' ("\n      ".toList ++ joinQuoted rest) entry.id
      (hbefore ("    \x7b\n      \"id\"".toList) (by simp)) (by decide)
    rw [← hread]
    simp [joinQuoted]

theorem checkpoint_entryPieces (hblank : '\n' ∈ lead) :
    ((findPiece "wal_checkpoint".toList (entryPieces checkpoint lead entries)).map joinQuoted).bind
        integerAfterColon =
      if checkpointRead checkpoint entries < 2 ^ 63 then
        some (checkpointRead checkpoint entries : ℤ)
      else none := by
  induction entries generalizing lead with
  | nil =>
    rw [entryPieces, findPiece_of_ne (ne_of_mem (List.mem_append_left _ hblank) (by simp)),
      findPiece_self]
    have hstop : "\n\x7d\n".toList = '\n' :: "\x7d\n".toList := by decide
    have hcolon : ':' ∉ "wal_checkpoint".toList := by simp
    exact integerAfterColon_key checkpoint [] hcolon hstop (by decide)
  | cons entry entries ih =>
    generalize hnext : ("\n    \x7d".toList ++ if entries.isEmpty then "\n".toList else ",\n".toList) =
      next at *
    have hnextLead : ':' ∉ next ∧ '\n' ∈ next := by
      rw [← hnext]
      split <;> simp
    have hcolon : ':' ∉ "wal_checkpoint".toList := by simp
    rw [entryPieces, hnext, findPiece_of_ne (ne_of_mem (List.mem_append_left _ hblank) (by simp)),
      findPiece_of_ne (by simp),
      findPiece_of_ne (ne_of_mem (c := ':') (by simp) hcolon),
      findPiece_of_ne (by simp),
      findPiece_of_ne (ne_of_mem (c := ':') (by simp) hcolon),
      findPiece_of_ne (by simp),
      findPiece_of_ne (ne_of_mem (c := ':') (by simp) hcolon), checkpointRead]
    obtain ⟨first, rest, hfirst⟩ : ∃ first rest, entryPieces checkpoint next entries =
        first :: rest := by
      cases entries <;> exact ⟨_, _, rfl⟩
    have hsame : escapeJsonString entry.base_path.toList = "wal_checkpoint".toList ↔
        entry.base_path = "wal_checkpoint" := by
      rw [escapeJsonString_eq_iff (by simp) (by simp), String.toList_inj]
    by_cases hpath : entry.base_path = "wal_checkpoint"
    · rw [if_pos hpath, hsame.mpr hpath, hfirst, findPiece_self, ← hfirst]
      exact integerAfterColon_entryPieces _ hcolon hnextLead.1
    · rw [if_neg hpath, hfirst, findPiece_of_ne (fun h => hpath (hsame.mp h)), ← hfirst]
      exact ih hnextLead.2

end Keys

end Dynamic.Manifest
