import AgentAware.Dynamic.ManifestText
import AgentAware.Dynamic.SSTable

/-!
# A saved manifest, loaded

The counters are read back, except that a base path `wal_checkpoint` hides the key of that name.
The entry pattern finds every entry whose base path has no quote, and gives it the escaped base
path.

## Main definitions

- `Manifest.KeptByText` — the manifests whose text means what was saved

## Main results

- `Manifest.entryMatches_savedText` — the entries that are found
- `Manifest.loadText_savedText_iff` — a manifest is loaded back exactly when it is `KeptByText`
- `Manifest.loadText_savedText_own` — with the store's own table names, the text is what the
  directory model keeps of a manifest
-/

namespace Dynamic.Manifest

open Text

variable {entries : List ManifestSSTableEntry} {data : ManifestData} {rest : Text}

/-- The base paths that keep their meaning: nothing to escape, and nothing that is taken for the
key of the checkpoint before the key itself, unless the number there is the same. -/
def KeptByText (data : ManifestData) : Prop :=
  (∀ entry ∈ data.sstables, '"' ∉ entry.base_path.toList ∧ '\\' ∉ entry.base_path.toList) ∧
    ∀ before entry next after, data.sstables = before ++ entry :: next :: after →
      (∀ e ∈ before, e.base_path ≠ "wal_checkpoint") → entry.base_path = "wal_checkpoint" →
      next.id = data.wal_checkpoint

section Counters

theorem parseJsonInteger_savedText {key : Text} (hkey : '"' ∉ key)
    (hpaths : ∀ entry ∈ data.sstables, '"' ∉ entry.base_path.toList) :
    parseJsonInteger (savedText data) key =
      ((findPiece key (pieces data)).map joinQuoted).bind integerAfterColon := by
  rw [parseJsonInteger, savedText_eq, find_skip (by simp),
    find_joinQuoted hkey (quote_not_mem_pieces hpaths)]

theorem comma_line : ",\n  ".toList = ',' :: "\n  ".toList := by simp

theorem version_savedText (hpaths : ∀ entry ∈ data.sstables, '"' ∉ entry.base_path.toList) :
    parseJsonInteger (savedText data) "version".toList = some (kManifestVersion : ℤ) := by
  have hcolon : ':' ∉ "version".toList := by simp
  rw [parseJsonInteger_savedText (by simp) hpaths]
  unfold pieces
  rw [findPiece_self]
  exact integerAfterColon_key kManifestVersion _ hcolon comma_line (by decide)

theorem next_sequence_id_savedText
    (hpaths : ∀ entry ∈ data.sstables, '"' ∉ entry.base_path.toList) :
    parseJsonInteger (savedText data) "next_sequence_id".toList =
      if data.next_sequence_id < 2 ^ 63 then some (data.next_sequence_id : ℤ) else none := by
  have hcolon : ':' ∉ "next_sequence_id".toList := by simp
  rw [parseJsonInteger_savedText (by simp) hpaths]
  unfold pieces
  rw [findPiece_of_ne (by simp), findPiece_of_ne (ne_of_mem (c := ':') (by simp) hcolon),
    findPiece_self]
  exact integerAfterColon_key data.next_sequence_id _ hcolon comma_line (by decide)

theorem next_sstable_id_savedText
    (hpaths : ∀ entry ∈ data.sstables, '"' ∉ entry.base_path.toList) :
    parseJsonInteger (savedText data) "next_sstable_id".toList =
      if data.next_sstable_id < 2 ^ 63 then some (data.next_sstable_id : ℤ) else none := by
  have hcolon : ':' ∉ "next_sstable_id".toList := by simp
  rw [parseJsonInteger_savedText (by simp) hpaths]
  unfold pieces
  rw [findPiece_of_ne (by simp), findPiece_of_ne (ne_of_mem (c := ':') (by simp) hcolon),
    findPiece_of_ne (by simp), findPiece_of_ne (ne_of_mem (c := ':') (by simp) hcolon),
    findPiece_self]
  exact integerAfterColon_key data.next_sstable_id _ hcolon comma_line (by decide)

theorem wal_checkpoint_savedText
    (hpaths : ∀ entry ∈ data.sstables, '"' ∉ entry.base_path.toList) :
    parseJsonInteger (savedText data) "wal_checkpoint".toList =
      if checkpointRead data.wal_checkpoint data.sstables < 2 ^ 63 then
        some (checkpointRead data.wal_checkpoint data.sstables : ℤ)
      else none := by
  have hcolon : ':' ∉ "wal_checkpoint".toList := by simp
  obtain ⟨first, others, hfirst⟩ : ∃ first others,
      entryPieces data.wal_checkpoint ": [\n".toList data.sstables = first :: others := by
    cases data.sstables <;> exact ⟨_, _, rfl⟩
  rw [parseJsonInteger_savedText (by simp) hpaths]
  unfold pieces
  rw [findPiece_of_ne (by simp), findPiece_of_ne (ne_of_mem (c := ':') (by simp) hcolon),
    findPiece_of_ne (by simp), findPiece_of_ne (ne_of_mem (c := ':') (by simp) hcolon),
    findPiece_of_ne (by simp), findPiece_of_ne (ne_of_mem (c := ':') (by simp) hcolon), hfirst,
    findPiece_of_ne (by simp), ← hfirst]
  have hlead : '\n' ∈ ": [\n".toList := by simp
  exact checkpoint_entryPieces hlead

end Counters

section Entries

/-- What the entry pattern finds of an entry. -/
def matchOf (entry : ManifestSSTableEntry) : EntryMatch where
  id := printNat entry.id
  negative := entry.level < 0
  level := printNat entry.level.natAbs
  base_path := escapeJsonString entry.base_path.toList

/-- An entry from its brace to its brace, at the seams of the pattern. -/
def entryBody (entry : ManifestSSTableEntry) : Text :=
  "\x7b".toList ++ ("\n      ".toList ++ ("\"id\"".toList ++ (":".toList ++ (" ".toList ++
    (printNat entry.id ++ (",".toList ++ ("\n      ".toList ++ ("\"level\"".toList ++
    (":".toList ++ (" ".toList ++ (printInt entry.level ++ (",".toList ++ ("\n      ".toList ++
    ("\"base_path\"".toList ++ (":".toList ++ (" ".toList ++ ("\"".toList ++
    (escapeJsonString entry.base_path.toList ++ ("\"".toList ++ ("\n    ".toList ++
    "\x7d".toList))))))))))))))))))))

theorem spaces_solid {solid : Text} {c : Char} (hhead : solid.head? = some c)
    (hc : isSpace c = false) (text : Text) : spaces (solid ++ text) = solid ++ text := by
  cases solid with
  | nil => cases hhead
  | cons d solid =>
    cases hhead
    exact spaces_cons hc

theorem spaces_line (text : Text) : spaces ("\n      ".toList ++ text) = spaces text :=
  spaces_append (by simp [isSpace])

theorem spaces_close (text : Text) : spaces ("\n    ".toList ++ text) = spaces text :=
  spaces_append (by simp [isSpace])

theorem spaces_blank (text : Text) : spaces (" ".toList ++ text) = spaces text :=
  spaces_append (by simp [isSpace])

theorem spaces_colon (text : Text) : spaces (":".toList ++ text) = ":".toList ++ text :=
  spaces_solid (c := ':') (by simp) (by decide) text

theorem spaces_comma (text : Text) : spaces (",".toList ++ text) = ",".toList ++ text :=
  spaces_solid (c := ',') (by simp) (by decide) text

theorem spaces_quote (text : Text) : spaces ("\"".toList ++ text) = "\"".toList ++ text :=
  spaces_solid (c := '"') (by simp) (by decide) text

theorem spaces_brace (text : Text) : spaces ("\x7d".toList ++ text) = "\x7d".toList ++ text :=
  spaces_solid (c := '}') (by simp) (by decide) text

theorem spaces_id (text : Text) : spaces ("\"id\"".toList ++ text) = "\"id\"".toList ++ text :=
  spaces_solid (c := '"') (by simp) (by decide) text

theorem spaces_level (text : Text) :
    spaces ("\"level\"".toList ++ text) = "\"level\"".toList ++ text :=
  spaces_solid (c := '"') (by simp) (by decide) text

theorem spaces_base_path (text : Text) :
    spaces ("\"base_path\"".toList ++ text) = "\"base_path\"".toList ++ text :=
  spaces_solid (c := '"') (by simp) (by decide) text

theorem spaces_printInt (n : ℤ) (text : Text) :
    spaces (printInt n ++ text) = printInt n ++ text := by
  unfold printInt
  split
  · exact spaces_cons (by decide)
  · exact spaces_printNat _ _

theorem sign_printInt (n : ℤ) (text : Text) :
    sign (printInt n ++ text) = (decide (n < 0), printNat n.natAbs ++ text) := by
  unfold printInt
  split
  · next h => simp [sign, h]
  · next h => rw [sign_printNat, decide_eq_false h]

theorem digits_comma (n : ℕ) (text : Text) :
    digits (printNat n ++ (",".toList ++ text)) = some (printNat n, ",".toList ++ text) := by
  have hcomma : ",".toList = [','] := by simp
  rw [hcomma]
  exact digits_printNat n (by decide)

/-- The pattern takes an entry whose base path has no quote. -/
theorem matchEntry_entryBody {entry : ManifestSSTableEntry}
    (hpath : '"' ∉ entry.base_path.toList) (rest : Text) :
    matchEntry (entryBody entry ++ rest) = some (matchOf entry, rest) := by
  have hescaped : ∀ c ∈ escapeJsonString entry.base_path.toList, (c != '"') = true := by
    intro c hc
    rw [bne_iff_ne]
    rintro rfl
    rw [mem_escapeJsonString] at hc
    exact hc.elim hpath fun h => hpath h.2
  have hquote : ∀ text : Text, ("\"".toList ++ text).takeWhile (fun c => c != '"') = [] ∧
      ("\"".toList ++ text).dropWhile (fun c => c != '"') = "\"".toList ++ text := by
    have hchars : "\"".toList = ['"'] := by simp
    intro text
    rw [hchars]
    simp
  unfold matchEntry entryBody
  simp only [List.append_assoc, literal_append, spaces_line, spaces_close, spaces_blank,
    spaces_colon, spaces_comma, spaces_quote, spaces_brace, spaces_id, spaces_level,
    spaces_base_path, spaces_printNat, spaces_printInt, sign_printInt, digits_comma,
    List.takeWhile_append_of_pos hescaped, List.dropWhile_append_of_pos hescaped, hquote,
    List.append_nil, Option.bind_eq_bind, Option.bind_some, matchOf]
  rfl

theorem matchEntry_of_ne {c : Char} (h : c ≠ '{') (text : Text) : matchEntry (c :: text) = none := by
  have hopen : literal "\x7b".toList (c :: text) = none := by
    simp [literal, List.isPrefixOf, Ne.symm h]
  unfold matchEntry
  rw [hopen]
  rfl

theorem entryMatches_skip {skipped : Text} (h : '{' ∉ skipped) (text : Text) :
    entryMatches 0 (skipped ++ text) = entryMatches 0 text := by
  induction skipped with
  | nil => rfl
  | cons c skipped ih =>
    rw [List.mem_cons, not_or] at h
    rw [List.cons_append, entryMatches, matchEntry_of_ne (Ne.symm h.1)]
    exact ih h.2

theorem entryMatches_covered (covered text : Text) :
    entryMatches covered.length (covered ++ text) = entryMatches 0 text := by
  induction covered with
  | nil => rfl
  | cons c covered ih => exact ih

theorem entryMatches_entryBody {entry : ManifestSSTableEntry}
    (hpath : '"' ∉ entry.base_path.toList) (rest : Text) :
    entryMatches 0 (entryBody entry ++ rest) = matchOf entry :: entryMatches 0 rest := by
  have hfound := matchEntry_entryBody hpath rest
  obtain ⟨tail, htail⟩ : ∃ tail, entryBody entry = '{' :: tail := by
    have hopen : "\x7b".toList = ['{'] := by simp
    unfold entryBody
    rw [hopen]
    exact ⟨_, rfl⟩
  rw [htail, List.cons_append] at hfound ⊢
  rw [entryMatches, hfound]
  have hlength : (tail ++ rest).length - rest.length = tail.length := by simp
  simp only [hlength, entryMatches_covered]

theorem literal_key_id : "      \"id\": ".toList =
    "      ".toList ++ ("\"id\"".toList ++ (":".toList ++ " ".toList)) := by simp

theorem literal_key_level : "      \"level\": ".toList =
    "      ".toList ++ ("\"level\"".toList ++ (":".toList ++ " ".toList)) := by simp

theorem literal_key_base_path : "      \"base_path\": \"".toList =
    "      ".toList ++ ("\"base_path\"".toList ++ (":".toList ++ (" ".toList ++ "\"".toList))) := by
  simp

theorem literal_brace_line : "    \x7b\n".toList = "    ".toList ++ ("\x7b".toList ++ "\n".toList) := by
  simp

theorem literal_comma_line : ",\n".toList = ",".toList ++ "\n".toList := by simp

theorem literal_line : "\n      ".toList = "\n".toList ++ "      ".toList := by simp

theorem literal_quote_line : "\"\n".toList = "\"".toList ++ "\n".toList := by simp

theorem literal_close_line : "    \x7d".toList = "    ".toList ++ "\x7d".toList := by simp

theorem literal_line_close : "\n    ".toList = "\n".toList ++ "    ".toList := by simp

theorem entryText_eq (entry : ManifestSSTableEntry) (last : Bool) :
    entryText entry last =
      "    ".toList ++ (entryBody entry ++ if last then "\n".toList else ",\n".toList) := by
  unfold entryText entryBody
  simp only [literal_key_id, literal_key_level, literal_key_base_path, literal_brace_line,
    literal_quote_line, literal_close_line, literal_line, literal_line_close, List.append_assoc]
  rw [literal_comma_line]
  simp only [List.append_assoc]

theorem entryMatches_entriesText (hpaths : ∀ entry ∈ entries, '"' ∉ entry.base_path.toList)
    (rest : Text) :
    entryMatches 0 (entriesText entries ++ rest) = entries.map matchOf ++ entryMatches 0 rest := by
  induction entries with
  | nil => rfl
  | cons entry entries ih =>
    have hsep : '{' ∉ if entries.isEmpty then "\n".toList else ",\n".toList := by split <;> simp
    rw [entriesText, entryText_eq, List.append_assoc, List.append_assoc, List.append_assoc,
      entryMatches_skip (by simp), entryMatches_entryBody (hpaths entry List.mem_cons_self),
      entryMatches_skip hsep, ih fun e he => hpaths e (List.mem_cons_of_mem _ he)]
    rfl

/-- The opening of the manifest is not an entry. -/
theorem matchEntry_version (text : Text) :
    matchEntry ("\x7b".toList ++ ("\n  ".toList ++ ("\"version\"".toList ++ text))) = none := by
  have hblank : spaces ("\n  ".toList ++ ("\"version\"".toList ++ text)) =
      "\"version\"".toList ++ text := by
    rw [spaces_append (by simp [isSpace]), spaces_solid (c := '"') (by simp) (by decide)]
  have hid : literal "\"id\"".toList ("\"version\"".toList ++ text) = none := by
    simp [literal, List.isPrefixOf]
  unfold matchEntry
  rw [literal_append]
  simp only [Option.bind_eq_bind, Option.bind_some, hblank, hid, Option.bind_none]

theorem brace_not_mem_printNat (n : ℕ) : '{' ∉ printNat n := fun h =>
  absurd (isDigit_of_mem_printNat h) (by decide)

/-- The text between the opening of a saved manifest and its entries, and the text behind them. -/
def headerText (data : ManifestData) : Text :=
  ": ".toList ++ (printNat kManifestVersion ++ (",\n".toList ++
    ("  \"next_sequence_id\": ".toList ++ (printNat data.next_sequence_id ++ (",\n".toList ++
    ("  \"next_sstable_id\": ".toList ++ (printNat data.next_sstable_id ++ (",\n".toList ++
    "  \"sstables\": [\n".toList))))))))

def footerText (data : ManifestData) : Text :=
  "  ],\n".toList ++ ("  \"wal_checkpoint\": ".toList ++ (printNat data.wal_checkpoint ++
    ("\n".toList ++ "\x7d\n".toList)))

theorem savedText_split (data : ManifestData) :
    savedText data = "\x7b".toList ++ ("\n  ".toList ++ ("\"version\"".toList ++
      (headerText data ++ (entriesText data.sstables ++ footerText data)))) := by
  have hopen : "\x7b\n".toList = "\x7b".toList ++ "\n".toList := by simp
  have hversion : "  \"version\": ".toList =
      "  ".toList ++ ("\"version\"".toList ++ ": ".toList) := by simp
  have hline : "\n  ".toList = "\n".toList ++ "  ".toList := by simp
  unfold savedText headerText footerText
  rw [hopen, hversion, hline]
  simp only [List.append_assoc]

/-- The pattern finds the entries of a saved manifest, with the base paths as they are escaped. -/
theorem entryMatches_savedText (hpaths : ∀ entry ∈ data.sstables, '"' ∉ entry.base_path.toList) :
    entryMatches 0 (savedText data) = data.sstables.map matchOf := by
  have hopen : "\x7b".toList = ['{'] := by simp
  have hnone := matchEntry_version (headerText data ++ (entriesText data.sstables ++ footerText data))
  have hheader : '{' ∉ headerText data := by
    unfold headerText
    simp [brace_not_mem_printNat]
  have hfooter : '{' ∉ footerText data := by
    unfold footerText
    simp [brace_not_mem_printNat]
  have hend : entryMatches 0 (footerText data) = [] := by
    have hskip := entryMatches_skip hfooter []
    rwa [List.append_nil] at hskip
  rw [savedText_split]
  rw [hopen, List.singleton_append] at hnone ⊢
  rw [entryMatches, hnone]
  simp only
  rw [entryMatches_skip (by simp), entryMatches_skip (by simp), entryMatches_skip hheader,
    entryMatches_entriesText hpaths, hend, List.append_nil]

/-- The entries that are loaded have the base paths as they are escaped. -/
def escaped (entry : ManifestSSTableEntry) : ManifestSSTableEntry :=
  { entry with base_path := String.ofList (escapeJsonString entry.base_path.toList) }

theorem entryOfMatch_matchOf {entry : ManifestSSTableEntry} (hid : entry.id < 2 ^ 64)
    (hlevel : -2 ^ 31 ≤ entry.level ∧ entry.level < 2 ^ 31) :
    entryOfMatch (matchOf entry) = .ok (escaped entry) := by
  have hnumber : ∀ n, number (printNat n) = n := fun n => by
    unfold printNat
    exact number_toDigits n
  have hsigned : signed (decide (entry.level < 0)) entry.level.natAbs = entry.level := by
    rw [signed]
    split
    · next h =>
      rw [decide_eq_true_eq] at h
      omega
    · next h =>
      rw [decide_eq_true_eq] at h
      omega
  simp only [entryOfMatch, matchOf, hnumber, hsigned, hid, hlevel, and_self, if_true, escaped]

theorem mapM_entryOfMatch (hrange : ∀ entry ∈ entries,
      entry.id < 2 ^ 64 ∧ -2 ^ 31 ≤ entry.level ∧ entry.level < 2 ^ 31) :
    (entries.map matchOf).mapM entryOfMatch = .ok (entries.map escaped) := by
  induction entries with
  | nil => rfl
  | cons entry entries ih =>
    obtain ⟨hid, hlevel⟩ := hrange entry List.mem_cons_self
    rw [List.map_cons, List.mapM_cons, entryOfMatch_matchOf hid hlevel,
      ih fun e he => hrange e (List.mem_cons_of_mem _ he)]
    rfl

theorem escaped_eq_self_iff {entry : ManifestSSTableEntry} :
    escaped entry = entry ↔ '"' ∉ entry.base_path.toList ∧ '\\' ∉ entry.base_path.toList := by
  rw [← escapeJsonString_eq_self_iff]
  constructor
  · intro h
    have hpath := congrArg (fun e => e.base_path.toList) h
    simpa [escaped] using hpath
  · intro h
    rw [escaped, h, String.ofList_toList]

/-- The pattern never takes a quote into a base path. -/
theorem quote_not_mem_of_matchEntry {text rest : Text} {found : EntryMatch}
    (h : matchEntry text = some (found, rest)) : '"' ∉ found.base_path := by
  unfold matchEntry at h
  simp only [Option.bind_eq_bind, Option.bind_eq_some_iff, Prod.exists] at h
  obtain ⟨_, _, _, _, _, _, _, _, _, _, _, _, _, _, _, h⟩ := h
  obtain ⟨_, _, _, _, _, _, _, _, _, path, _, _, _, _, _, h⟩ := h
  cases h
  intro hmem
  simpa using List.all_eq_true.mp List.all_takeWhile _ hmem

theorem quote_not_mem_of_entryMatches {text : Text} {covered : ℕ} {found : EntryMatch}
    (h : found ∈ entryMatches covered text) : '"' ∉ found.base_path := by
  induction text generalizing covered with
  | nil => simp [entryMatches] at h
  | cons c text ih =>
    cases covered with
    | succ covered => exact ih h
    | zero =>
      rw [entryMatches] at h
      split at h
      · exact ih h
      · next first rest hfirst =>
        rcases List.mem_cons.mp h with rfl | h
        · exact quote_not_mem_of_matchEntry hfirst
        · exact ih h

end Entries

section RoundTrip

theorem base_path_of_entryOfMatch {found : EntryMatch} {entry : ManifestSSTableEntry}
    (h : entryOfMatch found = .ok entry) : entry.base_path.toList = found.base_path := by
  rw [entryOfMatch] at h
  split at h
  · cases h
    exact String.toList_ofList
  · cases h

theorem mem_of_mapM {found : List EntryMatch} {entries : List ManifestSSTableEntry}
    (h : found.mapM entryOfMatch = .ok entries) {entry : ManifestSSTableEntry}
    (hentry : entry ∈ entries) : ∃ m ∈ found, entryOfMatch m = .ok entry := by
  induction found generalizing entries with
  | nil =>
    cases h
    simp at hentry
  | cons m found ih =>
    rw [List.mapM_cons] at h
    cases hm : entryOfMatch m with
    | error e => simp [hm] at h; cases h
    | ok first =>
      rw [hm] at h
      cases hrest : found.mapM entryOfMatch with
      | error e => rw [hrest] at h; cases h
      | ok others =>
        rw [hrest] at h
        cases h
        rcases List.mem_cons.mp hentry with rfl | hentry
        · exact ⟨m, List.mem_cons_self, hm⟩
        · obtain ⟨m', hm', hok⟩ := ih hrest hentry
          exact ⟨m', List.mem_cons_of_mem _ hm', hok⟩

/-- Whatever a text holds, no base path that is loaded from it has a quote. -/
theorem quote_not_mem_of_loadText {text : Text} {loaded : ManifestData}
    (h : loadText text = .ok loaded) : ∀ entry ∈ loaded.sstables, '"' ∉ entry.base_path.toList := by
  rw [loadText] at h
  split at h
  · split at h
    · cases hentries : (entryMatches 0 text).mapM entryOfMatch with
      | error e => rw [hentries] at h; cases h
      | ok sstables =>
        rw [hentries] at h
        cases h
        intro entry hentry
        obtain ⟨m, hm, hok⟩ := mem_of_mapM hentries hentry
        rw [base_path_of_entryOfMatch hok]
        exact quote_not_mem_of_entryMatches hm
    · cases h
  · cases h

/-- What is loaded of a manifest without quotes in its base paths. -/
def loadedOf (data : ManifestData) : ManifestData :=
  { saved data with
    sstables := data.sstables.map escaped
    wal_checkpoint := checkpointRead data.wal_checkpoint data.sstables }

/-- Without quotes in the base paths, what is loaded is what was saved, but for the escapes and
the checkpoint. -/
theorem loadText_savedText
    (hrange : ∀ entry ∈ data.sstables,
      entry.id < 2 ^ 64 ∧ -2 ^ 31 ≤ entry.level ∧ entry.level < 2 ^ 31)
    (hpaths : ∀ entry ∈ data.sstables, '"' ∉ entry.base_path.toList) :
    loadText (savedText data) =
      if loadable (loadedOf data) then .ok (loadedOf data) else .error .rejected := by
  have hiff : loadable (loadedOf data) = true ↔ data.next_sequence_id < 2 ^ 63 ∧
      data.next_sstable_id < 2 ^ 63 ∧ checkpointRead data.wal_checkpoint data.sstables < 2 ^ 63 ∧
      0 < data.next_sequence_id ∧ 0 < data.next_sstable_id := by
    rw [loadable_iff]
    exact and_iff_right rfl
  rw [loadText, version_savedText hpaths, next_sequence_id_savedText hpaths,
    next_sstable_id_savedText hpaths, wal_checkpoint_savedText hpaths,
    entryMatches_savedText hpaths, mapM_entryOfMatch hrange]
  by_cases hsequence : data.next_sequence_id < 2 ^ 63
  case neg => rw [if_neg hsequence, if_neg (fun h => hsequence (hiff.mp h).1)]
  by_cases hsstable : data.next_sstable_id < 2 ^ 63
  case neg => rw [if_neg hsstable, if_neg (fun h => hsstable (hiff.mp h).2.1)]; split <;> simp_all
  by_cases hcheckpoint : checkpointRead data.wal_checkpoint data.sstables < 2 ^ 63
  case neg =>
    rw [if_neg hcheckpoint, if_neg (fun h => hcheckpoint (hiff.mp h).2.2.1)]
    split <;> simp_all
  rw [if_pos hsequence, if_pos hsstable, if_pos hcheckpoint]
  simp only [true_and, Int.natCast_nonneg, and_true, Int.natCast_pos, Int.toNat_natCast]
  by_cases hpositive : 0 < data.next_sequence_id ∧ 0 < data.next_sstable_id
  · rw [if_pos hpositive, if_pos (hiff.mpr ⟨hsequence, hsstable, hcheckpoint, hpositive⟩)]
    rfl
  · rw [if_neg hpositive, if_neg (fun h => hpositive (hiff.mp h).2.2.2)]

/-- The number read for the checkpoint, in terms of the first base path that is its key. -/
theorem checkpointRead_eq_iff {checkpoint : ℕ} :
    checkpointRead checkpoint entries = checkpoint ↔
      ∀ before entry next after, entries = before ++ entry :: next :: after →
        (∀ e ∈ before, e.base_path ≠ "wal_checkpoint") → entry.base_path = "wal_checkpoint" →
        next.id = checkpoint := by
  induction entries with
  | nil =>
    refine iff_of_true rfl fun before entry next after h => ?_
    simp at h
  | cons first entries ih =>
    rw [checkpointRead]
    split
    · next hfirst =>
      constructor
      · intro hread before entry next after h hbefore _
        cases before with
        | nil =>
          cases h
          exact hread
        | cons b before =>
          cases h
          exact absurd hfirst (hbefore first List.mem_cons_self)
      · intro hall
        cases entries with
        | nil => rfl
        | cons next after => exact hall [] first next after rfl (by simp) hfirst
    · next hfirst =>
      rw [ih]
      constructor
      · intro hall before entry next after h hbefore hentry
        cases before with
        | nil =>
          cases h
          exact absurd hentry hfirst
        | cons b before =>
          cases h
          exact hall before entry next after rfl
            (fun e he => hbefore e (List.mem_cons_of_mem _ he)) hentry
      · intro hall before entry next after h hbefore hentry
        refine hall (first :: before) entry next after (by rw [h]; rfl) ?_ hentry
        intro e he
        rcases List.mem_cons.mp he with rfl | he
        · exact hfirst
        · exact hbefore e he

/-- A saved manifest is loaded back if and only if its base paths are kept by the text. Ids of
entries are `std::uint64_t` and levels `int`. -/
theorem loadText_savedText_iff (hversion : data.version = kManifestVersion)
    (hsequence : 0 < data.next_sequence_id ∧ data.next_sequence_id < 2 ^ 63)
    (hsstable : 0 < data.next_sstable_id ∧ data.next_sstable_id < 2 ^ 63)
    (hcheckpoint : data.wal_checkpoint < 2 ^ 63)
    (hrange : ∀ entry ∈ data.sstables,
      entry.id < 2 ^ 64 ∧ -2 ^ 31 ≤ entry.level ∧ entry.level < 2 ^ 31) :
    loadText (savedText data) = .ok data ↔ KeptByText data := by
  rw [KeptByText, ← checkpointRead_eq_iff]
  constructor
  · intro hload
    have hpaths := quote_not_mem_of_loadText hload
    rw [loadText_savedText hrange hpaths] at hload
    split at hload
    · have hdata := Except.ok.inj hload
      have hentries : data.sstables.map escaped = data.sstables.map id := by
        rw [List.map_id]
        exact congrArg ManifestData.sstables hdata
      refine ⟨fun entry hentry => ?_, congrArg ManifestData.wal_checkpoint hdata⟩
      exact escaped_eq_self_iff.mp (List.map_inj_left.mp hentries entry hentry)
    · cases hload
  · rintro ⟨hplain, hread⟩
    have hentries : data.sstables.map escaped = data.sstables := by
      refine (List.map_congr_left fun entry hentry => ?_).trans (List.map_id _)
      exact escaped_eq_self_iff.mpr (hplain entry hentry)
    have hloaded : loadedOf data = data := by
      rw [loadedOf, saved, hentries, hread, ← hversion]
    rw [loadText_savedText hrange fun e he => (hplain e he).1, hloaded, if_pos]
    exact loadable_iff.mpr ⟨hversion, hsequence.2, hsstable.2, hcheckpoint, hsequence.1, hsstable.1⟩

theorem plain_basePath (n : ℕ) : '"' ∉ (basePath n).toList ∧ '\\' ∉ (basePath n).toList ∧
    basePath n ≠ "wal_checkpoint" := by
  have hdigits : ∀ c ∈ Nat.toDigits 10 n, c.isDigit = true := fun c hc =>
    Nat.isDigit_of_mem_toDigits (by decide) (by decide) hc
  have hmem : ∀ c ∈ (basePath n).toList, c ∈ "sstable/sst_0".toList ∨ c.isDigit = true := by
    intro c hc
    simp only [basePath, sstableName, String.toList_append, String.toList_ofList, List.mem_append,
      List.mem_replicate] at hc
    rcases hc with hc | hc | ⟨_, rfl⟩ | hc
    · exact .inl (by revert hc; simp; tauto)
    · exact .inl (by revert hc; simp; tauto)
    · exact .inl (by simp)
    · exact .inr (hdigits c hc)
  refine ⟨fun h => ?_, fun h => ?_, fun h => ?_⟩
  · rcases hmem _ h with h | h <;> simp_all
  · rcases hmem _ h with h | h <;> simp_all
  · have hslash : '/' ∈ (basePath n).toList := by simp [basePath]
    rw [h] at hslash
    simp at hslash

/-- With the store's own table names, loading the text of a manifest gives what the directory model
keeps of it. -/
theorem loadText_savedText_own
    (hrange : ∀ entry ∈ data.sstables,
      entry.id < 2 ^ 64 ∧ -2 ^ 31 ≤ entry.level ∧ entry.level < 2 ^ 31)
    (hown : ∀ entry ∈ data.sstables, entry.base_path = basePath entry.id) :
    (loadText (savedText data)).toOption = stored { manifest := some (saved data) } := by
  have hplain : ∀ entry ∈ data.sstables, '"' ∉ entry.base_path.toList ∧
      '\\' ∉ entry.base_path.toList ∧ entry.base_path ≠ "wal_checkpoint" := by
    intro entry hentry
    rw [hown entry hentry]
    exact plain_basePath entry.id
  have hentries : data.sstables.map escaped = data.sstables := by
    refine (List.map_congr_left fun entry hentry => ?_).trans (List.map_id _)
    exact escaped_eq_self_iff.mpr ⟨(hplain entry hentry).1, (hplain entry hentry).2.1⟩
  have hread : checkpointRead data.wal_checkpoint data.sstables = data.wal_checkpoint := by
    refine checkpointRead_eq_iff.mpr fun before entry next after h _ hentry => ?_
    exact absurd hentry (hplain entry (by simp [h])).2.2
  have hloaded : loadedOf data = saved data := by
    rw [loadedOf, saved, hentries, hread]
  rw [loadText_savedText hrange fun e he => (hplain e he).1, hloaded, stored]
  simp only
  split <;> rfl

/-- The names of the store's own tables are kept. -/
theorem loadText_savedText_basePath :
    let data : ManifestData :=
      { next_sequence_id := 17, next_sstable_id := 3, sstables := [⟨2, 0, basePath 2⟩] }
    loadText (savedText data) = .ok data := by
  intro data
  refine (@loadText_savedText_iff data rfl (by decide) (by decide) (by decide)
    (by decide +kernel)).mpr ⟨by decide +kernel, ?_⟩
  intro before entry next after h
  have hlength := congrArg List.length h
  simp [data] at hlength
  omega

/-- A base path that is one quote is lost. -/
theorem loadText_savedText_quote :
    let data : ManifestData := { sstables := [⟨1, 0, "\""⟩] }
    loadText (savedText data) ≠ .ok data := by
  intro data hload
  exact quote_not_mem_of_loadText hload ⟨1, 0, "\""⟩ (by simp [data]) (by simp)

end RoundTrip

end Dynamic.Manifest
