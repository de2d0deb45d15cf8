import AgentAware.Prefetch.RankerDump

/-!
# The lines of a dump, read back

What each of the two readers makes of the line of one node: the script keeps the split, or the leaf
when its id is 1 or 2; the planner stores the node.

## Main results

- `loadDumpLine_leaf`, `loadDumpLine_split` — the reader of the script
- `loadModelLine_node`, `parseNode_leaf`, `parseNode_split` — the reader of the planner
-/

namespace Prefetch

/-! ### Characters -/

section Characters

variable {c : Char}

theorem le_of_isDigit (h : c.isDigit = true) : 48 ≤ c.toNat := by
  rw [Char.isDigit, Bool.and_eq_true, decide_eq_true_iff, ge_iff_le, UInt32.le_iff_toNat_le] at h
  exact h.1

theorem le_of_isNumberChar (h : isNumberChar c = true) : 43 ≤ c.toNat := by
  simp only [isNumberChar, Bool.or_eq_true, beq_iff_eq] at h
  rcases h with ((((h | rfl) | rfl) | rfl) | rfl) | rfl
  · exact (Nat.le_add_left 43 5).trans (le_of_isDigit h)
  all_goals decide

/-- White space, for either reader, comes before all characters of a number. -/
theorem not_pyIsSpace (h : 33 ≤ c.toNat) : pyIsSpace c = false := by
  have hne : c ≠ ' ' := by
    rintro rfl
    exact absurd h (by decide)
  simp only [pyIsSpace, Text.isSpace, beq_eq_false_iff_ne.mpr hne, Bool.false_or,
    Bool.or_eq_false_iff, Bool.and_eq_false_iff, decide_eq_false_iff_not]
  omega

theorem not_isBlank (h : 33 ≤ c.toNat) : isBlank c = false := by
  simp only [isBlank, Bool.or_eq_false_iff, beq_eq_false_iff_ne]
  refine ⟨⟨⟨?_, ?_⟩, ?_⟩, ?_⟩
  all_goals
    rintro rfl
    exact absurd h (by decide)

theorem not_mem_printed (value : Printed) (h : isNumberChar c = false) : c ∉ value.text := by
  intro hc
  rw [value.chars c hc] at h
  cases h

/-- No name of a feature has one of the characters that the readers look for. -/
theorem not_mem_featureName (feature : Feature) :
    ∀ d ∈ (featureName feature).toList, d.isAlphanum = true ∨ d = '_' := by
  have hall : ∀ feature, ((featureName feature).toList.all fun d => d.isAlphanum || d == '_') =
      true := by decide
  intro d hd
  simpa using List.all_eq_true.mp (hall feature) d hd

end Characters

/-! ### Numbers and names, read back -/

theorem pyFloat_printed (value : Printed) : pyFloat value.text = some value.value := by
  have htrim : Text.trim pyIsSpace value.text = value.text := Text.trim_self fun c hc =>
    not_pyIsSpace ((by decide : 33 ≤ 43).trans (le_of_isNumberChar (value.chars c hc)))
  rw [pyFloat, htrim, value.reads]

theorem finiteStod_printed (value : Printed) (message : String) :
    finiteStod exactStod value.text message = .ok value.value := by
  have hspaces : Text.spaces value.text = value.text := by
    have hchars := value.chars
    cases htext : value.text with
    | nil => rfl
    | cons c text =>
      rw [htext] at hchars
      have hspace := not_pyIsSpace
        ((by decide : 33 ≤ 43).trans (le_of_isNumberChar (hchars c List.mem_cons_self)))
      rw [pyIsSpace, Bool.or_eq_false_iff] at hspace
      exact Text.spaces_cons hspace.1
  rw [finiteStod, exactStod, hspaces, value.reads]
  rfl

theorem takeWhile_printed (value : Printed) :
    value.text.takeWhile isNumberChar = value.text :=
  List.takeWhile_eq_self_iff.mpr value.chars

theorem isDigit_toDigits {n : ℕ} {c : Char} (h : c ∈ Nat.toDigits 10 n) : c.isDigit = true :=
  Nat.isDigit_of_mem_toDigits (by decide) (by decide) h

theorem pyInt_toDigits (n : ℕ) : pyInt (Nat.toDigits 10 n) = some (n : ℤ) := by
  have htrim : Text.trim pyIsSpace (Nat.toDigits 10 n) = Nat.toDigits 10 n :=
    Text.trim_self fun c hc =>
      not_pyIsSpace ((by decide : 33 ≤ 48).trans (le_of_isDigit (isDigit_toDigits hc)))
  obtain ⟨d, ds, hdigits, hd⟩ := Text.exists_toDigits_eq_cons n
  rw [pyInt, htrim, hdigits, Text.plusMinus_of_isDigit hd, ← hdigits]
  dsimp only
  rw [Text.digits_toDigits_nil]
  simp

theorem stoi_toDigits {n : ℕ} (h : n < 2 ^ 31) : stoi (Nat.toDigits 10 n) = .ok (n : ℤ) := by
  obtain ⟨d, ds, hdigits, hd⟩ := Text.exists_toDigits_eq_cons n
  have hspaces : Text.spaces (Nat.toDigits 10 n) = Nat.toDigits 10 n := by
    have hspace := not_pyIsSpace ((by decide : 33 ≤ 48).trans (le_of_isDigit hd))
    rw [pyIsSpace, Bool.or_eq_false_iff] at hspace
    rw [hdigits, Text.spaces_cons hspace.1]
  rw [stoi, hspaces, hdigits, Text.plusMinus_of_isDigit hd, ← hdigits]
  dsimp only
  rw [Text.digits_toDigits_nil]
  dsimp only
  rw [Text.number_toDigits]
  exact if_pos (show (-2 ^ 31 : ℤ) ≤ n ∧ (n : ℤ) < 2 ^ 31 by omega)

theorem featureToIdx_featureName (feature : Feature) :
    featureToIdx (featureName feature).toList = some feature.val := by
  revert feature
  decide

/-! ### The lines of a dump -/

open XgbTree (leafBody splitBody nodeLine)

/-- How the body of a line is built: it has no comment, no line break and no colon, and neither end
is white space. -/
structure IsBody (body : Text) : Prop where
  comment : '#' ∉ body
  newline : '\n' ∉ body
  colon : ':' ∉ body
  ends : ∃ first rest front last, body = first :: rest ∧ body = front ++ [last] ∧
    33 ≤ first.toNat ∧ 33 ≤ last.toNat

theorem exists_last_printed (value : Printed) :
    ∃ front last, value.text = front ++ [last] ∧ 33 ≤ last.toNat := by
  obtain ⟨front, last, htext⟩ := List.eq_nil_or_concat value.text |>.resolve_left value.ne_nil
  rw [List.concat_eq_append] at htext
  have hlast := le_of_isNumberChar (value.chars last (by simp [htext]))
  exact ⟨front, last, htext, by omega⟩

theorem exists_last_toDigits (n : ℕ) :
    ∃ front last, Nat.toDigits 10 n = front ++ [last] ∧ 33 ≤ last.toNat := by
  obtain ⟨front, last, htext⟩ :=
    List.eq_nil_or_concat (Nat.toDigits 10 n) |>.resolve_left Nat.toDigits_ne_nil
  rw [List.concat_eq_append] at htext
  have hlast := le_of_isDigit (isDigit_toDigits (n := n) (c := last) (by simp [htext]))
  exact ⟨front, last, htext, by omega⟩

theorem isBody_leafBody (value : Printed) : IsBody (leafBody value) := by
  obtain ⟨front, last, htext, hlast⟩ := exists_last_printed value
  have hnot : ∀ c, isNumberChar c = false → c ∉ "leaf=".toList → c ∉ leafBody value :=
    fun c hchar hkey hmem =>
      (List.mem_append.mp hmem).elim hkey (not_mem_printed value hchar)
  exact ⟨hnot _ (by decide) (by decide), hnot _ (by decide) (by decide),
    hnot _ (by decide) (by decide), 'l', "eaf=".toList ++ value.text, "leaf=".toList ++ front, last,
    rfl, by rw [leafBody, htext, List.append_assoc], by decide, hlast⟩

theorem not_mem_splitBody {feature : Feature} {threshold : Printed} {yes no missing : ℕ} {c : Char}
    (hname : (c.isAlphanum = true ∨ c = '_') → False) (hchar : isNumberChar c = false)
    (hkey : c ∉ "[<] yes=,no=,missing=".toList) :
    c ∉ splitBody feature threshold yes no missing := by
  have hdigit : c.isDigit = false := by
    rw [isNumberChar] at hchar
    simp only [Bool.or_eq_false_iff] at hchar
    exact hchar.1.1.1.1.1
  have hfeature : c ∉ (featureName feature).toList := fun hc =>
    hname (not_mem_featureName feature c hc)
  have hkeys : c ∉ "] yes=".toList ∧ c ∉ ",no=".toList ∧ c ∉ ",missing=".toList ∧ c ≠ '[' ∧
      c ≠ '<' := by
    refine ⟨fun h => hkey ?_, fun h => hkey ?_, fun h => hkey ?_, fun h => hkey ?_,
      fun h => hkey ?_⟩
    all_goals simp_all
  rw [splitBody]
  simp only [List.mem_cons, List.mem_append, not_or]
  exact ⟨hkeys.2.2.2.1, hfeature, hkeys.2.2.2.2, not_mem_printed threshold hchar, hkeys.1,
    Text.not_mem_toDigits yes hdigit, hkeys.2.1, Text.not_mem_toDigits no hdigit, hkeys.2.2.1,
    Text.not_mem_toDigits missing hdigit⟩

theorem isBody_splitBody (feature : Feature) (threshold : Printed) (yes no missing : ℕ) :
    IsBody (splitBody feature threshold yes no missing) := by
  obtain ⟨front, last, htext, hlast⟩ := exists_last_toDigits missing
  refine ⟨not_mem_splitBody (by decide) (by decide) (by decide),
    not_mem_splitBody (by decide) (by decide) (by decide),
    not_mem_splitBody (by decide) (by decide) (by decide), '[', _, '[' ::
      ((featureName feature).toList ++ ('<' :: (threshold.text ++ ("] yes=".toList ++
        (Nat.toDigits 10 yes ++ (",no=".toList ++ (Nat.toDigits 10 no ++
          (",missing=".toList ++ front)))))))), last, rfl, ?_, by decide, hlast⟩
  rw [splitBody, htext]
  simp only [List.cons_append, List.append_assoc]

section Line

variable {depth id : ℕ} {body : Text}

variable (depth id) in
theorem trim_nodeLine {kind : Char → Bool} (htab : kind '\t' = true)
    (hkind : ∀ c : Char, 33 ≤ c.toNat → kind c = false) (hbody : IsBody body) :
    Text.trim kind ((nodeLine depth id body).takeWhile (· ≠ '#')) =
      Nat.toDigits 10 id ++ ':' :: body := by
  obtain ⟨first, rest, front, last, -, hends, -, hlast⟩ := hbody.ends
  obtain ⟨d, ds, hdigits, hd⟩ := Text.exists_toDigits_eq_cons id
  have hcomment : (nodeLine depth id body).takeWhile (· ≠ '#') = nodeLine depth id body := by
    refine Text.takeWhile_ne_self fun hc => ?_
    simp only [nodeLine, List.mem_append, List.mem_replicate, List.mem_cons] at hc
    rcases hc with ⟨-, hc⟩ | hc | hc | hc
    · cases hc
    · exact Text.not_mem_toDigits id (by decide) hc
    · cases hc
    · exact hbody.comment hc
  have hlines : d :: (ds ++ ':' :: body) = (d :: (ds ++ ':' :: front)) ++ [last] := by
    rw [hends, List.cons_append, List.append_assoc, List.cons_append]
  rw [hcomment, nodeLine, hdigits, List.cons_append]
  refine Text.trim_append (fun c hc => ?_) (hkind d (by have := le_of_isDigit hd; omega))
    (hkind last hlast) hlines
  rw [List.eq_of_mem_replicate hc]
  exact htab

/-- A line that starts with a digit is neither the base score nor the start of a tree. -/
theorem not_prefix_of_digit {key : Text} (hkey : key.head?.map Char.isDigit = some false)
    (text : Text) : ¬key.isPrefixOf (Nat.toDigits 10 id ++ text) = true := by
  obtain ⟨d, ds, hdigits, hd⟩ := Text.exists_toDigits_eq_cons id
  cases key with
  | nil => cases hkey
  | cons k key =>
    have hne : k ≠ d := by
      rintro rfl
      simp [hd] at hkey
    rw [hdigits, List.cons_append, List.isPrefixOf, beq_eq_false_iff_ne.mpr hne, Bool.false_and]
    decide

theorem loadDumpLine_leaf (state : DumpState) (value : Printed) :
    loadDumpLine state (nodeLine depth id (leafBody value)) =
      some (if (id : ℤ) = 1 then { state with left_leaf := some value.value }
        else if (id : ℤ) = 2 then { state with right_leaf := some value.value }
        else state) := by
  have hbody := isBody_leafBody value
  have hline := trim_nodeLine depth id (by decide) (fun c => not_pyIsSpace) hbody
  have hnone : Text.cut ":[".toList (':' :: leafBody value) = none := by
    have hrest : Text.cut ":[".toList (leafBody value) = none := Text.cut_eq_none hbody.colon
    rw [Text.cut, if_neg (by simp [leafBody, List.isPrefixOf]), hrest]
    rfl
  have hsplit : Text.cut ":[".toList (Nat.toDigits 10 id ++ ':' :: leafBody value) = none := by
    have hskip : Text.cut ":[".toList (Nat.toDigits 10 id ++ ':' :: leafBody value) =
        (Text.cut ":[".toList (':' :: leafBody value)).map fun parts =>
          (Nat.toDigits 10 id ++ parts.1, parts.2) :=
      Text.cut_skip (Text.not_mem_toDigits id (by decide))
    rw [hskip, hnone, Option.map_none]
  have hleaf : Text.cut ":leaf=".toList (Nat.toDigits 10 id ++ ':' :: leafBody value) =
      some (Nat.toDigits 10 id, value.text) :=
    Text.cut_append (Text.not_mem_toDigits id (by decide))
  have hvalue : Text.cut "leaf=".toList ((Nat.toDigits 10 id ++ [':']) ++ leafBody value) =
      some (Nat.toDigits 10 id ++ [':'], value.text) := by
    refine Text.cut_append fun hl => ?_
    rcases List.mem_append.mp hl with hl | hl
    · exact Text.not_mem_toDigits id (by decide) hl
    · cases List.mem_singleton.mp hl
  rw [List.append_assoc] at hvalue
  have hcomma : value.text.takeWhile (· ≠ ',') = value.text :=
    Text.takeWhile_ne_self (not_mem_printed value (by decide))
  rw [loadDumpLine, hline]
  dsimp only
  rw [if_neg (by simp), if_neg (not_prefix_of_digit rfl _), if_neg (not_prefix_of_digit rfl _),
    hsplit, if_neg (by simp), hleaf, if_pos (by rfl),
    Text.takeWhile_ne_append (Text.not_mem_toDigits id (by decide)), pyInt_toDigits]
  change ((Text.cut "leaf=".toList (Nat.toDigits 10 id ++ ([':'] ++ leafBody value))).bind _) = _
  rw [hvalue, Option.bind_some]
  dsimp only
  rw [hcomma, pyFloat_printed, Option.bind_eq_bind, Option.bind_some]
  split_ifs <;> rfl

variable {feature : Feature} {threshold : Printed} {yes no missing : ℕ}

theorem not_mem_name {c : Char} (h : (c.isAlphanum || c == '_') = false) :
    c ∉ (featureName feature).toList := by
  intro hc
  rw [Bool.or_eq_false_iff, beq_eq_false_iff_ne] at h
  exact (not_mem_featureName feature c hc).elim (by simp [h.1]) h.2

/-- A split up to its bracket, and the rest. -/
theorem splitBody_eq :
    splitBody feature threshold yes no missing =
      '[' :: (((featureName feature).toList ++ '<' :: threshold.text) ++ ']' ::
        (" yes=".toList ++ (Nat.toDigits 10 yes ++ (",no=".toList ++ (Nat.toDigits 10 no ++
          (",missing=".toList ++ Nat.toDigits 10 missing)))))) := by
  rw [splitBody, List.append_assoc]
  rfl

theorem loadDumpLine_split (state : DumpState) :
    loadDumpLine state (nodeLine depth id (splitBody feature threshold yes no missing)) =
      some { state with current_split := some (feature.val, threshold.value) } := by
  have hbody := isBody_splitBody feature threshold yes no missing
  have hline := trim_nodeLine depth id (by decide) (fun c => not_pyIsSpace) hbody
  rw [splitBody_eq] at hline ⊢
  obtain ⟨rest, hrest⟩ : ∃ rest, rest = " yes=".toList ++ (Nat.toDigits 10 yes ++ (",no=".toList ++
      (Nat.toDigits 10 no ++ (",missing=".toList ++ Nat.toDigits 10 missing)))) := ⟨_, rfl⟩
  rw [← hrest] at hline ⊢
  have hsplit : Text.cut ":[".toList (Nat.toDigits 10 id ++ ':' :: '[' ::
      (((featureName feature).toList ++ '<' :: threshold.text) ++ ']' :: rest)) =
      some (Nat.toDigits 10 id,
        ((featureName feature).toList ++ '<' :: threshold.text) ++ ']' :: rest) :=
    Text.cut_append (Text.not_mem_toDigits id (by decide))
  have hbracket : (((featureName feature).toList ++ '<' :: threshold.text) ++ ']' :: rest).takeWhile
      (· ≠ ']') = (featureName feature).toList ++ '<' :: threshold.text := by
    refine Text.takeWhile_ne_append fun h => ?_
    rcases List.mem_append.mp h with h | h
    · exact not_mem_name (by decide) h
    · exact (List.mem_cons.mp h).elim (by decide) (not_mem_printed threshold (by decide))
  have hless : Text.cut "<".toList ((featureName feature).toList ++ '<' :: threshold.text) =
      some ((featureName feature).toList, threshold.text) :=
    Text.cut_append (not_mem_name (by decide))
  rw [loadDumpLine, hline]
  dsimp only
  rw [if_neg (by simp), if_neg (not_prefix_of_digit rfl _), if_neg (not_prefix_of_digit rfl _),
    hsplit, if_pos (by simp)]
  rw [Option.bind_eq_bind, Option.bind_some]
  dsimp only
  rw [hbracket, hless, Option.bind_eq_bind, Option.bind_some]
  dsimp only
  rw [featureToIdx_featureName]
  dsimp only
  rw [pyFloat_printed]
  rfl

/-- A key of a split node is not found in front of the threshold. -/
theorem key_not_in_name : ∀ key ∈ ["yes=".toList, "no=".toList, "missing=".toList],
    ∀ feature : Feature, ∀ tail ∈ ('[' :: ((featureName feature).toList ++ ['<'])).tails,
      tail = [] ∨ ¬key <+: tail ∧ ¬tail <+: key := by
  decide +kernel

theorem find_splitBody {key : Text} (hkey : key ∈ ["yes=".toList, "no=".toList, "missing=".toList]) :
    Text.find key (splitBody feature threshold yes no missing) =
      Text.find key ("] yes=".toList ++ (Nat.toDigits 10 yes ++ (",no=".toList ++
        (Nat.toDigits 10 no ++ (",missing=".toList ++ Nat.toDigits 10 missing))))) := by
  have hname := Text.find_skip_of (threshold.text ++ ("] yes=".toList ++
    (Nat.toDigits 10 yes ++ (",no=".toList ++ (Nat.toDigits 10 no ++
      (",missing=".toList ++ Nat.toDigits 10 missing)))))) (key_not_in_name key hkey feature)
  rw [List.cons_append, List.append_assoc] at hname
  rw [splitBody]
  refine hname.trans ?_
  have hhead : ∀ k, isNumberChar k = false → k ∉ threshold.text := fun k => not_mem_printed threshold
  simp only [List.mem_cons, List.not_mem_nil, or_false] at hkey
  rcases hkey with rfl | rfl | rfl
  · exact Text.find_skip (hhead 'y' (by decide))
  · exact Text.find_skip (hhead 'n' (by decide))
  · exact Text.find_skip (hhead 'm' (by decide))

theorem parseIntAfter_of_find {text key rest : Text} {n : ℕ} (hn : n < 2 ^ 31)
    (hfind : Text.find key text = some (key ++ (Nat.toDigits 10 n ++ rest)))
    (hrest : rest.takeWhile (fun c => c.isDigit || c == '-') = []) :
    parseIntAfter text key = .ok (n : ℤ) := by
  have htake : (Nat.toDigits 10 n ++ rest).takeWhile (fun c => c.isDigit || c == '-') =
      Nat.toDigits 10 n := by
    rw [List.takeWhile_append_of_pos fun c hc => by simp [isDigit_toDigits hc], hrest,
      List.append_nil]
  rw [parseIntAfter, hfind]
  dsimp only
  rw [List.drop_left, htake, stoi_toDigits hn]

variable (feature threshold) in
theorem parseNode_split (path : String) (hyes : yes < 2 ^ 31) (hno : no < 2 ^ 31)
    (hmissing : missing < 2 ^ 31) :
    parseNode exactStod path (splitBody feature threshold yes no missing) =
      .ok (.split (featureName feature) threshold.value yes no missing) := by
  obtain ⟨afterYes, hafterYes⟩ : ∃ rest, rest = ",no=".toList ++ (Nat.toDigits 10 no ++
      (",missing=".toList ++ Nat.toDigits 10 missing)) := ⟨_, rfl⟩
  obtain ⟨afterNo, hafterNo⟩ : ∃ rest, rest = ",missing=".toList ++ Nat.toDigits 10 missing :=
    ⟨_, rfl⟩
  have hfind : ∀ key ∈ ["yes=".toList, "no=".toList, "missing=".toList],
      Text.find key (splitBody feature threshold yes no missing) =
        Text.find key ("] yes=".toList ++ (Nat.toDigits 10 yes ++ afterYes)) := fun key hkey => by
    rw [find_splitBody hkey, hafterYes]
  have hskip : ∀ {p : Char} {pattern : Text}, p ∉ "] yes=".toList → p.isDigit = false →
      Text.find (p :: pattern) ("] yes=".toList ++ (Nat.toDigits 10 yes ++ afterYes)) =
        Text.find (p :: pattern) afterYes := fun hkey hdigit =>
    (Text.find_skip hkey).trans (Text.find_skip (Text.not_mem_toDigits yes hdigit))
  have hyesAt : parseIntAfter (splitBody feature threshold yes no missing) "yes=".toList =
      .ok (yes : ℤ) := by
    have hfound : Text.find "yes=".toList ("] ".toList ++ ("yes=".toList ++
        (Nat.toDigits 10 yes ++ afterYes))) =
        some ("yes=".toList ++ (Nat.toDigits 10 yes ++ afterYes)) :=
      (Text.find_skip (by decide)).trans (Text.find_self _ _)
    exact parseIntAfter_of_find hyes ((hfind _ (by simp)).trans hfound) (by rw [hafterYes]; rfl)
  have hnoAt : parseIntAfter (splitBody feature threshold yes no missing) "no=".toList =
      .ok (no : ℤ) := by
    have hfound : Text.find "no=".toList afterYes =
        some ("no=".toList ++ (Nat.toDigits 10 no ++ afterNo)) := by
      have hcomma : Text.find "no=".toList (",".toList ++ ("no=".toList ++
          (Nat.toDigits 10 no ++ afterNo))) =
          some ("no=".toList ++ (Nat.toDigits 10 no ++ afterNo)) :=
        (Text.find_skip (by decide)).trans (Text.find_self _ _)
      rw [hafterYes, ← hafterNo]
      exact hcomma
    exact parseIntAfter_of_find hno ((hfind _ (by simp)).trans
      ((hskip (by decide) (by decide)).trans hfound)) (by rw [hafterNo]; rfl)
  have hmissingAt : parseIntAfter (splitBody feature threshold yes no missing) "missing=".toList =
      .ok (missing : ℤ) := by
    have hfound : Text.find "missing=".toList afterYes =
        some ("missing=".toList ++ (Nat.toDigits 10 missing ++ [])) := by
      have hcomma : Text.find "missing=".toList (",".toList ++ ("missing=".toList ++
          (Nat.toDigits 10 missing ++ []))) =
          some ("missing=".toList ++ (Nat.toDigits 10 missing ++ [])) :=
        (Text.find_skip (by decide)).trans (Text.find_self _ _)
      have hbefore : Text.find "missing=".toList afterYes =
          Text.find "missing=".toList (",".toList ++ ("missing=".toList ++
            (Nat.toDigits 10 missing ++ []))) := by
        rw [hafterYes, List.append_nil]
        exact (Text.find_skip (by decide)).trans
          (Text.find_skip (Text.not_mem_toDigits no (by decide)))
      exact hbefore.trans hcomma
    exact parseIntAfter_of_find hmissing ((hfind _ (by simp)).trans
      ((hskip (by decide) (by decide)).trans hfound)) rfl
  have hparts : splitParts (splitBody feature threshold yes no missing) =
      some ((featureName feature).toList, threshold.text) := by
    obtain ⟨rest, hrest⟩ : ∃ rest, rest = " yes=".toList ++ (Nat.toDigits 10 yes ++
        (",no=".toList ++ (Nat.toDigits 10 no ++ (",missing=".toList ++
          Nat.toDigits 10 missing)))) := ⟨_, rfl⟩
    have hopen : Text.cut "[".toList ([] ++ ('[' :: ((featureName feature).toList ++
        ('<' :: (threshold.text ++ (']' :: rest)))))) =
        some ([], (featureName feature).toList ++ ('<' :: (threshold.text ++ (']' :: rest)))) :=
      Text.cut_append (by simp)
    have hless : Text.cut "<".toList ((featureName feature).toList ++
        ('<' :: (threshold.text ++ (']' :: rest)))) =
        some ((featureName feature).toList, threshold.text ++ (']' :: rest)) :=
      Text.cut_append (not_mem_name (by decide))
    have hclose : Text.cut "]".toList (threshold.text ++ (']' :: rest)) =
        some (threshold.text, rest) :=
      Text.cut_append (not_mem_printed threshold (by decide))
    have hname : ∀ feature : Feature, (featureName feature).toList.isEmpty = false := by decide
    rw [List.nil_append] at hopen
    rw [splitBody_eq, ← hrest, splitParts, List.append_assoc, List.cons_append, hopen]
    rw [Option.bind_eq_bind, Option.bind_some]
    dsimp only
    rw [hless, Option.bind_some]
    dsimp only
    rw [hclose, Option.bind_some]
    dsimp only
    rw [hname, List.isEmpty_eq_false_iff.mpr threshold.ne_nil]
    rfl
  have hleaf : ¬"leaf=".toList.isPrefixOf (splitBody feature threshold yes no missing) = true := by
    simp [splitBody, List.isPrefixOf]
  have htrim : trimBlank (featureName feature).toList = (featureName feature).toList := by
    refine Text.trim_self fun c hc => ?_
    have hc' := not_mem_featureName feature c hc
    by_contra hblank
    rw [Bool.not_eq_false, isBlank] at hblank
    simp only [Bool.or_eq_true, beq_iff_eq] at hblank
    rcases hblank with ((rfl | rfl) | rfl) | rfl
    all_goals exact absurd hc' (by decide)
  rw [parseNode, if_neg hleaf, hparts]
  dsimp only
  rw [except_bind_eq_ok]
  refine ⟨_, finiteStod_printed threshold _, except_bind_eq_ok.mpr ⟨_, hyesAt, except_bind_eq_ok.mpr
    ⟨_, hnoAt, except_bind_eq_ok.mpr ⟨_, hmissingAt, ?_⟩⟩⟩⟩
  rw [htrim, String.ofList_toList]
  rfl

theorem parseNode_leaf (path : String) (value : Printed) :
    parseNode exactStod path (leafBody value) = .ok (.leaf value.value) := by
  have hfind : Text.find "leaf=".toList ("leaf=".toList ++ value.text) =
      some ("leaf=".toList ++ value.text) := Text.find_self _ _
  have hvalue : parseDoubleAfter exactStod (leafBody value) "leaf=".toList = .ok value.value := by
    rw [parseDoubleAfter, leafBody, hfind]
    dsimp only
    rw [List.drop_left, takeWhile_printed, finiteStod_printed]
  rw [parseNode, if_pos (by simp [leafBody, List.isPrefixOf]), except_bind_eq_ok]
  exact ⟨_, hvalue, rfl⟩

variable (depth) in
/-- The planner stores the node of a line. -/
theorem loadModelLine_node (path : String) (state : ModelState) (hid : id < 2 ^ 31)
    (hbody : IsBody body) {node : XGBoostNode} (hnode : parseNode exactStod path body = .ok node) :
    loadModelLine exactStod path state (nodeLine depth id body) =
      .ok { state with
        current_tree := some (((id : ℤ), node) :: state.current_tree.getD []) } := by
  have hline : trimBlank ((nodeLine depth id body).takeWhile (· ≠ '#')) =
      Nat.toDigits 10 id ++ ':' :: body :=
    trim_nodeLine depth id (by decide) (fun c => not_isBlank) hbody
  have hcolon : Text.cut ":".toList (Nat.toDigits 10 id ++ ':' :: body) =
      some (Nat.toDigits 10 id, body) :=
    Text.cut_append (Text.not_mem_toDigits id (by decide))
  have hfront : trimBlank (Nat.toDigits 10 id) = Nat.toDigits 10 id :=
    Text.trim_self fun c hc =>
      not_isBlank ((by decide : 33 ≤ 48).trans (le_of_isDigit (isDigit_toDigits hc)))
  have hback : trimBlank body = body := by
    obtain ⟨first, rest, front, last, hfirst, hlast, hge, hge'⟩ := hbody.ends
    have htrim : trimBlank ([] ++ first :: rest) = first :: rest :=
      Text.trim_append (fun _ h => absurd h List.not_mem_nil) (not_isBlank hge) (not_isBlank hge')
        (hfirst.symm.trans hlast)
    rwa [List.nil_append, ← hfirst] at htrim
  rw [loadModelLine, hline]
  rw [if_neg (by simp), if_neg (not_prefix_of_digit rfl _), if_neg, hcolon]
  · dsimp only
    rw [hfront, hback, except_bind_eq_ok]
    exact ⟨_, stoi_toDigits hid, except_bind_eq_ok.mpr ⟨_, hnode, rfl⟩⟩
  · rw [Bool.or_eq_true, not_or]
    exact ⟨not_prefix_of_digit rfl _, not_prefix_of_digit rfl _⟩

end Line

end Prefetch
