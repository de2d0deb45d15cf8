import AgentAware.Prefetch.RankerLines
import Mathlib.Data.Fintype.Basic
import Mathlib.Tactic.FinCases
import Mathlib.Tactic.Linarith

/-!
# The evaluator of the script and the scorer of the planner

Both readers take the same file apart line by line. The planner stores every node and walks the
tree; the script keeps the last split of a booster and the leaves with ids 1 and 2. They agree on a
root split with two leaves. For any other tree the script keeps nothing: a booster that is one leaf
has no split, and in a deeper tree node 1 or node 2 is not a leaf.

## Main results

- `loadXgboostModel_eq`, `scoreXgboostModel_eq` — the planner walks every tree to its leaf
- `loadXgboostDump_eq`, `scoreDump_eq` — the script adds up the stumps
- `scores_agree_iff` — when the two scores are the same
-/

namespace Prefetch

open XgbTree (leaf split dumpLines)

/-! ### The tree the planner stores -/

/-- The nodes of a tree in the order of their lines. -/
def XgbTree.nodes : XgbTree → XGBoostTree
  | leaf id value => [((id : ℤ), .leaf value.value)]
  | split id feature threshold missing_yes yes no =>
    ((id : ℤ), .split (featureName feature) threshold.value yes.id no.id
        (if missing_yes then yes.id else no.id : ℕ)) :: (yes.nodes ++ no.nodes)

theorem map_fst_nodes (tree : XgbTree) : tree.nodes.map Prod.fst = tree.ids.map Nat.cast := by
  induction tree with
  | leaf id value => rfl
  | split id feature threshold missing_yes yes no ihyes ihno =>
    rw [XgbTree.nodes, XgbTree.ids, List.map_cons, List.map_cons, List.map_append, List.map_append,
      ihyes, ihno]

theorem id_mem_ids (tree : XgbTree) : tree.id ∈ tree.ids := by
  cases tree with
  | leaf id value => exact List.mem_singleton_self id
  | split id feature threshold missing_yes yes no => exact List.mem_cons_self

theorem foldlM_loadModelLine (path : String) (tree : XgbTree) (hint : ∀ id ∈ tree.ids, id < 2 ^ 31)
    (depth : ℕ) (state : ModelState) {stored : XGBoostTree}
    (hstored : state.current_tree = some stored) :
    (tree.dumpLines depth).foldlM (loadModelLine exactStod path) state =
      .ok { state with current_tree := some (tree.nodes.reverse ++ stored) } := by
  induction tree generalizing depth state stored with
  | leaf id value =>
    rw [dumpLines, List.foldlM_cons, loadModelLine_node depth path state (hint id (by simp [XgbTree.ids]))
      (isBody_leafBody value) (parseNode_leaf path value), hstored]
    rfl
  | split id feature threshold missing_yes yes no ihyes ihno =>
    have hyes := hint yes.id (by simp [XgbTree.ids, id_mem_ids])
    have hno := hint no.id (by simp [XgbTree.ids, id_mem_ids])
    have hmissing : (if missing_yes then yes.id else no.id) < 2 ^ 31 := by
      split_ifs
      · exact hyes
      · exact hno
    have hnode := parseNode_split feature threshold path hyes hno
      hmissing
    have hline := loadModelLine_node depth path state
      (hint id (by simp [XgbTree.ids])) (isBody_splitBody ..) hnode
    rw [dumpLines, List.foldlM_cons, except_bind_eq_ok]
    refine ⟨_, hline, ?_⟩
    rw [List.foldlM_append, except_bind_eq_ok]
    refine ⟨_, ihyes (fun i hi => hint i (by simp [XgbTree.ids, hi])) (depth + 1) _ rfl, ?_⟩
    rw [ihno (fun i hi => hint i (by simp [XgbTree.ids, hi])) (depth + 1) _ rfl, hstored]
    simp [XgbTree.nodes]

/-- A key that is stored once is found. -/
theorem lookup_eq_some {tree : XGBoostTree} (hkeys : (tree.map Prod.fst).Nodup) {key : ℤ}
    {node : XGBoostNode} (hmem : (key, node) ∈ tree) : tree.lookup key = some node := by
  induction tree with
  | nil => cases hmem
  | cons entry tree ih =>
    obtain ⟨other, stored⟩ := entry
    rw [List.map_cons, List.nodup_cons] at hkeys
    rcases List.mem_cons.mp hmem with heq | hmem
    · cases heq
      exact List.lookup_cons_self
    · have hne : key ≠ other := fun heq =>
        hkeys.1 (heq ▸ List.mem_map.mpr ⟨(key, node), hmem, rfl⟩)
      rw [List.lookup_cons, beq_eq_false_iff_ne.mpr hne]
      exact ih hkeys.2 hmem

/-- What a row tells the planner of a feature. -/
def rowValue (feature : PrefetchFeature) (index : Feature) : ℚ :=
  featureValue feature (featureName index)

/-- A walk from the root of a tree that is stored ends in the leaf of the row. -/
theorem walkTree_eq {stored : XGBoostTree} (hkeys : (stored.map Prod.fst).Nodup)
    (feature : PrefetchFeature) (tree : XgbTree) (hnodes : ∀ entry ∈ tree.nodes, entry ∈ stored)
    {steps : ℕ} (hsteps : tree.nodes.length ≤ steps) :
    walkTree stored feature steps tree.id = some (.ok (tree.predict (rowValue feature))) := by
  induction tree generalizing steps with
  | leaf id value =>
    cases steps with
    | zero => simp [XgbTree.nodes] at hsteps
    | succ steps =>
      rw [walkTree, XgbTree.id, lookup_eq_some hkeys (hnodes _ List.mem_cons_self)]
      rfl
  | split id index threshold missing_yes yes no ihyes ihno =>
    cases steps with
    | zero => simp [XgbTree.nodes] at hsteps
    | succ steps =>
      rw [XgbTree.nodes, List.length_cons, List.length_append] at hsteps
      rw [walkTree, XgbTree.id, lookup_eq_some hkeys (hnodes _ List.mem_cons_self)]
      dsimp only
      rw [XgbTree.predict, rowValue]
      by_cases hless : featureValue feature (featureName index) < threshold.value
      · rw [if_pos hless, if_pos hless]
        exact ihyes (fun entry he => hnodes entry (by simp [XgbTree.nodes, he])) (by omega)
      · rw [if_neg hless, if_neg hless]
        exact ihno (fun entry he => hnodes entry (by simp [XgbTree.nodes, he])) (by omega)

/-- The walk of a tree that is well formed. -/
theorem walkTree_wellFormed {tree : XgbTree} (h : tree.WellFormed) (feature : PrefetchFeature) :
    walkTree tree.nodes.reverse feature (tree.nodes.reverse.length + 1) 0 =
      some (.ok (tree.predict (rowValue feature))) := by
  have hkeys : (tree.nodes.reverse.map Prod.fst).Nodup := by
    rw [List.map_reverse, List.nodup_reverse, map_fst_nodes]
    exact h.nodup.map Nat.cast_injective
  have hsteps : tree.nodes.length ≤ tree.nodes.reverse.length + 1 := by
    rw [List.length_reverse]
    omega
  have hwalk := walkTree_eq hkeys feature tree (fun entry he => List.mem_reverse.mpr he) hsteps
  rwa [h.root, Nat.cast_zero] at hwalk

/-! ### The stumps the script keeps -/

/-- The last split of a tree. -/
def lastSplit : XgbTree → Option (ℕ × ℚ)
  | leaf _ _ => none
  | split _ feature threshold _ yes no =>
    (lastSplit no).or ((lastSplit yes).or (some (feature.val, threshold.value)))

/-- The last leaf with an id. -/
def leafWith (wanted : ℕ) : XgbTree → Option ℚ
  | leaf id value => if id = wanted then some value.value else none
  | split _ _ _ _ yes no => (leafWith wanted no).or (leafWith wanted yes)

theorem foldlM_loadDumpLine (tree : XgbTree) (depth : ℕ) (state : DumpState) :
    (tree.dumpLines depth).foldlM loadDumpLine state =
      some { state with
        current_split := (lastSplit tree).or state.current_split
        left_leaf := (leafWith 1 tree).or state.left_leaf
        right_leaf := (leafWith 2 tree).or state.right_leaf } := by
  induction tree generalizing depth state with
  | leaf id value =>
    have hone : (id : ℤ) = 1 ↔ id = 1 := by omega
    have htwo : (id : ℤ) = 2 ↔ id = 2 := by omega
    rw [dumpLines, List.foldlM_cons, loadDumpLine_leaf]
    by_cases h1 : id = 1
    · simp [h1, leafWith, lastSplit]
    · by_cases h2 : id = 2
      · simp [h2, leafWith, lastSplit]
      · simp [hone, htwo, h1, h2, leafWith, lastSplit]
  | split id feature threshold missing_yes yes no ihyes ihno =>
    rw [dumpLines, List.foldlM_cons, loadDumpLine_split, Option.bind_eq_bind, Option.bind_some,
      List.foldlM_append, ihyes, Option.bind_eq_bind, Option.bind_some, ihno]
    simp only [lastSplit, leafWith, Option.or_assoc, Option.some_or]

theorem leafWith_eq_none {tree : XgbTree} {wanted : ℕ} (h : wanted ∉ tree.ids) :
    leafWith wanted tree = none := by
  induction tree with
  | leaf id value =>
    rw [XgbTree.ids, List.mem_singleton] at h
    rw [leafWith, if_neg (Ne.symm h)]
  | split id feature threshold missing_yes yes no ihyes ihno =>
    rw [XgbTree.ids, List.mem_cons, List.mem_append, not_or, not_or] at h
    rw [leafWith, ihno h.2.2, ihyes h.2.1]
    rfl

/-- A node that splits is not a leaf. -/
theorem leafWith_split {tree : XgbTree} (hnodup : tree.ids.Nodup) {id : ℕ} {feature : Feature}
    {threshold : Printed} {missing_yes : Bool} {yes no : XgbTree}
    (htree : tree = split id feature threshold missing_yes yes no) :
    leafWith id tree = none := by
  subst htree
  rw [XgbTree.ids, List.nodup_cons, List.mem_append, not_or] at hnodup
  rw [leafWith, leafWith_eq_none hnodup.1.2, leafWith_eq_none hnodup.1.1]
  rfl

/-- What the script keeps of a booster. -/
def stumpOf : XgbTree → Option Stump
  | split _ feature threshold _ (leaf _ left) (leaf _ right) =>
    some ⟨feature.val, threshold.value, left.value, right.value⟩
  | _ => none

/-- The stump of a tree, put together from the pieces that its lines leave. -/
def keptStump (tree : XgbTree) : Option Stump :=
  match lastSplit tree, leafWith 1 tree, leafWith 2 tree with
  | some (feature_idx, threshold), some left, some right =>
    some ⟨feature_idx, threshold, left, right⟩
  | _, _, _ => none

theorem keptStump_eq {tree : XgbTree} (h : tree.WellFormed) : keptStump tree = stumpOf tree := by
  obtain ⟨hroot, hchildren, hnodup, -⟩ := h
  cases tree with
  | leaf id value => rfl
  | split id feature threshold missing_yes yes no =>
    obtain ⟨hyes, hno⟩ := hchildren rfl
    rw [XgbTree.ids, List.nodup_cons, List.nodup_append] at hnodup
    obtain ⟨-, hyesNodup, hnoNodup, hapart⟩ := hnodup
    have hone : (1 : ℕ) ∉ no.ids := fun hmem => hapart 1 (hyes ▸ id_mem_ids yes) 1 hmem rfl
    have htwo : (2 : ℕ) ∉ yes.ids := fun hmem => hapart 2 hmem 2 (hno ▸ id_mem_ids no) rfl
    have hleft : leafWith 1 (split id feature threshold missing_yes yes no) = leafWith 1 yes := by
      rw [leafWith, leafWith_eq_none hone]
      rfl
    have hright : leafWith 2 (split id feature threshold missing_yes yes no) = leafWith 2 no := by
      rw [leafWith, leafWith_eq_none htwo]
      exact Option.or_none
    rw [keptStump, hleft, hright]
    cases yes with
    | split yid yfeature ythreshold ymissing yyes yno =>
      rw [← hyes, XgbTree.id, leafWith_split hyesNodup rfl]
      cases lastSplit (split id feature threshold missing_yes
        (split yid yfeature ythreshold ymissing yyes yno) no) <;> rfl
    | leaf yid left =>
      cases no with
      | split nid nfeature nthreshold nmissing nyes nno =>
        rw [← hno, XgbTree.id, leafWith_split hnoNodup rfl]
        simp only [stumpOf]
        cases lastSplit (split id feature threshold missing_yes (leaf yid left)
          (split nid nfeature nthreshold nmissing nyes nno)) <;>
          cases leafWith 1 (leaf yid left) <;> rfl
      | leaf nid right =>
        rw [XgbTree.id] at hyes hno
        simp [leafWith, lastSplit, stumpOf, hyes, hno]

/-! ### The lines of the file -/

/-- The lines of one booster. -/
def boosterLines (entry : XgbTree × ℕ) : List Text :=
  ("booster[".toList ++ Nat.toDigits 10 entry.2 ++ "]:".toList) :: entry.1.dumpLines 0

def fileLines (dump : Dump) : List Text :=
  "# agent-aware xgboost text dump".toList :: ("base_score=".toList ++ dump.base_score.text) ::
    dump.trees.zipIdx.flatMap boosterLines

theorem newline_not_mem_dumpLines (tree : XgbTree) (depth : ℕ) :
    ∀ line ∈ tree.dumpLines depth, '\n' ∉ line := by
  have hnode : ∀ {depth id : ℕ} {body : Text}, IsBody body → '\n' ∉ XgbTree.nodeLine depth id body := by
    intro depth id body hbody h
    simp only [XgbTree.nodeLine, List.mem_append, List.mem_replicate, List.mem_cons] at h
    rcases h with ⟨-, h⟩ | h | h | h
    · cases h
    · exact Text.not_mem_toDigits id (by decide) h
    · cases h
    · exact hbody.newline h
  induction tree generalizing depth with
  | leaf id value =>
    intro line hline
    rw [dumpLines, List.mem_singleton] at hline
    exact hline ▸ hnode (isBody_leafBody value)
  | split id feature threshold missing_yes yes no ihyes ihno =>
    intro line hline
    rw [dumpLines, List.mem_cons, List.mem_append] at hline
    rcases hline with rfl | hline | hline
    · exact hnode (isBody_splitBody ..)
    · exact ihyes (depth + 1) line hline
    · exact ihno (depth + 1) line hline

theorem newline_not_mem_fileLines (dump : Dump) : ∀ line ∈ fileLines dump, '\n' ∉ line := by
  intro line hline
  unfold fileLines at hline
  rw [List.mem_cons, List.mem_cons, List.mem_flatMap] at hline
  rcases hline with rfl | rfl | ⟨entry, -, hline⟩
  · decide
  · intro h
    exact (List.mem_append.mp h).elim (by decide) (not_mem_printed dump.base_score (by decide))
  · rcases List.mem_cons.mp hline with rfl | hline
    · intro h
      rcases List.mem_append.mp h with h | h
      · exact (List.mem_append.mp h).elim (by decide) (Text.not_mem_toDigits _ (by decide))
      · exact absurd h (by decide)
    · exact newline_not_mem_dumpLines _ _ line hline

/-- The text of a tree ends with a line that ends with a character. -/
theorem exists_last_dumpLines (tree : XgbTree) (depth : ℕ) :
    ∃ init front last, tree.dumpLines depth = init ++ [front ++ [last]] ∧ 33 ≤ last.toNat := by
  induction tree generalizing depth with
  | leaf id value =>
    obtain ⟨-, -, -, -, -, front, last, -, hends, -, hlast⟩ := isBody_leafBody value
    refine ⟨[], List.replicate depth '\t' ++ (Nat.toDigits 10 id ++ ':' :: front), last, ?_, hlast⟩
    rw [dumpLines, XgbTree.nodeLine, hends]
    simp
  | split id feature threshold missing_yes yes no ihyes ihno =>
    obtain ⟨init, front, last, hlines, hlast⟩ := ihno (depth + 1)
    rw [dumpLines, hlines]
    exact ⟨_ :: (yes.dumpLines (depth + 1) ++ init), front, last,
      by rw [List.cons_append, List.append_assoc], hlast⟩

/-- `rstrip` takes away the last line break only, which the script writes again. -/
theorem treeText_append (tree : XgbTree) :
    treeText tree ++ ['\n'] = Text.unlines (tree.dumpLines 0) := by
  obtain ⟨init, front, last, hlines, hlast⟩ := exists_last_dumpLines tree 0
  have hunlines : Text.unlines (tree.dumpLines 0) =
      ((Text.unlines init ++ front) ++ [last]) ++ ['\n'] := by
    rw [hlines]
    simp [Text.unlines]
  rw [treeText, hunlines, List.rdropWhile_concat_pos _ _ _ (by decide),
    List.rdropWhile_concat_neg _ _ _ (by simp [not_pyIsSpace hlast])]

theorem lines_trainRealXgboost (dump : Dump) :
    Text.lines (trainRealXgboost dump) = fileLines dump := by
  have hbooster : ∀ (booster : XgbTree × ℕ → Text),
      (∀ tree tree_id, booster (tree, tree_id) =
        ("booster[".toList ++ Nat.toDigits 10 tree_id ++ "]:\n".toList) ++
          (treeText tree ++ ['\n'])) →
      ∀ entries : List (XgbTree × ℕ),
        entries.flatMap booster = Text.unlines (entries.flatMap boosterLines) := by
    intro booster hwritten entries
    induction entries with
    | nil => rfl
    | cons entry entries ih =>
      obtain ⟨tree, tree_id⟩ := entry
      rw [List.flatMap_cons, ih, hwritten, treeText_append]
      simp [Text.unlines, boosterLines]
  have hhead : "# agent-aware xgboost text dump\n".toList =
      "# agent-aware xgboost text dump".toList ++ ['\n'] := by decide +kernel
  have hfile : trainRealXgboost dump = Text.unlines (fileLines dump) := by
    unfold trainRealXgboost fileLines
    rw [hbooster _ fun _ _ => rfl, hhead, Text.unlines, Text.unlines, List.flatMap_cons, List.flatMap_cons]
  rw [hfile, Text.lines_unlines (newline_not_mem_fileLines dump)]

/-! ### Both readers on the file -/

section Load

variable (path : String) (dump : Dump)

theorem takeWhile_baseLine :
    ("base_score=".toList ++ dump.base_score.text).takeWhile (· ≠ '#') =
      "base_score=".toList ++ dump.base_score.text :=
  Text.takeWhile_ne_self fun h =>
    (List.mem_append.mp h).elim (by decide) (not_mem_printed dump.base_score (by decide))

theorem le_of_mem_baseLine {c : Char} (h : c ∈ "base_score=".toList ++ dump.base_score.text) :
    33 ≤ c.toNat := by
  rcases List.mem_append.mp h with h | h
  · exact of_decide_eq_true (List.all_eq_true.mp
      (by decide : "base_score=".toList.all (fun c => decide (33 ≤ c.toNat)) = true) c h)
  · have := le_of_isNumberChar (dump.base_score.chars c h)
    omega

theorem takeWhile_boosterLine (tree_id : ℕ) :
    ("booster[".toList ++ Nat.toDigits 10 tree_id ++ "]:".toList).takeWhile (· ≠ '#') =
      "booster[".toList ++ Nat.toDigits 10 tree_id ++ "]:".toList := by
  refine Text.takeWhile_ne_self fun h => ?_
  rcases List.mem_append.mp h with h | h
  · exact (List.mem_append.mp h).elim (by decide) (Text.not_mem_toDigits _ (by decide))
  · exact absurd h (by decide)

theorem le_of_mem_boosterLine {tree_id : ℕ} {c : Char}
    (h : c ∈ "booster[".toList ++ Nat.toDigits 10 tree_id ++ "]:".toList) : 33 ≤ c.toNat := by
  rcases List.mem_append.mp h with h | h
  · rcases List.mem_append.mp h with h | h
    · exact of_decide_eq_true (List.all_eq_true.mp
        (by decide : "booster[".toList.all (fun c => decide (33 ≤ c.toNat)) = true) c h)
    · have := le_of_isDigit (isDigit_toDigits h)
      omega
  · exact of_decide_eq_true (List.all_eq_true.mp
      (by decide : "]:".toList.all (fun c => decide (33 ≤ c.toNat)) = true) c h)

theorem loadDumpLine_booster (state : DumpState) (tree_id : ℕ) :
    loadDumpLine state ("booster[".toList ++ Nat.toDigits 10 tree_id ++ "]:".toList) =
      some { state.flush with current_split := none, left_leaf := none, right_leaf := none } := by
  rw [loadDumpLine, takeWhile_boosterLine,
    Text.trim_self fun c hc => not_pyIsSpace (le_of_mem_boosterLine hc)]
  dsimp only
  rw [if_neg (by simp), if_neg (by simp [List.isPrefixOf]), if_pos (by simp [List.isPrefixOf])]

theorem loadModelLine_booster (state : ModelState) (tree_id : ℕ) :
    loadModelLine exactStod path state ("booster[".toList ++ Nat.toDigits 10 tree_id ++ "]:".toList) =
      .ok { state with trees := state.allTrees, current_tree := some [] } := by
  rw [loadModelLine, takeWhile_boosterLine, trimBlank,
    Text.trim_self fun c hc => not_isBlank (le_of_mem_boosterLine hc)]
  rw [if_neg (by simp), if_neg (by simp [List.isPrefixOf]), if_pos (by simp [List.isPrefixOf])]

theorem loadDumpLine_base (state : DumpState) :
    loadDumpLine state ("base_score=".toList ++ dump.base_score.text) =
      some { state with base_score := dump.base_score.value } := by
  have hcut : Text.cut "=".toList ("base_score".toList ++ ("=".toList ++ dump.base_score.text)) =
      some ("base_score".toList, dump.base_score.text) := Text.cut_append (by decide)
  rw [loadDumpLine, takeWhile_baseLine,
    Text.trim_self fun c hc => not_pyIsSpace (le_of_mem_baseLine dump hc)]
  dsimp only
  rw [if_neg (by simp), if_pos (by simp [List.isPrefixOf])]
  change ((Text.cut "=".toList
    ("base_score".toList ++ ("=".toList ++ dump.base_score.text))).bind _) = _
  rw [hcut, Option.bind_some]
  dsimp only
  rw [pyFloat_printed]
  rfl

theorem loadModelLine_base (state : ModelState) :
    loadModelLine exactStod path state ("base_score=".toList ++ dump.base_score.text) =
      .ok { state with base_score := dump.base_score.value } := by
  have hfind : Text.find "base_score=".toList ("base_score=".toList ++ dump.base_score.text) =
      some ("base_score=".toList ++ dump.base_score.text) := Text.find_self _ _
  have hvalue : parseDoubleAfter exactStod ("base_score=".toList ++ dump.base_score.text)
      "base_score=".toList = .ok dump.base_score.value := by
    rw [parseDoubleAfter, hfind]
    dsimp only
    rw [List.drop_left, takeWhile_printed, finiteStod_printed]
  rw [loadModelLine, takeWhile_baseLine, trimBlank,
    Text.trim_self fun c hc => not_isBlank (le_of_mem_baseLine dump hc)]
  rw [if_neg (by simp), if_pos (by simp [List.isPrefixOf]), except_bind_eq_ok]
  exact ⟨_, hvalue, rfl⟩

theorem foldlM_boosters_model {entries : List (XgbTree × ℕ)}
    (hentries : ∀ entry ∈ entries, ∀ id ∈ entry.1.ids, id < 2 ^ 31) (state : ModelState) :
    ∃ last, (entries.flatMap boosterLines).foldlM (loadModelLine exactStod path) state = .ok last ∧
      last.base_score = state.base_score ∧
      last.allTrees = state.allTrees ++ entries.map fun entry => entry.1.nodes.reverse := by
  induction entries generalizing state with
  | nil => exact ⟨state, rfl, rfl, by simp⟩
  | cons entry entries ih =>
    have hrest := ih fun e he => hentries e (List.mem_cons_of_mem _ he)
    obtain ⟨last, hlast, hbase, htrees⟩ := hrest
      { state with trees := state.allTrees, current_tree := some entry.1.nodes.reverse }
    refine ⟨last, ?_, hbase, ?_⟩
    · rw [List.flatMap_cons, boosterLines, List.cons_append, List.foldlM_cons, except_bind_eq_ok]
      refine ⟨_, loadModelLine_booster path state entry.2, ?_⟩
      rw [List.foldlM_append, except_bind_eq_ok]
      refine ⟨_, foldlM_loadModelLine path entry.1 (hentries entry List.mem_cons_self) 0 _ rfl, ?_⟩
      rw [List.append_nil]
      exact hlast
    · rw [htrees, ModelState.allTrees, List.map_cons]
      simp

theorem foldlM_boosters_dump (entries : List (XgbTree × ℕ)) (state : DumpState) :
    ∃ last, (entries.flatMap boosterLines).foldlM loadDumpLine state = some last ∧
      last.flush.base_score = state.base_score ∧
      last.flush.stumps =
        state.flush.stumps ++ entries.filterMap fun entry => keptStump entry.1 := by
  induction entries generalizing state with
  | nil =>
    refine ⟨state, rfl, ?_, by simp⟩
    rw [DumpState.flush]
    split <;> rfl
  | cons entry entries ih =>
    obtain ⟨last, hlast, hbase, hstumps⟩ := ih
      { state.flush with
        current_split := lastSplit entry.1
        left_leaf := leafWith 1 entry.1
        right_leaf := leafWith 2 entry.1 }
    refine ⟨last, ?_, ?_, ?_⟩
    · rw [List.flatMap_cons, boosterLines, List.cons_append, List.foldlM_cons, loadDumpLine_booster,
        Option.bind_eq_bind, Option.bind_some, List.foldlM_append, foldlM_loadDumpLine,
        Option.bind_eq_bind, Option.bind_some, Option.or_none, Option.or_none, Option.or_none]
      exact hlast
    · rw [hbase, DumpState.flush]
      split <;> rfl
    · rw [hstumps, List.filterMap_cons, keptStump]
      conv_lhs => rw [DumpState.flush]
      dsimp only
      cases lastSplit entry.1 with
      | none => rfl
      | some found =>
        cases leafWith 1 entry.1 with
        | none => rfl
        | some left =>
          cases leafWith 2 entry.1 with
          | none => rfl
          | some right => exact List.append_assoc ..

/-- What the planner loads: every tree, node by node. -/
theorem loadXgboostModel_eq :
    loadXgboostModel exactStod path (trainRealXgboost dump) =
      .ok (dump.base_score.value, dump.trees.map fun tree => tree.nodes.reverse) := by
  have hint : ∀ entry ∈ dump.trees.zipIdx, ∀ id ∈ entry.1.ids, id < 2 ^ 31 := fun entry he =>
    (dump.wellFormed entry.1 (List.fst_mem_of_mem_zipIdx he)).int
  obtain ⟨last, hlast, hbase, htrees⟩ := foldlM_boosters_model path hint
    { base_score := dump.base_score.value }
  have hmap : (dump.trees.zipIdx.map fun entry => entry.1.nodes.reverse) =
      dump.trees.map fun tree => tree.nodes.reverse := by
    conv_rhs => rw [← List.zipIdx_map_fst 0 dump.trees, List.map_map]
    rfl
  have hcomment : loadModelLine exactStod path {} "# agent-aware xgboost text dump".toList = .ok {} := by
    rfl
  have hload : (fileLines dump).foldlM (loadModelLine exactStod path) {} = .ok last := by
    unfold fileLines
    rw [List.foldlM_cons, except_bind_eq_ok]
    refine ⟨_, hcomment, ?_⟩
    rw [List.foldlM_cons, except_bind_eq_ok]
    exact ⟨_, loadModelLine_base path dump {}, hlast⟩
  have hall : last.allTrees = dump.trees.map fun tree => tree.nodes.reverse := by
    rw [htrees, hmap]
    rfl
  have hne : last.allTrees ≠ [] := by
    rw [hall, ne_eq, List.map_eq_nil_iff]
    exact dump.trees_ne_nil
  rw [loadXgboostModel, lines_trainRealXgboost, except_bind_eq_ok]
  refine ⟨last, hload, ?_⟩
  rw [throwIf_bind_eq_ok]
  refine ⟨hne, ?_⟩
  rw [hall, hbase]
  rfl

/-- What the script loads: the trees that are stumps. -/
theorem loadXgboostDump_eq :
    loadXgboostDump (trainRealXgboost dump) =
      some (dump.base_score.value, dump.trees.filterMap stumpOf) := by
  obtain ⟨last, hlast, hbase, hstumps⟩ := foldlM_boosters_dump dump.trees.zipIdx
    { base_score := dump.base_score.value }
  have hcomment : loadDumpLine {} "# agent-aware xgboost text dump".toList = some {} := by
    rfl
  have hload : (fileLines dump).foldlM loadDumpLine {} = some last := by
    unfold fileLines
    rw [List.foldlM_cons, hcomment, Option.bind_eq_bind, Option.bind_some, List.foldlM_cons,
      loadDumpLine_base, Option.bind_eq_bind, Option.bind_some]
    exact hlast
  have hkept : (dump.trees.zipIdx.filterMap fun entry => keptStump entry.1) =
      dump.trees.filterMap stumpOf := by
    conv_rhs => rw [← List.zipIdx_map_fst 0 dump.trees, List.filterMap_map]
    refine List.filterMap_congr fun entry he => ?_
    exact keptStump_eq (dump.wellFormed entry.1 (List.fst_mem_of_mem_zipIdx he))
  have hflush : last.flush.base_score = last.base_score := by
    rw [DumpState.flush]
    split <;> rfl
  rw [loadXgboostDump, lines_trainRealXgboost, hload, Option.bind_eq_bind, Option.bind_some,
    ← hflush, hbase, hstumps, hkept]
  rfl

end Load

/-! ### Both scores -/

theorem foldl_walks (feature : PrefetchFeature) {trees : List XgbTree}
    (htrees : ∀ tree ∈ trees, tree.WellFormed) (score : ℚ) :
    scoreXgboostModel (score, trees.map fun tree => tree.nodes.reverse) feature =
      some (.ok (score + (trees.map (XgbTree.predict (rowValue feature))).sum)) := by
  induction trees generalizing score with
  | nil => simp [scoreXgboostModel]
  | cons tree trees ih =>
    have hwalk := walkTree_wellFormed (htrees tree List.mem_cons_self) feature
    have hrest := ih (fun t ht => htrees t (List.mem_cons_of_mem _ ht))
      (score + tree.predict (rowValue feature))
    rw [scoreXgboostModel, List.map_cons, List.foldl_cons, hwalk, List.map_cons, List.sum_cons,
      ← add_assoc]
    exact hrest

/-- The script and the planner see the same values. -/
theorem vector_traceRow (feature : PrefetchFeature) (index : Feature) :
    (vector (traceRow feature)).getD index.val 0 = rowValue feature index := by
  have hparse : ∀ value : ℚ, 0 ≤ value → parseFloat (some value) = value := by
    intro value h
    rw [parseFloat, if_neg (by linarith)]
  have hbool : ∀ flag, (0 : ℚ) ≤ boolValue flag := by
    intro flag
    cases flag <;> simp [boolValue]
  fin_cases index
  · exact hparse _ (Nat.cast_nonneg _)
  · exact hparse _ (Nat.cast_nonneg _)
  · exact hparse _ (NNRat.cast_nonneg _)
  · exact hparse _ (Nat.cast_nonneg _)
  · exact hparse _ (hbool _)
  · exact hparse _ (hbool _)
  · exact hparse _ (hbool _)
  · exact hparse _ (hbool _)
  · exact hparse _ (Nat.cast_nonneg _)
  · exact hparse _ (NNRat.cast_nonneg _)

theorem stumpOf_score {tree : XgbTree} {stump : Stump} (h : stumpOf tree = some stump)
    (feature : PrefetchFeature) :
    stump.score (vector (traceRow feature)) = tree.predict (rowValue feature) := by
  cases tree with
  | leaf id value => cases h
  | split id index threshold missing_yes yes no =>
    cases yes with
    | split => cases h
    | leaf yid left =>
      cases no with
      | split => cases h
      | leaf nid right =>
        cases h
        rw [Stump.score, vector_traceRow]
        rfl

theorem stumpOf_isStump (tree : XgbTree) : (stumpOf tree).isSome = tree.isStump := by
  cases tree with
  | leaf id value => rfl
  | split id index threshold missing_yes yes no => cases yes <;> cases no <;> rfl

/-- The trees of a dump that the script drops. -/
def Dump.dropped (dump : Dump) : List XgbTree := dump.trees.filter fun tree => !tree.isStump

/-- The trees together are the stumps and what the script drops. -/
theorem sum_predict (feature : PrefetchFeature) (trees : List XgbTree) :
    (trees.map (XgbTree.predict (rowValue feature))).sum =
      ((trees.filterMap stumpOf).map fun stump =>
          stump.score (vector (traceRow feature))).sum +
        ((trees.filter fun tree => !tree.isStump).map
          (XgbTree.predict (rowValue feature))).sum := by
  induction trees with
  | nil => simp
  | cons tree trees ih =>
    cases hstump : stumpOf tree with
    | none =>
      have hdropped : (!tree.isStump) = true := by rw [← stumpOf_isStump, hstump]; rfl
      rw [List.filterMap_cons_none hstump,
        List.filter_cons_of_pos (p := fun tree : XgbTree => !tree.isStump) hdropped, List.map_cons,
        List.map_cons, List.sum_cons, List.sum_cons, ih, add_left_comm]
    | some stump =>
      have hkept : ¬(!tree.isStump) = true := by simp [← stumpOf_isStump, hstump]
      rw [List.filterMap_cons_some hstump,
        List.filter_cons_of_neg (p := fun tree : XgbTree => !tree.isStump) hkept, List.map_cons,
        List.map_cons, List.sum_cons, List.sum_cons, ih, stumpOf_score hstump, add_assoc]

/-- Both readers load the file, both scorers return, and the scores are the same. -/
def ScoresAgree (path : String) (file : Text) (feature : PrefetchFeature) : Prop :=
  ∃ base_score stumps model, loadXgboostDump file = some (base_score, stumps) ∧
    loadXgboostModel exactStod path file = .ok model ∧
    scoreXgboostModel model feature =
      some (.ok (scoreDump (traceRow feature) base_score stumps))

/-- The scores are the same exactly when the trees that are not a root split with two leaves
contribute nothing to the row. -/
theorem scores_agree_iff (path : String) (dump : Dump) (feature : PrefetchFeature) :
    ScoresAgree path (trainRealXgboost dump) feature ↔
      (dump.dropped.map (XgbTree.predict (rowValue feature))).sum = 0 := by
  have honline := foldl_walks feature dump.wellFormed dump.base_score.value
  rw [sum_predict, ← add_assoc] at honline
  constructor
  · rintro ⟨base_score, stumps, model, hdump, hmodel, hscore⟩
    rw [loadXgboostDump_eq] at hdump
    rw [loadXgboostModel_eq] at hmodel
    cases hdump
    cases hmodel
    rw [honline] at hscore
    have hsame := Except.ok.inj (Option.some.inj hscore)
    rw [scoreDump] at hsame
    exact left_eq_add.mp hsame.symm
  · intro h
    refine ⟨_, _, _, loadXgboostDump_eq dump, loadXgboostModel_eq path dump, ?_⟩
    have hdropped : ((dump.trees.filter fun tree => !tree.isStump).map
        (XgbTree.predict (rowValue feature))).sum = 0 := h
    rw [honline, hdropped, add_zero, scoreDump]

/-- A digit, as it is printed. -/
def printedDigit (digit : Fin 10) : Printed where
  text := Nat.toDigits 10 digit.val
  value := digit.val
  reads := by revert digit; decide +kernel
  ne_nil := by revert digit; decide +kernel
  chars c hc := by rw [isNumberChar, isDigit_toDigits hc]; rfl

/-- One booster of depth 2. -/
def deepDump : Dump where
  base_score := printedDigit 0
  trees := [.split 0 0 (printedDigit 2) true
    (.split 1 1 (printedDigit 3) true (.leaf 3 (printedDigit 5)) (.leaf 4 (printedDigit 7)))
    (.leaf 2 (printedDigit 1))]
  trees_ne_nil := by simp
  wellFormed := by
    intro tree htree
    rw [List.mem_singleton] at htree
    subst htree
    refine ⟨rfl, fun h => ?_, by decide, by decide⟩
    cases h
    exact ⟨rfl, rfl⟩

/-- The script scores a booster of depth 2 as 0, the planner by the leaf of the row. -/
theorem scores_disagree_deep : ¬ScoresAgree "model.txt" (trainRealXgboost deepDump) {} := by
  rintro ⟨base_score, stumps, model, hdump, hmodel, hscore⟩
  rw [loadXgboostDump_eq] at hdump
  rw [loadXgboostModel_eq] at hmodel
  cases hdump
  cases hmodel
  rw [foldl_walks {} deepDump.wellFormed] at hscore
  have hsame := Except.ok.inj (Option.some.inj hscore)
  exact absurd hsame (by decide +kernel)

end Prefetch
