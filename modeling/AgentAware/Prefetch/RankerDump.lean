import AgentAware.Lib.Checked
import AgentAware.Lib.Text
import Mathlib.Algebra.BigOperators.Group.List.Basic
import Mathlib.Data.NNRat.Lemmas

/-!
# The dump of the prefetch ranker

The training script writes the trees of an XGBoost booster as text. The script reads the file back
to evaluate it, and the planner reads the same file to score pages online. Both readers are
translated from their own language.

How the planner's reader takes a text for a double, `std::stod`, is a parameter. The comparison of the
two readers is exact: there a printed number stands for the rational number its digits denote. A row is
what the planner knows of a page, and the columns it writes to the trace.

## Main definitions

- `XgbTree` — a tree, its documented meaning, and the lines `get_dump` prints for it
- `Dump`, `trainRealXgboost` — what the script writes
- `loadXgboostDump`, `scoreDump` — the reader of the script
- `loadXgboostModel`, `scoreXgboostModel` — the reader of the planner
- `exactStod` — texts without rounding
-/

namespace Prefetch

/-- The characters a number is printed with. -/
def isNumberChar (c : Char) : Bool :=
  c.isDigit || c == '-' || c == '+' || c == '.' || c == 'e' || c == 'E'

/-- A number as XGBoost prints it, and the number that both readers take it for. -/
structure Printed where
  text : Text
  value : ℚ
  reads : Text.decimal text = some (value, [])
  ne_nil : text ≠ []
  chars : ∀ c ∈ text, isNumberChar c = true

/-- The columns of the trace and the names of the features in a model. -/
def traceFeatures : List (String × String) :=
  [("num_candidates_on_page", "num_candidates_on_page"),
    ("min_pq_rank_on_page", "min_pq_rank_on_page"),
    ("avg_pq_rank_on_page", "avg_pq_rank_on_page"),
    ("candidate_rank_span", "candidate_rank_span"),
    ("contains_top1_candidate", "contains_top1_candidate"),
    ("contains_topk_candidate", "contains_topk_candidate"),
    ("is_cached_at_decision", "is_cached"),
    ("is_inflight_at_decision", "is_inflight"),
    ("io_queue_depth", "io_queue_depth"),
    ("cache_pressure", "cache_pressure")]

/-- A feature of a model, by its index in `TRACE_FEATURES`. -/
abbrev Feature := Fin 10

def featureName (feature : Feature) : String :=
  match traceFeatures[feature.val]? with
  | some (_, name) => name
  | none => ""

/-! ### The trees of a booster -/

/-- A tree with the ids of its nodes; `missing_yes` says which child a missing value goes to. -/
inductive XgbTree where
  | leaf (id : ℕ) (value : Printed)
  | split (id : ℕ) (feature : Feature) (threshold : Printed) (missing_yes : Bool)
      (yes no : XgbTree)

namespace XgbTree

def id : XgbTree → ℕ
  | leaf id _ => id
  | split id _ _ _ _ _ => id

def ids : XgbTree → List ℕ
  | leaf id _ => [id]
  | split id _ _ _ yes no => id :: (yes.ids ++ no.ids)

/-- The documented meaning of a tree. -/
def predict (values : Feature → ℚ) : XgbTree → ℚ
  | leaf _ value => value.value
  | split _ feature threshold _ yes no =>
    if values feature < threshold.value then yes.predict values else no.predict values

/-- A root split with two leaves. -/
def isStump : XgbTree → Bool
  | split _ _ _ _ (leaf _ _) (leaf _ _) => true
  | _ => false

def leafBody (value : Printed) : Text := "leaf=".toList ++ value.text

def splitBody (feature : Feature) (threshold : Printed) (yes no missing : ℕ) : Text :=
  '[' :: ((featureName feature).toList ++ ('<' :: (threshold.text ++ ("] yes=".toList ++
    (Nat.toDigits 10 yes ++ (",no=".toList ++ (Nat.toDigits 10 no ++
      (",missing=".toList ++ Nat.toDigits 10 missing))))))))

def nodeLine (depth id : ℕ) (body : Text) : Text :=
  List.replicate depth '\t' ++ (Nat.toDigits 10 id ++ ':' :: body)

/-- The lines of `get_dump(with_stats=False, dump_format="text")`. -/
def dumpLines (depth : ℕ) : XgbTree → List Text
  | leaf id value => [nodeLine depth id (leafBody value)]
  | split id feature threshold missing_yes yes no =>
    nodeLine depth id (splitBody feature threshold yes.id no.id
        (if missing_yes then yes.id else no.id)) ::
      (yes.dumpLines (depth + 1) ++ no.dumpLines (depth + 1))

/-- How XGBoost numbers the nodes of a tree: the root is 0, its children are 1 and 2, ids are 32-bit
and distinct. -/
structure WellFormed (tree : XgbTree) : Prop where
  root : tree.id = 0
  children : ∀ {id feature threshold missing_yes yes no},
    tree = split id feature threshold missing_yes yes no → yes.id = 1 ∧ no.id = 2
  nodup : tree.ids.Nodup
  int : ∀ id ∈ tree.ids, id < 2 ^ 31

end XgbTree

/-- What a training run hands to the writer: `max(1, rounds)` trees. -/
structure Dump where
  base_score : Printed
  trees : List XgbTree
  trees_ne_nil : trees ≠ []
  wellFormed : ∀ tree ∈ trees, tree.WellFormed

/-- `str.isspace` on the characters of a dump. -/
def pyIsSpace (c : Char) : Bool := Text.isSpace c || (28 ≤ c.toNat && c.toNat ≤ 31)

/-- `tree.rstrip()` of the text of a tree, which `get_dump` ends with a line break. -/
def treeText (tree : XgbTree) : Text := (Text.unlines (tree.dumpLines 0)).rdropWhile pyIsSpace

def trainRealXgboost (dump : Dump) : Text :=
  "# agent-aware xgboost text dump\n".toList ++
    (("base_score=".toList ++ dump.base_score.text ++ ['\n']) ++
      (dump.trees.zipIdx.flatMap fun (tree, tree_id) =>
        ("booster[".toList ++ Nat.toDigits 10 tree_id ++ "]:\n".toList) ++
          (treeText tree ++ ['\n'])))

/-! ### A row -/

/-- The fields of a page that `feature_value` reads; doubles that are finite are exact. -/
structure PrefetchFeature where
  num_candidates_on_page : ℕ := 0
  min_pq_rank_on_page : ℕ := 0
  avg_pq_rank_on_page : ℚ≥0 := 0
  candidate_rank_span : ℕ := 0
  contains_top1_candidate : Bool := false
  contains_topk_candidate : Bool := false
  is_cached : Bool := false
  is_inflight : Bool := false
  is_ready : Bool := false
  is_materialized : Bool := false
  search_step : ℕ := 0
  visited_count : ℕ := 0
  frontier_size : ℕ := 0
  result_size : ℕ := 0
  /-- `none` is not finite. -/
  current_candidate_distance : Option ℚ := none
  worst_result_distance : Option ℚ := none
  ef_search : ℕ := 0
  beam_width : ℕ := 0
  io_queue_depth : ℕ := 0
  max_prefetch_inflight : ℕ := 0
  cache_pressure : ℚ≥0 := 0

def boolValue (flag : Bool) : ℚ := if flag then 1 else 0

def finiteOrZero (value : Option ℚ) : ℚ := value.getD 0

def featureValue (feature : PrefetchFeature) (name : String) : ℚ :=
  if name = "num_candidates_on_page" then feature.num_candidates_on_page
  else if name = "min_pq_rank_on_page" then feature.min_pq_rank_on_page
  else if name = "avg_pq_rank_on_page" then feature.avg_pq_rank_on_page
  else if name = "candidate_rank_span" then feature.candidate_rank_span
  else if name = "contains_top1_candidate" then boolValue feature.contains_top1_candidate
  else if name = "contains_topk_candidate" then boolValue feature.contains_topk_candidate
  else if name = "is_cached" then boolValue feature.is_cached
  else if name = "is_inflight" then boolValue feature.is_inflight
  else if name = "is_ready" then boolValue feature.is_ready
  else if name = "is_materialized" then boolValue feature.is_materialized
  else if name = "search_step" then feature.search_step
  else if name = "visited_count" then feature.visited_count
  else if name = "frontier_size" then feature.frontier_size
  else if name = "result_size" then feature.result_size
  else if name = "current_candidate_distance" then finiteOrZero feature.current_candidate_distance
  else if name = "worst_result_distance" then finiteOrZero feature.worst_result_distance
  else if name = "ef_search" then feature.ef_search
  else if name = "beam_width" then feature.beam_width
  else if name = "io_queue_depth" then feature.io_queue_depth
  else if name = "max_prefetch_inflight" then feature.max_prefetch_inflight
  else if name = "cache_pressure" then feature.cache_pressure
  else 0

/-- The columns of the trace that the script reads, as `write_prefetch_trace` writes them. -/
def traceRow (feature : PrefetchFeature) (column : String) : Option ℚ :=
  if column = "num_candidates_on_page" then some feature.num_candidates_on_page
  else if column = "min_pq_rank_on_page" then some feature.min_pq_rank_on_page
  else if column = "avg_pq_rank_on_page" then some feature.avg_pq_rank_on_page
  else if column = "candidate_rank_span" then some feature.candidate_rank_span
  else if column = "contains_top1_candidate" then some (boolValue feature.contains_top1_candidate)
  else if column = "contains_topk_candidate" then some (boolValue feature.contains_topk_candidate)
  else if column = "is_cached_at_decision" then some (boolValue feature.is_cached)
  else if column = "is_inflight_at_decision" then some (boolValue feature.is_inflight)
  else if column = "io_queue_depth" then some feature.io_queue_depth
  else if column = "cache_pressure" then some feature.cache_pressure
  else none

/-! ### The reader of the script -/

structure Stump where
  feature_idx : ℕ
  threshold : ℚ
  left : ℚ
  right : ℚ
  deriving DecidableEq

/-- `parse_float` on a column: a missing one and `-1` are 0. -/
def parseFloat (value : Option ℚ) : ℚ :=
  match value with
  | none => 0
  | some value => if value = -1 then 0 else value

def vector (row : String → Option ℚ) : List ℚ :=
  traceFeatures.map fun (trace_name, _) => parseFloat (row trace_name)

def Stump.score (stump : Stump) (values : List ℚ) : ℚ :=
  if values.getD stump.feature_idx 0 < stump.threshold then stump.left else stump.right

/-- `float(text)`. -/
def pyFloat (text : Text) : Option ℚ :=
  match Text.decimal (Text.trim pyIsSpace text) with
  | some (value, []) => some value
  | _ => none

/-- `int(text)`. -/
def pyInt (text : Text) : Option ℤ :=
  let (minus, text) := Text.plusMinus (Text.trim pyIsSpace text)
  match Text.digits text with
  | some (taken, []) => some (if minus then -Text.number taken else Text.number taken)
  | _ => none

/-- The variables of the loop of `load_xgboost_dump`. -/
structure DumpState where
  base_score : ℚ := 0
  stumps : List Stump := []
  current_split : Option (ℕ × ℚ) := none
  left_leaf : Option ℚ := none
  right_leaf : Option ℚ := none

/-- The stump of the booster that ends here, if it has all its parts. -/
def DumpState.flush (state : DumpState) : DumpState :=
  match state.current_split, state.left_leaf, state.right_leaf with
  | some (feature_idx, threshold), some left, some right =>
    { state with stumps := state.stumps ++ [⟨feature_idx, threshold, left, right⟩] }
  | _, _, _ => state

/-- `name in feature_to_idx`. -/
def featureToIdx (name : Text) : Option ℕ :=
  traceFeatures.findIdx? fun entry => entry.2.toList = name

/-- One line of the file; `none` when the script raises. -/
def loadDumpLine (state : DumpState) (raw : Text) : Option DumpState :=
  let line := Text.trim pyIsSpace (raw.takeWhile (· ≠ '#'))
  if line.isEmpty then some state
  else if "base_score=".toList.isPrefixOf line then do
    let (_, value) ← Text.cut "=".toList line
    return { state with base_score := ← pyFloat value }
  else if "booster[".toList.isPrefixOf line then
    some { state.flush with current_split := none, left_leaf := none, right_leaf := none }
  else if (Text.cut ":[".toList line).isSome && line.contains '<' then do
    let (_, body) ← Text.cut ":[".toList line
    let (feature, threshold) ← Text.cut "<".toList (body.takeWhile (· ≠ ']'))
    match featureToIdx feature with
    | none => return state
    | some idx => return { state with current_split := some (idx, ← pyFloat threshold) }
  else if (Text.cut ":leaf=".toList line).isSome then do
    let node_id ← pyInt (line.takeWhile (· ≠ ':'))
    let (_, rest) ← Text.cut "leaf=".toList line
    let leaf ← pyFloat (rest.takeWhile (· ≠ ','))
    if node_id = 1 then return { state with left_leaf := some leaf }
    else if node_id = 2 then return { state with right_leaf := some leaf }
    else return state
  else some state

def loadXgboostDump (file : Text) : Option (ℚ × List Stump) := do
  let state ← (Text.lines file).foldlM loadDumpLine {}
  return (state.base_score, state.flush.stumps)

def scoreDump (row : String → Option ℚ) (base_score : ℚ) (stumps : List Stump) : ℚ :=
  base_score + (stumps.map fun stump => stump.score (vector row)).sum

/-! ### The reader of the planner -/

/-- A double; finite ones are rational numbers. -/
inductive Double where
  | nan
  | negInf
  | posInf
  | finite (value : ℚ)
  deriving DecidableEq

inductive XGBoostNode where
  | leaf (leaf_value : ℚ)
  | split (feature : String) (threshold : ℚ) (yes no missing : ℤ)

/-- `std::unordered_map<int, XGBoostNode>`; the entry that was stored last is found. -/
abbrev XGBoostTree := List (ℤ × XGBoostNode)

/-- The variables of the loop of `load_xgboost_model`: the trees before the current one, and the
current one. -/
structure ModelState where
  base_score : ℚ := 0
  trees : List XGBoostTree := []
  current_tree : Option XGBoostTree := none

def ModelState.allTrees (state : ModelState) : List XGBoostTree :=
  state.trees ++ state.current_tree.toList

def isBlank (c : Char) : Bool := c == ' ' || c == '\t' || c == '\r' || c == '\n'

def trimBlank (text : Text) : Text := Text.trim isBlank text

/-- Decimal texts without rounding. -/
def exactStod (text : Text) : Except String Double :=
  match Text.decimal (Text.spaces text) with
  | some (value, _) => .ok (.finite value)
  | none => .error "stod"

def stoi (text : Text) : Except String ℤ :=
  let (minus, text) := Text.plusMinus (Text.spaces text)
  match Text.digits text with
  | none => .error "stoi"
  | some (taken, _) =>
    let value : ℤ := if minus then -Text.number taken else Text.number taken
    if -2 ^ 31 ≤ value ∧ value < 2 ^ 31 then .ok value else .error "stoi"

def parseIntAfter (text key : Text) : Except String ℤ :=
  match Text.find key text with
  | none => .error ("Malformed XGBoost model node: missing " ++ String.ofList key)
  | some found => stoi ((found.drop key.length).takeWhile fun c => c.isDigit || c == '-')

section Load

variable (stod : Text → Except String Double)

/-- `std::stod`, and the check that the number is finite. -/
def finiteStod (text : Text) (message : String) : Except String ℚ := do
  match ← stod text with
  | .finite value => return value
  | _ => .error message

def parseDoubleAfter (text key : Text) : Except String ℚ :=
  match Text.find key text with
  | none => .error ("Malformed XGBoost model node: missing " ++ String.ofList key)
  | some found =>
    finiteStod stod ((found.drop key.length).takeWhile isNumberChar)
      "XGBoost model contains a non-finite value"

/-- The feature and the threshold between `[`, `<` and `]`. -/
def splitParts (body : Text) : Option (Text × Text) := do
  let (_, rest) ← Text.cut "[".toList body
  let (feature, rest) ← Text.cut "<".toList rest
  let (threshold, _) ← Text.cut "]".toList rest
  if feature.isEmpty || threshold.isEmpty then none else some (feature, threshold)

def parseNode (path : String) (body : Text) : Except String XGBoostNode :=
  if "leaf=".toList.isPrefixOf body then
    return .leaf (← parseDoubleAfter stod body "leaf=".toList)
  else
    match splitParts body with
    | none => .error ("Malformed XGBoost split node in " ++ path)
    | some (feature, threshold) =>
      return .split (String.ofList (trimBlank feature))
        (← finiteStod stod threshold "XGBoost split threshold must be finite")
        (← parseIntAfter body "yes=".toList) (← parseIntAfter body "no=".toList)
        (← parseIntAfter body "missing=".toList)

def loadModelLine (path : String) (state : ModelState) (raw : Text) : Except String ModelState :=
  let line := trimBlank (raw.takeWhile (· ≠ '#'))
  if line.isEmpty then .ok state
  else if "base_score=".toList.isPrefixOf line then
    return { state with base_score := ← parseDoubleAfter stod line "base_score=".toList }
  else if "booster[".toList.isPrefixOf line || "tree[".toList.isPrefixOf line then
    .ok { state with trees := state.allTrees, current_tree := some [] }
  else
    match Text.cut ":".toList line with
    | none => .ok state
    | some (front, back) => do
      let node_id ← stoi (trimBlank front)
      let node ← parseNode stod path (trimBlank back)
      return { state with current_tree := some ((node_id, node) :: state.current_tree.getD []) }

def loadXgboostModel (path : String) (file : Text) : Except String (ℚ × List XGBoostTree) := do
  let state ← (Text.lines file).foldlM (loadModelLine stod path) {}
  throwIf (state.allTrees = []) ("Prefetch XGBoost model has no trees: " ++ path)
  return (state.base_score, state.allTrees)

end Load

/-- The walk of one tree. `none` when it goes on after `steps` nodes. -/
def walkTree (tree : XGBoostTree) (feature : PrefetchFeature) :
    ℕ → ℤ → Option (Except String ℚ)
  | 0, _ => none
  | steps + 1, node_id =>
    match tree.lookup node_id with
    | none => some (.error "XGBoost prefetch model references missing node")
    | some (.leaf leaf_value) => some (.ok leaf_value)
    -- Every value is finite, so no walk goes to `missing`.
    | some (.split name threshold yes no _) =>
      walkTree tree feature steps (if featureValue feature name < threshold then yes else no)

/-- A walk of more nodes than the tree has visits one of them twice, and then never ends. -/
def scoreXgboostModel (model : ℚ × List XGBoostTree) (feature : PrefetchFeature) :
    Option (Except String ℚ) :=
  model.2.foldl (fun score tree =>
    match score with
    | some (.ok score) =>
      match walkTree tree feature (tree.length + 1) 0 with
      | some (.ok value) => some (.ok (score + value))
      | other => other
    | other => other) (some (.ok model.1))

end Prefetch
