import AgentAware.Core.Types
import AgentAware.Lib.TopK
import AgentAware.Packed.PageCache
import Mathlib.Algebra.Order.Ring.Rat
import Mathlib.Algebra.Field.Rat
import Mathlib.Algebra.Order.Field.Basic
import Mathlib.Data.Prod.Lex

/-!
# Runs of the page cache

One configuration, and any sequence of lookups, stores, loads, pins, unpins and evictions. The scores
are those of the source over an ordered field, so that no rounding happens; `log1p` is a parameter.

## Main definitions

- `CacheConfig.policy` — `cache_score` and `page_hot_score` of a configuration
- `PageCache.loadPage` — a page through the cache
- `CacheRun.step` — one call, with the pins that are held and the accesses so far
- `PageCache.rank` — the order the victim is the minimum of

## Main results

- `inv_step` — what every call preserves
- `evictOnePage_perm` — the victim, whatever the order of the entries
- `cacheSafe_of_reachable` — every state of every run
-/

namespace Packed

/-! ### The policies -/

/-- What the cache reads of a node of a page. -/
structure PageNode where
  id : NodeId
  neighbors : List NodeId
  deriving DecidableEq

/-- The arguments of `configure_cache`. -/
structure CacheConfig where
  cache_policy : String := "none"
  cache_capacity_pages : ℕ := 0
  cache_protect_hot_pages : Bool := false
  cache_hot_degree_threshold : ℕ := 0
  deriving DecidableEq

namespace CacheConfig

def isTwoQueuePolicy (config : CacheConfig) : Bool :=
  config.cache_policy = "2q" || config.cache_policy = "graph-aware-2q" ||
    config.cache_policy = "agent"

def isGraphAwareCachePolicy (config : CacheConfig) : Bool :=
  config.cache_policy = "graph-aware-2q" || config.cache_policy = "agent"

/-- `node_in_degrees` is empty until `ensure_node_in_degrees` has filled it. -/
def pageHotScore (config : CacheConfig) (node_in_degrees : List ℕ)
    (page : DecodedPage (List PageNode)) : ℕ :=
  if !config.cache_protect_hot_pages && !config.isGraphAwareCachePolicy then 0
  else page.content.foldl (fun score node =>
    let importance := (node_in_degrees[node.id.toNat]?).getD node.neighbors.length
    if config.cache_hot_degree_threshold = 0 then score + importance
    else if config.cache_hot_degree_threshold ≤ importance then score + 1
    else score) 0

variable {K : Type} [Field K]

def cacheScore (config : CacheConfig) (log1p : K → K) (entry : CacheEntry (List PageNode)) : K :=
  if config.cache_policy = "lru" then entry.last_access
  else if config.cache_policy = "2q" then
    (if entry.protected_queue then 1000000000 else 0) + entry.last_access
  else if config.isGraphAwareCachePolicy then
    (if entry.protected_queue then 1000000000 else 0) + entry.last_access +
      log1p entry.hot_score * 64 + (min entry.frequency 16 : ℕ) * 4
  else entry.frequency * 1000 + entry.last_access + entry.page.content.length * (1 / 100)

def policy (config : CacheConfig) (node_in_degrees : List ℕ) (log1p : K → K) :
    CachePolicy (List PageNode) K where
  cache_policy := config.cache_policy
  cache_capacity_pages := config.cache_capacity_pages
  cache_score := config.cacheScore log1p
  page_hot_score := config.pageHotScore node_in_degrees

end CacheConfig

/-! ### Loads -/

variable {α D : Type}

namespace PageCache

section Load

variable [LT D] [DecidableLT D] [DecidableEq D]

/-- A page that was read takes a place in the cache, after an eviction when it is full. -/
def emplacePage (cache : PageCache α D) (page : DecodedPage α) : PageCache α D :=
  let (room, cache) :=
    if cache.policy.cache_capacity_pages ≤ cache.page_cache.length then cache.evictOnePage
    else (true, cache)
  if room then
    { cache with
      page_cache := cache.page_cache ++ [{
        page := page
        last_access := cache.cache_clock + 1
        frequency := 1
        hot_score := cache.policy.page_hot_score page }]
      cache_clock := cache.cache_clock + 1 }
  else cache

/-- `load_page` behind its first lookup: the lock is taken again, so the page may have come in
between. `read` is what `read_page` returns, none when it throws. -/
def loadMissedPage (cache : PageCache α D) (page_id : PageId) (read : Option α) :
    PageCache α D :=
  if cache.cacheEnabled && (cache.find page_id).isSome then
    { cache.modify page_id fun entry =>
        { entry with last_access := cache.cache_clock + 1, frequency := entry.frequency + 1 } with
      cache_clock := cache.cache_clock + 1 }
  else
    match read with
    | none => cache
    | some content =>
      if cache.cacheEnabled then cache.emplacePage ⟨page_id, content⟩ else cache

def loadPage (cache : PageCache α D) (page_id : PageId) (read : Option α) : PageCache α D :=
  match cache.lookupCachedPage page_id with
  | (some _, cache) => cache
  | (none, cache) => cache.loadMissedPage page_id read

end Load

end PageCache

/-! ### Runs -/

inductive CacheCall (α : Type)
  | lookup (page_id : PageId)
  | store (page : DecodedPage α)
  | load (page_id : PageId) (read : Option α)
  /-- The second half of a load, when another thread ran between the two. -/
  | loadMissed (page_id : PageId) (read : Option α)
  | pin (page_id : PageId)
  | unpin (page_id : PageId)
  | evict

/-- The cache, the pins that took effect and were not given back, and the accesses so far. -/
structure CacheRun (α D : Type) where
  cache : PageCache α D
  held : PageId → ℕ := fun _ => 0
  accesses : List PageId := []

namespace CacheRun

/-- A page was asked for. It counts as accessed when it is in the cache now; a page that found no
room is in a scratch page. -/
def accessed (run : CacheRun α D) (page_id : PageId) (cache : PageCache α D) : CacheRun α D :=
  { run with
    cache := cache
    accesses := if (cache.find page_id).isSome then run.accesses ++ [page_id] else run.accesses }

def pinned (run : CacheRun α D) (page_id : PageId) : CacheRun α D :=
  { run with
    cache := (run.cache.pinIfCached page_id).2
    held := if (run.cache.pinIfCached page_id).1 then
      Function.update run.held page_id (run.held page_id + 1) else run.held }

/-- One unpin for each pin that took effect. -/
def Allowed (run : CacheRun α D) : CacheCall α → Prop
  | .unpin page_id => 0 < run.held page_id
  | _ => True

variable [LT D] [DecidableLT D] [DecidableEq D]

/-- One call; only an unpin may throw. -/
def step (run : CacheRun α D) : CacheCall α → Except String (CacheRun α D)
  | .lookup page_id => .ok (run.accessed page_id (run.cache.lookupCachedPage page_id).2)
  | .store page => .ok (run.accessed page.page_id (run.cache.storeCachedPage page))
  | .load page_id read => .ok (run.accessed page_id (run.cache.loadPage page_id read))
  | .loadMissed page_id read =>
    .ok (run.accessed page_id (run.cache.loadMissedPage page_id read))
  | .pin page_id => .ok (run.pinned page_id)
  | .unpin page_id =>
    match run.cache.unpinIfCached page_id with
    | .error underflow => .error underflow
    | .ok cache =>
      .ok { run with
        cache := cache
        held := Function.update run.held page_id (run.held page_id - 1) }
  | .evict => .ok { run with cache := run.cache.evictOnePage.2 }

/-- The states of the runs of one configuration. -/
inductive Reachable (policy : CachePolicy α D) : CacheRun α D → Prop
  | start : Reachable policy { cache := { policy := policy } }
  | step {run next : CacheRun α D} {call : CacheCall α} : Reachable policy run →
    run.Allowed call → run.step call = .ok next → Reachable policy next

end CacheRun

/-- The entry carries the time of the last access to its page. -/
def LastAccessed (accesses : List PageId) (entry : CacheEntry α) : Prop :=
  ∃ front back, accesses = front ++ entry.page_id :: back ∧ entry.page_id ∉ back ∧
    entry.last_access = front.length + 1

/-- What every call preserves. -/
structure CacheInv (run : CacheRun α D) : Prop where
  keyed : run.cache.Keyed
  size : run.cache.page_cache.length ≤ run.cache.policy.cache_capacity_pages
  disabled : run.cache.cacheEnabled = false → run.cache.page_cache = []
  clock : run.cache.cache_clock = run.accesses.length
  last : ∀ entry ∈ run.cache.page_cache, LastAccessed run.accesses entry
  pins : ∀ page_id, run.cache.pinCount page_id = run.held page_id

section Inv

variable {run : CacheRun α D} {page_id : PageId}

theorem LastAccessed.concat {accesses : List PageId} {entry : CacheEntry α}
    (h : LastAccessed accesses entry) (hne : entry.page_id ≠ page_id) :
    LastAccessed (accesses ++ [page_id]) entry := by
  obtain ⟨front, back, rfl, hback, hlast⟩ := h
  refine ⟨front, back ++ [page_id], by simp, ?_, hlast⟩
  simp [hback, hne]

theorem lastAccessed_now (accesses : List PageId) {entry : CacheEntry α}
    (hlast : entry.last_access = accesses.length + 1) :
    LastAccessed (accesses ++ [entry.page_id]) entry :=
  ⟨accesses, [], rfl, List.not_mem_nil, hlast⟩

/-- A hit: the entry is changed and dated, and keeps its page id and its pins. -/
theorem inv_touch (h : CacheInv run) {found : CacheEntry α}
    (hfound : run.cache.find page_id = some found) {change : CacheEntry α → CacheEntry α}
    (hid : ∀ entry : CacheEntry α, entry.page_id = page_id → (change entry).page_id = page_id)
    (hlast : ∀ entry, (change entry).last_access = run.cache.cache_clock + 1)
    (hpins : ∀ entry, (change entry).pin_count = entry.pin_count) :
    CacheInv (run.accessed page_id
      { run.cache.modify page_id change with cache_clock := run.cache.cache_clock + 1 }) := by
  have hsome : ((run.cache.modify page_id change).find page_id).isSome = true := by
    rw [find_modify hid, hfound]
    rfl
  have haccesses : (run.accessed page_id { run.cache.modify page_id change with
      cache_clock := run.cache.cache_clock + 1 }).accesses = run.accesses ++ [page_id] :=
    if_pos hsome
  constructor
  · exact keyed_modify h.keyed hid
  · change ((run.cache.page_cache.map _).length ≤ _)
    rw [List.length_map]
    exact h.size
  · intro hdisabled
    change run.cache.page_cache.map _ = []
    rw [h.disabled hdisabled, List.map_nil]
  · rw [haccesses, List.length_append, ← h.clock]
    rfl
  · rw [haccesses]
    intro entry hentry
    obtain ⟨before, hbefore, rfl⟩ := List.mem_map.mp hentry
    by_cases hpage : before.page_id = page_id
    · rw [if_pos hpage]
      have hnow := @lastAccessed_now _ run.accesses (change before)
        (by rw [hlast, h.clock])
      rwa [hid before hpage] at hnow
    · rw [if_neg hpage]
      exact (h.last before hbefore).concat hpage
  · intro other
    change (run.cache.modify page_id change).pinCount other = run.held other
    rw [pinCount_modify change (fun n => n) hid hpins, ite_self]
    exact h.pins other

end Inv

/-! ### The victim -/

section Victim

variable [LinearOrder D] {cache : PageCache α D}

/-- The order of eviction: the queue, under a policy that has two, then the score, then the page
id. -/
def PageCache.rank (cache : PageCache α D) (entry : CacheEntry α) : Bool ×ₗ D ×ₗ PageId :=
  toLex (cache.isTwoQueuePolicy && entry.protected_queue,
    toLex (cache.policy.cache_score entry, entry.page_id))

/-- Of two entries the one with the smaller rank is the better victim. -/
theorem betterVictim_eq (victim entry : CacheEntry α) :
    cache.betterVictim victim entry =
      if cache.rank entry < cache.rank victim then entry else victim := by
  have hscore : toLex (cache.policy.cache_score entry, entry.page_id) <
      toLex (cache.policy.cache_score victim, victim.page_id) ↔
      cache.policy.cache_score entry < cache.policy.cache_score victim ∨
        cache.policy.cache_score entry = cache.policy.cache_score victim ∧
          entry.page_id < victim.page_id := Prod.Lex.toLex_lt_toLex
  have hrank : cache.rank entry < cache.rank victim ↔
      (cache.isTwoQueuePolicy && entry.protected_queue) <
          (cache.isTwoQueuePolicy && victim.protected_queue) ∨
        (cache.isTwoQueuePolicy && entry.protected_queue) =
            (cache.isTwoQueuePolicy && victim.protected_queue) ∧
          toLex (cache.policy.cache_score entry, entry.page_id) <
            toLex (cache.policy.cache_score victim, victim.page_id) := Prod.Lex.toLex_lt_toLex
  rw [PageCache.betterVictim]
  simp only [hrank, hscore]
  cases cache.isTwoQueuePolicy with
  | false => simp
  | true => cases victim.protected_queue <;> cases entry.protected_queue <;> simp

theorem foldl_betterVictim (first : CacheEntry α) (rest : List (CacheEntry α)) :
    (first :: rest).argmin cache.rank = some (rest.foldl cache.betterVictim first) := by
  have hstep : ∀ entry rest, List.foldl (List.argAux fun b c => cache.rank b < cache.rank c)
      (some entry) rest = some (rest.foldl cache.betterVictim entry) := by
    intro entry rest
    induction rest generalizing entry with
    | nil => rfl
    | cons next rest ih =>
      rw [List.foldl_cons, List.foldl_cons, ← ih, betterVictim_eq]
      congr 1
      rw [List.argAux]
      dsimp only
      split_ifs <;> rfl
  exact hstep first rest

/-- Eviction takes the minimum of the unpinned entries. -/
theorem evictOnePage_eq (cache : PageCache α D) :
    cache.evictOnePage =
      match (cache.page_cache.filter fun entry => entry.pin_count = 0).argmin cache.rank with
      | none => (false, cache)
      | some victim => (true, { cache with
          page_cache := cache.page_cache.filter fun entry => entry.page_id ≠ victim.page_id }) := by
  rw [PageCache.evictOnePage]
  cases cache.page_cache.filter fun entry => entry.pin_count = 0 with
  | nil => rfl
  | cons first rest =>
    dsimp only
    rw [foldl_betterVictim]

omit [LinearOrder D] in
theorem rank_nodup (hcache : cache.Keyed) :
    ((cache.page_cache.filter fun entry => entry.pin_count = 0).map cache.rank).Nodup := by
  have hids : (cache.page_cache.filter fun entry => entry.pin_count = 0).Pairwise
      fun a b => a.page_id ≠ b.page_id := by
    rw [← List.pairwise_map (f := CacheEntry.page_id) (R := fun a b => a ≠ b)]
    exact hcache.sublist (List.filter_sublist.map _)
  rw [List.Nodup, List.pairwise_map]
  refine hids.imp fun hne heq => hne ?_
  exact congrArg (fun rank => (ofLex (ofLex rank).2).2) heq

/-- What an eviction takes. -/
theorem evictOnePage_cases (cache : PageCache α D) :
    (cache.evictOnePage = (false, cache) ∧
        ∀ entry ∈ cache.page_cache, 0 < entry.pin_count) ∨
      ∃ victim ∈ cache.page_cache, victim.pin_count = 0 ∧
        cache.evictOnePage = (true, { cache with
          page_cache := cache.page_cache.filter fun entry => entry.page_id ≠ victim.page_id }) := by
  rw [evictOnePage_eq]
  cases hvictim : (cache.page_cache.filter fun entry => entry.pin_count = 0).argmin cache.rank with
  | none =>
    rw [List.argmin_eq_none, List.filter_eq_nil_iff] at hvictim
    refine Or.inl ⟨rfl, fun entry hentry => Nat.pos_of_ne_zero fun hzero => ?_⟩
    exact hvictim entry hentry (decide_eq_true hzero)
  | some victim =>
    obtain ⟨hmem, hpins⟩ := List.mem_filter.mp (List.argmin_mem hvictim)
    exact Or.inr ⟨victim, hmem, of_decide_eq_true hpins, rfl⟩

end Victim

/-! ### What every call preserves -/

section Steps

variable [LinearOrder D] {run next : CacheRun α D} {page_id : PageId}

theorem inv_evict (h : CacheInv run) :
    CacheInv { run with cache := run.cache.evictOnePage.2 } := by
  obtain ⟨hkeyed, hpins, -⟩ := pinCount_evict h.keyed
  rcases evictOnePage_cases run.cache with ⟨heq, -⟩ | ⟨victim, -, -, heq⟩
  · rw [heq]
    exact h
  · rw [heq] at hkeyed hpins ⊢
    refine ⟨hkeyed, (List.length_filter_le _ _).trans h.size, fun hdisabled => ?_, h.clock,
      fun entry hentry => h.last entry (List.mem_filter.mp hentry).1,
      fun other => (hpins other).trans (h.pins other)⟩
    change run.cache.page_cache.filter _ = []
    rw [h.disabled hdisabled, List.filter_nil]

/-- After a successful eviction there is room. -/
theorem length_evict_lt (h : run.cache.evictOnePage.1 = true) :
    run.cache.evictOnePage.2.page_cache.length < run.cache.page_cache.length := by
  rcases evictOnePage_cases run.cache with ⟨heq, -⟩ | ⟨victim, hmem, -, heq⟩
  · rw [heq] at h
    cases h
  · rw [heq]
    refine List.length_filter_lt_length_iff_exists.mpr ⟨victim, hmem, ?_⟩
    simp

omit [LinearOrder D] in
/-- A page that is new takes a free place. -/
theorem inv_insert (h : CacheInv run) (henabled : run.cache.cacheEnabled = true)
    (hroom : run.cache.page_cache.length < run.cache.policy.cache_capacity_pages)
    {entry : CacheEntry α} (hfresh : run.cache.find entry.page_id = none)
    (hlast : entry.last_access = run.cache.cache_clock + 1) (hpins : entry.pin_count = 0) :
    CacheInv (run.accessed entry.page_id { run.cache with
      page_cache := run.cache.page_cache ++ [entry]
      cache_clock := run.cache.cache_clock + 1 }) := by
  have hother : ∀ old ∈ run.cache.page_cache, old.page_id ≠ entry.page_id := by
    intro old hold heq
    rw [PageCache.find, List.find?_eq_none] at hfresh
    exact hfresh old hold (decide_eq_true heq)
  have hfind : ∀ page_id, PageCache.find { run.cache with
      page_cache := run.cache.page_cache ++ [entry]
      cache_clock := run.cache.cache_clock + 1 } page_id =
        (run.cache.find page_id).or (if entry.page_id = page_id then some entry else none) := by
    intro page_id
    rw [PageCache.find, List.find?_append, PageCache.find]
    congr 1
    by_cases hpage : entry.page_id = page_id <;> simp [hpage]
  have haccesses : (run.accessed entry.page_id { run.cache with
      page_cache := run.cache.page_cache ++ [entry]
      cache_clock := run.cache.cache_clock + 1 }).accesses = run.accesses ++ [entry.page_id] := by
    refine if_pos ?_
    rw [hfind, hfresh, if_pos rfl]
    rfl
  constructor
  · change (List.map CacheEntry.page_id (run.cache.page_cache ++ [entry])).Nodup
    rw [List.map_append, List.nodup_append]
    refine ⟨h.keyed, List.nodup_singleton _, fun id hid other hmem => ?_⟩
    obtain ⟨old, hold, rfl⟩ := List.mem_map.mp hid
    rw [List.map_singleton, List.mem_singleton] at hmem
    rw [hmem]
    exact hother old hold
  · change (run.cache.page_cache ++ [entry]).length ≤ _
    rw [List.length_append]
    exact hroom
  · intro hdisabled
    change run.cache.cacheEnabled = false at hdisabled
    rw [henabled] at hdisabled
    cases hdisabled
  · rw [haccesses, List.length_append, ← h.clock]
    rfl
  · rw [haccesses]
    intro old hold
    rcases List.mem_append.mp hold with hold | hold
    · exact (h.last old hold).concat (hother old hold)
    · rw [List.mem_singleton.mp hold]
      exact lastAccessed_now _ (by rw [hlast, h.clock])
  · intro other
    change PageCache.pinCount { run.cache with
      page_cache := run.cache.page_cache ++ [entry]
      cache_clock := run.cache.cache_clock + 1 } other = run.held other
    rw [← h.pins other, PageCache.pinCount, hfind, PageCache.pinCount]
    -- the new page has no pins, and no one holds any
    cases hold : run.cache.find other with
    | some old => rfl
    | none =>
      by_cases hpage : entry.page_id = other
      · simp [hpage, hpins]
      · simp [hpage]

omit [LinearOrder D] in
/-- A call that leaves the cache alone, for a page that is not in it. -/
theorem inv_unchanged (h : CacheInv run) (hnone : run.cache.find page_id = none) :
    CacheInv (run.accessed page_id run.cache) := by
  have hsame : run.accessed page_id run.cache = run := by
    rw [CacheRun.accessed, if_neg (by rw [hnone]; exact Bool.false_ne_true)]
  rwa [hsame]

omit [LinearOrder D] in
theorem find_of_disabled (h : CacheInv run) (hdisabled : run.cache.cacheEnabled = false)
    (page_id : PageId) : run.cache.find page_id = none := by
  rw [PageCache.find, h.disabled hdisabled, List.find?_nil]

theorem inv_emplace (h : CacheInv run) (henabled : run.cache.cacheEnabled = true)
    {page : DecodedPage α} (hfresh : run.cache.find page.page_id = none) :
    CacheInv (run.accessed page.page_id (run.cache.emplacePage page)) := by
  have hcapacity : 0 < run.cache.policy.cache_capacity_pages := by
    rw [PageCache.cacheEnabled, Bool.and_eq_true] at henabled
    exact of_decide_eq_true henabled.2
  rw [PageCache.emplacePage]
  by_cases hfull : run.cache.policy.cache_capacity_pages ≤ run.cache.page_cache.length
  · rw [if_pos hfull]
    have hevicted := inv_evict h
    have hgone := (pinCount_evict h.keyed).2.2 _ hfresh
    have hroom := @length_evict_lt _ _ _ run
    have hpolicy : run.cache.evictOnePage.2.policy = run.cache.policy := policy_evictOne
    revert hevicted hgone hroom hpolicy
    obtain ⟨room, cache⟩ := run.cache.evictOnePage
    intro hevicted hgone hroom hpolicy
    change cache.policy = _ at hpolicy
    -- with every page pinned nothing is evicted, and the new page stays outside
    cases room with
    | false => exact inv_unchanged hevicted hgone
    | true =>
      have henabled' : cache.cacheEnabled = true := by
        rw [PageCache.cacheEnabled, hpolicy]
        exact henabled
      refine @inv_insert _ _ { run with cache := cache } hevicted henabled' ?_ _ hgone rfl rfl
      change cache.page_cache.length < cache.policy.cache_capacity_pages
      rw [hpolicy]
      exact (hroom rfl).trans_le h.size
  · rw [if_neg hfull]
    exact inv_insert h henabled (not_le.mp hfull) hfresh rfl rfl

omit [LinearOrder D] in
theorem inv_lookup (h : CacheInv run) (page_id : PageId) :
    CacheInv (run.accessed page_id (run.cache.lookupCachedPage page_id).2) := by
  rw [PageCache.lookupCachedPage]
  cases henabled : run.cache.cacheEnabled with
  | false => exact inv_unchanged h (find_of_disabled h henabled page_id)
  | true =>
    rw [if_pos rfl]
    cases hfound : run.cache.find page_id with
    | none => exact inv_unchanged h hfound
    | some found => exact inv_touch h hfound (fun _ h => h) (fun _ => rfl) fun _ => rfl

theorem inv_store (h : CacheInv run) (page : DecodedPage α) :
    CacheInv (run.accessed page.page_id (run.cache.storeCachedPage page)) := by
  rw [PageCache.storeCachedPage]
  cases henabled : run.cache.cacheEnabled with
  | false => exact inv_unchanged h (find_of_disabled h henabled page.page_id)
  | true =>
    rw [if_pos rfl]
    cases hfound : run.cache.find page.page_id with
    | none => exact inv_emplace h henabled hfound
    | some found => exact inv_touch h hfound (fun _ _ => rfl) (fun _ => rfl) fun _ => rfl

theorem inv_loadMissed (h : CacheInv run) (page_id : PageId) (read : Option α) :
    CacheInv (run.accessed page_id (run.cache.loadMissedPage page_id read)) := by
  unfold PageCache.loadMissedPage
  cases henabled : run.cache.cacheEnabled with
  | false =>
    have hnone := find_of_disabled h henabled page_id
    rw [Bool.false_and, if_neg Bool.false_ne_true]
    cases read with
    | none => exact inv_unchanged h hnone
    | some content => exact inv_unchanged h hnone
  | true =>
    rw [Bool.true_and]
    cases hfound : run.cache.find page_id with
    | some found => exact inv_touch h hfound (fun _ h => h) (fun _ => rfl) fun _ => rfl
    | none =>
      rw [if_neg (by simp)]
      cases read with
      | none => exact inv_unchanged h hfound
      | some content => exact inv_emplace h henabled hfound

theorem inv_load (h : CacheInv run) (page_id : PageId) (read : Option α) :
    CacheInv (run.accessed page_id (run.cache.loadPage page_id read)) := by
  have hlookup := inv_lookup h page_id
  rw [PageCache.loadPage]
  cases hhit : run.cache.lookupCachedPage page_id with
  | mk hit cache =>
    cases hit with
    | some page =>
      rw [hhit] at hlookup
      exact hlookup
    | none =>
      -- A miss changes nothing.
      have hsame : cache = run.cache := by
        rw [PageCache.lookupCachedPage] at hhit
        split at hhit
        · split at hhit
          · cases hhit
            rfl
          · cases hhit
        · cases hhit
          rfl
      rw [hsame]
      exact inv_loadMissed h page_id read

omit [LinearOrder D] in
/-- A change of an entry's pins. -/
theorem inv_repin (h : CacheInv run) {change : CacheEntry α → CacheEntry α} {held : PageId → ℕ}
    (hid : ∀ entry, (change entry).page_id = entry.page_id)
    (hlast : ∀ entry, (change entry).last_access = entry.last_access)
    (hpins : ∀ other, (run.cache.modify page_id change).pinCount other = held other) :
    CacheInv { run with cache := run.cache.modify page_id change, held := held } := by
  refine ⟨keyed_modify h.keyed fun entry hentry => (hid entry).trans hentry, ?_,
    fun hdisabled => ?_, h.clock, fun entry hentry => ?_, hpins⟩
  · change (run.cache.page_cache.map _).length ≤ _
    rw [List.length_map]
    exact h.size
  · change run.cache.page_cache.map _ = []
    rw [h.disabled hdisabled, List.map_nil]
  · obtain ⟨before, hbefore, rfl⟩ := List.mem_map.mp hentry
    have hold := h.last before hbefore
    by_cases hpage : before.page_id = page_id
    · rw [if_pos hpage]
      rw [LastAccessed, hid, hlast]
      exact hold
    · rw [if_neg hpage]
      exact hold

omit [LinearOrder D] in
theorem inv_pin (h : CacheInv run) (page_id : PageId) : CacheInv (run.pinned page_id) := by
  rw [CacheRun.pinned, PageCache.pinIfCached]
  cases hfound : run.cache.find page_id with
  | none => exact h
  | some found =>
    refine inv_repin h (fun _ => rfl) (fun _ => rfl) fun other => ?_
    rw [if_pos rfl, pinCount_modify PageCache.addPin (fun n => n + 1) (fun _ h => h) (fun _ => rfl),
      hfound, h.pins]
    by_cases hpage : other = page_id
    · rw [hpage, Function.update_self]
      simp
    · rw [Function.update_of_ne hpage]
      simp [hpage]

omit [LinearOrder D] in
/-- An unpin of a held pin returns. -/
theorem inv_unpin (h : CacheInv run) (hheld : 0 < run.held page_id) :
    ∃ cache, run.cache.unpinIfCached page_id = .ok cache ∧ CacheInv { run with
      cache := cache, held := Function.update run.held page_id (run.held page_id - 1) } := by
  rw [PageCache.unpinIfCached]
  have hcount := h.pins page_id
  rw [PageCache.pinCount] at hcount
  cases hfound : run.cache.find page_id with
  | none =>
    rw [hfound] at hcount
    exact absurd hcount hheld.ne
  | some found =>
    rw [hfound] at hcount
    dsimp only at hcount ⊢
    refine ⟨_, if_neg (by omega), inv_repin h (fun _ => rfl) (fun _ => rfl) fun other => ?_⟩
    rw [pinCount_modify PageCache.removePin (fun n => n - 1) (fun _ h => h) (fun _ => rfl),
      hfound, h.pins]
    by_cases hpage : other = page_id
    · rw [hpage, Function.update_self]
      simp
    · rw [Function.update_of_ne hpage]
      simp [hpage]

/-- No allowed call throws, and all keep the invariant. -/
theorem inv_step (h : CacheInv run) {call : CacheCall α} (hcall : run.Allowed call) :
    ∃ next, run.step call = .ok next ∧ CacheInv next := by
  cases call with
  | lookup page_id => exact ⟨_, rfl, inv_lookup h page_id⟩
  | store page => exact ⟨_, rfl, inv_store h page⟩
  | load page_id read => exact ⟨_, rfl, inv_load h page_id read⟩
  | loadMissed page_id read => exact ⟨_, rfl, inv_loadMissed h page_id read⟩
  | pin page_id => exact ⟨_, rfl, inv_pin h page_id⟩
  | unpin page_id =>
    obtain ⟨cache, hunpin, hinv⟩ := inv_unpin h hcall
    exact ⟨_, by rw [CacheRun.step, hunpin], hinv⟩
  | evict => exact ⟨_, rfl, inv_evict h⟩

theorem policy_emplace (cache : PageCache α D) (page : DecodedPage α) :
    (cache.emplacePage page).policy = cache.policy := by
  rw [PageCache.emplacePage]
  by_cases hfull : cache.policy.cache_capacity_pages ≤ cache.page_cache.length
  · rw [if_pos hfull]
    have hpolicy : cache.evictOnePage.2.policy = cache.policy := policy_evictOne
    revert hpolicy
    obtain ⟨room, evicted⟩ := cache.evictOnePage
    intro hpolicy
    cases room with
    | true => exact hpolicy
    | false => exact hpolicy
  · rw [if_neg hfull]
    rfl

theorem policy_loadMissed (cache : PageCache α D) (page_id : PageId) (read : Option α) :
    (cache.loadMissedPage page_id read).policy = cache.policy := by
  unfold PageCache.loadMissedPage
  split
  · rfl
  · split
    · rfl
    · split
      · exact policy_emplace _ _
      · rfl

theorem policy_load (cache : PageCache α D) (page_id : PageId) (read : Option α) :
    (cache.loadPage page_id read).policy = cache.policy := by
  have hhit : (cache.lookupCachedPage page_id).2.policy = cache.policy := policy_lookup
  rw [PageCache.loadPage]
  split
  · next heq =>
    rw [heq] at hhit
    exact hhit
  · next heq =>
    rw [heq] at hhit
    exact (policy_loadMissed _ _ _).trans hhit

/-- The configuration stays. -/
theorem policy_step {call : CacheCall α} (hstep : run.step call = .ok next) :
    next.cache.policy = run.cache.policy := by
  cases call with
  | lookup page_id =>
    cases hstep
    exact policy_lookup
  | store page =>
    cases hstep
    exact policy_store page
  | load page_id read =>
    cases hstep
    exact policy_load run.cache page_id read
  | loadMissed page_id read =>
    cases hstep
    exact policy_loadMissed run.cache page_id read
  | pin page_id =>
    cases hstep
    exact policy_pin
  | unpin page_id =>
    rw [CacheRun.step] at hstep
    split at hstep
    · cases hstep
    · next hunpin =>
      cases hstep
      exact policy_unpin hunpin
  | evict =>
    cases hstep
    exact policy_evictOne

/-- Every state of every run. -/
theorem inv_of_reachable {policy : CachePolicy α D} (h : CacheRun.Reachable policy run) :
    CacheInv run ∧ run.cache.policy = policy := by
  induction h with
  | start =>
    refine ⟨⟨List.nodup_nil, Nat.zero_le _, fun _ => rfl, rfl, ?_, fun _ => rfl⟩, rfl⟩
    exact fun entry hentry => absurd hentry List.not_mem_nil
  | step _ hallowed hstep ih =>
    obtain ⟨next, hnext, hinv⟩ := inv_step ih.1 hallowed
    obtain rfl := Except.ok.inj (hnext.symm.trans hstep)
    exact ⟨hinv, (policy_step hstep).trans ih.2⟩

end Steps

/-! ### Every run -/

/-- The victim of a state: the minimum of the order, by the queues and the accesses so far, whatever
order the entries of the map are met in. -/
structure IsVictim [LinearOrder D] (run : CacheRun α D) (victim : CacheEntry α) : Prop where
  mem : victim ∈ run.cache.page_cache
  unpinned : victim.pin_count = 0
  least : ∀ entry ∈ run.cache.page_cache, entry.pin_count = 0 → entry.page_id ≠ victim.page_id →
    run.cache.rank victim < run.cache.rank entry
  two_queues : run.cache.isTwoQueuePolicy = true → victim.protected_queue = true →
    ∀ entry ∈ run.cache.page_cache, entry.pin_count = 0 → entry.protected_queue = true
  lru : run.cache.policy.cache_policy = "lru" → ∀ entry ∈ run.cache.page_cache,
    entry.pin_count = 0 → entry.page_id ≠ victim.page_id →
      ∃ front back, run.accesses = front ++ entry.page_id :: back ∧ victim.page_id ∉ back
  evicted : ∀ entries : List (CacheEntry α), entries.Perm run.cache.page_cache →
    PageCache.evictOnePage { run.cache with page_cache := entries } =
      (true, { run.cache with
        page_cache := entries.filter fun entry => entry.page_id ≠ victim.page_id })

/-- What holds of the cache in a state. -/
structure CacheSafe [LinearOrder D] (run : CacheRun α D) : Prop where
  size : run.cache.page_cache.length ≤ run.cache.policy.cache_capacity_pages
  pins : ∀ page_id, run.cache.pinCount page_id = run.held page_id
  resident : ∀ page_id, 0 < run.held page_id → (run.cache.find page_id).isSome = true
  returns : ∀ call, run.Allowed call → ∃ next, run.step call = .ok next
  victim : (∃ victim, IsVictim run victim) ∨
    (∀ entry ∈ run.cache.page_cache, 0 < entry.pin_count) ∧
      ∀ entries : List (CacheEntry α), entries.Perm run.cache.page_cache →
        PageCache.evictOnePage { run.cache with page_cache := entries } =
          (false, { run.cache with page_cache := entries })

section Safe

variable [LinearOrder D] {run : CacheRun α D}

/-- Eviction from the same entries in another order. -/
theorem evictOnePage_perm (hcache : run.cache.Keyed) {entries : List (CacheEntry α)}
    (hperm : entries.Perm run.cache.page_cache) :
    PageCache.evictOnePage { run.cache with page_cache := entries } =
      match (run.cache.page_cache.filter fun entry => entry.pin_count = 0).argmin
          run.cache.rank with
      | none => (false, { run.cache with page_cache := entries })
      | some victim => (true, { run.cache with
          page_cache := entries.filter fun entry => entry.page_id ≠ victim.page_id }) := by
  rw [evictOnePage_eq]
  have hmin := TopK.argmin_perm (TopK.separates_of_nodup (rank_nodup hcache))
    (hperm.symm.filter fun entry => decide (entry.pin_count = 0))
  change (match (entries.filter fun entry => entry.pin_count = 0).argmin run.cache.rank with
    | none => _
    | some victim => _) = _
  rw [hmin]

omit [LinearOrder D] in
/-- Of two entries the one that is dated earlier was not accessed after the other. -/
theorem not_accessed_since (h : CacheInv run) {victim entry : CacheEntry α}
    (hvictim : victim ∈ run.cache.page_cache) (hentry : entry ∈ run.cache.page_cache)
    (hlast : victim.last_access ≤ entry.last_access) (hne : entry.page_id ≠ victim.page_id) :
    ∃ front back, run.accesses = front ++ entry.page_id :: back ∧ victim.page_id ∉ back := by
  obtain ⟨front, back, haccesses, -, hclock⟩ := h.last entry hentry
  obtain ⟨front', back', haccesses', hback', hclock'⟩ := h.last victim hvictim
  refine ⟨front, back, haccesses, fun hmem => hback' ?_⟩
  rcases List.append_eq_append_iff.mp (haccesses'.symm.trans haccesses) with
    ⟨between, rfl, hrest⟩ | ⟨between, rfl, hrest⟩
  · -- What follows the victim's last access contains this one.
    cases between with
    | nil => exact absurd (List.cons.inj hrest).1.symm hne
    | cons first between =>
      obtain ⟨-, rfl⟩ := List.cons.inj hrest
      exact List.mem_append_right _ (List.mem_cons_of_mem _ hmem)
  · cases between with
    | nil => exact absurd (List.cons.inj hrest).1 hne
    | cons first between =>
      rw [List.length_append, List.length_cons] at hclock'
      omega

theorem isVictim_of_argmin (h : CacheInv run) {victim : CacheEntry α}
    (hvictim : (run.cache.page_cache.filter fun entry => entry.pin_count = 0).argmin
      run.cache.rank = some victim)
    (hscore : run.cache.policy.cache_policy = "lru" → ∀ a b : CacheEntry α,
      run.cache.policy.cache_score a ≤ run.cache.policy.cache_score b →
        a.last_access ≤ b.last_access) : IsVictim run victim := by
  obtain ⟨hmem, hpins⟩ := List.mem_filter.mp (List.argmin_mem hvictim)
  have hleast : ∀ entry ∈ run.cache.page_cache, entry.pin_count = 0 →
      run.cache.rank victim ≤ run.cache.rank entry := fun entry hentry hzero =>
    List.le_of_mem_argmin (List.mem_filter.mpr ⟨hentry, decide_eq_true hzero⟩) hvictim
  refine ⟨hmem, of_decide_eq_true hpins, fun entry hentry hzero hne => ?_,
    fun hqueues hprotected entry hentry hzero => ?_, fun hlru entry hentry hzero hne => ?_,
    fun entries hperm => ?_⟩
  · refine lt_of_le_of_ne (hleast entry hentry hzero) fun heq => hne ?_
    exact (congrArg (fun rank => (ofLex (ofLex rank).2).2) heq).symm
  · have hle := Prod.Lex.toLex_le_toLex.mp (hleast entry hentry hzero)
    dsimp only at hle
    rw [hqueues, hprotected, Bool.true_and] at hle
    rcases hle with hlt | ⟨heq, -⟩
    · exact absurd hlt (by simp)
    · exact heq.symm
  · have hqueues : run.cache.isTwoQueuePolicy = false := by
      rw [PageCache.isTwoQueuePolicy, hlru]
      rfl
    -- among the 2Q policies the queue decides first
    have hle := Prod.Lex.toLex_le_toLex.mp (hleast entry hentry hzero)
    dsimp only at hle
    rw [hqueues, Bool.false_and, Bool.false_and] at hle
    rcases hle with hlt | ⟨-, hle⟩
    · exact absurd hlt (lt_irrefl _)
    · rcases Prod.Lex.toLex_le_toLex.mp hle with hlt | ⟨heq, -⟩
      · exact not_accessed_since h hmem hentry (hscore hlru victim entry hlt.le) hne
      · exact not_accessed_since h hmem hentry (hscore hlru victim entry heq.le) hne
  · rw [evictOnePage_perm h.keyed hperm, hvictim]

theorem cacheSafe_of_inv (h : CacheInv run)
    (hscore : run.cache.policy.cache_policy = "lru" → ∀ a b : CacheEntry α,
      run.cache.policy.cache_score a ≤ run.cache.policy.cache_score b →
        a.last_access ≤ b.last_access) : CacheSafe run := by
  refine ⟨h.size, h.pins, fun page_id hheld => ?_, fun call hcall => ?_, ?_⟩
  · have hcount := h.pins page_id
    rw [PageCache.pinCount] at hcount
    cases hfound : run.cache.find page_id with
    | none =>
      rw [hfound] at hcount
      exact absurd hcount hheld.ne
    | some found => rfl
  · obtain ⟨next, hnext, -⟩ := inv_step h hcall
    exact ⟨next, hnext⟩
  · cases hvictim : (run.cache.page_cache.filter fun entry => entry.pin_count = 0).argmin
      run.cache.rank with
    | some victim => exact Or.inl ⟨victim, isVictim_of_argmin h hvictim hscore⟩
    | none =>
      refine Or.inr ⟨fun entry hentry => ?_, fun entries hperm => ?_⟩
      · rw [List.argmin_eq_none, List.filter_eq_nil_iff] at hvictim
        exact Nat.pos_of_ne_zero fun hzero => hvictim entry hentry (decide_eq_true hzero)
      · rw [evictOnePage_perm h.keyed hperm, hvictim]

end Safe

section Policies

variable {K : Type} [Field K] [LinearOrder K] [IsStrictOrderedRing K]

/-- For every configuration, in every state that calls lead to from an empty cache: the capacity is
kept, every pin count is that of the pins held, a pinned page is in the cache, no allowed call throws,
and the victim is the minimum of the order. -/
theorem cacheSafe_of_reachable (config : CacheConfig) (node_in_degrees : List ℕ) (log1p : K → K)
    {run : CacheRun (List PageNode) K}
    (h : CacheRun.Reachable (config.policy node_in_degrees log1p) run) :
    CacheSafe run ∧ run.cache.policy = config.policy node_in_degrees log1p := by
  obtain ⟨hinv, hpolicy⟩ := inv_of_reachable h
  refine ⟨cacheSafe_of_inv hinv ?_, hpolicy⟩
  rw [hpolicy]
  intro hlru a b hle
  change config.cacheScore log1p a ≤ config.cacheScore log1p b at hle
  have hname : config.cache_policy = "lru" := hlru
  rw [CacheConfig.cacheScore, CacheConfig.cacheScore, if_pos hname, if_pos hname] at hle
  exact_mod_cast hle

/-- A page that is stored and pinned in a cache for one page. -/
theorem cacheSafe_pinned :
    let policy : CachePolicy (List PageNode) ℚ := CacheConfig.policy
      { cache_policy := "graph-aware-2q", cache_capacity_pages := 1 } [] fun x => x
    ∃ run, (run.held 0 = 1 ∧ run.accesses = [0]) ∧ CacheSafe run ∧ run.cache.policy = policy := by
  intro policy
  have hstored := @CacheRun.Reachable.step _ _ _ _ _ policy _ _ (.store ⟨0, [⟨3, [1, 2]⟩]⟩)
    .start trivial rfl
  have hpinned := @CacheRun.Reachable.step _ _ _ _ _ policy _ _ (.pin 0) hstored trivial rfl
  exact ⟨_, ⟨rfl, rfl⟩, cacheSafe_of_reachable
    { cache_policy := "graph-aware-2q", cache_capacity_pages := 1 } [] (fun x => x) hpinned⟩

end Policies

end Packed
