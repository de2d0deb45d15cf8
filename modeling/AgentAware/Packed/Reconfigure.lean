import AgentAware.Packed.CacheRuns

/-!
# Pins and reconfiguration

`configure_cache` may be called while guards hold pins. When a setting changes it clears the cache, and
with it the pin counts; the guards keep what they own.

## Main definitions

- `PackedIndex.configureCache` — a new configuration
- `IndexRun.step` — calls on the cache and new configurations, with the pins that guards own

## Main results

- `pinsSafe_of_reachable` — pins are safe while settings change only when no pin is held
- `pins_lost_by_configure` — and not otherwise
-/

namespace Packed

variable {K : Type} [Field K]

/-- The part of the index that the cache depends on. -/
structure PackedIndex (K : Type) where
  config : CacheConfig := {}
  node_in_degrees : List ℕ := []
  log1p : K → K
  page_cache : List (CacheEntry (List PageNode)) := []
  cache_clock : ℕ := 0

/-- The policy is unknown, or the degrees are needed and reading them throws. -/
def CacheConfig.Refused (config : CacheConfig) (ensured : Option String × List ℕ) : Prop :=
  config.cache_policy ∉ ["none", "lru", "2q", "graph-aware-2q", "agent"] ∨
    (config.isGraphAwareCachePolicy || config.cache_protect_hot_pages) = true ∧
      ensured.1.isSome = true

namespace PackedIndex

/-- The cache under its configuration. -/
def cache (index : PackedIndex K) : PageCache (List PageNode) K where
  policy := index.config.policy index.node_in_degrees index.log1p
  page_cache := index.page_cache
  cache_clock := index.cache_clock

/-- `ensured` is what `ensure_node_in_degrees` throws, if anything, and the degrees it leaves. The
first component is what the call throws. -/
def configureCache (index : PackedIndex K) (config : CacheConfig)
    (ensured : Option String × List ℕ) : Option String × PackedIndex K :=
  if config.cache_policy ≠ "none" ∧ config.cache_policy ≠ "lru" ∧ config.cache_policy ≠ "2q" ∧
      config.cache_policy ≠ "graph-aware-2q" ∧ config.cache_policy ≠ "agent" then
    (some "Cache policy must be none, lru, 2q, or graph-aware-2q", index)
  else
    let needed := config.isGraphAwareCachePolicy || config.cache_protect_hot_pages
    let index := if needed then { index with node_in_degrees := ensured.2 } else index
    match if needed then ensured.1 else none with
    | some error => (some error, index)
    | none =>
      (none,
        if config ≠ index.config then
          { index with config := config, page_cache := [], cache_clock := 0 }
        else index)

end PackedIndex

/-- The index, and for every page the number of live guards that own a pin of it. -/
structure IndexRun (K : Type) where
  index : PackedIndex K
  held : PageId → ℕ := fun _ => 0

/-- A guard pins in its constructor and unpins once, in `release` or in its destructor, if it owns a
pin. -/
inductive IndexCall
  | cache (call : CacheCall (List PageNode))
  | configure (config : CacheConfig) (ensured : Option String × List ℕ)

namespace IndexRun

/-- The run of the cache alone. -/
def cacheRun (run : IndexRun K) (accesses : List PageId) : CacheRun (List PageNode) K where
  cache := run.index.cache
  held := run.held
  accesses := accesses

/-- Guards give back what they own. -/
def Allowed (run : IndexRun K) : IndexCall → Prop
  | .cache call => (run.cacheRun []).Allowed call
  | .configure _ _ => True

/-- The settings change only while no pin is held. -/
def Quiet (run : IndexRun K) : IndexCall → Prop
  | .cache _ => True
  | .configure config ensured =>
    config = run.index.config ∨ config.Refused ensured ∨ ∀ page_id, run.held page_id = 0

/-- A page whose pin is held is in the cache, and giving the pin back does not throw. -/
def PinsSafe (run : IndexRun K) : Prop :=
  ∀ page_id, 0 < run.held page_id → (run.index.cache.find page_id).isSome = true ∧
    ∃ next, run.index.cache.unpinIfCached page_id = .ok next

variable [LinearOrder K]

/-- One call. What an unpin throws ends the run; what `configure_cache` throws is its caller's. -/
def step (run : IndexRun K) : IndexCall → Except String (IndexRun K)
  | .cache call =>
    match (run.cacheRun []).step call with
    | .error underflow => .error underflow
    | .ok next =>
      .ok { index := { run.index with
              page_cache := next.cache.page_cache
              cache_clock := next.cache.cache_clock }
            held := next.held }
  | .configure config ensured =>
    .ok { run with index := (run.index.configureCache config ensured).2 }

/-- The states of all runs of a new index. -/
inductive Reachable (log1p : K → K) : IndexRun K → Prop
  | start : Reachable log1p { index := { log1p := log1p } }
  | step {run next : IndexRun K} {call : IndexCall} : Reachable log1p run → run.Allowed call →
    run.step call = .ok next → Reachable log1p next

/-- Those of the runs in which every step is quiet. -/
inductive QuietlyReachable (log1p : K → K) : IndexRun K → Prop
  | start : QuietlyReachable log1p { index := { log1p := log1p } }
  | step {run next : IndexRun K} {call : IndexCall} : QuietlyReachable log1p run →
    run.Allowed call → run.Quiet call → run.step call = .ok next → QuietlyReachable log1p next

end IndexRun

section Steps

variable [LinearOrder K] {run next : IndexRun K}

/-- The accesses are only recorded: they decide nothing. -/
theorem step_accesses {α D : Type} [LinearOrder D] {run next : CacheRun α D} {call : CacheCall α}
    (hstep : run.step call = .ok next) (accesses : List PageId) :
    ∃ accesses', CacheRun.step { run with accesses := accesses } call =
      .ok { next with accesses := accesses' } := by
  cases call with
  | lookup page_id =>
    cases hstep
    exact ⟨_, rfl⟩
  | store page =>
    cases hstep
    exact ⟨_, rfl⟩
  | load page_id read =>
    cases hstep
    exact ⟨_, rfl⟩
  | loadMissed page_id read =>
    cases hstep
    exact ⟨_, rfl⟩
  | pin page_id =>
    cases hstep
    exact ⟨accesses, rfl⟩
  | unpin page_id =>
    refine ⟨accesses, ?_⟩
    rw [CacheRun.step] at hstep ⊢
    dsimp only
    split at hstep
    · cases hstep
    · cases hstep
      rfl
  | evict =>
    cases hstep
    exact ⟨accesses, rfl⟩

/-- The invariant of the cache, for some accesses since it was last cleared. -/
def IndexInv (run : IndexRun K) : Prop := ∃ accesses, CacheInv (run.cacheRun accesses)

theorem indexInv_cache (h : IndexInv run) {call : CacheCall (List PageNode)}
    (hcall : (run.cacheRun []).Allowed call) (hstep : run.step (.cache call) = .ok next) :
    IndexInv next := by
  obtain ⟨accesses, hinv⟩ := h
  rw [IndexRun.step] at hstep
  split at hstep
  · cases hstep
  · next cacheNext hcacheStep =>
    cases hstep
    have hallowed : (run.cacheRun accesses).Allowed call := by
      cases call with
      | unpin page_id => exact hcall
      | _ => trivial
    obtain ⟨after, hafter, hinvAfter⟩ := inv_step hinv hallowed
    obtain ⟨accesses', heq⟩ := step_accesses hcacheStep accesses
    obtain rfl := Except.ok.inj (hafter.symm.trans heq)
    have hpolicy := policy_step hcacheStep
    obtain ⟨⟨policy, entries, clock⟩, held, _⟩ := cacheNext
    change policy = run.index.cache.policy at hpolicy
    subst hpolicy
    exact ⟨accesses', hinvAfter⟩

omit [LinearOrder K] [Field K] in
/-- What `configure_cache` may do: throw or keep the settings, and then keep the entries; or, when it is
not refused, change the settings, and then clear the cache. -/
theorem configureCache_cases (index : PackedIndex K) (config : CacheConfig)
    (ensured : Option String × List ℕ) :
    (∃ degrees, (index.configureCache config ensured).2 =
        { index with node_in_degrees := degrees }) ∨
      config ≠ index.config ∧ ¬ config.Refused ensured ∧
        ∃ degrees, (index.configureCache config ensured).2 =
          { index with
            config := config, node_in_degrees := degrees, page_cache := [], cache_clock := 0 } := by
  rw [PackedIndex.configureCache]
  split
  · exact Or.inl ⟨_, rfl⟩
  · next hknown =>
    have hpolicy : ¬ config.cache_policy ∉ ["none", "lru", "2q", "graph-aware-2q", "agent"] := by
      simpa using hknown
    rw [CacheConfig.Refused]
    cases config.isGraphAwareCachePolicy || config.cache_protect_hot_pages with
    | true =>
      dsimp only
      cases ensured.1 with
      | some error => exact Or.inl ⟨_, rfl⟩
      | none =>
        by_cases hconfig : config ≠ index.config
        · exact Or.inr ⟨hconfig, not_or.mpr ⟨hpolicy, by simp⟩, ensured.2, if_pos hconfig⟩
        · exact Or.inl ⟨ensured.2, if_neg hconfig⟩
    | false =>
      by_cases hconfig : config ≠ index.config
      · exact Or.inr ⟨hconfig, not_or.mpr ⟨hpolicy, by simp⟩, index.node_in_degrees,
          if_pos hconfig⟩
      · exact Or.inl ⟨index.node_in_degrees, if_neg hconfig⟩

theorem indexInv_configure (h : IndexInv run) {config : CacheConfig}
    {ensured : Option String × List ℕ}
    (hquiet : run.Quiet (.configure config ensured))
    (hstep : run.step (.configure config ensured) = .ok next) : IndexInv next := by
  cases hstep
  obtain ⟨accesses, hinv⟩ := h
  rcases configureCache_cases run.index config ensured with
    ⟨degrees, heq⟩ | ⟨hne, haccepted, degrees, heq⟩
  · rw [heq]
    exact ⟨accesses, hinv.keyed, hinv.size, hinv.disabled, hinv.clock, hinv.last, hinv.pins⟩
  · have hheld := (hquiet.resolve_left hne).resolve_left haccepted
    rw [heq]
    refine ⟨[], List.nodup_nil, Nat.zero_le _, fun _ => rfl, rfl, ?_, fun page_id => ?_⟩
    · exact fun entry hentry => absurd hentry List.not_mem_nil
    · exact (hheld page_id).symm

omit [LinearOrder K] in
theorem pinsSafe_of_inv (h : IndexInv run) : run.PinsSafe := by
  obtain ⟨accesses, hinv⟩ := h
  intro page_id hheld
  obtain ⟨cache, hunpin, -⟩ := inv_unpin hinv hheld
  refine ⟨?_, cache, hunpin⟩
  have hcount : run.index.cache.pinCount page_id = run.held page_id := hinv.pins page_id
  cases hfound : run.index.cache.find page_id with
  | some found => rfl
  | none =>
    rw [PageCache.pinCount, hfound] at hcount
    exact absurd hcount hheld.ne

/-- In every run in which no setting changes while a pin is held: a page whose pin is held is in the
cache, and giving the pin back does not throw. -/
theorem pinsSafe_of_reachable {log1p : K → K} (h : IndexRun.QuietlyReachable log1p run) :
    run.PinsSafe := by
  refine pinsSafe_of_inv ?_
  induction h with
  | start =>
    refine ⟨[], List.nodup_nil, Nat.zero_le _, fun _ => rfl, rfl, ?_, fun _ => rfl⟩
    exact fun entry hentry => absurd hentry List.not_mem_nil
  | @step run next call _ hallowed hquiet hstep ih =>
    cases call with
    | cache call => exact indexInv_cache ih hallowed hstep
    | configure config ensured => exact indexInv_configure ih hquiet hstep

end Steps

/-- A new index with an `lru` cache that holds page 0, and a guard on it. -/
theorem pinsSafe_guard :
    ∃ run : IndexRun ℚ, run.held 0 = 1 ∧ run.PinsSafe := by
  have hconfigured := @IndexRun.QuietlyReachable.step ℚ _ _ (fun x => x) _ _
    (.configure { cache_policy := "lru", cache_capacity_pages := 2 } (none, [])) .start trivial
    (Or.inr (Or.inr fun _ => rfl)) rfl
  have hstored := @IndexRun.QuietlyReachable.step ℚ _ _ (fun x => x) _ _
    (.cache (.store ⟨0, []⟩)) hconfigured trivial trivial rfl
  have hpinned := @IndexRun.QuietlyReachable.step ℚ _ _ (fun x => x) _ _
    (.cache (.pin 0)) hstored trivial trivial rfl
  exact ⟨_, rfl, pinsSafe_of_reachable hpinned⟩

/-- Page 0 is pinned under `lru`, the policy becomes `2q`, page 0 is cached again: while the guard
lives the page was not in the cache, and releasing it throws. -/
theorem pins_lost_by_configure :
    ∃ cleared cached : IndexRun ℚ, IndexRun.Reachable (fun x => x) cleared ∧
      IndexRun.Reachable (fun x => x) cached ∧
      cleared.held 0 = 1 ∧ (cleared.index.cache.find 0).isSome = false ∧
      cached.held 0 = 1 ∧
        cached.step (.cache (.unpin 0)) = .error "Packed graph page pin underflow" ∧
      ¬ cleared.PinsSafe ∧ ¬ cached.PinsSafe := by
  have hconfigured := @IndexRun.Reachable.step ℚ _ _ (fun x => x) _ _
    (.configure { cache_policy := "lru", cache_capacity_pages := 2 } (none, [])) .start trivial rfl
  have hstored := @IndexRun.Reachable.step ℚ _ _ (fun x => x) _ _
    (.cache (.store ⟨0, []⟩)) hconfigured trivial rfl
  have hpinned := @IndexRun.Reachable.step ℚ _ _ (fun x => x) _ _
    (.cache (.pin 0)) hstored trivial rfl
  have hcleared := @IndexRun.Reachable.step ℚ _ _ (fun x => x) _ _
    (.configure { cache_policy := "2q", cache_capacity_pages := 2 } (none, [])) hpinned trivial rfl
  have hcached := @IndexRun.Reachable.step ℚ _ _ (fun x => x) _ _
    (.cache (.store ⟨0, []⟩)) hcleared trivial rfl
  refine ⟨_, _, hcleared, hcached, rfl, rfl, rfl, rfl, fun hsafe => ?_, fun hsafe => ?_⟩
  · exact Bool.false_ne_true (hsafe 0 Nat.one_pos).1
  · obtain ⟨-, next, hnext⟩ := hsafe 0 Nat.one_pos
    cases hnext

end Packed
