import AgentAware.Dynamic.DynamicRecord

/-!
# The page cache of the packed index

Decoded pages are kept across queries, up to a capacity. A page that is pinned is never evicted. The
cache is a list of entries with distinct page ids; the score that ranks the entries is a number of
its own type, compared and nothing else, so it is a parameter, as is what a page holds.

## Main definitions

- `PageCache` — the entries and the policy
- `PageCache.pinIfCached`, `PageCache.unpinIfCached` — reference counts
- `PageCache.lookupCachedPage`, `PageCache.storeCachedPage` — the use of the cache by a query
- `PageCache.pinCount` — the pins of a page

## Main results

- `pinCount_lookup`, `pinCount_store` — neither changes a pin count
- `pinCount_pin`, `unpin_eq_ok` — one pin more, one pin less
-/

namespace Packed

/-- Page ids are 32-bit. -/
abbrev PageId := UInt32

/-- A decoded page; `α` is what it holds. -/
structure DecodedPage (α : Type) where
  page_id : PageId
  content : α

structure CacheEntry (α : Type) where
  page : DecodedPage α
  last_access : ℕ := 0
  frequency : ℕ := 0
  protected_queue : Bool := false
  hot_score : ℕ := 0
  pin_count : ℕ := 0

def CacheEntry.page_id {α : Type} (entry : CacheEntry α) : PageId := entry.page.page_id

/-- How the index ranks and limits its pages: `configure_cache`. -/
structure CachePolicy (α D : Type) where
  cache_policy : String := "none"
  cache_capacity_pages : ℕ := 0
  /-- `cache_score`. -/
  cache_score : CacheEntry α → D
  /-- `page_hot_score`. -/
  page_hot_score : DecodedPage α → ℕ

structure PageCache (α D : Type) where
  policy : CachePolicy α D
  page_cache : List (CacheEntry α) := []
  cache_clock : ℕ := 0

variable {α D : Type}

namespace PageCache

/-- `page_cache_` is a map: no page has two entries. -/
def Keyed (cache : PageCache α D) : Prop := (cache.page_cache.map CacheEntry.page_id).Nodup

def find (cache : PageCache α D) (page_id : PageId) : Option (CacheEntry α) :=
  cache.page_cache.find? fun entry => entry.page_id = page_id

/-- The entry of a page, changed in place. -/
def modify (cache : PageCache α D) (page_id : PageId) (change : CacheEntry α → CacheEntry α) :
    PageCache α D :=
  { cache with
    page_cache := cache.page_cache.map fun entry =>
      if entry.page_id = page_id then change entry else entry }

def cacheEnabled (cache : PageCache α D) : Bool :=
  cache.policy.cache_policy ≠ "none" && 0 < cache.policy.cache_capacity_pages

def isTwoQueuePolicy (cache : PageCache α D) : Bool :=
  cache.policy.cache_policy = "2q" || cache.policy.cache_policy = "graph-aware-2q" ||
    cache.policy.cache_policy = "agent"

def addPin (entry : CacheEntry α) : CacheEntry α := { entry with pin_count := entry.pin_count + 1 }

def removePin (entry : CacheEntry α) : CacheEntry α :=
  { entry with pin_count := entry.pin_count - 1 }

def pinIfCached (cache : PageCache α D) (page_id : PageId) : Bool × PageCache α D :=
  match cache.find page_id with
  | none => (false, cache)
  | some _ => (true, cache.modify page_id addPin)

def unpinIfCached (cache : PageCache α D) (page_id : PageId) : Except String (PageCache α D) :=
  match cache.find page_id with
  | none => .ok cache
  | some found =>
    if found.pin_count = 0 then .error "Packed graph page pin underflow"
    else .ok (cache.modify page_id removePin)

/-- What a hit does to its entry. -/
def touch (cache : PageCache α D) (entry : CacheEntry α) : CacheEntry α :=
  { entry with
    last_access := cache.cache_clock + 1
    frequency := entry.frequency + 1
    protected_queue := entry.protected_queue || cache.isTwoQueuePolicy }

def lookupCachedPage (cache : PageCache α D) (page_id : PageId) :
    Option (DecodedPage α) × PageCache α D :=
  if cache.cacheEnabled then
    match cache.find page_id with
    | none => (none, cache)
    | some found =>
      (some found.page,
        { cache.modify page_id cache.touch with cache_clock := cache.cache_clock + 1 })
  else (none, cache)

section Evict

variable [LT D] [DecidableLT D] [DecidableEq D]

/-- The better victim of two entries, the one found first in front. -/
def betterVictim (cache : PageCache α D) (victim entry : CacheEntry α) : CacheEntry α :=
  if cache.isTwoQueuePolicy && victim.protected_queue != entry.protected_queue then
    if entry.protected_queue then victim else entry
  else
    let score := cache.policy.cache_score entry
    let victim_score := cache.policy.cache_score victim
    if score < victim_score ∨ score = victim_score ∧ entry.page_id < victim.page_id then entry
    else victim

/-- Pinned entries are passed over; with none left, nothing is evicted. -/
def evictOnePage (cache : PageCache α D) : Bool × PageCache α D :=
  match cache.page_cache.filter fun entry => entry.pin_count = 0 with
  | [] => (false, cache)
  | first :: rest =>
    let victim := rest.foldl cache.betterVictim first
    (true, { cache with
      page_cache := cache.page_cache.filter fun entry => entry.page_id ≠ victim.page_id })

/-- A page that was read. When it finds no room it stays in a scratch page outside the cache. -/
def storeCachedPage (cache : PageCache α D) (page : DecodedPage α) : PageCache α D :=
  if cache.cacheEnabled then
    match cache.find page.page_id with
    | some _ =>
      { cache.modify page.page_id fun entry =>
          { cache.touch entry with page := page, hot_score := cache.policy.page_hot_score page } with
        cache_clock := cache.cache_clock + 1 }
    | none =>
      let (room, cache) :=
        if cache.policy.cache_capacity_pages ≤ cache.page_cache.length then cache.evictOnePage
        else (true, cache)
      if room then
        { cache with
          page_cache := cache.page_cache ++ [{
            page := page
            last_access := cache.cache_clock + 1
            frequency := 1
            hot_score := cache.policy.page_hot_score page }]
          cache_clock := cache.cache_clock + 1 }
      else cache
  else cache

end Evict

/-- The pins of a page; a page that is not cached has none. -/
def pinCount (cache : PageCache α D) (page_id : PageId) : ℕ :=
  match cache.find page_id with
  | some entry => entry.pin_count
  | none => 0

end PageCache

open PageCache

section Modify

variable {cache : PageCache α D} {page_id : PageId} {change : CacheEntry α → CacheEntry α}

theorem keyed_modify (hcache : cache.Keyed) (hid : ∀ entry : CacheEntry α,
    entry.page_id = page_id → (change entry).page_id = page_id) :
    (cache.modify page_id change).Keyed := by
  have hkeys : (cache.modify page_id change).page_cache.map CacheEntry.page_id =
      cache.page_cache.map CacheEntry.page_id := by
    rw [PageCache.modify, List.map_map]
    refine List.map_congr_left fun entry _ => ?_
    by_cases h : entry.page_id = page_id
    · simp [h, hid entry h]
    · simp [h]
  rwa [PageCache.Keyed, hkeys]

theorem find_modify (hid : ∀ entry : CacheEntry α,
    entry.page_id = page_id → (change entry).page_id = page_id) (other : PageId) :
    (cache.modify page_id change).find other =
      (cache.find other).map fun entry => if other = page_id then change entry else entry := by
  have hsame : (fun entry : CacheEntry α => decide (entry.page_id = other)) ∘
      (fun entry => if entry.page_id = page_id then change entry else entry) =
      fun entry => decide (entry.page_id = other) := by
    funext entry
    by_cases h : entry.page_id = page_id
    · simp [h, hid entry h]
    · simp [h]
  rw [PageCache.find, PageCache.modify, List.find?_map, hsame, PageCache.find]
  cases hfound : cache.page_cache.find? fun entry => decide (entry.page_id = other) with
  | none => rfl
  | some entry =>
    have hentry := List.find?_some hfound
    rw [decide_eq_true_iff] at hentry
    simp [hentry]

/-- A change of one entry, seen by its pins. -/
theorem pinCount_modify (change : CacheEntry α → CacheEntry α) (pins : ℕ → ℕ)
    (hid : ∀ entry : CacheEntry α, entry.page_id = page_id → (change entry).page_id = page_id)
    (hpins : ∀ entry, (change entry).pin_count = pins entry.pin_count) (other : PageId) :
    (cache.modify page_id change).pinCount other =
      if other = page_id ∧ (cache.find page_id).isSome then pins (cache.pinCount other)
      else cache.pinCount other := by
  rw [PageCache.pinCount, find_modify hid, PageCache.pinCount]
  by_cases h : other = page_id
  · subst h
    cases cache.find other with
    | none => simp
    | some entry => simp [hpins]
  · cases cache.find other with
    | none => simp [h]
    | some entry => simp [h]

end Modify

section Pins

variable {cache : PageCache α D} {page_id : PageId}

theorem keyed_pin (hcache : cache.Keyed) : (cache.pinIfCached page_id).2.Keyed := by
  rw [PageCache.pinIfCached]
  cases cache.find page_id with
  | none => exact hcache
  | some found => exact keyed_modify hcache fun _ h => h

theorem pinCount_pin (other : PageId) :
    (cache.pinIfCached page_id).2.pinCount other =
      cache.pinCount other +
        if other = page_id ∧ (cache.pinIfCached page_id).1 = true then 1 else 0 := by
  rw [PageCache.pinIfCached]
  cases hfound : cache.find page_id with
  | none => simp
  | some found =>
    dsimp only
    have hmodify : (cache.modify page_id addPin).pinCount other =
        if other = page_id ∧ (cache.find page_id).isSome then cache.pinCount other + 1
        else cache.pinCount other :=
      pinCount_modify addPin (fun n => n + 1) (fun _ h => h) (fun _ => rfl) other
    rw [hmodify, hfound]
    by_cases h : other = page_id <;> simp [h]

/-- A page with a pin is unpinned. -/
theorem unpin_eq_ok (hpins : 0 < cache.pinCount page_id) (hcache : cache.Keyed) :
    ∃ next, cache.unpinIfCached page_id = .ok next ∧ next.Keyed ∧
      ∀ other, next.pinCount other =
        cache.pinCount other - if other = page_id then 1 else 0 := by
  rw [PageCache.unpinIfCached]
  cases hfound : cache.find page_id with
  | none => simp [PageCache.pinCount, hfound] at hpins
  | some found =>
    rw [PageCache.pinCount, hfound] at hpins
    dsimp only at hpins ⊢
    refine ⟨_, if_neg hpins.ne', keyed_modify hcache fun _ h => h, fun other => ?_⟩
    have hmodify : (cache.modify page_id removePin).pinCount other =
        if other = page_id ∧ (cache.find page_id).isSome then cache.pinCount other - 1
        else cache.pinCount other :=
      pinCount_modify removePin (fun n => n - 1) (fun _ h => h) (fun _ => rfl) other
    rw [hmodify, hfound]
    by_cases h : other = page_id <;> simp [h]

theorem keyed_lookup (hcache : cache.Keyed) : (cache.lookupCachedPage page_id).2.Keyed := by
  rw [PageCache.lookupCachedPage]
  split
  · cases cache.find page_id with
    | none => exact hcache
    | some found => exact keyed_modify hcache fun _ h => h
  · exact hcache

theorem pinCount_lookup (other : PageId) :
    (cache.lookupCachedPage page_id).2.pinCount other = cache.pinCount other := by
  rw [PageCache.lookupCachedPage]
  split
  · cases cache.find page_id with
    | none => rfl
    | some found =>
      have hsame : (cache.modify page_id cache.touch).pinCount other =
          if other = page_id ∧ (cache.find page_id).isSome then cache.pinCount other
          else cache.pinCount other :=
        pinCount_modify cache.touch (fun n => n) (fun _ h => h) (fun _ => rfl) other
      rw [ite_self] at hsame
      exact hsame
  · rfl

end Pins

section Policy

variable {cache next : PageCache α D} {page_id : PageId}

theorem policy_lookup : (cache.lookupCachedPage page_id).2.policy = cache.policy := by
  rw [PageCache.lookupCachedPage]
  split
  · cases cache.find page_id <;> rfl
  · rfl

theorem policy_pin : (cache.pinIfCached page_id).2.policy = cache.policy := by
  rw [PageCache.pinIfCached]
  cases cache.find page_id <;> rfl

theorem policy_unpin (hunpin : cache.unpinIfCached page_id = .ok next) :
    next.policy = cache.policy := by
  rw [PageCache.unpinIfCached] at hunpin
  split at hunpin
  · cases hunpin
    rfl
  · split at hunpin
    · cases hunpin
    · cases hunpin
      rfl

variable [LT D] [DecidableLT D] [DecidableEq D]

theorem policy_evictOne : cache.evictOnePage.2.policy = cache.policy := by
  rw [PageCache.evictOnePage]
  split <;> rfl

theorem policy_store (page : DecodedPage α) :
    (cache.storeCachedPage page).policy = cache.policy := by
  rw [PageCache.storeCachedPage]
  split
  · cases cache.find page.page_id with
    | some found => rfl
    | none =>
      dsimp only
      split
      · split
        · exact policy_evictOne
        · exact policy_evictOne
      · rfl
  · rfl

end Policy

section Store

variable [LT D] [DecidableLT D] [DecidableEq D] {cache : PageCache α D}

theorem foldl_betterVictim_mem (first : CacheEntry α) (rest : List (CacheEntry α)) :
    rest.foldl cache.betterVictim first ∈ first :: rest := by
  induction rest generalizing first with
  | nil => exact List.mem_singleton_self first
  | cons entry rest ih =>
    have hpick : cache.betterVictim first entry = first ∨
        cache.betterVictim first entry = entry := by
      rw [PageCache.betterVictim]
      dsimp only
      split_ifs
      · exact Or.inl rfl
      · exact Or.inr rfl
      · exact Or.inr rfl
      · exact Or.inl rfl
    have hmem := ih (cache.betterVictim first entry)
    rw [List.foldl_cons]
    rcases List.mem_cons.mp hmem with h | h
    · rw [h]
      rcases hpick with hpick | hpick <;> simp [hpick]
    · exact List.mem_cons_of_mem _ (List.mem_cons_of_mem _ h)

omit [LT D] [DecidableLT D] [DecidableEq D] in
/-- The entry of a page is the only one with its id. -/
theorem find_eq_some (hcache : cache.Keyed) {entry : CacheEntry α}
    (hmem : entry ∈ cache.page_cache) : cache.find entry.page_id = some entry := by
  rw [PageCache.find]
  rw [PageCache.Keyed] at hcache
  revert hcache hmem
  generalize cache.page_cache = entries
  intro hcache hmem
  induction entries with
  | nil => cases hmem
  | cons head entries ih =>
    rw [List.map_cons, List.nodup_cons] at hcache
    rcases List.mem_cons.mp hmem with rfl | hmem
    · simp
    · have hne : head.page_id ≠ entry.page_id := fun h =>
        hcache.1 (h ▸ List.mem_map_of_mem hmem)
      rw [List.find?_cons_of_neg (by simpa using hne), ih hcache.2 hmem]

/-- Eviction takes away one page without pins, or nothing. -/
theorem pinCount_evict (hcache : cache.Keyed) :
    cache.evictOnePage.2.Keyed ∧
      (∀ other, cache.evictOnePage.2.pinCount other = cache.pinCount other) ∧
      ∀ other, cache.find other = none → cache.evictOnePage.2.find other = none := by
  rw [PageCache.evictOnePage]
  split
  · exact ⟨hcache, fun _ => rfl, fun _ h => h⟩
  · next first rest hunpinned =>
    have hvictim : rest.foldl cache.betterVictim first ∈
        cache.page_cache.filter fun entry => entry.pin_count = 0 := by
      rw [hunpinned]
      exact foldl_betterVictim_mem first rest
    obtain ⟨victim, hv⟩ : ∃ victim, victim = rest.foldl cache.betterVictim first := ⟨_, rfl⟩
    rw [← hv] at hvictim ⊢
    obtain ⟨hmem, hpins⟩ := List.mem_filter.mp hvictim
    rw [decide_eq_true_iff] at hpins
    have hfind : ∀ other, PageCache.find { cache with
        page_cache := cache.page_cache.filter fun entry => entry.page_id ≠ victim.page_id } other =
        if other = victim.page_id then none else cache.find other := by
      intro other
      rw [PageCache.find, List.find?_filter, PageCache.find]
      by_cases h : other = victim.page_id
      · rw [if_pos h, List.find?_eq_none]
        intro entry _
        simp [h]
      · rw [if_neg h]
        congr 1
        funext entry
        by_cases he : entry.page_id = other <;> simp [he, h]
    refine ⟨hcache.sublist (List.filter_sublist.map _), fun other => ?_, fun other hnone => ?_⟩
    · rw [PageCache.pinCount, hfind, PageCache.pinCount]
      by_cases h : other = victim.page_id
      · rw [if_pos h, h, find_eq_some hcache hmem]
        exact hpins.symm
      · rw [if_neg h]
    · rw [hfind, hnone, ite_self]

theorem pinCount_store (hcache : cache.Keyed) (page : DecodedPage α) :
    (cache.storeCachedPage page).Keyed ∧
      ∀ other, (cache.storeCachedPage page).pinCount other = cache.pinCount other := by
  rw [PageCache.storeCachedPage]
  split
  · cases hfound : cache.find page.page_id with
    | some found =>
      have hmodify : ∀ change : CacheEntry α → CacheEntry α,
          (∀ entry, (change entry).page_id = page.page_id) →
          (∀ entry, (change entry).pin_count = entry.pin_count) →
          (cache.modify page.page_id change).Keyed ∧
            ∀ other, (cache.modify page.page_id change).pinCount other = cache.pinCount other := by
        intro change hid hpins
        refine ⟨keyed_modify hcache fun entry _ => hid entry, fun other => ?_⟩
        rw [pinCount_modify change (fun n => n) (fun entry _ => hid entry) hpins, ite_self]
      exact hmodify _ (fun _ => rfl) fun _ => rfl
    | none =>
      obtain ⟨room, hroom⟩ : ∃ room, room =
          (if cache.policy.cache_capacity_pages ≤ cache.page_cache.length then cache.evictOnePage
            else (true, cache)) := ⟨_, rfl⟩
      have hspec : room.2.Keyed ∧ (∀ other, room.2.pinCount other = cache.pinCount other) ∧
          room.2.find page.page_id = none := by
        rw [hroom]
        split
        · obtain ⟨hkeyed, hpins, hnone⟩ := pinCount_evict hcache
          exact ⟨hkeyed, hpins, hnone _ hfound⟩
        · exact ⟨hcache, fun _ => rfl, hfound⟩
      dsimp only
      rw [← hroom]
      obtain ⟨hkeyed, hpins, hnone⟩ := hspec
      cases room.1 with
      | false => exact ⟨hkeyed, hpins⟩
      | true =>
        rw [PageCache.find, List.find?_eq_none] at hnone
        have hfresh : ∀ entry ∈ room.2.page_cache, entry.page_id ≠ page.page_id := fun entry he h =>
          hnone entry he (decide_eq_true h)
        refine ⟨?_, fun other => ?_⟩
        · rw [PageCache.Keyed]
          change (List.map CacheEntry.page_id (room.2.page_cache ++ [_])).Nodup
          rw [List.map_append, List.nodup_append]
          refine ⟨hkeyed, List.nodup_singleton _, fun a ha b hb => ?_⟩
          obtain ⟨entry, he, rfl⟩ := List.mem_map.mp ha
          rw [List.map_singleton, List.mem_singleton] at hb
          rw [hb]
          exact hfresh entry he
        · rw [← hpins other, PageCache.pinCount, PageCache.pinCount, PageCache.find, PageCache.find]
          change (match List.find? _ (room.2.page_cache ++ [_]) with
            | some entry => entry.pin_count
            | none => 0) = _
          rw [List.find?_append]
          cases List.find? (fun entry => decide (entry.page_id = other)) room.2.page_cache with
          | some entry => rfl
          | none =>
            rw [Option.none_or, List.find?_singleton]
            split
            · next h => split at h <;> cases h; rfl
            · rfl
  · exact ⟨hcache, fun _ => rfl⟩

end Store

end Packed
