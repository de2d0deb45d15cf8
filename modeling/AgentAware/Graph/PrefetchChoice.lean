import AgentAware.Graph.SearchCoverage
import AgentAware.Packed.PageCache
import Mathlib.Data.Finset.Card
import Mathlib.Data.List.MinMax
import Mathlib.Data.List.Pairwise

/-!
# The pages that an expanded batch prefetches

`expand_candidate_batch` walks over the nodes of a batch, and over the new neighbours of each in the
order of their PQ distance. It collects the pages that are not available until it has
`max(1, 2 * beam)` of them, in a hash set, and hands the set over in the order of its iteration.

## Main definitions

- `collectPrefetchPages` — the loop over the ranked neighbours of one node
- `prefetchPages` — the set that a batch collects
- `HandedOver` — the lists that a batch may hand over
- `PqFirst` — the pages that are the closest ones, none left out that is closer

## Main results

- `prefetchPages_eq` — the set consists of the first pages met, node after node
- `pqFirst_take` — taking all neighbours in the order of their PQ distance gives the closest pages
- `handedOver_pqOrder_iff` — when the code does the same
-/

namespace Graph

open Packed (PageId)

section Collect

variable {D : Type} [LinearOrder D] (index : PackedIndex) (config : DiskGraphSearchConfig)
  (distances : QueryDistances D) (page_for_node : NodeId → PageId)
  (page_available_for_scheduling : PageId → Bool)

def beamWidth : ℕ := if config.beam_width = 0 then config.search_width else config.beam_width

/-- `std::max(1, beam * 2)`, in 64 bits. -/
def prefetchCount : ℕ := max 1 (beamWidth config * 2 % 2 ^ 64)

/-- How many pages are wanted, whatever a `size_t` holds. -/
def wantedCount : ℕ := max 1 (2 * beamWidth config)

/-- The pages collected so far, in the order of their insertion, after the ranked neighbours of one
more node. -/
def collectPrefetchPages (prefetch_count : ℕ) :
    List PageId → List (SearchResult D) → List PageId
  | prefetch_pages, [] => prefetch_pages
  | prefetch_pages, neighbor :: ranked_neighbors =>
    if prefetch_pages.length < prefetch_count then
      let page_id := page_for_node neighbor.id
      if page_available_for_scheduling page_id || page_id ∈ prefetch_pages then
        collectPrefetchPages prefetch_count prefetch_pages ranked_neighbors
      else collectPrefetchPages prefetch_count (prefetch_pages ++ [page_id]) ranked_neighbors
    else prefetch_pages

/-- `ranked_neighbors_by_candidate`. -/
def rankedNeighbors (visited : List NodeId) (batch : List (SearchResult D)) :
    List (List (SearchResult D)) :=
  (batchNeighbors index visited batch).map (rankByDistance distances)

/-- The set of pages that a batch collects. -/
def prefetchPages (visited : List NodeId) (batch : List (SearchResult D)) : List PageId :=
  (rankedNeighbors index distances visited batch).foldl
    (collectPrefetchPages page_for_node page_available_for_scheduling (prefetchCount config)) []

/-- A list handed to the prefetcher. A hash set is iterated in an order of its own. -/
structure HandedOver (async_prefetch_enabled : Bool) (visited : List NodeId)
    (batch : List (SearchResult D)) (pages : List PageId) : Prop where
  enabled : async_prefetch_enabled = true
  nonempty : prefetchPages index config distances page_for_node page_available_for_scheduling
    visited batch ≠ []
  iterated : pages.Perm (prefetchPages index config distances page_for_node
    page_available_for_scheduling visited batch)

/-- The pages of the new neighbours that are not available, node after node, each once. -/
def pagesMet (visited : List NodeId) (batch : List (SearchResult D)) : List PageId :=
  Versions.firsts id
    (((rankedNeighbors index distances visited batch).flatten.map fun neighbor =>
      page_for_node neighbor.id).filter fun page_id => !page_available_for_scheduling page_id)

end Collect

section Choice

variable {D : Type} [LinearOrder D] (distances : QueryDistances D)
  (page_for_node : NodeId → PageId) (page_available_for_scheduling : PageId → Bool)

/-- The pages of some neighbours that are not available yet. -/
def unavailablePages (neighbors : List NodeId) : Finset PageId :=
  (neighbors.map page_for_node).toFinset.filter fun page_id =>
    page_available_for_scheduling page_id = false

/-- The best PQ distance among the neighbours on a page. -/
def bestDistance (neighbors : List NodeId) (page_id : PageId) : WithTop D :=
  ((neighbors.filter fun id => page_for_node id = page_id).map distances.adc).minimum

/-- As many of the pages as may be prefetched, and no page that was left out is closer. -/
structure PqFirst (prefetch_count : ℕ) (neighbors : List NodeId) (pages : List PageId) :
    Prop where
  nodup : pages.Nodup
  met : ∀ page_id ∈ pages,
    page_id ∈ unavailablePages page_for_node page_available_for_scheduling neighbors
  length_eq : pages.length = min prefetch_count
    (unavailablePages page_for_node page_available_for_scheduling neighbors).card
  closest : ∀ page_id ∈ pages,
    ∀ other ∈ unavailablePages page_for_node page_available_for_scheduling neighbors,
      other ∉ pages → bestDistance distances page_for_node neighbors page_id ≤
        bestDistance distances page_for_node neighbors other

/-- The closest pages, the closest of them in front. -/
structure PqOrder (prefetch_count : ℕ) (neighbors : List NodeId) (pages : List PageId) :
    Prop extends PqFirst distances page_for_node page_available_for_scheduling prefetch_count
      neighbors pages where
  sorted : pages.Pairwise fun page_id other =>
    bestDistance distances page_for_node neighbors page_id ≤
      bestDistance distances page_for_node neighbors other

end Choice

section Loop

variable {D : Type} {page_for_node : NodeId → PageId}
  {page_available_for_scheduling : PageId → Bool}

theorem collectPrefetchPages_full {prefetch_count : ℕ} {pages : List PageId}
    (hfull : prefetch_count ≤ pages.length) (ranked : List (SearchResult D)) :
    collectPrefetchPages page_for_node page_available_for_scheduling prefetch_count pages ranked =
      pages := by
  cases ranked with
  | nil => rfl
  | cons neighbor ranked =>
    rw [collectPrefetchPages, if_neg (by omega)]

theorem collectPrefetchPages_append (prefetch_count : ℕ) (pages : List PageId)
    (ranked ranked' : List (SearchResult D)) :
    collectPrefetchPages page_for_node page_available_for_scheduling prefetch_count pages
        (ranked ++ ranked') =
      collectPrefetchPages page_for_node page_available_for_scheduling prefetch_count
        (collectPrefetchPages page_for_node page_available_for_scheduling prefetch_count pages
          ranked) ranked' := by
  induction ranked generalizing pages with
  | nil => rfl
  | cons neighbor ranked ih =>
    by_cases hroom : pages.length < prefetch_count
    · rw [List.cons_append, collectPrefetchPages, if_pos hroom, collectPrefetchPages,
        if_pos hroom]
      dsimp only
      split
      · exact ih pages
      · exact ih _
    · rw [not_lt] at hroom
      rw [collectPrefetchPages_full hroom, collectPrefetchPages_full hroom,
        collectPrefetchPages_full hroom]

theorem foldl_collectPrefetchPages (prefetch_count : ℕ) (pages : List PageId)
    (ranked : List (List (SearchResult D))) :
    ranked.foldl (collectPrefetchPages page_for_node page_available_for_scheduling prefetch_count)
        pages =
      collectPrefetchPages page_for_node page_available_for_scheduling prefetch_count pages
        ranked.flatten := by
  induction ranked generalizing pages with
  | nil => rfl
  | cons first ranked ih =>
    rw [List.foldl_cons, ih, List.flatten_cons, collectPrefetchPages_append]

/-- The loop adds the first pages that are new to it, as long as there is room. -/
theorem collectPrefetchPages_eq {prefetch_count : ℕ} {pages : List PageId}
    {seen : List PageId} (hseen : ∀ p, p ∈ seen ↔ p ∈ pages)
    (hroom : pages.length ≤ prefetch_count) (ranked : List (SearchResult D)) :
    collectPrefetchPages page_for_node page_available_for_scheduling prefetch_count pages ranked =
      pages ++ (Versions.firstsFrom id seen ((ranked.map fun neighbor =>
        page_for_node neighbor.id).filter fun page_id =>
          !page_available_for_scheduling page_id)).take (prefetch_count - pages.length) := by
  induction ranked generalizing pages seen with
  | nil => simp [collectPrefetchPages, Versions.firstsFrom]
  | cons neighbor ranked ih =>
    by_cases hfull : prefetch_count ≤ pages.length
    · rw [collectPrefetchPages_full hfull, Nat.sub_eq_zero_of_le hfull, List.take_zero,
        List.append_nil]
    · rw [collectPrefetchPages, if_pos (by omega), List.map_cons]
      by_cases havailable : page_available_for_scheduling (page_for_node neighbor.id) = true
      · rw [List.filter_cons_of_neg (by simp [havailable])]
        simp only [havailable, Bool.true_or, if_true]
        exact ih hseen hroom
      · rw [List.filter_cons_of_pos (by simp [havailable]), Versions.firstsFrom, id_eq]
        by_cases hmem : page_for_node neighbor.id ∈ pages
        · rw [if_pos ((hseen _).mpr hmem)]
          simp only [hmem, decide_true, Bool.or_true, if_true]
          exact ih hseen hroom
        · rw [if_neg fun h => hmem ((hseen _).mp h)]
          have hgoes : (page_available_for_scheduling (page_for_node neighbor.id) ||
              decide (page_for_node neighbor.id ∈ pages)) = false := by simp [havailable, hmem]
          simp only [hgoes, Bool.false_eq_true, if_false]
          -- the page is new, and seen from now on
          have hmore : ∀ p, p ∈ page_for_node neighbor.id :: seen ↔
              p ∈ pages ++ [page_for_node neighbor.id] := by
            intro p
            rw [List.mem_cons, List.mem_append, List.mem_singleton, hseen, or_comm]
          rw [ih hmore (by rw [List.length_append, List.length_singleton]; omega),
            List.length_append, List.length_singleton, List.append_assoc]
          have hcount : prefetch_count - pages.length =
              (prefetch_count - (pages.length + 1)) + 1 := by omega
          rw [hcount, List.take_succ_cons]
          rfl

end Loop

section Spec

variable {D : Type} [LinearOrder D] {distances : QueryDistances D}
  {page_for_node : NodeId → PageId} {page_available_for_scheduling : PageId → Bool}

theorem mem_firsts_id {β : Type} [DecidableEq β] {log : List β} {b : β} :
    b ∈ Versions.firsts id log ↔ b ∈ log := by
  constructor
  · exact fun h => (Versions.mem_firstsFrom h).1
  · intro h
    have hnew : id b ∉ ([] : List β) := List.not_mem_nil
    obtain ⟨a, ha, hsame⟩ := Versions.exists_firstsFrom h hnew
    have heq : a = b := hsame
    exact heq ▸ ha

theorem length_eq_card {neighbors : List NodeId} {met : List PageId} (hnodup : met.Nodup)
    (hmem : ∀ page_id, page_id ∈ met ↔
      page_id ∈ unavailablePages page_for_node page_available_for_scheduling neighbors) :
    met.length = (unavailablePages page_for_node page_available_for_scheduling neighbors).card := by
  rw [← List.toFinset_card_of_nodup hnodup]
  congr 1
  ext page_id
  rw [List.mem_toFinset, hmem]

/-- A smaller count takes the same when there is nothing more to take. -/
theorem take_eq_of_le {met : List PageId} {count wanted : ℕ} (hle : count ≤ wanted)
    (h : count = wanted ∨ met.length ≤ count) :
    met.take count = met.take wanted ∧ met.drop count = met.drop wanted := by
  rcases h with rfl | h
  · exact ⟨rfl, rfl⟩
  · rw [List.take_of_length_le h, List.take_of_length_le (h.trans hle), List.drop_of_length_le h,
      List.drop_of_length_le (h.trans hle)]
    exact ⟨rfl, rfl⟩

/-- The first of the pages met, in any order, when none that comes later is closer. -/
theorem pqFirst_of_perm_take {prefetch_count : ℕ} {neighbors : List NodeId}
    {met pages : List PageId} (hnodup : met.Nodup)
    (hmem : ∀ page_id, page_id ∈ met ↔
      page_id ∈ unavailablePages page_for_node page_available_for_scheduling neighbors)
    (hperm : pages.Perm (met.take prefetch_count))
    (hcloser : ∀ page_id ∈ met.take prefetch_count, ∀ other ∈ met.drop prefetch_count,
      bestDistance distances page_for_node neighbors page_id ≤
        bestDistance distances page_for_node neighbors other) :
    PqFirst distances page_for_node page_available_for_scheduling prefetch_count neighbors pages where
  nodup := hperm.nodup_iff.mpr (hnodup.sublist (List.take_sublist _ _))
  met := fun page_id hpage => (hmem page_id).mp (List.mem_of_mem_take (hperm.mem_iff.mp hpage))
  length_eq := by rw [hperm.length_eq, List.length_take, length_eq_card hnodup hmem]
  closest := by
    intro page_id hpage other hother hleft
    refine hcloser page_id (hperm.mem_iff.mp hpage) other ?_
    have hmet := (hmem other).mpr hother
    rw [← List.take_append_drop prefetch_count met, List.mem_append] at hmet
    rcases hmet with hmet | hmet
    · exact absurd (hperm.mem_iff.mpr hmet) hleft
    · exact hmet

theorem bestDistance_le {neighbors : List NodeId} {id : NodeId} (hid : id ∈ neighbors) :
    bestDistance distances page_for_node neighbors (page_for_node id) ≤ distances.adc id := by
  refine List.minimum_le_of_mem' (List.mem_map_of_mem ?_)
  exact List.mem_filter.mpr ⟨hid, by simp⟩

theorem le_bestDistance {neighbors : List NodeId} {page_id : PageId} {bound : D}
    (hbound : ∀ id ∈ neighbors, page_for_node id = page_id → bound ≤ distances.adc id) :
    (bound : WithTop D) ≤ bestDistance distances page_for_node neighbors page_id := by
  refine List.le_minimum_of_forall_le fun distance hdistance => ?_
  obtain ⟨id, hid, rfl⟩ := List.mem_map.mp hdistance
  obtain ⟨hid, hpage⟩ := List.mem_filter.mp hid
  exact WithTop.coe_le_coe.mpr (hbound id hid (by simpa using hpage))

/-- In the order of the PQ distance, the pages are met closest first. -/
theorem firsts_sorted {neighbors before order : List NodeId} {seen : List PageId}
    (hsorted : order.Pairwise fun id other => distances.adc id ≤ distances.adc other)
    (hall : ∀ id, id ∈ neighbors ↔ id ∈ before ∨ id ∈ order)
    (hseen : ∀ id ∈ before, page_available_for_scheduling (page_for_node id) = false →
      page_for_node id ∈ seen) :
    (Versions.firstsFrom id seen ((order.map page_for_node).filter fun page_id =>
      !page_available_for_scheduling page_id)).Pairwise fun page_id other =>
        bestDistance distances page_for_node neighbors page_id ≤
          bestDistance distances page_for_node neighbors other := by
  induction order generalizing before seen with
  | nil => simp [Versions.firstsFrom]
  | cons id order ih =>
    rw [List.pairwise_cons] at hsorted
    have hall' : ∀ other, other ∈ neighbors ↔ other ∈ id :: before ∨ other ∈ order := by
      intro other
      rw [hall, List.mem_cons, List.mem_cons]
      tauto
    rw [List.map_cons]
    by_cases havailable : page_available_for_scheduling (page_for_node id) = true
    · rw [List.filter_cons_of_neg (by simp [havailable])]
      refine ih hsorted.2 hall' fun other hother hfree => ?_
      rcases List.mem_cons.mp hother with rfl | hother
      · exact absurd (havailable.symm.trans hfree) (by simp)
      · exact hseen other hother hfree
    · rw [Bool.not_eq_true] at havailable
      rw [List.filter_cons_of_pos (by simp [havailable]), Versions.firstsFrom, id_eq]
      by_cases hmem : page_for_node id ∈ seen
      · rw [if_pos hmem]
        refine ih hsorted.2 hall' fun other hother hfree => ?_
        rcases List.mem_cons.mp hother with rfl | hother
        · exact hmem
        · exact hseen other hother hfree
      · rw [if_neg hmem, List.pairwise_cons]
        refine ⟨fun page_id hpage => ?_, ih hsorted.2 hall' fun other hother hfree => ?_⟩
        · -- the neighbours on a page that comes later come later too
          obtain ⟨hlater, hnew⟩ := Versions.mem_firstsFrom hpage
          have hfree : page_available_for_scheduling page_id = false := by
            simpa using (List.mem_filter.mp hlater).2
          refine (bestDistance_le ((hall id).mpr (.inr List.mem_cons_self))).trans ?_
          refine le_bestDistance fun other hother hsame => ?_
          rcases (hall' other).mp hother with hbefore | hrest
          · rcases List.mem_cons.mp hbefore with rfl | hbefore
            · exact le_rfl
            · have hold := hseen other hbefore (hsame ▸ hfree)
              rw [hsame] at hold
              exact absurd (List.mem_cons_of_mem _ hold) hnew
          · exact hsorted.1 other hrest
        · rcases List.mem_cons.mp hother with rfl | hother
          · exact List.mem_cons_self
          · exact List.mem_cons_of_mem _ (hseen other hother hfree)

/-- When all the neighbours are taken in the order of their PQ distance, the first pages met are in
PQ order. -/
theorem pqOrder_take (prefetch_count : ℕ) {neighbors order : List NodeId}
    (hperm : order.Perm neighbors)
    (hsorted : order.Pairwise fun id other => distances.adc id ≤ distances.adc other) :
    PqOrder distances page_for_node page_available_for_scheduling prefetch_count neighbors
      ((Versions.firsts id ((order.map page_for_node).filter fun page_id =>
        !page_available_for_scheduling page_id)).take prefetch_count) := by
  have hpairwise := @firsts_sorted D _ distances page_for_node page_available_for_scheduling
    neighbors [] order [] hsorted (fun id => by simp [hperm.mem_iff]) (by simp)
  have hnodup := Versions.firstsFrom_nodup (f := (id : PageId → PageId)) []
    ((order.map page_for_node).filter fun page_id => !page_available_for_scheduling page_id)
  rw [List.map_id] at hnodup
  have hmem : ∀ page_id, page_id ∈ Versions.firsts id ((order.map page_for_node).filter
      fun page_id => !page_available_for_scheduling page_id) ↔
        page_id ∈ unavailablePages page_for_node page_available_for_scheduling neighbors := by
    intro page_id
    rw [mem_firsts_id, List.mem_filter, unavailablePages, Finset.mem_filter, List.mem_toFinset,
      (hperm.map page_for_node).mem_iff]
    simp
  refine ⟨pqFirst_of_perm_take hnodup hmem (List.Perm.refl _) ?_,
    hpairwise.sublist (List.take_sublist _ _)⟩
  rw [← List.take_append_drop prefetch_count (Versions.firstsFrom id []
    ((order.map page_for_node).filter fun page_id => !page_available_for_scheduling page_id)),
    List.pairwise_append] at hpairwise
  exact hpairwise.2.2

end Spec

section Order

variable {D : Type} [LinearOrder D] (index : PackedIndex) (config : DiskGraphSearchConfig)
  (distances : QueryDistances D) (page_for_node : NodeId → PageId)
  (page_available_for_scheduling : PageId → Bool)

/-- The set consists of the first pages met, node after node. -/
theorem prefetchPages_eq (visited : List NodeId) (batch : List (SearchResult D)) :
    prefetchPages index config distances page_for_node page_available_for_scheduling visited
        batch =
      (pagesMet index distances page_for_node page_available_for_scheduling visited batch).take
        (prefetchCount config) := by
  rw [prefetchPages, foldl_collectPrefetchPages,
    collectPrefetchPages_eq (fun p => Iff.rfl) (Nat.zero_le _)]
  rfl

/-- The new neighbours of a batch. -/
def newNeighborsOfBatch (visited : List NodeId) (batch : List (SearchResult D)) : List NodeId :=
  (batchNeighbors index visited batch).flatten

/-- The pages met are the pages of the new neighbours that are not available. -/
theorem mem_pagesMet (visited : List NodeId) (batch : List (SearchResult D)) (page_id : PageId) :
    page_id ∈ pagesMet index distances page_for_node page_available_for_scheduling visited batch ↔
      page_id ∈ unavailablePages page_for_node page_available_for_scheduling
        (newNeighborsOfBatch index visited batch) := by
  have hids : ∀ id : NodeId, (∃ neighbor ∈ (rankedNeighbors index distances visited batch).flatten,
      neighbor.id = id) ↔ id ∈ newNeighborsOfBatch index visited batch := by
    intro id
    simp only [rankedNeighbors, newNeighborsOfBatch, List.mem_flatten, List.mem_map]
    constructor
    · rintro ⟨neighbor, ⟨ranked, ⟨found, hfound, rfl⟩, hneighbor⟩, rfl⟩
      refine ⟨found, hfound, ?_⟩
      exact (rankByDistance_ids distances found).mem_iff.mp (List.mem_map_of_mem hneighbor)
    · rintro ⟨found, hfound, hid⟩
      obtain ⟨neighbor, hneighbor, hname⟩ :=
        List.mem_map.mp ((rankByDistance_ids distances found).mem_iff.mpr hid)
      exact ⟨neighbor, ⟨_, ⟨found, hfound, rfl⟩, hneighbor⟩, hname⟩
  rw [pagesMet, mem_firsts_id, unavailablePages, Finset.mem_filter, List.mem_toFinset, List.mem_filter,
    List.mem_map, List.mem_map]
  refine and_congr ⟨?_, ?_⟩ (by simp)
  · rintro ⟨neighbor, hneighbor, rfl⟩
    exact ⟨neighbor.id, (hids neighbor.id).mp ⟨neighbor, hneighbor, rfl⟩, rfl⟩
  · rintro ⟨id, hid, rfl⟩
    obtain ⟨neighbor, hneighbor, rfl⟩ := (hids id).mpr hid
    exact ⟨neighbor, hneighbor, rfl⟩

theorem pagesMet_nodup (visited : List NodeId) (batch : List (SearchResult D)) :
    (pagesMet index distances page_for_node page_available_for_scheduling visited batch).Nodup := by
  have hnodup := Versions.firstsFrom_nodup (f := (id : PageId → PageId)) []
    (((rankedNeighbors index distances visited batch).flatten.map fun neighbor =>
      page_for_node neighbor.id).filter fun page_id => !page_available_for_scheduling page_id)
  rwa [List.map_id] at hnodup

theorem forall_eq_of_pairwise {β γ : Type} {f : β → γ} {l : List β}
    (h : l.Pairwise fun a b => f a = f b) : ∀ a ∈ l, ∀ b ∈ l, f a = f b := by
  have hsymm : Std.Symm fun a b => f a = f b := ⟨fun _ _ heq => heq.symm⟩
  intro a ha b hb
  exact List.Pairwise.forall_of_forall (R := fun a b => f a = f b) (fun _ _ => rfl) h ha hb

theorem prefetchCount_le : prefetchCount config ≤ wantedCount config := by
  have hmod := Nat.mod_le (beamWidth config * 2) (2 ^ 64)
  rw [prefetchCount, wantedCount]
  omega

/-- What the code needs to get the order right: twice the beam does not wrap around or there are no
more pages than that leaves, the pages that it takes, the first ones met node after node, are all
equally close, and no page that it meets later is closer. -/
def FirstMetEquallyClose (visited : List NodeId) (batch : List (SearchResult D)) : Prop :=
  let met := pagesMet index distances page_for_node page_available_for_scheduling visited batch
  let best := bestDistance distances page_for_node (newNeighborsOfBatch index visited batch)
  (prefetchCount config = wantedCount config ∨ met.length ≤ prefetchCount config) ∧
  (∀ page_id ∈ met.take (prefetchCount config), ∀ other ∈ met.take (prefetchCount config),
      best page_id = best other) ∧
    ∀ page_id ∈ met.take (prefetchCount config), ∀ other ∈ met.drop (prefetchCount config),
      best page_id ≤ best other

/-- Whatever the order of iteration, a list handed over is in PQ order exactly when twice the beam is
not cut short, the pages that the code takes are equally close and no page that it meets later is
closer. -/
theorem handedOver_pqOrder_iff (async_prefetch_enabled : Bool) (visited : List NodeId)
    (batch : List (SearchResult D)) :
    (∀ pages, HandedOver index config distances page_for_node page_available_for_scheduling
        async_prefetch_enabled visited batch pages →
      PqOrder distances page_for_node page_available_for_scheduling (wantedCount config)
        (newNeighborsOfBatch index visited batch) pages) ↔
      (async_prefetch_enabled = true → FirstMetEquallyClose index config distances page_for_node
        page_available_for_scheduling visited batch) := by
  have hcollected := prefetchPages_eq index config distances page_for_node
    page_available_for_scheduling visited batch
  have hnodup := pagesMet_nodup index distances page_for_node page_available_for_scheduling visited
    batch
  constructor
  · intro h henabled
    by_cases hnone : prefetchPages index config distances page_for_node
        page_available_for_scheduling visited batch = []
    · rw [hcollected] at hnone
      rw [List.take_eq_nil_iff] at hnone
      have hpositive : 1 ≤ prefetchCount config := le_max_left _ _
      have hnil := hnone.resolve_left (Nat.ne_of_gt hpositive)
      rw [FirstMetEquallyClose, hnil]
      simp
    · -- the same set, iterated one way and the other
      have hforth := h _ ⟨henabled, hnone, List.Perm.refl _⟩
      have hback := h _ ⟨henabled, hnone, List.reverse_perm _⟩
      have hforth_sorted := hforth.sorted
      have hback_sorted := List.pairwise_reverse.mp hback.sorted
      rw [hcollected] at hforth_sorted hback_sorted
      have hequal : List.Pairwise (fun page_id other : PageId =>
          bestDistance distances page_for_node (newNeighborsOfBatch index visited batch) page_id =
            bestDistance distances page_for_node (newNeighborsOfBatch index visited batch) other)
          ((pagesMet index distances page_for_node page_available_for_scheduling visited
            batch).take (prefetchCount config)) :=
        (hforth_sorted.and hback_sorted).imp fun hle => le_antisymm hle.1 hle.2
      refine ⟨?_, fun page_id hpage other hother => ?_, fun page_id hpage other hother => ?_⟩
      · have hlength := hforth.length_eq
        have hle := prefetchCount_le config
        rw [hcollected, List.length_take, ← length_eq_card hnodup (mem_pagesMet index distances
          page_for_node page_available_for_scheduling visited batch)] at hlength
        omega
      · exact forall_eq_of_pairwise hequal page_id hpage other hother
      · refine hforth.closest page_id (hcollected ▸ hpage) other ?_ ?_
        · exact (mem_pagesMet index distances page_for_node page_available_for_scheduling visited
            batch other).mp (List.mem_of_mem_drop hother)
        · rw [hcollected]
          intro htaken
          rw [← List.take_append_drop (prefetchCount config) (pagesMet index distances
            page_for_node page_available_for_scheduling visited batch), List.nodup_append] at hnodup
          exact hnodup.2.2 other htaken other hother rfl
  · intro h pages hpages
    obtain ⟨hcount, hequal, hcloser⟩ := h hpages.enabled
    have hperm := hcollected ▸ hpages.iterated
    obtain ⟨htake, hdrop⟩ := take_eq_of_le (prefetchCount_le config) hcount
    rw [htake] at hperm hequal hcloser
    rw [hdrop] at hcloser
    refine ⟨pqFirst_of_perm_take hnodup (mem_pagesMet index distances page_for_node
      page_available_for_scheduling visited batch) hperm hcloser, ?_⟩
    refine List.pairwise_of_forall_mem_list fun page_id hpage other hother => ?_
    exact (hequal page_id (hperm.mem_iff.mp hpage) other (hperm.mem_iff.mp hother)).le

/-- Two nodes are expanded. The four neighbours of the first one fill the set; the neighbour of the
second one is closer than all of them and is left out, in whatever order the set is iterated. -/
theorem closest_page_left_out :
    let index : PackedIndex := ⟨[⟨[], [2, 3, 4, 5]⟩, ⟨[], [6]⟩, ⟨[], []⟩, ⟨[], []⟩, ⟨[], []⟩,
      ⟨[], []⟩, ⟨[], []⟩]⟩
    let distances : QueryDistances ℕ :=
      ⟨fun id => if id = 6 then 1 else id.toNat * 10, fun _ => 0, fun _ _ => true⟩
    let available : PageId → Bool := fun page_id => page_id = 0 || page_id = 1
    (∃ pages, HandedOver index { beam_width := 2 } distances id available true [1, 0]
        [⟨0, 0⟩, ⟨1, 10⟩] pages) ∧
      ∀ pages, HandedOver index { beam_width := 2 } distances id available true [1, 0]
        [⟨0, 0⟩, ⟨1, 10⟩] pages →
          ¬PqOrder distances id available (wantedCount { beam_width := 2 })
            (newNeighborsOfBatch index [1, 0] ([⟨0, 0⟩, ⟨1, 10⟩] : List (SearchResult ℕ)))
            pages := by
  intro index distances available
  have hcollected : prefetchPages index { beam_width := 2 } distances id available [1, 0]
      [⟨0, 0⟩, ⟨1, 10⟩] = [2, 3, 4, 5] := by decide
  refine ⟨⟨[2, 3, 4, 5], rfl, by rw [hcollected]; simp, by rw [hcollected]⟩, ?_⟩
  intro pages hpages horder
  have hperm := hpages.iterated
  rw [hcollected] at hperm
  have htaken : (2 : PageId) ∈ pages := hperm.mem_iff.mpr (by simp)
  have hleft : (6 : PageId) ∉ pages := fun hmem => absurd (hperm.mem_iff.mp hmem) (by simp)
  have hcloser := horder.closest 2 htaken 6 (by decide) hleft
  exact absurd hcloser (by decide)

end Order

end Graph
