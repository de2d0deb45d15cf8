import AgentAware.Graph.GraphInvariants
import AgentAware.Graph.PackedOrder
import Mathlib.Data.List.Perm.Subperm

/-!
# Packing orders are permutations

Whatever a strategy prefers, it lays out every node once. The orders that grow node by node keep marks
of the nodes they have listed; when no mark is missing, the list is a permutation of the ids.

## Main definitions

- `Listed` — the marked ids are the listed ones, each of them once

## Main results

- `bfsOrder_perm`, `coaccessOrder_perm`, `hotpathOrder_perm` — the orders
- `packedOrder_perm` — the order of any strategy
-/

namespace Graph

section Marks

variable {count : ℕ} {marks : List Bool} {ids : List NodeId} {id : NodeId}

structure Listed (count : ℕ) (marks : List Bool) (ids : List NodeId) : Prop where
  length_eq : marks.length = count
  nodup : ids.Nodup
  mem_iff : ∀ id, id ∈ ids ↔ marked marks id = true

theorem toNat_lt_of_marked (h : marked marks id = true) : id.toNat < marks.length := by
  by_contra hout
  rw [marked, List.getD_eq_getElem?_getD, List.getElem?_eq_none (not_lt.mp hout)] at h
  cases h

theorem marked_set (hid : id.toNat < marks.length) (other : NodeId) :
    marked (marks.set id.toNat true) other = true ↔ other = id ∨ marked marks other = true := by
  rw [marked, marked, List.getD_eq_getElem?_getD, List.getD_eq_getElem?_getD, List.getElem?_set]
  by_cases heq : id.toNat = other.toNat
  · rw [if_pos heq, if_pos hid]
    exact iff_of_true rfl (Or.inl (UInt32.toNat_inj.mp heq.symm))
  · rw [if_neg heq, or_iff_right fun hsame => heq (congrArg UInt32.toNat hsame.symm)]

theorem Listed.nil (count : ℕ) : Listed count (List.replicate count false) [] := by
  refine ⟨List.length_replicate, List.nodup_nil, fun id => iff_of_false List.not_mem_nil ?_⟩
  rw [marked, List.getD_eq_getElem?_getD, List.getElem?_replicate]
  split <;> simp

theorem Listed.snoc (h : Listed count marks ids) (hid : id.toNat < count)
    (hunmarked : marked marks id = false) :
    Listed count (marks.set id.toNat true) (ids ++ [id]) := by
  have hfresh : id ∉ ids := by
    rw [h.mem_iff, hunmarked]
    exact Bool.false_ne_true
  constructor
  · rw [List.length_set, h.length_eq]
  · exact List.nodup_append_comm.mp (List.nodup_cons.mpr ⟨hfresh, h.nodup⟩)
  · intro other
    rw [List.mem_append, List.mem_singleton, h.mem_iff, marked_set (h.length_eq ▸ hid), or_comm]

theorem mem_naturalOrder_of_lt (h : id.toNat < count) : id ∈ naturalOrder count :=
  List.mem_map.mpr ⟨id.toNat, List.mem_range.mpr h, nodeId_toNat id⟩

theorem length_naturalOrder : (naturalOrder count).length = count := by
  rw [naturalOrder, List.length_map, List.length_range]

theorem Listed.subperm (h : Listed count marks ids) : ids.Subperm (naturalOrder count) := by
  refine h.nodup.subperm fun id hid => mem_naturalOrder_of_lt ?_
  rw [← h.length_eq]
  exact toNat_lt_of_marked ((h.mem_iff id).mp hid)

theorem Listed.length_le (h : Listed count marks ids) : ids.length ≤ count :=
  h.subperm.length_le.trans_eq length_naturalOrder

theorem Listed.perm_of_length (h : Listed count marks ids) (hall : count ≤ ids.length) :
    ids.Perm (naturalOrder count) :=
  h.subperm.perm_of_length_le (length_naturalOrder.trans_le hall)

theorem nodup_naturalOrder (hcount : count ≤ 2 ^ 32) : (naturalOrder count).Nodup := by
  refine List.Nodup.of_map UInt32.toNat ?_
  rw [naturalOrder, List.map_map]
  have hid : (List.range count).map (UInt32.toNat ∘ nodeId) = List.range count := by
    conv_rhs => rw [← List.map_id (List.range count)]
    exact List.map_congr_left fun i hi =>
      toNat_nodeId (lt_of_lt_of_le (List.mem_range.mp hi) hcount)
  rw [hid]
  exact List.nodup_range

/-- When every id is marked, all ids are listed. -/
theorem Listed.perm (h : Listed count marks ids) (hcount : count ≤ 2 ^ 32)
    (hall : ∀ i < count, marked marks (nodeId i) = true) : ids.Perm (naturalOrder count) := by
  refine h.subperm.antisymm ((nodup_naturalOrder hcount).subperm fun id hid => ?_)
  obtain ⟨i, hi, rfl⟩ := List.mem_map.mp hid
  exact (h.mem_iff _).mpr (hall i (List.mem_range.mp hi))

end Marks

section Bfs

variable {graph : Adjacency} {state : BfsState}

/-- Marked nodes stay marked. -/
def Keeps (marks marks' : List Bool) : Prop :=
  ∀ id, marked marks id = true → marked marks' id = true

theorem keeps_set {marks : List Bool} {id : NodeId} (hid : id.toNat < marks.length) :
    Keeps marks (marks.set id.toNat true) :=
  fun other hother => (marked_set hid other).mpr (Or.inr hother)

/-- The nodes in the order and in the queue are the seen ones. -/
structure BfsOk (count : ℕ) (before : List Bool) (state : BfsState) : Prop where
  listed : Listed count state.seen (state.order ++ state.queue)
  keeps : Keeps before state.seen

variable {count : ℕ} {before : List Bool}

theorem BfsOk.visit (h : BfsOk count before state) (neighbor : NodeId) :
    BfsOk count before (bfsVisit state neighbor) := by
  rw [bfsVisit]
  split
  · next hfresh =>
    refine ⟨?_, fun id hid => keeps_set hfresh.1 id (h.keeps id hid)⟩
    dsimp only
    rw [← List.append_assoc]
    exact h.listed.snoc (h.listed.length_eq ▸ hfresh.1) hfresh.2
  · exact h

theorem bfsVisit_order (state : BfsState) (neighbor : NodeId) :
    (bfsVisit state neighbor).order = state.order := by
  rw [bfsVisit]
  split
  · rfl
  · rfl

theorem foldl_bfsVisit (h : BfsOk count before state) (neighbors : List NodeId) :
    BfsOk count before (neighbors.foldl bfsVisit state) ∧
      (neighbors.foldl bfsVisit state).order = state.order := by
  induction neighbors generalizing state with
  | nil => exact ⟨h, rfl⟩
  | cons neighbor neighbors ih =>
    obtain ⟨hok, horder⟩ := ih (h.visit neighbor)
    exact ⟨hok, horder.trans (bfsVisit_order state neighbor)⟩

/-- Every round moves a node into the order, so the rounds do not run out before the queue does. -/
theorem bfsDrain_ok {rounds : ℕ} (h : BfsOk count before state)
    (hrounds : count ≤ rounds + state.order.length) :
    BfsOk count before (bfsDrain graph rounds state) ∧ (bfsDrain graph rounds state).queue = [] := by
  induction rounds generalizing state with
  | zero =>
    rw [bfsDrain]
    refine ⟨h, List.eq_nil_of_length_eq_zero ?_⟩
    have hlength := h.listed.length_le
    rw [List.length_append] at hlength
    omega
  | succ rounds ih =>
    rw [bfsDrain]
    split
    · next hempty => exact ⟨h, hempty⟩
    · next current queue hqueue =>
      have hmoved : BfsOk count before
          { state with order := state.order ++ [current], queue := queue } := by
        refine ⟨?_, h.keeps⟩
        have hlisted := h.listed
        rw [hqueue] at hlisted
        dsimp only
        rwa [List.append_assoc]
      obtain ⟨hok, horder⟩ := foldl_bfsVisit hmoved (neighborsOf graph current.toNat)
      refine ih hok ?_
      rw [horder, List.length_append, List.length_singleton]
      omega

theorem bfsStart_ok {start : ℕ} (hcount : graph.length ≤ 2 ^ 32) (hstart : start < graph.length)
    (h : BfsOk graph.length before state) (hqueue : state.queue = []) :
    BfsOk graph.length before (bfsStart graph state start) ∧
      (bfsStart graph state start).queue = [] ∧
      marked (bfsStart graph state start).seen (nodeId start) = true ∧
      Keeps state.seen (bfsStart graph state start).seen := by
  have hid : (nodeId start).toNat = start := toNat_nodeId (lt_of_lt_of_le hstart hcount)
  have hplace : (nodeId start).toNat < state.seen.length := by
    rw [hid, h.listed.length_eq]
    exact hstart
  rw [bfsStart]
  split
  · next hseen => exact ⟨h, hqueue, hseen, fun _ => id⟩
  · next hunseen =>
    have hnew : BfsOk graph.length (state.seen.set start true)
        { state with
          seen := state.seen.set start true
          queue := state.queue ++ [nodeId start] } := by
      refine ⟨?_, fun _ => id⟩
      dsimp only
      rw [← List.append_assoc, ← hid, nodeId_toNat]
      exact h.listed.snoc (hid.trans_lt hstart) (Bool.eq_false_iff.mpr hunseen)
    obtain ⟨hok, hdrained⟩ := @bfsDrain_ok graph _ _ _ graph.length hnew
      (Nat.le_add_right _ _)
    have hkeeps : Keeps state.seen (state.seen.set start true) := by
      have hset := keeps_set hplace
      rwa [hid] at hset
    have hmark : marked (state.seen.set start true) (nodeId start) = true := by
      have hset := (marked_set hplace (nodeId start)).mpr (Or.inl rfl)
      rwa [hid] at hset
    exact ⟨⟨hok.listed, fun id hid => hok.keeps id (hkeeps id (h.keeps id hid))⟩, hdrained,
      hok.keeps _ hmark, fun id hid => hok.keeps id (hkeeps id hid)⟩

theorem bfsOrder_perm (hcount : graph.length ≤ 2 ^ 32) :
    (bfsOrder graph).Perm (naturalOrder graph.length) := by
  have hloop : ∀ starts ≤ graph.length,
      let state := (List.range starts).foldl (bfsStart graph)
        { seen := List.replicate graph.length false }
      Listed graph.length state.seen (state.order ++ state.queue) ∧ state.queue = [] ∧
        ∀ i < starts, marked state.seen (nodeId i) = true := by
    intro starts hstarts
    induction starts with
    | zero => exact ⟨Listed.nil graph.length, rfl, fun i hi => absurd hi (Nat.not_lt_zero i)⟩
    | succ starts ih =>
      obtain ⟨hlisted, hqueue, hmarked⟩ := ih (Nat.le_of_succ_le hstarts)
      rw [List.range_succ, List.foldl_append]
      obtain ⟨hok, hempty, hmark, hkeeps⟩ :=
        bfsStart_ok hcount hstarts ⟨hlisted, fun _ => id⟩ hqueue
      refine ⟨hok.listed, hempty, fun i hi => ?_⟩
      by_cases heq : i = starts
      · exact heq ▸ hmark
      · exact hkeeps _ (hmarked i (by omega))
  obtain ⟨hlisted, hqueue, hmarked⟩ := hloop graph.length le_rfl
  rw [hqueue, List.append_nil] at hlisted
  exact hlisted.perm hcount hmarked

end Bfs

section Coaccess

variable {D F : Type} {double : DoubleOps D} {graph : Adjacency} {state : PackState} {count : ℕ}

structure PackOk (count : ℕ) (state : PackState) : Prop where
  listed : Listed count state.placed state.order
  remaining_eq : state.remaining + state.order.length = count
  behind : ∀ i < state.next_unplaced, marked state.placed (nodeId i) = true

theorem takeWhile_id_spec (marks : List Bool) :
    (∀ i < (marks.takeWhile id).length, marks.getD i false = true) ∧
      ((marks.takeWhile id).length < marks.length →
        marks.getD (marks.takeWhile id).length false = false) := by
  induction marks with
  | nil => exact ⟨fun i hi => absurd hi (Nat.not_lt_zero i), fun h => absurd h (lt_irrefl 0)⟩
  | cons mark marks ih =>
    cases mark with
    | false => exact ⟨fun i hi => absurd hi (Nat.not_lt_zero i), fun _ => rfl⟩
    | true =>
      refine ⟨fun i hi => ?_, fun h => ih.2 (Nat.lt_of_succ_lt_succ h)⟩
      cases i with
      | zero => rfl
      | succ i => exact ih.1 i (Nat.lt_of_succ_lt_succ hi)

theorem marked_nodeId {marks : List Bool} {i : ℕ} (hi : i < 2 ^ 32) :
    marked marks (nodeId i) = marks.getD i false := by
  rw [marked, toNat_nodeId hi]

/-- What is taken next: a node that is not placed, or none when all are. -/
theorem takeNextUnplaced_ok (hcount : count ≤ 2 ^ 32 - 1) (h : PackOk count state) :
    PackOk count (takeNextUnplaced state).2 ∧
      (takeNextUnplaced state).2.remaining = state.remaining ∧
      (0 < state.remaining → (takeNextUnplaced state).1 ≠ 0xffffffff) ∧
      ((takeNextUnplaced state).1 ≠ 0xffffffff → (takeNextUnplaced state).1.toNat < count ∧
        marked state.placed (takeNextUnplaced state).1 = false) := by
  obtain ⟨hbefore, hnext⟩ := takeWhile_id_spec (state.placed.drop state.next_unplaced)
  generalize htaken : ((state.placed.drop state.next_unplaced).takeWhile id).length = taken
    at hbefore hnext
  have hlength := h.listed.length_eq
  have hdropped : ∀ i, (state.placed.drop state.next_unplaced).getD i false =
      state.placed.getD (state.next_unplaced + i) false := by
    intro i
    rw [List.getD_eq_getElem?_getD, List.getD_eq_getElem?_getD, List.getElem?_drop]
  have hbehind : ∀ i < state.next_unplaced + taken, marked state.placed (nodeId i) = true := by
    intro i hi
    by_cases hold : i < state.next_unplaced
    · exact h.behind i hold
    · have hmark := hbefore (i - state.next_unplaced) (by omega)
      rw [hdropped, Nat.add_sub_cancel' (not_lt.mp hold)] at hmark
      have hplace : i < state.placed.length := by
        by_contra hout
        rw [List.getD_eq_getElem?_getD, List.getElem?_eq_none (not_lt.mp hout)] at hmark
        cases hmark
      rw [marked_nodeId (by omega), hmark]
  rw [takeNextUnplaced, htaken]
  refine ⟨⟨h.listed, h.remaining_eq, hbehind⟩, rfl, fun hremaining => ?_, fun hsome => ?_⟩
  · dsimp only
    split
    · next hall =>
      have hperm := h.listed.perm (by omega) fun i hi => hbehind i (by omega)
      have hfull := hperm.length_eq.trans length_naturalOrder
      have hremains := h.remaining_eq
      omega
    · next hsome =>
      intro heq
      have hid := congrArg UInt32.toNat heq
      rw [toNat_nodeId (by omega)] at hid
      have hlast : (0xffffffff : NodeId).toNat = 2 ^ 32 - 1 := rfl
      omega
  · dsimp only at hsome ⊢
    split at hsome
    · exact absurd rfl hsome
    · next hin =>
      rw [if_neg hin, toNat_nodeId (by omega), marked_nodeId (by omega), ← hdropped]
      refine ⟨by omega, hnext ?_⟩
      rw [List.length_drop]
      omega

theorem PackOk.place (h : PackOk count state) {id : NodeId} (hid : id.toNat < count)
    (hunplaced : marked state.placed id = false) : PackOk count (state.place id) := by
  have hlisted := h.listed.snoc hid hunplaced
  refine ⟨hlisted, ?_, fun i hi => ?_⟩
  · have hlength := hlisted.length_le
    have hremaining := h.remaining_eq
    rw [List.length_append, List.length_singleton] at hlength
    rw [PackState.place, List.length_append, List.length_singleton]
    dsimp only
    omega
  · exact keeps_set (h.listed.length_eq ▸ hid) _ (h.behind i hi)

variable {trace : AccessTrace D} {page_nodes : List NodeId}

theorem bestForPage_mem (candidates : List NodeId) :
    bestForPage double graph trace page_nodes candidates = 0xffffffff ∨
      bestForPage double graph trace page_nodes candidates ∈ candidates := by
  rw [bestForPage]
  generalize hfirst : ((0xffffffff : NodeId), double.literal (-1)) = first
  have hloop : ∀ (others : List NodeId) (best : NodeId × D),
      (others.foldl (fun (best : NodeId × D) candidate =>
        let score := scoreForPage double graph trace page_nodes candidate
        if double.lt best.2 score then (candidate, score) else best) best).1 = best.1 ∨
      (others.foldl (fun (best : NodeId × D) candidate =>
        let score := scoreForPage double graph trace page_nodes candidate
        if double.lt best.2 score then (candidate, score) else best) best).1 ∈ others := by
    intro others
    induction others with
    | nil => exact fun best => Or.inl rfl
    | cons candidate others ih =>
      intro best
      rw [List.foldl_cons]
      cases ih (let score := scoreForPage double graph trace page_nodes candidate
        if double.lt best.2 score then (candidate, score) else best) with
      | inr hmem => exact Or.inr (List.mem_cons_of_mem _ hmem)
      | inl hkept =>
        rw [hkept]
        dsimp only
        split
        · exact Or.inr List.mem_cons_self
        · exact Or.inl rfl
  cases hloop candidates first with
  | inl hkept => exact Or.inl (hkept.trans (hfirst ▸ rfl))
  | inr hmem => exact Or.inr hmem

theorem mem_pageCandidates {placed : List Bool} {id : NodeId}
    (h : id ∈ pageCandidates graph placed page_nodes) :
    id.toNat < placed.length ∧ marked placed id = false := by
  rw [pageCandidates, List.mem_dedup, List.mem_insertionSort, List.mem_flatMap] at h
  obtain ⟨page_node, _, hid⟩ := h
  exact of_decide_eq_true (List.mem_filter.mp hid).2

theorem fillPage_ok (hcount : count ≤ 2 ^ 32 - 1) {nodes_per_page rounds : ℕ}
    (h : PackOk count state) :
    PackOk count (fillPage double graph nodes_per_page trace rounds state page_nodes) ∧
      (fillPage double graph nodes_per_page trace rounds state page_nodes).remaining ≤
        state.remaining := by
  induction rounds generalizing state page_nodes with
  | zero => exact ⟨h, le_rfl⟩
  | succ rounds ih =>
    rw [fillPage]
    split
    · exact ⟨h, le_rfl⟩
    · dsimp only
      generalize hbest : bestForPage double graph trace page_nodes
        (pageCandidates graph state.placed page_nodes) = best
      obtain ⟨hnextOk, hnextRemaining, _, hnext⟩ := takeNextUnplaced_ok hcount h
      obtain ⟨taken, htaken⟩ : ∃ taken,
          (if best = 0xffffffff then takeNextUnplaced state else (best, state)) = taken := ⟨_, rfl⟩
      have hspec : PackOk count taken.2 ∧ taken.2.remaining = state.remaining ∧
          (taken.1 ≠ 0xffffffff → taken.1.toNat < count ∧
            marked taken.2.placed taken.1 = false) := by
        rw [← htaken]
        split
        · exact ⟨hnextOk, hnextRemaining, hnext⟩
        · next hsome =>
          refine ⟨h, rfl, fun _ => ?_⟩
          have hmem := @bestForPage_mem D double graph trace page_nodes
            (pageCandidates graph state.placed page_nodes)
          rw [hbest, or_iff_right hsome] at hmem
          exact h.listed.length_eq ▸ mem_pageCandidates hmem
      obtain ⟨hok, hremaining, hfresh⟩ := hspec
      rw [htaken]
      split
      · exact ⟨hok, hremaining.le⟩
      · next hsome =>
        obtain ⟨hid, hunplaced⟩ := hfresh hsome
        obtain ⟨hlast, hle⟩ := ih (hok.place hid hunplaced)
        refine ⟨hlast, hle.trans ?_⟩
        rw [← hremaining]
        exact Nat.sub_le _ _

theorem fillPages_ok (hcount : count ≤ 2 ^ 32 - 1) {nodes_per_page pages : ℕ}
    (h : PackOk count state) (hpages : state.remaining ≤ pages) :
    PackOk count (fillPages double graph nodes_per_page trace pages state) ∧
      (fillPages double graph nodes_per_page trace pages state).remaining = 0 := by
  induction pages generalizing state with
  | zero => exact ⟨h, Nat.le_zero.mp hpages⟩
  | succ pages ih =>
    rw [fillPages]
    split
    · next hdone => exact ⟨h, hdone⟩
    · next hleft =>
      obtain ⟨hok, hremaining, hsome, hfresh⟩ := takeNextUnplaced_ok hcount h
      have hanchor := hsome (Nat.pos_of_ne_zero hleft)
      obtain ⟨hid, hunplaced⟩ := hfresh hanchor
      dsimp only
      rw [if_neg hanchor]
      obtain ⟨hpage, hle⟩ := @fillPage_ok D double graph _ count trace
        [(takeNextUnplaced state).1] hcount nodes_per_page nodes_per_page (hok.place hid hunplaced)
      refine ih hpage (hle.trans ?_)
      rw [PackState.place]
      dsimp only
      omega

theorem coaccessOrder_perm (hcount : graph.length ≤ 2 ^ 32 - 1)
    (nodes_per_page sessions trace_length : ℕ) :
    (coaccessOrder double graph nodes_per_page sessions trace_length).Perm
      (naturalOrder graph.length) := by
  rw [coaccessOrder]
  split
  · next hempty =>
    rw [List.isEmpty_iff.mp hempty]
    exact List.Perm.refl _
  · have hfirst : PackOk graph.length
        { placed := List.replicate graph.length false, remaining := graph.length } :=
      ⟨Listed.nil _, rfl, fun i hi => absurd hi (Nat.not_lt_zero i)⟩
    obtain ⟨hok, hdone⟩ := @fillPages_ok D double graph _ _
      (traceSessions double graph (max 1 (min sessions graph.length)) (max 1 trace_length)) hcount
      nodes_per_page graph.length hfirst le_rfl
    refine hok.listed.perm_of_length ?_
    have hremaining := hok.remaining_eq
    omega

end Coaccess

section Strategies

variable {D F : Type} {ops : FloatOps F} {double : DoubleOps D} {random : Random} {base : VectorSet}
  {graph : Adjacency} {config : PackedBuildConfig F} {order : List NodeId}

theorem hotpathOrder_perm (h : hotpathOrder ops base graph config = .ok order) :
    order.Perm (naturalOrder graph.length) := by
  rw [hotpathOrder] at h
  split at h
  · cases h
  · next queries hqueries =>
    simp only [throwIf_bind_eq_ok] at h
    obtain ⟨_, _, hsorted⟩ := h
    cases hsorted
    exact List.perm_insertionSort _ _

/-- Whatever the strategy, every node has one place. -/
theorem packedOrder_perm (hcount : graph.length ≤ 2 ^ 32 - 1) {nodes_per_page : ℕ}
    (h : packedOrder ops double random base graph config nodes_per_page = .ok order) :
    order.Perm (naturalOrder graph.length) := by
  rw [packedOrder] at h
  split at h
  · cases h
    exact random.shuffle_perm _ _
  split at h
  · cases h
    exact bfsOrder_perm (by omega)
  split at h
  · cases h
    exact coaccessOrder_perm hcount _ _ _
  split at h
  · exact hotpathOrder_perm h
  · cases h

end Strategies

end Graph
