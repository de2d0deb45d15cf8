import AgentAware.Packed.NodeSession
import AgentAware.Packed.PageContents

/-!
# The contents of the nodes of a session

While every read is answered with the bytes of its page, each node of a session is a node of a page of
the file, and a page that the session hands out is the page of the file under the id that was asked
for, whichever way it took: the cache, a ready prefetch, one that is waited for, or a read.

## Main definitions

- `storedNode` — the node that a page stores under an id
- `StoredNodes`, `FaithfulNodes` — the nodes of a session are nodes of the file

## Main results

- `relies_getOrLoadPage`, `relies_ensurePagesLoadedBatch`, `relies_getNode` — the calls of a search
-/

namespace Packed.PageIo

open Interaction

section Nodes

variable {metadata : DiskPageCodec.DiskGraphMetadata} {page : DecodedPage PageContent}
  {nodes : LocalNodes} {id : NodeId}

/-- The node that a page stores under an id: the first one. -/
def storedNode (metadata : DiskPageCodec.DiskGraphMetadata) (page : DecodedPage PageContent)
    (id : NodeId) : Option DiskPageCodec.DiskNode :=
  (page.content.nodes.find? fun node => node.id == id).map (assignVector metadata page)

theorem lookup_emplaceNode (node : DiskPageCodec.DiskNode) :
    (emplaceNode metadata page nodes node).lookup id =
      (nodes.lookup id).or (if node.id == id then some (assignVector metadata page node) else none) := by
  rw [emplaceNode]
  by_cases hmem : node.id ∈ nodes
  · rw [if_pos hmem]
    by_cases heq : node.id = id
    · subst heq
      obtain ⟨found, hfound⟩ := Option.isSome_iff_exists.mp (AList.lookup_isSome.mpr hmem)
      rw [hfound]
      rfl
    · rw [beq_false_of_ne heq]
      simp
  · rw [if_neg hmem]
    by_cases heq : node.id = id
    · subst heq
      rw [AList.lookup_insert, AList.lookup_eq_none.mpr hmem]
      simp
    · rw [AList.lookup_insert_ne (Ne.symm heq), beq_false_of_ne heq]
      simp

theorem lookup_emplaceNodes (stored : List DiskPageCodec.DiskNode) :
    (stored.foldl (emplaceNode metadata page) nodes).lookup id =
      (nodes.lookup id).or
        ((stored.find? fun node => node.id == id).map (assignVector metadata page)) := by
  induction stored generalizing nodes with
  | nil => simp
  | cons node stored ih =>
    rw [List.foldl_cons, ih, lookup_emplaceNode, List.find?_cons, Option.or_assoc]
    cases node.id == id with
    | true => rfl
    | false => rfl

/-- The nodes are nodes of pages of the file. -/
def StoredNodes (log : ReadLog PageContent) (metadata : DiskPageCodec.DiskGraphMetadata)
    (nodes : LocalNodes) : Prop :=
  ∀ id node, nodes.lookup id = some node →
    ∃ page, log.Holds page ∧ storedNode metadata page id = some node

variable {log : ReadLog PageContent}

theorem storedNodes_empty : StoredNodes log metadata ∅ := by
  intro id node hlookup
  rw [AList.lookup_empty] at hlookup
  cases hlookup

theorem StoredNodes.materialize {D : Type} {session : QueryPageSession PageContent D}
    (h : StoredNodes log metadata nodes) (hpage : log.Holds page) :
    StoredNodes log metadata (materializeNodes metadata page session nodes) := by
  rw [materializeNodes]
  split
  · exact h
  · intro id node hlookup
    rw [lookup_emplaceNodes, Option.or_eq_some_iff] at hlookup
    rcases hlookup with hold | ⟨_, hnew⟩
    · exact h id node hold
    · exact ⟨page, hpage, hnew⟩

end Nodes

variable {D : Type} {log : ReadLog PageContent} {metadata : DiskPageCodec.DiskGraphMetadata}
  {x : NodeSession D} {replies rest : List (Reply PageContent)} {p : PageId}

/-- A session and its nodes are those of the file. -/
structure FaithfulNodes (log : ReadLog PageContent) (metadata : DiskPageCodec.DiskGraphMetadata)
    (x : NodeSession D) (replies : List (Reply PageContent)) : Prop where
  session : Faithful log x.1 replies
  nodes : StoredNodes log metadata x.2

/-- A step of a run with nodes submits the reads of the log. -/
def LoggedNodes (log : ReadLog PageContent) (x y : NodeSession D) : Prop := Logged log x.1 y.1

instance LoggedNodes.decidable (log : ReadLog PageContent) :
    DecidableRel (LoggedNodes (D := D) log) :=
  fun x y => Logged.decidable log x.1 y.1

namespace NodeSession

/-- What does not touch the nodes. -/
theorem relies_session {α : Type} {m : SessionM PageContent D α}
    {Q : α → QueryPageSession PageContent D → List (Reply PageContent) → Prop}
    (h : FaithfulNodes log metadata x replies)
    (hm : Relies (Logged log) m (fun a t rest => Faithful log t rest ∧ Q a t rest) x.1 replies) :
    Relies (LoggedNodes log) (lift m)
      (fun a y rest => FaithfulNodes log metadata y rest ∧ Q a y.1 rest) x replies := by
  refine (relies_lift (t := x.2) hm).mono fun a y rest hy => ?_
  exact ⟨⟨hy.1.1, hy.2 ▸ h.nodes⟩, hy.1.2⟩

theorem relies_session_unit {m : SessionM PageContent D Unit}
    (h : FaithfulNodes log metadata x replies)
    (hm : Relies (Logged log) m (fun _ => Faithful log) x.1 replies) :
    Relies (LoggedNodes log) (lift m) (fun _ => FaithfulNodes log metadata) x replies := by
  refine (relies_session (Q := fun _ _ _ => True) h (hm.mono fun _ _ _ ht => ⟨ht, trivial⟩)).mono ?_
  exact fun _ _ _ hy => hy.1

/-- A step that leaves the contents as they are. -/
theorem relies_counters {f : QueryPageSession PageContent D → QueryPageSession PageContent D}
    (h : FaithfulNodes log metadata x replies) (hsame : SameContents x.1 (f x.1)) :
    Relies (LoggedNodes log) (lift (change f)) (fun _ => FaithfulNodes log metadata) x replies :=
  relies_session_unit h (relies_change fun _ => h.session.same hsame)

theorem nodes_found (h : FaithfulNodes log metadata x replies)
    {found : Option (DecodedPage PageContent)}
    (hfound : ∀ page, found = some page → log.Holds page) :
    StoredNodes log metadata (foundNodes metadata found x) := by
  cases found with
  | none => exact h.nodes
  | some page => exact h.nodes.materialize (hfound page rfl)

theorem relies_pageForNode {node_to_page : List PageId} (node_id : NodeId)
    (h : FaithfulNodes log metadata x replies) :
    Relies (LoggedNodes log) (pageForNode node_to_page node_id)
      (fun p y rest => FaithfulNodes log metadata y rest ∧
        node_to_page[node_id.toNat]? = some p) x replies := by
  rw [pageForNode]
  cases hpage : node_to_page[node_id.toNat]? with
  | none => exact relies_throw
  | some p => exact relies_pure ⟨h, rfl⟩

section Pages

variable [LT D] [DecidableLT D] [DecidableEq D]

/-- The page that was asked for is there. -/
def Answers (log : ReadLog PageContent) (metadata : DiskPageCodec.DiskGraphMetadata) (p : PageId)
    (page : DecodedPage PageContent) (x : NodeSession D) (rest : List (Reply PageContent)) : Prop :=
  FaithfulNodes log metadata x rest ∧ log.Is p page

theorem faithful_takePage (h : FaithfulNodes log metadata x replies) :
    FaithfulNodes log metadata (takePage metadata p x).2 replies ∧
      ∀ page, (takePage metadata p x).1 = some page → log.Is p page := by
  obtain ⟨hsession, hpage⟩ := h.session.takePage (p := p)
  exact ⟨⟨hsession, nodes_found h fun page hfound => (hpage page hfound).2⟩, hpage⟩

theorem availablePage_holds (h : Faithful log x.1 replies) {page : DecodedPage PageContent}
    (hpage : availablePage p x.1 = some page) : log.Holds page := by
  rw [availablePage] at hpage
  cases howned : x.1.owned_pages.lookup p with
  | some owned =>
    rw [howned] at hpage
    cases hpage
    exact (h.owned p page howned).2
  | none =>
    rw [howned] at hpage
    dsimp only at hpage
    obtain ⟨hcached, hfound⟩ := h.tryGetCachedPage (p := p)
    split at hpage
    · cases hpage
    · split at hpage
      · exact (hfound page hpage).2
      · exact ((hcached.takeReadyPrefetchPage (p := p)).2 page hpage).2

theorem faithful_materializeAvailablePage (h : FaithfulNodes log metadata x replies) :
    FaithfulNodes log metadata (materializeAvailablePage metadata p x).2 replies := by
  refine ⟨?_, nodes_found h fun page hpage => availablePage_holds h.session hpage⟩
  obtain ⟨hcached, _⟩ := h.session.tryGetCachedPage (p := p)
  show Faithful log (x.1.materializeAvailablePage p).2 replies
  rw [QueryPageSession.materializeAvailablePage]
  split
  · exact h.session.materializePage
  · split
    · exact h.session
    · dsimp only
      split
      · exact hcached.materializePage
      · have hready := (hcached.takeReadyPrefetchPage (p := p)).1
        split
        · exact hready.materializePage
        · exact hready

theorem faithful_keepPage {page : DecodedPage PageContent}
    (h : FaithfulNodes log metadata x replies) (hpage : log.Is p page) :
    FaithfulNodes log metadata ((x.1.keepPage p page).materializePage p,
      materializeNodes metadata page x.1 x.2) replies :=
  ⟨(h.session.keepPage hpage).materializePage, h.nodes.materialize hpage.2⟩

theorem relies_loadPage (h : FaithfulNodes log metadata x replies) (p : PageId) :
    Relies (LoggedNodes log) (loadPage metadata p) (Answers log metadata p) x replies := by
  apply relies_bind
  refine (relies_counters h ⟨rfl, rfl, rfl, rfl, rfl, rfl, rfl⟩).mono fun _ y rest hy => ?_
  apply relies_bind
  refine (relies_session (Q := fun page _ _ => log.Is p page) hy
    (relies_readDemandPage hy.session p)).mono fun page z rest hz => ?_
  apply relies_bind
  exact relies_change fun _ => relies_pure ⟨faithful_keepPage hz.1 hz.2, hz.2⟩

theorem relies_takeOrLoadPage (h : FaithfulNodes log metadata x replies) (p : PageId) :
    Relies (LoggedNodes log) (takeOrLoadPage metadata p) (Answers log metadata p) x replies := by
  apply relies_bind
  refine relies_act fun _ => ?_
  obtain ⟨htaken, hpage⟩ := faithful_takePage (p := p) h
  cases hfound : (takePage metadata p x).1 with
  | some page => exact relies_pure ⟨htaken, hpage page hfound⟩
  | none => exact relies_loadPage htaken p

theorem relies_getOrLoadPage (h : FaithfulNodes log metadata x replies) (p : PageId) :
    Relies (LoggedNodes log) (getOrLoadPage metadata p) (Answers log metadata p) x replies := by
  apply relies_bind
  apply relies_get
  apply relies_ite
  · exact fun _ => relies_throw
  · intro _
    apply relies_bind
    refine (relies_counters h ⟨rfl, rfl, rfl, rfl, rfl, rfl, rfl⟩).mono fun _ y rest hy => ?_
    cases howned : x.1.owned_pages.lookup p with
    | some page => exact relies_pure ⟨hy, h.session.owned p page howned⟩
    | none =>
      apply relies_bind
      refine relies_act fun _ => ?_
      obtain ⟨htaken, hpage⟩ := faithful_takePage (p := p) hy
      cases hfound : (takePage metadata p y).1 with
      | some page => exact relies_pure ⟨htaken, hpage page hfound⟩
      | none =>
        apply relies_bind
        apply relies_get
        apply relies_ite
        · intro _
          apply relies_bind
          refine (relies_counters htaken ⟨rfl, rfl, rfl, rfl, rfl, rfl, rfl⟩).mono
            fun _ z rest hz => ?_
          apply relies_bind
          exact (relies_session_unit hz (relies_waitForPrefetchPage hz.session p)).mono
            fun _ w rest hw => relies_takeOrLoadPage hw p
        · exact fun _ => relies_takeOrLoadPage htaken p

theorem relies_awaitAvailablePage (h : FaithfulNodes log metadata x replies) (p : PageId) :
    Relies (LoggedNodes log) (awaitAvailablePage metadata p)
      (fun _ => FaithfulNodes log metadata) x replies := by
  apply relies_bind
  refine relies_act fun _ => ?_
  have htaken := faithful_materializeAvailablePage (p := p) h
  apply relies_ite
  · exact fun _ => relies_pure htaken
  · intro _
    apply relies_bind
    apply relies_get
    apply relies_ite
    · intro _
      apply relies_bind
      refine (relies_counters htaken ⟨rfl, rfl, rfl, rfl, rfl, rfl, rfl⟩).mono fun _ y rest hy => ?_
      apply relies_bind
      exact (relies_session_unit hy (relies_waitForPrefetchPage hy.session p)).mono
        fun _ z rest hz => relies_act fun _ => faithful_materializeAvailablePage hz
    · exact fun _ => relies_pure htaken

theorem relies_collectMissing (page_ids : List PageId) (h : FaithfulNodes log metadata x replies) :
    Relies (LoggedNodes log) (collectMissing metadata page_ids)
      (fun _ => FaithfulNodes log metadata) x replies := by
  induction page_ids generalizing x replies with
  | nil => exact relies_pure h
  | cons p page_ids ih =>
    apply relies_bind
    refine (relies_awaitAvailablePage h p).mono fun available y rest hy => ?_
    apply relies_ite
    · exact fun _ => ih hy
    · intro _
      apply relies_bind
      exact (ih hy).mono fun missing z rest hz => relies_pure hz

theorem relies_collectRequests (page_ids : List PageId)
    (h : FaithfulNodes log metadata x replies) :
    Relies (LoggedNodes log) (collectRequests metadata page_ids)
      (fun _ => FaithfulNodes log metadata) x replies := by
  induction page_ids generalizing x replies with
  | nil => exact relies_pure h
  | cons p page_ids ih =>
    apply relies_bind
    refine (relies_awaitAvailablePage h p).mono fun available y rest hy => ?_
    apply relies_ite
    · exact fun _ => ih hy
    · intro _
      apply relies_bind
      refine (relies_counters hy ⟨rfl, rfl, rfl, rfl, rfl, rfl, rfl⟩).mono fun _ z rest hz => ?_
      apply relies_bind
      exact (ih hz).mono fun requests w rest hw => relies_pure hw

/-- The tokens of a batch stand for the pages that they were submitted for. -/
def Stands (log : ReadLog PageContent) (submitted_pages : AList (fun _ : Token => PageId)) : Prop :=
  ∀ token p, submitted_pages.lookup token = some p → log.assigned token = p

theorem stands_submittedPages {submitted : List (PageId × Token)}
    (h : ∀ read ∈ submitted, log.assigned read.2 = read.1) :
    Stands log (submittedPages submitted) := by
  have hfold : ∀ (reads : List (PageId × Token)) (pages : AList (fun _ : Token => PageId)),
      (∀ read ∈ reads, log.assigned read.2 = read.1) → Stands log pages →
        Stands log (reads.foldl emplaceRead pages) := by
    intro reads
    induction reads with
    | nil => exact fun _ _ hpages => hpages
    | cons read reads ih =>
      intro pages hreads hpages
      refine ih _ (fun other hother => hreads other (List.mem_cons_of_mem read hother)) ?_
      intro token p hlookup
      rw [emplaceRead] at hlookup
      split at hlookup
      · exact hpages token p hlookup
      · by_cases heq : token = read.2
        · subst heq
          rw [AList.lookup_insert] at hlookup
          cases hlookup
          exact hreads read List.mem_cons_self
        · rw [AList.lookup_insert_ne heq] at hlookup
          exact hpages token p hlookup
  refine hfold submitted ∅ h fun token p hlookup => ?_
  rw [AList.lookup_empty] at hlookup
  cases hlookup

theorem Stands.erase {submitted_pages : AList (fun _ : Token => PageId)}
    (h : Stands log submitted_pages) (token : Token) : Stands log (submitted_pages.erase token) := by
  intro other p hlookup
  by_cases heq : other = token
  · subst heq
    rw [AList.lookup_erase] at hlookup
    cases hlookup
  · rw [AList.lookup_erase_ne heq] at hlookup
    exact h other p hlookup

theorem relies_awaitBatch (remaining : ℕ) {submitted_pages : AList (fun _ : Token => PageId)}
    (hstands : Stands log submitted_pages) (h : FaithfulNodes log metadata x replies) :
    Relies (LoggedNodes log) (awaitBatch metadata remaining submitted_pages)
      (fun _ => FaithfulNodes log metadata) x replies := by
  induction remaining generalizing x replies submitted_pages with
  | zero => exact relies_pure h
  | succ remaining ih =>
    apply relies_bind
    refine (relies_session (Q := fun completed _ _ =>
      completed.page = log.file (log.assigned completed.token)) h
      ((relies_awaitCompletion submitted_pages h.session).mono fun completed t rest ht =>
        ⟨ht.1, ht.2 completed rfl⟩)).mono fun completed y rest hy => ?_
    cases hlookup : submitted_pages.lookup completed.token with
    | none => exact ih hstands hy.1
    | some p =>
      have hpage := hy.2
      rw [hstands _ _ hlookup] at hpage
      apply relies_bind
      apply relies_ofExcept
      intro content hcontent
      rw [hpage] at hcontent
      have his : log.Is p { page_id := p, content := content } := ⟨rfl, hcontent⟩
      apply relies_bind
      refine relies_change fun _ => ?_
      apply relies_bind
      refine (relies_counters (faithful_keepPage hy.1 his) ⟨rfl, rfl, rfl, rfl, rfl, rfl, rfl⟩).mono
        fun _ z rest hz => ?_
      exact ih (hstands.erase _) hz

theorem relies_loadChunk (chunk : List PageId) (h : FaithfulNodes log metadata x replies) :
    Relies (LoggedNodes log) (loadChunk metadata chunk) (fun _ => FaithfulNodes log metadata) x
      replies := by
  apply relies_bind
  refine (relies_collectRequests chunk h).mono fun requests y rest hy => ?_
  apply relies_ite
  · exact fun _ => relies_pure hy
  · intro _
    apply relies_bind
    refine (relies_session (Q := fun submitted _ _ =>
      ∀ read ∈ submitted, log.assigned read.2 = read.1) hy
      ((relies_batchSubmit requests hy.session).mono fun submitted t rest ht =>
        ⟨ht.1, fun read hread => (ht.2 read hread).2⟩)).mono fun submitted z rest hz => ?_
    apply relies_bind
    refine (relies_counters hz.1 ⟨rfl, rfl, rfl, rfl, rfl, rfl, rfl⟩).mono fun _ w rest hw => ?_
    exact relies_awaitBatch _ (stands_submittedPages hz.2) hw

theorem relies_loadChunks (chunk_limit chunks : ℕ) (missing_pages : List PageId)
    (h : FaithfulNodes log metadata x replies) :
    Relies (LoggedNodes log) (loadChunks metadata chunk_limit chunks missing_pages)
      (fun _ => FaithfulNodes log metadata) x replies := by
  induction chunks generalizing x replies missing_pages with
  | zero => exact relies_pure h
  | succ chunks ih =>
    apply relies_ite
    · exact fun _ => relies_pure h
    · intro _
      apply relies_bind
      exact (relies_loadChunk _ h).mono fun _ y rest hy => ih _ hy

theorem relies_ensurePagesLoadedBatch (page_ids : List PageId)
    (h : FaithfulNodes log metadata x replies) :
    Relies (LoggedNodes log) (ensurePagesLoadedBatch metadata page_ids)
      (fun _ => FaithfulNodes log metadata) x replies := by
  apply relies_bind
  apply relies_get
  apply relies_ite
  · exact fun _ => relies_pure h
  intro _
  apply relies_ite
  · exact fun _ => relies_throw
  intro _
  apply relies_bind
  refine (relies_counters h ⟨rfl, rfl, rfl, rfl, rfl, rfl, rfl⟩).mono fun _ y rest hy => ?_
  apply relies_bind
  refine (relies_collectMissing _ hy).mono fun missing_pages z rest hz => ?_
  apply relies_ite
  · intro _
    apply relies_bind
    exact (relies_session_unit hz (relies_harvestAll hz.session)).mono fun _ w rest hw =>
      relies_loadChunks _ _ _ hw
  · exact fun _ => relies_loadChunks _ _ _ hz

theorem relies_getNode {node_to_page : List PageId} (node_id : NodeId)
    (h : FaithfulNodes log metadata x replies) :
    Relies (LoggedNodes log) (getNode metadata node_to_page node_id)
      (fun node y rest => FaithfulNodes log metadata y rest ∧
        ∃ page, log.Holds page ∧ storedNode metadata page node_id = some node) x replies := by
  apply relies_bind
  apply relies_get
  cases hlookup : x.2.lookup node_id with
  | some node => exact relies_pure ⟨h, h.nodes node_id node hlookup⟩
  | none =>
    apply relies_bind
    refine (relies_pageForNode node_id h).mono fun p y rest hy => ?_
    apply relies_bind
    refine (relies_getOrLoadPage hy.1 p).mono fun page z rest hz => ?_
    apply relies_bind
    apply relies_get
    cases hfound : z.2.lookup node_id with
    | some node => exact relies_pure ⟨hz.1, hz.1.nodes node_id node hfound⟩
    | none => exact relies_throw

end Pages

end NodeSession

end Packed.PageIo
