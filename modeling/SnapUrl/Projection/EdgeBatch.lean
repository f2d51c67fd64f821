import SnapUrl.Projection.BatchWrites
import SnapUrl.Projection.Convergence
import SnapUrl.Projection.EdgeStore

/-!
# What a drain has in hand

* `Stored`: a link has one key for ever, and no link has a row that removes it.
* `InHand`: the requests of a batch are those of its works at the edge, the last one at each key;
  where a request was written, the table has what it asks for, or its rows have failed.
* `inv_act`: **every step keeps both**, whichever calls throw.
-/

namespace SnapUrl.Projection.EdgeStore

open Lib Domain

/-! ### What is in hand -/

/-- The request that a work at the edge comes with. -/
def EdgeWork.request (p : Platform) (w : EdgeWork) : WriteRequest :=
  match w.link with
  | some link => .put (toLinkItem p link w.host w.slug)
  | none => .delete (w.key p)

/-- What is still to be done at the edge for a key. -/
def State.worksAt (p : Platform) (s : State) (key : String × String) : List EdgeWork :=
  s.worker.edge.filter fun w => w.key p = key

/-- A link's item is, or may come to be, at a key. -/
def State.Placed (p : Platform) (s : State) (linkId : String) (key : String × String) : Prop :=
  (∃ item ∈ s.table, item.linkId = linkId ∧ item.key = key) ∨
    (∃ l ∈ s.links, l.link.id = linkId ∧ l.key p = key) ∨
    ∃ e ∈ s.worker.pending, ∃ item ∈ e.request.item?, item.linkId = linkId ∧ item.key = key

/-- The rows of a batch that are not marked yet. -/
def Worker.rows (w : Worker) : List Nat := w.todo ++ w.results.map Prod.fst

/-- A removal of the link is not claimed yet. -/
def State.Removing (s : State) (linkId : String) : Prop :=
  ∃ r row, s.outbox[r]? = some row ∧ row.linkId = linkId ∧ row.operation = .delete ∧
    row.processed = false ∧ r ∉ s.worker.rows

/-- **A link has one key for ever**, and no link has a row that removes it. -/
structure Stored (p : Platform) (s : State) : Prop where
  unique : (s.table.map LinkItem.key).Nodup
  placed : ∀ linkId key key', s.Placed p linkId key → s.Placed p linkId key' → key = key'
  known : ∀ linkId key, s.Placed p linkId key →
    Addressed p key ∧ ∃ row ∈ s.outbox, row.linkId = linkId
  live : ∀ l ∈ s.links, l.live = true ∧ hasDates l.link = true
  gone : ∀ row ∈ s.outbox, row.operation = .delete → ∀ l ∈ s.links, l.link.id ≠ row.linkId

/-- What a batch has in hand. -/
structure InHand (p : Platform) (s : State) : Prop where
  apart : s.worker.rows.Nodup
  claimed : ∀ r ∈ s.worker.rows, ∃ row, s.outbox[r]? = some row ∧ row.processed = false
  works : ∀ w ∈ s.worker.edge, w.row ∈ s.worker.results.map Prod.fst ∧ Addressed p (w.key p) ∧
    ∃ row, s.outbox[w.row]? = some row ∧ (w.link = none → row.operation = .delete) ∧
      ∀ link ∈ w.link, row.linkId = link.id ∧ hasDates link = true
  single : (s.worker.edge.map EdgeWork.row).Nodup
  pending : s.worker.pending <:+
    Batch.collectRequests (s.worker.edge.map fun w => (w.row, w.request p))
  resolving : s.worker.todo ≠ [] →
    s.worker.pending = Batch.collectRequests (s.worker.edge.map fun w => (w.row, w.request p))
  good : ∀ e ∈ s.worker.pending, ∀ r ∈ e.owners, (r, true) ∈ s.worker.results
  fresh : ∀ w ∈ s.worker.edge, ∀ link ∈ w.link,
    (∃ l ∈ s.links, l.link.id = link.id) ∨ s.Removing link.id
  /-- The table has the request of the last work at a key, or they have all failed. -/
  written : ∀ key, (∀ e ∈ s.worker.pending, e.request.key ≠ key) →
    ∀ w ∈ (s.worksAt p key).getLast?,
      (getItem s.table key = (w.request p).item? ∧
        (w.link = none → (w.row, true) ∈ s.worker.results)) ∨
      ∀ w' ∈ s.worksAt p key, (w'.row, true) ∉ s.worker.results

structure Inv (p : Platform) (s : State) : Prop where
  stored : Stored p s
  inHand : InHand p s

section

variable {p : Platform} {s : State} {w : EdgeWork} {key : String × String}

@[simp] theorem key_request : (w.request p).key = w.key p := by
  rw [EdgeWork.request]
  split <;> rfl

theorem item_request :
    (w.request p).item? = w.link.map fun link => toLinkItem p link w.host w.slug := by
  rw [EdgeWork.request]
  split
  · next h => rw [h]; rfl
  · next h => rw [h]; rfl

/-- What the runtime does with dates. -/
def ReadsDates (p : Platform) : Prop :=
  ∀ t, -IsoDate.maxTime ≤ t → t ≤ IsoDate.maxTime → p.parseDate (p.toISOString t) = some t

theorem fromLinkItem_of_hasDates (hdates : ReadsDates p) {link : ProjectedLink}
    (h : hasDates link = true) (host slug : String) :
    fromLinkItem p (toLinkItem p link host slug) = link := by
  have hround : ∀ {d : Option Int}, isDate d = true →
      (d.map p.toISOString).bind p.parseDate = d := by
    intro d hd
    cases d with
    | none => rfl
    | some t =>
      have ht : -IsoDate.maxTime ≤ t ∧ t ≤ IsoDate.maxTime := of_decide_eq_true hd
      exact hdates t ht.1 ht.2
  obtain ⟨hexpires, hactivates⟩ := Bool.and_eq_true_iff.mp h
  obtain ⟨⟩ := link
  simp [fromLinkItem, toLinkItem, hround hexpires, hround hactivates]

/-- A work leaves in the store what the item of its request asks for. -/
theorem entry_request (hdates : ReadsDates p) (h : ∀ link ∈ w.link, hasDates link = true) :
    ((w.request p).item?.bind fun item => entryOf p (fromLinkItem p item)) = w.entry p := by
  rw [item_request, EdgeWork.entry]
  cases hlink : w.link with
  | none => rfl
  | some link =>
    exact congrArg (entryOf p) (fromLinkItem_of_hasDates hdates (h link hlink) w.host w.slug)

theorem mem_worksAt : w ∈ s.worksAt p key ↔ w ∈ s.worker.edge ∧ w.key p = key := by
  rw [State.worksAt, List.mem_filter, decide_eq_true_eq]

/-- What a request is made of. -/
theorem pending_spec (h : InHand p s) {e : PendingWrite} (he : e ∈ s.worker.pending) :
    e.owners = (s.worksAt p e.request.key).map EdgeWork.row ∧
      ∃ w ∈ (s.worksAt p e.request.key).getLast?, e.request = w.request p := by
  obtain ⟨last, hlast, hrequest, howners⟩ := Batch.eq_of_mem_collectRequests (h.pending.subset he)
  rw [List.filter_map] at hlast howners
  have hworks : (s.worker.edge.filter
      ((fun entry : Nat × WriteRequest => decide (entry.2.key = e.request.key)) ∘
        fun w => (w.row, w.request p))) = s.worksAt p e.request.key := by
    refine congrArg (List.filter · s.worker.edge) (funext fun w => ?_)
    simp only [Function.comp_apply, key_request]
  rw [hworks] at hlast howners
  rw [List.getLast?_map] at hlast
  obtain ⟨w, hw, rfl⟩ := Option.map_eq_some_iff.mp hlast
  refine ⟨?_, w, hw, hrequest⟩
  rw [howners, List.map_map]
  rfl

theorem mem_owners_iff (h : InHand p s) {e : PendingWrite} (he : e ∈ s.worker.pending)
    (hw : w ∈ s.worker.edge) : w.row ∈ e.owners ↔ w.key p = e.request.key := by
  rw [(pending_spec h he).1]
  constructor
  · intro hmem
    obtain ⟨w', hw', hrow⟩ := List.mem_map.mp hmem
    obtain ⟨hw', hkey⟩ := mem_worksAt.mp hw'
    rwa [List.inj_on_of_nodup_map h.single hw' hw hrow] at hkey
  · exact fun hkey => List.mem_map_of_mem (mem_worksAt.mpr ⟨hw, hkey⟩)

/-- A row has a request for one key only. -/
theorem eq_of_mem_owners (h : InHand p s) {e e' : PendingWrite} (he : e ∈ s.worker.pending)
    (he' : e' ∈ s.worker.pending) {r : Nat} (hr : r ∈ e.owners) (hr' : r ∈ e'.owners) :
    e.request.key = e'.request.key := by
  have hr'' := hr
  rw [(pending_spec h he).1] at hr
  obtain ⟨w, hw, rfl⟩ := List.mem_map.mp hr
  have hedge := (mem_worksAt.mp hw).1
  rw [← (mem_owners_iff h he hedge).mp hr'', ← (mem_owners_iff h he' hedge).mp hr']

theorem keys_pending (h : InHand p s) : (s.worker.pending.map fun e => e.request.key).Nodup :=
  (Batch.nodup_collectRequests _).sublist (h.pending.sublist.map _)

end

/-! ### Reading a row -/

section

variable {p : Platform} {s : State} {r : Nat} {row : OutboxRow}

theorem buildUpsertRequests_of_find {l : PgLink} (hlive : l.live = true)
    (hfind : s.links.find? (fun l => l.link.id = row.linkId) = some l) :
    buildUpsertRequests p s.links row.linkId = [.put (l.item p)] := by
  rw [buildUpsertRequests, hfind]
  simp [hlive]

/-- A link has one item at most. -/
theorem buildDeleteRequests_of_mem (h : Stored p s) {item : LinkItem} (hitem : item ∈ s.table)
    (hid : item.linkId = row.linkId) :
    buildDeleteRequests s.table row.linkId = [.delete item.key] := by
  have hfilter : s.table.filter (fun i => i.linkId = row.linkId) =
      s.table.filter fun i => i.key = item.key := by
    refine List.filter_congr fun i hi => decide_eq_decide.mpr ?_
    constructor
    · exact fun hi' => h.placed row.linkId _ _ (Or.inl ⟨i, hi, hi', rfl⟩)
        (Or.inl ⟨item, hitem, hid, rfl⟩)
    · exact fun hkey => (List.inj_on_of_nodup_map h.unique hi hitem hkey) ▸ hid
  rw [buildDeleteRequests, hfilter, filter_key_of_mem h.unique hitem]
  rfl

/-- **What a row resolves to**: nothing, where its link has no item to be put or removed, or one
request with its work at the edge. -/
theorem resolve_cases (hascii : AsciiCases p) (h : Stored p s) (r : Nat) (row : OutboxRow) :
    (s.requestsOf p row = [] ∧ s.edgeOf r row = [] ∧ ∀ item ∈ s.table, item.linkId = row.linkId →
      row.operation = .upsert ∧ ∀ l ∈ s.links, l.link.id ≠ row.linkId) ∨
    ∃ w : EdgeWork, s.requestsOf p row = [w.request p] ∧ s.edgeOf r row = [w] ∧ w.row = r ∧
      s.Placed p row.linkId (w.key p) ∧ (w.link = none → row.operation = .delete) ∧
      ∀ link ∈ w.link, link.id = row.linkId ∧ ∃ l ∈ s.links, l.link = link := by
  rw [State.requestsOf, State.edgeOf]
  cases hoperation : row.operation with
  | upsert =>
    dsimp only
    cases hfind : s.links.find? fun l => l.link.id = row.linkId with
    | none =>
      refine Or.inl ⟨by rw [buildUpsertRequests, hfind], rfl, fun _ _ _ => ⟨rfl, ?_⟩⟩
      simpa using List.find?_eq_none.mp hfind
    | some l =>
      have hl := List.mem_of_find?_eq_some hfind
      have hid : l.link.id = row.linkId := by simpa using List.find?_some hfind
      refine Or.inr ⟨⟨r, some l.link, l.host, l.slug⟩, ?_, ?_, rfl, ?_, ?_, ?_⟩
      · rw [buildUpsertRequests_of_find (h.live l hl).1 hfind]
        rfl
      · simp [(h.live l hl).1]
      · exact Or.inr (Or.inl ⟨l, hl, hid, rfl⟩)
      · exact fun hnone => absurd hnone (Option.some_ne_none _)
      · rintro link hlink
        obtain rfl := Option.some.inj hlink
        exact ⟨hid, l, hl, rfl⟩
  | delete =>
    dsimp only
    by_cases hitem : ∃ item ∈ s.table, item.linkId = row.linkId
    · obtain ⟨item, hitem, hid⟩ := hitem
      have hplaced : s.Placed p row.linkId item.key := Or.inl ⟨item, hitem, hid, rfl⟩
      have haddressed := (h.known _ _ hplaced).1
      have hkey := linkKey_sliceFrom2 hascii haddressed
      refine Or.inr ⟨⟨r, none, Batch.sliceFrom2 item.key.1, Batch.sliceFrom2 item.key.2⟩, ?_, ?_,
        rfl, ?_, fun _ => rfl, fun _ h => absurd h (Option.not_mem_none _)⟩
      · rw [buildDeleteRequests_of_mem h hitem hid]
        exact congrArg (fun key => [WriteRequest.delete key]) hkey.symm
      · rw [buildDeleteRequests_of_mem h hitem hid, edgeTargetsOf_delete haddressed]
        rfl
      · change s.Placed p row.linkId
          (linkKey p (Batch.sliceFrom2 item.key.1) (Batch.sliceFrom2 item.key.2))
        rw [hkey]
        exact hplaced
    · have hnone : buildDeleteRequests s.table row.linkId = [] := by
        rw [buildDeleteRequests, List.map_eq_nil_iff, List.filter_eq_nil_iff]
        exact fun item hi hid => hitem ⟨item, hi, of_decide_eq_true hid⟩
      exact Or.inl ⟨hnone, by rw [hnone]; rfl, fun item hi hid => absurd ⟨item, hi, hid⟩ hitem⟩

theorem fst_failRows (owners : List Nat) (results : List (Nat × Bool)) :
    (failRows owners results).map Prod.fst = results.map Prod.fst := by
  rw [failRows, List.map_map]
  refine List.map_congr_left fun x _ => ?_
  rw [Function.comp_apply]
  split <;> rfl

end

/-! ### Writes of links -/

section

variable {p : Platform} {s : State} {links : List PgLink} {linkId : String} {operation : Operation}

theorem getElem?_enqueue {r : Nat} {row : OutboxRow} (h : s.outbox[r]? = some row) :
    ({ s with links := links }.enqueue linkId operation).outbox[r]? = some row := by
  rw [State.enqueue, List.getElem?_append_left (List.getElem?_eq_some_iff.mp h).1]
  exact h

theorem getElem?_enqueued :
    ({ s with links := links }.enqueue linkId operation).outbox[s.outbox.length]? =
      some (.enqueued linkId operation) :=
  List.getElem?_concat_length

/-- The row that is enqueued is not claimed. -/
theorem length_not_mem_rows (h : InHand p s) : s.outbox.length ∉ s.worker.rows := by
  intro hmem
  obtain ⟨row, hrow, -⟩ := h.claimed _ hmem
  exact absurd (List.getElem?_eq_some_iff.mp hrow).1 (lt_irrefl _)

/-- The links stay, but for one that is removed. -/
def Remain (s : State) (links : List PgLink) (linkId : String) (operation : Operation) : Prop :=
  ∀ l ∈ s.links, (∃ l' ∈ links, l'.link.id = l.link.id) ∨ l.link.id = linkId ∧ operation = .delete

theorem stored_enqueue (h : Stored p s) (new : Option PgLink)
    (hlinks : ∀ l ∈ links,
      (∃ l' ∈ s.links, l'.link.id = l.link.id ∧ l'.key p = l.key p) ∨ new = some l)
    (hlive : ∀ l ∈ links, l.live = true ∧ hasDates l.link = true)
    (hnew : ∀ l ∈ new, l.link.id = linkId ∧ Addressed p (l.key p) ∧
      ∀ row ∈ s.outbox, row.linkId ≠ l.link.id)
    (hgone : operation = .delete → ∀ l ∈ links, l.link.id ≠ linkId) :
    Stored p ({ s with links := links }.enqueue linkId operation) := by
  have hold : ∀ id key, State.Placed p ({ s with links := links }.enqueue linkId operation) id key →
      s.Placed p id key ∨ ∃ l ∈ new, l.link.id = id ∧ l.key p = key := by
    rintro id key (hitem | ⟨l, hl, hid, hkey⟩ | hpending)
    · exact Or.inl (Or.inl hitem)
    · rcases hlinks l hl with ⟨l', hl', hid', hkey'⟩ | hl
      · exact Or.inl (Or.inr (Or.inl ⟨l', hl', hid'.trans hid, hkey'.trans hkey⟩))
      · exact Or.inr ⟨l, hl, hid, hkey⟩
    · exact Or.inl (Or.inr (Or.inr hpending))
  -- no place of the new link was known
  have hfresh : ∀ l ∈ new, ∀ key, ¬ s.Placed p l.link.id key := by
    intro l hl key hplaced
    obtain ⟨-, row, hrow, hid⟩ := h.known _ _ hplaced
    exact (hnew l hl).2.2 row hrow hid
  refine ⟨h.unique, ?_, ?_, hlive, ?_⟩
  · intro id key key' hplaced hplaced'
    rcases hold _ _ hplaced with hplaced | ⟨l, hl, rfl, rfl⟩
    · rcases hold _ _ hplaced' with hplaced' | ⟨l, hl, rfl, rfl⟩
      · exact h.placed _ _ _ hplaced hplaced'
      · exact absurd hplaced (hfresh l hl _)
    · rcases hold _ _ hplaced' with hplaced' | ⟨l', hl', hid, rfl⟩
      · exact absurd hplaced' (hfresh l hl _)
      · rw [Option.mem_unique hl hl']
  · intro id key hplaced
    rcases hold _ _ hplaced with hplaced | ⟨l, hl, rfl, rfl⟩
    · obtain ⟨haddressed, row, hrow, hid⟩ := h.known _ _ hplaced
      exact ⟨haddressed, row, List.mem_append_left _ hrow, hid⟩
    · obtain ⟨hid, haddressed, -⟩ := hnew l hl
      exact ⟨haddressed, _, List.mem_append_right _ (List.mem_singleton_self _), hid.symm⟩
  · intro row hrow hdelete l hl
    rcases List.mem_append.mp hrow with hrow | hrow
    · rcases hlinks l hl with ⟨l', hl', hid, -⟩ | hl
      · exact hid ▸ h.gone row hrow hdelete l' hl'
      · exact Ne.symm ((hnew l hl).2.2 row hrow)
    · obtain rfl := List.mem_singleton.mp hrow
      exact hgone hdelete l hl

theorem removing_enqueue {id : String} (h : s.Removing id) :
    State.Removing ({ s with links := links }.enqueue linkId operation) id := by
  obtain ⟨r, row, hrow, hrest⟩ := h
  exact ⟨r, row, getElem?_enqueue hrow, hrest⟩

/-- A link that does not remain has the row that is enqueued. -/
theorem removing_enqueued (h : InHand p s) {id : String} (hid : id = linkId ∧ operation = .delete) :
    State.Removing ({ s with links := links }.enqueue linkId operation) id :=
  ⟨_, _, getElem?_enqueued, hid.1.symm, hid.2, rfl, length_not_mem_rows h⟩

theorem inHand_enqueue (h : InHand p s) (hlinks : Remain s links linkId operation) :
    InHand p ({ s with links := links }.enqueue linkId operation) := by
  refine ⟨h.apart, ?_, ?_, h.single, h.pending, h.resolving, h.good, ?_, h.written⟩
  · intro r hr
    obtain ⟨row, hrow, hprocessed⟩ := h.claimed r hr
    exact ⟨row, getElem?_enqueue hrow, hprocessed⟩
  · intro w hw
    obtain ⟨hrow, haddressed, row, hget, hrest⟩ := h.works w hw
    exact ⟨hrow, haddressed, row, getElem?_enqueue hget, hrest⟩
  · intro w hw link hlink
    rcases h.fresh w hw link hlink with ⟨l, hl, hid⟩ | hremoving
    · rcases hlinks l hl with ⟨l', hl', hid'⟩ | hremoved
      · exact Or.inl ⟨l', hl', hid'.trans hid⟩
      · exact Or.inr (removing_enqueued h (hid ▸ hremoved))
    · exact Or.inr (removing_enqueue hremoving)

end

/-! ### Steps of the worker -/

section

variable {p : Platform} {s s' : State}

/-- A worker puts links where they are. -/
theorem Stored.of_worker (h : Stored p s) (hlinks : s'.links = s.links)
    (houtbox : s'.outbox.map (fun row => (row.linkId, row.operation)) =
      s.outbox.map fun row => (row.linkId, row.operation))
    (hunique : (s'.table.map LinkItem.key).Nodup)
    (htable : ∀ item ∈ s'.table, s.Placed p item.linkId item.key)
    (hpending : ∀ e ∈ s'.worker.pending, ∀ item ∈ e.request.item?,
      s.Placed p item.linkId item.key) : Stored p s' := by
  have hplaced : ∀ {linkId key}, s'.Placed p linkId key → s.Placed p linkId key := by
    rintro linkId key (⟨item, hitem, rfl, rfl⟩ | ⟨l, hl, hid, hkey⟩ |
      ⟨e, he, item, hitem, rfl, rfl⟩)
    · exact htable item hitem
    · exact Or.inr (Or.inl ⟨l, hlinks ▸ hl, hid, hkey⟩)
    · exact hpending e he item hitem
  refine ⟨hunique, fun _ _ _ hk hk' => h.placed _ _ _ (hplaced hk) (hplaced hk'), ?_, ?_, ?_⟩
  · intro linkId key hk
    obtain ⟨haddressed, row, hrow, hid⟩ := h.known _ _ (hplaced hk)
    have hmem := List.mem_map_of_mem (f := fun row : OutboxRow => (row.linkId, row.operation)) hrow
    rw [← houtbox] at hmem
    obtain ⟨row', hrow', heq⟩ := List.mem_map.mp hmem
    exact ⟨haddressed, row', hrow', (congrArg Prod.fst heq).trans hid⟩
  · exact fun l hl => h.live l (hlinks ▸ hl)
  · intro row hrow hdelete l hl
    have hmem := List.mem_map_of_mem (f := fun row : OutboxRow => (row.linkId, row.operation)) hrow
    rw [houtbox] at hmem
    obtain ⟨row', hrow', heq⟩ := List.mem_map.mp hmem
    have hdelete' : row'.operation = .delete := (congrArg Prod.snd heq).trans hdelete
    have hid : row'.linkId = row.linkId := congrArg Prod.fst heq
    exact hid ▸ h.gone row' hrow' hdelete' l (hlinks ▸ hl)

theorem placed_item (item : LinkItem) (hitem : item ∈ s.table) :
    s.Placed p item.linkId item.key :=
  Or.inl ⟨item, hitem, rfl, rfl⟩

/-- A batch whose rows were all read goes on with less. -/
theorem InHand.of_flushed (h : InHand p s) (htodo : s.worker.todo = [])
    (htodo' : s'.worker.todo = []) (hlinks : s'.links = s.links) (houtbox : s'.outbox = s.outbox)
    (hresults : s'.worker.results.map Prod.fst = s.worker.results.map Prod.fst)
    (hpending : s'.worker.pending <:+ s.worker.pending)
    (hedge : s'.worker.edge <:+ s.worker.edge)
    (hsame : s'.worker.pending ≠ [] → s'.worker.edge = s.worker.edge)
    (hgood : ∀ e ∈ s'.worker.pending, ∀ r ∈ e.owners, (r, true) ∈ s'.worker.results)
    (hwritten : ∀ key, (∀ e ∈ s'.worker.pending, e.request.key ≠ key) →
      ∀ w ∈ (s'.worksAt p key).getLast?,
        (getItem s'.table key = (w.request p).item? ∧
          (w.link = none → (w.row, true) ∈ s'.worker.results)) ∨
        ∀ w' ∈ s'.worksAt p key, (w'.row, true) ∉ s'.worker.results) : InHand p s' := by
  have hrows : s'.worker.rows = s.worker.rows := by
    rw [Worker.rows, Worker.rows, htodo, htodo', hresults]
  refine ⟨hrows ▸ h.apart, ?_, ?_, h.single.sublist (hedge.sublist.map _), ?_,
    fun hne => absurd htodo' hne, hgood, ?_, hwritten⟩
  · exact fun r hr => houtbox ▸ h.claimed r (hrows ▸ hr)
  · intro w hw
    rw [hresults, houtbox]
    exact h.works w (hedge.subset hw)
  · by_cases hnil : s'.worker.pending = []
    · rw [hnil]
      exact List.nil_suffix
    · rw [hsame hnil]
      exact hpending.trans h.pending
  · intro w hw link hlink
    rcases h.fresh w (hedge.subset hw) link hlink with hl | ⟨r, row, hrow, hrest⟩
    · exact Or.inl (hlinks ▸ hl)
    · exact Or.inr ⟨r, row, houtbox ▸ hrow, hrows ▸ hrest⟩

/-- What a flush does to the results. -/
def resultsAfter (call : Call) (owners : List Nat) (results : List (Nat × Bool)) :
    List (Nat × Bool) :=
  if call = .answered then results else failRows owners results

theorem fst_resultsAfter {call : Call} {owners : List Nat} {results : List (Nat × Bool)} :
    (resultsAfter call owners results).map Prod.fst = results.map Prod.fst := by
  rw [resultsAfter]
  split
  · rfl
  · exact fst_failRows _ _

theorem mem_resultsAfter (call : Call) (owners : List Nat) {results : List (Nat × Bool)} {r : Nat} :
    (r, true) ∈ resultsAfter call owners results ↔
      (r, true) ∈ results ∧ (call = .answered ∨ r ∉ owners) := by
  rw [resultsAfter]
  split
  · next h => simp [h]
  · next h => simp [h, mem_failRows]

theorem write_eq {e : PendingWrite} {rest : List PendingWrite} {call : Call}
    (htodo : s.worker.todo = []) (hpending : s.worker.pending = e :: rest) :
    s.write call =
      { s with
        table := if call.landed then e.request.apply s.table else s.table
        worker := { s.worker with
          pending := rest
          results := resultsAfter call e.owners s.worker.results } } := by
  rw [State.write]
  split
  · next e' rest' _ hpending' =>
    obtain ⟨rfl, rfl⟩ := List.cons.inj (hpending'.symm.trans hpending)
    rfl
  · next hno => exact absurd hpending (hno e rest htodo)

theorem write_of_ne {call : Call} (h : ¬ (s.worker.todo = [] ∧ s.worker.pending ≠ [])) :
    s.write call = s := by
  rw [State.write]
  split
  · next e rest htodo hpending =>
    exact absurd ⟨htodo, hpending ▸ List.cons_ne_nil e rest⟩ h
  · rfl

theorem inHand_write (h : InHand p s) (call : Call) : InHand p (s.write call) := by
  by_cases hon : s.worker.todo = [] ∧ s.worker.pending ≠ []
  · obtain ⟨htodo, hne⟩ := hon
    obtain ⟨e, rest, hpending⟩ := List.exists_cons_of_ne_nil hne
    have he : e ∈ s.worker.pending := hpending ▸ List.mem_cons_self
    have hmem : ∀ {e'}, e' ∈ rest → e' ∈ s.worker.pending :=
      fun he' => hpending ▸ List.mem_cons_of_mem _ he'
    have hkeys := keys_pending h
    rw [hpending, List.map_cons, List.nodup_cons] at hkeys
    have hother : ∀ e' ∈ rest, e'.request.key ≠ e.request.key := fun e' he' heq =>
      hkeys.1 (heq ▸ List.mem_map_of_mem he')
    rw [write_eq htodo hpending]
    refine h.of_flushed htodo htodo rfl rfl fst_resultsAfter (hpending ▸ List.suffix_cons e rest)
      List.suffix_rfl (fun _ => rfl) ?_ ?_
    · intro e' he' r hr
      refine (mem_resultsAfter call e.owners).mpr ⟨h.good e' (hmem he') r hr, Or.inr fun hr' => ?_⟩
      exact hother e' he' (eq_of_mem_owners h (hmem he') he hr hr')
    · intro key hnone w hw
      by_cases hkey : key = e.request.key
      · subst hkey
        obtain ⟨howners, w', hw', hrequest⟩ := pending_spec h he
        obtain rfl := Option.mem_unique hw hw'
        have howner : ∀ w' ∈ s.worksAt p e.request.key, w'.row ∈ e.owners := fun w' hw' =>
          howners ▸ List.mem_map_of_mem hw'
        cases call with
        | answered =>
          refine Or.inl ⟨?_, fun _ => ?_⟩
          · rw [← hrequest]
            exact getItem_apply_self
          · exact (mem_resultsAfter .answered e.owners).mpr
              ⟨h.good e he _ (howner w (List.mem_of_getLast? hw)), Or.inl rfl⟩
        | threw landed =>
          refine Or.inr fun w' hw' hok => ?_
          rcases ((mem_resultsAfter (.threw landed) e.owners).mp hok).2 with hanswered | hnot
          · exact absurd hanswered (by simp)
          · exact hnot (howner w' hw')
      · have hnone' : ∀ e' ∈ s.worker.pending, e'.request.key ≠ key := by
          intro e' he'
          rw [hpending] at he'
          rcases List.mem_cons.mp he' with rfl | he'
          · exact Ne.symm hkey
          · exact hnone e' he'
        have hitem : getItem (if call.landed then e.request.apply s.table else s.table) key =
            getItem s.table key := by
          split
          · exact getItem_apply hkey
          · rfl
        rcases h.written key hnone' w hw with ⟨htable, hok⟩ | hfailed
        · refine Or.inl ⟨hitem.trans htable, fun hlink => ?_⟩
          refine (mem_resultsAfter call e.owners).mpr ⟨hok hlink, Or.inr fun howner => hkey ?_⟩
          obtain ⟨hedge, hwkey⟩ := mem_worksAt.mp (List.mem_of_getLast? hw)
          exact hwkey.symm.trans ((mem_owners_iff h he hedge).mp howner)
        · exact Or.inr fun w' hw' hok => hfailed w' hw'
            ((mem_resultsAfter call e.owners).mp hok).1
  · rw [write_of_ne hon]
    exact h

theorem stored_write (h : Inv p s) (call : Call) : Stored p (s.write call) := by
  by_cases hon : s.worker.todo = [] ∧ s.worker.pending ≠ []
  · obtain ⟨htodo, hne⟩ := hon
    obtain ⟨e, rest, hpending⟩ := List.exists_cons_of_ne_nil hne
    have hplaced : ∀ e' ∈ e :: rest, ∀ item ∈ e'.request.item?, s.Placed p item.linkId item.key :=
      fun e' he' item hitem => Or.inr (Or.inr ⟨e', hpending ▸ he', item, hitem, rfl, rfl⟩)
    rw [write_eq htodo hpending]
    refine h.stored.of_worker rfl rfl ?_ ?_ fun e' he' => hplaced e' (List.mem_cons_of_mem _ he')
    · dsimp only
      split
      · exact Batch.nodup_apply h.stored.unique e.request
      · exact h.stored.unique
    · intro item hitem
      dsimp only at hitem
      split at hitem
      · cases hrequest : e.request with
        | delete key =>
          rw [hrequest] at hitem
          exact placed_item item (List.mem_of_mem_filter hitem)
        | put new =>
          rw [hrequest] at hitem
          rcases List.mem_append.mp hitem with hitem | hitem
          · exact placed_item item (List.mem_of_mem_filter hitem)
          · refine hplaced e List.mem_cons_self item ?_
            rw [hrequest, List.mem_singleton.mp hitem]
            rfl
      · exact placed_item item hitem
  · rw [write_of_ne hon]
    exact h.stored

theorem metaFails_eq (s : State) (r : Nat) : s.metaFails r = s ∨
    s.worker.todo = [] ∧ s.worker.pending = [] ∧
      (∃ row, s.outbox[r]? = some row ∧ row.operation = .upsert) ∧
      s.metaFails r =
        { s with worker := { s.worker with results := failRows [r] s.worker.results } } := by
  rw [State.metaFails]
  split
  · next hon =>
    obtain ⟨htodo, hpending, hrow⟩ := hon
    obtain ⟨row, hget, hoperation⟩ := (Option.any_eq_true _ _).mp hrow
    exact Or.inr ⟨htodo, hpending, ⟨row, hget, of_decide_eq_true hoperation⟩, rfl⟩
  · exact Or.inl rfl

theorem inHand_metaFails (h : InHand p s) (r : Nat) : InHand p (s.metaFails r) := by
  rcases metaFails_eq s r with heq | ⟨htodo, hpending, ⟨row, hrow, hupsert⟩, heq⟩
  · rw [heq]
    exact h
  · rw [heq]
    refine h.of_flushed htodo htodo rfl rfl (fst_failRows _ _) List.suffix_rfl List.suffix_rfl
      (fun _ => rfl) ?_ ?_
    · intro e he
      rw [hpending] at he
      exact absurd he List.not_mem_nil
    · intro key hnone w hw
      rcases h.written key hnone w hw with ⟨htable, hok⟩ | hfailed
      · refine Or.inl ⟨htable, fun hlink => mem_failRows.mpr ⟨hok hlink, fun hmem => ?_⟩⟩
        -- the row of a removal is not the one of an upsert
        obtain ⟨-, -, row', hrow', hdelete, -⟩ :=
          h.works w (mem_worksAt.mp (List.mem_of_getLast? hw)).1
        rw [List.mem_singleton.mp hmem, hrow] at hrow'
        rw [← Option.some.inj hrow'] at hdelete
        exact absurd (hupsert.symm.trans (hdelete hlink)) (by simp)
      · exact Or.inr fun w' hw' hok => hfailed w' hw' (mem_failRows.mp hok).1

/-- The edge's next work is done, or left out where its op has failed. -/
theorem edge_eq (p : Platform) (s : State) (call : Call) (busted : Bool) :
    s.edge p call busted = s ∨
    ∃ work rest, s.worker.todo = [] ∧ s.worker.pending = [] ∧ s.worker.edge = work :: rest ∧
      (((work.row, true) ∉ s.worker.results ∧
          s.edge p call busted = { s with worker := { s.worker with edge := rest } }) ∨
        (work.row, true) ∈ s.worker.results ∧
          s.edge p call busted =
            { s with
              kvs := if call.landed then Function.update s.kvs (work.kvsKey p) (work.entry p)
                else s.kvs
              worker := { s.worker with
                edge := rest
                results := resultsAfter (if busted then call else .threw true) [work.row]
                  s.worker.results } }) := by
  rw [State.edge]
  split
  · next work rest htodo hpending hedge =>
    refine Or.inr ⟨work, rest, htodo, hpending, hedge, ?_⟩
    split
    · next hok =>
      refine Or.inr ⟨hok, ?_⟩
      have hresults : (if call = .answered ∧ busted = true then s.worker.results
          else failRows [work.row] s.worker.results) =
          resultsAfter (if busted then call else .threw true) [work.row] s.worker.results := by
        cases busted with
        | false => simp [resultsAfter]
        | true => simp [resultsAfter]
      rw [hresults]
    · next hok => exact Or.inl ⟨hok, rfl⟩
  · exact Or.inl rfl

section

variable {work : EdgeWork} {rest : List EdgeWork} {key : String × String} {w : EdgeWork}

/-- The works at a key, from when the first of all is done. -/
theorem worksAt_cons {u : State} (key : String × String) (hedge : s.worker.edge = work :: rest)
    (hrest : u.worker.edge = rest) :
    s.worksAt p key = if work.key p = key then work :: u.worksAt p key else u.worksAt p key := by
  rw [State.worksAt, State.worksAt, hedge, hrest, List.filter_cons]
  simp only [decide_eq_true_eq]

theorem getLast?_worksAt (hedge : s.worker.edge = work :: rest) (hrest : s'.worker.edge = rest)
    (hw : w ∈ (s'.worksAt p key).getLast?) : w ∈ (s.worksAt p key).getLast? := by
  rw [worksAt_cons key hedge hrest]
  split
  · rw [List.getLast?_cons, Option.mem_def.mp hw]
    rfl
  · exact hw

/-- Another work is of another row. -/
theorem row_ne_of_mem (h : InHand p s) (hedge : s.worker.edge = work :: rest) (hw : w ∈ rest) :
    w.row ≠ work.row := by
  have hsingle := h.single
  rw [hedge, List.map_cons, List.nodup_cons] at hsingle
  exact fun heq => hsingle.1 (heq ▸ List.mem_map_of_mem hw)

/-- A work of the edge is taken out. -/
theorem inHand_tail (h : InHand p s) (htodo : s.worker.todo = []) (hpending : s.worker.pending = [])
    (hedge : s.worker.edge = work :: rest) (kvs : String → Option String) (call : Call) :
    InHand p { s with
      kvs := kvs
      worker := { s.worker with
        edge := rest
        results := resultsAfter call [work.row] s.worker.results } } := by
  refine h.of_flushed htodo htodo rfl rfl fst_resultsAfter List.suffix_rfl
    (hedge ▸ List.suffix_cons work rest) (fun hne => absurd hpending hne) ?_ ?_
  · intro e he
    exact absurd (hpending ▸ he) List.not_mem_nil
  · intro key hnone w hw
    have hmem := (mem_worksAt.mp (List.mem_of_getLast? hw)).1
    rcases h.written key hnone w (getLast?_worksAt hedge rfl hw) with ⟨htable, hok⟩ | hfailed
    · refine Or.inl ⟨htable, fun hlink => (mem_resultsAfter call [work.row]).mpr
        ⟨hok hlink, Or.inr fun hrow => ?_⟩⟩
      exact row_ne_of_mem h hedge hmem (List.mem_singleton.mp hrow)
    · refine Or.inr fun w' hw' hok => ?_
      obtain ⟨hw', hkey⟩ := mem_worksAt.mp hw'
      exact hfailed w' (mem_worksAt.mpr ⟨hedge ▸ List.mem_cons_of_mem _ hw', hkey⟩)
        ((mem_resultsAfter call [work.row]).mp hok).1

theorem inHand_edge (h : InHand p s) (call : Call) (busted : Bool) :
    InHand p (s.edge p call busted) := by
  rcases edge_eq p s call busted with
    heq | ⟨work, rest, htodo, hpending, hedge, ⟨-, heq⟩ | ⟨-, heq⟩⟩
  · rw [heq]
    exact h
  · rw [heq]
    exact inHand_tail h htodo hpending hedge s.kvs .answered
  · rw [heq]
    exact inHand_tail h htodo hpending hedge _ _

end

/-! ### Claiming, reading and marking -/

/-- As long as nothing was written, every work has its request. -/
theorem request_of_work {edge : List EdgeWork} {w : EdgeWork} (hw : w ∈ edge) :
    ∃ e ∈ Batch.collectRequests (edge.map fun w => (w.row, w.request p)),
      e.request.key = w.key p := by
  have hfind := Batch.requestAt_collectRequests (edge.map fun w => (w.row, w.request p)) (w.key p)
  cases hrequest : Batch.requestAt
      (Batch.collectRequests (edge.map fun w => (w.row, w.request p))) (w.key p) with
  | some e =>
    exact ⟨e, List.mem_of_find?_eq_some hrequest, by simpa using List.find?_some hrequest⟩
  | none =>
    rw [hrequest, eq_comm, Option.map_eq_none_iff, List.getLast?_eq_none_iff,
      List.filter_eq_nil_iff] at hfind
    exact absurd (by simp) (hfind _ (List.mem_map_of_mem hw))

theorem stored_unread (h : Stored p s) (hpending : s'.worker.pending ⊆ s.worker.pending)
    (htable : s'.table = s.table) (hlinks : s'.links = s.links)
    (houtbox : s'.outbox.map (fun row => (row.linkId, row.operation)) =
      s.outbox.map fun row => (row.linkId, row.operation)) : Stored p s' :=
  h.of_worker hlinks houtbox (htable ▸ h.unique)
    (fun item hitem => placed_item item (htable ▸ hitem))
    fun e he item hitem => Or.inr (Or.inr ⟨e, hpending he, item, hitem, rfl, rfl⟩)

/-- A worker with nothing to write has in hand what it has claimed. -/
theorem InHand.of_nil (hpending : s.worker.pending = []) (hedge : s.worker.edge = [])
    (hapart : s.worker.rows.Nodup)
    (hclaimed : ∀ r ∈ s.worker.rows, ∃ row, s.outbox[r]? = some row ∧ row.processed = false) :
    InHand p s where
  apart := hapart
  claimed := hclaimed
  works := fun w hw => absurd (hedge ▸ hw) List.not_mem_nil
  single := by rw [hedge]; exact List.nodup_nil
  pending := by rw [hpending]; exact List.nil_suffix
  resolving := fun _ => by rw [hpending, hedge]; rfl
  good := fun e he => absurd (hpending ▸ he) List.not_mem_nil
  fresh := fun w hw => absurd (hedge ▸ hw) List.not_mem_nil
  written := by
    intro key _ w hw
    rw [State.worksAt, hedge] at hw
    exact absurd hw (Option.not_mem_none _)

theorem stored_act_worker (h : Stored p s) (outbox : List OutboxRow) (worker : Worker) (now : Int)
    (houtbox : outbox.map (fun row => (row.linkId, row.operation)) =
      s.outbox.map fun row => (row.linkId, row.operation)) (hpending : worker.pending = []) :
    Stored p { s with outbox := outbox, worker := worker, now := now } :=
  stored_unread h (hpending ▸ List.nil_subset _) rfl rfl houtbox

theorem inv_claim (h : Inv p s) {rows : List Nat} (hnodup : rows.Nodup)
    (hclaimable : ∀ r ∈ rows, (s.outbox[r]?).any (·.claimable s.now) = true) :
    Inv p { s with
      outbox := s.outbox.mapIdx fun r row =>
        if r ∈ rows then { row with claimedAt := some s.now } else row
      worker := ⟨rows, [], [], []⟩ } := by
  refine ⟨stored_act_worker h.stored _ _ s.now ?_ rfl, InHand.of_nil rfl rfl ?_ ?_⟩
  · refine List.ext_getElem? fun q => ?_
    rw [List.getElem?_map, List.getElem?_map, List.getElem?_mapIdx, Option.map_map]
    refine congrArg (Option.map · s.outbox[q]?) (funext fun row => ?_)
    rw [Function.comp_apply]
    split <;> rfl
  · change (rows ++ []).Nodup
    rw [List.append_nil]
    exact hnodup
  · intro r hr
    have hmem : r ∈ rows := (List.append_nil rows) ▸ hr
    obtain ⟨row, hrow, hclaim⟩ := (Option.any_eq_true _ _).mp (hclaimable r hmem)
    have hprocessed : row.processed = false := by
      cases hprocessed : row.processed with
      | false => rfl
      | true => simp [OutboxRow.claimable, hprocessed] at hclaim
    refine ⟨{ row with claimedAt := some s.now }, ?_, hprocessed⟩
    rw [List.getElem?_mapIdx, hrow, Option.map_some, if_pos hmem]

theorem mem_addRequest {owner : Nat} {pending : List PendingWrite} {request : WriteRequest}
    {e : PendingWrite} (he : e ∈ addRequest owner pending request) :
    e ∈ pending ∨ e.request = request := by
  rw [addRequest] at he
  split at he
  · obtain ⟨e', he', rfl⟩ := List.mem_map.mp he
    split
    · exact Or.inr rfl
    · exact Or.inl he'
  · rcases List.mem_append.mp he with he | he
    · exact Or.inl he
    · exact Or.inr (by rw [List.mem_singleton.mp he])

/-- A row goes from those to be read to those that were read. -/
theorem rows_read {r : Nat} {rest : List Nat} (htodo : s.worker.todo = r :: rest) (ok : Bool) :
    (rest ++ (s.worker.results ++ [(r, ok)]).map Prod.fst).Perm s.worker.rows := by
  rw [Worker.rows, htodo, List.map_append, ← List.append_assoc]
  exact List.perm_append_comm

theorem removing_read {r : Nat} {rest : List Nat} {ok : Bool} {linkId : String}
    {pending : List PendingWrite} {edge : List EdgeWork} (htodo : s.worker.todo = r :: rest)
    (h : s.Removing linkId) :
    State.Removing
      { s with worker := ⟨rest, s.worker.results ++ [(r, ok)], pending, edge⟩ } linkId := by
  obtain ⟨q, row, hrow, hid, hdelete, hprocessed, hrows⟩ := h
  exact ⟨q, row, hrow, hid, hdelete, hprocessed, fun hmem =>
    hrows ((rows_read htodo ok).mem_iff.mp hmem)⟩

/-- A row that was not read, or has nothing to write. -/
theorem inHand_read (h : InHand p s) {r : Nat} {rest : List Nat}
    (htodo : s.worker.todo = r :: rest) (ok : Bool) :
    InHand p { s with
      worker := ⟨rest, s.worker.results ++ [(r, ok)], s.worker.pending, s.worker.edge⟩ } := by
  have hne : s.worker.todo ≠ [] := htodo ▸ List.cons_ne_nil r rest
  refine ⟨(rows_read htodo ok).nodup_iff.mpr h.apart, ?_, ?_, h.single, h.pending,
    fun _ => h.resolving hne, ?_, ?_, ?_⟩
  · exact fun q hq => h.claimed q ((rows_read htodo ok).mem_iff.mp hq)
  · intro w hw
    obtain ⟨hrow, hrest⟩ := h.works w hw
    exact ⟨by rw [List.map_append]; exact List.mem_append_left _ hrow, hrest⟩
  · exact fun e he q hq => List.mem_append_left _ (h.good e he q hq)
  · exact fun w hw link hlink => (h.fresh w hw link hlink).imp_right (removing_read htodo)
  · intro key hnone w hw
    obtain ⟨hedge, hkey⟩ := mem_worksAt.mp (List.mem_of_getLast? hw)
    obtain ⟨e, he, hekey⟩ := request_of_work (p := p) hedge
    exact absurd (hekey.trans hkey) (hnone e (h.resolving hne ▸ he))

/-- A row that has a request to write. -/
theorem inHand_request (h : Inv p s) {r : Nat} {rest : List Nat} {row : OutboxRow} {w : EdgeWork}
    (htodo : s.worker.todo = r :: rest) (hrow : s.outbox[r]? = some row) (hwrow : w.row = r)
    (hplaced : s.Placed p row.linkId (w.key p)) (hdelete : w.link = none → row.operation = .delete)
    (hlink : ∀ link ∈ w.link, link.id = row.linkId ∧ ∃ l ∈ s.links, l.link = link) :
    InHand p { s with
      worker := ⟨rest, s.worker.results ++ [(r, true)],
        addRequest r s.worker.pending (w.request p), s.worker.edge ++ [w]⟩ } := by
  obtain ⟨hstored, h⟩ := h
  have hne : s.worker.todo ≠ [] := htodo ▸ List.cons_ne_nil r rest
  have hcollect : addRequest r s.worker.pending (w.request p) = Batch.collectRequests
      ((s.worker.edge ++ [w]).map fun w => (w.row, w.request p)) := by
    rw [h.resolving hne, Batch.collectRequests, Batch.collectRequests, List.map_append,
      List.foldl_append, ← hwrow]
    rfl
  -- the row was not read before
  have hr : r ∉ s.worker.results.map Prod.fst := by
    have hapart := h.apart
    rw [Worker.rows, htodo, List.cons_append, List.nodup_cons] at hapart
    exact fun hmem => hapart.1 (List.mem_append_right _ hmem)
  have hwritten : ∀ w' ∈ s.worker.edge, (w'.row, true) ∈ s.worker.results := by
    intro w' hw'
    obtain ⟨e, he, hkey⟩ := request_of_work (p := p) hw'
    rw [← h.resolving hne] at he
    exact h.good e he _ ((mem_owners_iff h he hw').mpr hkey.symm)
  refine ⟨(rows_read htodo true).nodup_iff.mpr h.apart, ?_, ?_, ?_, ?_, fun _ => hcollect, ?_, ?_,
    ?_⟩
  · exact fun q hq => h.claimed q ((rows_read htodo true).mem_iff.mp hq)
  · intro w' hw'
    rcases List.mem_append.mp hw' with hw' | hw'
    · obtain ⟨hrow', hrest⟩ := h.works w' hw'
      exact ⟨by rw [List.map_append]; exact List.mem_append_left _ hrow', hrest⟩
    · obtain rfl := List.mem_singleton.mp hw'
      refine ⟨?_, (hstored.known _ _ hplaced).1, row, hwrow ▸ hrow, hdelete, fun link hl => ?_⟩
      · rw [List.map_append, hwrow]
        exact List.mem_append_right _ (List.mem_singleton_self r)
      · obtain ⟨hid, l, hl', rfl⟩ := hlink link hl
        exact ⟨hid.symm, (hstored.live l hl').2⟩
  · rw [List.map_append]
    refine h.single.append (List.nodup_singleton _) fun q hq hq' => ?_
    obtain ⟨w', hw', rfl⟩ := List.mem_map.mp hq
    exact hr (hwrow ▸ List.mem_singleton.mp hq' ▸ (h.works w' hw').1)
  · exact hcollect ▸ List.suffix_rfl
  · intro e he q hq
    rw [hcollect] at he
    obtain ⟨request, hmem, -⟩ := (Batch.mem_owners he).mp hq
    obtain ⟨w', hw', hentry⟩ := List.mem_map.mp hmem
    obtain rfl : w'.row = q := congrArg Prod.fst hentry
    rcases List.mem_append.mp hw' with hw' | hw'
    · exact List.mem_append_left _ (hwritten w' hw')
    · rw [List.mem_singleton.mp hw', hwrow]
      exact List.mem_append_right _ (List.mem_singleton_self _)
  · intro w' hw' link hl
    rcases List.mem_append.mp hw' with hw' | hw'
    · exact (h.fresh w' hw' link hl).imp_right (removing_read htodo)
    · obtain rfl := List.mem_singleton.mp hw'
      obtain ⟨-, l, hl', rfl⟩ := hlink link hl
      exact Or.inl ⟨l, hl', rfl⟩
  · intro key hnone w' hw'
    obtain ⟨hedge, hkey⟩ := mem_worksAt.mp (List.mem_of_getLast? hw')
    obtain ⟨e, he, hekey⟩ := request_of_work (p := p) hedge
    exact absurd (hekey.trans hkey) (hnone e (hcollect ▸ he))

/-- What reading the next row comes to. -/
theorem resolve_eq (hascii : AsciiCases p) (h : Stored p s) : s.resolve p = s ∨
    ∃ r rest row, s.worker.todo = r :: rest ∧ s.outbox[r]? = some row ∧
      ((s.resolve p = { s with worker :=
            ⟨rest, s.worker.results ++ [(r, true)], s.worker.pending, s.worker.edge⟩ } ∧
          ∀ item ∈ s.table, item.linkId = row.linkId →
            row.operation = .upsert ∧ ∀ l ∈ s.links, l.link.id ≠ row.linkId) ∨
        ∃ w : EdgeWork, w.row = r ∧ s.Placed p row.linkId (w.key p) ∧
          (w.link = none → row.operation = .delete) ∧
          (∀ link ∈ w.link, link.id = row.linkId ∧ ∃ l ∈ s.links, l.link = link) ∧
          s.resolve p = { s with worker :=
            ⟨rest, s.worker.results ++ [(r, true)],
              addRequest r s.worker.pending (w.request p), s.worker.edge ++ [w]⟩ }) := by
  rw [State.resolve]
  split
  · exact Or.inl rfl
  · next r rest htodo =>
    split
    · exact Or.inl rfl
    · next row hrow =>
      refine Or.inr ⟨r, rest, row, htodo, hrow, ?_⟩
      rcases resolve_cases hascii h r row with
        ⟨hrequests, hedge, hnone⟩ | ⟨w, hrequests, hedge, hwrow, hplaced, hdelete, hlink⟩
      · exact Or.inl ⟨by rw [hrequests, hedge, List.append_nil]; rfl, hnone⟩
      · exact Or.inr ⟨w, hwrow, hplaced, hdelete, hlink, by rw [hrequests, hedge]; rfl⟩

theorem inv_resolve (hascii : AsciiCases p) (h : Inv p s) : Inv p (s.resolve p) := by
  rcases resolve_eq hascii h.stored with heq | ⟨r, rest, row, htodo, hrow,
    ⟨heq, -⟩ | ⟨w, hwrow, hplaced, hdelete, hlink, heq⟩⟩
  · rw [heq]
    exact h
  · rw [heq]
    exact ⟨stored_unread h.stored (List.Subset.refl _) rfl rfl rfl, inHand_read h.inHand htodo true⟩
  · rw [heq]
    refine ⟨?_, inHand_request h htodo hrow hwrow hplaced hdelete hlink⟩
    refine h.stored.of_worker rfl rfl h.stored.unique
      (fun item hitem => placed_item item hitem) fun e he item hitem => ?_
    rcases mem_addRequest he with he | hrequest
    · exact Or.inr (Or.inr ⟨e, he, item, hitem, rfl, rfl⟩)
    · rw [hrequest, item_request] at hitem
      obtain ⟨link, hmem, rfl⟩ := Option.map_eq_some_iff.mp (Option.mem_def.mp hitem)
      have hid : (toLinkItem p link w.host w.slug).linkId = row.linkId := (hlink link hmem).1
      rw [hid]
      exact hplaced

theorem resolveFails_eq (s : State) : s.resolveFails = s ∨
    ∃ r rest, s.worker.todo = r :: rest ∧ s.resolveFails = { s with worker :=
      ⟨rest, s.worker.results ++ [(r, false)], s.worker.pending, s.worker.edge⟩ } := by
  rw [State.resolveFails]
  split
  · exact Or.inl rfl
  · next r rest htodo => exact Or.inr ⟨r, rest, htodo, rfl⟩

/-- What marking the next row comes to. -/
theorem mark_eq (s : State) : s.mark = s ∨
    ∃ r ok rest, s.worker.todo = [] ∧ s.worker.pending = [] ∧ s.worker.edge = [] ∧
      s.worker.results = (r, ok) :: rest ∧ s.mark =
        { s with
          outbox := s.outbox.modify r fun row => if ok then row.markProcessed else row.markFailed
          worker := { s.worker with results := rest } } := by
  rw [State.mark]
  split
  · next r ok rest htodo hpending hedge hresults =>
    exact Or.inr ⟨r, ok, rest, htodo, hpending, hedge, hresults, rfl⟩
  · exact Or.inl rfl

theorem inv_mark (h : Inv p s) : Inv p s.mark := by
  rcases mark_eq s with heq | ⟨r, ok, rest, htodo, hpending, hedge, hresults, heq⟩
  · rw [heq]
    exact h
  · have hapart := h.inHand.apart
    rw [Worker.rows, htodo, hresults, List.nil_append, List.map_cons, List.nodup_cons] at hapart
    have hclaimed : ∀ q ∈ rest.map Prod.fst, ∃ row,
        (s.outbox.modify r fun row => if ok then row.markProcessed else row.markFailed)[q]? =
          some row ∧ row.processed = false := by
      intro q hq
      obtain ⟨row, hrow, hprocessed⟩ := h.inHand.claimed q (by
        rw [Worker.rows, htodo, hresults]
        exact List.mem_cons_of_mem _ hq)
      refine ⟨row, ?_, hprocessed⟩
      have hne : r ≠ q := fun heq => hapart.1 (heq ▸ hq)
      rw [List.getElem?_modify, hrow, Option.map_eq_map, Option.map_some, if_neg hne]
    rw [heq]
    refine ⟨stored_act_worker h.stored _ _ s.now ?_ hpending, InHand.of_nil hpending hedge ?_ ?_⟩
    · refine List.ext_getElem? fun q => ?_
      rw [List.getElem?_map, List.getElem?_map, List.getElem?_modify, Option.map_eq_map,
        Option.map_map]
      refine congrArg (Option.map · s.outbox[q]?) (funext fun row => ?_)
      rw [Function.comp_apply]
      split
      · cases ok <;> rfl
      · rfl
    · rw [Worker.rows, htodo]
      exact hapart.2
    · rw [Worker.rows, htodo]
      exact hclaimed

end

/-! ### Every step -/

section

variable {p : Platform} {s : State}

theorem remain_create (l : PgLink) (operation : Operation) :
    Remain s (s.links ++ [l]) l.link.id operation :=
  fun l' hl' => Or.inl ⟨l', List.mem_append_left _ hl', rfl⟩

theorem remain_update (link : ProjectedLink) (operation : Operation) :
    Remain s (s.links.map (PgLink.set link)) link.id operation :=
  fun l hl => Or.inl ⟨_, List.mem_map_of_mem hl, PgLink.id_set link l⟩

theorem remain_delete (linkId : String) :
    Remain s (s.links.filter fun l => l.link.id ≠ linkId) linkId .delete := by
  intro l hl
  by_cases hid : l.link.id = linkId
  · exact Or.inr ⟨hid, rfl⟩
  · exact Or.inl ⟨l, List.mem_filter.mpr ⟨hl, decide_eq_true hid⟩, rfl⟩

theorem inv_act (hascii : AsciiCases p) (h : Inv p s) (a : Action) : Inv p (act p s a) := by
  cases a with
  | create l =>
    rw [act]
    split
    · next hon =>
      obtain ⟨hlive, hdates, hhost, hslug, hid, -⟩ := hon
      refine ⟨stored_enqueue h.stored (some l) ?_ ?_ ?_ nofun,
        inHand_enqueue h.inHand (remain_create l _)⟩
      · intro l' hl'
        rcases List.mem_append.mp hl' with hl' | hl'
        · exact Or.inl ⟨l', hl', rfl, rfl⟩
        · exact Or.inr (by rw [List.mem_singleton.mp hl'])
      · intro l' hl'
        rcases List.mem_append.mp hl' with hl' | hl'
        · exact h.stored.live l' hl'
        · rw [List.mem_singleton.mp hl']
          exact ⟨hlive, hdates⟩
      · intro l' hl'
        obtain rfl := Option.some.inj (Option.mem_def.mp hl')
        exact ⟨rfl, ⟨l.host, l.slug, hhost, hslug, rfl⟩, hid⟩
    · exact h
  | update link =>
    rw [act]
    split
    · next hon =>
      refine ⟨stored_enqueue h.stored none ?_ ?_ (fun _ hl => absurd hl (Option.not_mem_none _))
        nofun, inHand_enqueue h.inHand (remain_update link _)⟩
      · intro l hl
        obtain ⟨l', hl', rfl⟩ := List.mem_map.mp hl
        exact Or.inl ⟨l', hl', (PgLink.id_set link l').symm, (PgLink.key_set p link l').symm⟩
      · intro l hl
        obtain ⟨l', hl', rfl⟩ := List.mem_map.mp hl
        refine ⟨(PgLink.live_set link l').trans (h.stored.live l' hl').1, ?_⟩
        rw [PgLink.set]
        split
        · exact hon.1
        · exact (h.stored.live l' hl').2
    · exact h
  | delete linkId =>
    rw [act]
    split
    · refine ⟨stored_enqueue h.stored none ?_ ?_ (fun _ hl => absurd hl (Option.not_mem_none _)) ?_,
        inHand_enqueue h.inHand (remain_delete linkId)⟩
      · exact fun l hl => Or.inl ⟨l, List.mem_of_mem_filter hl, rfl, rfl⟩
      · exact fun l hl => h.stored.live l (List.mem_of_mem_filter hl)
      · exact fun _ l hl => of_decide_eq_true (List.mem_filter.mp hl).2
    · exact h
  | claim rows =>
    rw [act]
    split
    · next hon => exact inv_claim h hon.2.1 hon.2.2
    · exact h
  | resolve => exact inv_resolve hascii h
  | resolveFails =>
    rcases resolveFails_eq s with heq | ⟨r, rest, htodo, heq⟩
    · exact (congrArg (Inv p) heq).mpr h
    · refine (congrArg (Inv p) heq).mpr ⟨?_, inHand_read h.inHand htodo false⟩
      exact stored_unread h.stored (List.Subset.refl _) rfl rfl rfl
  | write call => exact ⟨stored_write h call, inHand_write h.inHand call⟩
  | metaFails r =>
    refine ⟨?_, inHand_metaFails h.inHand r⟩
    rcases metaFails_eq s r with heq | ⟨-, -, -, heq⟩
    · exact (congrArg (Stored p) heq).mpr h.stored
    · exact (congrArg (Stored p) heq).mpr
        (stored_unread h.stored (List.Subset.refl _) rfl rfl rfl)
  | edge call busted =>
    refine ⟨?_, inHand_edge h.inHand call busted⟩
    rcases edge_eq p s call busted with heq | ⟨work, rest, -, -, -, ⟨-, heq⟩ | ⟨-, heq⟩⟩
    · exact (congrArg (Stored p) heq).mpr h.stored
    · exact (congrArg (Stored p) heq).mpr
        (stored_unread h.stored (List.Subset.refl _) rfl rfl rfl)
    · exact (congrArg (Stored p) heq).mpr
        (stored_unread h.stored (List.Subset.refl _) rfl rfl rfl)
  | mark => exact inv_mark h
  | die =>
    exact ⟨stored_act_worker h.stored s.outbox .idle s.now rfl rfl,
      InHand.of_nil rfl rfl List.nodup_nil fun _ hr => absurd hr List.not_mem_nil⟩
  | tick ms => exact ⟨stored_unread h.stored (List.Subset.refl _) rfl rfl rfl,
      ⟨h.inHand.apart, h.inHand.claimed, h.inHand.works, h.inHand.single, h.inHand.pending,
        h.inHand.resolving, h.inHand.good, h.inHand.fresh, h.inHand.written⟩⟩

end

end SnapUrl.Projection.EdgeStore
