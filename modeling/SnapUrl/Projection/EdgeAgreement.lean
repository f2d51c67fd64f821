import SnapUrl.Projection.EdgeBatch

/-!
# The store follows the table

* `Tracked`: what the store has for a host and a slug is right, or a row is still to be run that
  will make it so, or the edge is not done.
* `agree_of_kept`: **store and table agree whenever every outbox row was processed**, in every run
  that cuts no removal short.
* `entry_outlives_link`: the index no longer has what a removal that is run again looks for.
-/

namespace SnapUrl.Projection.EdgeStore

open Lib Domain

/-! ### What is still to be run -/

/-- A row will be run again, or its request for a key is still to be written. -/
def State.Owed (s : State) (key : String × String) (linkId : String) : Prop :=
  ∃ r row, s.outbox[r]? = some row ∧ row.linkId = linkId ∧ row.processed = false ∧
    (row.operation = .delete ∨ ∃ l ∈ s.links, l.link.id = linkId) ∧
    ((r, true) ∈ s.worker.results → HasRequest s.worker.pending key r)

/-- The edge's last work at a key is still to come. -/
def State.Coming (p : Platform) (s : State) (key : String × String) : Prop :=
  (∀ e ∈ s.worker.pending, e.request.key ≠ key) ∧
    ∃ w ∈ (s.worksAt p key).getLast?, (w.row, true) ∈ s.worker.results

/-- **An item of a link that is gone is going to be removed.  What the store has for a host and a
slug is right, or an item is there that a row is still to be run for, or the edge is not done.** -/
structure Tracked (p : Platform) (s : State) : Prop where
  owned : ∀ item ∈ s.table,
    (∃ l ∈ s.links, l.link.id = item.linkId) ∨ s.Owed item.key item.linkId
  right : ∀ host slug, s.kvs (kvsKey p host slug) = s.entryAt p host slug ∨
    (∃ item ∈ s.table, item.key = linkKey p host slug ∧ s.Owed item.key item.linkId) ∨
    s.Coming p (linkKey p host slug)

section

variable {p : Platform} {s u : State} {key : String × String} {linkId : String}

/-- A removal that is not claimed yet is still to be run. -/
theorem State.Removing.owed (h : s.Removing linkId) : s.Owed key linkId := by
  obtain ⟨r, row, hrow, hid, hdelete, hprocessed, hrows⟩ := h
  refine ⟨r, row, hrow, hid, hprocessed, Or.inl hdelete, fun hmem => absurd ?_ hrows⟩
  exact List.mem_append_right _ (List.mem_map_of_mem hmem)


/-- A row stays to be run, as long as a worker does not do what it has in hand for it. -/
theorem State.Owed.mono (h : s.Owed key linkId) (hlinks : u.links = s.links)
    (houtbox : ∀ (r : Nat) (row : OutboxRow), s.outbox[r]? = some row → row.processed = false →
      ((r, true) ∈ s.worker.results → HasRequest s.worker.pending key r) →
      ∃ row', u.outbox[r]? = some row' ∧ row'.linkId = row.linkId ∧
        row'.operation = row.operation ∧ row'.processed = false)
    (hhand : ∀ r, ((r, true) ∈ s.worker.results → HasRequest s.worker.pending key r) →
      (r, true) ∈ u.worker.results → HasRequest u.worker.pending key r) :
    u.Owed key linkId := by
  obtain ⟨r, row, hrow, hid, hprocessed, hfor, hin⟩ := h
  obtain ⟨row', hrow', hid', hoperation, hprocessed'⟩ := houtbox r row hrow hprocessed hin
  exact ⟨r, row', hrow', hid'.trans hid, hprocessed', by rwa [hoperation, hlinks], hhand r hin⟩

/-- The row of a work that has failed is run again for its link. -/
theorem owed_of_work (h : InHand p s) {w : EdgeWork} (hw : w ∈ s.worker.edge) {link : ProjectedLink}
    (hlink : link ∈ w.link) (hl : ∃ l ∈ s.links, l.link.id = link.id) (hlinks : u.links = s.links)
    (houtbox : u.outbox = s.outbox) (hfailed : (w.row, true) ∉ u.worker.results) :
    u.Owed key link.id := by
  obtain ⟨hrow, -, row, hget, -, hid⟩ := h.works w hw
  obtain ⟨row', hget', hprocessed⟩ := h.claimed w.row (List.mem_append_right _ hrow)
  obtain rfl := Option.some.inj (hget.symm.trans hget')
  exact ⟨w.row, row, houtbox ▸ hget, (hid link hlink).1, hprocessed, Or.inr (hlinks ▸ hl),
    fun hok => absurd hok hfailed⟩

/-- **Where the edge's last work at a key is given up**, its row is run again when it brings a
link; a removal must have nothing to remove. -/
theorem right_of_dropped (h : Inv p s) (ht : Tracked p s) {w : EdgeWork} {host slug : String}
    (hcoming : w ∈ (s.worksAt p (linkKey p host slug)).getLast?)
    (hwritten : getItem s.table (linkKey p host slug) = (w.request p).item?)
    (hfailed : (w.row, true) ∉ u.worker.results)
    (hremoval : w.link = none → s.kvs (kvsKey p host slug) = none)
    (htable : u.table = s.table) (hlinks : u.links = s.links) (houtbox : u.outbox = s.outbox)
    (howed : ∀ {key linkId}, s.Owed key linkId → u.Owed key linkId) :
    s.kvs (kvsKey p host slug) = s.entryAt p host slug ∨
      ∃ item ∈ u.table, item.key = linkKey p host slug ∧ u.Owed item.key item.linkId := by
  rw [item_request] at hwritten
  obtain ⟨hedge, hkey⟩ := mem_worksAt.mp (List.mem_of_getLast? hcoming)
  cases hlink : w.link with
  | none =>
    left
    rw [State.entryAt, hwritten, hremoval hlink, hlink]
    rfl
  | some link =>
    rw [hlink, Option.map_some] at hwritten
    obtain ⟨hitem, hitemKey⟩ := getItem_eq_some hwritten
    refine Or.inr ⟨_, htable ▸ hitem, hitemKey, ?_⟩
    rcases ht.owned _ hitem with hl | hkept
    · exact owed_of_work h.inHand hedge hlink hl hlinks houtbox hfailed
    · exact howed hkept

end

/-! ### Writes of links -/

section

variable {p : Platform} {s : State} {links : List PgLink} {linkId : String} {operation : Operation}

theorem owed_enqueue (h : InHand p s) (hlinks : Remain s links linkId operation)
    {key : String × String} {id : String} (howed : s.Owed key id) :
    State.Owed ({ s with links := links }.enqueue linkId operation) key id := by
  obtain ⟨r, row, hrow, hid, hprocessed, hdelete | ⟨l, hl, hlid⟩, hhand⟩ := howed
  · exact ⟨r, row, getElem?_enqueue hrow, hid, hprocessed, Or.inl hdelete, hhand⟩
  · rcases hlinks l hl with ⟨l', hl', hid'⟩ | hremoved
    · exact ⟨r, row, getElem?_enqueue hrow, hid, hprocessed,
        Or.inr ⟨l', hl', hid'.trans hlid⟩, hhand⟩
    · exact (removing_enqueued h (hlid ▸ hremoved)).owed

theorem tracked_enqueue (h : InHand p s) (ht : Tracked p s)
    (hlinks : Remain s links linkId operation) :
    Tracked p ({ s with links := links }.enqueue linkId operation) where
  owned := by
    intro item hitem
    rcases ht.owned item hitem with ⟨l, hl, hid⟩ | howed
    · rcases hlinks l hl with ⟨l', hl', hid'⟩ | hremoved
      · exact Or.inl ⟨l', hl', hid'.trans hid⟩
      · exact Or.inr (removing_enqueued h (hid ▸ hremoved)).owed
    · exact Or.inr (owed_enqueue h hlinks howed)
  right := by
    intro host slug
    refine (ht.right host slug).imp_right (Or.imp_left ?_)
    exact fun ⟨item, hitem, hkey, howed⟩ => ⟨item, hitem, hkey, owed_enqueue h hlinks howed⟩

end

/-! ### The store follows the table -/

section

variable {p : Platform} {s u : State} {host slug : String}

theorem entryAt_congr
    (h : getItem u.table (linkKey p host slug) = getItem s.table (linkKey p host slug)) :
    u.entryAt p host slug = s.entryAt p host slug := by
  rw [State.entryAt, State.entryAt, h]

/-- A step that changes neither the table nor the store, when the edge is not done at no key. -/
theorem Tracked.of_same (ht : Tracked p s) (htable : u.table = s.table) (hkvs : u.kvs = s.kvs)
    (hlinks : u.links = s.links)
    (howed : ∀ {key linkId}, (∃ item ∈ s.table, item.key = key ∧ item.linkId = linkId) →
      s.Owed key linkId → u.Owed key linkId)
    (hcoming : ∀ host slug, s.Coming p (linkKey p host slug) →
      s.kvs (kvsKey p host slug) = s.entryAt p host slug ∨
        (∃ item ∈ u.table, item.key = linkKey p host slug ∧ u.Owed item.key item.linkId) ∨
        u.Coming p (linkKey p host slug)) : Tracked p u where
  owned := by
    intro item hitem
    have hitem' : item ∈ s.table := htable ▸ hitem
    rcases ht.owned item hitem' with hl | hkept
    · exact Or.inl (hlinks ▸ hl)
    · exact Or.inr (howed ⟨item, hitem', rfl, rfl⟩ hkept)
  right := by
    intro host slug
    rw [hkvs, entryAt_congr (u := u) (s := s) (congrArg (getItem · (linkKey p host slug)) htable)]
    rcases ht.right host slug with hright | ⟨item, hitem, hkey, hkept⟩ | hcome
    · exact Or.inl hright
    · exact Or.inr (Or.inl ⟨item, htable ▸ hitem, hkey, howed ⟨item, hitem, rfl, rfl⟩ hkept⟩)
    · exact hcoming host slug hcome

/-- While rows are still to be read, the edge waits for their requests. -/
theorem not_coming_of_todo (h : InHand p s) (htodo : s.worker.todo ≠ []) {key : String × String} :
    ¬ s.Coming p key := by
  rintro ⟨hnone, w, hw, -⟩
  obtain ⟨hedge, hkey⟩ := mem_worksAt.mp (List.mem_of_getLast? hw)
  obtain ⟨e, he, hekey⟩ := request_of_work (p := p) hedge
  exact hnone e (h.resolving htodo ▸ he) (hekey.trans hkey)

theorem not_coming_of_edge_nil (hedge : s.worker.edge = []) {key : String × String} :
    ¬ s.Coming p key := by
  rintro ⟨-, w, hw, -⟩
  rw [State.worksAt, hedge] at hw
  exact Option.not_mem_none _ hw

/-- The table has what the last work at a key brings, when that work is still to come. -/
theorem written_of_coming (h : InHand p s) {key : String × String} {w : EdgeWork}
    (hnone : ∀ e ∈ s.worker.pending, e.request.key ≠ key)
    (hw : w ∈ (s.worksAt p key).getLast?)
    (hok : ∃ w' ∈ s.worksAt p key, (w'.row, true) ∈ s.worker.results) :
    getItem s.table key = (w.request p).item? ∧
      (w.link = none → (w.row, true) ∈ s.worker.results) := by
  rcases h.written key hnone w hw with hwritten | hfailed
  · exact hwritten
  · obtain ⟨w', hw', hok'⟩ := hok
    exact absurd hok' (hfailed w' hw')

theorem tracked_resolve (hascii : AsciiCases p) (h : Inv p s) (ht : Tracked p s) :
    Tracked p (s.resolve p) := by
  rcases resolve_eq hascii h.stored with heq | ⟨r, rest, row, htodo, hrow, hcases⟩
  · rw [heq]
    exact ht
  · have hne : s.worker.todo ≠ [] := htodo ▸ List.cons_ne_nil r rest
    have hcoming : ∀ {key}, ¬ s.Coming p key := not_coming_of_todo h.inHand hne
    have hread : ∀ {q}, (q, true) ∈ s.worker.results ++ [(r, true)] →
        (q, true) ∈ s.worker.results ∨ q = r := by
      intro q hq
      refine (List.mem_append.mp hq).imp_right fun hq => ?_
      exact (Prod.mk.inj (List.mem_singleton.mp hq)).1
    rcases hcases with ⟨heq, hnothing⟩ | ⟨w, hwrow, hplaced, hdelete, hlink, heq⟩
    · rw [heq]
      refine ht.of_same rfl rfl rfl ?_ fun _ _ hcome => absurd hcome hcoming
      rintro key linkId ⟨item, hitem, -, rfl⟩ ⟨q, row', hrow', hid, hprocessed, hfor, hin⟩
      refine ⟨q, row', hrow', hid, hprocessed, hfor, fun hq => ?_⟩
      rcases hread hq with hq | rfl
      · exact hin hq
      -- a row that resolves to nothing is not one that the item waits for
      · obtain rfl := Option.some.inj (hrow.symm.trans hrow')
        obtain ⟨hupsert, hgone⟩ := hnothing item hitem hid.symm
        rcases hfor with hdelete | ⟨l, hl, hlid⟩
        · exact absurd (hupsert.symm.trans hdelete) (by simp)
        · exact absurd (hlid.trans hid.symm) (hgone l hl)
    · rw [heq]
      refine ht.of_same rfl rfl rfl ?_ fun _ _ hcome => absurd hcome hcoming
      rintro key linkId ⟨item, hitem, rfl, rfl⟩ ⟨q, row', hrow', hid, hprocessed, hfor, hin⟩
      refine ⟨q, row', hrow', hid, hprocessed, hfor, fun hq => ?_⟩
      rcases hread hq with hq | rfl
      · exact (hin hq).addRequest
      · obtain rfl := Option.some.inj (hrow.symm.trans hrow')
        have hkey : item.key = (w.request p).key :=
          (h.stored.placed _ _ _ (hid ▸ placed_item item hitem) hplaced).trans key_request.symm
        rw [hkey]
        exact hasRequest_addRequest

theorem tracked_resolveFails (h : Inv p s) (ht : Tracked p s) : Tracked p s.resolveFails := by
  rcases resolveFails_eq s with heq | ⟨r, rest, htodo, heq⟩
  · rw [heq]
    exact ht
  · have hne : s.worker.todo ≠ [] := htodo ▸ List.cons_ne_nil r rest
    rw [heq]
    refine ht.of_same rfl rfl rfl ?_ fun _ _ hcome => absurd hcome (not_coming_of_todo h.inHand hne)
    intro key linkId _ howed
    refine howed.mono rfl (fun q row hrow hp _ => ⟨row, hrow, rfl, rfl, hp⟩) fun q hin hq => hin ?_
    rcases List.mem_append.mp hq with hq | hq
    · exact hq
    · exact absurd (Prod.mk.inj (List.mem_singleton.mp hq)).2 (by simp)

theorem tracked_claim (ht : Tracked p s) (hidle : s.worker = .idle) (rows : List Nat) :
    Tracked p { s with
      outbox := s.outbox.mapIdx fun r row =>
        if r ∈ rows then { row with claimedAt := some s.now } else row
      worker := ⟨rows, [], [], []⟩ } := by
  have hedge : s.worker.edge = [] := by rw [hidle]; rfl
  refine ht.of_same rfl rfl rfl ?_ fun _ _ hcome => absurd hcome (not_coming_of_edge_nil hedge)
  intro key linkId _ howed
  refine howed.mono rfl (fun q row hrow hp _ => ?_) fun q _ hq => absurd hq List.not_mem_nil
  refine ⟨if q ∈ rows then { row with claimedAt := some s.now } else row, ?_, ?_⟩
  · rw [List.getElem?_mapIdx, hrow]
    rfl
  · split
    · exact ⟨rfl, rfl, hp⟩
    · exact ⟨rfl, rfl, hp⟩

theorem tracked_mark (ht : Tracked p s) : Tracked p s.mark := by
  rcases mark_eq s with heq | ⟨r, ok, rest, htodo, hpending, hedge, hresults, heq⟩
  · rw [heq]
    exact ht
  · rw [heq]
    refine ht.of_same rfl rfl rfl ?_ fun _ _ hcome => absurd hcome (not_coming_of_edge_nil hedge)
    intro key linkId _ howed
    have hnot : ∀ {q}, ((q, true) ∈ s.worker.results → HasRequest s.worker.pending key q) →
        (q, true) ∉ s.worker.results := by
      intro q hin hq
      obtain ⟨e, he, -⟩ := hin hq
      exact absurd (hpending ▸ he) List.not_mem_nil
    refine howed.mono rfl (fun q row hrow hp hin => ?_) fun q hin hq =>
      absurd (hresults ▸ List.mem_cons_of_mem _ hq) (hnot hin)
    refine ⟨if r = q then (if ok then row.markProcessed else row.markFailed) else row, ?_, ?_⟩
    · rw [List.getElem?_modify, hrow]
      rfl
    · split
      · next hrq =>
        cases ok with
        | false => exact ⟨rfl, rfl, hp⟩
        | true =>
          refine absurd ?_ (hnot hin)
          rw [hresults, hrq]
          exact List.mem_cons_self
      · exact ⟨rfl, rfl, hp⟩

theorem tracked_metaFails (h : Inv p s) (ht : Tracked p s) (r : Nat) :
    Tracked p (s.metaFails r) := by
  rcases metaFails_eq s r with heq | ⟨htodo, hpending, ⟨row, hrow, hupsert⟩, heq⟩
  · rw [heq]
    exact ht
  · rw [heq]
    have howed : ∀ {key linkId}, s.Owed key linkId → State.Owed
        { s with worker := { s.worker with results := failRows [r] s.worker.results } } key
        linkId :=
      fun howed => howed.mono rfl (fun q row hrow hp _ => ⟨row, hrow, rfl, rfl, hp⟩)
        fun q hin hq => hin (mem_failRows.mp hq).1
    refine ht.of_same rfl rfl rfl (fun _ => howed) ?_
    rintro host slug ⟨hnone, w, hw, hok⟩
    have hmem := List.mem_of_getLast? hw
    by_cases hwr : w.row = r
    · have hwritten := (written_of_coming h.inHand hnone hw ⟨w, hmem, hok⟩).1
      refine Or.imp_right Or.inl ?_
      refine right_of_dropped h ht hw hwritten ?_ ?_ rfl rfl rfl howed
      · exact fun hok' => (mem_failRows.mp hok').2 (hwr ▸ List.mem_singleton_self _)
      · -- the row is one of an upsert
        intro hlink
        obtain ⟨-, -, row', hrow', hdelete, -⟩ := h.inHand.works w (mem_worksAt.mp hmem).1
        rw [hwr, hrow] at hrow'
        rw [← Option.some.inj hrow'] at hdelete
        exact absurd (hupsert.symm.trans (hdelete hlink)) (by simp)
    · refine Or.inr (Or.inr ⟨hnone, w, hw, mem_failRows.mpr ⟨hok, fun hmem => hwr ?_⟩⟩)
      exact List.mem_singleton.mp hmem

/-- A store with nothing left over has nothing where the table has nothing. -/
theorem kvs_eq_none (hkept : ¬ s.Leftover (linkKey p host slug))
    (hnone : getItem s.table (linkKey p host slug) = none) : s.kvs (kvsKey p host slug) = none := by
  rw [State.Leftover, slotOf_linkKey] at hkept
  by_contra hsome
  exact hkept ⟨hnone, hsome⟩

theorem tracked_die (h : Inv p s) (ht : Tracked p s) (hkept : Kept p s .die) :
    Tracked p { s with worker := .idle } := by
  have howed : ∀ {key linkId}, s.Owed key linkId →
      State.Owed { s with worker := .idle } key linkId :=
    fun howed => howed.mono rfl (fun q row hrow hp _ => ⟨row, hrow, rfl, rfl, hp⟩)
      fun q _ hq => absurd hq List.not_mem_nil
  refine ht.of_same rfl rfl rfl (fun _ => howed) ?_
  rintro host slug ⟨hnone, w, hw, hok⟩
  have hmem := List.mem_of_getLast? hw
  obtain ⟨hedge, hkey⟩ := mem_worksAt.mp hmem
  have hwritten := (written_of_coming h.inHand hnone hw ⟨w, hmem, hok⟩).1
  refine Or.imp_right Or.inl ?_
  refine right_of_dropped h ht hw hwritten (fun hok' => absurd hok' List.not_mem_nil) ?_ rfl rfl
    rfl howed
  intro hlink
  refine kvs_eq_none (hkey ▸ hkept w hedge hlink) ?_
  rw [hwritten, item_request, hlink]
  rfl

/-- What a request leaves where it was not written. -/
theorem mem_apply {table : List LinkItem} {request : WriteRequest} {item : LinkItem}
    (h : item ∈ request.apply table) :
    item ∈ request.item? ∨ item ∈ table ∧ item.key ≠ request.key := by
  cases request with
  | delete key =>
    obtain ⟨hitem, hne⟩ := List.mem_filter.mp h
    exact Or.inr ⟨hitem, of_decide_eq_true hne⟩
  | put new =>
    rcases List.mem_append.mp h with h | h
    · obtain ⟨hitem, hne⟩ := List.mem_filter.mp h
      exact Or.inr ⟨hitem, of_decide_eq_true hne⟩
    · rw [List.mem_singleton.mp h]
      exact Or.inl rfl

theorem mem_apply_of_ne {table : List LinkItem} {request : WriteRequest} {item : LinkItem}
    (h : item ∈ table) (hne : item.key ≠ request.key) : item ∈ request.apply table := by
  have hmem : ∀ {key}, item.key ≠ key → item ∈ deleteItem table key := fun hne =>
    List.mem_filter.mpr ⟨h, decide_eq_true hne⟩
  cases request with
  | delete key => exact hmem hne
  | put new => exact List.mem_append_left _ (hmem hne)

section

variable {e : PendingWrite} {rest : List PendingWrite} {call : Call}

/-- The state after a request was flushed. -/
def State.flushed (s : State) (e : PendingWrite) (rest : List PendingWrite) (call : Call) : State :=
  { s with
    table := if call.landed then e.request.apply s.table else s.table
    worker := { s.worker with
      pending := rest
      results := resultsAfter call e.owners s.worker.results } }

/-- What is to be run stays so, but for a request that was answered. -/
theorem owed_flushed (hpending : s.worker.pending = e :: rest) {key : String × String}
    {linkId : String} (h : s.Owed key linkId) (hkey : key ≠ e.request.key ∨ call ≠ .answered) :
    (s.flushed e rest call).Owed key linkId := by
  refine h.mono rfl (fun q row hrow hp _ => ⟨row, hrow, rfl, rfl, hp⟩) fun q hin hq => ?_
  obtain ⟨hok, hnot⟩ := (mem_resultsAfter call e.owners).mp hq
  obtain ⟨e', he', hekey, howner⟩ := hin hok
  rw [hpending] at he'
  rcases List.mem_cons.mp he' with rfl | he'
  · rcases hkey with hkey | hkey
    · exact absurd hekey.symm hkey
    · exact absurd howner (hnot.resolve_left hkey)
  · exact ⟨e', he', hekey, howner⟩

/-- The edge is still to come at every other key. -/
theorem coming_flushed (h : InHand p s) (hpending : s.worker.pending = e :: rest)
    {key : String × String} (hcoming : s.Coming p key) :
    key ≠ e.request.key ∧ (s.flushed e rest call).Coming p key := by
  obtain ⟨hnone, w, hw, hok⟩ := hcoming
  have he : e ∈ s.worker.pending := hpending ▸ List.mem_cons_self
  have hne : key ≠ e.request.key := Ne.symm (hnone e he)
  refine ⟨hne, fun e' he' => hnone e' (hpending ▸ List.mem_cons_of_mem _ he'), w, hw, ?_⟩
  refine (mem_resultsAfter call e.owners).mpr ⟨hok, Or.inr fun howner => hne ?_⟩
  obtain ⟨hedge, hkey⟩ := mem_worksAt.mp (List.mem_of_getLast? hw)
  exact hkey.symm.trans ((mem_owners_iff h he hedge).mp howner)

/-- An item that was put is of a link that is there, or is going to be removed. -/
theorem fresh_put (h : InHand p s) (hpending : s.worker.pending = e :: rest) {item : LinkItem}
    (hitem : item ∈ e.request.item?) :
    item.key = e.request.key ∧ ∃ w ∈ (s.worksAt p e.request.key).getLast?, w.row ∈ e.owners ∧
      ∃ link ∈ w.link, item.linkId = link.id ∧
        ((∃ l ∈ s.links, l.link.id = link.id) ∨ s.Removing link.id) := by
  obtain ⟨howners, w, hw, hrequest⟩ := pending_spec h (hpending ▸ List.mem_cons_self)
  have hmem := List.mem_of_getLast? hw
  have hwritten := Option.mem_def.mp hitem
  rw [hrequest, item_request] at hwritten
  obtain ⟨link, hlink, rfl⟩ := Option.map_eq_some_iff.mp hwritten
  refine ⟨?_, w, hw, howners ▸ List.mem_map_of_mem hmem, link, hlink, rfl,
    h.fresh w (mem_worksAt.mp hmem).1 link hlink⟩
  exact (mem_worksAt.mp hmem).2

/-- **A request that is flushed.**  When it throws, its rows are run again; when it was answered,
the edge is still to come. -/
theorem tracked_flushed (h : Inv p s) (ht : Tracked p s)
    (hpending : s.worker.pending = e :: rest)
    (hkept : call = .threw true → e.request.item? = none → s.kvs (slotOf e.request.key) = none) :
    Tracked p (s.flushed e rest call) := by
  cases hlanded : call.landed with
  | false =>
    have hcall : call ≠ .answered := fun heq => by rw [heq] at hlanded; exact nomatch hlanded
    have htable : (s.flushed e rest call).table = s.table := by rw [State.flushed, hlanded]; rfl
    refine ht.of_same htable rfl rfl (fun _ howed => owed_flushed hpending howed (Or.inr hcall)) ?_
    exact fun host slug hcoming => Or.inr (Or.inr (coming_flushed h.inHand hpending hcoming).2)
  | true =>
    have htable : (s.flushed e rest call).table = e.request.apply s.table := by
      rw [State.flushed, hlanded]
      rfl
    constructor
    · intro item hitem
      rw [htable] at hitem
      rcases mem_apply hitem with hput | ⟨hitem, hne⟩
      · obtain ⟨-, w, -, -, link, -, hid, hl | hremoving⟩ := fresh_put h.inHand hpending hput
        · exact Or.inl (hid ▸ hl)
        · have hremoving' : (s.flushed e rest call).Removing item.linkId := by
            obtain ⟨q, row, hrow, hrowid, hdelete, hp, hrows⟩ := hremoving
            refine ⟨q, row, hrow, hrowid.trans hid.symm, hdelete, hp, ?_⟩
            rw [Worker.rows, State.flushed, fst_resultsAfter]
            exact hrows
          exact Or.inr hremoving'.owed
      · exact (ht.owned item hitem).imp_right fun howed => owed_flushed hpending howed (Or.inl hne)
    · intro host slug
      by_cases hkey : linkKey p host slug = e.request.key
      · -- the key of the request
        obtain ⟨howners, w, hw, hrequest⟩ := pending_spec h.inHand (hpending ▸ List.mem_cons_self)
        have hmem := List.mem_of_getLast? hw
        have howner : w.row ∈ e.owners := howners ▸ List.mem_map_of_mem hmem
        have hkeys := keys_pending h.inHand
        rw [hpending, List.map_cons, List.nodup_cons] at hkeys
        cases call with
        | answered =>
          refine Or.inr (Or.inr ⟨fun e' he' heq => hkeys.1 ?_, w, hkey ▸ hw, ?_⟩)
          · rw [← hkey, ← heq]
            exact List.mem_map_of_mem he'
          · exact h.inHand.good e (hpending ▸ List.mem_cons_self) _ howner
        | threw landed =>
          obtain rfl : landed = true := hlanded
          have hfailed : (w.row, true) ∉ (s.flushed e rest (.threw true)).worker.results := by
            intro hok
            rcases ((mem_resultsAfter (.threw true) e.owners).mp hok).2 with hanswered | hnot
            · exact absurd hanswered (by simp)
            · exact hnot howner
          cases hitem : e.request.item? with
          | none =>
            left
            have hgone : getItem (e.request.apply s.table) (linkKey p host slug) = none := by
              rw [hkey, getItem_apply_self, hitem]
            rw [State.entryAt, htable, hgone, ← slotOf_linkKey, hkey]
            exact hkept rfl hitem
          | some item =>
            obtain ⟨hitemKey, w', hw', -, link, hlink, hid, hfresh⟩ :=
              fresh_put h.inHand hpending hitem
            obtain rfl := Option.mem_unique hw hw'
            refine Or.inr (Or.inl ⟨item, ?_, hitemKey.trans hkey.symm, ?_⟩)
            · rw [htable]
              exact (getItem_eq_some (getItem_apply_self.trans hitem)).1
            · rw [hid]
              rcases hfresh with hl | hremoving
              · exact owed_of_work h.inHand (mem_worksAt.mp hmem).1 hlink hl rfl rfl hfailed
              · exact owed_flushed hpending hremoving.owed (Or.inr (by simp))
      · have hsame : getItem (s.flushed e rest call).table (linkKey p host slug) =
            getItem s.table (linkKey p host slug) := by
          rw [htable]
          exact getItem_apply hkey
        rw [entryAt_congr hsame]
        refine (ht.right host slug).imp_right (Or.imp ?_ fun hcoming =>
          (coming_flushed h.inHand hpending hcoming).2)
        rintro ⟨item, hitem, hitemKey, howed⟩
        refine ⟨item, ?_, hitemKey, owed_flushed hpending howed (Or.inl (hitemKey ▸ hkey))⟩
        rw [htable]
        exact mem_apply_of_ne hitem (hitemKey ▸ hkey)

theorem tracked_write (h : Inv p s) (ht : Tracked p s)
    (hkept : Kept p s (.write call)) : Tracked p (s.write call) := by
  by_cases hon : s.worker.todo = [] ∧ s.worker.pending ≠ []
  · obtain ⟨htodo, hne⟩ := hon
    obtain ⟨e, rest, hpending⟩ := List.exists_cons_of_ne_nil hne
    rw [write_eq htodo hpending]
    refine tracked_flushed h ht hpending fun hcall hnone => ?_
    subst hcall
    exact hkept e (by rw [hpending]; rfl) hnone
  · rw [write_of_ne hon]
    exact ht

end

/-! ### The edge's work -/

section

variable {work : EdgeWork} {rest : List EdgeWork} {key : String × String}

/-- The state after the edge's next work. -/
def State.worked (s : State) (rest : List EdgeWork) (kvs : String → Option String)
    (results : List (Nat × Bool)) : State :=
  { s with kvs := kvs, worker := { s.worker with edge := rest, results := results } }

variable {kvs : String → Option String} {results : List (Nat × Bool)}

theorem owed_worked (hpending : s.worker.pending = [])
    (hle : ∀ r, (r, true) ∈ results → (r, true) ∈ s.worker.results) {linkId : String}
    (h : s.Owed key linkId) : (s.worked rest kvs results).Owed key linkId := by
  refine h.mono rfl (fun q row hrow hp _ => ⟨row, hrow, rfl, rfl, hp⟩) fun q hin hq => ?_
  obtain ⟨e, he, -⟩ := hin (hle q hq)
  exact absurd (hpending ▸ he) List.not_mem_nil

/-- The edge is still to come at a key, when it is not done there. -/
theorem coming_worked (h : InHand p s) (hedge : s.worker.edge = work :: rest)
    (hkeep : ∀ r, r ≠ work.row → (r, true) ∈ s.worker.results → (r, true) ∈ results)
    {w : EdgeWork} (hnone : ∀ e ∈ s.worker.pending, e.request.key ≠ key)
    (hw : w ∈ ((s.worked rest kvs results).worksAt p key).getLast?)
    (hok : (w.row, true) ∈ s.worker.results) : (s.worked rest kvs results).Coming p key := by
  refine ⟨hnone, w, hw, hkeep w.row (row_ne_of_mem h hedge ?_) hok⟩
  exact (mem_worksAt.mp (List.mem_of_getLast? hw)).1

/-- An op that has failed is left out. -/
theorem tracked_skip (h : Inv p s) (ht : Tracked p s) (hpending : s.worker.pending = [])
    (hedge : s.worker.edge = work :: rest) (hfailed : (work.row, true) ∉ s.worker.results) :
    Tracked p (s.worked rest s.kvs s.worker.results) := by
  refine ht.of_same rfl rfl rfl (fun _ => owed_worked hpending fun _ => id) ?_
  rintro host slug ⟨hnone, w, hw, hok⟩
  refine Or.inr (Or.inr (coming_worked h.inHand hedge (fun _ _ => id) hnone (w := w) ?_ hok))
  rw [worksAt_cons (u := s.worked rest s.kvs s.worker.results) _ hedge rfl] at hw
  split at hw
  · -- the work that is left out was not the last
    rw [List.getLast?_cons, Option.mem_def, Option.some.injEq] at hw
    cases hlast : ((s.worked rest s.kvs s.worker.results).worksAt p
        (linkKey p host slug)).getLast? with
    | none =>
      rw [hlast, Option.getD_none] at hw
      exact absurd (hw ▸ hok) hfailed
    | some w' =>
      rw [hlast, Option.getD_some] at hw
      rw [hw]
      rfl
  · exact hw

/-- **A work of the edge is done at its key**: the store has what the table has, unless another
work is to come there, or its row is run again. -/
theorem right_of_worked (hdates : ReadsDates p) (h : Inv p s)
    (ht : Tracked p s) (hpending : s.worker.pending = []) (hedge : s.worker.edge = work :: rest)
    (hok : (work.row, true) ∈ s.worker.results) {call : Call} {host slug : String}
    (hkey : work.key p = linkKey p host slug) (hkvsKey : work.kvsKey p = kvsKey p host slug)
    (hkvs : kvs =
      if call.landed then Function.update s.kvs (work.kvsKey p) (work.entry p) else s.kvs)
    (hkeep : ∀ r, r ≠ work.row → (r, true) ∈ s.worker.results → (r, true) ∈ results)
    (hle : ∀ r, (r, true) ∈ results → (r, true) ∈ s.worker.results)
    (hfails : call ≠ .answered → (work.row, true) ∉ results)
    (hkept : call = .threw false → work.link = none → ¬ s.Leftover (work.key p)) :
    kvs (kvsKey p host slug) = s.entryAt p host slug ∨
      (∃ item ∈ s.table, item.key = linkKey p host slug ∧
        (s.worked rest kvs results).Owed item.key item.linkId) ∨
      (s.worked rest kvs results).Coming p (linkKey p host slug) := by
  have hnone : ∀ e ∈ s.worker.pending, e.request.key ≠ linkKey p host slug := fun e he =>
    absurd (hpending ▸ he) List.not_mem_nil
  have hvalid : ∀ link ∈ work.link, hasDates link = true := by
    obtain ⟨-, -, row, -, -, hlink⟩ := h.inHand.works work (hedge ▸ List.mem_cons_self)
    exact fun link hmem => (hlink link hmem).2
  have hworks := worksAt_cons (p := p) (u := s.worked rest kvs results) (linkKey p host slug)
    hedge rfl
  rw [if_pos hkey] at hworks
  have hmem : work ∈ s.worksAt p (linkKey p host slug) := hworks ▸ List.mem_cons_self
  cases hlast : ((s.worked rest kvs results).worksAt p (linkKey p host slug)).getLast? with
  | none =>
    -- the last work at the key
    have hw : work ∈ (s.worksAt p (linkKey p host slug)).getLast? := by
      rw [hworks, List.getLast?_eq_none_iff.mp hlast]
      rfl
    have hwritten := (written_of_coming h.inHand hnone hw ⟨work, hmem, hok⟩).1
    cases hlanded : call.landed with
    | true =>
      left
      rw [hkvs, hlanded, if_pos rfl, ← hkvsKey, Function.update_self, State.entryAt, hwritten,
        entry_request hdates hvalid]
    | false =>
      obtain rfl : call = .threw false := by
        cases call with
        | answered => exact nomatch hlanded
        | threw landed => exact congrArg Call.threw hlanded
      obtain rfl : kvs = s.kvs := hkvs
      refine Or.imp_right Or.inl (right_of_dropped (u := s.worked rest s.kvs results) h ht hw
        hwritten (hfails (by simp)) ?_ rfl rfl rfl (owed_worked hpending hle))
      intro hlink
      refine kvs_eq_none (hkey ▸ hkept rfl hlink) ?_
      rw [hwritten, item_request, hlink]
      rfl
  | some w =>
    -- another work is to come
    have hw : w ∈ (s.worksAt p (linkKey p host slug)).getLast? := getLast?_worksAt hedge rfl hlast
    obtain ⟨hwritten, hremoval⟩ := written_of_coming h.inHand hnone hw ⟨work, hmem, hok⟩
    by_cases hwok : (w.row, true) ∈ s.worker.results
    · exact Or.inr (Or.inr (coming_worked h.inHand hedge hkeep hnone hlast hwok))
    · have hwedge := (mem_worksAt.mp (List.mem_of_getLast? hw)).1
      cases hlink : w.link with
      | none => exact absurd (hremoval hlink) hwok
      | some link =>
        rw [item_request, hlink, Option.map_some] at hwritten
        obtain ⟨hitem, hitemKey⟩ := getItem_eq_some hwritten
        refine Or.inr (Or.inl ⟨_, hitem, hitemKey, ?_⟩)
        rcases ht.owned _ hitem with hl | hkept'
        · exact owed_of_work h.inHand hwedge hlink hl rfl rfl fun hres => hwok (hle _ hres)
        · exact owed_worked hpending hle hkept'

theorem tracked_edge (hascii : AsciiCases p) (hdates : ReadsDates p) (h : Inv p s)
    (ht : Tracked p s) {call : Call} {busted : Bool}
    (hkept : Kept p s (.edge call busted)) : Tracked p (s.edge p call busted) := by
  rcases edge_eq p s call busted with
    heq | ⟨work, rest, htodo, hpending, hedge, ⟨hfailed, heq⟩ | ⟨hok, heq⟩⟩
  · rw [heq]
    exact ht
  · rw [heq]
    exact tracked_skip h ht hpending hedge hfailed
  · rw [heq]
    generalize hresults : resultsAfter (if busted then call else .threw true) [work.row]
      s.worker.results = results
    generalize hkvs : (if call.landed then Function.update s.kvs (work.kvsKey p) (work.entry p)
      else s.kvs) = kvs
    have hmem : ∀ {r}, (r, true) ∈ results ↔ (r, true) ∈ s.worker.results ∧
        ((if busted then call else .threw true) = .answered ∨ r ∉ [work.row]) := by
      intro r
      rw [← hresults]
      exact mem_resultsAfter _ _
    have hle : ∀ r, (r, true) ∈ results → (r, true) ∈ s.worker.results := fun r hr => (hmem.mp hr).1
    have hkeep : ∀ r, r ≠ work.row → (r, true) ∈ s.worker.results → (r, true) ∈ results :=
      fun r hne hr => hmem.mpr ⟨hr, Or.inr fun hrow => hne (List.mem_singleton.mp hrow)⟩
    have hfails : call ≠ .answered → (work.row, true) ∉ results := by
      intro hcall hr
      rcases (hmem.mp hr).2 with hanswered | hnot
      · cases busted with
        | true => exact hcall hanswered
        | false => exact absurd hanswered (by simp)
      · exact hnot (List.mem_singleton_self _)
    obtain ⟨-, haddressed, -⟩ := h.inHand.works work (hedge ▸ List.mem_cons_self)
    change Tracked p (s.worked rest kvs results)
    constructor
    · exact fun item hitem => (ht.owned item hitem).imp_right (owed_worked hpending hle)
    · intro host slug
      by_cases hkey : work.key p = linkKey p host slug
      · have hkvsKey : work.kvsKey p = kvsKey p host slug := by
          rw [← slotOf_linkKey, ← hkey]
          exact slotOf_linkKey.symm
        refine right_of_worked hdates h ht hpending hedge hok hkey hkvsKey hkvs.symm hkeep hle
          hfails ?_
        rintro rfl hlink
        exact hkept work (by rw [hedge]; rfl) hlink hok
      · -- no other key has the place of this one
        have hne : kvsKey p host slug ≠ work.kvsKey p := fun heq =>
          hkey (eq_of_kvsKey_eq hascii haddressed (slotOf_linkKey.trans heq.symm))
        have hkvs' : kvs (kvsKey p host slug) = s.kvs (kvsKey p host slug) := by
          rw [← hkvs]
          split
          · exact Function.update_of_ne hne _ _
          · rfl
        change kvs _ = s.entryAt p host slug ∨ _
        rw [hkvs']
        refine (ht.right host slug).imp_right (Or.imp ?_ ?_)
        · exact fun ⟨item, hitem, hitemKey, howed⟩ =>
            ⟨item, hitem, hitemKey, owed_worked hpending hle howed⟩
        · rintro ⟨hnone, w, hw, hwok⟩
          rw [worksAt_cons (u := s.worked rest kvs results) _ hedge rfl, if_neg hkey] at hw
          exact coming_worked h.inHand hedge hkeep hnone hw hwok

end

theorem tracked_act (hascii : AsciiCases p) (hdates : ReadsDates p) (h : Inv p s)
    (ht : Tracked p s) (a : Action) (hkept : Kept p s a) : Tracked p (act p s a) := by
  cases a with
  | create l =>
    rw [act]
    split
    · exact tracked_enqueue h.inHand ht (remain_create l _)
    · exact ht
  | update link =>
    rw [act]
    split
    · exact tracked_enqueue h.inHand ht (remain_update link _)
    · exact ht
  | delete linkId =>
    rw [act]
    split
    · exact tracked_enqueue h.inHand ht (remain_delete linkId)
    · exact ht
  | claim rows =>
    rw [act]
    split
    · next hon => exact tracked_claim ht hon.1 rows
    · exact ht
  | resolve => exact tracked_resolve hascii h ht
  | resolveFails => exact tracked_resolveFails h ht
  | write call => exact tracked_write h ht hkept
  | metaFails r => exact tracked_metaFails h ht r
  | edge call busted => exact tracked_edge hascii hdates h ht hkept
  | mark => exact tracked_mark ht
  | die => exact tracked_die h ht hkept
  | tick ms => exact ⟨ht.owned, ht.right⟩

end

/-! ### Every run -/

theorem inv_start (p : Platform) : Inv p start := by
  have hplaced : ∀ linkId key, ¬ start.Placed p linkId key := by
    rintro linkId key (⟨item, hitem, -⟩ | ⟨l, hl, -⟩ | ⟨e, he, -⟩)
    · exact List.not_mem_nil hitem
    · exact List.not_mem_nil hl
    · exact List.not_mem_nil he
  refine ⟨⟨List.nodup_nil, fun _ _ _ hk => absurd hk (hplaced _ _),
    fun _ _ hk => absurd hk (hplaced _ _), fun _ hl => absurd hl List.not_mem_nil,
    fun _ hrow => absurd hrow List.not_mem_nil⟩, ?_⟩
  exact InHand.of_nil rfl rfl List.nodup_nil fun _ hr => absurd hr List.not_mem_nil

theorem tracked_start (p : Platform) : Tracked p start :=
  ⟨fun _ hitem => absurd hitem List.not_mem_nil, fun _ _ => Or.inl rfl⟩

/-- Once every row was processed, nothing is to be run, and the edge is done. -/
theorem agree_of_tracked {p : Platform} {s : State} (h : Inv p s) (ht : Tracked p s)
    (hdrained : Drained s) : Agree p s := by
  have howed : ∀ {key linkId}, ¬ s.Owed key linkId := by
    rintro key linkId ⟨r, row, hrow, -, hprocessed, -⟩
    exact absurd ((hdrained row (List.mem_of_getElem? hrow)).symm.trans hprocessed) (by simp)
  refine ⟨fun host slug => ?_, fun row hrow hdelete item hitem hid => ?_⟩
  · rcases ht.right host slug with hright | ⟨item, -, -, hkept⟩ | ⟨-, w, hw, hok⟩
    · exact hright
    · exact absurd hkept howed
    · obtain ⟨row, hrow, hprocessed⟩ := h.inHand.claimed w.row
        (List.mem_append_right _ (List.mem_map_of_mem hok))
      exact absurd ((hdrained row (List.mem_of_getElem? hrow)).symm.trans hprocessed) (by simp)
  · rcases ht.owned item hitem with ⟨l, hl, hlid⟩ | hkept
    · exact h.stored.gone row hrow hdelete l hl (hlid.trans hid)
    · exact howed hkept

/-- **Whenever every outbox row was processed, the store has what the table has an edge-eligible
link for, and nothing else**, in every run that cuts no removal short. -/
theorem agree_of_kept (p : Platform) (hascii : AsciiCases p) (hdates : ReadsDates p)
    (as : List Action) (hkept : Guarded (step p) (Kept p) start as) :
    ∀ pre post s, as = pre ++ post → run (step p) start pre = some s → Drained s → Agree p s := by
  rintro pre post s rfl hrun hdrained
  have hboth : Inv p s ∧ Tracked p s := by
    refine invariant_of_guarded (I := fun s => Inv p s ∧ Tracked p s) ?_ pre _ s
      ⟨inv_start p, tracked_start p⟩ (guarded_append.mp hkept).1 hrun
    intro s a s' h hg hs'
    obtain rfl := Option.some.inj hs'
    exact ⟨inv_act hascii h.1 a, tracked_act hascii hdates h.1 h.2 a hg⟩
  exact agree_of_tracked hboth.1 hboth.2 hdrained

/-! ### An entry that outlives its link -/

instance (s : State) : Decidable (Drained s) :=
  inferInstanceAs (Decidable (∀ row ∈ s.outbox, row.processed = true))

instance (s : State) (key : String × String) : Decidable (s.Leftover key) :=
  inferInstanceAs (Decidable (_ ∧ _))

instance (p : Platform) (s : State) (a : Action) : Decidable (Kept p s a) :=
  match a with
  | .write (.threw true) => inferInstanceAs (Decidable (∀ e ∈ s.worker.pending.head?,
      e.request.item? = none → s.kvs (slotOf e.request.key) = none))
  | .edge (.threw false) _ => inferInstanceAs (Decidable (∀ w ∈ s.worker.edge.head?,
      w.link = none → (w.row, true) ∈ s.worker.results → ¬ s.Leftover (w.key p)))
  | .die => inferInstanceAs (Decidable (∀ w ∈ s.worker.edge,
      w.link = none → ¬ s.Leftover (w.key p)))
  | .write .answered | .write (.threw false) | .edge .answered _ | .edge (.threw true) _
  | .create _ | .update _ | .delete _ | .claim _ | .resolve | .resolveFails | .metaFails _ | .mark
  | .tick _ => isTrue trivial

/-- The text of a value of the store. -/
def stringifyEntry : Json → String
  | .obj [("destination", .str destination), ("redirectType", .str redirectType)] =>
    "\x7b\"destination\":\"" ++ destination ++ "\",\"redirectType\":\"" ++ redirectType ++ "\"\x7d"
  | _ => ""

theorem plainUrl_base_clean :
    NoDelimiter ("https:" ++ "//" ++
      (if "" = "" then "example.com" else "example.com" ++ ":" ++ "") ++ "/") := by
  decide

/-- `https://example.com/`, parsed. -/
def plainUrl : Url where
  protocol := "https:"
  authority := "//"
  hostname := "example.com"
  port := ""
  pathname := "/"
  query := none
  fragment := none
  base_clean := plainUrl_base_clean
  query_clean := Url.query_clean_none

/-- A runtime for ASCII texts that knows one URL, with the dates of the language. -/
def plainPlatform : Platform where
  toLowerCase s := String.ofList (s.toList.map Char.toLower)
  toUpperCase s := String.ofList (s.toList.map Char.toUpper)
  parseUrl s := if s = "https://example.com/" then some plainUrl else none
  parseDate := IsoDate.parseDate
  toISOString := IsoDate.toISOString
  parseJson _ := none
  stringifyJson := stringifyEntry
  hmacSha256Hex _ _ := ""
  verifyToken _ _ := none

theorem asciiCases_plainPlatform : AsciiCases plainPlatform := fun _ _ => ⟨rfl, rfl⟩

theorem readsDates_plainPlatform : ReadsDates plainPlatform := by
  intro t hlow hhigh
  dsimp only [plainPlatform]
  exact IsoDate.parseDate_toISOString hlow hhigh

/-- A link that the edge answers. -/
def plainLink : PgLink where
  link :=
    { id := "a", workspaceId := "w", destination := "https://example.com/", redirectType := .r302
      rules := [], expiresAt := none, expiresTo := none, activatesAt := none, scheduledTo := none
      clickLimit := none, clicks := 0, hasPassword := false, forwardQuery := false
      deepLink := false, hideReferrer := false, publicPreview := false, archived := false
      disabled := false, ownerUnverified := false, safeBrowsingStatus := "clean", utm := none }
  host := "go.example.com"
  slug := "x"
  live := true

/-- What the store has for it. -/
def plainEntry : String :=
  "\x7b\"destination\":\"https://example.com/\",\"redirectType\":\"302\"\x7d"

/-- A row is claimed, read and written, the edge's work comes to `call`, and the row is marked. -/
def drainWith (row : Nat) (call : Call) : List Action :=
  [.claim [row], .resolve, .write .answered, .edge call true, .mark]

/-- A link is published, and is removed at the second try: the first did not reach the table. -/
def removedLater : List Action :=
  Action.create plainLink :: drainWith 0 .answered ++
    [Action.delete "a", .claim [1], .resolve, .write (.threw false), .edge .answered true, .mark] ++
    drainWith 1 .answered

theorem agree_removedLater :
    ∃ s, run (step plainPlatform) start removedLater = some s ∧ Drained s ∧
      Agree plainPlatform s := by
  have hrun : ((run (step plainPlatform) start removedLater).any fun s => Drained s) = true := by
    decide +kernel
  obtain ⟨s, hrun, hs⟩ := (Option.any_eq_true _ _).mp hrun
  have hdrained : Drained s := of_decide_eq_true hs
  exact ⟨s, hrun, hdrained, agree_of_kept plainPlatform asciiCases_plainPlatform
    readsDates_plainPlatform removedLater (by decide +kernel) removedLater [] s
    (List.append_nil _).symm hrun hdrained⟩

/-- The table has lost the item when the store does not answer, and the row is run again. -/
def removedTwice : List Action :=
  .create plainLink :: drainWith 0 .answered ++ .delete "a" :: drainWith 1 (.threw false) ++
    drainWith 1 .answered

/-- **Every outbox row was processed, and the edge still answers for a link that was deleted.** -/
theorem entry_outlives_link :
    (∃ s, run (step plainPlatform) start removedTwice = some s ∧ Drained s ∧ s.links = [] ∧
      s.table = [] ∧ s.kvs "go.example.com/x" = some plainEntry) ∧
    ¬ ∀ (p : Platform), AsciiCases p → ReadsDates p → ∀ (as : List Action) (s : State),
      run (step p) start as = some s → Drained s → Agree p s := by
  have hrun : ((run (step plainPlatform) start removedTwice).any fun s =>
      Drained s ∧ s.links = [] ∧ s.table = [] ∧
        s.kvs "go.example.com/x" = some plainEntry) = true := by
    decide +kernel
  obtain ⟨s, hrun, hs⟩ := (Option.any_eq_true _ _).mp hrun
  obtain ⟨hdrained, hlinks, htable, hkvs⟩ := of_decide_eq_true hs
  refine ⟨⟨s, hrun, hdrained, hlinks, htable, hkvs⟩, fun h => ?_⟩
  have hagree := (h plainPlatform asciiCases_plainPlatform readsDates_plainPlatform removedTwice s
    hrun hdrained).1 "go.example.com" "x"
  have hkey : kvsKey plainPlatform "go.example.com" "x" = "go.example.com/x" := by decide +kernel
  rw [hkey, hkvs, State.entryAt, htable] at hagree
  exact Option.some_ne_none _ hagree

end SnapUrl.Projection.EdgeStore
