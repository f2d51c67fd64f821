import SnapUrl.Lib.IsoDate
import SnapUrl.Projection.MetaRegister
import SnapUrl.Projection.RegistrationRows

/-!
# Whether the domain items converge

* `Genuine`: what a worker holds or the table has is a state that a row was committed in, or the
  tombstone of a row that is gone.
* `Landed`: the table has what an op of a registration would write now, or something newer.
  `Unsettled`: an outbox row that will see to it, whoever has read it already.
* `Tracked`: either holds of every registration, or there is nothing to write of it (`Quiet`).
* `domain_meta_converges`: **when every outbox row was processed, a host's item serves what its
  row does**, whatever registrations it has had.
-/

namespace SnapUrl.Projection.Registrations

open Lib Domain

/-! ### Items -/

/-- What a domain op writes of a row. -/
def DomainRow.item (p : Platform) (row : DomainRow) : DomainItem :=
  toDomainItem p row.domain
    { id := row.id
      rootRedirect := if row.status = .live then row.rootRedirect else none
      notFoundRedirect := if row.status = .live then row.notFoundRedirect else none }
    (some (p.toISOString row.instant)) false

/-- What a domain op writes once the row is gone. -/
def DomainRow.tombstone (p : Platform) (row : DomainRow) : DomainItem :=
  toDomainItem p row.domain { id := row.id, rootRedirect := none, notFoundRedirect := none }
    none true

/-- What a domain op of a registration writes now. -/
def target (p : Platform) (domains : List DomainRow) (row : DomainRow) : DomainItem :=
  ((domains.find? fun r => r.id = row.id).map (DomainRow.item p)).getD (row.tombstone p)

/-- Both redirects of an item. -/
def redirects (item : DomainItem) : Option String × Option String :=
  (item.rootRedirect, item.notFoundRedirect)

/-- The redirects that the redirect reads of a host. -/
def served (p : Platform) (s : State) (host : String) : Option String × Option String :=
  ((s.metas (metaKey p host)).map redirects).getD (none, none)

/-- The redirects that a host's row has, if it is live. -/
def wanted (p : Platform) (s : State) (host : String) : Option String × Option String :=
  ((s.domains.find? fun row => metaKey p row.domain = metaKey p host).map fun row =>
    if row.status = .live then (row.rootRedirect, row.notFoundRedirect) else (none, none)).getD
    (none, none)

/-! ### What is claimed of a run -/

def Drained (s : State) : Prop := ∀ row ∈ s.outbox, row.processed = true

instance (s : State) : Decidable (Drained s) := inferInstanceAs (Decidable (∀ _ ∈ _, _))

/-- The texts of versions compare as the instants do. -/
def IsoOrdered (p : Platform) (history : List DomainRow) : Prop :=
  ∀ a ∈ history, ∀ b ∈ history, a.instant < b.instant →
    p.toISOString a.instant < p.toISOString b.instant

instance (p : Platform) (history : List DomainRow) : Decidable (IsoOrdered p history) :=
  inferInstanceAs (Decidable (∀ _ ∈ _, ∀ _ ∈ _, _ → _))

/-- The registrations of a host, by their ids: one was there before the other. -/
def Before (p : Platform) (history : List DomainRow) (x y : String) : Prop :=
  x ≠ y ∧ ∃ a b, [a, b].Sublist history ∧ metaKey p a.domain = metaKey p b.domain ∧
    a.id = x ∧ b.id = y

/-- No item gives way to one of an earlier registration of its host. -/
def KeepsLater (p : Platform) (s s' : State) : Prop :=
  ∀ key item, s.metas key = some item →
    ∃ item', s'.metas key = some item' ∧ ¬ Before p s.history item'.id item.id

/-- What holds of every state that is reached. -/
structure Converges (p : Platform) (s : State) : Prop where
  /-- **When every outbox row was processed, a host serves what its row says.** -/
  agrees : Drained s → ∀ host, served p s host = wanted p s host
  /-- And the item of a live domain is the row's, with its id and its version. -/
  item : Drained s → ∀ row ∈ s.domains, row.status = .live → row.isSystem = false →
    s.metas (metaKey p row.domain) = some (row.item p)
  /-- **The versions of a row grow from commit to commit**, as a `Date` has them too. -/
  versions : s.history.Pairwise fun a b =>
    a.id = b.id → a.updatedAt < b.updatedAt ∧ a.instant < b.instant
  later : ∀ a s', step p s a = some s' → KeepsLater p s s'

/-! ### What an op writes -/

section

variable {p : Platform} {domains history : List DomainRow} {row : DomainRow}

theorem target_cases (p : Platform) (domains : List DomainRow) (row : DomainRow) :
    (∃ r ∈ domains, r.id = row.id ∧ target p domains row = r.item p) ∨
      (∀ r ∈ domains, r.id ≠ row.id) ∧ target p domains row = row.tombstone p := by
  rw [target]
  cases hfind : domains.find? fun r => r.id = row.id with
  | none => exact Or.inr ⟨fun r hr => by simpa using List.find?_eq_none.mp hfind r hr, rfl⟩
  | some r =>
    exact Or.inl ⟨r, List.mem_of_find?_eq_some hfind, by simpa using List.find?_some hfind, rfl⟩

theorem target_of_mem (h : Rows p domains history) {r : DomainRow} (hr : r ∈ domains)
    (hid : r.id = row.id) : target p domains row = r.item p := by
  rcases target_cases p domains row with ⟨r', hr', hid', heq⟩ | ⟨hgone, -⟩
  · rw [heq, h.eq_of_id hr' hr (hid'.trans hid.symm)]
  · exact absurd hid (hgone r hr)

theorem target_of_gone (h : ∀ r ∈ domains, r.id ≠ row.id) :
    target p domains row = row.tombstone p := by
  rcases target_cases p domains row with ⟨r, hr, hid, -⟩ | ⟨-, heq⟩
  · exact absurd hid (h r hr)
  · exact heq

/-- It changes only where the row does. -/
theorem target_congr {domains' history' : List DomainRow} (h' : Rows p domains' history')
    (hsame : ∀ r, r.id = row.id → (r ∈ domains' ↔ r ∈ domains)) :
    target p domains' row = target p domains row := by
  rcases target_cases p domains row with ⟨r, hr, hid, heq⟩ | ⟨hgone, heq⟩
  · rw [heq, target_of_mem h' ((hsame r hid).mpr hr) hid]
  · rw [heq, target_of_gone fun r hr hid => hgone r ((hsame r hid).mp hr) hid]

theorem tombstone_wellFormed : (row.tombstone p).WellFormed := rfl

theorem item_wellFormed : (row.item p).WellFormed := rfl

/-- What a worker may hold, or the table have. -/
def Genuine (p : Platform) (domains history : List DomainRow) (item : DomainItem) : Prop :=
  ∃ row ∈ history, item = row.item p ∨ item = row.tombstone p ∧ ∀ r ∈ domains, r.id ≠ row.id

theorem Genuine.wellFormed {item : DomainItem} (h : Genuine p domains history item) :
    item.WellFormed := by
  obtain ⟨row, -, rfl | ⟨rfl, -⟩⟩ := h
  · exact item_wellFormed
  · exact tombstone_wellFormed

theorem genuine_target (h : Rows p domains history) (hrow : row ∈ history) :
    Genuine p domains history (target p domains row) := by
  rcases target_cases p domains row with ⟨r, hr, -, heq⟩ | ⟨hgone, heq⟩
  · exact ⟨r, h.committed r hr, Or.inl heq⟩
  · exact ⟨row, hrow, Or.inr ⟨heq, hgone⟩⟩

/-- Ids are not used again, so what was genuine stays so. -/
theorem Genuine.change {domains' history' : List DomainRow} {ops : List Batch.ProjectionOp}
    (hc : RowChange p domains history domains' history' ops) {item : DomainItem}
    (h : Genuine p domains history item) : Genuine p domains' history' item := by
  obtain ⟨row, hrow, hitem⟩ := h
  refine ⟨row, hc.history_subset hrow, hitem.imp_right fun ⟨heq, hgone⟩ => ⟨heq, ?_⟩⟩
  cases hc with
  | same => exact hgone
  | insert new _ _ _ hid =>
    exact List.forall_mem_append.mpr
      ⟨hgone, List.forall_mem_singleton.mpr (Ne.symm (hid row hrow).1)⟩
  | store old new hold hid =>
    intro r hr
    rcases mem_store hr with rfl | ⟨hr, -⟩
    · exact hid ▸ hgone old hold
    · exact hgone r hr
  | remove => exact fun r hr => hgone r (List.mem_of_mem_filter hr)

end

section

variable {p : Platform} {s : State} {row : DomainRow}

theorem find?_postgres (s : State) (id : String) :
    (s.postgres.domains.find? fun d => d.id = id) =
      (s.find id).map DomainRow.toPgDomain := by
  rw [State.postgres, List.find?_map]
  rfl

/-- **A domain op writes its registration's item.** -/
theorem metaOf_domainProjectionOp (h : GoodHost p row.domain) :
    s.metaOf p (domainProjectionOp p row.id row.domain) = some (target p s.domains row) := by
  have hmeta : s.metaOf p (domainProjectionOp p row.id row.domain) =
      buildDomainMeta p s.postgres.domains row.id (some (normaliseHost p row.domain)) := rfl
  rw [hmeta, buildDomainMeta, find?_postgres, target, ← State.find]
  cases s.find row.id with
  | some r => simp [DomainRow.item, DomainRow.toPgDomain, versionOf]
  | none =>
    have htruthy : truthy (some (normaliseHost p row.domain)) = true := decide_eq_true h.ne_empty
    have hpk : domainPk p (normaliseHost p row.domain) = domainPk p row.domain :=
      congrArg Prod.fst h.metaKey_normaliseHost
    simp [htruthy, DomainRow.tombstone, toDomainItem, hpk]

theorem genuine_upsertMetaOf (h : Rows p s.domains s.history) {linkId : String} {item : DomainItem}
    (hitem : Batch.upsertMetaOf p s.postgres linkId = some item) :
    Genuine p s.domains s.history item := by
  rw [Batch.upsertMetaOf] at hitem
  split at hitem
  · cases hitem
  · next l hl =>
    split at hitem
    · cases hitem
    · next hlive =>
      obtain ⟨l', -, hmap⟩ := List.mem_filterMap.mp (List.mem_of_find?_eq_some hl)
      obtain ⟨r, hr, rfl⟩ := Option.map_eq_some_iff.mp hmap
      have hstatus : r.status = .live := by simpa [DomainRow.toPgDomain] using hlive
      refine ⟨r, h.committed r (List.mem_of_find?_eq_some hr), Or.inl ?_⟩
      rw [← Option.some.inj hitem]
      simp [DomainRow.item, upsertMeta, DomainRow.toPgDomain, versionOf, hstatus]

/-- **Whatever an op resolves to is genuine.** -/
theorem genuine_metaOf (h : Rows p s.domains s.history) {op : Batch.ProjectionOp}
    (hop : OpOf p s.history op) {item : DomainItem} (hitem : s.metaOf p op = some item) :
    Genuine p s.domains s.history item := by
  by_cases hdomain : op.operation = Batch.domainOp
  · obtain ⟨row, hrow, hid, hhost⟩ := hop hdomain
    have heq : op = domainProjectionOp p row.id row.domain := by
      obtain ⟨linkId, operation, host⟩ := op
      cases hdomain
      cases hid
      cases hhost
      rfl
    rw [heq, metaOf_domainProjectionOp (h.hosts row hrow)] at hitem
    exact Option.some.inj hitem ▸ genuine_target h hrow
  · rw [State.metaOf, Batch.resolve, if_neg hdomain] at hitem
    split at hitem
    · cases hitem
    · exact genuine_upsertMetaOf h hitem

end

/-! ### Writes -/

section

variable {p : Platform} {metas : Metas} {w : Worker} {n : Nat} {item : DomainItem}

/-- The table has the item, or a newer one at its key. -/
def Landed (metas : Metas) (item : DomainItem) : Prop :=
  ∃ x, metas item.key = some x ∧ item.rank ≤ x.rank

/-- A worker has a write for the key of the item that is not older, and that its row `n`
contributed to. -/
def InHand (w : Worker) (n : Nat) (item : DomainItem) : Prop :=
  ∃ e, metaAt w.metas item.key = some e ∧ n ∈ e.owners ∧ item.rank ≤ e.item.rank

/-- A worker that will mark row `n` as processed has seen to the item. -/
def Safe (metas : Metas) (n : Nat) (item : DomainItem) (w : Worker) : Prop :=
  (n, true) ∈ w.results → Landed metas item ∨ InHand w n item

theorem mem_of_metaAt {metas : List MetaWrite} {key : String × String} {e : MetaWrite}
    (h : metaAt metas key = some e) : e ∈ metas ∧ e.item.key = key :=
  ⟨List.mem_of_find?_eq_some h, by simpa using List.find?_some h⟩

theorem item_of_mem_addMeta {owner : Nat} {metas : List MetaWrite} {x : DomainItem} {e : MetaWrite}
    (h : e ∈ addMeta owner metas x) : e.item = x ∨ ∃ e' ∈ metas, e.item = e'.item := by
  rw [addMeta] at h
  split at h
  · obtain ⟨e', he', rfl⟩ := List.mem_map.mp h
    split
    · dsimp only
      split
      · exact Or.inl rfl
      · exact Or.inr ⟨e', he', rfl⟩
    · exact Or.inr ⟨e', he', rfl⟩
  · rcases mem_concat h with h | rfl
    · exact Or.inr ⟨e, h, rfl⟩
    · exact Or.inl rfl

theorem rank_le_newer (x y : DomainItem) :
    x.rank ≤ (if supersedes x y then x else y).rank ∧
      y.rank ≤ (if supersedes x y then x else y).rank := by
  split
  · next hsup => exact ⟨le_rfl, supersedes_iff.mp hsup⟩
  · next hnot =>
    exact ⟨(le_total _ _).resolve_right fun hle => hnot (supersedes_iff.mpr hle), le_rfl⟩

/-- A key keeps the newer item, and all who contributed. -/
theorem metaAt_addMeta_self (owner : Nat) (metas : List MetaWrite) (x : DomainItem) :
    ∃ e, metaAt (addMeta owner metas x) x.key = some e ∧ owner ∈ e.owners ∧
      x.rank ≤ e.item.rank ∧
      ∀ e', metaAt metas x.key = some e' → e'.item.rank ≤ e.item.rank ∧ e'.owners ⊆ e.owners := by
  rw [metaAt_addMeta metas (owner, x), if_pos rfl, mergeMeta]
  cases hold : metaAt metas x.key with
  | none => exact ⟨_, rfl, List.mem_singleton_self owner, le_rfl, fun e' he' => by cases he'⟩
  | some e =>
    refine ⟨_, rfl, List.mem_append_right _ (List.mem_singleton_self owner),
      (rank_le_newer x e.item).1, fun e' he' => ?_⟩
    obtain rfl := Option.some.inj he'
    exact ⟨(rank_le_newer x e.item).2, List.subset_append_left _ _⟩

theorem InHand.addMeta (h : InHand w n item) {rowId : Nat} {x : DomainItem} {w' : Worker}
    (hw' : w'.metas = addMeta rowId w.metas x) : InHand w' n item := by
  obtain ⟨e, he, howner, hle⟩ := h
  by_cases hkey : x.key = item.key
  · obtain ⟨e', he', -, -, hall⟩ := metaAt_addMeta_self rowId w.metas x
    obtain ⟨hle', hsub⟩ := hall e (hkey ▸ he)
    exact ⟨e', by rw [hw', ← hkey, he'], hsub howner, hle.trans hle'⟩
  · refine ⟨e, ?_, howner, hle⟩
    rw [hw', metaAt_addMeta w.metas (rowId, x), if_neg hkey]
    exact he

theorem metaAt_done {key k : String × String} :
    metaAt (w.done key).metas k = if k = key then none else metaAt w.metas k :=
  @MetaRegister.metaAt_done ⟨[], w.metas, []⟩ key k

theorem InHand.done (h : InHand w n item) {key : String × String} (hkey : item.key ≠ key) :
    ∀ results, InHand { w.done key with results := results } n item := by
  obtain ⟨e, he, howner, hle⟩ := h
  refine fun results => ⟨e, ?_, howner, hle⟩
  rw [metaAt_done, if_neg hkey]
  exact he

/-- A write takes nothing away. -/
theorem Landed.write (h : Landed metas item) {x : DomainItem} (hx : x.WellFormed)
    (hstored : ∀ s ∈ metas x.key, s.WellFormed) : Landed (writeMeta p metas x) item := by
  obtain ⟨y, hy, hle⟩ := h
  rw [Landed, MetaRegister.writeMeta_keepGreatest hx hstored]
  split
  · rw [hy, keepGreatest_supersedes]
    exact ⟨_, rfl, hle.trans (rank_le_newer x y).2⟩
  · exact ⟨y, hy, hle⟩

theorem landed_write {x : DomainItem} (hx : x.WellFormed)
    (hstored : ∀ s ∈ metas x.key, s.WellFormed) (hkey : x.key = item.key)
    (hle : item.rank ≤ x.rank) : Landed (writeMeta p metas x) item := by
  rw [Landed, MetaRegister.writeMeta_keepGreatest hx hstored, if_pos hkey]
  cases metas item.key with
  | none => exact ⟨x, rfl, hle⟩
  | some y =>
    rw [keepGreatest_supersedes]
    exact ⟨_, rfl, hle.trans (rank_le_newer x y).1⟩

end

/-! ### What holds along a run -/

/-- What a worker has is genuine, and its rows are rows of the outbox. -/
structure WorkerInv (p : Platform) (s : State) (w : Worker) : Prop where
  items : ∀ e ∈ w.metas, Genuine p s.domains s.history e.item
  rows : ∀ n ∈ w.todo ++ w.results.map Prod.fst, n < s.outbox.length

structure Inv (p : Platform) (s : State) : Prop where
  rows : Rows p s.domains s.history
  calls : ∀ call ∈ s.calls, call.Valid s.history
  ops : ∀ row ∈ s.outbox, OpOf p s.history row.op
  stored : ∀ key item, s.metas key = some item →
    item.key = key ∧ Genuine p s.domains s.history item
  workers : ∀ w ∈ s.workers, WorkerInv p s w

/-- Nothing has to be written of a row that is not live, or is the system's, as none of its
states serves a redirect. -/
def Quiet (p : Platform) (s : State) (row : DomainRow) : Prop :=
  (∃ r ∈ s.domains, r.id = row.id ∧ (r.isSystem = true ∨ r.status ≠ .live)) ∧
    ∀ a ∈ s.history, a.id = row.id → redirects (a.item p) = (none, none)

/-- Outbox row `n` is about the registration, and nobody will mark it as processed before the
table has what it asks for. -/
structure Unsettled (p : Platform) (s : State) (row : DomainRow) (n : Nat) : Prop where
  pending : ∃ o, s.outbox[n]? = some o ∧ o.op = domainProjectionOp p row.id row.domain ∧
    o.processed = false
  workers : ∀ w ∈ s.workers, Safe s.metas n (target p s.domains row) w

/-- **A registration's item is in the table, or an outbox row will bring it there.** -/
def Tracked (p : Platform) (s : State) (row : DomainRow) : Prop :=
  Quiet p s row ∨ Landed s.metas (target p s.domains row) ∨ ∃ n, Unsettled p s row n

section

variable {p : Platform} {s s' : State} {row : DomainRow} {i : Nat} {w w' : Worker}

theorem Inv.stored_wellFormed (h : Inv p s) {key : String × String} :
    ∀ x ∈ s.metas key, x.WellFormed :=
  fun x hx => (h.stored key x hx).2.wellFormed

theorem WorkerInv.mono (h : WorkerInv p s w) (hdomains : s'.domains = s.domains)
    (hhistory : s'.history = s.history) (hlength : s.outbox.length ≤ s'.outbox.length) :
    WorkerInv p s' w :=
  ⟨fun e he => by rw [hdomains, hhistory]; exact h.items e he,
    fun n hn => lt_of_lt_of_le (h.rows n hn) hlength⟩

/-- Steps that leave the rows alone. -/
theorem Tracked.frame (h : Tracked p s row) (hdomains : s'.domains = s.domains)
    (hhistory : s'.history = s.history)
    (hlanded : Landed s.metas (target p s.domains row) → Landed s'.metas (target p s.domains row))
    (hunsettled : ∀ n, Unsettled p s row n →
      Landed s'.metas (target p s.domains row) ∨ Unsettled p s' row n) : Tracked p s' row := by
  rw [Tracked, Quiet, hdomains, hhistory]
  rcases h with hquiet | hland | ⟨n, hn⟩
  · exact Or.inl hquiet
  · exact Or.inr (Or.inl (hlanded hland))
  · exact Or.inr ((hunsettled n hn).imp_right fun hn' => ⟨n, hn'⟩)

/-- Worker `i` goes on as `w'`, which has seen to what `w` had seen to. -/
theorem tracked_setWorker (h : Tracked p s row)
    (hsafe : ∀ n, Unsettled p s row n → Safe s.metas n (target p s.domains row) w') :
    Tracked p (s.setWorker i w') row := by
  refine h.frame rfl rfl id fun n hn => Or.inr ⟨hn.pending, fun x hx => ?_⟩
  rcases List.mem_or_eq_of_mem_set hx with hx | rfl
  · exact hn.workers x hx
  · exact hsafe n hn

theorem inv_setWorker (h : Inv p s) (hw' : WorkerInv p s w') : Inv p (s.setWorker i w') where
  rows := h.rows
  calls := h.calls
  ops := h.ops
  stored := h.stored
  workers x hx := by
    rcases List.mem_or_eq_of_mem_set hx with hx | rfl
    · exact (h.workers x hx).mono rfl rfl le_rfl
    · exact hw'.mono rfl rfl le_rfl

/-! ### What each step keeps -/

/-- What holds of every state that is reached. -/
def Kept (p : Platform) (s : State) : Prop := Inv p s ∧ ∀ row ∈ s.history, Tracked p s row

theorem kept_setWorker (h : Kept p s) (hw' : WorkerInv p s w')
    (hsafe : ∀ row ∈ s.history, ∀ n, Unsettled p s row n →
      Safe s.metas n (target p s.domains row) w') : Kept p (s.setWorker i w') :=
  ⟨inv_setWorker h.1 hw', fun row hrow => tracked_setWorker (h.2 row hrow) (hsafe row hrow)⟩

theorem workerInv_read (h : Inv p s) (hw : WorkerInv p s w) {rowId : Nat} {o : Row}
    (ho : s.outbox[rowId]? = some o) : WorkerInv p s (w.read rowId (s.metaOf p o.op)) := by
  have hop : OpOf p s.history o.op := h.ops o (List.mem_of_getElem? ho)
  refine ⟨fun e he => ?_, fun n hn => ?_⟩
  · change e ∈ collectMeta rowId w.metas (s.metaOf p o.op) at he
    cases hmeta : s.metaOf p o.op with
    | none =>
      rw [hmeta] at he
      exact hw.items e he
    | some x =>
      rw [hmeta] at he
      rcases item_of_mem_addMeta he with heq | ⟨e', he', heq⟩
      · exact heq ▸ genuine_metaOf h.rows hop hmeta
      · exact heq ▸ hw.items e' he'
  · change n ∈ w.todo.drop 1 ++ (w.results ++ [(rowId, true)]).map Prod.fst at hn
    rw [List.map_append, List.mem_append, List.mem_append] at hn
    rcases hn with hn | hn | hn
    · exact hw.rows n (List.mem_append_left _ (List.mem_of_mem_drop hn))
    · exact hw.rows n (List.mem_append_right _ hn)
    · rw [List.mem_singleton.mp hn]
      exact (List.getElem?_eq_some_iff.mp ho).1

/-- **A row that is read after a change has the item of that change.** -/
theorem safe_read (h : Inv p s) (hrow : row ∈ s.history) {rowId n : Nat} {o : Row}
    (hw : Safe s.metas n (target p s.domains row) w) (ho : s.outbox[rowId]? = some o)
    (hn : Unsettled p s row n) :
    Safe s.metas n (target p s.domains row) (w.read rowId (s.metaOf p o.op)) := by
  intro hmem
  by_cases hrowId : n = rowId
  · subst hrowId
    obtain ⟨o', ho', hop, -⟩ := hn.pending
    obtain rfl := Option.some.inj (ho.symm.trans ho')
    have hmeta : s.metaOf p o.op = some (target p s.domains row) :=
      hop ▸ metaOf_domainProjectionOp (h.rows.hosts row hrow)
    obtain ⟨e, he, howner, hle, -⟩ := metaAt_addMeta_self n w.metas (target p s.domains row)
    refine Or.inr ⟨e, ?_, howner, hle⟩
    change metaAt (collectMeta n w.metas (s.metaOf p o.op)) _ = some e
    rw [hmeta]
    exact he
  · have hold : (n, true) ∈ w.results := by
      rcases mem_concat hmem with hmem | heq
      · exact hmem
      · exact absurd (congrArg Prod.fst heq) hrowId
    refine (hw hold).imp_right fun hhand => ?_
    cases hmeta : s.metaOf p o.op with
    | none => exact hhand
    | some x => exact hhand.addMeta rfl

theorem kept_read (h : Kept p s) (hw : s.workers[i]? = some w) {rowId : Nat} {o : Row}
    (ho : s.outbox[rowId]? = some o) :
    Kept p (s.setWorker i (w.read rowId (s.metaOf p o.op))) := by
  have hmem := List.mem_of_getElem? hw
  exact kept_setWorker h (workerInv_read h.1 (h.1.workers w hmem) ho) fun row hrow n hn =>
    safe_read h.1 hrow (hn.workers w hmem) ho hn

theorem kept_readFails (h : Kept p s) (hw : s.workers[i]? = some w) {rowId : Nat}
    (htodo : w.todo.head? = some rowId) :
    Kept p (s.setWorker i
      { w with todo := w.todo.drop 1, results := w.results ++ [(rowId, false)] }) := by
  have hmem := List.mem_of_getElem? hw
  have hinv := h.1.workers w hmem
  refine kept_setWorker h ⟨hinv.items, fun n hn => ?_⟩ fun row hrow n hn hres => ?_
  · rw [List.map_append, List.mem_append, List.mem_append] at hn
    rcases hn with hn | hn | hn
    · exact hinv.rows n (List.mem_append_left _ (List.mem_of_mem_drop hn))
    · exact hinv.rows n (List.mem_append_right _ hn)
    · rw [List.mem_singleton.mp hn]
      exact hinv.rows rowId (List.mem_append_left _ (List.mem_of_mem_head? htodo))
  · rcases mem_concat hres with hres | heq
    · exact hn.workers w hmem hres
    · exact absurd (congrArg Prod.snd heq) (Bool.false_ne_true ∘ Eq.symm)

/-- **A write that was answered has landed what its row asks for.** -/
theorem kept_write (h : Kept p s) (hw : s.workers[i]? = some w) {key : String × String}
    {e : MetaWrite} (he : metaAt w.metas key = some e) (again : Bool) :
    Kept p { s.setWorker i (if again then w else w.done key) with
      metas := writeMeta p s.metas e.item } := by
  have hmem := List.mem_of_getElem? hw
  have hinv := h.1.workers w hmem
  obtain ⟨hemem, hekey⟩ := mem_of_metaAt he
  have hgenuine := hinv.items e hemem
  have hwf := hgenuine.wellFormed
  have hland : ∀ {item}, Landed s.metas item → Landed (writeMeta p s.metas e.item) item :=
    fun hl => hl.write hwf h.1.stored_wellFormed
  have hdone : WorkerInv p s (if again then w else w.done key) := by
    split
    · exact hinv
    · exact ⟨fun x hx => hinv.items x (List.mem_of_mem_filter hx), hinv.rows⟩
  have hmoved := inv_setWorker (i := i) h.1 hdone
  refine ⟨⟨hmoved.rows, hmoved.calls, hmoved.ops, fun k x hx => ?_,
      fun x hx => (hmoved.workers x hx).mono rfl rfl le_rfl⟩,
    fun row hrow => (h.2 row hrow).frame rfl rfl hland fun n hn => ?_⟩
  · change writeMeta p s.metas e.item k = some x at hx
    rw [writeMeta] at hx
    split at hx
    · by_cases hk : k = e.item.key
      · subst hk
        rw [Function.update_self] at hx
        exact Option.some.inj hx ▸ ⟨rfl, hgenuine⟩
      · rw [Function.update_of_ne hk] at hx
        exact h.1.stored k x hx
    · exact h.1.stored k x hx
  · by_cases hfresh : (n, true) ∈ w.results ∧ (target p s.domains row).key = key
    · rcases hn.workers w hmem hfresh.1 with hl | ⟨e', he', -, hle⟩
      · exact Or.inl (hland hl)
      · rw [hfresh.2, he] at he'
        obtain rfl := Option.some.inj he'
        exact Or.inl (landed_write hwf h.1.stored_wellFormed (hekey.trans hfresh.2.symm) hle)
    · refine Or.inr ⟨hn.pending, fun x hx hres => ?_⟩
      rcases List.mem_or_eq_of_mem_set hx with hx | rfl
      · exact (hn.workers x hx hres).imp_left hland
      · cases again with
        | true => exact (hn.workers w hmem hres).imp_left hland
        | false =>
          refine (hn.workers w hmem hres).imp hland fun hhand => ?_
          exact hhand.done (fun hkey => hfresh ⟨hres, hkey⟩) w.results

theorem fst_failRows (owners : List Nat) (results : List (Nat × Bool)) :
    (failRows owners results).map Prod.fst = results.map Prod.fst := by
  rw [failRows, List.map_map]
  refine List.map_congr_left fun r _ => ?_
  dsimp only [Function.comp_apply]
  split <;> rfl

/-- A write that failed fails all rows that contributed to it. -/
theorem kept_writeFails (h : Kept p s) (hw : s.workers[i]? = some w) {key : String × String}
    {e : MetaWrite} (he : metaAt w.metas key = some e) :
    Kept p (s.setWorker i { w.done key with results := failRows e.owners w.results }) := by
  have hmem := List.mem_of_getElem? hw
  have hinv := h.1.workers w hmem
  refine kept_setWorker h ⟨fun x hx => hinv.items x (List.mem_of_mem_filter hx), fun n hn => ?_⟩
    fun row hrow n hn hres => ?_
  · exact hinv.rows n (fst_failRows _ w.results ▸ hn)
  · obtain ⟨hres, howner⟩ := mem_failRows.mp hres
    rcases hn.workers w hmem hres with hl | hhand
    · exact Or.inl hl
    · refine Or.inr (hhand.done (fun hkey => ?_) _)
      obtain ⟨e', he', howner', -⟩ := hhand
      rw [hkey, he] at he'
      exact howner (Option.some.inj he' ▸ howner')

theorem kept_rowFails (h : Kept p s) (hw : s.workers[i]? = some w) (rowId : Nat) :
    Kept p (s.setWorker i { w with results := failRows [rowId] w.results }) := by
  have hmem := List.mem_of_getElem? hw
  have hinv := h.1.workers w hmem
  refine kept_setWorker h ⟨hinv.items, fun n hn => ?_⟩ fun row hrow n hn hres =>
    hn.workers w hmem (mem_failRows.mp hres).1
  exact hinv.rows n (fst_failRows _ w.results ▸ hn)

/-- **A row that is marked as processed has landed.** -/
theorem kept_mark (h : Kept p s) (hw : s.workers[i]? = some w) {result : Nat × Bool}
    (hresult : w.results.head? = some result) (hmetas : w.metas = []) :
    Kept p { s.setWorker i { w with results := w.results.drop 1 } with
      outbox := s.outbox.modify result.1 fun row =>
        if result.2 then row.markProcessed else row.markFailed } := by
  have hmem := List.mem_of_getElem? hw
  have hinv := h.1.workers w hmem
  have hhead : result ∈ w.results := List.mem_of_mem_head? hresult
  have hlength : ∀ f : Row → Row, (s.outbox.modify result.1 f).length = s.outbox.length :=
    fun f => List.length_modify ..
  have hrest : WorkerInv p s { w with results := w.results.drop 1 } := by
    refine ⟨hinv.items, fun n hn => hinv.rows n ?_⟩
    rw [List.mem_append] at hn ⊢
    exact hn.imp_right fun hn => List.map_subset _ (List.drop_subset 1 w.results) hn
  have hmoved := inv_setWorker (i := i) h.1 hrest
  refine ⟨⟨h.1.rows, h.1.calls, fun o ho => ?_, h.1.stored, fun x hx =>
    (hmoved.workers x hx).mono rfl rfl (hlength _).ge⟩, fun row hrow =>
    (h.2 row hrow).frame rfl rfl id fun n hn => ?_⟩
  · rcases mem_or_eq_of_mem_modify ho with ho | ⟨o', ho', rfl⟩
    · exact h.1.ops o ho
    · have hop := h.1.ops o' (List.mem_of_getElem? ho')
      dsimp only
      split <;> exact hop
  · by_cases hmarked : (n, true) = result
    · rcases hn.workers w hmem (hmarked ▸ hhead) with hl | ⟨e, he, -⟩
      · exact Or.inl hl
      · rw [hmetas] at he
        exact absurd he (by simp [metaAt])
    · refine Or.inr ⟨?_, fun x hx hres => ?_⟩
      · obtain ⟨o, ho, hop, hpending⟩ := hn.pending
        change ∃ o', (s.outbox.modify result.1 _)[n]? = some o' ∧ _
        rw [List.getElem?_modify, ho]
        refine ⟨_, rfl, ?_⟩
        split
        · next hn' =>
          split
          · next htrue => exact absurd (Prod.ext hn'.symm htrue.symm) hmarked
          · exact ⟨hop, hpending⟩
        · exact ⟨hop, hpending⟩
      · rcases List.mem_or_eq_of_mem_set hx with hx | rfl
        · exact hn.workers x hx hres
        · exact hn.workers w hmem (List.mem_of_mem_drop hres)

/-- The workers are these, or fewer. -/
theorem kept_workers (h : Kept p s) {workers : List Worker} (hsub : workers ⊆ s.workers) :
    Kept p { s with workers := workers } :=
  ⟨⟨h.1.rows, h.1.calls, h.1.ops, h.1.stored, fun x hx =>
      (h.1.workers x (hsub hx)).mono rfl rfl le_rfl⟩,
    fun row hrow => (h.2 row hrow).frame rfl rfl id fun _ hn =>
      Or.inr ⟨hn.pending, fun x hx => hn.workers x (hsub hx)⟩⟩

/-- Rows that are claimed, or claimed again, are nobody's yet. -/
theorem kept_claim (h : Kept p s) {rows : List Nat}
    (hrows : ∀ n ∈ rows, (s.outbox[n]?).any (·.claimable s.now) = true) :
    Kept p { s with
      outbox := s.outbox.mapIdx fun n row =>
        if n ∈ rows then { row with claimedAt := some s.now } else row
      workers := s.workers ++ [⟨rows, [], []⟩] } := by
  have hlength : ∀ f : Nat → Row → Row, (s.outbox.mapIdx f).length = s.outbox.length :=
    fun f => List.length_mapIdx
  refine ⟨⟨h.1.rows, h.1.calls, fun o ho => ?_, h.1.stored, fun x hx => ?_⟩, fun row hrow =>
    (h.2 row hrow).frame rfl rfl id fun n hn => Or.inr ⟨?_, fun x hx hres => ?_⟩⟩
  · obtain ⟨n, hn, rfl⟩ := List.mem_mapIdx.mp ho
    have hop := h.1.ops s.outbox[n] (List.getElem_mem hn)
    dsimp only
    split <;> exact hop
  · rcases mem_concat hx with hx | rfl
    · exact (h.1.workers x hx).mono rfl rfl (hlength _).ge
    · refine ⟨fun e he => absurd he List.not_mem_nil, fun n hn => ?_⟩
      obtain ⟨o, ho, -⟩ := (Option.any_eq_true _ _).mp (hrows n (by simpa using hn))
      exact (hlength _).symm ▸ (List.getElem?_eq_some_iff.mp ho).1
  · obtain ⟨o, ho, hop, hpending⟩ := hn.pending
    change ∃ o', (s.outbox.mapIdx _)[n]? = some o' ∧ _
    rw [List.getElem?_mapIdx, ho]
    refine ⟨_, rfl, ?_⟩
    split <;> exact ⟨hop, hpending⟩
  · rcases mem_concat hx with hx | rfl
    · exact hn.workers x hx hres
    · exact absurd hres List.not_mem_nil

/-- A link's row in the outbox is about no registration. -/
theorem kept_enqueue (h : Kept p s) {op : Batch.ProjectionOp} (hop : OpOf p s.history op)
    (links : List LinkRow) : Kept p ({ s with links := links }.enqueue op) := by
  refine ⟨⟨h.1.rows, h.1.calls, ?_, h.1.stored, fun x hx =>
    (h.1.workers x hx).mono rfl rfl ?_⟩, fun row hrow =>
    (h.2 row hrow).frame rfl rfl id fun n hn => Or.inr ⟨?_, hn.workers⟩⟩
  · exact List.forall_mem_append.mpr ⟨h.1.ops, List.forall_mem_singleton.mpr hop⟩
  · exact (List.sublist_append_left s.outbox _).length_le
  · obtain ⟨o, ho, hrest⟩ := hn.pending
    exact ⟨o, List.getElem?_append_left (List.getElem?_eq_some_iff.mp ho).1 ▸ ho, hrest⟩

theorem kept_calls (h : Kept p s) {calls : List Call}
    (hcalls : ∀ call ∈ calls, call.Valid s.history) : Kept p { s with calls := calls } :=
  ⟨⟨h.1.rows, hcalls, h.1.ops, h.1.stored, fun x hx => (h.1.workers x hx).mono rfl rfl le_rfl⟩,
    fun row hrow => (h.2 row hrow).frame rfl rfl id fun _ hn => Or.inr ⟨hn.pending, hn.workers⟩⟩

/-! ### Transactions -/

/-- A transaction moves the rows and appends its ops. -/
structure Moved (p : Platform) (s s' : State) (ops : List Batch.ProjectionOp) : Prop where
  change : RowChange p s.domains s.history s'.domains s'.history ops
  outbox : s'.outbox = s.outbox ++ ops.map .enqueued
  metas : s'.metas = s.metas
  workers : s'.workers = s.workers

theorem length_le_of_moved {ops : List Batch.ProjectionOp} (hm : Moved p s s' ops) :
    s.outbox.length ≤ s'.outbox.length := by
  rw [hm.outbox]
  exact (List.sublist_append_left _ _).length_le

theorem inv_moved (h : Inv p s) {ops : List Batch.ProjectionOp} (hm : Moved p s s' ops)
    (hcalls : ∀ call ∈ s'.calls, call.Valid s'.history) : Inv p s' where
  rows := rows_change h.rows hm.change
  calls := hcalls
  ops o ho := by
    rw [hm.outbox, List.mem_append] at ho
    rcases ho with ho | ho
    · exact (h.ops o ho).mono hm.change.history_subset
    · obtain ⟨op, hop, rfl⟩ := List.mem_map.mp ho
      exact h.rows.opOf_change hm.change op hop
  stored key item hitem := by
    rw [hm.metas] at hitem
    exact ⟨(h.stored key item hitem).1, (h.stored key item hitem).2.change hm.change⟩
  workers w hw := by
    rw [hm.workers] at hw
    exact ⟨fun e he => ((h.workers w hw).items e he).change hm.change,
      fun n hn => lt_of_lt_of_le ((h.workers w hw).rows n hn) (length_le_of_moved hm)⟩

/-- A registration that the transaction is not about. -/
theorem tracked_moved_other (h : Inv p s) {ops : List Batch.ProjectionOp} (hm : Moved p s s' ops)
    (ht : Tracked p s row)
    (hsame : ∀ r, r.id = row.id → (r ∈ s'.domains ↔ r ∈ s.domains))
    (hold : ∀ a ∈ s'.history, a.id = row.id → a ∈ s.history) : Tracked p s' row := by
  have htarget : target p s'.domains row = target p s.domains row :=
    target_congr (rows_change h.rows hm.change) hsame
  rcases ht with ⟨⟨r, hr, hid, hquiet⟩, hsilent⟩ | hland | ⟨n, hpending, hworkers⟩
  · exact Or.inl ⟨⟨r, (hsame r hid).mpr hr, hid, hquiet⟩,
      fun a ha hid => hsilent a (hold a ha hid) hid⟩
  · rw [Tracked, htarget, hm.metas]
    exact Or.inr (Or.inl hland)
  · obtain ⟨o, ho, hrest⟩ := hpending
    refine Or.inr (Or.inr ⟨n, ⟨o, ?_, hrest⟩, fun w hw => ?_⟩)
    · rw [hm.outbox, List.getElem?_append_left (List.getElem?_eq_some_iff.mp ho).1]
      exact ho
    · rw [htarget, hm.metas]
      exact hworkers w (hm.workers ▸ hw)

/-- **The registration that the transaction is about has a row of its own in the outbox.** -/
theorem tracked_moved_self (h : Inv p s)
    (hm : Moved p s s' [domainProjectionOp p row.id row.domain]) :
    Tracked p s' row := by
  refine Or.inr (Or.inr ⟨s.outbox.length, ⟨.enqueued _, ?_, rfl, rfl⟩, fun w hw hres => ?_⟩)
  · rw [hm.outbox]
    exact List.getElem?_concat_length
  · -- no worker has claimed it yet
    have hlt := (h.workers w (hm.workers ▸ hw)).rows s.outbox.length
      (List.mem_append_right _ (List.mem_map_of_mem hres))
    exact absurd hlt (lt_irrefl _)

/-- A new row is not live, and has no other state. -/
theorem quiet_insert (hdomains : row ∈ s.domains) (hverifying : row.status = .verifying)
    (hnew : ∀ a ∈ s.history, a.id = row.id → a = row) : Quiet p s row := by
  have hne : row.status ≠ .live := hverifying ▸ by decide
  refine ⟨⟨row, hdomains, rfl, Or.inr hne⟩, fun a ha hid => ?_⟩
  rw [hnew a ha hid]
  exact Prod.ext (if_neg hne) (if_neg hne)

/-- **Whatever a transaction changes is tracked.** -/
theorem tracked_moved (h : Kept p s) {ops : List Batch.ProjectionOp} (hm : Moved p s s' ops)
    (hrow : row ∈ s'.history) : Tracked p s' row := by
  have hrows := h.1.rows
  obtain ⟨hc, houtbox, hmetas, hworkers⟩ := hm
  obtain ⟨domains', links', outbox', calls', metas', workers', now', history'⟩ := s'
  dsimp only at hc houtbox hmetas hworkers hrow
  cases hc with
  | same _ hops =>
    exact tracked_moved_other h.1 ⟨.same ops hops, houtbox, hmetas, hworkers⟩ (h.2 row hrow)
      (fun _ _ => Iff.rfl) fun _ ha _ => ha
  | insert new _ hhost hverifying hid hfree hops =>
    rcases mem_concat hrow with hrowold | rfl
    · refine tracked_moved_other h.1
        ⟨.insert new ops hhost hverifying hid hfree hops, houtbox, hmetas, hworkers⟩
        (h.2 row hrowold) (fun r hr => ⟨fun hmem => ?_, List.mem_append_left _⟩) fun a ha haid => ?_
      · refine (mem_concat hmem).resolve_right fun heq => ?_
        exact (hid row hrowold).1 (heq ▸ hr.symm)
      · refine (mem_concat ha).resolve_right fun heq => ?_
        exact (hid row hrowold).1 (heq ▸ haid.symm)
    · refine Or.inl (quiet_insert (List.mem_append_right _ (List.mem_singleton_self row))
        hverifying fun a ha haid => ?_)
      exact (mem_concat ha).resolve_left fun hmem => (hid a hmem).1 haid
  | store old new hold hid hdomain hversion =>
    have hm : Moved p s ⟨_, links', outbox', calls', metas', workers', now', _⟩ _ :=
      ⟨.store old new hold hid hdomain hversion, houtbox, hmetas, hworkers⟩
    by_cases hrowid : row.id = new.id
    · have hhost : row.domain = old.domain := by
        rcases mem_concat hrow with hrowold | rfl
        · exact hrows.hostOf row hrowold old (hrows.committed old hold) (hrowid.trans hid)
        · exact hdomain
      rw [← hhost, ← hrowid.trans hid] at hm
      exact tracked_moved_self h.1 hm
    · have hrowold : row ∈ s.history :=
        (mem_concat hrow).resolve_right fun heq => hrowid (heq ▸ rfl)
      refine tracked_moved_other h.1 hm (h.2 row hrowold)
        (fun r hr => ⟨fun hmem => ?_, fun hmem => ?_⟩) fun a ha haid => ?_
      · rcases mem_store hmem with rfl | ⟨hmem, -⟩
        · exact absurd hr.symm hrowid
        · exact hmem
      · exact List.mem_map.mpr ⟨r, hmem, if_neg (hr ▸ hrowid)⟩
      · exact (mem_concat ha).resolve_right fun heq => hrowid (heq ▸ haid.symm)
  | remove old hold =>
    have hm : Moved p s ⟨_, links', outbox', calls', metas', workers', now', _⟩ _ :=
      ⟨.remove old hold, houtbox, hmetas, hworkers⟩
    by_cases hrowid : row.id = old.id
    · have hhost : row.domain = old.domain :=
        hrows.hostOf row hrow old (hrows.committed old hold) hrowid
      have hop : domainProjectionOp p old.id old.domain =
          domainProjectionOp p row.id row.domain := by
        rw [hhost, hrowid]
      rw [hop] at hm
      exact tracked_moved_self h.1 hm
    · refine tracked_moved_other h.1 hm (h.2 row hrow)
        (fun r hr => ⟨List.mem_of_mem_filter, fun hmem => ?_⟩) fun _ ha _ => ha
      exact List.mem_filter.mpr ⟨hmem, decide_eq_true (hr ▸ hrowid)⟩

theorem kept_commit (hascii : AsciiCases p) (h : Kept p s) {fresh : Fresh} {call : Call}
    (hcall : s.calls[i]? = some call) (hdraws : s.DrawsId p fresh call) :
    Kept p { s.transact p fresh call with calls := s.calls.eraseIdx i } := by
  obtain ⟨ops, houtbox, hc⟩ := transact_change hascii h.1.rows
    (h.1.calls call (List.mem_of_getElem? hcall)) hdraws
  obtain ⟨hmetas, hworkers, -⟩ := transact_frame p s fresh call
  have hm : Moved p s { s.transact p fresh call with calls := s.calls.eraseIdx i } ops :=
    ⟨hc, houtbox, hmetas, hworkers⟩
  refine ⟨inv_moved h.1 hm fun c hmem => ?_, fun row hrow => tracked_moved h hm hrow⟩
  exact (h.1.calls c (List.mem_of_mem_eraseIdx hmem)).mono hc.history_subset

end

/-! ### Runs -/

section

variable {p : Platform} {s s' : State}

theorem opOf_link (history : List DomainRow) {op : Batch.ProjectionOp}
    (h : op.operation = "upsert") : OpOf p history op := by
  have hne : "upsert" ≠ Batch.domainOp := by decide
  exact fun hop => absurd (h.symm.trans hop) hne

/-- **What every step keeps.** -/
theorem kept_step (hascii : AsciiCases p) (a : Action) (h : Kept p s)
    (hstep : step p s a = some s') : Kept p s' := by
  cases a with
  | check call =>
    rw [step] at hstep
    split at hstep
    · next hadmits =>
      refine Option.some.inj hstep ▸ kept_calls h ?_
      exact List.forall_mem_append.mpr
        ⟨h.1.calls, List.forall_mem_singleton.mpr (valid_of_admits h.1.rows hadmits)⟩
    · cases hstep
  | drop i =>
    exact Option.some.inj hstep ▸ kept_calls h fun c hc => h.1.calls c (List.mem_of_mem_eraseIdx hc)
  | commit i fresh =>
    obtain ⟨call, hcall, hstep⟩ := Option.bind_eq_some_iff.mp hstep
    split at hstep
    · next hdraws => exact Option.some.inj hstep ▸ kept_commit hascii h hcall hdraws
    · cases hstep
  | createLink row =>
    rw [step] at hstep
    split at hstep
    · exact Option.some.inj hstep ▸ kept_enqueue h (opOf_link _ rfl) _
    · cases hstep
  | updateLink link =>
    rw [step] at hstep
    split at hstep
    · exact Option.some.inj hstep ▸ kept_enqueue h (opOf_link _ rfl) _
    · cases hstep
  | claim rows =>
    rw [step] at hstep
    split at hstep
    · next hrows => exact Option.some.inj hstep ▸ kept_claim h hrows.2.2
    · cases hstep
  | resolve i =>
    obtain ⟨w, hw, hstep⟩ := Option.bind_eq_some_iff.mp hstep
    obtain ⟨rowId, -, hstep⟩ := Option.bind_eq_some_iff.mp hstep
    obtain ⟨o, ho, hstep⟩ := Option.bind_eq_some_iff.mp hstep
    exact Option.some.inj hstep ▸ kept_read h hw ho
  | resolveFails i =>
    obtain ⟨w, hw, hstep⟩ := Option.bind_eq_some_iff.mp hstep
    obtain ⟨rowId, htodo, hstep⟩ := Option.bind_eq_some_iff.mp hstep
    exact Option.some.inj hstep ▸ kept_readFails h hw htodo
  | write i key again =>
    obtain ⟨w, hw, hstep⟩ := Option.bind_eq_some_iff.mp hstep
    obtain ⟨e, he, hstep⟩ := Option.bind_eq_some_iff.mp hstep
    split at hstep
    · cases hstep
    · exact Option.some.inj hstep ▸ kept_write h hw he again
  | writeFails i key =>
    obtain ⟨w, hw, hstep⟩ := Option.bind_eq_some_iff.mp hstep
    obtain ⟨e, he, hstep⟩ := Option.bind_eq_some_iff.mp hstep
    split at hstep
    · cases hstep
    · exact Option.some.inj hstep ▸ kept_writeFails h hw he
  | rowFails i rowId =>
    obtain ⟨w, hw, hstep⟩ := Option.bind_eq_some_iff.mp hstep
    split at hstep
    · cases hstep
    · exact Option.some.inj hstep ▸ kept_rowFails h hw rowId
  | mark i =>
    obtain ⟨w, hw, hstep⟩ := Option.bind_eq_some_iff.mp hstep
    obtain ⟨result, hresult, hstep⟩ := Option.bind_eq_some_iff.mp hstep
    split at hstep
    · cases hstep
    · next hdone =>
      exact Option.some.inj hstep ▸ kept_mark h hw hresult (not_not.mp (not_or.mp hdone).2)
  | crash i => exact Option.some.inj hstep ▸ kept_workers h fun _ hx => List.mem_of_mem_eraseIdx hx
  | tick ms =>
    refine Option.some.inj hstep ▸ ⟨⟨h.1.rows, h.1.calls, h.1.ops, h.1.stored, fun x hx => ?_⟩,
      fun row hrow => ?_⟩
    · exact (h.1.workers x hx).mono rfl rfl le_rfl
    · exact (h.2 row hrow).frame rfl rfl id fun _ hn => Or.inr ⟨hn.pending, hn.workers⟩

theorem kept_start (shared : SharedDomains p) : Kept p (start shared) := by
  refine ⟨⟨rows_start shared, fun _ h => absurd h List.not_mem_nil,
    fun _ h => absurd h List.not_mem_nil, fun _ _ h => (by cases h),
    fun _ h => absurd h List.not_mem_nil⟩, fun row hrow => Or.inl ?_⟩
  refine ⟨⟨row, hrow, rfl, Or.inl (shared.system row hrow).1⟩, fun a ha _ => ?_⟩
  obtain ⟨-, -, -, hroot, hnotFound⟩ := shared.system a ha
  refine Prod.ext ?_ ?_
  · exact (congrArg (fun x => if a.status = .live then x else none) hroot).trans (ite_self none)
  · exact (congrArg (fun x => if a.status = .live then x else none) hnotFound).trans (ite_self none)

theorem kept_run (hascii : AsciiCases p) {shared : SharedDomains p} {actions : List Action}
    (hrun : run (step p) (start shared) actions = some s) : Kept p s :=
  invariant_of_run (fun _ a _ h hstep => kept_step hascii a h hstep) actions (start shared) s
    (kept_start shared) hrun

/-! ### Once everything was processed -/

section

variable {row r a : DomainRow} {x : DomainItem} {key : String × String}

theorem settled_of_drained (h : Kept p s) (hdrained : Drained s) (hrow : row ∈ s.history) :
    Quiet p s row ∨ Landed s.metas (target p s.domains row) := by
  refine (h.2 row hrow).imp_right fun ht => ht.resolve_right ?_
  rintro ⟨n, ⟨o, ho, -, hpending⟩, -⟩
  exact Bool.false_ne_true (hpending.symm.trans (hdrained o (List.mem_of_getElem? ho)))

theorem later_instant {b : DomainRow} (h : Later a b) (hid : a.id = b.id) :
    a.updatedAt < b.updatedAt ∧ a.instant < b.instant := by
  rcases h with hlt | ⟨-, hle⟩
  · exact absurd hid hlt.ne
  · unfold DomainRow.instant
    omega

/-- A tombstone is newer than any state of its row. -/
theorem not_tombstone_rank_le (p : Platform) (a : DomainRow) :
    ¬ (a.tombstone p).rank ≤ (a.item p).rank := by
  rw [rank_le]
  simp [DomainRow.item, DomainRow.tombstone, toDomainItem]

theorem item_rank_le : (r.item p).rank ≤ (a.item p).rank ↔
    r.id < a.id ∨ r.id = a.id ∧ p.toISOString r.instant ≤ p.toISOString a.instant := by
  rw [rank_le]
  simp [DomainRow.item, toDomainItem]

/-- Where a registration is gone, its items are tombstones. -/
theorem redirects_of_gone (h : Kept p s) (hdrained : Drained s) (hstored : s.metas key = some x)
    (ha : a ∈ s.history) (hitem : x = a.item p ∨ x = a.tombstone p)
    (hgone : ∀ r ∈ s.domains, r.id ≠ a.id) : redirects x = (none, none) := by
  rcases hitem with rfl | rfl
  · exfalso
    rcases settled_of_drained h hdrained ha with ⟨⟨r, hr, hid, -⟩, -⟩ | ⟨y, hy, hle⟩
    · exact hgone r hr hid
    · rw [target_of_gone hgone] at hy hle
      have hkey : (a.tombstone p).key = key := (h.1.stored key _ hstored).1
      rw [hkey, hstored] at hy
      obtain rfl := Option.some.inj hy
      exact not_tombstone_rank_le p a hle
  · rfl

/-- What has landed for a row is its last state. -/
theorem stored_of_landed (h : Kept p s) (hiso : IsoOrdered p s.history) (hr : r ∈ s.domains)
    (hland : Landed s.metas (r.item p)) : s.metas (metaKey p r.domain) = some (r.item p) := by
  obtain ⟨x, hx, hle⟩ := hland
  obtain ⟨hkey, a, ha, hitem⟩ := h.1.stored _ x hx
  have hcommitted := h.1.rows.committed r hr
  have hakey : metaKey p a.domain = metaKey p r.domain := by
    rcases hitem with rfl | ⟨rfl, -⟩
    · exact hkey
    · exact hkey
  have hid : r.id ≤ a.id := by
    have hid' : a.id = x.id := by
      rcases hitem with rfl | ⟨rfl, -⟩
      · rfl
      · rfl
    rw [hid']
    rcases rank_le.mp hle with hlt | ⟨heq, -⟩
    · exact hlt.le
    · exact heq.le
  rcases h.1.rows.newest r hr a ha hakey with rfl | hlater
  · rcases hitem with rfl | ⟨-, hgone⟩
    · exact hx
    · exact absurd rfl (hgone a hr)
  · exfalso
    have haid : a.id = r.id := by
      rcases hlater with hlt | ⟨heq, -⟩
      · exact absurd hlt (not_lt.mpr hid)
      · exact heq
    rcases hitem with rfl | ⟨-, hgone⟩
    · have htext := hiso a ha r hcommitted (later_instant hlater haid).2
      rcases item_rank_le.mp hle with hlt | ⟨-, hversion⟩
      · exact absurd haid.symm hlt.ne
      · exact absurd htext (not_lt.mpr hversion)
    · exact hgone r hr haid.symm

theorem wanted_of_mem (h : Rows p s.domains s.history) (hr : r ∈ s.domains) :
    wanted p s r.domain = redirects (r.item p) := by
  have hfind : (s.domains.find? fun row => metaKey p row.domain = metaKey p r.domain) = some r := by
    cases hf : s.domains.find? fun row => metaKey p row.domain = metaKey p r.domain with
    | none => exact absurd (decide_eq_true rfl) (List.find?_eq_none.mp hf r hr)
    | some r' =>
      have hkey : metaKey p r'.domain = metaKey p r.domain := by simpa using List.find?_some hf
      rw [h.unique r' (List.mem_of_find?_eq_some hf) r hr hkey]
  rw [wanted, hfind, Option.map_some, Option.getD_some]
  split
  · next hlive => exact Prod.ext (if_pos hlive).symm (if_pos hlive).symm
  · next hlive => exact Prod.ext (if_neg hlive).symm (if_neg hlive).symm

/-- A host with a row serves what the row says. -/
theorem served_of_mem (h : Kept p s) (hdrained : Drained s) (hiso : IsoOrdered p s.history)
    (hr : r ∈ s.domains) : served p s r.domain = redirects (r.item p) := by
  have hcommitted := h.1.rows.committed r hr
  rcases settled_of_drained h hdrained hcommitted with ⟨-, hsilent⟩ | hland
  · rw [served, hsilent r hcommitted rfl]
    cases hx : s.metas (metaKey p r.domain) with
    | none => rfl
    | some x =>
      obtain ⟨hkey, a, ha, hitem⟩ := h.1.stored _ x hx
      change redirects x = (none, none)
      by_cases haid : a.id = r.id
      · rcases hitem with rfl | ⟨-, hgone⟩
        · exact hsilent a ha haid
        · exact absurd haid.symm (hgone r hr)
      · refine redirects_of_gone h hdrained hx ha (hitem.imp_right And.left)
          fun r' hr' hid => haid ?_
        have hakey : metaKey p a.domain = metaKey p r.domain := by
          rcases hitem with rfl | ⟨rfl, -⟩
          · exact hkey
          · exact hkey
        have hkeys := (h.1.rows.key_of_id (h.1.rows.committed r' hr') ha hid).trans hakey
        rw [← hid, h.1.rows.unique r' hr' r hr hkeys]
  · rw [target_of_mem h.1.rows hr rfl] at hland
    rw [served, stored_of_landed h hiso hr hland]
    rfl

theorem agrees_of_drained (h : Kept p s) (hdrained : Drained s) (hiso : IsoOrdered p s.history)
    (host : String) : served p s host = wanted p s host := by
  by_cases hrow : ∃ r ∈ s.domains, metaKey p r.domain = metaKey p host
  · obtain ⟨r, hr, hkey⟩ := hrow
    have hserved : served p s host = served p s r.domain := by rw [served, served, hkey]
    have hwanted : wanted p s host = wanted p s r.domain := by rw [wanted, wanted, hkey]
    rw [hserved, hwanted, served_of_mem h hdrained hiso hr, wanted_of_mem h.1.rows hr]
  · have hwanted : wanted p s host = (none, none) := by
      have hfind : (s.domains.find? fun row => metaKey p row.domain = metaKey p host) = none :=
        List.find?_eq_none.mpr fun r hr hkey => hrow ⟨r, hr, of_decide_eq_true hkey⟩
      rw [wanted, hfind]
      rfl
    rw [hwanted, served]
    cases hx : s.metas (metaKey p host) with
    | none => rfl
    | some x =>
      obtain ⟨hkey, a, ha, hitem⟩ := h.1.stored _ x hx
      refine redirects_of_gone h hdrained hx ha (hitem.imp_right And.left)
        fun r hr hid => hrow ⟨r, hr, ?_⟩
      refine (h.1.rows.key_of_id (h.1.rows.committed r hr) ha hid).trans ?_
      rcases hitem with rfl | ⟨rfl, -⟩
      · exact hkey
      · exact hkey

end

/-! ### Registrations of a host -/

theorem lt_of_before (h : Rows p s.domains s.history) {x y : String}
    (hbefore : Before p s.history x y) : x < y := by
  obtain ⟨hne, a, b, hsub, hkey, rfl, rfl⟩ := hbefore
  rcases List.pairwise_iff_forall_sublist.mp h.ordered hsub hkey with hlt | ⟨heq, -⟩
  · exact hlt
  · exact absurd heq hne

theorem keepsLater_of_metas_eq (h : s'.metas = s.metas) : KeepsLater p s s' :=
  fun _ item hitem => ⟨item, h ▸ hitem, fun hbefore => hbefore.1 rfl⟩

/-- **A write for an earlier registration is lost on a later one.** -/
theorem keepsLater_writeMeta (h : Rows p s.domains s.history) {x : DomainItem}
    (hs' : s'.metas = writeMeta p s.metas x) : KeepsLater p s s' := by
  intro key item hitem
  rw [hs', writeMeta]
  split
  · next hcond =>
    by_cases hkey : key = x.key
    · subst hkey
      refine ⟨x, Function.update_self .., fun hbefore => ?_⟩
      rw [hitem] at hcond
      exact absurd (lt_of_before h hbefore) (not_lt.mpr (id_le_of_metaCondition hcond))
    · refine ⟨item, ?_, fun hbefore => hbefore.1 rfl⟩
      rw [Function.update_of_ne hkey]
      exact hitem
  · exact ⟨item, hitem, fun hbefore => hbefore.1 rfl⟩

/-- Only a write changes the table. -/
theorem metas_step {a : Action} (hstep : step p s a = some s') :
    s'.metas = s.metas ∨ ∃ x, s'.metas = writeMeta p s.metas x := by
  cases a with
  | write i key again =>
    obtain ⟨w, -, hstep⟩ := Option.bind_eq_some_iff.mp hstep
    obtain ⟨e, -, hstep⟩ := Option.bind_eq_some_iff.mp hstep
    split at hstep
    · cases hstep
    · exact Or.inr ⟨e.item, Option.some.inj hstep ▸ rfl⟩
  | commit i fresh =>
    obtain ⟨call, -, hstep⟩ := Option.bind_eq_some_iff.mp hstep
    split at hstep
    · exact Or.inl (Option.some.inj hstep ▸ (transact_frame p s fresh call).1)
    · cases hstep
  | resolve i =>
    obtain ⟨w, -, hstep⟩ := Option.bind_eq_some_iff.mp hstep
    obtain ⟨rowId, -, hstep⟩ := Option.bind_eq_some_iff.mp hstep
    obtain ⟨o, -, hstep⟩ := Option.bind_eq_some_iff.mp hstep
    exact Or.inl (Option.some.inj hstep ▸ rfl)
  | resolveFails i =>
    obtain ⟨w, -, hstep⟩ := Option.bind_eq_some_iff.mp hstep
    obtain ⟨rowId, -, hstep⟩ := Option.bind_eq_some_iff.mp hstep
    exact Or.inl (Option.some.inj hstep ▸ rfl)
  | writeFails i key =>
    obtain ⟨w, -, hstep⟩ := Option.bind_eq_some_iff.mp hstep
    obtain ⟨e, -, hstep⟩ := Option.bind_eq_some_iff.mp hstep
    split at hstep
    · cases hstep
    · exact Or.inl (Option.some.inj hstep ▸ rfl)
  | rowFails i rowId =>
    obtain ⟨w, -, hstep⟩ := Option.bind_eq_some_iff.mp hstep
    split at hstep
    · cases hstep
    · exact Or.inl (Option.some.inj hstep ▸ rfl)
  | mark i =>
    obtain ⟨w, -, hstep⟩ := Option.bind_eq_some_iff.mp hstep
    obtain ⟨result, -, hstep⟩ := Option.bind_eq_some_iff.mp hstep
    split at hstep
    · cases hstep
    · exact Or.inl (Option.some.inj hstep ▸ rfl)
  | drop i => exact Or.inl (Option.some.inj hstep ▸ rfl)
  | crash i => exact Or.inl (Option.some.inj hstep ▸ rfl)
  | tick ms => exact Or.inl (Option.some.inj hstep ▸ rfl)
  | _ =>
    rw [step] at hstep
    split at hstep
    · exact Or.inl (Option.some.inj hstep ▸ rfl)
    · cases hstep

theorem versions_of_rows (h : Rows p s.domains s.history) :
    s.history.Pairwise fun a b =>
      a.id = b.id → a.updatedAt < b.updatedAt ∧ a.instant < b.instant :=
  h.ordered.imp_of_mem fun ha hb hlater hid => later_instant (hlater (h.key_of_id ha hb hid)) hid

end

/-- **The domain items converge.**  In every run of the calls on any hosts, of link writes and of
the workers, a state with no outbox row left to process has every host serve what its row says;
the versions of a row grow from commit to commit, and no step puts an item of an earlier
registration over one of a later. -/
theorem domain_meta_converges {p : Platform} (hascii : AsciiCases p) (shared : SharedDomains p)
    {actions : List Action} {s : State} (hrun : run (step p) (start shared) actions = some s)
    (hiso : IsoOrdered p s.history) : Converges p s := by
  have h : Kept p s := kept_run hascii hrun
  refine ⟨fun hdrained => agrees_of_drained h hdrained hiso, fun hdrained row hrow hlive hown => ?_,
    versions_of_rows h.1.rows, fun a s' hstep => ?_⟩
  · have hcommitted := h.1.rows.committed row hrow
    rcases settled_of_drained h hdrained hcommitted with ⟨⟨r, hr, hid, hq⟩, -⟩ | hland
    · obtain rfl := h.1.rows.eq_of_id hr hrow hid
      rcases hq with hsystem | hstatus
      · exact absurd (hown.symm.trans hsystem) Bool.false_ne_true
      · exact absurd hlive hstatus
    · rw [target_of_mem h.1.rows hrow rfl] at hland
      exact stored_of_landed h hiso hrow hland
  · rcases metas_step hstep with heq | ⟨x, heq⟩
    · exact keepsLater_of_metas_eq heq
    · exact keepsLater_writeMeta h.1.rows heq

def isoPlatform : Platform := { plainPlatform with toISOString := IsoDate.toISOString }

/-- No domain of the system's. -/
def noShared : SharedDomains isoPlatform where
  rows := []
  hosts _ h := absurd h List.not_mem_nil
  system _ h := absurd h List.not_mem_nil
  ids := List.Pairwise.nil
  keys := List.Pairwise.nil

def acmeKey : String × String := metaKey isoPlatform "acme.com"

/-- A host is verified while a worker holds what it was before, then goes to another workspace. -/
def acmeRun : List Action :=
  [.check (.add "W1" ⟨"Acme.com", some "https://old.example/", none⟩),
    .commit 0 ⟨"D1", "a", 1700000000000400⟩,
    .claim [0], .resolve 0,
    .check (.verify "W1" "D1" [["snapurl-verify-", "a"]]), .commit 0 ⟨"", "", 1700000000000900⟩,
    .claim [1], .resolve 1, .write 1 acmeKey true, .write 0 acmeKey false, .mark 0,
    .check (.remove "W1" "D1"), .commit 0 ⟨"", "", 1700000001000000⟩,
    .check (.add "W2" ⟨"acme.com", some "https://new.example/", none⟩),
    .commit 0 ⟨"D2", "b", 1700000001000000⟩,
    .check (.verify "W2" "D2" [["snapurl-verify-b"]]), .commit 0 ⟨"", "", 1700000002000000⟩,
    .claim [3, 4], .resolve 2, .resolve 2, .write 2 acmeKey false, .mark 2, .mark 2,
    .write 1 acmeKey false, .mark 1,
    .claim [2], .resolve 3, .write 3 acmeKey false, .mark 3]

theorem domain_meta_converges_acme : ∃ s, run (step isoPlatform) (start noShared) acmeRun = some s ∧
    Drained s ∧ served isoPlatform s "acme.com" = (some "https://new.example/", none) := by
  have hrun : (run (step isoPlatform) (start noShared) acmeRun).any (fun s =>
      Drained s ∧ IsoOrdered isoPlatform s.history ∧
        wanted isoPlatform s "acme.com" = (some "https://new.example/", none)) = true := by
    decide +kernel
  obtain ⟨s, hs, hend⟩ := (Option.any_eq_true _ _).mp hrun
  obtain ⟨hdrained, hiso, hwanted⟩ := of_decide_eq_true hend
  have hascii : AsciiCases isoPlatform := fun _ _ => ⟨rfl, rfl⟩
  refine ⟨s, hs, hdrained, ?_⟩
  rw [(domain_meta_converges hascii noShared hs hiso).agrees hdrained "acme.com", hwanted]

end SnapUrl.Projection.Registrations
