import Mathlib.Data.List.Pairwise
import SnapUrl.Projection.Registrations

/-!
# What a transaction does to the domain rows

* `RowChange`: the ways a transaction can change the rows, with the ops that it appends.
* `Rows`: what holds of the rows and of all states they were committed in.  `rows_change` says that
  a transaction keeps it: **the versions of a row grow in the order of the commits**, and the ids
  of a host's registrations do.
-/

namespace SnapUrl.Projection.Registrations

open Lib Domain

variable {p : Platform}

/-! ### Hosts -/

theorem isSlugChar_of_isDomainChar {c : Char} (h : isDomainChar c = true) :
    Links.isSlugChar c = true := by
  simp only [isDomainChar, isLetter, Bool.or_eq_true, decide_eq_true_eq] at h
  have halpha : c.isAlpha = (c.isUpper || c.isLower) := rfl
  simp only [Links.isSlugChar, halpha, Bool.or_eq_true, decide_eq_true_eq]
  tauto

theorem isAddress_of_isDomainName {name : String} (h : isDomainName name = true) :
    EdgeStore.isAddress name = true := by
  rw [isDomainName, Bool.and_eq_true] at h
  exact List.all_eq_true.mpr fun c hc => isSlugChar_of_isDomainChar (List.all_eq_true.mp h.2 c hc)

theorem ne_empty_of_isDomainName {name : String} (h : isDomainName name = true) :
    name.toList ≠ [] := by
  intro hnil
  simp [isDomainName, hnil] at h

/-- What `add` stores is its own key. -/
theorem goodHost_stored (hascii : AsciiCases p) {name : String} (h : isDomainName name = true) :
    GoodHost p (storedHost p name) := by
  have haddress := isAddress_of_isDomainName h
  obtain ⟨hlower, hidem⟩ := EdgeStore.lower_address hascii haddress
  have hstored : storedHost p name = p.toLowerCase name := EdgeStore.trim_address hlower
  have hnormal : normaliseHost p (p.toLowerCase name) = p.toLowerCase name :=
    (EdgeStore.normaliseHost_address hascii hlower).trans hidem
  rw [hstored]
  refine ⟨hidem.trans hnormal.symm, congrArg (normaliseHost p) hnormal, ?_⟩
  rw [hnormal, (hascii _ fun c hc =>
    (EdgeStore.isAddress_char (EdgeStore.mem_address haddress hc)).1).2]
  intro hempty
  have hnil : name.toList.map Char.toLower = [] := by
    simpa using congrArg String.toList hempty
  exact ne_empty_of_isDomainName h (List.map_eq_nil_iff.mp hnil)

theorem normaliseHost_of_metaKey {a b : String} (h : metaKey p a = metaKey p b) :
    normaliseHost p a = normaliseHost p b := by
  have hpk : domainPk p a = domainPk p b := congrArg Prod.fst h
  rw [← EdgeStore.sliceFrom2_domainPk, hpk, EdgeStore.sliceFrom2_domainPk]

/-- The unique index keeps the keys apart. -/
theorem lower_of_metaKey {a b : String} (ha : GoodHost p a) (hb : GoodHost p b)
    (h : metaKey p a = metaKey p b) : p.toLowerCase a = p.toLowerCase b := by
  rw [ha.lower, hb.lower, normaliseHost_of_metaKey h]

theorem GoodHost.metaKey_normaliseHost {host : String} (h : GoodHost p host) :
    metaKey p (normaliseHost p host) = metaKey p host := by
  rw [metaKey, metaKey, domainPk, domainPk, h.normal]

/-! ### Rows -/

/-- The two are states of one row, the second with a later version, or of two registrations, the
second with a later id. -/
def Later (a b : DomainRow) : Prop :=
  a.id < b.id ∨ a.id = b.id ∧ a.updatedAt + 1000 ≤ b.updatedAt

structure Rows (p : Platform) (domains history : List DomainRow) : Prop where
  hosts : ∀ row ∈ history, GoodHost p row.domain
  hostOf : ∀ a ∈ history, ∀ b ∈ history, a.id = b.id → a.domain = b.domain
  /-- **A host's rows are committed in the order of their ids and versions.** -/
  ordered : history.Pairwise fun a b => metaKey p a.domain = metaKey p b.domain → Later a b
  unique : ∀ a ∈ domains, ∀ b ∈ domains, metaKey p a.domain = metaKey p b.domain → a = b
  committed : ∀ row ∈ domains, row ∈ history
  /-- A host's row is the last of its states. -/
  newest : ∀ row ∈ domains, ∀ a ∈ history, metaKey p a.domain = metaKey p row.domain →
    a = row ∨ Later a row

/-- A domain op names a registration and its host. -/
def OpOf (p : Platform) (history : List DomainRow) (op : Batch.ProjectionOp) : Prop :=
  op.operation = Batch.domainOp →
    ∃ row ∈ history, row.id = op.linkId ∧ op.host = some (normaliseHost p row.domain)

/-- What a transaction does to the rows, and the ops it appends. -/
inductive RowChange (p : Platform) (domains history : List DomainRow) :
    List DomainRow → List DomainRow → List Batch.ProjectionOp → Prop where
  | same (ops : List Batch.ProjectionOp) (hops : ∀ op ∈ ops, OpOf p history op) :
    RowChange p domains history domains history ops
  | insert (row : DomainRow) (ops : List Batch.ProjectionOp) (hhost : GoodHost p row.domain)
    (hverifying : row.status = .verifying)
    (hid : ∀ a ∈ history, a.id ≠ row.id ∧
      (metaKey p a.domain = metaKey p row.domain → a.id < row.id))
    (hfree : ∀ r ∈ domains, metaKey p r.domain ≠ metaKey p row.domain)
    (hops : ∀ op ∈ ops, op = domainProjectionOp p row.id row.domain) :
    RowChange p domains history (domains ++ [row]) (history ++ [row]) ops
  | store (row row' : DomainRow) (hrow : row ∈ domains) (hid : row'.id = row.id)
    (hdomain : row'.domain = row.domain) (hversion : row.updatedAt + 1000 ≤ row'.updatedAt) :
    RowChange p domains history (domains.map fun r => if r.id = row'.id then row' else r)
      (history ++ [row']) [domainProjectionOp p row.id row.domain]
  | remove (row : DomainRow) (hrow : row ∈ domains) :
    RowChange p domains history (domains.filter fun r => r.id ≠ row.id) history
      [domainProjectionOp p row.id row.domain]

theorem opOf_domainProjectionOp {history : List DomainRow} {row : DomainRow} (h : row ∈ history) :
    OpOf p history (domainProjectionOp p row.id row.domain) :=
  fun _ => ⟨row, h, rfl, rfl⟩

theorem OpOf.mono {history history' : List DomainRow} {op : Batch.ProjectionOp}
    (h : OpOf p history op) (hsub : history ⊆ history') : OpOf p history' op := by
  intro hop
  obtain ⟨row, hrow, hid, hhost⟩ := h hop
  exact ⟨row, hsub hrow, hid, hhost⟩

section

variable {domains history domains' history' : List DomainRow} {ops : List Batch.ProjectionOp}

theorem RowChange.history_subset (h : RowChange p domains history domains' history' ops) :
    history ⊆ history' := by
  cases h with
  | same => exact List.Subset.refl _
  | insert => exact List.subset_append_left _ _
  | store => exact List.subset_append_left _ _
  | remove => exact List.Subset.refl _

theorem Rows.opOf_change (h : Rows p domains history)
    (hc : RowChange p domains history domains' history' ops) : ∀ op ∈ ops, OpOf p history' op := by
  cases hc with
  | same _ hops => exact hops
  | insert row _ _ _ _ _ hops =>
    intro op hop
    rw [hops op hop]
    exact opOf_domainProjectionOp (List.mem_append_right _ (List.mem_singleton_self row))
  | store row row' hrow hid hdomain hversion =>
    intro op hop
    rw [List.mem_singleton.mp hop]
    exact (opOf_domainProjectionOp (h.committed row hrow)).mono (List.subset_append_left _ _)
  | remove row hrow =>
    intro op hop
    rw [List.mem_singleton.mp hop]
    exact opOf_domainProjectionOp (h.committed row hrow)

theorem Rows.eq_of_id (h : Rows p domains history) {a b : DomainRow} (ha : a ∈ domains)
    (hb : b ∈ domains) (hid : a.id = b.id) : a = b :=
  h.unique a ha b hb
    (congrArg (metaKey p) (h.hostOf a (h.committed a ha) b (h.committed b hb) hid))

/-- A row's states share its key. -/
theorem Rows.key_of_id (h : Rows p domains history) {a b : DomainRow} (ha : a ∈ history)
    (hb : b ∈ history) (hid : a.id = b.id) : metaKey p a.domain = metaKey p b.domain :=
  congrArg (metaKey p) (h.hostOf a ha b hb hid)

theorem mem_concat {α : Type} {l : List α} {x a : α} (h : a ∈ l ++ [x]) : a ∈ l ∨ a = x :=
  (List.mem_append.mp h).imp_right List.mem_singleton.mp

theorem rows_insert (h : Rows p domains history) {row : DomainRow} (hhost : GoodHost p row.domain)
    (hid : ∀ a ∈ history, a.id ≠ row.id ∧
      (metaKey p a.domain = metaKey p row.domain → a.id < row.id))
    (hfree : ∀ r ∈ domains, metaKey p r.domain ≠ metaKey p row.domain) :
    Rows p (domains ++ [row]) (history ++ [row]) where
  hosts := List.forall_mem_append.mpr ⟨h.hosts, List.forall_mem_singleton.mpr hhost⟩
  hostOf a ha b hb hab := by
    rcases mem_concat ha with haold | rfl <;> rcases mem_concat hb with hbold | rfl
    · exact h.hostOf a haold b hbold hab
    · exact absurd hab (hid a haold).1
    · exact absurd hab.symm (hid b hbold).1
    · rfl
  ordered := by
    refine List.pairwise_append.mpr
      ⟨h.ordered, List.pairwise_singleton _ _, fun a ha b hb hkey => ?_⟩
    obtain rfl := List.mem_singleton.mp hb
    exact Or.inl ((hid a ha).2 hkey)
  unique a ha b hb hkey := by
    rcases mem_concat ha with haold | rfl <;> rcases mem_concat hb with hbold | rfl
    · exact h.unique a haold b hbold hkey
    · exact absurd hkey (hfree a haold)
    · exact absurd hkey.symm (hfree b hbold)
    · rfl
  committed r hr := by
    rcases List.mem_append.mp hr with hr | hr
    · exact List.mem_append_left _ (h.committed r hr)
    · exact List.mem_append_right _ hr
  newest r hr a ha hkey := by
    rcases mem_concat hr with hrold | rfl <;> rcases mem_concat ha with haold | rfl
    · exact h.newest r hrold a haold hkey
    · exact absurd hkey.symm (hfree r hrold)
    · exact Or.inr (Or.inl ((hid a haold).2 hkey))
    · exact Or.inl rfl

/-- A new state of a row comes after all states of its host. -/
theorem Rows.later_store (h : Rows p domains history) {row row' : DomainRow} (hrow : row ∈ domains)
    (hid : row'.id = row.id) (hdomain : row'.domain = row.domain)
    (hversion : row.updatedAt + 1000 ≤ row'.updatedAt) {a : DomainRow} (ha : a ∈ history)
    (hkey : metaKey p a.domain = metaKey p row'.domain) : Later a row' := by
  rw [hdomain] at hkey
  rcases h.newest row hrow a ha hkey with rfl | hlt | ⟨heq, hle⟩
  · exact Or.inr ⟨hid.symm, hversion⟩
  · exact Or.inl (hid ▸ hlt)
  · exact Or.inr ⟨heq.trans hid.symm, by omega⟩

theorem mem_store {row' r : DomainRow}
    (h : r ∈ domains.map fun r => if r.id = row'.id then row' else r) :
    r = row' ∨ r ∈ domains ∧ r.id ≠ row'.id := by
  obtain ⟨r, hr, rfl⟩ := List.mem_map.mp h
  by_cases hid : r.id = row'.id
  · exact Or.inl (if_pos hid)
  · rw [if_neg hid]
    exact Or.inr ⟨hr, hid⟩

theorem rows_store (h : Rows p domains history) {row row' : DomainRow} (hrow : row ∈ domains)
    (hid : row'.id = row.id) (hdomain : row'.domain = row.domain)
    (hversion : row.updatedAt + 1000 ≤ row'.updatedAt) :
    Rows p (domains.map fun r => if r.id = row'.id then row' else r) (history ++ [row']) := by
  have hcommitted := h.committed row hrow
  -- only `row` has this key
  have hother : ∀ r ∈ domains, r.id ≠ row'.id → metaKey p r.domain ≠ metaKey p row'.domain := by
    intro r hr hne hkey
    rw [hdomain] at hkey
    exact hne (by rw [h.unique r hr row hrow hkey, hid])
  refine ⟨?_, fun a ha b hb hab => ?_, ?_, fun a ha b hb hkey => ?_, fun r hr => ?_,
    fun r hr a ha hkey => ?_⟩
  · exact List.forall_mem_append.mpr
      ⟨h.hosts, List.forall_mem_singleton.mpr (hdomain ▸ h.hosts row hcommitted)⟩
  · rcases mem_concat ha with haold | rfl <;> rcases mem_concat hb with hbold | rfl
    · exact h.hostOf a haold b hbold hab
    · exact (h.hostOf a haold row hcommitted (hab.trans hid)).trans hdomain.symm
    · exact hdomain.trans (h.hostOf row hcommitted b hbold (hid.symm.trans hab))
    · rfl
  · refine List.pairwise_append.mpr
      ⟨h.ordered, List.pairwise_singleton _ _, fun a ha b hb hkey => ?_⟩
    obtain rfl := List.mem_singleton.mp hb
    exact h.later_store hrow hid hdomain hversion ha hkey
  · rcases mem_store ha with haeq | ⟨haold, hane⟩ <;> rcases mem_store hb with hbeq | ⟨hbold, hbne⟩
    · rw [haeq, hbeq]
    · exact absurd (haeq ▸ hkey.symm) (hother b hbold hbne)
    · exact absurd (hbeq ▸ hkey) (hother a haold hane)
    · exact h.unique a haold b hbold hkey
  · rcases mem_store hr with hreq | ⟨hrold, -⟩
    · exact List.mem_append_right _ (List.mem_singleton.mpr hreq)
    · exact List.mem_append_left _ (h.committed r hrold)
  · rcases mem_store hr with hreq | ⟨hrold, hne⟩ <;> rcases mem_concat ha with haold | haeq
    · exact Or.inr (hreq ▸ h.later_store hrow hid hdomain hversion haold (hreq ▸ hkey))
    · exact Or.inl (haeq.trans hreq.symm)
    · exact h.newest r hrold a haold hkey
    · exact absurd (haeq ▸ hkey.symm) (hother r hrold hne)

theorem rows_remove (h : Rows p domains history) (id : String) :
    Rows p (domains.filter fun r => r.id ≠ id) history where
  hosts := h.hosts
  hostOf := h.hostOf
  ordered := h.ordered
  unique a ha b hb := h.unique a (List.mem_of_mem_filter ha) b (List.mem_of_mem_filter hb)
  committed r hr := h.committed r (List.mem_of_mem_filter hr)
  newest r hr := h.newest r (List.mem_of_mem_filter hr)

/-- **A transaction keeps the order of the rows.** -/
theorem rows_change (h : Rows p domains history)
    (hc : RowChange p domains history domains' history' ops) : Rows p domains' history' := by
  cases hc with
  | same => exact h
  | insert row _ hhost _ hid hfree _ => exact rows_insert h hhost hid hfree
  | store row row' hrow hid hdomain hversion => exact rows_store h hrow hid hdomain hversion
  | remove row => exact rows_remove h row.id

end

theorem rows_start (shared : SharedDomains p) : Rows p shared.rows shared.rows := by
  have hpair : shared.rows.Pairwise fun a b =>
      a.id ≠ b.id ∧ metaKey p a.domain ≠ metaKey p b.domain := shared.ids.and shared.keys
  have hsymm : Std.Symm fun a b : DomainRow =>
      a.id ≠ b.id ∧ metaKey p a.domain ≠ metaKey p b.domain :=
    ⟨fun _ _ hab => ⟨Ne.symm hab.1, Ne.symm hab.2⟩⟩
  have hkeys : ∀ a ∈ shared.rows, ∀ b ∈ shared.rows, metaKey p a.domain = metaKey p b.domain →
      a = b :=
    fun a ha b hb hkey => by_contra fun hne => (hpair.forall ha hb hne).2 hkey
  have hids : ∀ a ∈ shared.rows, ∀ b ∈ shared.rows, a.id = b.id → a = b :=
    fun a ha b hb hid => by_contra fun hne => (hpair.forall ha hb hne).1 hid
  exact
    { hosts := shared.hosts
      hostOf := fun a ha b hb hid => congrArg DomainRow.domain (hids a ha b hb hid)
      ordered := shared.keys.imp fun hne hkey => absurd hkey hne
      unique := hkeys
      committed := fun _ hr => hr
      newest := fun r hr a ha hkey => Or.inl (hkeys a ha r hr hkey) }

/-! ### Transactions -/

/-- What a call was told when it checked. -/
def Call.Valid (history : List DomainRow) : Call → Prop
  | .add _ input => isDomainName input.domain = true
  | .removeLink _ domainId host => ∃ row ∈ history, row.id = domainId ∧ row.domain = host
  | _ => True

theorem Call.Valid.mono {history history' : List DomainRow} {call : Call}
    (h : call.Valid history) (hsub : history ⊆ history') : call.Valid history' := by
  cases call with
  | removeLink =>
    obtain ⟨row, hrow, hid, hdomain⟩ := h
    exact ⟨row, hsub hrow, hid, hdomain⟩
  | _ => exact h

section

variable {s : State} {fresh : Fresh} {call : Call}

theorem valid_of_admits (h : Rows p s.domains s.history) (hadmits : s.admits p call = true) :
    call.Valid s.history := by
  cases call with
  | add =>
    rw [State.admits, Bool.and_eq_true] at hadmits
    exact hadmits.1
  | removeLink linkId domainId host =>
    rw [State.admits, Bool.and_eq_true, Option.any_eq_true] at hadmits
    obtain ⟨-, row, hfind, hdomain⟩ := hadmits
    have hid : row.id = domainId := by simpa using List.find?_some hfind
    exact ⟨row, h.committed row (List.mem_of_find?_eq_some hfind), hid, of_decide_eq_true hdomain⟩
  | _ => trivial

/-- The row that a transaction is about has the id it was called with. -/
theorem target_eq_some {row : DomainRow} (h : s.target call = some row) :
    row ∈ s.domains ∧ (∀ workspaceId id, call = .remove workspaceId id → row.id = id) := by
  cases call with
  | remove workspaceId id =>
    refine ⟨List.mem_of_find?_eq_some h, fun _ _ hcall => ?_⟩
    cases hcall
    have hfound := List.find?_some h
    simp only [Bool.and_eq_true, decide_eq_true_eq] at hfound
    exact hfound.1
  | verify => exact ⟨List.mem_of_find?_eq_some h, fun _ _ hcall => by cases hcall⟩
  | update => exact ⟨List.mem_of_find?_eq_some h, fun _ _ hcall => by cases hcall⟩
  | add => cases h
  | removeLink => cases h

theorem le_nextVersion (clock updatedAt : Int) : updatedAt + 1000 ≤ nextVersion clock updatedAt :=
  le_max_right _ _

/-- **A transaction changes the rows in one of four ways**, and appends its ops. -/
theorem transact_change (hascii : AsciiCases p) (h : Rows p s.domains s.history)
    (hvalid : call.Valid s.history) (hdraws : s.DrawsId p fresh call) :
    ∃ ops, (s.transact p fresh call).outbox = s.outbox ++ ops.map .enqueued ∧
      RowChange p s.domains s.history (s.transact p fresh call).domains
        (s.transact p fresh call).history ops := by
  have hsame : ∃ ops : List Batch.ProjectionOp, s.outbox = s.outbox ++ ops.map .enqueued ∧
      RowChange p s.domains s.history s.domains s.history ops :=
    ⟨[], (List.append_nil _).symm, .same [] fun _ hop => absurd hop List.not_mem_nil⟩
  cases call with
  | add workspaceId input =>
    have hhost : GoodHost p (addedRow p workspaceId input fresh).domain :=
      goodHost_stored hascii hvalid
    rw [State.transact]
    split
    · exact hsame
    · next hfree =>
      have hkeys : ∀ r ∈ s.domains,
          metaKey p r.domain ≠ metaKey p (addedRow p workspaceId input fresh).domain := by
        intro r hr hkey
        refine hfree (List.any_eq_true.mpr ⟨r, hr, decide_eq_true ?_⟩)
        exact lower_of_metaKey (h.hosts r (h.committed r hr)) hhost hkey
      split
      · exact ⟨[_], rfl, .insert _ _ hhost rfl hdraws hkeys fun op hop => List.mem_singleton.mp hop⟩
      · exact ⟨[], (List.append_nil _).symm,
          .insert _ _ hhost rfl hdraws hkeys fun op hop => absurd hop List.not_mem_nil⟩
  | verify workspaceId id records =>
    rw [State.transact]
    split
    · exact hsame
    · next row hrow =>
      exact ⟨[_], rfl, .store row _ (target_eq_some hrow).1 rfl rfl (le_nextVersion _ _)⟩
  | update workspaceId id input =>
    rw [State.transact]
    split
    · exact hsame
    · next row hrow =>
      exact ⟨[_], rfl, .store row _ (target_eq_some hrow).1 rfl rfl (le_nextVersion _ _)⟩
  | remove workspaceId id =>
    rw [State.transact]
    split
    · exact hsame
    · next row hrow =>
      obtain ⟨hmem, hid⟩ := target_eq_some hrow
      split
      · exact hsame
      · obtain rfl := hid workspaceId id rfl
        exact ⟨[_], rfl, .remove row hmem⟩
  | removeLink linkId domainId host =>
    obtain ⟨row, hrow, rfl, rfl⟩ := hvalid
    refine ⟨[⟨linkId, "delete", none⟩, domainProjectionOp p row.id row.domain], ?_, ?_⟩
    · exact List.append_assoc s.outbox [_] [_]
    · refine .same _ (List.forall_mem_cons.mpr ⟨fun hop => ?_, List.forall_mem_singleton.mpr ?_⟩)
      · have hne : "delete" ≠ Batch.domainOp := by decide
        exact absurd hop hne
      · exact opOf_domainProjectionOp hrow

/-- A transaction is none of the workers' business. -/
theorem transact_frame (p : Platform) (s : State) (fresh : Fresh) (call : Call) :
    (s.transact p fresh call).metas = s.metas ∧ (s.transact p fresh call).workers = s.workers ∧
      (s.transact p fresh call).calls = s.calls := by
  cases call with
  | add =>
    rw [State.transact]
    split
    · exact ⟨rfl, rfl, rfl⟩
    · split <;> exact ⟨rfl, rfl, rfl⟩
  | verify =>
    rw [State.transact]
    split <;> exact ⟨rfl, rfl, rfl⟩
  | update =>
    rw [State.transact]
    split <;> exact ⟨rfl, rfl, rfl⟩
  | remove =>
    rw [State.transact]
    split
    · exact ⟨rfl, rfl, rfl⟩
    · split <;> exact ⟨rfl, rfl, rfl⟩
  | removeLink => exact ⟨rfl, rfl, rfl⟩

end

end SnapUrl.Projection.Registrations
