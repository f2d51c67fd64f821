import SnapUrl.Projection.Outbox

/-!
# Whether the projection converges

* `Converged`: once every row is processed, the table has at each key the item of
  the link that is there now, and nothing where there is none.
* `Unsettled`: a row that will still put a link right at a key.  `Tracked`: what is
  stored at a key is right, or an unsettled row makes it so.
* `Safe`: a worker writes an outdated request only while a row that corrects it is
  unsettled, and resolves a delete from a current index.  `inv_step`: such steps keep
  every key tracked.
* `guarded_converged`: **runs of safe steps converge**, in whatever order workers
  claim, read, write, fail, die and mark.
* `stale_put_stays`: LINK items carry no version, so a slow worker's put lands over
  a newer one, and no row is left to correct it.
-/

namespace SnapUrl.Projection

open Lib

/-! ### What is stored and what is still to come -/

/-- The item of the link that has a key now. -/
def currentItem (p : Platform) (links : List PgLink) (key : String × String) : Option LinkItem :=
  (links.find? fun l => l.key p = key).map (PgLink.item p)

/-- **Nothing outdated is left** once every row is processed. -/
def Converged (p : Platform) (s : State) : Prop :=
  (∀ row ∈ s.outbox, row.processed = true) → ∀ key, getItem s.table key = currentItem p s.links key

def OutboxRow.isFor (row : OutboxRow) (linkId : String) (operation : Operation) : Bool :=
  row.linkId = linkId ∧ row.operation = operation ∧ row.processed = false

/-- A worker that has read a row has yet to write what it read at a key. -/
def Worker.Owes (w : Worker) (key : String × String) (rowId : Nat) : Prop :=
  (rowId, true) ∈ w.results → HasRequest w.pending key rowId

/-- **A row will still put a link right at a key**: it is not processed, and none of
`workers` is through with it. -/
def Unsettled (outbox : List OutboxRow) (workers : List Worker) (key : String × String)
    (linkId : String) (operation : Operation) : Prop :=
  ∃ rowId, (outbox[rowId]?).any (·.isFor linkId operation) = true ∧
    ∀ w ∈ workers, w.Owes key rowId

/-- What is `stored` at a key is right, or an unsettled row makes it so: an upsert of
the link that is there now, a delete of the link it is the item of. -/
def Tracked (p : Platform) (links : List PgLink) (outbox : List OutboxRow)
    (workers : List Worker) (key : String × String) (stored : Option LinkItem) : Prop :=
  (∀ l ∈ links, l.key p = key →
    stored = some (l.item p) ∨ Unsettled outbox workers key l.link.id .upsert) ∧
  ∀ item ∈ stored,
    (∃ l ∈ links, l.key p = key ∧ l.link.id = item.linkId) ∨
      Unsettled outbox workers key item.linkId .delete

/-- The index has a link at every key the table has it at. -/
def IndexCurrent (s : State) (linkId : String) : Prop :=
  ∀ item ∈ s.table, item.linkId = linkId →
    ∃ item' ∈ s.index, item'.linkId = linkId ∧ item'.key = item.key

/-- **The steps that lose nothing.**  A delete is resolved from a current index; what
a worker writes is right, or an unsettled row puts it right, the worker's own request
not counted. -/
def Safe (p : Platform) (s : State) : Action → Prop
  | .resolve i => ∀ row ∈ s.nextRow i, row.operation = .delete → IndexCurrent s row.linkId
  | .write i key _ => ∀ e ∈ s.pendingAt i key,
      Tracked p s.links s.outbox (s.workers.modify i (·.done key)) key e.request.item?
  | _ => True

section Decidable

variable {p : Platform} {s : State} {outbox : List OutboxRow} {workers : List Worker}
  {key : String × String}

instance {pending : List PendingWrite} {rowId : Nat} : Decidable (HasRequest pending key rowId) :=
  inferInstanceAs (Decidable (∃ e ∈ pending, e.request.key = key ∧ rowId ∈ e.owners))

instance {w : Worker} {rowId : Nat} : Decidable (w.Owes key rowId) :=
  inferInstanceAs (Decidable ((rowId, true) ∈ w.results → HasRequest w.pending key rowId))

theorem lt_of_isFor {rowId : Nat} {linkId : String} {operation : Operation}
    (h : (outbox[rowId]?).any (·.isFor linkId operation) = true) : rowId < outbox.length := by
  by_contra hlt
  rw [List.getElem?_eq_none (Nat.le_of_not_lt hlt)] at h
  exact Bool.noConfusion h

instance {linkId : String} {operation : Operation} :
    Decidable (Unsettled outbox workers key linkId operation) :=
  decidable_of_iff
    (∃ rowId ∈ List.range outbox.length, (outbox[rowId]?).any (·.isFor linkId operation) = true ∧
      ∀ w ∈ workers, w.Owes key rowId)
    ⟨fun ⟨rowId, _, h⟩ => ⟨rowId, h⟩,
      fun ⟨rowId, h⟩ => ⟨rowId, List.mem_range.mpr (lt_of_isFor h.1), h⟩⟩

instance {links : List PgLink} {stored : Option LinkItem} :
    Decidable (Tracked p links outbox workers key stored) :=
  inferInstanceAs (Decidable (_ ∧ _))

instance {linkId : String} : Decidable (IndexCurrent s linkId) :=
  inferInstanceAs (Decidable (∀ item ∈ s.table, item.linkId = linkId →
    ∃ item' ∈ s.index, item'.linkId = linkId ∧ item'.key = item.key))

instance : ∀ s a, Decidable (Safe p s a)
  | s, .resolve i => inferInstanceAs (Decidable (∀ row ∈ s.nextRow i, _))
  | s, .write i key _ => inferInstanceAs (Decidable (∀ e ∈ s.pendingAt i key, _))
  | _, .create _ | _, .update _ | _, .delete _ | _, .claim _ | _, .resolveFails _
  | _, .writeFails _ _ | _, .edgeFails _ _ | _, .mark _ | _, .crash _ | _, .propagate _
  | _, .tick _ => isTrue trivial

end Decidable

section

variable {p : Platform} {s s' : State} {links : List PgLink} {outbox outbox' : List OutboxRow}
  {workers workers' : List Worker} {w w' : Worker} {key k : String × String} {i rowId : Nat}
  {linkId : String} {operation : Operation} {stored : Option LinkItem}

/-! ### Unsettled rows -/

theorem Unsettled.imp (h : Unsettled outbox workers key linkId operation)
    (hstep : ∀ rowId, (outbox[rowId]?).any (·.isFor linkId operation) = true →
      (∀ w ∈ workers, w.Owes key rowId) →
      (outbox'[rowId]?).any (·.isFor linkId operation) = true ∧
        ∀ w ∈ workers', w.Owes key rowId) :
    Unsettled outbox' workers' key linkId operation := by
  obtain ⟨rowId, hrow, howes⟩ := h
  exact ⟨rowId, hstep rowId hrow howes⟩

theorem Unsettled.append (h : Unsettled outbox workers key linkId operation) (row : OutboxRow) :
    Unsettled (outbox ++ [row]) workers key linkId operation := by
  refine h.imp fun rowId hrow howes => ⟨?_, howes⟩
  rwa [List.getElem?_append_left (lt_of_isFor hrow)]

/-- No worker has read a row that is just enqueued. -/
theorem unsettled_enqueued
    (hread : ∀ w ∈ workers, ∀ rowId, (rowId, true) ∈ w.results → rowId < outbox.length) :
    Unsettled (outbox ++ [.enqueued linkId operation]) workers key linkId operation := by
  refine ⟨outbox.length, ?_, ?_⟩
  · rw [List.getElem?_concat_length, Option.any_some]
    simp [OutboxRow.isFor, OutboxRow.enqueued]
  · intro w hw hmem
    have hlt := hread w hw _ hmem
    omega

/-- One worker goes on; the others leave the row as it is. -/
theorem Unsettled.set (h : Unsettled outbox workers key linkId operation)
    (hi : workers[i]? = some w)
    (hw : ∀ rowId, (outbox[rowId]?).any (·.isFor linkId operation) = true →
      w.Owes key rowId → w'.Owes key rowId) :
    Unsettled outbox (workers.set i w') key linkId operation := by
  refine h.imp fun rowId hrow howes => ⟨hrow, fun u hu => ?_⟩
  rcases List.mem_or_eq_of_mem_set hu with hu | rfl
  · exact howes u hu
  · exact hw rowId hrow (howes w (List.mem_of_getElem? hi))

theorem Unsettled.subset (h : Unsettled outbox workers key linkId operation)
    (hsub : ∀ w ∈ workers', w ∈ workers) : Unsettled outbox workers' key linkId operation :=
  h.imp fun _ hrow howes => ⟨hrow, fun w hw => howes w (hsub w hw)⟩

/-- A claim stamps rows, and its worker has read none. -/
theorem Unsettled.claim (h : Unsettled outbox workers key linkId operation) (rows : List Nat)
    (now : Int) :
    Unsettled
      (outbox.mapIdx fun rowId row =>
        if rowId ∈ rows then { row with claimedAt := some now } else row)
      (workers ++ [⟨rows, [], []⟩]) key linkId operation := by
  refine h.imp fun rowId hrow howes => ⟨?_, fun w hw => ?_⟩
  · obtain ⟨row, hrow, hfor⟩ := (Option.any_eq_true _ _).mp hrow
    rw [List.getElem?_mapIdx, hrow, Option.map_some, Option.any_some]
    split
    · exact hfor
    · exact hfor
  · rcases List.mem_append.mp hw with hw | hw
    · exact howes w hw
    · obtain rfl := List.mem_singleton.mp hw
      intro hmem
      simp at hmem

/-- A worker that has written everything marks a row: it may be processed now, but
then the worker was through with it. -/
theorem Unsettled.mark {ok : Bool} {rest : List (Nat × Bool)}
    (h : Unsettled outbox workers key linkId operation) (hi : workers[i]? = some w)
    (hpending : w.pending = []) (hresults : w.results = (rowId, ok) :: rest) :
    Unsettled (outbox.modify rowId fun row => if ok then row.markProcessed else row.markFailed)
      (workers.set i { w with results := rest }) key linkId operation := by
  have hw := List.mem_of_getElem? hi
  refine h.imp fun r hrow howes => ⟨?_, fun u hu => ?_⟩
  · have hopen : rowId = r → ok = false := by
      rintro rfl
      by_contra hok
      obtain ⟨e, he, _⟩ := howes w hw
        (by rw [hresults, Bool.eq_true_of_not_eq_false hok]; exact List.mem_cons_self)
      rw [hpending] at he
      exact List.not_mem_nil he
    obtain ⟨row, hrow, hfor⟩ := (Option.any_eq_true _ _).mp hrow
    rw [List.getElem?_modify, hrow]
    by_cases hr : rowId = r
    · rw [hopen hr]
      simpa [hr, OutboxRow.isFor, OutboxRow.markFailed] using hfor
    · simpa [hr] using hfor
  · rcases List.mem_or_eq_of_mem_set hu with hu | rfl
    · exact howes u hu
    · intro hmem
      exact howes w hw (by rw [hresults]; exact List.mem_cons_of_mem _ hmem)

/-! ### What is stored -/

theorem Tracked.imp (h : Tracked p links outbox workers key stored)
    (hup : ∀ l ∈ links, l.key p = key → Unsettled outbox workers key l.link.id .upsert →
      Unsettled outbox' workers' key l.link.id .upsert)
    (hdel : ∀ item ∈ stored, Unsettled outbox workers key item.linkId .delete →
      Unsettled outbox' workers' key item.linkId .delete) :
    Tracked p links outbox' workers' key stored := by
  obtain ⟨hlinks, hitems⟩ := h
  refine ⟨?_, ?_⟩
  · intro l hl hkey
    exact (hlinks l hl hkey).imp_right (hup l hl hkey)
  · intro item hitem
    exact (hitems item hitem).imp_right (hdel item hitem)

theorem Tracked.mono (h : Tracked p links outbox workers key stored)
    (hmono : ∀ linkId operation, Unsettled outbox workers key linkId operation →
      Unsettled outbox' workers' key linkId operation) :
    Tracked p links outbox' workers' key stored :=
  h.imp (fun _ _ _ => hmono _ _) fun _ _ => hmono _ _

/-! ### What a worker owes -/

theorem hasRequest_done : HasRequest (w.done key).pending k rowId ↔
    HasRequest w.pending k rowId ∧ k ≠ key := by
  constructor
  · rintro ⟨e, he, rfl, howner⟩
    obtain ⟨he, hne⟩ := List.mem_filter.mp he
    exact ⟨⟨e, he, rfl, howner⟩, of_decide_eq_true hne⟩
  · rintro ⟨⟨e, he, rfl, howner⟩, hne⟩
    exact ⟨e, List.mem_filter.mpr ⟨he, decide_eq_true hne⟩, rfl, howner⟩

theorem mem_failRows {owners : List Nat} {results : List (Nat × Bool)} :
    (rowId, true) ∈ failRows owners results ↔ (rowId, true) ∈ results ∧ rowId ∉ owners := by
  constructor
  · intro h
    obtain ⟨⟨r, ok⟩, hr, heq⟩ := List.mem_map.mp h
    split at heq
    · simp at heq
    · rename_i howner
      obtain ⟨rfl, rfl⟩ := Prod.mk.injEq .. ▸ heq
      exact ⟨hr, howner⟩
  · rintro ⟨hr, howner⟩
    exact List.mem_map.mpr ⟨_, hr, if_neg howner⟩

/-- Who has written at a key owes what it owed at others. -/
theorem Worker.Owes.done (h : w.Owes k rowId) (hne : k ≠ key) : (w.done key).Owes k rowId :=
  fun hmem => hasRequest_done.mpr ⟨h hmem, hne⟩

theorem Worker.Owes.of_done (h : (w.done key).Owes k rowId) : w.Owes k rowId :=
  fun hmem => (hasRequest_done.mp (h hmem)).1

/-- A request that fails fails every row that contributed to it. -/
theorem Worker.Owes.writeFails (h : w.Owes k rowId) :
    Worker.Owes
      { w.done key with
        results := failRows
          ((w.pending.filter fun e => e.request.key = key).flatMap (·.owners)) w.results }
      k rowId := by
  intro hfailed
  obtain ⟨hmem, howner⟩ := mem_failRows.mp hfailed
  refine hasRequest_done.mpr ⟨h hmem, ?_⟩
  rintro rfl
  obtain ⟨e, he, hkey, hrow⟩ := h hmem
  exact howner (List.mem_flatMap.mpr ⟨e, List.mem_filter.mpr ⟨he, decide_eq_true hkey⟩, hrow⟩)

/-! ### The invariant -/

structure Inv (p : Platform) (s : State) : Prop where
  live : ∀ l ∈ s.links, l.live = true
  ids : s.links.Pairwise fun l l' => l.link.id ≠ l'.link.id
  read : ∀ w ∈ s.workers, ∀ rowId, (rowId, true) ∈ w.results → rowId < s.outbox.length
  tracked : ∀ key, Tracked p s.links s.outbox s.workers key (getItem s.table key)

theorem inv_start : Inv p start where
  live := by simp [start]
  ids := List.Pairwise.nil
  read := by simp [start]
  tracked := by simp [start, Tracked, getItem]

/-- **The projection has converged** when nothing is unsettled. -/
theorem Inv.converged (h : Inv p s) : Converged p s := by
  intro hall key
  have hnone : ∀ linkId operation, ¬ Unsettled s.outbox s.workers key linkId operation := by
    rintro linkId operation ⟨rowId, hrow, _⟩
    obtain ⟨row, hrow, hfor⟩ := (Option.any_eq_true _ _).mp hrow
    have hprocessed := hall row (List.mem_of_getElem? hrow)
    simp [OutboxRow.isFor, hprocessed] at hfor
  obtain ⟨hlinks, hitems⟩ := h.tracked key
  unfold currentItem
  cases hfind : s.links.find? fun l => l.key p = key with
  | some l =>
    have hkey : l.key p = key := by simpa using List.find?_some hfind
    exact (hlinks l (List.mem_of_find?_eq_some hfind) hkey).resolve_right (hnone _ _)
  | none =>
    rw [Option.map_none, Option.eq_none_iff_forall_not_mem]
    intro item hitem
    obtain ⟨l, hl, hkey, _⟩ := (hitems item hitem).resolve_right (hnone _ _)
    exact List.find?_eq_none.mp hfind l hl (decide_eq_true hkey)

/-! ### Writes of the API -/

theorem Inv.read_append (h : Inv p s) (row : OutboxRow) (hw : w ∈ s.workers)
    (hmem : (rowId, true) ∈ w.results) : rowId < (s.outbox ++ [row]).length := by
  have hlt := h.read w hw rowId hmem
  rw [List.length_append]
  omega

theorem inv_create {l : PgLink} (h : Inv p s) (hlive : l.live = true)
    (hid : ∀ l' ∈ s.links, l'.link.id ≠ l.link.id) :
    Inv p ({ s with links := s.links ++ [l] }.enqueue l.link.id .upsert) where
  live := by
    intro l' hl'
    rcases List.mem_append.mp hl' with hl' | hl'
    · exact h.live l' hl'
    · rwa [List.mem_singleton.mp hl']
  ids := by
    refine List.pairwise_append.mpr ⟨h.ids, List.pairwise_singleton _ _, ?_⟩
    rintro l' hl' l'' hl''
    rw [List.mem_singleton.mp hl'']
    exact hid l' hl'
  read := fun w hw rowId hmem => h.read_append _ hw hmem
  tracked := by
    intro key
    obtain ⟨hlinks, hitems⟩ := h.tracked key
    constructor
    · intro l' hl' hkey
      rcases List.mem_append.mp hl' with hl' | hl'
      · exact (hlinks l' hl' hkey).imp_right fun hu => hu.append _
      · rw [List.mem_singleton.mp hl']
        exact Or.inr (unsettled_enqueued h.read)
    · intro item hitem
      rcases hitems item hitem with ⟨l', hl', hrest⟩ | hu
      · exact Or.inl ⟨l', List.mem_append_left _ hl', hrest⟩
      · exact Or.inr (hu.append _)

theorem inv_update {link : ProjectedLink} (h : Inv p s) :
    Inv p ({ s with links := s.links.map (PgLink.set link) }.enqueue link.id .upsert) where
  live := by
    intro l' hl'
    obtain ⟨l, hl, rfl⟩ := List.mem_map.mp hl'
    rw [PgLink.live_set]
    exact h.live l hl
  ids := List.pairwise_map.mpr (h.ids.imp fun hne => by simpa using hne)
  read := fun w hw rowId hmem => h.read_append _ hw hmem
  tracked := by
    intro key
    obtain ⟨hlinks, hitems⟩ := h.tracked key
    constructor
    · intro l' hl' hkey
      obtain ⟨l, hl, rfl⟩ := List.mem_map.mp hl'
      rw [PgLink.key_set] at hkey
      by_cases hsame : l.link.id = link.id
      · rw [PgLink.id_set, hsame]
        exact Or.inr (unsettled_enqueued h.read)
      · have hset : l.set link = l := if_neg hsame
        rw [hset]
        exact (hlinks l hl hkey).imp_right fun hu => hu.append _
    · intro item hitem
      rcases hitems item hitem with ⟨l, hl, hkey, hid⟩ | hu
      · exact Or.inl ⟨l.set link, List.mem_map_of_mem hl, by simpa using hkey, by simpa using hid⟩
      · exact Or.inr (hu.append _)

theorem inv_delete (h : Inv p s) :
    Inv p ({ s with links := s.links.filter fun l => l.link.id ≠ linkId }.enqueue linkId .delete)
    where
  live := fun l hl => h.live l (List.mem_filter.mp hl).1
  ids := h.ids.filter _
  read := fun w hw rowId hmem => h.read_append _ hw hmem
  tracked := by
    intro key
    obtain ⟨hlinks, hitems⟩ := h.tracked key
    constructor
    · intro l hl hkey
      exact (hlinks l (List.mem_filter.mp hl).1 hkey).imp_right fun hu => hu.append _
    · intro item hitem
      rcases hitems item hitem with ⟨l, hl, hkey, hid⟩ | hu
      · by_cases hgone : l.link.id = linkId
        · -- the item of the link that goes is left to the delete
          rw [← hid, hgone]
          exact Or.inr (unsettled_enqueued h.read)
        · exact Or.inl ⟨l, List.mem_filter.mpr ⟨hl, decide_eq_true hgone⟩, hkey, hid⟩
      · exact Or.inr (hu.append _)

/-! ### Steps of a worker -/

theorem inv_claim {rows : List Nat} (h : Inv p s) :
    Inv p { s with
      outbox := s.outbox.mapIdx fun rowId row =>
        if rowId ∈ rows then { row with claimedAt := some s.now } else row
      workers := s.workers ++ [⟨rows, [], []⟩] } where
  live := h.live
  ids := h.ids
  read := by
    intro w hw rowId hmem
    rw [List.length_mapIdx]
    rcases List.mem_append.mp hw with hw | hw
    · exact h.read w hw rowId hmem
    · rw [List.mem_singleton.mp hw] at hmem
      exact absurd hmem List.not_mem_nil
  tracked := by
    intro key
    refine (h.tracked key).mono ?_
    intro linkId operation hu
    exact hu.claim rows s.now

theorem Inv.read_set (h : Inv p s)
    (hread : ∀ rowId, (rowId, true) ∈ w'.results → rowId < s.outbox.length) :
    ∀ u ∈ s.workers.set i w', ∀ rowId, (rowId, true) ∈ u.results → rowId < s.outbox.length := by
  intro u hu rowId hmem
  rcases List.mem_or_eq_of_mem_set hu with hu | rfl
  · exact h.read u hu rowId hmem
  · exact hread rowId hmem

/-- A worker goes on and owes what it owed. -/
theorem Inv.setWorker (h : Inv p s) (hi : s.workers[i]? = some w)
    (hread : ∀ rowId, (rowId, true) ∈ w'.results → (rowId, true) ∈ w.results)
    (howes : ∀ key rowId, w.Owes key rowId → w'.Owes key rowId) : Inv p (s.setWorker i w') where
  live := h.live
  ids := h.ids
  read := h.read_set fun rowId hmem => h.read w (List.mem_of_getElem? hi) rowId (hread rowId hmem)
  tracked := by
    intro key
    refine (h.tracked key).mono ?_
    intro linkId operation hu
    exact hu.set hi fun r _ => howes key r

/-- What a row of a link that is there resolves to. -/
theorem buildUpsertRequests_eq (h : Inv p s) {l : PgLink} (hl : l ∈ s.links) :
    buildUpsertRequests p s.links l.link.id = [.put (l.item p)] := by
  obtain ⟨pre, post, hsplit⟩ := List.append_of_mem hl
  have hids := h.ids
  rw [hsplit] at hids
  have hpre : ∀ l' ∈ pre, l'.link.id ≠ l.link.id := fun l' hl' =>
    (List.pairwise_append.mp hids).2.2 l' hl' l List.mem_cons_self
  have hfind : s.links.find? (fun l' => l'.link.id = l.link.id) = some l :=
    List.find?_eq_some_iff_append.mpr
      ⟨decide_eq_true rfl, pre, post, hsplit, fun l' hl' => by simpa using hpre l' hl'⟩
  rw [buildUpsertRequests, hfind]
  simp [h.live l hl]

/-- A worker that reads a row owes what the row resolves to. -/
theorem Unsettled.resolve {rest : List Nat} {row : OutboxRow} {requests : List WriteRequest}
    (h : Unsettled outbox workers key linkId operation) (hi : workers[i]? = some w)
    (hrow : outbox[rowId]? = some row)
    (hrequests : row.linkId = linkId → row.operation = operation →
      ∃ request ∈ requests, request.key = key) :
    Unsettled outbox
      (workers.set i
        ⟨rest, w.results ++ [(rowId, true)], requests.foldl (addRequest rowId) w.pending⟩)
      key linkId operation := by
  refine h.set hi fun r hr howes hmem => ?_
  rcases List.mem_append.mp hmem with hmem | hmem
  · exact (howes hmem).foldl
  · obtain ⟨rfl, _⟩ := Prod.mk.injEq .. ▸ List.mem_singleton.mp hmem
    rw [hrow, Option.any_some] at hr
    obtain ⟨hid, hop, _⟩ := of_decide_eq_true hr
    obtain ⟨request, hrequest, rfl⟩ := hrequests hid hop
    exact hasRequest_foldl hrequest

/-- **A row that is read leaves a request at every key it is to put right.** -/
theorem inv_resolve {rest : List Nat} {row : OutboxRow} (h : Inv p s)
    (hi : s.workers[i]? = some w) (hrow : s.outbox[rowId]? = some row)
    (hindex : row.operation = .delete → IndexCurrent s row.linkId) :
    Inv p (s.setWorker i
      { todo := rest
        results := w.results ++ [(rowId, true)]
        pending := (s.requestsOf p row).foldl (addRequest rowId) w.pending }) where
  live := h.live
  ids := h.ids
  read := by
    refine h.read_set fun r hmem => ?_
    rcases List.mem_append.mp hmem with hmem | hmem
    · exact h.read w (List.mem_of_getElem? hi) r hmem
    · obtain ⟨rfl, _⟩ := Prod.mk.injEq .. ▸ List.mem_singleton.mp hmem
      exact (List.getElem?_eq_some_iff.mp hrow).1
  tracked := by
    intro key
    refine (h.tracked key).imp (fun l hl hkey hu => ?_) fun item hitem hu => ?_
    · refine hu.resolve hi hrow fun hid hop =>
        ⟨.put (l.item p), ?_, (toLinkItem_key p l.link l.host l.slug).trans hkey⟩
      rw [State.requestsOf, hop, hid]
      exact List.mem_of_mem_head? (congrArg _ (buildUpsertRequests_eq h hl))
    · refine hu.resolve hi hrow fun hid hop => ?_
      obtain ⟨hstored, hkey⟩ := getItem_eq_some hitem
      obtain ⟨item', hitem', hid', hkey'⟩ := hindex hop item hstored hid.symm
      refine ⟨.delete item'.key, ?_, hkey'.trans hkey⟩
      rw [State.requestsOf, hop]
      exact List.mem_map.mpr ⟨item', List.mem_filter.mpr ⟨hitem', decide_eq_true hid'⟩, rfl⟩

/-- **A request that is right, or that an unsettled row puts right, may be written**,
and the worker may keep it to write it again. -/
theorem inv_write {e : PendingWrite} (h : Inv p s) (hi : s.workers[i]? = some w)
    (hsafe : Tracked p s.links s.outbox (s.workers.modify i (·.done e.request.key)) e.request.key
      e.request.item?)
    (hw' : w' = w ∨ w' = w.done e.request.key) :
    Inv p { s.setWorker i w' with table := e.request.apply s.table } where
  live := h.live
  ids := h.ids
  read := by
    refine h.read_set fun r hmem => h.read w (List.mem_of_getElem? hi) r ?_
    rcases hw' with rfl | rfl
    · exact hmem
    · exact hmem
  tracked := by
    intro key
    by_cases hkey : key = e.request.key
    · rw [hkey, getItem_apply_self]
      have hlt : i < s.workers.length := (List.getElem?_eq_some_iff.mp hi).1
      have hdone : s.workers.modify i (·.done e.request.key) =
          s.workers.set i (w.done e.request.key) := by
        rw [List.modify_eq_set_getElem?, hi]
        rfl
      rw [hdone] at hsafe
      refine hsafe.mono fun linkId operation hu => ?_
      rcases hw' with rfl | rfl
      · have hback := hu.set (List.getElem?_set_self hlt) fun r _ howes => howes.of_done
        rw [List.set_set] at hback
        exact hback
      · exact hu
    · rw [getItem_apply hkey]
      refine (h.tracked key).mono fun linkId operation hu => hu.set hi fun r _ howes => ?_
      rcases hw' with rfl | rfl
      · exact howes
      · exact howes.done hkey

theorem inv_mark {ok : Bool} {rest : List (Nat × Bool)} (h : Inv p s)
    (hi : s.workers[i]? = some w) (hpending : w.pending = [])
    (hresults : w.results = (rowId, ok) :: rest) :
    Inv p { s.setWorker i { w with results := rest } with
      outbox := s.outbox.modify rowId fun row =>
        if ok then row.markProcessed else row.markFailed } where
  live := h.live
  ids := h.ids
  read := by
    rw [List.length_modify]
    refine h.read_set fun r hmem => h.read w (List.mem_of_getElem? hi) r ?_
    rw [hresults]
    exact List.mem_cons_of_mem _ hmem
  tracked := by
    intro key
    refine (h.tracked key).mono ?_
    intro linkId operation hu
    exact hu.mark hi hpending hresults

theorem inv_crash (h : Inv p s) : Inv p { s with workers := s.workers.eraseIdx i } where
  live := h.live
  ids := h.ids
  read := fun w hw => h.read w (List.mem_of_mem_eraseIdx hw)
  tracked := by
    intro key
    refine (h.tracked key).mono ?_
    intro linkId operation hu
    exact hu.subset fun w hw => List.mem_of_mem_eraseIdx hw

/-- **Every safe step keeps each key tracked.** -/
theorem inv_step {a : Action} (h : Inv p s) (hsafe : Safe p s a) (hs : step p s a = some s') :
    Inv p s' := by
  cases a with
  | create l =>
    simp only [step] at hs
    split at hs
    · rename_i hok
      obtain rfl := Option.some.inj hs
      exact inv_create h hok.1 fun l' hl' => (hok.2.2 l' hl').1
    · simp at hs
  | update link =>
    simp only [step] at hs
    split at hs
    · obtain rfl := Option.some.inj hs
      exact inv_update h
    · simp at hs
  | delete linkId =>
    simp only [step] at hs
    split at hs
    · obtain rfl := Option.some.inj hs
      exact inv_delete h
    · simp at hs
  | claim rows =>
    simp only [step] at hs
    split at hs
    · obtain rfl := Option.some.inj hs
      exact inv_claim h
    · simp at hs
  | resolve i =>
    obtain ⟨w, hi, hs⟩ := Option.bind_eq_some_iff.mp hs
    split at hs
    · simp at hs
    · rename_i rowId rest htodo
      obtain ⟨row, hrow, hs⟩ := Option.bind_eq_some_iff.mp hs
      obtain rfl := Option.some.inj hs
      refine inv_resolve h hi hrow (hsafe row ?_)
      simp [State.nextRow, hi, htodo, hrow]
  | resolveFails i =>
    obtain ⟨w, hi, hs⟩ := Option.bind_eq_some_iff.mp hs
    split at hs
    · simp at hs
    · rename_i rowId rest htodo
      obtain rfl := Option.some.inj hs
      have hread : ∀ r, (r, true) ∈ w.results ++ [(rowId, false)] → (r, true) ∈ w.results := by
        intro r hr
        simpa using hr
      exact h.setWorker hi hread fun key r howes hmem => howes (hread r hmem)
  | write i key again =>
    obtain ⟨w, hi, hs⟩ := Option.bind_eq_some_iff.mp hs
    obtain ⟨e, he, hs⟩ := Option.bind_eq_some_iff.mp hs
    split at hs
    · simp at hs
    · obtain rfl := Option.some.inj hs
      obtain rfl : e.request.key = key := by simpa using List.find?_some he
      refine inv_write h hi (hsafe e ?_) ?_
      · simp [State.pendingAt, hi, he]
      · split
        · exact Or.inl rfl
        · exact Or.inr rfl
  | writeFails i key =>
    obtain ⟨w, hi, hs⟩ := Option.bind_eq_some_iff.mp hs
    split at hs
    · simp at hs
    · obtain rfl := Option.some.inj hs
      exact h.setWorker hi (fun r hr => (mem_failRows.mp hr).1) fun key r howes => howes.writeFails
  | edgeFails i rowId =>
    obtain ⟨w, hi, hs⟩ := Option.bind_eq_some_iff.mp hs
    split at hs
    · simp at hs
    · obtain rfl := Option.some.inj hs
      exact h.setWorker hi (fun r hr => (mem_failRows.mp hr).1) fun key r howes hmem =>
        howes (mem_failRows.mp hmem).1
  | mark i =>
    obtain ⟨w, hi, hs⟩ := Option.bind_eq_some_iff.mp hs
    split at hs
    · rename_i hpending hresults
      obtain rfl := Option.some.inj hs
      exact inv_mark h hi hpending hresults
    · simp at hs
  | crash i =>
    obtain ⟨w, _, hs⟩ := Option.bind_eq_some_iff.mp hs
    obtain rfl := Option.some.inj hs
    exact inv_crash h
  | propagate key =>
    obtain rfl := Option.some.inj hs
    exact ⟨h.live, h.ids, h.read, h.tracked⟩
  | tick ms =>
    obtain rfl := Option.some.inj hs
    exact ⟨h.live, h.ids, h.read, h.tracked⟩

/-- **Runs whose steps lose nothing converge**, whatever the workers' order. -/
theorem guarded_converged (p : Platform) {as : List Action} {t : State}
    (hsafe : Guarded (step p) (Safe p) start as) (hr : run (step p) start as = some t) :
    Converged p t := by
  have hinv : Inv p t := invariant_of_guarded (fun _ _ _ => inv_step) as start t inv_start hsafe hr
  exact hinv.converged

end

/-! ### A slow worker -/

/-- A runtime for ASCII texts. -/
def plainPlatform : Platform where
  toLowerCase s := String.ofList (s.toList.map Char.toLower)
  toUpperCase s := String.ofList (s.toList.map Char.toUpper)
  parseUrl _ := none
  parseDate _ := none
  toISOString _ := ""
  parseJson _ := none
  stringifyJson _ := "null"
  hmacSha256Hex _ _ := ""
  verifyToken _ _ := none

def saleLink (id destination : String) : ProjectedLink where
  id := id
  workspaceId := "workspace"
  destination := destination
  redirectType := .r302
  rules := []
  expiresAt := none
  expiresTo := none
  activatesAt := none
  scheduledTo := none
  clickLimit := none
  clicks := 0
  hasPassword := false
  forwardQuery := false
  deepLink := false
  hideReferrer := false
  publicPreview := true
  archived := false
  disabled := false
  ownerUnverified := false
  safeBrowsingStatus := "clean"
  utm := none

def saleRow (id destination : String) : PgLink := ⟨saleLink id destination, "go.to", "sale", true⟩

def saleKey : String × String := ("d#go.to", "s#sale")

/-- A put that is outdated when it lands, before any worker has read the update's row;
then the slug gets a new link, and one worker drains the delete and the new link. -/
def orderlyRun : List Action :=
  [.create (saleRow "old" "https://a.com/"), .claim [0], .resolve 0,
    .update (saleLink "old" "https://b.com/"), .write 0 saleKey false, .mark 0,
    .claim [1], .resolve 1, .write 1 saleKey false, .mark 1, .propagate saleKey,
    .delete "old", .create (saleRow "new" "https://c.com/"), .claim [2, 3], .resolve 2, .resolve 2,
    .write 2 saleKey false, .mark 2, .mark 2]

theorem converged_orderlyRun :
    ∃ t, run (step plainPlatform) start orderlyRun = some t ∧ Converged plainPlatform t := by
  have hrun : (run (step plainPlatform) start orderlyRun).isSome = true := by decide +kernel
  obtain ⟨t, ht⟩ := Option.isSome_iff_exists.mp hrun
  exact ⟨t, ht, guarded_converged plainPlatform (by decide +kernel) ht⟩

/-- The worker of the first row is slow: another one reads, puts and marks the update
before it puts what it had read. -/
def overtakenRun : List Action :=
  [.create (saleRow "old" "https://a.com/"), .claim [0], .resolve 0,
    .update (saleLink "old" "https://b.com/"), .claim [1], .resolve 1, .write 1 saleKey false,
    .mark 1, .write 0 saleKey false, .mark 0]

/-- **A stale put stays published** with every row processed. -/
theorem stale_put_stays :
    ¬ ∀ (p : Platform) (as : List Action) (t : State),
      run (step p) start as = some t → Converged p t := by
  intro h
  have hrun : (run (step plainPlatform) start overtakenRun).isSome = true := by decide +kernel
  have hends : (run (step plainPlatform) start overtakenRun).all (fun t =>
      t.outbox.all (·.processed) &&
        getItem t.table saleKey ≠ currentItem plainPlatform t.links saleKey) = true := by
    decide +kernel
  obtain ⟨t, ht⟩ := Option.isSome_iff_exists.mp hrun
  rw [ht, Option.all_some, Bool.and_eq_true, List.all_eq_true, decide_eq_true_eq] at hends
  exact hends.2 (h plainPlatform overtakenRun t ht hends.1 saleKey)

end SnapUrl.Projection
