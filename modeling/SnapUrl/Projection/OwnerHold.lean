import Mathlib.Data.List.Flatten
import SnapUrl.Members.Roles

/-!
# Links that are held for their owner

A link is held while an active owner of its workspace has not verified the email address.  The
resolver of `apps/redirect/src/resolver.ts` asks the database each time; the projection has the
answer in the item of the link, from when `buildUpsertRequests` of
`apps/worker/src/jobs/dynamo-projection.ts` last read it.

* `act`: `verifyEmail` of `apps/api/src/auth/auth.service.ts`, link creation, the calls that change
  memberships, and the worker's statements, in any order.
* `Agree`: items and resolver hold the same links.
* `Announced`: what changes the answer for a link leaves an outbox row for it that was not read yet.
* `agree_of_announced`: **then they agree whenever every outbox row was processed**.
* `hold_outlives_owner`: an owner is removed, and the links stay held.
-/

namespace SnapUrl.Projection.OwnerHold

open Lib
open Members (Uuid)

/-! ### Tables -/

/-- A link, and whether its domain is live. -/
structure Link where
  id : Uuid
  workspaceId : Uuid
  live : Bool
deriving DecidableEq, Repr

/-- `exists (select 1 from memberships m join users u …)`. -/
def ownerUnverified (t : Members.Table) (workspaceId : Uuid) : Bool :=
  t.rows.any fun m => m.workspaceId = workspaceId && m.role = .owner && m.status = .active &&
    t.users.any fun u => m.userId = some u.id && u.emailVerifiedAt.isNone

/-- A row of `projection_outbox`, whose operation is `upsert`; its id is its place. -/
structure OutboxRow where
  linkId : Uuid
  processed : Bool
deriving DecidableEq, Repr

/-- A LINK item, by its link. -/
structure Item where
  linkId : Uuid
  ownerUnverified : Bool
deriving DecidableEq, Repr

/-- What the worker will put, and the rows it was read for. -/
structure Request where
  item : Item
  rows : List Nat
deriving DecidableEq, Repr

/-- A batch that was claimed. -/
structure Worker where
  toResolve : List Nat
  requests : List Request
  toMark : List Nat
deriving DecidableEq, Repr

def Worker.idle : Worker := ⟨[], [], []⟩

/-- A call of `verifyEmail`, by where it stands. -/
inductive Verify where
  | selecting (userId : Uuid)
  /-- The links of the owner as they were read. -/
  | enqueuing (userId : Uuid) (linkIds : List Uuid)
  | ended
deriving DecidableEq, Repr

structure State where
  members : Members.State
  verifying : List Verify
  links : List Link
  outbox : List OutboxRow
  items : List Item
  worker : Worker
deriving DecidableEq, Repr

def start (t : Members.Table) : State := ⟨Members.start t, [], [], [], [], .idle⟩

/-! ### Steps -/

inductive Action where
  /-- A statement of `invite`, `changeRole`, `remove` or `acceptInvite`. -/
  | member (a : Members.Action)
  | verifyEmail (userId : Uuid)
  /-- The next statement of a `verifyEmail`. -/
  | next (call : Nat)
  | raise (call : Nat)
  | createLink (l : Link)
  /-- The worker claims rows that are not processed. -/
  | claim (rows : List Nat)
  | resolve
  /-- An item is put, with an answer or without one. -/
  | write (answered : Bool)
  | fail
  | mark
  | die
deriving DecidableEq, Repr

/-- Members do nothing else to accounts. -/
def memberAct (cfg : Members.Config) (s : Members.State) : Members.Action → Members.State
  | .users _ => s
  | a => Members.act cfg s a

/-- `update users set email_verified_at = now where id = …`. -/
def verified (userId : Uuid) (t : Members.Table) : Members.Table :=
  { t with
    users := t.users.map fun u =>
      if u.id = userId then { u with emailVerifiedAt := some t.now } else u }

/-- What `enqueueOwnerLinkReprojection` selects. -/
def ownerLinks (t : Members.Table) (links : List Link) (userId : Uuid) : List Uuid :=
  links.flatMap fun l => (t.rows.filter fun m => m.workspaceId = l.workspaceId &&
    m.userId = some userId && m.role = .owner && m.status = .active).map fun _ => l.id

/-- The transaction of `verifyEmail` commits. -/
def State.verify (s : State) (i : Nat) (userId : Uuid) (linkIds : List Uuid) : State :=
  { s with
    members := { s.members with table := verified userId s.members.table }
    outbox := s.outbox ++ linkIds.map fun linkId => ⟨linkId, false⟩
    verifying := s.verifying.set i .ended }

/-- The next statement of `verifyEmail`. -/
def State.verifyNext (s : State) (i : Nat) : State :=
  match s.verifying[i]? with
  | some (.selecting userId) =>
    { s with
      verifying :=
        s.verifying.set i (.enqueuing userId (ownerLinks s.members.table s.links userId)) }
  | some (.enqueuing userId linkIds) => s.verify i userId linkIds
  | _ => s

/-- The rows of the outbox that are not processed. -/
def unprocessed (outbox : List OutboxRow) : List Nat :=
  (List.range outbox.length).filter fun r => (outbox[r]?).any fun row => !row.processed

/-- `buildUpsertRequests`, for the row of an op. -/
def State.resolved (s : State) (r : Nat) : Option Item :=
  (s.outbox[r]?).bind fun row =>
    ((s.links.find? fun l => l.id = row.linkId).filter Link.live).map fun l =>
      ⟨l.id, ownerUnverified s.members.table l.workspaceId⟩

/-- A batch has one request for a key, the last one. -/
def addRequest (item : Item) (r : Nat) : List Request → List Request
  | [] => [⟨item, [r]⟩]
  | q :: rest =>
    if q.item.linkId = item.linkId then ⟨item, q.rows ++ [r]⟩ :: rest
    else q :: addRequest item r rest

def put (items : List Item) (item : Item) : List Item :=
  item :: items.filter fun i => i.linkId ≠ item.linkId

def State.resolve (s : State) : State :=
  match s.worker.toResolve with
  | [] => s
  | r :: rest =>
    match s.resolved r with
    | some item =>
      { s with worker := { s.worker with
          toResolve := rest
          requests := addRequest item r s.worker.requests } }
    | none =>
      { s with worker := { s.worker with toResolve := rest, toMark := s.worker.toMark ++ [r] } }

/-- The rows of a request that was not answered are left for a later drain. -/
def State.write (s : State) (answered : Bool) : State :=
  match s.worker.toResolve, s.worker.requests with
  | [], q :: rest =>
    { s with
      items := put s.items q.item
      worker := { s.worker with
        requests := rest
        toMark := s.worker.toMark ++ if answered then q.rows else [] } }
  | _, _ => s

/-- A row cannot be resolved, or a request fails. -/
def State.fail (s : State) : State :=
  match s.worker.toResolve with
  | _ :: rest => { s with worker := { s.worker with toResolve := rest } }
  | [] => { s with worker := { s.worker with requests := s.worker.requests.tail } }

def State.mark (s : State) : State :=
  match s.worker.toMark with
  | [] => s
  | r :: rest =>
    { s with
      outbox := s.outbox.modify r fun row => { row with processed := true }
      worker := { s.worker with toMark := rest } }

/-- What an action does, nothing when it is not enabled. -/
def act (cfg : Members.Config) (s : State) : Action → State
  | .member a => { s with members := memberAct cfg s.members a }
  | .verifyEmail userId => { s with verifying := s.verifying ++ [.selecting userId] }
  | .next i => s.verifyNext i
  | .raise i => { s with verifying := s.verifying.set i .ended }
  | .createLink l =>
    if s.links.any fun l' => l'.id = l.id then s
    else { s with links := s.links ++ [l], outbox := s.outbox ++ [⟨l.id, false⟩] }
  | .claim rows =>
    if s.worker = .idle then
      { s with worker := ⟨(unprocessed s.outbox).filter fun r => r ∈ rows, [], []⟩ }
    else s
  | .resolve => s.resolve
  | .write answered => s.write answered
  | .fail => s.fail
  | .mark => s.mark
  | .die => { s with worker := .idle }

def step (cfg : Members.Config) (s : State) (a : Action) : Option State := some (act cfg s a)

/-! ### What is claimed of a run -/

def State.item (s : State) (linkId : Uuid) : Option Bool :=
  (s.items.find? fun i => i.linkId = linkId).map Item.ownerUnverified

/-- What the resolver says of a link, when it finds it. -/
def State.held (s : State) (l : Link) : Option Bool :=
  if l.live then some (ownerUnverified s.members.table l.workspaceId) else none

/-- **The projection has the links that the resolver has, and holds the same.** -/
def Agree (s : State) : Prop := ∀ l ∈ s.links, s.item l.id = s.held l

def Drained (s : State) : Prop := ∀ row ∈ s.outbox, row.processed = true

/-- The rows the worker has read. -/
def Worker.read (w : Worker) : List Nat := w.requests.flatMap Request.rows ++ w.toMark

/-- A row for the link is still to be read. -/
def State.Owed (s : State) (linkId : Uuid) : Prop :=
  ∃ r, s.outbox[r]? = some ⟨linkId, false⟩ ∧ r ∉ s.worker.read

/-- The answer for a link becomes another. -/
def State.Changes (s : State) (t : Members.Table) (l : Link) : Prop :=
  l.live = true ∧ ownerUnverified t l.workspaceId ≠ ownerUnverified s.members.table l.workspaceId

/-- **What changes the answer for a link leaves a row for it that is still to be read.** -/
def Announced (cfg : Members.Config) (s : State) : Action → Prop
  | .member a => ∀ l ∈ s.links, s.Changes (memberAct cfg s.members a).table l → s.Owed l.id
  | .next i =>
    match s.verifying[i]? with
    | some (.enqueuing userId linkIds) =>
      ∀ l ∈ s.links, s.Changes (verified userId s.members.table) l → l.id ∈ linkIds ∨ s.Owed l.id
    | _ => True
  | _ => True

/-! ### What is stored and what is still to come -/

/-- What a batch will put for a link. -/
def requested (requests : List Request) (linkId : Uuid) : Option Bool :=
  (requests.find? fun q => q.item.linkId = linkId).map fun q => q.item.ownerUnverified

/-- What an item has, once the worker has written its requests. -/
def State.coming (s : State) (linkId : Uuid) : Option Bool :=
  (requested s.worker.requests linkId).or (s.item linkId)

/-- **What is coming for a link is right, or a row that is still to be read will make it so.** -/
def Tracked (s : State) : Prop :=
  ∀ l ∈ s.links, l.live = true → s.Owed l.id ∨ s.coming l.id = s.held l

/-- What the worker has in hand. -/
structure Worker.Ok (links : List Link) (outbox : List OutboxRow) (w : Worker) : Prop where
  keys : (w.requests.map fun q => q.item.linkId).Nodup
  /-- A request has rows, of its link. -/
  rows : ∀ q ∈ w.requests, q.rows ≠ [] ∧ ∀ r ∈ q.rows, outbox[r]? = some ⟨q.item.linkId, false⟩
  claimed : ∀ r ∈ w.toResolve, ∃ linkId, outbox[r]? = some ⟨linkId, false⟩
  apart : (w.toResolve ++ w.read).Nodup
  live : ∀ q ∈ w.requests, ∃ l ∈ links, l.id = q.item.linkId ∧ l.live = true
  marked : ∀ r ∈ w.toMark, r < outbox.length

structure Inv (s : State) : Prop where
  ids : (s.links.map Link.id).Nodup
  items : ∀ i ∈ s.items, ∃ l ∈ s.links, l.id = i.linkId ∧ l.live = true
  worker : s.worker.Ok s.links s.outbox

section

variable {item : Item} {r : Nat} {requests : List Request} {linkId : Uuid}

theorem requested_cons (q : Request) :
    requested (q :: requests) linkId =
      if q.item.linkId = linkId then some q.item.ownerUnverified else requested requests linkId := by
  rw [requested, List.find?_cons]
  by_cases hid : q.item.linkId = linkId
  · rw [if_pos hid, decide_eq_true hid]
    rfl
  · rw [if_neg hid, decide_eq_false hid]
    rfl

attribute [local simp] addRequest

theorem requested_addRequest :
    requested (addRequest item r requests) linkId =
      if item.linkId = linkId then some item.ownerUnverified else requested requests linkId := by
  induction requests with
  | nil => exact requested_cons _
  | cons q rest ih =>
    rw [addRequest]
    split
    · next hkey =>
      rw [requested_cons, requested_cons, hkey]
      split <;> rfl
    · next hkey =>
      rw [requested_cons, requested_cons, ih]
      split
      · next hid => rw [if_neg fun hid' => hkey (hid.trans hid'.symm)]
      · rfl

theorem requested_eq_none (h : ∀ q ∈ requests, q.item.linkId ≠ linkId) :
    requested requests linkId = none := by
  rw [requested, List.find?_eq_none.mpr fun q hq => by simpa using h q hq]
  rfl

theorem key_of_mem_addRequest {q : Request} (h : q ∈ addRequest item r requests) :
    q.item = item ∨ q ∈ requests := by
  induction requests with
  | nil => exact Or.inl (by rw [List.mem_singleton.mp h])
  | cons q' rest ih =>
    rw [addRequest] at h
    split at h
    · rcases List.mem_cons.mp h with rfl | h
      · exact Or.inl rfl
      · exact Or.inr (List.mem_cons_of_mem _ h)
    · rcases List.mem_cons.mp h with rfl | h
      · exact Or.inr List.mem_cons_self
      · exact (ih h).imp_right (List.mem_cons_of_mem _)

/-- A request that is added has one row more. -/
theorem rows_addRequest :
    ((addRequest item r requests).flatMap Request.rows).Perm (r :: requests.flatMap Request.rows) := by
  induction requests with
  | nil => exact List.Perm.refl _
  | cons q rest ih =>
    rw [addRequest]
    split
    · simp only [List.flatMap_cons, List.append_assoc, List.singleton_append]
      exact List.perm_middle
    · simp only [List.flatMap_cons]
      exact (ih.append_left q.rows).trans List.perm_middle

theorem keys_addRequest (h : (requests.map fun q => q.item.linkId).Nodup) :
    ((addRequest item r requests).map fun q => q.item.linkId).Nodup := by
  induction requests with
  | nil => exact List.nodup_singleton _
  | cons q rest ih =>
    rw [List.map_cons, List.nodup_cons] at h
    rw [addRequest]
    split
    · next hkey =>
      rw [List.map_cons, List.nodup_cons]
      exact ⟨hkey ▸ h.1, h.2⟩
    · next hkey =>
      rw [List.map_cons, List.nodup_cons]
      refine ⟨fun hmem => ?_, ih h.2⟩
      obtain ⟨q', hq', hid⟩ := List.mem_map.mp hmem
      rcases key_of_mem_addRequest hq' with hitem | hrest
      · exact hkey (by rw [← hid, hitem])
      · exact h.1 (hid ▸ List.mem_map_of_mem hrest)

theorem rows_of_mem_addRequest {outbox : List OutboxRow}
    (hrows : ∀ q ∈ requests, q.rows ≠ [] ∧ ∀ r ∈ q.rows, outbox[r]? = some ⟨q.item.linkId, false⟩)
    (hr : outbox[r]? = some ⟨item.linkId, false⟩) :
    ∀ q ∈ addRequest item r requests,
      q.rows ≠ [] ∧ ∀ r ∈ q.rows, outbox[r]? = some ⟨q.item.linkId, false⟩ := by
  induction requests with
  | nil =>
    refine List.forall_mem_singleton.mpr ⟨List.cons_ne_nil _ _, ?_⟩
    exact List.forall_mem_singleton.mpr hr
  | cons q rest ih =>
    obtain ⟨hq, hrest⟩ := List.forall_mem_cons.mp hrows
    rw [addRequest]
    split
    · next hkey =>
      refine List.forall_mem_cons.mpr ⟨⟨?_, fun r' hr' => ?_⟩, hrest⟩
      · exact List.append_ne_nil_of_right_ne_nil _ (List.cons_ne_nil _ _)
      · rcases List.mem_append.mp hr' with hr' | hr'
        · rw [hq.2 r' hr', hkey]
        · rw [List.mem_singleton.mp hr', hr]
    · exact List.forall_mem_cons.mpr ⟨hq, ih hrest⟩

theorem find_put (items : List Item) (item : Item) (linkId : Uuid) :
    ((put items item).find? fun i => i.linkId = linkId) =
      if item.linkId = linkId then some item else items.find? fun i => i.linkId = linkId := by
  rw [put, List.find?_cons]
  by_cases hid : item.linkId = linkId
  · rw [if_pos hid, decide_eq_true hid]
  · rw [if_neg hid, decide_eq_false hid, List.find?_filter]
    refine congrArg (List.find? · items) (funext fun i => ?_)
    by_cases hi : i.linkId = linkId
    · simp [hi, Ne.symm hid]
    · simp [hi]

theorem mem_put {items : List Item} {i : Item} (h : i ∈ put items item) :
    i = item ∨ i ∈ items := by
  rcases List.mem_cons.mp h with rfl | h
  · exact Or.inl rfl
  · exact Or.inr (List.mem_of_mem_filter h)

end

/-! ### What the worker keeps -/

section

variable {cfg : Members.Config} {s : State}

/-- What `resolved` reads. -/
theorem resolved_eq_some {r : Nat} {linkId : Uuid} {item : Item}
    (hrow : s.outbox[r]? = some ⟨linkId, false⟩) (h : s.resolved r = some item) :
    item.linkId = linkId ∧ ∃ l ∈ s.links, l.id = item.linkId ∧ l.live = true ∧
      s.held l = some item.ownerUnverified := by
  rw [State.resolved, hrow, Option.bind_some] at h
  obtain ⟨l, hl, rfl⟩ := Option.map_eq_some_iff.mp h
  obtain ⟨hfind, hlive⟩ := Option.filter_eq_some_iff.mp hl
  have hid : l.id = linkId :=
    of_decide_eq_true (List.find?_some (p := fun l : Link => l.id = linkId) hfind)
  exact ⟨hid, l, List.mem_of_find?_eq_some hfind, rfl, hlive, if_pos hlive⟩

/-- A row that is not resolved to an item is not of a live link. -/
theorem resolved_eq_none (hids : (s.links.map Link.id).Nodup) {r : Nat} {l : Link}
    (hl : l ∈ s.links) (hlive : l.live = true) (hrow : s.outbox[r]? = some ⟨l.id, false⟩) :
    s.resolved r ≠ none := by
  rw [State.resolved, hrow, Option.bind_some]
  cases hfind : s.links.find? fun l' => l'.id = l.id with
  | none => exact absurd (decide_eq_true rfl) (List.find?_eq_none.mp hfind l hl)
  | some l' =>
    have hid : l'.id = l.id :=
      of_decide_eq_true (List.find?_some (p := fun l' : Link => l'.id = l.id) hfind)
    rw [List.inj_on_of_nodup_map hids (List.mem_of_find?_eq_some hfind) hl hid,
      Option.filter_some_pos hlive]
    exact nofun

/-- Where the worker has read less, more is still to be read. -/
theorem Owed.mono {s' : State} {linkId : Uuid} (h : s.Owed linkId) (houtbox : s'.outbox = s.outbox)
    (hread : ∀ r ∈ s'.worker.read, r ∈ s.worker.read) : s'.Owed linkId := by
  obtain ⟨r, hrow, hunread⟩ := h
  exact ⟨r, houtbox ▸ hrow, fun hr => hunread (hread r hr)⟩

theorem read_addRequest (item : Item) (r : Nat) (w : Worker) (toResolve : List Nat) :
    (Worker.read ⟨toResolve, addRequest item r w.requests, w.toMark⟩).Perm (r :: w.read) :=
  rows_addRequest.append_right w.toMark

theorem inv_resolve (h : Inv s) : Inv s.resolve := by
  rw [State.resolve]
  split
  · exact h
  next r rest htoResolve =>
  have hok := h.worker
  obtain ⟨linkId, hrow⟩ := hok.claimed r (by rw [htoResolve]; exact List.mem_cons_self)
  have hclaimed : ∀ r ∈ rest, ∃ linkId, s.outbox[r]? = some ⟨linkId, false⟩ := fun r' hr' =>
    hok.claimed r' (by rw [htoResolve]; exact List.mem_cons_of_mem _ hr')
  have hapart := hok.apart
  rw [htoResolve, List.cons_append] at hapart
  have hmiddle : (rest ++ r :: s.worker.read).Nodup := List.perm_middle.nodup_iff.mpr hapart
  split
  · next item hitem =>
    obtain ⟨hid, l, hl, hlid, hlive, -⟩ := resolved_eq_some hrow hitem
    refine ⟨h.ids, h.items, keys_addRequest hok.keys, ?_, hclaimed, ?_, fun q hq => ?_,
      hok.marked⟩
    · exact rows_of_mem_addRequest hok.rows (hid ▸ hrow)
    · exact ((read_addRequest item r s.worker rest).append_left rest).nodup_iff.mpr hmiddle
    · rcases key_of_mem_addRequest hq with hq | hq
      · exact ⟨l, hl, hlid.trans (congrArg Item.linkId hq).symm, hlive⟩
      · exact hok.live q hq
  · refine ⟨h.ids, h.items, hok.keys, hok.rows, hclaimed, ?_, hok.live, fun r' hr' => ?_⟩
    · have hperm : (Worker.read ⟨rest, s.worker.requests, s.worker.toMark ++ [r]⟩).Perm
          (r :: s.worker.read) := by
        rw [Worker.read, ← List.append_assoc]
        exact List.perm_append_singleton r _
      exact (hperm.append_left rest).nodup_iff.mpr hmiddle
    · rcases List.mem_append.mp hr' with hr' | hr'
      · exact hok.marked r' hr'
      · rw [List.mem_singleton.mp hr']
        exact (List.getElem?_eq_some_iff.mp hrow).1

theorem tracked_resolve (h : Inv s) (ht : Tracked s) : Tracked s.resolve := by
  rw [State.resolve]
  split
  · exact ht
  next r rest htoResolve =>
  obtain ⟨linkId, hrow⟩ := h.worker.claimed r (by rw [htoResolve]; exact List.mem_cons_self)
  split
  · next item hitem =>
    obtain ⟨hid, l', hl', hlid', -, hheld⟩ := resolved_eq_some hrow hitem
    intro l hl hlive
    by_cases hkey : item.linkId = l.id
    · right
      have hsame : l' = l := List.inj_on_of_nodup_map h.ids hl' hl (hlid'.trans hkey)
      rw [State.coming]
      dsimp only
      rw [requested_addRequest, if_pos hkey, Option.some_or, ← hheld, hsame]
      rfl
    · rcases ht l hl hlive with ⟨r', hrow', hunread⟩ | hcoming
      · refine Or.inl ⟨r', hrow', fun hr' => ?_⟩
        rcases List.mem_cons.mp ((read_addRequest item r s.worker rest).mem_iff.mp hr') with rfl | hr'
        · rw [hrow] at hrow'
          exact hkey (hid.trans (OutboxRow.mk.inj (Option.some.inj hrow')).1)
        · exact hunread hr'
      · right
        rw [State.coming]
        dsimp only
        rw [requested_addRequest, if_neg hkey]
        exact hcoming
  · next hnone =>
    intro l hl hlive
    refine (ht l hl hlive).imp_left ?_
    rintro ⟨r', hrow', hunread⟩
    refine ⟨r', hrow', fun hr' => ?_⟩
    rw [Worker.read, ← List.append_assoc] at hr'
    rcases List.mem_append.mp hr' with hr' | hr'
    · exact hunread hr'
    · obtain rfl := List.mem_singleton.mp hr'
      exact resolved_eq_none h.ids hl hlive hrow' hnone

/-! A worker that gives something up leaves the rows of it to be read again. -/

variable {links : List Link} {outbox : List OutboxRow} {w w' : Worker}

theorem Worker.Ok.sublist (h : w.Ok links outbox) (hresolve : w'.toResolve.Sublist w.toResolve)
    (hrequests : w'.requests.Sublist w.requests) (hmark : w'.toMark.Sublist w.toMark) :
    w'.Ok links outbox where
  keys := h.keys.sublist (hrequests.map _)
  rows q hq := h.rows q (hrequests.subset hq)
  claimed r hr := h.claimed r (hresolve.subset hr)
  apart := h.apart.sublist (hresolve.append ((hrequests.flatMap _).append hmark))
  live q hq := h.live q (hrequests.subset hq)
  marked r hr := h.marked r (hmark.subset hr)

theorem requested_of_mem (hkeys : (w.requests.map fun q => q.item.linkId).Nodup) {q : Request}
    (hq : q ∈ w.requests) : requested w.requests q.item.linkId = some q.item.ownerUnverified := by
  rw [requested]
  cases hfind : w.requests.find? fun q' => q'.item.linkId = q.item.linkId with
  | none => exact absurd (decide_eq_true rfl) (List.find?_eq_none.mp hfind q hq)
  | some q' =>
    have hkey : q'.item.linkId = q.item.linkId := of_decide_eq_true
      (List.find?_some (p := fun q' : Request => q'.item.linkId = q.item.linkId) hfind)
    rw [List.inj_on_of_nodup_map hkeys (List.mem_of_find?_eq_some hfind) hq hkey]
    rfl

/-- **What is given up is to be read again.** -/
theorem tracked_drop (h : Inv s) (ht : Tracked s)
    (hrequests : w'.requests.Sublist s.worker.requests)
    (hread : ∀ r ∈ w'.read, r ∈ s.worker.read)
    (hdropped : ∀ q ∈ s.worker.requests, q ∈ w'.requests ∨ ∀ r ∈ q.rows, r ∉ w'.read) :
    Tracked { s with worker := w' } := by
  intro l hl hlive
  rcases ht l hl hlive with howed | hcoming
  · exact Or.inl (Owed.mono howed rfl hread)
  rw [State.coming] at hcoming ⊢
  by_cases hnone : ∃ q ∈ s.worker.requests, q.item.linkId = l.id
  · obtain ⟨q, hq, hkey⟩ := hnone
    rcases hdropped q hq with hkept | hdropped
    · right
      rw [← hkey, requested_of_mem h.worker.keys hq] at hcoming
      rw [← hkey, requested_of_mem (h.worker.keys.sublist (hrequests.map _)) hkept]
      exact hcoming
    · left
      obtain ⟨hrows, hrow⟩ := h.worker.rows q hq
      obtain ⟨r, hr⟩ := List.exists_mem_of_ne_nil q.rows hrows
      exact ⟨r, hkey ▸ hrow r hr, hdropped r hr⟩
  · right
    have hother : ∀ q ∈ s.worker.requests, q.item.linkId ≠ l.id :=
      fun q hq hkey => hnone ⟨q, hq, hkey⟩
    rw [requested_eq_none hother] at hcoming
    rw [requested_eq_none fun q hq => hother q (hrequests.subset hq)]
    exact hcoming

theorem inv_fail (h : Inv s) : Inv s.fail := by
  rw [State.fail]
  split
  · next r rest htoResolve =>
    refine ⟨h.ids, h.items, h.worker.sublist ?_ (List.Sublist.refl _) (List.Sublist.refl _)⟩
    rw [htoResolve]
    exact List.sublist_cons_self r rest
  · exact ⟨h.ids, h.items, h.worker.sublist (List.Sublist.refl _) (List.tail_sublist _)
      (List.Sublist.refl _)⟩

/-- The rows of a request are in no other one, and not among those to be marked. -/
theorem rows_apart {q : Request} {rest : List Request} (h : w.Ok links outbox)
    (hrequests : w.requests = q :: rest) :
    ∀ r ∈ q.rows, r ∉ rest.flatMap Request.rows ++ w.toMark := by
  intro r hr
  have hread : (q.rows ++ (rest.flatMap Request.rows ++ w.toMark)).Nodup := by
    have hnodup := (List.nodup_append.mp h.apart).2.1
    rwa [Worker.read, hrequests, List.flatMap_cons, List.append_assoc] at hnodup
  exact fun hmem => (List.nodup_append.mp hread).2.2 r hr r hmem rfl

theorem tracked_fail (h : Inv s) (ht : Tracked s) : Tracked s.fail := by
  rw [State.fail]
  split
  · exact tracked_drop h ht (List.Sublist.refl _) (fun _ hr => hr) fun q hq => Or.inl hq
  · refine tracked_drop h ht (List.tail_sublist _) (fun r hr => ?_) fun q hq => ?_
    · rcases List.mem_append.mp hr with hr | hr
      · exact List.mem_append_left _ (((List.tail_sublist _).flatMap _).subset hr)
      · exact List.mem_append_right _ hr
    · cases hrequests : s.worker.requests with
      | nil =>
        rw [hrequests] at hq
        exact absurd hq List.not_mem_nil
      | cons q' rest =>
        rw [hrequests] at hq
        rcases List.mem_cons.mp hq with rfl | hq
        · right
          intro r hr
          rw [Worker.read]
          dsimp only
          exact rows_apart h.worker hrequests r hr
        · exact Or.inl hq

theorem inv_write (h : Inv s) (answered : Bool) : Inv (s.write answered) := by
  rw [State.write]
  split
  · next q rest htoResolve hrequests =>
    obtain ⟨hq, hrest⟩ := List.forall_mem_cons.mp (hrequests ▸ h.worker.live)
    have hok : Worker.Ok s.links s.outbox ⟨[], rest, s.worker.toMark⟩ := by
      refine h.worker.sublist (List.nil_sublist _) ?_ (List.Sublist.refl _)
      rw [hrequests]
      exact List.sublist_cons_self q rest
    refine ⟨h.ids, fun i hi => ?_, ⟨hok.keys, hok.rows, ?_, ?_, hok.live, fun r hr => ?_⟩⟩
    · rcases mem_put hi with rfl | hi
      · exact hq
      · exact h.items i hi
    · rw [htoResolve]
      exact fun r hr => absurd hr List.not_mem_nil
    · have hnodup := h.worker.apart
      rw [htoResolve, List.nil_append] at hnodup ⊢
      rw [Worker.read, hrequests, List.flatMap_cons] at hnodup
      rw [Worker.read, ← List.append_assoc]
      split
      · refine (List.Perm.nodup_iff ?_).mpr hnodup
        rw [List.append_assoc q.rows]
        exact List.perm_append_comm
      · rw [List.append_nil]
        exact hnodup.sublist ((List.sublist_append_right q.rows _).append (List.Sublist.refl _))
    · rcases List.mem_append.mp hr with hr | hr
      · exact h.worker.marked r hr
      · split at hr
        · have hrow := (h.worker.rows q (by rw [hrequests]; exact List.mem_cons_self)).2 r hr
          exact (List.getElem?_eq_some_iff.mp hrow).1
        · exact absurd hr List.not_mem_nil
  · exact h

theorem tracked_write (h : Inv s) (ht : Tracked s) (answered : Bool) :
    Tracked (s.write answered) := by
  rw [State.write]
  split
  · next q rest htoResolve hrequests =>
    intro l hl hlive
    have hread : ∀ r ∈ Worker.read ⟨s.worker.toResolve, rest,
        s.worker.toMark ++ if answered then q.rows else []⟩, r ∈ s.worker.read := by
      intro r hr
      rw [Worker.read, hrequests, List.flatMap_cons]
      rw [Worker.read] at hr
      rcases List.mem_append.mp hr with hr | hr
      · exact List.mem_append_left _ (List.mem_append_right _ hr)
      rcases List.mem_append.mp hr with hr | hr
      · exact List.mem_append_right _ hr
      · split at hr
        · exact List.mem_append_left _ (List.mem_append_left _ hr)
        · exact absurd hr List.not_mem_nil
    refine (ht l hl hlive).imp (fun howed => Owed.mono (s := s) howed rfl hread) fun hcoming => ?_
    rw [State.coming, hrequests, requested_cons] at hcoming
    rw [State.coming]
    dsimp only [State.item]
    rw [find_put]
    split
    · next hkey =>
      have hnotIn : ∀ q' ∈ rest, q'.item.linkId ≠ l.id := by
        have hkeys := h.worker.keys
        rw [hrequests, List.map_cons, List.nodup_cons] at hkeys
        exact fun q' hq' hid => hkeys.1 (hkey ▸ hid ▸ List.mem_map_of_mem hq')
      rw [requested_eq_none hnotIn]
      rw [if_pos hkey] at hcoming
      exact hcoming
    · next hkey =>
      rw [if_neg hkey] at hcoming
      exact hcoming
  · exact ht

/-- Marking a row leaves those that are still to be read, resolved or written. -/
theorem getElem?_mark {r r' : Nat} (hne : r' ≠ r) :
    (s.outbox.modify r fun row => { row with processed := true })[r']? = s.outbox[r']? :=
  List.getElem?_modify_ne _ _ hne.symm

theorem mark_apart {r : Nat} {rest : List Nat} (h : w.Ok links outbox)
    (htoMark : w.toMark = r :: rest) :
    r ∉ w.toResolve ∧ r ∉ w.requests.flatMap Request.rows := by
  have hapart := h.apart
  rw [Worker.read, htoMark, ← List.append_assoc] at hapart
  have hout := (List.nodup_append.mp hapart).2.2
  exact ⟨fun hr => hout r (List.mem_append_left _ hr) r List.mem_cons_self rfl,
    fun hr => hout r (List.mem_append_right _ hr) r List.mem_cons_self rfl⟩

theorem inv_mark (h : Inv s) : Inv s.mark := by
  rw [State.mark]
  split
  · exact h
  next r rest htoMark =>
  obtain ⟨hresolve, hrows⟩ := mark_apart h.worker htoMark
  refine ⟨h.ids, h.items, h.worker.keys, fun q hq => ?_, fun r' hr' => ?_, ?_, h.worker.live,
    fun r' hr' => ?_⟩
  · refine ⟨(h.worker.rows q hq).1, fun r' hr' => ?_⟩
    have hne : r' ≠ r := fun heq => hrows (heq ▸ List.mem_flatMap.mpr ⟨q, hq, hr'⟩)
    exact (getElem?_mark hne).trans ((h.worker.rows q hq).2 r' hr')
  · obtain ⟨linkId, hrow⟩ := h.worker.claimed r' hr'
    have hne : r' ≠ r := fun heq => hresolve (heq ▸ hr')
    exact ⟨linkId, (getElem?_mark hne).trans hrow⟩
  · refine h.worker.apart.sublist ((List.Sublist.refl _).append ((List.Sublist.refl _).append ?_))
    rw [htoMark]
    exact List.sublist_cons_self r rest
  · rw [List.length_modify]
    exact h.worker.marked r' (htoMark ▸ List.mem_cons_of_mem _ hr')

theorem tracked_mark (ht : Tracked s) : Tracked s.mark := by
  rw [State.mark]
  split
  · exact ht
  next r rest htoMark =>
  intro l hl hlive
  refine (ht l hl hlive).imp_left ?_
  rintro ⟨r', hrow, hunread⟩
  have hmark : r ∈ s.worker.toMark := htoMark ▸ List.mem_cons_self
  have hne : r' ≠ r := fun heq => hunread (heq ▸ List.mem_append_right _ hmark)
  refine ⟨r', (getElem?_mark hne).trans hrow, fun hr' => hunread ?_⟩
  rcases List.mem_append.mp hr' with hr' | hr'
  · exact List.mem_append_left _ hr'
  · exact List.mem_append_right _ (htoMark ▸ List.mem_cons_of_mem _ hr')

/-! What is committed beside the worker. -/

theorem Worker.Ok.append (h : w.Ok links outbox) (links' : List Link) (rows : List OutboxRow) :
    w.Ok (links ++ links') (outbox ++ rows) where
  keys := h.keys
  rows q hq := ⟨(h.rows q hq).1, fun r hr => by
    rw [List.getElem?_append_left (List.getElem?_eq_some_iff.mp ((h.rows q hq).2 r hr)).1]
    exact (h.rows q hq).2 r hr⟩
  claimed r hr := by
    obtain ⟨linkId, hrow⟩ := h.claimed r hr
    rw [List.getElem?_append_left (List.getElem?_eq_some_iff.mp hrow).1]
    exact ⟨linkId, hrow⟩
  apart := h.apart
  live q hq := by
    obtain ⟨l, hl, hlive⟩ := h.live q hq
    exact ⟨l, List.mem_append_left _ hl, hlive⟩
  marked r hr := by
    rw [List.length_append]
    exact Nat.lt_add_right _ (h.marked r hr)

theorem lt_of_mem_read (h : w.Ok links outbox) {r : Nat} (hr : r ∈ w.read) : r < outbox.length := by
  rcases List.mem_append.mp hr with hr | hr
  · obtain ⟨q, hq, hr⟩ := List.mem_flatMap.mp hr
    exact (List.getElem?_eq_some_iff.mp ((h.rows q hq).2 r hr)).1
  · exact h.marked r hr

/-- **Rows that are appended are still to be read.** -/
theorem owed_append_iff {v : State} (h : s.worker.Ok s.links s.outbox) (linkIds : List Uuid)
    (houtbox : v.outbox = s.outbox ++ linkIds.map fun linkId => ⟨linkId, false⟩)
    (hworker : v.worker = s.worker) (linkId : Uuid) :
    v.Owed linkId ↔ linkId ∈ linkIds ∨ s.Owed linkId := by
  rw [State.Owed, houtbox, hworker]
  constructor
  · rintro ⟨r, hrow, hunread⟩
    by_cases hr : r < s.outbox.length
    · rw [List.getElem?_append_left hr] at hrow
      exact Or.inr ⟨r, hrow, hunread⟩
    · rw [List.getElem?_append_right (Nat.le_of_not_lt hr)] at hrow
      obtain ⟨linkId', hmem, heq⟩ := List.mem_map.mp (List.mem_of_getElem? hrow)
      exact Or.inl ((OutboxRow.mk.inj heq).1 ▸ hmem)
  · rintro (hmem | ⟨r, hrow, hunread⟩)
    · obtain ⟨i, hi⟩ := List.mem_iff_getElem?.mp hmem
      refine ⟨s.outbox.length + i, ?_, fun hread => ?_⟩
      · rw [List.getElem?_append_right (Nat.le_add_right _ _), Nat.add_sub_cancel_left,
          List.getElem?_map, hi]
        rfl
      · exact absurd (lt_of_mem_read h hread) (Nat.not_lt_of_le (Nat.le_add_right _ _))
    · refine ⟨r, ?_, hunread⟩
      rw [List.getElem?_append_left (List.getElem?_eq_some_iff.mp hrow).1]
      exact hrow

theorem inv_claim (h : Inv s) (rows : List Nat) :
    Inv { s with worker := ⟨(unprocessed s.outbox).filter fun r => r ∈ rows, [], []⟩ } := by
  refine ⟨h.ids, h.items, List.nodup_nil, fun q hq => absurd hq List.not_mem_nil, ?_, ?_,
    fun q hq => absurd hq List.not_mem_nil, fun r hr => absurd hr List.not_mem_nil⟩
  · intro r hr
    obtain ⟨⟨linkId, processed⟩, hrow, hprocessed⟩ := (Option.any_eq_true _ _).mp
      (List.mem_filter.mp (List.mem_of_mem_filter hr)).2
    obtain rfl : processed = false := (Bool.not_eq_true' processed).mp hprocessed
    exact ⟨linkId, hrow⟩
  · rw [Worker.read, List.flatMap_nil, List.append_nil, List.append_nil]
    exact (List.nodup_range.filter _).filter _

theorem inv_verifyNext (h : Inv s) (i : Nat) : Inv (s.verifyNext i) := by
  rw [State.verifyNext]
  split
  · exact ⟨h.ids, h.items, h.worker⟩
  · next userId linkIds _ =>
    refine ⟨h.ids, h.items, ?_⟩
    have happend := h.worker.append [] (linkIds.map fun linkId => ⟨linkId, false⟩)
    rwa [List.append_nil] at happend
  · exact h

theorem inv_createLink (h : Inv s) {l : Link} (hl : ¬ s.links.any (fun l' => l'.id = l.id) = true) :
    Inv { s with links := s.links ++ [l], outbox := s.outbox ++ [⟨l.id, false⟩] } := by
  refine ⟨?_, fun i hi => ?_, h.worker.append [l] [⟨l.id, false⟩]⟩
  · rw [List.map_append]
    refine h.ids.append (List.nodup_singleton _) fun id hold hnew => hl ?_
    obtain ⟨l', hl', hid⟩ := List.mem_map.mp hold
    rw [List.map_singleton, List.mem_singleton] at hnew
    exact List.any_eq_true.mpr ⟨l', hl', decide_eq_true (hid.trans hnew)⟩
  · obtain ⟨l', hl', hlive⟩ := h.items i hi
    exact ⟨l', List.mem_append_left _ hl', hlive⟩

/-- **Every action keeps the invariant.** -/
theorem inv_act (h : Inv s) (a : Action) : Inv (act cfg s a) := by
  cases a with
  | member a => exact ⟨h.ids, h.items, h.worker⟩
  | verifyEmail userId => exact ⟨h.ids, h.items, h.worker⟩
  | next i => exact inv_verifyNext h i
  | raise i => exact ⟨h.ids, h.items, h.worker⟩
  | createLink l =>
    rw [act]
    split
    · exact h
    · next hl => exact inv_createLink h hl
  | claim rows =>
    rw [act]
    split
    · exact inv_claim h rows
    · exact h
  | resolve => exact inv_resolve h
  | write answered => exact inv_write h answered
  | fail => exact inv_fail h
  | mark => exact inv_mark h
  | die =>
    exact ⟨h.ids, h.items, h.worker.sublist (List.nil_sublist _) (List.nil_sublist _)
      (List.nil_sublist _)⟩

/-- A change of the members is right for a link when it is announced. -/
theorem owed_or_coming_iff {v : State} {l : Link} (hlive : l.live = true)
    (ht : s.Owed l.id ∨ s.coming l.id = s.held l) (howed : s.Owed l.id → v.Owed l.id)
    (hcoming : v.coming l.id = s.coming l.id) :
    v.Owed l.id ∨ v.coming l.id = v.held l ↔
      (s.Changes v.members.table l → v.Owed l.id) := by
  constructor
  · rintro (h | h) hchanges
    · exact h
    · rcases ht with ht | ht
      · exact howed ht
      · rw [hcoming, ht, State.held, State.held, if_pos hlive, if_pos hlive] at h
        exact absurd (Option.some.inj h).symm hchanges.2
  · intro h
    by_cases hsame :
        ownerUnverified v.members.table l.workspaceId = ownerUnverified s.members.table l.workspaceId
    · refine ht.imp howed fun ht => ?_
      rw [hcoming, ht, State.held, State.held, if_pos hlive, if_pos hlive, hsame]
    · exact Or.inl (h ⟨hlive, hsame⟩)

/-- **An action keeps every link tracked exactly when it announces what it changes.** -/
theorem tracked_act_iff (h : Inv s) (ht : Tracked s) (a : Action) :
    Tracked (act cfg s a) ↔ Announced cfg s a := by
  cases a with
  | member a =>
    refine forall₂_congr fun l hl => ?_
    constructor
    · intro hkept hchanges
      exact (owed_or_coming_iff (v := act cfg s (.member a)) hchanges.1 (ht l hl hchanges.1) id
        rfl).mp (hkept hchanges.1) hchanges
    · intro hannounced hlive
      exact (owed_or_coming_iff (v := act cfg s (.member a)) hlive (ht l hl hlive) id rfl).mpr
        hannounced
  | next i =>
    rw [act, State.verifyNext, Announced]
    cases hcall : s.verifying[i]? with
    | none => exact iff_of_true ht trivial
    | some call =>
      cases call with
      | selecting userId => exact iff_of_true ht trivial
      | ended => exact iff_of_true ht trivial
      | enqueuing userId linkIds =>
        have howed := owed_append_iff (v := s.verify i userId linkIds) h.worker linkIds rfl rfl
        refine forall₂_congr fun l hl => ?_
        constructor
        · intro hkept hchanges
          exact (howed l.id).mp ((owed_or_coming_iff hchanges.1 (ht l hl hchanges.1)
            (fun h => (howed l.id).mpr (Or.inr h)) rfl).mp (hkept hchanges.1) hchanges)
        · intro hannounced hlive
          exact (owed_or_coming_iff hlive (ht l hl hlive)
            (fun h => (howed l.id).mpr (Or.inr h)) rfl).mpr fun hchanges =>
              (howed l.id).mpr (hannounced hchanges)
  | createLink l =>
    refine iff_of_true ?_ trivial
    rw [act]
    split
    · exact ht
    · intro l' hl' hlive
      have hiff := owed_append_iff
        (v := { s with links := s.links ++ [l], outbox := s.outbox ++ [⟨l.id, false⟩] })
        h.worker [l.id] rfl rfl l'.id
      rcases List.mem_append.mp hl' with hl' | hl'
      · exact (ht l' hl' hlive).imp_left fun howed => hiff.mpr (Or.inr howed)
      · rw [List.mem_singleton.mp hl'] at hiff ⊢
        exact Or.inl (hiff.mpr (Or.inl (List.mem_singleton_self _)))
  | claim rows =>
    refine iff_of_true ?_ trivial
    rw [act]
    split
    · next hidle =>
      refine tracked_drop h ht (List.nil_sublist _) ?_ fun q _ => Or.inr ?_
      · exact fun r hr => absurd hr List.not_mem_nil
      · exact fun r _ hr => absurd hr List.not_mem_nil
    · exact ht
  | resolve => exact iff_of_true (tracked_resolve h ht) trivial
  | write answered => exact iff_of_true (tracked_write h ht answered) trivial
  | fail => exact iff_of_true (tracked_fail h ht) trivial
  | mark => exact iff_of_true (tracked_mark ht) trivial
  | die =>
    refine iff_of_true (tracked_drop h ht (List.nil_sublist _) ?_ ?_) trivial
    · exact fun r hr => absurd hr List.not_mem_nil
    · exact fun q _ => Or.inr fun r _ hr => absurd hr List.not_mem_nil
  | _ => exact iff_of_true ht trivial

end

/-! ### Every run -/

theorem inv_start (t : Members.Table) : Inv (start t) where
  ids := List.nodup_nil
  items := fun _ h => absurd h List.not_mem_nil
  worker :=
    { keys := List.nodup_nil
      rows := fun _ h => absurd h List.not_mem_nil
      claimed := fun _ h => absurd h List.not_mem_nil
      apart := List.nodup_nil
      live := fun _ h => absurd h List.not_mem_nil
      marked := fun _ h => absurd h List.not_mem_nil }

/-- Once every row was processed, the worker has no request left, and nothing is owed. -/
theorem agree_of_tracked {s : State} (h : Inv s) (ht : Tracked s) (hdrained : Drained s) :
    Agree s := by
  have hprocessed : ∀ (r : Nat) (linkId : Uuid), s.outbox[r]? ≠ some ⟨linkId, false⟩ := by
    intro r linkId hrow
    exact absurd (hdrained _ (List.mem_of_getElem? hrow)) nofun
  have hrequests : ∀ linkId, requested s.worker.requests linkId = none := by
    refine fun linkId => requested_eq_none fun q hq => ?_
    obtain ⟨hrows, hrow⟩ := h.worker.rows q hq
    obtain ⟨r, hr⟩ := List.exists_mem_of_ne_nil q.rows hrows
    exact absurd (hrow r hr) (hprocessed r q.item.linkId)
  intro l hl
  by_cases hlive : l.live = true
  · rcases ht l hl hlive with ⟨r, hrow, -⟩ | hcoming
    · exact absurd hrow (hprocessed r l.id)
    · rwa [State.coming, hrequests, Option.none_or] at hcoming
  · rw [State.held, if_neg hlive, State.item, List.find?_eq_none.mpr, Option.map_none]
    intro i hi hid
    obtain ⟨l', hl', hid', hlive'⟩ := h.items i hi
    have hsame : l' = l :=
      List.inj_on_of_nodup_map h.ids hl' hl (hid'.trans (of_decide_eq_true hid))
    exact hlive (hsame ▸ hlive')

/-- **Whenever every outbox row was processed, the projection has the links that the resolver has
and holds the same**, in every run that announces what changes the answer for a link. -/
theorem agree_of_announced (cfg : Members.Config) (t : Members.Table) (as : List Action)
    (hannounced : Guarded (step cfg) (Announced cfg) (start t) as) :
    ∀ pre post s, as = pre ++ post → run (step cfg) (start t) pre = some s → Drained s →
      Agree s := by
  rintro pre post s rfl hrun hdrained
  have hboth : Inv s ∧ Tracked s := by
    refine invariant_of_guarded (I := fun s => Inv s ∧ Tracked s) ?_ pre _ s
      ⟨inv_start t, fun _ h => absurd h List.not_mem_nil⟩ (guarded_append.mp hannounced).1 hrun
    intro s a s' h hg hs'
    obtain rfl := Option.some.inj hs'
    exact ⟨inv_act h.1 a, (tracked_act_iff h.1 h.2 a).mpr hg⟩
  exact agree_of_tracked hboth.1 hboth.2 hdrained

/-! ### A hold that nobody lifts -/

instance (s : State) (linkId : Uuid) : Decidable (s.Owed linkId) :=
  decidable_of_iff (∃ r ∈ List.range s.outbox.length,
      s.outbox[r]? = some ⟨linkId, false⟩ ∧ r ∉ s.worker.read)
    ⟨fun ⟨r, _, h⟩ => ⟨r, h⟩, fun ⟨r, h⟩ =>
      ⟨r, List.mem_range.mpr (List.getElem?_eq_some_iff.mp h.1).1, h⟩⟩

instance (s : State) (t : Members.Table) (l : Link) : Decidable (s.Changes t l) :=
  inferInstanceAs (Decidable (_ ∧ _))

instance (cfg : Members.Config) (s : State) (a : Action) : Decidable (Announced cfg s a) :=
  match a with
  | .member a => inferInstanceAs (Decidable (∀ l ∈ s.links,
      s.Changes (memberAct cfg s.members a).table l → s.Owed l.id))
  | .next i =>
    match h : s.verifying[i]? with
    | some (.enqueuing userId linkIds) => decidable_of_iff (∀ l ∈ s.links,
        s.Changes (verified userId s.members.table) l → l.id ∈ linkIds ∨ s.Owed l.id)
        (by rw [Announced, h])
    | some (.selecting _) => isTrue (by rw [Announced, h]; trivial)
    | some .ended => isTrue (by rw [Announced, h]; trivial)
    | none => isTrue (by rw [Announced, h]; trivial)
  | .verifyEmail _ | .raise _ | .createLink _ | .claim _ | .resolve | .write _ | .fail | .mark
  | .die => isTrue trivial

instance (s : State) : Decidable (Agree s) :=
  inferInstanceAs (Decidable (∀ l ∈ s.links, s.item l.id = s.held l))

instance (s : State) : Decidable (Drained s) :=
  inferInstanceAs (Decidable (∀ row ∈ s.outbox, row.processed = true))

/-- An owner who has not verified the address, and one who has. -/
def team : Members.Table where
  now := 1000
  users := [⟨1, "ann@example.com", none⟩, ⟨2, "eve@example.com", some 0⟩]
  rows := [Members.member 1 "ann@example.com" .owner, Members.member 2 "eve@example.com" .owner]

/-- The worker takes a row from its claim to its mark. -/
def drain (row : Nat) : List Action := [.claim [row], .resolve, .write true, .mark]

/-- A link is projected, the owner verifies the address, and the link is projected again. -/
def verifiedLater : List Action :=
  Action.createLink ⟨5, 1, true⟩ :: drain 0 ++ [Action.verifyEmail 1, .next 0, .next 0] ++ drain 1

theorem agree_verifiedLater :
    ∃ s, run (step Members.plainConfig) (start team) verifiedLater = some s ∧
      s.item 5 = some false ∧ Agree s := by
  have hrun : ((run (step Members.plainConfig) (start team) verifiedLater).any fun s =>
      s.item 5 = some false ∧ Drained s) = true := by decide +kernel
  obtain ⟨s, hrun, hs⟩ := (Option.any_eq_true _ _).mp hrun
  obtain ⟨hitem, hdrained⟩ := of_decide_eq_true hs
  exact ⟨s, hrun, hitem, agree_of_announced Members.plainConfig team verifiedLater
    (by decide +kernel) verifiedLater [] s (List.append_nil _).symm hrun hdrained⟩

/-- A link is projected while it is held, and the owner who has not verified the address is
removed. -/
def ownerRemoved : List Action :=
  Action.createLink ⟨5, 1, true⟩ :: drain 0 ++ [Action.member (.remove ⟨1, .owner⟩ 1),
    .member (.next 0 ⟨0, ""⟩), .member (.next 0 ⟨0, ""⟩)]

/-- A link is created and projected between what `verifyEmail` selects and its commit. -/
def createdMeanwhile : List Action :=
  [Action.verifyEmail 1, .next 0, .createLink ⟨5, 1, true⟩] ++ drain 0 ++ [Action.next 0]

/-- **Every outbox row was processed, and the item still holds a link that the resolver lets
through.** -/
theorem hold_outlives_owner :
    (∃ s, run (step Members.plainConfig) (start team) ownerRemoved = some s ∧ Drained s ∧
      s.item 5 = some true ∧ ownerUnverified s.members.table 1 = false) ∧
    (∃ s, run (step Members.plainConfig) (start team) createdMeanwhile = some s ∧ Drained s ∧
      s.item 5 = some true ∧ ownerUnverified s.members.table 1 = false) ∧
    ¬ ∀ (cfg : Members.Config) (t : Members.Table) (as : List Action) (s : State),
      run (step cfg) (start t) as = some s → Drained s → Agree s := by
  have hremoved : ((run (step Members.plainConfig) (start team) ownerRemoved).any fun s =>
      Drained s ∧ s.item 5 = some true ∧ ownerUnverified s.members.table 1 = false) = true := by
    decide +kernel
  have hcreated : ((run (step Members.plainConfig) (start team) createdMeanwhile).any fun s =>
      Drained s ∧ s.item 5 = some true ∧ ownerUnverified s.members.table 1 = false) = true := by
    decide +kernel
  have hdisagree : ((run (step Members.plainConfig) (start team) ownerRemoved).any fun s =>
      Drained s ∧ ¬ Agree s) = true := by
    decide +kernel
  obtain ⟨s, hrun, hs⟩ := (Option.any_eq_true _ _).mp hremoved
  obtain ⟨s', hrun', hs'⟩ := (Option.any_eq_true _ _).mp hcreated
  obtain ⟨u, hrunu, hu⟩ := (Option.any_eq_true _ _).mp hdisagree
  refine ⟨⟨s, hrun, of_decide_eq_true hs⟩, ⟨s', hrun', of_decide_eq_true hs'⟩, fun h => ?_⟩
  have hboth := of_decide_eq_true hu
  exact hboth.2 (h Members.plainConfig team ownerRemoved u hrunu hboth.1)

end SnapUrl.Projection.OwnerHold
