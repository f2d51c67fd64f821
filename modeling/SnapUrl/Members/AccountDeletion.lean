import SnapUrl.Members.Roles

/-!
# Deleting an account

`deleteAccount` of `apps/api/src/admin/admin-management.service.ts` and `remove` of
`apps/api/src/workspaces/workspace-removal.service.ts`, beside `changeRole`, `remove` and
`acceptInvite` of the members.

A deletion lists the workspaces that the user owns, counts the other owners of each, and
writes the audit row; it then removes the workspaces with no other owner, each in a
transaction of its own, and deletes the user with all memberships.  The removal of a
workspace is one step: the lock of its row keeps links and memberships from coming in
between.  The foreign keys refuse a membership of a workspace or of a user that is gone.

* `Deletion.next`: the next statement or transaction of a deletion.
* `SolelyOwns`: the user is the only active owner of a workspace.
* `Current`: a list of solely owned workspaces is still right where it is used.
* `spared_step_iff`: a step leaves every workspace an owner, and removes none beside another one,
  exactly when it is current.
* `completes_retry`: a deletion that runs by itself ends, whatever was done before.
* `deletions_iff`: **deletions hold what they promise exactly when every list is current**.
* `both_owners_deleted`: two owners of one workspace are deleted at the same time.
-/

namespace SnapUrl.Members.Accounts

open Lib

/-! ### The tables -/

structure Link where
  id : Uuid
  workspaceId : Uuid
deriving DecidableEq, Repr

/-- A workspace that was removed, for whom, and the active owners it had beside them. -/
structure Removal where
  workspaceId : Uuid
  userId : Uuid
  others : List Membership
deriving DecidableEq, Repr

/-- Where a call of `deleteAccount` stands. -/
inductive Phase where
  | finding
  | listing
  /-- The workspaces to count the owners of, and those with no other one. -/
  | counting (todo sole : List Uuid)
  | auditing (sole : List Uuid)
  | removing (rest : List Uuid)
  /-- A removal was committed, and the caches of its links are busted. -/
  | busting (rest : List Uuid)
  | ended (result : Result)
deriving DecidableEq, Repr

structure Deletion where
  userId : Uuid
  phase : Phase
  /-- The workspaces that the audit row names. -/
  sole : List Uuid
deriving DecidableEq, Repr

structure World where
  members : State
  workspaces : List Uuid
  links : List Link
  /-- The links with a `delete` row in the outbox. -/
  outbox : List Uuid
  deletions : List Deletion
  /-- Every link that was there. -/
  made : List Link
  removals : List Removal
deriving DecidableEq, Repr

abbrev World.table (w : World) : Table := w.members.table

/-! ### A deletion -/

/-- The workspaces that a user is an active owner of. -/
def ownedWorkspaces (t : Table) (userId : Uuid) : List Uuid :=
  (t.rows.filter fun m => m.userId = some userId && m.role = .owner && m.status = .active).map
    Membership.workspaceId

/-- `user_id <> …` is not true of a membership without a user. -/
def otherOwners (t : Table) (workspaceId userId : Uuid) : Nat :=
  t.rows.countP fun m => m.workspaceId = workspaceId && m.role = .owner && m.status = .active &&
    m.userId.any (· ≠ userId)

/-- The active owners of a workspace other than a user. -/
def ownersBeside (t : Table) (workspaceId userId : Uuid) : List Membership :=
  t.rows.filter fun m => m.owns workspaceId ∧ m.userId ≠ some userId

/-- `WorkspaceRemovalService.remove` of a workspace that is there: all it owns goes with it, its
links after the `delete` rows of the outbox. -/
def World.removeWorkspace (userId : Uuid) (w : World) (workspaceId : Uuid) : World :=
  { w with
    members := { w.members with
      table := { w.table with rows := w.table.rows.filter fun m => m.workspaceId ≠ workspaceId } }
    workspaces := w.workspaces.filter (· ≠ workspaceId)
    links := w.links.filter fun l => l.workspaceId ≠ workspaceId
    outbox := w.outbox ++ (w.links.filter fun l => l.workspaceId = workspaceId).map Link.id
    removals := w.removals ++ [⟨workspaceId, userId, ownersBeside w.table workspaceId userId⟩] }

/-- The memberships of a user go with the row. -/
def World.deleteUser (w : World) (userId : Uuid) : World :=
  { w with
    members := { w.members with
      table := { w.table with
        users := w.table.users.filter fun u => u.id ≠ userId
        rows := w.table.rows.filter fun m => m.userId ≠ some userId } } }

/-- The next statement or transaction of a deletion. -/
def Deletion.next (w : World) (x : Deletion) : World × Deletion :=
  match x.phase with
  | .finding =>
    (w, { x with
      phase :=
        if w.table.users.any fun u => u.id = x.userId then .listing
        else .ended (.refused ⟨404, none, "No such user."⟩) })
  | .listing => (w, { x with phase := .counting (ownedWorkspaces w.table x.userId) [] })
  | .counting (workspaceId :: todo) sole =>
    (w, { x with
      phase := .counting todo
        (if otherOwners w.table workspaceId x.userId = 0 then sole ++ [workspaceId] else sole) })
  | .counting [] sole => (w, { x with phase := .auditing sole })
  | .auditing sole =>
    (w, { x with
      phase := .removing sole
      sole := sole })
  | .removing (workspaceId :: rest) =>
    if workspaceId ∈ w.workspaces then
      (w.removeWorkspace x.userId workspaceId, { x with phase := .busting rest })
    else (w, { x with phase := .ended (.refused ⟨404, none, "Workspace not found."⟩) })
  | .busting rest => (w, { x with phase := .removing rest })
  | .removing [] => (w.deleteUser x.userId, { x with phase := .ended .done })
  | .ended _ => (w, x)

/-! ### The system -/

/-- The foreign keys of a membership that is written. -/
def World.violates (w : World) : Write → Bool
  | .insert row => row.workspaceId ∉ w.workspaces ||
      row.userId.any fun userId => w.table.users.all fun u => u.id ≠ userId
  | .activate id tokenHash userId => w.table.rows.any (pending id tokenHash) &&
      w.table.users.all fun u => u.id ≠ userId
  | _ => false

/-- A statement that the foreign keys refuse raises. -/
def World.checked (cfg : Config) (w : World) : Members.Action → Members.Action
  | .next i d => if w.violates (writeOf cfg w.members (.next i d)) then .raise i else .next i d
  | a => a

/-- Accounts go by `deleteAccount` only. -/
def World.allows (w : World) : Members.Action → Bool
  | .users users => w.table.users.all fun u => users.any fun u' => u'.id = u.id
  | _ => true

inductive Action where
  /-- A call of `members.service.ts` or of `acceptInvite`, or its next statement. -/
  | members (a : Members.Action)
  | creates (link : Link)
  | deletes (userId : Uuid)
  | proceeds (i : Nat)
  /-- A deletion fails before its next step. -/
  | fails (i : Nat)
deriving DecidableEq, Repr

def step (cfg : Config) (w : World) : Action → Option World
  | .members a =>
    if w.allows a then some { w with members := act cfg w.members (w.checked cfg a) } else none
  | .creates link =>
    if link.workspaceId ∈ w.workspaces then
      some { w with
        links := w.links ++ [link]
        made := w.made ++ [link] }
    else none
  | .deletes userId => some { w with deletions := w.deletions ++ [⟨userId, .finding, []⟩] }
  | .proceeds i =>
    (w.deletions[i]?).map fun x =>
      { (x.next w).1 with deletions := w.deletions.set i (x.next w).2 }
  | .fails i =>
    match w.deletions[i]? with
    | some ⟨_, .ended _, _⟩ | none => none
    | some x => some { w with deletions := w.deletions.set i { x with phase := .ended .raised } }

/-- A user has one active membership in a workspace. -/
def Once (t : Table) : Prop := ∀ m ∈ t.rows, ∀ m' ∈ t.rows, m.status = .active →
  m'.status = .active → m.workspaceId = m'.workspaceId → m.userId = m'.userId → m.id = m'.id

/-- The tables as their writers leave them. -/
structure Installation where
  table : Table
  workspaces : List Uuid
  links : List Link
  ids : (table.rows.map Membership.id).Nodup
  belongs : ∀ m ∈ table.rows, m.workspaceId ∈ workspaces
  /-- An active membership is a user's. -/
  linked : ∀ m ∈ table.rows, m.status = .active → m.userId.isSome = true
  once : Once table
  owned : ∀ workspaceId ∈ workspaces, Owned workspaceId table
  linksBelong : ∀ l ∈ links, l.workspaceId ∈ workspaces

def World.start (s : Installation) : World :=
  ⟨Members.start s.table, s.workspaces, s.links, [], [], s.links, []⟩

/-! ### What is claimed of a run -/

/-- **The user is the only active owner of a workspace.** -/
def SolelyOwns (userId workspaceId : Uuid) (t : Table) : Prop :=
  (∃ m ∈ t.rows, m.owns workspaceId ∧ m.userId = some userId) ∧
    ∀ m ∈ t.rows, m.owns workspaceId → m.userId = some userId

/-- **No workspace without an active owner, none removed beside another one.** -/
structure Spared (w : World) : Prop where
  owned : ∀ workspaceId ∈ w.workspaces, Owned workspaceId w.table
  alone : ∀ r ∈ w.removals, r.others = []

/-- What a deletion that has run by itself leaves. -/
structure Completes (w w' : World) (userId : Uuid) : Prop where
  ended : (w'.deletions[w.deletions.length]?).map Deletion.phase = some (.ended .done)
  deleted : ∀ u ∈ w'.table.users, u.id ≠ userId
  /-- The workspaces that the user solely owned are gone, and no others. -/
  removed : ∀ workspaceId, workspaceId ∈ w'.workspaces ↔
    workspaceId ∈ w.workspaces ∧ ¬ SolelyOwns userId workspaceId w.table
  spared : Spared w'

/-- What holds of every state that is reached. -/
structure Sound (cfg : Config) (w : World) : Prop where
  spared : Spared w
  /-- **The links of a workspace that is gone have their `delete` rows.** -/
  projected : ∀ l ∈ w.made, l.workspaceId ∉ w.workspaces → l.id ∈ w.outbox
  /-- A deletion that is done has removed the workspaces it found. -/
  finished : ∀ x ∈ w.deletions, x.phase = .ended .done → ∀ workspaceId ∈ x.sole,
    workspaceId ∉ w.workspaces
  /-- **A retry completes the deletion**, whatever was done before. -/
  retried : ∀ u ∈ w.table.users, ∃ n w',
    run (step cfg) w (.deletes u.id :: List.replicate n (.proceeds w.deletions.length)) = some w' ∧
      Completes w w' u.id

/-- **The list of a deletion is still right**: what it removes the user solely owns, and when the
user is deleted nothing is left that they do. -/
def Deletion.Current (w : World) (x : Deletion) : Prop :=
  match x.phase with
  | .removing (workspaceId :: _) =>
    workspaceId ∈ w.workspaces → SolelyOwns x.userId workspaceId w.table
  | .removing [] => ∀ workspaceId ∈ w.workspaces, ¬ SolelyOwns x.userId workspaceId w.table
  | _ => True

/-- A deletion goes by a list that is still right, and a change of a member leaves an owner. -/
def Current (cfg : Config) (w : World) : Action → Prop
  | .members a => ∀ workspaceId ∈ w.workspaces,
    LeavesOwner cfg workspaceId w.members (w.checked cfg a)
  | .proceeds i => ∀ x ∈ w.deletions[i]?, x.Current w
  | _ => True

/-- Whoever accepts an invitation has no active membership of the workspace. -/
def Write.JoinsOnce (t : Table) : Write → Prop
  | .activate id tokenHash userId => ∀ m ∈ t.rows, pending id tokenHash m = true →
    ∀ m' ∈ t.rows, m'.workspaceId = m.workspaceId → m'.status = .active → m'.userId ≠ some userId
  | _ => True

def JoinsOnce (cfg : Config) (w : World) : Action → Prop
  | .members a => Write.JoinsOnce w.table (writeOf cfg w.members (w.checked cfg a))
  | _ => True

/-! ### What a statement about the members keeps -/

section

variable {cfg : Config} {w w' : World} {wr : Write} {s : State} {t : Table} {m' row : Membership}

/-- **Where a membership comes from**: it is inserted, it was there for the same user, or its
invitation is accepted. -/
theorem mem_apply (h : m' ∈ (t.apply wr).rows) : wr = .insert m' ∨
    ∃ m ∈ t.rows, m.id = m'.id ∧ m.workspaceId = m'.workspaceId ∧
      (m.status = m'.status ∧ m.userId = m'.userId ∨
        ∃ tokenHash userId, wr = .activate m.id tokenHash userId ∧
          pending m.id tokenHash m = true ∧ m'.userId = some userId) := by
  cases wr with
  | insert row =>
    rcases List.mem_append.mp h with h | h
    · exact Or.inr ⟨m', h, rfl, rfl, Or.inl ⟨rfl, rfl⟩⟩
    · exact Or.inl (congrArg Write.insert (List.mem_singleton.mp h).symm)
  | activate id tokenHash userId =>
    obtain ⟨m, hm, rfl⟩ := List.mem_map.mp h
    obtain ⟨hid, hworkspace, -⟩ := activated_same id tokenHash userId m
    refine Or.inr ⟨m, hm, hid.symm, hworkspace.symm, ?_⟩
    rw [activated]
    split
    · next hpending =>
      have hsame : m.id = id := by
        rw [pending, Bool.and_eq_true, Bool.and_eq_true, decide_eq_true_eq] at hpending
        exact hpending.1.1
      subst hsame
      exact Or.inr ⟨tokenHash, userId, rfl, hpending, rfl⟩
    · exact Or.inl ⟨rfl, rfl⟩
  | change workspace c =>
    obtain ⟨m, hm, hafter⟩ := List.mem_filterMap.mp h
    refine Or.inr ⟨m, hm, (id_of_after hafter).symm, ?_⟩
    rw [Change.after] at hafter
    split at hafter
    · rw [eq_of_result hafter]
      exact ⟨rfl, Or.inl ⟨rfl, rfl⟩⟩
    · rw [Option.some.inj hafter]
      exact ⟨rfl, Or.inl ⟨rfl, rfl⟩⟩
  | _ => exact Or.inr ⟨m', h, rfl, rfl, Or.inl ⟨rfl, rfl⟩⟩

/-- Whoever is inserted is invited. -/
theorem invited_of_insert {a : Members.Action} (h : writeOf cfg s a = .insert row) :
    row.status = .invited := by
  cases a with
  | next i d =>
    rw [writeOf] at h
    cases hc : s.calls[i]? with
    | none =>
      rw [hc] at h
      cases h
    | some c =>
      rw [hc, Option.map_some, Option.getD_some, Call.write] at h
      split at h
      · dsimp only at h
        split at h
        · cases h
        · rw [← Write.insert.inj h]
          rfl
      all_goals cases h
  | _ => cases h

/-- The foreign keys let a statement through. -/
theorem violates_checked (cfg : Config) (w : World) (a : Members.Action) :
    w.violates (writeOf cfg w.members (w.checked cfg a)) = false := by
  cases a with
  | next i d =>
    rw [World.checked]
    split
    · rfl
    · next hpasses => exact Bool.eq_false_iff.mpr hpasses
  | _ => rfl

end

/-! ### What every step keeps -/

/-- The workspaces that a deletion has not removed yet are those that it goes on with. -/
def Deletion.Lists (workspaces : List Uuid) (x : Deletion) : Prop :=
  match x.phase with
  | .removing rest => ∀ workspaceId ∈ x.sole, workspaceId ∈ rest ∨ workspaceId ∉ workspaces
  | .busting rest => ∀ workspaceId ∈ x.sole, workspaceId ∈ rest ∨ workspaceId ∉ workspaces
  | .ended .done => ∀ workspaceId ∈ x.sole, workspaceId ∉ workspaces
  | _ => True

/-- What every step keeps. -/
structure Kept (w : World) : Prop where
  ids : (w.table.rows.map Membership.id).Nodup
  belongs : ∀ m ∈ w.table.rows, m.workspaceId ∈ w.workspaces
  linked : ∀ m ∈ w.table.rows, m.status = .active → m.userId.isSome = true
  linksBelong : ∀ l ∈ w.links, l.workspaceId ∈ w.workspaces
  made : ∀ l ∈ w.made, l ∈ w.links ∨ l.id ∈ w.outbox
  lists : ∀ x ∈ w.deletions, x.Lists w.workspaces

section

variable {cfg : Config} {w : World} {x : Deletion} {userId workspaceId : Uuid}

theorem Deletion.Lists.mono {workspaces workspaces' : List Uuid} (h : x.Lists workspaces)
    (hsub : workspaces' ⊆ workspaces) : x.Lists workspaces' := by
  rw [Deletion.Lists] at h ⊢
  split at h
  · exact fun id hid => (h id hid).imp_right fun hout hin => hout (hsub hin)
  · exact fun id hid => (h id hid).imp_right fun hout hin => hout (hsub hin)
  · exact fun id hid hin => h id hid (hsub hin)
  · trivial

theorem kept_members (h : Kept w) (a : Members.Action) :
    Kept { w with members := act cfg w.members (w.checked cfg a) } where
  ids := ids_apply h.ids (fresh_writeOf _)
  belongs m' hm' := by
    rcases mem_apply hm' with hinsert | ⟨m, hm, -, hworkspace, -⟩
    · have hpasses := violates_checked cfg w a
      rw [hinsert, World.violates, Bool.or_eq_false_iff] at hpasses
      exact not_not.mp (of_decide_eq_false hpasses.1)
    · rw [← hworkspace]
      exact h.belongs m hm
  linked m' hm' hactive := by
    rcases mem_apply hm' with hinsert | ⟨m, hm, -, -, hsame | ⟨tokenHash, userId, -, -, huser⟩⟩
    · rw [invited_of_insert hinsert] at hactive
      cases hactive
    · rw [← hsame.2]
      exact h.linked m hm (hsame.1.trans hactive)
    · rw [huser]
      rfl
  linksBelong := h.linksBelong
  made := h.made
  lists := h.lists

theorem kept_creates (h : Kept w) {link : Link} (hin : link.workspaceId ∈ w.workspaces) :
    Kept { w with
      links := w.links ++ [link]
      made := w.made ++ [link] } where
  ids := h.ids
  belongs := h.belongs
  linked := h.linked
  linksBelong l hl := by
    rcases List.mem_append.mp hl with hl | hl
    · exact h.linksBelong l hl
    · rw [List.mem_singleton.mp hl]
      exact hin
  made l hl := by
    rcases List.mem_append.mp hl with hl | hl
    · exact (h.made l hl).imp_left fun hl => List.mem_append_left _ hl
    · exact Or.inl (List.mem_append_right _ hl)
  lists := h.lists

theorem mem_workspaces_removeWorkspace {id : Uuid} :
    id ∈ (w.removeWorkspace userId workspaceId).workspaces ↔
      id ∈ w.workspaces ∧ id ≠ workspaceId := by
  rw [World.removeWorkspace, List.mem_filter, decide_eq_true_eq]

theorem mem_rows_removeWorkspace {m : Membership} :
    m ∈ (w.removeWorkspace userId workspaceId).table.rows ↔
      m ∈ w.table.rows ∧ m.workspaceId ≠ workspaceId := by
  rw [World.removeWorkspace, List.mem_filter, decide_eq_true_eq]

theorem kept_removeWorkspace (h : Kept w) (userId workspaceId : Uuid) :
    Kept (w.removeWorkspace userId workspaceId) where
  ids := h.ids.sublist (List.filter_sublist.map _)
  belongs m hm := by
    obtain ⟨hm, hne⟩ := mem_rows_removeWorkspace.mp hm
    exact mem_workspaces_removeWorkspace.mpr ⟨h.belongs m hm, hne⟩
  linked m hm := h.linked m (List.mem_of_mem_filter hm)
  linksBelong l hl := by
    obtain ⟨hl, hne⟩ := List.mem_filter.mp hl
    exact List.mem_filter.mpr ⟨h.linksBelong l hl, hne⟩
  made l hl := by
    rcases h.made l hl with hl | hl
    · by_cases heq : l.workspaceId = workspaceId
      · exact Or.inr (List.mem_append_right _
          (List.mem_map_of_mem (List.mem_filter.mpr ⟨hl, decide_eq_true heq⟩)))
      · exact Or.inl (List.mem_filter.mpr ⟨hl, decide_eq_true heq⟩)
    · exact Or.inr (List.mem_append_left _ hl)
  lists x hx := (h.lists x hx).mono fun _ hid => List.mem_of_mem_filter hid

theorem kept_deleteUser (h : Kept w) (userId : Uuid) : Kept (w.deleteUser userId) where
  ids := h.ids.sublist (List.filter_sublist.map _)
  belongs m hm := h.belongs m (List.mem_of_mem_filter hm)
  linked m hm := h.linked m (List.mem_of_mem_filter hm)
  linksBelong := h.linksBelong
  made := h.made
  lists := h.lists

/-- **A step of a deletion**: its list goes down by what is removed. -/
theorem kept_next (h : Kept w) (hx : x.Lists w.workspaces) :
    Kept (x.next w).1 ∧ (x.next w).2.Lists (x.next w).1.workspaces := by
  obtain ⟨userId, phase, sole⟩ := x
  cases phase with
  | finding =>
    refine ⟨h, ?_⟩
    dsimp only [Deletion.next]
    split <;> trivial
  | listing => exact ⟨h, trivial⟩
  | counting todo found =>
    cases todo with
    | nil => exact ⟨h, trivial⟩
    | cons workspaceId todo => exact ⟨h, trivial⟩
  | auditing found => exact ⟨h, fun id hid => Or.inl hid⟩
  | busting rest => exact ⟨h, hx⟩
  | ended result => exact ⟨h, hx⟩
  | removing rest =>
    cases rest with
    | nil =>
      refine ⟨kept_deleteUser h userId, fun id hid => ?_⟩
      exact (hx id hid).resolve_left List.not_mem_nil
    | cons workspaceId rest =>
      dsimp only [Deletion.next]
      split
      · refine ⟨kept_removeWorkspace h userId workspaceId, fun id hid => ?_⟩
        rcases hx id hid with hin | hout
        · rcases List.mem_cons.mp hin with heq | hin
          · exact Or.inr fun hin => (mem_workspaces_removeWorkspace.mp hin).2 heq
          · exact Or.inl hin
        · exact Or.inr fun hin => hout (mem_workspaces_removeWorkspace.mp hin).1
      · exact ⟨h, trivial⟩

theorem next_deletions (w : World) (x : Deletion) : (x.next w).1.deletions = w.deletions := by
  obtain ⟨userId, phase, sole⟩ := x
  cases phase with
  | counting todo found => cases todo <;> rfl
  | removing rest =>
    cases rest with
    | nil => rfl
    | cons workspaceId rest =>
      dsimp only [Deletion.next]
      split <;> rfl
  | _ => rfl

theorem kept_deletions (h : Kept w) {deletions : List Deletion}
    (hlists : ∀ x ∈ deletions, x.Lists w.workspaces) :
    Kept { w with deletions := deletions } where
  ids := h.ids
  belongs := h.belongs
  linked := h.linked
  linksBelong := h.linksBelong
  made := h.made
  lists := hlists

/-- **Every step keeps these.** -/
theorem kept_step {w' : World} {a : Action} (h : Kept w) (hstep : step cfg w a = some w') :
    Kept w' := by
  cases a with
  | members a =>
    rw [step] at hstep
    split at hstep
    · rw [← Option.some.inj hstep]
      exact kept_members h a
    · cases hstep
  | creates link =>
    rw [step] at hstep
    split at hstep
    · next hin =>
      rw [← Option.some.inj hstep]
      exact kept_creates h hin
    · cases hstep
  | deletes userId =>
    rw [← Option.some.inj hstep]
    refine kept_deletions h fun x hx => ?_
    rcases List.mem_append.mp hx with hx | hx
    · exact h.lists x hx
    · rw [List.mem_singleton.mp hx]
      trivial
  | proceeds i =>
    obtain ⟨x, hx, rfl⟩ := Option.map_eq_some_iff.mp hstep
    obtain ⟨hkept, hlists⟩ := kept_next h (h.lists x (List.mem_of_getElem? hx))
    refine kept_deletions hkept fun y hy => ?_
    rcases List.mem_or_eq_of_mem_set hy with hy | rfl
    · rw [← next_deletions w x] at hy
      exact hkept.lists y hy
    · exact hlists
  | fails i =>
    rw [step] at hstep
    split at hstep
    · cases hstep
    · cases hstep
    · rw [← Option.some.inj hstep]
      refine kept_deletions h fun y hy => ?_
      rcases List.mem_or_eq_of_mem_set hy with hy | rfl
      · exact h.lists y hy
      · trivial

end

/-! ### Owners -/

section

variable {cfg : Config} {w : World} {x : Deletion} {t t' : Table} {userId workspaceId : Uuid}

/-- A workspace that is owned is solely owned when all its owners are one user. -/
theorem solelyOwns_iff (h : Owned workspaceId t) :
    SolelyOwns userId workspaceId t ↔
      ∀ m ∈ t.rows, m.owns workspaceId → m.userId = some userId := by
  obtain ⟨m, hm, howns⟩ := h
  exact ⟨fun hsole => hsole.2, fun hall => ⟨⟨m, hm, howns, hall m hm howns⟩, hall⟩⟩

/-- The owners of a workspace are its own memberships. -/
theorem solelyOwns_congr
    (h : ∀ m : Membership, m.workspaceId = workspaceId → (m ∈ t.rows ↔ m ∈ t'.rows)) :
    SolelyOwns userId workspaceId t ↔ SolelyOwns userId workspaceId t' := by
  constructor
  · rintro ⟨⟨m, hm, howns, huser⟩, hall⟩
    exact ⟨⟨m, (h m howns.1).mp hm, howns, huser⟩,
      fun m' hm' howns' => hall m' ((h m' howns'.1).mpr hm') howns'⟩
  · rintro ⟨⟨m, hm, howns, huser⟩, hall⟩
    exact ⟨⟨m, (h m howns.1).mpr hm, howns, huser⟩,
      fun m' hm' howns' => hall m' ((h m' howns'.1).mp hm') howns'⟩

theorem ownersBeside_eq_nil_iff : ownersBeside t workspaceId userId = [] ↔
    ∀ m ∈ t.rows, m.owns workspaceId → m.userId = some userId := by
  rw [ownersBeside, List.filter_eq_nil_iff]
  refine forall₂_congr fun m _ => ?_
  rw [decide_eq_true_eq, not_and, not_not]

/-- **A removal spares the owners of others exactly when the user solely owns the workspace.** -/
theorem spared_removeWorkspace_iff (h : Spared w) (hin : workspaceId ∈ w.workspaces) :
    Spared (w.removeWorkspace userId workspaceId) ↔ SolelyOwns userId workspaceId w.table := by
  rw [solelyOwns_iff (h.owned workspaceId hin), ← ownersBeside_eq_nil_iff]
  constructor
  · intro hspared
    exact hspared.alone _ (List.mem_append_right _ (List.mem_singleton_self _))
  · intro hnone
    refine ⟨fun id hid => ?_, fun r hr => ?_⟩
    · obtain ⟨hid, hne⟩ := mem_workspaces_removeWorkspace.mp hid
      obtain ⟨m, hm, howns⟩ := h.owned id hid
      exact ⟨m, mem_rows_removeWorkspace.mpr ⟨hm, howns.1 ▸ hne⟩, howns⟩
    · rcases List.mem_append.mp hr with hr | hr
      · exact h.alone r hr
      · rw [List.mem_singleton.mp hr]
        exact hnone

/-- **A user can go exactly when they solely own nothing.** -/
theorem spared_deleteUser_iff (h : Spared w) : Spared (w.deleteUser userId) ↔
    ∀ workspaceId ∈ w.workspaces, ¬ SolelyOwns userId workspaceId w.table := by
  constructor
  · rintro hspared id hid ⟨-, hall⟩
    obtain ⟨m, hm, howns⟩ := hspared.owned id hid
    obtain ⟨hm, hother⟩ := List.mem_filter.mp hm
    exact of_decide_eq_true hother (hall m hm howns)
  · intro hnone
    refine ⟨fun id hid => ?_, h.alone⟩
    have hnot := hnone id hid
    rw [solelyOwns_iff (h.owned id hid)] at hnot
    push Not at hnot
    obtain ⟨m, hm, howns, hother⟩ := hnot
    exact ⟨m, List.mem_filter.mpr ⟨hm, decide_eq_true hother⟩, howns⟩

/-- **A step of a deletion is safe exactly when its list is current.** -/
theorem spared_next_iff (h : Spared w) (x : Deletion) :
    Spared (x.next w).1 ↔ x.Current w := by
  obtain ⟨userId, phase, sole⟩ := x
  cases phase with
  | counting todo found => cases todo <;> exact iff_of_true h trivial
  | removing rest =>
    cases rest with
    | nil => exact spared_deleteUser_iff h
    | cons workspaceId rest =>
      dsimp only [Deletion.next, Deletion.Current]
      split
      · next hin =>
        rw [spared_removeWorkspace_iff h hin]
        exact ⟨fun hsole _ => hsole, fun hsole => hsole hin⟩
      · next hout => exact iff_of_true h fun hin => absurd hin hout
  | _ => exact iff_of_true h trivial

/-- **A step is safe exactly when it is current.** -/
theorem spared_step_iff {w' : World} {a : Action} (h : Spared w) (hstep : step cfg w a = some w') :
    Spared w' ↔ Current cfg w a := by
  cases a with
  | members a =>
    rw [step] at hstep
    split at hstep
    · rw [← Option.some.inj hstep]
      constructor
      · exact fun hspared id hid => (owned_apply_iff (h.owned id hid) _).mp (hspared.owned id hid)
      · exact fun hleaves =>
          ⟨fun id hid => (owned_apply_iff (h.owned id hid) _).mpr (hleaves id hid), h.alone⟩
    · cases hstep
  | creates link =>
    rw [step] at hstep
    split at hstep
    · rw [← Option.some.inj hstep]
      exact iff_of_true ⟨h.owned, h.alone⟩ trivial
    · cases hstep
  | deletes userId =>
    rw [← Option.some.inj hstep]
    exact iff_of_true ⟨h.owned, h.alone⟩ trivial
  | proceeds i =>
    obtain ⟨x, hx, rfl⟩ := Option.map_eq_some_iff.mp hstep
    have hsame : Spared { (x.next w).1 with deletions := w.deletions.set i (x.next w).2 } ↔
        Spared (x.next w).1 := ⟨fun h => ⟨h.owned, h.alone⟩, fun h => ⟨h.owned, h.alone⟩⟩
    rw [hsame, spared_next_iff h x, Current, hx]
    exact ⟨fun hcurrent y hy => Option.mem_some_iff.mp hy ▸ hcurrent, fun hall => hall x rfl⟩
  | fails i =>
    rw [step] at hstep
    split at hstep
    · cases hstep
    · cases hstep
    · rw [← Option.some.inj hstep]
      exact iff_of_true ⟨h.owned, h.alone⟩ trivial

theorem current_of_none {a : Action} (h : step cfg w a = none) : Current cfg w a := by
  cases a with
  | members a =>
    cases a with
    | users users => exact fun _ _ => trivial
    | _ => cases h
  | proceeds i =>
    rw [step, Option.map_eq_none_iff] at h
    rw [Current, h]
    exact fun x hx => absurd hx (Option.not_mem_none x)
  | _ => trivial

end

/-! ### One membership in a workspace -/

section

variable {cfg : Config} {w : World} {t t' : Table}

theorem Once.mono (h : Once t) (hsub : t'.rows ⊆ t.rows) : Once t' :=
  fun m hm m' hm' => h m (hsub hm) m' (hsub hm')

/-- **Whoever joins once is once active.** -/
theorem once_apply (h : Once t) {wr : Write} (hjoins : Write.JoinsOnce t wr)
    (hinvited : ∀ row, wr = .insert row → row.status = .invited) : Once (t.apply wr) := by
  intro m' hm' n' hn' hmactive hnactive hworkspace huser
  -- a membership that is active is not the one that is inserted
  have hold : ∀ m' ∈ (t.apply wr).rows, m'.status = .active → ∃ m ∈ t.rows, m.id = m'.id ∧
      m.workspaceId = m'.workspaceId ∧ (m.status = m'.status ∧ m.userId = m'.userId ∨
        ∃ tokenHash userId, wr = .activate m.id tokenHash userId ∧
          pending m.id tokenHash m = true ∧ m'.userId = some userId) := by
    intro m' hm' hactive
    refine (mem_apply hm').resolve_left fun hinsert => ?_
    rw [hinvited m' hinsert] at hactive
    cases hactive
  obtain ⟨m, hm, hmid, hmworkspace, hmcase⟩ := hold m' hm' hmactive
  obtain ⟨n, hn, hnid, hnworkspace, hncase⟩ := hold n' hn' hnactive
  have hsame : m.workspaceId = n.workspaceId :=
    hmworkspace.trans (hworkspace.trans hnworkspace.symm)
  rw [← hmid, ← hnid]
  rcases hmcase with ⟨hmstatus, hmuser⟩ | ⟨tokenHash, userId, rfl, hpending, hmuser⟩
  · rcases hncase with ⟨hnstatus, hnuser⟩ | ⟨tokenHash, userId, rfl, hpending, hnuser⟩
    · exact h m hm n hn (hmstatus.trans hmactive) (hnstatus.trans hnactive) hsame
        (hmuser.trans (huser.trans hnuser.symm))
    · exact absurd (hmuser.trans (huser.trans hnuser))
        (hjoins n hn hpending m hm hsame (hmstatus.trans hmactive))
  · rcases hncase with ⟨hnstatus, hnuser⟩ | ⟨tokenHash', userId', heq, -, -⟩
    · exact absurd (hnuser.trans (huser.symm.trans hmuser))
        (hjoins m hm hpending n hn hsame.symm (hnstatus.trans hnactive))
    · exact (Write.activate.inj heq).1

theorem next_rows (w : World) (x : Deletion) : (x.next w).1.table.rows ⊆ w.table.rows := by
  obtain ⟨userId, phase, sole⟩ := x
  cases phase with
  | counting todo found => cases todo <;> exact List.Subset.refl _
  | removing rest =>
    cases rest with
    | nil => exact fun _ hm => List.mem_of_mem_filter hm
    | cons workspaceId rest =>
      dsimp only [Deletion.next]
      split
      · exact fun _ hm => List.mem_of_mem_filter hm
      · exact List.Subset.refl _
  | _ => exact List.Subset.refl _

/-- **Every step in which whoever joins has no active membership leaves one for each.** -/
theorem once_step {w' : World} {a : Action} (h : Once w.table) (hjoins : JoinsOnce cfg w a)
    (hstep : step cfg w a = some w') : Once w'.table := by
  cases a with
  | members a =>
    rw [step] at hstep
    split at hstep
    · rw [← Option.some.inj hstep]
      exact once_apply h hjoins fun row hinsert => invited_of_insert hinsert
    · cases hstep
  | creates link =>
    rw [step] at hstep
    split at hstep
    · rw [← Option.some.inj hstep]
      exact h
    · cases hstep
  | deletes userId =>
    rw [← Option.some.inj hstep]
    exact h
  | proceeds i =>
    obtain ⟨x, -, rfl⟩ := Option.map_eq_some_iff.mp hstep
    exact h.mono (next_rows w x)
  | fails i =>
    rw [step] at hstep
    split at hstep
    · cases hstep
    · cases hstep
    · rw [← Option.some.inj hstep]
      exact h

end

/-! ### A retry -/

/-- A deletion that was begun last. -/
def World.beside (w : World) (x : Deletion) : World :=
  { w with deletions := w.deletions ++ [x] }

/-- No one else is counted. -/
def noOthers (t : Table) (userId workspaceId : Uuid) : Bool := otherOwners t workspaceId userId = 0

/-- `workspacesSolelyOwnedBy` of tables that do not change. -/
def workspacesSolelyOwnedBy (t : Table) (userId : Uuid) : List Uuid :=
  (ownedWorkspaces t userId).filter (noOthers t userId)

/-- What a deletion comes to by itself. -/
def Reaches (cfg : Config) (w : World) (x : Deletion) (w' : World) (x' : Deletion) : Prop :=
  w'.deletions = w.deletions ∧ ∃ n, run (step cfg) (w.beside x)
    (List.replicate n (.proceeds w.deletions.length)) = some (w'.beside x')

section

variable {cfg : Config} {w w₁ w₂ : World} {x x₁ x₂ : Deletion} {userId : Uuid} {sole : List Uuid}

theorem next_beside (w : World) (x y : Deletion) :
    x.next (w.beside y) = ((x.next w).1.beside y, (x.next w).2) := by
  obtain ⟨userId, phase, sole⟩ := x
  cases phase with
  | counting todo found => cases todo <;> rfl
  | removing rest =>
    cases rest with
    | nil => rfl
    | cons workspaceId rest =>
      dsimp only [Deletion.next, World.beside]
      split <;> rfl
  | _ => rfl

theorem step_beside (cfg : Config) (w : World) (x : Deletion) :
    step cfg (w.beside x) (.proceeds w.deletions.length) =
      some ((x.next w).1.beside (x.next w).2) := by
  have hlast : (w.beside x).deletions[w.deletions.length]? = some x := List.getElem?_concat_length
  have hset : (w.beside x).deletions.set w.deletions.length (x.next w).2 =
      w.deletions ++ [(x.next w).2] := by
    rw [World.beside, List.set_append_right _ _ (Nat.le_refl _), Nat.sub_self]
    rfl
  rw [step, hlast, Option.map_some, next_beside]
  dsimp only
  rw [hset, World.beside, World.beside, next_deletions]

theorem Reaches.trans (h : Reaches cfg w x w₁ x₁) (h' : Reaches cfg w₁ x₁ w₂ x₂) :
    Reaches cfg w x w₂ x₂ := by
  obtain ⟨hsame, n, hrun⟩ := h
  obtain ⟨hsame', n', hrun'⟩ := h'
  refine ⟨hsame'.trans hsame, n + n', ?_⟩
  rw [List.replicate_add, run_append, hrun, Option.bind_some, ← hsame]
  exact hrun'

theorem reaches_next (cfg : Config) (w : World) (x : Deletion) :
    Reaches cfg w x (x.next w).1 (x.next w).2 := by
  refine ⟨next_deletions w x, 1, ?_⟩
  rw [List.replicate_one, run_cons, step_beside]
  rfl

/-- The owners of each workspace are counted in turn. -/
theorem reaches_auditing (cfg : Config) (w : World) (userId : Uuid) (sole todo found : List Uuid) :
    Reaches cfg w ⟨userId, .counting todo found, sole⟩ w
      ⟨userId, .auditing (found ++ todo.filter (noOthers w.table userId)), sole⟩ := by
  induction todo generalizing found with
  | nil =>
    rw [List.filter_nil, List.append_nil]
    exact reaches_next cfg w _
  | cons workspaceId todo ih =>
    refine (reaches_next cfg w _).trans ?_
    dsimp only [Deletion.next]
    by_cases hnone : otherOwners w.table workspaceId userId = 0
    · have hpasses : noOthers w.table userId workspaceId = true := decide_eq_true hnone
      rw [if_pos hnone, List.filter_cons_of_pos hpasses,
        List.append_cons found workspaceId (todo.filter (noOthers w.table userId))]
      exact ih _
    · have hfails : ¬ noOthers w.table userId workspaceId = true :=
        fun hpasses => hnone (of_decide_eq_true hpasses)
      rw [if_neg hnone, List.filter_cons_of_neg hfails]
      exact ih _

/-- What the removal of some workspaces leaves. -/
structure Removes (rest : List Uuid) (w w' : World) : Prop where
  workspaces : ∀ id, id ∈ w'.workspaces ↔ id ∈ w.workspaces ∧ id ∉ rest
  users : w'.table.users = w.table.users
  /-- The memberships of other workspaces are the same. -/
  rows : ∀ m : Membership, m.workspaceId ∉ rest → (m ∈ w.table.rows ↔ m ∈ w'.table.rows)

theorem removes_nil (w : World) : Removes [] w w :=
  ⟨fun _ => (and_iff_left List.not_mem_nil).symm, rfl, fun _ _ => Iff.rfl⟩

theorem removes_cons {workspaceId : Uuid} {rest : List Uuid} {w' : World}
    (h : Removes rest (w.removeWorkspace userId workspaceId) w') :
    Removes (workspaceId :: rest) w w' where
  workspaces id := by
    rw [h.workspaces, mem_workspaces_removeWorkspace, List.mem_cons, not_or, and_assoc]
  users := h.users
  rows m hm := by
    rw [List.mem_cons, not_or] at hm
    rw [← h.rows m hm.2, mem_rows_removeWorkspace, and_iff_left hm.1]

/-- **The solely owned workspaces are removed one by one**, and the list stays right. -/
theorem reaches_removed (cfg : Config) (sole : List Uuid) {rest : List Uuid} (hnodup : rest.Nodup)
    (hin : ∀ id ∈ rest, id ∈ w.workspaces) (hsole : ∀ id ∈ rest, SolelyOwns userId id w.table)
    (h : Spared w) : ∃ w', Reaches cfg w ⟨userId, .removing rest, sole⟩ w'
      ⟨userId, .removing [], sole⟩ ∧ Spared w' ∧ Removes rest w w' := by
  induction rest generalizing w with
  | nil =>
    refine ⟨w, ⟨rfl, 0, ?_⟩, h, removes_nil w⟩
    rfl
  | cons workspaceId rest ih =>
    obtain ⟨hnotin, hnodup⟩ := List.nodup_cons.mp hnodup
    have hmem : workspaceId ∈ w.workspaces := hin workspaceId List.mem_cons_self
    have hnext : Deletion.next w ⟨userId, .removing (workspaceId :: rest), sole⟩ =
        (w.removeWorkspace userId workspaceId, ⟨userId, .busting rest, sole⟩) := if_pos hmem
    have hremoved := reaches_next cfg w ⟨userId, .removing (workspaceId :: rest), sole⟩
    rw [hnext] at hremoved
    have hspared := (spared_removeWorkspace_iff h hmem).mpr (hsole workspaceId List.mem_cons_self)
    have hne : ∀ id ∈ rest, id ≠ workspaceId := fun id hid heq => hnotin (heq ▸ hid)
    have hin' : ∀ id ∈ rest, id ∈ (w.removeWorkspace userId workspaceId).workspaces :=
      fun id hid => mem_workspaces_removeWorkspace.mpr
        ⟨hin id (List.mem_cons_of_mem _ hid), hne id hid⟩
    have hsole' : ∀ id ∈ rest,
        SolelyOwns userId id (w.removeWorkspace userId workspaceId).table := by
      intro id hid
      refine (solelyOwns_congr fun m hm => ?_).mp (hsole id (List.mem_cons_of_mem _ hid))
      rw [mem_rows_removeWorkspace, hm, and_iff_left (hne id hid)]
    obtain ⟨w', hreaches, hspared', hremoves⟩ := ih hnodup hin' hsole' hspared
    exact ⟨w', hremoved.trans ((reaches_next cfg _ _).trans hreaches), hspared',
      removes_cons hremoves⟩

theorem mem_ownedWorkspaces {t : Table} {workspaceId : Uuid} :
    workspaceId ∈ ownedWorkspaces t userId ↔
      ∃ m ∈ t.rows, m.owns workspaceId ∧ m.userId = some userId := by
  rw [ownedWorkspaces, List.mem_map]
  refine exists_congr fun m => ?_
  rw [List.mem_filter, and_assoc]
  refine and_congr_right fun _ => ?_
  simp only [Bool.and_eq_true, decide_eq_true_eq, Membership.owns]
  tauto

theorem noOthers_iff {t : Table} {workspaceId : Uuid}
    (hlinked : ∀ m ∈ t.rows, m.status = .active → m.userId.isSome = true) :
    noOthers t userId workspaceId = true ↔
      ∀ m ∈ t.rows, m.owns workspaceId → m.userId = some userId := by
  rw [noOthers, decide_eq_true_eq, otherOwners, List.countP_eq_zero]
  refine forall₂_congr fun m hm => ?_
  simp only [Bool.and_eq_true, decide_eq_true_eq, Membership.owns]
  constructor
  · rintro hnot ⟨hworkspace, hrole, hactive⟩
    obtain ⟨owner, howner⟩ := Option.isSome_iff_exists.mp (hlinked m hm hactive)
    by_contra hother
    refine hnot ⟨⟨⟨hworkspace, hrole⟩, hactive⟩, ?_⟩
    rw [howner, Option.some.injEq] at hother
    rw [howner]
    exact decide_eq_true hother
  · rintro hall ⟨⟨⟨hworkspace, hrole⟩, hactive⟩, hother⟩
    rw [hall ⟨hworkspace, hrole, hactive⟩] at hother
    exact of_decide_eq_true hother rfl

/-- **A deletion finds the workspaces that its user solely owns.** -/
theorem mem_workspacesSolelyOwnedBy (h : Kept w) {workspaceId : Uuid} :
    workspaceId ∈ workspacesSolelyOwnedBy w.table userId ↔
      SolelyOwns userId workspaceId w.table := by
  rw [workspacesSolelyOwnedBy, List.mem_filter, mem_ownedWorkspaces, noOthers_iff h.linked,
    SolelyOwns]

/-- Each is found once. -/
theorem nodup_workspacesSolelyOwnedBy (h : Kept w) (honce : Once w.table) (userId : Uuid) :
    (workspacesSolelyOwnedBy w.table userId).Nodup := by
  have hrows : w.table.rows.Nodup := h.ids.of_map
  refine ((hrows.filter _).map_on fun m hm m' hm' heq => ?_).filter _
  obtain ⟨hm, howns⟩ := List.mem_filter.mp hm
  obtain ⟨hm', howns'⟩ := List.mem_filter.mp hm'
  simp only [Bool.and_eq_true, decide_eq_true_eq] at howns howns'
  exact List.inj_on_of_nodup_map h.ids hm hm'
    (honce m hm m' hm' howns.2 howns'.2 heq (howns.1.1.trans howns'.1.1.symm))

/-- **A deletion by itself** comes to the removal of what its user solely owns. -/
theorem reaches_removing (cfg : Config) {u : User} (hu : u ∈ w.table.users) :
    Reaches cfg w ⟨u.id, .finding, []⟩ w
      ⟨u.id, .removing (workspacesSolelyOwnedBy w.table u.id),
        workspacesSolelyOwnedBy w.table u.id⟩ := by
  have hfound := reaches_next cfg w ⟨u.id, .finding, []⟩
  rw [Deletion.next, if_pos (List.any_eq_true.mpr ⟨u, hu, decide_eq_true rfl⟩)] at hfound
  have hlisted := reaches_next cfg w ⟨u.id, .listing, []⟩
  have hcounted := reaches_auditing cfg w u.id [] (ownedWorkspaces w.table u.id) []
  have haudited := reaches_next cfg w ⟨u.id, .auditing (workspacesSolelyOwnedBy w.table u.id), []⟩
  exact hfound.trans (hlisted.trans (hcounted.trans haudited))

/-- **A retry completes the deletion.** -/
theorem completes_retry (cfg : Config) (h : Kept w) (honce : Once w.table) (hspared : Spared w)
    {u : User} (hu : u ∈ w.table.users) : ∃ n w',
      run (step cfg) w (.deletes u.id :: List.replicate n (.proceeds w.deletions.length)) =
        some w' ∧ Completes w w' u.id := by
  have hsole : ∀ id, id ∈ workspacesSolelyOwnedBy w.table u.id ↔ SolelyOwns u.id id w.table :=
    fun id => mem_workspacesSolelyOwnedBy h
  have hin : ∀ id ∈ workspacesSolelyOwnedBy w.table u.id, id ∈ w.workspaces := by
    intro id hid
    obtain ⟨⟨m, hm, howns, -⟩, -⟩ := (hsole id).mp hid
    exact howns.1 ▸ h.belongs m hm
  obtain ⟨w₁, hremoved, hspared₁, hremoves⟩ :=
    reaches_removed cfg (workspacesSolelyOwnedBy w.table u.id)
      (nodup_workspacesSolelyOwnedBy h honce u.id) hin (fun id hid => (hsole id).mp hid) hspared
  have hdeleted := reaches_next cfg w₁
    ⟨u.id, .removing [], workspacesSolelyOwnedBy w.table u.id⟩
  obtain ⟨hsame, n, hrun⟩ := (reaches_removing cfg hu).trans (hremoved.trans hdeleted)
  have hleft : ∀ id, id ∈ w₁.workspaces ↔ id ∈ w.workspaces ∧ ¬ SolelyOwns u.id id w.table :=
    fun id => (hremoves.workspaces id).trans (and_congr_right fun _ => not_congr (hsole id))
  have hcurrent : ∀ id ∈ w₁.workspaces, ¬ SolelyOwns u.id id w₁.table := by
    intro id hid
    have hout := ((hremoves.workspaces id).mp hid).2
    rw [← solelyOwns_congr fun m hm => hremoves.rows m (hm ▸ hout)]
    exact ((hleft id).mp hid).2
  refine ⟨n, _, hrun, ?_, ?_, hleft, ?_⟩
  · rw [← hsame]
    exact congrArg (Option.map Deletion.phase) List.getElem?_concat_length
  · exact fun v hv => of_decide_eq_true (List.mem_filter.mp hv).2
  · have hdone : Spared (w₁.deleteUser u.id) := (spared_deleteUser_iff hspared₁).mpr hcurrent
    exact ⟨hdone.owned, hdone.alone⟩

end

/-! ### Every run -/

section

variable {cfg : Config} {s : Installation} {as : List Action}

theorem kept_start (s : Installation) : Kept (.start s) where
  ids := s.ids
  belongs := s.belongs
  linked := s.linked
  linksBelong := s.linksBelong
  made _ hl := Or.inl hl
  lists _ hx := absurd hx List.not_mem_nil

theorem spared_start (s : Installation) : Spared (.start s) :=
  ⟨s.owned, fun _ hr => absurd hr List.not_mem_nil⟩

/-- **No workspace is left without an owner or removed beside another one exactly when every list
is still current.** -/
theorem spared_iff (cfg : Config) (s : Installation) (as : List Action) :
    Guarded (step cfg) (Current cfg) (.start s) as ↔
      ∀ pre post w, as = pre ++ post → run (step cfg) (.start s) pre = some w → Spared w :=
  guarded_iff_holds_throughout_of_enabled (fun _ _ => current_of_none)
    (fun _ _ _ => kept_step) (fun _ _ _ _ hspared hstep => spared_step_iff hspared hstep)
    (kept_start s) (spared_start s)

theorem projected_of_kept {w : World} (h : Kept w) :
    ∀ l ∈ w.made, l.workspaceId ∉ w.workspaces → l.id ∈ w.outbox :=
  fun l hl hout => (h.made l hl).resolve_left fun hin => hout (h.linksBelong l hin)

theorem finished_of_kept {w : World} (h : Kept w) : ∀ x ∈ w.deletions, x.phase = .ended .done →
    ∀ workspaceId ∈ x.sole, workspaceId ∉ w.workspaces := by
  intro x hx hdone
  have hlists := h.lists x hx
  rw [Deletion.Lists, hdone] at hlists
  exact hlists

/-- **Deletions hold what they promise exactly when every list is still current**, where whoever
joins a workspace joins it once. -/
theorem deletions_iff (cfg : Config) (s : Installation) (as : List Action)
    (hjoins : Guarded (step cfg) (JoinsOnce cfg) (.start s) as) :
    (∀ pre post w, as = pre ++ post → run (step cfg) (.start s) pre = some w → Sound cfg w) ↔
      Guarded (step cfg) (Current cfg) (.start s) as := by
  rw [spared_iff]
  constructor
  · exact fun hsound pre post w hsplit hrun => (hsound pre post w hsplit hrun).spared
  · rintro hspared pre post w rfl hrun
    have hkept : Kept w :=
      invariant_of_run (fun _ _ _ => kept_step) pre _ w (kept_start s) hrun
    have honce : Once w.table := invariant_of_guarded
      (fun _ _ _ honce hjoin hstep => once_step honce hjoin hstep) pre _ w s.once
      (guarded_append.mp hjoins).1 hrun
    have hsafe := hspared pre post w rfl hrun
    exact ⟨hsafe, projected_of_kept hkept, finished_of_kept hkept,
      fun u hu => completes_retry cfg hkept honce hsafe hu⟩

end

/-! ### Two owners of one workspace -/

instance (t : Table) : Decidable (Once t) :=
  inferInstanceAs (Decidable (∀ m ∈ t.rows, ∀ m' ∈ t.rows, m.status = .active →
    m'.status = .active → m.workspaceId = m'.workspaceId → m.userId = m'.userId → m.id = m'.id))

instance (t : Table) : (wr : Write) → Decidable (Write.JoinsOnce t wr)
  | .activate id tokenHash userId =>
    inferInstanceAs (Decidable (∀ m ∈ t.rows, pending id tokenHash m = true →
      ∀ m' ∈ t.rows, m'.workspaceId = m.workspaceId → m'.status = .active →
        m'.userId ≠ some userId))
  | .skip | .tick _ | .users _ | .insert _ | .change _ _ => isTrue trivial

instance (cfg : Config) (w : World) : (a : Action) → Decidable (JoinsOnce cfg w a)
  | .members a =>
    inferInstanceAs (Decidable (Write.JoinsOnce w.table
      (writeOf cfg w.members (w.checked cfg a))))
  | .creates _ | .deletes _ | .proceeds _ | .fails _ => isTrue trivial

/-- An owner, an admin, and an editor who is invited. -/
def led : Installation where
  table :=
    ⟨1000, [⟨1, "ann@example.com", some 0⟩, ⟨2, "eve@example.com", some 0⟩,
      ⟨3, "bob@example.com", some 0⟩], team.rows⟩
  workspaces := [1]
  links := [⟨7, 1⟩]
  ids := by decide
  belongs := by decide
  linked := by decide
  once := by decide
  owned := by decide
  linksBelong := by decide

/-- The invitation is accepted, and the deletion of the owner fails after the removal. -/
def failsAndRetries : List Action :=
  [Action.members (.acceptInvite ⟨1, .viewer⟩ 3 "hash"), .members (.next 0 ⟨0, ""⟩),
    .members (.next 0 ⟨0, ""⟩), .members (.next 0 ⟨0, ""⟩), .deletes 1] ++
  List.replicate 6 (Action.proceeds 0) ++ [Action.fails 0, .deletes 1] ++
    List.replicate 5 (Action.proceeds 1)

theorem deletions_failsAndRetries :
    (∀ pre post w, failsAndRetries = pre ++ post →
      run (step plainConfig) (.start led) pre = some w → Sound plainConfig w) ↔
      Guarded (step plainConfig) (Current plainConfig) (.start led) failsAndRetries :=
  deletions_iff plainConfig led failsAndRetries (by decide)

/-- Two owners. -/
def shared : Installation where
  table := ⟨1000, [⟨1, "ann@example.com", some 0⟩, ⟨2, "eve@example.com", some 0⟩], pair.rows⟩
  workspaces := [1]
  links := [⟨7, 1⟩]
  ids := by decide
  belongs := by decide
  linked := by decide
  once := by decide
  owned := by decide
  linksBelong := by decide

/-- Each owner counts the other one before either is deleted. -/
def bothDeleted : List Action :=
  [Action.deletes 1, .deletes 2] ++ List.replicate 5 (Action.proceeds 0) ++
    List.replicate 5 (Action.proceeds 1) ++ [Action.proceeds 0, .proceeds 1]

/-- The admin is made an owner after the owners were counted. -/
def promotedSince : List Action :=
  [Action.deletes 1] ++ List.replicate 5 (Action.proceeds 0) ++
    [Action.members (.changeRole ⟨1, .owner⟩ 2 .owner), .members (.next 0 ⟨0, ""⟩), .proceeds 0]

/-- **Two owners of one workspace are deleted at the same time**, and it is left without one; an
owner who is made one meanwhile loses the workspace. -/
theorem both_owners_deleted :
    (∃ w, run (step plainConfig) (.start shared) bothDeleted = some w ∧ 1 ∈ w.workspaces ∧
      ¬ Owned 1 w.table) ∧
    (∃ w, run (step plainConfig) (.start led) promotedSince = some w ∧
      ∃ r ∈ w.removals, r.others ≠ []) ∧
    ¬ ∀ (cfg : Config) (s : Installation) (as pre post : List Action) (w : World),
      as = pre ++ post → run (step cfg) (.start s) pre = some w → Sound cfg w := by
  have hdeleted : ((run (step plainConfig) (.start shared) bothDeleted).any fun w =>
      1 ∈ w.workspaces ∧ ¬ Owned 1 w.table) = true := by decide
  have hpromoted : ((run (step plainConfig) (.start led) promotedSince).any fun w =>
      ∃ r ∈ w.removals, r.others ≠ []) = true := by decide
  obtain ⟨w, hrun, hw⟩ := (Option.any_eq_true _ _).mp hdeleted
  obtain ⟨w', hrun', hw'⟩ := (Option.any_eq_true _ _).mp hpromoted
  obtain ⟨hin, howned⟩ := of_decide_eq_true hw
  refine ⟨⟨w, hrun, hin, howned⟩, ⟨w', hrun', of_decide_eq_true hw'⟩, fun h => ?_⟩
  have hsound := h plainConfig shared bothDeleted bothDeleted [] w (List.append_nil _).symm hrun
  exact howned (hsound.spared.owned 1 hin)

end SnapUrl.Members.Accounts
