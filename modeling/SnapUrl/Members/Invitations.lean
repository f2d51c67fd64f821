import SnapUrl.Members.Roles

/-!
# Invitations

`invite`, `resend`, `changeRole` and `remove` of `apps/api/src/members/members.service.ts` and
`acceptInvite` of `apps/api/src/auth/auth.service.ts`, with the audit rows they commit.

* `act`: any number of calls, in any order, one statement or transaction at a time.
* `Joins`: a membership becomes active by a call that was made with its latest token, for a user
  whose verified address was invited, and with one audit row.
* `invitationsHold`: **memberships join in no other way, each once and by a token of its own, and
  an acceptance that is refused changes nothing**.
-/

namespace SnapUrl.Members

open Lib

/-! ### Commits -/

inductive AuditAction where
  | memberInvited
  | memberInviteResent
  | memberRoleChanged
  | memberRemoved
  | memberJoined
deriving DecidableEq, Repr

/-- A row of `audit_log`. -/
structure AuditRow where
  workspaceId : Uuid
  actorId : Option Uuid
  action : AuditAction
  targetId : Uuid
deriving DecidableEq, Repr

/-- What an action commits. -/
inductive Commit where
  | nothing
  | tick (ms : Nat)
  | users (users : List User)
  | invite (row : Membership) (token : String)
  | resend (workspaceId membershipId : Uuid) (token : String)
  | change (workspaceId : Uuid) (c : Change)
  /-- The token is the one that was presented. -/
  | join (invite : Membership) (tokenHash : String) (userId : Uuid) (token : String)
deriving DecidableEq, Repr

/-- What the transaction of `resend` makes of a row. -/
def reissued (cfg : Config) (now : Int) (workspaceId membershipId : Uuid) (token : String)
    (m : Membership) : Membership :=
  if m.id = membershipId ∧ m.workspaceId = workspaceId then
    { m with inviteTokenHash := some (cfg.hash token), invitedAt := some now }
  else m

def Change.auditAction : Change → AuditAction
  | .setRole _ _ => .memberRoleChanged
  | .remove _ => .memberRemoved

/-- Tables with their history. -/
structure Ledger where
  table : Table
  audit : List AuditRow
  /-- Ghost: the memberships that ever were. -/
  ids : List Uuid
  /-- Ghost: the tokens that were issued and for whom, the latest first. -/
  tokens : List (Uuid × String)
  /-- Ghost: the memberships that were removed. -/
  removed : List Uuid
  /-- Ghost: who joined, and by which token. -/
  joined : List (Uuid × String)
deriving DecidableEq, Repr

/-- The token that was issued last for a membership. -/
def Ledger.latest (l : Ledger) (id : Uuid) : Option String :=
  (l.tokens.find? fun issue => issue.1 = id).map Prod.snd

def Ledger.apply (cfg : Config) (l : Ledger) : Commit → Ledger
  | .nothing => l
  | .tick ms => { l with table := l.table.apply (.tick ms) }
  | .users users => { l with table := l.table.apply (.users users) }
  | .invite row token =>
    { l with
      table := l.table.apply (.insert row)
      audit := l.audit ++ [⟨row.workspaceId, none, .memberInvited, row.id⟩]
      ids := l.ids ++ [row.id]
      tokens := (row.id, token) :: l.tokens }
  | .resend workspaceId id token =>
    { l with
      table := { l.table with
        rows := l.table.rows.map (reissued cfg l.table.now workspaceId id token) }
      audit := l.audit ++ [⟨workspaceId, none, .memberInviteResent, id⟩]
      tokens := (id, token) :: l.tokens }
  | .change workspaceId c =>
    { l with
      table := l.table.apply (.change workspaceId c)
      audit := l.audit ++ [⟨workspaceId, none, c.auditAction, c.membershipId⟩]
      removed := l.removed ++ (l.table.rows.filter fun m =>
        (c.after workspaceId m).isNone).map Membership.id }
  | .join invite tokenHash userId token =>
    { l with
      table := l.table.apply (.activate invite.id tokenHash userId)
      audit := l.audit ++ [⟨invite.workspaceId, some userId, .memberJoined, invite.id⟩]
      joined := l.joined ++ [(invite.id, token)] }

/-! ### Calls -/

/-- Where a call stands. -/
inductive Stage where
  | member (phase : Phase)
  /-- `resend` has checked the membership. -/
  | resending (target : Membership)
deriving DecidableEq, Repr

structure InviteCall where
  actor : RequestActor
  stage : Stage
  /-- Ghost: who accepts, and with which token. -/
  accepts : Option (Uuid × String)
deriving DecidableEq, Repr

/-- `resend`, up to its first statement. -/
def resend (t : Table) (workspaceId membershipId : Uuid) : Stage :=
  match t.target workspaceId membershipId with
  | none => .member (refuse 404 "That invitation doesn't exist.")
  | some target =>
    if target.status ≠ .invited then
      .member (refuse 400 (target.email ++ " is already on this team."))
    else .resending target

structure InviteState where
  ledger : Ledger
  calls : List InviteCall
deriving DecidableEq, Repr

/-- Members who joined before, and no invitation yet. -/
def openBooks (t : Table) : InviteState := ⟨⟨t, [], t.rows.map Membership.id, [], [], []⟩, []⟩

inductive InviteAction where
  | tick (ms : Nat)
  | register (user : User)
  | verifyEmail (userId : Uuid)
  | invite (actor : RequestActor) (input : InviteMemberInput)
  | resend (actor : RequestActor) (membershipId : Uuid)
  | changeRole (actor : RequestActor) (membershipId : Uuid) (role : MemberRole)
  | remove (actor : RequestActor) (membershipId : Uuid)
  | acceptInvite (actor : RequestActor) (userId : Uuid) (rawToken : String)
  /-- The next statement of a call, with what an insert or a resend draws. -/
  | next (call : Nat) (d : Draw)
  /-- The next statement of a call raises. -/
  | raise (call : Nat)
deriving DecidableEq, Repr

/-- What a call commits next. -/
def InviteCall.commit (cfg : Config) (t : Table) (d : Draw) (c : InviteCall) : Commit :=
  match c.stage with
  | .resending target => .resend c.actor.workspaceId target.id d.token
  | .member (.activating invite tokenHash userId) =>
    -- when no row comes back from the update, the transaction is rolled back
    if t.rows.any (pending invite.id tokenHash) then
      .join invite tokenHash userId ((c.accepts.map Prod.snd).getD "")
    else .nothing
  | .member phase =>
    match Call.write cfg t d ⟨c.actor, phase⟩ with
    | .insert row => .invite row d.token
    | .change workspaceId change => .change workspaceId change
    | _ => .nothing

def InviteCall.next (cfg : Config) (t : Table) (d : Draw) (c : InviteCall) : Stage :=
  match c.stage with
  | .resending _ => .member (.ended .done)
  | .member phase => .member (Call.next cfg t d ⟨c.actor, phase⟩)

/-- A uuid and a token are drawn once. -/
def Ledger.unused (l : Ledger) (d : Draw) : Bool :=
  d.id ∉ l.ids && d.token ∉ l.tokens.map Prod.snd

/-- What an action commits. -/
def commitOf (cfg : Config) (s : InviteState) : InviteAction → Commit
  | .tick ms => .tick ms
  | .register user =>
    if s.ledger.table.users.any fun u => u.id = user.id then .nothing
    else .users (s.ledger.table.users ++ [user])
  | .verifyEmail userId =>
    .users (s.ledger.table.users.map fun u =>
      if u.id = userId then { u with emailVerifiedAt := some s.ledger.table.now } else u)
  | .next i d =>
    if s.ledger.unused d then
      (s.calls[i]?.map fun c => c.commit cfg s.ledger.table d).getD .nothing
    else .nothing
  | _ => .nothing

/-- A call after its first statement. -/
def openedCall (cfg : Config) (t : Table) : InviteAction → Option InviteCall
  | .invite actor input =>
    some ⟨actor, .member (canActivate actor (invite cfg t actor.workspaceId input)), none⟩
  | .resend actor id =>
    some ⟨actor, if satisfiesRole actor.role [.admin] then resend t actor.workspaceId id
      else .member (refuse 403 "You don't have permission to do that."), none⟩
  | .changeRole actor id role =>
    some ⟨actor, .member (canActivate actor
      (changeRole t actor.workspaceId id role actor.role)), none⟩
  | .remove actor id =>
    some ⟨actor, .member (canActivate actor (remove t actor.workspaceId id)), none⟩
  | .acceptInvite actor userId rawToken =>
    some ⟨actor, .member (acceptInvite cfg t userId rawToken), some (userId, rawToken)⟩
  | _ => none

def invitesAfter (cfg : Config) (s : InviteState) : InviteAction → List InviteCall
  | .next i d =>
    if s.ledger.unused d then
      s.calls.modify i fun c => { c with stage := c.next cfg s.ledger.table d }
    else s.calls
  | .raise i => s.calls.modify i fun c => { c with stage := .member (.ended .raised) }
  | a => s.calls ++ (openedCall cfg s.ledger.table a).toList

/-- What an action does, nothing when there is no such call. -/
def inviteAct (cfg : Config) (s : InviteState) (a : InviteAction) : InviteState :=
  ⟨s.ledger.apply cfg (commitOf cfg s a), invitesAfter cfg s a⟩

def inviteStep (cfg : Config) (s : InviteState) (a : InviteAction) : Option InviteState :=
  some (inviteAct cfg s a)

/-! ### What is claimed of a run -/

/-- A membership becomes active. -/
def BecomesActive (t t' : Table) (id : Uuid) : Prop :=
  (∃ m ∈ t'.rows, m.id = id ∧ m.status = .active) ∧ ∀ m ∈ t.rows, m.id = id → m.status ≠ .active

/-- The user has verified the address. -/
def Verified (cfg : Config) (users : List User) (userId : Uuid) (email : String) : Prop :=
  ∃ u ∈ users, u.id = userId ∧ u.emailVerifiedAt.isSome = true ∧
    cfg.normalize u.email = cfg.normalize email

/-- A call makes a membership active. -/
structure JoinsBy (cfg : Config) (l l' : Ledger) (c : InviteCall) (m : Membership)
    (userId : Uuid) (token : String) : Prop where
  accepts : c.accepts = some (userId, token)
  invited : m ∈ l.table.rows ∧ m.status = .invited
  /-- **The token is the latest.** -/
  latest : l.latest m.id = some token
  /-- **The address is the invited one, and verified.** -/
  verified : Verified cfg l.table.users userId m.email
  /-- **The invitation was not removed.** -/
  kept : m.id ∉ l.removed
  /-- **There is one audit row with it.** -/
  audited : l'.audit = l.audit ++ [⟨m.workspaceId, some userId, .memberJoined, m.id⟩]
  recorded : l'.joined = l.joined ++ [(m.id, token)]

/-- A membership becomes active by the statement of an acceptance. -/
def Joins (cfg : Config) (s : InviteState) (a : InviteAction) (id : Uuid) : Prop :=
  ∃ i d c m userId token, a = .next i d ∧ s.calls[i]? = some c ∧ m.id = id ∧
    JoinsBy cfg s.ledger (inviteAct cfg s a).ledger c m userId token

/-- An action of an acceptance. -/
def InviteAction.accepts (s : InviteState) : InviteAction → Bool
  | .acceptInvite _ _ _ => true
  | .next i _ => s.calls[i]?.any fun c => c.accepts.isSome
  | .raise i => s.calls[i]?.any fun c => c.accepts.isSome
  | _ => false

/-- What holds of a run. -/
structure InvitationsHold (cfg : Config) (s : InviteState) (as : List InviteAction) : Prop where
  joins : ∀ pre a post t id, as = pre ++ a :: post → run (inviteStep cfg) s pre = some t →
    BecomesActive t.ledger.table (inviteAct cfg t a).ledger.table id → Joins cfg t a id
  /-- **No membership joins twice, no token is used twice, and the audit rows are those of the
  memberships that joined.** -/
  once : ∀ pre post t, as = pre ++ post → run (inviteStep cfg) s pre = some t →
    (t.ledger.joined.map Prod.fst).Nodup ∧ (t.ledger.joined.map Prod.snd).Nodup ∧
      (t.ledger.audit.filter fun row => row.action = .memberJoined).map AuditRow.targetId =
        t.ledger.joined.map Prod.fst
  /-- **An acceptance that does not come through changes nothing.** -/
  refused : ∀ pre a post t, as = pre ++ a :: post → run (inviteStep cfg) s pre = some t →
    a.accepts t = true →
    (∀ id, ¬ BecomesActive t.ledger.table (inviteAct cfg t a).ledger.table id) →
    (inviteAct cfg t a).ledger = t.ledger

/-- The tokens of a run. -/
def InviteAction.tokens : InviteAction → List String
  | .acceptInvite _ _ rawToken => [rawToken]
  | .next _ d => [d.token]
  | _ => []

/-! ### What one commit keeps -/

/-- The token that a row gets. -/
def Commit.reissues (m : Membership) : Commit → Option String
  | .resend workspaceId id token =>
    if m.id = id ∧ m.workspaceId = workspaceId then some token else none
  | _ => none

/-- A row is activated. -/
def Commit.activates (m : Membership) : Commit → Bool
  | .join row tokenHash _ _ => pending row.id tokenHash m
  | _ => false

/-- Where a row comes from. -/
structure Origin (cfg : Config) (w : Commit) (m m' : Membership) : Prop where
  id : m'.id = m.id
  workspaceId : m'.workspaceId = m.workspaceId
  email : m'.email = m.email
  status : m'.status = if w.activates m then .active else m.status
  tokenHash : m'.inviteTokenHash =
    (w.reissues m).elim m.inviteTokenHash fun token => some (cfg.hash token)

section

variable {cfg : Config} {T : Set String} {l l' : Ledger} {w : Commit} {m m' : Membership}

/-- **Every row is new, or what a commit has made of one.** -/
theorem origin_of_mem (h : m' ∈ (l.apply cfg w).table.rows) :
    (∃ token, w = .invite m' token) ∨ ∃ m ∈ l.table.rows, Origin cfg w m m' := by
  cases w with
  | invite row token =>
    rcases List.mem_append.mp h with hold | hnew
    · exact Or.inr ⟨m', hold, rfl, rfl, rfl, rfl, rfl⟩
    · exact Or.inl ⟨token, by rw [List.mem_singleton.mp hnew]⟩
  | resend workspaceId id token =>
    obtain ⟨m, hm, rfl⟩ := List.mem_map.mp h
    refine Or.inr ⟨m, hm, ?_⟩
    rw [reissued]
    split
    · next hhit => exact ⟨rfl, rfl, rfl, rfl, by rw [Commit.reissues, if_pos hhit]; rfl⟩
    · next hmiss => exact ⟨rfl, rfl, rfl, rfl, by rw [Commit.reissues, if_neg hmiss]; rfl⟩
  | change workspaceId c =>
    obtain ⟨m, hm, hafter⟩ := List.mem_filterMap.mp h
    refine Or.inr ⟨m, hm, ?_⟩
    rw [Change.after] at hafter
    split at hafter
    · rw [eq_of_result hafter]
      exact ⟨rfl, rfl, rfl, rfl, rfl⟩
    · rw [Option.some.inj hafter]
      exact ⟨rfl, rfl, rfl, rfl, rfl⟩
  | join invite tokenHash userId token =>
    obtain ⟨m, hm, rfl⟩ := List.mem_map.mp h
    refine Or.inr ⟨m, hm, ?_⟩
    rw [activated]
    split
    · next hhit => exact ⟨rfl, rfl, rfl, by rw [Commit.activates, if_pos hhit], rfl⟩
    · next hmiss => exact ⟨rfl, rfl, rfl, by rw [Commit.activates, if_neg hmiss], rfl⟩
  | nothing => exact Or.inr ⟨m', h, rfl, rfl, rfl, rfl, rfl⟩
  | tick ms => exact Or.inr ⟨m', h, rfl, rfl, rfl, rfl, rfl⟩
  | users us => exact Or.inr ⟨m', h, rfl, rfl, rfl, rfl, rfl⟩

/-- Accounts stay, with their addresses and what was verified. -/
def UsersKept (users users' : List User) : Prop :=
  ∀ u ∈ users, ∃ u' ∈ users', u'.id = u.id ∧ u'.email = u.email ∧
    (u.emailVerifiedAt.isSome = true → u'.emailVerifiedAt.isSome = true)

/-- What a call knows of its commit. -/
def Commit.Sound (cfg : Config) (T : Set String) (l : Ledger) : Commit → Prop
  | .users us => UsersKept l.table.users us
  | .invite row token => row.id ∉ l.ids ∧ token ∉ l.tokens.map Prod.snd ∧ token ∈ T ∧
    row.status = .invited ∧ row.inviteTokenHash = some (cfg.hash token)
  | .resend workspaceId id token => token ∉ l.tokens.map Prod.snd ∧ token ∈ T ∧ id ∈ l.ids ∧
    ∀ m ∈ l.table.rows, m.id = id → m.workspaceId = workspaceId
  | .join row tokenHash userId token => token ∈ T ∧ cfg.hash token = tokenHash ∧
    ∃ m ∈ l.table.rows, pending row.id tokenHash m = true ∧
      m.workspaceId = row.workspaceId ∧ Verified cfg l.table.users userId m.email
  | _ => True

/-- The books agree. -/
structure Ledger.Ok (cfg : Config) (T : Set String) (l : Ledger) : Prop where
  ids : (l.table.rows.map Membership.id).Nodup
  known : ∀ m ∈ l.table.rows, m.id ∈ l.ids
  /-- A stored digest is that of the latest token. -/
  hashes : ∀ m ∈ l.table.rows, ∀ h ∈ m.inviteTokenHash, ∃ token,
    l.latest m.id = some token ∧ cfg.hash token = h
  tokens : (l.tokens.map Prod.snd).Nodup
  issued : ∀ issue ∈ l.tokens, issue.1 ∈ l.ids ∧ issue.2 ∈ T
  removed : ∀ id ∈ l.removed, id ∈ l.ids ∧ ∀ m ∈ l.table.rows, m.id ≠ id
  joined : (l.joined.map Prod.fst).Nodup
  active : ∀ j ∈ l.joined, j ∈ l.tokens ∧ ∀ m ∈ l.table.rows, m.id = j.1 → m.status = .active
  audit : (l.audit.filter fun row => row.action = .memberJoined).map AuditRow.targetId =
    l.joined.map Prod.fst

/-- What stays of the books. -/
structure Ledger.Grows (l l' : Ledger) : Prop where
  ids : l.ids ⊆ l'.ids
  rows : ∀ m' ∈ l'.table.rows, m'.id ∈ l.ids → ∃ m ∈ l.table.rows,
    m'.id = m.id ∧ m'.workspaceId = m.workspaceId ∧ m'.email = m.email
  users : UsersKept l.table.users l'.table.users

theorem usersKept_refl (users : List User) : UsersKept users users :=
  fun u hu => ⟨u, hu, rfl, rfl, id⟩

theorem Verified.mono {users users' : List User} {userId : Uuid} {email : String}
    (h : Verified cfg users userId email) (hkept : UsersKept users users') :
    Verified cfg users' userId email := by
  obtain ⟨u, hu, hid, hverified, hemail⟩ := h
  obtain ⟨u', hu', hid', hemail', hverified'⟩ := hkept u hu
  exact ⟨u', hu', hid'.trans hid, hverified' hverified, by rw [hemail', hemail]⟩

theorem ids_subset_apply : l.ids ⊆ (l.apply cfg w).ids := by
  cases w with
  | invite row token => exact List.subset_append_left _ _
  | _ => exact List.Subset.refl _

theorem grows_commit (hw : w.Sound cfg T l) : l.Grows (l.apply cfg w) where
  ids := ids_subset_apply
  rows := by
    intro m' hm' hid
    rcases origin_of_mem hm' with ⟨token, rfl⟩ | ⟨m, hm, horigin⟩
    · exact absurd hid hw.1
    · exact ⟨m, hm, horigin.id, horigin.workspaceId, horigin.email⟩
  users := by
    cases w with
    | users us => exact hw
    | _ => exact usersKept_refl _

theorem latest_cons (issue : Uuid × String) (tokens : List (Uuid × String)) (id : Uuid) :
    ((issue :: tokens).find? fun issue => issue.1 = id) =
      if issue.1 = id then some issue else tokens.find? fun issue => issue.1 = id := by
  rw [List.find?_cons]
  by_cases hid : issue.1 = id
  · rw [if_pos hid, decide_eq_true hid]
  · rw [if_neg hid, decide_eq_false hid]

/-- The latest token of a row that a commit leaves. -/
theorem latest_apply (hok : l.Ok cfg T) (hw : w.Sound cfg T l) (hm : m ∈ l.table.rows) :
    (l.apply cfg w).latest m.id = (w.reissues m).elim (l.latest m.id) some := by
  cases w with
  | invite row token =>
    have hne : ¬ row.id = m.id := fun heq => hw.1 (heq ▸ hok.known m hm)
    simp only [Ledger.latest, Ledger.apply, latest_cons]
    rw [if_neg hne]
    rfl
  | resend workspaceId id token =>
    simp only [Ledger.latest, Ledger.apply, latest_cons, Commit.reissues]
    by_cases hid : id = m.id
    · rw [if_pos hid, if_pos ⟨hid.symm, hw.2.2.2 m hm hid.symm⟩]
      rfl
    · rw [if_neg hid, if_neg fun hboth => hid hboth.1.symm]
      rfl
  | _ => rfl

theorem ids_commit (hok : l.Ok cfg T) (hw : w.Sound cfg T l) :
    ((l.apply cfg w).table.rows.map Membership.id).Nodup := by
  cases w with
  | invite row token =>
    refine ids_apply hok.ids fun hmem => hw.1 ?_
    obtain ⟨m, hm, hid⟩ := List.mem_map.mp hmem
    exact hid ▸ hok.known m hm
  | resend workspaceId id token =>
    have hsame : ∀ m : Membership,
        (reissued cfg l.table.now workspaceId id token m).id = m.id := by
      intro m
      rw [reissued]
      split <;> rfl
    simp only [Ledger.apply, List.map_map]
    rw [show l.table.rows.map (Membership.id ∘ reissued cfg l.table.now workspaceId id token) =
      l.table.rows.map Membership.id from List.map_congr_left fun m _ => hsame m]
    exact hok.ids
  | change workspaceId c => exact ids_apply hok.ids trivial
  | join invite tokenHash userId token => exact ids_apply hok.ids trivial
  | _ => exact hok.ids

theorem hashes_commit (hok : l.Ok cfg T) (hw : w.Sound cfg T l) :
    ∀ m' ∈ (l.apply cfg w).table.rows, ∀ h ∈ m'.inviteTokenHash, ∃ token,
      (l.apply cfg w).latest m'.id = some token ∧ cfg.hash token = h := by
  intro m' hm' h hh
  rcases origin_of_mem hm' with ⟨token, rfl⟩ | ⟨m, hm, horigin⟩
  · refine ⟨token, ?_, ?_⟩
    · simp only [Ledger.latest, Ledger.apply, latest_cons, if_true, Option.map_some]
    · rw [hw.2.2.2.2] at hh
      exact Option.mem_some_iff.mp hh
  · rw [horigin.id, latest_apply hok hw hm]
    rw [horigin.tokenHash] at hh
    cases hissue : w.reissues m with
    | none =>
      rw [hissue] at hh
      exact hok.hashes m hm h hh
    | some token =>
      rw [hissue] at hh
      exact ⟨token, rfl, Option.mem_some_iff.mp hh⟩

/-- The tokens that a commit issues. -/
theorem tokens_commit (hok : l.Ok cfg T) (hw : w.Sound cfg T l) :
    ((l.apply cfg w).tokens.map Prod.snd).Nodup ∧
      ∀ issue ∈ (l.apply cfg w).tokens, issue.1 ∈ (l.apply cfg w).ids ∧ issue.2 ∈ T := by
  have hold : ∀ issue ∈ l.tokens, issue.1 ∈ (l.apply cfg w).ids ∧ issue.2 ∈ T :=
    fun issue hissue => ⟨ids_subset_apply (hok.issued issue hissue).1, (hok.issued issue hissue).2⟩
  cases w with
  | invite row token =>
    refine ⟨List.nodup_cons.mpr ⟨hw.2.1, hok.tokens⟩, fun issue hissue => ?_⟩
    rcases List.mem_cons.mp hissue with rfl | hissue
    · exact ⟨List.mem_append_right _ (List.mem_singleton_self _), hw.2.2.1⟩
    · exact hold issue hissue
  | resend workspaceId id token =>
    refine ⟨List.nodup_cons.mpr ⟨hw.1, hok.tokens⟩, fun issue hissue => ?_⟩
    rcases List.mem_cons.mp hissue with rfl | hissue
    · exact ⟨hw.2.2.1, hw.2.1⟩
    · exact hold issue hissue
  | _ => exact ⟨hok.tokens, hold⟩

theorem removed_commit (hok : l.Ok cfg T) (hw : w.Sound cfg T l) :
    ∀ id ∈ (l.apply cfg w).removed,
      id ∈ (l.apply cfg w).ids ∧ ∀ m ∈ (l.apply cfg w).table.rows, m.id ≠ id := by
  have hold : ∀ id ∈ l.removed,
      id ∈ (l.apply cfg w).ids ∧ ∀ m ∈ (l.apply cfg w).table.rows, m.id ≠ id := by
    intro id hid
    obtain ⟨hknown, hgone⟩ := hok.removed id hid
    refine ⟨ids_subset_apply hknown, fun m' hm' heq => ?_⟩
    obtain ⟨m, hm, hsame, -⟩ := (grows_commit hw).rows m' hm' (heq ▸ hknown)
    exact hgone m hm (hsame.symm.trans heq)
  cases w with
  | change workspaceId c =>
    intro id hid
    rcases List.mem_append.mp hid with hid | hid
    · exact hold id hid
    · obtain ⟨m, hm, rfl⟩ := List.mem_map.mp hid
      obtain ⟨hmem, hnone⟩ := List.mem_filter.mp hm
      refine ⟨hok.known m hmem, fun m' hm' heq => ?_⟩
      obtain ⟨m₀, hm₀, hafter⟩ := List.mem_filterMap.mp hm'
      have hsame : m₀ = m :=
        List.inj_on_of_nodup_map hok.ids hm₀ hmem ((id_of_after hafter).symm.trans heq)
      rw [← hsame, hafter] at hnone
      exact absurd hnone nofun
  | _ => exact hold

/-- A membership that joined has a token, and stays active. -/
theorem active_commit (hok : l.Ok cfg T) (hw : w.Sound cfg T l) {j : Uuid × String}
    (hj : j ∈ l.joined) : j ∈ (l.apply cfg w).tokens ∧
      ∀ m ∈ (l.apply cfg w).table.rows, m.id = j.1 → m.status = .active := by
  obtain ⟨htoken, hactive⟩ := hok.active j hj
  constructor
  · cases w with
    | invite row token => exact List.mem_cons_of_mem _ htoken
    | resend workspaceId id token => exact List.mem_cons_of_mem _ htoken
    | _ => exact htoken
  · intro m' hm' hid
    rcases origin_of_mem hm' with ⟨token, rfl⟩ | ⟨m, hm, horigin⟩
    · exact absurd (hid ▸ (hok.issued j htoken).1) hw.1
    · rw [horigin.status, hactive m hm (horigin.id.symm.trans hid), ite_self]

/-- What a token that is stored settles: it is the latest. -/
theorem latest_of_pending (hok : l.Ok cfg T) (hT : T.InjOn cfg.hash) {id : Uuid}
    {token : String} (htoken : token ∈ T) (hm : m ∈ l.table.rows)
    (hpending : pending id (cfg.hash token) m = true) :
    m.id = id ∧ m.status = .invited ∧ l.latest m.id = some token := by
  simp only [pending, Bool.and_eq_true, decide_eq_true_eq] at hpending
  obtain ⟨latest, hlatest, hhash⟩ := hok.hashes m hm _ hpending.2
  refine ⟨hpending.1.1, hpending.1.2, ?_⟩
  obtain ⟨issue, hissue, rfl⟩ := Option.map_eq_some_iff.mp hlatest
  have hin := (hok.issued issue (List.mem_of_find?_eq_some hissue)).2
  rw [hlatest, hT hin htoken hhash]

theorem mem_tokens_of_latest {id : Uuid} {token : String} (h : l.latest id = some token) :
    (id, token) ∈ l.tokens := by
  obtain ⟨issue, hissue, rfl⟩ := Option.map_eq_some_iff.mp h
  have hid := of_decide_eq_true
    (List.find?_some (p := fun issue : Uuid × String => issue.1 = id) hissue)
  rw [← hid]
  exact List.mem_of_find?_eq_some hissue

/-- **Every commit keeps the books.** -/
theorem ok_commit (hok : l.Ok cfg T) (hT : T.InjOn cfg.hash) (hw : w.Sound cfg T l) :
    (l.apply cfg w).Ok cfg T where
  ids := ids_commit hok hw
  known := by
    intro m' hm'
    rcases origin_of_mem hm' with ⟨token, rfl⟩ | ⟨m, hm, horigin⟩
    · exact List.mem_append_right _ (List.mem_singleton_self _)
    · rw [horigin.id]
      exact ids_subset_apply (hok.known m hm)
  hashes := hashes_commit hok hw
  tokens := (tokens_commit hok hw).1
  issued := (tokens_commit hok hw).2
  removed := removed_commit hok hw
  joined := by
    cases w with
    | join row tokenHash userId token =>
      obtain ⟨htoken, rfl, m, hm, hpending, -⟩ := hw
      obtain ⟨hid, hinvited, -⟩ := latest_of_pending hok hT htoken hm hpending
      rw [Ledger.apply, List.map_append]
      refine hok.joined.append (List.nodup_singleton _) fun id hold hnew => ?_
      obtain rfl := List.mem_singleton.mp hnew
      obtain ⟨j, hj, hjid⟩ := List.mem_map.mp hold
      rw [(hok.active j hj).2 m hm (hid.trans hjid.symm)] at hinvited
      exact absurd hinvited nofun
    | _ => exact hok.joined
  active := by
    intro j hj
    cases w with
    | join row tokenHash userId token =>
      rcases List.mem_append.mp hj with hj | hj
      · exact active_commit hok hw hj
      · obtain rfl := List.mem_singleton.mp hj
        obtain ⟨htoken, rfl, m, hm, hpending, -⟩ := hw
        obtain ⟨hid, -, hlatest⟩ := latest_of_pending hok hT htoken hm hpending
        refine ⟨hid ▸ mem_tokens_of_latest hlatest, fun m' hm' hid' => ?_⟩
        obtain ⟨m₀, hm₀, rfl⟩ := List.mem_map.mp hm'
        have hsame := activated_same row.id (cfg.hash token) userId m₀
        have heq : m₀ = m :=
          List.inj_on_of_nodup_map hok.ids hm₀ hm (hsame.1.symm.trans (hid'.trans hid.symm))
        rw [heq, activated, if_pos hpending]
    | _ => exact active_commit hok hw hj
  audit := by
    cases w with
    | join row tokenHash userId token =>
      simp only [Ledger.apply, List.filter_append, List.map_append, hok.audit]
      rfl
    | invite row token =>
      simp only [Ledger.apply, List.filter_append, List.map_append, hok.audit]
      exact List.append_nil _
    | resend workspaceId id token =>
      simp only [Ledger.apply, List.filter_append, List.map_append, hok.audit]
      exact List.append_nil _
    | change workspaceId c =>
      simp only [Ledger.apply, List.filter_append, List.map_append, hok.audit]
      cases c <;> exact List.append_nil _
    | _ => exact hok.audit

end

/-! ### What a call knows -/

/-- What a call knows of the invitation that it has read. -/
structure Knows (cfg : Config) (T : Set String) (l : Ledger) (accepts : Option (Uuid × String))
    (invite : Membership) (tokenHash : String) (userId : Uuid) : Prop where
  accepts : ∃ token ∈ T, accepts = some (userId, token) ∧ cfg.hash token = tokenHash
  known : invite.id ∈ l.ids
  rows : ∀ m ∈ l.table.rows, m.id = invite.id →
    m.email = invite.email ∧ m.workspaceId = invite.workspaceId

/-- What the checks of a call have left. -/
def InviteCall.Sound (cfg : Config) (T : Set String) (l : Ledger) (c : InviteCall) : Prop :=
  match c.stage with
  | .resending target => c.accepts = none ∧ target.id ∈ l.ids ∧
    ∀ m ∈ l.table.rows, m.id = target.id → m.workspaceId = c.actor.workspaceId
  | .member (.checkingUser invite tokenHash userId) =>
    Knows cfg T l c.accepts invite tokenHash userId
  | .member (.checkingMember invite tokenHash userId) =>
    Knows cfg T l c.accepts invite tokenHash userId ∧ Verified cfg l.table.users userId invite.email
  | .member (.activating invite tokenHash userId) =>
    Knows cfg T l c.accepts invite tokenHash userId ∧ Verified cfg l.table.users userId invite.email
  | .member (.ended _) => True
  | .member _ => c.accepts = none

section

variable {cfg : Config} {T : Set String} {l l' : Ledger} {c : InviteCall}

theorem Knows.mono {accepts : Option (Uuid × String)} {invite : Membership} {tokenHash : String}
    {userId : Uuid} (h : Knows cfg T l accepts invite tokenHash userId) (hgrows : l.Grows l') :
    Knows cfg T l' accepts invite tokenHash userId where
  accepts := h.accepts
  known := hgrows.ids h.known
  rows := by
    intro m' hm' hid
    obtain ⟨m, hm, hid', hworkspace, hemail⟩ := hgrows.rows m' hm' (hid ▸ h.known)
    rw [hworkspace, hemail]
    exact h.rows m hm (hid'.symm.trans hid)

/-- **What a call knows stays true.** -/
theorem InviteCall.Sound.mono (h : c.Sound cfg T l) (hgrows : l.Grows l') :
    c.Sound cfg T l' := by
  obtain ⟨actor, stage, accepts⟩ := c
  cases stage with
  | resending target =>
    obtain ⟨haccepts, hknown, hrows⟩ := h
    refine ⟨haccepts, hgrows.ids hknown, fun m' hm' hid => ?_⟩
    obtain ⟨m, hm, hid', hworkspace, -⟩ := hgrows.rows m' hm' (hid ▸ hknown)
    rw [hworkspace]
    exact hrows m hm (hid'.symm.trans hid)
  | member phase =>
    cases phase with
    | checkingUser invite tokenHash userId => exact Knows.mono h hgrows
    | checkingMember invite tokenHash userId =>
      exact ⟨Knows.mono h.1 hgrows, h.2.mono hgrows.users⟩
    | activating invite tokenHash userId =>
      exact ⟨Knows.mono h.1 hgrows, h.2.mono hgrows.users⟩
    | _ => exact h

/-- The guard lets a call through as it is. -/
theorem sound_guarded {actor : RequestActor} {phase : Phase}
    (h : InviteCall.Sound cfg T l ⟨actor, .member phase, none⟩) :
    InviteCall.Sound cfg T l ⟨actor, .member (canActivate actor phase), none⟩ := by
  rw [canActivate]
  split
  · exact h
  · trivial

theorem sound_resend (hok : l.Ok cfg T) (actor : RequestActor) (membershipId : Uuid) :
    InviteCall.Sound cfg T l ⟨actor, resend l.table actor.workspaceId membershipId, none⟩ := by
  rw [resend]
  split
  · trivial
  next target htarget =>
  split
  · trivial
  have hhit := List.find?_some htarget
  have hmem := List.mem_of_find?_eq_some htarget
  refine ⟨rfl, hok.known target hmem, fun m hm hid => ?_⟩
  rw [List.inj_on_of_nodup_map hok.ids hm hmem hid]
  exact of_decide_eq_true (Bool.and_eq_true_iff.mp hhit).2

/-- **The token of an acceptance hashes to what was read.** -/
theorem sound_accept (hok : l.Ok cfg T) (actor : RequestActor) (userId : Uuid) {token : String}
    (htoken : token ∈ T) : InviteCall.Sound cfg T l
      ⟨actor, .member (acceptInvite cfg l.table userId token), some (userId, token)⟩ := by
  rw [acceptInvite]
  split
  · trivial
  next invite hfind =>
  have hmem := List.mem_of_find?_eq_some hfind
  split
  · trivial
  split
  · trivial
  refine ⟨⟨token, htoken, rfl, rfl⟩, hok.known invite hmem, fun m hm hid => ?_⟩
  rw [List.inj_on_of_nodup_map hok.ids hm hmem hid]
  exact ⟨rfl, rfl⟩

theorem sound_openedCall (hok : l.Ok cfg T) {a : InviteAction} (ha : ∀ t ∈ a.tokens, t ∈ T)
    (h : openedCall cfg l.table a = some c) : c.Sound cfg T l := by
  cases a with
  | invite actor input =>
    obtain rfl := Option.some.inj h
    refine sound_guarded ?_
    rw [SnapUrl.Members.invite]
    split
    · trivial
    · rfl
  | resend actor membershipId =>
    obtain rfl := Option.some.inj h
    split
    · exact sound_resend hok actor membershipId
    · trivial
  | changeRole actor membershipId role =>
    obtain rfl := Option.some.inj h
    refine sound_guarded ?_
    rw [SnapUrl.Members.changeRole]
    split
    · trivial
    split
    · trivial
    split
    · trivial
    split <;> rfl
  | remove actor membershipId =>
    obtain rfl := Option.some.inj h
    refine sound_guarded ?_
    rw [SnapUrl.Members.remove]
    split
    · trivial
    split <;> rfl
  | acceptInvite actor userId rawToken =>
    obtain rfl := Option.some.inj h
    exact sound_accept hok actor userId (ha rawToken (List.mem_singleton_self _))
  | _ => cases h

/-- **What the next statement of a call finds.** -/
theorem sound_stage (h : c.Sound cfg T l) (d : Draw) :
    InviteCall.Sound cfg T l { c with stage := c.next cfg l.table d } := by
  obtain ⟨actor, stage, accepts⟩ := c
  cases stage with
  | resending target => trivial
  | member phase =>
    cases phase with
    | findingUser email role => exact h
    | inserting email role userId =>
      dsimp only [InviteCall.next, Call.next]
      split <;> trivial
    | checkingUser invite tokenHash userId =>
      dsimp only [InviteCall.next, Call.next]
      split
      · trivial
      next user hfind =>
      have hid : user.id = userId :=
        of_decide_eq_true (List.find?_some (p := fun u : User => u.id = userId) hfind)
      split
      · trivial
      next hmatch =>
      split
      · trivial
      next hverified =>
      rw [hid]
      refine ⟨h, user, List.mem_of_find?_eq_some hfind, hid, ?_, ?_⟩
      · exact Option.isSome_iff_ne_none.mpr fun hnone => hverified (by rw [hnone]; rfl)
      · exact not_not.mp fun hne => hmatch (Or.inl hne)
    | checkingMember invite tokenHash userId =>
      dsimp only [InviteCall.next, Call.next]
      split
      · trivial
      · exact h
    | activating invite tokenHash userId =>
      dsimp only [InviteCall.next, Call.next]
      split
      · trivial
      split
      · split <;> trivial
      · trivial
    | countingOwners change =>
      dsimp only [InviteCall.next, Call.next]
      split
      · trivial
      · exact h
    | writing change => trivial
    | ended result => trivial

/-- **What a call commits is sound.** -/
theorem sound_commit (h : c.Sound cfg T l) {d : Draw} (hunused : l.unused d = true)
    (hd : d.token ∈ T) : (c.commit cfg l.table d).Sound cfg T l := by
  obtain ⟨hid, htoken⟩ := Bool.and_eq_true_iff.mp hunused
  replace hid := of_decide_eq_true hid
  replace htoken := of_decide_eq_true htoken
  obtain ⟨actor, stage, accepts⟩ := c
  cases stage with
  | resending target => exact ⟨htoken, hd, h.2⟩
  | member phase =>
    cases phase with
    | inserting email role userId =>
      dsimp only [InviteCall.commit, Call.write]
      split
      · next row heq =>
        split at heq
        · exact nomatch heq
        · obtain rfl := Write.insert.inj heq
          exact ⟨hid, htoken, hd, rfl, rfl⟩
      · next heq =>
        split at heq <;> exact nomatch heq
      · trivial
    | activating invite tokenHash userId =>
      dsimp only [InviteCall.commit]
      split
      · next hany =>
        obtain ⟨m, hm, hpending⟩ := List.any_eq_true.mp hany
        obtain ⟨⟨token, htokenT, haccepts, hhash⟩, -, hrows⟩ := h.1
        simp only at haccepts
        rw [haccepts]
        have hidm : m.id = invite.id := by
          simp only [pending, Bool.and_eq_true, decide_eq_true_eq] at hpending
          exact hpending.1.1
        obtain ⟨hemail, hworkspace⟩ := hrows m hm hidm
        exact ⟨htokenT, hhash, m, hm, hpending, hworkspace, hemail ▸ h.2⟩
      · trivial
    | _ => trivial

/-- A statement that activates a membership is that of who accepts. -/
theorem accepts_of_join {d : Draw} {row : Membership} {tokenHash token : String} {userId : Uuid}
    (h : c.Sound cfg T l) (hcommit : c.commit cfg l.table d = .join row tokenHash userId token) :
    c.accepts = some (userId, token) := by
  obtain ⟨actor, stage, accepts⟩ := c
  cases stage with
  | resending target => exact nomatch hcommit
  | member phase =>
    cases phase with
    | activating invite inviteHash user =>
      dsimp only [InviteCall.commit] at hcommit
      split at hcommit
      · obtain ⟨-, -, rfl, rfl⟩ := Commit.join.inj hcommit
        obtain ⟨raw, -, haccepts, -⟩ := h.1.accepts
        simp only at haccepts
        rw [haccepts]
        rfl
      · exact nomatch hcommit
    | inserting email role userId =>
      dsimp only [InviteCall.commit, Call.write] at hcommit
      split at hcommit <;> exact nomatch hcommit
    | _ => exact nomatch hcommit

/-- Who accepts commits an activation, or nothing. -/
theorem join_of_accepts {d : Draw} (h : c.Sound cfg T l) (haccepts : c.accepts.isSome = true)
    (hcommit : c.commit cfg l.table d ≠ .nothing) : ∃ row tokenHash userId token,
      c.commit cfg l.table d = .join row tokenHash userId token := by
  obtain ⟨actor, stage, accepts⟩ := c
  cases stage with
  | resending target =>
    rw [show accepts = none from h.1] at haccepts
    exact nomatch haccepts
  | member phase =>
    cases phase with
    | activating invite tokenHash userId =>
      dsimp only [InviteCall.commit] at hcommit ⊢
      split
      · exact ⟨invite, tokenHash, userId, _, rfl⟩
      · next hgone => exact absurd (if_neg hgone) hcommit
    | checkingUser invite tokenHash userId => exact absurd rfl hcommit
    | checkingMember invite tokenHash userId => exact absurd rfl hcommit
    | ended result => exact absurd rfl hcommit
    | _ =>
      rw [show accepts = none from h] at haccepts
      exact nomatch haccepts

end

/-! ### What one action keeps -/

structure InviteInv (cfg : Config) (T : Set String) (s : InviteState) : Prop where
  ledger : s.ledger.Ok cfg T
  calls : ∀ c ∈ s.calls, c.Sound cfg T s.ledger

section

variable {cfg : Config} {T : Set String} {s : InviteState} {a : InviteAction}

theorem usersKept_append (users : List User) (user : User) : UsersKept users (users ++ [user]) :=
  fun u hu => ⟨u, List.mem_append_left _ hu, rfl, rfl, id⟩

theorem usersKept_verify (users : List User) (userId : Uuid) (now : Int) :
    UsersKept users (users.map fun u =>
      if u.id = userId then { u with emailVerifiedAt := some now } else u) := by
  intro u hu
  refine ⟨_, List.mem_map_of_mem hu, ?_⟩
  split
  · exact ⟨rfl, rfl, fun _ => rfl⟩
  · exact ⟨rfl, rfl, id⟩

/-- A statement of a call that commits, with what it draws. -/
theorem commitOf_next {i : Nat} {d : Draw} {w : Commit}
    (h : commitOf cfg s (.next i d) = w) (hw : w ≠ .nothing) :
    s.ledger.unused d = true ∧ ∃ c, s.calls[i]? = some c ∧ c.commit cfg s.ledger.table d = w := by
  rw [commitOf] at h
  split at h
  · next hunused =>
    refine ⟨hunused, ?_⟩
    cases hc : s.calls[i]? with
    | none =>
      rw [hc] at h
      exact absurd h.symm hw
    | some c =>
      rw [hc] at h
      exact ⟨c, rfl, h⟩
  · exact absurd h.symm hw

theorem sound_commitOf (h : InviteInv cfg T s) (ha : ∀ token ∈ a.tokens, token ∈ T) :
    (commitOf cfg s a).Sound cfg T s.ledger := by
  cases a with
  | register user =>
    rw [commitOf]
    split
    · trivial
    · exact usersKept_append _ _
  | verifyEmail userId => exact usersKept_verify _ _ _
  | next i d =>
    by_cases hnothing : commitOf cfg s (.next i d) = .nothing
    · rw [hnothing]
      trivial
    · obtain ⟨hunused, c, hc, hcommit⟩ := commitOf_next rfl hnothing
      rw [← hcommit]
      exact sound_commit (h.calls c (List.mem_of_getElem? hc)) hunused
        (ha d.token (List.mem_singleton_self _))
  | _ => trivial

/-- **Every action keeps the invariant.** -/
theorem inv_inviteAct (h : InviteInv cfg T s) (hT : T.InjOn cfg.hash)
    (ha : ∀ token ∈ a.tokens, token ∈ T) : InviteInv cfg T (inviteAct cfg s a) := by
  have hw := sound_commitOf h ha
  refine ⟨ok_commit h.ledger hT hw, fun c hc => InviteCall.Sound.mono ?_ (grows_commit hw)⟩
  have hopen : c ∈ s.calls ++ (openedCall cfg s.ledger.table a).toList →
      c.Sound cfg T s.ledger := by
    intro hc
    rcases List.mem_append.mp hc with hc | hc
    · exact h.calls c hc
    · exact sound_openedCall h.ledger ha (Option.mem_toList.mp hc)
  cases a with
  | next i d =>
    rw [inviteAct, invitesAfter] at hc
    split at hc
    · rcases mem_or_eq_of_mem_modify hc with hc | ⟨c₀, hc₀, rfl⟩
      · exact h.calls c hc
      · exact sound_stage (h.calls c₀ (List.mem_of_getElem? hc₀)) d
    · exact h.calls c hc
  | raise i =>
    rcases mem_or_eq_of_mem_modify hc with hc | ⟨c₀, -, rfl⟩
    · exact h.calls c hc
    · trivial
  | _ => exact hopen hc

/-- **A membership becomes active by the statement of an acceptance.** -/
theorem joins_of_becomesActive (h : InviteInv cfg T s) (hT : T.InjOn cfg.hash)
    (ha : ∀ token ∈ a.tokens, token ∈ T) {id : Uuid}
    (hactive : BecomesActive s.ledger.table (inviteAct cfg s a).ledger.table id) :
    Joins cfg s a id := by
  have hw := sound_commitOf h ha
  obtain ⟨⟨m', hm', hid, hstatus⟩, hbefore⟩ := hactive
  rcases origin_of_mem hm' with ⟨token, hinvite⟩ | ⟨m, hm, horigin⟩
  · rw [hinvite] at hw
    exact absurd (hstatus.symm.trans hw.2.2.2.1) nofun
  have hidm : m.id = id := horigin.id.symm.trans hid
  have hhit : (commitOf cfg s a).activates m = true := by
    by_contra hmiss
    rw [horigin.status, if_neg hmiss] at hstatus
    exact hbefore m hm hidm hstatus
  cases hcommit : commitOf cfg s a with
  | join row tokenHash userId token =>
    rw [hcommit] at hw hhit
    obtain ⟨htoken, rfl, m₀, hm₀, hpending, hworkspace, hverified⟩ := hw
    obtain ⟨hid₀, -, -⟩ := latest_of_pending h.ledger hT htoken hm₀ hpending
    obtain ⟨hidrow, hinvited, hlatest⟩ := latest_of_pending h.ledger hT htoken hm hhit
    obtain rfl : m₀ = m :=
      List.inj_on_of_nodup_map h.ledger.ids hm₀ hm (hid₀.trans hidrow.symm)
    -- only the statement of a call commits this
    cases a with
    | next i d =>
      obtain ⟨hunused, c, hc, hjoin⟩ := commitOf_next hcommit nofun
      have hledger : (inviteAct cfg s (.next i d)).ledger =
          s.ledger.apply cfg (.join row (cfg.hash token) userId token) :=
        congrArg (s.ledger.apply cfg) hcommit
      refine ⟨i, d, c, m₀, userId, token, rfl, hc, hidm, ?_⟩
      rw [hledger]
      refine ⟨accepts_of_join (h.calls c (List.mem_of_getElem? hc)) hjoin, ⟨hm, hinvited⟩,
        hidrow ▸ hlatest, hverified, fun hgone => ?_, ?_, ?_⟩
      · exact (h.ledger.removed _ hgone).2 m₀ hm rfl
      · rw [hworkspace, hidrow]
        rfl
      · rw [hidrow]
        rfl
    | register user =>
      rw [commitOf] at hcommit
      split at hcommit <;> exact nomatch hcommit
    | _ => exact nomatch hcommit
  | _ =>
    rw [hcommit] at hhit
    exact nomatch hhit

/-- **An acceptance that activates nothing commits nothing.** -/
theorem ledger_of_refused (h : InviteInv cfg T s) (hT : T.InjOn cfg.hash)
    (ha : ∀ token ∈ a.tokens, token ∈ T) (haccepts : a.accepts s = true)
    (hnone : ∀ id, ¬ BecomesActive s.ledger.table (inviteAct cfg s a).ledger.table id) :
    (inviteAct cfg s a).ledger = s.ledger := by
  cases a with
  | next i d =>
    by_cases hnothing : commitOf cfg s (.next i d) = .nothing
    · exact congrArg (s.ledger.apply cfg) hnothing
    obtain ⟨hunused, c, hc, hcommit⟩ := commitOf_next rfl hnothing
    rw [InviteAction.accepts, hc] at haccepts
    have hsound := h.calls c (List.mem_of_getElem? hc)
    obtain ⟨row, tokenHash, userId, token, hjoin⟩ :=
      join_of_accepts hsound haccepts (hcommit ▸ hnothing)
    have hw := sound_commit hsound hunused (ha d.token (List.mem_singleton_self _))
    rw [hjoin] at hw
    obtain ⟨htoken, rfl, m, hm, hpending, -⟩ := hw
    obtain ⟨hid, hinvited, -⟩ := latest_of_pending h.ledger hT htoken hm hpending
    have hledger : (inviteAct cfg s (.next i d)).ledger =
        s.ledger.apply cfg (.join row (cfg.hash token) userId token) :=
      congrArg (s.ledger.apply cfg) (hcommit.symm.trans hjoin)
    refine absurd ⟨?_, fun m' hm' hid' => ?_⟩ (hnone m.id)
    · rw [hledger]
      refine ⟨activated row.id (cfg.hash token) userId m, List.mem_map_of_mem hm, ?_, ?_⟩
      · exact (activated_same _ _ _ m).1
      · rw [activated, if_pos hpending]
    · rw [List.inj_on_of_nodup_map h.ledger.ids hm' hm hid', hinvited]
      exact MemberStatus.noConfusion
  | acceptInvite actor userId rawToken => rfl
  | raise i => rfl
  | _ => exact absurd haccepts Bool.false_ne_true

end

/-! ### Every run -/

theorem inv_openBooks (cfg : Config) (T : Set String) {t : Table}
    (hids : (t.rows.map Membership.id).Nodup)
    (hstart : ∀ m ∈ t.rows, m.status = .active ∧ m.inviteTokenHash = none) :
    InviteInv cfg T (openBooks t) where
  ledger :=
    { ids := hids
      known := fun m hm => List.mem_map_of_mem hm
      hashes := by
        intro m hm h hh
        rw [(hstart m hm).2] at hh
        exact absurd hh (Option.not_mem_none _)
      tokens := List.nodup_nil
      issued := fun _ h => absurd h List.not_mem_nil
      removed := fun _ h => absurd h List.not_mem_nil
      joined := List.nodup_nil
      active := fun _ h => absurd h List.not_mem_nil
      audit := rfl }
  calls := fun _ h => absurd h List.not_mem_nil

/-- A token joins once: it was issued for one membership. -/
theorem joined_tokens_nodup {cfg : Config} {T : Set String} {l : Ledger} (h : l.Ok cfg T) :
    (l.joined.map Prod.snd).Nodup := by
  refine List.Nodup.map_on (fun j hj j' hj' heq => ?_) (List.Nodup.of_map _ h.joined)
  exact List.inj_on_of_nodup_map h.tokens (h.active j hj).1 (h.active j' hj').1 heq

/-- **Memberships join by the latest token, for the verified address it was sent to, once each and
with one audit row, unless the invitation was removed, and a refused acceptance changes nothing.**
Digests are told apart on the tokens of the run. -/
theorem invitationsHold (cfg : Config) (t : Table) (as : List InviteAction)
    (hids : (t.rows.map Membership.id).Nodup)
    (hstart : ∀ m ∈ t.rows, m.status = .active ∧ m.inviteTokenHash = none)
    (hhash : Set.InjOn cfg.hash {token | ∃ a ∈ as, token ∈ a.tokens}) :
    InvitationsHold cfg (openBooks t) as := by
  have hreach : ∀ pre post s, as = pre ++ post → run (inviteStep cfg) (openBooks t) pre = some s →
      InviteInv cfg {token | ∃ a ∈ as, token ∈ a.tokens} s := by
    intro pre post s hsplit hrun
    refine invariant_of_guarded (G := fun _ a => a ∈ as) (fun s a s' h ha hs' => ?_) pre _ s
      (inv_openBooks cfg _ hids hstart) ?_ hrun
    · obtain rfl := Option.some.inj hs'
      exact inv_inviteAct h hhash fun token htoken => ⟨a, ha, htoken⟩
    · refine guarded_iff_forall_steps.mpr fun pre' a post' _ hpre _ => ?_
      rw [hsplit, hpre]
      simp
  constructor
  · intro pre a post s id hsplit hrun hactive
    refine joins_of_becomesActive (hreach pre _ s hsplit hrun) hhash
      (fun token htoken => ⟨a, ?_, htoken⟩) hactive
    rw [hsplit]
    exact List.mem_append_right _ List.mem_cons_self
  · intro pre post s hsplit hrun
    have hledger := (hreach pre post s hsplit hrun).ledger
    exact ⟨hledger.joined, joined_tokens_nodup hledger, hledger.audit⟩
  · intro pre a post s hsplit hrun haccepts hnone
    refine ledger_of_refused (hreach pre _ s hsplit hrun) hhash
      (fun token htoken => ⟨a, ?_, htoken⟩) haccepts hnone
    rw [hsplit]
    exact List.mem_append_right _ List.mem_cons_self

/-- An owner of a workspace. -/
def ownedTeam : Table := ⟨1000, [], [member 1 "ann@example.com" .owner]⟩

/-- A verified user is invited, the link is resent, and only the second one works. -/
def invitedTwice : List InviteAction :=
  [.register ⟨7, "bob@example.com", none⟩, .verifyEmail 7,
    .invite ⟨1, .owner⟩ ⟨"bob@example.com", .editor, nofun⟩, .next 0 ⟨8, "none"⟩,
    .next 0 ⟨2, "first"⟩, .resend ⟨1, .owner⟩ 2, .next 1 ⟨9, "second"⟩,
    .acceptInvite ⟨0, .owner⟩ 7 "first", .acceptInvite ⟨0, .owner⟩ 7 "second",
    .next 3 ⟨3, "x"⟩, .next 3 ⟨3, "x"⟩, .next 3 ⟨3, "x"⟩]

theorem invitationsHold_invitedTwice :
    ((run (inviteStep plainConfig) (openBooks ownedTeam) invitedTwice).any fun s =>
      s.ledger.joined = [(2, "second")]) = true ∧
    InvitationsHold plainConfig (openBooks ownedTeam) invitedTwice :=
  ⟨by decide, invitationsHold plainConfig ownedTeam invitedTwice (by decide) (by decide)
    fun _ _ _ _ h => h⟩

end SnapUrl.Members
