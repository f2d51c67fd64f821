import SnapUrl.Auth.RefreshTokens
import SnapUrl.Auth.Totp

/-!
# Sign-ins and revocations

`login`, `oauthSignIn`, `verifyTotp`, `refresh` and `confirmPasswordReset` of
`apps/api/src/auth/auth.service.ts`, over `token.service.ts`, and `suspendUser`, `unsuspendUser` and
`signOutEverywhere` of `apps/api/src/admin/admin-management.service.ts`.

* `step`: any number of calls, in any order, one statement at a time.  A revocation finds the rows
  that are stored when its statement begins; no row lock is modelled, so what would wait for one may
  come at any time.
* `Session`: a family of refresh tokens, with what its sign-in had read.
* `SessionsHold`: **no session is live that a reset, a sign-out or a lifted suspension should have
  ended, and no refresh answers while a suspension stands**.
* `Kept`: the steps that keep this.
-/

namespace SnapUrl.Auth.SignIns

open Lib
open RefreshTokens (Uuid Row Table Draw issueRefreshToken)

/-! ### Calls -/

/-- Ghost: what a sign-in has read of a user, as how many revocations had committed. -/
structure Opening where
  /-- The passwords that resets had set before the one that it has verified. -/
  checked : Option Nat
  signOuts : Nat
  suspensions : Nat
deriving DecidableEq, Repr

/-- Ghost: a family of refresh tokens. -/
structure Session where
  familyId : Uuid
  userId : Uuid
  opening : Opening
deriving DecidableEq, Repr

/-- What `signChallengeToken` has signed. -/
structure Challenge where
  sub : Uuid
  /-- Seconds. -/
  exp : Int
  /-- Ghost: as in `Opening`. -/
  checked : Option Nat
deriving DecidableEq, Repr

structure Membership where
  workspaceId : String
  role : String
deriving DecidableEq, Repr

/-- How far a sign-in is. -/
inductive SignInPhase where
  /-- `verifyTotp` has not accepted the code as a TOTP. -/
  | listing (userId : Uuid) (code : String) (wasOn : Bool)
  | claiming (userId id : Uuid) (wasOn : Bool)
  | challenging (userId : Uuid)
  /-- All checks have passed, and the membership is read next. -/
  | issuing (userId : Uuid)
  /-- The refresh token is stored next. -/
  | authorized (userId : Uuid) (membership : Membership)
  | opened (refreshToken : String) (membership : Membership)
  | challenged (challenge : Nat)
  | refused (status : Nat) (message : String)
  | failed
deriving DecidableEq, Repr

structure SignIn where
  opening : Opening
  phase : SignInPhase
deriving DecidableEq, Repr

structure AccessTokenClaims where
  sub : Uuid
  wid : String
  role : String
  email : String
deriving DecidableEq, Repr

/-- How far a refresh is. -/
inductive RefreshPhase where
  /-- The checks of `rotate` have passed, the row is as it was read. -/
  | inserting (row : Row)
  | finding (row : Row) (next : String)
  | retiring (row : Row) (next : String) (replacement : Option Uuid)
  /-- `rotate` has found the token exchanged. -/
  | replayed (familyId : Uuid) (message : String)
  | revoking (familyId : Uuid) (seen : Nat) (at_ : Int) (message : String)
  | rotated (userId : Uuid) (next : String)
  /-- The user is read, and is not suspended. -/
  | checked (user : Totp.User) (next : String)
  | authorized (user : Totp.User) (membership : Membership) (next : String)
  | returned (claims : AccessTokenClaims) (next : String)
  | refused (status : Nat) (message : String)
  | failed
deriving DecidableEq, Repr

structure Refresh where
  phase : RefreshPhase
  /-- Ghost: the user was suspended when an access token was returned. -/
  barred : Bool
deriving DecidableEq, Repr

/-- How far a password reset is.  Each phase has the number of the password that it has set. -/
inductive ResetPhase where
  | consumed
  | passwordSet (generation : Nat)
  | revoking (generation seen : Nat) (at_ : Int)
  | revoked (generation : Nat)
  | returned
  | failed
deriving DecidableEq, Repr

structure Reset where
  userId : Uuid
  /-- What `argon2.hash` gives. -/
  passwordHash : String
  phase : ResetPhase
deriving DecidableEq, Repr

inductive AdminKind where
  | suspend
  | signOutEverywhere
deriving DecidableEq, Repr

/-- How far the transaction of an admin is. -/
inductive AdminPhase where
  | begun
  | revoking (seen : Nat) (at_ : Int)
  | committed
  | failed
deriving DecidableEq, Repr

structure Admin where
  kind : AdminKind
  userId : Uuid
  at_ : Int
  phase : AdminPhase
deriving DecidableEq, Repr

structure Deployment where
  totp : Totp.Config
  refresh : RefreshTokens.Config

structure Store where
  accounts : Totp.Table
  tokens : Table
  challenges : List Challenge
  signIns : List SignIn
  refreshes : List Refresh
  resets : List Reset
  admins : List Admin
  /-- Ghosts. -/
  sessions : List Session
  /-- Ghost: the passwords that resets have set. -/
  generation : Uuid → Nat
  /-- Ghost: the number of the last of them whose reset has returned. -/
  returned : Uuid → Nat
  signOuts : Uuid → Nat
  suspensions : Uuid → Nat

def start (now : Int) : Store where
  accounts := (Totp.start now []).table
  tokens := (RefreshTokens.start now).table
  challenges := []
  signIns := []
  refreshes := []
  resets := []
  admins := []
  sessions := []
  generation := fun _ => 0
  returned := fun _ => 0
  signOuts := fun _ => 0
  suspensions := fun _ => 0

/-- What a statement finds outside. -/
structure Outside where
  /-- What `primaryMembership` or `activeMembership` finds. -/
  membership : Option Membership
  /-- What `randomUUID` gives. -/
  familyId : Uuid
  draw : Draw
deriving DecidableEq, Repr

/-! ### Sign-ins -/

def unattached : String := "Your account isn't attached to a workspace."

/-- `oauthSignIn` from the read of its user on. -/
def oauthSignIn (t : Totp.Table) (userId : Uuid) : Totp.Call :=
  match t.user userId with
  | none => Totp.refuse 401 "Unauthorized"
  | some user =>
    if user.suspendedAt.isSome then Totp.refuse 403 Totp.ACCOUNT_SUSPENDED_MESSAGE
    else if user.totpEnabledAt.isSome ∧ user.totpSecret.isSome then .ended (.challenge user.id)
    else .issuing user.id none user.totpEnabledAt.isSome

def phaseOf : Totp.Call → SignInPhase
  | .issuing userId _ _ => .issuing userId
  | .listing userId code wasOn => .listing userId code wasOn
  | .claiming userId id wasOn => .claiming userId id wasOn
  | .ended (.challenge userId) => .challenging userId
  | .ended (.refused status message) => .refused status message
  | _ => .failed

/-- The user that a sign-in has found. -/
def SignInPhase.userId : SignInPhase → Option Uuid
  | .listing userId _ _ => some userId
  | .claiming userId _ _ => some userId
  | .challenging userId => some userId
  | .issuing userId => some userId
  | .authorized userId _ => some userId
  | .opened _ _ => none
  | .challenged _ => none
  | .refused _ _ => none
  | .failed => none

/-- A sign-in after its first statement. -/
def Store.begin (s : Store) (call : Totp.Call) (checked : Uuid → Option Nat) : Store :=
  { s with
    signIns := s.signIns ++ [⟨(phaseOf call).userId.elim ⟨none, 0, 0⟩ fun userId =>
      ⟨checked userId, s.signOuts userId, s.suspensions userId⟩, phaseOf call⟩] }

/-- `verifyChallengeToken`. -/
def Store.verifyChallengeToken (s : Store) (challenge : Option Nat) : Option Challenge :=
  (challenge.bind fun j => s.challenges[j]?).filter fun c => s.accounts.now / 1000 < c.exp

def Store.setSignIn (s : Store) (i : Nat) (signIn : SignIn) (phase : SignInPhase) : Store :=
  { s with signIns := s.signIns.set i { signIn with phase := phase } }

def Store.claim (d : Deployment) (s : Store) (id : Uuid) : Store :=
  { s with accounts := s.accounts.apply d.totp (.claim id) }

def Store.challenge (s : Store) (i : Nat) (signIn : SignIn) (userId : Uuid) : Store :=
  { s with
    challenges := s.challenges ++ [⟨userId, s.accounts.now / 1000 + 120, signIn.opening.checked⟩]
    signIns := s.signIns.set i { signIn with phase := .challenged s.challenges.length } }

/-- A row of `refresh_tokens`, where the unique indexes take it. -/
def Store.issue (d : Deployment) (s : Store) (userId familyId : Uuid) (draw : Draw) : Option Row :=
  if s.tokens.refuses (issueRefreshToken d.refresh s.tokens userId familyId draw) then none
  else some (issueRefreshToken d.refresh s.tokens userId familyId draw)

def Store.openSession (s : Store) (i : Nat) (signIn : SignIn) (membership : Membership) (row : Row)
    (token : String) : Store :=
  { s with
    tokens := s.tokens.apply (.insert row)
    sessions := s.sessions ++ [⟨row.familyId, row.userId, signIn.opening⟩]
    signIns := s.signIns.set i { signIn with phase := .opened token membership } }

/-- A family id is drawn once. -/
def Store.drawn (s : Store) (familyId : Uuid) : Bool := s.sessions.any (·.familyId = familyId)

/-- The next statement of a sign-in. -/
def Store.nextSignIn (d : Deployment) (s : Store) (i : Nat) (o : Outside) (signIn : SignIn) :
    Option Store :=
  match signIn.phase with
  | .listing userId code wasOn => some (s.setSignIn i signIn
      (phaseOf ((Totp.Call.listing userId code wasOn).next d.totp s.accounts ⟨"", []⟩)))
  | .claiming userId id wasOn => some ((s.claim d id).setSignIn i signIn
      (phaseOf ((Totp.Call.claiming userId id wasOn).next d.totp s.accounts ⟨"", []⟩)))
  | .challenging userId => some (s.challenge i signIn userId)
  | .issuing userId => some (s.setSignIn i signIn
      (o.membership.elim (.refused 401 unattached) (.authorized userId)))
  | .authorized userId membership =>
    if s.drawn o.familyId then none
    else some ((s.issue d userId o.familyId o.draw).elim (s.setSignIn i signIn .failed) fun row =>
      s.openSession i signIn membership row o.draw.token)
  | .opened _ _ => none
  | .challenged _ => none
  | .refused _ _ => none
  | .failed => none

/-! ### Refreshes -/

/-- Where a refresh stands after the checks of `rotate`. -/
def RefreshPhase.ofRotate : RefreshTokens.Phase → RefreshPhase
  | .inserting row => .inserting row
  | .revoking familyId (.refused message) => .replayed familyId message
  | .ended (.refused message) => .refused 401 message
  | _ => .failed

def Store.setRefresh (s : Store) (k : Nat) (phase : RefreshPhase) : Store :=
  { s with refreshes := s.refreshes.set k ⟨phase, false⟩ }

/-- What a statement that revokes has found is revoked. -/
def revokeSeen (t : Table) (seen : Nat) (at_ : Int) (p : Row → Bool) : Table :=
  { t with
    rows := (t.rows.take seen).map (Row.revokeIf at_ p) ++ t.rows.drop seen
    revoked := t.revoked ++ ((t.rows.take seen).filter p).map Row.familyId }

def Store.setTokens (s : Store) (tokens : Table) : Store := { s with tokens := tokens }

def Store.suspended (s : Store) (userId : Uuid) : Bool :=
  (s.accounts.user userId).any (·.suspendedAt.isSome)

/-- `refresh` has rotated the token, and checks the user. -/
def Store.checkUser (s : Store) (userId : Uuid) (next : String) : RefreshPhase :=
  match s.accounts.user userId with
  | none => .refused 401 "Unauthorized"
  | some user =>
    if user.suspendedAt.isSome then .refused 403 Totp.ACCOUNT_SUSPENDED_MESSAGE
    else .checked user next

/-- `refresh` signs an access token and returns. -/
def Store.returnTokens (s : Store) (k : Nat) (user : Totp.User) (membership : Membership)
    (next : String) : Store :=
  { s with
    refreshes := s.refreshes.set k
      ⟨.returned ⟨user.id, membership.workspaceId, membership.role, user.email⟩ next,
        s.suspended user.id⟩ }

/-- The next statement of a refresh. -/
def Store.nextRefresh (d : Deployment) (s : Store) (k : Nat) (o : Outside) (refresh : Refresh) :
    Option Store :=
  match refresh.phase with
  | .inserting row => some ((s.issue d row.userId row.familyId o.draw).elim
      (s.setRefresh k .failed) fun successor =>
        (s.setTokens (s.tokens.apply (.insert successor))).setRefresh k (.finding row o.draw.token))
  | .finding row next => some (s.setRefresh k
      (.retiring row next ((s.tokens.byHash (d.refresh.hash next)).map Row.id)))
  | .retiring row next replacement => some
      ((s.setTokens (s.tokens.apply (.retire row.id replacement))).setRefresh k
        (.rotated row.userId next))
  | .replayed familyId message => some (s.setRefresh k
      (.revoking familyId s.tokens.rows.length s.tokens.now message))
  | .revoking familyId seen at_ message => some
      ((s.setTokens (revokeSeen s.tokens seen at_ fun row => row.familyId = familyId)).setRefresh k
        (.refused 401 message))
  | .rotated userId next => some (s.setRefresh k (s.checkUser userId next))
  | .checked user next => some (s.setRefresh k
      (o.membership.elim (.refused 401 unattached) fun membership =>
        .authorized user membership next))
  | .authorized user membership next => some (s.returnTokens k user membership next)
  | .returned _ _ => none
  | .refused _ _ => none
  | .failed => none

/-! ### Resets and admins -/

def Store.setReset (s : Store) (j : Nat) (reset : Reset) (phase : ResetPhase) : Store :=
  { s with resets := s.resets.set j { reset with phase := phase } }

/-- `update users set … where id = …`. -/
def Store.setUser (s : Store) (userId : Uuid) (set : Totp.User → Totp.User) : Store :=
  { s with accounts := { s.accounts with users := Totp.setUser userId set s.accounts.users } }

def Store.setPassword (s : Store) (j : Nat) (reset : Reset) : Store :=
  { (s.setUser reset.userId ({ · with passwordHash := some reset.passwordHash })) with
    generation := Function.update s.generation reset.userId (s.generation reset.userId + 1)
    resets := s.resets.set j
      { reset with phase := .passwordSet (s.generation reset.userId + 1) } }

def Store.returnReset (s : Store) (j : Nat) (reset : Reset) (generation : Nat) : Store :=
  { s with
    returned := Function.update s.returned reset.userId
      (max (s.returned reset.userId) generation)
    resets := s.resets.set j { reset with phase := .returned } }

/-- The next statement of a reset. -/
def Store.nextReset (s : Store) (j : Nat) (reset : Reset) : Option Store :=
  match reset.phase with
  | .consumed => some (s.setPassword j reset)
  | .passwordSet generation => some (s.setReset j reset
      (.revoking generation s.tokens.rows.length s.tokens.now))
  | .revoking generation seen at_ => some
      ((s.setTokens (revokeSeen s.tokens seen at_ fun row => row.userId = reset.userId)).setReset
        j reset (.revoked generation))
  | .revoked generation => some (s.returnReset j reset generation)
  | .returned => none
  | .failed => none

def Store.setAdmin (s : Store) (j : Nat) (admin : Admin) (phase : AdminPhase) : Store :=
  { s with admins := s.admins.set j { admin with phase := phase } }

/-- `suspendUser` commits. -/
def Store.commitSuspend (s : Store) (j : Nat) (admin : Admin) (seen : Nat) (at_ : Int) : Store :=
  { (s.setUser admin.userId ({ · with suspendedAt := some admin.at_ })) with
    tokens := revokeSeen s.tokens seen at_ fun row => row.userId = admin.userId
    suspensions := Function.update s.suspensions admin.userId (s.suspensions admin.userId + 1)
    admins := s.admins.set j { admin with phase := .committed } }

/-- `signOutEverywhere` commits. -/
def Store.commitSignOut (s : Store) (j : Nat) (admin : Admin) (seen : Nat) (at_ : Int) : Store :=
  { s with
    tokens := revokeSeen s.tokens seen at_ fun row => row.userId = admin.userId
    signOuts := Function.update s.signOuts admin.userId (s.signOuts admin.userId + 1)
    admins := s.admins.set j { admin with phase := .committed } }

/-- The next statement of an admin's transaction. -/
def Store.nextAdmin (s : Store) (j : Nat) (admin : Admin) : Option Store :=
  match admin.phase with
  | .begun => some (s.setAdmin j admin (.revoking s.tokens.rows.length s.tokens.now))
  | .revoking seen at_ =>
    match admin.kind with
    | .suspend => some (s.commitSuspend j admin seen at_)
    | .signOutEverywhere => some (s.commitSignOut j admin seen at_)
  | .committed => none
  | .failed => none

/-! ### Steps -/

inductive Action where
  | tick (ms : Nat)
  | signUp (user : Totp.User)
  | login (email password : String)
  | oauthSignIn (userId : Uuid)
  | verifyTotp (challenge : Option Nat) (code : String)
  | nextSignIn (i : Nat) (o : Outside)
  | failSignIn (i : Nat)
  /-- `refresh`, which reads the row of a token and checks it. -/
  | refresh (token : String)
  | nextRefresh (k : Nat) (o : Outside)
  | failRefresh (k : Nat)
  /-- `confirmPasswordReset` has consumed a token of the user. -/
  | confirmPasswordReset (userId : Uuid) (passwordHash : String)
  | nextReset (j : Nat)
  | failReset (j : Nat)
  /-- The user exists, and the transaction begins. -/
  | admin (kind : AdminKind) (userId : Uuid)
  | nextAdmin (j : Nat)
  | failAdmin (j : Nat)
  | unsuspendUser (userId : Uuid)

def Store.tick (d : Deployment) (s : Store) (ms : Nat) : Store :=
  { s with
    accounts := s.accounts.apply d.totp (.tick ms)
    tokens := s.tokens.apply (.tick ms) }

def Store.signUp (s : Store) (user : Totp.User) : Store :=
  { s with accounts := { s.accounts with users := s.accounts.users ++ [user] } }

/-- The first statement of `rotate`. -/
def Store.beginRefresh (d : Deployment) (s : Store) (token : String) : Store :=
  { s with
    refreshes := s.refreshes ++ [⟨.ofRotate
      (RefreshTokens.checked s.tokens.now (s.tokens.byHash (d.refresh.hash token))), false⟩] }

/-- What an action does, where it can be done. -/
def execute (d : Deployment) (s : Store) : Action → Option Store
  | .tick ms => some (s.tick d ms)
  | .signUp user =>
    if (s.accounts.user user.id).isSome then none
    else some (s.signUp user)
  | .login email password =>
    some (s.begin (Totp.login d.totp s.accounts email password) fun userId =>
      some (s.generation userId))
  | .oauthSignIn userId => some (s.begin (oauthSignIn s.accounts userId) fun _ => none)
  | .verifyTotp challenge code =>
    some (s.begin (Totp.verifyTotp d.totp s.accounts
      ((s.verifyChallengeToken challenge).map Challenge.sub) code)
        fun _ => (s.verifyChallengeToken challenge).bind Challenge.checked)
  | .nextSignIn i o => (s.signIns[i]?).bind (s.nextSignIn d i o)
  | .failSignIn i => (s.signIns[i]?).map fun signIn => s.setSignIn i signIn .failed
  | .refresh token => some (s.beginRefresh d token)
  | .nextRefresh k o => (s.refreshes[k]?).bind (s.nextRefresh d k o)
  | .failRefresh k => (s.refreshes[k]?).map fun refresh =>
      { s with refreshes := s.refreshes.set k ⟨.failed, refresh.barred⟩ }
  | .confirmPasswordReset userId passwordHash =>
    some { s with resets := s.resets ++ [⟨userId, passwordHash, .consumed⟩] }
  | .nextReset j => (s.resets[j]?).bind (s.nextReset j)
  | .failReset j => (s.resets[j]?).map fun reset => s.setReset j reset .failed
  | .admin kind userId =>
    if (s.accounts.user userId).isSome then
      some { s with admins := s.admins ++ [⟨kind, userId, s.accounts.now, .begun⟩] }
    else none
  | .nextAdmin j => (s.admins[j]?).bind (s.nextAdmin j)
  | .failAdmin j => (s.admins[j]?).map fun admin => s.setAdmin j admin .failed
  | .unsuspendUser userId =>
    if (s.accounts.user userId).isSome then
      some (s.setUser userId ({ · with suspendedAt := none }))
    else none

/-- What cannot be done is not done. -/
def step (d : Deployment) (s : Store) (a : Action) : Option Store := some ((execute d s a).getD s)

/-! ### What should hold -/

/-- A token of the session can be refreshed. -/
def Store.live (s : Store) (session : Session) : Bool :=
  s.tokens.rows.any fun row => row.familyId = session.familyId && row.live s.tokens.now

/-- **What a sign-in had read still counts**: no reset of the password that it checked has returned,
no sign-out has committed since, and no suspension that is lifted again. -/
def Store.Fresh (s : Store) (userId : Uuid) (opening : Opening) : Prop :=
  (∀ generation ∈ opening.checked, s.returned userId ≤ generation) ∧
    s.signOuts userId ≤ opening.signOuts ∧
    (s.suspended userId = false → s.suspensions userId ≤ opening.suspensions)

instance (s : Store) (userId : Uuid) (opening : Opening) : Decidable (s.Fresh userId opening) :=
  inferInstanceAs (Decidable (_ ∧ _ ∧ _))

/-- **No session is live that should have ended, and no refresh answers a suspended user.** -/
structure SessionsHold (s : Store) : Prop where
  fresh : ∀ session ∈ s.sessions, s.live session = true → s.Fresh session.userId session.opening
  barred : ∀ refresh ∈ s.refreshes, refresh.barred = false

/-- The token that a sign-in stores. -/
def Store.opens (d : Deployment) (s : Store) (o : Outside) (signIn : SignIn) : Option Row :=
  match signIn.phase with
  | .authorized userId _ =>
    if s.drawn o.familyId then none else s.issue d userId o.familyId o.draw
  | .listing _ _ _ => none
  | .claiming _ _ _ => none
  | .challenging _ => none
  | .issuing _ => none
  | .opened _ _ => none
  | .challenged _ => none
  | .refused _ _ => none
  | .failed => none

/-- The token that a refresh stores. -/
def Store.succeeds (d : Deployment) (s : Store) (o : Outside) (refresh : Refresh) : Option Row :=
  match refresh.phase with
  | .inserting row => s.issue d row.userId row.familyId o.draw
  | .finding _ _ => none
  | .retiring _ _ _ => none
  | .replayed _ _ => none
  | .revoking _ _ _ _ => none
  | .rotated _ _ => none
  | .checked _ _ => none
  | .authorized _ _ _ => none
  | .returned _ _ => none
  | .refused _ _ => none
  | .failed => none

/-- The user that a refresh answers. -/
def Refresh.answering (refresh : Refresh) : Option Uuid :=
  match refresh.phase with
  | .authorized user _ _ => some user.id
  | .inserting _ => none
  | .finding _ _ => none
  | .retiring _ _ _ => none
  | .replayed _ _ => none
  | .revoking _ _ _ _ => none
  | .rotated _ _ => none
  | .checked _ _ => none
  | .returned _ _ => none
  | .refused _ _ => none
  | .failed => none

/-- The password of a reset that is to return. -/
def Reset.returning (reset : Reset) : Option Nat :=
  match reset.phase with
  | .revoked generation => some generation
  | .consumed => none
  | .passwordSet _ => none
  | .revoking _ _ _ => none
  | .returned => none
  | .failed => none

/-- What a sign-out that is to commit has found. -/
def Admin.signingOut (admin : Admin) : Option Nat :=
  match admin.kind, admin.phase with
  | .signOutEverywhere, .revoking seen _ => some seen
  | .signOutEverywhere, .begun => none
  | .signOutEverywhere, .committed => none
  | .signOutEverywhere, .failed => none
  | .suspend, _ => none

/-- **A step keeps this.**  A token is stored only for a sign-in whose reads still count; a reset
returns, a sign-out commits and a suspension is lifted only where no token was stored meanwhile; and
no refresh that had found its user in good standing answers after the suspension. -/
def Kept (d : Deployment) (s : Store) : Action → Prop
  | .nextSignIn i o => ∀ signIn ∈ s.signIns[i]?, ∀ row ∈ s.opens d o signIn,
      row.live s.tokens.now → s.Fresh row.userId signIn.opening
  | .nextRefresh k o => ∀ refresh ∈ s.refreshes[k]?,
      (∀ row ∈ s.succeeds d o refresh, row.live s.tokens.now → ∀ session ∈ s.sessions,
        session.familyId = row.familyId → s.Fresh session.userId session.opening) ∧
      ∀ userId ∈ refresh.answering, s.suspended userId = false
  | .nextReset j => ∀ reset ∈ s.resets[j]?, ∀ generation ∈ reset.returning,
      ∀ session ∈ s.sessions, session.userId = reset.userId → s.live session = true →
        ∀ checked ∈ session.opening.checked, generation ≤ checked
  | .nextAdmin j => ∀ admin ∈ s.admins[j]?, ∀ seen ∈ admin.signingOut,
      ∀ row ∈ s.tokens.rows.drop seen, row.userId = admin.userId → ¬ row.live s.tokens.now
  | .unsuspendUser userId => (s.accounts.user userId).isSome = true →
      ∀ session ∈ s.sessions, session.userId = userId → s.live session = true →
        s.suspensions userId ≤ session.opening.suspensions
  | _ => True

instance (d : Deployment) (s : Store) : (a : Action) → Decidable (Kept d s a)
  | .nextSignIn i o => inferInstanceAs (Decidable (∀ signIn ∈ s.signIns[i]?,
      ∀ row ∈ s.opens d o signIn, row.live s.tokens.now → s.Fresh row.userId signIn.opening))
  | .nextRefresh k o => inferInstanceAs (Decidable (∀ refresh ∈ s.refreshes[k]?,
      (∀ row ∈ s.succeeds d o refresh, row.live s.tokens.now → ∀ session ∈ s.sessions,
        session.familyId = row.familyId → s.Fresh session.userId session.opening) ∧
      ∀ userId ∈ refresh.answering, s.suspended userId = false))
  | .nextReset j => inferInstanceAs (Decidable (∀ reset ∈ s.resets[j]?,
      ∀ generation ∈ reset.returning, ∀ session ∈ s.sessions, session.userId = reset.userId →
        s.live session = true → ∀ checked ∈ session.opening.checked, generation ≤ checked))
  | .nextAdmin j => inferInstanceAs (Decidable (∀ admin ∈ s.admins[j]?, ∀ seen ∈ admin.signingOut,
      ∀ row ∈ s.tokens.rows.drop seen, row.userId = admin.userId → ¬ row.live s.tokens.now))
  | .unsuspendUser userId => inferInstanceAs (Decidable ((s.accounts.user userId).isSome = true →
      ∀ session ∈ s.sessions, session.userId = userId → s.live session = true →
        s.suspensions userId ≤ session.opening.suspensions))
  | .tick _ => isTrue trivial
  | .signUp _ => isTrue trivial
  | .login _ _ => isTrue trivial
  | .oauthSignIn _ => isTrue trivial
  | .verifyTotp _ _ => isTrue trivial
  | .failSignIn _ => isTrue trivial
  | .refresh _ => isTrue trivial
  | .failRefresh _ => isTrue trivial
  | .confirmPasswordReset _ _ => isTrue trivial
  | .failReset _ => isTrue trivial
  | .admin _ _ => isTrue trivial
  | .failAdmin _ => isTrue trivial

end SnapUrl.Auth.SignIns
