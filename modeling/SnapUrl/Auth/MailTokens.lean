import Mathlib.Logic.Function.Basic
import SnapUrl.Lib.Run

/-!
# Tokens that are mailed

`issuePasswordResetToken`, `consumePasswordResetToken`, `issueEmailVerificationToken` and
`consumeEmailVerificationToken` of `apps/api/src/auth/token.service.ts`, and
`confirmPasswordReset` of `auth.service.ts`, one statement at a time, any number of calls beside
each other.

* `Issue`: a call that supersedes and inserts.  Its update sees the rows that are committed when
  it begins, and waits for rows that another has set.
* `Consumption`: a call that consumes, and what follows of a reset.
* `TokensHold`: **one link of a kind works for a user, the one that was issued last; each works
  once; and a reset is done as a whole**.
* `Kept`: the steps that keep this.
-/

namespace SnapUrl.Auth.MailTokens

open Lib

/-! ### Rows -/

inductive Kind where
  | passwordReset
  | emailVerification
deriving DecidableEq, Repr

/-- How long a token lives, in milliseconds. -/
def Kind.ttl : Kind → Int
  | .passwordReset => 3600000
  | .emailVerification => 24 * 3600000

def Kind.refusal : Kind → String
  | .passwordReset => "That reset link is invalid or has expired. Request a new one."
  | .emailVerification => "That verification link is invalid or has expired. Request a new one."

/-- A row of `password_reset_tokens` or of `email_verification_tokens`. -/
structure Token where
  kind : Kind
  userId : Nat
  tokenHash : String
  expiresAt : Int
  usedAt : Option Int
deriving DecidableEq, Repr

def Token.usable (now : Int) (row : Token) : Bool := row.usedAt.isNone && now < row.expiresAt

/-- The condition of the update that supersedes. -/
def Token.isUnusedOf (kind : Kind) (userId : Nat) (row : Token) : Bool :=
  row.kind = kind && row.userId = userId && row.usedAt.isNone

def Token.use (at_ : Int) (row : Token) : Token := { row with usedAt := some at_ }

def Token.supersede (kind : Kind) (userId : Nat) (at_ : Int) (row : Token) : Token :=
  if row.isUnusedOf kind userId then row.use at_ else row

/-- A row of `refresh_tokens`, the columns that are read or written here. -/
structure Session where
  userId : Nat
  revokedAt : Option Int
deriving DecidableEq, Repr

/-- `set revoked_at = now where user_id = … and revoked_at is null`. -/
def Session.revoke (userId : Nat) (now : Int) (session : Session) : Session :=
  if session.userId = userId && session.revokedAt.isNone then { session with revokedAt := some now }
  else session

/-! ### Calls -/

/-- How far a call is that issues a token. -/
inductive IssuePhase where
  | begun
  /-- Its update has begun, and sees the first rows, so many. -/
  | superseding (seen : Nat) (at_ : Int)
  /-- Its update has set what was unused of them. -/
  | superseded (seen : Nat) (at_ : Int)
  /-- It has inserted its row, and is to commit. -/
  | inserted (seen : Nat) (at_ : Int)
  | returned (token : String)
  | failed
deriving DecidableEq, Repr

structure Issue where
  kind : Kind
  userId : Nat
  token : String
  expiresAt : Int
  phase : IssuePhase
deriving DecidableEq, Repr

/-- The rows that an open transaction may have set. -/
def Issue.holding (issue : Issue) : Option Nat :=
  match issue.phase with
  | .superseded seen _ => some seen
  | .inserted seen _ => some seen
  | .begun => none
  | .superseding _ _ => none
  | .returned _ => none
  | .failed => none

/-- An open transaction has set the row. -/
def Issue.holds (issue : Issue) (position : Nat) (row : Token) : Bool :=
  (issue.holding.any (position < ·)) && row.isUnusedOf issue.kind issue.userId

/-- What its update has seen, where all that is left of a call is its commit. -/
def Issue.committing (issue : Issue) : Option Nat :=
  match issue.phase with
  | .inserted seen _ => some seen
  | .begun => none
  | .superseding _ _ => none
  | .superseded _ _ => none
  | .returned _ => none
  | .failed => none

/-- How far a call is that consumes a token. -/
inductive ConsumptionPhase where
  | begun
  /-- It has consumed the token of the user. -/
  | consumed (userId : Nat)
  /-- It has set the password. -/
  | passwordSet (userId : Nat)
  | returned (userId : Nat)
  | refused (message : String)
  | failed
deriving DecidableEq, Repr

structure Consumption where
  kind : Kind
  token : String
  newPassword : String
  /-- The time that it asks for. -/
  at_ : Int
  phase : ConsumptionPhase
  /-- Ghost: the row that it has consumed. -/
  spent : Option Nat
  /-- Ghost: the user whose password it has set. -/
  changed : Option Nat
deriving DecidableEq, Repr

/-- What all calls find alike. -/
structure Deployment where
  /-- The SHA-256 of a token, in hex. -/
  sha256 : String → String
  /-- `argon2.hash`. -/
  argon2 : String → String

/-- What is committed, and the calls. -/
structure Store where
  now : Int
  /-- In the order in which they were committed. -/
  tokens : List Token
  passwords : Nat → Option String
  sessions : List Session
  issues : List Issue
  consumptions : List Consumption

/-! ### Issuing -/

def Store.setIssue (s : Store) (j : Nat) (issue : Issue) (phase : IssuePhase) : Store :=
  { s with issues := s.issues.set j { issue with phase := phase } }

/-- No other transaction has set a row that the update is to set. -/
def Store.maySupersede (s : Store) (j : Nat) (issue : Issue) (seen : Nat) : Bool :=
  (s.tokens.take seen).zipIdx.all fun (row, position) => !row.isUnusedOf issue.kind issue.userId ||
    (s.issues.eraseIdx j).all fun other => !other.holds position row

def Issue.row (d : Deployment) (issue : Issue) : Token :=
  ⟨issue.kind, issue.userId, d.sha256 issue.token, issue.expiresAt, none⟩

def Store.commit (d : Deployment) (s : Store) (j : Nat) (issue : Issue) (seen : Nat) (at_ : Int) :
    Store :=
  { s with
    tokens := (s.tokens.take seen).map (·.supersede issue.kind issue.userId at_) ++
      s.tokens.drop seen ++ [issue.row d]
    issues := s.issues.set j { issue with phase := .returned issue.token } }

/-- The next statement of a call that issues. -/
def Store.nextIssue (d : Deployment) (s : Store) (j : Nat) (issue : Issue) : Option Store :=
  match issue.phase with
  | .begun => some (s.setIssue j issue (.superseding s.tokens.length s.now))
  | .superseding seen at_ =>
    if s.maySupersede j issue seen then some (s.setIssue j issue (.superseded seen at_)) else none
  | .superseded seen at_ =>
    -- the unique index on the hash
    if s.tokens.any (·.tokenHash = d.sha256 issue.token) then some (s.setIssue j issue .failed)
    else some (s.setIssue j issue (.inserted seen at_))
  | .inserted seen at_ => some (s.commit d j issue seen at_)
  | .returned _ => none
  | .failed => none

/-! ### Consuming -/

def Store.set (s : Store) (i : Nat) (call : Consumption) : Store :=
  { s with consumptions := s.consumptions.set i call }

/-- The row that the token of a call redeems. -/
def Store.redeemable (d : Deployment) (s : Store) (call : Consumption) : Option Nat :=
  s.tokens.findIdx? fun row => row.kind = call.kind && row.tokenHash = d.sha256 call.token &&
    row.usable call.at_

/-- After its token a reset has more to do. -/
def afterConsumption : Kind → Nat → ConsumptionPhase
  | .passwordReset, userId => .consumed userId
  | .emailVerification, userId => .returned userId

/-- `update … set used_at = now where token_hash = … and used_at is null and expires_at > now`. -/
def Store.consume (d : Deployment) (s : Store) (i : Nat) (call : Consumption) : Option Store :=
  match s.redeemable d call with
  | none => some (s.set i { call with phase := .refused call.kind.refusal })
  | some position =>
    (s.tokens[position]?).bind fun row =>
      if s.issues.all fun issue => !issue.holds position row then
        some { s with
          tokens := s.tokens.set position (row.use call.at_)
          consumptions := s.consumptions.set i
            { call with phase := afterConsumption call.kind row.userId, spent := some position } }
      else none

def Store.setPassword (d : Deployment) (s : Store) (i : Nat) (call : Consumption) (userId : Nat) :
    Store :=
  { s with
    passwords := Function.update s.passwords userId (some (d.argon2 call.newPassword))
    consumptions := s.consumptions.set i
      { call with phase := .passwordSet userId, changed := some userId } }

def Store.revokeAllForUser (s : Store) (i : Nat) (call : Consumption) (userId : Nat) : Store :=
  { s with
    sessions := s.sessions.map (·.revoke userId s.now)
    consumptions := s.consumptions.set i { call with phase := .returned userId } }

/-- The next statement of a call that consumes. -/
def Store.next (d : Deployment) (s : Store) (i : Nat) (call : Consumption) : Option Store :=
  match call.phase with
  | .begun => s.consume d i call
  | .consumed userId => some (s.setPassword d i call userId)
  | .passwordSet userId => some (s.revokeAllForUser i call userId)
  | .returned _ => none
  | .refused _ => none
  | .failed => none

/-! ### Steps -/

inductive Action where
  | tick (ms : Nat)
  | issue (kind : Kind) (userId : Nat) (token : String)
  | nextIssue (j : Nat)
  /-- Its transaction is rolled back. -/
  | failIssue (j : Nat)
  /-- `confirmPasswordReset` or `verifyEmail`. -/
  | consume (kind : Kind) (token newPassword : String)
  | next (i : Nat)
  | fail (i : Nat)

def Issue.over (issue : Issue) : Bool :=
  match issue.phase with
  | .returned _ => true
  | .failed => true
  | .begun => false
  | .superseding _ _ => false
  | .superseded _ _ => false
  | .inserted _ _ => false

def Consumption.over (call : Consumption) : Bool :=
  match call.phase with
  | .returned _ => true
  | .refused _ => true
  | .failed => true
  | .begun => false
  | .consumed _ => false
  | .passwordSet _ => false

/-- What an action does, where it can be done. -/
def execute (d : Deployment) (s : Store) : Action → Option Store
  | .tick ms => some { s with now := s.now + ms }
  | .issue kind userId token =>
    some { s with issues := s.issues ++ [⟨kind, userId, token, s.now + kind.ttl, .begun⟩] }
  | .nextIssue j => (s.issues[j]?).bind (s.nextIssue d j)
  | .failIssue j => ((s.issues[j]?).filter (!·.over)).map (s.setIssue j · .failed)
  | .consume kind token newPassword =>
    some { s with consumptions := s.consumptions ++
      [⟨kind, token, newPassword, s.now, .begun, none, none⟩] }
  | .next i => (s.consumptions[i]?).bind (s.next d i)
  | .fail i => ((s.consumptions[i]?).filter (!·.over)).map fun call =>
      s.set i { call with phase := .failed }

/-- What cannot be done is not done. -/
def step (d : Deployment) (s : Store) (a : Action) : Option Store := some ((execute d s a).getD s)

/-! ### What should hold -/

/-- An older token of the user does not work. -/
def Outdated (now : Int) (older newer : Token) : Prop :=
  older.kind = newer.kind → older.userId = newer.userId → older.usable now = false

/-- Two calls have not consumed one token. -/
def Apart (call other : Consumption) : Prop := ∀ position ∈ call.spent, position ∉ other.spent

/-- A reset has returned for the user. -/
def Consumption.hasReset (call : Consumption) (userId : Nat) : Prop :=
  call.kind = .passwordReset ∧ call.phase = .returned userId

/-- **One link of a kind works for a user, the one that was issued last; each works once; and a
reset is done as a whole.** -/
structure TokensHold (d : Deployment) (s : Store) : Prop where
  newest : s.tokens.Pairwise (Outdated s.now)
  once : s.consumptions.Pairwise Apart
  /-- A call that fails has consumed nothing. -/
  whole : ∀ call ∈ s.consumptions, call.phase = .failed → call.spent = none
  /-- Where one returns, a password was set that was asked for, -/
  changed : ∀ call ∈ s.consumptions, ∀ userId, call.hasReset userId →
    ∃ other ∈ s.consumptions, other.changed = some userId ∧
      s.passwords userId = some (d.argon2 other.newPassword)
  /-- and no session is left. -/
  signedOut : ∀ call ∈ s.consumptions, ∀ userId, call.hasReset userId →
    ∀ session ∈ s.sessions, session.userId = userId → session.revokedAt.isSome = true

/-- A reset has consumed its token, and has more to do. -/
def Consumption.unfinished (call : Consumption) : Bool :=
  match call.phase with
  | .consumed _ => true
  | .passwordSet _ => true
  | .begun => false
  | .returned _ => false
  | .refused _ => false
  | .failed => false

/-- **A step keeps this.**  No token of the user that was issued since the update began works when
its transaction commits, and no reset fails between its consumption and its end. -/
def Kept (s : Store) : Action → Prop
  | .nextIssue j => ∀ issue ∈ s.issues[j]?, ∀ seen ∈ issue.committing,
      ∀ row ∈ s.tokens.drop seen, row.kind = issue.kind → row.userId = issue.userId →
        row.usable s.now = false
  | .fail i => ∀ call ∈ s.consumptions[i]?, call.unfinished = false
  | _ => True

instance (s : Store) : (a : Action) → Decidable (Kept s a)
  | .nextIssue j => inferInstanceAs (Decidable (∀ issue ∈ s.issues[j]?, ∀ seen ∈ issue.committing,
      ∀ row ∈ s.tokens.drop seen, row.kind = issue.kind → row.userId = issue.userId →
        row.usable s.now = false))
  | .fail i => inferInstanceAs (Decidable (∀ call ∈ s.consumptions[i]?, call.unfinished = false))
  | .tick _ => isTrue trivial
  | .issue _ _ _ => isTrue trivial
  | .failIssue _ => isTrue trivial
  | .consume _ _ _ => isTrue trivial
  | .next _ => isTrue trivial

/-- No call is open, and older tokens do not work. -/
structure Initial (start : Store) : Prop where
  issues : start.issues = []
  consumptions : start.consumptions = []
  newest : start.tokens.Pairwise (Outdated start.now)

end SnapUrl.Auth.MailTokens
