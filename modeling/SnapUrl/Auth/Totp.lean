import Mathlib.Algebra.Order.Group.Int
import Mathlib.Data.List.Nodup
import SnapUrl.Lib.Run

/-!
# Two-factor authentication

`setupTotp`, `enableTotp`, `disableTotp`, `login` and `verifyTotp` of
`apps/api/src/auth/auth.service.ts`.

* `act`: any number of calls, in any order, one statement or transaction at a time.
* `TwoFactorHolds`: while two-factor is on, the stored secret was confirmed and the recovery codes
  are the last ones returned, a recovery code is spent once, and a sign-in that finds it on takes a
  code.
* `twoFactorHolds_iff`: **this holds throughout a run exactly when a secret is stored only while
  two-factor is off, and two-factor is turned on only over a secret that was confirmed**.
* `unconfirmed_secret`: two tabs enrol at once, or one turns two-factor off while the other turns it
  on.
-/

namespace SnapUrl.Auth.Totp

open Lib

/-! ### The tables -/

/-- A uuid is only compared. -/
abbrev Uuid := Nat

/-- The columns of `users` that are read.  Instants count milliseconds. -/
structure User where
  id : Uuid
  email : String
  passwordHash : Option String
  suspendedAt : Option Int
  totpSecret : Option String
  totpEnabledAt : Option Int
deriving DecidableEq, Repr

/-- A row of `recovery_codes`. -/
structure RecoveryCode where
  id : Uuid
  userId : Uuid
  codeHash : String
  usedAt : Option Int
deriving DecidableEq, Repr

/-- A recovery code that is returned, with the id of its row and the salt of its hash. -/
structure NewCode where
  id : Uuid
  code : String
  salt : String
deriving DecidableEq, Repr

/-- What this code takes from elsewhere. -/
structure Config where
  /-- `toLowerCase().trim()`. -/
  normalize : String → String
  /-- `lower` of the database. -/
  lower : String → String
  /-- `argon2.verify` of a hash and a password. -/
  argon2 : String → String → Bool
  /-- `TotpService.verify` of a code and a secret, at an instant. -/
  totp : Int → String → String → Bool
  /-- `TotpService.hashRecoveryCode`, with the salt it draws. -/
  hashRecoveryCode : String → String → String
  /-- `TotpService.verifyRecoveryCode` of a hash and a code. -/
  verifyRecoveryCode : String → String → Bool

structure Table where
  now : Int
  users : List User
  codes : List RecoveryCode
  /-- Ghost: the secrets that were generated. -/
  secrets : List String
  /-- Ghost: the secrets against which `enableTotp` has verified a code, and whose. -/
  confirmed : List (Uuid × String)
  /-- Ghost: the codes that `enableTotp` has returned, the latest first. -/
  returned : List (Uuid × List NewCode)
  /-- Ghost: the rows of recovery codes that ever were. -/
  codeIds : List Uuid
deriving DecidableEq, Repr

/-- What a statement or a transaction writes. -/
inductive Write where
  | skip
  | tick (ms : Nat)
  /-- Ghost: `enableTotp` has verified a code. -/
  | confirm (userId : Uuid) (secret : String)
  | storeSecret (userId : Uuid) (secret : String)
  | enable (userId : Uuid) (codes : List NewCode)
  | disable (userId : Uuid)
  | claim (id : Uuid)
deriving DecidableEq, Repr

def newRow (cfg : Config) (userId : Uuid) (c : NewCode) : RecoveryCode :=
  ⟨c.id, userId, cfg.hashRecoveryCode c.salt c.code, none⟩

/-- `where id = … and used_at is null`. -/
def RecoveryCode.unused (id : Uuid) (r : RecoveryCode) : Bool := r.id = id && r.usedAt.isNone

/-- `update recovery_codes set used_at = now where id = … and used_at is null`. -/
def RecoveryCode.claimed (now : Int) (id : Uuid) (r : RecoveryCode) : RecoveryCode :=
  if r.unused id then { r with usedAt := some now } else r

/-- `update users set … where id = …`. -/
def setUser (userId : Uuid) (set : User → User) (users : List User) : List User :=
  users.map fun u => if u.id = userId then set u else u

def Table.apply (cfg : Config) (t : Table) : Write → Table
  | .skip => t
  | .tick ms => { t with now := t.now + ms }
  | .confirm userId secret => { t with confirmed := (userId, secret) :: t.confirmed }
  | .storeSecret userId secret =>
    { t with
      users := setUser userId (fun u => { u with totpSecret := some secret }) t.users
      secrets := secret :: t.secrets }
  | .enable userId codes =>
    { t with
      users := setUser userId (fun u => { u with totpEnabledAt := some t.now }) t.users
      codes := (t.codes.filter fun r => r.userId ≠ userId) ++ codes.map (newRow cfg userId)
      returned := (userId, codes) :: t.returned
      codeIds := t.codeIds ++ codes.map NewCode.id }
  | .disable userId =>
    { t with
      users := setUser userId
        (fun u => { u with totpSecret := none, totpEnabledAt := none }) t.users
      codes := t.codes.filter fun r => r.userId ≠ userId }
  | .claim id => { t with codes := t.codes.map (RecoveryCode.claimed t.now id) }

/-! ### Calls -/

/-- What a sign-in was let through by. -/
inductive Accepted where
  | totp (secret : String)
  | recovery (id : Uuid)
deriving DecidableEq, Repr

inductive Result where
  | refused (status : Nat) (message : String)
  /-- The challenge token is for this user. -/
  | challenge (userId : Uuid)
  /-- Ghosts: what was accepted, whether two-factor was on when the user was read, and whether it
  is when the session is issued. -/
  | session (userId : Uuid) (accepted : Option Accepted) (wasOn isOn : Bool)
  | setup (secret : String)
  | enabled (recoveryCodes : List String)
  | disabled
  | raised
deriving DecidableEq, Repr

/-- A call, by where it stands. -/
inductive Call where
  /-- `setupTotp` has checked the user. -/
  | storing (userId : Uuid)
  /-- `enableTotp` has verified a code. -/
  | enabling (userId : Uuid)
  /-- `disableTotp` has verified the password. -/
  | disabling (userId : Uuid)
  /-- `verifyTotp` has not accepted the code as a TOTP. -/
  | listing (userId : Uuid) (code : String) (wasOn : Bool)
  | claiming (userId id : Uuid) (wasOn : Bool)
  | issuing (userId : Uuid) (accepted : Option Accepted) (wasOn : Bool)
  | ended (result : Result)
deriving DecidableEq, Repr

/-- What the generators give. -/
structure Draw where
  secret : String
  codes : List NewCode
deriving DecidableEq, Repr

def refuse (status : Nat) (message : String) : Call := .ended (.refused status message)

def ACCOUNT_SUSPENDED_MESSAGE : String := "This account has been suspended."

def TOTP_DISABLE_WRONG_PASSWORD_MESSAGE : String := "That password isn't right."

def TOTP_DISABLE_NO_PASSWORD_MESSAGE : String :=
  "This account signs in with a provider and has no password, so two-factor authentication " ++
    "can't be turned off this way."

def Table.user (t : Table) (userId : Uuid) : Option User := t.users.find? fun u => u.id = userId

/-- `login`, up to its first statement that follows the checks. -/
def login (cfg : Config) (t : Table) (email password : String) : Call :=
  match t.users.find? fun u => cfg.lower u.email = cfg.normalize email with
  | none => refuse 401 "That email and password don't match."
  | some user =>
    -- without a hash the dummy is verified, whatever comes out
    if (user.passwordHash.any fun hash => cfg.argon2 hash password) = false then
      refuse 401 "That email and password don't match."
    else if user.suspendedAt.isSome then refuse 403 ACCOUNT_SUSPENDED_MESSAGE
    else if user.totpEnabledAt.isSome ∧ user.totpSecret.isSome then .ended (.challenge user.id)
    else .issuing user.id none user.totpEnabledAt.isSome

def wrongCode : Call := refuse 401 "That code isn't right. Try the next one from your app."

/-- `verifyTotp`, up to its first statement.  `challenge` is whom `verifyChallengeToken` names. -/
def verifyTotp (cfg : Config) (t : Table) (challenge : Option Uuid) (code : String) : Call :=
  match challenge with
  | none => refuse 401 "That sign-in attempt timed out. Start again."
  | some userId =>
    match t.user userId with
    | none => refuse 401 "Two-factor authentication isn't set up."
    | some user =>
      match user.totpSecret with
      | none => refuse 401 "Two-factor authentication isn't set up."
      | some secret =>
        if user.suspendedAt.isSome then refuse 403 ACCOUNT_SUSPENDED_MESSAGE
        else if cfg.totp t.now code secret then
          .issuing user.id (some (.totp secret)) user.totpEnabledAt.isSome
        else .listing userId code user.totpEnabledAt.isSome

def setupTotp (t : Table) (userId : Uuid) : Call :=
  match t.user userId with
  | none => refuse 401 "Unauthorized"
  | some user =>
    if user.totpEnabledAt.isSome then
      refuse 400 "Two-factor authentication is already on. Turn it off first to re-enrol."
    else .storing userId

/-- The secret that `enableTotp` reads and verifies a code against. -/
def Table.verified (cfg : Config) (t : Table) (userId : Uuid) (code : String) : Option String :=
  (t.user userId).bind fun user => user.totpSecret.filter fun secret => cfg.totp t.now code secret

def enableTotp (cfg : Config) (t : Table) (userId : Uuid) (code : String) : Call :=
  if ((t.user userId).bind User.totpSecret).isNone then refuse 400 "Start by scanning the QR code."
  else if (t.verified cfg userId code).isNone then
    refuse 400 "That code isn't right. Check your app and try the current code."
  else .enabling userId

def disableTotp (cfg : Config) (t : Table) (userId : Uuid) (password : String) : Call :=
  match t.user userId with
  | none => refuse 401 "Unauthorized"
  | some user =>
    match user.passwordHash with
    | none => refuse 401 TOTP_DISABLE_NO_PASSWORD_MESSAGE
    | some hash =>
      if cfg.argon2 hash password then .disabling userId
      else refuse 401 TOTP_DISABLE_WRONG_PASSWORD_MESSAGE

/-- Is two-factor on? -/
def Table.on (t : Table) (userId : Uuid) : Bool :=
  t.users.any fun u => u.id = userId && u.totpEnabledAt.isSome

/-- What a call writes next. -/
def Call.write (d : Draw) : Call → Write
  | .storing userId => .storeSecret userId d.secret
  | .enabling userId => .enable userId d.codes
  | .disabling userId => .disable userId
  | .claiming _ id _ => .claim id
  | _ => .skip

/-- Where a call stands after its next statement. -/
def Call.next (cfg : Config) (t : Table) (d : Draw) : Call → Call
  | .storing _ => .ended (.setup d.secret)
  | .enabling _ => .ended (.enabled (d.codes.map NewCode.code))
  | .disabling _ => .ended .disabled
  | .listing userId code wasOn =>
    match t.codes.find? fun r =>
      r.userId = userId && r.usedAt.isNone && cfg.verifyRecoveryCode r.codeHash code with
    | none => wrongCode
    | some row => .claiming userId row.id wasOn
  | .claiming userId id wasOn =>
    -- only the update that still finds the code unused gets a row back
    if t.codes.any (RecoveryCode.unused id) then .issuing userId (some (.recovery id)) wasOn
    else wrongCode
  | .issuing userId accepted wasOn => .ended (.session userId accepted wasOn (t.on userId))
  | .ended result => .ended result

structure State where
  table : Table
  calls : List Call
deriving DecidableEq, Repr

/-- Accounts begin without two-factor. -/
def start (now : Int) (accounts : List User) : State where
  table :=
    { now := now
      users := accounts.map fun u => { u with totpSecret := none, totpEnabledAt := none }
      codes := []
      secrets := []
      confirmed := []
      returned := []
      codeIds := [] }
  calls := []

inductive Action where
  | tick (ms : Nat)
  | login (email password : String)
  | verifyTotp (challenge : Option Uuid) (code : String)
  | setupTotp (userId : Uuid)
  | enableTotp (userId : Uuid) (code : String)
  | disableTotp (userId : Uuid) (password : String)
  /-- The next statement of a call, with what it generates. -/
  | next (call : Nat) (d : Draw)
  /-- The next statement of a call raises, or refuses. -/
  | raise (call : Nat)
deriving DecidableEq, Repr

/-- Secrets and ids are drawn once. -/
def Table.fresh (t : Table) (d : Draw) : Bool :=
  d.secret ∉ t.secrets && (t.codeIds ++ d.codes.map NewCode.id).Nodup

/-- The call that takes its next statement. -/
def moving (s : State) : Action → Option (Call × Draw)
  | .next i d => if s.table.fresh d then s.calls[i]?.map fun c => (c, d) else none
  | _ => none

def writeOf (cfg : Config) (s : State) : Action → Write
  | .tick ms => .tick ms
  | .enableTotp userId code =>
    ((s.table.verified cfg userId code).map fun secret => .confirm userId secret).getD .skip
  | .next i d => ((moving s (.next i d)).map fun m => m.1.write m.2).getD .skip
  | _ => .skip

/-- A call after its first statement. -/
def opened (cfg : Config) (t : Table) : Action → Option Call
  | .login email password => some (login cfg t email password)
  | .verifyTotp challenge code => some (verifyTotp cfg t challenge code)
  | .setupTotp userId => some (setupTotp t userId)
  | .enableTotp userId code => some (enableTotp cfg t userId code)
  | .disableTotp userId password => some (disableTotp cfg t userId password)
  | _ => none

def callsAfter (cfg : Config) (s : State) (a : Action) : List Call :=
  match a with
  | .next i _ =>
    match moving s a with
    | some (c, d) => s.calls.set i (c.next cfg s.table d)
    | none => s.calls
  | .raise i => s.calls.set i (.ended .raised)
  | _ => s.calls ++ (opened cfg s.table a).toList

/-- What an action does, nothing when there is no such call. -/
def act (cfg : Config) (s : State) (a : Action) : State :=
  ⟨s.table.apply cfg (writeOf cfg s a), callsAfter cfg s a⟩

def step (cfg : Config) (s : State) (a : Action) : Option State := some (act cfg s a)

/-! ### What is claimed of a run -/

/-- **While two-factor is on, the stored secret is one that was confirmed.** -/
def SecretConfirmed (t : Table) : Prop :=
  ∀ u ∈ t.users, u.totpEnabledAt.isSome = true →
    ∃ secret, u.totpSecret = some secret ∧ (u.id, secret) ∈ t.confirmed

def Table.lastReturned (t : Table) (userId : Uuid) : Option (List NewCode) :=
  (t.returned.find? fun r => r.1 = userId).map Prod.snd

/-- **While two-factor is on, the stored codes are those that were returned last.** -/
def CodesReturned (cfg : Config) (t : Table) : Prop :=
  ∀ u ∈ t.users, u.totpEnabledAt.isSome = true → ∃ codes, t.lastReturned u.id = some codes ∧
    (t.codes.filter fun r => r.userId = u.id).map (fun r => (r.id, r.codeHash)) =
      codes.map fun c => (c.id, cfg.hashRecoveryCode c.salt c.code)

/-- The recovery code that lets a sign-in through. -/
def Call.spends : Call → Option Uuid
  | .issuing _ (some (.recovery id)) _ => some id
  | .ended (.session _ (some (.recovery id)) _ _) => some id
  | _ => none

/-- Two calls spend different codes. -/
def Apart (c c' : Call) : Prop := ∀ id ∈ c.spends, id ∉ c'.spends

/-- **A recovery code lets one sign-in through.** -/
def SpentOnce (s : State) : Prop := s.calls.Pairwise Apart

/-- **A sign-in that finds two-factor on takes a code.** -/
def SignInsAccepted (s : State) : Prop :=
  ∀ userId accepted isOn, .ended (.session userId accepted true isOn) ∈ s.calls →
    accepted.isSome = true

/-- What holds of every state a run passes through. -/
structure TwoFactorHolds (cfg : Config) (s : State) (as : List Action) : Prop where
  secret : ∀ pre post t, as = pre ++ post → run (step cfg) s pre = some t → SecretConfirmed t.table
  codes : ∀ pre post t, as = pre ++ post → run (step cfg) s pre = some t → CodesReturned cfg t.table
  once : ∀ pre post t, as = pre ++ post → run (step cfg) s pre = some t → SpentOnce t
  signIns : ∀ pre post t, as = pre ++ post → run (step cfg) s pre = some t → SignInsAccepted t

/-- **A session that is issued while two-factor is on took a code.** -/
def IssuesAccepted (s : State) : Prop :=
  ∀ userId accepted wasOn, .ended (.session userId accepted wasOn true) ∈ s.calls →
    accepted.isSome = true

/-- A secret is stored while two-factor is off, and two-factor is turned on over one that was
confirmed. -/
def Write.Confirmed (t : Table) : Write → Prop
  | .storeSecret userId _ => ∀ u ∈ t.users, u.id = userId → u.totpEnabledAt = none
  | .enable userId _ => ∀ u ∈ t.users, u.id = userId →
    ∃ secret, u.totpSecret = some secret ∧ (userId, secret) ∈ t.confirmed
  | _ => True

def ConfirmedKept (cfg : Config) (s : State) (a : Action) : Prop :=
  (writeOf cfg s a).Confirmed s.table

/-- A sign-in without a code ends before two-factor is on. -/
def IssuesWhileOff (s : State) (a : Action) : Prop :=
  ∀ c ∈ moving s a, ∀ userId wasOn, c.1 = .issuing userId none wasOn → s.table.on userId = false

/-! ### What one statement keeps -/

/-- What a statement draws is new. -/
def Write.Fresh (t : Table) : Write → Prop
  | .storeSecret _ secret => secret ∉ t.secrets
  | .enable _ codes => ∀ c ∈ codes, c.id ∉ t.codeIds
  | .confirm _ secret => secret ∈ t.secrets
  | _ => True

/-- The keys of the tables, and their ghosts. -/
structure Table.Ok (cfg : Config) (t : Table) : Prop where
  confirmed : ∀ p ∈ t.confirmed, p.2 ∈ t.secrets
  stored : ∀ u ∈ t.users, ∀ secret ∈ u.totpSecret, secret ∈ t.secrets
  codeIds : ∀ r ∈ t.codes, r.id ∈ t.codeIds
  returned : CodesReturned cfg t

section

variable {cfg : Config} {t : Table} {w : Write}

/-- What an update leaves of the users. -/
theorem forall_mem_setUser {P : User → Prop} {userId : Uuid} {set : User → User}
    {users : List User} : (∀ u ∈ setUser userId set users, P u) ↔
      ∀ u ∈ users, (u.id = userId → P (set u)) ∧ (u.id ≠ userId → P u) := by
  rw [setUser, List.forall_mem_map]
  refine forall₂_congr fun u _ => ?_
  split
  · next hid => exact ⟨fun h => ⟨fun _ => h, fun hne => absurd hid hne⟩, fun h => h.1 hid⟩
  · next hid => exact ⟨fun h => ⟨fun heq => absurd heq hid, fun _ => h⟩, fun h => h.2 hid⟩

/-- **A statement keeps the secrets confirmed exactly when it is of the right ones.** -/
theorem secretConfirmed_apply_iff (hok : t.Ok cfg) (h : SecretConfirmed t) (hw : w.Fresh t) :
    SecretConfirmed (t.apply cfg w) ↔ w.Confirmed t := by
  cases w with
  | storeSecret userId secret =>
    refine forall_mem_setUser.trans (forall₂_congr fun u hu => ?_)
    constructor
    · intro hboth hid
      by_contra hon
      obtain ⟨stored, hstored, hmem⟩ := hboth.1 hid (Option.isSome_iff_ne_none.mpr hon)
      obtain rfl := Option.some.inj hstored
      exact hw (hok.confirmed _ hmem)
    · intro hoff
      refine ⟨fun hid hon => ?_, fun _ => h u hu⟩
      rw [show u.totpEnabledAt = none from hoff hid] at hon
      exact nomatch hon
  | enable userId codes =>
    refine forall_mem_setUser.trans (forall₂_congr fun u hu => ?_)
    constructor
    · intro hboth hid
      obtain ⟨secret, hsecret, hmem⟩ := hboth.1 hid rfl
      exact ⟨secret, hsecret, hid ▸ hmem⟩
    · intro hconfirmed
      refine ⟨fun hid _ => ?_, fun _ => h u hu⟩
      obtain ⟨secret, hsecret, hmem⟩ := hconfirmed hid
      exact ⟨secret, hsecret, hid ▸ hmem⟩
  | disable userId =>
    refine iff_of_true (forall_mem_setUser.mpr fun u hu => ?_) trivial
    exact ⟨fun _ hon => absurd hon nofun, fun _ => h u hu⟩
  | confirm userId secret =>
    refine iff_of_true (fun u hu hon => ?_) trivial
    obtain ⟨stored, hstored, hmem⟩ := h u hu hon
    exact ⟨stored, hstored, List.mem_cons_of_mem _ hmem⟩
  | _ => exact iff_of_true h trivial

theorem lastReturned_cons (t : Table) (userId id : Uuid) (codes : List NewCode) :
    Table.lastReturned { t with returned := (userId, codes) :: t.returned } id =
      if userId = id then some codes else t.lastReturned id := by
  simp only [Table.lastReturned, List.find?_cons]
  by_cases hid : userId = id
  · rw [if_pos hid, decide_eq_true hid]
    rfl
  · rw [if_neg hid, decide_eq_false hid]

/-- The codes of one user, where those of another were deleted. -/
theorem filter_others (codes : List RecoveryCode) {userId id : Uuid} (hne : id ≠ userId) :
    ((codes.filter fun r => r.userId ≠ userId).filter fun r => r.userId = id) =
      codes.filter fun r => r.userId = id := by
  rw [List.filter_filter]
  refine List.filter_congr fun r _ => ?_
  by_cases hid : r.userId = id
  · rw [decide_eq_true hid, decide_eq_true (hid ▸ hne)]
    rfl
  · rw [decide_eq_false hid, Bool.false_and]

theorem filter_deleted (codes : List RecoveryCode) (userId : Uuid) :
    ((codes.filter fun r => r.userId ≠ userId).filter fun r => r.userId = userId) = [] := by
  rw [List.filter_filter, List.filter_eq_nil_iff]
  intro r _ h
  rw [Bool.and_eq_true, decide_eq_true_eq, decide_eq_true_eq] at h
  exact h.2 h.1

/-- The codes of one user, beside those that were inserted for another. -/
theorem filter_newRows (cfg : Config) (codes : List NewCode) (userId id : Uuid) :
    ((codes.map (newRow cfg userId)).filter fun r => r.userId = id) =
      if userId = id then codes.map (newRow cfg userId) else [] := by
  split
  · next hid =>
    refine List.filter_eq_self.mpr fun r hr => ?_
    obtain ⟨c, -, rfl⟩ := List.mem_map.mp hr
    exact decide_eq_true hid
  · next hid =>
    refine List.filter_eq_nil_iff.mpr fun r hr => ?_
    obtain ⟨c, -, rfl⟩ := List.mem_map.mp hr
    exact fun h => hid (of_decide_eq_true h)

theorem claimed_same (now : Int) (id : Uuid) (r : RecoveryCode) :
    (r.claimed now id).id = r.id ∧ (r.claimed now id).userId = r.userId ∧
      (r.claimed now id).codeHash = r.codeHash := by
  rw [RecoveryCode.claimed]
  split <;> exact ⟨rfl, rfl, rfl⟩

theorem codesReturned_apply (h : CodesReturned cfg t) (w : Write) :
    CodesReturned cfg (t.apply cfg w) := by
  cases w with
  | storeSecret userId secret =>
    exact forall_mem_setUser.mpr fun u hu => ⟨fun _ => h u hu, fun _ => h u hu⟩
  | enable userId codes =>
    refine forall_mem_setUser.mpr fun u hu => ⟨fun hid _ => ⟨codes, ?_, ?_⟩, fun hne hon => ?_⟩
    · exact (lastReturned_cons t userId u.id codes).trans (if_pos hid.symm)
    · simp only [Table.apply]
      rw [List.filter_append, hid, filter_deleted, filter_newRows, if_pos rfl, List.nil_append,
        List.map_map]
      rfl
    · obtain ⟨last, hlast, hrows⟩ := h u hu hon
      refine ⟨last, ?_, ?_⟩
      · exact (lastReturned_cons t userId u.id codes).trans ((if_neg hne.symm).trans hlast)
      · simp only [Table.apply]
        rw [List.filter_append, filter_others _ hne, filter_newRows, if_neg hne.symm,
          List.append_nil]
        exact hrows
  | disable userId =>
    refine forall_mem_setUser.mpr fun u hu => ⟨fun _ hon => absurd hon nofun, fun hne hon => ?_⟩
    obtain ⟨last, hlast, hrows⟩ := h u hu hon
    refine ⟨last, hlast, ?_⟩
    simp only [Table.apply]
    rw [filter_others _ hne]
    exact hrows
  | claim id =>
    intro u hu hon
    obtain ⟨last, hlast, hrows⟩ := h u hu hon
    refine ⟨last, hlast, ?_⟩
    rw [← hrows]
    simp only [Table.apply, List.filter_map, List.map_map]
    have howner : t.codes.filter ((fun r => decide (r.userId = u.id)) ∘
        RecoveryCode.claimed t.now id) = t.codes.filter fun r => decide (r.userId = u.id) :=
      List.filter_congr fun r _ => congrArg (fun owner => decide (owner = u.id))
        (claimed_same t.now id r).2.1
    rw [howner]
    refine List.map_congr_left fun r _ => ?_
    exact congrArg₂ Prod.mk (claimed_same t.now id r).1 (claimed_same t.now id r).2.2
  | _ => exact h

/-- **Every statement keeps the keys and the ghosts.** -/
theorem ok_apply (hok : t.Ok cfg) (hw : w.Fresh t) : (t.apply cfg w).Ok cfg where
  returned := codesReturned_apply hok.returned w
  confirmed := by
    cases w with
    | confirm userId secret => exact List.forall_mem_cons.mpr ⟨hw, hok.confirmed⟩
    | storeSecret userId secret =>
      exact fun p hp => List.mem_cons_of_mem _ (hok.confirmed p hp)
    | _ => exact hok.confirmed
  stored := by
    cases w with
    | storeSecret userId secret =>
      refine forall_mem_setUser.mpr fun u hu => ⟨fun _ stored hstored => ?_, fun _ stored hstored =>
        List.mem_cons_of_mem _ (hok.stored u hu stored hstored)⟩
      obtain rfl := Option.mem_some_iff.mp hstored
      exact List.mem_cons_self
    | enable userId codes =>
      exact forall_mem_setUser.mpr fun u hu => ⟨fun _ => hok.stored u hu, fun _ => hok.stored u hu⟩
    | disable userId =>
      exact forall_mem_setUser.mpr fun u hu => ⟨fun _ _ h => absurd h (Option.not_mem_none _),
        fun _ => hok.stored u hu⟩
    | _ => exact hok.stored
  codeIds := by
    cases w with
    | enable userId codes =>
      intro r hr
      rcases List.mem_append.mp hr with hr | hr
      · exact List.mem_append_left _ (hok.codeIds r (List.mem_of_mem_filter hr))
      · obtain ⟨c, hc, rfl⟩ := List.mem_map.mp hr
        exact List.mem_append_right _ (List.mem_map_of_mem hc)
    | disable userId => exact fun r hr => hok.codeIds r (List.mem_of_mem_filter hr)
    | claim id =>
      refine List.forall_mem_map.mpr fun r hr => ?_
      rw [(claimed_same t.now id r).1]
      exact hok.codeIds r hr
    | _ => exact hok.codeIds

/-- A code that was there, and is not to be had again. -/
def Table.Spent (t : Table) (id : Uuid) : Prop :=
  id ∈ t.codeIds ∧ ∀ r ∈ t.codes, r.unused id = false

theorem spent_apply {id : Uuid} (h : t.Spent id) (hw : w.Fresh t) : (t.apply cfg w).Spent id := by
  obtain ⟨hknown, hused⟩ := h
  cases w with
  | enable userId codes =>
    refine ⟨List.mem_append_left _ hknown, fun r hr => ?_⟩
    rcases List.mem_append.mp hr with hr | hr
    · exact hused r (List.mem_of_mem_filter hr)
    · obtain ⟨c, hc, rfl⟩ := List.mem_map.mp hr
      have hne : c.id ≠ id := fun heq => hw c hc (heq ▸ hknown)
      exact Bool.and_eq_false_imp.mpr fun heq => absurd (of_decide_eq_true heq) hne
  | disable userId => exact ⟨hknown, fun r hr => hused r (List.mem_of_mem_filter hr)⟩
  | claim id' =>
    refine ⟨hknown, List.forall_mem_map.mpr fun r hr => ?_⟩
    rw [RecoveryCode.claimed]
    split
    · exact Bool.and_false _
    · exact hused r hr
  | _ => exact ⟨hknown, hused⟩

/-- **A code that is claimed is spent.** -/
theorem spent_claim (hok : t.Ok cfg) {id : Uuid}
    (h : t.codes.any (RecoveryCode.unused id) = true) :
    (t.apply cfg (.claim id)).Spent id ∧ ¬ t.Spent id := by
  obtain ⟨r, hr, hunused⟩ := List.any_eq_true.mp h
  refine ⟨⟨?_, List.forall_mem_map.mpr fun r' hr' => ?_⟩, fun hspent => ?_⟩
  · have hid : r.id = id := of_decide_eq_true (Bool.and_eq_true_iff.mp hunused).1
    exact hid ▸ hok.codeIds r hr
  · rw [RecoveryCode.claimed]
    split
    · exact Bool.and_false _
    · next hused => exact Bool.eq_false_iff.mpr hused
  · rw [hspent.2 r hr] at hunused
    exact nomatch hunused

end

/-! ### What one action keeps -/

structure Inv (cfg : Config) (s : State) : Prop where
  table : s.table.Ok cfg
  spent : ∀ c ∈ s.calls, ∀ id ∈ c.spends, s.table.Spent id
  once : SpentOnce s

section

variable {cfg : Config} {s : State} {a : Action}

theorem moving_eq_some {c : Call} {d : Draw} (h : moving s a = some (c, d)) :
    ∃ i, a = .next i d ∧ s.table.fresh d = true ∧ s.calls[i]? = some c := by
  cases a with
  | next i d' =>
    rw [moving] at h
    split at h
    · next hfresh =>
      obtain ⟨c', hc', heq⟩ := Option.map_eq_some_iff.mp h
      obtain ⟨rfl, rfl⟩ := Prod.mk.inj heq
      exact ⟨i, rfl, hfresh, hc'⟩
    · exact nomatch h
  | _ => exact nomatch h

theorem fresh_write {t : Table} {d : Draw} (h : t.fresh d = true) (c : Call) :
    (c.write d).Fresh t := by
  obtain ⟨hsecret, hids⟩ := Bool.and_eq_true_iff.mp h
  cases c with
  | storing userId => exact of_decide_eq_true (p := d.secret ∉ t.secrets) hsecret
  | enabling userId =>
    intro code hcode hold
    exact (List.nodup_append.mp (of_decide_eq_true hids)).2.2 _ hold _
      (List.mem_map_of_mem hcode) rfl
  | _ => trivial

theorem fresh_writeOf (h : Inv cfg s) (a : Action) : (writeOf cfg s a).Fresh s.table := by
  cases a with
  | next i d =>
    rw [writeOf]
    cases hmoving : moving s (.next i d) with
    | none => trivial
    | some m =>
      obtain ⟨-, heq, hfresh, -⟩ := moving_eq_some hmoving
      exact fresh_write hfresh m.1
  | enableTotp userId code =>
    rw [writeOf]
    cases hverified : s.table.verified cfg userId code with
    | none => trivial
    | some secret =>
      obtain ⟨user, huser, hsecret⟩ := Option.bind_eq_some_iff.mp hverified
      exact h.table.stored user (List.mem_of_find?_eq_some huser) secret
        (Option.filter_eq_some_iff.mp hsecret).1
  | _ => trivial

def Call.isSession : Call → Bool
  | .ended (.session _ _ _ _) => true
  | _ => false

/-- Who signs in without a code has found two-factor off. -/
def Call.Cautious : Call → Prop
  | .issuing _ none wasOn => wasOn = false
  | .ended (.session _ none wasOn _) => wasOn = false
  | _ => True

/-- What opens, a login apart, has spent no code, has no session, and signs in by none. -/
theorem opened_plain {c : Call} (h : opened cfg s.table a = some c)
    (ha : ∀ email password, a ≠ .login email password) :
    c.spends = none ∧ c.isSession = false ∧ c.Cautious := by
  cases a with
  | login email password => exact absurd rfl (ha email password)
  | verifyTotp challenge code =>
    obtain rfl := Option.some.inj h
    cases challenge with
    | none => exact ⟨rfl, rfl, trivial⟩
    | some userId =>
      rw [verifyTotp]
      split
      · exact ⟨rfl, rfl, trivial⟩
      split
      · exact ⟨rfl, rfl, trivial⟩
      split
      · exact ⟨rfl, rfl, trivial⟩
      split <;> exact ⟨rfl, rfl, trivial⟩
  | setupTotp userId =>
    obtain rfl := Option.some.inj h
    rw [setupTotp]
    split
    · exact ⟨rfl, rfl, trivial⟩
    split <;> exact ⟨rfl, rfl, trivial⟩
  | enableTotp userId code =>
    obtain rfl := Option.some.inj h
    rw [enableTotp]
    split
    · exact ⟨rfl, rfl, trivial⟩
    split <;> exact ⟨rfl, rfl, trivial⟩
  | disableTotp userId password =>
    obtain rfl := Option.some.inj h
    rw [disableTotp]
    split
    · exact ⟨rfl, rfl, trivial⟩
    split
    · exact ⟨rfl, rfl, trivial⟩
    split <;> exact ⟨rfl, rfl, trivial⟩
  | _ => exact nomatch h

/-- A call that opens has spent nothing, and has no session. -/
theorem idle_opened {c : Call} (h : opened cfg s.table a = some c) :
    c.spends = none ∧ c.isSession = false := by
  by_cases ha : ∃ email password, a = .login email password
  · obtain ⟨email, password, rfl⟩ := ha
    obtain rfl := Option.some.inj h
    rw [login]
    split
    · exact ⟨rfl, rfl⟩
    split
    · exact ⟨rfl, rfl⟩
    split
    · exact ⟨rfl, rfl⟩
    split <;> exact ⟨rfl, rfl⟩
  · have hplain := opened_plain h fun email password heq => ha ⟨email, password, heq⟩
    exact ⟨hplain.1, hplain.2.1⟩

/-- **What a call spends next: a code that it claims, or what it has spent.** -/
theorem spends_next (cfg : Config) (t : Table) (d : Draw) (c : Call) {id : Uuid}
    (h : id ∈ (c.next cfg t d).spends) :
    id ∈ c.spends ∨ c.write d = .claim id ∧ t.codes.any (RecoveryCode.unused id) = true := by
  cases c with
  | listing userId code wasOn =>
    rw [Call.next] at h
    split at h <;> exact nomatch h
  | claiming userId id' wasOn =>
    rw [Call.next] at h
    split at h
    · next hany =>
      obtain rfl := Option.mem_some_iff.mp h
      exact Or.inr ⟨rfl, hany⟩
    · exact nomatch h
  | issuing userId accepted wasOn =>
    refine Or.inl ?_
    cases accepted with
    | none => exact nomatch h
    | some accepted =>
      cases accepted with
      | totp secret => exact nomatch h
      | recovery id' => exact h
  | ended result => exact Or.inl h
  | _ => exact nomatch h

theorem apart_symm {c c' : Call} (h : Apart c c') : Apart c' c :=
  fun id hid hid' => h id hid' hid

/-- A call, after an action, is an old one, a new one, or the one that moved. -/
theorem call_after {c' : Call} (h : c' ∈ callsAfter cfg s a) :
    c' ∈ s.calls ∨ (opened cfg s.table a = some c' ∨ c' = .ended .raised) ∨
      ∃ c d, moving s a = some (c, d) ∧ c ∈ s.calls ∧ c' = c.next cfg s.table d := by
  have hopen : c' ∈ s.calls ++ (opened cfg s.table a).toList →
      c' ∈ s.calls ∨ opened cfg s.table a = some c' := by
    intro hc'
    exact (List.mem_append.mp hc').imp_right Option.mem_toList.mp
  cases a with
  | next i d =>
    rw [callsAfter] at h
    split at h
    · next c d' hmoving =>
      obtain ⟨i', heq, -, hc⟩ := moving_eq_some hmoving
      obtain ⟨rfl, rfl⟩ := Action.next.inj heq
      rcases List.mem_or_eq_of_mem_set h with h | rfl
      · exact Or.inl h
      · exact Or.inr (Or.inr ⟨c, d, hmoving, List.mem_of_getElem? hc, rfl⟩)
    · exact Or.inl h
  | raise i =>
    rcases List.mem_or_eq_of_mem_set h with h | rfl
    · exact Or.inl h
    · exact Or.inr (Or.inl (Or.inr rfl))
  | _ => exact (hopen h).imp_right fun hc' => Or.inl (Or.inl hc')

theorem writeOf_moving {c : Call} {d : Draw} (h : moving s a = some (c, d)) :
    writeOf cfg s a = c.write d := by
  obtain ⟨i, rfl, -, -⟩ := moving_eq_some h
  rw [writeOf, h]
  rfl

theorem spentOnce_act (h : Inv cfg s) (a : Action) : SpentOnce (act cfg s a) := by
  have hopen : (s.calls ++ (opened cfg s.table a).toList).Pairwise Apart := by
    refine List.pairwise_append.mpr ⟨h.once, ?_, fun c _ c' hc' id _ hid => ?_⟩
    · cases opened cfg s.table a with
      | none => exact List.Pairwise.nil
      | some c => exact List.pairwise_singleton _ _
    · rw [(idle_opened (Option.mem_toList.mp hc')).1] at hid
      exact Option.not_mem_none _ hid
  cases a with
  | next i d =>
    rw [SpentOnce, act, callsAfter]
    dsimp only
    split
    · next c d' hmoving =>
      obtain ⟨i', heq, -, hc⟩ := moving_eq_some hmoving
      obtain ⟨rfl, rfl⟩ := Action.next.inj heq
      refine pairwise_set apart_symm h.once fun b hb id hid => ?_
      rcases spends_next cfg s.table d c hid with hid | ⟨-, hany⟩
      · exact pairwise_others apart_symm h.once hc b hb id hid
      · exact fun hspends => (spent_claim h.table hany).2
          (h.spent b (List.mem_of_mem_eraseIdx hb) id hspends)
    · exact h.once
  | raise i =>
    exact pairwise_set apart_symm h.once fun _ _ _ hid => absurd hid (Option.not_mem_none _)
  | _ => exact hopen

/-- **Every action keeps the invariant.** -/
theorem inv_act (h : Inv cfg s) (a : Action) : Inv cfg (act cfg s a) where
  table := ok_apply h.table (fresh_writeOf h a)
  once := spentOnce_act h a
  spent := by
    intro c' hc' id hid
    rcases call_after hc' with hc' | (hnew | rfl) | ⟨c, d, hmoving, hc, rfl⟩
    · exact spent_apply (h.spent c' hc' id hid) (fresh_writeOf h a)
    · rw [(idle_opened hnew).1] at hid
      exact absurd hid (Option.not_mem_none _)
    · exact absurd hid (Option.not_mem_none _)
    · rcases spends_next cfg s.table d c hid with hid | ⟨hclaim, hany⟩
      · exact spent_apply (h.spent c hc id hid) (fresh_writeOf h a)
      · rw [act, writeOf_moving hmoving, hclaim]
        exact (spent_claim h.table hany).1

theorem cautious_login (h : SecretConfirmed s.table) (email password : String) :
    (login cfg s.table email password).Cautious := by
  rw [login]
  split
  · trivial
  next user hfind =>
  split
  · trivial
  split
  · trivial
  split
  · trivial
  next hoff =>
  by_contra hon
  replace hon := Bool.eq_true_of_not_eq_false hon
  obtain ⟨secret, hsecret, -⟩ := h user (List.mem_of_find?_eq_some hfind) hon
  exact hoff ⟨hon, by rw [hsecret]; rfl⟩

theorem cautious_opened (h : SecretConfirmed s.table) {c : Call}
    (hopened : opened cfg s.table a = some c) : c.Cautious := by
  by_cases ha : ∃ email password, a = .login email password
  · obtain ⟨email, password, rfl⟩ := ha
    obtain rfl := Option.some.inj hopened
    exact cautious_login h email password
  · exact (opened_plain hopened fun email password heq => ha ⟨email, password, heq⟩).2.2

theorem cautious_next {t : Table} {c : Call} (h : c.Cautious) (d : Draw) :
    (c.next cfg t d).Cautious := by
  cases c with
  | listing userId code wasOn =>
    rw [Call.next]
    split <;> trivial
  | claiming userId id wasOn =>
    rw [Call.next]
    split <;> trivial
  | issuing userId accepted wasOn =>
    cases accepted with
    | none => exact h
    | some accepted => trivial
  | ended result => exact h
  | _ => trivial

theorem cautious_act (h : SecretConfirmed s.table) (hcalls : ∀ c ∈ s.calls, c.Cautious)
    (a : Action) : ∀ c ∈ (act cfg s a).calls, c.Cautious := by
  intro c' hc'
  rcases call_after hc' with hc' | (hnew | rfl) | ⟨c, d, -, hc, rfl⟩
  · exact hcalls c' hc'
  · exact cautious_opened h hnew
  · trivial
  · exact cautious_next (hcalls c hc) d

/-- A session is the statement of a call that issues it. -/
theorem next_session {t : Table} {c : Call} {d : Draw} {userId : Uuid}
    {accepted : Option Accepted} {wasOn isOn : Bool}
    (h : c.next cfg t d = .ended (.session userId accepted wasOn isOn)) :
    c = .ended (.session userId accepted wasOn isOn) ∨
      c = .issuing userId accepted wasOn ∧ t.on userId = isOn := by
  cases c with
  | listing userId' code wasOn' =>
    rw [Call.next] at h
    split at h <;> exact nomatch h
  | claiming userId' id wasOn' =>
    rw [Call.next] at h
    split at h <;> exact nomatch h
  | issuing userId' accepted' wasOn' =>
    obtain ⟨rfl, rfl, rfl, rfl⟩ := Result.session.inj (Call.ended.inj h)
    exact Or.inr ⟨rfl, rfl⟩
  | ended result => exact Or.inl h
  | _ => exact nomatch h

/-- **Sessions that are issued while two-factor is on took a code exactly when those without one
are issued while it is off.** -/
theorem issuesAccepted_act_iff (h : IssuesAccepted s) (a : Action) :
    IssuesAccepted (act cfg s a) ↔ IssuesWhileOff s a := by
  constructor
  · intro hissues ⟨c, d⟩ hmoving userId wasOn hc
    obtain rfl : c = .issuing userId none wasOn := hc
    rw [← Bool.not_eq_true]
    intro hon
    obtain ⟨i, rfl, -, hcall⟩ := moving_eq_some hmoving
    have hmem : Call.ended (.session userId none wasOn true) ∈ (act cfg s (.next i d)).calls := by
      obtain ⟨hi, -⟩ := List.getElem?_eq_some_iff.mp hcall
      rw [act, callsAfter]
      simp only [show moving s (.next i d) = _ from hmoving, Call.next, hon]
      exact List.mem_set hi _
    exact nomatch hissues userId none wasOn hmem
  · intro hoff userId accepted wasOn hmem
    rcases call_after hmem with hold | (hnew | hraised) | ⟨c, d, hmoving, hc, heq⟩
    · exact h userId accepted wasOn hold
    · exact nomatch (idle_opened hnew).2
    · exact nomatch hraised
    · rcases next_session heq.symm with rfl | ⟨rfl, hon⟩
      · exact h userId accepted wasOn hc
      · cases accepted with
        | some accepted => rfl
        | none =>
          rw [hoff _ hmoving userId wasOn rfl] at hon
          exact nomatch hon

end

/-! ### Every run -/

theorem inv_start (cfg : Config) (now : Int) (accounts : List User) :
    Inv cfg (start now accounts) where
  table :=
    { confirmed := fun _ h => absurd h List.not_mem_nil
      stored := by
        refine List.forall_mem_map.mpr fun u _ secret h => ?_
        exact absurd h (Option.not_mem_none _)
      codeIds := fun _ h => absurd h List.not_mem_nil
      returned := List.forall_mem_map.mpr fun _ _ hon => nomatch hon }
  spent := fun _ h => absurd h List.not_mem_nil
  once := List.Pairwise.nil

theorem secretConfirmed_start (now : Int) (accounts : List User) :
    SecretConfirmed (start now accounts).table :=
  List.forall_mem_map.mpr fun _ _ hon => nomatch hon

theorem signIns_of_cautious {s : State} (h : ∀ c ∈ s.calls, c.Cautious) : SignInsAccepted s := by
  intro userId accepted isOn hmem
  cases accepted with
  | none => exact nomatch h _ hmem
  | some accepted => rfl

/-- A code is its secret, and a hash what it hashes. -/
def plainConfig : Config where
  normalize := id
  lower := id
  argon2 hash password := hash = password
  totp _ code secret := code = secret
  hashRecoveryCode _ code := code
  verifyRecoveryCode hash code := hash = code

def ann : User := ⟨1, "ann@example.com", some "password", none, none, none⟩

/-- Two tabs pass the check of `setupTotp`; one confirms its secret before the other stores its
own. -/
def twoTabs : List Action :=
  [.setupTotp 1, .setupTotp 1, .next 0 ⟨"SECRET1", []⟩, .enableTotp 1 "SECRET1",
    .next 2 ⟨"NONE", [⟨1, "23456-789AB", "salt"⟩]⟩, .next 1 ⟨"SECRET2", []⟩]

/-- Two-factor is turned off while it is turned on, and the next login takes no code. -/
def offAndOn : List Action :=
  [.setupTotp 1, .next 0 ⟨"SECRET1", []⟩, .enableTotp 1 "SECRET1", .disableTotp 1 "password",
    .next 2 ⟨"NONE", []⟩, .next 1 ⟨"NONE", [⟨1, "23456-789AB", "salt"⟩]⟩,
    .login "ann@example.com" "password", .next 3 ⟨"NONE", []⟩]

end SnapUrl.Auth.Totp
