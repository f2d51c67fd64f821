import SnapUrl.Auth.SignIns

/-!
# Who is locked out

* `Sound`: what holds of sessions, of rows and of calls under any interleaving.
* `sessionsHold_iff`: **a reset, a sign-out and a suspension end every session of before exactly
  when no token is stored, and no refresh answers, on what was read before them**.
* `survivors`: a sign-in, a rotation and a challenge of before a reset, and a refresh of before a
  suspension.
-/

namespace SnapUrl.Auth.SignIns

open Lib
open RefreshTokens (Uuid Row Table Draw issueRefreshToken)

section

variable {d : Deployment} {s s' : Store} {i j k : Nat} {a : Action} {session : Session}

/-! ### Tokens that are live -/

theorem live_iff : s.live session = true ↔
    ∃ row ∈ s.tokens.rows, row.familyId = session.familyId ∧ row.live s.tokens.now := by
  simp [Store.live]

/-- What is live was live before, where every live token was. -/
theorem live_of_rows (h : ∀ row ∈ s'.tokens.rows, row.live s'.tokens.now →
      ∃ before ∈ s.tokens.rows, before.familyId = row.familyId ∧ before.live s.tokens.now)
    (hlive : s'.live session = true) : s.live session = true := by
  obtain ⟨row, hrow, hfamily, hrowLive⟩ := live_iff.mp hlive
  obtain ⟨before, hbefore, hsame, hbeforeLive⟩ := h row hrow hrowLive
  exact live_iff.mpr ⟨before, hbefore, hsame.trans hfamily, hbeforeLive⟩

/-- A statement that inserts nothing makes nothing live. -/
theorem live_of_apply {w : RefreshTokens.Write} (hw : ∀ row, w ≠ .insert row)
    (htokens : s'.tokens = s.tokens.apply w) (hlive : s'.live session = true) :
    s.live session = true := by
  refine live_of_rows (fun row hrow hrowLive => ?_) hlive
  rw [htokens] at hrow hrowLive
  obtain ⟨before, hbefore, -, hfamily, hbeforeLive⟩ := RefreshTokens.live_apply hw hrow hrowLive
  exact ⟨before, hbefore, hfamily, hbeforeLive⟩

theorem live_of_revokeIf {now at_ : Int} {p : Row → Bool} {row : Row}
    (h : (row.revokeIf at_ p).live now) : row.live now ∧ p row = false := by
  rw [Row.revokeIf] at h
  split at h
  · cases h.1
  · next hnot =>
    refine ⟨h, Bool.eq_false_iff.mpr fun hp => hnot ?_⟩
    rw [hp, h.1]
    rfl

theorem mem_revokeSeen {t : Table} {seen : Nat} {at_ : Int} {p : Row → Bool} {row : Row}
    (h : row ∈ (revokeSeen t seen at_ p).rows) :
    (∃ before ∈ t.rows, row = before.revokeIf at_ p) ∨ row ∈ t.rows.drop seen := by
  rcases List.mem_append.mp h with hseen | hlater
  · obtain ⟨before, hbefore, rfl⟩ := List.mem_map.mp hseen
    exact Or.inl ⟨before, List.mem_of_mem_take hbefore, rfl⟩
  · exact Or.inr hlater

/-- A token that is live after a revocation was live, and was not found or is another's. -/
theorem live_of_mem_revokeSeen {t : Table} {seen : Nat} {at_ now : Int} {p : Row → Bool} {row : Row}
    (h : row ∈ (revokeSeen t seen at_ p).rows) (hlive : row.live now) :
    row ∈ t.rows ∧ (p row = false ∨ row ∈ t.rows.drop seen) := by
  rcases mem_revokeSeen h with ⟨before, hbefore, rfl⟩ | hlater
  · obtain ⟨hbeforeLive, hp⟩ := live_of_revokeIf hlive
    have hsame : before.revokeIf at_ p = before := by
      rw [Row.revokeIf, hp]
      rfl
    rw [hsame]
    exact ⟨hbefore, Or.inl hp⟩
  · exact ⟨List.mem_of_mem_drop hlater, Or.inr hlater⟩

theorem live_of_revokeSeen {seen : Nat} {at_ : Int} {p : Row → Bool}
    (htokens : s'.tokens = revokeSeen s.tokens seen at_ p) (hlive : s'.live session = true) :
    s.live session = true := by
  refine live_of_rows (fun row hrow hrowLive => ?_) hlive
  rw [htokens] at hrow hrowLive
  exact ⟨row, (live_of_mem_revokeSeen hrow hrowLive).1, rfl, hrowLive⟩

/-! ### Users -/

theorem find_setUser {userId other : Uuid} {set : Totp.User → Totp.User} {users : List Totp.User}
    (hid : ∀ user, (set user).id = user.id) :
    (Totp.setUser userId set users).find? (fun user => user.id = other) =
      (users.find? fun user => user.id = other).map
        fun user => if user.id = userId then set user else user := by
  rw [Totp.setUser, List.find?_map]
  congr 2
  funext user
  rw [Function.comp_apply]
  split
  · rw [hid]
  · rfl

theorem user_setUser {userId other : Uuid} {set : Totp.User → Totp.User}
    (hid : ∀ user, (set user).id = user.id) :
    (s.setUser userId set).accounts.user other =
      (s.accounts.user other).map fun user => if user.id = userId then set user else user :=
  find_setUser hid

theorem isSome_user_setUser {userId other : Uuid} {set : Totp.User → Totp.User}
    (hid : ∀ user, (set user).id = user.id) :
    ((s.setUser userId set).accounts.user other).isSome = (s.accounts.user other).isSome := by
  rw [user_setUser hid, Option.isSome_map]

theorem id_of_user {userId : Uuid} {user : Totp.User} (h : s.accounts.user userId = some user) :
    user.id = userId := by
  have hfound := List.find?_some (p := fun u : Totp.User => decide (u.id = userId)) h
  exact of_decide_eq_true hfound

/-- Where the column is left alone, a user is suspended as before. -/
theorem suspended_setUser {userId other : Uuid} {set : Totp.User → Totp.User}
    (hid : ∀ user, (set user).id = user.id)
    (hsuspended : ∀ user, user.id = userId → user.id = other →
      (set user).suspendedAt = user.suspendedAt) :
    (s.setUser userId set).suspended other = s.suspended other := by
  rw [Store.suspended, Store.suspended, user_setUser hid]
  cases huser : s.accounts.user other with
  | none => rfl
  | some user =>
    rw [Option.map_some, Option.any_some, Option.any_some]
    split
    · next heq => rw [hsuspended user heq (id_of_user huser)]
    · rfl

/-- Another user is in good standing as before. -/
theorem standing_of_setUser {userId other : Uuid} {set : Totp.User → Totp.User}
    (h : (s.setUser userId set).suspended other = false) (hid : ∀ user, (set user).id = user.id)
    (hne : other ≠ userId) : s.suspended other = false :=
  (suspended_setUser hid fun _ heq hother => absurd (hother.symm.trans heq) hne).symm.trans h

theorem suspended_setUser_self {userId : Uuid} {set : Totp.User → Totp.User} {user : Totp.User}
    (hid : ∀ user, (set user).id = user.id) (hget : s.accounts.user userId = some user) :
    (s.setUser userId set).suspended userId = (set user).suspendedAt.isSome := by
  rw [Store.suspended, user_setUser hid, hget, Option.map_some, if_pos (id_of_user hget),
    Option.any_some]

theorem suspended_signUp {user : Totp.User} {userId : Uuid}
    (h : (s.signUp user).suspended userId = false) : s.suspended userId = false := by
  rw [Store.suspended, Store.signUp, Totp.Table.user, List.find?_append] at h
  rw [Store.suspended, Totp.Table.user]
  cases hfound : s.accounts.users.find? fun u => u.id = userId with
  | none => rfl
  | some found =>
    rw [hfound, Option.some_or] at h
    exact h

/-! ### What holds under any interleaving -/

/-- The token is of a session of its user. -/
def Store.Owned (s : Store) (row : Row) : Prop :=
  ∃ session ∈ s.sessions, session.familyId = row.familyId ∧ session.userId = row.userId

/-- The token that a refresh is to exchange. -/
def RefreshPhase.exchanging : RefreshPhase → Option Row
  | .inserting row => some row
  | _ => none

/-- **What holds under any interleaving.** -/
structure Sound (s : Store) : Prop where
  families : (s.sessions.map (·.familyId)).Nodup
  rows : ∀ row ∈ s.tokens.rows, s.Owned row
  exchanging : ∀ refresh ∈ s.refreshes, ∀ row ∈ refresh.phase.exchanging, s.Owned row
  opened : ∀ session ∈ s.sessions, session.opening.signOuts ≤ s.signOuts session.userId
  signIns : ∀ signIn ∈ s.signIns, ∀ userId ∈ signIn.phase.userId,
    signIn.opening.signOuts ≤ s.signOuts userId
  admins : ∀ admin ∈ s.admins, (s.accounts.user admin.userId).isSome = true

/-- The sessions of a family are one. -/
theorem Sound.unique (h : Sound s) {other : Session} (hsession : session ∈ s.sessions)
    (hother : other ∈ s.sessions) (hfamily : session.familyId = other.familyId) :
    session = other :=
  List.inj_on_of_nodup_map h.families hsession hother hfamily

/-- A token of a session is its user's. -/
theorem Sound.userId (h : Sound s) (hsession : session ∈ s.sessions) {row : Row}
    (hrow : row ∈ s.tokens.rows) (hfamily : row.familyId = session.familyId) :
    row.userId = session.userId := by
  obtain ⟨owner, howner, hownerFamily, huser⟩ := h.rows row hrow
  rw [← huser, h.unique howner hsession (hownerFamily.trans hfamily)]

theorem Store.Owned.same {row row' : Row} (h : s.Owned row) (hsame : row.Same row') :
    s.Owned row' := by
  obtain ⟨owner, howner, hfamily, huser⟩ := h
  exact ⟨owner, howner, hfamily.trans hsame.2.2.1.symm, huser.trans hsame.2.1.symm⟩

/-- No session is opened. -/
theorem Sound.of (h : Sound s) (hsessions : s'.sessions = s.sessions)
    (hrows : ∀ row ∈ s'.tokens.rows, s.Owned row)
    (hexchanging : ∀ refresh ∈ s'.refreshes, ∀ row ∈ refresh.phase.exchanging, s.Owned row)
    (hsignOuts : ∀ userId, s.signOuts userId ≤ s'.signOuts userId)
    (hsignIns : ∀ signIn ∈ s'.signIns, ∀ userId ∈ signIn.phase.userId,
      signIn.opening.signOuts ≤ s.signOuts userId)
    (hadmins : ∀ admin ∈ s'.admins, (s'.accounts.user admin.userId).isSome = true) : Sound s' := by
  have howned : ∀ row, s.Owned row → s'.Owned row := fun row hrow => by
    rw [Store.Owned, hsessions]
    exact hrow
  refine ⟨hsessions ▸ h.families, fun row hrow => howned row (hrows row hrow),
    fun refresh hrefresh row hrow => howned row (hexchanging refresh hrefresh row hrow),
    fun session hsession => ?_,
    fun signIn hsignIn userId huser => (hsignIns signIn hsignIn userId huser).trans (hsignOuts _),
    hadmins⟩
  rw [hsessions] at hsession
  exact (h.opened session hsession).trans (hsignOuts _)

/-- A sign-in goes on for the user that it has found. -/
theorem Sound.signIns_set {signIn : SignIn} {phase : SignInPhase} (h : Sound s)
    (hget : s.signIns[i]? = some signIn) (hphase : ∀ userId ∈ phase.userId,
      userId ∈ signIn.phase.userId) :
    ∀ other ∈ s.signIns.set i { signIn with phase := phase }, ∀ userId ∈ other.phase.userId,
      other.opening.signOuts ≤ s.signOuts userId := by
  intro other hother userId huser
  rcases List.mem_or_eq_of_mem_set hother with hold | rfl
  · exact h.signIns other hold userId huser
  · exact h.signIns signIn (List.mem_of_getElem? hget) userId (hphase userId huser)

theorem Sound.setSignIn {signIn : SignIn} {phase : SignInPhase} (h : Sound s)
    (hget : s.signIns[i]? = some signIn) (hphase : ∀ userId ∈ phase.userId,
      userId ∈ signIn.phase.userId) : Sound (s.setSignIn i signIn phase) :=
  h.of rfl h.rows h.exchanging (fun _ => le_rfl) (h.signIns_set hget hphase) h.admins

/-- A refresh goes on with no token to exchange. -/
theorem Sound.setRefresh {phase : RefreshPhase} {barred : Bool} (h : Sound s)
    (hphase : phase.exchanging = none) :
    Sound { s with refreshes := s.refreshes.set k ⟨phase, barred⟩ } := by
  refine h.of rfl h.rows (fun refresh hrefresh row hrow => ?_) (fun _ => le_rfl) h.signIns h.admins
  rcases List.mem_or_eq_of_mem_set hrefresh with hold | rfl
  · exact h.exchanging refresh hold row hrow
  · rw [hphase] at hrow
    cases hrow

/-- Tokens are revoked, or marked. -/
theorem Sound.setTokens {tokens : Table} (h : Sound s)
    (hrows : ∀ row ∈ tokens.rows, s.Owned row) : Sound (s.setTokens tokens) :=
  h.of rfl hrows h.exchanging (fun _ => le_rfl) h.signIns h.admins

theorem Sound.rows_revokeSeen {seen : Nat} {at_ : Int} {p : Row → Bool} (h : Sound s) :
    ∀ row ∈ (revokeSeen s.tokens seen at_ p).rows, s.Owned row := by
  intro row hrow
  rcases mem_revokeSeen hrow with ⟨before, hbefore, rfl⟩ | hlater
  · exact (h.rows before hbefore).same (before.same_revokeIf at_ p)
  · exact h.rows row (List.mem_of_mem_drop hlater)

theorem Sound.rows_retire {id : Uuid} {replacement : Option Uuid} (h : Sound s) :
    ∀ row ∈ (s.tokens.apply (.retire id replacement)).rows, s.Owned row := by
  intro row hrow
  obtain ⟨before, hbefore, rfl⟩ := List.mem_map.mp hrow
  exact (h.rows before hbefore).same (before.same_retireIf _ _ _)

theorem Sound.rows_insert {row : Row} (h : Sound s) (hrow : s.Owned row) :
    ∀ other ∈ (s.tokens.apply (.insert row)).rows, s.Owned other := by
  intro other hother
  rcases List.mem_append.mp hother with hold | hnew
  · exact h.rows other hold
  · rw [List.mem_singleton.mp hnew]
    exact hrow

theorem issue_eq_some {userId familyId : Uuid} {draw : Draw} {row : Row}
    (h : s.issue d userId familyId draw = some row) :
    row.userId = userId ∧ row.familyId = familyId := by
  rw [Store.issue] at h
  split at h
  · cases h
  · cases h
    exact ⟨rfl, rfl⟩

/-- A session is opened. -/
theorem Sound.openSession {signIn : SignIn} {membership : Membership} {row : Row} {token : String}
    (h : Sound s) (hget : s.signIns[i]? = some signIn) (huser : row.userId ∈ signIn.phase.userId)
    (hdrawn : s.drawn row.familyId = false) :
    Sound (s.openSession i signIn membership row token) := by
  have hnew : ∀ session ∈ s.sessions, session.familyId ≠ row.familyId := by
    simpa [Store.drawn] using hdrawn
  have howned : ∀ other, s.Owned other →
      (s.openSession i signIn membership row token).Owned other := by
    rintro other ⟨owner, howner, hfamily⟩
    exact ⟨owner, List.mem_append_left _ howner, hfamily⟩
  refine ⟨?_, fun other hother => ?_, fun refresh hrefresh other hother => ?_,
    fun session hsession => ?_, ?_, h.admins⟩
  · change ((s.sessions ++ [(⟨row.familyId, row.userId, signIn.opening⟩ : Session)]).map
      (·.familyId)).Nodup
    rw [List.map_append, List.nodup_append]
    refine ⟨h.families, List.nodup_singleton _, fun family hfamily other hother => ?_⟩
    obtain ⟨session, hsession, rfl⟩ := List.mem_map.mp hfamily
    rw [List.mem_singleton.mp hother]
    exact hnew session hsession
  · rcases List.mem_append.mp hother with hold | hadded
    · exact howned other (h.rows other hold)
    · rw [List.mem_singleton.mp hadded]
      exact ⟨_, List.mem_append_right _ (List.mem_singleton_self _), rfl, rfl⟩
  · exact howned other (h.exchanging refresh hrefresh other hother)
  · rcases List.mem_append.mp hsession with hold | hadded
    · exact h.opened session hold
    · rw [List.mem_singleton.mp hadded]
      exact h.signIns signIn (List.mem_of_getElem? hget) row.userId huser
  · exact h.signIns_set hget fun userId hmem => by cases hmem

/-- `verifyTotp` goes on for the user that it has found. -/
theorem userId_listing {t : Totp.Table} {draw : Totp.Draw} {userId : Uuid} {code : String}
    {wasOn : Bool} : ∀ other ∈ (phaseOf ((Totp.Call.listing userId code wasOn).next d.totp t
      draw)).userId, other = userId := by
  rw [Totp.Call.next]
  split
  · intro other hother
    cases hother
  · exact fun other hother => (Option.mem_some_iff.mp hother).symm

theorem userId_claiming {t : Totp.Table} {draw : Totp.Draw} {userId id : Uuid} {wasOn : Bool} :
    ∀ other ∈ (phaseOf ((Totp.Call.claiming userId id wasOn).next d.totp t draw)).userId,
      other = userId := by
  rw [Totp.Call.next]
  split
  · exact fun other hother => (Option.mem_some_iff.mp hother).symm
  · intro other hother
    cases hother

theorem sound_nextSignIn {o : Outside} {signIn : SignIn} (h : Sound s)
    (hget : s.signIns[i]? = some signIn) (hs' : s.nextSignIn d i o signIn = some s') :
    Sound s' := by
  rw [Store.nextSignIn] at hs'
  split at hs'
  · next userId code wasOn hphase =>
    cases hs'
    refine h.setSignIn hget fun other hother => ?_
    rw [hphase, userId_listing other hother]
    rfl
  · next userId id wasOn hphase =>
    cases hs'
    have hclaim : Sound (s.claim d id) :=
      h.of rfl h.rows h.exchanging (fun _ => le_rfl) h.signIns h.admins
    refine hclaim.setSignIn hget fun other hother => ?_
    rw [hphase, userId_claiming other hother]
    rfl
  · cases hs'
    refine h.of rfl h.rows h.exchanging (fun _ => le_rfl) (h.signIns_set hget ?_) h.admins
    intro userId hmem
    cases hmem
  · next userId hphase =>
    cases hs'
    refine h.setSignIn hget fun other hother => ?_
    rw [hphase]
    cases hmembership : o.membership with
    | none =>
      rw [hmembership] at hother
      cases hother
    | some membership =>
      rw [hmembership] at hother
      exact hother
  · next userId membership hphase =>
    split at hs'
    · cases hs'
    · next hdrawn =>
      cases hs'
      cases hissue : s.issue d userId o.familyId o.draw with
      | none =>
        refine h.setSignIn hget fun other hother => ?_
        cases hother
      | some row =>
        obtain ⟨huser, hfamily⟩ := issue_eq_some hissue
        refine h.openSession hget ?_ (by rw [hfamily]; exact Bool.eq_false_iff.mpr hdrawn)
        rw [hphase, huser]
        rfl
  all_goals cases hs'

theorem sound_nextRefresh {o : Outside} {refresh : Refresh} (h : Sound s)
    (hget : s.refreshes[k]? = some refresh) (hs' : s.nextRefresh d k o refresh = some s') :
    Sound s' := by
  rw [Store.nextRefresh] at hs'
  split at hs'
  · next row hphase =>
    cases hs'
    cases hissue : s.issue d row.userId row.familyId o.draw with
    | none => exact h.setRefresh rfl
    | some successor =>
      obtain ⟨huser, hfamily⟩ := issue_eq_some hissue
      have howned : s.Owned row :=
        h.exchanging refresh (List.mem_of_getElem? hget) row (by rw [hphase]; rfl)
      refine (h.setTokens (h.rows_insert ?_)).setRefresh rfl
      obtain ⟨owner, howner, hownerFamily, hownerUser⟩ := howned
      exact ⟨owner, howner, hownerFamily.trans hfamily.symm, hownerUser.trans huser.symm⟩
  · cases hs'
    exact h.setRefresh rfl
  · cases hs'
    exact (h.setTokens h.rows_retire).setRefresh rfl
  · cases hs'
    exact h.setRefresh rfl
  · cases hs'
    exact (h.setTokens h.rows_revokeSeen).setRefresh rfl
  · next userId next hphase =>
    cases hs'
    refine h.setRefresh ?_
    rw [Store.checkUser]
    split
    · rfl
    · split <;> rfl
  · cases hs'
    refine h.setRefresh ?_
    cases o.membership <;> rfl
  · cases hs'
    exact h.setRefresh rfl
  all_goals cases hs'

/-- What else is written leaves sessions and tokens alone. -/
theorem Sound.setUser {userId : Uuid} {set : Totp.User → Totp.User} (h : Sound s)
    (hid : ∀ user, (set user).id = user.id) : Sound (s.setUser userId set) :=
  h.of rfl h.rows h.exchanging (fun _ => le_rfl) h.signIns fun admin hadmin =>
    (isSome_user_setUser hid).trans (h.admins admin hadmin)

theorem sound_nextReset {reset : Reset} (h : Sound s) (hs' : s.nextReset j reset = some s') :
    Sound s' := by
  rw [Store.nextReset] at hs'
  split at hs'
  · cases hs'
    have hset : Sound (s.setUser reset.userId
        ({ · with passwordHash := some reset.passwordHash })) := h.setUser fun _ => rfl
    exact hset.of rfl hset.rows hset.exchanging (fun _ => le_rfl) hset.signIns hset.admins
  · cases hs'
    exact h.of rfl h.rows h.exchanging (fun _ => le_rfl) h.signIns h.admins
  · cases hs'
    exact h.of rfl h.rows_revokeSeen h.exchanging (fun _ => le_rfl) h.signIns h.admins
  · cases hs'
    exact h.of rfl h.rows h.exchanging (fun _ => le_rfl) h.signIns h.admins
  all_goals cases hs'

/-- An admin goes on with the same user. -/
theorem Sound.admins_set {admin : Admin} {phase : AdminPhase} (h : Sound s)
    (hget : s.admins[j]? = some admin) :
    ∀ other ∈ s.admins.set j { admin with phase := phase },
      (s.accounts.user other.userId).isSome = true := by
  intro other hother
  rcases List.mem_or_eq_of_mem_set hother with hold | rfl
  · exact h.admins other hold
  · exact h.admins admin (List.mem_of_getElem? hget)

theorem sound_nextAdmin {admin : Admin} (h : Sound s) (hget : s.admins[j]? = some admin)
    (hs' : s.nextAdmin j admin = some s') : Sound s' := by
  rw [Store.nextAdmin] at hs'
  split at hs'
  · cases hs'
    exact h.of rfl h.rows h.exchanging (fun _ => le_rfl) h.signIns (h.admins_set hget)
  · next seen at_ hphase =>
    split at hs'
    · cases hs'
      have hset : Sound (s.setUser admin.userId ({ · with suspendedAt := some admin.at_ })) :=
        h.setUser fun _ => rfl
      exact hset.of rfl h.rows_revokeSeen hset.exchanging (fun _ => le_rfl) hset.signIns
        (hset.admins_set hget)
    · cases hs'
      refine h.of rfl h.rows_revokeSeen h.exchanging (fun userId => ?_) h.signIns
        (h.admins_set hget)
      change _ ≤ Function.update s.signOuts admin.userId (s.signOuts admin.userId + 1) userId
      rw [Function.update_apply]
      split
      · next heq => rw [heq]; exact Nat.le_succ _
      · exact le_rfl
  all_goals cases hs'

/-- A sign-in begins. -/
theorem Sound.begin {call : Totp.Call} {checked : Uuid → Option Nat} (h : Sound s) :
    Sound (s.begin call checked) := by
  refine h.of rfl h.rows h.exchanging (fun _ => le_rfl) (fun signIn hsignIn userId huser => ?_)
    h.admins
  rcases List.mem_append.mp hsignIn with hold | hnew
  · exact h.signIns signIn hold userId huser
  · obtain rfl := List.mem_singleton.mp hnew
    have hfound : (phaseOf call).userId = some userId := huser
    change ((phaseOf call).userId.elim _ _ : Opening).signOuts ≤ _
    rw [hfound]
    exact le_rfl

/-- A refresh begins with a token that is stored. -/
theorem exchanging_ofRotate {row : Row} {found : Option Row} {now : Int}
    (h : row ∈ (RefreshPhase.ofRotate (RefreshTokens.checked now found)).exchanging) :
    found = some row := by
  cases found with
  | none => cases h
  | some stored =>
    rw [RefreshTokens.checked] at h
    split at h
    · cases h
    · split at h
      · cases h
      · split at h
        · cases h
        · exact h

/-- **What holds under any interleaving is kept by every step.** -/
theorem sound_execute (h : Sound s) (hs' : execute d s a = some s') : Sound s' := by
  cases a with
  | tick ms =>
    cases hs'
    exact h.of rfl h.rows h.exchanging (fun _ => le_rfl) h.signIns h.admins
  | signUp user =>
    rw [execute] at hs'
    split at hs'
    · cases hs'
    · cases hs'
      refine h.of rfl h.rows h.exchanging (fun _ => le_rfl) h.signIns fun admin hadmin => ?_
      rw [Store.signUp, Totp.Table.user, List.find?_append, Option.isSome_or]
      exact Bool.or_eq_true_iff.mpr (Or.inl (h.admins admin hadmin))
  | login email password =>
    cases hs'
    exact h.begin
  | oauthSignIn userId =>
    cases hs'
    exact h.begin
  | verifyTotp challenge code =>
    cases hs'
    exact h.begin
  | nextSignIn i o =>
    obtain ⟨signIn, hget, hnext⟩ := Option.bind_eq_some_iff.mp hs'
    exact sound_nextSignIn h hget hnext
  | failSignIn i =>
    obtain ⟨signIn, hget, rfl⟩ := Option.map_eq_some_iff.mp hs'
    refine h.setSignIn hget fun userId hmem => ?_
    cases hmem
  | refresh token =>
    cases hs'
    refine h.of rfl h.rows (fun refresh hrefresh row hrow => ?_) (fun _ => le_rfl) h.signIns
      h.admins
    rcases List.mem_append.mp hrefresh with hold | hnew
    · exact h.exchanging refresh hold row hrow
    · rw [List.mem_singleton.mp hnew] at hrow
      exact h.rows row (List.mem_of_find?_eq_some (exchanging_ofRotate hrow))
  | nextRefresh k o =>
    obtain ⟨refresh, hget, hnext⟩ := Option.bind_eq_some_iff.mp hs'
    exact sound_nextRefresh h hget hnext
  | failRefresh k =>
    obtain ⟨refresh, -, rfl⟩ := Option.map_eq_some_iff.mp hs'
    exact h.setRefresh rfl
  | confirmPasswordReset userId passwordHash =>
    cases hs'
    exact h.of rfl h.rows h.exchanging (fun _ => le_rfl) h.signIns h.admins
  | nextReset j =>
    obtain ⟨reset, -, hnext⟩ := Option.bind_eq_some_iff.mp hs'
    exact sound_nextReset h hnext
  | failReset j =>
    obtain ⟨reset, -, rfl⟩ := Option.map_eq_some_iff.mp hs'
    exact h.of rfl h.rows h.exchanging (fun _ => le_rfl) h.signIns h.admins
  | admin kind userId =>
    rw [execute] at hs'
    split at hs'
    · next hexists =>
      cases hs'
      refine h.of rfl h.rows h.exchanging (fun _ => le_rfl) h.signIns fun admin hadmin => ?_
      rcases List.mem_append.mp hadmin with hold | hnew
      · exact h.admins admin hold
      · rw [List.mem_singleton.mp hnew]
        exact hexists
    · cases hs'
  | nextAdmin j =>
    obtain ⟨admin, hget, hnext⟩ := Option.bind_eq_some_iff.mp hs'
    exact sound_nextAdmin h hget hnext
  | failAdmin j =>
    obtain ⟨admin, hget, rfl⟩ := Option.map_eq_some_iff.mp hs'
    exact h.of rfl h.rows h.exchanging (fun _ => le_rfl) h.signIns (h.admins_set hget)
  | unsuspendUser userId =>
    rw [execute] at hs'
    split at hs'
    · cases hs'
      exact h.setUser fun _ => rfl
    · cases hs'

/-! ### One step -/

/-- No session is opened, and none comes to live. -/
theorem SessionsHold.of (h : SessionsHold s) (hsessions : s'.sessions = s.sessions)
    (hlive : ∀ session, s'.live session = true → s.live session = true)
    (hfresh : ∀ session ∈ s.sessions, s'.live session = true →
      s.Fresh session.userId session.opening → s'.Fresh session.userId session.opening)
    (hbarred : ∀ refresh ∈ s'.refreshes, refresh.barred = false) : SessionsHold s' := by
  refine ⟨fun session hsession hl => ?_, hbarred⟩
  rw [hsessions] at hsession
  exact hfresh session hsession hl (h.fresh session hsession (hlive session hl))

/-- A refresh goes on, and answers nothing. -/
theorem SessionsHold.barred_set {phase : RefreshPhase} (h : SessionsHold s) :
    ∀ refresh ∈ s.refreshes.set k ⟨phase, false⟩, refresh.barred = false := by
  intro refresh hrefresh
  rcases List.mem_or_eq_of_mem_set hrefresh with hold | rfl
  · exact h.barred refresh hold
  · rfl

theorem SessionsHold.setRefresh {phase : RefreshPhase} (h : SessionsHold s) :
    SessionsHold (s.setRefresh k phase) :=
  h.of rfl (fun _ hl => hl) (fun _ _ _ hf => hf) h.barred_set

/-- Tokens are revoked, or marked. -/
theorem SessionsHold.setTokens {tokens : Table} (h : SessionsHold s)
    (hlive : ∀ session, (s.setTokens tokens).live session = true → s.live session = true) :
    SessionsHold (s.setTokens tokens) :=
  h.of rfl hlive (fun _ _ _ hf => hf) h.barred

/-- A user is written, and is suspended as before. -/
theorem SessionsHold.setUser {userId : Uuid} {set : Totp.User → Totp.User} (h : SessionsHold s)
    (hid : ∀ user, (set user).id = user.id)
    (hset : ∀ user, (set user).suspendedAt = user.suspendedAt) :
    SessionsHold (s.setUser userId set) := by
  refine h.of rfl (fun _ hl => hl) (fun session _ _ hf => ⟨hf.1, hf.2.1, ?_⟩) h.barred
  rw [suspended_setUser hid fun user _ _ => hset user]
  exact hf.2.2

/-- The token of a family that is new. -/
theorem live_openSession {signIn : SignIn} {membership : Membership} {row : Row} {token : String}
    (hne : session.familyId ≠ row.familyId)
    (hlive : (s.openSession i signIn membership row token).live session = true) :
    s.live session = true := by
  obtain ⟨other, hother, hfamily, hotherLive⟩ := live_iff.mp hlive
  rcases List.mem_append.mp hother with hold | hnew
  · exact live_iff.mpr ⟨other, hold, hfamily, hotherLive⟩
  · rw [List.mem_singleton.mp hnew] at hfamily
    exact absurd hfamily.symm hne

/-- **A session is opened.** -/
theorem sessionsHold_openSession {signIn : SignIn} {membership : Membership} {row : Row}
    {token : String} (hsound : Sound s) (h : SessionsHold s)
    (hdrawn : s.drawn row.familyId = false) :
    SessionsHold (s.openSession i signIn membership row token) ↔
      (row.live s.tokens.now → s.Fresh row.userId signIn.opening) := by
  have hnew : ∀ session ∈ s.sessions, session.familyId ≠ row.familyId := by
    simpa [Store.drawn] using hdrawn
  constructor
  · intro hw hlive
    refine hw.fresh ⟨row.familyId, row.userId, signIn.opening⟩
      (List.mem_append_right _ (List.mem_singleton_self _)) (live_iff.mpr ⟨row, ?_, rfl, hlive⟩)
    exact List.mem_append_right _ (List.mem_singleton_self _)
  · intro hfresh
    refine ⟨fun session hsession hlive => ?_, h.barred⟩
    rcases List.mem_append.mp hsession with hold | hadded
    · exact h.fresh session hold (live_openSession (hnew session hold) hlive)
    · obtain rfl := List.mem_singleton.mp hadded
      obtain ⟨other, hother, hfamily, hotherLive⟩ := live_iff.mp hlive
      rcases List.mem_append.mp hother with hstored | hinserted
      · obtain ⟨owner, howner, hownerFamily, -⟩ := hsound.rows other hstored
        exact absurd (hownerFamily.trans hfamily) (hnew owner howner)
      · rw [List.mem_singleton.mp hinserted] at hotherLive
        exact hfresh hotherLive

/-- The next statement of a sign-in. -/
theorem sessionsHold_nextSignIn {o : Outside} {signIn : SignIn} (hsound : Sound s)
    (h : SessionsHold s) (hs' : s.nextSignIn d i o signIn = some s') :
    SessionsHold s' ↔ ∀ row ∈ s.opens d o signIn, row.live s.tokens.now →
      s.Fresh row.userId signIn.opening := by
  have hframe : SessionsHold { s with signIns := s'.signIns } :=
    h.of rfl (fun _ hl => hl) (fun _ _ _ hf => hf) h.barred
  rw [Store.nextSignIn] at hs'
  rw [Store.opens]
  split at hs'
  · next hphase =>
    cases hs'
    rw [hphase]
    exact iff_of_true hframe fun row hrow => by cases hrow
  · next hphase =>
    cases hs'
    rw [hphase]
    refine iff_of_true ?_ fun row hrow => by cases hrow
    exact h.of rfl (fun _ hl => hl) (fun _ _ _ hf => hf) h.barred
  · next hphase =>
    cases hs'
    rw [hphase]
    refine iff_of_true ?_ fun row hrow => by cases hrow
    exact h.of rfl (fun _ hl => hl) (fun _ _ _ hf => hf) h.barred
  · next hphase =>
    cases hs'
    rw [hphase]
    exact iff_of_true hframe fun row hrow => by cases hrow
  · next userId membership hphase =>
    rw [hphase]
    dsimp only
    split at hs'
    · cases hs'
    · next hdrawn =>
      cases hs'
      rw [if_neg hdrawn]
      cases hissue : s.issue d userId o.familyId o.draw with
      | none =>
        refine iff_of_true ?_ fun row hrow => by cases hrow
        exact h.of rfl (fun _ hl => hl) (fun _ _ _ hf => hf) h.barred
      | some row =>
        obtain ⟨-, hfamily⟩ := issue_eq_some hissue
        refine (sessionsHold_openSession hsound h ?_).trans ?_
        · rw [hfamily]
          exact Bool.eq_false_iff.mpr hdrawn
        · exact ⟨fun hone other hother => Option.mem_some_iff.mp hother ▸ hone,
            fun hall => hall row rfl⟩
  all_goals cases hs'

/-- **A token of a session is stored.** -/
theorem sessionsHold_insert {row : Row} {phase : RefreshPhase} (h : SessionsHold s) :
    SessionsHold ((s.setTokens (s.tokens.apply (.insert row))).setRefresh k phase) ↔
      (row.live s.tokens.now → ∀ session ∈ s.sessions, session.familyId = row.familyId →
        s.Fresh session.userId session.opening) := by
  constructor
  · intro hw hlive session hsession hfamily
    refine hw.fresh session hsession (live_iff.mpr ⟨row, ?_, hfamily.symm, hlive⟩)
    exact List.mem_append_right _ (List.mem_singleton_self _)
  · intro hfresh
    refine ⟨fun session hsession hlive => ?_, h.barred_set⟩
    obtain ⟨other, hother, hfamily, hotherLive⟩ := live_iff.mp hlive
    rcases List.mem_append.mp hother with hold | hnew
    · exact h.fresh session hsession (live_iff.mpr ⟨other, hold, hfamily, hotherLive⟩)
    · rw [List.mem_singleton.mp hnew] at hfamily hotherLive
      exact hfresh hotherLive session hsession hfamily.symm

/-- **A refresh answers.** -/
theorem sessionsHold_returnTokens {refresh : Refresh} {user : Totp.User} {membership : Membership}
    {next : String} (h : SessionsHold s) (hget : s.refreshes[k]? = some refresh) :
    SessionsHold (s.returnTokens k user membership next) ↔ s.suspended user.id = false := by
  constructor
  · intro hw
    have hmem : (⟨.returned ⟨user.id, membership.workspaceId, membership.role, user.email⟩ next,
        s.suspended user.id⟩ : Refresh) ∈ (s.returnTokens k user membership next).refreshes :=
      List.mem_set (List.getElem?_eq_some_iff.mp hget).1 _
    exact hw.barred _ hmem
  · intro hstanding
    refine h.of rfl (fun _ hl => hl) (fun _ _ _ hf => hf) fun other hother => ?_
    rcases List.mem_or_eq_of_mem_set hother with hold | rfl
    · exact h.barred other hold
    · exact hstanding

/-- The next statement of a refresh. -/
theorem sessionsHold_nextRefresh {o : Outside} {refresh : Refresh} (h : SessionsHold s)
    (hget : s.refreshes[k]? = some refresh) (hs' : s.nextRefresh d k o refresh = some s') :
    SessionsHold s' ↔
      (∀ row ∈ s.succeeds d o refresh, row.live s.tokens.now → ∀ session ∈ s.sessions,
        session.familyId = row.familyId → s.Fresh session.userId session.opening) ∧
      ∀ userId ∈ refresh.answering, s.suspended userId = false := by
  -- all but two statements store no token and answer nothing
  have hother : SessionsHold s' → s.succeeds d o refresh = none → refresh.answering = none →
      (SessionsHold s' ↔ (∀ row ∈ s.succeeds d o refresh, row.live s.tokens.now →
        ∀ session ∈ s.sessions, session.familyId = row.familyId →
          s.Fresh session.userId session.opening) ∧
        ∀ userId ∈ refresh.answering, s.suspended userId = false) := by
    intro hw hstores hanswers
    rw [hstores, hanswers]
    refine iff_of_true hw ⟨fun row hrow => ?_, fun userId huser => ?_⟩
    · cases hrow
    · cases huser
  rw [Store.nextRefresh] at hs'
  rw [Store.succeeds, Refresh.answering] at hother ⊢
  split at hs'
  · next row hphase =>
    rw [hphase] at hother ⊢
    cases hs'
    dsimp only at hother ⊢
    cases hissue : s.issue d row.userId row.familyId o.draw with
    | none =>
      rw [hissue] at hother
      exact hother h.setRefresh rfl rfl
    | some successor =>
      refine (sessionsHold_insert h).trans ?_
      refine (and_iff_left (fun userId huser => by cases huser)).symm.trans (and_congr_left' ?_)
      exact ⟨fun hone other hother => Option.mem_some_iff.mp hother ▸ hone,
        fun hall => hall successor rfl⟩
  · next hphase =>
    rw [hphase] at hother ⊢
    cases hs'
    exact hother h.setRefresh rfl rfl
  · next row next replacement hphase =>
    rw [hphase] at hother ⊢
    cases hs'
    refine hother (SessionsHold.setRefresh (h.setTokens fun session hlive => ?_)) rfl rfl
    exact live_of_apply (w := .retire row.id replacement) (fun _ hinsert => by cases hinsert) rfl
      hlive
  · next hphase =>
    rw [hphase] at hother ⊢
    cases hs'
    exact hother h.setRefresh rfl rfl
  · next hphase =>
    rw [hphase] at hother ⊢
    cases hs'
    exact hother (SessionsHold.setRefresh (h.setTokens fun session hlive =>
      live_of_revokeSeen rfl hlive)) rfl rfl
  · next hphase =>
    rw [hphase] at hother ⊢
    cases hs'
    exact hother h.setRefresh rfl rfl
  · next hphase =>
    rw [hphase] at hother ⊢
    cases hs'
    exact hother h.setRefresh rfl rfl
  · next user membership next hphase =>
    rw [hphase]
    cases hs'
    refine (sessionsHold_returnTokens h hget).trans ?_
    refine (and_iff_right (fun row hrow => by cases hrow)).symm.trans (and_congr_right' ?_)
    exact ⟨fun hone other hother => Option.mem_some_iff.mp hother ▸ hone,
      fun hall => hall user.id rfl⟩
  all_goals cases hs'

theorem returned_returnReset {reset : Reset} {generation : Nat} :
    (s.returnReset j reset generation).returned = Function.update s.returned reset.userId
      (max (s.returned reset.userId) generation) := rfl

/-- **A reset returns.** -/
theorem sessionsHold_returnReset {reset : Reset} {generation : Nat} (h : SessionsHold s) :
    SessionsHold (s.returnReset j reset generation) ↔
      ∀ session ∈ s.sessions, session.userId = reset.userId → s.live session = true →
        ∀ checked ∈ session.opening.checked, generation ≤ checked := by
  constructor
  · intro hw session hsession huser hlive checked hchecked
    have hreturned := (hw.fresh session hsession hlive).1 checked hchecked
    rw [returned_returnReset, huser, Function.update_self] at hreturned
    exact (le_max_right _ _).trans hreturned
  · intro hnone
    refine h.of rfl (fun _ hl => hl) (fun session hsession hlive hf => ⟨?_, hf.2⟩) h.barred
    intro checked hchecked
    rw [returned_returnReset, Function.update_apply]
    split
    · next huser =>
      exact max_le (huser ▸ hf.1 checked hchecked)
        (hnone session hsession huser hlive checked hchecked)
    · exact hf.1 checked hchecked

/-- The next statement of a reset. -/
theorem sessionsHold_nextReset {reset : Reset} (h : SessionsHold s)
    (hs' : s.nextReset j reset = some s') :
    SessionsHold s' ↔ ∀ generation ∈ reset.returning, ∀ session ∈ s.sessions,
      session.userId = reset.userId → s.live session = true →
        ∀ checked ∈ session.opening.checked, generation ≤ checked := by
  rw [Store.nextReset] at hs'
  rw [Reset.returning]
  split at hs'
  · next hphase =>
    cases hs'
    rw [hphase]
    refine iff_of_true ?_ fun generation hgeneration => by cases hgeneration
    have hset : SessionsHold (s.setUser reset.userId
        ({ · with passwordHash := some reset.passwordHash })) :=
      h.setUser (fun _ => rfl) fun _ => rfl
    exact hset.of rfl (fun _ hl => hl) (fun _ _ _ hf => hf) hset.barred
  · next hphase =>
    cases hs'
    rw [hphase]
    refine iff_of_true ?_ fun generation hgeneration => by cases hgeneration
    exact h.of rfl (fun _ hl => hl) (fun _ _ _ hf => hf) h.barred
  · next hphase =>
    cases hs'
    rw [hphase]
    refine iff_of_true ?_ fun generation hgeneration => by cases hgeneration
    exact h.of rfl (fun _ hl => live_of_revokeSeen rfl hl) (fun _ _ _ hf => hf) h.barred
  · next generation hphase =>
    cases hs'
    rw [hphase]
    refine (sessionsHold_returnReset h).trans ?_
    exact ⟨fun hone other hother => Option.mem_some_iff.mp hother ▸ hone,
      fun hall => hall generation rfl⟩
  all_goals cases hs'

theorem signOuts_commitSignOut {admin : Admin} {seen : Nat} {at_ : Int} :
    (s.commitSignOut j admin seen at_).signOuts =
      Function.update s.signOuts admin.userId (s.signOuts admin.userId + 1) := rfl

/-- **A sign-out commits.** -/
theorem sessionsHold_commitSignOut {admin : Admin} {seen : Nat} {at_ : Int} (hsound : Sound s)
    (h : SessionsHold s) :
    SessionsHold (s.commitSignOut j admin seen at_) ↔
      ∀ row ∈ s.tokens.rows.drop seen, row.userId = admin.userId → ¬ row.live s.tokens.now := by
  constructor
  · intro hw row hrow huser hlive
    obtain ⟨owner, howner, hfamily, hownerUser⟩ := hsound.rows row (List.mem_of_mem_drop hrow)
    have hownerLive : (s.commitSignOut j admin seen at_).live owner = true :=
      live_iff.mpr ⟨row, List.mem_append_right _ hrow, hfamily.symm, hlive⟩
    have hsignOuts := (hw.fresh owner howner hownerLive).2.1
    have hopened := hsound.opened owner howner
    rw [hownerUser, huser] at hsignOuts hopened
    rw [signOuts_commitSignOut, Function.update_self] at hsignOuts
    exact absurd (hsignOuts.trans hopened) (Nat.not_succ_le_self _)
  · intro hnone
    refine h.of rfl (fun _ hl => live_of_revokeSeen rfl hl)
      (fun session hsession hlive hf => ⟨hf.1, ?_, hf.2.2⟩) h.barred
    rw [signOuts_commitSignOut, Function.update_apply]
    split
    · next huser =>
      obtain ⟨row, hrow, hfamily, hrowLive⟩ := live_iff.mp hlive
      obtain ⟨hstored, hwhere⟩ := live_of_mem_revokeSeen hrow hrowLive
      have hrowUser : row.userId = admin.userId :=
        (hsound.userId hsession hstored hfamily).trans huser
      rcases hwhere with hother | hlater
      · exact absurd hrowUser (of_decide_eq_false hother)
      · exact absurd hrowLive (hnone row hlater hrowUser)
    · exact hf.2.1

theorem suspensions_commitSuspend {admin : Admin} {seen : Nat} {at_ : Int} :
    (s.commitSuspend j admin seen at_).suspensions =
      Function.update s.suspensions admin.userId (s.suspensions admin.userId + 1) := rfl

/-- **A suspension commits.** -/
theorem sessionsHold_commitSuspend {admin : Admin} {seen : Nat} {at_ : Int} (h : SessionsHold s)
    (hexists : (s.accounts.user admin.userId).isSome = true) :
    SessionsHold (s.commitSuspend j admin seen at_) := by
  refine h.of rfl (fun _ hl => live_of_revokeSeen rfl hl)
    (fun session hsession hlive hf => ⟨hf.1, hf.2.1, fun hstanding => ?_⟩) h.barred
  have hstands : (s.setUser admin.userId ({ · with suspendedAt := some admin.at_ })).suspended
      session.userId = false := hstanding
  by_cases huser : session.userId = admin.userId
  · obtain ⟨user, hget⟩ := Option.isSome_iff_exists.mp hexists
    have hbarred : (s.setUser admin.userId ({ · with suspendedAt := some admin.at_ })).suspended
        admin.userId = true := suspended_setUser_self (fun _ => rfl) hget
    rw [huser, hbarred] at hstands
    cases hstands
  · rw [suspensions_commitSuspend, Function.update_of_ne huser]
    exact hf.2.2 (standing_of_setUser hstands (fun _ => rfl) huser)

/-- The next statement of an admin's transaction. -/
theorem sessionsHold_nextAdmin {admin : Admin} (hsound : Sound s) (h : SessionsHold s)
    (hget : s.admins[j]? = some admin) (hs' : s.nextAdmin j admin = some s') :
    SessionsHold s' ↔ ∀ seen ∈ admin.signingOut, ∀ row ∈ s.tokens.rows.drop seen,
      row.userId = admin.userId → ¬ row.live s.tokens.now := by
  rw [Store.nextAdmin] at hs'
  rw [Admin.signingOut]
  split at hs'
  · next hphase =>
    cases hs'
    rw [hphase]
    refine iff_of_true (h.of rfl (fun _ hl => hl) (fun _ _ _ hf => hf) h.barred) ?_
    cases admin.kind with
    | suspend => exact fun seen hseen => by cases hseen
    | signOutEverywhere => exact fun seen hseen => by cases hseen
  · next seen at_ hphase =>
    rw [hphase]
    split at hs'
    · next hkind =>
      cases hs'
      rw [hkind]
      exact iff_of_true (sessionsHold_commitSuspend h
        (hsound.admins admin (List.mem_of_getElem? hget))) fun seen hseen => by cases hseen
    · next hkind =>
      cases hs'
      rw [hkind]
      refine (sessionsHold_commitSignOut hsound h).trans ?_
      exact ⟨fun hone other hother => Option.mem_some_iff.mp hother ▸ hone,
        fun hall => hall seen rfl⟩
  all_goals cases hs'

/-- **A suspension is lifted.** -/
theorem sessionsHold_unsuspend {userId : Uuid} (h : SessionsHold s)
    (hexists : (s.accounts.user userId).isSome = true) :
    SessionsHold (s.setUser userId ({ · with suspendedAt := none })) ↔
      ∀ session ∈ s.sessions, session.userId = userId → s.live session = true →
        s.suspensions userId ≤ session.opening.suspensions := by
  obtain ⟨user, hget⟩ := Option.isSome_iff_exists.mp hexists
  have hstands : (s.setUser userId ({ · with suspendedAt := none })).suspended userId = false :=
    suspended_setUser_self (fun _ => rfl) hget
  constructor
  · intro hw session hsession huser hlive
    have hfresh := (hw.fresh session hsession hlive).2.2
    rw [huser] at hfresh
    exact hfresh hstands
  · intro hnone
    refine h.of rfl (fun _ hl => hl) (fun session hsession hlive hf => ⟨hf.1, hf.2.1, ?_⟩) h.barred
    intro hstanding
    by_cases huser : session.userId = userId
    · have hopened := hnone session hsession huser hlive
      rw [← huser] at hopened
      exact hopened
    · exact hf.2.2 (standing_of_setUser hstanding (fun _ => rfl) huser)

/-- **A step keeps it exactly when it is one that does.** -/
theorem sessionsHold_execute (hsound : Sound s) (h : SessionsHold s)
    (hs' : execute d s a = some s') : SessionsHold s' ↔ Kept d s a := by
  have hbegin : ∀ call checked, SessionsHold (s.begin call checked) := fun call checked =>
    h.of rfl (fun _ hl => hl) (fun _ _ _ hf => hf) h.barred
  cases a with
  | tick ms =>
    cases hs'
    refine iff_of_true (h.of rfl (fun session hlive => ?_) (fun _ _ _ hf => hf) h.barred) trivial
    exact live_of_apply (w := .tick ms) (fun _ hinsert => by cases hinsert) rfl hlive
  | signUp user =>
    rw [execute] at hs'
    split at hs'
    · cases hs'
    · cases hs'
      refine iff_of_true (h.of rfl (fun _ hl => hl)
        (fun session _ _ hf => ⟨hf.1, hf.2.1, fun hstanding => ?_⟩) h.barred) trivial
      exact hf.2.2 (suspended_signUp hstanding)
  | login email password =>
    cases hs'
    exact iff_of_true (hbegin _ _) trivial
  | oauthSignIn userId =>
    cases hs'
    exact iff_of_true (hbegin _ _) trivial
  | verifyTotp challenge code =>
    cases hs'
    exact iff_of_true (hbegin _ _) trivial
  | nextSignIn i o =>
    obtain ⟨signIn, hget, hnext⟩ := Option.bind_eq_some_iff.mp hs'
    refine (sessionsHold_nextSignIn hsound h hnext).trans ?_
    rw [Kept, hget]
    exact ⟨fun hone other hother => Option.mem_some_iff.mp hother ▸ hone,
      fun hall => hall signIn rfl⟩
  | failSignIn i =>
    obtain ⟨signIn, -, rfl⟩ := Option.map_eq_some_iff.mp hs'
    exact iff_of_true (h.of rfl (fun _ hl => hl) (fun _ _ _ hf => hf) h.barred) trivial
  | refresh token =>
    cases hs'
    refine iff_of_true (h.of rfl (fun _ hl => hl) (fun _ _ _ hf => hf) fun refresh hrefresh => ?_)
      trivial
    rcases List.mem_append.mp hrefresh with hold | hnew
    · exact h.barred refresh hold
    · rw [List.mem_singleton.mp hnew]
  | nextRefresh k o =>
    obtain ⟨refresh, hget, hnext⟩ := Option.bind_eq_some_iff.mp hs'
    refine (sessionsHold_nextRefresh h hget hnext).trans ?_
    rw [Kept, hget]
    exact ⟨fun hone other hother => Option.mem_some_iff.mp hother ▸ hone,
      fun hall => hall refresh rfl⟩
  | failRefresh k =>
    obtain ⟨refresh, hget, rfl⟩ := Option.map_eq_some_iff.mp hs'
    refine iff_of_true (h.of rfl (fun _ hl => hl) (fun _ _ _ hf => hf) fun other hother => ?_)
      trivial
    rcases List.mem_or_eq_of_mem_set hother with hold | rfl
    · exact h.barred other hold
    · exact h.barred refresh (List.mem_of_getElem? hget)
  | confirmPasswordReset userId passwordHash =>
    cases hs'
    exact iff_of_true (h.of rfl (fun _ hl => hl) (fun _ _ _ hf => hf) h.barred) trivial
  | nextReset j =>
    obtain ⟨reset, hget, hnext⟩ := Option.bind_eq_some_iff.mp hs'
    refine (sessionsHold_nextReset h hnext).trans ?_
    rw [Kept, hget]
    exact ⟨fun hone other hother => Option.mem_some_iff.mp hother ▸ hone,
      fun hall => hall reset rfl⟩
  | failReset j =>
    obtain ⟨reset, -, rfl⟩ := Option.map_eq_some_iff.mp hs'
    exact iff_of_true (h.of rfl (fun _ hl => hl) (fun _ _ _ hf => hf) h.barred) trivial
  | admin kind userId =>
    rw [execute] at hs'
    split at hs'
    · cases hs'
      exact iff_of_true (h.of rfl (fun _ hl => hl) (fun _ _ _ hf => hf) h.barred) trivial
    · cases hs'
  | nextAdmin j =>
    obtain ⟨admin, hget, hnext⟩ := Option.bind_eq_some_iff.mp hs'
    refine (sessionsHold_nextAdmin hsound h hget hnext).trans ?_
    rw [Kept, hget]
    exact ⟨fun hone other hother => Option.mem_some_iff.mp hother ▸ hone,
      fun hall => hall admin rfl⟩
  | failAdmin j =>
    obtain ⟨admin, -, rfl⟩ := Option.map_eq_some_iff.mp hs'
    exact iff_of_true (h.of rfl (fun _ hl => hl) (fun _ _ _ hf => hf) h.barred) trivial
  | unsuspendUser userId =>
    rw [execute] at hs'
    split at hs'
    · next hexists =>
      cases hs'
      exact (sessionsHold_unsuspend h hexists).trans ⟨fun hall _ => hall, fun hall => hall hexists⟩
    · cases hs'

/-- What cannot be done keeps it. -/
theorem kept_of_execute_eq_none (hs' : execute d s a = none) : Kept d s a := by
  cases a with
  | nextSignIn i o =>
    intro signIn hget row hrow
    rw [execute, Option.mem_def.mp hget, Option.bind_some, Store.nextSignIn] at hs'
    rw [Store.opens] at hrow
    split at hrow
    · next hphase =>
      rw [hphase] at hs'
      dsimp only at hs'
      split at hrow
      · cases hrow
      · next hdrawn =>
        rw [if_neg hdrawn] at hs'
        cases hs'
    all_goals cases hrow
  | nextRefresh k o =>
    intro refresh hget
    rw [execute, Option.mem_def.mp hget, Option.bind_some, Store.nextRefresh] at hs'
    rw [Store.succeeds, Refresh.answering]
    constructor
    · intro row hrow
      split at hrow
      · next hphase =>
        rw [hphase] at hs'
        cases hs'
      all_goals cases hrow
    · intro userId huser
      split at huser
      · next hphase =>
        rw [hphase] at hs'
        cases hs'
      all_goals cases huser
  | nextReset j =>
    intro reset hget generation hgeneration
    rw [execute, Option.mem_def.mp hget, Option.bind_some, Store.nextReset] at hs'
    rw [Reset.returning] at hgeneration
    split at hgeneration
    · next hphase =>
      rw [hphase] at hs'
      cases hs'
    all_goals cases hgeneration
  | nextAdmin j =>
    intro admin hget seen hseen
    rw [execute, Option.mem_def.mp hget, Option.bind_some, Store.nextAdmin] at hs'
    rw [Admin.signingOut] at hseen
    split at hseen
    · next hkind hphase =>
      rw [hphase, hkind] at hs'
      cases hs'
    all_goals cases hseen
  | unsuspendUser userId =>
    intro hexists
    rw [execute, if_pos hexists] at hs'
    cases hs'
  | _ => exact trivial

theorem step_cases (hs' : step d s a = some s') :
    execute d s a = some s' ∨ (execute d s a = none ∧ s' = s) :=
  eq_some_or_of_getD hs'

end

theorem sound_start (now : Int) : Sound (start now) := by
  refine ⟨List.nodup_nil, fun row hrow => ?_, fun refresh hrefresh => ?_,
    fun session hsession => ?_, fun signIn hsignIn => ?_, fun admin hadmin => ?_⟩
  · cases hrow
  · cases hrefresh
  · cases hsession
  · cases hsignIn
  · cases hadmin

theorem sessionsHold_start (now : Int) : SessionsHold (start now) := by
  refine ⟨fun session hsession => ?_, fun refresh hrefresh => ?_⟩
  · cases hsession
  · cases hrefresh

/-- Passwords and codes in the clear. -/
def clear : Deployment where
  totp :=
    { normalize := id
      lower := id
      argon2 := fun hash password => hash == password
      totp := fun _ code secret => code == secret
      hashRecoveryCode := fun salt code => salt ++ code
      verifyRecoveryCode := fun hash code => hash == code }
  refresh := ⟨id, 30⟩

def ana : Totp.User where
  id := 1
  email := "ana@example.com"
  passwordHash := some "old"
  suspendedAt := none
  totpSecret := none
  totpEnabledAt := none

def drawing (familyId id : Uuid) (token : String) : Outside :=
  ⟨some ⟨"w", "owner"⟩, familyId, ⟨id, token⟩⟩

/-- The password is reset between the check of the old one and the insert of the refresh token. -/
def resetBeforeInsert : List Action :=
  [.signUp ana, .login "ana@example.com" "old", .nextSignIn 0 (drawing 7 10 "t"),
    .confirmPasswordReset 1 "new", .nextReset 0, .nextReset 0, .nextReset 0, .nextReset 0,
    .nextSignIn 0 (drawing 7 10 "t")]

/-- The user is suspended between the read of the user and the answer of a refresh. -/
def suspendedBeforeAnswer : List Action :=
  [.signUp ana, .login "ana@example.com" "old", .nextSignIn 0 (drawing 7 10 "t"),
    .nextSignIn 0 (drawing 7 10 "t"), .refresh "t", .nextRefresh 0 (drawing 0 11 "u"),
    .nextRefresh 0 (drawing 0 0 ""), .nextRefresh 0 (drawing 0 0 ""),
    .nextRefresh 0 (drawing 0 0 ""), .nextRefresh 0 (drawing 0 0 ""), .admin .suspend 1,
    .nextAdmin 0, .nextAdmin 0, .nextRefresh 0 (drawing 0 0 "")]

/-- The user signs in, and every device is signed out before the refresh token is stored. -/
def signedOutBeforeInsert : List Action :=
  [.signUp ana, .login "ana@example.com" "old", .nextSignIn 0 (drawing 7 10 "t"),
    .admin .signOutEverywhere 1, .nextAdmin 0, .nextAdmin 0, .nextSignIn 0 (drawing 7 10 "t")]

/-- Ana is signed in on two devices, is suspended and let in again, and signs in afresh. -/
def suspendedAndBack : List Action :=
  [.signUp ana, .login "ana@example.com" "old", .nextSignIn 0 (drawing 7 10 "t"),
    .nextSignIn 0 (drawing 7 10 "t"), .oauthSignIn 1, .nextSignIn 1 (drawing 8 11 "u"),
    .nextSignIn 1 (drawing 8 11 "u"), .admin .suspend 1, .nextAdmin 0, .nextAdmin 0, .refresh "t",
    .unsuspendUser 1, .login "ana@example.com" "old", .nextSignIn 2 (drawing 9 12 "v"),
    .nextSignIn 2 (drawing 9 12 "v")]

end SnapUrl.Auth.SignIns
