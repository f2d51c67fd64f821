import SnapUrl.Auth.MailTokens

/-!
# The newest link

* `newest_commit`: a commit leaves one link that works exactly when no other was issued since its
  update began.
* `Sound`: what holds of consumptions whatever else happens.
* `tokensHold_iff`: **one link works, once and as a whole, throughout a run exactly when no issue
  crosses another and no reset fails halfway**.
-/

namespace SnapUrl.Auth.MailTokens

open Lib

/-! ### Superseding -/

section

variable {row : Token} {kind : Kind} {userId : Nat} {at_ now : Int}

theorem kind_supersede : (row.supersede kind userId at_).kind = row.kind := by
  rw [Token.supersede]
  split <;> rfl

theorem userId_supersede : (row.supersede kind userId at_).userId = row.userId := by
  rw [Token.supersede]
  split <;> rfl

theorem usable_use : (row.use at_).usable now = false := rfl

/-- What is superseded works less than before. -/
theorem usable_supersede (h : row.usable now = false) :
    (row.supersede kind userId at_).usable now = false := by
  rw [Token.supersede]
  split
  · rfl
  · exact h

/-- Nothing of the user that is superseded works. -/
theorem usable_supersede_of_eq (hkind : row.kind = kind) (huser : row.userId = userId) :
    (row.supersede kind userId at_).usable now = false := by
  rw [Token.supersede]
  split
  · rfl
  · next hused =>
    rw [Token.usable]
    rw [Token.isUnusedOf, hkind, huser, decide_eq_true rfl, decide_eq_true rfl, Bool.true_and,
      Bool.true_and, Bool.not_eq_true] at hused
    rw [hused, Bool.false_and]

theorem isSome_supersede (h : row.usedAt.isSome = true) :
    (row.supersede kind userId at_).usedAt.isSome = true := by
  rw [Token.supersede]
  split
  · rfl
  · exact h

end

/-- Older tokens work less as time goes by. -/
theorem usable_mono {row : Token} {now now' : Int} (hle : now ≤ now')
    (h : row.usable now = false) : row.usable now' = false := by
  rw [Token.usable, Bool.and_eq_false_iff, decide_eq_false_iff_not] at *
  exact h.imp_right fun h => by omega

section

variable {d : Deployment} {s : Store} {j seen : Nat} {issue : Issue} {at_ : Int}

/-- **A commit leaves one link that works exactly when no other that works was issued since its
update began.** -/
theorem newest_commit (h : s.tokens.Pairwise (Outdated s.now)) :
    (s.commit d j issue seen at_).tokens.Pairwise (Outdated s.now) ↔
      ∀ row ∈ s.tokens.drop seen, row.kind = issue.kind → row.userId = issue.userId →
        row.usable s.now = false := by
  have hsplit := h
  rw [← List.take_append_drop seen s.tokens, List.pairwise_append] at hsplit
  obtain ⟨hfirst, hlast, hcross⟩ := hsplit
  change ((s.tokens.take seen).map (·.supersede issue.kind issue.userId at_) ++
    s.tokens.drop seen ++ [issue.row d]).Pairwise (Outdated s.now) ↔ _
  rw [List.pairwise_append]
  constructor
  · rintro ⟨-, -, hall⟩ row hrow hkind huser
    exact hall row (List.mem_append_right _ hrow) _ (List.mem_singleton.mpr rfl) hkind huser
  · intro hnone
    refine ⟨?_, List.pairwise_singleton _ _, ?_⟩
    · refine List.pairwise_append.mpr ⟨List.pairwise_map.mpr (hfirst.imp ?_), hlast, ?_⟩
      · intro older newer houtdated hkind huser
        rw [kind_supersede, kind_supersede] at hkind
        rw [userId_supersede, userId_supersede] at huser
        exact usable_supersede (houtdated hkind huser)
      · intro row hrow newer hnewer hkind huser
        obtain ⟨older, holder, rfl⟩ := List.mem_map.mp hrow
        rw [kind_supersede] at hkind
        rw [userId_supersede] at huser
        exact usable_supersede (hcross older holder newer hnewer hkind huser)
    · intro row hrow newer hnewer hkind huser
      obtain rfl := List.mem_singleton.mp hnewer
      rcases List.mem_append.mp hrow with hseen | hunseen
      · obtain ⟨older, -, rfl⟩ := List.mem_map.mp hseen
        rw [kind_supersede] at hkind
        rw [userId_supersede] at huser
        exact usable_supersede_of_eq hkind huser
      · exact hnone row hunseen hkind huser

/-- A token that is consumed works no more. -/
theorem newest_use (h : s.tokens.Pairwise (Outdated s.now)) {position : Nat} {row : Token}
    (hrow : s.tokens[position]? = some row) :
    (s.tokens.set position (row.use at_)).Pairwise (Outdated s.now) := by
  obtain ⟨pre, post, hsplit, hset⟩ := exists_split_of_getElem? hrow
  rw [hset]
  rw [hsplit, List.pairwise_append, List.pairwise_cons] at h
  obtain ⟨hpre, ⟨-, hpost⟩, hcross⟩ := h
  refine List.pairwise_append.mpr ⟨hpre, List.pairwise_cons.mpr ⟨fun _ _ _ _ => usable_use, hpost⟩,
    fun older holder newer hnewer => ?_⟩
  rcases List.mem_cons.mp hnewer with rfl | hnewer
  · exact hcross older holder row List.mem_cons_self
  · exact hcross older holder newer (List.mem_cons_of_mem _ hnewer)

end

/-! ### Consumptions -/

/-- The token is used. -/
def Store.Used (s : Store) (position : Nat) : Prop :=
  ∃ row, s.tokens[position]? = some row ∧ row.usedAt.isSome = true

/-- What a call that consumes may rely on. -/
structure Consumption.Sound (s : Store) (call : Consumption) : Prop where
  used : ∀ position ∈ call.spent, s.Used position
  begun : call.phase = .begun → call.spent = none ∧ call.changed = none
  consumed : ∀ userId, call.phase = .consumed userId → call.changed = none
  unfinished : call.unfinished = true → call.spent ≠ none
  changed : ∀ userId, call.phase = .passwordSet userId ∨ call.hasReset userId →
    call.changed = some userId

/-- The password of whoever has had it set is one that was asked for. -/
def Store.PasswordsAsked (d : Deployment) (s : Store) : Prop :=
  ∀ call ∈ s.consumptions, ∀ userId, call.changed = some userId →
    ∃ other ∈ s.consumptions, other.changed = some userId ∧
      s.passwords userId = some (d.argon2 other.newPassword)

/-- Whoever has reset has no session left. -/
def Store.SignedOut (s : Store) : Prop :=
  ∀ call ∈ s.consumptions, ∀ userId, call.hasReset userId →
    ∀ session ∈ s.sessions, session.userId = userId → session.revokedAt.isSome = true

/-- **What holds of consumptions, whatever else happens.** -/
structure Sound (d : Deployment) (s : Store) : Prop where
  calls : ∀ call ∈ s.consumptions, call.Sound s
  once : s.consumptions.Pairwise Apart
  passwords : s.PasswordsAsked d
  signedOut : s.SignedOut

theorem Apart.symm {call other : Consumption} (h : Apart call other) : Apart other call :=
  fun position hother hcall => h position hcall hother

theorem Consumption.Sound.mono {s s' : Store} {call : Consumption} (h : call.Sound s)
    (hused : ∀ position, s.Used position → s'.Used position) : call.Sound s' :=
  ⟨fun position hspent => hused position (h.used position hspent), h.begun, h.consumed, h.unfinished,
    h.changed⟩

section

variable {d : Deployment} {s s' : Store} {call call' : Consumption} {i : Nat}

/-- One call goes on. -/
theorem Sound.put (h : Sound d s) (hcalls : s'.consumptions = s.consumptions.set i call')
    (hused : ∀ position, s.Used position → s'.Used position) (hcall' : call'.Sound s')
    (hapart : ∀ other ∈ s.consumptions.eraseIdx i, Apart call' other)
    (hpasswords : s'.PasswordsAsked d) (hsignedOut : s'.SignedOut) : Sound d s' := by
  refine ⟨fun other hother => ?_, ?_, hpasswords, hsignedOut⟩
  · rw [hcalls] at hother
    rcases eq_or_mem_eraseIdx_of_mem_set hother with rfl | hold
    · exact hcall'
    · exact (h.calls other (List.mem_of_mem_eraseIdx hold)).mono hused
  · rw [hcalls]
    exact pairwise_set Apart.symm h.once hapart

/-- A call that consumes nothing stays apart from others. -/
theorem apart_of_spent_eq (h : Sound d s) (hcall : s.consumptions[i]? = some call)
    (hspent : call'.spent = call.spent) : ∀ other ∈ s.consumptions.eraseIdx i, Apart call' other := by
  intro other hother position hposition
  rw [hspent] at hposition
  exact pairwise_others Apart.symm h.once hcall other hother position hposition

/-- A call that sets no password leaves passwords as they were asked for. -/
theorem passwordsAsked_set (h : s.PasswordsAsked d) (hcall : s.consumptions[i]? = some call)
    (hcalls : s'.consumptions = s.consumptions.set i call') (hpasswords : s'.passwords = s.passwords)
    (hchanged : call'.changed = call.changed) (hnew : call'.newPassword = call.newPassword) :
    s'.PasswordsAsked d := by
  intro other hother userId huser
  have hold : ∃ before ∈ s.consumptions, before.changed = some userId := by
    rw [hcalls] at hother
    rcases eq_or_mem_eraseIdx_of_mem_set hother with rfl | hmem
    · exact ⟨call, List.mem_of_getElem? hcall, hchanged ▸ huser⟩
    · exact ⟨other, List.mem_of_mem_eraseIdx hmem, huser⟩
  obtain ⟨before, hbefore, hset⟩ := hold
  obtain ⟨asked, hasked, hby, hpassword⟩ := h before hbefore userId hset
  rw [hpasswords, hcalls]
  rcases eq_or_mem_set_of_mem hcall call' hasked with rfl | hmem
  · refine ⟨call', List.mem_set (List.getElem?_eq_some_iff.mp hcall).1 _, hchanged ▸ hby, ?_⟩
    rw [hnew]
    exact hpassword
  · exact ⟨asked, hmem, hby, hpassword⟩

/-- A call that does not end a reset leaves everyone signed out. -/
theorem signedOut_set (h : s.SignedOut) (hcalls : s'.consumptions = s.consumptions.set i call')
    (hsessions : s'.sessions = s.sessions) (hreset : ∀ userId, ¬ call'.hasReset userId) :
    s'.SignedOut := by
  intro other hother userId huser session hsession
  rw [hcalls] at hother
  rw [hsessions] at hsession
  rcases eq_or_mem_eraseIdx_of_mem_set hother with rfl | hmem
  · exact absurd huser (hreset userId)
  · exact h other (List.mem_of_mem_eraseIdx hmem) userId huser session hsession

/-- A call that goes no further than its phase. -/
theorem Sound.set_phase {phase : ConsumptionPhase} (h : Sound d s)
    (hcall : s.consumptions[i]? = some call) (hover : phase = .failed ∨ ∃ m, phase = .refused m) :
    Sound d (s.set i { call with phase := phase }) := by
  have hreset : ∀ userId, ¬ Consumption.hasReset { call with phase := phase } userId := by
    rintro userId ⟨-, hreturned⟩
    rcases hover with rfl | ⟨m, rfl⟩
    · cases hreturned
    · cases hreturned
  refine h.put rfl (fun _ hused => hused) ⟨?_, ?_, ?_, ?_, ?_⟩ (apart_of_spent_eq h hcall rfl)
    (passwordsAsked_set h.passwords hcall rfl rfl rfl rfl) (signedOut_set h.signedOut rfl rfl hreset)
  · exact (h.calls call (List.mem_of_getElem? hcall)).used
  · rcases hover with rfl | ⟨m, rfl⟩
    · exact ConsumptionPhase.noConfusion
    · exact ConsumptionPhase.noConfusion
  · rcases hover with rfl | ⟨m, rfl⟩
    · exact fun _ => ConsumptionPhase.noConfusion
    · exact fun _ => ConsumptionPhase.noConfusion
  · rcases hover with rfl | ⟨m, rfl⟩
    · exact Bool.noConfusion
    · exact Bool.noConfusion
  · rintro userId (hset | hreturned)
    · rcases hover with rfl | ⟨m, rfl⟩
      · cases hset
      · cases hset
    · exact absurd hreturned (hreset userId)

/-- What is redeemed works. -/
theorem usable_of_redeemable {position : Nat} {row : Token} (h : s.redeemable d call = some position)
    (hrow : s.tokens[position]? = some row) : row.usedAt = none := by
  obtain ⟨hlt, htest, -⟩ := List.findIdx?_eq_some_iff_getElem.mp h
  obtain ⟨_, rfl⟩ := List.getElem?_eq_some_iff.mp hrow
  rw [Bool.and_eq_true, Token.usable] at htest
  exact Option.isNone_iff_eq_none.mp ((Bool.and_eq_true _ _).mp htest.2).1

/-- A used token stays used where another is used. -/
theorem used_set {position other : Nat} {row : Token} {at_ : Int}
    (hrow : s.tokens[position]? = some row)
    (htokens : s'.tokens = s.tokens.set position (row.use at_)) (h : s.Used other) :
    s'.Used other := by
  obtain ⟨row', hrow', hused⟩ := h
  rw [Store.Used, htokens]
  by_cases hother : position = other
  · subst hother
    exact ⟨row.use at_, List.getElem?_set_self (List.getElem?_eq_some_iff.mp hrow).1, rfl⟩
  · exact ⟨row', by rw [List.getElem?_set_ne hother]; exact hrow', hused⟩

/-- **A token is consumed that no other call has consumed.** -/
theorem Sound.consume (h : Sound d s) (hcall : s.consumptions[i]? = some call)
    (hphase : call.phase = .begun) (hs' : s.consume d i call = some s') : Sound d s' := by
  rw [Store.consume] at hs'
  split at hs'
  · cases hs'
    exact h.set_phase hcall (Or.inr ⟨_, rfl⟩)
  · next position hredeemable =>
    obtain ⟨row, hrow, hset⟩ := Option.bind_eq_some_iff.mp hs'
    split at hset
    · cases hset
      have hunused := usable_of_redeemable hredeemable hrow
      have hlt := (List.getElem?_eq_some_iff.mp hrow).1
      have hreset : ∀ userId, ¬ Consumption.hasReset { call with
          phase := afterConsumption call.kind row.userId, spent := some position } userId := by
        rintro userId ⟨hkind, hreturned⟩
        rw [show call.kind = .passwordReset from hkind] at hreturned
        cases hreturned
      refine h.put rfl (fun other hother => used_set hrow rfl hother) ⟨?_, ?_, ?_, ?_, ?_⟩ ?_
        (passwordsAsked_set h.passwords hcall rfl rfl rfl rfl)
        (signedOut_set h.signedOut rfl rfl hreset)
      · intro p hp
        obtain rfl := Option.mem_some_iff.mp hp
        exact ⟨row.use call.at_, List.getElem?_set_self hlt, rfl⟩
      · intro hbegun
        dsimp only at hbegun
        cases hkind : call.kind with
        | passwordReset => rw [hkind] at hbegun; cases hbegun
        | emailVerification => rw [hkind] at hbegun; cases hbegun
      · exact fun _ _ => ((h.calls call (List.mem_of_getElem? hcall)).begun hphase).2
      · exact fun _ => Option.some_ne_none position
      · rintro userId (hpassword | hreturned)
        · dsimp only at hpassword
          cases hkind : call.kind with
          | passwordReset => rw [hkind] at hpassword; cases hpassword
          | emailVerification => rw [hkind] at hpassword; cases hpassword
        · exact absurd hreturned (hreset userId)
      · intro other hother p hp hspent
        obtain rfl := Option.mem_some_iff.mp hp
        obtain ⟨row', hrow', hused⟩ :=
          (h.calls other (List.mem_of_mem_eraseIdx hother)).used _ hspent
        obtain rfl := Option.some.inj (hrow.symm.trans hrow')
        rw [hunused] at hused
        cases hused
    · cases hset

/-- A password is set. -/
theorem Sound.setPassword {userId : Nat} (h : Sound d s) (hcall : s.consumptions[i]? = some call)
    (hphase : call.phase = .consumed userId) : Sound d (s.setPassword d i call userId) := by
  have hcallSound := h.calls call (List.mem_of_getElem? hcall)
  have hlt := (List.getElem?_eq_some_iff.mp hcall).1
  refine h.put rfl (fun _ hused => hused) ⟨hcallSound.used, ConsumptionPhase.noConfusion,
      fun _ => ConsumptionPhase.noConfusion, ?_, ?_⟩ (apart_of_spent_eq h hcall rfl) ?_
    (signedOut_set h.signedOut rfl rfl ?_)
  · exact fun _ => hcallSound.unfinished (by rw [Consumption.unfinished, hphase])
  · rintro other (hset | ⟨-, hreturned⟩)
    · rw [ConsumptionPhase.passwordSet.inj hset]
    · cases hreturned
  · intro other hother userId' huser
    change ∃ asked ∈ s.consumptions.set i _, _ ∧ Function.update s.passwords userId _ userId' = _
    by_cases hsame : userId' = userId
    · subst hsame
      exact ⟨_, List.mem_set hlt _, rfl, Function.update_self _ _ _⟩
    · rw [Function.update_of_ne hsame]
      rcases eq_or_mem_eraseIdx_of_mem_set hother with rfl | hmem
      · exact absurd (Option.some.inj huser).symm hsame
      · obtain ⟨asked, hasked, hby, hpassword⟩ :=
          h.passwords other (List.mem_of_mem_eraseIdx hmem) userId' huser
        rcases eq_or_mem_set_of_mem hcall { call with
          phase := .passwordSet userId, changed := some userId } hasked with rfl | hset
        · rw [hcallSound.consumed userId hphase] at hby
          cases hby
        · exact ⟨asked, hset, hby, hpassword⟩
  · rintro userId' ⟨-, hreturned⟩
    cases hreturned

/-- The sessions of a user are revoked. -/
theorem isSome_revoke {userId : Nat} {now : Int} {session : Session}
    (h : session.revokedAt.isSome = true ∨ session.userId = userId) :
    (session.revoke userId now).revokedAt.isSome = true := by
  rw [Session.revoke]
  split
  · rfl
  · next hnot =>
    refine h.elim id fun huser => ?_
    rw [decide_eq_true huser, Bool.true_and, Bool.not_eq_true, Option.isNone_eq_false_iff] at hnot
    exact hnot

theorem userId_revoke {userId : Nat} {now : Int} {session : Session} :
    (session.revoke userId now).userId = session.userId := by
  rw [Session.revoke]
  split <;> rfl

/-- A reset ends. -/
theorem Sound.revokeAllForUser {userId : Nat} (h : Sound d s)
    (hcall : s.consumptions[i]? = some call) (hphase : call.phase = .passwordSet userId) :
    Sound d (s.revokeAllForUser i call userId) := by
  have hcallSound := h.calls call (List.mem_of_getElem? hcall)
  refine h.put rfl (fun _ hused => hused) ⟨hcallSound.used, ConsumptionPhase.noConfusion,
      fun _ => ConsumptionPhase.noConfusion, Bool.noConfusion, ?_⟩ (apart_of_spent_eq h hcall rfl)
    (passwordsAsked_set h.passwords hcall rfl rfl rfl rfl) ?_
  · rintro other (hset | ⟨-, hreturned⟩)
    · cases hset
    · rw [← ConsumptionPhase.returned.inj hreturned]
      exact hcallSound.changed userId (Or.inl hphase)
  · intro other hother userId' huser session hsession hof
    obtain ⟨before, hbefore, rfl⟩ := List.mem_map.mp hsession
    rw [userId_revoke] at hof
    rcases eq_or_mem_eraseIdx_of_mem_set hother with rfl | hmem
    · refine isSome_revoke (Or.inr ?_)
      rw [hof, ← ConsumptionPhase.returned.inj huser.2]
    · exact isSome_revoke (Or.inl
        (h.signedOut other (List.mem_of_mem_eraseIdx hmem) userId' huser before hbefore hof))

/-- The next statement of a call that consumes. -/
theorem Sound.next (h : Sound d s) (hcall : s.consumptions[i]? = some call)
    (hs' : s.next d i call = some s') : Sound d s' := by
  rw [Store.next] at hs'
  split at hs'
  · next hphase => exact h.consume hcall hphase hs'
  · next userId hphase =>
    cases hs'
    exact h.setPassword hcall hphase
  · next userId hphase =>
    cases hs'
    exact h.revokeAllForUser hcall hphase
  all_goals cases hs'

/-- What issues does nothing to consumptions, and leaves used tokens used. -/
theorem Sound.issues (h : Sound d s) (hconsumptions : s'.consumptions = s.consumptions)
    (hpasswords : s'.passwords = s.passwords) (hsessions : s'.sessions = s.sessions)
    (hused : ∀ position, s.Used position → s'.Used position) : Sound d s' := by
  refine ⟨?_, hconsumptions ▸ h.once, ?_, ?_⟩
  · rw [hconsumptions]
    exact fun call hcall => (h.calls call hcall).mono hused
  · rw [Store.PasswordsAsked, hconsumptions, hpasswords]
    exact h.passwords
  · rw [Store.SignedOut, hconsumptions, hsessions]
    exact h.signedOut

/-- A used token stays used where a transaction commits. -/
theorem used_commit {j seen position : Nat} {issue : Issue} {at_ : Int} (h : s.Used position) :
    (s.commit d j issue seen at_).Used position := by
  obtain ⟨row, hrow, hused⟩ := h
  obtain ⟨hlt, rfl⟩ := List.getElem?_eq_some_iff.mp hrow
  by_cases hseen : position < seen
  · refine ⟨s.tokens[position].supersede issue.kind issue.userId at_, ?_, isSome_supersede hused⟩
    change (_ ++ _ ++ _)[position]? = _
    rw [List.append_assoc, List.getElem?_append_left, List.getElem?_map, List.getElem?_take_of_lt hseen,
      hrow]
    · rfl
    · rw [List.length_map, List.length_take]
      omega
  · refine ⟨s.tokens[position], ?_, hused⟩
    change (_ ++ _ ++ _)[position]? = _
    rw [List.append_assoc, List.getElem?_append_right, List.getElem?_append_left, List.getElem?_drop,
      List.length_map, List.length_take]
    · rw [← hrow]
      congr 1
      omega
    · rw [List.length_map, List.length_take, List.length_drop]
      omega
    · rw [List.length_map, List.length_take]
      omega

/-! ### Steps -/

/-- **What holds of consumptions is kept by every step.** -/
theorem sound_execute {a : Action} (h : Sound d s) (hs' : execute d s a = some s') : Sound d s' := by
  cases a with
  | tick ms =>
    cases hs'
    exact h.issues rfl rfl rfl fun _ hused => hused
  | issue kind userId token =>
    cases hs'
    exact h.issues rfl rfl rfl fun _ hused => hused
  | nextIssue j =>
    obtain ⟨issue, -, hnext⟩ := Option.bind_eq_some_iff.mp hs'
    rw [Store.nextIssue] at hnext
    split at hnext
    · cases hnext
      exact h.issues rfl rfl rfl fun _ hused => hused
    · split at hnext
      · cases hnext
        exact h.issues rfl rfl rfl fun _ hused => hused
      · cases hnext
    · split at hnext
      · cases hnext
        exact h.issues rfl rfl rfl fun _ hused => hused
      · cases hnext
        exact h.issues rfl rfl rfl fun _ hused => hused
    · cases hnext
      exact h.issues rfl rfl rfl fun _ hused => used_commit hused
    all_goals cases hnext
  | failIssue j =>
    obtain ⟨issue, -, rfl⟩ := Option.map_eq_some_iff.mp hs'
    exact h.issues rfl rfl rfl fun _ hused => hused
  | consume kind token newPassword =>
    cases hs'
    refine ⟨fun call hcall => ?_, ?_, ?_, ?_⟩
    · rcases List.mem_append.mp hcall with hold | hnew
      · exact (h.calls call hold).mono fun _ hused => hused
      · rw [List.mem_singleton.mp hnew]
        refine ⟨fun _ hspent => ?_, fun _ => ⟨rfl, rfl⟩, fun _ _ => rfl, Bool.noConfusion, ?_⟩
        · cases hspent
        · rintro userId (hset | ⟨-, hreturned⟩)
          · cases hset
          · cases hreturned
    · refine List.pairwise_append.mpr ⟨h.once, List.pairwise_singleton _ _, ?_⟩
      intro other _ call hcall position _ hspent
      rw [List.mem_singleton.mp hcall] at hspent
      cases hspent
    · intro call hcall userId hchanged
      rcases List.mem_append.mp hcall with hold | hnew
      · obtain ⟨other, hother, hasked⟩ := h.passwords call hold userId hchanged
        exact ⟨other, List.mem_append_left _ hother, hasked⟩
      · rw [List.mem_singleton.mp hnew] at hchanged
        cases hchanged
    · intro call hcall userId huser
      rcases List.mem_append.mp hcall with hold | hnew
      · exact h.signedOut call hold userId huser
      · rw [List.mem_singleton.mp hnew] at huser
        cases huser.2
  | next i =>
    obtain ⟨call, hcall, hnext⟩ := Option.bind_eq_some_iff.mp hs'
    exact h.next hcall hnext
  | fail i =>
    obtain ⟨call, hcall, rfl⟩ := Option.map_eq_some_iff.mp hs'
    exact h.set_phase (Option.filter_eq_some_iff.mp hcall).1 (Or.inl rfl)

/-- No call that has failed has consumed a token. -/
def Store.Whole (s : Store) : Prop :=
  ∀ call ∈ s.consumptions, call.phase = .failed → call.spent = none

theorem tokensHold_iff_of_sound (h : Sound d s) :
    TokensHold d s ↔ s.tokens.Pairwise (Outdated s.now) ∧ s.Whole := by
  refine ⟨fun hp => ⟨hp.newest, hp.whole⟩, fun hp => ⟨hp.1, h.once, hp.2, ?_, h.signedOut⟩⟩
  intro call hcall userId huser
  exact h.passwords call hcall userId ((h.calls call hcall).changed userId (Or.inr huser))

/-- A call that does not fail. -/
theorem whole_set (h : s.Whole) (hcalls : s'.consumptions = s.consumptions.set i call')
    (hphase : call'.phase ≠ .failed) : s'.Whole := by
  intro other hother hfailed
  rw [hcalls] at hother
  rcases eq_or_mem_eraseIdx_of_mem_set hother with rfl | hold
  · exact absurd hfailed hphase
  · exact h other (List.mem_of_mem_eraseIdx hold) hfailed

/-- **An issue keeps one link that works exactly when it crosses no other.** -/
theorem newest_nextIssue {j : Nat} {issue : Issue} (h : s.tokens.Pairwise (Outdated s.now))
    (hs' : s.nextIssue d j issue = some s') :
    s'.tokens.Pairwise (Outdated s'.now) ↔ ∀ seen ∈ issue.committing,
      ∀ row ∈ s.tokens.drop seen, row.kind = issue.kind → row.userId = issue.userId →
        row.usable s.now = false := by
  rw [Store.nextIssue] at hs'
  rw [Issue.committing]
  split at hs'
  · next hphase =>
    cases hs'
    rw [hphase]
    exact iff_of_true h fun _ hseen => by cases hseen
  · next hphase =>
    rw [hphase]
    split at hs'
    · cases hs'
      exact iff_of_true h fun _ hseen => by cases hseen
    · cases hs'
  · next hphase =>
    rw [hphase]
    split at hs'
    · cases hs'
      exact iff_of_true h fun _ hseen => by cases hseen
    · cases hs'
      exact iff_of_true h fun _ hseen => by cases hseen
  · next seen at_ hphase =>
    cases hs'
    rw [hphase]
    refine (newest_commit h).trans ⟨fun hnone seen' hseen => ?_, fun hnone => hnone seen rfl⟩
    obtain rfl := Option.mem_some_iff.mp hseen
    exact hnone
  all_goals cases hs'

/-- A call that consumes keeps one link that works, and does not fail. -/
theorem newest_next (h : s.tokens.Pairwise (Outdated s.now)) (hw : s.Whole)
    (hs' : s.next d i call = some s') : s'.tokens.Pairwise (Outdated s'.now) ∧ s'.Whole := by
  rw [Store.next] at hs'
  split at hs'
  · rw [Store.consume] at hs'
    split at hs'
    · cases hs'
      exact ⟨h, whole_set hw rfl ConsumptionPhase.noConfusion⟩
    · obtain ⟨row, hrow, hset⟩ := Option.bind_eq_some_iff.mp hs'
      split at hset
      · cases hset
        refine ⟨newest_use h hrow, whole_set hw rfl ?_⟩
        dsimp only
        cases call.kind with
        | passwordReset => exact ConsumptionPhase.noConfusion
        | emailVerification => exact ConsumptionPhase.noConfusion
      · cases hset
  · cases hs'
    exact ⟨h, whole_set hw rfl ConsumptionPhase.noConfusion⟩
  · cases hs'
    exact ⟨h, whole_set hw rfl ConsumptionPhase.noConfusion⟩
  all_goals cases hs'

/-- A call that is neither over nor halfway has done nothing. -/
theorem begun_of_open (hopen : call.over = false) (hfinished : call.unfinished = false) :
    call.phase = .begun := by
  obtain ⟨kind, token, newPassword, at_, phase, spent, changed⟩ := call
  cases phase with
  | begun => rfl
  | consumed userId | passwordSet userId => cases hfinished
  | returned userId | refused message | failed => cases hopen

theorem open_of_unfinished (h : call.unfinished = true) : call.over = false := by
  obtain ⟨kind, token, newPassword, at_, phase, spent, changed⟩ := call
  cases phase with
  | consumed userId | passwordSet userId => rfl
  | _ => cases h

/-- A call fails with nothing consumed exactly when it is not halfway. -/
theorem whole_fail (h : Sound d s) (hw : s.Whole) (hcall : s.consumptions[i]? = some call)
    (hopen : call.over = false) :
    (s.set i { call with phase := .failed }).Whole ↔ call.unfinished = false := by
  have hlt := (List.getElem?_eq_some_iff.mp hcall).1
  constructor
  · intro hwhole
    have hnone : call.spent = none := hwhole { call with phase := .failed } (List.mem_set hlt _) rfl
    by_contra hunfinished
    exact (h.calls call (List.mem_of_getElem? hcall)).unfinished
      (Bool.not_eq_false _ ▸ hunfinished) hnone
  · intro hfinished other hother hfailed
    rcases eq_or_mem_eraseIdx_of_mem_set hother with rfl | hold
    · refine ((h.calls call (List.mem_of_getElem? hcall)).begun ?_).1
      exact begun_of_open hopen hfinished
    · exact hw other (List.mem_of_mem_eraseIdx hold) hfailed

/-- **A step keeps all that should hold exactly when it is one that does.** -/
theorem tokensHold_execute (h : Sound d s) (hp : TokensHold d s) {a : Action}
    (hs' : execute d s a = some s') : TokensHold d s' ↔ Kept s a := by
  have hnewest := hp.newest
  have hwhole : s.Whole := hp.whole
  refine (tokensHold_iff_of_sound (sound_execute h hs')).trans ?_
  cases a with
  | tick ms =>
    cases hs'
    refine iff_of_true ⟨hnewest.imp fun houtdated hkind huser => ?_, hwhole⟩ trivial
    exact usable_mono (by change s.now ≤ s.now + ms; omega) (houtdated hkind huser)
  | issue kind userId token =>
    cases hs'
    exact iff_of_true ⟨hnewest, hwhole⟩ trivial
  | nextIssue j =>
    obtain ⟨issue, hissue, hnext⟩ := Option.bind_eq_some_iff.mp hs'
    have hsame : s'.consumptions = s.consumptions := by
      rw [Store.nextIssue] at hnext
      split at hnext
      · cases hnext; rfl
      · split at hnext
        · cases hnext; rfl
        · cases hnext
      · split at hnext
        · cases hnext; rfl
        · cases hnext; rfl
      · cases hnext; rfl
      all_goals cases hnext
    have hwhole' : s'.Whole := by
      rw [Store.Whole, hsame]
      exact hwhole
    refine (and_iff_left hwhole').trans ((newest_nextIssue hnewest hnext).trans ?_)
    rw [Kept, hissue]
    exact ⟨fun hnone other hother => Option.mem_some_iff.mp hother ▸ hnone,
      fun hnone => hnone issue rfl⟩
  | failIssue j =>
    obtain ⟨issue, -, rfl⟩ := Option.map_eq_some_iff.mp hs'
    exact iff_of_true ⟨hnewest, hwhole⟩ trivial
  | consume kind token newPassword =>
    cases hs'
    refine iff_of_true ⟨hnewest, fun call hcall hfailed => ?_⟩ trivial
    rcases List.mem_append.mp hcall with hold | hnew
    · exact hwhole call hold hfailed
    · rw [List.mem_singleton.mp hnew]
  | next i =>
    obtain ⟨call, -, hnext⟩ := Option.bind_eq_some_iff.mp hs'
    exact iff_of_true (newest_next hnewest hwhole hnext) trivial
  | fail i =>
    obtain ⟨call, hcall, rfl⟩ := Option.map_eq_some_iff.mp hs'
    obtain ⟨hmem, hopen⟩ := Option.filter_eq_some_iff.mp hcall
    rw [Bool.not_eq_true'] at hopen
    refine (and_iff_right hnewest).trans ((whole_fail h hwhole hmem hopen).trans ?_)
    rw [Kept, hmem]
    exact ⟨fun hdone other hother => Option.mem_some_iff.mp hother ▸ hdone,
      fun hdone => hdone call rfl⟩

/-- What cannot be done breaks nothing. -/
theorem kept_of_execute_eq_none {a : Action} (hs' : execute d s a = none) : Kept s a := by
  cases a with
  | nextIssue j =>
    intro issue hissue seen hseen
    rw [execute, Option.mem_def.mp hissue, Option.bind_some, Store.nextIssue] at hs'
    rw [Issue.committing] at hseen
    split at hseen
    · next hphase =>
      rw [hphase] at hs'
      cases hs'
    all_goals cases hseen
  | fail i =>
    intro call hcall
    by_contra hunfinished
    have hopen := open_of_unfinished (Bool.not_eq_false _ ▸ hunfinished)
    rw [execute, Option.mem_def.mp hcall, Option.filter_some, hopen] at hs'
    cases hs'
  | _ => exact trivial

theorem step_cases {a : Action} (hs' : step d s a = some s') :
    execute d s a = some s' ∨ (execute d s a = none ∧ s' = s) :=
  eq_some_or_of_getD hs'

end

theorem sound_of_initial (d : Deployment) {start : Store} (h : Initial start) :
    Sound d start ∧ TokensHold d start := by
  have hsound : Sound d start := by
    refine ⟨?_, ?_, ?_, ?_⟩
    · rw [h.consumptions]
      exact fun _ hcall => absurd hcall List.not_mem_nil
    · rw [h.consumptions]
      exact List.Pairwise.nil
    · rw [Store.PasswordsAsked, h.consumptions]
      exact fun _ hcall => absurd hcall List.not_mem_nil
    · rw [Store.SignedOut, h.consumptions]
      exact fun _ hcall => absurd hcall List.not_mem_nil
  refine ⟨hsound, (tokensHold_iff_of_sound hsound).mpr ⟨h.newest, ?_⟩⟩
  rw [Store.Whole, h.consumptions]
  exact fun _ hcall => absurd hcall List.not_mem_nil

/-- **One link works, once and as a whole, throughout a run exactly when no issue commits after
another that its update did not see, and no reset fails halfway.** -/
theorem tokensHold_iff (d : Deployment) (start : Store) (hstart : Initial start)
    (actions : List Action) :
    (∀ pre post t, actions = pre ++ post → run (step d) start pre = some t → TokensHold d t) ↔
      Guarded (step d) Kept start actions := by
  obtain ⟨hsound, hhold⟩ := sound_of_initial d hstart
  refine (guarded_iff_holds_throughout_of_invariant (fun _ _ => rfl) ?_ ?_ hsound hhold).symm
  · intro s a s' h hs'
    rcases step_cases hs' with hexecute | ⟨-, rfl⟩
    · exact sound_execute h hexecute
    · exact h
  · intro s a s' h hp hs'
    rcases step_cases hs' with hexecute | ⟨hnone, rfl⟩
    · exact tokensHold_execute h hp hexecute
    · exact iff_of_true hp (kept_of_execute_eq_none hnone)

/-! ### Two requests beside each other -/

def plain : Deployment := ⟨fun s => "sha256 of " ++ s, fun s => "argon2 of " ++ s⟩

/-- A user with a password, a session and no link. -/
def oneUser : Store where
  now := 0
  tokens := []
  passwords := fun userId => if userId = 1 then some "argon2 of old" else none
  sessions := [⟨1, none⟩]
  issues := []
  consumptions := []

theorem initial_oneUser : Initial oneUser := ⟨rfl, rfl, List.Pairwise.nil⟩

/-- Two requests for a reset, whose updates begin before either commits. -/
def twoRequests : List Action :=
  [.issue .passwordReset 1 "a", .issue .passwordReset 1 "b", .nextIssue 0, .nextIssue 1,
    .nextIssue 0, .nextIssue 1, .nextIssue 0, .nextIssue 1, .nextIssue 0, .nextIssue 1]

/-- A reset that fails when its token is consumed. -/
def brokenReset : List Action :=
  [.issue .passwordReset 1 "a", .nextIssue 0, .nextIssue 0, .nextIssue 0, .nextIssue 0,
    .consume .passwordReset "a" "new", .next 0, .fail 0]

/-- **Two links work, and a reset fails with its link used up.** -/
theorem two_links_work :
    (¬ ∀ (d : Deployment) (start : Store) (actions : List Action) (s : Store), Initial start →
      run (step d) start actions = some s → s.tokens.Pairwise (Outdated s.now)) ∧
    ¬ ∀ (d : Deployment) (start : Store) (actions : List Action) (s : Store), Initial start →
      run (step d) start actions = some s →
        ∀ call ∈ s.consumptions, call.phase = .failed → call.spent = none := by
  constructor
  · intro h
    have hboth : (run (step plain) oneUser twoRequests).any (fun s =>
        decide (s.tokens = [⟨.passwordReset, 1, "sha256 of a", 3600000, none⟩,
          ⟨.passwordReset, 1, "sha256 of b", 3600000, none⟩] ∧ s.now = 0)) = true := by
      decide +kernel
    obtain ⟨s, hrun, hstate⟩ := (Option.any_eq_true _ _).mp hboth
    obtain ⟨htokens, hnow⟩ := of_decide_eq_true hstate
    have hnewest := h plain oneUser twoRequests s initial_oneUser hrun
    rw [htokens, hnow] at hnewest
    exact absurd ((List.pairwise_cons.mp hnewest).1 _ List.mem_cons_self rfl rfl) (by decide)
  · intro h
    have hbroken : (run (step plain) oneUser brokenReset).any (fun s =>
        decide (∃ call ∈ s.consumptions, call.phase = .failed ∧ call.spent = some 0)) = true := by
      decide +kernel
    obtain ⟨s, hrun, hstate⟩ := (Option.any_eq_true _ _).mp hbroken
    obtain ⟨call, hcall, hfailed, hspent⟩ := of_decide_eq_true hstate
    rw [h plain oneUser brokenReset s initial_oneUser hrun call hcall hfailed] at hspent
    cases hspent

/-- Two requests, one after the other, and a reset by the second link beside one by the first. -/
def requestsInTurn : List Action :=
  [.issue .passwordReset 1 "a", .nextIssue 0, .nextIssue 0, .nextIssue 0, .nextIssue 0, .tick 1000,
    .issue .passwordReset 1 "b", .nextIssue 1, .nextIssue 1, .nextIssue 1, .nextIssue 1,
    .consume .passwordReset "a" "older", .consume .passwordReset "b" "newer", .next 0, .next 1,
    .next 1, .next 1]

/-- All holds where requests come in turn and the reset ends. -/
theorem tokensHold_in_turn :
    Guarded (step plain) Kept oneUser requestsInTurn ∧
      ∀ pre post t, requestsInTurn = pre ++ post →
        run (step plain) oneUser pre = some t → TokensHold plain t := by
  have hkept : Guarded (step plain) Kept oneUser requestsInTurn := by decide +kernel
  exact ⟨hkept, (tokensHold_iff plain oneUser initial_oneUser requestsInTurn).mpr hkept⟩

end SnapUrl.Auth.MailTokens
