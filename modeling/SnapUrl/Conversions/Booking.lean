import Mathlib.Data.List.Pairwise
import SnapUrl.Conversions.Record
import SnapUrl.Redirect.Gate

/-!
# Bookings and their announcements

* `Bookings`: what holds of conversions and of the calls that book them.
* `Announcements`: what holds of the deliveries.
* `conversions_recorded`: **each external id is booked once, each booking that is announced is
  announced once to every webhook, and nothing else is announced**.
-/

namespace SnapUrl.Conversions

open Lib

/-! ### Calls -/

/-- **What a call may rely on.** -/
structure Call.Attributed (d : Deployment) (call : Call) : Prop where
  resolved : ∀ linkId, call.phase = .resolved linkId → call.Names d linkId
  priced : ∀ linkId currency, call.phase = .priced linkId currency → call.Names d linkId
  booked : ∀ row ∈ call.booked, call.Names d row.linkId ∧
    ∃ currency, row = call.conversion d row.id row.linkId currency

/-- Two calls have booked no conversion of one id. -/
def Apart (call other : Call) : Prop := ∀ row ∈ call.booked, ∀ row' ∈ other.booked, row.id ≠ row'.id

theorem Apart.symm {call other : Call} (h : Apart call other) : Apart other call :=
  fun row hrow row' hrow' => (h row' hrow' row hrow).symm

instance : Std.Symm Apart := ⟨fun _ _ => Apart.symm⟩

theorem booked_of_announced {call : Call} {row : Conversion} (h : row ∈ call.announced) :
    row ∈ call.booked := by
  obtain ⟨workspaceId, input, phase⟩ := call
  cases phase with
  | returned row' => exact h
  | _ => cases h

theorem answer_eq {call : Call} {result : RecordConversionResult} (h : result ∈ call.answer) :
    result = ⟨call.booked.map (·.id), call.booked.isSome⟩ := by
  obtain ⟨workspaceId, input, phase⟩ := call
  cases phase with
  | returned row => exact (Option.mem_some_iff.mp h).symm
  | unannounced row => exact (Option.mem_some_iff.mp h).symm
  | _ => cases h

/-- Who has nothing booked and is not on the way has nothing to answer for. -/
theorem attributed_of_over {d : Deployment} {call : Call} (hbooked : call.booked = none)
    (hresolved : ∀ linkId, call.phase ≠ .resolved linkId)
    (hpriced : ∀ linkId currency, call.phase ≠ .priced linkId currency) : call.Attributed d := by
  refine ⟨fun linkId h => absurd h (hresolved linkId), fun linkId currency h =>
    absurd h (hpriced linkId currency), fun row hrow => ?_⟩
  rw [hbooked] at hrow
  cases hrow

/-! ### Bookings -/

/-- **What holds of conversions and of the calls that book them.** -/
structure Bookings (d : Deployment) (start s : Store) : Prop where
  once : s.BookedOnce
  fresh : ∀ row ∈ s.conversions, row.id < s.nextId
  bound : start.nextId ≤ s.nextId
  booked : ∃ rows, s.conversions = start.conversions ++ rows ∧
    rows.Perm (s.calls.filterMap (·.booked))
  later : ∀ call ∈ s.calls, ∀ row ∈ call.booked, start.nextId ≤ row.id ∧ row.id < s.nextId
  apart : s.calls.Pairwise Apart
  attributed : ∀ call ∈ s.calls, call.Attributed d

section

variable {d : Deployment} {start s : Store} {call : Call} {i : Nat}

/-- A call that books nothing goes on. -/
theorem Bookings.set {call' : Call} {deliveries : List Delivery} (h : Bookings d start s)
    (hcall : s.calls[i]? = some call) (hbooked : call'.booked = call.booked)
    (hattributed : call'.Attributed d) :
    Bookings d start { s with deliveries := deliveries, calls := s.calls.set i call' } := by
  have hmem : call ∈ s.calls := List.mem_of_getElem? hcall
  refine ⟨h.once, h.fresh, h.bound, ?_, ?_, pairwise_set Apart.symm h.apart ?_, ?_⟩
  · obtain ⟨rows, hrows, hperm⟩ := h.booked
    refine ⟨rows, hrows, ?_⟩
    rw [filterMap_set_of_eq hcall hbooked]
    exact hperm
  · intro other hother row hrow
    rcases eq_or_mem_eraseIdx_of_mem_set hother with rfl | hold
    · rw [hbooked] at hrow
      exact h.later call hmem row hrow
    · exact h.later other (List.mem_of_mem_eraseIdx hold) row hrow
  · intro other hother row hrow
    rw [hbooked] at hrow
    exact pairwise_others Apart.symm h.apart hcall other hother row hrow
  · intro other hother
    rcases eq_or_mem_eraseIdx_of_mem_set hother with rfl | hold
    · exact hattributed
    · exact h.attributed other (List.mem_of_mem_eraseIdx hold)

/-- **A row is inserted where no other has its external id.** -/
theorem Bookings.insert {linkId : Option Nat} {currency : Option String} (h : Bookings d start s)
    (hcall : s.calls[i]? = some call) (hphase : call.phase = .priced linkId currency) :
    Bookings d start (s.insert i call (call.conversion d s.nextId linkId currency)) := by
  have hmem : call ∈ s.calls := List.mem_of_getElem? hcall
  have hnone : call.booked = none := by rw [Call.booked, hphase]
  have hnames := (h.attributed call hmem).priced linkId currency hphase
  rw [Store.insert]
  split
  · exact h.set hcall hnone.symm (attributed_of_over rfl (fun _ => Phase.noConfusion)
      (fun _ _ => Phase.noConfusion))
  · next hfree =>
    generalize hrow : call.conversion d s.nextId linkId currency = row at hfree ⊢
    have hid : row.id = s.nextId := hrow ▸ rfl
    refine ⟨?_, ?_, h.bound.trans (Nat.le_succ _), ?_, ?_, pairwise_set Apart.symm h.apart ?_, ?_⟩
    · refine List.pairwise_append.mpr ⟨h.once, List.pairwise_singleton _ _, ?_⟩
      intro other hother row' hrow' hconflict
      obtain rfl := List.mem_singleton.mp hrow'
      refine hfree (List.any_eq_true.mpr ⟨other, hother, decide_eq_true ?_⟩)
      obtain ⟨hsome, hworkspace, hexternal⟩ := hconflict
      exact ⟨hexternal ▸ hsome, hworkspace.symm, hexternal.symm⟩
    · intro other hother
      rcases List.mem_append.mp hother with hold | hnew
      · exact (h.fresh other hold).trans (Nat.lt_succ_self _)
      · rw [List.mem_singleton.mp hnew, hid]
        exact Nat.lt_succ_self _
    · obtain ⟨rows, hrows, hperm⟩ := h.booked
      refine ⟨rows ++ [row], by rw [hrows, List.append_assoc], ?_⟩
      exact (hperm.append_right [row]).trans (filterMap_set_perm hcall hnone rfl)
    · intro other hother row' hrow'
      rcases eq_or_mem_eraseIdx_of_mem_set hother with rfl | hold
      · obtain rfl := Option.mem_some_iff.mp hrow'
        rw [hid]
        exact ⟨h.bound, Nat.lt_succ_self _⟩
      · obtain ⟨hle, hlt⟩ := h.later other (List.mem_of_mem_eraseIdx hold) row' hrow'
        exact ⟨hle, hlt.trans (Nat.lt_succ_self _)⟩
    · intro other hother row' hrow' otherRow hotherRow
      obtain rfl := Option.mem_some_iff.mp hrow'
      rw [hid]
      exact (h.later other (List.mem_of_mem_eraseIdx hother) otherRow hotherRow).2.ne'
    · intro other hother
      rcases eq_or_mem_eraseIdx_of_mem_set hother with rfl | hold
      · refine ⟨fun _ => Phase.noConfusion, fun _ _ => Phase.noConfusion, fun row' hrow' => ?_⟩
        obtain rfl := Option.mem_some_iff.mp hrow'
        subst hrow
        exact ⟨hnames, currency, rfl⟩
      · exact h.attributed other (List.mem_of_mem_eraseIdx hold)

/-- The link that a call finds is one that it names. -/
theorem names_of_resolve {answer linkId : Option Nat}
    (h : call.resolve d answer = some (.resolved linkId)) : call.Names d linkId := by
  rw [Call.resolve] at h
  rw [Call.Names]
  cases hid : call.input.linkId with
  | some id =>
    rw [hid] at h
    dsimp only at h ⊢
    split at h
    · next hlink =>
      cases h
      exact ⟨rfl, hlink⟩
    · cases h
  | none =>
    rw [hid] at h
    cases hslug : call.input.slug.filter (· ≠ "") with
    | none =>
      rw [hslug] at h
      cases h
      rfl
    | some slug =>
      rw [hslug] at h
      dsimp only at h ⊢
      split at h
      · next hanswer =>
        cases answer with
        | none => cases h
        | some id =>
          cases h
          rw [Deployment.answers] at hanswer
          split at hanswer
          · cases List.mem_singleton.mp hanswer
          · obtain ⟨link, hlink, heq⟩ := List.mem_map.mp hanswer
            obtain ⟨hlinks, htest⟩ := List.mem_filter.mp hlink
            rw [Bool.and_eq_true, decide_eq_true_eq, decide_eq_true_eq] at htest
            refine ⟨link, List.mem_filter.mpr ⟨hlinks, ?_⟩, heq.symm⟩
            rw [Bool.and_eq_true, decide_eq_true_eq, decide_eq_true_eq, htest.2]
            exact ⟨htest.1, rfl⟩
      · cases h

/-- What finding a link comes to. -/
theorem resolve_cases {answer : Option Nat} {phase : Phase}
    (h : call.resolve d answer = some phase) :
    (∃ linkId, phase = .resolved linkId) ∨ ∃ message, phase = .refused message := by
  rw [Call.resolve] at h
  split at h
  · split at h
    · split at h
      · exact Or.inl ⟨_, (Option.some.inj h).symm⟩
      · exact Or.inr ⟨_, (Option.some.inj h).symm⟩
    · cases h
  · split at h
    · exact Or.inl ⟨_, (Option.some.inj h).symm⟩
    · exact Or.inr ⟨_, (Option.some.inj h).symm⟩
  · exact Or.inl ⟨_, (Option.some.inj h).symm⟩

end

/-! ### Announcements -/

/-- **What holds of the deliveries.** -/
structure Announcements (d : Deployment) (start s : Store) : Prop where
  only : s.OnlyAnnounced d start
  announced : ∀ call ∈ s.calls, ∀ row ∈ call.announced, ∀ webhook ∈ d.subscribed row.workspaceId,
    s.announcements webhook.id row.id = 1

section

variable {d : Deployment} {start s : Store} {call : Call} {i : Nat}

/-- What is announced carries the id of the conversion. -/
theorem id_of_mem_announcement {row : Conversion} {delivery : Delivery}
    (h : delivery ∈ d.announcement row) : delivery.payload.id = row.id := by
  obtain ⟨webhook, -, rfl⟩ := List.mem_map.mp h
  rfl

/-- **What has still to be announced, or never will be, is not announced.** -/
theorem announcements_eq_zero (hstart : Initial start) (hb : Bookings d start s)
    (ha : Announcements d start s) (hcall : call ∈ s.calls) {row : Conversion}
    (hrow : row ∈ call.booked) (hnone : call.announced = none) (webhookId : Nat) :
    s.announcements webhookId row.id = 0 := by
  refine List.countP_eq_zero.mpr fun delivery hdelivery htest => ?_
  rw [Delivery.tells, Bool.and_eq_true, decide_eq_true_eq] at htest
  rcases ha.only delivery hdelivery with hbefore | ⟨other, hother, row', hrow', hmem⟩
  · have hlt := hstart.delivered delivery hbefore
    rw [htest.2] at hlt
    exact absurd (hb.later call hcall row hrow).1 (Nat.not_le_of_lt hlt)
  · rw [id_of_mem_announcement hmem] at htest
    have hne : other ≠ call := by
      rintro rfl
      rw [hnone] at hrow'
      cases hrow'
    exact hb.apart.forall hother hcall hne row' (booked_of_announced hrow')
      row hrow htest.2

theorem tells_delivery {row : Conversion} {webhook : Webhook} {webhookId : Nat} :
    (row.delivery webhook).tells webhookId row.id = true ↔ webhook.id = webhookId := by
  rw [Delivery.tells, Bool.and_eq_true, Bool.and_eq_true, decide_eq_true_eq, decide_eq_true_eq,
    decide_eq_true_eq]
  exact ⟨fun h => h.1.2, fun h => ⟨⟨rfl, h⟩, rfl⟩⟩

/-- A webhook is told once. -/
theorem countP_announcement (hd : d.Lawful) {row : Conversion} {webhook : Webhook}
    (h : webhook ∈ d.subscribed row.workspaceId) :
    (d.announcement row).countP (·.tells webhook.id row.id) = 1 := by
  rw [Deployment.announcement]
  have hapart : (d.subscribed row.workspaceId).Pairwise fun webhook other =>
      webhook.id ≠ other.id := List.Pairwise.sublist List.filter_sublist hd
  generalize d.subscribed row.workspaceId = webhooks at h hapart
  induction webhooks with
  | nil => cases h
  | cons first rest ih =>
    obtain ⟨hfirst, hrest⟩ := List.pairwise_cons.mp hapart
    rw [List.map_cons]
    rcases List.mem_cons.mp h with rfl | hmem
    · rw [List.countP_cons_of_pos (tells_delivery.mpr rfl), List.countP_eq_zero.mpr]
      intro delivery hdelivery htells
      obtain ⟨other, hother, rfl⟩ := List.mem_map.mp hdelivery
      exact hfirst other hother (tells_delivery.mp htells).symm
    · rw [List.countP_cons_of_neg fun htells => hfirst webhook hmem (tells_delivery.mp htells),
        ih hmem hrest]

/-- A call that announces nothing goes on. -/
theorem Announcements.set {s' : Store} {call' : Call} (h : Announcements d start s)
    (hcall : s.calls[i]? = some call) (hdeliveries : s'.deliveries = s.deliveries)
    (hcalls : s'.calls = s.calls.set i call') (hbefore : call.announced = none)
    (hafter : call'.announced = none) : Announcements d start s' := by
  constructor
  · intro delivery hdelivery
    rw [hdeliveries] at hdelivery
    refine (h.only delivery hdelivery).imp_right ?_
    rintro ⟨other, hother, row, hrow, hmem⟩
    rcases eq_or_mem_set_of_mem hcall call' hother with rfl | hset
    · rw [hbefore] at hrow
      cases hrow
    · exact ⟨other, hcalls ▸ hset, row, hrow, hmem⟩
  · intro other hother row hrow webhook hwebhook
    rw [Store.announcements, hdeliveries]
    rw [hcalls] at hother
    rcases eq_or_mem_eraseIdx_of_mem_set hother with rfl | hold
    · rw [hafter] at hrow
      cases hrow
    · exact h.announced other (List.mem_of_mem_eraseIdx hold) row hrow webhook hwebhook

/-- **A booking is announced.** -/
theorem Announcements.announce (hd : d.Lawful) (hstart : Initial start) (hb : Bookings d start s)
    (h : Announcements d start s) (hcall : s.calls[i]? = some call) {row : Conversion}
    (hphase : call.phase = .booked row) : Announcements d start (s.announce d i call row) := by
  have hmem : call ∈ s.calls := List.mem_of_getElem? hcall
  have hbooked : call.booked = some row := by rw [Call.booked, hphase]
  have hnone : call.announced = none := by rw [Call.announced, hphase]
  have hcount : ∀ webhookId id, (s.announce d i call row).announcements webhookId id =
      s.announcements webhookId id + (d.announcement row).countP (·.tells webhookId id) :=
    fun webhookId id => List.countP_append
  constructor
  · intro delivery hdelivery
    rcases List.mem_append.mp hdelivery with hold | hnew
    · refine (h.only delivery hold).imp_right ?_
      rintro ⟨other, hother, row', hrow', hmem'⟩
      rcases eq_or_mem_set_of_mem hcall { call with phase := .returned (some row) } hother with
        rfl | hset
      · rw [hnone] at hrow'
        cases hrow'
      · exact ⟨other, hset, row', hrow', hmem'⟩
    · refine Or.inr ⟨{ call with phase := .returned (some row) }, ?_, row, rfl, hnew⟩
      exact List.mem_set (List.getElem?_eq_some_iff.mp hcall).1 _
  · intro other hother row' hrow' webhook hwebhook
    rw [hcount]
    rcases eq_or_mem_eraseIdx_of_mem_set hother with rfl | hold
    · obtain rfl := Option.mem_some_iff.mp hrow'
      rw [announcements_eq_zero hstart hb h hmem (Option.mem_def.mpr hbooked) hnone,
        countP_announcement hd hwebhook]
    · have hother' : other ∈ s.calls := List.mem_of_mem_eraseIdx hold
      rw [h.announced other hother' row' hrow' webhook hwebhook]
      refine Nat.add_eq_left.mpr (List.countP_eq_zero.mpr fun delivery hdelivery htest => ?_)
      rw [Delivery.tells, Bool.and_eq_true, decide_eq_true_eq, id_of_mem_announcement hdelivery]
        at htest
      exact pairwise_others Apart.symm hb.apart hcall other hold row
        (Option.mem_def.mpr hbooked) row' (booked_of_announced hrow') htest.2

end

/-! ### Steps -/

section

variable {d : Deployment} {start s s' : Store} {call : Call} {i : Nat}

/-- A call that has booked nothing goes on, and books nothing. -/
theorem keeps_set {phase : Phase} (hb : Bookings d start s) (ha : Announcements d start s)
    (hcall : s.calls[i]? = some call)
    (hbooked : Call.booked { call with phase := phase } = call.booked)
    (hbefore : call.announced = none) (hafter : Call.announced { call with phase := phase } = none)
    (hattributed : Call.Attributed d { call with phase := phase }) :
    Bookings d start (s.set i call phase) ∧ Announcements d start (s.set i call phase) :=
  ⟨hb.set hcall hbooked hattributed, ha.set hcall rfl rfl hbefore hafter⟩

/-- A call is left where it is over, with what it has booked. -/
theorem keeps_over {phase : Phase} (hb : Bookings d start s) (ha : Announcements d start s)
    (hcall : s.calls[i]? = some call)
    (hbooked : Call.booked { call with phase := phase } = call.booked)
    (hbefore : call.announced = none) (hafter : Call.announced { call with phase := phase } = none)
    (hresolved : ∀ linkId, phase ≠ .resolved linkId)
    (hpriced : ∀ linkId currency, phase ≠ .priced linkId currency) :
    Bookings d start (s.set i call phase) ∧ Announcements d start (s.set i call phase) := by
  refine keeps_set hb ha hcall hbooked hbefore hafter ⟨fun linkId h => absurd h (hresolved linkId),
    fun linkId currency h => absurd h (hpriced linkId currency), fun row hrow => ?_⟩
  rw [hbooked] at hrow
  exact (hb.attributed call (List.mem_of_getElem? hcall)).booked row hrow

/-- **Each statement keeps what holds of bookings and of announcements.** -/
theorem keeps_next (hd : d.Lawful) (hstart : Initial start) (hb : Bookings d start s)
    (ha : Announcements d start s) (hcall : s.calls[i]? = some call) {answer : Option Nat}
    (hs' : s.next d i answer call = some s') : Bookings d start s' ∧ Announcements d start s' := by
  have hmem : call ∈ s.calls := List.mem_of_getElem? hcall
  rw [Store.next] at hs'
  split at hs'
  · next hphase =>
    obtain ⟨phase, hresolve, rfl⟩ := Option.map_eq_some_iff.mp hs'
    have hbooked : call.booked = none := by rw [Call.booked, hphase]
    have hannounced : call.announced = none := by rw [Call.announced, hphase]
    rcases resolve_cases hresolve with ⟨linkId, rfl⟩ | ⟨message, rfl⟩
    · refine keeps_set hb ha hcall hbooked.symm hannounced rfl
        ⟨fun linkId' h => ?_, fun _ _ => Phase.noConfusion, fun _ h => by cases h⟩
      rw [Phase.resolved.inj h] at hresolve
      exact names_of_resolve hresolve
    · exact keeps_over hb ha hcall hbooked.symm hannounced rfl (fun _ => Phase.noConfusion)
        fun _ _ => Phase.noConfusion
  · next linkId hphase =>
    cases hs'
    refine keeps_set hb ha hcall (by rw [Call.booked, Call.booked, hphase])
      (by rw [Call.announced, hphase]) rfl
      ⟨fun _ => Phase.noConfusion, fun linkId' currency h => ?_, fun _ h => by cases h⟩
    rw [← (Phase.priced.inj h).1]
    exact (hb.attributed call hmem).resolved linkId hphase
  · next linkId currency hphase =>
    cases hs'
    refine ⟨hb.insert hcall hphase, ?_⟩
    have hannounced : call.announced = none := by rw [Call.announced, hphase]
    rw [Store.insert]
    split
    · exact ha.set hcall rfl rfl hannounced rfl
    · exact ha.set hcall rfl rfl hannounced rfl
  · next row hphase =>
    cases hs'
    refine ⟨hb.set hcall (by rw [Call.booked, Call.booked, hphase]) ⟨fun _ => Phase.noConfusion,
      fun _ _ => Phase.noConfusion, fun row' hrow' => ?_⟩, ha.announce hd hstart hb hcall hphase⟩
    refine (hb.attributed call hmem).booked row' ?_
    rw [Call.booked, hphase]
    exact hrow'
  all_goals cases hs'

/-- A call whose statement raises keeps what it has booked. -/
theorem keeps_raised (hb : Bookings d start s) (ha : Announcements d start s)
    (hcall : s.calls[i]? = some call) {phase : Phase} (hphase : call.phase.raised = some phase) :
    Bookings d start (s.set i call phase) ∧ Announcements d start (s.set i call phase) := by
  obtain ⟨workspaceId, input, before⟩ := call
  cases before with
  | begun | resolved _ | priced _ _ | booked _ =>
    cases hphase
    exact keeps_over hb ha hcall rfl rfl rfl (fun _ => Phase.noConfusion)
      fun _ _ => Phase.noConfusion
  | _ => cases hphase

/-- So does one whose process ends. -/
theorem keeps_ended (hb : Bookings d start s) (ha : Announcements d start s)
    (hcall : s.calls[i]? = some call) {phase : Phase} (hphase : call.phase.ended = some phase) :
    Bookings d start (s.set i call phase) ∧ Announcements d start (s.set i call phase) := by
  obtain ⟨workspaceId, input, before⟩ := call
  cases before with
  | begun | resolved _ | priced _ _ | booked _ =>
    cases hphase
    exact keeps_over hb ha hcall rfl rfl rfl (fun _ => Phase.noConfusion)
      fun _ _ => Phase.noConfusion
  | _ => cases hphase

/-- A call comes in. -/
theorem keeps_record (hb : Bookings d start s) (ha : Announcements d start s) (workspaceId : String)
    (input : RecordConversionInput) :
    Bookings d start { s with calls := s.calls ++ [⟨workspaceId, input, .begun⟩] } ∧
      Announcements d start { s with calls := s.calls ++ [⟨workspaceId, input, .begun⟩] } := by
  refine ⟨⟨hb.once, hb.fresh, hb.bound, ?_, ?_, ?_, ?_⟩, ?_, ?_⟩
  · rw [List.filterMap_append]
    simpa [Call.booked] using hb.booked
  · intro call hcall row hrow
    rcases List.mem_append.mp hcall with hold | hnew
    · exact hb.later call hold row hrow
    · rw [List.mem_singleton.mp hnew] at hrow
      cases hrow
  · refine List.pairwise_append.mpr ⟨hb.apart, List.pairwise_singleton _ _, ?_⟩
    intro other _ call hcall row _ row' hrow'
    rw [List.mem_singleton.mp hcall] at hrow'
    cases hrow'
  · intro call hcall
    rcases List.mem_append.mp hcall with hold | hnew
    · exact hb.attributed call hold
    · rw [List.mem_singleton.mp hnew]
      exact attributed_of_over rfl (fun _ => Phase.noConfusion) fun _ _ => Phase.noConfusion
  · intro delivery hdelivery
    refine (ha.only delivery hdelivery).imp_right ?_
    rintro ⟨call, hcall, hrow⟩
    exact ⟨call, List.mem_append_left _ hcall, hrow⟩
  · intro call hcall row hrow
    rcases List.mem_append.mp hcall with hold | hnew
    · exact ha.announced call hold row hrow
    · rw [List.mem_singleton.mp hnew] at hrow
      cases hrow

/-- **A step keeps what holds of bookings and of announcements.** -/
theorem keeps_step (hd : d.Lawful) (hstart : Initial start) {a : Action}
    (h : Bookings d start s ∧ Announcements d start s) (hs' : step d s a = some s') :
    Bookings d start s' ∧ Announcements d start s' := by
  obtain ⟨hb, ha⟩ := h
  cases a with
  | record workspaceId input =>
    cases hs'
    exact keeps_record hb ha workspaceId input
  | next i answer =>
    obtain ⟨call, hcall, hnext⟩ := Option.bind_eq_some_iff.mp hs'
    exact keeps_next hd hstart hb ha hcall hnext
  | raise i =>
    obtain ⟨call, hcall, hraised⟩ := Option.bind_eq_some_iff.mp hs'
    obtain ⟨phase, hphase, rfl⟩ := Option.map_eq_some_iff.mp hraised
    exact keeps_raised hb ha hcall hphase
  | crash i =>
    obtain ⟨call, hcall, hended⟩ := Option.bind_eq_some_iff.mp hs'
    obtain ⟨phase, hphase, rfl⟩ := Option.map_eq_some_iff.mp hended
    exact keeps_ended hb ha hcall hphase

end

theorem keeps_of_initial (d : Deployment) {start : Store} (h : Initial start) :
    Bookings d start start ∧ Announcements d start start := by
  refine ⟨⟨h.once, h.fresh, le_refl _, ⟨[], (List.append_nil _).symm, ?_⟩, ?_, ?_, ?_⟩,
    fun _ hdelivery => Or.inl hdelivery, ?_⟩
  all_goals rw [h.calls]
  · exact List.Perm.refl _
  · exact fun _ hcall => absurd hcall List.not_mem_nil
  · exact List.Pairwise.nil
  · exact fun _ hcall => absurd hcall List.not_mem_nil
  · exact fun _ hcall => absurd hcall List.not_mem_nil

/-- **Each external id is booked once, each booking that is announced is announced once to every
webhook, and nothing else is announced.** -/
theorem conversions_recorded (d : Deployment) (hd : d.Lawful) (start : Store)
    (hstart : Initial start) (actions : List Action) (s : Store)
    (hrun : run (step d) start actions = some s) : Recorded d start s := by
  obtain ⟨hb, ha⟩ := invariant_of_run (fun _ _ _ h hs' => keeps_step hd hstart h hs') actions start s
    (keeps_of_initial d hstart) hrun
  exact ⟨hb.once, hb.booked, ha.announced,
    fun call hcall row hrow hnone => announcements_eq_zero hstart hb ha hcall hrow hnone,
    ha.only, fun call hcall => (hb.attributed call hcall).booked, fun _ _ _ h => answer_eq h⟩

/-! ### A lost announcement -/

/-- Two domains of a workspace carry the slug, and a webhook waits for conversions. -/
def twoDomains : Deployment where
  platform := Redirect.samplePlatform
  links := [⟨0, "W1", "D1", "spring"⟩, ⟨1, "W1", "D2", "Spring"⟩, ⟨2, "W1", "D3", "spring"⟩]
  webhooks := [⟨0, "W1", ["link.created", "conversion.recorded"], none⟩]
  currency := fun _ => some "inr"

def nothingBooked : Store := ⟨[], [], 0, []⟩

theorem initial_nothingBooked : Initial nothingBooked :=
  ⟨rfl, List.Pairwise.nil, fun _ h => absurd h List.not_mem_nil,
    fun _ h => absurd h List.not_mem_nil⟩

theorem lawful_twoDomains : twoDomains.Lawful := List.pairwise_singleton _ _

/-- A sale by the slug. -/
def sale : RecordConversionInput :=
  ⟨none, some "spring", .sale, "Pro plan", 1999, none, some "order-1", none⟩

/-- The process ends between the insert and the announcement, and the caller tries again. -/
def lostAnnouncement : List Action :=
  [.record "W1" sale, .next 0 (some 2), .next 0 none, .next 0 none, .crash 0,
    .record "W1" sale, .next 1 (some 0), .next 1 none, .next 1 none]

/-- **The sale is announced to no one, and is booked for one of the links that carry the slug.** -/
theorem announcement_lost :
    (¬ ∀ (d : Deployment) (start : Store) (actions : List Action) (s : Store), d.Lawful →
      Initial start → run (step d) start actions = some s → s.Over → s.AllAnnounced d) ∧
    ¬ ∀ (d : Deployment) (start : Store) (actions : List Action) (s : Store), d.Lawful →
      Initial start → run (step d) start actions = some s → s.Over → s.NamedAlone d := by
  have hlost : (run (step twoDomains) nothingBooked lostAnnouncement).any (fun s =>
      decide ((∀ call ∈ s.calls, call.phase.raised = none) ∧
        ∃ call ∈ s.calls, ∃ row ∈ call.booked, call.workspaceId = "W1" ∧ call.input = sale ∧
          row.workspaceId = "W1" ∧ row.linkId = some 2 ∧ s.announcements 0 row.id = 0)) = true := by
    decide +kernel
  obtain ⟨s, hrun, hstate⟩ := (Option.any_eq_true _ _).mp hlost
  obtain ⟨hover, call, hcall, row, hrow, hworkspace, hinput, hrowWorkspace, hlink, hzero⟩ :=
    of_decide_eq_true hstate
  constructor
  · intro h
    have hone := h twoDomains nothingBooked lostAnnouncement s lawful_twoDomains
      initial_nothingBooked hrun hover call hcall row hrow
      ⟨0, "W1", ["link.created", "conversion.recorded"], none⟩
      (by rw [hrowWorkspace]; decide +kernel)
    rw [hzero] at hone
    exact absurd hone (by decide)
  · intro h
    have hnames : call.Names twoDomains (some 0) := by
      rw [Call.Names, hworkspace, hinput]
      exact ⟨⟨0, "W1", "D1", "spring"⟩, by decide +kernel, rfl⟩
    have halone := h twoDomains nothingBooked lostAnnouncement s lawful_twoDomains
      initial_nothingBooked hrun hover call hcall row hrow (some 0) hnames
    rw [hlink] at halone
    exact absurd halone (by decide)

/-- Two calls with one external id, beside each other. -/
def twoSales : List Action :=
  [.record "W1" sale, .record "W1" sale, .next 0 (some 2), .next 1 (some 0), .next 0 none,
    .next 1 none, .next 1 none, .next 0 none, .next 1 none]

/-- One of them books, and announces. -/
theorem conversions_recorded_twice :
    ∃ s, run (step twoDomains) nothingBooked twoSales = some s ∧
      Recorded twoDomains nothingBooked s ∧ s.conversions.length = 1 ∧ s.deliveries.length = 1 := by
  have hstate : (run (step twoDomains) nothingBooked twoSales).any (fun s =>
      decide (s.conversions.length = 1 ∧ s.deliveries.length = 1)) = true := by
    decide +kernel
  obtain ⟨s, hrun, hs⟩ := (Option.any_eq_true _ _).mp hstate
  obtain ⟨hconversions, hdeliveries⟩ := of_decide_eq_true hs
  exact ⟨s, hrun, conversions_recorded twoDomains lawful_twoDomains nothingBooked
    initial_nothingBooked twoSales s hrun, hconversions, hdeliveries⟩

end SnapUrl.Conversions
