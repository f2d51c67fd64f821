import SnapUrl.Billing.Checkout

/-!
# Redelivered webhooks

The provider delivers an event again until one delivery is answered, and a delivery
may fail between any two of its writes.  The event is recorded by the first write,
and from then on it is a duplicate.

* `attempts`: what each delivery of one event commits, and what it answers.
* `ExactlyOnce`: over all deliveries the effects of the event were committed once,
  and no delivery called it a duplicate before they were.
* `exactlyOnce_iff`: **that is so exactly when the delivery that records the event
  gets past the last of its effects**.
* `recorded_event_is_lost`: a delivery that fails right after recording.
-/

namespace SnapUrl.Billing

/-- One delivery, and after how many committed writes it fails if it does. -/
structure Delivery where
  now : Int
  committed : Option Nat
deriving DecidableEq, Repr

/-- What a delivery commits of the writes it is about to make. -/
def Delivery.commits (d : Delivery) (writes : List Write) : List Write :=
  match d.committed with
  | none => writes
  | some n => writes.take n

/-- What came of one delivery; one that fails has no answer. -/
structure Attempt where
  writes : List Write
  result : Option WebhookResult
deriving DecidableEq, Repr

def attempt (cfg : ProviderConfig) (event : NormalizedBillingEvent) (a : Account)
    (d : Delivery) : Attempt :=
  let result := if d.committed = none then some (handleWebhook cfg a event d.now).2 else none
  if event.eventId ∈ a.eventIds then ⟨[], result⟩
  else ⟨d.commits (webhookWrites cfg a event d.now), result⟩

def attempts (cfg : ProviderConfig) (event : NormalizedBillingEvent) :
    Account → List Delivery → List Attempt
  | _, [] => []
  | a, d :: ds =>
    attempt cfg event a d ::
      attempts cfg event ((attempt cfg event a d).writes.foldl Write.apply a) ds

def Write.isEffect : Write → Bool
  | .upsertPayment .. => true
  | .applyUpdate .. => true
  | _ => false

/-- The effects that were committed. -/
def effects (rs : List Attempt) : List Write := (rs.flatMap (·.writes)).filter Write.isEffect

/-- The effects the event has on the workspace. -/
def due (cfg : ProviderConfig) (a : Account) (event : NormalizedBillingEvent) (now : Int) :
    List Write :=
  match a.rowOf cfg event with
  | none => []
  | some row => effectWrites cfg row event now

/-- The effects are committed once, those of one of the deliveries, and nothing is
answered as a duplicate before. -/
def ExactlyOnce (cfg : ProviderConfig) (a : Account) (event : NormalizedBillingEvent)
    (ds : List Delivery) : Prop :=
  ∃ d ∈ ds, effects (attempts cfg event a ds) = due cfg a event d.now ∧
    ∀ (pre : List Attempt) (r : Attempt) (post : List Attempt),
      attempts cfg event a ds = pre ++ r :: post → r.result = some .duplicate →
        effects pre = due cfg a event d.now

/-- Whether a delivery gets to record the event. -/
def Delivery.records (d : Delivery) : Bool := d.committed ≠ some 0

section

variable {cfg : ProviderConfig} {event : NormalizedBillingEvent} {a : Account} {d : Delivery}

theorem effects_append (rs ss : List Attempt) : effects (rs ++ ss) = effects rs ++ effects ss := by
  simp [effects]

theorem effects_cons (r : Attempt) (rs : List Attempt) :
    effects (r :: rs) = r.writes.filter Write.isEffect ++ effects rs := by
  simp [effects]

/-- Once the event is recorded, deliveries commit nothing. -/
theorem effects_of_recorded (h : event.eventId ∈ a.eventIds) (ds : List Delivery) :
    effects (attempts cfg event a ds) = [] := by
  induction ds with
  | nil => rfl
  | cons d ds ih =>
    have hnothing : (attempt cfg event a d).writes = [] := by
      rw [attempt, if_pos h]
    rw [attempts, effects_cons, hnothing]
    exact ih

theorem isEffect_of_mem_effectWrites {row : Subscription} {now : Int} {w : Write}
    (h : w ∈ effectWrites cfg row event now) : w.isEffect = true := by
  rw [effectWrites, List.mem_append] at h
  rcases h with h | h
  · obtain ⟨payment, _, rfl⟩ := Option.map_eq_some_iff.mp (Option.mem_toList.mp h)
    rfl
  · obtain ⟨status, _, rfl⟩ := Option.map_eq_some_iff.mp (Option.mem_toList.mp h)
    rfl

theorem filter_due (now : Int) :
    (due cfg a event now).filter Write.isEffect = due cfg a event now := by
  refine List.filter_eq_self.mpr fun w hw => ?_
  rw [due] at hw
  split at hw
  · simp at hw
  · exact isEffect_of_mem_effectWrites hw

/-- How many effects are due does not depend on when. -/
theorem length_due (now t : Int) :
    (due cfg a event now).length = (due cfg a event t).length := by
  rw [due, due]
  split
  · rfl
  · rw [effectWrites, effectWrites, List.length_append, List.length_append]
    cases event.status <;> rfl

/-- The writes of a first delivery: the record, the effects, and a mark at most. -/
theorem webhookWrites_eq (cfg : ProviderConfig) (a : Account) (event : NormalizedBillingEvent)
    (now : Int) :
    ∃ marks, webhookWrites cfg a event now =
        .insertEvent event.eventId event.eventType :: (due cfg a event now ++ marks) ∧
      marks.filter Write.isEffect = [] := by
  cases hrow : a.rowOf cfg event with
  | none => exact ⟨[], by simp [webhookWrites, due, hrow], rfl⟩
  | some row => exact ⟨[.markProcessed event.eventId], by simp [webhookWrites, due, hrow], rfl⟩

/-- **What a failing delivery commits of the effects**: the first ones. -/
theorem filter_take_webhookWrites (n : Nat) (now : Int) :
    ((webhookWrites cfg a event now).take (n + 1)).filter Write.isEffect =
      (due cfg a event now).take n := by
  obtain ⟨marks, hwrites, hmarks⟩ := webhookWrites_eq cfg a event now
  have htake : (marks.take (n - (due cfg a event now).length)).filter Write.isEffect = [] := by
    rw [List.filter_eq_nil_iff] at hmarks ⊢
    exact fun w hw => hmarks w (List.mem_of_mem_take hw)
  rw [hwrites, List.take_succ_cons, List.filter_cons_of_neg (by simp [Write.isEffect]),
    List.take_append, List.filter_append, htake, List.append_nil]
  refine List.filter_eq_self.mpr fun w hw => ?_
  have hmem := List.mem_of_mem_take hw
  rw [← filter_due] at hmem
  exact (List.mem_filter.mp hmem).2

theorem filter_webhookWrites (now : Int) :
    (webhookWrites cfg a event now).filter Write.isEffect = due cfg a event now := by
  obtain ⟨marks, hwrites, hmarks⟩ := webhookWrites_eq cfg a event now
  rw [hwrites, List.filter_cons_of_neg (by simp [Write.isEffect]), List.filter_append, hmarks,
    List.append_nil, filter_due]

/-- What the recording delivery commits of the effects. -/
def Delivery.reached (d : Delivery) (writes : List Write) : List Write :=
  match d.committed with
  | none => writes
  | some n => writes.take (n - 1)

theorem effects_attempt (hnew : event.eventId ∉ a.eventIds) (hrecords : d.records = true) :
    (attempt cfg event a d).writes.filter Write.isEffect =
      d.reached (due cfg a event d.now) := by
  rw [attempt, if_neg hnew]
  rw [Delivery.records] at hrecords
  cases hcommitted : d.committed with
  | none => simp only [Delivery.commits, Delivery.reached, hcommitted, filter_webhookWrites]
  | some n =>
    cases n with
    | zero => simp [hcommitted] at hrecords
    | succ n =>
      simp only [Delivery.commits, Delivery.reached, hcommitted, Nat.add_sub_cancel]
      exact filter_take_webhookWrites n d.now

theorem eventIds_apply (w : Write) :
    (w.apply a).eventIds = match w with
      | .insertEvent eventId _ => a.eventIds ++ [eventId]
      | _ => a.eventIds := by
  cases w with
  | insertEvent eventId eventType => simp [Write.apply, Account.eventIds]
  | upsertPayment subscriptionId payment => rfl
  | applyUpdate row plan => rfl
  | markProcessed eventId =>
    simp only [Write.apply, Account.eventIds, List.map_map]
    refine List.map_congr_left fun e _ => ?_
    rw [Function.comp_apply]
    split <;> rfl

/-- Recorded events stay recorded. -/
theorem mem_eventIds_foldl {ws : List Write} {id : String} (h : id ∈ a.eventIds) :
    id ∈ (ws.foldl Write.apply a).eventIds := by
  induction ws generalizing a with
  | nil => exact h
  | cons w ws ih =>
    refine ih ?_
    rw [eventIds_apply]
    split
    · exact List.mem_append_left _ h
    · exact h

/-- A delivery that records the event leaves it recorded. -/
theorem mem_eventIds_attempt (hnew : event.eventId ∉ a.eventIds) (hrecords : d.records = true) :
    event.eventId ∈ ((attempt cfg event a d).writes.foldl Write.apply a).eventIds := by
  have hfirst : ∃ rest, (attempt cfg event a d).writes =
      .insertEvent event.eventId event.eventType :: rest := by
    rw [attempt, if_neg hnew]
    rw [Delivery.records] at hrecords
    cases hcommitted : d.committed with
    | none => exact ⟨_, by simp only [Delivery.commits, hcommitted]; rfl⟩
    | some n =>
      cases n with
      | zero => simp [hcommitted] at hrecords
      | succ n => exact ⟨_, by simp only [Delivery.commits, hcommitted]; rfl⟩
  obtain ⟨rest, hrest⟩ := hfirst
  rw [hrest, List.foldl_cons]
  refine mem_eventIds_foldl ?_
  rw [eventIds_apply]
  exact List.mem_append_right _ List.mem_cons_self

/-- A delivery that fails at its first write leaves nothing. -/
theorem writes_of_not_records (hrecords : d.records = false) :
    (attempt cfg event a d).writes = [] := by
  have hzero : d.committed = some 0 := by simpa [Delivery.records] using hrecords
  rw [attempt]
  split
  · rfl
  · simp [Delivery.commits, hzero]

/-- **The effects of a run are those the recording delivery reached.** -/
theorem effects_attempts (hnew : event.eventId ∉ a.eventIds) (ds : List Delivery) :
    effects (attempts cfg event a ds) =
      match ds.find? Delivery.records with
      | none => []
      | some d => d.reached (due cfg a event d.now) := by
  induction ds with
  | nil => rfl
  | cons d ds ih =>
    rw [attempts, effects_cons]
    by_cases hrecords : d.records = true
    · rw [List.find?_cons_of_pos hrecords, effects_attempt hnew hrecords,
        effects_of_recorded (mem_eventIds_attempt hnew hrecords), List.append_nil]
    · have hfalse : d.records = false := Bool.eq_false_iff.mpr hrecords
      rw [List.find?_cons_of_neg hrecords, writes_of_not_records hfalse]
      exact ih

/-- **A duplicate is answered only after the recording delivery**, with its effects. -/
theorem effects_before_duplicate (hnew : event.eventId ∉ a.eventIds) (ds : List Delivery)
    {pre post : List Attempt} {r : Attempt} (h : attempts cfg event a ds = pre ++ r :: post)
    (hduplicate : r.result = some .duplicate) :
    ∃ d ∈ ds.find? Delivery.records, effects pre = d.reached (due cfg a event d.now) := by
  induction ds generalizing pre with
  | nil => simp [attempts] at h
  | cons d ds ih =>
    rw [attempts] at h
    cases pre with
    | nil =>
      rw [List.nil_append, List.cons.injEq] at h
      have hresult : (attempt cfg event a d).result ≠ some .duplicate := by
        rw [attempt, if_neg hnew, handleWebhook, if_neg hnew]
        dsimp only
        split
        · split <;> simp
        · simp
      exact absurd (h.1 ▸ hduplicate) hresult
    | cons r' pre =>
      rw [List.cons_append, List.cons.injEq] at h
      obtain ⟨rfl, htail⟩ := h
      by_cases hrecords : d.records = true
      · refine ⟨d, by rw [List.find?_cons_of_pos hrecords]; rfl, ?_⟩
        have hrest : effects (pre ++ r :: post) = [] := by
          rw [← htail]
          exact effects_of_recorded (mem_eventIds_attempt hnew hrecords) ds
        rw [effects_append, List.append_eq_nil_iff] at hrest
        rw [effects_cons, effects_attempt hnew hrecords, hrest.1, List.append_nil]
      · have hfalse : d.records = false := Bool.eq_false_iff.mpr hrecords
        rw [writes_of_not_records hfalse] at htail
        obtain ⟨d', hd', heffects⟩ := ih htail
        refine ⟨d', by rw [List.find?_cons_of_neg hrecords]; exact hd', ?_⟩
        rw [effects_cons, writes_of_not_records hfalse]
        exact heffects

end

/-- **An event is applied exactly once exactly when the delivery that records it gets
past its last effect.** -/
theorem exactlyOnce_iff (cfg : ProviderConfig) (a : Account) (event : NormalizedBillingEvent)
    (ds : List Delivery) (hnew : event.eventId ∉ a.eventIds)
    (hdone : ∃ d ∈ ds, d.committed = none) :
    ExactlyOnce cfg a event ds ↔
      ∀ d ∈ ds.find? Delivery.records, ∀ n, d.committed = some n →
        (due cfg a event d.now).length < n := by
  obtain ⟨d, hd⟩ : ∃ d, ds.find? Delivery.records = some d := by
    obtain ⟨d, hd, hcommitted⟩ := hdone
    refine Option.isSome_iff_exists.mp (List.find?_isSome.mpr ⟨d, hd, ?_⟩)
    simp [Delivery.records, hcommitted]
  have hrecords : d.records = true := List.find?_some hd
  have heffects : effects (attempts cfg event a ds) = d.reached (due cfg a event d.now) := by
    rw [effects_attempts hnew ds, hd]
  simp only [hd, Option.mem_some_iff, forall_eq']
  constructor
  · rintro ⟨d', _, honce, _⟩ n hn
    have hreached : d.reached (due cfg a event d.now) = (due cfg a event d.now).take (n - 1) := by
      rw [Delivery.reached, hn]
    have hlen := congrArg List.length (heffects.symm.trans honce)
    rw [hreached, List.length_take, length_due d'.now d.now] at hlen
    have hpos : n ≠ 0 := by
      rintro rfl
      simp [Delivery.records, hn] at hrecords
    omega
  · intro hpast
    have hreached : d.reached (due cfg a event d.now) = due cfg a event d.now := by
      rw [Delivery.reached]
      split
      · rfl
      · rename_i n hn
        have := hpast n hn
        exact List.take_of_length_le (by omega)
    refine ⟨d, List.mem_of_find?_eq_some hd, by rw [heffects, hreached], ?_⟩
    intro pre r post hsplit hduplicate
    obtain ⟨d', hd', hpre⟩ := effects_before_duplicate hnew ds hsplit hduplicate
    obtain rfl : d = d' := Option.some.inj (hd.symm.trans hd')
    rw [hpre, hreached]

/-! ### A lost event -/

/-- A workspace that has opened a checkout of the pro plan. -/
def openedAccount : Account :=
  (startCheckout sampleConfig (checkoutOf .pro) (opens "sub_1") freshAccount).1

/-- A delivery that fails at its first write and one that completes. -/
theorem exactlyOnce_retried :
    ExactlyOnce sampleConfig openedAccount (activation "evt_1" "sub_1" "plan_pro")
      [⟨0, some 0⟩, ⟨5, none⟩] :=
  (exactlyOnce_iff sampleConfig openedAccount (activation "evt_1" "sub_1" "plan_pro")
    [⟨0, some 0⟩, ⟨5, none⟩] (by decide) (by decide)).mpr (by decide)

/-- **A delivery that fails right after recording loses the event**: the next one is
answered as a duplicate, and the workspace that paid is never entitled. -/
theorem recorded_event_is_lost :
    ¬ ∀ (cfg : ProviderConfig) (a : Account) (event : NormalizedBillingEvent) (ds : List Delivery),
      event.eventId ∉ a.eventIds → (∃ d ∈ ds, d.committed = none) →
        ExactlyOnce cfg a event ds := by
  intro h
  obtain ⟨d, _, honce, _⟩ := h sampleConfig openedAccount (activation "evt_1" "sub_1" "plan_pro")
    [⟨0, some 1⟩, ⟨5, none⟩] (by decide) (by decide)
  have hlost : effects (attempts sampleConfig (activation "evt_1" "sub_1" "plan_pro") openedAccount
      [⟨0, some 1⟩, ⟨5, none⟩]) = [] := by
    decide
  have hlen : (due sampleConfig openedAccount (activation "evt_1" "sub_1" "plan_pro") d.now).length
      = 1 := length_due d.now 0
  rw [← honce, hlost] at hlen
  simp at hlen

end SnapUrl.Billing
