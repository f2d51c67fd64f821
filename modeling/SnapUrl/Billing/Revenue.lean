import Mathlib.Algebra.Order.Floor.Ring
import Mathlib.Data.List.Sort
import Mathlib.Data.Rat.Floor
import SnapUrl.Lib.SqlLogic
import SnapUrl.Billing.Lifecycle

/-!
# The revenue headline

`revenue` and `computeMrr` of `apps/api/src/admin/billing/admin-billing.service.ts`, with the
queries of `admin-billing.reader.ts`.

* `entitledAt_iff`: the condition of the queries is `isEntitled`.
* `History`: what was written to the row of a subscription, and when.
* `Honest`: churn, its rate and the currency, as the fields of the headline say.
* `honest_iff`: **they are so exactly when as many lapses are missed as are made up, the rows of
  today stand for those at the start, and one currency is paid in**.
* `not_honest`: a cancelled period that ends, and two currencies.
-/

namespace SnapUrl.Billing.Revenue

open Lib.Sql

/-! ### The tables -/

structure SubscriptionRow where
  workspaceId : String
  planKey : String
  interval : BillingInterval
  providerSubscriptionId : Option String
  status : SubscriptionStatus
  currentPeriodEnd : Option Int
  cancelAtPeriodEnd : Option Int
  graceEndsAt : Option Int
  updatedAt : Int
deriving DecidableEq, Repr

/-- What the lifecycle rules read of a row. -/
def SubscriptionRow.lifecycle (row : SubscriptionRow) : LifecycleSubscription :=
  ⟨row.status, row.currentPeriodEnd, row.cancelAtPeriodEnd, row.graceEndsAt⟩

inductive PaymentStatus where
  | captured
  | failed
  | refunded
deriving DecidableEq, Repr

structure Payment where
  providerSubscriptionId : Option String
  amount : String
  currency : String
  status : PaymentStatus
  createdAt : Int
deriving DecidableEq, Repr

/-! ### The reader -/

/-- `status in (…)`; the column is never null. -/
def isIn (row : SubscriptionRow) (statuses : List SubscriptionStatus) : Truth :=
  some (decide (row.status ∈ statuses))

def entitledAt (now : Int) (row : SubscriptionRow) : Truth :=
  ((isIn row [.active, .trialing]).or
    (((isIn row [.past_due, .halted]).and (isNotNull row.graceEndsAt)).and
      (compare (· > ·) row.graceEndsAt (some now)))).or
    (((isIn row [.cancelled]).and (isNotNull row.currentPeriodEnd)).and
      (compare (· > ·) row.currentPeriodEnd (some now)))

/-- The statuses of the churn query, at the end of the window. -/
def endedAt (end_ : Int) (row : SubscriptionRow) : Truth :=
  ((isIn row [.expired, .completed]).or
    ((isIn row [.cancelled]).and ((isNull row.currentPeriodEnd).or
      (compare (· ≤ ·) row.currentPeriodEnd (some end_))))).or
    ((isIn row [.past_due, .halted]).and ((isNull row.graceEndsAt).or
      (compare (· ≤ ·) row.graceEndsAt (some end_))))

/-- The condition of the churn query. -/
def churnedIn (start end_ : Int) (row : SubscriptionRow) : Bool :=
  start ≤ row.updatedAt && row.updatedAt < end_ && endedAt end_ row = some true

structure ActiveSubscriptionAmount where
  workspaceId : String
  planKey : String
  interval : BillingInterval
  latestCapturedAmount : Option String
  currency : Option String
deriving DecidableEq, Repr

/-- `order by p.created_at desc limit 1`, of the captured payments of a subscription. -/
def latestCaptured (payments : List Payment) (row : SubscriptionRow) : Option Payment :=
  ((payments.filter fun p =>
    compare (· = ·) p.providerSubscriptionId row.providerSubscriptionId = some true &&
      p.status = .captured).insertionSort fun p p' => p'.createdAt ≤ p.createdAt).head?

def amountOf (payments : List Payment) (row : SubscriptionRow) : ActiveSubscriptionAmount where
  workspaceId := row.workspaceId
  planKey := row.planKey
  interval := row.interval
  latestCapturedAmount := (latestCaptured payments row).map (·.amount)
  currency := (latestCaptured payments row).map (·.currency)

def entitledRows (rows : List SubscriptionRow) (now : Int) : List SubscriptionRow :=
  rows.filter fun row => entitledAt now row = some true

def entitledSubscriptionAmounts (rows : List SubscriptionRow) (payments : List Payment)
    (now : Int) : List ActiveSubscriptionAmount :=
  (entitledRows rows now).map (amountOf payments)

def churnedInWindow (rows : List SubscriptionRow) (start end_ : Int) : Nat :=
  rows.countP (churnedIn start end_)

def entitledCountAt (rows : List SubscriptionRow) (now : Int) : Nat :=
  rows.countP fun row => entitledAt now row = some true

def failedPaymentsInWindow (payments : List Payment) (start end_ : Int) : Nat :=
  payments.countP fun p => p.status = .failed && start ≤ p.createdAt && p.createdAt < end_

def inGraceCount (rows : List SubscriptionRow) (now : Int) : Nat :=
  rows.countP fun row => ((isIn row [.past_due, .halted]).and (isNotNull row.graceEndsAt)).and
    (compare (· > ·) row.graceEndsAt (some now)) = some true

/-! ### The service -/

/-- What the service gets from the runtime. -/
structure Runtime where
  /-- `Number(text)`, `none` where it is not finite. -/
  number : String → Option Int
  /-- `a.localeCompare(b) <= 0`. -/
  labelLe : String → String → Bool

structure Mrr where
  mrr : Int
  currency : Option String
  unpriced : Nat
deriving DecidableEq, Repr

def MONTHS_PER_YEAR : Int := 12

/-- What an amount comes to in a month. -/
def monthly (interval : BillingInterval) (amount : Int) : Int :=
  if interval = .yearly then amount.fdiv MONTHS_PER_YEAR else amount

/-- The amount of a subscription that is priced. -/
def ActiveSubscriptionAmount.priced (r : Runtime) (a : ActiveSubscriptionAmount) : Option Int :=
  a.latestCapturedAmount.bind r.number

def mrrStep (r : Runtime) (acc : Mrr) (a : ActiveSubscriptionAmount) : Mrr :=
  match a.priced r with
  | none => { acc with unpriced := acc.unpriced + 1 }
  | some amount =>
    { acc with
      currency := acc.currency <|> a.currency
      mrr := acc.mrr + monthly a.interval amount }

def computeMrr (r : Runtime) (amounts : List ActiveSubscriptionAmount) : Mrr :=
  amounts.foldl (mrrStep r) ⟨0, none, 0⟩

structure RankRow where
  label : String
  value : Nat
deriving DecidableEq, Repr

def tallyByPlan (r : Runtime) (amounts : List ActiveSubscriptionAmount) : List RankRow :=
  let labels := (amounts.map (·.planKey)).reverse.dedup.reverse
  (labels.map fun label => ⟨label, amounts.countP (·.planKey = label)⟩).insertionSort fun a b =>
    b.value < a.value ∨ a.value = b.value ∧ r.labelLe a.label b.label = true

structure AdminRevenue where
  mrr : String
  currency : Option String
  mrrUnpricedSubscriptions : Nat
  activeSubscriptions : Nat
  activeByPlan : List RankRow
  churnedInWindow : Nat
  churnRate : Option ℚ
  failedPaymentsInWindow : Nat
  inGrace : Nat

/-- `Math.round(x * 10000) / 10000` of the quotient, where there is one. -/
def churnRate (churned entitledAtStart : Nat) : Option ℚ :=
  if entitledAtStart = 0 then none
  else some (⌊(churned / entitledAtStart : ℚ) * 10000 + 1 / 2⌋ / 10000)

def windowStart (days now : Int) : Int := now - days * 24 * 60 * 60 * 1000

def revenue (r : Runtime) (rows : List SubscriptionRow) (payments : List Payment)
    (days now : Int) : AdminRevenue :=
  let start := windowStart days now
  let amounts := entitledSubscriptionAmounts rows payments now
  let churned := churnedInWindow rows start now
  let mrr := computeMrr r amounts
  { mrr := toString mrr.mrr
    currency := mrr.currency
    mrrUnpricedSubscriptions := mrr.unpriced
    activeSubscriptions := amounts.length
    activeByPlan := tallyByPlan r amounts
    churnedInWindow := churned
    churnRate := churnRate churned (entitledCountAt rows start)
    failedPaymentsInWindow := failedPaymentsInWindow payments start now
    inGrace := inGraceCount rows now }

/-! ### What was so -/

/-- The writes of one row in their order, `none` for its removal. -/
structure History where
  writes : List (Int × Option SubscriptionRow)
  ordered : (writes.map Prod.fst).Pairwise (· ≤ ·)
  /-- Every write of the services sets `updated_at`. -/
  stamped : ∀ write ∈ writes, ∀ row ∈ write.2, row.updatedAt = write.1

/-- The row as it stood at an instant. -/
def History.rowAt (h : History) (t : Int) : Option SubscriptionRow :=
  (h.writes.filter (·.1 ≤ t)).getLast?.bind Prod.snd

def History.entitledAt (h : History) (t : Int) : Bool :=
  (h.rowAt t).any fun row => isEntitled row.lifecycle t

/-- The table at an instant. -/
def rowsAt (subscriptions : List History) (t : Int) : List SubscriptionRow :=
  subscriptions.filterMap fun h => h.rowAt t

/-- **It was entitled at the start, and stopped being so in the window.** -/
def History.Lapsed (h : History) (start end_ : Int) : Prop :=
  h.entitledAt start = true ∧ ∃ t, start ≤ t ∧ t ≤ end_ ∧ h.entitledAt t = false

/-- The row of today is in the churn count. -/
def History.counted (h : History) (start end_ : Int) : Bool :=
  (h.rowAt end_).any (churnedIn start end_)

/-- The row of today, at another instant. -/
def History.judged (h : History) (end_ t : Int) : Bool :=
  (h.rowAt end_).any fun row => isEntitled row.lifecycle t

open scoped Classical in
/-- **How many lapsed in the window**, each once. -/
noncomputable def lapses (subscriptions : List History) (start end_ : Int) : Nat :=
  subscriptions.countP fun h => h.Lapsed start end_

/-- The fields of the headline say what they are documented as. -/
structure Honest (r : Runtime) (subscriptions : List History) (payments : List Payment)
    (days now : Int) (headline : AdminRevenue) : Prop where
  churned : headline.churnedInWindow = lapses subscriptions (windowStart days now) now
  rate : headline.churnRate = churnRate (lapses subscriptions (windowStart days now) now)
    (subscriptions.countP fun h => h.entitledAt (windowStart days now))
  rate_le_one : ∀ rate ∈ headline.churnRate, rate ≤ 1
  rate_none : headline.churnRate = none ↔
    ∀ h ∈ subscriptions, h.entitledAt (windowStart days now) = false
  /-- **Every amount that is added is in the currency of the sum.** -/
  currency : ∀ a ∈ entitledSubscriptionAmounts (rowsAt subscriptions now) payments now,
    (a.priced r).isSome = true → a.currency = headline.currency

/-! ### When they do -/

/-- It lapsed in the window, and the row of today was not written in it, is entitled again or was
put back to a start. -/
def History.Missed (h : History) (start end_ : Int) : Prop :=
  h.Lapsed start end_ ∧ ∀ row ∈ h.rowAt end_, start ≤ row.updatedAt → row.updatedAt < end_ →
    isEntitled row.lifecycle end_ = true ∨ row.status ∈ [.created, .authenticated]

/-- The row of today was written in the window and has ended, and it was not entitled at the
start. -/
def History.MadeUp (h : History) (start end_ : Int) : Prop :=
  h.entitledAt start = false ∧ ∃ row ∈ h.rowAt end_, start ≤ row.updatedAt ∧
    row.updatedAt < end_ ∧ isEntitled row.lifecycle end_ = false ∧
    row.status ∉ [.created, .authenticated]

open scoped Classical in
structure Settled (r : Runtime) (subscriptions : List History) (payments : List Payment)
    (days now : Int) : Prop where
  churned : subscriptions.countP (fun h => h.Missed (windowStart days now) now) =
    subscriptions.countP fun h => h.MadeUp (windowStart days now) now
  /-- The rows of today give the rate that those of the start give. -/
  base : churnRate (lapses subscriptions (windowStart days now) now)
      (subscriptions.countP fun h => h.judged now (windowStart days now)) =
    churnRate (lapses subscriptions (windowStart days now) now)
      (subscriptions.countP fun h => h.entitledAt (windowStart days now))
  /-- **The last payments that are priced are all in one currency.** -/
  currency : ∀ row ∈ entitledRows (rowsAt subscriptions now) now,
    ∀ row' ∈ entitledRows (rowsAt subscriptions now) now,
    ∀ p ∈ latestCaptured payments row, ∀ p' ∈ latestCaptured payments row',
    (r.number p.amount).isSome = true → (r.number p'.amount).isSome = true →
    p.currency = p'.currency

/-! ### The conditions of the queries -/

section

variable {row : SubscriptionRow} {t : Int}

/-- **The condition of the queries is the rule.** -/
theorem entitledAt_iff : entitledAt t row = some true ↔ isEntitled row.lifecycle t = true := by
  have hcompare : ∀ o : Option Int, (o ≠ none ∧ ∃ a ∈ o, a > t) ↔ o.any (t < ·) = true := by
    intro o
    cases o <;> simp
  simp only [entitledAt, isIn, or_eq_true, and_eq_true, isNotNull_eq_true, compare_eq_true,
    Option.some.injEq, decide_eq_true_eq, and_assoc, Option.mem_def, exists_eq_left']
  simp only [← Option.mem_def, hcompare]
  cases hstatus : row.status <;>
    simp [isEntitled, isHealthyStatus, isFailedPaymentStatus, SubscriptionRow.lifecycle, hstatus]

theorem endedAt_iff : endedAt t row = some true ↔
    isEntitled row.lifecycle t = false ∧ row.status ∉ [.created, .authenticated] := by
  have hcompare : ∀ o : Option Int, (o = none ∨ ∃ a ∈ o, a ≤ t) ↔ o.any (t < ·) = false := by
    intro o
    cases o <;> simp
  simp only [endedAt, isIn, or_eq_true, and_eq_true, isNull_eq_true, compare_eq_true,
    Option.some.injEq, decide_eq_true_eq, Option.mem_def, exists_eq_left']
  simp only [← Option.mem_def, hcompare]
  cases hstatus : row.status <;>
    simp [isEntitled, isHealthyStatus, isFailedPaymentStatus, SubscriptionRow.lifecycle, hstatus]

end

/-! ### Counting -/

/-- Two counts agree when as many are in the one only as in the other only. -/
theorem countP_eq_countP_iff {α : Type*} (p q : α → Bool) (l : List α) :
    l.countP p = l.countP q ↔
      l.countP (fun a => q a && !p a) = l.countP (fun a => p a && !q a) := by
  have hsplit : ∀ p q : α → Bool, l.countP p =
      l.countP (fun a => p a && q a) + l.countP fun a => p a && !q a := by
    intro p q
    induction l with
    | nil => rfl
    | cons a l ih =>
      rw [List.countP_cons, List.countP_cons, List.countP_cons, ih]
      cases p a <;> cases q a <;> simp <;> omega
  have hp := hsplit p q
  have hq := hsplit q p
  have hboth : l.countP (fun a => q a && p a) = l.countP fun a => p a && q a :=
    List.countP_congr fun a _ => by rw [Bool.and_comm]
  omega

theorem churnRate_eq_none_iff {churned entitled : Nat} :
    churnRate churned entitled = none ↔ entitled = 0 := by
  rw [churnRate]
  split <;> simp [*]

theorem churnRate_le_one {churned entitled : Nat} (h : churned ≤ entitled) {rate : ℚ}
    (hrate : rate ∈ churnRate churned entitled) : rate ≤ 1 := by
  rw [churnRate] at hrate
  split at hrate
  · cases hrate
  · next hne =>
    obtain rfl := Option.some.inj hrate
    have hpos : (0 : ℚ) < entitled := by exact_mod_cast Nat.pos_of_ne_zero hne
    have hquotient : (churned / entitled : ℚ) ≤ 1 := by
      rw [div_le_one hpos]
      exact_mod_cast h
    have hfloor : ⌊(churned / entitled : ℚ) * 10000 + 1 / 2⌋ ≤ 10000 := by
      rw [← Int.lt_add_one_iff, Int.floor_lt]
      push_cast
      linarith
    rw [div_le_one (by norm_num)]
    exact_mod_cast hfloor

/-! ### The churn count -/

section

variable {h : History} {start end_ : Int} {subscriptions : List History}

theorem counted_iff : h.counted start end_ = true ↔ ∃ row ∈ h.rowAt end_, start ≤ row.updatedAt ∧
    row.updatedAt < end_ ∧ isEntitled row.lifecycle end_ = false ∧
    row.status ∉ [.created, .authenticated] := by
  rw [History.counted, Option.any_eq_true]
  simp only [churnedIn, Bool.and_eq_true, decide_eq_true_eq, endedAt_iff, and_assoc, Option.mem_def]

theorem counted_lapsed (h' : h.counted start end_ = true) :
    h.Lapsed start end_ ↔ h.entitledAt start = true := by
  obtain ⟨row, hrow, hstart, hend, hentitled, -⟩ := counted_iff.mp h'
  refine ⟨And.left, fun hat => ⟨hat, end_, by omega, le_rfl, ?_⟩⟩
  rw [History.entitledAt, Option.mem_def.mp hrow, Option.any_some, hentitled]

theorem missed_iff : h.Missed start end_ ↔ h.Lapsed start end_ ∧ h.counted start end_ = false := by
  rw [History.Missed, ← Bool.not_eq_true, counted_iff]
  refine and_congr_right fun _ => ⟨?_, fun hnot row hrow hstart hend => ?_⟩
  · rintro hall ⟨row, hrow, hstart, hend, hentitled, hstatus⟩
    rcases hall row hrow hstart hend with hyes | hpending
    · rw [hentitled] at hyes
      cases hyes
    · exact hstatus hpending
  · by_contra hneither
    rw [not_or, Bool.not_eq_true] at hneither
    exact hnot ⟨row, hrow, hstart, hend, hneither⟩

theorem madeUp_iff : h.MadeUp start end_ ↔ h.counted start end_ = true ∧ ¬ h.Lapsed start end_ := by
  rw [History.MadeUp, ← counted_iff, and_comm]
  refine and_congr_right fun hcounted => ?_
  rw [counted_lapsed hcounted, Bool.not_eq_true]

theorem churnedInWindow_eq : churnedInWindow (rowsAt subscriptions end_) start end_ =
    subscriptions.countP fun h => h.counted start end_ := by
  rw [churnedInWindow, rowsAt, List.countP_filterMap]
  refine List.countP_congr fun h _ => ?_
  rw [History.counted]
  cases h.rowAt end_ <;> simp

theorem entitledCountAt_eq (t : Int) : entitledCountAt (rowsAt subscriptions end_) t =
    subscriptions.countP fun h => h.judged end_ t := by
  rw [entitledCountAt, rowsAt, List.countP_filterMap]
  refine List.countP_congr fun h _ => ?_
  rw [History.judged]
  cases h.rowAt end_ with
  | none => simp
  | some row => simp [entitledAt_iff]

open scoped Classical in
/-- **The count is right when as many lapses are missed as are made up.** -/
theorem churned_eq_lapses_iff :
    churnedInWindow (rowsAt subscriptions end_) start end_ = lapses subscriptions start end_ ↔
      subscriptions.countP (fun h => h.Missed start end_) =
        subscriptions.countP fun h => h.MadeUp start end_ := by
  rw [churnedInWindow_eq, lapses, countP_eq_countP_iff]
  simp only [missed_iff, madeUp_iff, Bool.decide_and, decide_not, Bool.decide_eq_true,
    Bool.decide_eq_false]

theorem lapses_le : lapses subscriptions start end_ ≤
    subscriptions.countP fun h => h.entitledAt start := by
  classical
  refine List.countP_mono_left fun h _ hlapsed => ?_
  exact (of_decide_eq_true hlapsed).1

end

/-! ### The currency -/

section

variable {r : Runtime} {payments : List Payment} {rows : List SubscriptionRow} {now : Int}

/-- The currency that an amount brings. -/
def ActiveSubscriptionAmount.brings (r : Runtime) (a : ActiveSubscriptionAmount) : Option String :=
  (a.priced r).bind fun _ => a.currency

theorem foldl_mrrStep_currency (amounts : List ActiveSubscriptionAmount) (acc : Mrr) :
    (amounts.foldl (mrrStep r) acc).currency =
      acc.currency.or (amounts.findSome? (·.brings r)) := by
  induction amounts generalizing acc with
  | nil => exact Option.or_none.symm
  | cons a amounts ih =>
    rw [List.foldl_cons, ih, List.findSome?_cons]
    have hstep : (mrrStep r acc a).currency = acc.currency.or (a.brings r) := by
      rw [mrrStep, ActiveSubscriptionAmount.brings]
      cases a.priced r with
      | none => exact Option.or_none.symm
      | some amount => exact Option.orElse_eq_or
    rw [hstep, Option.or_assoc]
    cases a.brings r <;> rfl

theorem brings_amountOf {row : SubscriptionRow} {currency : String} :
    (amountOf payments row).brings r = some currency ↔
      ∃ p ∈ latestCaptured payments row, (r.number p.amount).isSome = true ∧
        p.currency = currency := by
  rw [ActiveSubscriptionAmount.brings, ActiveSubscriptionAmount.priced, amountOf]
  cases latestCaptured payments row with
  | none => simp
  | some p => cases hnumber : r.number p.amount <;> simp [hnumber]

/-- **Every amount is in the currency of the sum exactly when all of them are in one.** -/
theorem currency_iff :
    (∀ a ∈ entitledSubscriptionAmounts rows payments now, (a.priced r).isSome = true →
      a.currency = (computeMrr r (entitledSubscriptionAmounts rows payments now)).currency) ↔
    ∀ row ∈ entitledRows rows now, ∀ row' ∈ entitledRows rows now,
      ∀ p ∈ latestCaptured payments row, ∀ p' ∈ latestCaptured payments row',
      (r.number p.amount).isSome = true → (r.number p'.amount).isSome = true →
      p.currency = p'.currency := by
  have hpriced : ∀ row p, p ∈ latestCaptured payments row → (r.number p.amount).isSome = true →
      ((amountOf payments row).priced r).isSome = true ∧
        (amountOf payments row).currency = some p.currency := by
    intro row p hp hnumber
    rw [ActiveSubscriptionAmount.priced, amountOf, Option.mem_def.mp hp]
    exact ⟨hnumber, rfl⟩
  rw [computeMrr, foldl_mrrStep_currency, Option.none_or]
  constructor
  · intro hall row hrow row' hrow' p hp p' hp' hnumber hnumber'
    obtain ⟨hsome, hcurrency⟩ := hpriced row p hp hnumber
    obtain ⟨hsome', hcurrency'⟩ := hpriced row' p' hp' hnumber'
    have heq := (hall _ (List.mem_map_of_mem hrow) hsome).trans
      (hall _ (List.mem_map_of_mem hrow') hsome').symm
    rw [hcurrency, hcurrency'] at heq
    exact Option.some.inj heq
  · intro hall a ha hsome
    obtain ⟨row, hrow, rfl⟩ := List.mem_map.mp ha
    rw [ActiveSubscriptionAmount.priced, amountOf, Option.isSome_bind] at hsome
    obtain ⟨p, hp, hnumber⟩ : ∃ p ∈ latestCaptured payments row,
        (r.number p.amount).isSome = true := by
      cases hlatest : latestCaptured payments row with
      | none => simp [hlatest] at hsome
      | some p => exact ⟨p, rfl, by simpa [hlatest] using hsome⟩
    rw [(hpriced row p hp hnumber).2]
    have hbrings := brings_amountOf.mpr ⟨p, hp, hnumber, rfl⟩
    cases hfound : (entitledSubscriptionAmounts rows payments now).findSome? (·.brings r) with
    | none =>
      rw [List.findSome?_eq_none_iff.mp hfound _ (List.mem_map_of_mem hrow)] at hbrings
      cases hbrings
    | some currency =>
      obtain ⟨a', ha', hbrings'⟩ := List.exists_of_findSome?_eq_some hfound
      obtain ⟨row', hrow', rfl⟩ := List.mem_map.mp ha'
      obtain ⟨p', hp', hnumber', rfl⟩ := brings_amountOf.mp hbrings'
      rw [hall row hrow row' hrow' p hp p' hp' hnumber hnumber']

end

/-- **The queries ask what the lifecycle does, and the headline is honest exactly when it is
settled**: as many lapses are missed as are made up, the rows of today give the rate of those at the
start, and what is paid is paid in one currency. -/
theorem honest_iff (r : Runtime) (subscriptions : List History) (payments : List Payment)
    (days now : Int) :
    (∀ (row : SubscriptionRow) (t : Int),
      entitledAt t row = some true ↔ isEntitled row.lifecycle t = true) ∧
    (Honest r subscriptions payments days now
        (revenue r (rowsAt subscriptions now) payments days now) ↔
      Settled r subscriptions payments days now) := by
  refine ⟨fun row t => entitledAt_iff, ?_⟩
  have hrate : (revenue r (rowsAt subscriptions now) payments days now).churnRate =
      churnRate (churnedInWindow (rowsAt subscriptions now) (windowStart days now) now)
        (subscriptions.countP fun h => h.judged now (windowStart days now)) := by
    rw [revenue, entitledCountAt_eq]
  constructor
  · intro h
    have hchurned := h.churned
    refine ⟨churned_eq_lapses_iff.mp hchurned, ?_, currency_iff.mp h.currency⟩
    rw [← h.rate, hrate]
    exact congrArg (churnRate · _) hchurned.symm
  · intro h
    have hchurned : (revenue r (rowsAt subscriptions now) payments days now).churnedInWindow =
        lapses subscriptions (windowStart days now) now := churned_eq_lapses_iff.mpr h.churned
    have hhonest : (revenue r (rowsAt subscriptions now) payments days now).churnRate =
        churnRate (lapses subscriptions (windowStart days now) now)
          (subscriptions.countP fun h => h.entitledAt (windowStart days now)) := by
      rw [hrate, ← h.base]
      exact congrArg (churnRate · _) hchurned
    refine ⟨hchurned, hhonest, fun rate hmem => ?_, ?_, currency_iff.mpr h.currency⟩
    · rw [hhonest] at hmem
      exact churnRate_le_one lapses_le hmem
    · rw [hhonest, churnRate_eq_none_iff, List.countP_eq_zero]
      simp

/-! ### Two headlines -/

def sampleRuntime : Runtime where
  number s := if s = "49900" then some 49900 else none
  labelLe a b := a ≤ b

/-- A subscription that is written once. -/
def sampleHistory (row : SubscriptionRow) : History where
  writes := [(row.updatedAt, some row)]
  ordered := List.pairwise_singleton _ _
  stamped := by simp

def activeRow (workspaceId subscriptionId : String) : SubscriptionRow where
  workspaceId := workspaceId
  planKey := "pro"
  interval := .monthly
  providerSubscriptionId := some subscriptionId
  status := .active
  currentPeriodEnd := none
  cancelAtPeriodEnd := none
  graceEndsAt := none
  updatedAt := 0

/-- Cancelled on the first day, and paid to the twentieth. -/
def cancelledRow : SubscriptionRow :=
  { activeRow "W1" "sub_1" with
    status := .cancelled
    currentPeriodEnd := some 1728000000 }

def capturedIn (subscriptionId currency : String) : Payment :=
  ⟨some subscriptionId, "49900", currency, .captured, 0⟩

/-- **A period that ends in the thirty days is not in the count**, since the row was written before,
and rupees and dollars are added as rupees. -/
theorem not_honest :
    ¬ Honest sampleRuntime [sampleHistory cancelledRow] [] 30 3456000000
        (revenue sampleRuntime (rowsAt [sampleHistory cancelledRow] 3456000000) [] 30
          3456000000) ∧
      ¬ Honest sampleRuntime
        [sampleHistory (activeRow "W1" "sub_1"), sampleHistory (activeRow "W2" "sub_2")]
        [capturedIn "sub_1" "INR", capturedIn "sub_2" "USD"] 30 3456000000
        (revenue sampleRuntime (rowsAt [sampleHistory (activeRow "W1" "sub_1"),
          sampleHistory (activeRow "W2" "sub_2")] 3456000000)
          [capturedIn "sub_1" "INR", capturedIn "sub_2" "USD"] 30 3456000000) := by
  classical
  constructor
  · intro h
    have hnone : lapses [sampleHistory cancelledRow] (windowStart 30 3456000000) 3456000000 = 0 :=
      h.churned.symm.trans (by decide)
    have hlapsed : (sampleHistory cancelledRow).Lapsed (windowStart 30 3456000000) 3456000000 :=
      ⟨by decide, 3456000000, by decide, by decide, by decide⟩
    exact List.countP_eq_zero.mp hnone _ (List.mem_singleton_self _) (decide_eq_true hlapsed)
  · intro h
    have hone := currency_iff.mp h.currency (activeRow "W1" "sub_1") (by decide)
      (activeRow "W2" "sub_2") (by decide) (capturedIn "sub_1" "INR") (by decide)
      (capturedIn "sub_2" "USD") (by decide) (by decide) (by decide)
    exact absurd hone (by decide)

end SnapUrl.Billing.Revenue
