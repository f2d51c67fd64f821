import SnapUrl.Lib.KeyedFold
import SnapUrl.Text
import SnapUrl.Links.Slug
import SnapUrl.Plans.Proration
import SnapUrl.Redirect.Gate
import SnapUrl.Billing.Coupons

/-!
# Whether a coupon applies

`CreateCouponInput`, `couponRejection` and `discountMinor` of `packages/contract/src/coupon.ts`,
`create` of `apps/api/src/admin/billing/admin-coupons.service.ts` and `validate` of
`apps/api/src/billing/coupons.service.ts`.

* `Tables.apply`: the writes of the catalogue, and redemptions.
* `Agrees`: `validate` accepts what the admin has granted, and shows that discount.
* `agrees_iff`: **it does exactly when no key of the list holds a comma that lets the plan in, and a
  fixed amount meets a price in its own currency**.
* `foreign_price`, `comma_key`: an amount in another currency, and a list that admits every plan.
-/

namespace SnapUrl.Billing.CouponRules

open Domain Links Plans Coupons

/-! ### The contract -/

inductive CouponKind where
  | percent
  | fixed
deriving DecidableEq, Repr

inductive CouponDuration where
  | once
  | repeating
  | forever
deriving DecidableEq, Repr

structure CreateCouponInput where
  code : String
  kind : CouponKind
  value : Int
  currency : Option PriceCurrency
  duration : CouponDuration
  durationMonths : Option Int
  expiresAt : Option String
  maxRedemptions : Option Int
  restrictPlanKeys : Option (List String)
  restrictInterval : Option BillingInterval
deriving DecidableEq, Repr

def codeUnitCount (s : String) : Nat := (s.toList.flatMap utf16Units).length

/-- `/^[a-z0-9][a-z0-9_-]*$/i`. -/
def isCouponCode : List Char → Bool
  | [] => false
  | c :: cs => c.isAlphanum && cs.all fun c => c.isAlphanum || c = '_' || c = '-'

/-- What `superRefine` finds nothing wrong with. -/
def CreateCouponInput.consistent (input : CreateCouponInput) : Bool :=
  !(input.kind = .percent && 100 < input.value) &&
  !(input.kind = .fixed && input.currency.isNone) &&
  !(input.duration = .repeating && input.durationMonths.isNone) &&
  !(input.duration ≠ .repeating && input.durationMonths.isSome)

/-- The schema.  `isDatetime` is the format `datetime()` asks for, which no empty text has. -/
def CreateCouponInput.parse (isDatetime : String → Bool) (raw : CreateCouponInput) :
    Option CreateCouponInput :=
  let input := { raw with
    code := trim raw.code
    restrictPlanKeys := raw.restrictPlanKeys.map fun keys => keys.map trim }
  if 1 ≤ codeUnitCount input.code && codeUnitCount input.code ≤ 40 &&
      isCouponCode input.code.toList && 1 ≤ input.value &&
      input.durationMonths.all (fun months => 1 ≤ months && months ≤ 60) &&
      input.expiresAt.all (fun text => text ≠ "" && isDatetime text) &&
      input.maxRedemptions.all (1 ≤ ·) &&
      input.restrictPlanKeys.all (fun keys => keys.all fun key =>
        1 ≤ codeUnitCount key && codeUnitCount key ≤ 40) &&
      input.consistent then some input
  else none

def roundHalfUp (amount : ℚ) : Int := signOf amount * ⌊|amount| + 1 / 2⌋

/-- Prices stay below a hundred million, so that the quotient is off by far less than the
hundredth that it is away from a half, if it is not exact. -/
def discountMinor (kind : CouponKind) (value baseMinor : Int) : Int :=
  let raw := match kind with
    | .percent => roundHalfUp ((baseMinor * value : ℚ) / 100)
    | .fixed => value
  max 0 (min raw baseMinor)

structure RedeemableCoupon where
  kind : CouponKind
  duration : CouponDuration
  durationMonths : Option Int
  expiresAt : Option Int
  maxRedemptions : Option Int
  pausedAt : Option Int
  restrictPlanKeys : Option (List String)
  restrictInterval : Option BillingInterval

inductive CouponRejection where
  | paused
  | expired
  | max_redemptions_reached
  | plan_not_allowed
  | interval_not_allowed
deriving DecidableEq, Repr

def couponRejection (p : Platform) (coupon : RedeemableCoupon) (planKey : String)
    (interval : BillingInterval) (redemptionCount now : Int) : Option CouponRejection :=
  if coupon.pausedAt.isSome then some .paused
  else if coupon.expiresAt.any (· ≤ now) then some .expired
  else if coupon.maxRedemptions.any (· ≤ redemptionCount) then some .max_redemptions_reached
  else if coupon.restrictPlanKeys.any (!·.contains (p.toLowerCase planKey)) then
    some .plan_not_allowed
  else if coupon.restrictInterval.any (· ≠ interval) then some .interval_not_allowed
  else none

/-! ### The tables -/

structure CouponRow where
  id : String
  code : String
  kind : CouponKind
  value : Int
  currency : Option PriceCurrency
  duration : CouponDuration
  durationMonths : Option Int
  expiresAt : Option Int
  maxRedemptions : Option Int
  redeemedCount : Int
  pausedAt : Option Int
  restrictPlanKeys : Option String
  restrictInterval : Option BillingInterval
  providerOfferId : Option String
deriving DecidableEq, Repr

structure Tables where
  coupons : List CouponRow
  redemptions : List CouponRedemption
deriving DecidableEq, Repr

def planKeysToStored (p : Platform) : Option (List String) → Option String
  | none => none
  | some [] => none
  | some keys => some (",".intercalate (keys.map fun key => p.toLowerCase (trim key)))

def couponRow (p : Platform) (id : String) (input : CreateCouponInput) (expiresAt : Option Int) :
    CouponRow where
  id := id
  code := trim input.code
  kind := input.kind
  value := input.value
  currency := if input.kind = .fixed then input.currency else none
  duration := input.duration
  durationMonths := input.durationMonths
  expiresAt := expiresAt
  maxRedemptions := input.maxRedemptions
  redeemedCount := 0
  pausedAt := none
  restrictPlanKeys := planKeysToStored p input.restrictPlanKeys
  restrictInterval := input.restrictInterval
  providerOfferId := none

/-- `new Date(text)` for the column, `none` where it is refused. -/
def storedDate (p : Platform) : Option String → Option (Option Int)
  | none => some none
  | some text => if text = "" then some none else (p.parseDate text).map some

/-- The ranges of `integer` and the length of the text. -/
def CouponRow.fits (row : CouponRow) : Bool :=
  row.value < 2 ^ 31 && row.maxRedemptions.all (· < 2 ^ 31) &&
    row.restrictPlanKeys.all (·.length ≤ 255)

/-- The expression of the unique index, `lower(code)`. -/
def CouponRow.key (row : CouponRow) : String := asciiLower row.code

/-- `none` where the insert is refused. -/
def create (p : Platform) (t : Tables) (id : String) (input : CreateCouponInput) :
    Option Tables := do
  let expiresAt ← storedDate p input.expiresAt
  let row := couponRow p id input expiresAt
  if row.fits && t.coupons.all (fun other => other.id ≠ id && other.key ≠ row.key) then
    some { t with coupons := t.coupons ++ [row] }
  else none

/-- The writes of the catalogue and of `recordRedemption`. -/
inductive Write where
  | create (id : String) (input : CreateCouponInput)
  | setPaused (id : String) (paused : Bool) (now : Int)
  | remove (id : String)
  | redeem (redemption : CouponRedemption)
deriving DecidableEq, Repr

def CouponRow.update (id : String) (f : CouponRow → CouponRow) (row : CouponRow) : CouponRow :=
  if row.id = id then f row else row

def CouponRow.pause (pausedAt : Option Int) (row : CouponRow) : CouponRow :=
  { row with pausedAt := pausedAt }

def CouponRow.count (row : CouponRow) : CouponRow :=
  { row with redeemedCount := row.redeemedCount + 1 }

def CouponRow.hasSlot (row : CouponRow) : Bool := row.maxRedemptions.all (row.redeemedCount < ·)

/-- A write, which leaves the tables as they are where it is refused. -/
def Tables.apply (p : Platform) (t : Tables) : Write → Tables
  | .create id input => (create p t id input).getD t
  | .setPaused id paused now =>
    { t with coupons := t.coupons.map (.update id (.pause (if paused then some now else none))) }
  | .remove id =>
    { coupons := t.coupons.filter (·.id ≠ id)
      redemptions := t.redemptions.filter (·.couponId ≠ id) }
  | .redeem redemption =>
    if t.coupons.any (fun row => row.id = redemption.couponId && row.hasSlot) &&
        t.redemptions.all (·.key ≠ redemption.key) then
      { coupons := t.coupons.map (.update redemption.couponId .count)
        redemptions := t.redemptions ++ [redemption] }
    else t

/-! ### At checkout -/

inductive CouponApplyError where
  | not_found
  | rejected (reason : CouponRejection)
deriving DecidableEq, Repr

structure ResolvedCoupon where
  couponId : String
  code : String
  providerOfferId : Option String
  discountMinor : Int
deriving DecidableEq, Repr

def parseRestrictPlanKeys (p : Platform) : Option String → Option (List String)
  | none => none
  | some stored =>
    let keys := ((splitAtChar ',' stored).map fun k => p.toLowerCase (trim k)).filter (· ≠ "")
    if 0 < keys.length then some keys else none

def toRedeemable (p : Platform) (row : CouponRow) : RedeemableCoupon where
  kind := row.kind
  duration := row.duration
  durationMonths := row.durationMonths
  expiresAt := row.expiresAt
  maxRedemptions := row.maxRedemptions
  pausedAt := row.pausedAt
  restrictPlanKeys := parseRestrictPlanKeys p row.restrictPlanKeys
  restrictInterval := row.restrictInterval

def findByCode (p : Platform) (t : Tables) (code : String) : Option CouponRow :=
  t.coupons.find? fun row => row.key = p.toLowerCase (trim code)

def redemptionCount (t : Tables) (couponId : String) : Nat :=
  t.redemptions.countP fun r => r.couponId = couponId

def validate (p : Platform) (t : Tables) (code planKey : String) (interval : BillingInterval)
    (baseMinor now : Int) : Except CouponApplyError ResolvedCoupon :=
  match findByCode p t code with
  | none => .error .not_found
  | some row =>
    match couponRejection p (toRedeemable p row) planKey interval (redemptionCount t row.id)
        now with
    | some reason => .error (.rejected reason)
    | none =>
      .ok ⟨row.id, row.code, row.providerOfferId, discountMinor row.kind row.value baseMinor⟩

/-! ### What the admin has granted -/

def Tables.paused (t : Tables) (id : String) : Bool :=
  t.coupons.any fun row => row.id = id && row.pausedAt.isSome

/-- What is asked whatever the plan and the price. -/
structure Live (p : Platform) (raw : CreateCouponInput) (t : Tables) (id : String)
    (interval : BillingInterval) (now : Int) : Prop where
  running : t.paused id = false
  unexpired : ∀ text ∈ raw.expiresAt, ∀ instant ∈ p.parseDate text, now < instant
  below : ∀ cap ∈ raw.maxRedemptions, redemptionCount t id < cap
  interval : ∀ only ∈ raw.restrictInterval, only = interval

/-- A key of the list as it was entered; no list and the empty one admit every plan. -/
def AdmitsPlan (p : Platform) (raw : CreateCouponInput) (plan : PlanKey) : Prop :=
  ∀ keys ∈ raw.restrictPlanKeys, keys = [] ∨ ∃ key ∈ keys, p.toLowerCase (trim key) = plan.name

/-- A fixed amount comes off a price in its own currency. -/
def AdmitsCurrency (raw : CreateCouponInput) (currency : PriceCurrency) : Prop :=
  raw.kind = .fixed → raw.currency = some currency

def grantedDiscount (raw : CreateCouponInput) (price : Nat) : Int :=
  match raw.kind with
  | .percent => ⌊(price * raw.value : ℚ) / 100 + 1 / 2⌋
  | .fixed => min raw.value price

/-- **The code is accepted where the coupon is granted**, and the discount is the one granted. -/
structure Agrees (p : Platform) (raw : CreateCouponInput) (t : Tables) (id typed : String)
    (plan : PlanKey) (interval : BillingInterval) (currency : PriceCurrency) (price : Nat)
    (now : Int) : Prop where
  accepts : (∃ r, validate p t typed plan.name interval price now = .ok r) ↔
    Live p raw t id interval now ∧ AdmitsPlan p raw plan ∧ AdmitsCurrency raw currency
  discount : ∀ r, validate p t typed plan.name interval price now = .ok r → r.couponId = id ∧
    r.discountMinor = grantedDiscount raw price ∧ 0 ≤ r.discountMinor ∧ r.discountMinor ≤ price

/-- The pieces of the keys at their commas, as the text of the column is read. -/
def pieces (p : Platform) (keys : List String) : List String :=
  ((keys.flatMap fun key => splitAtChar ',' (p.toLowerCase (trim key))).map fun k =>
    p.toLowerCase (trim k)).filter (· ≠ "")

/-- **A plan that no key names gets in**: it is a piece of a key, or no key has a piece. -/
def Misread (p : Platform) (raw : CreateCouponInput) (plan : PlanKey) : Prop :=
  ∃ keys ∈ raw.restrictPlanKeys, keys ≠ [] ∧
    (∀ key ∈ keys, p.toLowerCase (trim key) ≠ plan.name) ∧
    (pieces p keys = [] ∨ plan.name ∈ pieces p keys)

/-! ### The list of plans -/

section

variable {p : Platform}

theorem splitOn_intercalate_flatMap {α : Type*} [DecidableEq α] (x : α) {ls : List (List α)}
    (h : ls ≠ []) : ([x].intercalate ls).splitOn x = ls.flatMap (List.splitOn x) := by
  induction ls with
  | nil => exact absurd rfl h
  | cons l ls ih =>
    cases ls with
    | nil => simp
    | cons l' ls =>
      have hcons : [x].intercalate (l :: l' :: ls) = l ++ x :: [x].intercalate (l' :: ls) := by
        simp [List.intercalate, List.intersperse]
      rw [hcons, List.splitOn_append_cons_self, ih (List.cons_ne_nil _ _)]
      exact List.flatMap_cons.symm

theorem splitAtChar_join {keys : List String} (h : keys ≠ []) :
    splitAtChar ',' (",".intercalate keys) = keys.flatMap (splitAtChar ',') := by
  rw [splitAtChar, String.toList_intercalate, show ",".toList = [','] from rfl,
    splitOn_intercalate_flatMap ',' (by simpa using h), List.flatMap_map, List.map_flatMap]
  rfl

/-- **What is read of the column.** -/
theorem parseRestrictPlanKeys_stored {keys : List String} (h : keys ≠ []) :
    parseRestrictPlanKeys p (planKeysToStored p (some (keys.map trim))) =
      if pieces p keys = [] then none else some (pieces p keys) := by
  have hstored : planKeysToStored p (some (keys.map trim)) =
      some (",".intercalate (keys.map fun key => p.toLowerCase (trim key))) := by
    cases keys with
    | nil => exact absurd rfl h
    | cons key keys =>
      rw [List.map_cons, planKeysToStored, ← List.map_cons, List.map_map]
      · exact congrArg some (congrArg _ (List.map_congr_left fun k _ => by
          rw [Function.comp_apply, trim_trim]))
      · exact List.cons_ne_nil _ _
  have hsplit : splitAtChar ',' (",".intercalate (keys.map fun key => p.toLowerCase (trim key))) =
      keys.flatMap fun key => splitAtChar ',' (p.toLowerCase (trim key)) := by
    rw [splitAtChar_join (by simpa using h), List.flatMap_map]
  rw [hstored, parseRestrictPlanKeys, hsplit]
  simp only [List.length_pos_iff, ne_eq, ite_not]
  rfl

theorem toLowerCase_name (hp : LowersAscii p) (plan : PlanKey) :
    p.toLowerCase plan.name = plan.name := by
  rw [hp plan.name (forall_mem_of_all (by cases plan <;> decide))]
  cases plan <;> decide

/-- The name of a plan is one piece of itself. -/
theorem name_mem_pieces (hp : LowersAscii p) {plan : PlanKey} {keys : List String} {key : String}
    (hkey : key ∈ keys) (h : p.toLowerCase (trim key) = plan.name) :
    plan.name ∈ pieces p keys := by
  have hsplit : splitAtChar ',' plan.name = [plan.name] := by cases plan <;> decide
  have htrim : trim plan.name = plan.name := by cases plan <;> decide
  rw [pieces, List.mem_filter, List.mem_map]
  refine ⟨⟨plan.name, List.mem_flatMap.mpr ⟨key, hkey, ?_⟩, ?_⟩, by cases plan <;> decide⟩
  · rw [h, hsplit]
    exact List.mem_singleton_self _
  · rw [htrim, toLowerCase_name hp]

/-- **The column lets in the plans that a key names, and the ones that are misread.** -/
theorem column_admits_iff (hp : LowersAscii p) (raw : CreateCouponInput) (plan : PlanKey) :
    (∀ keys ∈ parseRestrictPlanKeys p (planKeysToStored p
        (raw.restrictPlanKeys.map fun keys => keys.map trim)), plan.name ∈ keys) ↔
      AdmitsPlan p raw plan ∨ Misread p raw plan := by
  rw [AdmitsPlan, Misread]
  cases hkeys : raw.restrictPlanKeys with
  | none => simp [planKeysToStored, parseRestrictPlanKeys]
  | some keys =>
    by_cases hnil : keys = []
    · subst hnil
      simp [planKeysToStored, parseRestrictPlanKeys]
    · rw [Option.map_some, parseRestrictPlanKeys_stored hnil]
      by_cases hnamed : ∃ key ∈ keys, p.toLowerCase (trim key) = plan.name
      · obtain ⟨key, hkey, hname⟩ := hnamed
        have hmem := name_mem_pieces hp hkey hname
        refine iff_of_true (fun found hfound => ?_) (Or.inl fun keys' hkeys' => ?_)
        · rw [if_neg (List.ne_nil_of_mem hmem)] at hfound
          obtain rfl := Option.some.inj hfound
          exact hmem
        · obtain rfl := Option.some.inj hkeys'
          exact Or.inr ⟨key, hkey, hname⟩
      · have hnone : ∀ key ∈ keys, p.toLowerCase (trim key) ≠ plan.name := by
          intro key hkey hname
          exact hnamed ⟨key, hkey, hname⟩
        by_cases hpieces : pieces p keys = []
        · refine iff_of_true ?_ (Or.inr ⟨keys, rfl, hnil, hnone, Or.inl hpieces⟩)
          rw [if_pos hpieces]
          exact fun found hfound => by cases hfound
        · rw [if_neg hpieces]
          constructor
          · exact fun h => Or.inr ⟨keys, rfl, hnil, hnone, Or.inr (h _ rfl)⟩
          · rintro (hadmits | ⟨keys', hkeys', -, -, hempty | hmem⟩) found hfound
            · rcases hadmits keys rfl with hempty | hkey
              · exact absurd hempty hnil
              · exact absurd hkey hnamed
            · obtain rfl := Option.some.inj hkeys'
              exact absurd hempty hpieces
            · obtain rfl := Option.some.inj hkeys'
              obtain rfl := Option.some.inj hfound
              exact hmem

end

/-! ### Writes -/

/-- One row for an id and for a code. -/
structure Tables.Indexed (t : Tables) : Prop where
  ids : (t.coupons.map CouponRow.id).Nodup
  codes : (t.coupons.map CouponRow.key).Nodup

/-- The row, whatever has become of its counter and of its pause. -/
def Tables.Holds (row : CouponRow) (t : Tables) : Prop :=
  ∃ redeemedCount pausedAt,
    { row with redeemedCount := redeemedCount, pausedAt := pausedAt } ∈ t.coupons

section

variable {p : Platform} {t : Tables} {id : String} {input : CreateCouponInput}

theorem create_eq_some {t' : Tables} (h : create p t id input = some t') :
    ∃ expiresAt, storedDate p input.expiresAt = some expiresAt ∧
      (∀ other ∈ t.coupons, other.id ≠ id ∧ other.key ≠ (couponRow p id input expiresAt).key) ∧
      t' = { t with coupons := t.coupons ++ [couponRow p id input expiresAt] } := by
  obtain ⟨expiresAt, hdate, hrow⟩ := Option.bind_eq_some_iff.mp h
  dsimp only at hrow
  split at hrow
  · next hfits =>
    rw [Bool.and_eq_true, List.all_eq_true] at hfits
    exact ⟨expiresAt, hdate, fun other hother => by simpa using hfits.2 other hother,
      (Option.some.inj hrow).symm⟩
  · cases hrow

/-- An update of a row that leaves its id and its code. -/
theorem map_update {β : Type*} {g : CouponRow → β} {f : CouponRow → CouponRow}
    (h : ∀ row, g (f row) = g row) (l : List CouponRow) :
    (l.map (CouponRow.update id f)).map g = l.map g := by
  rw [List.map_map]
  refine List.map_congr_left fun row _ => ?_
  rw [Function.comp_apply, CouponRow.update]
  split
  · exact h row
  · rfl

theorem Tables.Indexed.update (h : t.Indexed) (f : CouponRow → CouponRow)
    (hid : ∀ row, (f row).id = row.id) (hkey : ∀ row, (f row).key = row.key)
    (redemptions : List CouponRedemption) :
    Tables.Indexed ⟨t.coupons.map (CouponRow.update id f), redemptions⟩ where
  ids := by
    rw [map_update hid]
    exact h.ids
  codes := by
    rw [map_update hkey]
    exact h.codes

theorem Tables.Indexed.create (h : t.Indexed) {t' : Tables}
    (hcreate : create p t id input = some t') : t'.Indexed := by
  obtain ⟨expiresAt, -, hfresh, rfl⟩ := create_eq_some hcreate
  constructor
  · rw [List.map_append]
    refine List.Nodup.append h.ids (List.nodup_singleton _) fun other hother hmem => ?_
    obtain ⟨row, hrow, rfl⟩ := List.mem_map.mp hother
    exact (hfresh row hrow).1 (List.mem_singleton.mp hmem)
  · rw [List.map_append]
    refine List.Nodup.append h.codes (List.nodup_singleton _) fun other hother hmem => ?_
    obtain ⟨row, hrow, rfl⟩ := List.mem_map.mp hother
    exact (hfresh row hrow).2 (List.mem_singleton.mp hmem)

/-- **No write makes two rows with one code.** -/
theorem Tables.Indexed.apply (h : t.Indexed) (w : Write) : (t.apply p w).Indexed := by
  cases w with
  | create id input =>
    rw [Tables.apply]
    cases hcreate : CouponRules.create p t id input with
    | none => exact h
    | some t' => exact h.create hcreate
  | setPaused id paused now => exact h.update (.pause _) (fun _ => rfl) (fun _ => rfl) _
  | remove id =>
    exact ⟨h.ids.sublist (List.filter_sublist.map _), h.codes.sublist (List.filter_sublist.map _)⟩
  | redeem redemption =>
    rw [Tables.apply]
    split
    · exact h.update .count (fun _ => rfl) (fun _ => rfl) _
    · exact h

theorem Tables.Holds.update {row : CouponRow} (h : t.Holds row) {f : CouponRow → CouponRow}
    (hf : ∀ n pausedAt, ∃ n' pausedAt', f { row with redeemedCount := n, pausedAt := pausedAt } =
      { row with redeemedCount := n', pausedAt := pausedAt' })
    (redemptions : List CouponRedemption) :
    Tables.Holds row ⟨t.coupons.map (CouponRow.update id f), redemptions⟩ := by
  obtain ⟨n, pausedAt, hmem⟩ := h
  have hmap := List.mem_map_of_mem (f := CouponRow.update id f) hmem
  rw [CouponRow.update] at hmap
  split at hmap
  · obtain ⟨n', pausedAt', heq⟩ := hf n pausedAt
    rw [heq] at hmap
    exact ⟨n', pausedAt', hmap⟩
  · exact ⟨n, pausedAt, hmap⟩

/-- **A row stays until it is removed.** -/
theorem Tables.Holds.apply {row : CouponRow} (h : t.Holds row) {w : Write}
    (hw : w ≠ .remove row.id) : (t.apply p w).Holds row := by
  cases w with
  | create id input =>
    rw [Tables.apply]
    cases hcreate : CouponRules.create p t id input with
    | none => exact h
    | some t' =>
      obtain ⟨expiresAt, -, -, rfl⟩ := create_eq_some hcreate
      obtain ⟨n, pausedAt, hmem⟩ := h
      exact ⟨n, pausedAt, List.mem_append_left _ hmem⟩
  | setPaused id paused now => exact h.update (fun n _ => ⟨n, _, rfl⟩) _
  | remove id =>
    obtain ⟨n, pausedAt, hmem⟩ := h
    refine ⟨n, pausedAt, List.mem_filter.mpr ⟨hmem, decide_eq_true fun heq => hw ?_⟩⟩
    rw [← heq]
  | redeem redemption =>
    rw [Tables.apply]
    split
    · exact h.update (fun n pausedAt => ⟨n + 1, pausedAt, rfl⟩) _
    · exact h

theorem Tables.indexed_run (writes : List Write) (h : t.Indexed) :
    (writes.foldl (Tables.apply p) t).Indexed := by
  induction writes generalizing t with
  | nil => exact h
  | cons w writes ih => exact ih (h.apply w)

theorem Tables.holds_run {row : CouponRow} (writes : List Write) (h : t.Holds row)
    (hkept : Write.remove row.id ∉ writes) : (writes.foldl (Tables.apply p) t).Holds row := by
  induction writes generalizing t with
  | nil => exact h
  | cons w writes ih =>
    rw [List.mem_cons, not_or] at hkept
    exact ih (h.apply (Ne.symm hkept.1)) hkept.2

end

/-! ### What `validate` accepts -/

section

variable {p : Platform} {raw input : CreateCouponInput} {isDatetime : String → Bool}

/-- What an accepted input is known to be. -/
structure Accepted (raw input : CreateCouponInput) : Prop where
  eq : input = { raw with
    code := trim raw.code
    restrictPlanKeys := raw.restrictPlanKeys.map fun keys => keys.map trim }
  ascii : ∀ c ∈ (trim raw.code).toList, c.toNat < 128
  value : 1 ≤ raw.value
  percent : raw.kind = .percent → raw.value ≤ 100
  dated : ∀ text ∈ raw.expiresAt, text ≠ ""

theorem ascii_of_isCouponCode {l : List Char} (h : isCouponCode l = true) :
    ∀ c ∈ l, c.toNat < 128 := by
  have hslug : ∀ c ∈ l, isSlugChar c = true := by
    cases l with
    | nil => cases h
    | cons d l =>
      rw [isCouponCode, Bool.and_eq_true, List.all_eq_true] at h
      intro c hc
      rcases List.mem_cons.mp hc with rfl | hc
      · have halnum := h.1
        rw [Char.isAlphanum] at halnum
        simp [isSlugChar, halnum]
      · have hchar := h.2 c hc
        rw [Char.isAlphanum, Bool.or_eq_true, Bool.or_eq_true] at hchar
        rcases hchar with (halnum | hline) | hdash
        · simp [isSlugChar, halnum]
        · simp [isSlugChar, of_decide_eq_true hline]
        · simp [isSlugChar, of_decide_eq_true hdash]
  exact fun c hc => toNat_lt_of_isSlugChar (hslug c hc)

theorem accepted_of_parse (h : raw.parse isDatetime = some input) : Accepted raw input := by
  rw [CreateCouponInput.parse] at h
  split at h
  · next hchecks =>
    obtain rfl := Option.some.inj h
    simp only [Bool.and_eq_true, decide_eq_true_eq] at hchecks
    obtain ⟨⟨⟨⟨⟨⟨⟨-, hcode⟩, hvalue⟩, -⟩, hdate⟩, -⟩, -⟩, hconsistent⟩ := hchecks
    simp only [CreateCouponInput.consistent, Bool.and_eq_true, Bool.not_eq_true'] at hconsistent
    obtain ⟨⟨⟨hpercent, -⟩, -⟩, -⟩ := hconsistent
    refine ⟨rfl, ascii_of_isCouponCode hcode, hvalue, fun hkind => ?_, fun text htext hempty => ?_⟩
    · rw [hkind] at hpercent
      simpa using hpercent
    · rw [Option.mem_def.mp htext, hempty] at hdate
      simp at hdate
  · cases h

theorem toNat_toLower_lt_iff {c : Char} : c.toLower.toNat < 128 ↔ c.toNat < 128 := by
  constructor
  · intro h
    by_cases hupper : c.val ≥ 'A'.val ∧ c.val ≤ 'Z'.val
    · exact lt_of_le_of_lt hupper.2 (by decide)
    · have hsame : c.toLower = c := dif_neg hupper
      rwa [hsame] at h
  · intro h
    have hall : ∀ n < 128, (Char.ofNat n).toLower.toNat < 128 := by decide +kernel
    have hc := hall c.toNat h
    rwa [Char.ofNat_toNat] at hc

/-- **A code is found whatever the case of its letters.** -/
theorem toLowerCase_typed (hp : LowersAscii p) {typed code : String}
    (hascii : ∀ c ∈ code.toList, c.toNat < 128) (h : asciiLower typed = asciiLower code) :
    p.toLowerCase typed = asciiLower code := by
  have hmap : typed.toList.map Char.toLower = code.toList.map Char.toLower := by
    simpa [asciiLower] using congrArg String.toList h
  rw [← h]
  refine hp typed fun c hc => toNat_toLower_lt_iff.mp ?_
  have hmem := List.mem_map_of_mem (f := Char.toLower) hc
  rw [hmap] at hmem
  obtain ⟨d, hd, heq⟩ := List.mem_map.mp hmem
  rw [← heq]
  exact toNat_toLower_lt_iff.mpr (hascii d hd)

/-! ### The discount -/

theorem roundHalfUp_eq (amount : ℚ) : roundHalfUp amount = roundMinorHalfUp amount := rfl

theorem discountMinor_granted (h : Accepted raw input) (price : Nat) :
    discountMinor raw.kind raw.value price = grantedDiscount raw price ∧
      0 ≤ grantedDiscount raw price ∧ grantedDiscount raw price ≤ price := by
  have hvalue := h.value
  unfold discountMinor grantedDiscount
  cases hkind : raw.kind with
  | fixed =>
    dsimp only
    omega
  | percent =>
    have hpercent := h.percent hkind
    have hpos : (0 : ℚ) ≤ (price * raw.value : ℚ) / 100 := by
      have hvalue' : (0 : ℚ) ≤ raw.value := by exact_mod_cast (by omega : (0 : Int) ≤ raw.value)
      positivity
    have hle : (price * raw.value : ℚ) / 100 ≤ price := by
      have hvalue' : (raw.value : ℚ) ≤ 100 := by exact_mod_cast hpercent
      rw [div_le_iff₀ (by norm_num)]
      exact mul_le_mul_of_nonneg_left hvalue' (Nat.cast_nonneg price)
    have hlow : 0 ≤ roundHalfUp ((price * raw.value : ℚ) / 100) := by
      rw [roundHalfUp_eq, roundMinorHalfUp_of_nonneg hpos]
      exact Int.floor_nonneg.mpr (by linarith)
    have hhigh : roundHalfUp ((price * raw.value : ℚ) / 100) ≤ price := by
      rw [roundHalfUp_eq, ← roundMinorHalfUp_natCast price]
      exact roundMinorHalfUp_mono hpos hle
    have hround : roundHalfUp ((price * raw.value : ℚ) / 100) =
        ⌊(price * raw.value : ℚ) / 100 + 1 / 2⌋ := roundMinorHalfUp_of_nonneg hpos
    dsimp only
    rw [Int.cast_natCast, ← hround]
    omega

/-! ### The check -/

theorem ite_some_eq_none {α : Type*} {b : Bool} {x : α} {rest : Option α} :
    (if b then some x else rest) = none ↔ b = false ∧ rest = none := by
  cases b <;> simp

theorem couponRejection_eq_none_iff {coupon : RedeemableCoupon} {planKey : String}
    {interval : BillingInterval} {count now : Int} :
    couponRejection p coupon planKey interval count now = none ↔
      coupon.pausedAt = none ∧ (∀ instant ∈ coupon.expiresAt, now < instant) ∧
        (∀ cap ∈ coupon.maxRedemptions, count < cap) ∧
        (∀ keys ∈ coupon.restrictPlanKeys, p.toLowerCase planKey ∈ keys) ∧
        ∀ only ∈ coupon.restrictInterval, only = interval := by
  rw [couponRejection, ite_some_eq_none, ite_some_eq_none, ite_some_eq_none, ite_some_eq_none,
    ite_some_eq_none, Option.any_eq_false, Option.any_eq_false, Option.any_eq_false,
    Option.any_eq_false]
  simp

/-- The instant in the column is the one that was entered. -/
theorem unexpired_iff {expiresAt : Option String} {column : Option Int} {now : Int}
    (hdated : ∀ text ∈ expiresAt, text ≠ "") (hdate : storedDate p expiresAt = some column) :
    (∀ instant ∈ column, now < instant) ↔
      ∀ text ∈ expiresAt, ∀ instant ∈ p.parseDate text, now < instant := by
  cases expiresAt with
  | none =>
    obtain rfl := Option.some.inj hdate
    simp
  | some text =>
    rw [storedDate, if_neg (hdated text rfl)] at hdate
    obtain ⟨instant, hparse, rfl⟩ := Option.map_eq_some_iff.mp hdate
    simp [hparse]

/-- The tables hold the row of the coupon. -/
structure Kept (p : Platform) (raw : CreateCouponInput) (id : String) (t : Tables) : Prop where
  indexed : t.Indexed
  holds : ∃ input expiresAt, Accepted raw input ∧ storedDate p raw.expiresAt = some expiresAt ∧
    t.Holds (couponRow p id input expiresAt)

variable {t : Tables} {id typed : String} {plan : PlanKey} {interval : BillingInterval}
  {currency : PriceCurrency} {price : Nat} {now : Int}

theorem paused_eq_false_iff (h : t.Indexed) {row : CouponRow} (hrow : row ∈ t.coupons) :
    t.paused row.id = false ↔ row.pausedAt = none := by
  rw [Tables.paused, List.any_eq_false]
  constructor
  · intro hall
    simpa using hall row hrow
  · intro hpaused other hother hboth
    rw [Bool.and_eq_true, decide_eq_true_eq] at hboth
    obtain rfl := List.inj_on_of_nodup_map h.ids hother hrow hboth.1
    rw [hpaused] at hboth
    cases hboth.2

/-- **What `validate` accepts.** -/
theorem validate_eq_ok_iff (hp : LowersAscii p) (h : Kept p raw id t)
    (htyped : asciiLower (trim typed) = asciiLower (trim raw.code)) {r : ResolvedCoupon} :
    validate p t typed plan.name interval price now = .ok r ↔
      (Live p raw t id interval now ∧ (AdmitsPlan p raw plan ∨ Misread p raw plan)) ∧
      ⟨id, trim raw.code, none, discountMinor raw.kind raw.value price⟩ = r := by
  obtain ⟨input, expiresAt, haccepted, hdate, n, pausedAt, hmem⟩ := h.holds
  obtain rfl := haccepted.eq
  generalize hrow : { couponRow p id _ expiresAt with
    redeemedCount := n, pausedAt := pausedAt } = row at hmem
  have hfind : findByCode p t typed = some row := by
    refine (Lib.find?_key_eq_some_iff h.indexed.codes).mpr ⟨hmem, ?_⟩
    rw [toLowerCase_typed hp haccepted.ascii htyped, ← hrow]
    exact congrArg asciiLower (trim_trim raw.code)
  have hpaused := paused_eq_false_iff h.indexed hmem
  rw [validate, hfind]
  dsimp only
  have hlive : Live p raw t id interval now ↔ row.pausedAt = none ∧
      (∀ instant ∈ expiresAt, now < instant) ∧
      (∀ cap ∈ raw.maxRedemptions, (redemptionCount t id : Int) < cap) ∧
      ∀ only ∈ raw.restrictInterval, only = interval := by
    rw [unexpired_iff haccepted.dated hdate, ← hpaused]
    subst hrow
    exact ⟨fun h => ⟨h.running, h.unexpired, h.below, h.interval⟩,
      fun h => ⟨h.1, h.2.1, h.2.2.1, h.2.2.2⟩⟩
  have hreject : couponRejection p (toRedeemable p row) plan.name interval
      (redemptionCount t row.id) now = none ↔
      Live p raw t id interval now ∧ (AdmitsPlan p raw plan ∨ Misread p raw plan) := by
    rw [couponRejection_eq_none_iff, toLowerCase_name hp, hlive, ← column_admits_iff hp]
    subst hrow
    exact ⟨fun h => ⟨⟨h.1, h.2.1, h.2.2.1, h.2.2.2.2⟩, h.2.2.2.1⟩,
      fun h => ⟨h.1.1, h.1.2.1, h.1.2.2.1, h.2, h.1.2.2.2⟩⟩
  have hresolved : (⟨row.id, row.code, row.providerOfferId,
      discountMinor row.kind row.value price⟩ : ResolvedCoupon) =
      ⟨id, trim raw.code, none, discountMinor raw.kind raw.value price⟩ := by
    subst hrow
    exact congrArg (fun code => (⟨id, code, none, _⟩ : ResolvedCoupon)) (trim_trim raw.code)
  cases hreason : couponRejection p (toRedeemable p row) plan.name interval
      (redemptionCount t row.id) now with
  | none =>
    rw [hresolved, Except.ok.injEq]
    exact (and_iff_right (hreject.mp hreason)).symm
  | some reason =>
    refine iff_of_false (fun heq => by cases heq) fun hgranted => ?_
    rw [hreject.mpr hgranted.1] at hreason
    cases hreason

/-- **What has to be so for the code to be accepted just where the coupon is granted.** -/
theorem agrees_of_kept (hp : LowersAscii p) (h : Kept p raw id t)
    (htyped : asciiLower (trim typed) = asciiLower (trim raw.code)) :
    Agrees p raw t id typed plan interval currency price now ↔
      (Live p raw t id interval now →
        ¬ Misread p raw plan ∧ (AdmitsPlan p raw plan → AdmitsCurrency raw currency)) := by
  obtain ⟨input, -, haccepted, -⟩ := h.holds
  have hdiscount := discountMinor_granted haccepted price
  have haccepts : (∃ r, validate p t typed plan.name interval price now = .ok r) ↔
      Live p raw t id interval now ∧ (AdmitsPlan p raw plan ∨ Misread p raw plan) := by
    constructor
    · rintro ⟨r, hr⟩
      exact ((validate_eq_ok_iff hp h htyped).mp hr).1
    · exact fun hgranted => ⟨_, (validate_eq_ok_iff hp h htyped).mpr ⟨hgranted, rfl⟩⟩
  have hmisread : Misread p raw plan → ¬ AdmitsPlan p raw plan := by
    rintro ⟨keys, hkeys, hne, hnone, -⟩ hadmits
    rcases hadmits keys hkeys with hempty | ⟨key, hkey, hname⟩
    · exact hne hempty
    · exact hnone key hkey hname
  constructor
  · intro hagrees hlive
    have hiff := haccepts.symm.trans hagrees.accepts
    refine ⟨fun hmis => ?_, fun hadmits => ?_⟩
    · exact hmisread hmis (hiff.mp ⟨hlive, Or.inr hmis⟩).2.1
    · exact (hiff.mp ⟨hlive, Or.inl hadmits⟩).2.2
  · intro hcondition
    refine ⟨haccepts.trans ⟨?_, ?_⟩, fun r hr => ?_⟩
    · rintro ⟨hlive, hadmits | hmis⟩
      · exact ⟨hlive, hadmits, (hcondition hlive).2 hadmits⟩
      · exact absurd hmis (hcondition hlive).1
    · rintro ⟨hlive, hadmits, -⟩
      exact ⟨hlive, Or.inl hadmits⟩
    · obtain ⟨-, rfl⟩ := (validate_eq_ok_iff hp h htyped).mp hr
      exact ⟨rfl, hdiscount.1, hdiscount.1.symm ▸ hdiscount.2⟩

theorem kept_create {t' : Tables} (hparse : raw.parse isDatetime = some input) (ht : t.Indexed)
    (hcreate : create p t id input = some t') : Kept p raw id t' := by
  have haccepted := accepted_of_parse hparse
  obtain ⟨expiresAt, hdate, -, heq⟩ := create_eq_some hcreate
  refine ⟨ht.create hcreate, input, expiresAt, haccepted, ?_, 0, none, ?_⟩
  · rw [haccepted.eq] at hdate
    exact hdate
  · rw [heq]
    exact List.mem_append_right _ (List.mem_singleton_self _)

theorem Kept.run (h : Kept p raw id t) (writes : List Write) (hkept : Write.remove id ∉ writes) :
    Kept p raw id (writes.foldl (Tables.apply p) t) := by
  obtain ⟨input, expiresAt, haccepted, hdate, hholds⟩ := h.holds
  exact ⟨Tables.indexed_run writes h.indexed, input, expiresAt, haccepted, hdate,
    Tables.holds_run writes hholds hkept⟩

end

def emptyTables : Tables := ⟨[], []⟩

/-- **A coupon that was created is accepted just where it was granted exactly when no piece of a key
lets in a plan that no key names, and no fixed amount meets a price in another currency**, whatever
has been written before and since. -/
theorem agrees_iff {p : Platform} (hp : LowersAscii p) {isDatetime : String → Bool}
    {raw input : CreateCouponInput} (hparse : raw.parse isDatetime = some input)
    (before : List Write) {id : String} {created : Tables}
    (hcreate : create p (before.foldl (Tables.apply p) emptyTables) id input = some created)
    (writes : List Write) (hkept : Write.remove id ∉ writes) {typed : String}
    (htyped : asciiLower (trim typed) = asciiLower (trim raw.code)) (plan : PlanKey)
    (interval : BillingInterval) (currency : PriceCurrency) (price : Nat) (now : Int) :
    Agrees p raw (writes.foldl (Tables.apply p) created) id typed plan interval currency price now ↔
      (Live p raw (writes.foldl (Tables.apply p) created) id interval now →
        ¬ Misread p raw plan ∧ (AdmitsPlan p raw plan → AdmitsCurrency raw currency)) := by
  have hindexed : (before.foldl (Tables.apply p) emptyTables).Indexed :=
    Tables.indexed_run before ⟨List.nodup_nil, List.nodup_nil⟩
  exact agrees_of_kept hp ((kept_create hparse hindexed hcreate).run writes hkept) htyped

/-! ### Two coupons -/

/-- Two hundred rupees off, for the plans that are entered. -/
def flatOff (restrictPlanKeys : Option (List String)) : CreateCouponInput where
  code := "FLAT200"
  kind := .fixed
  value := 20000
  currency := some .INR
  duration := .once
  durationMonths := none
  expiresAt := none
  maxRedemptions := none
  restrictPlanKeys := restrictPlanKeys
  restrictInterval := none

def flatTables (restrictPlanKeys : Option (List String)) : Tables :=
  ⟨[couponRow Redirect.samplePlatform "C1" (flatOff restrictPlanKeys) none], []⟩

theorem agrees_rupees :
    Agrees Redirect.samplePlatform (flatOff none) (flatTables none) "C1" " flat200 " .pro .monthly
        .INR 49900 0 ↔
      (Live Redirect.samplePlatform (flatOff none) (flatTables none) "C1" .monthly 0 →
        ¬ Misread Redirect.samplePlatform (flatOff none) .pro ∧
        (AdmitsPlan Redirect.samplePlatform (flatOff none) .pro →
          AdmitsCurrency (flatOff none) .INR)) :=
  @agrees_iff Redirect.samplePlatform (fun _ _ => rfl) (fun _ => true) (flatOff none) (flatOff none)
    (by decide) [] "C1" (flatTables none) (by decide) [] (by decide) " flat200 " (by decide)
    .pro .monthly .INR 49900 0

/-- **Two hundred rupees come off a price in dollars as two hundred dollars**, and a key with a
comma lets in the plans at both its sides. -/
theorem not_agrees :
    (flatOff none).parse (fun _ => true) = some (flatOff none) ∧
      create Redirect.samplePlatform emptyTables "C1" (flatOff none) = some (flatTables none) ∧
      ¬ Agrees Redirect.samplePlatform (flatOff none) (flatTables none) "C1" "FLAT200" .pro
        .monthly .USD 49900 0 ∧
      (flatOff (some ["pro,team"])).parse (fun _ => true) = some (flatOff (some ["pro,team"])) ∧
      create Redirect.samplePlatform emptyTables "C1" (flatOff (some ["pro,team"])) =
        some (flatTables (some ["pro,team"])) ∧
      ¬ Agrees Redirect.samplePlatform (flatOff (some ["pro,team"]))
        (flatTables (some ["pro,team"])) "C1" "FLAT200" .pro .monthly .INR 49900 0 := by
  refine ⟨by decide, by decide, fun h => ?_, by decide, by decide, fun h => ?_⟩
  · obtain ⟨-, -, hcurrency⟩ := h.accepts.mp ⟨⟨"C1", "FLAT200", none, 20000⟩, by decide⟩
    exact absurd (hcurrency rfl) (by decide)
  · obtain ⟨-, hplan, -⟩ := h.accepts.mp ⟨⟨"C1", "FLAT200", none, 20000⟩, by decide⟩
    exact absurd (hplan _ rfl) (by decide)

end SnapUrl.Billing.CouponRules
