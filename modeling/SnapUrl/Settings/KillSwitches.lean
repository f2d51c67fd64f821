import Mathlib.Algebra.Order.Ring.Rat
import SnapUrl.Lib.JsValue

/-!
# Kill switches

`packages/contract/src/kill-switches.ts`, and the two services that read the stored set:
the API through `PlatformSettingsService.load`, the worker through
`readKillSwitchesFailClosed`.

* `foldKillSwitches`: the set entry by entry, a default in place of an entry that does not
  parse.
* `parseKillSwitchesSetting`: the set as a whole, which one bad entry spoils.
* `switchesAgree_iff`: **the services enforce one set exactly when every stored entry is well
  formed, or no well-formed entry differs from its default.**
-/

namespace SnapUrl.Settings

open Lib

/-! ### The switches -/

inductive KillSwitchKey where
  | billingCheckout
  | billingPlanChanges
  | billingCoupons
  | billingTrials
  | billingRefunds
  | customDomainsCreate
  | emailOutbound
  | errorTracking
  | linkScanningRescans
deriving DecidableEq, Repr

/-- The key as it is written. -/
def KillSwitchKey.name : KillSwitchKey → String
  | .billingCheckout => "billing.checkout"
  | .billingPlanChanges => "billing.planChanges"
  | .billingCoupons => "billing.coupons"
  | .billingTrials => "billing.trials"
  | .billingRefunds => "billing.refunds"
  | .customDomainsCreate => "customDomains.create"
  | .emailOutbound => "email.outbound"
  | .errorTracking => "errorTracking"
  | .linkScanningRescans => "linkScanning.rescans"

/-- `KILL_SWITCH_KEYS`. -/
def killSwitchKeys : List KillSwitchKey :=
  [.billingCheckout, .billingPlanChanges, .billingCoupons, .billingTrials, .billingRefunds,
    .customDomainsCreate, .emailOutbound, .errorTracking, .linkScanningRescans]

theorem mem_killSwitchKeys (key : KillSwitchKey) : key ∈ killSwitchKeys := by
  cases key <;> decide

/-- `PAID_KILL_SWITCH_KEYS`. -/
def paidKillSwitchKeys : List KillSwitchKey :=
  [.billingCheckout, .billingPlanChanges, .billingCoupons, .billingTrials, .billingRefunds,
    .customDomainsCreate]

structure CustomDomainsCaps where
  totalMax : Nat
  perDay : Nat
deriving DecidableEq, Repr

structure EmailCaps where
  perHour : Nat
  perDay : Nat
deriving DecidableEq, Repr

structure ErrorTrackingCaps where
  sampleRate : ℚ
deriving DecidableEq, Repr

structure KillSwitchState where
  on : Bool
  domainCaps : Option CustomDomainsCaps
  emailCaps : Option EmailCaps
  errorCaps : Option ErrorTrackingCaps
deriving DecidableEq, Repr

/-- One state for each key. -/
abbrev KillSwitchesSetting := KillSwitchKey → KillSwitchState

/-- A switch that has no caps. -/
def plainSwitch (on : Bool) : KillSwitchState := ⟨on, none, none, none⟩

/-- `DEFAULT_KILL_SWITCHES`. -/
def defaultKillSwitches : KillSwitchesSetting
  | .customDomainsCreate => { plainSwitch false with domainCaps := some ⟨25, 5⟩ }
  | .emailOutbound => { plainSwitch true with emailCaps := some ⟨200, 2000⟩ }
  | .errorTracking => { plainSwitch true with errorCaps := some ⟨1⟩ }
  | .linkScanningRescans => plainSwitch true
  | _ => plainSwitch false

/-! ### Parsing -/

/-- `z.boolean()`. -/
def parseBoolean : JsValue → Option Bool
  | .bool b => some b
  | _ => none

/-- `z.number().int().min(0).max(10_000_000)`. -/
def parseCap : JsValue → Option Nat
  | .num q => if q.den = 1 ∧ 0 ≤ q ∧ q ≤ 10000000 then some q.num.toNat else none
  | _ => none

/-- `z.number().min(0).max(1)`. -/
def parseSampleRate : JsValue → Option ℚ
  | .num q => if 0 ≤ q ∧ q ≤ 1 then some q else none
  | _ => none

/-- A field that may be missing: a value that is there has to parse. -/
def parseOptional {α : Type} (parse : JsValue → Option α) : JsValue → Option (Option α)
  | .undefined => some none
  | v => (parse v).map some

/-- Only an object has fields to parse. -/
def ofObject {α : Type} (parse : JsValue → Option α) : JsValue → Option α
  | .obj fields => parse (.obj fields)
  | _ => none

def parseCustomDomainsCaps : JsValue → Option CustomDomainsCaps := ofObject fun v => do
  let totalMax ← parseCap (v.get "totalMax")
  let perDay ← parseCap (v.get "perDay")
  some ⟨totalMax, perDay⟩

def parseEmailCaps : JsValue → Option EmailCaps := ofObject fun v => do
  let perHour ← parseCap (v.get "perHour")
  let perDay ← parseCap (v.get "perDay")
  some ⟨perHour, perDay⟩

def parseErrorTrackingCaps : JsValue → Option ErrorTrackingCaps := ofObject fun v => do
  let sampleRate ← parseSampleRate (v.get "sampleRate")
  some ⟨sampleRate⟩

/-- `KillSwitchState.safeParse`. -/
def parseKillSwitchState : JsValue → Option KillSwitchState := ofObject fun v => do
  let on ← parseBoolean (v.get "on")
  let domainCaps ← parseOptional parseCustomDomainsCaps (v.get "domainCaps")
  let emailCaps ← parseOptional parseEmailCaps (v.get "emailCaps")
  let errorCaps ← parseOptional parseErrorTrackingCaps (v.get "errorCaps")
  some ⟨on, domainCaps, emailCaps, errorCaps⟩

/-- A stored entry, none when it is missing or malformed. -/
def entry (stored : JsValue) (key : KillSwitchKey) : Option KillSwitchState :=
  parseKillSwitchState (stored.get key.name)

/-- `KillSwitchesSetting.safeParse`: every key is required. -/
def parseKillSwitchesSetting : JsValue → Option KillSwitchesSetting := ofObject fun v =>
  if killSwitchKeys.all fun key => (entry v key).isSome then
    some fun key => (entry v key).getD (defaultKillSwitches key)
  else none

/-! ### The two services -/

/-- Fold a stored value onto the shipped defaults, entry by entry. -/
def foldKillSwitches : JsValue → KillSwitchesSetting
  | .obj fields => fun key => (entry (.obj fields) key).getD (defaultKillSwitches key)
  | _ => defaultKillSwitches

/-- Every paid switch forced off. -/
def failClosedKillSwitches : KillSwitchesSetting := fun key =>
  if key ∈ paidKillSwitchKeys then { defaultKillSwitches key with on := false }
  else defaultKillSwitches key

/-- The kill switches of a snapshot, from their row: a row that does not parse is ignored. -/
def load (row : Option JsValue) : KillSwitchesSetting :=
  (row.bind parseKillSwitchesSetting).getD defaultKillSwitches

/-- `KillSwitchService.current`, from a fresh read: none is a read that raised. -/
def current : Option (Option JsValue) → KillSwitchesSetting
  | none => failClosedKillSwitches
  | some row => load row

/-- The worker's set.  A missing row is read as `null`. -/
def readKillSwitchesFailClosed : Option (Option JsValue) → KillSwitchesSetting
  | none => failClosedKillSwitches
  | some row => foldKillSwitches (row.getD .null)

/-! ### What is claimed of them -/

/-- An entry that is missing or malformed takes its default, and every other one is as it
is stored. -/
def EntryWise (stored : JsValue) (s : KillSwitchesSetting) : Prop :=
  ∀ key, s key = (entry stored key).getD (defaultKillSwitches key)

/-- **The services enforce one set**, which takes the stored value entry by entry. -/
structure SwitchesAgree (stored : JsValue) : Prop where
  same : current (some (some stored)) = readKillSwitchesFailClosed (some (some stored))
  api : EntryWise stored (current (some (some stored)))
  worker : EntryWise stored (readKillSwitchesFailClosed (some (some stored)))

/-! ### When they agree -/

section

variable {stored : JsValue}

/-- What is not an object has no entries. -/
theorem entry_eq_none (h : ∀ fields, stored ≠ .obj fields) (key : KillSwitchKey) :
    entry stored key = none := by
  have hget : stored.get key.name = .undefined := by
    cases stored with
    | obj fields => exact absurd rfl (h fields)
    | _ => rfl
  rw [entry, hget]
  rfl

/-- **The worker takes every value entry by entry.** -/
theorem entryWise_foldKillSwitches (stored : JsValue) :
    EntryWise stored (foldKillSwitches stored) := by
  intro key
  cases stored with
  | obj fields => rfl
  | _ => rw [entry_eq_none (by simp)]; rfl

/-- The API takes a value whose entries are all well formed as it is. -/
theorem load_of_complete (h : ∀ key, (entry stored key).isSome = true) :
    EntryWise stored (load (some stored)) := by
  cases stored with
  | obj fields =>
    have hall : (killSwitchKeys.all fun key => (entry (.obj fields) key).isSome) = true :=
      List.all_eq_true.mpr fun key _ => h key
    intro key
    rw [load, Option.bind_some, parseKillSwitchesSetting, ofObject, if_pos hall]
    rfl
  | _ => exact absurd (h .billingCheckout) (by rw [entry_eq_none (by simp)]; decide)

/-- One entry that is missing or malformed spoils the others. -/
theorem load_of_incomplete (h : ¬ ∀ key, (entry stored key).isSome = true) :
    load (some stored) = defaultKillSwitches := by
  cases stored with
  | obj fields =>
    have hall : ¬ (killSwitchKeys.all fun key => (entry (.obj fields) key).isSome) = true :=
      fun hall => h fun key => List.all_eq_true.mp hall key (mem_killSwitchKeys key)
    rw [load, Option.bind_some, parseKillSwitchesSetting, ofObject, if_neg hall]
    rfl
  | _ => rfl

/-- The defaults are the stored value when no well-formed entry says otherwise. -/
theorem entryWise_defaultKillSwitches :
    EntryWise stored defaultKillSwitches ↔
      ∀ key, ∀ state ∈ entry stored key, state = defaultKillSwitches key := by
  refine forall_congr' fun key => ?_
  cases entry stored key with
  | none => simp
  | some state =>
    rw [Option.getD_some]
    exact ⟨fun h _ hstate => (Option.mem_some_iff.mp hstate).symm.trans h.symm,
      fun h => (h state rfl).symm⟩

end

/-- **The services enforce one set exactly when every entry is there and well formed, or no
well-formed entry differs from its default.** -/
theorem switchesAgree_iff (stored : JsValue) :
    SwitchesAgree stored ↔
      (∀ key, (entry stored key).isSome = true) ∨
        ∀ key, ∀ state ∈ entry stored key, state = defaultKillSwitches key := by
  have hworker := entryWise_foldKillSwitches stored
  have hall : SwitchesAgree stored ↔ EntryWise stored (load (some stored)) := by
    refine ⟨fun h => h.api, fun h => ⟨?_, h, hworker⟩⟩
    exact funext fun key => (h key).trans (hworker key).symm
  rw [hall]
  by_cases hcomplete : ∀ key, (entry stored key).isSome = true
  · exact iff_of_true (load_of_complete hcomplete) (Or.inl hcomplete)
  · rw [load_of_incomplete hcomplete, entryWise_defaultKillSwitches, or_iff_right hcomplete]

/-! ### A set from before a switch was added -/

/-- What an operator stored, mail switched off, when there was no switch for rescans. -/
def olderSet : JsValue :=
  .obj (((killSwitchKeys.filter fun key => key ≠ .linkScanningRescans).map fun key =>
    (key.name, .obj [("on", .bool false)])))

/-- **The API sends mail that the operator has switched off**, because another switch is not
in the stored set. -/
theorem older_set_reads_as_on : ¬ ∀ stored, SwitchesAgree stored := by
  intro h
  have hmail := (h olderSet).api .emailOutbound
  have hstored : entry olderSet .emailOutbound = some (plainSwitch false) := by decide
  rw [hstored] at hmail
  have hon : (current (some (some olderSet)) .emailOutbound).on = true := by decide +kernel
  rw [hmail] at hon
  exact absurd hon (by decide)

/-! ### Changes -/

/-- The changes to one switch: a field that is not given stays. -/
structure KillSwitchStatePatch where
  on : Option Bool
  domainCaps : Option CustomDomainsCaps
  emailCaps : Option EmailCaps
  errorCaps : Option ErrorTrackingCaps
deriving DecidableEq, Repr

/-- The changes of a request, by switch. -/
abbrev KillSwitchesInput := KillSwitchKey → Option KillSwitchStatePatch

/-- A switch with the fields of a patch on it. -/
def KillSwitchStatePatch.onto (patch : KillSwitchStatePatch) (state : KillSwitchState) :
    KillSwitchState where
  on := patch.on.getD state.on
  domainCaps := patch.domainCaps.orElse fun _ => state.domainCaps
  emailCaps := patch.emailCaps.orElse fun _ => state.emailCaps
  errorCaps := patch.errorCaps.orElse fun _ => state.errorCaps

/-- Fold a partial change onto the current full set, one key and one field at a time. -/
def foldKillSwitchChanges (current : KillSwitchesSetting) (changes : KillSwitchesInput) :
    KillSwitchesSetting := fun key =>
  match changes key with
  | none => current key
  | some patch => patch.onto (current key)

end SnapUrl.Settings
