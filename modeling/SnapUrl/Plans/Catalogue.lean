import Mathlib.Data.List.MinMax
import Mathlib.Data.List.Nodup
import SnapUrl.Platform
import SnapUrl.Plans.Entitlements

/-!
# The catalogue of plans

`apps/api/src/plans/plans-admin.service.ts` writes it and `plans.service.ts` reads it.  A
version of a plan is never changed: both edits insert a new one and move the plan to it.

* `editMatrix`, `editPrices`: the edits, with the pin of the workspaces on the plan.
* `resolveForWorkspace`, `livePriceMinor`: what is read.
* `WF`: what every write keeps, above all that a plan is on its latest version.
* `catalogPlan_insertVersion`: **an edit moves one plan, to what it inserts.**
-/

namespace SnapUrl.Plans

/-! ### Tables -/

/-- A row of `plans`; its ids count the rows. -/
structure Plan where
  id : Nat
  key : String
  currentVersionId : Option Nat
deriving DecidableEq, Repr

/-- A row of `plan_versions`; its ids count the rows. -/
structure PlanVersion where
  id : Nat
  planId : Nat
  version : Nat
  matrices : ResolvableVersion
  pricing : Option PlanPrices

structure Workspace where
  id : String
  plan : String
  planVersionId : Option Nat
deriving DecidableEq, Repr

structure WorkspacePlanOverride where
  workspaceId : String
  override : ResolvableOverride
  expiresAt : Option Int
deriving DecidableEq, Repr

structure Tables where
  plans : List Plan
  planVersions : List PlanVersion
  workspaces : List Workspace
  overrides : List WorkspacePlanOverride

namespace Tables

def planById (t : Tables) (id : Nat) : Option Plan := t.plans.find? fun plan => plan.id = id

def versionRow (t : Tables) (id : Nat) : Option PlanVersion :=
  t.planVersions.find? fun v => v.id = id

def workspaceById (t : Tables) (id : String) : Option Workspace :=
  t.workspaces.find? fun ws => ws.id = id

/-! ### Reads -/

/-- A plan with its current version's matrices and prices. -/
structure CatalogPlan where
  id : Nat
  key : String
  matrices : ResolvableVersion
  prices : PlanPrices

/-- What `load` makes of a row of `plans`. -/
def catalogPlan (t : Tables) (plan : Plan) : CatalogPlan :=
  let current := plan.currentVersionId.bind t.versionRow
  { id := plan.id
    key := plan.key
    matrices := current.elim .empty (·.matrices)
    prices := current.elim emptyPlanPrices fun v => parsePricing v.pricing }

/-- `catalog.get(key)`; no two keys are the same when lower-cased. -/
def catalogRow (p : Platform) (t : Tables) (key : String) : Option Plan :=
  t.plans.find? fun plan => p.toLowerCase plan.key = key

/-- The seed stands in for a catalogue that is empty. -/
def seedCatalog (p : Platform) (key : String) : Option CatalogPlan :=
  (seedPlans.find? fun seed => p.toLowerCase seed.key = key).map fun seed =>
    ⟨0, seed.key, seed.matrices, parsePricing seed.prices⟩

def getByKey (p : Platform) (t : Tables) (key : String) : Option CatalogPlan :=
  match t.catalogRow p (p.toLowerCase (trim key)) with
  | some plan => some (t.catalogPlan plan)
  | none => if t.plans ≠ [] then none else seedCatalog p (p.toLowerCase (trim key))

/-- The live price, `none` when the plan or that interval and currency is not priced. -/
def livePriceMinor (p : Platform) (t : Tables) (planKey : String) (interval : PriceInterval)
    (currency : Option PriceCurrency) : Option Nat :=
  (t.getByKey p planKey).bind fun plan => priceFor plan.prices interval currency

/-- A pinned version by its row id, confirmed to belong to the given plan. -/
def versionById (t : Tables) (planId versionId : Nat) : Option ResolvableVersion :=
  (t.planVersions.find? fun v => v.planId = planId ∧ v.id = versionId).map (·.matrices)

/-- The overrides that have not expired. -/
def loadActiveOverrides (t : Tables) (workspaceId : String) (now : Int) : List ResolvableOverride :=
  (t.overrides.filter fun o => o.workspaceId = workspaceId ∧ o.expiresAt.all (now < ·)).map
    (·.override)

def freeOrBaseline (p : Platform) (t : Tables) : ResolvedEntitlements :=
  match t.getByKey p defaultPlanKey with
  | some free => resolveEntitlements (some free.matrices) []
  | none => resolveEntitlements ((seedByKey defaultPlanKey).map (·.matrices)) []

/-- The row of the catalogue a plan label names. -/
def planOf (p : Platform) (t : Tables) (plan : String) : Option Plan :=
  let key := p.toLowerCase (trim plan)
  if key = "" then none else t.catalogRow p key

/-- The version a workspace resolves to: the pinned one where it is one of the plan, or the
plan's current one, or the seed's for a label that is not in the catalogue. -/
def effectiveVersion (p : Platform) (t : Tables) (ws : Workspace) : Option ResolvableVersion :=
  match t.planOf p ws.plan with
  | some plan =>
    some ((ws.planVersionId.bind (t.versionById plan.id)).getD (t.catalogPlan plan).matrices)
  | none => seedVersionFor (p.toLowerCase (trim ws.plan))

/-- **The effective entitlements of a workspace.** -/
def resolveForWorkspace (p : Platform) (t : Tables) (workspaceId : String) (now : Int) :
    ResolvedEntitlements :=
  match t.workspaceById workspaceId with
  | none => t.freeOrBaseline p
  | some ws =>
    resolveEntitlements (t.effectiveVersion p ws) (t.loadActiveOverrides workspaceId now)

/-! ### Writes -/

/-- The version with the greatest number. -/
def latestVersion (t : Tables) (planId : Nat) : Option PlanVersion :=
  (t.planVersions.filter fun v => v.planId = planId).argmax (·.version)

/-- `update workspaces set plan_version_id = … where lower(plan) = … and plan_version_id is
null`, with `lower` as the database has it. -/
def pinUnpinned (p : Platform) (lower : String → String) (key : String) (outgoing : Nat)
    (ws : Workspace) : Workspace :=
  if lower ws.plan = p.toLowerCase key ∧ ws.planVersionId = none then
    { ws with planVersionId := some outgoing }
  else ws

/-- The part both edits have: the workspaces are pinned to the outgoing version, the new one
is inserted after `cur`, and the plan moves to it. -/
def insertVersion (p : Platform) (lower : String → String) (t : Tables) (before : Plan)
    (cur : Option PlanVersion) (matrices : ResolvableVersion) (pricing : Option PlanPrices) :
    Tables :=
  { t with
    workspaces := match (cur.map (·.id)).or before.currentVersionId with
      | some outgoing => t.workspaces.map (pinUnpinned p lower before.key outgoing)
      | none => t.workspaces
    planVersions := t.planVersions ++
      [⟨t.planVersions.length, before.id, cur.elim 0 (·.version) + 1, matrices, pricing⟩]
    plans := t.plans.map fun plan =>
      if plan.id = before.id then { plan with currentVersionId := some t.planVersions.length }
      else plan }

/-- The new version has no prices: the column is left to its default. -/
def editMatrix (p : Platform) (lower : String → String) (t : Tables) (planId : Nat)
    (input : ResolvableVersion) : Option Tables := do
  let before ← t.planById planId
  some (t.insertVersion p lower before (t.latestVersion planId) input none)

/-- The matrices of the outgoing version are carried forward. -/
def editPrices (p : Platform) (lower : String → String) (t : Tables) (planId : Nat)
    (prices : PlanPrices) : Option Tables := do
  let before ← t.planById planId
  let cur := t.latestVersion planId
  some (t.insertVersion p lower before cur (cur.elim .empty (·.matrices)) (some prices))

/-- A plan with its first version. -/
def insertPlan (t : Tables) (key : String) (matrices : ResolvableVersion) : Tables :=
  { t with
    plans := t.plans ++ [⟨t.plans.length, key, some t.planVersions.length⟩]
    planVersions := t.planVersions ++
      [⟨t.planVersions.length, t.plans.length, 1, matrices, none⟩] }

/-- A plan whose key is taken is a conflict. -/
def create (p : Platform) (lower : String → String) (t : Tables) (inputKey : String)
    (matrices : ResolvableVersion) : Option Tables :=
  let key := p.toLowerCase (trim inputKey)
  if t.plans.any fun plan => lower plan.key = key then none
  else some (t.insertPlan key matrices)

/-! ### What every write keeps -/

/-- The ids count the rows, a version is one of a plan, and every plan is on its latest
version. -/
structure WF (t : Tables) : Prop where
  planIds : t.plans.map (·.id) = List.range t.plans.length
  versionIds : t.planVersions.map (·.id) = List.range t.planVersions.length
  foreignKey : ∀ v ∈ t.planVersions, v.planId ∈ t.plans.map (·.id)
  current : ∀ plan ∈ t.plans, ∃ v, t.latestVersion plan.id = some v ∧
    plan.currentVersionId = some v.id ∧ t.versionRow v.id = some v

section

variable {p : Platform} {lower : String → String} {t : Tables}

theorem mem_of_planById {id : Nat} {plan : Plan} (h : t.planById id = some plan) :
    plan ∈ t.plans ∧ plan.id = id := by
  have hid := List.find?_some h
  rw [decide_eq_true_eq] at hid
  exact ⟨List.mem_of_find?_eq_some h, hid⟩

theorem mem_of_latestVersion {id : Nat} {v : PlanVersion} (h : t.latestVersion id = some v) :
    v ∈ t.planVersions ∧ v.planId = id := by
  have hmem := List.argmax_mem h
  rw [List.mem_filter, decide_eq_true_eq] at hmem
  exact hmem

/-- A well-formed catalogue shows a plan as its latest version has it. -/
theorem WF.catalogPlan_eq (h : t.WF) {plan : Plan} (hplan : plan ∈ t.plans) :
    ∃ v, t.latestVersion plan.id = some v ∧
      t.catalogPlan plan = ⟨plan.id, plan.key, v.matrices, parsePricing v.pricing⟩ := by
  obtain ⟨v, hv, hcurrent, hrow⟩ := h.current plan hplan
  refine ⟨v, hv, ?_⟩
  rw [catalogPlan, hcurrent, Option.bind_some, hrow]
  rfl

theorem WF.version_lt (h : t.WF) {v : PlanVersion} (hv : v ∈ t.planVersions) :
    v.id < t.planVersions.length := by
  have hmem : v.id ∈ t.planVersions.map (·.id) := List.mem_map_of_mem hv
  rw [h.versionIds] at hmem
  exact List.mem_range.mp hmem

theorem WF.plan_lt (h : t.WF) {id : Nat} (hid : id ∈ t.plans.map (·.id)) : id < t.plans.length := by
  rw [h.planIds] at hid
  exact List.mem_range.mp hid

theorem WF.version_inj (h : t.WF) {v w : PlanVersion} (hv : v ∈ t.planVersions)
    (hw : w ∈ t.planVersions) (hid : v.id = w.id) : v = w := by
  have hnodup : (t.planVersions.map (·.id)).Nodup := h.versionIds ▸ List.nodup_range
  exact List.inj_on_of_nodup_map hnodup hv hw hid

/-! ### A version that is added -/

/-- The row that is added has an id no row has. -/
theorem WF.versionRow_length (h : t.WF) : t.versionRow t.planVersions.length = none := by
  rw [versionRow, List.find?_eq_none]
  intro v hv
  rw [decide_eq_true_eq]
  exact Nat.ne_of_lt (h.version_lt hv)

/-- The latest version of each plan once `v` is added as the successor of the latest one. -/
theorem latestVersion_concat {t' : Tables} {v : PlanVersion}
    (hversions : t'.planVersions = t.planVersions ++ [v])
    (hnext : v.version = (t.latestVersion v.planId).elim 0 (·.version) + 1) (id : Nat) :
    t'.latestVersion id = if id = v.planId then some v else t.latestVersion id := by
  rw [latestVersion, hversions, List.filter_append]
  by_cases hid : id = v.planId
  · have hsingle : [v].filter (fun w => w.planId = id) = [v] := by simp [hid]
    rw [hsingle, List.argmax_concat, ← latestVersion, if_pos hid]
    rw [← hid] at hnext
    cases hlatest : t.latestVersion id with
    | none => rfl
    | some w =>
      rw [hlatest, Option.elim_some] at hnext
      exact if_pos (by omega)
  · have hsingle : [v].filter (fun w => w.planId = id) = [] := by
      simpa using fun he : v.planId = id => hid he.symm
    rw [hsingle, List.append_nil, if_neg hid, latestVersion]

/-- Every write that adds a version and moves its plan to it keeps the catalogue
well formed. -/
theorem WF.of_concat (h : t.WF) {t' : Tables} {v : PlanVersion}
    (hversions : t'.planVersions = t.planVersions ++ [v]) (hid : v.id = t.planVersions.length)
    (hnext : v.version = (t.latestVersion v.planId).elim 0 (·.version) + 1)
    (hplanIds : t'.plans.map (·.id) = List.range t'.plans.length)
    (hkept : ∀ planId ∈ t.plans.map (·.id), planId ∈ t'.plans.map (·.id))
    (howner : v.planId ∈ t'.plans.map (·.id))
    (hplans : ∀ plan ∈ t'.plans, if plan.id = v.planId then plan.currentVersionId = some v.id
      else ∃ plan' ∈ t.plans, plan'.id = plan.id ∧ plan'.currentVersionId = plan.currentVersionId) :
    t'.WF where
  planIds := hplanIds
  versionIds := by
    rw [hversions, List.map_append, h.versionIds, List.length_append, List.length_singleton,
      List.range_succ, List.map_singleton, hid]
  foreignKey w hw := by
    rw [hversions, List.mem_append, List.mem_singleton] at hw
    rcases hw with hw | rfl
    · exact hkept _ (h.foreignKey w hw)
    · exact howner
  current plan hplan := by
    have hcase := hplans plan hplan
    rw [latestVersion_concat hversions hnext]
    by_cases heq : plan.id = v.planId
    · rw [if_pos heq] at hcase ⊢
      refine ⟨v, rfl, hcase, ?_⟩
      have hnone := h.versionRow_length
      rw [versionRow] at hnone
      rw [versionRow, hversions, List.find?_append, hid, hnone, Option.none_or]
      simp [hid]
    · rw [if_neg heq] at hcase ⊢
      obtain ⟨plan', hplan', hsame, hcurrent⟩ := hcase
      obtain ⟨w, hw, hwcurrent, hrow⟩ := h.current plan' hplan'
      rw [hsame] at hw
      refine ⟨w, hw, hcurrent ▸ hwcurrent, ?_⟩
      rw [versionRow] at hrow
      rw [versionRow, hversions, List.find?_append, hrow, Option.some_or]

section Insert

variable {before : Plan} {matrices : ResolvableVersion} {pricing : Option PlanPrices}

theorem WF.insertVersion (h : t.WF) (hbefore : before ∈ t.plans) :
    (t.insertVersion p lower before (t.latestVersion before.id) matrices pricing).WF := by
  have hids : ((t.insertVersion p lower before (t.latestVersion before.id) matrices
      pricing).plans.map (·.id)) = t.plans.map (·.id) := by
    rw [Tables.insertVersion, List.map_map]
    refine List.map_congr_left fun plan _ => ?_
    exact (apply_ite Plan.id _ _ _).trans (ite_self _)
  refine h.of_concat (v := ⟨t.planVersions.length, before.id, _, matrices, pricing⟩) rfl rfl rfl
    ?_ ?_ ?_ ?_
  · rw [hids, h.planIds, Tables.insertVersion, List.length_map]
  · rw [hids]
    exact fun _ hmem => hmem
  · rw [hids]
    exact List.mem_map_of_mem hbefore
  · intro plan hplan
    obtain ⟨plan', hplan', rfl⟩ := List.mem_map.mp hplan
    by_cases heq : plan'.id = before.id
    · rw [if_pos heq, if_pos heq]
    · rw [if_neg heq, if_neg heq]
      exact ⟨plan', hplan', rfl, rfl⟩

/-- **What the catalogue shows of each plan after an edit.** -/
theorem catalogPlan_insertVersion (h : t.WF) (hbefore : before ∈ t.plans) {plan : Plan}
    (hplan : plan ∈ t.plans) :
    (t.insertVersion p lower before (t.latestVersion before.id) matrices pricing).catalogPlan
        (if plan.id = before.id then { plan with currentVersionId := some t.planVersions.length }
          else plan) =
      if plan.id = before.id then ⟨plan.id, plan.key, matrices, parsePricing pricing⟩
      else t.catalogPlan plan := by
  have hwf : (t.insertVersion p lower before (t.latestVersion before.id) matrices pricing).WF :=
    h.insertVersion hbefore
  have hmem : (if plan.id = before.id then
      { plan with currentVersionId := some t.planVersions.length } else plan) ∈
      (t.insertVersion p lower before (t.latestVersion before.id) matrices pricing).plans :=
    List.mem_map_of_mem (f := fun plan : Plan => if plan.id = before.id then
      { plan with currentVersionId := some t.planVersions.length } else plan) hplan
  obtain ⟨v, hv, heq⟩ := hwf.catalogPlan_eq hmem
  rw [latestVersion_concat (t := t) (v := ⟨_, before.id, _, matrices, pricing⟩) rfl rfl] at hv
  rw [heq]
  by_cases hid : plan.id = before.id
  · rw [if_pos hid] at hv ⊢
    rw [if_pos hid, ← Option.some.inj ((if_pos hid).symm.trans hv)]
  · rw [if_neg hid] at hv ⊢
    rw [if_neg hid] at hv ⊢
    obtain ⟨w, hw, hcatalog⟩ := h.catalogPlan_eq hplan
    rw [hcatalog, Option.some.inj (hw.symm.trans hv)]

/-- A key names the same plan after an edit. -/
theorem catalogRow_insertVersion (key : String) (cur : Option PlanVersion) :
    (t.insertVersion p lower before cur matrices pricing).catalogRow p key =
      (t.catalogRow p key).map fun plan =>
        if plan.id = before.id then { plan with currentVersionId := some t.planVersions.length }
        else plan := by
  rw [catalogRow, Tables.insertVersion, List.find?_map, catalogRow]
  congr 2
  funext plan
  rw [Function.comp_apply]
  split <;> rfl

end Insert

end

end Tables

end SnapUrl.Plans
