import SnapUrl.Billing.Enforcement
import SnapUrl.Plans.Prices

/-!
# Grandfathering

An edit of a plan pins the workspaces on it that have no pin yet to the outgoing version,
so that they keep what they had.  Whoever moves a workspace to another plan leaves the pin
where it is.

* `step`: edits and new plans, moves of workspaces, migrations and overrides.
* `Grandfathered`: edits leave the entitlements of a workspace as they are until it is
  migrated or moved, and a move gives it the current version of the new plan.
* `grandfathered_of_keeps`: **that holds of every history in which a matrix is edited only
  while each workspace of the plan is free of the pins of other plans, and no workspace is
  moved to a plan it has an old pin of.**
* `moved_workspace_is_not_grandfathered`: a workspace that was moved once.
-/

namespace SnapUrl.Plans

open Lib

/-! ### Writes of a workspace -/

namespace Tables

def updateWorkspace (t : Tables) (id : String) (patch : Workspace → Workspace) : Tables :=
  { t with workspaces := t.workspaces.map fun ws => if ws.id = id then patch ws else ws }

/-- The version of that number of the workspace's plan. -/
def newVersionId (p : Platform) (lower : String → String) (t : Tables) (ws : Workspace) :
    Option Nat → Option (Option Nat)
  | none => some none
  | some number => do
    let plan ← t.plans.find? fun plan => lower plan.key = p.toLowerCase (trim ws.plan)
    let v ← t.planVersions.find? fun v => v.planId = plan.id ∧ v.version = number
    some (some v.id)

/-- Pins a workspace to a version of its plan, by number, or unpins it. -/
def migrateWorkspaceVersion (p : Platform) (lower : String → String) (t : Tables) (id : String)
    (version : Option Nat) : Option Tables := do
  let ws ← t.workspaceById id
  let newVersionId ← t.newVersionId p lower ws version
  some (t.updateWorkspace id fun ws => { ws with planVersionId := newVersionId })

/-- One row for each workspace, kind and name. -/
def setOverride (t : Tables) (row : WorkspacePlanOverride) : Tables :=
  { t with
    overrides := t.overrides.filter (fun o => ¬ (o.workspaceId = row.workspaceId ∧
      o.override.kind = row.override.kind ∧ o.override.name = row.override.name)) ++ [row] }

def removeOverride (t : Tables) (workspaceId : String) (kind : OverrideKind) (name : String) :
    Tables :=
  { t with
    overrides := t.overrides.filter fun o =>
      ¬ (o.workspaceId = workspaceId ∧ o.override.kind = kind ∧ o.override.name = name) }

/-- A new workspace is not pinned. -/
def register (t : Tables) (id plan : String) : Tables :=
  if (t.workspaceById id).isSome then t
  else { t with workspaces := t.workspaces ++ [⟨id, plan, none⟩] }

end Tables

/-! ### Histories -/

inductive Action where
  | create (key : String) (matrices : ResolvableVersion)
  | editMatrix (planId : Nat) (input : ResolvableVersion)
  | editPrices (planId : Nat) (prices : PlanPrices)
  | register (workspaceId plan : String)
  /-- `moveWorkspacePlan`, a webhook, or the form of an administrator. -/
  | setPlan (workspaceId plan : String)
  | migrate (workspaceId : String) (version : Option Nat)
  | setOverride (row : WorkspacePlanOverride)
  | removeOverride (workspaceId : String) (kind : OverrideKind) (name : String)

/-- A write that is refused leaves the tables as they are. -/
def next (p : Platform) (lower : String → String) (t : Tables) : Action → Tables
  | .create key matrices => (t.create p lower key matrices).getD t
  | .editMatrix planId input => (t.editMatrix p lower planId input).getD t
  | .editPrices planId prices => (t.editPrices p lower planId prices).getD t
  | .register id plan => t.register id plan
  | .setPlan id plan => t.updateWorkspace id fun ws => { ws with plan := plan }
  | .migrate id version => (t.migrateWorkspaceVersion p lower id version).getD t
  | .setOverride row => t.setOverride row
  | .removeOverride id kind name => t.removeOverride id kind name

def step (p : Platform) (lower : String → String) (t : Tables) (a : Action) : Option Tables :=
  some (next p lower t a)

/-! ### What is claimed of them -/

/-- The key a plan label is looked up by. -/
def planKey (p : Platform) (plan : String) : String := p.toLowerCase (trim plan)

/-- The step neither migrates the workspace, nor moves it off the plan with this key, nor
changes its overrides. -/
def Leaves (p : Platform) (id key : String) : Action → Prop
  | .setPlan id' plan => id' = id → planKey p plan = key
  | .migrate id' _ => id' ≠ id
  | .setOverride row => row.workspaceId ≠ id
  | .removeOverride id' .. => id' ≠ id
  | _ => True

/-- The version a plan label stands for: the plan's current one, or the seed's. -/
def currentVersionOf (p : Platform) (t : Tables) (plan : String) : Option ResolvableVersion :=
  match t.planOf p plan with
  | some row => some (t.catalogPlan row).matrices
  | none => seedVersionFor (planKey p plan)

structure Grandfathered (p : Platform) (lower : String → String) (t₀ : Tables)
    (as : List Action) : Prop where
  /-- A workspace on a plan of the catalogue keeps its entitlements through any number of
  edits, until it is migrated or moved. -/
  kept : ∀ pre mid post s t id ws plan, as = pre ++ (mid ++ post) →
    run (step p lower) t₀ pre = some s → run (step p lower) s mid = some t →
    s.workspaceById id = some ws → s.planOf p ws.plan = some plan →
    (∀ a ∈ mid, Leaves p id (planKey p ws.plan) a) →
    ∀ now, t.resolveForWorkspace p id now = s.resolveForWorkspace p id now
  /-- A workspace that is moved has the entitlements of the new plan. -/
  moved : ∀ pre post s id ws plan, as = pre ++ (.setPlan id plan :: post) →
    run (step p lower) t₀ pre = some s → s.workspaceById id = some ws →
    planKey p plan ≠ planKey p ws.plan →
    ∀ now, (next p lower s (.setPlan id plan)).resolveForWorkspace p id now =
      resolveEntitlements (currentVersionOf p s plan) (s.loadActiveOverrides id now)

/-- An edit of the plan finds the workspace held: pinned to a version of the plan, or free
and found by its label. -/
def Held (p : Platform) (lower : String → String) (t : Tables) (ws : Workspace) (plan : Plan) :
    Prop :=
  match ws.planVersionId with
  | some v => (t.versionById plan.id v).isSome = true
  | none => lower ws.plan = p.toLowerCase plan.key

/-- **The condition on a step.** -/
def Keeps (p : Platform) (lower : String → String) (t : Tables) : Action → Prop
  | .editMatrix planId _ => ∀ ws ∈ t.workspaces, ∀ plan ∈ t.planOf p ws.plan,
      plan.id = planId → Held p lower t ws plan
  | .setPlan id plan => ∀ ws ∈ t.workspaceById id, planKey p plan ≠ planKey p ws.plan →
      ∀ row ∈ t.planOf p plan, ∀ v ∈ ws.planVersionId, (t.versionById row.id v).isSome = false
  | _ => True

/-- What every step keeps: the catalogue is well formed, and a pin is a version there is. -/
structure Sound (t : Tables) : Prop where
  wf : t.WF
  pins : ∀ ws ∈ t.workspaces, ∀ v ∈ ws.planVersionId, v < t.planVersions.length

section

variable {p : Platform} {lower : String → String} {t t' : Tables}

/-! ### The lookups after a write -/

theorem workspaceById_map {f : Workspace → Workspace} (hf : ∀ ws, (f ws).id = ws.id)
    (hworkspaces : t'.workspaces = t.workspaces.map f) (id : String) :
    t'.workspaceById id = (t.workspaceById id).map f := by
  rw [Tables.workspaceById, hworkspaces, List.find?_map, Tables.workspaceById]
  congr 2
  funext ws
  rw [Function.comp_apply, hf]

theorem workspaceById_eq_some {id : String} {ws : Workspace} (h : t.workspaceById id = some ws) :
    ws ∈ t.workspaces ∧ ws.id = id := by
  have hid := List.find?_some h
  rw [decide_eq_true_eq] at hid
  exact ⟨List.mem_of_find?_eq_some h, hid⟩

theorem workspaceById_updateWorkspace (patch : Workspace → Workspace)
    (hpatch : ∀ ws, (patch ws).id = ws.id) (id id' : String) :
    (t.updateWorkspace id patch).workspaceById id' =
      (t.workspaceById id').map fun ws => if id' = id then patch ws else ws := by
  rw [workspaceById_map (f := fun ws => if ws.id = id then patch ws else ws) ?_ rfl]
  · cases h : t.workspaceById id' with
    | none => rfl
    | some ws => rw [Option.map_some, Option.map_some, (workspaceById_eq_some h).2]
  · intro ws
    split
    · exact hpatch ws
    · rfl

theorem versionById_concat {v : PlanVersion} (hversions : t'.planVersions = t.planVersions ++ [v])
    {planId id : Nat} (hother : ¬ (v.planId = planId ∧ v.id = id)) :
    t'.versionById planId id = t.versionById planId id := by
  have hsingle : [v].find? (fun w => w.planId = planId ∧ w.id = id) = none := by simp [hother]
  rw [Tables.versionById, hversions, List.find?_append, hsingle, Option.or_none,
    Tables.versionById]

/-- A version is found under its own plan, and under no other. -/
theorem versionById_of_mem (h : t.WF) {v : PlanVersion} (hv : v ∈ t.planVersions) (planId : Nat) :
    t.versionById planId v.id = if v.planId = planId then some v.matrices else none := by
  rw [Tables.versionById]
  cases hfind : t.planVersions.find? fun w => w.planId = planId ∧ w.id = v.id with
  | none =>
    have hnone := List.find?_eq_none.mp hfind v hv
    rw [if_neg (by simpa using hnone)]
    rfl
  | some w =>
    have hw := List.find?_some hfind
    rw [decide_eq_true_eq] at hw
    obtain rfl : w = v := h.version_inj (List.mem_of_find?_eq_some hfind) hv hw.2
    rw [if_pos hw.1]
    rfl

theorem mem_of_planOf {label : String} {plan : Plan} (h : t.planOf p label = some plan) :
    plan ∈ t.plans := by
  rw [Tables.planOf] at h
  split at h
  · exact absurd h (by simp)
  · exact List.mem_of_find?_eq_some h

theorem effectiveVersion_of_planOf {ws : Workspace} {plan : Plan}
    (h : t.planOf p ws.plan = some plan) :
    t.effectiveVersion p ws =
      some ((ws.planVersionId.bind (t.versionById plan.id)).getD
        (t.catalogPlan plan).matrices) := by
  rw [Tables.effectiveVersion, h]

theorem planOf_insertVersion {before : Plan} {cur : Option PlanVersion}
    {matrices : ResolvableVersion} {pricing : Option PlanPrices} {label : String} :
    (t.insertVersion p lower before cur matrices pricing).planOf p label =
      (t.planOf p label).map fun plan =>
        if plan.id = before.id then { plan with currentVersionId := some t.planVersions.length }
        else plan := by
  rw [Tables.planOf, Tables.planOf]
  split
  · rfl
  · exact Tables.catalogRow_insertVersion _ _

/-! ### An edit -/

theorem pinUnpinned_id (key : String) (outgoing : Nat) (ws : Workspace) :
    (Tables.pinUnpinned p lower key outgoing ws).id = ws.id := by
  rw [Tables.pinUnpinned]
  split <;> rfl

theorem pinUnpinned_plan (key : String) (outgoing : Nat) (ws : Workspace) :
    (Tables.pinUnpinned p lower key outgoing ws).plan = ws.plan := by
  rw [Tables.pinUnpinned]
  split <;> rfl

section Insert

variable {before : Plan} {v : PlanVersion} {matrices : ResolvableVersion}
  {pricing : Option PlanPrices} {ws : Workspace} {plan : Plan}

/-- **An edit leaves the version of a workspace as it is**: where the workspace is on the
plan, it has to be held, or the matrices carried forward. -/
theorem effectiveVersion_insertVersion (h : t.WF) (hbefore : before ∈ t.plans)
    (hv : t.latestVersion before.id = some v) (hplan : t.planOf p ws.plan = some plan)
    (hpin : ∀ x ∈ ws.planVersionId, x < t.planVersions.length)
    (hkeep : plan = before → Held p lower t ws plan ∨ matrices = (t.catalogPlan plan).matrices) :
    (t.insertVersion p lower before (some v) matrices pricing).effectiveVersion p
        (Tables.pinUnpinned p lower before.key v.id ws) = t.effectiveVersion p ws := by
  have hmem := mem_of_planOf hplan
  have hvmem := Tables.mem_of_latestVersion hv
  have hsame : plan.id = before.id → plan = before := fun hid =>
    List.inj_on_of_nodup_map (h.planIds ▸ List.nodup_range) hmem hbefore hid
  obtain ⟨w, hw, hshown⟩ := h.catalogPlan_eq hmem
  -- the row of the plan after the edit, and what is shown of it
  have hrow : (t.insertVersion p lower before (some v) matrices pricing).planOf p
      (Tables.pinUnpinned p lower before.key v.id ws).plan =
      some (if plan.id = before.id then { plan with currentVersionId := some t.planVersions.length }
        else plan) := by
    rw [pinUnpinned_plan, planOf_insertVersion, hplan, Option.map_some]
  have hrowId : (if plan.id = before.id then
      { plan with currentVersionId := some t.planVersions.length } else plan).id = plan.id := by
    split <;> rfl
  have hcatalog : (t.insertVersion p lower before (some v) matrices pricing).catalogPlan
      (if plan.id = before.id then { plan with currentVersionId := some t.planVersions.length }
        else plan) =
      if plan.id = before.id then ⟨plan.id, plan.key, matrices, parsePricing pricing⟩
      else t.catalogPlan plan :=
    hv ▸ Tables.catalogPlan_insertVersion h hbefore hmem
  have hold : ∀ x < t.planVersions.length,
      (t.insertVersion p lower before (some v) matrices pricing).versionById plan.id x =
        t.versionById plan.id x := by
    intro x hx
    refine versionById_concat rfl ?_
    rintro ⟨-, rfl⟩
    exact absurd hx (lt_irrefl _)
  rw [effectiveVersion_of_planOf hplan, effectiveVersion_of_planOf hrow, hrowId, hcatalog]
  by_cases hfree : lower ws.plan = p.toLowerCase before.key ∧ ws.planVersionId = none
  · -- the workspace is pinned to the outgoing version
    rw [Tables.pinUnpinned, if_pos hfree, hfree.2, Option.bind_some, Option.bind_none,
      hold v.id (h.version_lt hvmem.1), versionById_of_mem h hvmem.1, hvmem.2]
    by_cases hid : plan.id = before.id
    · rw [hid] at hw
      rw [if_pos hid.symm, hshown, Option.some.inj (hv.symm.trans hw)]
      rfl
    · rw [if_neg (Ne.symm hid), if_neg hid]
  · have hpinned : ws.planVersionId.bind
        ((t.insertVersion p lower before (some v) matrices pricing).versionById plan.id) =
        ws.planVersionId.bind (t.versionById plan.id) :=
      Option.bind_congr fun x hx => hold x (hpin x hx)
    rw [Tables.pinUnpinned, if_neg hfree, hpinned]
    by_cases hid : plan.id = before.id
    · obtain rfl := hsame hid
      rw [if_pos rfl]
      rcases hkeep rfl with hheld | hmatrices
      · rw [Held] at hheld
        cases hws : ws.planVersionId with
        | none =>
          rw [hws] at hheld
          exact absurd ⟨hheld, hws⟩ hfree
        | some x =>
          rw [hws] at hheld
          obtain ⟨m, hm⟩ := Option.isSome_iff_exists.mp hheld
          rw [Option.bind_some, hm]
          rfl
      · rw [hmatrices]
    · rw [if_neg hid]

end Insert

/-! ### A new plan -/

theorem create_eq_some {inputKey : String} {matrices : ResolvableVersion}
    (h : t.create p lower inputKey matrices = some t') :
    ∃ key, t' = t.insertPlan key matrices := by
  rw [Tables.create] at h
  split at h
  · exact absurd h (by simp)
  · exact ⟨_, (Option.some.inj h).symm⟩

section InsertPlan

variable {key : String} {matrices : ResolvableVersion} {ws : Workspace} {plan : Plan}

theorem wf_insertPlan (h : t.WF) : (t.insertPlan key matrices).WF := by
  have hnone : t.latestVersion t.plans.length = none := by
    cases hlatest : t.latestVersion t.plans.length with
    | none => rfl
    | some v =>
      obtain ⟨hv, hid⟩ := Tables.mem_of_latestVersion hlatest
      exact absurd (h.plan_lt (h.foreignKey v hv)) (by rw [hid]; exact lt_irrefl _)
  refine h.of_concat (v := ⟨t.planVersions.length, t.plans.length, 1, matrices, none⟩) rfl rfl
    (by rw [hnone]; rfl) ?_ ?_ ?_ ?_
  · rw [Tables.insertPlan, List.map_append, h.planIds, List.length_append, List.length_singleton,
      List.range_succ, List.map_singleton]
  · intro planId hmem
    rw [Tables.insertPlan, List.map_append]
    exact List.mem_append_left _ hmem
  · rw [Tables.insertPlan, List.map_append]
    exact List.mem_append_right _ (List.mem_singleton_self _)
  · intro plan hplan
    rcases List.mem_append.mp hplan with hplan | hplan
    · have hlt := h.plan_lt (List.mem_map_of_mem hplan)
      rw [if_neg (Nat.ne_of_lt hlt)]
      exact ⟨plan, hplan, rfl, rfl⟩
    · obtain rfl := List.mem_singleton.mp hplan
      rw [if_pos rfl]

theorem planOf_insertPlan {label : String} (hplan : t.planOf p label = some plan) :
    (t.insertPlan key matrices).planOf p label = some plan := by
  rw [Tables.planOf] at hplan ⊢
  split at hplan
  · exact absurd hplan (by simp)
  · rename_i hkey
    rw [Tables.catalogRow] at hplan
    rw [if_neg hkey, Tables.catalogRow, Tables.insertPlan, List.find?_append, hplan,
      Option.some_or]

/-- A new plan leaves the versions of the workspaces on the others. -/
theorem effectiveVersion_insertPlan (h : t.WF) (hplan : t.planOf p ws.plan = some plan) :
    (t.insertPlan key matrices).effectiveVersion p ws = t.effectiveVersion p ws := by
  have hmem := mem_of_planOf hplan
  obtain ⟨v, hv, hcurrent, hversion⟩ := h.current plan hmem
  have hshown : (t.insertPlan key matrices).catalogPlan plan = t.catalogPlan plan := by
    have hversion' : (t.insertPlan key matrices).versionRow v.id = some v := by
      rw [Tables.versionRow] at hversion
      rw [Tables.versionRow, Tables.insertPlan, List.find?_append, hversion, Option.some_or]
    rw [Tables.catalogPlan, Tables.catalogPlan, hcurrent, Option.bind_some, Option.bind_some,
      hversion, hversion']
  have hpins : (t.insertPlan key matrices).versionById plan.id = t.versionById plan.id := by
    refine funext fun x => versionById_concat rfl ?_
    rintro ⟨hid, -⟩
    exact absurd (h.plan_lt (List.mem_map_of_mem hmem)) (by rw [← hid]; exact lt_irrefl _)
  rw [effectiveVersion_of_planOf hplan, effectiveVersion_of_planOf (planOf_insertPlan hplan),
    hshown, hpins]

end InsertPlan

/-! ### What every step keeps -/

theorem mem_of_newVersionId {ws : Workspace} {version pin : Option Nat}
    (h : t.newVersionId p lower ws version = some pin) :
    ∀ x ∈ pin, ∃ v ∈ t.planVersions, v.id = x := by
  intro x hx
  cases version with
  | none => simp [← Option.some.inj h] at hx
  | some number =>
    simp only [Tables.newVersionId, Option.bind_eq_bind, Option.bind_eq_some_iff] at h
    obtain ⟨plan, hplan, v, hv, hpin⟩ := h
    rw [← Option.some.inj hpin] at hx
    exact ⟨v, List.mem_of_find?_eq_some hv, Option.some.inj hx⟩

theorem migrate_eq_some {id : String} {version : Option Nat}
    (h : t.migrateWorkspaceVersion p lower id version = some t') :
    ∃ pin : Option Nat,
      t' = t.updateWorkspace id (fun ws => { ws with planVersionId := pin }) ∧
        ∀ x ∈ pin, ∃ v ∈ t.planVersions, v.id = x := by
  simp only [Tables.migrateWorkspaceVersion, Option.bind_eq_bind, Option.bind_eq_some_iff,
    Option.some.injEq] at h
  obtain ⟨ws, hws, pin, hpin, rfl⟩ := h
  exact ⟨pin, rfl, mem_of_newVersionId hpin⟩

/-- Writes that leave the catalogue alone. -/
theorem wf_of_workspaces (h : t.WF) (workspaces : List Workspace)
    (overrides : List WorkspacePlanOverride) :
    Tables.WF { t with workspaces := workspaces, overrides := overrides } :=
  ⟨h.planIds, h.versionIds, h.foreignKey, h.current⟩

theorem Sound.insertVersion (h : Sound t) {before : Plan} (hbefore : before ∈ t.plans)
    {matrices : ResolvableVersion} {pricing : Option PlanPrices} :
    Sound (t.insertVersion p lower before (t.latestVersion before.id) matrices pricing) where
  wf := h.wf.insertVersion hbefore
  pins ws hws x hx := by
    obtain ⟨v, hv, -⟩ := h.wf.current before hbefore
    rw [hv] at hws
    obtain ⟨ws', hws', rfl⟩ := List.mem_map.mp hws
    have hlt : x < t.planVersions.length := by
      rw [Tables.pinUnpinned] at hx
      split at hx
      · rw [← Option.some.inj hx]
        exact h.wf.version_lt (Tables.mem_of_latestVersion hv).1
      · exact h.pins ws' hws' x hx
    rw [Tables.insertVersion, List.length_append]
    exact Nat.lt_add_right _ hlt

theorem Sound.updateWorkspace (h : Sound t) (id : String) {patch : Workspace → Workspace}
    (hpatch : ∀ ws ∈ t.workspaces, ∀ x ∈ (patch ws).planVersionId, x < t.planVersions.length) :
    Sound (t.updateWorkspace id patch) where
  wf := wf_of_workspaces h.wf _ _
  pins ws hws x hx := by
    obtain ⟨ws', hws', rfl⟩ := List.mem_map.mp hws
    split at hx
    · exact hpatch ws' hws' x hx
    · exact h.pins ws' hws' x hx

theorem sound_next (h : Sound t) (a : Action) : Sound (next p lower t a) := by
  cases a with
  | create key matrices =>
    rw [next]
    cases hcreate : t.create p lower key matrices with
    | none => exact h
    | some t' =>
      obtain ⟨key', rfl⟩ := create_eq_some hcreate
      refine ⟨wf_insertPlan h.wf, fun ws hws x hx => ?_⟩
      rw [Option.getD_some, Tables.insertPlan, List.length_append]
      exact Nat.lt_add_right _ (h.pins ws hws x hx)
  | editMatrix planId input =>
    rw [next]
    cases hedit : t.editMatrix p lower planId input with
    | none => exact h
    | some t' =>
      obtain ⟨before, hbefore, -, rfl⟩ := editMatrix_eq_some hedit
      exact h.insertVersion hbefore
  | editPrices planId prices =>
    rw [next]
    cases hedit : t.editPrices p lower planId prices with
    | none => exact h
    | some t' =>
      obtain ⟨before, hbefore, -, rfl⟩ := editPrices_eq_some hedit
      exact h.insertVersion hbefore
  | register id plan =>
    rw [next, Tables.register]
    split
    · exact h
    · refine ⟨wf_of_workspaces h.wf _ _, fun ws hws x hx => ?_⟩
      rcases List.mem_append.mp hws with hws | hws
      · exact h.pins ws hws x hx
      · rw [List.mem_singleton.mp hws] at hx
        exact absurd hx (by simp)
  | setPlan id plan => exact h.updateWorkspace id h.pins
  | migrate id version =>
    rw [next]
    cases hmigrate : t.migrateWorkspaceVersion p lower id version with
    | none => exact h
    | some t' =>
      obtain ⟨pin, rfl, hnew⟩ := migrate_eq_some hmigrate
      refine h.updateWorkspace id fun _ _ x hx => ?_
      obtain ⟨v, hv, rfl⟩ := hnew x hx
      exact h.wf.version_lt hv
  | setOverride row => exact ⟨wf_of_workspaces h.wf _ _, h.pins⟩
  | removeOverride id kind name => exact ⟨wf_of_workspaces h.wf _ _, h.pins⟩

/-! ### What a workspace keeps -/

/-- The workspace is on a plan of the catalogue, and resolves to this version and these
overrides. -/
def Resolves (p : Platform) (t : Tables) (id key : String) (version : Option ResolvableVersion)
    (overrides : Int → List ResolvableOverride) : Prop :=
  ∃ ws plan, t.workspaceById id = some ws ∧ planKey p ws.plan = key ∧
    t.planOf p ws.plan = some plan ∧ t.effectiveVersion p ws = version ∧
    ∀ now, t.loadActiveOverrides id now = overrides now

section Resolves

variable {id key : String} {version : Option ResolvableVersion}
  {overrides : Int → List ResolvableOverride}

theorem Resolves.resolve (h : Resolves p t id key version overrides) (now : Int) :
    t.resolveForWorkspace p id now = resolveEntitlements version (overrides now) := by
  obtain ⟨ws, plan, hws, -, -, hversion, hoverrides⟩ := h
  rw [Tables.resolveForWorkspace, hws, ← hversion, ← hoverrides]

/-- A label is looked up by its key. -/
theorem planOf_congr {label label' : String} (h : planKey p label = planKey p label') :
    t.planOf p label = t.planOf p label' := by
  rw [planKey, planKey] at h
  rw [Tables.planOf, Tables.planOf, h]

theorem effectiveVersion_congr {ws : Workspace} {label : String}
    (h : planKey p label = planKey p ws.plan) :
    t.effectiveVersion p { ws with plan := label } = t.effectiveVersion p ws := by
  rw [Tables.effectiveVersion, Tables.effectiveVersion, planOf_congr h]
  rw [planKey, planKey] at h
  rw [h]

/-- The overrides of a workspace, when those of another one are written. -/
theorem loadActiveOverrides_filter {q : WorkspacePlanOverride → Bool}
    (hq : ∀ o, o.workspaceId = id → q o = true) (rows : List WorkspacePlanOverride)
    (hrows : ∀ o ∈ rows, o.workspaceId ≠ id) (now : Int) :
    Tables.loadActiveOverrides { t with overrides := t.overrides.filter q ++ rows } id now =
      t.loadActiveOverrides id now := by
  have hnone : rows.filter (fun o => o.workspaceId = id ∧ o.expiresAt.all (now < ·)) = [] := by
    refine List.filter_eq_nil_iff.mpr fun o ho => ?_
    simp [hrows o ho]
  rw [Tables.loadActiveOverrides, List.filter_append, List.filter_filter, hnone, List.append_nil,
    Tables.loadActiveOverrides]
  congr 1
  refine List.filter_congr fun o _ => ?_
  by_cases ho : o.workspaceId = id
  · rw [hq o ho, Bool.and_true]
  · simp [ho]

theorem Resolves.insertVersion (h : Resolves p t id key version overrides) (hs : Sound t)
    {before : Plan} (hbefore : before ∈ t.plans) {matrices : ResolvableVersion}
    {pricing : Option PlanPrices}
    (hkeep : ∀ ws ∈ t.workspaces, t.planOf p ws.plan = some before →
      Held p lower t ws before ∨ matrices = (t.catalogPlan before).matrices) :
    Resolves p (t.insertVersion p lower before (t.latestVersion before.id) matrices pricing)
      id key version overrides := by
  obtain ⟨ws, plan, hws, hkey, hplan, hversion, hoverrides⟩ := h
  obtain ⟨v, hv, -⟩ := hs.wf.current before hbefore
  have hmem := (workspaceById_eq_some hws).1
  have hplan' : (t.insertVersion p lower before (some v) matrices pricing).planOf p
      (Tables.pinUnpinned p lower before.key v.id ws).plan =
      some (if plan.id = before.id then { plan with currentVersionId := some t.planVersions.length }
        else plan) := by
    rw [pinUnpinned_plan, planOf_insertVersion, hplan, Option.map_some]
  rw [hv]
  refine ⟨_, _, ?_, ?_, hplan', ?_, hoverrides⟩
  · exact (workspaceById_map (pinUnpinned_id _ _) rfl id).trans (by rw [hws, Option.map_some])
  · rw [pinUnpinned_plan, hkey]
  · rw [effectiveVersion_insertVersion hs.wf hbefore hv hplan (hs.pins ws hmem), hversion]
    rintro rfl
    exact hkeep ws hmem hplan

/-- **A step that leaves a workspace leaves its entitlements**, under the condition on
steps. -/
theorem Resolves.next (h : Resolves p t id key version overrides) (hs : Sound t) {a : Action}
    (hkeeps : Keeps p lower t a) (hleaves : Leaves p id key a) :
    Resolves p (next p lower t a) id key version overrides := by
  cases a with
  | create inputKey matrices =>
    rw [Plans.next]
    cases hcreate : t.create p lower inputKey matrices with
    | none => exact h
    | some t' =>
      obtain ⟨key', rfl⟩ := create_eq_some hcreate
      obtain ⟨ws, plan, hws, hkey, hplan, hversion, hoverrides⟩ := h
      exact ⟨ws, plan, hws, hkey, planOf_insertPlan hplan,
        (effectiveVersion_insertPlan hs.wf hplan).trans hversion, hoverrides⟩
  | editMatrix planId input =>
    rw [Plans.next]
    cases hedit : t.editMatrix p lower planId input with
    | none => exact h
    | some t' =>
      obtain ⟨before, hbefore, rfl, rfl⟩ := editMatrix_eq_some hedit
      exact h.insertVersion hs hbefore fun ws hws hplan =>
        Or.inl (hkeeps ws hws before hplan rfl)
  | editPrices planId prices =>
    rw [Plans.next]
    cases hedit : t.editPrices p lower planId prices with
    | none => exact h
    | some t' =>
      obtain ⟨before, hbefore, rfl, rfl⟩ := editPrices_eq_some hedit
      refine h.insertVersion hs hbefore fun ws hws hplan => Or.inr ?_
      obtain ⟨v, hv, hshown⟩ := hs.wf.catalogPlan_eq hbefore
      rw [hshown, hv]
      rfl
  | register id' plan' =>
    rw [Plans.next, Tables.register]
    split
    · exact h
    · obtain ⟨ws, plan, hws, hkey, hplan, hversion, hoverrides⟩ := h
      refine ⟨ws, plan, ?_, hkey, hplan, hversion, hoverrides⟩
      rw [Tables.workspaceById] at hws
      rw [Tables.workspaceById, List.find?_append, hws, Option.some_or]
  | setPlan id' label =>
    obtain ⟨ws, plan, hws, hkey, hplan, hversion, hoverrides⟩ := h
    have hws' : (t.updateWorkspace id' fun ws => { ws with plan := label }).workspaceById id =
        some (if id = id' then { ws with plan := label } else ws) := by
      rw [workspaceById_updateWorkspace (fun ws => { ws with plan := label }) (fun _ => rfl), hws,
        Option.map_some]
    by_cases hid : id = id'
    · rw [if_pos hid] at hws'
      have hsame : planKey p label = planKey p ws.plan := (hleaves hid.symm).trans hkey.symm
      exact ⟨_, plan, hws', hsame.trans hkey, (planOf_congr hsame).trans hplan,
        (effectiveVersion_congr hsame).trans hversion, hoverrides⟩
    · rw [if_neg hid] at hws'
      exact ⟨ws, plan, hws', hkey, hplan, hversion, hoverrides⟩
  | migrate id' number =>
    rw [Plans.next]
    cases hmigrate : t.migrateWorkspaceVersion p lower id' number with
    | none => exact h
    | some t' =>
      obtain ⟨pin, rfl, -⟩ := migrate_eq_some hmigrate
      obtain ⟨ws, plan, hws, hkey, hplan, hversion, hoverrides⟩ := h
      refine ⟨ws, plan, ?_, hkey, hplan, hversion, hoverrides⟩
      rw [Option.getD_some, workspaceById_updateWorkspace
        (fun ws => { ws with planVersionId := pin }) (fun _ => rfl), hws, Option.map_some,
        if_neg (Ne.symm hleaves)]
  | setOverride row =>
    obtain ⟨ws, plan, hws, hkey, hplan, hversion, hoverrides⟩ := h
    refine ⟨ws, plan, hws, hkey, hplan, hversion, fun now => ?_⟩
    refine (loadActiveOverrides_filter (fun o ho => ?_) [row] ?_ now).trans (hoverrides now)
    · have hother : o.workspaceId ≠ row.workspaceId := fun he => hleaves (he.symm.trans ho)
      simp [hother]
    · intro o ho
      rw [List.mem_singleton.mp ho]
      exact hleaves
  | removeOverride id' kind name =>
    obtain ⟨ws, plan, hws, hkey, hplan, hversion, hoverrides⟩ := h
    refine ⟨ws, plan, hws, hkey, hplan, hversion, fun now => ?_⟩
    have hfilter := loadActiveOverrides_filter (t := t)
      (q := fun o => ¬ (o.workspaceId = id' ∧ o.override.kind = kind ∧ o.override.name = name))
      (fun o (ho : o.workspaceId = id) => by simp [ho, Ne.symm hleaves]) [] (by simp) now
    rw [List.append_nil] at hfilter
    exact hfilter.trans (hoverrides now)

/-- The steps of a run, one after the other. -/
theorem Resolves.run {as : List Action} (h : Resolves p t id key version overrides)
    (hs : Sound t) (hguarded : Guarded (step p lower) (Keeps p lower) t as)
    (hleaves : ∀ a ∈ as, Leaves p id key a) (hrun : run (step p lower) t as = some t') :
    Resolves p t' id key version overrides := by
  induction as generalizing t with
  | nil => exact Option.some.inj hrun ▸ h
  | cons a as ih =>
    obtain ⟨s, hstep, hrest⟩ := run_cons_eq_some.mp hrun
    obtain rfl : Plans.next p lower t a = s := Option.some.inj hstep
    have hnext := h.next hs hguarded.1 (hleaves a List.mem_cons_self)
    exact ih hnext (sound_next hs a) (hguarded.2 _ rfl)
      (fun b hb => hleaves b (List.mem_cons_of_mem _ hb)) hrest

end Resolves

/-- **A move to another plan**, where no version of that plan is pinned. -/
theorem resolve_setPlan {id label : String} {ws : Workspace}
    (hws : t.workspaceById id = some ws) (hkeeps : Keeps p lower t (.setPlan id label))
    (hother : planKey p label ≠ planKey p ws.plan) (now : Int) :
    (Plans.next p lower t (.setPlan id label)).resolveForWorkspace p id now =
      resolveEntitlements (currentVersionOf p t label) (t.loadActiveOverrides id now) := by
  have hws' : (Plans.next p lower t (.setPlan id label)).workspaceById id =
      some { ws with plan := label } := by
    rw [Plans.next, workspaceById_updateWorkspace (fun ws => { ws with plan := label })
      (fun _ => rfl), hws, Option.map_some, if_pos rfl]
  have hversion : (Plans.next p lower t (.setPlan id label)).effectiveVersion p
      { ws with plan := label } = currentVersionOf p t label := by
    have hplanOf : (Plans.next p lower t (.setPlan id label)).planOf p label = t.planOf p label :=
      rfl
    rw [Tables.effectiveVersion, currentVersionOf, hplanOf]
    cases hrow : t.planOf p label with
    | none => rfl
    | some row =>
      have hnone : ws.planVersionId.bind (t.versionById row.id) = none := by
        rw [Option.bind_eq_none_iff]
        intro v hv
        have hnot := Option.isSome_eq_false_iff.mp (hkeeps ws hws hother row hrow v hv)
        exact Option.isNone_iff_eq_none.mp hnot
      exact congrArg (fun o => some (o.getD (t.catalogPlan row).matrices)) hnone
  rw [Tables.resolveForWorkspace, hws']
  exact congrArg (resolveEntitlements · _) hversion

end

/-! ### The result -/

/-- **Workspaces are grandfathered in every history whose steps meet the condition.** -/
theorem grandfathered_of_keeps (p : Platform) (lower : String → String) (t₀ : Tables)
    (h : Sound t₀) (as : List Action)
    (hguarded : Guarded (step p lower) (Keeps p lower) t₀ as) : Grandfathered p lower t₀ as := by
  have hsound : ∀ pre s, run (step p lower) t₀ pre = some s → Sound s :=
    fun pre s hrun => invariant_of_run
      (fun t a t' ht hstep => Option.some.inj hstep ▸ sound_next ht a) pre t₀ s h hrun
  constructor
  · rintro pre mid post s t id ws plan rfl hpre hmid hws hplan hleaves now
    have hresolves : Resolves p s id (planKey p ws.plan) (s.effectiveVersion p ws)
        (s.loadActiveOverrides id) := ⟨ws, plan, hws, rfl, hplan, rfl, fun _ => rfl⟩
    have hfrom := (guarded_append.mp hguarded).2 s hpre
    have hkept := hresolves.run (hsound pre s hpre) (guarded_append.mp hfrom).1 hleaves hmid
    rw [hkept.resolve now, hresolves.resolve now]
  · rintro pre post s id ws plan rfl hpre hws hother now
    have hfrom := (guarded_append.mp hguarded).2 s hpre
    exact resolve_setPlan hws hfrom.1 hother now

/-! ### Two workspaces -/

instance (p : Platform) (lower : String → String) (t : Tables) (ws : Workspace) (plan : Plan) :
    Decidable (Held p lower t ws plan) :=
  match h : ws.planVersionId with
  | some v => decidable_of_iff ((t.versionById plan.id v).isSome = true) (by rw [Held, h])
  | none => decidable_of_iff (lower ws.plan = p.toLowerCase plan.key) (by rw [Held, h])

instance (p : Platform) (lower : String → String) (t : Tables) :
    ∀ a : Action, Decidable (Keeps p lower t a)
  | .editMatrix planId _ => inferInstanceAs (Decidable (∀ ws ∈ t.workspaces,
      ∀ plan ∈ t.planOf p ws.plan, plan.id = planId → Held p lower t ws plan))
  | .setPlan id plan => inferInstanceAs (Decidable (∀ ws ∈ t.workspaceById id,
      planKey p plan ≠ planKey p ws.plan → ∀ row ∈ t.planOf p plan, ∀ v ∈ ws.planVersionId,
        (t.versionById row.id v).isSome = false))
  | .create .. => isTrue trivial
  | .editPrices .. => isTrue trivial
  | .register .. => isTrue trivial
  | .migrate .. => isTrue trivial
  | .setOverride _ => isTrue trivial
  | .removeOverride .. => isTrue trivial

/-- A workspace on each plan, and neither is pinned. -/
def twoWorkspaces : Tables :=
  { soldCatalogue with workspaces := [⟨"W1", "Pro", none⟩, ⟨"W2", "Free", none⟩] }

theorem sound_twoWorkspaces : Sound twoWorkspaces where
  wf := wf_of_workspaces wf_soldCatalogue _ _
  pins := by decide

/-- The plan of one workspace is edited, then the other one comes to it, and it is edited
again. -/
def keptHistory : List Action :=
  [.editMatrix 1 ⟨featuresOf [.webhooks], fun _ => none⟩, .setPlan "W2" "Pro",
    .editMatrix 1 ⟨featuresOf [], fun _ => none⟩, .editPrices 1 (inrPrices 249 2490)]

theorem grandfathered_keptHistory :
    Grandfathered Billing.Enforcement.planPlatform Billing.Enforcement.planPlatform.toLowerCase
      twoWorkspaces keptHistory :=
  grandfathered_of_keeps _ _ _ sound_twoWorkspaces _ (by decide +kernel)

/-- **A workspace is moved once**, and the pin of the plan it came from hides it from an
edit of the plan it is on. -/
theorem moved_workspace_is_not_grandfathered :
    ¬ ∀ (p : Platform) (lower : String → String) (t₀ : Tables), Sound t₀ →
      ∀ as : List Action, Grandfathered p lower t₀ as := by
  intro h
  have hkept := (h Billing.Enforcement.planPlatform Billing.Enforcement.planPlatform.toLowerCase
    twoWorkspaces sound_twoWorkspaces
    [.editMatrix 1 ⟨featuresOf [.webhooks], fun _ => none⟩, .setPlan "W1" "Free",
      .editMatrix 0 ⟨featuresOf [.forms], fun _ => none⟩]).kept
    [.editMatrix 1 ⟨featuresOf [.webhooks], fun _ => none⟩, .setPlan "W1" "Free"]
    [.editMatrix 0 ⟨featuresOf [.forms], fun _ => none⟩] [] _ _ "W1" ⟨"W1", "Free", some 1⟩
    ⟨0, "free", some 0⟩ rfl rfl rfl (by decide +kernel) (by decide +kernel) (by simp [Leaves]) 0
  exact absurd (congrArg (fun r => r.features .forms) hkept) (by decide +kernel)

end SnapUrl.Plans
