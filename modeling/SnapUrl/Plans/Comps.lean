import Mathlib.Data.List.Sort
import SnapUrl.Billing.Enforcement
import SnapUrl.Plans.Catalogue

/-!
# Comps

`apps/api/src/plans/plan-management.service.ts`: an administrator grants a plan without
payment, for good or until a date.  A dated comp schedules its revert to the plan the
workspace is on, and takes the place of a revert that is pending.

* `step`: comps, sweeps and time, for a workspace that no subscription owns.
* `Returns`: once what is pending has been swept, the workspace is on the plan of the latest
  open-ended comp, or on the one it began with.
* `returns_iff_granted`: **that holds all along a history exactly when a dated comp is only
  granted on that plan, and an open-ended one only while no revert to another plan is
  pending.**
* `overlapping_comp_stays`: two dated comps that overlap.
-/

namespace SnapUrl.Plans.Comps

open Lib
open Billing.Enforcement (planLabelFromKey planPlatform)

/-! ### Keys and labels -/

/-- The letters of `/^[a-z0-9][a-z0-9-]*$/i`, after the key is lower-cased. -/
def planKeyLetters : List Char := "abcdefghijklmnopqrstuvwxyz0123456789".toList

/-- A key as `create` stores it. -/
def isPlanKey (key : String) : Bool :=
  match key.toList with
  | [] => false
  | c :: rest => c ∈ planKeyLetters && rest.all (· ∈ '-' :: planKeyLetters)

/-- What the runtime does to the letters of ASCII. -/
structure AsciiCase (p : Platform) : Prop where
  lower : ∀ s : String, (∀ c ∈ s.toList, c.toNat < 128) →
    p.toLowerCase s = String.ofList (s.toList.map Char.toLower)
  upper : ∀ s : String, (∀ c ∈ s.toList, c.toNat < 128) →
    p.toUpperCase s = String.ofList (s.toList.map Char.toUpper)

/-- The workspace's current plan key, where no live subscription carries it. -/
def currentPlanKey (p : Platform) (planLabel : String) : String :=
  let key := p.toLowerCase (trim planLabel)
  if key = "" then defaultPlanKey else key

section

variable {p : Platform}

theorem planKeyLetters_case : ∀ c ∈ planKeyLetters,
    c.toUpper.toLower = c ∧ isJsSpace c = false ∧ isJsSpace c.toUpper = false ∧ c.toNat < 128 ∧
      c.toUpper.toNat < 128 :=
  forall_mem_of_all (by decide +kernel)

theorem planKeyLetters_lower : ∀ c ∈ '-' :: planKeyLetters,
    c.toLower = c ∧ isJsSpace c = false ∧ c.toNat < 128 :=
  forall_mem_of_all (by decide +kernel)

/-- **A key is read back from its label.** -/
theorem currentPlanKey_planLabelFromKey (hcase : AsciiCase p) {key : String}
    (hkey : isPlanKey key = true) : currentPlanKey p (planLabelFromKey p key) = key := by
  rw [isPlanKey] at hkey
  cases hchars : key.toList with
  | nil => simp [hchars] at hkey
  | cons c rest =>
    simp only [hchars, Bool.and_eq_true, decide_eq_true_eq, List.all_eq_true] at hkey
    obtain ⟨hc, hrest⟩ := hkey
    obtain ⟨hback, hspace, hspace', hascii, hascii'⟩ := planKeyLetters_case c hc
    have hlower : rest.map Char.toLower = rest :=
      (List.map_congr_left fun d hd => (planKeyLetters_lower d (hrest d hd)).1).trans
        (List.map_id _)
    have hascii'' : ∀ d ∈ rest, d.toNat < 128 := fun d hd =>
      (planKeyLetters_lower d (hrest d hd)).2.2
    have htrim : trim key = key := by
      refine trim_of_not_space fun d hd => ?_
      rw [hchars] at hd
      rcases List.mem_cons.mp hd with rfl | hd
      · exact hspace
      · exact (planKeyLetters_lower d (hrest d hd)).2.1
    have hlabel : planLabelFromKey p key = String.ofList (c.toUpper :: rest) := by
      rw [planLabelFromKey, htrim, hchars]
      dsimp only
      rw [hcase.upper _ (by simpa using hascii), hcase.lower _ (by simpa using hascii''),
        String.toList_ofList, String.toList_ofList, hlower, List.map_singleton,
        ← String.ofList_append]
      rfl
    have htrim' : trim (String.ofList (c.toUpper :: rest)) = String.ofList (c.toUpper :: rest) := by
      refine trim_of_not_space fun d hd => ?_
      rw [String.toList_ofList] at hd
      rcases List.mem_cons.mp hd with rfl | hd
      · exact hspace'
      · exact (planKeyLetters_lower d (hrest d hd)).2.1
    have hkey' : p.toLowerCase (String.ofList (c.toUpper :: rest)) = key := by
      rw [hcase.lower _ ?_, String.toList_ofList, List.map_cons, hback, hlower, ← hchars,
        String.ofList_toList]
      intro d hd
      rw [String.toList_ofList] at hd
      rcases List.mem_cons.mp hd with rfl | hd
      · exact hascii'
      · exact hascii'' d hd
    have hne : key ≠ "" := fun hnil => by simp [hnil] at hchars
    rw [currentPlanKey, hlabel, htrim', hkey', if_neg hne]

end

/-! ### Requests -/

inductive RequestKind where
  | period_end
  | comp_revert
deriving DecidableEq, Repr

/-- A row of `plan_change_requests`. -/
structure PlanChangeRequest where
  id : Nat
  kind : RequestKind
  fromPlanKey : Option String
  toPlanKey : String
  effectiveAt : Int
  appliedAt : Option Int
deriving DecidableEq, Repr

def PlanChangeRequest.isPending (r : PlanChangeRequest) : Bool := r.appliedAt = none

/-- A pending request of the same kind is replaced. -/
def upsertPendingRequest (requests : List PlanChangeRequest) (row : PlanChangeRequest) :
    List PlanChangeRequest :=
  requests.filter (fun r => ¬ (r.kind = row.kind ∧ r.isPending = true)) ++ [row]

/-- What a sweep reads, `room` being what its limit leaves for the workspace. -/
def dueRequests (requests : List PlanChangeRequest) (room : Nat) (now : Int) :
    List PlanChangeRequest :=
  let due := requests.filter fun r => r.isPending ∧ r.effectiveAt ≤ now
  (due.insertionSort fun r r' => r.effectiveAt ≤ r'.effectiveAt).take room

/-! ### Histories -/

structure State where
  plan : String
  requests : List PlanChangeRequest
  nextId : Nat
  now : Int
  /-- The plan of the latest open-ended comp, or the one the history began with.  No step
  reads it. -/
  base : String
deriving DecidableEq, Repr

def start (p : Platform) (plan : String) (now : Int) : State :=
  ⟨plan, [], 0, now, currentPlanKey p plan⟩

/-- A comp as the administrator asks for it. -/
structure AdminPlanChangeInput where
  toPlanKey : String
  compEndsAt : Option Int
deriving DecidableEq, Repr

/-- The comp that reverts to `fromPlanKey`; an end that is not in the future is refused. -/
def applyComp (p : Platform) (s : State) (fromPlanKey toPlanKey : String)
    (compEndsAt : Option Int) : Option State :=
  if compEndsAt.any (· ≤ s.now) then none
  else
    some { s with
      plan := planLabelFromKey p toPlanKey
      requests := match compEndsAt with
        | some endsAt => upsertPendingRequest s.requests
            ⟨s.nextId, .comp_revert, some toPlanKey, fromPlanKey, endsAt, none⟩
        | none => s.requests
      nextId := s.nextId + 1
      base := if compEndsAt = none then toPlanKey else s.base }

/-- A plan that is not in the catalogue is refused. -/
def adminChangePlan (p : Platform) (t : Tables) (s : State) (input : AdminPlanChangeInput) :
    Option State := do
  let target ← t.getByKey p input.toPlanKey
  applyComp p s (currentPlanKey p s.plan) target.key input.compEndsAt

/-- One request: it is applied unless another sweep has claimed it. -/
def applyRequest (p : Platform) (s : State) (req : PlanChangeRequest) : State :=
  if s.requests.any fun r => r.id = req.id ∧ r.isPending then
    { s with
      plan := planLabelFromKey p req.toPlanKey
      requests := s.requests.map fun r =>
        if r.id = req.id ∧ r.isPending then { r with appliedAt := some s.now } else r }
  else s

def applyDueChanges (p : Platform) (s : State) (room : Nat) : State :=
  (dueRequests s.requests room s.now).foldl (applyRequest p) s

inductive Action where
  | comp (input : AdminPlanChangeInput)
  | sweep (room : Nat)
  | tick (ms : Nat)
deriving DecidableEq, Repr

/-- A comp that is refused leaves everything as it is. -/
def next (p : Platform) (t : Tables) (s : State) : Action → State
  | .comp input => (adminChangePlan p t s input).getD s
  | .sweep room => applyDueChanges p s room
  | .tick ms => { s with now := s.now + ms }

def step (p : Platform) (t : Tables) (s : State) (a : Action) : Option State := some (next p t s a)

/-! ### What is claimed of them -/

def State.pending (s : State) : List PlanChangeRequest := s.requests.filter (·.isPending)

/-- **Once what is pending has been swept, the workspace is on the plan it has been given
for good.** -/
def Returns (p : Platform) (t : Tables) (s : State) : Prop :=
  ∀ ms room s', run (step p t) s [.tick ms, .sweep room] = some s' → s'.pending = [] →
    currentPlanKey p s'.plan = s.base

/-- **The condition on a comp that goes through**: a dated one is granted on the plan the
workspace has been given for good, an open-ended one while no revert to another plan is
pending. -/
def Granted (p : Platform) (t : Tables) (s : State) : Action → Prop
  | .comp input => ∀ target ∈ t.getByKey p input.toPlanKey,
    match input.compEndsAt with
    | some endsAt => s.now < endsAt → currentPlanKey p s.plan = s.base
    | none => ∀ r ∈ s.pending, r.toPlanKey = target.key
  | _ => True

/-! ### The plan that is promised -/

/-- The plan a sweep leads to. -/
def State.promised (p : Platform) (s : State) : String :=
  (s.pending.head?.map (·.toPlanKey)).getD (currentPlanKey p s.plan)

/-- At most one revert is pending, and plans are named by their keys. -/
structure Inv (p : Platform) (s : State) : Prop where
  single : s.pending.length ≤ 1
  kind : ∀ r ∈ s.requests, r.kind = .comp_revert
  plan : isPlanKey (currentPlanKey p s.plan) = true
  reverts : ∀ r ∈ s.requests, isPlanKey r.toPlanKey = true

section

variable {p : Platform} {t : Tables} {s s' : State}

theorem Inv.pending_cases (h : Inv p s) : s.pending = [] ∨ ∃ r, s.pending = [r] := by
  rcases Nat.le_one_iff_eq_zero_or_eq_one.mp h.single with hlen | hlen
  · exact Or.inl (List.eq_nil_of_length_eq_zero hlen)
  · exact Or.inr (List.length_eq_one_iff.mp hlen)

theorem mem_of_pending {r : PlanChangeRequest} (h : r ∈ s.pending) :
    r ∈ s.requests ∧ r.isPending = true :=
  List.mem_filter.mp h

/-! ### A sweep -/

theorem sweep_of_pending (room : Nat) :
    applyDueChanges p s room = (((s.pending.filter fun r => r.effectiveAt ≤ s.now).insertionSort
      fun r r' => r.effectiveAt ≤ r'.effectiveAt).take room).foldl (applyRequest p) s := by
  rw [applyDueChanges, dueRequests, State.pending, List.filter_filter]
  simp only [Bool.decide_and, Bool.decide_eq_true, Bool.and_comm]

theorem sweep_nil (h : s.pending = []) (room : Nat) : applyDueChanges p s room = s := by
  rw [sweep_of_pending, h, List.filter_nil, List.insertionSort_nil, List.take_nil, List.foldl_nil]

theorem sweep_singleton {r : PlanChangeRequest} (h : s.pending = [r]) (room : Nat) :
    applyDueChanges p s room =
      if r.effectiveAt ≤ s.now ∧ room ≠ 0 then applyRequest p s r else s := by
  rw [sweep_of_pending, h]
  by_cases hdue : r.effectiveAt ≤ s.now
  · rw [List.filter_cons_of_pos (by simpa using hdue), List.filter_nil, List.insertionSort_cons,
      List.insertionSort_nil, List.orderedInsert_nil]
    cases room with
    | zero => rw [List.take_zero, List.foldl_nil, if_neg (by simp)]
    | succ room =>
      rw [List.take_succ_cons, List.take_nil, List.foldl_cons, List.foldl_nil,
        if_pos ⟨hdue, Nat.succ_ne_zero room⟩]
  · rw [List.filter_cons_of_neg (by simpa using hdue), List.filter_nil, List.insertionSort_nil,
      List.take_nil, List.foldl_nil, if_neg fun hboth => hdue hboth.1]

/-- The pending revert is applied, and none is left. -/
theorem applyRequest_of_pending {r : PlanChangeRequest} (h : s.pending = [r]) :
    (applyRequest p s r).plan = planLabelFromKey p r.toPlanKey ∧
      (applyRequest p s r).pending = [] ∧
      ∀ r' ∈ (applyRequest p s r).requests, ∃ r'' ∈ s.requests,
        r'.kind = r''.kind ∧ r'.toPlanKey = r''.toPlanKey := by
  have hmem : r ∈ s.requests ∧ r.isPending = true :=
    mem_of_pending (h ▸ List.mem_singleton_self r)
  have hclaim : (s.requests.any fun r' => r'.id = r.id ∧ r'.isPending) = true :=
    List.any_eq_true.mpr ⟨r, hmem.1, by simp [hmem.2]⟩
  rw [applyRequest, if_pos hclaim]
  dsimp only
  refine ⟨rfl, ?_, fun r' hr' => ?_⟩
  · rw [State.pending, List.filter_eq_nil_iff]
    intro r' hr'
    obtain ⟨r'', hr'', rfl⟩ := List.mem_map.mp hr'
    by_cases hpending : r''.isPending = true
    · have hsame : r'' = r := by
        have hin : r'' ∈ s.pending := List.mem_filter.mpr ⟨hr'', hpending⟩
        rw [h] at hin
        exact List.mem_singleton.mp hin
      rw [if_pos ⟨congrArg _ hsame, hpending⟩]
      simp [PlanChangeRequest.isPending]
    · rw [if_neg fun hboth => hpending hboth.2]
      exact hpending
  · obtain ⟨r'', hr'', rfl⟩ := List.mem_map.mp hr'
    refine ⟨r'', hr'', ?_⟩
    split
    · exact ⟨rfl, rfl⟩
    · exact ⟨rfl, rfl⟩

theorem promised_of_nil (h : s.pending = []) : s.promised p = currentPlanKey p s.plan := by
  rw [State.promised, h]
  rfl

theorem promised_of_singleton {r : PlanChangeRequest} (h : s.pending = [r]) :
    s.promised p = r.toPlanKey := by
  rw [State.promised, h]
  rfl

/-- **A sweep moves the workspace to the plan that is promised**, or leaves it. -/
theorem sweep_keeps (hcase : AsciiCase p) (h : Inv p s) (room : Nat) :
    Inv p (applyDueChanges p s room) ∧
      (applyDueChanges p s room).promised p = s.promised p ∧
      (applyDueChanges p s room).base = s.base := by
  rcases h.pending_cases with hnil | ⟨r, hr⟩
  · rw [sweep_nil hnil]
    exact ⟨h, rfl, rfl⟩
  · rw [sweep_singleton hr]
    split
    · obtain ⟨hplan, hpending, hrows⟩ := applyRequest_of_pending (p := p) hr
      have hmem := (mem_of_pending (hr ▸ List.mem_singleton_self r)).1
      have hkey : currentPlanKey p (applyRequest p s r).plan = r.toPlanKey := by
        rw [hplan, currentPlanKey_planLabelFromKey hcase (h.reverts r hmem)]
      refine ⟨⟨?_, fun r' hr' => ?_, ?_, fun r' hr' => ?_⟩, ?_, ?_⟩
      · rw [hpending]
        exact Nat.zero_le 1
      · obtain ⟨r'', hr'', hkind, -⟩ := hrows r' hr'
        rw [hkind]
        exact h.kind r'' hr''
      · rw [hkey]
        exact h.reverts r hmem
      · obtain ⟨r'', hr'', -, hto⟩ := hrows r' hr'
        rw [hto]
        exact h.reverts r'' hr''
      · rw [promised_of_nil hpending, hkey, promised_of_singleton hr]
      · rw [applyRequest]
        split <;> rfl
    · exact ⟨h, rfl, rfl⟩

/-! ### A comp -/

/-- The keys of the catalogue, and of the seed that stands in for it. -/
theorem isPlanKey_of_getByKey (hkeys : ∀ plan ∈ t.plans, isPlanKey plan.key = true)
    {key : String} {target : Tables.CatalogPlan} (h : t.getByKey p key = some target) :
    isPlanKey target.key = true := by
  have hseed : ∀ seed ∈ seedPlans, isPlanKey seed.key = true := by decide
  rw [Tables.getByKey] at h
  cases hrow : t.catalogRow p (p.toLowerCase (trim key)) with
  | some plan =>
    rw [hrow] at h
    rw [← Option.some.inj h]
    exact hkeys plan (List.mem_of_find?_eq_some hrow)
  | none =>
    rw [hrow] at h
    dsimp only at h
    split at h
    · exact absurd h (by simp)
    · rw [Tables.seedCatalog, Option.map_eq_some_iff] at h
      obtain ⟨seed, hfind, rfl⟩ := h
      exact hseed seed (List.mem_of_find?_eq_some hfind)

/-- A comp that goes through. -/
theorem adminChangePlan_eq_some {input : AdminPlanChangeInput}
    (h : adminChangePlan p t s input = some s') :
    ∃ target ∈ t.getByKey p input.toPlanKey, s'.plan = planLabelFromKey p target.key ∧
      (input.compEndsAt = none ∧ s'.requests = s.requests ∧ s'.base = target.key ∨
        ∃ endsAt, input.compEndsAt = some endsAt ∧ s.now < endsAt ∧ s'.base = s.base ∧
          s'.requests = upsertPendingRequest s.requests
            ⟨s.nextId, .comp_revert, some target.key, currentPlanKey p s.plan, endsAt, none⟩) := by
  simp only [adminChangePlan, Option.bind_eq_bind, Option.bind_eq_some_iff] at h
  obtain ⟨target, htarget, happly⟩ := h
  refine ⟨target, htarget, ?_⟩
  cases hends : input.compEndsAt with
  | none =>
    rw [hends, applyComp.eq_def, Option.any_none, if_neg Bool.false_ne_true] at happly
    rw [← Option.some.inj happly]
    dsimp only
    exact ⟨rfl, Or.inl ⟨rfl, rfl, rfl⟩⟩
  | some endsAt =>
    rw [hends, applyComp.eq_def, Option.any_some] at happly
    split at happly
    · exact absurd happly (by simp)
    · rename_i hfuture
      rw [← Option.some.inj happly]
      dsimp only
      exact ⟨rfl, Or.inr ⟨endsAt, rfl, by simpa using hfuture, rfl, rfl⟩⟩

/-- The new revert takes the place of the one that is pending. -/
theorem pending_upsert (h : ∀ r ∈ s.requests, r.kind = .comp_revert) {row : PlanChangeRequest}
    (hkind : row.kind = .comp_revert) (hrow : row.isPending = true) :
    (upsertPendingRequest s.requests row).filter (·.isPending) = [row] := by
  rw [upsertPendingRequest, List.filter_append, List.filter_filter]
  have hnone : (s.requests.filter fun r =>
      r.isPending && decide ¬ (r.kind = row.kind ∧ r.isPending = true)) = [] := by
    refine List.filter_eq_nil_iff.mpr fun r hr => ?_
    simp [h r hr, hkind]
  rw [hnone, List.nil_append, List.filter_cons_of_pos hrow, List.filter_nil]

theorem granted_comp_iff {input : AdminPlanChangeInput} {target : Tables.CatalogPlan}
    (htarget : target ∈ t.getByKey p input.toPlanKey) :
    Granted p t s (.comp input) ↔
      match input.compEndsAt with
      | some endsAt => s.now < endsAt → currentPlanKey p s.plan = s.base
      | none => ∀ r ∈ s.pending, r.toPlanKey = target.key := by
  rw [Option.mem_def] at htarget
  rw [Granted, htarget]
  exact ⟨fun hall => hall target rfl, fun hall _ ht => Option.some.inj ht ▸ hall⟩

/-- What a comp that goes through keeps, and when it keeps the promise. -/
theorem comp_iff (hcase : AsciiCase p) (hkeys : ∀ plan ∈ t.plans, isPlanKey plan.key = true)
    (h : Inv p s) {input : AdminPlanChangeInput} (hs : adminChangePlan p t s input = some s') :
    Inv p s' ∧ (s'.promised p = s'.base ↔ Granted p t s (.comp input)) := by
  obtain ⟨target, htarget, hplan, hcomp⟩ := adminChangePlan_eq_some hs
  have hkey := isPlanKey_of_getByKey hkeys htarget
  have hback : currentPlanKey p s'.plan = target.key := by
    rw [hplan, currentPlanKey_planLabelFromKey hcase hkey]
  rw [granted_comp_iff htarget]
  rcases hcomp with ⟨hends, hrequests, hbase⟩ | ⟨endsAt, hends, hfuture, hbase, hrequests⟩
  · have hpending : s'.pending = s.pending := by rw [State.pending, hrequests, State.pending]
    refine ⟨⟨hpending ▸ h.single, hrequests ▸ h.kind, hback ▸ hkey, hrequests ▸ h.reverts⟩, ?_⟩
    rw [hends, hbase]
    rcases h.pending_cases with hnil | ⟨r, hr⟩
    · rw [promised_of_nil (hpending.trans hnil), hback, hnil]
      simp
    · rw [promised_of_singleton (hpending.trans hr), hr]
      simp
  · have hpending : s'.pending = [⟨s.nextId, .comp_revert, some target.key,
        currentPlanKey p s.plan, endsAt, none⟩] := by
      rw [State.pending, hrequests, pending_upsert h.kind rfl rfl]
    have hrows : ∀ r ∈ s'.requests,
        r ∈ s.requests ∨ r.kind = .comp_revert ∧ r.toPlanKey = currentPlanKey p s.plan := by
      intro r hr
      rw [hrequests] at hr
      rcases List.mem_append.mp hr with hr | hr
      · exact Or.inl (List.mem_of_mem_filter hr)
      · rw [List.mem_singleton.mp hr]
        exact Or.inr ⟨rfl, rfl⟩
    refine ⟨⟨hpending ▸ le_refl 1, fun r hr => ?_, hback ▸ hkey, fun r hr => ?_⟩, ?_⟩
    · exact (hrows r hr).elim (h.kind r) And.left
    · rcases hrows r hr with hr | ⟨-, hto⟩
      · exact h.reverts r hr
      · rw [hto]
        exact h.plan
    · rw [promised_of_singleton hpending, hends, hbase]
      exact ⟨fun hsame _ => hsame, fun hall => hall hfuture⟩

/-! ### The result -/

theorem inv_tick (h : Inv p s) (ms : Nat) : Inv p { s with now := s.now + ms } :=
  ⟨h.single, h.kind, h.plan, h.reverts⟩

/-- **The workspace returns to the plan it has for good exactly when that plan is
promised.** -/
theorem returns_iff (hcase : AsciiCase p) (h : Inv p s) :
    Returns p t s ↔ s.promised p = s.base := by
  have hrun : ∀ ms room, run (step p t) s [.tick ms, .sweep room] =
      some (applyDueChanges p { s with now := s.now + ms } room) := fun _ _ => rfl
  constructor
  · intro hreturns
    rcases h.pending_cases with hnil | ⟨r, hr⟩
    · have hnil' : State.pending { s with now := s.now + (0 : Nat) } = [] := hnil
      rw [promised_of_nil hnil]
      exact hreturns 0 0 { s with now := s.now + (0 : Nat) } (by rw [hrun, sweep_nil hnil']) hnil'
    · have hr' : State.pending { s with now := s.now + (r.effectiveAt - s.now).toNat } = [r] := hr
      obtain ⟨hplan, hpending, -⟩ := applyRequest_of_pending (p := p) hr'
      have hdue : r.effectiveAt ≤ s.now + (r.effectiveAt - s.now).toNat := by omega
      have hswept := hreturns (r.effectiveAt - s.now).toNat 1 _
        (by rw [hrun, sweep_singleton hr', if_pos ⟨hdue, Nat.one_ne_zero⟩]) hpending
      have hmem := (mem_of_pending (hr ▸ List.mem_singleton_self r)).1
      rw [hplan, currentPlanKey_planLabelFromKey hcase (h.reverts r hmem)] at hswept
      rw [promised_of_singleton hr, hswept]
  · intro hpromised ms room s' hs' hpending
    obtain rfl := Option.some.inj ((hrun ms room).symm.trans hs')
    obtain ⟨-, hkept, -⟩ := sweep_keeps hcase (inv_tick h ms) room
    rw [promised_of_nil hpending] at hkept
    exact hkept.trans hpromised

theorem inv_next (hcase : AsciiCase p) (hkeys : ∀ plan ∈ t.plans, isPlanKey plan.key = true)
    (h : Inv p s) (a : Action) : Inv p (next p t s a) := by
  cases a with
  | comp input =>
    rw [next]
    cases hcomp : adminChangePlan p t s input with
    | some s' => exact (comp_iff hcase hkeys h hcomp).1
    | none => exact h
  | sweep room => exact (sweep_keeps hcase h room).1
  | tick ms => exact inv_tick h ms

/-- **A step keeps the promise exactly under the condition.** -/
theorem promised_next_iff (hcase : AsciiCase p)
    (hkeys : ∀ plan ∈ t.plans, isPlanKey plan.key = true) (h : Inv p s)
    (hpromised : s.promised p = s.base) (a : Action) :
    (next p t s a).promised p = (next p t s a).base ↔ Granted p t s a := by
  cases a with
  | comp input =>
    rw [next]
    cases hcomp : adminChangePlan p t s input with
    | some s' => exact (comp_iff hcase hkeys h hcomp).2
    | none =>
      refine iff_of_true hpromised fun target htarget => ?_
      -- the comp is refused: its end is not in the future
      simp only [adminChangePlan, Option.mem_def.mp htarget, Option.bind_eq_bind,
        Option.bind_some, applyComp.eq_def] at hcomp
      split at hcomp
      · rename_i hpast
        cases hends : input.compEndsAt with
        | none => simp [hends] at hpast
        | some endsAt =>
          rw [hends, Option.any_some, decide_eq_true_eq] at hpast
          exact fun hfuture => absurd hfuture (not_lt.mpr hpast)
      · exact absurd hcomp (by simp)
  | sweep room =>
    obtain ⟨-, hkept, hbase⟩ := sweep_keeps hcase h room
    refine iff_of_true ?_ trivial
    rw [next, hkept, hbase, hpromised]
  | tick ms => exact iff_of_true hpromised trivial

end

/-- **A workspace returns to its plan all along a history of comps and sweeps exactly when
every comp of it is granted under the condition.** -/
theorem returns_iff_granted (p : Platform) (hcase : AsciiCase p) (t : Tables)
    (hkeys : ∀ plan ∈ t.plans, isPlanKey plan.key = true) (plan : String) (now : Int)
    (hplan : isPlanKey (currentPlanKey p plan) = true) (as : List Action) :
    (∀ pre post s, as = pre ++ post → run (step p t) (start p plan now) pre = some s →
        Returns p t s) ↔
      Guarded (step p t) (Granted p t) (start p plan now) as := by
  have hstart : Inv p (start p plan now) :=
    ⟨Nat.zero_le 1, by simp [start], hplan, by simp [start]⟩
  have hinv : ∀ pre s, run (step p t) (start p plan now) pre = some s → Inv p s :=
    fun pre s hrun => invariant_of_run
      (fun s a s' h hs => Option.some.inj hs ▸ inv_next hcase hkeys h a) pre _ s hstart hrun
  have hiff : Guarded (step p t) (Granted p t) (start p plan now) as ↔
      ∀ pre post s, as = pre ++ post → run (step p t) (start p plan now) pre = some s →
        Inv p s ∧ s.promised p = s.base := by
    refine guarded_iff_holds_throughout (fun _ _ => rfl) (fun s a s' h hs => ?_) ⟨hstart, rfl⟩
    obtain rfl : next p t s a = s' := Option.some.inj hs
    rw [← promised_next_iff hcase hkeys h.1 h.2 a]
    exact and_iff_right (inv_next hcase hkeys h.1 a)
  rw [hiff]
  constructor
  · intro hreturns pre post s hsplit hrun
    have h := hinv pre s hrun
    exact ⟨h, (returns_iff hcase h).mp (hreturns pre post s hsplit hrun)⟩
  · intro hpromised pre post s hsplit hrun
    obtain ⟨h, hs⟩ := hpromised pre post s hsplit hrun
    exact (returns_iff hcase h).mpr hs

/-! ### Comps that overlap -/

theorem asciiCase_planPlatform : AsciiCase planPlatform := ⟨fun _ _ => rfl, fun _ _ => rfl⟩

/-- The plans a workspace is moved between. -/
def threePlans : Tables where
  plans := [⟨0, "free", some 0⟩, ⟨1, "pro", some 1⟩, ⟨2, "team", some 2⟩]
  planVersions := [⟨0, 0, 1, .empty, none⟩, ⟨1, 1, 1, .empty, none⟩, ⟨2, 2, 1, .empty, none⟩]
  workspaces := []
  overrides := []

theorem isPlanKey_threePlans : ∀ plan ∈ threePlans.plans, isPlanKey plan.key = true := by decide

instance (p : Platform) (t : Tables) (s : State) : ∀ a : Action, Decidable (Granted p t s a)
  | .comp ⟨toPlanKey, some endsAt⟩ => inferInstanceAs (Decidable (
      ∀ _target ∈ t.getByKey p toPlanKey, s.now < endsAt → currentPlanKey p s.plan = s.base))
  | .comp ⟨toPlanKey, none⟩ => inferInstanceAs (Decidable (∀ target ∈ t.getByKey p toPlanKey,
      ∀ r ∈ s.pending, r.toPlanKey = target.key))
  | .sweep _ => isTrue trivial
  | .tick _ => isTrue trivial

/-- A comp for good, and a dated one on top of it. -/
def grantedHistory : List Action :=
  [.comp ⟨"pro", none⟩, .comp ⟨"Team", some 10⟩, .tick 20, .sweep 1, .comp ⟨"team", some 40⟩]

theorem returns_grantedHistory :
    ∃ s, run (step planPlatform threePlans) (start planPlatform "Free" 0) grantedHistory = some s ∧
      Returns planPlatform threePlans s := by
  have hsome : (run (step planPlatform threePlans) (start planPlatform "Free" 0)
      grantedHistory).isSome = true := rfl
  obtain ⟨s, hs⟩ := Option.isSome_iff_exists.mp hsome
  exact ⟨s, hs, (returns_iff_granted planPlatform asciiCase_planPlatform threePlans
    isPlanKey_threePlans "Free" 0 (by decide +kernel) grantedHistory).mpr (by decide +kernel)
    grantedHistory [] s (List.append_nil _).symm hs⟩

/-- **Two dated comps that overlap**: when both have ended and been swept, the workspace is on
the plan of the first one. -/
theorem overlapping_comp_stays :
    ¬ ∀ (p : Platform), AsciiCase p → ∀ t : Tables, (∀ plan ∈ t.plans, isPlanKey plan.key = true) →
      ∀ (plan : String) (now : Int), isPlanKey (currentPlanKey p plan) = true →
        ∀ (as : List Action) (s : State), run (step p t) (start p plan now) as = some s →
          Returns p t s := by
  intro h
  have hreturns := h planPlatform asciiCase_planPlatform threePlans isPlanKey_threePlans "Free" 0
    (by decide +kernel) [.comp ⟨"pro", some 10⟩, .comp ⟨"team", some 20⟩] _ rfl 30 1 _ rfl
    (by decide +kernel)
  exact absurd hreturns (by decide +kernel)

end SnapUrl.Plans.Comps
