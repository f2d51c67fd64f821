import SnapUrl.Billing.Enforcement
import SnapUrl.Plans.Catalogue

/-!
# Editing the matrix and the prices of a plan

Both edits insert a whole version, so each has to carry over what the other one owns.
`editPrices` does; `editMatrix` leaves the prices out.

* `History`: the catalogue, with the matrix and the prices that were last set.
* `Framed`: an edit leaves what it does not own as it is.
* `edits_framed_iff`: **every edit of a history is framed, and every plan shows the latest
  matrix and the latest prices all along it, exactly when no matrix is edited while the plan
  has a live price.**
* `editMatrix_drops_prices`: a plan that is sold, and one edit of its features.
-/

namespace SnapUrl.Plans

open Lib

/-! ### Histories -/

inductive Edit where
  | matrix (planId : Nat) (input : ResolvableVersion)
  | prices (planId : Nat) (prices : PlanPrices)

/-- The catalogue, and by plan what was last set.  No edit reads the latter. -/
structure History where
  tables : Tables
  matrix : Nat → ResolvableVersion
  prices : Nat → PlanPrices

/-- What a plan has when the history begins. -/
def History.start (t : Tables) : History where
  tables := t
  matrix planId := (t.latestVersion planId).elim .empty (·.matrices)
  prices planId := (t.latestVersion planId).elim emptyPlanPrices fun v => parsePricing v.pricing

/-- An edit of a plan there is not is refused. -/
def History.edit (p : Platform) (lower : String → String) (h : History) : Edit → History
  | .matrix planId input =>
    match h.tables.editMatrix p lower planId input with
    | some t => { h with tables := t, matrix := Function.update h.matrix planId input }
    | none => h
  | .prices planId prices =>
    match h.tables.editPrices p lower planId prices with
    | some t => { h with tables := t, prices := Function.update h.prices planId prices }
    | none => h

def History.step (p : Platform) (lower : String → String) (h : History) (e : Edit) :
    Option History :=
  some (h.edit p lower e)

/-! ### What is claimed of them -/

/-- A plan has the matrix and the prices that were last set, the prices as they are read for
each interval and currency. -/
def History.Shows (h : History) (plan : Tables.CatalogPlan) : Prop :=
  plan.matrices = h.matrix plan.id ∧
    ∀ interval currency,
      priceFor plan.prices interval currency = priceFor (h.prices plan.id) interval currency

/-- **The current version of every plan has the latest matrix and the latest prices.** -/
def History.Carries (h : History) : Prop :=
  ∀ plan ∈ h.tables.plans, h.Shows (h.tables.catalogPlan plan)

/-- An edit of a matrix leaves every live price, and an edit of prices every matrix. -/
def Framed (p : Platform) (t : Tables) : Edit → Tables → Prop
  | .matrix .., t' => ∀ planKey interval currency,
      t'.livePriceMinor p planKey interval currency = t.livePriceMinor p planKey interval currency
  | .prices .., t' => ∀ planKey,
      (t'.getByKey p planKey).map (·.matrices) = (t.getByKey p planKey).map (·.matrices)

/-- No matrix is edited of a plan that has a live price. -/
def Unpriced (h : History) : Edit → Prop
  | .matrix planId _ => ∀ plan ∈ h.tables.plans, plan.id = planId →
      ∀ interval currency, priceFor (h.tables.catalogPlan plan).prices interval currency = none
  | .prices .. => True

/-! ### One edit -/

section

variable {p : Platform} {lower : String → String} {t t' : Tables} {h : History}

theorem editMatrix_eq_some {planId : Nat} {input : ResolvableVersion}
    (he : t.editMatrix p lower planId input = some t') :
    ∃ before ∈ t.plans, before.id = planId ∧
      t' = t.insertVersion p lower before (t.latestVersion before.id) input none := by
  simp only [Tables.editMatrix, Option.bind_eq_bind, Option.bind_eq_some_iff,
    Option.some.injEq] at he
  obtain ⟨before, hbefore, rfl⟩ := he
  obtain ⟨hmem, rfl⟩ := Tables.mem_of_planById hbefore
  exact ⟨before, hmem, rfl, rfl⟩

/-- The matrices an edit of prices carries forward are those the plan shows. -/
theorem editPrices_eq_some {planId : Nat} {prices : PlanPrices}
    (he : t.editPrices p lower planId prices = some t') :
    ∃ before ∈ t.plans, before.id = planId ∧
      t' = t.insertVersion p lower before (t.latestVersion before.id)
        ((t.latestVersion before.id).elim .empty (·.matrices)) (some prices) := by
  simp only [Tables.editPrices, Option.bind_eq_bind, Option.bind_eq_some_iff,
    Option.some.injEq] at he
  obtain ⟨before, hbefore, rfl⟩ := he
  obtain ⟨hmem, rfl⟩ := Tables.mem_of_planById hbefore
  exact ⟨before, hmem, rfl, rfl⟩

theorem wf_edit (hwf : h.tables.WF) (e : Edit) : (h.edit p lower e).tables.WF := by
  cases e with
  | matrix planId input =>
    rw [History.edit]
    cases he : h.tables.editMatrix p lower planId input with
    | none => exact hwf
    | some t =>
      obtain ⟨before, hbefore, -, rfl⟩ := editMatrix_eq_some he
      exact hwf.insertVersion hbefore
  | prices planId prices =>
    rw [History.edit]
    cases he : h.tables.editPrices p lower planId prices with
    | none => exact hwf
    | some t =>
      obtain ⟨before, hbefore, -, rfl⟩ := editPrices_eq_some he
      exact hwf.insertVersion hbefore

section Insert

variable {before : Plan} {matrices : ResolvableVersion} {pricing : Option PlanPrices}

/-- What holds of every plan after an edit holds of the plan that was edited with its new
version, and of every other plan as it was. -/
theorem forall_insertVersion_iff (hwf : t.WF) (hbefore : before ∈ t.plans)
    (P : Tables.CatalogPlan → Prop) :
    (∀ plan ∈ (t.insertVersion p lower before (t.latestVersion before.id) matrices pricing).plans,
      P ((t.insertVersion p lower before (t.latestVersion before.id) matrices pricing).catalogPlan
        plan)) ↔
      ∀ plan ∈ t.plans, P (if plan.id = before.id then
        ⟨plan.id, plan.key, matrices, parsePricing pricing⟩ else t.catalogPlan plan) := by
  constructor
  · intro hall plan hplan
    rw [← Tables.catalogPlan_insertVersion hwf hbefore hplan]
    exact hall _ (List.mem_map_of_mem hplan)
  · intro hall plan' hplan'
    obtain ⟨plan, hplan, rfl⟩ := List.mem_map.mp hplan'
    rw [Tables.catalogPlan_insertVersion hwf hbefore hplan]
    exact hall plan hplan

/-- A key shows the plan it showed, as the edit leaves it. -/
theorem getByKey_insertVersion (hwf : t.WF) (hbefore : before ∈ t.plans) (key : String) :
    (t.insertVersion p lower before (t.latestVersion before.id) matrices pricing).getByKey p key =
      (t.getByKey p key).map fun plan =>
        if plan.id = before.id then ⟨plan.id, plan.key, matrices, parsePricing pricing⟩
        else plan := by
  have hne : t.plans ≠ [] := List.ne_nil_of_mem hbefore
  have hne' : (t.insertVersion p lower before (t.latestVersion before.id) matrices pricing).plans
      ≠ [] := fun hnil => hne (List.map_eq_nil_iff.mp hnil)
  rw [Tables.getByKey, Tables.catalogRow_insertVersion, Tables.getByKey]
  cases hrow : t.catalogRow p (p.toLowerCase (trim key)) with
  | none => simp [hne, hne']
  | some plan =>
    have hplan : plan ∈ t.plans := List.mem_of_find?_eq_some hrow
    simp only [Option.map_some, Tables.catalogPlan_insertVersion hwf hbefore hplan]
    rfl

end Insert

/-- What a key shows is a row of the catalogue, once there is one. -/
theorem mem_of_getByKey (hne : t.plans ≠ []) {key : String} {plan : Tables.CatalogPlan}
    (hkey : t.getByKey p key = some plan) : ∃ row ∈ t.plans, plan = t.catalogPlan row := by
  rw [Tables.getByKey] at hkey
  cases hrow : t.catalogRow p (p.toLowerCase (trim key)) with
  | none => simp [hrow, hne] at hkey
  | some row =>
    rw [hrow] at hkey
    exact ⟨row, List.mem_of_find?_eq_some hrow, (Option.some.inj hkey).symm⟩

/-- **An edit keeps what the plans carry exactly when it drops no live price.** -/
theorem carries_edit_iff (hwf : h.tables.WF) (hcarries : h.Carries) (e : Edit) :
    (h.edit p lower e).Carries ↔ Unpriced h e := by
  cases e with
  | matrix planId input =>
    rw [History.edit, Unpriced]
    cases he : h.tables.editMatrix p lower planId input with
    | none =>
      refine iff_of_true hcarries fun plan hplan hid => ?_
      cases hrow : h.tables.planById planId with
      | none => exact absurd (decide_eq_true hid) (List.find?_eq_none.mp hrow plan hplan)
      | some row => simp [Tables.editMatrix, hrow] at he
    | some t =>
      obtain ⟨before, hbefore, rfl, rfl⟩ := editMatrix_eq_some he
      refine (forall_insertVersion_iff hwf hbefore _).trans ?_
      refine forall_congr' fun plan => forall_congr' fun hplan => ?_
      obtain ⟨hmatrix, hprices⟩ := hcarries plan hplan
      by_cases hid : plan.id = before.id
      · have hown : ∀ interval currency, priceFor (h.prices plan.id) interval currency =
            priceFor (h.tables.catalogPlan plan).prices interval currency :=
          fun interval currency => (hprices interval currency).symm
        simp only [hid, if_true, History.Shows, Function.update_self, true_and, true_implies]
        rw [hid] at hown
        simp only [hown, parsePricing, Option.getD_none, priceFor_empty]
        exact forall_congr' fun _ => forall_congr' fun _ => eq_comm
      · rw [if_neg hid]
        refine iff_of_true ⟨?_, hprices⟩ fun hsame => absurd hsame hid
        exact hmatrix.trans (Function.update_of_ne hid _ _).symm
  | prices planId prices =>
    rw [History.edit]
    cases he : h.tables.editPrices p lower planId prices with
    | none => exact iff_of_true hcarries trivial
    | some t =>
      obtain ⟨before, hbefore, rfl, rfl⟩ := editPrices_eq_some he
      refine iff_of_true ((forall_insertVersion_iff hwf hbefore _).mpr fun plan hplan => ?_) trivial
      obtain ⟨hmatrix, hprices⟩ := hcarries plan hplan
      by_cases hid : plan.id = before.id
      · obtain ⟨v, hv, hshown⟩ := hwf.catalogPlan_eq hplan
        rw [hshown] at hmatrix
        rw [if_pos hid, ← hid, hv]
        refine ⟨hmatrix, fun interval currency => ?_⟩
        exact congrArg (priceFor · interval currency)
          (Function.update_self plan.id prices h.prices).symm
      · rw [if_neg hid]
        refine ⟨hmatrix, fun interval currency => (hprices interval currency).trans ?_⟩
        exact congrArg (priceFor · interval currency) (Function.update_of_ne hid _ _).symm

/-- An edit that drops no live price is framed. -/
theorem framed_edit (hwf : h.tables.WF) {e : Edit} (hunpriced : Unpriced h e) :
    Framed p h.tables e (h.edit p lower e).tables := by
  cases e with
  | matrix planId input =>
    intro planKey interval currency
    rw [History.edit]
    cases he : h.tables.editMatrix p lower planId input with
    | none => rfl
    | some t =>
      obtain ⟨before, hbefore, rfl, rfl⟩ := editMatrix_eq_some he
      dsimp only
      rw [Tables.livePriceMinor, getByKey_insertVersion hwf hbefore, Tables.livePriceMinor]
      cases hkey : h.tables.getByKey p planKey with
      | none => rfl
      | some plan =>
        obtain ⟨row, hrow, rfl⟩ := mem_of_getByKey (List.ne_nil_of_mem hbefore) hkey
        rw [Option.map_some, Option.bind_some, Option.bind_some]
        split
        · rename_i hid
          exact (hunpriced row hrow hid interval currency).symm
        · rfl
  | prices planId prices =>
    intro planKey
    rw [History.edit]
    cases he : h.tables.editPrices p lower planId prices with
    | none => rfl
    | some t =>
      obtain ⟨before, hbefore, rfl, rfl⟩ := editPrices_eq_some he
      dsimp only
      rw [getByKey_insertVersion hwf hbefore]
      cases hkey : h.tables.getByKey p planKey with
      | none => rfl
      | some plan =>
        obtain ⟨row, hrow, rfl⟩ := mem_of_getByKey (List.ne_nil_of_mem hbefore) hkey
        obtain ⟨v, hv, hshown⟩ := hwf.catalogPlan_eq hrow
        rw [Option.map_some, Option.map_some, Option.map_some, hshown]
        split
        · rename_i hid
          rw [← hid, hv]
          rfl
        · rfl

theorem carries_start (hwf : t.WF) : (History.start t).Carries := by
  intro plan hplan
  obtain ⟨v, hv, hshown⟩ := hwf.catalogPlan_eq hplan
  rw [History.Shows, History.start]
  dsimp only
  rw [hshown, hv]
  exact ⟨rfl, fun _ _ => rfl⟩

end

/-! ### The result -/

/-- Every plan carries what was last set all along a history of edits, and each of them
leaves what it does not own. -/
structure EditsFramed (p : Platform) (lower : String → String) (t : Tables) (es : List Edit) :
    Prop where
  carries : ∀ pre post h, es = pre ++ post →
    run (History.step p lower) (.start t) pre = some h → h.Carries
  framed : ∀ pre e post h, es = pre ++ e :: post →
    run (History.step p lower) (.start t) pre = some h →
      Framed p h.tables e (h.edit p lower e).tables

/-- **The edits of a history are framed exactly when no matrix is edited of a plan that has
a live price.** -/
theorem edits_framed_iff (p : Platform) (lower : String → String) (t : Tables) (hwf : t.WF)
    (es : List Edit) :
    EditsFramed p lower t es ↔ Guarded (History.step p lower) Unpriced (.start t) es := by
  have hwfOf : ∀ pre h, run (History.step p lower) (.start t) pre = some h → h.tables.WF :=
    fun pre h hrun => invariant_of_run (I := fun h : History => h.tables.WF)
      (fun h e h' hh hstep => Option.some.inj hstep ▸ wf_edit hh e) pre _ h hwf hrun
  have hiff : Guarded (History.step p lower) Unpriced (.start t) es ↔
      ∀ pre post h, es = pre ++ post → run (History.step p lower) (.start t) pre = some h →
        h.tables.WF ∧ h.Carries := by
    refine guarded_iff_holds_throughout (fun _ _ => rfl) (fun h e h' hh hstep => ?_)
      ⟨hwf, carries_start hwf⟩
    obtain rfl : h.edit p lower e = h' := Option.some.inj hstep
    rw [← carries_edit_iff hh.1 hh.2 e]
    exact and_iff_right (wf_edit hh.1 e)
  constructor
  · intro hframed
    refine hiff.mpr fun pre post h hsplit hrun => ?_
    exact ⟨hwfOf pre h hrun, hframed.carries pre post h hsplit hrun⟩
  · intro hguarded
    refine ⟨fun pre post h hsplit hrun => (hiff.mp hguarded pre post h hsplit hrun).2, ?_⟩
    rintro pre e post h rfl hrun
    exact framed_edit (hwfOf pre h hrun) ((guarded_append.mp hguarded).2 h hrun).1

/-! ### A plan that is sold -/

/-- The free plan, and one that is sold. -/
def soldCatalogue : Tables where
  plans := [⟨0, "free", some 0⟩, ⟨1, "pro", some 1⟩]
  planVersions :=
    [⟨0, 0, 1, ⟨featuresOf [.linkExpiry], fun _ => none⟩, none⟩,
      ⟨1, 1, 1, ⟨everyFeature, fun _ => none⟩, some (inrPrices 199 1990)⟩]
  workspaces := []
  overrides := []

theorem wf_soldCatalogue : soldCatalogue.WF where
  planIds := rfl
  versionIds := rfl
  foreignKey := by simp [soldCatalogue]
  current plan hplan := by
    rcases List.mem_pair.mp hplan with rfl | rfl
    · exact ⟨_, rfl, rfl, rfl⟩
    · exact ⟨_, rfl, rfl, rfl⟩

/-- The features of the free plan are edited, and the price of the other one. -/
theorem edits_framed_soldCatalogue :
    EditsFramed Billing.Enforcement.planPlatform id soldCatalogue
      [.matrix 0 ⟨featuresOf [.linkExpiry, .forms], fun _ => none⟩,
        .prices 1 (inrPrices 249 2490)] := by
  refine (edits_framed_iff _ _ _ wf_soldCatalogue _).mpr
    ⟨?_, fun _ _ => ⟨trivial, fun _ _ => trivial⟩⟩
  intro plan hplan hid interval currency
  rcases List.mem_pair.mp hplan with rfl | rfl
  · rfl
  · exact absurd hid (by decide)

/-- **One edit of its features, and the plan is no longer priced.** -/
theorem editMatrix_drops_prices :
    ¬ ∀ (p : Platform) (lower : String → String) (t : Tables), t.WF →
      ∀ es : List Edit, EditsFramed p lower t es := by
  intro h
  have hframed := (h Billing.Enforcement.planPlatform id soldCatalogue wf_soldCatalogue
    [.matrix 1 ⟨everyFeature, fun _ => some none⟩]).framed [] _ [] _ rfl rfl "pro" .monthly none
  have hbefore : soldCatalogue.livePriceMinor Billing.Enforcement.planPlatform "pro" .monthly none =
      some 19900 := by rfl
  rw [History.start] at hframed
  dsimp only at hframed
  rw [hbefore] at hframed
  exact absurd hframed (by decide)

end SnapUrl.Plans
