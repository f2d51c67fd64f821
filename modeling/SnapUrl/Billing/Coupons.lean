import Mathlib.Data.List.Nodup
import SnapUrl.Lib.Run
import SnapUrl.Billing.Lifecycle

/-!
# Redemptions of coupons

`recordRedemption` of `apps/api/src/billing/coupons.service.ts`: a transaction that claims
a slot of the coupon and then inserts the redemption.

* `step`: any number of calls, their statements in any order.  The update of the coupon
  keeps its row locked until the transaction ends, and another update of the row waits
  for that.
* `Inv`: what every step keeps.
* `redemptions_hold`: **the cap is kept, the counter counts the redemptions, no workspace
  redeems a coupon twice, and the counter has moved once for every call that went
  through.**
-/

namespace SnapUrl.Billing.Coupons

open Lib

/-! ### Tables -/

/-- The columns of a coupon a redemption reads or writes. -/
structure Coupon where
  id : String
  maxRedemptions : Option Int
  redeemedCount : Int
deriving DecidableEq, Repr

structure CouponRedemption where
  couponId : String
  workspaceId : String
  planKey : PlanKey
  interval : BillingInterval
deriving DecidableEq, Repr

structure Tables where
  coupons : List Coupon
  redemptions : List CouponRedemption
deriving DecidableEq, Repr

/-- The columns of the unique index. -/
def CouponRedemption.key (r : CouponRedemption) : String × String := (r.couponId, r.workspaceId)

/-- The redemptions of a coupon. -/
def Tables.redemptionsOf (t : Tables) (couponId : String) : List CouponRedemption :=
  t.redemptions.filter fun r => r.couponId = couponId

/-- `max_redemptions is null or redeemed_count < max_redemptions`. -/
def Coupon.hasSlot (c : Coupon) : Bool := c.maxRedemptions.all (c.redeemedCount < ·)

/-! ### Calls -/

inductive Phase where
  /-- The transaction is open. -/
  | begun
  /-- The counter is raised, and the row of the coupon locked. -/
  | claimed
  /-- The redemption is inserted as well. -/
  | inserted
  | redeemed
  /-- `CouponNotApplicableError` with `max_redemptions_reached`. -/
  | limitReached
  /-- The unique violation, a `ConflictException`. -/
  | alreadyRedeemed
  | aborted
deriving DecidableEq, Repr

/-- A call of `recordRedemption`, and how far it has come.  The arguments are the row it
inserts. -/
structure Call where
  row : CouponRedemption
  phase : Phase
deriving DecidableEq, Repr

/-- What is committed, and the calls. -/
structure State where
  tables : Tables
  calls : List Call
deriving DecidableEq, Repr

def start (t : Tables) : State := ⟨t, []⟩

/-- The call keeps the row of its coupon locked. -/
def Call.holds (c : Call) : Bool := c.phase = .claimed || c.phase = .inserted

def State.locked (s : State) (couponId : String) : Bool :=
  s.calls.any fun c => c.holds && c.row.couponId = couponId

inductive Action where
  | begins (row : CouponRedemption)
  /-- The conditional update of the `i`th call. -/
  | claims (i : Nat)
  | inserts (i : Nat)
  | commits (i : Nat)
  /-- The transaction is rolled back, by an error or by a lost connection. -/
  | aborts (i : Nat)
deriving DecidableEq, Repr

/-- What a transaction leaves when it commits. -/
def Tables.redeem (t : Tables) (row : CouponRedemption) : Tables where
  coupons := t.coupons.map fun c =>
    if c.id = row.couponId then { c with redeemedCount := c.redeemedCount + 1 } else c
  redemptions := t.redemptions ++ [row]

/-- The update: it waits while the row is locked, and sees it as it is afterwards. -/
def afterClaim (s : State) (call : Call) : Option Phase :=
  if call.phase ≠ .begun ∨ s.locked call.row.couponId then none
  else if s.tables.coupons.any fun c => c.id = call.row.couponId && c.hasSlot then some .claimed
  else some .limitReached

/-- The insert.  No other transaction can hold an uncommitted row of the same key, since
this one holds the coupon. -/
def afterInsert (s : State) (call : Call) : Option Phase :=
  if call.phase ≠ .claimed then none
  else if call.row.key ∈ s.tables.redemptions.map (·.key) then some .alreadyRedeemed
  else some .inserted

def afterCommit (call : Call) : Option Phase :=
  if call.phase ≠ .inserted then none else some .redeemed

def afterAbort (call : Call) : Option Phase :=
  if call.phase = .begun ∨ call.holds then some .aborted else none

/-- A call moves to its next phase, and leaves the tables as `tables` says. -/
def State.move (s : State) (i : Nat) (next : Call → Option Phase) (tables : Call → Tables) :
    Option State := do
  let call ← s.calls[i]?
  let phase ← next call
  some ⟨tables call, s.calls.set i { call with phase := phase }⟩

def step (s : State) : Action → Option State
  | .begins row => some { s with calls := s.calls ++ [⟨row, .begun⟩] }
  | .claims i => s.move i (afterClaim s) fun _ => s.tables
  | .inserts i => s.move i (afterInsert s) fun _ => s.tables
  | .commits i => s.move i afterCommit fun call => s.tables.redeem call.row
  | .aborts i => s.move i afterAbort fun _ => s.tables

/-! ### What is claimed of it -/

/-- The calls for a coupon that went through. -/
def State.redeemedCalls (s : State) (couponId : String) : Nat :=
  s.calls.countP fun c => c.phase = .redeemed && c.row.couponId = couponId

/-- Every coupon's counter counts its redemptions and stays within the cap, and every
workspace has redeemed a coupon at most once. -/
structure Tables.Consistent (t : Tables) : Prop where
  ids : (t.coupons.map (·.id)).Nodup
  counted : ∀ c ∈ t.coupons, c.redeemedCount = (t.redemptionsOf c.id).length
  capped : ∀ c ∈ t.coupons, ∀ cap ∈ c.maxRedemptions, c.redeemedCount ≤ cap
  once : (t.redemptions.map (·.key)).Nodup

/-- A call that is refused, or is over, has changed nothing: the counters have moved once
for every call that went through. -/
def Tallied (t : Tables) (s : State) : Prop :=
  s.tables.coupons = t.coupons.map fun c =>
    { c with redeemedCount := c.redeemedCount + s.redeemedCalls c.id }

/-! ### What every step keeps -/

/-- No two calls hold one coupon. -/
def Apart (x y : Call) : Prop :=
  x.holds = true → y.holds = true → x.row.couponId ≠ y.row.couponId

theorem Apart.symm {x y : Call} (h : Apart x y) : Apart y x := fun hy hx heq => h hx hy heq.symm

/-- A coupon that is held has a slot, and a redemption that is inserted is new. -/
structure Inv (t : Tables) (s : State) : Prop where
  consistent : s.tables.Consistent
  apart : s.calls.Pairwise Apart
  slot : ∀ x ∈ s.calls, x.holds = true →
    ∃ c ∈ s.tables.coupons, c.id = x.row.couponId ∧ c.hasSlot = true
  fresh : ∀ x ∈ s.calls, x.phase = .inserted → x.row.key ∉ s.tables.redemptions.map (·.key)
  tallied : Tallied t s

theorem inv_start {t : Tables} (h : t.Consistent) : Inv t (start t) where
  consistent := h
  apart := List.Pairwise.nil
  slot := by simp [start]
  fresh := by simp [start]
  tallied := by simp [Tallied, start, State.redeemedCalls]

section

variable {t : Tables} {s s' : State} {i : Nat} {call : Call} {phase : Phase}

theorem move_eq_some {next : Call → Option Phase} {tables : Call → Tables}
    (h : s.move i next tables = some s') :
    ∃ call phase, s.calls[i]? = some call ∧ next call = some phase ∧
      s' = ⟨tables call, s.calls.set i { call with phase := phase }⟩ := by
  simp only [State.move, Option.bind_eq_bind, Option.bind_eq_some_iff, Option.some.injEq] at h
  obtain ⟨call, hcall, phase, hphase, rfl⟩ := h
  exact ⟨call, phase, hcall, hphase, rfl⟩

theorem afterClaim_eq_some (h : afterClaim s call = some phase) :
    call.phase = .begun ∧ s.locked call.row.couponId = false ∧
      (phase = .limitReached ∨ phase = .claimed ∧
        ∃ c ∈ s.tables.coupons, c.id = call.row.couponId ∧ c.hasSlot = true) := by
  rw [afterClaim] at h
  split at h
  · exact absurd h (by simp)
  rename_i hopen
  rw [not_or, not_not, Bool.not_eq_true] at hopen
  refine ⟨hopen.1, hopen.2, ?_⟩
  split at h
  · rename_i hany
    obtain ⟨c, hc, hslot⟩ := List.any_eq_true.mp hany
    rw [Bool.and_eq_true, decide_eq_true_eq] at hslot
    exact Or.inr ⟨(Option.some.inj h).symm, c, hc, hslot⟩
  · exact Or.inl (Option.some.inj h).symm

theorem afterInsert_eq_some (h : afterInsert s call = some phase) :
    call.phase = .claimed ∧ (phase = .alreadyRedeemed ∨
      phase = .inserted ∧ call.row.key ∉ s.tables.redemptions.map (·.key)) := by
  rw [afterInsert] at h
  split at h
  · exact absurd h (by simp)
  rename_i hclaimed
  refine ⟨not_not.mp hclaimed, ?_⟩
  split at h
  · exact Or.inl (Option.some.inj h).symm
  · rename_i hnew
    exact Or.inr ⟨(Option.some.inj h).symm, hnew⟩

theorem afterCommit_eq_some (h : afterCommit call = some phase) :
    call.phase = .inserted ∧ phase = .redeemed := by
  rw [afterCommit] at h
  split at h
  · exact absurd h (by simp)
  · rename_i hinserted
    exact ⟨not_not.mp hinserted, (Option.some.inj h).symm⟩

theorem afterAbort_eq_some (h : afterAbort call = some phase) :
    call.phase ≠ .redeemed ∧ phase = .aborted := by
  rw [afterAbort] at h
  split at h
  · rename_i hopen
    refine ⟨fun hredeemed => ?_, (Option.some.inj h).symm⟩
    simp [Call.holds, hredeemed] at hopen
  · exact absurd h (by simp)

/-- What a move does to the number of calls that went through. -/
theorem redeemedCalls_set (hcall : s.calls[i]? = some call) (hopen : call.phase ≠ .redeemed)
    (tables : Tables) (phase : Phase) (couponId : String) :
    (State.mk tables (s.calls.set i { call with phase := phase })).redeemedCalls couponId =
      s.redeemedCalls couponId +
        if phase = .redeemed ∧ call.row.couponId = couponId then 1 else 0 := by
  obtain ⟨pre, post, hsplit, hset⟩ := exists_split_of_getElem? hcall
  rw [State.redeemedCalls, State.redeemedCalls, hset, hsplit, List.countP_append,
    List.countP_append, List.countP_cons, List.countP_cons]
  simp only [hopen, decide_false, Bool.false_and, Bool.false_eq_true, if_false,
    Bool.and_eq_true, decide_eq_true_eq]
  omega

/-- A call of the list that is not the one that moved. -/
theorem Inv.apart_of_mem_eraseIdx (h : Inv t s) (hcall : s.calls[i]? = some call) {x : Call}
    (hx : x ∈ s.calls.eraseIdx i) : Apart call x :=
  pairwise_others Apart.symm h.apart hcall x hx

/-- **A move that commits nothing.** -/
theorem Inv.move (h : Inv t s) (hcall : s.calls[i]? = some call)
    (hopen : call.phase ≠ .redeemed) (hphase : phase ≠ .redeemed)
    (hapart : ∀ x ∈ s.calls.eraseIdx i, Apart { call with phase := phase } x)
    (hslot : (Call.mk call.row phase).holds = true →
      ∃ c ∈ s.tables.coupons, c.id = call.row.couponId ∧ c.hasSlot = true)
    (hfresh : phase = .inserted → call.row.key ∉ s.tables.redemptions.map (·.key)) :
    Inv t ⟨s.tables, s.calls.set i { call with phase := phase }⟩ where
  consistent := h.consistent
  apart := pairwise_set Apart.symm h.apart hapart
  slot x hx hholds := by
    rcases eq_or_mem_eraseIdx_of_mem_set hx with rfl | hx
    · exact hslot hholds
    · exact h.slot x (List.mem_of_mem_eraseIdx hx) hholds
  fresh x hx hinserted := by
    rcases eq_or_mem_eraseIdx_of_mem_set hx with rfl | hx
    · exact hfresh hinserted
    · exact h.fresh x (List.mem_of_mem_eraseIdx hx) hinserted
  tallied := by
    rw [Tallied, h.tallied]
    refine List.map_congr_left fun c _ => ?_
    rw [redeemedCalls_set hcall hopen, if_neg fun hr => hphase hr.1, Nat.add_zero]

/-! ### A commit -/

theorem mem_redeem_coupons {row : CouponRedemption} {c : Coupon}
    (h : c ∈ (t.redeem row).coupons) :
    ∃ c' ∈ t.coupons, c.id = c'.id ∧ c.maxRedemptions = c'.maxRedemptions ∧
      c.redeemedCount = c'.redeemedCount + if c'.id = row.couponId then 1 else 0 := by
  obtain ⟨c', hc', rfl⟩ := List.mem_map.mp h
  refine ⟨c', hc', ?_⟩
  by_cases hid : c'.id = row.couponId
  · rw [if_pos hid, if_pos hid]
    exact ⟨rfl, rfl, rfl⟩
  · rw [if_neg hid, if_neg hid]
    exact ⟨rfl, rfl, (Int.add_zero _).symm⟩

theorem length_redemptionsOf_redeem (row : CouponRedemption) (couponId : String) :
    (((t.redeem row).redemptionsOf couponId).length : Int) =
      (t.redemptionsOf couponId).length + if couponId = row.couponId then 1 else 0 := by
  rw [Tables.redemptionsOf, Tables.redeem, List.filter_append, List.length_append,
    ← Tables.redemptionsOf]
  by_cases hid : couponId = row.couponId
  · simp [hid]
  · have hid' : row.couponId ≠ couponId := fun he => hid he.symm
    simp [hid, hid']

/-- A commit keeps the tables consistent while the coupon has a slot. -/
theorem Tables.Consistent.redeem (h : t.Consistent) {row : CouponRedemption}
    (hslot : ∃ c ∈ t.coupons, c.id = row.couponId ∧ c.hasSlot = true)
    (hfresh : row.key ∉ t.redemptions.map (·.key)) : (t.redeem row).Consistent where
  ids := by
    have hids : (t.redeem row).coupons.map (·.id) = t.coupons.map (·.id) := by
      rw [Tables.redeem, List.map_map]
      refine List.map_congr_left fun c _ => ?_
      exact (apply_ite Coupon.id _ _ _).trans (ite_self _)
    rw [hids]
    exact h.ids
  counted c hc := by
    obtain ⟨c', hc', hid, -, hcount⟩ := mem_redeem_coupons hc
    rw [hcount, h.counted c' hc', hid, length_redemptionsOf_redeem]
  capped c hc cap hcap := by
    obtain ⟨c', hc', -, hmax, hcount⟩ := mem_redeem_coupons hc
    rw [hmax] at hcap
    have hle := h.capped c' hc' cap hcap
    rw [hcount]
    split
    · rename_i hid
      -- the coupon of the slot is this one
      obtain ⟨d, hd, hdid, hdslot⟩ := hslot
      obtain rfl : c' = d := List.inj_on_of_nodup_map h.ids hc' hd (hid.trans hdid.symm)
      rw [Coupon.hasSlot, Option.mem_def.mp hcap, Option.all_some, decide_eq_true_eq] at hdslot
      omega
    · omega
  once := by
    rw [Tables.redeem, List.map_append]
    exact h.once.append (List.nodup_singleton _) (by simpa using hfresh)

theorem Inv.commits (h : Inv t s) (hcall : s.calls[i]? = some call)
    (hinserted : call.phase = .inserted) :
    Inv t ⟨s.tables.redeem call.row, s.calls.set i { call with phase := .redeemed }⟩ := by
  have hmem : call ∈ s.calls := List.mem_of_getElem? hcall
  have hholds : call.holds = true := by simp [Call.holds, hinserted]
  refine ⟨h.consistent.redeem (h.slot call hmem hholds) (h.fresh call hmem hinserted), ?_, ?_, ?_,
    ?_⟩
  · refine pairwise_set Apart.symm h.apart fun x _ hx => ?_
    simp [Call.holds] at hx
  · intro x hx hxholds
    rcases eq_or_mem_eraseIdx_of_mem_set hx with rfl | hx
    · simp [Call.holds] at hxholds
    · obtain ⟨c, hc, hid, hslot⟩ := h.slot x (List.mem_of_mem_eraseIdx hx) hxholds
      have hother : c.id ≠ call.row.couponId := fun he =>
        h.apart_of_mem_eraseIdx hcall hx hholds hxholds (he.symm.trans hid)
      exact ⟨c, List.mem_map.mpr ⟨c, hc, if_neg hother⟩, hid, hslot⟩
  · intro x hx hxinserted
    rcases eq_or_mem_eraseIdx_of_mem_set hx with rfl | hx
    · simp at hxinserted
    · have hxholds : x.holds = true := by simp [Call.holds, hxinserted]
      have hother := h.apart_of_mem_eraseIdx hcall hx hholds hxholds
      rw [Tables.redeem, List.map_append, List.mem_append, not_or]
      refine ⟨h.fresh x (List.mem_of_mem_eraseIdx hx) hxinserted, fun heq => hother ?_⟩
      exact (congrArg Prod.fst (List.mem_singleton.mp heq)).symm
  · rw [Tallied, Tables.redeem]
    dsimp only
    rw [h.tallied, List.map_map]
    refine List.map_congr_left fun c _ => ?_
    have hopen : call.phase ≠ .redeemed := by simp [hinserted]
    rw [redeemedCalls_set hcall hopen]
    by_cases hid : c.id = call.row.couponId
    · simp [hid, Int.add_assoc]
    · have hid' : call.row.couponId ≠ c.id := fun he => hid he.symm
      simp [hid, hid']

theorem Inv.begins (h : Inv t s) (row : CouponRedemption) :
    Inv t { s with calls := s.calls ++ [⟨row, .begun⟩] } where
  consistent := h.consistent
  apart := by
    refine List.pairwise_append.mpr ⟨h.apart, List.pairwise_singleton _ _, ?_⟩
    intro x _ y hy _ hholds
    rw [List.mem_singleton.mp hy] at hholds
    exact absurd hholds (by simp [Call.holds])
  slot x hx hholds := by
    rcases List.mem_append.mp hx with hx | hx
    · exact h.slot x hx hholds
    · rw [List.mem_singleton.mp hx] at hholds
      exact absurd hholds (by simp [Call.holds])
  fresh x hx hinserted := by
    rcases List.mem_append.mp hx with hx | hx
    · exact h.fresh x hx hinserted
    · rw [List.mem_singleton.mp hx] at hinserted
      exact absurd hinserted (by simp)
  tallied := by
    rw [Tallied, h.tallied]
    refine List.map_congr_left fun c _ => ?_
    rw [State.redeemedCalls, State.redeemedCalls, List.countP_append, List.countP_singleton]
    rfl

/-- **Every step keeps the invariant.** -/
theorem inv_step (h : Inv t s) {a : Action} (hs : step s a = some s') : Inv t s' := by
  cases a with
  | begins row =>
    rw [← Option.some.inj hs]
    exact h.begins row
  | claims i =>
    obtain ⟨call, phase, hcall, hnext, rfl⟩ := move_eq_some hs
    obtain ⟨hbegun, hfree, hphase⟩ := afterClaim_eq_some hnext
    have hopen : call.phase ≠ .redeemed := by simp [hbegun]
    rcases hphase with rfl | ⟨rfl, hslot⟩
    · refine h.move hcall hopen (by decide) (fun x _ hx => absurd hx (by simp [Call.holds])) ?_ ?_
      · exact fun hholds => absurd hholds (by simp [Call.holds])
      · exact fun hinserted => absurd hinserted (by decide)
    · refine h.move hcall hopen (by decide) (fun x hx _ hholds heq => ?_) (fun _ => hslot) ?_
      · -- the row was not locked
        have hlocked : s.locked call.row.couponId = true :=
          List.any_eq_true.mpr ⟨x, List.mem_of_mem_eraseIdx hx, by simp [hholds, heq.symm]⟩
        exact absurd hlocked (by simp [hfree])
      · exact fun hinserted => absurd hinserted (by decide)
  | inserts i =>
    obtain ⟨call, phase, hcall, hnext, rfl⟩ := move_eq_some hs
    obtain ⟨hclaimed, hphase⟩ := afterInsert_eq_some hnext
    have hopen : call.phase ≠ .redeemed := by simp [hclaimed]
    have hholds : call.holds = true := by simp [Call.holds, hclaimed]
    rcases hphase with rfl | ⟨rfl, hnew⟩
    · refine h.move hcall hopen (by decide) (fun x _ hx => absurd hx (by simp [Call.holds])) ?_ ?_
      · exact fun hholds => absurd hholds (by simp [Call.holds])
      · exact fun hinserted => absurd hinserted (by decide)
    · refine h.move hcall hopen (by decide) (fun x hx _ => ?_) (fun _ => ?_) fun _ => hnew
      · exact h.apart_of_mem_eraseIdx hcall hx hholds
      · exact h.slot call (List.mem_of_getElem? hcall) hholds
  | commits i =>
    obtain ⟨call, phase, hcall, hnext, rfl⟩ := move_eq_some hs
    obtain ⟨hinserted, rfl⟩ := afterCommit_eq_some hnext
    exact h.commits hcall hinserted
  | aborts i =>
    obtain ⟨call, phase, hcall, hnext, rfl⟩ := move_eq_some hs
    obtain ⟨hopen, rfl⟩ := afterAbort_eq_some hnext
    refine h.move hcall hopen (by decide) (fun x _ hx => absurd hx (by simp [Call.holds])) ?_ ?_
    · exact fun hholds => absurd hholds (by simp [Call.holds])
    · exact fun hinserted => absurd hinserted (by decide)

end

/-! ### The result -/

/-- The redemptions stay within the cap, the counter counts them, a workspace redeems a
coupon at most once, and only a call that went through has moved a counter. -/
structure RedemptionsHold (t : Tables) (s : State) : Prop where
  capped : ∀ c ∈ s.tables.coupons, ∀ cap ∈ c.maxRedemptions,
    ((s.tables.redemptionsOf c.id).length : Int) ≤ cap
  counted : ∀ c ∈ s.tables.coupons, c.redeemedCount = (s.tables.redemptionsOf c.id).length
  once : (s.tables.redemptions.map (·.key)).Nodup
  tallied : Tallied t s

/-- **Redemptions hold in every run** of any number of calls for any coupons and
workspaces, whichever of their statements come first and whichever of them abort. -/
theorem redemptions_hold (t : Tables) (h : t.Consistent) (as : List Action) (s : State)
    (hrun : run step (start t) as = some s) : RedemptionsHold t s := by
  have hinv : Inv t s :=
    invariant_of_run (fun _ _ _ hi hs => inv_step hi hs) as (start t) s (inv_start h) hrun
  refine ⟨fun c hc cap hcap => ?_, hinv.consistent.counted, hinv.consistent.once, hinv.tallied⟩
  rw [← hinv.consistent.counted c hc]
  exact hinv.consistent.capped c hc cap hcap

/-- One slot, three calls: the second waits for the first and is refused, the third comes
from the workspace that has the slot. -/
def contendedRun : List Action :=
  [.begins ⟨"C1", "W1", .pro, .monthly⟩, .begins ⟨"C1", "W2", .pro, .monthly⟩, .claims 0,
    .begins ⟨"C1", "W1", .pro, .yearly⟩, .inserts 0, .commits 0, .claims 1, .claims 2]

theorem redemptions_hold_contendedRun :
    ∃ s, run step (start ⟨[⟨"C1", some 1, 0⟩], []⟩) contendedRun = some s ∧
      RedemptionsHold ⟨[⟨"C1", some 1, 0⟩], []⟩ s := by
  have hsome : (run step (start ⟨[⟨"C1", some 1, 0⟩], []⟩) contendedRun).isSome = true := by decide
  obtain ⟨s, hs⟩ := Option.isSome_iff_exists.mp hsome
  refine ⟨s, hs, redemptions_hold _ ⟨by decide, by decide, by decide, by decide⟩ _ s hs⟩

end SnapUrl.Billing.Coupons
