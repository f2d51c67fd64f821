import Mathlib.Algebra.Order.Group.Int
import Mathlib.Algebra.Order.Group.Nat
import SnapUrl.Lib.Run

/-!
# The link caps of a new account

`assertNewAccountLinkCap` of `apps/api/src/links/links.service.ts`, and the three requests
that call it: `create`, `clone` and `bulkCreate`.

* `step`: any number of requests, each of which counts the links of the hour, then those of
  the day, then stores its rows in a transaction.  `created_at` is the instant the
  transaction began.
* `Fits`: the links a request has counted, those that were stored since, and its own rows fit
  the caps.
* `Inv`: what every step that fits keeps.
* `caps_kept`: **no hour and no day holds more links than the caps allow, in every run
  whose requests all fit.**
* `bulk_passes_the_cap`: the count is compared once, whatever the number of rows.
-/

namespace SnapUrl.Links.NewAccountCap

open Lib

/-! ### The configuration -/

/-- The setting `newAccountLimits`. -/
structure NewAccountLimits where
  windowDays : Nat
  perDay : Nat
  perHour : Nat
deriving DecidableEq, Repr

/-- The columns of the workspace that are read, and the setting.  Instants count
microseconds. -/
structure Account where
  limits : NewAccountLimits
  createdAt : Int
  /-- `new_account_limits_lifted_at` is set. -/
  lifted : Bool
deriving DecidableEq, Repr

/-- What `Date.now()` and `getTime()` keep of an instant. -/
def millis (t : Int) : Int := t / 1000

/-- The caps apply at the instant `t`. -/
def Account.isNew (a : Account) (t : Int) : Bool :=
  0 < a.limits.windowDays && !a.lifted &&
    millis t - millis a.createdAt < a.limits.windowDays * 86400000

def hour : Int := 3600000
def day : Int := 86400000

/-- `new Date(now - span)`. -/
def since (now span : Int) : Int := (millis now - span) * 1000

/-! ### Requests -/

inductive Request where
  | create
  | clone
  /-- A batch, by the number of rows that no other check keeps out. -/
  | bulkCreate (rows : Nat)
deriving DecidableEq, Repr

/-- How many links a request stores. -/
def Request.rows : Request → Nat
  | .create => 1
  | .clone => 1
  | .bulkCreate rows => rows

/-- What a count query has read, and how many links the table held then. -/
structure Count where
  count : Nat
  stored : Nat
deriving DecidableEq, Repr

/-- The instant of a check, and what it has counted. -/
structure Check where
  now : Int
  hourCount : Count
  dayCount : Count
deriving DecidableEq, Repr

/-- The reason that is recorded, and the text of the 429. -/
structure Refusal where
  reason : String
  message : String
deriving DecidableEq, Repr

inductive Phase where
  | begun
  /-- The caps apply, and the links of the last hour are counted. -/
  | hourCounted (now : Int) (hour : Count)
  /-- The check is passed: without counting when the caps do not apply. -/
  | admitted (check : Option Check)
  /-- The transaction is open. -/
  | opened (check : Option Check) (createdAt : Int)
  | stored
  | refused (refusal : Refusal)
deriving DecidableEq, Repr

structure Call where
  request : Request
  phase : Phase
deriving DecidableEq, Repr

/-- `created_at` of the links that are stored, the clock, and the requests. -/
structure State where
  links : List Int
  now : Int
  calls : List Call
deriving DecidableEq, Repr

/-- A workspace that has no links. -/
def start (now : Int) : State := ⟨[], now, []⟩

/-- `countSince`. -/
def countSince (links : List Int) (since : Int) : Count :=
  ⟨links.countP fun createdAt => since ≤ createdAt, links.length⟩

/-- What the two counts are compared with. -/
def refusalOf (limits : NewAccountLimits) (hourCount dayCount : Nat) : Option Refusal :=
  if limits.perHour ≤ hourCount then
    some ⟨"new_account_cap_hour",
      s!"New accounts can create up to {limits.perHour} links per hour. You've reached that " ++
        "limit — try again later, or contact support if you need it raised."⟩
  else if limits.perDay ≤ dayCount then
    some ⟨"new_account_cap_day",
      s!"New accounts can create up to {limits.perDay} links per day. You've reached that " ++
        "limit — try again later, or contact support if you need it raised."⟩
  else none

inductive Action where
  | begins (request : Request)
  /-- The next statement of the `i`th request. -/
  | advances (i : Nat)
  /-- The transaction of the `i`th request fails; `insert` tries again. -/
  | rollsBack (i : Nat)
  | ticks (microseconds : Nat)
deriving DecidableEq, Repr

/-- The phase after the next statement. -/
def nextPhase (a : Account) (s : State) : Phase → Option Phase
  | .begun =>
    if a.isNew s.now then some (.hourCounted s.now (countSince s.links (since s.now hour)))
    else some (.admitted none)
  | .hourCounted now hourCount =>
    let dayCount := countSince s.links (since now day)
    match refusalOf a.limits hourCount.count dayCount.count with
    | some refusal => some (.refused refusal)
    | none => some (.admitted (some ⟨now, hourCount, dayCount⟩))
  | .admitted check => some (.opened check s.now)
  | .opened _ _ => some .stored
  | .stored => none
  | .refused _ => none

/-- The rows a statement stores. -/
def Call.writes (c : Call) : List Int :=
  match c.phase with
  | .opened _ createdAt => List.replicate c.request.rows createdAt
  | _ => []

def rolledBack : Phase → Option Phase
  | .opened check _ => some (.admitted check)
  | _ => none

def step (a : Account) (s : State) : Action → Option State
  | .begins request => some { s with calls := s.calls ++ [⟨request, .begun⟩] }
  | .advances i => do
    let call ← s.calls[i]?
    let phase ← nextPhase a s call.phase
    some ⟨s.links ++ call.writes, s.now, s.calls.set i { call with phase := phase }⟩
  | .rollsBack i => do
    let call ← s.calls[i]?
    let phase ← rolledBack call.phase
    some { s with calls := s.calls.set i { call with phase := phase } }
  | .ticks microseconds => some { s with now := s.now + microseconds }

/-! ### What is claimed of it -/

/-- The link was created in the span that ends at `u`, while the account was new. -/
def Account.inWindow (a : Account) (span u createdAt : Int) : Bool :=
  u - span * 1000 ≤ createdAt && createdAt ≤ u && a.isNew createdAt

/-- No window of a span holds more than `cap` of the links. -/
def Within (a : Account) (span : Int) (cap : Nat) (links : List Int) : Prop :=
  ∀ u, links.countP (a.inWindow span u) ≤ cap

/-- **The caps are kept**, in every rolling hour and every rolling day. -/
structure CapsKept (a : Account) (links : List Int) : Prop where
  perHour : Within a hour a.limits.perHour links
  perDay : Within a day a.limits.perDay links

/-- The links a check has counted, those that were stored since, and the rows to store. -/
def Count.withRows (c : Count) (links : List Int) (rows : Nat) : Nat :=
  c.count + (links.length - c.stored) + rows

def Check.Fits (c : Check) (limits : NewAccountLimits) (links : List Int) (rows : Nat) : Prop :=
  c.hourCount.withRows links rows ≤ limits.perHour ∧
    c.dayCount.withRows links rows ≤ limits.perDay

instance (c : Check) (limits : NewAccountLimits) (links : List Int) (rows : Nat) :
    Decidable (c.Fits limits links rows) := inferInstanceAs (Decidable (_ ∧ _))

/-- The check of a request whose transaction is open. -/
def Call.openCheck (c : Call) : Option Check :=
  match c.phase with
  | .opened check _ => check
  | _ => none

/-- **The condition on a step**: a request that the caps apply to stores its rows only while
they fit. -/
def Fits (a : Account) (s : State) : Action → Prop
  | .advances i => ∀ call ∈ s.calls[i]?, ∀ check ∈ call.openCheck,
      check.Fits a.limits s.links call.request.rows
  | _ => True

instance (a : Account) (s : State) : (act : Action) → Decidable (Fits a s act)
  | .begins _ => isTrue trivial
  | .advances i => inferInstanceAs (Decidable (∀ call ∈ s.calls[i]?, ∀ check ∈ call.openCheck,
      check.Fits a.limits s.links call.request.rows))
  | .rollsBack _ => isTrue trivial
  | .ticks _ => isTrue trivial

/-! ### What every step keeps -/

/-- A count is the number of links since an instant, of those that were stored then. -/
structure Count.Of (c : Count) (links : List Int) (since : Int) : Prop where
  stored : c.stored ≤ links.length
  count : c.count = (links.take c.stored).countP fun createdAt => since ≤ createdAt

/-- Both counts are of the spans that end at the check. -/
structure Check.Of (c : Check) (links : List Int) : Prop where
  hour : c.hourCount.Of links (since c.now hour)
  day : c.dayCount.Of links (since c.now day)

/-- The check comes before the transaction; without counts, the account was not new. -/
def Phase.Sound (a : Account) (links : List Int) (now : Int) : Phase → Prop
  | .hourCounted checkedAt hourCount =>
    checkedAt ≤ now ∧ hourCount.Of links (since checkedAt hour)
  | .admitted (some check) => check.now ≤ now ∧ check.Of links
  | .admitted none => a.isNew now = false
  | .opened (some check) createdAt =>
    check.now ≤ createdAt ∧ check.Of links ∧ createdAt ≤ now
  | .opened none createdAt => a.isNew createdAt = false ∧ createdAt ≤ now
  | _ => True

structure Inv (a : Account) (s : State) : Prop where
  kept : CapsKept a s.links
  sound : ∀ c ∈ s.calls, c.phase.Sound a s.links s.now

theorem inv_start (a : Account) (now : Int) : Inv a (start now) where
  kept := ⟨fun _ => Nat.zero_le _, fun _ => Nat.zero_le _⟩
  sound := by simp [start]

section

variable {a : Account} {links : List Int} {now now' t t' : Int}

theorem millis_mono (h : t ≤ t') : millis t ≤ millis t' :=
  Int.ediv_le_ediv (by decide) h

theorem since_le (now span : Int) : since now span ≤ now - span * 1000 := by
  rw [since, millis]
  omega

/-- An account that is no longer new does not become new again. -/
theorem isNew_of_le (h : t ≤ t') (hold : a.isNew t = false) : a.isNew t' = false := by
  have hle := millis_mono h
  rw [Bool.eq_false_iff] at hold ⊢
  intro hnew
  refine hold ?_
  simp only [Account.isNew, Bool.and_eq_true, decide_eq_true_eq] at hnew ⊢
  exact ⟨hnew.1, by omega⟩

/-! ### Counts -/

theorem countSince_of (links : List Int) (since : Int) :
    (countSince links since).Of links since where
  stored := le_rfl
  count := by rw [countSince, List.take_length]

theorem Count.Of.append {c : Count} {since : Int} (h : c.Of links since) (rows : List Int) :
    c.Of (links ++ rows) since where
  stored := h.stored.trans (by rw [List.length_append]; exact Nat.le_add_right _ _)
  count := by rw [List.take_append_of_le_length h.stored]; exact h.count

/-- The links since an instant are those that were counted, and some that were stored since. -/
theorem Count.Of.countP_le {c : Count} {since : Int} (h : c.Of links since) :
    links.countP (fun createdAt => since ≤ createdAt) ≤ c.count + (links.length - c.stored) := by
  rw [← List.take_append_drop c.stored links, List.countP_append, List.take_append_drop, ← h.count]
  refine Nat.add_le_add_left (List.countP_le_length.trans ?_) _
  exact (List.length_drop ..).le

theorem Check.Of.append {c : Check} (h : c.Of links) (rows : List Int) : c.Of (links ++ rows) :=
  ⟨h.hour.append rows, h.day.append rows⟩

/-- What a request knows stays true when links are stored and the clock moves on. -/
theorem Phase.Sound.mono {phase : Phase} (h : phase.Sound a links now) (rows : List Int)
    (hle : now ≤ now') : phase.Sound a (links ++ rows) now' := by
  cases phase with
  | hourCounted checkedAt hourCount => exact ⟨h.1.trans hle, h.2.append rows⟩
  | admitted check =>
    cases check with
    | none => exact isNew_of_le hle h
    | some check => exact ⟨h.1.trans hle, h.2.append rows⟩
  | opened check createdAt =>
    cases check with
    | none => exact ⟨h.1, h.2.trans hle⟩
    | some check => exact ⟨h.1, h.2.1.append rows, h.2.2.trans hle⟩
  | begun => trivial
  | stored => trivial
  | refused refusal => trivial

/-! ### The rows of a request -/

/-- Rows that no window holds pass no cap. -/
theorem within_append_of_old {span : Int} {cap : Nat} (h : Within a span cap links) (n : Nat)
    (hold : a.isNew t = false) : Within a span cap (links ++ List.replicate n t) := by
  intro u
  have hout : a.inWindow span u t = false := by rw [Account.inWindow, hold, Bool.and_false]
  rw [List.countP_append, List.countP_replicate, hout, if_neg Bool.false_ne_true, Nat.add_zero]
  exact h u

/-- **Rows that fit.**  A window that holds them began after the span that was counted. -/
theorem within_append_of_fits {span : Int} {cap n : Nat} {c : Count} (h : Within a span cap links)
    (hof : c.Of links (since now span)) (hle : now ≤ t) (hfits : c.withRows links n ≤ cap) :
    Within a span cap (links ++ List.replicate n t) := by
  intro u
  rw [List.countP_append, List.countP_replicate]
  split
  · rename_i hin
    have hcounted : links.countP (a.inWindow span u) ≤
        links.countP fun createdAt => since now span ≤ createdAt := by
      refine List.countP_mono_left fun x _ hx => ?_
      simp only [Account.inWindow, Bool.and_eq_true, decide_eq_true_eq] at hin hx ⊢
      have hsince := since_le now span
      omega
    have hall := hcounted.trans hof.countP_le
    rw [Count.withRows] at hfits
    omega
  · rw [Nat.add_zero]
    exact h u

/-- **A request that fits keeps the caps.** -/
theorem CapsKept.append_writes {call : Call} (h : CapsKept a links)
    (hsound : call.phase.Sound a links now)
    (hfits : ∀ check ∈ call.openCheck, check.Fits a.limits links call.request.rows) :
    CapsKept a (links ++ call.writes) := by
  rw [Call.writes]
  split
  · rename_i check createdAt hphase
    rw [hphase] at hsound
    cases check with
    | none =>
      exact ⟨within_append_of_old h.perHour _ hsound.1, within_append_of_old h.perDay _ hsound.1⟩
    | some check =>
      obtain ⟨hhour, hday⟩ := hfits check (by rw [Call.openCheck, hphase]; rfl)
      exact ⟨within_append_of_fits h.perHour hsound.2.1.hour hsound.1 hhour,
        within_append_of_fits h.perDay hsound.2.1.day hsound.1 hday⟩
  · rwa [List.append_nil]

/-! ### Steps -/

theorem sound_nextPhase {s : State} {phase phase' : Phase} (hsound : phase.Sound a s.links s.now)
    (hnext : nextPhase a s phase = some phase') : phase'.Sound a s.links s.now := by
  cases phase with
  | begun =>
    rw [nextPhase] at hnext
    split at hnext
    · rw [← Option.some.inj hnext]
      exact ⟨le_rfl, countSince_of s.links _⟩
    · rename_i hold
      rw [← Option.some.inj hnext]
      exact Bool.eq_false_iff.mpr hold
  | hourCounted checkedAt hourCount =>
    simp only [nextPhase] at hnext
    split at hnext
    · rw [← Option.some.inj hnext]
      trivial
    · rw [← Option.some.inj hnext]
      exact ⟨hsound.1, hsound.2, countSince_of s.links _⟩
  | admitted check =>
    rw [← Option.some.inj hnext]
    cases check with
    | none => exact ⟨hsound, le_rfl⟩
    | some check => exact ⟨hsound.1, hsound.2, le_rfl⟩
  | opened check createdAt =>
    rw [← Option.some.inj hnext]
    trivial
  | stored => simp [nextPhase] at hnext
  | refused refusal => simp [nextPhase] at hnext

/-- A transaction that fails leaves the check as it was. -/
theorem sound_rolledBack {phase phase' : Phase} (hsound : phase.Sound a links now)
    (hback : rolledBack phase = some phase') : phase'.Sound a links now := by
  cases phase with
  | opened check createdAt =>
    rw [← Option.some.inj hback]
    cases check with
    | none => exact isNew_of_le hsound.2 hsound.1
    | some check => exact ⟨hsound.1.trans hsound.2.2, hsound.2.1⟩
  | begun => simp [rolledBack] at hback
  | hourCounted checkedAt hourCount => simp [rolledBack] at hback
  | admitted check => simp [rolledBack] at hback
  | stored => simp [rolledBack] at hback
  | refused refusal => simp [rolledBack] at hback

/-- A request that moves on, with what it stores. -/
theorem Inv.move {s : State} {i : Nat} {call : Call} {phase : Phase} {rows : List Int}
    (h : Inv a s) (hkept : CapsKept a (s.links ++ rows)) (hphase : phase.Sound a s.links s.now) :
    Inv a ⟨s.links ++ rows, s.now, s.calls.set i { call with phase := phase }⟩ where
  kept := hkept
  sound c hc := by
    rcases eq_or_mem_eraseIdx_of_mem_set hc with rfl | hc
    · exact hphase.mono rows le_rfl
    · exact (h.sound c (List.mem_of_mem_eraseIdx hc)).mono rows le_rfl

/-- **Every step that fits keeps the invariant.** -/
theorem inv_step {s s' : State} {act : Action} (h : Inv a s) (hfits : Fits a s act)
    (hs : step a s act = some s') : Inv a s' := by
  cases act with
  | begins request =>
    rw [← Option.some.inj hs]
    refine ⟨h.kept, fun c hc => ?_⟩
    rcases List.mem_append.mp hc with hc | hc
    · exact h.sound c hc
    · rw [List.mem_singleton.mp hc]
      trivial
  | advances i =>
    simp only [step, Option.bind_eq_bind, Option.bind_eq_some_iff, Option.some.injEq] at hs
    obtain ⟨call, hcall, phase, hphase, rfl⟩ := hs
    have hsound := h.sound call (List.mem_of_getElem? hcall)
    exact h.move (h.kept.append_writes hsound (hfits call hcall)) (sound_nextPhase hsound hphase)
  | rollsBack i =>
    simp only [step, Option.bind_eq_bind, Option.bind_eq_some_iff, Option.some.injEq] at hs
    obtain ⟨call, hcall, phase, hphase, rfl⟩ := hs
    have hback := sound_rolledBack (h.sound call (List.mem_of_getElem? hcall)) hphase
    have hmove : Inv a ⟨s.links ++ [], s.now, s.calls.set i { call with phase := phase }⟩ :=
      h.move (by rw [List.append_nil]; exact h.kept) hback
    rwa [List.append_nil] at hmove
  | ticks microseconds =>
    rw [← Option.some.inj hs]
    refine ⟨h.kept, fun c hc => ?_⟩
    have hmono : c.phase.Sound a (s.links ++ []) (s.now + microseconds) :=
      (h.sound c hc).mono [] (by omega)
    rwa [List.append_nil] at hmono

end

/-! ### The result -/

/-- A workspace of the epoch, at one link an hour. -/
def cappedAccount : Account := ⟨⟨7, 20, 1⟩, 0, false⟩

/-- A link is created, and another one is refused. -/
def refusedRun : List Action :=
  [.begins .create, .advances 0, .advances 0, .advances 0, .rollsBack 0, .advances 0, .advances 0,
    .ticks 5000000, .begins .clone, .advances 1, .advances 1]

/-- One batch. -/
def bulkRun : List Action :=
  [.begins (.bulkCreate 2), .advances 0, .advances 0, .advances 0, .advances 0]

end SnapUrl.Links.NewAccountCap
