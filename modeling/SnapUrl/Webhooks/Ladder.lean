import Mathlib.Data.List.DropRight
import Mathlib.Tactic.IntervalCases
import SnapUrl.Webhooks.Attempts

/-!
# The retry ladder

One worker at a time, with every answer it got and every retry it set kept beside the
tables.

* `Delivery.Records`, `Webhook.Records`: the rows say what the answers say.
* `History.Inv.step`: how far the rows are behind the answers, statement by statement.
* `guarded_lawful`: **with one worker, and no statement that raises after a 2xx or in the
  `catch`, a delivery is delivered exactly by a 2xx and failed exactly by its last attempt, and
  an endpoint has failed as often as it was not answered since its last success.  Its
  retries are on the documented ladder exactly when no attempt but the last one fails.**
* `first_retry_late`: the first delay is never used.
-/

namespace SnapUrl.Webhooks

open Lib

/-! ### What is kept beside the tables -/

/-- The answer to a POST. -/
structure Answer where
  delivery : String
  webhook : String
  ok : Bool
deriving DecidableEq, Repr

/-- What is set after the `attempt`-th failure of a delivery, in milliseconds from then. -/
structure Retry where
  delivery : String
  attempt : Nat
  delay : Option Int
deriving DecidableEq, Repr

structure History where
  world : World
  answers : List Answer
  retries : List Retry
deriving DecidableEq, Repr

def Outcome.ok : Outcome → Bool
  | .status code => 200 ≤ code && code < 300
  | .threw _ => false

/-- How often a delivery was not answered with success. -/
def failures (answers : List Answer) (id : String) : Nat :=
  answers.countP fun a => a.delivery = id && !a.ok

/-- How often an endpoint was not answered with success since it last was. -/
def streak (answers : List Answer) (webhook : String) : Nat :=
  ((answers.filter (·.webhook = webhook)).rtakeWhile (!·.ok)).length

/-- The row a failure is to be recorded for. -/
def Worker.failingRow (w : Worker) : Option PendingDelivery :=
  match w.phase with
  | .failing .. => w.rows.head?
  | _ => none

def World.answered (s : World) : Action → Option Answer
  | .post i outcome => do
    let w ← s.workers[i]?
    let row ← w.rows.head?
    some ⟨row.id, row.webhookId, outcome.ok⟩
  | _ => none

/-- What a step to `s'` sets in the row whose failure it records. -/
def World.retried (s s' : World) (answers : List Answer) : Action → Option Retry
  | .exec i none => do
    let w ← s.workers[i]?
    let row ← w.failingRow
    let d ← s'.deliveries.find? (·.id = row.id)
    some ⟨row.id, failures answers row.id, d.nextRetryAt.map (· - s.now)⟩
  | _ => none

def History.step (h : History) (a : Action) : Option History :=
  (Webhooks.step h.world a).map fun world =>
    { world := world
      answers := h.answers ++ (h.world.answered a).toList
      retries := h.retries ++ (h.world.retried world h.answers a).toList }

/-- Before the first event of some endpoints. -/
def History.start (now : Int) (webhooks : List Webhook) : History :=
  ⟨.start now [] webhooks [], [], []⟩

/-- What is kept beside the tables changes no run. -/
theorem run_world (h : History) (actions : List Action) :
    (run History.step h actions).map History.world = run step h.world actions := by
  induction actions generalizing h with
  | nil => rfl
  | cons a actions ih =>
    rw [run_cons, run_cons, History.step]
    cases hstep : Webhooks.step h.world a with
    | none => rfl
    | some world => exact ih _

/-! ### Rows that say what the answers say -/

structure Delivery.Records (d : Delivery) (answers : List Answer) : Prop where
  attempts : d.attempts = answers.countP (·.delivery = d.id)
  delivered : d.status = .delivered ↔ ∃ a ∈ answers, a.delivery = d.id ∧ a.ok = true
  failed : d.status = .failed ↔ failures answers d.id = maxAttempts
  limit : failures answers d.id ≤ maxAttempts

/-- The health that a number of failures in a row implies. -/
def healthAfter (failures : Nat) : Health :=
  if failures = 0 then .healthy else if failures < maxAttempts then .retrying else .failing

structure Webhook.Records (w : Webhook) (answers : List Answer) : Prop where
  streak : w.consecutiveFailures = streak answers w.id
  health : w.health = healthAfter w.consecutiveFailures

theorem failures_concat (answers : List Answer) (a : Answer) (id : String) :
    failures (answers ++ [a]) id =
      failures answers id + if a.delivery = id ∧ a.ok = false then 1 else 0 := by
  rw [failures, List.countP_append, List.countP_singleton, ← failures]
  simp

theorem streak_concat (answers : List Answer) (a : Answer) (webhook : String) :
    streak (answers ++ [a]) webhook =
      if a.webhook = webhook then if a.ok then 0 else streak answers webhook + 1
      else streak answers webhook := by
  rw [streak, List.filter_append]
  by_cases hw : a.webhook = webhook
  · rw [if_pos hw, List.filter_cons_of_pos (by simpa using hw), List.filter_nil,
      List.rtakeWhile_concat]
    cases a.ok with
    | true => rfl
    | false => simp [streak]
  · rw [if_neg hw, List.filter_cons_of_neg (by simpa using hw), List.filter_nil, List.append_nil,
      streak]

/-- A delivery that was never answered with success has failed every time. -/
theorem failures_eq_countP {answers : List Answer} {id : String}
    (h : ∀ a ∈ answers, a.delivery = id → a.ok = false) :
    failures answers id = answers.countP (·.delivery = id) := by
  refine List.countP_congr fun a ha => ?_
  by_cases hid : a.delivery = id
  · simp [hid, h a ha hid]
  · simp [hid]

section

variable {d : Delivery} {row : PendingDelivery} {before answers : List Answer} {now : Int}
  {webhook : String}

theorem Delivery.Records.not_ok (h : d.Records answers) (hs : d.status ≠ .delivered) :
    ∀ a ∈ answers, a.delivery = d.id → a.ok = false := by
  intro a ha hid
  by_contra hok
  exact hs (h.delivered.mpr ⟨a, ha, hid, by simpa using hok⟩)

/-- An answer for another delivery. -/
theorem Delivery.Records.other (h : d.Records before) {a : Answer} (hid : a.delivery ≠ d.id) :
    d.Records (before ++ [a]) where
  attempts := by
    rw [List.countP_append, List.countP_singleton, if_neg (by simpa using hid), Nat.add_zero]
    exact h.attempts
  delivered := by
    rw [h.delivered]
    constructor
    · rintro ⟨b, hb, hok⟩
      exact ⟨b, List.mem_append_left _ hb, hok⟩
    · rintro ⟨b, hb, hb', hok⟩
      rcases List.mem_append.mp hb with hb | hb
      · exact ⟨b, hb, hb', hok⟩
      · exact absurd (List.mem_singleton.mp hb ▸ hb') hid
  failed := by
    rw [failures_concat, if_neg fun h => hid h.1, Nat.add_zero]
    exact h.failed
  limit := by
    rw [failures_concat, if_neg fun h => hid h.1, Nat.add_zero]
    exact h.limit

/-- The row of a delivery that has only failed, after its last failure is recorded. -/
theorem records_recordFailure {error : String} {code : Option Nat}
    (hno : ∀ a ∈ answers, a.delivery = d.id → a.ok = false)
    (hcount : answers.countP (·.delivery = d.id) = row.attempts + 1)
    (hmax : row.attempts + 1 ≤ maxAttempts) : (d.recordFailure now row error code).Records answers
    where
  attempts := hcount.symm
  delivered := by
    refine iff_of_false (recordFailure_ne_delivered d) ?_
    rintro ⟨a, ha, hid, hok⟩
    rw [hno a ha hid] at hok
    exact absurd hok (by simp)
  failed := by
    change (if maxAttempts ≤ row.attempts + 1 then DeliveryStatus.failed else .pending) = _ ↔
      failures answers d.id = maxAttempts
    rw [failures_eq_countP hno, hcount]
    split
    · rename_i hle
      exact iff_of_true rfl (Nat.le_antisymm hmax hle)
    · rename_i hlt
      exact iff_of_false (by simp) fun heq => hlt heq.ge
  limit := by
    change failures answers d.id ≤ maxAttempts
    rwa [failures_eq_countP hno, hcount]

/-- The row of a delivery with an attempt left, after its success is recorded. -/
theorem Delivery.Records.succeed (h : d.Records before) (hs : d.status = .pending) {code : Nat} :
    (d.succeed now code).Records (before ++ [⟨d.id, webhook, true⟩]) where
  attempts := by
    rw [List.countP_append, List.countP_singleton]
    change d.attempts + 1 = _
    simp [h.attempts, Delivery.succeed]
  delivered := iff_of_true rfl ⟨_, List.mem_append_right _ List.mem_cons_self, rfl, rfl⟩
  failed := by
    refine iff_of_false (by simp [Delivery.succeed]) fun heq => ?_
    change failures (before ++ [_]) d.id = maxAttempts at heq
    rw [failures_concat, if_neg (by simp), Nat.add_zero] at heq
    rw [h.failed.mpr heq] at hs
    exact absurd hs (by simp)
  limit := by
    change failures (before ++ [_]) d.id ≤ maxAttempts
    rw [failures_concat, if_neg (by simp), Nat.add_zero]
    exact h.limit

end

section

variable {w : Webhook} {before : List Answer} {delivery : String} {now : Int}

theorem records_webhookSucceed : (w.succeed now).Records (before ++ [⟨delivery, w.id, true⟩]) where
  streak := by
    rw [streak_concat]
    exact (if_pos rfl).symm
  health := rfl

theorem Webhook.Records.recordFailure (h : w.Records before) {error : String} :
    (w.recordFailure now error).Records (before ++ [⟨delivery, w.id, false⟩]) where
  streak := by
    change w.consecutiveFailures + 1 = Webhooks.streak (before ++ [_]) w.id
    rw [streak_concat, if_pos rfl, if_neg Bool.false_ne_true, h.streak]
  health := by
    change (if maxAttempts ≤ w.consecutiveFailures + 1 then Health.failing else .retrying) =
      healthAfter (w.consecutiveFailures + 1)
    rw [healthAfter, if_neg (Nat.succ_ne_zero _)]
    split
    · rename_i hle
      rw [if_neg (Nat.not_lt.mpr hle)]
    · rename_i hlt
      rw [if_pos (Nat.lt_of_not_le hlt)]

theorem Webhook.Records.other (h : w.Records before) {a : Answer} (hid : a.webhook ≠ w.id) :
    w.Records (before ++ [a]) where
  streak := by
    rw [streak_concat, if_neg hid]
    exact h.streak
  health := h.health

end

/-! ### One worker -/

/-- A worker has rows in hand only while no other does. -/
structure Single (workers : List Worker) : Prop where
  idle : ∀ w ∈ workers, w.rows = [] → w.phase = .ready
  alone : workers.Pairwise fun w w' => w.rows = [] ∨ w'.rows = []

/-- Whether the last POST was answered with success. -/
def Phase.ok : Phase → Bool
  | .succeeded _ | .healthy => true
  | _ => false

/-- Whether the last POST is recorded for its delivery. -/
def Phase.recorded : Phase → Bool
  | .healthy | .failing _ _ _ true | .unhealthy .. => true
  | _ => false

/-- How far the tables are behind the answers while a worker is at a row. -/
structure Behind (deliveries : List Delivery) (webhooks : List Webhook) (answers : List Answer)
    (row : PendingDelivery) (phase : Phase) (before : List Answer) : Prop where
  last : answers = before ++ [⟨row.id, row.webhookId, phase.ok⟩]
  deliveries : ∀ d ∈ deliveries, d.Records (if phase.recorded then answers else before)
  webhooks : ∀ w ∈ webhooks, w.Records before

structure Books (deliveries : List Delivery) (webhooks : List Webhook) (workers : List Worker)
    (answers : List Answer) : Prop where
  settled : (∀ w ∈ workers, w.phase = .ready) →
    (∀ d ∈ deliveries, d.Records answers) ∧ ∀ w ∈ webhooks, w.Records answers
  behind : ∀ w ∈ workers, w.phase ≠ .ready → ∀ row ∈ w.rows.head?,
    ∃ before, Behind deliveries webhooks answers row w.phase before

section

variable {deliveries : List Delivery} {webhooks : List Webhook} {workers : List Worker}
  {answers : List Answer} {i : Nat} {w w' : Worker}

theorem Single.others (h : Single workers) (hw : workers[i]? = some w) (hrows : w.rows ≠ []) :
    ∀ v ∈ workers.eraseIdx i, v.rows = [] ∧ v.phase = .ready := by
  intro v hv
  have hv' : v.rows = [] :=
    (pairwise_others Or.symm h.alone hw v hv).resolve_left hrows
  exact ⟨hv', h.idle v (List.mem_of_mem_eraseIdx hv) hv'⟩

theorem Single.set (h : Single workers) (hw : workers[i]? = some w) (hrows : w.rows ≠ [])
    (hidle : w'.rows = [] → w'.phase = .ready) : Single (workers.set i w') where
  idle v hv := by
    rcases eq_or_mem_eraseIdx_of_mem_set hv with rfl | hv
    · exact hidle
    · exact fun _ => (h.others hw hrows v hv).2
  alone := pairwise_set Or.symm h.alone fun v hv => Or.inr (h.others hw hrows v hv).1

theorem Single.eraseIdx (h : Single workers) (i : Nat) : Single (workers.eraseIdx i) where
  idle v hv := h.idle v (List.mem_of_mem_eraseIdx hv)
  alone := h.alone.sublist (List.eraseIdx_sublist workers i)

/-- A worker starts when no other has a row in hand. -/
theorem Single.concat (h : Single workers) (hall : ∀ w ∈ workers, w.rows = [])
    (hready : w'.phase = .ready) : Single (workers ++ [w']) where
  idle v hv := by
    rcases List.mem_append.mp hv with hv | hv
    · exact h.idle v hv
    · exact fun _ => List.mem_singleton.mp hv ▸ hready
  alone := List.pairwise_append.mpr
    ⟨h.alone, List.pairwise_singleton _ _, fun v hv _ _ => Or.inl (hall v hv)⟩

/-- The tables when the one worker with rows is done with the first of them. -/
theorem books_of_ready (h : Single workers) (hw : workers[i]? = some w) (hrows : w.rows ≠ [])
    (hready : w'.phase = .ready)
    (hrec : (∀ d ∈ deliveries, d.Records answers) ∧ ∀ w ∈ webhooks, w.Records answers) :
    Books deliveries webhooks (workers.set i w') answers where
  settled _ := hrec
  behind v hv hne := by
    rcases eq_or_mem_eraseIdx_of_mem_set hv with rfl | hv
    · exact absurd hready hne
    · exact absurd (h.others hw hrows v hv).2 hne

/-- The tables while the one worker with rows is at the first of them. -/
theorem books_of_behind (h : Single workers) (hw : workers[i]? = some w) (hrows : w.rows ≠ [])
    (hphase : w'.phase ≠ .ready) (hbehind : ∀ row ∈ w'.rows.head?,
      ∃ before, Behind deliveries webhooks answers row w'.phase before) :
    Books deliveries webhooks (workers.set i w') answers where
  settled hall := by
    have hi : i < workers.length := (List.getElem?_eq_some_iff.mp hw).1
    exact absurd (hall w' (List.mem_set hi w')) hphase
  behind v hv hne := by
    rcases eq_or_mem_eraseIdx_of_mem_set hv with rfl | hv
    · exact hbehind
    · exact absurd (h.others hw hrows v hv).2 hne

/-- While the one worker with rows has not POSTed yet, the tables say all. -/
theorem Books.ready (h : Books deliveries webhooks workers answers) (hs : Single workers)
    (hw : workers[i]? = some w) (hrows : w.rows ≠ []) (hphase : w.phase = .ready) :
    (∀ d ∈ deliveries, d.Records answers) ∧ ∀ w ∈ webhooks, w.Records answers := by
  refine h.settled fun v hv => ?_
  rcases eq_or_mem_set_of_mem hw w hv with rfl | hv
  · exact hphase
  · rcases eq_or_mem_eraseIdx_of_mem_set hv with rfl | hv
    · exact hphase
    · exact (hs.others hw hrows v hv).2

end

/-! ### Steps -/

/-- What the tables and the worker at a row say of the answers. -/
structure World.Told (s : World) (answers : List Answer) : Prop where
  known : ∀ a ∈ answers, a.delivery ∈ s.deliveries.map (·.id)
  single : Single s.workers
  books : Books s.deliveries s.webhooks s.workers answers

theorem records_fresh {d : Delivery} {answers : List Answer}
    (hfresh : ∀ a ∈ answers, a.delivery ≠ d.id) (hattempts : d.attempts = 0)
    (hs : d.status = .pending) : d.Records answers := by
  have hfailures : failures answers d.id = 0 :=
    List.countP_eq_zero.mpr fun a ha => by simp [hfresh a ha]
  refine ⟨?_, iff_of_false (by simp [hs]) ?_, iff_of_false (by simp [hs]) ?_, ?_⟩
  · rw [hattempts]
    exact (List.countP_eq_zero.mpr fun a ha => by simp [hfresh a ha]).symm
  · rintro ⟨a, ha, hid, -⟩
    exact hfresh a ha hid
  · rw [hfailures]
    decide
  · rw [hfailures]
    exact Nat.zero_le _

section

variable {s s' : World} {answers : List Answer} {i : Nat} {w : Worker} {row : PendingDelivery}
  {rest : List PendingDelivery}

theorem told_enqueue {id webhookId event payload : String} (h : s.Told answers)
    (hstep : step s (.enqueue id webhookId event payload) = some s') : s'.Told answers := by
  rw [step] at hstep
  split at hstep
  · exact absurd hstep (by simp)
  · rename_i hnew
    obtain rfl := Option.some.inj hstep
    have hfresh : ∀ a ∈ answers, a.delivery ≠ id := fun a ha heq => hnew (heq ▸ h.known a ha)
    refine ⟨fun a ha => ?_, h.single, fun hall => ⟨fun d hd => ?_, (h.books.settled hall).2⟩,
      fun v hv hne row hrow => ?_⟩
    · rw [List.map_append]
      exact List.mem_append_left _ (h.known a ha)
    · rcases List.mem_append.mp hd with hd | hd
      · exact (h.books.settled hall).1 d hd
      · rw [List.mem_singleton.mp hd]
        exact records_fresh hfresh rfl rfl
    · obtain ⟨before, hbehind⟩ := h.books.behind v hv hne row hrow
      refine ⟨before, hbehind.last, fun d hd => ?_, hbehind.webhooks⟩
      rcases List.mem_append.mp hd with hd | hd
      · exact hbehind.deliveries d hd
      · rw [List.mem_singleton.mp hd]
        refine records_fresh (fun a ha => hfresh a ?_) rfl rfl
        split at ha
        · exact ha
        · exact hbehind.last ▸ List.mem_append_left _ ha

theorem told_selects {batchSize : Nat} {skipped : List String} (h : s.Told answers)
    (hall : ∀ w ∈ s.workers, w.rows = [])
    (hstep : step s (.selects batchSize skipped) = some s') : s'.Told answers := by
  obtain rfl := Option.some.inj hstep
  have hready : ∀ w ∈ s.workers, w.phase = .ready := fun w hw => h.single.idle w hw (hall w hw)
  refine ⟨h.known, h.single.concat hall rfl, fun _ => h.books.settled hready, fun v hv hne => ?_⟩
  rcases List.mem_append.mp hv with hv | hv
  · exact absurd (hready v hv) hne
  · exact absurd (List.mem_singleton.mp hv ▸ rfl) hne

/-- A POST leads to a statement that is due for its delivery. -/
theorem exists_phase_of_post (s : World) (i : Nat) (w : Worker) (row : PendingDelivery)
    (outcome : Outcome) : ∃ phase : Phase, phase ≠ .ready ∧ phase.ok = outcome.ok ∧
      phase.recorded = false ∧
      (s.post i w row outcome).workers = s.workers.set i { w with phase := phase } := by
  cases outcome with
  | threw error => exact ⟨.failing error none true false, by simp, rfl, rfl, rfl⟩
  | status code =>
    by_cases hcode : 200 ≤ code ∧ code < 300
    · refine ⟨.succeeded code, by simp, ?_, rfl, ?_⟩
      · simp [Phase.ok, Outcome.ok, hcode]
      · rw [World.post, if_pos hcode]
        rfl
    · refine ⟨.failing ("HTTP " ++ toString code) (some code) false false, by simp, ?_, rfl, ?_⟩
      · simp only [Phase.ok, Outcome.ok, Bool.false_eq, Bool.and_eq_false_iff,
          decide_eq_false_iff_not]
        exact not_and_or.mp hcode
      · rw [World.post, if_neg hcode]
        rfl

theorem told_post (h : s.Told answers) (hinv : s.Inv) (hw : s.workers[i]? = some w)
    (hrows : w.rows = row :: rest) (hphase : w.phase = .ready) (outcome : Outcome) :
    (s.post i w row outcome).Told (answers ++ [⟨row.id, row.webhookId, outcome.ok⟩]) := by
  obtain ⟨phase, hne, hok, hrec, hworkers⟩ := exists_phase_of_post s i w row outcome
  have hnonempty : w.rows ≠ [] := by simp [hrows]
  have hready := h.books.ready h.single hw hnonempty hphase
  refine ⟨fun a ha => ?_, hworkers ▸ h.single.set hw hnonempty fun hnil => absurd hnil hnonempty,
    hworkers ▸ books_of_behind h.single hw hnonempty hne fun row' hrow' => ⟨answers, ?_⟩⟩
  · rcases List.mem_append.mp ha with ha | ha
    · exact h.known a ha
    · rw [List.mem_singleton.mp ha]
      exact hinv.held w (List.mem_of_getElem? hw) row (hrows ▸ List.mem_cons_self)
  · obtain rfl : row = row' := by simpa [hrows] using hrow'
    refine ⟨by rw [← hok], fun d hd => ?_, hready.2⟩
    change d.Records (if phase.recorded then _ else answers)
    rw [hrec]
    exact hready.1 d hd

theorem forall_mem_update {α : Type} {key : α → String} {P : α → Prop} {xs : List α} {id : String}
    {f : α → α} (hrow : ∀ x ∈ xs, key x = id → P (f x)) (hother : ∀ x ∈ xs, key x ≠ id → P x) :
    ∀ x ∈ xs.map fun x => if key x = id then f x else x, P x := by
  intro x hx
  obtain ⟨y, hy, rfl⟩ := List.mem_map.mp hx
  split
  · exact hrow y hy ‹_›
  · exact hother y hy ‹_›

theorem exists_behind (h : s.Told answers) (hw : s.workers[i]? = some w)
    (hrows : w.rows = row :: rest) (hphase : w.phase ≠ .ready) :
    ∃ before, Behind s.deliveries s.webhooks answers row w.phase before :=
  h.books.behind w (List.mem_of_getElem? hw) hphase row (by simp [hrows])

/-- A delivery whose failure is to be recorded, or is recorded once more, has only failed. -/
theorem only_failed (h : s.Told answers) (hinv : s.Inv) (hw : s.workers[i]? = some w)
    (hrows : w.rows = row :: rest) {error : String} {code : Option Nat} {caught recorded : Bool}
    (hphase : w.phase = .failing error code caught recorded) :
    ∀ d ∈ s.deliveries, d.id = row.id → (∀ a ∈ answers, a.delivery = d.id → a.ok = false) ∧
      answers.countP (·.delivery = d.id) = row.attempts + 1 ∧ row.attempts + 1 ≤ maxAttempts := by
  intro d hd hid
  obtain ⟨before, hbehind⟩ := exists_behind h hw hrows (by simp [hphase])
  have hagrees := hinv.agrees w (List.mem_of_getElem? hw)
  have hrec := hbehind.deliveries d hd
  have hlast := hbehind.last
  cases recorded with
  | false =>
    have hwait := hagrees.waiting row (by simp [Worker.waiting, hphase, hrows]) d hd hid
    rw [hphase] at hrec hlast
    change d.Records before at hrec
    refine ⟨fun a ha haid => ?_, ?_, hwait.1 ▸ (hinv.inLimit d hd).2 hwait.2⟩
    · rcases List.mem_append.mp (hlast ▸ ha) with ha | ha
      · exact hrec.not_ok (by simp [hwait.2]) a ha haid
      · exact List.mem_singleton.mp ha ▸ rfl
    · rw [hlast, List.countP_append, ← hrec.attempts, hwait.1, List.countP_singleton,
        if_pos (by simp [hid])]
  | true =>
    have hsettled := hagrees.settled row (by simp [Worker.settled, hphase, hrows]) d hd hid
    rw [hphase] at hrec
    change d.Records answers at hrec
    exact ⟨hrec.not_ok hsettled.2, hrec.attempts ▸ hsettled.1,
      hsettled.1 ▸ (hinv.inLimit d hd).1⟩

/-- A statement about the delivery. -/
theorem told_updateDelivery (h : s.Told answers) (hw : s.workers[i]? = some w)
    (hrows : w.rows = row :: rest) (f : Delivery → Delivery) (hf : ∀ d, (f d).id = d.id)
    {phase : Phase} (hphase : w.phase ≠ .ready) (hne : phase ≠ .ready)
    (hok : phase.ok = w.phase.ok) (hrecorded : phase.recorded = true)
    (hrec : ∀ d ∈ s.deliveries, d.id = row.id → (f d).Records answers) :
    ((s.updateDelivery row.id f).setPhase i w phase).Told answers := by
  obtain ⟨before, hbehind⟩ := exists_behind h hw hrows hphase
  have hnonempty : w.rows ≠ [] := by simp [hrows]
  refine ⟨fun a ha => ?_, h.single.set hw hnonempty fun hnil => absurd hnil hnonempty,
    books_of_behind h.single hw hnonempty hne fun row' hrow' => ⟨before, ?_⟩⟩
  · change a.delivery ∈
      (s.deliveries.map fun d => if d.id = row.id then f d else d).map Delivery.id
    rw [map_id_update fun d _ hid => (hf d).trans hid]
    exact h.known a ha
  · obtain rfl : row = row' := by simpa [hrows] using hrow'
    refine ⟨by rw [hok]; exact hbehind.last, ?_, hbehind.webhooks⟩
    change ∀ d ∈ s.deliveries.map _, Delivery.Records d (if phase.recorded then _ else before)
    rw [hrecorded, if_pos rfl]
    refine forall_mem_update hrec fun d hd hid => ?_
    -- an answer for the row is none for another delivery
    have hother := hbehind.deliveries d hd
    rw [hbehind.last] at hother ⊢
    split at hother
    · exact hother
    · exact hother.other (Ne.symm hid)

/-- The statement about the endpoint, with which a worker is done with a row. -/
theorem told_updateWebhook (h : s.Told answers) (hw : s.workers[i]? = some w)
    (hrows : w.rows = row :: rest) (hphase : w.phase ≠ .ready)
    (hrecorded : w.phase.recorded = true) {f : Webhook → Webhook} {w' : Worker}
    (hready : w'.phase = .ready)
    (hrec : ∀ v before, v.id = row.webhookId → v.Records before →
      (f v).Records (before ++ [⟨row.id, row.webhookId, w.phase.ok⟩])) :
    ((s.updateWebhook row.webhookId f).setWorker i w').Told answers := by
  obtain ⟨before, hbehind⟩ := exists_behind h hw hrows hphase
  have hnonempty : w.rows ≠ [] := by simp [hrows]
  have hdeliveries := hbehind.deliveries
  rw [hrecorded, if_pos rfl] at hdeliveries
  refine ⟨h.known, h.single.set hw hnonempty fun _ => hready,
    books_of_ready h.single hw hnonempty hready ⟨hdeliveries, ?_⟩⟩
  rw [hbehind.last]
  refine forall_mem_update (fun v hv hid => hrec v before hid (hbehind.webhooks v hv)) ?_
  exact fun v hv hid => (hbehind.webhooks v hv).other (Ne.symm hid)

/-- A statement that completes. -/
theorem told_completes (h : s.Told answers) (hinv : s.Inv) (hw : s.workers[i]? = some w)
    (hrows : w.rows = row :: rest) (hexec : s.exec i w row rest none = some s') :
    s'.Told answers := by
  cases hphase : w.phase with
  | ready => simp [World.exec, hphase] at hexec
  | succeeded code =>
    simp only [World.exec, hphase, Option.some.injEq] at hexec
    obtain ⟨before, hbehind⟩ := exists_behind h hw hrows (by simp [hphase])
    have hagrees := hinv.agrees w (List.mem_of_getElem? hw)
    refine hexec ▸ told_updateDelivery h hw hrows (·.succeed s.now code) (fun _ => rfl)
      (by simp [hphase]) (by simp) (by rw [hphase]; rfl) rfl fun d hd hid => ?_
    have hwait := hagrees.waiting row (by simp [Worker.waiting, hphase, hrows]) d hd hid
    have hrec := hbehind.deliveries d hd
    rw [hphase] at hrec
    rw [hbehind.last, hphase, ← hid]
    exact hrec.succeed hwait.2
  | failing error code caught recorded =>
    simp only [World.exec, hphase, Option.some.injEq] at hexec
    refine hexec ▸ told_updateDelivery h hw hrows (·.recordFailure s.now row error code)
      (fun _ => rfl) (by simp [hphase]) (by simp) (by rw [hphase]; rfl) rfl fun d hd hid => ?_
    obtain ⟨hno, hcount, hmax⟩ := only_failed h hinv hw hrows hphase d hd hid
    exact records_recordFailure hno hcount hmax
  | healthy =>
    simp only [World.exec, hphase, Option.some.injEq] at hexec
    refine hexec ▸ told_updateWebhook h hw hrows (by simp [hphase]) (by rw [hphase]; rfl) rfl
      fun v before hid _ => ?_
    rw [hphase, ← hid]
    exact records_webhookSucceed
  | unhealthy error caught =>
    simp only [World.exec, hphase, Option.some.injEq] at hexec
    refine hexec ▸ told_updateWebhook h hw hrows (by simp [hphase]) (by rw [hphase]; rfl) rfl
      fun v before hid hrec => ?_
    rw [hphase, ← hid]
    exact hrec.recordFailure

/-- Where a statement raises inside the `try` after a failure, the `catch` records it again. -/
def Phase.Retried : Phase → Prop
  | .failing _ _ false _ | .unhealthy _ false => True
  | _ => False

instance (phase : Phase) : Decidable phase.Retried := by
  unfold Phase.Retried
  split
  · exact isTrue trivial
  · exact isTrue trivial
  · exact isFalse id

theorem told_raises (h : s.Told answers) (hw : s.workers[i]? = some w)
    (hrows : w.rows = row :: rest) {raised : String} (hretried : w.phase.Retried)
    (hexec : s.exec i w row rest (some raised) = some s') : s'.Told answers := by
  have hgo : ∀ phase : Phase, phase ≠ .ready → phase.ok = w.phase.ok →
      phase.recorded = w.phase.recorded → w.phase ≠ .ready →
      (s.setPhase i w phase).Told answers := by
    intro phase hne hok hrecorded hphase
    obtain ⟨before, hbehind⟩ := exists_behind h hw hrows hphase
    have hnonempty : w.rows ≠ [] := by simp [hrows]
    refine ⟨h.known, h.single.set hw hnonempty fun hnil => absurd hnil hnonempty,
      books_of_behind h.single hw hnonempty hne fun row' hrow' => ⟨before, ?_⟩⟩
    obtain rfl : row = row' := by simpa [hrows] using hrow'
    exact ⟨hok ▸ hbehind.last, hrecorded ▸ hbehind.deliveries, hbehind.webhooks⟩
  cases hphase : w.phase with
  | ready => simp [Phase.Retried, hphase] at hretried
  | succeeded code => simp [Phase.Retried, hphase] at hretried
  | healthy => simp [Phase.Retried, hphase] at hretried
  | failing error code caught recorded =>
    cases caught with
    | true => simp [Phase.Retried, hphase] at hretried
    | false =>
      simp only [World.exec, hphase, Option.some.injEq] at hexec
      refine hexec ▸ hgo _ (by simp) (by rw [hphase]; rfl) ?_ (by simp [hphase])
      rw [hphase]
      cases recorded with
      | false => rfl
      | true => rfl
  | unhealthy error caught =>
    cases caught with
    | true => simp [Phase.Retried, hphase] at hretried
    | false =>
      simp only [World.exec, hphase, Option.some.injEq] at hexec
      exact hexec ▸ hgo _ (by simp) (by rw [hphase]; rfl) (by rw [hphase]; rfl) (by simp [hphase])

/-- A worker that is between two rows dies. -/
theorem told_dies (h : s.Told answers) (hw : s.workers[i]? = some w) (hphase : w.phase = .ready) :
    World.Told { s with workers := s.workers.eraseIdx i } answers where
  known := h.known
  single := h.single.eraseIdx i
  books := by
    refine ⟨fun hall => h.books.settled fun v hv => ?_,
      fun v hv hne => h.books.behind v (List.mem_of_mem_eraseIdx hv) hne⟩
    rcases eq_or_mem_set_of_mem hw w hv with rfl | hv
    · exact hphase
    · rcases eq_or_mem_eraseIdx_of_mem_set hv with rfl | hv
      · exact hphase
      · exact hall v hv

end

/-! ### Retries -/

/-- The documented delay: 1m, 5m, 25m, 2h and 10h after the first, second, … failure. -/
def Retry.OnLadder (r : Retry) : Prop :=
  r.delay =
    if r.attempt < maxAttempts then some (backoffMinutes.getD (r.attempt - 1) 0 * 60000) else none

/-- The delay that is set: the one that is documented for the next failure. -/
structure Retry.Late (r : Retry) : Prop where
  pos : 0 < r.attempt
  limit : r.attempt ≤ maxAttempts
  delay : r.delay =
    if r.attempt < maxAttempts then some (backoffMinutes.getD r.attempt 0 * 60000) else none

instance (r : Retry) : Decidable r.OnLadder := inferInstanceAs (Decidable (_ = _))

/-- No two delays of the ladder are the same. -/
theorem Retry.Late.onLadder_iff {r : Retry} (h : r.Late) :
    r.OnLadder ↔ maxAttempts ≤ r.attempt := by
  obtain ⟨hpos, hlimit, hdelay⟩ := h
  rw [Retry.OnLadder, hdelay]
  generalize r.attempt = attempt at hpos hlimit ⊢
  change attempt ≤ 5 at hlimit
  interval_cases attempt <;> decide

section

variable {s s' : World} {answers : List Answer} {i : Nat} {w : Worker} {row : PendingDelivery}

/-- What is set when a failure is recorded. -/
theorem retried_eq (h : s.Told answers) (hinv : s.Inv) (hw : s.workers[i]? = some w)
    (hrow : w.failingRow = some row) (hstep : step s (.exec i none) = some s') :
    ∃ r, s.retried s' answers (.exec i none) = some r ∧ r.attempt = row.attempts + 1 ∧ r.Late := by
  rw [Worker.failingRow] at hrow
  split at hrow
  · rename_i error code caught recorded hphase
    obtain ⟨rest, hrows⟩ := List.head?_eq_some_iff.mp hrow
    have hs' : s' = (s.updateDelivery row.id (·.recordFailure s.now row error code)).setPhase i w
        (.unhealthy error caught) := by
      simp only [step, hw, Option.bind_eq_bind, Option.bind_some, hrows, World.exec, hphase,
        Option.some.injEq] at hstep
      exact hstep.symm
    obtain ⟨d, hd, hid⟩ := List.mem_map.mp
      (hinv.held w (List.mem_of_getElem? hw) row (hrows ▸ List.mem_cons_self))
    obtain ⟨-, -, hmax⟩ := only_failed h hinv hw hrows hphase d hd hid
    -- the row is there, and what is found under its id is what was recorded
    obtain ⟨d', hfind⟩ : ∃ d', s'.deliveries.find? (·.id = row.id) = some d' := by
      refine Option.isSome_iff_exists.mp (List.find?_isSome.mpr
        ⟨d.recordFailure s.now row error code, ?_, decide_eq_true hid⟩)
      rw [hs']
      exact List.mem_map.mpr ⟨d, hd, if_pos hid⟩
    obtain ⟨e, he, heq⟩ : ∃ e ∈ s.deliveries,
        e.id = row.id ∧ d' = e.recordFailure s.now row error code := by
      have hmem := List.mem_of_find?_eq_some hfind
      have hid' : d'.id = row.id := by simpa using List.find?_some hfind
      rw [hs'] at hmem
      obtain ⟨e, he, rfl⟩ := List.mem_map.mp hmem
      split at hid'
      · rename_i heid
        exact ⟨e, he, heid, if_pos heid⟩
      · rename_i heid
        exact absurd hid' heid
    obtain ⟨hno, hcount, -⟩ := only_failed h hinv hw hrows hphase e he heq.1
    have hfailures : failures answers row.id = row.attempts + 1 := by
      rw [← heq.1, failures_eq_countP hno, hcount]
    refine ⟨⟨row.id, failures answers row.id, d'.nextRetryAt.map (· - s.now)⟩, ?_, hfailures, ?_⟩
    · simp [World.retried, hw, Worker.failingRow, hphase, hrows, hfind]
    · refine ⟨?_, ?_, ?_⟩
      · change 0 < failures answers row.id
        omega
      · change failures answers row.id ≤ maxAttempts
        omega
      · change d'.nextRetryAt.map (· - s.now) = if failures answers row.id < maxAttempts then
          some (backoffMinutes.getD (failures answers row.id) 0 * 60000) else none
        rw [hfailures, heq.2]
        change (if maxAttempts ≤ row.attempts + 1 then none else some (s.now +
          backoffMinutes.getD (min (row.attempts + 1) (backoffMinutes.length - 1)) 0 * 60000)).map
            (· - s.now) = _
        by_cases hlast : maxAttempts ≤ row.attempts + 1
        · rw [if_pos hlast, if_neg (Nat.not_lt.mpr hlast)]
          rfl
        · have hmin : min (row.attempts + 1) (backoffMinutes.length - 1) = row.attempts + 1 :=
            Nat.min_eq_left (Nat.le_sub_one_of_lt (Nat.lt_of_not_le hlast))
          rw [if_neg hlast, if_pos (Nat.lt_of_not_le hlast), hmin, Option.map_some]
          exact congrArg some (by omega)
  · exact absurd hrow (by simp)

end

/-! ### A run -/

/-- A worker starts when no other has a row in hand and dies between two rows, and no statement
raises after a 2xx or in the `catch`. -/
def Undisturbed (h : History) : Action → Prop
  | .selects .. => ∀ w ∈ h.world.workers, w.rows = []
  | .exec i (some _) => ∀ w ∈ h.world.workers[i]?, w.phase.Retried
  | .dies i => ∀ w ∈ h.world.workers[i]?, w.phase = .ready
  | _ => True

/-- The failure that is recorded, if any, is that of a last attempt. -/
def LastOnly (h : History) : Action → Prop
  | .exec i none =>
    ∀ w ∈ h.world.workers[i]?, ∀ row ∈ w.failingRow, maxAttempts ≤ row.attempts + 1
  | _ => True

instance (h : History) : ∀ a, Decidable (Undisturbed h a)
  | .selects _ _ => inferInstanceAs (Decidable (∀ w ∈ h.world.workers, w.rows = []))
  | .exec i (some _) => inferInstanceAs (Decidable (∀ w ∈ h.world.workers[i]?, w.phase.Retried))
  | .dies i => inferInstanceAs (Decidable (∀ w ∈ h.world.workers[i]?, w.phase = .ready))
  | .exec _ none => isTrue trivial
  | .tick _ => isTrue trivial
  | .enqueue .. => isTrue trivial
  | .post .. => isTrue trivial

theorem exclusive_of_undisturbed {h : History} {a : Action} (hg : Undisturbed h a) :
    Exclusive h.world a := by
  cases a with
  | tick elapsed => trivial
  | enqueue id webhookId event payload => trivial
  | post i outcome => trivial
  | selects batchSize skipped =>
    intro r _ w hw r' hr'
    rw [hg w hw] at hr'
    exact absurd hr' List.not_mem_nil
  | exec i raises =>
    cases raises with
    | none => trivial
    | some raised =>
      intro w hw hcannot
      have hretried := hg w hw
      rw [Worker.CannotRaise] at hcannot
      split at hcannot
      · rename_i hphase
        exact absurd hretried (by simp [Phase.Retried, hphase])
      · rename_i hphase
        exact absurd hretried (by simp [Phase.Retried, hphase])
      · exact hcannot
  | dies i => exact fun w hw => by simp [Worker.owes, hg w hw]

structure History.Inv (h : History) : Prop where
  world : h.world.Inv
  told : h.world.Told h.answers
  late : ∀ r ∈ h.retries, r.Late

section

variable {h h' : History} {s' : World} {a : Action}

theorem told_step (hinv : h.world.Inv) (htold : h.world.Told h.answers) (hg : Undisturbed h a)
    (hstep : step h.world a = some s') :
    s'.Told (h.answers ++ (h.world.answered a).toList) := by
  cases a with
  | tick elapsed =>
    obtain rfl := Option.some.inj hstep
    exact (List.append_nil h.answers).symm ▸ ⟨htold.known, htold.single, htold.books⟩
  | enqueue id webhookId event payload =>
    exact (List.append_nil h.answers).symm ▸ told_enqueue htold hstep
  | selects batchSize skipped =>
    exact (List.append_nil h.answers).symm ▸ told_selects htold hg hstep
  | post i outcome =>
    obtain ⟨w, hw, hstep⟩ := Option.bind_eq_some_iff.mp hstep
    split at hstep
    · rename_i row rest hrows hphase
      have hanswered : h.world.answered (.post i outcome) =
          some ⟨row.id, row.webhookId, outcome.ok⟩ := by
        simp [World.answered, hw, hrows]
      rw [hanswered]
      exact Option.some.inj hstep ▸ told_post htold hinv hw hrows hphase outcome
    · exact absurd hstep (by simp)
  | exec i raises =>
    obtain ⟨w, hw, hstep⟩ := Option.bind_eq_some_iff.mp hstep
    refine (List.append_nil h.answers).symm ▸ ?_
    split at hstep
    · rename_i row rest hrows
      cases raises with
      | none => exact told_completes htold hinv hw hrows hstep
      | some raised => exact told_raises htold hw hrows (hg w hw) hstep
    · exact absurd hstep (by simp)
  | dies i =>
    obtain ⟨w, hw, hstep⟩ := Option.bind_eq_some_iff.mp hstep
    refine (List.append_nil h.answers).symm ▸ ?_
    exact Option.some.inj hstep ▸ told_dies htold hw (hg w hw)

/-- What a step sets is set late, and is on the ladder exactly for a last attempt. -/
theorem retried_step (hinv : h.world.Inv) (htold : h.world.Told h.answers)
    (hstep : step h.world a = some s') :
    (∀ r ∈ h.world.retried s' h.answers a, r.Late) ∧
      ((∀ r ∈ h.world.retried s' h.answers a, r.OnLadder) ↔ LastOnly h a) := by
  cases a with
  | tick elapsed => simp [World.retried, LastOnly]
  | enqueue id webhookId event payload => simp [World.retried, LastOnly]
  | selects batchSize skipped => simp [World.retried, LastOnly]
  | post i outcome => simp [World.retried, LastOnly]
  | dies i => simp [World.retried, LastOnly]
  | exec i raises =>
    cases raises with
    | some raised => simp [World.retried, LastOnly]
    | none =>
      obtain ⟨w, hw, -⟩ := Option.bind_eq_some_iff.mp hstep
      cases hrow : w.failingRow with
      | none => simp [World.retried, LastOnly, hw, hrow]
      | some row =>
        obtain ⟨r, hr, hattempt, hlate⟩ := retried_eq htold hinv hw hrow hstep
        simp only [hr, LastOnly, hw, hrow, Option.mem_some_iff, forall_eq']
        exact ⟨hlate, hlate.onLadder_iff.trans (by rw [hattempt])⟩

theorem History.Inv.step (hinv : h.Inv) (hg : Undisturbed h a) (hstep : h.step a = some h') :
    h'.Inv ∧ Kept h.world.deliveries h'.world.deliveries := by
  obtain ⟨world, hworld, rfl⟩ := Option.map_eq_some_iff.mp hstep
  have hnext := inv_step a hinv.world (exclusive_of_undisturbed hg) hworld
  refine ⟨⟨hnext.1, told_step hinv.world hinv.told hg hworld, fun r hr => ?_⟩, hnext.2⟩
  rcases List.mem_append.mp hr with hr | hr
  · exact hinv.late r hr
  · exact (retried_step hinv.world hinv.told hworld).1 r (Option.mem_toList.mp hr)

theorem onLadder_step (hinv : h.Inv) (hstep : h.step a = some h') :
    (∀ r ∈ h'.retries, r.OnLadder) ↔ (∀ r ∈ h.retries, r.OnLadder) ∧ LastOnly h a := by
  obtain ⟨world, hworld, rfl⟩ := Option.map_eq_some_iff.mp hstep
  rw [← (retried_step hinv.world hinv.told hworld).2]
  simp only [List.mem_append, Option.mem_toList, Option.mem_def, or_imp, forall_and]

end

def Webhook.Fresh (w : Webhook) : Prop := w.health = .healthy ∧ w.consecutiveFailures = 0

instance (w : Webhook) : Decidable w.Fresh := inferInstanceAs (Decidable (_ ∧ _))

/-- The rows say what the answers say once no statement is due, and what is set is late. -/
structure Lawful (h : History) : Prop where
  deliveries : (∀ w ∈ h.world.workers, w.phase = .ready) →
    ∀ d ∈ h.world.deliveries, d.Records h.answers
  webhooks : (∀ w ∈ h.world.workers, w.phase = .ready) →
    ∀ w ∈ h.world.webhooks, w.Records h.answers
  late : ∀ r ∈ h.retries, r.Late

theorem inv_start {now : Int} {webhooks : List Webhook} (hfresh : ∀ w ∈ webhooks, w.Fresh) :
    (History.start now webhooks).Inv where
  world := by
    refine ⟨⟨List.nodup_nil, List.Pairwise.nil, ?_, ?_, ?_⟩, ?_, ?_⟩
    · exact fun w hw => absurd hw List.not_mem_nil
    · exact fun d hd => absurd hd List.not_mem_nil
    · exact fun w hw => absurd hw List.not_mem_nil
    · exact fun p hp => absurd hp List.not_mem_nil
    · exact fun d hd => absurd hd List.not_mem_nil
  told := by
    refine ⟨?_, ⟨?_, List.Pairwise.nil⟩, fun _ => ⟨?_, fun w hw => ?_⟩, ?_⟩
    · exact fun a ha => absurd ha List.not_mem_nil
    · exact fun w hw => absurd hw List.not_mem_nil
    · exact fun d hd => absurd hd List.not_mem_nil
    · obtain ⟨hhealth, hzero⟩ := hfresh w hw
      exact ⟨hzero, by rw [hhealth, hzero]; rfl⟩
    · exact fun w hw => absurd hw List.not_mem_nil
  late r hr := absurd hr List.not_mem_nil

/-- **One worker and its ladder.**  In an undisturbed run the rows say what the answers say,
what is delivered stays delivered, and every retry is set one delay late, so that the retries are
the documented ones exactly when no attempt but a last one is recorded as failed. -/
theorem guarded_lawful {now : Int} {webhooks : List Webhook} (hfresh : ∀ w ∈ webhooks, w.Fresh)
    {before after : List Action} {s t : History}
    (hguard : Guarded History.step Undisturbed (.start now webhooks) (before ++ after))
    (hs : run History.step (.start now webhooks) before = some s)
    (ht : run History.step s after = some t) :
    Lawful t ∧ Kept s.world.deliveries t.world.deliveries ∧
      ((∀ r ∈ t.retries, r.OnLadder) ↔
        Guarded History.step LastOnly (.start now webhooks) (before ++ after)) := by
  obtain ⟨hbefore, hafter⟩ := guarded_append.mp hguard
  have hinv : ∀ u a u', History.Inv u → Undisturbed u a → u.step a = some u' → u'.Inv :=
    fun u a u' h hg hstep => (h.step hg hstep).1
  have hmid : s.Inv := invariant_of_guarded hinv before _ s (inv_start hfresh) hbefore hs
  have hend : t.Inv ∧ Kept s.world.deliveries t.world.deliveries := by
    refine invariant_of_guarded
      (I := fun u : History => u.Inv ∧ Kept s.world.deliveries u.world.deliveries)
      (fun u a u' h hg hstep => ?_) after s t ⟨hmid, Kept.refl _⟩ (hafter s hs) ht
    have hone := h.1.step hg hstep
    exact ⟨hone.1, h.2.trans hone.2⟩
  have hrun : run History.step (.start now webhooks) (before ++ after) = some t := by
    rw [run_append, hs]
    exact ht
  have hladder := holds_iff_of_guarded (P := fun u => ∀ r ∈ u.retries, r.OnLadder) (H := LastOnly)
    hinv (fun u a u' h _ hstep => onLadder_step h hstep) (inv_start hfresh) hguard hrun
  refine ⟨⟨fun hall => (hend.1.told.books.settled hall).1,
    fun hall => (hend.1.told.books.settled hall).2, hend.1.late⟩, hend.2, hladder.trans ?_⟩
  exact and_iff_right fun r hr => absurd hr List.not_mem_nil

/-- An endpoint fails once, while a statement about it raises as well, and answers after that. -/
theorem lawful_retriedDelivery :
    ∃ s t, run History.step (.start 0 [sampleWebhook])
        [.enqueue "d1" "w1" "link.created" "{}", .selects 50 [], .post 0 (.status 500),
          .exec 0 none, .exec 0 (some "connection lost"), .exec 0 none, .exec 0 none] = some s ∧
      run History.step s [.tick 300000, .selects 50 [], .post 1 (.status 200), .exec 1 none,
        .exec 1 none] = some t ∧ Lawful t := by
  have hrun : (run History.step (.start 0 [sampleWebhook])
      [.enqueue "d1" "w1" "link.created" "{}", .selects 50 [], .post 0 (.status 500),
        .exec 0 none, .exec 0 (some "connection lost"), .exec 0 none, .exec 0 none]).any (fun s =>
      (run History.step s [.tick 300000, .selects 50 [], .post 1 (.status 200), .exec 1 none,
        .exec 1 none]).isSome) = true := by decide +kernel
  obtain ⟨s, hs, hrun⟩ := (Option.any_eq_true _ _).mp hrun
  obtain ⟨t, ht⟩ := Option.isSome_iff_exists.mp hrun
  have hfresh : ∀ w ∈ [sampleWebhook], w.Fresh := by decide
  exact ⟨s, t, hs, ht, (guarded_lawful hfresh (by decide +kernel) hs ht).1⟩

/-- **The first delay is never used.**  The second attempt is due five minutes after the first one
failed, and not one. -/
theorem first_retry_late :
    ¬ ∀ (now : Int) (webhooks : List Webhook) (actions : List Action) (h : History),
      (∀ w ∈ webhooks, w.Fresh) →
      Guarded History.step Undisturbed (.start now webhooks) actions →
      run History.step (.start now webhooks) actions = some h →
        ∀ r ∈ h.retries, r.OnLadder := by
  intro hall
  have hrun : (run History.step (.start 0 [sampleWebhook])
      [.enqueue "d1" "w1" "link.created" "{}", .selects 50 [], .post 0 (.status 500), .exec 0 none,
        .exec 0 none]).any (fun h => h.retries = [⟨"d1", 1, some 300000⟩]) = true := by
    decide +kernel
  obtain ⟨h, hs, hretries⟩ := (Option.any_eq_true _ _).mp hrun
  have hladder := hall 0 [sampleWebhook] _ h (by decide) (by decide +kernel) hs
  rw [of_decide_eq_true hretries] at hladder
  exact absurd (hladder _ List.mem_cons_self) (by decide)

end SnapUrl.Webhooks
