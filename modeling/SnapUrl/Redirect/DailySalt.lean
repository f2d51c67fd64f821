import SnapUrl.Domain.Visitor
import SnapUrl.Lib.Run
import Mathlib.Logic.Function.Basic

/-!
# One salt a day

The salt behind every visitor hash (`apps/redirect/src/salt.ts`), for any redirect instances
over one store.  A day is a number, and the store holds a salt under each day: as a row of
`daily_salts`, which the first insert of a day makes, or as a key of the cache store, which
every set replaces.

* `step`: a call of `today`, or a store operation of the load that an instance has in flight.
* `OneSalt`: the answers to the calls of a day are the one salt that the store holds for it.
* `one_salt_a_day`: **so it is in every run** where no load settles for calls of another day
  that have joined it, and no salt is set over one that was given out.
* `yesterdays_salt`: a call just after midnight may join the load of the day before.
-/

namespace SnapUrl.Redirect.DailySalt

open Lib Domain

/-- `generateDailySalt` gives 64 digits. -/
abbrev Salt := {salt : String // salt ≠ ""}

inductive Source
  | postgres
  | cacheStore
deriving DecidableEq

/-! ### Instances -/

/-- Where a load is. -/
inductive Phase
  | read
  | write (salt : Salt)
  | reread (salt : Salt)
deriving DecidableEq

def Phase.writes : Phase → Option Salt
  | .write salt => some salt
  | _ => none

structure Load where
  day : Int
  phase : Phase
  /-- The days of the calls that wait for it. -/
  waiting : List Int

/-- The fields of a `CachingSaltSource`. -/
structure Instance where
  cachedDay : Option Int
  cachedSalt : Option Salt
  inFlight : Option Load

/-- What a call was answered with: the salt of a load of some day. -/
structure Answer where
  asked : Int
  loaded : Int
  salt : Salt
deriving DecidableEq

structure State where
  now : Int
  store : Int → Option Salt
  instances : Nat → Instance
  log : List Answer

def start (now : Int) (store : Int → Option Salt) : State :=
  ⟨now, store, fun _ => ⟨none, none, none⟩, []⟩

inductive Action
  | midnight
  | today (i : Nat)
  /-- The next store operation of the load in flight; `fresh` is what a salt that it has to
  generate is. -/
  | load (i : Nat) (fresh : Salt)
  /-- The operation fails instead. -/
  | fail (i : Nat)
  /-- `rotateSalts`, or the time to live of the key. -/
  | drop (day : Int)

def cachedFor (inst : Instance) (day : Int) : Option Salt :=
  if inst.cachedDay = some day then inst.cachedSalt else none

/-- `this.inFlight ??= this.load(day)`, for a call that then waits. -/
def join (inst : Instance) (day : Int) : Load :=
  match inst.inFlight with
  | none => ⟨day, .read, [day]⟩
  | some load => { load with waiting := load.waiting ++ [day] }

/-- What a load settles with at its next operation. -/
def outcome (s : State) (load : Load) : Option Salt :=
  match load.phase with
  | .read => s.store load.day
  | .write _ => none
  | .reread salt => some ((s.store load.day).getD salt)

/-- An insert leaves a row that is there, and a set does not. -/
def stored (source : Source) (s : State) (day : Int) (salt : Salt) : Int → Option Salt :=
  match source with
  | .postgres => Function.update s.store day ((s.store day).or (some salt))
  | .cacheStore => Function.update s.store day (some salt)

/-- The load settles, and the calls that have waited for it are answered. -/
def settle (s : State) (i : Nat) (load : Load) (salt : Salt) : State :=
  { s with
    instances := Function.update s.instances i ⟨some load.day, some salt, none⟩
    log := s.log ++ load.waiting.map fun asked => ⟨asked, load.day, salt⟩ }

def setInFlight (s : State) (i : Nat) (inFlight : Option Load) : State :=
  { s with instances := Function.update s.instances i { s.instances i with inFlight := inFlight } }

def step (source : Source) (s : State) : Action → Option State
  | .midnight => some { s with now := s.now + 1 }
  | .today i =>
    match cachedFor (s.instances i) s.now with
    | some salt => some { s with log := s.log ++ [⟨s.now, s.now, salt⟩] }
    | none => some (setInFlight s i (some (join (s.instances i) s.now)))
  | .load i fresh =>
    match (s.instances i).inFlight with
    | none => none
    | some load =>
      match outcome s load with
      | some salt => some (settle s i load salt)
      | none =>
        match load.phase with
        | .write salt =>
          some { setInFlight s i (some { load with phase := .reread salt }) with
            store := stored source s load.day salt }
        | _ => some (setInFlight s i (some { load with phase := .write fresh }))
  | .fail i =>
    match (s.instances i).inFlight with
    | none => none
    | some _ => some (setInFlight s i none)
  | .drop day =>
    -- the day before yesterday is the last that is dropped
    if day + 2 ≤ s.now then some { s with store := Function.update s.store day none } else none

/-! ### One salt -/

/-- **The answers to the calls of a day are the one salt the store holds for it.** -/
structure OneSalt (s : State) : Prop where
  own : ∀ a ∈ s.log, a.loaded = a.asked
  agree : ∀ a ∈ s.log, ∀ b ∈ s.log, a.asked = b.asked → a.salt = b.salt
  stored : ∀ a ∈ s.log, s.store a.asked = some a.salt ∨ a.asked + 2 ≤ s.now

/-- A load settles for calls of its day only, sets no salt over another that was given out,
and is done by the time its day is dropped. -/
def Sound (source : Source) (s : State) : Action → Prop
  | .load i _ => ∀ load ∈ (s.instances i).inFlight,
      s.now < load.day + 2 ∧
      ((outcome s load).isSome = true → ∀ asked ∈ load.waiting, asked = load.day) ∧
      ∀ salt ∈ load.phase.writes, source = .cacheStore →
        ∀ a ∈ s.log, a.asked = load.day → a.salt = salt
  | _ => True

instance (source : Source) (s : State) (a : Action) : Decidable (Sound source s a) :=
  match a with
  | .load i _ => inferInstanceAs (Decidable (∀ load ∈ (s.instances i).inFlight, _ ∧ _ ∧ _))
  | .midnight | .today _ | .fail _ | .drop _ => isTrue trivial

/-- The invariant of every sound run. -/
structure Kept (s : State) : Prop extends OneSalt s where
  /-- A cached salt was given out. -/
  cached : ∀ i day salt, (s.instances i).cachedDay = some day →
    (s.instances i).cachedSalt = some salt → ∃ a ∈ s.log, a.asked = day ∧ a.salt = salt
  waiting : ∀ i load, (s.instances i).inFlight = some load → load.waiting ≠ []
  /-- What is read again has been written. -/
  written : ∀ i load salt, (s.instances i).inFlight = some load → load.phase = .reread salt →
    (s.store load.day).isSome = true ∨ load.day + 2 ≤ s.now

section

variable {source : Source} {s s' : State}

theorem kept_start (now : Int) (store : Int → Option Salt) : Kept (start now store) where
  own a ha := by cases ha
  agree a ha := by cases ha
  stored a ha := by cases ha
  cached i day salt h := by cases h
  waiting i load h := by cases h
  written i load salt h := by cases h

theorem instances_setInFlight (i j : Nat) (inFlight : Option Load) :
    (setInFlight s i inFlight).instances j =
      if j = i then { s.instances i with inFlight := inFlight } else s.instances j :=
  Function.update_apply _ _ _ _

/-- A load that moves on, or ends without an answer. -/
theorem kept_setInFlight (h : Kept s) (i : Nat) {inFlight : Option Load}
    (hwaiting : ∀ load ∈ inFlight, load.waiting ≠ [])
    (hwritten : ∀ load ∈ inFlight, ∀ salt, load.phase = .reread salt →
      (s.store load.day).isSome = true ∨ load.day + 2 ≤ s.now) :
    Kept (setInFlight s i inFlight) where
  own := h.own
  agree := h.agree
  stored := h.stored
  cached j day salt hday hsalt := by
    refine h.cached j day salt ?_ ?_
    · rw [instances_setInFlight] at hday
      split at hday
      · rename_i hj
        rwa [hj]
      · exact hday
    · rw [instances_setInFlight] at hsalt
      split at hsalt
      · rename_i hj
        rwa [hj]
      · exact hsalt
  waiting j load hload := by
    rw [instances_setInFlight] at hload
    split at hload
    · exact hwaiting load hload
    · exact h.waiting j load hload
  written j load salt hload hphase := by
    rw [instances_setInFlight] at hload
    split at hload
    · exact hwritten load hload salt hphase
    · exact h.written j load salt hload hphase

theorem kept_midnight (h : Kept s) : Kept { s with now := s.now + 1 } where
  own := h.own
  agree := h.agree
  stored a ha := (h.stored a ha).imp_right fun hle => hle.trans (Int.le_add_one le_rfl)
  cached := h.cached
  waiting := h.waiting
  written i load salt hload hphase :=
    (h.written i load salt hload hphase).imp_right fun hle => hle.trans (Int.le_add_one le_rfl)

theorem kept_drop (h : Kept s) {day : Int} (hday : day + 2 ≤ s.now) :
    Kept { s with store := Function.update s.store day none } where
  own := h.own
  agree := h.agree
  stored a ha := by
    by_cases hasked : a.asked = day
    · exact Or.inr (hasked ▸ hday)
    · exact (h.stored a ha).imp_left (Function.update_of_ne hasked none s.store).trans
  cached := h.cached
  waiting := h.waiting
  written i load salt hload hphase := by
    by_cases hloaded : load.day = day
    · exact Or.inr (hloaded ▸ hday)
    · refine (h.written i load salt hload hphase).imp_left fun hsome => ?_
      exact (congrArg Option.isSome (Function.update_of_ne hloaded none s.store)).trans hsome

/-- Answers with the salt that the store holds for their day. -/
theorem OneSalt.answers (h : OneSalt s) (answers : List Answer) {day : Int} {salt : Salt}
    (hanswers : ∀ a ∈ answers, a.asked = day ∧ a.loaded = day ∧ a.salt = salt)
    (hstored : s.store day = some salt) (hnow : s.now < day + 2) :
    OneSalt { s with log := s.log ++ answers } := by
  have hold (a : Answer) (ha : a ∈ s.log) (hday : a.asked = day) : a.salt = salt := by
    rcases h.stored a ha with heq | hlate
    · rw [hday, hstored] at heq
      exact (Option.some.inj heq).symm
    · omega
  have hof (a : Answer) (ha : a ∈ s.log ++ answers) (hday : a.asked = day) : a.salt = salt := by
    rcases List.mem_append.mp ha with ha | ha
    · exact hold a ha hday
    · exact (hanswers a ha).2.2
  refine ⟨fun a ha => ?_, fun a ha b hb hasked => ?_, fun a ha => ?_⟩
  · rcases List.mem_append.mp ha with ha | ha
    · exact h.own a ha
    · obtain ⟨hasked, hloaded, -⟩ := hanswers a ha
      rw [hasked, hloaded]
  · rcases List.mem_append.mp ha with hmem | hmem
    · rcases List.mem_append.mp hb with hmem' | hmem'
      · exact h.agree a hmem b hmem' hasked
      · obtain ⟨hday, -, hsalt⟩ := hanswers b hmem'
        rw [hsalt, hof a ha (hasked.trans hday)]
    · obtain ⟨hday, -, hsalt⟩ := hanswers a hmem
      rw [hsalt, hof b hb (hasked.symm.trans hday)]
  · rcases List.mem_append.mp ha with ha | ha
    · exact h.stored a ha
    · obtain ⟨hasked, -, hsalt⟩ := hanswers a ha
      rw [hasked, hsalt]
      exact Or.inl hstored

/-- A call that finds the salt of its day cached. -/
theorem kept_today (h : Kept s) {i : Nat} {salt : Salt}
    (hcached : cachedFor (s.instances i) s.now = some salt) :
    Kept { s with log := s.log ++ [⟨s.now, s.now, salt⟩] } := by
  rw [cachedFor] at hcached
  split at hcached
  · rename_i hday
    obtain ⟨a, ha, hasked, hsalt⟩ := h.cached i s.now salt hday hcached
    have hstored : s.store s.now = some salt := by
      rcases h.stored a ha with heq | hlate
      · rwa [hasked, hsalt] at heq
      · omega
    have hanswer : ∀ a ∈ [Answer.mk s.now s.now salt],
        a.asked = s.now ∧ a.loaded = s.now ∧ a.salt = salt := by
      intro a ha
      rw [List.mem_singleton.mp ha]
      exact ⟨rfl, rfl, rfl⟩
    have hone := h.toOneSalt.answers _ hanswer hstored (by omega)
    exact
      { own := hone.own
        agree := hone.agree
        stored := hone.stored
        cached := fun j day salt hday hsalt => by
          obtain ⟨a, ha, hboth⟩ := h.cached j day salt hday hsalt
          exact ⟨a, List.mem_append_left _ ha, hboth⟩
        waiting := h.waiting
        written := h.written }
  · cases hcached

/-- A load that settles for calls of its day. -/
theorem kept_settle (h : Kept s) {i : Nat} {load : Load} {salt : Salt}
    (hload : (s.instances i).inFlight = some load) (hnow : s.now < load.day + 2)
    (hasked : ∀ asked ∈ load.waiting, asked = load.day)
    (hstored : s.store load.day = some salt) : Kept (settle s i load salt) := by
  have hanswers : ∀ a ∈ load.waiting.map fun asked => Answer.mk asked load.day salt,
      a.asked = load.day ∧ a.loaded = load.day ∧ a.salt = salt := by
    intro a ha
    obtain ⟨asked, hmem, rfl⟩ := List.mem_map.mp ha
    exact ⟨hasked asked hmem, rfl, rfl⟩
  have hone := h.toOneSalt.answers _ hanswers hstored hnow
  have hinstances (j : Nat) : (settle s i load salt).instances j =
      if j = i then ⟨some load.day, some salt, none⟩ else s.instances j :=
    Function.update_apply _ _ _ _
  refine
    { own := hone.own
      agree := hone.agree
      stored := hone.stored
      cached := fun j day salt' hday hsalt => ?_
      waiting := fun j load' hload' => ?_
      written := fun j load' salt' hload' hphase => ?_ }
  · rw [hinstances] at hday hsalt
    split at hday
    · rename_i hj
      rw [if_pos hj] at hsalt
      obtain rfl := Option.some.inj hday
      obtain rfl := Option.some.inj hsalt
      obtain ⟨asked, hmem⟩ := List.exists_mem_of_ne_nil _ (h.waiting i load hload)
      exact ⟨⟨asked, load.day, salt⟩, List.mem_append_right _ (List.mem_map_of_mem hmem),
        hasked asked hmem, rfl⟩
    · rename_i hj
      rw [if_neg hj] at hsalt
      obtain ⟨a, ha, hboth⟩ := h.cached j day salt' hday hsalt
      exact ⟨a, List.mem_append_left _ ha, hboth⟩
  · rw [hinstances] at hload'
    split at hload'
    · cases hload'
    · exact h.waiting j load' hload'
  · rw [hinstances] at hload'
    split at hload'
    · cases hload'
    · exact h.written j load' salt' hload' hphase

/-- A write of the store, with the salt that was given out where one was. -/
theorem kept_write (h : Kept s) {day : Int} {salt : Salt}
    (hsalt : ∀ a ∈ s.log, a.asked = day → a.salt = salt) :
    Kept { s with store := Function.update s.store day (some salt) } where
  own := h.own
  agree := h.agree
  stored a ha := by
    by_cases hasked : a.asked = day
    · left
      subst hasked
      exact (Function.update_self _ _ _).trans (congrArg some (hsalt a ha rfl).symm)
    · exact (h.stored a ha).imp_left (Function.update_of_ne hasked (some salt) s.store).trans
  cached := h.cached
  waiting := h.waiting
  written i load salt' hload hphase := by
    by_cases hloaded : load.day = day
    · left
      subst hloaded
      exact congrArg Option.isSome (Function.update_self load.day (some salt) s.store)
    · refine (h.written i load salt' hload hphase).imp_left fun hsome => ?_
      exact (congrArg Option.isSome (Function.update_of_ne hloaded (some salt) s.store)).trans hsome

/-- What a write leaves under its day is the salt that was given out, if one was. -/
theorem exists_stored (h : Kept s) {day : Int} {salt : Salt} (hnow : s.now < day + 2)
    (hset : source = .cacheStore → ∀ a ∈ s.log, a.asked = day → a.salt = salt) :
    ∃ salt', stored source s day salt = Function.update s.store day (some salt') ∧
      ∀ a ∈ s.log, a.asked = day → a.salt = salt' := by
  cases source with
  | cacheStore => exact ⟨salt, rfl, hset rfl⟩
  | postgres =>
    cases hrow : s.store day with
    | none =>
      refine ⟨salt, ?_, fun a ha hasked => ?_⟩
      · rw [stored, hrow]
        rfl
      · rcases h.stored a ha with heq | hlate
        · rw [hasked, hrow] at heq
          cases heq
        · omega
    | some row =>
      refine ⟨row, ?_, fun a ha hasked => ?_⟩
      · rw [stored, hrow]
        rfl
      · rcases h.stored a ha with heq | hlate
        · rw [hasked, hrow] at heq
          exact (Option.some.inj heq).symm
        · omega

theorem outcome_stored (h : Kept s) {i : Nat} {load : Load} {salt : Salt}
    (hload : (s.instances i).inFlight = some load) (hnow : s.now < load.day + 2)
    (houtcome : outcome s load = some salt) : s.store load.day = some salt := by
  rw [outcome] at houtcome
  split at houtcome
  · exact houtcome
  · cases houtcome
  · rename_i written hphase
    rcases h.written i load written hload hphase with hsome | hlate
    · obtain ⟨row, hrow⟩ := Option.isSome_iff_exists.mp hsome
      rw [hrow] at houtcome ⊢
      exact houtcome
    · omega

theorem kept_join (h : Kept s) (i : Nat) :
    Kept (setInFlight s i (some (join (s.instances i) s.now))) := by
  refine kept_setInFlight h i (fun load hload => ?_) fun load hload salt hphase => ?_
  · obtain rfl := Option.some.inj hload
    rw [join]
    split
    · exact List.cons_ne_nil _ _
    · exact List.append_ne_nil_of_right_ne_nil _ (List.cons_ne_nil _ _)
  · obtain rfl := Option.some.inj hload
    rw [join] at hphase ⊢
    split at hphase
    · cases hphase
    · rename_i load hload
      exact h.written i load salt hload hphase

theorem kept_step (h : Kept s) {a : Action} (hsound : Sound source s a)
    (hstep : step source s a = some s') : Kept s' := by
  cases a with
  | midnight =>
    obtain rfl := Option.some.inj hstep
    exact kept_midnight h
  | today i =>
    rw [step] at hstep
    split at hstep
    · rename_i salt hcached
      obtain rfl := Option.some.inj hstep
      exact kept_today h hcached
    · obtain rfl := Option.some.inj hstep
      exact kept_join h i
  | load i fresh =>
    rw [step] at hstep
    split at hstep
    · cases hstep
    · rename_i load hload
      obtain ⟨hnow, hasked, hset⟩ := hsound load hload
      split at hstep
      · rename_i salt houtcome
        obtain rfl := Option.some.inj hstep
        exact kept_settle h hload hnow (hasked (by rw [houtcome]; rfl))
          (outcome_stored h hload hnow houtcome)
      · split at hstep
        · rename_i salt hphase
          obtain rfl := Option.some.inj hstep
          obtain ⟨salt', hstored, hgiven⟩ := exists_stored h hnow (hset salt (by rw [hphase]; rfl))
          rw [hstored]
          have hwritten := kept_write h hgiven
          refine kept_setInFlight hwritten i (fun load' hload' => ?_) fun load' hload' _ _ => ?_
          · obtain rfl := Option.some.inj hload'
            exact h.waiting i load hload
          · obtain rfl := Option.some.inj hload'
            left
            exact congrArg Option.isSome (Function.update_self load.day (some salt') s.store)
        · obtain rfl := Option.some.inj hstep
          refine kept_setInFlight h i (fun load' hload' => ?_) fun load' hload' salt hphase => ?_
          · obtain rfl := Option.some.inj hload'
            exact h.waiting i load hload
          · obtain rfl := Option.some.inj hload'
            cases hphase
  | fail i =>
    rw [step] at hstep
    split at hstep
    · cases hstep
    · obtain rfl := Option.some.inj hstep
      exact kept_setInFlight h i (fun _ hnone => by cases hnone) fun _ hnone => by cases hnone
  | drop day =>
    rw [step] at hstep
    split at hstep
    · rename_i hday
      obtain rfl := Option.some.inj hstep
      exact kept_drop h hday
    · cases hstep

end

/-- **In every sound run the calls of a day are answered with one salt**, so that a visitor of
a link has one hash on it. -/
theorem one_salt_a_day (source : Source) (now : Int) (store : Int → Option Salt)
    (actions : List Action) (s : State)
    (hrun : run (step source) (start now store) actions = some s)
    (hguard : Guarded (step source) (Sound source) (start now store) actions) :
    OneSalt s ∧
      ∀ a ∈ s.log, ∀ b ∈ s.log, a.asked = b.asked → ∀ (p : Platform) (ip userAgent linkId : String),
        visitorHash p a.salt ip userAgent linkId = visitorHash p b.salt ip userAgent linkId := by
  have hkept : Kept s := invariant_of_guarded (fun _ _ _ h hsound hstep => kept_step h hsound hstep)
    actions _ s (kept_start now store) hguard hrun
  refine ⟨hkept.toOneSalt, fun a ha b hb hasked p ip userAgent linkId => ?_⟩
  rw [hkept.agree a ha b hb hasked]

/-! ### Races -/

def saltA : Salt := ⟨"a1", by decide⟩

def saltB : Salt := ⟨"b2", by decide⟩

/-- Two cold instances that read the store before either has written. -/
def coldStart : List Action :=
  [.today 0, .today 1, .load 0 saltA, .load 1 saltB, .load 0 saltA, .load 1 saltB,
    .load 0 saltA, .load 1 saltB]

/-- They agree where both have set the key before either reads it again. -/
theorem one_salt_a_day_cold :
    ∃ s, run (step .cacheStore) (start 0 fun _ => none) coldStart = some s ∧ OneSalt s := by
  have hsome : (run (step .cacheStore) (start 0 fun _ => none) coldStart).isSome = true := by
    decide +kernel
  obtain ⟨s, hs⟩ := Option.isSome_iff_exists.mp hsome
  have hguard : Guarded (step .cacheStore) (Sound .cacheStore) (start 0 fun _ => none)
      coldStart := by
    decide +kernel
  exact ⟨s, hs, (one_salt_a_day .cacheStore 0 _ coldStart s hs hguard).1⟩

/-- **A call just after midnight may join the load of the day before.** -/
theorem yesterdays_salt :
    ¬ ∀ (source : Source) (now : Int) (store : Int → Option Salt) (actions : List Action)
      (s : State), run (step source) (start now store) actions = some s → OneSalt s := by
  intro h
  have hown := (h .postgres 0 (fun _ => none)
    [.today 0, .midnight, .today 0, .load 0 saltA, .load 0 saltA, .load 0 saltA] _ rfl).own
  have hlast := hown ⟨1, 0, saltA⟩ (by decide +kernel)
  exact absurd hlast (by decide)

end SnapUrl.Redirect.DailySalt
