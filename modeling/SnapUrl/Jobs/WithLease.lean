import Mathlib.Data.List.Nodup
import Mathlib.Logic.Function.Basic
import SnapUrl.Lib.Run

/-!
# Leases

`withLease` of `apps/worker/src/jobs/lease.ts`: a job that runs only while its name is
leased.

* `step`: any number of passes, for any names.  A statement carries the instant it began
  at, `now()`, and takes effect at some later one.
* `Inv`: a lease that has not lapsed stands in the table under its holder.
* `leases_hold`: **no two passes hold an unexpired lease of one name, only its holder's
  own release touches it, and whoever was taken over from changes nothing.**
-/

namespace SnapUrl.Jobs.WithLease

open Lib

/-! ### Passes -/

/-- A row of `job_leases`, under its name.  Instants count microseconds. -/
structure Lease where
  lockedUntil : Int
  holder : Option String
  acquiredAt : Option Int
deriving DecidableEq, Repr

/-- A token unique to one acquisition: the tag of the process, and a fresh UUID. -/
def holderToken (processTag uuid : String) : String := processTag ++ ":" ++ uuid

inductive Phase where
  /-- The insert is on its way. -/
  | started (now : Int)
  /-- `{ acquired: false }`. -/
  | refused
  /-- The insert raised, or its answer was lost. -/
  | failed
  | running
  /-- The job has returned or thrown, and the release is on its way. -/
  | releasing (now : Int) (thrown : Bool)
  | over (thrown : Bool)
  | crashed
deriving DecidableEq, Repr

/-- One call of `withLease`. -/
structure Pass where
  name : String
  holder : String
  /-- `ttlSeconds`, in microseconds. -/
  ttl : Int
  /-- How long the lease runs that the pass took and has not released. -/
  lease : Option Int
  phase : Phase
deriving DecidableEq, Repr

structure State where
  table : String → Option Lease
  passes : List Pass
  now : Int

def start (now : Int) : State := ⟨fun _ => none, [], now⟩

/-- What a pass does next, or what happens to it. -/
inductive Turn where
  /-- The insert takes effect; its answer may be lost. -/
  | acquires (heard : Bool)
  | insertFails
  | finishes (thrown : Bool)
  | releases
  /-- The release raises, which is swallowed. -/
  | releaseFails
  | crashes
deriving DecidableEq, Repr

inductive Action where
  | begins (name processTag uuid : String) (ttl : Int)
  /-- The `i`th pass takes a turn. -/
  | turns (i : Nat) (turn : Turn)
  | ticks (microseconds : Nat)
deriving DecidableEq, Repr

/-- There is no such lease, or `locked_until < now()`. -/
def free (row : Option Lease) (now : Int) : Bool := row.all (·.lockedUntil < now)

/-- The update of a release: `where name = … and holder = …`. -/
def released (row : Option Lease) (holder : String) (now : Int) : Option Lease :=
  row.map fun r => if r.holder = some holder then ⟨now, none, r.acquiredAt⟩ else r

/-- What a turn makes of a pass, and of the row of its name. -/
def act (row : Option Lease) (now : Int) (pass : Pass) : Turn → Option (Pass × Option Lease)
  | .acquires heard =>
    match pass.phase with
    | .started t =>
      if free row t then
        let lockedUntil := t + pass.ttl
        some ({ pass with lease := some lockedUntil, phase := if heard then .running else .failed },
          some ⟨lockedUntil, some pass.holder, some t⟩)
      else some ({ pass with phase := if heard then .refused else .failed }, row)
    | _ => none
  | .insertFails =>
    match pass.phase with
    | .started _ => some ({ pass with phase := .failed }, row)
    | _ => none
  | .finishes thrown =>
    match pass.phase with
    | .running => some ({ pass with phase := .releasing now thrown }, row)
    | _ => none
  | .releases =>
    match pass.phase with
    | .releasing t thrown =>
      some ({ pass with lease := none, phase := .over thrown }, released row pass.holder t)
    | _ => none
  | .releaseFails =>
    match pass.phase with
    | .releasing _ thrown => some ({ pass with phase := .over thrown }, row)
    | _ => none
  | .crashes => some ({ pass with phase := .crashed }, row)

def step (s : State) : Action → Option State
  | .begins name processTag uuid ttl =>
    some { s with
      passes := s.passes ++ [⟨name, holderToken processTag uuid, ttl, none, .started s.now⟩] }
  | .turns i turn => do
    let pass ← s.passes[i]?
    let (pass', row) ← act (s.table pass.name) s.now pass turn
    some
      { table := Function.update s.table pass.name row
        passes := s.passes.set i pass'
        now := s.now }
  | .ticks microseconds => some { s with now := s.now + microseconds }

/-! ### What is claimed of it -/

/-- The pass has a lease that has not lapsed. -/
def Pass.Holds (x : Pass) (now : Int) : Prop := ∃ until_ ∈ x.lease, now ≤ until_

/-- The lease in the table is the pass's own. -/
def Pass.Owns (x : Pass) (table : String → Option Lease) (until_ : Int) : Prop :=
  ∃ row ∈ table x.name, row.holder = some x.holder ∧ row.lockedUntil = until_

/-- The table has another holder's lease, or none, under the pass's name. -/
def Pass.TakenOver (x : Pass) (table : String → Option Lease) : Prop :=
  ∀ row ∈ table x.name, row.holder ≠ some x.holder

structure LeasesHold (s : State) : Prop where
  /-- No two passes hold an unexpired lease of one name. -/
  exclusive : ∀ (i j : Nat) (x y : Pass), s.passes[i]? = some x → s.passes[j]? = some y →
    x.name = y.name → x.Holds s.now → y.Holds s.now → i = j
  /-- Nothing but its holder's own release touches an unexpired lease. -/
  untouched : ∀ (i : Nat) (x : Pass) a s', s.passes[i]? = some x → x.Holds s.now →
    step s a = some s' → a ≠ .turns i .releases → s'.table x.name = s.table x.name
  /-- A release gives the pass's own lease back and no other, its job returned or thrown. -/
  frees : ∀ (i : Nat) (x : Pass) t thrown until_ s', s.passes[i]? = some x →
    x.phase = .releasing t thrown → x.Owns s.table until_ →
    step s (.turns i .releases) = some s' →
    (∃ row ∈ s'.table x.name, row.holder = none ∧ row.lockedUntil = t) ∧
      ∀ name ≠ x.name, s'.table name = s.table name
  /-- Whoever was taken over from releases and extends nothing, however its job ended. -/
  harmless : ∀ (i : Nat) (x : Pass) turn s', s.passes[i]? = some x → x.TakenOver s.table →
    (∀ t, x.phase ≠ .started t) → step s (.turns i turn) = some s' → s'.table = s.table

/-! ### What every step keeps -/

/-- The tokens of the passes are distinct. -/
def Distinct (s : State) : Prop := (s.passes.map (·.holder)).Nodup

/-- A lease that has not lapsed stands in the table under its holder. -/
structure Inv (s : State) : Prop where
  began : ∀ x ∈ s.passes, ∀ t, x.phase = .started t → t ≤ s.now
  owned : ∀ x ∈ s.passes, ∀ until_ ∈ x.lease, until_ < s.now ∨ x.Owns s.table until_

theorem inv_start (now : Int) : Inv (start now) where
  began := by simp [start]
  owned := by simp [start]

section

variable {s s' : State} {a : Action} {i : Nat} {x y : Pass} {turn : Turn} {row row' : Option Lease}
  {now : Int}

/-- **What a turn does to the lease.**  It leaves row and lease alone, takes a free row, or
gives its own row back. -/
theorem act_cases (h : act row now x turn = some (y, row')) :
    y.name = x.name ∧ y.holder = x.holder ∧ (∀ t, y.phase ≠ .started t) ∧
      (row' = row ∧ y.lease = x.lease ∨
        (∃ t, x.phase = .started t ∧ free row t = true ∧ y.lease = some (t + x.ttl) ∧
          row' = some ⟨t + x.ttl, some x.holder, some t⟩) ∨
        ∃ t, turn = .releases ∧ y.lease = none ∧ row' = released row x.holder t) := by
  cases turn with
  | acquires heard =>
    simp only [act] at h
    split at h
    · rename_i t hphase
      split at h
      · rename_i hfree
        obtain ⟨rfl, rfl⟩ := Prod.mk.inj (Option.some.inj h)
        refine ⟨rfl, rfl, ?_, Or.inr (Or.inl ⟨t, hphase, hfree, rfl, rfl⟩)⟩
        cases heard <;> simp
      · obtain ⟨rfl, rfl⟩ := Prod.mk.inj (Option.some.inj h)
        refine ⟨rfl, rfl, ?_, Or.inl ⟨rfl, rfl⟩⟩
        cases heard <;> simp
    · exact absurd h (by simp)
  | insertFails =>
    simp only [act] at h
    split at h
    · obtain ⟨rfl, rfl⟩ := Prod.mk.inj (Option.some.inj h)
      exact ⟨rfl, rfl, by simp, Or.inl ⟨rfl, rfl⟩⟩
    · exact absurd h (by simp)
  | finishes thrown =>
    simp only [act] at h
    split at h
    · obtain ⟨rfl, rfl⟩ := Prod.mk.inj (Option.some.inj h)
      exact ⟨rfl, rfl, by simp, Or.inl ⟨rfl, rfl⟩⟩
    · exact absurd h (by simp)
  | releases =>
    simp only [act] at h
    split at h
    · rename_i t thrown _
      obtain ⟨rfl, rfl⟩ := Prod.mk.inj (Option.some.inj h)
      exact ⟨rfl, rfl, by simp, Or.inr (Or.inr ⟨t, rfl, rfl, rfl⟩)⟩
    · exact absurd h (by simp)
  | releaseFails =>
    simp only [act] at h
    split at h
    · obtain ⟨rfl, rfl⟩ := Prod.mk.inj (Option.some.inj h)
      exact ⟨rfl, rfl, by simp, Or.inl ⟨rfl, rfl⟩⟩
    · exact absurd h (by simp)
  | crashes =>
    obtain ⟨rfl, rfl⟩ := Prod.mk.inj (Option.some.inj h)
    exact ⟨rfl, rfl, by simp, Or.inl ⟨rfl, rfl⟩⟩

theorem step_turns (h : step s (.turns i turn) = some s') :
    ∃ x y row, s.passes[i]? = some x ∧ act (s.table x.name) s.now x turn = some (y, row) ∧
      s' = ⟨Function.update s.table x.name row, s.passes.set i y, s.now⟩ := by
  simp only [step, Option.bind_eq_bind, Option.bind_eq_some_iff, Option.some.injEq] at h
  obtain ⟨x, hx, ⟨y, row⟩, hact, rfl⟩ := h
  exact ⟨x, y, row, hx, hact, rfl⟩

/-- A release leaves every row alone that another holder has. -/
theorem released_of_ne {holder : String} (t : Int) (h : ∀ r ∈ row, r.holder ≠ some holder) :
    released row holder t = row := by
  cases row with
  | none => rfl
  | some r => exact congrArg some (if_neg (h r rfl))

/-! ### Tokens -/

def Action.token : Action → Option String
  | .begins _ processTag uuid _ => some (holderToken processTag uuid)
  | _ => none

theorem tokens_step (h : step s a = some s') :
    s'.passes.map (·.holder) = s.passes.map (·.holder) ++ a.token.toList := by
  cases a with
  | begins name processTag uuid ttl =>
    rw [← Option.some.inj h, List.map_append]
    rfl
  | turns i turn =>
    obtain ⟨x, y, row, hx, hact, rfl⟩ := step_turns h
    obtain ⟨-, hholder, -⟩ := act_cases hact
    obtain ⟨pre, post, hsplit, hset⟩ := exists_split_of_getElem? hx
    rw [hset, hsplit, List.map_append, List.map_append, List.map_cons, List.map_cons, hholder]
    exact (List.append_nil _).symm
  | ticks microseconds =>
    rw [← Option.some.inj h]
    exact (List.append_nil _).symm

theorem tokens_run {as : List Action} (h : run step s as = some s') :
    s'.passes.map (·.holder) = s.passes.map (·.holder) ++ as.filterMap Action.token := by
  induction as generalizing s with
  | nil =>
    rw [← Option.some.inj h]
    exact (List.append_nil _).symm
  | cons a as ih =>
    obtain ⟨t, ht, hrun⟩ := run_cons_eq_some.mp h
    rw [ih hrun, tokens_step ht, List.append_assoc, List.filterMap_cons]
    cases a.token <;> rfl

theorem Distinct.of_step (h : Distinct s') (hs : step s a = some s') : Distinct s := by
  rw [Distinct, tokens_step hs] at h
  exact h.of_append_left

/-- Two passes with one token are one pass. -/
theorem Distinct.index_eq (h : Distinct s) {j : Nat} (hx : s.passes[i]? = some x)
    (hy : s.passes[j]? = some y) (hholder : x.holder = y.holder) : i = j := by
  obtain ⟨hi, -⟩ := List.getElem?_eq_some_iff.mp hx
  have hmapped : i < (s.passes.map (·.holder)).length := by
    rw [List.length_map]
    exact hi
  refine (List.getElem?_inj hmapped h).mp ?_
  rw [List.getElem?_map, List.getElem?_map, hx, hy, Option.map_some, Option.map_some, hholder]

/-! ### Steps -/

/-- What stays of a lease when another pass takes a turn. -/
theorem owns_update {until_ : Int} (hinv : Inv s) (hx : x ∈ s.passes)
    (hact : act (s.table x.name) s.now x turn = some (y, row)) {z : Pass}
    (hne : z.holder ≠ x.holder) (hz : until_ < s.now ∨ z.Owns s.table until_) :
    until_ < s.now ∨ z.Owns (Function.update s.table x.name row) until_ := by
  rcases hz with hz | ⟨r, hr, hholder, huntil⟩
  · exact Or.inl hz
  by_cases hname : z.name = x.name
  · obtain ⟨-, -, -, hcases⟩ := act_cases hact
    rw [hname] at hr
    rcases hcases with ⟨rfl, -⟩ | ⟨t, hphase, hfree, -, -⟩ | ⟨t, -, -, rfl⟩
    · exact Or.inr ⟨r, by rwa [hname, Function.update_self], hholder, huntil⟩
    · -- the row was free, so the lease had lapsed
      rw [free, Option.mem_def.mp hr, Option.all_some, decide_eq_true_eq] at hfree
      have hle := hinv.began x hx t hphase
      exact Or.inl (by omega)
    · have hother : ∀ r' ∈ s.table x.name, r'.holder ≠ some x.holder := by
        intro r' hr' heq
        obtain rfl := Option.mem_unique hr hr'
        exact hne (Option.some.inj (hholder.symm.trans heq))
      rw [released_of_ne t hother]
      exact Or.inr ⟨r, by rwa [hname, Function.update_self], hholder, huntil⟩
  · exact Or.inr ⟨r, by rwa [Function.update_of_ne hname], hholder, huntil⟩

/-- What stays of a pass's own lease when it takes a turn. -/
theorem owns_self {until_ : Int} (hinv : Inv s) (hx : x ∈ s.passes)
    (hact : act (s.table x.name) s.now x turn = some (y, row)) (hlease : until_ ∈ y.lease) :
    until_ < s.now ∨ y.Owns (Function.update s.table x.name row) until_ := by
  obtain ⟨hname, hholder, -, hcases⟩ := act_cases hact
  rcases hcases with ⟨rfl, hsame⟩ | ⟨t, -, -, hnew, rfl⟩ | ⟨t, -, hnone, -⟩
  · rw [hsame] at hlease
    refine (hinv.owned x hx until_ hlease).imp_right fun ⟨r, hr, hrholder, huntil⟩ => ?_
    exact ⟨r, by rwa [hname, Function.update_self], hrholder.trans (by rw [hholder]), huntil⟩
  · rw [hnew, Option.mem_some_iff] at hlease
    exact Or.inr ⟨_, by rw [hname, Function.update_self]; rfl, by rw [hholder], hlease⟩
  · rw [hnone] at hlease
    exact absurd hlease (by simp)

/-- **Every step keeps the invariant**, while the tokens are distinct. -/
theorem inv_step (hinv : Inv s) (hdistinct : Distinct s) (h : step s a = some s') : Inv s' := by
  cases a with
  | begins name processTag uuid ttl =>
    rw [← Option.some.inj h]
    constructor
    · intro x hx t hphase
      rcases List.mem_append.mp hx with hx | hx
      · exact hinv.began x hx t hphase
      · rw [List.mem_singleton.mp hx, Phase.started.injEq] at hphase
        exact Int.le_of_eq hphase.symm
    · intro x hx until_ hlease
      rcases List.mem_append.mp hx with hx | hx
      · exact hinv.owned x hx until_ hlease
      · rw [List.mem_singleton.mp hx] at hlease
        exact absurd hlease (by simp)
  | turns i turn =>
    obtain ⟨x, y, row, hx, hact, rfl⟩ := step_turns h
    have hmem : x ∈ s.passes := List.mem_of_getElem? hx
    constructor
    · intro z hz t hphase
      rcases List.mem_or_eq_of_mem_set hz with hz | rfl
      · exact hinv.began z hz t hphase
      · exact absurd hphase ((act_cases hact).2.2.1 t)
    · intro z hz until_ hlease
      obtain ⟨j, hj⟩ := List.getElem?_of_mem hz
      rw [List.getElem?_set] at hj
      split at hj
      · split at hj
        · obtain rfl := Option.some.inj hj
          exact owns_self hinv hmem hact hlease
        · exact absurd hj (by simp)
      · rename_i hij
        refine owns_update hinv hmem hact (fun heq => hij ?_)
          (hinv.owned z (List.mem_of_getElem? hj) until_ hlease)
        exact hdistinct.index_eq hx hj heq.symm
  | ticks microseconds =>
    rw [← Option.some.inj h]
    constructor
    · intro x hx t hphase
      have hle := hinv.began x hx t hphase
      dsimp only
      omega
    · intro x hx until_ hlease
      refine (hinv.owned x hx until_ hlease).imp_left fun hlt => ?_
      dsimp only
      omega

/-! ### What the invariant says -/

theorem Inv.exclusive (hinv : Inv s) (hdistinct : Distinct s) {j : Nat}
    (hx : s.passes[i]? = some x) (hy : s.passes[j]? = some y) (hname : x.name = y.name)
    (hxholds : x.Holds s.now) (hyholds : y.Holds s.now) : i = j := by
  obtain ⟨u, hu, hule⟩ := hxholds
  obtain ⟨v, hv, hvle⟩ := hyholds
  obtain ⟨r, hr, hrholder, -⟩ :=
    (hinv.owned x (List.mem_of_getElem? hx) u hu).resolve_left (Int.not_lt.mpr hule)
  obtain ⟨r', hr', hrholder', -⟩ :=
    (hinv.owned y (List.mem_of_getElem? hy) v hv).resolve_left (Int.not_lt.mpr hvle)
  rw [hname] at hr
  obtain rfl := Option.mem_unique hr hr'
  exact hdistinct.index_eq hx hy (Option.some.inj (hrholder.symm.trans hrholder'))

theorem Inv.untouched (hinv : Inv s) (hdistinct : Distinct s) (hx : s.passes[i]? = some x)
    (hholds : x.Holds s.now) (h : step s a = some s') (hother : a ≠ .turns i .releases) :
    s'.table x.name = s.table x.name := by
  obtain ⟨u, hu, hule⟩ := hholds
  obtain ⟨r, hr, hrholder, hruntil⟩ :=
    (hinv.owned x (List.mem_of_getElem? hx) u hu).resolve_left (Int.not_lt.mpr hule)
  cases a with
  | begins name processTag uuid ttl => rw [← Option.some.inj h]
  | ticks microseconds => rw [← Option.some.inj h]
  | turns j turn =>
    obtain ⟨y, y', row, hy, hact, rfl⟩ := step_turns h
    by_cases hname : x.name = y.name
    · dsimp only
      rw [hname, Function.update_self]
      rw [hname] at hr
      obtain ⟨-, -, -, hcases⟩ := act_cases hact
      rcases hcases with ⟨rfl, -⟩ | ⟨t, hphase, hfree, -, -⟩ | ⟨t, rfl, -, rfl⟩
      · rfl
      · rw [free, Option.mem_def.mp hr, Option.all_some, decide_eq_true_eq] at hfree
        have hle := hinv.began y (List.mem_of_getElem? hy) t hphase
        omega
      · refine released_of_ne t fun r' hr' heq => hother ?_
        obtain rfl := Option.mem_unique hr hr'
        rw [hdistinct.index_eq hx hy (Option.some.inj (hrholder.symm.trans heq))]
    · exact Function.update_of_ne hname _ _

theorem frees_of_owns {t until_ : Int} {thrown : Bool} (hx : s.passes[i]? = some x)
    (hphase : x.phase = .releasing t thrown) (howns : x.Owns s.table until_)
    (h : step s (.turns i .releases) = some s') :
    (∃ row ∈ s'.table x.name, row.holder = none ∧ row.lockedUntil = t) ∧
      ∀ name ≠ x.name, s'.table name = s.table name := by
  obtain ⟨z, y, row, hz, hact, rfl⟩ := step_turns h
  obtain rfl := Option.some.inj (hx.symm.trans hz)
  refine ⟨?_, fun name hne => Function.update_of_ne hne _ _⟩
  obtain ⟨r, hr, hholder, -⟩ := howns
  simp only [act, hphase, Option.some.injEq, Prod.mk.injEq] at hact
  refine ⟨⟨t, none, r.acquiredAt⟩, ?_, rfl, rfl⟩
  dsimp only
  rw [Function.update_self, ← hact.2, Option.mem_def.mp hr]
  exact congrArg some (if_pos hholder)

theorem harmless_of_takenOver (hx : s.passes[i]? = some x) (hover : x.TakenOver s.table)
    (hstarted : ∀ t, x.phase ≠ .started t) (h : step s (.turns i turn) = some s') :
    s'.table = s.table := by
  obtain ⟨z, y, row, hz, hact, rfl⟩ := step_turns h
  obtain rfl := Option.some.inj (hx.symm.trans hz)
  obtain ⟨-, -, -, hcases⟩ := act_cases hact
  rcases hcases with ⟨rfl, -⟩ | ⟨t, hphase, -⟩ | ⟨t, -, -, rfl⟩
  · exact Function.update_eq_self _ _
  · exact absurd hphase (hstarted t)
  · dsimp only
    rw [released_of_ne t hover]
    exact Function.update_eq_self _ _

end

/-! ### The result -/

/-- The UUID a pass draws. -/
def Action.uuid : Action → Option String
  | .begins _ _ uuid _ => some uuid
  | _ => none

/-- Tokens of UUIDs of one length are distinct when the UUIDs are, whatever the tags. -/
theorem holderToken_inj {tag tag' uuid uuid' : String}
    (hlength : uuid.toList.length = uuid'.toList.length)
    (h : holderToken tag uuid = holderToken tag' uuid') : uuid = uuid' := by
  have hlist := congrArg String.toList h
  simp only [holderToken, String.toList_append] at hlist
  exact String.toList_injective (List.append_inj_right' hlist hlength)

theorem nodup_tokens {as : List Action}
    (hlength : ∀ u ∈ as.filterMap Action.uuid, u.length = 36)
    (hfresh : (as.filterMap Action.uuid).Nodup) : (as.filterMap Action.token).Nodup := by
  induction as with
  | nil => exact List.nodup_nil
  | cons a as ih =>
    cases a with
    | begins name processTag uuid ttl =>
      have hcons : (Action.begins name processTag uuid ttl :: as).filterMap Action.uuid =
          uuid :: as.filterMap Action.uuid := rfl
      rw [hcons] at hlength hfresh
      obtain ⟨hnew, hrest⟩ := List.nodup_cons.mp hfresh
      refine List.nodup_cons.mpr ⟨fun hmem => hnew ?_,
        ih (fun u hu => hlength u (List.mem_cons_of_mem _ hu)) hrest⟩
      obtain ⟨b, hb, htoken⟩ := List.mem_filterMap.mp hmem
      cases b with
      | begins name' processTag' uuid' ttl' =>
        have hmem' : uuid' ∈ as.filterMap Action.uuid :=
          List.mem_filterMap.mpr ⟨_, hb, rfl⟩
        have hlength' : uuid'.toList.length = uuid.toList.length :=
          (hlength uuid' (List.mem_cons_of_mem _ hmem')).trans
            (hlength uuid (List.mem_cons_self ..)).symm
        exact holderToken_inj hlength' (Option.some.inj htoken) ▸ hmem'
      | turns i turn => exact absurd htoken (by simp [Action.token])
      | ticks microseconds => exact absurd htoken (by simp [Action.token])
    | turns i turn => exact ih hlength hfresh
    | ticks microseconds => exact ih hlength hfresh

/-- **Leases hold in every run** of any number of passes: no two passes hold an unexpired
lease of one name, only its holder's own release touches it, a release gives back its own
lease however the job ended, and whoever was taken over from changes nothing. -/
theorem leases_hold (now : Int) (as : List Action)
    (hlength : ∀ u ∈ as.filterMap Action.uuid, u.length = 36)
    (hfresh : (as.filterMap Action.uuid).Nodup) (s : State)
    (hrun : run step (start now) as = some s) : LeasesHold s := by
  have hdistinct : Distinct s := by
    rw [Distinct, tokens_run hrun]
    exact nodup_tokens hlength hfresh
  have hinv : Distinct s → Inv s := by
    refine invariant_of_run (I := fun s => Distinct s → Inv s) (fun t a t' hi hs hd => ?_) as
      (start now) s (fun _ => inv_start now) hrun
    exact inv_step (hi (hd.of_step hs)) (hd.of_step hs) hs
  exact ⟨fun i j x y hx hy hname => (hinv hdistinct).exclusive hdistinct hx hy hname,
    fun i x a s' hx hholds h hother => (hinv hdistinct).untouched hdistinct hx hholds h hother,
    fun i x t thrown until_ s' hx hphase howns h => frees_of_owns hx hphase howns h,
    fun i x turn s' hx hover hstarted h => harmless_of_takenOver hx hover hstarted h⟩

/-- A slow holder: its lease of two seconds lapses, another pass takes over, and only then
the first one throws and releases. -/
def slowRun : List Action :=
  [.begins "click_events_prune_retention" "worker:1" "00000000-0000-4000-8000-000000000001"
      2000000,
    .turns 0 (.acquires true), .ticks 3000000,
    .begins "click_events_prune_retention" "worker:1" "00000000-0000-4000-8000-000000000002"
      2000000,
    .turns 1 (.acquires true), .turns 0 (.finishes true), .turns 0 .releases, .ticks 1000000]

theorem leases_hold_slowRun : ∃ s, run step (start 0) slowRun = some s ∧ LeasesHold s := by
  have hsome : (run step (start 0) slowRun).isSome = true := by decide +kernel
  obtain ⟨s, hs⟩ := Option.isSome_iff_exists.mp hsome
  exact ⟨s, hs, leases_hold 0 slowRun (by decide +kernel) (by decide +kernel) s hs⟩

end SnapUrl.Jobs.WithLease
