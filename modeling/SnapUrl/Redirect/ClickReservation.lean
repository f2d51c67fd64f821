import SnapUrl.Lib.Run
import SnapUrl.Redirect.Gate

/-!
# The click-limit counter

`apps/redirect/src/click-reservation.ts`: visitors of a link with a click limit
reserve on one row, in any order.  A visit arrives with the link as its cache has
it, may reserve, and finishes with what `handle` answers; the rollup may create
the row meanwhile.

* `reserve`: the one-statement conditional update.
* `CountsRouted`: the counter counts the visits that are routed, no more than the
  limit is, and only a full counter refuses.
* `guarded_countsRouted`: **so it is in every run in which a visit reserves only
  once nothing but routing is left, or finds the counter full**.
* `locked_visit_uses_up_the_limit`: a visitor who never unlocks the link still
  takes a place, and the next one is refused.
-/

namespace SnapUrl.Redirect

open Lib Domain

/-! ### The statement -/

/-- The atomic reserve on the `reserved` column, none while the row is not there:
the column afterwards, and whether a row came back. -/
def reserve (counter : Option Int) (limit : Int) : Option Int × Bool :=
  -- the SELECT of the INSERT is empty
  if limit < 1 then (counter, false)
  else
    match counter with
    | none => (some 1, true)
    | some reserved => if reserved < limit then (some (reserved + 1), true) else (counter, false)

/-- **What one reserve does.**  It is granted and counted, or the counter is full. -/
theorem reserve_cases {counter : Option Int} (limit : Int) (h : 0 ≤ counter.getD 0) :
    reserve counter limit = (some (counter.getD 0 + 1), true) ∧ counter.getD 0 < limit ∨
      reserve counter limit = (counter, false) ∧ limit ≤ counter.getD 0 := by
  by_cases hlimit : limit < 1
  · exact Or.inr ⟨if_pos hlimit, by omega⟩
  · rw [reserve.eq_def, if_neg hlimit]
    cases counter with
    | none =>
      refine Or.inl ⟨rfl, ?_⟩
      rw [Option.getD_none]
      omega
    | some reserved =>
      by_cases hroom : reserved < limit
      · exact Or.inl ⟨if_pos hroom, hroom⟩
      · exact Or.inr ⟨if_neg hroom, Int.not_lt.mp hroom⟩

/-! ### Visits -/

/-- A visit with what its cache, its clock and the salt store answer it. -/
structure Visit where
  req : Request
  now : Int
  link : ResolvedLink
  salt : Option String
  /-- The reservation's verdict, once there is one. -/
  verdict : Option Bool
  /-- How the visit ended, once it has. -/
  exit : Option Exit
deriving DecidableEq, Repr

structure World where
  /-- The `reserved` column of the link's row. -/
  counter : Option Int
  visits : List Visit
deriving DecidableEq, Repr

inductive Action where
  | arrive (req : Request) (now : Int) (link : ResolvedLink) (salt : Option String)
  | reserve (i : Nat)
  | finish (i : Nat)
  /-- The rollup creates the row if it is not there. -/
  | rollup
deriving DecidableEq, Repr

/-- What the handler is answered. -/
def Visit.answers (v : Visit) : Answers where
  now := v.now
  link := some v.link
  domain := none
  reservation := (v.verdict.map Reservation.ok).getD .unavailable
  salt := v.salt

/-- What the handler does with the visit. -/
def Visit.result (p : Platform) (cfg : Config) (v : Visit) : Exit :=
  (handle p cfg v.req v.answers).exit

/-- Whether the handler asks for a reservation on this visit. -/
def Visit.needs (p : Platform) (v : Visit) : Bool :=
  !endsWith v.req.rawSlug "+" && needsReservation v.link (gateFor p v.link v.now)

/-- Whether nothing but routing is left once the gate is open. -/
def Visit.clear (p : Platform) (cfg : Config) (v : Visit) : Bool :=
  (!v.link.hasPassword || unlocked p cfg v.req v.link) && v.salt.isSome

def Visit.isRouted (v : Visit) : Bool := v.exit.any Exit.isRouted

/-- A granted reservation whose visit is not finished. -/
def Visit.inFlight (v : Visit) : Bool := v.verdict = some true && v.exit.isNone

def World.start : World := ⟨none, []⟩

def World.reserved (w : World) : Int := w.counter.getD 0

def World.routed (w : World) : Nat := w.visits.countP Visit.isRouted

def World.inFlight (w : World) : Nat := w.visits.countP Visit.inFlight

/-- One step of a link whose click limit is `limit`. -/
def step (p : Platform) (cfg : Config) (limit : Int) (w : World) : Action → Option World
  | .arrive req now link salt =>
    if link.clickLimit = some limit then
      some { w with visits := w.visits ++ [⟨req, now, link, salt, none, none⟩] }
    else none
  | .reserve i =>
    match w.visits[i]? with
    | none => none
    | some v =>
      if v.needs p ∧ v.verdict = none ∧ v.exit = none then
        let r := Redirect.reserve w.counter limit
        some ⟨r.1, w.visits.set i { v with verdict := some r.2 }⟩
      else none
  | .finish i =>
    match w.visits[i]? with
    | none => none
    | some v =>
      if v.exit = none ∧ (v.needs p → v.verdict ≠ none) then
        some { w with visits := w.visits.set i { v with exit := some (v.result p cfg) } }
      else none
  | .rollup => some { w with counter := some w.reserved }

/-- A visit reserves only when nothing but routing is left, or when the counter is full. -/
def Unwasted (p : Platform) (cfg : Config) (limit : Int) (w : World) : Action → Prop
  | .reserve i => ∀ v ∈ w.visits[i]?, v.clear p cfg = true ∨ limit ≤ w.reserved
  | _ => True

instance (p : Platform) (cfg : Config) (limit : Int) (w : World) :
    ∀ a, Decidable (Unwasted p cfg limit w a)
  | .reserve i => inferInstanceAs (Decidable (∀ v ∈ w.visits[i]?, _ ∨ _))
  | .arrive .. => isTrue trivial
  | .finish _ => isTrue trivial
  | .rollup => isTrue trivial

/-! ### What holds of every visit -/

section Visits

variable {p : Platform} {cfg : Config} {limit : Int} {v : Visit}

theorem needs_of_clickLimit (hlimit : v.link.clickLimit = some limit)
    (hplain : endsWith v.req.rawSlug "+" = false) (h : gateFor p v.link v.now = none) :
    v.needs p = true := by
  simp [Visit.needs, needsReservation, hplain, h, hlimit]

/-- A visit that needs a reservation is routed when it is granted and clear. -/
theorem result_isRouted (hneeds : v.needs p = true) (hgranted : v.verdict = some true)
    (hclear : v.clear p cfg = true) : (v.result p cfg).isRouted = true := by
  simp only [Visit.needs, Bool.and_eq_true, Bool.not_eq_true'] at hneeds
  simp only [Visit.clear, Bool.and_eq_true, Bool.or_eq_true, Bool.not_eq_true'] at hclear
  refine (handle_routed_iff v.answers).mpr ⟨hneeds.1, v.link, rfl, ?_, ?_, hclear.2⟩
  · rw [PassesGate, Visit.answers, if_pos hneeds.2]
    left
    simp [hgranted]
  · intro hpassword
    rcases hclear.1 with h | h
    · exact absurd hpassword (by simp [h])
    · exact h

/-- **A visit of a limited link is routed with a reservation or not at all.** -/
theorem verdict_of_result_isRouted (hlimit : v.link.clickLimit = some limit)
    (hready : v.needs p = true → v.verdict ≠ none) (h : (v.result p cfg).isRouted = true) :
    v.verdict = some true := by
  obtain ⟨hplain, link, hlink, hpasses, _⟩ := (handle_routed_iff v.answers).mp h
  obtain rfl : v.link = link := Option.mem_some_iff.mp hlink
  have hneeds : v.needs p = true := by
    rcases passesGate_cases hpasses with hnone | ⟨hcount, _⟩
    · exact needs_of_clickLimit hlimit hplain hnone
    · rw [Visit.needs, hplain, show gateFor p v.link v.now = some .click_limit from hcount]
      exact needsReservation_click_limit (holds_of_effectiveGate hcount)
  have hneeds' : needsReservation v.link (gateFor p v.link v.answers.now) = true := by
    simp only [Visit.needs, Bool.and_eq_true] at hneeds
    exact hneeds.2
  rw [PassesGate, if_pos hneeds'] at hpasses
  cases hverdict : v.verdict with
  | none => exact absurd hverdict (hready hneeds)
  | some granted =>
    rcases hpasses with hok | ⟨hunavailable, _⟩
    · simpa [Visit.answers, hverdict] using hok
    · simp [Visit.answers, hverdict] at hunavailable

/-- The click-limit page is the answer to a reservation that was not granted. -/
theorem verdict_of_result_click_limit {retryAfter : Option Int}
    (hready : v.needs p = true → v.verdict ≠ none)
    (h : v.result p cfg = .errorPage .click_limit retryAfter) : v.verdict = some false := by
  obtain ⟨hplain, link, hlink, hgate⟩ := gate_of_handle_click_limit h
  obtain rfl : v.link = link := Option.mem_some_iff.mp hlink
  have hneeds : v.needs p = needsReservation v.link (gateFor p v.link v.answers.now) := by
    rw [Visit.needs, hplain]
    rfl
  rcases hgate with ⟨hneeded, hsettled⟩ | ⟨hneeded, hlimit⟩
  · cases hverdict : v.verdict with
    | none => exact absurd hverdict (hready (hneeds.trans hneeded))
    | some granted =>
      cases granted with
      | false => rfl
      | true => simp [Visit.answers, hverdict, settle] at hsettled
  · rw [hlimit, needsReservation_click_limit (holds_of_effectiveGate hlimit)] at hneeded
    exact absurd hneeded (by simp)

end Visits

/-! ### The counter over a run -/

/-- **The counter is exact.** -/
structure CountsRouted (p : Platform) (cfg : Config) (limit : Int) (w : World) : Prop where
  /-- Everything counted was routed, or is routed once it finishes. -/
  counts : w.reserved = w.routed + w.inFlight
  granted : ∀ v ∈ w.visits, v.verdict = some true → (v.result p cfg).isRouted = true
  bound : (w.routed : Int) ≤ max limit 0
  /-- Only a full counter refuses. -/
  refused : ∀ v ∈ w.visits, v.verdict = some false → limit ≤ w.reserved
  page : ∀ v ∈ w.visits, ∀ retryAfter, v.exit = some (.errorPage .click_limit retryAfter) →
    v.verdict = some false
  /-- A visit that ends otherwise took no place. -/
  unrouted : ∀ v ∈ w.visits, ∀ e, v.exit = some e → e.isRouted = false → v.verdict ≠ some true

/-- What a run keeps besides: the visits are of the limited link, end as the handler
says, and the counter never passes the limit. -/
structure Invariant (p : Platform) (cfg : Config) (limit : Int) (w : World) : Prop where
  limited : ∀ v ∈ w.visits, v.link.clickLimit = some limit
  ended : ∀ v ∈ w.visits, ∀ e, v.exit = some e →
    e = v.result p cfg ∧ (v.needs p = true → v.verdict ≠ none)
  counts : w.reserved = w.routed + w.inFlight
  granted : ∀ v ∈ w.visits, v.verdict = some true → (v.result p cfg).isRouted = true
  refused : ∀ v ∈ w.visits, v.verdict = some false → limit ≤ w.reserved
  bound : w.reserved ≤ max limit 0

section Steps

variable {p : Platform} {cfg : Config} {limit : Int} {w : World} {v : Visit} {pre post : List Visit}

theorem Invariant.reserved_nonneg (h : Invariant p cfg limit w) : 0 ≤ w.reserved := by
  rw [h.counts]
  positivity

/-- What the invariant says, in the terms of the property. -/
theorem Invariant.countsRouted (h : Invariant p cfg limit w) : CountsRouted p cfg limit w where
  counts := h.counts
  granted := h.granted
  bound := by
    have hcounts := h.counts
    have hbound := h.bound
    omega
  refused := h.refused
  page := by
    intro v hv retryAfter he
    obtain ⟨hresult, hready⟩ := h.ended v hv _ he
    exact verdict_of_result_click_limit hready hresult.symm
  unrouted := by
    intro v hv e he hunrouted hgranted
    obtain ⟨rfl, _⟩ := h.ended v hv e he
    exact absurd (h.granted v hv hgranted) (by simp [hunrouted])

theorem Invariant.arrive (h : Invariant p cfg limit w) (req : Request) (now : Int)
    {link : ResolvedLink} (salt : Option String) (hlimit : link.clickLimit = some limit) :
    Invariant p cfg limit
      { w with visits := w.visits ++ [⟨req, now, link, salt, none, none⟩] } where
  limited := by
    intro v hv
    rcases List.mem_append.mp hv with hv | hv
    · exact h.limited v hv
    · rw [List.mem_singleton.mp hv]
      exact hlimit
  ended := by
    intro v hv e he
    rcases List.mem_append.mp hv with hv | hv
    · exact h.ended v hv e he
    · simp [List.mem_singleton.mp hv] at he
  counts := by
    have := h.counts
    simpa [World.routed, World.inFlight, World.reserved, Visit.isRouted, Visit.inFlight] using this
  granted := by
    intro v hv hgranted
    rcases List.mem_append.mp hv with hv | hv
    · exact h.granted v hv hgranted
    · simp [List.mem_singleton.mp hv] at hgranted
  refused := by
    intro v hv hrefused
    rcases List.mem_append.mp hv with hv | hv
    · exact h.refused v hv hrefused
    · simp [List.mem_singleton.mp hv] at hrefused
  bound := h.bound

/-- What holds of every visit holds after one of them changed, if it holds of that one. -/
theorem forall_mem_changed {P : Visit → Prop} {v' : Visit} (h : ∀ u ∈ pre ++ v :: post, P u)
    (hv' : P v') : ∀ u ∈ pre ++ v' :: post, P u := by
  intro u hu
  rcases List.mem_append.mp hu with hu | hu
  · exact h u (List.mem_append_left _ hu)
  · rcases List.mem_cons.mp hu with rfl | hu
    · exact hv'
    · exact h u (List.mem_append_right _ (List.mem_cons_of_mem _ hu))

/-- A granted reservation counts a visit that is going to be routed. -/
theorem Invariant.grant {counter : Option Int}
    (h : Invariant p cfg limit ⟨counter, pre ++ v :: post⟩) (hneeds : v.needs p = true)
    (hverdict : v.verdict = none) (hexit : v.exit = none) (hclear : v.clear p cfg = true)
    (hroom : counter.getD 0 < limit) :
    Invariant p cfg limit
      ⟨some (counter.getD 0 + 1), pre ++ { v with verdict := some true } :: post⟩ where
  limited := forall_mem_changed h.limited (h.limited v (by simp))
  ended := forall_mem_changed h.ended fun e he => by simp [hexit] at he
  counts := by
    have hcounts := h.counts
    simp only [World.reserved, World.routed, World.inFlight, List.countP_append,
      List.countP_cons, Visit.isRouted, Visit.inFlight, hexit, hverdict] at hcounts ⊢
    simp at hcounts ⊢
    omega
  granted := forall_mem_changed h.granted fun _ => result_isRouted hneeds rfl hclear
  refused := by
    have hkeep : ∀ u ∈ pre ++ v :: post, u.verdict = some false → limit ≤ counter.getD 0 + 1 := by
      intro u hu hrefused
      have hfull : limit ≤ counter.getD 0 := h.refused u hu hrefused
      omega
    exact forall_mem_changed hkeep fun hfalse => by simp at hfalse
  bound := by
    change counter.getD 0 + 1 ≤ max limit 0
    omega

/-- A refused reservation changes nothing but the visit. -/
theorem Invariant.deny {counter : Option Int}
    (h : Invariant p cfg limit ⟨counter, pre ++ v :: post⟩) (hverdict : v.verdict = none)
    (hexit : v.exit = none) (hfull : limit ≤ counter.getD 0) :
    Invariant p cfg limit ⟨counter, pre ++ { v with verdict := some false } :: post⟩ where
  limited := forall_mem_changed h.limited (h.limited v (by simp))
  ended := forall_mem_changed h.ended fun e he => by simp [hexit] at he
  counts := by
    have hcounts := h.counts
    simp only [World.reserved, World.routed, World.inFlight, List.countP_append,
      List.countP_cons, Visit.isRouted, Visit.inFlight, hexit, hverdict] at hcounts ⊢
    simpa using hcounts
  granted := forall_mem_changed h.granted fun htrue => by simp at htrue
  refused := forall_mem_changed h.refused fun _ => hfull
  bound := h.bound

/-- A visit that ends moves from the reservations to the routed visits, or was in neither. -/
theorem Invariant.finish {counter : Option Int}
    (h : Invariant p cfg limit ⟨counter, pre ++ v :: post⟩) (hexit : v.exit = none)
    (hready : v.needs p = true → v.verdict ≠ none) :
    Invariant p cfg limit
      ⟨counter, pre ++ { v with exit := some (v.result p cfg) } :: post⟩ where
  limited := forall_mem_changed h.limited (h.limited v (by simp))
  ended := forall_mem_changed h.ended fun e he => ⟨(Option.some.inj he).symm, hready⟩
  counts := by
    have hcounts := h.counts
    have hiff : (v.result p cfg).isRouted = true ↔ v.verdict = some true :=
      ⟨verdict_of_result_isRouted (h.limited v (by simp)) hready, h.granted v (by simp)⟩
    simp only [World.reserved, World.routed, World.inFlight, List.countP_append,
      List.countP_cons, Visit.isRouted, Visit.inFlight, hexit] at hcounts ⊢
    by_cases hgranted : v.verdict = some true
    · simp [hgranted, hiff.mpr hgranted] at hcounts ⊢
      omega
    · have hunrouted : (v.result p cfg).isRouted = false :=
        Bool.eq_false_iff.mpr fun h => hgranted (hiff.mp h)
      simp [hgranted, hunrouted] at hcounts ⊢
      omega
  granted := forall_mem_changed h.granted (h.granted v (by simp))
  refused := forall_mem_changed h.refused (h.refused v (by simp))
  bound := h.bound

/-- **Every unwasted step keeps the invariant.** -/
theorem invariant_step {a : Action} {w' : World} (h : Invariant p cfg limit w)
    (hunwasted : Unwasted p cfg limit w a) (hstep : step p cfg limit w a = some w') :
    Invariant p cfg limit w' := by
  obtain ⟨counter, visits⟩ := w
  cases a with
  | arrive req now link salt =>
    rw [step] at hstep
    split at hstep
    · rename_i hlimit
      rw [Option.some.injEq] at hstep
      exact hstep ▸ h.arrive req now salt hlimit
    · exact absurd hstep (by simp)
  | reserve i =>
    rw [step] at hstep
    split at hstep
    · exact absurd hstep (by simp)
    rename_i v hv
    split at hstep
    · rename_i hready
      obtain ⟨hneeds, hverdict, hexit⟩ := hready
      obtain ⟨pre, post, rfl, hset⟩ := exists_split_of_getElem? hv
      rw [Option.some.injEq] at hstep
      subst hstep
      rw [hset]
      rcases reserve_cases limit h.reserved_nonneg with ⟨hr, hroom⟩ | ⟨hr, hfull⟩
      · have hclear := (hunwasted v hv).resolve_right (Int.not_le.mpr hroom)
        have hgrant := h.grant hneeds hverdict hexit hclear hroom
        simpa only [hr] using hgrant
      · have hdeny := h.deny hverdict hexit hfull
        simpa only [hr] using hdeny
    · exact absurd hstep (by simp)
  | finish i =>
    rw [step] at hstep
    split at hstep
    · exact absurd hstep (by simp)
    rename_i v hv
    split at hstep
    · rename_i hready
      obtain ⟨pre, post, rfl, hset⟩ := exists_split_of_getElem? hv
      rw [Option.some.injEq] at hstep
      subst hstep
      rw [hset]
      exact h.finish hready.1 hready.2
    · exact absurd hstep (by simp)
  | rollup =>
    rw [step, Option.some.injEq] at hstep
    subst hstep
    exact ⟨h.limited, h.ended, h.counts, h.granted, h.refused, h.bound⟩

end Steps

theorem invariant_start (p : Platform) (cfg : Config) (limit : Int) :
    Invariant p cfg limit World.start where
  limited := by simp [World.start]
  ended := by simp [World.start]
  counts := rfl
  granted := by simp [World.start]
  refused := by simp [World.start]
  bound := by simp [World.reserved, World.start]

/-- **The counter is exact in every run without a wasted reservation.** -/
theorem guarded_countsRouted (p : Platform) (cfg : Config) (limit : Int) (as : List Action)
    (w : World) (hunwasted : Guarded (step p cfg limit) (Unwasted p cfg limit) World.start as)
    (hrun : run (step p cfg limit) World.start as = some w) : CountsRouted p cfg limit w :=
  (invariant_of_guarded (fun _ _ _ hs hg hstep => invariant_step hs hg hstep) as _ w
    (invariant_start p cfg limit) hunwasted hrun).countsRouted

/-! ### Two runs -/

/-- A link of one click behind a password. -/
def lockedLink : ResolvedLink :=
  { sampleLink with clickLimit := some 1, clicks := 0, hasPassword := true }

/-- The visitor of `sampleRequest` with a token for the link. -/
def unlockedRequest : Request :=
  { sampleRequest with url := "/a?k=valid", queryK := some (.one "valid") }

/-- Two visitors with the password, the second one too late. -/
def unlockedVisits : List Action :=
  [.arrive unlockedRequest 0 lockedLink (some "salt"), .reserve 0,
    .arrive unlockedRequest 0 lockedLink (some "salt"), .reserve 1, .finish 0, .finish 1]

/-- A visitor without the password, then one with it. -/
def lockedVisits : List Action :=
  [.arrive sampleRequest 0 lockedLink (some "salt"), .reserve 0, .finish 0,
    .arrive unlockedRequest 0 lockedLink (some "salt"), .reserve 1, .finish 1]

/-- The counter is exact after two visitors with the password. -/
theorem countsRouted_unlockedVisits :
    ∃ w, run (step samplePlatform sampleConfig 1) World.start unlockedVisits = some w ∧
      CountsRouted samplePlatform sampleConfig 1 w :=
  ⟨_, rfl, guarded_countsRouted samplePlatform sampleConfig 1 unlockedVisits _ (by decide) rfl⟩

/-- **A locked visit uses up the limit.**  It ends on the password page with its
place taken, and the visitor who has the password is refused. -/
theorem locked_visit_uses_up_the_limit :
    ¬ ∀ (p : Platform) (cfg : Config) (limit : Int) (as : List Action) (w : World),
      run (step p cfg limit) World.start as = some w → CountsRouted p cfg limit w := by
  intro h
  have hexact := h samplePlatform sampleConfig 1 lockedVisits _ rfl
  exact absurd hexact.counts (by decide)

end SnapUrl.Redirect
