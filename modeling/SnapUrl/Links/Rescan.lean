import Mathlib.Algebra.Order.Group.Int
import SnapUrl.Lib.Run

/-!
# Rescans and edits of a destination

`rescanLinks` of `apps/worker/src/jobs/link-scanning.ts`, and `update` of
`apps/api/src/links/links.service.ts`.  Both ask the scanner first and store its answer later.

* `step`: any number of passes and edits, in any order.
* `Fresh`: no link has a verdict that was obtained for another destination.
* `Current`: a pass stores a verdict while the link still has the destination it scanned.
* `verdictsHold_iff`: **the stored verdicts are about the stored destinations throughout a
  run exactly when its stores are all current**.
* `stale_verdict_stored`: an edit while the scanner answers leaves the old answer on the new
  destination.
-/

namespace SnapUrl.Links.Rescan

open Lib

/-! ### Links -/

inductive SafeBrowsingStatus where
  | clean
  | flagged
  | pending
deriving DecidableEq, Repr

/-- What a scan has answered. -/
structure Verdict where
  status : SafeBrowsingStatus
  /-- Ghost: the destination that was scanned. -/
  scanned : String
deriving DecidableEq, Repr

/-- The columns of a link that are read or written.  Instants count milliseconds. -/
structure Link where
  id : String
  destination : String
  /-- `safe_browsing_status`. -/
  verdict : Verdict
  /-- `safe_browsing_checked_at`. -/
  checkedAt : Option Int
  createdAt : Int
  disabledAt : Option Int
deriving DecidableEq, Repr

/-- A verdict that holds the link back. -/
def Link.isFlagged (l : Link) : Bool := l.verdict.status = .flagged

/-- The verdict is about the destination, or says nothing yet. -/
def Link.isFresh (l : Link) : Prop :=
  l.verdict.status = .pending ∨ l.verdict.scanned = l.destination

instance (l : Link) : Decidable l.isFresh :=
  inferInstanceAs (Decidable (_ ∨ _))

/-! ### Candidates -/

structure RescanConfig where
  pendingSeconds : Nat
  recentDays : Nat
  recentSeconds : Nat
  burstClicks : Nat
  batch : Nat
deriving DecidableEq, Repr

/-- Never checked, or last checked before an instant. -/
def Link.checkedBefore (l : Link) (t : Int) : Bool := l.checkedAt.all fun c => c < t

/-- A link that is due a check: pending, recent, or taking many clicks today. -/
def due (cfg : RescanConfig) (now : Int) (clicksToday : String → Nat) (l : Link) : Bool :=
  !l.isFlagged && l.disabledAt.isNone &&
    (l.verdict.status = .pending &&
        l.checkedAt.getD l.createdAt < now - cfg.pendingSeconds * 1000 ||
      now - cfg.recentDays * 86400000 < l.createdAt &&
        l.checkedBefore (now - cfg.recentSeconds * 1000) ||
      cfg.burstClicks ≤ clicksToday l.id && l.checkedBefore (now - now % 86400000))

/-- Oldest-checked first, those never checked before all others. -/
def checkedOrder (a b : Link) : Bool :=
  match a.checkedAt, b.checkedAt with
  | none, _ => true
  | some _, none => false
  | some s, some t => s ≤ t

structure Candidate where
  id : String
  destination : String
deriving DecidableEq, Repr

def candidates (cfg : RescanConfig) (now : Int) (clicksToday : String → Nat)
    (links : List Link) : List Candidate :=
  (((links.filter (due cfg now clicksToday)).mergeSort checkedOrder).take cfg.batch).map
    fun l => ⟨l.id, l.destination⟩

/-! ### Passes and edits -/

/-- One pass of `rescanLinks`. -/
structure Pass where
  todo : List Candidate
  /-- The link that was scanned last and the scanner's answer, until it is stored. -/
  answer : Option (Candidate × SafeBrowsingStatus)
  scanned : Nat
  flagged : Nat
deriving DecidableEq, Repr

/-- One call of `update` that has passed its checks. -/
structure Edit where
  id : String
  /-- The new destination, the scanner's answer and its instant, none when the destination
  is not edited. -/
  patch : Option (String × SafeBrowsingStatus × Int)
deriving DecidableEq, Repr

structure State where
  now : Int
  links : List Link
  /-- The links of the `upsert` rows in `projection_outbox`, in order. -/
  outbox : List String
  passes : List Pass
  edits : List Edit
deriving DecidableEq, Repr

inductive Action where
  | tick (ms : Nat)
  /-- A pass begins, with what `click_daily` says of the day. -/
  | select (clicksToday : String → Nat)
  | scan (pass : Nat) (answer : SafeBrowsingStatus)
  | store (pass : Nat)
  /-- A pass ends where something raises. -/
  | stop (pass : Nat)
  /-- An edit has passed its checks, the scanner's answer about a new destination last. -/
  | check (id : String) (destination : Option String) (answer : SafeBrowsingStatus)
  | commit (edit : Nat)
  /-- An edit ends where something raises. -/
  | abandon (edit : Nat)

/-- A pass writes a link: not when it is flagged already. -/
def writes (id : String) (l : Link) : Bool := l.id = id && !l.isFlagged

/-- `update links set … where id = … and safe_browsing_status <> 'flagged'`. -/
def setVerdict (links : List Link) (id : String) (v : Verdict) (now : Int) : List Link :=
  links.map fun l => if writes id l then { l with verdict := v, checkedAt := some now } else l

/-- What a pass does with an answer: a link that turns flagged is projected, in the same
transaction. -/
def State.storeAnswer (s : State) (c : Candidate) (answer : SafeBrowsingStatus) : State :=
  { s with
    links := setVerdict s.links c.id ⟨answer, c.destination⟩ s.now
    outbox :=
      if answer = .flagged ∧ s.links.any (writes c.id) then s.outbox ++ [c.id] else s.outbox }

/-- A link after an edit. -/
def Edit.apply (e : Edit) (l : Link) : Link :=
  match e.patch with
  | none => l
  | some (destination, answer, checkedAt) =>
    { l with
      destination := destination
      verdict := ⟨answer, destination⟩
      checkedAt := some checkedAt }

/-- The transaction of `update`. -/
def State.commitEdit (s : State) (e : Edit) : State :=
  { s with
    links := s.links.map fun l => if l.id = e.id then e.apply l else l
    outbox := s.outbox ++ [e.id] }

/-- What an action does, nothing when there is no such pass or edit. -/
def act (cfg : RescanConfig) (s : State) : Action → State
  | .tick ms => { s with now := s.now + ms }
  | .select clicksToday =>
    { s with passes := s.passes ++ [⟨candidates cfg s.now clicksToday s.links, none, 0, 0⟩] }
  | .scan i answer =>
    match s.passes[i]? with
    | some ⟨c :: todo, none, scanned, flagged⟩ =>
      { s with passes := s.passes.set i ⟨todo, some (c, answer), scanned + 1, flagged⟩ }
    | _ => s
  | .store i =>
    match s.passes[i]? with
    | some ⟨todo, some (c, answer), scanned, flagged⟩ =>
      { s.storeAnswer c answer with
        passes := s.passes.set i
          ⟨todo, none, scanned, if answer = .flagged then flagged + 1 else flagged⟩ }
    | _ => s
  | .stop i => { s with passes := s.passes.eraseIdx i }
  | .check id destination answer =>
    match destination with
    | none => { s with edits := s.edits ++ [⟨id, none⟩] }
    -- a flagged destination is refused
    | some d =>
      if answer = .flagged then s
      else { s with edits := s.edits ++ [⟨id, some (d, answer, s.now)⟩] }
  | .commit j =>
    match s.edits[j]? with
    | some e => { s.commitEdit e with edits := s.edits.eraseIdx j }
    | none => s
  | .abandon j => { s with edits := s.edits.eraseIdx j }

def step (cfg : RescanConfig) (s : State) (a : Action) : Option State := some (act cfg s a)

/-! ### What is claimed of a run -/

/-- **Every stored verdict is about the stored destination**, or pending. -/
def Fresh (s : State) : Prop := ∀ l ∈ s.links, l.isFresh

instance (s : State) : Decidable (Fresh s) :=
  inferInstanceAs (Decidable (∀ l ∈ s.links, l.isFresh))

/-- **A link whose gate has changed has a new row in the outbox.** -/
def GateFollowed (s t : State) : Prop :=
  ∃ added, t.outbox = s.outbox ++ added ∧
    ∀ (k : Nat) (l l' : Link), s.links[k]? = some l → t.links[k]? = some l' →
      l.isFlagged = l'.isFlagged ∨ l.id ∈ added

/-- What a run keeps. -/
structure VerdictsHold (cfg : RescanConfig) (s : State) (as : List Action) : Prop where
  fresh : ∀ pre post t, as = pre ++ post → run (step cfg) s pre = some t → Fresh t
  followed : ∀ pre a post t, as = pre ++ a :: post → run (step cfg) s pre = some t →
    GateFollowed t (act cfg t a)

/-- Nothing is under way. -/
def Idle (s : State) : Prop := s.edits = [] ∧ ∀ p ∈ s.passes, p.todo = [] ∧ p.answer = none

instance (s : State) : Decidable (Idle s) :=
  inferInstanceAs (Decidable (_ ∧ ∀ p ∈ s.passes, p.todo = [] ∧ p.answer = none))

/-- **A pass stores an answer that is pending, or about the destination the link has.**  A
flagged link it does not write. -/
def Current (s : State) : Action → Prop
  | .store i => ∀ (p : Pass) (c : Candidate) (answer : SafeBrowsingStatus),
    s.passes[i]? = some p → p.answer = some (c, answer) → answer = .pending ∨
      ∀ l ∈ s.links, writes c.id l = true → c.destination = l.destination
  | _ => True

/-! ### What one step keeps -/

section

variable {cfg : RescanConfig} {s : State}

/-- A store keeps the verdicts fresh exactly when the ones it writes are. -/
theorem fresh_storeAnswer (hs : Fresh s) (c : Candidate) (answer : SafeBrowsingStatus) :
    Fresh (s.storeAnswer c answer) ↔ answer = .pending ∨
      ∀ l ∈ s.links, writes c.id l = true → c.destination = l.destination := by
  have hall : Fresh (s.storeAnswer c answer) ↔ ∀ l ∈ s.links, writes c.id l = true →
      answer = .pending ∨ c.destination = l.destination := by
    simp only [Fresh, State.storeAnswer, setVerdict, List.forall_mem_map]
    refine forall₂_congr fun l hl => ?_
    by_cases hw : writes c.id l = true
    · rw [if_pos hw, imp_iff_right hw]
      exact Iff.rfl
    · rw [if_neg hw]
      exact iff_of_true (hs l hl) fun h => absurd h hw
  rw [hall]
  by_cases hp : answer = .pending
  · exact iff_of_true (fun _ _ _ => Or.inl hp) (Or.inl hp)
  · rw [or_iff_right hp]
    exact forall₂_congr fun l _ => imp_congr_right fun _ => or_iff_right hp

/-- An edit stores a destination together with the verdict about it. -/
theorem fresh_commitEdit (hs : Fresh s) (e : Edit) : Fresh (s.commitEdit e) := by
  intro l' hl'
  obtain ⟨l, hl, rfl⟩ := List.mem_map.mp hl'
  by_cases hid : l.id = e.id
  · rw [if_pos hid, Edit.apply]
    split
    · exact hs l hl
    · exact Or.inr rfl
  · rw [if_neg hid]
    exact hs l hl

/-- **A step keeps the verdicts fresh exactly when it is current.** -/
theorem fresh_act_iff (hs : Fresh s) (a : Action) : Fresh (act cfg s a) ↔ Current s a := by
  cases a with
  | store i =>
    rw [act, Current]
    split
    · next todo c answer scanned flagged hp =>
      refine (fresh_storeAnswer hs c answer).trans ⟨fun h p c' answer' hp' ha => ?_,
        fun h => h _ c answer hp rfl⟩
      obtain rfl := Option.some.inj (hp'.symm.trans hp)
      obtain ⟨rfl, rfl⟩ := Prod.mk.inj (Option.some.inj ha)
      exact h
    · next hnone =>
      refine iff_of_true hs fun p c answer hp ha => ?_
      obtain ⟨todo, answer', scanned, flagged⟩ := p
      obtain rfl : answer' = some (c, answer) := ha
      exact absurd hp (hnone todo c answer scanned flagged)
  | commit j =>
    rw [act]
    refine iff_of_true ?_ trivial
    split
    · next e he => exact fresh_commitEdit hs e
    · exact hs
  | scan i answer =>
    rw [act]
    refine iff_of_true ?_ trivial
    split <;> exact hs
  | check id destination answer =>
    refine iff_of_true ?_ trivial
    cases destination with
    | none => exact hs
    | some d => rw [act]; split <;> exact hs
  | _ => exact iff_of_true hs trivial

/-- Links that stay as they are need no projection. -/
theorem gateFollowed_of_links_eq {t : State} (hlinks : t.links = s.links)
    (houtbox : t.outbox = s.outbox) : GateFollowed s t := by
  refine ⟨[], by rw [houtbox, List.append_nil], fun k l l' hl hl' => Or.inl ?_⟩
  rw [hlinks, hl, Option.some.injEq] at hl'
  rw [hl']

theorem gateFollowed_storeAnswer (c : Candidate) (answer : SafeBrowsingStatus) :
    GateFollowed s (s.storeAnswer c answer) := by
  have hcase : ∀ (k : Nat) (l l' : Link), s.links[k]? = some l →
      (s.storeAnswer c answer).links[k]? = some l' →
      l.isFlagged = l'.isFlagged ∨ (answer = .flagged ∧ writes c.id l = true) := by
    intro k l l' hl hl'
    rw [State.storeAnswer, setVerdict, List.getElem?_map, hl, Option.map_some,
      Option.some.injEq] at hl'
    by_cases hw : writes c.id l = true
    · by_cases hf : answer = .flagged
      · exact Or.inr ⟨hf, hw⟩
      · left
        rw [if_pos hw] at hl'
        have hold : l.isFlagged = false := by simpa using (Bool.and_eq_true_iff.mp hw).2
        rw [hold, ← hl', Link.isFlagged]
        exact (decide_eq_false hf).symm
    · rw [if_neg hw] at hl'
      exact Or.inl (by rw [hl'])
  by_cases hout : answer = .flagged ∧ s.links.any (writes c.id) = true
  · refine ⟨[c.id], if_pos hout, fun k l l' hl hl' => (hcase k l l' hl hl').imp_right fun h => ?_⟩
    exact List.mem_singleton.mpr (of_decide_eq_true (Bool.and_eq_true_iff.mp h.2).1)
  · refine ⟨[], (if_neg hout).trans (List.append_nil _).symm, fun k l l' hl hl' => ?_⟩
    refine (hcase k l l' hl hl').imp_right fun h => absurd ⟨h.1, ?_⟩ hout
    exact List.any_eq_true.mpr ⟨l, List.mem_of_getElem? hl, h.2⟩

theorem gateFollowed_commitEdit (e : Edit) : GateFollowed s (s.commitEdit e) := by
  refine ⟨[e.id], rfl, fun k l l' hl hl' => ?_⟩
  rw [State.commitEdit, List.getElem?_map, hl, Option.map_some, Option.some.injEq] at hl'
  by_cases hid : l.id = e.id
  · exact Or.inr (List.mem_singleton.mpr hid)
  · rw [if_neg hid] at hl'
    exact Or.inl (by rw [hl'])

/-- **Every step that changes a gate projects it.** -/
theorem gateFollowed_act (a : Action) : GateFollowed s (act cfg s a) := by
  cases a with
  | store i =>
    rw [act]
    split
    · next todo c answer scanned flagged hp => exact gateFollowed_storeAnswer c answer
    · exact gateFollowed_of_links_eq rfl rfl
  | commit j =>
    rw [act]
    split
    · next e he => exact gateFollowed_commitEdit e
    · exact gateFollowed_of_links_eq rfl rfl
  | scan i answer =>
    rw [act]
    split <;> exact gateFollowed_of_links_eq rfl rfl
  | check id destination answer =>
    cases destination with
    | none => exact gateFollowed_of_links_eq rfl rfl
    | some d => rw [act]; split <;> exact gateFollowed_of_links_eq rfl rfl
  | _ => exact gateFollowed_of_links_eq rfl rfl

end

/-! ### Every run -/

/-- **The verdicts are about the destinations throughout a run exactly when its stores are all
current.** -/
theorem verdictsHold_iff (cfg : RescanConfig) (s : State) (as : List Action) (hs : Fresh s) :
    VerdictsHold cfg s as ↔ Guarded (step cfg) Current s as := by
  have hstep : ∀ s a s', Fresh s → step cfg s a = some s' → (Fresh s' ↔ Current s a) := by
    intro s a s' h hs'
    obtain rfl := Option.some.inj hs'
    exact fresh_act_iff h a
  have hiff : Guarded (step cfg) Current s as ↔
      ∀ pre post t, as = pre ++ post → run (step cfg) s pre = some t → Fresh t :=
    guarded_iff_holds_throughout (fun _ _ => rfl) hstep hs
  rw [hiff]
  exact ⟨fun h => h.fresh, fun h => ⟨h, fun _ a _ _ _ _ => gateFollowed_act a⟩⟩

/-! ### An edit while a pass is at work -/

def defaultConfig : RescanConfig := ⟨180, 30, 86400, 100, 200⟩

/-- One link whose scan has not come through yet. -/
def oneLink : State :=
  { now := 86400000000
    links := [⟨"link", "https://old.example/", ⟨.pending, "https://old.example/"⟩, none, 0, none⟩]
    outbox := []
    passes := []
    edits := [] }

theorem fresh_oneLink : Fresh oneLink := by decide

/-- The link is edited once the pass has stored its answer. -/
def editedAfter : List Action :=
  [.select fun _ => 0, .scan 0 .clean, .store 0,
    .check "link" (some "https://new.example/") .pending, .commit 0]

theorem verdictsHold_editedAfter :
    VerdictsHold defaultConfig oneLink editedAfter ↔
      Guarded (step defaultConfig) Current oneLink editedAfter :=
  verdictsHold_iff defaultConfig oneLink editedAfter fresh_oneLink

/-- The link is edited while the scanner looks at its old destination. -/
def editedMeanwhile : List Action :=
  [.select fun _ => 0, .scan 0 .clean,
    .check "link" (some "https://new.example/") .pending, .commit 0, .store 0]

/-- **A destination that no scan has cleared is clean**, by the answer about the one before. -/
theorem stale_verdict_stored : ¬ ∀ (cfg : RescanConfig) (s t : State) (as : List Action),
    Fresh s → Idle s → run (step cfg) s as = some t → Idle t → Fresh t := by
  intro h
  have hstale : ((run (step defaultConfig) oneLink editedMeanwhile).any
      fun t => Idle t ∧ ¬ Fresh t) = true := by decide +kernel
  obtain ⟨t, hrun, ht⟩ := (Option.any_eq_true _ _).mp hstale
  obtain ⟨hidle, hfresh⟩ := of_decide_eq_true ht
  exact hfresh (h defaultConfig oneLink t editedMeanwhile fresh_oneLink (by decide) hrun hidle)

end SnapUrl.Links.Rescan
