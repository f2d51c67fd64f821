import SnapUrl.Settings.MailCaps

/-!
# The caps of custom domains

`add` and `remove` of `apps/api/src/domains/domains.service.ts`, with
`assertCustomDomainUnderCaps` of `apps/api/src/admin/kill-switch.service.ts`.

* `act`: any number of calls of `add`, and removals.  A call counts the rows of `domains`, then
  stores its own in a transaction.  A domain that was removed is no row any more.
* `Fits`: what a call has counted, what is missing from that count, and its domain fit the caps.
* `hard_caps_kept`: **both kinds of caps are kept in every run whose mails and domains all fit**.
* `caps_are_passed`: two mails that are counted before either goes out, and a domain that was
  removed.
-/

namespace SnapUrl.Settings.DomainCaps

open Lib RollingCap

/-! ### Calls -/

/-- A day in microseconds, which is what the instants count. -/
def day : Int := 24 * 60 * 60000 * 1000

/-- `new Date(Date.now() - 24 * 60 * 60_000)`, which keeps milliseconds. -/
def sinceDay (now : Int) : Int := now / 1000 * 1000 - day

inductive Phase where
  /-- Both counts are asked for, at one instant. -/
  | counting (at_ : Int) (total : Option (List Nat)) (today : Option Tally)
  | allowed (total : List Nat) (today : Tally)
  | refused
  /-- The transaction has begun, at the instant that is to be `created_at`. -/
  | opened (total : List Nat) (today : Tally) (createdAt : Int)
  | ended
deriving DecidableEq, Repr

structure State where
  now : Int
  /-- The rows of `domains` that are not the system's. -/
  rows : List Event
  /-- Ghost: every custom domain that was ever added. -/
  added : List Event
  calls : List Phase
deriving DecidableEq, Repr

def start (now : Int) : State := ⟨now, [], [], []⟩

inductive Action where
  | tick (microseconds : Nat)
  /-- `add` reads the switch: `on` is what it says. -/
  | add (on : Bool)
  | countTotal (call : Nat)
  | countToday (call : Nat)
  /-- The counts are compared with the caps. -/
  | decide (call : Nat)
  /-- Another check of `add` refuses, or something raises. -/
  | drop (call : Nat)
  | open_ (call : Nat)
  | commit (call : Nat)
  | remove (id : Nat)
deriving DecidableEq, Repr

/-- What the counts come to. -/
def assertCustomDomainUnderCaps (caps : CustomDomainsCaps) (total : List Nat) (today : Tally) :
    Phase :=
  if caps.totalMax ≤ total.length then .refused
  else if caps.perDay ≤ today.found.length then .refused
  else .allowed total today

/-- What a call does next. -/
def nextPhase (caps : CustomDomainsCaps) (s : State) (p : Phase) : Action → Phase
  | .countTotal _ =>
    match p with
    | .counting at_ none today => .counting at_ (some (s.rows.map Event.id)) today
    | _ => p
  | .countToday _ =>
    match p with
    | .counting at_ total none =>
      .counting at_ total (some ⟨sinceDay at_,
        (s.rows.filter fun row => sinceDay at_ ≤ row.time).map Event.id⟩)
    | _ => p
  | .decide _ =>
    match p with
    | .counting _ (some total) (some today) => assertCustomDomainUnderCaps caps total today
    | _ => p
  | .drop _ => .ended
  | .open_ _ =>
    match p with
    | .allowed total today => .opened total today s.now
    | _ => p
  | .commit _ =>
    match p with
    | .opened _ _ _ => .ended
    | _ => p
  | _ => p

/-- The domain that is stored. -/
def domainOf (s : State) (p : Phase) : Action → List Event
  | .commit _ =>
    match p with
    | .opened _ _ createdAt => [⟨s.added.length, createdAt⟩]
    | _ => []
  | _ => []

/-- The call that an action is about. -/
def Action.call : Action → Option Nat
  | .countTotal i => some i
  | .countToday i => some i
  | .decide i => some i
  | .drop i => some i
  | .open_ i => some i
  | .commit i => some i
  | _ => none

/-- What an action does, nothing when there is no such call. -/
def act (caps : CustomDomainsCaps) (s : State) (a : Action) : State :=
  match a with
  | .tick microseconds => { s with now := s.now + microseconds }
  | .add on => { s with calls := s.calls ++ [if on then .counting s.now none none else .refused] }
  | .remove id => { s with rows := s.rows.filter fun row => row.id ≠ id }
  | _ =>
    match a.call.bind fun i => s.calls[i]?.map fun p => (i, p) with
    | none => s
    | some (i, p) =>
      { s with
        rows := s.rows ++ domainOf s p a
        added := s.added ++ domainOf s p a
        calls := s.calls.set i (nextPhase caps s p a) }

def step (caps : CustomDomainsCaps) (s : State) (a : Action) : Option State := some (act caps s a)

/-! ### What is claimed of a run -/

/-- A call that has found a cap reached. -/
def Phase.full (caps : CustomDomainsCaps) : Phase → Prop
  | .counting _ (some total) (some today) =>
    caps.totalMax ≤ total.length ∨ caps.perDay ≤ today.found.length
  | _ => False

/-- What holds of every state that is reached. -/
structure DomainsKept (caps : CustomDomainsCaps) (s : State) : Prop where
  /-- **There are no more custom domains than the cap.** -/
  total : s.rows.length ≤ caps.totalMax
  /-- **No rolling day has more additions than the cap**, removed since or not. -/
  perDay : Within day caps.perDay s.added
  /-- **A call that has found a cap reached is refused, and changes nothing.** -/
  refused : ∀ (i : Nat) (p : Phase), s.calls[i]? = some p → p.full caps →
    act caps s (.decide i) = { s with calls := s.calls.set i .refused }

/-- The counts on which a call stores its domain. -/
def Phase.counts : Phase → Option (List Nat × Tally)
  | .opened total today _ => some (total, today)
  | _ => none

/-- **A domain is stored while it fits**: what its counts have found, what is missing from them,
and the domain itself are within the caps. -/
def Fits (caps : CustomDomainsCaps) (s : State) : Action → Prop
  | .commit i => ∀ p ∈ s.calls[i]?, ∀ counts ∈ p.counts,
    counts.1.length + s.rows.countP (fun row => row.id ∉ counts.1) + 1 ≤ caps.totalMax ∧
      counts.2.Fits caps.perDay s.added
  | _ => True

instance (caps : CustomDomainsCaps) (s : State) (a : Action) : Decidable (Fits caps s a) := by
  cases a with
  | commit i =>
    exact inferInstanceAs (Decidable (∀ p ∈ s.calls[i]?, ∀ counts ∈ p.counts,
      counts.1.length + s.rows.countP (fun row => row.id ∉ counts.1) + 1 ≤ caps.totalMax ∧
        counts.2.Fits caps.perDay s.added))
  | _ => exact isTrue trivial

/-! ### What one step keeps -/

/-- The count of the day is of the span that ends when it was asked for. -/
def Phase.Sound (now : Int) : Phase → Prop
  | .counting at_ _ today => at_ ≤ now ∧ ∀ t ∈ today, t.since = sinceDay at_
  | .allowed _ today => today.since + day ≤ now
  | .opened _ today createdAt => today.since + day ≤ createdAt
  | _ => True

structure Inv (caps : CustomDomainsCaps) (s : State) : Prop where
  total : s.rows.length ≤ caps.totalMax
  perDay : Within day caps.perDay s.added
  ids : s.added.map Event.id = List.range s.added.length
  rows : s.rows.Sublist s.added
  sound : ∀ p ∈ s.calls, p.Sound s.now

theorem inv_start (caps : CustomDomainsCaps) (now : Int) : Inv caps (start now) where
  total := Nat.zero_le _
  perDay := within_nil
  ids := rfl
  rows := List.Sublist.refl []
  sound _ h := absurd h List.not_mem_nil

section

variable {caps : CustomDomainsCaps} {s : State}

theorem Phase.Sound.mono {p : Phase} {now now' : Int} (h : p.Sound now) (hle : now ≤ now') :
    p.Sound now' := by
  cases p with
  | counting at_ total today => exact ⟨h.1.trans hle, h.2⟩
  | allowed total today => exact Int.le_trans h hle
  | opened total today createdAt => exact h
  | _ => trivial

theorem sound_assert {at_ : Int} {total : List Nat} {today : Tally}
    (h : (Phase.counting at_ (some total) (some today)).Sound s.now) :
    (assertCustomDomainUnderCaps caps total today).Sound s.now := by
  rw [assertCustomDomainUnderCaps]
  split
  · trivial
  split
  · trivial
  have hsince := h.2 today rfl
  have hat := h.1
  rw [sinceDay] at hsince
  rw [Phase.Sound]
  omega

/-- What a call knows stays true when it moves on. -/
theorem sound_nextPhase {p : Phase} (h : p.Sound s.now) (a : Action) :
    (nextPhase caps s p a).Sound s.now := by
  cases a with
  | countTotal i =>
    unfold nextPhase
    dsimp only
    split
    · exact h
    · exact h
  | countToday i =>
    unfold nextPhase
    dsimp only
    split
    · exact ⟨h.1, fun t ht => Option.mem_some_iff.mp ht ▸ rfl⟩
    · exact h
  | decide i =>
    unfold nextPhase
    dsimp only
    split
    · exact sound_assert h
    · exact h
  | drop i => trivial
  | open_ i =>
    unfold nextPhase
    dsimp only
    split
    · exact h
    · exact h
  | commit i =>
    unfold nextPhase
    dsimp only
    split
    · trivial
    · exact h
  | _ => exact h

/-- A domain is stored only by a commit. -/
theorem domainOf_eq (p : Phase) (a : Action) : domainOf s p a = [] ∨
    ∃ i total today createdAt, a = .commit i ∧ p = .opened total today createdAt ∧
      domainOf s p a = [⟨s.added.length, createdAt⟩] := by
  cases a with
  | commit i =>
    unfold domainOf
    dsimp only
    split
    · next total today createdAt => exact Or.inr ⟨i, total, today, createdAt, rfl, rfl, rfl⟩
    · exact Or.inl rfl
  | _ => exact Or.inl rfl

/-- The rows were counted, or are missing from the count. -/
theorem Inv.length_rows_le (h : Inv caps s) (total : List Nat) :
    s.rows.length ≤ total.length + s.rows.countP fun row => row.id ∉ total := by
  have hids : (s.rows.map Event.id).Nodup :=
    (h.ids ▸ List.nodup_range).sublist (h.rows.map Event.id)
  have hfound := countP_mem_le Event.id hids total
  have hsplit := List.length_eq_countP_add_countP (fun row : Event => decide (row.id ∈ total))
    (l := s.rows)
  have hmissing : s.rows.countP (fun row => decide ¬ decide (row.id ∈ total) = true) =
      s.rows.countP fun row => row.id ∉ total :=
    List.countP_congr fun row _ => by simp
  omega

/-- **A domain that fits keeps the caps.** -/
theorem Inv.domain (h : Inv caps s) {total : List Nat} {today : Tally} {createdAt : Int}
    (hsound : (Phase.opened total today createdAt).Sound s.now)
    (htotal : total.length + s.rows.countP (fun row => row.id ∉ total) + 1 ≤ caps.totalMax)
    (htoday : today.Fits caps.perDay s.added) :
    Inv caps
      { s with
        rows := s.rows ++ [⟨s.added.length, createdAt⟩]
        added := s.added ++ [⟨s.added.length, createdAt⟩] } where
  total := by
    have hrows := h.length_rows_le total
    rw [List.length_append, List.length_singleton]
    omega
  perDay := within_append h.perDay (h.ids ▸ List.nodup_range) hsound htoday
  ids := by
    rw [List.map_append, h.ids, List.length_append, List.length_singleton, List.range_succ]
    rfl
  rows := h.rows.append (List.Sublist.refl _)
  sound := h.sound

/-- A call that moves on, with the domain that is stored. -/
theorem Inv.move (h : Inv caps s) {a : Action} (hg : Fits caps s a) {i : Nat} {p : Phase}
    (hi : a.call = some i) (hp : s.calls[i]? = some p) :
    Inv caps
      { s with
        rows := s.rows ++ domainOf s p a
        added := s.added ++ domainOf s p a
        calls := s.calls.set i (nextPhase caps s p a) } := by
  have hsound := h.sound p (List.mem_of_getElem? hp)
  have hstored : Inv caps
      { s with rows := s.rows ++ domainOf s p a, added := s.added ++ domainOf s p a } := by
    rcases domainOf_eq (s := s) p a with hnone | ⟨j, total, today, createdAt, rfl, rfl, hone⟩
    · rw [hnone, List.append_nil, List.append_nil]
      exact h
    · obtain rfl := Option.some.inj hi
      obtain ⟨htotal, htoday⟩ := hg _ hp (total, today) rfl
      rw [hone]
      exact h.domain hsound htotal htoday
  refine ⟨hstored.total, hstored.perDay, hstored.ids, hstored.rows, fun p' hp' => ?_⟩
  rcases List.mem_or_eq_of_mem_set hp' with hmem | rfl
  · exact h.sound p' hmem
  · exact sound_nextPhase hsound a

/-- The actions of one call. -/
theorem act_of_call {a : Action} {i : Nat} {p : Phase} (hi : a.call = some i)
    (hp : s.calls[i]? = some p) : act caps s a =
      { s with
        rows := s.rows ++ domainOf s p a
        added := s.added ++ domainOf s p a
        calls := s.calls.set i (nextPhase caps s p a) } := by
  cases a with
  | tick microseconds => exact nomatch hi
  | add on => exact nomatch hi
  | remove id => exact nomatch hi
  | _ => simp only [act, hi, Option.bind_some, hp, Option.map_some]

theorem act_of_call_none {a : Action} {i : Nat} (hi : a.call = some i)
    (hp : s.calls[i]? = none) : act caps s a = s := by
  cases a with
  | tick microseconds => exact nomatch hi
  | add on => exact nomatch hi
  | remove id => exact nomatch hi
  | _ => simp only [act, hi, Option.bind_some, hp, Option.map_none]

/-- **Every step whose domain fits keeps the invariant.** -/
theorem inv_act (h : Inv caps s) {a : Action} (hg : Fits caps s a) : Inv caps (act caps s a) := by
  cases hi : a.call with
  | some i =>
    cases hp : s.calls[i]? with
    | some p =>
      rw [act_of_call hi hp]
      exact h.move hg hi hp
    | none =>
      rw [act_of_call_none hi hp]
      exact h
  | none =>
    cases a with
    | tick microseconds =>
      exact ⟨h.total, h.perDay, h.ids, h.rows, fun p hp =>
        (h.sound p hp).mono (by simp only [act]; omega)⟩
    | add on =>
      refine ⟨h.total, h.perDay, h.ids, h.rows, fun p hp => ?_⟩
      rcases List.mem_append.mp hp with hmem | hmem
      · exact h.sound p hmem
      · rw [List.mem_singleton.mp hmem]
        split
        · exact ⟨le_rfl, fun _ ht => absurd ht (Option.not_mem_none _)⟩
        · trivial
    | remove id =>
      exact ⟨(List.length_filter_le _ _).trans h.total, h.perDay, h.ids,
        List.filter_sublist.trans h.rows, h.sound⟩
    | _ => exact nomatch hi

/-- A call that has found a cap reached comes to nothing. -/
theorem act_decide_of_full {i : Nat} {p : Phase} (hp : s.calls[i]? = some p)
    (hfull : p.full caps) :
    act caps s (.decide i) = { s with calls := s.calls.set i .refused } := by
  have hrefused : nextPhase caps s p (.decide i) = .refused := by
    cases p with
    | counting at_ total today =>
      cases total with
      | none => exact hfull.elim
      | some total =>
        cases today with
        | none => exact hfull.elim
        | some today =>
          rw [nextPhase, assertCustomDomainUnderCaps]
          split
          · rfl
          · next htotal => exact if_pos (hfull.resolve_left htotal)
    | _ => exact hfull.elim
  rw [act_of_call rfl hp, hrefused, domainOf, List.append_nil, List.append_nil]
  exact nofun

end

/-! ### Every run -/

/-- **The caps are kept in every run whose domains all fit.** -/
theorem domainsKept_of_guarded {caps : CustomDomainsCaps} {now : Int} {as : List Action}
    {t : State} (hg : Guarded (step caps) (Fits caps) (start now) as)
    (hr : run (step caps) (start now) as = some t) : DomainsKept caps t := by
  have hinv : Inv caps t := by
    refine invariant_of_guarded (G := Fits caps) (fun s a s' h hg hs' => ?_) as (start now) t
      (inv_start caps now) hg hr
    obtain rfl := Option.some.inj hs'
    exact inv_act h hg
  exact ⟨hinv.total, hinv.perDay, fun _ _ hp hfull => act_decide_of_full hp hfull⟩

/-- One mail goes out and is recorded, and the next one is refused. -/
def secondMailRefused : List MailCaps.Action :=
  [.ask false true, .countHour 0, .countDay 0, .decide 0, .deliver 0 .succeeded, .record 0 true,
    .ask true false, .countDay 1, .countHour 1, .decide 1, .deliver 1 .succeeded]

/-- One domain is added, and the next one is refused. -/
def secondDomainRefused : List Action :=
  [.add true, .countTotal 0, .countToday 0, .decide 0, .open_ 0, .commit 0,
    .add true, .countToday 1, .countTotal 1, .decide 1, .open_ 1, .commit 1]

/-- Both mails are counted before either goes out. -/
def twoMails : List MailCaps.Action :=
  [.ask false true, .countHour 0, .countDay 0, .ask false true, .countHour 1, .countDay 1,
    .decide 0, .deliver 0 .succeeded, .decide 1, .deliver 1 .succeeded]

/-- A domain is removed before the next one is added. -/
def addedAndRemoved : List Action :=
  [.add true, .countTotal 0, .countToday 0, .decide 0, .open_ 0, .commit 0, .remove 0,
    .add true, .countTotal 1, .countToday 1, .decide 1, .open_ 1, .commit 1]

end SnapUrl.Settings.DomainCaps
