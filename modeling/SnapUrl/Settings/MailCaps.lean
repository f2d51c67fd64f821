import SnapUrl.Lib.RollingCap
import SnapUrl.Lib.Run
import SnapUrl.Settings.KillSwitches

/-!
# The caps of outbound mail

`assertEmailAllowed` and `recordSentEmail` of `apps/api/src/admin/kill-switch.service.ts`
around the transport of `apps/api/src/mail/mail.service.ts`, with the ledger of
`packages/database/src/kill-switches.ts`.

* `act`: any number of sends.  Each counts the ledger, then sends, then writes the ledger.
* `Fits`: what a send has counted, what is missing from that count, and the mail itself fit
  the caps.
* `mailsKept_of_guarded`: **no hour and no day has more mails than the caps allow, in every run
  whose mails all fit**.
-/

namespace SnapUrl.Settings.MailCaps

open Lib RollingCap

/-! ### Sends -/

/-- Spans in milliseconds. -/
def hour : Int := 60 * 60000
def day : Int := 24 * 60 * 60000

/-- A row of `email_send_log`. -/
structure LedgerRow where
  sentAt : Int
  authCritical : Bool
  /-- Ghost: the mail that the row is about. -/
  mail : Nat
deriving DecidableEq, Repr

inductive Refusal where
  | featureOff
  | perHour
  | perDay
deriving DecidableEq, Repr

inductive Phase where
  /-- Both counts are asked for, at one instant. -/
  | counting (at_ : Int) (sentHour sentDay : Option Tally)
  | allowed (sentHour sentDay : Tally)
  | refused (refusal : Refusal)
  /-- The transport has sent the mail. -/
  | sent (mail : Nat)
  | ended
deriving DecidableEq, Repr

/-- One call of `send`. -/
structure Send where
  authCritical : Bool
  phase : Phase
deriving DecidableEq, Repr

/-- What comes of a delivery. -/
inductive Delivery where
  | succeeded
  | failed
  /-- The mail went out, and the transport has raised all the same. -/
  | wentOutAndRaised
deriving DecidableEq, Repr

structure State where
  now : Int
  /-- The mails that went out. -/
  mails : List Event
  ledger : List LedgerRow
  sends : List Send
deriving DecidableEq, Repr

def start (now : Int) : State := ⟨now, [], [], []⟩

inductive Action where
  | tick (ms : Nat)
  /-- A send reads the switch: `on` is what it says. -/
  | ask (authCritical on : Bool)
  | countHour (send : Nat)
  | countDay (send : Nat)
  | countRaises (send : Nat)
  /-- The counts are compared with the caps. -/
  | decide (send : Nat)
  | deliver (send : Nat) (delivery : Delivery)
  /-- The ledger is written, where that does not raise. -/
  | record (send : Nat) (written : Bool)
  /-- `pruneEmailSendLog` with the two days of the worker. -/
  | prune
deriving DecidableEq, Repr

/-- `countEmailsSince`, by the rows it finds. -/
def countEmailsSince (ledger : List LedgerRow) (at_ window : Int) : Tally :=
  ⟨at_ - window, (ledger.filter fun row => at_ - window ≤ row.sentAt).map LedgerRow.mail⟩

/-- What the counts come to. -/
def decision (caps : EmailCaps) (sentHour sentDay : Tally) : Phase :=
  if caps.perHour ≤ sentHour.found.length then .refused .perHour
  else if caps.perDay ≤ sentDay.found.length then .refused .perDay
  else .allowed sentHour sentDay

/-- What a send does next. -/
def nextPhase (caps : EmailCaps) (s : State) (p : Phase) : Action → Phase
  | .countHour _ =>
    match p with
    | .counting at_ none sentDay =>
      .counting at_ (some (countEmailsSince s.ledger at_ hour)) sentDay
    | _ => p
  | .countDay _ =>
    match p with
    | .counting at_ sentHour none =>
      .counting at_ sentHour (some (countEmailsSince s.ledger at_ day))
    | _ => p
  | .countRaises _ =>
    match p with
    -- a count that raises is read as a full hour
    | .counting _ _ _ => .refused .perHour
    | _ => p
  | .decide _ =>
    match p with
    | .counting _ (some sentHour) (some sentDay) => decision caps sentHour sentDay
    | _ => p
  | .deliver _ delivery =>
    match p, delivery with
    | .allowed _ _, .succeeded => .sent s.mails.length
    | .allowed _ _, _ => .ended
    | _, _ => p
  | .record _ _ =>
    match p with
    | .sent _ => .ended
    | _ => p
  | _ => p

/-- The mail that goes out. -/
def mailOf (s : State) (p : Phase) : Action → List Event
  | .deliver _ delivery =>
    match p, delivery with
    | .allowed _ _, .failed => []
    | .allowed _ _, _ => [⟨s.mails.length, s.now⟩]
    | _, _ => []
  | _ => []

/-- The ledger row that is written. -/
def rowOf (s : State) (send : Send) : Action → List LedgerRow
  | .record _ written =>
    match send.phase with
    | .sent mail => if written then [⟨s.now, send.authCritical, mail⟩] else []
    | _ => []
  | _ => []

/-- The send that an action is about. -/
def Action.send : Action → Option Nat
  | .countHour i => some i
  | .countDay i => some i
  | .countRaises i => some i
  | .decide i => some i
  | .deliver i _ => some i
  | .record i _ => some i
  | _ => none

/-- A send that reads the switch.  Auth-critical mail goes past a switch that is off. -/
def asked (now : Int) (authCritical on : Bool) : Send :=
  ⟨authCritical, if !on && !authCritical then .refused .featureOff else .counting now none none⟩

/-- What an action does, nothing when there is no such send. -/
def act (caps : EmailCaps) (s : State) (a : Action) : State :=
  match a with
  | .tick ms => { s with now := s.now + ms }
  | .ask authCritical on => { s with sends := s.sends ++ [asked s.now authCritical on] }
  | .prune => { s with ledger := s.ledger.filter fun row => s.now - 2 * day ≤ row.sentAt }
  | _ =>
    match a.send.bind fun i => s.sends[i]?.map fun send => (i, send) with
    | none => s
    | some (i, send) =>
      { s with
        mails := s.mails ++ mailOf s send.phase a
        ledger := s.ledger ++ rowOf s send a
        sends := s.sends.set i { send with phase := nextPhase caps s send.phase a } }

def step (caps : EmailCaps) (s : State) (a : Action) : Option State := some (act caps s a)

/-! ### What is claimed of a run -/

/-- A send that has found a cap reached. -/
def Phase.full (caps : EmailCaps) : Phase → Prop
  | .counting _ (some sentHour) (some sentDay) =>
    caps.perHour ≤ sentHour.found.length ∨ caps.perDay ≤ sentDay.found.length
  | _ => False

/-- What holds of every state that is reached. -/
structure MailsKept (caps : EmailCaps) (s : State) : Prop where
  /-- **No rolling hour has more mails than the cap.** -/
  perHour : Within hour caps.perHour s.mails
  /-- **No rolling day has.** -/
  perDay : Within day caps.perDay s.mails
  /-- **A send that has found a cap reached is refused, and changes nothing.** -/
  refused : ∀ (i : Nat) (send : Send), s.sends[i]? = some send → send.phase.full caps →
    ∃ refusal, act caps s (.decide i) =
      { s with sends := s.sends.set i { send with phase := .refused refusal } }

/-- The counts on which a send was allowed. -/
def Phase.counts : Phase → Option (Tally × Tally)
  | .allowed sentHour sentDay => some (sentHour, sentDay)
  | _ => none

/-- **A mail goes out while it fits**: what its counts have found, what is missing from them,
and the mail itself are within the caps. -/
def Fits (caps : EmailCaps) (s : State) : Action → Prop
  | .deliver i _ => ∀ send ∈ s.sends[i]?, ∀ counts ∈ send.phase.counts,
    counts.1.Fits caps.perHour s.mails ∧ counts.2.Fits caps.perDay s.mails
  | _ => True

instance (caps : EmailCaps) (s : State) (a : Action) : Decidable (Fits caps s a) := by
  cases a with
  | deliver i delivery =>
    exact inferInstanceAs (Decidable (∀ send ∈ s.sends[i]?, ∀ counts ∈ send.phase.counts,
      counts.1.Fits caps.perHour s.mails ∧ counts.2.Fits caps.perDay s.mails))
  | _ => exact isTrue trivial

/-! ### What one step keeps -/

/-- The counts of a send are of the spans that end when they were asked for. -/
def Phase.Sound (now : Int) : Phase → Prop
  | .counting at_ sentHour sentDay =>
    at_ ≤ now ∧ (∀ t ∈ sentHour, t.since = at_ - hour) ∧ ∀ t ∈ sentDay, t.since = at_ - day
  | .allowed sentHour sentDay => sentHour.since + hour ≤ now ∧ sentDay.since + day ≤ now
  | _ => True

structure Inv (caps : EmailCaps) (s : State) : Prop where
  perHour : Within hour caps.perHour s.mails
  perDay : Within day caps.perDay s.mails
  ids : s.mails.map Event.id = List.range s.mails.length
  sound : ∀ send ∈ s.sends, send.phase.Sound s.now

theorem inv_start (caps : EmailCaps) (now : Int) : Inv caps (start now) where
  perHour := within_nil
  perDay := within_nil
  ids := rfl
  sound _ h := absurd h List.not_mem_nil

section

variable {caps : EmailCaps} {s : State}

theorem Phase.Sound.mono {p : Phase} {now now' : Int} (h : p.Sound now) (hle : now ≤ now') :
    p.Sound now' := by
  cases p with
  | counting at_ sentHour sentDay => exact ⟨h.1.trans hle, h.2⟩
  | allowed sentHour sentDay => exact ⟨h.1.trans hle, h.2.trans hle⟩
  | _ => trivial

theorem sound_decision {at_ : Int} {sentHour sentDay : Tally}
    (h : (Phase.counting at_ (some sentHour) (some sentDay)).Sound s.now) :
    (decision caps sentHour sentDay).Sound s.now := by
  obtain ⟨hat, hhour, hday⟩ := h
  rw [decision]
  split
  · trivial
  split
  · trivial
  refine ⟨?_, ?_⟩
  · rw [hhour sentHour rfl, Int.sub_add_cancel]
    exact hat
  · rw [hday sentDay rfl, Int.sub_add_cancel]
    exact hat

/-- What a send knows stays true when it moves on. -/
theorem sound_nextPhase {p : Phase} (h : p.Sound s.now) (a : Action) :
    (nextPhase caps s p a).Sound s.now := by
  cases a with
  | countHour i =>
    unfold nextPhase
    dsimp only
    split
    · exact ⟨h.1, fun t ht => Option.mem_some_iff.mp ht ▸ rfl, h.2.2⟩
    · exact h
  | countDay i =>
    unfold nextPhase
    dsimp only
    split
    · exact ⟨h.1, h.2.1, fun t ht => Option.mem_some_iff.mp ht ▸ rfl⟩
    · exact h
  | countRaises i =>
    unfold nextPhase
    dsimp only
    split
    · trivial
    · exact h
  | decide i =>
    unfold nextPhase
    dsimp only
    split
    · exact sound_decision h
    · exact h
  | deliver i delivery =>
    unfold nextPhase
    dsimp only
    split
    · trivial
    · trivial
    · exact h
  | record i written =>
    unfold nextPhase
    dsimp only
    split
    · trivial
    · exact h
  | _ => exact h

/-- A mail goes out only once it was allowed. -/
theorem mailOf_eq (p : Phase) (a : Action) : mailOf s p a = [] ∨
    ∃ i delivery sentHour sentDay, a = .deliver i delivery ∧ p = .allowed sentHour sentDay ∧
      mailOf s p a = [⟨s.mails.length, s.now⟩] := by
  cases a with
  | deliver i delivery =>
    unfold mailOf
    dsimp only
    split
    · exact Or.inl rfl
    · next sentHour sentDay _ => exact Or.inr ⟨i, delivery, sentHour, sentDay, rfl, rfl, rfl⟩
    · exact Or.inl rfl
  | _ => exact Or.inl rfl

/-- **A mail that fits keeps the caps.** -/
theorem Inv.mail (h : Inv caps s) {sentHour sentDay : Tally}
    (hsound : (Phase.allowed sentHour sentDay).Sound s.now)
    (hfits : sentHour.Fits caps.perHour s.mails ∧ sentDay.Fits caps.perDay s.mails) :
    Inv caps { s with mails := s.mails ++ [⟨s.mails.length, s.now⟩] } where
  perHour := within_append h.perHour (h.ids ▸ List.nodup_range) hsound.1 hfits.1
  perDay := within_append h.perDay (h.ids ▸ List.nodup_range) hsound.2 hfits.2
  ids := by
    rw [List.map_append, h.ids, List.length_append, List.length_singleton, List.range_succ]
    rfl
  sound := h.sound

/-- A send that moves on, with the mail that goes out and the row that is written. -/
theorem Inv.move (h : Inv caps s) {a : Action} (hg : Fits caps s a) {i : Nat} {send : Send}
    (hi : a.send = some i) (hsend : s.sends[i]? = some send) :
    Inv caps
      { s with
        mails := s.mails ++ mailOf s send.phase a
        ledger := s.ledger ++ rowOf s send a
        sends := s.sends.set i { send with phase := nextPhase caps s send.phase a } } := by
  have hsound := h.sound send (List.mem_of_getElem? hsend)
  have hmails : Inv caps { s with mails := s.mails ++ mailOf s send.phase a } := by
    rcases mailOf_eq (s := s) send.phase a with
      hnone | ⟨j, delivery, sentHour, sentDay, rfl, hp, hone⟩
    · rw [hnone, List.append_nil]
      exact h
    · obtain rfl := Option.some.inj hi
      rw [hone]
      exact h.mail (hp ▸ hsound) (hg send hsend (sentHour, sentDay) (by rw [hp]; rfl))
  refine ⟨hmails.perHour, hmails.perDay, hmails.ids, fun send' hsend' => ?_⟩
  rcases List.mem_or_eq_of_mem_set hsend' with hmem | rfl
  · exact h.sound send' hmem
  · exact sound_nextPhase hsound a

/-- The actions of one send. -/
theorem act_of_send {a : Action} {i : Nat} {send : Send} (hi : a.send = some i)
    (hsend : s.sends[i]? = some send) : act caps s a =
      { s with
        mails := s.mails ++ mailOf s send.phase a
        ledger := s.ledger ++ rowOf s send a
        sends := s.sends.set i { send with phase := nextPhase caps s send.phase a } } := by
  cases a with
  | tick ms => exact nomatch hi
  | ask authCritical on => exact nomatch hi
  | prune => exact nomatch hi
  | _ => simp only [act, hi, Option.bind_some, hsend, Option.map_some]

theorem act_of_send_none {a : Action} {i : Nat} (hi : a.send = some i)
    (hsend : s.sends[i]? = none) : act caps s a = s := by
  cases a with
  | tick ms => exact nomatch hi
  | ask authCritical on => exact nomatch hi
  | prune => exact nomatch hi
  | _ => simp only [act, hi, Option.bind_some, hsend, Option.map_none]

/-- **Every step whose mail fits keeps the invariant.** -/
theorem inv_act (h : Inv caps s) {a : Action} (hg : Fits caps s a) : Inv caps (act caps s a) := by
  cases hi : a.send with
  | some i =>
    cases hsend : s.sends[i]? with
    | some send =>
      rw [act_of_send hi hsend]
      exact h.move hg hi hsend
    | none =>
      rw [act_of_send_none hi hsend]
      exact h
  | none =>
    cases a with
    | tick ms =>
      exact ⟨h.perHour, h.perDay, h.ids, fun send hsend =>
        (h.sound send hsend).mono (by simp only [act]; omega)⟩
    | ask authCritical on =>
      refine ⟨h.perHour, h.perDay, h.ids, fun send hsend => ?_⟩
      rcases List.mem_append.mp hsend with hmem | hmem
      · exact h.sound send hmem
      · rw [List.mem_singleton.mp hmem, asked]
        split
        · trivial
        · exact ⟨le_rfl, fun _ ht => absurd ht (Option.not_mem_none _),
            fun _ ht => absurd ht (Option.not_mem_none _)⟩
    | prune => exact ⟨h.perHour, h.perDay, h.ids, h.sound⟩
    | _ => exact nomatch hi

/-- A send that has found a cap reached comes to nothing. -/
theorem act_decide_of_full {i : Nat} {send : Send} (hsend : s.sends[i]? = some send)
    (hfull : send.phase.full caps) : ∃ refusal, act caps s (.decide i) =
      { s with sends := s.sends.set i { send with phase := .refused refusal } } := by
  rw [act_of_send rfl hsend]
  have hrefused : ∃ refusal, nextPhase caps s send.phase (.decide i) = .refused refusal := by
    cases hp : send.phase with
    | counting at_ sentHour sentDay =>
      rw [hp] at hfull
      cases sentHour with
      | none => exact hfull.elim
      | some sentHour =>
        cases sentDay with
        | none => exact hfull.elim
        | some sentDay =>
          rw [nextPhase, decision]
          split
          · exact ⟨_, rfl⟩
          · next hhour => exact ⟨.perDay, if_pos (hfull.resolve_left hhour)⟩
    | _ =>
      rw [hp] at hfull
      exact hfull.elim
  obtain ⟨refusal, hrefused⟩ := hrefused
  refine ⟨refusal, ?_⟩
  rw [hrefused, mailOf, rowOf, List.append_nil, List.append_nil]
  all_goals exact nofun

end

/-! ### Every run -/

/-- **The caps are kept in every run whose mails all fit.** -/
theorem mailsKept_of_guarded {caps : EmailCaps} {now : Int} {as : List Action} {t : State}
    (hg : Guarded (step caps) (Fits caps) (start now) as)
    (hr : run (step caps) (start now) as = some t) : MailsKept caps t := by
  have hinv : Inv caps t := by
    refine invariant_of_guarded (G := Fits caps) (fun s a s' h hg hs' => ?_) as (start now) t
      (inv_start caps now) hg hr
    obtain rfl := Option.some.inj hs'
    exact inv_act h hg
  exact ⟨hinv.perHour, hinv.perDay, fun _ _ hsend hfull => act_decide_of_full hsend hfull⟩

end SnapUrl.Settings.MailCaps
