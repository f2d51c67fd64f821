import SnapUrl.Redirect.ClickReservation
import SnapUrl.Rollup.Batches

/-!
# The click limit and the clicks the owner sees

Two columns of `link_counters` count a link's clicks.  `reserved` is raised by
`click-reservation.ts` when a visitor of a limited link comes, and decides who is
refused; `clicks` is written by `rollupClicks` from the clicks that were recorded, and
is what the dashboard shows and `lifecycleGate` reads.  The owner may set, move or
clear the limit at any time, and a visit may still see an older one in a cache.

* `World`, `step`: one link with its visits, its edits and the rollups.
* `Agree`: the redirect refuses a visitor for the limit exactly when the gate, fed with
  `clicks`, says so.
* `Balanced`: `reserved` is `clicks`, what the next rollups will add to it, and the
  places of the visits under way.
* `agree_of_matched`: **in every run whose visits take a place exactly when they are
  counted, the two views agree once everything is rolled up.**
* `late_limit_disagrees`: a limit set after the first click.
-/

namespace SnapUrl.Redirect.LimitCounts

open Lib Domain Rollup

/-! ### The link and its visits -/

structure World where
  /-- `links.click_limit`. -/
  clickLimit : Option Int
  /-- The limits the link had before, which a cache may still hold. -/
  former : List (Option Int)
  /-- The `reserved` column of the link's counters, none while there is no row. -/
  counter : Option Int
  /-- The tables of the rollup, and the recorded clicks it has not taken yet. -/
  intake : Intake
  visits : List Visit

def World.reserved (s : World) : Int := s.counter.getD 0

/-- `link_counters.clicks`, the count the owner sees. -/
def World.clicks (id : String) (s : World) : Int := (s.intake.tables.counters id).clicks

/-- The columns of a recorded click that nothing here reads, and its id and time. -/
structure Columns where
  id : String
  occurredAt : Int
  isQr : Bool
  country : Option String
  city : Option String
  device : Option String
  browser : Option String
  referrerHost : Option String
deriving DecidableEq, Repr

inductive Action where
  /-- The owner sets, moves or clears the limit. -/
  | setLimit (limit : Option Int)
  /-- A visit, with the link as the cache has it. -/
  | arrive (req : Request) (now : Int) (link : ResolvedLink) (salt : Option String)
  | reserve (i : Nat)
  /-- A visit is answered, its click recorded unless the sink fails. -/
  | finish (i : Nat) (columns : Option Columns)
  /-- A visit ends in an error, at any point. -/
  | fail (i : Nat)
  /-- A click of another link. -/
  | elsewhere (e : ClickRow)
  | rollup (a : Attempt)

/-- The text of a gate in `blocked_reason`. -/
def gateText : EffectiveGate → String
  | .disabled => "disabled"
  | .not_active => "not_active"
  | .archived => "archived"
  | .flagged => "flagged"
  | .expired => "expired"
  | .click_limit => "click_limit"
  | .scheduled => "scheduled"

def userAgentOf (v : Visit) : String := orEmpty v.req.userAgent

/-- `record`, whose errors are swallowed: the click of an answered visit, if there is one. -/
def record (p : Platform) (cfg : Config) (v : Visit) (columns : Option Columns) :
    Option ClickRow :=
  match (handle p cfg v.req v.answers).recorded, v.salt, columns with
  | some click, some salt, some c =>
    let ip := clientIpFromXff v.req.xForwardedFor v.req.socketIp cfg.trustedProxyHops
    some
      { id := c.id
        linkId := v.link.id
        workspaceId := v.link.workspaceId
        occurredAt := c.occurredAt
        visitorHash := visitorHash p salt ip (userAgentOf v) v.link.id
        isBot := isBot (userAgentOf v)
        blockedReason := click.blockedReason.map gateText
        isQr := c.isQr
        country := c.country
        city := c.city
        device := c.device
        browser := c.browser
        referrerHost := c.referrerHost }
  | _, _, _ => none

/-- A new link, in a database that is new as well. -/
def World.start (limit : Option Int) : World := ⟨limit, [], none, ⟨.empty, 0⟩, []⟩

/-- One step of the link with this id. -/
def step (p : Platform) (cfg : Config) (estimate : Sketch → Nat) (id : String) (s : World) :
    Action → Option World
  | .setLimit limit => some { s with clickLimit := limit, former := s.clickLimit :: s.former }
  | .arrive req now link salt =>
    if link.id = id ∧ link.clickLimit ∈ s.clickLimit :: s.former then
      some { s with visits := s.visits ++ [⟨req, now, link, salt, none, none⟩] }
    else none
  | .reserve i =>
    match s.visits[i]? with
    | none => none
    | some v =>
      if v.needs p ∧ v.verdict = none ∧ v.exit = none then
        -- only a limited link needs one
        let r := Redirect.reserve s.counter (v.link.clickLimit.getD 0)
        some { s with counter := r.1, visits := s.visits.set i { v with verdict := some r.2 } }
      else none
  | .finish i columns =>
    match s.visits[i]? with
    | none => none
    | some v =>
      if v.exit = none ∧ (v.needs p → v.verdict ≠ none) then
        some { s with
          visits := s.visits.set i { v with exit := some (v.result p cfg) }
          intake := { s.intake with
            pending := s.intake.pending + ((record p cfg v columns).toList : Multiset ClickRow) } }
      else none
  | .fail i =>
    match s.visits[i]? with
    | none => none
    | some v =>
      if v.exit = none then some { s with visits := s.visits.set i { v with exit := some .failed } }
      else none
  | .elsewhere e =>
    if e.linkId ≠ id then
      some { s with intake := { s.intake with pending := e ::ₘ s.intake.pending } }
    else none
  | .rollup a =>
    (attempt estimate s.intake a).map fun intake =>
      { s with
        intake := intake
        -- the upsert of the counters gives a new row no reservation
        counter := if intake.pending = s.intake.pending then s.counter else some s.reserved }

/-! ### What the two views say -/

/-- Everything that was recorded of the link is rolled up, and no visit is under way. -/
def Settled (id : String) (s : World) : Prop :=
  (∀ e ∈ s.intake.pending, e.linkId ≠ id) ∧ ∀ v ∈ s.visits, v.exit ≠ none

instance (id : String) (s : World) : Decidable (Settled id s) :=
  inferInstanceAs (Decidable (_ ∧ _))

/-- A visit of the link as it is now, which no gate above the lifecycle stops. -/
structure Visits (id : String) (s : World) (v : Visit) : Prop where
  link : v.link.id = id
  clickLimit : v.link.clickLimit = s.clickLimit
  clicks : v.link.clicks = s.clicks id
  plain : endsWith v.req.rawSlug "+" = false
  enabled : v.link.disabled = false
  verified : v.link.ownerUnverified = false
  clean : v.link.safeBrowsingStatus ≠ "flagged"

/-- The visit with the verdict it gets on its own. -/
def World.served (p : Platform) (s : World) (v : Visit) : Visit :=
  let r := Redirect.reserve s.counter (v.link.clickLimit.getD 0)
  { v with verdict := if v.needs p then some r.2 else none }

def World.answer (p : Platform) (cfg : Config) (s : World) (v : Visit) : Exit :=
  (s.served p v).result p cfg

/-- **The redirect refuses a visitor for the limit exactly when the gate over the
owner's count says that it is reached.** -/
def Agree (p : Platform) (cfg : Config) (id : String) (s : World) : Prop :=
  ∀ v, Visits id s v → (s.answer p cfg v = .errorPage .click_limit none ↔
    lifecycleGate p v.link.gateInput v.now = some .click_limit)

/-! ### Which visits are counted once in each column -/

def human (v : Visit) : Bool := !isBot (userAgentOf v)

/-- A human's visit that nothing but the gate keeps from being routed, and whose click
is recorded. -/
def countable (p : Platform) (cfg : Config) (v : Visit) (columns : Option Columns) : Bool :=
  human v && v.clear p cfg && columns.isSome

/-- The gate is open. -/
def isOpen (p : Platform) (v : Visit) : Bool :=
  !endsWith v.req.rawSlug "+" && gateFor p v.link v.now = none

/-- **A visit takes a place exactly when its click counts**: one that was granted a place
is a human's that gets past the password page, and its click is recorded; and while the
link, as the visit sees it, has no limit, no such visit comes through. -/
def Matched (p : Platform) (cfg : Config) (s : World) : Action → Prop
  | .finish i columns => ∀ v ∈ s.visits[i]?,
      (v.verdict = some true → countable p cfg v columns = true) ∧
        (v.link.clickLimit = none → isOpen p v = true → countable p cfg v columns = false)
  | .fail i => ∀ v ∈ s.visits[i]?, v.verdict ≠ some true
  | _ => True

instance (p : Platform) (cfg : Config) (s : World) : ∀ a, Decidable (Matched p cfg s a)
  | .finish i _ => inferInstanceAs (Decidable (∀ v ∈ s.visits[i]?, _ ∧ _))
  | .fail i => inferInstanceAs (Decidable (∀ v ∈ s.visits[i]?, _))
  | .setLimit _ => isTrue trivial
  | .arrive .. => isTrue trivial
  | .reserve _ => isTrue trivial
  | .elsewhere _ => isTrue trivial
  | .rollup _ => isTrue trivial

/-- The clicks of the link that the next rollups add to its count. -/
def World.due (id : String) (s : World) : Nat :=
  s.intake.pending.countP fun e => e.linkId = id ∧ e.counted = true

def World.inFlight (s : World) : Nat := s.visits.countP Visit.inFlight

/-- **The two counts differ by what is on its way.** -/
def Balanced (id : String) (s : World) : Prop := s.reserved = s.clicks id + s.due id + s.inFlight

/-! ### What one visit adds -/

section

variable {p : Platform} {cfg : Config} {estimate : Sketch → Nat} {id : String} {v : Visit}
  {columns : Option Columns}

theorem salt_of_isRouted (h : (v.result p cfg).isRouted = true) : v.salt.isSome = true :=
  let ⟨_, _, _, _, _, hsalt⟩ := (handle_routed_iff v.answers).mp h
  hsalt

/-- What is recorded of a visit counts when a human's is routed. -/
theorem counted_record : (record p cfg v columns).any (·.counted) =
    (human v && (v.result p cfg).isRouted && columns.isSome) := by
  have hrouted : (handle p cfg v.req v.answers).recorded.any (·.blockedReason.isNone) =
      (v.result p cfg).isRouted := recorded_handle v.answers
  have hsalt : (v.result p cfg).isRouted = true → v.salt.isSome = true := salt_of_isRouted
  rw [record.eq_def]
  cases hclick : (handle p cfg v.req v.answers).recorded with
  | none =>
    rw [hclick, Option.any_none] at hrouted
    simp [← hrouted]
  | some click =>
    rw [hclick, Option.any_some] at hrouted
    cases hs : v.salt with
    | none =>
      rw [hs] at hsalt
      simp [Bool.eq_false_iff.mpr fun h => absurd (hsalt h) (by simp)]
    | some salt =>
      cases columns with
      | none => simp
      | some c =>
        rw [← hrouted]
        cases hreason : click.blockedReason <;> simp [ClickEvent.counted, human, hreason]

theorem linkId_of_record {e : ClickRow} (h : record p cfg v columns = some e) :
    e.linkId = v.link.id := by
  rw [record.eq_def] at h
  split at h
  · rw [← Option.some.inj h]
  · simp at h

/-- How many clicks of the link an answered visit adds to those the rollup counts. -/
theorem due_record (hours : v.link.id = id) :
    ((record p cfg v columns).toList : Multiset ClickRow).countP
        (fun e => e.linkId = id ∧ e.counted = true) =
      (human v && (v.result p cfg).isRouted && columns.isSome).toNat := by
  rw [← counted_record]
  cases hrecord : record p cfg v columns with
  | none => rfl
  | some e =>
    have hlink : e.linkId = id := (linkId_of_record hrecord).trans hours
    rw [Option.toList_some, Multiset.coe_countP]
    cases hcounted : e.counted <;> simp [hlink, hcounted]

/-- A visit that sees no limit is routed only through an open gate. -/
theorem isOpen_of_isRouted (hlimit : v.link.clickLimit = none)
    (h : (v.result p cfg).isRouted = true) : isOpen p v = true ∧ v.clear p cfg = true := by
  obtain ⟨hplain, link, hlink, hpasses, hpassword, hsalt⟩ := (handle_routed_iff v.answers).mp h
  obtain rfl : v.link = link := Option.mem_some_iff.mp hlink
  constructor
  · rcases passesGate_cases hpasses with hopen | ⟨hcount, _⟩
    · have hgate : gateFor p v.link v.now = none := hopen
      simp [isOpen, hplain, hgate]
    · obtain ⟨limit, hsome, _⟩ := holds_of_effectiveGate hcount
      exact absurd (hlimit.symm.trans hsome) (by simp)
  · have hsalt' : v.salt.isSome = true := hsalt
    cases hlocked : v.link.hasPassword with
    | false => simp [Visit.clear, hlocked, hsalt']
    | true => simp [Visit.clear, hpassword hlocked, hsalt']

/-- **A visit that ends as the guard says counts exactly when it took a place.** -/
theorem counted_iff_granted (hneeded : v.verdict = some true → v.needs p = true)
    (hready : v.needs p = true → v.verdict ≠ none)
    (hgranted : v.verdict = some true → countable p cfg v columns = true)
    (hunlimited : v.link.clickLimit = none → isOpen p v = true →
      countable p cfg v columns = false) :
    (human v && (v.result p cfg).isRouted && columns.isSome) = true ↔
      v.verdict = some true := by
  simp only [countable, Bool.and_eq_true, Bool.and_eq_false_iff] at hgranted hunlimited
  rw [Bool.and_eq_true, Bool.and_eq_true]
  constructor
  · rintro ⟨⟨hhuman, hrouted⟩, hrecorded⟩
    cases hlimit : v.link.clickLimit with
    | some limit => exact verdict_of_result_isRouted hlimit hready hrouted
    | none =>
      obtain ⟨hopen, hclear⟩ := isOpen_of_isRouted hlimit hrouted
      have hnot := hunlimited hlimit hopen
      rw [hhuman, hclear, hrecorded] at hnot
      simp at hnot
  · intro htrue
    obtain ⟨⟨hhuman, hclear⟩, hrecorded⟩ := hgranted htrue
    exact ⟨⟨hhuman, result_isRouted (hneeded htrue) htrue hclear⟩, hrecorded⟩

end

/-! ### The balance over a run -/

/-- **What every run keeps whose visits take a place exactly when they count.** -/
structure Inv (p : Platform) (id : String) (s : World) : Prop where
  ours : ∀ v ∈ s.visits, v.link.id = id
  /-- The count is the sum of the days. -/
  summed : (s.intake.tables.counters id).clicks = (s.intake.tables.total id).clicks
  needed : ∀ v ∈ s.visits, v.verdict = some true → v.needs p = true
  balanced : Balanced id s

section Steps

variable {p : Platform} {cfg : Config} {estimate : Sketch → Nat} {id : String} {s s' : World}
  {v : Visit} {pre post : List Visit}

theorem Inv.reserved_nonneg (h : Inv p id s) : 0 ≤ s.reserved := by
  rw [h.balanced, World.clicks]
  omega

/-- A change of one visit that is no reservation under way before and after it. -/
theorem inFlight_changed {v' : Visit} (h : v'.inFlight = v.inFlight) :
    (pre ++ v' :: post).countP Visit.inFlight = (pre ++ v :: post).countP Visit.inFlight := by
  rw [List.countP_append, List.countP_append, List.countP_cons, List.countP_cons, h]

theorem inFlight_ended (v : Visit) (e : Exit) : { v with exit := some e }.inFlight = false := by
  simp [Visit.inFlight]

theorem Inv.arrive (h : Inv p id s) (req : Request) (now : Int) {link : ResolvedLink}
    (salt : Option String) (hlink : link.id = id) :
    Inv p id { s with visits := s.visits ++ [⟨req, now, link, salt, none, none⟩] } where
  ours := by
    intro v hv
    rcases List.mem_append.mp hv with hv | hv
    · exact h.ours v hv
    · rw [List.mem_singleton.mp hv]
      exact hlink
  summed := h.summed
  needed := by
    intro v hv hgranted
    rcases List.mem_append.mp hv with hv | hv
    · exact h.needed v hv hgranted
    · simp [List.mem_singleton.mp hv] at hgranted
  balanced := by
    have hbalanced := h.balanced
    have hnew : [(⟨req, now, link, salt, none, none⟩ : Visit)].countP Visit.inFlight = 0 := rfl
    rw [Balanced, World.inFlight] at hbalanced ⊢
    rw [List.countP_append, hnew, add_zero]
    exact hbalanced

/-- A reservation counts a visit under way, or is refused and changes nothing else. -/
theorem Inv.reserve (h : Inv p id s) (hsplit : s.visits = pre ++ v :: post)
    (hneeds : v.needs p = true) (hverdict : v.verdict = none) (hexit : v.exit = none)
    (limit : Int) :
    let r := Redirect.reserve s.counter limit
    Inv p id { s with
      counter := r.1, visits := pre ++ { v with verdict := some r.2 } :: post } where
  ours := forall_mem_changed (hsplit ▸ h.ours) (h.ours v (by simp [hsplit]))
  summed := h.summed
  needed := forall_mem_changed (hsplit ▸ h.needed) fun _ => hneeds
  balanced := by
    have hbalanced := h.balanced
    rw [Balanced, World.inFlight, hsplit, World.reserved] at hbalanced
    rw [Balanced, World.inFlight, World.reserved]
    change _ = s.clicks id + s.due id + _
    have hidle : v.inFlight = false := by simp [Visit.inFlight, hverdict]
    rcases reserve_cases limit h.reserved_nonneg with ⟨hr, _⟩ | ⟨hr, _⟩
    · have hnew : { v with verdict := some true }.inFlight = true := by
        simp [Visit.inFlight, hexit]
      rw [List.countP_append, List.countP_cons, hidle] at hbalanced
      simp only [hr, List.countP_append, List.countP_cons, hnew, Option.getD_some]
      simp at hbalanced ⊢
      omega
    · have hnew : { v with verdict := some false }.inFlight = v.inFlight := by
        simp [Visit.inFlight, hverdict]
      simp only [hr, inFlight_changed hnew]
      exact hbalanced

/-- A visit that took a place adds its click to those that are due, and no other does. -/
theorem Inv.finish (h : Inv p id s) (hsplit : s.visits = pre ++ v :: post) (hexit : v.exit = none)
    {columns : Option Columns} (hcounted :
      (human v && (v.result p cfg).isRouted && columns.isSome) = true ↔ v.verdict = some true) :
    let clicks : Multiset ClickRow := (record p cfg v columns).toList
    Inv p id { s with
      visits := pre ++ { v with exit := some (v.result p cfg) } :: post
      intake := { s.intake with pending := s.intake.pending + clicks } } where
  ours := forall_mem_changed (hsplit ▸ h.ours) (h.ours v (by simp [hsplit]))
  summed := h.summed
  needed := forall_mem_changed (hsplit ▸ h.needed) (h.needed v (by simp [hsplit]))
  balanced := by
    have hbalanced := h.balanced
    have hours : v.link.id = id := h.ours v (by simp [hsplit])
    rw [Balanced, World.inFlight, hsplit, List.countP_append, List.countP_cons] at hbalanced
    rw [Balanced, World.inFlight, World.due, Multiset.countP_add, due_record hours,
      List.countP_append, List.countP_cons, inFlight_ended]
    change s.reserved = s.clicks id + ((s.due id + _ : Nat) : Int) + _
    have hflight : v.inFlight = (human v && (v.result p cfg).isRouted && columns.isSome) := by
      rw [Bool.eq_iff_iff, hcounted]
      simp [Visit.inFlight, hexit]
    rw [← hflight]
    cases hv : v.inFlight <;> simp [hv] at hbalanced ⊢ <;> omega

/-- A visit that fails took no place. -/
theorem Inv.fail (h : Inv p id s) (hsplit : s.visits = pre ++ v :: post)
    (hplace : v.verdict ≠ some true) :
    Inv p id { s with visits := pre ++ { v with exit := some .failed } :: post } where
  ours := forall_mem_changed (hsplit ▸ h.ours) (h.ours v (by simp [hsplit]))
  summed := h.summed
  needed := forall_mem_changed (hsplit ▸ h.needed) (h.needed v (by simp [hsplit]))
  balanced := by
    have hbalanced := h.balanced
    have hidle : v.inFlight = false := by simp [Visit.inFlight, hplace]
    rw [Balanced, World.inFlight, hsplit] at hbalanced
    rw [Balanced, World.inFlight, inFlight_changed ((inFlight_ended v .failed).trans hidle.symm)]
    exact hbalanced

/-- A click of another link is not due here. -/
theorem Inv.elsewhere (h : Inv p id s) {e : ClickRow} (he : e.linkId ≠ id) :
    Inv p id { s with intake := { s.intake with pending := e ::ₘ s.intake.pending } } where
  ours := h.ours
  summed := h.summed
  needed := h.needed
  balanced := by
    have hbalanced := h.balanced
    rw [Balanced, World.due] at hbalanced ⊢
    rw [Multiset.countP_cons_of_neg _ fun hcounts => he hcounts.1]
    exact hbalanced

/-- **A rollup moves clicks from those due to the count.** -/
theorem clicks_attempt {a : Attempt} {intake intake' : Intake}
    (h : attempt estimate intake a = some intake')
    (hsummed : (intake.tables.counters id).clicks = (intake.tables.total id).clicks) :
    (intake'.tables.counters id).clicks = (intake'.tables.total id).clicks ∧
      (intake'.tables.counters id).clicks +
          intake'.pending.countP (fun e => e.linkId = id ∧ e.counted = true) =
        (intake.tables.counters id).clicks +
          intake.pending.countP fun e => e.linkId = id ∧ e.counted = true := by
  rw [attempt] at h
  split at h
  · rename_i hle
    split at h
    · exact Option.some.inj h ▸ ⟨hsummed, rfl⟩
    split at h
    · exact Option.some.inj h ▸ ⟨hsummed, rfl⟩
    · rename_i u hu
      obtain ⟨hsum, hclicks⟩ := clicks_of_rollupClicks hu hsummed
      have hpending := Multiset.countP_le_of_le (fun e => e.linkId = id ∧ e.counted = true) hle
      rw [Multiset.coe_countP] at hpending
      rw [← Option.some.inj h]
      refine ⟨hsum, ?_⟩
      dsimp only
      rw [hclicks, Multiset.countP_sub hle, Multiset.coe_countP]
      omega
  · simp at h

theorem Inv.rollup (h : Inv p id s) {a : Attempt} {intake : Intake}
    (hattempt : attempt estimate s.intake a = some intake) :
    Inv p id { s with
      intake := intake
      counter := if intake.pending = s.intake.pending then s.counter else some s.reserved } where
  ours := h.ours
  summed := (clicks_attempt hattempt h.summed).1
  needed := h.needed
  balanced := by
    have hbalanced := h.balanced
    have hclicks := (clicks_attempt hattempt h.summed).2
    have hreserved : (if intake.pending = s.intake.pending then s.counter
        else some s.reserved).getD 0 = s.reserved := by
      split <;> rfl
    rw [Balanced, World.clicks, World.due] at hbalanced
    change (ite _ _ _ : Option Int).getD 0 = ((intake.tables.counters id).clicks : Int) +
      (intake.pending.countP fun e => e.linkId = id ∧ e.counted = true : Nat) + s.inFlight
    rw [hreserved, hbalanced]
    omega

/-- **Every matched step keeps the balance.** -/
theorem inv_step {a : Action} (h : Inv p id s) (hmatched : Matched p cfg s a)
    (hstep : step p cfg estimate id s a = some s') : Inv p id s' := by
  cases a with
  | setLimit limit =>
    rw [← Option.some.inj hstep]
    exact ⟨h.ours, h.summed, h.needed, h.balanced⟩
  | arrive req now link salt =>
    rw [step] at hstep
    split at hstep
    · rename_i hlink
      rw [← Option.some.inj hstep]
      exact h.arrive req now salt hlink.1
    · simp at hstep
  | reserve i =>
    rw [step] at hstep
    split at hstep
    · simp at hstep
    rename_i v hv
    split at hstep
    · rename_i hready
      obtain ⟨pre, post, hsplit, hset⟩ := exists_split_of_getElem? hv
      rw [← Option.some.inj hstep, hset]
      exact h.reserve hsplit hready.1 hready.2.1 hready.2.2 _
    · simp at hstep
  | finish i columns =>
    rw [step] at hstep
    split at hstep
    · simp at hstep
    rename_i v hv
    split at hstep
    · rename_i hready
      obtain ⟨pre, post, hsplit, hset⟩ := exists_split_of_getElem? hv
      obtain ⟨hgranted, hunlimited⟩ := hmatched v hv
      rw [← Option.some.inj hstep, hset]
      exact h.finish hsplit hready.1 (counted_iff_granted (h.needed v (by simp [hsplit]))
        hready.2 hgranted hunlimited)
    · simp at hstep
  | fail i =>
    rw [step] at hstep
    split at hstep
    · simp at hstep
    rename_i v hv
    split at hstep
    · obtain ⟨pre, post, hsplit, hset⟩ := exists_split_of_getElem? hv
      rw [← Option.some.inj hstep, hset]
      exact h.fail hsplit (hmatched v hv)
    · simp at hstep
  | elsewhere e =>
    rw [step] at hstep
    split at hstep
    · rename_i he
      rw [← Option.some.inj hstep]
      exact h.elsewhere he
    · simp at hstep
  | rollup a =>
    obtain ⟨intake, hattempt, rfl⟩ := Option.map_eq_some_iff.mp hstep
    exact h.rollup hattempt

theorem inv_start (p : Platform) (id : String) (limit : Option Int) :
    Inv p id (World.start limit) where
  ours := by simp [World.start]
  summed := rfl
  needed := by simp [World.start]
  balanced := rfl

/-- No step makes the reservations negative, matched or not. -/
theorem reserved_nonneg_step (s : World) (a : Action) (s' : World) (h : 0 ≤ s.reserved)
    (hstep : step p cfg estimate id s a = some s') : 0 ≤ s'.reserved := by
  cases a <;> simp only [step, Option.map_eq_some_iff] at hstep
  case reserve i =>
    split at hstep
    · cases hstep
    split at hstep
    · obtain rfl := Option.some.inj hstep
      rcases reserve_cases _ h with ⟨hr, -⟩ | ⟨hr, -⟩ <;> rw [World.reserved, hr]
      · exact h.trans (Int.le_add_one le_rfl)
      · exact h
    · cases hstep
  case rollup =>
    obtain ⟨intake, -, rfl⟩ := hstep
    rw [World.reserved]
    dsimp only
    split <;> exact h
  all_goals
    repeat' split at hstep
    all_goals cases hstep <;> exact h

end Steps

/-! ### The two views -/

section Views

variable {p : Platform} {cfg : Config} {id : String} {s : World} {v : Visit}

/-- Below the gates of the account and of the browser, the gate is the lifecycle's. -/
theorem gateFor_eq_click_limit_iff (hv : Visits id s v) :
    gateFor p v.link v.now = some .click_limit ↔
      lifecycleGate p v.link.gateInput v.now = some .click_limit := by
  have henabled :
      ¬(v.link.gateInput.disabled = some true ∨ v.link.gateInput.disabledAt ≠ none) := by
    simp [ResolvedLink.gateInput, hv.enabled]
  have hverified : v.link.gateInput.ownerUnverified ≠ some true := by
    simp [ResolvedLink.gateInput, hv.verified]
  have hclean : v.link.gateInput.safeBrowsingStatus ≠ some "flagged" := by
    simp [ResolvedLink.gateInput, hv.clean]
  rw [gateFor, effectiveGate, if_neg henabled, if_neg hverified]
  by_cases harchived : v.link.gateInput.archived = true
  · simp [lifecycleGate, harchived]
  · rw [if_neg harchived, if_neg hclean]
    cases lifecycleGate p v.link.gateInput v.now with
    | none => simp
    | some gate => cases gate <;> simp [LifecycleGate.toEffective]

/-- A visit that needs a place gets the page of the limit when there is none left. -/
theorem answer_eq_page_iff (hreserved : 0 ≤ s.reserved) :
    s.answer p cfg v = .errorPage .click_limit none ↔
      v.needs p = true ∧ v.link.clickLimit.getD 0 ≤ s.reserved := by
  have hrefused : (Redirect.reserve s.counter (v.link.clickLimit.getD 0)).2 = false ↔
      v.link.clickLimit.getD 0 ≤ s.reserved := by
    rcases reserve_cases (v.link.clickLimit.getD 0) hreserved with ⟨hr, hroom⟩ | ⟨hr, hfull⟩
    · rw [hr]
      exact iff_of_false (by simp) (Int.not_le.mpr hroom)
    · rw [hr]
      exact iff_of_true rfl hfull
  constructor
  · intro hpage
    have hready : (s.served p v).needs p = true → (s.served p v).verdict ≠ none := by
      intro hneeds
      change v.needs p = true at hneeds
      simp [World.served, hneeds]
    have hverdict : (if v.needs p = true then
        some (Redirect.reserve s.counter (v.link.clickLimit.getD 0)).2 else none) = some false :=
      verdict_of_result_click_limit hready hpage
    split at hverdict
    · rename_i hneeds
      exact ⟨hneeds, hrefused.mp (Option.some.inj hverdict)⟩
    · simp at hverdict
  · rintro ⟨hneeds, hfull⟩
    have hparts : endsWith v.req.rawSlug "+" = false ∧
        needsReservation v.link (gateFor p v.link v.now) = true := by
      simpa [Visit.needs] using hneeds
    refine handle_refused hparts.1 rfl hparts.2 ?_
    simp [World.served, Visit.answers, hneeds, hrefused.mpr hfull]

/-- **Where the two counts are equal, so are the two views.** -/
theorem agree_of_reserved_eq_clicks (hreserved : 0 ≤ s.reserved) (h : s.reserved = s.clicks id) :
    Agree p cfg id s := by
  intro v hv
  rw [answer_eq_page_iff hreserved, ← gateFor_eq_click_limit_iff hv]
  have hclicks : v.link.clicks = s.reserved := hv.clicks.trans h.symm
  constructor
  · rintro ⟨hneeds, hfull⟩
    simp only [Visit.needs, needsReservation, Bool.and_eq_true, Bool.or_eq_true,
      decide_eq_true_eq] at hneeds
    obtain ⟨_, hlimited, hnone | hlimit⟩ := hneeds
    · obtain ⟨limit, hlimit⟩ := Option.isSome_iff_exists.mp hlimited
      rw [hlimit, Option.getD_some] at hfull
      refine absurd ⟨limit, hlimit, ?_⟩ (effectiveGate_eq_none_iff.mp hnone .click_limit)
      change limit ≤ v.link.clicks
      rw [hclicks]
      exact hfull
    · exact hlimit
  · intro hgate
    obtain ⟨limit, hlimit, hle⟩ := holds_of_effectiveGate hgate
    have hlimit' : v.link.clickLimit = some limit := hlimit
    have hle' : limit ≤ v.link.clicks := hle
    refine ⟨?_, ?_⟩
    · have hneeded : needsReservation v.link (some .click_limit) = true := by
        simp [needsReservation, hlimit']
      rw [Visit.needs, hv.plain, hgate, hneeded]
      rfl
    · rw [hlimit', Option.getD_some, ← hclicks]
      exact hle'

/-- A browser's visit of a link with nothing but a limit to stop it. -/
def plainVisit (id : String) (limit clicks : Int) : Visit :=
  ⟨sampleRequest, 0, { sampleLink with id := id, clickLimit := some limit, clicks := clicks },
    some "salt", none, none⟩

theorem sampleRequest_plain : endsWith sampleRequest.rawSlug "+" = false := by decide

theorem lifecycleGate_plainVisit (limit clicks : Int) :
    lifecycleGate p (plainVisit id limit clicks).link.gateInput 0 =
      if limit ≤ clicks then some .click_limit else none := by
  by_cases hle : limit ≤ clicks <;>
    simp [lifecycleGate, plainVisit, ResolvedLink.gateInput, sampleLink, asDate, hle]

theorem needs_plainVisit (limit clicks : Int) : (plainVisit id limit clicks).needs p = true := by
  have hgate : gateFor p (plainVisit id limit clicks).link 0 =
      if limit ≤ clicks then some .click_limit else none := by
    by_cases hle : limit ≤ clicks <;>
      simp [gateFor, effectiveGate, lifecycleGate, plainVisit, ResolvedLink.gateInput, sampleLink,
        asDate, hle, LifecycleGate.toEffective]
  change (!endsWith sampleRequest.rawSlug "+" &&
    needsReservation _ (gateFor p (plainVisit id limit clicks).link 0)) = true
  rw [sampleRequest_plain, hgate]
  split <;> simp [needsReservation, plainVisit]

theorem visits_plainVisit (limit : Int) :
    Visits id { s with clickLimit := some limit } (plainVisit id limit (s.clicks id)) where
  link := rfl
  clickLimit := rfl
  clicks := rfl
  plain := sampleRequest_plain
  enabled := rfl
  verified := rfl
  clean := by simp [plainVisit, sampleLink]

/-- At rest nothing is on its way between the two counts. -/
theorem reserved_eq_clicks (hbalanced : Balanced id s) (hsettled : Settled id s) :
    s.reserved = s.clicks id := by
  have hdue : s.due id = 0 :=
    Multiset.countP_eq_zero.mpr fun e he hcounts => hsettled.1 e he hcounts.1
  have hidle : s.inFlight = 0 := by
    refine List.countP_eq_zero.mpr fun v hv => ?_
    simp [Visit.inFlight, Option.isNone_iff_eq_none, hsettled.2 v hv]
  rw [hbalanced, hdue, hidle]
  simp

end Views

/-- **In every run whose visits take a place exactly when they are counted, the redirect
and the dashboard agree once every recorded click is rolled up.** -/
theorem agree_of_matched (p : Platform) (cfg : Config) (estimate : Sketch → Nat) (id : String)
    (limit : Option Int) (as : List Action) (s : World)
    (hmatched : Guarded (step p cfg estimate id) (Matched p cfg) (.start limit) as)
    (hrun : run (step p cfg estimate id) (.start limit) as = some s) (hsettled : Settled id s) :
    Agree p cfg id s := by
  have hinv : Inv p id s := invariant_of_guarded
    (fun _ _ _ hs hg hstep => inv_step hs hg hstep) as _ s (inv_start p id limit) hmatched hrun
  exact agree_of_reserved_eq_clicks hinv.reserved_nonneg (reserved_eq_clicks hinv.balanced hsettled)

/-! ### Three links -/

def sampleColumns : Columns where
  id := "click"
  occurredAt := 0
  isQr := false
  country := none
  city := none
  device := some "desktop"
  browser := some "Firefox"
  referrerHost := none

/-- The link of the runs below with a limit, or none. -/
def limitedLink (limit : Option Int) : ResolvedLink :=
  { sampleLink with clickLimit := limit, clicks := 0 }

/-- The rollup of what a routed visit is recorded as. -/
def rollupOf (req : Request) (link : ResolvedLink) : Action :=
  let visit : Visit := ⟨req, 0, link, some "salt", some true, none⟩
  .rollup ⟨(record samplePlatform sampleConfig visit (some sampleColumns)).toList, false⟩

/-- A human takes the only place of a link, and is rolled up. -/
def limitFromTheStart : List Action :=
  [.arrive sampleRequest 0 (limitedLink (some 1)) (some "salt"), .reserve 0,
    .finish 0 (some sampleColumns), rollupOf sampleRequest (limitedLink (some 1))]

/-- The limit is set once the first click has been rolled up. -/
def lateLimit : List Action :=
  [.arrive sampleRequest 0 (limitedLink none) (some "salt"), .finish 0 (some sampleColumns),
    rollupOf sampleRequest (limitedLink none), .setLimit (some 1)]

/-- The click that is recorded of them. -/
def sampleClick (bot : Bool) : ClickRow where
  id := "click"
  linkId := "link"
  workspaceId := sampleLink.workspaceId
  occurredAt := 0
  visitorHash := "c47757abe4020b9168d0776f6c91617f"
  isBot := bot
  blockedReason := none
  isQr := false
  country := none
  city := none
  device := some "desktop"
  browser := some "Firefox"
  referrerHost := none

theorem visitorHash_samplePlatform (salt ip userAgent id : String) :
    visitorHash samplePlatform salt ip userAgent id = "c47757abe4020b9168d0776f6c91617f" := by
  change String.ofList (List.take 32
    "c47757abe4020b9168d0776f6c91617f9290e790ac2f6ce2bd6787c74ad88199".toList) = _
  rw [String.toList_ofList]
  rfl

theorem isBot_sampleRequest : isBot (orEmpty sampleRequest.userAgent) = false := by
  change isBot "Mozilla/5.0 (X11; Linux x86_64) Firefox/128.0" = false
  rw [isBot, BOT_PATTERN]
  simp only [includes, String.toList_ofList, List.any_cons, List.any_nil]
  repeat rw [String.toList_ofList]
  rfl

/-- A visit of the link with this limit, up to its end. -/
def limitedVisit (req : Request) (limit : Option Int) (verdict : Option Bool) : Visit :=
  ⟨req, 0, limitedLink limit, some "salt", verdict, none⟩

theorem record_limitedVisit {req : Request} {limit : Option Int} {verdict : Option Bool}
    (click : Click) (hclick : (handle samplePlatform sampleConfig req
      (limitedVisit req limit verdict).answers).recorded = some click)
    (hopen : click.blockedReason = none) :
    record samplePlatform sampleConfig (limitedVisit req limit verdict) (some sampleColumns) =
      some (sampleClick (isBot (orEmpty req.userAgent))) := by
  rw [record.eq_def, show (limitedVisit req limit verdict).req = req from rfl, hclick]
  simp [visitorHash_samplePlatform, hopen, sampleClick, sampleColumns, limitedVisit, limitedLink,
    sampleLink, userAgentOf]

/-- The rollup takes the click off, and counts it unless it is a bot's. -/
theorem attempt_sampleClick (bot : Bool) :
    ∃ t, attempt estimateFew ⟨.empty, 0 + {sampleClick bot}⟩ ⟨[sampleClick bot], false⟩ =
      some ⟨t, 0⟩ ∧ ((t.counters "link").clicks : Int) = if bot then 0 else 1 := by
  have h : (attempt estimateFew ⟨.empty, 0 + {sampleClick bot}⟩ ⟨[sampleClick bot], false⟩).any
      (fun s => s.pending = 0 ∧
        ((s.tables.counters "link").clicks : Int) = if bot then 0 else 1) = true := by
    cases bot <;> decide +kernel
  obtain ⟨⟨t, pending⟩, hattempt, hrest⟩ := (Option.any_eq_true _ _).mp h
  obtain ⟨rfl, hclicks⟩ := of_decide_eq_true hrest
  exact ⟨t, hattempt, hclicks⟩

/-- The world once such a visit is answered. -/
def answered (req : Request) (limit : Option Int) (verdict : Option Bool) (counter : Option Int) :
    World :=
  let v := limitedVisit req limit verdict
  ⟨limit, [], counter,
    ⟨.empty, 0 + ((record samplePlatform sampleConfig v (some sampleColumns)).toList :
      Multiset ClickRow)⟩,
    [{ v with exit := some (v.result samplePlatform sampleConfig) }]⟩

/-- Its rollup leaves the reservations as they are. -/
theorem step_rollup_answered {req : Request} {limit : Option Int} {verdict : Option Bool}
    {bot : Bool} (counter : Option Int)
    (hclick : record samplePlatform sampleConfig (limitedVisit req limit verdict)
      (some sampleColumns) = some (sampleClick bot))
    (hrollup : rollupOf req (limitedLink limit) = .rollup ⟨[sampleClick bot], false⟩) :
    ∃ s, step samplePlatform sampleConfig estimateFew "link" (answered req limit verdict counter)
        (rollupOf req (limitedLink limit)) = some s ∧ Settled "link" s ∧
      s.clicks "link" = (if bot then 0 else 1) ∧ s.clickLimit = limit ∧
      s.counter = some (counter.getD 0) := by
  obtain ⟨t, hattempt, hclicks⟩ := attempt_sampleClick bot
  have hpending : (answered req limit verdict counter).intake = ⟨.empty, 0 + {sampleClick bot}⟩ := by
    rw [answered, hclick]
    rfl
  have hne : (0 : Multiset ClickRow) ≠ 0 + {sampleClick bot} := by simp
  refine ⟨{ answered req limit verdict counter with
    counter := some (counter.getD 0), intake := ⟨t, 0⟩ }, ?_, ?_, ?_, ?_, ?_⟩
  · rw [hrollup, step, hpending, hattempt, Option.map_some, if_neg hne]
    rfl
  · exact ⟨by simp, by simp [answered]⟩
  · exact hclicks
  · rfl
  · rfl

theorem run_of_answered {s u : World} {req : Request} {limit counter : Option Int}
    {verdict : Option Bool} {b : Action} (as bs : List Action)
    (hfirst : run (step samplePlatform sampleConfig estimateFew "link") s as =
      some (answered req limit verdict counter))
    (hnext : step samplePlatform sampleConfig estimateFew "link"
      (answered req limit verdict counter) b = some u) :
    run (step samplePlatform sampleConfig estimateFew "link") s (as ++ b :: bs) =
      run (step samplePlatform sampleConfig estimateFew "link") u bs := by
  rw [run_append, hfirst, Option.bind_some, run_cons, hnext, Option.bind_some]

/-- What the next visitor is answered depends on the reservations alone. -/
theorem answer_of_counter {s : World} {counter : Option Int} (h : s.counter = counter)
    (p : Platform) (cfg : Config) (v : Visit) :
    s.answer p cfg v = ({ World.start none with counter := counter } : World).answer p cfg v := by
  rw [← h]
  rfl

theorem record_sampleRequest (limit : Option Int) (verdict : Option Bool)
    (hplace : limit = none ∨ limit = some 1 ∧ verdict = some true) :
    record samplePlatform sampleConfig (limitedVisit sampleRequest limit verdict)
      (some sampleColumns) = some (sampleClick false) := by
  have hclick : (handle samplePlatform sampleConfig sampleRequest
      (limitedVisit sampleRequest limit verdict).answers).recorded = some ⟨none, none, none⟩ := by
    rcases hplace with rfl | ⟨rfl, rfl⟩ <;> rfl
  rw [record_limitedVisit _ hclick rfl, isBot_sampleRequest]

theorem rollupOf_of_record {req : Request} {limit : Option Int} {bot : Bool}
    (h : record samplePlatform sampleConfig (limitedVisit req limit (some true))
      (some sampleColumns) = some (sampleClick bot)) :
    rollupOf req (limitedLink limit) = .rollup ⟨[sampleClick bot], false⟩ :=
  congrArg (fun click : Option ClickRow => Action.rollup ⟨click.toList, false⟩) h

/-- The views agree on a link whose limit is there from the start. -/
theorem agree_limitFromTheStart :
    ∃ s, run (step samplePlatform sampleConfig estimateFew "link") (.start (some 1))
        limitFromTheStart = some s ∧
      s.clicks "link" = 1 ∧ Agree samplePlatform sampleConfig "link" s := by
  have hclick := record_sampleRequest (some 1) (some true) (Or.inr ⟨rfl, rfl⟩)
  obtain ⟨s, hlast, hsettled, hclicks, -, -⟩ :=
    step_rollup_answered (some 1) hclick (rollupOf_of_record hclick)
  have hrun : run (step samplePlatform sampleConfig estimateFew "link") (.start (some 1))
      limitFromTheStart = some s :=
    run_of_answered (limitFromTheStart.take 3) [] rfl hlast
  have hcountable : countable samplePlatform sampleConfig
      (limitedVisit sampleRequest (some 1) (some true)) (some sampleColumns) = true := by
    have hhuman : human (limitedVisit sampleRequest (some 1) (some true)) = true :=
      congrArg Bool.not isBot_sampleRequest
    rw [countable, hhuman]
    rfl
  have hmatched : Guarded (step samplePlatform sampleConfig estimateFew "link")
      (Matched samplePlatform sampleConfig) (.start (some 1)) limitFromTheStart := by
    refine ⟨trivial, fun s₁ h₁ => ⟨trivial, fun s₂ h₂ => ⟨?_, fun s₃ _ => ⟨trivial, fun _ _ =>
      guarded_nil _⟩⟩⟩⟩
    cases h₁
    cases h₂
    intro v hv
    cases hv
    exact ⟨fun _ => hcountable, fun h => absurd h (by decide)⟩
  exact ⟨s, hrun, hclicks, agree_of_matched _ _ _ _ _ _ s hmatched hrun hsettled⟩

/-- **A limit that is set late counts from zero.**  The owner sees the one click the link
allows, and the next visitor is routed all the same. -/
theorem late_limit_disagrees :
    ¬ ∀ (p : Platform) (cfg : Config) (estimate : Sketch → Nat) (id : String)
      (limit : Option Int) (as : List Action) (s : World),
      run (step p cfg estimate id) (.start limit) as = some s → Settled id s →
        Agree p cfg id s := by
  intro h
  obtain ⟨s, hlast, hsettled, hclicks, -, hcounter⟩ :=
    step_rollup_answered none (record_sampleRequest none none (Or.inl rfl))
      (rollupOf_of_record (record_sampleRequest none (some true) (Or.inl rfl)))
  have hrun : run (step samplePlatform sampleConfig estimateFew "link") (.start none) lateLimit =
      some { s with clickLimit := some 1, former := s.clickLimit :: s.former } :=
    run_of_answered (lateLimit.take 2) [.setLimit (some 1)] rfl hlast
  have hvisit : Visits "link" { s with clickLimit := some 1, former := s.clickLimit :: s.former }
      (plainVisit "link" 1 1) :=
    ⟨rfl, rfl, hclicks.symm, by decide, rfl, rfl, by decide⟩
  have hpage := (h _ _ _ _ _ _ _ hrun hsettled _ hvisit).mpr (by decide)
  have hrouted := (answer_of_counter (s := { s with clickLimit := some 1 }) hcounter
    samplePlatform sampleConfig (plainVisit "link" 1 1)).symm.trans hpage
  exact absurd hrouted (by decide)

end SnapUrl.Redirect.LimitCounts
