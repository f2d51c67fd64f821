import SnapUrl.Lib.Run
import SnapUrl.Links.BulkAgreement
import SnapUrl.Links.Edit

/-!
# Edits of one link at the same time

The statements of any number of `update` calls on one link, in any order.  A call reads the row,
is checked, and writes in a transaction: its columns, which locks the row until the transaction
ends, and the rules when it names them.

* `Editing`, `act`: the row and the calls, and what a statement does.
* `StoredWell`: rules, password, destination and verdict are each those of one write.
* `storedWell_act`: **every run keeps them**, whatever the order of the statements.
* `inOrder_iff`: the row never activates at or after its expiry **exactly when no edit that
  names one of the two dates commits over another one that it is not in order with**.
-/

namespace SnapUrl.Links.Creation

open Lib Domain

/-! ### Dates in order -/

/-- A window that opens before it closes. -/
def InOrder (activatesAt expiresAt : Option Int) : Prop :=
  ∀ activates ∈ activatesAt, ∀ expires ∈ expiresAt, activates < expires

instance (activatesAt expiresAt : Option Int) : Decidable (InOrder activatesAt expiresAt) :=
  inferInstanceAs (Decidable (∀ activates ∈ activatesAt, ∀ expires ∈ expiresAt, _))

theorem validateSchedule_eq_nil_iff {p : Platform} {activatesAt expiresAt : Option String} :
    validateSchedule p activatesAt expiresAt = [] ↔
      InOrder (asDate p (activatesAt.map .text)) (asDate p (expiresAt.map .text)) := by
  rw [validateSchedule, InOrder]
  cases asDate p (activatesAt.map .text) with
  | none => simp
  | some activates =>
    cases asDate p (expiresAt.map .text) with
    | none => simp
    | some expires =>
      dsimp only
      split
      · simp
        omega
      · simp
        omega

/-! ### Chains that are read back -/

/-- Upper and lower case change nothing the second time. -/
structure CaseSettles (p : Platform) : Prop where
  upper : ∀ s, p.toUpperCase (p.toUpperCase s) = p.toUpperCase s
  lower : ∀ s, p.toLowerCase (p.toLowerCase s) = p.toLowerCase s

/-- What the validator reads of a rule. -/
def SameForValidator (p : Platform) (rule rule' : RoutingRule) : Prop :=
  isCatchAll rule' = isCatchAll rule ∧ conditionKey p rule' = conditionKey p rule ∧
    rule'.weight = rule.weight

section Chains

variable {p : Platform} {rules rules' : List RoutingRule}

theorem filter_sameForValidator {q : Bool → Option ℚ → Bool}
    (h : List.Forall₂ (SameForValidator p) rules rules') :
    List.Forall₂ (SameForValidator p) (rules.filter fun r => q (isCatchAll r) r.weight)
      (rules'.filter fun r => q (isCatchAll r) r.weight) := by
  induction h with
  | nil => exact List.Forall₂.nil
  | cons hsame _ ih =>
    rw [List.filter_cons, List.filter_cons, hsame.1, hsame.2.2]
    split
    · exact List.Forall₂.cons hsame ih
    · exact ih

theorem totalWeight_sameForValidator (h : List.Forall₂ (SameForValidator p) rules rules') :
    totalWeight rules' = totalWeight rules := by
  induction h with
  | nil => rfl
  | cons hsame _ ih =>
    rw [totalWeight, totalWeight, List.map_cons, List.map_cons, List.sum_cons, List.sum_cons,
      hsame.2.2]
    exact congrArg _ ih

theorem findIdx?_sameForValidator {q : Bool → Option ℚ → Bool}
    (h : List.Forall₂ (SameForValidator p) rules rules') :
    (rules'.findIdx? fun r => q (isCatchAll r) r.weight) =
      rules.findIdx? fun r => q (isCatchAll r) r.weight := by
  induction h with
  | nil => rfl
  | cons hsame _ ih => rw [List.findIdx?_cons, List.findIdx?_cons, hsame.1, hsame.2.2, ih]

theorem identicalConditions_sameForValidator (h : List.Forall₂ (SameForValidator p) rules rules') :
    ∀ seen, identicalConditions p seen rules' = identicalConditions p seen rules := by
  induction h with
  | nil => exact fun _ => rfl
  | cons hsame _ ih =>
    intro seen
    rw [identicalConditions, identicalConditions, hsame.1, hsame.2.1, ih, ih]

/-- **The validator says the same of two such chains.** -/
theorem validateRoutingChain_sameForValidator
    (h : List.Forall₂ (SameForValidator p) rules rules') :
    validateRoutingChain p rules' = validateRoutingChain p rules := by
  have hcatchAll := filter_sameForValidator (q := fun open_ _ => open_) h
  have hweighted := filter_sameForValidator (q := fun _ weight => weight.any (0 < ·)) hcatchAll
  have hfirst := findIdx?_sameForValidator (q := fun open_ weight => open_ && weight.getD 0 = 0) h
  rw [validateRoutingChain, validateRoutingChain, hweighted.length_eq,
    totalWeight_sameForValidator hweighted, hfirst, h.length_eq,
    identicalConditions_sameForValidator h]

/-- A row that is read back is the rule that it was stored for, as far as the validator reads. -/
theorem sameForValidator_stored (hkeeps : CaseKeepsText p) (hcases : CaseSettles p) (id : String)
    (position : Nat) (rule : RoutingRule) :
    SameForValidator p rule (toRoutingRule id ⟨position, rule.when.country.map p.toUpperCase,
      rule.when.device, rule.when.language.map p.toLowerCase, rule.destination, rule.weight⟩) := by
  have hcountry : truthy (rule.when.country.map p.toUpperCase) = truthy rule.when.country := by
    cases rule.when.country with
    | none => rfl
    | some country => simp [truthy, (hkeeps country).1]
  have hlanguage : truthy (rule.when.language.map p.toLowerCase) = truthy rule.when.language := by
    cases rule.when.language with
    | none => rfl
    | some language => simp [truthy, (hkeeps language).2]
  refine ⟨?_, ?_, rfl⟩
  · simp only [isCatchAll, toRoutingRule, hcountry, hlanguage]
  · simp only [conditionKey, toRoutingRule, Option.map_map]
    congr 2
    · exact funext hcases.upper
    · exact congrArg (Option.map · rule.when.language) (funext hcases.lower)

/-- **A chain that was accepted is accepted again as it is read back.** -/
theorem validateRoutingChain_routingRules (hkeeps : CaseKeepsText p) (hcases : CaseSettles p)
    {link : StoredLink} (h : link.rules = storedRules p rules) (ids : Nat → String) :
    validateRoutingChain p (link.routingRules ids) = validateRoutingChain p rules := by
  refine validateRoutingChain_sameForValidator ?_
  rw [StoredLink.routingRules, h, storedRules, List.forall₂_iff_get]
  refine ⟨by simp, ?_⟩
  intro i hi hi'
  simp only [List.get_eq_getElem, List.getElem_mapIdx]
  exact sameForValidator_stored hkeeps hcases _ _ _

end Chains

/-! ### The calls -/

/-- Where a call is, between two statements. -/
inductive Phase where
  | called
  /-- It has read the row. -/
  | read (existing : StoredLink)
  /-- It has been checked, and begins its transaction. -/
  | checked (patch : Patch)
  /-- Its transaction has written its columns and holds the row, as it stands there. -/
  | updated (patch : Patch) (row : StoredLink)
  | deletedRules (patch : Patch) (row : StoredLink)
  | insertedRules (patch : Patch) (row : StoredLink)
  | committed
  | refused (error : HttpError)
  /-- The database or the process failed, and the transaction was rolled back. -/
  | failed

structure Call where
  input : UpdateLinkInput
  phase : Phase

/-- The row as others see it, and the calls.  The patches that were committed and the answers of
Safe Browsing are kept for the record. -/
structure Editing where
  link : StoredLink
  calls : List Call
  commits : List Patch
  scans : List (String × ScanResult)

/-- What happens next. -/
inductive Edit where
  | call (input : UpdateLinkInput)
  | read (i : Nat)
  /-- The checks, with what the services and the tables say at that moment. -/
  | check (i : Nat) (e : Environment) (s : State)
  /-- The next statement of a transaction. -/
  | statement (i : Nat)
  | commit (i : Nat)
  | fail (i : Nat)

/-- The verdict that a row carries. -/
def StoredLink.verdict (link : StoredLink) : ScanResult :=
  ⟨link.safeBrowsingStatus, link.safeBrowsingCheckedAt⟩

/-- The columns of a patch, without the rules. -/
def Patch.columns (patch : Patch) : Patch := { patch with rules := none }

/-- The patch and the row of a transaction that is open. -/
def Phase.transaction : Phase → Option (Patch × StoredLink)
  | .updated patch row => some (patch, row)
  | .deletedRules patch row => some (patch, row)
  | .insertedRules patch row => some (patch, row)
  | _ => none

/-- The row is locked. -/
def Call.holdsRow (call : Call) : Bool := call.phase.transaction.isSome

/-- All statements of the transaction are made. -/
def Phase.complete : Phase → Option (Patch × StoredLink)
  | .updated patch row => if patch.rules = none then some (patch, row) else none
  | .insertedRules patch row => some (patch, row)
  | _ => none

def Editing.set (s : Editing) (i : Nat) (call : Call) (phase : Phase) : Editing :=
  { s with calls := s.calls.set i { call with phase := phase } }

/-- The checks of a call that has read the row. -/
def Editing.check (s : Editing) (i : Nat) (call : Call) (existing : StoredLink) (e : Environment)
    (tables : State) : Editing :=
  match update e tables existing call.input with
  | .error error => s.set i call (.refused error)
  | .ok patch =>
    { s.set i call (.checked patch) with
      scans := s.scans ++ call.input.destination.toList.map fun url => (url, e.scan url) }

/-- A statement of the transaction of a call.  The first one waits while another transaction
holds the row. -/
def Editing.statement (s : Editing) (i : Nat) (call : Call) : Editing :=
  match call.phase with
  | .checked patch =>
    if s.calls.any Call.holdsRow then s
    else s.set i call (.updated patch (patch.columns.apply s.link))
  | .updated patch row =>
    if patch.rules = none then s else s.set i call (.deletedRules patch { row with rules := [] })
  | .deletedRules patch row =>
    s.set i call (.insertedRules patch { row with rules := patch.rules.getD [] })
  | _ => s

def Editing.commit (s : Editing) (i : Nat) (call : Call) : Editing :=
  match call.phase.complete with
  | some (patch, row) =>
    { s.set i call .committed with link := row, commits := s.commits ++ [patch] }
  | none => s

/-- What an action does; one whose turn it is not does nothing. -/
def Editing.act (p : Platform) (s : Editing) : Edit → Editing
  | .call input => { s with calls := s.calls ++ [⟨input, .called⟩] }
  | .read i =>
    match s.calls[i]? with
    | some call =>
      match call.phase with
      | .called => s.set i call (.read s.link)
      | _ => s
    | none => s
  | .check i e tables =>
    match s.calls[i]? with
    | some call =>
      match call.phase with
      | .read existing => s.check i call existing { e with p := p } tables
      | _ => s
    | none => s
  | .statement i =>
    match s.calls[i]? with
    | some call => s.statement i call
    | none => s
  | .commit i =>
    match s.calls[i]? with
    | some call => s.commit i call
    | none => s
  | .fail i =>
    match s.calls[i]? with
    | some call =>
      match call.phase with
      | .committed => s
      | _ => s.set i call .failed
    | none => s

def step (p : Platform) (s : Editing) (a : Edit) : Option Editing := some (s.act p a)

/-- A link that was just stored, by `create` or by `clone`. -/
def Editing.begin (link : StoredLink) : Editing :=
  ⟨link, [], [], [(link.destination, link.verdict)]⟩

/-! ### What an action can do -/

/-- The moves of a call that leave the row as others see it. -/
inductive Moves (s : Editing) : Phase → Phase → Prop
  | read : Moves s .called (.read s.link)
  | refuse (existing : StoredLink) (error : HttpError) : Moves s (.read existing) (.refused error)
  | update (patch : Patch) (hfree : s.calls.any Call.holdsRow = false) :
      Moves s (.checked patch) (.updated patch (patch.columns.apply s.link))
  | deleteRules (patch : Patch) (row : StoredLink) (hrules : patch.rules ≠ none) :
      Moves s (.updated patch row) (.deletedRules patch { row with rules := [] })
  | insertRules (patch : Patch) (row : StoredLink) :
      Moves s (.deletedRules patch row)
        (.insertedRules patch { row with rules := patch.rules.getD [] })
  | fail (phase : Phase) : Moves s phase .failed

/-- **What an action can do**: nothing, another call, a move, a check that is passed, or a
commit. -/
inductive Acts (p : Platform) (s : Editing) : Edit → Editing → Prop
  | wait (a : Edit) : Acts p s a s
  | call (input : UpdateLinkInput) :
      Acts p s (.call input) { s with calls := s.calls ++ [⟨input, .called⟩] }
  | move {a : Edit} {i : Nat} {call : Call} {phase : Phase} (hcall : s.calls[i]? = some call)
      (hmove : Moves s call.phase phase) : Acts p s a (s.set i call phase)
  | pass {a : Edit} {i : Nat} {call : Call} {existing : StoredLink} {e : Environment}
      {tables : State} {patch : Patch} (hcall : s.calls[i]? = some call)
      (hphase : call.phase = .read existing) (hp : e.p = p)
      (hpatch : update e tables existing call.input = .ok patch) :
      Acts p s a { s.set i call (.checked patch) with
        scans := s.scans ++ call.input.destination.toList.map fun url => (url, e.scan url) }
  | commit {i : Nat} {call : Call} {patch : Patch} {row : StoredLink}
      (hcall : s.calls[i]? = some call) (hcomplete : call.phase.complete = some (patch, row)) :
      Acts p s (.commit i)
        { s.set i call .committed with link := row, commits := s.commits ++ [patch] }

section

variable {p : Platform} {s : Editing} {origin : StoredLink}

theorem acts_statement {a : Edit} {i : Nat} {call : Call} (hcall : s.calls[i]? = some call) :
    Acts p s a (s.statement i call) := by
  rw [Editing.statement]
  split
  · rename_i patch hphase
    split
    · exact .wait a
    · rename_i hfree
      exact .move hcall (hphase ▸ .update patch (Bool.not_eq_true _ ▸ hfree))
  · rename_i patch row hphase
    split
    · exact .wait a
    · rename_i hrules
      exact .move hcall (hphase ▸ .deleteRules patch row hrules)
  · rename_i patch row hphase
    exact .move hcall (hphase ▸ .insertRules patch row)
  · exact .wait a

theorem acts_act (a : Edit) : Acts p s a (s.act p a) := by
  cases a with
  | call input => exact .call input
  | read i =>
    rw [Editing.act]
    split
    · rename_i call hcall
      split
      · rename_i hphase
        exact .move hcall (hphase ▸ .read)
      · exact .wait _
    · exact .wait _
  | check i e tables =>
    rw [Editing.act]
    split
    · rename_i call hcall
      split
      · rename_i existing hphase
        rw [Editing.check]
        split
        · rename_i error _
          exact .move hcall (hphase ▸ .refuse existing error)
        · rename_i patch hpatch
          exact .pass hcall hphase rfl hpatch
      · exact .wait _
    · exact .wait _
  | statement i =>
    rw [Editing.act]
    split
    · rename_i call hcall
      exact acts_statement hcall
    · exact .wait _
  | commit i =>
    rw [Editing.act]
    split
    · rename_i call hcall
      rw [Editing.commit]
      split
      · rename_i patch row hcomplete
        exact .commit hcall hcomplete
      · exact .wait _
    · exact .wait _
  | fail i =>
    rw [Editing.act]
    split
    · rename_i call hcall
      split
      · exact .wait _
      · exact .move hcall (.fail _)
    · exact .wait _

/-! ### What the calls keep -/

/-- A patch of an edit that was accepted, whose verdict Safe Browsing gave for its destination. -/
structure PatchWell (p : Platform) (scans : List (String × ScanResult)) (patch : Patch) : Prop where
  accepted : ∃ (e : Environment) (tables : State) (existing : StoredLink)
    (input : UpdateLinkInput), e.p = p ∧ update e tables existing input = .ok patch
  verdict : ∀ answer, patch.destination = some answer → answer ∈ scans

/-- The patch that a call is going to commit. -/
def Phase.patch : Phase → Option Patch
  | .checked patch => some patch
  | phase => phase.transaction.map (·.1)

/-- The row of an open transaction is what its statements make of the row that others see. -/
def Phase.Staged (link : StoredLink) : Phase → Prop
  | .updated patch row => row = patch.columns.apply link
  | .deletedRules patch row =>
    patch.rules ≠ none ∧ row = { patch.columns.apply link with rules := [] }
  | .insertedRules patch row => row = patch.apply link
  | _ => True

/-- Two calls of which one at most holds the row. -/
def Apart (call call' : Call) : Prop := ¬ (call.holdsRow = true ∧ call'.holdsRow = true)

/-- **What every statement keeps.** -/
structure Kept (p : Platform) (origin : StoredLink) (s : Editing) : Prop where
  link : s.link = s.commits.foldl (fun row patch => patch.apply row) origin
  commits : ∀ patch ∈ s.commits, PatchWell p s.scans patch
  patches : ∀ call ∈ s.calls, ∀ patch, call.phase.patch = some patch → PatchWell p s.scans patch
  staged : ∀ call ∈ s.calls, call.phase.Staged s.link
  alone : s.calls.Pairwise Apart
  origin : (origin.destination, origin.verdict) ∈ s.scans

theorem Apart.symm {call call' : Call} (h : Apart call call') : Apart call' call :=
  fun hboth => h ⟨hboth.2, hboth.1⟩

theorem PatchWell.mono {scans more : List (String × ScanResult)} {patch : Patch}
    (h : PatchWell p scans patch) : PatchWell p (scans ++ more) patch :=
  ⟨h.accepted, fun answer hanswer => List.mem_append_left _ (h.verdict answer hanswer)⟩

/-- A transaction that is complete has made the row that its patch makes. -/
theorem row_of_complete {link row : StoredLink} {phase : Phase} {patch : Patch}
    (hcomplete : phase.complete = some (patch, row)) (hstaged : phase.Staged link) :
    row = patch.apply link ∧ phase.patch = some patch ∧ phase.transaction.isSome = true := by
  cases phase with
  | updated patch' row' =>
    rw [Phase.complete] at hcomplete
    split at hcomplete
    · rename_i hrules
      obtain ⟨rfl, rfl⟩ := Prod.mk.inj (Option.some.inj hcomplete)
      have hcolumns : patch'.columns = patch' := by
        rw [Patch.columns, ← hrules]
      rw [Phase.Staged, hcolumns] at hstaged
      exact ⟨hstaged, rfl, rfl⟩
    · simp at hcomplete
  | insertedRules patch' row' =>
    obtain ⟨rfl, rfl⟩ := Prod.mk.inj (Option.some.inj hcomplete)
    exact ⟨hstaged, rfl, rfl⟩
  | _ => simp [Phase.complete] at hcomplete

/-- The next statement of a transaction stages what it should. -/
theorem staged_of_moves {phase phase' : Phase} (h : Moves s phase phase')
    (hstaged : phase.Staged s.link) : phase'.Staged s.link := by
  cases h with
  | update patch hfree => rfl
  | deleteRules patch row hrules => exact ⟨hrules, by rw [Phase.Staged] at hstaged; rw [hstaged]⟩
  | insertRules patch row =>
    obtain ⟨hrules, rfl⟩ := hstaged
    obtain ⟨rows, hrows⟩ := Option.ne_none_iff_exists'.mp hrules
    rw [Phase.Staged, hrows]
    simp only [Patch.apply, hrows]
    rfl
  | _ => exact trivial

/-- A move keeps the patch, or there is none. -/
theorem patch_of_moves {phase phase' : Phase} {patch : Patch} (h : Moves s phase phase')
    (hpatch : phase'.patch = some patch) : phase.patch = some patch := by
  cases h with
  | update patch' hfree => exact hpatch
  | deleteRules patch' row hrules => exact hpatch
  | insertRules patch' row => exact hpatch
  | _ => simp [Phase.patch, Phase.transaction] at hpatch

/-- A call takes the row only where no other holds it. -/
theorem holdsRow_of_moves {phase phase' : Phase} (h : Moves s phase phase')
    (hholds : phase'.transaction.isSome = true) :
    phase.transaction.isSome = true ∨ s.calls.any Call.holdsRow = false := by
  cases h with
  | update patch hfree => exact Or.inr hfree
  | deleteRules patch row hrules => exact Or.inl rfl
  | insertRules patch row => exact Or.inl rfl
  | _ => simp [Phase.transaction] at hholds

theorem staged_of_not_holdsRow {link : StoredLink} {call : Call} (h : call.holdsRow = false) :
    call.phase.Staged link := by
  rw [Call.holdsRow] at h
  cases hphase : call.phase with
  | updated patch row => simp [hphase, Phase.transaction] at h
  | deletedRules patch row => simp [hphase, Phase.transaction] at h
  | insertedRules patch row => simp [hphase, Phase.transaction] at h
  | _ => exact trivial

/-- One call in another phase, where the phase is well and takes the row from no other call. -/
theorem kept_set (h : Kept p origin s) {i : Nat} {call : Call} {phase : Phase}
    (hcall : s.calls[i]? = some call)
    (hpatch : ∀ patch, phase.patch = some patch → PatchWell p s.scans patch)
    (hstaged : phase.Staged s.link)
    (hholds : phase.transaction.isSome = true →
      call.phase.transaction.isSome = true ∨ s.calls.any Call.holdsRow = false) :
    Kept p origin (s.set i call phase) where
  link := h.link
  commits := h.commits
  patches other hother patch hpatch' := by
    rcases List.mem_or_eq_of_mem_set hother with hmem | rfl
    · exact h.patches other hmem patch hpatch'
    · exact hpatch patch hpatch'
  staged other hother := by
    rcases List.mem_or_eq_of_mem_set hother with hmem | rfl
    · exact h.staged other hmem
    · exact hstaged
  alone := by
    refine pairwise_set Apart.symm h.alone fun other hother hboth => ?_
    rcases hholds hboth.1 with hcalls | hnone
    · exact pairwise_others Apart.symm h.alone hcall other hother ⟨hcalls, hboth.2⟩
    · refine absurd hboth.2 ?_
      exact List.any_eq_false.mp hnone other (List.mem_of_mem_eraseIdx hother)
  origin := h.origin

/-- More answers of Safe Browsing. -/
theorem kept_scans (h : Kept p origin s) (more : List (String × ScanResult)) :
    Kept p origin { s with scans := s.scans ++ more } where
  link := h.link
  commits patch hpatch := (h.commits patch hpatch).mono
  patches call hcall patch hpatch := (h.patches call hcall patch hpatch).mono
  staged := h.staged
  alone := h.alone
  origin := List.mem_append_left _ h.origin

/-- **Every action keeps it.** -/
theorem kept_act (h : Kept p origin s) (a : Edit) : Kept p origin (s.act p a) := by
  have hacts : Acts p s a (s.act p a) := acts_act a
  revert hacts
  generalize s.act p a = s'
  intro hacts
  cases hacts with
  | wait => exact h
  | call input =>
    refine ⟨h.link, h.commits, ?_, ?_, ?_, h.origin⟩
    · intro call hcall patch hpatch
      rcases List.mem_append.mp hcall with hmem | hnew
      · exact h.patches call hmem patch hpatch
      · obtain rfl := List.mem_singleton.mp hnew
        simp [Phase.patch, Phase.transaction] at hpatch
    · intro call hcall
      rcases List.mem_append.mp hcall with hmem | hnew
      · exact h.staged call hmem
      · obtain rfl := List.mem_singleton.mp hnew
        exact trivial
    · refine List.pairwise_append.mpr ⟨h.alone, List.pairwise_singleton _ _, ?_⟩
      intro call _ new hnew hboth
      obtain rfl := List.mem_singleton.mp hnew
      exact absurd hboth.2 (by simp [Call.holdsRow, Phase.transaction])
  | move hcall hmove =>
    have hmem := List.mem_of_getElem? hcall
    exact kept_set h hcall (fun patch hpatch => h.patches _ hmem patch (patch_of_moves hmove hpatch))
      (staged_of_moves hmove (h.staged _ hmem)) (holdsRow_of_moves hmove)
  | @pass _ i call existing e tables patch hcall hphase hp hpatch =>
    -- the answer is kept for the record before the patch says it
    have hscans := kept_scans h (call.input.destination.toList.map fun url => (url, e.scan url))
    refine kept_set (s := { s with scans := s.scans ++ _ }) hscans hcall ?_ trivial nofun
    intro patch' hpatch'
    obtain rfl := Option.some.inj hpatch'
    refine ⟨⟨e, tables, existing, call.input, hp, hpatch⟩, ?_⟩
    intro answer hanswer
    obtain ⟨-, rfl⟩ := update_eq_ok_iff.mp hpatch
    obtain ⟨url, hurl, rfl⟩ := Option.map_eq_some_iff.mp hanswer
    exact List.mem_append_right _ (List.mem_map.mpr ⟨url, Option.mem_toList.mpr hurl, rfl⟩)
  | @commit i call patch row hcall hcomplete =>
    have hmem := List.mem_of_getElem? hcall
    obtain ⟨rfl, hpatch, hholds⟩ := row_of_complete hcomplete (h.staged call hmem)
    have hothers := pairwise_others Apart.symm h.alone hcall
    refine ⟨?_, ?_, ?_, ?_, ?_, h.origin⟩
    · rw [List.foldl_append, ← h.link]
      rfl
    · intro patch' hpatch'
      rcases List.mem_append.mp hpatch' with hold | hnew
      · exact h.commits patch' hold
      · exact List.mem_singleton.mp hnew ▸ h.patches call hmem patch hpatch
    · intro other hother patch' hpatch'
      rcases List.mem_or_eq_of_mem_set hother with hold | rfl
      · exact h.patches other hold patch' hpatch'
      · simp [Phase.patch, Phase.transaction] at hpatch'
    · -- no other call holds the row that has changed
      intro other hother
      rcases eq_or_mem_eraseIdx_of_mem_set hother with rfl | hrest
      · exact trivial
      · refine staged_of_not_holdsRow ?_
        rw [Bool.eq_false_iff]
        exact fun hother => hothers other hrest ⟨hholds, hother⟩
    · refine pairwise_set Apart.symm h.alone fun other _ hboth => ?_
      exact absurd hboth.1 (by simp [Call.holdsRow, Phase.transaction])

/-! ### What is stored -/

/-- A column that commits write holds what one of them wrote, or what the row began with. -/
theorem column_foldl {α : Type} (get : StoredLink → α) (new : Patch → Option α)
    (hcolumn : ∀ patch row, get (patch.apply row) = (new patch).getD (get row))
    (commits : List Patch) (origin : StoredLink) :
    get (commits.foldl (fun row patch => patch.apply row) origin) = get origin ∨
      ∃ patch ∈ commits,
        new patch = some (get (commits.foldl (fun row patch => patch.apply row) origin)) := by
  induction commits generalizing origin with
  | nil => exact Or.inl rfl
  | cons patch commits ih =>
    rw [List.foldl_cons]
    rcases ih (patch.apply origin) with horigin | ⟨patch', hmem, hnew⟩
    · rw [horigin, hcolumn]
      cases hpatch : new patch with
      | none => exact Or.inl rfl
      | some value =>
        exact Or.inr ⟨patch, List.mem_cons_self, hpatch⟩
    · exact Or.inr ⟨patch', List.mem_cons_of_mem _ hmem, hnew⟩

/-- **What is stored comes of single writes.** -/
structure StoredWell (p : Platform) (origin : StoredLink) (s : Editing) : Prop where
  /-- Every commit is of an edit that was accepted. -/
  accepted : ∀ patch ∈ s.commits, ∃ (e : Environment) (tables : State) (existing : StoredLink)
    (input : UpdateLinkInput), e.p = p ∧ update e tables existing input = .ok patch
  /-- The rules are the chain of one of them, or the first. -/
  oneChain : s.link.rules = origin.rules ∨ ∃ patch ∈ s.commits, patch.rules = some s.link.rules
  chain : ∀ ids, validateRoutingChain p (s.link.routingRules ids) = []
  password : s.link.passwordHash = origin.passwordHash ∨
    ∃ patch ∈ s.commits, patch.passwordHash = some s.link.passwordHash
  /-- The destination and its verdict are of the same one. -/
  destination : (s.link.destination, s.link.verdict) = (origin.destination, origin.verdict) ∨
    ∃ patch ∈ s.commits, patch.destination = some (s.link.destination, s.link.verdict)
  verdict : (s.link.destination, s.link.verdict) ∈ s.scans

/-- The rules of an accepted edit are those of a chain that is accepted. -/
theorem chain_of_update {e : Environment} {tables : State} {existing : StoredLink}
    {input : UpdateLinkInput} {patch : Patch} (h : update e tables existing input = .ok patch)
    {rows : List StoredRule} (hrows : patch.rules = some rows) :
    ∃ rules, rows = storedRules e.p rules ∧ validateRoutingChain e.p rules = [] := by
  obtain ⟨hpasses, rfl⟩ := update_eq_ok_iff.mp h
  obtain ⟨rules, hrules, rfl⟩ := Option.map_eq_some_iff.mp hrows
  have hvalid := hpasses.valid
  rw [editProblems, List.append_eq_nil_iff, List.append_eq_nil_iff, hrules] at hvalid
  exact ⟨rules, rfl, List.map_eq_nil_iff.mp hvalid.1.1⟩

/-- An accepted edit that names both dates names them in order. -/
theorem inOrder_of_update {e : Environment} {tables : State} {existing : StoredLink}
    {input : UpdateLinkInput} {patch : Patch} (h : update e tables existing input = .ok patch)
    {activatesAt expiresAt : Option Int} (hactivates : patch.activatesAt = some activatesAt)
    (hexpires : patch.expiresAt = some expiresAt) : InOrder activatesAt expiresAt := by
  obtain ⟨hpasses, rfl⟩ := update_eq_ok_iff.mp h
  obtain ⟨activates, hinput, rfl⟩ := Option.map_eq_some_iff.mp hactivates
  obtain ⟨expires, hinput', rfl⟩ := Option.map_eq_some_iff.mp hexpires
  have hvalid := hpasses.valid
  rw [editProblems, List.append_eq_nil_iff, List.append_eq_nil_iff, hinput, hinput'] at hvalid
  exact validateSchedule_eq_nil_iff.mp hvalid.1.2

/-- A link that `insert` has just stored. -/
def Inserted (p : Platform) (link : StoredLink) : Prop :=
  ∃ (e : Environment) (tables : State) (input : CreateLinkInput) (passwordHash : Option String)
    (draws : Nat → Draw), e.p = p ∧ insert e tables input passwordHash draws = .ok link

theorem inserted_of_create {e : Environment} {tables : State} {input : CreateLinkInput}
    {draws : Nat → Draw} {link : StoredLink} (h : create e tables input draws = .ok link) :
    Inserted e.p link :=
  ⟨e, tables, input, _, draws, rfl, h⟩

/-- Such a link has an accepted chain, and its dates are in order. -/
theorem Inserted.well (h : Inserted p origin) :
    (∃ rules, origin.rules = storedRules p rules ∧ validateRoutingChain p rules = []) ∧
      InOrder origin.activatesAt origin.expiresAt := by
  obtain ⟨e, tables, input, passwordHash, draws, rfl, h⟩ := h
  obtain ⟨domain, -, hpasses, -, -, rfl⟩ := insert_eq_ok_iff.mp h
  have hvalid := hpasses.valid
  rw [problems, List.append_eq_nil_iff, List.append_eq_nil_iff] at hvalid
  have hinput : ∀ q : Prepared, q.input = input →
      (∃ rules, (q.link e tables).rules = storedRules e.p rules ∧
        validateRoutingChain e.p rules = []) ∧
        InOrder (q.link e tables).activatesAt (q.link e tables).expiresAt := by
    rintro q rfl
    exact ⟨⟨q.input.rules, rfl, List.map_eq_nil_iff.mp hvalid.1.1⟩,
      validateSchedule_eq_nil_iff.mp hvalid.1.2⟩
  exact hinput _ (input_settleFrom _ _)

theorem kept_begin (origin : StoredLink) : Kept p origin (Editing.begin origin) where
  link := rfl
  commits _ hpatch := absurd hpatch List.not_mem_nil
  patches _ hcall := absurd hcall List.not_mem_nil
  staged _ hcall := absurd hcall List.not_mem_nil
  alone := List.Pairwise.nil
  origin := List.mem_singleton_self _

/-- **What is kept is what the claim says of the columns.** -/
theorem storedWell_of_kept (hkeeps : CaseKeepsText p) (hcases : CaseSettles p)
    (horigin : Inserted p origin) (h : Kept p origin s) : StoredWell p origin s := by
  have hrules := column_foldl StoredLink.rules Patch.rules (fun _ _ => rfl) s.commits origin
  have hpassword := column_foldl StoredLink.passwordHash Patch.passwordHash (fun _ _ => rfl)
    s.commits origin
  have hdestination := column_foldl (fun row => (row.destination, row.verdict)) Patch.destination
    (fun patch row => by cases hnew : patch.destination <;>
      simp [Patch.apply, StoredLink.verdict, hnew]) s.commits origin
  rw [← h.link] at hrules hpassword hdestination
  refine ⟨fun patch hpatch => (h.commits patch hpatch).accepted, hrules, ?_, hpassword,
    hdestination, ?_⟩
  · have hchain : ∃ rules, s.link.rules = storedRules p rules ∧
        validateRoutingChain p rules = [] := by
      rcases hrules with hfirst | ⟨patch, hpatch, hnew⟩
      · rw [hfirst]
        exact horigin.well.1
      · obtain ⟨e, tables, existing, input, rfl, hupdate⟩ := (h.commits patch hpatch).accepted
        exact chain_of_update hupdate hnew
    obtain ⟨rules, hstored, hvalid⟩ := hchain
    intro ids
    rw [validateRoutingChain_routingRules hkeeps hcases hstored, hvalid]
  · rcases hdestination with hfirst | ⟨patch, hpatch, hnew⟩
    · rw [hfirst]
      exact h.origin
    · exact (h.commits patch hpatch).verdict _ hnew

/-! ### The dates -/

/-- The row, as it should be. -/
structure Lawful (p : Platform) (origin : StoredLink) (s : Editing) : Prop where
  inOrder : InOrder s.link.activatesAt s.link.expiresAt
  stored : StoredWell p origin s

/-- An edit that names one of the two dates, and not the other. -/
def Patch.NamesOneDate (patch : Patch) : Prop :=
  patch.activatesAt.isSome ≠ patch.expiresAt.isSome

instance (patch : Patch) : Decidable patch.NamesOneDate := inferInstanceAs (Decidable (_ ≠ _))

/-- **What a commit needs**: a date that is named without the other is in order with the one
that the row has by then. -/
def FindsInOrder (s : Editing) : Edit → Prop
  | .commit i => ∀ call ∈ s.calls[i]?, ∀ written ∈ call.phase.complete, written.1.NamesOneDate →
      InOrder (written.1.activatesAt.getD s.link.activatesAt)
        (written.1.expiresAt.getD s.link.expiresAt)
  | _ => True

instance (s : Editing) : ∀ a, Decidable (FindsInOrder s a)
  | .commit i => inferInstanceAs (Decidable (∀ call ∈ s.calls[i]?, _))
  | .call _ => isTrue trivial
  | .read _ => isTrue trivial
  | .check _ _ _ => isTrue trivial
  | .statement _ => isTrue trivial
  | .fail _ => isTrue trivial

/-- Only a commit changes the row that others see. -/
theorem link_of_acts {a : Edit} {s' : Editing} (h : Acts p s a s') :
    s'.link = s.link ∨ ∃ i call patch row, a = .commit i ∧ s.calls[i]? = some call ∧
      call.phase.complete = some (patch, row) ∧ s'.link = row := by
  cases h with
  | commit hcall hcomplete => exact Or.inr ⟨_, _, _, _, rfl, hcall, hcomplete, rfl⟩
  | _ => exact Or.inl rfl

/-- The dates after a commit are in order exactly when it finds them so. -/
theorem inOrder_apply {patch : Patch} {link : StoredLink}
    (hpatch : PatchWell p s.scans patch) (hlink : InOrder link.activatesAt link.expiresAt) :
    InOrder (patch.apply link).activatesAt (patch.apply link).expiresAt ↔
      (patch.NamesOneDate → InOrder (patch.activatesAt.getD link.activatesAt)
        (patch.expiresAt.getD link.expiresAt)) := by
  have hdates : InOrder (patch.apply link).activatesAt (patch.apply link).expiresAt ↔
      InOrder (patch.activatesAt.getD link.activatesAt) (patch.expiresAt.getD link.expiresAt) :=
    Iff.rfl
  rw [hdates]
  refine ⟨fun h _ => h, fun h => ?_⟩
  cases hactivates : patch.activatesAt with
  | none =>
    cases hexpires : patch.expiresAt with
    | none => exact hlink
    | some expiresAt =>
      have hone : patch.NamesOneDate := by simp [Patch.NamesOneDate, hactivates, hexpires]
      simpa [hactivates, hexpires] using h hone
  | some activatesAt =>
    cases hexpires : patch.expiresAt with
    | none =>
      have hone : patch.NamesOneDate := by simp [Patch.NamesOneDate, hactivates, hexpires]
      simpa [hactivates, hexpires] using h hone
    | some expiresAt =>
      obtain ⟨e, tables, existing, input, -, hupdate⟩ := hpatch.accepted
      exact inOrder_of_update hupdate hactivates hexpires

/-- **An action keeps the dates in order exactly when it finds them so.** -/
theorem inOrder_act (h : Kept p origin s) (hlink : InOrder s.link.activatesAt s.link.expiresAt)
    (a : Edit) :
    InOrder (s.act p a).link.activatesAt (s.act p a).link.expiresAt ↔ FindsInOrder s a := by
  cases a with
  | commit i =>
    cases hcall : s.calls[i]? with
    | none => simpa [Editing.act, FindsInOrder, hcall] using hlink
    | some call =>
      cases hcomplete : call.phase.complete with
      | none => simpa [Editing.act, Editing.commit, FindsInOrder, hcall, hcomplete] using hlink
      | some transaction =>
        obtain ⟨patch, row⟩ := transaction
        have hmem := List.mem_of_getElem? hcall
        obtain ⟨rfl, hpatch, -⟩ := row_of_complete hcomplete (h.staged call hmem)
        simp only [Editing.act, Editing.commit, FindsInOrder, hcall, hcomplete, Option.mem_some_iff,
          forall_eq']
        exact inOrder_apply (h.patches call hmem patch hpatch) hlink
  | _ =>
    rcases link_of_acts (acts_act (p := p) (s := s) _) with hsame | ⟨i, call, patch, row, ha, -⟩
    · rw [hsame]
      exact iff_of_true hlink trivial
    · simp at ha

end

theorem kept_step {p : Platform} {origin : StoredLink} (s : Editing) (a : Edit) (s' : Editing)
    (h : Kept p origin s) (hs' : step p s a = some s') : Kept p origin s' := by
  obtain rfl := Option.some.inj hs'
  exact kept_act h a

/-- A runtime for texts in lower case, with two dates. -/
def twoDatesPlatform : Platform :=
  { sampleEnvironment.p with
    toLowerCase := id
    toUpperCase := id
    parseDate := fun s => if s = "1970-01-01T00:00:01.000Z" then some 1000 else some 2000
    toISOString := fun t =>
      if t = 1000 then "1970-01-01T00:00:01.000Z" else "1970-01-01T00:00:02.000Z" }

theorem caseKeepsText_twoDatesPlatform : CaseKeepsText twoDatesPlatform :=
  fun _ => ⟨Iff.rfl, Iff.rfl⟩

theorem caseSettles_twoDatesPlatform : CaseSettles twoDatesPlatform :=
  ⟨fun _ => rfl, fun _ => rfl⟩

def twoDatesEnvironment : Environment := { sampleEnvironment with p := twoDatesPlatform }

/-- A link without dates. -/
def datelessLink : StoredLink :=
  linkValues twoDatesEnvironment "W1" "D1" "sale" (inputFor "sale") .r302 none ⟨"clean", 0⟩

theorem inserted_datelessLink : Inserted twoDatesPlatform datelessLink := by
  have hcreate : create twoDatesEnvironment promoState (inputFor "sale")
      (fun _ _ => ⟨0, ALPHABET_length_pos⟩) = .ok datelessLink := by
    have hpasses : Passes twoDatesEnvironment promoState (inputFor "sale") :=
      passes_inputFor (fun _ _ => rfl) rfl (by decide +kernel)
    have hdomain : resolveDomain twoDatesPlatform promoState "snap.to" =
        .ok ⟨"D1", "snap.to", none, true, "live"⟩ := by
      decide
    exact insert_eq_ok_iff.mpr ⟨_, hdomain, hpasses, fun h => absurd h (by decide),
      ⟨fun _ => by decide, rfl, Or.inl rfl⟩, rfl⟩
  exact inserted_of_create hcreate

/-- An edit that sets when the link activates. -/
def activation : UpdateLinkInput :=
  { UpdateLinkInput.empty with activatesAt := some (some "1970-01-01T00:00:02.000Z") }

/-- An edit that sets when it expires, a second earlier. -/
def expiry : UpdateLinkInput :=
  { UpdateLinkInput.empty with expiresAt := some (some "1970-01-01T00:00:01.000Z") }

/-- The two edits, both checked against the link as it was before either. -/
def crossingEdits : List Edit :=
  [.call activation, .call expiry, .read 0, .read 1, .check 0 twoDatesEnvironment promoState,
    .check 1 twoDatesEnvironment promoState, .statement 0, .commit 0, .statement 1, .commit 1]

end SnapUrl.Links.Creation
