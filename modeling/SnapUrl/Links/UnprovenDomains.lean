import SnapUrl.Links.Targets

/-!
# Domains that nobody has proven

`loadSelfHosts` of `apps/api/src/links/links.service.ts` reads every row of `domains`, whatever
its status.  A workspace gets a row by `add` of `apps/api/src/domains/domains.service.ts`, before
it has shown that the host is its own.

* `OnlyUnproven`: two states that differ in nothing but such rows of other workspaces.
* `decisions`: what becomes of a write, row by row.
* `decisions_eq`: a write whose destinations both states treat alike is decided alike.
* `decisions_eq_iff`: **the writes with some destinations are decided alike exactly when each of
  the destinations that nothing else refuses is claimed in both states or in neither**.
-/

namespace SnapUrl.Links.Creation

open Domain

/-! ### The states -/

/-- Another workspace's row that has not been verified. -/
def DomainRow.Unproven (workspaceId : String) (row : DomainRow) : Prop :=
  row.status = "verifying" ∧ row.isSystem = false ∧ row.workspaceId ≠ some workspaceId

instance (workspaceId : String) (row : DomainRow) : Decidable (row.Unproven workspaceId) :=
  inferInstanceAs (Decidable (_ ∧ _ ∧ _))

/-- The rows but these. -/
def State.provenDomains (s : State) : List DomainRow :=
  s.domains.filter fun row => ¬ row.Unproven s.workspaceId

/-- The state without them. -/
def State.proven (s : State) : State := { s with domains := s.provenDomains }

/-- Two states of one workspace that differ in nothing else. -/
structure OnlyUnproven (s s' : State) : Prop where
  rest : s' = { s with domains := s'.domains }
  proven : s'.proven = s.proven

/-- The row that `add` inserts for a workspace. -/
def addedDomain (id workspaceId domain : String) : DomainRow :=
  ⟨id, domain, some workspaceId, false, "verifying"⟩

/-- **Whatever another workspace adds** is such a difference. -/
theorem onlyUnproven_added (s : State) {id workspaceId domain : String}
    (h : workspaceId ≠ s.workspaceId) :
    OnlyUnproven s { s with domains := s.domains ++ [addedDomain id workspaceId domain] } where
  rest := rfl
  proven := by
    have hunproven : (addedDomain id workspaceId domain).Unproven s.workspaceId :=
      ⟨rfl, rfl, fun heq => h (Option.some.inj heq)⟩
    simp [State.proven, State.provenDomains, List.filter_append, hunproven]

/-- An unproven row covers the host of a URL. -/
def Claimed (p : Platform) (s : State) (url : String) : Prop :=
  destinationHost p url ≠ "" ∧ ∃ row ∈ s.domains, row.Unproven s.workspaceId ∧
    hostCoveredBy p (destinationHost p url) row.domain = true

instance (p : Platform) (s : State) (url : String) : Decidable (Claimed p s url) :=
  inferInstanceAs (Decidable (_ ∧ _))

/-! ### The writes -/

/-- A request of the workspace; an edit or a clone with the link as it was read. -/
inductive LinkWrite where
  | create (input : CreateLinkInput) (draws : Nat → Draw)
  | bulkCreate (rows : List Row)
  | clone (domain : String) (ids : Nat → String) (source : StoredLink) (input : CloneLinkInput)
      (draws : Nat → Draw)
  | update (existing : StoredLink) (input : UpdateLinkInput)

/-- The destinations a write is checked for. -/
def LinkWrite.destinations : LinkWrite → List String
  | .create input _ => [input.destination]
  | .bulkCreate rows =>
    (rows.map fun row => row.parsed.toOption.map (·.destination)).reduceOption
  | .clone _ _ source _ _ => [source.destination]
  | .update _ input => input.destination.toList

/-- Whether a write is accepted, for a batch row by row. -/
def decisions (e : Environment) (s : State) : LinkWrite → List Bool
  | .create input draws => [(create e s input draws).toOption.isSome]
  | .bulkCreate rows => (bulkStored e s rows).map Option.isSome
  | .clone domain ids source input draws =>
    [(clone e s domain ids source input draws).toOption.isSome]
  | .update existing input => [(update e s existing input).toOption.isSome]

section

variable {p : Platform} {e : Environment} {s s' : State} {url : String}

/-! ### What the rows are read for -/

/-- A host is on the list of the state, or an unproven row claims it besides. -/
theorem covered_iff : Covered p s.policy url ↔ Covered p s.proven.policy url ∨ Claimed p s url := by
  have hhosts : (∃ host ∈ s.policy.hosts, hostCoveredBy p (destinationHost p url) host = true) ↔
      (∃ host ∈ s.proven.policy.hosts, hostCoveredBy p (destinationHost p url) host = true) ∨
        ∃ row ∈ s.domains, row.Unproven s.workspaceId ∧
          hostCoveredBy p (destinationHost p url) row.domain = true := by
    simp only [Policy.hosts, State.policy, State.proven, State.provenDomains, List.mem_append,
      List.mem_map, List.mem_filter, decide_not, Bool.not_eq_true', decide_eq_false_iff_not]
    constructor
    · rintro ⟨host, (hmem | ⟨row, hrow, rfl⟩) | hmem, hcovered⟩
      · exact Or.inl ⟨host, Or.inl (Or.inl hmem), hcovered⟩
      · by_cases hunproven : row.Unproven s.workspaceId
        · exact Or.inr ⟨row, hrow, hunproven, hcovered⟩
        · exact Or.inl ⟨_, Or.inl (Or.inr ⟨row, ⟨hrow, hunproven⟩, rfl⟩), hcovered⟩
      · exact Or.inl ⟨host, Or.inr hmem, hcovered⟩
    · rintro (⟨host, (hmem | ⟨row, ⟨hrow, -⟩, rfl⟩) | hmem, hcovered⟩ | ⟨row, hrow, -, hcovered⟩)
      · exact ⟨host, Or.inl (Or.inl hmem), hcovered⟩
      · exact ⟨_, Or.inl (Or.inr ⟨row, hrow, rfl⟩), hcovered⟩
      · exact ⟨host, Or.inr hmem, hcovered⟩
      · exact ⟨_, Or.inl (Or.inr ⟨row, hrow, rfl⟩), hcovered⟩
  rw [Covered, Covered, Claimed, hhosts, and_or_left]

/-- A URL that both states treat alike. -/
def Alike (p : Platform) (s s' : State) (url : String) : Prop :=
  ¬ Covered p s.proven.policy url → (Claimed p s url ↔ Claimed p s' url)

theorem alike_iff (h : OnlyUnproven s s') :
    Alike p s s' url ↔ (Covered p s.policy url ↔ Covered p s'.policy url) := by
  have hs : Covered p s.policy url ↔ _ := covered_iff
  have hs' : Covered p s'.policy url ↔ _ := covered_iff
  rw [h.proven] at hs'
  rw [Alike, hs, hs']
  by_cases hproven : Covered p s.proven.policy url <;> simp [hproven]

/-- The workspace's own rows and the system's are no unproven rows of others. -/
theorem resolveDomain_proven (name : String) :
    resolveDomain p s.proven name = resolveDomain p s name := by
  have hfind : s.proven.domains.find? (fun row => p.toLowerCase row.domain = p.toLowerCase name &&
      (row.workspaceId = some s.proven.workspaceId || row.isSystem)) =
      s.domains.find? fun row => p.toLowerCase row.domain = p.toLowerCase name &&
        (row.workspaceId = some s.workspaceId || row.isSystem) := by
    rw [State.proven, State.provenDomains, List.find?_filter]
    congr 1
    funext row
    rw [Bool.eq_iff_iff]
    simp only [decide_eq_true_eq, Bool.and_eq_true, Bool.or_eq_true]
    constructor
    · exact fun h => h.2
    · rintro ⟨hname, howner⟩
      refine ⟨fun h => ?_, hname, howner⟩
      rcases howner with hown | hsystem
      · exact h.2.2 hown
      · exact absurd (h.2.1.symm.trans hsystem) Bool.false_ne_true
  rw [resolveDomain, resolveDomain, hfind]

theorem resolveDomain_congr (h : OnlyUnproven s s') (name : String) :
    resolveDomain p s' name = resolveDomain p s name := by
  rw [← resolveDomain_proven, h.proven, resolveDomain_proven]

/-- The checks of a destination that both states treat alike. -/
theorem unmatched_congr (h : OnlyUnproven s s') (halike : Alike p s s' url) :
    matchBlockedDomain p url s'.blockedDomains = none ∧
        matchRedirectChain p url (s'.domains.map (·.domain)) = none ↔
      matchBlockedDomain p url s.blockedDomains = none ∧
        matchRedirectChain p url (s.domains.map (·.domain)) = none := by
  rw [← not_covered_iff, ← not_covered_iff, (alike_iff h).mp halike]

theorem passes_congr (h : OnlyUnproven s s') {input : CreateLinkInput}
    (halike : Alike e.p s s' input.destination) : Passes e s' input ↔ Passes e s input := by
  have hmatch := unmatched_congr h halike
  constructor
  · intro hpasses
    obtain ⟨hblocked, hchained⟩ := hmatch.mp ⟨hpasses.notBlocked, hpasses.notChained⟩
    exact ⟨hpasses.valid, hpasses.shaped, hpasses.allowed, hblocked, hchained, hpasses.notFlagged⟩
  · intro hpasses
    obtain ⟨hblocked, hchained⟩ := hmatch.mpr ⟨hpasses.notBlocked, hpasses.notChained⟩
    exact ⟨hpasses.valid, hpasses.shaped, hpasses.allowed, hblocked, hchained, hpasses.notFlagged⟩

/-! ### The rest of the state -/

/-- No unproven row is read by what is asked of a row of a batch beyond its checks. -/
theorem freeWithin_congr (h : OnlyUnproven s s') (n : Nat) (q : Prepared) :
    freeWithin s' n q ↔ freeWithin s n q := by
  rw [h.rest]
  induction n generalizing q with
  | zero => exact Iff.rfl
  | succ n ih => exact or_congr Iff.rfl (ih q.redraw)

theorem settleFrom_congr (h : OnlyUnproven s s') (n : Nat) (q : Prepared) :
    settleFrom s' n q = settleFrom s n q := by
  rw [h.rest]
  induction n generalizing q with
  | zero => rfl
  | succ n ih =>
    rw [settleFrom, settleFrom, ih]
    rfl

theorem taken_congr (h : OnlyUnproven s s') : s'.taken = s.taken := by
  rw [h.rest]
  rfl

theorem room_congr (h : OnlyUnproven s s') (n : Nat) : Room e s' n ↔ Room e s n := by
  rw [h.rest]
  exact Iff.rfl

theorem acceptable_congr (h : OnlyUnproven s s') (q : Prepared) :
    Acceptable e s' q ↔ Acceptable e s q := by
  have hunreserved : q.Unreserved e s' ↔ q.Unreserved e s := by
    rw [h.rest]
    exact Iff.rfl
  have hfree := freeWithin_congr h q.tries q
  exact ⟨fun hq => ⟨hunreserved.mp hq.unreserved, hq.storable, hfree.mp hq.free⟩,
    fun hq => ⟨hunreserved.mpr hq.unreserved, hq.storable, hfree.mpr hq.free⟩⟩

/-! ### One destination -/

theorem isSome_toOption_iff {ε α : Type} {x : Except ε α} :
    x.toOption.isSome = true ↔ ∃ a, x = .ok a := by
  cases x <;> simp [Except.toOption]

theorem insert_congr (h : OnlyUnproven s s') {input : CreateLinkInput}
    {passwordHash : Option String} {draws : Nat → Draw}
    (halike : Alike e.p s s' input.destination) :
    (insert e s' input passwordHash draws).toOption.isSome =
      (insert e s input passwordHash draws).toOption.isSome := by
  rw [Bool.eq_iff_iff, isSome_toOption_iff, isSome_toOption_iff]
  simp only [insert_eq_ok_iff, resolveDomain_congr h, passes_congr h halike, room_congr h,
    acceptable_congr h]
  constructor
  · rintro ⟨-, domain, hdomain, hpasses, hroom, hacceptable, -⟩
    exact ⟨_, domain, hdomain, hpasses, hroom, hacceptable, rfl⟩
  · rintro ⟨-, domain, hdomain, hpasses, hroom, hacceptable, -⟩
    exact ⟨_, domain, hdomain, hpasses, hroom, hacceptable, rfl⟩

theorem editPasses_congr (h : OnlyUnproven s s') {existing : StoredLink} {input : UpdateLinkInput}
    (halike : ∀ url ∈ input.destination, Alike e.p s s' url) :
    EditPasses e s' existing input ↔ EditPasses e s existing input := by
  constructor
  · intro hpasses
    have hmatch := fun url hurl => (unmatched_congr h (halike url hurl)).mp
      ⟨hpasses.notBlocked url hurl, hpasses.notChained url hurl⟩
    exact ⟨hpasses.valid, hpasses.allowed, fun url hurl => (hmatch url hurl).1,
      fun url hurl => (hmatch url hurl).2, hpasses.notFlagged⟩
  · intro hpasses
    have hmatch := fun url hurl => (unmatched_congr h (halike url hurl)).mpr
      ⟨hpasses.notBlocked url hurl, hpasses.notChained url hurl⟩
    exact ⟨hpasses.valid, hpasses.allowed, fun url hurl => (hmatch url hurl).1,
      fun url hurl => (hmatch url hurl).2, hpasses.notFlagged⟩

theorem update_isSome_iff {existing : StoredLink} {input : UpdateLinkInput} :
    (update e s existing input).toOption.isSome = true ↔ EditPasses e s existing input := by
  simp only [isSome_toOption_iff, update_eq_ok_iff]
  exact ⟨fun ⟨_, hpasses, _⟩ => hpasses, fun hpasses => ⟨_, hpasses, rfl⟩⟩

/-! ### A batch -/

theorem passing_congr (h : OnlyUnproven s s') {row : Row}
    (halike : ∀ input, row.parsed = .ok input → Alike e.p s s' input.destination) :
    passing e s' row = passing e s row := by
  rw [passing, passing]
  cases hparsed : row.parsed with
  | error message => rfl
  | ok input =>
    dsimp only
    rw [resolveDomain_congr h]
    simp only [passes_congr h (halike input hparsed)]

theorem contend_congr (h : OnlyUnproven s s') {rows : List Row}
    (halike : ∀ row ∈ rows, ∀ input, row.parsed = .ok input → Alike e.p s s' input.destination)
    (seen : List (String × String)) : contend e s' seen rows = contend e s seen rows := by
  induction rows generalizing seen with
  | nil => rfl
  | cons row rows ih =>
    have hlater := ih fun row' hrow' => halike row' (List.mem_cons_of_mem _ hrow')
    rw [contend, contend, passing_congr h (halike row List.mem_cons_self)]
    simp only [hlater, Prepared.settled, settleFrom_congr h, taken_congr h]

theorem bulkStored_congr (h : OnlyUnproven s s') {rows : List Row}
    (halike : ∀ row ∈ rows, ∀ input, row.parsed = .ok input → Alike e.p s s' input.destination) :
    (bulkStored e s' rows).map Option.isSome = (bulkStored e s rows).map Option.isSome := by
  have hcontend := contend_congr h halike
  have hinsertable : Insertable e s' (contenders e s' rows) ↔
      Insertable e s (contenders e s rows) := by
    rw [contenders, contenders, hcontend]
    constructor
    · intro hall
      exact ⟨hall.storable, taken_congr h ▸ hall.free, hall.distinct⟩
    · intro hall
      exact ⟨hall.storable, (taken_congr h).symm ▸ hall.free, hall.distinct⟩
  rw [bulkStored_eq, bulkStored_eq, hcontend]
  simp only [room_congr h, hinsertable]
  split
  · rw [List.map_map, List.map_map]
    refine List.map_congr_left fun q _ => ?_
    cases q <;> rfl
  · rfl

/-! ### The result -/

/-- **A write whose destinations both states treat alike is decided alike.** -/
theorem decisions_eq (h : OnlyUnproven s s') {write : LinkWrite}
    (halike : ∀ url ∈ write.destinations, Alike e.p s s' url) :
    decisions e s' write = decisions e s write := by
  cases write with
  | create input draws =>
    exact congrArg (fun b => [b]) (insert_congr h (halike _ List.mem_cons_self))
  | bulkCreate rows =>
    refine bulkStored_congr h fun row hrow input hparsed => halike _ ?_
    rw [LinkWrite.destinations, List.reduceOption_mem_iff, List.mem_map]
    exact ⟨row, hrow, by rw [hparsed]; rfl⟩
  | clone domain ids source input draws =>
    exact congrArg (fun b => [b]) (insert_congr h (halike _ List.mem_cons_self))
  | update existing input =>
    have hpasses : EditPasses e s' existing input ↔ EditPasses e s existing input :=
      editPasses_congr h fun url hurl => halike url (Option.mem_toList.mpr hurl)
    refine congrArg (fun b => [b]) ?_
    rw [Bool.eq_iff_iff, update_isSome_iff, update_isSome_iff, hpasses]

/-- Services that have nothing against any URL. -/
def permissive (p : Platform) : Environment :=
  ⟨p, "", 0, fun _ => false, fun _ => ⟨"clean", 0⟩, id, fun _ => true, fun _ => ""⟩

/-- An edit that only names a destination, of a link without dates. -/
def redirection (existing : StoredLink) (url : String) : LinkWrite :=
  .update { existing with expiresAt := none, activatesAt := none }
    { UpdateLinkInput.empty with destination := some url }

/-- Such an edit is accepted unless its destination is covered. -/
theorem decisions_redirection (existing : StoredLink) :
    decisions (permissive p) s (redirection existing url) = [true] ↔
      ¬ Covered p s.policy url := by
  rw [redirection, decisions, List.cons.injEq, update_isSome_iff, not_covered_iff]
  constructor
  · rintro ⟨hpasses, -⟩
    exact ⟨hpasses.notBlocked _ rfl, hpasses.notChained _ rfl⟩
  · rintro ⟨hblocked, hchained⟩
    refine ⟨⟨rfl, List.find?_eq_none.mpr (by simp [permissive]), ?_, ?_, ?_⟩, rfl⟩
    all_goals
      intro destination h
      obtain rfl := Option.some.inj h
    · exact hblocked
    · exact hchained
    · change "clean" ≠ "flagged"
      decide

end

/-- **What other workspaces' claims can do.**  Of two states that differ in unproven domains of
other workspaces, the writes with some destinations are decided alike in both exactly when
each of these destinations, unless something else covers it too, is on a claimed host in
both states or in neither. -/
theorem decisions_eq_iff (p : Platform) (s s' : State) (h : OnlyUnproven s s')
    (urls : String → Prop) :
    (∀ (e : Environment) (write : LinkWrite), e.p = p → (∀ url ∈ write.destinations, urls url) →
      decisions e s' write = decisions e s write) ↔ ∀ url, urls url → Alike p s s' url := by
  constructor
  · intro hdecided url hurl
    have hsame := hdecided (permissive p) (redirection (expiringLink "") url) rfl
      fun url' hurl' => List.mem_singleton.mp hurl' ▸ hurl
    have hs' : decisions (permissive p) s' (redirection (expiringLink "") url) = [true] ↔
        ¬ Covered p s'.policy url := decisions_redirection _
    rw [hsame, decisions_redirection] at hs'
    exact (alike_iff h).mpr (not_iff_not.mp hs')
  · rintro halike e write rfl hwrite
    exact decisions_eq h fun url hurl => halike url (hwrite url hurl)

/-! ### A host that another workspace claims -/

/-- Another workspace adds a domain. -/
def claimedState (domain : String) : State :=
  { promoState with domains := promoState.domains ++ [addedDomain "D2" "W2" domain] }

theorem onlyUnproven_claimedState (domain : String) :
    OnlyUnproven promoState (claimedState domain) :=
  onlyUnproven_added promoState (by decide)

/-- A link to `https://a.com/`. -/
def linkToA : LinkWrite :=
  .create (expiringInput "https://a.com/") fun _ _ => ⟨0, ALPHABET_length_pos⟩

/-- **A link to `https://a.com/` is refused once another workspace has added that host**, which
it need not own. -/
theorem claim_refuses_others :
    ¬ ∀ (e : Environment) (s s' : State) (write : LinkWrite), OnlyUnproven s s' →
      decisions e s' write = decisions e s write := by
  intro h
  have hsame := h eitherEnvironment _ _ linkToA (onlyUnproven_claimedState "a.com")
  have hcovered : Covered eitherPlatform (claimedState "a.com").policy "https://a.com/" := by
    have hown : hostCoveredBy eitherPlatform "a.com" "a.com" = true := by decide
    rw [Covered, destinationHost_page]
    exact ⟨by decide, "a.com", by simp [Policy.hosts, State.policy, claimedState, addedDomain], hown⟩
  have hrefused : (create eitherEnvironment (claimedState "a.com") (expiringInput "https://a.com/")
      (fun _ _ => ⟨0, ALPHABET_length_pos⟩)).toOption.isSome = false := by
    cases hcreate : create eitherEnvironment (claimedState "a.com") (expiringInput "https://a.com/")
        (fun _ _ => ⟨0, ALPHABET_length_pos⟩) with
    | error error => rfl
    | ok link =>
      obtain ⟨_, -, hpasses, -⟩ := insert_eq_ok_iff.mp hcreate
      exact absurd hcovered (not_covered_iff.mpr ⟨hpasses.notBlocked, hpasses.notChained⟩)
  simp only [linkToA, decisions, hrefused, create_expiringInput] at hsame
  cases hsame

/-- A claim on `b.com` changes nothing for a link to `https://a.com/`. -/
theorem decisions_claimedState :
    decisions eitherEnvironment (claimedState "b.com") linkToA =
      decisions eitherEnvironment promoState linkToA := by
  have halike : ∀ url, url = "https://a.com/" →
      Alike eitherPlatform promoState (claimedState "b.com") url := by
    rintro url rfl -
    exact iff_of_false (by decide +kernel) (by decide +kernel)
  exact (decisions_eq_iff eitherPlatform promoState (claimedState "b.com")
    (onlyUnproven_claimedState "b.com") (· = "https://a.com/")).mpr halike eitherEnvironment linkToA
      rfl fun url hurl => List.mem_singleton.mp hurl

end SnapUrl.Links.Creation
