import Mathlib.Data.List.ReduceOption
import Mathlib.Logic.Function.Iterate
import SnapUrl.Links.Admission

/-!
# Many links in one request

`bulkCreate` of `apps/api/src/links/links.service.ts`.  The maps `errors` and `skipped` are
keyed by the place of a row, so here a row keeps its place and says itself what became of it.

* `prepare`: the checks of each row, with the cache of the domains.
* `claimSlugs`: two rows that ask for the same back-half.
* `passes`: the loop that skips back-halves that are taken and draws others.
* `bulkCreate`: all of it, and the transaction.
* `contend`: what becomes of a row, in one step.  `bulkStored_eq`: **the rows that contend
  are stored, or none is**.
-/

namespace SnapUrl.Links.Creation

open Domain

/-! ### Phase one -/

/-- What became of a row. -/
inductive RowState where
  | failed (error : String)
  | skipped (error : String)
  /-- Neither, so far. -/
  | live (p : Prepared)

def RowState.prepared : RowState → Option Prepared
  | .live p => some p
  | _ => none

theorem prepared_live (p : Prepared) : (RowState.live p).prepared = some p := rfl

abbrev DomainCache := List (String × Except String DomainRow)

def resolveDomainCached (p : Platform) (s : State) (cache : DomainCache) (name : String) :
    Except String DomainRow × DomainCache :=
  match cache.lookup (p.toLowerCase name) with
  | some hit => (hit, cache)
  | none =>
    let resolved := resolveDomain p s name
    (resolved, (p.toLowerCase name, resolved) :: cache)

/-- The problems of a row, in the order they are found. -/
def rowProblems (e : Environment) (s : State) (domain : Except String DomainRow)
    (input : CreateLinkInput) : List String :=
  problems e input ++
  (if truthy input.slug then
    match isSlugAvailableShape (orEmpty input.slug) with
    | .error reason => [reason]
    | .ok () => []
  else []) ++
  (match matchBlockedDomain e.p input.destination s.blockedDomains with
    | some blocked =>
      ["That destination points at " ++ blocked ++ ", which an administrator has blocked."]
    | none => []) ++
  (match matchRedirectChain e.p input.destination (s.domains.map (·.domain)) with
    | some ⟨.self, host⟩ => ["That destination points back at " ++ host ++
        ", one of our own short domains. Use the final destination instead."]
    | some ⟨.shortener, host⟩ => ["That destination is a " ++ host ++
        " short link. Use the final destination instead."]
    | none => []) ++
  ((guardedUrls input).filter e.resolvesToDeniedAddress).map deniedMessage ++
  (match domain with
    | .error message => [message]
    | .ok _ => [])

def prepareRow (e : Environment) (s : State) (cache : DomainCache) (row : Row) :
    RowState × DomainCache :=
  match row.parsed with
  | .error message => (.failed message, cache)
  | .ok input =>
    let resolved := resolveDomainCached e.p s cache input.domain
    (match rowProblems e s resolved.1 input, resolved.1 with
      | [], .ok domain =>
        let scan := e.scan input.destination
        if scan.status = "flagged" then
          .failed "That destination was flagged as unsafe by Google Safe Browsing."
        else .live ⟨input, domain.id, row.draws, 0, hashOf e input.password, scan⟩
      | texts, _ => .failed (" ".intercalate texts),
      resolved.2)

def prepare (e : Environment) (s : State) : DomainCache → List Row → List RowState
  | _, [] => []
  | cache, row :: rows =>
    let prepared := prepareRow e s cache row
    prepared.1 :: prepare e s prepared.2 rows

/-- The map `seen` holds the first row that asks for a back-half. -/
def claimSlugs : Nat → List ((String × String) × Nat) → List RowState → List RowState
  | index, seen, .live p :: rows =>
    if p.generated then .live p :: claimSlugs (index + 1) seen rows
    else
      match seen.lookup p.key with
      | some first =>
        .failed ("Row " ++ toString (first + 1) ++ " already asks for /" ++ p.slug ++
          " in this batch.") :: claimSlugs (index + 1) seen rows
      | none => .live p :: claimSlugs (index + 1) ((p.key, index) :: seen) rows
  | index, seen, row :: rows => row :: claimSlugs (index + 1) seen rows
  | _, _, [] => []

/-- The back-half of the row is taken. -/
def RowState.isTaken (taken : String × String → Bool) : RowState → Bool
  | .live p => taken p.key
  | _ => false

/-- The row is drawn again in this pass. -/
def RowState.redraws (taken : String × String → Bool) : RowState → Bool
  | .live p => taken p.key && p.generated
  | _ => false

/-- A row after a pass. -/
def RowState.pass (taken : String × String → Bool) : RowState → RowState
  | .live p =>
    if taken p.key then
      if p.generated then .live p.redraw
      else .skipped (p.input.domain ++ "/" ++ p.slug ++
        " already exists. Skipped — existing back-halves are never overwritten.")
    else .live p
  | row => row

/-- The loop, with the passes that are left. -/
def passes (taken : String × String → Bool) : Nat → List RowState → List RowState
  | 0, rows => rows
  | left + 1, rows =>
    if !rows.any (·.isTaken taken) then rows
    else if rows.any (·.redraws taken) then passes taken left (rows.map (·.pass taken))
    else rows.map (·.pass taken)

/-! ### Phase two -/

inductive BulkLinkOutcome where
  | created (link : StoredLink)
  | skipped (destination error : String)
  | failed (destination error : String)
deriving DecidableEq, Repr

structure BulkCreateLinksResult where
  created : Nat
  skipped : Nat
  failed : Nat
  results : List BulkLinkOutcome
deriving DecidableEq, Repr

/-- The transaction: every row goes in, or none does. -/
def insertAll (e : Environment) (s : State) (prepared : List Prepared) : Except HttpError Unit :=
  if (prepared.all fun p => e.storable p.input && !s.taken p.key) ∧
      (prepared.map (·.key)).Nodup then .ok ()
  else .error ⟨500, ["Internal server error"]⟩

/-- The values of a row of the insert. -/
def Prepared.values (e : Environment) (s : State) (fallbackRedirect : RedirectType)
    (p : Prepared) : StoredLink :=
  linkValues e s.workspaceId p.domainId p.slug p.input
    (p.input.redirectType.getD fallbackRedirect) p.passwordHash p.scan

/-- The default is read when some row needs it. -/
def fallbackRedirectFor (s : State) (toInsert : List Prepared) : RedirectType :=
  if toInsert.any fun p => p.input.redirectType.isNone then defaultRedirectFor s else .r302

def outcome (e : Environment) (s : State) (fallbackRedirect : RedirectType) (row : Row) :
    RowState → BulkLinkOutcome
  | .failed error => .failed (row.destination.getD "") error
  | .skipped error => .skipped (row.destination.getD "") error
  | .live p => .created (p.values e s fallbackRedirect)

/-- The rows as they are when the transaction begins. -/
def finalRows (e : Environment) (s : State) (rows : List Row) : List RowState :=
  passes s.taken SLUG_RETRY_LIMIT (claimSlugs 0 [] (prepare e s [] rows))

def isSkipped : RowState → Bool
  | .skipped _ => true
  | _ => false

def isFailed : RowState → Bool
  | .failed _ => true
  | _ => false

def bulkCreate (e : Environment) (s : State) (rows : List Row) :
    Except HttpError BulkCreateLinksResult := do
  assertNewAccountLinkCap e.now s
  let states := finalRows e s rows
  let toInsert := (states.map (·.prepared)).reduceOption
  let fallbackRedirect := fallbackRedirectFor s toInsert
  insertAll e s toInsert
  .ok {
    created := toInsert.length
    skipped := states.countP isSkipped
    failed := states.countP isFailed
    results := List.zipWith (outcome e s fallbackRedirect) rows states }

/-- The link of a row that was created. -/
def BulkLinkOutcome.link : BulkLinkOutcome → Option StoredLink
  | .created link => some link
  | _ => none

/-- What a batch stores for each of its rows. -/
def bulkStored (e : Environment) (s : State) (rows : List Row) : List (Option StoredLink) :=
  match bulkCreate e s rows with
  | .ok result => result.results.map (·.link)
  | .error _ => rows.map fun _ => none

/-! ### What becomes of a row -/

/-- The rows that are left to insert, each at its place: those that pass the checks, with
the first free back-half that is drawn, or the one they ask for, unless it is taken or an
earlier row asks for it. -/
def contend (e : Environment) (s : State) : List (String × String) → List Row →
    List (Option Prepared)
  | _, [] => []
  | seen, row :: rows =>
    match passing e s row with
    | none => none :: contend e s seen rows
    | some p =>
      if p.generated then some (p.settled s) :: contend e s seen rows
      else if p.key ∈ seen then none :: contend e s seen rows
      else (if s.taken p.key then none else some p) :: contend e s (p.key :: seen) rows

def contenders (e : Environment) (s : State) (rows : List Row) : List Prepared :=
  (contend e s [] rows).reduceOption

/-- The database takes the rows as they are. -/
structure Insertable (e : Environment) (s : State) (prepared : List Prepared) : Prop where
  storable : ∀ p ∈ prepared, e.storable p.input = true
  free : ∀ p ∈ prepared, s.taken p.key = false
  distinct : (prepared.map (·.key)).Nodup

instance (e : Environment) (s : State) (prepared : List Prepared) :
    Decidable (Insertable e s prepared) :=
  decidable_of_iff ((∀ p ∈ prepared, e.storable p.input = true) ∧
      (∀ p ∈ prepared, s.taken p.key = false) ∧ (prepared.map (·.key)).Nodup)
    ⟨fun ⟨h₁, h₂, h₃⟩ => ⟨h₁, h₂, h₃⟩, fun ⟨h₁, h₂, h₃⟩ => ⟨h₁, h₂, h₃⟩⟩

section

variable {e : Environment} {s : State}

/-! ### The checks of a row -/

/-- What the cache holds for a name is what a lookup of some spelling of it found. -/
def CacheOf (p : Platform) (s : State) (cache : DomainCache) : Prop :=
  ∀ key hit, cache.lookup key = some hit →
    ∃ name, p.toLowerCase name = key ∧ hit = resolveDomain p s name

/-- The spelling of a name does not change what it resolves to. -/
theorem toOption_resolveDomain {p : Platform} {name name' : String}
    (h : p.toLowerCase name = p.toLowerCase name') :
    (resolveDomain p s name).toOption = (resolveDomain p s name').toOption := by
  rw [resolveDomain, resolveDomain, h]
  split
  · rfl
  split
  · rfl
  · rfl

theorem toOption_resolveDomainCached {p : Platform} {cache : DomainCache} (h : CacheOf p s cache)
    (name : String) :
    (resolveDomainCached p s cache name).1.toOption = (resolveDomain p s name).toOption := by
  rw [resolveDomainCached]
  split
  · rename_i hit hlookup
    obtain ⟨name', hname, rfl⟩ := h _ _ hlookup
    exact toOption_resolveDomain hname
  · rfl

theorem cacheOf_resolveDomainCached {p : Platform} {cache : DomainCache} (h : CacheOf p s cache)
    (name : String) : CacheOf p s (resolveDomainCached p s cache name).2 := by
  rw [resolveDomainCached]
  split
  · exact h
  · intro key hit hlookup
    rw [List.lookup_cons] at hlookup
    split at hlookup
    · rename_i hkey
      exact ⟨name, (beq_iff_eq.mp hkey).symm, (Option.some.inj hlookup).symm⟩
    · exact h key hit hlookup

/-- The problems of a row are those of the checks that both paths make, and of its domain. -/
theorem rowProblems_eq_nil_iff {domain : Except String DomainRow} {input : CreateLinkInput} :
    rowProblems e s domain input = [] ∧ (e.scan input.destination).status ≠ "flagged" ↔
      Passes e s input ∧ domain.toOption.isSome = true := by
  have hslug : (if truthy input.slug then
      match isSlugAvailableShape (orEmpty input.slug) with
      | .error reason => [reason]
      | .ok () => []
    else []) = [] ↔
      (truthy input.slug = true → isSlugAvailableShape (orEmpty input.slug) = .ok ()) := by
    split
    · rename_i htruthy
      cases isSlugAvailableShape (orEmpty input.slug) <;> simp [htruthy]
    · rename_i htruthy
      simp [htruthy]
  have hdomain : (match domain with
      | .error message => [message]
      | .ok _ => []) = [] ↔ domain.toOption.isSome = true := by
    cases domain <;> simp [Except.toOption]
  have hblocked : (match matchBlockedDomain e.p input.destination s.blockedDomains with
      | some blocked =>
        ["That destination points at " ++ blocked ++ ", which an administrator has blocked."]
      | none => []) = [] ↔ matchBlockedDomain e.p input.destination s.blockedDomains = none := by
    cases matchBlockedDomain e.p input.destination s.blockedDomains <;> simp
  have hchained : (match matchRedirectChain e.p input.destination (s.domains.map (·.domain)) with
      | some ⟨.self, host⟩ => ["That destination points back at " ++ host ++
          ", one of our own short domains. Use the final destination instead."]
      | some ⟨.shortener, host⟩ => ["That destination is a " ++ host ++
          " short link. Use the final destination instead."]
      | none => []) = [] ↔
        matchRedirectChain e.p input.destination (s.domains.map (·.domain)) = none := by
    split <;> simp_all
  rw [rowProblems.eq_def]
  simp only [List.append_eq_nil_iff, List.map_eq_nil_iff, List.filter_eq_nil_iff, hslug, hdomain,
    hblocked, hchained]
  constructor
  · rintro ⟨⟨⟨⟨⟨⟨hvalid, hshaped⟩, hnotBlocked⟩, hnotChained⟩, hallowed⟩, hsome⟩, hscan⟩
    exact ⟨⟨hvalid, hshaped, List.find?_eq_none.mpr hallowed, hnotBlocked, hnotChained, hscan⟩,
      hsome⟩
  · rintro ⟨hpasses, hsome⟩
    exact ⟨⟨⟨⟨⟨⟨hpasses.valid, hpasses.shaped⟩, hpasses.notBlocked⟩, hpasses.notChained⟩,
      List.find?_eq_none.mp hpasses.allowed⟩, hsome⟩, hpasses.notFlagged⟩

/-- **A row is prepared exactly when it passes the checks of the single path.** -/
theorem prepared_prepareRow {cache : DomainCache} (h : CacheOf e.p s cache) (row : Row) :
    (prepareRow e s cache row).1.prepared = passing e s row := by
  rw [prepareRow, passing]
  cases row.parsed with
  | error message => rfl
  | ok input =>
    have hresolved := toOption_resolveDomainCached h input.domain
    dsimp only
    generalize (resolveDomainCached e.p s cache input.domain).1 = domain at hresolved
    have hiff : rowProblems e s domain input = [] ∧
        (e.scan input.destination).status ≠ "flagged" ↔
          Passes e s input ∧ domain.toOption.isSome = true := rowProblems_eq_nil_iff
    cases hdomain : resolveDomain e.p s input.domain with
    | error message =>
      rw [hdomain] at hresolved
      cases domain with
      | error message' => split <;> simp_all [RowState.prepared, Except.toOption]
      | ok row => simp [Except.toOption] at hresolved
    | ok found =>
      rw [hdomain] at hresolved
      cases domain with
      | error message' => simp [Except.toOption] at hresolved
      | ok found' =>
        obtain rfl : found' = found := by simpa [Except.toOption] using hresolved
        by_cases hpasses : Passes e s input
        · obtain ⟨hproblems, hscan⟩ := hiff.mpr ⟨hpasses, rfl⟩
          simp [hproblems, hscan, hpasses, RowState.prepared]
        · cases hproblems : rowProblems e s (.ok found') input with
          | nil =>
            have hscan : (e.scan input.destination).status = "flagged" := by
              by_contra hscan
              exact hpasses (hiff.mp ⟨hproblems, hscan⟩).1
            simp [hscan, hpasses, RowState.prepared]
          | cons text texts => simp [hpasses, RowState.prepared]

theorem cacheOf_prepareRow {cache : DomainCache} (h : CacheOf e.p s cache) (row : Row) :
    CacheOf e.p s (prepareRow e s cache row).2 := by
  rw [prepareRow]
  cases row.parsed with
  | error message => exact h
  | ok input => exact cacheOf_resolveDomainCached h input.domain

/-! ### The loop -/

section Passes

variable {taken : String × String → Bool} {rows : List RowState}

theorem pass_of_not_isTaken {row : RowState} (h : row.isTaken taken = false) :
    row.pass taken = row := by
  cases row with
  | live p => rw [RowState.pass, if_neg (by simpa [RowState.isTaken] using h)]
  | failed error => rfl
  | skipped error => rfl

/-- A row that is not drawn again is settled after the pass. -/
theorem isTaken_pass {row : RowState} (h : row.redraws taken = false) :
    (row.pass taken).isTaken taken = false := by
  cases row with
  | live p =>
    rw [RowState.pass]
    cases htaken : taken p.key with
    | false => simpa [RowState.isTaken] using htaken
    | true =>
      rw [RowState.redraws, htaken, Bool.true_and] at h
      simp [h, RowState.isTaken]
  | failed error => rfl
  | skipped error => rfl

theorem iterate_pass_of_not_isTaken {row : RowState} (h : row.isTaken taken = false) (n : Nat) :
    (RowState.pass taken)^[n] row = row :=
  Function.iterate_fixed (pass_of_not_isTaken h) n

/-- **The loop makes every pass**, since it ends early only where no pass changes a row. -/
theorem passes_eq (n : Nat) (rows : List RowState) :
    passes taken n rows = rows.map ((RowState.pass taken)^[n]) := by
  induction n generalizing rows with
  | zero => simp [passes]
  | succ n ih =>
    rw [passes]
    split
    · rename_i hnone
      rw [Bool.not_eq_true', List.any_eq_false] at hnone
      conv_lhs => rw [← List.map_id rows]
      refine List.map_congr_left fun row hrow => ?_
      exact (iterate_pass_of_not_isTaken (Bool.eq_false_iff.mpr (hnone row hrow)) _).symm
    split
    · rw [ih, List.map_map]
      rfl
    · rename_i hstop
      rw [List.any_eq_true, not_exists] at hstop
      refine List.map_congr_left fun row hrow => ?_
      have hredraws : row.redraws taken = false := by
        simpa using not_and.mp (hstop row) hrow
      rw [Function.iterate_succ_apply, iterate_pass_of_not_isTaken (isTaken_pass hredraws)]

theorem pass_eq_of_not_live {row : RowState} (h : row.prepared = none) (n : Nat) :
    ((RowState.pass taken)^[n] row).prepared = none := by
  have hfixed : row.pass taken = row := by
    cases row with
    | live p => simp [RowState.prepared] at h
    | failed error => rfl
    | skipped error => rfl
  rw [Function.iterate_fixed hfixed, h]

end Passes

/-- A drawn row after the passes. -/
theorem iterate_pass_generated {p : Prepared} (h : p.generated = true) (n : Nat) :
    (RowState.pass s.taken)^[n] (.live p) = .live (settleFrom s n p) := by
  induction n generalizing p with
  | zero => rfl
  | succ n ih =>
    rw [Function.iterate_succ_apply, RowState.pass, settleFrom, if_pos h]
    split
    · exact ih h
    · rename_i hfree
      exact iterate_pass_of_not_isTaken (by simpa [RowState.isTaken] using hfree) n

/-- A row that asks for a back-half is skipped where that is taken. -/
theorem iterate_pass_chosen {p : Prepared} (h : p.generated = false) (n : Nat) :
    ((RowState.pass s.taken)^[n + 1] (.live p)).prepared =
      if s.taken p.key then none else some p := by
  rw [Function.iterate_succ_apply, RowState.pass]
  cases htaken : s.taken p.key with
  | true =>
    rw [if_pos rfl, if_pos rfl, h, if_neg Bool.false_ne_true]
    exact pass_eq_of_not_live rfl n
  | false =>
    rw [if_neg Bool.false_ne_true, if_neg Bool.false_ne_true,
      iterate_pass_of_not_isTaken (by simpa [RowState.isTaken] using htaken)]
    rfl

/-! ### All of phase one -/

theorem lookup_eq_none_iff_notMem {κ β : Type} [BEq κ] [LawfulBEq κ] {k : κ}
    {seen : List (κ × β)} :
    seen.lookup k = none ↔ k ∉ seen.map (·.1) := by
  rw [List.lookup_eq_none_iff, List.mem_map, not_exists]
  exact forall_congr' fun p => by rw [not_and, bne_iff_ne, ne_comm]

theorem prepared_claimSlugs {cache : DomainCache} (h : CacheOf e.p s cache) (index : Nat)
    (seen : List ((String × String) × Nat)) (rows : List Row) :
    (claimSlugs index seen (prepare e s cache rows)).map
        (fun row => ((RowState.pass s.taken)^[SLUG_RETRY_LIMIT] row).prepared) =
      contend e s (seen.map (·.1)) rows := by
  induction rows generalizing cache index seen with
  | nil => rfl
  | cons row rows ih =>
    have hprepared := prepared_prepareRow h row
    have hcache := cacheOf_prepareRow h row
    rw [prepare, contend, ← hprepared]
    generalize (prepareRow e s cache row).2 = cache' at hcache
    have hnot : ∀ row' : RowState, row'.prepared = none → ∀ rest,
        (claimSlugs index seen (row' :: rest)) = row' :: claimSlugs (index + 1) seen rest := by
      intro row' hnone rest
      cases row' with
      | live p => simp [RowState.prepared] at hnone
      | failed error => rw [claimSlugs]; simp
      | skipped error => rw [claimSlugs]; simp
    cases hstate : (prepareRow e s cache row).1 with
    | failed error =>
      rw [hnot _ rfl, List.map_cons, ih hcache, pass_eq_of_not_live rfl]
      rfl
    | skipped error =>
      rw [hnot _ rfl, List.map_cons, ih hcache, pass_eq_of_not_live rfl]
      rfl
    | live p =>
      rw [claimSlugs, prepared_live]
      dsimp only
      split
      · rename_i hgenerated
        have htries : p.tries = SLUG_RETRY_LIMIT := by
          have hslug : truthy p.input.slug = false := by simpa [Prepared.generated] using hgenerated
          rw [Prepared.tries, hslug, if_neg Bool.false_ne_true]
        rw [List.map_cons, ih hcache, iterate_pass_generated hgenerated, prepared_live,
          Prepared.settled, htries]
      · rename_i hchosen
        split
        · rename_i first hfirst
          have hseen : p.key ∈ seen.map (·.1) := by
            by_contra hnone
            rw [lookup_eq_none_iff_notMem.mpr hnone] at hfirst
            exact absurd hfirst (by simp)
          rw [List.map_cons, ih hcache, pass_eq_of_not_live rfl, if_pos hseen]
        · rename_i hnone
          rw [List.map_cons, ih hcache, if_neg (lookup_eq_none_iff_notMem.mp hnone),
            SLUG_RETRY_LIMIT, iterate_pass_chosen (Bool.eq_false_iff.mpr hchosen)]
          rfl

/-- **The rows that contend are what is left to insert.** -/
theorem prepared_finalRows (rows : List Row) :
    (finalRows e s rows).map (·.prepared) = contend e s [] rows := by
  rw [finalRows, passes_eq, List.map_map]
  exact prepared_claimSlugs (fun key hit h => by simp at h) 0 [] rows

theorem insertAll_eq_ok_iff {prepared : List Prepared} :
    insertAll e s prepared = .ok () ↔ Insertable e s prepared := by
  have hall : (prepared.all fun p => e.storable p.input && !s.taken p.key) = true ↔
      (∀ p ∈ prepared, e.storable p.input = true) ∧ ∀ p ∈ prepared, s.taken p.key = false := by
    simp [List.all_eq_true, forall_and]
  rw [insertAll]
  split
  · rename_i hinsertable
    obtain ⟨hstorable, hfree⟩ := hall.mp hinsertable.1
    exact iff_of_true rfl ⟨hstorable, hfree, hinsertable.2⟩
  · rename_i hnot
    exact iff_of_false (by simp) fun h => hnot ⟨hall.mpr ⟨h.storable, h.free⟩, h.distinct⟩

theorem values_eq_link {prepared : List Prepared} {p : Prepared} (h : p ∈ prepared) :
    p.values e s (fallbackRedirectFor s prepared) = p.link e s := by
  rw [Prepared.values, Prepared.link, Prepared.linkAt, fallbackRedirectFor]
  cases hredirect : p.input.redirectType with
  | some redirectType => rfl
  | none =>
    have hany : (prepared.any fun p => p.input.redirectType.isNone) = true :=
      List.any_eq_true.mpr ⟨p, h, by rw [hredirect]; rfl⟩
    rw [hany, if_pos rfl]

theorem length_contend (seen : List (String × String)) (rows : List Row) :
    (contend e s seen rows).length = rows.length := by
  induction rows generalizing seen with
  | nil => rfl
  | cons row rows ih =>
    rw [contend]
    split
    · rw [List.length_cons, List.length_cons, ih]
    split
    · rw [List.length_cons, List.length_cons, ih]
    split
    · rw [List.length_cons, List.length_cons, ih]
    · rw [List.length_cons, List.length_cons, ih]

/-- The link of an outcome is that of the row that is left to insert. -/
theorem link_outcome (fallbackRedirect : RedirectType) (row : Row) (state : RowState) :
    (outcome e s fallbackRedirect row state).link =
      state.prepared.map (·.values e s fallbackRedirect) := by
  cases state <;> rfl

theorem map_zipWith_outcome (fallbackRedirect : RedirectType) {rows : List Row}
    {states : List RowState} (h : rows.length = states.length) :
    (List.zipWith (outcome e s fallbackRedirect) rows states).map (·.link) =
      (states.map (·.prepared)).map fun p => p.map (·.values e s fallbackRedirect) := by
  induction rows generalizing states with
  | nil =>
    rw [List.eq_nil_of_length_eq_zero h.symm]
    rfl
  | cons row rows ih =>
    cases states with
    | nil => simp at h
    | cons state states =>
      rw [List.zipWith_cons_cons, List.map_cons, List.map_cons, List.map_cons, link_outcome,
        ih (Nat.succ.inj h)]

/-- **What a batch stores**: the rows that contend, or none of them. -/
theorem bulkStored_eq (rows : List Row) :
    bulkStored e s rows =
      if Room e s 1 ∧ Insertable e s (contenders e s rows) then
        (contend e s [] rows).map fun p => p.map (·.link e s)
      else rows.map fun _ => none := by
  have hfinal := prepared_finalRows (e := e) (s := s) rows
  have hroom := assertNewAccountLinkCap_eq_ok_iff (e := e) (s := s)
  have hinsert : insertAll e s (contenders e s rows) = .ok () ↔
      Insertable e s (contenders e s rows) := insertAll_eq_ok_iff
  rw [bulkStored, bulkCreate]
  simp only [hfinal]
  rw [← contenders]
  cases hcap : assertNewAccountLinkCap e.now s with
  | error err =>
    rw [if_neg fun h => absurd (hcap.symm.trans (hroom.mpr h.1)) (by simp)]
    rfl
  | ok u =>
    cases hall : insertAll e s (contenders e s rows) with
    | error err =>
      rw [if_neg fun h => absurd (hall.symm.trans (hinsert.mpr h.2)) (by simp)]
      rfl
    | ok u =>
      rw [if_pos ⟨hroom.mp hcap, hinsert.mp hall⟩]
      refine (map_zipWith_outcome _ ?_).trans ?_
      · rw [← length_contend (e := e) (s := s) [] rows, ← hfinal, List.length_map]
      · rw [hfinal]
        refine List.map_congr_left fun p hp => ?_
        cases p with
        | none => rfl
        | some p =>
          refine congrArg some (values_eq_link ?_)
          exact List.reduceOption_mem_iff.mpr hp

end

end SnapUrl.Links.Creation
