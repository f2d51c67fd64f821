import SnapUrl.Domain.Status
import SnapUrl.Lib.SqlLogic

/-!
# The links table and its status filters

`list` of `apps/api/src/links/links.service.ts` finds the links of a status by a
condition of SQL, and `toLinkDto` prints the status `deriveStatus` gives.  `Listed` says
a link is found under the status its row shows and under no other.

* `statusCondition`: the condition of each filter.
* `listed_iff`: **the filters are the statuses exactly when no link of the workspace has
  reached its click limit in its last seven days** (`ReachedInLastDays`).  The filter for
  expiring links does not leave those out.

Instants are whole milliseconds, and all of a request is taken at one.
-/

namespace SnapUrl.Links

open Lib Domain Sql

/-- A link row with the count of its counter row, which may be missing. -/
structure LinkRow where
  id : String
  workspaceId : String
  managedBioPageId : Option String
  archivedAt : Option Int
  expiresAt : Option Int
  activatesAt : Option Int
  clickLimit : Option Int
  counterClicks : Option Int
deriving DecidableEq, Repr

/-- The clicks a row shows: `coalesce(clicks, 0)`. -/
def LinkRow.clicks (row : LinkRow) : Int := row.counterClicks.getD 0

/-- The status `toLinkDto` prints. -/
def LinkRow.status (p : Platform) (row : LinkRow) (now : Int) : LinkStatus :=
  deriveStatus p
    { archivedAt := row.archivedAt.map fun t => .date (some t)
      expiresAt := row.expiresAt.map fun t => .date (some t)
      activatesAt := row.activatesAt.map fun t => .date (some t)
      clickLimit := row.clickLimit
      clicks := some row.clicks } now

/-! ### The query -/

/-- The `status` of a `ListLinksQuery`. -/
inductive StatusFilter where
  | all
  | only (status : LinkStatus)
deriving DecidableEq, Repr

def notExpired (row : LinkRow) (now : Int) : Truth :=
  ((isNull row.expiresAt).or (compare (· > ·) row.expiresAt (some now))).and
    ((isNull row.clickLimit).or (compare (· < ·) (some row.clicks) row.clickLimit))

def notScheduled (row : LinkRow) (now : Int) : Truth :=
  (isNull row.activatesAt).or (compare (· ≤ ·) row.activatesAt (some now))

def statusCondition (row : LinkRow) (now inSevenDays : Int) : StatusFilter → Truth
  | .only .archived => isNotNull row.archivedAt
  | .only .expired =>
    (isNull row.archivedAt).and
      ((compare (· ≤ ·) row.expiresAt (some now)).or
        ((isNotNull row.clickLimit).and (compare (· ≥ ·) (some row.clicks) row.clickLimit)))
  | .only .scheduled =>
    (isNull row.archivedAt).and
      ((compare (· > ·) row.activatesAt (some now)).and (notExpired row now))
  | .only .expiring =>
    -- nothing here is about the click limit
    (isNull row.archivedAt).and
      (((compare (· > ·) row.expiresAt (some now)).and
          (compare (· ≤ ·) row.expiresAt (some inSevenDays))).and (notScheduled row now))
  | .only .active =>
    (isNull row.archivedAt).and
      ((((isNull row.expiresAt).or (compare (· > ·) row.expiresAt (some inSevenDays))).and
          ((isNull row.clickLimit).or (compare (· < ·) (some row.clicks) row.clickLimit))).and
        (notScheduled row now))
  | .all => isNull row.archivedAt

/-- The rows of all pages, before any search. -/
def list (rows : List LinkRow) (workspaceId : String) (status : StatusFilter) (now : Int) :
    List LinkRow :=
  rows.filter fun row =>
    (compare (· = ·) (some row.workspaceId) (some workspaceId)).and
      ((isNull row.managedBioPageId).and (statusCondition row now (now + sevenDays) status)) =
    some true

/-! ### What is claimed of it -/

/-- A link of the workspace's table: one a published page manages is not. -/
def LinkRow.InTable (row : LinkRow) (workspaceId : String) : Prop :=
  row.workspaceId = workspaceId ∧ row.managedBioPageId = none

instance (row : LinkRow) (workspaceId : String) : Decidable (row.InTable workspaceId) :=
  inferInstanceAs (Decidable (_ ∧ _))

/-- Each filter gives the links of its status, so each link is found under one of them,
the one it shows. -/
structure Listed (p : Platform) (rows : List LinkRow) (workspaceId : String) (now : Int) :
    Prop where
  exact : ∀ status, list rows workspaceId (.only status) now =
    rows.filter fun row => row.InTable workspaceId ∧ row.status p now = status
  partition : ∀ row ∈ rows, row.InTable workspaceId →
    ∃! status, row ∈ list rows workspaceId (.only status) now

def LinkRow.LimitReached (row : LinkRow) : Prop := ∃ limit ∈ row.clickLimit, limit ≤ row.clicks

def LinkRow.PastExpiry (row : LinkRow) (now : Int) : Prop := ∃ t ∈ row.expiresAt, t ≤ now

def LinkRow.NotYetActive (row : LinkRow) (now : Int) : Prop := ∃ t ∈ row.activatesAt, now < t

def LinkRow.ExpiresSoon (row : LinkRow) (now : Int) : Prop :=
  ∃ t ∈ row.expiresAt, t ≤ now + sevenDays

instance (row : LinkRow) : Decidable row.LimitReached :=
  inferInstanceAs (Decidable (∃ limit ∈ row.clickLimit, limit ≤ row.clicks))

instance (row : LinkRow) (now : Int) : Decidable (row.PastExpiry now) :=
  inferInstanceAs (Decidable (∃ t ∈ row.expiresAt, t ≤ now))

instance (row : LinkRow) (now : Int) : Decidable (row.NotYetActive now) :=
  inferInstanceAs (Decidable (∃ t ∈ row.activatesAt, now < t))

instance (row : LinkRow) (now : Int) : Decidable (row.ExpiresSoon now) :=
  inferInstanceAs (Decidable (∃ t ∈ row.expiresAt, t ≤ now + sevenDays))

/-- A link that is live but for its click limit, which it has reached, in the last seven
days before it expires. -/
def ReachedInLastDays (row : LinkRow) (now : Int) : Prop :=
  row.archivedAt = none ∧ row.LimitReached ∧ ¬ row.PastExpiry now ∧ ¬ row.NotYetActive now ∧
    row.ExpiresSoon now

/-! ### Filters and statuses -/

section

variable {p : Platform} {row : LinkRow} {rows : List LinkRow} {workspaceId : String} {now : Int}

theorem listCondition_iff {status : StatusFilter} :
    ((compare (· = ·) (some row.workspaceId) (some workspaceId)).and
        ((isNull row.managedBioPageId).and (statusCondition row now (now + sevenDays) status))) =
      some true ↔
      row.InTable workspaceId ∧ statusCondition row now (now + sevenDays) status = some true := by
  rw [and_eq_true, and_eq_true, compare_eq_true, isNull_eq_true, LinkRow.InTable, and_assoc]
  simp [eq_comm]

theorem mem_list {status : StatusFilter} :
    row ∈ list rows workspaceId status now ↔
      row ∈ rows ∧ row.InTable workspaceId ∧
        statusCondition row now (now + sevenDays) status = some true := by
  rw [list, List.mem_filter, decide_eq_true_eq, listCondition_iff]

/-- The status of a row, from its columns. -/
theorem status_iff (p : Platform) (row : LinkRow) (now : Int) (status : LinkStatus) :
    row.status p now = status ↔
      match status with
      | .archived => row.archivedAt ≠ none
      | .expired => row.archivedAt = none ∧ (row.LimitReached ∨ row.PastExpiry now)
      | .scheduled => row.archivedAt = none ∧ ¬ row.LimitReached ∧ ¬ row.PastExpiry now ∧
          row.NotYetActive now
      | .expiring => row.archivedAt = none ∧ ¬ row.LimitReached ∧ ¬ row.PastExpiry now ∧
          ¬ row.NotYetActive now ∧ row.ExpiresSoon now
      | .active => row.archivedAt = none ∧ ¬ row.LimitReached ∧ ¬ row.PastExpiry now ∧
          ¬ row.NotYetActive now ∧ ¬ row.ExpiresSoon now := by
  have hdate : ∀ t : Option Int, asDate p (t.map fun t => .date (some t)) = t := by
    intro t
    cases t <;> rfl
  have harchived : (row.archivedAt.map fun t => DateInput.date (some t)).any DateInput.truthy =
      true ↔ row.archivedAt ≠ none := by
    cases row.archivedAt <;> simp [DateInput.truthy]
  have hlimit : row.clickLimit.any (· ≤ row.clicks) = true ↔ row.LimitReached := by
    simp [LinkRow.LimitReached, Option.any_eq_true]
  have hpast : row.expiresAt.any (· ≤ now) = true ↔ row.PastExpiry now := by
    simp [LinkRow.PastExpiry, Option.any_eq_true]
  have hlater : row.activatesAt.any (now < ·) = true ↔ row.NotYetActive now := by
    simp [LinkRow.NotYetActive, Option.any_eq_true]
  have hsoon : row.expiresAt.any (· - now ≤ sevenDays) = true ↔ row.ExpiresSoon now := by
    simp [LinkRow.ExpiresSoon, Option.any_eq_true, Int.add_comm]
  rw [LinkRow.status, deriveStatus]
  dsimp only
  rw [hdate, hdate]
  simp only [Option.getD_some, harchived, hlimit, hpast, hlater, hsoon]
  by_cases h1 : row.archivedAt = none <;> by_cases h2 : row.LimitReached <;>
    by_cases h3 : row.PastExpiry now <;> by_cases h4 : row.NotYetActive now <;>
    by_cases h5 : row.ExpiresSoon now <;> cases status <;> simp [h1, h2, h3, h4, h5]

theorem limit_eq_true :
    ((isNotNull row.clickLimit).and (compare (· ≥ ·) (some row.clicks) row.clickLimit)) =
      some true ↔ row.LimitReached := by
  cases h : row.clickLimit <;> simp [LinkRow.LimitReached, h]

theorem underLimit_eq_true :
    ((isNull row.clickLimit).or (compare (· < ·) (some row.clicks) row.clickLimit)) =
      some true ↔ ¬ row.LimitReached := by
  cases h : row.clickLimit <;> simp [LinkRow.LimitReached, h]

/-- A date that is missing, or after an instant. -/
theorem later_eq_true {date : Option Int} {t : Int} :
    ((isNull date).or (compare (· > ·) date (some t))) = some true ↔ ¬ ∃ d ∈ date, d ≤ t := by
  cases date <;> simp

theorem notExpired_eq_true :
    notExpired row now = some true ↔ ¬ row.PastExpiry now ∧ ¬ row.LimitReached := by
  rw [notExpired, and_eq_true, later_eq_true, underLimit_eq_true]
  rfl

theorem notScheduled_eq_true : notScheduled row now = some true ↔ ¬ row.NotYetActive now := by
  cases h : row.activatesAt <;> simp [notScheduled, LinkRow.NotYetActive, h]

/-- An expiry within the next seven days. -/
theorem window_eq_true :
    ((compare (· > ·) row.expiresAt (some now)).and
        (compare (· ≤ ·) row.expiresAt (some (now + sevenDays)))) = some true ↔
      ¬ row.PastExpiry now ∧ row.ExpiresSoon now := by
  cases h : row.expiresAt <;> simp [LinkRow.PastExpiry, LinkRow.ExpiresSoon, h]

/-- What expires in more than seven days has not expired. -/
theorem not_pastExpiry (h : ¬ row.ExpiresSoon now) : ¬ row.PastExpiry now := by
  rintro ⟨t, ht, hle⟩
  refine h ⟨t, ht, ?_⟩
  unfold sevenDays
  omega

/-- **Each filter is its status, but for the limits the one for expiring links forgets.** -/
theorem statusCondition_iff (p : Platform) (row : LinkRow) (now : Int) (status : LinkStatus) :
    statusCondition row now (now + sevenDays) (.only status) = some true ↔
      row.status p now = status ∨ status = .expiring ∧ ReachedInLastDays row now := by
  rw [status_iff]
  cases status with
  | archived => simp [statusCondition]
  | expired =>
    rw [statusCondition, and_eq_true, or_eq_true, isNull_eq_true, limit_eq_true,
      compare_eq_true]
    simp [LinkRow.PastExpiry, or_comm]
  | scheduled =>
    rw [statusCondition, and_eq_true, and_eq_true, isNull_eq_true, notExpired_eq_true,
      compare_eq_true]
    simp only [reduceCtorEq, false_and, or_false, Option.mem_def, Option.some.injEq,
      exists_eq_left', LinkRow.NotYetActive, gt_iff_lt]
    tauto
  | expiring =>
    rw [statusCondition, and_eq_true, and_eq_true, isNull_eq_true, window_eq_true,
      notScheduled_eq_true, ReachedInLastDays]
    tauto
  | active =>
    rw [statusCondition, and_eq_true, and_eq_true, and_eq_true, isNull_eq_true, later_eq_true,
      underLimit_eq_true, notScheduled_eq_true]
    have hsoon : (¬ ∃ d ∈ row.expiresAt, d ≤ now + sevenDays) ↔
        ¬ row.PastExpiry now ∧ ¬ row.ExpiresSoon now :=
      ⟨fun h => ⟨not_pastExpiry h, h⟩, fun h => h.2⟩
    rw [hsoon]
    tauto

/-- A link whose limit is reached in its last days shows that it has expired. -/
theorem status_of_reached (h : ReachedInLastDays row now) : row.status p now = .expired :=
  (status_iff p row now .expired).mpr ⟨h.1, Or.inl h.2.1⟩

/-- **When the filters are the statuses.**  They are unless some link of the table has
reached its click limit in the last seven days before it would expire. -/
theorem listed_iff (p : Platform) (rows : List LinkRow) (workspaceId : String) (now : Int) :
    Listed p rows workspaceId now ↔
      ∀ row ∈ rows, row.InTable workspaceId → ¬ ReachedInLastDays row now := by
  constructor
  · rintro ⟨hexact, -⟩ row hrow htable hreached
    have hmem : row ∈ list rows workspaceId (.only .expiring) now :=
      mem_list.mpr ⟨hrow, htable, (statusCondition_iff p row now _).mpr (Or.inr ⟨rfl, hreached⟩)⟩
    rw [hexact, List.mem_filter, decide_eq_true_eq, status_of_reached hreached] at hmem
    exact absurd hmem.2.2 (by decide)
  · intro hnone
    have hmem : ∀ row ∈ rows, ∀ status, row.InTable workspaceId →
        (statusCondition row now (now + sevenDays) (.only status) = some true ↔
          row.status p now = status) := by
      intro row hrow status htable
      rw [statusCondition_iff p]
      exact or_iff_left fun h => hnone row hrow htable h.2
    refine ⟨fun status => ?_, fun row hrow htable => ?_⟩
    · refine List.filter_congr fun row hrow => decide_eq_decide.mpr ?_
      rw [listCondition_iff]
      exact and_congr_right fun htable => hmem row hrow status htable
    · refine ⟨row.status p now, mem_list.mpr ⟨hrow, htable, (hmem row hrow _ htable).mpr rfl⟩, ?_⟩
      intro status hlist
      exact ((hmem row hrow status htable).mp (mem_list.mp hlist).2.2).symm

end

/-- **A link that has used up its clicks shows as expired, and is listed as expiring** as
well, three days before its date. -/
theorem reached_listed_twice :
    ¬ ∀ (p : Platform) (rows : List LinkRow) (workspaceId : String) (now : Int),
      Listed p rows workspaceId now := by
  intro hall
  have hlisted := hall ⟨id, id, fun _ => none, fun _ => none, fun _ => "", fun _ => none,
    fun _ => "", fun _ _ => "", fun _ _ => none⟩
    [⟨"L1", "W1", none, none, some 259200000, none, some 100, some 100⟩] "W1" 0
  obtain ⟨status, -, hunique⟩ := hlisted.partition _ (List.mem_singleton_self _) (by decide)
  have hexpired := hunique .expired (by decide)
  have hexpiring := hunique .expiring (by decide)
  exact absurd (hexpired.trans hexpiring.symm) (by decide)

end SnapUrl.Links
