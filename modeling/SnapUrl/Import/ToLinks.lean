import Mathlib.Data.List.Forall2
import SnapUrl.Links.Slug
import SnapUrl.Import.Sources

/-!
# From rows to links

`web/src/lib/import/to-links.ts`, and the submission of
`web/src/components/links/import-panel.tsx`.

* `prepareRows`: what is asked for of each row.  `Keeps` says what it keeps of the row, and
  `keeps_prepareRow` that **it keeps it of every row a source gives**.
* `chunk`: the batches.  `chunk_flatten`, `length_of_mem_chunk`: **each row is in one of them, in
  order**, and none is larger than the cap.
* `submit`: one batch after the other, and the report.  `submit_outcomes`: **an outcome stands
  where its row stands** if each batch is answered in order.
-/

namespace SnapUrl.Import

open Domain

/-! ### Inputs -/

/-- The /links/bulk hard cap. -/
def BATCH_SIZE : ℕ := 100

def COMMENT_MAX : ℕ := 280

/-- `/^[a-zA-Z0-9._-]*$/`. -/
def matchesSlug (slug : String) : Bool := slug.toList.all Links.isSlugChar

/-- The code units of a text. -/
def codeUnits (s : String) : List UInt32 := s.toList.flatMap utf16Units

structure Social where
  description : String
deriving DecidableEq, Repr

/-- What is asked for, with the fields that an import gives. -/
structure CreateLinkInput where
  destination : String
  domain : String
  slug : Option String
  tags : List String
  /-- In code units: a text that is cut may end in the middle of a character. -/
  comment : Option (List UInt32)
  expiresAt : Option String
  social : Option Social
  rules : List RoutingRule
  forwardQuery : Bool
  deepLink : Bool
  hideReferrer : Bool
  publicPreview : Bool
deriving DecidableEq, Repr

structure PreparedRow where
  input : CreateLinkInput
  /-- The row's index in the source file, carried so the result UI can name it. -/
  sourceIndex : ℕ
  slugRewritten : Bool
deriving DecidableEq, Repr

def prepareRow (domain : String) (r : MappedRow) : PreparedRow :=
  let slugOk := truthy r.slug && matchesSlug (orEmpty r.slug)
  let comment := if truthy r.title then (codeUnits (orEmpty r.title)).take COMMENT_MAX else []
  { input :=
      { destination := r.destination
        domain
        slug := if slugOk then r.slug else none
        tags := r.tags.getD []
        comment := if comment ≠ [] then some comment else none
        expiresAt := if truthy r.expiresAt then r.expiresAt else none
        social := if truthy r.description then some ⟨orEmpty r.description⟩ else none
        rules := []
        forwardQuery := true
        deepLink := false
        hideReferrer := false
        publicPreview := true }
    sourceIndex := r.sourceIndex
    slugRewritten := truthy r.slug && !slugOk }

def prepareRows (rows : List MappedRow) (domain : String) : List PreparedRow :=
  rows.map (prepareRow domain)

/-- A back-half and an expiry are not empty where they are there. -/
structure Filled (link : SourceLink) : Prop where
  slug : link.slug ≠ some ""
  expiresAt : link.expiresAt ≠ some ""

/-- What a prepared row keeps of its row. -/
structure Keeps (r : MappedRow) (prepared : PreparedRow) : Prop where
  sourceIndex : prepared.sourceIndex = r.sourceIndex
  destination : prepared.input.destination = r.destination
  tags : prepared.input.tags = r.tags.getD []
  expiresAt : prepared.input.expiresAt = r.expiresAt
  slug : prepared.input.slug = r.slug ∧ prepared.slugRewritten = false ∨
    r.slug ≠ none ∧ prepared.input.slug = none ∧ prepared.slugRewritten = true
  comment : prepared.input.comment.getD [] <+: codeUnits (orEmpty r.title)

theorem truthy_of_ne {s : Option String} (h : s ≠ some "") (hs : s ≠ none) : truthy s = true := by
  obtain ⟨text, rfl⟩ := Option.ne_none_iff_exists'.mp hs
  exact decide_eq_true fun hempty => h (congrArg some hempty)

theorem keeps_prepareRow {r : MappedRow} (h : Filled r.toSourceLink) (domain : String) :
    Keeps r (prepareRow domain r) where
  sourceIndex := rfl
  destination := rfl
  tags := rfl
  expiresAt := by
    by_cases hnone : r.expiresAt = none
    · rw [prepareRow, hnone]
      rfl
    · exact if_pos (truthy_of_ne h.expiresAt hnone)
  slug := by
    by_cases hnone : r.slug = none
    · refine Or.inl ?_
      rw [prepareRow, hnone]
      exact ⟨rfl, rfl⟩
    · have htruthy := truthy_of_ne h.slug hnone
      rw [prepareRow, htruthy, Bool.true_and]
      by_cases hmatch : matchesSlug (orEmpty r.slug) = true
      · exact Or.inl ⟨if_pos hmatch, by rw [hmatch]; rfl⟩
      · exact Or.inr ⟨hnone, if_neg hmatch, by rw [Bool.eq_false_iff.mpr hmatch]; rfl⟩
  comment := by
    rw [prepareRow]
    dsimp only
    split
    · split
      · exact List.take_prefix _ _
      · exact List.nil_prefix
    · exact List.nil_prefix

/-! ### Batches -/

section Chunk

variable {α : Type}

/-- The loop, from the index `i` on. -/
def chunkFrom (items : List α) (size : ℕ) (hsize : 0 < size) (i : ℕ) : List (List α) :=
  if i < items.length then (items.drop i).take size :: chunkFrom items size hsize (i + size)
  else []
termination_by items.length - i

/-- Split into chunks of `size` for sequential submit. -/
def chunk (items : List α) (size : ℕ) (hsize : 0 < size) : List (List α) :=
  chunkFrom items size hsize 0

variable {items group : List α} {size : ℕ} {hsize : 0 < size}

theorem chunkFrom_flatten (i : ℕ) : (chunkFrom items size hsize i).flatten = items.drop i := by
  fun_induction chunkFrom items size hsize i with
  | case1 i hi ih => rw [List.flatten_cons, ih, ← List.drop_drop, List.take_append_drop]
  | case2 i hi => rw [List.drop_eq_nil_of_le (by omega), List.flatten_nil]

/-- **Each item is in one chunk, in order.** -/
theorem chunk_flatten (items : List α) (size : ℕ) (hsize : 0 < size) :
    (chunk items size hsize).flatten = items := chunkFrom_flatten 0

theorem length_of_mem_chunkFrom {i : ℕ} (h : group ∈ chunkFrom items size hsize i) :
    0 < group.length ∧ group.length ≤ size := by
  fun_induction chunkFrom items size hsize i with
  | case1 i hi ih =>
    rcases List.mem_cons.mp h with rfl | h
    · rw [List.length_take, List.length_drop]
      omega
    · exact ih h
  | case2 i hi => exact absurd h List.not_mem_nil

/-- **No chunk is larger than the size**, and none is empty. -/
theorem length_of_mem_chunk (h : group ∈ chunk items size hsize) :
    0 < group.length ∧ group.length ≤ size := length_of_mem_chunkFrom h

end Chunk

/-! ### The submission -/

/-- What became of one row. -/
inductive BulkLinkOutcome where
  | ok (domain slug : String)
  | failed (destination error : String) (skipped : Bool)
deriving DecidableEq, Repr

structure Aggregate where
  created : ℕ
  skipped : ℕ
  failed : ℕ
  outcomes : List BulkLinkOutcome
deriving DecidableEq, Repr

def Aggregate.add (agg : Aggregate) (o : BulkLinkOutcome) : Aggregate :=
  let outcomes := agg.outcomes ++ [o]
  match o with
  | .ok _ _ => { agg with created := agg.created + 1, outcomes }
  | .failed _ _ true => { agg with skipped := agg.skipped + 1, outcomes }
  | .failed _ _ false => { agg with failed := agg.failed + 1, outcomes }

section Submit

variable {σ : Type} (bulk : List CreateLinkInput → σ → Option (List BulkLinkOutcome × σ))

/-- One request after the other, none where one of them fails. -/
def submitGroups : List (List PreparedRow) → Aggregate → σ → Option (Aggregate × σ)
  | [], agg, s => some (agg, s)
  | group :: groups, agg, s =>
    (bulk (group.map (·.input)) s).bind fun (results, s') =>
      submitGroups groups (results.foldl Aggregate.add agg) s'

/-- The report of an import, and what it leaves. -/
def submit (prepared : List PreparedRow) (s : σ) : Option (Aggregate × σ) :=
  submitGroups bulk (chunk prepared BATCH_SIZE (by decide)) ⟨0, 0, 0, []⟩ s

/-- An outcome names this input, if it is one that failed. -/
def Answers (input : CreateLinkInput) : BulkLinkOutcome → Prop
  | .ok _ _ => True
  | .failed destination _ _ => destination = input.destination

/-- Each batch is answered row by row, in its order. -/
def InOrder : Prop :=
  ∀ inputs s results s', bulk inputs s = some (results, s') → List.Forall₂ Answers inputs results

/-- The counts are the counts of what is listed. -/
def Aggregate.Tallies (agg : Aggregate) : Prop :=
  agg.created + agg.skipped + agg.failed = agg.outcomes.length

theorem Aggregate.tallies_add {agg : Aggregate} (h : agg.Tallies) (o : BulkLinkOutcome) :
    (agg.add o).Tallies := by
  rw [Aggregate.Tallies] at h ⊢
  cases o with
  | ok domain slug =>
    simp only [Aggregate.add, List.length_append, List.length_singleton, ← h]
    omega
  | failed destination error skipped =>
    cases skipped
    all_goals
      simp only [Aggregate.add, List.length_append, List.length_singleton, ← h]
      omega

theorem Aggregate.outcomes_add (agg : Aggregate) (o : BulkLinkOutcome) :
    (agg.add o).outcomes = agg.outcomes ++ [o] := by
  cases o with
  | ok domain slug => rfl
  | failed destination error skipped => cases skipped <;> rfl

theorem Aggregate.foldl_add (results : List BulkLinkOutcome) {agg : Aggregate} (h : agg.Tallies) :
    (results.foldl Aggregate.add agg).Tallies ∧
      (results.foldl Aggregate.add agg).outcomes = agg.outcomes ++ results := by
  induction results generalizing agg with
  | nil => exact ⟨h, (List.append_nil _).symm⟩
  | cons o results ih =>
    obtain ⟨htallies, houtcomes⟩ := ih (Aggregate.tallies_add h o)
    refine ⟨htallies, houtcomes.trans ?_⟩
    rw [Aggregate.outcomes_add, ← List.append_cons]

variable {bulk}

/-- **The outcomes of the batches stand where their rows stand.** -/
theorem submitGroups_outcomes (hbulk : InOrder bulk) (done : List PreparedRow)
    {groups : List (List PreparedRow)} {agg agg' : Aggregate} {s s' : σ}
    (h : submitGroups bulk groups agg s = some (agg', s')) (htallies : agg.Tallies)
    (hdone : List.Forall₂ Answers (done.map (·.input)) agg.outcomes) :
    agg'.Tallies ∧
      List.Forall₂ Answers ((done ++ groups.flatten).map (·.input)) agg'.outcomes := by
  induction groups generalizing done agg s with
  | nil =>
    cases h
    rw [List.flatten_nil, List.append_nil]
    exact ⟨htallies, hdone⟩
  | cons group groups ih =>
    obtain ⟨⟨results, next⟩, hresults, hrest⟩ := Option.bind_eq_some_iff.mp h
    obtain ⟨htallies', houtcomes⟩ := Aggregate.foldl_add results htallies
    have hnext : List.Forall₂ Answers ((done ++ group).map (·.input))
        (results.foldl Aggregate.add agg).outcomes := by
      rw [houtcomes, List.map_append]
      exact List.rel_append hdone (hbulk _ _ _ _ hresults)
    rw [List.flatten_cons, ← List.append_assoc]
    exact ih _ hrest htallies' hnext

/-- **An outcome stands where its row stands**, and the counts are right. -/
theorem submit_outcomes (hbulk : InOrder bulk) {prepared : List PreparedRow} {agg : Aggregate}
    {s s' : σ} (h : submit bulk prepared s = some (agg, s')) :
    agg.Tallies ∧ List.Forall₂ Answers (prepared.map (·.input)) agg.outcomes := by
  have hall := submitGroups_outcomes hbulk [] h rfl List.Forall₂.nil
  rwa [List.nil_append, chunk_flatten] at hall

end Submit

end SnapUrl.Import
