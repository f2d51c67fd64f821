import Mathlib.Data.List.Nodup
import Mathlib.Data.List.Zip
import SnapUrl.Domain.Routing
import SnapUrl.Platform

/-!
# The fields of a form

`packages/domain/src/form.ts`: keys, validation and the columns of an export.

* `withFieldKeys`: the keys of a list of fields, derived from the labels where none is given.
  `nodup_withFieldKeys`: they are apart when those that are given are.
* `validateSubmission`: the answers that a submission comes to, by the keys of the fields.
* `exportColumns`: every key of a field and every key that a response carries.
  `mem_exportColumns`, `nodup_exportColumns`: each of them once.
-/

namespace SnapUrl.Forms

open Domain

/-! ### Fields -/

inductive FormFieldType where
  | text
  | email
  | textarea
  | number
  | select
  | checkbox
deriving DecidableEq, Repr

structure FormFieldDef where
  key : String
  label : String
  type : FormFieldType
  required : Bool
  placeholder : Option String
  options : Option (List String)
deriving DecidableEq, Repr

/-- A field on the way in, which may have no key yet. -/
structure FormFieldInput where
  key : Option String
  label : String
  type : FormFieldType
  required : Bool
  placeholder : Option String
  options : Option (List String)
deriving DecidableEq, Repr

/-- What the checks ask of the language. -/
structure Runtime where
  p : Platform
  /-- `Number.isFinite(Number(value))`. -/
  isFiniteNumber : String → Bool
  /-- `Date.now()`. -/
  now : Nat
  /-- An object as it comes back from a `jsonb` column. -/
  stored : List (String × String) → List (String × String)

/-- A `jsonb` column keeps the fields of an object, in an order of its own. -/
def Runtime.Lawful (r : Runtime) : Prop := ∀ object, (r.stored object).Perm object

/-! ### Keys -/

/-- `[a-z0-9]`. -/
def isKeyChar (c : Char) : Bool := ('a' ≤ c && c ≤ 'z') || ('0' ≤ c && c ≤ '9')

/-- Every run of other characters is one underscore. -/
def underscored : Bool → List Char → List Char
  | _, [] => []
  | inRun, c :: cs =>
    if isKeyChar c then c :: underscored false cs
    else if inRun then underscored true cs
    else '_' :: underscored true cs

/-- The key that a label comes to, before it is kept apart from others. -/
def keyBase (p : Platform) (label : String) : String :=
  let l := underscored false (p.toLowerCase label).toList
  let started := if l.head? = some '_' then l.drop 1 else l
  let trimmed := if l.getLast? = some '_' ∧ 1 < l.length then started.dropLast else started
  if trimmed.take 40 = [] then "field" else String.ofList (trimmed.take 40)

/-- The keys that are tried one after another. -/
def candidates (base : String) : List String :=
  base :: (List.range' 2 998).map fun n => base ++ "_" ++ n.repr

def fieldKeyFrom (r : Runtime) (label : String) (taken : List String) : String :=
  ((candidates (keyBase r.p label)).find? (· ∉ taken)).getD
    (keyBase r.p label ++ "_" ++ r.now.repr)

/-- The key that a field comes with. -/
def FormFieldInput.given (field : FormFieldInput) : Option String := field.key.filter (· ≠ "")

def FormFieldInput.withKey (field : FormFieldInput) (key : String) : FormFieldDef :=
  ⟨key, field.label, field.type, field.required, field.placeholder, field.options⟩

/-- The fields with keys, apart from those that are taken. -/
def keyFields (r : Runtime) : List String → List FormFieldInput → List FormFieldDef
  | _, [] => []
  | taken, field :: fields =>
    match field.given with
    | some key => field.withKey key :: keyFields r taken fields
    | none =>
      let key := fieldKeyFrom r field.label taken
      field.withKey key :: keyFields r (key :: taken) fields

/-- Keys for the fields that have none. -/
def withFieldKeys (r : Runtime) (fields : List FormFieldInput) : List FormFieldDef :=
  keyFields r (fields.filterMap (·.given)) fields

theorem repr_injective : Function.Injective Nat.repr := by
  intro m n h
  have hdigits := String.ofList_injective h
  rw [← Nat.ofDigitChars_ten_toDigits (n := m), hdigits, Nat.ofDigitChars_ten_toDigits]

/-- The candidates are all different. -/
theorem nodup_candidates (base : String) : (candidates base).Nodup := by
  have hsuffix : ∀ n : Nat, (base ++ "_" ++ n.repr).toList = base.toList ++ '_' :: n.repr.toList := by
    intro n
    simp
  refine List.nodup_cons.mpr ⟨fun hmem => ?_, ?_⟩
  · obtain ⟨n, -, hn⟩ := List.mem_map.mp hmem
    have := congrArg (fun s => s.toList.length) hn
    simp at this
  · refine List.Nodup.map (fun m n h => ?_) List.nodup_range'
    have hlists := congrArg String.toList h
    rw [hsuffix, hsuffix, List.append_cancel_left_eq, List.cons.injEq] at hlists
    exact repr_injective (String.toList_injective hlists.2)

/-- **A derived key is not taken**, as long as fewer keys are taken than are tried. -/
theorem fieldKeyFrom_notMem {r : Runtime} {label : String} {taken : List String}
    (h : taken.length < 999) : fieldKeyFrom r label taken ∉ taken := by
  rw [fieldKeyFrom]
  cases hfind : (candidates (keyBase r.p label)).find? (· ∉ taken) with
  | some key =>
    have hfree := List.find?_some hfind
    exact of_decide_eq_true hfree
  | none =>
    have hall : candidates (keyBase r.p label) ⊆ taken := by
      intro key hkey
      simpa using List.find?_eq_none.mp hfind key hkey
    have hlength := (nodup_candidates (keyBase r.p label)).length_le_of_subset hall
    rw [candidates, List.length_cons, List.length_map, List.length_range'] at hlength
    omega

attribute [local simp] keyFields

/-- The keys of a list, apart from those that are taken and not given in it. -/
theorem keyFields_keys {r : Runtime} {fields : List FormFieldInput} {taken : List String}
    (hgiven : (fields.filterMap (·.given)).Nodup)
    (htaken : ∀ key ∈ fields.filterMap (·.given), key ∈ taken)
    (hlength : taken.length + fields.length ≤ 999) :
    ((keyFields r taken fields).map (·.key)).Nodup ∧
      ∀ key ∈ (keyFields r taken fields).map (·.key),
        key ∈ fields.filterMap (·.given) ∨ key ∉ taken := by
  induction fields generalizing taken with
  | nil => exact ⟨List.nodup_nil, fun key hkey => absurd hkey List.not_mem_nil⟩
  | cons field fields ih =>
    rw [List.length_cons] at hlength
    rw [keyFields]
    cases hkey : field.given with
    | some key =>
      rw [List.filterMap_cons_some hkey] at hgiven htaken ⊢
      obtain ⟨hfresh, hrest⟩ := List.nodup_cons.mp hgiven
      obtain ⟨hnodup, hapart⟩ := ih hrest (fun k hk => htaken k (List.mem_cons_of_mem _ hk))
        (by omega)
      refine ⟨List.nodup_cons.mpr ⟨fun hmem => ?_, hnodup⟩, fun k hk => ?_⟩
      · rcases hapart key hmem with hin | hout
        · exact hfresh hin
        · exact hout (htaken key List.mem_cons_self)
      · rcases List.mem_cons.mp hk with rfl | hk
        · exact Or.inl List.mem_cons_self
        · exact (hapart k hk).imp_left (List.mem_cons_of_mem _)
    | none =>
      rw [List.filterMap_cons_none hkey] at hgiven htaken ⊢
      have hnot : fieldKeyFrom r field.label taken ∉ taken := fieldKeyFrom_notMem (by omega)
      obtain ⟨hnodup, hapart⟩ := @ih (fieldKeyFrom r field.label taken :: taken) hgiven
        (fun k hk => List.mem_cons_of_mem _ (htaken k hk)) (by rw [List.length_cons]; omega)
      refine ⟨List.nodup_cons.mpr ⟨fun hmem => ?_, hnodup⟩, fun k hk => ?_⟩
      · rcases hapart _ hmem with hin | hout
        · exact hnot (htaken _ hin)
        · exact hout List.mem_cons_self
      · rcases List.mem_cons.mp hk with rfl | hk
        · exact Or.inr hnot
        · exact (hapart k hk).imp_right fun hout hin => hout (List.mem_cons_of_mem _ hin)

/-- **The keys of a list of fields are apart** when those that it comes with are. -/
theorem nodup_withFieldKeys {r : Runtime} {fields : List FormFieldInput}
    (hgiven : (fields.filterMap (·.given)).Nodup) (hlength : fields.length ≤ 50) :
    ((withFieldKeys r fields).map (·.key)).Nodup := by
  have hle := List.length_filterMap_le (·.given) fields
  exact (keyFields_keys hgiven (fun _ h => h) (by omega)).1

theorem length_keyFields (r : Runtime) (taken : List String) (fields : List FormFieldInput) :
    (keyFields r taken fields).length = fields.length := by
  induction fields generalizing taken with
  | nil => rfl
  | cons field fields ih =>
    rw [keyFields]
    split
    · rw [List.length_cons, List.length_cons, ih]
    · rw [List.length_cons, List.length_cons, ih]

/-- A field that comes with a key keeps it. -/
theorem key_of_given {r : Runtime} {taken : List String} {fields : List FormFieldInput}
    {field : FormFieldInput} {keyed : FormFieldDef} {key : String}
    (h : (field, keyed) ∈ fields.zip (keyFields r taken fields)) (hgiven : field.given = some key) :
    keyed.key = key := by
  induction fields generalizing taken with
  | nil => cases h
  | cons other fields ih =>
    rw [keyFields] at h
    split at h
    · next otherKey hother =>
      rcases List.mem_cons.mp h with heq | h
      · obtain ⟨rfl, rfl⟩ := Prod.mk.inj heq
        exact Option.some.inj (hother.symm.trans hgiven)
      · exact ih h
    · next hother =>
      rcases List.mem_cons.mp h with heq | h
      · obtain ⟨rfl, rfl⟩ := Prod.mk.inj heq
        rw [hother] at hgiven
        cases hgiven
      · exact ih h

/-! ### Submissions -/

/-- `object[key] = value` of an object with texts, whose prototype cannot be set to one. -/
def assign (object : List (String × String)) (key value : String) : List (String × String) :=
  if key = "__proto__" then object
  else if object.any (·.1 = key) then
    object.map fun entry => if entry.1 = key then (key, value) else entry
  else object ++ [(key, value)]

/-- `/^[^\s@]+@[^\s@]+\.[^\s@]+$/`. -/
def looksLikeEmail (value : String) : Bool :=
  match value.toList.splitOn '@' with
  | [name, host] => name ≠ [] && (name ++ host).all (fun c => !isJsSpace c) &&
      (host.drop 1).dropLast.contains '.'
  | _ => false

inductive FieldResult where
  | skipped
  | error (message : String)
  | answer (value : String)
deriving DecidableEq, Repr

/-- What a field makes of a submission, which has a text at its key or not. -/
def checkField (r : Runtime) (field : FormFieldDef) (raw : String → Option String) : FieldResult :=
  let value := trim (orEmpty (raw field.key))
  if value = "" then
    if field.required then .error (field.label ++ " is required.") else .skipped
  else if 4000 < (value.toList.flatMap utf16Units).length then
    .error (field.label ++ " is too long.")
  else if field.type = .email ∧ looksLikeEmail value = false then
    .error (field.label ++ " needs to look like an email address.")
  else if field.type = .number ∧ r.isFiniteNumber value = false then
    .error (field.label ++ " needs to be a number.")
  else if field.type = .select ∧ field.options.getD [] ≠ [] ∧ value ∉ field.options.getD [] then
    .error (field.label ++ " isn't one of the choices.")
  else .answer value

structure SubmissionResult where
  errors : List (String × String)
  answers : List (String × String)
deriving DecidableEq, Repr

def SubmissionResult.ok (result : SubmissionResult) : Bool := result.errors.isEmpty

def SubmissionResult.add (result : SubmissionResult) (key : String) : FieldResult → SubmissionResult
  | .skipped => result
  | .error message => { result with errors := assign result.errors key message }
  | .answer value => { result with answers := assign result.answers key value }

def validateSubmission (r : Runtime) (fields : List FormFieldDef) (raw : String → Option String) :
    SubmissionResult :=
  fields.foldl (fun result field => result.add field.key (checkField r field raw)) ⟨[], []⟩

/-- Whose keys an object has. -/
theorem mem_assign {object : List (String × String)} {key value : String} {entry : String × String}
    (h : entry ∈ assign object key value) : entry ∈ object ∨ entry = (key, value) := by
  rw [assign] at h
  split at h
  · exact Or.inl h
  · split at h
    · obtain ⟨old, hold, rfl⟩ := List.mem_map.mp h
      split
      · exact Or.inr rfl
      · exact Or.inl hold
    · exact (List.mem_append.mp h).imp_right List.mem_singleton.mp

/-- Each key is there once. -/
theorem nodup_assign {object : List (String × String)} (key value : String)
    (h : (object.map Prod.fst).Nodup) : ((assign object key value).map Prod.fst).Nodup := by
  rw [assign]
  split
  · exact h
  · split
    · have hkeys : (object.map fun entry => if entry.1 = key then (key, value) else entry).map
          Prod.fst = object.map Prod.fst := by
        rw [List.map_map]
        refine List.map_congr_left fun entry _ => ?_
        rw [Function.comp]
        split
        · next heq => exact heq.symm
        · rfl
      rw [hkeys]
      exact h
    · next hnot =>
      rw [List.map_append, List.nodup_append]
      refine ⟨h, List.nodup_singleton _, fun a ha b hb heq => hnot ?_⟩
      obtain ⟨entry, hentry, rfl⟩ := List.mem_map.mp ha
      rw [List.map_singleton, List.mem_singleton] at hb
      exact List.any_eq_true.mpr ⟨entry, hentry, decide_eq_true (heq.trans hb)⟩

/-- **Every answer is of a field that took it**, and no key has two. -/
theorem answers_validateSubmission (r : Runtime) (fields : List FormFieldDef)
    (raw : String → Option String) :
    ((validateSubmission r fields raw).answers.map Prod.fst).Nodup ∧
      ∀ entry ∈ (validateSubmission r fields raw).answers, ∃ field ∈ fields,
        field.key = entry.1 ∧ checkField r field raw = .answer entry.2 := by
  have hrun : ∀ (rest : List FormFieldDef) (result : SubmissionResult),
      (result.answers.map Prod.fst).Nodup → (∀ field ∈ rest, field ∈ fields) →
      (∀ entry ∈ result.answers, ∃ field ∈ fields,
        field.key = entry.1 ∧ checkField r field raw = .answer entry.2) →
      ((rest.foldl (fun result field => result.add field.key (checkField r field raw))
        result).answers.map Prod.fst).Nodup ∧
      ∀ entry ∈ (rest.foldl (fun result field => result.add field.key (checkField r field raw))
        result).answers, ∃ field ∈ fields,
          field.key = entry.1 ∧ checkField r field raw = .answer entry.2 := by
    intro rest
    induction rest with
    | nil => exact fun result hnodup _ hfields => ⟨hnodup, hfields⟩
    | cons field rest ih =>
      intro result hnodup hmem hfields
      rw [List.foldl_cons]
      have hrest : ∀ other ∈ rest, other ∈ fields :=
        fun other hother => hmem other (List.mem_cons_of_mem _ hother)
      cases hcheck : checkField r field raw with
      | skipped => exact ih result hnodup hrest hfields
      | error message => exact ih _ hnodup hrest hfields
      | answer value =>
        refine ih _ (nodup_assign _ _ hnodup) hrest fun entry hentry => ?_
        rcases mem_assign hentry with hold | rfl
        · exact hfields entry hold
        · exact ⟨field, hmem field List.mem_cons_self, rfl, hcheck⟩
  exact hrun fields ⟨[], []⟩ List.nodup_nil (fun _ h => h) fun entry h => absurd h List.not_mem_nil

/-! ### Columns -/

def addColumn (columns : List String) (key : String) : List String :=
  if key ∈ columns then columns else columns ++ [key]

/-- The keys of the fields, then those that only responses carry. -/
def exportColumns (fields : List FormFieldDef) (responses : List (List (String × String))) :
    List String :=
  responses.foldl (fun columns answers => (answers.map Prod.fst).foldl addColumn columns)
    (fields.map (·.key))

theorem mem_addColumn {columns : List String} {key other : String} :
    other ∈ addColumn columns key ↔ other ∈ columns ∨ other = key := by
  rw [addColumn]
  split
  · next hin => exact ⟨Or.inl, fun h => h.elim id fun heq => heq ▸ hin⟩
  · rw [List.mem_append, List.mem_singleton]

theorem mem_foldl_addColumn {keys columns : List String} {other : String} :
    other ∈ keys.foldl addColumn columns ↔ other ∈ columns ∨ other ∈ keys := by
  induction keys generalizing columns with
  | nil => simp
  | cons key keys ih =>
    rw [List.foldl_cons, ih, mem_addColumn, List.mem_cons, or_assoc]

theorem nodup_foldl_addColumn {keys columns : List String} (h : columns.Nodup) :
    (keys.foldl addColumn columns).Nodup := by
  induction keys generalizing columns with
  | nil => exact h
  | cons key keys ih =>
    refine ih ?_
    rw [addColumn]
    split
    · exact h
    · next hnot =>
      rw [List.nodup_append]
      refine ⟨h, List.nodup_singleton _, fun a ha b hb heq => hnot ?_⟩
      rw [List.mem_singleton] at hb
      exact hb ▸ heq ▸ ha

/-- **Every key of a field, and every key that a response carries, is a column.** -/
theorem mem_exportColumns {fields : List FormFieldDef} {responses : List (List (String × String))}
    {key : String} : key ∈ exportColumns fields responses ↔
      (∃ field ∈ fields, field.key = key) ∨ ∃ answers ∈ responses, key ∈ answers.map Prod.fst := by
  rw [exportColumns]
  have hmem : ∀ (rest : List (List (String × String))) (columns : List String),
      key ∈ rest.foldl (fun columns answers => (answers.map Prod.fst).foldl addColumn columns)
        columns ↔ key ∈ columns ∨ ∃ answers ∈ rest, key ∈ answers.map Prod.fst := by
    intro rest
    induction rest with
    | nil => simp
    | cons answers rest ih =>
      intro columns
      rw [List.foldl_cons, ih, mem_foldl_addColumn, or_assoc]
      simp only [List.exists_mem_cons_iff]
  rw [hmem, List.mem_map]

/-- **No column is there twice**, where no two fields have one key. -/
theorem nodup_exportColumns {fields : List FormFieldDef}
    (responses : List (List (String × String))) (h : (fields.map (·.key)).Nodup) :
    (exportColumns fields responses).Nodup := by
  rw [exportColumns]
  generalize fields.map (·.key) = columns at h
  induction responses generalizing columns with
  | nil => exact h
  | cons answers responses ih => exact ih _ (nodup_foldl_addColumn h)

end SnapUrl.Forms
