import Mathlib.Data.Rat.Defs

/-!
# Values that are written down and read back

What a program of JavaScript hands to `JSON.stringify` or to a document store is a tree of
values.  A format carries the trees that it has forms for and makes something else of a date,
or of a field that is not there.

* `JsValue.get`, `JsValue.set`: fields of an object.
* `Format.carry`: what comes back of a value that was written in a format.
* `carry_of_isJson`: **a tree without dates and without holes comes back as it was**, in
  every format.
-/

namespace SnapUrl.Lib

/-- A value, objects with their own fields in the order they were made, each name once. -/
inductive JsValue where
  | undefined
  | null
  | bool (b : Bool)
  | num (q : ℚ)
  | str (s : String)
  /-- A `Date`, none for an invalid one. -/
  | date (time : Option Int)
  | arr (items : List JsValue)
  | obj (fields : List (String × JsValue))

namespace JsValue

/-- `value.name`. -/
def get (name : String) : JsValue → JsValue
  | obj fields => (fields.lookup name).getD undefined
  | _ => undefined

theorem get_cons (name n : String) (v : JsValue) (fields : List (String × JsValue)) :
    (obj ((n, v) :: fields)).get name = if name = n then v else (obj fields).get name := by
  rw [get, get, List.lookup_cons]
  by_cases h : name = n
  · rw [if_pos h, beq_iff_eq.mpr h, Option.getD_some]
  · rw [if_neg h, beq_eq_false_iff_ne.mpr h]

/-- The fields of `{ ...value, name: w }`. -/
def setField (name : String) (w : JsValue) : List (String × JsValue) → List (String × JsValue)
  | [] => [(name, w)]
  | (n, v) :: fields => if n = name then (n, w) :: fields else (n, v) :: setField name w fields

/-- `{ ...value, name: w }`. -/
def set (value : JsValue) (name : String) (w : JsValue) : JsValue :=
  match value with
  | obj fields => obj (setField name w fields)
  | _ => obj [(name, w)]

/-- `value ?? other`. -/
def orElse (value other : JsValue) : JsValue :=
  match value with
  | undefined => other
  | null => other
  | v => v

@[simp] theorem orElse_arr (items : List JsValue) (other : JsValue) :
    (arr items).orElse other = arr items := rfl

@[simp] theorem orElse_bool (b : Bool) (other : JsValue) :
    (JsValue.bool b).orElse other = .bool b := rfl

/-- A text that may be null. -/
def nullable (s : Option String) : JsValue := s.elim null str

/-- A number that may be null. -/
def nullableNum (q : Option ℚ) : JsValue := q.elim null num

/-- A date that may be null. -/
def nullableDate (t : Option Int) : JsValue := t.elim null fun t => date (some t)

mutual

/-- A value that JSON has a form for: no date and no hole in it. -/
def isJson : JsValue → Bool
  | undefined => false
  | null => true
  | bool _ => true
  | num _ => true
  | str _ => true
  | date _ => false
  | arr items => allJson items
  | obj fields => fieldsJson fields

def allJson : List JsValue → Bool
  | [] => true
  | v :: items => v.isJson && allJson items

def fieldsJson : List (String × JsValue) → Bool
  | [] => true
  | (_, v) :: fields => v.isJson && fieldsJson fields

end

@[simp] theorem isJson_str (s : String) : (str s).isJson = true := by rw [isJson]
@[simp] theorem isJson_num (q : ℚ) : (num q).isJson = true := by rw [isJson]
@[simp] theorem isJson_null : null.isJson = true := by rw [isJson]

@[simp] theorem isJson_nullable (s : Option String) : (nullable s).isJson = true := by
  cases s <;> simp [nullable]

@[simp] theorem isJson_nullableNum (q : Option ℚ) : (nullableNum q).isJson = true := by
  cases q <;> simp [nullableNum]

end JsValue

open JsValue

/-- What a format makes of a value that it has no form for. -/
structure Format where
  /-- A date, none where writing it throws. -/
  ofDate : Option Int → Option JsValue
  /-- An item of an array that is not there, none where it is left out. -/
  hole : Option JsValue

namespace Format

variable (f : Format)

mutual

/-- What comes back of a value, none where writing it throws.  A field that is not there is
left out. -/
def carry : JsValue → Option JsValue
  | undefined => some undefined
  | null => some null
  | .bool b => some (.bool b)
  | num q => some (num q)
  | str s => some (str s)
  | date t => f.ofDate t
  | arr items => (carryAll items).map arr
  | obj fields => (carryFields fields).map obj

def carryAll : List JsValue → Option (List JsValue)
  | [] => some []
  | undefined :: items => (carryAll items).map (f.hole.toList ++ ·)
  | v :: items => (carry v).bind fun v' => (carryAll items).map (v' :: ·)

def carryFields : List (String × JsValue) → Option (List (String × JsValue))
  | [] => some []
  | (_, undefined) :: fields => carryFields fields
  | (name, v) :: fields => (carry v).bind fun v' => (carryFields fields).map ((name, v') :: ·)

end

variable {f}

theorem carryAll_cons {v : JsValue} (h : v ≠ undefined) (items : List JsValue) :
    f.carryAll (v :: items) = (f.carry v).bind fun v' => (f.carryAll items).map (v' :: ·) := by
  rw [carryAll]
  exact h

theorem carryFields_cons {v : JsValue} (h : v ≠ undefined) (name : String)
    (fields : List (String × JsValue)) :
    f.carryFields ((name, v) :: fields) =
      (f.carry v).bind fun v' => (f.carryFields fields).map ((name, v') :: ·) := by
  rw [carryFields]
  exact h

theorem ne_undefined_of_isJson {v : JsValue} (h : v.isJson = true) : v ≠ undefined := by
  rintro rfl
  exact absurd h (by rw [isJson]; decide)

mutual

/-- **A tree without dates and without holes comes back as it was.** -/
theorem carry_of_isJson : ∀ {v : JsValue}, v.isJson = true → f.carry v = some v
  | undefined, h => absurd h (by rw [isJson]; decide)
  | null, _ => by rw [carry]
  | .bool _, _ => by rw [carry]
  | num _, _ => by rw [carry]
  | str _, _ => by rw [carry]
  | date _, h => absurd h (by rw [isJson]; decide)
  | arr items, h => by
    rw [isJson] at h
    rw [carry, carryAll_of_allJson h]
    rfl
  | obj fields, h => by
    rw [isJson] at h
    rw [carry, carryFields_of_fieldsJson h]
    rfl

theorem carryAll_of_allJson : ∀ {items : List JsValue}, allJson items = true →
    f.carryAll items = some items
  | [], _ => by rw [carryAll]
  | v :: items, h => by
    rw [allJson, Bool.and_eq_true] at h
    rw [carryAll_cons (ne_undefined_of_isJson h.1), carry_of_isJson h.1,
      carryAll_of_allJson h.2]
    rfl

theorem carryFields_of_fieldsJson : ∀ {fields : List (String × JsValue)},
    fieldsJson fields = true → f.carryFields fields = some fields
  | [], _ => by rw [carryFields]
  | (name, v) :: fields, h => by
    rw [fieldsJson, Bool.and_eq_true] at h
    rw [carryFields_cons (ne_undefined_of_isJson h.1), carry_of_isJson h.1,
      carryFields_of_fieldsJson h.2]
    rfl

end

/-- An object whose first field has a form. -/
theorem carryFields_cons_of_isJson {v : JsValue} (h : v.isJson = true) (name : String)
    (fields : List (String × JsValue)) :
    f.carryFields ((name, v) :: fields) = (f.carryFields fields).map ((name, v) :: ·) := by
  rw [carryFields_cons (ne_undefined_of_isJson h), carry_of_isJson h]
  rfl

end Format

end SnapUrl.Lib
