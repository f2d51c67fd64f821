import SnapUrl.Forms.Columns

/-!
# Distinct keys

Every field has a key, and every answer one field, as long as no two fields are sent with one key.

* `entry_keyFields`: a field keeps the key it is sent with, or gets one that begins with a letter
  or a digit.
* `keysApart_withFieldKeys`: the keys that are stored are apart exactly when those that are sent
  are.
* `answers_eq`: what a submission stores, field by field.
* `sent_apart_iff`: **the keys of a form are apart throughout a history exactly when those of every
  list that is sent are; then no answer is lost or merged, but that of a field `__proto__`.**
* `answers_merged`: two fields that are sent with one key.
-/

namespace SnapUrl.Forms

open Lib

/-! ### Keys -/

/-- A key that is derived from a label. -/
def Derived (key : String) : Prop := ∃ c cs, key.toList = c :: cs ∧ isKeyChar c = true

theorem Derived.append {key : String} (h : Derived key) (suffix : String) :
    Derived (key ++ suffix) := by
  obtain ⟨c, cs, hkey, hc⟩ := h
  exact ⟨c, cs ++ suffix.toList, by rw [String.toList_append, hkey, List.cons_append], hc⟩

theorem Derived.ne_empty {key : String} (h : Derived key) : key ≠ "" := by
  rintro rfl
  obtain ⟨c, cs, hkey, -⟩ := h
  cases hkey

/-- What comes after a run of other characters begins with a letter or a digit. -/
theorem head_underscored (l : List Char) :
    ∀ c ∈ (underscored true l).head?, isKeyChar c = true := by
  induction l with
  | nil => exact fun c hc => absurd hc (by simp [underscored])
  | cons d l ih =>
    intro c hc
    rw [underscored] at hc
    split at hc
    · rename_i hd
      rw [List.head?_cons, Option.mem_some_iff] at hc
      exact hc ▸ hd
    · exact ih c hc

/-- One underscore at most is dropped at the beginning. -/
theorem head_started (l : List Char) :
    ∀ c ∈ (if (underscored false l).head? = some '_' then (underscored false l).drop 1
      else underscored false l).head?, isKeyChar c = true := by
  intro c hc
  cases l with
  | nil => exact absurd hc (by simp [underscored])
  | cons d l =>
    by_cases hd : isKeyChar d = true
    · have hne : d ≠ '_' := by
        rintro rfl
        exact absurd hd (by decide)
      rw [underscored, if_pos hd, List.head?_cons, if_neg (by simpa using hne),
        List.head?_cons, Option.mem_some_iff] at hc
      exact hc ▸ hd
    · rw [underscored, if_neg hd, if_neg Bool.false_ne_true, List.head?_cons, if_pos rfl,
        List.drop_succ_cons, List.drop_zero] at hc
      exact head_underscored l c hc

theorem derived_keyBase (p : Platform) (label : String) : Derived (keyBase p label) := by
  simp only [keyBase]
  generalize hstarted : (if (underscored false (p.toLowerCase label).toList).head? = some '_' then
    (underscored false (p.toLowerCase label).toList).drop 1
      else underscored false (p.toLowerCase label).toList) = started
  have hhead : ∀ c ∈ started.head?, isKeyChar c = true := hstarted ▸ head_started _
  generalize htrimmed : (if (underscored false (p.toLowerCase label).toList).getLast? = some '_' ∧
    1 < (underscored false (p.toLowerCase label).toList).length then started.dropLast
      else started) = trimmed
  have hinit : trimmed <+: started := by
    rw [← htrimmed]
    split
    · exact List.dropLast_prefix started
    · exact List.prefix_refl started
  split
  · exact ⟨'f', "ield".toList, rfl, rfl⟩
  · rename_i hne
    obtain ⟨c, cs, hcs⟩ := List.exists_cons_of_ne_nil hne
    obtain ⟨tail, htail⟩ := (List.take_prefix 40 trimmed).trans hinit
    refine ⟨c, cs, by rw [String.toList_ofList, hcs], hhead c ?_⟩
    rw [← htail, hcs]
    rfl

theorem derived_fieldKeyFrom (r : Runtime) (label : String) (taken : List String) :
    Derived (fieldKeyFrom r label taken) := by
  have hbase := derived_keyBase r.p label
  rw [fieldKeyFrom]
  cases hfind : (candidates (keyBase r.p label)).find? (· ∉ taken) with
  | none => exact (hbase.append "_").append _
  | some key =>
    rcases List.mem_cons.mp (List.mem_of_find?_eq_some hfind) with rfl | hkey
    · exact hbase
    · obtain ⟨n, -, rfl⟩ := List.mem_map.mp hkey
      exact (hbase.append "_").append _

/-- Each field, and the key it keeps or gets. -/
theorem entry_keyFields {r : Runtime} {fields : List FormFieldInput} {taken : List String} :
    ∀ entry ∈ fields.zip (keyFields r taken fields), ∃ key, entry.2 = entry.1.withKey key ∧
      (entry.1.given = some key ∨ entry.1.given = none ∧ Derived key) := by
  induction fields generalizing taken with
  | nil => exact fun entry hentry => absurd hentry List.not_mem_nil
  | cons field fields ih =>
    intro entry hentry
    rw [keyFields] at hentry
    split at hentry
    · rename_i key hgiven
      rcases List.mem_cons.mp hentry with rfl | hentry
      · exact ⟨key, rfl, Or.inl hgiven⟩
      · exact ih entry hentry
    · rename_i hgiven
      rcases List.mem_cons.mp hentry with rfl | hentry
      · exact ⟨_, rfl, Or.inr ⟨hgiven, derived_fieldKeyFrom r field.label taken⟩⟩
      · exact ih entry hentry

/-- The keys that are sent are all stored, in their order. -/
theorem given_sublist (r : Runtime) (taken : List String) (fields : List FormFieldInput) :
    (fields.filterMap (·.given)).Sublist ((keyFields r taken fields).map (·.key)) := by
  induction fields generalizing taken with
  | nil => exact List.Sublist.slnil
  | cons field fields ih =>
    rw [keyFields]
    cases hgiven : field.given with
    | some key =>
      rw [List.filterMap_cons_some hgiven]
      exact (ih taken).cons_cons key
    | none =>
      rw [List.filterMap_cons_none hgiven]
      exact (ih _).cons _

/-- The keys are apart, and an export has one column for each of them. -/
structure KeysApart (fields : List FormFieldDef) : Prop where
  keys : (fields.map (·.key)).Nodup
  columns : ∀ responses, fields.map (·.key) <+: exportColumns fields responses ∧
    (exportColumns fields responses).Nodup

def SentApart (fields : List FormFieldInput) : Prop := (fields.filterMap (·.given)).Nodup

instance (fields : List FormFieldInput) : Decidable (SentApart fields) :=
  inferInstanceAs (Decidable (List.Nodup _))

theorem prefix_foldl_addColumn (keys columns : List String) :
    columns <+: keys.foldl addColumn columns := by
  induction keys generalizing columns with
  | nil => exact List.prefix_refl columns
  | cons key keys ih =>
    refine List.IsPrefix.trans ?_ (ih (addColumn columns key))
    rw [addColumn]
    split
    · exact List.prefix_refl columns
    · exact List.prefix_append columns [key]

/-- The columns of the fields come first. -/
theorem prefix_exportColumns (fields : List FormFieldDef)
    (responses : List (List (String × String))) :
    fields.map (·.key) <+: exportColumns fields responses := by
  rw [exportColumns]
  generalize fields.map (·.key) = columns
  induction responses generalizing columns with
  | nil => exact List.prefix_refl columns
  | cons answers responses ih => exact (prefix_foldl_addColumn _ columns).trans (ih _)

theorem keysApart_iff {fields : List FormFieldDef} :
    KeysApart fields ↔ (fields.map (·.key)).Nodup :=
  ⟨KeysApart.keys, fun h =>
    ⟨h, fun responses => ⟨prefix_exportColumns fields responses, nodup_exportColumns responses h⟩⟩⟩

theorem keysApart_withFieldKeys {r : Runtime} {fields : List FormFieldInput}
    (hlength : fields.length ≤ 50) : KeysApart (withFieldKeys r fields) ↔ SentApart fields :=
  keysApart_iff.trans
    ⟨fun h => h.sublist (given_sublist r _ fields), fun h => nodup_withFieldKeys h hlength⟩

/-! ### Answers -/

/-- What a submission says for a field, where it is taken. -/
def FormFieldDef.taken (r : Runtime) (raw : String → Option String) (field : FormFieldDef) :
    Option (String × String) :=
  match checkField r field raw with
  | .answer value => some (field.key, value)
  | _ => none

theorem key_of_taken {r : Runtime} {raw : String → Option String} {field : FormFieldDef}
    {entry : String × String} (h : field.taken r raw = some entry) : entry.1 = field.key := by
  rw [FormFieldDef.taken] at h
  split at h
  · exact Option.some.inj h ▸ rfl
  · cases h

theorem answers_add (r : Runtime) (raw : String → Option String) (result : SubmissionResult)
    (field : FormFieldDef) (hfresh : ∀ entry ∈ result.answers, entry.1 ≠ field.key) :
    (result.add field.key (checkField r field raw)).answers =
      result.answers ++ ((field.taken r raw).filter (·.1 ≠ "__proto__")).toList := by
  rw [FormFieldDef.taken]
  cases hcheck : checkField r field raw with
  | skipped => exact (List.append_nil _).symm
  | error message => exact (List.append_nil _).symm
  | answer value =>
    change assign result.answers field.key value = _
    rw [assign]
    by_cases hproto : field.key = "__proto__"
    · simp [hproto]
    · have hany : ¬ result.answers.any (fun entry => entry.1 = field.key) = true := by
        intro hany
        obtain ⟨entry, hentry, heq⟩ := List.any_eq_true.mp hany
        exact hfresh entry hentry (of_decide_eq_true heq)
      rw [if_neg hproto, if_neg hany, Option.filter_some, if_pos (by simpa using hproto)]
      rfl

/-- **What a submission stores**, field by field. -/
theorem answers_eq {r : Runtime} {fields : List FormFieldDef} (h : (fields.map (·.key)).Nodup)
    (raw : String → Option String) : (validateSubmission r fields raw).answers =
      (fields.filterMap (·.taken r raw)).filter (·.1 ≠ "__proto__") := by
  have hrun : ∀ (rest : List FormFieldDef) (result : SubmissionResult),
      (rest.map (·.key)).Nodup →
      (∀ entry ∈ result.answers, ∀ field ∈ rest, entry.1 ≠ field.key) →
      (rest.foldl (fun result field => result.add field.key (checkField r field raw))
        result).answers = result.answers ++
          (rest.filterMap (·.taken r raw)).filter (·.1 ≠ "__proto__") := by
    intro rest
    induction rest with
    | nil => exact fun result _ _ => (List.append_nil _).symm
    | cons field rest ih =>
      intro result hnodup hfresh
      obtain ⟨hout, hrest⟩ := List.nodup_cons.mp hnodup
      have hadd := answers_add r raw result field fun entry hentry =>
        hfresh entry hentry field List.mem_cons_self
      rw [List.foldl_cons, ih _ hrest, hadd, List.append_assoc]
      · cases htaken : field.taken r raw with
        | none => rw [List.filterMap_cons_none htaken]; rfl
        | some entry =>
          rw [List.filterMap_cons_some htaken, List.filter_cons, Option.filter_some]
          split
          · rfl
          · rfl
      · rw [hadd]
        intro entry hentry other hother
        rcases List.mem_append.mp hentry with hold | hnew
        · exact hfresh entry hold other (List.mem_cons_of_mem _ hother)
        · have hkey := key_of_taken ((Option.mem_filter_iff.mp (Option.mem_toList.mp hnew)).1)
          rw [hkey]
          exact fun heq => hout (List.mem_map.mpr ⟨other, hother, heq.symm⟩)
  exact hrun fields ⟨[], []⟩ h fun entry hentry => absurd hentry List.not_mem_nil

/-- Every value that is taken is stored under the key of its field, and nothing else is. -/
structure AllStored (r : Runtime) (s : FormState) (raw : String → Option String) : Prop where
  answers : (validateSubmission r s.form.fields raw).answers =
    s.form.fields.filterMap (·.taken r raw)
  stored : ∀ answers ∈ s.accepted r raw, answers.Perm (s.form.fields.filterMap (·.taken r raw))

/-- No value is taken for a key that an object does not keep. -/
def ProtoUnanswered (r : Runtime) (fields : List FormFieldDef) (raw : String → Option String) :
    Prop :=
  ∀ field ∈ fields, field.key = "__proto__" → field.taken r raw = none

theorem filter_taken_iff {r : Runtime} {fields : List FormFieldDef} {raw : String → Option String} :
    (fields.filterMap (·.taken r raw)).filter (·.1 ≠ "__proto__") =
      fields.filterMap (·.taken r raw) ↔ ProtoUnanswered r fields raw := by
  rw [List.filter_eq_self]
  constructor
  · intro hall field hfield hproto
    rw [Option.eq_none_iff_forall_ne_some]
    intro entry htaken
    refine of_decide_eq_true (hall entry (List.mem_filterMap.mpr ⟨field, hfield, htaken⟩)) ?_
    rw [key_of_taken htaken, hproto]
  · intro hall entry hentry
    obtain ⟨field, hfield, htaken⟩ := List.mem_filterMap.mp hentry
    refine decide_eq_true fun hproto => ?_
    rw [hall field hfield ((key_of_taken htaken).symm.trans hproto)] at htaken
    cases htaken

theorem allStored_iff {r : Runtime} (hr : r.Lawful) {s : FormState}
    (hkeys : KeysApart s.form.fields) (raw : String → Option String) :
    AllStored r s raw ↔ ProtoUnanswered r s.form.fields raw := by
  rw [← filter_taken_iff, ← answers_eq hkeys.keys]
  refine ⟨AllStored.answers, fun h => ⟨h, fun answers haccepted => ?_⟩⟩
  rw [FormState.accepted] at haccepted
  split at haccepted
  · rw [← h, ← Option.some.inj haccepted]
    exact hr _
  · cases haccepted

/-! ### Histories -/

/-- No list that is sent, and let in, has a key twice. -/
def SendsApart : History → Action → Prop
  | _, .update input => input.parses = true → ∀ fields ∈ input.fields, SentApart fields
  | _, .submit _ _ => True

instance (h : History) : ∀ a, Decidable (SendsApart h a)
  | .update input => inferInstanceAs (Decidable (_ → ∀ fields ∈ input.fields, SentApart fields))
  | .submit _ _ => isTrue trivial

theorem fields_submit (r : Runtime) (s : FormState) (raw : String → Option String)
    (submittedAt : Int) :
    (s.submit r raw submittedAt).form.fields = s.form.fields := by
  rw [FormState.submit]
  split
  · rfl
  · rfl

/-- A call leaves the keys apart exactly when it sends them so. -/
theorem keysApart_step {r : Runtime} {h h' : History} {a : Action}
    (hs : KeysApart h.state.form.fields) (hstep : step r h a = some h') :
    KeysApart h'.state.form.fields ↔ SendsApart h a := by
  cases a with
  | submit raw submittedAt =>
    obtain rfl := Option.some.inj hstep
    refine iff_of_true ?_ trivial
    change KeysApart (h.state.submit r raw submittedAt).form.fields
    rw [fields_submit]
    exact hs
  | update input =>
    obtain rfl := Option.some.inj hstep
    rw [SendsApart]
    by_cases hparses : input.parses = true
    · rw [if_pos hparses]
      cases hfields : input.fields with
      | none =>
        refine iff_of_true ?_ fun _ fields hnone => absurd hnone (by simp)
        rw [History.update, FormState.update, hfields]
        exact hs
      | some fields =>
        have hlength : fields.length ≤ 50 := by
          rw [UpdateFormInput.parses, hfields, Option.all_some] at hparses
          exact of_decide_eq_true hparses
        have hstored : (h.update r input).state.form.fields = withFieldKeys r fields := by
          rw [History.update, FormState.update, hfields]
          rfl
        rw [hstored, keysApart_withFieldKeys hlength]
        simp [hparses]
    · rw [if_neg hparses]
      exact iff_of_true hs fun h => absurd h hparses

/-- **One key for each field.**  Every field of every list gets a key or keeps its own.  The keys
of a form are apart in each state of a history exactly when no list that is sent has one twice, and
where they are, every value of a submission is stored under the key of its field exactly when
none is for a field `__proto__`. -/
theorem sent_apart_iff (r : Runtime) (hr : r.Lawful) (input : CreateFormInput)
    (hlength : input.fields.length ≤ 50) (actions : List Action) :
    (∀ fields, (withFieldKeys r fields).length = fields.length ∧
      ∀ entry ∈ fields.zip (withFieldKeys r fields), entry.2 = entry.1.withKey entry.2.key ∧
        entry.2.key ≠ "" ∧ ∀ key ∈ entry.1.given, entry.2.key = key) ∧
    (SentApart input.fields ∧ Guarded (step r) SendsApart (.start r input) actions ↔
      ∀ pre post h, actions = pre ++ post → run (step r) (.start r input) pre = some h →
        KeysApart h.state.form.fields) ∧
    ∀ s : FormState, KeysApart s.form.fields → ∀ raw,
      AllStored r s raw ↔ ProtoUnanswered r s.form.fields raw := by
  refine ⟨fun fields => ⟨length_keyFields r _ fields, fun entry hentry => ?_⟩, ?_,
    fun s hs raw => allStored_iff hr hs raw⟩
  · obtain ⟨key, hkey, hgiven⟩ := entry_keyFields entry hentry
    rw [hkey]
    refine ⟨rfl, ?_, fun given hgiven' => ?_⟩
    · rcases hgiven with hgiven | ⟨-, hderived⟩
      · exact of_decide_eq_true (Option.filter_eq_some_iff.mp hgiven).2
      · exact hderived.ne_empty
    · rcases hgiven with hgiven | ⟨hnone, -⟩
      · exact Option.some.inj (hgiven.symm.trans hgiven')
      · rw [hnone] at hgiven'
        cases hgiven'
  · have hstart : KeysApart (History.start r input).state.form.fields ↔ SentApart input.fields :=
      keysApart_withFieldKeys hlength
    have hiff (hs : KeysApart (History.start r input).state.form.fields) :
        Guarded (step r) SendsApart (.start r input) actions ↔
          ∀ pre post h, actions = pre ++ post → run (step r) (.start r input) pre = some h →
            KeysApart h.state.form.fields :=
      guarded_iff_holds_throughout (P := fun h : History => KeysApart h.state.form.fields)
        (fun h a => by cases a <;> rfl) (fun h a h' => keysApart_step) hs
    constructor
    · exact fun h => (hiff (hstart.mpr h.1)).mp h.2
    · intro hall
      have hs := hall [] actions _ rfl rfl
      exact ⟨hstart.mp hs, (hiff hs).mpr hall⟩

/-- The keys of a form that was edited. -/
theorem keysApart_of_edited_form :
    ∃ h, run (step sampleRuntime) (.start sampleRuntime nameForm) editedForm = some h ∧
      KeysApart h.state.form.fields := by
  have hrun : (run (step sampleRuntime) (.start sampleRuntime nameForm) editedForm).isSome = true :=
    by decide +kernel
  obtain ⟨h, hh⟩ := Option.isSome_iff_exists.mp hrun
  exact ⟨h, hh, (sent_apart_iff sampleRuntime lawful_sampleRuntime nameForm (by decide)
    editedForm).2.1.mp ⟨by decide, by decide +kernel⟩ editedForm [] h (List.append_nil _).symm hh⟩

/-- Two fields that are sent with one key. -/
def twinForm : CreateFormInput :=
  ⟨"Contact", "", .live, [textField (some "name") "First name", textField (some "name") "Surname"]⟩

/-- **Two answers are merged**: both fields are stored with the key that they are sent with. -/
theorem answers_merged :
    ¬ ∀ (r : Runtime) (input : CreateFormInput), r.Lawful → input.fields.length ≤ 50 →
      KeysApart (create r input).form.fields ∧ ∀ raw, AllStored r (create r input) raw := by
  intro hall
  have hkeys := (hall sampleRuntime twinForm lawful_sampleRuntime (by decide)).1.keys
  exact absurd hkeys (by decide +kernel)

end SnapUrl.Forms
