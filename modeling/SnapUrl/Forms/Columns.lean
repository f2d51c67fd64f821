import SnapUrl.Forms.Responses
import SnapUrl.Redirect.Gate

/-!
# Columns of one field

* `identify_spec`: which fields the entries of a list are, where the keys that are sent are
  different.
* `Sound`: a key and a field go together, in the present list and in all that was stored.
* `columns_of_one_field`: in a history of lists that keep the keys of deleted fields.
* `key_given_again`: a field is deleted, and one with the same label added later.
-/

namespace SnapUrl.Forms

open Lib

/-! ### Pairs -/

/-- A key and a field go together. -/
def Together (a b : String × Nat) : Prop := a.1 = b.1 ↔ a.2 = b.2

theorem Together.symm {a b : String × Nat} (h : Together a b) : Together b a :=
  ⟨fun heq => (h.mp heq.symm).symm, fun heq => (h.mpr heq.symm).symm⟩

/-- In a list of pairs whose parts are each different. -/
theorem together_zip {keys : List String} {owners : List Nat} (hkeys : keys.Nodup)
    (howners : owners.Nodup) {a b : String × Nat} (ha : a ∈ keys.zip owners)
    (hb : b ∈ keys.zip owners) : Together a b := by
  obtain ⟨i, hi⟩ := List.mem_iff_getElem?.mp ha
  obtain ⟨j, hj⟩ := List.mem_iff_getElem?.mp hb
  obtain ⟨hki, hoi⟩ := List.getElem?_zip_eq_some.mp hi
  obtain ⟨hkj, hoj⟩ := List.getElem?_zip_eq_some.mp hj
  constructor
  · intro heq
    have hij : i = j := (List.getElem?_inj (List.getElem?_eq_some_iff.mp hki).1 hkeys).mp
      (hki.trans ((congrArg some heq).trans hkj.symm))
    rw [hij] at hoi
    exact Option.some.inj (hoi.symm.trans hoj)
  · intro heq
    have hij : i = j := (List.getElem?_inj (List.getElem?_eq_some_iff.mp hoi).1 howners).mp
      (hoi.trans ((congrArg some heq).trans hoj.symm))
    rw [hij] at hki
    exact Option.some.inj (hki.symm.trans hkj)

/-! ### Which field an entry is -/

/-- What the pairs of a list of fields have. -/
structure Paired (current : List (String × Nat)) (next : Nat) : Prop where
  together : ∀ a ∈ current, ∀ b ∈ current, Together a b
  below : ∀ a ∈ current, a.2 < next

/-- **Which fields the entries of a list are.** -/
theorem identify_spec {current : List (String × Nat)} {next : Nat} {fields : List FormFieldInput}
    (h : Paired current next) (hgiven : (fields.filterMap (·.given)).Nodup) :
    (identify current next fields).Nodup ∧
      (∀ owner ∈ identify current next fields,
        owner ∈ current.map Prod.snd ∨ (next ≤ owner ∧ owner < next + fields.length)) ∧
      ∀ entry ∈ fields.zip (identify current next fields),
        (∃ key, entry.1.given = some key ∧ (key, entry.2) ∈ current) ∨
          (next ≤ entry.2 ∧ ∀ key, entry.1.given = some key → key ∉ current.map Prod.fst) := by
  induction fields generalizing current next with
  | nil => exact ⟨List.nodup_nil, fun _ h => absurd h List.not_mem_nil,
      fun _ h => absurd h List.not_mem_nil⟩
  | cons field fields ih =>
    have hrest : (fields.filterMap (·.given)).Nodup := by
      cases hkey : field.given with
      | none =>
        rw [List.filterMap_cons_none hkey] at hgiven
        exact hgiven
      | some key =>
        rw [List.filterMap_cons_some hkey] at hgiven
        exact (List.nodup_cons.mp hgiven).2
    rw [identify, List.length_cons]
    cases hfound : field.given.bind fun key => current.lookup key with
    | some owner =>
      obtain ⟨key, hkey, hlookup⟩ := Option.bind_eq_some_iff.mp hfound
      have hmem : (key, owner) ∈ current := by
        obtain ⟨pre, post, rfl, -⟩ := List.lookup_eq_some_iff.mp hlookup
        simp
      have hsub : ∀ a ∈ current.filter (·.2 ≠ owner), a ∈ current ∧ a.2 ≠ owner :=
        fun a ha => ⟨List.mem_of_mem_filter ha, of_decide_eq_true (List.mem_filter.mp ha).2⟩
      have hpaired : Paired (current.filter (·.2 ≠ owner)) next :=
        ⟨fun a ha b hb => h.together a (hsub a ha).1 b (hsub b hb).1,
          fun a ha => h.below a (hsub a ha).1⟩
      obtain ⟨hnodup, howners, hentries⟩ := ih hpaired hrest
      have hrange : ∀ o ∈ identify (current.filter (·.2 ≠ owner)) next fields,
          (o ∈ current.map Prod.snd ∧ o ≠ owner) ∨ (next ≤ o ∧ o < next + fields.length) := by
        intro o ho
        refine (howners o ho).imp_left fun hin => ?_
        obtain ⟨a, ha, rfl⟩ := List.mem_map.mp hin
        exact ⟨List.mem_map_of_mem (hsub a ha).1, (hsub a ha).2⟩
      refine ⟨List.nodup_cons.mpr ⟨fun hin => ?_, hnodup⟩, fun o ho => ?_, fun entry hentry => ?_⟩
      · rcases hrange owner hin with ⟨-, hne⟩ | ⟨hle, -⟩
        · exact hne rfl
        · exact absurd (h.below _ hmem) (Nat.not_lt.mpr hle)
      · rcases List.mem_cons.mp ho with rfl | ho
        · exact Or.inl (List.mem_map_of_mem (f := Prod.snd) hmem)
        · rcases hrange o ho with ⟨hin, -⟩ | ⟨hle, hlt⟩
          · exact Or.inl hin
          · exact Or.inr ⟨hle, by omega⟩
      · rcases List.mem_cons.mp hentry with rfl | hentry
        · exact Or.inl ⟨key, hkey, hmem⟩
        · rcases hentries entry hentry with ⟨k, hk, hin⟩ | ⟨hle, hout⟩
          · exact Or.inl ⟨k, hk, (hsub _ hin).1⟩
          · refine Or.inr ⟨hle, fun k hk hin => hout k hk ?_⟩
            obtain ⟨a, ha, rfl⟩ := List.mem_map.mp hin
            refine List.mem_map_of_mem (List.mem_filter.mpr ⟨ha, decide_eq_true fun heq => ?_⟩)
            -- the key that was used is sent once
            rw [List.filterMap_cons_some hkey] at hgiven
            have hsame : a.1 = key := (h.together a ha (key, owner) hmem).mpr heq
            refine (List.nodup_cons.mp hgiven).1 ?_
            rw [← hsame]
            exact List.mem_filterMap.mpr ⟨entry.1, (List.of_mem_zip hentry).1, hk⟩
    | none =>
      have hpaired : Paired current (next + 1) :=
        ⟨h.together, fun a ha => Nat.lt_succ_of_lt (h.below a ha)⟩
      obtain ⟨hnodup, howners, hentries⟩ := ih hpaired hrest
      refine ⟨List.nodup_cons.mpr ⟨fun hin => ?_, hnodup⟩, fun o ho => ?_, fun entry hentry => ?_⟩
      · rcases howners next hin with hold | ⟨hle, -⟩
        · obtain ⟨a, ha, heq⟩ := List.mem_map.mp hold
          exact absurd (h.below a ha) (by rw [heq]; exact Nat.lt_irrefl next)
        · omega
      · rcases List.mem_cons.mp ho with rfl | ho
        · exact Or.inr ⟨le_refl _, by omega⟩
        · rcases howners o ho with hold | ⟨hle, hlt⟩
          · exact Or.inl hold
          · exact Or.inr ⟨by omega, by omega⟩
      · rcases List.mem_cons.mp hentry with rfl | hentry
        · refine Or.inr ⟨le_refl _, fun key hkey hin => ?_⟩
          rw [hkey, Option.bind_some, List.lookup_eq_none_iff] at hfound
          obtain ⟨a, ha, rfl⟩ := List.mem_map.mp hin
          exact absurd (hfound a ha) (by simp)
        · rcases hentries entry hentry with hcontinued | ⟨hle, hout⟩
          · exact Or.inl hcontinued
          · exact Or.inr ⟨by omega, hout⟩

theorem length_identify (current : List (String × Nat)) (next : Nat)
    (fields : List FormFieldInput) : (identify current next fields).length = fields.length := by
  induction fields generalizing current next with
  | nil => rfl
  | cons field fields ih =>
    rw [identify]
    split
    · rw [List.length_cons, List.length_cons, ih]
    · rw [List.length_cons, List.length_cons, ih]

/-! ### What holds of a history -/

/-- **A key and a field go together**, in the present list and in all that was stored. -/
structure Sound (h : History) : Prop where
  keys : (h.state.form.fields.map (·.key)).Nodup
  length : h.owners.length = h.state.form.fields.length
  owners : h.owners.Nodup
  below : ∀ owner ∈ h.owners, owner < h.nextField
  names : ∀ field ∈ h.state.form.fields, field.key ∉ inherited.map Prod.fst
  stored : ∀ entries ∈ h.belongs, ∀ entry ∈ entries, entry.2 < h.nextField ∧
    entry.1 ∉ inherited.map Prod.fst ∧ h.state.carries entry.1 = true
  apart : ∀ entries ∈ h.belongs, ∀ a ∈ entries, ∀ others ∈ h.belongs, ∀ b ∈ others, Together a b
  present : ∀ entries ∈ h.belongs, ∀ a ∈ entries, ∀ b ∈ h.current, Together a b
  /-- Every answer belongs to a field. -/
  answered : ∀ row ∈ h.state.responses, (row.answers.map Prod.fst).Nodup ∧
    ∀ entry ∈ row.answers, ∃ entries ∈ h.belongs, ∃ owner, (entry.1, owner) ∈ entries

section

variable {r : Runtime} {h : History}

theorem Sound.paired (hs : Sound h) : Paired h.current h.nextField :=
  ⟨fun _ ha _ hb => together_zip hs.keys hs.owners ha hb,
    fun a ha => hs.below a.2 (List.of_mem_zip (a := a.1) (b := a.2) ha).2⟩

theorem carries_iff {s : FormState} {key : String} :
    s.carries key = true ↔ ∃ row ∈ s.responses, key ∈ row.answers.map Prod.fst := by
  rw [FormState.carries, List.any_eq_true]
  simp only [List.contains_iff_mem]

/-- A field of the present list stands beside its key. -/
theorem Sound.exists_owner (hs : Sound h) {field : FormFieldDef}
    (hfield : field ∈ h.state.form.fields) : ∃ owner, (field.key, owner) ∈ h.current := by
  obtain ⟨i, hi, rfl⟩ := List.mem_iff_getElem.mp hfield
  have ho : i < h.owners.length := hs.length ▸ hi
  refine ⟨h.owners[i], List.mem_iff_getElem?.mpr ⟨i, List.getElem?_zip_eq_some.mpr ⟨?_, ?_⟩⟩⟩
  · rw [List.getElem?_map, List.getElem?_eq_getElem hi, Option.map_some]
  · rw [List.getElem?_eq_getElem ho]

theorem Sound.names_current (hs : Sound h) {entry : String × Nat} (hentry : entry ∈ h.current) :
    entry.1 ∉ inherited.map Prod.fst := by
  obtain ⟨field, hfield, heq⟩ := List.mem_map.mp (List.of_mem_zip (a := entry.1) hentry).1
  rw [← heq]
  exact hs.names field hfield

/-! ### Calls -/

theorem sound_start {input : CreateFormInput} (hlength : input.fields.length ≤ 50)
    (hgood : GoodKeys r input.fields) : Sound (.start r input) := by
  have hnone : ∀ entries, entries ∉ (History.start r input).belongs :=
    fun _ hentries => List.not_mem_nil hentries
  refine ⟨nodup_withFieldKeys hgood.given hlength, ?_, List.nodup_range, ?_, hgood.names,
    fun entries hentries => absurd hentries (hnone entries),
    fun entries hentries => absurd hentries (hnone entries),
    fun entries hentries => absurd hentries (hnone entries),
    fun row hrow => absurd hrow List.not_mem_nil⟩
  · exact (List.length_range).trans (length_keyFields r _ input.fields).symm
  · exact fun owner howner => List.mem_range.mp howner

/-- **An update that keeps the keys of deleted fields.** -/
theorem sound_update (hs : Sound h) {input : UpdateFormInput} {fields : List FormFieldInput}
    (hfields : input.fields = some fields) (hlength : fields.length ≤ 50)
    (hkeeps : KeepsKeys r h fields) : Sound (h.update r input) := by
  obtain ⟨hnodup, howners, hentries⟩ := identify_spec hs.paired hkeeps.good.given
  have hform : (h.update r input).state.form.fields = withFieldKeys r fields := by
    rw [History.update, FormState.update, hfields]
    rfl
  have howner : (h.update r input).owners = identify h.current h.nextField fields := by
    rw [History.update, hfields]
    rfl
  have hnext : (h.update r input).nextField = h.nextField + fields.length := by
    rw [History.update, hfields]
    rfl
  have hcurrent : h.current.map Prod.fst = h.state.form.fields.map (·.key) := by
    rw [History.current, List.map_fst_zip]
    rw [List.length_map, hs.length]
  refine ⟨?_, ?_, ?_, ?_, ?_, ?_, hs.apart, ?_, hs.answered⟩
  · rw [hform]
    exact nodup_withFieldKeys hkeeps.good.given hlength
  · rw [hform, howner, length_identify, withFieldKeys, length_keyFields]
  · rw [howner]
    exact hnodup
  · intro owner hmem
    rw [howner] at hmem
    rw [hnext]
    rcases howners owner hmem with hold | ⟨-, hlt⟩
    · obtain ⟨a, ha, rfl⟩ := List.mem_map.mp hold
      exact (hs.paired.below a ha).trans_le (Nat.le_add_right _ _)
    · exact hlt
  · rw [hform]
    exact hkeeps.good.names
  · intro entries hmem entry hentry
    obtain ⟨hbelow, hname, hcarries⟩ := hs.stored entries hmem entry hentry
    rw [hnext]
    exact ⟨hbelow.trans_le (Nat.le_add_right _ _), hname, hcarries⟩
  · intro entries hmem a ha b hb
    rw [History.current, hform, howner] at hb
    obtain ⟨i, hi⟩ := List.mem_iff_getElem?.mp hb
    obtain ⟨hkey, hown⟩ := List.getElem?_zip_eq_some.mp hi
    rw [List.getElem?_map] at hkey
    obtain ⟨keyed, hkeyed, hkeyedKey⟩ := Option.map_eq_some_iff.mp hkey
    have hlt : i < fields.length := by
      rw [← length_identify h.current h.nextField fields]
      exact (List.getElem?_eq_some_iff.mp hown).1
    have hfield : fields[i]? = some fields[i] := List.getElem?_eq_getElem hlt
    have hzip : (fields[i], b.2) ∈ fields.zip (identify h.current h.nextField fields) :=
      List.mem_iff_getElem?.mpr ⟨i, List.getElem?_zip_eq_some.mpr ⟨hfield, hown⟩⟩
    have hzipKey : (fields[i], keyed) ∈ fields.zip (withFieldKeys r fields) :=
      List.mem_iff_getElem?.mpr ⟨i, List.getElem?_zip_eq_some.mpr ⟨hfield, hkeyed⟩⟩
    obtain ⟨hbelow, -, hcarries⟩ := hs.stored entries hmem a ha
    rcases hentries _ hzip with ⟨key, hgiven, hpresent⟩ | ⟨hle, hnew⟩
    · -- the field is the one that was there
      have hb' : b = (key, b.2) := Prod.ext (hkeyedKey.symm.trans (key_of_given hzipKey hgiven)) rfl
      rw [hb']
      exact hs.present entries hmem a ha _ hpresent
    · -- the field is new, and so is its key
      refine iff_of_false (fun heq => ?_) (fun heq => ?_)
      · rcases hkeeps.fresh _ hzipKey with ⟨key, hgiven, hin⟩ | hfresh
        · exact hnew key hgiven (hcurrent ▸ hin)
        · rw [hkeyedKey, ← heq, hcarries] at hfresh
          cases hfresh
      · have hnot : a.2 < b.2 := hbelow.trans_le hle
        omega

/-- **A submission.** -/
theorem sound_submit (hr : r.Lawful) (hs : Sound h) (raw : String → Option String)
    (submittedAt : Int) : Sound (h.submit r raw submittedAt) := by
  cases haccepted : h.state.accepted r raw with
  | none =>
    have hsame : h.submit r raw submittedAt = h := by
      rw [History.submit, FormState.submit, haccepted]
    rw [hsame]
    exact hs
  | some answers =>
    have hsubmit : h.submit r raw submittedAt =
        ⟨⟨{ h.state.form with responseCount := h.state.form.responseCount + 1 },
          ⟨h.state.nextId, answers, submittedAt⟩ :: h.state.responses, h.state.nextId + 1⟩,
          h.owners, (h.current.filter fun entry => entry.1 ∈ answers.map Prod.fst) :: h.belongs,
          h.nextField⟩ := by
      rw [History.submit, FormState.submit, haccepted]
    have hanswers : (answers.map Prod.fst).Nodup ∧
        ∀ entry ∈ answers, ∃ field ∈ h.state.form.fields, field.key = entry.1 := by
      rw [FormState.accepted] at haccepted
      split at haccepted
      · cases haccepted
        obtain ⟨hnodup, hfields⟩ := answers_validateSubmission r h.state.form.fields raw
        refine ⟨(((hr _).map Prod.fst).nodup_iff).mpr hnodup, fun entry hentry => ?_⟩
        obtain ⟨field, hfield, hkey, -⟩ := hfields entry ((hr _).mem_iff.mp hentry)
        exact ⟨field, hfield, hkey⟩
      · cases haccepted
    have hnew : ∀ a ∈ h.current.filter (fun entry => entry.1 ∈ answers.map Prod.fst),
        a ∈ h.current ∧ a.1 ∈ answers.map Prod.fst :=
      fun a ha => ⟨List.mem_of_mem_filter ha, of_decide_eq_true (List.mem_filter.mp ha).2⟩
    rw [hsubmit]
    refine ⟨hs.keys, hs.length, hs.owners, hs.below, hs.names, ?_, ?_, ?_, ?_⟩
    · intro entries hentries entry hentry
      rcases List.mem_cons.mp hentries with rfl | hold
      · obtain ⟨hin, hkey⟩ := hnew entry hentry
        exact ⟨hs.paired.below entry hin, hs.names_current hin,
          carries_iff.mpr ⟨_, List.mem_cons_self, hkey⟩⟩
      · obtain ⟨hbelow, hname, hcarries⟩ := hs.stored entries hold entry hentry
        obtain ⟨row, hrow, hkey⟩ := carries_iff.mp hcarries
        exact ⟨hbelow, hname, carries_iff.mpr ⟨row, List.mem_cons_of_mem _ hrow, hkey⟩⟩
    · intro entries hentries a ha others hothers b hb
      rcases List.mem_cons.mp hentries with rfl | hold
      · rcases List.mem_cons.mp hothers with rfl | hold'
        · exact hs.paired.together a (hnew a ha).1 b (hnew b hb).1
        · exact (hs.present others hold' b hb a (hnew a ha).1).symm
      · rcases List.mem_cons.mp hothers with rfl | hold'
        · exact hs.present entries hold a ha b (hnew b hb).1
        · exact hs.apart entries hold a ha others hold' b hb
    · intro entries hentries a ha b hb
      rcases List.mem_cons.mp hentries with rfl | hold
      · exact hs.paired.together a (hnew a ha).1 b hb
      · exact hs.present entries hold a ha b hb
    · intro row hrow
      rcases List.mem_cons.mp hrow with rfl | hold
      · refine ⟨hanswers.1, fun entry hentry => ?_⟩
        obtain ⟨field, hfield, hkey⟩ := hanswers.2 entry hentry
        obtain ⟨owner, howner⟩ := hs.exists_owner hfield
        rw [hkey] at howner
        exact ⟨_, List.mem_cons_self, owner, List.mem_filter.mpr ⟨howner,
          decide_eq_true (List.mem_map_of_mem hentry)⟩⟩
      · obtain ⟨hnodup, hbelongs⟩ := hs.answered row hold
        refine ⟨hnodup, fun entry hentry => ?_⟩
        obtain ⟨entries, hentries, howner⟩ := hbelongs entry hentry
        exact ⟨entries, List.mem_cons_of_mem _ hentries, howner⟩

theorem sound_step (hr : r.Lawful) {a : Action} {h' : History} (hs : Sound h)
    (hkeeps : Keeps r h a) (hh' : step r h a = some h') : Sound h' := by
  cases a with
  | update input =>
    rw [step, Option.some.injEq] at hh'
    subst hh'
    split
    · next hparses =>
      cases hfields : input.fields with
      | none =>
        have hsame : Sound { h with state := h.state.update r input } := by
          have hform : (h.state.update r input).form.fields = h.state.form.fields := by
            rw [FormState.update, hfields]
            rfl
          have hcurrent : History.current { h with state := h.state.update r input } =
              h.current := by
            rw [History.current, hform, History.current]
          refine ⟨by rw [hform]; exact hs.keys, by rw [hform]; exact hs.length, hs.owners,
            hs.below, by rw [hform]; exact hs.names, hs.stored, hs.apart, ?_, hs.answered⟩
          rw [hcurrent]
          exact hs.present
        rw [History.update, hfields]
        exact hsame
      | some fields =>
        rw [UpdateFormInput.parses, hfields, Option.all_some, decide_eq_true_eq] at hparses
        exact sound_update hs hfields hparses (hkeeps fields hfields)
    · exact hs
  | submit raw submittedAt =>
    rw [step, Option.some.injEq] at hh'
    rw [← hh']
    exact sound_submit hr hs raw submittedAt

/-! ### Columns -/

theorem headOf_of_mem {fields : List FormFieldDef} (hkeys : (fields.map (·.key)).Nodup)
    {field : FormFieldDef} (hfield : field ∈ fields) : headOf fields field.key = field.label := by
  have hsome : (fields.reverse.find? (·.key = field.key)).isSome = true :=
    List.find?_isSome.mpr ⟨field, List.mem_reverse.mpr hfield, decide_eq_true rfl⟩
  obtain ⟨found, hfound⟩ := Option.isSome_iff_exists.mp hsome
  have hkey := List.find?_some hfound
  have hsame : found = field := List.inj_on_of_nodup_map hkeys
    (List.mem_reverse.mp (List.mem_of_find?_eq_some hfound)) hfield (of_decide_eq_true hkey)
  rw [headOf, hfound, Option.map_some, Option.getD_some, hsame]

theorem headOf_of_forall_ne {fields : List FormFieldDef} {key : String}
    (h : ∀ field ∈ fields, field.key ≠ key) : headOf fields key = key := by
  have hnone : fields.reverse.find? (·.key = key) = none :=
    List.find?_eq_none.mpr fun field hfield => by
      rw [decide_eq_true_eq]
      exact h field (List.mem_reverse.mp hfield)
  rw [headOf, hnone, Option.map_none, Option.getD_none]

/-- A key that is there once is looked up. -/
theorem lookup_of_mem {object : List (String × String)} (hnodup : (object.map Prod.fst).Nodup)
    {entry : String × String} (hentry : entry ∈ object) :
    object.lookup entry.1 = some entry.2 := by
  cases hlookup : object.lookup entry.1 with
  | none => exact absurd (List.lookup_eq_none_iff.mp hlookup entry hentry) (by simp)
  | some value =>
    obtain ⟨pre, post, hsplit, -⟩ := List.lookup_eq_some_iff.mp hlookup
    have hmem : (entry.1, value) ∈ object := by rw [hsplit]; simp
    rw [← List.inj_on_of_nodup_map hnodup hmem hentry rfl]

theorem lookup_eq_none_of_notMem {object : List (String × String)} {key : String}
    (h : key ∉ object.map Prod.fst) : object.lookup key = none := by
  refine List.lookup_eq_none_iff.mpr fun entry hentry => ?_
  rw [bne_iff_ne]
  rintro rfl
  exact h (List.mem_map_of_mem hentry)

/-- **Each column holds the answers of one field, and each answer is in one.** -/
theorem Sound.oneFieldEach (hs : Sound h) {rows : List Response}
    (hrows : rows ⊆ h.state.responses) : OneFieldEach h rows := by
  have hheads : ∀ key, (∀ field ∈ h.state.form.fields, field.key = key →
      headOf h.state.form.fields key = field.label) ∧
      ((∀ field ∈ h.state.form.fields, field.key ≠ key) →
        headOf h.state.form.fields key = key) := by
    refine fun key => ⟨fun field hfield hkey => ?_, headOf_of_forall_ne⟩
    rw [← hkey]
    exact headOf_of_mem hs.keys hfield
  -- a key of a column is the key of a field, or of an answer
  have hcases : ∀ key ∈ exportColumns h.state.form.fields (rows.map (·.answers)),
      (∃ owner, (key, owner) ∈ h.current) ∨
        ∃ entries ∈ h.belongs, ∃ owner, (key, owner) ∈ entries := by
    intro key hkey
    rcases mem_exportColumns.mp hkey with ⟨field, hfield, rfl⟩ | ⟨answers, hanswers, hmem⟩
    · exact Or.inl (hs.exists_owner hfield)
    · obtain ⟨row, hrow, rfl⟩ := List.mem_map.mp hanswers
      obtain ⟨entry, hentry, rfl⟩ := List.mem_map.mp hmem
      exact Or.inr ((hs.answered row (hrows hrow)).2 entry hentry)
  refine ⟨fun key hkey => ?_, fun row hrow entry hentry => ⟨?_, ?_⟩, fun row hrow key hkey hnone => ?_⟩
  · rcases hcases key hkey with ⟨owner, howner⟩ | ⟨entries, hentries, owner, howner⟩
    · exact ⟨owner, fun others hothers b hb => hs.present others hothers b hb _ howner,
        fun b hb => hs.paired.together b hb _ howner, hheads key⟩
    · exact ⟨owner, fun others hothers b hb => hs.apart others hothers b hb entries hentries _ howner,
        fun b hb => (hs.present entries hentries _ howner b hb).symm, hheads key⟩
  · refine List.count_eq_one_of_mem (nodup_exportColumns _ hs.keys) (mem_exportColumns.mpr ?_)
    exact Or.inr ⟨row.answers, List.mem_map_of_mem hrow, List.mem_map_of_mem hentry⟩
  · rw [cellOf, lookup_of_mem (hs.answered row (hrows hrow)).1 hentry]
    rfl
  · have hname : key ∉ inherited.map Prod.fst := by
      rcases hcases key hkey with ⟨owner, howner⟩ | ⟨entries, hentries, owner, howner⟩
      · exact hs.names_current howner
      · exact (hs.stored entries hentries _ howner).2.1
    rw [cellOf, lookup_eq_none_of_notMem hnone, lookup_eq_none_of_notMem hname]
    rfl

/-- Answers are never rewritten. -/
theorem keepsAnswers_step {a : Action} {h' : History} (hh' : step r h a = some h') :
    KeepsAnswers h h' := by
  cases a with
  | update input =>
    rw [step, Option.some.injEq] at hh'
    subst hh'
    split
    · exact ⟨List.suffix_refl _, List.suffix_refl _⟩
    · exact ⟨List.suffix_refl _, List.suffix_refl _⟩
  | submit raw submittedAt =>
    rw [step, Option.some.injEq] at hh'
    subst hh'
    rw [History.submit, FormState.submit]
    cases h.state.accepted r raw with
    | none => exact ⟨List.suffix_refl _, List.suffix_refl _⟩
    | some answers => exact ⟨List.suffix_cons _ _, List.suffix_cons _ _⟩

end

/-- **Columns hold the answers of one field**, in the export and in every list of responses, in
each history whose field lists keep the keys of deleted fields; and no call rewrites an answer, or
which field it belongs to. -/
theorem columns_of_one_field (r : Runtime) (hr : r.Lawful) (input : CreateFormInput)
    (hlength : input.fields.length ≤ 50) (hgood : GoodKeys r input.fields) (actions : List Action)
    (hkeeps : Guarded (step r) (Keeps r) (.start r input) actions) (h : History)
    (hrun : run (step r) (.start r input) actions = some h) :
    (∀ rows, rows ⊆ h.state.responses → OneFieldEach h rows) ∧
      ∀ a h', step r h a = some h' → KeepsAnswers h h' := by
  have hs : Sound h := invariant_of_guarded (fun _ _ _ hs hk hh' => sound_step hr hs hk hh')
    actions _ h (sound_start hlength hgood) hkeeps hrun
  exact ⟨fun _ hrows => hs.oneFieldEach hrows, fun _ _ hh' => keepsAnswers_step hh'⟩

/-! ### A label that comes back -/

def sampleRuntime : Runtime := ⟨Redirect.samplePlatform, fun _ => true, 0, id⟩

theorem lawful_sampleRuntime : sampleRuntime.Lawful := fun object => List.Perm.refl object

/-- A text field, that comes with a key or not. -/
def textField (key : Option String) (label : String) : FormFieldInput :=
  ⟨key, label, .text, false, none, none⟩

/-- A form with one field. -/
def nameForm : CreateFormInput := ⟨"Contact", "", .live, [textField none "Name"]⟩

def setFields (fields : List FormFieldInput) : Action := .update ⟨none, none, none, some fields⟩

/-- Every text field is answered alike. -/
def answerAll (value : String) : Action := .submit (fun _ => some value) 0

/-- A field is renamed, one is added, and the first is deleted. -/
def editedForm : List Action :=
  [answerAll "Ada", setFields [textField (some "name") "Full name", textField none "Phone"],
    answerAll "Grace", setFields [textField (some "phone") "Phone"]]

/-- The export of a form that was edited. -/
theorem columns_of_edited_form :
    ∃ h, run (step sampleRuntime) (.start sampleRuntime nameForm) editedForm = some h ∧
      h.state.exportCsv sampleRuntime = ["submitted_at,Phone,name\n",
        "1970-01-01T00:00:00.000Z,Grace,Grace\n", "1970-01-01T00:00:00.000Z,,Ada\n"] ∧
      OneFieldEach h h.state.responses := by
  have hkeeps : Guarded (step sampleRuntime) (Keeps sampleRuntime) (.start sampleRuntime nameForm)
      editedForm := by
    decide +kernel
  have hexport : (run (step sampleRuntime) (.start sampleRuntime nameForm) editedForm).any (fun h =>
      decide (h.state.exportCsv sampleRuntime = ["submitted_at,Phone,name\n",
        "1970-01-01T00:00:00.000Z,Grace,Grace\n", "1970-01-01T00:00:00.000Z,,Ada\n"])) = true := by
    decide +kernel
  obtain ⟨h, hrun, hcsv⟩ := (Option.any_eq_true _ _).mp hexport
  exact ⟨h, hrun, of_decide_eq_true hcsv, (columns_of_one_field sampleRuntime lawful_sampleRuntime
    nameForm (by decide) (by decide +kernel) editedForm hkeeps h hrun).1 _ (List.Subset.refl _)⟩

/-- The field is deleted, and one with the same label added later. -/
def readdedField : List Action :=
  [answerAll "Ada", setFields [], setFields [textField none "Name"]]

/-- **Answers of two fields stand in one column**: the key of the deleted field is given to the
new one. -/
theorem key_given_again :
    ¬ ∀ (r : Runtime) (input : CreateFormInput) (actions : List Action) (h : History), r.Lawful →
      run (step r) (.start r input) actions = some h → OneFieldEach h h.state.responses := by
  intro hall
  have hstate : (run (step sampleRuntime) (.start sampleRuntime nameForm) readdedField).any
      (fun h => decide (h.belongs = [[("name", 0)]] ∧ h.current = [("name", 1)] ∧
        "name" ∈ exportColumns h.state.form.fields (h.state.responses.map (·.answers)))) = true := by
    decide +kernel
  obtain ⟨h, hrun, hfacts⟩ := (Option.any_eq_true _ _).mp hstate
  obtain ⟨hbelongs, hcurrent, hcolumn⟩ := of_decide_eq_true hfacts
  obtain ⟨owner, hold, hnew, -⟩ :=
    (hall sampleRuntime nameForm readdedField h lawful_sampleRuntime hrun).column "name" hcolumn
  have hzero : 0 = owner := (hold [("name", 0)] (hbelongs ▸ List.mem_cons_self) ("name", 0)
    List.mem_cons_self).mp rfl
  have hone : 1 = owner := (hnew ("name", 1) (hcurrent ▸ List.mem_cons_self)).mp rfl
  omega

end SnapUrl.Forms
