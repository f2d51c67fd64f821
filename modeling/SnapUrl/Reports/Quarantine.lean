import SnapUrl.Redirect.Gate
import SnapUrl.Reports.Intake
import SnapUrl.Text

/-!
# Quarantine under any order of reports

* `distinctReportCount_eq`: the key that reports are counted by tells reporters apart.
* `Sound`: what a call in each phase may rely on.
* `Since`: what a run has done to links, with the rows that go with it.
* `looked_next`: **while enough reporters stand against a link that is not disabled, some call has
  still to look at it**.
* `quarantined`: what is left when all calls have returned.
-/

namespace SnapUrl.Reports

open Lib Links Domain
open Projection (Operation)

/-! ### Contacts -/

theorem at_mem_asciiLower {s : String} (h : '@' ∈ s.toList) : '@' ∈ (asciiLower s).toList := by
  rw [asciiLower, String.toList_ofList]
  exact List.mem_map.mpr ⟨'@', h, by decide⟩

/-- A contact as the intake stores it. -/
def StoredContact (contact : String) : Prop := '@' ∈ contact.toList ∧ trim contact = contact

theorem storedContact_of_accepted {d : Deployment} (hd : d.Lawful) {input : SubmitReportInput}
    (h : input.accepted d = true) {link : Option Resolved} {contact : String}
    (hcontact : storedContact link input.reporterContact = some contact) :
    StoredContact contact := by
  rw [storedContact] at hcontact
  split at hcontact
  · split at hcontact
    · next hne =>
      cases hcontact
      refine ⟨?_, trim_trim _⟩
      rw [SubmitReportInput.accepted, Bool.and_eq_true] at h
      cases hgiven : input.reporterContact with
      | none =>
        rw [hgiven] at hne
        exact absurd (by decide) hne
      | some given =>
        rw [hgiven] at h hne
        have hcheck := h.2
        rw [Bool.or_eq_true, Bool.and_eq_true, decide_eq_true_eq] at hcheck
        rcases hcheck with rfl | ⟨hemail, -⟩
        · exact absurd (by decide) hne
        · exact mem_trim (hd.at_of_isEmail given hemail) (by decide)
    · cases hcontact
  · cases hcontact

/-! ### Counting -/

/-- Reports as they are stored. -/
structure Stored (reports : List Report) (nextId : Nat) : Prop where
  fresh : ∀ report ∈ reports, report.id < nextId
  ids : reports.Pairwise fun a b => a.id ≠ b.id
  contacts : ∀ report ∈ reports, ∀ contact ∈ report.reporterContact, StoredContact contact

/-- **The key that reports are counted by tells reporters apart.** -/
theorem distinctReportCount_eq {d : Deployment} (hd : d.Lawful) {s : Store}
    (h : Stored s.reports s.nextId) (linkId : Nat) :
    s.distinctReportCount d linkId = reporterCount s.reports linkId := by
  rw [Store.distinctReportCount, reporterCount]
  have hmem : ∀ report ∈ s.reports.filter (·.standing linkId), report ∈ s.reports :=
    fun report hreport => List.mem_of_mem_filter hreport
  have hids := h.ids.sublist (List.filter_sublist (p := (·.standing linkId)))
  generalize s.reports.filter (·.standing linkId) = standing at hmem hids
  have hcontacts : (standing.filterMap (·.reporterContact)).map (fun contact =>
      asciiLower (trim contact)) = (standing.filterMap (·.reporterContact)).map asciiLower := by
    refine List.map_congr_left fun contact hcontact => ?_
    obtain ⟨report, hreport, hsome⟩ := List.mem_filterMap.mp hcontact
    rw [(h.contacts report (hmem report hreport) contact hsome).2]
  -- the keys of anonymous reports are the texts of their ids
  have hanonymous : ((standing.filter (·.reporterContact.isNone)).map fun report =>
      d.idText report.id).Nodup := by
    refine List.Pairwise.map _ (fun a b hne heq => ?_) (hids.sublist List.filter_sublist)
    exact hne (hd.idText_injective heq)
  have hkeys : (standing.map (·.key d)).toFinset =
      ((standing.filterMap (·.reporterContact)).map asciiLower).toFinset ∪
        ((standing.filter (·.reporterContact.isNone)).map fun report =>
          d.idText report.id).toFinset := by
    ext key
    simp only [List.mem_toFinset, Finset.mem_union, List.mem_map, List.mem_filterMap,
      List.mem_filter]
    constructor
    · rintro ⟨report, hreport, rfl⟩
      cases hcontact : report.reporterContact with
      | none => exact Or.inr ⟨report, ⟨hreport, by rw [hcontact]; rfl⟩, by simp [Report.key, hcontact]⟩
      | some contact =>
        exact Or.inl ⟨contact, ⟨report, hreport, hcontact⟩, by simp [Report.key, hcontact]⟩
    · rintro (⟨contact, ⟨report, hreport, hcontact⟩, rfl⟩ | ⟨report, ⟨hreport, hnone⟩, rfl⟩)
      · exact ⟨report, hreport, by simp [Report.key, hcontact]⟩
      · exact ⟨report, hreport, by simp [Report.key, Option.isNone_iff_eq_none.mp hnone]⟩
  have hdisjoint : Disjoint ((standing.filterMap (·.reporterContact)).map asciiLower).toFinset
      ((standing.filter (·.reporterContact.isNone)).map fun report =>
        d.idText report.id).toFinset := by
    rw [Finset.disjoint_left]
    intro key hkey hid
    obtain ⟨contact, hcontact, rfl⟩ := List.mem_map.mp (List.mem_toFinset.mp hkey)
    obtain ⟨report, hreport, hsome⟩ := List.mem_filterMap.mp hcontact
    obtain ⟨other, -, hother⟩ := List.mem_map.mp (List.mem_toFinset.mp hid)
    have hat := at_mem_asciiLower (h.contacts report (hmem report hreport) contact hsome).1
    rw [← hother] at hat
    exact hd.at_notMem_idText other.id hat
  rw [← List.card_toFinset, hkeys, Finset.card_union_of_disjoint hdisjoint,
    List.toFinset_card_of_nodup hanonymous, List.length_map, ← List.countP_eq_length_filter,
    hcontacts]

/-- Who stands against a link stays there as reports come in. -/
theorem reporterCount_append (reports more : List Report) (linkId : Nat) :
    reporterCount reports linkId ≤ reporterCount (reports ++ more) linkId := by
  rw [reporterCount, reporterCount]
  rw [List.filter_append, List.filterMap_append, List.map_append, List.toFinset_append,
    List.countP_append]
  exact Nat.add_le_add (Finset.card_le_card Finset.subset_union_left) (Nat.le_add_right _ _)

/-- A report on another link changes nothing. -/
theorem reporterCount_of_not_standing {reports : List Report} {report : Report} {linkId : Nat}
    (h : report.standing linkId = false) :
    reporterCount (reports ++ [report]) linkId = reporterCount reports linkId := by
  rw [reporterCount, reporterCount]
  rw [List.filter_append, List.filter_singleton, h]
  simp

/-! ### Calls -/

/-- A call that has still to look at the link, or is about to disable it. -/
def Call.pendingFor (call : Call) : Option Nat :=
  match call.phase with
  | .inserted linkId => some linkId
  | .reached linkId _ => some linkId
  | .disabled linkId _ _ => some linkId
  | .enqueued linkId _ _ => some linkId
  | .audited linkId _ _ => some linkId
  | .begun => none
  | .resolved _ => none
  | .returned _ => none

/-- **What a call in each phase may rely on.** -/
structure Sound (d : Deployment) (s : Store) (call : Call) : Prop where
  accepted : call.input.accepted d = true
  reached : ∀ linkId count, call.phase = .reached linkId count →
    d.threshold ≤ reporterCount s.reports linkId
  held : ∀ linkId, call.holds = some linkId → d.threshold ≤ reporterCount s.reports linkId ∧
    ∃ link, s.links linkId = some link ∧ link.disabledAt = none
  answered : ∀ result, call.phase = .returned result → result = ⟨true⟩

/-- Two calls do not hold the same link. -/
def Beside (call other : Call) : Prop := ∀ linkId, call.holds = some linkId → other.holds ≠ some linkId

theorem Beside.symm {call other : Call} (h : Beside call other) : Beside other call :=
  fun linkId hother hcall => h linkId hcall hother

/-- A step that leaves reports standing and the link that a call holds alone. -/
theorem Sound.mono {d : Deployment} {s s' : Store} {call : Call} (h : Sound d s call)
    (hcount : ∀ linkId, reporterCount s.reports linkId ≤ reporterCount s'.reports linkId)
    (hlinks : ∀ linkId, call.holds = some linkId → s'.links linkId = s.links linkId) :
    Sound d s' call := by
  refine ⟨h.accepted, fun linkId count hphase => (h.reached linkId count hphase).trans
    (hcount linkId), fun linkId hholds => ?_, h.answered⟩
  obtain ⟨hreached, hlink⟩ := h.held linkId hholds
  rw [hlinks linkId hholds]
  exact ⟨hreached.trans (hcount linkId), hlink⟩

/-! ### What a run has done -/

theorem isDisabled_congr {s s' : Store} {linkId : Nat} (h : s'.links linkId = s.links linkId) :
    s'.isDisabled linkId = s.isDisabled linkId := by
  rw [Store.isDisabled, h, Store.isDisabled]

/-- **What a run has done to links**, with the rows that go with it. -/
structure Since (d : Deployment) (start s : Store) : Prop where
  outbox : ∃ rows, s.outbox = start.outbox ++ rows ∧ (∀ row ∈ rows, row.2 = .upsert) ∧
    ∀ linkId, rows.countP (·.1 = linkId) = if WentDown start s linkId then 1 else 0
  audit : ∃ rows, s.audit = start.audit ++ rows ∧
    (∀ row ∈ rows, ∃ linkId count, row = quarantineEntry d linkId count) ∧
    ∀ linkId, rows.countP (·.targetId = linkId) = if WentDown start s linkId then 1 else 0
  others : ∀ linkId, WentDown start s linkId = false → s.links linkId = start.links linkId

section

variable {d : Deployment} {start s s' : Store}

theorem since_refl (d : Deployment) (s : Store) : Since d s s := by
  have hstays : ∀ linkId, WentDown s s linkId = false := fun linkId => by
    rw [WentDown, Bool.and_not_self]
  refine ⟨⟨[], (List.append_nil _).symm, fun _ h => absurd h List.not_mem_nil, ?_⟩,
    ⟨[], (List.append_nil _).symm, fun _ h => absurd h List.not_mem_nil, ?_⟩, fun _ _ => rfl⟩
  · intro linkId
    rw [hstays, List.countP_nil, if_neg Bool.false_ne_true]
  · intro linkId
    rw [hstays, List.countP_nil, if_neg Bool.false_ne_true]

/-- How often a link that goes down is counted. -/
theorem countP_append_singleton {α : Type} {rows : List α} {row : α} {key : α → Nat} {before after :
    Nat → Bool} {linkId : Nat} (hrow : key row = linkId) (hbefore : before linkId = false)
    (hafter : ∀ id, after id = (before id || decide (id = linkId)))
    (h : ∀ id, rows.countP (key · = id) = if before id then 1 else 0) (id : Nat) :
    (rows ++ [row]).countP (key · = id) = if after id then 1 else 0 := by
  rw [List.countP_append, h id, hafter id, List.countP_singleton, hrow]
  by_cases hid : id = linkId
  · rw [hid, hbefore]
    simp
  · rw [decide_eq_false hid, decide_eq_false (Ne.symm hid)]
    simp

/-- **A step adds one row of each kind for the link that it disables.** -/
theorem Since.step (h : Since d start s) (hstep : OneTransaction d s s') : Since d start s' := by
  rcases hstep with ⟨hlinks, houtbox, haudit⟩ |
    ⟨linkId, link, now, count, hlink, hup, hlinks, houtbox, haudit⟩
  · have hdown : WentDown start s' = WentDown start s := by
      funext linkId
      rw [WentDown, WentDown, isDisabled_congr (congrFun hlinks linkId)]
    refine ⟨?_, ?_, ?_⟩
    · rw [houtbox, hdown]
      exact h.outbox
    · rw [haudit, hdown]
      exact h.audit
    · rw [hlinks, hdown]
      exact h.others
  · have hdown : WentDown start s linkId = false := by
      rw [WentDown, Store.isDisabled, hlink]
      simp [hup]
    have hstart : start.isDisabled linkId = false := by
      rw [Store.isDisabled, ← h.others linkId hdown, hlink]
      simp [hup]
    have hafter : ∀ id, WentDown start s' id = (WentDown start s id || decide (id = linkId)) := by
      intro id
      by_cases hid : id = linkId
      · rw [hid, decide_eq_true rfl, Bool.or_true, WentDown, hstart, Store.isDisabled, hlinks,
          Function.update_self]
        rfl
      · rw [decide_eq_false hid, Bool.or_false, WentDown, WentDown, isDisabled_congr]
        rw [hlinks, Function.update_of_ne hid]
    obtain ⟨rows, hrows, hupsert, hcount⟩ := h.outbox
    obtain ⟨entries, hentries, hentry, hcount'⟩ := h.audit
    refine ⟨⟨rows ++ [(linkId, .upsert)], ?_, ?_, ?_⟩,
      ⟨entries ++ [quarantineEntry d linkId count], ?_, ?_, ?_⟩, ?_⟩
    · rw [houtbox, hrows, List.append_assoc]
    · intro row hrow
      rcases List.mem_append.mp hrow with hold | hnew
      · exact hupsert row hold
      · rw [List.mem_singleton.mp hnew]
    · exact countP_append_singleton rfl hdown hafter hcount
    · rw [haudit, hentries, List.append_assoc]
    · intro row hrow
      rcases List.mem_append.mp hrow with hold | hnew
      · exact hentry row hold
      · exact ⟨linkId, count, List.mem_singleton.mp hnew⟩
    · exact countP_append_singleton rfl hdown hafter hcount'
    · intro id hid
      rw [hafter id, Bool.or_eq_false_iff, decide_eq_false_iff_not] at hid
      rw [hlinks, Function.update_of_ne hid.2]
      exact h.others id hid.1

end

/-! ### What holds in every state -/

/-- **What holds in every state of a run.** -/
structure Inv (d : Deployment) (start s : Store) : Prop where
  stored : Stored s.reports s.nextId
  sound : ∀ call ∈ s.calls, Sound d s call
  beside : s.calls.Pairwise Beside
  since : Since d start s
  known : ∀ linkId, (s.links linkId).isSome = (start.links linkId).isSome
  /-- A link that is disabled has enough reporters against it. -/
  reached : ∀ linkId, s.isDisabled linkId = true → d.threshold ≤ reporterCount s.reports linkId
  /-- While one that is not has as many, some call has still to look. -/
  looked : ∀ linkId, (s.links linkId).isSome = true → s.isDisabled linkId = false →
    d.threshold ≤ reporterCount s.reports linkId → ∃ call ∈ s.calls, call.pendingFor = some linkId

section

variable {d : Deployment} {start s s' : Store} {i : Nat} {now : Int} {call : Call} {phase : Phase}

/-- Whoever has still to look stays, where the call that goes on is not the one. -/
theorem exists_pending_set {linkId : Nat} {call' : Call} (hcall : s.calls[i]? = some call)
    (h : ∃ other ∈ s.calls, other.pendingFor = some linkId)
    (hkeep : call.pendingFor = some linkId → call'.pendingFor = some linkId) :
    ∃ other ∈ s.calls.set i call', other.pendingFor = some linkId := by
  obtain ⟨other, hother, hpending⟩ := h
  obtain ⟨pre, post, hsplit, hset⟩ := exists_split_of_getElem? hcall
  rw [hset call']
  rw [hsplit, List.mem_append, List.mem_cons] at hother
  rcases hother with hpre | rfl | hpost
  · exact ⟨other, by simp [hpre], hpending⟩
  · exact ⟨call', by simp, hkeep hpending⟩
  · exact ⟨other, by simp [hpost], hpending⟩

theorem Inv.others (h : Inv d start s) (hcall : s.calls[i]? = some call) :
    ∀ other ∈ s.calls.eraseIdx i, Beside call other :=
  pairwise_others Beside.symm h.beside hcall

theorem oneTransaction_set (d : Deployment) (s : Store) (i : Nat) (call : Call) (phase : Phase) :
    OneTransaction d s (s.set i call phase) := Or.inl ⟨rfl, rfl, rfl⟩

/-- A call goes on to a phase that it may be in. -/
theorem Inv.set (h : Inv d start s) (hcall : s.calls[i]? = some call)
    (hreached : ∀ linkId count, phase = .reached linkId count →
      d.threshold ≤ reporterCount s.reports linkId)
    (hheld : ∀ linkId, Call.holds { call with phase := phase } = some linkId →
      (d.threshold ≤ reporterCount s.reports linkId ∧
        ∃ link, s.links linkId = some link ∧ link.disabledAt = none) ∧
      ∀ other ∈ s.calls.eraseIdx i, other.holds ≠ some linkId)
    (hanswered : ∀ result, phase = .returned result → result = ⟨true⟩)
    (hkeep : ∀ linkId, (s.links linkId).isSome = true → s.isDisabled linkId = false →
      d.threshold ≤ reporterCount s.reports linkId → call.pendingFor = some linkId →
      Call.pendingFor { call with phase := phase } = some linkId) :
    Inv d start (s.set i call phase) := by
  have hsound := h.sound call (List.mem_of_getElem? hcall)
  refine ⟨h.stored, fun other hother => ?_, ?_, h.since.step (oneTransaction_set d s i call phase),
    h.known, h.reached, fun linkId hlink hup hcount => ?_⟩
  · rcases eq_or_mem_eraseIdx_of_mem_set hother with rfl | hold
    · exact ⟨hsound.accepted, hreached, fun linkId hholds => (hheld linkId hholds).1, hanswered⟩
    · exact (h.sound other (List.mem_of_mem_eraseIdx hold)).mono (fun _ => le_refl _)
        fun _ _ => rfl
  · exact pairwise_set Beside.symm h.beside fun other hother linkId hholds =>
      (hheld linkId hholds).2 other hother
  · exact exists_pending_set hcall (h.looked linkId hlink hup hcount)
      (hkeep linkId hlink hup hcount)

/-- A call that ends where nothing is left to look at. -/
theorem Inv.answered (h : Inv d start s) (hcall : s.calls[i]? = some call)
    (hnothing : ∀ linkId, (s.links linkId).isSome = true → s.isDisabled linkId = false →
      d.threshold ≤ reporterCount s.reports linkId → call.pendingFor ≠ some linkId) :
    Inv d start (s.set i call answer) := by
  refine h.set hcall (fun _ _ hphase => by cases hphase) (fun _ hholds => by cases hholds)
    (fun result hphase => (Phase.returned.inj hphase).symm) fun linkId hlink hup hcount hpending => ?_
  exact absurd hpending (hnothing linkId hlink hup hcount)

theorem afterReport_cases (hthreshold : 0 < d.threshold) (link : Option Resolved) :
    afterReport d link = answer ∧ link = none ∨
      ∃ resolved, link = some resolved ∧ afterReport d link = .inserted resolved.id := by
  cases link with
  | none => exact Or.inl ⟨rfl, rfl⟩
  | some resolved => exact Or.inr ⟨resolved, rfl, if_neg (Nat.pos_iff_ne_zero.mp hthreshold)⟩

/-- **A report comes in**, and who sends it has still to look. -/
theorem Inv.insertReport (hd : d.Lawful) (hthreshold : 0 < d.threshold) (h : Inv d start s)
    (hcall : s.calls[i]? = some call) {link : Option Resolved}
    (hphase : call.phase = .resolved link) :
    Inv d start (s.insertReport d i call link) ∧ OneTransaction d s (s.insertReport d i call link) := by
  have haccepted := (h.sound call (List.mem_of_getElem? hcall)).accepted
  have hpending : ∀ linkId, call.pendingFor ≠ some linkId := by
    intro linkId
    rw [Call.pendingFor, hphase]
    exact (Option.some_ne_none linkId).symm
  have hcases := afterReport_cases hthreshold link
  have hholds : Call.holds { call with phase := afterReport d link } = none := by
    rcases hcases with ⟨heq, -⟩ | ⟨_, -, heq⟩
    · rw [heq]
      rfl
    · rw [heq]
      rfl
  have hcount : ∀ linkId, reporterCount s.reports linkId ≤
      reporterCount (s.insertReport d i call link).reports linkId :=
    fun linkId => reporterCount_append _ _ _
  have hone : OneTransaction d s (s.insertReport d i call link) := Or.inl ⟨rfl, rfl, rfl⟩
  refine ⟨⟨⟨fun report hreport => ?_, ?_, fun report hreport => ?_⟩, fun other hother => ?_, ?_,
    h.since.step hone, h.known, fun linkId hdisabled => (h.reached linkId hdisabled).trans
      (hcount linkId), fun linkId hlink hup hcount' => ?_⟩, hone⟩
  · rcases List.mem_append.mp hreport with hold | hnew
    · exact Nat.lt_succ_of_lt (h.stored.fresh report hold)
    · rw [List.mem_singleton.mp hnew]
      exact Nat.lt_succ_self _
  · refine List.pairwise_append.mpr ⟨h.stored.ids, List.pairwise_singleton _ _, ?_⟩
    intro a ha b hb
    rw [List.mem_singleton.mp hb]
    exact (h.stored.fresh a ha).ne
  · rcases List.mem_append.mp hreport with hold | hnew
    · exact h.stored.contacts report hold
    · rw [List.mem_singleton.mp hnew]
      exact fun contact hcontact => storedContact_of_accepted hd haccepted hcontact
  · rcases eq_or_mem_eraseIdx_of_mem_set hother with rfl | hold
    · refine ⟨haccepted, fun linkId count hreached => ?_, fun linkId hheld => ?_,
        fun result hresult => ?_⟩
      · rcases hcases with ⟨heq, -⟩ | ⟨_, -, heq⟩
        · exact Phase.noConfusion (heq.symm.trans hreached)
        · exact Phase.noConfusion (heq.symm.trans hreached)
      · exact (Option.some_ne_none linkId (hheld.symm.trans hholds)).elim
      · rcases hcases with ⟨heq, -⟩ | ⟨_, -, heq⟩
        · exact (Phase.returned.inj (heq.symm.trans hresult)).symm
        · exact Phase.noConfusion (heq.symm.trans hresult)
    · exact (h.sound other (List.mem_of_mem_eraseIdx hold)).mono hcount fun _ _ => rfl
  · exact pairwise_set Beside.symm h.beside fun other _ linkId hheld =>
      (Option.some_ne_none linkId (hheld.symm.trans hholds)).elim
  · by_cases hnames : ∃ resolved, link = some resolved ∧ resolved.id = linkId
    · obtain ⟨resolved, rfl, rfl⟩ := hnames
      rcases hcases with ⟨-, hnone⟩ | ⟨other, hother, heq⟩
      · cases hnone
      · obtain rfl := Option.some.inj hother
        refine ⟨{ call with phase := afterReport d (some resolved) }, ?_, by rw [heq]; rfl⟩
        exact List.mem_set (List.getElem?_eq_some_iff.mp hcall).1 _
    · -- a report on another link: somebody looked before, and it was not this call
      refine exists_pending_set hcall (h.looked linkId hlink hup ?_)
        fun hthis => absurd hthis (hpending linkId)
      refine hcount'.trans (reporterCount_of_not_standing ?_).le
      rw [Report.standing, Bool.and_eq_false_iff, decide_eq_false_iff_not]
      exact Or.inl fun hsome => hnames (Option.map_eq_some_iff.mp hsome)

/-- **A quarantine commits.** -/
theorem Inv.commit (h : Inv d start s) (hcall : s.calls[i]? = some call) {linkId count : Nat}
    {at_ : Int} (hholds : call.holds = some linkId) (hpending : call.pendingFor = some linkId) :
    Inv d start (s.commit d i call linkId count at_) ∧
      OneTransaction d s (s.commit d i call linkId count at_) := by
  have hsound := h.sound call (List.mem_of_getElem? hcall)
  obtain ⟨hreached, link, hlink, hup⟩ := hsound.held linkId hholds
  have hlinks : (s.commit d i call linkId count at_).links =
      Function.update s.links linkId (some (link.disable at_)) := by
    rw [Store.commit, hlink, Option.map_some]
  have hone : OneTransaction d s (s.commit d i call linkId count at_) :=
    Or.inr ⟨linkId, link, at_, count, hlink, hup, hlinks, rfl, rfl⟩
  have hother : ∀ id, id ≠ linkId → (s.commit d i call linkId count at_).links id = s.links id := by
    intro id hid
    rw [hlinks, Function.update_of_ne hid]
  have hanswer : Call.holds { call with phase := answer } = none := rfl
  refine ⟨⟨h.stored, fun other hmem => ?_, ?_, h.since.step hone, fun id => ?_,
    fun id hdisabled => ?_, fun id hsome hstill hcount => ?_⟩, hone⟩
  · rcases eq_or_mem_eraseIdx_of_mem_set hmem with rfl | hold
    · exact ⟨hsound.accepted, fun _ _ hphase => Phase.noConfusion hphase,
        fun id hheld => (Option.some_ne_none id (hheld.symm.trans hanswer)).elim,
        fun result hphase => (Phase.returned.inj hphase).symm⟩
    · refine (h.sound other (List.mem_of_mem_eraseIdx hold)).mono (fun _ => le_refl _)
        fun id hheld => hother id ?_
      rintro rfl
      exact h.others hcall other hold id hholds hheld
  · exact pairwise_set Beside.symm h.beside fun other _ id hheld =>
      (Option.some_ne_none id (hheld.symm.trans hanswer)).elim
  · rw [← h.known id]
    by_cases hid : id = linkId
    · rw [hid, hlinks, Function.update_self, hlink]
      rfl
    · rw [hother id hid]
  · by_cases hid : id = linkId
    · exact hid ▸ hreached
    · rw [isDisabled_congr (hother id hid)] at hdisabled
      exact h.reached id hdisabled
  · have hid : id ≠ linkId := by
      rintro rfl
      rw [Store.isDisabled, hlinks, Function.update_self] at hstill
      cases hstill
    rw [hother id hid] at hsome
    rw [isDisabled_congr (hother id hid)] at hstill
    refine exists_pending_set hcall (h.looked id hsome hstill hcount) fun hthis => ?_
    exact absurd (Option.some.inj (hthis.symm.trans hpending)) hid

/-- **A statement of a call keeps what holds**, and disables one link at most. -/
theorem Inv.next (hd : d.Lawful) (hthreshold : 0 < d.threshold) (h : Inv d start s)
    (hcall : s.calls[i]? = some call) (hnext : s.next d i now call = some s') :
    Inv d start s' ∧ OneTransaction d s s' := by
  have hsound := h.sound call (List.mem_of_getElem? hcall)
  rw [Store.next] at hnext
  split at hnext
  · next hphase =>
    cases hnext
    refine ⟨h.set hcall (fun _ _ heq => Phase.noConfusion heq) (fun _ heq => ?_)
      (fun _ heq => Phase.noConfusion heq) fun linkId _ _ _ heq => ?_, oneTransaction_set ..⟩
    · cases heq
    · rw [Call.pendingFor, hphase] at heq
      cases heq
  · next link hphase =>
    cases hnext
    exact h.insertReport hd hthreshold hcall hphase
  · next linkId hphase =>
    cases hnext
    have hcount := distinctReportCount_eq hd h.stored linkId
    split
    · next hfew =>
      refine ⟨h.answered hcall fun id _ _ hmany heq => ?_, oneTransaction_set ..⟩
      rw [Call.pendingFor, hphase, Option.some.injEq] at heq
      rw [hcount, heq] at hfew
      exact absurd hmany (Nat.not_le.mpr hfew)
    · next hmany =>
      refine ⟨h.set hcall (fun id count heq => ?_) (fun _ heq => ?_)
        (fun _ heq => Phase.noConfusion heq) fun id _ _ _ heq => ?_, oneTransaction_set ..⟩
      · obtain ⟨rfl, -⟩ := Phase.reached.inj heq
        rw [← hcount]
        exact Nat.not_lt.mp hmany
      · cases heq
      · rw [Call.pendingFor, hphase] at heq
        exact heq
  · next linkId count hphase =>
    split at hnext
    · next hfree =>
      split at hnext
      · next hany =>
        cases hnext
        obtain ⟨link, hlink, hup⟩ := (Option.any_eq_true _ _).mp hany
        refine ⟨h.set hcall (fun _ _ heq => Phase.noConfusion heq) (fun id heq => ?_)
          (fun _ heq => Phase.noConfusion heq) fun id _ _ _ heq => ?_, oneTransaction_set ..⟩
        · obtain rfl := Option.some.inj heq
          exact ⟨⟨hsound.reached linkId count hphase, link, hlink,
            Option.isNone_iff_eq_none.mp hup⟩, fun other hother =>
              of_decide_eq_true (List.all_eq_true.mp hfree other hother)⟩
        · rw [Call.pendingFor, hphase] at heq
          exact heq
      · next hdown =>
        cases hnext
        refine ⟨h.answered hcall fun id hsome hup _ heq => hdown ?_, oneTransaction_set ..⟩
        rw [Call.pendingFor, hphase, Option.some.injEq] at heq
        obtain ⟨link, hlink⟩ := Option.isSome_iff_exists.mp hsome
        rw [Store.isDisabled, hlink] at hup
        rw [heq, hlink]
        simpa using hup
    · cases hnext
  · next linkId count at_ hphase =>
    cases hnext
    have hholds : call.holds = some linkId := by rw [Call.holds, hphase]
    refine ⟨h.set hcall (fun _ _ heq => Phase.noConfusion heq) (fun id heq => ?_)
      (fun _ heq => Phase.noConfusion heq) fun id _ _ _ heq => ?_, oneTransaction_set ..⟩
    · obtain rfl := Option.some.inj heq
      exact ⟨hsound.held linkId hholds, fun other hother => h.others hcall other hother _ hholds⟩
    · rw [Call.pendingFor, hphase] at heq
      exact heq
  · next linkId count at_ hphase =>
    cases hnext
    have hholds : call.holds = some linkId := by rw [Call.holds, hphase]
    refine ⟨h.set hcall (fun _ _ heq => Phase.noConfusion heq) (fun id heq => ?_)
      (fun _ heq => Phase.noConfusion heq) fun id _ _ _ heq => ?_, oneTransaction_set ..⟩
    · obtain rfl := Option.some.inj heq
      exact ⟨hsound.held linkId hholds, fun other hother => h.others hcall other hother _ hholds⟩
    · rw [Call.pendingFor, hphase] at heq
      exact heq
  · next linkId count at_ hphase =>
    cases hnext
    exact h.commit hcall (by rw [Call.holds, hphase]) (by rw [Call.pendingFor, hphase])
  · cases hnext

/-- **A step of the system.** -/
theorem Inv.step (hd : d.Lawful) (hthreshold : 0 < d.threshold) (h : Inv d start s) {a : Action}
    (hs' : step d s a = some s') : Inv d start s' ∧ OneTransaction d s s' := by
  cases a with
  | submitReport slug host input =>
    rw [Reports.step] at hs'
    split at hs'
    · next haccepted =>
      cases hs'
      have hone : OneTransaction d s { s with calls := s.calls ++ [⟨slug, host, input, .begun⟩] } :=
        Or.inl ⟨rfl, rfl, rfl⟩
      refine ⟨⟨h.stored, fun call hcall => ?_, ?_, h.since.step hone, h.known, h.reached,
        fun linkId hlink hup hcount => ?_⟩, hone⟩
      · rcases List.mem_append.mp hcall with hold | hnew
        · exact (h.sound call hold).mono (fun _ => le_refl _) fun _ _ => rfl
        · obtain rfl := List.mem_singleton.mp hnew
          exact ⟨haccepted, fun _ _ heq => Phase.noConfusion heq,
            fun linkId heq => (Option.some_ne_none linkId heq.symm).elim,
            fun _ heq => Phase.noConfusion heq⟩
      · refine List.pairwise_append.mpr ⟨h.beside, List.pairwise_singleton _ _, ?_⟩
        intro other _ call hcall linkId _ heq
        rw [List.mem_singleton.mp hcall] at heq
        exact Option.some_ne_none linkId heq.symm
      · obtain ⟨call, hcall, hpending⟩ := h.looked linkId hlink hup hcount
        exact ⟨call, List.mem_append_left _ hcall, hpending⟩
    · cases hs'
      exact ⟨h, Or.inl ⟨rfl, rfl, rfl⟩⟩
  | next i now =>
    obtain ⟨call, hcall, hnext⟩ := Option.bind_eq_some_iff.mp hs'
    exact h.next hd hthreshold hcall hnext

theorem inv_of_initial (h : Initial d start) : Inv d start start := by
  have hnone : ∀ call, call ∉ start.calls := fun call hcall => by
    rw [h.calls] at hcall
    exact List.not_mem_nil hcall
  refine ⟨⟨h.fresh, h.ids, h.contacts⟩, fun call hcall => absurd hcall (hnone call), ?_,
    since_refl d start, fun _ => rfl, fun linkId hdown => ?_, fun linkId hlink hup hcount => ?_⟩
  · rw [h.calls]
    exact List.Pairwise.nil
  · refine (h.consistent linkId ?_).mp hdown
    obtain ⟨link, hlink, -⟩ := (Option.any_eq_true _ _).mp hdown
    rw [hlink]
    rfl
  · rw [(h.consistent linkId hlink).mpr hcount] at hup
    cases hup

/-- **What is left when all calls have returned.** -/
theorem Inv.quarantined (h : Inv d start s)
    (hreturned : ∀ call ∈ s.calls, ∃ result, call.phase = .returned result) :
    Quarantined d start s := by
  refine ⟨fun linkId hlink => ⟨h.reached linkId, fun hcount => ?_⟩, h.since.outbox, h.since.audit,
    h.since.others, fun call hcall => ?_⟩
  · rw [← h.known linkId] at hlink
    by_contra hup
    rw [Bool.not_eq_true] at hup
    obtain ⟨call, hcall, hpending⟩ := h.looked linkId hlink hup hcount
    obtain ⟨result, hphase⟩ := hreturned call hcall
    rw [Call.pendingFor, hphase] at hpending
    cases hpending
  · obtain ⟨result, hphase⟩ := hreturned call hcall
    rw [hphase, (h.sound call hcall).answered result hphase]

end

/-- **Reports quarantine a link exactly when enough of them stand**: in every order of the
statements of any number of calls, each step disables one link at most, with its operation and its
audit row; and when all calls have returned, the links that are disabled are those that enough
reporters stand against. -/
theorem reports_quarantine (d : Deployment) (hd : d.Lawful) (hthreshold : 0 < d.threshold)
    (start : Store) (hstart : Initial d start) (actions : List Action) (s : Store)
    (hrun : run (step d) start actions = some s) :
    (∀ a s', step d s a = some s' → OneTransaction d s s') ∧
      ((∀ call ∈ s.calls, ∃ result, call.phase = .returned result) → Quarantined d start s) := by
  have h : Inv d start s := invariant_of_run (fun _ _ _ h hs' => (h.step hd hthreshold hs').1)
    actions start s (inv_of_initial hstart) hrun
  exact ⟨fun a s' hs' => (h.step hd hthreshold hs').2, h.quarantined⟩

/-! ### Two reports beside each other -/

/-- Two reporters are enough. -/
def twoReporters : Deployment where
  platform := Redirect.samplePlatform
  threshold := 2
  domainName := fun _ => "snap.to"
  isEmail := fun s => '@' ∈ s.toList
  idText := fun id => String.ofList (List.replicate id 'a')

theorem lawful_twoReporters : twoReporters.Lawful := by
  refine ⟨fun s hs => of_decide_eq_true hs, fun a b hab => ?_, fun id => ?_⟩
  · have := congrArg (fun s => s.toList.length) hab
    simpa [twoReporters] using this
  · simp [twoReporters]

/-- One link, and no report. -/
def oneLink : Store where
  links := fun id => if id = 0 then some ⟨"W1", "D1", "spring", "https://a.test", none, 0⟩ else none
  linkBound := 1
  reports := []
  outbox := []
  audit := []
  nextId := 0
  calls := []

theorem initial_oneLink : Initial twoReporters oneLink := by
  refine ⟨rfl, fun _ h => absurd h List.not_mem_nil, List.Pairwise.nil,
    fun _ h => absurd h List.not_mem_nil, fun linkId hlink => ?_⟩
  refine iff_of_false (fun hdown => ?_) (by simp [reporterCount, oneLink, twoReporters])
  rw [Store.isDisabled, oneLink] at hdown
  dsimp only at hdown
  split at hdown
  · cases hdown
  · cases hdown

/-- Both have stored their report before either counts. -/
def twoReports : List Action :=
  .submitReport "Spring" (some "SNAP.TO") ⟨"phishing", some "a@example.com"⟩ ::
    .submitReport "spring" none ⟨"malware", none⟩ ::
    [0, 1, 0, 1, 0, 1, 0, 0, 0, 0, 1].map fun i => .next i 5

/-- The link is disabled, once. -/
theorem reports_quarantine_once :
    ∃ s, run (step twoReporters) oneLink twoReports = some s ∧ Quarantined twoReporters oneLink s ∧
      s.isDisabled 0 = true ∧ s.outbox = [(0, .upsert)] := by
  have hstate : (run (step twoReporters) oneLink twoReports).any (fun s =>
      decide ((∀ call ∈ s.calls, call.phase = .returned ⟨true⟩) ∧ s.isDisabled 0 = true ∧
        s.outbox = [(0, .upsert)])) = true := by
    decide +kernel
  obtain ⟨s, hrun, hs⟩ := (Option.any_eq_true _ _).mp hstate
  obtain ⟨hreturned, hdown, houtbox⟩ := of_decide_eq_true hs
  exact ⟨s, hrun, (reports_quarantine twoReporters lawful_twoReporters (by decide) oneLink
    initial_oneLink twoReports s hrun).2 fun call hcall => ⟨⟨true⟩, hreturned call hcall⟩, hdown,
    houtbox⟩

end SnapUrl.Reports
