import SnapUrl.Bio.BlockClicks
import SnapUrl.Links.BulkAgreement

/-!
# The count of a block

What a save has in hand in each phase, whatever the clicks and the other saves do meanwhile, and
what its commit makes of the counts.

* `Progress`: how far a save is, and what it may rely on.
* `Sound`: what holds of what is committed and of all saves.
* `counted_commit`: a commit keeps the counts when the save has read the last of them, and only
  then.
* `clicks_counted`: **the counts are right throughout a run exactly when no click crosses a save
  that commits**.
-/

namespace SnapUrl.Bio.BlockClicks

open Lib Links Links.Creation
open Saves (findPage savedPage)

/-! ### The rows that a save inserts -/

section

variable {pageId : Nat} {kept : Table Prior}

/-- What stands in the rows. -/
theorem mem_placeBlocks {blocks : List InputBlock} {seen : List Nat} {position fresh id : Nat}
    {row : Block} (h : (id, row) ∈ placeBlocks pageId kept seen position fresh blocks) :
    row.bioPageId = pageId ∧
      ((∃ prior, kept id = some prior ∧ id ∈ blocks.filterMap (·.id) ∧
          row.clicks = prior.clicks) ∨
        (fresh ≤ id ∧ id < fresh + blocks.length ∧ row.clicks = 0)) := by
  induction blocks generalizing seen position fresh with
  | nil => cases h
  | cons block blocks ih =>
    have hmem : id ∈ blocks.filterMap (·.id) → id ∈ (block :: blocks).filterMap (·.id) := by
      rw [List.filterMap_cons]
      split
      · exact fun h => h
      · exact List.mem_cons_of_mem _
    rw [placeBlocks] at h
    split at h
    · next id' prior hprior =>
      rcases List.mem_cons.mp h with heq | htail
      · obtain ⟨rfl, rfl⟩ := Prod.mk.inj heq
        refine ⟨rfl, Or.inl ⟨prior, ?_⟩⟩
        obtain ⟨sent, hsent, hsome⟩ := Option.bind_eq_some_iff.mp hprior
        split at hsome
        · cases hsome
        · obtain ⟨_, hkept, heq⟩ := Option.map_eq_some_iff.mp hsome
          obtain ⟨rfl, rfl⟩ := Prod.mk.inj heq
          refine ⟨hkept, ?_, rfl⟩
          rw [List.filterMap_cons_some hsent]
          exact List.mem_cons_self
      · obtain ⟨hpage, ⟨prior', hkept, hid, hclicks⟩ | ⟨hle, hlt, hclicks⟩⟩ := ih htail
        · exact ⟨hpage, Or.inl ⟨prior', hkept, hmem hid, hclicks⟩⟩
        · refine ⟨hpage, Or.inr ⟨hle, ?_, hclicks⟩⟩
          rw [List.length_cons]
          omega
    · rcases List.mem_cons.mp h with heq | htail
      · obtain ⟨rfl, rfl⟩ := Prod.mk.inj heq
        refine ⟨rfl, Or.inr ⟨le_refl _, ?_, rfl⟩⟩
        rw [List.length_cons]
        omega
      · obtain ⟨hpage, ⟨prior', hkept, hid, hclicks⟩ | ⟨hle, hlt, hclicks⟩⟩ := ih htail
        · exact ⟨hpage, Or.inl ⟨prior', hkept, hmem hid, hclicks⟩⟩
        · refine ⟨hpage, Or.inr ⟨by omega, ?_, hclicks⟩⟩
          rw [List.length_cons]
          omega

/-- A block that is sent back keeps its row. -/
theorem exists_mem_placeBlocks {blocks : List InputBlock} {seen : List Nat}
    {position fresh id : Nat} {prior : Prior} (hsent : id ∈ blocks.filterMap (·.id))
    (hseen : id ∉ seen) (hkept : kept id = some prior) :
    ∃ row, (id, row) ∈ placeBlocks pageId kept seen position fresh blocks := by
  induction blocks generalizing seen position fresh with
  | nil => cases hsent
  | cons block blocks ih =>
    by_cases hid : block.id = some id
    · refine ⟨⟨pageId, position, block.content, prior.linkId, prior.clicks⟩, ?_⟩
      rw [placeBlocks, hid, Option.bind_some, if_neg hseen, hkept]
      exact List.mem_cons_self
    · have htail : id ∈ blocks.filterMap (·.id) := by
        obtain ⟨other, hother, hothers⟩ := List.mem_filterMap.mp hsent
        rcases List.mem_cons.mp hother with rfl | hother
        · exact absurd hothers hid
        · exact List.mem_filterMap.mpr ⟨other, hother, hothers⟩
      rw [placeBlocks]
      split
      · next id' prior' hprior =>
        have hne : id ≠ id' := by
          rintro rfl
          obtain ⟨sent, hsent, hsome⟩ := Option.bind_eq_some_iff.mp hprior
          split at hsome
          · cases hsome
          · obtain ⟨_, _, heq⟩ := Option.map_eq_some_iff.mp hsome
            rw [(Prod.mk.inj heq).1] at hsent
            exact hid hsent
        obtain ⟨row, hrow⟩ := ih htail fun h => (List.mem_cons.mp h).elim hne hseen
        exact ⟨row, List.mem_cons_of_mem _ hrow⟩
      · obtain ⟨row, hrow⟩ := ih htail hseen
        exact ⟨row, List.mem_cons_of_mem _ hrow⟩

end

/-- What is touched after rows were inserted. -/
theorem insertRows_eq_some {placed : List (Nat × Block)} {rows : Overlay Block} {id : Nat}
    {row : Option Block} (h : insertRows placed rows id = some row) :
    (∃ block, row = some block ∧ (id, block) ∈ placed) ∨ rows id = some row := by
  rw [insertRows] at h
  split at h
  · next block hblock =>
    obtain ⟨pre, post, rfl, -⟩ := List.lookup_eq_some_iff.mp hblock
    exact Or.inl ⟨block, (Option.some.inj h).symm, by simp⟩
  · exact Or.inr h

theorem insertRows_of_mem {placed : List (Nat × Block)} (rows : Overlay Block) {id : Nat}
    {block : Block} (h : (id, block) ∈ placed) :
    ∃ row, insertRows placed rows id = some (some row) := by
  rw [insertRows]
  split
  · next row _ => exact ⟨row, rfl⟩
  · next hnone => exact absurd (List.lookup_eq_none_iff.mp hnone _ h) (by simp)

/-! ### What a save has in hand -/

/-- The page that a committed block stands on. -/
def Store.pageOf (s : Store) (id : Nat) : Option Nat := (s.blocks id).map (·.bioPageId)

/-- The block was never there, and no click on it has reported success. -/
structure Unseen (start s : Store) (id : Nat) : Prop where
  absent : s.blocks id = none
  new : start.blocks id = none
  uncounted : s.successes id = 0

theorem Unseen.set {start s : Store} {id : Nat} (h : Unseen start s id) (i : Nat) (save : Save)
    (n : Nat) : Unseen start (s.set i save n) id :=
  ⟨h.absent, h.new, h.uncounted⟩

/-- The blocks of the page are those that the save has read. -/
def Reads (s : Store) (pageId : Nat) (previous : Table Prior) : Prop :=
  ∀ id, (previous id).isSome = true ↔ s.pageOf id = some pageId

/-- What a save has made of the blocks of its page. -/
structure Replaced (start s : Store) (save : Save) (pageId : Nat) (previous : Table Prior) :
    Prop where
  touched : ∀ id row, save.rows id = some row →
    id < s.nextId ∧ (s.pageOf id = some pageId ∨ Unseen start s id)
  kept : ∀ id block, save.rows id = some (some block) → block.bioPageId = pageId ∧
    ((∃ prior, previous id = some prior ∧ id ∈ save.sentBack ∧ block.clicks = prior.clicks) ∨
      (Unseen start s id ∧ block.clicks = 0))
  sent : ∀ id ∈ save.sentBack, (previous id).isSome = true →
    ∃ block, save.rows id = some (some block)

/-- **How far a save is**, and what it may rely on. -/
inductive Progress (start s : Store) (save : Save) : Prop
  | idle (page : save.page = none) (rows : save.rows = .empty)
      (phase : save.phase = .begun ∨ (∃ pageId, save.phase = .found pageId) ∨ save.phase = .over)
  | saved (id : Nat) (phase : save.phase = .saved id) (target : save.target = some id)
      (rows : save.rows = .empty)
  | read (id : Nat) (previous : Table Prior) (phase : save.phase = .read id previous)
      (target : save.target = some id) (reads : Reads s id previous) (rows : save.rows = .empty)
  | deleted (id : Nat) (previous : Table Prior) (phase : save.phase = .deleted id previous)
      (target : save.target = some id) (reads : Reads s id previous)
      (rows : ∀ b, save.rows b = if s.pageOf b = some id then some none else none)
  | inserted (id : Nat) (previous : Table Prior) (phase : save.phase = .inserted id previous)
      (target : save.target = some id) (reads : Reads s id previous)
      (replaced : Replaced start s save id previous)

/-- What a step of others leaves alone. -/
structure Around (start s s' : Store) (save : Save) : Prop where
  nextId : s.nextId ≤ s'.nextId
  pageOf : ∀ id pageId, save.target = some pageId →
    (s'.pageOf id = some pageId ↔ s.pageOf id = some pageId)
  unseen : ∀ id, save.rows id ≠ none → Unseen start s id → Unseen start s' id

section

variable {start s s' : Store} {save : Save}

/-- **A step of others takes nothing away.** -/
theorem Progress.around (h : Progress start s save) (ha : Around start s s' save) :
    Progress start s' save := by
  cases h with
  | idle page rows phase => exact .idle page rows phase
  | saved id phase target rows => exact .saved id phase target rows
  | read id previous phase target reads rows =>
    exact .read id previous phase target
      (fun b => (reads b).trans (ha.pageOf b id target).symm) rows
  | deleted id previous phase target reads rows =>
    refine .deleted id previous phase target
      (fun b => (reads b).trans (ha.pageOf b id target).symm) fun b => ?_
    rw [rows b]
    exact if_congr (ha.pageOf b id target).symm rfl rfl
  | inserted id previous phase target reads replaced =>
    refine .inserted id previous phase target
      (fun b => (reads b).trans (ha.pageOf b id target).symm) ⟨?_, ?_, replaced.sent⟩
    · intro b row hrow
      obtain ⟨hlt, hon⟩ := replaced.touched b row hrow
      refine ⟨hlt.trans_le ha.nextId, hon.imp (ha.pageOf b id target).mpr (ha.unseen b ?_)⟩
      rw [hrow]
      exact Option.some_ne_none row
    · intro b block hblock
      obtain ⟨hpage, hkept⟩ := replaced.kept b block hblock
      refine ⟨hpage, hkept.imp_right fun h => ⟨ha.unseen b ?_ h.1, h.2⟩⟩
      rw [hblock]
      exact Option.some_ne_none _

end

/-! ### Saves beside each other -/

/-- Two saves have locked no page in common, and touched no block. -/
structure Beside (save other : Save) : Prop where
  target : ∀ id, save.target = some id → other.target ≠ some id
  rows : save.rows.Apart other.rows

theorem Beside.symm {save other : Save} (h : Beside save other) : Beside other save :=
  ⟨fun id hother hsave => h.target id hsave hother, h.rows.symm⟩

/-- What holds of what is committed and of all saves. -/
structure Sound (start s : Store) : Prop where
  fresh : ∀ id, s.nextId ≤ id → Unseen start s id
  progress : ∀ save ∈ s.saves, Progress start s save
  beside : s.saves.Pairwise Beside

section

variable {start s : Store} {save : Save} {i : Nat}

/-- What a save has touched stands on its page, or was never there. -/
theorem Sound.touched (h : Sound start s) (hsave : save ∈ s.saves) {id : Nat} {row : Option Block}
    (hrow : save.rows id = some row) :
    id < s.nextId ∧
      ((∃ pageId, save.target = some pageId ∧ s.pageOf id = some pageId) ∨ Unseen start s id) := by
  have hempty : save.rows ≠ .empty := by
    intro hrows
    rw [hrows] at hrow
    cases hrow
  cases h.progress save hsave with
  | idle page rows phase => exact absurd rows hempty
  | saved pageId phase target rows => exact absurd rows hempty
  | read pageId previous phase target reads rows => exact absurd rows hempty
  | deleted pageId previous phase target reads rows =>
    rw [rows id] at hrow
    split at hrow
    · next hpage =>
      refine ⟨Nat.lt_of_not_le fun hle => ?_, Or.inl ⟨pageId, target, hpage⟩⟩
      rw [Store.pageOf, (h.fresh id hle).absent] at hpage
      cases hpage
    · cases hrow
  | inserted pageId previous phase target reads replaced =>
    obtain ⟨hlt, hon⟩ := replaced.touched id row hrow
    exact ⟨hlt, hon.imp_left fun hpage => ⟨pageId, target, hpage⟩⟩

theorem Sound.others (h : Sound start s) (hsave : s.saves[i]? = some save) :
    ∀ other ∈ s.saves.eraseIdx i, Beside save other :=
  pairwise_others Beside.symm h.beside hsave

/-- A save may go on where it has what it needs, and nothing that another has. -/
theorem Sound.set {save' : Save} {n : Nat} (h : Sound start s) (hn : s.nextId ≤ n)
    (hprogress : Progress start (s.set i save' n) save')
    (hbeside : ∀ other ∈ s.saves.eraseIdx i, Beside save' other) :
    Sound start (s.set i save' n) := by
  refine ⟨fun id hid => (h.fresh id (hn.trans hid)).set _ _ _, ?_,
    pairwise_set Beside.symm h.beside hbeside⟩
  intro other hother
  rcases eq_or_mem_eraseIdx_of_mem_set hother with rfl | hother
  · exact hprogress
  · exact (h.progress other (List.mem_of_mem_eraseIdx hother)).around
      ⟨hn, fun _ _ _ => Iff.rfl, fun _ _ hid => hid.set _ _ _⟩

/-- Nothing is left of a save that ends. -/
theorem Sound.close (h : Sound start s) (i : Nat) (save : Save) {n : Nat} (hn : s.nextId ≤ n) :
    Sound start (s.set i save.close n) :=
  h.set hn (.idle rfl rfl (Or.inr (Or.inr rfl)))
    fun _ _ => ⟨fun id h => (Option.some_ne_none id h.symm).elim, (Overlay.apart_empty _).symm⟩

end

/-! ### Statements of a save -/

section

variable {start s : Store} {save save' : Save} {i n : Nat}

/-- What is read of the blocks of a page. -/
theorem reads_blocksOf (s : Store) (pageId : Nat) : Reads s pageId (s.blocksOf pageId) := by
  intro id
  rw [Store.blocksOf, Store.pageOf]
  cases s.blocks id with
  | none => simp
  | some block => simp [Option.filter]

theorem deletion_apply (s : Store) (pageId id : Nat) :
    s.deletion pageId id = if s.pageOf id = some pageId then some none else none := by
  rw [Store.deletion, Store.pageOf]
  cases s.blocks id with
  | none => simp
  | some block => simp

/-- The page is locked by no other save. -/
theorem target_of_writePage {others : List Save} {id : Nat} {page : Page}
    (h : save.writePage s others id page = some save') :
    save' = { save with page := some (id, page), phase := .saved id } ∧
      ∀ other ∈ others, other.target ≠ some id := by
  rw [Save.writePage] at h
  split at h
  · next hfree =>
    cases h
    rw [Bool.and_eq_true] at hfree
    exact ⟨rfl, fun other hother => of_decide_eq_true (List.all_eq_true.mp hfree.1 other hother)⟩
  · cases h

/-- A page that is written and locked. -/
theorem Sound.writePage {id : Nat} {page : Page} (h : Sound start s)
    (hsave : s.saves[i]? = some save) (hrows : save.rows = .empty) (hn : s.nextId ≤ n)
    (hwrite : save.writePage s (s.saves.eraseIdx i) id page = some save') :
    Sound start (s.set i save' n) := by
  obtain ⟨rfl, hfree⟩ := target_of_writePage hwrite
  refine h.set hn (.saved id rfl rfl hrows) fun other hother =>
    ⟨fun id' hid => ?_, (h.others hsave other hother).rows⟩
  obtain rfl := Option.some.inj hid
  exact hfree other hother

/-- The blocks of the page are deleted. -/
theorem Sound.deletion {id : Nat} {previous : Table Prior} (h : Sound start s)
    (hsave : s.saves[i]? = some save) (hphase : save.phase = .read id previous) :
    Sound start (s.set i { save with rows := s.deletion id, phase := .deleted id previous }
      s.nextId) := by
  have hprogress := h.progress save (List.mem_of_getElem? hsave)
  cases hprogress with
  | read id' previous' hphase' target reads rows =>
    obtain ⟨rfl, rfl⟩ := SavePhase.read.inj (hphase.symm.trans hphase')
    refine h.set (le_refl _) (.deleted id previous rfl target reads (deletion_apply s id))
      fun other hother => ⟨(h.others hsave other hother).target, fun b => ?_⟩
    change s.deletion id b = none ∨ _
    rw [deletion_apply]
    split
    · next hpage =>
      refine Or.inr (Option.eq_none_iff_forall_ne_some.mpr fun row hrow => ?_)
      -- what another save has touched stands on its own page
      rcases (h.touched (List.mem_of_mem_eraseIdx hother) hrow).2 with ⟨pageId, hlocked, hon⟩ | hnew
      · rw [hpage, Option.some.injEq] at hon
        exact (h.others hsave other hother).target id target (hon ▸ hlocked)
      · rw [Store.pageOf, hnew.absent] at hpage
        cases hpage
    · exact Or.inl rfl
  | _ => simp_all

/-- The blocks that were sent are inserted. -/
theorem Sound.insertion {id : Nat} {previous : Table Prior} (h : Sound start s)
    (hsave : s.saves[i]? = some save) (hphase : save.phase = .deleted id previous) :
    Sound start (s.set i { save with
      rows := insertRows (placeBlocks id previous [] 0 s.nextId save.blocks) save.rows
      phase := .inserted id previous } (s.nextId + save.blocks.length)) := by
  have hprogress := h.progress save (List.mem_of_getElem? hsave)
  cases hprogress with
  | deleted id' previous' hphase' target reads rows =>
    obtain ⟨rfl, rfl⟩ := SavePhase.deleted.inj (hphase.symm.trans hphase')
    -- a row that is inserted was read before, or is new
    have hplaced : ∀ b row, (b, row) ∈ placeBlocks id previous [] 0 s.nextId save.blocks →
        row.bioPageId = id ∧ ((∃ prior, previous b = some prior ∧ b ∈ save.sentBack ∧
          row.clicks = prior.clicks) ∨
          (s.nextId ≤ b ∧ b < s.nextId + save.blocks.length ∧ row.clicks = 0)) :=
      fun b row hrow => mem_placeBlocks hrow
    have hread : ∀ b, (previous b).isSome = true → b < s.nextId ∧ save.rows b = some none := by
      intro b hb
      have hon := (reads b).mp hb
      refine ⟨Nat.lt_of_not_le fun hle => ?_, by rw [rows b, if_pos hon]⟩
      rw [Store.pageOf, (h.fresh b hle).absent] at hon
      cases hon
    refine h.set (Nat.le_add_right _ _) (.inserted id previous rfl target reads ⟨?_, ?_, ?_⟩) ?_
    · intro b row hrow
      rcases insertRows_eq_some hrow with ⟨block, rfl, hmem⟩ | hold
      · obtain ⟨-, ⟨prior, hprior, -⟩ | ⟨hle, hlt, -⟩⟩ := hplaced b block hmem
        · have hsome : (previous b).isSome = true := by rw [hprior]; rfl
          exact ⟨(hread b hsome).1.trans_le (Nat.le_add_right _ _), Or.inl ((reads b).mp hsome)⟩
        · exact ⟨hlt, Or.inr ((h.fresh b hle).set _ _ _)⟩
      · obtain ⟨hlt, -⟩ := h.touched (List.mem_of_getElem? hsave) hold
        rw [rows b] at hold
        split at hold
        · next hon => exact ⟨hlt.trans_le (Nat.le_add_right _ _), Or.inl hon⟩
        · cases hold
    · intro b block hblock
      rcases insertRows_eq_some hblock with ⟨block', hrow, hmem⟩ | hold
      · obtain rfl := Option.some.inj hrow
        obtain ⟨hpage, hkept | ⟨hle, -, hclicks⟩⟩ := hplaced b block hmem
        · exact ⟨hpage, Or.inl hkept⟩
        · exact ⟨hpage, Or.inr ⟨(h.fresh b hle).set _ _ _, hclicks⟩⟩
      · rw [rows b] at hold
        split at hold
        · cases hold
        · cases hold
    · intro b hsent hsome
      obtain ⟨prior, hprior⟩ := Option.isSome_iff_exists.mp hsome
      obtain ⟨row, hrow⟩ := exists_mem_placeBlocks hsent List.not_mem_nil hprior
      exact insertRows_of_mem save.rows hrow
    · intro other hother
      refine ⟨(h.others hsave other hother).target, fun b => ?_⟩
      cases hrow : other.rows b with
      | none => exact Or.inr rfl
      | some row =>
        -- what another save has touched is neither on this page nor above the ids in use
        refine Or.inl (Option.eq_none_iff_forall_ne_some.mpr fun row' hrow' => ?_)
        have hnone : save.rows b = none :=
          ((h.others hsave other hother).rows b).resolve_right (by rw [hrow]; exact Option.some_ne_none row)
        rcases insertRows_eq_some hrow' with ⟨block, rfl, hmem⟩ | hold
        · obtain ⟨-, ⟨prior, hprior, -⟩ | ⟨hle, -, -⟩⟩ := hplaced b block hmem
          · rw [(hread b (by rw [hprior]; rfl)).2] at hnone
            cases hnone
          · exact absurd (h.touched (List.mem_of_mem_eraseIdx hother) hrow).1 (Nat.not_lt.mpr hle)
        · rw [hnone] at hold
          cases hold
  | _ => simp_all

/-- **A statement of a save keeps what holds of all.** -/
theorem Sound.next (h : Sound start s) (hsave : s.saves[i]? = some save)
    (hnext : save.next s (s.saves.eraseIdx i) = some (save', n)) :
    Sound start (s.set i save' n) := by
  have hprogress := h.progress save (List.mem_of_getElem? hsave)
  rw [Save.next] at hnext
  split at hnext
  · next hphase =>
    cases hprogress with
    | idle page rows phase =>
      split at hnext
      · cases hnext
        exact h.set (le_refl _) (.idle page rows (Or.inr (Or.inl ⟨_, rfl⟩)))
          fun other hother => ⟨(h.others hsave other hother).target,
            (h.others hsave other hother).rows⟩
      · cases hnext
        exact h.close i save (le_refl _)
    | _ => simp_all
  · next hphase =>
    cases hprogress with
    | idle page rows phase =>
      split at hnext
      · obtain ⟨save'', hwrite, heq⟩ := Option.map_eq_some_iff.mp hnext
        obtain ⟨rfl, rfl⟩ := Prod.mk.inj heq
        exact h.writePage hsave rows (le_refl _) hwrite
      · cases hnext
    | _ => simp_all
  · next hphase =>
    cases hprogress with
    | idle page rows phase =>
      obtain ⟨save'', hwrite, heq⟩ := Option.map_eq_some_iff.mp hnext
      obtain ⟨rfl, rfl⟩ := Prod.mk.inj heq
      exact h.writePage hsave rows (Nat.le_succ _) hwrite
    | _ => simp_all
  · next id hphase =>
    cases hnext
    cases hprogress with
    | saved id' hphase' target rows =>
      obtain rfl := SavePhase.saved.inj (hphase.symm.trans hphase')
      exact h.set (le_refl _) (.read id _ rfl target (reads_blocksOf s id) rows)
        fun other hother => ⟨(h.others hsave other hother).target,
          (h.others hsave other hother).rows⟩
    | _ => simp_all
  · next id previous hphase =>
    cases hnext
    exact h.deletion hsave hphase
  · next id previous hphase =>
    cases hnext
    exact h.insertion hsave hphase
  · cases hnext
  · cases hnext

end

/-! ### Clicks -/

section

variable {d : Deployment} {start s : Store} {j : Nat} {click : Click}

/-- **What a click does**: its phase changes, or its block has one click more. -/
theorem click_next_cases (d : Deployment) (s : Store) (click : Click) :
    (∃ phase, (phase = .counted ↔ click.phase = .counted) ∧
      click.next d s = ({ click with phase := phase }, s.blocks)) ∨
    (∃ block, s.blocks click.blockId = some block ∧ click.phase ≠ .counted ∧
      click.next d s = ({ click with phase := .counted }, Function.update s.blocks click.blockId
        (some { block with clicks := block.clicks + 1 }))) := by
  have hstays : ∀ phase, click.phase = phase → click = { click with phase := phase } := by
    rintro phase rfl
    rfl
  rw [Click.next]
  split
  · next hphase =>
    rw [hphase]
    split
    · exact Or.inl ⟨_, by simp, rfl⟩
    · exact Or.inl ⟨_, by simp, rfl⟩
  · next hphase =>
    rw [hphase]
    split
    · exact Or.inl ⟨_, by simp, rfl⟩
    · exact Or.inl ⟨_, by simp, rfl⟩
  · next pageId hphase =>
    split
    · next block hblock =>
      split
      · exact Or.inr ⟨block, hblock, by rw [hphase]; simp, rfl⟩
      · exact Or.inl ⟨click.phase, Iff.rfl, rfl⟩
    · exact Or.inl ⟨.notFound, by rw [hphase]; simp, rfl⟩
  · exact Or.inl ⟨click.phase, Iff.rfl, rfl⟩
  · exact Or.inl ⟨click.phase, Iff.rfl, rfl⟩

/-- A step that touches no save, and leaves each block its page. -/
theorem Sound.ofClicks {blocks : Table Block} {clicks : List Click} (h : Sound start s)
    (hpage : ∀ id, (blocks id).map (·.bioPageId) = s.pageOf id)
    (hunseen : ∀ id, Unseen start s id → Unseen start { s with blocks, clicks } id) :
    Sound start { s with blocks, clicks } := by
  refine ⟨fun id hid => hunseen id (h.fresh id hid), fun save hsave => ?_, h.beside⟩
  refine (h.progress save hsave).around ⟨le_refl _, fun id pageId _ => ?_, fun id _ => hunseen id⟩
  rw [← hpage id]
  exact Iff.rfl

/-- A click that changes its phase changes no count. -/
theorem successes_phase {phase : ClickPhase} (hclick : s.clicks[j]? = some click)
    (hphase : phase = .counted ↔ click.phase = .counted) (id : Nat) :
    Store.successes { s with clicks := s.clicks.set j { click with phase := phase } } id =
      s.successes id := by
  refine countP_set_of_eq hclick ?_
  simp only [hphase]

/-- **A click that reports success is one more on its block**, and on no other. -/
theorem successes_counted (hclick : s.clicks[j]? = some click) (hphase : click.phase ≠ .counted)
    (id : Nat) :
    Store.successes { s with clicks := s.clicks.set j { click with phase := .counted } } id =
      if id = click.blockId then s.successes id + 1 else s.successes id := by
  split
  · next hid => exact countP_set_succ hclick (by simp [hphase]) (by simp [hid])
  · next hid =>
    refine countP_set_of_eq hclick ?_
    simp [Ne.symm hid]

/-- **A click goes on**, and the counts stay right. -/
theorem sound_proceed (h : Sound start s) (hclick : s.clicks[j]? = some click) :
    Sound start { s with
      blocks := (click.next d s).2, clicks := s.clicks.set j (click.next d s).1 } ∧
    (Counted start s → Counted start { s with
      blocks := (click.next d s).2, clicks := s.clicks.set j (click.next d s).1 }) := by
  rcases click_next_cases d s click with ⟨phase, hphase, hnext⟩ | ⟨block, hblock, hphase, hnext⟩
  · rw [hnext]
    have hsuccesses := successes_phase hclick hphase
    exact ⟨h.ofClicks (fun _ => rfl) fun id hid =>
        ⟨hid.absent, hid.new, (hsuccesses id).trans hid.uncounted⟩,
      fun hcounted id block' hblock' => (hcounted id block' hblock').trans
        (congrArg (_ + ·) (hsuccesses id).symm)⟩
  · rw [hnext]
    have hsuccesses := successes_counted hclick hphase
    refine ⟨h.ofClicks (fun id => ?_) fun id hid => ?_,
      fun hcounted id block' hblock' => ?_⟩
    · dsimp only
      by_cases hid : id = click.blockId
      · rw [hid, Function.update_self, Store.pageOf, hblock]
        rfl
      · rw [Function.update_of_ne hid, Store.pageOf]
    · have hne : id ≠ click.blockId := by
        rintro rfl
        rw [hid.absent] at hblock
        cases hblock
      exact ⟨(Function.update_of_ne hne _ _).trans hid.absent, hid.new,
        (hsuccesses id).trans ((if_neg hne).trans hid.uncounted)⟩
    · change block'.clicks = _ + Store.successes { s with
        clicks := s.clicks.set j { click with phase := .counted } } id
      rw [hsuccesses id]
      by_cases hid : id = click.blockId
      · rw [hid] at hblock' ⊢
        rw [if_pos rfl, ← Nat.add_assoc, ← hcounted _ block hblock]
        dsimp only at hblock'
        rw [Function.update_self] at hblock'
        obtain rfl := Option.some.inj hblock'
        rfl
      · dsimp only at hblock'
        rw [Function.update_of_ne hid] at hblock'
        rw [if_neg hid]
        exact hcounted id block' hblock'

end

/-! ### Commits -/

section

variable {start s : Store} {save : Save} {i : Nat}

theorem blockId_afterCommit (rows : Overlay Block) (click : Click) :
    (click.afterCommit rows).blockId = click.blockId := by
  rw [Click.afterCommit]
  split
  · split
    · rfl
    · rfl
  all_goals rfl

/-- A statement that waited reports no success after the commit. -/
theorem counted_afterCommit (rows : Overlay Block) (click : Click) :
    (click.afterCommit rows).phase = .counted ↔ click.phase = .counted := by
  rw [Click.afterCommit]
  split
  · next hphase =>
    split
    · simp [hphase]
    · exact Iff.rfl
  all_goals exact Iff.rfl

theorem successes_commit (s : Store) (i : Nat) (save : Save) (id : Nat) :
    (s.commit i save).successes id = s.successes id := by
  rw [Store.successes, Store.commit, List.countP_map, Store.successes]
  refine List.countP_congr fun click _ => ?_
  simp only [Function.comp, blockId_afterCommit, counted_afterCommit]

/-- The save that commits has locked its page and replaced the blocks. -/
theorem Sound.of_mayCommit (h : Sound start s) (hsave : s.saves[i]? = some save)
    (hmay : save.mayCommit = true) :
    ∃ id previous, save.phase = .inserted id previous ∧ save.target = some id ∧
      Reads s id previous ∧ Replaced start s save id previous := by
  have hprogress := h.progress save (List.mem_of_getElem? hsave)
  rw [Save.mayCommit] at hmay
  split at hmay
  · cases hprogress with
    | inserted id previous phase target reads replaced =>
      exact ⟨id, previous, phase, target, reads, replaced⟩
    | _ => simp_all
  all_goals cases hmay

/-- **A commit keeps what holds of all.** -/
theorem Sound.commit (h : Sound start s) (hsave : s.saves[i]? = some save)
    (hmay : save.mayCommit = true) : Sound start (s.commit i save) := by
  obtain ⟨pageId, previous, -, htarget, -, hreplaced⟩ := h.of_mayCommit hsave hmay
  have hunseen : ∀ id, save.rows id = none → Unseen start s id → Unseen start (s.commit i save) id :=
    fun id hid hunseen => ⟨(Overlay.over_of_eq_none hid).trans hunseen.absent, hunseen.new,
      (successes_commit s i save id).trans hunseen.uncounted⟩
  refine ⟨fun id hid => hunseen id ?_ (h.fresh id hid), fun other hother => ?_,
    pairwise_set Beside.symm h.beside fun _ _ =>
      ⟨fun id hid => (Option.some_ne_none id hid.symm).elim, (Overlay.apart_empty _).symm⟩⟩
  · refine Option.eq_none_iff_forall_ne_some.mpr fun row hrow => ?_
    exact absurd (hreplaced.touched id row hrow).1 (Nat.not_lt.mpr hid)
  · rcases eq_or_mem_eraseIdx_of_mem_set hother with rfl | hother
    · exact .idle rfl rfl (Or.inr (Or.inr rfl))
    · have hbeside := h.others hsave other hother
      refine (h.progress other (List.mem_of_mem_eraseIdx hother)).around
        ⟨le_refl _, fun id otherPage hlocked => ?_, fun id hid => hunseen id ?_⟩
      · -- the rows that were written stood, and stand, on a page that the other has not locked
        have hne : pageId ≠ otherPage := fun heq => hbeside.target pageId htarget (heq ▸ hlocked)
        change ((save.rows.over s.blocks) id).map _ = _ ↔ _
        cases hrow : save.rows id with
        | none => rw [Overlay.over_of_eq_none hrow, Store.pageOf]
        | some row =>
          rw [Overlay.over_of_eq_some hrow]
          refine iff_of_false (fun hafter => ?_) fun hbefore => ?_
          · obtain ⟨block, rfl, hblock⟩ := Option.map_eq_some_iff.mp hafter
            exact hne ((hreplaced.kept id block hrow).1.symm.trans hblock)
          · rcases (hreplaced.touched id row hrow).2 with hon | hnew
            · exact hne (Option.some.inj (hon.symm.trans hbefore))
            · rw [Store.pageOf, hnew.absent] at hbefore
              cases hbefore
      · exact (hbeside.rows id).resolve_right hid

/-- **A commit keeps the counts when the save has read the last of them, and only then.** -/
theorem counted_commit (h : Sound start s) (hsave : s.saves[i]? = some save)
    (hmay : save.mayCommit = true) (hcounted : Counted start s) :
    Counted start (s.commit i save) ↔ save.ReadLast s.blocks := by
  obtain ⟨pageId, previous, hphase, -, hreads, hreplaced⟩ := h.of_mayCommit hsave hmay
  rw [Save.ReadLast, hphase]
  constructor
  · intro hafter id hsent prior hprior block hblock
    obtain ⟨row, hrow⟩ := hreplaced.sent id hsent (by rw [Option.mem_def.mp hprior]; rfl)
    obtain ⟨-, ⟨prior', hprior', -, hclicks⟩ | ⟨hnew, -⟩⟩ := hreplaced.kept id row hrow
    · obtain rfl : prior' = prior := Option.some.inj (hprior'.symm.trans hprior)
      rw [← hclicks, hafter id row (Overlay.over_of_eq_some hrow), successes_commit]
      exact (hcounted id block hblock).symm
    · rw [Option.mem_def, hnew.absent] at hblock
      cases hblock
  · intro hlast id block hblock
    rw [successes_commit]
    change save.rows.over s.blocks id = some block at hblock
    cases hrow : save.rows id with
    | none =>
      rw [Overlay.over_of_eq_none hrow] at hblock
      exact hcounted id block hblock
    | some row =>
      rw [Overlay.over_of_eq_some hrow] at hblock
      subst hblock
      obtain ⟨-, ⟨prior, hprior, hsent, hclicks⟩ | ⟨hnew, hclicks⟩⟩ := hreplaced.kept id block hrow
      · obtain ⟨old, hold, -⟩ := Option.map_eq_some_iff.mp
          ((hreads id).mp (by rw [hprior]; rfl))
        rw [hclicks, hlast id hsent prior hprior old hold]
        exact hcounted id old hold
      · rw [hclicks, hnew.new, hnew.uncounted]
        rfl

end

/-! ### Runs -/

section

variable {d : Deployment} {start s s' : Store} {a : Action}

/-- The counts do not depend on the saves. -/
theorem counted_saves {saves : List Save} {n : Nat} :
    Counted start { s with saves := saves, nextId := n } ↔ Counted start s := Iff.rfl

/-- **A step keeps what holds of all**, and keeps the counts exactly when no click crosses a save
that it commits. -/
theorem sound_execute (h : Sound start s) (hs' : execute d s a = some s') :
    Sound start s' ∧ (Counted start s → (Counted start s' ↔ Uncrossed s a)) := by
  cases a with
  | save settings input blocks =>
    rw [execute] at hs'
    split at hs'
    · cases hs'
    · cases hs'
      refine ⟨⟨fun id hid => ?_, fun save hsave => ?_, ?_⟩, fun hcounted => iff_of_true hcounted trivial⟩
      · exact ⟨(h.fresh id hid).absent, (h.fresh id hid).new, (h.fresh id hid).uncounted⟩
      · rcases List.mem_append.mp hsave with hold | hnew
        · exact (h.progress save hold).around
            ⟨le_refl _, fun _ _ _ => Iff.rfl, fun id _ hid => ⟨hid.absent, hid.new, hid.uncounted⟩⟩
        · obtain rfl := List.mem_singleton.mp hnew
          exact .idle rfl rfl (Or.inl rfl)
      · refine List.pairwise_append.mpr ⟨h.beside, List.pairwise_singleton _ _, ?_⟩
        intro other _ save hsave
        obtain rfl := List.mem_singleton.mp hsave
        exact ⟨fun id _ => (Option.some_ne_none id).symm, Overlay.apart_empty _⟩
  | click route blockId =>
    cases hs'
    have hsuccesses : ∀ id, Store.successes { s with
        clicks := s.clicks ++ [⟨route, blockId, .begun⟩] } id = s.successes id := by
      intro id
      rw [Store.successes, List.countP_append]
      simp [Store.successes]
    exact ⟨h.ofClicks (fun _ => rfl) fun id hid =>
        ⟨hid.absent, hid.new, (hsuccesses id).trans hid.uncounted⟩,
      fun hcounted => iff_of_true (fun id block hblock => (hcounted id block hblock).trans
        (congrArg (_ + ·) (hsuccesses id).symm)) trivial⟩
  | next i =>
    obtain ⟨save, hsave, hnext⟩ := Option.bind_eq_some_iff.mp hs'
    obtain ⟨⟨save', n⟩, hmoves, rfl⟩ := Option.map_eq_some_iff.mp hnext
    exact ⟨h.next hsave hmoves, fun hcounted =>
      iff_of_true (counted_saves.mpr hcounted) trivial⟩
  | fail i =>
    obtain ⟨save, hsave, rfl⟩ := Option.map_eq_some_iff.mp hs'
    exact ⟨h.close i save (le_refl _), fun hcounted =>
      iff_of_true (counted_saves.mpr hcounted) trivial⟩
  | proceed j =>
    obtain ⟨click, hclick, rfl⟩ := Option.map_eq_some_iff.mp hs'
    obtain ⟨hsound, hafter⟩ := sound_proceed h hclick
    exact ⟨hsound, fun hcounted => iff_of_true (hafter hcounted) trivial⟩
  | commit i =>
    obtain ⟨save, hsave, hcommit⟩ := Option.bind_eq_some_iff.mp hs'
    split at hcommit
    · next hmay =>
      cases hcommit
      refine ⟨h.commit hsave hmay, fun hcounted => (counted_commit h hsave hmay hcounted).trans ?_⟩
      rw [Uncrossed, hsave]
      simp
    · cases hcommit

/-- What cannot be done commits nothing. -/
theorem uncrossed_of_execute_eq_none (hs' : execute d s a = none) : Uncrossed s a := by
  cases a with
  | commit i =>
    intro save hsave
    have hmay : save.mayCommit ≠ true := by
      intro hmay
      rw [execute, Option.mem_def.mp hsave, Option.bind_some, if_pos hmay] at hs'
      cases hs'
    rw [Save.ReadLast]
    split
    · next hphase => simp [Save.mayCommit, hphase] at hmay
    all_goals exact trivial
  | _ => exact trivial

theorem step_cases (hs' : step d s a = some s') :
    execute d s a = some s' ∨ (execute d s a = none ∧ s' = s) :=
  eq_some_or_of_getD hs'

theorem sound_step (h : Sound start s) (hs' : step d s a = some s') :
    Sound start s' ∧ (Counted start s → (Counted start s' ↔ Uncrossed s a)) := by
  rcases step_cases hs' with hexecute | ⟨hnone, rfl⟩
  · exact sound_execute h hexecute
  · exact ⟨h, fun hcounted => iff_of_true hcounted (uncrossed_of_execute_eq_none hnone)⟩

end

theorem sound_of_initial {start : Store} (h : Initial start) :
    Sound start start ∧ Counted start start := by
  have hnone : ∀ id, start.successes id = 0 := fun id => by rw [Store.successes, h.clicks]; rfl
  refine ⟨⟨fun id hid => ⟨h.fresh id hid, h.fresh id hid, hnone id⟩, ?_, ?_⟩, ?_⟩
  · intro save hsave
    rw [h.saves] at hsave
    cases hsave
  · rw [h.saves]
    exact List.Pairwise.nil
  · intro id block hblock
    rw [hblock, hnone]
    rfl

/-- **The count of every block that was kept is what it was, and the clicks that reported success
for it, throughout a run, exactly when no click crosses a save that commits.** -/
theorem clicks_counted (d : Deployment) (start : Store) (hstart : Initial start)
    (actions : List Action) :
    (∀ pre post t, actions = pre ++ post → run (step d) start pre = some t → Counted start t) ↔
      Guarded (step d) Uncrossed start actions := by
  obtain ⟨hsound, hcounted⟩ := sound_of_initial hstart
  exact (guarded_iff_holds_throughout_of_invariant (fun _ _ => rfl)
    (fun _ _ _ h hs' => (sound_step h hs').1) (fun _ _ _ h hcounted hs' =>
      (sound_step h hs').2 hcounted) hsound hcounted).symm

/-! ### A click between the read and the delete -/

def sampleDeployment : Deployment := ⟨sampleEnvironment.p, fun _ => "snap.to", fun _ => true⟩

def linkContent (title : String) : BlockContent := ⟨"link", title, none, some "https://a.test", false⟩

/-- A page with one block, which has three clicks. -/
def onePage : Store where
  pages := fun id => if id = 0 then some ⟨"W1", "D1", "a", true⟩ else none
  blocks := fun id => if id = 1 then some ⟨0, 0, linkContent "Shop", none, 3⟩ else none
  nextId := 2
  saves := []
  clicks := []

theorem initial_onePage : Initial onePage := by
  refine ⟨rfl, rfl, fun id hid => if_neg ?_⟩
  change 2 ≤ id at hid
  omega

/-- The block is renamed. -/
def rename : Action :=
  .save promoState ⟨some 0, "snap.to", "a", true⟩ [⟨some 1, linkContent "Store"⟩]

/-- A click by the address of the page. -/
def visit : Action := .click (.address "snap.to" "a") 1

/-- A click that is over before the save reads, and one that waits for the save. -/
def clicksAround : List Action :=
  [rename, visit, .proceed 0, .proceed 0, .proceed 0, .next 0, .next 0, .next 0, .next 0,
    visit, .proceed 1, .proceed 1, .proceed 1, .next 0, .commit 0, .proceed 1]

/-- The click between the read of the save and its delete. -/
def clickCrossing : List Action :=
  [rename, .next 0, .next 0, .next 0, visit, .proceed 0, .proceed 0, .proceed 0, .next 0, .next 0,
    .commit 0]

/-- **The click that reported success is lost.** -/
theorem crossing_click_lost :
    ¬ ∀ (d : Deployment) (start : Store) (actions : List Action) (s : Store), Initial start →
      run (step d) start actions = some s → Counted start s := by
  intro h
  have hlost : (run (step sampleDeployment) onePage clickCrossing).any (fun s =>
      decide ((s.blocks 1).map (·.clicks) = some 3 ∧ s.successes 1 = 1)) = true := by
    decide +kernel
  obtain ⟨s, hrun, hstate⟩ := (Option.any_eq_true _ _).mp hlost
  obtain ⟨hclicks, hone⟩ := of_decide_eq_true hstate
  obtain ⟨block, hblock, hthree⟩ := Option.map_eq_some_iff.mp hclicks
  have hcounted := h sampleDeployment onePage clickCrossing s initial_onePage hrun 1 block hblock
  rw [hthree, hone] at hcounted
  exact absurd hcounted (by decide)

/-- The counts are right where no click crosses the save. -/
theorem clicks_counted_around :
    Guarded (step sampleDeployment) Uncrossed onePage clicksAround ∧
      ∀ pre post t, clicksAround = pre ++ post →
        run (step sampleDeployment) onePage pre = some t → Counted onePage t := by
  have huncrossed : Guarded (step sampleDeployment) Uncrossed onePage clicksAround := by
    decide +kernel
  exact ⟨huncrossed,
    (clicks_counted sampleDeployment onePage initial_onePage clicksAround).mpr huncrossed⟩

end SnapUrl.Bio.BlockClicks
