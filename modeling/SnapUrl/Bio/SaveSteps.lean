import SnapUrl.Bio.SaveInvariant

/-!
# The statements of a save

What each statement of a call keeps.

* `Moved`: what a statement may do to the transaction of its call.
* `inv_set`: **it takes nothing away from the other calls**.
* `progress_start`, `moved_savePage`, `moved_read`, `moved_execute`, `moved_deletePage`: one
  statement each.
-/

namespace SnapUrl.Bio.Saves

open Lib Links Links.Creation

/-! ### What steps leave -/

/-- A statement writes what was read, with the same owner, or a row with a new id. -/
structure Writes (s : Store) (t t' : Transaction) : Prop where
  pages : ∀ id page, t'.pages id = some (some page) → t.pages id = some (some page) ∨
    id = s.nextId ∨ ∃ old, t.pages.over s.pages id = some old ∧ page.workspaceId = old.workspaceId
  links : ∀ id link, t'.links id = some (some link) → t.links id = some (some link) ∨
    id = s.nextId ∨ ∃ old, t.links.over s.links id = some old ∧
      link.managedBioPageId = old.managedBioPageId

section

variable {d : Deployment} {s : Store} {i n : Nat} {t t' : Transaction}

/-- A row that a call sees is committed, or its own. -/
theorem version_of_over {ρ : Type} {w : Overlay ρ} {table : Table ρ} {id : Nat} {row : ρ}
    (h : w.over table id = some row) :
    (w id = none ∧ table id = some row) ∨ w id = some (some row) := by
  cases hid : w id with
  | none =>
    rw [Overlay.over_of_eq_none hid] at h
    exact Or.inl ⟨rfl, h⟩
  | some row' =>
    rw [Overlay.over_of_eq_some hid] at h
    exact Or.inr (congrArg some h)

theorem mem_of_mem_set {o : Transaction} (ho : o ∈ s.calls.set i t') : o = t' ∨ o ∈ s.calls :=
  (eq_or_mem_eraseIdx_of_mem_set ho).imp_right fun h => (List.eraseIdx_sublist _ i).subset h

/-- What a call writes of a row has what every version of it has. -/
theorem allVersions_set {ρ : Type} {table : Table ρ} {sel : Transaction → Overlay ρ} {id : Nat}
    {q : ρ → Prop} (h : AllVersions table (s.calls.map sel) id q)
    (hnew : ∀ row, sel t' id = some (some row) → q row) :
    AllVersions table ((s.calls.set i t').map sel) id q := by
  refine ⟨h.1, fun w hw row hrow => ?_⟩
  obtain ⟨o, ho, rfl⟩ := List.mem_map.mp hw
  rcases mem_of_mem_set ho with rfl | ho
  · exact hnew row hrow
  · exact h.2 _ (List.mem_map_of_mem ho) row hrow

/-- What a statement writes of a row, given what its versions have. -/
theorem holds_of_writes {ρ : Type} {w w' : Overlay ρ} {table : Table ρ} {sel : Transaction → Overlay ρ}
    {id : Nat} {q : ρ → Prop} {R : ρ → ρ → Prop} {row : ρ}
    (h : AllVersions table (s.calls.map sel) id q) (hw : w ∈ s.calls.map sel)
    (hid : id < s.nextId) (hq : ∀ a b, R a b → q b → q a)
    (hrow : w' id = some (some row) → w id = some (some row) ∨ id = s.nextId ∨
      ∃ old, w.over table id = some old ∧ R row old)
    (hwritten : w' id = some (some row)) : q row := by
  rcases hrow hwritten with hold | hnew | ⟨old, hover, hsame⟩
  · exact h.2 w hw row hold
  · exact absurd hnew hid.ne
  · refine hq row old hsame ?_
    rcases version_of_over hover with ⟨-, hcommitted⟩ | hown
    · exact h.1 old hcommitted
    · exact h.2 w hw old hown

theorem grows_set (ht : s.calls[i]? = some t) (hle : s.nextId ≤ n) (hw : Writes s t t') :
    Grows s (s.set i t' n) := by
  have hmem := List.mem_of_getElem? ht
  have hpages : t.pages ∈ s.calls.map (·.pages) := List.mem_map_of_mem hmem
  have hlinks : t.links ∈ s.calls.map (·.links) := List.mem_map_of_mem hmem
  refine ⟨hle, ?_, ?_, ?_, ?_⟩
  · intro id owner hid h
    refine allVersions_set h fun row hrow => ?_
    exact holds_of_writes (q := fun link : Link => link.managedBioPageId = owner)
      (R := fun a b => a.managedBioPageId = b.managedBioPageId) h hlinks hid
      (fun _ _ hab hb => hab.trans hb) (hw.links id row) hrow
  · intro id workspaceId hid h
    refine allVersions_set h fun row hrow => ?_
    exact holds_of_writes (q := fun page : Page => page.workspaceId = workspaceId)
      (R := fun a b => a.workspaceId = b.workspaceId) h hpages hid
      (fun _ _ hab hb => hab.trans hb) (hw.pages id row) hrow
  · intro id hid h
    refine allVersions_set h fun row hrow => ?_
    exact holds_of_writes (R := fun a b => a.workspaceId = b.workspaceId) h hpages hid
      (fun _ _ _ hb => hb) (hw.pages id row) hrow
  · rintro id ⟨hid, hknown⟩
    refine ⟨hid.trans_le hle, fun o ho page hpage => ?_⟩
    rcases mem_of_mem_set ho with rfl | ho
    · rcases hw.pages id page hpage with hold | hnew | ⟨old, hover, -⟩
      · exact hknown t hmem page hold
      · exact absurd hnew hid.ne
      · rcases version_of_over hover with ⟨-, hcommitted⟩ | hown
        · exact Option.isSome_iff_exists.mpr ⟨old, hcommitted⟩
        · exact hknown t hmem old hown
    · exact hknown o ho page hpage

theorem beside_others (h : Inv d s) (ht : s.calls[i]? = some t) :
    ∀ o ∈ s.calls.eraseIdx i, Beside t o :=
  pairwise_others (fun hb => hb.symm) h.beside ht

theorem mem_of_others {o : Transaction} (ho : o ∈ s.calls.eraseIdx i) : o ∈ s.calls :=
  (List.eraseIdx_sublist _ i).subset ho

theorem allVersions_commit {ρ : Type} {table : Table ρ} {sel : Transaction → Overlay ρ} {id : Nat}
    {q : ρ → Prop} (ht : s.calls[i]? = some t) (hclose : sel t.close = Overlay.empty)
    (h : AllVersions table (s.calls.map sel) id q) :
    AllVersions ((sel t).over table) ((s.calls.set i t.close).map sel) id q := by
  refine h.over (List.mem_map_of_mem (List.mem_of_getElem? ht)) fun w hw => ?_
  obtain ⟨o, ho, rfl⟩ := List.mem_map.mp hw
  rcases mem_of_mem_set ho with rfl | ho
  · exact Or.inr hclose
  · exact Or.inl (List.mem_map_of_mem ho)

theorem grows_commit (h : Inv d s) (ht : s.calls[i]? = some t) : Grows s (s.commit i t) := by
  refine ⟨le_rfl, fun _ _ _ hv => allVersions_commit ht rfl hv,
    fun _ _ _ hv => allVersions_commit ht rfl hv, fun _ _ hv => allVersions_commit ht rfl hv, ?_⟩
  rintro id ⟨hid, hknown⟩
  refine ⟨hid, fun o ho page hpage => ?_⟩
  rcases eq_or_mem_eraseIdx_of_mem_set ho with rfl | ho
  · cases hpage
  · have hsome := hknown o (mem_of_others ho) page hpage
    have hnone : t.pages id = none :=
      ((beside_others h ht o ho).pages id).resolve_right (by rw [hpage]; exact Option.some_ne_none _)
    change (t.pages.over s.pages id).isSome = true
    rw [Overlay.over_of_eq_none hnone]
    exact hsome

theorem grows_add (call : Call) : Grows s (s.add call) := by
  have hversions {ρ : Type} {table : Table ρ} {sel : Transaction → Overlay ρ} {id : Nat}
      {q : ρ → Prop} (hbegin : sel (.begin call) = Overlay.empty)
      (h : AllVersions table (s.calls.map sel) id q) :
      AllVersions table ((s.calls ++ [Transaction.begin call]).map sel) id q := by
    refine ⟨h.1, fun w hw row hrow => ?_⟩
    obtain ⟨o, ho, rfl⟩ := List.mem_map.mp hw
    rcases List.mem_append.mp ho with hold | hnew
    · exact h.2 _ (List.mem_map_of_mem hold) row hrow
    · rw [List.mem_singleton.mp hnew, hbegin] at hrow
      cases hrow
  refine ⟨le_rfl, fun _ _ _ hv => hversions rfl hv, fun _ _ _ hv => hversions rfl hv,
    fun _ _ hv => hversions rfl hv, ?_⟩
  rintro id ⟨hid, hknown⟩
  refine ⟨hid, fun o ho page hpage => ?_⟩
  rcases List.mem_append.mp ho with hold | hnew
  · exact hknown o hold page hpage
  · rw [List.mem_singleton.mp hnew] at hpage
    cases hpage

/-! ### One call moves -/

/-- What a statement may do to the transaction of its call. -/
structure Moved (d : Deployment) (s : Store) (i : Nat) (t t' : Transaction) (n : Nat) : Prop where
  le : s.nextId ≤ n
  writes : Writes s t t'
  beside : ∀ o ∈ s.calls.eraseIdx i, Beside t' o
  fresh : Fresh t' n
  sound : Sound d s t'

theorem inv_set (h : Inv d s) (ht : s.calls[i]? = some t) (hm : Moved d s i t t' n) :
    Inv d (s.set i t' n) := by
  have hgrows := grows_set ht hm.le hm.writes
  refine ⟨h.inStep, fun id hid => h.pagesFresh id (hm.le.trans hid),
    fun id hid => h.linksFresh id (hm.le.trans hid), ?_, ?_, ?_⟩
  · intro o ho
    rcases mem_of_mem_set ho with rfl | ho
    · exact hm.fresh
    · exact fun id hid => h.fresh o ho id (hm.le.trans hid)
  · exact pairwise_set (fun hb => hb.symm) h.beside hm.beside
  · intro o ho
    have hsound : Sound d s o := by
      rcases mem_of_mem_set ho with rfl | ho
      · exact hm.sound
      · exact h.sound o ho
    exact hsound.around hgrows ⟨fun _ _ => rfl, fun _ _ => rfl, id, fun _ _ _ ho => ho⟩

/-- A statement that writes no row. -/
theorem moved_same (h : Inv d s) (ht : s.calls[i]? = some t) (hcall : t'.call = t.call)
    (hpages : t'.pages = t.pages) (hlinks : t'.links = t.links)
    (henqueued : ∀ op ∈ t.enqueued, op ∈ t'.enqueued)
    (hannounced : ∀ pageId todo, t'.phase = .working pageId todo → Announced t'.enqueued todo)
    (hprogress : Progress d s t') : Moved d s i t t' s.nextId := by
  have hmem := List.mem_of_getElem? ht
  have hs := h.sound t hmem
  refine ⟨le_rfl, ⟨?_, ?_⟩, ?_, ?_, ?_⟩
  · exact fun id page hpage => Or.inl (hpages ▸ hpage)
  · exact fun id link hlink => Or.inl (hlinks ▸ hlink)
  · intro o ho
    have hb := beside_others h ht o ho
    exact ⟨hpages ▸ hb.pages, hlinks ▸ hb.links, hlinks ▸ hb.keys⟩
  · intro id hid
    rw [hpages, hlinks]
    exact h.fresh t hmem id hid
  · exact ⟨hcall ▸ hs.named, hlinks ▸ hs.unique, hlinks ▸ hs.linkKept, hpages ▸ hs.pageKept,
      fun id hid => henqueued _ (hs.deleted id (hlinks ▸ hid)), hannounced, hprogress⟩

/-! ### The first read -/

theorem lt_of_page (h : Inv d s) {id : Nat} {page : Page} (hpage : s.pages id = some page) :
    id < s.nextId := by
  by_contra hid
  rw [h.pagesFresh id (Nat.le_of_not_lt hid)] at hpage
  cases hpage

theorem lt_of_link (h : Inv d s) {id : Nat} {link : Link} (hlink : s.links id = some link) :
    id < s.nextId := by
  by_contra hid
  rw [h.linksFresh id (Nat.le_of_not_lt hid)] at hlink
  cases hlink

/-- Every version of a link has the owner of the committed one. -/
theorem linkVersions (h : Inv d s) {id : Nat} {link : Link} (hlink : s.links id = some link) :
    s.LinkVersions id (·.managedBioPageId = link.managedBioPageId) := by
  refine ⟨fun row hrow => ?_, fun w hw row hrow => ?_⟩
  · rw [Option.some.inj (hrow.symm.trans hlink)]
  · obtain ⟨o, ho, rfl⟩ := List.mem_map.mp hw
    exact ((h.sound o ho).linkKept id row link hrow hlink).2

/-- Every version of a page is of the workspace of the committed one. -/
theorem pageVersions (h : Inv d s) {id : Nat} {page : Page} (hpage : s.pages id = some page) :
    s.PageVersions id (·.workspaceId = page.workspaceId) := by
  refine ⟨fun row hrow => ?_, fun w hw row hrow => ?_⟩
  · rw [Option.some.inj (hrow.symm.trans hpage)]
  · obtain ⟨o, ho, rfl⟩ := List.mem_map.mp hw
    exact (h.sound o ho).pageKept id row page hrow hpage

theorem pageKnown (h : Inv d s) {id : Nat} {page : Page} (hpage : s.pages id = some page) :
    s.PageKnown id := by
  refine ⟨lt_of_page h hpage, fun _ _ _ _ => ?_⟩
  rw [hpage]
  rfl

theorem mem_deleteLink {linkId : Nat} {statement : LinkStatement}
    (h : statement ∈ deleteLink linkId) :
    statement = .enqueue linkId .delete ∨ statement = .delete linkId := by
  rcases List.mem_cons.mp h with h | h
  · exact Or.inl h
  · exact Or.inr (List.mem_singleton.mp h)

theorem confined_empty (links : Table Link) (owner : Option Nat) :
    Confined links .empty owner := fun _ hid => absurd rfl hid

/-- **What a call reads first.** -/
theorem progress_start (h : Inv d s) (hpages : t.pages = .empty) (hlinks : t.links = .empty) :
    Progress d s { t with phase := s.start t.call } := by
  cases hcall : t.call with
  | save workspaceId domain input =>
    dsimp only [Store.start]
    split
    · rename_i pageId hfound
      cases pageId with
      | none => exact .idle hpages hlinks (Or.inr (Or.inl rfl))
      | some id =>
        obtain ⟨page, hpage⟩ := isSome_of_findPage hfound
        exact .found id rfl hpages hlinks (pageKnown h hpage)
    · exact .idle hpages hlinks (Or.inr (Or.inr (Or.inr rfl)))
  | remove workspaceId pageId =>
    dsimp only [Store.start]
    split
    · rename_i page hpage
      split
      · rename_i hworkspace
        have hversions : s.PageVersions pageId (·.workspaceId = workspaceId) :=
          hworkspace ▸ pageVersions h hpage
        have hconfined : Confined s.links t.links (some pageId) :=
          hlinks ▸ confined_empty s.links (some pageId)
        have hdrops : ∀ linkId row, t.links linkId = some row →
            row = none ∧ (s.links linkId).isSome = true := by
          intro linkId row hrow
          rw [hlinks] at hrow
          cases hrow
        split
        · rename_i linkId link hfound
          obtain ⟨hlt, hlink, howner⟩ := Table.find?_eq_some hfound
          refine .removing workspaceId pageId _ rfl rfl hpages hconfined hdrops
            (lt_of_page h hpage) hversions ?_ fun statement hst => ⟨linkId, mem_deleteLink hst⟩
          intro other hother
          rcases mem_deleteLink hother with heq | heq
          · cases heq
          · obtain rfl := LinkStatement.delete.inj heq
            exact ⟨hlt, of_decide_eq_true howner ▸ linkVersions h hlink⟩
        · exact .removing workspaceId pageId _ rfl rfl hpages hconfined hdrops
            (lt_of_page h hpage) hversions (fun _ hother => absurd hother List.not_mem_nil)
            fun _ hst => absurd hst List.not_mem_nil
      · exact .idle hpages hlinks (Or.inr (Or.inr (Or.inr rfl)))
    · exact .idle hpages hlinks (Or.inr (Or.inr (Or.inr rfl)))
  | create workspaceId domainId slug destination =>
    refine .user _ (fun _ _ hremove => ?_) rfl hpages (hlinks ▸ confined_empty s.links none) ?_ ?_
    · cases hremove
    · intro id hid
      simp at hid
    · intro id destination' hid
      simp at hid
  | removeLink workspaceId linkId =>
    dsimp only [Store.start]
    split
    · rename_i link hlink
      split
      · rename_i hfound
        refine .user _ (fun _ _ hremove => ?_) rfl hpages (hlinks ▸ confined_empty s.links none)
          ?_ ?_
        · cases hremove
        · intro other hother
          rcases mem_deleteLink hother with heq | heq
          · cases heq
          · obtain rfl := LinkStatement.delete.inj heq
            exact ⟨lt_of_link h hlink, hfound.2 ▸ linkVersions h hlink⟩
        · intro other destination hother
          rcases mem_deleteLink hother with heq | heq
          · cases heq
          · cases heq
      · exact .idle hpages hlinks (Or.inr (Or.inr (Or.inr rfl)))
    · exact .idle hpages hlinks (Or.inr (Or.inr (Or.inr rfl)))

theorem announced_start (s : Store) (call : Call) {enqueued : List (Nat × ProjectionOperation)}
    {pageId : Option Nat} {todo : List LinkStatement} (h : s.start call = .working pageId todo) :
    Announced enqueued todo := by
  cases call with
  | save workspaceId domain input =>
    simp only [Store.start] at h
    split at h
    · cases h
    · cases h
  | remove workspaceId id =>
    simp only [Store.start] at h
    split at h
    · split at h
      · split at h
        · cases h
          exact announced_deleteLink enqueued _ fun _ => trivial
        · cases h
          exact trivial
      · cases h
    · cases h
  | create workspaceId domainId slug destination =>
    cases h
    exact fun _ => trivial
  | removeLink workspaceId linkId =>
    simp only [Store.start] at h
    split at h
    · split at h
      · cases h
        exact announced_deleteLink enqueued _ fun _ => trivial
      · cases h
    · cases h

/-! ### Statements on pages -/

/-- A statement that writes one page. -/
theorem moved_page {id : Nat} {row : Option Page} (h : Inv d s) (ht : s.calls[i]? = some t)
    (hpages : t'.pages = t.pages.put id row) (hsame : t'.call = t.call ∧ t'.links = t.links ∧
      t'.enqueued = t.enqueued) (hunlocked : pageUnlocked (s.calls.eraseIdx i) id = true)
    (hn : s.nextId ≤ n) (hid : id < n)
    (hrow : ∀ page, row = some page → id = s.nextId ∨
      ∃ old, s.pages id = some old ∧ t.pages id = none ∧ page.workspaceId = old.workspaceId)
    (hphase : ∀ pageId todo, t'.phase ≠ .working pageId todo) (hprogress : Progress d s t') :
    Moved d s i t t' n := by
  obtain ⟨hcall, hlinks, henqueued⟩ := hsame
  have hmem := List.mem_of_getElem? ht
  have hs := h.sound t hmem
  refine ⟨hn, ⟨fun other page hpage => ?_, fun other link hlink => Or.inl (hlinks ▸ hlink)⟩, ?_, ?_,
    ?_⟩
  · rw [hpages] at hpage
    by_cases hother : other = id
    · subst hother
      rw [Overlay.put_self] at hpage
      rcases hrow page (Option.some.inj hpage) with hnew | ⟨old, hold, hfree, hworkspace⟩
      · exact Or.inr (Or.inl hnew)
      · exact Or.inr (Or.inr ⟨old, by rw [Overlay.over_of_eq_none hfree]; exact hold, hworkspace⟩)
    · rw [Overlay.put_of_ne row hother] at hpage
      exact Or.inl hpage
  · intro o ho
    have hb := beside_others h ht o ho
    have hfree : o.pages id = none :=
      Option.isNone_iff_eq_none.mp (List.all_eq_true.mp hunlocked o ho)
    exact ⟨hpages ▸ hb.pages.put hfree row, hlinks ▸ hb.links, hlinks ▸ hb.keys⟩
  · intro other hother
    obtain ⟨hfirst, hsecond⟩ := h.fresh t hmem other (hn.trans hother)
    rw [hpages, hlinks, Overlay.put_of_ne row (hid.trans_le hother).ne']
    exact ⟨hfirst, hsecond⟩
  · refine ⟨hcall ▸ hs.named, hlinks ▸ hs.unique, hlinks ▸ hs.linkKept, ?_,
      fun other hother => henqueued ▸ hs.deleted other (hlinks ▸ hother),
      fun pageId todo hworking => absurd hworking (hphase pageId todo), hprogress⟩
    intro other page old hpage hold
    rw [hpages] at hpage
    by_cases hother : other = id
    · subst hother
      rw [Overlay.put_self] at hpage
      rcases hrow page (Option.some.inj hpage) with hnew | ⟨old', hold', -, hworkspace⟩
      · rw [h.pagesFresh other hnew.ge] at hold
        cases hold
      · rw [Option.some.inj (hold.symm.trans hold')]
        exact hworkspace
    · rw [Overlay.put_of_ne row hother] at hpage
      exact hs.pageKept other page old hpage hold

/-- **A save writes its page.** -/
theorem moved_writePage {workspaceId : String} {domain : DomainRow} {input : UpsertBioPageInput}
    {id : Nat} {page : Page} (h : Inv d s) (ht : s.calls[i]? = some t)
    (hcall : t.call = .save workspaceId domain input) (hpages : t.pages = .empty)
    (hlinks : t.links = .empty) (hn : s.nextId ≤ n) (hid : id < n)
    (hrow : id = s.nextId ∨ ∃ old, s.pages id = some old ∧ page.workspaceId = old.workspaceId)
    (hwritten : Written domain input page)
    (hwrite : t.writePage s (s.calls.eraseIdx i) id page = some t') : Moved d s i t t' n := by
  rw [Transaction.writePage] at hwrite
  split at hwrite
  · rename_i hfree
    rw [Bool.and_eq_true] at hfree
    cases hwrite
    refine moved_page h ht rfl ⟨rfl, rfl, rfl⟩ hfree.1 hn hid ?_ (fun _ _ hphase => by cases hphase)
      ?_
    · intro page' hpage'
      obtain rfl := Option.some.inj hpage'
      refine hrow.imp_right fun ⟨old, hold, hworkspace⟩ => ⟨old, hold, ?_, hworkspace⟩
      rw [hpages]
      rfl
    · refine .saved workspaceId domain input id page hcall rfl ?_ hlinks hwritten
      dsimp only
      rw [hpages]
  · cases hwrite

theorem written_savedPage (domain : DomainRow) (input : UpsertBioPageInput) (page : Page) :
    Written domain input (savedPage domain input page) := by
  rw [savedPage]
  split
  · exact ⟨rfl, fun _ => rfl⟩
  · rename_i hid
    exact ⟨rfl, fun hsome => absurd hsome hid⟩

theorem workspaceId_savedPage (domain : DomainRow) (input : UpsertBioPageInput) (page : Page) :
    (savedPage domain input page).workspaceId = page.workspaceId := by
  rw [savedPage]
  split
  · rfl
  · rfl

/-- **The page of a save is written**, or was removed meanwhile. -/
theorem moved_savePage {workspaceId : String} {domain : DomainRow} {input : UpsertBioPageInput}
    {pageId : Option Nat} (h : Inv d s) (ht : s.calls[i]? = some t)
    (hcall : t.call = .save workspaceId domain input) (hphase : t.phase = .found pageId)
    (hsave : t.savePage s (s.calls.eraseIdx i) workspaceId domain input pageId = some (t', n)) :
    Moved d s i t t' n := by
  have hmem := List.mem_of_getElem? ht
  have hempty : t.pages = .empty ∧ t.links = .empty ∧
      ∀ id, pageId = some id → s.PageKnown id := by
    cases (h.sound t hmem).progress with
    | idle pages links phase =>
      refine ⟨pages, links, fun id hid => ?_⟩
      rw [hphase, hid] at phase
      simp at phase
    | found id phase pages links known =>
      refine ⟨pages, links, fun id' hid' => ?_⟩
      rw [hphase, hid'] at phase
      obtain rfl := Option.some.inj (Phase.found.inj phase)
      exact known
    | _ => simp_all
  obtain ⟨hpages, hlinks, hknown⟩ := hempty
  cases pageId with
  | none =>
    obtain ⟨t'', hwrite, heq⟩ := Option.map_eq_some_iff.mp hsave
    obtain ⟨rfl, rfl⟩ := Prod.mk.inj heq
    exact moved_writePage h ht hcall hpages hlinks (Nat.le_succ _) (Nat.lt_succ_self _) (Or.inl rfl)
      ⟨rfl, fun _ => rfl⟩ hwrite
  | some id =>
    have hknown := hknown id rfl
    have hover : t.pages.over s.pages = s.pages := by rw [hpages, Overlay.over_empty]
    rw [Transaction.savePage] at hsave
    split at hsave
    · rename_i hgone
      rw [hover] at hgone
      cases hsave
      refine moved_same h ht rfl rfl rfl (fun _ hop => hop) (fun _ _ hworking => by cases hworking)
        (.missed workspaceId domain input id hcall hpages hlinks hknown.1 ⟨?_, ?_⟩ (Or.inl rfl))
      · intro page hpage
        rw [hgone] at hpage
        cases hpage
      · intro w hw page hpage
        obtain ⟨o, ho, rfl⟩ := List.mem_map.mp hw
        have hsome := hknown.2 o ho page hpage
        rw [hgone] at hsome
        cases hsome
    · rename_i page hpage
      rw [hover] at hpage
      obtain ⟨t'', hwrite, heq⟩ := Option.map_eq_some_iff.mp hsave
      obtain ⟨rfl, rfl⟩ := Prod.mk.inj heq
      exact moved_writePage h ht hcall hpages hlinks le_rfl hknown.1
        (Or.inr ⟨page, hpage, workspaceId_savedPage domain input page⟩)
        (written_savedPage domain input page) hwrite

/-! ### The read of the link -/

/-- A page owns one link or none, in tables that are in step. -/
theorem owns_of_inStep {pages : Table Page} {links : Table Link} (h : InStep d pages links)
    (id : Nat) : ∃ owned, Owns links id owned := by
  cases hpage : pages id with
  | none => exact ⟨none, h.removed id hpage⟩
  | some page =>
    cases hlive : page.live with
    | false => exact ⟨none, h.draft id page hpage hlive⟩
    | true =>
      obtain ⟨linkId, link, howns, -⟩ := h.live id page hpage hlive
      exact ⟨some (linkId, link), howns⟩

/-- What a call sees of a link has an id that was given out. -/
theorem lt_of_over (h : Inv d s) (ht : t ∈ s.calls) {id : Nat} {link : Link}
    (hlink : t.links.over s.links id = some link) : id < s.nextId := by
  rcases version_of_over hlink with ⟨-, hcommitted⟩ | hown
  · exact lt_of_link h hcommitted
  · by_contra hid
    rw [(h.fresh t ht id (Nat.le_of_not_lt hid)).2] at hown
    cases hown

/-- The read finds the link that the page owns. -/
theorem ownedLink_eq (h : Inv d s) (ht : t ∈ s.calls) {id : Nat} {owned : Option (Nat × Link)}
    (howns : Owns (t.links.over s.links) id owned) : ownedLink s t id = owned := by
  cases hfound : ownedLink s t id with
  | some found =>
    obtain ⟨-, hlink, howner⟩ := Table.find?_eq_some hfound
    exact ((howns found.1 found.2).mp ⟨hlink, of_decide_eq_true howner⟩).symm
  | none =>
    cases owned with
    | none => rfl
    | some found =>
      obtain ⟨hlink, howner⟩ := (howns found.1 found.2).mpr rfl
      have := Table.find?_eq_none hfound (lt_of_over h ht hlink) hlink
      simp [howner] at this

theorem owns_none_of_ownedLink (h : Inv d s) (ht : t ∈ s.calls) {id : Nat}
    (hfound : ownedLink s t id = none) : Owns (t.links.over s.links) id none := by
  intro linkId link
  refine iff_of_false ?_ (Option.some_ne_none (linkId, link)).symm
  rintro ⟨hlink, howner⟩
  have := Table.find?_eq_none hfound (lt_of_over h ht hlink) hlink
  simp [howner] at this

/-- **The link is read**, and the statements that are left bring it in step. -/
theorem moved_read {workspaceId : String} {domain : DomainRow} {input : UpsertBioPageInput}
    {pageId : Nat} (h : Inv d s) (ht : s.calls[i]? = some t)
    (hcall : t.call = .save workspaceId domain input) (hphase : t.phase = .saved pageId) :
    Moved d s i t { t with phase := .working (some pageId) (reconcileManagedLink d.webOrigin
      (saveArgs workspaceId domain input pageId) ((ownedLink s t pageId).map ownedOf)) }
      s.nextId := by
  have hmem := List.mem_of_getElem? ht
  refine moved_same h ht rfl rfl rfl (fun _ hop => hop) ?_ ?_
  · intro pageId' todo hworking
    obtain ⟨-, rfl⟩ := Phase.working.inj hworking
    exact announced_reconcile _ _ _ _
  · obtain ⟨owned, howns⟩ := owns_of_inStep h.inStep pageId
    cases (h.sound t hmem).progress with
    | missed workspaceId' domain' input' id call pages links known gone phase =>
      obtain rfl : pageId = id := by simpa [hphase] using phase
      have hnone : ownedLink s t pageId = none := by
        refine ownedLink_eq h hmem ?_
        rw [links, Overlay.over_empty]
        refine h.inStep.removed pageId ?_
        exact Option.eq_none_iff_forall_ne_some.mpr fun page hpage => gone.1 page hpage
      refine .missed workspaceId' domain' input' pageId call pages links known gone (Or.inr ?_)
      rw [hnone, Option.map_none, reconcileManagedLink]
      split
      · exact Or.inl rfl
      · exact Or.inr ⟨_, rfl⟩
    | saved workspaceId' domain' input' id page call phase pages links written =>
      obtain rfl : pageId = id := Phase.saved.inj (hphase.symm.trans phase)
      have hview : Owns (t.links.over s.links) pageId owned := by
        rw [links, Overlay.over_empty]
        exact howns
      obtain ⟨-, rfl, rfl⟩ := Call.save.inj (hcall.symm.trans call)
      rw [ownedLink_eq h hmem hview]
      exact .working workspaceId domain input pageId page owned _ hcall rfl pages written
        (links ▸ confined_empty s.links _) hview (pending_reconcile d _ owned)
    | _ => simp_all

/-! ### Statements on links -/

/-- The row that a statement writes over one that it sees, or a new one under a free key. -/
def Allowed (s : Store) (others : List Transaction) (t : Transaction) (id : Nat) (link : Link) :
    Prop :=
  (id = s.nextId ∧ linkKeyFree s others t link.key = true) ∨
    ∃ old, t.links.over s.links id = some old ∧ link.key = old.key ∧
      link.managedBioPageId = old.managedBioPageId

/-- A new key is no other call's. -/
theorem key_ne_of_linkKeyFree {others : List Transaction} {key : String × String}
    (hfree : linkKeyFree s others t key = true) {o : Transaction} (ho : o ∈ others)
    (hfresh : Fresh o s.nextId) {id : Nat} {link : Link} (hlink : o.links id = some (some link)) :
    link.key ≠ key := by
  rw [linkKeyFree, Bool.and_eq_true] at hfree
  have hnone := Option.isNone_iff_eq_none.mp (List.all_eq_true.mp hfree.2 o ho)
  have hid : id < s.nextId := by
    by_contra hid
    rw [(hfresh id (Nat.le_of_not_lt hid)).2] at hlink
    cases hlink
  have hrow : o.links.rows id = some link := by
    rw [Overlay.rows, hlink]
    rfl
  simpa using Table.find?_eq_none hnone hid hrow

/-- **A statement that writes one link.** -/
theorem moved_link {id : Nat} {row : Option Link} (h : Inv d s) (ht : s.calls[i]? = some t)
    (hlinks : t'.links = t.links.put id row) (hsame : t'.call = t.call ∧ t'.pages = t.pages ∧
      t'.enqueued = t.enqueued) (hunlocked : ∀ o ∈ s.calls.eraseIdx i, o.links id = none)
    (hn : s.nextId ≤ n) (hid : id < n)
    (hrow : ∀ link, row = some link → Allowed s (s.calls.eraseIdx i) t id link)
    (hdeleted : row = none → (id, .delete) ∈ t.enqueued)
    (hannounced : ∀ pageId todo, t'.phase = .working pageId todo → Announced t'.enqueued todo)
    (hprogress : Progress d s t') : Moved d s i t t' n := by
  obtain ⟨hcall, hpages, henqueued⟩ := hsame
  have hmem := List.mem_of_getElem? ht
  have hs := h.sound t hmem
  refine ⟨hn, ⟨fun other page hpage => Or.inl (hpages ▸ hpage), fun other link hlink => ?_⟩, ?_, ?_,
    ?_⟩
  · rw [hlinks] at hlink
    by_cases hother : other = id
    · subst hother
      rw [Overlay.put_self] at hlink
      rcases hrow link (Option.some.inj hlink) with hnew | ⟨old, hold, -, howner⟩
      · exact Or.inr (Or.inl hnew.1)
      · exact Or.inr (Or.inr ⟨old, hold, howner⟩)
    · rw [Overlay.put_of_ne row hother] at hlink
      exact Or.inl hlink
  · intro o ho
    have hb := beside_others h ht o ho
    refine ⟨hpages ▸ hb.pages, hlinks ▸ hb.links.put (hunlocked o ho) row, ?_⟩
    intro a b link link' ha hb' hkey
    rw [hlinks] at ha
    by_cases hother : a = id
    · subst hother
      rw [Overlay.put_self] at ha
      rcases hrow link (Option.some.inj ha) with ⟨-, hfree⟩ | ⟨old, hold, hsamekey, -⟩
      · exact key_ne_of_linkKeyFree hfree ho (h.fresh o (mem_of_others ho)) hb' hkey.symm
      · rcases version_of_over hold with ⟨-, hcommitted⟩ | hown
        · -- the other call sees both rows under one key
          have hview : o.links.over s.links a = some old := by
            rw [Overlay.over_of_eq_none (hunlocked o ho)]
            exact hcommitted
          obtain rfl := (h.sound o (mem_of_others ho)).unique a b old link' hview
            (Overlay.over_of_eq_some hb') (hsamekey.symm.trans hkey)
          rw [hunlocked o ho] at hb'
          cases hb'
        · exact hb.keys a b old link' hown hb' (hsamekey.symm.trans hkey)
    · rw [Overlay.put_of_ne row hother] at ha
      exact hb.keys a b link link' ha hb' hkey
  · intro other hother
    obtain ⟨hfirst, hsecond⟩ := h.fresh t hmem other (hn.trans hother)
    rw [hpages, hlinks, Overlay.put_of_ne row (hid.trans_le hother).ne']
    exact ⟨hfirst, hsecond⟩
  · refine ⟨hcall ▸ hs.named, ?_, ?_, hpages ▸ hs.pageKept, ?_, hannounced, hprogress⟩
    · rw [hlinks]
      refine Overlay.unique_put hs.unique fun link hlink other other' hother hview => ?_
      rcases hrow link hlink with ⟨-, hfree⟩ | ⟨old, hold, hsamekey, -⟩
      · rw [linkKeyFree, Bool.and_eq_true, Option.isNone_iff_eq_none] at hfree
        simpa using Table.find?_eq_none hfree.1 (lt_of_over h hmem hview) hview
      · intro hkey
        exact hother (hs.unique other id other' old hview hold (hkey.trans hsamekey))
    · intro other link old hlink hold
      rw [hlinks] at hlink
      by_cases hother : other = id
      · subst hother
        rw [Overlay.put_self] at hlink
        rcases hrow link (Option.some.inj hlink) with ⟨hnew, -⟩ | ⟨seen, hseen, hkey, howner⟩
        · rw [h.linksFresh other hnew.ge] at hold
          cases hold
        · rcases version_of_over hseen with ⟨-, hcommitted⟩ | hown
          · rw [Option.some.inj (hold.symm.trans hcommitted)]
            exact ⟨hkey, howner⟩
          · obtain ⟨hkey', howner'⟩ := hs.linkKept other seen old hown hold
            exact ⟨hkey.trans hkey', howner.trans howner'⟩
      · rw [Overlay.put_of_ne row hother] at hlink
        exact hs.linkKept other link old hlink hold
    · intro other hother
      rw [hlinks] at hother
      rw [henqueued]
      by_cases hid' : other = id
      · subst hid'
        rw [Overlay.put_self] at hother
        exact hdeleted (Option.some.inj hother)
      · rw [Overlay.put_of_ne row hid'] at hother
        exact hs.deleted other hother

theorem unlocked_of_linkUnlocked {others : List Transaction} {id : Nat}
    (h : linkUnlocked others id = true) : ∀ o ∈ others, o.links id = none :=
  fun o ho => Option.isNone_iff_eq_none.mp (List.all_eq_true.mp h o ho)

/-- What a page owns once its link is gone. -/
theorem owns_put_none {w : Overlay Link} {links : Table Link} {id pageId : Nat} {link : Link}
    (h : Owns (w.over links) pageId (some (id, link))) :
    Owns ((w.put id none).over links) pageId none := by
  intro other other'
  refine iff_of_false ?_ (Option.some_ne_none _).symm
  rintro ⟨hview, howner⟩
  by_cases hother : other = id
  · rw [hother, Overlay.over_put_self] at hview
    cases hview
  · rw [Overlay.over_put_of_ne none hother] at hview
    have hsame := (h other other').mp ⟨hview, howner⟩
    exact hother (congrArg Prod.fst (Option.some.inj hsame)).symm

/-- What a page owns once a link of its own is written where it has no other. -/
theorem owns_put_some {w : Overlay Link} {links : Table Link} {id pageId : Nat} {link : Link}
    (howner : link.managedBioPageId = some pageId)
    (h : ∀ other other', other ≠ id → w.over links other = some other' →
      other'.managedBioPageId ≠ some pageId) :
    Owns ((w.put id (some link)).over links) pageId (some (id, link)) := by
  intro other other'
  constructor
  · rintro ⟨hview, howner'⟩
    by_cases hother : other = id
    · rw [hother, Overlay.over_put_self] at hview
      rw [hother, Option.some.inj hview]
    · rw [Overlay.over_put_of_ne _ hother] at hview
      exact absurd howner' (h other other' hother hview)
  · intro hsame
    obtain ⟨rfl, rfl⟩ := Prod.mk.inj (Option.some.inj hsame)
    exact ⟨Overlay.over_put_self w links id _, howner⟩

/-- A call that touches one more link of the same owner. -/
theorem confined_put {links : Table Link} {w : Overlay Link} {owner : Option Nat} {id : Nat}
    {row : Option Link} (h : Confined links w owner)
    (hold : w id = none → ∀ link, links id = some link → link.managedBioPageId = owner)
    (hnew : ∀ link, row = some link → link.managedBioPageId = owner) :
    Confined links (w.put id row) owner := by
  intro other hother
  by_cases hid : other = id
  · subst hid
    rw [Overlay.put_self]
    refine ⟨fun link hlink => ?_, fun link hlink => hnew link (Option.some.inj hlink)⟩
    by_cases htouched : w other = none
    · exact hold htouched link hlink
    · exact (h other htouched).1 link hlink
  · rw [Overlay.put_of_ne row hid] at hother ⊢
    exact h other hother

section Execute

variable {pageId : Option Nat} {todo : List LinkStatement}

/-- The call with a statement less to do. -/
def Transaction.rest (t : Transaction) (pageId : Option Nat) (todo : List LinkStatement) :
    Transaction := { t with phase := .working pageId todo }

theorem moved_enqueue {op : Nat × ProjectionOperation} (h : Inv d s) (ht : s.calls[i]? = some t)
    (hannounced : Announced (t.enqueued ++ [op]) todo)
    (hprogress : Progress d s (({ t with enqueued := t.enqueued ++ [op] } : Transaction).rest
      pageId todo)) :
    Moved d s i t (({ t with enqueued := t.enqueued ++ [op] } : Transaction).rest pageId todo)
      s.nextId := by
  refine moved_same h ht rfl rfl rfl (fun _ hop => List.mem_append_left _ hop) ?_ hprogress
  intro pageId' todo' hworking
  obtain ⟨-, rfl⟩ := Phase.working.inj hworking
  exact hannounced

theorem moved_skip (h : Inv d s) (ht : s.calls[i]? = some t) (hannounced : Announced t.enqueued todo)
    (hprogress : Progress d s (t.rest pageId todo)) :
    Moved d s i t (t.rest pageId todo) s.nextId := by
  refine moved_same h ht rfl rfl rfl (fun _ hop => hop) ?_ hprogress
  intro pageId' todo' hworking
  obtain ⟨-, rfl⟩ := Phase.working.inj hworking
  exact hannounced

theorem moved_write {id : Nat} {row : Option Link} (h : Inv d s) (ht : s.calls[i]? = some t)
    (hrest : t' = (({ t with links := t.links.put id row } : Transaction).rest pageId todo))
    (hunlocked : linkUnlocked (s.calls.eraseIdx i) id = true) (hid : id < s.nextId)
    (hrow : ∀ link, row = some link → ∃ old, t.links.over s.links id = some old ∧
      link.key = old.key ∧ link.managedBioPageId = old.managedBioPageId)
    (hdeleted : row = none → (id, .delete) ∈ t.enqueued) (hannounced : Announced t.enqueued todo)
    (hprogress : Progress d s t') : Moved d s i t t' s.nextId := by
  subst hrest
  refine moved_link h ht rfl ⟨rfl, rfl, rfl⟩ (unlocked_of_linkUnlocked hunlocked) le_rfl hid
    (fun link hlink => Or.inr (hrow link hlink)) hdeleted ?_ hprogress
  intro pageId' todo' hworking
  obtain ⟨-, rfl⟩ := Phase.working.inj hworking
  exact hannounced

theorem moved_insert {link : Link} (h : Inv d s) (ht : s.calls[i]? = some t)
    (hrest : t' = (({ t with
      links := t.links.put s.nextId (some link)
      inserted := some s.nextId } : Transaction).rest pageId todo))
    (hfree : linkKeyFree s (s.calls.eraseIdx i) t link.key = true)
    (hannounced : Announced t.enqueued todo) (hprogress : Progress d s t') :
    Moved d s i t t' (s.nextId + 1) := by
  subst hrest
  refine moved_link h ht rfl ⟨rfl, rfl, rfl⟩ ?_ (Nat.le_succ _) (Nat.lt_succ_self _) ?_
    (fun hnone => by cases hnone) ?_ hprogress
  · exact fun o ho => (h.fresh o (mem_of_others ho) s.nextId le_rfl).2
  · intro link' hlink'
    obtain rfl := Option.some.inj hlink'
    exact Or.inl ⟨rfl, hfree⟩
  · intro pageId' todo' hworking
    obtain ⟨-, rfl⟩ := Phase.working.inj hworking
    exact hannounced

/-- **A save brings its link in step**, one statement after the other. -/
theorem moved_working {workspaceId : String} {domain : DomainRow} {input : UpsertBioPageInput}
    {id : Nat} {page : Page} {owned : Option (Nat × Link)} {statement : LinkStatement}
    (h : Inv d s) (ht : s.calls[i]? = some t) (hcall : t.call = .save workspaceId domain input)
    (hpages : t.pages = Overlay.empty.put id (some page)) (hwritten : Written domain input page)
    (hconfined : Confined s.links t.links (some id))
    (howns : Owns (t.links.over s.links) id owned)
    (hpending : Pending d (saveArgs workspaceId domain input id) (statement :: todo) owned)
    (hannounced : Announced t.enqueued (statement :: todo))
    (hexec : t.execute s (s.calls.eraseIdx i) (some id) statement = some (t', n)) :
    Moved d s i t (t'.rest (some id) todo) n := by
  have hmem := List.mem_of_getElem? ht
  cases statement with
  | enqueue linkId operation =>
    cases hexec
    exact moved_enqueue h ht hannounced (.working workspaceId domain input id page owned todo hcall
      rfl hpages hwritten hconfined howns hpending)
  | enqueueInserted =>
    obtain ⟨linkId, -, heq⟩ := Option.map_eq_some_iff.mp hexec
    cases heq
    exact moved_enqueue h ht (hannounced linkId) (.working workspaceId domain input id page owned
      todo hcall rfl hpages hwritten hconfined howns hpending)
  | delete linkId =>
    obtain ⟨⟨link, rfl⟩, hpending⟩ := hpending
    obtain ⟨hlink, howner⟩ := (howns linkId link).mpr rfl
    rw [Transaction.execute, hlink] at hexec
    split at hexec
    · rename_i hunlocked
      cases hexec
      refine moved_write h ht rfl hunlocked (lt_of_over h hmem hlink) (fun _ hrow => by cases hrow)
        (fun _ => hannounced.1) hannounced.2 (.working workspaceId domain input id page none todo
          hcall rfl hpages hwritten (confined_put hconfined ?_ fun _ hrow => by cases hrow)
          (owns_put_none howns) hpending)
      intro hfree link' hlink'
      rw [Overlay.over_of_eq_none hfree] at hlink
      rw [Option.some.inj (hlink'.symm.trans hlink)]
      exact howner
    · cases hexec
  | insert destination =>
    obtain ⟨rfl, hpending⟩ := hpending
    have hlink : t.call.link (some id) destination =
        some (newLink (saveArgs workspaceId domain input id) destination) := by
      rw [hcall]
      rfl
    rw [Transaction.execute, hlink] at hexec
    dsimp only at hexec
    split at hexec
    · rename_i hfree
      rw [Bool.and_eq_true] at hfree
      cases hexec
      refine moved_insert h ht rfl hfree.2 hannounced (.working workspaceId domain input id page
        (some (s.nextId, newLink (saveArgs workspaceId domain input id) destination)) todo hcall rfl
        hpages hwritten (confined_put hconfined ?_ ?_) (owns_put_some rfl ?_) (hpending s.nextId))
      · intro _ link hlink
        rw [h.linksFresh s.nextId le_rfl] at hlink
        cases hlink
      · intro link hlink
        rw [← Option.some.inj hlink]
        rfl
      · intro other other' _ hview howner
        have := (howns other other').mp ⟨hview, howner⟩
        cases this
    · cases hexec
  | repoint linkId destination =>
    obtain ⟨link, rfl, hpending⟩ := hpending
    obtain ⟨hlink, howner⟩ := (howns linkId link).mpr rfl
    rw [Transaction.execute, hlink] at hexec
    split at hexec
    · rename_i hunlocked
      cases hexec
      refine moved_write h ht rfl hunlocked (lt_of_over h hmem hlink) ?_ (fun hrow => by cases hrow)
        hannounced (.working workspaceId domain input id page
          (some (linkId, { link with destination := destination })) todo hcall rfl hpages hwritten
          (confined_put hconfined ?_ ?_) (owns_put_some howner ?_) hpending)
      · intro link' hlink'
        obtain rfl := Option.some.inj hlink'
        exact ⟨link, hlink, rfl, rfl⟩
      · intro hfree link' hlink'
        rw [Overlay.over_of_eq_none hfree] at hlink
        rw [Option.some.inj (hlink'.symm.trans hlink)]
        exact howner
      · intro link' hlink'
        rw [← Option.some.inj hlink']
        exact howner
      · intro other other' hother hview howner'
        have hsame := (howns other other').mp ⟨hview, howner'⟩
        exact hother (congrArg Prod.fst (Option.some.inj hsame)).symm
    · cases hexec

theorem owner_of_link {call : Call} {destination : String} {link : Link}
    (h : call.link pageId destination = some link) : link.managedBioPageId = pageId := by
  cases call with
  | save workspaceId domain input =>
    cases h
    rfl
  | create workspaceId domainId slug destination' =>
    cases h
    rfl
  | remove workspaceId id => cases h
  | removeLink workspaceId linkId => cases h

/-- **A user's link is inserted or deleted.** -/
theorem moved_user {statement : LinkStatement} (h : Inv d s) (ht : s.calls[i]? = some t)
    (hcall : ∀ workspaceId id, t.call ≠ .remove workspaceId id) (hpages : t.pages = .empty)
    (hconfined : Confined s.links t.links none)
    (hdeletes : ∀ id, .delete id ∈ statement :: todo →
      id < s.nextId ∧ s.LinkVersions id (·.managedBioPageId = none))
    (hrepoints : ∀ id destination, .repoint id destination ∉ statement :: todo)
    (hannounced : Announced t.enqueued (statement :: todo))
    (hexec : t.execute s (s.calls.eraseIdx i) none statement = some (t', n)) :
    Moved d s i t (t'.rest none todo) n := by
  have hmem := List.mem_of_getElem? ht
  have hdeletes' : ∀ id, .delete id ∈ todo →
      id < s.nextId ∧ s.LinkVersions id (·.managedBioPageId = none) :=
    fun id hid => hdeletes id (List.mem_cons_of_mem _ hid)
  have hrepoints' : ∀ id destination, .repoint id destination ∉ todo :=
    fun id destination hid => hrepoints id destination (List.mem_cons_of_mem _ hid)
  cases statement with
  | enqueue linkId operation =>
    cases hexec
    exact moved_enqueue h ht hannounced
      (.user todo hcall rfl hpages hconfined hdeletes' hrepoints')
  | enqueueInserted =>
    obtain ⟨linkId, -, heq⟩ := Option.map_eq_some_iff.mp hexec
    cases heq
    exact moved_enqueue h ht (hannounced linkId)
      (.user todo hcall rfl hpages hconfined hdeletes' hrepoints')
  | delete linkId =>
    obtain ⟨hknown, hversions⟩ := hdeletes linkId List.mem_cons_self
    rw [Transaction.execute] at hexec
    split at hexec
    · rename_i hunlocked
      split at hexec
      · cases hexec
        exact moved_skip h ht hannounced.2
          (.user todo hcall rfl hpages hconfined hdeletes' hrepoints')
      · cases hexec
        refine moved_write h ht rfl hunlocked hknown (fun _ hrow => by cases hrow)
          (fun _ => hannounced.1) hannounced.2 (.user todo hcall rfl hpages
            (confined_put hconfined (fun _ => hversions.1) fun _ hrow => by cases hrow) hdeletes'
            hrepoints')
    · cases hexec
  | insert destination =>
    rw [Transaction.execute] at hexec
    split at hexec
    · cases hexec
    · rename_i link hlink
      split at hexec
      · rename_i hfree
        rw [Bool.and_eq_true] at hfree
        cases hexec
        refine moved_insert h ht rfl hfree.2 hannounced (.user todo hcall rfl hpages
          (confined_put hconfined ?_ ?_) hdeletes' hrepoints')
        · intro _ old hold
          rw [h.linksFresh s.nextId le_rfl] at hold
          cases hold
        · intro link' hlink'
          rw [← Option.some.inj hlink']
          exact owner_of_link hlink
      · cases hexec
  | repoint linkId destination => exact absurd List.mem_cons_self (hrepoints linkId destination)

/-- **A removal deletes the link of its page.** -/
theorem moved_removing {workspaceId : String} {id : Nat} {statement : LinkStatement} (h : Inv d s)
    (ht : s.calls[i]? = some t) (hcall : t.call = .remove workspaceId id)
    (hpages : t.pages = .empty) (hconfined : Confined s.links t.links (some id))
    (hdrops : ∀ linkId row, t.links linkId = some row →
      row = none ∧ (s.links linkId).isSome = true)
    (hknown : id < s.nextId) (hworkspace : s.PageVersions id (·.workspaceId = workspaceId))
    (hdeletes : ∀ linkId, .delete linkId ∈ statement :: todo →
      linkId < s.nextId ∧ s.LinkVersions linkId (·.managedBioPageId = some id))
    (honly : ∀ other ∈ statement :: todo, ∃ linkId,
      other = .enqueue linkId .delete ∨ other = .delete linkId)
    (hannounced : Announced t.enqueued (statement :: todo))
    (hexec : t.execute s (s.calls.eraseIdx i) none statement = some (t', n)) :
    Moved d s i t (t'.rest none todo) n := by
  have hdeletes' : ∀ linkId, .delete linkId ∈ todo →
      linkId < s.nextId ∧ s.LinkVersions linkId (·.managedBioPageId = some id) :=
    fun linkId hid => hdeletes linkId (List.mem_cons_of_mem _ hid)
  have honly' : ∀ other ∈ todo, ∃ linkId, other = .enqueue linkId .delete ∨ other = .delete linkId :=
    fun other hother => honly other (List.mem_cons_of_mem _ hother)
  obtain ⟨linkId, rfl | rfl⟩ := honly statement List.mem_cons_self
  · cases hexec
    exact moved_enqueue h ht hannounced (.removing workspaceId id todo hcall rfl hpages hconfined
      hdrops hknown hworkspace hdeletes' honly')
  · obtain ⟨hlt, hversions⟩ := hdeletes linkId List.mem_cons_self
    rw [Transaction.execute] at hexec
    split at hexec
    · rename_i hunlocked
      split at hexec
      · cases hexec
        exact moved_skip h ht hannounced.2 (.removing workspaceId id todo hcall rfl hpages hconfined
          hdrops hknown hworkspace hdeletes' honly')
      · rename_i link hview
        cases hexec
        refine moved_write h ht rfl hunlocked hlt (fun _ hrow => by cases hrow)
          (fun _ => hannounced.1) hannounced.2 (.removing workspaceId id todo hcall rfl hpages
            (confined_put hconfined (fun _ => hversions.1) fun _ hrow => by cases hrow) ?_ hknown
            hworkspace hdeletes' honly')
        intro other row hrow
        by_cases hother : other = linkId
        · subst hother
          have hrow' : some none = some row := (Overlay.put_self t.links other none).symm.trans hrow
          refine ⟨(Option.some.inj hrow').symm, ?_⟩
          rcases version_of_over hview with ⟨-, hcommitted⟩ | hown
          · rw [hcommitted]
            rfl
          · exact (hdrops other _ hown).2
        · exact hdrops other row ((Overlay.put_of_ne none hother).symm.trans hrow)
    · cases hexec

/-- **A statement on links.** -/
theorem moved_execute {statement : LinkStatement} (h : Inv d s) (ht : s.calls[i]? = some t)
    (hphase : t.phase = .working pageId (statement :: todo))
    (hexec : t.execute s (s.calls.eraseIdx i) pageId statement = some (t', n)) :
    Moved d s i t (t'.rest pageId todo) n := by
  have hmem := List.mem_of_getElem? ht
  have hannounced := (h.sound t hmem).announced pageId _ hphase
  cases (h.sound t hmem).progress with
  | missed workspaceId domain input id call pages links known gone phase =>
    -- the page that the link would reference is gone
    have hsame : pageId = some id ∧ ∃ destination, statement = .insert destination := by
      rw [hphase] at phase
      rcases phase with phase | phase | ⟨destination, phase⟩
      · cases phase
      · cases phase
      · cases phase
        exact ⟨rfl, destination, rfl⟩
    obtain ⟨rfl, destination, rfl⟩ := hsame
    have hnone : (t.pages.over s.pages) id = none := by
      rw [pages, Overlay.over_empty]
      exact Option.eq_none_iff_forall_ne_some.mpr fun page hpage => gone.1 page hpage
    rw [Transaction.execute] at hexec
    split at hexec
    · cases hexec
    · simp [referenced, hnone] at hexec
  | working workspaceId domain input id page owned todo' call phase pages written confined owns
      pending =>
    rw [hphase] at phase
    obtain ⟨rfl, rfl⟩ := Phase.working.inj phase
    exact moved_working h ht call pages written confined owns pending hannounced hexec
  | user todo' call phase pages confined deletes repoints =>
    rw [hphase] at phase
    obtain ⟨rfl, rfl⟩ := Phase.working.inj phase
    exact moved_user h ht call pages confined deletes repoints hannounced hexec
  | removing workspaceId id todo' call phase pages confined drops known workspace deletes only =>
    rw [hphase] at phase
    obtain ⟨rfl, rfl⟩ := Phase.working.inj phase
    exact moved_removing h ht call pages confined drops known workspace deletes only hannounced hexec
  | _ => simp_all

end Execute

/-! ### The delete of a page -/

/-- **A removal deletes its page**, once no link of it is left. -/
theorem moved_deletePage {workspaceId : String} {pageId : Nat} {owner : Option Nat} (h : Inv d s)
    (ht : s.calls[i]? = some t) (hcall : t.call = .remove workspaceId pageId)
    (hphase : t.phase = .working owner [])
    (hdelete : t.deletePage s (s.calls.eraseIdx i) workspaceId pageId = some t') :
    Moved d s i t t' s.nextId := by
  have hmem := List.mem_of_getElem? ht
  cases (h.sound t hmem).progress with
  | removing workspaceId' id todo call phase pages confined drops known workspace deletes only =>
    obtain ⟨rfl, rfl⟩ := Call.remove.inj (hcall.symm.trans call)
    have hover : t.pages.over s.pages = s.pages := by rw [pages, Overlay.over_empty]
    rw [Transaction.deletePage, hover] at hdelete
    split at hdelete
    · rename_i hgone
      cases hdelete
      -- a link that it had deleted would still need its page
      have hlinks : t.links = .empty := by
        funext linkId
        by_contra htouched
        obtain ⟨row, hrow⟩ := Option.ne_none_iff_exists'.mp htouched
        obtain ⟨link, hlink⟩ := Option.isSome_iff_exists.mp (drops linkId row hrow).2
        have howner := (confined linkId htouched).1 link hlink
        have := (h.inStep.removed pageId hgone linkId link).mp ⟨hlink, howner⟩
        cases this
      exact moved_same h ht rfl rfl rfl (fun _ hop => hop) (fun _ _ hworking => by cases hworking)
        (.idle pages hlinks (Or.inr (Or.inr (Or.inl rfl))))
    · rename_i page hpage
      rw [if_pos (workspace.1 page hpage)] at hdelete
      split at hdelete
      · rename_i hfree
        rw [Bool.and_eq_true, Option.isNone_iff_eq_none] at hfree
        cases hdelete
        refine moved_page h ht rfl ⟨rfl, rfl, rfl⟩ hfree.1 le_rfl known (fun _ hrow => by cases hrow)
          (fun _ _ hworking => by cases hworking) (.removed pageId rfl ?_ confined
            (owns_none_of_ownedLink h hmem hfree.2))
        dsimp only
        rw [pages]
      · cases hdelete
  | _ => simp_all

end

end SnapUrl.Bio.Saves
