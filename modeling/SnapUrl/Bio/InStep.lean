import SnapUrl.Bio.SaveSteps
import SnapUrl.Links.BulkAgreement

/-!
# Pages and their links

Saves and removals of bio pages, and users' links on the same domains, in any order of their
statements.

* `inStep_over`: **a commit leaves the links in step**.
* `inv_step`: one step of a run.
* `links_in_step`: as long as every save by the address commits on a page that is still there,
  the links are in step with the pages, and none goes without a delete for the projection.
* `page_moved_away`: a save by the address that does not, and what is left of it.
-/

namespace SnapUrl.Bio.Saves

open Lib Links Links.Creation

section

variable {d : Deployment} {s : Store} {i n : Nat} {t t' : Transaction}

/-! ### Commits -/

/-- What pages own that a commit does not touch. -/
theorem owns_over_iff {w : Overlay Link} {links : Table Link} {owner : Option Nat} {id : Nat}
    {owned : Option (Nat × Link)} (h : Confined links w owner) (hid : owner ≠ some id) :
    Owns (w.over links) id owned ↔ Owns links id owned := by
  refine forall₂_congr fun other link => iff_congr ?_ Iff.rfl
  by_cases htouched : w other = none
  · rw [Overlay.over_of_eq_none htouched]
  · obtain ⟨hold, hnew⟩ := h other htouched
    refine iff_of_false ?_ ?_
    · rintro ⟨hview, howner⟩
      rcases version_of_over hview with ⟨hnone, -⟩ | hown
      · exact htouched hnone
      · exact hid ((hnew link hown).symm.trans howner)
    · rintro ⟨hlink, howner⟩
      exact hid ((hold link hlink).symm.trans howner)

/-- **A commit leaves the links in step** when it leaves those of the pages that it touches, and
touches the page of every link that it touches. -/
theorem inStep_over {wp : Overlay Page} {wl : Overlay Link} {pages : Table Page}
    {links : Table Link} {owner : Option Nat} (h : InStep d pages links)
    (hunique : (wl.over links).Unique Link.key) (hconfined : Confined links wl owner)
    (hcovers : ∀ id, owner = some id → wp id ≠ none)
    (hlive : ∀ id page, wp id = some (some page) → page.live = true → ∃ linkId link,
      Owns (wl.over links) id (some (linkId, link)) ∧ Fronts d page link)
    (hnone : ∀ id row, wp id = some row → (∀ page, row = some page → page.live = false) →
      Owns (wl.over links) id none) : InStep d (wp.over pages) (wl.over links) := by
  have huntouched {id : Nat} (hid : wp id = none) {owned : Option (Nat × Link)}
      (howns : Owns links id owned) : Owns (wl.over links) id owned :=
    (owns_over_iff hconfined fun howner => hcovers id howner hid).mpr howns
  refine ⟨hunique, ?_, ?_, ?_⟩
  · intro id page hpage hpublished
    rcases version_of_over hpage with ⟨hfree, hcommitted⟩ | hown
    · obtain ⟨linkId, link, howns, hfronts⟩ := h.live id page hcommitted hpublished
      exact ⟨linkId, link, huntouched hfree howns, hfronts⟩
    · exact hlive id page hown hpublished
  · intro id page hpage hdraft
    rcases version_of_over hpage with ⟨hfree, hcommitted⟩ | hown
    · exact huntouched hfree (h.draft id page hcommitted hdraft)
    · refine hnone id _ hown fun page' hpage' => ?_
      rw [← Option.some.inj hpage']
      exact hdraft
  · intro id hgone
    cases hid : wp id with
    | none =>
      rw [Overlay.over_of_eq_none hid] at hgone
      exact huntouched hid (h.removed id hgone)
    | some row =>
      rw [Overlay.over_of_eq_some hid] at hgone
      refine hnone id row hid fun page hpage => ?_
      rw [hgone] at hpage
      cases hpage

/-- A link that is settled fronts the page that the save has written. -/
theorem fronts_of_settled {workspaceId : String} {domain : DomainRow}
    {input : UpsertBioPageInput} {id linkId : Nat} {page : Page} {link : Link}
    (hnamed : domain.domain = d.domainName domain.id) (hkey : page.key = saveKey domain input)
    (hsettled : Settled d (saveArgs workspaceId domain input id) (some (linkId, link))) :
    Fronts d page link := by
  obtain ⟨-, hlink, slug, hslug, hdestination⟩ := hsettled
  have hdomain : page.domainId = domain.id := congrArg Prod.fst hkey
  have hpageslug : asciiLower page.slug = asciiLower input.slug := congrArg Prod.snd hkey
  refine ⟨hlink.trans hkey.symm, slug, hslug.trans hpageslug.symm, ?_⟩
  rw [hdestination, hdomain, ← hnamed]
  rfl

/-- What a commit needs. -/
structure Committable (d : Deployment) (s : Store) (t : Transaction) (owner : Option Nat) :
    Prop where
  confined : Confined s.links t.links owner
  covers : ∀ id, owner = some id → t.pages id ≠ none
  inStep : InStep d (t.pages.over s.pages) (t.links.over s.links)

theorem committable_empty (h : InStep d s.pages s.links) (hpages : t.pages = .empty)
    (hlinks : t.links = .empty) : Committable d s t none := by
  refine ⟨hlinks ▸ confined_empty s.links none, fun _ howner => (by cases howner), ?_⟩
  rw [hpages, hlinks, Overlay.over_empty, Overlay.over_empty]
  exact h

/-- The one page that a call has written. -/
theorem eq_of_put {row row' : Option Page} {id other : Nat} (hpages : t.pages =
    Overlay.empty.put id row) (h : t.pages other = some row') : other = id ∧ row' = row := by
  rw [hpages] at h
  by_cases hother : other = id
  · rw [hother, Overlay.put_self] at h
    exact ⟨hother, (Option.some.inj h).symm⟩
  · rw [Overlay.put_of_ne row hother] at h
    cases h

/-- **Every call that may commit may do so**, where a save finds its page. -/
theorem committable (h : Inv d s) (ht : s.calls[i]? = some t) (hmay : t.mayCommit = true)
    (hfinds : ∀ page ∈ t.publishedByAddress, page.1.key = page.2) :
    ∃ owner, Committable d s t owner := by
  have hmem := List.mem_of_getElem? ht
  have hs := h.sound t hmem
  cases hs.progress with
  | idle pages links phase => exact ⟨none, committable_empty h.inStep pages links⟩
  | found id phase pages links known => exact ⟨none, committable_empty h.inStep pages links⟩
  | missed workspaceId domain input id call pages links known gone phase =>
    exact ⟨none, committable_empty h.inStep pages links⟩
  | saved workspaceId domain input id page call phase pages links written =>
    simp [Transaction.mayCommit, phase] at hmay
  | user todo call phase pages confined deletes repoints =>
    refine ⟨none, confined, fun _ howner => (by cases howner), ?_⟩
    refine inStep_over h.inStep hs.unique confined (fun _ howner => by cases howner) ?_ ?_
    · intro id page hpage
      rw [pages] at hpage
      cases hpage
    · intro id row hrow
      rw [pages] at hrow
      cases hrow
  | removing workspaceId id todo call phase pages confined drops known workspace deletes only =>
    cases todo with
    | nil => simp [Transaction.mayCommit, phase, call] at hmay
    | cons statement todo => simp [Transaction.mayCommit, phase] at hmay
  | removed id phase pages confined owns =>
    have hcovers : ∀ other, some id = some other → t.pages other ≠ none := by
      intro other hother
      rw [← Option.some.inj hother]
      exact ne_none_of_put pages
    refine ⟨some id, confined, hcovers, inStep_over h.inStep hs.unique confined hcovers ?_ ?_⟩
    · intro other page hpage
      cases (eq_of_put pages hpage).2
    · intro other row hrow _
      rw [(eq_of_put pages hrow).1]
      exact owns
  | working workspaceId domain input id page owned todo call phase pages written confined owns
      pending =>
    cases todo with
    | cons statement todo => simp [Transaction.mayCommit, phase] at hmay
    | nil =>
      have hcovers : ∀ other, some id = some other → t.pages other ≠ none := by
        intro other hother
        rw [← Option.some.inj hother]
        exact ne_none_of_put pages
      refine ⟨some id, confined, hcovers, inStep_over h.inStep hs.unique confined hcovers ?_ ?_⟩
      · intro other page' hpage hlive
        obtain ⟨rfl, hsame⟩ := eq_of_put pages hpage
        obtain rfl := Option.some.inj hsame
        have hinput : input.live = true := written.live.symm.trans hlive
        have hkey : page'.key = saveKey domain input := by
          cases hid : input.id with
          | some _ => exact written.moved (by rw [hid]; rfl)
          | none =>
            refine hfinds (page', saveKey domain input) ?_
            simp [Transaction.publishedByAddress, call, phase, hid, hinput, hpage]
        cases owned with
        | none => exact absurd hinput (by rw [show input.live = false from pending]; decide)
        | some found =>
          exact ⟨found.1, found.2, owns,
            fronts_of_settled (hs.named workspaceId domain input call) hkey pending⟩
      · intro other row hrow hdraft
        obtain ⟨rfl, rfl⟩ := eq_of_put pages hrow
        cases owned with
        | none => exact owns
        | some found =>
          have hlive : page.live = true := written.live.trans pending.1
          rw [hdraft page rfl] at hlive
          cases hlive

/-- A call that is over has nothing in hand. -/
theorem sound_close (hs : Sound d s t) (hunique : s.links.Unique Link.key) :
    Sound d s t.close := by
  refine ⟨hs.named, hunique, ?_, ?_, ?_, ?_, .idle rfl rfl (Or.inr (Or.inr (Or.inr rfl)))⟩
  · intro id link old hlink
    cases hlink
  · intro id page old hpage
    cases hpage
  · intro id hid
    cases hid
  · intro pageId todo hworking
    cases hworking

theorem beside_close {o : Transaction} : Beside t.close o :=
  ⟨(Overlay.apart_empty o.pages).symm, (Overlay.apart_empty o.links).symm,
    fun _ _ _ _ hlink => by cases hlink⟩

theorem inv_commit {owner : Option Nat} (h : Inv d s) (ht : s.calls[i]? = some t)
    (hc : Committable d s t owner) : Inv d (s.commit i t) := by
  have hmem := List.mem_of_getElem? ht
  have hs := h.sound t hmem
  have hgrows := grows_commit h ht
  refine ⟨hc.inStep, ?_, ?_, ?_, ?_, ?_⟩
  · intro id hid
    change t.pages.over s.pages id = none
    rw [Overlay.over_of_eq_none (h.fresh t hmem id hid).1]
    exact h.pagesFresh id hid
  · intro id hid
    change t.links.over s.links id = none
    rw [Overlay.over_of_eq_none (h.fresh t hmem id hid).2]
    exact h.linksFresh id hid
  · intro o ho
    rcases mem_of_mem_set ho with rfl | ho
    · exact fun _ _ => ⟨rfl, rfl⟩
    · exact h.fresh o ho
  · exact pairwise_set (fun hb => hb.symm) h.beside fun o _ => beside_close
  · intro o ho
    rcases eq_or_mem_eraseIdx_of_mem_set ho with rfl | ho
    · refine (sound_close hs h.inStep.keys).around hgrows ⟨?_, ?_, ?_, ?_⟩
      · exact fun _ htouched => absurd rfl htouched
      · exact fun _ htouched => absurd rfl htouched
      · exact fun _ => hc.inStep.keys
      · exact fun _ _ htouched => absurd rfl htouched
    · have hb := beside_others h ht o ho
      have ho' := h.sound o (mem_of_others ho)
      refine ho'.around hgrows ⟨?_, ?_, ?_, ?_⟩
      · exact fun id htouched => Overlay.over_of_eq_none ((hb.links id).resolve_right htouched)
      · exact fun id htouched => Overlay.over_of_eq_none ((hb.pages id).resolve_right htouched)
      · intro hunique
        exact Overlay.unique_over_over hunique hs.unique hb.symm.keys
      · intro id owned htouched howns
        change Owns (o.links.over (t.links.over s.links)) id owned
        rw [Overlay.over_comm hb.symm.links]
        have hconfined : Confined (o.links.over s.links) t.links owner := by
          intro linkId hlink
          rw [Overlay.over_of_eq_none ((hb.links linkId).resolve_left hlink)]
          exact hc.confined linkId hlink
        refine (owns_over_iff hconfined fun howner => ?_).mpr howns
        exact hc.covers id howner ((hb.pages id).resolve_right htouched)

/-! ### Steps -/

theorem inv_add {call : Call} (h : Inv d s) (hnamed : ∀ workspaceId domain input,
    call = .save workspaceId domain input → domain.domain = d.domainName domain.id) :
    Inv d (s.add call) := by
  have hmem : ∀ o ∈ (s.add call).calls, o ∈ s.calls ∨ o = .begin call := by
    intro o ho
    exact (List.mem_append.mp ho).imp_right List.mem_singleton.mp
  refine ⟨h.inStep, h.pagesFresh, h.linksFresh, ?_, ?_, ?_⟩
  · intro o ho
    rcases hmem o ho with hold | rfl
    · exact h.fresh o hold
    · exact fun _ _ => ⟨rfl, rfl⟩
  · refine List.pairwise_append.mpr ⟨h.beside, List.pairwise_singleton _ _, fun o _ o' ho' => ?_⟩
    rw [List.mem_singleton.mp ho']
    exact ⟨Overlay.apart_empty _, Overlay.apart_empty _, fun _ _ _ _ _ hlink => by cases hlink⟩
  · intro o ho
    have hsound : Sound d s o := by
      rcases hmem o ho with hold | rfl
      · exact h.sound o hold
      · refine ⟨hnamed, h.inStep.keys, ?_, ?_, ?_, ?_, .idle rfl rfl (Or.inl rfl)⟩
        · exact fun _ _ _ hlink => by cases hlink
        · exact fun _ _ _ hpage => by cases hpage
        · exact fun _ hid => by cases hid
        · exact fun _ _ hworking => by cases hworking
    exact hsound.around (grows_add call) ⟨fun _ _ => rfl, fun _ _ => rfl, id, fun _ _ _ ho => ho⟩

/-- **The next statement of a call.** -/
theorem moved_next (h : Inv d s) (ht : s.calls[i]? = some t)
    (hnext : t.next d s (s.calls.eraseIdx i) = some (t', n)) : Moved d s i t t' n := by
  rw [Transaction.next] at hnext
  split at hnext
  · rename_i hphase
    cases hnext
    have hmem := List.mem_of_getElem? ht
    have hempty : t.pages = .empty ∧ t.links = .empty := by
      cases (h.sound t hmem).progress with
      | idle pages links phase => exact ⟨pages, links⟩
      | _ => simp_all
    exact moved_same h ht rfl rfl rfl (fun _ hop => hop)
      (fun _ _ hworking => announced_start s t.call hworking)
      (progress_start h hempty.1 hempty.2)
  · rename_i pageId workspaceId domain input hphase hcall
    exact moved_savePage h ht hcall hphase hnext
  · rename_i pageId workspaceId domain input hphase hcall
    cases hnext
    exact moved_read h ht hcall hphase
  · rename_i pageId statement todo hphase
    obtain ⟨⟨t'', n'⟩, hexec, heq⟩ := Option.map_eq_some_iff.mp hnext
    cases heq
    exact moved_execute h ht hphase hexec
  · rename_i owner workspaceId pageId hphase hcall
    obtain ⟨t'', hdelete, heq⟩ := Option.map_eq_some_iff.mp hnext
    cases heq
    exact moved_deletePage h ht hcall hphase hdelete
  · cases hnext

/-- A call that fails leaves nothing. -/
theorem moved_close (h : Inv d s) (ht : s.calls[i]? = some t) :
    Moved d s i t t.close s.nextId := by
  refine ⟨le_rfl, ⟨fun _ _ hpage => (by cases hpage), fun _ _ hlink => (by cases hlink)⟩,
    fun o _ => beside_close, fun _ _ => ⟨rfl, rfl⟩, ?_⟩
  exact sound_close (h.sound t (List.mem_of_getElem? ht)) h.inStep.keys

/-- **Every step keeps the links in step**, where a save by the address finds its page. -/
theorem inv_step (d : Deployment) (s : Store) (a : Action) (s' : Store) (h : Inv d s)
    (hfinds : FindsItsPage s a) (hs' : step d s a = some s') : Inv d s' := by
  cases a with
  | save p settings input =>
    rw [step] at hs'
    split at hs'
    · cases hs'
      exact h
    · split at hs'
      · rename_i domain _ hname
        cases hs'
        refine inv_add h fun workspaceId domain' input' hcall => ?_
        cases hcall
        exact hname
      · cases hs'
  | remove workspaceId pageId =>
    cases hs'
    exact inv_add h fun _ _ _ hcall => by cases hcall
  | create workspaceId domainId slug destination =>
    cases hs'
    exact inv_add h fun _ _ _ hcall => by cases hcall
  | removeLink workspaceId linkId =>
    cases hs'
    exact inv_add h fun _ _ _ hcall => by cases hcall
  | next i =>
    obtain ⟨t, ht, hnext⟩ := Option.bind_eq_some_iff.mp hs'
    obtain ⟨⟨t', n⟩, hmoves, rfl⟩ := Option.map_eq_some_iff.mp hnext
    exact inv_set h ht (moved_next h ht hmoves)
  | commit i =>
    obtain ⟨t, ht, hcommit⟩ := Option.bind_eq_some_iff.mp hs'
    split at hcommit
    · rename_i hmay
      cases hcommit
      obtain ⟨owner, hc⟩ := committable h ht hmay (hfinds t ht)
      exact inv_commit h ht hc
    · cases hcommit
  | fail i =>
    obtain ⟨t, ht, rfl⟩ := Option.map_eq_some_iff.mp hs'
    exact inv_set h ht (moved_close h ht)

end

/-! ### Runs -/

/-- The tables in step, and no call. -/
structure Initial (d : Deployment) (s : Store) : Prop where
  inStep : InStep d s.pages s.links
  pagesFresh : ∀ id, s.nextId ≤ id → s.pages id = none
  linksFresh : ∀ id, s.nextId ≤ id → s.links id = none
  calls : s.calls = []

theorem inv_of_initial {d : Deployment} {s : Store} (h : Initial d s) : Inv d s := by
  refine ⟨h.inStep, h.pagesFresh, h.linksFresh, ?_, ?_, ?_⟩
  · rw [h.calls]
    exact fun _ ht => absurd ht List.not_mem_nil
  · rw [h.calls]
    exact List.Pairwise.nil
  · rw [h.calls]
    exact fun _ ht => absurd ht List.not_mem_nil

/-- A step that leaves the links alone. -/
theorem deletesEnqueued_of_links {s s' : Store} (hlinks : s'.links = s.links)
    (houtbox : s'.outbox = s.outbox) : DeletesEnqueued s s' := by
  refine ⟨[], by rw [houtbox, List.append_nil], fun id link hlink _ hgone => ?_⟩
  exact absurd rfl (hgone link (hlinks ▸ hlink))

/-- **What goes is announced**, with the commit that lets it go. -/
theorem deletesEnqueued_step {d : Deployment} {s : Store} (h : Inv d s) {a : Action} {s' : Store}
    (hs' : step d s a = some s') : DeletesEnqueued s s' := by
  cases a with
  | save p settings input =>
    rw [step] at hs'
    split at hs'
    · cases hs'
      exact deletesEnqueued_of_links rfl rfl
    · split at hs'
      · cases hs'
        exact deletesEnqueued_of_links rfl rfl
      · cases hs'
  | remove workspaceId pageId =>
    cases hs'
    exact deletesEnqueued_of_links rfl rfl
  | create workspaceId domainId slug destination =>
    cases hs'
    exact deletesEnqueued_of_links rfl rfl
  | removeLink workspaceId linkId =>
    cases hs'
    exact deletesEnqueued_of_links rfl rfl
  | next i =>
    obtain ⟨t, ht, hnext⟩ := Option.bind_eq_some_iff.mp hs'
    obtain ⟨⟨t', n⟩, hmoves, rfl⟩ := Option.map_eq_some_iff.mp hnext
    exact deletesEnqueued_of_links rfl rfl
  | fail i =>
    obtain ⟨t, ht, rfl⟩ := Option.map_eq_some_iff.mp hs'
    exact deletesEnqueued_of_links rfl rfl
  | commit i =>
    obtain ⟨t, ht, hcommit⟩ := Option.bind_eq_some_iff.mp hs'
    split at hcommit
    · cases hcommit
      have hs := h.sound t (List.mem_of_getElem? ht)
      refine ⟨t.enqueued, rfl, fun id link hlink _ hgone => ?_⟩
      cases hid : t.links id with
      | none =>
        refine absurd rfl (hgone link ?_)
        change t.links.over s.links id = some link
        rw [Overlay.over_of_eq_none hid]
        exact hlink
      | some row =>
        cases row with
        | none => exact hs.deleted id hid
        | some link' =>
          exact absurd (hs.linkKept id link' link hid hlink).1
            (hgone link' (Overlay.over_of_eq_some hid))
    · cases hcommit

/-- **The links are in step with the pages** in every state of a run in which the saves by the
address commit on pages that are still there, and every step from there announces the links that
it lets go. -/
theorem links_in_step (d : Deployment) (start : Store) (hstart : Initial d start)
    (actions : List Action) (hfinds : Guarded (step d) FindsItsPage start actions) (s : Store)
    (hrun : run (step d) start actions = some s) :
    InStep d s.pages s.links ∧ ∀ a s', step d s a = some s' → DeletesEnqueued s s' := by
  have h := invariant_of_guarded (inv_step d) actions start s (inv_of_initial hstart) hfinds hrun
  exact ⟨h.inStep, fun a s' hs' => deletesEnqueued_step h hs'⟩

/-! ### A page that is moved meanwhile -/

def snapDeployment : Deployment := ⟨"https://app.snapurl.test", fun _ => "snap.to"⟩

/-- No page, and no link. -/
def emptyStore : Store := ⟨fun _ => none, fun _ => none, [], 0, []⟩

theorem initial_emptyStore : Initial snapDeployment emptyStore := by
  refine ⟨⟨?_, ?_, ?_, ?_⟩, fun _ _ => rfl, fun _ _ => rfl, rfl⟩
  · intro a b link link' hlink
    cases hlink
  · intro id page hpage
    cases hpage
  · intro id page hpage
    cases hpage
  · rintro id - linkId link
    simp [emptyStore]

/-- A save that publishes a page, by its id or by the address. -/
def publish (id : Option Nat) (slug : String) : Action :=
  .save sampleEnvironment.p promoState ⟨id, "snap.to", slug, true⟩

/-- A page is published at one address and moved to another. -/
def publishAndMove : List Action :=
  publish none "a" :: List.replicate 5 (Action.next 0) ++ Action.commit 0 ::
    publish (some 0) "b" :: List.replicate 7 (Action.next 1) ++ [Action.commit 1]

/-- The link moves with the page. -/
theorem links_in_step_moved :
    ∃ s, run (step snapDeployment) emptyStore publishAndMove = some s ∧
      InStep snapDeployment s.pages s.links := by
  have hfinds : Guarded (step snapDeployment) FindsItsPage emptyStore publishAndMove := by
    decide +kernel
  have hrun : (run (step snapDeployment) emptyStore publishAndMove).isSome = true := by
    decide +kernel
  obtain ⟨s, hs⟩ := Option.isSome_iff_exists.mp hrun
  exact ⟨s, hs, (links_in_step snapDeployment emptyStore initial_emptyStore publishAndMove hfinds s
    hs).1⟩

/-- A save by the address has found the page, which is moved before its update. -/
def crossingSaves : List Action :=
  publish none "a" :: List.replicate 5 (Action.next 0) ++ Action.commit 0 :: publish none "a" ::
    Action.next 1 :: publish (some 0) "b" :: List.replicate 7 (Action.next 2) ++ Action.commit 2 ::
    List.replicate 6 (Action.next 1) ++ [Action.commit 1]

/-- **A page stands at one address and its link at another**: the save by the address has
published the page that it had found, where the page is no longer. -/
theorem page_moved_away :
    ¬ ∀ (d : Deployment) (start : Store) (actions : List Action) (s : Store), Initial d start →
      run (step d) start actions = some s → (∀ t ∈ s.calls, t.phase = .over) →
      InStep d s.pages s.links := by
  intro h
  have hmoved : (run (step snapDeployment) emptyStore crossingSaves).any (fun s =>
      decide ((∀ t ∈ s.calls, t.phase = .over) ∧
        s.pages 0 = some ⟨"W1", "D1", "b", true⟩ ∧ (s.links 3).map (·.key) = some ("D1", "a") ∧
        (s.links 3).bind (·.managedBioPageId) = some 0)) = true := by
    decide +kernel
  obtain ⟨s, hrun, hstate⟩ := (Option.any_eq_true _ _).mp hmoved
  obtain ⟨hover, hpage, hkey, howner⟩ := of_decide_eq_true hstate
  obtain ⟨link, hlink, hat⟩ := Option.map_eq_some_iff.mp hkey
  obtain ⟨linkId, link', howns, hfronts⟩ :=
    (h snapDeployment emptyStore crossingSaves s initial_emptyStore hrun hover).live 0 _ hpage rfl
  rw [hlink] at howner
  obtain ⟨-, rfl⟩ := Prod.mk.inj (Option.some.inj ((howns 3 link).mp ⟨hlink, howner⟩))
  exact absurd (hat.symm.trans hfronts.1) (by decide)

end SnapUrl.Bio.Saves
