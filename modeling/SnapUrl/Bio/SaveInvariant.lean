import SnapUrl.Bio.Saves

/-!
# What open saves have in hand

What holds of a call in each of its phases, whatever the other calls do meanwhile.  The lock on
a page is the hinge: who has touched the page alone commits changes to its links, so a link that
was read under the lock is still there at the commit.

* `Pending`: the statements that are left bring the link of a page in step.
* `Progress`: how far a call is, and what it may rely on.
* `Grows`, `Around`: what a step of another call leaves alone.
* `Sound.around`: **another call's step takes nothing away**.
-/

namespace SnapUrl.Bio.Saves

open Lib Links Links.Creation

/-! ### Versions -/

/-- Every version of a link, committed or not, meets the condition. -/
abbrev Store.LinkVersions (s : Store) (id : Nat) (q : Link → Prop) : Prop :=
  AllVersions s.links (s.calls.map (·.links)) id q

/-- Every version of a page, committed or not, meets the condition. -/
abbrev Store.PageVersions (s : Store) (id : Nat) (q : Page → Prop) : Prop :=
  AllVersions s.pages (s.calls.map (·.pages)) id q

/-- No call is inserting the page. -/
def Store.PageKnown (s : Store) (id : Nat) : Prop :=
  id < s.nextId ∧ ∀ t ∈ s.calls, ∀ page, t.pages id = some (some page) → (s.pages id).isSome = true

/-! ### Statements that are left -/

/-- The link of a page that is saved is as it should be. -/
def Settled (d : Deployment) (args : ReconcileArgs) : Option (Nat × Link) → Prop
  | none => args.live = false
  | some (_, link) => args.live = true ∧ link.key = args.key ∧
      ∃ slug, asciiLower slug = asciiLower args.slug ∧
        link.destination = bioManagedDestination d.webOrigin args.domainName slug

/-- The link that a save inserts. -/
def newLink (args : ReconcileArgs) (destination : String) : Link :=
  ⟨args.workspaceId, args.domainId, args.slug, destination, some args.bioPageId⟩

/-- **The statements bring the link of a page in step**, from the link that it owns. -/
def Pending (d : Deployment) (args : ReconcileArgs) :
    List LinkStatement → Option (Nat × Link) → Prop
  | [], owned => Settled d args owned
  | .enqueue _ _ :: todo, owned => Pending d args todo owned
  | .enqueueInserted :: todo, owned => Pending d args todo owned
  | .delete id :: todo, owned => (∃ link, owned = some (id, link)) ∧ Pending d args todo none
  | .insert destination :: todo, owned =>
    owned = none ∧ ∀ id, Pending d args todo (some (id, newLink args destination))
  | .repoint id destination :: todo, owned => ∃ link, owned = some (id, link) ∧
      Pending d args todo (some (id, { link with destination := destination }))

/-- Every delete comes after its operation for the projection. -/
def Announced : List (Nat × ProjectionOperation) → List LinkStatement → Prop
  | _, [] => True
  | enqueued, .enqueue id operation :: todo => Announced (enqueued ++ [(id, operation)]) todo
  | enqueued, .enqueueInserted :: todo => ∀ id, Announced (enqueued ++ [(id, .upsert)]) todo
  | enqueued, .delete id :: todo => (id, .delete) ∈ enqueued ∧ Announced enqueued todo
  | enqueued, .insert _ :: todo => Announced enqueued todo
  | enqueued, .repoint _ _ :: todo => Announced enqueued todo

theorem announced_deleteLink (enqueued : List (Nat × ProjectionOperation)) (id : Nat)
    {todo : List LinkStatement} (h : ∀ enqueued, Announced enqueued todo) :
    Announced enqueued (deleteLink id ++ todo) := by
  change (id, ProjectionOperation.delete) ∈ enqueued ++ [(id, .delete)] ∧ Announced _ todo
  exact ⟨List.mem_concat_self, h _⟩

theorem announced_insertManagedLink (enqueued : List (Nat × ProjectionOperation))
    (destination : String) : Announced enqueued (insertManagedLink destination) :=
  fun _ => trivial

theorem announced_reconcile (enqueued : List (Nat × ProjectionOperation)) (webOrigin : String)
    (args : ReconcileArgs) (owned : Option OwnedLink) :
    Announced enqueued (reconcileManagedLink webOrigin args owned) := by
  cases owned with
  | none =>
    rw [reconcileManagedLink]
    split
    · exact trivial
    · exact announced_insertManagedLink _ _
  | some owned =>
    rw [reconcileManagedLink]
    split
    · exact announced_deleteLink enqueued owned.id fun _ => trivial
    · dsimp only
      split
      · exact trivial
      · split
        · exact announced_deleteLink enqueued owned.id fun _ => announced_insertManagedLink _ _
        · exact trivial

/-- What `reconcileManagedLink` reads of a link. -/
def ownedOf (owned : Nat × Link) : OwnedLink :=
  ⟨owned.1, owned.2.slug, owned.2.destination, owned.2.domainId⟩

/-- **The statements of a save bring the link in step.** -/
theorem pending_reconcile (d : Deployment) (args : ReconcileArgs) (owned : Option (Nat × Link)) :
    Pending d args (reconcileManagedLink d.webOrigin args (owned.map ownedOf)) owned := by
  have hinsert : args.live = true → Pending d args (insertManagedLink
      (bioManagedDestination d.webOrigin args.domainName args.slug)) none := by
    intro hlive
    exact ⟨rfl, fun _ => ⟨hlive, rfl, args.slug, rfl, rfl⟩⟩
  cases hlive : args.live with
  | false =>
    cases owned with
    | none =>
      simp only [Option.map_none, reconcileManagedLink, hlive, Bool.not_false, if_true]
      exact hlive
    | some owned =>
      simp only [Option.map_some, reconcileManagedLink, hlive, Bool.not_false, if_true]
      exact ⟨⟨owned.2, rfl⟩, hlive⟩
  | true =>
    cases owned with
    | none =>
      simp only [Option.map_none, reconcileManagedLink, hlive, Bool.not_true, Bool.false_eq_true,
        if_false]
      exact hinsert hlive
    | some owned =>
      simp only [Option.map_some, reconcileManagedLink, hlive, Bool.not_true, Bool.false_eq_true,
        if_false]
      split
      · rename_i hsame
        obtain ⟨hstays, hdestination⟩ := hsame
        rw [not_or, not_ne_iff, not_ne_iff] at hstays
        exact ⟨hlive, Prod.ext hstays.1 hstays.2, args.slug, rfl, hdestination⟩
      · split
        · exact ⟨⟨owned.2, rfl⟩, hinsert hlive⟩
        · rename_i hstays
          rw [not_or, not_ne_iff, not_ne_iff] at hstays
          exact ⟨owned.2, rfl, hlive, Prod.ext hstays.1 hstays.2, args.slug, rfl, rfl⟩

/-! ### Calls -/

/-- The links that a call has touched belong to one page, or to none. -/
def Confined (links : Table Link) (w : Overlay Link) (owner : Option Nat) : Prop :=
  ∀ id, w id ≠ none → (∀ link, links id = some link → link.managedBioPageId = owner) ∧
    ∀ link, w id = some (some link) → link.managedBioPageId = owner

/-- What a save has made of its page. -/
structure Written (domain : DomainRow) (input : UpsertBioPageInput) (page : Page) : Prop where
  live : page.live = input.live
  moved : input.id.isSome = true → page.key = saveKey domain input

/-- **How far a call is**, and what it may rely on. -/
inductive Progress (d : Deployment) (s : Store) (t : Transaction) : Prop
  | idle (pages : t.pages = .empty) (links : t.links = .empty)
      (phase : t.phase = .begun ∨ t.phase = .found none ∨ t.phase = .ready ∨ t.phase = .over)
  | found (id : Nat) (phase : t.phase = .found (some id)) (pages : t.pages = .empty)
      (links : t.links = .empty) (known : s.PageKnown id)
  /-- The page was removed before its update. -/
  | missed (workspaceId : String) (domain : DomainRow) (input : UpsertBioPageInput) (id : Nat)
      (call : t.call = .save workspaceId domain input) (pages : t.pages = .empty)
      (links : t.links = .empty) (known : id < s.nextId)
      (gone : s.PageVersions id fun _ => False)
      (phase : t.phase = .saved id ∨ t.phase = .working (some id) [] ∨
        ∃ destination, t.phase = .working (some id) (insertManagedLink destination))
  | saved (workspaceId : String) (domain : DomainRow) (input : UpsertBioPageInput) (id : Nat)
      (page : Page) (call : t.call = .save workspaceId domain input) (phase : t.phase = .saved id)
      (pages : t.pages = Overlay.empty.put id (some page)) (links : t.links = .empty)
      (written : Written domain input page)
  | working (workspaceId : String) (domain : DomainRow) (input : UpsertBioPageInput) (id : Nat)
      (page : Page) (owned : Option (Nat × Link)) (todo : List LinkStatement)
      (call : t.call = .save workspaceId domain input) (phase : t.phase = .working (some id) todo)
      (pages : t.pages = Overlay.empty.put id (some page)) (written : Written domain input page)
      (confined : Confined s.links t.links (some id))
      (owns : Owns (t.links.over s.links) id owned)
      (pending : Pending d (saveArgs workspaceId domain input id) todo owned)
  /-- A call for a link of a user. -/
  | user (todo : List LinkStatement) (call : ∀ workspaceId id, t.call ≠ .remove workspaceId id)
      (phase : t.phase = .working none todo) (pages : t.pages = .empty)
      (confined : Confined s.links t.links none)
      (deletes : ∀ id, .delete id ∈ todo →
        id < s.nextId ∧ s.LinkVersions id (·.managedBioPageId = none))
      (repoints : ∀ id destination, .repoint id destination ∉ todo)
  | removing (workspaceId : String) (id : Nat) (todo : List LinkStatement)
      (call : t.call = .remove workspaceId id) (phase : t.phase = .working none todo)
      (pages : t.pages = .empty) (confined : Confined s.links t.links (some id))
      (drops : ∀ linkId row, t.links linkId = some row → row = none ∧ (s.links linkId).isSome = true)
      (known : id < s.nextId) (workspace : s.PageVersions id (·.workspaceId = workspaceId))
      (deletes : ∀ linkId, .delete linkId ∈ todo →
        linkId < s.nextId ∧ s.LinkVersions linkId (·.managedBioPageId = some id))
      (only : ∀ statement ∈ todo, ∃ linkId,
        statement = .enqueue linkId .delete ∨ statement = .delete linkId)
  | removed (id : Nat) (phase : t.phase = .ready) (pages : t.pages = Overlay.empty.put id none)
      (confined : Confined s.links t.links (some id)) (owns : Owns (t.links.over s.links) id none)

/-- What holds of every call. -/
structure Sound (d : Deployment) (s : Store) (t : Transaction) : Prop where
  named : ∀ workspaceId domain input, t.call = .save workspaceId domain input →
    domain.domain = d.domainName domain.id
  unique : (t.links.over s.links).Unique Link.key
  linkKept : ∀ id link old, t.links id = some (some link) → s.links id = some old →
    link.key = old.key ∧ link.managedBioPageId = old.managedBioPageId
  pageKept : ∀ id page old, t.pages id = some (some page) → s.pages id = some old →
    page.workspaceId = old.workspaceId
  deleted : ∀ id, t.links id = some none → (id, .delete) ∈ t.enqueued
  announced : ∀ pageId todo, t.phase = .working pageId todo → Announced t.enqueued todo
  progress : Progress d s t

/-! ### Steps of other calls -/

/-- What a step leaves of all versions. -/
structure Grows (s s' : Store) : Prop where
  nextId : s.nextId ≤ s'.nextId
  links : ∀ id owner, id < s.nextId → s.LinkVersions id (·.managedBioPageId = owner) →
    s'.LinkVersions id (·.managedBioPageId = owner)
  pages : ∀ id workspaceId, id < s.nextId → s.PageVersions id (·.workspaceId = workspaceId) →
    s'.PageVersions id (·.workspaceId = workspaceId)
  gone : ∀ id, id < s.nextId → s.PageVersions id (fun _ => False) →
    s'.PageVersions id fun _ => False
  known : ∀ id, s.PageKnown id → s'.PageKnown id

/-- What a step of another call leaves of the tables, for the calls beside it. -/
structure Around (s s' : Store) (t : Transaction) : Prop where
  links : ∀ id, t.links id ≠ none → s'.links id = s.links id
  pages : ∀ id, t.pages id ≠ none → s'.pages id = s.pages id
  unique : (t.links.over s.links).Unique Link.key → (t.links.over s'.links).Unique Link.key
  owns : ∀ id owned, t.pages id ≠ none → Owns (t.links.over s.links) id owned →
    Owns (t.links.over s'.links) id owned

section

variable {d : Deployment} {s s' : Store} {t : Transaction}

theorem Confined.around {owner : Option Nat} (h : Confined s.links t.links owner)
    (ha : Around s s' t) : Confined s'.links t.links owner := by
  intro id hid
  rw [ha.links id hid]
  exact h id hid

theorem ne_none_of_put {ρ : Type} {w : Overlay ρ} {id : Nat} {row : Option ρ}
    (h : w = Overlay.empty.put id row) : w id ≠ none := by
  rw [h, Overlay.put_self]
  exact Option.some_ne_none row

theorem Progress.around (h : Progress d s t) (hg : Grows s s') (ha : Around s s' t) :
    Progress d s' t := by
  cases h with
  | idle pages links phase => exact .idle pages links phase
  | found id phase pages links known => exact .found id phase pages links (hg.known id known)
  | missed workspaceId domain input id call pages links known gone phase =>
    exact .missed workspaceId domain input id call pages links (known.trans_le hg.nextId)
      (hg.gone id known gone) phase
  | saved workspaceId domain input id page call phase pages links written =>
    exact .saved workspaceId domain input id page call phase pages links written
  | working workspaceId domain input id page owned todo call phase pages written confined owns
      pending =>
    exact .working workspaceId domain input id page owned todo call phase pages written
      (confined.around ha) (ha.owns id owned (ne_none_of_put pages) owns) pending
  | user todo call phase pages confined deletes repoints =>
    refine .user todo call phase pages (confined.around ha) (fun id hid => ?_) repoints
    obtain ⟨hknown, hversions⟩ := deletes id hid
    exact ⟨hknown.trans_le hg.nextId, hg.links id none hknown hversions⟩
  | removing workspaceId id todo call phase pages confined drops known workspace deletes only =>
    refine .removing workspaceId id todo call phase pages (confined.around ha) ?_
      (known.trans_le hg.nextId) (hg.pages id workspaceId known workspace) ?_ only
    · intro linkId row hrow
      rw [ha.links linkId (by rw [hrow]; exact Option.some_ne_none row)]
      exact drops linkId row hrow
    · intro linkId hlink
      obtain ⟨hknown, hversions⟩ := deletes linkId hlink
      exact ⟨hknown.trans_le hg.nextId, hg.links linkId (some id) hknown hversions⟩
  | removed id phase pages confined owns =>
    exact .removed id phase pages (confined.around ha)
      (ha.owns id none (ne_none_of_put pages) owns)

/-- **Another call's step takes nothing away.** -/
theorem Sound.around (h : Sound d s t) (hg : Grows s s') (ha : Around s s' t) : Sound d s' t := by
  refine ⟨h.named, ha.unique h.unique, ?_, ?_, h.deleted, h.announced, h.progress.around hg ha⟩
  · intro id link old hlink hold
    rw [ha.links id (by rw [hlink]; exact Option.some_ne_none _)] at hold
    exact h.linkKept id link old hlink hold
  · intro id page old hpage hold
    rw [ha.pages id (by rw [hpage]; exact Option.some_ne_none _)] at hold
    exact h.pageKept id page old hpage hold

end

/-! ### Calls beside each other -/

/-- Two calls touch no row in common, and no address. -/
structure Beside (t u : Transaction) : Prop where
  pages : t.pages.Apart u.pages
  links : t.links.Apart u.links
  keys : ∀ a b link link', t.links a = some (some link) → u.links b = some (some link') →
    link.key ≠ link'.key

theorem Beside.symm {t u : Transaction} (h : Beside t u) : Beside u t :=
  ⟨h.pages.symm, h.links.symm, fun a b link link' ha hb hkey => h.keys b a link' link hb ha hkey.symm⟩

/-- A call has touched no row from this id on. -/
def Fresh (t : Transaction) (n : Nat) : Prop :=
  ∀ id, n ≤ id → t.pages id = none ∧ t.links id = none

/-- What holds of what is committed and of all calls. -/
structure Inv (d : Deployment) (s : Store) : Prop where
  inStep : InStep d s.pages s.links
  pagesFresh : ∀ id, s.nextId ≤ id → s.pages id = none
  linksFresh : ∀ id, s.nextId ≤ id → s.links id = none
  fresh : ∀ t ∈ s.calls, Fresh t s.nextId
  beside : s.calls.Pairwise Beside
  sound : ∀ t ∈ s.calls, Sound d s t

end SnapUrl.Bio.Saves
