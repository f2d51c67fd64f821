import SnapUrl.Bio.ManagedLink
import SnapUrl.Lib.Run
import SnapUrl.Links.Targets

/-!
# Links that are taken down

The writers of `links.disabled_at`, which are `disableLink` of the admin moderation surface, the
report that an admin acts on and `maybeQuarantine`, beside what a workspace does with its links
and pages: `update` and `clone` of `apps/api/src/links/links.service.ts`, and `upsert` of
`apps/api/src/bio-pages/bio-pages.service.ts`.

* `Takedown`: a short URL that was taken down, kept beside the tables.
* `Store.perform`: the operations, one after the other.
* `StaysDown`: no visitor of a short URL that was taken down is sent on to what was taken down.
* `PutsBack`: **what puts a link back**, a published page above all, at an address that it left
  with a link that was taken down.
* `staysDown`: as long as nothing puts a link back, what was taken down stays down.
-/

namespace SnapUrl.Bio.Takedowns

open Lib Domain Redirect Links Links.Creation

/-! ### Tables -/

/-- A row of `links`. -/
structure LinkRow where
  id : Nat
  link : StoredLink
  managedBioPageId : Option Nat
  archivedAt : Option Int
  disabledAt : Option Int
deriving DecidableEq, Repr

def LinkRow.key (row : LinkRow) : String × String := row.link.key

/-- A short URL with the link that was taken down there. -/
structure Takedown where
  key : String × String
  linkId : Nat
  destination : String
  /-- The link was one of a bio page. -/
  managed : Bool
deriving DecidableEq, Repr

/-- A row of `bio_pages`. -/
structure PageRow extends Page where
  id : Nat
deriving DecidableEq, Repr

structure Store where
  links : List LinkRow
  pages : List PageRow
  /-- No row has had this id, nor one above. -/
  nextId : Nat
  /-- What was taken down, and not put up again by an admin since. -/
  takedowns : List Takedown
deriving DecidableEq, Repr

/-- The link is the one that was taken down, or points where that one did. -/
def LinkRow.Answers (row : LinkRow) (t : Takedown) : Prop :=
  row.key = t.key ∧ (row.id = t.linkId ∨ row.link.destination = t.destination ∨
    t.managed = true ∧ row.managedBioPageId.isSome = true)

instance (row : LinkRow) (t : Takedown) : Decidable (row.Answers t) :=
  inferInstanceAs (Decidable (_ ∧ _))

/-- The link as the redirect resolves it. -/
def LinkRow.resolved (row : LinkRow) (ruleIds : Nat → String) (clicks : Int)
    (ownerUnverified : Bool) : ResolvedLink :=
  row.link.resolved ⟨toString row.id, ruleIds, clicks, row.archivedAt.isSome,
    row.disabledAt.isSome, ownerUnverified, row.link.safeBrowsingStatus⟩

/-- **What was taken down stays down**: whoever visits the short URL, and whenever, is sent on
to no URL of a link that answers there. -/
def StaysDown (s : Store) : Prop :=
  ∀ t ∈ s.takedowns, ∀ row ∈ s.links, row.Answers t →
    ∀ (p : Platform) (cfg : Config) (req : Request) (ans : Answers) (ruleIds : Nat → String)
      (clicks : Int) (ownerUnverified : Bool),
      ans.link = some (row.resolved ruleIds clicks ownerUnverified) →
      locationOf (handle p cfg req ans).exit = none

/-! ### Operations -/

/-- The update of the row with an id. -/
def Store.modifyLink (s : Store) (id : Nat) (f : LinkRow → LinkRow) : Store :=
  { s with links := s.links.map fun row => if row.id = id then f row else row }

def Store.findLink (s : Store) (id : Nat) : Option LinkRow := s.links.find? (·.id = id)

/-- A short URL goes down with the link that stands there. -/
def LinkRow.takedown (row : LinkRow) : Takedown :=
  ⟨row.key, row.id, row.link.destination, row.managedBioPageId.isSome⟩

/-- `disabled_at` is set. -/
def Store.takeDown (s : Store) (row : LinkRow) (now : Int) : Store :=
  { s.modifyLink row.id fun row => { row with disabledAt := some now } with
    takedowns := row.takedown :: s.takedowns }

/-- `disabled_at` is cleared. -/
def Store.putUp (s : Store) (row : LinkRow) : Store :=
  { s.modifyLink row.id fun row => { row with disabledAt := none } with
    takedowns := s.takedowns.filter (·.key ≠ row.key) }

/-- `disableLink` of the admin moderation surface. -/
def Store.disableLink (s : Store) (id : Nat) (disabled : Bool) (now : Int) : Store :=
  match s.findLink id with
  | none => s
  | some row => if disabled then s.takeDown row now else s.putUp row

/-- `maybeQuarantine`, and a report that an admin acts on: where the link is not disabled. -/
def Store.quarantine (s : Store) (id : Nat) (now : Int) : Store :=
  match s.findLink id with
  | none => s
  | some row => if row.disabledAt.isSome then s else s.takeDown row now

/-- `getFrom`: a workspace reaches the links that no page owns. -/
def Store.getFrom (s : Store) (workspaceId : String) (id : Nat) : Option LinkRow :=
  s.links.find? fun row =>
    row.id = id && row.link.workspaceId = workspaceId && row.managedBioPageId.isNone

/-- The settings beside the links as they stand. -/
def Store.tables (s : Store) (settings : State) : State :=
  { settings with links := s.links.map (·.link) }

/-- What an edit writes. -/
def LinkRow.edited (row : LinkRow) (patch : Patch) (archived : Option Bool) (now : Int) : LinkRow :=
  { row with
    link := patch.apply row.link
    archivedAt := match archived with
      | none => row.archivedAt
      | some true => some now
      | some false => none }

def Store.update (s : Store) (e : Environment) (settings : State) (id : Nat)
    (input : UpdateLinkInput) (archived : Option Bool) : Store :=
  match s.getFrom settings.workspaceId id with
  | none => s
  | some existing =>
    match Creation.update e (s.tables settings) existing.link input with
    | .error _ => s
    | .ok patch => s.modifyLink id (·.edited patch archived e.now)

def Store.clone (s : Store) (e : Environment) (settings : State) (id : Nat)
    (ruleIds : Nat → String) (input : CloneLinkInput) (draws : Nat → Draw) : Store :=
  match s.getFrom settings.workspaceId id with
  | none => s
  | some source =>
    match settings.domains.find? (·.id = source.link.domainId) with
    | none => s
    | some domain =>
      match Creation.clone e (s.tables settings) domain.domain ruleIds source.link input draws with
      | .error _ => s
      | .ok link =>
        { s with links := s.links ++ [⟨s.nextId, link, none, none, none⟩], nextId := s.nextId + 1 }

/-! ### Saving a page -/

/-- The page that a save by its id finds, or moves. -/
def Store.saveById (s : Store) (workspaceId domainId : String) (id : Nat)
    (input : UpsertBioPageInput) : Option (Store × Nat) :=
  match s.pages.find? fun page => page.id = id && page.workspaceId = workspaceId with
  | none => none
  | some _ =>
    if s.pages.any fun page => page.id ≠ id && page.key = (domainId, asciiLower input.slug) then none
    else some ({ s with pages := s.pages.map fun page =>
        if page.id = id then
          { page with domainId := domainId, slug := input.slug, live := input.live }
        else page }, id)

/-- The page at the address, which is another workspace's, the caller's own, or a new one. -/
def Store.saveByAddress (s : Store) (workspaceId domainId : String) (input : UpsertBioPageInput) :
    Option (Store × Nat) :=
  match s.pages.find? fun page => page.key = (domainId, asciiLower input.slug) with
  | some page =>
    if page.workspaceId ≠ workspaceId then none
    else some ({ s with pages := s.pages.map fun row =>
        if row.id = page.id then { row with live := input.live } else row }, page.id)
  | none => some ({ s with
      pages := s.pages ++ [⟨⟨workspaceId, domainId, input.slug, input.live⟩, s.nextId⟩]
      nextId := s.nextId + 1 }, s.nextId)

def Store.savePage (s : Store) (workspaceId domainId : String) (input : UpsertBioPageInput) :
    Option (Store × Nat) :=
  match input.id with
  | some id => s.saveById workspaceId domainId id input
  | none => s.saveByAddress workspaceId domainId input

/-- The link that a page owns. -/
def Store.owned (s : Store) (pageId : Nat) : Option OwnedLink :=
  (s.links.find? (·.managedBioPageId = some pageId)).map fun row =>
    ⟨row.id, row.link.slug, row.link.destination, row.link.domainId⟩

/-- A statement of `reconcileManagedLink`, none where the index on links refuses it. -/
def Store.execute (e : Environment) (args : ReconcileArgs) (s : Store) :
    LinkStatement → Option Store
  | .enqueue _ _ => some s
  | .enqueueInserted => some s
  | .delete linkId => some { s with links := s.links.filter (·.id ≠ linkId) }
  | .repoint linkId destination => some <| s.modifyLink linkId fun row =>
      { row with link := { row.link with destination := destination } }
  | .insert destination =>
    if args.key ∈ s.links.map (·.key) then none
    else some { s with
      links := s.links ++
        [⟨s.nextId, managedLink e args destination, some args.bioPageId, none, none⟩]
      nextId := s.nextId + 1 }

/-- `upsert`, where all is rolled back that does not end well. -/
def Store.upsert (s : Store) (e : Environment) (webOrigin : String) (settings : State)
    (input : UpsertBioPageInput) : Store :=
  match saveDomain e.p settings input with
  | .error _ => s
  | .ok domain =>
    match s.savePage settings.workspaceId domain.id input with
    | none => s
    | some (saved, pageId) =>
      let args : ReconcileArgs :=
        ⟨pageId, settings.workspaceId, domain.id, domain.domain, input.slug, input.live⟩
      ((reconcileManagedLink webOrigin args (saved.owned pageId)).foldlM
        (Store.execute e args) saved).getD s

/-- What is done to links and pages, with all that is read besides. -/
inductive Operation where
  | disableLink (id : Nat) (disabled : Bool) (now : Int)
  | quarantine (id : Nat) (now : Int)
  | update (e : Environment) (settings : State) (id : Nat) (input : UpdateLinkInput)
      (archived : Option Bool)
  | clone (e : Environment) (settings : State) (id : Nat) (ruleIds : Nat → String)
      (input : CloneLinkInput) (draws : Nat → Draw)
  | upsert (e : Environment) (webOrigin : String) (settings : State) (input : UpsertBioPageInput)

def Store.perform (s : Store) : Operation → Store
  | .disableLink id disabled now => s.disableLink id disabled now
  | .quarantine id now => s.quarantine id now
  | .update e settings id input archived => s.update e settings id input archived
  | .clone e settings id ruleIds input draws => s.clone e settings id ruleIds input draws
  | .upsert e webOrigin settings input => s.upsert e webOrigin settings input

def step (s : Store) (op : Operation) : Option Store := some (s.perform op)

/-! ### What puts a link back -/

/-- The back-halves that a clone may get. -/
def cloneSlug (input : CloneLinkInput) (draws : Nat → Draw) (attempt : Nat) : String :=
  if truthy input.slug then orEmpty input.slug else generateSlug (draws attempt)

/-- **An operation puts a link back**: at an address that was taken down, and where no link
stands any more, a page is published, or a link cloned that has the destination that was taken
down; or a link that is up, and stands at such an address, is edited to have it. -/
def PutsBack (s : Store) : Operation → Prop
  | .upsert e _ settings input => input.live = true ∧ ∃ domain,
      saveDomain e.p settings input = .ok domain ∧
        (s.savePage settings.workspaceId domain.id input).isSome = true ∧
        ∃ t ∈ s.takedowns, t.managed = true ∧ t.key = (domain.id, asciiLower input.slug) ∧
          t.key ∉ s.links.map (·.key)
  | .clone _ settings id _ input draws => ∃ source,
      s.getFrom settings.workspaceId id = some source ∧
        ∃ t ∈ s.takedowns, t.destination = source.link.destination ∧
          t.key ∉ s.links.map (·.key) ∧
          ∃ attempt, attempt < SLUG_RETRY_LIMIT ∧
            t.key.2 = asciiLower (cloneSlug input draws attempt)
  | .update _ settings id input _ => ∃ existing,
      s.getFrom settings.workspaceId id = some existing ∧ existing.disabledAt = none ∧
        ∃ destination, input.destination = some destination ∧
          ∃ t ∈ s.takedowns, t.key = existing.key ∧ t.destination = destination
  | .disableLink _ _ _ => False
  | .quarantine _ _ => False

/-! ### What is kept -/

/-- The tables, and what was taken down. -/
structure Kept (s : Store) : Prop where
  /-- The index on links. -/
  keys : Set.InjOn LinkRow.key {row | row ∈ s.links}
  /-- The primary key. -/
  ids : Set.InjOn LinkRow.id {row | row ∈ s.links}
  fresh : ∀ row ∈ s.links, row.id < s.nextId
  known : ∀ t ∈ s.takedowns, t.linkId < s.nextId
  /-- A link that no page owns is still there. -/
  ordinary : ∀ t ∈ s.takedowns, t.managed = false →
    ∃ row ∈ s.links, row.id = t.linkId ∧ row.key = t.key ∧ row.managedBioPageId = none
  down : ∀ t ∈ s.takedowns, ∀ row ∈ s.links, row.Answers t → row.disabledAt.isSome = true

/-- A change of rows that leaves each its id, its address and its page. -/
structure Stays (g : LinkRow → LinkRow) : Prop where
  id : ∀ row, (g row).id = row.id
  key : ∀ row, (g row).key = row.key
  page : ∀ row, (g row).managedBioPageId = row.managedBioPageId

section

variable {s : Store}

theorem stays_ite {id : Nat} {f : LinkRow → LinkRow} (hf : Stays f) :
    Stays fun row => if row.id = id then f row else row := by
  refine ⟨fun row => ?_, fun row => ?_, fun row => ?_⟩
  · split
    · exact hf.id row
    · rfl
  · split
    · exact hf.key row
    · rfl
  · split
    · exact hf.page row
    · rfl

/-- What is kept of a change of rows, with takedowns of rows that are there. -/
theorem kept_map {g : LinkRow → LinkRow} {takedowns : List Takedown} (h : Kept s) (hg : Stays g)
    (htakedowns : ∀ t ∈ takedowns, t ∈ s.takedowns ∨ ∃ row ∈ s.links, t = row.takedown)
    (hdown : ∀ t ∈ takedowns, ∀ row ∈ s.links, (g row).Answers t →
      (g row).disabledAt.isSome = true) :
    Kept { s with links := s.links.map g, takedowns := takedowns } := by
  refine ⟨?_, ?_, ?_, ?_, ?_, ?_⟩
  · intro a ha b hb hkey
    obtain ⟨old, hold, rfl⟩ := List.mem_map.mp ha
    obtain ⟨old', hold', rfl⟩ := List.mem_map.mp hb
    rw [hg.key, hg.key] at hkey
    exact congrArg g (h.keys hold hold' hkey)
  · intro a ha b hb hid
    obtain ⟨old, hold, rfl⟩ := List.mem_map.mp ha
    obtain ⟨old', hold', rfl⟩ := List.mem_map.mp hb
    rw [hg.id, hg.id] at hid
    exact congrArg g (h.ids hold hold' hid)
  · intro row hrow
    obtain ⟨old, hold, rfl⟩ := List.mem_map.mp hrow
    rw [hg.id]
    exact h.fresh old hold
  · intro t ht
    rcases htakedowns t ht with ht | ⟨row, hrow, rfl⟩
    · exact h.known t ht
    · exact h.fresh row hrow
  · intro t ht hordinary
    rcases htakedowns t ht with ht | ⟨row, hrow, rfl⟩
    · obtain ⟨row, hrow, hid, hkey, hpage⟩ := h.ordinary t ht hordinary
      exact ⟨g row, List.mem_map_of_mem hrow, (hg.id row).trans hid, (hg.key row).trans hkey,
        (hg.page row).trans hpage⟩
    · exact ⟨g row, List.mem_map_of_mem hrow, hg.id row, hg.key row,
        (hg.page row).trans (Option.isSome_eq_false_iff.mp hordinary |> Option.isNone_iff_eq_none.mp)⟩
  · intro t ht row hrow hanswers
    obtain ⟨old, hold, rfl⟩ := List.mem_map.mp hrow
    exact hdown t ht old hold hanswers

/-- Links of pages may go. -/
theorem kept_delete {linkId : Nat} (h : Kept s)
    (hmanaged : ∀ row ∈ s.links, row.id = linkId → row.managedBioPageId.isSome = true) :
    Kept { s with links := s.links.filter (·.id ≠ linkId) } := by
  have hsub : ∀ row ∈ s.links.filter (·.id ≠ linkId), row ∈ s.links :=
    fun row hrow => List.mem_of_mem_filter hrow
  refine ⟨h.keys.mono hsub, h.ids.mono hsub, fun row hrow => h.fresh row (hsub row hrow), h.known,
    ?_, fun t ht row hrow => h.down t ht row (hsub row hrow)⟩
  intro t ht hordinary
  obtain ⟨row, hrow, hid, hkey, hpage⟩ := h.ordinary t ht hordinary
  refine ⟨row, List.mem_filter.mpr ⟨hrow, decide_eq_true ?_⟩, hid, hkey, hpage⟩
  intro hgone
  have := hmanaged row hrow hgone
  rw [hpage] at this
  cases this

/-- A link may be added at an address where none stands. -/
theorem kept_add {row : LinkRow} (h : Kept s) (hid : row.id = s.nextId)
    (hkey : row.key ∉ s.links.map (·.key)) (hdown : ∀ t ∈ s.takedowns, ¬ row.Answers t) :
    Kept { s with links := s.links ++ [row], nextId := s.nextId + 1 } := by
  have hmem : ∀ other, other ∈ s.links ++ [row] ↔ other ∈ s.links ∨ other = row := by simp
  have hnew : ∀ other ∈ s.links, other.id ≠ row.id := by
    intro other hother
    have := h.fresh other hother
    omega
  refine ⟨?_, ?_, ?_, ?_, ?_, ?_⟩
  · intro a ha b hb hab
    rcases (hmem a).mp ha with hold | rfl
    · rcases (hmem b).mp hb with hold' | rfl
      · exact h.keys hold hold' hab
      · exact absurd (hab ▸ List.mem_map_of_mem hold) hkey
    · rcases (hmem b).mp hb with hold' | rfl
      · exact absurd (hab ▸ List.mem_map_of_mem hold') hkey
      · rfl
  · intro a ha b hb hab
    rcases (hmem a).mp ha with hold | rfl
    · rcases (hmem b).mp hb with hold' | rfl
      · exact h.ids hold hold' hab
      · exact absurd hab (hnew a hold)
    · rcases (hmem b).mp hb with hold' | rfl
      · exact absurd hab.symm (hnew b hold')
      · rfl
  · intro other hother
    rcases (hmem other).mp hother with hother | rfl
    · exact Nat.lt_succ_of_lt (h.fresh other hother)
    · exact Nat.lt_succ_of_le hid.le
  · exact fun t ht => Nat.lt_succ_of_lt (h.known t ht)
  · intro t ht hordinary
    obtain ⟨other, hother, hrest⟩ := h.ordinary t ht hordinary
    exact ⟨other, (hmem other).mpr (Or.inl hother), hrest⟩
  · intro t ht other hother hanswers
    rcases (hmem other).mp hother with hother | rfl
    · exact h.down t ht other hother hanswers
    · exact absurd hanswers (hdown t ht)

/-- What is kept does not depend on the pages. -/
theorem Kept.congr {s' : Store} (h : Kept s) (hlinks : s'.links = s.links)
    (htakedowns : s'.takedowns = s.takedowns) (hnext : s.nextId ≤ s'.nextId) : Kept s' := by
  refine ⟨hlinks ▸ h.keys, hlinks ▸ h.ids, ?_, ?_, ?_, ?_⟩
  · exact fun row hrow => (h.fresh row (hlinks ▸ hrow)).trans_le hnext
  · exact fun t ht => (h.known t (htakedowns ▸ ht)).trans_le hnext
  · rw [hlinks, htakedowns]
    exact h.ordinary
  · rw [hlinks, htakedowns]
    exact h.down

/-! ### The administrators -/

theorem kept_takeDown {row : LinkRow} {now : Int} (h : Kept s) (hrow : row ∈ s.links) :
    Kept (s.takeDown row now) := by
  refine kept_map h (stays_ite ⟨fun _ => rfl, fun _ => rfl, fun _ => rfl⟩) ?_ ?_
  · intro t ht
    rcases List.mem_cons.mp ht with rfl | ht
    · exact Or.inr ⟨row, hrow, rfl⟩
    · exact Or.inl ht
  · intro t ht other hother
    dsimp only
    split
    · exact fun _ => rfl
    · rename_i hid
      intro hanswers
      rcases List.mem_cons.mp ht with rfl | ht
      · exact absurd (congrArg LinkRow.id (h.keys hother hrow hanswers.1)) hid
      · exact h.down t ht other hother hanswers

theorem kept_putUp {row : LinkRow} (h : Kept s) (hrow : row ∈ s.links) : Kept (s.putUp row) := by
  refine kept_map h (stays_ite ⟨fun _ => rfl, fun _ => rfl, fun _ => rfl⟩)
    (fun t ht => Or.inl (List.mem_of_mem_filter ht)) ?_
  intro t ht other hother
  obtain ⟨ht, hkey⟩ := List.mem_filter.mp ht
  dsimp only
  split
  · rename_i hid
    obtain rfl := h.ids hother hrow hid
    exact fun hanswers => absurd hanswers.1.symm (of_decide_eq_true hkey)
  · exact h.down t ht other hother

theorem mem_of_findLink {id : Nat} {row : LinkRow} (h : s.findLink id = some row) :
    row ∈ s.links := List.mem_of_find?_eq_some h

/-! ### Edits and clones -/

theorem getFrom_spec {workspaceId : String} {id : Nat} {row : LinkRow}
    (h : s.getFrom workspaceId id = some row) :
    row ∈ s.links ∧ row.id = id ∧ row.managedBioPageId = none := by
  have hfound := List.find?_some h
  simp only [Bool.and_eq_true, decide_eq_true_eq, Option.isNone_iff_eq_none] at hfound
  exact ⟨List.mem_of_find?_eq_some h, hfound.1.1, hfound.2⟩

theorem kept_update {e : Environment} {settings : State} {id : Nat} {input : UpdateLinkInput}
    {archived : Option Bool} (h : Kept s)
    (hback : ¬ PutsBack s (.update e settings id input archived)) :
    Kept (s.update e settings id input archived) := by
  rw [Store.update]
  cases hfound : s.getFrom settings.workspaceId id with
  | none => exact h
  | some existing =>
    dsimp only
    cases hupdate : Creation.update e (s.tables settings) existing.link input with
    | error err => exact h
    | ok patch =>
      obtain ⟨-, rfl⟩ := update_eq_ok_iff.mp hupdate
      obtain ⟨hexisting, hid, hpage⟩ := getFrom_spec hfound
      refine kept_map h (stays_ite ⟨fun _ => rfl, fun _ => rfl, fun _ => rfl⟩)
        (fun t ht => Or.inl ht) ?_
      intro t ht other hother
      dsimp only
      split
      · rename_i hother'
        obtain rfl := h.ids hother hexisting (hother'.trans hid.symm)
        rintro ⟨hkey, hanswers⟩
        -- the row is the one that was taken down, or is edited to point there
        cases hnew : input.destination with
        | none =>
          refine h.down t ht other hother ⟨hkey, ?_⟩
          simpa [LinkRow.edited, Patch.apply, patchOf, hnew] using hanswers
        | some destination =>
          rcases hanswers with hsame | hdestination | ⟨-, hmanaged⟩
          · exact h.down t ht other hother ⟨hkey, Or.inl hsame⟩
          · have hpoints : t.destination = destination := by
              simpa [LinkRow.edited, Patch.apply, patchOf, hnew] using hdestination.symm
            by_contra hup
            refine hback ⟨other, hfound, ?_, destination, hnew, t, ht, hkey.symm, hpoints⟩
            exact Option.not_isSome_iff_eq_none.mp hup
          · have hnone : other.managedBioPageId.isSome = true := hmanaged
            rw [hpage] at hnone
            cases hnone
      · exact h.down t ht other hother

/-- The back-half that is settled on is free, and one of those that are drawn. -/
theorem settleFrom_spec {tables : State} {n : Nat} {q : Prepared} (h : freeWithin tables n q) :
    tables.taken (settleFrom tables n q).key = false ∧
      ∃ k < n, settleFrom tables n q = { q with attempt := q.attempt + k } := by
  induction n generalizing q with
  | zero => exact absurd h id
  | succ n ih =>
    rw [settleFrom]
    cases htaken : tables.taken q.key with
    | false =>
      rw [if_neg Bool.false_ne_true]
      exact ⟨htaken, 0, Nat.succ_pos n, rfl⟩
    | true =>
      have hrest : freeWithin tables n q.redraw := h.resolve_left (by simp [htaken])
      obtain ⟨hfree, k, hk, hsettled⟩ := ih hrest
      rw [if_pos rfl]
      refine ⟨hfree, k + 1, Nat.succ_lt_succ hk, hsettled.trans ?_⟩
      simp only [Prepared.redraw, Nat.add_assoc, Nat.add_comm 1 k]

/-- What a clone stores stands where no link does, under a back-half that it may get. -/
theorem clone_spec {e : Environment} {settings : State} {domain : String} {ruleIds : Nat → String}
    {source link : StoredLink} {input : CloneLinkInput} {draws : Nat → Draw}
    (h : Creation.clone e (s.tables settings) domain ruleIds source input draws = .ok link) :
    link.key ∉ s.links.map (·.key) ∧ link.destination = source.destination ∧
      ∃ attempt, attempt < SLUG_RETRY_LIMIT ∧
        link.key.2 = asciiLower (cloneSlug input draws attempt) := by
  refine ⟨?_, (urls_of_insert h).2.1, ?_⟩
  all_goals
    obtain ⟨domain', -, -, -, hacceptable, rfl⟩ := insert_eq_ok_iff.mp h
    obtain ⟨hfree, k, hk, hsettled⟩ := settleFrom_spec hacceptable.free
    rw [key_link]
  · have hkeys : (s.tables settings).links.map (·.key) = s.links.map (·.key) := by
      rw [Store.tables, List.map_map]
      rfl
    rw [← hkeys]
    exact of_decide_eq_false hfree
  · rw [Prepared.settled, hsettled]
    refine ⟨k, hk.trans_le ?_, congrArg asciiLower ?_⟩
    · rw [Prepared.tries]
      split
      · exact (by decide)
      · exact le_rfl
    · have hslug : truthy (if truthy input.slug then input.slug else none) =
          truthy input.slug := by
        split
        · rfl
        · rename_i hnot
          exact (Bool.eq_false_of_not_eq_true hnot).symm
      rw [Prepared.slug, cloneSlug]
      simp only [cloneInput, hslug, Nat.zero_add]
      split
      · rfl
      · rfl

theorem kept_clone {e : Environment} {settings : State} {id : Nat} {ruleIds : Nat → String}
    {input : CloneLinkInput} {draws : Nat → Draw} (h : Kept s)
    (hback : ¬ PutsBack s (.clone e settings id ruleIds input draws)) :
    Kept (s.clone e settings id ruleIds input draws) := by
  rw [Store.clone]
  split
  · exact h
  · rename_i source hfound
    split
    · exact h
    · split
      · exact h
      · rename_i link hclone
        obtain ⟨hkey, hdestination, attempt, hattempt, hslug⟩ := clone_spec hclone
        refine kept_add h rfl hkey ?_
        rintro t ht ⟨hat, hsame | hpoints | ⟨-, hmanaged⟩⟩
        · exact absurd (h.known t ht) (by rw [← hsame]; exact lt_irrefl _)
        · refine hback ⟨source, hfound, t, ht, hpoints.symm.trans hdestination, ?_, attempt,
            hattempt, ?_⟩
          · rw [← hat]
            exact hkey
          · rw [← hat]
            exact hslug
        · cases hmanaged

/-! ### Saved pages -/

/-- Saving a page leaves the links alone. -/
theorem savePage_spec {workspaceId domainId : String} {input : UpsertBioPageInput} {saved : Store}
    {pageId : Nat} (h : s.savePage workspaceId domainId input = some (saved, pageId)) :
    saved.links = s.links ∧ saved.takedowns = s.takedowns ∧ s.nextId ≤ saved.nextId := by
  rw [Store.savePage] at h
  split at h
  · rw [Store.saveById] at h
    split at h
    · cases h
    · split at h
      · cases h
      · cases h
        exact ⟨rfl, rfl, le_rfl⟩
  · rw [Store.saveByAddress] at h
    split at h
    · split at h
      · cases h
      · cases h
        exact ⟨rfl, rfl, le_rfl⟩
    · cases h
      exact ⟨rfl, rfl, Nat.le_succ _⟩

section Reconcile

variable {e : Environment} {args : ReconcileArgs} {destination : String} {s' : Store}

/-- A link of a page is inserted where nothing was taken down. -/
theorem kept_insertManagedLink (h : Kept s) (hclear : ∀ t ∈ s.takedowns, t.key ≠ args.key)
    (hs' : (insertManagedLink destination).foldlM (Store.execute e args) s = some s') :
    Kept s' := by
  simp only [insertManagedLink, List.foldlM_cons, List.foldlM_nil, Store.execute] at hs'
  split at hs'
  · cases hs'
  · rename_i hkey
    cases hs'
    exact kept_add h rfl hkey fun t ht hanswers => hclear t ht hanswers.1.symm

/-- Where a link can be inserted nothing was taken down, when nothing is put back. -/
theorem clear_of_free (h : Kept s) (hfree : args.key ∉ s.links.map (·.key))
    (hback : ∀ t ∈ s.takedowns, t.managed = true → t.key = args.key →
      t.key ∈ s.links.map (·.key)) : ∀ t ∈ s.takedowns, t.key ≠ args.key := by
  intro t ht hkey
  cases hmanaged : t.managed with
  | true => exact hfree (hkey ▸ hback t ht hmanaged hkey)
  | false =>
    obtain ⟨row, hrow, -, hrowkey, -⟩ := h.ordinary t ht hmanaged
    exact hfree (List.mem_map.mpr ⟨row, hrow, hrowkey.trans hkey⟩)

/-- What a statement inserts is where no link stands. -/
theorem free_of_insert
    (hs' : (insertManagedLink destination).foldlM (Store.execute e args) s = some s') :
    args.key ∉ s.links.map (·.key) := by
  simp only [insertManagedLink, List.foldlM_cons, List.foldlM_nil, Store.execute] at hs'
  split at hs'
  · cases hs'
  · assumption

theorem owned_spec {pageId : Nat} {owned : OwnedLink} (h : s.owned pageId = some owned) :
    ∃ row ∈ s.links, row.managedBioPageId = some pageId ∧
      owned = ⟨row.id, row.link.slug, row.link.destination, row.link.domainId⟩ := by
  obtain ⟨row, hrow, rfl⟩ := Option.map_eq_some_iff.mp h
  exact ⟨row, List.mem_of_find?_eq_some hrow, by simpa using List.find?_some hrow, rfl⟩

/-- The owned link goes, whichever statement it was found for. -/
theorem kept_deleteOwned {row : LinkRow} (h : Kept s) (hrow : row ∈ s.links)
    (hpage : row.managedBioPageId.isSome = true) :
    Kept { s with links := s.links.filter (·.id ≠ row.id) } :=
  kept_delete h fun _ hother hid => h.ids hother hrow hid ▸ hpage

theorem kept_reconcile {webOrigin : String} {pageId : Nat} (h : Kept s)
    (hback : args.live = true → ∀ t ∈ s.takedowns, t.managed = true → t.key = args.key →
      t.key ∈ s.links.map (·.key))
    (hs' : (reconcileManagedLink webOrigin args (s.owned pageId)).foldlM
      (Store.execute e args) s = some s') : Kept s' := by
  cases hlive : args.live with
  | false =>
    -- a draft owns no link
    cases howned : s.owned pageId with
    | none =>
      simp only [howned, reconcileManagedLink, hlive, Bool.not_false, if_true, List.foldlM_nil]
        at hs'
      cases hs'
      exact h
    | some owned =>
      obtain ⟨row, hrow, hpage, rfl⟩ := owned_spec howned
      simp only [howned, reconcileManagedLink, hlive, Bool.not_false, if_true, deleteLink,
        List.foldlM_cons, List.foldlM_nil, Store.execute] at hs'
      cases hs'
      exact kept_deleteOwned h hrow (by rw [hpage]; rfl)
  | true =>
    cases howned : s.owned pageId with
    | none =>
      simp only [howned, reconcileManagedLink, hlive, Bool.not_true, Bool.false_eq_true, if_false]
        at hs'
      exact kept_insertManagedLink h (clear_of_free h (free_of_insert hs') (hback hlive)) hs'
    | some owned =>
      obtain ⟨row, hrow, hpage, rfl⟩ := owned_spec howned
      have hmanaged : row.managedBioPageId.isSome = true := by
        rw [hpage]
        rfl
      simp only [howned, reconcileManagedLink, hlive, Bool.not_true, Bool.false_eq_true,
        if_false] at hs'
      split at hs'
      · cases hs'
        exact h
      · split at hs'
        · -- the link moves: no takedown is where it goes, nor where it was
          rename_i hmoved
          rw [List.foldlM_append] at hs'
          simp only [deleteLink, List.foldlM_cons, List.foldlM_nil, Store.execute] at hs'
          have hfree := free_of_insert hs'
          refine kept_insertManagedLink (kept_deleteOwned h hrow hmanaged)
            (clear_of_free (s := s) h ?_ (hback hlive)) hs'
          intro hmem
          obtain ⟨other, hother, hkey⟩ := List.mem_map.mp hmem
          refine hfree (List.mem_map.mpr ⟨other, List.mem_filter.mpr ⟨hother, ?_⟩, hkey⟩)
          refine decide_eq_true fun hid => ?_
          obtain rfl := h.ids hother hrow hid
          rcases hmoved with hdomain | hslug
          · exact hdomain (congrArg Prod.fst hkey)
          · exact hslug (congrArg Prod.snd hkey)
        · -- the link stays, as it is but for its destination
          simp only [List.foldlM_cons, List.foldlM_nil, Store.execute] at hs'
          cases hs'
          refine kept_map h (stays_ite ⟨fun _ => rfl, fun _ => rfl, fun _ => rfl⟩)
            (fun t ht => Or.inl ht) ?_
          intro t ht other hother
          dsimp only
          split
          · rename_i hid
            obtain rfl := h.ids hother hrow hid
            rintro ⟨hkey, -⟩
            cases ht' : t.managed with
            | true => exact h.down t ht other hother ⟨hkey, Or.inr (Or.inr ⟨ht', hmanaged⟩)⟩
            | false =>
              obtain ⟨first, hfirst, -, hfirstkey, hnone⟩ := h.ordinary t ht ht'
              obtain rfl := h.keys hfirst hother (hfirstkey.trans hkey.symm)
              rw [hnone] at hmanaged
              cases hmanaged
          · exact h.down t ht other hother

end Reconcile

theorem kept_upsert {e : Environment} {webOrigin : String} {settings : State}
    {input : UpsertBioPageInput} (h : Kept s)
    (hback : ¬ PutsBack s (.upsert e webOrigin settings input)) :
    Kept (s.upsert e webOrigin settings input) := by
  rw [Store.upsert]
  split
  · exact h
  · rename_i domain hdomain
    split
    · exact h
    · rename_i saved pageId hsaved
      obtain ⟨hlinks, htakedowns, hnext⟩ := savePage_spec hsaved
      dsimp only
      generalize hreconciled : List.foldlM (m := Option) (Store.execute e _) saved _ = result
      cases result with
      | none => exact h
      | some s' =>
        refine kept_reconcile (h.congr hlinks htakedowns hnext) ?_ hreconciled
        rw [hlinks, htakedowns]
        intro hlive t ht hmanaged hkey
        by_contra hstands
        exact hback ⟨hlive, domain, hdomain, by rw [hsaved]; rfl, t, ht, hmanaged, hkey, hstands⟩

/-! ### Runs -/

theorem kept_step (s : Store) (op : Operation) (s' : Store) (h : Kept s) (hback : ¬ PutsBack s op)
    (hs' : step s op = some s') : Kept s' := by
  obtain rfl := Option.some.inj hs'
  cases op with
  | disableLink id disabled now =>
    rw [Store.perform, Store.disableLink]
    split
    · exact h
    · rename_i row hrow
      split
      · exact kept_takeDown h (mem_of_findLink hrow)
      · exact kept_putUp h (mem_of_findLink hrow)
  | quarantine id now =>
    rw [Store.perform, Store.quarantine]
    split
    · exact h
    · rename_i row hrow
      split
      · exact h
      · exact kept_takeDown h (mem_of_findLink hrow)
  | update e settings id input archived => exact kept_update h hback
  | clone e settings id ruleIds input draws => exact kept_clone h hback
  | upsert e webOrigin settings input => exact kept_upsert h hback

/-- Of a link that is disabled nobody is sent on. -/
theorem locationOf_disabled {p : Platform} {cfg : Config} {req : Request} {ans : Answers}
    {link : ResolvedLink} (hlink : ans.link = some link) (hdisabled : link.disabled = true) :
    locationOf (handle p cfg req ans).exit = none := by
  have hgate : gateFor p link ans.now = some .disabled := by
    rw [gateFor, effectiveGate, if_pos (by simp [ResolvedLink.gateInput, hdisabled])]
  rw [handle, hlink]
  split
  · rfl
  · dsimp only
    rw [hgate, if_neg (by simp [needsReservation])]
    rfl

theorem staysDown_of_kept (h : Kept s) : StaysDown s := by
  intro t ht row hrow hanswers p cfg req ans ruleIds clicks ownerUnverified hlink
  exact locationOf_disabled hlink (h.down t ht row hrow hanswers)

end

/-- The tables before anything was taken down. -/
structure Sound (s : Store) : Prop where
  keys : Set.InjOn LinkRow.key {row | row ∈ s.links}
  ids : Set.InjOn LinkRow.id {row | row ∈ s.links}
  fresh : ∀ row ∈ s.links, row.id < s.nextId
  untouched : s.takedowns = []

theorem kept_of_sound {s : Store} (h : Sound s) : Kept s := by
  refine ⟨h.keys, h.ids, h.fresh, ?_, ?_, ?_⟩
  all_goals
    rw [h.untouched]
    intro t ht
    cases ht

/-- **What was taken down stays down** until an admin puts it up, in every state of a run in
which nothing puts it back. -/
theorem staysDown (s : Store) (hs : Sound s) (ops : List Operation)
    (hguarded : Guarded step (fun s op => ¬ PutsBack s op) s ops) (s' : Store)
    (hrun : run step s ops = some s') : StaysDown s' :=
  staysDown_of_kept (invariant_of_guarded kept_step ops s s' (kept_of_sound hs) hguarded hrun)

/-! ### A page that is published again -/

/-- What the save of a page does with its link. -/
def aboutArgs : ReconcileArgs := ⟨0, "W1", "D1", "snap.to", "about", true⟩

/-- The link of the page, under an id. -/
def aboutLink (id : Nat) (disabledAt : Option Int) : LinkRow :=
  ⟨id, managedLink sampleEnvironment aboutArgs "https://app.snapurl.test/b/snap.to/about", some 0,
    none, disabledAt⟩

/-- A published page, and its link. -/
def aboutStore : Store where
  links := [aboutLink 1 none]
  pages := [⟨⟨"W1", "D1", "about", true⟩, 0⟩]
  nextId := 2
  takedowns := []

theorem sound_aboutStore : Sound aboutStore := by
  refine ⟨?_, ?_, by decide, rfl⟩
  all_goals
    intro a ha b hb _
    rw [List.mem_singleton.mp ha, List.mem_singleton.mp hb]

/-- A save of the page, as a draft or not. -/
def saveAbout (live : Bool) : Operation :=
  .upsert sampleEnvironment "https://app.snapurl.test/" promoState ⟨some 0, "snap.to", "about", live⟩

/-- A page that is saved as it is keeps its link, which stays disabled. -/
theorem staysDown_saved :
    ∃ s', run step aboutStore [.disableLink 1 true 5, saveAbout true] = some s' ∧ StaysDown s' := by
  have hstands : ∀ t ∈ (aboutStore.perform (.disableLink 1 true 5)).takedowns,
      t.key ∈ (aboutStore.perform (.disableLink 1 true 5)).links.map (·.key) := by
    decide +kernel
  have hguarded : Guarded step (fun s op => ¬ PutsBack s op) aboutStore
      [.disableLink 1 true 5, saveAbout true] := by
    refine ⟨id, fun s' hs' => ⟨?_, fun _ _ => trivial⟩⟩
    obtain rfl := Option.some.inj hs'
    rintro ⟨-, domain, -, -, t, ht, -, -, hgone⟩
    exact hgone (hstands t ht)
  exact ⟨_, rfl, staysDown aboutStore sound_aboutStore _ hguarded _ rfl⟩

/-- The page as a draft and published again, after its link was disabled. -/
def republishing : List Operation := [.disableLink 1 true 5, saveAbout false, saveAbout true]

theorem run_republishing : run step aboutStore republishing =
    some ⟨[aboutLink 2 none], [⟨⟨"W1", "D1", "about", true⟩, 0⟩], 3,
      [(aboutLink 1 none).takedown]⟩ := by
  decide +kernel

/-- A visitor of the link that stands there then. -/
def aboutAnswers : Answers where
  now := 0
  link := some ((aboutLink 2 none).resolved toString 0 false)
  domain := none
  reservation := .unavailable
  salt := some "salt"

/-- **A takedown is lifted in two saves**: an unpublished page gives up its disabled link, and
gets one that is not disabled when it is published again. -/
theorem republished_page_is_up :
    ¬ ∀ (s : Store) (ops : List Operation) (s' : Store), Sound s → run step s ops = some s' →
      StaysDown s' := by
  intro h
  have hdown := h aboutStore republishing _ sound_aboutStore run_republishing
    ((aboutLink 1 none).takedown) List.mem_cons_self (aboutLink 2 none) List.mem_cons_self
    (by decide +kernel) Redirect.samplePlatform sampleConfig sampleRequest aboutAnswers toString 0
    false rfl
  have hup : locationOf (handle Redirect.samplePlatform sampleConfig sampleRequest aboutAnswers).exit =
      some "https://app.snapurl.test/b/snap.to/about" := by
    decide +kernel
  exact absurd (hup.symm.trans hdown) (Option.some_ne_none _)

end SnapUrl.Bio.Takedowns
