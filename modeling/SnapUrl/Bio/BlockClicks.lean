import SnapUrl.Bio.Saves

/-!
# Clicks on the blocks of a page beside its saves

`recordClick`, `recordClickBySlug`, `incrementBlock` and the replacement of the blocks in
`upsert`, `apps/api/src/bio-pages/bio-pages.service.ts`, one statement at a time under READ
COMMITTED.  What `upsert` does to the link of the page touches no block and is left out.

A save holds the row of its page from its first write, so of the saves of a page one at a time is
at its blocks.  An increment that meets a row which an open save has deleted waits for it; after
the commit the row is gone for it, also where a row with the same id was inserted.

* `placeBlocks`: the rows that a save inserts.
* `step`: statements of saves and of clicks in any order, commits and failures.  What cannot be
  done yet, or is refused, changes nothing; a save may fail at any time.
* `Counted`: **the clicks of a block are those that reported success for it**.
* `Uncrossed`: a save that commits has read the count of each block that it sends back after the
  last click on it.
-/

namespace SnapUrl.Bio.BlockClicks

open Lib Links Links.Creation
open Saves (findPage savedPage)

/-! ### Blocks -/

/-- What a save writes of a block, as it is sent. -/
structure BlockContent where
  kind : String
  title : String
  subtitle : Option String
  href : Option String
  locked : Bool
deriving DecidableEq, Repr

/-- A row of `bio_blocks`. -/
structure Block where
  bioPageId : Nat
  position : Nat
  content : BlockContent
  linkId : Option Nat
  clicks : Nat
deriving DecidableEq, Repr

/-- A block that is sent with a save. -/
structure InputBlock where
  id : Option Nat
  content : BlockContent
deriving DecidableEq, Repr

/-- What a save reads of a block before it deletes it. -/
structure Prior where
  clicks : Nat
  linkId : Option Nat
deriving DecidableEq, Repr

def Block.prior (block : Block) : Prior := ⟨block.clicks, block.linkId⟩

/-- The rows that are inserted, from the next position on: a block that is sent back with its id
for the first time keeps the id and the count, any other has a fresh id and no clicks. -/
def placeBlocks (pageId : Nat) (kept : Table Prior) :
    List Nat → Nat → Nat → List InputBlock → List (Nat × Block)
  | _, _, _, [] => []
  | seen, position, fresh, block :: blocks =>
    match block.id.bind fun id => if id ∈ seen then none else (kept id).map (id, ·) with
    | some (id, prior) =>
      (id, ⟨pageId, position, block.content, prior.linkId, prior.clicks⟩) ::
        placeBlocks pageId kept (id :: seen) (position + 1) fresh blocks
    | none =>
      (fresh, ⟨pageId, position, block.content, none, 0⟩) ::
        placeBlocks pageId kept seen (position + 1) (fresh + 1) blocks

/-! ### Saves and clicks -/

/-- How far a save is. -/
inductive SavePhase where
  | begun
  /-- It has found its page, or that there is none at the address. -/
  | found (pageId : Option Nat)
  /-- It has written the page. -/
  | saved (pageId : Nat)
  /-- It has read the blocks of the page. -/
  | read (pageId : Nat) (previous : Table Prior)
  /-- It has deleted them. -/
  | deleted (pageId : Nat) (previous : Table Prior)
  /-- It has inserted those that were sent. -/
  | inserted (pageId : Nat) (previous : Table Prior)
  /-- Committed, refused or failed. -/
  | over

/-- A save, with what its transaction has written. -/
structure Save where
  workspaceId : String
  domain : DomainRow
  input : UpsertBioPageInput
  blocks : List InputBlock
  phase : SavePhase
  page : Option (Nat × Page)
  rows : Overlay Block

/-- Nothing is left of what it has written. -/
def Save.close (save : Save) : Save :=
  { save with phase := .over, page := none, rows := .empty }

/-- The page whose row it has locked. -/
def Save.target (save : Save) : Option Nat := save.page.map Prod.fst

/-- The ids that blocks are sent back with. -/
def Save.sentBack (save : Save) : List Nat := save.blocks.filterMap (·.id)

/-- Where a visitor is. -/
inductive Route where
  /-- At `/b/<domain>/<slug>`. -/
  | address (domain slug : String)
  /-- At `/b/<slug>`, on a domain of the system. -/
  | alias (slug : String)
deriving DecidableEq, Repr

/-- How far a click is. -/
inductive ClickPhase where
  | begun
  | resolved (pageId : Nat)
  /-- Its statement has found the row of the block. -/
  | attempting (pageId : Nat)
  /-- It has reported success. -/
  | counted
  | notFound
deriving DecidableEq, Repr

structure Click where
  route : Route
  blockId : Nat
  phase : ClickPhase
deriving DecidableEq, Repr

/-- What is committed, and the calls. -/
structure Store where
  pages : Table Page
  blocks : Table Block
  /-- No row has had this id, nor one above. -/
  nextId : Nat
  saves : List Save
  clicks : List Click

/-- What all calls find alike. -/
structure Deployment where
  platform : Platform
  /-- The names of the domains, by their ids. -/
  domainName : String → String
  isSystem : String → Bool

/-! ### Statements of a save -/

/-- `bio_pages_domain_slug_key` takes the key for the page with an id. -/
def pageKeyFree (s : Store) (others : List Save) (id : Nat) (key : String × String) : Bool :=
  (Table.find? (Function.update s.pages id none) s.nextId (·.key = key)).isNone &&
    others.all fun other => other.page.all fun row => row.2.key ≠ key

def Save.writePage (s : Store) (others : List Save) (save : Save) (id : Nat) (page : Page) :
    Option Save :=
  if others.all (·.target ≠ some id) && pageKeyFree s others id page.key then
    some { save with page := some (id, page), phase := .saved id }
  else none

/-- The blocks that a save has read. -/
def Store.blocksOf (s : Store) (pageId : Nat) : Table Prior :=
  fun id => ((s.blocks id).filter (·.bioPageId = pageId)).map Block.prior

/-- All blocks of the page are deleted. -/
def Store.deletion (s : Store) (pageId : Nat) : Overlay Block :=
  fun id => if (s.blocks id).any (·.bioPageId = pageId) then some none else none

/-- Rows are inserted beside what was written before. -/
def insertRows (placed : List (Nat × Block)) (rows : Overlay Block) : Overlay Block :=
  fun id => match placed.lookup id with
    | some block => some (some block)
    | none => rows id

/-- The next statement of a save: what it comes to, and the next free id. -/
def Save.next (s : Store) (others : List Save) (save : Save) : Option (Save × Nat) :=
  match save.phase with
  | .begun =>
    match findPage s.pages s.nextId save.workspaceId save.domain save.input with
    | some pageId => some ({ save with phase := .found pageId }, s.nextId)
    | none => some (save.close, s.nextId)
  | .found (some id) =>
    match s.pages id with
    | some page =>
      (save.writePage s others id (savedPage save.domain save.input page)).map (·, s.nextId)
    | none => none
  | .found none =>
    (save.writePage s others s.nextId
      ⟨save.workspaceId, save.domain.id, save.input.slug, save.input.live⟩).map (·, s.nextId + 1)
  | .saved id => some ({ save with phase := .read id (s.blocksOf id) }, s.nextId)
  | .read id previous =>
    some ({ save with rows := s.deletion id, phase := .deleted id previous }, s.nextId)
  | .deleted id previous =>
    some ({ save with
      rows := insertRows (placeBlocks id previous [] 0 s.nextId save.blocks) save.rows
      phase := .inserted id previous }, s.nextId + save.blocks.length)
  | .inserted _ _ => none
  | .over => none

/-! ### Statements of a click -/

/-- `livePage` and `livePageOnSystemDomain`; of pages on several domains of the system the
oldest, as ids grow. -/
def Store.resolve (d : Deployment) (s : Store) : Route → Option Nat
  | .address domain slug => (s.pages.find? s.nextId fun page =>
      asciiLower (d.domainName page.domainId) = d.platform.toLowerCase domain &&
        asciiLower page.slug = d.platform.toLowerCase slug && page.live).map Prod.fst
  | .alias slug => (s.pages.find? s.nextId fun page =>
      asciiLower page.slug = d.platform.toLowerCase slug && page.live &&
        d.isSystem page.domainId).map Prod.fst

/-- No open save has deleted the row, nor inserted it. -/
def Store.rowUnlocked (s : Store) (id : Nat) : Bool := s.saves.all fun save => (save.rows id).isNone

/-- The next thing that a click does: its page is resolved, its statement finds the row, and the
row is incremented once no save has it in hand. -/
def Click.next (d : Deployment) (s : Store) (click : Click) : Click × Table Block :=
  match click.phase with
  | .begun =>
    match s.resolve d click.route with
    | some pageId => ({ click with phase := .resolved pageId }, s.blocks)
    | none => ({ click with phase := .notFound }, s.blocks)
  | .resolved pageId =>
    if (s.blocks click.blockId).any (·.bioPageId = pageId) then
      ({ click with phase := .attempting pageId }, s.blocks)
    else ({ click with phase := .notFound }, s.blocks)
  | .attempting _ =>
    match s.blocks click.blockId with
    | some block =>
      if s.rowUnlocked click.blockId then
        ({ click with phase := .counted }, Function.update s.blocks click.blockId
          (some { block with clicks := block.clicks + 1 }))
      else (click, s.blocks)
    | none => ({ click with phase := .notFound }, s.blocks)
  | .counted => (click, s.blocks)
  | .notFound => (click, s.blocks)

/-- A statement that waited for a save finds its row gone at the commit. -/
def Click.afterCommit (rows : Overlay Block) (click : Click) : Click :=
  match click.phase with
  | .attempting _ => if (rows click.blockId).isSome then { click with phase := .notFound } else click
  | .begun => click
  | .resolved _ => click
  | .counted => click
  | .notFound => click

/-! ### Steps -/

inductive Action where
  /-- A save comes in, with all that is read of it before. -/
  | save (settings : State) (input : UpsertBioPageInput) (blocks : List InputBlock)
  | click (route : Route) (blockId : Nat)
  /-- The next statement of a save. -/
  | next (i : Nat)
  | commit (i : Nat)
  | fail (i : Nat)
  /-- A click goes on. -/
  | proceed (j : Nat)

def Store.set (s : Store) (i : Nat) (save : Save) (nextId : Nat) : Store :=
  { s with saves := s.saves.set i save, nextId := nextId }

def Store.commit (s : Store) (i : Nat) (save : Save) : Store where
  pages := match save.page with
    | some (id, page) => Function.update s.pages id (some page)
    | none => s.pages
  blocks := save.rows.over s.blocks
  nextId := s.nextId
  saves := s.saves.set i save.close
  clicks := s.clicks.map (Click.afterCommit save.rows)

/-- A save may commit. -/
def Save.mayCommit (save : Save) : Bool :=
  match save.phase with
  | .inserted _ _ => true
  | .begun => false
  | .found _ => false
  | .saved _ => false
  | .read _ _ => false
  | .deleted _ _ => false
  | .over => false

def execute (d : Deployment) (s : Store) : Action → Option Store
  | .save settings input blocks =>
    match saveDomain d.platform settings input with
    | .error _ => none
    | .ok domain => some { s with
        saves := s.saves ++ [⟨settings.workspaceId, domain, input, blocks, .begun, none, .empty⟩] }
  | .click route blockId => some { s with clicks := s.clicks ++ [⟨route, blockId, .begun⟩] }
  | .next i => (s.saves[i]?).bind fun save =>
      (save.next s (s.saves.eraseIdx i)).map fun (save', nextId) => s.set i save' nextId
  | .commit i => (s.saves[i]?).bind fun save =>
      if save.mayCommit then some (s.commit i save) else none
  | .fail i => (s.saves[i]?).map fun save => s.set i save.close s.nextId
  | .proceed j => (s.clicks[j]?).map fun click =>
      { s with blocks := (click.next d s).2, clicks := s.clicks.set j (click.next d s).1 }

/-- What cannot be done changes nothing. -/
def step (d : Deployment) (s : Store) (a : Action) : Option Store := some ((execute d s a).getD s)

/-! ### What should hold -/

/-- The clicks on a block that have reported success. -/
def Store.successes (s : Store) (id : Nat) : Nat :=
  s.clicks.countP fun click => click.blockId = id && click.phase = .counted

/-- **Of every block that was kept, the clicks are those that it had, and those that reported
success for it.**  A block that is new had none. -/
def Counted (start s : Store) : Prop :=
  ∀ id block, s.blocks id = some block →
    block.clicks = ((start.blocks id).elim 0 (·.clicks)) + s.successes id

/-- What a save has read of each block that it sends back is the count that the block has. -/
def Save.ReadLast (blocks : Table Block) (save : Save) : Prop :=
  match save.phase with
  | .inserted _ previous => ∀ id ∈ save.sentBack, ∀ prior ∈ previous id, ∀ block ∈ blocks id,
      prior.clicks = block.clicks
  | .begun => True
  | .found _ => True
  | .saved _ => True
  | .read _ _ => True
  | .deleted _ _ => True
  | .over => True

/-- **No click crosses a save that commits**: none was counted on a block that the save sends
back between the statement that reads the blocks and the one that deletes them. -/
def Uncrossed (s : Store) : Action → Prop
  | .commit i => ∀ save ∈ s.saves[i]?, save.ReadLast s.blocks
  | .save _ _ _ => True
  | .click _ _ => True
  | .next _ => True
  | .fail _ => True
  | .proceed _ => True

instance (blocks : Table Block) : ∀ save : Save, Decidable (save.ReadLast blocks) := fun save => by
  unfold Save.ReadLast
  split
  all_goals infer_instance

instance (s : Store) : ∀ a, Decidable (Uncrossed s a)
  | .commit i => inferInstanceAs (Decidable (∀ save ∈ s.saves[i]?, save.ReadLast s.blocks))
  | .save _ _ _ => isTrue trivial
  | .click _ _ => isTrue trivial
  | .next _ => isTrue trivial
  | .fail _ => isTrue trivial
  | .proceed _ => isTrue trivial

/-- No call is open yet, and ids from the next one on are free. -/
structure Initial (s : Store) : Prop where
  saves : s.saves = []
  clicks : s.clicks = []
  fresh : ∀ id, s.nextId ≤ id → s.blocks id = none

end SnapUrl.Bio.BlockClicks
