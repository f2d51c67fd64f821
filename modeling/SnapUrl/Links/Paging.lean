import Mathlib.Data.List.Sort
import Mathlib.Data.Prod.Lex
import Mathlib.Data.String.Basic
import SnapUrl.Lib.Base64Url
import SnapUrl.Lib.FormRoundTrip
import SnapUrl.Lib.Keyset
import SnapUrl.Links.Listing

/-!
# The pages of the links table

`list` and `exportCsv` of `apps/api/src/links/links.service.ts`.  The rows are sorted by
`(created_at, id)`, newest first, and a page's `nextCursor` carries the two of its last
row.  `created_at` counts microseconds; the cursor carries a `Date`, which counts
milliseconds.

* `followCursor`: the pages from the first one until there is no cursor, and `exportCsv`,
  which walks them 500 rows at a time.
* `followCursor_eq_walk`: they are a `Keyset.walk` whose cursors are cut.
* `pagesComplete_iff`: **every row is read exactly once, and the walk ends, exactly when no
  page ends in front of a row of the same millisecond that the cut passes over**
  (`PagesExact`).
-/

namespace SnapUrl.Links

open Lib Domain Sql FormUrlencoded

/-! ### Rows -/

/-- A row of the query: the link and the columns of the tables it is joined with. -/
structure Row extends LinkRow where
  domain : String
  slug : String
  destination : String
  title : Option String
  tags : List String
  folder : Option String
  redirectType : String
  passwordHash : Option String
  safeBrowsingStatus : String
  uniqueClicks : Option Int
  creator : Option String
  /-- In microseconds, as the database keeps it. -/
  createdAt : Int
deriving DecidableEq, Repr

/-- A text of a `uuid` column. -/
def IsUuid (s : String) : Prop :=
  s.length = 36 ∧ ∀ c ∈ s.toList, c ∈ "0123456789abcdef-".toList

instance (s : String) : Decidable (IsUuid s) :=
  decidable_of_iff (s.length = 36 ∧ (s.toList.all (· ∈ "0123456789abcdef-".toList)) = true)
    (and_congr_right fun _ => by simp only [List.all_eq_true, decide_eq_true_eq])

/-- The links, with their primary key. -/
structure LinksTable where
  rows : List Row
  uuids : ∀ row ∈ rows, IsUuid row.id
  nodup : (rows.map (·.id)).Nodup

/-- What the list is sorted by. -/
def Row.key (row : Row) : Int ×ₗ String := toLex (row.createdAt, row.id)

/-- The `Date` the driver makes of `created_at`. -/
def Row.createdAtDate (row : Row) : Int := row.createdAt / 1000

/-- `orderBy(desc(createdAt), desc(id))`. -/
def newestFirst (rows : List Row) : List Row := rows.insertionSort fun a b => b.key ≤ a.key

/-! ### The query -/

structure ListLinksQuery where
  status : StatusFilter
  search : Option String
  tag : Option String
  folder : Option String
  domain : Option String
  limit : Nat
  limit_pos : 0 < limit
  cursor : Option String

/-- What the query leaves to the database. -/
structure Database where
  lower : String → String
  /-- `text ilike pattern escape '\'`. -/
  ilike : String → String → Bool

def escapeLike (term : String) : String :=
  String.ofList (term.toList.flatMap fun c => if c ∈ ['\\', '%', '_'] then ['\\', c] else [c])

def searchCondition (db : Database) (row : Row) (search : String) : Truth :=
  let needle := "%" ++ escapeLike search ++ "%"
  (((some (db.ilike row.slug needle)).or (some (db.ilike row.destination needle))).or
    (row.title.map (db.ilike · needle))).or (some (row.tags.any (db.ilike · needle)))

/-- A filter of the query that is used when it is there and not empty. -/
def optionalCondition (value : Option String) (condition : String → Truth) : Truth :=
  if truthy value then condition (orEmpty value) else some true

def filters (p : Platform) (db : Database) (workspaceId : String) (query : ListLinksQuery)
    (now : Int) (row : Row) : Truth :=
  ((compare (· = ·) (some row.workspaceId) (some workspaceId)).and
    ((isNull row.managedBioPageId).and
      (statusCondition row.toLinkRow now (now + sevenDays) query.status))).and
  ((optionalCondition query.search (searchCondition db row)).and
    ((optionalCondition query.tag fun tag => some (tag ∈ row.tags)).and
      ((optionalCondition query.folder fun folder =>
          compare (· = ·) row.folder (some folder)).and
        (optionalCondition query.domain fun domain =>
          compare (· = ·) (some (db.lower row.domain)) (some (p.toLowerCase domain))))))

def encodeCursor (p : Platform) (createdAt : Int) (id : String) : String :=
  Base64Url.encode (utf8Encode (p.toISOString createdAt ++ "|" ++ id).toList)

def decodeCursor (p : Platform) (cursor : String) : Option (Int × String) :=
  let parts := splitAtChar '|' (String.ofList (utf8Decode (Base64Url.decode cursor)))
  let iso := parts[0]?
  let id := parts[1]?
  if !truthy iso || !truthy id then none
  else (p.parseDate (orEmpty iso)).map fun createdAt => (createdAt, orEmpty id)

/-- `(created_at, id) < (cursor.createdAt::timestamptz, cursor.id::uuid)`. -/
def beforeCursor (cursor : Int × String) (row : Row) : Bool :=
  row.key < toLex (cursor.1 * 1000, cursor.2)

/-- The rows the query is about, on whatever page. -/
def matchingRows (p : Platform) (db : Database) (t : LinksTable) (workspaceId : String)
    (query : ListLinksQuery) (now : Int) : List Row :=
  t.rows.filter fun row => filters p db workspaceId query now row = some true

/-- Those of them behind the cursor of the request, if it has one that can be read. -/
def pagedRows (p : Platform) (matching : List Row) (cursor : Option String) : List Row :=
  match if truthy cursor then decodeCursor p (orEmpty cursor) else none with
  | none => matching
  | some cursor => matching.filter (beforeCursor cursor)

structure LinkList where
  items : List Row
  total : Nat
  nextCursor : Option String

def listPage (p : Platform) (db : Database) (t : LinksTable) (workspaceId : String)
    (query : ListLinksQuery) (now : Int) : LinkList :=
  let matching := matchingRows p db t workspaceId query now
  -- one extra row tells whether there is another page
  let rows := (newestFirst (pagedRows p matching query.cursor)).take (query.limit + 1)
  let hasMore := query.limit < rows.length
  let page := if hasMore then rows.take query.limit else rows
  { items := page
    total := matching.length
    nextCursor :=
      if hasMore then page.getLast?.map fun last => encodeCursor p last.createdAtDate last.id
      else none }

/-! ### The walks -/

/-- The rows of the pages from a cursor on, `none` when there are more than `fuel`. -/
def followCursor (p : Platform) (db : Database) (t : LinksTable) (workspaceId : String)
    (query : ListLinksQuery) (now : Int) : Nat → Option String → Option (List Row)
  | 0, _ => none
  | fuel + 1, cursor =>
    let page := listPage p db t workspaceId { query with cursor := cursor } now
    match page.nextCursor with
    | none => some page.items
    | some next =>
      (followCursor p db t workspaceId query now fuel (some next)).map (page.items ++ ·)

def csvCell (s : String) : String :=
  let guarded :=
    match s.toList with
    | c :: _ => if c ∈ ['=', '+', '-', '@', '\t', '\r'] then "'" ++ s else s
    | [] => s
  if guarded.toList.any (· ∈ ['"', ',', '\n', '\r']) then
    "\"" ++ String.ofList (guarded.toList.flatMap fun c => if c = '"' then ['"', '"'] else [c]) ++
      "\""
  else guarded

/-- A status as it is written. -/
def statusText : LinkStatus → String
  | .active => "active"
  | .scheduled => "scheduled"
  | .expiring => "expiring"
  | .expired => "expired"
  | .archived => "archived"

def csvColumns : List String :=
  ["short_url", "destination", "title", "status", "clicks", "unique_clicks", "tags", "folder",
    "redirect_type", "password_protected", "activates_at", "expires_at", "safe_browsing",
    "created_at", "created_by"]

def csvHeader : String := ",".intercalate csvColumns ++ "\n"

/-- The line of a link. -/
def csvLine (p : Platform) (now : Int) (row : Row) : String :=
  let date := fun t : Option Int => orEmpty (t.map p.toISOString)
  ",".intercalate
    ([row.domain ++ "/" ++ row.slug, row.destination, orEmpty row.title,
      statusText (row.toLinkRow.status p now), toString row.toLinkRow.clicks,
      toString (row.uniqueClicks.getD 0), " ".intercalate row.tags, orEmpty row.folder,
      row.redirectType, if truthy row.passwordHash then "true" else "false",
      date row.activatesAt, date row.expiresAt, row.safeBrowsingStatus,
      p.toISOString row.createdAtDate, orEmpty row.creator].map csvCell) ++ "\n"

/-- The page size of an export. -/
def exportQuery (query : ListLinksQuery) : ListLinksQuery :=
  { query with limit := 500, limit_pos := by decide }

/-- The lines of the pages from a cursor on. -/
def exportLines (p : Platform) (db : Database) (t : LinksTable) (workspaceId : String)
    (query : ListLinksQuery) (now : Int) : Nat → Option String → Option (List String)
  | 0, _ => none
  | fuel + 1, cursor =>
    let page := listPage p db t workspaceId { exportQuery query with cursor := cursor } now
    let lines := page.items.map (csvLine p now)
    if truthy page.nextCursor then
      (exportLines p db t workspaceId query now fuel page.nextCursor).map (lines ++ ·)
    else some lines

def exportCsv (p : Platform) (db : Database) (t : LinksTable) (workspaceId : String)
    (query : ListLinksQuery) (now : Int) (fuel : Nat) : Option (List String) :=
  (exportLines p db t workspaceId query now fuel none).map (csvHeader :: ·)

/-! ### What is claimed of them -/

/-- Every row the query is about, once, in the order of the list. -/
def ReadsAll (p : Platform) (db : Database) (t : LinksTable) (workspaceId : String)
    (query : ListLinksQuery) (now : Int) (rows : List Row) : Prop :=
  rows.Pairwise (fun a b => b.key < a.key) ∧
    ∀ row, row ∈ rows ↔ row ∈ matchingRows p db t workspaceId query now

/-- The pages end, and so does the export, and each reads every row once. -/
structure PagesComplete (p : Platform) (db : Database) (t : LinksTable) (workspaceId : String)
    (query : ListLinksQuery) (now : Int) : Prop where
  pages : ∃ fuel rows, followCursor p db t workspaceId query now fuel none = some rows ∧
    ReadsAll p db t workspaceId query now rows
  csv : ∃ fuel rows,
    exportCsv p db t workspaceId query now fuel = some (csvHeader :: rows.map (csvLine p now)) ∧
      ReadsAll p db t workspaceId query now rows

/-- The cursor of one row finds another one: it is older than the first, cut to the
millisecond, or as old and comes after it by id. -/
def Row.cursorFinds (last row : Row) : Bool := beforeCursor (last.createdAtDate, last.id) row

/-- No page of this size ends in front of a row its cursor does not find. -/
def PagesExact (p : Platform) (db : Database) (t : LinksTable) (workspaceId : String)
    (query : ListLinksQuery) (now : Int) (limit : Nat) : Prop :=
  ∀ k last row, 0 < k →
    (newestFirst (matchingRows p db t workspaceId query now))[k * limit - 1]? = some last →
    (newestFirst (matchingRows p db t workspaceId query now))[k * limit]? = some row →
    last.cursorFinds row = true

/-- The dates of the links are read back as they were written. -/
def DatesReadBack (p : Platform) (t : LinksTable) : Prop :=
  ∀ row ∈ t.rows, p.parseDate (p.toISOString row.createdAtDate) = some row.createdAtDate ∧
    p.toISOString row.createdAtDate ≠ "" ∧ '|' ∉ (p.toISOString row.createdAtDate).toList

/-! ### The order of the list -/

section

variable {p : Platform} {db : Database} {t : LinksTable} {workspaceId : String}
  {query : ListLinksQuery} {now : Int} {fuel : Nat}

theorem mem_newestFirst {rows : List Row} {row : Row} : row ∈ newestFirst rows ↔ row ∈ rows :=
  List.mem_insertionSort _

/-- Rows with different ids are sorted strictly. -/
theorem pairwise_newestFirst {rows : List Row} (h : (rows.map (·.id)).Nodup) :
    (newestFirst rows).Pairwise fun a b => b.key < a.key := by
  have hperm : (newestFirst rows).Perm rows := List.perm_insertionSort _ _
  have hids : ((newestFirst rows).map (·.id)).Nodup := (hperm.map _).nodup_iff.mpr h
  have hsorted : (newestFirst rows).Pairwise fun a b => b.key ≤ a.key :=
    List.pairwise_insertionSort (fun a b : Row => b.key ≤ a.key) rows
  refine (hsorted.and (List.pairwise_map.mp hids)).imp fun {a b} hab => ?_
  refine lt_of_le_of_ne hab.1 fun heq => hab.2 ?_
  exact (congrArg (fun k => (ofLex k).2) heq).symm

theorem nodup_filter_ids (t : LinksTable) (q : Row → Bool) :
    ((t.rows.filter q).map (·.id)).Nodup :=
  t.nodup.sublist (List.filter_sublist.map _)

/-- Two strictly sorted lists of the same rows are one. -/
theorem eq_of_mem_iff {rows rows' : List Row} (h : rows.Pairwise fun a b => b.key < a.key)
    (h' : rows'.Pairwise fun a b => b.key < a.key) (hmem : ∀ row, row ∈ rows ↔ row ∈ rows') :
    rows = rows' := by
  have hirrefl : Std.Irrefl fun a b : Row => b.key < a.key := ⟨fun a => lt_irrefl a.key⟩
  have hantisymm : Std.Antisymm fun a b : Row => b.key < a.key :=
    ⟨fun a b hab hba => absurd hab (lt_asymm hba)⟩
  exact h.eq_of_mem_iff h' hmem

theorem newestFirst_filter (t : LinksTable) (q q' : Row → Bool) :
    newestFirst ((t.rows.filter q).filter q') = (newestFirst (t.rows.filter q)).filter q' := by
  refine eq_of_mem_iff (pairwise_newestFirst ?_) ?_ fun row => ?_
  · rw [List.filter_filter]
    exact nodup_filter_ids t _
  · exact (pairwise_newestFirst (nodup_filter_ids t q)).filter q'
  · simp only [mem_newestFirst, List.mem_filter]

theorem readsAll_iff_eq {rows : List Row} :
    ReadsAll p db t workspaceId query now rows ↔
      rows = newestFirst (matchingRows p db t workspaceId query now) := by
  have hsorted := pairwise_newestFirst (nodup_filter_ids t fun row =>
    decide (filters p db workspaceId query now row = some true))
  constructor
  · rintro ⟨hrows, hmem⟩
    exact eq_of_mem_iff hrows hsorted fun row => (hmem row).trans mem_newestFirst.symm
  · rintro rfl
    exact ⟨hsorted, fun row => mem_newestFirst⟩

/-- A cursor is beyond its row in the order of the list. -/
theorem cursor_newestFirst (p : Platform) (db : Database) (t : LinksTable) (workspaceId : String)
    (query : ListLinksQuery) (now : Int) :
    Keyset.Cursor (fun a b => b.key < a.key) Row.cursorFinds
      (newestFirst (matchingRows p db t workspaceId query now)) where
  sorted := pairwise_newestFirst (nodup_filter_ids t _)
  irrefl a := lt_irrefl a.key
  trans a b c hab hbc := hbc.trans hab
  later a b h := by
    have hcut : a.createdAtDate * 1000 ≤ a.createdAt := Int.ediv_mul_le _ (by decide)
    have hle : toLex (a.createdAtDate * 1000, a.id) ≤ a.key := by
      rw [Row.key, Prod.Lex.le_iff]
      rcases hcut.lt_or_eq with hlt | heq
      · exact Or.inl hlt
      · exact Or.inr ⟨heq, le_rfl⟩
    exact (of_decide_eq_true h).trans_le hle
  onward a b c h hbc := decide_eq_true (hbc.trans (of_decide_eq_true h))

/-! ### Cursors -/

theorem bar_notMem_of_isUuid {s : String} (h : IsUuid s) : '|' ∉ s.toList := by
  intro hmem
  exact absurd (h.2 _ hmem) (by decide)

theorem ne_empty_of_isUuid {s : String} (h : IsUuid s) : s ≠ "" := by
  rintro rfl
  exact absurd h.1 (by decide)

theorem splitAtChar_bar {s u : String} (hs : '|' ∉ s.toList) (hu : '|' ∉ u.toList) :
    splitAtChar '|' (s ++ "|" ++ u) = [s, u] := by
  have hsplit : (['|'].intercalate [s.toList, u.toList]).splitOn '|' = [s.toList, u.toList] :=
    List.splitOn_intercalate '|' (by simp [hs, hu]) (by simp)
  have htext : (s ++ "|" ++ u).toList = ['|'].intercalate [s.toList, u.toList] := by
    simp [String.toList_append, List.intercalate]
  rw [splitAtChar, htext, hsplit]
  simp

/-- **A cursor carries the date and the id of its row.** -/
theorem decodeCursor_encodeCursor {createdAt : Int} {id : String} (hid : IsUuid id)
    (hparse : p.parseDate (p.toISOString createdAt) = some createdAt)
    (hne : p.toISOString createdAt ≠ "") (hbar : '|' ∉ (p.toISOString createdAt).toList) :
    decodeCursor p (encodeCursor p createdAt id) = some (createdAt, id) := by
  rw [decodeCursor, encodeCursor, Base64Url.decode_encode, utf8Decode_utf8Encode,
    String.ofList_toList, splitAtChar_bar hbar (bar_notMem_of_isUuid hid)]
  have hiso : truthy (some (p.toISOString createdAt)) = true := decide_eq_true hne
  have hidText : truthy (some id) = true := decide_eq_true (ne_empty_of_isUuid hid)
  simp [hiso, hidText, orEmpty, hparse]

theorem truthy_encodeCursor (p : Platform) (createdAt : Int) (id : String) :
    truthy (some (encodeCursor p createdAt id)) = true := by
  refine decide_eq_true (Base64Url.encode_ne_empty ?_)
  intro hnil
  have htext := utf8Decode_utf8Encode (p.toISOString createdAt ++ "|" ++ id).toList
  rw [hnil, show utf8Decode [] = [] from rfl] at htext
  simp [String.toList_append] at htext

/-- The cursor a page that ends in a row carries. -/
def Row.cursor (p : Platform) (row : Row) : String := encodeCursor p row.createdAtDate row.id

theorem decodeCursor_cursor (hdates : DatesReadBack p t) {row : Row} (hrow : row ∈ t.rows) :
    decodeCursor p (row.cursor p) = some (row.createdAtDate, row.id) := by
  obtain ⟨hparse, hne, hbar⟩ := hdates row hrow
  exact decodeCursor_encodeCursor (t.uuids row hrow) hparse hne hbar

/-! ### A page and the walk -/

/-- The rows behind a cursor. -/
def rowsFrom (p : Platform) (db : Database) (t : LinksTable) (workspaceId : String)
    (query : ListLinksQuery) (now : Int) (last : Option Row) : List Row :=
  Keyset.found Row.cursorFinds (newestFirst (matchingRows p db t workspaceId query now)) last

theorem newestFirst_pagedRows (hdates : DatesReadBack p t) {last : Option Row}
    (hlast : ∀ row ∈ last, row ∈ t.rows) :
    newestFirst (pagedRows p (matchingRows p db t workspaceId query now)
      (last.map (·.cursor p))) = rowsFrom p db t workspaceId query now last := by
  cases last with
  | none => rfl
  | some row =>
    have hcursor : (if truthy (some (row.cursor p)) then
        decodeCursor p (orEmpty (some (row.cursor p))) else none) =
        some (row.createdAtDate, row.id) :=
      (if_pos (truthy_encodeCursor p _ _)).trans (decodeCursor_cursor hdates (hlast row rfl))
    rw [Option.map_some, pagedRows, hcursor]
    exact newestFirst_filter t _ _

/-- What a page says, given the row its cursor was made from. -/
theorem listPage_eq (db : Database) (workspaceId : String) (query : ListLinksQuery) (now : Int)
    (hdates : DatesReadBack p t) {last : Option Row} (hlast : ∀ row ∈ last, row ∈ t.rows)
    {found : List Row} (hfound : rowsFrom p db t workspaceId query now last = found) :
    (listPage p db t workspaceId { query with cursor := last.map (·.cursor p) } now).items =
        found.take query.limit ∧
      (listPage p db t workspaceId { query with cursor := last.map (·.cursor p) } now).nextCursor =
        if query.limit < found.length then (found.take query.limit).getLast?.map (·.cursor p)
        else none := by
  have hrows : newestFirst (pagedRows p (matchingRows p db t workspaceId
      { query with cursor := last.map (·.cursor p) } now) (last.map (·.cursor p))) = found :=
    (newestFirst_pagedRows hdates hlast).trans hfound
  have hmore : query.limit < (found.take (query.limit + 1)).length ↔
      query.limit < found.length := by
    rw [List.length_take]
    omega
  rw [listPage]
  dsimp only
  rw [hrows]
  simp only [hmore, List.take_take, Nat.min_eq_left (Nat.le_succ query.limit)]
  by_cases hlen : query.limit < found.length
  · simp only [if_pos hlen]
    exact ⟨trivial, rfl⟩
  · simp only [if_neg hlen, and_true]
    rw [List.take_of_length_le (by omega), List.take_of_length_le (by omega)]

/-- The row a cursor is made from is one of the table. -/
theorem mem_rows_of_getLast? {last : Option Row} {limit : Nat} {row : Row}
    (h : ((rowsFrom p db t workspaceId query now last).take limit).getLast? = some row) :
    row ∈ t.rows := by
  have hmem := List.mem_of_mem_take (List.mem_of_getLast? h)
  have hmatching : row ∈ matchingRows p db t workspaceId query now := by
    rw [← mem_newestFirst]
    cases last with
    | none => exact hmem
    | some a => exact List.mem_of_mem_filter hmem
  exact List.mem_of_mem_filter hmatching

/-- **The pages are a walk.** -/
theorem followCursor_eq_walk (hdates : DatesReadBack p t) (fuel : Nat) {last : Option Row}
    (hlast : ∀ row ∈ last, row ∈ t.rows) :
    followCursor p db t workspaceId query now fuel (last.map (·.cursor p)) =
      Keyset.walk Row.cursorFinds query.limit
        (newestFirst (matchingRows p db t workspaceId query now)) fuel last := by
  induction fuel generalizing last with
  | zero => rfl
  | succ fuel ih =>
    obtain ⟨hitems, hnext⟩ := listPage_eq db workspaceId query now hdates hlast rfl
    rw [followCursor, Keyset.walk, ← rowsFrom, hnext, hitems]
    by_cases hmore : query.limit < (rowsFrom p db t workspaceId query now last).length
    · rw [if_pos hmore, if_pos hmore]
      have hlimit := query.limit_pos
      have hpos : 0 < ((rowsFrom p db t workspaceId query now last).take query.limit).length := by
        rw [List.length_take]
        omega
      obtain ⟨row, hrow⟩ :
          ∃ row, ((rowsFrom p db t workspaceId query now last).take query.limit).getLast? =
            some row :=
        ⟨_, List.getLast?_eq_some_getLast (List.ne_nil_of_length_pos hpos)⟩
      rw [hrow, Option.map_some]
      dsimp only
      have hstep : followCursor p db t workspaceId query now fuel (some (row.cursor p)) =
          Keyset.walk Row.cursorFinds query.limit
            (newestFirst (matchingRows p db t workspaceId query now)) fuel (some row) :=
        ih fun r hr => Option.some.inj hr ▸ mem_rows_of_getLast? hrow
      rw [hstep]
    · rw [if_neg hmore, if_neg hmore]
      dsimp only
      rw [List.take_of_length_le (not_lt.mp hmore)]

theorem followCursor_first (hdates : DatesReadBack p t) (query : ListLinksQuery) (fuel : Nat) :
    followCursor p db t workspaceId query now fuel none =
      Keyset.walk Row.cursorFinds query.limit
        (newestFirst (matchingRows p db t workspaceId query now)) fuel none := by
  have hnone : ∀ row ∈ (none : Option Row), row ∈ t.rows := by simp
  exact followCursor_eq_walk hdates fuel hnone

/-- There is something in every cursor. -/
theorem truthy_nextCursor {next : String}
    (h : (listPage p db t workspaceId query now).nextCursor = some next) :
    truthy (some next) = true := by
  rw [listPage] at h
  dsimp only at h
  split at h
  · obtain ⟨row, -, rfl⟩ := Option.map_eq_some_iff.mp h
    exact truthy_encodeCursor p _ _
  · exact absurd h (by simp)

/-- The export writes a line for every row of its pages. -/
theorem exportLines_eq (p : Platform) (db : Database) (t : LinksTable) (workspaceId : String)
    (query : ListLinksQuery) (now : Int) (fuel : Nat) (cursor : Option String) :
    exportLines p db t workspaceId query now fuel cursor =
      (followCursor p db t workspaceId (exportQuery query) now fuel cursor).map
        (·.map (csvLine p now)) := by
  induction fuel generalizing cursor with
  | zero => rfl
  | succ fuel ih =>
    rw [exportLines, followCursor]
    cases hnext : (listPage p db t workspaceId { exportQuery query with cursor := cursor }
        now).nextCursor with
    | none => rfl
    | some next =>
      dsimp only
      rw [if_pos (truthy_nextCursor hnext), ih, Option.map_map, Option.map_map]
      congr 1
      funext rows
      exact (List.map_append ..).symm

/-! ### When every row is read -/

/-- The pages read all rows, and end, exactly when none of their cursors passes one over. -/
theorem exists_followCursor_iff (hdates : DatesReadBack p t) (query : ListLinksQuery) :
    (∃ fuel rows, followCursor p db t workspaceId query now fuel none = some rows ∧
      ReadsAll p db t workspaceId query now rows) ↔
      PagesExact p db t workspaceId query now query.limit := by
  have hcursor := cursor_newestFirst p db t workspaceId query now
  have hexact : PagesExact p db t workspaceId query now query.limit ↔
      Keyset.Exact Row.cursorFinds query.limit
        (newestFirst (matchingRows p db t workspaceId query now)) 0 := by
    rw [PagesExact, Keyset.Exact]
    simp only [Nat.zero_add]
  rw [hexact, ← Keyset.walk_eq_iff hcursor query.limit_pos]
  refine exists_congr fun fuel => ?_
  rw [followCursor_first hdates]
  constructor
  · rintro ⟨rows, hrows, hall⟩
    rw [hrows, readsAll_iff_eq.mp hall]
  · exact fun hall => ⟨_, hall, readsAll_iff_eq.mpr rfl⟩

/-- So does the export, at its own page size. -/
theorem exists_exportCsv_iff (hdates : DatesReadBack p t) :
    (∃ fuel rows,
      exportCsv p db t workspaceId query now fuel = some (csvHeader :: rows.map (csvLine p now)) ∧
        ReadsAll p db t workspaceId query now rows) ↔
      PagesExact p db t workspaceId query now 500 := by
  have hpages : (∃ fuel rows,
      followCursor p db t workspaceId (exportQuery query) now fuel none = some rows ∧
        ReadsAll p db t workspaceId query now rows) ↔ PagesExact p db t workspaceId query now 500 :=
    exists_followCursor_iff hdates (exportQuery query)
  rw [← hpages]
  refine exists_congr fun fuel => exists_congr fun rows => and_congr_left fun hall => ?_
  rw [exportCsv, exportLines_eq, Option.map_map]
  constructor
  · intro h
    obtain ⟨rows', hrows', hlines⟩ := Option.map_eq_some_iff.mp h
    -- as many lines as rows, so no row was passed over
    have hlength := congrArg List.length (List.cons.inj hlines).2
    rw [List.length_map, List.length_map] at hlength
    have hsublist : rows'.Sublist rows := by
      rw [followCursor_first hdates] at hrows'
      rw [readsAll_iff_eq.mp hall]
      exact Keyset.walk_sublist (cursor_newestFirst p db t workspaceId query now)
        (exportQuery query).limit_pos hrows'
    rw [hrows', hsublist.eq_of_length hlength]
  · intro h
    rw [h]
    rfl

/-- **When every row is read.**  The pages and the export read each row once, in order,
and end, exactly when no page ends in front of a row that its cursor, which is cut to the
millisecond, does not find. -/
theorem pagesComplete_iff (p : Platform) (db : Database) (t : LinksTable) (workspaceId : String)
    (query : ListLinksQuery) (now : Int) (hdates : DatesReadBack p t) :
    PagesComplete p db t workspaceId query now ↔
      PagesExact p db t workspaceId query now query.limit ∧
        PagesExact p db t workspaceId query now 500 := by
  rw [← exists_followCursor_iff hdates query, ← exists_exportCsv_iff hdates]
  exact ⟨fun h => ⟨h.pages, h.csv⟩, fun h => ⟨h.1, h.2⟩⟩

end

/-! ### Links of one bulk request -/

/-- A runtime that writes and reads one instant. -/
def samplePlatform : Platform where
  toLowerCase := id
  toUpperCase := id
  parseUrl _ := none
  parseDate s := if s = "2023-11-14T22:13:20.123Z" then some 1700000000123 else none
  toISOString t := if t = 1700000000123 then "2023-11-14T22:13:20.123Z" else ""
  parseJson _ := none
  stringifyJson _ := ""
  hmacSha256Hex _ _ := ""
  verifyToken _ _ := none

def sampleDatabase : Database := ⟨id, fun _ _ => false⟩

def sampleRow (id slug : String) (createdAt : Int) : Row where
  id := id
  workspaceId := "W1"
  managedBioPageId := none
  archivedAt := none
  expiresAt := none
  activatesAt := none
  clickLimit := none
  counterClicks := none
  domain := "snap.to"
  slug := slug
  destination := "https://example.com/"
  title := none
  tags := []
  folder := none
  redirectType := "302"
  passwordHash := none
  safeBrowsingStatus := "clean"
  uniqueClicks := none
  creator := none
  createdAt := createdAt

/-- Three links that were created at one instant. -/
def bulkRows (createdAt : Int) : List Row :=
  [sampleRow "018bcfe5-687b-7000-8000-000000000001" "a" createdAt,
    sampleRow "018bcfe5-687b-7000-8000-000000000002" "b" createdAt,
    sampleRow "018bcfe5-687b-7000-8000-000000000003" "c" createdAt]

theorem ids_bulkRows (createdAt : Int) : (bulkRows createdAt).map (fun row => row.id) =
    ["018bcfe5-687b-7000-8000-000000000001", "018bcfe5-687b-7000-8000-000000000002",
      "018bcfe5-687b-7000-8000-000000000003"] := rfl

def bulkTable (createdAt : Int) : LinksTable where
  rows := bulkRows createdAt
  uuids := by
    intro row hrow
    have hid := List.mem_map_of_mem (f := fun row : Row => row.id) hrow
    rw [ids_bulkRows] at hid
    have huuids : ∀ id ∈ ["018bcfe5-687b-7000-8000-000000000001",
      "018bcfe5-687b-7000-8000-000000000002", "018bcfe5-687b-7000-8000-000000000003"],
      IsUuid id := forall_mem_of_all (by decide +kernel)
    exact huuids row.id hid
  nodup := by
    rw [ids_bulkRows]
    decide

def pageOfTwo : ListLinksQuery := ⟨.all, none, none, none, none, 2, by decide, none⟩

theorem datesReadBack_bulkTable {createdAt : Int} (h : createdAt / 1000 = 1700000000123) :
    DatesReadBack samplePlatform (bulkTable createdAt) := by
  intro row hrow
  have hdate : row.createdAtDate = 1700000000123 := by
    have hcreated : row.createdAt = createdAt := by
      rcases List.mem_cons.mp hrow with rfl | hrow
      · rfl
      rcases List.mem_cons.mp hrow with rfl | hrow
      · rfl
      · rw [List.mem_singleton.mp hrow]
        rfl
    rw [Row.createdAtDate, hcreated, h]
  rw [hdate]
  decide

/-- **Three links of one bulk request, and pages of two**: their instant has a fraction of
a millisecond, and the second page misses the third link. -/
theorem bulk_rows_are_skipped :
    ¬ ∀ (p : Platform) (db : Database) (t : LinksTable) (workspaceId : String)
      (query : ListLinksQuery) (now : Int), DatesReadBack p t →
      PagesComplete p db t workspaceId query now := by
  intro hall
  have hdates : DatesReadBack samplePlatform (bulkTable 1700000000123456) :=
    datesReadBack_bulkTable (by decide)
  have hcomplete := hall samplePlatform sampleDatabase (bulkTable 1700000000123456) "W1" pageOfTwo
    0 hdates
  have hexact := (exists_followCursor_iff hdates pageOfTwo).mp hcomplete.pages
  have hfinds := hexact 1 (sampleRow "018bcfe5-687b-7000-8000-000000000002" "b" 1700000000123456)
    (sampleRow "018bcfe5-687b-7000-8000-000000000001" "a" 1700000000123456) Nat.one_pos
    (by decide) (by decide)
  exact absurd hfinds (by decide)

/-- Had they been created on a whole millisecond, every page would have been exact. -/
theorem pagesComplete_bulkTable :
    PagesComplete samplePlatform sampleDatabase (bulkTable 1700000000123000) "W1" pageOfTwo 0 := by
  refine (pagesComplete_iff _ _ _ _ _ _ (datesReadBack_bulkTable (by decide))).mpr ⟨?_, ?_⟩
  · intro k last row hk hlast hrow
    have hlt : k * 2 < 3 := (List.getElem?_eq_some_iff.mp hrow).1
    obtain rfl : k = 1 := by omega
    have hall : ∀ a ∈ (newestFirst (matchingRows samplePlatform sampleDatabase
        (bulkTable 1700000000123000) "W1" pageOfTwo 0))[1]?,
        ∀ b ∈ (newestFirst (matchingRows samplePlatform sampleDatabase
          (bulkTable 1700000000123000) "W1" pageOfTwo 0))[2]?, a.cursorFinds b = true := by
      decide
    exact hall last hlast row hrow
  · intro k last row hk hlast hrow
    have hlt : k * 500 < 3 := (List.getElem?_eq_some_iff.mp hrow).1
    omega

end SnapUrl.Links
