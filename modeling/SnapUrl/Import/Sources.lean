import SnapUrl.Lib.IsoDate
import SnapUrl.Lib.JsValue
import SnapUrl.Import.Records

/-!
# The sources

The five formats of `web/src/lib/import/sources`, with the types of
`web/src/lib/import/types.ts`.

* `collect`: the loop of all five, over the records of a file.
* `CsvFormat`: the four that are CSV, each with its own columns and notices.
* `Kutt.parse`: the one that is JSON.
* `parse`: what a source makes of a text, none where it raises.
-/

namespace SnapUrl.Import

open Lib

/-- The runtime that the panel runs in. -/
structure Runtime where
  platform : Platform
  /-- `JSON.parse`, `none` where it throws. -/
  parseJson : String → Option JsValue

/-! ### Results -/

/-- One link as extracted from a source export. -/
structure SourceLink where
  destination : String
  slug : Option String
  title : Option String
  tags : Option (List String)
  description : Option String
  expiresAt : Option String
deriving DecidableEq, Repr

structure MappedRow extends SourceLink where
  /-- The 0-based row number in the source file, for error attribution. -/
  sourceIndex : ℕ
deriving DecidableEq, Repr

structure DroppedField where
  field : String
  reason : String
deriving DecidableEq, Repr

structure ParseError where
  sourceIndex : ℕ
  message : String
deriving DecidableEq, Repr

structure ParseResult where
  rows : List MappedRow
  dropped : List DroppedField
  errors : List ParseError
deriving DecidableEq, Repr

/-- `forEach` over the records of a file.  A record is a link or the message of an error, and
none where it raises. -/
def collect {α : Type} (read : α → Option (Except String SourceLink)) :
    List MappedRow → List ParseError → ℕ → List α → Option (List MappedRow × List ParseError)
  | rows, errors, _, [] => some (rows, errors)
  | rows, errors, i, a :: records =>
    match read a with
    | none => none
    | some (.error message) => collect read rows (errors ++ [⟨i, message⟩]) (i + 1) records
    | some (.ok link) => collect read (rows ++ [⟨link, i⟩]) errors (i + 1) records

/-- `text ? { field: text } : {}`. -/
def given (text : String) : Option String := if text = "" then none else some text

/-! ### CSV -/

def splitTags (raw : String) : List String :=
  ((raw.toList.splitOnP fun c => c ∈ [',', ';', '|']).map fun t => trim (String.ofList t)).filter
    (· ≠ "")

/-- A format that is CSV: the aliases of its columns, and what it has no home for. -/
structure CsvFormat where
  destination : List String
  slug : Platform → Rec → String
  title : List String
  description : List String
  tags : List String
  /-- What is said of a row that has no destination. -/
  missing : String
  notices : List (List String × DroppedField)

namespace CsvFormat

def read (format : CsvFormat) (p : Platform) (rec : Rec) : Except String SourceLink :=
  let destination := pick p rec format.destination
  if destination = "" then .error format.missing
  else
    let tagsRaw := pick p rec format.tags
    .ok {
      destination
      slug := given (format.slug p rec)
      title := given (pick p rec format.title)
      tags := (given tagsRaw).map splitTags
      description := given (pick p rec format.description)
      expiresAt := none }

/-- A record has a value under one of the names. -/
def has (records : List Rec) (aliases : List String) : Bool :=
  records.any fun r => aliases.any fun a => truthy (r.lookup a)

def parse (format : CsvFormat) (p : Platform) (text : String) : Option ParseResult :=
  let records := parseCsvRecords p text
  (collect (fun rec => some (format.read p rec)) [] [] 0 records).map fun (rows, errors) =>
    { rows
      dropped := (format.notices.filter fun notice => has records notice.1).map (·.2)
      errors }

end CsvFormat

def genericCsv : CsvFormat where
  destination :=
    ["long url", "original url", "destination url", "destination", "target url", "target", "url"]
  slug p rec := pick p rec
    ["back half", "back-half", "keyword", "short code", "slug", "key", "alias", "address"]
  title := ["title", "name", "description"]
  description := []
  tags := ["tags", "labels"]
  missing := "No destination URL column found in this row."
  notices :=
    [(["created", "created at", "date", "timestamp", "created date"],
        ⟨"Original created date", "Imported links are dated at import time."⟩),
      (["clicks", "total clicks", "visit count", "visits"],
        ⟨"Click history", "Historical click counts are not imported."⟩)]

def bitly : CsvFormat where
  destination := ["long url", "original url", "long link"]
  -- the short link is a full URL, so the back-half is its last path segment
  slug p rec := slugFromShortUrl (pick p rec ["bitlink", "short url", "short link", "bitlink id"])
  title := ["title", "name"]
  description := []
  tags := ["tags", "labels"]
  missing := "This row has no Long URL — Bitly exports it as the 'Long URL' column."
  notices :=
    [(["created", "created at", "date"],
        ⟨"Created date", "Imported links are dated at import time."⟩),
      (["total clicks", "clicks"],
        ⟨"Total clicks", "Historical click counts are not imported."⟩),
      (["campaign", "group", "channel"],
        ⟨"Campaign / group", "Bitly campaigns and groups have no SnapURL equivalent."⟩)]

def yourls : CsvFormat where
  destination := ["url", "long url", "original url"]
  slug p rec := pick p rec ["keyword", "short code", "shorturl", "short url", "slug"]
  title := ["title"]
  description := []
  tags := []
  missing := "This row has no long URL — YOURLS exports it as the 'url' column."
  notices :=
    [(["timestamp", "created", "date"],
        ⟨"Timestamp", "Imported links are dated at import time."⟩),
      (["clicks"], ⟨"Clicks", "Historical click counts are not imported."⟩),
      (["ip"],
        ⟨"Creator IP", "YOURLS records the creator IP; SnapURL does not import it."⟩)]

def dub : CsvFormat where
  destination := ["destination url", "url", "long url", "destination", "target"]
  slug p rec :=
    -- prefer the bare key, then the last segment of a full short link
    let key := pick p rec ["key", "short link key", "back half", "slug"]
    if key ≠ "" then key
    else slugFromShortUrl (pick p rec ["short link", "shortlink", "link"])
  title := ["title"]
  description := ["description"]
  tags := ["tags", "labels"]
  missing := "This row has no destination URL — Dub exports it as the 'Destination URL' column."
  notices :=
    [(["created at", "createdat", "created", "date"],
        ⟨"Created date", "Imported links are dated at import time."⟩),
      (["clicks"], ⟨"Clicks", "Historical click counts are not imported."⟩),
      (["archived"], ⟨"Archived flag", "Dub's archived status is not imported."⟩),
      (["folder", "folderid", "folder id"],
        ⟨"Folder", "Dub folders have no SnapURL equivalent on import."⟩)]

/-! ### JSON -/

namespace Kutt

/-- The time value of a number, none where a date of it is invalid. -/
def timeClip (q : ℚ) : Option Int :=
  if |q| ≤ IsoDate.maxTime then some (q.num.tdiv q.den) else none

def toIso (p : Platform) : JsValue → Option String
  | .str raw => (p.parseDate raw).map p.toISOString
  | .num raw => (timeClip raw).map p.toISOString
  | _ => none

/-- A bare array of links, or an envelope with one. -/
def extractLinks : JsValue → Option (List JsValue)
  | .arr items => some items
  | .obj fields =>
    ["data", "links", "results"].findSome? fun key =>
      match (JsValue.obj fields).get key with
      | .arr items => some items
      | _ => none
  | _ => none

def str : JsValue → String
  | .str s => s
  | _ => ""

/-- The first of the fields that is a text and not empty. -/
def firstText (l : JsValue) (names : List String) : String :=
  ((names.map fun name => str (l.get name)).find? (· ≠ "")).getD ""

/-- `null` or `undefined`, which have no fields. -/
def nullish : JsValue → Bool
  | .null => true
  | .undefined => true
  | _ => false

def read (p : Platform) (l : JsValue) : Option (Except String SourceLink) :=
  -- to read a field of `null` raises
  if nullish l then none
  else
    let destination := firstText l ["target", "url", "destination"]
    if destination = "" then some (.error "This link has no target URL.")
    else
      let expiresAt :=
        toIso p (((l.get "expiration").orElse (l.get "expire_in")).orElse (l.get "expiresAt"))
      some (.ok {
        destination
        slug := given (firstText l ["address", "slug"])
        title := given (str (l.get "description"))
        tags := none
        description := none
        expiresAt := expiresAt.bind given })

/-- A link has one of the fields, with a value. -/
def has (links : List JsValue) (keys : List String) : Bool :=
  links.any fun l => keys.any fun k =>
    match l.get k with
    | .undefined => false
    | .null => false
    | .str s => s ≠ ""
    | _ => true

def notices : List (List String × DroppedField) :=
  [(["created_at", "createdAt"],
      ⟨"Created date", "Imported links are dated at import time."⟩),
    (["visit_count", "visitCount", "visits"],
      ⟨"Visit count", "Historical click counts are not imported."⟩),
    (["banned"], ⟨"Banned flag", "Kutt's banned status is not imported."⟩)]

def notJson : String := "This is not valid JSON — Kutt exports links as JSON, not CSV."

def notLinks : String := "Expected a JSON array of links (or a \x7b data: [...] \x7d object)."

def parse (r : Runtime) (text : String) : Option ParseResult :=
  match r.parseJson text with
  | none => some ⟨[], [], [⟨0, notJson⟩]⟩
  | some parsed =>
    match extractLinks parsed with
    | none => some ⟨[], [], [⟨0, notLinks⟩]⟩
    | some links =>
      (collect (read r.platform) [] [] 0 links).map fun (rows, errors) =>
        { rows
          dropped := (notices.filter fun notice => has links notice.1).map (·.2)
          errors }

end Kutt

/-! ### The registry -/

/-- The sources, in the order they appear in the picker. -/
inductive ImportSource where
  | genericCsv
  | bitly
  | yourls
  | kutt
  | dub
deriving DecidableEq, Repr

/-- The format of a source that is CSV. -/
def ImportSource.format : ImportSource → Option CsvFormat
  | .genericCsv => some Import.genericCsv
  | .bitly => some Import.bitly
  | .yourls => some Import.yourls
  | .kutt => none
  | .dub => some Import.dub

/-- `source.parse(text)`, none where it raises. -/
def parse (r : Runtime) (source : ImportSource) (text : String) : Option ParseResult :=
  match source.format with
  | some format => format.parse r.platform text
  | none => Kutt.parse r text

end SnapUrl.Import
