import SnapUrl.Domain.RoutingReference
import SnapUrl.Lib.IsoDate
import SnapUrl.Links.Slug
import SnapUrl.Projection.Batch

/-!
# The edge's key-value store

`apps/worker/src/jobs/kvs-projection.ts` beside the table of `dynamo-projection.ts`.  A plain link
is answered at the edge, from a store that `apply` writes after the table: for each op that the
table has taken, in the order of the ops, and then the cache is busted.  An op that fails is run
again from its start by a later drain.

* `act`: link writes, and one worker's drain call by call; each call may throw, with or without
  effect.  A drain of one row at a time is claims of one row each.
* `Agree`: the store has what the table has an edge-eligible link for, and nothing else.
* `Kept`: no removal is cut short after the table has lost the item and before the store has lost
  the entry.
* `eq_of_kvsKey_eq`: no other key has the place in the store of a key that a link is stored at.
-/

namespace SnapUrl.Projection.EdgeStore

open Lib Domain

/-! ### What the store is given -/

/-- `MAX_VALUE_BYTES`. -/
def maxValueBytes : Nat := 1024

def redirectTypeText : RedirectType → String
  | .r301 => "301"
  | .r302 => "302"
  | .r307 => "307"

/-- The object that `kvsValue` hands to `JSON.stringify`. -/
def KvsValue.json (v : KvsValue) : Json :=
  .obj ([("destination", Json.str v.destination),
      ("redirectType", Json.str (redirectTypeText v.redirectType))]
    ++ (if v.forwardQuery then [("forwardQuery", Json.bool true)] else [])
    ++ (v.base.map fun base => ("base", Json.str base)).toList
    ++ (v.params.map fun params =>
      ("params", Json.arr (params.map fun pair => Json.arr [Json.str pair.1, Json.str pair.2]))).toList
    ++ (v.hash.map fun hash => ("hash", Json.str hash)).toList)

def kvsText (p : Platform) (link : ProjectedLink) : String :=
  p.stringifyJson (KvsValue.json (kvsValue p link))

/-- What `putIfEligible` leaves at the key of a link: a value that is too long is deleted. -/
def entryOf (p : Platform) (link : ProjectedLink) : Option String :=
  if isEdgeEligible link then
    if maxValueBytes < (kvsText p link).utf8ByteSize then none else some (kvsText p link)
  else none

/-! ### The worker -/

/-- What became of a call: it was answered, or it threw, with or without effect. -/
inductive Call where
  | answered
  | threw (landed : Bool)
deriving DecidableEq, Repr

def Call.landed : Call → Bool
  | .answered => true
  | .threw landed => landed

/-- What is to be done at the edge for an op, on one host and slug. -/
structure EdgeWork where
  row : Nat
  /-- The link of an upsert; a removal has none. -/
  link : Option ProjectedLink
  host : String
  slug : String
deriving DecidableEq, Repr

def EdgeWork.kvsKey (p : Platform) (w : EdgeWork) : String := Projection.kvsKey p w.host w.slug

def EdgeWork.key (p : Platform) (w : EdgeWork) : String × String := linkKey p w.host w.slug

/-- `putIfEligible`, or `deleteKey`. -/
def EdgeWork.entry (p : Platform) (w : EdgeWork) : Option String := w.link.bind (entryOf p)

/-- A batch that was claimed. -/
structure Worker where
  todo : List Nat
  results : List (Nat × Bool)
  pending : List PendingWrite
  edge : List EdgeWork
deriving DecidableEq, Repr

def Worker.idle : Worker := ⟨[], [], [], []⟩

structure State where
  links : List PgLink
  outbox : List OutboxRow
  table : List LinkItem
  kvs : String → Option String
  worker : Worker
  now : Int

def start : State := ⟨[], [], [], fun _ => none, .idle, 0⟩

/-! ### Steps -/

inductive Action where
  | create (l : PgLink)
  /-- The link's fields change; its host and its slug do not. -/
  | update (link : ProjectedLink)
  | delete (linkId : String)
  | claim (rows : List Nat)
  | resolve
  | resolveFails
  /-- A request is flushed. -/
  | write (call : Call)
  /-- The put of a row's domain item throws. -/
  | metaFails (row : Nat)
  /-- The store is written, and then the cache is busted. -/
  | edge (call : Call) (busted : Bool)
  | mark
  | die
  | tick (ms : Nat)
deriving DecidableEq, Repr

/-- A text of letters, digits, dots, dashes and underscores, as `AddDomainInput` and
`isSlugAvailableShape` ask for. -/
def isAddress (s : String) : Bool := s.toList.all Links.isSlugChar

/-- The range of a `Date`. -/
def isDate (d : Option Int) : Bool := d.all fun t => -IsoDate.maxTime ≤ t ∧ t ≤ IsoDate.maxTime

def hasDates (link : ProjectedLink) : Bool := isDate link.expiresAt && isDate link.activatesAt

def State.enqueue (s : State) (linkId : String) (operation : Operation) : State :=
  { s with outbox := s.outbox ++ [.enqueued linkId operation] }

/-- The requests a row resolves to. -/
def State.requestsOf (p : Platform) (s : State) (row : OutboxRow) : List WriteRequest :=
  match row.operation with
  | .upsert => buildUpsertRequests p s.links row.linkId
  | .delete => buildDeleteRequests s.table row.linkId

/-- What a row's op has to do at the edge. -/
def State.edgeOf (s : State) (r : Nat) (row : OutboxRow) : List EdgeWork :=
  match row.operation with
  | .upsert =>
    match s.links.find? fun l => l.link.id = row.linkId with
    | none => []
    | some l => if !l.live then [] else [⟨r, some l.link, l.host, l.slug⟩]
  | .delete =>
    (Batch.edgeTargetsOf (buildDeleteRequests s.table row.linkId)).map fun target =>
      ⟨r, none, target.1, target.2⟩

def State.resolve (p : Platform) (s : State) : State :=
  match s.worker.todo with
  | [] => s
  | r :: rest =>
    match s.outbox[r]? with
    | none => s
    | some row =>
      { s with worker :=
          { todo := rest
            results := s.worker.results ++ [(r, true)]
            pending := (s.requestsOf p row).foldl (addRequest r) s.worker.pending
            edge := s.worker.edge ++ s.edgeOf r row } }

def State.resolveFails (s : State) : State :=
  match s.worker.todo with
  | [] => s
  | r :: rest =>
    { s with worker := { s.worker with todo := rest, results := s.worker.results ++ [(r, false)] } }

def State.write (s : State) (call : Call) : State :=
  match s.worker.todo, s.worker.pending with
  | [], e :: rest =>
    { s with
      table := if call.landed then e.request.apply s.table else s.table
      worker := { s.worker with
        pending := rest
        results := if call = .answered then s.worker.results
          else failRows e.owners s.worker.results } }
  | _, _ => s

def State.metaFails (s : State) (row : Nat) : State :=
  if s.worker.todo = [] ∧ s.worker.pending = [] ∧
      (s.outbox[row]?).any (·.operation = .upsert) = true then
    { s with worker := { s.worker with results := failRows [row] s.worker.results } }
  else s

/-- Nothing is done at the edge for an op that has failed. -/
def State.edge (p : Platform) (s : State) (call : Call) (busted : Bool) : State :=
  match s.worker.todo, s.worker.pending, s.worker.edge with
  | [], [], work :: rest =>
    if (work.row, true) ∈ s.worker.results then
      { s with
        kvs := if call.landed then Function.update s.kvs (work.kvsKey p) (work.entry p) else s.kvs
        worker := { s.worker with
          edge := rest
          results := if call = .answered ∧ busted = true then s.worker.results
            else failRows [work.row] s.worker.results } }
    else { s with worker := { s.worker with edge := rest } }
  | _, _, _ => s

def State.mark (s : State) : State :=
  match s.worker.todo, s.worker.pending, s.worker.edge, s.worker.results with
  | [], [], [], (r, ok) :: rest =>
    { s with
      outbox := s.outbox.modify r fun row => if ok then row.markProcessed else row.markFailed
      worker := { s.worker with results := rest } }
  | _, _, _, _ => s

/-- What an action does, nothing when it is not enabled. -/
def act (p : Platform) (s : State) : Action → State
  | .create l =>
    -- the id is new and the key is free
    if l.live = true ∧ hasDates l.link = true ∧ isAddress l.host = true ∧ isAddress l.slug = true ∧
        (∀ row ∈ s.outbox, row.linkId ≠ l.link.id) ∧ ∀ l' ∈ s.links, l'.key p ≠ l.key p then
      { s with links := s.links ++ [l] }.enqueue l.link.id .upsert
    else s
  | .update link =>
    if hasDates link = true ∧ ∃ l ∈ s.links, l.link.id = link.id then
      { s with links := s.links.map (PgLink.set link) }.enqueue link.id .upsert
    else s
  | .delete linkId =>
    if ∃ l ∈ s.links, l.link.id = linkId then
      { s with links := s.links.filter fun l => l.link.id ≠ linkId }.enqueue linkId .delete
    else s
  | .claim rows =>
    if s.worker = .idle ∧ rows.Nodup ∧
        ∀ r ∈ rows, (s.outbox[r]?).any (·.claimable s.now) = true then
      { s with
        outbox := s.outbox.mapIdx fun r row =>
          if r ∈ rows then { row with claimedAt := some s.now } else row
        worker := ⟨rows, [], [], []⟩ }
    else s
  | .resolve => s.resolve p
  | .resolveFails => s.resolveFails
  | .write call => s.write call
  | .metaFails row => s.metaFails row
  | .edge call busted => s.edge p call busted
  | .mark => s.mark
  | .die => { s with worker := .idle }
  | .tick ms => { s with now := s.now + ms }

def step (p : Platform) (s : State) (a : Action) : Option State := some (act p s a)

/-! ### What is claimed of a run -/

def Drained (s : State) : Prop := ∀ row ∈ s.outbox, row.processed = true

/-- What the store should have for a host and a slug. -/
def State.entryAt (p : Platform) (s : State) (host slug : String) : Option String :=
  (getItem s.table (linkKey p host slug)).bind fun item => entryOf p (fromLinkItem p item)

/-- **The store has what the table has an edge-eligible link for, and nothing else; and the table
has no link that was deleted.** -/
def Agree (p : Platform) (s : State) : Prop :=
  (∀ host slug, s.kvs (kvsKey p host slug) = s.entryAt p host slug) ∧
    ∀ row ∈ s.outbox, row.operation = .delete → ∀ item ∈ s.table, item.linkId ≠ row.linkId

/-- The key of the store for a key of the table. -/
def slotOf (key : String × String) : String :=
  Batch.sliceFrom2 key.1 ++ "/" ++ Batch.sliceFrom2 key.2

/-- The store answers for a key that the table has nothing at. -/
def State.Leftover (s : State) (key : String × String) : Prop :=
  getItem s.table key = none ∧ s.kvs (slotOf key) ≠ none

/-- **No removal is cut short after the table has lost the item and before the store has lost the
entry**: the delete of the item does not throw once it has landed, the delete of the entry lands,
and the worker does not die in between. -/
def Kept (p : Platform) (s : State) : Action → Prop
  | .write (.threw true) => ∀ e ∈ s.worker.pending.head?, e.request.item? = none →
      s.kvs (slotOf e.request.key) = none
  | .edge (.threw false) _ => ∀ w ∈ s.worker.edge.head?, w.link = none →
      (w.row, true) ∈ s.worker.results → ¬ s.Leftover (w.key p)
  | .die => ∀ w ∈ s.worker.edge, w.link = none → ¬ s.Leftover (w.key p)
  | _ => True

/-! ### Keys -/

section

variable {p : Platform} {s host slug : String} {key : String × String}

theorem isAddress_char {c : Char} (h : Links.isSlugChar c = true) :
    c.toNat < 128 ∧ Links.isSlugChar c.toLower = true ∧ c.toLower.toLower = c.toLower ∧
      isJsSpace c = false ∧ c ≠ '/' := by
  have hall : ∀ n < 128, Links.isSlugChar (Char.ofNat n) = true →
      Links.isSlugChar (Char.ofNat n).toLower = true ∧
        (Char.ofNat n).toLower.toLower = (Char.ofNat n).toLower ∧
        isJsSpace (Char.ofNat n) = false ∧ Char.ofNat n ≠ '/' := by
    decide +kernel
  have hc := hall c.toNat (Links.toNat_lt_of_isSlugChar h)
  rw [Char.ofNat_toNat] at hc
  exact ⟨Links.toNat_lt_of_isSlugChar h, hc h⟩

theorem mem_address {c : Char} (h : isAddress s = true) (hc : c ∈ s.toList) :
    Links.isSlugChar c = true :=
  List.all_eq_true.mp h c hc

/-- An address in lower case is one, and stays as it is. -/
theorem lower_address (hascii : AsciiCases p) (h : isAddress s = true) :
    isAddress (p.toLowerCase s) = true ∧ p.toLowerCase (p.toLowerCase s) = p.toLowerCase s := by
  have hlower : ∀ {t : String}, isAddress t = true →
      p.toLowerCase t = String.ofList (t.toList.map Char.toLower) := fun ht =>
    (hascii _ fun c hc => (isAddress_char (mem_address ht hc)).1).2
  have haddress : isAddress (p.toLowerCase s) = true := by
    rw [hlower h, isAddress, String.toList_ofList, List.all_map, List.all_eq_true]
    exact fun c hc => (isAddress_char (mem_address h hc)).2.1
  refine ⟨haddress, ?_⟩
  rw [hlower haddress, hlower h, String.toList_ofList, List.map_map]
  exact congrArg String.ofList (List.map_congr_left fun c hc =>
    (isAddress_char (mem_address h hc)).2.2.1)

theorem trim_address (h : isAddress s = true) : trim s = s := by
  have hdrop : ∀ {l : List Char}, (∀ c ∈ l, isJsSpace c = false) → l.dropWhile isJsSpace = l := by
    intro l hl
    refine List.dropWhile_eq_self_iff.mpr fun hlt => ?_
    rw [hl _ (List.getElem_mem hlt)]
    exact Bool.false_ne_true
  have hspace : ∀ c ∈ s.toList, isJsSpace c = false := fun c hc =>
    (isAddress_char (mem_address h hc)).2.2.2.1
  rw [trim, hdrop hspace, hdrop fun c hc => hspace c (List.mem_reverse.mp hc),
    List.reverse_reverse, String.ofList_toList]

theorem normaliseHost_address (hascii : AsciiCases p) (h : isAddress host = true) :
    normaliseHost p host = p.toLowerCase host :=
  trim_address (lower_address hascii h).1

theorem sliceFrom2_domainPk : Batch.sliceFrom2 (domainPk p host) = normaliseHost p host := by
  rw [Batch.sliceFrom2, domainPk, String.toList_append]
  exact String.ofList_toList

theorem sliceFrom2_linkSk : Batch.sliceFrom2 (linkSk p slug) = p.toLowerCase slug := by
  rw [Batch.sliceFrom2, linkSk, String.toList_append]
  exact String.ofList_toList

@[simp] theorem slotOf_linkKey : slotOf (linkKey p host slug) = kvsKey p host slug := by
  rw [slotOf, linkKey, sliceFrom2_domainPk, sliceFrom2_linkSk]
  rfl

/-- A key that a link is stored at. -/
def Addressed (p : Platform) (key : String × String) : Prop :=
  ∃ host slug, isAddress host = true ∧ isAddress slug = true ∧ key = linkKey p host slug

/-- A removal finds the host and the slug in the key. -/
theorem linkKey_sliceFrom2 (hascii : AsciiCases p) (h : Addressed p key) :
    linkKey p (Batch.sliceFrom2 key.1) (Batch.sliceFrom2 key.2) = key := by
  obtain ⟨host, slug, hhost, hslug, rfl⟩ := h
  obtain ⟨hlower, hagain⟩ := lower_address hascii hhost
  have hPK : Batch.sliceFrom2 (linkKey p host slug).1 = p.toLowerCase host :=
    sliceFrom2_domainPk.trans (normaliseHost_address hascii hhost)
  have hSK : Batch.sliceFrom2 (linkKey p host slug).2 = p.toLowerCase slug := sliceFrom2_linkSk
  rw [hPK, hSK, linkKey, domainPk, linkSk, normaliseHost_address hascii hlower, hagain,
    (lower_address hascii hslug).2, linkKey, domainPk, linkSk, normaliseHost_address hascii hhost]

theorem edgeTargetsOf_delete (h : Addressed p key) :
    Batch.edgeTargetsOf [.delete key] =
      [(Batch.sliceFrom2 key.1, Batch.sliceFrom2 key.2)] := by
  obtain ⟨host, slug, -, -, rfl⟩ := h
  have hstart : ∀ {part rest : String}, Batch.startsWith (part ++ rest) part = true := by
    intro part rest
    rw [Batch.startsWith, String.toList_append, List.isPrefixOf_iff_prefix]
    exact List.prefix_append _ _
  simp only [Batch.edgeTargetsOf, List.filterMap_cons, List.filterMap_nil, linkKey, domainPk,
    linkSk, hstart, Bool.not_true, Bool.or_false, Bool.false_eq_true, if_false]

/-- Two texts around a slash are told apart when the first pair has no slash in it. -/
theorem slash_inj {a b c d : List Char} (ha : '/' ∉ a) (hb : '/' ∉ b)
    (h : a ++ '/' :: b = c ++ '/' :: d) : a = c ∧ b = d := by
  rcases List.append_eq_append_iff.mp h with ⟨e, rfl, he⟩ | ⟨e, rfl, he⟩
  · cases e with
    | nil => exact ⟨(List.append_nil a).symm, (List.cons.inj he).2⟩
    | cons x e =>
      refine absurd ?_ hb
      rw [(List.cons.inj he).2]
      exact List.mem_append_right _ List.mem_cons_self
  · cases e with
    | nil => exact ⟨List.append_nil c, (List.cons.inj he).2.symm⟩
    | cons x e =>
      refine absurd ?_ ha
      rw [← (List.cons.inj he).1]
      exact List.mem_append_right _ List.mem_cons_self

/-- **No other key has the place in the store of a key that a link is stored at.** -/
theorem eq_of_kvsKey_eq (hascii : AsciiCases p) (h : Addressed p key)
    (hkvs : slotOf key = kvsKey p host slug) : key = linkKey p host slug := by
  obtain ⟨host', slug', hhost', hslug', rfl⟩ := h
  have hslash : ∀ {t : String}, isAddress t = true → '/' ∉ (p.toLowerCase t).toList := by
    intro t ht hmem
    exact (isAddress_char (mem_address (lower_address hascii ht).1 hmem)).2.2.2.2 rfl
  rw [slotOf_linkKey, kvsKey, kvsKey, String.append_assoc, String.append_assoc] at hkvs
  have hchars := congrArg String.toList hkvs
  simp only [String.toList_append] at hchars
  obtain ⟨hleft, hright⟩ := slash_inj
    (by rw [normaliseHost_address hascii hhost']; exact hslash hhost') (hslash hslug') hchars
  rw [linkKey, linkKey, domainPk, domainPk, linkSk, linkSk, String.toList_inj.mp hleft,
    String.toList_inj.mp hright]

end

end SnapUrl.Projection.EdgeStore
