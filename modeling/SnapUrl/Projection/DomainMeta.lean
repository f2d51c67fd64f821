import Mathlib.Data.Prod.Lex
import Mathlib.Data.String.Basic
import SnapUrl.Lib.KeyedFold
import SnapUrl.Lib.MaxRegister
import SnapUrl.Projection.Item

/-!
# Domain items

`apps/worker/src/jobs/dynamo-projection.ts`, the item the redirect reads of a domain.
A host can change its owner, and what a worker writes may be read from an old state
of the database, so an item lands only where it is not older than what is stored: by
the domain's id (ids grow with time), then a tombstone over a live item, then by the
row's `updated_at`.

* `supersedes` is that order in the worker, `metaCondition` in the table's condition.
  Both are the order of `DomainItem.rank`, on the items the worker builds
  (`WellFormed`).
* `addMeta` keeps one item for each key, and `writeMeta` writes it.

Ids are uuids and versions are `toISOString` texts, which the runtime and the table
compare as Lean does.
-/

namespace SnapUrl.Projection

open Lib

/-- The domain row, as far as it is read. -/
structure PgDomain where
  id : String
  domain : String
  /-- Whether the status is `live`. -/
  live : Bool
  rootRedirect : Option String
  notFoundRedirect : Option String
  updatedAt : Option Int
deriving DecidableEq, Repr

structure ProjectedDomain where
  id : String
  rootRedirect : Option String
  notFoundRedirect : Option String
deriving DecidableEq, Repr

/-- The stored form.  `version` and `deleted` order the writes. -/
structure DomainItem where
  PK : String
  SK : String
  id : String
  rootRedirect : Option String
  notFoundRedirect : Option String
  version : Option String
  deleted : Bool
deriving DecidableEq, Repr

/-- `DOMAIN_META_SK`. -/
def domainMetaSk : String := "d#meta"

def toDomainItem (p : Platform) (host : String) (domain : ProjectedDomain)
    (version : Option String) (deleted : Bool) : DomainItem where
  PK := domainPk p host
  SK := domainMetaSk
  id := domain.id
  rootRedirect := domain.rootRedirect
  notFoundRedirect := domain.notFoundRedirect
  version := version
  deleted := deleted

def DomainItem.key (item : DomainItem) : String × String := (item.PK, item.SK)

/-- The row's `updated_at`, or the epoch. -/
def versionOf (p : Platform) (updatedAt : Option Int) : String :=
  p.toISOString (updatedAt.getD 0)

/-- What a domain op writes: the row, without its redirects unless it is live, or a
tombstone where the row is gone. -/
def buildDomainMeta (p : Platform) (domains : List PgDomain) (domainId : String)
    (host : Option String) : Option DomainItem :=
  match domains.find? fun d => d.id = domainId with
  | some row =>
    some (toDomainItem p row.domain
      { id := row.id
        rootRedirect := if row.live then row.rootRedirect else none
        notFoundRedirect := if row.live then row.notFoundRedirect else none }
      (some (versionOf p row.updatedAt)) false)
  | none =>
    if truthy host then
      some (toDomainItem p (orEmpty host)
        { id := domainId, rootRedirect := none, notFoundRedirect := none } none true)
    else none

/-- What the upsert of a link on a live domain writes of the domain. -/
def upsertMeta (p : Platform) (row : PgDomain) : DomainItem :=
  toDomainItem p row.domain
    { id := row.id, rootRedirect := row.rootRedirect, notFoundRedirect := row.notFoundRedirect }
    (some (versionOf p row.updatedAt)) false

/-! ### The order -/

/-- Whether `a` supersedes `b`, an item of the same key. -/
def supersedes (a b : DomainItem) : Bool :=
  if a.id ≠ b.id then b.id < a.id
  else if a.deleted ≠ b.deleted then a.deleted
  else orEmpty b.version ≤ orEmpty a.version

/-- The condition a write carries, on the item stored at its key. -/
def metaCondition (p : Platform) (item : DomainItem) (stored : Option DomainItem) : Bool :=
  match stored with
  | none => true
  | some s =>
    if item.deleted then s.id ≤ item.id
    else
      s.id < item.id ||
        (s.id = item.id && !s.deleted &&
          s.version.all (· ≤ item.version.getD (versionOf p none)))

/-- Id, deleted flag and version: what the order is about. -/
def DomainItem.rank (item : DomainItem) : String ×ₗ Bool ×ₗ String :=
  toLex (item.id, toLex (item.deleted, orEmpty item.version))

/-- A live item carries its row's version, a tombstone has none. -/
def DomainItem.WellFormed (item : DomainItem) : Prop := item.deleted = item.version.isNone

instance (item : DomainItem) : Decidable item.WellFormed :=
  inferInstanceAs (Decidable (item.deleted = item.version.isNone))

/-! ### Writes -/

/-- The newest item of a key, and the ops that contributed one. -/
structure MetaWrite where
  item : DomainItem
  owners : List Nat
deriving DecidableEq, Repr

def addMeta (owner : Nat) (metas : List MetaWrite) (item : DomainItem) : List MetaWrite :=
  if metas.any fun e => e.item.key = item.key then
    metas.map fun e =>
      if e.item.key = item.key then
        ⟨if supersedes item e.item then item else e.item, e.owners ++ [owner]⟩
      else e
  else metas ++ [⟨item, [owner]⟩]

/-- What a batch of ops has collected, of the items its ops gave one after another. -/
def collectMetas (entries : List (Nat × DomainItem)) : List MetaWrite :=
  entries.foldl (fun metas entry => addMeta entry.1 metas entry.2) []

/-- The write a batch has for a key. -/
def metaAt (metas : List MetaWrite) (key : String × String) : Option MetaWrite :=
  metas.find? fun e => e.item.key = key

/-- The domain items of the table. -/
abbrev Metas := String × String → Option DomainItem

/-- A write that loses the condition is superseded, and leaves the table as it is. -/
def writeMeta (p : Platform) (metas : Metas) (item : DomainItem) : Metas :=
  if metaCondition p item (metas item.key) then Function.update metas item.key (some item)
  else metas

/-! ### Both orders are the order of ranks -/

section

variable {p : Platform} {a b : DomainItem}

theorem buildDomainMeta_wellFormed {domains : List PgDomain} {domainId : String}
    {host : Option String} {item : DomainItem}
    (h : buildDomainMeta p domains domainId host = some item) : item.WellFormed := by
  unfold buildDomainMeta at h
  split at h
  · cases h
    rfl
  · split at h
    · cases h
      rfl
    · cases h

theorem upsertMeta_wellFormed (row : PgDomain) : (upsertMeta p row).WellFormed := rfl

theorem rank_le : b.rank ≤ a.rank ↔
    b.id < a.id ∨ b.id = a.id ∧
      (b.deleted < a.deleted ∨ b.deleted = a.deleted ∧ orEmpty b.version ≤ orEmpty a.version) := by
  rw [DomainItem.rank, DomainItem.rank, Prod.Lex.toLex_le_toLex, Prod.Lex.toLex_le_toLex]

/-- **`supersedes` is the order of ranks.** -/
theorem supersedes_iff : supersedes a b = true ↔ b.rank ≤ a.rank := by
  rw [rank_le, supersedes]
  by_cases hid : a.id = b.id
  · rw [if_neg (not_not_intro hid), hid]
    cases ha : a.deleted <;> cases hb : b.deleted <;> simp
  · rw [if_pos hid, decide_eq_true_eq]
    simp [Ne.symm hid]

theorem wellFormed_cases (h : a.WellFormed) :
    a.deleted = true ∧ a.version = none ∨ a.deleted = false ∧ ∃ v, a.version = some v := by
  unfold DomainItem.WellFormed at h
  cases hv : a.version with
  | none => exact Or.inl ⟨h.trans (by rw [hv]; rfl), rfl⟩
  | some v => exact Or.inr ⟨h.trans (by rw [hv]; rfl), v, rfl⟩

/-- **The table's condition is the order of ranks**, on items the worker builds. -/
theorem metaCondition_iff (ha : a.WellFormed) (hb : b.WellFormed) :
    metaCondition p a (some b) = true ↔ b.rank ≤ a.rank := by
  rw [rank_le]
  rcases wellFormed_cases ha with ⟨hda, hva⟩ | ⟨hda, v, hva⟩ <;>
    rcases wellFormed_cases hb with ⟨hdb, hvb⟩ | ⟨hdb, w, hvb⟩ <;>
    simp [metaCondition, hda, hva, hdb, hvb, le_iff_lt_or_eq]

/-- A write over a newer id is lost. -/
theorem id_le_of_metaCondition {s : DomainItem} (h : metaCondition p a (some s) = true) :
    s.id ≤ a.id := by
  rw [metaCondition] at h
  split at h
  · exact of_decide_eq_true h
  · simp only [Bool.or_eq_true, Bool.and_eq_true, decide_eq_true_eq] at h
    rcases h with h | ⟨⟨h, -⟩, -⟩
    · exact h.le
    · exact h.le

/-- What may overwrite an item, a newer one may too. -/
theorem metaCondition_mono {stored : Option DomainItem} (ha : a.WellFormed) (hb : b.WellFormed)
    (hab : a.rank ≤ b.rank) (h : metaCondition p a stored = true) :
    metaCondition p b stored = true := by
  cases stored with
  | none => rfl
  | some s =>
    have hs : s.id ≤ a.id := id_le_of_metaCondition h
    rcases rank_le.mp hab with hid | ⟨hid, hab⟩
    · simp [metaCondition, lt_of_le_of_lt hs hid, (lt_of_le_of_lt hs hid).le]
    · rw [hid] at hs
      rcases wellFormed_cases hb with ⟨hdb, hvb⟩ | ⟨hdb, w, hvb⟩
      · rw [metaCondition, if_pos hdb, decide_eq_true hs]
      · rcases wellFormed_cases ha with ⟨hda, hva⟩ | ⟨hda, v, hva⟩
        · -- a tombstone is not older than a live item of its id
          rw [hda, hdb] at hab
          rcases hab with hab | ⟨hab, -⟩
          · exact absurd hab (by decide)
          · exact absurd hab (by decide)
        · have hvw : v ≤ w := by simpa [hda, hdb, hva, hvb] using hab
          rw [metaCondition, hda, hid, if_neg Bool.false_ne_true] at h
          rw [metaCondition, hdb, if_neg Bool.false_ne_true]
          simp only [Bool.or_eq_true, Bool.and_eq_true, hva, hvb, Option.getD_some,
            Option.all_eq_true_iff_get, decide_eq_true_eq] at h ⊢
          exact h.imp_right fun h => ⟨h.1, fun hs => (h.2 hs).trans hvw⟩

end

/-! ### Collecting and writing -/

section

variable {p : Platform} {entries : List (Nat × DomainItem)} {key : String × String}

theorem addMeta_eq (owner : Nat) (metas : List MetaWrite) (item : DomainItem) :
    addMeta owner metas item =
      upsertBy (fun e : MetaWrite => e.item.key)
        (fun e => ⟨if supersedes item e.item then item else e.item, e.owners ++ [owner]⟩)
        ⟨item, [owner]⟩ metas := rfl

theorem key_supersedes {item : DomainItem} (e : MetaWrite) (h : e.item.key = item.key) :
    (if supersedes item e.item then item else e.item).key = item.key := by
  split
  · rfl
  · exact h

theorem keepGreatest_supersedes (a b : DomainItem) :
    keepGreatest DomainItem.rank (some b) a = some (if supersedes a b then a else b) := by
  by_cases h : supersedes a b = true
  · rw [if_pos h, keepGreatest, if_pos (by simpa using supersedes_iff.mp h)]
  · rw [if_neg h, keepGreatest, if_neg (by simpa using fun hle => h (supersedes_iff.mpr hle))]

/-- What an op's item does to the entry of its key. -/
def mergeMeta (e : Option MetaWrite) (entry : Nat × DomainItem) : Option MetaWrite :=
  some (e.elim ⟨entry.2, [entry.1]⟩ fun e =>
    ⟨if supersedes entry.2 e.item then entry.2 else e.item, e.owners ++ [entry.1]⟩)

theorem metaAt_addMeta (metas : List MetaWrite) (entry : Nat × DomainItem)
    (key : String × String) :
    metaAt (addMeta entry.1 metas entry.2) key =
      if entry.2.key = key then mergeMeta (metaAt metas key) entry else metaAt metas key := by
  rw [addMeta_eq, metaAt, find?_upsertBy key_supersedes]
  rfl

theorem foldl_mergeMeta (entries : List (Nat × DomainItem)) :
    entries.foldl mergeMeta none =
      ((entries.map Prod.snd).foldl (keepGreatest DomainItem.rank) none).map
        fun item => ⟨item, entries.map Prod.fst⟩ := by
  induction entries using List.reverseRecOn with
  | nil => rfl
  | append_singleton entries entry ih =>
    have hgreatest := isGreatest_foldl DomainItem.rank (entries.map Prod.snd)
    rw [List.foldl_append, ih, List.map_append, List.map_append, List.foldl_append]
    cases hfold : (entries.map Prod.snd).foldl (keepGreatest DomainItem.rank) none with
    | none =>
      rw [hfold] at hgreatest
      obtain rfl : entries = [] := List.map_eq_nil_iff.mp (isGreatest_none.mp hgreatest)
      rfl
    | some item =>
      rw [Option.map_some, List.map_singleton, List.foldl_cons, List.foldl_nil, List.map_singleton,
        List.foldl_cons, List.foldl_nil, keepGreatest_supersedes]
      rfl

/-- **A key gets the newest of its items**, with all who contributed one. -/
theorem metaAt_collectMetas (entries : List (Nat × DomainItem)) (key : String × String) :
    metaAt (collectMetas entries) key =
      (((entries.filter fun entry => entry.2.key = key).map Prod.snd).foldl
        (keepGreatest DomainItem.rank) none).map
        fun item => ⟨item, (entries.filter fun entry => entry.2.key = key).map Prod.fst⟩ := by
  rw [collectMetas, view_foldl mergeMeta metaAt_addMeta]
  exact foldl_mergeMeta _

theorem nodup_collectMetas (entries : List (Nat × DomainItem)) :
    ((collectMetas entries).map fun e => e.item.key).Nodup :=
  nodup_foldl_upsertBy (fun e : MetaWrite => e.item.key)
    (fun (entry : Nat × DomainItem) e =>
      ⟨if supersedes entry.2 e.item then entry.2 else e.item, e.owners ++ [entry.1]⟩)
    (fun entry => ⟨entry.2, [entry.1]⟩) (fun _ => key_supersedes) entries

/-- The write of a key stands for all its items. -/
theorem metaAt_collectMetas_eq_some {key : String × String} {e : MetaWrite}
    (h : metaAt (collectMetas entries) key = some e) :
    IsGreatest DomainItem.rank (some e.item)
        ((entries.filter fun entry => entry.2.key = key).map Prod.snd) ∧
      e.owners = (entries.filter fun entry => entry.2.key = key).map Prod.fst := by
  rw [metaAt_collectMetas] at h
  obtain ⟨item, hitem, rfl⟩ := Option.map_eq_some_iff.mp h
  have hgreatest := isGreatest_foldl DomainItem.rank
    ((entries.filter fun entry => entry.2.key = key).map Prod.snd)
  rw [hitem] at hgreatest
  exact ⟨hgreatest, rfl⟩

/-- Every item has a write for its key. -/
theorem metaAt_collectMetas_isSome {entry : Nat × DomainItem} (h : entry ∈ entries) :
    (metaAt (collectMetas entries) entry.2.key).isSome = true := by
  rw [metaAt_collectMetas, Option.isSome_map]
  have hgreatest := isGreatest_foldl DomainItem.rank
    ((entries.filter fun x => x.2.key = entry.2.key).map Prod.snd)
  cases hfold : ((entries.filter fun x => x.2.key = entry.2.key).map Prod.snd).foldl
      (keepGreatest DomainItem.rank) none with
  | none =>
    rw [hfold] at hgreatest
    have hmem : entry ∈ entries.filter fun x => x.2.key = entry.2.key := by simpa using h
    exact absurd (List.mem_map_of_mem hmem) (isGreatest_none.mp hgreatest ▸ List.not_mem_nil)
  | some item => rfl

/-- The owners of a write are the ops that gave an item for its key. -/
theorem mem_owners_collectMetas {e : MetaWrite} (he : e ∈ collectMetas entries) {i : Nat} :
    i ∈ e.owners ↔ ∃ item, (i, item) ∈ entries ∧ item.key = e.item.key := by
  have hfind : metaAt (collectMetas entries) e.item.key = some e :=
    (find?_key_eq_some_iff (nodup_collectMetas entries)).mpr ⟨he, rfl⟩
  rw [(metaAt_collectMetas_eq_some hfind).2]
  simp

theorem owners_collectMetas_ne_nil {e : MetaWrite} (he : e ∈ collectMetas entries) :
    ∃ i, i ∈ e.owners := by
  have hfind : metaAt (collectMetas entries) e.item.key = some e :=
    (find?_key_eq_some_iff (nodup_collectMetas entries)).mpr ⟨he, rfl⟩
  obtain ⟨hgreatest, howners⟩ := metaAt_collectMetas_eq_some hfind
  obtain ⟨entry, hentry, -⟩ := List.mem_map.mp (isGreatest_some.mp hgreatest).1
  exact ⟨entry.1, howners ▸ List.mem_map_of_mem hentry⟩

theorem writeMeta_apply (p : Platform) (metas : Metas) (item : DomainItem)
    (key : String × String) :
    writeMeta p metas item key =
      if item.key = key then writeIf (metaCondition p) (metas key) item else metas key := by
  by_cases hkey : item.key = key
  · subst hkey
    rw [if_pos rfl, writeMeta, writeIf]
    split
    · exact Function.update_self ..
    · rfl
  · rw [if_neg hkey, writeMeta]
    split
    · exact Function.update_of_ne (Ne.symm hkey) _ _
    · rfl

theorem foldl_writeMeta_apply (items : List DomainItem) (metas : Metas)
    (key : String × String) :
    items.foldl (writeMeta p) metas key =
      (items.filter fun item => item.key = key).foldl (writeIf (metaCondition p)) (metas key) :=
  @view_foldl Metas DomainItem (Option DomainItem) (String × String) _
    (fun metas key => metas key) (writeMeta p) DomainItem.key (writeIf (metaCondition p))
    (writeMeta_apply p) items metas key

/-- **Writing what was collected is writing all of it**, one item after another. -/
theorem foldl_writeMeta_collectMetas (hwf : ∀ entry ∈ entries, entry.2.WellFormed)
    (metas : Metas) :
    ((collectMetas entries).map (·.item)).foldl (writeMeta p) metas =
      (entries.map Prod.snd).foldl (writeMeta p) metas := by
  funext key
  rw [foldl_writeMeta_apply, foldl_writeMeta_apply, List.filter_map, List.filter_map]
  have hcond : ∀ x y : DomainItem, x.WellFormed → y.WellFormed →
      (metaCondition p x (some y) = true ↔ y.rank ≤ x.rank) := fun _ _ => metaCondition_iff
  have hmono : ∀ x y : DomainItem, x.WellFormed → y.WellFormed → x.rank ≤ y.rank →
      metaCondition p x (metas key) = true → metaCondition p y (metas key) = true :=
    fun _ _ => metaCondition_mono
  have hown := metaAt_collectMetas entries key
  have hfilter : ∀ item ∈ (entries.filter fun entry => entry.2.key = key).map Prod.snd,
      item.WellFormed := by
    intro item hitem
    obtain ⟨entry, hentry, rfl⟩ := List.mem_map.mp hitem
    exact hwf entry (List.mem_of_mem_filter hentry)
  have hcomp : (fun item : DomainItem => decide (item.key = key)) ∘ Prod.snd =
      fun entry : Nat × DomainItem => decide (entry.2.key = key) := rfl
  have hcomp' : (fun item : DomainItem => decide (item.key = key)) ∘ MetaWrite.item =
      fun e : MetaWrite => decide (e.item.key = key) := rfl
  rw [hcomp, hcomp']
  cases hitems : (entries.filter fun entry => entry.2.key = key).map Prod.snd with
  | nil =>
    rw [hitems, List.foldl_nil, Option.map_none] at hown
    rw [List.filter_eq_nil_iff.mpr (List.find?_eq_none.mp hown)]
    rfl
  | cons item items =>
    rw [hitems] at hown hfilter
    obtain ⟨hitem, hrest⟩ := List.forall_mem_cons.mp hfilter
    obtain ⟨newest, -, hnewest, hwrites⟩ := foldl_writeIf hcond hmono hrest hitem
    have hkeep : keepGreatest DomainItem.rank none item = some item := rfl
    rw [List.foldl_cons, hkeep, hnewest, Option.map_some] at hown
    obtain ⟨hmem, hkey⟩ := (find?_key_eq_some_iff (nodup_collectMetas entries)).mp hown
    have hone := filter_key_of_mem (nodup_collectMetas entries) hmem
    rw [hkey] at hone
    rw [hone, List.foldl_cons, hwrites]
    rfl

end

end SnapUrl.Projection
