import SnapUrl.Lib.Run
import SnapUrl.Projection.Convergence
import SnapUrl.Projection.DomainMeta

/-!
# The domain item is a register that keeps the newest version

Any number of workers drain at once.  Each collects the domain items its ops give
(`collectMetas`) and writes one for each key, under a condition; a write may be
repeated, may fail and may come long after newer ones.

* `landed` is the history of a run: the versions an answered write stood for.
* `register_converges`: **after every run a key holds the greatest version that
  landed**, so two runs where the same versions landed hold the same, and no write
  puts an older version over a newer one.
-/

namespace SnapUrl.Projection.MetaRegister

open Lib

/-- A running drain: the items of its ops by their place, what is not written yet, and
the ops that failed. -/
structure Batch where
  entries : List (Nat × DomainItem)
  unwritten : List MetaWrite
  failed : List Nat
deriving DecidableEq, Repr

structure State where
  metas : Metas
  batches : List Batch
  landed : List DomainItem

def start : State := ⟨fun _ => none, [], []⟩

inductive Action where
  /-- A worker has resolved its ops; the per-row path has one. -/
  | resolve (entries : List (Nat × DomainItem))
  /-- Batch `i` writes its item for a key, and may yet write it again. -/
  | write (i : Nat) (key : String × String) (again : Bool)
  | writeFails (i : Nat) (key : String × String)
  | crash (i : Nat)
deriving DecidableEq, Repr

/-- The batch without its write for a key. -/
def Batch.done (b : Batch) (key : String × String) : Batch :=
  { b with unwritten := b.unwritten.filter fun e => e.item.key ≠ key }

/-- The versions a batch's write for a key stands for. -/
def Batch.versions (b : Batch) (key : String × String) : List DomainItem :=
  (b.entries.filter fun entry => entry.2.key = key).map Prod.snd

/-- Batch `i` has had its write of `item` at a key answered. -/
def State.write (p : Platform) (s : State) (i : Nat) (b : Batch) (key : String × String)
    (item : DomainItem) (again : Bool) : State where
  metas := writeMeta p s.metas item
  batches := s.batches.set i (if again then b else b.done key)
  landed := s.landed ++ b.versions key

def step (p : Platform) (s : State) : Action → Option State
  | .resolve entries =>
    if ∀ entry ∈ entries, entry.2.WellFormed then
      some { s with batches := s.batches ++ [⟨entries, collectMetas entries, []⟩] }
    else none
  | .write i key again => do
    let b ← s.batches[i]?
    let e ← metaAt b.unwritten key
    some (s.write p i b key e.item again)
  | .writeFails i key => do
    let b ← s.batches[i]?
    let e ← metaAt b.unwritten key
    some { s with
      batches := s.batches.set i { b.done key with failed := b.failed ++ e.owners } }
  | .crash i => do
    let _ ← s.batches[i]?
    some { s with batches := s.batches.eraseIdx i }

/-! ### What is claimed of a run -/

/-- The versions that landed at a key. -/
def State.versionsAt (s : State) (key : String × String) : List DomainItem :=
  s.landed.filter fun item => item.key = key

/-- A key holds a version that may overwrite every one that landed there, and an op that
did not fail has landed once its batch is written. -/
structure Converged (p : Platform) (s : State) : Prop where
  none_landed : ∀ key, s.metas key = none → s.versionsAt key = []
  greatest : ∀ key item, s.metas key = some item →
    item ∈ s.versionsAt key ∧
      ∀ other ∈ s.versionsAt key,
        supersedes item other = true ∧ metaCondition p item (some other) = true
  written : ∀ b ∈ s.batches, b.unwritten = [] → ∀ entry ∈ b.entries,
    entry.1 ∈ b.failed ∨ entry.2 ∈ s.landed

/-- A stored item is there still, or gave way to one that supersedes it. -/
def NeverOlder (s s' : State) : Prop :=
  ∀ key item, s.metas key = some item →
    ∃ item', s'.metas key = some item' ∧ supersedes item' item = true

/-- Id, deleted flag and version say what an item holds. -/
def Consistent (items : List DomainItem) : Prop :=
  ∀ a ∈ items, ∀ b ∈ items,
    a.id = b.id → a.deleted = b.deleted → a.version = b.version → a = b

/-- `supersedes` orders items like the table's condition: any two of them, either way
only where id, deleted flag and version are the same. -/
structure OrdersItems (p : Platform) : Prop where
  refl : ∀ a, supersedes a a = true
  trans : ∀ a b c, supersedes a b = true → supersedes b c = true → supersedes a c = true
  total : ∀ a b, supersedes a b = true ∨ supersedes b a = true
  antisymm : ∀ a b : DomainItem, a.WellFormed → b.WellFormed → supersedes a b = true →
    supersedes b a = true → a.id = b.id ∧ a.deleted = b.deleted ∧ a.version = b.version
  condition : ∀ a b : DomainItem, a.WellFormed → b.WellFormed →
    (supersedes a b = true ↔ metaCondition p a (some b) = true)

/-! ### The order -/

section

variable {p : Platform} {a b : DomainItem}

theorem rank_inj (ha : a.WellFormed) (hb : b.WellFormed) :
    a.rank = b.rank ↔ a.id = b.id ∧ a.deleted = b.deleted ∧ a.version = b.version := by
  simp only [DomainItem.rank, toLex_inj, Prod.mk.injEq]
  refine and_congr_right fun _ => and_congr_right fun hdeleted => ?_
  rcases wellFormed_cases ha with ⟨hda, hva⟩ | ⟨hda, v, hva⟩ <;>
    rcases wellFormed_cases hb with ⟨hdb, hvb⟩ | ⟨hdb, w, hvb⟩
  · simp [hva, hvb]
  · exact absurd (hda.symm.trans (hdeleted.trans hdb)) (by decide)
  · exact absurd (hda.symm.trans (hdeleted.trans hdb)) (by decide)
  · simp [orEmpty, hva, hvb]

theorem ordersItems (p : Platform) : OrdersItems p where
  refl a := supersedes_iff.mpr le_rfl
  trans a b c hab hbc := supersedes_iff.mpr ((supersedes_iff.mp hbc).trans (supersedes_iff.mp hab))
  total a b := by
    rw [supersedes_iff, supersedes_iff]
    exact le_total _ _
  antisymm a b ha hb hab hba := by
    rw [supersedes_iff] at hab hba
    exact (rank_inj ha hb).mp (le_antisymm hba hab)
  condition a b ha hb := supersedes_iff.trans (metaCondition_iff ha hb).symm

/-- The condition makes a write keep the greatest. -/
theorem writeMeta_keepGreatest {metas : Metas} {item : DomainItem} (hitem : item.WellFormed)
    (hstored : ∀ s ∈ metas item.key, s.WellFormed) (key : String × String) :
    writeMeta p metas item key =
      if item.key = key then keepGreatest DomainItem.rank (metas key) item else metas key := by
  rw [writeMeta_apply]
  refine ite_congr rfl (fun hkey => ?_) fun _ => rfl
  subst hkey
  cases hs : metas item.key with
  | none => rfl
  | some s => exact writeIf_some (metaCondition_iff hitem (hstored s hs))

end

/-! ### Batches -/

section

variable {p : Platform} {b : Batch} {entries : List (Nat × DomainItem)} {key k : String × String}
  {e : MetaWrite}

theorem metaAt_done :
    metaAt (b.done key).unwritten k = if k = key then none else metaAt b.unwritten k := by
  rw [Batch.done, metaAt, List.find?_filter]
  by_cases h : k = key
  · rw [if_pos h, List.find?_eq_none]
    rintro e -
    simp [h]
  · rw [if_neg h, metaAt]
    refine congrArg (fun f => List.find? f b.unwritten) (funext fun e => ?_)
    by_cases he : e.item.key = k
    · simp [he, h]
    · simp [he]

/-- What holds of a running batch. -/
structure BatchInv (landed : List DomainItem) (b : Batch) : Prop where
  wellFormed : ∀ entry ∈ b.entries, entry.2.WellFormed
  unwritten : ∀ key e, metaAt b.unwritten key = some e →
    metaAt (collectMetas b.entries) key = some e
  written : ∀ entry ∈ b.entries, entry.1 ∈ b.failed ∨ entry.2 ∈ landed ∨
    (metaAt b.unwritten entry.2.key).isSome = true

theorem BatchInv.mono {landed landed' : List DomainItem} (h : BatchInv landed b)
    (hl : ∀ item ∈ landed, item ∈ landed') : BatchInv landed' b :=
  ⟨h.wellFormed, h.unwritten, fun entry he =>
    (h.written entry he).imp_right (Or.imp_left (hl entry.2))⟩

theorem batchInv_resolve {landed : List DomainItem}
    (h : ∀ entry ∈ entries, entry.2.WellFormed) :
    BatchInv landed ⟨entries, collectMetas entries, []⟩ :=
  ⟨h, fun _ _ he => he, fun _ he => Or.inr (Or.inr (metaAt_collectMetas_isSome he))⟩

/-- A write that was answered has landed all versions it stands for. -/
theorem BatchInv.done {landed : List DomainItem} (h : BatchInv landed b) :
    BatchInv (landed ++ b.versions key) (b.done key) := by
  refine ⟨h.wellFormed, fun k e he => ?_, fun entry hentry => ?_⟩
  · rw [metaAt_done] at he
    split at he
    · exact absurd he (by simp)
    · exact h.unwritten k e he
  · by_cases hkey : entry.2.key = key
    · refine Or.inr (Or.inl (List.mem_append_right _ (List.mem_map_of_mem ?_)))
      exact List.mem_filter.mpr ⟨hentry, decide_eq_true hkey⟩
    · rw [metaAt_done, if_neg hkey]
      exact (h.written entry hentry).imp_right (Or.imp_left (List.mem_append_left _))

/-- A write that failed fails all ops that contributed to it. -/
theorem BatchInv.fail {landed : List DomainItem} (h : BatchInv landed b)
    (he : metaAt b.unwritten key = some e) :
    BatchInv landed { b.done key with failed := b.failed ++ e.owners } := by
  refine ⟨h.wellFormed, fun k e' he' => ?_, fun entry hentry => ?_⟩
  · rw [metaAt_done] at he'
    split at he'
    · exact absurd he' (by simp)
    · exact h.unwritten k e' he'
  · by_cases hkey : entry.2.key = key
    · refine Or.inl (List.mem_append_right _ ?_)
      rw [(metaAt_collectMetas_eq_some (h.unwritten key e he)).2]
      exact List.mem_map_of_mem (List.mem_filter.mpr ⟨hentry, decide_eq_true hkey⟩)
    · rw [metaAt_done, if_neg hkey]
      exact (h.written entry hentry).imp_left (List.mem_append_left _)

end

/-! ### Runs -/

section

variable {p : Platform} {s s' : State}

structure Inv (s : State) : Prop where
  wellFormed : ∀ item ∈ s.landed, item.WellFormed
  greatest : ∀ key, IsGreatest DomainItem.rank (s.metas key) (s.versionsAt key)
  batches : ∀ b ∈ s.batches, BatchInv s.landed b

theorem Inv.stored (h : Inv s) {key : String × String} {item : DomainItem}
    (hitem : s.metas key = some item) : item ∈ s.versionsAt key ∧ item.WellFormed := by
  have hgreatest := h.greatest key
  rw [hitem] at hgreatest
  have hmem := (isGreatest_some.mp hgreatest).1
  exact ⟨hmem, h.wellFormed item (List.mem_of_mem_filter hmem)⟩

theorem keepGreatest_neverOlder {stored : Option DomainItem} {item x : DomainItem}
    (h : stored = some item) :
    ∃ item', keepGreatest DomainItem.rank stored x = some item' ∧ supersedes item' item = true := by
  subst h
  rw [keepGreatest_supersedes]
  refine ⟨_, rfl, ?_⟩
  split
  · assumption
  · exact supersedes_iff.mpr le_rfl

/-- **A write keeps the greatest of what landed**, and puts nothing older. -/
theorem inv_write (h : Inv s) {i : Nat} {b : Batch} {key : String × String} {e : MetaWrite}
    (hb : s.batches[i]? = some b) (he : metaAt b.unwritten key = some e) (again : Bool) :
    Inv (s.write p i b key e.item again) ∧ NeverOlder s (s.write p i b key e.item again) := by
  have hbinv : BatchInv s.landed b := h.batches b (List.mem_of_getElem? hb)
  have hgreatest : IsGreatest DomainItem.rank (some e.item) (b.versions key) :=
    (metaAt_collectMetas_eq_some (hbinv.unwritten key e he)).1
  have hversions : ∀ item ∈ b.versions key, item.WellFormed ∧ item.key = key := by
    intro item hitem
    obtain ⟨entry, hentry, rfl⟩ := List.mem_map.mp hitem
    obtain ⟨hentry, hkey⟩ := List.mem_filter.mp hentry
    exact ⟨hbinv.wellFormed entry hentry, of_decide_eq_true hkey⟩
  obtain ⟨hwf, rfl⟩ := hversions e.item (isGreatest_some.mp hgreatest).1
  have happly := writeMeta_keepGreatest (p := p) hwf fun s' hs' => (h.stored hs').2
  refine ⟨⟨?_, fun k => ?_, ?_⟩, fun k item hitem => ?_⟩
  · intro item hitem
    rcases List.mem_append.mp hitem with hitem | hitem
    · exact h.wellFormed item hitem
    · exact (hversions item hitem).1
  · change IsGreatest DomainItem.rank (writeMeta p s.metas e.item k)
      ((s.landed ++ b.versions e.item.key).filter fun item => item.key = k)
    rw [happly, List.filter_append]
    by_cases hk : e.item.key = k
    · subst hk
      have hall : (b.versions e.item.key).filter (fun item => item.key = e.item.key) =
          b.versions e.item.key :=
        List.filter_eq_self.mpr fun item hitem => decide_eq_true (hversions item hitem).2
      rw [if_pos rfl, hall]
      exact (h.greatest _).append hgreatest
    · have hnone : (b.versions e.item.key).filter (fun item => item.key = k) = [] :=
        List.filter_eq_nil_iff.mpr fun item hitem hkey =>
          hk ((hversions item hitem).2.symm.trans (of_decide_eq_true hkey))
      rw [if_neg hk, hnone, List.append_nil]
      exact h.greatest k
  · intro b' hb'
    rcases eq_or_mem_eraseIdx_of_mem_set hb' with rfl | hb'
    · cases again with
      | true => exact hbinv.mono fun item => List.mem_append_left _
      | false => exact hbinv.done
    · exact (h.batches b' (List.mem_of_mem_eraseIdx hb')).mono fun item => List.mem_append_left _
  · change ∃ item', writeMeta p s.metas e.item k = some item' ∧ _
    rw [happly]
    split
    · exact keepGreatest_neverOlder hitem
    · exact ⟨item, hitem, supersedes_iff.mpr le_rfl⟩

theorem neverOlder_of_metas_eq (h : s'.metas = s.metas) : NeverOlder s s' :=
  fun _ item hitem => ⟨item, h ▸ hitem, supersedes_iff.mpr le_rfl⟩

/-- **What every step keeps.** -/
theorem inv_step (a : Action) (h : Inv s) (hstep : step p s a = some s') :
    Inv s' ∧ NeverOlder s s' := by
  cases a with
  | resolve entries =>
    rw [step] at hstep
    split at hstep
    · rename_i hwf
      refine Option.some.inj hstep ▸ ⟨⟨h.wellFormed, h.greatest, fun b hb => ?_⟩,
        neverOlder_of_metas_eq rfl⟩
      rcases List.mem_append.mp hb with hb | hb
      · exact h.batches b hb
      · rw [List.mem_singleton.mp hb]
        exact batchInv_resolve hwf
    · exact absurd hstep (by simp)
  | write i key again =>
    obtain ⟨b, hb, hstep⟩ := Option.bind_eq_some_iff.mp hstep
    obtain ⟨e, he, hstep⟩ := Option.bind_eq_some_iff.mp hstep
    exact Option.some.inj hstep ▸ inv_write h hb he again
  | writeFails i key =>
    obtain ⟨b, hb, hstep⟩ := Option.bind_eq_some_iff.mp hstep
    obtain ⟨e, he, hstep⟩ := Option.bind_eq_some_iff.mp hstep
    refine Option.some.inj hstep ▸ ⟨⟨h.wellFormed, h.greatest, fun b' hb' => ?_⟩,
      neverOlder_of_metas_eq rfl⟩
    rcases eq_or_mem_eraseIdx_of_mem_set hb' with rfl | hb'
    · exact (h.batches b (List.mem_of_getElem? hb)).fail he
    · exact h.batches b' (List.mem_of_mem_eraseIdx hb')
  | crash i =>
    obtain ⟨b, hb, hstep⟩ := Option.bind_eq_some_iff.mp hstep
    refine Option.some.inj hstep ▸ ⟨⟨h.wellFormed, h.greatest, fun b' hb' => ?_⟩,
      neverOlder_of_metas_eq rfl⟩
    exact h.batches b' (List.mem_of_mem_eraseIdx hb')

theorem inv_start : Inv start :=
  ⟨fun _ h => absurd h List.not_mem_nil, fun _ => isGreatest_none.mpr rfl,
    fun _ h => absurd h List.not_mem_nil⟩

theorem inv_run {actions : List Action} (hrun : run (step p) start actions = some s) : Inv s :=
  invariant_of_run (fun _ a _ h hstep => (inv_step a h hstep).1) actions start s inv_start hrun

theorem converged_of_inv (h : Inv s) : Converged p s where
  none_landed key hkey := by
    have hgreatest := h.greatest key
    rw [hkey] at hgreatest
    exact isGreatest_none.mp hgreatest
  greatest key item hitem := by
    have hgreatest := h.greatest key
    rw [hitem] at hgreatest
    refine ⟨(h.stored hitem).1, fun other hother => ?_⟩
    have hle : other.rank ≤ item.rank := (isGreatest_some.mp hgreatest).2 other hother
    have hwf : other.WellFormed := h.wellFormed other (List.mem_of_mem_filter hother)
    exact ⟨supersedes_iff.mpr hle, (metaCondition_iff (h.stored hitem).2 hwf).mpr hle⟩
  written b hb hnil entry hentry := by
    refine ((h.batches b hb).written entry hentry).imp_right fun hor => hor.resolve_right ?_
    rw [hnil]
    simp [metaAt]

end

/-- **The domain item converges.**  `supersedes` and the table's condition are one order
of versions; every run keeps at each key the greatest version that landed there, no step
puts an older one, and two runs where the same versions landed at a key, equal where
their id, deleted flag and version are, hold the same item. -/
theorem register_converges {p : Platform} {actions : List Action} {s : State}
    (hrun : run (step p) start actions = some s) :
    OrdersItems p ∧ Converged p s ∧ (∀ a s', step p s a = some s' → NeverOlder s s') ∧
      ∀ actions' s', run (step p) start actions' = some s' → ∀ key,
        (∀ item, item ∈ s.versionsAt key ↔ item ∈ s'.versionsAt key) →
        Consistent (s.versionsAt key) → s.metas key = s'.metas key := by
  have hinv : Inv s := inv_run hrun
  refine ⟨ordersItems p, converged_of_inv hinv, fun a s' hstep => (inv_step a hinv hstep).2, ?_⟩
  intro actions' s' hrun' key hsame hconsistent
  refine (hinv.greatest key).unique ((inv_run hrun').greatest key) hsame fun a ha b hb hrank => ?_
  have hwf : ∀ item ∈ s.versionsAt key, item.WellFormed :=
    fun item hitem => hinv.wellFormed item (List.mem_of_mem_filter hitem)
  obtain ⟨hid, hdeleted, hversion⟩ := (rank_inj (hwf a ha) (hwf b hb)).mp hrank
  exact hconsistent a ha b hb hid hdeleted hversion

/-- A version of the domain `id` of snap.to. -/
def snapVersion (id : String) (version : Option String) (deleted : Bool) : DomainItem :=
  toDomainItem plainPlatform "snap.to" ⟨id, none, none⟩ version deleted

def snapKey : String × String := ("d#snap.to", "d#meta")

/-- Two workers write an edit, an older edit and the tombstone of the domain before. -/
def oneOrder : List Action :=
  [.resolve [(0, snapVersion "D2" (some "2025-01-02") false),
      (1, snapVersion "D2" (some "2025-01-01") false)],
    .resolve [(0, snapVersion "D1" none true)],
    .write 0 snapKey true, .write 1 snapKey false, .write 0 snapKey false]

/-- The same in another order and other batches. -/
def otherOrder : List Action :=
  [.resolve [(0, snapVersion "D1" none true), (1, snapVersion "D2" (some "2025-01-02") false)],
    .write 0 snapKey false,
    .resolve [(0, snapVersion "D2" (some "2025-01-01") false)],
    .write 1 snapKey false]

theorem register_converges_twoOrders :
    ∃ s s', run (step plainPlatform) start oneOrder = some s ∧
      run (step plainPlatform) start otherOrder = some s' ∧ s.metas snapKey = s'.metas snapKey := by
  have hrun : (run (step plainPlatform) start oneOrder).any (fun s => s.versionsAt snapKey =
      [snapVersion "D2" (some "2025-01-02") false, snapVersion "D2" (some "2025-01-01") false,
        snapVersion "D1" none true, snapVersion "D2" (some "2025-01-02") false,
        snapVersion "D2" (some "2025-01-01") false]) = true := by decide +kernel
  have hrun' : (run (step plainPlatform) start otherOrder).any (fun s => s.versionsAt snapKey =
      [snapVersion "D1" none true, snapVersion "D2" (some "2025-01-02") false,
        snapVersion "D2" (some "2025-01-01") false]) = true := by decide +kernel
  obtain ⟨s, hs, hlanded⟩ := (Option.any_eq_true _ _).mp hrun
  obtain ⟨s', hs', hlanded'⟩ := (Option.any_eq_true _ _).mp hrun'
  rw [decide_eq_true_eq] at hlanded hlanded'
  refine ⟨s, s', hs, hs', (register_converges hs).2.2.2 otherOrder s' hs' snapKey ?_ ?_⟩
  · intro item
    rw [hlanded, hlanded']
    simp only [List.mem_cons, List.not_mem_nil, or_false]
    tauto
  · rw [hlanded]
    unfold Consistent
    decide +kernel

/-- **The order is not strict**: a version supersedes itself, and may be written again.
Nor is it the table's on tombstones with a version, which no worker builds. -/
theorem supersedes_not_strict :
    (¬ ∀ a b : DomainItem, supersedes a b = true → supersedes b a = false) ∧
      ¬ ∀ a b : DomainItem, a.key = b.key →
        (supersedes a b = true ↔ metaCondition plainPlatform a (some b) = true) := by
  constructor
  · intro hall
    have hself : supersedes (snapVersion "D1" none true) (snapVersion "D1" none true) = true := by
      decide +kernel
    exact Bool.false_ne_true ((hall _ _ hself).symm.trans hself)
  · intro hall
    have hcond : metaCondition plainPlatform (snapVersion "D1" none true)
        (some (snapVersion "D1" (some "2025") true)) = true := by decide +kernel
    have hlost : supersedes (snapVersion "D1" none true) (snapVersion "D1" (some "2025") true) =
        false := by decide +kernel
    have hiff := hall (snapVersion "D1" none true) (snapVersion "D1" (some "2025") true) rfl
    exact Bool.false_ne_true (hlost.symm.trans (hiff.mpr hcond))

end SnapUrl.Projection.MetaRegister
