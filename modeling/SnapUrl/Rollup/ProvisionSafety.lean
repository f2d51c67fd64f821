import Mathlib.Tactic.Abel
import SnapUrl.Rollup.Provisioning

/-!
# Provisioning loses no click

* `Session.Kept`: what a transaction has changed fits the table, whatever others commit.
* `Inv`, `inv_step`: no click is lost or there twice, and the default partition has no row of a
  day that is attached.
* `answers_of_step`: **what a call returns is so**, a name and none.
-/

namespace SnapUrl.Rollup.Provisioning

open Lib
open Retention (Row)

/-! ### What a session holds -/

/-- Changes that a transaction may commit: it has the locks for them, the rows it moved are those
that the default partition has of the days it attached, and nobody else attached these. -/
structure Changes.Fits (t : Table) (c : Changes) : Prop where
  free : c.locked = false → c = .empty
  drained : c.drained = c.attached
  moved : c.moved.Perm (t.default.filter fun r => r.day ∈ c.attached)
  apart : ∀ d ∈ c.attached, d ∉ t.attached

/-- What a transaction has changed outside of the call it is in. -/
def Session.base (s : Session) : Changes :=
  match s.phase with
  | .checked | .advised | .locked | .drained => s.atCall
  | _ => s.own

/-- Inside the block: what it is undone to, and which tables may have the day's name. -/
structure Session.InBlock (t : Table) (s : Session) (d : Int) : Prop where
  saved : s.saved = s.atCall
  advisory : s.advisory = true
  named : ∀ l ∈ t.leftovers, l.day = d → l.sameColumns = true ∨ d ∈ s.cleared

/-- How far a call has come. -/
def Session.Shape (t : Table) (s : Session) : Prop :=
  match s.phase, s.days with
  | .opening, _ | .ended, _ | .failed, _ => s.own = .empty
  | .called, _ | .counted _, _ => True
  | _, [] => False
  | .checked, d :: _ => d ∉ s.atCall.attached ∧ s.own = s.atCall
  | .advised, d :: _ => d ∉ s.atCall.attached ∧ s.InBlock t d ∧ s.own = s.atCall
  | .locked, d :: _ =>
    d ∉ s.atCall.attached ∧ s.InBlock t d ∧ s.own = { s.atCall with locked := true }
  | .drained, d :: _ => d ∉ s.atCall.attached ∧ s.InBlock t d ∧
    s.own = { s.atCall with
      drained := d :: s.atCall.drained
      moved := s.atCall.moved ++ t.default.filter fun r => r.day = d
      locked := true }

structure Session.Kept (t : Table) (s : Session) : Prop where
  base : s.base.Fits t
  advisory : s.own.locked = true → s.advisory = true
  shape : s.Shape t

section

variable {t t' : Table} {advisoryFree lockable : Bool} {s s' : Session} {m : Move} {c : Changes}

theorem fits_empty (t : Table) : Changes.empty.Fits t where
  free _ := rfl
  drained := rfl
  moved := by simp [Changes.empty]
  apart := fun _ h => absurd h List.not_mem_nil

theorem kept_call (t : Table) (d : Int) : (Session.call d).Kept t :=
  ⟨fits_empty t, fun h => absurd h Bool.false_ne_true, trivial⟩

theorem kept_backfill (t u : Table) (n : Option Int) : (Session.backfill u n).Kept t :=
  ⟨fits_empty t, fun h => absurd h Bool.false_ne_true, rfl⟩

/-- The changes of a session are those of its base, once it is not in a call. -/
theorem Session.Kept.fits (h : s.Kept t)
    (hphase : s.phase = .called ∨ ∃ r, s.phase = .counted r) : s.own.Fits t := by
  have hbase := h.base
  rw [Session.base] at hbase
  rcases hphase with hphase | ⟨r, hphase⟩
  · rwa [hphase] at hbase
  · rwa [hphase] at hbase

end

/-! ### Statements keep it -/

/-- The part of a table's constraints that a session relies on. -/
def Table.LeftoversEmpty (t : Table) : Prop :=
  ∀ l ∈ t.leftovers, l.sameColumns = true → l.rows = []

section

variable {t t' : Table} {advisoryFree lockable : Bool} {s s' : Session} {m : Move} {c : Changes}
  {d : Int} {rest : List Int}

theorem filter_mem_cons_perm (rows : List Row) {days : List Int} (hd : d ∉ days) :
    (rows.filter (fun r => r.day ∈ days) ++ rows.filter fun r => r.day = d).Perm
      (rows.filter fun r => r.day ∈ d :: days) := by
  refine List.perm_append_comm.trans ?_
  have hsplit := List.filter_append_perm (fun r : Row => decide (r.day = d))
    (rows.filter fun r => r.day ∈ d :: days)
  rw [List.filter_filter, List.filter_filter] at hsplit
  have hday (r : Row) :
      (decide (r.day = d) && decide (r.day ∈ d :: days)) = decide (r.day = d) := by
    by_cases h : r.day = d <;> simp [h]
  have hothers (r : Row) : (!decide (r.day = d) && decide (r.day ∈ d :: days)) =
      decide (r.day ∈ days) := by
    by_cases h : r.day = d
    · simp [h, hd]
    · simp [h]
  rwa [List.filter_congr fun r _ => hday r, List.filter_congr fun r _ => hothers r] at hsplit

/-- A day is drained and attached. -/
theorem Changes.Fits.attach (h : c.Fits t) (hfresh : d ∉ c.attached) (hout : d ∉ t.attached) :
    Changes.Fits t ⟨d :: c.attached, d :: c.drained,
      c.moved ++ t.default.filter fun r => r.day = d, true⟩ where
  free hfree := by cases hfree
  drained := by rw [h.drained]
  moved := (h.moved.append_right _).trans (filter_mem_cons_perm t.default hfresh)
  apart e he := by
    rcases List.mem_cons.mp he with rfl | he
    · exact hout
    · exact h.apart e he

/-- A call that is in the block and is undone leaves what there was when it began. -/
theorem Session.Kept.saved_eq (h : s.Kept t)
    (hphase : s.phase = .advised ∨ s.phase = .locked ∨ s.phase = .drained)
    (hdays : s.days = d :: rest) : s.saved = s.atCall ∧ s.advisory = true ∧ s.base = s.atCall := by
  have hshape := h.shape
  rw [Session.Shape, hdays] at hshape
  rw [Session.base]
  rcases hphase with hphase | hphase | hphase
  all_goals
    rw [hphase] at hshape ⊢
    exact ⟨hshape.2.1.saved, hshape.2.1.advisory, rfl⟩

/-- What a session keeps between two calls. -/
theorem kept_of_called (hphase : s.phase = .called) (hown : s.own.Fits t)
    (hadvisory : s.own.locked = true → s.advisory = true) : s.Kept t := by
  refine ⟨?_, hadvisory, ?_⟩
  · rw [Session.base, hphase]
    exact hown
  · rw [Session.Shape, hphase]
    trivial

theorem kept_undone (h : s.Kept t)
    (hphase : s.phase = .advised ∨ s.phase = .locked ∨ s.phase = .drained)
    (hdays : s.days = d :: rest) (name : Bool) : (s.undone.returned d rest name).Kept t := by
  obtain ⟨hsaved, hadvisory, hbase⟩ := h.saved_eq hphase hdays
  refine kept_of_called rfl ?_ fun _ => hadvisory
  change s.saved.Fits t
  rw [hsaved, ← hbase]
  exact h.base

/-- Where nothing is under way, nothing is changed. -/
theorem kept_released (t : Table) {u : Session} (hown : u.own = .empty)
    (hphase : u.phase = .opening ∨ u.phase = .ended ∨ u.phase = .failed) : u.Kept t := by
  refine ⟨?_, fun hlocked => ?_, ?_⟩
  · rw [Session.base]
    rcases hphase with hphase | hphase | hphase
    all_goals
      rw [hphase]
      exact hown ▸ fits_empty t
  · rw [hown] at hlocked
    cases hlocked
  · rw [Session.Shape]
    rcases hphase with hphase | hphase | hphase
    all_goals
      rw [hphase]
      exact hown

/-- The rows of a leftover table that a call may attach: there are none. -/
theorem leftoverRows_eq_nil (hempty : t.LeftoversEmpty) {cleared : List Int}
    (hnamed : ∀ l ∈ t.leftovers, l.day = d → l.sameColumns = true ∨ d ∈ cleared) :
    t.leftoverRows cleared d = [] := by
  refine List.flatMap_eq_nil_iff.mpr fun l hl => ?_
  obtain ⟨hmem, hday⟩ := List.mem_filter.mp hl
  obtain ⟨hday, hcleared⟩ := of_decide_eq_true hday
  exact hempty l hmem ((hnamed l hmem hday).resolve_right hcleared)

/-- **What a statement leaves of a session fits the table that it leaves.** -/
theorem kept_moves (h : Moves t advisoryFree lockable s m t' s') (hs : s.Kept t)
    (hempty : t.LeftoversEmpty) : s'.Kept t' := by
  have hshape := hs.shape
  rw [Session.Shape] at hshape
  cases h with
  | opened loop hphase hloop =>
    rw [hphase] at hshape
    refine ⟨?_, hs.advisory, trivial⟩
    rw [Session.base, show s.own = .empty from hshape]
    exact fits_empty t
  | found d rest hphase hdays hin =>
    exact kept_of_called rfl (hs.fits (Or.inl hphase)) hs.advisory
  | missing d rest hphase hdays hout =>
    refine ⟨hs.fits (Or.inl hphase), hs.advisory, ?_⟩
    rw [Session.Shape, hdays]
    exact ⟨fun hin => hout (List.mem_append_left _ hin), rfl⟩
  | advised d rest hphase hdays hfree cleared hcleared =>
    rw [hphase, hdays] at hshape
    have hbase : s.atCall.Fits t := by simpa only [Session.base, hphase] using hs.base
    refine ⟨hbase, fun _ => rfl, ?_⟩
    rw [Session.Shape, hdays]
    exact ⟨hshape.1, ⟨hshape.2, rfl, hcleared⟩, hshape.2⟩
  | taken d rest hphase hdays =>
    rw [hphase, hdays] at hshape
    have hbase : s.atCall.Fits t := by simpa only [Session.base, hphase] using hs.base
    exact kept_of_called rfl (show s.own.Fits t from hshape.2 ▸ hbase) hs.advisory
  | locked hphase hfree =>
    have hbase : s.atCall.Fits t := by simpa only [Session.base, hphase] using hs.base
    cases hdays : s.days with
    | nil =>
      rw [hphase, hdays] at hshape
      exact hshape.elim
    | cons d rest =>
      rw [hphase, hdays] at hshape
      refine ⟨hbase, fun _ => hshape.2.1.advisory, ?_⟩
      rw [Session.Shape]
      exact ⟨hshape.1, ⟨hshape.2.1.saved, hshape.2.1.advisory, hshape.2.1.named⟩,
        by rw [hshape.2.2]⟩
  | declined d rest hphase hdays => exact kept_undone hs hphase hdays false
  | drained d rest hphase hdays =>
    have hbase : s.atCall.Fits t := by simpa only [Session.base, hphase] using hs.base
    rw [hphase, hdays] at hshape
    refine ⟨hbase, fun _ => hshape.2.1.advisory, ?_⟩
    rw [Session.Shape, hdays]
    refine ⟨hshape.1, ⟨hshape.2.1.saved, hshape.2.1.advisory, hshape.2.1.named⟩, ?_⟩
    have hseen : ((t.seenBy s.own).default.filter fun r => r.day = d) =
        t.default.filter fun r => r.day = d := by
      rw [Table.seenBy, List.filter_filter, hshape.2.2]
      refine List.filter_congr fun r _ => ?_
      by_cases hday : r.day = d
      · simp [hday, hbase.drained, hshape.1]
      · simp [hday]
    rw [hseen, hshape.2.2]
  | overtaken d rest hphase hdays hin =>
    exact kept_undone hs (Or.inr (Or.inr hphase)) hdays true
  | strayed d rest hphase hdays => exact kept_undone hs (Or.inr (Or.inr hphase)) hdays false
  | attached d rest hphase hdays hout hnone =>
    have hbase : s.atCall.Fits t := by simpa only [Session.base, hphase] using hs.base
    rw [hphase, hdays] at hshape
    obtain ⟨hfresh, hblock, hown⟩ := hshape
    have hown' : { s.own with
        attached := d :: s.own.attached
        moved := s.own.moved ++ t.leftoverRows s.cleared d } =
          Changes.mk (d :: s.atCall.attached) (d :: s.atCall.drained)
            (s.atCall.moved ++ t.default.filter fun r => r.day = d) true := by
      rw [leftoverRows_eq_nil hempty hblock.named, List.append_nil, hown]
    refine kept_of_called rfl ?_ fun _ => hblock.advisory
    refine (congrArg (Changes.Fits t) hown').mpr (hbase.attach hfresh fun hin => hout ?_)
    exact List.mem_append_right _ hin
  | counted hphase hdays hloop => exact ⟨hs.fits (Or.inl hphase), hs.advisory, trivial⟩
  | closed hphase hdays hloop => exact kept_released _ rfl (Or.inr (Or.inl rfl))
  | chunked loop remaining hphase hloop =>
    refine kept_released _ rfl ?_
    dsimp only
    split
    · exact Or.inr (Or.inl rfl)
    · exact Or.inl rfl
  | aborted hphase => exact kept_released _ rfl (Or.inr (Or.inr rfl))

/-- Whoever holds no locks has changed nothing. -/
theorem Session.Kept.base_eq_empty (h : s.Kept t) (hfree : s.own.locked = false) :
    s.base = .empty := by
  refine h.base.free ?_
  have hshape := h.shape
  rw [Session.Shape] at hshape
  rw [Session.base]
  split at hshape
  · next hphase => rw [hphase]; exact hfree
  · next hphase => rw [hphase]; exact hfree
  · next hphase => rw [hphase]; exact hfree
  · next hphase => rw [hphase]; exact hfree
  · next hphase => rw [hphase]; exact hfree
  · exact hshape.elim
  · next hphase hdays => rw [hphase]; exact hshape.2 ▸ hfree
  · next hphase hdays => rw [hphase]; exact hshape.2.2 ▸ hfree
  · next hphase hdays =>
    rw [hshape.2.2] at hfree
    cases hfree
  · next hphase hdays =>
    rw [hshape.2.2] at hfree
    cases hfree

/-- **What others commit does not touch a session**: where it holds the locks nothing that it has
seen changes. -/
theorem Session.Kept.transfer (h : s.Kept t)
    (hheld : s.own.locked = true → t'.attached = t.attached ∧ t'.default = t.default)
    (hleft : ∀ l ∈ t'.leftovers, l ∈ t.leftovers) (arrivals steps : Nat) :
    Session.Kept t' { s with arrivals := arrivals, steps := steps } := by
  have hblock (d : Int) (hin : s.InBlock t d) :
      Session.InBlock t' { s with arrivals := arrivals, steps := steps } d :=
    ⟨hin.saved, hin.advisory, fun l hl => hin.named l (hleft l hl)⟩
  have hshape := h.shape
  refine ⟨?_, h.advisory, ?_⟩
  · change s.base.Fits t'
    cases hlocked : s.own.locked with
    | false => exact h.base_eq_empty hlocked ▸ fits_empty t'
    | true =>
      obtain ⟨hattached, hdefault⟩ := hheld hlocked
      have hbase := h.base
      exact ⟨hbase.free, hbase.drained, hdefault ▸ hbase.moved, hattached ▸ hbase.apart⟩
  · rw [Session.Shape] at hshape ⊢
    dsimp only
    split at hshape
    · exact hshape
    · exact hshape
    · exact hshape
    · trivial
    · trivial
    · exact hshape.elim
    · exact hshape
    · exact ⟨hshape.1, hblock _ hshape.2.1, hshape.2.2⟩
    · exact ⟨hshape.1, hblock _ hshape.2.1, hshape.2.2⟩
    · have hlocked : s.own.locked = true := by rw [hshape.2.2]
      rw [(hheld hlocked).2]
      exact ⟨hshape.1, hblock _ hshape.2.1, hshape.2.2⟩

end

/-! ### Every reachable state -/

/-- What an insert has seen is so, and what it has written to the default partition belongs
there. -/
def Insert.Kept (t : Table) (ins : Insert) : Prop :=
  match ins.phase with
  | .waiting => True
  | .routed pinned => ∀ d ∈ pinned, d ∈ t.attached
  | .written pinned =>
    (∀ d ∈ pinned, d ∈ t.attached) ∧ ∀ r ∈ toDefault pinned ins.rows, r.day ∉ t.attached

/-- **The default partition has no row of an attached day, and no click is lost or there twice.** -/
structure Inv (w : World) : Prop where
  unattached : ∀ r ∈ w.table.default, r.day ∉ w.table.attached
  placed : ∀ r ∈ w.table.dated, r.day ∈ w.table.attached
  empty : w.table.LeftoversEmpty
  clicks : (w.table.default ++ w.table.dated ++ w.removed).Perm w.committed
  sessions : ∀ s ∈ w.sessions, s.Kept w.table
  /-- The advisory lock has one holder. -/
  alone : w.sessions.Pairwise fun s u => ¬ (s.advisory = true ∧ u.advisory = true)
  inserts : ∀ ins ∈ w.inserts, ins.Kept w.table
  /-- Where the default partition is locked, no insert has written to it. -/
  exclusive : ∀ s ∈ w.sessions, s.own.locked = true → ∀ ins ∈ w.inserts, ins.holdsDefault = false

section

variable {t t' : Table} {advisoryFree lockable : Bool} {s s' : Session} {m : Move} {c : Changes}
  {w w' : World} {i j : Nat} {d : Int} {rows : List Row} {pinned : List Int} {ins : Insert}

theorem inv_start (t : ClickTable) : Inv (.start t) where
  unattached := t.unattached
  placed := t.placed
  empty := t.empty
  clicks := by
    rw [World.start, List.append_nil]
  sessions := fun _ h => absurd h List.not_mem_nil
  alone := List.Pairwise.nil
  inserts := fun _ h => absurd h List.not_mem_nil
  exclusive := fun _ h => absurd h List.not_mem_nil

/-- An insert that has written nothing to the default partition takes the place of another. -/
theorem inv_setInsert (h : Inv w) (hkept : ins.Kept w.table)
    (hfree : (∃ s ∈ w.sessions, s.own.locked = true) → ins.holdsDefault = false) :
    Inv { w with inserts := w.inserts.set j ins } where
  unattached := h.unattached
  placed := h.placed
  empty := h.empty
  clicks := h.clicks
  sessions := h.sessions
  alone := h.alone
  inserts other hother := by
    rcases List.mem_or_eq_of_mem_set hother with hmem | rfl
    · exact h.inserts other hmem
    · exact hkept
  exclusive s hs hlocked other hother := by
    rcases List.mem_or_eq_of_mem_set hother with hmem | rfl
    · exact h.exclusive s hs hlocked other hmem
    · exact hfree ⟨s, hs, hlocked⟩

theorem inv_dropInsert (h : Inv w) (j : Nat) : Inv { w with inserts := w.inserts.eraseIdx j } where
  unattached := h.unattached
  placed := h.placed
  empty := h.empty
  clicks := h.clicks
  sessions := h.sessions
  alone := h.alone
  inserts other hother := h.inserts other (List.mem_of_mem_eraseIdx hother)
  exclusive s hs hlocked other hother :=
    h.exclusive s hs hlocked other (List.mem_of_mem_eraseIdx hother)

theorem inv_write (h : Inv w) (hpinned : ∀ d ∈ pinned, d ∈ w.table.attached)
    (hw : w.write j ins pinned = some w') : Inv w' := by
  rw [World.write] at hw
  split at hw
  · cases hw
  · next hunlocked =>
    split at hw
    · cases hw
      split
      · exact inv_dropInsert h j
      · exact inv_setInsert h trivial fun _ => rfl
    · next hnone =>
      cases hw
      have hout : ∀ r ∈ toDefault pinned ins.rows, r.day ∉ w.table.attached := fun r hr hin =>
        hnone (List.any_eq_true.mpr ⟨r, hr, decide_eq_true hin⟩)
      refine inv_setInsert h ⟨hpinned, hout⟩ fun ⟨s, hs, hlocked⟩ => ?_
      rw [Insert.holdsDefault, Bool.not_eq_false', List.isEmpty_iff]
      by_contra hne
      exact hunlocked ⟨hne, List.any_eq_true.mpr ⟨s, hs, hlocked⟩⟩

theorem toDefault_append_toDated (pinned : List Int) (rows : List Row) :
    (toDefault pinned rows ++ toDated pinned rows).Perm rows := by
  have hsplit := List.filter_append_perm (fun r : Row => decide (r.day ∈ pinned)) rows
  refine (List.perm_append_comm.trans ?_).trans hsplit
  rw [toDated, toDefault]
  exact List.Perm.of_eq (congrArg _ (List.filter_congr fun r _ => by simp))

/-- The rows of an insert are committed where they were written. -/
theorem inv_store (h : Inv w) (hj : w.inserts[j]? = some ins)
    (hphase : ins.phase = .written pinned) : Inv (w.store j ins pinned) := by
  have hmem := List.mem_of_getElem? hj
  have hkept := h.inserts ins hmem
  rw [Insert.Kept, hphase] at hkept
  have hlocked (s : Session) (hs : s ∈ w.sessions) (hlocked : s.own.locked = true) :
      toDefault pinned ins.rows = [] := by
    have hfree := h.exclusive s hs hlocked ins hmem
    rwa [Insert.holdsDefault, hphase, Bool.not_eq_false', List.isEmpty_iff] at hfree
  refine ⟨fun r hr => ?_, fun r hr => ?_, h.empty, ?_, fun u hu => ?_, ?_, fun other hother => ?_,
    fun u hu hheld other hother => ?_⟩
  · rcases List.mem_append.mp hr with hr | hr
    · exact h.unattached r hr
    · exact hkept.2 r hr
  · rcases List.mem_append.mp hr with hr | hr
    · exact h.placed r hr
    · exact hkept.1 r.day (of_decide_eq_true (List.mem_filter.mp hr).2)
  · have hnew := toDefault_append_toDated pinned ins.rows
    have hold := h.clicks
    rw [← Multiset.coe_eq_coe] at hnew hold ⊢
    simp only [World.store, ← Multiset.coe_add] at hnew hold ⊢
    rw [← hnew, ← hold]
    abel
  · obtain ⟨s, hs, rfl⟩ := List.mem_map.mp hu
    have hsame (hheld : s.own.locked = true) :
        (w.store j ins pinned).table.attached = w.table.attached ∧
          (w.store j ins pinned).table.default = w.table.default := by
      refine ⟨rfl, ?_⟩
      rw [World.store, hlocked s hs hheld, List.append_nil]
    exact (h.sessions s hs).transfer hsame (fun l hl => hl) _ s.steps
  · exact List.pairwise_map.mpr h.alone
  · have hother := h.inserts other (List.mem_of_mem_eraseIdx hother)
    exact hother
  · obtain ⟨s, hs, rfl⟩ := List.mem_map.mp hu
    exact h.exclusive s hs hheld other (List.mem_of_mem_eraseIdx hother)

/-- A drop has the table to itself. -/
theorem inv_drop (h : Inv w) (hinserts : ∀ ins ∈ w.inserts, ins.phase = .waiting)
    (hfree : ∀ s ∈ w.sessions, s.own.locked = false) (d : Int) : Inv (w.drop d) where
  unattached r hr hin := h.unattached r hr (List.mem_of_mem_filter hin)
  placed r hr := by
    obtain ⟨hmem, hne⟩ := List.mem_filter.mp hr
    exact List.mem_filter.mpr ⟨h.placed r hmem, hne⟩
  empty := h.empty
  clicks := by
    have hsplit := List.filter_append_perm (fun r : Row => decide (r.day = d)) w.table.dated
    have hold := h.clicks
    rw [← Multiset.coe_eq_coe] at hsplit hold ⊢
    simp only [World.drop, ← Multiset.coe_add, decide_not] at hsplit hold ⊢
    rw [← hold, ← hsplit]
    abel
  sessions s hs := by
    have hleft : ∀ l ∈ (w.drop d).table.leftovers, l ∈ w.table.leftovers := fun l hl => hl
    refine (h.sessions s hs).transfer (fun hlocked => ?_) hleft s.arrivals s.steps
    rw [hfree s hs] at hlocked
    cases hlocked
  alone := h.alone
  inserts ins hins := by
    rw [Insert.Kept, hinserts ins hins]
    trivial
  exclusive := h.exclusive

/-- A session joins. -/
theorem inv_join (h : Inv w) (hkept : s.Kept w.table) (hadvisory : s.advisory = false)
    (hfree : s.own.locked = false) : Inv { w with sessions := w.sessions ++ [s] } where
  unattached := h.unattached
  placed := h.placed
  empty := h.empty
  clicks := h.clicks
  sessions u hu := by
    rcases List.mem_append.mp hu with hu | hu
    · exact h.sessions u hu
    · exact List.mem_singleton.mp hu ▸ hkept
  alone := by
    refine List.pairwise_append.mpr ⟨h.alone, List.pairwise_singleton _ _, fun u _ v hv hboth => ?_⟩
    rw [List.mem_singleton.mp hv, hadvisory] at hboth
    exact Bool.false_ne_true hboth.2
  inserts := h.inserts
  exclusive u hu hlocked := by
    rcases List.mem_append.mp hu with hu | hu
    · exact h.exclusive u hu hlocked
    · rw [List.mem_singleton.mp hu, hfree] at hlocked
      cases hlocked

end

/-! ### A statement of a session -/

section

variable {t t' : Table} {advisoryFree lockable : Bool} {s s' u : Session} {m : Move} {c : Changes}
  {w w' : World} {i n : Nat} {d : Int} {cleared : List Int} {ins : Insert}

theorem advisory_of_moves (h : Moves t advisoryFree lockable s m t' s') (hs : s'.advisory = true) :
    s.advisory = true ∨ advisoryFree = true := by
  cases h with
  | advised d rest hphase hdays hfree => exact Or.inr hfree
  | closed => cases hs
  | chunked => cases hs
  | aborted => cases hs
  | opened => exact Or.inl hs
  | found => exact Or.inl hs
  | missing => exact Or.inl hs
  | taken => exact Or.inl hs
  | locked => exact Or.inl hs
  | declined => exact Or.inl hs
  | drained => exact Or.inl hs
  | overtaken => exact Or.inl hs
  | strayed => exact Or.inl hs
  | attached => exact Or.inl hs
  | counted => exact Or.inl hs

/-- Whatever a call is undone to has no lock that it does not have. -/
theorem locked_of_saved (h : s.Kept t)
    (hphase : s.phase = .advised ∨ s.phase = .locked ∨ s.phase = .drained) {rest : List Int}
    (hdays : s.days = d :: rest) (hlocked : s.saved.locked = true) : s.own.locked = true := by
  obtain ⟨hsaved, -, hbase⟩ := h.saved_eq hphase hdays
  by_contra hfree
  have hempty := h.base_eq_empty (Bool.eq_false_of_not_eq_true hfree)
  rw [hsaved, ← hbase, hempty] at hlocked
  cases hlocked

theorem locked_of_moves (h : Moves t advisoryFree lockable s m t' s') (hs : s.Kept t)
    (hlocked : s'.own.locked = true) : s.own.locked = true ∨ lockable = true := by
  cases h with
  | locked hphase hfree => exact Or.inr hfree
  | closed => cases hlocked
  | chunked => cases hlocked
  | aborted => cases hlocked
  | declined d rest hphase hdays => exact Or.inl (locked_of_saved hs hphase hdays hlocked)
  | overtaken d rest hphase hdays =>
    exact Or.inl (locked_of_saved hs (Or.inr (Or.inr hphase)) hdays hlocked)
  | strayed d rest hphase hdays =>
    exact Or.inl (locked_of_saved hs (Or.inr (Or.inr hphase)) hdays hlocked)
  | opened => exact Or.inl hlocked
  | found => exact Or.inl hlocked
  | missing => exact Or.inl hlocked
  | advised => exact Or.inl hlocked
  | taken => exact Or.inl hlocked
  | drained => exact Or.inl hlocked
  | attached => exact Or.inl hlocked
  | counted => exact Or.inl hlocked

/-- Only the end of a transaction changes what is committed. -/
theorem table_of_moves (h : Moves t advisoryFree lockable s m t' s') (hs : s.Kept t) :
    t' = t ∨ s.own.Fits t ∧ t' = t.commit s.own s.cleared := by
  cases h with
  | closed hphase => exact Or.inr ⟨hs.fits (Or.inl hphase), rfl⟩
  | chunked loop remaining hphase => exact Or.inr ⟨hs.fits (Or.inr ⟨_, hphase⟩), rfl⟩
  | opened => exact Or.inl rfl
  | found => exact Or.inl rfl
  | missing => exact Or.inl rfl
  | advised => exact Or.inl rfl
  | taken => exact Or.inl rfl
  | locked => exact Or.inl rfl
  | declined => exact Or.inl rfl
  | drained => exact Or.inl rfl
  | overtaken => exact Or.inl rfl
  | strayed => exact Or.inl rfl
  | attached => exact Or.inl rfl
  | counted => exact Or.inl rfl
  | aborted => exact Or.inl rfl

/-- A transaction without the locks commits no change of the two partitions. -/
theorem commit_of_free (h : c.Fits t) (hfree : c.locked = false) :
    (t.commit c cleared).attached = t.attached ∧ (t.commit c cleared).default = t.default := by
  rw [h.free hfree]
  exact ⟨rfl, List.filter_eq_self.mpr fun r _ => rfl⟩

theorem mem_leftovers_commit {l : Leftover} (h : l ∈ (t.commit c cleared).leftovers) :
    l ∈ t.leftovers :=
  List.mem_of_mem_filter h

/-- The rows that a transaction moved are those of the days it attached. -/
theorem commit_perm (h : c.Fits t) :
    ((t.commit c cleared).default ++ (t.commit c cleared).dated).Perm (t.default ++ t.dated) := by
  have hsplit := List.filter_append_perm (fun r : Row => decide (r.day ∈ c.attached)) t.default
  have hmoved := h.moved
  rw [← Multiset.coe_eq_coe] at hsplit hmoved ⊢
  simp only [Table.commit, Table.seenBy, ← Multiset.coe_add, h.drained, hmoved, decide_not]
    at hsplit ⊢
  rw [← hsplit]
  abel

theorem inv_moves (h : Inv w) (hi : w.sessions[i]? = some s)
    (hm : Moves w.table (w.advisoryFree i) (w.lockable i) s m t' s') (n : Nat) :
    Inv { w with
      table := t'
      sessions := w.sessions.set i { s' with steps := n } } := by
  have hs := h.sessions s (List.mem_of_getElem? hi)
  have hothers := pairwise_others (fun hxy hyx => hxy hyx.symm) h.alone hi
  have hkept := kept_moves hm hs h.empty
  have hleft : ∀ l ∈ t'.leftovers, l ∈ w.table.leftovers := by
    rcases table_of_moves hm hs with rfl | ⟨-, rfl⟩
    · exact fun l hl => hl
    · exact fun l hl => mem_leftovers_commit hl
  -- nobody who holds the locks beside a session sees it change the two partitions
  have hsame : s.own.locked = false →
      t'.attached = w.table.attached ∧ t'.default = w.table.default := by
    rcases table_of_moves hm hs with rfl | ⟨hfits, rfl⟩
    · exact fun _ => ⟨rfl, rfl⟩
    · exact commit_of_free hfits
  have hgrows : ∀ d ∈ w.table.attached, d ∈ t'.attached := by
    rcases table_of_moves hm hs with rfl | ⟨-, rfl⟩
    · exact fun d hd => hd
    · exact fun d hd => List.mem_append_right _ hd
  refine ⟨?_, ?_, fun l hl => h.empty l (hleft l hl), ?_, fun u hu => ?_, ?_, fun ins hins => ?_,
    fun u hu hlocked => ?_⟩
  · rcases table_of_moves hm hs with rfl | ⟨hfits, rfl⟩
    · exact h.unattached
    · intro r hr hin
      obtain ⟨hmem, hout⟩ := List.mem_filter.mp hr
      rcases List.mem_append.mp hin with hin | hin
      · exact of_decide_eq_true hout (hfits.drained ▸ hin)
      · exact h.unattached r hmem hin
  · rcases table_of_moves hm hs with rfl | ⟨hfits, rfl⟩
    · exact h.placed
    · intro r hr
      rcases List.mem_append.mp hr with hr | hr
      · exact List.mem_append_right _ (h.placed r hr)
      · have hday := (List.mem_filter.mp (hfits.moved.mem_iff.mp hr)).2
        exact List.mem_append_left _ (of_decide_eq_true hday)
  · rcases table_of_moves hm hs with rfl | ⟨hfits, rfl⟩
    · exact h.clicks
    · exact ((commit_perm hfits).append_right _).trans h.clicks
  · rcases eq_or_mem_eraseIdx_of_mem_set hu with rfl | hu
    · exact hkept.transfer (fun _ => ⟨rfl, rfl⟩) (fun l hl => hl) s'.arrivals n
    · refine (h.sessions u (List.mem_of_mem_eraseIdx hu)).transfer (fun hlocked => hsame ?_) hleft
        u.arrivals u.steps
      by_contra hheld
      refine hothers u hu ⟨hs.advisory (Bool.eq_true_of_not_eq_false hheld), ?_⟩
      exact (h.sessions u (List.mem_of_mem_eraseIdx hu)).advisory hlocked
  · refine pairwise_set (fun hxy hyx => hxy hyx.symm) h.alone fun u hu hboth => ?_
    rcases advisory_of_moves hm hboth.1 with hadvisory | hfree
    · exact hothers u hu ⟨hadvisory, hboth.2⟩
    · have hnone := List.all_eq_true.mp hfree u hu
      rw [hboth.2] at hnone
      cases hnone
  · have hins' := h.inserts ins hins
    rw [Insert.Kept] at hins' ⊢
    split at hins'
    · trivial
    · exact fun d hd => hgrows d (hins' d hd)
    · next pinned hphase =>
      refine ⟨fun d hd => hgrows d (hins'.1 d hd), fun r hr => ?_⟩
      cases hlocked : s.own.locked with
      | false =>
        rw [(hsame hlocked).1]
        exact hins'.2 r hr
      | true =>
        have hfree := h.exclusive s (List.mem_of_getElem? hi) hlocked ins hins
        rw [Insert.holdsDefault, hphase, Bool.not_eq_false', List.isEmpty_iff] at hfree
        rw [hfree] at hr
        exact absurd hr List.not_mem_nil
  · rcases eq_or_mem_eraseIdx_of_mem_set hu with rfl | hu
    · rcases locked_of_moves hm hs hlocked with hheld | hfree
      · exact h.exclusive s (List.mem_of_getElem? hi) hheld
      · intro ins hins
        have hnone := List.all_eq_true.mp (Bool.and_eq_true_iff.mp hfree).2 ins hins
        rwa [Bool.not_eq_true'] at hnone
    · exact h.exclusive u (List.mem_of_mem_eraseIdx hu) hlocked

/-- What an action comes to. -/
theorem moves_of_step (h : step w (.moves i m) = some w') :
    ∃ s t' s', w.sessions[i]? = some s ∧
      Moves w.table (w.advisoryFree i) (w.lockable i) s m t' s' ∧
      w' = { w with
        table := t'
        sessions := w.sessions.set i { s' with steps := s'.steps + 1 } } := by
  obtain ⟨s, hi, h⟩ := Option.bind_eq_some_iff.mp h
  obtain ⟨⟨t', s'⟩, hact, rfl⟩ := Option.map_eq_some_iff.mp h
  exact ⟨s, t', s', hi, moves_of_act hact, rfl⟩

/-- **No click is lost or there twice, whatever comes next.** -/
theorem inv_step (w : World) (a : Action) (w' : World) (h : Inv w) (hstep : step w a = some w') :
    Inv w' := by
  cases a with
  | inserts rows =>
    rw [step] at hstep
    split at hstep
    · cases hstep
    · cases hstep
      refine ⟨h.unattached, h.placed, h.empty, h.clicks, h.sessions, h.alone, fun ins hins => ?_,
        fun s hs hlocked ins hins => ?_⟩
      · rcases List.mem_append.mp hins with hins | hins
        · exact h.inserts ins hins
        · obtain rfl := List.mem_singleton.mp hins
          exact trivial
      · rcases List.mem_append.mp hins with hins | hins
        · exact h.exclusive s hs hlocked ins hins
        · exact List.mem_singleton.mp hins ▸ rfl
  | pins j =>
    rw [step] at hstep
    split at hstep
    · cases hstep
      exact inv_setInsert h (fun d hd => hd) fun _ => rfl
    · cases hstep
  | writes j =>
    rw [step] at hstep
    split at hstep
    · next rows pinned retried hj =>
      exact inv_write h (h.inserts _ (List.mem_of_getElem? hj)) hstep
    · cases hstep
  | stores j =>
    rw [step] at hstep
    split at hstep
    · next rows pinned retried hj =>
      cases hstep
      exact inv_store h hj rfl
    · cases hstep
  | fails j =>
    cases hstep
    exact inv_dropInsert h j
  | drops d =>
    rw [step] at hstep
    split at hstep
    · next hfree =>
      cases hstep
      exact inv_drop h hfree.1 hfree.2.1 d
    · cases hstep
  | calls d =>
    cases hstep
    exact inv_join h (kept_call _ d) rfl rfl
  | backfills chunkSize =>
    cases hstep
    exact inv_join h (kept_backfill _ _ chunkSize) rfl rfl
  | moves i m =>
    obtain ⟨s, t', s', hi, hm, rfl⟩ := moves_of_step hstep
    exact inv_moves h hi hm _

end

/-! ### What a call returns -/

/-- What the calls that return in a step return. -/
structure Answers (w w' : World) : Prop where
  /-- Where it is a name, the day is attached and the default partition has no row of it. -/
  name : ∀ (i : Nat) (s s' : Session) (d : Int), w.sessions[i]? = some s →
    w'.sessions[i]? = some s' → s'.returns = s.returns ++ [(d, true)] →
      d ∈ (w'.table.seenBy s'.own).attached ∧
        ∀ r ∈ (w'.table.seenBy s'.own).default, r.day ≠ d
  /-- Where it is none, the transaction has changed what it had when the call began. -/
  none : ∀ (i : Nat) (s s' : Session) (d : Int), w.sessions[i]? = some s →
    w'.sessions[i]? = some s' → s'.returns = s.returns ++ [(d, false)] →
      w'.table = w.table ∧ s'.own = s.atCall
  /-- What a transaction attached is attached when it ends. -/
  lasting : ∀ (i : Nat) (s : Session) (d : Int), w.sessions[i]? = some s →
    step w (.moves i .commits) = some w' → d ∈ s.own.attached →
      d ∈ w'.table.attached ∧ ∀ r ∈ w'.table.default, r.day ≠ d

section

variable {t t' : Table} {advisoryFree lockable : Bool} {s s' u : Session} {m : Move}
  {w w' : World} {a : Action} {i : Nat} {d : Int}

theorem append_ne (returns : List (Int × Bool)) (x : Int × Bool) : returns ≠ returns ++ [x] := by
  intro h
  have hlength := congrArg List.length h
  rw [List.length_append, List.length_singleton] at hlength
  exact absurd hlength (by omega)

/-- The call that returned. -/
theorem returned_inj {name name' : Bool} {e : Int}
    (h : s.returns ++ [(e, name')] = s.returns ++ [(d, name)]) : e = d ∧ name' = name :=
  Prod.mk.inj (List.singleton_injective (List.append_cancel_left h))

/-- **A call that returns a name has its day attached and drained.** -/
theorem name_of_moves (h : Moves t advisoryFree lockable s m t' s') (hs : s.Kept t)
    (hout : ∀ r ∈ t.default, r.day ∉ t.attached)
    (hreturn : s'.returns = s.returns ++ [(d, true)]) :
    t' = t ∧ d ∈ (t.seenBy s'.own).attached ∧ ∀ r ∈ (t.seenBy s'.own).default, r.day ≠ d := by
  have hcommitted (c : Changes) (hin : d ∈ t.attached) :
      d ∈ (t.seenBy c).attached ∧ ∀ r ∈ (t.seenBy c).default, r.day ≠ d :=
    ⟨List.mem_append_right _ hin,
      fun r hr hday => hout r (List.mem_of_mem_filter hr) (hday ▸ hin)⟩
  cases h with
  | found e rest hphase hdays hin =>
    obtain ⟨rfl, -⟩ := returned_inj hreturn
    refine ⟨rfl, ?_⟩
    rcases List.mem_append.mp hin with hown | hin
    · refine ⟨hin, fun r hr hday => ?_⟩
      refine of_decide_eq_true (List.mem_filter.mp hr).2 ?_
      rw [show (s.returned e rest true).own = s.own from rfl,
        (hs.fits (Or.inl hphase)).drained, hday]
      exact hown
    · exact hcommitted _ hin
  | overtaken e rest hphase hdays hin =>
    obtain ⟨rfl, -⟩ := returned_inj hreturn
    have hshape := hs.shape
    rw [Session.Shape, hphase, hdays] at hshape
    rcases List.mem_append.mp hin with hown | hin
    · rw [hshape.2.2] at hown
      exact absurd hown hshape.1
    · exact ⟨rfl, hcommitted _ hin⟩
  | attached e rest hphase hdays =>
    obtain ⟨rfl, -⟩ := returned_inj hreturn
    have hshape := hs.shape
    rw [Session.Shape, hphase, hdays] at hshape
    refine ⟨rfl, List.mem_append_left _ List.mem_cons_self, fun r hr hday => ?_⟩
    refine of_decide_eq_true (List.mem_filter.mp hr).2 ?_
    change r.day ∈ s.own.drained
    rw [hshape.2.2, hday]
    exact List.mem_cons_self
  | taken => cases (returned_inj hreturn).2
  | declined => cases (returned_inj hreturn).2
  | strayed => cases (returned_inj hreturn).2
  | closed => exact absurd hreturn (by simp [Session.released])
  | chunked => exact absurd hreturn (by simp [Session.released])
  | aborted => exact absurd hreturn (by simp [Session.released])
  | opened => exact absurd hreturn (append_ne _ _)
  | missing => exact absurd hreturn (append_ne _ _)
  | advised => exact absurd hreturn (append_ne _ _)
  | locked => exact absurd hreturn (append_ne _ _)
  | drained => exact absurd hreturn (append_ne _ _)
  | counted => exact absurd hreturn (append_ne _ _)

/-- **A call that returns none has changed nothing.** -/
theorem none_of_moves (h : Moves t advisoryFree lockable s m t' s') (hs : s.Kept t)
    (hreturn : s'.returns = s.returns ++ [(d, false)]) : t' = t ∧ s'.own = s.atCall := by
  cases h with
  | taken e rest hphase hdays =>
    have hshape := hs.shape
    rw [Session.Shape, hphase, hdays] at hshape
    exact ⟨rfl, hshape.2⟩
  | declined e rest hphase hdays => exact ⟨rfl, (hs.saved_eq hphase hdays).1⟩
  | strayed e rest hphase hdays =>
    exact ⟨rfl, (hs.saved_eq (Or.inr (Or.inr hphase)) hdays).1⟩
  | found => cases (returned_inj hreturn).2
  | overtaken => cases (returned_inj hreturn).2
  | attached => cases (returned_inj hreturn).2
  | closed => exact absurd hreturn (by simp [Session.released])
  | chunked => exact absurd hreturn (by simp [Session.released])
  | aborted => exact absurd hreturn (by simp [Session.released])
  | opened => exact absurd hreturn (append_ne _ _)
  | missing => exact absurd hreturn (append_ne _ _)
  | advised => exact absurd hreturn (append_ne _ _)
  | locked => exact absurd hreturn (append_ne _ _)
  | drained => exact absurd hreturn (append_ne _ _)
  | counted => exact absurd hreturn (append_ne _ _)

/-- A step makes a statement of one session, and leaves what the others have returned. -/
theorem moves_or_returns (hstep : step w a = some w') (hi : w.sessions[i]? = some s)
    (hi' : w'.sessions[i]? = some s') :
    s'.returns = s.returns ∨ ∃ m u t', a = .moves i m ∧
      Moves w.table (w.advisoryFree i) (w.lockable i) s m t' u ∧ w'.table = t' ∧
        s' = { u with steps := u.steps + 1 } := by
  have hsame (h : w'.sessions = w.sessions) : s'.returns = s.returns := by
    rw [h, hi] at hi'
    rw [Option.some.inj hi']
  have hjoin (u : Session) (h : w'.sessions = w.sessions ++ [u]) : s'.returns = s.returns := by
    obtain ⟨hlt, -⟩ := List.getElem?_eq_some_iff.mp hi
    rw [h, List.getElem?_append_left hlt, hi] at hi'
    rw [Option.some.inj hi']
  cases a with
  | inserts rows =>
    rw [step] at hstep
    split at hstep
    · cases hstep
    · cases hstep
      exact Or.inl (hsame rfl)
  | pins j =>
    rw [step] at hstep
    split at hstep
    · cases hstep
      exact Or.inl (hsame rfl)
    · cases hstep
  | writes j =>
    rw [step] at hstep
    split at hstep
    · rw [World.write] at hstep
      split at hstep
      · cases hstep
      · split at hstep
        all_goals
          cases hstep
          exact Or.inl (hsame rfl)
    · cases hstep
  | stores j =>
    rw [step] at hstep
    split at hstep
    · cases hstep
      rw [World.store, List.getElem?_map, hi] at hi'
      cases hi'
      exact Or.inl rfl
    · cases hstep
  | fails j =>
    cases hstep
    exact Or.inl (hsame rfl)
  | drops d =>
    rw [step] at hstep
    split at hstep
    · cases hstep
      exact Or.inl (hsame rfl)
    · cases hstep
  | calls d =>
    cases hstep
    exact Or.inl (hjoin _ rfl)
  | backfills chunkSize =>
    cases hstep
    exact Or.inl (hjoin _ rfl)
  | moves k m =>
    obtain ⟨v, t', u, hk, hm, rfl⟩ := moves_of_step hstep
    by_cases heq : k = i
    · subst heq
      obtain rfl := Option.some.inj (hk.symm.trans hi)
      obtain ⟨hlt, -⟩ := List.getElem?_eq_some_iff.mp hi
      rw [List.getElem?_set_self hlt] at hi'
      exact Or.inr ⟨m, u, t', rfl, hm, rfl, (Option.some.inj hi').symm⟩
    · rw [List.getElem?_set_ne heq, hi] at hi'
      exact Or.inl (by rw [Option.some.inj hi'])

/-- **What a call returns is so.** -/
theorem answers_of_step (h : Inv w) (hstep : step w a = some w') : Answers w w' where
  name i s s' d hi hi' hreturn := by
    rcases moves_or_returns hstep hi hi' with hsame | ⟨m, u, t', -, hm, rfl, rfl⟩
    · exact absurd (hsame.symm.trans hreturn) (append_ne _ _)
    · have hs := h.sessions s (List.mem_of_getElem? hi)
      obtain ⟨heq, hname⟩ := name_of_moves hm hs h.unattached hreturn
      rw [heq]
      exact hname
  none i s s' d hi hi' hreturn := by
    rcases moves_or_returns hstep hi hi' with hsame | ⟨m, u, t', -, hm, rfl, rfl⟩
    · exact absurd (hsame.symm.trans hreturn) (append_ne _ _)
    · have hnone := none_of_moves hm (h.sessions s (List.mem_of_getElem? hi)) hreturn
      exact hnone
  lasting i s d hi hcommit hd := by
    have h' := inv_step w _ w' h hcommit
    obtain ⟨u, t', s', hu, hm, rfl⟩ := moves_of_step hcommit
    obtain rfl := Option.some.inj (hu.symm.trans hi)
    have hin : d ∈ t'.attached := by
      cases hm with
      | closed => exact List.mem_append_left _ hd
      | chunked => exact List.mem_append_left _ hd
    exact ⟨hin, fun r hr hday => h'.unattached r hr (hday ▸ hin)⟩

end

end SnapUrl.Rollup.Provisioning
