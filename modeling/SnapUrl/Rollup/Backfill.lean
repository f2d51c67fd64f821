import Mathlib.Data.Finset.Card
import SnapUrl.Rollup.ProvisionSafety

/-!
# Backfilling beside contended days

A chunk selects the oldest stranded days, and `backfillClickPartitions` stops when a chunk
attached none of its days.

* `Session.Orderly`, `Session.Runs`: the order of a chunk's calls, and how far a loop has come.
  Each chunk but the last takes a day out of the default partition, and what was tried and is
  stranded still is among the oldest days.
* `provisioning_iff`: **every run provisions as it should exactly when no chunk that is held off
  leaves a stranded day behind its own.**
* `held_off`: one contended day, and a day behind it that is never tried.
-/

namespace SnapUrl.Rollup.Provisioning

open Lib
open Retention (Row)

/-! ### What is claimed of a run -/

/-- What holds of every state that is reached. -/
structure Provisions (w : World) : Prop where
  /-- **No click is lost or there twice.** -/
  clicks : (w.table.default ++ w.table.dated ++ w.removed).Perm w.committed
  /-- **What a call returns is so.** -/
  answers : ∀ a w', step w a = some w' → Answers w w'
  /-- **A backfill ends**: its statements are bounded by what was stranded and what has come. -/
  ends : ∀ s ∈ w.sessions, ∀ loop, s.loop = some loop →
    s.steps ≤ (s.start + s.arrivals + 1) * (5 * chunkLimit loop.chunkSize + 3)
  /-- And it can go on until it has. -/
  goesOn : ∀ i s, w.sessions[i]? = some s → s.phase ≠ .ended → s.phase ≠ .failed →
    ∃ m, m ≠ .aborts ∧ (step w (.moves i m)).isSome = true
  /-- **What a backfill leaves in the default partition it has tried**, when nothing came. -/
  attempted : ∀ s ∈ w.sessions, s.loop.isSome = true → s.phase = .ended → s.arrivals = 0 →
    ∀ d ∈ w.table.stranded, (d, false) ∈ s.tried

/-- A chunk whose calls have all been declined. -/
structure Session.HeldOff (s : Session) : Prop where
  counted : ∃ remaining, s.phase = .counted remaining
  loop : s.loop.isSome = true
  quiet : s.arrivals = 0
  declined : ∀ x ∈ s.returns, x.2 = false

/-- A chunk that is held off has selected all the days that are stranded. -/
def Reaches (w : World) : Action → Prop
  | .moves i .commits => ∀ s, w.sessions[i]? = some s → s.HeldOff →
    ∀ d ∈ w.table.stranded, d ∈ s.chunk
  | _ => True

/-! ### The days of a chunk -/

section

variable {t t' : Table} {c : Changes} {d : Int} {n : Option Int}

theorem mem_stranded : d ∈ t.stranded ↔ (∃ r ∈ t.default, r.day = d) ∧ d ∉ t.attached := by
  rw [Table.stranded, Table.strandedDays, List.mem_toFinset, List.mem_insertionSort,
    List.mem_dedup, List.mem_filter, List.mem_map, decide_eq_true_iff]

theorem nodup_strandedDays (t : Table) : t.strandedDays.Nodup :=
  (List.perm_insertionSort _ _).nodup_iff.mpr (List.nodup_dedup _)

/-- A transaction sees the days stranded that it has not attached. -/
theorem mem_stranded_seenBy (h : c.drained = c.attached) :
    d ∈ (t.seenBy c).stranded ↔ d ∈ t.stranded ∧ d ∉ c.attached := by
  rw [mem_stranded, mem_stranded]
  constructor
  · rintro ⟨⟨r, hr, hday⟩, hout⟩
    obtain ⟨hown, hcommitted⟩ := not_or.mp fun hor => hout (List.mem_append.mpr hor)
    exact ⟨⟨⟨r, List.mem_of_mem_filter hr, hday⟩, hcommitted⟩, hown⟩
  · rintro ⟨⟨⟨r, hr, hday⟩, hcommitted⟩, hown⟩
    refine ⟨⟨r, List.mem_filter.mpr ⟨hr, decide_eq_true ?_⟩, hday⟩, fun hin => ?_⟩
    · rw [h, hday]
      exact hown
    · exact (List.mem_append.mp hin).elim hown hcommitted

/-- How many stranded days are older than a day. -/
def Table.rank (t : Table) (d : Int) : Nat := (t.stranded.filter (· < d)).card

theorem rank_mono (h : t'.stranded ⊆ t.stranded) (d : Int) : t'.rank d ≤ t.rank d :=
  Finset.card_le_card (Finset.filter_subset_filter _ h)

/-- The first entries of an increasing list are those that few entries are before. -/
theorem mem_take_iff {l : List Int} (h : l.Pairwise (· < ·)) (k : Nat) :
    d ∈ l.take k ↔ d ∈ l ∧ l.countP (· < d) < k := by
  induction l generalizing k with
  | nil => simp
  | cons a l ih =>
    obtain ⟨hlt, hrest⟩ := List.pairwise_cons.mp h
    cases k with
    | zero => simp
    | succ k =>
      rw [List.take_succ_cons, List.mem_cons, List.mem_cons, ih hrest]
      by_cases hday : d = a
      · subst hday
        have hnone : (d :: l).countP (· < d) = 0 := by
          refine List.countP_eq_zero.mpr fun b hb hbd => ?_
          have hbd := of_decide_eq_true hbd
          rcases List.mem_cons.mp hb with rfl | hb
          · exact lt_irrefl _ hbd
          · exact lt_asymm hbd (hlt b hb)
        rw [hnone]
        simp
      · simp only [hday, false_or]
        refine and_congr_right fun hmem => ?_
        have hfirst : decide (a < d) = true := decide_eq_true (hlt d hmem)
        rw [List.countP_cons_of_pos (p := fun x => decide (x < d)) hfirst,
          Nat.add_lt_add_iff_right]

theorem mem_candidates :
    d ∈ t.candidates n ↔ d ∈ t.stranded ∧ t.rank d < chunkLimit n := by
  have hsorted : t.strandedDays.Pairwise (· < ·) :=
    (nodup_strandedDays t).imp₂ (fun a b hne hle => lt_of_le_of_ne hle hne)
      (List.pairwise_insertionSort (· ≤ ·) _)
  have hrank : t.strandedDays.countP (· < d) = t.rank d := by
    have hfilter : t.stranded.filter (· < d) = (t.strandedDays.filter (· < d)).toFinset := by
      rw [List.toFinset_filter]
      simp only [Table.stranded, decide_eq_true_eq]
    rw [Table.rank, hfilter, List.toFinset_card_of_nodup ((nodup_strandedDays t).filter _),
      List.countP_eq_length_filter]
  rw [Table.candidates, mem_take_iff hsorted, hrank, Table.stranded, List.mem_toFinset]

theorem nodup_candidates (t : Table) (n : Option Int) : (t.candidates n).Nodup :=
  (nodup_strandedDays t).sublist (List.take_sublist _ _)

theorem length_candidates_le (t : Table) (n : Option Int) :
    (t.candidates n).length ≤ chunkLimit n :=
  (List.length_take_le _ _)

end

/-! ### The calls of a chunk -/

/-- The calls of a transaction go through its days one after another. -/
structure Turns (loop : Option Loop) (phase : Phase) (chunk days : List Int)
    (returns : List (Int × Bool)) : Prop where
  turns : returns.map Prod.fst ++ days = chunk
  nodup : chunk.Nodup
  limit : ∀ l, loop = some l → chunk.length ≤ chunkLimit l.chunkSize
  opening : phase = .opening → chunk = [] ∧ loop.isSome = true
  counted : ∀ remaining, phase = .counted remaining → days = [] ∧ loop.isSome = true
  ended : phase = .ended → chunk = []

def Session.Orderly (s : Session) : Prop := Turns s.loop s.phase s.chunk s.days s.returns

section

variable {t t' : Table} {advisoryFree lockable : Bool} {s s' : Session} {m : Move} {d : Int}
  {rest : List Int}

theorem Session.Orderly.returns_eq_nil (h : s.Orderly) (hchunk : s.chunk = []) :
    s.returns = [] ∧ s.days = [] := by
  have hturns := h.turns
  rw [hchunk, List.append_eq_nil_iff, List.map_eq_nil_iff] at hturns
  exact hturns

/-- A call that returns takes its day off the list. -/
theorem turns_returned (h : s.Orderly) (hdays : s.days = d :: rest) (name : Bool) :
    Turns s.loop .called s.chunk rest (s.returns ++ [(d, name)]) where
  turns := by
    rw [← h.turns, hdays, List.map_append, List.append_assoc]
    rfl
  nodup := h.nodup
  limit := h.limit
  opening hphase := by cases hphase
  counted r hphase := by cases hphase
  ended hphase := by cases hphase

/-- Nothing is left of a transaction that is over. -/
theorem turns_released {loop : Option Loop} {phase : Phase} (hloop : phase = .opening → loop.isSome)
    (hphase : ∀ r, phase ≠ .counted r) : Turns loop phase [] [] [] where
  turns := rfl
  nodup := List.nodup_nil
  limit _ _ := Nat.zero_le _
  opening h := ⟨rfl, hloop h⟩
  counted r h := absurd h (hphase r)
  ended _ := rfl

theorem Session.Orderly.inCall (h : s.Orderly) {phase : Phase} (hphase : phase = .checked ∨
    phase = .advised ∨ phase = .locked ∨ phase = .drained) :
    Turns s.loop phase s.chunk s.days s.returns where
  turns := h.turns
  nodup := h.nodup
  limit := h.limit
  opening hopening := by simp [hopening] at hphase
  counted r hcounted := by simp [hcounted] at hphase
  ended hended := by simp [hended] at hphase

theorem orderly_moves (h : Moves t advisoryFree lockable s m t' s') (hs : s.Orderly) :
    s'.Orderly := by
  cases h with
  | opened loop hphase hloop =>
    obtain ⟨hreturns, -⟩ := hs.returns_eq_nil (hs.opening hphase).1
    refine ⟨?_, nodup_candidates _ _, fun l hl => ?_, fun h => ?_, fun r h => ?_, fun h => ?_⟩
    · dsimp only
      rw [hreturns]
      rfl
    · obtain rfl := Option.some.inj (hloop.symm.trans hl)
      exact length_candidates_le _ _
    · cases h
    · cases h
    · cases h
  | found d rest hphase hdays => exact turns_returned hs hdays true
  | missing d rest hphase hdays => exact hs.inCall (Or.inl rfl)
  | advised d rest hphase hdays => exact hs.inCall (Or.inr (Or.inl rfl))
  | taken d rest hphase hdays => exact turns_returned hs hdays false
  | locked hphase => exact hs.inCall (Or.inr (Or.inr (Or.inl rfl)))
  | declined d rest hphase hdays => exact turns_returned hs hdays false
  | drained d rest hphase hdays => exact hs.inCall (Or.inr (Or.inr (Or.inr rfl)))
  | overtaken d rest hphase hdays => exact turns_returned hs hdays true
  | strayed d rest hphase hdays => exact turns_returned hs hdays false
  | attached d rest hphase hdays => exact turns_returned hs hdays true
  | counted hphase hdays hloop =>
    refine ⟨hs.turns, hs.nodup, hs.limit, fun h => ?_, fun r _ => ⟨hdays, hloop⟩, fun h => ?_⟩
    · cases h
    · cases h
  | closed hphase hdays hloop =>
    exact turns_released (fun h => by cases h) fun r h => by cases h
  | chunked loop remaining hphase hloop =>
    refine turns_released (fun _ => rfl) fun r h => ?_
    dsimp only at h
    split at h <;> cases h
  | aborted hphase => exact turns_released (fun h => by cases h) fun r h => by cases h

end

/-! ### The chunks of a loop -/

/-- The days a loop may still take out of the default partition in this transaction. -/
def Session.ahead (t : Table) (s : Session) : Finset Int :=
  t.stranded.filter (· ∉ s.base.attached) ∪ s.days.toFinset

/-- Whether a call of this transaction has returned a name. -/
def Session.credit (s : Session) : Nat := if s.returns.any (·.2) then 1 else 0

/-- The statements of this transaction, where it may have `n` days. -/
def Session.progress (n : Nat) (s : Session) : Nat :=
  match s.phase with
  | .opening | .ended => 0
  | .called => 5 * s.returns.length + 1
  | .checked | .counted _ => 5 * s.returns.length + 2
  | .advised => 5 * s.returns.length + 3
  | .locked => 5 * s.returns.length + 4
  | .drained => 5 * s.returns.length + 5
  | .failed => 5 * n + 3

/-- A day that an earlier chunk has tried is among the days of this one, or will be. -/
def Session.Recurs (t : Table) (n : Nat) (s : Session) (d : Int) : Prop :=
  match s.phase with
  | .opening => t.rank d < n
  | .ended | .failed => True
  | _ => d ∈ s.chunk

/-- How far a loop has come: every chunk but the last takes a day out of the default partition. -/
structure Session.Runs (t : Table) (s : Session) (loop : Loop) : Prop where
  live : s.phase ≠ .ended → s.phase ≠ .failed →
    (s.ahead t).card + loop.chunks + s.credit ≤ s.start + s.arrivals
  chunks : loop.chunks + (if s.phase = .ended then 0 else 1) ≤ s.start + s.arrivals + 1
  steps : s.steps ≤ loop.chunks * (5 * chunkLimit loop.chunkSize + 3) +
    s.progress (chunkLimit loop.chunkSize)
  own : ∀ d ∈ s.base.attached, (d, true) ∈ s.returns
  earlier : s.arrivals = 0 → ∀ x ∈ s.tried, x.1 ∈ t.stranded →
    s.Recurs t (chunkLimit loop.chunkSize) x.1
  chunk : s.arrivals = 0 → ∀ d ∈ s.chunk, d ∈ t.stranded → t.rank d < chunkLimit loop.chunkSize
  remaining : s.arrivals = 0 → ∀ r, s.phase = .counted r →
    (t.stranded.filter (· ∉ s.own.attached)).card ≤ r

/-- A statement inside a call. -/
structure Session.Advances (s s' : Session) : Prop where
  same : s'.days = s.days ∧ s'.returns = s.returns ∧ s'.chunk = s.chunk ∧ s'.tried = s.tried ∧
    s'.start = s.start ∧ s'.arrivals = s.arrivals ∧ s'.steps = s.steps + 1
  base : s'.base.attached = s.base.attached
  before : s.phase = .called ∨ s.phase = .checked ∨ s.phase = .advised ∨ s.phase = .locked
  after : s'.phase = .checked ∨ s'.phase = .advised ∨ s'.phase = .locked ∨ s'.phase = .drained
  progress : ∀ n, s'.progress n = s.progress n + 1

/-- The end of a call. -/
structure Session.Returns (t : Table) (s s' : Session) (d : Int) (rest : List Int) (name : Bool) :
    Prop where
  same : s'.chunk = s.chunk ∧ s'.tried = s.tried ∧ s'.start = s.start ∧
    s'.arrivals = s.arrivals ∧ s'.steps = s.steps + 1
  days : s.days = d :: rest ∧ s'.days = rest
  returns : s'.returns = s.returns ++ [(d, name)]
  grows : ∀ e ∈ s.base.attached, e ∈ s'.base.attached
  base : ∀ e ∈ s'.base.attached, e ∈ s.base.attached ∨ e = d ∧ name = true
  /-- Where a name is returned the day is no longer stranded. -/
  name : name = true → d ∈ t.stranded → d ∈ s'.base.attached
  before : s.phase = .called ∨ s.phase = .checked ∨ s.phase = .advised ∨ s.phase = .locked ∨
    s.phase = .drained
  after : s'.phase = .called

section

variable {t t' : Table} {advisoryFree lockable : Bool} {s s' : Session} {m : Move} {d : Int}
  {rest : List Int} {name : Bool} {loop : Loop}

theorem ahead_subset (h : t'.stranded ⊆ t.stranded)
    (hbase : ∀ e ∈ s.base.attached, e ∈ s'.base.attached) (hdays : ∀ e ∈ s'.days, e ∈ s.days) :
    s'.ahead t' ⊆ s.ahead t := by
  intro e he
  rw [Session.ahead, Finset.mem_union, Finset.mem_filter, List.mem_toFinset] at he ⊢
  rcases he with ⟨hin, hout⟩ | hin
  · exact Or.inl ⟨h hin, fun hbefore => hout (hbase e hbefore)⟩
  · exact Or.inr (hdays e hin)

/-- **Fewer days are stranded**: what a loop has come to is not touched. -/
theorem Session.Runs.mono (h : s.Runs t loop) (hsub : t'.stranded ⊆ t.stranded) :
    s.Runs t' loop where
  live hended hfailed := by
    have hcard := Finset.card_le_card
      (ahead_subset hsub (s := s) (fun e he => he) fun e he => he)
    have hlive := h.live hended hfailed
    omega
  chunks := h.chunks
  steps := h.steps
  own := h.own
  earlier hquiet x hx hin := by
    have hrecurs := h.earlier hquiet x hx (hsub hin)
    rw [Session.Recurs] at hrecurs ⊢
    split at hrecurs
    · exact (rank_mono hsub _).trans_lt hrecurs
    · trivial
    · trivial
    · exact hrecurs
  chunk hquiet d hd hin := (rank_mono hsub d).trans_lt (h.chunk hquiet d hd (hsub hin))
  remaining hquiet r hr := (Finset.card_le_card (Finset.filter_subset_filter _ hsub)).trans
    (h.remaining hquiet r hr)

/-- **Rows arrive**: they are counted, each with the day it may have stranded. -/
theorem Session.Runs.arrive (h : s.Runs t loop) {rows : List Row} (hrows : rows ≠ [])
    (hsub : ∀ d ∈ t'.stranded, d ∈ t.stranded ∨ ∃ r ∈ rows, r.day = d) :
    Session.Runs t' { s with arrivals := s.arrivals + rows.length } loop where
  live hended hfailed := by
    have hlive := h.live hended hfailed
    have hahead : Session.ahead t' { s with arrivals := s.arrivals + rows.length } ⊆
        s.ahead t ∪ (rows.map Row.day).toFinset := by
      intro e he
      rw [Session.ahead, Finset.mem_union, Finset.mem_filter] at he
      rw [Finset.mem_union, Session.ahead, Finset.mem_union, Finset.mem_filter]
      rcases he with ⟨hin, hout⟩ | hin
      · rcases hsub e hin with hold | ⟨r, hr, hday⟩
        · exact Or.inl (Or.inl ⟨hold, hout⟩)
        · exact Or.inr (List.mem_toFinset.mpr (List.mem_map.mpr ⟨r, hr, hday⟩))
      · exact Or.inl (Or.inr hin)
    have hcard := (Finset.card_le_card hahead).trans (Finset.card_union_le _ _)
    have hdays := (List.toFinset_card_le (rows.map Row.day)).trans_eq (List.length_map _)
    change _ + _ + s.credit ≤ s.start + (s.arrivals + rows.length)
    omega
  chunks := by
    have hchunks := h.chunks
    change _ ≤ s.start + (s.arrivals + rows.length) + 1
    dsimp only
    omega
  steps := h.steps
  own := h.own
  earlier hquiet := absurd hquiet (by have := List.length_pos_of_ne_nil hrows; dsimp only; omega)
  chunk hquiet := absurd hquiet (by have := List.length_pos_of_ne_nil hrows; dsimp only; omega)
  remaining hquiet := absurd hquiet (by have := List.length_pos_of_ne_nil hrows; dsimp only; omega)

theorem runs_backfill (t : Table) (chunkSize : Option Int) :
    (Session.backfill t chunkSize).Runs t ⟨chunkSize, 0, 0⟩ where
  live _ _ := by
    have hsub : (Session.backfill t chunkSize).ahead t ⊆ t.stranded := by
      intro e he
      rw [Session.ahead, Finset.mem_union, Finset.mem_filter, List.mem_toFinset] at he
      exact he.elim And.left fun hin => absurd hin List.not_mem_nil
    exact Finset.card_le_card hsub
  chunks := Nat.le_add_left _ _
  steps := Nat.zero_le _
  own _ hd := absurd hd List.not_mem_nil
  earlier _ _ hx := absurd hx List.not_mem_nil
  chunk _ _ hd := absurd hd List.not_mem_nil
  remaining _ r hr := by cases hr

end

/-! ### Statements of a loop -/

section

variable {t t' : Table} {advisoryFree lockable : Bool} {s s' : Session} {m : Move} {d : Int}
  {rest : List Int} {name : Bool} {loop : Loop} {n : Nat}

/-- A transaction whose days are selected. -/
def Session.Open (s : Session) : Prop := s.phase ≠ .opening ∧ s.phase ≠ .ended ∧ s.phase ≠ .failed

theorem recurs_iff (h : s.Open) : s.Recurs t n d ↔ d ∈ s.chunk := by
  obtain ⟨hopening, hended, hfailed⟩ := h
  rw [Session.Recurs]
  split
  · next hphase => exact absurd hphase hopening
  · next hphase => exact absurd hphase hended
  · next hphase => exact absurd hphase hfailed
  · exact Iff.rfl

theorem credit_eq (h : s'.returns = s.returns) : s'.credit = s.credit := by
  rw [Session.credit, Session.credit, h]

theorem Session.Advances.opens (h : s.Advances s') : s.Open ∧ s'.Open := by
  have hbefore := h.before
  have hafter := h.after
  rw [Session.Open, Session.Open]
  constructor
  · rcases hbefore with hphase | hphase | hphase | hphase <;> simp [hphase]
  · rcases hafter with hphase | hphase | hphase | hphase <;> simp [hphase]

theorem Session.Returns.opens (h : s.Returns t s' d rest name) : s.Open ∧ s'.Open := by
  have hbefore := h.before
  have hafter := h.after
  rw [Session.Open, Session.Open]
  constructor
  · rcases hbefore with hphase | hphase | hphase | hphase | hphase <;> simp [hphase]
  · simp [hafter]

/-- **Inside a call** a loop has one statement more. -/
theorem runs_advances (h : s.Runs t loop) (hs : s.Advances s') : s'.Runs t loop := by
  obtain ⟨hdays, hreturns, hchunk, htried, hstart, harrivals, hsteps⟩ := hs.same
  obtain ⟨hopen, hopen'⟩ := hs.opens
  refine ⟨fun _ _ => ?_, ?_, ?_, fun d hd => ?_, fun hquiet x hx hin => ?_,
    fun hquiet d hd hin => ?_, fun _ r hr => ?_⟩
  · have hlive := h.live hopen.2.1 hopen.2.2
    have hsub : s'.ahead t ⊆ s.ahead t :=
      ahead_subset (Finset.Subset.refl t.stranded) (fun e he => hs.base ▸ he)
        fun e he => hdays ▸ he
    have hcard := Finset.card_le_card hsub
    rw [credit_eq hreturns, hstart, harrivals]
    omega
  · have hchunks := h.chunks
    rw [if_neg hopen.2.1] at hchunks
    rw [if_neg hopen'.2.1, hstart, harrivals]
    exact hchunks
  · have hcount := h.steps
    rw [hsteps, hs.progress]
    omega
  · rw [hreturns]
    exact h.own d (hs.base ▸ hd)
  · rw [recurs_iff hopen', hchunk]
    rw [harrivals] at hquiet
    rw [htried] at hx
    exact (recurs_iff hopen).mp (h.earlier hquiet x hx hin)
  · rw [harrivals] at hquiet
    rw [hchunk] at hd
    exact h.chunk hquiet d hd hin
  · have hafter := hs.after
    rw [hr] at hafter
    simp at hafter

/-- The statements of one call are five at most. -/
theorem progress_le (h : s.phase = .called ∨ s.phase = .checked ∨ s.phase = .advised ∨
    s.phase = .locked ∨ s.phase = .drained) (n : Nat) :
    s.progress n ≤ 5 * s.returns.length + 5 := by
  rw [Session.progress]
  rcases h with hphase | hphase | hphase | hphase | hphase <;> simp only [hphase] <;> omega

/-- **A call that returns** takes its day off the days ahead, if the day was not tried in vain. -/
theorem runs_returns (h : s.Runs t loop) (hnodup : (d :: rest).Nodup)
    (hs : s.Returns t s' d rest name) : s'.Runs t loop := by
  obtain ⟨hchunk, htried, hstart, harrivals, hsteps⟩ := hs.same
  obtain ⟨hopen, hopen'⟩ := hs.opens
  have hsub : s'.ahead t ⊆ s.ahead t := by
    refine ahead_subset (Finset.Subset.refl _) hs.grows fun e he => ?_
    rw [hs.days.1]
    rw [hs.days.2] at he
    exact List.mem_cons_of_mem _ he
  refine ⟨fun _ _ => ?_, ?_, ?_, fun e he => ?_, fun hquiet x hx hin => ?_,
    fun hquiet e he hin => ?_, fun _ r hr => ?_⟩
  · have hlive := h.live hopen.2.1 hopen.2.2
    rw [hstart, harrivals]
    cases name with
    | false =>
      have hcredit : s'.credit = s.credit := by
        have hany : (s.returns ++ [(d, false)]).any (·.2) = s.returns.any (·.2) :=
          List.any_append.trans (Bool.or_false _)
        rw [Session.credit, Session.credit, hs.returns, hany]
      have hcard := Finset.card_le_card hsub
      omega
    | true =>
      have hcredit : s'.credit = 1 := by
        rw [Session.credit, hs.returns, List.any_append]
        simp
      have hd : d ∈ s.ahead t := by
        rw [Session.ahead, Finset.mem_union, List.mem_toFinset, hs.days.1]
        exact Or.inr List.mem_cons_self
      have hd' : d ∉ s'.ahead t := by
        rw [Session.ahead, Finset.mem_union, Finset.mem_filter, List.mem_toFinset, hs.days.2]
        rintro (⟨hin, hout⟩ | hin)
        · exact hout (hs.name rfl hin)
        · exact (List.nodup_cons.mp hnodup).1 hin
      have hcard := Finset.card_lt_card (Finset.ssubset_iff_of_subset hsub |>.mpr ⟨d, hd, hd'⟩)
      omega
  · have hchunks := h.chunks
    rw [if_neg hopen.2.1] at hchunks
    rw [if_neg hopen'.2.1, hstart, harrivals]
    exact hchunks
  · have hcount := h.steps
    have hprogress := progress_le hs.before (chunkLimit loop.chunkSize)
    have hlength : s'.progress (chunkLimit loop.chunkSize) = 5 * (s.returns.length + 1) + 1 := by
      rw [Session.progress, hs.after]
      dsimp only
      rw [hs.returns, List.length_append, List.length_singleton]
    rw [hsteps, hlength]
    omega
  · rw [hs.returns]
    rcases hs.base e he with hbefore | ⟨rfl, rfl⟩
    · exact List.mem_append_left _ (h.own e hbefore)
    · exact List.mem_append_right _ List.mem_cons_self
  · rw [recurs_iff hopen', hchunk]
    rw [harrivals] at hquiet
    rw [htried] at hx
    exact (recurs_iff hopen).mp (h.earlier hquiet x hx hin)
  · rw [harrivals] at hquiet
    rw [hchunk] at he
    exact h.chunk hquiet e he hin
  · rw [hs.after] at hr
    cases hr

end

/-! ### Chunks of a loop -/

section

variable {t t' : Table} {advisoryFree lockable : Bool} {s s' : Session} {m : Move} {c : Changes}
  {d : Int} {loop : Loop}

/-- The days that are stranded once a transaction commits. -/
theorem stranded_seenBy (h : c.Fits t) :
    (t.seenBy c).stranded = t.stranded.filter (· ∉ c.attached) := by
  ext d
  rw [mem_stranded_seenBy h.drained, Finset.mem_filter]

theorem stranded_commit (h : c.Fits t) (cleared : List Int) :
    (t.commit c cleared).stranded = t.stranded.filter (· ∉ c.attached) :=
  stranded_seenBy h

/-- Sessions only take days out of the default partition. -/
theorem stranded_of_moves (h : Moves t advisoryFree lockable s m t' s') (hs : s.Kept t) :
    t'.stranded ⊆ t.stranded := by
  rcases table_of_moves h hs with rfl | ⟨hfits, rfl⟩
  · exact Finset.Subset.refl _
  · rw [stranded_commit hfits]
    exact Finset.filter_subset _ _

/-- A day that a call of this transaction returned from. -/
theorem mem_chunk_of_mem_returns (h : s.Orderly) {x : Int × Bool} (hx : x ∈ s.returns) :
    x.1 ∈ s.chunk := by
  rw [← h.turns]
  exact List.mem_append_left _ (List.mem_map_of_mem hx)

theorem progress_lt (hs : s.Kept t) (ho : s.Orderly) (hloop : s.loop = some loop)
    (hfailed : s.phase ≠ .failed) :
    s.progress (chunkLimit loop.chunkSize) + 1 ≤ 5 * chunkLimit loop.chunkSize + 3 := by
  have hlimit := ho.limit loop hloop
  rw [← ho.turns, List.length_append, List.length_map] at hlimit
  have hshape := hs.shape
  rw [Session.Shape] at hshape
  rw [Session.progress]
  split at hshape
  · next hphase => simp only [hphase]; omega
  · next hphase => simp only [hphase]; omega
  · next hphase => exact absurd hphase hfailed
  · next hphase => simp only [hphase]; omega
  · next hphase => simp only [hphase]; omega
  · exact hshape.elim
  · next hphase hdays =>
    rw [hdays, List.length_cons] at hlimit
    simp only [hphase]
    omega
  · next hphase hdays =>
    rw [hdays, List.length_cons] at hlimit
    simp only [hphase]
    omega
  · next hphase hdays =>
    rw [hdays, List.length_cons] at hlimit
    simp only [hphase]
    omega
  · next hphase hdays =>
    rw [hdays, List.length_cons] at hlimit
    simp only [hphase]
    omega

/-- **A chunk selects its days.** -/
theorem runs_opened (hs : s.Kept t) (ho : s.Orderly) (h : s.Runs t loop)
    (hphase : s.phase = .opening) :
    Session.Runs t { s with
      phase := .called
      chunk := t.candidates loop.chunkSize
      days := t.candidates loop.chunkSize
      steps := s.steps + 1 } loop := by
  have hown : s.own = .empty := by
    have hshape := hs.shape
    rw [Session.Shape, hphase] at hshape
    exact hshape
  obtain ⟨hreturns, -⟩ := ho.returns_eq_nil (ho.opening hphase).1
  have hcount := h.steps
  rw [Session.progress, hphase] at hcount
  refine ⟨fun _ _ => ?_, ?_, ?_, fun d hd => ?_, fun hquiet x hx hin => ?_,
    fun _ d hd _ => (mem_candidates.mp hd).2, fun _ r hr => by cases hr⟩
  · have hlive := h.live (by simp [hphase]) (by simp [hphase])
    refine le_trans (Nat.add_le_add_right (Nat.add_le_add_right (Finset.card_le_card ?_) _) _) hlive
    intro e he
    rw [Session.ahead, Session.base, hphase, Finset.mem_union, Finset.mem_filter, hown]
    rw [Session.ahead, Finset.mem_union, Finset.mem_filter, List.mem_toFinset] at he
    refine Or.inl ⟨?_, List.not_mem_nil⟩
    exact he.elim And.left fun hin => (mem_candidates.mp hin).1
  · have hchunks := h.chunks
    rw [if_neg (by simp [hphase])] at hchunks
    exact hchunks
  · rw [Session.progress]
    dsimp only at hcount ⊢
    rw [hreturns, List.length_nil]
    omega
  · rw [Session.base] at hd
    dsimp only at hd
    rw [hown] at hd
    exact absurd hd List.not_mem_nil
  · have hrecurs := h.earlier hquiet x hx hin
    rw [Session.Recurs, hphase] at hrecurs
    exact mem_candidates.mpr ⟨hin, hrecurs⟩

/-- **A chunk counts what remains.** -/
theorem runs_counted (hs : s.Kept t) (h : s.Runs t loop) (hphase : s.phase = .called) :
    Session.Runs t { s with
      phase := .counted (t.seenBy s.own).stranded.card
      steps := s.steps + 1 } loop := by
  have hopen : s.Open := by simp [Session.Open, hphase]
  have hbase : s.base = s.own := by rw [Session.base, hphase]
  have hcount := h.steps
  rw [Session.progress, hphase] at hcount
  refine ⟨fun _ _ => ?_, ?_, ?_, fun d hd => h.own d (hbase ▸ hd), fun hquiet x hx hin => ?_,
    h.chunk, fun _ r hr => ?_⟩
  · have hlive := h.live hopen.2.1 hopen.2.2
    rw [Session.ahead, hbase] at hlive
    exact hlive
  · have hchunks := h.chunks
    rw [if_neg hopen.2.1] at hchunks
    exact hchunks
  · rw [Session.progress]
    dsimp only at hcount ⊢
    omega
  · exact (recurs_iff hopen).mp (h.earlier hquiet x hx hin)
  · cases hr
    rw [stranded_seenBy (hs.fits (Or.inl hphase))]

/-- The days that were tried are the oldest of those that are stranded still. -/
theorem rank_lt_of_tried (ho : s.Orderly) (h : s.Runs t loop) {remaining : Nat}
    (hphase : s.phase = .counted remaining) (hquiet : s.arrivals = 0) {x : Int × Bool}
    (hx : x ∈ s.tried ++ s.returns) (hin : x.1 ∈ t.stranded) :
    t.rank x.1 < chunkLimit loop.chunkSize := by
  have hopen : s.Open := by simp [Session.Open, hphase]
  refine h.chunk hquiet x.1 ?_ hin
  rcases List.mem_append.mp hx with hx | hx
  · exact (recurs_iff hopen).mp (h.earlier hquiet x hx hin)
  · exact mem_chunk_of_mem_returns ho hx

/-- **A chunk is over**, and the loop goes on only if it has attached a day. -/
theorem runs_chunked (hs : s.Kept t) (ho : s.Orderly) (h : s.Runs t loop) {remaining : Nat}
    (hphase : s.phase = .counted remaining) (hloop : s.loop = some loop) :
    Session.Runs (t.commit s.own s.cleared) { s.released with
      loop := some ⟨loop.chunkSize, loop.provisioned + s.returns.countP (·.2), loop.chunks + 1⟩
      phase := if remaining = 0 ∨ s.returns.countP (·.2) = 0 then .ended else .opening
      steps := s.steps + 1 }
      ⟨loop.chunkSize, loop.provisioned + s.returns.countP (·.2), loop.chunks + 1⟩ := by
  have hfits := hs.fits (Or.inr ⟨_, hphase⟩)
  have hopen : s.Open := by simp [Session.Open, hphase]
  have hbase : s.base = s.own := by rw [Session.base, hphase]
  have hlive := h.live hopen.2.1 hopen.2.2
  have hcount := h.steps
  have hsub := (stranded_commit hfits s.cleared).subset.trans (Finset.filter_subset _ _)
  have hlimit := ho.limit loop hloop
  rw [← ho.turns, (ho.counted _ hphase).1, List.append_nil, List.length_map] at hlimit
  rw [Session.progress, hphase] at hcount
  have hsteps : s.steps + 1 ≤ (loop.chunks + 1) * (5 * chunkLimit loop.chunkSize + 3) := by
    rw [Nat.succ_mul]
    dsimp only at hcount
    omega
  by_cases hend : remaining = 0 ∨ s.returns.countP (·.2) = 0
  · rw [if_pos hend]
    refine ⟨fun hended => absurd rfl hended, ?_, hsteps, fun d hd => absurd hd List.not_mem_nil,
      fun _ _ _ _ => trivial, fun _ d hd => absurd hd List.not_mem_nil, fun _ r hr => by cases hr⟩
    rw [if_pos rfl]
    change loop.chunks + 1 + 0 ≤ s.start + s.arrivals + 1
    omega
  · rw [if_neg hend]
    have hcredit : s.credit = 1 := by
      rw [Session.credit, if_pos]
      obtain ⟨x, hx, hname⟩ := List.countP_pos_iff.mp (Nat.pos_of_ne_zero (not_or.mp hend).2)
      exact List.any_eq_true.mpr ⟨x, hx, hname⟩
    refine ⟨fun _ _ => ?_, ?_, hsteps, fun d hd => absurd hd List.not_mem_nil,
      fun hquiet x hx hin => ?_, fun _ d hd => absurd hd List.not_mem_nil,
      fun _ r hr => by cases hr⟩
    · have hahead : (t.commit s.own s.cleared).stranded ⊆ s.ahead t := by
        rw [stranded_commit hfits, Session.ahead, hbase]
        exact Finset.subset_union_left
      have hcard : (Session.ahead (t.commit s.own s.cleared) { s.released with
          loop := some ⟨loop.chunkSize, loop.provisioned + s.returns.countP (·.2), loop.chunks + 1⟩
          phase := .opening
          steps := s.steps + 1 }).card ≤ (s.ahead t).card := by
        refine Finset.card_le_card fun e he => hahead ?_
        rw [Session.ahead, Finset.mem_union, Finset.mem_filter, List.mem_toFinset] at he
        exact he.elim And.left fun hin => absurd hin List.not_mem_nil
      change _ + (loop.chunks + 1) + 0 ≤ s.start + s.arrivals
      omega
    · rw [if_neg (by simp)]
      change loop.chunks + 1 + 1 ≤ s.start + s.arrivals + 1
      omega
    · exact (rank_mono hsub _).trans_lt (rank_lt_of_tried ho h hphase hquiet hx (hsub hin))

/-- The end of a call leaves what the transaction has changed by then. -/
theorem returns_own {c : Changes} {rest : List Int} (name : Bool) (hdays : s.days = d :: rest)
    (hbefore : s.phase = .called ∨ s.phase = .checked ∨ s.phase = .advised ∨ s.phase = .locked ∨
      s.phase = .drained)
    (hgrows : ∀ e ∈ s.base.attached, e ∈ c.attached)
    (hown : ∀ e ∈ c.attached, e ∈ s.base.attached ∨ e = d ∧ name = true)
    (hname : name = true → d ∈ t.stranded → d ∈ c.attached) :
    s.Returns t { Session.returned { s with own := c } d rest name with steps := s.steps + 1 }
      d rest name :=
  ⟨⟨rfl, rfl, rfl, rfl, rfl⟩, ⟨hdays, rfl⟩, rfl, hgrows, hown, hname, hbefore, rfl⟩

/-- A call that changes nothing, and returns none. -/
theorem runs_declined {rest : List Int} (hr : s.Runs t loop) (hnodup : (d :: rest).Nodup)
    (hdays : s.days = d :: rest)
    (hbefore : s.phase = .called ∨ s.phase = .checked ∨ s.phase = .advised ∨ s.phase = .locked ∨
      s.phase = .drained) (hbase : c = s.base) :
    Session.Runs t { Session.returned { s with own := c } d rest false with
      steps := s.steps + 1 } loop := by
  subst hbase
  exact runs_returns hr hnodup
    (returns_own false hdays hbefore (fun e he => he) (fun e he => Or.inl he) fun h => by cases h)

/-- A call for a day that is attached. -/
theorem runs_named {rest : List Int} (hr : s.Runs t loop) (hnodup : (d :: rest).Nodup)
    (hdays : s.days = d :: rest)
    (hbefore : s.phase = .called ∨ s.phase = .checked ∨ s.phase = .advised ∨ s.phase = .locked ∨
      s.phase = .drained) (hbase : c = s.base)
    (hin : d ∈ s.base.attached ∨ d ∈ t.attached) :
    Session.Runs t { Session.returned { s with own := c } d rest true with
      steps := s.steps + 1 } loop := by
  subst hbase
  exact runs_returns hr hnodup (returns_own true hdays hbefore (fun e he => he)
    (fun e he => Or.inl he) fun _ hstranded => hin.resolve_right (mem_stranded.mp hstranded).2)

/-- **What a statement leaves of a loop.** -/
theorem runs_moves (h : Moves t advisoryFree lockable s m t' s') (hs : s.Kept t) (ho : s.Orderly)
    (hloop : s.loop = some loop) (hr : s.Runs t loop) :
    ∃ loop', s'.loop = some loop' ∧
      Session.Runs t' { s' with steps := s'.steps + 1 } loop' := by
  have hshape := hs.shape
  rw [Session.Shape] at hshape
  have hnodup {d : Int} {rest : List Int} (hdays : s.days = d :: rest) : (d :: rest).Nodup := by
    have hall := ho.nodup
    rw [← ho.turns, hdays] at hall
    exact hall.of_append_right
  cases h with
  | opened loop' hphase hloop' =>
    obtain rfl := Option.some.inj (hloop.symm.trans hloop')
    have hopened := runs_opened hs ho hr hphase
    exact ⟨loop, hloop, hopened⟩
  | found d rest hphase hdays hin =>
    have hbase : s.own = s.base := by rw [Session.base, hphase]
    have hnamed := runs_named hr (hnodup hdays) hdays (Or.inl hphase) hbase
      (hbase ▸ List.mem_append.mp hin)
    exact ⟨loop, hloop, hnamed⟩
  | missing d rest hphase hdays hout =>
    refine ⟨loop, hloop, runs_advances hr ⟨⟨rfl, rfl, rfl, rfl, rfl, rfl, rfl⟩, ?_, Or.inl hphase,
      Or.inl rfl, fun n => ?_⟩⟩
    · simp only [Session.base, hphase]
    · simp only [Session.progress, hphase]
  | advised d rest hphase hdays =>
    refine ⟨loop, hloop, runs_advances hr ⟨⟨rfl, rfl, rfl, rfl, rfl, rfl, rfl⟩, ?_,
      Or.inr (Or.inl hphase), Or.inr (Or.inl rfl), fun n => ?_⟩⟩
    · simp only [Session.base, hphase]
    · simp only [Session.progress, hphase]
  | taken d rest hphase hdays =>
    rw [hphase, hdays] at hshape
    have hbase : s.own = s.base := by
      rw [Session.base, hphase]
      exact hshape.2
    have hdeclined := runs_declined hr (hnodup hdays) hdays (Or.inr (Or.inl hphase)) hbase
    exact ⟨loop, hloop, hdeclined⟩
  | locked hphase =>
    refine ⟨loop, hloop, runs_advances hr ⟨⟨rfl, rfl, rfl, rfl, rfl, rfl, rfl⟩, ?_,
      Or.inr (Or.inr (Or.inl hphase)), Or.inr (Or.inr (Or.inl rfl)), fun n => ?_⟩⟩
    · simp only [Session.base, hphase]
    · simp only [Session.progress, hphase]
  | declined d rest hphase hdays =>
    obtain ⟨hsaved, -, hbase⟩ := hs.saved_eq hphase hdays
    have hdeclined := runs_declined hr (hnodup hdays) hdays (Or.inr (Or.inr hphase))
      (hsaved.trans hbase.symm)
    exact ⟨loop, hloop, hdeclined⟩
  | drained d rest hphase hdays =>
    refine ⟨loop, hloop, runs_advances hr ⟨⟨rfl, rfl, rfl, rfl, rfl, rfl, rfl⟩, ?_,
      Or.inr (Or.inr (Or.inr hphase)), Or.inr (Or.inr (Or.inr rfl)), fun n => ?_⟩⟩
    · simp only [Session.base, hphase]
    · simp only [Session.progress, hphase]
  | overtaken d rest hphase hdays hin =>
    rw [hphase, hdays] at hshape
    obtain ⟨hsaved, -, hbase⟩ := hs.saved_eq (Or.inr (Or.inr hphase)) hdays
    rw [hshape.2.2] at hin
    have hnamed := runs_named hr (hnodup hdays) hdays (Or.inr (Or.inr (Or.inr (Or.inr hphase))))
      (hsaved.trans hbase.symm) (hbase ▸ List.mem_append.mp hin)
    exact ⟨loop, hloop, hnamed⟩
  | strayed d rest hphase hdays =>
    obtain ⟨hsaved, -, hbase⟩ := hs.saved_eq (Or.inr (Or.inr hphase)) hdays
    have hdeclined := runs_declined hr (hnodup hdays) hdays
      (Or.inr (Or.inr (Or.inr (Or.inr hphase)))) (hsaved.trans hbase.symm)
    exact ⟨loop, hloop, hdeclined⟩
  | attached d rest hphase hdays =>
    rw [hphase, hdays] at hshape
    have hbase : s.own.attached = s.base.attached := by
      rw [Session.base, hphase, hshape.2.2]
    have hreturns := returns_own (t := t) (c := { s.own with
        attached := d :: s.own.attached
        moved := s.own.moved ++ t.leftoverRows s.cleared d }) true hdays
      (Or.inr (Or.inr (Or.inr (Or.inr hphase))))
      (fun e he => List.mem_cons_of_mem _ (hbase ▸ he))
      (fun e he => (List.mem_cons.mp he).symm.imp (fun hin => hbase ▸ hin) fun heq => ⟨heq, rfl⟩)
      fun _ _ => List.mem_cons_self
    exact ⟨loop, hloop, runs_returns hr (hnodup hdays) hreturns⟩
  | counted hphase hdays =>
    have hcounted := runs_counted hs hr hphase
    exact ⟨loop, hloop, hcounted⟩
  | closed hphase hdays hnone =>
    rw [hloop] at hnone
    cases hnone
  | chunked loop' remaining hphase hloop' =>
    obtain rfl := Option.some.inj (hloop.symm.trans hloop')
    have hchunked := runs_chunked hs ho hr hphase hloop
    exact ⟨_, rfl, hchunked⟩
  | aborted hphase =>
    have hcount := hr.steps
    have hlt := progress_lt hs ho hloop hphase.2
    refine ⟨loop, hloop, fun _ hfailed => absurd rfl hfailed, ?_, ?_,
      fun d hd => absurd hd List.not_mem_nil, fun _ _ _ _ => trivial,
      fun _ d hd => absurd hd List.not_mem_nil, fun _ r hr => by cases hr⟩
    · have hchunks := hr.chunks
      rw [if_neg hphase.1] at hchunks
      exact hchunks
    · change s.steps + 1 ≤ loop.chunks * (5 * chunkLimit loop.chunkSize + 3) +
        (5 * chunkLimit loop.chunkSize + 3)
      omega

end

/-! ### Every run -/

/-- What a loop that is over has left, it has tried. -/
def Session.Attempts (t : Table) (s : Session) : Prop :=
  s.loop.isSome = true → s.phase = .ended → s.arrivals = 0 → ∀ d ∈ t.stranded, (d, false) ∈ s.tried

structure Backfilling (w : World) : Prop where
  inv : Inv w
  nonempty : ∀ ins ∈ w.inserts, ins.rows ≠ []
  orderly : ∀ s ∈ w.sessions, s.Orderly
  runs : ∀ s ∈ w.sessions, ∀ loop, s.loop = some loop → s.Runs w.table loop

section

variable {t t' : Table} {advisoryFree lockable : Bool} {s s' : Session} {m : Move}
  {w w' : World} {a : Action} {i j : Nat} {d : Int} {loop : Loop} {ins : Insert}

theorem Session.Attempts.mono (h : s.Attempts t) (hsub : t'.stranded ⊆ t.stranded) :
    s.Attempts t' :=
  fun hloop hended hquiet d hd => h hloop hended hquiet d (hsub hd)

/-- **A chunk that is held off has to reach the last stranded day.** -/
theorem attempts_chunked (hs : s.Kept t) (ho : s.Orderly) (h : s.Runs t loop) {remaining : Nat}
    (hphase : s.phase = .counted remaining) (hloop : s.loop = some loop) :
    Session.Attempts (t.commit s.own s.cleared) { s.released with
      loop := some ⟨loop.chunkSize, loop.provisioned + s.returns.countP (·.2), loop.chunks + 1⟩
      phase := if remaining = 0 ∨ s.returns.countP (·.2) = 0 then .ended else .opening
      steps := s.steps + 1 } ↔ (s.HeldOff → ∀ d ∈ t.stranded, d ∈ s.chunk) := by
  have hfits := hs.fits (Or.inr ⟨_, hphase⟩)
  have hopen : s.Open := by simp [Session.Open, hphase]
  have hbase : s.base = s.own := by rw [Session.base, hphase]
  have hsub := (stranded_commit hfits s.cleared).subset.trans (Finset.filter_subset _ _)
  by_cases hgot : s.returns.countP (·.2) = 0
  · have hnone : ∀ x ∈ s.returns, x.2 = false := fun x hx =>
      Bool.eq_false_of_not_eq_true (List.countP_eq_zero.mp hgot x hx)
    have hstranded : ∀ d ∈ t.stranded, d ∈ (t.commit s.own s.cleared).stranded := by
      intro d hd
      rw [stranded_commit hfits, Finset.mem_filter]
      refine ⟨hd, fun hin => ?_⟩
      exact Bool.false_ne_true (hnone _ (h.own d (hbase ▸ hin))).symm
    rw [if_pos (Or.inr hgot)]
    constructor
    · intro hall hheld d hd
      have htried := hall rfl rfl hheld.quiet d (hstranded d hd)
      rcases List.mem_append.mp htried with hx | hx
      · exact (recurs_iff hopen).mp (h.earlier hheld.quiet _ hx hd)
      · exact mem_chunk_of_mem_returns ho hx
    · intro hall _ _ hquiet d hd
      have hin := hall ⟨⟨_, hphase⟩, by rw [hloop]; rfl, hquiet, hnone⟩ d (hsub hd)
      rw [← ho.turns, (ho.counted _ hphase).1, List.append_nil] at hin
      obtain ⟨x, hx, rfl⟩ := List.mem_map.mp hin
      refine List.mem_append_right _ ?_
      rwa [← hnone x hx]
  · have hheld : ¬ s.HeldOff := fun hheld => hgot (List.countP_eq_zero.mpr fun x hx => by
      rw [hheld.declined x hx]
      exact Bool.false_ne_true)
    refine iff_of_true (fun _ hended hquiet d hd => ?_) fun h => absurd h hheld
    by_cases hzero : remaining = 0
    · have hremaining := h.remaining hquiet remaining hphase
      rw [stranded_commit hfits] at hd
      rw [hzero, Nat.le_zero, Finset.card_eq_zero] at hremaining
      rw [hremaining] at hd
      exact absurd hd (Finset.notMem_empty d)
    · dsimp only at hended
      rw [if_neg (not_or.mpr ⟨hzero, hgot⟩)] at hended
      cases hended

theorem attempts_moves (h : Moves t advisoryFree lockable s m t' s') (hs : s.Kept t)
    (ho : s.Orderly) (hr : ∀ loop, s.loop = some loop → s.Runs t loop) :
    Session.Attempts t' { s' with steps := s'.steps + 1 } ↔
      (m = .commits → s.HeldOff → ∀ d ∈ t.stranded, d ∈ s.chunk) := by
  cases h with
  | chunked loop remaining hphase hloop =>
    have hchunked := attempts_chunked hs ho (hr loop hloop) hphase hloop
    exact hchunked.trans ⟨fun h _ => h, fun h => h rfl⟩
  | closed hphase hdays hloop =>
    refine iff_of_true (fun hsome => ?_) fun _ hheld => ?_
    · change s.loop.isSome = true at hsome
      rw [hloop] at hsome
      cases hsome
    · have hsome := hheld.loop
      rw [hloop] at hsome
      cases hsome
  | opened => exact iff_of_true (fun _ hended => by cases hended) fun h => by cases h
  | found => exact iff_of_true (fun _ hended => by cases hended) fun h => by cases h
  | missing => exact iff_of_true (fun _ hended => by cases hended) fun h => by cases h
  | advised => exact iff_of_true (fun _ hended => by cases hended) fun h => by cases h
  | taken => exact iff_of_true (fun _ hended => by cases hended) fun h => by cases h
  | locked => exact iff_of_true (fun _ hended => by cases hended) fun h => by cases h
  | declined => exact iff_of_true (fun _ hended => by cases hended) fun h => by cases h
  | drained => exact iff_of_true (fun _ hended => by cases hended) fun h => by cases h
  | overtaken => exact iff_of_true (fun _ hended => by cases hended) fun h => by cases h
  | strayed => exact iff_of_true (fun _ hended => by cases hended) fun h => by cases h
  | attached => exact iff_of_true (fun _ hended => by cases hended) fun h => by cases h
  | counted => exact iff_of_true (fun _ hended => by cases hended) fun h => by cases h
  | aborted => exact iff_of_true (fun _ hended => by cases hended) fun h => by cases h

/-- A loop stays one. -/
theorem loop_of_moves (h : Moves t advisoryFree lockable s m t' s') :
    s'.loop.isSome = s.loop.isSome := by
  cases h with
  | chunked loop remaining hphase hloop =>
    rw [hloop]
    rfl
  | _ => rfl

/-- A session that is not over can go on by itself. -/
theorem exists_move (hs : s.Kept t) (ho : s.Orderly) (hended : s.phase ≠ .ended)
    (hfailed : s.phase ≠ .failed) (advisoryFree lockable : Bool) :
    ∃ m, m ≠ .aborts ∧ (s.act t advisoryFree lockable m).isSome = true := by
  have hshape := hs.shape
  rw [Session.Shape] at hshape
  split at hshape
  · next hphase =>
    obtain ⟨loop, hloop⟩ := Option.isSome_iff_exists.mp (ho.opening hphase).2
    exact ⟨.opens, by simp, by simp [Session.act, Session.opens, hphase, hloop]⟩
  · next hphase => exact absurd hphase hended
  · next hphase => exact absurd hphase hfailed
  · next hphase =>
    cases hdays : s.days with
    | cons d rest => exact ⟨.checks, by simp, by simp [Session.act, Session.checks, hphase, hdays]⟩
    | nil =>
      cases hloop : s.loop with
      | none =>
        exact ⟨.commits, by simp, by simp [Session.act, Session.commits, hphase, hdays, hloop]⟩
      | some loop =>
        exact ⟨.counts, by simp, by simp [Session.act, Session.counts, hphase, hdays, hloop]⟩
  · next hphase =>
    obtain ⟨loop, hloop⟩ := Option.isSome_iff_exists.mp (ho.counted _ hphase).2
    exact ⟨.commits, by simp, by simp [Session.act, Session.commits, hphase, hloop]⟩
  · exact hshape.elim
  · next hphase hdays =>
    exact ⟨.advises, by simp, by simp [Session.act, Session.advises, hphase, hdays]⟩
  · next hphase hdays =>
    exact ⟨.declines, by simp, by simp [Session.act, Session.declines, hphase, hdays]⟩
  · next hphase hdays =>
    exact ⟨.declines, by simp, by simp [Session.act, Session.declines, hphase, hdays]⟩
  · next hphase hdays =>
    exact ⟨.declines, by simp, by simp [Session.act, Session.declines, hphase, hdays]⟩

end

section

variable {w w' : World} {a : Action} {i j : Nat} {d : Int} {s : Session} {t : Table}
  {ins : Insert} {pinned : List Int}

/-- The rows of the calls under way: those of an insert do not change. -/
theorem nonempty_set (h : ∀ ins ∈ w.inserts, ins.rows ≠ []) (hrows : ins.rows ≠ []) :
    ∀ other ∈ w.inserts.set j ins, other.rows ≠ [] := by
  intro other hother
  rcases List.mem_or_eq_of_mem_set hother with hmem | rfl
  · exact h other hmem
  · exact hrows

theorem stranded_store (w : World) (j : Nat) (ins : Insert) (pinned : List Int) :
    ∀ d ∈ (w.store j ins pinned).table.stranded,
      d ∈ w.table.stranded ∨ ∃ r ∈ ins.rows, r.day = d := by
  intro d hd
  obtain ⟨⟨r, hr, hday⟩, hout⟩ := mem_stranded.mp hd
  rcases List.mem_append.mp hr with hr | hr
  · exact Or.inl (mem_stranded.mpr ⟨⟨r, hr, hday⟩, hout⟩)
  · exact Or.inr ⟨r, List.mem_of_mem_filter hr, hday⟩

/-- A drop strands no day: the default partition has no row of it. -/
theorem stranded_drop (h : Inv w) (d : Int) : (w.drop d).table.stranded ⊆ w.table.stranded := by
  intro e he
  obtain ⟨⟨r, hr, hday⟩, -⟩ := mem_stranded.mp he
  exact mem_stranded.mpr ⟨⟨r, hr, hday⟩, hday ▸ h.unattached r hr⟩

/-- **A step keeps all of it, and what is claimed of loops that are over as its guard says.** -/
theorem backfilling_step (h : Backfilling w) (hstep : step w a = some w') :
    Backfilling w' ∧ ((∀ s ∈ w.sessions, s.Attempts w.table) →
      ((∀ s ∈ w'.sessions, s.Attempts w'.table) ↔ Reaches w a)) := by
  have hinv := inv_step w a w' h.inv hstep
  cases a with
  | inserts rows =>
    rw [step] at hstep
    split at hstep
    · cases hstep
    · next hrows =>
      cases hstep
      refine ⟨⟨hinv, fun ins hins => ?_, h.orderly, h.runs⟩, fun hall => iff_of_true hall trivial⟩
      rcases List.mem_append.mp hins with hins | hins
      · exact h.nonempty ins hins
      · obtain rfl := List.mem_singleton.mp hins
        exact hrows
  | pins j =>
    rw [step] at hstep
    split at hstep
    · next rows retried hj =>
      cases hstep
      exact ⟨⟨hinv, nonempty_set h.nonempty (h.nonempty _ (List.mem_of_getElem? hj) :), h.orderly,
        h.runs⟩, fun hall => iff_of_true hall trivial⟩
    · cases hstep
  | writes j =>
    rw [step] at hstep
    split at hstep
    · next rows pinned retried hj =>
      have hrows : rows ≠ [] := h.nonempty _ (List.mem_of_getElem? hj)
      rw [World.write] at hstep
      split at hstep
      · cases hstep
      · split at hstep
        · cases hstep
          refine ⟨⟨hinv, ?_, h.orderly, h.runs⟩, fun hall => iff_of_true hall trivial⟩
          dsimp only
          split
          · exact fun ins hins => h.nonempty ins (List.mem_of_mem_eraseIdx hins)
          · exact nonempty_set h.nonempty hrows
        · cases hstep
          exact ⟨⟨hinv, nonempty_set h.nonempty hrows, h.orderly, h.runs⟩,
            fun hall => iff_of_true hall trivial⟩
    · cases hstep
  | stores j =>
    rw [step] at hstep
    split at hstep
    · next rows pinned retried hj =>
      cases hstep
      have hrows : rows ≠ [] := h.nonempty _ (List.mem_of_getElem? hj)
      refine ⟨⟨hinv, fun ins hins => h.nonempty ins (List.mem_of_mem_eraseIdx hins),
        fun u hu => ?_, fun u hu loop hloop => ?_⟩,
        fun hall => iff_of_true (fun u hu => ?_) trivial⟩
      · obtain ⟨s, hs, rfl⟩ := List.mem_map.mp hu
        exact h.orderly s hs
      · obtain ⟨s, hs, rfl⟩ := List.mem_map.mp hu
        exact (h.runs s hs loop hloop).arrive hrows (stranded_store w j _ pinned)
      · obtain ⟨s, hs, rfl⟩ := List.mem_map.mp hu
        intro _ _ hquiet
        have hlength := List.length_pos_of_ne_nil hrows
        dsimp only at hquiet
        omega
    · cases hstep
  | fails j =>
    cases hstep
    exact ⟨⟨hinv, fun ins hins => h.nonempty ins (List.mem_of_mem_eraseIdx hins), h.orderly,
      h.runs⟩, fun hall => iff_of_true hall trivial⟩
  | drops d =>
    rw [step] at hstep
    split at hstep
    · cases hstep
      have hsub := stranded_drop h.inv d
      exact ⟨⟨hinv, h.nonempty, h.orderly,
        fun s hs loop hloop => (h.runs s hs loop hloop).mono hsub⟩,
        fun hall => iff_of_true (fun s hs => (hall s hs).mono hsub) trivial⟩
    · cases hstep
  | calls d =>
    cases hstep
    refine ⟨⟨hinv, h.nonempty, fun s hs => ?_, fun s hs loop hloop => ?_⟩,
      fun hall => iff_of_true (fun s hs => ?_) trivial⟩
    · rcases List.mem_append.mp hs with hs | hs
      · exact h.orderly s hs
      · obtain rfl := List.mem_singleton.mp hs
        refine ⟨rfl, List.nodup_singleton d, fun l hl => ?_, fun hphase => ?_, fun r hphase => ?_,
          fun hphase => ?_⟩
        · cases hl
        · cases hphase
        · cases hphase
        · cases hphase
    · rcases List.mem_append.mp hs with hs | hs
      · exact h.runs s hs loop hloop
      · obtain rfl := List.mem_singleton.mp hs
        cases hloop
    · rcases List.mem_append.mp hs with hs | hs
      · exact hall s hs
      · obtain rfl := List.mem_singleton.mp hs
        exact fun hloop => by cases hloop
  | backfills chunkSize =>
    cases hstep
    refine ⟨⟨hinv, h.nonempty, fun s hs => ?_, fun s hs loop hloop => ?_⟩,
      fun hall => iff_of_true (fun s hs => ?_) trivial⟩
    · rcases List.mem_append.mp hs with hs | hs
      · exact h.orderly s hs
      · obtain rfl := List.mem_singleton.mp hs
        exact turns_released (fun _ => rfl) fun r hphase => by cases hphase
    · rcases List.mem_append.mp hs with hs | hs
      · exact h.runs s hs loop hloop
      · obtain rfl := List.mem_singleton.mp hs
        cases hloop
        exact runs_backfill w.table chunkSize
    · rcases List.mem_append.mp hs with hs | hs
      · exact hall s hs
      · obtain rfl := List.mem_singleton.mp hs
        exact fun _ hended => by cases hended
  | moves i m =>
    obtain ⟨s, t', s', hi, hm, rfl⟩ := moves_of_step hstep
    have hmem := List.mem_of_getElem? hi
    have hs := h.inv.sessions s hmem
    have hsub := stranded_of_moves hm hs
    have hattempts := attempts_moves hm hs (h.orderly s hmem) (h.runs s hmem)
    have hreaches : Reaches w (.moves i m) ↔
        (m = .commits → s.HeldOff → ∀ d ∈ w.table.stranded, d ∈ s.chunk) := by
      cases m with
      | commits =>
        refine ⟨fun hall _ => hall s hi, fun hall u hu => ?_⟩
        obtain rfl := Option.some.inj (hi.symm.trans hu)
        exact hall rfl
      | _ => exact iff_of_true trivial fun heq => by cases heq
    refine ⟨⟨hinv, h.nonempty, fun u hu => ?_, fun u hu loop hloop => ?_⟩, fun hall => ?_⟩
    · rcases eq_or_mem_eraseIdx_of_mem_set hu with rfl | hu
      · have horderly := orderly_moves hm (h.orderly s hmem)
        exact horderly
      · exact h.orderly u (List.mem_of_mem_eraseIdx hu)
    · rcases eq_or_mem_eraseIdx_of_mem_set hu with rfl | hu
      · have hsome : s.loop.isSome = true := by
          have hold := loop_of_moves hm
          rw [← hold, show s'.loop = some loop from hloop]
          rfl
        obtain ⟨old, hold⟩ := Option.isSome_iff_exists.mp hsome
        obtain ⟨new, hnew, hruns⟩ :=
          runs_moves hm hs (h.orderly s hmem) hold (h.runs s hmem old hold)
        obtain rfl := Option.some.inj (hnew.symm.trans hloop)
        exact hruns
      · have hu := List.mem_of_mem_eraseIdx hu
        exact (h.runs u hu loop hloop).mono hsub
    · rw [hreaches, ← hattempts]
      constructor
      · intro hnew
        obtain ⟨hlt, -⟩ := List.getElem?_eq_some_iff.mp hi
        exact hnew _ (List.mem_of_getElem? (List.getElem?_set_self hlt))
      · intro hnew u hu
        rcases eq_or_mem_eraseIdx_of_mem_set hu with rfl | hu
        · exact hnew
        · exact (hall u (List.mem_of_mem_eraseIdx hu)).mono hsub

end

section

variable {w w' : World} {a : Action}

theorem backfilling_start (t : ClickTable) : Backfilling (.start t) where
  inv := inv_start t
  nonempty := fun _ h => absurd h List.not_mem_nil
  orderly := fun _ h => absurd h List.not_mem_nil
  runs := fun _ h => absurd h List.not_mem_nil

/-- **A loop ends**, by the days that it may take out of the default partition. -/
theorem steps_le {w : World} (h : Backfilling w) {s : Session} (hs : s ∈ w.sessions) {loop : Loop}
    (hloop : s.loop = some loop) :
    s.steps ≤ (s.start + s.arrivals + 1) * (5 * chunkLimit loop.chunkSize + 3) := by
  have hr := h.runs s hs loop hloop
  have hsteps := hr.steps
  have hchunks := hr.chunks
  by_cases hended : s.phase = .ended
  · rw [if_pos hended] at hchunks
    rw [Session.progress, hended] at hsteps
    exact hsteps.trans (Nat.mul_le_mul_right _ hchunks)
  · rw [if_neg hended] at hchunks
    have hprogress :
        s.progress (chunkLimit loop.chunkSize) ≤ 5 * chunkLimit loop.chunkSize + 3 := by
      by_cases hfailed : s.phase = .failed
      · rw [Session.progress, hfailed]
      · have hlt := progress_lt (h.inv.sessions s hs) (h.orderly s hs) hloop hfailed
        omega
    have hmul := Nat.mul_le_mul_right (5 * chunkLimit loop.chunkSize + 3) hchunks
    rw [Nat.succ_mul] at hmul
    omega

theorem provisions_iff (h : Backfilling w) :
    Provisions w ↔ ∀ s ∈ w.sessions, s.Attempts w.table := by
  refine ⟨fun hp => hp.attempted, fun hall => ⟨h.inv.clicks, fun a w' => answers_of_step h.inv,
    fun s hs loop hloop => steps_le h hs hloop, fun i s hi hended hfailed => ?_, hall⟩⟩
  have hmem := List.mem_of_getElem? hi
  obtain ⟨m, hm, hact⟩ := exists_move (h.inv.sessions s hmem) (h.orderly s hmem) hended hfailed
    (w.advisoryFree i) (w.lockable i)
  refine ⟨m, hm, ?_⟩
  rw [step, hi, Option.bind_some, Option.isSome_map]
  exact hact

/-- A guard is only missed by a commit that takes place. -/
theorem reaches_of_step_eq_none (hstep : step w a = none) : Reaches w a := by
  cases a with
  | moves i m =>
    cases m with
    | commits =>
      intro s hi hheld
      obtain ⟨remaining, hphase⟩ := hheld.counted
      obtain ⟨loop, hloop⟩ := Option.isSome_iff_exists.mp hheld.loop
      rw [step, hi, Option.bind_some, Option.map_eq_none_iff, Session.act, Option.map_eq_none_iff,
        Session.commits, hphase, hloop] at hstep
      cases hstep
    | _ => exact trivial
  | _ => exact trivial

/-- **Every run provisions as it should exactly when no chunk that is held off leaves a stranded
day behind its own.** -/
theorem provisioning_iff (t : ClickTable) (actions : List Action) :
    (∀ pre post w, actions = pre ++ post → run step (.start t) pre = some w → Provisions w) ↔
      Guarded step Reaches (.start t) actions := by
  have hinv : ∀ w a w', Backfilling w → step w a = some w' → Backfilling w' :=
    fun w a w' h hstep => (backfilling_step h hstep).1
  have hguard : Guarded step Reaches (.start t) actions ↔
      ∀ pre post w, actions = pre ++ post → run step (.start t) pre = some w →
        ∀ s ∈ w.sessions, s.Attempts w.table :=
    guarded_iff_holds_throughout_of_enabled (fun w a hstep => reaches_of_step_eq_none hstep) hinv
      (fun w a w' h hP hstep => (backfilling_step h hstep).2 hP) (backfilling_start t)
      fun s hs => absurd hs List.not_mem_nil
  rw [hguard]
  have hreach (pre : List Action) (w : World) (hrun : run step (.start t) pre = some w) :
      Provisions w ↔ ∀ s ∈ w.sessions, s.Attempts w.table :=
    provisions_iff (invariant_of_run hinv pre _ w (backfilling_start t) hrun)
  exact ⟨fun hall pre post w hsplit hrun => (hreach pre w hrun).mp (hall pre post w hsplit hrun),
    fun hall pre post w hsplit hrun => (hreach pre w hrun).mpr (hall pre post w hsplit hrun)⟩

end

/-! ### One contended day -/

def twoDays : ClickTable where
  attached := []
  default := [⟨"first", "acme", 0, false⟩, ⟨"second", "acme", Retention.dayMicros, false⟩]
  dated := []
  leftovers := []
  unattached := by decide
  placed := by decide
  empty := by decide

/-- Chunks of one day, of which the oldest is contended. -/
def contendedFirst : List Action :=
  .backfills (some 1) ::
    [Move.opens, .checks, .advises, .declines, .counts, .commits].map (.moves 0)

/-- **The second day is never tried.** -/
theorem held_off :
    ¬ ∀ (t : ClickTable) (actions : List Action) (w : World),
      run step (.start t) actions = some w → Provisions w := by
  intro h
  have hsome : (run step (.start twoDays) contendedFirst).isSome = true := by decide +kernel
  obtain ⟨w, hw⟩ := Option.isSome_iff_exists.mp hsome
  have hleft : (run step (.start twoDays) contendedFirst).any (fun w =>
      w.sessions.any fun s => s.loop.isSome && s.phase = .ended && s.arrivals = 0 &&
        !(s.tried.contains (1, false)) && decide (1 ∈ w.table.stranded)) = true := by decide +kernel
  rw [hw, Option.any_some, List.any_eq_true] at hleft
  obtain ⟨s, hs, hcheck⟩ := hleft
  simp only [Bool.and_eq_true, decide_eq_true_eq, Bool.not_eq_true', List.contains_eq_mem,
    decide_eq_false_iff_not] at hcheck
  obtain ⟨⟨⟨⟨hloop, hended⟩, hquiet⟩, huntried⟩, hstranded⟩ := hcheck
  exact huntried ((h twoDays contendedFirst w hw).attempted s hs hloop hended hquiet 1 hstranded)

end SnapUrl.Rollup.Provisioning
