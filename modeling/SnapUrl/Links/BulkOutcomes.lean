import SnapUrl.Lib.Scatter
import SnapUrl.Links.BulkAgreement

/-!
# The outcomes of a batch

`bulkCreate` of `apps/api/src/links/links.service.ts` as it keeps its books: maps of errors and of
skips that are keyed by the place of a row, the rows that are prepared with their places, and
an array of results that the three are written into.

* `settleRows`: phase one.  `represents_settleRows`: the maps say what became of each row.
* `bulkCreateAt`: phase two, on the tables of links and of projection operations.
* `Account`: **one outcome for each row, in order; counts that add up; the first valid row that
  asks for a back-half wins; the created rows are stored, and nothing else**.
* `account_iff`: when a batch comes to that.  `long_folder_fails_all`: a row that the database
  refuses.
-/

namespace SnapUrl.Links.Creation

open Domain Lib

/-! ### Phase one -/

/-- `errors`, `skipped` and `prepared`. -/
structure Batch where
  errors : List (Nat × String)
  skipped : List (Nat × String)
  prepared : List (Nat × Prepared)

/-- What became of the row at a place is noted. -/
def Batch.note (b : Batch) (index : Nat) : RowState → Batch
  | .failed error => { b with errors := setKey b.errors index error }
  | .skipped error => { b with skipped := setKey b.skipped index error }
  | .live p => { b with prepared := b.prepared ++ [(index, p)] }

/-- The checks of each row. -/
def prepareRows (e : Environment) (s : State) : Nat → DomainCache → Batch → List Row → Batch
  | _, _, b, [] => b
  | index, cache, b, row :: rows =>
    let prepared := prepareRow e s cache row
    prepareRows e s (index + 1) prepared.2 (b.note index prepared.1) rows

/-- Two rows asking for the same back-half: the errors, with those of the later ones. -/
def claimFirst : List ((String × String) × Nat) → List (Nat × Prepared) → List (Nat × String) →
    List (Nat × String)
  | _, [], errors => errors
  | seen, (index, p) :: items, errors =>
    if p.generated then claimFirst seen items errors
    else
      match seen.lookup p.key with
      | some first => claimFirst seen items (setKey errors index
          ("Row " ++ toString (first + 1) ++ " already asks for /" ++ p.slug ++ " in this batch."))
      | none => claimFirst ((p.key, index) :: seen) items errors

def Batch.excludes (b : Batch) (index : Nat) : Bool :=
  index ∈ b.errors.map (·.1) || index ∈ b.skipped.map (·.1)

def Batch.live (b : Batch) : List (Nat × Prepared) :=
  b.prepared.filter fun item => !b.excludes item.1

/-- The back-halves of the live rows that links have. -/
def Batch.takenPairs (taken : String × String → Bool) (b : Batch) : List (String × String) :=
  (b.live.map (·.2.key)).filter taken

def alreadyExists (p : Prepared) : String :=
  p.input.domain ++ "/" ++ p.slug ++
    " already exists. Skipped — existing back-halves are never overwritten."

def Batch.pass (taken : String × String → Bool) (b : Batch) : Batch where
  errors := b.errors
  skipped :=
    ((b.live.filter fun item => item.2.key ∈ b.takenPairs taken && !item.2.generated).map
      fun item => (item.1, alreadyExists item.2)).foldl
        (fun m entry => setKey m entry.1 entry.2) b.skipped
  prepared := b.prepared.map fun item =>
    if !b.excludes item.1 && (item.2.key ∈ b.takenPairs taken && item.2.generated) then
      (item.1, item.2.redraw)
    else item

/-- The loop, with the passes that are left. -/
def Batch.passes (taken : String × String → Bool) : Nat → Batch → Batch
  | 0, b => b
  | left + 1, b =>
    if b.live.isEmpty then b
    else if (b.takenPairs taken).isEmpty then b
    else if b.live.any fun item => item.2.key ∈ b.takenPairs taken && item.2.generated then
      (b.pass taken).passes taken left
    else b.pass taken

def settleRows (e : Environment) (s : State) (rows : List Row) : Batch :=
  let b := prepareRows e s 0 [] ⟨[], [], []⟩ rows
  { b with errors := claimFirst [] b.prepared b.errors }.passes s.taken SLUG_RETRY_LIMIT

/-! ### What the maps say -/

def RowState.failedText : RowState → Option String
  | .failed error => some error
  | _ => none

def RowState.skippedText : RowState → Option String
  | .skipped error => some error
  | _ => none

/-- **The maps say of each row what became of it.** -/
structure Represents (states : List RowState) (b : Batch) : Prop where
  errors : b.errors.Perm (indexed RowState.failedText 0 states)
  skipped : b.skipped.Perm (indexed RowState.skippedText 0 states)
  live : b.live = indexed RowState.prepared 0 states

section

variable {e : Environment} {s : State} {taken : String × String → Bool}

theorem prepareRows_eq {n : Nat} {cache : DomainCache} {b : Batch} (rows : List Row)
    (herrors : ∀ k ∈ b.errors.map (·.1), k < n) (hskipped : ∀ k ∈ b.skipped.map (·.1), k < n) :
    prepareRows e s n cache b rows =
      ⟨b.errors ++ indexed RowState.failedText n (prepare e s cache rows),
        b.skipped ++ indexed RowState.skippedText n (prepare e s cache rows),
        b.prepared ++ indexed RowState.prepared n (prepare e s cache rows)⟩ := by
  induction rows generalizing n cache b with
  | nil => simp [prepareRows, prepare, indexed]
  | cons row rows ih =>
    have hout : ∀ {m : List (Nat × String)}, (∀ k ∈ m.map (·.1), k < n) → n ∉ m.map (·.1) :=
      fun hlt hmem => absurd (hlt n hmem) (lt_irrefl n)
    have hnext : ∀ {m : List (Nat × String)}, (∀ k ∈ m.map (·.1), k < n) →
        ∀ k ∈ m.map (·.1), k < n + 1 := fun hlt k hk => Nat.lt_succ_of_lt (hlt k hk)
    have hadd : ∀ {m : List (Nat × String)} {text : String}, (∀ k ∈ m.map (·.1), k < n) →
        ∀ k ∈ (m ++ [(n, text)]).map (·.1), k < n + 1 := by
      intro m text hlt k hk
      rw [List.map_append, List.mem_append] at hk
      rcases hk with hk | hk
      · exact hnext hlt k hk
      · rw [List.mem_singleton.mp hk]
        exact Nat.lt_succ_self n
    rw [prepareRows, prepare]
    cases (prepareRow e s cache row).1 with
    | failed error =>
      rw [Batch.note, setKey_of_notMem _ (hout herrors)]
      refine (ih (b := ⟨b.errors ++ [(n, error)], b.skipped, b.prepared⟩) (hadd herrors)
        (hnext hskipped)).trans ?_
      simp [indexed, RowState.failedText, RowState.skippedText, RowState.prepared]
    | skipped error =>
      rw [Batch.note, setKey_of_notMem _ (hout hskipped)]
      refine (ih (b := ⟨b.errors, b.skipped ++ [(n, error)], b.prepared⟩) (hnext herrors)
        (hadd hskipped)).trans ?_
      simp [indexed, RowState.failedText, RowState.skippedText, RowState.prepared]
    | live p =>
      refine (ih (b := ⟨b.errors, b.skipped, b.prepared ++ [(n, p)]⟩) (hnext herrors)
        (hnext hskipped)).trans ?_
      simp [indexed, RowState.failedText, RowState.skippedText, RowState.prepared]

/-- What the second loop adds to the errors. -/
structure ClaimedFirst (n : Nat) (states states' : List RowState) (new : List (Nat × String)) :
    Prop where
  failed :
    (indexed RowState.failedText n states').Perm (indexed RowState.failedText n states ++ new)
  skipped : indexed RowState.skippedText n states' = indexed RowState.skippedText n states
  prepared : indexed RowState.prepared n states' =
    (indexed RowState.prepared n states).filter fun item => item.1 ∉ new.map (·.1)
  le : ∀ k ∈ new.map (·.1), n ≤ k

theorem ClaimedFirst.keep {n : Nat} {states states' : List RowState} {new : List (Nat × String)}
    (h : ClaimedFirst (n + 1) states states' new) (row : RowState) :
    ClaimedFirst n (row :: states) (row :: states') new where
  failed := by
    rw [indexed, indexed, List.append_assoc]
    exact h.failed.append_left _
  skipped := by rw [indexed, indexed, h.skipped]
  prepared := by
    rw [indexed, indexed, List.filter_append, h.prepared]
    congr 1
    refine (List.filter_eq_self.mpr fun item hitem => ?_).symm
    obtain ⟨p, -, rfl⟩ := Option.map_eq_some_iff.mp (Option.mem_toList.mp hitem)
    rw [decide_eq_true_eq]
    exact fun hmem => absurd (h.le n hmem) (Nat.not_succ_le_self n)
  le k hk := Nat.le_of_succ_le (h.le k hk)

/-- A row that comes too late. -/
theorem ClaimedFirst.fail {n : Nat} {states states' : List RowState} {new : List (Nat × String)}
    (h : ClaimedFirst (n + 1) states states' new) (p : Prepared) (error : String) :
    ClaimedFirst n (.live p :: states) (.failed error :: states') ((n, error) :: new) where
  failed := by
    change ((n, error) :: indexed RowState.failedText (n + 1) states').Perm
      (indexed RowState.failedText (n + 1) states ++ (n, error) :: new)
    exact (h.failed.cons _).trans List.perm_middle.symm
  skipped := h.skipped
  prepared := by
    change indexed RowState.prepared (n + 1) states' =
      ((n, p) :: indexed RowState.prepared (n + 1) states).filter _
    rw [h.prepared, List.filter_cons_of_neg (by simp)]
    refine List.filter_congr fun item hitem => ?_
    have hlt := le_of_mem_indexed hitem
    rw [decide_eq_decide, List.map_cons, List.mem_cons, not_or]
    exact (and_iff_right (by omega)).symm
  le k hk := by
    rw [List.map_cons, List.mem_cons] at hk
    rcases hk with rfl | hk
    · exact le_refl _
    · exact Nat.le_of_succ_le (h.le k hk)

theorem claimFirst_eq (n : Nat) (seen : List ((String × String) × Nat)) (states : List RowState)
    {errors : List (Nat × String)} (hlt : ∀ item ∈ indexed RowState.prepared n states,
      item.1 ∉ errors.map (·.1)) :
    ∃ new, claimFirst seen (indexed RowState.prepared n states) errors = errors ++ new ∧
      ClaimedFirst n states (claimSlugs n seen states) new := by
  induction states generalizing n seen errors with
  | nil =>
    exact ⟨[], (List.append_nil errors).symm, by simp [claimSlugs, indexed], rfl, rfl, by simp⟩
  | cons row states ih =>
    have hother : row.prepared = none → ∃ new,
        claimFirst seen (indexed RowState.prepared n (row :: states)) errors = errors ++ new ∧
          ClaimedFirst n (row :: states) (row :: claimSlugs (n + 1) seen states) new := by
      intro hnone
      rw [indexed_cons_none _ hnone] at hlt ⊢
      obtain ⟨new, hnew, hclaimed⟩ := ih (n + 1) seen hlt
      exact ⟨new, hnew, hclaimed.keep row⟩
    cases row with
    | failed error => simpa [claimSlugs] using hother rfl
    | skipped error => simpa [claimSlugs] using hother rfl
    | live p =>
      rw [indexed_cons_some (f := RowState.prepared) _ rfl] at hlt ⊢
      have hrest : ∀ item ∈ indexed RowState.prepared (n + 1) states, item.1 ∉ errors.map (·.1) :=
        fun item hitem => hlt item (List.mem_cons_of_mem _ hitem)
      rw [claimFirst, claimSlugs]
      split
      · obtain ⟨new, hnew, hclaimed⟩ := ih (n + 1) seen hrest
        exact ⟨new, hnew, hclaimed.keep _⟩
      · cases seen.lookup p.key with
        | none =>
          obtain ⟨new, hnew, hclaimed⟩ := ih (n + 1) ((p.key, n) :: seen) hrest
          exact ⟨new, hnew, hclaimed.keep _⟩
        | some first =>
          have hout : n ∉ errors.map (·.1) := hlt (n, p) List.mem_cons_self
          dsimp only
          rw [setKey_of_notMem _ hout]
          obtain ⟨new, hnew, hclaimed⟩ := @ih (n + 1) seen (errors ++ [(n, _)])
            fun item hitem => by
              rw [List.map_append, List.mem_append, not_or]
              refine ⟨hrest item hitem, fun hmem => ?_⟩
              have hle := le_of_mem_indexed hitem
              have heq : item.1 = n := by simpa using hmem
              omega
          refine ⟨(n, _) :: new, ?_, hclaimed.fail p _⟩
          exact hnew.trans (by rw [List.append_assoc, List.singleton_append])

theorem represents_claimed {rows : List Row} {states : List RowState}
    (hstates : states = prepare e s [] rows) :
    Represents (claimSlugs 0 [] states) { prepareRows e s 0 [] ⟨[], [], []⟩ rows with
      errors := claimFirst [] (prepareRows e s 0 [] ⟨[], [], []⟩ rows).prepared
        (prepareRows e s 0 [] ⟨[], [], []⟩ rows).errors } := by
  have hrows := @prepareRows_eq e s 0 [] ⟨[], [], []⟩ rows (by simp) (by simp)
  rw [hrows, ← hstates]
  simp only [List.nil_append]
  have hout : ∀ item ∈ indexed RowState.prepared 0 states,
      item.1 ∉ (indexed RowState.failedText 0 states).map (·.1) :=
    fun item hitem => notMem_indexed (fun row hrow => by cases row <;> simp_all [RowState.prepared,
      RowState.failedText]) hitem
  have hout' : ∀ item ∈ indexed RowState.prepared 0 states,
      item.1 ∉ (indexed RowState.skippedText 0 states).map (·.1) :=
    fun item hitem => notMem_indexed (fun row hrow => by cases row <;> simp_all [RowState.prepared,
      RowState.skippedText]) hitem
  obtain ⟨new, hnew, hclaimed⟩ := claimFirst_eq 0 [] states hout
  refine ⟨?_, ?_, ?_⟩
  · change (claimFirst _ _ _).Perm _
    rw [hnew]
    exact hclaimed.failed.symm
  · exact (hclaimed.skipped ▸ List.Perm.refl _)
  · rw [hclaimed.prepared, Batch.live]
    refine List.filter_congr fun item hitem => ?_
    simp only [Batch.excludes, hnew, List.map_append, List.mem_append, hout item hitem,
      hout' item hitem, false_or, decide_false, Bool.or_false, decide_not]

theorem any_indexed (f : RowState → Bool) (g : Prepared → Bool) (n : Nat) (states : List RowState)
    (hlive : ∀ p, f (.live p) = g p)
    (hother : ∀ row : RowState, row.prepared = none → f row = false) :
    (indexed RowState.prepared n states).any (fun item => g item.2) = states.any f := by
  induction states generalizing n with
  | nil => rfl
  | cons row states ih =>
    rw [List.any_cons, ← ih (n + 1)]
    cases hrow : row.prepared with
    | none => rw [indexed_cons_none _ hrow, hother row hrow, Bool.false_or]
    | some p =>
      have hp : row = .live p := by cases row <;> simp_all [RowState.prepared]
      rw [indexed_cons_some _ hrow, List.any_cons, hp, hlive]

/-- The live rows that a pass skips. -/
def skips (taken : String × String → Bool) (item : Nat × Prepared) : Bool :=
  taken item.2.key && !item.2.generated

def redrawn (taken : String × String → Bool) (item : Nat × Prepared) : Nat × Prepared :=
  if taken item.2.key && item.2.generated then (item.1, item.2.redraw) else item

/-- A pass, row by row. -/
theorem indexed_pass (taken : String × String → Bool) (n : Nat) (states : List RowState) :
    indexed RowState.failedText n (states.map (·.pass taken)) =
        indexed RowState.failedText n states ∧
      (indexed RowState.skippedText n (states.map (·.pass taken))).Perm
        (indexed RowState.skippedText n states ++
          ((indexed RowState.prepared n states).filter (skips taken)).map fun item =>
            (item.1, alreadyExists item.2)) ∧
      indexed RowState.prepared n (states.map (·.pass taken)) =
        ((indexed RowState.prepared n states).filter fun item => !skips taken item).map
          (redrawn taken) := by
  induction states generalizing n with
  | nil => exact ⟨rfl, List.Perm.refl _, rfl⟩
  | cons row states ih =>
    obtain ⟨hfailed, hskipped, hprepared⟩ := ih (n + 1)
    rw [List.map_cons]
    cases row with
    | failed error =>
      refine ⟨congrArg ((n, error) :: ·) hfailed, hskipped, hprepared⟩
    | skipped error =>
      refine ⟨hfailed, hskipped.cons (n, error), hprepared⟩
    | live p =>
      rw [indexed_cons_some (f := RowState.prepared) states rfl]
      cases htaken : taken p.key with
      | false =>
        have hpass : (RowState.live p).pass taken = .live p :=
          pass_of_not_isTaken (by simpa [RowState.isTaken] using htaken)
        rw [hpass, List.filter_cons_of_neg (by simp [skips, htaken]),
          List.filter_cons_of_pos (by simp [skips, htaken]), List.map_cons]
        refine ⟨hfailed, hskipped, ?_⟩
        rw [redrawn, if_neg (by simp [htaken])]
        exact congrArg ((n, p) :: ·) hprepared
      | true =>
        cases hgenerated : p.generated with
        | true =>
          have hpass : (RowState.live p).pass taken = .live p.redraw := by
            rw [RowState.pass, if_pos htaken, if_pos hgenerated]
          rw [hpass, List.filter_cons_of_neg (by simp [skips, hgenerated]),
            List.filter_cons_of_pos (by simp [skips, hgenerated]), List.map_cons]
          refine ⟨hfailed, hskipped, ?_⟩
          rw [redrawn, if_pos (by simp [htaken, hgenerated])]
          exact congrArg ((n, p.redraw) :: ·) hprepared
        | false =>
          have hpass : (RowState.live p).pass taken = .skipped (alreadyExists p) := by
            rw [RowState.pass, if_pos htaken, if_neg (by simp [hgenerated])]
            rfl
          rw [hpass, List.filter_cons_of_pos (by simp [skips, htaken, hgenerated]),
            List.filter_cons_of_neg (by simp [skips, htaken, hgenerated]), List.map_cons]
          refine ⟨hfailed, ?_, hprepared⟩
          exact (hskipped.cons (n, alreadyExists p)).trans List.perm_middle.symm

theorem mem_takenPairs {b : Batch} {item : Nat × Prepared} (h : item ∈ b.live) :
    item.2.key ∈ b.takenPairs taken ↔ taken item.2.key = true := by
  rw [Batch.takenPairs, List.mem_filter]
  exact and_iff_right (List.mem_map.mpr ⟨item, h, rfl⟩)

theorem not_excludes_of_mem_live {b : Batch} {item : Nat × Prepared} (h : item ∈ b.live) :
    b.excludes item.1 = false := by
  simpa using (List.mem_filter.mp h).2

/-- The rows that a pass skips are new among those that were skipped. -/
theorem skipped_pass {states : List RowState} {b : Batch} (h : Represents states b) :
    (b.pass taken).skipped = b.skipped ++ (b.live.filter (skips taken)).map fun item =>
      (item.1, alreadyExists item.2) := by
  have hfilter : (b.live.filter fun item => item.2.key ∈ b.takenPairs taken && !item.2.generated) =
      b.live.filter (skips taken) :=
    List.filter_congr fun item hitem => by simp [skips, mem_takenPairs hitem]
  rw [Batch.pass, hfilter]
  refine foldl_setKey ?_ fun entry hentry => ?_
  · have hkeys := (nodup_indexed RowState.prepared 0 states).sublist
      (List.Sublist.map (·.1) (List.filter_sublist (p := skips taken)))
    rw [← h.live] at hkeys
    rwa [List.map_map]
  · obtain ⟨item, hitem, rfl⟩ := List.mem_map.mp hentry
    have hout := not_excludes_of_mem_live (List.mem_of_mem_filter hitem)
    rw [Batch.excludes, Bool.or_eq_false_iff, decide_eq_false_iff_not, decide_eq_false_iff_not]
      at hout
    exact hout.2

/-- A row that is still live after a pass was live before, and was not skipped. -/
theorem excludes_pass {states : List RowState} {b : Batch} (h : Represents states b)
    {item : Nat × Prepared} (hitem : item ∈ b.prepared) :
    (!(b.pass taken).excludes item.1) = (!skips taken item && !b.excludes item.1) := by
  have hkeys : (b.pass taken).excludes item.1 = (b.excludes item.1 ||
      decide (item.1 ∈ (b.live.filter (skips taken)).map (·.1))) := by
    rw [Batch.excludes, skipped_pass h, Batch.excludes, List.map_append, List.map_map,
      Bool.or_assoc]
    simp only [List.mem_append, Bool.decide_or]
    rfl
  rw [hkeys]
  cases hout : b.excludes item.1 with
  | true => simp
  | false =>
    have hlive : item ∈ b.live := List.mem_filter.mpr ⟨hitem, by rw [hout]; rfl⟩
    have hmem : item.1 ∈ (b.live.filter (skips taken)).map (·.1) ↔ skips taken item = true := by
      constructor
      · intro hmem
        obtain ⟨other, hother, heq⟩ := List.mem_map.mp hmem
        have hnodup : (b.live.map (·.1)).Nodup := h.live ▸ nodup_indexed _ 0 states
        rw [← List.inj_on_of_nodup_map hnodup (List.mem_of_mem_filter hother) hlive heq]
        exact (List.mem_filter.mp hother).2
      · exact fun hskips => List.mem_map.mpr ⟨item, List.mem_filter.mpr ⟨hlive, hskips⟩, rfl⟩
    rw [Bool.false_or, Bool.not_false, Bool.and_true]
    cases hskips : skips taken item with
    | true => rw [decide_eq_true (hmem.mpr hskips)]
    | false => rw [decide_eq_false fun hin => Bool.eq_false_iff.mp hskips (hmem.mp hin)]

theorem live_pass {states : List RowState} {b : Batch} (h : Represents states b) :
    (b.pass taken).live = (b.live.filter fun item => !skips taken item).map (redrawn taken) := by
  have hindex : ∀ item : Nat × Prepared,
      (if !b.excludes item.1 && (item.2.key ∈ b.takenPairs taken && item.2.generated) then
        (item.1, item.2.redraw) else item).1 = item.1 := by
    intro item
    split
    · rfl
    · rfl
  have hkeep : (b.prepared.filter fun item => !(b.pass taken).excludes item.1) =
      b.live.filter fun item => !skips taken item := by
    rw [Batch.live, List.filter_filter]
    exact List.filter_congr fun item hitem => excludes_pass h hitem
  rw [Batch.live]
  change (b.prepared.map _).filter _ = _
  rw [List.filter_map]
  simp only [Function.comp_def, hindex]
  rw [hkeep]
  refine List.map_congr_left fun item hitem => ?_
  have hlive := List.mem_of_mem_filter hitem
  simp [redrawn, not_excludes_of_mem_live hlive, mem_takenPairs hlive]

theorem represents_pass {states : List RowState} {b : Batch} (h : Represents states b) :
    Represents (states.map (·.pass taken)) (b.pass taken) := by
  obtain ⟨hfailed, hskipped, hprepared⟩ := indexed_pass taken 0 states
  refine ⟨?_, ?_, ?_⟩
  · rw [hfailed]
    exact h.errors
  · rw [skipped_pass h, h.live]
    exact (h.skipped.append_right _).trans hskipped.symm
  · rw [live_pass h, hprepared, h.live]

/-- **The maps keep saying what became of each row**, pass by pass. -/
theorem represents_passes (n : Nat) {states : List RowState} {b : Batch} (h : Represents states b) :
    Represents (passes taken n states) (b.passes taken n) := by
  induction n generalizing states b with
  | zero => exact h
  | succ n ih =>
    have htaken : (b.live.any fun item => taken item.2.key) =
        states.any (RowState.isTaken taken) := by
      rw [h.live]
      exact any_indexed _ (fun p => taken p.key) 0 states (fun _ => rfl)
        fun row hrow => by cases row <;> simp_all [RowState.prepared, RowState.isTaken]
    have hredraws : (b.live.any fun item => item.2.key ∈ b.takenPairs taken && item.2.generated) =
        states.any (RowState.redraws taken) := by
      have hlive : (b.live.any fun item => item.2.key ∈ b.takenPairs taken && item.2.generated) =
          b.live.any fun item => taken item.2.key && item.2.generated := by
        rw [Bool.eq_iff_iff, List.any_eq_true, List.any_eq_true]
        refine exists_congr fun item => and_congr_right fun hitem => ?_
        simp [mem_takenPairs hitem]
      rw [hlive, h.live]
      exact any_indexed _ (fun p => taken p.key && p.generated) 0 states (fun _ => rfl)
        fun row hrow => by cases row <;> simp_all [RowState.prepared, RowState.redraws]
    rw [passes, Batch.passes, ← htaken, ← hredraws]
    by_cases hempty : b.live = []
    · rw [if_pos (by simp [hempty]), if_pos (by simp [hempty])]
      exact h
    rw [if_neg (c := b.live.isEmpty = true) (by simpa using hempty)]
    cases hany : b.live.any fun item => taken item.2.key with
    | false =>
      rw [if_pos (by rfl), if_pos]
      · exact h
      · rw [List.any_eq_false] at hany
        rw [Batch.takenPairs, List.isEmpty_iff, List.filter_eq_nil_iff]
        intro key hkey
        obtain ⟨item, hitem, rfl⟩ := List.mem_map.mp hkey
        exact hany item hitem
    | true =>
      obtain ⟨item, hitem, htrue⟩ := List.any_eq_true.mp hany
      have hpairs : ¬ (b.takenPairs taken).isEmpty = true := by
        rw [Batch.takenPairs, List.isEmpty_iff, List.filter_eq_nil_iff]
        exact fun hall => hall item.2.key (List.mem_map.mpr ⟨item, hitem, rfl⟩) htrue
      rw [if_neg (by simp), if_neg hpairs]
      split
      · exact ih (represents_pass h)
      · exact represents_pass h

theorem represents_settleRows (rows : List Row) :
    Represents (finalRows e s rows) (settleRows e s rows) :=
  represents_passes SLUG_RETRY_LIMIT (represents_claimed rfl)

end

/-! ### Phase two -/

inductive Operation where
  | upsert
  | delete
deriving DecidableEq, Repr

/-- A row of `projection_outbox`. -/
structure OutboxRow where
  linkId : Nat
  operation : Operation
deriving DecidableEq, Repr

/-- The tables that a batch writes; the id of a link is its place in the table. -/
structure Tables where
  state : State
  outbox : List OutboxRow

/-- An entry of the array of results. -/
structure IndexedOutcome where
  index : Nat
  outcome : BulkLinkOutcome
deriving DecidableEq, Repr

structure BulkResult where
  created : Nat
  skipped : Nat
  failed : Nat
  /-- With the places that nothing was written to. -/
  results : List (Option IndexedOutcome)
deriving DecidableEq, Repr

/-- The transaction: the links, in the order of the rows, and one operation for each of them. -/
def insertRows (e : Environment) (t : Tables) (toInsert : List Prepared) :
    Except HttpError (List Nat × Tables) := do
  let fallbackRedirect := fallbackRedirectFor t.state toInsert
  insertAll e t.state toInsert
  let ids := List.range' t.state.links.length toInsert.length
  let links := toInsert.map fun p => p.values e t.state fallbackRedirect
  .ok (ids, ⟨{ t.state with links := t.state.links ++ links }, t.outbox ++ ids.map (⟨·, .upsert⟩)⟩)

/-- A link of the workspace that no bio page owns. -/
def getFrom (s : State) (id : Nat) : Except HttpError StoredLink :=
  match s.links[id]? with
  | some link =>
    if link.workspaceId = s.workspaceId ∧ link.managed = false then .ok link
    else .error ⟨404, ["That link doesn't exist, or isn't in this workspace."]⟩
  | none => .error ⟨404, ["That link doesn't exist, or isn't in this workspace."]⟩

/-- The outcomes of the rows that were stored, with their links as they are read back. -/
def readBack (s : State) :
    List (Nat × Nat × Prepared) → Except HttpError (List (Nat × IndexedOutcome))
  | [] => .ok []
  | (id, index, _) :: items => do
    let link ← getFrom s id
    let outcomes ← readBack s items
    .ok ((index, ⟨index, .created link⟩) :: outcomes)

def destinationOf (rows : List Row) (index : Nat) : String :=
  (rows[index]?.bind (·.destination)).getD ""

/-- The outcomes of the rows that were not. -/
def refusals (rows : List Row) (outcome : String → String → BulkLinkOutcome)
    (texts : List (Nat × String)) : List (Nat × IndexedOutcome) :=
  texts.map fun text => (text.1, ⟨text.1, outcome (destinationOf rows text.1) text.2⟩)

/-- **A batch, on the tables**, which an error leaves as they are unless the links are there. -/
def bulkCreateAt (e : Environment) (t : Tables) (rows : List Row) :
    Except HttpError BulkResult × Tables :=
  match assertNewAccountLinkCap e.now t.state with
  | .error error => (.error error, t)
  | .ok () =>
    let b := settleRows e t.state rows
    match insertRows e t (b.live.map (·.2)) with
    | .error error => (.error error, t)
    | .ok (ids, stored) =>
      ((readBack stored.state (ids.zip b.live)).map fun created =>
        { created := ids.length
          skipped := b.skipped.length
          failed := b.errors.length
          results := scatter (scatter (scatter (List.replicate rows.length none) created)
            (refusals rows .skipped b.skipped)) (refusals rows .failed b.errors) }, stored)

section

variable {e : Environment} {t : Tables} {rows : List Row}

/-- Every link that was just stored is read back. -/
theorem readBack_eq {s : State} (value : Prepared → StoredLink) (items : List (Nat × Prepared))
    (pre post : List StoredLink)
    (hlinks : s.links = pre ++ items.map (fun item => value item.2) ++ post)
    (hvalue : ∀ p, (value p).workspaceId = s.workspaceId ∧ (value p).managed = false) :
    readBack s ((List.range' pre.length items.length).zip items) =
      .ok (items.map fun item => (item.1, ⟨item.1, .created (value item.2)⟩)) := by
  induction items generalizing pre with
  | nil => rfl
  | cons item items ih =>
    have hget : getFrom s pre.length = .ok (value item.2) := by
      have hlink : s.links[pre.length]? = some (value item.2) := by
        rw [hlinks, List.append_assoc, List.getElem?_append_right le_rfl, Nat.sub_self]
        rfl
      rw [getFrom, hlink]
      exact if_pos (hvalue item.2)
    have hrest := ih (pre ++ [value item.2]) (by rw [hlinks]; simp)
    rw [List.length_append, List.length_singleton] at hrest
    rw [List.length_cons, List.range'_succ, List.zip_cons_cons, readBack, hget, hrest]
    rfl

theorem map_fst_refusals (rows : List Row) (outcome : String → String → BulkLinkOutcome)
    (texts : List (Nat × String)) :
    (refusals rows outcome texts).map (·.1) = texts.map (·.1) := by
  rw [refusals, List.map_map]
  rfl

/-- What a row came to stands at its place. -/
theorem getElem?_results {states : List RowState} {b : Batch} (h : Represents states b)
    (fallbackRedirect : RedirectType) {i : Nat} {row : Row} {state : RowState}
    (hrow : rows[i]? = some row) (hstate : states[i]? = some state) :
    (scatter (scatter (scatter (List.replicate rows.length none)
        (b.live.map fun item => (item.1, ⟨item.1, .created (item.2.values e t.state
          fallbackRedirect)⟩)))
        (refusals rows .skipped b.skipped)) (refusals rows .failed b.errors))[i]? =
      some (some ⟨i, outcome e t.state fallbackRedirect row state⟩) := by
  have hi : i < rows.length := (List.getElem?_eq_some_iff.mp hrow).1
  have hdestination : destinationOf rows i = row.destination.getD "" := by
    rw [destinationOf, hrow, Option.bind_some]
  have hkeys : ∀ {f : RowState → Option String} {m : List (Nat × String)},
      m.Perm (indexed f 0 states) → (m.map (·.1)).Nodup ∧
        ((∃ text, (i, text) ∈ m) ↔ ∃ text, f state = some text) := by
    intro f m hperm
    refine ⟨((hperm.map _).nodup_iff).mpr (nodup_indexed f 0 states), exists_congr fun text => ?_⟩
    rw [hperm.mem_iff, mem_indexed_zero]
    constructor
    · rintro ⟨other, hother, hf⟩
      rwa [Option.some.inj (hother.symm.trans hstate)] at hf
    · exact fun hf => ⟨state, hstate, hf⟩
  have hnotMem : ∀ {f : RowState → Option String} {m : List (Nat × String)},
      m.Perm (indexed f 0 states) → f state = none → i ∉ m.map (·.1) := by
    intro f m hperm hnone hmem
    obtain ⟨entry, hentry, rfl⟩ := List.mem_map.mp hmem
    obtain ⟨text, htext⟩ := (hkeys hperm).2.mp ⟨entry.2, hentry⟩
    rw [hnone] at htext
    cases htext
  cases state with
  | failed error =>
    have hmem : (i, error) ∈ b.errors :=
      h.errors.mem_iff.mpr (mem_indexed_zero.mpr ⟨_, hstate, rfl⟩)
    rw [outcome, ← hdestination]
    refine getElem?_scatter_of_mem ?_ (List.mem_map.mpr ⟨(i, error), hmem, rfl⟩) (by simpa using hi)
    rw [map_fst_refusals]
    exact (hkeys h.errors).1
  | skipped error =>
    have hmem : (i, error) ∈ b.skipped :=
      h.skipped.mem_iff.mpr (mem_indexed_zero.mpr ⟨_, hstate, rfl⟩)
    rw [outcome, ← hdestination, getElem?_scatter_of_notMem]
    · refine getElem?_scatter_of_mem ?_ (List.mem_map.mpr ⟨(i, error), hmem, rfl⟩)
        (by simpa using hi)
      rw [map_fst_refusals]
      exact (hkeys h.skipped).1
    · rw [map_fst_refusals]
      exact hnotMem h.errors rfl
  | live p =>
    have hmem : (i, p) ∈ b.live := h.live ▸ mem_indexed_zero.mpr ⟨_, hstate, rfl⟩
    rw [outcome, getElem?_scatter_of_notMem, getElem?_scatter_of_notMem]
    · refine getElem?_scatter_of_mem ?_ (List.mem_map.mpr ⟨(i, p), hmem, rfl⟩) (by simpa using hi)
      rw [List.map_map]
      exact h.live ▸ nodup_indexed _ 0 states
    · rw [map_fst_refusals]
      exact hnotMem h.skipped rfl
    · rw [map_fst_refusals]
      exact hnotMem h.errors rfl

/-- The array of results, with no place left out. -/
def placed (outcomes : List BulkLinkOutcome) : List (Option IndexedOutcome) :=
  outcomes.zipIdx.map fun outcome => some ⟨outcome.2, outcome.1⟩

theorem getElem?_placed (outcomes : List BulkLinkOutcome) (i : Nat) :
    (placed outcomes)[i]? = outcomes[i]?.map fun outcome => some ⟨i, outcome⟩ := by
  rw [placed, List.getElem?_map, List.getElem?_zipIdx, Option.map_map, Nat.zero_add]
  rfl

theorem length_finalRows (e : Environment) (s : State) (rows : List Row) :
    (finalRows e s rows).length = rows.length := by
  rw [← length_contend (e := e) (s := s) [] rows, ← prepared_finalRows, List.length_map]

/-- The rows that are left to insert. -/
theorem map_snd_live {s : State} :
    (settleRows e s rows).live.map (·.2) = contenders e s rows := by
  rw [(represents_settleRows rows).live, map_snd_indexed, contenders, ← prepared_finalRows,
    List.reduceOption, List.filterMap_map]
  rfl

/-- What a batch leaves in the tables. -/
def Tables.stored (t : Tables) (outcomes : List BulkLinkOutcome) : Tables where
  state := { t.state with links := t.state.links ++ outcomes.filterMap (·.link) }
  outbox := t.outbox ++
    (List.range' t.state.links.length (outcomes.filterMap (·.link)).length).map (⟨·, .upsert⟩)

/-- **The books come to what became of each row.** -/
theorem bulkCreateAt_eq (e : Environment) (t : Tables) (rows : List Row) :
    bulkCreateAt e t rows =
      match bulkCreate e t.state rows with
      | .error error => (.error error, t)
      | .ok result =>
        (.ok ⟨result.created, result.skipped, result.failed, placed result.results⟩,
          t.stored result.results) := by
  have hrep := represents_settleRows (e := e) (s := t.state) rows
  have hprepared := prepared_finalRows (e := e) (s := t.state) rows
  have htoInsert : ((finalRows e t.state rows).map (·.prepared)).reduceOption =
      contenders e t.state rows := by rw [hprepared, contenders]
  set fallbackRedirect := fallbackRedirectFor t.state (contenders e t.state rows) with hfallback
  set states := finalRows e t.state rows with hstates
  have houtcomes : (List.zipWith (outcome e t.state fallbackRedirect) rows states).filterMap
      (·.link) = (contenders e t.state rows).map (·.values e t.state fallbackRedirect) := by
    have hmap := map_zipWith_outcome (e := e) (s := t.state) fallbackRedirect
      (length_finalRows e t.state rows).symm
    rw [← hstates, hprepared] at hmap
    have hreduced := congrArg List.reduceOption hmap
    rw [List.reduceOption_map] at hreduced
    rw [contenders, ← hreduced, List.reduceOption, List.filterMap_map]
    rfl
  have hlive : (settleRows e t.state rows).live.length = (contenders e t.state rows).length := by
    rw [← map_snd_live, List.length_map]
  have hread := readBack_eq
    (s := { t.state with
      links := t.state.links ++
        (contenders e t.state rows).map (·.values e t.state fallbackRedirect) })
    (·.values e t.state fallbackRedirect) (settleRows e t.state rows).live t.state.links []
    (by rw [List.append_nil, ← map_snd_live, List.map_map]; rfl) fun p => ⟨rfl, rfl⟩
  have hresults : scatter (scatter (scatter (List.replicate rows.length none)
      ((settleRows e t.state rows).live.map fun item =>
        (item.1, ⟨item.1, .created (item.2.values e t.state fallbackRedirect)⟩)))
      (refusals rows .skipped (settleRows e t.state rows).skipped))
      (refusals rows .failed (settleRows e t.state rows).errors) =
        placed (List.zipWith (outcome e t.state fallbackRedirect) rows states) := by
    refine List.ext_getElem? fun i => ?_
    rw [getElem?_placed, List.getElem?_zipWith]
    cases hrow : rows[i]? with
    | none =>
      have hle := List.getElem?_eq_none_iff.mp hrow
      exact List.getElem?_eq_none_iff.mpr (by simpa using hle)
    | some row =>
      have hi : i < states.length := by
        rw [hstates, length_finalRows]
        exact (List.getElem?_eq_some_iff.mp hrow).1
      have hstate := List.getElem?_eq_getElem hi
      rw [hstate]
      exact getElem?_results hrep fallbackRedirect hrow hstate
  have hskipped : (settleRows e t.state rows).skipped.length = states.countP isSkipped := by
    rw [hrep.skipped.length_eq, length_indexed]
    exact List.countP_congr fun row _ => by cases row <;> simp [RowState.skippedText, isSkipped]
  have hfailed : (settleRows e t.state rows).errors.length = states.countP isFailed := by
    rw [hrep.errors.length_eq, length_indexed]
    exact List.countP_congr fun row _ => by cases row <;> simp [RowState.failedText, isFailed]
  rw [hlive] at hread
  simp only [bulkCreateAt, bulkCreate, insertRows, map_snd_live, ← hstates, htoInsert, ← hfallback]
  cases assertNewAccountLinkCap e.now t.state with
  | error error => rfl
  | ok u =>
    cases insertAll e t.state (contenders e t.state rows) with
    | error error => rfl
    | ok u =>
      simp only [bind, Except.bind, hread, Except.map, hresults, hskipped, hfailed,
        List.length_range', Tables.stored, houtcomes, List.length_map]

/-! ### The account -/

def isCreated (outcome : BulkLinkOutcome) : Bool := outcome.link.isSome

/-- An entry of the results is there and of a kind. -/
def IndexedOutcome.counts (kind : BulkLinkOutcome → Bool) (result : Option IndexedOutcome) : Bool :=
  result.any fun outcome => kind outcome.outcome

def BulkLinkOutcome.isSkipped : BulkLinkOutcome → Bool
  | .skipped _ _ => true
  | _ => false

def BulkLinkOutcome.isFailed : BulkLinkOutcome → Bool
  | .failed _ _ => true
  | _ => false

/-- The row is valid, and its back-half is drawn, or neither a link has it nor an earlier valid row
asks for it. -/
def Wins (e : Environment) (s : State) (rows : List Row) (seen : List (String × String)) (j : Nat) :
    Prop :=
  ∃ row p, rows[j]? = some row ∧ passing e s row = some p ∧ (p.generated = false →
    s.taken p.key = false ∧ p.key ∉ seen ∧ ∀ i < j, ∀ row' p', rows[i]? = some row' →
      passing e s row' = some p' → p'.generated = false → p'.key ≠ p.key)

/-- **What a batch reports, and what it leaves in the tables.** -/
structure Account (e : Environment) (t t' : Tables) (rows : List Row) (result : BulkResult) :
    Prop where
  order : result.results.map (fun outcome => outcome.map (·.index)) =
    (List.range rows.length).map some
  created : result.created = result.results.countP (IndexedOutcome.counts isCreated)
  skipped : result.skipped = result.results.countP (IndexedOutcome.counts (·.isSkipped))
  failed : result.failed = result.results.countP (IndexedOutcome.counts (·.isFailed))
  total : result.created + result.skipped + result.failed = rows.length
  wins : ∀ j, (∃ link, result.results[j]? = some (some ⟨j, .created link⟩)) ↔
    Wins e t.state rows [] j
  links : t'.state = { t.state with
    links :=
      t.state.links ++ result.results.filterMap fun outcome => outcome.bind (·.outcome.link) }
  outbox : t'.outbox = t.outbox ++
    (List.range' t.state.links.length result.created).map (⟨·, .upsert⟩)

theorem contend_isSome_iff {s : State} (seen : List (String × String)) (rows : List Row) (j : Nat) :
    (∃ p, (contend e s seen rows)[j]? = some (some p)) ↔ Wins e s rows seen j := by
  induction rows generalizing seen j with
  | nil => simp [contend, Wins]
  | cons row rows ih =>
    cases j with
    | zero =>
      rw [contend, Wins]
      cases hpassing : passing e s row with
      | none => simp [hpassing]
      | some p =>
        cases hgenerated : p.generated with
        | true => simp [hpassing, hgenerated]
        | false =>
          by_cases hseen : p.key ∈ seen
          · simp [hpassing, hgenerated, hseen]
          · cases htaken : s.taken p.key with
            | true => simp [hpassing, hgenerated, hseen, htaken]
            | false => simp [hpassing, hgenerated, hseen, htaken]
    | succ j =>
      -- what the first row asks for, if it is valid, is asked for before every later row
      have hlater : ∀ seen' : List (String × String),
          (∀ p : Prepared, p.generated = false → (p.key ∉ seen' ↔ p.key ∉ seen ∧
            ∀ p', passing e s row = some p' → p'.generated = false → p'.key ≠ p.key)) →
          (Wins e s rows seen' j ↔ Wins e s (row :: rows) seen (j + 1)) := by
        intro seen' hseen'
        rw [Wins, Wins]
        refine exists_congr fun row' => exists_congr fun p => ?_
        rw [List.getElem?_cons_succ]
        refine and_congr_right fun _ => and_congr_right fun _ => forall_congr' fun hgenerated => ?_
        refine and_congr_right fun _ => ?_
        rw [hseen' p hgenerated]
        constructor
        · rintro ⟨⟨hout, hfirst⟩, hall⟩
          refine ⟨hout, fun i hi row'' p' hrow hp hg => ?_⟩
          cases i with
          | zero =>
            obtain rfl : row = row'' := by simpa using hrow
            exact hfirst p' hp hg
          | succ i => exact hall i (by omega) row'' p' (by simpa using hrow) hp hg
        · rintro ⟨hout, hall⟩
          refine ⟨⟨hout, fun p' hp hg => hall 0 (by omega) row p' rfl hp hg⟩, fun i hi => ?_⟩
          exact fun row'' p' hrow => hall (i + 1) (by omega) row'' p' (by simpa using hrow)
      rw [contend]
      cases hpassing : passing e s row with
      | none =>
        rw [← hlater seen fun p _ => by simp [hpassing], ← ih]
        rfl
      | some p =>
        dsimp only
        cases hgenerated : p.generated with
        | true =>
          rw [if_pos rfl, ← hlater seen fun q _ => by simp [hpassing, hgenerated], ← ih]
          rfl
        | false =>
          rw [if_neg Bool.false_ne_true]
          by_cases hseen : p.key ∈ seen
          · rw [if_pos hseen, ← hlater seen fun q _ => ?_, ← ih]
            · rfl
            · refine (and_iff_left_of_imp fun hout p' hp _ heq => hout ?_).symm
              rw [hpassing, Option.some.injEq] at hp
              exact heq ▸ hp ▸ hseen
          · rw [if_neg hseen, ← hlater (p.key :: seen) fun q _ => ?_, ← ih]
            · rfl
            · rw [List.mem_cons, not_or, and_comm]
              refine and_congr_right fun _ => ?_
              constructor
              · intro hne p' hp _ heq
                rw [hpassing, Option.some.injEq] at hp
                exact hne (hp ▸ heq.symm)
              · exact fun h heq => h p hpassing hgenerated heq.symm

theorem countP_placed (kind : BulkLinkOutcome → Bool) (outcomes : List BulkLinkOutcome) :
    (placed outcomes).countP (IndexedOutcome.counts kind) = outcomes.countP kind := by
  rw [placed, List.countP_map]
  conv_rhs => rw [← List.zipIdx_map_fst 0 outcomes, List.countP_map]
  rfl

/-- Every outcome is of one kind. -/
theorem countP_kinds (outcomes : List BulkLinkOutcome) :
    outcomes.countP isCreated + outcomes.countP (·.isSkipped) + outcomes.countP (·.isFailed) =
      outcomes.length := by
  induction outcomes with
  | nil => rfl
  | cons outcome outcomes ih =>
    rw [List.countP_cons, List.countP_cons, List.countP_cons, List.length_cons, ← ih]
    cases outcome with
    | created link => simp [isCreated, BulkLinkOutcome.link, BulkLinkOutcome.isSkipped,
        BulkLinkOutcome.isFailed]; omega
    | skipped destination error => simp [isCreated, BulkLinkOutcome.link,
        BulkLinkOutcome.isSkipped, BulkLinkOutcome.isFailed]; omega
    | failed destination error => simp [isCreated, BulkLinkOutcome.link,
        BulkLinkOutcome.isSkipped, BulkLinkOutcome.isFailed]; omega

/-- A count of outcomes is a count of what became of the rows. -/
theorem countP_zipWith_outcome {s : State} {kind : BulkLinkOutcome → Bool} {q : RowState → Bool}
    (fallbackRedirect : RedirectType) {states : List RowState} (h : rows.length = states.length)
    (hkind : ∀ row state, kind (outcome e s fallbackRedirect row state) = q state) :
    (List.zipWith (outcome e s fallbackRedirect) rows states).countP kind = states.countP q := by
  induction rows generalizing states with
  | nil =>
    rw [List.eq_nil_of_length_eq_zero h.symm]
    rfl
  | cons row rows ih =>
    cases states with
    | nil => simp at h
    | cons state states =>
      rw [List.zipWith_cons_cons, List.countP_cons, List.countP_cons, ih (Nat.succ.inj h), hkind]

/-- When a batch goes through, and what it reports. -/
theorem bulkCreate_eq_ok_iff {s : State} {result : BulkCreateLinksResult} :
    bulkCreate e s rows = .ok result ↔
      (Room e s 1 ∧ Insertable e s (contenders e s rows)) ∧
        ⟨(contenders e s rows).length, (finalRows e s rows).countP isSkipped,
          (finalRows e s rows).countP isFailed,
          List.zipWith (outcome e s (fallbackRedirectFor s (contenders e s rows))) rows
            (finalRows e s rows)⟩ = result := by
  have htoInsert : ((finalRows e s rows).map (·.prepared)).reduceOption = contenders e s rows := by
    rw [prepared_finalRows, contenders]
  rw [← assertNewAccountLinkCap_eq_ok_iff, ← insertAll_eq_ok_iff]
  simp only [bulkCreate, htoInsert]
  cases assertNewAccountLinkCap e.now s with
  | error error => simp [bind, Except.bind]
  | ok u =>
    cases insertAll e s (contenders e s rows) with
    | error error => simp [bind, Except.bind]
    | ok u => simp [bind, Except.bind]

/-- The counts of a batch are those of its outcomes. -/
theorem counts_of_bulkCreate {s : State} {result : BulkCreateLinksResult}
    (h : bulkCreate e s rows = .ok result) : result.results.length = rows.length ∧
      result.created = result.results.countP isCreated ∧
      result.skipped = result.results.countP (·.isSkipped) ∧
      result.failed = result.results.countP (·.isFailed) := by
  have hlength := (length_finalRows e s rows).symm
  obtain ⟨-, rfl⟩ := bulkCreate_eq_ok_iff.mp h
  refine ⟨by simp [← hlength], ?_, ?_, ?_⟩
  · rw [countP_zipWith_outcome (q := fun state => state.prepared.isSome) _ hlength
      fun row state => by rw [isCreated, link_outcome, Option.isSome_map], contenders,
      ← prepared_finalRows, List.reduceOption_length_eq, ← List.countP_eq_length_filter,
      List.countP_map]
    rfl
  · exact (countP_zipWith_outcome _ hlength fun row state => by cases state <;> rfl).symm
  · exact (countP_zipWith_outcome _ hlength fun row state => by cases state <;> rfl).symm

theorem isCreated_iff_wins {s : State} {result : BulkCreateLinksResult}
    (h : bulkCreate e s rows = .ok result) (j : Nat) :
    (∃ link, result.results[j]? = some (.created link)) ↔ Wins e s rows [] j := by
  have hstored := bulkStored_eq (e := e) (s := s) rows
  rw [bulkStored, h, if_pos (bulkCreate_eq_ok_iff.mp h).1] at hstored
  rw [← contend_isSome_iff]
  have hj := congrArg (·[j]?) hstored
  simp only [List.getElem?_map] at hj
  constructor
  · rintro ⟨link, hlink⟩
    rw [hlink, Option.map_some] at hj
    obtain ⟨p, hp, hlink'⟩ := Option.map_eq_some_iff.mp hj.symm
    obtain ⟨q, rfl, -⟩ := Option.map_eq_some_iff.mp hlink'
    exact ⟨q, hp⟩
  · rintro ⟨p, hp⟩
    rw [hp, Option.map_some, Option.map_some] at hj
    obtain ⟨outcome, houtcome, hlink⟩ := Option.map_eq_some_iff.mp hj
    cases outcome with
    | created link => exact ⟨link, houtcome⟩
    | skipped destination error => cases hlink
    | failed destination error => cases hlink

/-- A batch that the database takes comes to its account. -/
theorem account_of_bulkCreate {result : BulkCreateLinksResult}
    (h : bulkCreate e t.state rows = .ok result) :
    Account e t (t.stored result.results) rows
      ⟨result.created, result.skipped, result.failed, placed result.results⟩ := by
  obtain ⟨hlength, hcreated, hskipped, hfailed⟩ := counts_of_bulkCreate h
  have hlinks : (placed result.results).filterMap (fun outcome => outcome.bind (·.outcome.link)) =
      result.results.filterMap (·.link) := by
    rw [placed, List.filterMap_map]
    conv_rhs => rw [← List.zipIdx_map_fst 0 result.results, List.filterMap_map]
    rfl
  refine ⟨?_, ?_, ?_, ?_, ?_, fun j => ?_, ?_, ?_⟩
  · rw [placed, List.map_map, List.range_eq_range', ← hlength, ← List.zipIdx_map_snd 0,
      List.map_map]
    rfl
  · rw [countP_placed, hcreated]
  · rw [countP_placed, hskipped]
  · rw [countP_placed, hfailed]
  · change result.created + result.skipped + result.failed = rows.length
    rw [hcreated, hskipped, hfailed, countP_kinds, hlength]
  · rw [← isCreated_iff_wins h j]
    refine exists_congr fun link => ?_
    change (placed result.results)[j]? = _ ↔ _
    rw [getElem?_placed]
    cases result.results[j]? with
    | none => simp
    | some outcome => simp
  · rw [hlinks]
    rfl
  · have hcount : (result.results.filterMap (·.link)).length = result.created := by
      rw [hcreated, List.length_filterMap_eq_countP]
      rfl
    change t.outbox ++ (List.range' t.state.links.length
      (result.results.filterMap (·.link)).length).map _ = _
    rw [hcount]

end

/-- **When a batch comes to its account.**  It does exactly when the caps leave room and the
database takes the rows that are left to insert as a whole; otherwise nothing is stored. -/
theorem account_iff (e : Environment) (t : Tables) (rows : List Row) :
    ((∃ result t', bulkCreateAt e t rows = (.ok result, t') ∧ Account e t t' rows result) ↔
      Room e t.state 1 ∧ Insertable e t.state (contenders e t.state rows)) ∧
    (¬ (Room e t.state 1 ∧ Insertable e t.state (contenders e t.state rows)) →
      ∃ error, bulkCreateAt e t rows = (.error error, t)) := by
  have hok : (∃ result, bulkCreate e t.state rows = .ok result) ↔
      Room e t.state 1 ∧ Insertable e t.state (contenders e t.state rows) :=
    ⟨fun ⟨_, hresult⟩ => (bulkCreate_eq_ok_iff.mp hresult).1,
      fun h => ⟨_, bulkCreate_eq_ok_iff.mpr ⟨h, rfl⟩⟩⟩
  refine ⟨?_, fun hnot => ?_⟩
  · rw [← hok, bulkCreateAt_eq]
    constructor
    · rintro ⟨result, t', hresult, -⟩
      cases hbulk : bulkCreate e t.state rows with
      | error error => rw [hbulk] at hresult; cases hresult
      | ok result => exact ⟨result, rfl⟩
    · rintro ⟨result, hresult⟩
      rw [hresult]
      exact ⟨_, _, rfl, account_of_bulkCreate hresult⟩
  · rw [bulkCreateAt_eq]
    cases hbulk : bulkCreate e t.state rows with
    | error error => exact ⟨error, rfl⟩
    | ok result => exact absurd (hok.mp ⟨result, hbulk⟩) hnot

/-! ### A folder that is too long -/

/-- A column of 120 characters. -/
def folderEnvironment : Environment :=
  { sampleEnvironment with storable := fun input => (input.folder.getD "").length ≤ 120 }

/-- A row that asks for a folder, whose name the schema does not bound. -/
def folderRow : Row where
  destination := some "https://example.com/"
  parsed := .ok { inputFor "second" with folder := some (String.ofList (List.replicate 121 'f')) }
  draws _ _ := ⟨0, ALPHABET_length_pos⟩

/-- The input of the row. -/
def folderInput : CreateLinkInput :=
  { inputFor "second" with folder := some (String.ofList (List.replicate 121 'f')) }

/-- The checks pass both rows: the length of a folder is the database's business. -/
theorem contend_folderRow :
    contend folderEnvironment promoState [] [requestFor "first", folderRow] =
      [some (preparedFor "first"), some { preparedFor "second" with input := folderInput }] := by
  have hdomain : resolveDomain folderEnvironment.p promoState "snap.to" = _ := resolveDomain_sample
  have hfirst : passing folderEnvironment promoState (requestFor "first") =
      some (preparedFor "first") := by
    have h : Passes sampleEnvironment promoState (inputFor "first") :=
      passes_sample (by decide +kernel)
    have hpasses : Passes folderEnvironment promoState (inputFor "first") :=
      ⟨h.valid, h.shaped, h.allowed, h.notBlocked, h.notChained, h.notFlagged⟩
    have hname : (inputFor "first").domain = "snap.to" := rfl
    rw [passing, requestFor]
    simp only [hname, hdomain, if_pos hpasses]
    rfl
  have hsecond : passing folderEnvironment promoState folderRow =
      some { preparedFor "second" with input := folderInput } := by
    have h : Passes sampleEnvironment promoState (inputFor "second") :=
      passes_sample (by decide +kernel)
    have hpasses : Passes folderEnvironment promoState folderInput :=
      ⟨h.valid, h.shaped, h.allowed, h.notBlocked, h.notChained, h.notFlagged⟩
    have hname : folderInput.domain = "snap.to" := rfl
    have hparsed : folderRow.parsed = .ok folderInput := rfl
    rw [passing, hparsed]
    simp only [hname, hdomain, if_pos hpasses]
    rfl
  have hkeys : ({ preparedFor "second" with input := folderInput } : Prepared).key ∉
      [(preparedFor "first").key] := by
    have hne : asciiLower "second" ≠ asciiLower "first" := by decide
    exact fun h => hne (congrArg Prod.snd (List.mem_singleton.mp h))
  rw [contend_cons_chosen hfirst (by decide) List.not_mem_nil rfl,
    contend_cons_chosen hsecond (by decide) hkeys rfl, contend]

theorem not_storable_folderInput : folderEnvironment.storable folderInput = false := by
  have hlength : (folderInput.folder.getD "").length = 121 := by
    rw [folderInput, Option.getD_some, String.length_ofList, List.length_replicate]
  simp only [folderEnvironment, hlength]
  rfl

/-- **One row that the database refuses costs every row its outcome.** -/
theorem long_folder_fails_all :
    ¬ ∀ (e : Environment) (t : Tables) (rows : List Row),
      ∃ result t', bulkCreateAt e t rows = (.ok result, t') ∧ Account e t t' rows result := by
  intro hall
  obtain ⟨result, t', hresult, -⟩ :=
    hall folderEnvironment ⟨promoState, []⟩ [requestFor "first", folderRow]
  rw [bulkCreateAt_eq] at hresult
  split at hresult
  · cases hresult
  · next stored hbulk =>
    have hinsertable := (bulkCreate_eq_ok_iff.mp hbulk).1.2
    rw [contenders, contend_folderRow] at hinsertable
    have hstorable := hinsertable.storable { preparedFor "second" with input := folderInput }
      (by simp [List.reduceOption])
    rw [not_storable_folderInput] at hstorable
    cases hstorable

end SnapUrl.Links.Creation
