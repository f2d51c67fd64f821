import SnapUrl.Rollup.Batches

/-!
# The panels and the total above them

`rollupClicks` of `apps/worker/src/jobs/rollup.ts` writes one row of `click_daily` for a
link and day, and one row of `breakdown_daily` for each value of each dimension there.
Here both are read off the clicks that were rolled up.

* `elim_daily_foldl`: a column of a row that is summed counts the clicks of the cell.
* `breakdown_foldl`: a breakdown counts the counted clicks with its value.
* `panels_agree`: **over any clicks and any batches, every panel adds up to the clicks of
  its row.**
-/

namespace SnapUrl.Rollup

open Lib Domain

/-! ### Columns that are summed -/

section

variable {estimate : Sketch → Nat} {t : Tables}

/-- A column that each click raises by a flag counts the flags. -/
theorem elim_foldl_cellStep {column : DailyRow → Nat} {flag : ClickEvent → Bool}
    (hcolumn : ∀ cell e, column (addToCell estimate cell e).1 =
      cell.1.elim 0 column + (flag e).toNat)
    (events : List ClickEvent) (cell : Option DailyRow × Option Sketch) :
    (events.foldl (cellStep estimate) cell).1.elim 0 column =
      cell.1.elim 0 column + events.countP flag := by
  induction events generalizing cell with
  | nil => rfl
  | cons e events ih =>
    rw [List.foldl_cons, ih, countP_cons_toNat, ← add_assoc]
    exact congrArg (· + _) (hcolumn cell e)

theorem elim_daily_foldl {column : DailyRow → Nat} {flag : ClickEvent → Bool}
    (hcolumn : ∀ cell e, column (addToCell estimate cell e).1 =
      cell.1.elim 0 column + (flag e).toNat)
    (batch : List ClickRow) (k : String × Int) :
    ((batch.foldl (Tables.addEvent estimate) t).daily k).elim 0 column =
      (t.daily k).elim 0 column + batch.countP fun e => e.cell = k && flag e.toClickEvent := by
  have hcell := congrArg Prod.fst (cellAt_foldl_addEvent estimate t batch k)
  change (batch.foldl (Tables.addEvent estimate) t).daily k = _ at hcell
  rw [hcell, elim_foldl_cellStep hcolumn, List.countP_filter, List.countP_map]
  refine congrArg (_ + ·) (List.countP_congr fun e _ => ?_)
  simp [and_comm]

/-- A click leaves the sums of a cell with its flags added. -/
theorem clicks_addToCell (cell : Option DailyRow × Option Sketch) (e : ClickEvent) :
    (addToCell estimate cell e).1.clicks = cell.1.elim 0 (·.clicks) + e.counted.toNat := by
  rcases cell with ⟨_ | row, sketch⟩
  · rfl
  · rfl

theorem scans_addToCell (cell : Option DailyRow × Option Sketch) (e : ClickEvent) :
    (addToCell estimate cell e).1.scans =
      cell.1.elim 0 (·.scans) + (e.counted && e.isQr).toNat := by
  rcases cell with ⟨_ | row, sketch⟩
  · rfl
  · rfl

theorem blocked_addToCell (cell : Option DailyRow × Option Sketch) (e : ClickEvent) :
    (addToCell estimate cell e).1.blocked =
      cell.1.elim 0 (·.blocked) + e.blockedReason.isSome.toNat := by
  rcases cell with ⟨_ | row, sketch⟩
  · rfl
  · rfl

end

/-! ### Breakdowns -/

section

variable {estimate : Sketch → Nat} {t : Tables}
  {dimension : String × (ClickRow → Option String)}

/-- **A breakdown counts the counted clicks with its key.** -/
theorem breakdown_foldl (hdimension : dimension ∈ dimensions) (batch : List ClickRow)
    {key : BreakdownKey} (hkey : key.dimension = dimension.1) :
    (batch.foldl (Tables.addEvent estimate) t).breakdown key =
      t.breakdown key +
        ((batch.filter fun e => e.counted).map (·.breakdownKey dimension)).count key := by
  have hcount (d : String × (ClickRow → Option String)) :
      (batch.filter fun e => e.counted).countP (·.breakdownKey d = key) =
        ((batch.filter fun e => e.counted).map (·.breakdownKey d)).count key := by
    rw [List.count, List.countP_map]
    exact List.countP_congr fun e _ => by simp
  -- the key names one dimension
  have hother (d : String × (ClickRow → Option String)) (hne : d.1 ≠ dimension.1) :
      (batch.filter fun e => e.counted).countP (·.breakdownKey d = key) = 0 := by
    refine List.countP_eq_zero.mpr fun e _ heq => hne ?_
    rw [← hkey, ← of_decide_eq_true heq]
    rfl
  rw [breakdown_foldl_addEvent, tally, ← hcount dimension]
  refine congrArg (_ + ·) ?_
  simp only [dimensions, List.map_cons, List.map_nil, List.sum_cons, List.sum_nil]
  simp only [dimensions, List.mem_cons, List.not_mem_nil, or_false] at hdimension
  rcases hdimension with rfl | rfl | rfl | rfl | rfl
  · rw [hother ("city", _) (by decide), hother ("device", _) (by decide),
      hother ("browser", _) (by decide), hother ("referrer", _) (by decide)]
    omega
  · rw [hother ("country", _) (by decide), hother ("device", _) (by decide),
      hother ("browser", _) (by decide), hother ("referrer", _) (by decide)]
    omega
  · rw [hother ("country", _) (by decide), hother ("city", _) (by decide),
      hother ("browser", _) (by decide), hother ("referrer", _) (by decide)]
    omega
  · rw [hother ("country", _) (by decide), hother ("city", _) (by decide),
      hother ("device", _) (by decide), hother ("referrer", _) (by decide)]
    omega
  · rw [hother ("country", _) (by decide), hother ("city", _) (by decide),
      hother ("device", _) (by decide), hother ("browser", _) (by decide)]
    omega

/-- The rows of one dimension for a link and day, as they come from the clicks. -/
def panelRows (batch : List ClickRow) (dimension : String × (ClickRow → Option String))
    (k : String × Int) : List BreakdownKey :=
  ((batch.filter fun e => e.counted).filter fun e => e.cell = k).map (·.breakdownKey dimension)

theorem length_panelRows (batch : List ClickRow) (k : String × Int) :
    (panelRows batch dimension k).length = batch.countP fun e => e.cell = k && e.counted := by
  rw [panelRows, List.length_map, List.filter_filter, List.countP_eq_length_filter]

/-- The rows of a dimension are those with its name. -/
theorem count_panelRows (batch : List ClickRow) (k : String × Int) (key : BreakdownKey)
    (hlink : key.linkId = k.1) (hday : key.day = k.2) :
    (panelRows batch dimension k).count key =
      ((batch.filter fun e => e.counted).map (·.breakdownKey dimension)).count key := by
  simp only [panelRows, List.count, List.countP_map]
  rw [List.countP_filter]
  refine List.countP_congr fun e _ => ?_
  simp only [Function.comp_apply, beq_iff_eq, Bool.and_eq_true, decide_eq_true_eq,
    and_iff_left_iff_imp]
  rintro rfl
  exact Prod.ext hlink hday

end

/-- The scans of a row, none where there is no row. -/
def Tables.scansAt (t : Tables) (k : String × Int) : Nat := (t.daily k).elim 0 (·.scans)

/-- **Every panel adds up to the total above it.**  Whatever clicks come in and whatever
batches they are rolled up in, of which any may raise or be aborted, some clicks are through
by then and the others are pending.  For each link and day, the scans are no more than the
clicks; and for each of the five dimensions, the rows of `breakdown_daily` are finitely many
and add up to the clicks, and each row counts the human, unblocked clicks of its workspace
that have its value, where no value is the value `Unknown`. -/
theorem panels_agree (estimate : Sketch → Nat) (events : List ClickRow) (attempts : List Attempt)
    (s : Intake) (hrun : run (attempt estimate) ⟨.empty, events⟩ attempts = some s) :
    ∃ done : List ClickRow, (done : Multiset ClickRow) + s.pending = events ∧
      ∀ linkId day,
        s.tables.clicksAt (linkId, day) = (done.countP fun e =>
          e.linkId = linkId ∧ e.day = day ∧ e.isBot = false ∧ e.blockedReason = none) ∧
        s.tables.scansAt (linkId, day) ≤ s.tables.clicksAt (linkId, day) ∧
        ∀ dimension ∈ dimensions,
          (∃ panel : Finset BreakdownKey,
            (∀ key, key ∈ panel ↔ 0 < s.tables.breakdown key ∧ key.linkId = linkId ∧
              key.day = day ∧ key.dimension = dimension.1) ∧
            ∑ key ∈ panel, s.tables.breakdown key = s.tables.clicksAt (linkId, day)) ∧
          ∀ workspaceId value,
            s.tables.breakdown ⟨workspaceId, linkId, day, dimension.1, value⟩ =
              done.countP fun e =>
                e.workspaceId = workspaceId ∧ e.linkId = linkId ∧ e.day = day ∧
                  (dimension.2 e).getD "Unknown" = value ∧
                  e.isBot = false ∧ e.blockedReason = none := by
  obtain ⟨done, htables, hpending⟩ := rolledUp_run hrun
  refine ⟨done, hpending, fun linkId day => ?_⟩
  have hcounted (e : ClickRow) : e.counted = true ↔ e.isBot = false ∧ e.blockedReason = none := by
    simp [ClickEvent.counted]
  have hcell (e : ClickRow) : e.cell = (linkId, day) ↔ e.linkId = linkId ∧ e.day = day := by
    simp [ClickEvent.cell]
  have hclicks : s.tables.clicksAt (linkId, day) =
      done.countP fun e => e.cell = (linkId, day) && e.counted := by
    rw [htables, Tables.clicksAt, elim_daily_foldl clicks_addToCell]
    exact Nat.zero_add _
  have hscans : s.tables.scansAt (linkId, day) =
      done.countP fun e => e.cell = (linkId, day) && (e.counted && e.isQr) := by
    rw [htables, Tables.scansAt, elim_daily_foldl scans_addToCell]
    exact Nat.zero_add _
  refine ⟨?_, ?_, fun dimension hdimension => ?_⟩
  · rw [hclicks]
    refine List.countP_congr fun e _ => ?_
    simp [hcell, hcounted, and_assoc]
  · rw [hclicks, hscans]
    refine List.countP_mono_left fun e _ h => ?_
    simp only [Bool.and_eq_true] at h ⊢
    exact ⟨h.1, h.2.1⟩
  have hbreakdown (key : BreakdownKey) (hkey : key.dimension = dimension.1) :
      s.tables.breakdown key =
        ((done.filter fun e => e.counted).map (·.breakdownKey dimension)).count key := by
    rw [htables, breakdown_foldl hdimension done hkey]
    exact Nat.zero_add _
  have hpanel (key : BreakdownKey) (hlink : key.linkId = linkId) (hday : key.day = day)
      (hkey : key.dimension = dimension.1) :
      s.tables.breakdown key = (panelRows done dimension (linkId, day)).count key := by
    rw [hbreakdown key hkey, count_panelRows done (linkId, day) key hlink hday]
  have hrow (key : BreakdownKey) (h : key ∈ panelRows done dimension (linkId, day)) :
      key.linkId = linkId ∧ key.day = day ∧ key.dimension = dimension.1 := by
    obtain ⟨e, he, rfl⟩ := List.mem_map.mp h
    have hkey := (hcell e).mp (of_decide_eq_true (List.mem_filter.mp he).2)
    exact ⟨hkey.1, hkey.2, rfl⟩
  constructor
  · refine ⟨(panelRows done dimension (linkId, day)).toFinset, fun key => ?_, ?_⟩
    · rw [List.mem_toFinset]
      constructor
      · intro h
        obtain ⟨hlink, hday, hkey⟩ := hrow key h
        rw [hpanel key hlink hday hkey]
        exact ⟨List.count_pos_iff.mpr h, hlink, hday, hkey⟩
      · rintro ⟨hpos, hlink, hday, hkey⟩
        rw [hpanel key hlink hday hkey] at hpos
        exact List.count_pos_iff.mp hpos
    · calc ∑ key ∈ (panelRows done dimension (linkId, day)).toFinset, s.tables.breakdown key
          = ∑ key ∈ (panelRows done dimension (linkId, day)).toFinset,
              (panelRows done dimension (linkId, day)).count key := by
            refine Finset.sum_congr rfl fun key h => ?_
            obtain ⟨hlink, hday, hkey⟩ := hrow key (List.mem_toFinset.mp h)
            exact hpanel key hlink hday hkey
        _ = (panelRows done dimension (linkId, day)).length :=
            List.sum_toFinset_count_eq_length _
        _ = s.tables.clicksAt (linkId, day) := by rw [length_panelRows, hclicks]
  · intro workspaceId value
    rw [hbreakdown _ rfl, List.count, List.countP_map, List.countP_filter]
    refine List.countP_congr fun e _ => ?_
    simp only [Function.comp_apply, beq_iff_eq, ClickRow.breakdownKey, BreakdownKey.mk.injEq,
      Bool.and_eq_true, decide_eq_true_eq, true_and, hcounted]
    tauto

/-- The browsers of two visitors of one day, of which the second comes in a second batch. -/
theorem panels_agree_browsers :
    ∃ s, run (attempt estimateFew) ⟨.empty, sampleClicks⟩
        [⟨sampleClicks.take 1, false⟩, ⟨sampleClicks.drop 1, false⟩] = some s ∧
      ∃ panel : Finset BreakdownKey,
        (∀ key, key ∈ panel ↔ 0 < s.tables.breakdown key ∧ key.linkId = "L1" ∧
          key.day = 0 ∧ key.dimension = "browser") ∧
        ∑ key ∈ panel, s.tables.breakdown key = s.tables.clicksAt ("L1", 0) := by
  have hsome : (run (attempt estimateFew) ⟨.empty, sampleClicks⟩
      [⟨sampleClicks.take 1, false⟩, ⟨sampleClicks.drop 1, false⟩]).isSome = true := by
    decide +kernel
  obtain ⟨s, hs⟩ := Option.isSome_iff_exists.mp hsome
  obtain ⟨done, -, hcells⟩ := panels_agree estimateFew sampleClicks _ s hs
  exact ⟨s, hs, ((hcells "L1" 0).2.2 ("browser", ClickRow.browser) (by simp [dimensions])).1⟩

end SnapUrl.Rollup
