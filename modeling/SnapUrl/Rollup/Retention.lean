import SnapUrl.Rollup.Partitions

/-!
# The cap and the retention

How many days are attached follows from the look-ahead, from the retention in calendar
years and from the age of the install.

* `sound_of_young_install`: with the shipped cap of 1100, **an install of up to 1078 days
  is safe** in every run.
* `sound_of_cap`: with a cap of the look-ahead and 1097 days, **an install of any age is**,
  leap years included, where no drop loses its lock and spent clicks are rolled up.
* `hourly_passes_lose_clicks`: with the shipped cap an older one is not: hourly passes,
  none of which loses a lock, take a rolled-up click after 1086 days.
-/

namespace SnapUrl.Rollup.Retention

open Lib IsoDate

/-! ### How many days are attached -/

section Attached

variable {st : Settings} {locks : Locks} {s : World}

/-- The days of the window that are not declined. -/
def provisioned (st : Settings) (declines : Int → Bool) (s : World) : Finset Int :=
  (dayRange (s.today - st.daysBack) (s.today + st.daysAhead)).filter fun d => declines d = false

theorem ensureClickPartitions_eq (declines : Int → Bool) :
    (ensureClickPartitions st declines s).1 =
      { s with attached := s.attached ∪ provisioned st declines s } := by
  have hfold : ∀ (days : List Int) (s : World) (r : PartitionProvisionResult),
      (days.foldl (ensurePartition declines) (s, r)).1 =
        { s with attached := s.attached ∪ days.toFinset.filter (fun d => declines d = false) } := by
    intro days
    induction days with
    | nil =>
      intro s r
      simp
    | cons d days ih =>
      intro s r
      rw [List.foldl_cons, ensurePartition]
      by_cases hd : d ∈ s.attached
      · rw [if_pos hd, ih, List.toFinset_cons, Finset.filter_insert]
        congr 1
        split
        · rw [Finset.union_insert, Finset.insert_eq_of_mem (Finset.mem_union_left _ hd)]
        · rfl
      · rw [if_neg hd]
        cases hdecline : declines d with
        | true =>
          rw [if_pos rfl, ih, List.toFinset_cons, Finset.filter_insert, if_neg (by simp [hdecline])]
        | false =>
          rw [if_neg (by simp), ih, List.toFinset_cons, Finset.filter_insert, if_pos hdecline]
          simp only [Finset.union_insert, Finset.insert_union]
  rw [ensureClickPartitions, hfold, provisionDays, Finset.sort_toFinset, provisioned]

/-- **A cap that leaves room for the look-ahead and for three years is quiet.** -/
theorem quiet_of_cap (hyears : st.retentionYears = 3) (hdays : 0 ≤ st.daysAhead)
    (hcap : st.daysAhead + 1097 ≤ st.maxRetainedDays)
    (hahead : ∀ d ∈ s.attached, d ≤ s.today + st.daysAhead)
    (hrolled : ∀ d, d < s.cutoff st → s.pinned d = false) (hlocks : ∀ d, locks.age d = false)
    (elapsed : Nat) :
    Quiet st s (.prune locks elapsed) := by
  have htaken : taken st locks s = (spentPartitions (s.cutoff st) s).take st.maxDropsPerPass := by
    simp [taken, hlocks]
  by_cases hmany : st.maxDropsPerPass ≤ (spentPartitions (s.cutoff st) s).length
  · refine Or.inr (Or.inl ?_)
    rw [htaken, List.length_take]
    omega
  -- every day behind the cutoff is dropped, and the others are few
  · have hspent : taken st locks s = spentPartitions (s.cutoff st) s := by
      rw [htaken, List.take_of_length_le (by omega)]
    have hleft : s.attached ⊆ (taken st locks s).toFinset ∪
        dayRange (s.cutoff st) (s.today + st.daysAhead) := by
      intro d hd
      rw [Finset.mem_union, List.mem_toFinset, hspent, mem_spentPartitions, mem_dayRange]
      by_cases hpast : d + 1 ≤ s.cutoff st
      · exact Or.inl ⟨hd, hpast, hrolled d hpast⟩
      · exact Or.inr ⟨by omega, hahead d hd⟩
    have hcard := (Finset.card_le_card hleft).trans (Finset.card_union_le _ _)
    rw [List.toFinset_card_of_nodup nodup_taken, card_dayRange] at hcard
    have hthree : s.today - s.cutoff st ≤ 1096 := by
      rw [World.cutoff, hyears]
      exact (sub_minusYears_three s.today).2
    refine Or.inr (Or.inr (Or.inl ?_))
    omega

end Attached

/-! ### A young install -/

/-- A new install: migration 0007 provisions a week behind and a fortnight ahead. -/
def World.fresh (now : Int) (rows : List Row) (retention : String → Int) : World :=
  .install now (dayRange (now / dayMicros - 7) (now / dayMicros + 14)) rows retention

/-- What holds in every run of an install of some day. -/
structure Young (day : Int) (s : World) : Prop where
  attached : s.attached ⊆ dayRange (day - 7) (s.today + 14)
  started : day ≤ s.today
  sound : s.today ≤ day + 1078 → Sound shipped s

section YoungInstall

variable {st : Settings} {day : Int} {s : World}

theorem today_mono (s : World) (elapsed : Nat) : s.today ≤ (s.now + elapsed) / dayMicros :=
  Int.ediv_le_ediv (by decide) (by omega)

/-- A drop attaches no day, and neither does a loop of drops. -/
theorem attached_attemptDrop (contended : Int → Bool) (x : World × Outcomes) (d : Int) :
    (attemptDrop contended x d).1.attached ⊆ x.1.attached := by
  by_cases h : Droppable contended x.1 d
  · rw [show x = (x.1, x.2) from rfl, attemptDrop_of_droppable h]
    exact Finset.erase_subset _ _
  · rw [show x = (x.1, x.2) from rfl, (attemptDrop_of_not_droppable h).1]

theorem attached_capLoop (contended : Int → Bool) (maxDrops : Nat) (days : List Int)
    (overCap : Int) (x : World × Outcomes) :
    (capLoop contended maxDrops days overCap x).1.attached ⊆ x.1.attached := by
  induction days generalizing overCap x with
  | nil => exact subset_rfl
  | cons d rest ih =>
    rw [capLoop]
    split
    · exact subset_rfl
    · exact (ih _ _).trans (attached_attemptDrop contended x d)

theorem attached_pruneRetention (st : Settings) (locks : Locks) (elapsed : Nat) (s : World) :
    (pruneRetention st locks elapsed s).1.attached ⊆ s.attached := by
  have haged : (agePass st locks s).1.attached ⊆ s.attached := by
    rw [agePass_drops.1.attached]
    exact Finset.sdiff_subset
  rw [pruneRetention]
  split
  · refine subset_trans ?_ haged
    change (capPass st locks (agePass st locks s)).1.attached ⊆ _
    rw [capPass]
    split
    · exact attached_capLoop _ _ _ _ _
    · exact subset_rfl
  · exact subset_rfl

/-- The window attaches no day but those around today. -/
theorem attached_provision (declines : Int → Bool) (s : World) :
    (ensureClickPartitions st declines s).1.attached ⊆
      s.attached ∪ dayRange (s.today - st.daysBack) (s.today + st.daysAhead) := by
  rw [ensureClickPartitions_eq]
  exact Finset.union_subset_union_right (Finset.filter_subset _ _)

/-- Few days are attached on a young install. -/
theorem quiet_of_young (h : Young day s) (hyoung : s.today ≤ day + 1078) (a : Action) :
    Quiet shipped s a := by
  cases a with
  | prune locks elapsed =>
    have hcard := Finset.card_le_card h.attached
    rw [card_dayRange] at hcard
    have hstarted := h.started
    refine Or.inr (Or.inr (Or.inl ?_))
    change (s.attached.card : Int) ≤ 1100 + _
    omega
  | _ => trivial

/-- The clock does not go back. -/
theorem today_act_mono (st : Settings) (s : World) (a : Action) : s.today ≤ (act st s a).today := by
  cases a with
  | tick elapsed => exact today_mono s elapsed
  | provision declines =>
    change s.today ≤ (ensureClickPartitions st declines s).1.today
    rw [ensureClickPartitions_eq]
    exact le_rfl
  | prune locks elapsed =>
    change s.today ≤ (pruneRetention st locks elapsed s).1.today
    rw [pruneRetention]
    split
    · exact today_mono s elapsed
    · exact today_mono s elapsed
  | _ => exact le_rfl

theorem attached_act (s : World) (a : Action) : (act st s a).attached ⊆
    s.attached ∪ dayRange (s.today - st.daysBack) (s.today + st.daysAhead) := by
  cases a with
  | provision declines => exact attached_provision declines s
  | prune locks elapsed =>
    exact (attached_pruneRetention st locks elapsed s).trans Finset.subset_union_left
  | _ => exact Finset.subset_union_left

theorem Young.act (h : Young day s) (a : Action) : Young day (act shipped s a) where
  attached := by
    intro d hd
    have hmono := today_act_mono shipped s a
    have hstarted := h.started
    rw [mem_dayRange]
    rcases Finset.mem_union.mp (attached_act s a hd) with hd | hd
    · have hold := mem_dayRange.mp (h.attached hd)
      omega
    · have hnew : s.today - 7 ≤ d ∧ d ≤ s.today + 14 := mem_dayRange.mp hd
      omega
  started := h.started.trans (today_act_mono shipped s a)
  sound hyoung := by
    have hbefore := (today_act_mono shipped s a).trans hyoung
    exact (sound_act_iff (h.sound hbefore) a).mpr (quiet_of_young h hbefore a)

/-- A pass that finds the clicks behind the cutoff rolled up, and gets its locks. -/
def Clear (st : Settings) (s : World) : Action → Prop
  | .prune locks _ => (∀ d, d < s.cutoff st → s.pinned d = false) ∧ ∀ d, locks.age d = false
  | _ => True

end YoungInstall

/-! ### Hourly passes -/

/-- An hour in microseconds. -/
def hourMicros : Nat := 3600000000

/-- Every lock is had in time. -/
def free : Locks := ⟨true, fun _ => false, fun _ => false⟩

/-- An hour, and the two passes after it. -/
def hourly : List Action :=
  [.tick hourMicros, .provision fun _ => false, .prune free 0]

def hours : Nat → List Action
  | 0 => []
  | n + 1 => hours n ++ hourly

section Hourly

variable {s : World} {r : Row} {lo : Int}

/-- The provisioning pass of an hour extends a block of days up to the look-ahead. -/
theorem provision_range {hi : Int} (hattached : s.attached = dayRange lo hi)
    (hlo : lo ≤ s.today - 7) (hnear : s.today - 8 ≤ hi) (hhi : hi ≤ s.today + 14) :
    (ensureClickPartitions shipped (fun _ => false) s).1 =
      { s with attached := dayRange lo (s.today + 14) } := by
  have hwindow : provisioned shipped (fun _ => false) s = dayRange (s.today - 7) (s.today + 14) :=
    Finset.filter_true_of_mem fun _ _ => rfl
  have hdays : dayRange lo hi ∪ dayRange (s.today - 7) (s.today + 14) =
      dayRange lo (s.today + 14) := by
    ext d
    simp only [Finset.mem_union, mem_dayRange]
    omega
  rw [ensureClickPartitions_eq, hwindow, hattached, hdays]

/-- Nothing is behind the cutoff of a block that starts after it. -/
theorem agePass_range (hattached : s.attached = dayRange lo (s.today + 14))
    (hlo : s.today - 1086 ≤ lo) : agePass shipped free s = (s, ⟨0, 0, 0, 0⟩) := by
  have hcutoff : s.cutoff shipped ≤ s.today - 1095 := by
    have hthree := (sub_minusYears_three s.today).1
    change minusYears s.today 3 ≤ _
    omega
  have hspent : spentPartitions (s.cutoff shipped) s = [] := by
    refine List.eq_nil_iff_forall_not_mem.mpr fun d hd => ?_
    obtain ⟨hmem, hpast, _⟩ := mem_spentPartitions.mp hd
    rw [hattached, mem_dayRange] at hmem
    omega
  rw [agePass, hspent]
  rfl

theorem dayRange_eq_insert {hi : Int} (h : lo ≤ hi) :
    dayRange lo hi = insert lo (dayRange (lo + 1) hi) := by
  ext d
  simp only [Finset.mem_insert, mem_dayRange]
  omega

/-- **The cap takes the first day of a block of 1101 days.** -/
theorem capPass_range (hattached : s.attached = dayRange lo (s.today + 14))
    (hlo : s.today - 1086 ≤ lo) (hle : lo ≤ s.today) (hrolled : s.pinned lo = false) :
    (capPass shipped free (s, ⟨0, 0, 0, 0⟩)).1 = if lo = s.today - 1086 then s.drop lo else s := by
  have hcard : s.attached.card = (s.today + 14 + 1 - lo).toNat := by rw [hattached, card_dayRange]
  have hbudget : 0 < shipped.maxDropsPerPass - 0 := by decide
  rw [capPass, if_pos hbudget]
  dsimp only
  rw [Finset.length_sort]
  split
  · rename_i hfirst
    have hover : (s.attached.card : Int) - shipped.maxRetainedDays = 1 := by
      change (s.attached.card : Int) - 1100 = 1
      omega
    have hdrop : Droppable free.cap s lo := by
      refine ⟨rfl, ?_, hrolled⟩
      rw [hattached, mem_dayRange]
      omega
    have hsort : s.attached.sort = lo :: (dayRange (lo + 1) (s.today + 14)).sort := by
      rw [hattached, dayRange_eq_insert (by omega), Finset.sort_insert]
      · intro d hd
        have hd' := mem_dayRange.mp hd
        omega
      · simp
    rw [hover, hsort, capLoop_cons _ _ (by decide), attemptDrop_of_droppable hdrop,
      dropPartition_of_droppable hdrop, if_pos rfl, capLoop_of_stop (Or.inl (by decide))]
  · rename_i hlater
    rw [capLoop_of_stop (Or.inl ?_)]
    change (s.attached.card : Int) - 1100 ≤ 0
    omega

/-- **An install that is passed every hour**: its block of days ends at the look-ahead,
starts a week before the first click or where the cap has come to, and the click is there. -/
structure Steady (r : Row) (s : World) : Prop where
  attached : s.attached = dayRange (max (r.day - 7) (s.today - 1085)) (s.today + 14)
  rows : s.rows = [r]
  retention : s.retention r.workspaceId = 3
  started : r.day ≤ s.today

/-- One hour of a world. -/
def afterHour (s : World) : World :=
  act shipped (act shipped (act shipped s (.tick hourMicros)) (.provision fun _ => false))
    (.prune free 0)

theorem run_hourly (s : World) : run (step shipped) s hourly = some (afterHour s) := rfl

/-- The expiry pass over a block of days, when no click is pending. -/
theorem prune_range (hattached : s.attached = dayRange lo (s.today + 14))
    (hlo : s.today - 1086 ≤ lo) (hle : lo ≤ s.today) (hrolled : s.pinned lo = false) :
    ∃ k, (pruneRetention shipped free 0 s).1 = World.sweep shipped
      { (if lo = s.today - 1086 then s.drop lo else s) with now := s.now, capDrops := k } := by
  have hlease : free.lease = true := rfl
  rw [pruneRetention, if_pos hlease, agePass_range hattached hlo]
  dsimp only
  rw [capPass_range hattached hlo hle hrolled, Nat.cast_zero, add_zero]
  exact ⟨_, rfl⟩

/-- The `DELETE` leaves a click of an attached day whose workspace keeps three years. -/
theorem swept_of_attached (hattached : r.day ∈ s.attached)
    (hyears : s.retention r.workspaceId = 3) : swept shipped s r = false := by
  have hshipped : shipped.retentionYears = 3 := rfl
  simp [swept, hattached, hyears, hshipped]

/-- The world of a steady install an hour later, before the expiry pass. -/
def nextHour (r : Row) (s : World) : World :=
  { s with
    now := s.now + hourMicros
    attached := dayRange (max (r.day - 7) (s.today - 1085))
      ((s.now + hourMicros) / dayMicros + 14) }

theorem provision_steady (h : Steady r s) (htoday : (nextHour r s).today ≤ s.today + 1) :
    act shipped (act shipped s (.tick hourMicros)) (.provision fun _ => false) = nextHour r s := by
  have hmono := today_mono s hourMicros
  have hstarted := h.started
  have hnow : (nextHour r s).today = (s.now + hourMicros) / dayMicros := rfl
  refine provision_range (s := { s with now := s.now + hourMicros }) h.attached ?_ ?_ ?_
  · change _ ≤ (s.now + hourMicros) / dayMicros - 7
    omega
  · change (s.now + hourMicros) / dayMicros - 8 ≤ _
    omega
  · change _ ≤ (s.now + hourMicros) / dayMicros + 14
    omega

theorem pinned_of_rows (hrows : s.rows = [r]) (hrolled : r.rolledUp = true) (d : Int) :
    s.pinned d = false := by
  simp [World.pinned, hrows, hrolled]

/-- What an hour leaves of a steady install. -/
theorem afterHour_eq (h : Steady r s) (hrolled : r.rolledUp = true)
    (htoday : (nextHour r s).today ≤ s.today + 1) :
    ∃ k, afterHour s = World.sweep shipped
      { (if max (r.day - 7) (s.today - 1085) = (nextHour r s).today - 1086 then
          (nextHour r s).drop (max (r.day - 7) (s.today - 1085)) else nextHour r s) with
        now := (nextHour r s).now, capDrops := k } := by
  have hmono : s.today ≤ (nextHour r s).today := today_mono s hourMicros
  have hstarted := h.started
  rw [afterHour, provision_steady h htoday]
  exact prune_range rfl (by omega) (by omega) (pinned_of_rows h.rows hrolled _)

/-- **An hour keeps a steady install steady for 1085 days.** -/
theorem Steady.afterHour (h : Steady r s) (hrolled : r.rolledUp = true)
    (htoday : (nextHour r s).today ≤ s.today + 1) (hyoung : (nextHour r s).today ≤ r.day + 1085) :
    Steady r (afterHour s) ∧ (afterHour s).now = s.now + hourMicros := by
  have hmono : s.today ≤ (nextHour r s).today := today_mono s hourMicros
  have hstarted := h.started
  obtain ⟨k, heq⟩ := afterHour_eq h hrolled htoday
  rw [heq]
  split
  · rename_i hfirst
    -- the first day of the block goes, and the click is of a later one
    have hne : r.day ≠ max (r.day - 7) (s.today - 1085) := by omega
    have hblock : (nextHour r s).attached.erase (max (r.day - 7) (s.today - 1085)) =
        dayRange (max (r.day - 7) ((nextHour r s).today - 1085)) ((nextHour r s).today + 14) := by
      ext d
      rw [Finset.mem_erase, mem_dayRange]
      change _ ∧ d ∈ dayRange _ ((nextHour r s).today + 14) ↔ _
      rw [mem_dayRange]
      omega
    have hmem : r.day ∈ (nextHour r s).attached.erase (max (r.day - 7) (s.today - 1085)) := by
      rw [hblock, mem_dayRange]
      omega
    refine ⟨⟨hblock, ?_, h.retention, hstarted.trans hmono⟩, rfl⟩
    have hrows : (nextHour r s).rows.filter (fun r' => r'.day ≠ max (r.day - 7) (s.today - 1085)) =
        [r] := by
      change s.rows.filter _ = _
      rw [h.rows, List.filter_cons_of_pos (by simpa using hne), List.filter_nil]
    change ((nextHour r s).rows.filter _).filter _ = _
    rw [hrows, List.filter_cons_of_pos, List.filter_nil]
    exact (Bool.not_eq_true' _).mpr (swept_of_attached hmem h.retention)
  · have hblock : (nextHour r s).attached =
        dayRange (max (r.day - 7) ((nextHour r s).today - 1085)) ((nextHour r s).today + 14) := by
      ext d
      rw [mem_dayRange]
      change d ∈ dayRange _ ((nextHour r s).today + 14) ↔ _
      rw [mem_dayRange]
      omega
    have hmem : r.day ∈ (nextHour r s).attached := by
      rw [hblock, mem_dayRange]
      omega
    refine ⟨⟨hblock, ?_, h.retention, hstarted.trans hmono⟩, rfl⟩
    change s.rows.filter _ = _
    rw [h.rows, List.filter_cons_of_pos, List.filter_nil]
    exact (Bool.not_eq_true' _).mpr (swept_of_attached hmem h.retention)

/-- **The hour after that takes the click**, nine or ten days before its three years are over. -/
theorem removal_afterHour (h : Steady r s) (hrolled : r.rolledUp = true)
    (htoday : (nextHour r s).today = s.today + 1) (hold : s.today = r.day + 1085) :
    ∃ x ∈ (afterHour s).removed, ¬ Expired shipped x := by
  obtain ⟨k, heq⟩ := afterHour_eq h hrolled (le_of_eq htoday)
  have hfirst : max (r.day - 7) (s.today - 1085) = r.day := by omega
  rw [hfirst, if_pos (show r.day = (nextHour r s).today - 1086 by omega)] at heq
  refine ⟨(nextHour r s).removal r, ?_, ?_⟩
  · rw [heq]
    refine List.mem_append_left _ (List.mem_append_right _ (List.mem_map_of_mem ?_))
    change r ∈ s.rows.filter _
    rw [h.rows, List.filter_cons_of_pos (by simp)]
    exact List.mem_cons_self
  · have hthree := (sub_minusYears_three (nextHour r s).today).1
    have hclick := Int.emod_add_mul_ediv r.occurredAt dayMicros
    have hpart := Int.emod_nonneg r.occurredAt (show dayMicros ≠ 0 by decide)
    have htime := Int.emod_lt_of_pos (nextHour r s).now (show 0 < dayMicros by decide)
    have hday : r.day = r.occurredAt / dayMicros := rfl
    have hyears : min ((nextHour r s).removal r).retentionYears shipped.retentionYears = 3 := by
      change min (s.retention r.workspaceId) 3 = 3
      rw [h.retention, min_self]
    rw [Expired, hyears, not_lt]
    change minusYears (nextHour r s).today 3 * dayMicros + (nextHour r s).now % dayMicros ≤
      r.occurredAt
    have hbefore : minusYears (nextHour r s).today 3 + 1 ≤ r.day := by omega
    have hscaled := Int.mul_le_mul_of_nonneg_right hbefore (show 0 ≤ dayMicros by decide)
    rw [Int.add_mul, Int.one_mul] at hscaled
    rw [← hday, Int.mul_comm] at hclick
    omega

end Hourly

/-! ### Three years of hourly passes -/

/-- The first click of an install of 1 January 2026, at midnight. -/
def firstClick : Row := ⟨"first", "workspace", 20454 * dayMicros, true⟩

def januaryInstall : World :=
  .fresh (20454 * dayMicros) [firstClick] fun _ => 3

theorem steady_januaryInstall : Steady firstClick januaryInstall where
  attached := by decide
  rows := rfl
  retention := rfl
  started := by decide

/-- So many hours after the install began. -/
def At (n : Nat) (s : World) : Prop := s.now = (20454 * 24 + n) * hourMicros

theorem At.day {n : Nat} {s : World} (h : At n s) : s.today = 20454 + n / 24 := by
  have hmicros : (0 : Int) < hourMicros := by decide
  have hday : dayMicros = 24 * hourMicros := rfl
  rw [World.today, h, hday, Int.mul_ediv_mul_of_pos_left _ _ hmicros]
  omega

theorem At.nextHour {n : Nat} {s : World} (h : At n s) : At (n + 1) (nextHour firstClick s) := by
  change s.now + hourMicros = (20454 * 24 + (n + 1 : Nat)) * hourMicros
  rw [h, Nat.cast_succ]
  ring

/-- The install stays steady for 1086 days but an hour. -/
theorem steady_hours (n : Nat) (hn : n < 1086 * 24) :
    ∃ s, run (step shipped) januaryInstall (hours n) = some s ∧ Steady firstClick s ∧ At n s := by
  induction n with
  | zero =>
    refine ⟨januaryInstall, rfl, steady_januaryInstall, ?_⟩
    rw [At]
    decide
  | succ n ih =>
    obtain ⟨s, hrun, hsteady, hat⟩ := ih (by omega)
    have hday := hat.day
    have hnext := hat.nextHour.day
    have hclick : firstClick.day = 20454 := by decide
    obtain ⟨hsteady', hnow⟩ := hsteady.afterHour rfl (by omega) (by omega)
    refine ⟨afterHour s, ?_, hsteady', hnow.trans hat.nextHour⟩
    rw [hours, run_append, hrun, Option.bind_some, run_hourly]

/-- **Hourly passes take a click that is not three years old.**  Nothing is pending and no
lock is lost, yet the look-ahead and three years are more days than the cap allows. -/
theorem hourly_passes_lose_clicks :
    ¬ ∀ (now : Int) (rows : List Row) (retention : String → Int) (n : Nat) (s : World),
      (∀ r ∈ rows, r.rolledUp = true) →
      run (step shipped) (.fresh now rows retention) (hours n) = some s →
        ∀ x ∈ s.removed, Expired shipped x := by
  intro h
  obtain ⟨s, hrun, hsteady, hat⟩ := steady_hours (1086 * 24 - 1) (by decide)
  have hday := hat.day
  have hnext := hat.nextHour.day
  have hclick : firstClick.day = 20454 := by decide
  obtain ⟨x, hx, hyoung⟩ := removal_afterHour hsteady rfl (by omega) (by omega)
  have hlast : run (step shipped) januaryInstall (hours (1086 * 24)) = some (afterHour s) := by
    rw [show (1086 * 24 : Nat) = (1086 * 24 - 1) + 1 from rfl, hours, run_append, hrun,
      Option.bind_some, run_hourly]
  exact hyoung (h _ _ _ _ _ (by simp [firstClick]) hlast x hx)

end SnapUrl.Rollup.Retention
