import Mathlib.Algebra.Order.BigOperators.Group.List
import Mathlib.Algebra.Order.Floor.Ring
import Mathlib.Data.List.Dedup
import Mathlib.Data.Rat.Floor
import SnapUrl.Analytics.CityFloor

/-!
# The analytics overview

`overview` of `apps/api/src/analytics/analytics.service.ts` over the queries of
`analytics.reader.ts`, for the ranges of days.  A day is its number since the epoch.

* `ranked`: the groups of a query, by their sums.
* `Tables.topLinks`, `Tables.tagBreakdown`: the panels that join the links.
* `Faithful`: what the parts of an overview say of one another and of the link that is asked for.
* `faithful_iff`: **they do exactly when no row is dated after today and each of the busiest slugs
  and tags belongs to one link that is asked for**.
* `not_faithful`: one slug on two domains, and a panel of another link.
-/

namespace SnapUrl.Analytics

/-! ### The tables -/

structure ClickDaily where
  workspaceId : String
  linkId : String
  day : Int
  clicks : Nat
  uniques : Nat
  scans : Nat
  blocked : Nat
deriving DecidableEq, Repr

structure BreakdownDaily where
  workspaceId : String
  linkId : Option String
  day : Int
  dimension : String
  value : String
  count : Nat
deriving DecidableEq, Repr

structure Conversion where
  workspaceId : String
  linkId : Option String
  occurredAt : Int
deriving DecidableEq, Repr

structure Link where
  id : String
  domainId : String
  slug : String
  tags : List String
  managedBioPageId : Option String
deriving DecidableEq, Repr, Inhabited

structure Tables where
  clickDaily : List ClickDaily
  breakdownDaily : List BreakdownDaily
  conversions : List Conversion
  links : List Link
  /-- The primary key. -/
  links_nodup : (links.map Link.id).Nodup

/-- The order in which groups come where a query leaves it open. -/
structure Delivery where
  order : List Breakdown → List Breakdown
  perm : ∀ rows, (order rows).Perm rows

/-! ### The reader -/

structure Totals where
  clicks : Nat
  unique : Nat
  scans : Nat
  blocked : Nat
deriving DecidableEq, Repr

structure TimeseriesPoint where
  date : Int
  clicks : Nat
  unique : Nat
  scans : Nat
deriving DecidableEq, Repr

/-- The scope of a query: a link, or the whole workspace. -/
def inScope (scope : Option String) (linkId : String) : Bool := scope.all (· = linkId)

def sumOf {α : Type*} (f : α → Nat) (rows : List α) : Nat := (rows.map f).sum

def Tables.dailyRows (t : Tables) (workspaceId : String) (scope : Option String) (start : Int) :
    List ClickDaily :=
  t.clickDaily.filter fun r =>
    r.workspaceId = workspaceId && inScope scope r.linkId && start ≤ r.day

def totalsOf (rows : List ClickDaily) : Totals :=
  ⟨sumOf (·.clicks) rows, sumOf (·.uniques) rows, sumOf (·.scans) rows, sumOf (·.blocked) rows⟩

def Tables.totals (t : Tables) (workspaceId : String) (scope : Option String) (start : Int) :
    Totals := totalsOf (t.dailyRows workspaceId scope start)

def Tables.previousTotals (t : Tables) (workspaceId : String) (scope : Option String)
    (previousStart start : Int) : Totals :=
  totalsOf ((t.dailyRows workspaceId scope previousStart).filter (·.day < start))

/-- The point of a day. -/
def pointOf (rows : List ClickDaily) (day : Int) : TimeseriesPoint :=
  let ofDay := rows.filter (·.day = day)
  ⟨day, sumOf (·.clicks) ofDay, sumOf (·.uniques) ofDay, sumOf (·.scans) ofDay⟩

/-- The days that have rows. -/
def Tables.series (t : Tables) (workspaceId : String) (scope : Option String) (start : Int) :
    List TimeseriesPoint :=
  let rows := t.dailyRows workspaceId scope start
  ((rows.map (·.day)).dedup.insertionSort (· ≤ ·)).map (pointOf rows)

/-- What is counted under a label. -/
def sumUnder (entries : List (String × Nat)) (label : String) : Nat :=
  sumOf Prod.snd (entries.filter (·.1 = label))

/-- `group by` the label with the sum of each group. -/
def groupSum (entries : List (String × Nat)) : List Breakdown :=
  (entries.map Prod.fst).dedup.map fun label => ⟨label, sumUnder entries label, none⟩

/-- `order by` the sum, descending. -/
def ranked (d : Delivery) (entries : List (String × Nat)) : List Breakdown :=
  sortByValue (d.order (groupSum entries))

def Tables.breakdown (d : Delivery) (t : Tables) (workspaceId dimension : String) (start : Int)
    (linkId : Option String) : List Breakdown :=
  ranked d ((t.breakdownDaily.filter fun r => r.workspaceId = workspaceId &&
    r.dimension = dimension && start ≤ r.day && linkId.all (r.linkId = some ·)).map fun r =>
    (r.value, r.count))

/-- The clicks under the labels of the link that each row joins. -/
def Tables.entriesBy (t : Tables) (labels : Link → List String) (rows : List ClickDaily) :
    List (String × Nat) :=
  rows.flatMap fun r => (t.links.filter (·.id = r.linkId)).flatMap fun link =>
    (labels link).map fun label => (label, r.clicks)

/-- The label of the top links; managed bio links have none. -/
def slugLabels (link : Link) : List String :=
  if link.managedBioPageId.isNone then [link.slug] else []

def Tables.tagBreakdown (d : Delivery) (t : Tables) (workspaceId : String) (start : Int) :
    List Breakdown :=
  (ranked d (t.entriesBy Link.tags (t.dailyRows workspaceId none start))).take 8

def Tables.topLinks (d : Delivery) (t : Tables) (workspaceId : String) (start : Int) :
    List Breakdown :=
  (ranked d (t.entriesBy slugLabels (t.dailyRows workspaceId none start))).take 8

def millisPerDay : Int := 24 * 60 * 60 * 1000

def Tables.conversionTotals (t : Tables) (workspaceId : String) (scope : Option String)
    (start : Int) : Nat :=
  t.conversions.countP fun c => c.workspaceId = workspaceId &&
    start * millisPerDay ≤ c.occurredAt && scope.all (c.linkId = some ·)

def Tables.previousConversionTotals (t : Tables) (workspaceId : String) (scope : Option String)
    (previousStart start : Int) : Nat :=
  t.conversions.countP fun c => c.workspaceId = workspaceId &&
    previousStart * millisPerDay ≤ c.occurredAt && c.occurredAt < start * millisPerDay &&
    scope.all (c.linkId = some ·)

/-! ### The service -/

/-- `7d`, `30d`, `90d` and `12m`; the series of `24h` is read off the clicks. -/
inductive AnalyticsRange where
  | sevenDays
  | thirtyDays
  | ninetyDays
  | twelveMonths
deriving DecidableEq, Repr

def RANGE_DAYS : AnalyticsRange → Nat
  | .sevenDays => 7
  | .thirtyDays => 30
  | .ninetyDays => 90
  | .twelveMonths => 365

structure Window where
  start : Int
  previousStart : Int

def windowFor (now : Int) (days : Nat) : Window :=
  let start := now / millisPerDay - days + 1
  ⟨start, start - days⟩

def fillSeries (rows : List TimeseriesPoint) (start : Int) (days : Nat) : List TimeseriesPoint :=
  (List.range days).map fun i : Nat =>
    (rows.find? (·.date = start + i)).getD ⟨start + i, 0, 0, 0⟩

def percentChange (before after : Nat) : Option ℚ :=
  if before = 0 then none
  else some (⌊((after - before : ℚ) / before) * 1000 + 1 / 2⌋ / 10)

def topN (rows : List Breakdown) : List Breakdown := rows.take 8

def FLAGS : List (String × String) :=
  [("IN", "🇮🇳"), ("US", "🇺🇸"), ("GB", "🇬🇧"), ("AE", "🇦🇪"), ("SG", "🇸🇬"),
    ("AU", "🇦🇺"), ("CA", "🇨🇦"), ("DE", "🇩🇪"), ("FR", "🇫🇷"), ("JP", "🇯🇵"),
    ("BR", "🇧🇷"), ("NL", "🇳🇱"), ("ZA", "🇿🇦"), ("ID", "🇮🇩")]

def COUNTRY_NAMES : List (String × String) :=
  [("IN", "India"), ("US", "United States"), ("GB", "United Kingdom"), ("AE", "UAE"),
    ("SG", "Singapore"), ("AU", "Australia"), ("CA", "Canada"), ("DE", "Germany"),
    ("FR", "France"), ("JP", "Japan"), ("BR", "Brazil"), ("NL", "Netherlands"),
    ("ZA", "South Africa"), ("ID", "Indonesia")]

def countryRow (c : Breakdown) : Breakdown where
  label := (COUNTRY_NAMES.lookup c.label).getD c.label
  value := c.value
  icon := some ((FLAGS.lookup c.label).getD "🌐")

structure Deltas where
  clicks : Option ℚ
  unique : Option ℚ
  scans : Option ℚ
  conversions : Option ℚ

/-- What an overview counts for the link that is asked for, or for the workspace. -/
structure Counts where
  totals : Totals
  conversions : Nat
  deltas : Deltas
  series : List TimeseriesPoint
  countries : List Breakdown
  cities : List Breakdown
  devices : List Breakdown
  browsers : List Breakdown
  referrers : List Breakdown

structure Overview extends Counts where
  tags : List Breakdown
  topLinks : List Breakdown

def overview (d : Delivery) (t : Tables) (workspaceId : String) (range : AnalyticsRange)
    (linkId : Option String) (now : Int) : Overview :=
  let days := RANGE_DAYS range
  let start := (windowFor now days).start
  let previousStart := (windowFor now days).previousStart
  let current := t.totals workspaceId linkId start
  let previous := t.previousTotals workspaceId linkId previousStart start
  let breakdown := fun dimension => t.breakdown d workspaceId dimension start linkId
  let conversionCount := t.conversionTotals workspaceId linkId start
  let previousConversions := t.previousConversionTotals workspaceId linkId previousStart start
  { totals := current
    conversions := conversionCount
    deltas :=
      { clicks := percentChange previous.clicks current.clicks
        unique := percentChange previous.unique current.unique
        scans := percentChange previous.scans current.scans
        conversions := percentChange previousConversions conversionCount }
    series := fillSeries (t.series workspaceId linkId start) start days
    countries := (topN (breakdown "country")).map countryRow
    cities := applyCityFloor (breakdown "city") CITY_MIN_CLICKS 8
    devices := topN (breakdown "device")
    browsers := topN (breakdown "browser")
    referrers := topN (breakdown "referrer")
    tags := t.tagBreakdown d workspaceId start
    topLinks := t.topLinks d workspaceId start }

/-! ### What is claimed of it -/

/-- The tables with the rows of one link only. -/
def Tables.only (t : Tables) (id : String) : Tables where
  clickDaily := t.clickDaily.filter (·.linkId = id)
  breakdownDaily := t.breakdownDaily.filter (·.linkId = some id)
  conversions := t.conversions.filter (·.linkId = some id)
  links := t.links
  links_nodup := t.links_nodup

/-- The clicks of a link in the workspace, from a day on. -/
def Tables.clicksOf (t : Tables) (workspaceId : String) (start : Int) (link : Link) : Nat :=
  sumOf (·.clicks) ((t.dailyRows workspaceId none start).filter (·.linkId = link.id))

/-- A link of its user that is asked for. -/
def Tables.Candidate (t : Tables) (scope : Option String) (link : Link) : Prop :=
  link ∈ t.links ∧ link.managedBioPageId = none ∧ inScope scope link.id = true

/-- **A row for each link that is listed, with its own clicks**, and none left out has more. -/
structure ListsLinks (candidate : Link → Prop) (clicks : Link → Nat) (panel : List Breakdown) :
    Prop where
  rows : ∃ listed : List Link, listed.Nodup ∧ (∀ link ∈ listed, candidate link) ∧
    panel = listed.map (fun link => ⟨link.slug, clicks link, none⟩) ∧
    ∀ link, candidate link → link ∉ listed → clicks link = 0 ∨
      panel.length = 8 ∧ ∀ row ∈ panel, clicks link ≤ row.value
  ordered : panel.Pairwise fun a b => b.value ≤ a.value

/-- The days of a series, one after another. -/
structure AddsUp (series : List TimeseriesPoint) (totals : Totals) (start : Int) (days : Nat) :
    Prop where
  dates : series.map (·.date) = (List.range days).map fun i : Nat => start + i
  clicks : sumOf (·.clicks) series = totals.clicks
  unique : sumOf (·.unique) series = totals.unique
  scans : sumOf (·.scans) series = totals.scans

structure Faithful (d : Delivery) (t : Tables) (workspaceId : String) (range : AnalyticsRange)
    (linkId : Option String) (now : Int) : Prop where
  series : AddsUp (overview d t workspaceId range linkId now).series
    (overview d t workspaceId range linkId now).totals
    (windowFor now (RANGE_DAYS range)).start (RANGE_DAYS range)
  topLinks : ListsLinks (t.Candidate linkId)
    (t.clicksOf workspaceId (windowFor now (RANGE_DAYS range)).start)
    (overview d t workspaceId range linkId now).topLinks
  /-- **The counts are those of the link alone.** -/
  counts : ∀ id ∈ linkId, (overview d t workspaceId range linkId now).toCounts =
    (overview d (t.only id) workspaceId range none now).toCounts
  /-- So is every row of the tags. -/
  tags : ∀ id ∈ linkId, ∀ row ∈ (overview d t workspaceId range linkId now).tags,
    ∃ link ∈ t.links, link.id = id ∧ row.label ∈ link.tags ∧ row.value =
      link.tags.count row.label *
        t.clicksOf workspaceId (windowFor now (RANGE_DAYS range)).start link

/-! ### When it is so -/

/-- A label belongs to one link that is asked for: the others under it have no clicks. -/
def Tables.Sole (t : Tables) (labels : Link → List String) (clicks : Link → Nat)
    (candidate : Link → Prop) (label : String) : Prop :=
  ∃ link ∈ t.links, candidate link ∧ label ∈ labels link ∧
    ∀ other ∈ t.links, other.id ≠ link.id → label ∈ labels other → clicks other = 0

structure Separable (d : Delivery) (t : Tables) (workspaceId : String) (linkId : Option String)
    (start : Int) (days : Nat) : Prop where
  /-- **Nothing is counted after today.** -/
  dated : ∀ r ∈ t.dailyRows workspaceId linkId start, start + days ≤ r.day →
    r.clicks = 0 ∧ r.uniques = 0 ∧ r.scans = 0
  slugs : ∀ slug ∈ (t.topLinks d workspaceId start).map (·.label),
    t.Sole slugLabels (t.clicksOf workspaceId start) (t.Candidate linkId) slug
  tags : ∀ id ∈ linkId, ∀ tag ∈ (t.tagBreakdown d workspaceId start).map (·.label),
    t.Sole Link.tags (t.clicksOf workspaceId start) (·.id = id) tag

/-! ### Sums -/

section

variable {α β : Type*} (f : α → Nat)

theorem sumOf_cons (a : α) (rows : List α) : sumOf f (a :: rows) = f a + sumOf f rows := rfl

theorem sumOf_append (rows rows' : List α) :
    sumOf f (rows ++ rows') = sumOf f rows + sumOf f rows' := by
  rw [sumOf, List.map_append, List.sum_append]
  rfl

theorem sumOf_eq_zero_iff (rows : List α) : sumOf f rows = 0 ↔ ∀ a ∈ rows, f a = 0 := by
  rw [sumOf, List.sum_eq_zero_iff_forall_eq_nat, List.forall_mem_map]

theorem le_sumOf {a : α} {rows : List α} (h : a ∈ rows) : f a ≤ sumOf f rows :=
  List.le_sum_of_mem (List.mem_map_of_mem h)

/-- The rows of a filter and those it leaves. -/
theorem sumOf_filter_add (p : α → Bool) (rows : List α) :
    sumOf f (rows.filter p) + sumOf f (rows.filter fun a => !p a) = sumOf f rows := by
  rw [← sumOf_append]
  exact ((List.filter_append_perm p rows).map f).sum_eq

theorem sumOf_add (g : α → Nat) (rows : List α) :
    sumOf (fun a => f a + g a) rows = sumOf f rows + sumOf g rows :=
  List.sum_map_add

/-- **A sum is one of its terms when the others are nothing.** -/
theorem sumOf_eq_iff [DecidableEq β] {key : α → β} {rows : List α} (h : (rows.map key).Nodup)
    {a : α} (ha : a ∈ rows) :
    sumOf f rows = f a ↔ ∀ b ∈ rows, key b ≠ key a → f b = 0 := by
  induction rows with
  | nil => cases ha
  | cons c rows ih =>
    rw [List.map_cons, List.nodup_cons] at h
    rw [sumOf_cons]
    rcases List.mem_cons.mp ha with rfl | hrest
    · have hkey : ∀ b ∈ rows, key b ≠ key a := by
        intro b hb heq
        exact h.1 (heq ▸ List.mem_map_of_mem hb)
      rw [Nat.add_eq_left, sumOf_eq_zero_iff]
      constructor
      · intro hall b hb hne
        rcases List.mem_cons.mp hb with rfl | hb
        · exact absurd rfl hne
        · exact hall b hb
      · exact fun hall b hb => hall b (List.mem_cons_of_mem _ hb) (hkey b hb)
    · have hkey : key c ≠ key a := fun heq => h.1 (heq ▸ List.mem_map_of_mem hrest)
      have hle := le_sumOf f hrest
      constructor
      · intro heq b hb hne
        rcases List.mem_cons.mp hb with rfl | hb
        · omega
        · exact (ih h.2 hrest).mp (by omega) b hb hne
      · intro hall
        have hzero := hall c List.mem_cons_self hkey
        have hsum := (ih h.2 hrest).mpr fun b hb => hall b (List.mem_cons_of_mem _ hb)
        omega

end

/-! ### The series -/

section

variable {rows : List ClickDaily} {start : Int} {days : Nat}

/-- The rows of days one after another. -/
theorem sumOf_days (f : ClickDaily → Nat) (h : ∀ r ∈ rows, start ≤ r.day) (days : Nat) :
    sumOf (fun i : Nat => sumOf f (rows.filter (·.day = start + i))) (List.range days) =
      sumOf f (rows.filter (·.day < start + days)) := by
  induction days with
  | zero =>
    have hnone : rows.filter (·.day < start + (0 : Nat)) = [] := by
      refine List.filter_eq_nil_iff.mpr fun r hr hlt => ?_
      have hle := h r hr
      have hlt := of_decide_eq_true hlt
      omega
    rw [hnone]
    rfl
  | succ days ih =>
    have hsplit := sumOf_filter_add f (·.day < start + days)
      (rows.filter (·.day < start + (days + 1 : Nat)))
    rw [List.filter_filter, List.filter_filter] at hsplit
    rw [List.range_succ, sumOf_append, ih, ← hsplit]
    refine congrArg₂ (· + ·) (congrArg _ (List.filter_congr fun r _ => ?_)) ?_
    · rw [Bool.eq_iff_iff, Bool.and_eq_true, decide_eq_true_eq, decide_eq_true_eq]
      omega
    · refine (Nat.add_zero _).trans (congrArg _ (List.filter_congr fun r _ => ?_))
      rw [Bool.eq_iff_iff, Bool.and_eq_true, Bool.not_eq_true', decide_eq_true_eq,
        decide_eq_true_eq, decide_eq_false_iff_not]
      omega

end

theorem find?_map_pointOf (rows : List ClickDaily) (dates : List Int) (day : Int) :
    (dates.map (pointOf rows)).find? (·.date = day) =
      if day ∈ dates then some (pointOf rows day) else none := by
  induction dates with
  | nil => rfl
  | cons date dates ih =>
    rw [List.map_cons, List.find?_cons, ih]
    by_cases h : date = day
    · subst h
      simp [pointOf]
    · have hdate : decide ((pointOf rows date).date = day) = false := decide_eq_false h
      rw [hdate]
      simp [Ne.symm h]

theorem pointOf_of_notMem {rows : List ClickDaily} {day : Int} (h : day ∉ rows.map (·.day)) :
    pointOf rows day = ⟨day, 0, 0, 0⟩ := by
  have hnone : rows.filter (·.day = day) = [] := by
    refine List.filter_eq_nil_iff.mpr fun r hr hday => h ?_
    exact of_decide_eq_true hday ▸ List.mem_map_of_mem hr
  rw [pointOf, hnone]
  rfl

/-- **The series has the point of every day.** -/
theorem fillSeries_series (t : Tables) (workspaceId : String) (scope : Option String) (start : Int)
    (days : Nat) : fillSeries (t.series workspaceId scope start) start days =
      (List.range days).map fun i : Nat =>
        pointOf (t.dailyRows workspaceId scope start) (start + i) := by
  rw [fillSeries]
  refine List.map_congr_left fun i _ => ?_
  rw [Tables.series, find?_map_pointOf]
  split
  · rfl
  · next h =>
    rw [List.mem_insertionSort, List.mem_dedup] at h
    exact (pointOf_of_notMem h).symm

theorem mem_dailyRows {t : Tables} {workspaceId : String} {scope : Option String} {start : Int}
    {r : ClickDaily} : r ∈ t.dailyRows workspaceId scope start ↔ r ∈ t.clickDaily ∧
      r.workspaceId = workspaceId ∧ inScope scope r.linkId = true ∧ start ≤ r.day := by
  rw [Tables.dailyRows, List.mem_filter, Bool.and_eq_true, Bool.and_eq_true, decide_eq_true_eq,
    decide_eq_true_eq, and_assoc]

/-- **The days add up to the totals exactly when nothing is counted after them.** -/
theorem addsUp_iff (t : Tables) (workspaceId : String) (scope : Option String) (start : Int)
    (days : Nat) : AddsUp (fillSeries (t.series workspaceId scope start) start days)
      (t.totals workspaceId scope start) start days ↔
    ∀ r ∈ t.dailyRows workspaceId scope start, start + days ≤ r.day →
      r.clicks = 0 ∧ r.uniques = 0 ∧ r.scans = 0 := by
  have hstart : ∀ r ∈ t.dailyRows workspaceId scope start, start ≤ r.day := fun r hr =>
    (mem_dailyRows.mp hr).2.2.2
  -- one column: what the days hold and what is after them make up its total
  have hcolumn : ∀ f : ClickDaily → Nat,
      sumOf (fun i : Nat => sumOf f ((t.dailyRows workspaceId scope start).filter
        (·.day = start + i))) (List.range days) = sumOf f (t.dailyRows workspaceId scope start) ↔
      ∀ r ∈ t.dailyRows workspaceId scope start, start + days ≤ r.day → f r = 0 := by
    intro f
    rw [sumOf_days f hstart, ← sumOf_filter_add f (·.day < start + days)
      (t.dailyRows workspaceId scope start), eq_comm, Nat.add_eq_left, sumOf_eq_zero_iff]
    simp only [List.mem_filter, Bool.not_eq_true', decide_eq_false_iff_not, not_lt, and_imp]
  have hseries : ∀ g : TimeseriesPoint → Nat,
      sumOf g (fillSeries (t.series workspaceId scope start) start days) =
        sumOf (fun i : Nat => g (pointOf (t.dailyRows workspaceId scope start) (start + i)))
          (List.range days) := by
    intro g
    rw [fillSeries_series, sumOf, List.map_map]
    rfl
  constructor
  · rintro ⟨-, hclicks, hunique, hscans⟩ r hr hday
    rw [hseries] at hclicks hunique hscans
    exact ⟨(hcolumn _).mp hclicks r hr hday, (hcolumn _).mp hunique r hr hday,
      (hcolumn _).mp hscans r hr hday⟩
  · intro h
    refine ⟨?_, ?_, ?_, ?_⟩
    · rw [fillSeries_series, List.map_map]
      rfl
    · rw [hseries]
      exact (hcolumn _).mpr fun r hr hday => (h r hr hday).1
    · rw [hseries]
      exact (hcolumn _).mpr fun r hr hday => (h r hr hday).2.1
    · rw [hseries]
      exact (hcolumn _).mpr fun r hr hday => (h r hr hday).2.2

/-! ### The panels -/

section

variable {t : Tables} {d : Delivery} {labels : Link → List String}

theorem sumUnder_append (entries entries' : List (String × Nat)) (label : String) :
    sumUnder (entries ++ entries') label = sumUnder entries label + sumUnder entries' label := by
  rw [sumUnder, List.filter_append, sumOf_append]
  rfl

/-- The entries of one link. -/
theorem sumUnder_map (names : List String) (clicks : Nat) (label : String) :
    sumUnder (names.map fun name => (name, clicks)) label = names.count label * clicks := by
  induction names with
  | nil => exact (Nat.zero_mul _).symm
  | cons name names ih =>
    rw [List.map_cons, ← List.singleton_append, sumUnder_append, ih, List.count_cons]
    by_cases h : name = label
    · subst h
      simp [sumUnder, sumOf, Nat.add_mul, Nat.add_comm]
    · simp [sumUnder, sumOf, h]

/-- The entries of the links that one row joins. -/
theorem sumUnder_row (links : List Link) (r : ClickDaily) (label : String) :
    sumUnder ((links.filter (·.id = r.linkId)).flatMap fun link =>
      (labels link).map fun label => (label, r.clicks)) label =
    sumOf (fun link => if link.id = r.linkId then (labels link).count label * r.clicks else 0)
      links := by
  induction links with
  | nil => rfl
  | cons link links ih =>
    rw [sumOf_cons, ← ih]
    by_cases h : link.id = r.linkId
    · rw [List.filter_cons_of_pos (by simpa using h), List.flatMap_cons, sumUnder_append,
        sumUnder_map, if_pos h]
    · rw [List.filter_cons_of_neg (by simpa using h), if_neg h, Nat.zero_add]

/-- **A label counts what each link under it does.** -/
theorem sumUnder_entriesBy (links : List Link) (rows : List ClickDaily) (label : String) :
    sumUnder (rows.flatMap fun r => (links.filter (·.id = r.linkId)).flatMap fun link =>
      (labels link).map fun label => (label, r.clicks)) label =
    sumOf (fun link => (labels link).count label *
      sumOf (·.clicks) (rows.filter (·.linkId = link.id))) links := by
  induction rows with
  | nil =>
    refine ((sumOf_eq_zero_iff _ links).mpr fun link _ => ?_).symm
    exact Nat.mul_zero _
  | cons r rows ih =>
    rw [List.flatMap_cons, sumUnder_append, sumUnder_row, ih, ← sumOf_add]
    refine congrArg List.sum (List.map_congr_left fun link _ => ?_)
    by_cases h : r.linkId = link.id
    · rw [if_pos h.symm, List.filter_cons_of_pos (by simpa using h), sumOf_cons, Nat.mul_add]
    · rw [if_neg (Ne.symm h), List.filter_cons_of_neg (by simpa using h), Nat.zero_add]

theorem mem_ranked {entries : List (String × Nat)} {row : Breakdown} : row ∈ ranked d entries ↔
    row.label ∈ entries.map Prod.fst ∧ row.value = sumUnder entries row.label ∧
      row.icon = none := by
  rw [ranked, mem_sortByValue, (d.perm _).mem_iff, groupSum, List.mem_map]
  constructor
  · rintro ⟨label, hlabel, rfl⟩
    exact ⟨List.mem_dedup.mp hlabel, rfl, rfl⟩
  · rintro ⟨hlabel, hvalue, hicon⟩
    exact ⟨row.label, List.mem_dedup.mpr hlabel, by rw [← hvalue, ← hicon]⟩

theorem labels_ranked_nodup (d : Delivery) (entries : List (String × Nat)) :
    ((ranked d entries).map (·.label)).Nodup := by
  have hperm : (ranked d entries).Perm (groupSum entries) :=
    (List.perm_insertionSort _ _).trans (d.perm _)
  rw [(hperm.map _).nodup_iff, groupSum, List.map_map]
  exact (List.map_id _).symm ▸ List.nodup_dedup _

theorem label_mem {entries : List (String × Nat)} {label : String}
    (h : 0 < sumUnder entries label) : label ∈ entries.map Prod.fst := by
  by_contra hnot
  refine absurd ((sumOf_eq_zero_iff _ _).mpr fun entry hentry => ?_) (Nat.ne_of_gt h)
  rw [List.mem_filter] at hentry
  exact absurd (of_decide_eq_true hentry.2 ▸ List.mem_map_of_mem hentry.1) hnot

/-- **What a panel leaves out has no more than any of its rows.** -/
theorem left_out {entries : List (String × Nat)} {row : Breakdown} (h : row ∈ ranked d entries)
    (hnot : row ∉ (ranked d entries).take 8) : ((ranked d entries).take 8).length = 8 ∧
      ∀ row' ∈ (ranked d entries).take 8, row.value ≤ row'.value := by
  have hsplit := List.take_append_drop 8 (ranked d entries)
  have hpairwise : ((ranked d entries).take 8 ++ (ranked d entries).drop 8).Pairwise
      fun a b => b.value ≤ a.value := by
    rw [hsplit]
    exact pairwise_sortByValue _
  have hdrop : row ∈ (ranked d entries).drop 8 := by
    rw [← hsplit] at h
    exact (List.mem_append.mp h).resolve_left hnot
  constructor
  · have hlength := List.length_pos_of_mem hdrop
    rw [List.length_drop] at hlength
    rw [List.length_take]
    omega
  · exact fun row' hrow' => (List.pairwise_append.mp hpairwise).2.2 row' hrow' row hdrop

variable {workspaceId : String} {start : Int} {candidate : Link → Prop} {label : String}

theorem sumUnder_eq : sumUnder (t.entriesBy labels (t.dailyRows workspaceId none start)) label =
    sumOf (fun link => (labels link).count label * t.clicksOf workspaceId start link) t.links :=
  sumUnder_entriesBy t.links _ label

/-- **A label is one link's when its sum is what that link has.** -/
theorem sole_iff : t.Sole labels (t.clicksOf workspaceId start) candidate label ↔
    ∃ link ∈ t.links, candidate link ∧ label ∈ labels link ∧
      sumUnder (t.entriesBy labels (t.dailyRows workspaceId none start)) label =
        (labels link).count label * t.clicksOf workspaceId start link := by
  rw [Tables.Sole]
  refine exists_congr fun link => and_congr_right fun hlink => and_congr_right fun _ =>
    and_congr_right fun _ => ?_
  rw [sumUnder_eq, sumOf_eq_iff _ t.links_nodup hlink]
  refine forall₂_congr fun other _ => imp_congr_right fun _ => ?_
  rw [Nat.mul_eq_zero, List.count_eq_zero, or_iff_not_imp_left, not_not]

theorem mem_slugLabels {link : Link} :
    label ∈ slugLabels link ↔ link.managedBioPageId = none ∧ link.slug = label := by
  rw [slugLabels]
  cases link.managedBioPageId <;> simp [eq_comm]

theorem count_slugLabels {link : Link} (h : label ∈ slugLabels link) :
    (slugLabels link).count label = 1 := by
  obtain ⟨hmanaged, rfl⟩ := mem_slugLabels.mp h
  simp [slugLabels, hmanaged]

/-- **The rows of the tags are one link's exactly when the tags are.** -/
theorem tags_iff {id : String} :
    (∀ row ∈ t.tagBreakdown d workspaceId start, ∃ link ∈ t.links, link.id = id ∧
      row.label ∈ link.tags ∧
      row.value = link.tags.count row.label * t.clicksOf workspaceId start link) ↔
    ∀ tag ∈ (t.tagBreakdown d workspaceId start).map (·.label),
      t.Sole Link.tags (t.clicksOf workspaceId start) (·.id = id) tag := by
  rw [List.forall_mem_map]
  refine forall₂_congr fun row hrow => ?_
  rw [sole_iff, ← (mem_ranked.mp (List.mem_of_mem_take hrow)).2.1]

/-- **The panel lists links exactly when each of its slugs is one link's.** -/
theorem topLinks_iff {scope : Option String} :
    ListsLinks (t.Candidate scope) (t.clicksOf workspaceId start) (t.topLinks d workspaceId start) ↔
    ∀ slug ∈ (t.topLinks d workspaceId start).map (·.label),
      t.Sole slugLabels (t.clicksOf workspaceId start) (t.Candidate scope) slug := by
  rw [List.forall_mem_map]
  have hvalue : ∀ row ∈ t.topLinks d workspaceId start, row.value = sumUnder
      (t.entriesBy slugLabels (t.dailyRows workspaceId none start)) row.label ∧
        row.icon = none := fun row hrow => (mem_ranked.mp (List.mem_of_mem_take hrow)).2
  constructor
  · rintro ⟨⟨listed, -, hcandidate, hpanel, -⟩, -⟩ row hrow
    have hmem := hrow
    rw [hpanel] at hmem
    obtain ⟨link, hlink, hlinkRow⟩ := List.mem_map.mp hmem
    have hc := hcandidate link hlink
    have hlabel : row.label ∈ slugLabels link := by
      rw [← hlinkRow]
      exact mem_slugLabels.mpr ⟨hc.2.1, rfl⟩
    refine sole_iff.mpr ⟨link, hc.1, hc, hlabel, ?_⟩
    rw [count_slugLabels hlabel, Nat.one_mul, ← (hvalue row hrow).1, ← hlinkRow]
  · intro h
    have hsole : ∀ row ∈ t.topLinks d workspaceId start, ∃ link, t.Candidate scope link ∧
        link.slug = row.label ∧ t.clicksOf workspaceId start link = row.value := by
      intro row hrow
      obtain ⟨link, -, hc, hlabel, hsum⟩ := sole_iff.mp (h row hrow)
      rw [count_slugLabels hlabel, Nat.one_mul, ← (hvalue row hrow).1] at hsum
      exact ⟨link, hc, (mem_slugLabels.mp hlabel).2, hsum.symm⟩
    choose! link hlink using hsole
    refine ⟨⟨(t.topLinks d workspaceId start).map link, ?_, ?_, ?_, fun other hother hnot => ?_⟩,
      (pairwise_sortByValue _).sublist (List.take_sublist _ _)⟩
    · have hlabels : ((t.topLinks d workspaceId start).map (·.label)).Nodup :=
        (labels_ranked_nodup d _).sublist ((List.take_sublist _ _).map _)
      refine List.Nodup.map_on (fun row hrow row' hrow' heq => ?_) hlabels.of_map
      refine List.inj_on_of_nodup_map hlabels hrow hrow' ?_
      rw [← (hlink row hrow).2.1, ← (hlink row' hrow').2.1, heq]
    · intro other hother
      obtain ⟨row, hrow, rfl⟩ := List.mem_map.mp hother
      exact (hlink row hrow).1
    · rw [List.map_map]
      refine (List.map_id _).symm.trans (List.map_congr_left fun row hrow => ?_)
      rw [Function.comp_apply, (hlink row hrow).2.1, (hlink row hrow).2.2, ← (hvalue row hrow).2]
      rfl
    · by_cases hzero : t.clicksOf workspaceId start other = 0
      · exact Or.inl hzero
      right
      have hlabel : other.slug ∈ slugLabels other := mem_slugLabels.mpr ⟨hother.2.1, rfl⟩
      have hle : t.clicksOf workspaceId start other ≤ sumUnder
          (t.entriesBy slugLabels (t.dailyRows workspaceId none start)) other.slug := by
        have hterm := le_sumOf (fun link => (slugLabels link).count other.slug *
          t.clicksOf workspaceId start link) hother.1
        rw [count_slugLabels hlabel, Nat.one_mul] at hterm
        rw [sumUnder_eq]
        exact hterm
      have hranked : (⟨other.slug, sumUnder (t.entriesBy slugLabels
          (t.dailyRows workspaceId none start)) other.slug, none⟩ : Breakdown) ∈
            ranked d (t.entriesBy slugLabels (t.dailyRows workspaceId none start)) :=
        mem_ranked.mpr ⟨label_mem ((Nat.pos_of_ne_zero hzero).trans_le hle), rfl, rfl⟩
      by_cases hmem : (⟨other.slug, sumUnder (t.entriesBy slugLabels
          (t.dailyRows workspaceId none start)) other.slug, none⟩ : Breakdown) ∈
            t.topLinks d workspaceId start
      · -- the link of that row has all the clicks of the slug
        obtain ⟨hc, hslug, hclicks⟩ := hlink _ hmem
        have hown := mem_slugLabels.mpr ⟨hc.2.1, hslug⟩
        have hothers := (sumOf_eq_iff (fun link => (slugLabels link).count other.slug *
          t.clicksOf workspaceId start link) t.links_nodup hc.1).mp (by
            rw [← sumUnder_eq, count_slugLabels hown, Nat.one_mul, hclicks])
        refine absurd ?_ hzero
        by_contra hne
        have hid : other.id ≠ (link _).id := fun heq => hnot (by
          rw [List.inj_on_of_nodup_map t.links_nodup hother.1 hc.1 heq]
          exact List.mem_map_of_mem hmem)
        have hnone := hothers other hother.1 hid
        rw [count_slugLabels hlabel, Nat.one_mul] at hnone
        exact hne hnone
      · obtain ⟨hlength, hall⟩ := left_out hranked hmem
        exact ⟨hlength, fun row hrow => hle.trans (hall row hrow)⟩

end

/-! ### The counts of one link -/

section

variable (t : Tables) (d : Delivery) (workspaceId id : String) (start previousStart : Int)

theorem dailyRows_only : (t.only id).dailyRows workspaceId none start =
    t.dailyRows workspaceId (some id) start := by
  rw [Tables.dailyRows, Tables.only, List.filter_filter]
  refine List.filter_congr fun r _ => ?_
  have hid : decide (r.linkId = id) = decide (id = r.linkId) := decide_eq_decide.mpr eq_comm
  rw [inScope, inScope, Option.all_none, Option.all_some, Bool.and_true, Bool.and_right_comm, hid]

theorem breakdown_only (dimension : String) :
    (t.only id).breakdown d workspaceId dimension start none =
      t.breakdown d workspaceId dimension start (some id) := by
  rw [Tables.breakdown, Tables.breakdown, Tables.only, List.filter_filter]
  refine congrArg (fun rows : List BreakdownDaily =>
    ranked d (rows.map fun r => (r.value, r.count))) (List.filter_congr fun r _ => ?_)
  rw [Option.all_none, Option.all_some, Bool.and_true]

theorem conversionTotals_only : (t.only id).conversionTotals workspaceId none start =
    t.conversionTotals workspaceId (some id) start := by
  rw [Tables.conversionTotals, Tables.only, List.countP_filter]
  refine List.countP_congr fun c _ => ?_
  rw [Option.all_none, Option.all_some, Bool.and_true]

theorem previousConversionTotals_only :
    (t.only id).previousConversionTotals workspaceId none previousStart start =
      t.previousConversionTotals workspaceId (some id) previousStart start := by
  rw [Tables.previousConversionTotals, Tables.only, List.countP_filter]
  refine List.countP_congr fun c _ => ?_
  rw [Option.all_none, Option.all_some, Bool.and_true]

/-- **What is counted for a link is counted of its rows.** -/
theorem overview_only (range : AnalyticsRange) (now : Int) :
    (overview d t workspaceId range (some id) now).toCounts =
      (overview d (t.only id) workspaceId range none now).toCounts := by
  simp only [overview, Tables.totals, Tables.previousTotals, Tables.series, dailyRows_only,
    breakdown_only, conversionTotals_only, previousConversionTotals_only]

end

/-- **The parts of an overview agree, and speak of the link that is asked for, exactly when nothing
is counted after today and each of the busiest slugs, and of the busiest tags of a link's overview,
belongs to one link that is asked for.** -/
theorem faithful_iff (d : Delivery) (t : Tables) (workspaceId : String) (range : AnalyticsRange)
    (linkId : Option String) (now : Int) :
    Faithful d t workspaceId range linkId now ↔
      Separable d t workspaceId linkId (windowFor now (RANGE_DAYS range)).start
        (RANGE_DAYS range) := by
  constructor
  · intro h
    exact ⟨(addsUp_iff t workspaceId linkId _ _).mp h.series, topLinks_iff.mp h.topLinks,
      fun id hid => tags_iff.mp (h.tags id hid)⟩
  · intro h
    refine ⟨(addsUp_iff t workspaceId linkId _ _).mpr h.dated, topLinks_iff.mpr h.slugs,
      fun id hid => ?_, fun id hid => tags_iff.mpr (h.tags id hid)⟩
    obtain rfl := Option.mem_def.mp hid
    exact overview_only t d workspaceId id range now

/-! ### Three overviews -/

/-- Groups as they come. -/
def inOrder : Delivery := ⟨id, fun _ => List.Perm.refl _⟩

/-- A link on each of two domains, both as `/sale`. -/
def saleTables : Tables where
  clickDaily := [⟨"W1", "L1", 19700, 5, 4, 0, 0⟩, ⟨"W1", "L2", 19700, 3, 3, 0, 0⟩]
  breakdownDaily := []
  conversions := []
  links := [⟨"L1", "D1", "sale", ["spring"], none⟩, ⟨"L2", "D2", "sale", [], none⟩]
  links_nodup := by decide

/-- **The two links are one row of the workspace's panel**, and the overview of the second shows the
clicks and the tag of the first. -/
theorem not_faithful :
    (overview inOrder saleTables "W1" .sevenDays none (19700 * millisPerDay)).topLinks =
        [⟨"sale", 8, none⟩] ∧
      ¬ Faithful inOrder saleTables "W1" .sevenDays none (19700 * millisPerDay) ∧
      (overview inOrder saleTables "W1" .sevenDays (some "L2") (19700 * millisPerDay)).tags =
        [⟨"spring", 5, none⟩] ∧
      ¬ Faithful inOrder saleTables "W1" .sevenDays (some "L2") (19700 * millisPerDay) := by
  have htop : (overview inOrder saleTables "W1" .sevenDays none
      (19700 * millisPerDay)).topLinks = [⟨"sale", 8, none⟩] := by decide +kernel
  have htags : (overview inOrder saleTables "W1" .sevenDays (some "L2")
      (19700 * millisPerDay)).tags = [⟨"spring", 5, none⟩] := by decide +kernel
  refine ⟨htop, fun h => ?_, htags, fun h => ?_⟩
  · obtain ⟨⟨listed, -, hcandidate, hpanel, -⟩, -⟩ := h.topLinks
    rw [htop] at hpanel
    have hrow : (⟨"sale", 8, none⟩ : Breakdown) ∈ listed.map _ := hpanel ▸ List.mem_singleton_self _
    obtain ⟨link, hlink, heq⟩ := List.mem_map.mp hrow
    have hclicks := congrArg Breakdown.value heq
    revert hclicks
    have hall : ∀ link ∈ saleTables.links, saleTables.clicksOf "W1"
        (windowFor (19700 * millisPerDay) 7).start link ≠ 8 := by decide +kernel
    exact hall link (hcandidate link hlink).1
  · have hmem : (⟨"spring", 5, none⟩ : Breakdown) ∈ (overview inOrder saleTables "W1" .sevenDays
        (some "L2") (19700 * millisPerDay)).tags := by
      rw [htags]
      exact List.mem_singleton_self _
    obtain ⟨link, hlink, hid, htag, -⟩ := h.tags "L2" rfl _ hmem
    have hall : ∀ link ∈ saleTables.links, link.id = "L2" → "spring" ∉ link.tags := by
      decide +kernel
    exact hall link hlink hid htag

end SnapUrl.Analytics
