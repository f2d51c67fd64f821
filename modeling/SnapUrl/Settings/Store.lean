import Mathlib.Data.List.Permutation
import SnapUrl.Lib.FoldStore
import SnapUrl.Lib.Run
import SnapUrl.Settings.KillSwitches

/-!
# The settings store of one instance

`apps/api/src/admin/platform-settings.service.ts`: the writes `update` and
`writeKillSwitches`, and the reads through the short cache.

* `act`: any number of writes and reads.  A write loads the store, then stores what it makes
  of it; a read that finds no cached snapshot loads one, then caches it.
* `UpToDate`: what a write has loaded is still there when it commits, and what a read has
  loaded is not older than a write that has dropped the cache by then.
* `storeHolds_of_guarded`: **the writes are in a serial order, the audit rows say what was
  replaced and no read is stale, in every run whose steps are up to date**.
* `switch_turns_back_on`: two writes that load before either commits.
-/

namespace SnapUrl.Settings.Store

open Lib

/-! ### Settings -/

/-- `SETTING_KEYS`. -/
inductive SettingKey where
  | signupMode
  | rateLimit
  | reservedSlugs
  | featureFlags
  | banner
  | newAccountLimits
  | botProtection
  | disposableEmails
  | killSwitches
deriving DecidableEq, Repr

/-- Only the kill switches are written in part. -/
def SettingValue : SettingKey → Type
  | .killSwitches => KillSwitchesSetting
  | _ => JsValue

/-- The effective value of every setting. -/
abbrev Values := (k : SettingKey) → SettingValue k

/-- The environment values that the defaults take over. -/
structure Env where
  throttleLimit : Nat
  throttleTtlSeconds : Nat
  newAccountLinkWindowDays : Nat
deriving DecidableEq, Repr

/-- `this.defaults`. -/
def serviceDefaults (env : Env) : Values
  | .signupMode => JsValue.str "open"
  | .rateLimit => JsValue.obj
    [("limit", .num env.throttleLimit), ("ttlSeconds", .num env.throttleTtlSeconds)]
  | .reservedSlugs => JsValue.arr []
  | .featureFlags => JsValue.obj []
  | .banner => JsValue.obj [("message", .str ""), ("level", .str "info")]
  | .newAccountLimits => JsValue.obj
    [("windowDays", .num env.newAccountLinkWindowDays), ("perDay", .num 20), ("perHour", .num 10)]
  | .botProtection => JsValue.obj [("provider", .str "none")]
  | .disposableEmails => JsValue.obj [("extraDomains", .arr []), ("allowDomains", .arr [])]
  | .killSwitches => defaultKillSwitches

/-- The rows of `platform_settings` that parse. -/
abbrev Rows := (k : SettingKey) → Option (SettingValue k)

/-- Every row, folded onto the defaults. -/
def load (defaults : Values) (rows : Rows) : Values := fun k => (rows k).getD (defaults k)

/-! ### Writes -/

inductive Request where
  /-- `writeKillSwitches`, with the changes that are folded onto the current set. -/
  | killSwitches (changes : KillSwitchesInput)
  | update (input : Rows)

/-- What a request makes of each setting.  The generic update never touches the kill
switches. -/
def Request.write : Request → Write SettingValue
  | .killSwitches changes => fun
    | .killSwitches => some fun current => foldKillSwitchChanges current changes
    | _ => none
  | .update input => fun k =>
    if k = .killSwitches then none else (input k).map fun value _ => value

/-- An audit row of one setting. -/
structure AuditRow where
  key : SettingKey
  before : SettingValue key
  after : SettingValue key
  /-- Ghost: the value that the write has replaced. -/
  replaced : SettingValue key

/-- The order in which a write goes through the keys. -/
def settingKeys : List SettingKey :=
  [.signupMode, .rateLimit, .reservedSlugs, .featureFlags, .banner, .newAccountLimits,
    .botProtection, .disposableEmails, .killSwitches]

/-- The rows after the upserts of a request that has loaded `before`. -/
def upsert (r : Request) (before : Values) (rows : Rows) : Rows := fun k =>
  match r.write k with
  | none => rows k
  | some f => some (f (before k))

/-- Its audit rows, one for each key it writes. -/
def auditRows (r : Request) (before stored : Values) : List AuditRow :=
  settingKeys.filterMap fun k =>
    (r.write k).map fun f => ⟨k, before k, f (before k), stored k⟩

/-! ### The instance -/

/-- `SETTINGS_CACHE_TTL_MS`. -/
def cacheTtlMs : Int := 60000

structure Snapshot where
  values : Values
  /-- Ghost: how many writes were committed when the rows were read. -/
  version : Nat

/-- A write in flight. -/
inductive Writer where
  | loaded (request : Request) (before : Values)
  /-- The write is committed; ghost: as which of all. -/
  | committed (index : Nat)

/-- A load in flight. -/
structure Reader where
  /-- Ghost: the writes, in the order they were committed, up to one that has returned. -/
  startedAfter : Nat
  /-- What the query has returned. -/
  rows : Option Snapshot

/-- What a read has returned. -/
structure ReadResult where
  startedAfter : Nat
  snapshot : Snapshot

structure State where
  now : Int
  rows : Rows
  audit : List AuditRow
  /-- Ghost: the requests in the order they were committed. -/
  committed : List Request
  /-- Ghost: the last of them that has dropped the cache. -/
  returned : Nat
  cache : Option Snapshot
  loadedAtMs : Int
  writers : List Writer
  readers : List Reader
  results : List ReadResult

/-- An instance that has just started. -/
def start (now : Int) (rows : Rows) : State := ⟨now, rows, [], [], 0, none, 0, [], [], []⟩

inductive Action where
  | tick (ms : Nat)
  /-- A write loads the current values. -/
  | write (request : Request)
  /-- Its transaction commits. -/
  | commit (writer : Nat)
  | abort (writer : Nat)
  /-- It drops the cache and returns. -/
  | invalidate (writer : Nat)
  /-- `snapshot`, through the cache. -/
  | snapshot
  /-- `getForAdmin`, which loads always. -/
  | getForAdmin
  /-- The query of a load returns its rows. -/
  | select (reader : Nat)
  /-- The load is cached and returned. -/
  | assign (reader : Nat)
  | fail (reader : Nat)

/-- The cached snapshot, when it is not stale. -/
def State.cached (s : State) : Option Snapshot :=
  if s.now - s.loadedAtMs < cacheTtlMs then s.cache else none

/-- What an action does, nothing when there is no such write or load. -/
def act (defaults : Values) (s : State) : Action → State
  | .tick ms => { s with now := s.now + ms }
  | .write r => { s with writers := s.writers ++ [.loaded r (load defaults s.rows)] }
  | .commit i =>
    match s.writers[i]? with
    | some (.loaded r before) =>
      { s with
        rows := upsert r before s.rows
        audit := s.audit ++ auditRows r before (load defaults s.rows)
        committed := s.committed ++ [r]
        writers := s.writers.set i (.committed (s.committed.length + 1)) }
    | _ => s
  | .abort i => { s with writers := s.writers.eraseIdx i }
  | .invalidate i =>
    match s.writers[i]? with
    | some (.committed index) =>
      { s with
        cache := none
        loadedAtMs := 0
        returned := max s.returned index
        writers := s.writers.eraseIdx i }
    | _ => s
  | .snapshot =>
    match s.cached with
    | some snap => { s with results := s.results ++ [⟨s.returned, snap⟩] }
    | none => { s with readers := s.readers ++ [⟨s.returned, none⟩] }
  | .getForAdmin => { s with readers := s.readers ++ [⟨s.returned, none⟩] }
  | .select j =>
    match s.readers[j]? with
    | some ⟨startedAfter, none⟩ =>
      { s with
        readers := s.readers.set j
          ⟨startedAfter, some ⟨load defaults s.rows, s.committed.length⟩⟩ }
    | _ => s
  | .assign j =>
    match s.readers[j]? with
    | some ⟨startedAfter, some snap⟩ =>
      { s with
        cache := some snap
        loadedAtMs := s.now
        readers := s.readers.eraseIdx j
        results := s.results ++ [⟨startedAfter, snap⟩] }
    | _ => s
  | .fail j => { s with readers := s.readers.eraseIdx j }

def step (defaults : Values) (s : State) (a : Action) : Option State := some (act defaults s a)

/-! ### What is claimed of a run -/

/-- What holds of every state that is reached. -/
structure StoreHolds (defaults : Values) (rows : Rows) (s : State) : Prop where
  /-- **The store is what some serial order of the committed writes makes of it.** -/
  serial : ∃ order : List Request, order.Perm s.committed ∧
    load defaults s.rows = applyAll (order.map Request.write) (load defaults rows)
  /-- **Every audit row says what was replaced.** -/
  audit : ∀ row ∈ s.audit, row.before = row.replaced
  /-- **A read is not older than a write that had returned before it began**, and has the
  values of one moment. -/
  reads : ∀ r ∈ s.results, r.startedAfter ≤ r.snapshot.version ∧
    Version (load defaults rows) (s.committed.map Request.write) r.snapshot.version
      r.snapshot.values

/-- **A write commits while what it has loaded is still stored, and a load is cached while it
has seen every write that has dropped the cache.** -/
def UpToDate (defaults : Values) (s : State) : Action → Prop
  | .commit i => ∀ (r : Request) (before : Values), s.writers[i]? = some (.loaded r before) →
    r.write.Current before (load defaults s.rows)
  | .assign j => ∀ (startedAfter : Nat) (snap : Snapshot),
    s.readers[j]? = some ⟨startedAfter, some snap⟩ → s.returned ≤ snap.version
  | _ => True

/-! ### What one step keeps -/

/-- What every step that is up to date keeps. -/
structure Inv (defaults : Values) (rows : Rows) (s : State) : Prop where
  store : load defaults s.rows =
    applyAll (s.committed.map Request.write) (load defaults rows)
  audit : ∀ row ∈ s.audit, row.before = row.replaced
  returned : s.returned ≤ s.committed.length
  writers : ∀ index, Writer.committed index ∈ s.writers → index ≤ s.committed.length
  cache : ∀ snap ∈ s.cache, s.returned ≤ snap.version ∧
    Version (load defaults rows) (s.committed.map Request.write) snap.version snap.values
  readers : ∀ r ∈ s.readers, r.startedAfter ≤ s.committed.length ∧ ∀ snap ∈ r.rows,
    r.startedAfter ≤ snap.version ∧
      Version (load defaults rows) (s.committed.map Request.write) snap.version snap.values
  results : ∀ r ∈ s.results, r.startedAfter ≤ r.snapshot.version ∧
    Version (load defaults rows) (s.committed.map Request.write) r.snapshot.version
      r.snapshot.values

section

variable {defaults : Values} {rows : Rows} {s : State}

theorem load_upsert (r : Request) (before : Values) (rows : Rows) :
    load defaults (upsert r before rows) = r.write.onto before (load defaults rows) := by
  funext k
  rw [load, upsert, Write.onto]
  cases r.write k <;> rfl

theorem inv_start (now : Int) : Inv defaults rows (start now rows) where
  store := rfl
  audit _ h := absurd h List.not_mem_nil
  returned := Nat.le_refl 0
  writers _ h := absurd h List.not_mem_nil
  cache _ h := absurd h (Option.not_mem_none _)
  readers _ h := absurd h List.not_mem_nil
  results _ h := absurd h List.not_mem_nil

/-- What the store holds now is its last version. -/
theorem Inv.version_now (h : Inv defaults rows s) :
    Version (load defaults rows) (s.committed.map Request.write) s.committed.length
      (load defaults s.rows) := by
  have hlast := version_length h.store
  rwa [List.length_map] at hlast

/-- A write that is current is the next one of the order. -/
theorem Inv.commit (h : Inv defaults rows s) {i : Nat} {r : Request} {before : Values}
    (hcurrent : r.write.Current before (load defaults s.rows)) :
    Inv defaults rows
      { s with
        rows := upsert r before s.rows
        audit := s.audit ++ auditRows r before (load defaults s.rows)
        committed := s.committed ++ [r]
        writers := s.writers.set i (.committed (s.committed.length + 1)) } := by
  have hlen : (s.committed ++ [r]).length = s.committed.length + 1 := List.length_append
  have hmap : (s.committed ++ [r]).map Request.write = s.committed.map Request.write ++ [r.write] :=
    List.map_append
  have hkeep : ∀ {n : Nat} {values : Values},
      Version (load defaults rows) (s.committed.map Request.write) n values →
      Version (load defaults rows) ((s.committed ++ [r]).map Request.write) n values := by
    intro n values hv
    rw [hmap]
    exact hv.append r.write
  refine ⟨?_, ?_, ?_, ?_, ?_, ?_, ?_⟩
  · rw [load_upsert, Write.onto_eq_apply hcurrent, h.store, hmap, applyAll_append_singleton]
  · intro row hrow
    rcases List.mem_append.mp hrow with hrow | hrow
    · exact h.audit row hrow
    · obtain ⟨k, -, hk⟩ := List.mem_filterMap.mp hrow
      obtain ⟨f, hf, rfl⟩ := Option.map_eq_some_iff.mp hk
      exact (hcurrent k (by rw [hf]; rfl)).symm
  · exact (Nat.le_succ_of_le h.returned).trans_eq hlen.symm
  · intro index hindex
    rw [hlen]
    rcases List.mem_or_eq_of_mem_set hindex with hmem | heq
    · exact Nat.le_succ_of_le (h.writers index hmem)
    · exact (Writer.committed.inj heq).le
  · exact fun snap hsnap => (h.cache snap hsnap).imp_right hkeep
  · intro reader hreader
    obtain ⟨hstart, hrows⟩ := h.readers reader hreader
    exact ⟨(Nat.le_succ_of_le hstart).trans_eq hlen.symm,
      fun snap hsnap => (hrows snap hsnap).imp_right hkeep⟩
  · exact fun result hresult => (h.results result hresult).imp_right hkeep

/-- **Every step that is up to date keeps the invariant.** -/
theorem inv_act (h : Inv defaults rows s) {a : Action} (hg : UpToDate defaults s a) :
    Inv defaults rows (act defaults s a) := by
  cases a with
  | tick ms => exact ⟨h.store, h.audit, h.returned, h.writers, h.cache, h.readers, h.results⟩
  | write r =>
    refine ⟨h.store, h.audit, h.returned, fun index hindex => ?_, h.cache, h.readers, h.results⟩
    rcases List.mem_append.mp hindex with hmem | hmem
    · exact h.writers index hmem
    · exact absurd (List.mem_singleton.mp hmem) Writer.noConfusion
  | commit i =>
    rw [act]
    split
    · next r before hw => exact h.commit (hg r before hw)
    · exact h
  | abort i =>
    exact ⟨h.store, h.audit, h.returned,
      fun index hindex => h.writers index (List.mem_of_mem_eraseIdx hindex), h.cache, h.readers,
      h.results⟩
  | invalidate i =>
    rw [act]
    split
    · next index hw =>
      refine ⟨h.store, h.audit, max_le h.returned (h.writers index (List.mem_of_getElem? hw)),
        fun index' hindex => h.writers index' (List.mem_of_mem_eraseIdx hindex),
        fun _ hnone => absurd hnone (Option.not_mem_none _), h.readers, h.results⟩
    · exact h
  | snapshot =>
    rw [act]
    split
    · next snap hsnap =>
      have hcache : snap ∈ s.cache := by
        rw [State.cached, Option.ite_none_right_eq_some] at hsnap
        exact hsnap.2
      refine ⟨h.store, h.audit, h.returned, h.writers, h.cache, h.readers, ?_⟩
      simp only [List.forall_mem_append, List.forall_mem_singleton]
      exact ⟨h.results, h.cache snap hcache⟩
    · refine ⟨h.store, h.audit, h.returned, h.writers, h.cache, ?_, h.results⟩
      simp only [List.forall_mem_append, List.forall_mem_singleton]
      exact ⟨h.readers, h.returned, fun _ hnone => absurd hnone (Option.not_mem_none _)⟩
  | getForAdmin =>
    refine ⟨h.store, h.audit, h.returned, h.writers, h.cache, ?_, h.results⟩
    simp only [act, List.forall_mem_append, List.forall_mem_singleton]
    exact ⟨h.readers, h.returned, fun _ hnone => absurd hnone (Option.not_mem_none _)⟩
  | select j =>
    rw [act]
    split
    · next startedAfter hr =>
      obtain ⟨hstart, -⟩ := h.readers _ (List.mem_of_getElem? hr)
      refine ⟨h.store, h.audit, h.returned, h.writers, h.cache, fun reader hreader => ?_,
        h.results⟩
      rcases List.mem_or_eq_of_mem_set hreader with hmem | rfl
      · exact h.readers reader hmem
      · refine ⟨hstart, fun snap hsnap => ?_⟩
        obtain rfl := Option.mem_some_iff.mp hsnap
        exact ⟨hstart, h.version_now⟩
    · exact h
  | assign j =>
    rw [act]
    split
    · next startedAfter snap hr =>
      have hseen := hg startedAfter snap hr
      obtain ⟨hstart, hversion⟩ := (h.readers _ (List.mem_of_getElem? hr)).2 snap rfl
      refine ⟨h.store, h.audit, h.returned, h.writers, fun snap' hsnap => ?_,
        fun reader hreader => h.readers reader (List.mem_of_mem_eraseIdx hreader), ?_⟩
      · obtain rfl := Option.mem_some_iff.mp hsnap
        exact ⟨hseen, hversion⟩
      · simp only [List.forall_mem_append, List.forall_mem_singleton]
        exact ⟨h.results, hstart, hversion⟩
    · exact h
  | fail j =>
    exact ⟨h.store, h.audit, h.returned, h.writers, h.cache,
      fun reader hreader => h.readers reader (List.mem_of_mem_eraseIdx hreader), h.results⟩

theorem Inv.storeHolds (h : Inv defaults rows s) : StoreHolds defaults rows s where
  serial := ⟨s.committed, List.Perm.refl _, h.store⟩
  audit := h.audit
  reads := h.results

end

/-! ### Every run -/

/-- **In every run whose steps are up to date, the writes are in a serial order, the audit rows
say what was replaced, and no read is stale.** -/
theorem storeHolds_of_guarded (defaults : Values) (now : Int) (rows : Rows) (as : List Action)
    (t : State) (hg : Guarded (step defaults) (UpToDate defaults) (start now rows) as)
    (hr : run (step defaults) (start now rows) as = some t) : StoreHolds defaults rows t := by
  have hinv : Inv defaults rows t := by
    refine invariant_of_guarded (G := UpToDate defaults) (fun s a s' h hg hs' => ?_) as
      (start now rows) t (inv_start now) hg hr
    obtain rfl := Option.some.inj hs'
    exact inv_act h hg
  exact hinv.storeHolds

/-! ### Two operators -/

def plainEnv : Env := ⟨100, 60, 7⟩

def noRows : Rows := fun _ => none

/-- A request that turns one switch off. -/
def switchOff (key : KillSwitchKey) : Request :=
  .killSwitches fun k => if k = key then some ⟨some false, none, none, none⟩ else none

/-- One write and the read after it. -/
def writeThenRead : List Action :=
  [.write (switchOff .emailOutbound), .commit 0, .invalidate 0, .snapshot, .select 0, .assign 0]

theorem storeHolds_writeThenRead : ∃ t,
    run (step (serviceDefaults plainEnv)) (start 0 noRows) writeThenRead = some t ∧
      StoreHolds (serviceDefaults plainEnv) noRows t := by
  refine ⟨_, rfl, storeHolds_of_guarded _ 0 noRows writeThenRead _ ?_ rfl⟩
  refine ⟨trivial, fun _ h => Option.some.inj h ▸ ⟨?_, fun _ h => Option.some.inj h ▸ ⟨trivial,
    fun _ h => Option.some.inj h ▸ ⟨trivial, fun _ h => Option.some.inj h ▸ ⟨trivial,
    fun _ h => Option.some.inj h ▸ ⟨?_, fun _ _ => trivial⟩⟩⟩⟩⟩⟩
  · intro r before hw
    obtain ⟨rfl, rfl⟩ := Writer.loaded.inj (Option.some.inj hw)
    exact fun _ _ => rfl
  · intro startedAfter snap hr
    obtain ⟨-, hsnap⟩ := Reader.mk.inj (Option.some.inj hr)
    obtain rfl := Option.some.inj hsnap
    exact Nat.le_refl 1

/-- Both operators load the switches before either write commits. -/
def bothLoadFirst : List Action :=
  [.write (switchOff .emailOutbound), .write (switchOff .errorTracking), .commit 0, .commit 1]

/-- **Mail that an operator has switched off is on again**, once another has switched off
something else. -/
theorem switch_turns_back_on : ¬ ∀ (defaults : Values) (now : Int) (rows : Rows)
    (as : List Action) (t : State), run (step defaults) (start now rows) as = some t →
      StoreHolds defaults rows t := by
  intro h
  obtain ⟨order, hperm, hstore⟩ :=
    (h (serviceDefaults plainEnv) 0 noRows bothLoadFirst _ rfl).serial
  have hmail : ∀ requests : List Request,
      requests = [switchOff .emailOutbound, switchOff .errorTracking] ∨
        requests = [switchOff .errorTracking, switchOff .emailOutbound] →
      (applyAll (requests.map Request.write) (load (serviceDefaults plainEnv) noRows)
        .killSwitches .emailOutbound).on = false := by
    rintro requests (rfl | rfl) <;> rfl
  have hoff := hmail order (List.perm_pair.mp hperm)
  rw [← hstore] at hoff
  exact absurd hoff (by decide)

end SnapUrl.Settings.Store
