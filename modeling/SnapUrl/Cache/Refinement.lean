import SnapUrl.Cache.Adapters
import SnapUrl.Cache.Granularity
import SnapUrl.Cache.Throttle

/-!
# Every adapter keeps the contract

The calls of each adapter against what the port prescribes to its live entries.

* `Memory.refines`: the memory adapter keeps the contract in every run.
* `Redis.refines`: Redis does where no merge loses a race or moves an expiry.
* `DynamoDb.refines`: DynamoDB does where no counter and no sketch outlives its expiry.
* `adapters_keep_contract`: **in such runs every answer is the one that the port prescribes**,
  the one of exact expiries where no call comes in the last second of a key, and the throttler
  over it lets `limit` hits of a window through.
* `expired_counter_counts_on`: DynamoDB counts on from a window that is over.
-/

namespace SnapUrl.Cache

open Lib Domain

/-! ### Live entries of written stores -/

section

variable {g : Expiry} {κ : Kind} {now : Nat}

theorem find_update (g : Expiry) (now : Nat) (s : Store) (key : Key) (e : Option (Entry key.kind)) :
    g.find now (Function.update s key e) =
      Function.update (g.find now s) key (e.filter (g.alive now)) := by
  funext k
  by_cases hk : k = key
  · subst hk
    rw [Expiry.find, Function.update_self, Function.update_self]
  · rw [Expiry.find, Function.update_of_ne hk, Function.update_of_ne hk, Expiry.find]

theorem find_idem (s : Store) (k : Key) :
    (g.find now s k).filter (g.alive now) = g.find now s k := by
  simp [Expiry.find, Option.filter_filter]

/-- A live entry with another value is live. -/
theorem filter_revalued {s : Store} {k : Key} {e : Entry k.kind} (h : g.find now s k = some e)
    (value : Value k.kind) :
    (some (Entry.mk value e.expiresAt)).filter (g.alive now) = some ⟨value, e.expiresAt⟩ :=
  Option.filter_some_pos (Option.filter_eq_some_iff.mp h).2

/-- Where no time to live is no life, a stamp is all that an entry needs. -/
theorem filter_stamped (hzero : g.live now (g.stamp now 0) = false) (value : Value κ)
    (ttl : Option Nat) :
    (some (Entry.mk value (ttl.map (g.stamp now)))).filter (g.alive now) =
      g.keep now value ttl := by
  cases ttl with
  | none => rfl
  | some ttl =>
    rw [Expiry.keep]
    split
    · rename_i h
      subst h
      refine Option.filter_some_neg ?_
      simp [Expiry.alive, hzero]
    · refine Option.filter_some_pos ?_
      have hlt := g.lt_stamp now ttl
      exact g.live_of_lt (by omega)

end

/-! ### Memory -/

namespace Memory

variable {now : Nat} {s : Store}

theorem filter_expiryFrom {κ : Kind} (value : Value κ) (ttl : Option Nat) :
    (some (Entry.mk value (expiryFrom now ttl))).filter (expiry.alive now) =
      expiry.keep now value ttl := by
  refine filter_stamped (decide_eq_false ?_) value ttl
  change ¬ now < now + 0 * 1000
  omega

theorem live_eq (k : Key) :
    live now s k = (Function.update s k (expiry.find now s k), expiry.find now s k) := by
  rw [live, Expiry.find]
  split
  · rename_i hk
    rw [hk, Option.filter_none, ← hk, Function.update_eq_self]
  · rename_i e hk
    have halive : expiry.alive now e = !e.expiresAt.any fun expiresAt => expiresAt ≤ now := by
      cases he : e.expiresAt with
      | none =>
        rw [Expiry.alive, he]
        rfl
      | some stamp =>
        rw [Expiry.alive, he, Option.all_some, Option.any_some, ← decide_not]
        exact decide_eq_decide.mpr not_le.symm
    rw [hk, Option.filter_some, halive]
    cases e.expiresAt.any fun expiresAt => decide (expiresAt ≤ now) with
    | true => rfl
    | false =>
      change (s, some e) = (Function.update s k (some e), some e)
      rw [← hk, Function.update_eq_self]

theorem pttl_eq (key : Key) :
    pttl now s key = (Function.update s key (expiry.find now s key),
      .remaining (remaining now (expiry.find now s key))) := by
  rw [pttl, live_eq]
  cases hfind : expiry.find now s key with
  | none => rfl
  | some e =>
    cases he : e.expiresAt with
    | none => simp [remaining, he]
    | some stamp =>
      have halive := (Option.filter_eq_some_iff.mp hfind).2
      rw [Expiry.alive, he, Option.all_some] at halive
      have hlt : now < stamp := of_decide_eq_true halive
      have hmax : max 0 ((stamp : Int) - now) = stamp - now := max_eq_right (by omega)
      simp [remaining, he, hmax]

theorem take_prescribes (estimate : Sketch → Nat) (now : Nat) (s : Store) (c : Call) :
    (take estimate now s c).2 =
        (prescribe expiry estimate now c (expiry.find now s c.key)).2 ∧
      expiry.find now (take estimate now s c).1 =
        Function.update (expiry.find now s) c.key
          (prescribe expiry estimate now c (expiry.find now s c.key)).1 := by
  cases c with
  | get name =>
    rw [take, get, live_eq]
    refine ⟨rfl, ?_⟩
    rw [find_update, find_idem]
    rfl
  | set name value ttl =>
    refine ⟨rfl, ?_⟩
    change expiry.find now (Function.update s ⟨.text, name⟩ _) = _
    rw [find_update, filter_expiryFrom]
    rfl
  | incr name ttl =>
    rw [take, incr, live_eq]
    dsimp only [Call.key]
    cases hfind : expiry.find now s ⟨.count, name⟩ with
    | none =>
      refine ⟨rfl, ?_⟩
      rw [find_update, find_update, Function.update_idem, filter_expiryFrom]
      rfl
    | some e =>
      refine ⟨rfl, ?_⟩
      rw [find_update, find_update, Function.update_idem, filter_revalued hfind]
      rfl
  | expire key ttl =>
    rw [take, expire, live_eq]
    dsimp only [Call.key]
    cases hfind : expiry.find now s key with
    | none =>
      refine ⟨rfl, ?_⟩
      rw [find_update]
      rfl
    | some e =>
      refine ⟨rfl, ?_⟩
      rw [find_update, find_update, Function.update_idem]
      exact congrArg (Function.update _ _) (filter_expiryFrom e.value (some ttl))
  | del key =>
    refine ⟨rfl, ?_⟩
    exact find_update expiry now s key none
  | pttl key =>
    rw [take, pttl_eq]
    refine ⟨rfl, ?_⟩
    rw [find_update, find_idem]
    rfl
  | mergeSketch name sketch ttl =>
    rw [take, mergeSketch, live_eq]
    dsimp only [Call.key]
    cases hfind : expiry.find now s ⟨.sketch, name⟩ with
    | none =>
      refine ⟨rfl, ?_⟩
      rw [find_update, find_update, Function.update_idem, filter_expiryFrom]
      rfl
    | some e =>
      refine ⟨rfl, ?_⟩
      rw [find_update, find_update, Function.update_idem, filter_revalued hfind]
      rfl

theorem refines (estimate : Sketch → Nat) :
    Refines (machine estimate) expiry estimate (fun _ _ _ => True) (fun _ => True)
      fun now s => expiry.find now s where
  start := ⟨trivial, fun _ => rfl⟩
  keeps _ _ _ _ _ _ _ _ := trivial
  later _ _ _ k hle := expiry.find_later hle k
  quiet now s c s' _ _ hact := by cases hact
  call now s c s' c' reply _ _ _ hact := by
    obtain ⟨rfl, hdone⟩ := Prod.mk.inj (Option.some.inj hact)
    obtain ⟨rfl, rfl⟩ := Prod.mk.inj (Option.some.inj hdone)
    obtain ⟨hreply, hview⟩ := take_prescribes estimate now s c
    exact ⟨hreply, fun k => congrFun hview k⟩

end Memory

/-! ### Redis -/

namespace Redis

variable {now : Nat} {s : Store}

/-- A write of a merge meets the live entry it has read, and the expiry that it sets is the
one of that entry. -/
def Unraced (now : Nat) (s : Store) (m : Merging (Option (Entry .sketch)))
    (read : Option (Entry .sketch)) : Prop :=
  merged m read = merged m (expiry.find now s ⟨.sketch, m.name⟩) ∧
    ∀ e ∈ expiry.find now s ⟨.sketch, m.name⟩,
      e.expiresAt = m.ttlSeconds.map (expiry.stamp now)

/-- Where Redis keeps the contract: no key is set for zero seconds, and no merge loses a race
or moves an expiry. -/
def Sound (now : Nat) (s : State) : Action → Prop
  | .call (.set _ _ ttl) => ttl ≠ some 0
  | .set client => ∀ m ∈ s.merging client, ∀ read ∈ m.read,
      m.ttlSeconds ≠ some 0 ∧ Unraced now s.store m read
  | _ => True

theorem keep_of_ne_zero {κ : Kind} {value : Value κ} {ttl : Option Nat} (h : ttl ≠ some 0) :
    expiry.keep now value ttl = some ⟨value, ttl.map (expiry.stamp now)⟩ := by
  cases ttl with
  | none => rfl
  | some ttl =>
    rw [Expiry.keep, if_neg fun h0 => h (congrArg some h0)]
    rfl

theorem SET_eq {key : Key} {value : Value key.kind} {ttl : Option Nat} (h : ttl ≠ some 0) :
    SET now s key value ttl = some (Function.update s key (expiry.keep now value ttl)) := by
  cases ttl with
  | none => rfl
  | some ttl =>
    have hne : ttl ≠ 0 := fun h0 => h (congrArg some h0)
    rw [SET, if_neg hne, Expiry.keep, if_neg hne]
    rfl

theorem find_EXPIRE (key : Key) (ttl : Nat) :
    expiry.find now (EXPIRE now s key ttl) = Function.update (expiry.find now s) key
      ((expiry.find now s key).bind fun e => expiry.keep now e.value (some ttl)) := by
  rw [EXPIRE]
  cases hfind : expiry.find now s key with
  | none =>
    have hsame : Function.update (expiry.find now s) key none = expiry.find now s := by
      rw [← hfind, Function.update_eq_self]
    rw [Option.bind_none, hsame]
  | some e =>
    rw [Option.bind_some]
    change expiry.find now (Function.update s key (expiry.keep now e.value (some ttl))) = _
    rw [find_update, expiry.keep_live]

theorem INCR_of_none {name : String} (h : expiry.find now s ⟨.count, name⟩ = none) :
    INCR now s name = (Function.update s ⟨.count, name⟩ (some ⟨(1 : Nat), none⟩), 1) := by
  rw [INCR, h]
  rfl

theorem INCR_of_some {name : String} {e : Entry .count}
    (h : expiry.find now s ⟨.count, name⟩ = some e) :
    INCR now s name =
      (Function.update s ⟨.count, name⟩ (some ⟨e.value + (1 : Nat), e.expiresAt⟩),
        e.value + (1 : Nat)) := by
  rw [INCR, h]
  rfl

theorem INCR_WITH_EXPIRY_prescribes (name : String) (ttl : Option Nat)
    (hpos : ∀ e : Entry .count, expiry.find now s ⟨.count, name⟩ = some e → 0 < e.value) :
    Reply.count (INCR_WITH_EXPIRY now s name ttl).2 =
        (countUp expiry now ttl (expiry.find now s ⟨.count, name⟩)).2 ∧
      expiry.find now (INCR_WITH_EXPIRY now s name ttl).1 =
        Function.update (expiry.find now s) ⟨.count, name⟩
          (countUp expiry now ttl (expiry.find now s ⟨.count, name⟩)).1 := by
  rw [INCR_WITH_EXPIRY]
  cases hfind : expiry.find now s ⟨.count, name⟩ with
  | none =>
    have hnew := find_update expiry now s ⟨.count, name⟩ (some ⟨(1 : Nat), none⟩)
    rw [INCR_of_none hfind]
    cases ttl with
    | none => exact ⟨rfl, hnew⟩
    | some ttl =>
      refine ⟨rfl, (find_EXPIRE _ _).trans ?_⟩
      rw [hnew, Function.update_self, Function.update_idem]
      rfl
  | some e =>
    have hmore : e.value + (1 : Nat) ≠ 1 := (Nat.lt_add_of_pos_left (hpos e hfind)).ne'
    have hnew := find_update expiry now s ⟨.count, name⟩
      (some ⟨e.value + (1 : Nat), e.expiresAt⟩)
    rw [filter_revalued hfind] at hnew
    rw [INCR_of_some hfind]
    cases ttl with
    | none => exact ⟨rfl, hnew⟩
    | some ttl =>
      dsimp only
      rw [if_neg hmore]
      exact ⟨rfl, hnew⟩

theorem take_prescribes (estimate : Sketch → Nat) {c : Call} {store : Store} {reply : Reply}
    (hsound : Sound now ⟨s, fun _ => none⟩ (.call c))
    (hpos : ∀ name, ∀ e : Entry .count, expiry.find now s ⟨.count, name⟩ = some e → 0 < e.value)
    (h : take now s c = some (store, reply)) :
    reply = (prescribe expiry estimate now c (expiry.find now s c.key)).2 ∧
      expiry.find now store = Function.update (expiry.find now s) c.key
        (prescribe expiry estimate now c (expiry.find now s c.key)).1 := by
  cases c with
  | get name =>
    obtain ⟨rfl, rfl⟩ := Prod.mk.inj (Option.some.inj h)
    exact ⟨rfl, (Function.update_eq_self _ _).symm⟩
  | set name value ttl =>
    rw [take, SET_eq hsound] at h
    obtain ⟨rfl, rfl⟩ := Prod.mk.inj (Option.some.inj h)
    refine ⟨rfl, ?_⟩
    rw [find_update, expiry.keep_live]
    rfl
  | incr name ttl =>
    obtain ⟨rfl, rfl⟩ := Prod.mk.inj (Option.some.inj h)
    exact INCR_WITH_EXPIRY_prescribes name ttl (hpos name)
  | expire key ttl =>
    obtain ⟨rfl, rfl⟩ := Prod.mk.inj (Option.some.inj h)
    exact ⟨rfl, find_EXPIRE key ttl⟩
  | del key =>
    obtain ⟨rfl, rfl⟩ := Prod.mk.inj (Option.some.inj h)
    exact ⟨rfl, find_update expiry now s key none⟩
  | pttl key =>
    obtain ⟨rfl, rfl⟩ := Prod.mk.inj (Option.some.inj h)
    exact ⟨rfl, (Function.update_eq_self _ _).symm⟩
  | mergeSketch name sketch ttl => cases h

/-- An unraced write of a merge. -/
theorem write_prescribes (estimate : Sketch → Nat) {m : Merging (Option (Entry .sketch))}
    {read : Option (Entry .sketch)} {store : Store} (hzero : m.ttlSeconds ≠ some 0)
    (hunraced : Unraced now s m read)
    (h : SET now s ⟨.sketch, m.name⟩ (merged m read) m.ttlSeconds = some store) :
    Reply.estimate (estimate (merged m read)) =
        (mergeInto expiry estimate now m.sketch m.ttlSeconds
          (expiry.find now s ⟨.sketch, m.name⟩)).2 ∧
      expiry.find now store = Function.update (expiry.find now s) ⟨.sketch, m.name⟩
        (mergeInto expiry estimate now m.sketch m.ttlSeconds
          (expiry.find now s ⟨.sketch, m.name⟩)).1 := by
  obtain ⟨hread, hexpiry⟩ := hunraced
  rw [SET_eq hzero] at h
  obtain rfl := Option.some.inj h
  rw [find_update, expiry.keep_live, hread]
  cases hfind : expiry.find now s ⟨.sketch, m.name⟩ with
  | none => exact ⟨rfl, rfl⟩
  | some e =>
    refine ⟨rfl, congrArg (Function.update _ _) ?_⟩
    rw [keep_of_ne_zero hzero, ← hexpiry e hfind]
    rfl

/-- What an action can come to. -/
theorem act_cases {estimate : Sketch → Nat} {s s' : State} {a : Action}
    {answered : Option (Call × Reply)}
    (h : (machine estimate).act now s a = some (s', answered)) :
    (answered = none ∧ s'.store = s.store) ∨
    (∃ c reply, a = .call c ∧ take now s.store c = some (s'.store, reply) ∧
      answered = some (c, reply)) ∨
    ∃ client m read, a = .set client ∧ s.merging client = some m ∧ m.read = some read ∧
      ((SET now s.store ⟨.sketch, m.name⟩ (merged m read) m.ttlSeconds = none ∧
          s'.store = s.store ∧
          answered = some (.mergeSketch m.name m.sketch m.ttlSeconds, .error)) ∨
        SET now s.store ⟨.sketch, m.name⟩ (merged m read) m.ttlSeconds = some s'.store ∧
          answered = some (.mergeSketch m.name m.sketch m.ttlSeconds,
            .estimate (estimate (merged m read)))) := by
  cases a with
  | call c =>
    simp only [machine] at h
    split at h
    · cases h
    · rename_i store reply htake
      obtain ⟨rfl, rfl⟩ := Prod.mk.inj (Option.some.inj h)
      exact Or.inr (Or.inl ⟨c, reply, rfl, htake, rfl⟩)
  | begin client name sketch ttl =>
    simp only [machine] at h
    split at h
    · cases h
    · obtain ⟨rfl, rfl⟩ := Prod.mk.inj (Option.some.inj h)
      exact Or.inl ⟨rfl, rfl⟩
  | getBuffer client =>
    simp only [machine] at h
    split at h
    · cases h
    · obtain ⟨rfl, rfl⟩ := Prod.mk.inj (Option.some.inj h)
      exact Or.inl ⟨rfl, rfl⟩
  | set client =>
    simp only [machine] at h
    split at h
    · cases h
    · rename_i m hm
      split at h
      · cases h
      · rename_i read hread
        refine Or.inr (Or.inr ⟨client, m, read, rfl, hm, hread, ?_⟩)
        split at h
        · rename_i hset
          obtain ⟨rfl, rfl⟩ := Prod.mk.inj (Option.some.inj h)
          exact Or.inl ⟨hset, rfl, rfl⟩
        · rename_i store hset
          obtain ⟨rfl, rfl⟩ := Prod.mk.inj (Option.some.inj h)
          exact Or.inr ⟨hset, rfl⟩

theorem refines (estimate : Sketch → Nat) :
    Refines (machine estimate) expiry estimate Sound (fun _ => True)
      fun now s => expiry.find now s.store where
  start := ⟨trivial, fun _ => rfl⟩
  keeps _ _ _ _ _ _ _ _ := trivial
  later _ _ _ k hle := expiry.find_later hle k
  quiet now s a s' _ hsound hact := by
    intro k
    rcases act_cases hact with ⟨-, hstore⟩ | ⟨c, reply, -, -, h⟩ |
      ⟨client, m, read, -, -, -, ⟨-, -, h⟩ | ⟨-, h⟩⟩
    · rw [hstore]
    · cases h
    · cases h
    · cases h
  call now s a s' c reply _ hsound hpos hact := by
    rcases act_cases hact with ⟨h, -⟩ | ⟨c, reply, rfl, htake, h⟩ |
      ⟨client, m, read, rfl, hm, hread, hset⟩
    · cases h
    · obtain ⟨rfl, rfl⟩ := Prod.mk.inj (Option.some.inj h)
      have hsound' : Sound now ⟨s.store, fun _ => none⟩ (.call c) := by
        cases c with
        | set name value ttl => exact hsound
        | _ => trivial
      obtain ⟨hreply, hview⟩ := take_prescribes estimate hsound' hpos htake
      exact ⟨hreply, fun k => congrFun hview k⟩
    · obtain ⟨hzero, hunraced⟩ := hsound m hm read hread
      rcases hset with ⟨hset, -, -⟩ | ⟨hset, h⟩
      · rw [SET_eq hzero] at hset
        cases hset
      · obtain ⟨rfl, rfl⟩ := Prod.mk.inj (Option.some.inj h)
        obtain ⟨hreply, hview⟩ := write_prescribes estimate hzero hunraced hset
        exact ⟨hreply, fun k => congrFun hview k⟩

end Redis

/-! ### DynamoDB -/

namespace DynamoDb

variable {now : Nat} {t : Table}

/-- What an item holds for a reader. -/
def Item.entry {κ : Kind} (i : Item κ) : Option (Entry κ) :=
  i.value.map fun value => ⟨value, i.expiresAt.map (1000 * ·)⟩

def entries (t : Table) : Store := fun k => (t.item k).bind Item.entry

/-- Every item has a value. -/
def Valued (s : State) : Prop := ∀ k, ∀ i ∈ s.table.item k, i.value.isSome = true

/-- Where DynamoDB keeps the contract: a read is of the item as it is, a counter is not
expired and has an expiry if it is to have one, an expiry is set for a live key, and a merge
does not lose its last race and replaces the live item that it has read. -/
def Sound (now : Nat) (s : State) : Action → Prop
  | .call (.get name) lag => s.table.read lag ⟨.text, name⟩ = s.table.item ⟨.text, name⟩
  | .call (.pttl key) lag => s.table.read lag key = s.table.item key
  | .call (.incr name ttl) _ => ∀ i ∈ s.table.item ⟨.count, name⟩,
      i.expired now = false ∧ (i.expiresAt = none → ttl = none)
  | .call (.expire key _) _ => ∃ i ∈ s.table.item key, i.expired now = false
  | .write client => ∀ m ∈ s.merging client, ∀ read ∈ m.read,
      if conditionHolds s.table m read then
        read = s.table.item ⟨.sketch, m.name⟩ ∧
          ∀ i ∈ s.table.item ⟨.sketch, m.name⟩, i.expired now = false
      else m.attempt + 1 < MERGE_MAX_ATTEMPTS
  | _ => True

theorem item_put (k j : Key) (i : Option (Item k.kind)) :
    (t.put k i).item j = Function.update t.item k i j := by
  by_cases hj : j = k
  · subst hj
    rw [Table.item, Table.read, Table.put, Function.update_self, Function.update_self]
    rfl
  · rw [Table.item, Table.read, Table.put, Function.update_of_ne hj, Function.update_of_ne hj]
    rfl

theorem entries_put (k : Key) (i : Option (Item k.kind)) :
    entries (t.put k i) = Function.update (entries t) k (i.bind Item.entry) := by
  funext j
  rw [entries, item_put]
  by_cases hj : j = k
  · subst hj
    rw [Function.update_self, Function.update_self]
  · rw [Function.update_of_ne hj, Function.update_of_ne hj]
    rfl

theorem find_put (k : Key) (i : Option (Item k.kind)) :
    expiry.find now (entries (t.put k i)) = Function.update (expiry.find now (entries t)) k
      ((i.bind Item.entry).filter (expiry.alive now)) := by
  rw [entries_put, find_update]

/-- A reader that looks at the expiry sees the live entries. -/
theorem alive_entry {κ : Kind} (value : Value κ) (i : Item κ) :
    expiry.alive now (Entry.mk value (i.expiresAt.map (1000 * ·))) = !i.expired now := by
  rw [Expiry.alive, Item.expired]
  cases i.expiresAt with
  | none => rfl
  | some expiresAt =>
    rw [Option.map_some, Option.all_some, Option.any_some, ← decide_not]
    refine decide_eq_decide.mpr ?_
    rw [nowSeconds]
    omega

theorem find_eq (k : Key) :
    expiry.find now (entries t) k =
      (t.item k).bind fun i => if i.expired now then none else i.entry := by
  rw [Expiry.find, entries]
  cases t.item k with
  | none => rfl
  | some i =>
    rw [Option.bind_some, Option.bind_some, Item.entry]
    cases i.value with
    | none => simp
    | some value =>
      rw [Option.map_some, Option.filter_some, alive_entry]
      cases i.expired now with
      | true => rfl
      | false => rfl

theorem filter_stamps {κ : Kind} (value : Value κ) (ttl : Option Nat) :
    (some (Entry.mk value ((ttl.map (epochSeconds now)).map (1000 * ·)))).filter
      (expiry.alive now) = expiry.keep now value ttl := by
  rw [Option.map_map]
  refine filter_stamped (decide_eq_false ?_) value ttl
  change ¬ now < 1000 * (now / 1000 + 0)
  omega

theorem get_eq {lag : Nat} {name : String}
    (hread : t.read lag ⟨.text, name⟩ = t.item ⟨.text, name⟩) :
    get now t lag name = (expiry.find now (entries t) ⟨.text, name⟩).map Entry.value := by
  rw [get, hread, find_eq]
  cases t.item ⟨.text, name⟩ with
  | none => rfl
  | some i =>
    rw [Option.bind_some]
    dsimp only
    cases i.expired now with
    | true => rfl
    | false =>
      change i.value = i.entry.map Entry.value
      rw [Item.entry, Option.map_map]
      exact Option.map_id'.symm

theorem pttl_eq {lag : Nat} {key : Key} (hvalued : ∀ i ∈ t.item key, i.value.isSome = true)
    (hread : t.read lag key = t.item key) :
    pttl now t lag key = remaining now (expiry.find now (entries t) key) := by
  rw [pttl, hread, find_eq]
  cases hitem : t.item key with
  | none => rfl
  | some i =>
    obtain ⟨value, hvalue⟩ := Option.isSome_iff_exists.mp (hvalued i hitem)
    rw [Option.bind_some, Item.expired, Item.entry, hvalue]
    dsimp only
    cases hexpires : i.expiresAt with
    | none => rfl
    | some expiresAt =>
      rw [Option.any_some, nowSeconds]
      by_cases hle : expiresAt ≤ now / 1000
      · rw [if_pos (decide_eq_true hle)]
        exact if_pos (by omega)
      · rw [if_neg (by simpa using hle)]
        dsimp only
        rw [if_neg (by omega)]
        simp only [remaining, Option.map_some, Option.elim_some]
        push_cast
        omega

theorem incr_prescribes {name : String} {ttl : Option Nat}
    (hvalued : ∀ i ∈ t.item ⟨.count, name⟩, i.value.isSome = true)
    (hsound : ∀ i ∈ t.item ⟨.count, name⟩,
      i.expired now = false ∧ (i.expiresAt = none → ttl = none)) :
    Reply.count (incr now t name ttl).2 =
        (countUp expiry now ttl (expiry.find now (entries t) ⟨.count, name⟩)).2 ∧
      expiry.find now (entries (incr now t name ttl).1) =
        Function.update (expiry.find now (entries t)) ⟨.count, name⟩
          (countUp expiry now ttl (expiry.find now (entries t) ⟨.count, name⟩)).1 := by
  rw [incr.eq_def]
  dsimp only
  rw [find_put, find_eq]
  cases hitem : t.item ⟨.count, name⟩ with
  | none =>
    refine ⟨rfl, congrArg (Function.update _ _) ?_⟩
    cases ttl with
    | none => rfl
    | some ttl => exact filter_stamps (κ := .count) (1 : Nat) (some ttl)
  | some i =>
    obtain ⟨value, hvalue⟩ := Option.isSome_iff_exists.mp (hvalued i hitem)
    obtain ⟨hlive, hexpires⟩ := hsound i hitem
    have hstamp : i.expiresAt.or (ttl.map (epochSeconds now)) = i.expiresAt := by
      cases he : i.expiresAt with
      | none => rw [hexpires he]; rfl
      | some expiresAt => rfl
    have halive : expiry.alive now (κ := .count)
        ⟨value + (1 : Nat), i.expiresAt.map (1000 * ·)⟩ = true := by
      rw [alive_entry, hlive]
      rfl
    have hentry : i.entry = some ⟨value, i.expiresAt.map (1000 * ·)⟩ := by
      rw [Item.entry, hvalue, Option.map_some]
    simp only [Option.bind_some, hlive, hentry, hvalue, hstamp]
    refine ⟨rfl, congrArg (Function.update _ _) ?_⟩
    exact Option.filter_some_pos halive

theorem take_prescribes (estimate : Sketch → Nat) {s : State} {c : Call} {lag : Nat}
    {table : Table} {reply : Reply} (hvalued : Valued s) (hsound : Sound now s (.call c lag))
    (h : take now s.table lag c = some (table, reply)) :
    reply = (prescribe expiry estimate now c (expiry.find now (entries s.table) c.key)).2 ∧
      expiry.find now (entries table) = Function.update (expiry.find now (entries s.table)) c.key
        (prescribe expiry estimate now c (expiry.find now (entries s.table) c.key)).1 := by
  cases c with
  | get name =>
    obtain ⟨rfl, rfl⟩ := Prod.mk.inj (Option.some.inj h)
    exact ⟨congrArg Reply.value (get_eq hsound), (Function.update_eq_self _ _).symm⟩
  | set name value ttl =>
    obtain ⟨rfl, rfl⟩ := Prod.mk.inj (Option.some.inj h)
    refine ⟨rfl, (find_put _ _).trans (congrArg (Function.update _ _) ?_)⟩
    exact filter_stamps (κ := .text) value ttl
  | incr name ttl =>
    obtain ⟨rfl, rfl⟩ := Prod.mk.inj (Option.some.inj h)
    exact incr_prescribes (hvalued _) hsound
  | expire key ttl =>
    obtain ⟨rfl, rfl⟩ := Prod.mk.inj (Option.some.inj h)
    refine ⟨rfl, (find_put _ _).trans (congrArg (Function.update _ _) ?_)⟩
    obtain ⟨i, hi, hlive⟩ := hsound
    obtain ⟨value, hvalue⟩ := Option.isSome_iff_exists.mp (hvalued key i hi)
    have hfind : expiry.find now (entries s.table) key =
        some ⟨value, i.expiresAt.map (1000 * ·)⟩ := by
      rw [find_eq, hi, Option.bind_some, hlive, Item.entry, hvalue]
      rfl
    have hput : Item.entry (κ := key.kind) ⟨(s.table.item key).bind Item.value,
        some (epochSeconds now ttl), (s.table.item key).bind Item.ver⟩ =
          some ⟨value, ((some ttl).map (epochSeconds now)).map (1000 * ·)⟩ := by
      rw [hi, Option.bind_some, hvalue]
      rfl
    change (Item.entry _).filter _ =
      (expiry.find now (entries s.table) key).bind fun e => expiry.keep now e.value (some ttl)
    rw [hfind, Option.bind_some]
    exact (congrArg (Option.filter _) hput).trans (filter_stamps value (some ttl))
  | del key =>
    obtain ⟨rfl, rfl⟩ := Prod.mk.inj (Option.some.inj h)
    exact ⟨rfl, find_put key none⟩
  | pttl key =>
    obtain ⟨rfl, rfl⟩ := Prod.mk.inj (Option.some.inj h)
    exact ⟨congrArg Reply.remaining (pttl_eq (hvalued key) hsound),
      (Function.update_eq_self _ _).symm⟩
  | mergeSketch name sketch ttl => cases h

/-- A write of a merge that replaces the live item it has read. -/
theorem write_prescribes (estimate : Sketch → Nat) {m : Merging (Option (Item .sketch))}
    (hvalued : ∀ i ∈ t.item ⟨.sketch, m.name⟩, i.value.isSome = true)
    (hlive : ∀ i ∈ t.item ⟨.sketch, m.name⟩, i.expired now = false) :
    Reply.estimate (estimate (merged m (t.item ⟨.sketch, m.name⟩))) =
        (mergeInto expiry estimate now m.sketch m.ttlSeconds
          (expiry.find now (entries t) ⟨.sketch, m.name⟩)).2 ∧
      expiry.find now (entries (t.put ⟨.sketch, m.name⟩
          (some (putItem now m (t.item ⟨.sketch, m.name⟩))))) =
        Function.update (expiry.find now (entries t)) ⟨.sketch, m.name⟩
          (mergeInto expiry estimate now m.sketch m.ttlSeconds
            (expiry.find now (entries t) ⟨.sketch, m.name⟩)).1 := by
  rw [find_put, find_eq]
  cases hitem : t.item ⟨.sketch, m.name⟩ with
  | none =>
    refine ⟨rfl, congrArg (Function.update _ _) ?_⟩
    exact filter_stamps (κ := .sketch) (merged m none) m.ttlSeconds
  | some i =>
    obtain ⟨value, hvalue⟩ := Option.isSome_iff_exists.mp (hvalued i hitem)
    have hentry : i.entry = some ⟨value, i.expiresAt.map (1000 * ·)⟩ := by
      rw [Item.entry, hvalue, Option.map_some]
    have hmerged : merged m (some i) = merge value m.sketch := by
      rw [merged, Option.bind_some, hvalue, Option.getD_some]
    have halive : expiry.alive now (κ := .sketch)
        ⟨merge value m.sketch, i.expiresAt.map (1000 * ·)⟩ = true := by
      rw [alive_entry, hlive i hitem]
      rfl
    simp only [Option.bind_some, hlive i hitem, hentry, hmerged]
    refine ⟨rfl, congrArg (Function.update _ _) ?_⟩
    change (some (Entry.mk (κ := .sketch) (merged m (some i))
      (i.expiresAt.map (1000 * ·)))).filter _ = _
    rw [hmerged]
    exact Option.filter_some_pos halive

/-- What an action can come to. -/
theorem act_cases {estimate : Sketch → Nat} {s s' : State} {a : Action}
    {answered : Option (Call × Reply)}
    (h : (machine estimate).act now s a = some (s', answered)) :
    (answered = none ∧ s'.table = s.table) ∨
    (∃ key, (∃ i, s.table.item key = some i ∧ i.expired now = true) ∧ answered = none ∧
      s'.table = s.table.put key none) ∨
    (∃ c lag reply, a = .call c lag ∧ take now s.table lag c = some (s'.table, reply) ∧
      answered = some (c, reply)) ∨
    ∃ client m read, a = .write client ∧ s.merging client = some m ∧ m.read = some read ∧
      ((conditionHolds s.table m read = true ∧
          s'.table = s.table.put ⟨.sketch, m.name⟩ (some (putItem now m read)) ∧
          answered = some (.mergeSketch m.name m.sketch m.ttlSeconds,
            .estimate (estimate (merged m read)))) ∨
        conditionHolds s.table m read = false ∧ MERGE_MAX_ATTEMPTS ≤ m.attempt + 1) := by
  cases a with
  | call c lag =>
    simp only [machine] at h
    split at h
    · cases h
    · rename_i table reply htake
      obtain ⟨rfl, rfl⟩ := Prod.mk.inj (Option.some.inj h)
      exact Or.inr (Or.inr (Or.inl ⟨c, lag, reply, rfl, htake, rfl⟩))
  | begin client name sketch ttl =>
    simp only [machine] at h
    split at h
    · cases h
    · obtain ⟨rfl, rfl⟩ := Prod.mk.inj (Option.some.inj h)
      exact Or.inl ⟨rfl, rfl⟩
  | read client lag =>
    simp only [machine] at h
    split at h
    · cases h
    · obtain ⟨rfl, rfl⟩ := Prod.mk.inj (Option.some.inj h)
      exact Or.inl ⟨rfl, rfl⟩
  | write client =>
    simp only [machine] at h
    split at h
    · cases h
    · rename_i m hm
      split at h
      · cases h
      · rename_i read hread
        split at h
        · rename_i hcondition
          obtain ⟨rfl, rfl⟩ := Prod.mk.inj (Option.some.inj h)
          exact Or.inr (Or.inr (Or.inr ⟨client, m, read, rfl, hm, hread,
            Or.inl ⟨hcondition, rfl, rfl⟩⟩))
        · rename_i hcondition
          split at h
          · obtain ⟨rfl, rfl⟩ := Prod.mk.inj (Option.some.inj h)
            exact Or.inl ⟨rfl, rfl⟩
          · rename_i hattempts
            exact Or.inr (Or.inr (Or.inr ⟨client, m, read, rfl, hm, hread,
              Or.inr ⟨Bool.eq_false_of_not_eq_true hcondition, not_lt.mp hattempts⟩⟩))
  | remove key =>
    simp only [machine] at h
    split at h
    · rename_i hexpired
      obtain ⟨rfl, rfl⟩ := Prod.mk.inj (Option.some.inj h)
      exact Or.inr (Or.inl ⟨key, (Option.any_eq_true _ _).mp hexpired, rfl, rfl⟩)
    · cases h

theorem valued_put {k : Key} {i : Option (Item k.kind)}
    (h : ∀ k, ∀ i ∈ t.item k, i.value.isSome = true) (hi : ∀ i' ∈ i, i'.value.isSome = true) :
    ∀ j, ∀ i' ∈ (t.put k i).item j, i'.value.isSome = true := by
  intro j i' hi'
  rw [item_put] at hi'
  by_cases hj : j = k
  · subst hj
    rw [Function.update_self] at hi'
    exact hi i' hi'
  · rw [Function.update_of_ne hj] at hi'
    exact h j i' hi'

theorem valued_take {s : State} {c : Call} {lag : Nat} {table : Table} {reply : Reply}
    (hvalued : Valued s) (hsound : Sound now s (.call c lag))
    (h : take now s.table lag c = some (table, reply)) :
    ∀ k, ∀ i ∈ table.item k, i.value.isSome = true := by
  cases c with
  | get name =>
    obtain ⟨rfl, rfl⟩ := Prod.mk.inj (Option.some.inj h)
    exact hvalued
  | set name value ttl =>
    obtain ⟨rfl, rfl⟩ := Prod.mk.inj (Option.some.inj h)
    exact valued_put hvalued fun i hi => Option.some.inj hi ▸ rfl
  | incr name ttl =>
    obtain ⟨rfl, rfl⟩ := Prod.mk.inj (Option.some.inj h)
    exact valued_put hvalued fun i hi => Option.some.inj hi ▸ rfl
  | expire key ttl =>
    obtain ⟨rfl, rfl⟩ := Prod.mk.inj (Option.some.inj h)
    obtain ⟨live, hlive, -⟩ := hsound
    refine valued_put hvalued fun i hi => ?_
    obtain rfl := Option.some.inj hi
    rw [hlive]
    exact hvalued key live hlive
  | del key =>
    obtain ⟨rfl, rfl⟩ := Prod.mk.inj (Option.some.inj h)
    exact valued_put hvalued fun i hi => by cases hi
  | pttl key =>
    obtain ⟨rfl, rfl⟩ := Prod.mk.inj (Option.some.inj h)
    exact hvalued
  | mergeSketch name sketch ttl => cases h

theorem refines (estimate : Sketch → Nat) :
    Refines (machine estimate) expiry estimate Sound Valued
      fun now s => expiry.find now (entries s.table) where
  start := ⟨fun _ _ h => (by cases h), fun _ => rfl⟩
  keeps now s a s' answered hvalued hsound hact := by
    rcases act_cases hact with ⟨-, htable⟩ | ⟨key, -, -, htable⟩ |
      ⟨c, lag, reply, rfl, htake, -⟩ |
      ⟨client, m, read, rfl, hm, hread, ⟨-, htable, -⟩ | ⟨hfails, hattempts⟩⟩
    · rw [Valued, htable]
      exact hvalued
    · rw [Valued, htable]
      exact valued_put hvalued fun i hi => by cases hi
    · exact valued_take hvalued hsound htake
    · rw [Valued, htable]
      exact valued_put hvalued fun i hi => Option.some.inj hi ▸ rfl
    · have hlast := hsound m hm read hread
      rw [hfails, if_neg Bool.false_ne_true] at hlast
      omega
  later _ _ _ k hle := expiry.find_later hle k
  quiet now s a s' _ hsound hact := by
    intro k
    rcases act_cases hact with ⟨-, htable⟩ | ⟨key, ⟨i, hi, hexpired⟩, -, htable⟩ |
      ⟨c, lag, reply, -, -, h⟩ |
      ⟨client, m, read, rfl, hm, hread, ⟨-, -, h⟩ | ⟨hfails, hattempts⟩⟩
    · rw [htable]
    · have hgone : expiry.find now (entries s.table) key = none := by
        rw [find_eq, hi, Option.bind_some, if_pos hexpired]
      rw [htable, find_put, Option.bind_none, Option.filter_none, ← hgone,
        Function.update_eq_self]
    · cases h
    · cases h
    · have hlast := hsound m hm read hread
      rw [hfails, if_neg Bool.false_ne_true] at hlast
      omega
  call now s a s' c reply hvalued hsound _ hact := by
    rcases act_cases hact with ⟨h, -⟩ | ⟨key, -, h, -⟩ |
      ⟨c, lag, reply, rfl, htake, h⟩ |
      ⟨client, m, read, rfl, hm, hread, ⟨hcondition, htable, h⟩ | ⟨hfails, hattempts⟩⟩
    · cases h
    · cases h
    · obtain ⟨rfl, rfl⟩ := Prod.mk.inj (Option.some.inj h)
      obtain ⟨hreply, hview⟩ := take_prescribes estimate hvalued hsound htake
      exact ⟨hreply, fun k => congrFun hview k⟩
    · obtain ⟨rfl, rfl⟩ := Prod.mk.inj (Option.some.inj h)
      have hlast := hsound m hm read hread
      rw [hcondition, if_pos rfl] at hlast
      obtain ⟨rfl, hlive⟩ := hlast
      obtain ⟨hreply, hview⟩ := write_prescribes estimate (m := m) (hvalued _) hlive
      rw [htable]
      exact ⟨hreply, fun k => congrFun hview k⟩
    · have hlast := hsound m hm read hread
      rw [hfails, if_neg Bool.false_ne_true] at hlast
      omega

end DynamoDb

/-! ### The driver in use -/

/-- `CACHE_DRIVER`. -/
inductive Driver
  | memory
  | redis
  | dynamodb

namespace Driver

def State : Driver → Type
  | memory => Store
  | redis => Redis.State
  | dynamodb => DynamoDb.State

def Action : Driver → Type
  | memory => Call
  | redis => Redis.Action
  | dynamodb => DynamoDb.Action

def machine (estimate : Sketch → Nat) : (driver : Driver) → Machine driver.State driver.Action
  | memory => Memory.machine estimate
  | redis => Redis.machine estimate
  | dynamodb => DynamoDb.machine estimate

def expiry : Driver → Expiry
  | memory => Memory.expiry
  | redis => Redis.expiry
  | dynamodb => DynamoDb.expiry

/-- Where an adapter keeps the contract. -/
def Sound : (driver : Driver) → Nat → driver.State → driver.Action → Prop
  | memory => fun _ _ _ => True
  | redis => Redis.Sound
  | dynamodb => DynamoDb.Sound

end Driver

/-- The log of a run is prescribed, and in the order of time. -/
theorem prescribed_of_run (driver : Driver) (estimate : Sketch → Nat)
    {events : List (Event driver.Action)} {w : World driver.State}
    (hrun : run (driver.machine estimate).step (driver.machine estimate).world events = some w)
    (hguard : Guarded (driver.machine estimate).step (GuardedAt driver.Sound)
      (driver.machine estimate).world events) :
    Prescribed driver.expiry estimate w.log ∧ w.log.Pairwise (·.time ≤ ·.time) := by
  cases driver with
  | memory =>
    have hkept := (Memory.refines estimate).kept hrun hguard
    exact ⟨hkept.prescribed, hkept.times⟩
  | redis =>
    have hkept := (Redis.refines estimate).kept hrun hguard
    exact ⟨hkept.prescribed, hkept.times⟩
  | dynamodb =>
    have hkept := (DynamoDb.refines estimate).kept hrun hguard
    exact ⟨hkept.prescribed, hkept.times⟩

/-- **Every adapter keeps the contract of the port** in every run that is sound for it, and so
does the throttler over it. -/
theorem adapters_keep_contract (driver : Driver) (estimate : Sketch → Nat)
    (events : List (Event driver.Action)) (w : World driver.State)
    (hrun : run (driver.machine estimate).step (driver.machine estimate).world events = some w)
    (hguard : Guarded (driver.machine estimate).step (GuardedAt driver.Sound)
      (driver.machine estimate).world events) :
    Prescribed driver.expiry estimate w.log ∧
      (Clear estimate w.log → ∀ before d after, w.log = before ++ d :: after →
        NearReply d.reply (prescribed exact estimate before d)) ∧
      ∀ throttlerName key limit, OnlyThrottled (prefixedKey throttlerName key) w.log →
        WindowsHold driver.expiry (prefixedKey throttlerName key) limit w.log := by
  obtain ⟨hprescribed, htimes⟩ := prescribed_of_run driver estimate hrun hguard
  exact ⟨hprescribed, fun hclear before d after hlog => answers_near hprescribed hclear hlog,
    fun throttlerName key limit honly => windows_of_prescribed hprescribed htimes honly limit⟩

/-- A hit of the default throttler, in a window of a minute. -/
def hitAfter (elapsed : Nat) : Event DynamoDb.Action :=
  ⟨elapsed, .call (.incr (prefixedKey "default" "203.0.113.7") (some (windowSeconds 60000))) 0⟩

/-- Two hits of a minute on DynamoDB. -/
theorem adapters_keep_contract_minute :
    ∃ w : World DynamoDb.State,
      run (DynamoDb.machine fun _ => 0).step (DynamoDb.machine fun _ => 0).world
          [hitAfter 0, hitAfter 20000] = some w ∧
        Prescribed DynamoDb.expiry (fun _ => 0) w.log := by
  have hrun : (run (DynamoDb.machine fun _ => 0).step (DynamoDb.machine fun _ => 0).world
      [hitAfter 0, hitAfter 20000]).isSome = true := by decide +kernel
  obtain ⟨w, hw⟩ := Option.isSome_iff_exists.mp hrun
  have hguard : Guarded (DynamoDb.machine fun _ => 0).step (GuardedAt DynamoDb.Sound)
      (DynamoDb.machine fun _ => 0).world [hitAfter 0, hitAfter 20000] := by
    constructor
    · intro i hi
      cases hi
    · intro w' hw'
      refine ⟨fun i hi => ?_, fun _ _ => trivial⟩
      obtain rfl := Option.some.inj hw'
      obtain rfl := Option.some.inj hi
      exact ⟨rfl, fun h => by cases h⟩
  exact ⟨w, hw, (adapters_keep_contract .dynamodb (fun _ => 0) _ w hw hguard).1⟩

/-- **DynamoDB counts on from a window that is over**, until the service removes the item. -/
theorem expired_counter_counts_on :
    ¬ ∀ (estimate : Sketch → Nat) (events : List (Event DynamoDb.Action))
      (w : World DynamoDb.State),
      (∀ e ∈ events, ∃ name ttl, e.action = .call (.incr name ttl) 0) →
      run (DynamoDb.machine estimate).step (DynamoDb.machine estimate).world events = some w →
        Prescribed DynamoDb.expiry estimate w.log := by
  intro h
  have hprescribed := h (fun _ => 0) [hitAfter 0, hitAfter 600000] _ (by simp [hitAfter]) rfl
  have hlast := hprescribed [_] _ [] rfl
  exact absurd hlast (by decide +kernel)

end SnapUrl.Cache
