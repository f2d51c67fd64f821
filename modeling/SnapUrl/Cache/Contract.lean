import Mathlib.Data.List.Pairwise
import Mathlib.Logic.Function.Basic
import SnapUrl.Domain.Hll
import SnapUrl.Lib.Run

/-!
# The contract of the cache port

What `CacheStore` (`packages/cache/src/cache-store.ts`) prescribes to its adapters, with a
key that carries what it is used for, so that no call meets a value of another kind.

* `Expiry`: when a time to live ends by an adapter's clock, within a second of the exact time.
* `prescribe`: what a call makes of the live entry of its key, and what it answers.
* `Prescribed`: **every answer of a log is the one that the port prescribes** after the calls
  before it.
* `Refines.prescribed`: an adapter whose calls agree with the live entries has such logs.
-/

namespace SnapUrl.Cache

open Lib Domain

/-! ### Keys and calls -/

/-- What a key is used for. -/
inductive Kind
  | text
  | count
  | sketch
deriving DecidableEq

abbrev Value : Kind → Type
  | .text => String
  | .count => Nat
  | .sketch => Sketch

structure Key where
  kind : Kind
  name : String
deriving DecidableEq

/-- The calls of the port. -/
inductive Call
  | get (name : String)
  | set (name value : String) (ttlSeconds : Option Nat)
  | incr (name : String) (ttlSeconds : Option Nat)
  | expire (key : Key) (ttlSeconds : Nat)
  | del (key : Key)
  | pttl (key : Key)
  | mergeSketch (name : String) (sketch : Sketch) (ttlSeconds : Option Nat)

def Call.key : Call → Key
  | .get name | .set name _ _ => ⟨.text, name⟩
  | .incr name _ => ⟨.count, name⟩
  | .expire key _ | .del key | .pttl key => key
  | .mergeSketch name _ _ => ⟨.sketch, name⟩

inductive Reply
  | value (value : Option String)
  | done
  | count (n : Nat)
  /-- Milliseconds, -1 with no expiry and -2 with no key. -/
  | remaining (ms : Int)
  | estimate (n : Nat)
  | error
deriving DecidableEq

/-- `expiresAt` in milliseconds. -/
structure Entry (κ : Kind) where
  value : Value κ
  expiresAt : Option Nat

abbrev Store := (k : Key) → Option (Entry k.kind)

def Store.empty : Store := fun _ => none

/-! ### Expiry -/

/-- When a time to live ends by the clock of an adapter: a write at `now` for so many seconds
is live up to its stamp, which is within a second of the exact end. -/
structure Expiry where
  stamp : Nat → Nat → Nat
  live : Nat → Nat → Bool
  stamp_le : ∀ now ttl, stamp now ttl ≤ now + 1000 * ttl
  lt_stamp : ∀ now ttl, now + 1000 * ttl < stamp now ttl + 1000
  live_of_lt : ∀ {now stamp}, now < stamp → live now stamp = true
  dead_of_lt : ∀ {now stamp}, stamp < now → live now stamp = false

theorem live_before {now stamp : Nat} (h : now < stamp) : decide (now < stamp) = true :=
  decide_eq_true h

theorem dead_after {now stamp : Nat} (h : stamp < now) : decide (now < stamp) = false :=
  decide_eq_false (by omega)

section

variable (g : Expiry) {κ : Kind}

def Expiry.alive (now : Nat) (e : Entry κ) : Bool := e.expiresAt.all (g.live now)

/-- The live entry of a key. -/
def Expiry.find (now : Nat) (s : Store) (k : Key) : Option (Entry k.kind) :=
  (s k).filter (g.alive now)

/-- A new entry; one with no time to live at all is gone at once. -/
def Expiry.keep (now : Nat) (value : Value κ) : Option Nat → Option (Entry κ)
  | none => some ⟨value, none⟩
  | some ttl => if ttl = 0 then none else some ⟨value, some (g.stamp now ttl)⟩

def remaining (now : Nat) : Option (Entry κ) → Int
  | none => -2
  | some e => e.expiresAt.elim (-1) fun stamp => stamp - now

end

/-! ### The contract -/

section

variable (g : Expiry) (estimate : Sketch → Nat) (now : Nat)

/-- The first write opens the window, and a later one does not move it. -/
def countUp (ttl : Option Nat) : Option (Entry .count) → Option (Entry .count) × Reply
  | none => (g.keep now 1 ttl, .count 1)
  | some e => (some { e with value := e.value + 1 }, .count (e.value + 1))

/-- The first write stamps the expiry, and a later one keeps it. -/
def mergeInto (sketch : Sketch) (ttl : Option Nat) :
    Option (Entry .sketch) → Option (Entry .sketch) × Reply
  | none =>
    let merged := merge createSketch sketch
    (g.keep now merged ttl, .estimate (estimate merged))
  | some e =>
    let merged := merge e.value sketch
    (some { e with value := merged }, .estimate (estimate merged))

/-- **What a call makes of the live entry of its key, and what it answers.** -/
def prescribe : (c : Call) → Option (Entry c.key.kind) → Option (Entry c.key.kind) × Reply
  | .get _, e => (e, .value (e.map Entry.value))
  | .set _ value ttl, _ => (g.keep now value ttl, .done)
  | .incr _ ttl, e => countUp g now ttl e
  | .expire _ ttl, e => (e.bind fun e => g.keep now e.value (some ttl), .done)
  | .del _, _ => (none, .done)
  | .pttl _, e => (e, .remaining (remaining now e))
  | .mergeSketch _ sketch ttl, e => mergeInto g estimate now sketch ttl e

end

/-- A call that is through, with the time it took effect at. -/
structure Done where
  time : Nat
  call : Call
  reply : Reply

section

variable (g : Expiry) (estimate : Sketch → Nat)

/-- A call of the contract on the entries. -/
def Store.take (s : Store) (d : Done) : Store :=
  Function.update s d.call.key (prescribe g estimate d.time d.call (g.find d.time s d.call.key)).1

def storeAfter (log : List Done) : Store := log.foldl (Store.take g estimate) .empty

/-- What the port answers to a call after a log. -/
def prescribed (log : List Done) (d : Done) : Reply :=
  (prescribe g estimate d.time d.call (g.find d.time (storeAfter g estimate log) d.call.key)).2

/-- **Every answer of a log is the one that the port prescribes.** -/
def Prescribed (log : List Done) : Prop :=
  ∀ before d after, log = before ++ d :: after → d.reply = prescribed g estimate before d

theorem storeAfter_append_singleton (log : List Done) (d : Done) :
    storeAfter g estimate (log ++ [d]) = (storeAfter g estimate log).take g estimate d := by
  rw [storeAfter, List.foldl_append]
  rfl

variable {g estimate}

theorem prescribed_nil : Prescribed g estimate [] := by
  intro before d after h
  cases before <;> cases h

theorem Prescribed.left {log log' : List Done} (h : Prescribed g estimate (log ++ log')) :
    Prescribed g estimate log := by
  intro before d after hsplit
  exact h before d (after ++ log') (by rw [hsplit, List.append_assoc, List.cons_append])

theorem Prescribed.append_singleton {log : List Done} {d : Done} (h : Prescribed g estimate log)
    (hd : d.reply = prescribed g estimate log d) : Prescribed g estimate (log ++ [d]) := by
  intro before e after hsplit
  rcases List.eq_nil_or_concat after with rfl | ⟨after, last, rfl⟩
  · obtain ⟨rfl, hlast⟩ := List.append_inj' hsplit rfl
    obtain rfl := List.singleton_inj.mp hlast
    exact hd
  · rw [List.concat_eq_append, ← List.cons_append, ← List.append_assoc] at hsplit
    obtain ⟨rfl, -⟩ := List.append_inj' hsplit rfl
    exact h before e after rfl

end

/-! ### Live entries -/

section

variable {g : Expiry} {κ : Kind} {now now' : Nat}

/-- What is live later is live now. -/
theorem Expiry.live_mono {stamp : Nat} (hle : now ≤ now') (h : g.live now' stamp = true) :
    g.live now stamp = true := by
  rcases Nat.lt_or_ge now stamp with hlt | hge
  · exact g.live_of_lt hlt
  · rcases Nat.lt_or_eq_of_le (hge.trans hle) with hlt | heq
    · rw [g.dead_of_lt hlt] at h
      exact absurd h Bool.false_ne_true
    · obtain rfl : now = now' := by omega
      exact h

theorem Expiry.alive_mono {e : Entry κ} (hle : now ≤ now') (h : g.alive now' e = true) :
    g.alive now e = true := by
  rw [alive, Option.all_eq_true] at h ⊢
  exact fun stamp hstamp => g.live_mono hle (h stamp hstamp)

/-- The live entries of a later time are the live ones among those of now. -/
theorem Expiry.find_later {s : Store} (hle : now ≤ now') (k : Key) :
    g.find now' s k = (g.find now s k).filter (g.alive now') := by
  rw [find, find, Option.filter_filter]
  refine congrArg (Option.filter · (s k)) (funext fun e => ?_)
  cases h : g.alive now' e with
  | false => rw [Bool.and_false]
  | true => rw [g.alive_mono hle h, Bool.and_true]

/-- A new entry is live. -/
theorem Expiry.keep_live (value : Value κ) (ttl : Option Nat) :
    (g.keep now value ttl).filter (g.alive now) = g.keep now value ttl := by
  cases ttl with
  | none => rfl
  | some ttl =>
    rw [keep]
    split
    · rfl
    · refine Option.filter_some_pos ?_
      have hlt := g.lt_stamp now ttl
      exact g.live_of_lt (by omega)

/-- What a call leaves of a live entry is live. -/
theorem prescribe_live (estimate : Sketch → Nat) (c : Call) {e : Option (Entry c.key.kind)}
    (h : e.filter (g.alive now) = e) :
    (prescribe g estimate now c e).1.filter (g.alive now) = (prescribe g estimate now c e).1 := by
  cases c with
  | get name => exact h
  | set name value ttl => exact g.keep_live _ _
  | incr name ttl =>
    cases e with
    | none => exact g.keep_live _ _
    | some e => exact Option.filter_some_pos (Option.filter_eq_some_iff.mp h).2
  | expire key ttl =>
    cases e with
    | none => rfl
    | some e => exact g.keep_live e.value (some ttl)
  | del key => rfl
  | pttl key => exact h
  | mergeSketch name sketch ttl =>
    cases e with
    | none => exact g.keep_live _ _
    | some e => exact Option.filter_some_pos (Option.filter_eq_some_iff.mp h).2

/-- A counter that is kept is positive. -/
def Positive : {κ : Kind} → Value κ → Prop
  | .count, n => 0 < (n : Nat)
  | .text, _ => True
  | .sketch, _ => True

theorem value_keep {value : Value κ} {ttl : Option Nat} {e : Entry κ}
    (h : g.keep now value ttl = some e) : e.value = value := by
  cases ttl with
  | none =>
    obtain rfl := Option.some.inj h
    rfl
  | some ttl =>
    rw [Expiry.keep] at h
    split at h
    · cases h
    · obtain rfl := Option.some.inj h
      rfl

theorem prescribe_positive (estimate : Sketch → Nat) (c : Call) {e : Option (Entry c.key.kind)}
    (h : ∀ e' ∈ e, Positive e'.value) :
    ∀ e' ∈ (prescribe g estimate now c e).1, Positive e'.value := by
  intro e' he'
  cases c with
  | get name => trivial
  | set name value ttl => trivial
  | incr name ttl =>
    cases e with
    | none =>
      rw [value_keep he']
      exact Nat.one_pos
    | some e =>
      obtain rfl := Option.some.inj he'
      exact Nat.succ_pos _
  | expire key ttl =>
    obtain ⟨e, rfl, hkeep⟩ := Option.bind_eq_some_iff.mp he'
    rw [value_keep hkeep]
    exact h e rfl
  | del key => cases he'
  | pttl key => exact h e' he'
  | mergeSketch name sketch ttl => trivial

theorem positive_storeAfter (estimate : Sketch → Nat) (log : List Done) :
    ∀ k, ∀ e ∈ storeAfter g estimate log k, Positive e.value := by
  induction log using List.reverseRecOn with
  | nil =>
    intro k e he
    cases he
  | append_singleton log d ih =>
    intro k e he
    rw [storeAfter_append_singleton, Store.take] at he
    by_cases hk : k = d.call.key
    · subst hk
      rw [Function.update_self] at he
      exact prescribe_positive estimate d.call
        (fun e' he' => ih _ e' (Option.filter_eq_some_iff.mp he').1) e he
    · rw [Function.update_of_ne hk] at he
      exact ih k e he

end

/-! ### Adapters -/

/-- An adapter with what it keeps: what a call or a part of one does at a time, and the call
that it ends with what it answers. -/
structure Machine (σ α : Type) where
  start : σ
  act : Nat → σ → α → Option (σ × Option (Call × Reply))

structure World (σ : Type) where
  now : Nat
  state : σ
  /-- The calls that are through. -/
  log : List Done

/-- An action some time after the one before. -/
structure Event (α : Type) where
  elapsed : Nat
  action : α

section

variable {σ α : Type}

def Machine.world (m : Machine σ α) : World σ := ⟨0, m.start, []⟩

def Machine.step (m : Machine σ α) (w : World σ) (e : Event α) : Option (World σ) :=
  let now := w.now + e.elapsed
  (m.act now w.state e.action).map fun r =>
    ⟨now, r.1, w.log ++ r.2.toList.map fun answered => ⟨now, answered.1, answered.2⟩⟩

/-- **An adapter whose calls do to the live entries what the port prescribes**, where the
guard is met. -/
structure Refines (m : Machine σ α) (g : Expiry) (estimate : Sketch → Nat)
    (guard : Nat → σ → α → Prop) (inv : σ → Prop) (view : Nat → σ → Store) : Prop where
  start : inv m.start ∧ ∀ k, view 0 m.start k = none
  keeps : ∀ now s a s' answered, inv s → guard now s a → m.act now s a = some (s', answered) →
    inv s'
  later : ∀ s now now' k, now ≤ now' → view now' s k = (view now s k).filter (g.alive now')
  quiet : ∀ now s a s', inv s → guard now s a → m.act now s a = some (s', none) →
    ∀ k, view now s' k = view now s k
  call : ∀ now s a s' c reply, inv s → guard now s a →
    (∀ name e, view now s ⟨.count, name⟩ = some e → 0 < e.value) →
    m.act now s a = some (s', some (c, reply)) →
    reply = (prescribe g estimate now c (view now s c.key)).2 ∧
      ∀ k, view now s' k =
        Function.update (view now s) c.key (prescribe g estimate now c (view now s c.key)).1 k

variable {m : Machine σ α} {g : Expiry} {estimate : Sketch → Nat}
  {guard : Nat → σ → α → Prop} {inv : σ → Prop} {view : Nat → σ → Store}

/-- What holds after a guarded run of calls. -/
structure Kept (g : Expiry) (estimate : Sketch → Nat) (inv : σ → Prop) (view : Nat → σ → Store)
    (w : World σ) : Prop where
  inv : inv w.state
  agrees : ∀ k, view w.now w.state k = g.find w.now (storeAfter g estimate w.log) k
  prescribed : Prescribed g estimate w.log
  times : w.log.Pairwise (·.time ≤ ·.time)
  past : ∀ d ∈ w.log, d.time ≤ w.now

theorem Refines.kept_step (h : Refines m g estimate guard inv view) {w w' : World σ} {e : Event α}
    (hk : Kept g estimate inv view w) (hguard : guard (w.now + e.elapsed) w.state e.action)
    (hstep : m.step w e = some w') : Kept g estimate inv view w' := by
  rw [Machine.step, Option.map_eq_some_iff] at hstep
  obtain ⟨⟨s', answered⟩, hact, rfl⟩ := hstep
  have hle : w.now ≤ w.now + e.elapsed := Nat.le_add_right _ _
  have hagrees (k : Key) : view (w.now + e.elapsed) w.state k =
      g.find (w.now + e.elapsed) (storeAfter g estimate w.log) k := by
    rw [h.later _ _ _ k hle, hk.agrees, g.find_later hle]
  have hinv := h.keeps _ _ _ _ _ hk.inv hguard hact
  cases answered with
  | none =>
    refine ⟨hinv, fun k => ?_, ?_, ?_, fun d hd => ?_⟩
    · rw [h.quiet _ _ _ _ hk.inv hguard hact k, hagrees]
      simp
    · simpa using hk.prescribed
    · simpa using hk.times
    · exact (hk.past d (by simpa using hd)).trans hle
  | some answered =>
    obtain ⟨c, reply⟩ := answered
    have hpos (name : String) (entry : Entry .count)
        (hentry : view (w.now + e.elapsed) w.state ⟨.count, name⟩ = some entry) :
        0 < entry.value := by
      rw [hagrees] at hentry
      have hstored : entry ∈ storeAfter g estimate w.log ⟨.count, name⟩ :=
        (Option.filter_eq_some_iff.mp hentry).1
      exact positive_storeAfter estimate w.log ⟨.count, name⟩ entry hstored
    obtain ⟨hreply, hview⟩ := h.call _ _ _ _ _ _ hk.inv hguard hpos hact
    rw [hagrees] at hreply
    refine ⟨hinv, fun k => ?_, hk.prescribed.append_singleton hreply, ?_, fun d hd => ?_⟩
    · refine (hview k).trans ?_
      change _ = g.find _ (storeAfter g estimate (w.log ++ [_])) k
      rw [storeAfter_append_singleton, Store.take, Expiry.find]
      by_cases hkey : k = c.key
      · subst hkey
        rw [Function.update_self, Function.update_self, hagrees]
        exact (prescribe_live estimate c (by rw [Expiry.find, Option.filter_filter]; simp)).symm
      · rw [Function.update_of_ne hkey, Function.update_of_ne hkey, hagrees]
        rfl
    · refine List.pairwise_append.mpr ⟨hk.times, List.pairwise_singleton _ _, ?_⟩
      intro d hd d' hd'
      rw [List.mem_singleton.mp hd']
      exact (hk.past d hd).trans hle
    · rcases List.mem_append.mp hd with hd | hd
      · exact (hk.past d hd).trans hle
      · rw [List.mem_singleton.mp hd]

/-- The guard of an adapter, at the time of an event. -/
def GuardedAt (guard : Nat → σ → α → Prop) (w : World σ) (e : Event α) : Prop :=
  guard (w.now + e.elapsed) w.state e.action

/-- **The log of a guarded run is prescribed.** -/
theorem Refines.kept (h : Refines m g estimate guard inv view) {events : List (Event α)}
    {w : World σ} (hrun : run m.step m.world events = some w)
    (hguard : Guarded m.step (GuardedAt guard) m.world events) : Kept g estimate inv view w := by
  have hstart : Kept g estimate inv view m.world := by
    refine ⟨h.start.1, fun k => ?_, prescribed_nil, List.Pairwise.nil, fun d hd => ?_⟩
    · exact h.start.2 k
    · cases hd
  exact invariant_of_guarded (fun _ _ _ hk hg hs => h.kept_step hk hg hs) events _ w hstart
    hguard hrun

end

end SnapUrl.Cache
