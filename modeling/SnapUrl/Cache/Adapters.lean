import SnapUrl.Cache.Contract

/-!
# The adapters of the cache port

`MemoryCacheStore`, `RedisCacheStore` and `DynamoDbCacheStore` of `packages/cache/src`, each
with what it keeps and with what its backend does to expired keys.

* Memory evicts an expired entry when it is read; a call runs to its end in one step.
* Redis takes a key away once its expiry is past; a merge reads and then writes.
* DynamoDB keeps an expired item until its service removes it, at any later time or never; a
  merge reads and then writes if the version is still the one it read.  A read may be of an
  earlier version of an item, as reads are not asked to be consistent.
-/

namespace SnapUrl.Cache

open Domain

/-- A merge that is under way, with what it has read. -/
structure Merging (ρ : Type) where
  name : String
  sketch : Sketch
  ttlSeconds : Option Nat
  attempt : Nat
  read : Option ρ

/-! ### Memory -/

namespace Memory

def expiry : Expiry where
  stamp now ttl := now + ttl * 1000
  live now stamp := decide (now < stamp)
  stamp_le now ttl := by omega
  lt_stamp now ttl := by omega
  live_of_lt := live_before
  dead_of_lt := dead_after

/-- An entry whose expiry has passed is evicted. -/
def live (now : Nat) (s : Store) (k : Key) : Store × Option (Entry k.kind) :=
  match s k with
  | none => (s, none)
  | some e =>
    if e.expiresAt.any fun expiresAt => expiresAt ≤ now then (Function.update s k none, none)
    else (s, some e)

def expiryFrom (now : Nat) (ttlSeconds : Option Nat) : Option Nat :=
  ttlSeconds.map fun ttl => now + ttl * 1000

section

variable (now : Nat) (s : Store)

def get (name : String) : Store × Reply :=
  let (s, entry) := live now s ⟨.text, name⟩
  (s, .value (entry.map Entry.value))

def set (name value : String) (ttlSeconds : Option Nat) : Store × Reply :=
  (Function.update s ⟨.text, name⟩ (some ⟨value, expiryFrom now ttlSeconds⟩), .done)

def incr (name : String) (ttlSeconds : Option Nat) : Store × Reply :=
  let key : Key := ⟨.count, name⟩
  let (s, entry) := live now s key
  match entry with
  | none => (Function.update s key (some ⟨(1 : Nat), expiryFrom now ttlSeconds⟩), .count 1)
  | some e =>
    let next : Nat := e.value + (1 : Nat)
    (Function.update s key (some ⟨next, e.expiresAt⟩), .count next)

def expire (key : Key) (ttlSeconds : Nat) : Store × Reply :=
  let (s, entry) := live now s key
  match entry with
  | none => (s, .done)
  | some e => (Function.update s key (some ⟨e.value, some (now + ttlSeconds * 1000)⟩), .done)

def del (key : Key) : Store × Reply := (Function.update s key none, .done)

def pttl (key : Key) : Store × Reply :=
  let (s, entry) := live now s key
  match entry with
  | none => (s, .remaining (-2))
  | some e =>
    match e.expiresAt with
    | none => (s, .remaining (-1))
    | some expiresAt => (s, .remaining (max 0 ((expiresAt : Int) - now)))

def mergeSketch (estimate : Sketch → Nat) (name : String) (sketch : Sketch)
    (ttlSeconds : Option Nat) : Store × Reply :=
  let key : Key := ⟨.sketch, name⟩
  let (s, entry) := live now s key
  let current : Sketch := (entry.map Entry.value).getD createSketch
  let merged := merge current sketch
  match entry with
  | none =>
    (Function.update s key (some ⟨merged, expiryFrom now ttlSeconds⟩), .estimate (estimate merged))
  | some e => (Function.update s key (some ⟨merged, e.expiresAt⟩), .estimate (estimate merged))

end

def take (estimate : Sketch → Nat) (now : Nat) (s : Store) : Call → Store × Reply
  | .get name => get now s name
  | .set name value ttl => set now s name value ttl
  | .incr name ttl => incr now s name ttl
  | .expire key ttl => expire now s key ttl
  | .del key => del s key
  | .pttl key => pttl now s key
  | .mergeSketch name sketch ttl => mergeSketch now s estimate name sketch ttl

def machine (estimate : Sketch → Nat) : Machine Store Call where
  start := .empty
  act now s c :=
    let r := take estimate now s c
    some (r.1, some (c, r.2))

end Memory

/-! ### Redis -/

namespace Redis

/-- The server takes a key away once the time is past its expiry. -/
def expiry : Expiry where
  stamp now ttl := now + ttl * 1000
  live now stamp := decide (now ≤ stamp)
  stamp_le now ttl := by omega
  lt_stamp now ttl := by omega
  live_of_lt h := decide_eq_true (by omega)
  dead_of_lt h := decide_eq_false (by omega)

structure State where
  store : Store
  merging : Nat → Option (Merging (Option (Entry .sketch)))

inductive Action
  /-- A call that is one command. -/
  | call (c : Call)
  | begin (client : Nat) (name : String) (sketch : Sketch) (ttlSeconds : Option Nat)
  | getBuffer (client : Nat)
  | set (client : Nat)

section

variable (now : Nat) (s : Store)

/-- `SET`, with `EX` where there is a time to live; zero is no valid one. -/
def SET (key : Key) (value : Value key.kind) : Option Nat → Option Store
  | none => some (Function.update s key (some ⟨value, none⟩))
  | some ttl =>
    if ttl = 0 then none
    else some (Function.update s key (some ⟨value, some (now + ttl * 1000)⟩))

/-- `EXPIRE`; with zero the key is deleted. -/
def EXPIRE (key : Key) (ttl : Nat) : Store :=
  match expiry.find now s key with
  | none => s
  | some e =>
    Function.update s key (if ttl = 0 then none else some ⟨e.value, some (now + ttl * 1000)⟩)

/-- `INCR`, which leaves the expiry as it is. -/
def INCR (key : String) : Store × Nat :=
  let entry := expiry.find now s ⟨.count, key⟩
  let n : Nat := entry.elim 1 fun e => e.value + (1 : Nat)
  (Function.update s ⟨.count, key⟩ (some ⟨n, entry.bind Entry.expiresAt⟩), n)

/-- The script of `incr`. -/
def INCR_WITH_EXPIRY (key : String) (ttlSeconds : Option Nat) : Store × Nat :=
  let (s, n) := INCR now s key
  match ttlSeconds with
  | none => (s, n)
  | some ttl => if n = 1 then (EXPIRE now s ⟨.count, key⟩ ttl, n) else (s, n)

/-- The calls that are one command. -/
def take : Call → Option (Store × Reply)
  | .get name => some (s, .value ((expiry.find now s ⟨.text, name⟩).map Entry.value))
  | .set name value ttl =>
    match SET now s ⟨.text, name⟩ value ttl with
    | none => some (s, .error)
    | some s' => some (s', .done)
  | .incr name ttl =>
    let r := INCR_WITH_EXPIRY now s name ttl
    some (r.1, .count r.2)
  | .expire key ttl => some (EXPIRE now s key ttl, .done)
  | .del key => some (Function.update s key none, .done)
  | .pttl key => some (s, .remaining (remaining now (expiry.find now s key)))
  | .mergeSketch _ _ _ => none

end

/-- What a merge makes of the bytes it has read. -/
def merged (m : Merging (Option (Entry .sketch))) (read : Option (Entry .sketch)) : Sketch :=
  merge ((read.map Entry.value).getD createSketch) m.sketch

def machine (estimate : Sketch → Nat) : Machine State Action where
  start := ⟨.empty, fun _ => none⟩
  act now s
    | .call c =>
      match take now s.store c with
      | none => none
      | some (store, reply) => some ({ s with store := store }, some (c, reply))
    | .begin client name sketch ttl =>
      match s.merging client with
      | some _ => none
      | none =>
        let m : Merging (Option (Entry .sketch)) := ⟨name, sketch, ttl, 0, none⟩
        some ({ s with merging := Function.update s.merging client (some m) }, none)
    | .getBuffer client =>
      match s.merging client with
      | none => none
      | some m =>
        let m' := { m with read := some (expiry.find now s.store ⟨.sketch, m.name⟩) }
        some ({ s with merging := Function.update s.merging client (some m') }, none)
    | .set client =>
      match s.merging client with
      | none => none
      | some m =>
        match m.read with
        | none => none
        | some read =>
          let merging := Function.update s.merging client none
          let call := Call.mergeSketch m.name m.sketch m.ttlSeconds
          match SET now s.store ⟨.sketch, m.name⟩ (merged m read) m.ttlSeconds with
          | none => some ({ s with merging := merging }, some (call, .error))
          | some store =>
            some (⟨store, merging⟩, some (call, .estimate (estimate (merged m read))))

end Redis

/-! ### DynamoDB -/

namespace DynamoDb

/-- An expiry is in whole seconds since the epoch. -/
def expiry : Expiry where
  stamp now ttl := 1000 * (now / 1000 + ttl)
  live now stamp := decide (now < stamp)
  stamp_le now ttl := by omega
  lt_stamp now ttl := by omega
  live_of_lt := live_before
  dead_of_lt := dead_after

def MERGE_MAX_ATTEMPTS : Nat := 5

structure Item (κ : Kind) where
  /-- An item that `expire` has made has no value. -/
  value : Option (Value κ)
  expiresAt : Option Nat
  ver : Option Nat

/-- The versions of every item, the last one first. -/
abbrev Table := (k : Key) → List (Option (Item k.kind))

structure State where
  table : Table
  merging : Nat → Option (Merging (Option (Item .sketch)))

inductive Action
  /-- A call that is one command; a read of it is of an earlier version by so many writes. -/
  | call (c : Call) (lag : Nat)
  | begin (client : Nat) (name : String) (sketch : Sketch) (ttlSeconds : Option Nat)
  | read (client lag : Nat)
  | write (client : Nat)
  /-- The service removes an expired item. -/
  | remove (key : Key)

def epochSeconds (now ttlSeconds : Nat) : Nat := now / 1000 + ttlSeconds

def nowSeconds (now : Nat) : Nat := now / 1000

def Item.expired {κ : Kind} (now : Nat) (i : Item κ) : Bool :=
  i.expiresAt.any fun expiresAt => expiresAt ≤ nowSeconds now

section

variable (now : Nat) (t : Table)

def Table.read (lag : Nat) (k : Key) : Option (Item k.kind) := ((t k).drop lag).headD none

/-- The item as it is. -/
def Table.item (k : Key) : Option (Item k.kind) := t.read 0 k

def Table.put (k : Key) (i : Option (Item k.kind)) : Table := Function.update t k (i :: t k)

def get (lag : Nat) (name : String) : Option String :=
  match t.read lag ⟨.text, name⟩ with
  | none => none
  | some item => if item.expired now then none else item.value

/-- `ADD` counts from zero, and `if_not_exists` stamps an expiry that is missing. -/
def incr (name : String) (ttlSeconds : Option Nat) : Table × Nat :=
  let item := t.item ⟨.count, name⟩
  let n : Nat := ((item.bind Item.value).getD (0 : Nat)) + (1 : Nat)
  let expiresAt := (item.bind Item.expiresAt).or (ttlSeconds.map (epochSeconds now))
  (t.put ⟨.count, name⟩ (some ⟨some n, expiresAt, item.bind Item.ver⟩), n)

def expire (key : Key) (ttlSeconds : Nat) : Table :=
  let item := t.item key
  t.put key (some ⟨item.bind Item.value, some (epochSeconds now ttlSeconds), item.bind Item.ver⟩)

def pttl (lag : Nat) (key : Key) : Int :=
  match t.read lag key with
  | none => -2
  | some item =>
    match item.expiresAt with
    | none => -1
    | some expiresAt =>
      let remainingMs := (expiresAt : Int) * 1000 - now
      if remainingMs ≤ 0 then -2 else remainingMs

/-- The calls that are one command. -/
def take (lag : Nat) : Call → Option (Table × Reply)
  | .get name => some (t, .value (get now t lag name))
  | .set name value ttl =>
    some (t.put ⟨.text, name⟩ (some ⟨some value, ttl.map (epochSeconds now), none⟩), .done)
  | .incr name ttl =>
    let r := incr now t name ttl
    some (r.1, .count r.2)
  | .expire key ttl => some (expire now t key ttl, .done)
  | .del key => some (t.put key none, .done)
  | .pttl key => some (t, .remaining (pttl now t lag key))
  | .mergeSketch _ _ _ => none

/-- What a merge makes of the item it has read. -/
def merged (m : Merging (Option (Item .sketch))) (read : Option (Item .sketch)) : Sketch :=
  merge ((read.bind Item.value).getD createSketch) m.sketch

/-- The version that the write asks for. -/
def currentVersion (read : Option (Item .sketch)) : Nat := (read.bind Item.ver).getD 0

/-- `putItem` of a merge. -/
def putItem (m : Merging (Option (Item .sketch))) (read : Option (Item .sketch)) :
    Item .sketch where
  value := some (merged m read)
  -- the first write stamps the expiry, and a later merge keeps it
  expiresAt :=
    match read with
    | none => m.ttlSeconds.map (epochSeconds now)
    | some item => item.expiresAt
  ver := some (currentVersion read + 1)

/-- `attribute_not_exists(#ver) OR #ver = :expectedVer`. -/
def conditionHolds (m : Merging (Option (Item .sketch))) (read : Option (Item .sketch)) : Bool :=
  ((t.item ⟨.sketch, m.name⟩).bind Item.ver).all fun ver => ver = currentVersion read

end

def machine (estimate : Sketch → Nat) : Machine State Action where
  start := ⟨fun _ => [], fun _ => none⟩
  act now s
    | .call c lag =>
      match take now s.table lag c with
      | none => none
      | some (table, reply) => some ({ s with table := table }, some (c, reply))
    | .begin client name sketch ttl =>
      match s.merging client with
      | some _ => none
      | none =>
        let m : Merging (Option (Item .sketch)) := ⟨name, sketch, ttl, 0, none⟩
        some ({ s with merging := Function.update s.merging client (some m) }, none)
    | .read client lag =>
      match s.merging client with
      | none => none
      | some m =>
        let m' := { m with read := some (s.table.read lag ⟨.sketch, m.name⟩) }
        some ({ s with merging := Function.update s.merging client (some m') }, none)
    | .write client =>
      match s.merging client with
      | none => none
      | some m =>
        match m.read with
        | none => none
        | some read =>
          let call := Call.mergeSketch m.name m.sketch m.ttlSeconds
          if conditionHolds s.table m read then
            some (⟨s.table.put ⟨.sketch, m.name⟩ (some (putItem now m read)),
                Function.update s.merging client none⟩,
              some (call, .estimate (estimate (merged m read))))
          else if m.attempt + 1 < MERGE_MAX_ATTEMPTS then
            -- a lost race reads again
            let m' := { m with attempt := m.attempt + 1, read := none }
            some ({ s with merging := Function.update s.merging client (some m') }, none)
          else
            some ({ s with merging := Function.update s.merging client none },
              some (call, .error))
    | .remove key =>
      if (s.table.item key).any fun item => item.expired now then
        some ({ s with table := s.table.put key none }, none)
      else none

end DynamoDb

end SnapUrl.Cache
