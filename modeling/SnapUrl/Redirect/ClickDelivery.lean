import Mathlib.Data.List.Perm.Basic
import SnapUrl.Redirect.ClickQueue

/-!
# Each click once

* `insertOnce_body`: a message gives the row that the other sink writes.
* `Sound`: what holds of rows and of invocations under any delivery.
* `clicks_exactly_once`: **clicks are counted once exactly when no message is inserted again after
  its row is committed, and none is dead-lettered before**.
-/

namespace SnapUrl.Redirect.ClickQueue

open Lib JsValue
open Projection.Resolvers (ClickEvent serializeClickEvent deserializeClickEvent)

/-! ### Both sinks -/

/-- **A message gives the row that the other sink writes.** -/
theorem insertOnce_body (event : ClickEvent) :
    ((serializeClickEvent event).bind fun body => insertOnce (deserializeClickEvent body)) =
      postgresRow event := by
  have hback := Projection.Resolvers.deserialize_serialize event
  obtain ⟨body, hbody, hobject⟩ := Option.map_eq_some_iff.mp hback
  rw [hbody, Option.bind_some, hobject]
  rfl

/-! ### What holds under any delivery -/

/-- **What holds of rows and of invocations under any delivery.** -/
structure Sound (d : Deployment) (s : Store) : Prop where
  bodies : ∀ message ∈ s.messages, message.body = serializeClickEvent message.event
  rows : ∀ row ∈ s.rows, s.accepted d row.origin = some row.columns
  /-- A record is to come, or is reported, or has its row. -/
  handled : ∀ invocation ∈ s.invocations, ∀ m ∈ invocation.records,
    m ∈ invocation.todo ∨ m ∈ invocation.batchItemFailures ∨ 0 < s.rowsOf m

theorem accepted_of_body {d : Deployment} {message : Message}
    (h : message.body = serializeClickEvent message.event) :
    message.accepted d = (postgresRow message.event).filter d.accepts := by
  rw [Message.accepted, h, insertOnce_body]

section

variable {d : Deployment} {s s' : Store} {i m : Nat} {invocation : Invocation} {a : Action}

theorem rowsOf_commit (invocation' : Invocation) (columns : ClickColumns) (other : Nat) :
    (s.commit i invocation' m columns).rowsOf other =
      s.rowsOf other + if m = other then 1 else 0 := by
  rw [Store.rowsOf, Store.rowsOf]
  change (s.rows ++ [(⟨s.nextId, m, columns⟩ : Row)]).countP _ = _
  rw [List.countP_append, List.countP_singleton]
  by_cases h : m = other
  · simp [h]
  · simp [h]

/-- One invocation goes on. -/
theorem Sound.set {invocation' : Invocation} (h : Sound d s)
    (hhandled : ∀ m ∈ invocation'.records,
      m ∈ invocation'.todo ∨ m ∈ invocation'.batchItemFailures ∨ 0 < s.rowsOf m) :
    Sound d (s.set i invocation') := by
  refine ⟨h.bodies, h.rows, fun other hother => ?_⟩
  rcases List.mem_or_eq_of_mem_set hother with hold | rfl
  · exact h.handled other hold
  · exact hhandled

/-- A row is committed. -/
theorem Sound.commit {invocation' : Invocation} {columns : ClickColumns} (h : Sound d s)
    (hcolumns : s.accepted d m = some columns)
    (hhandled : ∀ other ∈ invocation'.records, other ≠ m →
      other ∈ invocation'.todo ∨ other ∈ invocation'.batchItemFailures ∨ 0 < s.rowsOf other) :
    Sound d (s.commit i invocation' m columns) := by
  refine ⟨h.bodies, fun row hrow => ?_, fun other hother k hk => ?_⟩
  · rcases List.mem_append.mp hrow with hold | hnew
    · exact h.rows row hold
    · rw [List.mem_singleton.mp hnew]
      exact hcolumns
  · rw [rowsOf_commit]
    rcases List.mem_or_eq_of_mem_set hother with hold | rfl
    · exact (h.handled other hold k hk).imp_right fun h => h.imp_right fun h => Nat.add_pos_left h _
    · by_cases hkm : k = m
      · exact Or.inr (Or.inr (by rw [if_pos hkm.symm]; exact Nat.succ_pos _))
      · exact (hhandled k hk hkm).imp_right fun h => h.imp_right fun h => Nat.add_pos_left h _

/-- What is handled of a batch whose first record is done. -/
theorem handled_rest {rest : List Nat} (h : Sound d s) (hmem : invocation ∈ s.invocations)
    (htodo : invocation.todo = m :: rest) {other : Nat} (hother : other ∈ invocation.records)
    (hne : other ≠ m) :
    other ∈ rest ∨ other ∈ invocation.batchItemFailures ∨ 0 < s.rowsOf other := by
  refine (h.handled invocation hmem other hother).imp_left fun htodo' => ?_
  rw [htodo] at htodo'
  exact (List.mem_cons.mp htodo').resolve_left hne

/-- The first record is reported. -/
theorem Sound.fail {rest : List Nat} (h : Sound d s) (hmem : invocation ∈ s.invocations)
    (htodo : invocation.todo = m :: rest) : Sound d (s.set i (invocation.fail m rest)) := by
  refine h.set fun other hother => ?_
  by_cases hne : other = m
  · exact Or.inr (Or.inl (List.mem_append_right _ (List.mem_singleton.mpr hne)))
  · exact (handled_rest h hmem htodo hother hne).imp_right fun h =>
      h.imp_left (List.mem_append_left _)

theorem Sound.insert {outcome : Outcome} (h : Sound d s) (hmem : invocation ∈ s.invocations)
    (hs' : s.insert d i outcome invocation = some s') : Sound d s' := by
  rw [Store.insert] at hs'
  split at hs'
  · cases hs'
  · next m rest htodo =>
    cases outcome with
    | committed =>
      obtain ⟨columns, hcolumns, rfl⟩ := Option.map_eq_some_iff.mp hs'
      exact h.commit hcolumns fun other hother hne => handled_rest h hmem htodo hother hne
    | lost =>
      obtain ⟨columns, hcolumns, rfl⟩ := Option.map_eq_some_iff.mp hs'
      exact h.commit hcolumns fun other hother hne =>
        (handled_rest h hmem htodo hother hne).imp_right fun h =>
          h.imp_left (List.mem_append_left _)
    | routing =>
      dsimp only at hs'
      split at hs'
      · cases hs'
        exact h.fail hmem htodo
      · cases hs'
        exact h.set fun other hother => h.handled invocation hmem other hother
    | raised =>
      cases hs'
      exact h.fail hmem htodo

/-- What is done to messages, and leaves what they carry alone. -/
theorem Sound.messages {f : Nat → Message → Message} {invocations : List Invocation}
    (h : Sound d s) (hevent : ∀ m message, (f m message).event = message.event)
    (hbody : ∀ m message, (f m message).body = message.body)
    (hhandled : ∀ invocation ∈ invocations, ∀ m ∈ invocation.records,
      m ∈ invocation.todo ∨ m ∈ invocation.batchItemFailures ∨ 0 < s.rowsOf m) :
    Sound d { s with messages := s.messages.mapIdx f, invocations := invocations } := by
  refine ⟨fun message hmessage => ?_, fun row hrow => ?_, hhandled⟩
  · obtain ⟨m, hlt, rfl⟩ := List.mem_mapIdx.mp hmessage
    rw [hevent, hbody]
    exact h.bodies _ (List.getElem_mem hlt)
  · rw [← h.rows row hrow, Store.accepted, Store.accepted, List.getElem?_mapIdx, Option.bind_map]
    refine Option.bind_congr fun message _ => ?_
    change Message.accepted d (f _ message) = _
    rw [Message.accepted, Message.accepted, hbody]

theorem event_delete (message : Message) : message.delete.event = message.event := by
  rw [Message.delete]
  split <;> rfl

theorem body_delete (message : Message) : message.delete.body = message.body := by
  rw [Message.delete]
  split <;> rfl

theorem modify_eq_mapIdx {α : Type} (l : List α) (k : Nat) (f : α → α) :
    l.modify k f = l.mapIdx fun j x => if j = k then f x else x := by
  refine List.ext_getElem? fun j => ?_
  rw [List.getElem?_modify, List.getElem?_mapIdx]
  by_cases h : k = j
  · subst h
    simp
  · simp [h, Ne.symm h]

/-- **What holds under any delivery is kept by every step.** -/
theorem sound_execute (h : Sound d s) (hs' : execute d s a = some s') : Sound d s' := by
  cases a with
  | record event =>
    cases hs'
    refine ⟨fun message hmessage => ?_, fun row hrow => ?_, h.handled⟩
    · rcases List.mem_append.mp hmessage with hold | hnew
      · exact h.bodies message hold
      · rw [List.mem_singleton.mp hnew]
    · obtain ⟨message, hmessage, haccepted⟩ := Option.bind_eq_some_iff.mp (h.rows row hrow)
      refine Option.bind_eq_some_iff.mpr ⟨message, ?_, haccepted⟩
      rw [List.getElem?_append_left (List.getElem?_eq_some_iff.mp hmessage).1]
      exact hmessage
  | deliver batch =>
    rw [execute] at hs'
    split at hs'
    · cases hs'
      refine h.messages (fun m message => ?_) (fun m message => ?_) fun invocation hinvocation => ?_
      · split <;> rfl
      · split <;> rfl
      · rcases List.mem_append.mp hinvocation with hold | hnew
        · exact h.handled invocation hold
        · rw [List.mem_singleton.mp hnew]
          exact fun m hm => Or.inl hm
    · cases hs'
  | insert i outcome =>
    obtain ⟨invocation, hinvocation, hinsert⟩ := Option.bind_eq_some_iff.mp hs'
    exact h.insert (List.mem_of_getElem? (Option.filter_eq_some_iff.mp hinvocation).1) hinsert
  | acknowledge i undeleted =>
    obtain ⟨invocation, hinvocation, rfl⟩ := Option.map_eq_some_iff.mp hs'
    have hmem := List.mem_of_getElem? (Option.filter_eq_some_iff.mp hinvocation).1
    refine h.messages (fun m message => ?_) (fun m message => ?_) fun other hother => ?_
    · split
      · exact event_delete message
      · rfl
    · split
      · exact body_delete message
      · rfl
    · rcases List.mem_or_eq_of_mem_set hother with hold | rfl
      · exact h.handled other hold
      · exact h.handled invocation hmem
  | crash i =>
    obtain ⟨invocation, hinvocation, rfl⟩ := Option.map_eq_some_iff.mp hs'
    exact h.set (h.handled invocation
      (List.mem_of_getElem? (Option.filter_eq_some_iff.mp hinvocation).1))
  | deadLetter m =>
    rw [execute] at hs'
    split at hs'
    · cases hs'
      rw [Store.deadLetter, modify_eq_mapIdx]
      refine h.messages (fun m message => ?_) (fun m message => ?_) h.handled
      · split <;> rfl
      · split <;> rfl
    · cases hs'

/-! ### One step -/

/-- A row is the one that the other sink writes. -/
theorem Sound.row (h : Sound d s) {row : Row} (hrow : row ∈ s.rows) :
    ∃ message, s.messages[row.origin]? = some message ∧
      postgresRow message.event = some row.columns ∧ d.accepts row.columns = true := by
  obtain ⟨message, hmessage, haccepted⟩ := Option.bind_eq_some_iff.mp (h.rows row hrow)
  rw [accepted_of_body (h.bodies message (List.mem_of_getElem? hmessage))] at haccepted
  obtain ⟨hcolumns, haccepts⟩ := Option.filter_eq_some_iff.mp haccepted
  exact ⟨message, hmessage, hcolumns, haccepts⟩

/-- No row is written, and what is settled has its row. -/
theorem ClicksHold.of_rows (h : ClicksHold d s) (hsound : Sound d s') (hrows : s'.rows = s.rows)
    (hinserted : ∀ m message, s'.messages[m]? = some message → message.state ≠ .queued →
      (message.accepted d).isSome = true → 0 < s.rowsOf m) : ClicksHold d s' := by
  have hcount : ∀ m, s'.rowsOf m = s.rowsOf m := fun m => by
    rw [Store.rowsOf, Store.rowsOf, hrows]
  refine ⟨fun m => ?_, fun m message hmessage hstate haccepted => ?_, fun row => hsound.row⟩
  · rw [hcount]
    exact h.once m
  · rw [hcount]
    exact hinserted m message hmessage hstate haccepted

/-- A row is committed. -/
theorem clicksHold_commit (h : ClicksHold d s) {invocation' : Invocation} {columns : ClickColumns}
    (hsound : Sound d (s.commit i invocation' m columns)) :
    ClicksHold d (s.commit i invocation' m columns) ↔ s.rowsOf m = 0 := by
  constructor
  · intro hw
    have honce := hw.once m
    rw [rowsOf_commit, if_pos rfl] at honce
    exact Nat.eq_zero_of_le_zero (Nat.le_of_succ_le_succ honce)
  · intro hzero
    refine ⟨fun other => ?_, fun other message hmessage hstate haccepted => ?_,
      fun row => hsound.row⟩
    · rw [rowsOf_commit]
      by_cases hother : m = other
      · rw [if_pos hother, ← hother, hzero]
      · rw [if_neg hother]
        exact h.once other
    · rw [rowsOf_commit]
      exact Nat.add_pos_left (h.inserted other message hmessage hstate haccepted) _

/-- The next record of a batch. -/
theorem clicksHold_insert {outcome : Outcome} (hsound : Sound d s) (h : ClicksHold d s)
    (hmem : invocation ∈ s.invocations) (hs' : s.insert d i outcome invocation = some s') :
    ClicksHold d s' ↔
      (outcome.commits = true → ∀ m ∈ invocation.todo.head?, s.rowsOf m = 0) := by
  have hsound' := hsound.insert hmem hs'
  rw [Store.insert] at hs'
  split at hs'
  · cases hs'
  · next m rest htodo =>
    have hhead : (∀ k ∈ invocation.todo.head?, s.rowsOf k = 0) ↔ s.rowsOf m = 0 := by
      rw [htodo, List.head?_cons]
      exact ⟨fun hall => hall m rfl, fun hzero k hk => Option.mem_some_iff.mp hk ▸ hzero⟩
    cases outcome with
    | committed =>
      obtain ⟨columns, -, rfl⟩ := Option.map_eq_some_iff.mp hs'
      exact (clicksHold_commit h hsound').trans
        ⟨fun hzero _ => hhead.mpr hzero, fun hall => hhead.mp (hall rfl)⟩
    | lost =>
      obtain ⟨columns, -, rfl⟩ := Option.map_eq_some_iff.mp hs'
      exact (clicksHold_commit h hsound').trans
        ⟨fun hzero _ => hhead.mpr hzero, fun hall => hhead.mp (hall rfl)⟩
    | routing =>
      refine iff_of_true ?_ fun hcommits => by cases hcommits
      dsimp only at hs'
      split at hs'
      · cases hs'
        exact h.of_rows hsound' rfl h.inserted
      · cases hs'
        exact h.of_rows hsound' rfl h.inserted
    | raised =>
      cases hs'
      exact iff_of_true (h.of_rows hsound' rfl h.inserted) fun hcommits => by cases hcommits

/-- What the queue is told to forget has its row. -/
theorem clicksHold_acknowledge {undeleted : List Nat} (hsound : Sound d s) (h : ClicksHold d s)
    (hmem : invocation ∈ s.invocations) (htodo : invocation.todo = [])
    (hsound' : Sound d (s.acknowledge i undeleted invocation)) :
    ClicksHold d (s.acknowledge i undeleted invocation) := by
  refine h.of_rows hsound' rfl fun m message hmessage hstate haccepted => ?_
  obtain ⟨before, hbefore, rfl⟩ := Option.map_eq_some_iff.mp
    (List.getElem?_mapIdx.symm.trans hmessage)
  split at hstate
  · next hdeleted =>
    have hhandled := hsound.handled invocation hmem m hdeleted.1
    rw [htodo] at hhandled
    exact (hhandled.resolve_left List.not_mem_nil).resolve_left hdeleted.2.1
  · next hkeep =>
    rw [if_neg hkeep] at haccepted
    exact h.inserted m before hbefore hstate haccepted

/-- A message is given up. -/
theorem clicksHold_deadLetter (h : ClicksHold d s) (hmay : s.mayDeadLetter d m = true)
    (hsound' : Sound d (s.deadLetter m)) :
    ClicksHold d (s.deadLetter m) ↔ ((s.accepted d m).isSome = true → 0 < s.rowsOf m) := by
  obtain ⟨given, hgiven, -⟩ := (Option.any_eq_true _ _).mp hmay
  have haccepted : s.accepted d m = given.accepted d := by
    rw [Store.accepted, hgiven]
    rfl
  have hmessages : ∀ k, (s.deadLetter m).messages[k]? =
      if m = k then (s.messages[k]?).map ({ · with state := .deadLettered }) else s.messages[k]? :=
    fun k => by
      rw [Store.deadLetter, List.getElem?_modify]
      split
      · rfl
      · rw [id_map']
  rw [haccepted]
  constructor
  · intro hw
    refine hw.inserted m { given with state := .deadLettered } ?_ (by simp)
    rw [hmessages, if_pos rfl, hgiven]
    rfl
  · intro hrow
    refine h.of_rows hsound' rfl fun k message hmessage hstate haccepts => ?_
    rw [hmessages] at hmessage
    split at hmessage
    · next hk =>
      subst hk
      rw [hgiven] at hmessage
      obtain rfl := Option.some.inj hmessage
      exact hrow haccepts
    · exact h.inserted k message hmessage hstate haccepts

/-- **A step keeps it exactly when it is one that does.** -/
theorem clicksHold_execute (hsound : Sound d s) (h : ClicksHold d s)
    (hs' : execute d s a = some s') : ClicksHold d s' ↔ Kept d s a := by
  have hsound' := sound_execute hsound hs'
  cases a with
  | record event =>
    cases hs'
    refine iff_of_true (h.of_rows hsound' rfl fun m message hmessage hstate haccepted => ?_) trivial
    rw [List.getElem?_append] at hmessage
    split at hmessage
    · exact h.inserted m message hmessage hstate haccepted
    · rw [List.mem_singleton.mp (List.mem_of_getElem? hmessage)] at hstate
      exact absurd rfl hstate
  | deliver batch =>
    rw [execute] at hs'
    split at hs'
    · cases hs'
      refine iff_of_true (h.of_rows hsound' rfl fun m message hmessage hstate haccepted => ?_)
        trivial
      obtain ⟨before, hbefore, rfl⟩ := Option.map_eq_some_iff.mp
        (List.getElem?_mapIdx.symm.trans hmessage)
      refine h.inserted m before hbefore ?_ ?_
      · split at hstate
        · exact hstate
        · exact hstate
      · split at haccepted
        · exact haccepted
        · exact haccepted
    · cases hs'
  | insert i outcome =>
    obtain ⟨invocation, hinvocation, hinsert⟩ := Option.bind_eq_some_iff.mp hs'
    obtain ⟨hget, hrunning⟩ := Option.filter_eq_some_iff.mp hinvocation
    refine (clicksHold_insert hsound h (List.mem_of_getElem? hget) hinsert).trans ?_
    refine imp_congr_right fun _ => ?_
    rw [hget]
    exact ⟨fun hall other hother _ => Option.mem_some_iff.mp hother ▸ hall,
      fun hall => hall invocation rfl hrunning⟩
  | acknowledge i undeleted =>
    obtain ⟨invocation, hinvocation, rfl⟩ := Option.map_eq_some_iff.mp hs'
    obtain ⟨hget, hdone⟩ := Option.filter_eq_some_iff.mp hinvocation
    refine iff_of_true (clicksHold_acknowledge hsound h (List.mem_of_getElem? hget) ?_ hsound')
      trivial
    exact List.isEmpty_iff.mp (Bool.and_eq_true_iff.mp hdone).2
  | crash i =>
    obtain ⟨invocation, -, rfl⟩ := Option.map_eq_some_iff.mp hs'
    exact iff_of_true (h.of_rows hsound' rfl h.inserted) trivial
  | deadLetter m =>
    rw [execute] at hs'
    split at hs'
    · next hmay =>
      cases hs'
      exact (clicksHold_deadLetter h hmay hsound').trans ⟨fun hrow _ => hrow, fun hrow => hrow hmay⟩
    · cases hs'

/-- What cannot be done keeps it. -/
theorem kept_of_execute_eq_none (hsound : Sound d s) (hs' : execute d s a = none) : Kept d s a := by
  cases a with
  | insert i outcome =>
    intro hcommits invocation hinvocation hrunning m hm
    rw [execute, Option.mem_def.mp hinvocation, Option.filter_some, if_pos hrunning,
      Option.bind_some, Store.insert] at hs'
    obtain ⟨rest, htodo⟩ : ∃ rest, invocation.todo = m :: rest :=
      List.head?_eq_some_iff.mp hm
    rw [htodo] at hs'
    have hnone : s.accepted d m = none := by
      cases outcome with
      | committed => exact Option.map_eq_none_iff.mp hs'
      | lost => exact Option.map_eq_none_iff.mp hs'
      | routing => cases hcommits
      | raised => cases hcommits
    -- A row would come from a message that the database takes.
    refine List.countP_eq_zero.mpr fun row hrow horigin => ?_
    have hrow' := hsound.rows row hrow
    rw [of_decide_eq_true horigin, hnone] at hrow'
    cases hrow'
  | deadLetter m =>
    intro hmay
    rw [execute, if_pos hmay] at hs'
    cases hs'
  | _ => exact trivial

theorem step_cases (hs' : step d s a = some s') :
    execute d s a = some s' ∨ (execute d s a = none ∧ s' = s) :=
  eq_some_or_of_getD hs'

/-! ### A message that is refused -/

/-- One record of a batch, where none fails but those that the database refuses. -/
theorem step_drain {rest : List Nat} (hget : s.invocations[i]? = some invocation)
    (hrunning : invocation.running = true) (htodo : invocation.todo = m :: rest) :
    ∃ s' invocation', step d s (.insert i (if (s.accepted d m).isSome then .committed else .raised))
        = some s' ∧
      s'.invocations[i]? = some invocation' ∧ invocation'.running = true ∧
      invocation'.todo = rest ∧ s'.messages = s.messages ∧
      invocation'.batchItemFailures = invocation.batchItemFailures ++
        [m].filter (fun m => !(s.accepted d m).isSome) ∧
      ∀ k, s'.rowsOf k = s.rowsOf k + if (s.accepted d k).isSome then [m].count k else 0 := by
  have hlt : i < s.invocations.length := (List.getElem?_eq_some_iff.mp hget).1
  have hexecute : ∀ outcome, execute d s (.insert i outcome) = s.insert d i outcome invocation := by
    intro outcome
    rw [execute, hget, Option.filter_some, if_pos hrunning, Option.bind_some]
  cases hcolumns : s.accepted d m with
  | some columns =>
    refine ⟨s.commit i (invocation.pass rest) m columns, invocation.pass rest, ?_,
      List.getElem?_set_self hlt, hrunning, rfl, rfl, ?_, fun k => ?_⟩
    · rw [step, hexecute, Store.insert, htodo]
      simp [hcolumns]
    · simp [Invocation.pass, hcolumns]
    · rw [rowsOf_commit]
      by_cases hk : m = k
      · subst hk
        simp [hcolumns]
      · simp [hk]
  | none =>
    refine ⟨s.set i (invocation.fail m rest), invocation.fail m rest, ?_,
      List.getElem?_set_self hlt, hrunning, rfl, rfl, ?_, fun k => ?_⟩
    · rw [step, hexecute, Store.insert, htodo]
      simp
    · simp [Invocation.fail, hcolumns]
    · by_cases hk : m = k
      · subst hk
        simp [hcolumns, Store.rowsOf, Store.set]
      · simp [hk, Store.rowsOf, Store.set]

/-- A batch, where none fails but those that the database refuses. -/
theorem run_drain (todo : List Nat) (hget : s.invocations[i]? = some invocation)
    (hrunning : invocation.running = true) (htodo : invocation.todo = todo) :
    ∃ s' invocation', run (step d) s (s.drain d i todo) = some s' ∧
      s'.invocations[i]? = some invocation' ∧ invocation'.todo = [] ∧
      invocation'.batchItemFailures = invocation.batchItemFailures ++
        todo.filter (fun m => !(s.accepted d m).isSome) ∧
      ∀ m, s'.rowsOf m = s.rowsOf m + if (s.accepted d m).isSome then todo.count m else 0 := by
  induction todo generalizing s invocation with
  | nil =>
    exact ⟨s, invocation, rfl, hget, htodo, (List.append_nil _).symm, fun m => by simp⟩
  | cons m rest ih =>
    obtain ⟨t, next, hstep, hnext, hnextRunning, hnextTodo, hmessages, hfailures, hrows⟩ :=
      step_drain (d := d) hget hrunning htodo
    have haccepted : ∀ k, t.accepted d k = s.accepted d k := fun k => by
      rw [Store.accepted, Store.accepted, hmessages]
    obtain ⟨s', last, hrun, hlast, hlastTodo, hlastFailures, hlastRows⟩ :=
      ih hnext hnextRunning hnextTodo
    refine ⟨s', last, ?_, hlast, hlastTodo, ?_, fun k => ?_⟩
    · rw [Store.drain, List.map_cons, run_cons, hstep, Option.bind_some, ← hrun, Store.drain]
      simp only [haccepted]
    · rw [hlastFailures, hfailures, List.append_assoc]
      simp only [haccepted]
      rw [← List.filter_append, List.singleton_append]
    · rw [hlastRows, hrows, haccepted, add_assoc]
      congr 1
      split
      · rw [← List.count_append, List.singleton_append]
      · rfl

/-- **A message that is refused blocks no other.** -/
theorem unblocked (d : Deployment) (s : Store) : Unblocked d s := fun _ invocation hget hrunning =>
  run_drain invocation.todo hget hrunning rfl

/-! ### What is counted -/

theorem filterMap_range {α β : Type} (l : List α) (f : α → Option β) :
    ((List.range l.length).filterMap fun m => (l[m]?).bind f) = l.filterMap f := by
  induction l with
  | nil => rfl
  | cons x l ih =>
    rw [List.length_cons, List.range_succ_eq_map, List.filterMap_cons, List.filterMap_map,
      List.filterMap_cons, ← ih]
    rfl

/-- The messages that the database takes give the rows that the other sink writes. -/
theorem Sound.expected (h : Sound d s) :
    s.expected d = (List.range s.messages.length).filterMap (s.accepted d) := by
  refine ((filterMap_range s.messages (·.accepted d)).trans ?_).symm
  exact List.filterMap_congr fun message hmessage => accepted_of_body (h.bodies message hmessage)

/-- **Settled, each message that the database takes has its row, once.** -/
theorem origins_perm (hsound : Sound d s) (h : ClicksHold d s) (hsettled : s.Settled) :
    (s.rows.map (·.origin)).Perm
      ((List.range s.messages.length).filter fun m => (s.accepted d m).isSome) := by
  have hnodup : (s.rows.map (·.origin)).Nodup := by
    refine List.nodup_iff_count_le_one.mpr fun m => ?_
    rw [List.count_eq_countP, List.countP_map]
    refine le_trans (le_of_eq ?_) (h.once m)
    exact List.countP_congr fun row _ => by simp
  refine (List.perm_ext_iff_of_nodup hnodup (List.nodup_range.filter _)).mpr fun m => ?_
  rw [List.mem_map, List.mem_filter, List.mem_range]
  constructor
  · rintro ⟨row, hrow, rfl⟩
    have haccepted := hsound.rows row hrow
    obtain ⟨message, hmessage, -⟩ := Option.bind_eq_some_iff.mp haccepted
    exact ⟨(List.getElem?_eq_some_iff.mp hmessage).1, by rw [haccepted]; rfl⟩
  · rintro ⟨hlt, haccepted⟩
    have hget : s.messages[m]? = some s.messages[m] := List.getElem?_eq_getElem hlt
    rw [Store.accepted, hget, Option.bind_some] at haccepted
    obtain ⟨row, hrow, horigin⟩ := List.countP_pos_iff.mp
      (h.inserted m _ hget (hsettled _ (List.getElem_mem hlt)) haccepted)
    exact ⟨row, hrow, of_decide_eq_true horigin⟩

/-- **Each event that the database takes is counted once.** -/
theorem exactlyOnce (hsound : Sound d s) (h : ClicksHold d s) (hsettled : s.Settled) :
    ExactlyOnce d s := by
  have hrows : (s.rows.map (·.columns)).Perm (s.expected d) := by
    have horigins := (origins_perm hsound h hsettled).filterMap (s.accepted d)
    rw [hsound.expected]
    refine List.Perm.trans (List.Perm.of_eq ?_) (horigins.trans (List.Perm.of_eq ?_))
    · rw [List.filterMap_map, ← List.filterMap_eq_map]
      exact List.filterMap_congr fun row hrow => (hsound.rows row hrow).symm
    · rw [List.filterMap_filter]
      refine List.filterMap_congr fun m _ => ?_
      cases s.accepted d m <;> rfl
  refine ⟨hrows, fun estimate linkId => ?_⟩
  have hzero : (Rollup.Tables.empty.total linkId).clicks = 0 := rfl
  rw [Rollup.clicks_total_foldl, hzero, zero_add, List.countP_map, ← hrows.countP_eq,
    List.countP_map]
  rfl

end

/-- Nothing is recorded yet. -/
theorem sound_start (d : Deployment) : Sound d start := by
  refine ⟨fun message hmessage => ?_, fun row hrow => ?_, fun invocation hinvocation => ?_⟩
  · cases hmessage
  · cases hrow
  · cases hinvocation

theorem clicksHold_start (d : Deployment) : ClicksHold d start := by
  refine ⟨fun m => Nat.zero_le _, fun m message hmessage => ?_, fun row hrow => ?_⟩
  · cases hmessage
  · cases hrow

/-- **No click is lost or doubled throughout a run exactly when no message is inserted after its
row is committed, and none is given up before; then each is counted once, and what the database
refuses blocks none.** -/
theorem clicks_exactly_once (d : Deployment) (actions : List Action) :
    ((∀ pre post t, actions = pre ++ post → run (step d) start pre = some t → ClicksHold d t) ↔
      Guarded (step d) (Kept d) start actions) ∧
    ∀ t, run (step d) start actions = some t →
      Unblocked d t ∧ (ClicksHold d t → t.Settled → ExactlyOnce d t) := by
  have hsound_step : ∀ s a s', Sound d s → step d s a = some s' → Sound d s' := by
    intro s a s' h hs'
    rcases step_cases hs' with hexecute | ⟨-, rfl⟩
    · exact sound_execute h hexecute
    · exact h
  refine ⟨(guarded_iff_holds_throughout_of_invariant (fun _ _ => rfl) hsound_step ?_
    (sound_start d) (clicksHold_start d)).symm, fun t ht => ⟨unblocked d t, fun h hsettled => ?_⟩⟩
  · intro s a s' hsound h hs'
    rcases step_cases hs' with hexecute | ⟨hnone, rfl⟩
    · exact clicksHold_execute hsound h hexecute
    · exact iff_of_true h (kept_of_execute_eq_none hsound hnone)
  · exact exactlyOnce (invariant_of_run hsound_step actions start t (sound_start d) ht) h hsettled

/-! ### A crash after the commit -/

def anyRow : Deployment := ⟨fun _ => true, 5⟩

/-- A visit at the epoch. -/
def oneVisit : ClickEvent where
  linkId := "l"
  workspaceId := "w"
  occurredAt := ⟨0, by decide, by decide⟩
  visitorHash := "v"
  country := none
  city := none
  device := none
  browser := none
  os := none
  referrerHost := none
  isQr := false
  isBot := false
  blockedReason := none
  matchedRuleId := none
  variant := none

/-- The invocation ends between the insert's commit and the handler's return. -/
def crashAfterCommit : List Action :=
  [.record oneVisit, .deliver [0], .insert 0 .committed, .crash 0, .deliver [0],
    .insert 1 .committed, .acknowledge 1 []]

/-- **One visit, two rows.** -/
theorem click_counted_twice :
    ¬ ∀ (d : Deployment) (actions : List Action) (t : Store),
      run (step d) start actions = some t → t.Settled → ExactlyOnce d t := by
  intro h
  have htwo : (run (step anyRow) start crashAfterCommit).any (fun t =>
      decide ((∀ message ∈ t.messages, message.state ≠ .queued) ∧ t.messages.length = 1 ∧
        t.rows.length = 2)) = true := by
    decide +kernel
  obtain ⟨t, hrun, hstate⟩ := (Option.any_eq_true _ _).mp htwo
  obtain ⟨hsettled, hmessages, hrows⟩ := of_decide_eq_true hstate
  have hlength := (h anyRow crashAfterCommit t hrun hsettled).rows.length_eq
  have hle : (t.expected anyRow).length ≤ t.messages.length := List.length_filterMap_le _ _
  rw [← hlength, List.length_map, hrows, hmessages] at hle
  exact absurd hle (by decide)

/-- A batch that is reported and comes again, with no crash. -/
def retriedOnce : List Action :=
  [.record oneVisit, .deliver [0], .insert 0 .raised, .acknowledge 0 [], .deliver [0],
    .insert 1 .routing, .insert 1 .committed, .acknowledge 1 []]

/-- A visit is counted once where its message comes again before its row is committed. -/
theorem click_counted_once :
    Guarded (step anyRow) (Kept anyRow) start retriedOnce ∧
      ∃ t, run (step anyRow) start retriedOnce = some t ∧ t.Settled ∧ ExactlyOnce anyRow t := by
  have hkept : Guarded (step anyRow) (Kept anyRow) start retriedOnce := by decide +kernel
  have hsome : (run (step anyRow) start retriedOnce).any (fun t =>
      decide (∀ message ∈ t.messages, message.state ≠ .queued)) = true := by
    decide +kernel
  obtain ⟨t, hrun, hstate⟩ := (Option.any_eq_true _ _).mp hsome
  have hsettled : ∀ message ∈ t.messages, message.state ≠ .queued := of_decide_eq_true hstate
  obtain ⟨hholds, hreached⟩ := clicks_exactly_once anyRow retriedOnce
  have hclicks := hholds.mpr hkept retriedOnce [] t (List.append_nil _).symm hrun
  exact ⟨hkept, t, hrun, hsettled, (hreached t hrun).2 hclicks hsettled⟩

end SnapUrl.Redirect.ClickQueue
