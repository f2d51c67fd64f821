import SnapUrl.Links.BulkCreate

/-!
# A batch and its rows one at a time

`bulkCreate` makes the checks of `insert` again, in its own words.

* `createEach`: the rows through the single path, each in the state the ones before it left.
* `settle_after`, `room_after`: what a state knows of the links that were stored since.
* `bulkStored_eq_createEach_iff`: **both store the same links for the same rows exactly when
  no row that is left asks for a back-half an operator reserved, the rows that are left fit
  the caps, and the back-halves that are drawn are free and differ from all others.**
* `bulk_takes_reserved`: a batch takes a back-half that the single path refuses.
-/

namespace SnapUrl.Links.Creation

open Domain

/-- The rows one at a time. -/
def createEach (e : Environment) : State → List Row → List (Option StoredLink)
  | _, [] => []
  | s, row :: rows =>
    match createRow e s row with
    | .ok link => some link :: createEach e (s.store link) rows
    | .error _ => none :: createEach e s rows

/-- **The condition on a batch that the database takes.** -/
structure BatchAgrees (e : Environment) (s : State) (rows : List Row) : Prop where
  /-- The caps leave room for the rows that are left. -/
  room : Room e s (contenders e s rows).length
  /-- None of them asks for a back-half that an operator reserved. -/
  unreserved : ∀ p ∈ contenders e s rows, p.Unreserved e s
  /-- A free back-half is drawn within the attempts of the single path. -/
  drawn : ∀ row ∈ rows, ∀ p ∈ passing e s row, p.generated = true →
    freeWithin s SLUG_RETRY_LIMIT p

/-- **The condition.**  Once a cap is reached, both paths refuse every row; and where the
database does not take the batch, it stores nothing. -/
def Agrees (e : Environment) (s : State) (rows : List Row) : Prop :=
  Room e s 1 →
    if Insertable e s (contenders e s rows) then BatchAgrees e s rows
    else ∀ row ∈ rows, ∀ p ∈ passing e s row, ¬ Acceptable e s p

/-- The state once rows were stored. -/
def State.after (e : Environment) (s : State) (acc : List Prepared) : State :=
  { s with links := s.links ++ acc.map (·.link e s) }

section

variable {e : Environment} {s : State} {acc : List Prepared} {rows : List Row}

/-! ### A state with more links -/

theorem after_nil : s.after e [] = s := by
  rw [State.after, List.map_nil, List.append_nil]

theorem store_after (p : Prepared) :
    (s.after e acc).store (p.link e s) = s.after e (acc ++ [p]) := by
  rw [State.store, State.after, State.after, List.map_append, ← List.append_assoc]
  rfl

theorem taken_after (key : String × String) :
    (s.after e acc).taken key = true ↔ s.taken key = true ∨ key ∈ acc.map (·.key) := by
  rw [State.taken, State.taken, State.after, decide_eq_true_eq, decide_eq_true_eq, List.map_append,
    List.mem_append, List.map_map]
  rfl

theorem not_taken_after {key : String × String} (h : s.taken key = false)
    (hacc : key ∉ acc.map (·.key)) : (s.after e acc).taken key = false := by
  rw [Bool.eq_false_iff, ne_eq, taken_after, h]
  simpa using hacc

/-- A back-half that is free later was free before. -/
theorem freeWithin_of_after {n : Nat} {p : Prepared} (h : freeWithin (s.after e acc) n p) :
    freeWithin s n p := by
  induction n generalizing p with
  | zero => exact h
  | succ n ih =>
    refine h.imp (fun hfree => ?_) ih
    rw [Bool.eq_false_iff] at hfree ⊢
    exact fun htaken => hfree ((taken_after p.key).mpr (Or.inl htaken))

/-- **What a row settles on stays** when the links stored since have other back-halves. -/
theorem settle_after {n : Nat} {p : Prepared} (h : freeWithin s n p)
    (hacc : (settleFrom s n p).key ∉ acc.map (·.key)) :
    freeWithin (s.after e acc) n p ∧ settleFrom (s.after e acc) n p = settleFrom s n p := by
  induction n generalizing p with
  | zero => exact absurd h id
  | succ n ih =>
    rw [settleFrom] at hacc
    cases htaken : s.taken p.key with
    | false =>
      rw [htaken, if_neg Bool.false_ne_true] at hacc
      have hfree := not_taken_after (e := e) htaken hacc
      refine ⟨Or.inl hfree, ?_⟩
      rw [settleFrom, settleFrom, hfree, htaken, if_neg Bool.false_ne_true,
        if_neg Bool.false_ne_true]
    | true =>
      rw [htaken, if_pos rfl] at hacc
      have hrest : freeWithin s n p.redraw := h.resolve_left (by simp [htaken])
      obtain ⟨hfree, hsettled⟩ := ih hrest hacc
      have htaken' : (s.after e acc).taken p.key = true := (taken_after _).mpr (Or.inl htaken)
      refine ⟨Or.inr hfree, ?_⟩
      rw [settleFrom, settleFrom, htaken', htaken, if_pos rfl, if_pos rfl, hsettled]

theorem counted_after : (s.after e acc).counted = s.counted ++ List.replicate acc.length e.now := by
  have hnew : (acc.map (·.link e s)).filter
      (fun link => link.workspaceId = s.workspaceId && !link.managed) = acc.map (·.link e s) := by
    refine List.filter_eq_self.mpr fun link hlink => ?_
    obtain ⟨p, -, rfl⟩ := List.mem_map.mp hlink
    simp [Prepared.link, Prepared.linkAt, linkValues]
  rw [State.counted, State.counted, State.after]
  dsimp only
  rw [List.filter_append, hnew, List.map_append, List.map_map]
  refine congrArg (_ ++ ·) ?_
  exact List.map_eq_replicate_iff.mpr fun p _ => rfl

/-- A link that is stored now is counted in every span that ends now. -/
theorem count_after (span : Int) (hspan : 0 ≤ span) :
    (NewAccountCap.countSince (s.after e acc).counted (NewAccountCap.since e.now span)).count =
      (NewAccountCap.countSince s.counted (NewAccountCap.since e.now span)).count + acc.length := by
  have hnow : NewAccountCap.since e.now span ≤ e.now :=
    (NewAccountCap.since_le e.now span).trans (by omega)
  rw [NewAccountCap.countSince, NewAccountCap.countSince, counted_after]
  dsimp only
  rw [List.countP_append, List.countP_replicate, if_pos (by simpa using hnow)]

/-- **Every link that is stored takes up room.** -/
theorem room_after (n : Nat) : Room e (s.after e acc) n ↔ Room e s (acc.length + n) := by
  rw [Room, Room, count_after _ (by decide), count_after _ (by decide), Nat.add_assoc,
    Nat.add_assoc]
  rfl

theorem Room.mono {m n : Nat} (h : Room e s n) (hle : m ≤ n) : Room e s m := fun hnew =>
  ⟨le_trans (Nat.add_le_add_left hle _) (h hnew).1, le_trans (Nat.add_le_add_left hle _) (h hnew).2⟩

/-! ### A row in such a state -/

theorem passes_after {input : CreateLinkInput} :
    Passes e (s.after e acc) input ↔ Passes e s input :=
  ⟨fun h => ⟨h.valid, h.shaped, h.allowed, h.notBlocked, h.notChained, h.notFlagged⟩,
    fun h => ⟨h.valid, h.shaped, h.allowed, h.notBlocked, h.notChained, h.notFlagged⟩⟩

/-- No check of `Passes` reads the links. -/
theorem passing_after (row : Row) : passing e (s.after e acc) row = passing e s row := by
  have hdomain (name : String) :
      resolveDomain e.p (s.after e acc) name = resolveDomain e.p s name := rfl
  simp only [passing, passes_after, hdomain]

/-- What the single path makes of a row after others. -/
theorem createRow_after_eq_ok_iff {row : Row} {link : StoredLink} :
    createRow e (s.after e acc) row = .ok link ↔ ∃ p, passing e s row = some p ∧
      Room e s (acc.length + 1) ∧ p.Unreserved e s ∧ e.storable p.input = true ∧
        freeWithin (s.after e acc) p.tries p ∧
        link = (settleFrom (s.after e acc) p.tries p).link e s := by
  rw [createRow_eq_ok_iff, passing_after]
  refine exists_congr fun p => and_congr_right fun _ => ?_
  rw [room_after]
  constructor
  · rintro ⟨hroom, hacceptable, hlink⟩
    exact ⟨hroom, hacceptable.unreserved, hacceptable.storable, hacceptable.free, hlink⟩
  · rintro ⟨hroom, hunreserved, hstorable, hfree, hlink⟩
    exact ⟨hroom, ⟨hunreserved, hstorable, hfree⟩, hlink⟩

attribute [local simp] createEach

theorem createEach_cons_of_ok {row : Row} {p : Prepared}
    (h : createRow e (s.after e acc) row = .ok (p.link e s)) :
    createEach e (s.after e acc) (row :: rows) =
      some (p.link e s) :: createEach e (s.after e (acc ++ [p])) rows := by
  rw [createEach, h, ← store_after]

theorem createEach_cons_of_not_ok {s : State} {row : Row}
    (h : ∀ link, createRow e s row ≠ .ok link) :
    createEach e s (row :: rows) = none :: createEach e s rows := by
  rw [createEach]
  cases hrow : createRow e s row with
  | error err => rfl
  | ok link => exact absurd hrow (h link)

/-- The single path stores nothing exactly when it refuses every row. -/
theorem createEach_eq_none_iff :
    createEach e s rows = rows.map (fun _ => none) ↔
      ∀ row ∈ rows, ∀ link, createRow e s row ≠ .ok link := by
  induction rows with
  | nil => simp
  | cons row rows ih =>
    rw [List.forall_mem_cons, ← ih]
    cases hrow : createRow e s row with
    | error err => simp [hrow]
    | ok link => simp [hrow]

/-- A back-half that is asked for and taken is refused. -/
theorem not_freeWithin_chosen {p : Prepared} (h : p.generated = false)
    (htaken : s.taken p.key = true) : ¬ freeWithin s p.tries p := by
  have hslug : truthy p.input.slug = true := by simpa [Prepared.generated] using h
  rw [Prepared.tries, hslug, if_pos rfl, freeWithin, freeWithin, htaken]
  simp

theorem settled_chosen {p : Prepared} (h : p.generated = false) (hfree : s.taken p.key = false) :
    freeWithin s p.tries p ∧ settleFrom s p.tries p = p := by
  have hslug : truthy p.input.slug = true := by simpa [Prepared.generated] using h
  rw [Prepared.tries, hslug, if_pos rfl, freeWithin, settleFrom, hfree, if_neg Bool.false_ne_true]
  exact ⟨Or.inl rfl, rfl⟩

theorem tries_generated {p : Prepared} (h : p.generated = true) : p.tries = SLUG_RETRY_LIMIT := by
  have hslug : truthy p.input.slug = false := by simpa [Prepared.generated] using h
  rw [Prepared.tries, hslug, if_neg Bool.false_ne_true]

theorem unreserved_generated {p : Prepared} (h : p.generated = true) : p.Unreserved e s := by
  intro hslug
  simp [Prepared.generated, hslug] at h

theorem input_settleFrom (n : Nat) (p : Prepared) : (settleFrom s n p).input = p.input := by
  induction n generalizing p with
  | zero => rfl
  | succ n ih =>
    rw [settleFrom]
    split
    · exact ih p.redraw
    · rfl

/-! ### The paths agree -/

/-- What holds of the rows that are left when all of them can be stored after `acc`. -/
structure Fit (e : Environment) (s : State) (acc rest : List Prepared) : Prop where
  storable : ∀ p ∈ rest, e.storable p.input = true
  free : ∀ p ∈ rest, s.taken p.key = false
  distinct : ((acc ++ rest).map (·.key)).Nodup
  room : Room e s (acc.length + rest.length)
  unreserved : ∀ p ∈ rest, p.Unreserved e s

theorem Fit.head {p : Prepared} {rest : List Prepared} (h : Fit e s acc (p :: rest)) :
    p.key ∉ acc.map (·.key) := by
  have hdistinct := h.distinct
  rw [List.map_append, List.map_cons, List.nodup_append] at hdistinct
  exact fun hmem => hdistinct.2.2 _ hmem _ List.mem_cons_self rfl

theorem Fit.tail {p : Prepared} {rest : List Prepared} (h : Fit e s acc (p :: rest)) :
    Fit e s (acc ++ [p]) rest where
  storable q hq := h.storable q (List.mem_cons_of_mem _ hq)
  free q hq := h.free q (List.mem_cons_of_mem _ hq)
  distinct := by rw [List.append_assoc]; exact h.distinct
  room := by
    have hroom := h.room
    rw [List.length_cons] at hroom
    rw [List.length_append, List.length_singleton]
    exact hroom.mono (by omega)
  unreserved q hq := h.unreserved q (List.mem_cons_of_mem _ hq)

theorem Fit.room_one {p : Prepared} {rest : List Prepared} (h : Fit e s acc (p :: rest)) :
    Room e s (acc.length + 1) :=
  h.room.mono (by rw [List.length_cons]; omega)

/-- A row that settles on a back-half of its own is stored. -/
theorem createRow_of_fit {row : Row} {p : Prepared} {rest : List Prepared}
    (hrow : passing e s row = some p) (hfree : freeWithin s p.tries p)
    (hunreserved : p.Unreserved e s)
    (hfit : Fit e s acc (settleFrom s p.tries p :: rest)) :
    createRow e (s.after e acc) row = .ok ((settleFrom s p.tries p).link e s) := by
  obtain ⟨hfree', hsettled⟩ := settle_after (e := e) hfree hfit.head
  have hstorable := hfit.storable _ List.mem_cons_self
  rw [input_settleFrom] at hstorable
  exact createRow_after_eq_ok_iff.mpr
    ⟨p, hrow, hfit.room_one, hunreserved, hstorable, hfree', by rw [hsettled]⟩

/-- A row that asks for a taken back-half is refused. -/
theorem createRow_of_taken {row : Row} {p : Prepared} (hrow : passing e s row = some p)
    (hchosen : p.generated = false) (htaken : s.taken p.key = true ∨ p.key ∈ acc.map (·.key))
    (link : StoredLink) : createRow e (s.after e acc) row ≠ .ok link := by
  intro h
  obtain ⟨q, hq, -, -, -, hfree, -⟩ := createRow_after_eq_ok_iff.mp h
  obtain rfl : p = q := Option.some.inj (hrow.symm.trans hq)
  exact not_freeWithin_chosen hchosen ((taken_after p.key).mpr htaken) hfree

theorem createRow_of_not_passing {row : Row} (hrow : passing e s row = none) (link : StoredLink) :
    createRow e (s.after e acc) row ≠ .ok link := by
  intro h
  obtain ⟨q, hq, -⟩ := createRow_after_eq_ok_iff.mp h
  rw [hrow] at hq
  exact absurd hq (by simp)

/-- **Rows that fit are stored one at a time as in a batch.**  What an earlier row of the batch
asked for is taken in the table, or by a row that was stored. -/
theorem createEach_of_fit {seen : List (String × String)}
    (hseen : ∀ key ∈ seen, s.taken key = true ∨ key ∈ acc.map (·.key))
    (hdrawn : ∀ row ∈ rows, ∀ p ∈ passing e s row, p.generated = true →
      freeWithin s SLUG_RETRY_LIMIT p)
    (hfit : Fit e s acc (contend e s seen rows).reduceOption) :
    createEach e (s.after e acc) rows =
      (contend e s seen rows).map fun p => p.map (·.link e s) := by
  induction rows generalizing acc seen with
  | nil => rfl
  | cons row rows ih =>
    rw [List.forall_mem_cons] at hdrawn
    cases hrow : passing e s row with
    | none =>
      simp only [contend, hrow, List.reduceOption_cons_of_none] at hfit ⊢
      rw [createEach_cons_of_not_ok (createRow_of_not_passing hrow), ih hseen hdrawn.2 hfit]
      rfl
    | some p =>
      cases hgenerated : p.generated with
      | true =>
        have hfree := hdrawn.1 p hrow hgenerated
        rw [← tries_generated hgenerated] at hfree
        simp only [contend, hrow, hgenerated, if_true, List.reduceOption_cons_of_some,
          Prepared.settled] at hfit ⊢
        have hok := createRow_of_fit hrow hfree (unreserved_generated hgenerated) hfit
        rw [createEach_cons_of_ok hok, ih (fun key hkey => (hseen key hkey).imp_right fun hmem => ?_)
          hdrawn.2 hfit.tail]
        · rfl
        · rw [List.map_append]
          exact List.mem_append_left _ hmem
      | false =>
        simp only [contend, hrow, hgenerated, Bool.false_eq_true, if_false] at hfit ⊢
        by_cases hmem : p.key ∈ seen
        · simp only [hmem, if_true, List.reduceOption_cons_of_none] at hfit ⊢
          rw [createEach_cons_of_not_ok (createRow_of_taken hrow hgenerated (hseen _ hmem)),
            ih hseen hdrawn.2 hfit]
          rfl
        simp only [hmem, if_false] at hfit ⊢
        cases htaken : s.taken p.key with
        | true =>
          simp only [htaken, if_true, List.reduceOption_cons_of_none] at hfit ⊢
          rw [createEach_cons_of_not_ok (createRow_of_taken hrow hgenerated (Or.inl htaken)),
            ih (List.forall_mem_cons.mpr ⟨Or.inl htaken, hseen⟩) hdrawn.2 hfit]
          rfl
        | false =>
          simp only [htaken, Bool.false_eq_true, if_false, List.reduceOption_cons_of_some] at hfit ⊢
          obtain ⟨hfree, hsettled⟩ := settled_chosen hgenerated htaken
          have hok := createRow_of_fit (p := p) hrow hfree (hfit.unreserved p List.mem_cons_self)
            (by rw [hsettled]; exact hfit)
          rw [hsettled] at hok
          rw [createEach_cons_of_ok hok, ih (List.forall_mem_cons.mpr ⟨?_, fun key hkey => ?_⟩)
            hdrawn.2 hfit.tail]
          · rfl
          · exact Or.inr (by simp)
          · refine (hseen key hkey).imp_right fun hacc => ?_
            rw [List.map_append]
            exact List.mem_append_left _ hacc

/-- What a batch stores one row at a time. -/
structure Stored (e : Environment) (s : State) (acc rest : List Prepared) (rows : List Row) :
    Prop where
  room : rest = [] ∨ Room e s (acc.length + rest.length)
  unreserved : ∀ p ∈ rest, p.Unreserved e s
  drawn : ∀ row ∈ rows, ∀ p ∈ passing e s row, p.generated = true →
    freeWithin s SLUG_RETRY_LIMIT p

/-- A row that was stored, and those after it. -/
theorem Stored.cons {row : Row} {p q : Prepared} {rest : List Prepared}
    (h : Stored e s (acc ++ [q]) rest rows) (hrow : passing e s row = some p)
    (hroom : Room e s (acc.length + 1)) (hunreserved : q.Unreserved e s)
    (hdrawn : p.generated = true → freeWithin s SLUG_RETRY_LIMIT p) :
    Stored e s acc (q :: rest) (row :: rows) where
  room := by
    refine Or.inr ?_
    rcases h.room with rfl | hrest
    · exact hroom
    · rw [List.length_append, List.length_singleton] at hrest
      rw [List.length_cons]
      exact hrest.mono (by omega)
  unreserved := List.forall_mem_cons.mpr ⟨hunreserved, h.unreserved⟩
  drawn := by
    refine List.forall_mem_cons.mpr ⟨fun p' hp' => ?_, h.drawn⟩
    obtain rfl : p = p' := Option.some.inj (hrow.symm.trans hp')
    exact hdrawn

/-- A row that was not. -/
theorem Stored.cons_refused {row : Row} {rest : List Prepared} (h : Stored e s acc rest rows)
    (hrow : ∀ p ∈ passing e s row, p.generated = false) : Stored e s acc rest (row :: rows) where
  room := h.room
  unreserved := h.unreserved
  drawn := by
    refine List.forall_mem_cons.mpr ⟨fun p hp hgenerated => ?_, h.drawn⟩
    rw [hrow p hp] at hgenerated
    exact absurd hgenerated Bool.false_ne_true

/-- The head and the tail of what is stored. -/
theorem createEach_cons_some {row : Row} {q : Prepared} {links : List (Option StoredLink)}
    (h : createEach e (s.after e acc) (row :: rows) = some (q.link e s) :: links) :
    createRow e (s.after e acc) row = .ok (q.link e s) ∧
      createEach e (s.after e (acc ++ [q])) rows = links := by
  rw [createEach] at h
  cases hrow : createRow e (s.after e acc) row with
  | error err =>
    rw [hrow] at h
    simp at h
  | ok link =>
    rw [hrow] at h
    obtain ⟨hlink, hlinks⟩ := List.cons.inj h
    obtain rfl := Option.some.inj hlink
    rw [store_after] at hlinks
    exact ⟨rfl, hlinks⟩

theorem createEach_cons_none {s : State} {row : Row} {links : List (Option StoredLink)}
    (h : createEach e s (row :: rows) = none :: links) : createEach e s rows = links := by
  rw [createEach] at h
  cases hrow : createRow e s row with
  | error err =>
    rw [hrow] at h
    exact (List.cons.inj h).2
  | ok link =>
    rw [hrow] at h
    simp at h

/-- **What the single path tells of the rows of a batch it agrees with.** -/
theorem stored_of_createEach {seen : List (String × String)}
    (h : createEach e (s.after e acc) rows =
      (contend e s seen rows).map fun p => p.map (·.link e s)) :
    Stored e s acc (contend e s seen rows).reduceOption rows := by
  induction rows generalizing acc seen with
  | nil => exact ⟨Or.inl rfl, by simp [contend], by simp⟩
  | cons row rows ih =>
    cases hrow : passing e s row with
    | none =>
      simp only [contend, hrow, List.reduceOption_cons_of_none] at h ⊢
      refine (ih (createEach_cons_none h)).cons_refused fun p hp => ?_
      rw [hrow] at hp
      exact absurd hp (by simp)
    | some p =>
      cases hgenerated : p.generated with
      | true =>
        simp only [contend, hrow, hgenerated, if_true, List.reduceOption_cons_of_some] at h ⊢
        obtain ⟨hok, hrest⟩ := createEach_cons_some h
        obtain ⟨p', hp', hroom, -, -, hfree, -⟩ := createRow_after_eq_ok_iff.mp hok
        obtain rfl : p = p' := Option.some.inj (hrow.symm.trans hp')
        refine (ih hrest).cons hrow hroom ?_ fun _ => ?_
        · refine unreserved_generated ?_
          rw [Prepared.generated, Prepared.settled, input_settleFrom]
          exact hgenerated
        · rw [← tries_generated hgenerated]
          exact freeWithin_of_after hfree
      | false =>
        have hrefused : ∀ p' ∈ passing e s row, p'.generated = false := by
          intro p' hp'
          obtain rfl : p = p' := Option.some.inj (hrow.symm.trans hp')
          exact hgenerated
        simp only [contend, hrow, hgenerated, Bool.false_eq_true, if_false] at h ⊢
        by_cases hmem : p.key ∈ seen
        · simp only [hmem, if_true, List.reduceOption_cons_of_none] at h ⊢
          exact (ih (createEach_cons_none h)).cons_refused hrefused
        simp only [hmem, if_false] at h ⊢
        cases htaken : s.taken p.key with
        | true =>
          simp only [htaken, if_true, List.reduceOption_cons_of_none] at h ⊢
          exact (ih (createEach_cons_none h)).cons_refused hrefused
        | false =>
          simp only [htaken, Bool.false_eq_true, if_false, List.reduceOption_cons_of_some] at h ⊢
          obtain ⟨hok, hrest⟩ := createEach_cons_some h
          obtain ⟨p', hp', hroom, hunreserved, -⟩ := createRow_after_eq_ok_iff.mp hok
          obtain rfl : p = p' := Option.some.inj (hrow.symm.trans hp')
          refine (ih hrest).cons hrow hroom hunreserved fun hyes => ?_
          exact absurd (hyes.symm.trans hgenerated) (by simp)

end

/-! ### The result -/

/-- **A batch and its rows one at a time store the same links for the same rows exactly under
the condition.** -/
theorem bulkStored_eq_createEach_iff (e : Environment) (s : State) (rows : List Row) :
    bulkStored e s rows = createEach e s rows ↔ Agrees e s rows := by
  have hafter : s.after e [] = s := after_nil
  have hsingle : ∀ row link, createRow e s row = .ok link ↔ ∃ p, passing e s row = some p ∧
      Room e s 1 ∧ Acceptable e s p ∧ link = (p.settled s).link e s :=
    fun row link => createRow_eq_ok_iff
  rw [bulkStored_eq, Agrees]
  by_cases hroom : Room e s 1
  · by_cases hinsertable : Insertable e s (contenders e s rows)
    · rw [if_pos ⟨hroom, hinsertable⟩, if_pos hinsertable]
      refine ⟨fun h _ => ?_, fun h => ?_⟩
      · have hstored : Stored e s [] (contenders e s rows) rows :=
          stored_of_createEach (by rw [hafter]; exact h.symm)
        refine ⟨?_, hstored.unreserved, hstored.drawn⟩
        rcases hstored.room with hnil | hfits
        · rw [hnil]
          exact hroom.mono (Nat.zero_le _)
        · rw [List.length_nil, Nat.zero_add] at hfits
          exact hfits
      · have hagrees := h hroom
        have hfit : Fit e s [] (contenders e s rows) :=
          ⟨hinsertable.storable, hinsertable.free, hinsertable.distinct,
            by rw [List.length_nil, Nat.zero_add]; exact hagrees.room, hagrees.unreserved⟩
        have heach := createEach_of_fit (by simp) hagrees.drawn hfit
        rw [hafter] at heach
        exact heach.symm
    · rw [if_neg fun h => hinsertable h.2, if_neg hinsertable, eq_comm, createEach_eq_none_iff]
      refine ⟨fun h _ row hrow p hp hacceptable => ?_, fun h row hrow link hlink => ?_⟩
      · exact h row hrow _ ((hsingle row _).mpr ⟨p, hp, hroom, hacceptable, rfl⟩)
      · obtain ⟨p, hp, -, hacceptable, -⟩ := (hsingle row link).mp hlink
        exact h hroom row hrow p hp hacceptable
  · rw [if_neg fun h => hroom h.1, eq_comm, createEach_eq_none_iff]
    refine iff_of_true (fun row _ link hlink => ?_) fun h => absurd h hroom
    obtain ⟨p, -, h, -⟩ := (hsingle row link).mp hlink
    exact hroom h

/-! ### A back-half that an operator reserved -/

theorem exampleUrl_base_clean :
    Lib.NoDelimiter ("https:" ++ "//" ++
      (if "" = "" then "example.com" else "example.com" ++ ":" ++ "") ++ "/") := by
  decide

/-- `https://example.com/`, parsed. -/
def exampleUrl : Lib.Url where
  protocol := "https:"
  authority := "//"
  hostname := "example.com"
  port := ""
  pathname := "/"
  query := none
  fragment := none
  base_clean := exampleUrl_base_clean
  query_clean := Lib.Url.query_clean_none

/-- A runtime that knows one URL, and services that have nothing against it. -/
def sampleEnvironment : Environment where
  p := { germanPlatform with
    parseUrl := fun s => if s = "https://example.com/" then some exampleUrl else none }
  userId := "U1"
  now := 0
  resolvesToDeniedAddress _ := false
  scan _ := ⟨"clean", 0⟩
  hash _ := ""
  storable _ := true
  formatNumber _ := ""

/-- A workspace without caps, where `promo` is reserved. -/
def promoState : State where
  workspaceId := "W1"
  account := ⟨⟨0, 20, 10⟩, 0, false⟩
  defaultRedirect := some "302"
  reservedSlugs := ["promo"]
  blockedDomains := []
  domains := [⟨"D1", "snap.to", none, true, "live"⟩]
  links := []

/-- A link under a back-half, with no other settings. -/
def inputFor (slug : String) : CreateLinkInput where
  destination := "https://example.com/"
  domain := "snap.to"
  slug := some slug
  tags := []
  folder := none
  comment := none
  redirectType := none
  rules := []
  expiresAt := none
  expiresTo := none
  activatesAt := none
  scheduledTo := none
  clickLimit := none
  password := none
  forwardQuery := true
  deepLink := false
  hideReferrer := false
  publicPreview := true
  utm := none
  social := none

def requestFor (slug : String) : Row where
  destination := some "https://example.com/"
  parsed := .ok (inputFor slug)
  draws _ _ := ⟨0, ALPHABET_length_pos⟩

/-! What the checks make of such a row, on any runtime that leaves lower case as it is. -/

/-- Characters of a host as `normaliseBlockHost` leaves it. -/
def isPlain (host : List Char) : Bool :=
  host ≠ [] && host.map Char.toLower = host && host.all (!isJsSpace ·) && !(['.'].isSuffixOf host)

/-- The host is not the other one, nor under it. -/
def isApart (host other : List Char) : Bool := host ≠ other && !(('.' :: other).isSuffixOf host)

theorem normaliseBlockHost_of_isPlain {p : Platform} {host : String}
    (hlower : p.toLowerCase host = host) (h : isPlain host.toList = true) :
    normaliseBlockHost p host = host := by
  simp only [isPlain, Bool.and_eq_true, List.all_eq_true, Bool.not_eq_true'] at h
  obtain ⟨⟨-, hspace⟩, hdot⟩ := h
  have hundotted : endsWith host "." = false := by rw [endsWith, String.toList_ofList, hdot]
  rw [normaliseBlockHost, trim_of_not_space hspace, hlower, hundotted]
  rfl

theorem hostCoveredBy_of_isApart {p : Platform} {host other : String}
    (hhost : normaliseBlockHost p host = host) (hother : normaliseBlockHost p other = other)
    (h : isApart host.toList other.toList = true) : hostCoveredBy p host other = false := by
  simp only [isApart, Bool.and_eq_true, decide_eq_true_eq, Bool.not_eq_true'] at h
  have hne : host ≠ other := fun heq => h.1 (congrArg String.toList heq)
  have hends : endsWith host ("." ++ other) = false := by
    rw [endsWith, String.toList_append, String.toList_ofList]
    exact h.2
  simp [hostCoveredBy, hhost, hother, hne, hends]

/-- The hosts that a link to one of two others is compared with. -/
theorem sampleHosts_apart : (("snap.to" :: KNOWN_SHORTENER_HOSTS).map String.toList).all (fun host =>
    isPlain host && isApart ['e', 'x', 'a', 'm', 'p', 'l', 'e', '.', 'c', 'o', 'm'] host &&
      isApart ['a', '.', 'c', 'o', 'm'] host) = true := by
  rw [KNOWN_SHORTENER_HOSTS]
  simp only [List.map_cons, List.map_nil]
  repeat rw [String.toList_ofList]
  rfl

theorem matchRedirectChain_sample {p : Platform} {destination : String}
    (hlower : ∀ host, isPlain host.toList = true → p.toLowerCase host = host)
    (h : destinationHost p destination = "example.com" ∨ destinationHost p destination = "a.com") :
    matchRedirectChain p destination ["snap.to"] = none := by
  have hplain {host : String} (hhost : isPlain host.toList = true) :
      normaliseBlockHost p host = host :=
    normaliseBlockHost_of_isPlain (hlower host hhost) hhost
  have hclear : ∀ other ∈ "snap.to" :: KNOWN_SHORTENER_HOSTS,
      hostCoveredBy p (destinationHost p destination) other = false := by
    intro other hother
    have hall := List.all_eq_true.mp sampleHosts_apart _ (List.mem_map_of_mem hother)
    simp only [Bool.and_eq_true] at hall
    obtain ⟨⟨hotherPlain, hexample⟩, ha⟩ := hall
    rcases h with h | h <;> rw [h]
    · refine hostCoveredBy_of_isApart (hplain ?_) (hplain hotherPlain) ?_ <;>
        rw [String.toList_ofList]
      · rfl
      · exact hexample
    · refine hostCoveredBy_of_isApart (hplain ?_) (hplain hotherPlain) ?_ <;>
        rw [String.toList_ofList]
      · rfl
      · exact ha
  have hself : ["snap.to"].find? (hostCoveredBy p (destinationHost p destination)) = none := by
    rw [List.find?_eq_none]
    intro other hother
    rw [hclear other (List.mem_cons.mpr (Or.inl (List.mem_singleton.mp hother)))]
    simp
  have hshort : KNOWN_SHORTENER_HOSTS.find? (hostCoveredBy p (destinationHost p destination)) =
      none := by
    rw [List.find?_eq_none]
    intro other hother
    rw [hclear other (List.mem_cons_of_mem _ hother)]
    simp
  rw [matchRedirectChain, hself, hshort]
  split <;> rfl

theorem toLowerCase_sample (host : String) (h : isPlain host.toList = true) :
    sampleEnvironment.p.toLowerCase host = host := by
  simp only [isPlain, Bool.and_eq_true, decide_eq_true_eq] at h
  change String.ofList (host.toList.map Char.toLower) = host
  rw [h.1.1.2, String.ofList_toList]

theorem destinationHost_example {p : Platform}
    (hlower : ∀ host, isPlain host.toList = true → p.toLowerCase host = host)
    (hparse : p.parseUrl "https://example.com/" = some exampleUrl) :
    destinationHost p "https://example.com/" = "example.com" := by
  have hplain : isPlain "example.com".toList = true := by rw [String.toList_ofList]; rfl
  rw [destinationHost, hparse]
  exact normaliseBlockHost_of_isPlain (hlower _ hplain) hplain

/-- The row of such a request, as both paths see it. -/
def preparedFor (slug : String) : Prepared :=
  ⟨inputFor slug, "D1", fun _ _ => ⟨0, ALPHABET_length_pos⟩, 0, none, ⟨"clean", 0⟩⟩

theorem passes_inputFor {p : Platform} {slug : String}
    (hlower : ∀ host, isPlain host.toList = true → p.toLowerCase host = host)
    (hparse : p.parseUrl "https://example.com/" = some exampleUrl)
    (hshaped : isSlugAvailableShape slug = .ok ()) :
    Passes { sampleEnvironment with p := p } promoState (inputFor slug) where
  valid := rfl
  shaped _ := hshaped
  allowed := rfl
  notBlocked := by
    rw [matchBlockedDomain]
    split <;> rfl
  notChained := matchRedirectChain_sample hlower (Or.inl (destinationHost_example hlower hparse))
  notFlagged := by
    change "clean" ≠ "flagged"
    decide

theorem resolveDomain_sample : resolveDomain sampleEnvironment.p promoState "snap.to" =
    .ok ⟨"D1", "snap.to", none, true, "live"⟩ := by
  decide

theorem passes_sample {slug : String} (hshaped : isSlugAvailableShape slug = .ok ()) :
    Passes sampleEnvironment promoState (inputFor slug) :=
  passes_inputFor toLowerCase_sample rfl hshaped

theorem passing_requestFor {slug : String} (hshaped : isSlugAvailableShape slug = .ok ()) :
    passing sampleEnvironment promoState (requestFor slug) = some (preparedFor slug) := by
  have hdomain : resolveDomain sampleEnvironment.p promoState (inputFor slug).domain = _ :=
    resolveDomain_sample
  rw [passing, requestFor]
  simp only [hdomain, if_pos (passes_sample hshaped)]
  rfl

/-- A row that asks for a back-half nobody has contends for it. -/
theorem contend_cons_chosen {e : Environment} {s : State} {seen : List (String × String)}
    {row : Row} {rows : List Row} {p : Prepared} (hrow : passing e s row = some p)
    (hchosen : p.generated = false) (hseen : p.key ∉ seen) (hfree : s.taken p.key = false) :
    contend e s seen (row :: rows) = some p :: contend e s (p.key :: seen) rows := by
  rw [contend, hrow]
  simp [hchosen, hseen, hfree]

theorem isSlugAvailableShape_promo : isSlugAvailableShape "promo" = .ok () := by
  decide +kernel

/-- **A batch takes a back-half that the single path refuses.** -/
theorem bulk_takes_reserved :
    ¬ ∀ (e : Environment) (s : State) (rows : List Row),
      bulkStored e s rows = createEach e s rows := by
  intro h
  have hsame := congrArg (List.map Option.isSome)
    (h sampleEnvironment promoState [requestFor "promo"])
  have hrow := passing_requestFor isSlugAvailableShape_promo
  have hbulk : (bulkStored sampleEnvironment promoState [requestFor "promo"]).map Option.isSome =
      [true] := by
    have hcontend : contend sampleEnvironment promoState [] [requestFor "promo"] =
        [some (preparedFor "promo")] :=
      contend_cons_chosen hrow (by decide) List.not_mem_nil rfl
    rw [bulkStored_eq, contenders, hcontend, if_pos (by decide)]
    rfl
  have heach : (createEach sampleEnvironment promoState [requestFor "promo"]).map Option.isSome =
      [false] := by
    rw [createEach_cons_of_not_ok]
    · rfl
    intro link hlink
    obtain ⟨p, hp, -, hacceptable, -⟩ := createRow_eq_ok_iff.mp hlink
    obtain rfl := Option.some.inj (hrow.symm.trans hp)
    have hunreserved := hacceptable.unreserved (by decide)
    exact absurd hunreserved (by decide)
  rw [hbulk, heach] at hsame
  exact absurd hsame (by decide)

end SnapUrl.Links.Creation
