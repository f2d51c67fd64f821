import Mathlib.Data.Fin.VecNotation
import SnapUrl.Lib.Run
import SnapUrl.Links.BulkAgreement

/-!
# Back-halves nobody chose

Without a back-half, `create`, `clone` and `bulkCreate` draw one.  They draw again while the
database has it already, and look at nothing else.

* `step`: any number of requests on one table.  An attempt of `insert`, a pass of
  `bulkCreate` and its transaction are a step each.
* `admits_generateSlug`: what `isSlugAvailableShape` and the operator's list have against a
  drawn back-half.
* `admitted_iff_guarded`: **every link of every state has a back-half a user could have
  chosen exactly when no step stores a drawn one that begins with one of three words or that
  an operator reserved.**
-/

namespace SnapUrl.Links.GeneratedSlugs

open Lib Creation

/-! ### Requests on a table -/

/-- What the table keeps of a link here, and whether the back-half was drawn. -/
structure Entry where
  domainId : String
  slug : String
  generated : Bool
deriving DecidableEq, Repr

def Entry.key (entry : Entry) : String × String := (entry.domainId, asciiLower entry.slug)

inductive Call where
  /-- `insert` of `create` and `clone`, with the attempts that are left. -/
  | attempting (p : Prepared) (left : Nat)
  /-- The loop of `bulkCreate`, with the passes that are left. -/
  | redrawing (rows : List RowState) (left : Nat)
  /-- `bulkCreate` in front of its transaction. -/
  | inserting (rows : List RowState)
  | over

structure State where
  links : List Entry
  calls : List Call

inductive Action where
  /-- `create` or `clone` gets to its first attempt. -/
  | inserts (p : Prepared)
  /-- `bulkCreate` gets to its first pass. -/
  | bulkCreates (rows : List RowState)
  /-- The next step of the `i`th request. -/
  | advances (i : Nat)

def start : State := ⟨[], []⟩

def State.taken (s : State) (key : String × String) : Bool := key ∈ s.links.map Entry.key

def entryOf (p : Prepared) : Entry := ⟨p.domainId, p.slug, p.generated⟩

/-- The rows that a step of a request stores. -/
def Call.stores (taken : String × String → Bool) : Call → List Prepared
  | .attempting p left => if left = 0 ∨ taken p.key then [] else [p]
  | .inserting rows =>
    let toInsert := (rows.map (·.prepared)).reduceOption
    if (toInsert.all fun p => !taken p.key) ∧ (toInsert.map (·.key)).Nodup then toInsert else []
  | _ => []

/-- The request after the step. -/
def Call.next (taken : String × String → Bool) : Call → Call
  | .attempting _ 0 => .over
  | .attempting p (left + 1) =>
    if taken p.key ∧ p.generated then .attempting p.redraw left else .over
  | .redrawing rows 0 => .inserting rows
  | .redrawing rows (left + 1) =>
    if !rows.any (·.isTaken taken) then .inserting rows
    else if rows.any (·.redraws taken) then .redrawing (rows.map (·.pass taken)) left
    else .inserting (rows.map (·.pass taken))
  | .inserting _ => .over
  | .over => .over

def State.begins (s : State) (call : Call) : State := { s with calls := s.calls ++ [call] }

/-- The rows an action stores. -/
def State.stores (s : State) : Action → List Prepared
  | .advances i => s.calls[i]?.elim [] (·.stores s.taken)
  | _ => []

def next (s : State) : Action → State
  | .inserts p => s.begins (.attempting p p.tries)
  | .bulkCreates rows => s.begins (.redrawing rows SLUG_RETRY_LIMIT)
  | .advances i =>
    ⟨s.links ++ (s.stores (.advances i)).map entryOf, s.calls.modify i (·.next s.taken)⟩

def step (s : State) (a : Action) : Option State := some (next s a)

/-! ### What is claimed of it -/

section

variable (platform : Platform) (reservedSlugs : List String)

/-- A user can choose the back-half. -/
def Admits (slug : String) : Prop :=
  isSlugAvailableShape slug = .ok () ∧ isRuntimeReserved platform reservedSlugs slug = false

/-- **Every drawn back-half of the table is one a user can choose.** -/
def Admitted (s : State) : Prop :=
  ∀ entry ∈ s.links, entry.generated = true → Admits platform reservedSlugs entry.slug

/-- A drawn back-half that begins with none of the three words, and that no operator
reserved. -/
def Decent (slug : String) : Prop :=
  beginsWith spelledProfane slug = false ∧ isRuntimeReserved platform reservedSlugs slug = false

/-- **The condition on a step**: what it stores of its draws is decent. -/
def StoresDecent (s : State) (a : Action) : Prop :=
  ∀ p ∈ s.stores a, p.generated = true → Decent platform reservedSlugs p.slug

end

section

variable {platform : Platform} {reservedSlugs : List String} {s : State} {a : Action}

/-! ### A step -/

theorem slug_generated {p : Prepared} (h : p.generated = true) :
    p.slug = generateSlug (p.draws p.attempt) := by
  have hslug : truthy p.input.slug = false := by simpa [Prepared.generated] using h
  rw [Prepared.slug, hslug, if_neg Bool.false_ne_true]

/-- **What a user could not have chosen of the drawn back-halves.** -/
theorem admits_iff_decent {p : Prepared} (h : p.generated = true) :
    Admits platform reservedSlugs p.slug ↔ Decent platform reservedSlugs p.slug := by
  rw [Admits, Decent, slug_generated h, isSlugAvailableShape_generateSlug]

theorem links_next (s : State) (a : Action) :
    (next s a).links = s.links ++ (s.stores a).map entryOf := by
  cases a with
  | inserts p => exact (List.append_nil _).symm
  | bulkCreates rows => exact (List.append_nil _).symm
  | advances i => rfl

/-- **A step keeps the table admitted exactly when what it stores is decent.** -/
theorem admitted_next_iff (h : Admitted platform reservedSlugs s) :
    Admitted platform reservedSlugs (next s a) ↔ StoresDecent platform reservedSlugs s a := by
  rw [Admitted, links_next, List.forall_mem_append, List.forall_mem_map]
  constructor
  · rintro ⟨-, hstored⟩ p hp hgenerated
    exact (admits_iff_decent hgenerated).mp (hstored p hp hgenerated)
  · intro hdecent
    refine ⟨h, fun p hp hgenerated => ?_⟩
    exact (admits_iff_decent hgenerated).mpr (hdecent p hp hgenerated)

end

/-! ### A request on its own -/

/-- The steps of `bulkCreate` on a table that stays as it is are its loop. -/
theorem exists_iterate_redrawing (taken : String × String → Bool) (n : Nat) (rows : List RowState) :
    ∃ k, (Call.next taken)^[k] (.redrawing rows n) = .inserting (passes taken n rows) := by
  induction n generalizing rows with
  | zero => exact ⟨1, rfl⟩
  | succ n ih =>
    rw [passes]
    split
    · rename_i hnone
      exact ⟨1, by rw [Function.iterate_one, Call.next, if_pos hnone]⟩
    rename_i hsome
    split
    · rename_i hredraws
      obtain ⟨k, hk⟩ := ih (rows.map (·.pass taken))
      exact ⟨k + 1, by
        rw [Function.iterate_succ_apply, Call.next, if_neg hsome, if_pos hredraws, hk]⟩
    · rename_i hstop
      exact ⟨1, by rw [Function.iterate_one, Call.next, if_neg hsome, if_neg hstop]⟩

/-! ### The result -/

/-- **Every state of a run is admitted exactly when every step of it stores decent draws**,
whatever is drawn and however the requests interleave. -/
theorem admitted_iff_guarded (platform : Platform) (reservedSlugs : List String)
    (as : List Action) :
    (∀ pre post s, as = pre ++ post → run step start pre = some s →
        Admitted platform reservedSlugs s) ↔
      Guarded step (StoresDecent platform reservedSlugs) start as := by
  refine (guarded_iff_holds_throughout (fun _ _ => rfl) (fun s a s' hs hstep => ?_) ?_).symm
  · rw [← Option.some.inj hstep]
    exact admitted_next_iff hs
  · exact fun entry hentry => absurd hentry List.not_mem_nil

/-! ### A draw that nobody could have chosen -/

/-- The indices of `fuck234`. -/
def rudeDraw : Draw :=
  ![⟨13, by decide⟩, ⟨25, by decide⟩, ⟨10, by decide⟩, ⟨17, by decide⟩, ⟨0, by decide⟩,
    ⟨1, by decide⟩, ⟨2, by decide⟩]

/-- A link without a back-half. -/
def drawnLink : Prepared where
  input := inputFor ""
  domainId := "D1"
  draws _ := rudeDraw
  attempt := 0
  passwordHash := none
  scan := ⟨"clean", 0⟩

/-- **A profane back-half is drawn and stored**, which no user may choose. -/
theorem draw_is_profane :
    ¬ ∀ (platform : Platform) (reservedSlugs : List String) (as : List Action) (s : State),
      run step start as = some s → Admitted platform reservedSlugs s := by
  intro h
  have hadmitted := h sampleEnvironment.p [] [.inserts drawnLink, .advances 0]
    (next (next start (.inserts drawnLink)) (.advances 0)) rfl
  have hlinks : (next (next start (.inserts drawnLink)) (.advances 0)).links =
      [⟨"D1", "fuck234", true⟩] := by decide +kernel
  rw [Admitted, hlinks] at hadmitted
  have hshape := (hadmitted _ (List.mem_singleton_self _) rfl).1
  exact absurd hshape (by decide +kernel)

end SnapUrl.Links.GeneratedSlugs
