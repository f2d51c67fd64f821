import Mathlib.Logic.Function.Basic
import SnapUrl.Lib.Run
import SnapUrl.Redirect.Gate

/-!
# Cached copies of a link that was taken down

`CachingLinkResolver.resolve` of `apps/redirect/src/caching-resolver.ts` against
`LinkCacheBustService.bust` of `apps/api/src/common/link-cache-bust.service.ts`, on a `CacheStore`
that the redirect and the API share.

* `State`, `act`: the table, the cache, the visits and the takedowns, one step at a time.
* `NoStale`: no copy in the cache is older than a takedown whose deletion of the key is over.
* `Fresh`: no visit that began after a bust had returned got an older copy.
* `prompt_iff`: both hold all along **exactly when no copy is stored, and none survives a deletion
  that failed, that is older than such a takedown**.
-/

namespace SnapUrl.Redirect.CacheBust

open Lib

/-! ### The store -/

/-- The key of a link, for the redirect and for the API alike. -/
def linkCacheKey (p : Platform) (host slug : String) : String :=
  "link:" ++ trim (p.toLowerCase host) ++ "|" ++ p.toLowerCase slug

/-- A copy of a link in the cache. -/
structure Entry where
  link : ResolvedLink
  /-- How many takedowns had been committed under the key when the link was read. -/
  readAt : Nat
  /-- In seconds. -/
  expiresAt : Nat

/-- What takes a link down. -/
inductive Takedown where
  | remove
  | disable
  | flag
deriving DecidableEq

/-- The row afterwards. -/
def Takedown.apply : Takedown → Option ResolvedLink → Option ResolvedLink
  | .remove, _ => none
  | .disable, link => link.map fun link => { link with disabled := true }
  | .flag, link => link.map fun link => { link with safeBrowsingStatus := "flagged" }

/-! ### Visits and takedowns -/

/-- Where a call of `resolve` is. -/
inductive Phase where
  | started
  | missed
  /-- It has read a link. -/
  | loaded (link : ResolvedLink) (readAt : Nat)
  /-- It has answered; from a copy when `cachedAt` says since when. -/
  | answered (link : Option ResolvedLink) (cachedAt : Option Nat)
  | failed

/-- When a visit that has read a link read it. -/
def Phase.readAt : Phase → Option Nat
  | .loaded _ readAt => some readAt
  | _ => none

structure Visit where
  key : String
  /-- The takedowns under the key whose bust had returned when it began. -/
  after : List Nat
  phase : Phase

/-- Where a takedown is, once it is committed. -/
inductive Progress where
  | committed
  /-- The deletion of the key is over, whether or not it failed. -/
  | cleared
  /-- `bust` has returned. -/
  | returned
deriving DecidableEq

structure Change where
  key : String
  /-- Its number among the takedowns under the key. -/
  version : Nat
  progress : Progress
deriving DecidableEq

structure State where
  now : Nat
  links : String → Option ResolvedLink
  /-- How many takedowns were committed under a key. -/
  commits : String → Nat
  cache : String → Option Entry
  visits : List Visit
  changes : List Change

/-- What happens next. -/
inductive Action where
  | tick
  /-- A write that is no takedown: a link is created or edited there. -/
  | write (host slug : String) (link : ResolvedLink)
  | takedown (host slug : String) (takedown : Takedown)
  /-- The `del` of a bust. -/
  | delete (i : Nat)
  /-- It fails, which is logged and no more. -/
  | deleteFails (i : Nat)
  | bustReturns (i : Nat)
  /-- The listener, or the store by itself, drops an entry. -/
  | evict (host slug : String)
  | visit (host slug : String)
  | lookUp (i : Nat)
  /-- The inner resolver reads the link. -/
  | read (i : Nat)
  | fill (i : Nat)
  | fail (i : Nat)

/-- The entry that `get` finds. -/
def State.live (s : State) (key : String) : Option Entry :=
  (s.cache key).filter fun entry => s.now < entry.expiresAt

def State.setVisit (s : State) (i : Nat) (visit : Visit) (phase : Phase) : State :=
  { s with visits := s.visits.set i { visit with phase := phase } }

def State.setChange (s : State) (i : Nat) (change : Change) (progress : Progress) : State :=
  { s with changes := s.changes.set i { change with progress := progress } }

/-- The takedowns under a key whose bust has returned. -/
def State.busted (s : State) (key : String) : List Nat :=
  (s.changes.filter fun change => change.key = key ∧ change.progress = .returned).map (·.version)

/-- `cache.get`. -/
def State.lookUp (s : State) (i : Nat) (visit : Visit) : State :=
  match s.live visit.key with
  | some entry => s.setVisit i visit (.answered (some entry.link) (some entry.readAt))
  | none => s.setVisit i visit .missed

/-- `inner.resolve`: a miss is answered at once. -/
def State.read (s : State) (i : Nat) (visit : Visit) : State :=
  match s.links visit.key with
  | some link => s.setVisit i visit (.loaded link (s.commits visit.key))
  | none => s.setVisit i visit (.answered none none)

/-- `cache.set`. -/
def State.fill (ttlSeconds : Nat) (s : State) (i : Nat) (visit : Visit) (link : ResolvedLink)
    (readAt : Nat) : State :=
  { s.setVisit i visit (.answered (some link) none) with
    cache := Function.update s.cache visit.key (some ⟨link, readAt, s.now + ttlSeconds⟩) }

/-- What an action does; one whose turn it is not does nothing. -/
def act (p : Platform) (ttlSeconds : Nat) (s : State) : Action → State
  | .tick => { s with now := s.now + 1 }
  | .write host slug link =>
    { s with links := Function.update s.links (linkCacheKey p host slug) (some link) }
  | .takedown host slug takedown =>
    let key := linkCacheKey p host slug
    { s with
      links := Function.update s.links key (takedown.apply (s.links key))
      commits := Function.update s.commits key (s.commits key + 1)
      changes := s.changes ++ [⟨key, s.commits key + 1, .committed⟩] }
  | .delete i =>
    match s.changes[i]? with
    | some change =>
      if change.progress = .committed then
        { s.setChange i change .cleared with cache := Function.update s.cache change.key none }
      else s
    | none => s
  | .deleteFails i =>
    match s.changes[i]? with
    | some change => if change.progress = .committed then s.setChange i change .cleared else s
    | none => s
  | .bustReturns i =>
    match s.changes[i]? with
    | some change => if change.progress = .cleared then s.setChange i change .returned else s
    | none => s
  | .evict host slug => { s with cache := Function.update s.cache (linkCacheKey p host slug) none }
  | .visit host slug =>
    let key := linkCacheKey p host slug
    { s with visits := s.visits ++ [⟨key, s.busted key, .started⟩] }
  | .lookUp i =>
    match s.visits[i]? with
    | some visit =>
      match visit.phase with
      | .started => s.lookUp i visit
      | _ => s
    | none => s
  | .read i =>
    match s.visits[i]? with
    | some visit =>
      match visit.phase with
      | .missed => s.read i visit
      | _ => s
    | none => s
  | .fill i =>
    match s.visits[i]? with
    | some visit =>
      match visit.phase with
      | .loaded link readAt => s.fill ttlSeconds i visit link readAt
      | _ => s
    | none => s
  | .fail i =>
    match s.visits[i]? with
    | some visit =>
      match visit.phase with
      | .answered _ _ => s
      | _ => s.setVisit i visit .failed
    | none => s

def step (p : Platform) (ttlSeconds : Nat) (s : State) (a : Action) : Option State :=
  some (act p ttlSeconds s a)

/-- Nobody has come yet; the links are what they are. -/
def State.initial (links : String → Option ResolvedLink) : State :=
  ⟨0, links, fun _ => 0, fun _ => none, [], []⟩

/-! ### What is asked -/

/-- No takedown under the key whose deletion is over came after a copy of this age. -/
def State.Allows (s : State) (key : String) (readAt : Nat) : Prop :=
  ∀ change ∈ s.changes, change.key = key → change.progress ≠ .committed → change.version ≤ readAt

instance (s : State) (key : String) (readAt : Nat) : Decidable (s.Allows key readAt) :=
  inferInstanceAs (Decidable (∀ change ∈ s.changes, _))

/-- No copy that `get` finds was read before a takedown whose deletion is over. -/
def NoStale (s : State) : Prop :=
  ∀ key entry, s.live key = some entry → s.Allows key entry.readAt

/-- **No visit that began after a bust had returned was answered from a copy that was read
before the takedown was committed.** -/
def Fresh (s : State) : Prop :=
  ∀ visit ∈ s.visits, ∀ link readAt, visit.phase = .answered link (some readAt) →
    ∀ version ∈ visit.after, version ≤ readAt

structure Prompt (s : State) : Prop where
  noStale : NoStale s
  fresh : Fresh s

/-- **What a step needs**: a copy that is stored for some time was not read before a takedown
whose deletion is over, and a deletion that fails leaves no copy that was read before its own. -/
def KeepsPrompt (ttlSeconds : Nat) (s : State) : Action → Prop
  | .fill i => ∀ visit ∈ s.visits[i]?, ∀ readAt ∈ visit.phase.readAt, 0 < ttlSeconds →
      s.Allows visit.key readAt
  | .deleteFails i => ∀ change ∈ s.changes[i]?, change.progress = .committed →
      ∀ entry ∈ s.live change.key, change.version ≤ entry.readAt
  | _ => True

instance (ttlSeconds : Nat) (s : State) : ∀ a, Decidable (KeepsPrompt ttlSeconds s a)
  | .fill i => inferInstanceAs (Decidable (∀ visit ∈ s.visits[i]?, _))
  | .deleteFails i => inferInstanceAs (Decidable (∀ change ∈ s.changes[i]?, _))
  | .tick => isTrue trivial
  | .write _ _ _ => isTrue trivial
  | .takedown _ _ _ => isTrue trivial
  | .delete _ => isTrue trivial
  | .bustReturns _ => isTrue trivial
  | .evict _ _ => isTrue trivial
  | .visit _ _ => isTrue trivial
  | .lookUp _ => isTrue trivial
  | .read _ => isTrue trivial
  | .fail _ => isTrue trivial

/-! ### What every step keeps -/

/-- The deletions that are over in one state are over in another. -/
def ClearedIn (s s' : State) : Prop :=
  ∀ change ∈ s.changes, change.progress ≠ .committed → ∃ change' ∈ s'.changes,
    change'.key = change.key ∧ change'.version = change.version ∧ change'.progress ≠ .committed

/-- What a visit remembers has happened. -/
def Known (s : State) : Prop :=
  ∀ visit ∈ s.visits, ∀ version ∈ visit.after, ∃ change ∈ s.changes,
    change.key = visit.key ∧ change.version = version ∧ change.progress ≠ .committed

section

variable {p : Platform} {ttlSeconds : Nat} {s s' : State}

theorem ClearedIn.refl (s : State) : ClearedIn s s :=
  fun change hmem hcleared => ⟨change, hmem, rfl, rfl, hcleared⟩

/-- A takedown that goes on. -/
theorem clearedIn_setChange {i : Nat} {change : Change} {progress : Progress}
    (hchange : s.changes[i]? = some change) (hprogress : progress ≠ .committed) :
    ClearedIn s (s.setChange i change progress) := by
  intro other hmem hcleared
  obtain ⟨j, hj⟩ := List.mem_iff_getElem?.mp hmem
  by_cases hij : i = j
  · subst hij
    obtain rfl := Option.some.inj (hchange.symm.trans hj)
    refine ⟨{ change with progress := progress }, ?_, rfl, rfl, hprogress⟩
    exact List.mem_of_getElem? (i := i)
      (by rw [State.setChange, List.getElem?_set_self (List.getElem?_eq_some_iff.mp hj).1])
  · refine ⟨other, ?_, rfl, rfl, hcleared⟩
    exact List.mem_of_getElem? (i := j) (by rw [State.setChange, List.getElem?_set_ne hij, hj])

/-- A takedown whose deletion was over already adds nothing to what is over. -/
theorem cleared_of_mem_setChange {i : Nat} {change other : Change} {progress : Progress}
    (hmem : other ∈ (s.setChange i change progress).changes) :
    other ∈ s.changes ∨ other = { change with progress := progress } :=
  List.mem_or_eq_of_mem_set hmem

theorem Known.of_visits (h : Known s) (hcleared : ClearedIn s s')
    (hvisits : ∀ visit' ∈ s'.visits, ∃ visit ∈ s.visits,
      visit'.key = visit.key ∧ visit'.after = visit.after) : Known s' := by
  intro visit' hmem version hversion
  obtain ⟨visit, hvisit, hkey, hafter⟩ := hvisits visit' hmem
  obtain ⟨change, hchange, hkey', rfl, hover⟩ := h visit hvisit version (hafter ▸ hversion)
  obtain ⟨change', hchange', hsame, hversion', hover'⟩ := hcleared change hchange hover
  exact ⟨change', hchange', by rw [hsame, hkey', hkey], hversion', hover'⟩

theorem Known.setVisit (h : Known s) {i : Nat} {visit : Visit} (hvisit : s.visits[i]? = some visit)
    (phase : Phase) : Known (s.setVisit i visit phase) := by
  refine h.of_visits (ClearedIn.refl s) fun visit' hmem => ?_
  rcases List.mem_or_eq_of_mem_set hmem with hold | rfl
  · exact ⟨visit', hold, rfl, rfl⟩
  · exact ⟨visit, List.mem_of_getElem? hvisit, rfl, rfl⟩

theorem Known.same (h : Known s) (hchanges : s'.changes = s.changes)
    (hvisits : s'.visits = s.visits) : Known s' := by
  refine h.of_visits ?_ fun visit' hmem => ⟨visit', hvisits ▸ hmem, rfl, rfl⟩
  intro change hmem hcleared
  exact ⟨change, hchanges ▸ hmem, rfl, rfl, hcleared⟩

theorem Known.setChange (h : Known s) {i : Nat} {change : Change} {progress : Progress}
    (hchange : s.changes[i]? = some change) (hprogress : progress ≠ .committed) :
    Known (s.setChange i change progress) :=
  h.of_visits (clearedIn_setChange hchange hprogress) fun visit hmem => ⟨visit, hmem, rfl, rfl⟩

/-- The takedowns that a new visit remembers. -/
theorem mem_busted {key : String} {version : Nat} (h : version ∈ s.busted key) :
    ∃ change ∈ s.changes, change.key = key ∧ change.version = version ∧
      change.progress ≠ .committed := by
  obtain ⟨change, hmem, rfl⟩ := List.mem_map.mp h
  obtain ⟨hmem, hboth⟩ := List.mem_filter.mp hmem
  obtain ⟨hkey, hreturned⟩ := of_decide_eq_true hboth
  exact ⟨change, hmem, hkey, rfl, by rw [hreturned]; nofun⟩

theorem known_act (h : Known s) (a : Action) : Known (act p ttlSeconds s a) := by
  cases a with
  | tick => exact h
  | write host slug link => exact h
  | evict host slug => exact h
  | takedown host slug takedown =>
    refine h.of_visits (fun change hmem hcleared => ?_) fun visit hmem => ⟨visit, hmem, rfl, rfl⟩
    exact ⟨change, List.mem_append_left _ hmem, rfl, rfl, hcleared⟩
  | visit host slug =>
    intro visit hmem version hversion
    rcases List.mem_append.mp hmem with hold | hnew
    · exact h visit hold version hversion
    · obtain rfl := List.mem_singleton.mp hnew
      exact mem_busted hversion
  | delete i =>
    rw [act]
    split
    · rename_i change hchange
      split
      · exact (h.setChange hchange (show Progress.cleared ≠ .committed by decide)).same rfl rfl
      · exact h
    · exact h
  | deleteFails i =>
    rw [act]
    split
    · rename_i change hchange
      split
      · exact h.setChange hchange nofun
      · exact h
    · exact h
  | bustReturns i =>
    rw [act]
    split
    · rename_i change hchange
      split
      · exact h.setChange hchange nofun
      · exact h
    · exact h
  | lookUp i =>
    rw [act]
    split
    · rename_i visit hvisit
      split
      · rw [State.lookUp]
        split
        · exact h.setVisit hvisit _
        · exact h.setVisit hvisit _
      · exact h
    · exact h
  | read i =>
    rw [act]
    split
    · rename_i visit hvisit
      split
      · rw [State.read]
        split
        · exact h.setVisit hvisit _
        · exact h.setVisit hvisit _
      · exact h
    · exact h
  | fill i =>
    rw [act]
    split
    · rename_i visit hvisit
      split
      · exact (h.setVisit hvisit _).same rfl rfl
      · exact h
    · exact h
  | fail i =>
    rw [act]
    split
    · rename_i visit hvisit
      split
      · exact h
      · exact h.setVisit hvisit _
    · exact h

/-! ### The copies -/

/-- Fewer copies, and no other deletion over. -/
theorem NoStale.mono (h : NoStale s)
    (hlive : ∀ key entry, s'.live key = some entry → s.live key = some entry)
    (hcleared : ClearedIn s' s) : NoStale s' := by
  intro key entry hentry change hchange hkey hover
  obtain ⟨change', hchange', hkey', hversion, hover'⟩ := hcleared change hchange hover
  rw [← hversion]
  exact h key entry (hlive key entry hentry) change' hchange' (hkey'.trans hkey) hover'

theorem NoStale.same (h : NoStale s) (hlive : s'.live = s.live) (hchanges : s'.changes = s.changes) :
    NoStale s' := by
  refine h.mono (fun key entry hentry => hlive ▸ hentry) fun change hmem hover => ?_
  exact ⟨change, hchanges ▸ hmem, rfl, rfl, hover⟩

/-- What is under a key once another is put there. -/
theorem live_update {cache : String → Option Entry} {key key' : String} {new : Option Entry} :
    ({ s with cache := Function.update cache key new } : State).live key' =
      if key' = key then new.filter fun entry => s.now < entry.expiresAt
      else ({ s with cache := cache } : State).live key' := by
  rw [State.live]
  dsimp only
  rw [Function.update_apply]
  split <;> rfl

/-- A copy that is dropped. -/
theorem live_drop {key key' : String} {entry : Entry}
    (h : ({ s with cache := Function.update s.cache key none } : State).live key' = some entry) :
    key' ≠ key ∧ s.live key' = some entry := by
  rw [live_update] at h
  split at h
  · exact absurd h nofun
  · rename_i hkey
    exact ⟨hkey, h⟩

/-- Time only takes copies away. -/
theorem live_tick {key : String} {entry : Entry}
    (h : ({ s with now := s.now + 1 } : State).live key = some entry) :
    s.live key = some entry := by
  obtain ⟨hentry, hlive⟩ := Option.filter_eq_some_iff.mp h
  refine Option.filter_eq_some_iff.mpr ⟨hentry, decide_eq_true ?_⟩
  have hlater : s.now + 1 < entry.expiresAt := of_decide_eq_true hlive
  omega

/-- A takedown whose deletion is over goes on. -/
theorem NoStale.returned (h : NoStale s) {i : Nat} {change : Change}
    (hchange : s.changes[i]? = some change) (hover : change.progress = .cleared) :
    NoStale (s.setChange i change .returned) := by
  refine h.mono (fun key entry hentry => hentry) fun other hmem hother => ?_
  rcases cleared_of_mem_setChange hmem with hold | rfl
  · exact ⟨other, hold, rfl, rfl, hother⟩
  · exact ⟨change, List.mem_of_getElem? hchange, rfl, rfl, by rw [hover]; nofun⟩

/-- **A deletion that fails** keeps the copies well exactly when the one that it leaves is. -/
theorem noStale_deleteFails (h : NoStale s) {i : Nat} {change : Change}
    (hchange : s.changes[i]? = some change) :
    NoStale (s.setChange i change .cleared) ↔
      ∀ entry ∈ s.live change.key, change.version ≤ entry.readAt := by
  have hi := (List.getElem?_eq_some_iff.mp hchange).1
  constructor
  · intro hnew entry hentry
    have hmem : { change with progress := Progress.cleared } ∈
        (s.setChange i change .cleared).changes :=
      List.mem_of_getElem? (i := i) (by rw [State.setChange, List.getElem?_set_self hi])
    exact hnew change.key entry hentry { change with progress := .cleared } hmem rfl (by simp)
  · intro hleft key entry hentry other hmem hkey hover
    rcases cleared_of_mem_setChange hmem with hold | rfl
    · exact h key entry hentry other hold hkey hover
    · obtain rfl : change.key = key := hkey
      exact hleft entry hentry

/-- **A deletion** keeps the copies well. -/
theorem noStale_delete (h : NoStale s) {i : Nat} {change : Change} :
    NoStale { s.setChange i change .cleared with
      cache := Function.update s.cache change.key none } := by
  intro key entry hentry other hmem hkey hover
  obtain ⟨hne, hentry⟩ := live_drop (s := s.setChange i change .cleared) hentry
  rcases cleared_of_mem_setChange hmem with hold | rfl
  · exact h key entry hentry other hold hkey hover
  · exact absurd hkey.symm hne

/-- **A fill** keeps the copies well exactly when what it stores is found by nobody or may be. -/
theorem noStale_fill (h : NoStale s) (i : Nat) (visit : Visit) (link : ResolvedLink)
    (readAt : Nat) :
    NoStale (s.fill ttlSeconds i visit link readAt) ↔
      (0 < ttlSeconds → s.Allows visit.key readAt) := by
  have hlive : ∀ key, (s.fill ttlSeconds i visit link readAt).live key =
      if key = visit.key then
        (some ⟨link, readAt, s.now + ttlSeconds⟩ : Option Entry).filter
          fun entry => s.now < entry.expiresAt
      else s.live key := by
    intro key
    rw [State.fill, live_update]
    rfl
  constructor
  · intro hnew httl
    refine hnew visit.key ⟨link, readAt, s.now + ttlSeconds⟩ ?_
    rw [hlive, if_pos rfl]
    exact Option.filter_eq_some_iff.mpr ⟨rfl, decide_eq_true (by dsimp only; omega)⟩
  · intro hallows key entry hentry
    rw [hlive] at hentry
    split at hentry
    · rename_i hkey
      obtain ⟨hsome, hnow⟩ := Option.filter_eq_some_iff.mp hentry
      obtain rfl := Option.some.inj hsome
      have httl : s.now < s.now + ttlSeconds := of_decide_eq_true hnow
      rw [hkey]
      exact hallows (by omega)
    · exact h key entry hentry

/-! ### The answers -/

theorem Fresh.setVisit (h : Fresh s) {i : Nat} {visit : Visit} {phase : Phase}
    (hphase : ∀ link readAt, phase = .answered link (some readAt) →
      ∀ version ∈ visit.after, version ≤ readAt) : Fresh (s.setVisit i visit phase) := by
  intro visit' hmem link readAt hanswered version hversion
  rcases List.mem_or_eq_of_mem_set hmem with hold | rfl
  · exact h visit' hold link readAt hanswered version hversion
  · exact hphase link readAt hanswered version hversion

/-- **A copy that is well answers a visit as it should.** -/
theorem fresh_lookUp (hknown : Known s) (h : Prompt s) {i : Nat} {visit : Visit}
    (hvisit : s.visits[i]? = some visit) : Fresh (s.lookUp i visit) := by
  rw [State.lookUp]
  split
  · rename_i entry hentry
    refine h.fresh.setVisit fun link readAt hanswered version hversion => ?_
    obtain ⟨change, hchange, hkey, rfl, hover⟩ :=
      hknown visit (List.mem_of_getElem? hvisit) version hversion
    obtain ⟨-, hreadAt⟩ := Phase.answered.inj hanswered
    rw [← Option.some.inj hreadAt]
    exact h.noStale visit.key entry hentry change hchange hkey hover
  · refine h.fresh.setVisit fun link readAt hanswered => ?_
    simp at hanswered

theorem Fresh.sameVisits (h : Fresh s) (hvisits : s'.visits = s.visits) : Fresh s' :=
  fun visit hmem => h visit (hvisits ▸ hmem)

/-- A visit that goes on without a copy. -/
theorem Prompt.setVisit (h : Prompt s) {i : Nat} {visit : Visit} {phase : Phase}
    (hphase : ∀ link readAt, phase ≠ .answered link (some readAt)) :
    Prompt (s.setVisit i visit phase) :=
  ⟨h.noStale.same rfl rfl,
    h.fresh.setVisit fun link readAt hanswered => absurd hanswered (hphase link readAt)⟩

/-- **A step keeps both exactly when it meets what it needs.** -/
theorem prompt_act (hknown : Known s) (h : Prompt s) (a : Action) :
    Prompt (act p ttlSeconds s a) ↔ KeepsPrompt ttlSeconds s a := by
  cases a with
  | tick =>
    refine iff_of_true ⟨h.noStale.mono (fun _ _ => live_tick) (ClearedIn.refl _), ?_⟩ trivial
    exact h.fresh.sameVisits rfl
  | write host slug link => exact iff_of_true ⟨h.noStale.same rfl rfl, h.fresh⟩ trivial
  | takedown host slug takedown =>
    refine iff_of_true ⟨h.noStale.mono (fun _ _ hentry => hentry) ?_, h.fresh⟩ trivial
    intro change hmem hover
    rcases List.mem_append.mp hmem with hold | hnew
    · exact ⟨change, hold, rfl, rfl, hover⟩
    · exact absurd (List.mem_singleton.mp hnew ▸ rfl) hover
  | evict host slug =>
    refine iff_of_true ⟨h.noStale.mono ?_ (ClearedIn.refl _), h.fresh⟩ trivial
    exact fun key entry hentry => (live_drop hentry).2
  | visit host slug =>
    refine iff_of_true ⟨h.noStale.same rfl rfl, ?_⟩ trivial
    intro visit hmem link readAt hanswered
    rcases List.mem_append.mp hmem with hold | hnew
    · exact h.fresh visit hold link readAt hanswered
    · obtain rfl := List.mem_singleton.mp hnew
      simp at hanswered
  | delete i =>
    refine iff_of_true ?_ trivial
    rw [act]
    split
    · split
      · exact ⟨noStale_delete h.noStale, h.fresh.sameVisits rfl⟩
      · exact h
    · exact h
  | deleteFails i =>
    cases hchange : s.changes[i]? with
    | none => exact iff_of_true (by simpa [act, hchange] using h) (by simp [KeepsPrompt, hchange])
    | some change =>
      simp only [act, hchange, KeepsPrompt, Option.mem_some_iff, forall_eq']
      split
      · rename_i hcommitted
        rw [← noStale_deleteFails h.noStale hchange]
        exact ⟨fun h' _ => h'.noStale, fun h' => ⟨h' hcommitted, h.fresh.sameVisits rfl⟩⟩
      · rename_i hcommitted
        exact iff_of_true h fun hcommitted' => absurd hcommitted' hcommitted
  | bustReturns i =>
    refine iff_of_true ?_ trivial
    rw [act]
    split
    · rename_i change hchange
      split
      · rename_i hover
        exact ⟨h.noStale.returned hchange hover, h.fresh.sameVisits rfl⟩
      · exact h
    · exact h
  | lookUp i =>
    refine iff_of_true ?_ trivial
    rw [act]
    split
    · rename_i visit hvisit
      split
      · refine ⟨?_, fresh_lookUp hknown h hvisit⟩
        rw [State.lookUp]
        split
        · exact h.noStale.same rfl rfl
        · exact h.noStale.same rfl rfl
      · exact h
    · exact h
  | read i =>
    refine iff_of_true ?_ trivial
    rw [act]
    split
    · split
      · rw [State.read]
        split
        · exact h.setVisit (by simp)
        · exact h.setVisit (by simp)
      · exact h
    · exact h
  | fill i =>
    cases hvisit : s.visits[i]? with
    | none => exact iff_of_true (by simpa [act, hvisit] using h) (by simp [KeepsPrompt, hvisit])
    | some visit =>
      cases hphase : visit.phase with
      | loaded link readAt =>
        simp only [act, hvisit, hphase, KeepsPrompt, Phase.readAt, Option.mem_some_iff, forall_eq']
        rw [← noStale_fill h.noStale i visit link readAt]
        refine ⟨fun h' => h'.noStale, fun h' => ⟨h', ?_⟩⟩
        have hset : Fresh (s.setVisit i visit (.answered (some link) none)) :=
          h.fresh.setVisit fun link' readAt' hanswered => by simp at hanswered
        exact hset.sameVisits rfl
      | _ =>
        exact iff_of_true (by simpa [act, hvisit, hphase] using h)
          (by simp [KeepsPrompt, hvisit, hphase, Phase.readAt])
  | fail i =>
    refine iff_of_true ?_ trivial
    rw [act]
    split
    · split
      · exact h
      · exact h.setVisit (by simp)
    · exact h

end

theorem known_step {p : Platform} {ttlSeconds : Nat} (s : State) (a : Action) (s' : State)
    (h : Known s) (hs' : step p ttlSeconds s a = some s') : Known s' := by
  obtain rfl := Option.some.inj hs'
  exact known_act h a

theorem prompt_initial (links : String → Option ResolvedLink) : Prompt (State.initial links) :=
  ⟨fun _ _ hentry => absurd hentry nofun, fun _ hmem => absurd hmem List.not_mem_nil⟩

/-- **Visits of links that were taken down.**  In every state of a run no copy in the cache, and
no answer that a visit got from one after a bust had returned, is older than the takedown,
exactly when every copy that is stored, and every one that a failing deletion leaves, is as
young as the takedowns whose deletion is over by then. -/
theorem prompt_iff (p : Platform) (ttlSeconds : Nat) (links : String → Option ResolvedLink)
    (actions : List Action) :
    Guarded (step p ttlSeconds) (KeepsPrompt ttlSeconds) (State.initial links) actions ↔
      ∀ pre post s, actions = pre ++ post →
        run (step p ttlSeconds) (State.initial links) pre = some s → Prompt s := by
  refine guarded_iff_holds_throughout_of_invariant (I := Known) (fun _ _ => rfl) known_step ?_
    (fun _ hmem => absurd hmem List.not_mem_nil) (prompt_initial links)
  intro s a s' hknown hprompt hs'
  obtain rfl := Option.some.inj hs'
  exact prompt_act hknown hprompt a

/-! ### A slow reader -/

/-- A visitor whose `resolve` reads the link before it is removed and stores it afterwards, and
one who comes when all is done. -/
def slowReader : List Action :=
  [.visit "snap.to" "a", .lookUp 0, .read 0, .takedown "snap.to" "a" .remove, .delete 0,
    .bustReturns 0, .fill 0, .visit "snap.to" "a", .lookUp 1]

/-- A link was served out of a copy of the first version. -/
def Phase.servedAsFirst : Phase → Bool
  | .answered (some _) (some readAt) => readAt == 0
  | _ => false

theorem answered_of_servedAsFirst {phase : Phase} (h : phase.servedAsFirst = true) :
    ∃ link, phase = .answered link (some 0) := by
  rw [Phase.servedAsFirst.eq_def] at h
  split at h
  · rw [beq_iff_eq.mp h]
    exact ⟨_, rfl⟩
  · exact absurd h Bool.false_ne_true

/-- **A link that was removed is still served**, out of a cache that was busted. -/
theorem slow_reader_revives :
    ¬ ∀ (p : Platform) (ttlSeconds : Nat) (links : String → Option ResolvedLink)
      (actions : List Action) (s : State),
      run (step p ttlSeconds) (State.initial links) actions = some s → Fresh s := by
  intro h
  have hserved : (run (step samplePlatform 60) (State.initial fun _ => some sampleLink)
      slowReader).any (fun s => s.visits.any fun visit =>
        visit.after == [1] && visit.phase.servedAsFirst) = true := by
    decide +kernel
  obtain ⟨s, hrun, hvisit⟩ := (Option.any_eq_true _ _).mp hserved
  obtain ⟨visit, hmem, hboth⟩ := List.any_eq_true.mp hvisit
  obtain ⟨hafter, hphase⟩ := Bool.and_eq_true_iff.mp hboth
  obtain ⟨link, hanswered⟩ := answered_of_servedAsFirst hphase
  have hfresh := h _ _ _ _ _ hrun visit hmem _ _ hanswered 1
    (by rw [beq_iff_eq.mp hafter]; exact List.mem_singleton_self _)
  exact absurd hfresh (by decide)

end SnapUrl.Redirect.CacheBust
