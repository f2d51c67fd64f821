import Mathlib.Data.List.Nodup
import Mathlib.Data.List.Perm.Subperm
import SnapUrl.Cache.Contract

/-!
# The throttler over the cache port

`CacheStoreThrottlerStorage` of `apps/api/src/common/cache-throttler-storage.ts`, which counts
the hits of a key with `incr` and reads the rest of their window with `pttl`.

* `hits_of_window`: **the hits of a window are answered one, two, three and so on.**
* `windows_of_prescribed`: at most `limit` of them are let through, and a hit is blocked only
  in a window with more than `limit` hits.
-/

namespace SnapUrl.Cache

open Domain

/-! ### Increments -/

/-- Timings in milliseconds. -/
structure ThrottlerStorageRecord where
  totalHits : Nat
  timeToExpire : Int
  isBlocked : Bool
  timeToBlockExpire : Int

/-- `Math.ceil(ttl / 1000)`. -/
def windowSeconds (ttl : Nat) : Nat := (ttl + 999) / 1000

def prefixedKey (throttlerName key : String) : String := "throttle:" ++ throttlerName ++ ":" ++ key

/-- The calls of `increment`. -/
def incrementCalls (throttlerName key : String) (ttl : Nat) : Call × Call :=
  let name := prefixedKey throttlerName key
  (.incr name (some (windowSeconds ttl)), .pttl ⟨.count, name⟩)

def isBlocked (limit totalHits : Nat) : Bool := limit < totalHits

/-- What `increment` makes of their answers. -/
def increment (ttl limit totalHits : Nat) (remaining : Int) : ThrottlerStorageRecord :=
  let timeToExpire := if 0 ≤ remaining then remaining else ttl
  { totalHits := totalHits
    timeToExpire := timeToExpire
    isBlocked := isBlocked limit totalHits
    timeToBlockExpire := if isBlocked limit totalHits then timeToExpire else 0 }

/-! ### Windows -/

def Done.isHit (name : String) (d : Done) : Bool :=
  match d.call with
  | .incr hit _ => hit = name
  | _ => false

def Done.totalHits (d : Done) : Nat :=
  match d.reply with
  | .count n => n
  | _ => 0

/-- A hit that is the first of a window that ends at a stamp. -/
def Opens (g : Expiry) (name : String) (stamp : Nat) (d : Done) : Prop :=
  ∃ ttl, d.call = .incr name (some ttl) ∧ d.reply = .count 1 ∧ stamp = g.stamp d.time ttl

/-- The hits of a window among calls. -/
def hitsOf (g : Expiry) (name : String) (stamp : Nat) (ds : List Done) : List Done :=
  ds.filter fun d => d.isHit name && g.live d.time stamp

/-- A counter that only the throttler calls, with a time to live. -/
def OnlyThrottled (name : String) (log : List Done) : Prop :=
  ∀ d ∈ log, d.call.key = ⟨.count, name⟩ →
    (∃ ttl, 0 < ttl ∧ d.call = .incr name (some (windowSeconds ttl))) ∨
      d.call = .pttl ⟨.count, name⟩

/-- **Every hit is in a window, of which at most `limit` hits are let through, and none is
blocked unless there are more.** -/
structure WindowsHold (g : Expiry) (name : String) (limit : Nat) (log : List Done) : Prop where
  covered : ∀ before d after, log = before ++ d :: after → d.isHit name = true →
    ∃ o ∈ before ++ [d], ∃ stamp, Opens g name stamp o ∧ g.live d.time stamp = true
  bounded : ∀ before o after stamp, log = before ++ o :: after → Opens g name stamp o →
    ((hitsOf g name stamp (o :: after)).countP fun d => !isBlocked limit d.totalHits) ≤ limit
  blocks : ∀ before o after stamp, log = before ++ o :: after → Opens g name stamp o →
    (∃ d ∈ hitsOf g name stamp (o :: after), isBlocked limit d.totalHits = true) →
      limit < (hitsOf g name stamp (o :: after)).length

section

variable {g : Expiry} {estimate : Sketch → Nat} {name : String} {stamp : Nat}

/-- After its end no hit is in a window. -/
theorem hitsOf_past {now : Nat} {ds : List Done} (hpast : g.live now stamp = false)
    (hlater : ∀ d ∈ ds, now ≤ d.time) : hitsOf g name stamp ds = [] := by
  rw [hitsOf, List.filter_eq_nil_iff]
  intro d hd h
  rw [Bool.and_eq_true] at h
  exact absurd (hpast ▸ g.live_mono (hlater d hd) h.2) Bool.false_ne_true

/-! ### The counter of a key -/

theorem storeAfter_other {log : List Done} {d : Done} {k : Key} (h : d.call.key ≠ k) :
    storeAfter g estimate (log ++ [d]) k = storeAfter g estimate log k := by
  rw [storeAfter_append_singleton, Store.take, Function.update_of_ne h.symm]

theorem storeAfter_incr (log : List Done) (time : Nat) (ttl : Option Nat) (reply : Reply) :
    storeAfter g estimate (log ++ [⟨time, .incr name ttl, reply⟩]) ⟨.count, name⟩ =
      (countUp g time ttl (g.find time (storeAfter g estimate log) ⟨.count, name⟩)).1 := by
  rw [storeAfter_append_singleton]
  exact Function.update_self _ _ _

theorem storeAfter_pttl (log : List Done) (time : Nat) (k : Key) (reply : Reply) :
    storeAfter g estimate (log ++ [⟨time, .pttl k, reply⟩]) k =
      g.find time (storeAfter g estimate log) k := by
  rw [storeAfter_append_singleton]
  exact Function.update_self _ _ _

theorem find_stamped {s : Store} {n : Nat} (now : Nat)
    (h : s ⟨.count, name⟩ = some ⟨n, some stamp⟩) :
    g.find now s ⟨.count, name⟩ = if g.live now stamp then some ⟨n, some stamp⟩ else none := by
  rw [Expiry.find, h, Option.filter_some]
  rfl

theorem isHit_eq_true {d : Done} (h : d.isHit name = true) : ∃ ttl, d.call = .incr name ttl := by
  rw [Done.isHit] at h
  split at h
  · rename_i hit ttl hcall
    exact ⟨ttl, by rw [hcall, of_decide_eq_true h]⟩
  · cases h

theorem windowSeconds_pos {ttl : Nat} (h : 0 < ttl) : 0 < windowSeconds ttl := by
  rw [windowSeconds]
  omega

/-- **The hits of a window are answered one after another.** -/
theorem hits_follow {after : List Done} {before : List Done} {n : Nat}
    (hprescribed : Prescribed g estimate (before ++ after)) (honly : OnlyThrottled name after)
    (htimes : after.Pairwise (·.time ≤ ·.time))
    (hstored : storeAfter g estimate before ⟨.count, name⟩ = some ⟨n, some stamp⟩) :
    (hitsOf g name stamp after).map Done.totalHits =
      List.range' (n + 1) (hitsOf g name stamp after).length := by
  induction after generalizing before n with
  | nil => rfl
  | cons d after ih =>
    have hprescribed' : Prescribed g estimate (before ++ [d] ++ after) := by
      rw [List.append_assoc]
      exact hprescribed
    obtain ⟨hlater, htimes'⟩ := List.pairwise_cons.mp htimes
    have honly' : OnlyThrottled name after := fun e he => honly e (List.mem_cons_of_mem _ he)
    by_cases hkey : d.call.key = ⟨.count, name⟩
    · obtain ⟨time, call, reply⟩ := d
      cases hlive : g.live time stamp with
      | false =>
        have hnone : hitsOf g name stamp (⟨time, call, reply⟩ :: after) = [] :=
          hitsOf_past hlive fun e he => by
            rcases List.mem_cons.mp he with rfl | he
            · exact le_rfl
            · exact hlater e he
        rw [hnone]
        rfl
      | true =>
        have hfind := find_stamped (g := g) time hstored
        rw [if_pos hlive] at hfind
        rcases honly _ (List.mem_cons_self ..) hkey with ⟨ttl, -, hcall⟩ | hcall
        · obtain rfl : call = _ := hcall
          have hreply : reply = .count (n + 1) := by
            refine (hprescribed before _ after rfl).trans ?_
            rw [prescribed]
            change (countUp g time (some (windowSeconds ttl))
              (g.find time (storeAfter g estimate before) ⟨.count, name⟩)).2 = _
            rw [hfind]
            rfl
          have hstored' : storeAfter g estimate (before ++
              [⟨time, .incr name (some (windowSeconds ttl)), reply⟩]) ⟨.count, name⟩ =
                some ⟨n + (1 : Nat), some stamp⟩ := by
            rw [storeAfter_incr, hfind]
            rfl
          have hmore : hitsOf g name stamp
              (⟨time, .incr name (some (windowSeconds ttl)), reply⟩ :: after) =
                ⟨time, .incr name (some (windowSeconds ttl)), reply⟩ ::
                  hitsOf g name stamp after :=
            List.filter_cons_of_pos (by simp [Done.isHit, hlive])
          rw [hmore, List.map_cons, List.length_cons, List.range'_succ,
            ih hprescribed' honly' htimes' hstored', Done.totalHits, hreply]
        · obtain rfl : call = _ := hcall
          have hstored' : storeAfter g estimate (before ++ [⟨time, .pttl ⟨.count, name⟩, reply⟩])
              ⟨.count, name⟩ = some ⟨n, some stamp⟩ := by
            rw [storeAfter_pttl, hfind]
          exact ih hprescribed' honly' htimes' hstored'
    · have hstored' : storeAfter g estimate (before ++ [d]) ⟨.count, name⟩ =
          some ⟨n, some stamp⟩ := by
        rw [storeAfter_other hkey, hstored]
      have hnot : d.isHit name = false := by
        refine Bool.eq_false_of_not_eq_true fun hhit => hkey ?_
        obtain ⟨ttl, hcall⟩ := isHit_eq_true hhit
        rw [hcall]
        rfl
      have hskip : hitsOf g name stamp (d :: after) = hitsOf g name stamp after := by
        rw [hitsOf, List.filter_cons_of_neg (by rw [hnot]; simp), hitsOf]
      rw [hskip]
      exact ih hprescribed' honly' htimes' hstored'

/-- A hit that is answered with one has opened its window. -/
theorem storeAfter_opens {before : List Done} {o : Done} (hstamp : Opens g name stamp o)
    (hreply : o.reply = prescribed g estimate before o) (honly : OnlyThrottled name [o]) :
    storeAfter g estimate (before ++ [o]) ⟨.count, name⟩ = some ⟨(1 : Nat), some stamp⟩ ∧
      g.live o.time stamp = true := by
  obtain ⟨time, call, reply⟩ := o
  obtain ⟨ttl, hcall, hone, rfl⟩ := hstamp
  obtain rfl : call = _ := hcall
  obtain rfl : reply = _ := hone
  have hpos : 0 < ttl := by
    rcases honly _ (List.mem_singleton_self _) rfl with ⟨ms, hms, h⟩ | h
    · obtain rfl := Option.some.inj (Call.incr.inj h).2
      exact windowSeconds_pos hms
    · cases h
  have hlive : g.live time (g.stamp time ttl) = true := by
    have hlt := g.lt_stamp time ttl
    exact g.live_of_lt (by omega)
  refine ⟨?_, hlive⟩
  have hcount : Reply.count 1 = (countUp g time (some ttl)
      (g.find time (storeAfter g estimate before) ⟨.count, name⟩)).2 := hreply
  rw [storeAfter_incr]
  cases hfind : g.find time (storeAfter g estimate before) ⟨.count, name⟩ with
  | none => exact if_neg hpos.ne'
  | some e =>
    have hmem : e ∈ storeAfter g estimate before ⟨.count, name⟩ :=
      (Option.filter_eq_some_iff.mp hfind).1
    have hvalue : 0 < e.value := positive_storeAfter estimate before ⟨.count, name⟩ e hmem
    rw [hfind] at hcount
    exact absurd (Reply.count.inj hcount) (Nat.lt_add_of_pos_left hvalue).ne

/-- What a throttled counter holds was opened by a hit. -/
theorem opened_of_stored {log : List Done} (hprescribed : Prescribed g estimate log)
    (honly : OnlyThrottled name log) :
    ∀ e ∈ storeAfter g estimate log ⟨.count, name⟩,
      ∃ o ∈ log, ∃ stamp, Opens g name stamp o ∧ e.expiresAt = some stamp := by
  induction log using List.reverseRecOn with
  | nil =>
    intro e he
    cases he
  | append_singleton log d ih =>
    have hlast := hprescribed log d [] rfl
    have hbefore := ih hprescribed.left fun e he => honly e (List.mem_append_left _ he)
    intro e he
    by_cases hkey : d.call.key = ⟨.count, name⟩
    · obtain ⟨time, call, reply⟩ := d
      rcases honly _ (List.mem_append_right _ (List.mem_singleton_self _)) hkey with
        ⟨ttl, hpos, hcall⟩ | hcall
      · obtain rfl : call = _ := hcall
        have hreply : reply = (countUp g time (some (windowSeconds ttl))
            (g.find time (storeAfter g estimate log) ⟨.count, name⟩)).2 := hlast
        rw [storeAfter_incr] at he
        cases hfind : g.find time (storeAfter g estimate log) ⟨.count, name⟩ with
        | none =>
          rw [hfind] at he hreply
          have hkeep : g.keep time 1 (some (windowSeconds ttl)) = some e := he
          rw [Expiry.keep, if_neg (windowSeconds_pos hpos).ne'] at hkeep
          obtain rfl := Option.some.inj hkeep
          exact ⟨_, List.mem_append_right _ (List.mem_singleton_self _), _,
            ⟨windowSeconds ttl, rfl, hreply, rfl⟩, rfl⟩
        | some e' =>
          rw [hfind] at he
          obtain rfl := Option.some.inj he
          obtain ⟨o, ho, stamp, hopens, hstamp⟩ :=
            hbefore e' (Option.filter_eq_some_iff.mp hfind).1
          exact ⟨o, List.mem_append_left _ ho, stamp, hopens, hstamp⟩
      · obtain rfl : call = _ := hcall
        rw [storeAfter_pttl] at he
        obtain ⟨o, ho, stamp, hopens, hstamp⟩ := hbefore e (Option.filter_eq_some_iff.mp he).1
        exact ⟨o, List.mem_append_left _ ho, stamp, hopens, hstamp⟩
    · rw [storeAfter_other hkey] at he
      obtain ⟨o, ho, stamp, hopens, hstamp⟩ := hbefore e he
      exact ⟨o, List.mem_append_left _ ho, stamp, hopens, hstamp⟩

/-- So many hits of a window are let through. -/
theorem countP_passed_le (limit n : Nat) :
    ((List.range' 1 n).countP fun k => !isBlocked limit k) ≤ limit := by
  rw [List.countP_eq_length_filter]
  have hsub : ((List.range' 1 n).filter fun k => !isBlocked limit k) ⊆ List.range' 1 limit := by
    intro k hk
    obtain ⟨hk, hpassed⟩ := List.mem_filter.mp hk
    obtain ⟨hpos, -⟩ := List.mem_range'_1.mp hk
    have hle : k ≤ limit := by simpa [isBlocked] using hpassed
    exact List.mem_range'_1.mpr ⟨hpos, by omega⟩
  have hnodup : ((List.range' 1 n).filter fun k => !isBlocked limit k).Nodup :=
    List.Nodup.filter _ List.nodup_range'
  have hlength := (hnodup.subperm hsub).length_le
  rwa [List.length_range'] at hlength

theorem hits_of_window {log before after : List Done} {o : Done}
    (hprescribed : Prescribed g estimate log) (htimes : log.Pairwise (·.time ≤ ·.time))
    (honly : OnlyThrottled name log) (hlog : log = before ++ o :: after)
    (hopens : Opens g name stamp o) :
    (hitsOf g name stamp (o :: after)).map Done.totalHits =
      List.range' 1 (hitsOf g name stamp (o :: after)).length := by
  subst hlog
  have honly' : OnlyThrottled name [o] := fun d hd =>
    honly d (List.mem_append_right _ (List.mem_cons.mpr (Or.inl (List.mem_singleton.mp hd))))
  obtain ⟨hstored, hlive⟩ := storeAfter_opens hopens (hprescribed before o after rfl) honly'
  have hprescribed' : Prescribed g estimate (before ++ [o] ++ after) := by
    rwa [List.append_assoc]
  have honly'' : OnlyThrottled name after := fun d hd =>
    honly d (List.mem_append_right _ (List.mem_cons_of_mem _ hd))
  have htimes' := (List.pairwise_cons.mp (List.pairwise_append.mp htimes).2.1).2
  have hafter := hits_follow hprescribed' honly'' htimes' hstored
  obtain ⟨ttl, hcall, hreply, -⟩ := hopens
  have hmore : hitsOf g name stamp (o :: after) = o :: hitsOf g name stamp after :=
    List.filter_cons_of_pos (by simp [Done.isHit, hcall, hlive])
  rw [hmore, List.map_cons, List.length_cons, List.range'_succ, hafter, Done.totalHits, hreply]

/-- **The windows of a throttled key.** -/
theorem windows_of_prescribed {log : List Done} (hprescribed : Prescribed g estimate log)
    (htimes : log.Pairwise (·.time ≤ ·.time)) (honly : OnlyThrottled name log) (limit : Nat) :
    WindowsHold g name limit log where
  covered before d after hlog hhit := by
    subst hlog
    have hmem : d ∈ before ++ d :: after := List.mem_append_right _ (List.mem_cons_self ..)
    obtain ⟨time, call, reply⟩ := d
    obtain ⟨hitTtl, hcall⟩ := isHit_eq_true hhit
    obtain rfl : call = _ := hcall
    obtain ⟨ttl, hpos, hwindow⟩ : ∃ ttl, 0 < ttl ∧ hitTtl = some (windowSeconds ttl) := by
      rcases honly _ hmem rfl with ⟨ttl, hpos, h⟩ | h
      · exact ⟨ttl, hpos, (Call.incr.inj h).2⟩
      · cases h
    subst hwindow
    have hreply : reply = (countUp g time (some (windowSeconds ttl))
        (g.find time (storeAfter g estimate before) ⟨.count, name⟩)).2 :=
      hprescribed before _ after rfl
    cases hfind : g.find time (storeAfter g estimate before) ⟨.count, name⟩ with
    | none =>
      rw [hfind] at hreply
      have hlt := g.lt_stamp time (windowSeconds ttl)
      have hseconds := windowSeconds_pos hpos
      have hopen : time < g.stamp time (windowSeconds ttl) := by omega
      exact ⟨_, List.mem_append_right _ (List.mem_singleton_self _), _,
        ⟨windowSeconds ttl, rfl, hreply, rfl⟩, g.live_of_lt hopen⟩
    | some e =>
      obtain ⟨hstored, halive⟩ := Option.filter_eq_some_iff.mp hfind
      obtain ⟨o, ho, stamp, hopens, hstamp⟩ := opened_of_stored hprescribed.left
        (fun d hd => honly d (List.mem_append_left _ hd)) e hstored
      rw [Expiry.alive, hstamp, Option.all_some] at halive
      exact ⟨o, List.mem_append_left _ ho, stamp, hopens, halive⟩
  bounded before o after stamp hlog hopens := by
    have hcount := countP_passed_le limit (hitsOf g name stamp (o :: after)).length
    rwa [← hits_of_window hprescribed htimes honly hlog hopens, List.countP_map] at hcount
  blocks before o after stamp hlog hopens := by
    rintro ⟨d, hd, hblocked⟩
    have hmem : d.totalHits ∈ (hitsOf g name stamp (o :: after)).map Done.totalHits :=
      List.mem_map_of_mem hd
    rw [hits_of_window hprescribed htimes honly hlog hopens, List.mem_range'_1] at hmem
    have hlt : limit < d.totalHits := of_decide_eq_true hblocked
    omega

end

end SnapUrl.Cache
