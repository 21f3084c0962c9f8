/-
The budget of a local account (`check_local` of `web.rs`). A sign-in reads the failures of its
username, waits for one of a few permits to hash, reads them again and starts the hash; the hash
counts its own failure when it ends, also when the request was given up meanwhile. Several hashes
for one username run at once, and a sign-in that reads the failures does not see those that are still
to come of them; and `blocked` and `fail` read the clock before they have the lock. Five wrong passwords
in five minutes is what holds where neither makes a difference.
-/
import WebAccess.Serve.Throttle
import Mathlib.Algebra.Order.BigOperators.Group.List

namespace WebAccess

open Window Wire Transition

def hashPermits : Nat := 4

/-- Where a sign-in is: it has read the clock for `blocked` and waits for the lock, it waits for a permit, has
one, has read the clock for the second `blocked`, or is past that or given up. -/
inductive HashStage
  | arriving (time : Nat)
  | waiting
  | permitted
  | rereading (time : Nat)
  | left
  deriving DecidableEq

/-- A sign-in for a local account. -/
structure LocalSignIn where
  username : Text
  stage : HashStage

/-- A password that is checked against the hash of an account: the time its sign-in had read, when the check
came out and whether the password was right, and whether that has reached the throttle. -/
structure Hash where
  username : Text
  since : Nat
  found : Option (Nat × Bool) := none
  counted : Bool := false

/-- The password was wrong, at a time in the window. -/
def Hash.wrongIn (start : Nat) (h : Hash) : Bool :=
  h.found.any fun (t, right) => !right && decide (start ≤ t) && decide (t < start + throttleWindow)

/-- The check began at a time in the window. -/
def Hash.begunIn (start : Nat) (h : Hash) : Bool :=
  decide (start ≤ h.since) && decide (h.since < start + throttleWindow)

/-- All sign-ins for local accounts; the hashes in the order they were started. -/
structure Hashing where
  now : Nat := 0
  throttle : Throttle := {}
  permits : Nat := hashPermits
  requests : List LocalSignIn := []
  hashes : List Hash := []

/-- Time passes; a sign-in arrives, reads the failures, gets a permit, reads the clock and the failures again,
is given up before that; a hash ends and is counted. -/
inductive HashEvent
  | later (now : Nat)
  | arrives (username : Text)
  | reads (request : Nat)
  | acquires (request : Nat)
  | returns (request : Nat)
  | rereads (request : Nat)
  | abandons (request : Nat)
  | verified (hash : Nat) (right : Bool)
  | counts (hash : Nat)

namespace Hashing

def moved (s : Hashing) (i : Nat) (r : LocalSignIn) (stage : HashStage) : Hashing :=
  { s with requests := s.requests.set i { r with stage } }

/-- The parts of `check_local` between its waits, for a permit and for the lock of the throttle. The permit of a
sign-in that is refused after all or given up goes back, and that of a hash when it has been counted. -/
def step (s : Hashing) : HashEvent → Option Hashing
  | .later now => if s.now ≤ now then some { s with now } else none
  | .arrives username => some { s with requests := s.requests ++ [⟨username, .arriving s.now⟩] }
  | .reads i => s.requests[i]?.bind fun r =>
    match r.stage with
    | .arriving time =>
      let read := s.throttle.blockedAt r.username time
      some { s.moved i r (if read.1 then .left else .waiting) with throttle := read.2 }
    | _ => none
  | .acquires i => s.requests[i]?.bind fun r =>
    if r.stage = .waiting ∧ 0 < s.permits then some { s.moved i r .permitted with permits := s.permits - 1 } else none
  | .returns i => s.requests[i]?.bind fun r =>
    if r.stage = .permitted then some (s.moved i r (.rereading s.now)) else none
  | .rereads i => s.requests[i]?.bind fun r =>
    match r.stage with
    | .rereading time =>
      let read := s.throttle.blockedAt r.username time
      if read.1 then some { s.moved i r .left with throttle := read.2, permits := s.permits + 1 }
      else some { s.moved i r .left with throttle := read.2, hashes := s.hashes ++ [⟨r.username, time, none, false⟩] }
    | _ => none
  | .abandons i => s.requests[i]?.bind fun r =>
    if r.stage = .waiting ∨ r.stage = .permitted then
      some { s.moved i r .left with permits := if r.stage = .permitted then s.permits + 1 else s.permits }
    else none
  | .verified j right => s.hashes[j]?.bind fun h =>
    if h.found.isNone then some { s with hashes := s.hashes.set j { h with found := some (s.now, right) } } else none
  | .counts j => s.hashes[j]?.bind fun h => h.found.bind fun r =>
    if h.counted then none
    else some { s with
      throttle := if r.2 then s.throttle.clear h.username else s.throttle.failAt h.username r.1
      permits := s.permits + 1
      hashes := s.hashes.set j { h with counted := true } }

end Hashing

/-- The runs of a proxy that has just started. -/
abbrev HashRun : List (Entry Hashing HashEvent) → Hashing → Prop := Run (fun s e s' => s.step e = some s') {}

/-! ## The times that are kept -/

/-- The time at which a hash for the username came out, once it has reached the throttle. -/
def Hash.failure (username : Text) (h : Hash) : Option Nat :=
  if h.username = username ∧ h.counted = true then h.found.map Prod.fst else none

def countedFailures (username : Text) (hashes : List Hash) : List Nat := hashes.filterMap (Hash.failure username)

/-- How many hashes for a username run or are still to be counted. -/
def inFlight (username : Text) (hashes : List Hash) : Nat :=
  hashes.countP fun h => h.username == username && !h.counted

/-- An earlier hash counts against a later one: it was running then, or had come out less than five minutes
before. -/
def Hash.counts (x y : Hash) : Bool :=
  y.username == x.username && y.found.all fun (t, _) => alive throttleWindow x.since t

section Found

variable {username : Text} {hashes : List Hash} {h : Hash} {j : Nat}

theorem countP_hash_counts_le (now : Nat) (found : Option (Nat × Bool)) (counted : Bool)
    (hfound : ∀ h ∈ hashes, h.counted = true → h.found ≠ none) :
    hashes.countP (Hash.counts ⟨username, now, found, counted⟩) ≤
      inFlight username hashes + (live throttleWindow now (countedFailures username hashes)).length := by
  induction hashes with
  | nil => exact Nat.le_refl _
  | cons h hashes ih =>
    obtain ⟨name, since, result, done⟩ := h
    have ih := ih fun h hh => hfound h (List.mem_cons_of_mem _ hh)
    have hresult := hfound _ (List.mem_cons_self ..)
    simp only [inFlight, countedFailures, live, List.countP_cons, List.filterMap_cons, Hash.failure] at ih ⊢
    by_cases hname : name = username
    · subst hname
      cases done with
      | false => simp [Hash.counts]; split <;> omega
      | true =>
        obtain ⟨⟨t, right⟩, rfl⟩ := Option.ne_none_iff_exists'.1 (hresult rfl)
        cases ht : alive throttleWindow now t <;> simp [Hash.counts, ht] <;> omega
    · simpa [Hash.counts, hname] using ih

/-- A hash that was not counted becomes another. -/
theorem countedFailures_set {h' : Hash} {failure : Option Nat} (hj : hashes[j]? = some h) (hcounted : h.counted = false)
    (hfailure : h'.failure username = failure) :
    (countedFailures username (hashes.set j h')).Perm (failure.toList ++ countedFailures username hashes) := by
  obtain ⟨hlt, rfl⟩ := List.getElem?_eq_some_iff.1 hj
  have hbefore := (List.getElem_cons_eraseIdx_perm hlt).filterMap (Hash.failure username)
  have hafter := (List.set_perm_cons_eraseIdx hlt h').filterMap (Hash.failure username)
  have hnone : hashes[j].failure username = none := by simp [Hash.failure, hcounted]
  rw [List.filterMap_cons_none hnone] at hbefore
  refine hafter.trans (List.Perm.trans (List.Perm.of_eq ?_) (hbefore.append_left _))
  cases failure with
  | none => exact List.filterMap_cons_none hfailure
  | some t => exact List.filterMap_cons_some hfailure

end Found

/-! ## Runs -/

/-- Where a sign-in of the username reads the failures before its hash, those still to come of hashes that
run or are not counted yet would not use up the budget. -/
def InFlightFit (username : Text) (e : Entry Hashing HashEvent) : Prop :=
  ∀ i time, e.label = .rereads i → e.pre.requests[i]? = some ⟨username, .rereading time⟩ →
    (e.pre.throttle.recent time username).length < throttleFailures →
    inFlight username e.pre.hashes + (e.pre.throttle.recent time username).length < throttleFailures

/-- No password of the username was found right. -/
def NoneRight (username : Text) (s : Hashing) : Prop :=
  ∀ h ∈ s.hashes, h.username = username → ∀ r ∈ h.found, r.2 = false

/-- The time read by the call of `blocked` or `fail` that has the lock in a step; `clear` reads none. -/
def Hashing.lockTime (e : Entry Hashing HashEvent) : Option Nat :=
  match e.label with
  | .reads i | .rereads i => e.pre.requests[i]?.bind fun r =>
    match r.stage with
    | .arriving time | .rereading time => some time
    | _ => none
  | .counts j => e.pre.hashes[j]?.bind fun h => h.found.bind fun r => if r.2 then none else some r.1
  | _ => none

/-- The calls of `blocked` and `fail` had the lock in the order in which they read the clock. -/
def Hashing.InTurn (tr : List (Entry Hashing HashEvent)) : Prop := (tr.filterMap Hashing.lockTime).Pairwise (· ≤ ·)

/-- The times of a username are those of its failures that were counted, and each hash was started while fewer
than the limit counted against it. No time that was counted is later than `now`, which may be behind the clock. -/
structure Hashing.Counted (username : Text) (now : Nat) (s : Hashing) : Prop where
  limited : s.throttle.limit = throttleFailures
  past : s.throttle.Past now
  recent : (s.throttle.recent now username).Perm (live throttleWindow now (countedFailures username s.hashes))
  budget : Budgeted (fun h => h.username == username) Hash.counts throttleFailures s.hashes

/-- Times are read before they are used: a hash comes out after its sign-in read the clock, and is counted after
it came out. -/
structure Hashing.Ordered (s : Hashing) : Prop where
  reading : ∀ r ∈ s.requests, ∀ time, r.stage = .rereading time → time ≤ s.now
  since : ∀ h ∈ s.hashes, h.since ≤ s.now ∧ ∀ r ∈ h.found, h.since ≤ r.1
  counted : ∀ h ∈ s.hashes, h.counted = true → h.found ≠ none

/-- What becomes of a hash. -/
structure Hash.ComesOut (x x' : Hash) : Prop where
  username : x'.username = x.username
  since : x'.since = x.since
  found : x'.found = x.found ∨ x.found = none

namespace Hashing

variable {username : Text} {now : Nat} {s s' : Hashing}

theorem Counted.start (username : Text) (now : Nat) : Counted username now {} :=
  ⟨rfl, fun _ => .nil, .refl _, .nil⟩

theorem Counted.later {now' : Nat} (h : s.Counted username now) (hle : now ≤ now') : s.Counted username now' := by
  have hsame : live throttleWindow now' (live throttleWindow now (countedFailures username s.hashes)) =
      live throttleWindow now' (countedFailures username s.hashes) := live_live hle
  refine ⟨h.limited, h.past.later hle, ?_, h.budget⟩
  rw [Throttle.recent_later hle, ← hsame]
  exact h.recent.filter _

variable {c : Text} {clock permits j : Nat} {requests : List LocalSignIn} {x : Hash}

/-- A call of `blocked` has the lock, with the time it read. -/
theorem Counted.reads (h : s.Counted username now) :
    Counted username now { s with throttle := (s.throttle.blockedAt c now).2, permits, requests } := by
  obtain ⟨-, hlimit, hpast, hrecent⟩ := Throttle.blockedAt_spec c h.past
  exact ⟨hlimit.trans h.limited, hpast, (hrecent username).symm ▸ h.recent, h.budget⟩

theorem Counted.starts (h : s.Counted username now) (ho : ∀ h ∈ s.hashes, h.counted = true → h.found ≠ none)
    (hroom : c = username → inFlight username s.hashes + (s.throttle.recent now username).length < throttleFailures) :
    Counted username now { s with hashes := s.hashes ++ [⟨c, now, none, false⟩] } := by
  refine ⟨h.limited, h.past, ?_, h.budget.snoc fun hmine => ?_⟩
  · simpa [countedFailures, Hash.failure] using h.recent
  · obtain rfl : c = username := by simpa using hmine
    refine Nat.lt_of_le_of_lt (countP_hash_counts_le now none false ho) ?_
    rw [← h.recent.length_eq]
    exact hroom rfl

/-- What becomes of a hash leaves the budget as it is. -/
theorem budget_set {x' : Hash} (h : Budgeted (fun h => h.username == username) Hash.counts throttleFailures s.hashes)
    (hx : s.hashes[j]? = some x) (hx' : Hash.ComesOut x x') :
    Budgeted (fun h => h.username == username) Hash.counts throttleFailures (s.hashes.set j x') := by
  have hchanged : List.Forall₂ Hash.ComesOut s.hashes (s.hashes.set j x') :=
    forall₂_set (fun y => ⟨rfl, rfl, .inl rfl⟩) hx hx'
  refine h.changed hchanged (fun y y' hy => ?_) fun y y' z z' hy hz hcounts => ?_
  · rw [hy.username]
    exact id
  · simp only [Hash.counts, hy.username, hy.since, hz.username, Bool.and_eq_true] at hcounts ⊢
    refine ⟨hcounts.1, ?_⟩
    rcases hz.found with hsame | hnone
    · exact hsame ▸ hcounts.2
    · rw [hnone]
      rfl

/-- The outcome of a hash reaches the throttle, with the time `fail` read. -/
theorem Counted.counts {right : Bool} {t : Nat} (h : s.Counted username now) (hx : s.hashes[j]? = some x)
    (hfound : x.found = some (t, right)) (hcounted : x.counted = false) (ht : right = false → t = now)
    (hright : right = true → x.username ≠ username) :
    Counted username now { s with
      throttle := if right then s.throttle.clear x.username else s.throttle.failAt x.username t
      permits
      hashes := s.hashes.set j { x with counted := true } } := by
  have hcomesOut : Hash.ComesOut x { x with counted := true } := ⟨rfl, rfl, .inl rfl⟩
  have hbudget := budget_set h.budget hx hcomesOut
  cases right with
  | true =>
    have hfailure : Hash.failure username { x with counted := true } = none := if_neg fun h => hright rfl h.1
    refine ⟨h.limited, h.past.put .nil, ?_, hbudget⟩
    show ((s.throttle.put x.username []).recent now username).Perm _
    rw [Throttle.recent_put_ne (Ne.symm (hright rfl))]
    exact h.recent.trans ((countedFailures_set hx hcounted hfailure).filter _).symm
  | false =>
    obtain rfl := ht rfl
    obtain ⟨hlimit, hpast, hother, hself⟩ := Throttle.failAt_spec x.username h.past
    refine ⟨hlimit.trans h.limited, hpast, ?_, hbudget⟩
    show ((s.throttle.failAt x.username t).recent t username).Perm _
    by_cases hname : x.username = username
    · subst hname
      have hfailure : Hash.failure x.username { x with counted := true } = some t := by simp [Hash.failure, hfound]
      have hlive : (t :: countedFailures x.username s.hashes).filter (alive throttleWindow t) =
          [t] ++ live throttleWindow t (countedFailures x.username s.hashes) := by
        simp [live, alive, Throttle.window_pos]
      refine List.Perm.trans ?_ ((countedFailures_set hx hcounted hfailure).filter _).symm
      rw [hself, Option.toList_some, List.singleton_append, hlive]
      exact List.perm_append_comm.trans (h.recent.append_left [t])
    · have hfailure : Hash.failure username { x with counted := true } = none := if_neg fun h => hname h.1
      rw [hother username (Ne.symm hname)]
      exact h.recent.trans ((countedFailures_set hx hcounted hfailure).filter _).symm

theorem Counted.step {e : HashEvent} (h : s.Counted username now) (ho : s.Ordered) (hstep : s.step e = some s')
    (hturn : lockTime ⟨s, e, s'⟩ = none ∨ lockTime ⟨s, e, s'⟩ = some now) (hfit : InFlightFit username ⟨s, e, s'⟩)
    (hright : NoneRight username s) : s'.Counted username now := by
  cases e with
  | later now' =>
    obtain ⟨-, hs'⟩ := Option.ite_none_right_eq_some.1 hstep
    cases hs'
    exact ⟨h.limited, h.past, h.recent, h.budget⟩
  | arrives c =>
    cases hstep
    exact ⟨h.limited, h.past, h.recent, h.budget⟩
  | acquires i | returns i | abandons i =>
    obtain ⟨r, -, -, rfl⟩ := bind_ite_eq_some.1 hstep
    exact ⟨h.limited, h.past, h.recent, h.budget⟩
  | reads i =>
    obtain ⟨⟨c, stage⟩, hr, hstep⟩ := Option.bind_eq_some_iff.1 hstep
    cases stage with
    | arriving time =>
      obtain rfl : time = now := by simpa [lockTime, hr] using hturn
      cases hstep
      exact h.reads
    | waiting | permitted | rereading _ | left => cases hstep
  | rereads i =>
    obtain ⟨⟨c, stage⟩, hr, hstep⟩ := Option.bind_eq_some_iff.1 hstep
    cases stage with
    | rereading time =>
      obtain rfl : time = now := by simpa [lockTime, hr] using hturn
      obtain ⟨hblocked, -, -, hrecent⟩ := Throttle.blockedAt_spec c h.past
      simp only at hstep
      split at hstep
      · cases hstep
        exact h.reads
      · rename_i hopen
        cases hstep
        refine h.reads.starts ho.counted fun hc => ?_
        subst hc
        show inFlight c s.hashes + ((s.throttle.blockedAt c time).2.recent time c).length < throttleFailures
        rw [hrecent c]
        refine hfit i time rfl hr (Nat.lt_of_not_le fun hfull => hopen (hblocked.2 ⟨?_, h.limited ▸ hfull⟩))
        rw [h.limited]
        decide
    | waiting | permitted | arriving _ | left => cases hstep
  | verified j right =>
    obtain ⟨x, hx, hnone, rfl⟩ := bind_ite_eq_some.1 hstep
    have hnone := Option.isNone_iff_eq_none.1 hnone
    have hcounted : x.counted = false := by
      rw [Bool.eq_false_iff]
      exact fun hc => ho.counted x (List.mem_of_getElem? hx) hc hnone
    refine ⟨h.limited, h.past, ?_, budget_set h.budget hx ⟨rfl, rfl, .inr hnone⟩⟩
    have hfailure : Hash.failure username { x with found := some (s.now, right) } = none :=
      if_neg fun h => Bool.noConfusion (hcounted.symm.trans h.2)
    exact h.recent.trans ((countedFailures_set hx hcounted hfailure).filter _).symm
  | counts j =>
    obtain ⟨x, hx, hstep⟩ := Option.bind_eq_some_iff.1 hstep
    obtain ⟨⟨t, right⟩, hfound, hstep⟩ := Option.bind_eq_some_iff.1 hstep
    obtain ⟨hcounted, hs'⟩ := Option.ite_none_left_eq_some.1 hstep
    cases hs'
    refine h.counts hx hfound (Bool.eq_false_iff.2 hcounted) (fun hwrong => ?_) fun hr hname => ?_
    · subst hwrong
      simpa [lockTime, hx, hfound] using hturn
    · exact Bool.noConfusion ((hright x (List.mem_of_getElem? hx) hname _ hfound).symm.trans hr)

theorem Ordered.moved {i : Nat} {r : LocalSignIn} {stage : HashStage} {th : Throttle} (h : s.Ordered)
    (hstage : ∀ time, stage = .rereading time → time ≤ s.now) :
    Ordered { s.moved i r stage with throttle := th, permits } := by
  refine ⟨fun q hq time htime => ?_, h.since, h.counted⟩
  rcases List.mem_or_eq_of_mem_set hq with hq | rfl
  · exact h.reading q hq time htime
  · exact hstage time htime

theorem Ordered.set {x' : Hash} {th : Throttle} (h : s.Ordered) (hx : s.hashes[j]? = some x)
    (hx' : x'.since = x.since ∧ (x'.found = x.found ∨ ∃ right, x'.found = some (s.now, right)))
    (hcounted : x'.counted = true → x'.found ≠ none) :
    Ordered { s with throttle := th, permits, hashes := s.hashes.set j x' } := by
  have hold := h.since x (List.mem_of_getElem? hx)
  refine ⟨h.reading, fun y hy => ?_, fun y hy hc => ?_⟩
  · rcases List.mem_or_eq_of_mem_set hy with hy | rfl
    · exact h.since y hy
    · rw [hx'.1]
      refine ⟨hold.1, fun r hr => ?_⟩
      rcases hx'.2 with hsame | ⟨right, hnow⟩
      · exact hold.2 r (hsame ▸ hr)
      · rw [hnow] at hr
        cases hr
        exact hold.1
  · rcases List.mem_or_eq_of_mem_set hy with hy | rfl
    · exact h.counted y hy hc
    · exact hcounted hc

theorem Ordered.step {e : HashEvent} (h : s.Ordered) (hstep : s.step e = some s') : s'.Ordered := by
  cases e with
  | later now =>
    obtain ⟨hle, hs'⟩ := Option.ite_none_right_eq_some.1 hstep
    cases hs'
    exact ⟨fun r hr time htime => Nat.le_trans (h.reading r hr time htime) hle,
      fun x hx => ⟨Nat.le_trans (h.since x hx).1 hle, (h.since x hx).2⟩, h.counted⟩
  | arrives c =>
    cases hstep
    refine ⟨fun r hr time htime => ?_, h.since, h.counted⟩
    rcases mem_snoc.1 hr with hr | rfl
    · exact h.reading r hr time htime
    · cases htime
  | acquires i | abandons i =>
    obtain ⟨r, -, -, rfl⟩ := bind_ite_eq_some.1 hstep
    exact h.moved nofun
  | returns i =>
    obtain ⟨r, -, -, rfl⟩ := bind_ite_eq_some.1 hstep
    refine h.moved fun time htime => ?_
    cases htime
    exact Nat.le_refl _
  | reads i =>
    obtain ⟨⟨c, stage⟩, -, hstep⟩ := Option.bind_eq_some_iff.1 hstep
    cases stage with
    | arriving time =>
      cases hstep
      refine h.moved fun time' htime => ?_
      split at htime <;> cases htime
    | waiting | permitted | rereading _ | left => cases hstep
  | rereads i =>
    obtain ⟨⟨c, stage⟩, hr, hstep⟩ := Option.bind_eq_some_iff.1 hstep
    cases stage with
    | rereading time =>
      simp only at hstep
      split at hstep
      · cases hstep
        exact h.moved nofun
      · cases hstep
        have hmoved : (s.moved i ⟨c, .rereading time⟩ .left).Ordered := h.moved nofun
        refine ⟨hmoved.reading, fun x hx => ?_, fun x hx => ?_⟩
        · rcases mem_snoc.1 hx with hx | rfl
          · exact h.since x hx
          · exact ⟨h.reading _ (List.mem_of_getElem? hr) time rfl, nofun⟩
        · rcases mem_snoc.1 hx with hx | rfl
          · exact h.counted x hx
          · exact nofun
    | waiting | permitted | arriving _ | left => cases hstep
  | verified j right =>
    obtain ⟨x, hx, -, rfl⟩ := bind_ite_eq_some.1 hstep
    exact h.set hx ⟨rfl, .inr ⟨right, rfl⟩⟩ fun _ => Option.some_ne_none _
  | counts j =>
    obtain ⟨x, hx, hstep⟩ := Option.bind_eq_some_iff.1 hstep
    obtain ⟨r, hfound, hstep⟩ := Option.bind_eq_some_iff.1 hstep
    obtain ⟨-, hs'⟩ := Option.ite_none_left_eq_some.1 hstep
    cases hs'
    exact h.set hx ⟨rfl, .inl rfl⟩ fun _ => hfound ▸ Option.some_ne_none _

/-- The times are counted up to every moment that no time read before is later than. -/
theorem counted {tr : List (Entry Hashing HashEvent)} (run : HashRun tr s) :
    InTurn tr → (∀ e ∈ tr, InFlightFit username e ∧ NoneRight username e.pre) →
      ∀ now, (∀ t ∈ tr.filterMap lockTime, t ≤ now) → s.Ordered ∧ s.Counted username now := by
  refine run.inTurn (I := fun now s => s.Ordered ∧ s.Counted username now)
    (fun now => ⟨⟨nofun, nofun, nofun⟩, .start username now⟩) ?_ ?_
  · exact fun _ _ _ h hle => ⟨h.1, h.2.later hle⟩
  · exact fun _ _ _ _ h hstep hturn hfit => ⟨h.1.step hstep, h.2.step h.1 hstep hturn hfit.1 hfit.2⟩

end Hashing

/-- Five wrong passwords in five minutes, where the lock is had in turn and the failures that are read stand for
the hashes that run as well: for a username none of whose passwords is right, in every window of five minutes
at most five are found wrong, and no more than five are checked at all. -/
theorem local_budget {username : Text} {tr : List (Entry Hashing HashEvent)} {s : Hashing} (run : HashRun tr s)
    (wrong : ∀ e ∈ tr, NoneRight username e.pre) (turn : Hashing.InTurn tr) (fit : ∀ e ∈ tr, InFlightFit username e)
    (start : Nat) :
    (s.hashes.countP fun h => h.username == username && h.wrongIn start) ≤ throttleFailures ∧
    (s.hashes.countP fun h => h.username == username && h.begunIn start) ≤ throttleFailures := by
  obtain ⟨hordered, hcounted⟩ := Hashing.counted run turn (fun e he => ⟨fit e he, wrong e he⟩) _
    fun t ht => List.le_sum_of_mem ht
  have hwindow := Throttle.window_pos
  -- A hash counts against a later one of the same window: it was running, or came out after its start.
  have hcounts : ∀ {x y : Hash}, x.username = username → y.username = username → x.since < start + throttleWindow →
      (∀ r ∈ y.found, start ≤ r.1) → Hash.counts x y = true := by
    intro x y hx hy hbefore hfound
    simp only [Hash.counts, hx, hy, beq_self_eq_true, Bool.true_and]
    cases hout : y.found with
    | none => rfl
    | some r =>
      have hstart := hfound r hout
      simp only [Option.all_some, alive, decide_eq_true_eq]
      omega
  constructor
  · refine hcounted.budget.countP_le (fun x _ hx => (Bool.and_eq_true_iff.1 hx).1) fun before x after
      heq hx y hy hp => ?_
    obtain ⟨hxname, hxwrong⟩ := Bool.and_eq_true_iff.1 hx
    obtain ⟨hyname, hywrong⟩ := Bool.and_eq_true_iff.1 hp
    obtain ⟨rx, hrx, hin⟩ := (Option.any_eq_true ..).1 hxwrong
    obtain ⟨ry, hry, hiny⟩ := (Option.any_eq_true ..).1 hywrong
    simp only [Bool.and_eq_true, decide_eq_true_eq] at hin hiny
    have hsince := (hordered.since x (by simp [heq])).2 rx hrx
    refine hcounts (beq_iff_eq.1 hxname) (beq_iff_eq.1 hyname) (Nat.lt_of_le_of_lt hsince hin.2) fun r hr => ?_
    cases hry.symm.trans hr
    exact hiny.1.2
  · refine hcounted.budget.countP_le (fun x _ hx => (Bool.and_eq_true_iff.1 hx).1) fun before x after
      heq hx y hy hp => ?_
    simp only [Hash.begunIn, Bool.and_eq_true, beq_iff_eq, decide_eq_true_eq] at hx hp
    refine hcounts hx.1 hp.1 hx.2.2 fun r hr => ?_
    exact Nat.le_trans hp.2.1 ((hordered.since y (by simp [heq, hy])).2 r hr)

/-- How many passwords of a username were found wrong in a window. -/
def wrongPasswords (username : Text) (start : Nat) (s : Hashing) : Nat :=
  s.hashes.countP fun h => h.username == username && h.wrongIn start

/-- Whether the hashes for the username fit its budget where the failures are read. -/
def fitting (username : Text) (e : Entry Hashing HashEvent) : Bool :=
  match e.label with
  | .rereads i => e.pre.requests[i]?.all fun r =>
    match r.stage with
    | .rereading time => decide (inFlight username e.pre.hashes +
        (e.pre.throttle.recent time username).length < throttleFailures)
    | _ => true
  | _ => true

theorem fit_of_fitting {username : Text} {tr : List (Entry Hashing HashEvent)}
    (h : tr.all (fitting username) = true) : ∀ e ∈ tr, InFlightFit username e := by
  intro e he i time hlabel hr _
  simpa [fitting, hlabel, hr] using List.all_eq_true.1 h e he

/-- A sign-in arrives and reads the failures. -/
def hashArrived (i : Nat) : List HashEvent := [.arrives ['u'], .reads i]

/-- A sign-in gets a permit and reads the failures again. -/
def hashBegun (i : Nat) : List HashEvent := [.acquires i, .returns i, .rereads i]

/-- The password of a hash is wrong, which is counted. -/
def hashFailed (j : Nat) : List HashEvent := [.verified j false, .counts j]

def twoFail : List HashEvent :=
  hashArrived 0 ++ hashArrived 1 ++ hashBegun 0 ++ hashBegun 1 ++ hashFailed 1 ++ hashFailed 0

/-- Two hashes run at once and fail. -/
theorem local_budget_two : ∃ s, HashRun (trace Hashing.step {} twoFail) s ∧ wrongPasswords ['u'] 0 s = 2 ∧
    wrongPasswords ['u'] 0 s ≤ throttleFailures := by
  obtain ⟨s, hrun, hs⟩ := run_of_exec Hashing.step {} twoFail (fun s => wrongPasswords ['u'] 0 s == 2)
    (by decide +kernel)
  have hwrong : ∀ e ∈ trace Hashing.step {} twoFail, NoneRight ['u'] e.pre := by
    unfold NoneRight
    decide +kernel
  have hturn : Hashing.InTurn (trace Hashing.step {} twoFail) := by
    unfold Hashing.InTurn
    decide +kernel
  exact ⟨s, hrun, beq_iff_eq.1 hs, (local_budget hrun hwrong hturn (fit_of_fitting (by decide +kernel)) 0).1⟩

/-- Eight sign-ins arrive at once. Four hash and fail; the other four then read four failures, each hashes, and
fails. -/
def eightFail : List HashEvent :=
  (List.range 8).flatMap hashArrived ++ (List.range 4).flatMap hashBegun ++ (List.range 4).flatMap hashFailed ++
    (List.range' 4 4).flatMap hashBegun ++ (List.range' 4 4).flatMap hashFailed

/-- Eight wrong passwords are checked at once. -/
theorem local_budget_overrun : ∃ s, HashRun (trace Hashing.step {} eightFail) s ∧ wrongPasswords ['u'] 0 s = 8 := by
  obtain ⟨s, hrun, hs⟩ := run_of_exec Hashing.step {} eightFail (fun s => wrongPasswords ['u'] 0 s == 8)
    (by decide +kernel)
  exact ⟨s, hrun, beq_iff_eq.1 hs⟩

end WebAccess
