/-
The budget of a client address (`check_directory` of `web.rs`). A directory sign-in is counted
against its client before the bind and given back when the answer is not a wrong password. Any number
of binds are under way at once, each as long as it takes, and a request may be given up, which leaves
its attempt counted. What is given back is the last time of the client, whichever attempt it was
counted for, and `take` reads the clock before it has the lock: the budget holds in every run in which
what is given back is the attempt's own and the lock is had in the order of the readings.
-/
import WebAccess.Serve.Lookup
import WebAccess.Serve.Throttle
import Mathlib.Algebra.Order.BigOperators.Group.List

namespace WebAccess

open Window Wire Transition

open Ldap (DirError)

/-- `guessed_wrong`: a wrong password, or a lockout -/
def guessedWrong : Except DirError Account → Bool
  | .error .invalidCredentials => true
  | .error (.refused r) => !r.provesPassword
  | _ => false

/-- An attempt that was let through to a bind: the time `take` read and counted it at, the moment it was
let through, and what came of it. -/
structure Attempt where
  client : Text
  time : Nat
  through : Nat
  result : Option (Except DirError Account) := none

/-- It turned out to be a wrong password or a lockout. -/
def Attempt.wrong (a : Attempt) : Bool := a.result.any guessedWrong

def Attempt.givenBack (a : Attempt) : Bool := a.result.any fun r => !guessedWrong r

theorem Attempt.givenBack_of_wrong {a : Attempt} (h : a.wrong = true) : a.givenBack = false := by
  obtain ⟨r, hr, hwrong⟩ := (Option.any_eq_true ..).1 h
  simp [Attempt.givenBack, hr, hwrong]

/-- The directory sign-ins of all clients: the calls of `take` that have read the clock and wait for the lock,
and the attempts in the order they were let through. -/
structure Binds where
  now : Nat := 0
  throttle : Throttle
  taking : List (Text × Nat) := []
  attempts : List Attempt := []

/-- Time passes, a sign-in arrives, its `take` has the lock, the directory answers one. -/
inductive BindEvent
  | later (now : Nat)
  | arrives (client : Text)
  | takes (call : Nat)
  | answered (attempt : Nat) (result : Except DirError Account)

/-- The part of `check_directory` before the bind and the part after it. -/
def Binds.step (s : Binds) : BindEvent → Option Binds
  | .later now => if s.now ≤ now then some { s with now } else none
  | .arrives client => some { s with taking := s.taking ++ [(client, s.now)] }
  | .takes i => s.taking[i]?.bind fun (client, time) =>
    let take := s.throttle.takeAt client time
    some { s with
      throttle := take.2
      taking := s.taking.eraseIdx i
      attempts := if take.1 then s.attempts ++ [⟨client, time, s.now, none⟩] else s.attempts }
  | .answered i result => s.attempts[i]?.bind fun a =>
    if a.result.isNone then
      some { s with
        throttle := if guessedWrong result then s.throttle else s.throttle.refund a.client
        attempts := s.attempts.set i { a with result := some result } }
    else none

/-- The runs of a proxy that has just started, under a limit. -/
abbrev BindRun (limit : Nat) : List (Entry Binds BindEvent) → Binds → Prop :=
  Run (fun s e s' => s.step e = some s') { throttle := { limit } }

/-! ## The times that are kept -/

def countedTimes (client : Text) (attempts : List Attempt) : List Nat :=
  (attempts.filter fun a => a.client == client && !a.givenBack).map Attempt.time

/-- An earlier attempt counts against a later one. -/
def Attempt.counts (x y : Attempt) : Bool := y.client == x.client && !y.givenBack && alive throttleWindow x.time y.time

section Counted

variable {client : Text} {attempts : List Attempt} {a : Attempt} {i : Nat}

theorem countP_counts (result : Option (Except DirError Account)) (now through : Nat) :
    attempts.countP (Attempt.counts ⟨client, now, through, result⟩) =
      (live throttleWindow now (countedTimes client attempts)).length := by
  rw [List.countP_eq_length_filter, live, countedTimes, List.filter_map, List.length_map, List.filter_filter]
  congr 1
  refine List.filter_congr fun a _ => ?_
  simp only [Attempt.counts, Function.comp_apply, Bool.and_comm]

theorem countedTimes_snoc : countedTimes client (attempts ++ [a]) =
    countedTimes client attempts ++ if a.client == client && !a.givenBack then [a.time] else [] := by
  simp only [countedTimes, List.filter_append, List.map_append]
  congr 1
  rw [List.filter_singleton]
  cases a.client == client && !a.givenBack <;> rfl

theorem countedTimes_perm (client : Text) (h : attempts[i]? = some a) :
    (countedTimes client attempts).Perm
      ((if a.client == client && !a.givenBack then [a.time] else []) ++ countedTimes client (attempts.eraseIdx i)) := by
  obtain ⟨hi, rfl⟩ := List.getElem?_eq_some_iff.1 h
  have hperm := (List.getElem_cons_eraseIdx_perm hi).symm
  refine ((hperm.filter _).map _).trans (List.Perm.of_eq ?_)
  simp only [countedTimes, List.filter_cons]
  split <;> rfl

theorem countedTimes_set_perm (client : Text) (b : Attempt) (h : attempts[i]? = some a) :
    (countedTimes client (attempts.set i b)).Perm
      ((if b.client == client && !b.givenBack then [b.time] else []) ++ countedTimes client (attempts.eraseIdx i)) := by
  have hi := (List.getElem?_eq_some_iff.1 h).1
  refine (((List.set_perm_cons_eraseIdx hi b).filter _).map _).trans (List.Perm.of_eq ?_)
  simp only [countedTimes, List.filter_cons]
  split <;> rfl

end Counted

/-! ## Runs -/

/-- When an attempt of the client is given back, the last time of the client is the attempt's own, or there
is none left. -/
def GivesBackOwn (client : Text) (e : Entry Binds BindEvent) : Prop :=
  ∀ i result a, e.label = .answered i result → guessedWrong result = false → e.pre.attempts[i]? = some a →
    a.client = client → e.pre.throttle.failures client = [] ∨ (e.pre.throttle.failures client).getLast? = some a.time

/-- The time read by the call of `take` that has the lock in a step. -/
def Binds.takeTime (e : Entry Binds BindEvent) : Option Nat :=
  match e.label with
  | .takes i => e.pre.taking[i]?.map Prod.snd
  | _ => none

/-- The calls of `take` had the lock in the order in which they read the clock. -/
def Binds.InTurn (tr : List (Entry Binds BindEvent)) : Prop := (tr.filterMap Binds.takeTime).Pairwise (· ≤ ·)

/-- The times of a client are those of its attempts that were not given back, and each was let through while
fewer than the limit counted against it. No time that was counted is later than `now`, which may be behind
the clock. -/
structure Binds.Counted (client : Text) (limit now : Nat) (s : Binds) : Prop where
  limited : s.throttle.limit = limit
  past : s.throttle.Past now
  recent : (s.throttle.recent now client).Perm (live throttleWindow now (countedTimes client s.attempts))
  budget : Budgeted (fun a => a.client == client) Attempt.counts limit s.attempts

/-- What an answer changes of an attempt. -/
structure Attempt.Settles (x x' : Attempt) : Prop where
  client : x'.client = x.client
  time : x'.time = x.time
  givenBack : x.givenBack = true → x'.givenBack = true

namespace Binds

variable {client : Text} {limit now : Nat} {s s' : Binds}

theorem Counted.start (client : Text) (limit now : Nat) : Counted client limit now { throttle := { limit } } :=
  ⟨rfl, fun _ => .nil, .refl _, .nil⟩

theorem Counted.later {now' : Nat} (h : s.Counted client limit now) (hle : now ≤ now') :
    s.Counted client limit now' := by
  refine ⟨h.limited, h.past.later hle, ?_, h.budget⟩
  have hsame : live throttleWindow now' (live throttleWindow now (countedTimes client s.attempts)) =
      live throttleWindow now' (countedTimes client s.attempts) := live_live hle
  rw [Throttle.recent_later hle, ← hsame]
  exact h.recent.filter _

/-- A call of `take` has the lock, with the time it read. -/
theorem Counted.takes {c : Text} {through : Nat} {taking : List (Text × Nat)} (h : s.Counted client limit now)
    (hlimit : limit ≠ 0) :
    Counted client limit now { s with
      throttle := (s.throttle.takeAt c now).2
      taking
      attempts := if (s.throttle.takeAt c now).1 then s.attempts ++ [⟨c, now, through, none⟩] else s.attempts } := by
  obtain ⟨hroom, hlimit', hpast, hother, hself⟩ := Throttle.takeAt_spec c h.past (h.limited ▸ hlimit)
  cases htaken : (s.throttle.takeAt c now).1 with
  | true =>
    refine ⟨hlimit'.trans h.limited, hpast, ?_, ?_⟩
    · show ((s.throttle.takeAt c now).2.recent now client).Perm
        (live throttleWindow now (countedTimes client (s.attempts ++ [_])))
      rw [countedTimes_snoc]
      by_cases hc : c = client
      · subst hc
        rw [hself, if_pos htaken]
        have hnew : live throttleWindow now (countedTimes c s.attempts ++ [now]) =
            live throttleWindow now (countedTimes c s.attempts) ++ [now] := live_snoc_now Throttle.window_pos
        simp only [beq_self_eq_true, Attempt.givenBack, Option.any_none, Bool.not_false, Bool.and_self, if_true, hnew]
        exact h.recent.append_right _
      · rw [hother client (Ne.symm hc)]
        simp only [beq_eq_false_iff_ne.2 hc, Bool.false_and, Bool.false_eq_true, if_false, List.append_nil]
        exact h.recent
    · refine h.budget.snoc fun hmine => ?_
      obtain rfl : c = client := by simpa using hmine
      rw [countP_counts, ← h.recent.length_eq, ← h.limited]
      exact hroom.1 htaken
  | false =>
    refine ⟨hlimit'.trans h.limited, hpast, ?_, h.budget⟩
    show ((s.throttle.takeAt c now).2.recent now client).Perm _
    by_cases hc : client = c
    · subst hc
      rw [hself, htaken]
      exact h.recent
    · rw [hother client hc]
      exact h.recent

variable {i : Nat} {a : Attempt} {result : Except DirError Account}

theorem Counted.answered {th : Throttle} (h : s.Counted client limit now) (ha : s.attempts[i]? = some a)
    (hnone : a.result.isNone = true) (hlimit : th.limit = s.throttle.limit) (hpast : th.Past now)
    (hrecent : (th.recent now client).Perm
      (live throttleWindow now (countedTimes client (s.attempts.set i { a with result := some result })))) :
    Counted client limit now { s with throttle := th, attempts := s.attempts.set i { a with result := some result } }
        := by
  have hpending : a.givenBack = false := by
    rw [Attempt.givenBack, Option.isNone_iff_eq_none.1 hnone]
    rfl
  have hsettles : List.Forall₂ Attempt.Settles s.attempts (s.attempts.set i { a with result := some result }) := by
    refine forall₂_set (fun x => ⟨rfl, rfl, id⟩) ha ⟨rfl, rfl, fun hback => ?_⟩
    rw [hpending] at hback
    cases hback
  refine ⟨hlimit.trans h.limited, hpast, hrecent, ?_⟩
  refine h.budget.changed hsettles (fun x x' hx => ?_) fun x x' y y' hx hy hcounts => ?_
  · rw [hx.client]
    exact id
  · simp only [Attempt.counts, hx.client, hx.time, hy.client, hy.time, Bool.and_eq_true, Bool.not_eq_true'] at hcounts ⊢
    refine ⟨⟨hcounts.1.1, ?_⟩, hcounts.2⟩
    rw [Bool.eq_false_iff]
    intro hback
    rw [hy.givenBack hback] at hcounts
    exact Bool.noConfusion hcounts.1.2

theorem Counted.wrong (h : s.Counted client limit now) (ha : s.attempts[i]? = some a) (hnone : a.result.isNone = true)
    (hwrong : guessedWrong result = true) :
    Counted client limit now { s with attempts := s.attempts.set i { a with result := some result } } := by
  refine h.answered ha hnone rfl h.past (h.recent.trans ?_)
  refine ((countedTimes_perm client ha).trans ?_).filter _
  refine List.Perm.trans (List.Perm.of_eq ?_) (countedTimes_set_perm client _ ha).symm
  simp [Attempt.givenBack, Option.isNone_iff_eq_none.1 hnone, hwrong]

theorem Counted.refund (h : s.Counted client limit now) (ha : s.attempts[i]? = some a) (hnone : a.result.isNone = true)
    (hright : guessedWrong result = false)
    (hown : a.client = client → s.throttle.failures client = [] ∨ (s.throttle.failures client).getLast? = some a.time) :
    Counted client limit now { s with
      throttle := s.throttle.refund a.client
      attempts := s.attempts.set i { a with result := some result } } := by
  have hpast : (s.throttle.refund a.client).Past now :=
    h.past.put ((h.past a.client).sublist (List.dropLast_sublist _))
  refine h.answered ha hnone rfl hpast ?_
  have hbefore := countedTimes_perm client ha
  have hafter := countedTimes_set_perm client { a with result := some result } ha
  have hgiven : ({ a with result := some result } : Attempt).givenBack = true := by
    simp [Attempt.givenBack, hright]
  have hpending : a.givenBack = false := by
    rw [Attempt.givenBack, Option.isNone_iff_eq_none.1 hnone]
    rfl
  simp only [hgiven, Bool.not_true, Bool.and_false, Bool.false_eq_true, if_false, List.nil_append] at hafter
  simp only [hpending, Bool.not_false, Bool.and_true] at hbefore
  refine List.Perm.trans ?_ (hafter.filter _).symm
  have hrecent := h.recent.trans (hbefore.filter _)
  by_cases hc : a.client = client
  · rw [if_pos (beq_iff_eq.2 hc), List.filter_append] at hrecent
    show (live throttleWindow now ((s.throttle.put a.client _).failures client)).Perm _
    rw [hc, Throttle.failures_put_self]
    rcases hown hc with hempty | hlast
    · rw [Throttle.recent, hempty] at hrecent
      rw [hempty]
      have hnil := List.append_eq_nil_iff.1 (List.nil_perm.1 hrecent)
      exact List.Perm.of_eq hnil.2.symm
    · have hsplit : s.throttle.failures client = (s.throttle.failures client).dropLast ++ [a.time] := by
        obtain ⟨init, hinit⟩ := List.getLast?_eq_some_iff.1 hlast
        rw [hinit, List.dropLast_concat]
      rw [Throttle.recent, hsplit, live, List.filter_append] at hrecent
      exact (List.perm_append_right_iff _).1 (hrecent.trans List.perm_append_comm)
  · rw [if_neg (by simpa using hc), List.nil_append] at hrecent
    have hsame : (s.throttle.refund a.client).recent now client = s.throttle.recent now client :=
      Throttle.recent_put_ne (Ne.symm hc) _
    rw [hsame]
    exact hrecent

theorem Counted.step {e : BindEvent} (h : s.Counted client limit now) (hlimit : limit ≠ 0) (hstep : s.step e = some s')
    (hturn : takeTime ⟨s, e, s'⟩ = none ∨ takeTime ⟨s, e, s'⟩ = some now) (hown : GivesBackOwn client ⟨s, e, s'⟩) :
    s'.Counted client limit now := by
  cases e with
  | later now' =>
    obtain ⟨-, hs'⟩ := Option.ite_none_right_eq_some.1 hstep
    cases hs'
    exact ⟨h.limited, h.past, h.recent, h.budget⟩
  | arrives c =>
    cases hstep
    exact ⟨h.limited, h.past, h.recent, h.budget⟩
  | takes i =>
    obtain ⟨⟨c, time⟩, hcall, hs'⟩ := Option.bind_eq_some_iff.1 hstep
    obtain rfl : time = now := by simpa [takeTime, hcall] using hturn
    cases hs'
    exact h.takes hlimit
  | answered i result =>
    obtain ⟨a, ha, hnone, rfl⟩ := bind_ite_eq_some.1 hstep
    cases hwrong : guessedWrong result with
    | true => exact h.wrong ha hnone hwrong
    | false => exact h.refund ha hnone hwrong (hown i result a rfl hwrong ha)

/-- The times are counted up to every moment that no time read before is later than. -/
theorem counted {tr : List (Entry Binds BindEvent)} (run : BindRun limit tr s) (hlimit : limit ≠ 0) :
    InTurn tr → (∀ e ∈ tr, GivesBackOwn client e) → ∀ now, (∀ t ∈ tr.filterMap takeTime, t ≤ now) →
      s.Counted client limit now := by
  refine run.inTurn (.start client limit) (fun _ _ _ h hle => h.later hle) ?_
  exact fun _ _ _ _ h hstep hturn hown => h.step hlimit hstep hturn hown

/-- No call read a time later than the moment it has the lock. -/
theorem time_le_through {tr : List (Entry Binds BindEvent)} (run : BindRun limit tr s) :
    (∀ w ∈ s.taking, w.2 ≤ s.now) ∧ ∀ a ∈ s.attempts, a.time ≤ a.through := by
  refine run.invariant (I := fun s => (∀ w ∈ s.taking, w.2 ≤ s.now) ∧ ∀ a ∈ s.attempts, a.time ≤ a.through)
    ⟨nofun, nofun⟩ ?_
  intro s e s' ⟨htaking, hattempts⟩ hstep
  cases e with
  | later now =>
    obtain ⟨hle, hs'⟩ := Option.ite_none_right_eq_some.1 hstep
    cases hs'
    exact ⟨fun w hw => Nat.le_trans (htaking w hw) hle, hattempts⟩
  | arrives c =>
    cases hstep
    refine ⟨fun w hw => ?_, hattempts⟩
    rcases mem_snoc.1 hw with hw | rfl
    · exact htaking w hw
    · exact Nat.le_refl _
  | takes i =>
    obtain ⟨⟨c, time⟩, hcall, hs'⟩ := Option.bind_eq_some_iff.1 hstep
    cases hs'
    refine ⟨fun w hw => htaking w (List.mem_of_mem_eraseIdx hw), fun a ha => ?_⟩
    simp only at ha
    split at ha
    · rcases mem_snoc.1 ha with ha | rfl
      · exact hattempts a ha
      · exact htaking _ (List.mem_of_getElem? hcall)
    · exact hattempts a ha
  | answered i result =>
    obtain ⟨a, ha, -, rfl⟩ := bind_ite_eq_some.1 hstep
    refine ⟨htaking, fun b hb => ?_⟩
    rcases List.mem_or_eq_of_mem_set hb with hb | rfl
    · exact hattempts b hb
    · exact hattempts a (List.mem_of_getElem? ha)

end Binds

/-- How many attempts of a client that were counted in a window were wrong. -/
def wrongFrom (client : Text) (start : Nat) (s : Binds) : Nat :=
  s.attempts.countP fun a => a.client == client && a.wrong && decide (start ≤ a.time) &&
    decide (a.time < start + throttleWindow)

/-- How many attempts of a client that were let through between two moments were wrong. -/
def wrongThrough (client : Text) (start stop : Nat) (s : Binds) : Nat :=
  s.attempts.countP fun a => a.client == client && a.wrong && decide (start ≤ a.through) && decide (a.through < stop)

/-- The budget of an address is never overrun, where the lock is had in turn and each attempt that is given back
is the last one counted for its client: in every window of five minutes at most the limit of the attempts
counted in it turn out to be wrong passwords or lockouts. By the moment they were let through it is the same
for a window that is shorter by as much as a call waited for the lock. -/
theorem address_budget {limit : Nat} {client : Text} {tr : List (Entry Binds BindEvent)} {s : Binds}
    (positive : 0 < limit) (run : BindRun limit tr s) (turn : Binds.InTurn tr) (own : ∀ e ∈ tr, GivesBackOwn client e)
    (start : Nat) :
    wrongFrom client start s ≤ limit ∧
    ∀ wait, (∀ a ∈ s.attempts, a.client = client → a.through ≤ a.time + wait) →
      wrongThrough client start (start + throttleWindow - wait) s ≤ limit := by
  have hcounted := Binds.counted run (Nat.ne_of_gt positive) turn own _ fun t ht => List.le_sum_of_mem ht
  have hbudget : ∀ start, wrongFrom client start s ≤ limit := by
    intro start
    refine hcounted.budget.countP_le (fun x _ hx => ?_) fun before x after heq hx y hy hp => ?_
    · simp only [Bool.and_eq_true] at hx
      exact hx.1.1.1
    · simp only [Bool.and_eq_true, decide_eq_true_eq, beq_iff_eq] at hx hp
      obtain ⟨⟨⟨hxclient, -⟩, -⟩, hxend⟩ := hx
      obtain ⟨⟨⟨hyclient, hywrong⟩, hystart⟩, -⟩ := hp
      simp only [Attempt.counts, Bool.and_eq_true, beq_iff_eq, Bool.not_eq_true', alive, decide_eq_true_eq]
      refine ⟨⟨hyclient.trans hxclient.symm, Attempt.givenBack_of_wrong hywrong⟩, ?_⟩
      have hwindow := Throttle.window_pos
      omega
  refine ⟨hbudget start, fun wait hwait => Nat.le_trans ?_ (hbudget (start - wait))⟩
  refine List.countP_mono_left fun a ha hp => ?_
  simp only [Bool.and_eq_true, decide_eq_true_eq, beq_iff_eq] at hp ⊢
  have hthrough := hwait a ha hp.1.1.1
  have htime := (Binds.time_le_through run).2 a ha
  exact ⟨⟨hp.1.1, by omega⟩, by omega⟩

/-- Whether an attempt that is given back is the last of its client. -/
def givesBackOwn (client : Text) (e : Entry Binds BindEvent) : Bool :=
  match e.label with
  | .answered i result => guessedWrong result || e.pre.attempts[i]?.all fun a =>
    a.client != client || (e.pre.throttle.failures client).getLast? == some a.time
  | _ => true

theorem givesBackOwn_of_all {client : Text} {tr : List (Entry Binds BindEvent)}
    (h : tr.all (givesBackOwn client) = true) : ∀ e ∈ tr, GivesBackOwn client e := by
  intro e he i result a hlabel hright ha hclient
  have hown := List.all_eq_true.1 h e he
  simp only [givesBackOwn, hlabel, hright, ha, hclient, Option.all_some, Bool.false_or, bne_self_eq_false,
    beq_iff_eq] at hown
  exact .inr hown

/-- A sign-in arrives and its `take` has the lock at once. -/
def tried (client : Text) : List BindEvent := [.arrives client, .takes 0]

def someAccount : Except DirError Account := .ok ⟨['a'], none, ['S'], false, false⟩

/-- Two attempts are let through; the second is given back, the first was wrong. -/
def oneWrong : List BindEvent :=
  tried ['c'] ++ tried ['c'] ++ [.answered 1 someAccount, .answered 0 (.error .invalidCredentials)] ++ tried ['c']

/-- An attempt that was given back makes room for a third, and two wrong passwords are the most. -/
theorem address_budget_two : ∃ s, BindRun 2 (trace Binds.step { throttle := { limit := 2 } } oneWrong) s ∧
    s.attempts.length = 3 ∧ wrongFrom ['c'] 0 s ≤ 2 := by
  obtain ⟨s, hrun, hs⟩ := run_of_exec Binds.step { throttle := { limit := 2 } } oneWrong
    (fun s => s.attempts.length == 3) (by decide +kernel)
  have hturn : Binds.InTurn (trace Binds.step { throttle := { limit := 2 } } oneWrong) := by
    unfold Binds.InTurn
    decide +kernel
  exact ⟨s, hrun, beq_iff_eq.1 hs,
    (address_budget (by decide) hrun hturn (givesBackOwn_of_all (by decide +kernel)) 0).1⟩

/-- An attempt is let through, another 299 seconds later, and then the first is answered with an account: the
time that goes is the second's. A second later the first's is out of the window, and two more are let
through. -/
def otherGivenBack : List BindEvent :=
  tried ['c'] ++ [.later (299 * 10 ^ 9)] ++ tried ['c'] ++ [.answered 0 someAccount, .later (300 * 10 ^ 9)] ++
    tried ['c'] ++
    tried ['c'] ++ [.answered 1 (.error .invalidCredentials), .answered 2 (.error .invalidCredentials),
      .answered 3 (.error .invalidCredentials)]

/-- Three wrong passwords are tried within a second under a limit of two. -/
theorem address_budget_overrun :
    ∃ s, BindRun 2 (trace Binds.step { throttle := { limit := 2 } } otherGivenBack) s ∧
      2 < wrongThrough ['c'] (299 * 10 ^ 9) (299 * 10 ^ 9 + throttleWindow) s := by
  obtain ⟨s, hrun, hs⟩ := run_of_exec Binds.step { throttle := { limit := 2 } } otherGivenBack
    (fun s => decide (2 < wrongThrough ['c'] (299 * 10 ^ 9) (299 * 10 ^ 9 + throttleWindow) s)) (by decide +kernel)
  exact ⟨s, hrun, of_decide_eq_true hs⟩

end WebAccess
