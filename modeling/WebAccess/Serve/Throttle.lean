/-
`Throttle` of `auth.rs`: the failed sign-ins of the last five minutes, by key. A key is a username
for local accounts and a client address for directory sign-ins. What an operation makes of the times
of a key is said in terms of those that are live, since a time that is not is dropped whenever the
list is looked at and at no fixed moment.
-/
import WebAccess.Lib.Window
import WebAccess.Lib.Transition
import WebAccess.Wire.Text
import Mathlib.Logic.Function.Basic

namespace WebAccess

open Window Wire

def throttleFailures : Nat := 5

/-- `THROTTLE_WINDOW`; instants are counted in nanoseconds. -/
def throttleWindow : Nat := 5 * 60 * 10 ^ 9

/-- `Throttle`. A key that is not in the map has no times. -/
structure Throttle where
  failures : Text → List Nat := fun _ => []
  /-- 0 for no limit -/
  limit : Nat := throttleFailures

namespace Throttle

def put (th : Throttle) (key : Text) (times : List Nat) : Throttle :=
  { th with failures := Function.update th.failures key times }

/-- `map.retain`: a key whose last time is out of the window is removed. -/
def purge (th : Throttle) (now : Nat) : Throttle :=
  { th with failures := fun key =>
      if (th.failures key).getLast?.any (alive throttleWindow now) then th.failures key else [] }

def blockedAt (th : Throttle) (key : Text) (now : Nat) : Bool × Throttle :=
  let times := live throttleWindow now (th.failures key)
  (th.limit != 0 && decide (th.limit ≤ times.length), th.put key times)

/-- `take_at`: counts an attempt before it is made, unless the budget is spent. -/
def takeAt (th : Throttle) (key : Text) (now : Nat) : Bool × Throttle :=
  if th.limit = 0 then (true, th)
  else
    let th := th.purge now
    let times := live throttleWindow now (th.failures key)
    if th.limit ≤ times.length then (false, th.put key times) else (true, th.put key (times ++ [now]))

/-- `refund`: the last time of the key is taken off. -/
def refund (th : Throttle) (key : Text) : Throttle := th.put key (th.failures key).dropLast

def failAt (th : Throttle) (key : Text) (now : Nat) : Throttle :=
  let th := th.purge now
  th.put key (th.failures key ++ [now])

def clear (th : Throttle) (key : Text) : Throttle := th.put key []

def recent (th : Throttle) (now : Nat) (key : Text) : List Nat := live throttleWindow now (th.failures key)

def Past (th : Throttle) (now : Nat) : Prop := ∀ key, Window.Past now (th.failures key)

/-! ## What the operations do -/

variable {th : Throttle} {key k : Text} {now now' : Nat}

theorem window_pos : 0 < throttleWindow := by decide

@[simp] theorem limit_purge : (th.purge now).limit = th.limit := rfl
@[simp] theorem failures_put_self (times : List Nat) : (th.put key times).failures key = times :=
    Function.update_self ..
@[simp] theorem failures_put_ne (h : k ≠ key) (times : List Nat) : (th.put key times).failures k = th.failures k :=
  Function.update_of_ne h ..

theorem recent_put_self (times : List Nat) : (th.put key times).recent now key = live throttleWindow now times := by
  rw [recent, failures_put_self]

theorem recent_put_ne (h : k ≠ key) (times : List Nat) : (th.put key times).recent now k = th.recent now k := by
  rw [recent, recent, failures_put_ne h]

theorem recent_later (hle : now ≤ now') : th.recent now' key = live throttleWindow now' (th.recent now key) :=
  (live_live hle).symm

theorem Past.put {times : List Nat} (h : th.Past now) (htimes : Window.Past now times) :
    (th.put key times).Past now := by
  intro k
  by_cases hk : k = key
  · rw [hk, failures_put_self]
    exact htimes
  · rw [failures_put_ne hk]
    exact h k

theorem Past.later (h : th.Past now) (hle : now ≤ now') : th.Past now' := fun key => (h key).later hle

theorem Past.purge (h : th.Past now) : (th.purge now).Past now := by
  intro k
  show Window.Past now (if _ then _ else _)
  split
  · exact h k
  · exact .nil

theorem recent_purge (h : th.Past now) : (th.purge now).recent now k = th.recent now k := by
  show live throttleWindow now (if _ then _ else _) = _
  split
  · rfl
  · rename_i hlast
    exact (live_eq_nil (h k) (by simpa using hlast)).symm

theorem blockedAt_spec (key : Text) (h : th.Past now) :
    ((th.blockedAt key now).1 = true ↔ th.limit ≠ 0 ∧ th.limit ≤ (th.recent now key).length) ∧
    (th.blockedAt key now).2.limit = th.limit ∧ (th.blockedAt key now).2.Past now ∧
    ∀ k, (th.blockedAt key now).2.recent now k = th.recent now k := by
  refine ⟨by simp [blockedAt, recent], rfl, h.put ((h key).sublist List.filter_sublist), fun k => ?_⟩
  by_cases hk : k = key
  · subst hk
    exact (recent_put_self _).trans (live_live (Nat.le_refl _))
  · exact recent_put_ne hk _

theorem takeAt_eq (h : th.Past now) (hlimit : th.limit ≠ 0) :
    th.takeAt key now =
      if th.limit ≤ (th.recent now key).length then (false, (th.purge now).put key (th.recent now key))
      else (true, (th.purge now).put key (th.recent now key ++ [now])) := by
  have hrecent : live throttleWindow now ((th.purge now).failures key) = th.recent now key := recent_purge h
  unfold takeAt
  simp only [if_neg hlimit, limit_purge, hrecent]

theorem takeAt_spec (key : Text) (h : th.Past now) (hlimit : th.limit ≠ 0) :
    ((th.takeAt key now).1 = true ↔ (th.recent now key).length < th.limit) ∧
    (th.takeAt key now).2.limit = th.limit ∧ (th.takeAt key now).2.Past now ∧
    (∀ k, k ≠ key → (th.takeAt key now).2.recent now k = th.recent now k) ∧
    (th.takeAt key now).2.recent now key =
      if (th.takeAt key now).1 then th.recent now key ++ [now] else th.recent now key := by
  have hpast := h.purge
  have hrecent : Window.Past now (th.recent now key) := (h key).sublist List.filter_sublist
  by_cases hfull : th.limit ≤ (th.recent now key).length
  · rw [takeAt_eq h hlimit, if_pos hfull]
    refine ⟨by simpa using hfull, rfl, hpast.put hrecent, fun k hk => ?_, ?_⟩
    · rw [recent_put_ne hk, recent_purge h]
    · rw [recent_put_self]
      exact live_live (Nat.le_refl _)
  · rw [takeAt_eq h hlimit, if_neg hfull]
    refine ⟨by simpa using hfull, rfl, hpast.put hrecent.snoc, fun k hk => ?_, ?_⟩
    · rw [recent_put_ne hk, recent_purge h]
    · rw [recent_put_self, live_snoc_now window_pos]
      exact congrArg (· ++ [now]) (live_live (Nat.le_refl _))

theorem failAt_spec (key : Text) (h : th.Past now) :
    (th.failAt key now).limit = th.limit ∧ (th.failAt key now).Past now ∧
    (∀ k, k ≠ key → (th.failAt key now).recent now k = th.recent now k) ∧
    (th.failAt key now).recent now key = th.recent now key ++ [now] := by
  refine ⟨rfl, h.purge.put (h.purge key).snoc, fun k hk => ?_, ?_⟩
  · exact (recent_put_ne hk _).trans (recent_purge h)
  · refine (recent_put_self _).trans ?_
    rw [live_snoc_now window_pos]
    exact congrArg (· ++ [now]) (recent_purge h)

end Throttle

end WebAccess
