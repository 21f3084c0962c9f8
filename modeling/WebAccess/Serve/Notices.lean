/-
What a page hears of the file scan (`scan/mod.rs`, `my_notices` of `web.rs`). One sequence of numbers serves every
user's queue, and a page asks after the newest number it has seen of all of them. Between two polls it hears the newest
of the notices pushed for its user, as many as are kept, and it hears each of them once.
-/
import Mathlib.Data.List.Induction
import WebAccess.Serve.Registry

namespace WebAccess

open Wire

/-! ## A page and the pushes around it -/

/-- What happens to the notices: one is pushed for a user, or the page asks. -/
inductive PageEvent
  | push (userId : Int) (text : Text) (bad : Bool) (database : Nat)
  | poll
  deriving DecidableEq

/-- The notices, the number the page asks after, and what each of its polls was answered with. -/
structure Page where
  notices : Notices := {}
  after : Nat := 0
  received : List (List Notice) := []

namespace Page

variable (userId : Int)

/-- One event, of the page of a user; a poll is `my_notices`, asked after the number it returned last. -/
def step (p : Page) : PageEvent → Page
  | .push forUser text bad database => { p with notices := p.notices.push forUser text bad database }
  | .poll =>
    let (notices, last) := p.notices.since userId p.after
    { p with after := last, received := p.received ++ [notices] }

/-- The page after a sequence of events, from the start of the service. -/
def run (events : List PageEvent) : Page := events.foldl (step userId) {}

end Page

/-! ## What has been pushed -/

namespace PageEvent

/-- How many pushes there are, for whomever. -/
def pushes : List PageEvent → Nat
  | [] => 0
  | push .. :: rest => pushes rest + 1
  | poll :: rest => pushes rest

/-- The notices pushed for a user, in order, each with its number; `n` is the newest number before. -/
def own (userId : Int) (n : Nat) : List PageEvent → List Notice
  | [] => []
  | push forUser text bad database :: rest =>
    if forUser = userId then ⟨n + 1, text, bad, database⟩ :: own userId (n + 1) rest else own userId (n + 1) rest
  | poll :: rest => own userId n rest

/-- A poll has just been made, or nothing has happened yet. -/
def JustPolled (events : List PageEvent) : Prop := events = [] ∨ ∃ earlier, events = earlier ++ [poll]

variable {userId : Int} {n : Nat} {e : PageEvent} {events rest : List PageEvent}

theorem pushes_append (events rest : List PageEvent) : pushes (events ++ rest) = pushes events + pushes rest := by
  fun_induction pushes events with
  | case1 => simp
  | case2 _ _ _ _ _ ih => rw [List.cons_append, pushes, ih]; omega
  | case3 _ ih => rw [List.cons_append, pushes, ih]

theorem own_append (userId : Int) (n : Nat) (events rest : List PageEvent) :
    own userId n (events ++ rest) = own userId n events ++ own userId (n + pushes events) rest := by
  induction events generalizing n with
  | nil => rfl
  | cons e events ih =>
    cases e with
    | poll => exact ih n
    | push =>
      simp only [List.cons_append, own, pushes, ih (n + 1), Nat.add_right_comm n 1, Nat.add_assoc]
      split <;> rfl

theorem own_bounds {notice : Notice} (h : notice ∈ own userId n events) :
    n < notice.seq ∧ notice.seq ≤ n + pushes events := by
  induction events generalizing n with
  | nil => cases h
  | cons e events ih =>
    cases e with
    | poll => exact ih h
    | push forUser text bad database =>
      rw [pushes]
      have hrest := @ih (n + 1)
      rw [own] at h
      split at h
      · rcases List.mem_cons.1 h with rfl | h
        · exact ⟨Nat.lt_succ_self n, by simp only; omega⟩
        · have := hrest h
          omega
      · have := hrest h
        omega

theorem own_increasing (userId : Int) (n : Nat) (events : List PageEvent) :
    (own userId n events).Pairwise fun a b => a.seq < b.seq := by
  induction events generalizing n with
  | nil => exact .nil
  | cons e events ih =>
    cases e with
    | poll => exact ih n
    | push =>
      rw [own]
      split
      · exact .cons (fun notice h => (own_bounds h).1) (ih (n + 1))
      · exact ih (n + 1)

theorem exists_justPolled (events : List PageEvent) :
    ∃ start between, events = start ++ between ∧ JustPolled start ∧ poll ∉ between := by
  induction events using List.reverseRecOn with
  | nil => exact ⟨[], [], rfl, .inl rfl, nofun⟩
  | append_singleton events e ih =>
    obtain ⟨start, between, rfl, hstart, hbetween⟩ := ih
    by_cases he : e = poll
    · exact ⟨start ++ between ++ [e], [], by simp, .inr ⟨start ++ between, by rw [he]⟩, nofun⟩
    · exact ⟨start, between ++ [e], by simp, hstart, by simp [hbetween, Ne.symm he]⟩

end PageEvent

/-! ## What is kept -/

namespace Page

/-- The newest of a list of notices, as many as a queue keeps. -/
def kept (notices : List Notice) : List Notice := notices.drop (notices.length - noticesKept)

theorem length_kept (notices : List Notice) : (kept notices).length ≤ noticesKept := by
  rw [kept, List.length_drop]
  omega

theorem kept_suffix (notices : List Notice) : kept notices <:+ notices := List.drop_suffix ..

theorem kept_append (older newer : List Notice) :
    kept (older ++ newer) = older.drop (older.length + newer.length - noticesKept) ++ kept newer := by
  rw [kept, List.length_append, List.drop_append, kept]
  congr 2
  omega

theorem kept_kept_append (older newer : List Notice) : kept (kept older ++ newer) = kept (older ++ newer) := by
  rw [kept_append, kept_append, kept, List.drop_drop, List.length_drop]
  congr 2
  omega

/-! ## What is received -/

open PageEvent

variable {userId : Int} {events start between : List PageEvent}

theorem run_append (events rest : List PageEvent) :
    run userId (events ++ rest) = rest.foldl (step userId) (run userId events) :=
  List.foldl_append ..

theorem run_snoc (events : List PageEvent) (e : PageEvent) :
    run userId (events ++ [e]) = step userId (run userId events) e := by
  rw [run_append, List.foldl_cons, List.foldl_nil]

/-- What the notices are after any events: the newest number counts the pushes, and each user's queue is the newest of
what has been pushed for them. -/
structure Holds (events : List PageEvent) (s : Notices) : Prop where
  last : s.last = pushes events
  of : ∀ u, s.of u = kept (own u 0 events)

theorem Holds.push {s : Notices} (h : Holds events s) (forUser : Int) (text : Text) (bad : Bool) (database : Nat) :
    Holds (events ++ [.push forUser text bad database]) (s.push forUser text bad database) where
  last := by
    rw [pushes_append]
    exact congrArg (· + 1) h.last
  of u := by
    rw [own_append, Nat.zero_add]
    by_cases hu : forUser = u
    · subst hu
      simp only [Notices.push, Function.update_self, own, if_pos, h.of, h.last]
      exact kept_kept_append ..
    · simp only [Notices.push, Function.update_of_ne (Ne.symm hu), own, if_neg hu, List.append_nil, h.of]

theorem holds_run (userId : Int) (events : List PageEvent) : Holds events (run userId events).notices := by
  induction events using List.reverseRecOn with
  | nil => exact ⟨rfl, fun _ => rfl⟩
  | append_singleton events e ih =>
    rw [run_snoc]
    cases e with
    | push => exact ih.push ..
    | poll => exact ⟨by rw [pushes_append]; exact ih.last, fun u => by rw [own_append]; simpa [own, step] using ih.of u⟩

theorem run_quiet (start : List PageEvent) (h : poll ∉ between) :
    (run userId (start ++ between)).after = (run userId start).after ∧
      (run userId (start ++ between)).received = (run userId start).received := by
  induction between using List.reverseRecOn with
  | nil => simp
  | append_singleton between e ih =>
    rw [List.mem_append, not_or] at h
    rw [← List.append_assoc, run_snoc]
    cases e with
    | push => exact ih h.1
    | poll => exact absurd (List.mem_singleton.2 rfl) h.2

theorem after_run (hstart : JustPolled start) (h : poll ∉ between) :
    (run userId (start ++ between)).after = pushes start := by
  rw [(run_quiet start h).1]
  rcases hstart with rfl | ⟨earlier, rfl⟩
  · rfl
  · rw [run_snoc, pushes_append]
    exact (holds_run userId earlier).last

theorem filter_kept (userId : Int) (start between : List PageEvent) :
    (kept (own userId 0 (start ++ between))).filter (fun n => decide (pushes start < n.seq)) =
      kept (own userId (pushes start) between) := by
  rw [own_append, kept_append, List.filter_append, Nat.zero_add]
  have holder : ∀ notice ∈ (own userId 0 start).drop
      ((own userId 0 start).length + (own userId (pushes start) between).length - noticesKept),
      ¬decide (pushes start < notice.seq) = true := fun notice hmem => by
    have := (own_bounds (List.mem_of_mem_drop hmem)).2
    simp only [decide_eq_true_eq]
    omega
  have hnewer : ∀ notice ∈ kept (own userId (pushes start) between), decide (pushes start < notice.seq) = true :=
    fun notice hmem => decide_eq_true (own_bounds ((kept_suffix _).subset hmem)).1
  rw [List.filter_eq_nil_iff.2 holder, List.filter_eq_self.2 hnewer, List.nil_append]

theorem run_poll (hstart : JustPolled start) (h : poll ∉ between) :
    (run userId (start ++ between ++ [poll])).received =
      (run userId start).received ++ [kept (own userId (pushes start) between)] := by
  rw [run_snoc, step, after_run hstart h]
  simp only [Notices.since, (run_quiet start h).2, (holds_run userId (start ++ between)).of, filter_kept]

theorem received_sublist (userId : Int) (events : List PageEvent) :
    (run userId events).received.flatten.Sublist (own userId 0 events) := by
  -- by the events since the last poll: what was received by then is a part of what was pushed by then
  suffices h : ∀ start, JustPolled start → (run userId start).received.flatten.Sublist (own userId 0 start) by
    obtain ⟨start, between, rfl, hstart, hbetween⟩ := exists_justPolled events
    rw [(run_quiet start hbetween).2, own_append]
    exact (h start hstart).trans (List.sublist_append_left ..)
  intro start
  induction hlen : start.length using Nat.strong_induction_on generalizing start with
  | _ len ih =>
    subst hlen
    rintro (rfl | ⟨earlier, rfl⟩)
    · exact .slnil
    · obtain ⟨start, between, rfl, hstart, hbetween⟩ := exists_justPolled earlier
      rw [run_poll hstart hbetween, List.flatten_append, own_append, own_append, List.flatten_singleton, Nat.zero_add]
      simp only [own, List.append_nil]
      exact (ih _ (by simp) start rfl hstart).append (kept_suffix _).sublist

theorem length_received (userId : Int) (events : List PageEvent) :
    (run userId events).received.length = events.count poll := by
  induction events using List.reverseRecOn with
  | nil => rfl
  | append_singleton events e ih =>
    rw [run_snoc, List.count_append, ← ih]
    cases e <;> simp [step]

theorem received_prefix (userId : Int) (events rest : List PageEvent) :
    (run userId events).received <+: (run userId (events ++ rest)).received := by
  induction rest using List.reverseRecOn with
  | nil => simp
  | append_singleton rest e ih =>
    rw [← List.append_assoc, run_snoc]
    cases e with
    | push => exact ih
    | poll => exact ih.trans (List.prefix_append ..)

/-- Notices are delivered once. Whatever is pushed for whomever between the polls of a page, the page receives
notices of its own user only, in the order they were pushed and none twice; the poll after `start` and the pushes
`between` receives what was pushed for the user between, less the oldest of it past what a queue keeps; and no queue
keeps more. -/
theorem notices_delivered_once (userId : Int) (events : List PageEvent) :
    ((run userId events).received.flatten.Sublist (own userId 0 events) ∧
      (own userId 0 events).Pairwise fun a b => a.seq < b.seq) ∧
    (∀ start between rest, events = start ++ between ++ poll :: rest → JustPolled start → poll ∉ between →
      (run userId events).received[start.count poll]? =
        some ((own userId (pushes start) between).drop ((own userId (pushes start) between).length - noticesKept))) ∧
    ∀ u, ((run userId events).notices.of u).length ≤ noticesKept := by
  refine ⟨⟨received_sublist userId events, own_increasing userId 0 events⟩, ?_, ?_⟩
  · rintro start between rest rfl hstart hbetween
    rw [List.append_cons]
    obtain ⟨later, hlater⟩ := received_prefix userId (start ++ between ++ [poll]) rest
    rw [← hlater, run_poll hstart hbetween, List.append_assoc, ← length_received userId start,
      List.getElem?_append_right (Nat.le_refl _), Nat.sub_self]
    rfl
  · intro u
    rw [(holds_run userId events).of]
    exact length_kept _

/-- Two pushes for the page's user and one for another one, before and after its first poll. -/
theorem notices_delivered_once_three : poll ∉ [push 5 "b" true 0, push 7 "c" false 0] ∧
    (run 7 [push 7 "a" false 0, poll, push 5 "b" true 0, push 7 "c" false 0, poll]).received[1]? =
      some [⟨3, "c", false, 0⟩] := by
  refine ⟨by decide, (notices_delivered_once 7 _).2.1 [push 7 "a" false 0, poll]
    [push 5 "b" true 0, push 7 "c" false 0] [] rfl (.inr ⟨[push 7 "a" false 0], rfl⟩) (by decide)⟩

end Page

end WebAccess
