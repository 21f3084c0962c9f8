/-
The staging counter as the threads of all sessions use it (`Staging::reserve` and the drop of a
`Reservation` in `scan/clip.rs`). A reservation is a compare-exchange loop on a 64-bit counter, so
a thread works with what it read some time ago while others reserve and release. At the moment of
its swap it does what `Staging.reserve` does at once, which is how the clipboard task is modelled;
the counter is the sum of the live reservations, a refusal was right at some moment of the call,
and the loops get on as long as anybody takes turns.
-/
import Mathlib.Tactic.Linarith
import WebAccess.Lib.Retry
import WebAccess.Scan.Pool

namespace WebAccess.Scan

open Transition Retry

/-- What `reserve` makes of the value it read: `held.checked_add(bytes).filter(|n| *n <= self.max)` -/
def Staging.next (max : Nat) (bytes : UInt64) (held : Nat) : Option Nat :=
  ((⟨held, max⟩ : Staging).reserve bytes.toNat).map Staging.held

variable {bytes : UInt64}

theorem Staging.lt_of_next_eq_none {max : UInt64} {held : Nat} (h : next max.toNat bytes held = none) :
    max.toNat < held + bytes.toNat := by
  have hmax := max.toNat_lt
  by_contra hle
  have hroom : held + bytes.toNat < 2 ^ 64 ∧ held + bytes.toNat ≤ max.toNat := by omega
  have hsome : reserve ⟨held, max.toNat⟩ bytes.toNat = some _ := if_pos hroom
  rw [next, hsome] at h
  cases h

/-- The counter with the threads in their calls of `reserve`, and the bytes of every `Reservation`
that has not been dropped. -/
structure Contended (τ : Type*) where
  max : Nat
  shared : Shared τ Nat UInt64
  live : List UInt64

/-- A turn of a thread in `reserve`, or the drop of one of the live reservations. -/
inductive Contender (τ : Type*)
  | turn (t : τ) (a : Turn UInt64)
  | drop (i : Nat)

namespace Contended

variable {τ : Type*}

/-- The pool, as one that is not contended for sees it. -/
def staging (s : Contended τ) : Staging := ⟨s.shared.cell, s.max⟩

/-- Nothing reserved and nobody in a call. -/
def start (τ : Type*) (max : Nat) : Contended τ := ⟨max, ⟨0, fun _ => .ready⟩, []⟩

variable [DecidableEq τ]

def step (s : Contended τ) : Contender τ → Option (Contended τ)
  | .turn t a => (s.shared.turn (Staging.next s.max) t a).map fun shared =>
    { s with
      shared
      live := match a, shared.threads t with
        | .attempt, .returned (some bytes) => s.live ++ [bytes]
        | _, _ => s.live }
  | .drop i => s.live[i]?.map fun bytes =>
    { s with
      shared := { s.shared with cell := (s.staging.release (some bytes.toNat)).held }
      live := s.live.eraseIdx i }

variable {s s' : Contended τ} {c : Contender τ}

/-- What a step is: a turn that leaves the counter as it is, a swap, which is `Staging.reserve`
done at once, or a drop, which is `Staging.release`. -/
inductive Does (s : Contended τ) : Contender τ → Contended τ → Prop
  | quiet {t : τ} {a : Turn UInt64} {shared : Shared τ Nat UInt64}
      (took : Took (Staging.next s.max) s.shared t a shared) (same : shared.cell = s.shared.cell) :
      Does s (.turn t a) { s with shared }
  | reserved {t : τ} {bytes : UInt64} {shared : Shared τ Nat UInt64}
      (took : Took (Staging.next s.max) s.shared t .attempt shared) (returns : Returns s.shared shared)
      (reserve : s.staging.reserve bytes.toNat = some ⟨shared.cell, s.max⟩) :
      Does s (.turn t .attempt) { s with shared, live := s.live ++ [bytes] }
  | released {i : Nat} {bytes : UInt64} (live : s.live[i]? = some bytes) :
      Does s (.drop i) { s with
        shared := { s.shared with cell := (s.staging.release (some bytes.toNat)).held }
        live := s.live.eraseIdx i }

variable {bytes : UInt64}

theorem next_eq_some {max held v : Nat} (h : Staging.next max bytes held = some v) :
    (⟨held, max⟩ : Staging).reserve bytes.toNat = some ⟨v, max⟩ := by
  obtain ⟨r, hr, rfl⟩ := Option.map_eq_some_iff.1 h
  obtain ⟨hlt, hle, rfl⟩ := Staging.reserve_eq_some.1 hr
  exact hr

theorem does (h : s.step c = some s') : s.Does c s' := by
  cases c with
  | turn t a =>
    obtain ⟨shared, hturn, rfl⟩ := Option.map_eq_some_iff.1 h
    have took := Shared.took hturn
    cases id took with
    | call | load => exact .quiet took rfl
    | gaveUp | missed =>
      simp only [Shared.put_threads_self]
      exact .quiet took rfl
    | swapped read fits =>
      simp only [Shared.put_threads_self]
      exact .reserved took (returns_put read) (next_eq_some fits)
  | drop i =>
    obtain ⟨bytes, hlive, rfl⟩ := Option.map_eq_some_iff.1 h
    exact .released hlive

theorem moves (h : s.step c = some s') : Moves (Staging.next s.max) s.shared s'.shared := by
  cases does h with
  | quiet took | reserved took => exact .turn took
  | released => exact .set _

theorem max_of_step (h : s.step c = some s') : s'.max = s.max := by cases does h <;> rfl

/-! ## The counter -/

/-- What the live reservations add up to. -/
def reserved (s : Contended τ) : Nat := (s.live.map UInt64.toNat).sum

/-- The counter is what the live reservations add up to, which is within the maximum and no more
than 64 bits can count. -/
structure Exact (s : Contended τ) : Prop where
  sum : s.staging.held = s.reserved
  within : s.staging.held ≤ s.max
  fits : s.staging.held < 2 ^ 64

omit [DecidableEq τ] in
theorem Exact.release {i : Nat} (h : s.Exact) (hlive : s.live[i]? = some bytes) :
    s.staging.held = bytes.toNat + (s.staging.release (some bytes.toNat)).held := by
  have hle : bytes.toNat ≤ s.staging.held :=
    (Nat.le_add_left _ _).trans_eq ((sum_map_eraseIdx UInt64.toNat hlive).trans h.sum.symm)
  rw [Staging.release_eq (r := some bytes.toNat) hle h.fits]
  exact (Nat.add_sub_cancel' hle).symm

theorem Exact.step (h : s.Exact) (hstep : s.step c = some s') : s'.Exact := by
  cases does hstep with
  | quiet took same => exact ⟨same.trans h.sum, same.trans_le h.within, same.trans_lt h.fits⟩
  | reserved took returns reserve =>
    obtain ⟨hlt, hle, hs⟩ := Staging.reserve_eq_some.1 reserve
    have hcell := congrArg Staging.held hs
    refine ⟨?_, hcell ▸ hle, hcell ▸ hlt⟩
    rw [Contended.reserved, List.map_append, List.sum_append, List.map_singleton, List.sum_singleton]
    exact hcell.trans (congrArg (· + _) h.sum)
  | released live =>
    have hheld := h.release live
    have hsplit := h.sum.trans (sum_map_eraseIdx UInt64.toNat live).symm
    have hwithin := h.within
    have hfits := h.fits
    refine ⟨?_, ?_, ?_⟩
    · exact Nat.add_right_cancel ((Nat.add_comm _ _).trans (hheld.symm.trans hsplit))
    · exact Nat.le_trans (hheld ▸ Nat.le_add_left _ _) hwithin
    · exact Nat.lt_of_le_of_lt (hheld ▸ Nat.le_add_left _ _) hfits

/-- How a step may change the counter, in plain numbers: by nothing, by the bytes of a new
reservation, or back by the bytes of one that is dropped. -/
inductive Counts (s s' : Contended τ) : Prop
  | same (held : s'.staging.held = s.staging.held) (live : s'.live = s.live)
  | up {bytes : UInt64} (held : s'.staging.held = s.staging.held + bytes.toNat) (live : s'.live = s.live ++ [bytes])
  | down {i : Nat} {bytes : UInt64} (dropped : s.live[i]? = some bytes)
      (held : s.staging.held = bytes.toNat + s'.staging.held) (live : s'.live = s.live.eraseIdx i)

theorem Exact.counts (h : s.Exact) (hstep : s.step c = some s') : Counts s s' := by
  cases does hstep with
  | quiet took same => exact .same same rfl
  | reserved took returns reserve => exact .up (congrArg Staging.held (Staging.reserve_eq_some.1 reserve).2.2) rfl
  | released live => exact .down live (h.release live) rfl

/-! ## Refusals -/

/-- A call of `reserve` by `t` returns `None`. -/
structure ReturnsNone (t : τ) (bytes : UInt64) (e : Entry (Contended τ) (Contender τ)) : Prop where
  label : e.label = .turn t .attempt
  call : (e.pre.shared.threads t).arg? = some bytes
  none : e.post.shared.threads t = .returned none

theorem ReturnsNone.read {t : τ} (h : ReturnsNone t bytes ⟨s, c, s'⟩) (hstep : s.step c = some s') :
    ∃ seen, s.shared.threads t = .read bytes seen ∧ Staging.next s.max bytes seen = .none := by
  obtain ⟨rfl, hcall, hnone⟩ := h
  obtain ⟨shared, hturn, rfl⟩ := Option.map_eq_some_iff.1 hstep
  have hnone : shared.threads t = .returned .none := hnone
  have hcall : (s.shared.threads t).arg? = some bytes := hcall
  cases Shared.took hturn with
  | gaveUp read stuck =>
    rw [read] at hcall
    cases hcall
    exact ⟨_, read, stuck⟩
  | swapped | missed =>
    rw [Shared.put_threads_self] at hnone
    cases hnone

/-! ## Progress -/

variable [Fintype τ]

/-- The turns and drops that are left before a call returns. -/
def left (s : Contended τ) : Nat := s.shared.left + s.live.length * (Fintype.card τ + 1)

theorem left_lt (hstep : s.step c = some s') (hno : ¬ Returns s.shared s'.shared) : s'.left < s.left := by
  cases does hstep with
  | quiet took same => exact Nat.add_lt_add_right (took.left_lt hno) _
  | reserved took returns reserve => exact absurd returns hno
  | @released i bytes live =>
    have hset := Shared.left_set s.shared (s.staging.release (some bytes.toNat)).held
    have hlen : (s.live.eraseIdx i).length + 1 = s.live.length :=
      List.length_eraseIdx_add_one (List.getElem?_eq_some_iff.1 live).1
    calc _ ≤ s.shared.left + Fintype.card τ + (s.live.eraseIdx i).length * (Fintype.card τ + 1) :=
          Nat.add_le_add_right hset _
      _ < s.shared.left + ((s.live.eraseIdx i).length + 1) * (Fintype.card τ + 1) := by linarith
      _ = s.left := by rw [hlen]; rfl

end Contended

/-! ## Every run -/

variable {τ : Type*} [DecidableEq τ]

/-- The runs of any threads on a counter of which nothing is reserved. -/
abbrev ContendedRun (max : UInt64) : List (Entry (Contended τ) (Contender τ)) → Contended τ → Prop :=
  Run (fun s c s' => s.step c = some s') (Contended.start τ max.toNat)

variable {max : UInt64} {tr : List (Entry (Contended τ) (Contender τ))} {s : Contended τ}

theorem Contended.max_of_run (hrun : ContendedRun max tr s) : s.max = max.toNat :=
  hrun.invariant rfl fun _ _ _ hmax hstep => (max_of_step hstep).trans hmax

theorem Contended.exact_of_run (hrun : ContendedRun max tr s) : s.Exact :=
  hrun.invariant ⟨rfl, Nat.zero_le _, Nat.two_pow_pos 64⟩ fun _ _ _ h hstep => h.step hstep

theorem Contended.read_during (hrun : ContendedRun max tr s) {t : τ} {seen : Nat}
    (hread : s.shared.threads t = .read bytes seen) :
    ∃ tr₁ e tr₂, tr = tr₁ ++ e :: tr₂ ∧ e.pre.staging.held = seen ∧
      ∀ e' ∈ e :: tr₂, (e'.pre.shared.threads t).arg? = some bytes := by
  have hmax : ∀ e ∈ tr, e.pre.max = max.toNat := by
    intro e he
    obtain ⟨tr₁, tr₂, -, hbefore⟩ := hrun.exists_before he
    exact max_of_run hbefore
  have hmoves : ∀ (s : Contended τ) c s', s.step c = some s' ∧ s.max = max.toNat →
      Moves (Staging.next max.toNat) s.shared s'.shared := by
    rintro s c s' ⟨hstep, hs⟩
    exact hs ▸ moves hstep
  exact Retry.Run.read_during (hrun.restrict hmax) hmoves (fun t => rfl) hread

variable [Fintype τ]

/-- The staging counter is exact under contention. In every run of any threads: the counter is the
sum of the live reservations and within the maximum, and no step wraps; `reserve` returns `None`
only if the amount did not fit at some moment of the call; and however the turns and drops are
dealt out, no more than a bounded number of them pass before a call returns. -/
theorem reserve_exact (hrun : ContendedRun max tr s) :
    (s.staging.held = s.reserved ∧ s.staging.held ≤ max.toNat ∧ ∀ e ∈ tr, Contended.Counts e.pre e.post) ∧
    (∀ tr₁ e tr₂ t bytes, tr = tr₁ ++ e :: tr₂ → Contended.ReturnsNone t bytes e →
      ∃ tr₀ m rest, tr₁ = tr₀ ++ m :: rest ∧ max.toNat < m.pre.staging.held + bytes.toNat ∧
        ∀ e' ∈ m :: rest, (e'.pre.shared.threads t).arg? = some bytes) ∧
    ∀ tr' s', Run (fun s c s' => s.step c = some s') s tr' s' →
      (∀ e ∈ tr', ¬ Returns e.pre.shared e.post.shared) →
      tr'.length ≤ 2 * Fintype.card τ + s.live.length * (Fintype.card τ + 1) := by
  have hexact := Contended.exact_of_run hrun
  refine ⟨⟨hexact.sum, Contended.max_of_run hrun ▸ hexact.within, fun e he => ?_⟩, ?_, ?_⟩
  · obtain ⟨tr₁, tr₂, -, hbefore⟩ := hrun.exists_before he
    exact (Contended.exact_of_run hbefore).counts (hrun.step_of_mem he)
  · rintro tr₁ e tr₂ t bytes rfl hnone
    obtain ⟨hbefore, hstep⟩ := hrun.before
    obtain ⟨seen, hread, hstuck⟩ := hnone.read hstep
    obtain ⟨tr₀, m, rest, rfl, hheld, hduring⟩ := Contended.read_during hbefore hread
    refine ⟨tr₀, m, rest, rfl, ?_, hduring⟩
    rw [Contended.max_of_run hbefore] at hstuck
    rw [hheld]
    exact Staging.lt_of_next_eq_none hstuck
  · intro tr' s' hmore hnone
    have hlen := hmore.length_le (m := Contended.left) fun e he =>
      Contended.left_lt (hmore.step_of_mem he) (hnone e he)
    exact (Nat.le_of_add_right_le hlen).trans (Nat.add_le_add_right (Shared.left_le _) _)

/-- Two threads read an empty counter and both want six of ten bytes. The first swaps; the second
misses, finds that its six bytes do not fit and returns `None`; then the reservation is dropped. -/
def twoContenders : List (Contender (Fin 2)) :=
  [.turn 0 (.call 6), .turn 1 (.call 6), .turn 0 .load, .turn 1 .load, .turn 0 .attempt, .turn 1 .attempt,
    .turn 1 .attempt, .drop 0]

/-- Of two that reserve at once, one is refused in the end. -/
theorem reserve_exact_two : ∃ s, ContendedRun 10 (trace Contended.step (Contended.start (Fin 2) 10) twoContenders) s ∧
    s.shared.threads 1 = .returned none ∧ s.staging.held = s.reserved ∧
    ∀ tr' s', Run (fun s c s' => s.step c = some s') s tr' s' →
      (∀ e ∈ tr', ¬ Returns e.pre.shared e.post.shared) → tr'.length ≤ 4 + s.live.length * 3 := by
  obtain ⟨s, hrun, hnone⟩ := run_of_exec Contended.step (Contended.start (Fin 2) 10) twoContenders
    (fun s => decide (s.shared.threads 1 = .returned none)) (by decide +kernel)
  have hrun : ContendedRun 10 (trace Contended.step (Contended.start (Fin 2) 10) twoContenders) s := hrun
  obtain ⟨⟨hsum, -⟩, -, hbound⟩ := reserve_exact hrun
  exact ⟨s, hrun, of_decide_eq_true hnone, hsum, hbound⟩

end WebAccess.Scan
