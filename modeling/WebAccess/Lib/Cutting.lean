/-
Machines that cut a stream into units as it arrives: bytes are fed to a state that buffers them,
and whole units are taken off it until none is left. The rule here is that where the feeds are cut
does not matter, for every machine whose answer, once it has one, does not change when more is fed.
-/
import Mathlib.Data.List.Basic

namespace WebAccess.Cutting

variable {σ β υ ε : Type*}

/-- A unit is taken off the front, or more has to arrive first, or the stream is no good. -/
abbrev Next (σ υ ε : Type*) := σ → Except ε (Option (υ × σ))

/-- Taking units off until none is left, at most `fuel` of them. -/
def drain (next : Next σ υ ε) : Nat → σ → Except ε (List υ × σ)
  | 0, s => .ok ([], s)
  | fuel + 1, s => do
    match ← next s with
    | none => pure ([], s)
    | some (u, s') =>
      let (us, t) ← drain next fuel s'
      pure (u :: us, t)

/-- What a machine needs for its units not to depend on the feeds: an answer stays when more is
fed behind it, and every unit takes something off what is buffered. -/
structure Stable (next : Next σ υ ε) (feed : σ → β → σ) (size : σ → Nat) : Prop where
  unit_feed : ∀ {s u s'} (b : β), next s = .ok (some (u, s')) → next (feed s b) = .ok (some (u, feed s' b))
  smaller : ∀ {s u s'}, next s = .ok (some (u, s')) → size s' < size s

/-- `us` are taken off `s` one after the other and `t` is left. -/
inductive Cuts (next : Next σ υ ε) : σ → List υ → σ → Prop
  | nil {s : σ} : Cuts next s [] s
  | cons {s s' t : σ} {u : υ} {us : List υ} :
      next s = .ok (some (u, s')) → Cuts next s' us t → Cuts next s (u :: us) t

variable {next : Next σ υ ε} {feed : σ → β → σ} {size : σ → Nat}

theorem Cuts.append {s m t : σ} {us vs : List υ} (h : Cuts next s us m) (h' : Cuts next m vs t) :
    Cuts next s (us ++ vs) t := by
  induction h with
  | nil => exact h'
  | cons hu _ ih => exact .cons hu (ih h')

theorem Cuts.fed (hs : Stable next feed size) {s t : σ} {us : List υ} (b : β) (h : Cuts next s us t) :
    Cuts next (feed s b) us (feed t b) := by
  induction h with
  | nil => exact .nil
  | cons hu _ ih => exact .cons (hs.unit_feed b hu) ih

/-- What `drain` takes off is cut, and with enough fuel nothing whole is left. -/
theorem cuts_of_drain (hs : Stable next feed size) :
    ∀ {fuel : Nat} {s t : σ} {us : List υ}, size s < fuel → drain next fuel s = .ok (us, t) →
      Cuts next s us t ∧ next t = .ok none
  | fuel + 1, s, t, us, hfuel, h => by
    unfold drain at h
    rcases hn : next s with e | _ | ⟨u, s'⟩ <;> rw [hn] at h
    · cases h
    · cases h
      exact ⟨.nil, hn⟩
    · rcases hd : drain next fuel s' with e | ⟨vs, t'⟩
      · simp [bind, Except.bind, hd] at h
      · simp only [bind, Except.bind, hd, pure, Except.pure, Except.ok.injEq, Prod.mk.injEq] at h
        obtain ⟨rfl, rfl⟩ := h
        have hsmall := hs.smaller hn
        obtain ⟨hcut, hleft⟩ := cuts_of_drain hs (by omega) hd
        exact ⟨.cons hn hcut, hleft⟩

theorem drain_of_cuts (hs : Stable next feed size) {s t : σ} {us : List υ} (h : Cuts next s us t)
    (hleft : next t = .ok none) : ∀ {fuel : Nat}, size s < fuel → drain next fuel s = .ok (us, t) := by
  induction h with
  | nil =>
    intro fuel hfuel
    obtain ⟨fuel, rfl⟩ : ∃ n, fuel = n + 1 := ⟨fuel - 1, by omega⟩
    simp [drain, hleft, bind, Except.bind, pure, Except.pure]
  | cons hu _ ih =>
    intro fuel hfuel
    obtain ⟨fuel, rfl⟩ : ∃ n, fuel = n + 1 := ⟨fuel - 1, by omega⟩
    have hsmall := hs.smaller hu
    simp [drain, hu, ih hleft (show size _ < fuel by omega), bind, Except.bind, pure, Except.pure]

/-! ## Feeds one after the other -/

/-- What is no good stays no good when more is fed. -/
def Lasting (next : Next σ υ ε) (feed : σ → β → σ) : Prop :=
  ∀ {s : σ} {e : ε} (b : β), next s = .error e → next (feed s b) = .error e

/-- Units are put in front of those a machine goes on to give. -/
def after (us : List υ) (r : Except ε (List υ × σ)) : Except ε (List υ × σ) := r.map fun r => (us ++ r.1, r.2)

@[simp]
theorem after_nil (r : Except ε (List υ × σ)) : after [] r = r := by
  cases r <;> rfl

/-- With enough fuel, draining is: one unit, and draining what is left. -/
theorem drain_unit (hs : Stable next feed size) {s s' : σ} {u : υ} (hu : next s = .ok (some (u, s'))) :
    ∀ {fuel : Nat}, size s < fuel → ∃ fuel', size s' < fuel' ∧ drain next fuel s = after [u] (drain next fuel' s') := by
  intro fuel hfuel
  obtain ⟨fuel, rfl⟩ : ∃ n, fuel = n + 1 := ⟨fuel - 1, by omega⟩
  have hsmall := hs.smaller hu
  refine ⟨fuel, by omega, ?_⟩
  simp only [drain, hu, bind, Except.bind, after]
  cases drain next fuel s' <;> rfl

/-- More fuel than enough changes nothing. -/
theorem drain_fuel (hs : Stable next feed size) :
    ∀ {fuel fuel' : Nat} {s : σ}, size s < fuel → size s < fuel' → drain next fuel s = drain next fuel' s
  | fuel + 1, fuel' + 1, s, h, h' => by
    unfold drain
    rcases hn : next s with e | _ | ⟨u, s'⟩
    · rfl
    · rfl
    · have hsmall := hs.smaller hn
      simp only [bind, Except.bind, drain_fuel hs (show size s' < fuel by omega) (show size s' < fuel' by omega)]

/-- Draining goes on from where units have been taken off. -/
theorem Cuts.drain (hs : Stable next feed size) {s m : σ} {us : List υ} (h : Cuts next s us m) :
    ∀ {fuel fuel' : Nat}, size s < fuel → size m < fuel' →
      Cutting.drain next fuel s = after us (Cutting.drain next fuel' m) := by
  induction h with
  | nil =>
    intro fuel fuel' h h'
    rw [after_nil]
    exact drain_fuel hs h h'
  | cons hu _ ih =>
    intro fuel fuel' h h'
    obtain ⟨fuel₁, hfuel₁, heq⟩ := drain_unit hs hu h
    rw [heq, ih hfuel₁ h']
    cases Cutting.drain next fuel' _ <;> rfl

/-- A stream that is no good is so behind the units that can be taken off. -/
theorem drain_error (hs : Stable next feed size) :
    ∀ {fuel : Nat} {s : σ} {e : ε}, size s < fuel → drain next fuel s = .error e →
      ∃ us m, Cuts next s us m ∧ next m = .error e
  | fuel + 1, s, e, hfuel, h => by
    unfold drain at h
    rcases hn : next s with e' | _ | ⟨u, s'⟩ <;> rw [hn] at h
    · cases h
      exact ⟨[], s, .nil, hn⟩
    · cases h
    · have hsmall := hs.smaller hn
      simp only [bind, Except.bind] at h
      rcases hd : drain next fuel s' with e' | r <;> rw [hd] at h
      · cases h
        obtain ⟨us, m, hcuts, hm⟩ := drain_error hs (show size s' < fuel by omega) hd
        exact ⟨u :: us, m, .cons hn hcuts, hm⟩
      · cases h

/-- Feeding in two goes is feeding at once. -/
theorem drain_feed (hs : Stable next feed size) (hl : Lasting next feed) {s : σ} {b : β} {fuel fuel' : Nat}
    (hfuel : size s < fuel) (hfuel' : size (feed s b) < fuel') :
    drain next fuel' (feed s b) = (drain next fuel s).bind fun r =>
      after r.1 (drain next (size (feed r.2 b) + 1) (feed r.2 b)) := by
  rcases hd : drain next fuel s with e | ⟨us, m⟩
  · obtain ⟨us, m, hcuts, hm⟩ := drain_error hs hfuel hd
    rw [(hcuts.fed hs b).drain hs hfuel' (Nat.lt_succ_self _)]
    simp only [Cutting.drain, hl b hm, bind, Except.bind]
    rfl
  · obtain ⟨hcuts, -⟩ := cuts_of_drain hs hfuel hd
    exact (hcuts.fed hs b).drain hs hfuel' (Nat.lt_succ_self _)

end WebAccess.Cutting
