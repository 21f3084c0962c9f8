/-
Byte strings, little- and big-endian numbers in them, and decoders that read from the front.
A decoder is a state function on the bytes still to read that may fail; what is read is taken off
the front. The rules say what reading back a written number or slice gives, so that a round trip
of a whole message is a rewrite per field.
-/
import Mathlib.Data.List.Basic
import Mathlib.Data.Nat.Bitwise
import Mathlib.Tactic.Ring

namespace WebAccess

theorem bind_ok {ε α β : Type} {m : Except ε α} {f : α → Except ε β} {b : β} (h : m >>= f = .ok b) :
    ∃ a, m = .ok a ∧ f a = .ok b := by
  cases m with
  | error e => cases h
  | ok a => exact ⟨a, rfl, h⟩

theorem bind_ok_iff {ε α β : Type} {m : Except ε α} {f : α → Except ε β} {b : β} :
    m >>= f = .ok b ↔ ∃ a, m = .ok a ∧ f a = .ok b :=
  ⟨bind_ok, fun ⟨a, hm, hf⟩ => by rw [hm]; exact hf⟩

namespace Codec

/-- A byte string, first byte at the head. -/
abbrev Bytes := List UInt8

/-! ## Numbers in bytes -/

/-- The number a byte string holds, least significant byte first. -/
def leNat : Bytes → Nat
  | [] => 0
  | b :: bs => b.toNat + 256 * leNat bs

/-- The number a byte string holds, most significant byte first. -/
def beNat (bs : Bytes) : Nat := leNat bs.reverse

/-- The low `w` bytes of a number, least significant first. -/
def leBytes : Nat → Nat → Bytes
  | 0, _ => []
  | w + 1, n => UInt8.ofNat n :: leBytes w (n / 256)

/-- The low `w` bytes of a number, most significant first. -/
def beBytes (w n : Nat) : Bytes := (leBytes w n).reverse

@[simp]
theorem length_leBytes : ∀ w n : Nat, (leBytes w n).length = w
  | 0, _ => rfl
  | w + 1, n => by simp [leBytes, length_leBytes w]

@[simp]
theorem length_beBytes (w n : Nat) : (beBytes w n).length = w := by simp [beBytes]

theorem leNat_leBytes_mod : ∀ w n : Nat, leNat (leBytes w n) = n % 256 ^ w
  | 0, n => by simp [leBytes, leNat, Nat.mod_one]
  | w + 1, n => by
    rw [leBytes, leNat, leNat_leBytes_mod w, pow_succ', Nat.mod_mul]
    simp

variable {w n : Nat} {bs rest : Bytes}

theorem leNat_leBytes (h : n < 256 ^ w) : leNat (leBytes w n) = n := by
  rw [leNat_leBytes_mod, Nat.mod_eq_of_lt h]

theorem leBytes_leNat : ∀ bs : Bytes, leBytes bs.length (leNat bs) = bs
  | [] => rfl
  | b :: bs => by
    have hb : b.toNat < 256 := b.toNat_lt
    have hlow : UInt8.ofNat (b.toNat + 256 * leNat bs) = b := by
      apply UInt8.toNat_inj.1
      simp only [UInt8.toNat_ofNat']
      omega
    have hhigh : (b.toNat + 256 * leNat bs) / 256 = leNat bs := by omega
    rw [leNat, List.length_cons, leBytes, hlow, hhigh, leBytes_leNat bs]

theorem beNat_beBytes (h : n < 256 ^ w) : beNat (beBytes w n) = n := by
  rw [beNat, beBytes, List.reverse_reverse, leNat_leBytes h]

theorem leNat_lt : ∀ bs : Bytes, leNat bs < 256 ^ bs.length
  | [] => by simp [leNat]
  | b :: bs => by
    have hb : b.toNat < 256 := b.toNat_lt
    have := leNat_lt bs
    rw [leNat, List.length_cons, pow_succ']
    omega

theorem beNat_lt (bs : Bytes) : beNat bs < 256 ^ bs.length := by
  simpa [beNat] using leNat_lt bs.reverse

/-! ## Flag words -/

/-- Every bit of `mask` is set in `flags`. -/
def hasBits (flags mask : Nat) : Bool := flags &&& mask == mask

/-! ## Decoders -/

/-- A decoder: what it read and the bytes left, or a failure. -/
abbrev Reader (α : Type) := StateT Bytes Option α

/-- The next `n` bytes. -/
def slice (n : Nat) : Reader Bytes := fun bs =>
  if n ≤ bs.length then some (bs.take n, bs.drop n) else none

/-- A number of `w` bytes, least significant first. -/
def uintLe (w : Nat) : Reader Nat := leNat <$> slice w

/-- A number of `w` bytes, most significant first. -/
def uintBe (w : Nat) : Reader Nat := beNat <$> slice w

/-- Fails when fewer than `n` bytes are left, and reads nothing. -/
def ensure (n : Nat) : Reader Unit := fun bs => if n ≤ bs.length then some ((), bs) else none

/-- Fails unless the condition holds, and reads nothing. -/
def require (c : Bool) : Reader Unit := fun bs => if c then some ((), bs) else none

/-- Fails. -/
def fails {α : Type} : Reader α := fun _ => none

/-- A value that is there, and reads nothing; fails when there is none. -/
def given {α : Type} (a : Option α) : Reader α := fun bs => a.map (·, bs)

/-- The decoder's result, or nothing read when it fails. -/
def tryRead {α : Type} (r : Reader α) : Reader (Option α) := fun bs =>
  match r.run bs with
  | some (a, rest) => some (some a, rest)
  | none => some (none, bs)

/-- The same decoder `n` times. -/
def repeatN {α : Type} (r : Reader α) : Nat → Reader (List α)
  | 0 => pure []
  | n + 1 => do
    let a ← r
    let as ← repeatN r n
    pure (a :: as)

theorem length_repeatN {α : Type} {r : Reader α} :
    ∀ {n : Nat} {bs rest : Bytes} {as : List α}, (repeatN r n).run bs = some (as, rest) → as.length = n
  | 0, _, _, _, h => by
    cases h
    rfl
  | n + 1, bs, rest, as, h => by
    simp only [repeatN, StateT.run_bind, Option.bind_eq_bind, Option.bind_eq_some_iff] at h
    obtain ⟨⟨a, bs₁⟩, _, ⟨as', bs₂⟩, has, h⟩ := h
    cases h
    rw [List.length_cons, length_repeatN has]

theorem slice_run (n : Nat) (bs : Bytes) :
    (slice n).run bs = if n ≤ bs.length then some (bs.take n, bs.drop n) else none := rfl

theorem uintBe_run (w : Nat) (bs : Bytes) :
    (uintBe w).run bs = if w ≤ bs.length then some (beNat (bs.take w), bs.drop w) else none := by
  rw [uintBe, StateT.run_map, slice_run]
  split <;> rfl

theorem require_run (c : Bool) (bs : Bytes) : (require c).run bs = if c then some ((), bs) else none := rfl

theorem ensure_run (n : Nat) (bs : Bytes) : (ensure n).run bs = if n ≤ bs.length then some ((), bs) else none := rfl

theorem uintBe_one_cons (b : UInt8) (rest : Bytes) : (uintBe 1).run (b :: rest) = some (b.toNat, rest) := rfl

theorem slice_one_cons (b : UInt8) (rest : Bytes) : (slice 1).run (b :: rest) = some ([b], rest) := rfl

variable {a : Bytes} {u : Unit}

theorem slice_run_eq_some : (slice n).run bs = some (a, rest) ↔ a.length = n ∧ bs = a ++ rest := by
  simp only [StateT.run, slice]
  constructor
  · intro h
    split at h
    · cases h
      simp only [List.length_take, List.take_append_drop, and_true]
      omega
    · cases h
  · rintro ⟨rfl, rfl⟩
    simp

theorem run'_eq_some {α : Type} {r : Reader α} {a : α} : r.run' bs = some a ↔ ∃ rest, r.run bs = some (a, rest) := by
  simp [StateT.run', StateT.run]

theorem slice_append (h : a.length = n) : (slice n).run (a ++ rest) = some (a, rest) :=
  slice_run_eq_some.2 ⟨h, rfl⟩

theorem uintLe_append (h : n < 256 ^ w) : (uintLe w).run (leBytes w n ++ rest) = some (n, rest) := by
  simp [uintLe, slice_append, leNat_leBytes h]

theorem uintBe_append (h : n < 256 ^ w) : (uintBe w).run (beBytes w n ++ rest) = some (n, rest) := by
  simp [uintBe, slice_append, beNat_beBytes h]

theorem ensure_run_eq_some : (ensure n).run bs = some (u, rest) ↔ n ≤ bs.length ∧ bs = rest := by
  rw [ensure_run]
  split <;> simp_all

theorem require_run_eq_some {c : Bool} : (require c).run bs = some (u, rest) ↔ c = true ∧ bs = rest := by
  rw [require_run]
  split <;> simp_all

theorem given_run_eq_some {α : Type} {a : Option α} {x : α} :
    (given a).run bs = some (x, rest) ↔ a = some x ∧ bs = rest := by
  simp [given, StateT.run]

/-- A number that is read stands there as it is written. -/
theorem uintLe_run_eq_some : (uintLe w).run bs = some (n, rest) ↔ n < 256 ^ w ∧ bs = leBytes w n ++ rest := by
  constructor
  · intro h
    simp only [uintLe, StateT.run_map, Option.map_eq_map, Option.map_eq_some_iff, Prod.mk.injEq] at h
    obtain ⟨⟨a, rest'⟩, ha, rfl, rfl⟩ := h
    obtain ⟨rfl, rfl⟩ := slice_run_eq_some.1 ha
    exact ⟨leNat_lt a, by rw [leBytes_leNat]⟩
  · rintro ⟨hn, rfl⟩
    exact uintLe_append hn

/-! ## Locality -/

/-- What a decoder makes of the bytes it takes does not depend on which bytes follow, only on how many. -/
class Local {α : Type} (r : Reader α) : Prop where
  taken : ∀ ⦃bs rest : Bytes⦄ ⦃a : α⦄, r.run bs = some (a, rest) →
    ∃ taken, bs = taken ++ rest ∧ ∀ rest' : Bytes, rest'.length = rest.length → r.run (taken ++ rest') = some (a, rest')

section Locality

variable {α β : Type}

instance (a : α) : Local (pure a : Reader α) where
  taken := by
    rintro bs rest a ⟨⟩
    exact ⟨[], rfl, fun _ _ => rfl⟩

instance {r : Reader α} {f : α → Reader β} [hr : Local r] [hf : ∀ a, Local (f a)] : Local (r >>= f) where
  taken := by
    intro bs rest b h
    simp only [StateT.run_bind, Option.bind_eq_bind, Option.bind_eq_some_iff] at h
    obtain ⟨⟨a, bs'⟩, ha, hb⟩ := h
    obtain ⟨first, rfl, hfirst⟩ := hr.taken ha
    obtain ⟨second, rfl, hsecond⟩ := (hf a).taken hb
    refine ⟨first ++ second, by simp, fun rest' hlen => ?_⟩
    have hrun : r.run (first ++ second ++ rest') = some (a, second ++ rest') := by
      rw [List.append_assoc]
      exact hfirst _ (by simp [hlen])
    simp only [StateT.run_bind, hrun, Option.bind_eq_bind, Option.bind_some]
    exact hsecond rest' hlen

instance (n : Nat) : Local (slice n) where
  taken := by
    intro bs rest a h
    obtain ⟨hlen, rfl⟩ := slice_run_eq_some.1 h
    exact ⟨a, rfl, fun rest' _ => slice_append hlen⟩

instance (w : Nat) : Local (uintBe w) := by
  rw [uintBe, map_eq_pure_bind]
  infer_instance

instance (c : Bool) : Local (require c) where
  taken := by
    intro bs rest a h
    rw [require_run] at h
    split at h
    · rename_i hc
      cases h
      exact ⟨[], rfl, fun rest' _ => by simp [require_run, hc]⟩
    · cases h

instance (n : Nat) : Local (ensure n) where
  taken := by
    intro bs rest a h
    rw [ensure_run] at h
    split at h
    · rename_i hn
      cases h
      exact ⟨[], rfl, fun rest' hlen => by simp [ensure_run, hlen, hn]⟩
    · cases h

instance : Local (fails : Reader α) := ⟨fun _ _ _ h => by cases h⟩

instance {c : Prop} [Decidable c] {r r' : Reader α} [Local r] [Local r'] : Local (if c then r else r') := by
  split <;> assumption

end Locality

end Codec

end WebAccess
