/-
Decimal digits of a fixed width. Runs of digits of one length are ordered as the numbers they write, and
so are texts put together from them, field by field.
-/
import Mathlib.Algebra.Group.Nat.Defs
import Mathlib.Data.Char
import Mathlib.Data.List.Lex

namespace WebAccess.Digits

/-! ## Runs of digits -/

/-- Nothing but decimal digits. -/
def AreDigits (t : List Char) : Prop := ∀ c ∈ t, c.isDigit = true

/-- The number a run of digits writes. -/
def value (t : List Char) : Nat := Nat.ofDigitChars 10 t 0

variable {a b s t : List Char} {c : Char} {n w : Nat}

theorem digit_bounds (h : c.isDigit = true) : 48 ≤ c.toNat ∧ c.toNat ≤ 57 := by
  simp only [Char.isDigit, Bool.and_eq_true, decide_eq_true_eq] at h
  exact ⟨UInt32.le_iff_toNat_le.1 h.1, UInt32.le_iff_toNat_le.1 h.2⟩

theorem value_cons (c : Char) (t : List Char) : value (c :: t) = 10 ^ t.length * (c.toNat - 48) + value t := by
  rw [value, Nat.ofDigitChars_cons, Nat.ofDigitChars_eq_ofDigitChars_zero]
  simp [value]

theorem AreDigits.tail (h : AreDigits (c :: t)) : AreDigits t := fun x hx => h x (List.mem_cons_of_mem _ hx)

theorem value_lt (h : AreDigits t) : value t < 10 ^ t.length := by
  induction t with
  | nil => simp [value]
  | cons c t ih =>
    have hc := digit_bounds (h c List.mem_cons_self)
    have ht := ih h.tail
    rw [value_cons, List.length_cons, Nat.pow_succ]
    calc 10 ^ t.length * (c.toNat - 48) + value t
        < 10 ^ t.length * (c.toNat - 48) + 10 ^ t.length := Nat.add_lt_add_left ht _
      _ = 10 ^ t.length * (c.toNat - 48 + 1) := (Nat.mul_succ ..).symm
      _ ≤ 10 ^ t.length * 10 := Nat.mul_le_mul_left _ (by omega)

/-- The first digits decide where they differ. -/
theorem value_lt_of_head {d : Char} (hs : AreDigits (c :: s)) (hcd : c < d) (hlen : s.length = t.length) :
    value (c :: s) < value (d :: t) := by
  have hc := digit_bounds (hs c List.mem_cons_self)
  have hcd : c.toNat < d.toNat := UInt32.lt_iff_toNat_lt.1 hcd
  rw [value_cons, value_cons, ← hlen]
  calc 10 ^ s.length * (c.toNat - 48) + value s
      < 10 ^ s.length * (c.toNat - 48) + 10 ^ s.length := Nat.add_lt_add_left (value_lt hs.tail) _
    _ = 10 ^ s.length * (c.toNat - 48 + 1) := (Nat.mul_succ ..).symm
    _ ≤ 10 ^ s.length * (d.toNat - 48) := Nat.mul_le_mul_left _ (by omega)
    _ ≤ _ := Nat.le_add_right ..

/-- Runs of digits of one length are ordered as their numbers. -/
theorem lt_iff (hs : AreDigits s) (ht : AreDigits t) (hlen : s.length = t.length) : s < t ↔ value s < value t := by
  induction s generalizing t with
  | nil =>
    obtain rfl := List.length_eq_zero_iff.1 hlen.symm
    simp
  | cons c s ih =>
    cases t with
    | nil => cases hlen
    | cons d t =>
      have hlens : s.length = t.length := Nat.succ.inj hlen
      rw [List.cons_lt_cons_iff]
      rcases lt_trichotomy c d with hcd | rfl | hcd
      · exact iff_of_true (.inl hcd) (value_lt_of_head hs hcd hlens)
      · simp [value_cons, hlens, ih hs.tail ht.tail hlens]
      · refine iff_of_false ?_ (Nat.lt_asymm (value_lt_of_head ht hcd hlens.symm))
        rintro (hlt | ⟨rfl, -⟩)
        · exact lt_asymm hcd hlt
        · exact lt_irrefl c hcd

theorem eq_iff (hs : AreDigits s) (ht : AreDigits t) (hlen : s.length = t.length) : s = t ↔ value s = value t := by
  refine ⟨fun h => h ▸ rfl, fun h => ?_⟩
  rcases lt_trichotomy s t with hlt | heq | hlt
  · exact absurd ((lt_iff hs ht hlen).1 hlt) (by omega)
  · exact heq
  · exact absurd ((lt_iff ht hs hlen.symm).1 hlt) (by omega)

/-- Texts that start with parts of one length are ordered by these parts first. -/
theorem append_lt_append_iff (hlen : s.length = t.length) : s ++ a < t ++ b ↔ s < t ∨ s = t ∧ a < b := by
  induction s generalizing t with
  | nil =>
    obtain rfl := List.length_eq_zero_iff.1 hlen.symm
    simp
  | cons c s ih =>
    cases t with
    | nil => cases hlen
    | cons d t =>
      rw [List.cons_append, List.cons_append, List.cons_lt_cons_iff, List.cons_lt_cons_iff, ih (Nat.succ.inj hlen),
        List.cons.injEq]
      tauto

/-! ## Numbers of a width -/

/-- A number in at least `w` digits. -/
def fixed (w n : Nat) : List Char := List.replicate (w - (Nat.toDigits 10 n).length) '0' ++ Nat.toDigits 10 n

theorem areDigits_fixed (w n : Nat) : AreDigits (fixed w n) := by
  intro c hc
  rcases List.mem_append.1 hc with hc | hc
  · rw [List.eq_of_mem_replicate hc]
    rfl
  · exact Nat.isDigit_of_mem_toDigits (by decide) (by decide) hc

theorem length_fixed (hw : 0 < w) (h : n < 10 ^ w) : (fixed w n).length = w := by
  have hlen := (Nat.length_toDigits_le_iff (b := 10) (by decide) hw).2 h
  rw [fixed, List.length_append, List.length_replicate]
  omega

theorem value_fixed (w n : Nat) : value (fixed w n) = n := by
  rw [value, fixed, Nat.ofDigitChars_append, Nat.ofDigitChars_replicate_zero, Nat.mul_zero,
    Nat.ofDigitChars_ten_toDigits]

theorem fixed_append_lt_iff {m : Nat} (hw : 0 < w) (hm : m < 10 ^ w) (hn : n < 10 ^ w) :
    fixed w m ++ a < fixed w n ++ b ↔ m < n ∨ m = n ∧ a < b := by
  have hlen : (fixed w m).length = (fixed w n).length := by rw [length_fixed hw hm, length_fixed hw hn]
  rw [append_lt_append_iff hlen, lt_iff (areDigits_fixed _ _) (areDigits_fixed _ _) hlen,
    eq_iff (areDigits_fixed _ _) (areDigits_fixed _ _) hlen, value_fixed, value_fixed]

end WebAccess.Digits
