/-
Numbers and times in text, as the proxy reads and writes them: what Rust's `parse` takes for a number
and what its formatting writes, and the fields that `utc_parts` of `migrate.rs` takes a time apart into.
-/
import WebAccess.Wire.Text

namespace WebAccess

open Wire

/-! ## Numbers -/

/-- `strip_prefix`, of a character -/
def stripFirst (c : Char) : Text → Option Text
  | [] => none
  | d :: rest => if d = c then some rest else none

/-- The value of a run of decimal digits; `none` when there is none, or something else. -/
def decimal (t : Text) : Option Nat :=
  if t ≠ [] ∧ t.all Char.isDigit then some (Nat.ofDigitChars 10 t 0) else none

/-- `str::parse` for an unsigned type with `bound` values; a plus sign is allowed. -/
def parseUnsigned (bound : Nat) (t : Text) : Option Nat :=
  (decimal ((stripFirst '+' t).getD t)).filter fun n => decide (n < bound)

/-- `str::parse::<i64>` -/
def parseI64 (t : Text) : Option Int :=
  match stripFirst '-' t with
  | some digits => (decimal digits).bind fun n => if n ≤ 2 ^ 63 then some (-(n : Int)) else none
  | none => (parseUnsigned (2 ^ 63) t).map Int.ofNat

/-- `{}` of an integer -/
def number (n : Int) : Text := (toString n).toList

/-- The values an `i64` has. -/
def InI64 (n : Int) : Prop := -2 ^ 63 ≤ n ∧ n < 2 ^ 63

instance (n : Int) : Decidable (InI64 n) := inferInstanceAs (Decidable (_ ∧ _))

variable {c : Char} {s t : Text} {n : Nat}

theorem stripFirst_eq_some : stripFirst c t = some s ↔ t = c :: s := by
  unfold stripFirst
  cases t with
  | nil => simp
  | cons d rest =>
    simp only [List.cons.injEq]
    split <;> simp_all

theorem number_ofNat (n : Nat) : number (n : Int) = Nat.toDigits 10 n := by
  show (Nat.repr n).toList = _
  rw [Nat.repr, String.toList_ofList]

theorem number_negSucc (n : Nat) : number (Int.negSucc n) = '-' :: Nat.toDigits 10 (n + 1) := by
  show ("-" ++ Nat.repr (n + 1)).toList = _
  simp [Nat.repr]

theorem isDigit_of_mem_toDigits (h : c ∈ Nat.toDigits 10 n) : c.isDigit = true :=
  Nat.isDigit_of_mem_toDigits (by decide) (by decide) h

theorem stripFirst_toDigits (hc : c.isDigit = false) : stripFirst c (Nat.toDigits 10 n) = none := by
  cases hd : Nat.toDigits 10 n with
  | nil => rfl
  | cons d ds =>
    have hdigit : d.isDigit = true := isDigit_of_mem_toDigits (hd ▸ List.mem_cons_self)
    exact if_neg fun heq => by simp [heq, hc] at hdigit

theorem decimal_toDigits (n : Nat) : decimal (Nat.toDigits 10 n) = some n := by
  have hall : (Nat.toDigits 10 n).all Char.isDigit = true := List.all_eq_true.2 fun _ hc => isDigit_of_mem_toDigits hc
  rw [decimal, if_pos ⟨Nat.toDigits_ne_nil, hall⟩, Nat.ofDigitChars_toDigits (by decide) (by decide)]

/-- What is written is read again if it is in the range. -/
theorem parseI64_number {m n : Int} : parseI64 (number n) = some m ↔ m = n ∧ InI64 n := by
  unfold parseI64 InI64
  cases n with
  | ofNat n =>
    rw [Int.ofNat_eq_natCast, number_ofNat, stripFirst_toDigits rfl, parseUnsigned, stripFirst_toDigits rfl,
      Option.getD_none, decimal_toDigits]
    simp only [Option.filter_some, decide_eq_true_eq]
    split <;> simp <;> omega
  | negSucc n =>
    rw [number_negSucc, stripFirst, if_pos rfl]
    simp only [decimal_toDigits, Option.bind_some]
    split <;> simp <;> omega

/-! ## Times -/

/-- `utc_parts`: year, month, day, hour, minute and second in UTC from Unix seconds -/
def utcParts (secs : Int) : Int × Int × Int × Int × Int × Int :=
  let days := secs / 86400
  let rem := secs % 86400
  let z := days + 719468
  let era := z / 146097
  let doe := z % 146097
  let yoe := (doe - doe / 1460 + doe / 36524 - doe / 146096) / 365
  let doy := doe - (365 * yoe + yoe / 4 - yoe / 100)
  let mp := (5 * doy + 2) / 153
  let d := doy - (153 * mp + 2) / 5 + 1
  let m := if mp < 10 then mp + 3 else mp - 9
  let y := yoe + era * 400 + if m ≤ 2 then 1 else 0
  (y, m, d, rem / 3600, rem % 3600 / 60, rem % 60)

end WebAccess
