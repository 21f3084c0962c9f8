/-
The values the SAML code reads out of text: hexadecimal, SAML times and SIDs. `saml.rs` has the times and the
hexadecimal, `directory.rs` the SIDs.

A signed text `id.expires` names its two parts, whatever is in the first of them: the dot before the
number is the last one.
-/
import WebAccess.Lib.Digits
import WebAccess.Numerals
import Mathlib.Data.List.TakeWhile

namespace WebAccess.Saml

open Wire Codec

/-! ## Text -/

def isAsciiWhitespace (c : Char) : Bool :=
  let n := c.toNat
  n == 9 || n == 10 || n == 12 || n == 13 || n == 32

/-- `str::split_once`, by a character -/
def splitOnce (c : Char) (t : Text) : Option (Text × Text) :=
  match t.dropWhile (· != c) with
  | [] => none
  | _ :: rest => some (t.takeWhile (· != c), rest)

/-- `str::rsplit_once`, by a character -/
def rsplitOnce (c : Char) (t : Text) : Option (Text × Text) :=
  (splitOnce c t.reverse).map fun p => (p.2.reverse, p.1.reverse)

/-- `strip_suffix`, of a character -/
def stripLast (c : Char) (t : Text) : Option Text := (stripFirst c t.reverse).map List.reverse

variable {c : Char} {a b t : Text}

theorem splitOnce_append (h : c ∉ a) : splitOnce c (a ++ c :: b) = some (a, b) := by
  have hall : ∀ x ∈ a, (x != c) = true := fun x hx => bne_iff_ne.2 fun heq => h (heq ▸ hx)
  simp [splitOnce, List.dropWhile_append_of_pos hall, List.takeWhile_append_of_pos hall]

theorem splitOnce_eq_none (h : c ∉ t) : splitOnce c t = none := by
  have hall : ∀ x ∈ t, (x != c) = true := fun x hx => bne_iff_ne.2 fun heq => h (heq ▸ hx)
  simp [splitOnce, List.dropWhile_eq_nil_iff.2 hall]

theorem splitOnce_eq_some (h : splitOnce c t = some (a, b)) : t = a ++ c :: b ∧ c ∉ a := by
  unfold splitOnce at h
  split at h
  · cases h
  · rename_i x rest hdrop
    cases h
    have hx : x = c := by
      have hhead := List.head?_dropWhile_not (· != c) t
      rw [hdrop] at hhead
      simpa using hhead
    subst hx
    refine ⟨?_, fun hmem => ?_⟩
    · rw [← hdrop, List.takeWhile_append_dropWhile]
    · exact absurd (List.mem_takeWhile_imp hmem) (by simp)

variable {s u : Text} {n : Nat}

theorem stripLast_eq_some : stripLast c t = some s ↔ t = s ++ [c] := by
  rw [stripLast, Option.map_eq_some_iff]
  constructor
  · rintro ⟨r, hr, rfl⟩
    rw [stripFirst_eq_some] at hr
    simpa using congrArg List.reverse hr
  · rintro rfl
    exact ⟨s.reverse, by simp [stripFirst], by simp⟩

/-! ## Numbers -/

theorem toDigits_injective {m : Nat} (h : Nat.toDigits 10 m = Nat.toDigits 10 n) : m = n := by
  rw [← Nat.ofDigitChars_toDigits (b := 10) (n := m) (by decide) (by decide), h,
    Nat.ofDigitChars_toDigits (by decide) (by decide)]

theorem dot_not_mem_number (n : Int) : '.' ∉ number n := by
  intro h
  cases n with
  | ofNat n =>
    rw [Int.ofNat_eq_natCast, number_ofNat] at h
    exact absurd (isDigit_of_mem_toDigits h) (by decide)
  | negSucc n =>
    rw [number_negSucc] at h
    rcases List.mem_cons.1 h with h | h
    · exact absurd h (by decide)
    · exact absurd (isDigit_of_mem_toDigits h) (by decide)

theorem number_injective : Function.Injective number := by
  -- a digit is not the sign, so the two ways of writing a number do not meet
  have hsign : ∀ {m n : Nat}, Nat.toDigits 10 m ≠ '-' :: Nat.toDigits 10 (n + 1) := fun h =>
    absurd (isDigit_of_mem_toDigits (h ▸ List.mem_cons_self)) (by decide)
  intro a b h
  cases a with
  | ofNat m =>
    cases b with
    | ofNat n =>
      simp only [Int.ofNat_eq_natCast, number_ofNat] at h
      rw [toDigits_injective h]
    | negSucc n =>
      simp only [Int.ofNat_eq_natCast, number_ofNat, number_negSucc] at h
      exact (hsign h).elim
  | negSucc m =>
    cases b with
    | ofNat n =>
      simp only [Int.ofNat_eq_natCast, number_ofNat, number_negSucc] at h
      exact (hsign h.symm).elim
    | negSucc n =>
      simp only [number_negSucc, List.cons.injEq, true_and] at h
      rw [Nat.succ.inj (toDigits_injective h)]

theorem append_dot_inj {v : Text} (hu : '.' ∉ u) (hv : '.' ∉ v) (h : a ++ '.' :: u = b ++ '.' :: v) :
    a = b ∧ u = v := by
  have hrev : u.reverse ++ '.' :: a.reverse = v.reverse ++ '.' :: b.reverse := by
    simpa using congrArg List.reverse h
  rcases List.append_eq_append_iff.1 hrev with ⟨w, hw, hw'⟩ | ⟨w, hw, hw'⟩
  · cases w with
    | nil => simp_all
    | cons c w =>
      obtain ⟨rfl, -⟩ := List.cons.inj hw'
      exact absurd (List.mem_reverse.1 (hw ▸ List.mem_append_right _ List.mem_cons_self)) hv
  · cases w with
    | nil => simp_all
    | cons c w =>
      obtain ⟨rfl, -⟩ := List.cons.inj hw'
      exact absurd (List.mem_reverse.1 (hw ▸ List.mem_append_right _ List.mem_cons_self)) hu

theorem rsplitOnce_append (h : '.' ∉ u) : rsplitOnce '.' (a ++ '.' :: u) = some (a, u) := by
  have hu : '.' ∉ u.reverse := by simpa using h
  have hsplit : splitOnce '.' (a ++ '.' :: u).reverse = some (u.reverse, a.reverse) := by
    rw [List.reverse_append, List.reverse_cons, List.append_assoc, List.singleton_append]
    exact splitOnce_append hu
  rw [rsplitOnce, hsplit]
  simp

def hexDigit (c : Char) : Option Nat :=
  if '0' ≤ c ∧ c ≤ '9' then some (c.toNat - '0'.toNat)
  else if 'a' ≤ c ∧ c ≤ 'f' then some (c.toNat - 'a'.toNat + 10)
  else if 'A' ≤ c ∧ c ≤ 'F' then some (c.toNat - 'A'.toNat + 10)
  else none

def hexBytes : Text → Option Bytes
  | [] => some []
  | [_] => none
  | hi :: lo :: rest => do
    let h ← hexDigit hi
    let l ← hexDigit lo
    let bytes ← hexBytes rest
    pure (UInt8.ofNat (16 * h + l) :: bytes)

/-- `{:02x}` of each byte -/
def hexText (bytes : Bytes) : Text :=
  bytes.flatMap fun b => [Nat.digitChar (b.toNat / 16), Nat.digitChar (b.toNat % 16)]

theorem hexDigit_digitChar : ∀ n < 16, hexDigit (Nat.digitChar n) = some n := by decide

theorem hexBytes_hexText (bytes : Bytes) : hexBytes (hexText bytes) = some bytes := by
  induction bytes with
  | nil => rfl
  | cons b bytes ih =>
    have hb : b.toNat < 256 := b.toNat_lt
    have hhi := hexDigit_digitChar (b.toNat / 16) (by omega)
    have hlo := hexDigit_digitChar (b.toNat % 16) (by omega)
    have hb' : UInt8.ofNat (16 * (b.toNat / 16) + b.toNat % 16) = b := by
      rw [Nat.div_add_mod, UInt8.ofNat_toNat]
    show hexBytes (_ :: _ :: hexText bytes) = _
    simp only [hexBytes, hhi, hlo, ih, Option.bind_eq_bind, Option.bind_some, hb', Option.pure_def]

theorem dot_not_mem_hexText (bytes : Bytes) : '.' ∉ hexText bytes := by
  have hdigit : ∀ n < 16, Nat.digitChar n ≠ '.' := by decide
  intro h
  obtain ⟨b, -, hb⟩ := List.mem_flatMap.1 h
  have := b.toNat_lt
  rcases List.mem_pair.1 hb with hb | hb
  · exact hdigit _ (by omega) hb.symm
  · exact hdigit _ (by omega) hb.symm

/-! ## Times -/

/-- `days_from_civil` -/
def daysFromCivil (y : Int) (m d : Nat) : Int :=
  let y := if m ≤ 2 then y - 1 else y
  let era := (if 0 ≤ y then y else y - 399).tdiv 400
  let yoe := y - era * 400
  let mp := ((m : Int) + 9).tmod 12
  let doy := (153 * mp + 2).tdiv 5 + (d : Int) - 1
  let doe := yoe * 365 + yoe.tdiv 4 - yoe.tdiv 100 + doy
  era * 146097 + doe - 719468

/-- `civil_from_days` -/
def civilFromDays (z : Int) : Int × Nat × Nat :=
  let z := z + 719468
  let era := (if 0 ≤ z then z else z - 146096).tdiv 146097
  let doe := z - era * 146097
  let yoe := (doe - doe.tdiv 1460 + doe.tdiv 36524 - doe.tdiv 146096).tdiv 365
  let doy := doe - (365 * yoe + yoe.tdiv 4 - yoe.tdiv 100)
  let mp := (5 * doy + 2).tdiv 153
  let d := (doy - (153 * mp + 2).tdiv 5 + 1).toNat
  let m := (if mp < 10 then mp + 3 else mp - 9).toNat
  let y := yoe + era * 400
  (if m ≤ 2 then y + 1 else y, m, d)

/-- The closure `digits` of `parse_instant`, with the number the digits make. -/
def digitsOf (n : Nat) (t : Text) : Option Nat := if t.length = n then decimal t else none

/-- The fraction of a second in `parse_instant`: digits, and dropped. -/
def withoutFraction (time : Text) : Option Text :=
  match splitOnce '.' time with
  | some (t, frac) => if frac ≠ [] ∧ frac.all Char.isDigit then some t else none
  | none => some time

/-- The fields of `parse_instant`, and the seconds they make. -/
def readFields (date time : Text) : Option Int := do
  let [y, m, day] := date.splitOn '-' | none
  let [h, mi, sec] := time.splitOn ':' | none
  let y ← digitsOf 4 y
  let m ← digitsOf 2 m
  let day ← digitsOf 2 day
  let h ← digitsOf 2 h
  let mi ← digitsOf 2 mi
  let sec ← digitsOf 2 sec
  if ¬ (1 ≤ m ∧ m ≤ 12) ∨ 23 < h ∨ 59 < mi ∨ 59 < sec then none
  else
    let days := daysFromCivil y m day
    if civilFromDays days ≠ ((y : Int), m, day) then none
    else some (days * 86400 + (h : Int) * 3600 + (mi : Int) * 60 + (sec : Int))

/-- `parse_instant`: `YYYY-MM-DDThh:mm:ss[.fraction]Z` to Unix seconds -/
def parseInstant (s : Text) : Option Int := do
  let (date, time) ← (stripLast 'Z' s).bind (splitOnce 'T')
  let time ← withoutFraction time
  readFields date time

/-- `instant`: Unix seconds as a SAML time -/
def instant (unix : Int) : Text :=
  let (y, m, d) := civilFromDays (unix / 86400)
  let s := (unix % 86400).toNat
  (if 0 ≤ y then Digits.fixed 4 y.toNat else '-' :: Digits.fixed 3 y.natAbs) ++ '-' :: Digits.fixed 2 m ++
    '-' :: Digits.fixed 2 d ++
    'T' :: Digits.fixed 2 (s / 3600) ++ ':' :: Digits.fixed 2 (s % 3600 / 60) ++ ':' :: Digits.fixed 2 (s % 60) ++ ['Z']

/-! ## SIDs -/

/-- `sid_bytes` -/
def sidBytes (sid : Text) : Option Bytes := do
  let rest ← (stripFirst 'S' sid).bind (stripFirst '-')
  let revision :: authority :: subs := rest.splitOn '-' | none
  let revision ← parseUnsigned (2 ^ 8) revision
  let authority ← parseUnsigned (2 ^ 64) authority
  if 2 ^ 48 ≤ authority then none
  else
    let subs ← subs.mapM (parseUnsigned (2 ^ 32))
    if subs = [] ∨ 15 < subs.length then none
    else
      some ([UInt8.ofNat revision, UInt8.ofNat subs.length] ++ beBytes 6 authority ++ subs.flatMap (leBytes 4))

/-- `sid_to_string` -/
def sidToString (bytes : Bytes) : Option Text :=
  match bytes with
  | revision :: count :: rest =>
    if bytes.length < 8 ∨ bytes.length ≠ 8 + 4 * count.toNat then none
    else
      let subs := (List.range count.toNat).map fun i => leNat ((bytes.drop (8 + 4 * i)).take 4)
      some ("S-" ++ number revision.toNat ++ '-' :: number (beNat (rest.take 6)) ++
        subs.flatMap fun s => '-' :: number s)
  | _ => none

/-- `canonical_sid` -/
def canonicalSid (sid : Text) : Option Text := (sidBytes (trim sid)).bind sidToString

end WebAccess.Saml
