/-
The calendar arithmetic of the proxy: `days_from_civil`, `civil_from_days`, `parse_instant` and `instant` of
`saml.rs`, and `utc_parts` of `migrate.rs`, which writes the same computation another way. Both directions
are the calendar's: every day number is one date and every date has its number. A SAML time is accepted
exactly when it is written as the grammar says and names a date and a time of day there are.
-/
import WebAccess.Lib.Calendar
import WebAccess.Saml.Values

namespace WebAccess.Saml

open Wire Codec Calendar Digits

/-! ## Days and dates -/

theorem tdiv_of_nonpos {a : Int} (h : a ≤ 0) (n : Int) : a.tdiv n = -(-a / n) := by
  rw [← Int.tdiv_eq_ediv_of_nonneg (by omega : 0 ≤ -a), Int.neg_tdiv, Int.neg_neg]

theorem daysFromCivil_eq (y : Int) (m d : Nat) : daysFromCivil y m d = dayNumber y m d := by
  have hera : ∀ y : Int, (if 0 ≤ y then y else y - 399).tdiv 400 = y / 400 := by
    intro y
    split
    · exact Int.tdiv_eq_ediv_of_nonneg ‹_›
    · rw [tdiv_of_nonpos (by omega)]
      omega
  have hmonth : ((m : Int) + 9).tmod 12 = (marchMonth m : Int) := by
    rw [Int.tmod_eq_emod_of_nonneg (by omega), marchMonth]
    omega
  have hstart : (153 * (marchMonth m : Int) + 2).tdiv 5 = (monthStart (marchMonth m) : Int) := by
    rw [Int.tdiv_eq_ediv_of_nonneg (by omega), monthStart]
    omega
  unfold daysFromCivil dayNumber dayOfYear
  simp only [hera, hmonth, hstart]
  rw [← marchYear]
  have hyoe : 0 ≤ marchYear y m - marchYear y m / 400 * 400 := by omega
  rw [Int.tdiv_eq_ediv_of_nonneg hyoe, Int.tdiv_eq_ediv_of_nonneg hyoe]
  unfold yearStart
  omega

variable {doe yoe y : Int} {m : Nat} {p q : Written}

theorem year_of_era (h0 : 0 ≤ doe) (h1 : doe < 146097)
    (h : yoe = (doe - doe / 1460 + doe / 36524 - doe / 146096) / 365) :
    ∃ c t j u : Int, yoe = 100 * c + 4 * t + j ∧ doe = 36524 * c + 1461 * t + 365 * j + u ∧ 0 ≤ c ∧ c ≤ 3 ∧ 0 ≤ t ∧
      t ≤ 24 ∧ 0 ≤ j ∧ j ≤ 3 ∧ 0 ≤ u ∧ u ≤ 365 ∧ (u = 365 → j = 3 ∧ (t < 24 ∨ c = 3)) := by
  by_cases hlast : doe = 146096
  · refine ⟨3, 24, 3, 365, ?_⟩
    omega
  -- the centuries of an era but the last day of all are alike, and so are the groups of a century
  obtain ⟨c, hc⟩ : ∃ c, c = doe / 36524 := ⟨_, rfl⟩
  obtain ⟨t, ht⟩ : ∃ t, t = doe % 36524 / 1461 := ⟨_, rfl⟩
  obtain ⟨v, hv⟩ : ∃ v, v = doe % 36524 % 1461 := ⟨_, rfl⟩
  obtain ⟨j, hj⟩ : ∃ j, j = (v - (24 * c + t + v) / 1460) / 365 := ⟨_, rfl⟩
  have hdoe : doe = 36524 * c + 1461 * t + v := by omega
  have hsize : 0 ≤ c ∧ c ≤ 3 ∧ 0 ≤ t ∧ t ≤ 24 ∧ 0 ≤ v ∧ v ≤ 1460 ∧ (t = 24 → v ≤ 1459) := by omega
  have hera : doe / 146096 = 0 := by omega
  have hquot : doe / 1460 = 25 * c + t + (24 * c + t + v) / 1460 := by omega
  have hyoe : yoe = 100 * c + 4 * t + j := by omega
  have hcarry : (24 * c + t + v) / 1460 = 0 ∨ (24 * c + t + v) / 1460 = 1 := by omega
  refine ⟨c, t, j, v - 365 * j, hyoe, by omega, ?_⟩
  clear hdoe hyoe hquot hera h hc ht hv
  omega

theorem year_bounds (h0 : 0 ≤ doe) (h1 : doe < 146097)
    (h : yoe = (doe - doe / 1460 + doe / 36524 - doe / 146096) / 365) :
    ∃ doy : Int, doe = 365 * yoe + yoe / 4 - yoe / 100 + doy ∧ 0 ≤ yoe ∧ yoe < 400 ∧ 0 ≤ doy ∧ doy ≤ 365 ∧
      (doy = 365 → (yoe + 1) % 4 = 0 ∧ ((yoe + 1) % 100 ≠ 0 ∨ yoe + 1 = 400)) := by
  obtain ⟨c, t, j, u, hyoe, hdoe, hparts⟩ := year_of_era h0 h1 h
  clear h
  have hfour : yoe / 4 = 25 * c + t := by omega
  have hhundred : yoe / 100 = c := by omega
  refine ⟨u, by omega, by omega, by omega, by omega, by omega, fun hu => ?_⟩
  have hlast := hparts.2.2.2.2.2.2.2.2 hu
  omega

/-- A day number as both computations take it apart: the era, the year of the era and the day of the year. -/
structure Apart (z era doe yoe : Int) (doy : Nat) : Prop where
  era_eq : era = (z + 719468) / 146097
  doe_eq : doe = (z + 719468) - era * 146097
  yoe_eq : yoe = (doe - doe / 1460 + doe / 36524 - doe / 146096) / 365
  doy_eq : (doy : Int) = doe - (365 * yoe + yoe / 4 - yoe / 100)
  within : 0 ≤ doe ∧ 0 ≤ yoe ∧ doy ≤ 365
  leap : doy = 365 → IsLeap (yoe + era * 400 + 1)
  number : yearStart (yoe + era * 400) + doy = z + 719468

theorem apart (z : Int) : ∃ era doe yoe doy, Apart z era doe yoe doy := by
  obtain ⟨era, hera⟩ : ∃ era, era = (z + 719468) / 146097 := ⟨_, rfl⟩
  obtain ⟨doe, hdoe⟩ : ∃ doe, doe = (z + 719468) - era * 146097 := ⟨_, rfl⟩
  obtain ⟨yoe, hyoe⟩ : ∃ yoe, yoe = (doe - doe / 1460 + doe / 36524 - doe / 146096) / 365 := ⟨_, rfl⟩
  have hdoe' : 0 ≤ doe ∧ doe < 146097 := by omega
  obtain ⟨doy, hdoy, hyoe', hyoe'', hdoy', hdoy'', hleap⟩ := year_bounds hdoe'.1 hdoe'.2 hyoe
  obtain ⟨n, rfl⟩ := Int.eq_ofNat_of_zero_le hdoy'
  refine ⟨era, doe, yoe, n, hera, hdoe, hyoe, by omega, ⟨hdoe'.1, hyoe', by omega⟩, fun hn => ?_, ?_⟩
  · have hyear := hleap (by omega)
    clear hyoe
    unfold IsLeap
    omega
  · clear hyoe hleap
    have hfour : (yoe + era * 400) / 4 = yoe / 4 + 100 * era := by omega
    have hhundred : (yoe + era * 400) / 100 = yoe / 100 + 4 * era := by omega
    have hall : (yoe + era * 400) / 400 = era := by omega
    rw [yearStart, hfour, hhundred, hall]
    omega

variable {z era t : Int} {doy d n : Nat}

theorem Apart.date (h : Apart z era doe yoe doy)
    (hm : m = if monthOfDay doy < 10 then monthOfDay doy + 3 else monthOfDay doy - 9)
    (hy : y = if m ≤ 2 then yoe + era * 400 + 1 else yoe + era * 400) :
    Valid y m (doy - monthStart (monthOfDay doy) + 1) ∧
      dayNumber y m (doy - monthStart (monthOfDay doy) + 1) = z := by
  obtain ⟨hvalid, hyear, hday⟩ := date_of_day h.within.2.2 h.leap hm hy
  refine ⟨hvalid, ?_⟩
  rw [dayNumber, hyear, hday, h.number]
  omega

theorem Apart.civilFromDays (h : Apart z era doe yoe doy)
    (hm : m = if monthOfDay doy < 10 then monthOfDay doy + 3 else monthOfDay doy - 9) :
    civilFromDays z =
      (if m ≤ 2 then yoe + era * 400 + 1 else yoe + era * 400, m, doy - monthStart (monthOfDay doy) + 1) := by
  have hera : ∀ z : Int, (if 0 ≤ z then z else z - 146096).tdiv 146097 = z / 146097 := by
    intro z
    split
    · exact Int.tdiv_eq_ediv_of_nonneg ‹_›
    · rw [tdiv_of_nonpos (by omega)]
      omega
  obtain ⟨hdoe, hyoe, hdoy⟩ := h.within
  obtain ⟨-, hstart, -⟩ := monthOfDay_bounds hdoy
  have hcount : 0 ≤ doe - doe / 1460 + doe / 36524 - doe / 146096 := by omega
  have hmp : (5 * (doy : Int) + 2).tdiv 153 = monthOfDay doy := by
    rw [Int.tdiv_eq_ediv_of_nonneg (by omega), monthOfDay]
    omega
  have hfirst : (153 * (monthOfDay doy : Int) + 2).tdiv 5 = monthStart (monthOfDay doy) := by
    rw [Int.tdiv_eq_ediv_of_nonneg (by omega), monthStart]
    omega
  have hday : ((doy : Int) - monthStart (monthOfDay doy) + 1).toNat = doy - monthStart (monthOfDay doy) + 1 := by omega
  have hmonth : (if (monthOfDay doy : Int) < 10 then (monthOfDay doy : Int) + 3 else monthOfDay doy - 9).toNat = m := by
    rw [hm]
    split <;> split <;> omega
  unfold Saml.civilFromDays
  simp only [hera]
  rw [← h.era_eq, ← h.doe_eq, Int.tdiv_eq_ediv_of_nonneg hdoe, Int.tdiv_eq_ediv_of_nonneg hdoe,
    Int.tdiv_eq_ediv_of_nonneg hdoe,
    Int.tdiv_eq_ediv_of_nonneg hcount, ← h.yoe_eq, Int.tdiv_eq_ediv_of_nonneg hyoe, Int.tdiv_eq_ediv_of_nonneg hyoe,
    ← h.doy_eq, hmp, hfirst, hday, hmonth]

theorem civilFromDays_spec (z : Int) :
    Valid (civilFromDays z).1 (civilFromDays z).2.1 (civilFromDays z).2.2 ∧
      dayNumber (civilFromDays z).1 (civilFromDays z).2.1 (civilFromDays z).2.2 = z := by
  obtain ⟨era, doe, yoe, doy, h⟩ := apart z
  rw [h.civilFromDays rfl]
  exact h.date rfl rfl

theorem civilFromDays_dayNumber (h : Valid y m d) : civilFromDays (dayNumber y m d) = (y, m, d) := by
  obtain ⟨hvalid, hnumber⟩ := civilFromDays_spec (dayNumber y m d)
  exact dayNumber_inj hvalid h hnumber

/-! ## The other computation -/

theorem utcParts_eq (secs : Int) :
    utcParts secs = ((civilFromDays (secs / 86400)).1, ((civilFromDays (secs / 86400)).2.1 : Int),
      ((civilFromDays (secs / 86400)).2.2 : Int), secs % 86400 / 3600, secs % 86400 % 3600 / 60,
          secs % 86400 % 60) := by
  obtain ⟨era, doe, yoe, doy, h⟩ := apart (secs / 86400)
  obtain ⟨-, hstart, -⟩ := monthOfDay_bounds h.within.2.2
  have hdoe : (secs / 86400 + 719468) % 146097 = doe := by
    have hera := h.era_eq
    have hdoe := h.doe_eq
    omega
  have hmp : (5 * (doy : Int) + 2) / 153 = monthOfDay doy := by
    rw [monthOfDay]
    omega
  have hfirst : (153 * (monthOfDay doy : Int) + 2) / 5 = monthStart (monthOfDay doy) := by
    rw [monthStart]
    omega
  rw [h.civilFromDays rfl]
  unfold utcParts
  simp only [hdoe]
  rw [← h.era_eq, ← h.yoe_eq, ← h.doy_eq, hmp, hfirst]
  generalize monthStart (monthOfDay doy) = first at *
  generalize monthOfDay doy = mp
  simp only [Prod.mk.injEq, and_true]
  refine ⟨?_, ?_, ?_⟩
  · split <;> split <;> split <;> omega
  · split <;> split <;> omega
  · omega

/-! ## SAML times -/

theorem digitsOf_eq_some {v : Nat} {t : Text} (hn : 0 < n) :
    digitsOf n t = some v ↔ t.length = n ∧ AreDigits t ∧ value t = v := by
  unfold digitsOf decimal
  split
  · rename_i hlen
    have hne : t ≠ [] := List.length_pos_iff.1 (hlen ▸ hn)
    simp [hlen, hne, AreDigits, value]
  · rename_i hlen
    simp [hlen]

/-- A text in the grammar of SAML times: four digits of a year, two of everything else, and a fraction of a second
if there is one. -/
structure Written where
  year : Text
  month : Text
  day : Text
  hour : Text
  minute : Text
  second : Text
  fraction : Option Text
  year_digits : year.length = 4 ∧ AreDigits year
  digits : ∀ f ∈ [month, day, hour, minute, second], f.length = 2 ∧ AreDigits f
  fraction_digits : ∀ f ∈ fraction, f ≠ [] ∧ AreDigits f

namespace Written

variable (p : Written)

def date : Text := p.year ++ '-' :: (p.month ++ '-' :: p.day)

def time : Text := p.hour ++ ':' :: (p.minute ++ ':' :: p.second)

/-- The text itself: `YYYY-MM-DDThh:mm:ss[.fraction]Z` -/
def text : Text := p.date ++ 'T' :: (p.time ++ ((p.fraction.elim [] fun f => '.' :: f) ++ ['Z']))

/-- It names a date there is and a time of day up to 23:59:59. -/
def Exists : Prop :=
  Valid (value p.year) (value p.month) (value p.day) ∧ value p.hour ≤ 23 ∧ value p.minute ≤ 59 ∧ value p.second ≤ 59

instance : Decidable p.Exists := inferInstanceAs (Decidable (_ ∧ _))

/-- The Unix seconds it names, without the fraction. -/
def seconds : Int :=
  Calendar.seconds (value p.year) (value p.month) (value p.day) (value p.hour) (value p.minute) (value p.second)

end Written

namespace Written

variable {p q : Written}

variable {f : Text}

variable {c : Char}

theorem isDigit_of_mem (p : Written) (hf : f ∈ [p.year, p.month, p.day, p.hour, p.minute, p.second]) (hc : c ∈ f) :
    c.isDigit = true := by
  rcases List.mem_cons.1 hf with rfl | hf
  · exact p.year_digits.2 c hc
  · exact (p.digits f hf).2 c hc

theorem not_mem_field (p : Written) (hc : c.isDigit = false)
    (hf : f ∈ [p.year, p.month, p.day, p.hour, p.minute, p.second]) : c ∉ f := fun hmem => by
  rw [p.isDigit_of_mem hf hmem] at hc
  cases hc

theorem digitsOf_field (p : Written) (hf : f ∈ [p.month, p.day, p.hour, p.minute, p.second]) :
    digitsOf 2 f = some (value f) :=
  (digitsOf_eq_some (by decide)).2 ⟨(p.digits f hf).1, (p.digits f hf).2, rfl⟩

theorem T_not_mem_date (p : Written) : 'T' ∉ p.date := by
  have hfield := fun f => p.not_mem_field (f := f) (c := 'T') rfl
  simp [date, hfield]

theorem dot_not_mem_time (p : Written) : '.' ∉ p.time := by
  have hfield := fun f => p.not_mem_field (f := f) (c := '.') rfl
  simp [time, hfield]

theorem splitOn_date (p : Written) : p.date.splitOn '-' = [p.year, p.month, p.day] := by
  have hfield := fun f => p.not_mem_field (f := f) (c := '-') rfl
  rw [date, List.splitOn_append_cons_self_of_not_mem (hfield _ (by simp)),
    List.splitOn_append_cons_self_of_not_mem (hfield _ (by simp)), List.splitOn_eq_singleton (hfield _ (by simp))]

theorem splitOn_time (p : Written) : p.time.splitOn ':' = [p.hour, p.minute, p.second] := by
  have hfield := fun f => p.not_mem_field (f := f) (c := ':') rfl
  rw [time, List.splitOn_append_cons_self_of_not_mem (hfield _ (by simp)),
    List.splitOn_append_cons_self_of_not_mem (hfield _ (by simp)), List.splitOn_eq_singleton (hfield _ (by simp))]

end Written

theorem civil_check : civilFromDays (daysFromCivil y m d) = (y, m, d) ↔ Valid y m d := by
  rw [daysFromCivil_eq]
  refine ⟨fun h => ?_, civilFromDays_dayNumber⟩
  have hvalid := (civilFromDays_spec (dayNumber y m d)).1
  rwa [h] at hvalid

theorem parseInstant_eq (s : Text) : parseInstant s =
    ((stripLast 'Z' s).bind (splitOnce 'T')).bind fun x => (withoutFraction x.2).bind (readFields x.1) := rfl

theorem withoutFraction_time (p : Written) : withoutFraction (p.time ++ p.fraction.elim [] fun f =>
    '.' :: f) = some p.time := by
  unfold withoutFraction
  cases hf : p.fraction with
  | none => simp [splitOnce_eq_none p.dot_not_mem_time]
  | some f =>
    obtain ⟨hne, hdigits⟩ := p.fraction_digits f hf
    rw [Option.elim_some, splitOnce_append p.dot_not_mem_time]
    exact if_pos ⟨hne, List.all_eq_true.2 hdigits⟩

theorem readFields_text (p : Written) : readFields p.date p.time = if p.Exists then some p.seconds else none := by
  have hyear : digitsOf 4 p.year = some (value p.year) :=
    (digitsOf_eq_some (by decide)).2 ⟨p.year_digits.1, p.year_digits.2, rfl⟩
  have hmonth := p.digitsOf_field (f := p.month) (by simp)
  have hday := p.digitsOf_field (f := p.day) (by simp)
  have hhour := p.digitsOf_field (f := p.hour) (by simp)
  have hminute := p.digitsOf_field (f := p.minute) (by simp)
  have hsecond := p.digitsOf_field (f := p.second) (by simp)
  simp only [readFields, p.splitOn_date, p.splitOn_time, hyear, hmonth, hday, hhour, hminute, hsecond,
    Option.bind_eq_bind, Option.bind_some, Written.seconds, Calendar.seconds, ← daysFromCivil_eq]
  by_cases hexists : p.Exists
  · have hmonths := hexists.1.month
    obtain ⟨hvalid, hh, hmi, hs⟩ := id hexists
    rw [if_pos hexists, if_neg (by omega), if_neg (not_not.2 (civil_check.2 hvalid))]
  · rw [if_neg hexists]
    split
    · rfl
    · rename_i hfields
      refine if_pos fun hcivil => hexists ⟨civil_check.1 hcivil, ?_⟩
      omega

theorem parseInstant_text (p : Written) : parseInstant p.text = if p.Exists then some p.seconds else none := by
  have hlast : stripLast 'Z' p.text = some (p.date ++ 'T' :: (p.time ++ p.fraction.elim [] fun f => '.' :: f)) := by
    rw [stripLast_eq_some, Written.text]
    simp
  rw [parseInstant_eq, hlast, Option.bind_some, splitOnce_append p.T_not_mem_date, Option.bind_some,
    withoutFraction_time, Option.bind_some, readFields_text]

theorem written_of_parseInstant {s : Text} (h : parseInstant s = some t) : ∃ p : Written, p.text = s := by
  rw [parseInstant_eq] at h
  obtain ⟨⟨date, time⟩, hsplit, h⟩ := Option.bind_eq_some_iff.1 h
  obtain ⟨rest, hrest, hsplit⟩ := Option.bind_eq_some_iff.1 hsplit
  obtain ⟨tm, hfraction, h⟩ := Option.bind_eq_some_iff.1 h
  obtain ⟨rfl, -⟩ := splitOnce_eq_some hsplit
  rw [stripLast_eq_some] at hrest
  obtain ⟨fraction, hdigits, rfl⟩ : ∃ fraction : Option Text, (∀ f ∈ fraction, f ≠ [] ∧ AreDigits f) ∧
      time = tm ++ fraction.elim [] fun f => '.' :: f := by
    unfold withoutFraction at hfraction
    split at hfraction
    · rename_i a frac hdot
      split at hfraction
      · rename_i hfrac
        cases hfraction
        refine ⟨some frac, ?_, (splitOnce_eq_some hdot).1⟩
        rintro f ⟨⟩
        exact ⟨hfrac.1, List.all_eq_true.1 hfrac.2⟩
      · cases hfraction
    · cases hfraction
      exact ⟨none, by simp, by simp⟩
  unfold readFields at h
  split at h
  · rename_i y m d hdate
    split at h
    · rename_i hh mi sec htime
      simp only [Option.bind_eq_bind, Option.bind_eq_some_iff, digitsOf_eq_some (by decide : 0 < 4),
        digitsOf_eq_some (by decide : 0 < 2)] at h
      obtain ⟨_, ⟨hy, hy', -⟩, _, ⟨hm, hm', -⟩, _, ⟨hd, hd', -⟩, _, ⟨hho, hho', -⟩, _, ⟨hmi, hmi', -⟩, _,
        ⟨hs, hs', -⟩, -⟩ := h
      dsimp only at hdate
      have hdate' := congrArg (['-'].intercalate) hdate
      have htime' := congrArg ([':'].intercalate) htime
      rw [List.intercalate_splitOn] at hdate' htime'
      refine ⟨⟨y, m, d, hh, mi, sec, fraction, ⟨hy, hy'⟩, by simp [*], hdigits⟩, ?_⟩
      rw [hrest, hdate', htime']
      simp [Written.text, Written.date, Written.time, List.intercalate]
    · cases h
  · cases h

/-! ### The order of the texts -/

/-- Two texts of the grammar with as many digits of a second. -/
def Written.SamePrecision (p q : Written) : Prop := p.fraction.map List.length = q.fraction.map List.length

/-- The fraction of a second as a number, in units of its last digit. -/
def Written.fractionValue (p : Written) : Nat := value (p.fraction.getD [])

theorem field_lt_iff {a b x y : Text} (c : Char) (ha : a.length = n ∧ AreDigits a) (hb : b.length = n ∧ AreDigits b) :
    a ++ c :: x < b ++ c :: y ↔ value a < value b ∨ value a = value b ∧ x < y := by
  have hlen := ha.1.trans hb.1.symm
  rw [append_lt_append_iff hlen, lt_iff ha.2 hb.2 hlen, eq_iff ha.2 hb.2 hlen, List.cons_lt_cons_self]

theorem Written.fraction_lt_iff (h : p.SamePrecision q) :
    p.second ++ ((p.fraction.elim [] fun f => '.' :: f) ++ ['Z']) < q.second ++
      ((q.fraction.elim [] fun f => '.' :: f) ++ ['Z']) ↔
      value p.second < value q.second ∨ value p.second = value q.second ∧ p.fractionValue < q.fractionValue := by
  have hp := p.digits p.second (by simp)
  have hq := q.digits q.second (by simp)
  unfold SamePrecision at h
  unfold fractionValue
  cases hfp : p.fraction with
  | none =>
    cases hfq : q.fraction with
    | none => simpa using field_lt_iff 'Z' hp hq (x := []) (y := [])
    | some g => simp [hfp, hfq] at h
  | some f =>
    cases hfq : q.fraction with
    | none => simp [hfp, hfq] at h
    | some g =>
      have hlen : f.length = g.length := by simpa [hfp, hfq] using h
      have htail := field_lt_iff 'Z' ⟨hlen, (p.fraction_digits f hfp).2⟩ ⟨rfl, (q.fraction_digits g hfq).2⟩
        (x := []) (y := [])
      have hall := field_lt_iff '.' hp hq (x := f ++ ['Z']) (y := g ++ ['Z'])
      simpa [htail] using hall

theorem Written.text_lt_iff_fields (h : p.SamePrecision q) : p.text < q.text ↔
    value p.year < value q.year ∨ value p.year = value q.year ∧
    (value p.month < value q.month ∨ value p.month = value q.month ∧
    (value p.day < value q.day ∨ value p.day = value q.day ∧
    (value p.hour < value q.hour ∨ value p.hour = value q.hour ∧
    (value p.minute < value q.minute ∨ value p.minute = value q.minute ∧
    (value p.second < value q.second ∨ value p.second = value q.second ∧ p.fractionValue < q.fractionValue))))) := by
  have hfield := fun f (hf : f ∈ [p.month, p.day, p.hour, p.minute, p.second]) => p.digits f hf
  have hfield' := fun f (hf : f ∈ [q.month, q.day, q.hour, q.minute, q.second]) => q.digits f hf
  simp only [text, date, time, List.append_assoc, List.cons_append]
  rw [field_lt_iff '-' p.year_digits q.year_digits, field_lt_iff '-' (hfield _ (by simp)) (hfield' _ (by simp)),
    field_lt_iff 'T' (hfield _ (by simp)) (hfield' _ (by simp)),
      field_lt_iff ':' (hfield _ (by simp)) (hfield' _ (by simp)),
    field_lt_iff ':' (hfield _ (by simp)) (hfield' _ (by simp)), fraction_lt_iff h]

theorem Written.text_lt_iff (hp : p.Exists) (hq : q.Exists) (h : p.SamePrecision q) :
    p.text < q.text ↔ p.seconds < q.seconds ∨ p.seconds = q.seconds ∧ p.fractionValue < q.fractionValue := by
  rw [text_lt_iff_fields h, seconds, seconds, seconds_lt_iff hp.1 hq.1 hp.2 hq.2, Nat.cast_lt, Nat.cast_inj]

/-! ### Written and read again -/

theorem written_instant (h : 0 ≤ (civilFromDays (t / 86400)).1 ∧ (civilFromDays (t / 86400)).1 ≤ 9999) :
    ∃ p : Written, instant t = p.text ∧ p.Exists ∧ p.seconds = t ∧ p.fraction = none := by
  obtain ⟨hvalid, hnumber⟩ := civilFromDays_spec (t / 86400)
  unfold instant
  generalize civilFromDays (t / 86400) = date at *
  obtain ⟨y, m, d⟩ := date
  dsimp only at h hvalid hnumber ⊢
  obtain ⟨y, rfl⟩ := Int.eq_ofNat_of_zero_le h.1
  obtain ⟨hmonth, hday⟩ : m < 100 ∧ d < 100 := by
    have hm := hvalid.month
    have hd := hvalid.day
    omega
  obtain ⟨s, hs⟩ := Int.eq_ofNat_of_zero_le (Int.emod_nonneg t (by decide : (86400 : Int) ≠ 0))
  have hlast : s < 86400 := by
    have hlt := Int.emod_lt_of_pos t (by decide : (0 : Int) < 86400)
    omega
  have htwo : ∀ n < 100, (fixed 2 n).length = 2 ∧ AreDigits (fixed 2 n) :=
    fun n hn => ⟨length_fixed (by decide) hn, areDigits_fixed 2 n⟩
  have hvalue : ∀ w n, value (fixed w n) = n := value_fixed
  refine ⟨⟨fixed 4 y, fixed 2 m, fixed 2 d, fixed 2 (s / 3600), fixed 2 (s % 3600 / 60), fixed 2 (s % 60), none,
    ⟨length_fixed (by decide) (by omega), areDigits_fixed 4 y⟩, ?_, by simp⟩, ?_, ?_, ?_, rfl⟩
  · simp only [List.forall_mem_cons]
    exact ⟨htwo m hmonth, htwo d hday, htwo _ (by omega), htwo _ (by omega), htwo _ (by omega), by simp⟩
  · rw [hs]
    simp [Written.text, Written.date, Written.time]
  · simp only [Written.Exists, hvalue]
    exact ⟨hvalid, by omega, by omega, by omega⟩
  · simp only [Written.seconds, Calendar.seconds, hvalue]
    omega

/-! ## The calendar as a whole -/

/-- Day numbers and dates are one to one both ways; `utc_parts` is the date of the day and the time on it; a time
written is read back; of the texts of the grammar exactly those that name a day there is and a time on it are read,
and texts of one precision are in the order of the instants they name. -/
theorem calendar_exact :
    (∀ z : Int, let (y, m, d) := civilFromDays z
      Valid y m d ∧ daysFromCivil y m d = z) ∧
    (∀ (y : Int) (m d : Nat), Valid y m d → civilFromDays (daysFromCivil y m d) = (y, m, d)) ∧
    (∀ secs : Int, let (y, m, d) := civilFromDays (secs / 86400)
      ∃ h mi s : Nat, h < 24 ∧ mi < 60 ∧ s < 60 ∧ secs = secs / 86400 * 86400 + h * 3600 + mi * 60 + s ∧
        utcParts secs = (y, (m : Int), (d : Int), (h : Int), (mi : Int), (s : Int))) ∧
    (∀ t : Int, 0 ≤ (civilFromDays (t / 86400)).1 → (civilFromDays (t / 86400)).1 ≤ 9999 →
      parseInstant (instant t) = some t) ∧
    (∀ p : Written, parseInstant p.text = if p.Exists then some p.seconds else none) ∧
    (∀ (s : Text) (t : Int), parseInstant s = some t → ∃ p : Written, p.text = s) ∧
    ∀ p q : Written, p.Exists → q.Exists → p.SamePrecision q →
      (p.text < q.text ↔ p.seconds < q.seconds ∨ p.seconds = q.seconds ∧ p.fractionValue < q.fractionValue) := by
  refine ⟨fun z => ?_, fun y m d h => civil_check.2 h, fun secs => ?_, fun t hfrom hto => ?_, parseInstant_text,
    fun s t => written_of_parseInstant, fun p q => Written.text_lt_iff⟩
  · obtain ⟨hvalid, hnumber⟩ := civilFromDays_spec z
    exact ⟨hvalid, daysFromCivil_eq _ _ _ ▸ hnumber⟩
  · have hparts := utcParts_eq secs
    generalize civilFromDays (secs / 86400) = date at hparts ⊢
    obtain ⟨y, m, d⟩ := date
    obtain ⟨h, hh⟩ := Int.eq_ofNat_of_zero_le (a := secs % 86400 / 3600) (by omega)
    obtain ⟨mi, hmi⟩ := Int.eq_ofNat_of_zero_le (a := secs % 86400 % 3600 / 60) (by omega)
    obtain ⟨s, hs⟩ := Int.eq_ofNat_of_zero_le (a := secs % 86400 % 60) (by omega)
    rw [hh, hmi, hs] at hparts
    exact ⟨h, mi, s, by omega, by omega, by omega, by omega, hparts⟩
  · obtain ⟨p, htext, hexists, hseconds, -⟩ := written_instant ⟨hfrom, hto⟩
    rw [htext, parseInstant_text, if_pos hexists, hseconds]

/-- The leap day of 2000, and the second before the epoch -/
theorem calendar_exact_leap_day : civilFromDays (daysFromCivil 2000 2 29) = (2000, 2, 29) ∧
    parseInstant (instant (-1)) = some (-1) :=
  ⟨calendar_exact.2.1 2000 2 29 (by decide), calendar_exact.2.2.2.1 (-1) (by decide) (by decide)⟩

end WebAccess.Saml
