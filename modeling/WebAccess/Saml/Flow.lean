/-
Flow cookies. A cookie is an id, the time it expires at and the keyed hash of the two, joined by dots
and read from the right. The number and the hash can be spelled in more than one way, and the hash is
over the number as it is written out again, so what is accepted are the cookies that were returned, up
to such spellings, as long as no hash is forged.
-/
import WebAccess.Saml.Provider
import WebAccess.Saml.Sids

namespace WebAccess.Saml

open Wire Codec Digits

/-! ## Spellings -/

/-- A number of 64 bits as `str::parse` takes it: digits, with a sign or without. -/
def SpelledInt (f : Text) (v : Int) : Prop :=
  (∃ n : Nat, Spells f n ∧ n < 2 ^ 63 ∧ v = n) ∨
    ∃ ds, f = '-' :: ds ∧ ds ≠ [] ∧ AreDigits ds ∧ value ds ≤ 2 ^ 63 ∧ v = -(value ds : Int)

/-- Bytes in hexadecimal, in either case. -/
def SpelledHex (f : Text) (b : Bytes) : Prop := f.map Char.toLower = hexText b

variable {f : Text}

variable {v : Int} {c : Char} {b : Bytes}

theorem parseI64_eq_some : parseI64 f = some v ↔ SpelledInt f v := by
  unfold parseI64 SpelledInt
  cases hf : stripFirst '-' f with
  | some ds =>
    obtain rfl := stripFirst_eq_some.1 hf
    have hdash : ∀ n, ¬ Spells ('-' :: ds) n := fun n h => dash_not_mem_of_spells h List.mem_cons_self
    simp only [hdash, false_and, exists_false, false_or, Option.bind_eq_some_iff, decimal_eq_some,
      Option.ite_none_right_eq_some, Option.some.injEq]
    constructor
    · rintro ⟨n, ⟨hne, hdigits, rfl⟩, hle, rfl⟩
      exact ⟨ds, rfl, hne, hdigits, hle, rfl⟩
    · rintro ⟨ds', heq, hne, hdigits, hle, rfl⟩
      cases heq
      exact ⟨_, ⟨hne, hdigits, rfl⟩, hle, rfl⟩
  | none =>
    have hplain : ∀ ds, f ≠ '-' :: ds := fun ds h => by cases hf.symm.trans (stripFirst_eq_some.2 h)
    simp only [hplain, false_and, exists_false, or_false, Option.map_eq_some_iff, parseUnsigned_eq_some, and_assoc]
    exact exists_congr fun n => and_congr_right fun _ => and_congr_right fun _ => eq_comm

theorem hexDigit_eq_some {d : Nat} : hexDigit c = some d ↔ d < 16 ∧ c.toLower = Nat.digitChar d := by
  have htable : ∀ n < 128, (∀ d < 16, hexDigit (Char.ofNat n) = some d ↔ (Char.ofNat n).toLower = Nat.digitChar d) ∧
      ∀ d ∈ hexDigit (Char.ofNat n), d < 16 := by decide +kernel
  by_cases hascii : c.toNat < 128
  · obtain ⟨hiff, hlt⟩ := htable c.toNat hascii
    rw [Char.ofNat_toNat] at hiff hlt
    exact ⟨fun h => ⟨hlt d h, (hiff d (hlt d h)).1 h⟩, fun h => (hiff d h.1).2 h.2⟩
  · -- past ASCII there is no digit, and nothing is in upper case
    have hto : ∀ b : Char, b.toNat < 128 → ¬ c ≤ b := fun b hb hle =>
      hascii (Nat.lt_of_le_of_lt (UInt32.le_iff_toNat_le.1 hle) hb)
    have hnone : hexDigit c = none := by
      rw [hexDigit, if_neg fun h => hto '9' (by decide) h.2, if_neg fun h => hto 'f' (by decide) h.2,
        if_neg fun h => hto 'F' (by decide) h.2]
    have hlower : c.toLower = c := dif_neg fun h => hto 'Z' (by decide) h.2
    have hdigit : ∀ d < 16, (Nat.digitChar d).toNat < 128 := by decide
    rw [hnone, hlower]
    exact iff_of_false nofun fun h => hascii (h.2 ▸ hdigit d h.1)

theorem hexText_cons (x : UInt8) (b : Bytes) :
    hexText (x :: b) = Nat.digitChar (x.toNat / 16) :: Nat.digitChar (x.toNat % 16) :: hexText b := rfl

theorem hexBytes_eq_some : hexBytes f = some b ↔ SpelledHex f b := by
  unfold SpelledHex
  fun_induction hexBytes f generalizing b with
  | case1 | case2 => cases b <;> simp [hexText]
  | case3 hi lo rest ih =>
    simp only [Option.bind_eq_bind, Option.bind_eq_some_iff, hexDigit_eq_some, ih, List.map_cons, Option.pure_def,
      Option.some.injEq]
    constructor
    · rintro ⟨h, ⟨hh, hhi⟩, l, ⟨hl, hlo⟩, bytes, hrest, rfl⟩
      have hx : (UInt8.ofNat (16 * h + l)).toNat = 16 * h + l := UInt8.toNat_ofNat_of_lt' (show _ < 256 by omega)
      have hdiv : (16 * h + l) / 16 = h := by omega
      have hmod : (16 * h + l) % 16 = l := by omega
      rw [hexText_cons, hx, hdiv, hmod, hhi, hlo, hrest]
    · intro heq
      cases b with
      | nil => cases heq
      | cons x b =>
        have hx : x.toNat < 256 := x.toNat_lt
        rw [hexText_cons, List.cons.injEq, List.cons.injEq] at heq
        refine ⟨_, ⟨by omega, heq.1⟩, _, ⟨by omega, heq.2.1⟩, b, heq.2.2, ?_⟩
        rw [Nat.div_add_mod, UInt8.ofNat_toNat]

/-! ## The parts of a cookie -/

theorem dot_not_mem_of_spelledInt (h : SpelledInt f v) : '.' ∉ f := by
  have hdigits : ∀ ds : Text, AreDigits ds → '.' ∉ ds := fun ds hds hmem => absurd (hds '.' hmem) (by decide)
  rcases h with ⟨n, ⟨ds, rfl | rfl, -, hds, -⟩, -⟩ | ⟨ds, rfl, -, hds, -⟩
  · exact hdigits _ hds
  · simp [hdigits ds hds]
  · simp [hdigits ds hds]

theorem dot_not_mem_of_spelledHex (h : SpelledHex f b) : '.' ∉ f := fun hmem =>
  dot_not_mem_hexText b (h ▸ List.mem_map.2 ⟨'.', hmem, by decide⟩)

theorem rsplitOnce_eq_some {t a b : Text} (h : rsplitOnce c t = some (a, b)) : t = a ++ c :: b := by
  obtain ⟨⟨u, v⟩, hsplit, heq⟩ := Option.map_eq_some_iff.1 h
  cases heq
  have hrev := (splitOnce_eq_some hsplit).1
  rw [← t.reverse_reverse, hrev]
  simp

theorem flowParts_eq_some {c id : Text} {expires : Int} {tag : Bytes} : flowParts c = some (id, expires, tag) ↔
    ∃ f m, c = id ++ '.' :: (f ++ '.' :: m) ∧ SpelledInt f expires ∧ SpelledHex m tag := by
  unfold flowParts
  constructor
  · intro h
    obtain ⟨⟨rest, m⟩, hm, h⟩ := Option.bind_eq_some_iff.1 h
    obtain ⟨⟨id', f⟩, hf, h⟩ := Option.bind_eq_some_iff.1 h
    obtain ⟨v, hv, h⟩ := Option.bind_eq_some_iff.1 h
    obtain ⟨b, hb, h⟩ := Option.bind_eq_some_iff.1 h
    cases h
    refine ⟨f, m, ?_, parseI64_eq_some.1 hv, hexBytes_eq_some.1 hb⟩
    rw [rsplitOnce_eq_some hm, rsplitOnce_eq_some hf]
    simp
  · rintro ⟨f, m, rfl, hf, hm⟩
    have hsplit : rsplitOnce '.' (id ++ '.' :: (f ++ '.' :: m)) = some (id ++ '.' :: f, m) := by
      rw [← List.cons_append, ← List.append_assoc]
      exact rsplitOnce_append (dot_not_mem_of_spelledHex hm)
    simp only [hsplit, Option.bind_eq_bind, Option.bind_some, rsplitOnce_append (dot_not_mem_of_spelledInt hf),
      parseI64_eq_some.2 hf, hexBytes_eq_some.2 hm, Option.pure_def]

/-! ## Starts and cookies -/

/-- A `start` that was made: the token it drew, and the clock it read. The time its cookie expires at is one of 64
bits. -/
structure Started where
  token : Text
  now : Int
  inI64 : -2 ^ 63 ≤ now + flowSecs ∧ now + flowSecs < 2 ^ 63

namespace Started

def id (e : Started) : Text := '_' :: e.token.take 40

def expires (e : Started) : Int := e.now + flowSecs

end Started

section Cookies

variable {Key : Type} (lib : Libraries Key)

/-- A string is the cookie of an id and a time, up to the spelling of the number and the hexadecimal digits. -/
def Respells (c id : Text) (expires : Int) : Prop :=
  ∃ f m, c = id ++ '.' :: (f ++ '.' :: m) ∧ SpelledInt f expires ∧ SpelledHex m (lib.hmac (signedFlow id expires))

/-- A string carries no forged hash: if what it carries is the hash of what it is read as, one of the starts has
had it signed. -/
def Unforged (starts : List Started) (c : Text) : Prop :=
  ∀ id expires, flowParts c = some (id, expires, lib.hmac (signedFlow id expires)) →
    ∃ e ∈ starts, signedFlow id expires = signedFlow e.id e.expires

variable {lib}

variable {c : Text}

theorem flowRequest_ok {r : Text} {t : Int} :
    flowRequest lib (some c) t = .ok r ↔ ∃ expires, Respells lib c r expires ∧ t < expires := by
  unfold flowRequest
  rw [Option.bind_some]
  cases hparts : flowParts c with
  | none =>
    refine iff_of_false nofun ?_
    rintro ⟨expires, hrespells, -⟩
    exact nomatch hparts.symm.trans (flowParts_eq_some.2 hrespells)
  | some parts =>
    obtain ⟨id, expires, tag⟩ := parts
    simp only []
    constructor
    · intro h
      split at h
      · cases h
      · rename_i hgood
        obtain ⟨htag, hlt⟩ := not_or.1 hgood
        cases h
        exact ⟨expires, flowParts_eq_some.1 (by rw [hparts, not_not.1 htag]), Int.not_le.1 hlt⟩
    · rintro ⟨expires', hrespells, hlt⟩
      cases hparts.symm.trans (flowParts_eq_some.2 hrespells)
      exact if_neg (not_or.2 ⟨not_not.2 rfl, Int.not_le.2 hlt⟩)

theorem respells_flowCookie {id : Text} {expires : Int} (h : -2 ^ 63 ≤ expires ∧ expires < 2 ^ 63) :
    Respells lib (flowCookie lib id expires) id expires := by
  refine ⟨number expires, _, ?_, parseI64_eq_some.1 (parseI64_number.2 ⟨rfl, h⟩),
    hexBytes_eq_some.1 (hexBytes_hexText _)⟩
  simp [flowCookie, signedFlow]

theorem unforged_of_respells {starts : List Started} {e : Started} (he : e ∈ starts)
    (h : Respells lib c e.id e.expires) : Unforged lib starts c := by
  intro id expires hparts
  cases hparts.symm.trans (flowParts_eq_some.2 h)
  exact ⟨e, he, rfl⟩

end Cookies

/-- Flow cookies: a string is accepted just if it is a cookie of one of the starts, up to spelling, and has not
expired; the cookie of a start gives its own request; different ids or times are signed as different texts; and a
string that is put together from cookies is accepted only if it is one of them. -/
theorem flow_cookies_exact {Key : Type} (lib : Libraries Key) (sp : ServiceProvider) (starts : List Started)
    (hids : ∀ e ∈ starts, ∀ e' ∈ starts, e.id = e'.id → e = e') :
    (∀ c, Unforged lib starts c → ∀ t r, flowRequest lib (some c) t = .ok r ↔
      ∃ e ∈ starts, e.id = r ∧ Respells lib c e.id e.expires ∧ t < e.now + flowSecs) ∧
    (∀ e ∈ starts, Respells lib (start lib sp e.token e.now).2 e.id e.expires ∧
      ∀ t, t < e.now + flowSecs → flowRequest lib (some (start lib sp e.token e.now).2) t = .ok e.id) ∧
    (∀ id id' expires expires', signedFlow id expires = signedFlow id' expires' → id = id' ∧ expires = expires') ∧
    ∀ e₁ ∈ starts, ∀ e₂ ∈ starts, ∀ e₃ ∈ starts,
      let c := e₁.id ++ '.' :: (number e₂.expires ++ '.' :: hexText (lib.hmac (signedFlow e₃.id e₃.expires)))
      Unforged lib starts c → ∀ t r, flowRequest lib (some c) t = .ok r → c = (start lib sp e₁.token e₁.now).2 := by
  have hexact : ∀ c, Unforged lib starts c → ∀ t r, flowRequest lib (some c) t = .ok r ↔
      ∃ e ∈ starts, e.id = r ∧ Respells lib c e.id e.expires ∧ t < e.now + flowSecs := by
    intro c hunforged t r
    rw [flowRequest_ok]
    constructor
    · rintro ⟨expires, hrespells, hlt⟩
      obtain ⟨e, he, hsigned⟩ := hunforged r expires (flowParts_eq_some.2 hrespells)
      obtain ⟨rfl, rfl⟩ := signedFlow_inj hsigned
      exact ⟨e, he, rfl, hrespells, hlt⟩
    · rintro ⟨e, -, rfl, hrespells, hlt⟩
      exact ⟨e.expires, hrespells, hlt⟩
  refine ⟨hexact, fun e _ => ?_, fun _ _ _ _ => signedFlow_inj, ?_⟩
  · have hrespells : Respells lib (start lib sp e.token e.now).2 e.id e.expires := respells_flowCookie e.inI64
    exact ⟨hrespells, fun t ht => flowRequest_ok.2 ⟨e.expires, hrespells, ht⟩⟩
  · intro e₁ he₁ e₂ he₂ e₃ he₃ c hunforged t r haccepted
    obtain ⟨e, he, rfl, hrespells, -⟩ := (hexact c hunforged t r).1 haccepted
    -- what the string is read as is what it was put together from
    have hparts : flowParts c = some (e₁.id, e₂.expires, lib.hmac (signedFlow e₃.id e₃.expires)) :=
      flowParts_eq_some.2 ⟨_, _, rfl, parseI64_eq_some.1 (parseI64_number.2 ⟨rfl, e₂.inI64⟩),
        hexBytes_eq_some.1 (hexBytes_hexText _)⟩
    have hread := hparts.symm.trans (flowParts_eq_some.2 hrespells)
    simp only [Option.some.injEq, Prod.mk.injEq] at hread
    obtain ⟨hid, hexpires, htag⟩ := hread
    obtain rfl := hids e₁ he₁ e he hid
    show _ = flowCookie lib e₁.id e₁.expires
    rw [flowCookie, ← htag, ← hexpires]
    simp [c, signedFlow]

/-- A cookie with a plus sign and a zero before its number, and its hash in capitals, in its last second -/
theorem flow_cookies_exact_respelled :
    let lib : Libraries Unit := {
      decode := fun _ => none, fromUtf8 := fun _ => none, parse := fun _ => .error "", loadCert := fun _ => .error ""
      verifyAll := fun _ _ => .error "", hmac := fun t => t.map fun c => UInt8.ofNat c.toNat, query := id
      debug := String.ofList }
    let e : Started := ⟨"k", 0, by decide⟩
    flowRequest lib (some "_k.+0300.5F6B2E333030") 299 = .ok e.id := by
  intro lib e
  have hrespells : Respells lib "_k.+0300.5F6B2E333030" e.id e.expires :=
    ⟨"+0300", "5F6B2E333030", by decide, parseI64_eq_some.1 (by decide), hexBytes_eq_some.1 (by decide)⟩
  have hmem : e ∈ [e] := List.mem_singleton.2 rfl
  exact ((flow_cookies_exact lib ⟨⟨[], [], []⟩, [], [], [], 0⟩ [e] (by simp)).1 _ (unforged_of_respells hmem hrespells)
    _ _).2
    ⟨e, hmem, rfl, hrespells, by decide⟩

end WebAccess.Saml
