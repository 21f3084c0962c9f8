/-
SIDs as bytes and as text (`directory.rs`). A SID is a revision, an authority and its sub-authorities; it has one
byte form and one text form, and other texts that spell it: numbers may have a plus sign and leading zeros, and white
space may stand around. Texts that spell one SID have one canonical form, so comparing canonical forms compares the
bytes the directory has.
-/
import WebAccess.Lib.Digits
import WebAccess.Lib.Trimming
import WebAccess.Saml.Values
import Mathlib.Data.List.Forall2

namespace WebAccess.Saml

open Wire Codec Digits Trimming

/-! ## A SID -/

@[ext]
structure Sid where
  revision : Nat
  authority : Nat
  subs : List Nat
  revision_lt : revision < 2 ^ 8
  authority_lt : authority < 2 ^ 48
  subs_lt : ∀ s ∈ subs, s < 2 ^ 32
  count_lt : subs.length < 2 ^ 8

namespace Sid

/-- The byte form: authority with the most significant byte first, sub-authorities with the least. -/
def bytes (s : Sid) : Bytes :=
  [UInt8.ofNat s.revision, UInt8.ofNat s.subs.length] ++ beBytes 6 s.authority ++ s.subs.flatMap (leBytes 4)

def text (s : Sid) : Text :=
  'S' :: '-' :: (number s.revision ++ (s.authority :: s.subs).flatMap fun n : Nat => '-' :: number n)

def Usual (s : Sid) : Prop := 1 ≤ s.subs.length ∧ s.subs.length ≤ 15

end Sid

/-! ## Bytes to text -/

/-- The numbers of four bytes each that a byte string holds, as `sid_to_string` reads them. -/
def words (count : Nat) (bytes : Bytes) : List Nat :=
  (List.range count).map fun i => leNat ((bytes.drop (4 * i)).take 4)

theorem words_succ (count : Nat) (bytes : Bytes) :
    words (count + 1) bytes = leNat (bytes.take 4) :: words count (bytes.drop 4) := by
  rw [words, List.range_succ_eq_map, List.map_cons, List.map_map]
  simp [words, Function.comp_def, Nat.mul_succ, Nat.add_comm]

variable {ns : List Nat} {b : Bytes} {t f c : Text} {n : Nat} {fs : List Text} {s : Sid}

theorem words_flatMap (h : ∀ n ∈ ns, n < 2 ^ 32) : words ns.length (ns.flatMap (leBytes 4)) = ns := by
  induction ns with
  | nil => rfl
  | cons n ns ih =>
    have hn : n < 256 ^ 4 := h n List.mem_cons_self
    rw [List.length_cons, words_succ, List.flatMap_cons, List.take_left' (length_leBytes 4 n),
      List.drop_left' (length_leBytes 4 n), leNat_leBytes hn, ih fun m hm => h m (List.mem_cons_of_mem _ hm)]

theorem flatMap_words {count : Nat} {bytes : Bytes} (h : bytes.length = 4 * count) :
    (words count bytes).flatMap (leBytes 4) = bytes := by
  induction count generalizing bytes with
  | zero => simp [words, List.length_eq_zero_iff.1 h]
  | succ count ih =>
    have hfour : (bytes.take 4).length = 4 := by rw [List.length_take]; omega
    have hword := leBytes_leNat (bytes.take 4)
    rw [hfour] at hword
    rw [words_succ, List.flatMap_cons, hword, ih (by rw [List.length_drop]; omega), List.take_append_drop]

theorem length_flatMap_leBytes (ns : List Nat) : (ns.flatMap (leBytes 4)).length = 4 * ns.length := by
  induction ns with
  | nil => rfl
  | cons n ns ih => rw [List.flatMap_cons, List.length_append, length_leBytes, ih, List.length_cons,
    Nat.mul_succ, Nat.add_comm]

theorem sidToString_parts {revision count : UInt8} {authority subs : Bytes} (hauthority : authority.length = 6)
    (hsubs : subs.length = 4 * count.toNat) :
    sidToString (revision :: count :: (authority ++ subs)) =
      some ('S' :: '-' :: (number revision.toNat ++ (beNat authority :: words count.toNat subs).flatMap
        fun n : Nat => '-' :: number n)) := by
  have hlen : (revision :: count :: (authority ++ subs)).length = 8 + 4 * count.toNat := by
    simp only [List.length_cons, List.length_append]
    omega
  have hdrop : ∀ i, (revision :: count :: (authority ++ subs)).drop (8 + 4 * i) = subs.drop (4 * i) := by
    intro i
    have hsix : (authority ++ subs).drop (6 + 4 * i) = subs.drop (4 * i) := by
      rw [← List.drop_drop, List.drop_left' hauthority]
    rw [← hsix, show 8 + 4 * i = (6 + 4 * i) + 1 + 1 by omega, List.drop_succ_cons, List.drop_succ_cons]
  rw [sidToString, if_neg (by omega)]
  simp only [hdrop, List.take_left' hauthority]
  simp [words, List.flatMap_assoc]

theorem sidToString_bytes (s : Sid) : sidToString s.bytes = some s.text := by
  have hcount : (UInt8.ofNat s.subs.length).toNat = s.subs.length := UInt8.toNat_ofNat_of_lt' s.count_lt
  have hrevision : (UInt8.ofNat s.revision).toNat = s.revision := UInt8.toNat_ofNat_of_lt' s.revision_lt
  have hbytes : s.bytes = UInt8.ofNat s.revision :: UInt8.ofNat s.subs.length :: (beBytes 6 s.authority ++
      s.subs.flatMap (leBytes 4)) := by
    simp [Sid.bytes]
  rw [hbytes, sidToString_parts (length_beBytes 6 s.authority) (by rw [hcount, length_flatMap_leBytes]), hcount,
    hrevision,
    words_flatMap s.subs_lt, beNat_beBytes (by have := s.authority_lt; omega), Sid.text]

theorem sid_of_sidToString (h : sidToString b = some t) : ∃ s : Sid, b = s.bytes := by
  match b, h with
  | revision :: count :: rest, h =>
    rw [sidToString] at h
    by_cases hlen : (revision :: count :: rest).length < 8 ∨ (revision :: count :: rest).length ≠ 8 + 4 * count.toNat
    · rw [if_pos hlen] at h
      cases h
    · clear h
      have hrest : rest.length = 6 + 4 * count.toNat := by
        simp only [List.length_cons] at hlen
        omega
      have hsix : (rest.take 6).length = 6 := by rw [List.length_take]; omega
      have hsubs : (rest.drop 6).length = 4 * count.toNat := by rw [List.length_drop]; omega
      have hauthority : beBytes 6 (beNat (rest.take 6)) = rest.take 6 := by
        have hle := leBytes_leNat (rest.take 6).reverse
        rw [List.length_reverse, hsix] at hle
        rw [beBytes, beNat, hle, List.reverse_reverse]
      have hcount : (words count.toNat (rest.drop 6)).length = count.toNat := by simp [words]
      refine ⟨⟨revision.toNat, beNat (rest.take 6), words count.toNat (rest.drop 6), revision.toNat_lt, ?_, ?_, ?_⟩, ?_⟩
      · have hlt := beNat_lt (rest.take 6)
        rw [hsix] at hlt
        omega
      · intro s hs
        obtain ⟨i, -, rfl⟩ := List.mem_map.1 hs
        have hlt := leNat_lt (((rest.drop 6).drop (4 * i)).take 4)
        refine lt_of_lt_of_le hlt ?_
        exact Nat.pow_le_pow_right (by decide) (List.length_take_le _ _)
      · rw [hcount]
        exact count.toNat_lt
      · simp [Sid.bytes, hcount, hauthority, flatMap_words hsubs]

/-- A well-formed SID with one to fifteen sub-authorities, in bytes. -/
def WellFormed : Bytes → Prop
  | _ :: count :: rest => rest.length = 6 + 4 * count.toNat ∧ 1 ≤ count.toNat ∧ count.toNat ≤ 15
  | _ => False

instance : DecidablePred WellFormed
  | _ :: _ :: _ => inferInstanceAs (Decidable (_ ∧ _))
  | [] => .isFalse id
  | [_] => .isFalse id

theorem usual_of_wellFormed (h : WellFormed b) : ∃ s : Sid, s.Usual ∧ b = s.bytes := by
  match b, h with
  | revision :: count :: rest, ⟨hlen, hfrom, hto⟩ =>
    have htext : ∃ t, sidToString (revision :: count :: rest) = some t := by
      rw [sidToString, if_neg (by simp only [List.length_cons]; omega)]
      exact ⟨_, rfl⟩
    obtain ⟨t, ht⟩ := htext
    obtain ⟨s, hs⟩ := sid_of_sidToString ht
    refine ⟨s, ?_, hs⟩
    have hcount : count = UInt8.ofNat s.subs.length := (List.cons.inj (List.cons.inj hs).2).1
    rw [hcount, UInt8.toNat_ofNat_of_lt' s.count_lt] at hfrom hto
    exact ⟨hfrom, hto⟩

/-! ## Text to bytes -/

/-- A number as `str::parse` takes it: digits, with a plus sign or without. -/
def Spells (f : Text) (n : Nat) : Prop := ∃ ds, (f = ds ∨ f = '+' :: ds) ∧ ds ≠ [] ∧ AreDigits ds ∧ value ds = n

theorem decimal_eq_some : decimal f = some n ↔ f ≠ [] ∧ AreDigits f ∧ value f = n := by
  unfold decimal AreDigits value
  rw [Option.ite_none_right_eq_some, List.all_eq_true, Option.some.injEq, and_assoc]

variable {bound : Nat}

theorem parseUnsigned_eq_some : parseUnsigned bound f = some n ↔ Spells f n ∧ n < bound := by
  have hplus : ∀ ds : Text, ¬ AreDigits ('+' :: ds) := fun ds h => absurd (h '+' List.mem_cons_self) (by decide)
  rw [parseUnsigned, Option.filter_eq_some_iff, decide_eq_true_eq, decimal_eq_some]
  refine and_congr_left fun _ => ?_
  cases hf : stripFirst '+' f with
  | some ds =>
    obtain rfl := stripFirst_eq_some.1 hf
    refine ⟨fun h => ⟨ds, Or.inr rfl, h⟩, ?_⟩
    rintro ⟨ds', rfl | heq, hne, hdigits, hvalue⟩
    · exact (hplus ds hdigits).elim
    · cases heq
      exact ⟨hne, hdigits, hvalue⟩
  | none =>
    refine ⟨fun h => ⟨f, Or.inl rfl, h⟩, ?_⟩
    rintro ⟨ds', rfl | rfl, h⟩
    · exact h
    · cases hf

theorem dash_not_mem_of_spells (h : Spells f n) : '-' ∉ f := by
  obtain ⟨ds, hf, -, hdigits, -⟩ := h
  have hds : '-' ∉ ds := fun hmem => absurd (hdigits '-' hmem) (by decide)
  rcases hf with rfl | rfl
  · exact hds
  · simp [hds]

theorem spells_number (n : Nat) : Spells (number n) n :=
  ⟨number n, Or.inl rfl, by rw [number_ofNat]; exact decimal_eq_some.1 (decimal_toDigits n)⟩

theorem parseAll_eq_some :
    fs.mapM (parseUnsigned bound) = some ns ↔ List.Forall₂ Spells fs ns ∧ ∀ n ∈ ns, n < bound := by
  induction fs generalizing ns with
  | nil =>
    simp only [List.mapM_nil, Option.pure_def, Option.some.injEq, List.forall₂_nil_left_iff]
    exact ⟨fun h => by simp [← h], fun h => h.1.symm⟩
  | cons f fs ih =>
    rw [List.mapM_cons]
    simp only [Option.bind_eq_bind, Option.bind_eq_some_iff, Option.pure_def, Option.some.injEq, ih,
      parseUnsigned_eq_some]
    constructor
    · rintro ⟨n, ⟨hn, hlt⟩, ns, ⟨hns, hall⟩, rfl⟩
      exact ⟨.cons hn hns, List.forall_mem_cons.2 ⟨hlt, hall⟩⟩
    · rintro ⟨_ | ⟨hn, hns⟩, hall⟩
      obtain ⟨hlt, hall⟩ := List.forall_mem_cons.1 hall
      exact ⟨_, ⟨hn, hlt⟩, _, ⟨hns, hall⟩, rfl⟩

theorem dash_not_mem_of_forall₂ (h : List.Forall₂ Spells fs ns) : ∀ f ∈ fs, '-' ∉ f := by
  induction h with
  | nil => simp
  | cons hf _ ih => exact List.forall_mem_cons.2 ⟨dash_not_mem_of_spells hf, ih⟩

theorem splitOn_fields (h : ∀ g ∈ f :: fs, '-' ∉ g) : (f ++ fs.flatMap fun g => '-' :: g).splitOn '-' = f :: fs := by
  induction fs generalizing f with
  | nil => simpa using List.splitOn_eq_singleton (h f List.mem_cons_self)
  | cons g fs ih =>
    rw [List.flatMap_cons, List.cons_append, List.splitOn_append_cons_self_of_not_mem (h f List.mem_cons_self),
      ih fun g' hg' => h g' (List.mem_cons_of_mem _ hg')]

theorem fields_of_splitOn (h : t.splitOn '-' = f :: fs) : t = f ++ fs.flatMap fun g => '-' :: g := by
  have hjoin := congrArg (['-'].intercalate) h
  rw [List.intercalate_splitOn] at hjoin
  rw [hjoin]
  clear h hjoin
  induction fs generalizing f with
  | nil => simp [List.intercalate]
  | cons g fs ih =>
    have := ih (f := g)
    simp_all [List.intercalate]

def Sid.Spelled (s : Sid) (t : Text) : Prop :=
  ∃ r a fs, t = 'S' :: '-' :: (r ++ (a :: fs).flatMap fun g => '-' :: g) ∧ Spells r s.revision ∧ Spells a s.authority ∧
    List.Forall₂ Spells fs s.subs

theorem Sid.spelled_text (s : Sid) : s.Spelled s.text :=
  ⟨number s.revision, number s.authority, s.subs.map fun n : Nat => number n, by simp [text, List.flatMap_map],
    spells_number _, spells_number _, List.forall₂_map_left_iff.2 (List.forall₂_same.2 fun n _ => spells_number n)⟩

/-- `sid_bytes` gives the bytes of the SID a text spells, where that has one to fifteen sub-authorities. -/
theorem sidBytes_eq_some : sidBytes t = some b ↔ ∃ s : Sid, s.Usual ∧ s.Spelled t ∧ b = s.bytes := by
  constructor
  · intro h
    simp only [sidBytes, Option.bind_eq_bind, Option.bind_eq_some_iff, stripFirst_eq_some] at h
    obtain ⟨rest, ⟨u, rfl, rfl⟩, h⟩ := h
    split at h
    · rename_i r a fs hsplit
      simp only [Option.bind_eq_some_iff, parseUnsigned_eq_some] at h
      obtain ⟨revision, ⟨hr, hrevision⟩, authority, ⟨ha, -⟩, h⟩ := h
      rw [Option.ite_none_left_eq_some] at h
      obtain ⟨hauthority, h⟩ := h
      obtain ⟨subs, hsubs, h⟩ := Option.bind_eq_some_iff.1 h
      rw [Option.ite_none_left_eq_some, Option.some.injEq] at h
      obtain ⟨hcount, rfl⟩ := h
      obtain ⟨hfs, hlt⟩ := parseAll_eq_some.1 hsubs
      have hlen : 1 ≤ subs.length ∧ subs.length ≤ 15 := by
        rw [not_or, not_lt] at hcount
        exact ⟨List.length_pos_iff.2 hcount.1, hcount.2⟩
      refine ⟨⟨revision, authority, subs, hrevision, not_le.1 hauthority, hlt, by omega⟩, hlen,
        ⟨r, a, fs, ?_, hr, ha, hfs⟩, rfl⟩
      rw [fields_of_splitOn hsplit]
    · cases h
  · rintro ⟨s, ⟨hfrom, hto⟩, ⟨r, a, fs, rfl, hr, ha, hfs⟩, rfl⟩
    have hdash : ∀ g ∈ r :: a :: fs, '-' ∉ g := by
      simp only [List.forall_mem_cons]
      exact ⟨dash_not_mem_of_spells hr, dash_not_mem_of_spells ha, dash_not_mem_of_forall₂ hfs⟩
    have hrevision : parseUnsigned (2 ^ 8) r = some s.revision := parseUnsigned_eq_some.2 ⟨hr, s.revision_lt⟩
    have hauthority : parseUnsigned (2 ^ 64) a = some s.authority :=
      parseUnsigned_eq_some.2 ⟨ha, lt_trans s.authority_lt (by decide)⟩
    have hsubs : fs.mapM (parseUnsigned (2 ^ 32)) = some s.subs := parseAll_eq_some.2 ⟨hfs, s.subs_lt⟩
    have hne : s.subs ≠ [] := List.length_pos_iff.1 hfrom
    simp only [sidBytes, stripFirst, if_true, Option.bind_eq_bind, Option.bind_some, splitOn_fields hdash, hrevision,
      hauthority, hsubs]
    rw [if_neg (not_le.2 s.authority_lt), if_neg (by simp [hne, hto]), Sid.bytes]

theorem sidBytes_text (h : s.Usual) : sidBytes s.text = some s.bytes :=
  sidBytes_eq_some.2 ⟨s, h, s.spelled_text, rfl⟩

/-! ## One text for one SID -/

theorem Sid.text_injective {s' : Sid} (h : s.text = s'.text) : s = s' := by
  have hfields : ∀ s : Sid, (number s.revision ++ (s.authority :: s.subs).flatMap fun n : Nat =>
    '-' :: number n).splitOn '-' =
      number s.revision :: (s.authority :: s.subs).map fun n : Nat => number n := by
    intro s
    rw [← splitOn_fields, List.flatMap_map]
    simp only [List.forall_mem_cons, List.forall_mem_map]
    exact ⟨dash_not_mem_of_spells (spells_number _), dash_not_mem_of_spells (spells_number _),
      fun n _ => dash_not_mem_of_spells (spells_number n)⟩
  have hnumber : Function.Injective fun n : Nat => number n := number_injective.comp Nat.cast_injective
  simp only [text, List.cons.injEq, true_and] at h
  have hlists := congrArg (List.splitOn '-') h
  rw [hfields, hfields, List.cons.injEq, (List.map_injective_iff.2 hnumber).eq_iff, List.cons.injEq] at hlists
  exact Sid.ext (hnumber hlists.1) hlists.2.1 hlists.2.2

theorem isWhitespace_number {c : Char} (h : c ∈ number n) : isWhitespace c = false := by
  rw [number_ofNat] at h
  obtain ⟨hfrom, hto⟩ := digit_bounds (isDigit_of_mem_toDigits h)
  simp [isWhitespace]
  omega

theorem Sid.trim_text (s : Sid) : trim s.text = s.text := by
  refine stripEnds_of_bare (bare_of_forall fun c hc => ?_)
  simp only [text, List.mem_cons, List.mem_append, List.mem_flatMap] at hc
  rcases hc with rfl | rfl | hc | ⟨n, -, rfl | hc⟩
  · rfl
  · rfl
  · exact isWhitespace_number hc
  · rfl
  · exact isWhitespace_number hc

/-- The bytes a text denotes: those of the SID it spells, white space around it aside. -/
def denoted (t : Text) : Option Bytes := sidBytes (trim t)

theorem denoted_eq_some : denoted t = some b ↔ ∃ s : Sid, s.Usual ∧ s.Spelled (trim t) ∧ b = s.bytes :=
  sidBytes_eq_some

theorem canonicalSid_of_denoted (h : denoted t = some s.bytes) : canonicalSid t = some s.text := by
  rw [canonicalSid, ← denoted, h, Option.bind_some, sidToString_bytes]

theorem canonicalSid_eq_some :
    canonicalSid t = some c ↔ ∃ s : Sid, s.Usual ∧ denoted t = some s.bytes ∧ c = s.text := by
  constructor
  · intro h
    obtain ⟨b, hb, hc⟩ := Option.bind_eq_some_iff.1 h
    obtain ⟨s, husual, -, rfl⟩ := sidBytes_eq_some.1 hb
    rw [sidToString_bytes, Option.some.injEq] at hc
    exact ⟨s, husual, hb, hc.symm⟩
  · rintro ⟨s, -, hb, rfl⟩
    exact canonicalSid_of_denoted hb

theorem denoted_text (h : s.Usual) : denoted s.text = some s.bytes := by
  rw [denoted, s.trim_text, sidBytes_text h]

theorem canonicalSid_canonical (h : canonicalSid t = some c) : canonicalSid c = some c ∧ denoted c = denoted t := by
  obtain ⟨s, husual, hb, rfl⟩ := canonicalSid_eq_some.1 h
  exact ⟨canonicalSid_of_denoted (denoted_text husual), (denoted_text husual).trans hb.symm⟩

theorem canonicalSid_eq_none : canonicalSid t = none ↔ denoted t = none := by
  refine ⟨fun h => ?_, fun h => by rw [canonicalSid, ← denoted, h, Option.bind_none]⟩
  cases hb : denoted t with
  | none => rfl
  | some b =>
    obtain ⟨s, -, -, rfl⟩ := denoted_eq_some.1 hb
    rw [canonicalSid_of_denoted hb] at h
    cases h

theorem canonicalSid_eq_iff {a b : Text} : canonicalSid a = canonicalSid b ↔ denoted a = denoted b := by
  refine ⟨fun h => ?_, fun h => by rw [canonicalSid, canonicalSid, ← denoted, ← denoted, h]⟩
  cases hc : canonicalSid a with
  | none => rw [canonicalSid_eq_none.1 hc, canonicalSid_eq_none.1 (h ▸ hc)]
  | some c =>
    have hb : canonicalSid b = some c := h ▸ hc
    exact (canonicalSid_canonical hc).2.symm.trans (canonicalSid_canonical hb).2

theorem denoted_of_sidToString (h : canonicalSid t = some c) (hb : sidToString b = some c) : denoted t = some b := by
  obtain ⟨s, -, hdenoted, rfl⟩ := canonicalSid_eq_some.1 h
  obtain ⟨s', rfl⟩ := sid_of_sidToString hb
  rw [sidToString_bytes, Option.some.injEq] at hb
  rw [hdenoted, Sid.text_injective hb]

/-! ## SIDs in a search filter -/

def sidFilter (sid : Text) : Option Text := (sidBytes sid).map fun b => b.flatMap fun x => '\\' :: hexText [x]

/-- The bytes a value in a search filter stands for: a backslash and two hexadecimal digits are a byte, and the
characters that have a meaning in a filter are not there by themselves. -/
def filterValue : Text → Option Bytes
  | [] => some []
  | '\\' :: hi :: lo :: rest => do
    let h ← hexDigit hi
    let l ← hexDigit lo
    let bytes ← filterValue rest
    pure (UInt8.ofNat (16 * h + l) :: bytes)
  | c :: rest =>
    if ['\\', '*', '(', ')', Char.ofNat 0].contains c then none
    else (filterValue rest).map (String.utf8EncodeChar c ++ ·)

theorem filterValue_escaped (b : Bytes) : filterValue (b.flatMap fun x => '\\' :: hexText [x]) = some b := by
  induction b with
  | nil => rfl
  | cons x b ih =>
    have hx : x.toNat < 256 := x.toNat_lt
    have hhi := hexDigit_digitChar (x.toNat / 16) (by omega)
    have hlo := hexDigit_digitChar (x.toNat % 16) (by omega)
    have hbyte : UInt8.ofNat (16 * (x.toNat / 16) + x.toNat % 16) = x := by rw [Nat.div_add_mod, UInt8.ofNat_toNat]
    rw [List.flatMap_cons]
    show filterValue ('\\' :: _ :: _ :: (b.flatMap fun x => '\\' :: hexText [x])) = _
    rw [filterValue]
    simp only [hhi, hlo, ih, Option.bind_eq_bind, Option.bind_some, hbyte, Option.pure_def]

end WebAccess.Saml
