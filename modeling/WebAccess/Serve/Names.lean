/-
The account name in what is typed or configured (`normalize_username` of `directory.rs`), and its two uses: the
administrators the configuration names (`is_bootstrap_admin` of `config.rs`) and the row a sign-in looks for
(`login` of `web.rs`). Lower-casing is the standard library's, of which a few laws are used.

White space is taken off before the name is cut out of `DOMAIN\name` or `name@domain`, and the length is checked
before the letters are lowered. So a name can be left with white space at an end, or grow past the bound, and is then
not its own normal form.
-/
import WebAccess.Lib.Trimming
import WebAccess.Serve.Calls
import Mathlib.Data.List.Forall2

namespace WebAccess

open Wire Trimming

/-! ## The characters of a name -/

def isControl (c : Char) : Bool := c.toNat < 0x20 || (0x7F ≤ c.toNat && c.toNat ≤ 0x9F)

def forbidden : List Char :=
  ['"', '/', '\\', '[', ']', ':', ';', '|', '=', ',', '+', '*', '?', '<', '>', '@', '(', ')', Char.ofNat 0]

def isBarred (c : Char) : Bool := isControl c || forbidden.contains c

/-- `str::to_lowercase`, by what is used of it: every character gives one or more, as many in any text; white space and
the characters that are barred stay as they are and come from nothing else; what is lowered once stays, and ASCII
letters may be lowered before. -/
structure Lowercase where
  lower : Text → Text
  width : Char → Nat
  pieces : ∀ t, ∃ ps : List Text, lower t = ps.flatten ∧ List.Forall₂
    (fun c p => p.length = width c ∧ p ≠ [] ∧
      if isWhitespace c || isBarred c then p = [c] else ∀ d ∈ p, isWhitespace d = false ∧ isBarred d = false) t ps
  lower_lower : ∀ t, lower (lower t) = lower t
  lower_ascii : ∀ t : Text, lower (t.map Char.toLower) = lower t

/-! ## The name -/

/-- The part of what is typed that names the account: after the last backslash, and before an at sign. -/
def namePart (input : Text) : Text :=
  let s := trim input
  let s := (s.reverse.takeWhile (· != '\\')).reverse
  s.takeWhile (· != '@')

/-- `normalize_username` -/
def normalizeUsername (low : Lowercase) (input : Text) : Option Text :=
  let s := namePart input
  if s = [] ∨ 64 < s.length then none
  else if s.any isBarred then none
  else some (low.lower s)

def isBootstrapAdmin (low : Lowercase) (admins : List Text) (username : Text) : Bool :=
  (admins.filterMap (normalizeUsername low)).any (· == username)

/-- The row `login` looks for: nothing where the name is refused. -/
def typedRow (low : Lowercase) (store : Store) (typed : Text) : Option User :=
  (normalizeUsername low typed).bind store.userByName

/-! ## Lower-casing keeps what is checked -/

section Lower

variable {low : Lowercase} {t : Text}

theorem lower_length (low : Lowercase) (t : Text) : (low.lower t).length = (t.map low.width).sum := by
  obtain ⟨ps, hps, hpieces⟩ := low.pieces t
  rw [hps, List.length_flatten]
  refine congrArg List.sum ?_
  clear hps
  induction hpieces with
  | nil => rfl
  | cons h _ ih => rw [List.map_cons, List.map_cons, h.1, ih]

theorem length_le_lower (low : Lowercase) (t : Text) : t.length ≤ (low.lower t).length := by
  obtain ⟨ps, hps, hpieces⟩ := low.pieces t
  rw [hps]
  clear hps
  induction hpieces with
  | nil => rfl
  | cons h _ ih =>
    have hone := List.length_pos_iff.2 h.2.1
    rw [List.flatten_cons, List.length_append, List.length_cons]
    omega

theorem not_barred_of_lower (h : ∀ c ∈ t, isBarred c = false) : ∀ c ∈ low.lower t, isBarred c = false := by
  obtain ⟨ps, hps, hpieces⟩ := low.pieces t
  rw [hps]
  clear hps
  induction hpieces with
  | nil => simp
  | @cons c p t ps hpiece _ ih =>
    obtain ⟨hc, ht⟩ := List.forall_mem_cons.1 h
    intro d hd
    rw [List.flatten_cons, List.mem_append] at hd
    rcases hd with hd | hd
    · have hp := hpiece.2.2
      split at hp
      · rw [hp, List.mem_singleton] at hd
        exact hd ▸ hc
      · exact (hp d hd).2
    · exact ih ht d hd

theorem ends_flatten {f : Char → Bool} {ps : List Text}
    (h : List.Forall₂ (fun c p => p ≠ [] ∧ ∀ d ∈ p, f d = f c) t ps) :
    ps.flatten.head?.map f = t.head?.map f ∧ ps.flatten.getLast?.map f = t.getLast?.map f := by
  have hhead : ∀ {t : Text} {ps : List Text}, List.Forall₂ (fun c p => p ≠ [] ∧ ∀ d ∈ p, f d = f c) t ps →
      ps.flatten.head?.map f = t.head?.map f := by
    rintro _ _ (_ | ⟨⟨hne, hp⟩, -⟩)
    · rfl
    · obtain ⟨d, p, rfl⟩ := List.exists_cons_of_ne_nil hne
      exact congrArg some (hp d List.mem_cons_self)
  refine ⟨hhead h, ?_⟩
  have hrev : List.Forall₂ (fun c p => p ≠ [] ∧ ∀ d ∈ p, f d = f c) t.reverse (ps.map List.reverse).reverse := by
    refine List.forall₂_reverse_iff.2 (List.forall₂_map_right_iff.2 (h.imp fun c p hp => ?_))
    exact ⟨by simpa using hp.1, fun d hd => hp.2 d (List.mem_reverse.1 hd)⟩
  have hlast := hhead hrev
  rwa [← List.reverse_flatten, List.head?_reverse, List.head?_reverse] at hlast

theorem bare_lower_iff : Bare isWhitespace (low.lower t) ↔ Bare isWhitespace t := by
  obtain ⟨ps, hps, hpieces⟩ := low.pieces t
  have hends := ends_flatten (f := isWhitespace) (hpieces.imp fun c p hp => ⟨hp.2.1, fun d hd => by
    have hpiece := hp.2.2
    split at hpiece
    · rw [hpiece, List.mem_singleton] at hd
      rw [hd]
    · rename_i hplain
      rw [(hpiece d hd).1, (by simpa using hplain : isWhitespace c = false ∧ _).1]⟩)
  rw [← hps] at hends
  have hbare : ∀ o o' : Option Char, o.map isWhitespace = o'.map isWhitespace →
      ((∀ c ∈ o, isWhitespace c = false) ↔ ∀ c ∈ o', isWhitespace c = false) := by
    intro o o' h
    cases o <;> cases o' <;> simp_all
  exact and_congr (hbare _ _ hends.1) (hbare _ _ hends.2)

end Lower

/-! ## A name that is its own normal form -/

section OwnForm

variable {low : Lowercase} {u input : Text}

/-- What a stored username has to be: of one to 64 characters, lower case, without white space at its ends and without
barred characters. -/
structure OwnForm (low : Lowercase) (u : Text) : Prop where
  length : 1 ≤ u.length ∧ u.length ≤ 64
  bare : Bare isWhitespace u
  plain : ∀ c ∈ u, isControl c = false ∧ c ∉ forbidden
  lowered : low.lower u = u

theorem not_barred_iff {t : Text} : (∀ c ∈ t, isBarred c = false) ↔ ∀ c ∈ t, isControl c = false ∧ c ∉ forbidden := by
  simp [isBarred]

theorem normalizeUsername_eq_some : normalizeUsername low input = some u ↔
    namePart input ≠ [] ∧ (namePart input).length ≤ 64 ∧ (∀ c ∈ namePart input, isBarred c = false) ∧
      low.lower (namePart input) = u := by
  unfold normalizeUsername
  simp only [Option.ite_none_left_eq_some, not_or, not_lt, Option.some.injEq, Bool.not_eq_true,
    List.any_eq_false, and_assoc]

theorem namePart_infix_trim (input : Text) : namePart input <:+: trim input := by
  have hcut : ((trim input).reverse.takeWhile (· != '\\')).reverse <:+ trim input := by
    rw [← List.reverse_prefix, List.reverse_reverse]
    exact List.takeWhile_prefix _
  exact (List.takeWhile_prefix _).isInfix.trans hcut.isInfix

theorem namePart_eq_self (hbare : Bare isWhitespace u) (hplain : ∀ c ∈ u, isBarred c = false) : namePart u = u := by
  have hkeep : ∀ c : Char, isBarred c = true → ∀ t : Text, (∀ d ∈ t, isBarred d = false) →
      t.takeWhile (· != c) = t := by
    intro c hc t ht
    refine List.takeWhile_eq_self_iff.2 fun d hd => bne_iff_ne.2 fun heq => ?_
    rw [← heq, ht d hd] at hc
    cases hc
  have htrim : trim u = u := stripEnds_of_bare hbare
  simp only [namePart, htrim]
  rw [hkeep '\\' (by decide) _ fun d hd => hplain d (List.mem_reverse.1 hd), List.reverse_reverse,
    hkeep '@' (by decide) _ hplain]

theorem OwnForm.normalizes (h : OwnForm low u) : normalizeUsername low u = some u := by
  have hpart := namePart_eq_self h.bare (not_barred_iff.2 h.plain)
  rw [normalizeUsername_eq_some, hpart]
  exact ⟨List.length_pos_iff.1 h.length.1, h.length.2, not_barred_iff.2 h.plain, h.lowered⟩

theorem lower_length_of_infix {s : Text} (h : low.lower u = u) (hs : s <:+: u) : (low.lower s).length = s.length := by
  obtain ⟨a, b, rfl⟩ := hs
  have hall := congrArg List.length h
  have ha := length_le_lower low a
  have hb := length_le_lower low b
  have hs := length_le_lower low s
  simp only [lower_length, List.map_append, List.sum_append, List.length_append] at *
  omega

theorem ownForm_of_normalizes (h : normalizeUsername low u = some u) : OwnForm low u := by
  obtain ⟨hne, hlen, hplain, hlower⟩ := normalizeUsername_eq_some.1 h
  have hfix : low.lower u = u := by rw [← hlower, low.lower_lower]
  have htrim : trim u <:+: u := stripEnds_infix isWhitespace u
  have hpart := (namePart_infix_trim u).trans htrim
  have hsame : (namePart u).length = u.length := by rw [← lower_length_of_infix hfix hpart, hlower]
  rw [hpart.eq_of_length hsame] at hne hlen hplain
  refine ⟨⟨List.length_pos_iff.2 hne, hlen⟩, ?_, not_barred_iff.1 hplain, hfix⟩
  have hpart := (namePart_infix_trim u).length_le
  exact stripEnds_eq_self_iff.1 (htrim.eq_of_length (le_antisymm htrim.length_le (hsame ▸ hpart)))

theorem normalizeUsername_self_iff : normalizeUsername low u = some u ↔ OwnForm low u :=
  ⟨ownForm_of_normalizes, OwnForm.normalizes⟩

/-- No white space next to a separator, and few enough characters once lowered. -/
def Tidy (low : Lowercase) (input : Text) : Prop :=
  Bare isWhitespace (namePart input) ∧ ((namePart input).map low.width).sum ≤ 64

theorem ownForm_iff (h : normalizeUsername low input = some u) : OwnForm low u ↔ Tidy low input := by
  obtain ⟨hne, hlen, hplain, rfl⟩ := normalizeUsername_eq_some.1 h
  have hpos := lt_of_lt_of_le (List.length_pos_iff.2 hne) (length_le_lower low (namePart input))
  constructor
  · intro hform
    exact ⟨bare_lower_iff.1 hform.bare, lower_length low _ ▸ hform.length.2⟩
  · rintro ⟨hbare, hwidth⟩
    exact ⟨⟨hpos, (lower_length low _).symm ▸ hwidth⟩, bare_lower_iff.2 hbare,
      not_barred_iff.1 (not_barred_of_lower hplain),
      low.lower_lower _⟩

end OwnForm

/-! ## The rows -/

variable {low : Lowercase}

theorem isAdmin_eq {a : App} {admins : List Text} (h : a.bootstrapAdmins = admins.filterMap (normalizeUsername low))
    (row : User) : a.isAdmin row = (row.isAdmin || isBootstrapAdmin low admins row.username) := by
  rw [App.isAdmin, h, isBootstrapAdmin, List.contains_eq_any_beq]
  simp only [Bool.beq_comm]

theorem typedRow_self_iff {store : Store} {row : User} (hrow : row ∈ store.users.rows)
    (hunique : ∀ r ∈ store.users.rows, r.username = row.username → r = row) :
    typedRow low store row.username = some row ↔ OwnForm low row.username := by
  have hfind : ∀ name r, store.userByName name = some r → r.username = name := by
    intro name r h
    have hname := List.find?_some h
    exact beq_iff_eq.1 hname
  rw [← normalizeUsername_self_iff, typedRow, Option.bind_eq_some_iff]
  constructor
  · rintro ⟨name, hname, hfound⟩
    rwa [← hfind name row hfound] at hname
  · intro h
    refine ⟨_, h, ?_⟩
    cases hfound : store.userByName row.username with
    | none => exact absurd (List.find?_eq_none.1 hfound row hrow) (by simp)
    | some r => rw [hunique r (List.mem_of_find?_eq_some hfound) (hfind _ r hfound)]

/-- The normal form of what is typed has one to 64 characters, no white space at its ends, no barred character and
itself as its normal form, exactly where no white space stands next to a separator and the name is short enough once
lowered. Every administrator the configuration names by the name of a row is granted; the row is found by its own name
exactly where that is its own normal form. -/
theorem usernames_have_one_form (low : Lowercase) :
    (∀ input u : Text, normalizeUsername low input = some u →
      ((1 ≤ u.length ∧ u.length ≤ 64) ∧ Bare isWhitespace u ∧ (∀ c ∈ u, isControl c = false ∧ c ∉ forbidden) ∧
        normalizeUsername low u = some u ↔ Tidy low input)) ∧
    ∀ (a : App) (admins : List Text) (row : User), a.bootstrapAdmins = admins.filterMap (normalizeUsername low) →
      row ∈ a.store.users.rows → (∀ r ∈ a.store.users.rows, r.username = row.username → r = row) →
      (∀ name ∈ admins, normalizeUsername low name = some row.username → a.isAdmin row = true) ∧
        (typedRow low a.store row.username = some row ↔ OwnForm low row.username) := by
  refine ⟨fun input u h => ?_, fun a admins row hadmins hrow hunique =>
    ⟨fun name hname h => ?_, typedRow_self_iff hrow hunique⟩⟩
  · rw [← ownForm_iff h]
    exact ⟨fun hu => normalizeUsername_self_iff.1 hu.2.2.2, fun hu => ⟨hu.length, hu.bare, hu.plain, hu.normalizes⟩⟩
  · rw [isAdmin_eq hadmins, isBootstrapAdmin, Bool.or_eq_true]
    exact Or.inr (List.any_eq_true.2 ⟨_, List.mem_filterMap.2 ⟨name, hname, h⟩, beq_self_eq_true _⟩)

/-- What a character gives in lower case, for the ASCII letters and for the capital I with a dot, which gives two
characters. -/
def dottedPiece (c : Char) : Text := if c.toNat = 0x130 then ['i', Char.ofNat 0x307] else [c.toLower]

theorem dottedPiece_cases {P : Char → Prop} (hdot : P (Char.ofNat 0x130)) (hupper : ∀ n < 91, 65 ≤ n → P (Char.ofNat n))
    (hstay : ∀ c, c.toNat ≠ 0x130 → c.toLower = c → P c) (c : Char) : P c := by
  by_cases hc : c.toNat = 0x130
  · rwa [← hc, Char.ofNat_toNat] at hdot
  by_cases hletter : 65 ≤ c.toNat ∧ c.toNat ≤ 90
  · have h := hupper c.toNat (by omega) hletter.1
    rwa [Char.ofNat_toNat] at h
  · refine hstay c hc ?_
    unfold Char.toLower
    rw [dif_neg]
    rintro ⟨hfrom, hto⟩
    exact hletter ⟨UInt32.le_iff_toNat_le.1 hfrom, UInt32.le_iff_toNat_le.1 hto⟩

theorem plain_iff {p : Text} : (∀ d ∈ p, isWhitespace d = false ∧ isBarred d = false) ↔
    p.all (fun d => !isWhitespace d && !isBarred d) = true := by
  simp

def dottedLower : Lowercase where
  lower t := t.flatMap dottedPiece
  width c := (dottedPiece c).length
  pieces t := by
    refine ⟨t.map dottedPiece, List.flatMap_def .., List.forall₂_map_right_iff.2 (List.forall₂_same.2 fun c _ => ?_)⟩
    refine ⟨rfl, ?_⟩
    simp only [plain_iff]
    refine dottedPiece_cases (P := fun c => dottedPiece c ≠ [] ∧
      if isWhitespace c || isBarred c then dottedPiece c = [c] else
      (dottedPiece c).all (fun d => !isWhitespace d && !isBarred d)) (by decide) (by decide) (fun c hc hstay => ?_) c
    rw [dottedPiece, if_neg hc, hstay]
    refine ⟨by simp, ?_⟩
    split
    · rfl
    · rename_i hplain
      simpa using hplain
  lower_lower t := by
    rw [List.flatMap_assoc]
    refine congrArg (fun g => t.flatMap g) (funext fun c => ?_)
    refine dottedPiece_cases (P := fun c => (dottedPiece c).flatMap dottedPiece = dottedPiece c) (by decide) (by decide)
      (fun c hc hstay => ?_) c
    simp [dottedPiece, hc, hstay]
  lower_ascii t := by
    rw [List.flatMap_map]
    refine congrArg (fun g => t.flatMap g) (funext fun c => ?_)
    exact dottedPiece_cases (P := fun c => dottedPiece c.toLower = dottedPiece c) (by decide) (by decide)
      (fun c hc hstay => by rw [hstay]) c

/-- A name with its domain, as it is stored and as it is found again. -/
theorem usernames_have_one_form_jdoe : normalizeUsername dottedLower "CORP\\JDoe" = some "jdoe" ∧
    Tidy dottedLower "CORP\\JDoe" ∧ normalizeUsername dottedLower "jdoe" = some "jdoe" :=
  have hname : normalizeUsername dottedLower "CORP\\JDoe" = some "jdoe" := by decide
  have htidy : Tidy dottedLower "CORP\\JDoe" := ⟨stripEnds_eq_self_iff.1 (by decide), by decide⟩
  ⟨hname, htidy, (((usernames_have_one_form dottedLower).1 _ _ hname).2 htidy).2.2.2⟩

/-- White space after the separator stays, and is gone when the result is typed; 64 capitals with dots give 128
characters, which are refused. -/
theorem usernames_without_one_form : ∃ low : Lowercase,
    normalizeUsername low "CORP\\ jdoe" = some " jdoe" ∧
    normalizeUsername low " jdoe" = some "jdoe" ∧
    ∃ u, normalizeUsername low (List.replicate 64 (Char.ofNat 0x130)) = some u ∧ u.length = 128 ∧
      normalizeUsername low u = none :=
  ⟨dottedLower, by decide, by decide, _, rfl, by decide +kernel, by decide +kernel⟩

end WebAccess
