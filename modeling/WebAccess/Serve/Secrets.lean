/-
The encodings of secrets (`vault.rs`): the password of a local account as `argon2id$<salt>$<hash>`, and blobs under a
passphrase as a format byte, the salt, the nonce and the ciphertext. Argon2id and the cipher are parameters. A function
that slices at fixed offsets returns none where the source would panic.

What is read as hexadecimal is more than what is written: `u8::from_str_radix` takes a plus sign for the first of two
digits. The main result says that all is as `verify_password` and `decrypt_with_passphrase` promise for every string in
which no byte is written so.
-/
import WebAccess.Lib.Cipher
import WebAccess.Saml.Flow
import WebAccess.Serve.Vault

namespace WebAccess.Secrets

open Codec Wire Saml

/-! ## Strings by byte offsets -/

/-- `str::len` -/
def strLen (t : Text) : Nat := (t.map Char.utf8Size).sum

/-- What comes `n` bytes into a string; none if a character would be cut. -/
def dropBytes : Nat → Text → Option Text
  | 0, t => some t
  | _ + 1, [] => none
  | n + 1, c :: t => if c.utf8Size ≤ n + 1 then dropBytes (n + 1 - c.utf8Size) t else none

/-- The first `n` bytes of a string; none if a character would be cut. -/
def takeBytes : Nat → Text → Option Text
  | 0, _ => some []
  | _ + 1, [] => none
  | n + 1, c :: t => if c.utf8Size ≤ n + 1 then (c :: ·) <$> takeBytes (n + 1 - c.utf8Size) t else none

/-- `str::get(i..j)` -/
def strGet (t : Text) (i j : Nat) : Option Text := (dropBytes i t).bind (takeBytes (j - i))

/-! ## Hexadecimal -/

/-- The digits of `u8::from_str_radix`, with its check for overflow. -/
def hexNumber (digits : Text) : Option Nat :=
  digits.foldlM (fun n c => (hexDigit c).bind fun d => if 16 * n + d < 256 then some (16 * n + d) else none) 0

/-- `u8::from_str_radix(_, 16)` -/
def fromStrRadix16 : Text → Option UInt8
  | [] => none
  | ['+'] => none
  | ['-'] => none
  | '+' :: digits => UInt8.ofNat <$> hexNumber digits
  | digits => UInt8.ofNat <$> hexNumber digits

def unhex (t : Text) : Option Bytes :=
  if strLen t % 2 ≠ 0 then none
  else (List.range (strLen t / 2)).mapM fun k => (strGet t (2 * k) (2 * k + 2)).bind fromStrRadix16

/-! ## Passwords -/

def keyLen : Nat := 32

def saltLen : Nat := 16

def nonceLen : Nat := 12

def format : UInt8 := 1

/-- `[u8; KEY_LEN]` -/
abbrev KeyBytes := { b : Bytes // b.length = keyLen }

/-- `[u8; SALT_LEN]` -/
abbrev Salt := { b : Bytes // b.length = saltLen }

/-- `[u8; NONCE_LEN]` -/
abbrev Nonce := { b : Bytes // b.length = nonceLen }

/-- The errors of the vault these functions return; `protect` has a text of Argon2id's or of the random source's. -/
inductive SecretError
  | protect (message : Text)
  | crypto
  | wrongPassphrase

/-- What Argon2id makes of a passphrase and a salt (`derive`), with the parameters it is called with; the text of its
error when it refuses them. -/
abbrev Argon2id := Text → Bytes → Except Text KeyBytes

variable (argon2id : Argon2id)

def derive (passphrase : Text) (salt : Bytes) : Except SecretError KeyBytes :=
  (argon2id passphrase salt).mapError .protect

/-- What the random source gave; none when it failed. -/
def drawn {α : Type} : Option α → Except SecretError α
  | none => .error (.protect "the OS random source failed")
  | some bytes => .ok bytes

/-- `hash_password`, with the salt that was drawn. -/
def hashPassword (salt : Option Salt) (password : Text) : Except SecretError Text := do
  let salt ← drawn salt
  let hash ← derive argon2id password salt.1
  pure ("argon2id$" ++ hexText salt.1 ++ "$" ++ hexText hash.1)

/-- The comparison of `verify_password`: the differences of the bytes, put together. -/
def sameBytes (got want : Bytes) : Bool :=
  got.length == want.length && (got.zip want).foldl (fun acc x => acc ||| (x.1 ^^^ x.2)) 0 == (0 : UInt8)

/-- `verify_password`; it takes its slices with `get`, and has nothing in it that panics. -/
def verifyPassword (password stored : Text) : Bool :=
  match stored.splitOn '$' with
  | [tag, salt, want] =>
    if tag = "argon2id" then
      match unhex salt, unhex want with
      | some salt, some want =>
        match derive argon2id password salt with
        | .ok got => sameBytes got.1 want
        | .error _ => false
      | _, _ => false
    else false
  | _ => false

/-! ## Blobs under a passphrase -/

/-- What a function that slices ends with; none is a panic. -/
abbrev Returns (α : Type) := Option α

/-- `&b[i..j]` -/
def slice (b : Bytes) (i j : Nat) : Returns Bytes := if i ≤ j ∧ j ≤ b.length then some ((b.take j).drop i) else none

/-- `split_at` -/
def splitAtByte (b : Bytes) (n : Nat) : Returns (Bytes × Bytes) :=
  if n ≤ b.length then some (b.take n, b.drop n) else none

variable (cipher : Cipher KeyBytes)

/-- `seal_blob`, with the nonce that was drawn. -/
def sealBlob (key : KeyBytes) (nonce : Option Nonce) (aad plaintext : Bytes) : Except SecretError Bytes := do
  let nonce ← drawn nonce
  match cipher.encrypt key nonce.1 aad plaintext with
  | none => .error .crypto
  | some ciphertext => pure (nonce.1 ++ ciphertext)

def openBlob (key : KeyBytes) (aad blob : Bytes) : Returns (Except SecretError Bytes) := do
  if blob.length < nonceLen then pure (.error .crypto)
  else
    let (nonce, ciphertext) ← splitAtByte blob nonceLen
    match cipher.decrypt key nonce aad ciphertext with
    | none => pure (.error .crypto)
    | some plain => pure (.ok plain)

/-- `encrypt_with_passphrase`, with the salt and the nonce that were drawn. -/
def encryptWithPassphrase (salt : Option Salt) (nonce : Option Nonce) (passphrase : Text) (aad data : Bytes) :
    Except SecretError Bytes := do
  let salt ← drawn salt
  let kek ← derive argon2id passphrase salt.1
  let blob ← sealBlob cipher kek nonce aad data
  pure (format :: (salt.1 ++ blob))

def decryptWithPassphrase (passphrase : Text) (aad blob : Bytes) : Returns (Except SecretError Bytes) := do
  if blob.length < 1 + saltLen + nonceLen then pure (.error .crypto)
  else
    let first ← blob[0]?
    if first ≠ format then pure (.error .crypto)
    else
      let salt ← slice blob 1 (1 + saltLen)
      match derive argon2id passphrase salt with
      | .error e => pure (.error e)
      | .ok kek => do
        let rest ← slice blob (1 + saltLen) blob.length
        let opened ← openBlob cipher kek aad rest
        match opened with
        | .error _ => pure (.error .wrongPassphrase)
        | .ok plain => pure (.ok plain)

/-! ## What is read as hexadecimal -/

/-- A byte as it is read: two digits, or a plus sign and one. -/
def ReadsByte (c d : Char) (x : UInt8) : Prop :=
  (∃ h l, hexDigit c = some h ∧ hexDigit d = some l ∧ x.toNat = 16 * h + l) ∨ (c = '+' ∧ hexDigit d = some x.toNat)

/-- A string is read as bytes, two characters each. -/
inductive Reads : Text → Bytes → Prop
  | nil : Reads [] []
  | cons {c d : Char} {x : UInt8} {t : Text} {b : Bytes} : ReadsByte c d x → Reads t b → Reads (c :: d :: t) (x :: b)

/-- Some byte of a string, two characters each, is written as a plus sign and a digit. -/
def plusByte : Text → Bool
  | c :: d :: t => c == '+' && (hexDigit d).isSome || plusByte t
  | _ => false

variable {c d : Char} {n : Nat} {x : UInt8} {t password : Text} {b : Bytes}

theorem hexDigit_lt {d : Nat} (h : hexDigit c = some d) : d < 16 := (hexDigit_eq_some.1 h).1

theorem utf8Size_of_hexDigit {d : Nat} (h : hexDigit c = some d) : c.utf8Size = 1 := by
  have hle : c ≤ 'f' := by
    unfold hexDigit at h
    split_ifs at h with hdigit hlower hupper
    · exact hdigit.2.trans (by decide)
    · exact hlower.2
    · exact hupper.2.trans (by decide)
  have hval : c.val ≤ 127 := UInt32.le_trans (Char.le_def.1 hle) (by decide)
  exact Char.utf8Size_eq_one_iff.2 hval

theorem hexNumber_one (d : Char) : hexNumber [d] = hexDigit d := by
  cases hd : hexDigit d with
  | none => simp [hexNumber, hd]
  | some l =>
    have := hexDigit_lt hd
    simp [hexNumber, hd]
    omega

theorem hexNumber_two (c d : Char) :
    hexNumber [c, d] = (hexDigit c).bind fun h => (hexDigit d).map fun l => 16 * h + l := by
  cases hc : hexDigit c with
  | none => simp [hexNumber, hc]
  | some h =>
    have hh := hexDigit_lt hc
    have hsmall : h < 256 := by omega
    cases hd : hexDigit d with
    | none => simp [hexNumber, hc, hd, hsmall]
    | some l =>
      have hl := hexDigit_lt hd
      have hfits : 16 * h + l < 256 := by omega
      simp [hexNumber, hc, hd, hsmall, hfits]

theorem ofNat_eq_iff (h : n < 256) : UInt8.ofNat n = x ↔ x.toNat = n := by
  constructor
  · rintro rfl
    exact UInt8.toNat_ofNat_of_lt' h
  · intro hx
    rw [← hx, UInt8.ofNat_toNat]

theorem fromStrRadix16_pair : fromStrRadix16 [c, d] = some x ↔ ReadsByte c d x := by
  by_cases hc : c = '+'
  · subst hc
    show UInt8.ofNat <$> hexNumber [d] = some x ↔ _
    rw [hexNumber_one]
    cases hd : hexDigit d with
    | none => simp [ReadsByte, hd]
    | some l =>
      have := hexDigit_lt hd
      rw [Option.map_eq_map, Option.map_some, Option.some.injEq, ofNat_eq_iff (by omega)]
      simp [ReadsByte, hd, eq_comm, show hexDigit '+' = none from by decide]
  · have heq : fromStrRadix16 [c, d] = UInt8.ofNat <$> hexNumber [c, d] := by
      unfold fromStrRadix16
      split <;> simp_all
    rw [heq, hexNumber_two]
    cases hh : hexDigit c with
    | none => simp [ReadsByte, hh, hc]
    | some h => cases hl : hexDigit d with
      | none => simp [ReadsByte, hl]
      | some l =>
        have := hexDigit_lt hh
        have := hexDigit_lt hl
        simp [ReadsByte, hh, hl, hc, ofNat_eq_iff (show 16 * h + l < 256 by omega), -UInt8.ofNat_add, -UInt8.ofNat_mul]

theorem ReadsByte.narrow (h : ReadsByte c d x) : c.utf8Size = 1 ∧ d.utf8Size = 1 := by
  rcases h with ⟨_, _, hc, hd, -⟩ | ⟨rfl, hd⟩
  · exact ⟨utf8Size_of_hexDigit hc, utf8Size_of_hexDigit hd⟩
  · exact ⟨rfl, utf8Size_of_hexDigit hd⟩

theorem takeBytes_succ {u : Text} (h : takeBytes (n + 1) t = some u) :
    ∃ c rest v, t = c :: rest ∧ u = c :: v ∧ takeBytes (n + 1 - c.utf8Size) rest = some v := by
  cases t with
  | nil => cases h
  | cons c rest =>
    obtain ⟨-, h⟩ := Option.ite_none_right_eq_some.1 h
    obtain ⟨v, hv, rfl⟩ := Option.map_eq_some_iff.1 h
    exact ⟨c, rest, v, rfl, rfl, hv⟩

theorem takeBytes_two (h : (takeBytes 2 t).bind fromStrRadix16 = some x) :
    ∃ c d rest, t = c :: d :: rest ∧ ReadsByte c d x := by
  obtain ⟨u, hu, hx⟩ := Option.bind_eq_some_iff.1 h
  obtain ⟨c, t, v, rfl, rfl, hv⟩ := takeBytes_succ hu
  have hpos := c.utf8Size_pos
  by_cases hone : c.utf8Size = 1
  · rw [hone] at hv
    obtain ⟨d, rest, w, rfl, rfl, hw⟩ := takeBytes_succ hv
    have hpos' := d.utf8Size_pos
    rw [show 0 + 1 - d.utf8Size = 0 by omega, takeBytes] at hw
    cases hw
    exact ⟨c, d, rest, rfl, fromStrRadix16_pair.1 hx⟩
  · -- one character of two bytes, which is no digit
    rw [show 1 + 1 - c.utf8Size = 0 by omega, takeBytes] at hv
    cases hv
    have hwide : hexDigit c = none := Option.eq_none_iff_forall_ne_some.2 fun d hd => hone (utf8Size_of_hexDigit hd)
    have hnone : fromStrRadix16 [c] = none := by
      unfold fromStrRadix16
      split <;> simp_all [hexNumber_one]
    exact nomatch hnone.symm.trans hx

theorem strLen_pair (hc : c.utf8Size = 1) (hd : d.utf8Size = 1) : strLen (c :: d :: t) = strLen t + 2 := by
  simp only [strLen, List.map_cons, List.sum_cons, hc, hd]
  omega

theorem strGet_pair (hc : c.utf8Size = 1) (hd : d.utf8Size = 1) (k : Nat) :
    strGet (c :: d :: t) (2 * (k + 1)) (2 * (k + 1) + 2) = strGet t (2 * k) (2 * k + 2) := by
  have hdrop : dropBytes (2 * k + 2) (c :: d :: t) = dropBytes (2 * k) t := by
    simp [dropBytes, hc, hd]
  rw [strGet, strGet, show 2 * (k + 1) = 2 * k + 2 by omega, hdrop]
  congr 2
  omega

theorem unhex_pair (hc : c.utf8Size = 1) (hd : d.utf8Size = 1) :
    unhex (c :: d :: t) = (fromStrRadix16 [c, d]).bind fun x => (unhex t).map (x :: ·) := by
  have hfirst : strGet (c :: d :: t) (2 * 0) (2 * 0 + 2) = some [c, d] := by
    simp [strGet, dropBytes, takeBytes, hc, hd]
  have hmod : (strLen t + 2) % 2 = strLen t % 2 := by omega
  have hdiv : (strLen t + 2) / 2 = strLen t / 2 + 1 := by omega
  rw [unhex, unhex, strLen_pair hc hd, hmod, hdiv]
  by_cases heven : strLen t % 2 = 0
  · rw [if_neg (by omega), if_neg (by omega), List.range_succ_eq_map, List.mapM_cons, hfirst, List.mapM_map]
    cases hx : fromStrRadix16 [c, d] with
    | none => simp [hx]
    | some x => simp [hx, Option.map_eq_bind, Function.comp_def, strGet_pair hc hd]
  · rw [if_pos (by omega), if_pos (by omega)]
    cases fromStrRadix16 [c, d] <;> rfl

theorem strLen_eq_zero : strLen t = 0 ↔ t = [] := by
  cases t with
  | nil => exact iff_of_true rfl rfl
  | cons c t =>
    have := c.utf8Size_pos
    simp only [strLen, List.map_cons, List.sum_cons, reduceCtorEq, iff_false]
    omega

theorem unhex_cases (h : unhex t = some b) : (t = [] ∧ b = []) ∨
    ∃ c d rest x b', t = c :: d :: rest ∧ b = x :: b' ∧ ReadsByte c d x ∧ unhex rest = some b' := by
  have hunhex := h
  rw [unhex] at h
  split at h
  · cases h
  cases hn : strLen t / 2 with
  | zero =>
    rw [hn] at h
    cases h
    exact .inl ⟨strLen_eq_zero.1 (by omega), rfl⟩
  | succ n =>
    rw [hn, List.range_succ_eq_map, List.mapM_cons, Option.bind_eq_bind] at h
    obtain ⟨x, hx, -⟩ := Option.bind_eq_some_iff.1 h
    obtain ⟨c, d, rest, rfl, hread⟩ := takeBytes_two (show (takeBytes 2 t).bind fromStrRadix16 = some x by
      simpa [strGet, dropBytes] using hx)
    rw [unhex_pair hread.narrow.1 hread.narrow.2, fromStrRadix16_pair.2 hread, Option.bind_some] at hunhex
    obtain ⟨b', hrest, rfl⟩ := Option.map_eq_some_iff.1 hunhex
    exact .inr ⟨c, d, rest, x, b', rfl, rfl, hread, hrest⟩

theorem unhex_eq_some : unhex t = some b ↔ Reads t b := by
  constructor
  · intro h
    induction b generalizing t with
    | nil =>
      obtain ⟨rfl, -⟩ | ⟨_, _, _, _, _, -, ⟨⟩, -⟩ := unhex_cases h
      exact .nil
    | cons y b ih =>
      obtain ⟨-, ⟨⟩⟩ | ⟨c, d, rest, _, _, rfl, ⟨⟩, hread, hrest⟩ := unhex_cases h
      exact .cons hread (ih hrest)
  · intro h
    induction h with
    | nil => rfl
    | cons hread _ ih =>
      rw [unhex_pair hread.narrow.1 hread.narrow.2, fromStrRadix16_pair.2 hread, Option.bind_some, ih]
      rfl

theorem spelledHex_of_reads (h : Reads t b) (hplus : plusByte t = false) : SpelledHex t b := by
  refine hexBytes_eq_some.1 ?_
  induction h with
  | nil => rfl
  | cons hread _ ih =>
    obtain ⟨hbyte, hrest⟩ := Bool.or_eq_false_iff.1 hplus
    rcases hread with ⟨h, l, hc, hd, hx⟩ | ⟨rfl, hd⟩
    · simp only [hexBytes, hc, hd, ih hrest, ← hx, UInt8.ofNat_toNat, Option.bind_eq_bind, Option.bind_some,
        Option.pure_def]
    · simp [hd] at hbyte

theorem reads_of_spelledHex (h : SpelledHex t b) : Reads t b := by
  replace h := hexBytes_eq_some.2 h
  fun_induction hexBytes t generalizing b with
  | case1 =>
    cases h
    exact .nil
  | case2 => cases h
  | case3 hi lo rest ih =>
    obtain ⟨h₁, hhi, h⟩ := Option.bind_eq_some_iff.1 h
    obtain ⟨l₁, hlo, h⟩ := Option.bind_eq_some_iff.1 h
    obtain ⟨b', hrest, h⟩ := Option.bind_eq_some_iff.1 h
    cases h
    have := hexDigit_lt hhi
    have := hexDigit_lt hlo
    exact .cons (.inl ⟨h₁, l₁, hhi, hlo, UInt8.toNat_ofNat_of_lt' (show _ < 256 by omega)⟩) (ih hrest)

theorem notMem_of_spelledHex (h : SpelledHex t b) (hc : c.toLower = c) (hdigit : ∀ n < 16, Nat.digitChar n ≠ c) :
    c ∉ t := by
  intro hmem
  have hlower : c ∈ hexText b := h ▸ List.mem_map.2 ⟨c, hmem, hc⟩
  obtain ⟨x, -, hx⟩ := List.mem_flatMap.1 hlower
  have := x.toNat_lt
  rcases List.mem_pair.1 hx with heq | heq
  · exact hdigit _ (by omega) heq.symm
  · exact hdigit _ (by omega) heq.symm

theorem notMem_of_reads (h : Reads t b) : '$' ∉ t := by
  have hnone : hexDigit '$' = none := by decide
  have hdigit : ∀ {c : Char} {n : Nat}, hexDigit c = some n → '$' ≠ c := by
    rintro _ n h rfl
    exact nomatch hnone.symm.trans h
  induction h with
  | nil => exact List.not_mem_nil
  | cons hread _ ih =>
    simp only [List.mem_cons, not_or]
    rcases hread with ⟨_, _, hc, hd, -⟩ | ⟨rfl, hd⟩
    · exact ⟨hdigit hc, hdigit hd, ih⟩
    · exact ⟨by decide, hdigit hd, ih⟩

/-! ## What verifies -/

variable {want ciphertext : Bytes} {a : Text} {salt : Salt}

theorem sameBytes_eq_true {got : Bytes} : sameBytes got want = true ↔ got = want := by
  have hfold : ∀ (a b : Bytes) (acc : UInt8), a.length = b.length →
      ((a.zip b).foldl (fun acc x => acc ||| (x.1 ^^^ x.2)) acc = 0 ↔ acc = 0 ∧ a = b) := by
    intro a
    induction a with
    | nil =>
      intro b acc hlen
      obtain rfl := List.length_eq_zero_iff.1 hlen.symm
      simp
    | cons x a ih =>
      intro b acc hlen
      cases b with
      | nil => simp at hlen
      | cons y b =>
        rw [List.zip_cons_cons, List.foldl_cons, ih b _ (by simpa using hlen), UInt8.or_eq_zero_iff,
          UInt8.xor_eq_zero_iff,
          List.cons.injEq, and_assoc]
  rw [sameBytes, Bool.and_eq_true, beq_iff_eq, beq_iff_eq]
  constructor
  · rintro ⟨hlen, h⟩
    exact ((hfold got want 0 hlen).1 h).2
  · rintro rfl
    exact ⟨rfl, (hfold got got 0 rfl).2 ⟨rfl, rfl⟩⟩

theorem splitOn_three {b c : Text} (ha : '$' ∉ a) (hb : '$' ∉ b) (hc : '$' ∉ c) :
    (a ++ '$' :: (b ++ '$' :: c)).splitOn '$' = [a, b, c] := by
  rw [List.splitOn_append_cons_self_of_not_mem ha, List.splitOn_append_cons_self_of_not_mem hb,
    List.splitOn_eq_singleton hc]

theorem eq_of_splitOn_three {b c : Text} (h : t.splitOn '$' = [a, b, c]) : t = a ++ '$' :: (b ++ '$' :: c) := by
  have hjoin : ['$'].intercalate (t.splitOn '$') = t := List.intercalate_splitOn '$'
  rw [h] at hjoin
  rw [← hjoin]
  simp [List.intercalate]

/-- The string of a salt and a hash, in whatever spelling. -/
def stored (salt want : Text) : Text := "argon2id" ++ '$' :: (salt ++ '$' :: want)

variable {argon2id : Argon2id} {cipher : Cipher KeyBytes}

theorem mem_stored {salt want : Text} :
    c ∈ stored salt want ↔ c ∈ "argon2id".toList ∨ c = '$' ∨ c ∈ salt ∨ c ∈ want := by
  have hparts : ∀ tag : Text, c ∈ tag ++ '$' :: (salt ++ '$' :: want) ↔ c ∈ tag ∨ c = '$' ∨ c ∈ salt ∨ c ∈ want := by
    intro tag
    simp only [List.mem_append, List.mem_cons]
    tauto
  exact hparts _

theorem format_stored (salt want : Text) : "argon2id$" ++ salt ++ "$" ++ want = stored salt want := by
  have htag : "argon2id$" = "argon2id" ++ ['$'] := by decide
  have hdollar : "$" = ['$'] := by decide
  have hparts : ∀ tag a b : Text, tag ++ ['$'] ++ a ++ ['$'] ++ b = tag ++ '$' :: (a ++ '$' :: b) := by simp
  rw [htag, hdollar]
  exact hparts _ _ _

theorem verifyPassword_stored {s w : Text} {salt : Bytes} (hs : Reads s salt) (hw : Reads w want) :
    verifyPassword argon2id password (stored s w) = true ↔ ∃ got, derive argon2id password salt = .ok got ∧
        got.1 = want := by
  have hsplit : (stored s w).splitOn '$' = ["argon2id".toList, s, w] :=
    splitOn_three (by decide) (notMem_of_reads hs) (notMem_of_reads hw)
  simp only [verifyPassword, hsplit, if_true, unhex_eq_some.2 hs, unhex_eq_some.2 hw]
  cases derive argon2id password salt with
  | error e => simp
  | ok got => simp [sameBytes_eq_true]

theorem verifyPassword_eq_true : verifyPassword argon2id password t = true ↔
    ∃ s w salt want, t = stored s w ∧ Reads s salt ∧ Reads w want.1 ∧ derive argon2id password salt = .ok want := by
  constructor
  · intro h
    have hverified := h
    unfold verifyPassword at h
    split at h
    · rename_i tag s w hsplit
      split at h
      · rename_i htag
        subst htag
        obtain rfl : t = stored s w := eq_of_splitOn_three hsplit
        split at h
        · rename_i salt want hsalt hwant
          obtain ⟨got, hgot, rfl⟩ := (verifyPassword_stored (unhex_eq_some.1 hsalt) (unhex_eq_some.1 hwant)).1 hverified
          exact ⟨s, w, salt, got, rfl, unhex_eq_some.1 hsalt, unhex_eq_some.1 hwant, hgot⟩
        · cases h
      · cases h
    · cases h
  · rintro ⟨s, w, salt, want, rfl, hs, hw, hderive⟩
    exact (verifyPassword_stored hs hw).2 ⟨want, hderive, rfl⟩

theorem reads_hexText (b : Bytes) : Reads (hexText b) b := reads_of_spelledHex (hexBytes_eq_some.1 (hexBytes_hexText b))

theorem verifyPassword_hashPassword {p q h : Text} (hhash : hashPassword argon2id (some salt) p = .ok h) :
    verifyPassword argon2id q h = true ↔ derive argon2id q salt.1 = derive argon2id p salt.1 := by
  obtain ⟨hash, hp, hhash⟩ := bind_ok (show derive argon2id p salt.1 >>= _ = .ok h from hhash)
  rw [← Except.ok.inj hhash, hp, format_stored, verifyPassword_stored (reads_hexText _) (reads_hexText _)]
  constructor
  · rintro ⟨got, hgot, heq⟩
    rw [hgot, Subtype.ext heq]
  · intro hsame
    exact ⟨hash, hsame, rfl⟩

/-! ## What decrypts -/

def Refused (r : Returns (Except SecretError Bytes)) : Prop := ∃ e, r = some (.error e)

theorem decrypt_short {passphrase : Text} {aad blob : Bytes} (h : blob.length < 1 + saltLen + nonceLen) :
    decryptWithPassphrase argon2id cipher passphrase aad blob = some (.error .crypto) := by
  rw [decryptWithPassphrase, if_pos h]
  rfl

theorem decrypt_format {passphrase : Text} {aad blob : Bytes} (h : blob.head? ≠ some format) :
    decryptWithPassphrase argon2id cipher passphrase aad blob = some (.error .crypto) := by
  by_cases hlen : blob.length < 1 + saltLen + nonceLen
  · exact decrypt_short hlen
  · cases blob with
    | nil => exact absurd (by decide) hlen
    | cons first rest =>
      have hfirst : first ≠ format := by simpa using h
      rw [decryptWithPassphrase, if_neg hlen]
      simp [hfirst]

theorem decrypt_blob {passphrase : Text} {aad : Bytes} (salt : Salt) (nonce : Nonce) :
    decryptWithPassphrase argon2id cipher passphrase aad (format :: (salt.1 ++ (nonce.1 ++ ciphertext))) =
      some (match derive argon2id passphrase salt.1 with
        | .error e => .error e
        | .ok kek => match cipher.decrypt kek nonce.1 aad ciphertext with
          | none => .error .wrongPassphrase
          | some plain => .ok plain) := by
  have hsalt := salt.2
  have hnonce := nonce.2
  have hlen : (format :: (salt.1 ++ (nonce.1 ++ ciphertext))).length = 1 + saltLen + nonceLen + ciphertext.length := by
    simp only [List.length_cons, List.length_append, hsalt, hnonce]
    omega
  have hslice : slice (format :: (salt.1 ++ (nonce.1 ++ ciphertext))) 1 (1 + saltLen) = some salt.1 := by
    rw [slice, if_pos (by omega), Nat.add_comm 1 saltLen, List.take_succ_cons, List.drop_succ_cons, List.drop_zero,
      List.take_left' hsalt]
  have hrest : slice (format :: (salt.1 ++ (nonce.1 ++ ciphertext))) (1 + saltLen)
      (format :: (salt.1 ++ (nonce.1 ++ ciphertext))).length = some (nonce.1 ++ ciphertext) := by
    rw [slice, if_pos (by omega), List.take_length, Nat.add_comm 1 saltLen, List.drop_succ_cons, List.drop_left' hsalt]
  have hsplit : splitAtByte (nonce.1 ++ ciphertext) nonceLen = some (nonce.1, ciphertext) := by
    rw [splitAtByte, if_pos (by simp [hnonce]), List.take_left' hnonce, List.drop_left' hnonce]
  have hopen : ∀ kek, openBlob cipher kek aad (nonce.1 ++ ciphertext) =
      some (match cipher.decrypt kek nonce.1 aad ciphertext with
      | none => .error .crypto
      | some plain => .ok plain) := by
    intro kek
    rw [openBlob, if_neg (by simp [hnonce]), hsplit]
    simp only [Option.bind_eq_bind, Option.bind_some]
    cases cipher.decrypt kek nonce.1 aad ciphertext <;> rfl
  rw [decryptWithPassphrase, if_neg (by omega)]
  simp only [List.getElem?_cons_zero, Option.bind_eq_bind, Option.bind_some, ne_eq, not_true_eq_false,
    if_false, hslice, hrest,
    hopen]
  cases derive argon2id passphrase salt.1 with
  | error e => rfl
  | ok kek =>
    simp only
    cases cipher.decrypt kek nonce.1 aad ciphertext <;> rfl

theorem exists_parts {blob : Bytes} (hlen : ¬blob.length < 1 + saltLen + nonceLen)
    (hformat : blob.head? = some format) :
    ∃ (salt : Salt) (nonce : Nonce) (ciphertext : Bytes), blob = format :: (salt.1 ++ (nonce.1 ++ ciphertext)) := by
  cases blob with
  | nil => cases hformat
  | cons first rest =>
    obtain rfl : first = format := by simpa using hformat
    rw [List.length_cons] at hlen
    refine ⟨⟨rest.take saltLen, List.length_take_of_le (by omega)⟩,
      ⟨(rest.drop saltLen).take nonceLen, List.length_take_of_le (by rw [List.length_drop]; omega)⟩,
      (rest.drop saltLen).drop nonceLen, ?_⟩
    rw [List.take_append_drop, List.take_append_drop]

theorem decrypt_returns (passphrase : Text) (aad blob : Bytes) :
    ∃ r, decryptWithPassphrase argon2id cipher passphrase aad blob = some r := by
  by_cases hlen : blob.length < 1 + saltLen + nonceLen
  · exact ⟨_, decrypt_short hlen⟩
  · by_cases hformat : blob.head? = some format
    · obtain ⟨salt, nonce, ciphertext, rfl⟩ := exists_parts hlen hformat
      exact ⟨_, decrypt_blob salt nonce⟩
    · exact ⟨_, decrypt_format hformat⟩

variable (argon2id cipher) in
def Encrypted (made : Sealing KeyBytes → Prop) (passphrase : Text) (aad data blob : Bytes) : Prop :=
  ∃ salt nonce, encryptWithPassphrase argon2id cipher (some salt) (some nonce) passphrase aad data = .ok blob ∧
    ∀ kek ciphertext, derive argon2id passphrase salt.1 = .ok kek →
      cipher.encrypt kek nonce.1 aad data = some ciphertext →
      made ⟨kek, nonce.1, aad, data, ciphertext⟩

variable {made : Sealing KeyBytes → Prop} {passphrase : Text} {aad data blob : Bytes}

theorem Encrypted.parts (h : Encrypted argon2id cipher made passphrase aad data blob) :
    ∃ (salt : Salt) (nonce : Nonce) (kek : KeyBytes) (ciphertext : Bytes), blob = format :: (salt.1 ++
      (nonce.1 ++ ciphertext)) ∧
      derive argon2id passphrase salt.1 = .ok kek ∧ made ⟨kek, nonce.1, aad, data, ciphertext⟩ := by
  obtain ⟨salt, nonce, hblob, hmade⟩ := h
  obtain ⟨kek, hkek, hblob⟩ := bind_ok (show derive argon2id passphrase salt.1 >>= _ = .ok blob from hblob)
  obtain ⟨sealedBlob, hseal, hblob⟩ := bind_ok hblob
  change (match cipher.encrypt kek nonce.1 aad data with | none => _ | some _ => _) = _ at hseal
  split at hseal
  · cases hseal
  · rename_i ciphertext hct
    cases hseal
    cases hblob
    exact ⟨salt, nonce, kek, ciphertext, rfl, hkek, hmade kek ciphertext hkek hct⟩

theorem decrypt_encrypted (hideal : cipher.Ideal made) (h : Encrypted argon2id cipher made passphrase aad data blob) :
    decryptWithPassphrase argon2id cipher passphrase aad blob = some (.ok data) := by
  obtain ⟨salt, nonce, kek, ciphertext, rfl, hkek, hmade⟩ := h.parts
  have hopens := hideal.opens _ hmade
  rw [decrypt_blob, hkek]
  simp only [hopens]

theorem refused_other (hideal : cipher.Ideal made) {nonce : Nonce} {kek : KeyBytes}
    (hkek : derive argon2id passphrase salt.1 = .ok kek) (hmade : made ⟨kek, nonce.1, aad, data, ciphertext⟩)
    {aad' ciphertext' : Bytes} (hother : aad' ≠ aad ∨ ciphertext' ≠ ciphertext) :
    Refused (decryptWithPassphrase argon2id cipher passphrase aad' (format :: (salt.1 ++
        (nonce.1 ++ ciphertext')))) := by
  have hclosed := hideal.decrypt_eq_none hmade hother
  rw [decrypt_blob, hkek]
  simp only at hclosed ⊢
  rw [hclosed]
  exact ⟨_, rfl⟩

theorem refused_truncated (hideal : cipher.Ideal made) (h : Encrypted argon2id cipher made passphrase aad data blob)
    (hn : n < blob.length) (aad' : Bytes) :
    Refused (decryptWithPassphrase argon2id cipher passphrase aad' (blob.take n)) := by
  obtain ⟨salt, nonce, kek, ciphertext, rfl, hkek, hmade⟩ := h.parts
  by_cases hshort : n < 1 + saltLen + nonceLen
  · exact ⟨_, decrypt_short (by rw [List.length_take]; omega)⟩
  · -- cut inside the ciphertext, which is then another one
    obtain ⟨k, rfl⟩ : ∃ k, n = saltLen + (nonceLen + k) + 1 := ⟨n - (1 + saltLen + nonceLen), by omega⟩
    have hsalt := salt.2
    have hnonce := nonce.2
    have htake : (format :: (salt.1 ++ (nonce.1 ++ ciphertext))).take (saltLen + (nonceLen + k) + 1) =
        format :: (salt.1 ++ (nonce.1 ++ ciphertext.take k)) := by
      rw [List.take_succ_cons, List.take_append, List.take_of_length_le (by omega), hsalt, Nat.add_sub_cancel_left,
        List.take_append, List.take_of_length_le (by omega), hnonce, Nat.add_sub_cancel_left]
    rw [htake]
    refine refused_other hideal hkek hmade (.inr fun heq => ?_)
    have hlen := congrArg List.length heq
    simp only [List.length_cons, List.length_append, hsalt, hnonce] at hn
    rw [List.length_take] at hlen
    omega

/-! ## The encodings -/

/-- Three parts between dollar signs, the tag and two strings of hexadecimal digits. -/
def WellFormed (t : Text) : Prop := ∃ s w salt want, t = stored s w ∧ SpelledHex s salt ∧ SpelledHex w want

/-- A byte of the salt or of the hash is written with a plus sign. -/
def signed (t : Text) : Bool :=
  match t.splitOn '$' with
  | [_, salt, want] => plusByte salt || plusByte want
  | _ => false

/-- What the encodings promise, of a password that is verified against a string, and of every blob. -/
structure EncodingsHold (argon2id : Argon2id) (cipher : Cipher KeyBytes) (made : Sealing KeyBytes → Prop)
    (password t : Text) : Prop where
  /-- The password verifies against the hash of another one exactly if they derive the same. -/
  verifies : ∀ salt p h, hashPassword argon2id (some salt) p = .ok h →
    (verifyPassword argon2id password h = true ↔ derive argon2id password salt.1 = derive argon2id p salt.1)
  /-- It verifies against no string that is not well formed. -/
  strict : ¬WellFormed t → verifyPassword argon2id password t = false
  /-- No blob makes decryption panic. -/
  returns : ∀ passphrase aad blob, ∃ r, decryptWithPassphrase argon2id cipher passphrase aad blob = some r
  /-- What was encrypted decrypts. -/
  decrypts : ∀ passphrase aad data blob, Encrypted argon2id cipher made passphrase aad data blob →
    decryptWithPassphrase argon2id cipher passphrase aad blob = some (.ok data)
  /-- What was cut off does not. -/
  truncated : ∀ passphrase aad aad' data blob n, Encrypted argon2id cipher made passphrase aad data blob →
    n < blob.length →
    Refused (decryptWithPassphrase argon2id cipher passphrase aad' (blob.take n))
  /-- What is of another format does not. -/
  formatted : ∀ passphrase aad blob, blob.head? ≠ some format →
    Refused (decryptWithPassphrase argon2id cipher passphrase aad blob)
  /-- What was made under other associated data does not. -/
  bound : ∀ passphrase aad aad' data blob, Encrypted argon2id cipher made passphrase aad' data blob → aad ≠ aad' →
    Refused (decryptWithPassphrase argon2id cipher passphrase aad blob)

theorem plus_notMem_of_wellFormed (h : WellFormed t) : '+' ∉ t := by
  obtain ⟨s, w, salt, want, rfl, hs, hw⟩ := h
  have hlower : '+'.toLower = '+' := by decide
  have hdigit : ∀ n < 16, Nat.digitChar n ≠ '+' := by decide
  have htag : '+' ∉ "argon2id".toList := by decide
  intro hmem
  rcases mem_stored.1 hmem with hmem | hmem | hmem | hmem
  · exact htag hmem
  · exact absurd hmem (by decide)
  · exact notMem_of_spelledHex hs hlower hdigit hmem
  · exact notMem_of_spelledHex hw hlower hdigit hmem

theorem wellFormed_of_verifyPassword (h : verifyPassword argon2id password t = true) (hsigned : signed t = false) :
    WellFormed t := by
  obtain ⟨s, w, salt, want, rfl, hs, hw, -⟩ := verifyPassword_eq_true.1 h
  have hsplit : (stored s w).splitOn '$' = ["argon2id".toList, s, w] :=
    splitOn_three (by decide) (notMem_of_reads hs) (notMem_of_reads hw)
  rw [signed, hsplit] at hsigned
  obtain ⟨hsalt, hwant⟩ := Bool.or_eq_false_iff.1 hsigned
  exact ⟨s, w, salt, want.1, rfl, spelledHex_of_reads hs hsalt, spelledHex_of_reads hw hwant⟩

/-- A derived value that is the same for all. -/
def sampleArgon2id : Argon2id := fun _ _ => .ok ⟨List.replicate 32 7, rfl⟩

def sampleSealing : Sealing KeyBytes :=
  ⟨⟨List.replicate 32 7, rfl⟩, List.replicate 12 5, [1], [65], 65 :: List.replicate 16 9⟩

def sampleCipher : Cipher KeyBytes where
  encrypt _ _ _ plain := some (plain ++ List.replicate 16 9)
  decrypt key nonce aad ciphertext :=
    if key = sampleSealing.key ∧ nonce = sampleSealing.nonce ∧ aad = sampleSealing.aad ∧
      ciphertext = sampleSealing.made then
      some sampleSealing.plain
    else none

theorem sampleCipher_ideal : sampleCipher.Ideal (· = sampleSealing) where
  opens := by
    rintro _ rfl
    rfl
  authentic key nonce aad ciphertext plain h := by
    obtain ⟨⟨rfl, rfl, rfl, rfl⟩, hplain⟩ := Option.ite_none_right_eq_some.1 h
    cases hplain
    rfl
  fresh := by
    rintro _ _ rfl rfl - -
    rfl

end WebAccess.Secrets
