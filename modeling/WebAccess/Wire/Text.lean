/-
Character strings on the wire, as `ironrdp-pdu`'s `utils.rs` reads them: UTF-16 or UTF-8, up to
and with a NUL when there is one, trailing NULs dropped. Text is a list of characters.
-/
import WebAccess.Lib.Bytes

namespace WebAccess.Wire

open Codec

abbrev Text := List Char

instance : LawfulBEq Text := inferInstance

/-- Texts are written as the source has them. -/
instance : Coe String Text := ⟨String.toList⟩

inductive CharacterSet
  | ansi
  | unicode

/-- The UTF-16 code units of a byte string, little endian; an odd last byte is left out. -/
def codeUnits : Bytes → List Nat
  | lo :: hi :: rest => (lo.toNat + 256 * hi.toNat) :: codeUnits rest
  | _ => []

/-- `String::from_utf16`: every surrogate has to be one of a pair. -/
def fromUtf16 : List Nat → Option Text
  | [] => some []
  | u :: us =>
    if u < 0xD800 ∨ 0xE000 ≤ u then (Char.ofNat u :: ·) <$> fromUtf16 us
    else if 0xDC00 ≤ u then none
    else match us with
      | [] => none
      | v :: vs =>
        if 0xDC00 ≤ v ∧ v < 0xE000 then
          (Char.ofNat (0x10000 + (u - 0xD800) * 0x400 + (v - 0xDC00)) :: ·) <$> fromUtf16 vs
        else none

def toUtf16Bytes (t : Text) : Bytes :=
  t.flatMap fun c =>
    if c.toNat < 0x10000 then leBytes 2 c.toNat
    else leBytes 2 (0xD800 + (c.toNat - 0x10000) / 0x400) ++ leBytes 2 (0xDC00 + (c.toNat - 0x10000) % 0x400)

def fromUtf8 (bs : Bytes) : Option Text := (String.fromUTF8? ⟨bs.toArray⟩).map String.toList

/-- `trim_end_matches('\0')` -/
def trimEndNul (t : Text) : Text := (t.reverse.dropWhile (· == Char.ofNat 0)).reverse

/-- How many elements lead up to and including the first one that satisfies `p`; all when none
does. -/
def lengthThrough {α : Type} (p : α → Bool) (l : List α) : Nat :=
  match l.findIdx? p with
  | some i => i + 1
  | none => l.length

/-- `read_string_from_cursor` with `read_null_terminator` set -/
def readString : CharacterSet → Reader Text
  | .unicode => do
    let size ← (fun bs => some (2 * lengthThrough (· == 0) (codeUnits bs), bs) : Reader Nat)
    let bytes ← slice size
    let text ← (fromUtf16 (codeUnits bytes) : Option Text)
    pure (trimEndNul text)
  | .ansi => do
    let size ← (fun bs => some (lengthThrough (· == 0) bs, bs) : Reader Nat)
    let bytes ← slice size
    let text ← (fromUtf8 bytes : Option Text)
    pure (trimEndNul text)

example : (readString .unicode).run [0x41, 0, 0x42, 0, 0, 0, 0x43, 0] = some (['A', 'B'], [0x43, 0]) := by
  decide

end WebAccess.Wire

namespace WebAccess

open Wire

def isWhitespace (c : Char) : Bool :=
  (9 ≤ c.toNat && c.toNat ≤ 13) || (0x2000 ≤ c.toNat && c.toNat ≤ 0x200A) ||
    [0x20, 0x85, 0xA0, 0x1680, 0x2028, 0x2029, 0x202F, 0x205F, 0x3000].contains c.toNat

def trim (t : Text) : Text := ((t.dropWhile isWhitespace).reverse.dropWhile isWhitespace).reverse

end WebAccess
