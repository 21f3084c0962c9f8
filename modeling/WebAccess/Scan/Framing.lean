/-
`scan/framing.rs`: cuts one direction of the relayed stream into whole units. The main results are
that the units do not depend on how the network cut the stream into reads (`push_append`), that
nothing of the stream is lost or changed in them (`bytes_of_push`), and that only a TPKT can be a
slow-path message (`ofUnit_eq_none`).
-/
import WebAccess.Lib.Cutting
import WebAccess.Wire.Mcs

namespace WebAccess.Scan

open Codec Wire Cutting

/-! ## Units -/

/-- The constructors of `Unit`: CredSSP and the Early User Authorization Result are passed on
unread; MCS and the virtual channels are in the TPKTs. -/
inductive UnitKind
  | unread
  | tpkt
  | fastPath
  deriving DecidableEq

/-- `Unit` -/
structure FrameUnit where
  kind : UnitKind
  bytes : Bytes
  deriving DecidableEq

/-- Why a stream is out of step: the texts of `FrameError::OutOfStep`. -/
inductive FrameError
  | action (bits : Nat)
  | tpktHeader
  | fastPathLength
  | beforeConnection (first : UInt8)
  | unitOf (length : Nat)
  | derLength (octets : Nat)

def maxUnit : Nat := 2 ^ 20

/-! ## Sizes -/

inductive Action
  | fastPath
  | x224

def Action.fromFpOutputHeader (header : UInt8) : Option Action :=
  match header.toNat % 4 with
  | 0 => some .fastPath
  | 3 => some .x224
  | _ => none

/-- The length of a fast-path PDU, in one byte or two after the header byte. -/
def fastPathSize : Bytes → Except FrameError (Option Nat)
  | [] => .ok none
  | a :: rest =>
    if a.toNat < 0x80 then
      if a.toNat < 2 then .error .fastPathLength else .ok (some a.toNat)
    else match rest with
      | [] => .ok none
      | b :: _ =>
        let length := (a.toNat - 0x80) * 256 + b.toNat
        if length < 3 then .error .fastPathLength else .ok (some length)

def findSize : Bytes → Except FrameError (Option (Action × Nat))
  | [] => .ok none
  | header :: rest =>
    match Action.fromFpOutputHeader header with
    | none => .error (.action (header.toNat % 4))
    | some .x224 =>
      if rest.length < 3 then .ok none
      else match tpktHeader.run (header :: rest) with
        | some (length, _) => .ok (some (.x224, length))
        | none => .error .tpktHeader
    | some .fastPath => (fastPathSize rest).map (·.map (.fastPath, ·))

def derLength : Bytes → Except FrameError (Option Nat)
  | _ :: first :: rest =>
    if first.toNat < 0x80 then .ok (some (2 + first.toNat))
    else
      let n := first.toNat - 0x80
      if n = 0 ∨ 4 < n then .error (.derLength n)
      else if rest.length < n then .ok none
      else .ok (some (2 + n + beNat (rest.take n)))
  | _ => .ok none

/-! ## The framer -/

/-- `Framer`: what has been read and not cut off yet, and what may come next. -/
structure Framer where
  buf : Bytes := []
  fromServer : Bool
  hybridEx : Bool
  mcs : Bool := false
  euarSeen : Bool := false

namespace Framer

def new (fromServer hybridEx : Bool) : Framer := { fromServer, hybridEx }

/-- The Early User Authorization Result may come next. -/
def euar (f : Framer) : Bool := !f.mcs && f.fromServer && f.hybridEx && !f.euarSeen

/-- What the next unit is and how long, once enough of it is in. -/
def sized (f : Framer) (first : UInt8) (buf : Bytes) : Except FrameError (Option (UnitKind × Nat)) :=
  if !f.mcs && first == 0x30 then (derLength buf).map (·.map (.unread, ·))
  else if f.euar && first != 3 then .ok (some (.unread, 4))
  else
    match findSize buf with
    | .error e => .error e
    | .ok none => .ok none
    | .ok (some (.x224, length)) => .ok (some (.tpkt, length))
    | .ok (some (.fastPath, length)) =>
      if f.mcs then .ok (some (.fastPath, length)) else .error (.beforeConnection first)

/-- The state after a whole unit: a TPKT ends authentication, four bytes that are no DER were the
authorization result. -/
def taken (f : Framer) (first : UInt8) (kind : UnitKind) (length : Nat) : Framer :=
  { f with
    buf := f.buf.drop length
    mcs := f.mcs || kind == .tpkt
    euarSeen := f.euarSeen || (kind == .unread && f.euar && first != 0x30) }

def nextUnit (f : Framer) : Except FrameError (Option (FrameUnit × Framer)) :=
  match f.buf.head? with
  | none => .ok none
  | some first =>
    match f.sized first f.buf with
    | .error e => .error e
    | .ok none => .ok none
    | .ok (some (kind, length)) =>
      if length = 0 ∨ maxUnit < length then .error (.unitOf length)
      else if f.buf.length < length then .ok none
      else .ok (some (⟨kind, f.buf.take length⟩, f.taken first kind length))

/-- `buf.extend_from_slice` -/
def feed (f : Framer) (bytes : Bytes) : Framer := { f with buf := f.buf ++ bytes }

/-- `push`: every unit now complete. Each takes a byte or more, so the loop ends before its fuel
does. -/
def push (f : Framer) (bytes : Bytes) : Except FrameError (List FrameUnit × Framer) :=
  drain nextUnit ((f.feed bytes).buf.length + 1) (f.feed bytes)

end Framer

/-! ## A size is read off a header

What `find_size` and `der_length` return is fixed by a head of the buffer no longer than the unit
itself: it stays when more arrives behind, and when all behind the unit is cut off. -/

/-- How a size is read: not yet, while fewer than `few` bytes are in; else off a head of what is in, whatever stands
behind it, and a head that gives a length is no longer than that. -/
inductive Sizes {α : Type} (few : Nat) (length : α → Nat) (size : Bytes → Except FrameError (Option α)) (xs : Bytes) :
    Prop
  | short (none : size xs = .ok none) (lt : xs.length < few)
  | error (e : FrameError) (head tail : Bytes) (split : xs = head ++ tail) (all : ∀ ys, size (head ++ ys) = .error e)
  | sized (a : α) (head tail : Bytes) (split : xs = head ++ tail) (le : head.length ≤ length a)
      (all : ∀ ys, size (head ++ ys) = .ok (some a))

namespace Sizes

variable {α β : Type} {few few' : Nat} {length : α → Nat} {length' : β → Nat} {a : α} {xs : Bytes}
  {size : Bytes → Except FrameError (Option α)} {size' : Bytes → Except FrameError (Option β)}

theorem length_lt (h : Sizes few length size xs) (hnone : size xs = .ok none) : xs.length < few := by
  cases h with
  | short _ lt => exact lt
  | error _ head tail split all | sized _ head tail split _ all =>
    rw [split, all] at hnone
    cases hnone

theorem append_eq (h : Sizes few length size xs) (hsome : size xs ≠ .ok none) (ys : Bytes) :
    size (xs ++ ys) = size xs := by
  cases h with
  | short none => exact absurd none hsome
  | error _ head tail split all | sized _ head tail split _ all => rw [split, List.append_assoc, all, all]

theorem exists_head (h : Sizes few length size xs) (ha : size xs = .ok (some a)) :
    ∃ head tail, xs = head ++ tail ∧ head.length ≤ length a ∧ ∀ ys, size (head ++ ys) = .ok (some a) := by
  cases h with
  | short none => cases none.symm.trans ha
  | error _ head tail split all =>
    rw [split, all] at ha
    cases ha
  | sized _ head tail split le all =>
    rw [split, all] at ha
    cases ha
    exact ⟨head, tail, split, le, all⟩

/-- A size that is read off another one. -/
theorem read (h : Sizes few length size xs) (hfew : few ≤ few')
    (hnone : ∀ ys, size ys = .ok none → size' ys = .ok none)
    (herror : ∀ ys e, size ys = .error e → size' ys = .error e)
    (hsome : ∀ a, (∃ e, ∀ ys, size ys = .ok (some a) → size' ys = .error e) ∨
      ∃ b, length a ≤ length' b ∧ ∀ ys, size ys = .ok (some a) → size' ys = .ok (some b)) :
    Sizes few' length' size' xs := by
  cases h with
  | short none lt => exact .short (hnone _ none) (Nat.lt_of_lt_of_le lt hfew)
  | error e head tail split all => exact .error e head tail split fun ys => herror _ _ (all ys)
  | sized a head tail split le all =>
    rcases hsome a with ⟨e, he⟩ | ⟨b, hle, hb⟩
    · exact .error e head tail split fun ys => he _ (all ys)
    · exact .sized b head tail split (Nat.le_trans le hle) fun ys => hb _ (all ys)

end Sizes

variable {xs : Bytes} {n : Nat}

theorem findSize_sizes (xs : Bytes) : Sizes 4 Prod.snd findSize xs := by
  rcases xs with _ | ⟨header, rest⟩
  · exact .short rfl (by simp)
  rcases hx : Action.fromFpOutputHeader header with _ | _ | _
  · exact .error (.action (header.toNat % 4)) [header] rest rfl fun ys => by simp [findSize, hx]
  · rcases rest with _ | ⟨a, rest⟩
    · exact .short (by simp [findSize, hx, fastPathSize, Except.map]) (by simp)
    by_cases hs : a.toNat < 0x80
    · by_cases hl : a.toNat < 2
      · refine .error .fastPathLength [header, a] rest rfl fun ys => ?_
        simp [findSize, hx, fastPathSize, hs, hl, Except.map]
      · refine .sized (.fastPath, a.toNat) [header, a] rest rfl (Nat.le_of_not_lt hl) fun ys => ?_
        simp [findSize, hx, fastPathSize, hs, hl, Except.map]
    rcases rest with _ | ⟨b, rest⟩
    · exact .short (by simp [findSize, hx, fastPathSize, hs, Except.map]) (by simp)
    by_cases hl : (a.toNat - 0x80) * 256 + b.toNat < 3
    · refine .error .fastPathLength [header, a, b] rest rfl fun ys => ?_
      simp [findSize, hx, fastPathSize, hs, hl, Except.map]
    · refine .sized (.fastPath, _) [header, a, b] rest rfl (Nat.le_of_not_lt hl) fun ys => ?_
      simp [findSize, hx, fastPathSize, hs, hl, Except.map]
  · by_cases hlen : rest.length < 3
    · exact .short (by simp [findSize, hx, hlen]) (by simp; omega)
    obtain ⟨r, hi, lo, tail, rfl⟩ : ∃ r hi lo tail, rest = r :: hi :: lo :: tail := by
      rcases rest with _ | ⟨r, _ | ⟨hi, _ | ⟨lo, tail⟩⟩⟩ <;> simp at hlen
      exact ⟨r, hi, lo, tail, rfl⟩
    by_cases hv : header.toNat = 3 ∧ 7 ≤ hi.toNat * 256 + lo.toNat
    · refine .sized (.x224, hi.toNat * 256 + lo.toNat) [header, r, hi, lo] tail rfl (by simp; omega) fun ys => ?_
      simp [findSize, hx, tpktHeader_run, hv]
    · refine .error .tpktHeader [header, r, hi, lo] tail rfl fun ys => ?_
      simp [findSize, hx, tpktHeader_run, hv]

theorem derLength_sizes (xs : Bytes) : Sizes 6 id derLength xs := by
  rcases xs with _ | ⟨tag, _ | ⟨first, rest⟩⟩
  · exact .short rfl (by simp)
  · exact .short rfl (by simp)
  by_cases hs : first.toNat < 0x80
  · exact .sized (2 + first.toNat) [tag, first] rest rfl (by simp) fun ys => by simp [derLength, hs]
  by_cases hn : first.toNat - 0x80 = 0 ∨ 4 < first.toNat - 0x80
  · refine .error (.derLength (first.toNat - 0x80)) [tag, first] rest rfl fun ys => ?_
    simp only [List.cons_append, derLength, if_neg hs, if_pos hn]
  by_cases hlen : rest.length < first.toNat - 0x80
  · refine .short (by simp only [derLength, if_neg hs, if_neg hn, if_pos hlen]) ?_
    simp only [List.length_cons]
    omega
  have hfull : (rest.take (first.toNat - 0x80)).length = first.toNat - 0x80 := by simp; omega
  refine .sized (2 + (first.toNat - 0x80) + beNat (rest.take (first.toNat - 0x80)))
    (tag :: first :: rest.take (first.toNat - 0x80)) (rest.drop (first.toNat - 0x80)) (by simp) ?_ fun ys => ?_
  · simp only [List.length_cons, hfull, id]
    omega
  · have hlong : ¬ (rest.take (first.toNat - 0x80) ++ ys).length < first.toNat - 0x80 := by
      rw [List.length_append]
      omega
    simp only [List.cons_append, derLength, if_neg hs, if_neg hn, if_neg hlong, List.take_left' hfull]

variable {first : UInt8} {f : Framer} {unit : Bytes}

theorem findSize_fastPath (hfirst : xs.head? = some first) (h : findSize xs = .ok (some (.fastPath, n))) :
    first ≠ 3 := by
  rcases xs with _ | ⟨header, rest⟩
  · cases hfirst
  cases hfirst
  rintro rfl
  have hx : Action.fromFpOutputHeader 3 = some .x224 := rfl
  simp only [findSize, hx] at h
  split at h
  · cases h
  · split at h <;> cases h

/-! ## What the framer takes off -/

namespace Framer

variable {f f' : Framer} {us : List FrameUnit}

theorem sized_sizes (f : Framer) (first : UInt8) (buf : Bytes) : Sizes 6 Prod.snd (f.sized first) buf := by
  by_cases hder : (!f.mcs && first == 0x30) = true
  · have hsized : ∀ ys, f.sized first ys = (derLength ys).map (·.map (.unread, ·)) := fun ys => if_pos hder
    refine (derLength_sizes buf).read (Nat.le_refl _) (fun ys h => ?_) (fun ys e h => ?_) fun n =>
      .inr ⟨(.unread, n), Nat.le_refl _, fun ys h => ?_⟩
    all_goals
      rw [hsized, h]
      rfl
  by_cases heuar : (f.euar && first != 3) = true
  · exact .sized (.unread, 4) [] buf rfl (Nat.zero_le 4) fun ys => by rw [sized, if_neg hder, if_pos heuar]
  refine (findSize_sizes buf).read (by decide) (fun ys h => ?_) (fun ys e h => ?_) ?_
  · simp only [sized, if_neg hder, if_neg heuar, h]
  · simp only [sized, if_neg hder, if_neg heuar, h]
  · rintro ⟨_ | _, n⟩
    · by_cases hmcs : f.mcs = true
      · refine .inr ⟨(.fastPath, n), Nat.le_refl _, fun ys h => ?_⟩
        simp only [sized, if_neg hder, if_neg heuar, h, if_pos hmcs]
      · refine .inl ⟨.beforeConnection first, fun ys h => ?_⟩
        simp only [sized, if_neg hder, if_neg heuar, h, if_neg hmcs]
    · refine .inr ⟨(.tpkt, n), Nat.le_refl _, fun ys h => ?_⟩
      simp only [sized, if_neg hder, if_neg heuar, h]

theorem sized_first {first : UInt8} {buf : Bytes} {kind : UnitKind} (hfirst : buf.head? = some first)
    (h : f.sized first buf = .ok (some (kind, n))) (hkind : kind ≠ .tpkt) : first ≠ 3 := by
  rintro rfl
  have hder : ¬ (!f.mcs && (3 : UInt8) == 0x30) = true := by simp
  have heuar : ¬ (f.euar && (3 : UInt8) != 3) = true := by simp
  rw [sized, if_neg hder, if_neg heuar] at h
  split at h
  · cases h
  · cases h
  · cases h
    exact hkind rfl
  · rename_i hf
    exact findSize_fastPath hfirst hf rfl

/-- What taking a unit off a framer means: its bytes are the front of the buffer, and it is the
unit taken whatever stands behind them. -/
structure Took (f : Framer) (u : FrameUnit) (f' : Framer) : Prop where
  bytes : f.buf = u.bytes ++ f'.buf
  nonempty : u.bytes ≠ []
  again : ∀ ys, nextUnit { f with buf := u.bytes ++ ys } = .ok (some (u, { f' with buf := ys }))
  notTpkt : u.kind ≠ .tpkt → u.bytes.head? ≠ some 3

theorem took {u : FrameUnit} (h : f.nextUnit = .ok (some (u, f'))) : Took f u f' := by
  unfold nextUnit at h
  split at h
  · cases h
  rename_i first hfirst
  split at h
  · cases h
  · cases h
  rename_i kind n hsized
  split at h
  · cases h
  rename_i hmax
  split at h
  · cases h
  rename_i hlen
  cases h
  obtain ⟨head, tail, hbuf, hle, hall⟩ := (f.sized_sizes first f.buf).exists_head hsized
  have hfull : (f.buf.take n).length = n := by simp; omega
  have hstart : ∀ ys, (f.buf.take n ++ ys).head? = some first := by
    intro ys
    rcases hb : f.buf with _ | ⟨b, rest⟩ <;> rw [hb] at hfirst
    · cases hfirst
    · obtain ⟨k, rfl⟩ : ∃ k, n = k + 1 := ⟨n - 1, by omega⟩
      exact hfirst
  refine ⟨(List.take_append_drop n f.buf).symm, ?_, fun ys => ?_, fun hk => ?_⟩
  · intro hnil
    rw [show f.buf.take n = [] from hnil] at hfull
    simp at hfull
    omega
  · -- The header is within the unit, so its size is read the same with `ys` behind it.
    have hsame : f.sized first (f.buf.take n ++ ys) = .ok (some (kind, n)) := by
      rw [hbuf, List.take_append, List.take_of_length_le hle, List.append_assoc]
      exact hall _
    have hsame' : sized { f with buf := f.buf.take n ++ ys } first (f.buf.take n ++ ys) =
      .ok (some (kind, n)) := hsame
    have hlong : ¬ (f.buf.take n ++ ys).length < n := by
      rw [List.length_append]
      omega
    simp only [nextUnit, hstart, hsame', if_neg hmax, if_neg hlong, taken, List.take_left' hfull,
      List.drop_left' hfull]
    rfl
  · have := hstart []
    rw [List.append_nil] at this
    simp only [this, ne_eq, Option.some.injEq]
    exact sized_first hfirst hsized hk

theorem stable : Stable nextUnit feed (fun f => f.buf.length) where
  unit_feed := by
    intro f u f' ys h
    have ht := took h
    have := ht.again (f'.buf ++ ys)
    rwa [← List.append_assoc, ← ht.bytes] at this
  smaller := by
    intro f u f' h
    have ht := took h
    have := List.length_pos_iff.2 ht.nonempty
    rw [ht.bytes, List.length_append]
    omega

/-! ## Reads of any size -/

variable {bytes : Bytes}

theorem push_eq_ok : f.push bytes = .ok (us, f') ↔ Cuts nextUnit (f.feed bytes) us f' ∧ f'.nextUnit = .ok none :=
  ⟨fun h => cuts_of_drain stable (by omega) h, fun ⟨hc, hn⟩ => drain_of_cuts stable hc hn (by omega)⟩

/-- Two reads give the units one read of both gives: where the network cuts the stream does not
matter. -/
theorem push_append {m : Framer} {vs : List FrameUnit} {ys : Bytes} (hx : f.push xs = .ok (us, m))
    (hy : m.push ys = .ok (vs, f')) : f.push (xs ++ ys) = .ok (us ++ vs, f') := by
  obtain ⟨hcx, _⟩ := push_eq_ok.1 hx
  obtain ⟨hcy, hleft⟩ := push_eq_ok.1 hy
  refine push_eq_ok.2 ⟨?_, hleft⟩
  have hfed : f.feed (xs ++ ys) = (f.feed xs).feed ys := by simp [feed]
  rw [hfed]
  exact (hcx.fed stable ys).append hcy

theorem bytes_of_cuts (h : Cuts nextUnit f us f') : f.buf = (us.map FrameUnit.bytes).flatten ++ f'.buf := by
  induction h with
  | nil => simp
  | cons hu _ ih => rw [(took hu).bytes, ih, List.map_cons, List.flatten_cons, List.append_assoc]

theorem bytes_of_push (h : f.push bytes = .ok (us, f')) : f.buf ++ bytes = (us.map FrameUnit.bytes).flatten ++ f'.buf :=
  bytes_of_cuts (push_eq_ok.1 h).1

end Framer

/-! ## Whole units -/

/-- A unit that a framer in some state cuts off exactly: nothing is missing of it and nothing is
behind it. -/
def FrameUnit.IsWhole (u : FrameUnit) : Prop :=
  ∃ f f' : Framer, f.buf = u.bytes ∧ f.nextUnit = .ok (some (u, f')) ∧ f'.buf = []

/-- What a framer cuts off is whole, and starts like a TPKT only when it is one. -/
structure FrameUnit.Cut (u : FrameUnit) : Prop where
  whole : u.IsWhole
  notTpkt : u.kind ≠ .tpkt → u.bytes.head? ≠ some 3

theorem Framer.cut_of_cuts {f' : Framer} {us : List FrameUnit} (h : Cuts nextUnit f us f') : ∀ u ∈ us, u.Cut := by
  induction h with
  | nil => simp
  | @cons f m f' u us hu _ ih =>
    rintro v (_ | ⟨_, hv⟩)
    · have ht := took hu
      refine ⟨⟨{ f with buf := u.bytes }, { m with buf := [] }, rfl, ?_, rfl⟩, ht.notTpkt⟩
      simpa using ht.again []
    · exact ih v hv

theorem ofUnit_eq_none (h : unit.head? ≠ some 3) : McsMessage.ofUnit unit = none := by
  have hx : x224Header.run unit = none := by
    rcases unit with _ | ⟨b, rest⟩
    · rfl
    · have hb : ¬ b.toNat = 3 := by
        intro hb
        exact h (congrArg some (UInt8.toNat_inj.1 hb))
      simp [x224Header, tpktHeader, uintBe_one_cons, require_run, hb]
  have hrun : mcsMessage.run unit = none := by
    rw [mcsMessage, StateT.run_bind, hx]
    rfl
  exact congrArg (Option.map Prod.fst) hrun

theorem Framer.sized_tpkt {buf : Bytes} (h : f.sized first buf = .ok (some (.tpkt, n))) :
    findSize buf = .ok (some (.x224, n)) := by
  unfold Framer.sized at h
  split at h
  · rcases hd : derLength buf with e | _ | m <;> rw [hd] at h <;> cases h
  · split at h
    · cases h
    · split at h
      · cases h
      · cases h
      · rename_i hf
        cases h
        exact hf
      · split at h <;> cases h

theorem isWhole_tpkt_iff :
    FrameUnit.IsWhole ⟨.tpkt, unit⟩ ↔
      findSize unit = .ok (some (.x224, unit.length)) ∧ unit.length ≤ maxUnit := by
  constructor
  · rintro ⟨f, f', rfl, h, hnil⟩
    unfold Framer.nextUnit at h
    split at h
    · cases h
    split at h
    · cases h
    · cases h
    rename_i kind n hsized
    split at h
    · cases h
    split at h
    · cases h
    rename_i hmax hlen
    simp only [Except.ok.injEq, Option.some.injEq, Prod.mk.injEq, FrameUnit.mk.injEq] at h
    obtain ⟨⟨rfl, htake⟩, rfl⟩ := h
    have hn : n = f.buf.length := by
      have := congrArg List.length htake
      simp at this
      omega
    rw [hn] at hsized hmax
    exact ⟨Framer.sized_tpkt hsized, by omega⟩
  · rintro ⟨hsize, hmax⟩
    rcases unit with _ | ⟨b, rest⟩
    · cases hsize
    let f : Framer := { buf := b :: rest, fromServer := false, hybridEx := false, mcs := true }
    have hsized : f.sized b (b :: rest) = .ok (some (.tpkt, (b :: rest).length)) := by
      simp [f, Framer.sized, Framer.euar, hsize]
    refine ⟨f, f.taken b .tpkt (b :: rest).length, rfl, ?_, by simp [f, Framer.taken]⟩
    simp only [Framer.nextUnit, f, List.head?_cons, hsized]
    rw [if_neg (by simp at hmax ⊢; omega), if_neg (by simp)]
    simp

end WebAccess.Scan
