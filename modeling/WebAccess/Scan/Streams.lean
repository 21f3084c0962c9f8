/-
The framer on whole streams (`scan/framing.rs`). What is out of step stays so when more arrives, so
pushing a stream piece by piece comes to what pushing it at once comes to, whichever the pieces. What
stays buffered is shorter than the longest unit, and a stream put together of whole units, in the
order a connection has them, is cut into exactly those.
-/
import WebAccess.Scan.Framing

namespace WebAccess.Scan

open Codec Wire Cutting

/-! ## Out of step -/

variable {xs ys bytes : Bytes} {e : FrameError}

namespace Framer

variable {f : Framer} {buf : Bytes}

theorem lasting : Lasting nextUnit feed := by
  intro f e ys h
  unfold nextUnit at h
  split at h
  · cases h
  rename_i first hfirst
  have hhead : (f.buf ++ ys).head? = some first := by
    rw [List.head?_append, hfirst]
    rfl
  have hsame : f.sized first f.buf ≠ .ok none →
      sized { f with buf := f.buf ++ ys } first (f.buf ++ ys) = f.sized first f.buf :=
    fun hsome => (f.sized_sizes first f.buf).append_eq hsome ys
  split at h
  · rename_i hsized
    cases h
    simp only [nextUnit, feed, hhead]
    rw [hsame (by simp [hsized]), hsized]
  · cases h
  · rename_i kind n hsized
    split at h
    · rename_i hlength
      simp only [nextUnit, feed, hhead]
      rw [hsame (by simp [hsized]), hsized]
      simp only [if_pos hlength]
      exact h
    · split at h <;> cases h

/-! ## What stays buffered -/

theorem buffered_lt (h : f.nextUnit = .ok none) : f.buf.length < maxUnit := by
  have hmax : 6 < maxUnit := by decide
  unfold nextUnit at h
  split at h
  · rename_i hnone
    rw [List.head?_eq_none_iff.1 hnone]
    decide
  rename_i first hfirst
  split at h
  · cases h
  · rename_i hsized
    exact ((f.sized_sizes first f.buf).length_lt hsized).trans hmax
  · split at h
    · cases h
    · split at h
      · omega
      · cases h

/-! ## Pieces -/

/-- Pieces as they arrive, one after the other. -/
def pushAll (f : Framer) : List Bytes → Except FrameError (List FrameUnit × Framer)
  | [] => .ok ([], f)
  | piece :: pieces => do
    let (us, m) ← f.push piece
    let (vs, f') ← m.pushAll pieces
    pure (us ++ vs, f')

theorem push_append_eq (f : Framer) (xs ys : Bytes) :
    f.push (xs ++ ys) = (f.push xs).bind fun r => after r.1 (r.2.push ys) := by
  have hfed : f.feed (xs ++ ys) = (f.feed xs).feed ys := by simp [feed]
  unfold push
  rw [hfed]
  exact drain_feed stable lasting (Nat.lt_succ_self _) (Nat.lt_succ_self _)

theorem pushAll_eq (hf : f.nextUnit = .ok none) (pieces : List Bytes) : f.pushAll pieces = f.push pieces.flatten := by
  induction pieces generalizing f with
  | nil =>
    have hempty : f.feed [] = f := by simp [feed]
    rw [List.flatten_nil, push_eq_ok.2 ⟨by rw [hempty]; exact .nil, hf⟩]
    rfl
  | cons piece pieces ih =>
    rw [List.flatten_cons, push_append_eq, pushAll]
    rcases hpush : f.push piece with e | ⟨us, m⟩
    · rfl
    · simp only [bind, Except.bind, ih (push_eq_ok.1 hpush).2, after]
      cases m.push pieces.flatten <;> rfl

theorem nextUnit_new (fromServer hybridEx : Bool) : (new fromServer hybridEx).nextUnit = .ok none := rfl

end Framer

/-! ## Units put together -/

/-- The length octets of a DER message: the length itself, or their number and the length in one to
four octets. -/
inductive DerOctets : Bytes → Nat → Prop
  | short (length : UInt8) (small : length.toNat < 0x80) : DerOctets [length] length.toNat
  | long (count : UInt8) (octets : Bytes) (counted : count.toNat = 0x80 + octets.length) (some : octets ≠ [])
      (few : octets.length ≤ 4) : DerOctets (count :: octets) (beNat octets)

def IsDer (bytes : Bytes) : Prop :=
  ∃ octets content, DerOctets octets content.length ∧ bytes = 0x30 :: (octets ++ content) ∧ bytes.length ≤ maxUnit

/-- An Early User Authorization Result, as far as it can be told from what may stand in its place. -/
def IsResult (bytes : Bytes) : Prop := ∃ a b c d, bytes = [a, b, c, d] ∧ a ≠ 0x30 ∧ a ≠ 3

/-- A TPKT: the version, a reserved byte, the length of it all. -/
def IsTpkt (bytes : Bytes) : Prop :=
  ∃ reserved hi lo body, bytes = 3 :: reserved :: hi :: lo :: body ∧ hi.toNat * 256 + lo.toNat = bytes.length ∧
    7 ≤ bytes.length

/-- A fast-path PDU, with its length in one byte or in two. -/
def IsFastPath (bytes : Bytes) : Prop :=
  ∃ header : UInt8, header.toNat % 4 = 0 ∧
    ((∃ a body, bytes = header :: a :: body ∧ a.toNat < 0x80 ∧ a.toNat = bytes.length) ∨
      ∃ a b body, bytes = header :: a :: b :: body ∧ 0x80 ≤ a.toNat ∧ (a.toNat - 0x80) * 256 + b.toNat = bytes.length)

/-- A unit that may stand behind the first TPKT. -/
def FrameUnit.Connected (u : FrameUnit) : Prop :=
  u.kind = .tpkt ∧ IsTpkt u.bytes ∨ u.kind = .fastPath ∧ IsFastPath u.bytes

/-- What one direction of a connection sends: authentication, from a server of HYBRID_EX a result if
it likes, and the connection. -/
inductive IsStream (fromServer hybridEx : Bool) : List FrameUnit → Prop
  | mk (ders : List Bytes) (result : Option Bytes) (first : Bytes) (rest : List FrameUnit)
      (authentication : ∀ der ∈ ders, IsDer der)
      (authorization : ∀ r ∈ result, IsResult r ∧ fromServer = true ∧ hybridEx = true) (start : IsTpkt first)
      (connection : ∀ u ∈ rest, u.Connected) :
      IsStream fromServer hybridEx
        (ders.map (⟨.unread, ·⟩) ++ result.toList.map (⟨.unread, ·⟩) ++ ⟨.tpkt, first⟩ :: rest)

/-! ## Whole units are taken off -/

theorem findSize_tpkt (h : IsTpkt bytes) : findSize (bytes ++ ys) = .ok (some (.x224, bytes.length)) := by
  obtain ⟨reserved, hi, lo, body, rfl, hlength, hmin⟩ := h
  have hx : Action.fromFpOutputHeader 3 = some .x224 := rfl
  have hlong : ¬ (reserved :: hi :: lo :: (body ++ ys)).length < 3 := by simp
  simp only [List.cons_append, findSize, hx, if_neg hlong, tpktHeader_run]
  rw [if_pos ⟨rfl, by omega⟩, hlength]

theorem findSize_fastPath_append (h : IsFastPath bytes) :
    findSize (bytes ++ ys) = .ok (some (.fastPath, bytes.length)) := by
  obtain ⟨header, hheader, hlength⟩ := h
  have hx : Action.fromFpOutputHeader header = some .fastPath := by simp [Action.fromFpOutputHeader, hheader]
  rcases hlength with ⟨a, body, rfl, hshort, hlength⟩ | ⟨a, b, body, rfl, hlong, hlength⟩
  · have htwo : ¬ a.toNat < 2 := by
      rw [hlength]
      simp
    simp only [List.cons_append, findSize, hx, fastPathSize, if_pos hshort, if_neg htwo]
    rw [hlength]
    rfl
  · have hshort : ¬ a.toNat < 0x80 := by omega
    have hthree : ¬ (a.toNat - 0x80) * 256 + b.toNat < 3 := by
      rw [hlength]
      simp
    simp only [List.cons_append, findSize, hx, fastPathSize, if_neg hshort, if_neg hthree]
    rw [hlength]
    rfl

theorem derLength_der (h : IsDer bytes) : derLength (bytes ++ ys) = .ok (some bytes.length) := by
  obtain ⟨octets, content, hoctets, rfl, -⟩ := h
  generalize hn : content.length = n at hoctets
  cases hoctets with
  | short length small =>
    simp only [List.cons_append, List.nil_append, derLength, if_pos small, List.length_cons, hn]
    rw [Nat.add_comm]
  | long count octets counted some few =>
    have hpos := List.length_pos_iff.2 some
    have hshort : ¬ count.toNat < 0x80 := by omega
    have hcount : count.toNat - 0x80 = octets.length := by omega
    have hfew : ¬ (octets.length = 0 ∨ 4 < octets.length) := by omega
    have hlong : ¬ (octets ++ content ++ ys).length < octets.length := by simp
    have htake : (octets ++ content ++ ys).take octets.length = octets := by
      rw [List.append_assoc, List.take_left' rfl]
    have hsum : 2 + octets.length + beNat octets = (0x30 :: (count :: octets ++ content)).length := by
      simp only [List.length_cons, List.length_append, List.cons_append, hn]
      omega
    simp only [List.cons_append, derLength, if_neg hshort, hcount, if_neg hfew, if_neg hlong, htake]
    rw [hsum, List.cons_append]

namespace Framer

variable {ys : Bytes} {fromServer hybridEx mcs euarSeen : Bool}

theorem nextUnit_of_sized {f : Framer} {first : UInt8} {kind : UnitKind} (hbuf : f.buf = bytes ++ ys)
    (hfirst : bytes.head? = some first) (hsized : f.sized first f.buf = .ok (some (kind, bytes.length)))
    (hmax : bytes.length ≤ maxUnit) :
    f.nextUnit = .ok (some (⟨kind, bytes⟩, { f.taken first kind bytes.length with buf := ys })) := by
  have hhead : f.buf.head? = some first := by rw [hbuf, List.head?_append, hfirst]; rfl
  have hpos : 0 < bytes.length := by
    rcases bytes with _ | ⟨b, bytes⟩
    · cases hfirst
    · simp
  have hlong : ¬ f.buf.length < bytes.length := by rw [hbuf, List.length_append]; omega
  simp only [nextUnit, hhead, hsized]
  rw [if_neg (by omega), if_neg hlong]
  simp only [taken, hbuf, List.take_left' rfl, List.drop_left' rfl]

theorem nextUnit_der {der : Bytes} (h : IsDer der) :
    nextUnit ⟨der ++ ys, fromServer, hybridEx, false, euarSeen⟩ =
      .ok (some (⟨.unread, der⟩, ⟨ys, fromServer, hybridEx, false, euarSeen⟩)) := by
  have hmax : der.length ≤ maxUnit := by
    obtain ⟨_, _, -, -, hmax⟩ := h
    exact hmax
  have hfirst : der.head? = some 0x30 := by
    obtain ⟨octets, content, -, rfl, -⟩ := h
    rfl
  have hsized : sized ⟨der ++ ys, fromServer, hybridEx, false, euarSeen⟩ 0x30 (der ++ ys) =
      .ok (some (.unread, der.length)) := by
    simp only [sized, Bool.not_false, beq_self_eq_true, Bool.and_self, if_true, derLength_der h]
    rfl
  rw [nextUnit_of_sized rfl hfirst hsized hmax]
  simp [taken]

theorem nextUnit_result {result : Bytes} (h : IsResult result) :
    nextUnit ⟨result ++ ys, true, true, false, false⟩ =
      .ok (some (⟨.unread, result⟩, ⟨ys, true, true, false, true⟩)) := by
  obtain ⟨a, b, c, d, rfl, hder, htpkt⟩ := h
  have hsized : sized ⟨[a, b, c, d] ++ ys, true, true, false, false⟩ a ([a, b, c, d] ++ ys) =
      .ok (some (.unread, [a, b, c, d].length)) := by simp [sized, euar, hder, htpkt]
  rw [nextUnit_of_sized rfl rfl hsized (by simp [maxUnit])]
  simp [taken, euar, hder]

theorem nextUnit_tpkt {tpkt : Bytes} (h : IsTpkt tpkt) :
    nextUnit ⟨tpkt ++ ys, fromServer, hybridEx, mcs, euarSeen⟩ =
      .ok (some (⟨.tpkt, tpkt⟩, ⟨ys, fromServer, hybridEx, true, euarSeen⟩)) := by
  have hfirst : tpkt.head? = some 3 := by
    obtain ⟨reserved, hi, lo, body, rfl, -⟩ := h
    rfl
  have hmax : tpkt.length ≤ maxUnit := by
    obtain ⟨reserved, hi, lo, body, -, hlength, -⟩ := h
    have := hi.toNat_lt
    have := lo.toNat_lt
    unfold maxUnit
    omega
  have hsized : sized ⟨tpkt ++ ys, fromServer, hybridEx, mcs, euarSeen⟩ 3 (tpkt ++ ys) =
      .ok (some (.tpkt, tpkt.length)) := by simp [sized, findSize_tpkt h]
  rw [nextUnit_of_sized rfl hfirst hsized hmax]
  simp [taken]

theorem nextUnit_fastPath {pdu : Bytes} (h : IsFastPath pdu) :
    nextUnit ⟨pdu ++ ys, fromServer, hybridEx, true, euarSeen⟩ =
      .ok (some (⟨.fastPath, pdu⟩, ⟨ys, fromServer, hybridEx, true, euarSeen⟩)) := by
  obtain ⟨first, hfirst⟩ : ∃ first, pdu.head? = some first := by
    obtain ⟨header, -, ⟨a, body, rfl, -⟩ | ⟨a, b, body, rfl, -⟩⟩ := h <;> exact ⟨_, rfl⟩
  have hmax : pdu.length ≤ maxUnit := by
    obtain ⟨header, -, ⟨a, body, -, -, hlength⟩ | ⟨a, b, body, -, -, hlength⟩⟩ := h
    · have := a.toNat_lt
      unfold maxUnit
      omega
    · have := a.toNat_lt
      have := b.toNat_lt
      unfold maxUnit
      omega
  have hsized : sized ⟨pdu ++ ys, fromServer, hybridEx, true, euarSeen⟩ first (pdu ++ ys) =
      .ok (some (.fastPath, pdu.length)) := by simp [sized, euar, findSize_fastPath_append h]
  rw [nextUnit_of_sized rfl hfirst hsized hmax]
  simp [taken]

theorem cuts_ders {ders : List Bytes} (h : ∀ der ∈ ders, IsDer der) :
    Cuts nextUnit ⟨ders.flatten ++ ys, fromServer, hybridEx, false, euarSeen⟩ (ders.map (⟨.unread, ·⟩))
      ⟨ys, fromServer, hybridEx, false, euarSeen⟩ := by
  induction ders with
  | nil => exact .nil
  | cons der ders ih =>
    rw [List.flatten_cons, List.append_assoc, List.map_cons]
    exact .cons (nextUnit_der (h der List.mem_cons_self)) (ih fun der hd => h der (List.mem_cons_of_mem _ hd))

variable {units : List FrameUnit}

theorem cuts_connected (h : ∀ u ∈ units, u.Connected) :
    Cuts nextUnit ⟨(units.map FrameUnit.bytes).flatten, fromServer, hybridEx, true, euarSeen⟩ units
      ⟨[], fromServer, hybridEx, true, euarSeen⟩ := by
  induction units with
  | nil => exact .nil
  | cons u units ih =>
    rw [List.map_cons, List.flatten_cons]
    refine .cons ?_ (ih fun u hu => h u (List.mem_cons_of_mem _ hu))
    obtain ⟨kind, bytes⟩ := u
    rcases h _ List.mem_cons_self with ⟨rfl, hu⟩ | ⟨rfl, hu⟩
    · exact nextUnit_tpkt hu
    · exact nextUnit_fastPath hu

theorem cuts_result {result : Option Bytes} (ys : Bytes) (h : ∀ r ∈ result, IsResult r ∧
    fromServer = true ∧ hybridEx = true) :
    ∃ euarSeen, Cuts nextUnit ⟨result.toList.flatten ++ ys, fromServer, hybridEx, false, false⟩
      (result.toList.map (⟨.unread, ·⟩)) ⟨ys, fromServer, hybridEx, false, euarSeen⟩ := by
  cases result with
  | none => exact ⟨false, .nil⟩
  | some r =>
    obtain ⟨hr, rfl, rfl⟩ := h r rfl
    exact ⟨true, .cons (by simpa using nextUnit_result hr) .nil⟩

theorem push_stream (h : IsStream fromServer hybridEx units) :
    ∃ f', (new fromServer hybridEx).push (units.map FrameUnit.bytes).flatten = .ok (units, f') ∧ f'.buf = [] := by
  obtain ⟨ders, result, first, rest, hders, hresult, hfirst, hrest⟩ := h
  obtain ⟨euarSeen, hcuts⟩ := cuts_result (first ++ (rest.map FrameUnit.bytes).flatten) hresult
  refine ⟨⟨[], fromServer, hybridEx, true, euarSeen⟩, push_eq_ok.2 ⟨?_, rfl⟩, rfl⟩
  have hall := ((cuts_ders hders).append hcuts).append (.cons (nextUnit_tpkt hfirst) (cuts_connected hrest))
  simpa [new, feed, Function.comp_def] using hall

end Framer

/-- Framing does not depend on how the stream is cut, and undoes concatenation: pushing a stream piece
by piece comes to what pushing it whole comes to, error or units and buffer; the units and the buffer
are the stream, and the buffer is shorter than the longest unit; and a stream put together of units is
cut into exactly those. -/
theorem framing_of_stream (fromServer hybridEx : Bool) (pieces : List Bytes) :
    (Framer.new fromServer hybridEx).pushAll pieces = (Framer.new fromServer hybridEx).push pieces.flatten ∧
    (∀ us f', (Framer.new fromServer hybridEx).pushAll pieces = .ok (us, f') →
      (us.map FrameUnit.bytes).flatten ++ f'.buf = pieces.flatten ∧ f'.buf.length < maxUnit) ∧
    ∀ units, IsStream fromServer hybridEx units → pieces.flatten = (units.map FrameUnit.bytes).flatten →
      ∃ f', (Framer.new fromServer hybridEx).pushAll pieces = .ok (units, f') ∧ f'.buf = [] := by
  have heq := Framer.pushAll_eq (Framer.nextUnit_new fromServer hybridEx) pieces
  refine ⟨heq, fun us f' h => ?_, fun units hunits hpieces => ?_⟩
  · rw [heq] at h
    exact ⟨(Framer.bytes_of_push h).symm, Framer.buffered_lt (Framer.push_eq_ok.1 h).2⟩
  · rw [heq, hpieces]
    exact Framer.push_stream hunits

/-- One unit of each form, byte by byte. -/
theorem framing_of_stream_bytewise : ∃ units f', IsStream true true units ∧ units.length = 4 ∧
    (Framer.new true true).pushAll ((units.map FrameUnit.bytes).flatten.map ([·])) = .ok (units, f') ∧ f'.buf = [] := by
  have hstream : IsStream true true [⟨.unread, [0x30, 0]⟩, ⟨.unread, [0, 0, 0, 0]⟩, ⟨.tpkt, [3, 0, 0, 7, 0, 0, 0]⟩,
      ⟨.fastPath, [0x30, 2]⟩] := by
    refine .mk [[0x30, 0]] (some [0, 0, 0, 0]) [3, 0, 0, 7, 0, 0, 0] [⟨.fastPath, [0x30, 2]⟩] ?_ ?_ ?_ ?_
    · simpa using ⟨[0], [], .short 0 (by decide), rfl, by decide⟩
    · simpa using ⟨0, 0, 0, 0, rfl, by decide, by decide⟩
    · exact ⟨0, 0, 7, [0, 0, 0], rfl, by decide, by decide⟩
    · simpa using .inr ⟨rfl, 0x30, by decide, .inl ⟨2, [], rfl, by decide, by decide⟩⟩
  obtain ⟨f', hpush, hbuf⟩ := (framing_of_stream true true
    ([0x30, 0, 0, 0, 0, 0, 3, 0, 0, 7, 0, 0, 0, 0x30, 2].map ([·]))).2.2 _ hstream rfl
  exact ⟨_, f', hstream, rfl, hpush, hbuf⟩

end WebAccess.Scan
