/-
What an endpoint makes of the chunks of a channel. A PDU the proxy frames itself is put together
again from the units it was cut into (`carried_encode`), and the units a PDU arrived in carry it to
the other side as well (`Gathered.push`): an endpoint that was between two PDUs reads exactly that
PDU and is between two PDUs again, so PDUs written one after the other are read one after the other.
-/
import WebAccess.Scan.Relay

namespace WebAccess.Scan

open Codec Wire

/-! ## Receiving -/

/-- What the endpoint that units of `from'` are written to reads in them, chunk by chunk. It sets no
limit on the length of a PDU. -/
def receive (from' : Side) : Dechunker → List Bytes → Except RouteError (List Bytes × Dechunker)
  | d, [] => .ok ([], d)
  | d, unit :: rest =>
    match sendDataOf from' unit with
    | none => .error (.outOfStep .decode)
    | some data =>
      match d.pushUpTo none data.userData unit with
      | .error e => .error e
      | .ok (whole, d') =>
        match receive from' d' rest with
        | .error e => .error e
        | .ok (pdus, d'') => .ok ((whole.map Whole.pdu).toList ++ pdus, d'')

variable {from' : Side} {d : Dechunker} {unit : Bytes} {channel total user : Nat}

variable {d' : Dechunker} {data : SendData} {whole : Option Whole} {limit : Option Nat} {userData done : Bytes}
  {first : Bool}

theorem receive_cons {d'' : Dechunker} {rest pdus : List Bytes} (hdata : sendDataOf from' unit = some data)
    (hpush : d.pushUpTo none data.userData unit = .ok (whole, d')) (hrest : receive from' d' rest = .ok (pdus, d'')) :
    receive from' d (unit :: rest) = .ok ((whole.map Whole.pdu).toList ++ pdus, d'') := by
  simp only [receive, hdata, hpush, hrest]

theorem receive_append : ∀ {xs ys ps qs : List Bytes} {d m d' : Dechunker},
    receive from' d xs = .ok (ps, m) → receive from' m ys = .ok (qs, d') →
      receive from' d (xs ++ ys) = .ok (ps ++ qs, d')
  | [], ys, ps, qs, d, m, d', hx, hy => by
    cases hx
    exact hy
  | unit :: xs, ys, ps, qs, d, m, d', hx, hy => by
    simp only [receive] at hx
    split at hx
    · cases hx
    rename_i data hdata
    split at hx
    · cases hx
    rename_i whole d₁ hpush
    split at hx
    · cases hx
    rename_i pdus d₂ hrest
    cases hx
    rw [List.append_assoc]
    exact receive_cons hdata hpush (receive_append hrest hy)

theorem receive_prefix : ∀ {xs ys ps : List Bytes} {d d' : Dechunker},
    receive from' d (xs ++ ys) = .ok (ps, d') → ∃ qs m, receive from' d xs = .ok (qs, m) ∧ qs <+: ps
  | [], ys, ps, d, d', _ => ⟨[], d, rfl, List.nil_prefix⟩
  | unit :: xs, ys, ps, d, d', h => by
    simp only [List.cons_append, receive] at h
    split at h
    · cases h
    rename_i data hdata
    split at h
    · cases h
    rename_i whole d₁ hpush
    split at h
    · cases h
    rename_i pdus d₂ hrest
    cases h
    obtain ⟨qs, m, hqs, hprefix⟩ := receive_prefix hrest
    exact ⟨_, m, receive_cons hdata hpush hqs, (List.prefix_append_right_inj _).2 hprefix⟩

/-! ## Units that carry a PDU -/

structure ChannelUnit (from' : Side) (channel : Nat) (unit : Bytes) : Prop where
  data : ∃ d, sendDataOf from' unit = some d ∧ d.channelId = channel
  whole : FrameUnit.IsWhole ⟨.tpkt, unit⟩

structure Carried (from' : Side) (channel : Nat) (pdu : Bytes) (units : List Bytes) : Prop where
  received : ∀ d : Dechunker, d.units = [] → ∃ d', receive from' d units = .ok ([pdu], d') ∧ d'.units = []
  units : ∀ unit ∈ units, ChannelUnit from' channel unit

theorem receive_carried : ∀ {bodies : List (Bytes × List Bytes)} {d : Dechunker},
    (∀ b ∈ bodies, Carried from' channel b.1 b.2) → d.units = [] →
      ∃ d', receive from' d (bodies.flatMap Prod.snd) = .ok (bodies.map Prod.fst, d') ∧ d'.units = []
  | [], d, _, hd => ⟨d, rfl, hd⟩
  | b :: bodies, d, h, hd => by
    obtain ⟨m, hm, hidle⟩ := (h b (List.mem_cons_self ..)).received d hd
    obtain ⟨d', hd', hidle'⟩ := receive_carried (fun b hb => h b (List.mem_cons_of_mem _ hb)) hidle
    exact ⟨d', receive_append hm hd', hidle'⟩

/-! ## PDUs passed on -/

theorem Dechunker.pushUpTo_none {r : Option Whole × Dechunker} (h : d.pushUpTo limit userData unit = .ok r) :
    d.pushUpTo none userData unit = .ok r := by
  unfold pushUpTo at h ⊢
  split at h
  · cases h
  · split at h
    · cases h
    · rename_i hcomp
      split at h
      · cases h
      · rw [if_neg hcomp]
        exact h

theorem Dechunker.pushUpTo_idle {d₀ : Dechunker} (hd : d.units = []) (hd₀ : d₀.units = []) :
    d₀.pushUpTo limit userData unit = d.pushUpTo limit userData unit := by
  unfold pushUpTo
  cases channelPduHeader.run userData with
  | none => rfl
  | some x =>
    obtain ⟨⟨length, flags⟩, payload⟩ := x
    cases hf : hasBits flags flagFirst <;> simp [hd, hd₀, hf, started, add]

/-- What the router has of a PDU still incomplete: its units carry it this far to the other side. -/
structure Gathered (from' : Side) (channel : Nat) (d : Dechunker) : Prop where
  received : d.units ≠ [] → ∀ d₀ : Dechunker, d₀.units = [] → receive from' d₀ d.units = .ok ([], d)
  units : ∀ unit ∈ d.units, ChannelUnit from' channel unit

theorem gathered_idle (hd : d.units = []) : Gathered from' channel d :=
  ⟨fun h => absurd hd h, fun unit hu => by rw [hd] at hu; cases hu⟩

/-- The chunk that ends a PDU makes its units carry it; any other leaves the router with one more. -/
theorem Gathered.push (h : Gathered from' channel d) (hdata : sendDataOf from' unit = some data)
    (hunit : ChannelUnit from' channel unit) (hpush : d.push data.userData unit = .ok (whole, d')) :
    Gathered from' channel d' ∧ ∀ w, whole = some w → Carried from' channel w.pdu w.units := by
  have hpush' := Dechunker.pushUpTo_none hpush
  -- The endpoint is where the router is after the same units.
  have hread : ∀ d₀ : Dechunker, d₀.units = [] →
      receive from' d₀ (d.units ++ [unit]) = .ok ((whole.map Whole.pdu).toList, d') := by
    intro d₀ hd₀
    have hone : ∀ m : Dechunker, m.pushUpTo none data.userData unit = .ok (whole, d') →
        receive from' m [unit] = .ok ((whole.map Whole.pdu).toList, d') := by
      intro m hm
      have hrest : receive from' d' [] = .ok ([], d') := rfl
      simpa using receive_cons hdata hm hrest
    by_cases hd : d.units = []
    · rw [hd, List.nil_append]
      exact hone d₀ ((Dechunker.pushUpTo_idle hd hd₀).trans hpush')
    · simpa using receive_append (h.received hd d₀ hd₀) (hone d hpush')
  have hall : ∀ u ∈ d.units ++ [unit], ChannelUnit from' channel u := by
    intro u hu
    rcases Transition.mem_snoc.1 hu with hu | rfl
    · exact h.units u hu
    · exact hunit
  have hunits := Dechunker.units_pushUpTo hpush
  cases whole with
  | none =>
    have hd' : d'.units = d.units ++ [unit] := by simpa using hunits
    refine ⟨⟨fun _ d₀ hd₀ => ?_, by rw [hd']; exact hall⟩, fun w hw => by cases hw⟩
    rw [hd']
    exact hread d₀ hd₀
  | some w =>
    obtain ⟨length, flags, payload, -, -, -, -, -, ⟨-, hw, -⟩ | ⟨-, -, hw, rfl⟩⟩ := Dechunker.pushUpTo_eq_ok hpush
    · cases hw
    · have hidle : ({ d.started length flags with pdu := [], units := [] } : Dechunker).units = [] := rfl
      refine ⟨gathered_idle hidle, fun w' hw' => ?_⟩
      cases hw'
      cases hw
      exact ⟨fun d₀ hd₀ => ⟨_, hread d₀ hd₀, hidle⟩, hall⟩

/-! ## PDUs of the proxy's own -/

/-- The choice of the Send Data PDUs of a side. -/
def Side.choice : Side → Nat
  | .client => 25
  | .server => 26

theorem sendDataOf_encode {d : SendData} (hf : d.Fits) (h : d.encode from'.choice = some unit) :
    sendDataOf from' unit = some d := by
  cases from' with
  | client => exact sendDataOf_eq_some.2 (ofUnit_encode (.inl rfl) hf h)
  | server => exact sendDataOf_eq_some.2 (ofUnit_encode (.inr rfl) hf h)

theorem isWhole_encode {choice : Nat} {d : SendData} (h : d.encode choice = some unit) :
    FrameUnit.IsWhole ⟨.tpkt, unit⟩ := by
  obtain ⟨hmin, hmax, hhead, left, hread⟩ := tpktHeader_encode h
  refine isWhole_tpkt_iff.2 ⟨?_, by unfold maxUnit; omega⟩
  rcases unit with _ | ⟨b, rest⟩
  · cases hhead
  · cases hhead
    have hx : Action.fromFpOutputHeader 3 = some .x224 := rfl
    have hlong : ¬ rest.length < 3 := by
      rw [List.length_cons] at hmin
      omega
    simp only [findSize, hx, if_neg hlong, hread]

theorem channelPduHeader_chunk (h : total < 2 ^ 32) (first last : Bool) (piece : Bytes) :
    ∃ flags, channelPduHeader.run (chunk total first last piece) = some ((total, flags), piece) ∧
      hasBits flags flagFirst = first ∧ hasBits flags flagLast = last ∧ hasBits flags packetCompressed = false := by
  refine ⟨(if first then flagFirst else 0) ||| (if last then flagLast else 0) ||| flagShowProtocol, ?_, ?_⟩
  · have hflags : ((if first then flagFirst else 0) ||| (if last then flagLast else 0) ||| flagShowProtocol) <
        256 ^ 4 := by cases first <;> cases last <;> decide
    simp [channelPduHeader, chunk, List.append_assoc, uintLe_append (show total < 256 ^ 4 from h),
      uintLe_append hflags]
  · cases first <;> cases last <;> decide

/-- An endpoint stands behind the first bytes of a message: between two PDUs before its first
chunk, in the message after it. -/
inductive Behind (total : Nat) (d : Dechunker) : Bool → Bytes → Prop
  | start (idle : d.units = []) : Behind total d true []
  | inside (busy : d.units ≠ []) (length : d.length = total) : Behind total d false d.pdu

theorem Behind.started {flags : Nat} (h : Behind total d first done) (hf : hasBits flags flagFirst = first) :
    d.started total flags = ⟨done, total, d.units⟩ ∧ first = d.units.isEmpty := by
  cases h with
  | start idle => simp [Dechunker.started, hf, idle]
  | inside busy length =>
    refine ⟨by simp [Dechunker.started, hf, ← length], ?_⟩
    rw [eq_comm, List.isEmpty_eq_false_iff]
    exact busy

theorem Behind.push (h : Behind total d first done) (htotal : total < 2 ^ 32) (last : Bool) (piece unit : Bytes)
    (hfit : done.length + piece.length ≤ total) (hlast : last = true → done.length + piece.length = total) :
    d.pushUpTo none (chunk total first last piece) unit =
      .ok (if last then (some ⟨done ++ piece, d.units ++ [unit]⟩, ⟨[], total, []⟩)
        else (none, ⟨done ++ piece, total, d.units ++ [unit]⟩)) := by
  obtain ⟨flags, hhead, hf, hl, hc⟩ := channelPduHeader_chunk htotal first last piece
  obtain ⟨hsame, hfirst⟩ := h.started hf
  have hfit' : ¬ total < (done ++ piece).length := by simp; omega
  have hstart : (first && !d.units.isEmpty) = false := by rw [hfirst]; simp
  have hnext : (!first && d.units.isEmpty) = false := by rw [hfirst]; simp
  simp only [Dechunker.pushUpTo, hhead, hf, hl, hc, hsame, Dechunker.add, hstart, hnext, Option.any_none, if_neg hfit']
  cases last with
  | false => simp
  | true =>
    have := hlast rfl
    simp [this]

theorem channelUnit_encode {c : Bytes} (hchannel : channel < 2 ^ 16) (huser : user < 2 ^ 16)
    (hshort : c.length < 2 ^ 15) (h : SendData.encode from'.choice ⟨user, channel, c⟩ = some unit) :
    sendDataOf from' unit = some ⟨user, channel, c⟩ ∧ ChannelUnit from' channel unit := by
  have hdata := sendDataOf_encode ⟨huser, hchannel, hshort⟩ h
  exact ⟨hdata, ⟨_, hdata, rfl⟩, isWhole_encode h⟩

theorem length_chunk (total : Nat) (first last : Bool) (piece : Bytes) :
    (chunk total first last piece).length = 8 + piece.length := by
  simp [chunk]
  omega

theorem receive_chunksFrom (hchannel : channel < 2 ^ 16) (huser : user < 2 ^ 16) (htotal : total < 2 ^ 32) :
    ∀ {fuel : Nat} {first : Bool} {rest done : Bytes} {units : List Bytes} {d : Dechunker},
      rest.length ≤ fuel → Behind total d first done → done.length + rest.length = total →
      (chunksFrom total fuel first rest).mapM (fun c => SendData.encode from'.choice ⟨user, channel, c⟩) = some units →
      (∃ d', receive from' d units = .ok ([done ++ rest], d') ∧ d'.units = []) ∧
        ∀ unit ∈ units, ChannelUnit from' channel unit := by
  -- The last chunk, whatever the fuel.
  have hend : ∀ {first : Bool} {rest done : Bytes} {units : List Bytes} {d : Dechunker},
      rest.length ≤ channelChunkLength → Behind total d first done → done.length + rest.length = total →
      [chunk total first true rest].mapM (fun c => SendData.encode from'.choice ⟨user, channel, c⟩) = some units →
      (∃ d', receive from' d units = .ok ([done ++ rest], d') ∧ d'.units = []) ∧
        ∀ unit ∈ units, ChannelUnit from' channel unit := by
    intro first rest done units d hshort hd hlen hunits
    simp only [List.mapM_cons, List.mapM_nil, Option.bind_eq_bind, Option.pure_def, Option.bind_some,
      Option.bind_eq_some_iff, Option.some.injEq] at hunits
    obtain ⟨unit, hunit, rfl⟩ := hunits
    have hchunk : (chunk total first true rest).length < 2 ^ 15 := by
      rw [length_chunk]
      unfold channelChunkLength at hshort
      omega
    obtain ⟨hdata, hon⟩ := channelUnit_encode hchannel huser hchunk hunit
    have hpush := hd.push htotal true rest unit (by omega) (fun _ => hlen)
    exact ⟨⟨_, receive_cons hdata hpush rfl, rfl⟩, by simpa using hon⟩
  intro fuel
  induction fuel with
  | zero =>
    intro first rest done units d hfuel hd hlen hunits
    exact hend (by omega) hd hlen hunits
  | succ fuel ih =>
    intro first rest done units d hfuel hd hlen hunits
    unfold chunksFrom at hunits
    split at hunits
    · rename_i hshort
      exact hend hshort hd hlen hunits
    · rename_i hlong
      simp only [List.mapM_cons, Option.bind_eq_bind, Option.pure_def, Option.bind_eq_some_iff,
        Option.some.injEq] at hunits
      obtain ⟨unit, hunit, more, hmore, rfl⟩ := hunits
      have hpiece : (rest.take channelChunkLength).length = channelChunkLength := by simp; omega
      have hrest : (rest.drop channelChunkLength).length = rest.length - channelChunkLength := by simp
      have hchunk : (chunk total first false (rest.take channelChunkLength)).length < 2 ^ 15 := by
        rw [length_chunk, hpiece]
        decide
      obtain ⟨hdata, hon⟩ := channelUnit_encode hchannel huser hchunk hunit
      have hpush := hd.push htotal false (rest.take channelChunkLength) unit (by omega) (by simp)
      have hpos : 0 < channelChunkLength := by decide
      have hin : Behind total ⟨done ++ rest.take channelChunkLength, total, d.units ++ [unit]⟩ false
          (done ++ rest.take channelChunkLength) := .inside (by simp) rfl
      obtain ⟨⟨d', hd', hidle⟩, hmoreOn⟩ := ih (by omega) hin (by simp; omega) hmore
      refine ⟨⟨d', ?_, hidle⟩, ?_⟩
      · have := receive_cons hdata hpush hd'
        simpa [List.append_assoc] using this
      · rintro u (_ | ⟨_, hu⟩)
        · exact hon
        · exact hmoreOn u hu

theorem carried_encode {message : Bytes} {units : List Bytes} (hchannel : channel < 2 ^ 16) (huser : user < 2 ^ 16)
    (h : encodeSvcMessage from'.choice channel user message = some units) : Carried from' channel message units := by
  obtain ⟨chunks, hchunks, hunits⟩ := Option.bind_eq_some_iff.1 h
  unfold chunkify at hchunks
  split at hchunks
  · rename_i htotal
    cases hchunks
    refine ⟨fun d hd => ?_, ?_⟩
    · exact (receive_chunksFrom hchannel huser htotal (Nat.le_refl _) (.start hd) (by simp) hunits).1
    · exact (receive_chunksFrom (d := {}) hchannel huser htotal (Nat.le_refl _) (.start rfl) (by simp) hunits).2
  · cases hchunks

end WebAccess.Scan
