/-
Switching compression off (`no_compression` of `scan/route.rs`): the rewriting looks for the bytes of
the channel's name in the undecoded unit, and what it has to hit is the option word of a decoded
channel. Where the name stands with its terminator in the channel's own field and nowhere else, the
unit sent on is the one that came with exactly the two option bits cleared, it decodes to the same
Connect Initial but for them, and no other unit of the session is replaced. `ChannelName::new` puts
the terminator where the wire may have another byte; then the bytes found stand somewhere else.
-/
import WebAccess.Wire.Gcc
import WebAccess.Scan.Transparency

namespace WebAccess.Scan

open Codec Wire Transition

/-! ## Looking for the name -/

/-- Where a string of bytes stands in another. -/
def places (name bs : Bytes) : List Nat := (List.range bs.length).filter fun k => name.isPrefixOf (bs.drop k)

section Places

variable {name before after bs rest rest' : Bytes} {k : Nat}

theorem mem_places (hname : name ≠ []) : before.length ∈ places name (before ++ name ++ after) := by
  have hlength := List.length_pos_iff.2 hname
  refine List.mem_filter.2 ⟨List.mem_range.2 (by simp; omega), ?_⟩
  rw [List.append_assoc, List.drop_left]
  exact List.isPrefixOf_iff_prefix.2 (List.prefix_append name after)

theorem position_ne_none : ∀ {before : Bytes}, position name (before ++ name ++ after) ≠ none
  | [] => by
    cases name with
    | nil => cases after <;> simp [position]
    | cons b name =>
      have hstarts : (b :: name).isPrefixOf (b :: name ++ after) = true :=
        List.isPrefixOf_iff_prefix.2 (List.prefix_append (b :: name) after)
      simp only [List.nil_append, List.cons_append, position] at hstarts ⊢
      rw [if_pos hstarts]
      exact nofun
  | b :: before => by
    simp only [List.cons_append, position]
    split
    · exact nofun
    · simp only [ne_eq, Option.map_eq_none_iff]
      exact position_ne_none

theorem position_cons_eq_none {b : UInt8} :
    position name (b :: bs) = none ↔ name.isPrefixOf (b :: bs) = false ∧ position name bs = none := by
  rw [position]
  split
  · rename_i hstarts
    rw [hstarts]
    exact ⟨fun h => (by cases h), fun h => (by cases h.1)⟩
  · rename_i hstarts
    rw [Option.map_eq_none_iff]
    exact ⟨fun h => ⟨Bool.eq_false_iff.2 hstarts, h⟩, fun h => h.2⟩

theorem position_append : ∀ {bs : Bytes} {k : Nat}, k + name.length ≤ bs.length →
    position name (bs ++ rest) = some k → position name (bs ++ rest') = some k
  | [], k, hk, _ => by
    rw [List.length_nil, Nat.le_zero, Nat.add_eq_zero_iff, List.length_eq_zero_iff] at hk
    obtain ⟨rfl, rfl⟩ := hk
    cases rest' <;> simp [position]
  | b :: bs, k, hk, h => by
    have hstarts : ∀ rest : Bytes, name.isPrefixOf (b :: (bs ++ rest)) = name.isPrefixOf (b :: bs) := by
      intro rest
      rw [Bool.eq_iff_iff, List.isPrefixOf_iff_prefix, List.isPrefixOf_iff_prefix, ← List.cons_append]
      refine ⟨fun hp => ?_, fun hp => hp.trans (List.prefix_append _ _)⟩
      exact List.prefix_of_prefix_length_le hp (List.prefix_append _ _) (by omega)
    simp only [List.cons_append, position, hstarts] at h ⊢
    split at h
    · rename_i hp
      rw [if_pos hp]
      exact h
    · rename_i hp
      rw [if_neg hp]
      obtain ⟨j, hj, rfl⟩ := Option.map_eq_some_iff.1 h
      rw [position_append (by simp at hk; omega) hj]
      rfl

theorem position_of_once (hname : name ≠ []) (hone : (places name (before ++ name ++ after)).length = 1) :
    position name (before ++ name ++ after) = some before.length ∧ position name after = none := by
  obtain ⟨place, hplace⟩ := List.length_eq_one_iff.1 hone
  have hunique : ∀ {front back : Bytes}, before ++ name ++ after = front ++ name ++ back → front.length = place := by
    intro front back heq
    have hmem : front.length ∈ places name (front ++ name ++ back) := mem_places hname
    rwa [← heq, hplace, List.mem_singleton] at hmem
  have hhere : before.length = place := hunique rfl
  constructor
  · obtain ⟨k, hk⟩ := Option.ne_none_iff_exists'.1 (position_ne_none : position name (before ++ name ++ after) ≠ none)
    obtain ⟨front, back, heq, rfl⟩ := position_eq_some hk
    rw [hk, hhere, hunique heq]
  · rw [Option.eq_none_iff_forall_ne_some]
    intro k hk
    obtain ⟨front, back, rfl, rfl⟩ := position_eq_some hk
    have heq : before ++ name ++ (front ++ name ++ back) = before ++ name ++ front ++ name ++ back := by simp
    have hthere := hunique heq
    have hlength := List.length_pos_iff.2 hname
    simp only [List.length_append] at hthere
    omega

end Places

/-! ## The rewriting -/

def cleared (options : Nat) : Nat := options &&& (2 ^ 32 - 1 - compressOptions)

variable {options : Nat} {after : Bytes}

theorem testBit_cleared (h : options < 2 ^ 32) (i : Nat) :
    (cleared options).testBit i = (options.testBit i && decide (i ≠ 22) && decide (i ≠ 23)) := by
  by_cases hi : i < 32
  · have hmask : (2 ^ 32 - 1 - compressOptions).testBit i = (decide (i ≠ 22) && decide (i ≠ 23)) := by
      have hall : ∀ j : Fin 32, (2 ^ 32 - 1 - compressOptions).testBit j =
          (decide (j.val ≠ 22) && decide (j.val ≠ 23)) := by
        decide
      exact hall ⟨i, hi⟩
    rw [cleared, Nat.testBit_and, hmask, Bool.and_assoc]
  · have hbig : options.testBit i = false :=
      Nat.testBit_lt_two_pow (h.trans_le (Nat.pow_le_pow_right (by decide) (by omega)))
    rw [cleared, Nat.testBit_and, hbig]
    rfl

theorem cleared_cleared (options : Nat) : cleared (cleared options) = cleared options := by
  rw [cleared, cleared, Nat.and_assoc, Nat.and_self]

theorem cleared_lt (h : options < 256 ^ 4) : cleared options < 256 ^ 4 :=
  Nat.and_le_left.trans_lt h

theorem leBytes_cleared {a b c d : UInt8} :
    ∃ c' : UInt8, c'.toNat < 0x40 ∧ leBytes 4 (cleared (leNat [a, b, c, d])) = [a, b, c', d] := by
  have hbyte : ∀ k, cleared (leNat [a, b, c, d]) / 2 ^ k % 2 ^ 8 =
      leNat [a, b, c, d] / 2 ^ k % 2 ^ 8 &&& (2 ^ 32 - 1 - compressOptions) / 2 ^ k % 2 ^ 8 := by
    intro k
    rw [cleared, Nat.and_div_two_pow, Nat.and_mod_two_pow]
  have hfull : ∀ n : Nat, n % 2 ^ 8 &&& 255 = n % 2 ^ 8 := by
    intro n
    rw [show 255 = 2 ^ 8 - 1 from rfl, Nat.and_two_pow_sub_one_eq_mod, Nat.mod_mod]
  have hword : leNat [a, b, c, d] = a.toNat + 256 * (b.toNat + 256 * (c.toNat + 256 * d.toNat)) := by simp [leNat]
  have ha := a.toNat_lt
  have hb := b.toNat_lt
  have hc := c.toNat_lt
  have hd := d.toNat_lt
  have h0 : cleared (leNat [a, b, c, d]) % 256 = a.toNat := by
    have h := hbyte 0
    rw [show (2 ^ 32 - 1 - compressOptions) / 2 ^ 0 % 2 ^ 8 = 255 by decide, hfull] at h
    omega
  have h1 : cleared (leNat [a, b, c, d]) / 256 % 256 = b.toNat := by
    have h := hbyte 8
    rw [show (2 ^ 32 - 1 - compressOptions) / 2 ^ 8 % 2 ^ 8 = 255 by decide, hfull] at h
    omega
  have h2 : cleared (leNat [a, b, c, d]) / 256 / 256 % 256 < 0x40 := by
    have h := hbyte 16
    have hle : leNat [a, b, c, d] / 2 ^ 16 % 2 ^ 8 &&& (2 ^ 32 - 1 - compressOptions) / 2 ^ 16 % 2 ^ 8 ≤ 0x3F :=
      Nat.and_le_right
    omega
  have h3 : cleared (leNat [a, b, c, d]) / 256 / 256 / 256 % 256 = d.toNat := by
    have h := hbyte 24
    rw [show (2 ^ 32 - 1 - compressOptions) / 2 ^ 24 % 2 ^ 8 = 255 by decide, hfull] at h
    omega
  have hof : ∀ {n : Nat} {x : UInt8}, n % 256 = x.toNat → UInt8.ofNat n = x := by
    intro n x h
    apply UInt8.toNat_inj.1
    rw [UInt8.toNat_ofNat']
    exact h
  refine ⟨UInt8.ofNat (cleared (leNat [a, b, c, d]) / 256 / 256), ?_, ?_⟩
  · rw [UInt8.toNat_ofNat']
    exact h2
  · simp only [leBytes, hof h0, hof h1, hof h3]

/-- The name does not come to stand in the cleared word or across its end: the byte that changes is none of its first
three letters. -/
theorem position_cleared {options : Bytes} (hlength : options.length = 4)
    (h : position cliprdrField (options ++ after) = none) :
    position cliprdrField (leBytes 4 (cleared (leNat options)) ++ after) = none := by
  match options, hlength with
  | [a, b, c, d], _ =>
    obtain ⟨c', hc', hbytes⟩ := leBytes_cleared (a := a) (b := b) (c := c) (d := d)
    have hletter : ∀ letter ∈ cliprdrField.take 3, c' ≠ letter := by
      rintro letter hletter rfl
      have hall : ∀ letter ∈ cliprdrField.take 3, 0x40 ≤ letter.toNat := by simp [cliprdrField]
      exact absurd hc' (Nat.not_lt.2 (hall c' hletter))
    have hfirst : c' ≠ 0x63 := hletter _ (by decide)
    have hsecond : c' ≠ 0x6C := hletter _ (by decide)
    have hthird : c' ≠ 0x69 := hletter _ (by decide)
    simp only [List.cons_append, List.nil_append, position_cons_eq_none] at h
    obtain ⟨-, -, -, hlast⟩ := h
    rw [hbytes]
    simp only [List.cons_append, List.nil_append, position_cons_eq_none]
    refine ⟨?_, ?_, ?_, hlast⟩
    · simp [cliprdrField, List.isPrefixOf, hthird.symm]
    · simp [cliprdrField, List.isPrefixOf, hsecond.symm]
    · simp [cliprdrField, List.isPrefixOf, hfirst.symm]

section Once

variable {before options : Bytes} (hlength : options.length = 4)
  (hfirst : position cliprdrField (before ++ cliprdrField ++ (options ++ after)) = some before.length)
  (honce : position cliprdrField (options ++ after) = none)

include hlength hfirst honce

theorem noCompression_eq : noCompression (before ++ cliprdrField ++ (options ++ after)) =
      some (before ++ cliprdrField ++ (leBytes 4 (cleared (leNat options)) ++ after)) := by
  have hstart : (before ++ cliprdrField ++ (options ++ after)).drop (before.length + cliprdrField.length) =
      options ++ after := List.drop_left' (by simp)
  have hkeep : (before ++ cliprdrField ++ (options ++ after)).take (before.length + cliprdrField.length) =
      before ++ cliprdrField := List.take_left' (by simp)
  have hrest : (before ++ cliprdrField ++ (options ++ after)).drop (before.length + cliprdrField.length + 4) =
      after := by
    rw [← List.drop_drop, hstart]
    exact List.drop_left' hlength
  have hlong : ¬ (before ++ cliprdrField ++ (options ++ after)).length < before.length + cliprdrField.length + 4 := by
    simp only [List.length_append, hlength]
    omega
  have hword : (options ++ after).take 4 = options := List.take_left' hlength
  simp only [noCompression, hfirst, Option.bind_eq_bind, Option.bind_some, hstart, honce, Option.isSome_none,
    Bool.false_eq_true, if_false, if_neg hlong, hkeep, hrest, hword, cleared]
  rw [List.append_assoc (before ++ cliprdrField)]

theorem noCompression_again :
    noCompression (before ++ cliprdrField ++ (leBytes 4 (cleared (leNat options)) ++ after)) =
      some (before ++ cliprdrField ++ (leBytes 4 (cleared (leNat options)) ++ after)) := by
  have hagain := noCompression_eq (length_leBytes 4 (cleared (leNat options)))
    (position_append (by simp) hfirst) (position_cleared hlength honce)
  have hword : leNat options < 256 ^ 4 := hlength ▸ leNat_lt options
  rwa [leNat_leBytes (cleared_lt hword), cleared_cleared] at hagain

end Once

/-! ## The Connect Initial -/

/-- The decoders the session has: the Connect Initial is read as `ironrdp-pdu` reads it, the Connect Response in
whatever way. -/
def connectDecoders (channelIds : Bytes → Option (List UInt16)) : ConnectDecoders where
  channelNames data := (ConnectInitial.decode data).bind fun ci => ci.channelNames.map (·.map ChannelDef.name)
  channelIds := channelIds

def isCliprdr (c : ChannelDef) : Bool := channelNameStr c.name == some cliprdrName

structure IsInitial (unit : FrameUnit) (ci : ConnectInitial) (channels : List ChannelDef) : Prop where
  kind : unit.kind = .tpkt
  decoded : (x224Data unit.bytes).bind ConnectInitial.decode = some ci
  channels : ci.channelNames = some channels

/-- A unit and the copy that is sent in its place: they differ in the option word after the name at most, in which
exactly the two compression bits are cleared; the copy is the same Connect Initial but for them, and is its own
copy. -/
structure SwitchedOff (unit copy : Bytes) (ci : ConnectInitial) (channels : List ChannelDef) (c : ChannelDef) :
    Prop where
  length : copy.length = unit.length
  bytes : ∃ front back, unit = front ++ cliprdrField ++ (leBytes 4 c.options ++ back) ∧
    copy = front ++ cliprdrField ++ (leBytes 4 (cleared c.options) ++ back)
  bits : ∀ i, (cleared c.options).testBit i = (c.options.testBit i && decide (i ≠ 22) && decide (i ≠ 23))
  decoded : ∃ before after ci', channels = before ++ c :: after ∧
    (x224Data copy).bind ConnectInitial.decode = some ci' ∧
    ci'.IsWith ci (before ++ { c with options := cleared c.options } :: after)
  again : noCompression copy = some copy

theorem hasBits_cleared (h : hasBits channelOptions options = true) :
    hasBits channelOptions (cleared options) = true := by
  rw [hasBits, beq_iff_eq] at h ⊢
  rw [cleared, ← Nat.and_assoc, h]

/-- The rewriting hits the option word of the channel whose name stands on the wire as it is looked for. -/
theorem switchedOff_of_once {unit : FrameUnit} {ci : ConnectInitial} {channels : List ChannelDef} {c : ChannelDef}
    (hinitial : IsInitial unit ci channels) (hc : c ∈ channels) (hwire : c.wire = cliprdrField)
    (honce : (places cliprdrField unit.bytes).length = 1) :
    ∃ copy, noCompression unit.bytes = some copy ∧ SwitchedOff unit.bytes copy ci channels c := by
  obtain ⟨data, hdata, hci⟩ := Option.bind_eq_some_iff.1 hinitial.decoded
  obtain ⟨head, trail, hunit, hhead⟩ := x224Data_layout hdata
  obtain ⟨front, back, hlayout⟩ := ConnectInitial.decode_layout hci hinitial.channels
  obtain ⟨before, after, rfl⟩ := List.append_of_mem hc
  have hvalid := hlayout.valid c hc
  have hplace : unit.bytes = head ++ front ++ before.flatMap ChannelDef.encode ++ cliprdrField ++
      (leBytes 4 c.options ++ (after.flatMap ChannelDef.encode ++ back ++ trail)) := by
    rw [hunit, hlayout.place]
    simp [ChannelDef.encode, hwire]
  have hoptions : leNat (leBytes 4 c.options) = c.options := leNat_leBytes hvalid.options_lt
  rw [hplace] at honce
  obtain ⟨hfirst, hnone⟩ := position_of_once (by decide) honce
  have hcopy := noCompression_eq (length_leBytes 4 c.options) hfirst hnone
  have hagain := noCompression_again (length_leBytes 4 c.options) hfirst hnone
  rw [hoptions] at hcopy hagain
  refine ⟨_, hplace ▸ hcopy, ?_, ⟨_, _, hplace, rfl⟩, testBit_cleared hvalid.options_lt, ?_, hagain⟩
  · rw [hplace]
    simp
  · have hchannels : ∀ c' ∈ before ++ { c with options := cleared c.options } :: after, c'.Valid := by
      intro c' hc'
      rcases List.mem_append.1 hc' with hc' | hc'
      · exact hlayout.valid c' (List.mem_append_left _ hc')
      · rcases List.mem_cons.1 hc' with rfl | hc'
        · exact ⟨hvalid.name, hasBits_cleared hvalid.options⟩
        · exact hlayout.valid c' (List.mem_append_right _ (List.mem_cons_of_mem _ hc'))
    obtain ⟨ci', hci', hwith⟩ := hlayout.exchange _ (by simp) hchannels
    have hdata' : head ++ front ++ before.flatMap ChannelDef.encode ++ cliprdrField ++
        (leBytes 4 (cleared c.options) ++ (after.flatMap ChannelDef.encode ++ back ++ trail)) =
        head ++ (front ++ ((before ++ { c with options := cleared c.options } :: after).flatMap ChannelDef.encode ++
          back) ++ trail) := by
      simp [ChannelDef.encode, hwire]
    refine ⟨before, after, ci', rfl, ?_, hwith⟩
    rw [hdata', hhead, Option.bind_some, hci']
    rw [hlayout.place]
    simp [ChannelDef.encode]

/-! ## The session -/

/-- A unit goes on as a copy of it. -/
def Replaced (dec : ConnectDecoders) (side : Side) (e : Entry Relay Act) : Prop :=
  ∃ unit copy route, Relay.arrival side e = some unit ∧ e.pre.route.readUnit dec side unit = .ok (.replace copy, route)

section Session

variable {channelIds : Bytes → Option (List UInt16)} {hybridEx : Bool} {staging : Staging} {tr : RelayTrace} {s : Relay}

variable {unit : FrameUnit} {before : RelayTrace}

theorem isInitial_of_initialNames (h : unit.initialNames (connectDecoders channelIds) ≠ none) :
    ∃ ci channels, IsInitial unit ci channels := by
  obtain ⟨names, hnames⟩ := Option.ne_none_iff_exists'.1 h
  unfold FrameUnit.initialNames at hnames
  split at hnames
  · rename_i hkind
    obtain ⟨names', hnames', -⟩ := Option.map_eq_some_iff.1 hnames
    obtain ⟨data, hdata, hdecoded⟩ := Option.bind_eq_some_iff.1 hnames'
    obtain ⟨ci, hci, hchannels⟩ := Option.bind_eq_some_iff.1 hdecoded
    obtain ⟨channels, hchannels, -⟩ := Option.map_eq_some_iff.1 hchannels
    exact ⟨ci, channels, hkind, by rw [hdata]; exact hci, hchannels⟩
  · cases hnames

variable {dec : ConnectDecoders} {e : Entry Relay Act}

theorem initial_turn {s' : Relay} {a : Act} (hs : Relay.WellCut s) (h : Relay.Turn dec s a s')
    (hnone : s.route.names = none) (hnames : s'.route.names ≠ none) :
    ∃ unit, Relay.arrival .client ⟨s, a, s'⟩ = some unit ∧ unit.initialNames dec ≠ none := by
  cases h with
  | @forward side unit rest routed route batch free routes =>
    cases hs.routing batch routes with
    | clip data channel push others names same => exact absurd (names.trans hnone) hnames
    | initial client unnamed kind decoded how =>
      subst client
      exact ⟨unit, by simp [Relay.arrival, batch], by simp [decoded]⟩
    | response => exact absurd hnone hnames
    | other off silent quiet dechunkers names same => exact absurd (names.trans hnone) hnames
  | _ => exact absurd hnone hnames

theorem initial_of_run (run : RelayRun dec hybridEx staging tr s) : s.route.names ≠ none →
    ∃ e ∈ tr, ∃ unit, Relay.arrival .client e = some unit ∧ unit.initialNames dec ≠ none := by
  refine run.history (fun h => absurd rfl h) fun tr s a s' hrun ih hstep hnames => ?_
  by_cases hnone : s.route.names = none
  · exact ⟨_, List.mem_concat_self,
      initial_turn (Relay.wellCut hrun) (Relay.turn hstep).2 hnone hnames⟩
  · obtain ⟨e, he, hunit⟩ := ih hnone
    exact ⟨e, List.mem_append_left _ he, hunit⟩

theorem Replaced.initial {side : Side} (hs : Relay.WellCut e.pre) (hstep : e.pre.step dec e.label = some e.post)
    (h : Replaced dec side e) : side = .client ∧ e.pre.route.names = none ∧ e.post.route.names ≠ none := by
  obtain ⟨unit, copy, route, harr, hroute⟩ := h
  rcases Relay.arrival_turn (Relay.turn hstep).2 harr with ⟨-, error, herror⟩ | ⟨rest, routed, route',
    hbatch, -, hok, hpost⟩
  · rw [hroute] at herror
    cases herror
  · rw [hroute] at hok
    cases hok
    cases hs.routing hbatch hroute with
    | initial client unnamed =>
      refine ⟨client, unnamed, ?_⟩
      rw [hpost]
      exact Option.some_ne_none _

theorem not_replaced {after : RelayTrace} (run : RelayRun dec hybridEx staging (before ++ e :: after) s)
    (hfirst : ∀ e' ∈ before, ∀ unit, Relay.arrival .client e' = some unit → unit.initialNames dec = none)
    (hknown : e.post.route.names ≠ none) : ∀ e' ∈ before ++ after, ∀ side, ¬ Replaced dec side e' := by
  intro e' he' side hreplaced
  rcases List.mem_append.1 he' with he' | he'
  · obtain ⟨tr₁, tr₂, rfl⟩ := List.append_of_mem he'
    obtain ⟨hrun, hstep⟩ := run.before.1.before
    have hcut := Relay.wellCut hrun
    obtain ⟨-, hnone, hnames⟩ := hreplaced.initial hcut hstep
    obtain ⟨unit, harr, hinitial⟩ := initial_turn hcut (Relay.turn hstep).2 hnone hnames
    exact hinitial (hfirst e' he' unit harr)
  · obtain ⟨tr₁, tr₂, rfl⟩ := List.append_of_mem he'
    obtain ⟨hrun, hstep⟩ := run.after.2.before
    -- the names have been known since
    have hnames : e'.pre.route.names ≠ none := by
      refine hrun.history hknown fun tr s a s' hrun ih hstep => ?_
      exact Relay.names_kept_turn (Relay.wellCut (run.after.1.append hrun)) (Relay.turn hstep).2 ih
    exact hnames (hreplaced.initial (Relay.wellCut (run.after.1.append hrun)) hstep).2.1

/-- The first Connect Initial with a channel list that comes in. It names the clipboard's channel, and the bytes of that
name with its terminator stand at one place of the unit. -/
structure FirstInitial (before : RelayTrace) (e : Entry Relay Act) (unit : FrameUnit) (ci : ConnectInitial)
    (channels : List ChannelDef) : Prop where
  arrives : Relay.arrival .client e = some unit
  initial : IsInitial unit ci channels
  first : ∀ e' ∈ before, ∀ unit', Relay.arrival .client e' = some unit' → ¬ ∃ ci channels, IsInitial unit' ci channels
  named : channels.any isCliprdr = true
  once : (places cliprdrField unit.bytes).length = 1

theorem FirstInitial.routed {after : RelayTrace} {ci : ConnectInitial} {channels : List ChannelDef} {copy : Bytes}
    (run : RelayRun (connectDecoders channelIds) hybridEx staging (before ++ e :: after) s)
    (h : FirstInitial before e unit ci channels) (hcopy : noCompression unit.bytes = some copy) :
    e.post.relayed .client = e.pre.relayed .client ++ [copy] ∧ e.post.route.names ≠ none := by
  obtain ⟨hrun, hstep⟩ := run.before
  have hturn := (Relay.turn hstep).2
  have hnames : e.pre.route.names = none := by
    by_contra hnames
    obtain ⟨e', he', unit', harr', hinitial'⟩ := initial_of_run hrun hnames
    exact h.first e' he' unit' harr' (isInitial_of_initialNames hinitial')
  have hcontains : (channels.map fun c => (channelNameStr c.name).getD []).contains cliprdrName = true := by
    obtain ⟨c, hc, hname⟩ := List.any_eq_true.1 h.named
    rw [List.contains_iff_mem]
    exact List.mem_map.2 ⟨c, hc, by rw [beq_iff_eq.1 hname]; rfl⟩
  have hroute : e.pre.route.readUnit (connectDecoders channelIds) .client unit = .ok (.replace copy,
      { e.pre.route with names := some (channels.map fun c => (channelNameStr c.name).getD []) }) := by
    obtain ⟨data, hdata, hci⟩ := Option.bind_eq_some_iff.1 h.initial.decoded
    have hdecoded : (x224Data unit.bytes).bind (connectDecoders channelIds).channelNames =
        some (channels.map ChannelDef.name) := by
      simp [hdata, connectDecoders, hci, h.initial.channels]
    simp only [Route.readUnit, h.initial.kind, Route.readClient, hnames, Option.isNone_none, if_true, hdecoded,
      List.map_map, Function.comp_def, hcontains, hcopy, Option.map_some, Option.getD_some]
  refine ⟨?_, ?_⟩
  · rw [Relay.relayed_turn hturn .client]
    simp only [Relay.passedOn, h.arrives, hroute, Routed.sent]
  · rcases Relay.arrival_turn hturn h.arrives with ⟨-, error, herror⟩ | ⟨rest, routed, route', -, -, hok, hpost⟩
    · rw [hroute] at herror
      cases herror
    · rw [hroute] at hok
      cases hok
      rw [hpost]
      exact Option.some_ne_none _

end Session

/-! ## Connect Initials of a client -/

def gccBlock (type : Nat) (body : Bytes) : Bytes := leBytes 2 type ++ leBytes 2 (body.length + 4) ++ body

/-- The settings blocks: a desktop of 1280 by 800, no security, and the channels. -/
def gccBlocks (channels : List ChannelDef) : Bytes :=
  gccBlock 0xC001 (leBytes 4 0x0008_0004 ++ leBytes 2 1280 ++ leBytes 2 800 ++ leBytes 2 0xCA01 ++ leBytes 2 0xAA03 ++
    leBytes 4 0x409 ++ leBytes 4 1 ++ List.replicate 32 0 ++ leBytes 4 4 ++ leBytes 4 0 ++ leBytes 4 12 ++
    List.replicate 64 0) ++
  gccBlock 0xC002 (List.replicate 8 0) ++
  gccBlock 0xC003 (leBytes 4 channels.length ++ channels.flatMap ChannelDef.encode)

def connectInitial (calling : Bytes) (channels : List ChannelDef) : Bytes :=
  let blocks := gccBlocks channels
  let parameters := [0x30, 24] ++ (List.replicate 8 [2, 1, 1]).flatten
  let request := [0, 5, 0, 20, 124, 0, 1] ++ beBytes 2 (0x8000 + blocks.length + 14) ++
    [0, 8, 0, 0x10, 0, 1, 0xC0, 0, 0x44, 0x75, 0x63, 0x61] ++ beBytes 2 (0x8000 + blocks.length) ++ blocks
  let fields := [4, UInt8.ofNat calling.length] ++ calling ++ [4, 1, 1, 1, 1, 0xFF] ++ parameters ++ parameters ++
    parameters ++ [4, 0x82] ++ beBytes 2 request.length ++ request
  let data := [0x7F, 0x65, 0x82] ++ beBytes 2 fields.length ++ fields
  [3, 0] ++ beBytes 2 (7 + data.length) ++ [2, 0xF0, 0x80] ++ data

def compressed (wire : Bytes) : ChannelDef := ⟨wire, 0x80E0_0000⟩

theorem firstInitial_scripted (unit : Bytes) (channels : List ChannelDef)
    (harrives : (exec (Relay.step (connectDecoders fun _ => none)) (Relay.start false ⟨0, 0⟩) [.read .client unit]).any
      (fun s => (s.step (connectDecoders fun _ => none) (.forward .client)).any fun s' =>
        Relay.arrival .client ⟨s, .forward .client, s'⟩ == some ⟨.tpkt, unit⟩) = true)
    (hdecoded : ((x224Data unit).bind ConnectInitial.decode).any (fun ci => ci.channelNames == some channels) = true)
    (hnamed : channels.any isCliprdr = true) (honce : (places cliprdrField unit).length = 1) :
    ∃ s before e ci, RelayRun (connectDecoders fun _ => none) false ⟨0, 0⟩ (before ++ [e]) s ∧
      FirstInitial before e ⟨.tpkt, unit⟩ ci channels ∧ (x224Data unit).bind ConnectInitial.decode = some ci := by
  obtain ⟨s, s', run, hstep, harrives⟩ := scriptedRelay_run (connectDecoders fun _ => none) [.read .client unit]
    (.forward .client) (fun s s' => Relay.arrival .client ⟨s, .forward .client, s'⟩ == some ⟨.tpkt, unit⟩) harrives
  obtain ⟨ci, hci, hchannels⟩ := (Option.any_eq_true ..).1 hdecoded
  refine ⟨s', _, ⟨s, .forward .client, s'⟩, ci, run.snoc hstep,
    ⟨beq_iff_eq.1 harrives, ⟨rfl, hci, beq_iff_eq.1 hchannels⟩,
    fun e he unit' harr => ?_, hnamed, honce⟩, hci⟩
  have hlabel : e.label ∈ [Act.read .client unit] := label_mem_of_trace he
  rw [Relay.arrival, List.mem_singleton.1 hlabel] at harr
  cases harr

/-! ## Switching compression off -/

/-- Where the name of the clipboard's channel stands on the wire with its terminator, its compression is switched off
and nothing else changes. -/
theorem compression_switched_off {channelIds : Bytes → Option (List UInt16)} {hybridEx : Bool} {staging : Staging}
    {s : Relay} {before after : RelayTrace} {e : Entry Relay Act} {unit : FrameUnit} {ci : ConnectInitial}
    {channels : List ChannelDef}
    (run : RelayRun (connectDecoders channelIds) hybridEx staging (before ++ e :: after) s)
    (hinitial : FirstInitial before e unit ci channels)
    (hwire : ∀ c, channels.find? isCliprdr = some c → c.wire = cliprdrField) :
    ∃ copy c, channels.find? isCliprdr = some c ∧ e.post.relayed .client = e.pre.relayed .client ++ [copy] ∧
      SwitchedOff unit.bytes copy ci channels c ∧
      ∀ e' ∈ before ++ after, ∀ side, ¬ Replaced (connectDecoders channelIds) side e' := by
  obtain ⟨c, hfind⟩ := List.find?_isSome.2 (List.any_eq_true.1 hinitial.named) |> Option.isSome_iff_exists.1
  obtain ⟨copy, hcopy, hoff⟩ := switchedOff_of_once hinitial.initial (List.mem_of_find?_eq_some hfind) (hwire c hfind)
    hinitial.once
  obtain ⟨hrelayed, hnames⟩ := hinitial.routed run hcopy
  refine ⟨copy, c, hfind, hrelayed, hoff, not_replaced run (fun e' he' unit' harr' => ?_) hnames⟩
  by_contra hne
  exact hinitial.first e' he' unit' harr' (isInitial_of_initialNames hne)

/-- A Connect Initial whose one channel is the clipboard's, compressed. -/
theorem compression_switched_off_field : ∃ s before e ci copy,
    RelayRun (connectDecoders fun _ => none) false ⟨0, 0⟩ (before ++ [e]) s ∧
    FirstInitial before e ⟨.tpkt, connectInitial [1] [compressed cliprdrField]⟩ ci [compressed cliprdrField] ∧
    e.post.relayed .client = e.pre.relayed .client ++ [copy] ∧
    SwitchedOff (connectInitial [1] [compressed cliprdrField]) copy ci [compressed cliprdrField]
      (compressed cliprdrField) := by
  obtain ⟨s, before, e, ci, run, hinitial, -⟩ := firstInitial_scripted (connectInitial [1] [compressed cliprdrField])
    [compressed cliprdrField] (by decide +kernel) (by decide +kernel) (by decide +kernel) (by decide +kernel)
  have hfind : [compressed cliprdrField].find? isCliprdr = some (compressed cliprdrField) := by decide
  have hwire : ∀ c, [compressed cliprdrField].find? isCliprdr = some c → c.wire = cliprdrField := by
    intro c hc
    cases hfind.symm.trans hc
    rfl
  obtain ⟨copy, c, hc, hrelayed, hoff, -⟩ := compression_switched_off run hinitial hwire
  cases hfind.symm.trans hc
  exact ⟨s, before, e, ci, copy, run, hinitial, hrelayed, hoff⟩

/-- A name that fills its field, and the name with its terminator in a domain selector. -/
def decoyInitial : Bytes :=
  connectInitial (cliprdrField ++ [0xFF, 0xFF, 0xFF, 0xFF]) [compressed (cliprdrField.take 7 ++ [0x58])]

/-- The selector is rewritten, and the channel stays to be compressed. -/
theorem compression_not_switched_off : ∃ s before e ci channels,
    RelayRun (connectDecoders fun _ => none) false ⟨0, 0⟩ (before ++ [e]) s ∧
    FirstInitial before e ⟨.tpkt, decoyInitial⟩ ci channels ∧
    ∃ copy ci', e.post.relayed .client = e.pre.relayed .client ++ [copy] ∧
      (x224Data copy).bind ConnectInitial.decode = some ci' ∧
      ci'.callingDomainSelector ≠ ci.callingDomainSelector ∧ ci'.channelNames = ci.channelNames ∧
      (∀ c ∈ channels, isCliprdr c = true → c.options &&& compressOptions ≠ 0) ∧
      ∀ c, ¬ SwitchedOff decoyInitial copy ci channels c := by
  obtain ⟨s, before, e, ci, run, hinitial, hci⟩ := firstInitial_scripted decoyInitial
    [compressed (cliprdrField.take 7 ++ [0x58])] (by decide +kernel) (by decide +kernel) (by decide +kernel)
    (by decide +kernel)
  have hcopy : (noCompression decoyInitial).any (fun copy => ((x224Data copy).bind ConnectInitial.decode).any fun ci' =>
      ((x224Data decoyInitial).bind ConnectInitial.decode).any fun ci =>
        ci'.callingDomainSelector != ci.callingDomainSelector && ci'.channelNames == ci.channelNames) = true := by
    decide +kernel
  obtain ⟨copy, hcopy, hdecoded⟩ := (Option.any_eq_true ..).1 hcopy
  obtain ⟨ci', hci', hdecoded⟩ := (Option.any_eq_true ..).1 hdecoded
  rw [hci, Option.any_some, Bool.and_eq_true, bne_iff_ne, beq_iff_eq] at hdecoded
  refine ⟨s, before, e, ci, _, run, hinitial, copy, ci', (hinitial.routed run hcopy).1, hci', hdecoded.1, hdecoded.2,
    by decide, fun c hoff => ?_⟩
  obtain ⟨_, _, ci'', -, hci'', hwith⟩ := hoff.decoded
  cases hci'.symm.trans hci''
  exact hdecoded.1 (congrArg ConnectHeader.callingDomainSelector hwith.header)

end WebAccess.Scan
