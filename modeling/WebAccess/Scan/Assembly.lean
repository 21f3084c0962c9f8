/-
The fetching of an offer. The proxy asks for one range of one file at a time, under a stream id of
its own, and puts what comes back at the end of that file's buffer. A log read off what goes in
and comes out of the proxy keeps the request that is out and the answers to the earlier ones; the
buffers are what the log adds up to, and when the scans start every buffer has its declared size.
-/
import WebAccess.Scan.Moves

namespace WebAccess.Scan

open Codec Wire Transition

/-! ## The log of a direction -/

abbrev Exchange := FileContentsRequest × Bytes

/-- What went in and came out for the offer in progress: the request that is out, and the earlier
ones with their answers. -/
structure FetchLog where
  outstanding : Option FileContentsRequest := none
  accepted : List Exchange := []

/-- A response that answers a request: contents, some of them, and no more than asked for. -/
def Meets (req : FileContentsRequest) (resp : FileContentsResponse) : Bool :=
  !resp.isError && !resp.data.isEmpty && decide (resp.data.length ≤ req.requestedSize)

/-- What a PDU the proxy writes does to the request that is out: a request replaces it, an empty
clipboard for the receiver ends the offer. -/
def Emission.outstanding? (d : Dir) (em : Emission) : Option (Option FileContentsRequest) :=
  match em.body with
  | .own (.fileContentsRequest req) _ => if em.side = d.sender then some (some req) else none
  | .own (.formatList _) _ => if em.side = d.receiver then some none else none
  | _ => none

namespace FetchLog

/-- The input of a round: a Format List starts another offer, a response under the stream id of the
request that is out answers it. -/
def hear (F : FetchLog) : Option Heard → FetchLog
  | some (.list _ _) => {}
  | some (.contentsAnswer resp) =>
    match F.outstanding with
    | some req =>
      if resp.streamId = req.streamId then
        ⟨none, if Meets req resp then F.accepted ++ [(req, resp.data)] else F.accepted⟩
      else F
    | none => F
  | _ => F

def write (d : Dir) (F : FetchLog) (em : Emission) : FetchLog :=
  match em.outstanding? d with
  | some o => { F with outstanding := o }
  | none => F

def book (d : Dir) (F : FetchLog) (hd : Option Heard) (out : List Emission) : FetchLog :=
  out.foldl (write d) (F.hear hd)

end FetchLog

/-- The log of a direction over a history. -/
def fetched (d : Dir) (tr : Trace) : FetchLog :=
  tr.foldl (fun F e => F.book d (e.label.event.about d) e.post.clip.out) {}

@[simp] theorem fetched_snoc (d : Dir) (tr : Trace) (e : Entry Session Label) :
    fetched d (tr ++ [e]) = (fetched d tr).book d (e.label.event.about d) e.post.clip.out := by
  simp [fetched]

/-! ## What a log adds up to -/

/-- The bytes the answers in a log give for one file, in order. -/
def payloads (i : Nat) (log : List Exchange) : Bytes :=
  (log.filter fun x => x.1.index = (i : Int)).flatMap Prod.snd

theorem payloads_snoc (i : Nat) (log : List Exchange) (x : Exchange) :
    payloads i (log ++ [x]) = payloads i log ++ if x.1.index = (i : Int) then x.2 else [] := by
  unfold payloads
  rw [List.filter_append, List.flatMap_append]
  by_cases h : x.1.index = (i : Int) <;> simp [h]

/-- Every exchange of a log asked for one file, from the place the earlier ones end, for what that
file still lacks but no more than one range, and got some of it. -/
inductive InSequence (files : List FileDescriptor) : List Exchange → Prop
  | nil : InSequence files []
  | snoc {log : List Exchange} {req : FileContentsRequest} {bytes : Bytes} {i : Nat} {file : FileDescriptor}
      (before : InSequence files log) (hfile : files[i]? = some file) (index : req.index = (i : Int))
      (flags : req.flags = contentsRange) (position : req.position = (payloads i log).length)
      (size : req.requestedSize = min (file.size - (payloads i log).length) range) (nonempty : bytes ≠ [])
      (fits : bytes.length ≤ req.requestedSize) : InSequence files (log ++ [(req, bytes)])

/-- The buffers of an offer: one for each file, no longer than the file, holding what the log gives
for it. -/
structure Assembled (files : List FileDescriptor) (data : List Bytes) (log : List Exchange) : Prop where
  few : files.length ≤ maxFileCount
  length : data.length = files.length
  fits : ∀ (i : Nat) (file : FileDescriptor) (b : Bytes), files[i]? = some file → data[i]? = some b →
    b.length ≤ file.size
  buffers : ∀ (i : Nat) (b : Bytes), data[i]? = some b → b = payloads i log
  sequence : InSequence files log

theorem Assembled.empty {files : List FileDescriptor} (h : files.length ≤ maxFileCount) :
    Assembled files (files.map fun _ => []) [] := by
  have hnil : ∀ (i : Nat) (b : Bytes), (files.map fun _ => ([] : Bytes))[i]? = some b → b = [] := by
    intro i b hb
    rw [List.getElem?_map, Option.map_eq_some_iff] at hb
    obtain ⟨-, -, rfl⟩ := hb
    rfl
  refine ⟨h, by simp, ?_, hnil, .nil⟩
  intro i file b _ hb
  rw [hnil i b hb]
  exact Nat.zero_le _

/-- The buffer of a file has its declared size. -/
def Full (files : List FileDescriptor) (data : List Bytes) (i : Nat) : Prop :=
  ∀ file b, files[i]? = some file → data[i]? = some b → b.length = file.size

/-- The request that is out asks for the rest of one file, and the files before it are full. -/
structure Fetching (F : FetchLog) (c : Contents) : Prop where
  assembled : Assembled c.files c.data F.accepted
  full : ∀ i < c.index, Full c.files c.data i
  request : ∃ file held, c.files[c.index]? = some file ∧ c.data[c.index]? = some held ∧ held.length < file.size ∧
    F.outstanding = some (Clip.rangeRequest c.stream c.index file.size held.length)

theorem Clip.rangeRequest_index (stream size held : Nat) {index : Nat} (h : index < maxFileCount) :
    (Clip.rangeRequest stream index size held).index = (index : Int) := by
  unfold maxFileCount at h
  have hlt : index < 2 ^ 31 := by omega
  simp only [Clip.rangeRequest, if_pos hlt]

theorem Clip.rangeRequest_size (stream index size held : Nat) :
    (Clip.rangeRequest stream index size held).requestedSize = min (size - held) range := by
  simp only [Clip.rangeRequest]
  split
  · rfl
  · unfold range
    omega

theorem Clip.skipFull_spec : ∀ {files : List FileDescriptor} {data : List Bytes} {i n : Nat},
    Clip.skipFull files data i = some n → i ≤ n ∧ n ≤ i + files.length ∧
      (∀ k f b, k < n - i → files[k]? = some f → data[k]? = some b → f.size ≤ b.length) ∧
      (n < i + files.length → ∃ f b, files[n - i]? = some f ∧ data[n - i]? = some b ∧ b.length < f.size)
  | [], data, i, n, h => by
    cases h
    refine ⟨le_rfl, by simp, ?_, by simp⟩
    intro k f b hk
    omega
  | f :: fs, [], i, n, h => by cases h
  | f :: fs, b :: bs, i, n, h => by
    unfold Clip.skipFull at h
    split at h
    · rename_i hfull
      obtain ⟨h₁, h₂, h₃, h₄⟩ := skipFull_spec h
      rw [List.length_cons]
      refine ⟨by omega, by omega, ?_, ?_⟩
      · intro k f' b' hk hf hb
        cases k with
        | zero =>
          cases hf
          cases hb
          exact hfull
        | succ k => exact h₃ k f' b' (by omega) (by simpa using hf) (by simpa using hb)
      · intro hlt
        obtain ⟨f', b', hf, hb, hlen⟩ := h₄ (by omega)
        have hn : n - i = (n - (i + 1)) + 1 := by omega
        exact ⟨f', b', by rw [hn]; simpa using hf, by rw [hn]; simpa using hb, hlen⟩
    · rename_i hshort
      cases h
      refine ⟨le_rfl, by omega, ?_, ?_⟩
      · intro k f' b' hk
        omega
      · intro _
        exact ⟨f, b, by simp, by simp, Nat.lt_of_not_le hshort⟩

theorem Clip.length_lt_of_skipFull {files : List FileDescriptor} {data : List Bytes} {i n : Nat} {file : FileDescriptor}
    {held : Bytes} (h : Clip.skipFull (files.drop i) (data.drop i) i = some n) (hfile : files[n]? = some file)
    (hheld : data[n]? = some held) : held.length < file.size := by
  obtain ⟨hge, -, -, hstop⟩ := skipFull_spec h
  have hlt : n < files.length := (List.getElem?_eq_some_iff.1 hfile).1
  obtain ⟨file', held', hfile', hheld', hlen⟩ := hstop (by rw [List.length_drop]; omega)
  rw [List.getElem?_drop, Nat.add_sub_cancel' hge] at hfile' hheld'
  cases hfile.symm.trans hfile'
  cases hheld.symm.trans hheld'
  exact hlen

theorem Clip.skipFull_isSome : ∀ {files : List FileDescriptor} {data : List Bytes} {i : Nat},
    data.length = files.length → (Clip.skipFull files data i).isSome = true
  | [], _, _, _ => rfl
  | f :: fs, [], _, h => by cases h
  | f :: fs, b :: bs, i, h => by
    unfold Clip.skipFull
    split
    · exact skipFull_isSome (by simpa using h)
    · rfl

/-! ## Rounds -/

/-- What the log says about the phase of a direction. -/
structure Accounted (F : FetchLog) (p : Phase) : Prop where
  contents : ∀ f c, p.Fetches f c → Fetching F c
  scans : ∀ f c, p.Scans f c → Assembled c.files c.data F.accepted ∧ ∀ i, Full c.files c.data i
  waiting : ∀ f, p.Waiting f → F.accepted = []
  rest : (∀ f c, ¬ p.Fetches f c) → F.outstanding = none

variable {F : FetchLog} {l : Label} {s s' : Session} {d : Dir} {staging : Staging} {tr : Trace} {env : Env}

theorem Accounted.of_not_fetching {p : Phase} (hp : ∀ f, p ≠ .fetching f) (h : F.outstanding = none) : Accounted F p :=
  ⟨fun f _ hf => absurd hf.1 (hp f), fun f _ hf => absurd hf.1 (hp f), fun f hf => absurd hf.1 (hp f), fun _ => h⟩

theorem Accounted.idle (h : F.outstanding = none) : Accounted F .idle := .of_not_fetching nofun h

section Step

variable {env : Env} {d : Dir} {v v' : View} {F : FetchLog}

variable {f : Fetch} {p : Phase}

theorem Accounted.scanning {c : Scanning} (hstep : f.step = .scanning c) (h : F.outstanding = none)
    (ha : Assembled c.files c.data F.accepted) (hfull : ∀ i, Full c.files c.data i) : Accounted F (.fetching f) := by
  refine ⟨?_, ?_, ?_, fun _ => h⟩
  · rintro f' c' ⟨⟨⟩, hs⟩
    cases hstep.symm.trans hs
  · rintro f' c' ⟨⟨⟩, hs⟩
    cases hstep.symm.trans hs
    exact ⟨ha, hfull⟩
  · rintro f' ⟨⟨⟩, hs⟩
    cases hstep.symm.trans hs

variable {c : Contents} {resp : FileContentsResponse} {hd : Heard} {c' : Clip}

theorem Next.accounted (h : Next env d f c v v') (hv : v.out = []) (ha : Assembled c.files c.data F.accepted)
    (hfull : ∀ i < c.index, Full c.files c.data i) (hF : F.outstanding = none) :
    Accounted (v'.out.foldl (FetchLog.write d) F) v'.phase := by
  have hskip : ∀ {n}, Clip.skipFull (c.files.drop c.index) (c.data.drop c.index) c.index = some n →
      ∀ i < n, Full c.files c.data i := by
    intro n hn i hi file b hfile hb
    obtain ⟨-, -, hlong, -⟩ := Clip.skipFull_spec hn
    by_cases hlt : i < c.index
    · exact hfull i hlt file b hfile hb
    · have hsum : c.index + (i - c.index) = i := by omega
      have hge := hlong (i - c.index) file b (by omega) (by rw [List.getElem?_drop, hsum, hfile])
        (by rw [List.getElem?_drop, hsum, hb])
      exact Nat.le_antisymm (ha.fits i file b hfile hb) hge
  cases h with
  | @ask index file held us skip hfile hheld hle =>
    simp only [hv, List.nil_append, List.foldl_cons, List.foldl_nil, FetchLog.write, Emission.outstanding?, if_true]
    have hshort := Clip.length_lt_of_skipFull skip hfile hheld
    refine ⟨?_, ?_, ?_, ?_⟩
    · rintro f' c' ⟨⟨⟩, ⟨⟩⟩
      exact ⟨ha, hskip skip, file, held, hfile, hheld, hshort, rfl⟩
    · rintro f' c' ⟨⟨⟩, ⟨⟩⟩
    · rintro f' ⟨⟨⟩, ⟨⟩⟩
    · intro hno
      exact absurd ⟨rfl, rfl⟩ (hno _ _)
  | @scan index skip hfile =>
    simp only [hv, List.foldl_nil]
    refine .scanning rfl hF ha fun i file b hf hb => ?_
    have hlt : i < c.files.length := (List.getElem?_eq_some_iff.1 hf).1
    exact hskip skip i (Nat.lt_of_lt_of_le hlt (List.getElem?_eq_none_iff.1 hfile)) file b hf hb

theorem Fetching.accept {c' : Contents} {file : FileDescriptor} {held : Bytes} {fresh : Nat} (h : Fetching F c)
    (takes : c.Takes resp file held)
    (hc' : c' = { c with data := c.data.set c.index (held ++ resp.data), stream := fresh }) :
    (F.hear (some (.contentsAnswer resp))).outstanding = none ∧
      Assembled c'.files c'.data (F.hear (some (.contentsAnswer resp))).accepted ∧
      ∀ i < c'.index, Full c'.files c'.data i := by
  obtain ⟨stream, ok, hfile, hheld, nonempty, room, short⟩ := takes
  obtain ⟨file', held', hfile', hheld', hshort, hout⟩ := h.request
  cases hfile.symm.trans hfile'
  cases hheld.symm.trans hheld'
  have hlt : c.index < c.files.length := (List.getElem?_eq_some_iff.1 hfile).1
  have hindex := Clip.rangeRequest_index c.stream file.size held.length (Nat.lt_of_lt_of_le hlt h.assembled.few)
  have hsize := Clip.rangeRequest_size c.stream c.index file.size held.length
  have hbuffer : held = payloads c.index F.accepted := h.assembled.buffers _ _ hheld
  have hfits : resp.data.length ≤ (Clip.rangeRequest c.stream c.index file.size held.length).requestedSize := by
    rw [hsize]
    omega
  have hhear : F.hear (some (.contentsAnswer resp)) =
      ⟨none, F.accepted ++ [(Clip.rangeRequest c.stream c.index file.size held.length, resp.data)]⟩ := by
    have hstream : resp.streamId = (Clip.rangeRequest c.stream c.index file.size held.length).streamId := stream
    have hmeets : Meets (Clip.rangeRequest c.stream c.index file.size held.length) resp = true := by
      simp [Meets, ok, nonempty, hfits]
    simp only [FetchLog.hear, hout, if_pos hstream, if_pos hmeets]
  rw [hhear, hc']
  refine ⟨rfl, ⟨h.assembled.few, by simpa using h.assembled.length, ?_, ?_, ?_⟩, ?_⟩
  · intro i f b hf hb
    rw [List.getElem?_set] at hb
    split at hb
    · rename_i hi
      subst hi
      split at hb
      · cases hb
        cases hfile.symm.trans hf
        rw [List.length_append]
        exact room
      · cases hb
    · exact h.assembled.fits i f b hf hb
  · intro i b hb
    rw [payloads_snoc, hindex]
    rw [List.getElem?_set] at hb
    split at hb
    · rename_i hi
      subst hi
      split at hb
      · cases hb
        rw [if_pos rfl, ← hbuffer]
      · cases hb
    · rename_i hi
      rw [if_neg (by simpa using hi), List.append_nil]
      exact h.assembled.buffers i b hb
  · exact .snoc h.assembled.sequence hfile hindex rfl (by rw [← hbuffer]; rfl) (by rw [← hbuffer]; exact hsize)
      nonempty hfits
  · intro i hi f b hf hb
    rw [List.getElem?_set_ne (Nat.ne_of_gt hi)] at hb
    exact h.full i hi f b hf hb

theorem Accounted.hear_other (hF : Accounted F p) (other : ∀ f c, p.Fetches f c → resp.streamId ≠ c.stream) :
    F.hear (some (.contentsAnswer resp)) = F := by
  by_cases hfetch : ∃ f c, p.Fetches f c
  · obtain ⟨f, c, hc⟩ := hfetch
    obtain ⟨file, held, -, -, -, hout⟩ := (hF.contents f c hc).request
    have hne : ¬ resp.streamId = (Clip.rangeRequest c.stream c.index file.size held.length).streamId := other f c hc
    simp only [FetchLog.hear, hout, if_neg hne]
  · have hnone := hF.rest fun f c hc => hfetch ⟨f, c, hc⟩
    simp only [FetchLog.hear, hnone]

theorem Phase.Waiting.not_fetches (h : p.Waiting f) (f' : Fetch) (c : Contents) : ¬ p.Fetches f' c := by
  rintro ⟨hp, hs⟩
  cases h.1.symm.trans hp
  cases h.2.symm.trans hs

theorem Phase.Scans.not_fetches {sc : Scanning} (h : p.Scans f sc) (f' : Fetch) (c : Contents) : ¬ p.Fetches f' c := by
  rintro ⟨hp, hs⟩
  cases h.1.symm.trans hp
  cases h.2.symm.trans hs

theorem Move.accounted (h : Move env d v hd v') (hv : v.out = []) (hF : Accounted F v.phase) :
    Accounted (F.book d (some hd) v'.out) v'.phase := by
  unfold FetchLog.book
  cases h with
  | plainList | unhealthyList | refuseFiles | refuseContents | refuseVerdict =>
    simp only [View.refused, hv, List.nil_append, List.cons_append, List.foldl_cons, List.foldl_nil,
      FetchLog.write, Emission.outstanding?, if_true]
    exact .idle rfl
  | offer =>
    simp only [hv, List.nil_append, List.cons_append, List.foldl_cons, List.foldl_nil, FetchLog.write,
      Emission.outstanding?]
    refine ⟨?_, ?_, fun _ _ => rfl, fun _ => rfl⟩
    · rintro f c ⟨⟨⟩, ⟨⟩⟩
    · rintro f c ⟨⟨⟩, ⟨⟩⟩
  | swallowList | dropData | ignoreVerdict | passList | answerData | forwardData | passData | answerContents =>
    simp only [hv, List.nil_append, List.foldl_cons, List.foldl_nil, FetchLog.write, Emission.outstanding?]
    exact hF
  | acceptFiles owed waiting accepted next =>
    have hread := (Clip.listing_accepted accepted).read
    refine next.accounted hv ?_ (fun i hi => absurd hi (Nat.not_lt_zero i)) (hF.rest waiting.not_fetches)
    show Assembled _ _ F.accepted
    rw [hF.waiting _ waiting]
    exact .empty (length_packedFileList hread)
  | ignoreContents other =>
    simp only [hv, List.foldl_nil, hF.hear_other other]
    exact hF
  | acceptContents fetches takes hs' next =>
    obtain ⟨h₁, h₂, h₃⟩ := (hF.contents _ _ fetches).accept takes hs'
    exact next.accounted hv h₂ h₃ h₁
  | storeVerdict scans more =>
    simp only [hv, List.foldl_nil]
    obtain ⟨ha, hfull⟩ := hF.scans _ _ scans
    exact .scanning rfl (hF.rest scans.not_fetches) ha hfull
  | passVerdict scans =>
    simp only [hv, List.nil_append, List.foldl_cons, List.foldl_nil, FetchLog.write, Emission.outstanding?]
    exact .of_not_fetching (by rintro _ ⟨⟩) (hF.rest scans.not_fetches)

theorem Move.outstanding_other {ev : Event} (h : Move env d v hd v') (hv : v.out = []) (hsaid : ev.Said d hd)
    (hlist : v.phase.KeepsList) :
    ∀ em ∈ v'.out, em.outstanding? d.other = none := by
  intro em hem
  obtain ⟨p, hp, hrole⟩ := (h.writes hv hsaid em hem).roles hlist
  unfold Emission.outstanding?
  split
  · rename_i req us hb
    rw [hb] at hp
    cases hp
    obtain ⟨hside, -⟩ | ⟨-, hrole⟩ := hrole
    · simp [hside]
    · cases hrole
  · rename_i l us hb
    rw [hb] at hp
    cases hp
    obtain ⟨-, hrole⟩ | ⟨hside, -⟩ := hrole
    · cases hrole
    · simp [hside]
  · rfl

theorem FetchLog.foldl_write_eq {out : List Emission} (h : ∀ em ∈ out, em.outstanding? d = none) :
    out.foldl (FetchLog.write d) F = F := by
  induction out with
  | nil => rfl
  | cons em out ih =>
    have hem : FetchLog.write d F em = F := by
      simp only [FetchLog.write, h em (by simp)]
    rw [List.foldl_cons, hem]
    exact ih fun em' hem' => h em' (List.mem_cons_of_mem _ hem')

theorem Clip.Late.accounted {c : Clip} (h : Clip.Late env d c c')
    (hF : Accounted (c.out.foldl (FetchLog.write d) F) (c.direction d).phase) :
    Accounted (c'.out.foldl (FetchLog.write d) F) (c'.direction d).phase := by
  cases h with
  | inTime => exact hF
  | refused phase late view frame =>
    have hout := congrArg View.out view
    have hphase := congrArg View.phase view
    rw [show c'.out = _ from hout, show (c'.direction d).phase = _ from hphase]
    simp only [View.refused, List.foldl_append, List.foldl_cons, List.foldl_nil, FetchLog.write,
      Emission.outstanding?, if_true]
    exact .idle rfl

theorem Clip.Late.log_other {c : Clip} (h : Clip.Late env d c c') :
    c'.out.foldl (FetchLog.write d.other) F = c.out.foldl (FetchLog.write d.other) F := by
  cases h with
  | inTime => rfl
  | refused phase late view frame =>
    have hout : c'.out = c.out ++ _ := congrArg View.out view
    rw [hout]
    simp [FetchLog.write, Emission.outstanding?]

end Step

theorem Round.accounted (h : Round l s s') (hlist : ListKept s) (hF : Accounted F (s.clip.direction d).phase) :
    Accounted (F.book d (l.event.about d) s'.clip.out) (s'.clip.direction d).phase := by
  have htaken := s.clip.phase_taken
  cases h with
  | @heard d' hd heard move frame =>
    by_cases hd' : d' = d
    · subst hd'
      rw [Event.about_eq heard]
      exact move.accounted rfl (by rw [htaken]; exact hF)
    · obtain rfl := Dir.eq_other_of_ne (Ne.symm hd')
      have habout : l.event.about d'.other = none := Event.about_eq_none (Event.heard_ne heard hd')
      have hout := move.outstanding_other rfl (Event.said heard) (by rw [htaken]; exact hlist d')
      have hlog : F.book d'.other none s'.clip.out = F := FetchLog.foldl_write_eq hout
      rw [habout, frame.other, hlog]
      exact hF
  | aside event heard aside =>
    have habout : l.event.about d = none := Event.about_eq_none (by simp [heard])
    have hout : ∀ em ∈ s'.clip.out, em.outstanding? d = none := by
      intro em hem
      obtain ⟨-, ⟨caps, us, hb, -⟩ | ⟨hb, -⟩⟩ := aside.out rfl em hem <;> simp [Emission.outstanding?, hb]
    have hlog : F.book d none s'.clip.out = F := FetchLog.foldl_write_eq hout
    have hsame : (s'.clip.direction d).phase = (s.clip.direction d).phase := by
      rw [aside.direction]
      exact htaken d
    rw [habout, hsame, hlog]
    exact hF
  | @deadline m event up down =>
    have habout : l.event.about d = none := by rw [event]; rfl
    rw [habout]
    show Accounted (s'.clip.out.foldl (FetchLog.write d) F) _
    cases d with
    | upload =>
      have hup := up.accounted (F := F) hF
      have hphase : s'.clip.direction .upload = m.direction .upload := down.other
      have hlog : s'.clip.out.foldl (FetchLog.write .upload) F = m.out.foldl (FetchLog.write .upload) F :=
        down.log_other
      rw [hphase, hlog]
      exact hup
    | download =>
      have hphase : m.direction .download = s.clip.direction .download := up.other
      have hlog : m.out.foldl (FetchLog.write .download) F = F := up.log_other
      exact down.accounted (by rw [hphase, hlog]; exact hF)
  | staged event clip =>
    have habout : l.event.about d = none := by rw [event]; rfl
    have hsame : (s'.clip.direction d).phase = (s.clip.direction d).phase := by
      rw [clip]
      cases d <;> rfl
    have hout : s'.clip.out = [] := by rw [clip]; rfl
    rw [habout, hsame, hout]
    exact hF

theorem accounted (hrun : SessionRun staging tr s) (d : Dir) : Accounted (fetched d tr) (s.clip.direction d).phase := by
  refine hrun.history ?_ ?_
  · have hidle : ((Session.start staging).clip.direction d).phase = .idle := by cases d <;> rfl
    rw [hidle]
    exact .idle rfl
  · intro tr s l s' hrun ih hstep
    rw [fetched_snoc]
    exact (Session.round hstep).accounted (listKept hrun) ih

/-! ## Stream ids -/

/-- The stream id of a request for contents the proxy makes. -/
def Emission.stream? (em : Emission) : Option Nat :=
  match em.body with
  | .own (.fileContentsRequest req) _ => some req.streamId
  | _ => none

/-- The stream ids of all requests for contents the proxy made, of both directions. -/
def streams (tr : Trace) : List Nat := tr.flatMap fun e => e.post.clip.out.filterMap Emission.stream?

@[simp] theorem streams_snoc (tr : Trace) (e : Entry Session Label) :
    streams (tr ++ [e]) = streams tr ++ e.post.clip.out.filterMap Emission.stream? := by
  simp [streams]

/-- A round gives at most one stream id out, and then counts on. -/
inductive Counts (n n' : Nat) (ids : List Nat) : Prop
  | none (ids : ids = []) (next : n' = n ∨ n' = nextId n)
  | one (ids : ids = [n]) (next : n' = nextId n)

variable {v v' : View} {n : Nat}

theorem Next.counts {f : Fetch} {c : Contents} (h : Next env d f c v v') (hv : v.out = []) (hstream : c.stream = n)
    (hnext : v.nextStream = nextId n) : Counts n v'.nextStream (v'.out.filterMap Emission.stream?) := by
  cases h with
  | ask => exact .one (by simp [hv, Emission.stream?, Clip.rangeRequest, hstream]) hnext
  | scan => exact .none (by simp [hv]) (.inr hnext)

theorem Move.counts {hd : Heard} (h : Move env d v hd v') (hv : v.out = []) :
    Counts v.nextStream v'.nextStream (v'.out.filterMap Emission.stream?) := by
  cases h with
  | acceptFiles owed waiting accepted next => exact next.counts hv rfl rfl
  | acceptContents fetches takes hs' next => exact next.counts hv (by rw [hs']) rfl
  | ignoreContents => exact .none (by simp [hv]) (.inr rfl)
  | refuseContents => exact .none (by simp [View.refused, hv, Emission.stream?]) (.inr rfl)
  | _ => exact .none (by simp [View.refused, hv, Emission.stream?]) (.inl rfl)

theorem Clip.Late.counts {c c' : Clip} (h : Clip.Late env d c c') :
    c'.nextStream = c.nextStream ∧ c'.out.filterMap Emission.stream? = c.out.filterMap Emission.stream? := by
  cases h with
  | inTime => exact ⟨rfl, rfl⟩
  | refused phase late view frame =>
    have hout : c'.out = c.out ++ _ := congrArg View.out view
    refine ⟨congrArg View.nextStream view, ?_⟩
    rw [hout]
    simp [Emission.stream?]

theorem Round.counts (h : Round l s s') :
    Counts s.clip.nextStream s'.clip.nextStream (s'.clip.out.filterMap Emission.stream?) := by
  cases h with
  | heard heard move frame => exact move.counts rfl
  | aside event heard aside =>
    refine .none (List.filterMap_eq_nil_iff.2 fun em hem => ?_) (.inl aside.nextStream)
    obtain ⟨-, ⟨caps, us, hb, -⟩ | ⟨hb, -⟩⟩ := aside.out rfl em hem <;> simp [Emission.stream?, hb]
  | deadline event up down =>
    obtain ⟨h₁, h₂⟩ := up.counts
    obtain ⟨h₃, h₄⟩ := down.counts
    exact .none (h₄.trans h₂) (.inl (h₃.trans h₁))
  | staged event clip =>
    rw [clip]
    exact .none rfl (.inl rfl)

/-- The stream counter did not wrap in a round. -/
def Counted (e : Entry Session Label) : Prop := e.pre.clip.nextStream ≤ e.post.clip.nextStream

/-- The stream ids given out so far are below the counter and all different. -/
structure Distinct (tr : Trace) (s : Session) : Prop where
  first : firstStream ≤ s.clip.nextStream
  wide : s.clip.nextStream < 2 ^ 32
  below : ∀ id ∈ streams tr, id < s.clip.nextStream
  nodup : (streams tr).Nodup

theorem firstStream_le_nextId (n : Nat) : firstStream ≤ nextId n := Nat.le_max_right ..

theorem nextId_lt (n : Nat) : nextId n < 2 ^ 32 := by
  unfold nextId firstStream
  omega

theorem lt_nextId (hfirst : firstStream ≤ n) (hwide : n < 2 ^ 32) (hle : n ≤ nextId n) : n < nextId n := by
  unfold nextId firstStream at hle ⊢
  unfold firstStream at hfirst
  have hlt : n + 1 < 2 ^ 32 ∨ n + 1 = 2 ^ 32 := by omega
  omega

theorem Distinct.step (h : Distinct tr s) (hround : Round l s s') (hle : Counted ⟨s, l, s'⟩) :
    Distinct (tr ++ [⟨s, l, s'⟩]) s' := by
  have hle : s.clip.nextStream ≤ s'.clip.nextStream := hle
  obtain ⟨ids, next⟩ | ⟨ids, next⟩ := hround.counts
  · have hsame : streams (tr ++ [⟨s, l, s'⟩]) = streams tr := by rw [streams_snoc, ids, List.append_nil]
    have hcounter : firstStream ≤ s'.clip.nextStream ∧ s'.clip.nextStream < 2 ^ 32 := by
      rcases next with hn | hn <;> rw [hn]
      · exact ⟨h.first, h.wide⟩
      · exact ⟨firstStream_le_nextId _, nextId_lt _⟩
    exact ⟨hcounter.1, hcounter.2, fun id hid => (h.below id (hsame ▸ hid)).trans_le hle, hsame ▸ h.nodup⟩
  · have hlt := lt_nextId h.first h.wide (next ▸ hle)
    refine ⟨next ▸ firstStream_le_nextId _, next ▸ nextId_lt _, fun id hid => ?_, ?_⟩
    · rw [streams_snoc, ids, List.mem_append, List.mem_singleton] at hid
      rcases hid with hid | rfl
      · exact (h.below id hid).trans_le hle
      · exact next ▸ hlt
    · rw [streams_snoc, ids, List.nodup_append]
      refine ⟨h.nodup, by simp, ?_⟩
      rintro id hid _ hid' rfl
      exact absurd (h.below id hid) (List.mem_singleton.1 hid' ▸ Nat.lt_irrefl _)

theorem distinct (hrun : SessionRun staging tr s) (hcount : ∀ e ∈ tr, Counted e) : Distinct tr s := by
  refine hrun.history ?_ ?_ hcount
  · intro _
    exact ⟨le_rfl, show firstStream < 2 ^ 32 by decide, by simp [streams], by simp [streams]⟩
  · intro tr s l s' _ ih hstep hcount
    exact (ih fun e he => hcount e (List.mem_append_left _ he)).step (Session.round hstep)
      (hcount ⟨s, l, s'⟩ (by simp))

/-! ## Responses nobody asked for -/

/-- A response under another stream id than that of the request that is out changes nothing but the
stream counter. -/
theorem Round.ignored {resp : FileContentsResponse} (h : Round l s s') (hF : Accounted F (s.clip.direction d).phase)
    (habout : l.event.about d = some (.contentsAnswer resp))
    (hother : ∀ req, F.outstanding = some req → resp.streamId ≠ req.streamId) :
    (∀ d', s'.clip.direction d' = s.clip.direction d') ∧ s'.clip.out = [] ∧ s'.clip.reports = [] ∧
      s'.clip.jobs = [] := by
  have hheard := Event.heard_of_about habout
  have htaken := s.clip.direction_taken
  have hclash : ∀ f c, (s.clip.taken.view d).phase.Fetches f c → resp.streamId ≠ c.stream := by
    intro f c hc
    rw [show (s.clip.taken.view d).phase = (s.clip.direction d).phase by cases d <;> rfl] at hc
    obtain ⟨file, held, -, -, -, hout⟩ := (hF.contents f c hc).request
    exact hother _ hout
  cases h with
  | @heard d' hd heard move frame =>
    cases heard.symm.trans hheard
    generalize hv' : s'.clip.view d = v' at move
    cases move with
    | ignoreContents other =>
      refine ⟨fun d' => ?_, congrArg View.out hv', congrArg View.reports hv', congrArg View.jobs hv'⟩
      by_cases hd' : d' = d
      · subst hd'
        rw [s'.clip.direction_eq, hv']
        exact htaken d'
      · rw [Dir.eq_other_of_ne hd']
        exact frame.other
    | refuseContents fetches stream => exact absurd stream (hclash _ _ fetches)
    | acceptContents fetches takes => exact absurd takes.stream (hclash _ _ fetches)
  | aside event heard aside => rw [heard] at hheard; cases hheard
  | deadline event | staged event => rw [event] at hheard; cases hheard

/-! ## Nothing is read outside a buffer -/

/-- A read outside a vector, or a subtraction below zero. -/
def Fail.memory : Fail → Bool
  | .outOfBounds | .underflow => true
  | .route _ | .capacity => false

namespace Clip

variable {env : Env} {d : Dir} {c : Clip} {e : Fail}

theorem send_route {side : Side} {pdu : ClipboardPdu} (h : c.send env side pdu = .error e) : ∃ r, e = .route r := by
  unfold send at h
  simp only at h
  split at h
  · cases h
  · cases h
    exact ⟨_, rfl⟩

theorem send_error {side : Side} {pdu : ClipboardPdu} (h : c.send env side pdu = .error e) : e.memory = false := by
  obtain ⟨r, rfl⟩ := send_route h
  rfl

variable {whole : Whole}

theorem formatList_error {list : FormatList} (h : c.formatList env d list whole = .error e) : e.memory = false := by
  unfold formatList at h
  simp only at h
  split at h
  · cases h
  · cases h₁ : (c.dropPhase d).sendSender env d (.formatListResponse .ok) with
    | error e' =>
      rw [h₁] at h
      cases h
      exact send_error h₁
    | ok c₁ =>
      rw [h₁] at h
      simp only [bind, Except.bind] at h
      split at h <;> exact send_error h

theorem dataRequest_error {req : FormatDataRequest} {from' : Side}
    (h : c.dataRequest env d req from' whole = .error e) : e.memory = false := by
  unfold dataRequest at h
  split at h
  · exact send_error h
  · cases h

theorem fetchNext_error {f : Fetch} {s : Contents} (hf : (c.direction d).phase.Fetches f s)
    (hlen : s.data.length = s.files.length) (h : c.fetchNext env d = .error e) : e.memory = false := by
  unfold fetchNext at h
  rw [hf.1] at h
  simp only [hf.2] at h
  split at h
  · rename_i hskip
    have hsome := skipFull_isSome (i := s.index) (show (s.data.drop s.index).length = (s.files.drop s.index).length by
      rw [List.length_drop, List.length_drop, hlen])
    rw [hskip] at hsome
    cases hsome
  rename_i index hskip
  split at h
  · rename_i file held hfile hheld
    split at h
    · rename_i hlt
      have hshort := length_lt_of_skipFull hskip hfile hheld
      omega
    · exact send_error h
  · rename_i hfile hheld
    have hindex : index < s.files.length := (List.getElem?_eq_some_iff.1 hfile).1
    rw [← hlen] at hindex
    rw [List.getElem?_eq_getElem hindex] at hheld
    cases hheld
  · cases h

theorem descriptor_error {resp : FormatDataResponse} (h : c.descriptor env d resp = .error e) : e.memory = false := by
  unfold descriptor at h
  split at h
  · split at h
    · split at h
      · exact send_error h
      · split at h
        · cases h
          rfl
        · exact fetchNext_error (by rw [direction_putPhase]; exact ⟨rfl, rfl⟩) (by simp) h
    · cases h
  · cases h

theorem contents_error {resp : FileContentsResponse}
    (hF : ∀ f s, (c.direction d).phase.Fetches f s → s.data.length = s.files.length ∧
      ∃ file held, s.files[s.index]? = some file ∧ s.data[s.index]? = some held ∧ held.length < file.size)
    (h : c.contents env d resp = .error e) : e.memory = false := by
  have hphase : (c.advanceStream.direction d).phase = (c.direction d).phase := by cases d <;> rfl
  unfold contents at h
  simp only [hphase] at h
  split at h
  · rename_i f hf
    split at h
    · rename_i s hstep
      obtain ⟨hlen, file, held, hfile, hheld, hshort⟩ := hF f s ⟨hf, hstep⟩
      split at h
      · cases h
      split at h
      · exact send_error h
      simp only [hfile, hheld] at h
      split at h
      · omega
      split at h
      · exact send_error h
      · exact fetchNext_error (by rw [direction_putPhase]; exact ⟨rfl, rfl⟩) (by simpa using hlen) h
    · cases h
  · cases h

theorem scanned_error {generation index : Nat} {vd : Verdict} (h : c.scanned env d generation index vd = .error e) :
    e.memory = false := by
  unfold scanned at h
  split at h
  · split at h
    · cases h
    split at h
    · simp only at h
      split at h
      · cases h
      split at h
      · cases h
      · exact send_error h
    · cases h
  · cases h

theorem expireDir_error (h : c.expireDir env d = .error e) : e.memory = false := by
  unfold expireDir at h
  split at h
  · split at h
    · exact send_error h
    · cases h
  · cases h

end Clip

/-- In every state a run reaches, handling what comes next reads no vector outside its bounds and
subtracts nothing below zero. -/
theorem handle_safe (hrun : SessionRun staging tr s) (l : Label) {e : Fail} (h : s.handle l = .error e) :
    e.memory = false := by
  have htaken := s.clip.direction_taken
  unfold Session.handle at h
  simp only at h
  split at h
  · rename_i from' whole hev
    unfold Clip.take at h
    split at h
    · cases h
      rfl
    · exact Clip.send_error h
    · exact Clip.formatList_error h
    · simp only at h
      split at h <;> cases h
    · exact Clip.dataRequest_error h
    · simp only at h
      split at h
      · exact Clip.descriptor_error h
      · cases h
    · exact Clip.send_error h
    · refine Clip.contents_error (fun f c hc => ?_) h
      rw [htaken] at hc
      have hfetch := (accounted hrun _).contents f c hc
      obtain ⟨file, held, hfile, hheld, hshort, -⟩ := hfetch.request
      exact ⟨hfetch.assembled.length, file, held, hfile, hheld, hshort⟩
    all_goals cases h
  · exact Clip.scanned_error h
  · unfold Clip.expire at h
    cases h₁ : s.clip.taken.expireDir l.env .upload with
    | error e' =>
      rw [h₁] at h
      cases h
      exact Clip.expireDir_error h₁
    | ok m =>
      rw [h₁] at h
      exact Clip.expireDir_error h
  · cases h

/-! ## Fetch assembly -/

/-- The fetching of offers, in a state a run reaches: at the scanning step every buffer has its
declared size and is what the answers to the proxy's requests for that file add up to, each request
in its place; requests are told apart by their stream ids; a response to none of them does nothing;
and nothing is read outside a buffer. -/
structure FetchAssembly (d : Dir) (tr : Trace) (s : Session) : Prop where
  buffers : ∀ f c, (s.clip.direction d).phase.Scans f c → c.data.length = c.files.length ∧
    InSequence c.files (fetched d tr).accepted ∧
    ∀ (i : Nat) (file : FileDescriptor) (b : Bytes), c.files[i]? = some file → c.data[i]? = some b →
      b.length = file.size ∧ b = payloads i (fetched d tr).accepted
  distinct : (streams tr).Nodup
  ignored : ∀ l s' resp, s.step l = some s' → l.event.about d = some (.contentsAnswer resp) →
    (∀ req, (fetched d tr).outstanding = some req → resp.streamId ≠ req.streamId) →
    (∀ d', s'.clip.direction d' = s.clip.direction d') ∧ s'.clip.out = [] ∧ s'.clip.reports = [] ∧ s'.clip.jobs = []
  safe : ∀ l e, s.handle l = .error e → e ≠ .outOfBounds ∧ e ≠ .underflow

/-- Fetch assembly, in every run in which the stream counter does not wrap. -/
theorem fetch_assembly {staging : Staging} {d : Dir} {tr : Trace} {s : Session} (hrun : SessionRun staging tr s)
    (hcount : ∀ e ∈ tr, Counted e) : FetchAssembly d tr s := by
  have hF := accounted hrun d
  refine ⟨?_, (Scan.distinct hrun hcount).nodup, ?_, ?_⟩
  · intro f c hc
    obtain ⟨ha, hfull⟩ := hF.scans f c hc
    exact ⟨ha.length, ha.sequence, fun i file b hfile hb => ⟨hfull i file b hfile hb, ha.buffers i b hb⟩⟩
  · intro l s' resp hstep habout hother
    exact (Session.round hstep).ignored hF habout hother
  · intro l e he
    have hmem := handle_safe hrun l he
    constructor <;> (rintro rfl; cases hmem)

/-- The client offers three files, the first two of them empty, and sends the third in two parts,
with a response nobody asked for between them. -/
def threeFiles : List Event :=
  [offerFile,
    .pdu .client (sent (.formatDataResponse (.newData ((encodeFileList [⟨none, none, some 0, ['a'], none⟩,
      ⟨none, none, some 0, ['b'], none⟩, ⟨none, none, some 3, ['c'], none⟩]).getD [])))),
    .pdu .client (sent (.fileContentsResponse (.newDataResponse firstStream [1, 2]))),
    .pdu .client (sent (.fileContentsResponse (.newDataResponse firstStream [9, 9]))),
    .pdu .client (sent (.fileContentsResponse (.newDataResponse (firstStream + 1) [3])))]

def Phase.holds (data : List Bytes) : Phase → Bool
  | .fetching f => match f.step with
    | .scanning c => decide (c.data = data)
    | _ => false
  | _ => false

/-- The scans start with the third file put together. -/
theorem fetch_assembly_threeFiles : ∃ s f c, SessionRun ⟨0, 100⟩ (scripted ⟨0, 100⟩ threeFiles) s ∧
    (s.clip.direction .upload).phase.Scans f c ∧ c.data = [[], [], [1, 2, 3]] ∧
    FetchAssembly .upload (scripted ⟨0, 100⟩ threeFiles) s := by
  obtain ⟨s, hrun, hscans⟩ := scripted_state ⟨0, 100⟩ threeFiles
    (fun s => (s.clip.direction .upload).phase.holds [[], [], [1, 2, 3]]) (by decide +kernel)
  have hcount : ∀ e ∈ scripted ⟨0, 100⟩ threeFiles, Counted e := by
    have hall : ((scripted ⟨0, 100⟩ threeFiles).all fun e =>
        decide (e.pre.clip.nextStream ≤ e.post.clip.nextStream)) = true := by decide +kernel
    intro e he
    have hle := List.all_eq_true.1 hall e he
    exact (decide_eq_true_iff (p := e.pre.clip.nextStream ≤ e.post.clip.nextStream)).1 hle
  unfold Phase.holds at hscans
  split at hscans
  · rename_i f hf
    split at hscans
    · rename_i c hc
      exact ⟨s, f, c, hrun, ⟨hf, hc⟩, of_decide_eq_true hscans, fetch_assembly hrun hcount⟩
    · cases hscans
  · cases hscans

end WebAccess.Scan
