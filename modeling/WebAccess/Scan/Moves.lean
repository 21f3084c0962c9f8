/-
What one input can do to one direction of the clipboard proxy. A direction is looked at through a
view: its phase and its two queues, the counters and the pool both directions share, and what was
written, reported and started. `Move` lists every way the view can change, one constructor for
each path through the source, and the theorems below say that a round of the proxy is one of them
for the direction the input is about and leaves the other direction alone. Every invariant of the
proxy is proved over these moves, never over the functions.
-/
import WebAccess.Scan.Clip
import WebAccess.Lib.Transition

namespace WebAccess.Scan

open Codec Wire

/-! ## Ends and directions -/

/-- The direction the other way. -/
def Dir.other : Dir → Dir
  | .upload => .download
  | .download => .upload

@[simp] theorem Side.other_other (x : Side) : x.other.other = x := by cases x <;> rfl
@[simp] theorem Side.sender_sending (x : Side) : x.sending.sender = x := by cases x <;> rfl
@[simp] theorem Side.sender_receiving (x : Side) : x.receiving.sender = x.other := by cases x <;> rfl
@[simp] theorem Side.receiver_receiving (x : Side) : x.receiving.receiver = x := by cases x <;> rfl
@[simp] theorem Dir.sender_ne_receiver (d : Dir) : d.sender ≠ d.receiver := by cases d <;> decide
@[simp] theorem Dir.receiver_ne_sender (d : Dir) : d.receiver ≠ d.sender := by cases d <;> decide
@[simp] theorem Dir.sender_other (d : Dir) : d.other.sender = d.receiver := by cases d <;> rfl
@[simp] theorem Dir.receiver_other (d : Dir) : d.other.receiver = d.sender := by cases d <;> rfl
@[simp] theorem Dir.other_ne (d : Dir) : d.other ≠ d := by cases d <;> decide

variable {d : Dir} {ev : Event} {hd : Heard} {s s' : Session} {l : Label} {env : Env} {v v' : View}

theorem Dir.eq_other_of_ne {d' : Dir} (h : d' ≠ d) : d' = d.other := by
  cases d <;> cases d' <;> first | rfl | exact absurd rfl h

/-- The units the router frames a PDU of the proxy's own in, for the end it is written to. -/
def Env.frames (env : Env) (pdu : ClipboardPdu) : Side → Except RouteError (List Bytes)
  | .client => env.route.toClient pdu
  | .server => env.route.toServer pdu

/-! ## Views -/

structure View where
  phase : Phase
  dataOwed : List Owner
  listsOwed : List Owner
  longNames : Bool
  generation : Nat
  nextStream : Nat
  staging : Staging
  out : List Emission
  reports : List Report
  jobs : List Job

namespace Clip

def view (c : Clip) (d : Dir) : View :=
  ⟨(c.direction d).phase, (c.direction d).dataOwed, (c.direction d).listsOwed, c.longNames, c.generation,
    c.nextStream, c.staging, c.out, c.reports, c.jobs⟩

/-- What handling something about one direction leaves as it was. -/
structure Frame (d : Dir) (c c' : Clip) : Prop where
  other : c'.direction d.other = c.direction d.other
  server : c'.longNamesServer = c.longNamesServer
  client : c'.longNamesClient = c.longNamesClient

theorem Frame.refl (d : Dir) (c : Clip) : Frame d c c := ⟨rfl, rfl, rfl⟩

theorem Frame.trans {a b c : Clip} (h : Frame d a b) (h' : Frame d b c) : Frame d a c :=
  ⟨h'.other.trans h.other, h'.server.trans h.server, h'.client.trans h.client⟩

variable (c : Clip) (d : Dir)

@[simp] theorem direction_putPhase (p : Phase) :
    (c.putPhase d p).direction d = { c.direction d with phase := p } := by cases d <;> rfl

@[simp] theorem view_putPhase (p : Phase) : (c.putPhase d p).view d = { c.view d with phase := p } := by
  cases d <;> rfl

@[simp] theorem view_popData : (c.popData d).view d = { c.view d with dataOwed := (c.direction d).dataOwed.tail } := by
  cases d <;> rfl

@[simp] theorem view_popList :
    (c.popList d).view d = { c.view d with listsOwed := (c.direction d).listsOwed.tail } := by
  cases d <;> rfl

@[simp] theorem view_advanceStream :
    c.advanceStream.view d = { c.view d with nextStream := max ((c.nextStream + 1) % 2 ^ 32) firstStream } := by
  cases d <;> rfl

theorem direction_eq : c.direction d = ⟨(c.view d).phase, (c.view d).dataOwed, (c.view d).listsOwed⟩ := rfl

theorem direction_taken : c.taken.direction d = c.direction d := by cases d <;> rfl

theorem phase_taken : (c.taken.view d).phase = (c.direction d).phase := by cases d <;> rfl

theorem dataOwed_taken : (c.taken.view d).dataOwed = (c.direction d).dataOwed := by cases d <;> rfl

theorem listsOwed_taken : (c.taken.view d).listsOwed = (c.direction d).listsOwed := by cases d <;> rfl

end Clip

/-- A view after a refusal: the phase is given up, the receiver is given an empty clipboard. -/
def View.refused (v : View) (d : Dir) (files : List FileDescriptor) (reason : String) (units : List Bytes) : View :=
  { v with
    phase := .idle
    staging := v.staging.release v.phase.reservation
    listsOwed := v.listsOwed ++ [.proxy]
    out := v.out ++ [⟨d.receiver, .own (.formatList .newUnicodeEmpty) units⟩]
    reports := v.reports ++ [.refused d (filesOf files) reason] }

/-! ## What is heard about a direction -/

/-- What an input says about one direction, the PDU it came in beside it where that is passed on. -/
inductive Heard
  | list (list : FormatList) (whole : Whole)
  | listAnswer (whole : Whole)
  | dataRequest (req : FormatDataRequest) (whole : Whole)
  | dataAnswer (resp : FormatDataResponse) (whole : Whole)
  | contentsRequest (req : FileContentsRequest)
  | contentsAnswer (resp : FileContentsResponse)
  | verdict (generation index : Nat) (v : Verdict)

/-- The direction a PDU is about and what it says: lists and answers come from a sender, requests
and answers to lists from a receiver. -/
def heardPdu (from' : Side) (whole : Whole) : Option (Dir × Heard) :=
  match ClipboardPdu.ofBytes whole.pdu with
  | some (.formatList l) => some (from'.sending, .list l whole)
  | some (.formatListResponse _) => some (from'.receiving, .listAnswer whole)
  | some (.formatDataRequest r) => some (from'.receiving, .dataRequest r whole)
  | some (.formatDataResponse r) => some (from'.sending, .dataAnswer r whole)
  | some (.fileContentsRequest r) => some (from'.receiving, .contentsRequest r)
  | some (.fileContentsResponse r) => some (from'.sending, .contentsAnswer r)
  | _ => none

/-- The direction an event is about, when it is about one, and what it says. -/
def Event.heard : Event → Option (Dir × Heard)
  | .pdu from' whole => heardPdu from' whole
  | .verdict job v => some (job.dir, .verdict job.generation job.index v)
  | .deadline => none
  | .staged _ => none

/-- The PDU from one end that a thing heard about a direction came in. -/
def Heard.Carries (d : Dir) (from' : Side) (whole : Whole) : Heard → Prop
  | .list l w => w = whole ∧ from' = d.sender ∧ ClipboardPdu.ofBytes whole.pdu = some (.formatList l)
  | .listAnswer w => w = whole ∧ from' = d.receiver ∧
      ∃ r, ClipboardPdu.ofBytes whole.pdu = some (.formatListResponse r)
  | .dataRequest r w => w = whole ∧ from' = d.receiver ∧
      ClipboardPdu.ofBytes whole.pdu = some (.formatDataRequest r)
  | .dataAnswer r w => w = whole ∧ from' = d.sender ∧
      ClipboardPdu.ofBytes whole.pdu = some (.formatDataResponse r)
  | .contentsRequest r => from' = d.receiver ∧ ClipboardPdu.ofBytes whole.pdu = some (.fileContentsRequest r)
  | .contentsAnswer r => from' = d.sender ∧ ClipboardPdu.ofBytes whole.pdu = some (.fileContentsResponse r)
  | .verdict .. => False

/-- What an event says about a direction, an end or a job said. -/
inductive Event.Said (d : Dir) (hd : Heard) : Event → Prop
  | pdu {from' : Side} {whole : Whole} (carries : hd.Carries d from' whole) : Said d hd (.pdu from' whole)
  | verdict {job : Job} {v : Verdict} (dir : job.dir = d) (heard : hd = .verdict job.generation job.index v) :
      Said d hd (.verdict job v)

theorem Event.said (h : ev.heard = some (d, hd)) : ev.Said d hd := by
  cases ev with
  | pdu from' whole =>
    refine .pdu ?_
    have hp : heardPdu from' whole = some (d, hd) := h
    unfold heardPdu at hp
    split at hp <;> cases hp
    all_goals simp [Heard.Carries, *]
  | verdict job v =>
    cases h
    exact .verdict rfl rfl
  | deadline | staged => cases h

/-- What an event says of a direction. -/
def Event.about (ev : Event) (d : Dir) : Option Heard :=
  match ev.heard with
  | some (d', hd) => if d' = d then some hd else none
  | none => none

theorem Event.heard_ne {d' : Dir} (h : ev.heard = some (d, hd)) (hne : d ≠ d') (hd' : Heard) :
    ev.heard ≠ some (d', hd') := by
  rw [h]
  exact fun heq => hne (Prod.mk.inj (Option.some.inj heq)).1

theorem Event.about_eq (h : ev.heard = some (d, hd)) : ev.about d = some hd := by
  simp [about, h]

theorem Event.heard_of_about (h : ev.about d = some hd) : ev.heard = some (d, hd) := by
  unfold about at h
  split at h
  · rename_i d' hd' heq
    split at h
    · rename_i hd
      cases h
      rw [heq, hd]
    · cases h
  · cases h

theorem Event.about_eq_none (h : ∀ hd, ev.heard ≠ some (d, hd)) : ev.about d = none := by
  unfold about
  split
  · rename_i d' hd' h'
    split
    · rename_i heq
      subst heq
      exact absurd h' (h _)
    · rfl
  · rfl

namespace Event.Said

variable {ev : Event} {d : Dir} {w : Whole}

theorem list {l : FormatList} (h : ev.Said d (.list l w)) :
    ev = .pdu d.sender w ∧ ClipboardPdu.ofBytes w.pdu = some (.formatList l) := by
  rcases h with ⟨rfl, rfl, hp⟩ | ⟨-, heard⟩
  · exact ⟨rfl, hp⟩
  · cases heard

theorem listAnswer (h : ev.Said d (.listAnswer w)) :
    ev = .pdu d.receiver w ∧ ∃ r, ClipboardPdu.ofBytes w.pdu = some (.formatListResponse r) := by
  rcases h with ⟨rfl, rfl, hp⟩ | ⟨-, heard⟩
  · exact ⟨rfl, hp⟩
  · cases heard

theorem dataRequest {r : FormatDataRequest} (h : ev.Said d (.dataRequest r w)) :
    ev = .pdu d.receiver w ∧ ClipboardPdu.ofBytes w.pdu = some (.formatDataRequest r) := by
  rcases h with ⟨rfl, rfl, hp⟩ | ⟨-, heard⟩
  · exact ⟨rfl, hp⟩
  · cases heard

theorem dataAnswer {r : FormatDataResponse} (h : ev.Said d (.dataAnswer r w)) :
    ev = .pdu d.sender w ∧ ClipboardPdu.ofBytes w.pdu = some (.formatDataResponse r) := by
  rcases h with ⟨rfl, rfl, hp⟩ | ⟨-, heard⟩
  · exact ⟨rfl, hp⟩
  · cases heard

end Event.Said

/-! ## Moves -/

/-- The stream counter after one id was given out. -/
def nextId (n : Nat) : Nat := max ((n + 1) % 2 ^ 32) firstStream

/-- What `fetch_next` does while contents are fetched: asks for the next range, or has every file
scanned. -/
inductive Next (env : Env) (d : Dir) (f : Fetch) (s : Contents) (v : View) : View → Prop
  | ask {index : Nat} {file : FileDescriptor} {held : Bytes} {units : List Bytes}
      (skip : Clip.skipFull (s.files.drop s.index) (s.data.drop s.index) s.index = some index)
      (hfile : s.files[index]? = some file) (hheld : s.data[index]? = some held)
      (hle : held.length ≤ file.size) (frames : env.frames (.fileContentsRequest
        (Clip.rangeRequest s.stream index file.size held.length)) d.sender = .ok units) :
      Next env d f s v { v with
        phase := .fetching
          { f with step := .contents { s with index := index }, deadline := env.now + answerTime }
        out := v.out ++ [⟨d.sender, .own (.fileContentsRequest
          (Clip.rangeRequest s.stream index file.size held.length)) units⟩] }
  | scan {index : Nat}
      (skip : Clip.skipFull (s.files.drop s.index) (s.data.drop s.index) s.index = some index)
      (hfile : s.files[index]? = none) :
      Next env d f s v { v with
        phase := .fetching { f with
          step := .scanning ⟨s.descriptor, s.files, s.data, List.replicate s.files.length none⟩
          deadline := env.now + env.scanTimeout + answerTime }
        jobs := v.jobs ++ Clip.jobsOf d f.generation s.files s.data }

def Fetch.listed (f : Fetch) (resp : FormatDataResponse) (files : List FileDescriptor) (stream : Nat) : Fetch :=
  { f with
    reservation := some ((files.map FileDescriptor.size).sum % 2 ^ 64)
    step := .contents ⟨resp.data, files, files.map fun _ => [], 0, stream⟩ }

/-- The phase waits for the sender's file list. -/
def Phase.Waiting (p : Phase) (f : Fetch) : Prop := p = .fetching f ∧ f.step = .descriptor

def Phase.Fetches (p : Phase) (f : Fetch) (s : Contents) : Prop := p = .fetching f ∧ f.step = .contents s

def Phase.Scans (p : Phase) (f : Fetch) (s : Scanning) : Prop := p = .fetching f ∧ f.step = .scanning s

/-- The answer that is waited for: some bytes, no more than were asked for and than the file still lacks. -/
structure Contents.Takes (s : Contents) (resp : FileContentsResponse) (file : FileDescriptor) (held : Bytes) :
    Prop where
  stream : resp.streamId = s.stream
  ok : resp.isError = false
  hfile : s.files[s.index]? = some file
  hheld : s.data[s.index]? = some held
  nonempty : resp.data ≠ []
  room : held.length + resp.data.length ≤ file.size
  short : resp.data.length ≤ range

/-- Every way hearing something about a direction can change its view. -/
inductive Move (env : Env) (d : Dir) (v : View) : Heard → View → Prop
  | plainList {list : FormatList} {whole : Whole}
      (format : fileListFormat ((list.getFormats v.longNames).getD []) = none) :
      Move env d v (.list list whole) { v with
        phase := .idle
        staging := v.staging.release v.phase.reservation
        listsOwed := v.listsOwed ++ [.receiver]
        out := v.out ++ [⟨d.receiver, .passed whole⟩] }
  | unhealthyList {list : FormatList} {whole : Whole} {fileList : Nat} {why : String} {us us' : List Bytes}
      (format : fileListFormat ((list.getFormats v.longNames).getD []) = some fileList)
      (unhealthy : env.healthy = .error why)
      (taken : env.frames (.formatListResponse .ok) d.sender = .ok us)
      (emptied : env.frames (.formatList .newUnicodeEmpty) d.receiver = .ok us') :
      Move env d v (.list list whole)
        (View.refused { v with out := v.out ++ [⟨d.sender, .own (.formatListResponse .ok) us⟩] } d []
          ("the scanner is not answering: " ++ why) us')
  | offer {list : FormatList} {whole : Whole} {fileList : Nat} {us us' : List Bytes}
      (format : fileListFormat ((list.getFormats v.longNames).getD []) = some fileList)
      (healthy : env.healthy = .ok ()) (taken : env.frames (.formatListResponse .ok) d.sender = .ok us)
      (asked : env.frames (.formatDataRequest ⟨fileList⟩) d.sender = .ok us') :
      Move env d v (.list list whole) { v with
        phase := .fetching ⟨v.generation + 1, whole, fileList, .descriptor, env.now + answerTime, none⟩
        staging := v.staging.release v.phase.reservation
        generation := v.generation + 1
        dataOwed := v.dataOwed ++ [.proxy]
        out := v.out ++ [⟨d.sender, .own (.formatListResponse .ok) us⟩] ++
          [⟨d.sender, .own (.formatDataRequest ⟨fileList⟩) us'⟩] }
  | swallowList {whole : Whole} {rest : List Owner} (owed : v.listsOwed = .proxy :: rest) :
      Move env d v (.listAnswer whole) { v with listsOwed := rest }
  | passList {whole : Whole} (owed : v.listsOwed.head? ≠ some .proxy) :
      Move env d v (.listAnswer whole) { v with
        listsOwed := v.listsOwed.tail
        out := v.out ++ [⟨d.sender, .passed whole⟩] }
  | answerData {req : FormatDataRequest} {whole : Whole} {a : FormatDataResponse} {us : List Bytes}
      (answer : Clip.dataAnswer v.phase req = some a)
      (frames : env.frames (.formatDataResponse a) d.receiver = .ok us) :
      Move env d v (.dataRequest req whole) { v with
        out := v.out ++ [⟨d.receiver, .own (.formatDataResponse a) us⟩] }
  | forwardData {req : FormatDataRequest} {whole : Whole} (answer : Clip.dataAnswer v.phase req = none) :
      Move env d v (.dataRequest req whole) { v with
        dataOwed := v.dataOwed ++ [.receiver]
        out := v.out ++ [⟨d.sender, .passed whole⟩] }
  | passData {resp : FormatDataResponse} {whole : Whole} (owed : v.dataOwed.head? ≠ some .proxy) :
      Move env d v (.dataAnswer resp whole) { v with
        dataOwed := v.dataOwed.tail
        out := v.out ++ [⟨d.receiver, .passed whole⟩] }
  | dropData {resp : FormatDataResponse} {whole : Whole} {rest : List Owner}
      (owed : v.dataOwed = .proxy :: rest) (waiting : ∀ f, ¬ v.phase.Waiting f) :
      Move env d v (.dataAnswer resp whole) { v with dataOwed := rest }
  | refuseFiles {resp : FormatDataResponse} {whole : Whole} {rest : List Owner} {f : Fetch}
      {files : List FileDescriptor} {reason : String} {us : List Bytes}
      (owed : v.dataOwed = .proxy :: rest) (waiting : v.phase.Waiting f)
      (refused : Clip.listing resp env.maxFileBytes v.staging = .refused files reason)
      (emptied : env.frames (.formatList .newUnicodeEmpty) d.receiver = .ok us) :
      Move env d v (.dataAnswer resp whole) (View.refused { v with dataOwed := rest } d files reason us)
  | acceptFiles {resp : FormatDataResponse} {whole : Whole} {rest : List Owner} {f : Fetch}
      {files : List FileDescriptor} {staging : Staging} {v' : View}
      (owed : v.dataOwed = .proxy :: rest) (waiting : v.phase.Waiting f)
      (accepted : Clip.listing resp env.maxFileBytes v.staging = .accepted files staging)
      (next : Next env d (f.listed resp files v.nextStream)
        ⟨resp.data, files, files.map fun _ => [], 0, v.nextStream⟩
        { v with
          phase := .fetching (f.listed resp files v.nextStream)
          dataOwed := rest
          staging := staging
          nextStream := nextId v.nextStream
          reports := v.reports ++ [.started d (filesOf files)] } v') :
      Move env d v (.dataAnswer resp whole) v'
  | answerContents {req : FileContentsRequest} {us : List Bytes} (frames : env.frames
      (.fileContentsResponse (Clip.contentsAnswer v.phase req)) d.receiver = .ok us) :
      Move env d v (.contentsRequest req) { v with
        out := v.out ++ [⟨d.receiver, .own (.fileContentsResponse (Clip.contentsAnswer v.phase req)) us⟩] }
  | ignoreContents {resp : FileContentsResponse}
      (other : ∀ f s, v.phase.Fetches f s → resp.streamId ≠ s.stream) :
      Move env d v (.contentsAnswer resp) { v with nextStream := nextId v.nextStream }
  | refuseContents {resp : FileContentsResponse} {f : Fetch} {s : Contents} {reason : String} {us : List Bytes}
      (fetches : v.phase.Fetches f s) (stream : resp.streamId = s.stream)
      (emptied : env.frames (.formatList .newUnicodeEmpty) d.receiver = .ok us) :
      Move env d v (.contentsAnswer resp)
        (View.refused { v with nextStream := nextId v.nextStream } d s.files reason us)
  | acceptContents {resp : FileContentsResponse} {f : Fetch} {s s' : Contents} {file : FileDescriptor}
      {held : Bytes} {v' : View}
      (fetches : v.phase.Fetches f s) (takes : s.Takes resp file held)
      (hs' : s' = { s with data := s.data.set s.index (held ++ resp.data), stream := v.nextStream })
      (next : Next env d { f with step := .contents s' } s'
        { v with
          phase := .fetching { f with step := .contents s' }
          nextStream := nextId v.nextStream } v') :
      Move env d v (.contentsAnswer resp) v'
  | ignoreVerdict {generation index : Nat} {vd : Verdict}
      (other : ∀ f s, v.phase.Scans f s → f.generation ≠ generation) :
      Move env d v (.verdict generation index vd) v
  | storeVerdict {index : Nat} {vd : Verdict} {f : Fetch} {s : Scanning} (scans : v.phase.Scans f s)
      (more : (s.verdicts.set index (some vd)).any Option.isNone = true) :
      Move env d v (.verdict f.generation index vd) { v with
        phase := .fetching
          { f with step := .scanning { s with verdicts := s.verdicts.set index (some vd) } } }
  | passVerdict {index : Nat} {vd : Verdict} {f : Fetch} {s : Scanning} (scans : v.phase.Scans f s)
      (all : (s.verdicts.set index (some vd)).any Option.isNone = false)
      (clean : Clip.objections s.files (s.verdicts.set index (some vd)) = []) :
      Move env d v (.verdict f.generation index vd) { v with
        phase := .offered ⟨f.fileList, s.descriptor, s.data, f.reservation⟩
        listsOwed := v.listsOwed ++ [.proxy]
        out := v.out ++ [⟨d.receiver, .passed f.list⟩]
        reports := v.reports ++ [.passed d (filesOf s.files)] }
  | refuseVerdict {index : Nat} {vd : Verdict} {f : Fetch} {s : Scanning} {us : List Bytes}
      (scans : v.phase.Scans f s)
      (all : (s.verdicts.set index (some vd)).any Option.isNone = false)
      (objected : Clip.objections s.files (s.verdicts.set index (some vd)) ≠ [])
      (emptied : env.frames (.formatList .newUnicodeEmpty) d.receiver = .ok us) :
      Move env d v (.verdict f.generation index vd)
        (v.refused d s.files
          ("; ".intercalate (Clip.objections s.files (s.verdicts.set index (some vd)))) us)

/-! ## The functions are moves -/

namespace Clip

variable {env : Env} {d : Dir} {c c' : Clip}

theorem send_ok {side : Side} {pdu : ClipboardPdu} (h : c.send env side pdu = .ok c') :
    ∃ units, env.frames pdu side = .ok units ∧ c' = c.emit side (.own pdu units) := by
  unfold send at h
  simp only at h
  split at h
  · rename_i units hunits
    cases h
    exact ⟨units, by cases side <;> exact hunits, rfl⟩
  · cases h

variable {files : List FileDescriptor} {resp : FormatDataResponse} {whole : Whole} {from' : Side}

theorem refuseFiles_ok {reason : String} (h : c.refuseFiles env d files reason = .ok c') :
    ∃ us, env.frames (.formatList .newUnicodeEmpty) d.receiver = .ok us ∧
      c'.view d = (c.view d).refused d files reason us ∧ Frame d c c' := by
  obtain ⟨us, hus, rfl⟩ := send_ok h
  refine ⟨us, hus, ?_, by cases d <;> exact ⟨rfl, rfl, rfl⟩⟩
  cases d <;> rfl

theorem fetchNext_ok {f : Fetch} {s : Contents} (hf : (c.direction d).phase.Fetches f s)
    (h : c.fetchNext env d = .ok c') : Next env d f s (c.view d) (c'.view d) ∧ Frame d c c' := by
  unfold fetchNext at h
  rw [hf.1] at h
  simp only [hf.2] at h
  split at h
  · cases h
  rename_i index skip
  split at h
  · rename_i file held hfile hheld
    split at h
    · cases h
    · rename_i hle
      obtain ⟨us, hus, rfl⟩ := send_ok h
      cases d <;> exact ⟨.ask skip hfile hheld (Nat.le_of_not_lt hle) hus, rfl, rfl, rfl⟩
  · cases h
  · rename_i hfile
    cases h
    cases d <;> exact ⟨.scan skip hfile, rfl, rfl, rfl⟩

/-- What a file list has passed before room is made for it. -/
structure Checked (resp : FormatDataResponse) (limit : Option Nat) (files : List FileDescriptor) : Prop where
  ok : resp.isError = false
  read : resp.toFileList = some files
  nonempty : files ≠ []
  flat : ∀ f ∈ files, f.relativePath = none ∧ f.isDirectory = false
  sized : ∀ f ∈ files, f.fileSize.isSome
  limited : ∀ n ∈ limit, ∀ f ∈ files, f.size ≤ n

/-- An accepted file list has passed the checks, and there was room for it. -/
structure Accepted (resp : FormatDataResponse) (limit : Option Nat) (staging : Staging)
    (files : List FileDescriptor) (staging' : Staging) : Prop extends Checked resp limit files where
  reserved : staging.reserve ((files.map FileDescriptor.size).sum % 2 ^ 64) = some staging'

variable {limit : Option Nat} {staging staging' : Staging}

theorem listing_accepted (h : listing resp limit staging = .accepted files staging') :
    Accepted resp limit staging files staging' := by
  unfold listing at h
  split at h
  · cases h
  rename_i hok
  split at h
  · cases h
  rename_i files' hread
  split at h
  · cases h
  rename_i hne
  split at h
  · cases h
  rename_i hflat
  split at h
  · cases h
  rename_i hsized
  split at h
  · cases h
  rename_i hlimit
  split at h
  · cases h
  rename_i hres
  cases h
  simp only [List.any_eq_true, Bool.or_eq_true, not_exists, not_and, not_or] at hflat hsized
  refine ⟨⟨by simpa using hok, hread, by simpa using hne, fun f hf => ?_, fun f hf => ?_, ?_⟩, hres⟩
  · simpa using hflat f hf
  · simpa [Option.isSome_iff_ne_none] using hsized f hf
  · rintro n rfl
    simpa using hlimit

theorem Accepted.listing (h : Accepted resp limit staging files staging') :
    listing resp limit staging = .accepted files staging' := by
  have hempty : files.isEmpty = false := by simpa using h.nonempty
  have hflat : (files.any fun f => f.relativePath.isSome || f.isDirectory) = false := by
    simpa using fun f hf => h.flat f hf
  have hsized : (files.any fun f => f.fileSize.isNone) = false := by
    simpa [Option.isSome_iff_ne_none] using h.sized
  have hlimit : (limit.any fun limit => files.any fun f => decide (limit < f.size)) = false := by
    cases limit with
    | none => rfl
    | some n => simpa using h.limited n rfl
  simp only [Clip.listing, h.ok, h.read, hempty, hflat, hsized, hlimit, h.reserved, Bool.false_eq_true, if_false]

theorem formatList_ok {list : FormatList} (h : c.formatList env d list whole = .ok c') :
    Move env d (c.view d) (.list list whole) (c'.view d) ∧ Frame d c c' := by
  unfold formatList at h
  have hlong : (c.dropPhase d).longNames = (c.view d).longNames := by cases d <;> rfl
  simp only [hlong] at h
  split at h
  · rename_i hformat
    cases h
    cases d <;> exact ⟨.plainList hformat, rfl, rfl, rfl⟩
  · rename_i fileList hformat
    cases h₁ : (c.dropPhase d).sendSender env d (.formatListResponse .ok) with
    | error e => rw [h₁] at h; cases h
    | ok c₁ =>
      obtain ⟨us, hus, rfl⟩ := send_ok h₁
      rw [h₁] at h
      simp only [bind, Except.bind] at h
      split at h
      · rename_i why hwhy
        obtain ⟨us', hus', rfl⟩ := send_ok h
        cases d <;> exact ⟨.unhealthyList hformat hwhy hus hus', rfl, rfl, rfl⟩
      · rename_i hok
        obtain ⟨us', hus', rfl⟩ := send_ok h
        cases d <;> exact ⟨.offer hformat hok hus hus', rfl, rfl, rfl⟩

theorem dataRequest_ok {req : FormatDataRequest} (hfrom : from'.other = d.sender)
    (h : c.dataRequest env d req from' whole = .ok c') :
    Move env d (c.view d) (.dataRequest req whole) (c'.view d) ∧ Frame d c c' := by
  unfold dataRequest at h
  split at h
  · rename_i a ha
    obtain ⟨us, hus, rfl⟩ := send_ok h
    cases d <;> exact ⟨.answerData ha hus, rfl, rfl, rfl⟩
  · rename_i ha
    cases h
    unfold pass
    rw [hfrom]
    cases d <;> exact ⟨.forwardData ha, rfl, rfl, rfl⟩

theorem contentsRequest_ok {req : FileContentsRequest} (h : c.contentsRequest env d req = .ok c') :
    Move env d (c.view d) (.contentsRequest req) (c'.view d) ∧ Frame d c c' := by
  obtain ⟨us, hus, rfl⟩ := send_ok h
  cases d <;> exact ⟨.answerContents hus, rfl, rfl, rfl⟩

theorem descriptor_ok {rest : List Owner} (owed : (c.direction d).dataOwed = .proxy :: rest)
    (h : (c.popData d).descriptor env d resp = .ok c') :
    Move env d (c.view d) (.dataAnswer resp whole) (c'.view d) ∧ Frame d c c' := by
  obtain rfl : rest = (c.direction d).dataOwed.tail := by rw [owed]; rfl
  have hphase : ((c.popData d).direction d).phase = (c.direction d).phase := by cases d <;> rfl
  have hstaging : (c.popData d).staging = c.staging := by cases d <;> rfl
  have hnext : (c.popData d).nextStream = c.nextStream := by cases d <;> rfl
  have hframe : Frame d c (c.popData d) := by cases d <;> exact ⟨rfl, rfl, rfl⟩
  unfold descriptor at h
  rw [hphase] at h
  split at h
  · rename_i f hf
    split at h
    · rename_i hstep
      have waiting : (c.view d).phase.Waiting f := ⟨hf, hstep⟩
      rw [hstaging] at h
      split at h
      · rename_i files reason hrefused
        obtain ⟨us, hus, hv, hfr⟩ := refuseFiles_ok h
        rw [hv, view_popData]
        exact ⟨.refuseFiles owed waiting hrefused hus, hframe.trans hfr⟩
      · rename_i files staging haccepted
        split at h
        · cases h
        · rw [hnext] at h
          obtain ⟨hn, hfr⟩ := fetchNext_ok (f := f.listed resp files c.nextStream)
            (by rw [direction_putPhase]; exact ⟨rfl, rfl⟩) h
          refine ⟨.acceptFiles owed waiting haccepted ?_, Frame.trans ?_ hfr⟩
          · cases d <;> exact hn
          · cases d <;> exact ⟨rfl, rfl, rfl⟩
    · rename_i hstep
      cases h
      rw [view_popData]
      refine ⟨.dropData owed ?_, hframe⟩
      rintro f' ⟨hf', hs'⟩
      cases hf.symm.trans hf'
      exact hstep hs'
  · rename_i hno
    cases h
    rw [view_popData]
    exact ⟨.dropData owed fun f hf => hno f hf.1, hframe⟩

theorem contents_ok {resp : FileContentsResponse} (h : c.contents env d resp = .ok c') :
    Move env d (c.view d) (.contentsAnswer resp) (c'.view d) ∧ Frame d c c' := by
  have hphase : (c.advanceStream.direction d).phase = (c.direction d).phase := by cases d <;> rfl
  have hframe : Frame d c c.advanceStream := by cases d <;> exact ⟨rfl, rfl, rfl⟩
  unfold contents at h
  simp only [hphase] at h
  split at h
  · rename_i f hf
    split at h
    · rename_i s hstep
      have fetches : (c.view d).phase.Fetches f s := ⟨hf, hstep⟩
      have hfiles : fetchFiles (c.advanceStream.direction d).phase = s.files := by
        obtain ⟨g, l, fl, st, dl, r⟩ := f
        cases hstep
        rw [hphase, hf]
        rfl
      split at h
      · rename_i hne
        cases h
        rw [view_advanceStream]
        refine ⟨.ignoreContents ?_, hframe⟩
        rintro f' s' ⟨hf', hs'⟩
        cases hf.symm.trans hf'
        cases hstep.symm.trans hs'
        exact hne
      rename_i hstream
      have stream : resp.streamId = s.stream := not_not.1 hstream
      split at h
      · obtain ⟨us, hus, hv, hfr⟩ := refuseFiles_ok h
        rw [hv, hfiles, view_advanceStream]
        exact ⟨.refuseContents fetches stream hus, hframe.trans hfr⟩
      rename_i herr
      split at h
      · rename_i file held hfile hheld
        split at h
        · cases h
        rename_i hle
        split at h
        · obtain ⟨us, hus, hv, hfr⟩ := refuseFiles_ok h
          rw [hv, hfiles, view_advanceStream]
          exact ⟨.refuseContents fetches stream hus, hframe.trans hfr⟩
        · rename_i hgood
          obtain ⟨hn, hfr⟩ := fetchNext_ok (by rw [direction_putPhase]; exact ⟨rfl, rfl⟩) h
          rw [List.isEmpty_iff] at hgood
          have hroom : resp.data ≠ [] ∧ resp.data.length ≤ min (file.size - held.length) range := by
            refine ⟨fun he => hgood (Or.inl he), ?_⟩
            exact Nat.le_of_not_lt fun hlt => hgood (Or.inr hlt)
          obtain ⟨hne, hmin⟩ := hroom
          have takes : s.Takes resp file held := ⟨stream, by simpa using herr, hfile, hheld, hne, by omega, by omega⟩
          refine ⟨.acceptContents fetches takes rfl ?_, Frame.trans ?_ hfr⟩
          · cases d <;> exact hn
          · cases d <;> exact ⟨rfl, rfl, rfl⟩
      · cases h
    · rename_i hstep
      cases h
      rw [view_advanceStream]
      refine ⟨.ignoreContents ?_, hframe⟩
      rintro f' s' ⟨hf', hs'⟩
      cases hf.symm.trans hf'
      exact absurd hs' (hstep s')
  · rename_i hno
    cases h
    rw [view_advanceStream]
    exact ⟨.ignoreContents fun f s hf => absurd hf.1 (hno f), hframe⟩

theorem scanned_ok {generation index : Nat} {vd : Verdict} (h : c.scanned env d generation index vd = .ok c') :
    Move env d (c.view d) (.verdict generation index vd) (c'.view d) ∧ Frame d c c' := by
  unfold scanned at h
  split at h
  · rename_i f hf
    split at h
    · rename_i hgen
      cases h
      refine ⟨.ignoreVerdict ?_, .refl d c⟩
      rintro f' s' ⟨hf', _⟩
      cases hf.symm.trans hf'
      exact hgen
    rename_i hgen
    obtain rfl : f.generation = generation := not_not.1 hgen
    split at h
    · rename_i s hstep
      have scans : (c.view d).phase.Scans f s := ⟨hf, hstep⟩
      simp only at h
      split at h
      · rename_i hmore
        cases h
        rw [view_putPhase]
        exact ⟨.storeVerdict scans hmore, by cases d <;> exact ⟨rfl, rfl, rfl⟩⟩
      rename_i hmore
      have hall := Bool.eq_false_iff.2 hmore
      split at h
      · rename_i hclean
        cases h
        cases d <;> exact ⟨.passVerdict scans hall (List.isEmpty_iff.1 hclean), rfl, rfl, rfl⟩
      · rename_i hobj
        obtain ⟨us, hus, hv, hfr⟩ := refuseFiles_ok h
        rw [hv]
        refine ⟨?_, Frame.trans ?_ hfr⟩
        · have hrel : (c.view d).phase.reservation = f.reservation := by
            show (c.direction d).phase.reservation = _
            rw [hf]; rfl
          have hout : View.refused ((c.putPhase d (.fetching
              { f with step := .scanning { s with verdicts := s.verdicts.set index (some vd) } })).view d) d s.files
              ("; ".intercalate (objections s.files (s.verdicts.set index (some vd)))) us =
              (c.view d).refused d s.files
                ("; ".intercalate (objections s.files (s.verdicts.set index (some vd)))) us := by
            rw [view_putPhase]
            unfold View.refused
            rw [hrel]
            rfl
          rw [hout]
          exact .refuseVerdict scans hall (fun he => hobj (List.isEmpty_iff.2 he)) hus
        · cases d <;> exact ⟨rfl, rfl, rfl⟩
    · rename_i hstep
      cases h
      refine ⟨.ignoreVerdict ?_, .refl d c⟩
      rintro f' s' ⟨hf', hs'⟩
      cases hf.symm.trans hf'
      exact absurd hs' (hstep s')
  · rename_i hno
    cases h
    exact ⟨.ignoreVerdict fun f s hf => absurd hf.1 (hno f), .refl d c⟩

theorem take_heard (hh : heardPdu from' whole = some (d, hd)) (h : c.take env from' whole = .ok c') :
    Move env d (c.view d) hd (c'.view d) ∧ Frame d c c' := by
  unfold heardPdu at hh
  unfold take at h
  split at hh
  case h_7 => cases hh
  all_goals
    rename_i hp
    simp only [hp] at h
    cases hh
  case h_1 => exact formatList_ok h
  case h_2 =>
    split at h
    · rename_i rest howed
      cases h
      obtain rfl : rest = (c.direction from'.receiving).listsOwed.tail := by rw [howed]; rfl
      rw [view_popList]
      exact ⟨.swallowList howed, by cases from' <;> exact ⟨rfl, rfl, rfl⟩⟩
    · rename_i hno
      cases h
      refine ⟨?_, by cases from' <;> exact ⟨rfl, rfl, rfl⟩⟩
      have hhead : (c.view from'.receiving).listsOwed.head? ≠ some .proxy := by
        intro hh
        obtain ⟨rest, hrest⟩ := List.head?_eq_some_iff.1 hh
        exact hno rest hrest
      cases from' <;> exact .passList hhead
  case h_3 => exact dataRequest_ok (by simp) h
  case h_4 =>
    split at h
    · rename_i rest howed
      exact descriptor_ok howed h
    · rename_i hno
      cases h
      refine ⟨?_, by cases from' <;> exact ⟨rfl, rfl, rfl⟩⟩
      have hhead : (c.view from'.sending).dataOwed.head? ≠ some .proxy := by
        intro hh
        obtain ⟨rest, hrest⟩ := List.head?_eq_some_iff.1 hh
        exact hno rest hrest
      cases from' <;> exact .passData hhead
  case h_5 => exact contentsRequest_ok h
  case h_6 => exact contents_ok h

/-- What a PDU that is about no direction does: it touches neither and at most writes to the other
end a masked capability set, or the PDU itself. -/
structure Aside (env : Env) (from' : Side) (whole : Whole) (c c' : Clip) : Prop where
  direction : ∀ d, c'.direction d = c.direction d
  generation : c'.generation = c.generation
  nextStream : c'.nextStream = c.nextStream
  staging : c'.staging = c.staging
  reports : c'.reports = c.reports
  jobs : c'.jobs = c.jobs
  out : c.out = [] → ∀ e ∈ c'.out, e.side = from'.other ∧
    ((∃ caps us, e.body = .own (.capabilities caps) us ∧ env.frames (.capabilities caps) e.side = .ok us) ∨
      e.body = .passed whole ∧ (ClipboardPdu.ofBytes whole.pdu = some .monitorReady ∨
        ∃ path, ClipboardPdu.ofBytes whole.pdu = some (.temporaryDirectory path)))

theorem take_aside (hh : heardPdu from' whole = none) (h : c.take env from' whole = .ok c') :
    Aside env from' whole c c' := by
  unfold heardPdu at hh
  unfold take at h
  split at h
  case h_1 => cases h
  case h_2 caps hp =>
    obtain ⟨us, hus, rfl⟩ := send_ok h
    cases from'
    all_goals
      refine ⟨fun d => by cases d <;> rfl, rfl, rfl, rfl, rfl, rfl, fun hc e he => ?_⟩
      obtain rfl : e = _ := by simpa [emit, hc] using he
      exact ⟨rfl, .inl ⟨_, _, rfl, hus⟩⟩
  case h_9 | h_10 =>
    cases h
    exact ⟨fun _ => rfl, rfl, rfl, rfl, rfl, rfl, fun hc => by simp [hc]⟩
  case h_11 | h_12 =>
    rename_i hp
    cases h
    refine ⟨fun d => by cases d <;> rfl, rfl, rfl, rfl, rfl, rfl, fun hc e he => ?_⟩
    obtain rfl : e = _ := by simpa [pass, emit, hc] using he
    simp [hp]
  all_goals
    rename_i hp
    simp [hp] at hh

/-- A deadline passes for one direction or does not. -/
inductive Late (env : Env) (d : Dir) (c : Clip) : Clip → Prop
  | inTime : Late env d c c
  | refused {c' : Clip} {f : Fetch} {us : List Bytes} (phase : (c.direction d).phase = .fetching f)
      (late : f.deadline ≤ env.now)
      (view : c'.view d = (c.view d).refused d (fetchFiles (c.direction d).phase)
        "the sender or the scanner took too long" us)
      (frame : Frame d c c') (emptied : env.frames (.formatList .newUnicodeEmpty) d.receiver = .ok us) :
      Late env d c c'

theorem expireDir_ok (h : c.expireDir env d = .ok c') : Late env d c c' := by
  unfold expireDir at h
  split at h
  · rename_i f hf
    split at h
    · rename_i hlate
      obtain ⟨us, hus, hv, hfr⟩ := refuseFiles_ok h
      exact .refused hf hlate hv hfr hus
    · cases h
      exact .inTime
  · cases h
    exact .inTime

theorem expire_ok (h : c.expire env = .ok c') : ∃ m, Late env .upload c m ∧ Late env .download m c' := by
  unfold expire at h
  cases h₁ : c.expireDir env .upload with
  | error e => rw [h₁] at h; cases h
  | ok m =>
    rw [h₁] at h
    exact ⟨m, expireDir_ok h₁, expireDir_ok h⟩

end Clip

/-! ## Rounds -/

inductive Round (l : Label) (s s' : Session) : Prop
  | heard {d : Dir} {hd : Heard} (heard : l.event.heard = some (d, hd))
      (move : Move l.env d (s.clip.taken.view d) hd (s'.clip.view d)) (frame : Clip.Frame d s.clip s'.clip)
  | aside {from' : Side} {whole : Whole} (event : l.event = .pdu from' whole) (heard : l.event.heard = none)
      (aside : Clip.Aside l.env from' whole s.clip.taken s'.clip)
  | deadline {m : Clip} (event : l.event = .deadline) (up : Clip.Late l.env .upload s.clip.taken m)
      (down : Clip.Late l.env .download m s'.clip)
  | staged {held : Nat} (event : l.event = .staged held)
      (clip : s'.clip = { s.clip.taken with staging := { s.clip.staging with held } })

theorem Session.step_eq_some (h : s.step l = some s') :
    s.possible l.event = true ∧ s.handle l = .ok s'.clip ∧ s'.running = s.left l.event ++ s'.clip.jobs := by
  unfold step at h
  split at h
  · rename_i hp
    split at h
    · rename_i c hc
      cases h
      exact ⟨hp, hc, rfl⟩
    · cases h
  · cases h

/-- Every round is a move of the direction its event is about, or concerns no direction, or is a
deadline served. -/
theorem Session.round (h : s.step l = some s') : Round l s s' := by
  obtain ⟨_, hc, _⟩ := step_eq_some h
  unfold handle at hc
  split at hc
  · rename_i from' whole hev
    cases hh : heardPdu from' whole with
    | none => exact .aside hev (by rw [hev]; exact hh) (Clip.take_aside hh hc)
    | some x =>
      obtain ⟨d, hd⟩ := x
      obtain ⟨hm, hf⟩ := Clip.take_heard hh hc
      exact .heard (by rw [hev]; exact hh) hm ⟨hf.other.trans (by cases d <;> rfl), hf.server, hf.client⟩
  · rename_i job v hev
    obtain ⟨hm, hf⟩ := Clip.scanned_ok hc
    exact .heard (by rw [hev]; rfl) hm ⟨hf.other.trans (by cases job.dir <;> rfl), hf.server, hf.client⟩
  · rename_i hev
    obtain ⟨m, h₁, h₂⟩ := Clip.expire_ok hc
    exact .deadline hev h₁ h₂
  · rename_i held hev
    exact .staged hev (Except.ok.inj hc).symm

/-- A round as one direction sees it: something is heard about it, its deadline has passed, or it
is left alone. -/
inductive Seen (l : Label) (d : Dir) (s s' : Session) : Prop
  | moved {hd : Heard} (heard : l.event.heard = some (d, hd))
      (move : Move l.env d (s.clip.taken.view d) hd (s'.clip.view d))
  | late {f : Fetch} (event : l.event = .deadline) (phase : (s.clip.direction d).phase = .fetching f)
      (after : s'.clip.direction d = { s.clip.direction d with
        phase := .idle
        listsOwed := (s.clip.direction d).listsOwed ++ [.proxy] })
  | kept (quiet : ∀ hd, l.event.heard ≠ some (d, hd)) (same : s'.clip.direction d = s.clip.direction d)

namespace Clip

variable {env : Env} {d : Dir} {c c' : Clip}

theorem Late.other (h : Late env d c c') : c'.direction d.other = c.direction d.other := by
  cases h with
  | inTime => rfl
  | refused phase late view frame => exact frame.other

theorem Late.direction (h : Late env d c c') :
    c'.direction d = c.direction d ∨ (∃ f, (c.direction d).phase = .fetching f) ∧
      c'.direction d = { c.direction d with
        phase := .idle
        listsOwed := (c.direction d).listsOwed ++ [.proxy] } := by
  cases h with
  | inTime => exact .inl rfl
  | refused phase late view frame =>
    exact .inr ⟨⟨_, phase⟩, by rw [c'.direction_eq, view]; rfl⟩

theorem Late.out (h : Late env d c c') :
    ∀ em ∈ c'.out, em ∈ c.out ∨ ∃ us, em.body = .own (.formatList .newUnicodeEmpty) us ∧
      env.frames (.formatList .newUnicodeEmpty) em.side = .ok us := by
  cases h with
  | inTime => exact fun em hem => .inl hem
  | refused phase late view frame emptied =>
    have hout := congrArg View.out view
    intro em hem
    rw [show c'.out = _ from hout, View.refused, List.mem_append, List.mem_singleton] at hem
    exact hem.imp id fun h => by subst h; exact ⟨_, rfl, emptied⟩

end Clip

theorem Round.seen (h : Round l s s') (d : Dir) : Seen l d s s' := by
  have htaken := s.clip.direction_taken
  cases h with
  | @heard d' hd heard move frame =>
    by_cases hd' : d' = d
    · subst hd'
      exact .moved heard move
    · obtain rfl := Dir.eq_other_of_ne (Ne.symm hd')
      exact .kept (Event.heard_ne heard hd') frame.other
  | aside event heard aside =>
    exact .kept (by simp [heard]) ((aside.direction d).trans (htaken d))
  | @deadline m event up down =>
    have hquiet : ∀ hd, l.event.heard ≠ some (d, hd) := by
      rw [event]
      exact fun hd h => by cases h
    have hlate : s'.clip.direction d = s.clip.direction d ∨ (∃ f, (s.clip.direction d).phase = .fetching f) ∧
        s'.clip.direction d = { s.clip.direction d with
          phase := .idle
          listsOwed := (s.clip.direction d).listsOwed ++ [.proxy] } := by
      rw [← htaken]
      cases d with
      | upload =>
        have hdown : s'.clip.direction .upload = m.direction .upload := down.other
        rw [hdown]
        exact up.direction
      | download =>
        have hup : m.direction .download = s.clip.taken.direction .download := up.other
        rw [← hup]
        exact down.direction
    rcases hlate with hsame | ⟨⟨f, hf⟩, hafter⟩
    · exact .kept hquiet hsame
    · exact .late event hf hafter
  | staged event clip =>
    refine .kept ?_ (by rw [clip]; exact htaken d)
    rw [event]
    exact fun hd h => by cases h

/-! ## Runs -/

open Transition

abbrev Trace := List (Entry Session Label)

/-- The runs of a clipboard session over a pool. -/
abbrev SessionRun (staging : Staging) : Trace → Session → Prop :=
  Run (fun s l s' => s.step l = some s') (Session.start staging)

/-- What an offer keeps to give to the receiver is a Format List. -/
def Phase.KeepsList (p : Phase) : Prop :=
  ∀ f, p = .fetching f → ∃ l, ClipboardPdu.ofBytes f.list.pdu = some (.formatList l)

def ListKept (s : Session) : Prop := ∀ d, (s.clip.direction d).phase.KeepsList

variable {f' : Fetch}

theorem Next.list {f : Fetch} {s : Contents} (h : Next env d f s v v') (hf' : v'.phase = .fetching f') :
    f'.list = f.list := by
  cases h with
  | ask | scan => cases hf'; rfl

theorem Move.list (h : Move env d v hd v') (hf' : v'.phase = .fetching f') :
    (∃ f, v.phase = .fetching f ∧ f'.list = f.list) ∨ ∃ l, hd = .list l f'.list := by
  cases h with
  | plainList | unhealthyList | refuseFiles | refuseContents | passVerdict | refuseVerdict => cases hf'
  | swallowList | passList | answerData | forwardData | passData | dropData | answerContents | ignoreContents
    | ignoreVerdict => exact .inl ⟨f', hf', rfl⟩
  | offer =>
    cases hf'
    exact .inr ⟨_, rfl⟩
  | acceptFiles owed waiting accepted next => exact .inl ⟨_, waiting.1, next.list hf'⟩
  | acceptContents fetches takes hs' next => exact .inl ⟨_, fetches.1, next.list hf'⟩
  | storeVerdict scans more =>
    cases hf'
    exact .inl ⟨_, scans.1, rfl⟩

theorem ListKept.step (h : ListKept s) (hstep : s.step l = some s') : ListKept s' := by
  intro d f' hf'
  rcases (Session.round hstep).seen d with ⟨heard, move⟩ | ⟨event, phase, after⟩ | ⟨quiet, same⟩
  · rcases move.list hf' with ⟨f, hf, hlist⟩ | ⟨list, rfl⟩
    · rw [hlist]
      refine h d f ?_
      rw [← hf]
      cases d <;> rfl
    · exact ⟨list, (Event.said heard).list.2⟩
  · rw [after] at hf'
    cases hf'
  · rw [same] at hf'
    exact h d f' hf'

theorem listKept {staging : Staging} {tr : Trace} (h : SessionRun staging tr s) : ListKept s := by
  refine h.invariant (fun d f hf => ?_) fun _ _ _ hk hstep => hk.step hstep
  cases d <;> cases hf

/-! ## What is written -/

/-- What a sender is told: the answer to its list, and requests. -/
def forSender : ClipboardPdu → Bool
  | .formatListResponse _ | .formatDataRequest _ | .fileContentsRequest _ => true
  | _ => false

/-- What a receiver is told: lists, and the answers to its requests. -/
def forReceiver : ClipboardPdu → Bool
  | .formatList _ | .formatDataResponse _ | .fileContentsResponse _ => true
  | _ => false

/-- What a direction has written when `hd` is heard about it, and what that rests on: `p` is its phase and `q` whom it
owes data before, `p'` is its phase after. -/
inductive Writes (env : Env) (ev : Event) (d : Dir) (hd : Heard) (p p' : Phase) (q : List Owner) : Emission → Prop
  | list {l : FormatList} {w : Whole} (event : ev = .pdu d.sender w)
      (pdu : ClipboardPdu.ofBytes w.pdu = some (.formatList l)) : Writes env ev d hd p p' q ⟨d.receiver, .passed w⟩
  | offered {f : Fetch} (fetching : p = .fetching f) : Writes env ev d hd p p' q ⟨d.receiver, .passed f.list⟩
  | emptied {us : List Bytes} (frames : env.frames (.formatList .newUnicodeEmpty) d.receiver = .ok us) :
      Writes env ev d hd p p' q ⟨d.receiver, .own (.formatList .newUnicodeEmpty) us⟩
  | listTaken {us : List Bytes} (frames : env.frames (.formatListResponse .ok) d.sender = .ok us) :
      Writes env ev d hd p p' q ⟨d.sender, .own (.formatListResponse .ok) us⟩
  | listAnswer {r : FormatListResponse} {w : Whole} (event : ev = .pdu d.receiver w)
      (pdu : ClipboardPdu.ofBytes w.pdu = some (.formatListResponse r)) :
      Writes env ev d hd p p' q ⟨d.sender, .passed w⟩
  | dataRequest {r : FormatDataRequest} {us : List Bytes}
      (frames : env.frames (.formatDataRequest r) d.sender = .ok us) :
      Writes env ev d hd p p' q ⟨d.sender, .own (.formatDataRequest r) us⟩
  | dataForwarded {r : FormatDataRequest} {w : Whole} (event : ev = .pdu d.receiver w)
      (pdu : ClipboardPdu.ofBytes w.pdu = some (.formatDataRequest r)) : Writes env ev d hd p p' q ⟨d.sender, .passed w⟩
  | dataAnswered {req : FormatDataRequest} {w : Whole} {a : FormatDataResponse} {us : List Bytes}
      (heard : hd = .dataRequest req w) (answer : Clip.dataAnswer p req = some a)
      (frames : env.frames (.formatDataResponse a) d.receiver = .ok us) :
      Writes env ev d hd p p' q ⟨d.receiver, .own (.formatDataResponse a) us⟩
  | dataPassed {a : FormatDataResponse} {w : Whole} (event : ev = .pdu d.sender w)
      (pdu : ClipboardPdu.ofBytes w.pdu = some (.formatDataResponse a)) (heard : hd = .dataAnswer a w)
      (owed : q.head? ≠ some .proxy) : Writes env ev d hd p p' q ⟨d.receiver, .passed w⟩
  | contentsRequest {r : FileContentsRequest} {us : List Bytes} {f : Fetch} {c : Contents} (fetches : p'.Fetches f c)
      (frames : env.frames (.fileContentsRequest r) d.sender = .ok us) :
      Writes env ev d hd p p' q ⟨d.sender, .own (.fileContentsRequest r) us⟩
  | contentsAnswered {req : FileContentsRequest} {us : List Bytes}
      (frames : env.frames (.fileContentsResponse (Clip.contentsAnswer p req)) d.receiver = .ok us) :
      Writes env ev d hd p p' q ⟨d.receiver, .own (.fileContentsResponse (Clip.contentsAnswer p req)) us⟩

theorem Move.writes (h : Move env d v hd v') (hv : v.out = []) (hsaid : ev.Said d hd) :
    ∀ em ∈ v'.out, Writes env ev d hd v.phase v'.phase v.dataOwed em := by
  have hone : ∀ {em}, Writes env ev d hd v.phase v'.phase v.dataOwed em → ∀ em' ∈ v.out ++ [em],
      Writes env ev d hd v.phase v'.phase v.dataOwed em' := by
    intro em h em' hem
    rw [hv] at hem
    rwa [List.mem_singleton.1 hem]
  have hnext : ∀ {f c v₁}, Next env d f c v₁ v' → v₁.out = [] → ∀ em ∈ v'.out,
      Writes env ev d hd v.phase v'.phase v.dataOwed em := by
    rintro f c v₁ (⟨_, _, _, _, frames⟩ | _) hv₁ em hem
    · obtain rfl := List.mem_singleton.1 (by simpa [hv₁] using hem)
      exact .contentsRequest ⟨rfl, rfl⟩ frames
    · simp [hv₁] at hem
  cases h with
  | plainList => exact hone (.list hsaid.list.1 hsaid.list.2)
  | unhealthyList | offer =>
    intro em hem
    simp only [View.refused, hv, List.nil_append, List.mem_append, List.mem_singleton] at hem
    rcases hem with rfl | rfl <;> constructor <;> assumption
  | passList =>
    obtain ⟨hev, r, hr⟩ := hsaid.listAnswer
    exact hone (.listAnswer hev hr)
  | answerData answer frames => exact hone (.dataAnswered rfl answer frames)
  | forwardData => exact hone (.dataForwarded hsaid.dataRequest.1 hsaid.dataRequest.2)
  | passData owed => exact hone (.dataPassed hsaid.dataAnswer.1 hsaid.dataAnswer.2 rfl owed)
  | refuseFiles _ _ _ emptied | refuseContents _ _ emptied | refuseVerdict _ _ _ emptied =>
    exact hone (.emptied emptied)
  | answerContents frames => exact hone (.contentsAnswered frames)
  | passVerdict scans => exact hone (.offered scans.1)
  | acceptFiles owed waiting accepted next => exact hnext next hv
  | acceptContents fetches takes hs' next => exact hnext next hv
  | swallowList | dropData | ignoreContents | ignoreVerdict | storeVerdict => simp [hv]

theorem Writes.roles {p p' : Phase} {q : List Owner} {em : Emission} (h : Writes env ev d hd p p' q em)
    (hlist : p.KeepsList) :
    ∃ pdu, em.body.pdu = some pdu ∧
      (em.side = d.sender ∧ forSender pdu = true ∨ em.side = d.receiver ∧ forReceiver pdu = true) := by
  cases h with
  | offered fetching =>
    obtain ⟨l, hl⟩ := hlist _ fetching
    exact ⟨_, hl, .inr ⟨rfl, rfl⟩⟩
  | list event pdu | dataPassed event pdu => exact ⟨_, pdu, .inr ⟨rfl, rfl⟩⟩
  | listAnswer event pdu | dataForwarded event pdu => exact ⟨_, pdu, .inl ⟨rfl, rfl⟩⟩
  | emptied | dataAnswered | contentsAnswered => exact ⟨_, rfl, .inr ⟨rfl, rfl⟩⟩
  | listTaken | dataRequest | contentsRequest => exact ⟨_, rfl, .inl ⟨rfl, rfl⟩⟩

/-- What a round writes: about a direction of which something is heard, about none, or for the receiver of an offer
whose time is over. -/
inductive Written (l : Label) (s s' : Session) (em : Emission) : Prop
  | about {d : Dir} {hd : Heard} (heard : l.event.heard = some (d, hd))
      (writes : Writes l.env l.event d hd (s.clip.direction d).phase (s'.clip.direction d).phase
        (s.clip.direction d).dataOwed em)
  | aside {p : ClipboardPdu} (pdu : em.body.pdu = some p) (other : forSender p = false ∧ forReceiver p = false)
      (passed : ∀ w, em.body = .passed w → l.event = .pdu em.side.other w)
      (own : ∀ p us, em.body = .own p us → l.env.frames p em.side = .ok us)
  | late {us : List Bytes} (body : em.body = .own (.formatList .newUnicodeEmpty) us)
      (frames : l.env.frames (.formatList .newUnicodeEmpty) em.side = .ok us)

theorem Round.written (h : Round l s s') : ∀ em ∈ s'.clip.out, Written l s s' em := by
  intro em hem
  cases h with
  | @heard d hd heard move frame =>
    refine .about heard ?_
    cases d <;> exact move.writes rfl (Event.said heard) em hem
  | aside event heard aside =>
    obtain ⟨hside, ⟨caps, us, hb, hus⟩ | ⟨hb, hp⟩⟩ := aside.out rfl em hem
    · refine .aside (p := .capabilities caps) (by rw [hb]; rfl) ⟨rfl, rfl⟩ (by rw [hb]; nofun) fun p us' h => ?_
      cases hb.symm.trans h
      exact hus
    · have hpassed : ∀ w, em.body = .passed w → l.event = .pdu em.side.other w := by
        intro w hw
        cases hb.symm.trans hw
        rw [event, hside, Side.other_other]
      rcases hp with hp | ⟨path, hp⟩ <;> exact .aside (by rw [hb]; exact hp) ⟨rfl, rfl⟩ hpassed (by rw [hb]; nofun)
  | deadline event up down =>
    rcases down.out em hem with hem | ⟨us, hb, hus⟩
    · rcases up.out em hem with hem | ⟨us, hb, hus⟩
      · cases hem
      · exact .late hb hus
    · exact .late hb hus
  | staged event clip =>
    rw [clip] at hem
    cases hem

/-! ## Scripted sessions -/

def sent (pdu : ClipboardPdu) : Whole := ⟨pdu.encode.getD [], []⟩

/-- A healthy scanner, no limit on files, and a router that knows the channel. -/
def scriptEnv : Env where
  now := 0
  healthy := .ok ()
  maxFileBytes := none
  scanTimeout := 10
  route := { names := some [], cliprdr := some 1005, userChannel := some 1007, serverInitiator := some 1002 }

def script (events : List Event) : List Label := events.map fun event => ⟨scriptEnv, event⟩

/-- The run in which the session meets these events. -/
def scripted (staging : Staging) (events : List Event) : Trace :=
  trace Session.step (Session.start staging) (script events)

theorem scripted_state (staging : Staging) (events : List Event) (P : Session → Bool)
    (h : (exec Session.step (Session.start staging) (script events)).any P = true) :
    ∃ s, SessionRun staging (scripted staging events) s ∧ P s = true :=
  run_of_exec _ _ _ P h

theorem scripted_run (staging : Staging) (events : List Event) (last : Event) (P : Session → Bool)
    (h : (exec Session.step (Session.start staging) (script (events ++ [last]))).any P = true) :
    ∃ s s', SessionRun staging (scripted staging events) s ∧ s.step ⟨scriptEnv, last⟩ = some s' ∧ P s' = true := by
  obtain ⟨s', hs', hP⟩ := (Option.any_eq_true ..).1 h
  rw [script, List.map_append] at hs'
  obtain ⟨s, hs, hstep⟩ := exec_snoc hs'
  exact ⟨s, s', run_trace (fun _ _ _ h => h) hs, hstep, hP⟩

def offerFile : Event := .pdu .client (sent (.formatList (.newUnicodeLong [⟨0xC0A1, some fileListName⟩])))

def listFile (name : Char) (size : Nat) : Event :=
  .pdu .client (sent (.formatDataResponse
    (.newData ((encodeFileList [⟨none, none, some size, [name], none⟩]).getD []))))

end WebAccess.Scan
