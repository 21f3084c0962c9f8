/-
Requests for clipboard data and their answers. An answer carries no identifier: an endpoint
answers in the order it is asked, and the proxy keeps a queue of whom it owes each answer to. A
ledger read off what goes in and comes out of the proxy says for each request to a sender why it
was made and for each answer to a receiver which of its requests it answers. Every round is one
entry of the ledger, and the queue is what of the ledger is pending.
-/
import WebAccess.Scan.Moves
import WebAccess.Lib.Fifo

namespace WebAccess.Scan

open Codec Wire Transition Fifo

/-! ## The ledger of a direction -/

/-- Why a sender was asked for data: for a Format List of its own, or because the receiver asked.
Lists and requests are numbered from 0 as they come in. -/
inductive Origin
  | list (n : Nat)
  | request (n : Nat)
  deriving DecidableEq

def Origin.owner : Origin → Owner
  | .list _ => .proxy
  | .request _ => .receiver

/-- The request of the receiver behind a request to the sender. -/
def Origin.request? : Origin → Option Nat
  | .list _ => none
  | .request n => some n

/-- What went in and came out for one direction: the sender's Format Lists, how many requests the
receiver made, the requests written to the sender, the sender's answers, and the answers written
to the receiver, each as the number of the request it answers. -/
structure Ledger where
  lists : List Whole := []
  requests : Nat := 0
  asked : List Origin := []
  answers : List FormatDataResponse := []
  delivered : List (Option Nat) := []

/-- A request for data to the sender of a direction. -/
def Emission.asks (d : Dir) (em : Emission) : Bool :=
  em.side = d.sender && match em.body.pdu with
    | some (.formatDataRequest _) => true
    | _ => false

/-- An answer with data to the receiver of a direction. -/
def Emission.gives (d : Dir) (em : Emission) : Bool :=
  em.side = d.receiver && match em.body.pdu with
    | some (.formatDataResponse _) => true
    | _ => false

namespace Ledger

def hear (L : Ledger) : Option Heard → Ledger
  | some (.list _ whole) => { L with lists := L.lists ++ [whole] }
  | some (.dataRequest _ _) => { L with requests := L.requests + 1 }
  | some (.dataAnswer resp _) => { L with answers := L.answers ++ [resp] }
  | _ => L

/-- Why a request was written: the proxy's own is for the Format List just heard, one passed on is
the receiver's. -/
def origin (L : Ledger) : Body → Origin
  | .own _ _ => .list L.lists.length
  | .passed _ => .request L.requests

/-- Which request an answer answers: the proxy's own the request just heard, one passed on the
request it is paired with. -/
def answering (L : Ledger) : Option Heard → Body → Option Nat
  | some (.dataRequest _ _), .own _ _ => some L.requests
  | some (.dataAnswer _ _), .passed _ => L.asked[L.answers.length]?.bind Origin.request?
  | _, _ => none

/-- The ledger after a round that heard something about the direction, or nothing, and wrote
something. -/
def book (d : Dir) (L : Ledger) (hd : Option Heard) (out : List Emission) : Ledger :=
  { L.hear hd with
    asked := L.asked ++ (out.filter (Emission.asks d)).map fun em => L.origin em.body
    delivered := L.delivered ++ (out.filter (Emission.gives d)).map fun em => L.answering hd em.body }

end Ledger

/-- The ledger of a direction over a history. -/
def ledger (d : Dir) (tr : Trace) : Ledger :=
  tr.foldl (fun L e => L.book d (e.label.event.about d) e.post.clip.out) {}

@[simp] theorem ledger_snoc (d : Dir) (tr : Trace) (e : Entry Session Label) :
    ledger d (tr ++ [e]) = (ledger d tr).book d (e.label.event.about d) e.post.clip.out := by
  simp [ledger]

/-- The sender gives no answer it was not asked for: with answers given once and in order, the
k-th answer is to the k-th request. -/
def Answering (d : Dir) (tr : Trace) : Prop :=
  ∀ n, (ledger d (tr.take n)).answers.length ≤ (ledger d (tr.take n)).asked.length

/-! ## What a phase rests on -/

/-- A descriptor, its files and a reservation all come from one answer. -/
structure Basis (resp : FormatDataResponse) (descriptor : Bytes) (files : List FileDescriptor)
    (reservation : Option Nat) : Prop where
  data : resp.data = descriptor
  read : resp.toFileList = some files
  reserved : reservation = some ((files.map FileDescriptor.size).sum % 2 ^ 64)

def Phase.listed : Phase → Bool
  | .idle => false
  | .fetching f => match f.step with
    | .descriptor => false
    | _ => true
  | .offered _ => true

/-- The file list of the phase is an answer. -/
def Phase.Uses (resp : FormatDataResponse) : Phase → Prop
  | .idle => False
  | .fetching f => match f.step with
    | .descriptor => False
    | .contents c => Basis resp c.descriptor c.files f.reservation
    | .scanning s => Basis resp s.descriptor s.files f.reservation
  | .offered o => ∃ files, Basis resp o.descriptor files o.reservation

/-- A later phase of the same offer, with the same file list. -/
structure Phase.Continues (p p' : Phase) : Prop where
  listed : p.listed = true
  uses : ∀ resp, p.Uses resp → p'.Uses resp
  list : ∀ f', p' = .fetching f' → ∃ f, p = .fetching f ∧ f'.list = f.list

variable {p : Phase} {f : Fetch} {c : Contents} {resp : FormatDataResponse} {env : Env} {d : Dir} {v v' : View}
  {P : Trace → Prop} {tr : Trace}

theorem Phase.Waiting.not_listed (h : p.Waiting f) : p.listed = false := by
  rw [h.1]
  simp [Phase.listed, h.2]

theorem Phase.Fetches.uses (h : p.Fetches f c) : p.Uses resp ↔ Basis resp c.descriptor c.files f.reservation := by
  rw [h.1]
  simp [Phase.Uses, h.2]

theorem Phase.Scans.uses {c : Scanning} (h : p.Scans f c) :
    p.Uses resp ↔ Basis resp c.descriptor c.files f.reservation := by
  rw [h.1]
  simp [Phase.Uses, h.2]

theorem Phase.Fetches.listed (h : p.Fetches f c) : p.listed = true := by
  rw [h.1]
  simp [Phase.listed, h.2]

theorem Phase.Scans.listed {c : Scanning} (h : p.Scans f c) : p.listed = true := by
  rw [h.1]
  simp [Phase.listed, h.2]

theorem Phase.Fetches.fetchFiles (h : p.Fetches f c) : Clip.fetchFiles p = c.files := by
  obtain ⟨rfl, hs⟩ := h
  obtain ⟨g, l, fl, st, dl, r⟩ := f
  cases hs
  rfl

theorem Phase.Scans.fetchFiles {c : Scanning} (h : p.Scans f c) : Clip.fetchFiles p = c.files := by
  obtain ⟨rfl, hs⟩ := h
  obtain ⟨g, l, fl, st, dl, r⟩ := f
  cases hs
  rfl

/-- What a round does to the queue and the phase of a direction, and to its ledger. -/
inductive Booked (hd : Option Heard) (p p' : Phase) (q q' : List Owner) (L : Ledger) : Ledger → Prop
  | list {whole : Whole} (phase : p' = .idle) (owed : q' = q) :
      Booked hd p p' q q' L { L with lists := L.lists ++ [whole] }
  | offer {whole : Whole} {f : Fetch} (phase : p'.Waiting f) (list : f.list = whole)
      (owed : q' = q ++ [.proxy]) :
      Booked hd p p' q q' L { L with
        lists := L.lists ++ [whole]
        asked := L.asked ++ [.list L.lists.length] }
  | answered {req : FormatDataRequest} {whole : Whole} (heard : hd = some (.dataRequest req whole))
      (answer : Clip.dataAnswer p req ≠ none) (phase : p' = p) (owed : q' = q) :
      Booked hd p p' q q' L { L with
        requests := L.requests + 1
        delivered := L.delivered ++ [some L.requests] }
  | forwarded (phase : p' = p) (owed : q' = q ++ [.receiver]) :
      Booked hd p p' q q' L { L with
        requests := L.requests + 1
        asked := L.asked ++ [.request L.requests] }
  | passed {resp : FormatDataResponse} (head : q.head? ≠ some .proxy) (phase : p' = p)
      (owed : q' = q.tail) :
      Booked hd p p' q q' L { L with
        answers := L.answers ++ [resp]
        delivered := L.delivered ++ [L.asked[L.answers.length]?.bind Origin.request?] }
  | dropped {resp : FormatDataResponse} {rest : List Owner} (head : q = .proxy :: rest)
      (waiting : ∀ f, ¬ p.Waiting f) (phase : p' = p) (owed : q' = rest) :
      Booked hd p p' q q' L { L with answers := L.answers ++ [resp] }
  | used {resp : FormatDataResponse} {whole : Whole} {rest : List Owner} {f : Fetch}
      (heard : hd = some (.dataAnswer resp whole)) (head : q = .proxy :: rest) (waiting : p.Waiting f)
      (phase : p' = .idle ∨ p'.Uses resp ∧ ∃ f', p' = .fetching f' ∧ f'.list = f.list)
      (owed : q' = rest) :
      Booked hd p p' q q' L { L with answers := L.answers ++ [resp] }
  | quiet (phase : p' = p ∨ p' = .idle ∨ p.Continues p')
      (owed : q' = q) : Booked hd p p' q q' L L

theorem Next.uses (h : Next env d f c v v') (hb : Basis resp c.descriptor c.files f.reservation) :
    v'.phase.Uses resp := by
  cases h with
  | ask | scan => exact hb

theorem Next.dataOwed (h : Next env d f c v v') : v'.dataOwed = v.dataOwed := by
  cases h <;> rfl

theorem Next.fetching (h : Next env d f c v v') : ∃ f', v'.phase = .fetching f' ∧ f'.list = f.list := by
  cases h with
  | ask | scan => exact ⟨_, rfl, rfl⟩

theorem Next.silent {d' : Dir} (h : Next env d f c v v') (hv : v.out = []) :
    ∀ em ∈ v'.out, em.asks d' = false ∧ em.gives d' = false := by
  cases h with
  | ask => simp [hv, Emission.asks, Emission.gives, Body.pdu]
  | scan => simp [hv]

/-- A round that neither asks nor answers books what it heard. -/
theorem Ledger.book_of_silent {L : Ledger} {hd : Option Heard} {out : List Emission}
    (h : ∀ em ∈ out, em.asks d = false ∧ em.gives d = false) : L.book d hd out = L.hear hd := by
  have hasks : out.filter (Emission.asks d) = [] := List.filter_eq_nil_iff.2 fun em hem => by simp [(h em hem).1]
  have hgives : out.filter (Emission.gives d) = [] := List.filter_eq_nil_iff.2 fun em hem => by simp [(h em hem).2]
  unfold Ledger.book
  rw [hasks, hgives]
  cases hd with
  | none => simp [Ledger.hear]
  | some hd => cases hd <;> simp [Ledger.hear]

open Ledger (book_of_silent) in
theorem Move.booked {hd : Heard} {ev : Event} {L : Ledger} (h : Move env d v hd v') (hv : v.out = [])
    (hsaid : ev.Said d hd) (hlist : v.phase.KeepsList) :
    Booked (some hd) v.phase v'.phase v.dataOwed v'.dataOwed L (L.book d (some hd) v'.out) := by
  cases h with
  | plainList =>
    rw [book_of_silent (by simp [hv, Emission.asks, Emission.gives, Body.pdu, hsaid.list.2])]
    exact .list rfl rfl
  | unhealthyList =>
    rw [book_of_silent (by simp [hv, View.refused, Emission.asks, Emission.gives, Body.pdu])]
    exact .list rfl rfl
  | offer =>
    have hbook : ∀ w us us' fl ls, L.book d (some (.list ls w)) (v.out ++
        [⟨d.sender, .own (.formatListResponse .ok) us⟩] ++ [⟨d.sender, .own (.formatDataRequest ⟨fl⟩) us'⟩]) =
        { L with lists := L.lists ++ [w], asked := L.asked ++ [.list L.lists.length] } := by
      intros
      simp [Ledger.book, Ledger.hear, hv, Emission.asks, Emission.gives, Body.pdu, Ledger.origin]
    rw [hbook]
    exact .offer ⟨rfl, rfl⟩ rfl rfl
  | swallowList | ignoreContents | ignoreVerdict =>
    rw [book_of_silent (by simp [hv])]
    exact .quiet (.inl rfl) rfl
  | passList =>
    obtain ⟨r, hr⟩ := hsaid.listAnswer.2
    rw [book_of_silent (by simp [hv, Emission.asks, Emission.gives, Body.pdu, hr])]
    exact .quiet (.inl rfl) rfl
  | answerData answer =>
    have hbook : ∀ req w a us, L.book d (some (.dataRequest req w))
        (v.out ++ [⟨d.receiver, .own (.formatDataResponse a) us⟩]) =
        { L with requests := L.requests + 1, delivered := L.delivered ++ [some L.requests] } := by
      intros
      simp [Ledger.book, Ledger.hear, hv, Emission.asks, Emission.gives, Body.pdu, Ledger.answering]
    rw [hbook]
    exact .answered rfl (by rw [answer]; simp) rfl rfl
  | forwardData =>
    simp only [hv, List.nil_append]
    have hbook : ∀ req w, ClipboardPdu.ofBytes w.pdu = some (.formatDataRequest req) →
        L.book d (some (.dataRequest req w)) [⟨d.sender, .passed w⟩] =
        { L with requests := L.requests + 1, asked := L.asked ++ [.request L.requests] } := by
      intro req w hw
      simp [Ledger.book, Ledger.hear, Emission.asks, Emission.gives, Body.pdu, Ledger.origin, hw]
    rw [hbook _ _ hsaid.dataRequest.2]
    exact .forwarded rfl rfl
  | passData owed =>
    simp only [hv, List.nil_append]
    have hbook : ∀ resp w, ClipboardPdu.ofBytes w.pdu = some (.formatDataResponse resp) →
        L.book d (some (.dataAnswer resp w)) [⟨d.receiver, .passed w⟩] =
        { L with
          answers := L.answers ++ [resp]
          delivered := L.delivered ++ [L.asked[L.answers.length]?.bind Origin.request?] } := by
      intro req w hw
      simp [Ledger.book, Ledger.hear, Emission.asks, Emission.gives, Body.pdu, Ledger.answering, hw]
    rw [hbook _ _ hsaid.dataAnswer.2]
    exact .passed owed rfl rfl
  | dropData owed waiting =>
    rw [book_of_silent (by simp [hv])]
    exact .dropped owed waiting rfl rfl
  | refuseFiles owed waiting refused =>
    rw [book_of_silent (by simp [hv, View.refused, Emission.asks, Emission.gives, Body.pdu])]
    exact .used rfl owed waiting (.inl rfl) rfl
  | acceptFiles owed waiting accepted next =>
    rw [book_of_silent (next.silent hv)]
    have hacc := Clip.listing_accepted accepted
    exact .used rfl owed waiting (.inr ⟨next.uses ⟨rfl, hacc.read, rfl⟩, next.fetching⟩) next.dataOwed
  | answerContents =>
    rw [book_of_silent (by simp [hv, Emission.asks, Emission.gives, Body.pdu])]
    exact .quiet (.inl rfl) rfl
  | refuseContents | refuseVerdict =>
    rw [book_of_silent (by simp [hv, View.refused, Emission.asks, Emission.gives, Body.pdu])]
    exact .quiet (.inr (.inl rfl)) rfl
  | @acceptContents resp f s s' file held _ fetches takes hs' next =>
    rw [book_of_silent (next.silent hv)]
    refine .quiet (.inr (.inr ⟨fetches.listed, ?_, ?_⟩)) next.dataOwed
    · intro resp hu
      exact next.uses (by rw [hs']; exact fetches.uses.1 hu)
    · intro f' hf'
      exact ⟨f, fetches.1, next.list hf'⟩
  | storeVerdict scans more =>
    rw [book_of_silent (by simp [hv])]
    refine .quiet (.inr (.inr ⟨scans.listed, fun resp hu => scans.uses.1 hu, ?_⟩)) rfl
    rintro f' ⟨⟩
    exact ⟨_, scans.1, rfl⟩
  | passVerdict scans =>
    obtain ⟨l, hl⟩ := hlist _ scans.1
    rw [book_of_silent (by simp [hv, Emission.asks, Emission.gives, Body.pdu, hl])]
    refine .quiet (.inr (.inr ⟨scans.listed, fun resp hu => ⟨_, scans.uses.1 hu⟩, ?_⟩)) rfl
    rintro f' ⟨⟩

section Rounds

variable {d : Dir} {s s' : Session} {l : Label} {L : Ledger}

theorem forSender_of_forReceiver {p : ClipboardPdu} (h : forReceiver p = true) : forSender p = false := by
  cases p <;> first | rfl | cases h

/-- A round about something else has nothing for the sender of a direction, and for its receiver at
most the empty list of a refusal. -/
theorem Round.unrelated (h : Round l s s') (hlist : ListKept s) (hquiet : ∀ hd, l.event.heard ≠ some (d, hd)) :
    ∀ em ∈ s'.clip.out, ∀ p, em.body.pdu = some p → (em.side = d.sender → forSender p = false) ∧
      (em.side = d.receiver → forReceiver p = true → p = .formatList .newUnicodeEmpty) := by
  intro em hem p hp
  cases h.written em hem with
  | @about d' hd heard writes =>
    have hd' : d' ≠ d := by
      rintro rfl
      exact hquiet hd heard
    obtain rfl := Dir.eq_other_of_ne (Ne.symm hd')
    obtain ⟨p', hp', hroles⟩ := writes.roles (hlist d')
    cases hp.symm.trans hp'
    rw [Dir.sender_other, Dir.receiver_other]
    rcases hroles with ⟨hside, hrole⟩ | ⟨hside, hrole⟩
    · rw [hside]
      refine ⟨fun h => absurd h (Dir.sender_ne_receiver d'), fun _ hr => ?_⟩
      cases hrole.symm.trans (forSender_of_forReceiver hr)
    · rw [hside]
      exact ⟨fun _ => forSender_of_forReceiver hrole, fun h => absurd h (Dir.receiver_ne_sender d')⟩
  | aside pdu other =>
    cases hp.symm.trans pdu
    exact ⟨fun _ => other.1, fun _ hr => by rw [other.2] at hr; cases hr⟩
  | late body =>
    rw [body] at hp
    cases hp
    exact ⟨fun _ => rfl, fun _ _ => rfl⟩

theorem Round.silent (h : Round l s s') (hlist : ListKept s) (hquiet : ∀ hd, l.event.heard ≠ some (d, hd)) :
    ∀ em ∈ s'.clip.out, em.asks d = false ∧ em.gives d = false := by
  intro em hem
  have hunrelated := h.unrelated hlist hquiet em hem
  constructor
  · rw [Bool.eq_false_iff]
    intro hasks
    obtain ⟨hside, hpdu⟩ := Bool.and_eq_true_iff.1 hasks
    split at hpdu
    · rename_i hp
      cases (hunrelated _ hp).1 (of_decide_eq_true hside)
    · cases hpdu
  · rw [Bool.eq_false_iff]
    intro hgives
    obtain ⟨hside, hpdu⟩ := Bool.and_eq_true_iff.1 hgives
    split at hpdu
    · rename_i hp
      cases (hunrelated _ hp).2 (of_decide_eq_true hside) rfl
    · cases hpdu

theorem Round.booked (h : Round l s s') (hlist : ListKept s) (d : Dir) :
    Booked (l.event.about d) (s.clip.direction d).phase (s'.clip.direction d).phase
      (s.clip.direction d).dataOwed (s'.clip.direction d).dataOwed L
      (L.book d (l.event.about d) s'.clip.out) := by
  have hnone : (∀ hd, l.event.heard ≠ some (d, hd)) → L.book d (l.event.about d) s'.clip.out = L := by
    intro hquiet
    rw [Event.about_eq_none hquiet, Ledger.book_of_silent (h.silent hlist hquiet)]
    rfl
  rcases h.seen d with ⟨heard, move⟩ | ⟨event, phase, after⟩ | ⟨quiet, same⟩
  · have hphase := s.clip.phase_taken d
    have howed := s.clip.dataOwed_taken d
    rw [Event.about_eq heard, ← hphase, ← howed]
    exact move.booked rfl (Event.said heard) (by rw [hphase]; exact hlist d)
  · rw [hnone (by rw [event]; exact fun hd h => by cases h), after]
    exact .quiet (.inr (.inl rfl)) rfl
  · rw [hnone quiet, same]
    exact .quiet (.inl rfl) rfl

end Rounds

/-! ## The queue is what is pending -/

/-- The queue of owed answers is the pending part of the ledger. -/
structure Kept (L : Ledger) (q : List Owner) : Prop where
  answered : L.answers.length ≤ L.asked.length
  owed : q = (pending L.asked L.answers).map Origin.owner

section Queue

variable {hd : Option Heard} {p p' : Phase} {q q' : List Owner} {L L' : Ledger}

variable {o : Owner} {rest : List Owner}

theorem Kept.cons (h : Kept L q) (hq : q = o :: rest) :
    ∃ a r, pending L.asked L.answers = a :: r ∧ a.owner = o ∧ r.map Origin.owner = rest := by
  obtain ⟨a, r, hr, ha, hrest⟩ := List.map_eq_cons_iff.1 (h.owed.symm.trans hq)
  exact ⟨a, r, hr, ha, hrest⟩

theorem Kept.answer (h : Kept L q) (hq : q = o :: rest) (resp : FormatDataResponse) (delivered : List (Option Nat)) :
    Kept { L with answers := L.answers ++ [resp], delivered := delivered } rest := by
  obtain ⟨a, r, hr, -, rfl⟩ := h.cons hq
  refine ⟨?_, by rw [pending_answer hr]⟩
  have hlt := length_of_pending_cons hr
  simp only [List.length_append, List.length_singleton]
  omega

theorem Booked.kept (h : Booked hd p p' q q' L L') (hk : Kept L q) (hans : L'.answers.length ≤ L'.asked.length) :
    Kept L' q' := by
  cases h with
  | list phase owed => exact ⟨hk.answered, owed.trans hk.owed⟩
  | offer phase list owed | forwarded phase owed =>
    exact ⟨hans, by rw [owed, hk.owed, pending_ask hk.answered, List.map_append]; rfl⟩
  | answered heard answer phase owed => exact ⟨hk.answered, owed.trans hk.owed⟩
  | passed head phase owed =>
    obtain ⟨a, r, hr⟩ := pending_cons_of_asked hans
    have hq : q = a.owner :: r.map Origin.owner := by rw [hk.owed, hr]; rfl
    rw [owed, hq]
    exact hk.answer hq _ _
  | dropped head waiting phase owed | used heard head waiting phase owed => rw [owed]; exact hk.answer head _ _
  | quiet phase owed => exact ⟨hk.answered, owed.trans hk.owed⟩

end Queue

theorem forall_take_of_append {tr' : Trace} (h : ∀ n, P ((tr ++ tr').take n)) : ∀ n, P (tr.take n) := by
  intro n
  have hn := h (min n tr.length)
  rw [List.take_append_of_le_length (Nat.min_le_right ..)] at hn
  by_cases hle : n ≤ tr.length
  · rwa [Nat.min_eq_left hle] at hn
  · rw [Nat.min_eq_right (Nat.le_of_not_le hle), List.take_length] at hn
    rwa [List.take_of_length_le (Nat.le_of_not_le hle)]

variable {e : Entry Session Label} {s : Session}

/-- What holds of every part of a history from its start holds of the whole, and of every part of
what was before its last entry. -/
theorem forall_take_snoc (h : ∀ n, P ((tr ++ [e]).take n)) : (∀ n, P (tr.take n)) ∧ P (tr ++ [e]) := by
  have hn := h (tr ++ [e]).length
  rw [List.take_length] at hn
  exact ⟨forall_take_of_append h, hn⟩

theorem forall_take_of_all [DecidablePred P]
    (h : ((List.range (tr.length + 1)).all fun n => decide (P (tr.take n))) = true) : ∀ n, P (tr.take n) := by
  have hle : ∀ n ≤ tr.length, P (tr.take n) := by
    intro n hn
    exact of_decide_eq_true (List.all_eq_true.1 h n (List.mem_range.2 (Nat.lt_succ_of_le hn)))
  intro n
  rcases Nat.le_total n tr.length with hn | hn
  · exact hle n hn
  · have hend := hle tr.length le_rfl
    rw [List.take_length] at hend
    rwa [List.take_of_length_le hn]

theorem answering_of_all
    (h : ((List.range (tr.length + 1)).all fun n =>
      decide ((ledger d (tr.take n)).answers.length ≤ (ledger d (tr.take n)).asked.length)) = true) :
    Answering d tr :=
  forall_take_of_all (P := fun tr => (ledger d tr).answers.length ≤ (ledger d tr).asked.length) h

theorem Answering.snoc (h : Answering d (tr ++ [e])) :
    Answering d tr ∧ (ledger d (tr ++ [e])).answers.length ≤ (ledger d (tr ++ [e])).asked.length :=
  forall_take_snoc (P := fun tr => (ledger d tr).answers.length ≤ (ledger d tr).asked.length) h

theorem Answering.first {tr₁ tr₂ : Trace} (h : Answering d tr) (htr : tr = tr₁ ++ tr₂) : Answering d tr₁ :=
  forall_take_of_append (P := fun tr => (ledger d tr).answers.length ≤ (ledger d tr).asked.length) (htr ▸ h)

theorem kept {staging : Staging} (hrun : SessionRun staging tr s) (hans : Answering d tr) :
    Kept (ledger d tr) (s.clip.direction d).dataOwed := by
  refine hrun.history ?_ ?_ hans
  · intro _
    have howed : ((Session.start staging).clip.direction d).dataOwed = [] := by cases d <;> rfl
    exact ⟨le_rfl, howed⟩
  · intro tr s l s' hrun ih hstep hans
    obtain ⟨hans₁, hans₂⟩ := hans.snoc
    rw [ledger_snoc] at hans₂ ⊢
    exact ((Session.round hstep).booked (listKept hrun) d).kept (ih hans₁) hans₂

/-! ## What a receiver is given -/

/-- Clipboard data for a receiver: the proxy's own answer, from the phase, to a request just heard,
or an answer of the sender's that is not owed to the proxy. -/
inductive Gives (hd : Option Heard) (p : Phase) (q : List Owner) (a : FormatDataResponse) : Body → Prop
  | own {req : FormatDataRequest} {w : Whole} {us : List Bytes} (heard : hd = some (.dataRequest req w))
      (answer : Clip.dataAnswer p req = some a) : Gives hd p q a (.own (.formatDataResponse a) us)
  | passed {w : Whole} (heard : hd = some (.dataAnswer a w)) (head : q.head? ≠ some .proxy) :
      Gives hd p q a (.passed w)

theorem Round.gives {l : Label} {s' : Session} (h : Round l s s') (hlist : ListKept s) (d : Dir) :
    ∀ em ∈ s'.clip.out, ∀ a, em.side = d.receiver → em.body.pdu = some (.formatDataResponse a) →
      Gives (l.event.about d) (s.clip.direction d).phase (s.clip.direction d).dataOwed a em.body := by
  intro em hem a hside ha
  cases h.written em hem with
  | @about d' hd heard writes =>
    have hgives : em.side = d'.receiver ∧
        Gives (some hd) (s.clip.direction d').phase (s.clip.direction d').dataOwed a em.body := by
      cases writes with
      | dataAnswered heard answer =>
        cases ha
        exact ⟨rfl, .own (by rw [heard]) answer⟩
      | dataPassed event pdu heard owed =>
        cases pdu.symm.trans ha
        exact ⟨rfl, .passed (by rw [heard]) owed⟩
      | offered fetching =>
        obtain ⟨l, hl⟩ := hlist _ _ fetching
        cases hl.symm.trans ha
      | list event pdu | listAnswer event pdu | dataForwarded event pdu => cases pdu.symm.trans ha
      | _ => cases ha
    obtain ⟨hside', hg⟩ := hgives
    obtain rfl : d' = d := by
      rw [hside] at hside'
      cases d <;> cases d' <;> first | rfl | cases hside'
    rwa [Event.about_eq heard]
  | aside pdu other =>
    cases pdu.symm.trans ha
    cases other.2
  | late body =>
    rw [body] at ha
    cases ha

theorem Clip.dataAnswer_cases {req : FormatDataRequest} {a : FormatDataResponse} (h : Clip.dataAnswer p req = some a) :
    a = .newError ∨ ∃ o, p = .offered o ∧ a = .newData o.descriptor := by
  unfold Clip.dataAnswer at h
  split at h
  · split at h
    · cases h
      exact .inr ⟨_, rfl, rfl⟩
    · cases h
  · cases h
    exact .inl rfl
  · cases h

end WebAccess.Scan
