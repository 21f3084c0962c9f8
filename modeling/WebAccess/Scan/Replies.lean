/-
Answers go to whoever asked. An endpoint answers Format Lists and Format Data Requests in the order
it gets them, so whose an answer is follows from its place. Beside the ledger of requests there is
one of lists: those a receiver was given, each the sender's own or the proxy's (an empty list, or
the list of an offer that has passed), and the answers to them. Every round is one entry of it, the
queue of lists owed is what of it is pending, and a sender has been answered for every list but
those still with the receiver.
-/
import WebAccess.Scan.Outcomes
import WebAccess.Scan.StoreForward

namespace WebAccess.Scan

open Codec Wire Transition Fifo

/-! ## The ledger of lists -/

/-- What went in and came out for the lists of one direction: how many the sender gave, those the
receiver was given, by whom its answer is awaited, its answers, and how many answers the sender got. -/
structure ListLedger where
  lists : Nat := 0
  given : List Owner := []
  answers : List Whole := []
  told : Nat := 0

/-- Who awaits the answer to a list that is given to the receiver: the sender, when the list has
just come from it, else the proxy. -/
def listOwner : Option Heard → Body → Owner
  | some (.list ..), .passed _ => .receiver
  | _, _ => .proxy

def Emission.answersList (d : Dir) (em : Emission) : Bool :=
  em.side = d.sender && match em.body.pdu with
    | some (.formatListResponse _) => true
    | _ => false

namespace ListLedger

def hear (L : ListLedger) : Option Heard → ListLedger
  | some (.list ..) => { L with lists := L.lists + 1 }
  | some (.listAnswer whole) => { L with answers := L.answers ++ [whole] }
  | _ => L

def book (d : Dir) (L : ListLedger) (hd : Option Heard) (c : Clip) : ListLedger :=
  { L.hear hd with
    given := L.given ++ (c.listsTo d).map (listOwner hd)
    told := L.told + c.out.countP (Emission.answersList d) }

end ListLedger

/-- The ledger of lists of a direction over a history. -/
def listLedger (d : Dir) (tr : Trace) : ListLedger :=
  tr.foldl (fun L e => L.book d (e.label.event.about d) e.post.clip) {}

@[simp] theorem listLedger_snoc (d : Dir) (tr : Trace) (e : Entry Session Label) :
    listLedger d (tr ++ [e]) = (listLedger d tr).book d (e.label.event.about d) e.post.clip := by
  simp [listLedger]

/-- The receiver gives no answer to a list it was not given: with answers given once and in order,
the k-th answer is to the k-th list. -/
def ListAnswering (d : Dir) (tr : Trace) : Prop :=
  ∀ n, (listLedger d (tr.take n)).answers.length ≤ (listLedger d (tr.take n)).given.length

/-- What a round does to the queue of lists owed, and to the ledger of lists. -/
inductive ListBooked (hd : Option Heard) (q : List Owner) (L : ListLedger) : List Owner → ListLedger → Prop
  | plain : ListBooked hd q L (q ++ [.receiver])
      { L with lists := L.lists + 1, given := L.given ++ [.receiver] }
  | unhealthy : ListBooked hd q L (q ++ [.proxy])
      { L with lists := L.lists + 1, given := L.given ++ [.proxy], told := L.told + 1 }
  | offer : ListBooked hd q L q { L with lists := L.lists + 1, told := L.told + 1 }
  | swallowed {whole : Whole} {rest : List Owner} (owed : q = .proxy :: rest) :
      ListBooked hd q L rest { L with answers := L.answers ++ [whole] }
  | passed {whole : Whole} (owed : q.head? ≠ some .proxy) :
      ListBooked hd q L q.tail { L with answers := L.answers ++ [whole], told := L.told + 1 }
  | given : ListBooked hd q L (q ++ [.proxy]) { L with given := L.given ++ [.proxy] }
  | quiet : ListBooked hd q L q L

section Rounds

variable {env : Env} {d : Dir} {v v' : View} {hd : Heard} {ev : Event} {L : ListLedger}

variable {f : Fetch} {c : Contents}

theorem Next.listsOwed (h : Next env d f c v v') : v'.listsOwed = v.listsOwed := by
  cases h <;> rfl

theorem Next.noListAnswer (h : Next env d f c v v') (hv : v.out = []) : v'.out.countP (Emission.answersList d) = 0 := by
  cases h <;> simp [hv, Emission.answersList, Body.pdu]

def View.listBook (d : Dir) (L : ListLedger) (hd : Option Heard) (v : View) : ListLedger :=
  { L.hear hd with
    given := L.given ++
      ((v.out.filter fun em => em.side = d.receiver ∧ em.body.isList).map Emission.body).map (listOwner hd)
    told := L.told + v.out.countP (Emission.answersList d) }

theorem Move.listBooked (h : Move env d v hd v') (hv : v.out = []) (hsaid : ev.Said d hd)
    (hlist : v.phase.KeepsList) :
    ListBooked (some hd) v.listsOwed L v'.listsOwed (v'.listBook d L (some hd)) := by
  have hgiven : ∀ {b : Body} {n : Nat} {q' : List Owner},
      (v'.out.filter fun em => em.side = d.receiver ∧ em.body.isList).map Emission.body = [b] →
      v'.out.countP (Emission.answersList d) = n → v'.listsOwed = q' →
      ListBooked (some hd) v.listsOwed L q' { L.hear (some hd) with
        given := L.given ++ [listOwner (some hd) b]
        told := L.told + n } →
      ListBooked (some hd) v.listsOwed L v'.listsOwed (v'.listBook d L (some hd)) := by
    rintro b n q' hls rfl hq hb
    rw [View.listBook, hls, hq]
    exact hb
  have hnone : ∀ {n : Nat} {q' : List Owner},
      (v'.out.filter fun em => em.side = d.receiver ∧ em.body.isList) = [] →
      v'.out.countP (Emission.answersList d) = n → v'.listsOwed = q' →
      ListBooked (some hd) v.listsOwed L q' { L.hear (some hd) with given := L.given, told := L.told + n } →
      ListBooked (some hd) v.listsOwed L v'.listsOwed (v'.listBook d L (some hd)) := by
    rintro n q' hls rfl hq hb
    rw [View.listBook, hls, hq, List.map_nil, List.map_nil, List.append_nil]
    exact hb
  cases h with
  | @plainList list whole format =>
    refine hgiven (b := .passed whole) (n := 0) ?_ ?_ rfl .plain
    · simp [hv, Body.isList, Body.pdu, hsaid.list.2]
    · simp [hv, Emission.answersList]
  | @unhealthyList list whole fileList why us us' format unhealthy =>
    refine hgiven (b := .own (.formatList .newUnicodeEmpty) us') (n := 1) ?_ ?_ rfl .unhealthy
    · simp [hv, View.refused, Body.isList, Body.pdu]
    · simp [hv, View.refused, Emission.answersList, Body.pdu]
  | offer =>
    exact hnone (n := 1) (by simp [hv]) (by simp [hv, Emission.answersList, Body.pdu]) rfl .offer
  | swallowList owed => exact hnone (n := 0) (by simp [hv]) (by simp [hv]) rfl (.swallowed owed)
  | passList owed =>
    obtain ⟨r, hr⟩ := hsaid.listAnswer.2
    exact hnone (n := 1) (by simp [hv]) (by simp [hv, Emission.answersList, Body.pdu, hr]) rfl (.passed owed)
  | @refuseFiles _ _ _ _ _ _ us | @refuseContents _ _ _ _ us | @refuseVerdict _ _ _ _ us =>
    refine hgiven (b := .own (.formatList .newUnicodeEmpty) us) (n := 0) ?_ ?_ rfl .given
    · simp [hv, View.refused, Body.isList, Body.pdu]
    · simp [hv, View.refused, Emission.answersList]
  | @passVerdict _ _ f _ scans all clean =>
    obtain ⟨l, hl⟩ := hlist _ scans.1
    refine hgiven (b := .passed f.list) (n := 0) ?_ ?_ rfl .given
    · simp [hv, Body.isList, Body.pdu, hl]
    · simp [hv, Emission.answersList]
  | acceptFiles owed waiting accepted next => exact hnone (next.lists hv) (next.noListAnswer hv) next.listsOwed .quiet
  | acceptContents fetches takes hs' next => exact hnone (next.lists hv) (next.noListAnswer hv) next.listsOwed .quiet
  | forwardData =>
    refine hnone (n := 0) (by simp [hv]) ?_ rfl .quiet
    simp [hv, Emission.answersList, Body.pdu, hsaid.dataRequest.2]
  | passData =>
    refine hnone (n := 0) ?_ (by simp [hv, Emission.answersList]) rfl .quiet
    simp [hv, Body.isList, Body.pdu, hsaid.dataAnswer.2]
  | answerData | answerContents =>
    refine hnone (n := 0) ?_ (by simp [hv, Emission.answersList]) rfl .quiet
    simp [hv, Body.isList, Body.pdu]
  | dropData | ignoreContents | ignoreVerdict | storeVerdict =>
    exact hnone (n := 0) (by simp [hv]) (by simp [hv]) rfl .quiet

theorem Round.listBooked {l : Label} {s s' : Session} (h : Round l s s') (hlist : ListKept s) (d : Dir) :
    ListBooked (l.event.about d) (s.clip.direction d).listsOwed L (s'.clip.direction d).listsOwed
      (L.book d (l.event.about d) s'.clip) := by
  have htold := h.told hlist d
  have hnone : (∀ hd, l.event.heard ≠ some (d, hd)) → s'.clip.out.countP (Emission.answersList d) = 0 := by
    intro hquiet
    rw [List.countP_eq_zero]
    intro em hem hans
    obtain ⟨hside, hpdu⟩ := Bool.and_eq_true_iff.1 hans
    split at hpdu
    · rename_i hp
      cases (h.unrelated hlist hquiet em hem _ hp).1 (of_decide_eq_true hside)
    · cases hpdu
  rcases h.seen d with ⟨heard, move⟩ | ⟨event, phase, after⟩ | ⟨quiet, same⟩
  · have hphase := s.clip.phase_taken d
    have howed := s.clip.listsOwed_taken d
    rw [Event.about_eq heard, ← howed]
    exact move.listBooked rfl (Event.said heard) (by rw [hphase]; exact hlist d)
  · have hquiet : ∀ hd, l.event.heard ≠ some (d, hd) := by
      rw [event]
      exact fun hd h => by cases h
    rw [Event.about_eq_none hquiet] at htold ⊢
    obtain ⟨hp, -⟩ | ⟨f, us, -, -, hls⟩ := htold.of_none
    · rw [after, phase] at hp
      cases hp
    · rw [ListLedger.book, hls, hnone hquiet, after]
      exact .given
  · rw [Event.about_eq_none quiet] at htold ⊢
    obtain ⟨-, -, hls⟩ | ⟨f, us, hp, hp', -⟩ := htold.of_none
    · rw [ListLedger.book, hls, hnone quiet, same, List.map_nil, List.append_nil]
      exact .quiet
    · rw [same, hp] at hp'
      cases hp'

end Rounds

/-! ## The queue is what is pending -/

/-- The queue of lists owed is the pending part of the ledger, and a sender has been answered for
every list but those still with the receiver. -/
structure ListsKept (L : ListLedger) (q : List Owner) : Prop where
  answered : L.answers.length ≤ L.given.length
  owed : q = pending L.given L.answers
  told : L.told + q.count .receiver = L.lists

theorem ListBooked.kept {hd : Option Heard} {q q' : List Owner} {L L' : ListLedger} (h : ListBooked hd q L q' L')
    (hk : ListsKept L q) (hans : L'.answers.length ≤ L'.given.length) : ListsKept L' q' := by
  have htold := hk.told
  cases h with
  | plain | unhealthy | given =>
    refine ⟨hans, by rw [hk.owed, pending_ask hk.answered], ?_⟩
    rw [List.count_append, List.count_singleton]
    simp
    omega
  | offer => exact ⟨hans, hk.owed, (Nat.add_right_comm ..).trans (congrArg (· + 1) htold)⟩
  | swallowed owed =>
    refine ⟨hans, ?_, ?_⟩
    · rw [pending_answer (hk.owed.symm.trans owed)]
    · rw [owed] at htold
      simpa using htold
  | passed owed =>
    obtain ⟨a, r, hr⟩ := pending_cons_of_asked hans
    have hq : q = a :: r := hk.owed.trans hr
    have ha : a = .receiver := by
      cases a with
      | receiver => rfl
      | proxy => exact absurd (congrArg List.head? hq) owed
    subst ha
    refine ⟨hans, by rw [hq, List.tail_cons, pending_answer hr], ?_⟩
    rw [hq, List.count_cons_self] at htold
    rw [hq, List.tail_cons]
    exact (Nat.add_right_comm ..).trans htold
  | quiet => exact hk

variable {d : Dir} {tr : Trace}

theorem ListAnswering.snoc {e : Entry Session Label} (h : ListAnswering d (tr ++ [e])) :
    ListAnswering d tr ∧ (listLedger d (tr ++ [e])).answers.length ≤ (listLedger d (tr ++ [e])).given.length :=
  forall_take_snoc (P := fun tr => (listLedger d tr).answers.length ≤ (listLedger d tr).given.length) h

theorem ListAnswering.first {tr₁ tr₂ : Trace} (h : ListAnswering d tr) (htr : tr = tr₁ ++ tr₂) : ListAnswering d tr₁ :=
  forall_take_of_append (P := fun tr => (listLedger d tr).answers.length ≤ (listLedger d tr).given.length) (htr ▸ h)

variable {s : Session} {env : Env} {v v' : View} {w : Whole}

theorem listsKept {staging : Staging} (hrun : SessionRun staging tr s) (hans : ListAnswering d tr) :
    ListsKept (listLedger d tr) (s.clip.direction d).listsOwed := by
  refine hrun.history ?_ ?_ hans
  · intro _
    cases d <;> exact ⟨le_rfl, rfl, rfl⟩
  · intro tr s l s' hrun ih hstep hans
    obtain ⟨hans₁, hans₂⟩ := hans.snoc
    rw [listLedger_snoc] at hans₂ ⊢
    exact ((Session.round hstep).listBooked (listKept hrun) d).kept (ih hans₁) hans₂

/-! ## What becomes of an answer -/

theorem Move.dataAnswer {resp : FormatDataResponse} (h : Move env d v (.dataAnswer resp w) v') (hv : v.out = []) :
    (∃ rest, v.dataOwed = .proxy :: rest) ∧ (∀ em ∈ v'.out, em.gives d = false) ∨
      v.dataOwed.head? ≠ some .proxy ∧ v'.out = [⟨d.receiver, .passed w⟩] := by
  cases h with
  | passData owed => exact .inr ⟨owed, by simp [hv]⟩
  | dropData owed => exact .inl ⟨⟨_, owed⟩, by simp [hv]⟩
  | refuseFiles owed => exact .inl ⟨⟨_, owed⟩, by simp [hv, View.refused, Emission.gives, Body.pdu]⟩
  | acceptFiles owed waiting accepted next =>
    refine .inl ⟨⟨_, owed⟩, fun em hem => ?_⟩
    exact (next.silent hv em hem).2

theorem Move.listAnswer (h : Move env d v (.listAnswer w) v') (hv : v.out = []) :
    (∃ rest, v.listsOwed = .proxy :: rest) ∧ v'.out = [] ∨
      v.listsOwed.head? ≠ some .proxy ∧ v'.out = [⟨d.sender, .passed w⟩] := by
  cases h with
  | swallowList owed => exact .inl ⟨⟨_, owed⟩, hv⟩
  | passList owed => exact .inr ⟨owed, by simp [hv]⟩

theorem move_of_about {s' : Session} {l : Label} {hd : Heard} (hstep : s.step l = some s')
    (habout : l.event.about d = some hd) : Move l.env d (s.clip.taken.view d) hd (s'.clip.view d) := by
  have hheard := Event.heard_of_about habout
  rcases (Session.round hstep).seen d with ⟨heard, move⟩ | ⟨event, phase, after⟩ | ⟨quiet, same⟩
  · cases heard.symm.trans hheard
    exact move
  · rw [event] at hheard
    cases hheard
  · exact absurd hheard (quiet hd)

/-- The answer with data that a round brings answers the request `a`: it is swallowed when the proxy made
the request, and passed on as it came when the receiver did. -/
inductive DataAnswered (d : Dir) (w : Whole) (out : List Emission) : Origin → Prop
  | swallowed {n : Nat} (none : ∀ em ∈ out, em.gives d = false) : DataAnswered d w out (.list n)
  | passed {n : Nat} (written : out = [⟨d.receiver, .passed w⟩]) : DataAnswered d w out (.request n)

inductive ListAnswered (d : Dir) (w : Whole) (out : List Emission) : Owner → Prop
  | swallowed (none : out = []) : ListAnswered d w out .proxy
  | passed (written : out = [⟨d.sender, .passed w⟩]) : ListAnswered d w out .receiver

section Runs

variable {staging : Staging} {d : Dir} {tr : Trace} {s s' : Session} {l : Label}

variable {w : Whole}

theorem data_answered (hrun : SessionRun staging tr s) (hstep : s.step l = some s')
    (hans : Answering d (tr ++ [⟨s, l, s'⟩])) {resp : FormatDataResponse}
    (habout : l.event.about d = some (.dataAnswer resp w)) :
    ∃ a, (ledger d tr).asked[(ledger d tr).answers.length]? = some a ∧ DataAnswered d w s'.clip.out a := by
  obtain ⟨hans₁, hans₂⟩ := hans.snoc
  have hk := kept hrun hans₁
  have howed := s.clip.dataOwed_taken d
  rcases (move_of_about hstep habout).dataAnswer rfl with ⟨⟨rest, hq⟩, hnone⟩ | ⟨hq, hout⟩
  · obtain ⟨a, r, hr, ha, -⟩ := hk.cons (howed.symm.trans hq)
    refine ⟨a, getElem?_of_pending_cons hr, ?_⟩
    cases a with
    | list n => exact .swallowed hnone
    | request n => cases ha
  · have hout : s'.clip.out = [⟨d.receiver, .passed w⟩] := hout
    have hlen : ((ledger d tr).answers ++ [resp]).length ≤ (ledger d tr).asked.length := by
      rw [ledger_snoc, habout, Ledger.book, hout] at hans₂
      simpa [Ledger.hear, Emission.asks] using hans₂
    obtain ⟨a, r, hr⟩ := pending_cons_of_asked hlen
    refine ⟨a, getElem?_of_pending_cons hr, ?_⟩
    cases a with
    | list n =>
      rw [howed, hk.owed, hr] at hq
      exact absurd rfl hq
    | request n => exact .passed hout

theorem list_answered (hrun : SessionRun staging tr s) (hstep : s.step l = some s')
    (hans : ListAnswering d (tr ++ [⟨s, l, s'⟩])) (habout : l.event.about d = some (.listAnswer w)) :
    ∃ o, (listLedger d tr).given[(listLedger d tr).answers.length]? = some o ∧ ListAnswered d w s'.clip.out o := by
  obtain ⟨hans₁, hans₂⟩ := hans.snoc
  have hk := listsKept hrun hans₁
  have howed := s.clip.listsOwed_taken d
  rcases (move_of_about hstep habout).listAnswer rfl with ⟨⟨rest, hq⟩, hout⟩ | ⟨hq, hout⟩
  · rw [howed, hk.owed] at hq
    exact ⟨_, getElem?_of_pending_cons hq, .swallowed hout⟩
  · have hout : s'.clip.out = [⟨d.sender, .passed w⟩] := hout
    have hlen : ((listLedger d tr).answers ++ [w]).length ≤ (listLedger d tr).given.length := by
      rw [listLedger_snoc, habout, ListLedger.book, Clip.listsTo, hout] at hans₂
      simpa [ListLedger.hear] using hans₂
    obtain ⟨o, r, hr⟩ := pending_cons_of_asked hlen
    refine ⟨o, getElem?_of_pending_cons hr, ?_⟩
    cases o with
    | receiver => exact .passed hout
    | proxy =>
      rw [howed, hk.owed, hr] at hq
      exact absurd rfl hq

/-- Answers go to whoever asked. In every run in which both ends answer what they are given once and
in order: an answer with data is swallowed if it answers a request of the proxy's and passed on as
it came if it answers one of the receiver's; an answer to a list is swallowed if it answers a list
of the proxy's and passed on as it came if it answers one of the sender's; and a sender never has
more answers to lists than it gave lists, and as many once the receiver has answered every one. -/
theorem answers_to_whoever_asked (hrun : SessionRun staging tr s) (hdata : Answering d tr)
    (hlists : ListAnswering d tr) :
    (∀ pre e rest resp w, tr = pre ++ e :: rest → e.label.event.about d = some (.dataAnswer resp w) →
      ∃ a, (ledger d pre).asked[(ledger d pre).answers.length]? = some a ∧ DataAnswered d w e.post.clip.out a) ∧
    (∀ pre e rest w, tr = pre ++ e :: rest → e.label.event.about d = some (.listAnswer w) →
      ∃ o, (listLedger d pre).given[(listLedger d pre).answers.length]? = some o ∧
        ListAnswered d w e.post.clip.out o) ∧
    (listLedger d tr).told ≤ (listLedger d tr).lists ∧
    ((listLedger d tr).answers.length = (listLedger d tr).given.length →
      (listLedger d tr).told = (listLedger d tr).lists) := by
  have hk := listsKept hrun hlists
  refine ⟨?_, ?_, ?_, ?_⟩
  · rintro pre e rest resp w rfl habout
    obtain ⟨hbefore, hstep⟩ := hrun.before
    exact data_answered hbefore hstep (hdata.first (List.append_cons ..)) habout
  · rintro pre e rest w rfl habout
    obtain ⟨hbefore, hstep⟩ := hrun.before
    exact list_answered hbefore hstep (hlists.first (List.append_cons ..)) habout
  · rw [← hk.told]
    exact Nat.le_add_right _ _
  · intro hall
    have hnil : pending (listLedger d tr).given (listLedger d tr).answers = [] := by
      rw [pending, hall]
      exact List.drop_length
    rw [← hk.told, hk.owed, hnil]
    rfl

end Runs

/-- The client gives a list without files and the server answers it; then an offer of one file
passes, and the server answers the list of the offer too. -/
def listThenFile : List Event :=
  [.pdu .client (sent (.formatList (.newUnicodeLong [⟨13, none⟩]))), .pdu .server (sent (.formatListResponse .ok))] ++
    oneFile ++ [.pdu .server (sent (.formatListResponse .ok))]

theorem listAnswering_of_all
    (h : ((List.range (tr.length + 1)).all fun n =>
      decide ((listLedger d (tr.take n)).answers.length ≤ (listLedger d (tr.take n)).given.length)) = true) :
    ListAnswering d tr :=
  forall_take_of_all (P := fun tr => (listLedger d tr).answers.length ≤ (listLedger d tr).given.length) h

/-- The receiver answers a plain list, the proxy swallows the answer to its own. -/
theorem answers_to_whoever_asked_two : ∃ s, SessionRun ⟨0, 100⟩ (scripted ⟨0, 100⟩ listThenFile) s ∧
    (listLedger .upload (scripted ⟨0, 100⟩ listThenFile)).given = [.receiver, .proxy] ∧
    (listLedger .upload (scripted ⟨0, 100⟩ listThenFile)).told = 2 ∧
    (listLedger .upload (scripted ⟨0, 100⟩ listThenFile)).told =
      (listLedger .upload (scripted ⟨0, 100⟩ listThenFile)).lists := by
  obtain ⟨s, hrun, -⟩ := scripted_state ⟨0, 100⟩ listThenFile (fun _ => true) (by decide +kernel)
  have hdata : Answering .upload (scripted ⟨0, 100⟩ listThenFile) := answering_of_all (by decide +kernel)
  have hlists : ListAnswering .upload (scripted ⟨0, 100⟩ listThenFile) := listAnswering_of_all (by decide +kernel)
  obtain ⟨hgiven, htold, hall⟩ : (listLedger .upload (scripted ⟨0, 100⟩ listThenFile)).given = [.receiver, .proxy] ∧
      (listLedger .upload (scripted ⟨0, 100⟩ listThenFile)).told = 2 ∧
      (listLedger .upload (scripted ⟨0, 100⟩ listThenFile)).answers.length =
        (listLedger .upload (scripted ⟨0, 100⟩ listThenFile)).given.length := by decide +kernel
  exact ⟨s, hrun, hgiven, htold, (answers_to_whoever_asked hrun hdata hlists).2.2.2 hall⟩

end WebAccess.Scan
