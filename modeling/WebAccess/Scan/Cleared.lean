/-
What a receiver gets after a refusal. It has been given an empty list, and the phase is idle, which
is also the phase of a sender that has offered no files: a request for data is passed on to the
sender as ever, and answers that were on their way are delivered. The clipboard is empty to the
receiver as long as it makes no such request and none is with the sender.
-/
import WebAccess.Scan.AnswerOrder
import WebAccess.Scan.Lives
import WebAccess.Scan.Replies

namespace WebAccess.Scan

open Codec Wire Transition Fifo

/-! ## An empty clipboard -/

/-- The round reports that an offer was refused. -/
def Refuses (d : Dir) (e : Entry Session Label) : Prop :=
  ∃ files reason, .refused d files reason ∈ e.post.clip.reportsOf d

/-- A PDU that asks a sender for something. -/
def isRequest : ClipboardPdu → Bool
  | .formatDataRequest _ | .fileContentsRequest _ => true
  | _ => false

/-- What is written in a round is as for an empty clipboard: the sender is asked for nothing, the
receiver is given no data but errors, and its request for contents is answered with one. -/
structure Empty (d : Dir) (hd : Option Heard) (out : List Emission) : Prop where
  asks : ∀ em ∈ out, em.side = d.sender → ∀ p, em.body.pdu = some p → isRequest p = false
  data : ∀ em ∈ out, em.side = d.receiver → ∀ a, em.body.pdu = some (.formatDataResponse a) → a = .newError
  contents : ∀ em ∈ out, em.side = d.receiver → ∀ r, em.body.pdu = some (.fileContentsResponse r) →
    ∃ id, r = .newError id
  answered : ∀ req, hd = some (.contentsRequest req) →
    ∃ us, out = [⟨d.receiver, .own (.fileContentsResponse (.newError req.streamId)) us⟩]

section Rounds

variable {d : Dir}

theorem Empty.nil {hd : Option Heard} (h : ∀ req, hd ≠ some (.contentsRequest req)) : Empty d hd [] :=
  ⟨nofun, nofun, nofun, fun req hreq => absurd hreq (h req)⟩

theorem Round.empty {l : Label} {s s' : Session} (h : Round l s s') (hlist : ListKept s)
    (hquiet : ∀ hd, l.event.heard ≠ some (d, hd)) : Empty d (l.event.about d) s'.clip.out := by
  have hunrelated := h.unrelated hlist hquiet
  refine ⟨?_, ?_, ?_, ?_⟩
  · intro em hem hside p hp
    have hfor := (hunrelated em hem p hp).1 hside
    cases p <;> first | rfl | cases hfor
  · intro em hem hside a hp
    cases (hunrelated em hem _ hp).2 hside rfl
  · intro em hem hside r hp
    cases (hunrelated em hem _ hp).2 hside rfl
  · intro req hreq
    rw [Event.about_eq_none hquiet] at hreq
    cases hreq

/-- So does a move in the idle phase, when the receiver asks for no data and every answer with data
is owed to the proxy. -/
theorem Move.empty {env : Env} {v v' : View} {hd : Heard} {ev : Event} (h : Move env d v hd v') (hv : v.out = [])
    (hsaid : ev.Said d hd) (hidle : v.phase = .idle) (hlist : ∀ l w, hd ≠ .list l w)
    (hreq : ∀ req w, hd ≠ .dataRequest req w) (hans : ∀ resp w, hd = .dataAnswer resp w →
      v.dataOwed.head? = some .proxy) :
    Empty d (some hd) v'.out ∧ v'.phase = .idle ∧ (Owner.receiver ∉ v.dataOwed → Owner.receiver ∉ v'.dataOwed) := by
  cases h with
  | plainList | unhealthyList | offer => exact absurd rfl (hlist _ _)
  | answerData | forwardData => exact absurd rfl (hreq _ _)
  | swallowList => exact ⟨hv ▸ .nil (by simp), hidle, id⟩
  | passList =>
    obtain ⟨r, hr⟩ := hsaid.listAnswer.2
    refine ⟨⟨?_, ?_, ?_, by simp⟩, hidle, id⟩ <;> simp [hv, Body.pdu, hr, isRequest]
  | passData owed => exact absurd (hans _ _ rfl) owed
  | dropData owed =>
    refine ⟨hv ▸ .nil (by simp), hidle, fun hno => ?_⟩
    rw [owed] at hno
    exact fun hmem => hno (List.mem_cons_of_mem _ hmem)
  | @answerContents req us =>
    have hans : Clip.contentsAnswer v.phase req = .newError req.streamId := by rw [hidle]; rfl
    refine ⟨⟨?_, ?_, ?_, ?_⟩, hidle, id⟩
    · simp [hv]
    · simp [hv, Body.pdu]
    · simp [hv, Body.pdu, hans]
    · rintro req ⟨⟩
      exact ⟨us, by rw [hv, hans]; rfl⟩
  | ignoreContents | ignoreVerdict => exact ⟨hv ▸ .nil (by simp), hidle, id⟩
  | refuseFiles owed waiting | acceptFiles owed waiting => cases hidle.symm.trans waiting.1
  | refuseContents fetches | acceptContents fetches => cases hidle.symm.trans fetches.1
  | storeVerdict scans | passVerdict scans | refuseVerdict scans => cases hidle.symm.trans scans.1

end Rounds

/-! ## After a refusal -/

variable {d : Dir}

theorem Told.idle_of_refused {env : Env} {long : Bool} {hd : Option Heard} {p p' : Phase} {rs : List Report}
    {ls : List Body} {files : List (Text × Nat)} {reason : String} (h : Told env d long hd p p' rs ls)
    (hr : .refused d files reason ∈ rs) : p' = .idle := by
  cases h with
  | unhealthy | refused => rfl
  | listed | passed => cases List.mem_singleton.1 hr
  | plain | offer | fetched | verdict | quiet => cases hr

section Runs

variable {staging : Staging} {d : Dir} {tr pre seg : Trace} {e : Entry Session Label} {s s' : Session} {l : Label}

/-- The direction is idle and none of the receiver's requests is with the sender. -/
structure Bare (d : Dir) (s : Session) : Prop where
  idle : (s.clip.direction d).phase = .idle
  none : Owner.receiver ∉ (s.clip.direction d).dataOwed

/-- Neither a list of the sender nor a request of the receiver for data. -/
structure Calm (d : Dir) (e : Entry Session Label) : Prop where
  list : ¬ Lists d e
  request : ∀ req w, e.label.event.about d ≠ some (.dataRequest req w)

theorem Bare.step (h : Bare d s) (hrun : SessionRun staging tr s) (hstep : s.step l = some s')
    (hcalm : Calm d ⟨s, l, s'⟩) (hans : Answering d (tr ++ [⟨s, l, s'⟩])) :
    Bare d s' ∧ Empty d (l.event.about d) s'.clip.out := by
  have hround := Session.round hstep
  rcases hround.seen d with ⟨heard, move⟩ | ⟨event, phase, after⟩ | ⟨quiet, same⟩
  · have hphase := s.clip.phase_taken d
    have howed := s.clip.dataOwed_taken d
    have habout := Event.about_eq heard
    have howner : ∀ resp w, l.event.about d = some (.dataAnswer resp w) →
        (s.clip.taken.view d).dataOwed.head? = some .proxy := by
      intro resp w hresp
      obtain ⟨a, ha, -⟩ := data_answered hrun hstep hans hresp
      have hhead : (s.clip.direction d).dataOwed.head? = some a.owner := by
        rw [(kept hrun hans.snoc.1).owed, List.head?_map, pending, List.head?_drop, ha]
        rfl
      rw [howed, hhead]
      cases a with
      | list n => rfl
      | request n => exact absurd (List.mem_of_head? hhead) h.none
    rw [habout] at howner ⊢
    obtain ⟨hempty, hidle, hnone⟩ := move.empty rfl (Event.said heard) (hphase.trans h.idle)
      (fun l w heq => hcalm.list ⟨l, w, by rw [habout, heq]⟩)
      (fun req w heq => hcalm.request req w (by rw [habout, heq])) (fun resp w heq => howner resp w (by rw [heq]))
    exact ⟨⟨hidle, hnone (howed ▸ h.none)⟩, hempty⟩
  · rw [h.idle] at phase
    cases phase
  · exact ⟨⟨by rw [same]; exact h.idle, by rw [same]; exact h.none⟩, hround.empty (listKept hrun) quiet⟩

/-- A refused offer is an empty clipboard to the receiver, in every run in which the sender gives no answer
it was not asked for, none of the receiver's requests is with the sender when the offer is refused,
and until the sender's next list the receiver asks for no data. -/
theorem refused_is_empty (hrun : SessionRun staging (pre ++ e :: seg) s) (hans : Answering d (pre ++ e :: seg))
    (hrefuses : Refuses d e) (hnone : Owner.receiver ∉ (e.post.clip.direction d).dataOwed)
    (hcalm : ∀ x ∈ seg, Calm d x) : ∀ x ∈ seg, Empty d (x.label.event.about d) x.post.clip.out := by
  obtain ⟨hfirst, hrest⟩ := hrun.after
  have hidle : (e.post.clip.direction d).phase = .idle := by
    obtain ⟨files, reason, hr⟩ := hrefuses
    exact (tells_of_step hrun.before.1 hrun.before.2 d).idle_of_refused hr
  rw [List.append_cons] at hans
  have hall : Bare d s ∧ ∀ x ∈ seg, Empty d (x.label.event.about d) x.post.clip.out := by
    refine hrest.history ?_ ?_ hans hcalm
    · intro _ _
      exact ⟨⟨hidle, hnone⟩, fun x hx => by cases hx⟩
    · intro seg s l s' hseg ih hstep hans hcalm
      rw [← List.append_assoc] at hans
      obtain ⟨hbare, hempty⟩ := ih hans.snoc.1 fun x hx => hcalm x (List.mem_append_left _ hx)
      obtain ⟨hbare', hlast⟩ := hbare.step (hfirst.append hseg) hstep (hcalm _ (by simp)) hans
      refine ⟨hbare', fun x hx => ?_⟩
      rcases mem_snoc.1 hx with hx | rfl
      · exact hempty x hx
      · exact hlast
  exact hall.2

end Runs

/-- The client offers files and then does not list them, so the offer is refused. -/
def unlisted : List Event := [offerFile, .pdu .client (sent (.formatDataResponse .newError))]

def refusesAt (d : Dir) (e : Entry Session Label) : Bool :=
  (e.post.clip.reportsOf d).any fun r =>
    match r with
    | .refused d' _ _ => d' = d
    | _ => false

variable {e : Entry Session Label}

theorem refuses_of_refusesAt (h : refusesAt d e = true) : Refuses d e := by
  obtain ⟨r, hr, hmatch⟩ := List.any_eq_true.1 h
  split at hmatch
  · rename_i d' files reason
    obtain rfl := of_decide_eq_true hmatch
    exact ⟨files, reason, hr⟩
  · cases hmatch

/-- An entry brings neither a list nor a request for data. -/
def calmAt (d : Dir) (e : Entry Session Label) : Bool :=
  match e.label.event.about d with
  | some (.list ..) | some (.dataRequest ..) => false
  | _ => true

theorem calm_of_calmAt (h : calmAt d e = true) : Calm d e := by
  constructor
  · rintro ⟨list, whole, habout⟩
    rw [calmAt, habout] at h
    cases h
  · intro req w habout
    rw [calmAt, habout] at h
    cases h

def Heard.isContentsRequest : Heard → Bool
  | .contentsRequest _ => true
  | _ => false

/-- After that the server asks for contents, and gets an error. -/
theorem refused_is_empty_contents : ∃ a b c s, SessionRun ⟨0, 100⟩ [a, b, c] s ∧ Refuses .upload b ∧
    (∃ req, c.label.event.about .upload = some (.contentsRequest req)) ∧
    Empty .upload (c.label.event.about .upload) c.post.clip.out := by
  obtain ⟨s, hrun, -⟩ := scripted_state ⟨0, 100⟩ (unlisted ++ [askForTwo]) (fun _ => true) (by decide +kernel)
  have hans : Answering .upload (scripted ⟨0, 100⟩ (unlisted ++ [askForTwo])) := answering_of_all (by decide +kernel)
  have hscript : ((scripted ⟨0, 100⟩ (unlisted ++ [askForTwo])).length == 3 &&
      (scripted ⟨0, 100⟩ (unlisted ++ [askForTwo]))[1]?.any (fun e => refusesAt .upload e &&
        decide (Owner.receiver ∉ (e.post.clip.direction .upload).dataOwed)) &&
      (scripted ⟨0, 100⟩ (unlisted ++ [askForTwo]))[2]?.any (fun e => calmAt .upload e &&
        (e.label.event.about .upload).any (·.isContentsRequest))) = true := by decide +kernel
  generalize scripted ⟨0, 100⟩ (unlisted ++ [askForTwo]) = tr at hrun hans hscript
  simp only [Bool.and_eq_true, beq_iff_eq] at hscript
  obtain ⟨⟨hlen, hrefuses⟩, hcalm⟩ := hscript
  obtain ⟨a, b, c, rfl⟩ := List.length_eq_three.1 hlen
  obtain ⟨hrefuses, hnone⟩ := Bool.and_eq_true_iff.1 hrefuses
  obtain ⟨hcalm, hreq⟩ := Bool.and_eq_true_iff.1 hcalm
  have hrefuses := refuses_of_refusesAt hrefuses
  refine ⟨a, b, c, s, hrun, hrefuses, ?_, ?_⟩
  · obtain ⟨heard, habout, hreq⟩ := (Option.any_eq_true ..).1 hreq
    unfold Heard.isContentsRequest at hreq
    split at hreq
    · exact ⟨_, habout⟩
    · cases hreq
  · have hrun : SessionRun ⟨0, 100⟩ ([a] ++ b :: [c]) s := hrun
    refine refused_is_empty hrun hans hrefuses (of_decide_eq_true hnone) ?_ c (by simp)
    intro x hx
    obtain rfl := List.mem_singleton.1 hx
    exact calm_of_calmAt hcalm

/-- After that the server asks for data instead: the request is passed on to the client, which answers
it, and the server has data of the clipboard that was refused. -/
theorem refused_is_not_empty : ∃ a b c x s, SessionRun ⟨0, 100⟩ [a, b, c, x] s ∧ Answering .upload [a, b, c, x] ∧
    Refuses .upload b ∧ ¬ Lists .upload c ∧ ¬ Lists .upload x ∧
    (∃ em ∈ c.post.clip.out, em.side = .client ∧ em.body.pdu = some (.formatDataRequest ⟨13⟩)) ∧
    ∃ em ∈ x.post.clip.out, em.side = .server ∧ em.body.pdu = some (.formatDataResponse (.newData [1])) := by
  obtain ⟨s, hrun, -⟩ := scripted_state ⟨0, 100⟩ (unlisted ++ [askData, giveData]) (fun _ => true) (by decide +kernel)
  have hans : Answering .upload (scripted ⟨0, 100⟩ (unlisted ++ [askData, giveData])) :=
    answering_of_all (by decide +kernel)
  have hscript : ((scripted ⟨0, 100⟩ (unlisted ++ [askData, giveData])).length == 4 &&
      (scripted ⟨0, 100⟩ (unlisted ++ [askData, giveData]))[1]?.any (refusesAt .upload) &&
      (scripted ⟨0, 100⟩ (unlisted ++ [askData, giveData]))[2]?.any (fun e => !listsAt .upload e &&
        e.post.clip.out.any fun em => decide (em.side = .client ∧ em.body.pdu = some (.formatDataRequest ⟨13⟩))) &&
      (scripted ⟨0, 100⟩ (unlisted ++ [askData, giveData]))[3]?.any (fun e => !listsAt .upload e &&
        e.post.clip.out.any fun em =>
          decide (em.side = .server ∧ em.body.pdu = some (.formatDataResponse (.newData [1]))))) = true := by
    decide +kernel
  generalize scripted ⟨0, 100⟩ (unlisted ++ [askData, giveData]) = tr at hrun hans hscript
  match tr, hrun, hans, hscript with
  | [a, b, c, x], hrun, hans, hscript =>
    simp only [Bool.and_eq_true, List.getElem?_cons_succ, List.getElem?_cons_zero, Option.any_some,
      List.any_eq_true, Bool.not_eq_true', decide_eq_true_eq] at hscript
    obtain ⟨⟨⟨-, hrefuses⟩, hc, hasked⟩, hx, hgiven⟩ := hscript
    exact ⟨a, b, c, x, s, hrun, hans, refuses_of_refusesAt hrefuses, not_lists_of_listsAt hc,
      not_lists_of_listsAt hx, hasked, hgiven⟩
  | [], _, _, h | [_], _, _, h | [_, _], _, _, h | [_, _, _], _, _, h | _ :: _ :: _ :: _ :: _ :: _, _, _, h =>
    simp at h

end WebAccess.Scan
