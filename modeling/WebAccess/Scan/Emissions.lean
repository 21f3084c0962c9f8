/-
What the proxy writes. A PDU of its own is written in the units the router framed it in for that
side (`framed_step`); a PDU passed on was just received from the other side, or is the Format List
kept with an offer, received from the other side before (`passed_step`).
-/
import WebAccess.Scan.Moves

namespace WebAccess.Scan

open Codec Wire

variable {s s' : Session} {l : Label} {d : Dir} {em : Emission} {w : Whole}

theorem framed_step {pdu : ClipboardPdu} {us : List Bytes} (h : s.step l = some s') (hem : em ∈ s'.clip.out)
    (hbody : em.body = .own pdu us) : l.env.frames pdu em.side = .ok us := by
  cases (Session.round h).written em hem with
  | about heard writes =>
    cases writes with
    | emptied frames | listTaken frames | dataRequest frames | contentsAnswered frames | contentsRequest _ frames
      | dataAnswered _ _ frames =>
      cases hbody
      exact frames
    | _ => cases hbody
  | aside _ _ _ own => exact own pdu us hbody
  | late body frames =>
    cases body.symm.trans hbody
    exact frames

/-- A PDU that a round passes on is the one it has received from the other side, or the Format List
kept with an offer that comes from the other side. -/
theorem passed_step (h : s.step l = some s') (hem : em ∈ s'.clip.out) (hbody : em.body = .passed w) :
    l.event = .pdu em.side.other w ∨
      ∃ d f, (s.clip.direction d).phase = .fetching f ∧ w = f.list ∧ em.side = d.receiver := by
  cases (Session.round h).written em hem with
  | @about d hd heard writes =>
    have hsender : d.receiver.other = d.sender := by cases d <;> rfl
    have hreceiver : d.sender.other = d.receiver := by cases d <;> rfl
    cases writes with
    | offered fetching =>
      cases hbody
      exact .inr ⟨d, _, fetching, rfl, rfl⟩
    | list event | dataPassed event =>
      cases hbody
      exact .inl (hsender ▸ event)
    | listAnswer event | dataForwarded event =>
      cases hbody
      exact .inl (hreceiver ▸ event)
    | _ => cases hbody
  | aside pdu other passed => exact .inl (passed w hbody)
  | late body => cases body.symm.trans hbody

theorem kept_step {f' : Fetch} (h : s.step l = some s') (hf' : (s'.clip.direction d).phase = .fetching f') :
    (∃ f, (s.clip.direction d).phase = .fetching f ∧ f'.list = f.list) ∨ l.event = .pdu d.sender f'.list := by
  rcases (Session.round h).seen d with ⟨heard, move⟩ | ⟨event, phase, after⟩ | ⟨quiet, same⟩
  · rcases move.list hf' with ⟨f, hf, hlist⟩ | ⟨list, rfl⟩
    · exact .inl ⟨f, by rw [← hf]; cases d <;> rfl, hlist⟩
    · exact .inr (Event.said heard).list.1
  · rw [after] at hf'
    cases hf'
  · rw [same] at hf'
    exact .inl ⟨f', hf', rfl⟩

end WebAccess.Scan
