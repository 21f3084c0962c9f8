/-
In which order a receiver gets its answers. It pairs them with its requests by their place, so
the k-th answer has to be to its k-th request. A request the proxy passes on is answered when the
sender answers; one it answers itself is answered at once, and overtakes those still with the
sender. In every run in which none is with the sender then, the order is kept.
-/
import WebAccess.Scan.Owed

namespace WebAccess.Scan

open Codec Wire Transition Fifo

/-- The receiver's requests that are with the sender, oldest first. -/
def Ledger.waiting (L : Ledger) : List Nat := (pending L.asked L.answers).filterMap Origin.request?

/-- The answers delivered are to the oldest requests, in order, and the rest are with the sender. -/
def Ledger.InTurn (L : Ledger) : Prop :=
  L.delivered ++ L.waiting.map some = (List.range L.requests).map some

section Turn

variable {hd : Option Heard} {p p' : Phase} {q q' : List Owner} {L L' : Ledger}

variable {a : Origin} {r : List Origin}

theorem Ledger.waiting_answer (hr : pending L.asked L.answers = a :: r) (resp : FormatDataResponse)
    (delivered : List (Option Nat)) :
    L.waiting = a.request?.toList ++
      Ledger.waiting { L with answers := L.answers ++ [resp], delivered := delivered } := by
  unfold Ledger.waiting
  rw [pending_answer hr, hr, List.filterMap_cons]
  cases a.request? <;> rfl

theorem Kept.waiting_eq_nil (hk : Kept L q) (hq : Owner.receiver ∉ q) : L.waiting = [] := by
  rw [Ledger.waiting, List.filterMap_eq_nil_iff]
  intro a ha
  cases a with
  | list n => rfl
  | request n =>
    rw [hk.owed] at hq
    exact absurd (List.mem_map_of_mem (f := Origin.owner) ha) hq

theorem Ledger.InTurn.skip (h : L.InTurn) (hr : pending L.asked L.answers = a :: r) (ha : a.owner = .proxy)
    (resp : FormatDataResponse) : Ledger.InTurn { L with answers := L.answers ++ [resp] } := by
  have hw := Ledger.waiting_answer hr resp L.delivered
  have hnone : a.request? = none := by
    cases a with
    | list n => rfl
    | request n => cases ha
  rw [hnone, Option.toList_none, List.nil_append] at hw
  unfold Ledger.InTurn at h ⊢
  rw [← hw]
  exact h

theorem Booked.inTurn (h : Booked hd p p' q q' L L') (hk : Kept L q) (ht : L.InTurn)
    (hans : L'.answers.length ≤ L'.asked.length)
    (hfree : ∀ req w, hd = some (.dataRequest req w) → Clip.dataAnswer p req ≠ none → Owner.receiver ∉ q) :
    L'.InTurn := by
  cases h with
  | list => exact ht
  | offer =>
    unfold Ledger.InTurn Ledger.waiting at ht ⊢
    rw [pending_ask hk.answered, List.filterMap_append]
    show L.delivered ++ List.map some (_ ++ []) = _
    rw [List.append_nil]
    exact ht
  | answered heard answer =>
    have hnil := hk.waiting_eq_nil (hfree _ _ heard answer)
    unfold Ledger.InTurn at ht ⊢
    show L.delivered ++ [some L.requests] ++ L.waiting.map some = (List.range (L.requests + 1)).map some
    rw [hnil, List.map_nil, List.append_nil] at ht ⊢
    rw [ht, List.range_succ, List.map_append]
    rfl
  | forwarded =>
    unfold Ledger.InTurn Ledger.waiting at ht ⊢
    rw [pending_ask hk.answered, List.filterMap_append, List.map_append, ← List.append_assoc, ht, List.range_succ,
      List.map_append]
    rfl
  | passed head phase owed =>
    obtain ⟨a, r, hr⟩ := pending_cons_of_asked hans
    cases a with
    | list n =>
      rw [hk.owed, hr] at head
      exact absurd rfl head
    | request n =>
      rw [getElem?_of_pending_cons hr]
      unfold Ledger.InTurn at ht ⊢
      rw [Ledger.waiting_answer hr _ _] at ht
      simpa [Origin.request?] using ht
  | dropped head =>
    obtain ⟨a, r, hr, ha, -⟩ := hk.cons head
    exact ht.skip hr ha _
  | used heard head =>
    obtain ⟨a, r, hr, ha, -⟩ := hk.cons head
    exact ht.skip hr ha _
  | quiet => exact ht

theorem Ledger.InTurn.getElem? (h : L.InTurn) {k : Nat} {t : Option Nat} (hk : L.delivered[k]? = some t) :
    k < L.requests ∧ t = some k := by
  have hmap : ((List.range L.requests).map some)[k]? = some t := by
    rw [← h, List.getElem?_append_left (List.getElem?_eq_some_iff.1 hk).1, hk]
  rw [List.getElem?_map, Option.map_eq_some_iff] at hmap
  obtain ⟨n, hn, rfl⟩ := hmap
  obtain ⟨hlt, hn⟩ := List.getElem?_eq_some_iff.1 hn
  rw [List.getElem_range] at hn
  rw [List.length_range] at hlt
  exact ⟨hlt, by rw [hn]⟩

end Turn

/-- When the proxy answers a request of the receiver by itself, none is with the sender. -/
def NoneOvertaken (d : Dir) (e : Entry Session Label) : Prop :=
  ∀ req w, e.label.event.about d = some (.dataRequest req w) →
    Clip.dataAnswer (e.pre.clip.direction d).phase req ≠ none → Owner.receiver ∉ (e.pre.clip.direction d).dataOwed

theorem inTurn {staging : Staging} {d : Dir} {tr : Trace} {s : Session} (hrun : SessionRun staging tr s)
    (hans : Answering d tr) (hfree : ∀ e ∈ tr, NoneOvertaken d e) : (ledger d tr).InTurn := by
  refine hrun.history ?_ ?_ hans hfree
  · intro _ _
    rfl
  · intro tr s l s' hrun ih hstep hans hfree
    obtain ⟨hans₁, hans₂⟩ := hans.snoc
    have ht := ih hans₁ fun e he => hfree e (List.mem_append_left _ he)
    rw [ledger_snoc] at hans₂ ⊢
    exact ((Session.round hstep).booked (listKept hrun) d).inTurn (kept hrun hans₁) ht hans₂
      (hfree ⟨s, l, s'⟩ (by simp))

/-- Receivers get answers in the order they asked, in every run in which the sender answers in
order and the proxy answers by itself only when none of the receiver's requests is with the
sender. -/
theorem answers_in_order {staging : Staging} {d : Dir} {tr : Trace} {s : Session} (hrun : SessionRun staging tr s)
    (hans : Answering d tr) (hfree : ∀ e ∈ tr, NoneOvertaken d e) {k : Nat} {t : Option Nat}
    (hk : (ledger d tr).delivered[k]? = some t) : k < (ledger d tr).requests ∧ t = some k :=
  (inTurn hrun hans hfree).getElem? hk

/-- The server asks for the client's clipboard in some format. -/
def askData : Event := .pdu .server (sent (.formatDataRequest ⟨13⟩))

def giveData : Event := .pdu .client (sent (.formatDataResponse (.newData [1])))

theorem noneOvertaken_of_all {d : Dir} {tr : Trace}
    (h : (tr.all fun e => decide (Owner.receiver ∉ (e.pre.clip.direction d).dataOwed) ||
      (match e.label.event.about d with
        | some (.dataRequest req _) => (Clip.dataAnswer (e.pre.clip.direction d).phase req).isNone
        | _ => true)) = true) :
    ∀ e ∈ tr, NoneOvertaken d e := by
  intro e he req w habout hans
  have he := List.all_eq_true.1 h e he
  rw [habout, Bool.or_eq_true, decide_eq_true_iff, Option.isNone_iff_eq_none] at he
  exact he.resolve_right hans

/-- Two requests, both with the sender until it answers them. -/
theorem answers_in_order_two :
    ∃ s, SessionRun ⟨0, 100⟩ (scripted ⟨0, 100⟩ [askData, askData, giveData, giveData]) s ∧
      ∃ t, (ledger .upload (scripted ⟨0, 100⟩ [askData, askData, giveData, giveData])).delivered[1]? = some t ∧
        t = some 1 := by
  obtain ⟨s, hrun, -⟩ := scripted_state ⟨0, 100⟩ [askData, askData, giveData, giveData] (fun _ => true)
    (by decide +kernel)
  have hsecond : (ledger .upload (scripted ⟨0, 100⟩ [askData, askData, giveData, giveData])).delivered[1]? =
      some (some 1) := by decide +kernel
  exact ⟨s, hrun, some 1, hsecond, (answers_in_order (d := .upload) hrun (answering_of_all (by decide +kernel))
    (noneOvertaken_of_all (by decide +kernel)) hsecond).2⟩

/-- The server asks while the client holds no files and asks again after the client has offered
some: the proxy answers the second request at once, with an error, and the client's answer to the
first one, which it gives before it lists its files, comes after it. -/
def overtaking : List Event := [askData, offerFile, askData, giveData, listFile 'a' 3]

/-- The second request is answered before the first. -/
theorem answers_out_of_order : ∃ s, SessionRun ⟨0, 100⟩ (scripted ⟨0, 100⟩ overtaking) s ∧
    Answering .upload (scripted ⟨0, 100⟩ overtaking) ∧
    (ledger .upload (scripted ⟨0, 100⟩ overtaking)).answers.length =
      (ledger .upload (scripted ⟨0, 100⟩ overtaking)).asked.length ∧
    (ledger .upload (scripted ⟨0, 100⟩ overtaking)).delivered = [some 1, some 0] := by
  obtain ⟨s, hrun, -⟩ := scripted_state ⟨0, 100⟩ overtaking (fun _ => true) (by decide +kernel)
  exact ⟨s, hrun, answering_of_all (by decide +kernel), by decide +kernel, by decide +kernel⟩

end WebAccess.Scan
