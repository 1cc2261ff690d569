import Tcp118.Transport.Undisturbed

/-!
# The two sides when nothing more goes wrong

From some state on nothing is lost or zeroed, the receiver does not time out, and the sender times
out only when it would wait for ever.

* `Event.Patient`, `patientRuns`: the events, and the runs;
* `SenderPass`, `SenderInv.pass`: the steps of the sender while acknowledgements are pending;
* `SenderInv.step_acked`: its steps while none is;
* `Receiver.Answers`, `ReceiverInv.step_patient`, `ReceiverInv.recv_patient`: the receiver
  acknowledges what it takes, and what it has taken before;
* `exists_patient`: some patient event can happen.
-/

namespace Tcp118

open Protocol

/-- Nothing is lost or zeroed, and only the sender times out, when nothing is on the way to it, and
nothing to the receiver, which waits as well or has returned. -/
def Event.Patient : Event → Joint → Prop
  | .sender lost corr, _ => lost = false ∧ corr = false
  | .receiver lost corr _ _, _ => lost = false ∧ corr = false
  | .senderRecv _, _ => True
  | .receiverRecv _, _ => True
  | .senderTimeout _, J => J.rev = [] ∧
    (J.fwd = [] ∧ (J.receiver.phase = .read ∨ J.receiver.phase = .readClose) ∨
      J.receiver.phase = .exited)
  | _, _ => False

/-- The runs whose events are all patient. -/
def patientRuns (buf : List UInt8) (W : ℕ) : StepSystem Joint := transferRuns buf W Event.Patient

/-! ### The sender -/

/-- The steps of the sender up to its next `recvfrom`, if it adds no packet. -/
def Sender.stepsToRecv (acked : ℕ) (S : Sender) : ℕ :=
  match S.phase with
  | .top => S.i - acked + 5
  | .fill => S.i - acked + 4
  | .shift => S.i - acked + 3
  | .write todo => todo.length + 2
  | .readAck => 1
  | _ => 0

/-- The steps of the sender with nothing pending up to the next packet, the next shift, or the end
of the transmission loop. -/
def Sender.stepsToMore (n m : ℕ) (S : Sender) : ℕ :=
  match S.phase with
  | .fill => if S.i < m then 2 else 7
  | .shift => if S.i < S.shifted + n then 6 else 1
  | .write _ => 5
  | .readAck => 4
  | .top => 3
  | _ => 0

/-- What is left of the transfer for the sender. -/
def Sender.remaining (m acked : ℕ) (S : Sender) : ℕ := (m - acked) + (m - S.i) + (m - S.shifted)

/-- The sender is about to send all that is pending. -/
def Sender.Preparing (pkts : List Packet) (n acked : ℕ) (S : Sender) : Prop :=
  S.phase = .top ∨ S.phase = .fill ∨ S.phase = .shift ∨
    S.phase = .write (slotsFrom pkts n acked S.i)

/-- The steps of the sender while acknowledgements are pending. -/
inductive SenderPass (pkts : List Packet) (n acked : ℕ) (S : Sender) :
    Sender → Option Packet → Prop
  | add (S' : Sender) : S.i < pkts.length → S'.i = S.i + 1 → S'.shifted = S.shifted →
      S'.phase = .fill → SenderPass pkts n acked S S' none
  | fill : S.phase = .top → SenderPass pkts n acked S { S with phase := .fill } none
  | shift : S.phase = .fill → SenderPass pkts n acked S { S with phase := .shift } none
  | write : S.phase = .shift →
      SenderPass pkts n acked S { S with phase := .write (slotsFrom pkts n acked S.i) } none
  | send (y : ℕ) : acked ≤ y → y < S.i → S.phase = .write (slotsFrom pkts n y S.i) →
      SenderPass pkts n acked S { S with phase := .write (slotsFrom pkts n (y + 1) S.i) } pkts[y]?
  | written : S.phase = .write [] → SenderPass pkts n acked S { S with phase := .readAck } none
  | wait : S.phase = .readAck → SenderPass pkts n acked S { S with phase := .recvAck } none

theorem length_slotsFrom (pkts : List Packet) (n y x : ℕ) :
    (slotsFrom pkts n y x).length = x - y := by
  rw [slotsFrom, List.length_map, List.length_range']

section Sender

variable {pkts : List Packet} {n acked : ℕ} {S S' : Sender} {corr : Bool} {out : Option Packet}

theorem SenderInv.pass (h : SenderInv pkts n acked S) (hlt : acked < S.i)
    (hside : S.side = .transmitting) (hstep : senderStep pkts false corr S = some (S', out)) :
    SenderPass pkts n acked S S' out := by
  obtain ⟨phase, w, i, shifted⟩ := S
  have hpend := h.window.numPendingAcks
  have hroom := h.window.added_le
  dsimp only at hpend hroom hlt
  cases phase with
  | top =>
    simp only [senderStep, hpend] at hstep
    rw [if_pos (.inl (by omega))] at hstep
    cases hstep
    exact .fill rfl
  | fill =>
    simp only [senderStep] at hstep
    cases hpkt : pkts[i]? with
    | none =>
      rw [hpkt] at hstep
      cases hstep
      exact .shift rfl
    | some pkt =>
      simp only [hpkt] at hstep
      split_ifs at hstep
      · cases hstep
        exact .add _ (List.getElem?_eq_some_iff.1 hpkt).1 rfl rfl rfl
      · cases hstep
        exact .shift rfl
  | shift =>
    rw [h.step_shift rfl] at hstep
    rcases h.shiftWnd with ⟨hg, -⟩ | ⟨-, he⟩
    · dsimp only at hg
      omega
    · rw [he] at hstep
      cases hstep
      exact .write rfl
  | write todo =>
    obtain ⟨y, hy, hyi, htodo⟩ := h.sound
    have hi : i ≤ pkts.length := h.i_le
    dsimp only at hyi htodo
    subst htodo
    simp only [senderStep] at hstep
    rcases Nat.lt_or_ge y i with hmore | hend
    · have hpkt : pkts[y]? = some pkts[y] := List.getElem?_eq_getElem (by omega)
      rw [slotsFrom_of_lt hmore] at hstep
      simp only [hpkt, Option.map_some] at hstep
      cases hstep
      have hsend : SenderPass pkts n acked ⟨.write (slotsFrom pkts n y i), w, i, shifted⟩ _
          pkts[y]? := .send y hy hmore rfl
      rw [hpkt] at hsend
      exact hsend
    · obtain rfl : y = i := by omega
      rw [slotsFrom_self] at hstep ⊢
      cases hstep
      exact .written rfl
  | readAck =>
    simp only [senderStep, hpend] at hstep
    rw [if_neg (by omega)] at hstep
    cases hstep
    exact .wait rfl
  | recvAck => cases hstep
  | close => cases hside
  | readClose j => cases hside
  | exited b => cases hside

/-- Such a step brings the sender nearer to its next `recvfrom`, or adds a packet. -/
theorem SenderPass.nearer (h : SenderPass pkts n acked S S' out) :
    S'.side = .transmitting ∧
      (S'.remaining pkts.length acked < S.remaining pkts.length acked ∨
        S'.i = S.i ∧ S'.shifted = S.shifted ∧ S'.stepsToRecv acked < S.stepsToRecv acked) := by
  cases h with
  | add _ hlen hi' hs hphase =>
    refine ⟨by rw [Sender.side, hphase], .inl ?_⟩
    unfold Sender.remaining
    rw [hi', hs]
    omega
  | fill hphase | shift hphase | written hphase | wait hphase =>
    refine ⟨rfl, .inr ⟨rfl, rfl, ?_⟩⟩
    simp only [Sender.stepsToRecv, hphase]
    exact Nat.lt_succ_self _
  | write hphase =>
    refine ⟨rfl, .inr ⟨rfl, rfl, ?_⟩⟩
    simp only [Sender.stepsToRecv, hphase, length_slotsFrom]
    exact Nat.lt_succ_self _
  | send y hy hlt hphase =>
    refine ⟨rfl, .inr ⟨rfl, rfl, ?_⟩⟩
    simp only [Sender.stepsToRecv, hphase, length_slotsFrom]
    omega

/-- With nothing pending the sender sends nothing; it comes to add a packet, to shift its window or
to leave the loop. -/
theorem SenderInv.step_acked (h : SenderInv pkts n acked S) (hall : acked = S.i)
    (hside : S.side = .transmitting) (hstep : senderStep pkts false corr S = some (S', out)) :
    out = none ∧ (S'.side ≠ .transmitting ∨ S'.side = .transmitting ∧
      (S'.remaining pkts.length acked < S.remaining pkts.length acked ∧
          (S'.i = S.i ∨ S'.phase = .fill) ∨
        S'.i = S.i ∧ S'.shifted = S.shifted ∧
          S'.stepsToMore n pkts.length < S.stepsToMore n pkts.length)) := by
  obtain ⟨phase, w, i, shifted⟩ := S
  have hpend := h.window.numPendingAcks
  have hroom := h.window.added_le
  have hi := h.i_le
  have hn := h.window.pos
  dsimp only at hall hpend hroom hi
  cases phase with
  | top =>
    simp only [senderStep, hpend] at hstep
    split_ifs at hstep with hmore
    · cases hstep
      refine ⟨rfl, .inr ⟨rfl, .inr ⟨rfl, rfl, ?_⟩⟩⟩
      simp only [Sender.stepsToMore]
      rw [if_pos (by omega)]
      norm_num
    · cases hstep
      exact ⟨rfl, .inl fun e => by cases e⟩
  | fill =>
    simp only [senderStep] at hstep
    cases hpkt : pkts[i]? with
    | none =>
      have hlen := List.getElem?_eq_none_iff.1 hpkt
      rw [hpkt] at hstep
      cases hstep
      refine ⟨rfl, .inr ⟨rfl, .inr ⟨rfl, rfl, ?_⟩⟩⟩
      simp only [Sender.stepsToMore]
      rw [if_neg (show ¬ i < pkts.length by omega)]
      split_ifs <;> norm_num
    | some pkt =>
      have hlen : i < pkts.length := (List.getElem?_eq_some_iff.1 hpkt).1
      simp only [hpkt] at hstep
      split_ifs at hstep with hadd
      · cases hstep
        refine ⟨rfl, .inr ⟨rfl, .inl ⟨?_, .inr rfl⟩⟩⟩
        simp only [Sender.remaining]
        omega
      · cases hstep
        have hfull : ¬ i < shifted + n := fun e => hadd (h.window.checkAdd_iff.2 e)
        refine ⟨rfl, .inr ⟨rfl, .inr ⟨rfl, rfl, ?_⟩⟩⟩
        simp only [Sender.stepsToMore, if_pos hlen, if_neg hfull]
        norm_num
  | shift =>
    rw [h.step_shift rfl] at hstep
    rcases h.shiftWnd with ⟨hg, he, -, -⟩ | ⟨hg, he⟩
    · rw [he] at hstep
      cases hstep
      dsimp only at hg
      refine ⟨rfl, .inr ⟨rfl, .inl ⟨?_, .inl rfl⟩⟩⟩
      simp only [Sender.remaining]
      omega
    · rw [he] at hstep
      cases hstep
      dsimp only at hg
      refine ⟨rfl, .inr ⟨rfl, .inr ⟨rfl, rfl, ?_⟩⟩⟩
      simp only [Sender.stepsToMore]
      rw [if_pos (by omega)]
      norm_num
  | write todo =>
    obtain ⟨y, hy, hyi, htodo⟩ := h.sound
    dsimp only at hyi htodo
    obtain rfl : y = i := by omega
    subst htodo
    simp only [senderStep, slotsFrom_self] at hstep
    cases hstep
    exact ⟨rfl, .inr ⟨rfl, .inr ⟨rfl, rfl, Nat.lt_succ_self _⟩⟩⟩
  | readAck =>
    simp only [senderStep, hpend] at hstep
    rw [if_pos (by omega)] at hstep
    cases hstep
    exact ⟨rfl, .inr ⟨rfl, .inr ⟨rfl, rfl, Nat.lt_succ_self _⟩⟩⟩
  | recvAck => cases hstep
  | close => cases hside
  | readClose j => cases hside
  | exited b => cases hside

/-- Behind `recvfrom` the sender goes on to the next acknowledgement or to the start of its loop. -/
theorem SenderInv.recv_patient {stack : Packet} {recv : Option Datagram}
    (h : SenderInv pkts n acked S) (hphase : S.phase = .recvAck)
    (hrecv : senderRecv stack recv S = some S') :
    (∃ acked', acked ≤ acked' ∧ SenderInv pkts n acked' S') ∧ S'.i = S.i ∧
      S'.shifted = S.shifted ∧ (S'.phase = .readAck ∨ S'.phase = .top) := by
  refine ⟨h.recv hrecv, ?_⟩
  unfold senderRecv at hrecv
  rw [hphase] at hrecv
  cases hrecv
  refine ⟨rfl, rfl, ?_⟩
  dsimp only
  split_ifs
  · exact .inl rfl
  · exact .inr rfl

end Sender

/-! ### The receiver -/

/-- The steps of the receiver up to its next `recvfrom`. -/
def ReceiverPhase.stepsToRecv : ReceiverPhase → ℕ
  | .deliver => 2
  | .top => 1
  | .close => 1
  | _ => 0

/-- The receiver is about to acknowledge a packet that the sender has no acknowledgement of. -/
def Receiver.Answers (acked : ℕ) (R : Receiver) : Prop :=
  R.phase = .deliver ∧ (R.side = .holding ∨ acked < R.appended.length)

section Receiver

variable {pkts : List Packet} {n base added acked : ℕ} {R R' : Receiver}
  {behind heap : List UInt8} {out : Option Packet} {stack pkt : Packet}

theorem ReceiverInv.step_patient (h : ReceiverInv pkts n base added R)
    (hacked : acked ≤ R.appended.length)
    (hstep : receiverStep false false behind heap R = some (R', out)) :
    R'.phase.stepsToRecv < R.phase.stepsToRecv ∧
      ((∃ q, acked ≤ q ∧ q < R'.appended.length ∧ out = some (ackPacket (seqOf n q))) ∨
        ¬ R.Answers acked ∧ (R.side = .waiting ∨ R.side = .holding →
          R'.side = .waiting ∨ R'.side = .holding)) := by
  have hsound := h.sound
  have hwindow := h.window
  unfold receiverStep at hstep
  cases hphase : R.phase with
  | top =>
    rw [hphase] at hsound hstep
    simp only [hsound.2, if_true] at hstep
    cases hstep
    refine ⟨Nat.one_pos, .inr ⟨fun hanswers => ?_, fun _ => .inl rfl⟩⟩
    rw [hanswers.1] at hphase
    cases hphase
  | deliver =>
    rw [hphase] at hsound hstep
    dsimp only at hstep
    rcases hsound with hadded | ⟨hadded, pkt, hpkt, hslot⟩
    · rw [← hadded] at hwindow
      rw [deliver_of_none hwindow h.started] at hstep
      cases hstep
      refine ⟨Nat.lt_succ_self _, ?_⟩
      rcases Nat.lt_or_ge acked added with hlt | hge
      · refine .inl ⟨added - 1, by omega, by dsimp only; omega, ?_⟩
        rw [if_pos (by omega)]
      · refine .inr ⟨?_, fun _ => .inl rfl⟩
        rintro ⟨-, hside | hlt⟩
        · rw [Receiver.side, hphase, hwindow.numPendingAcks, Nat.sub_self] at hside
          cases hside
        · omega
    · have hpos : 0 < added := by rw [hadded]; exact Nat.succ_pos _
      rw [hadded] at hwindow
      rw [deliver_of_pending hwindow (h.started.trans (decide_eq_true hpos)) hslot] at hstep
      cases hstep
      refine ⟨?_, .inl ⟨_, hacked, ?_, rfl⟩⟩
      · dsimp only
        split_ifs <;> exact Nat.lt_succ_self _
      · dsimp only
        rw [List.length_append, List.length_singleton]
        exact Nat.lt_succ_self _
  | close =>
    rw [hphase] at hstep
    cases hstep
    refine ⟨Nat.one_pos, .inr ⟨fun hanswers => ?_, fun hreceive => ?_⟩⟩
    · rw [hanswers.1] at hphase
      cases hphase
    · rcases Receiver.receiving_iff.1 hreceive with e | e | e <;> rw [hphase] at e <;> cases e
  | read => rw [hphase] at hstep; cases hstep
  | readClose => rw [hphase] at hstep; cases hstep
  | exited => rw [hphase] at hstep; cases hstep

/-- A packet that the receiver has taken before is answered like the one it waits for. -/
theorem ReceiverInv.recv_patient (acked : ℕ) (hnum : Numbered n pkts)
    (h : ReceiverInv pkts n base added R)
    (hrecv : receiverRecv stack (some (datagram pkt)) R = some R') :
    R.phase.stepsToRecv = 0 ∧ R'.phase.stepsToRecv ≤ 2 ∧ R'.appended = R.appended ∧
      (R.side = .waiting ∨ R.side = .holding → (R'.side = .waiting ∨ R'.side = .holding) ∧
        (acked ≤ R.appended.length → pkts[acked]? = some pkt → R'.Answers acked)) := by
  rcases receiverRecv_phase hrecv with hphase | hphase
  · rw [h.recv_read hphase] at hrecv
    refine ⟨by rw [hphase]; rfl, ?_, ?_, fun _ => ⟨?_, fun hle hpkt => ?_⟩⟩
    · cases hrecv
      exact le_rfl
    · cases hrecv
      rfl
    · cases hrecv
      exact Receiver.receiving_iff.2 (.inr (.inr rfl))
    · rcases hle.lt_or_eq with hlt | rfl
      · cases hrecv
        exact ⟨rfl, .inr hlt⟩
      · rw [if_pos ⟨hnum.close hpkt, hnum.verifies hpkt, hnum.seqNum hpkt, hnum.ack hpkt⟩] at hrecv
        cases hrecv
        exact ⟨rfl, .inl (h.accepted hphase hpkt).2⟩
  · rw [receiverRecv_readClose hphase] at hrecv
    refine ⟨by rw [hphase]; rfl, ?_, ?_, fun hreceive => ?_⟩
    · cases hrecv
      dsimp only
      split_ifs <;> simp [ReceiverPhase.stepsToRecv]
    · cases hrecv
      rfl
    · rcases Receiver.receiving_iff.1 hreceive with e | e | e <;> rw [hphase] at e <;> cases e

end Receiver

/-! ### Some patient event can happen -/

/-- Where the sender waits with nothing on the way to it, the receiver moves or takes a datagram, or
the sender times out. -/
theorem exists_patient {pkts : List Packet} {n acked : ℕ} {J : Joint} {fwd rev : List (Option ℕ)}
    (h : Related pkts n J acked fwd rev) (hsend : J.Transmitting) (hleave : Leavable pkts J) :
    ∃ event J', event.Patient J ∧ J.step pkts event = some J' := by
  by_cases hphase : J.sender.phase = .recvAck
  swap
  · obtain ⟨r, hr⟩ := h.sender.exists_step hsend hphase false false
    exact ⟨.sender false false, _, ⟨rfl, rfl⟩, by rw [Joint.step, hr, Option.map_some]⟩
  cases hrev : J.rev with
  | cons pkt rest =>
    refine ⟨.senderRecv zeroPacket, ?_⟩
    simp only [Joint.step, hrev, senderRecv, hphase, Option.map_some]
    exact ⟨_, trivial, rfl⟩
  | nil =>
    have hsound := h.sender.sound
    rw [hphase] at hsound
    have hlt : acked < J.sender.i := hsound
    have hreceive : J.Receiving := by
      rcases hleave hsend with hr | ⟨pkt, hpkt, -⟩ | hacked
      · exact hr
      · rw [hrev] at hpkt
        cases hpkt
      · rw [h.allAcked_iff] at hacked
        have hi := h.sender.i_le
        omega
    obtain ⟨base, added, hR⟩ := h.receiver
    by_cases hread : J.receiver.phase = .read
    · cases hfwd : J.fwd with
      | nil =>
        refine ⟨.senderTimeout zeroPacket, ?_⟩
        rw [Joint.step, senderRecv_timeout zeroPacket hphase, Option.map_some]
        exact ⟨_, ⟨hrev, .inl ⟨hfwd, .inl hread⟩⟩, rfl⟩
      | cons pkt rest =>
        refine ⟨.receiverRecv zeroPacket, ?_⟩
        simp only [Joint.step, hfwd]
        rw [hR.recv_read hread]
        exact ⟨_, trivial, rfl⟩
    · obtain ⟨r, hr⟩ := hR.exists_step hread
        (fun e => by rcases Receiver.receiving_iff.1 hreceive with e' | e' | e' <;>
          rw [e'] at e <;> cases e)
        (fun e => by rcases Receiver.receiving_iff.1 hreceive with e' | e' | e' <;>
          rw [e'] at e <;> cases e) false false [] []
      exact ⟨.receiver false false [] [], _, ⟨rfl, rfl⟩, by rw [Joint.step, hr, Option.map_some]⟩

end Tcp118
