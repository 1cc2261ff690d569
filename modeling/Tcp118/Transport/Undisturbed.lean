import Tcp118.Transport.Events
import Tcp118.Transport.Leaving

/-!
# The two sides when nothing goes wrong

Nothing is lost or zeroed, and no `recvfrom` times out.

* `Sending`, `Sending.step`: a transfer, with the datagrams that have been sent;
* `Event.Undisturbed`: the events;
* `Sender.Fresh`, `SenderInv.fresh_step`: what the sender sends next it has not sent before;
* `Receiver.Steady`, `Steady.step`, `Steady.recv`: the receiver takes everything that arrives;
* `Sender.work`, `Receiver.work`: each step of a side leaves less to do;
* `SenderInv.exists_step`, `ReceiverInv.exists_step`: a side stops nowhere but in `recvfrom`.
-/

namespace Tcp118

open Protocol

/-- A transfer, with the datagrams that `writeTCP` has sent; they are no variable of the source. -/
structure Sending where
  joint : Joint
  sent : List Packet

/-- What an event sends for `writeTCP`. -/
def Joint.sends (pkts : List Packet) (J : Joint) : Event → List Packet
  | .sender lost corr => ((senderStep pkts lost corr J.sender).bind Prod.snd).toList
  | _ => []

def Sending.step (pkts : List Packet) (event : Event) (T : Sending) : Option Sending :=
  (T.joint.step pkts event).map fun J => ⟨J, T.sent ++ T.joint.sends pkts event⟩

theorem Sending.exists_step {pkts : List Packet} {event : Event} {T : Sending}
    (h : ∃ J, T.joint.step pkts event = some J) : ∃ T', T.step pkts event = some T' := by
  obtain ⟨J, hJ⟩ := h
  exact ⟨_, by rw [Sending.step, hJ, Option.map_some]⟩

/-- An event that loses nothing and zeroes nothing, and no timeout. -/
def Event.Undisturbed : Event → Prop
  | .sender lost corr => lost = false ∧ corr = false
  | .receiver lost corr _ _ => lost = false ∧ corr = false
  | .senderRecv _ => True
  | .receiverRecv _ => True
  | _ => False

/-- Empty channels. -/
structure Sending.Initial (W : ℕ) (T : Sending) : Prop where
  joint : T.joint.Initial W
  fwd : T.joint.fwd = []
  rev : T.joint.rev = []
  sent : T.sent = []

/-! ### The sender -/

/-- The sender has sent the first `k` packets, each once.  In its loop there is something left to
do, and the window is full when there is nothing pending at the shift test. -/
def Sender.Fresh (pkts : List Packet) (n acked k : ℕ) (S : Sender) : Prop :=
  match S.phase with
  | .top => k = acked ∧ acked = S.i
  | .fill => k = acked ∧ acked < pkts.length
  | .shift => k = acked ∧ acked < pkts.length ∧ (acked = S.i → S.i = S.shifted + n)
  | .write todo => k ≤ S.i ∧ todo = slotsFrom pkts n k S.i
  | .readAck => k = S.i
  | .recvAck => k = S.i
  | _ => k = pkts.length

/-- The steps of the sender's loop without an effect that may follow each other. -/
def SenderPhase.rank (acked i : ℕ) : SenderPhase → ℕ
  | .write _ => if acked = i then 7 else 2
  | .readAck => if acked = i then 6 else 1
  | .top => 5
  | .fill => 4
  | .shift => 3
  | _ => 0

/-- What is left to do for the sender, but for the acknowledgements it waits for. -/
def Sender.work (m acked k : ℕ) (S : Sender) : ℕ :=
  16 * ((m - S.i) + (m - S.shifted) + (m - k)) + 2 * S.phase.rank acked S.i

section Sender

variable {pkts : List Packet} {n acked k : ℕ} {S S' : Sender} {corr : Bool} {out : Option Packet}

/-- Behind the shift test the pending packets are to be sent. -/
theorem SenderInv.step_shift (h : SenderInv pkts n acked S) (hphase : S.phase = .shift)
    (lost corr : Bool) :
    senderStep pkts lost corr S =
      some ({ S.shiftWnd with phase := .write (slotsFrom pkts n acked S.i) }, none) := by
  unfold senderStep
  rw [hphase]
  dsimp only
  rcases h.shiftWnd with ⟨hg, he, hfull, hw'⟩ | ⟨hg, he⟩
  · have hst' : Stored pkts n S.i S.i (cwndShiftWnd S.cwndW) := fun x h1 h2 => absurd h2 (by omega)
    rw [he]
    dsimp only
    rw [writePackets_eq hw' hst', Option.map_some]
  · rw [he, writePackets_eq h.window h.stored, Option.map_some]

theorem shiftWnd_i (S : Sender) : S.shiftWnd.i = S.i := by
  unfold Sender.shiftWnd
  split_ifs <;> rfl

/-- The sender sends nothing, or the first packet that it has not sent before. -/
theorem SenderInv.fresh_step (h : SenderInv pkts n acked S) (hfresh : S.Fresh pkts n acked k)
    (hside : S.side = .transmitting) (hstep : senderStep pkts false corr S = some (S', out)) :
    (out = none ∧ (S'.side = .transmitting ∨ S'.phase = .close) ∧ S'.Fresh pkts n acked k ∧
        S'.work pkts.length acked k < S.work pkts.length acked k) ∨
      k < S.i ∧ out = pkts[k]? ∧ S'.side = .transmitting ∧ S'.Fresh pkts n acked (k + 1) ∧
        S'.work pkts.length acked (k + 1) < S.work pkts.length acked k := by
  obtain ⟨phase, w, i, shifted⟩ := S
  have hpend := h.window.numPendingAcks
  have hle := h.window.acked_le
  have hroom := h.window.added_le
  have hn := h.window.pos
  have hi := h.i_le
  dsimp only at hpend hle hroom hi
  cases phase with
  | top =>
    obtain ⟨hk, hacked⟩ := hfresh
    simp only [senderStep, hpend] at hstep
    split_ifs at hstep with hmore
    · cases hstep
      refine .inl ⟨rfl, .inl rfl, ⟨hk, by dsimp only at hacked; omega⟩, ?_⟩
      simp only [Sender.work, SenderPhase.rank]
      omega
    · cases hstep
      refine .inl ⟨rfl, .inr rfl, ?_, ?_⟩
      · change k = pkts.length
        dsimp only at hacked
        omega
      · simp only [Sender.work, SenderPhase.rank]
        omega
  | fill =>
    obtain ⟨hk, hacked⟩ := hfresh
    simp only [senderStep] at hstep
    cases hpkt : pkts[i]? with
    | none =>
      have hlen := List.getElem?_eq_none_iff.1 hpkt
      rw [hpkt] at hstep
      cases hstep
      refine .inl ⟨rfl, .inl rfl, ⟨hk, hacked, fun e => ?_⟩, ?_⟩
      · dsimp only at e
        omega
      · simp only [Sender.work, SenderPhase.rank]
        omega
    | some pkt =>
      have hlen : i < pkts.length := (List.getElem?_eq_some_iff.1 hpkt).1
      simp only [hpkt] at hstep
      split_ifs at hstep with hadd
      · cases hstep
        refine .inl ⟨rfl, .inl rfl, ⟨hk, hacked⟩, ?_⟩
        simp only [Sender.work, SenderPhase.rank]
        omega
      · cases hstep
        have hfull : ¬ i < shifted + n := fun e => hadd (h.window.checkAdd_iff.2 e)
        refine .inl ⟨rfl, .inl rfl, ⟨hk, hacked, fun _ => ?_⟩, ?_⟩
        · dsimp only
          omega
        · simp only [Sender.work, SenderPhase.rank]
          omega
  | shift =>
    obtain ⟨hk, hacked, hfull⟩ := hfresh
    dsimp only at hfull
    rw [h.step_shift rfl] at hstep
    cases hstep
    refine .inl ⟨rfl, .inl rfl, ?_, ?_⟩
    · change k ≤ Sender.i (Sender.shiftWnd _) ∧
        slotsFrom pkts n acked i = slotsFrom pkts n k (Sender.i (Sender.shiftWnd _))
      rw [shiftWnd_i, hk]
      exact ⟨hle, rfl⟩
    · simp only [Sender.work, SenderPhase.rank, shiftWnd_i]
      rcases h.shiftWnd with ⟨hg, he, hi', -⟩ | ⟨hg, he⟩
      · rw [he]
        dsimp only at hg hi' ⊢
        split_ifs <;> omega
      · rw [he]
        dsimp only at hg ⊢
        rw [if_neg fun e => hg (by omega)]
        omega
  | write todo =>
    obtain ⟨hki, htodo⟩ := hfresh
    dsimp only at hki htodo
    subst htodo
    simp only [senderStep] at hstep
    rcases Nat.lt_or_ge k i with hlt | hge
    · have hpkt : pkts[k]? = some pkts[k] := List.getElem?_eq_getElem (by omega)
      rw [slotsFrom_of_lt hlt] at hstep
      simp only [hpkt, Option.map_some] at hstep
      cases hstep
      refine .inr ⟨hlt, hpkt.symm, rfl, ⟨hlt, rfl⟩, ?_⟩
      simp only [Sender.work, SenderPhase.rank]
      omega
    · obtain rfl : k = i := by omega
      rw [slotsFrom_self] at hstep
      cases hstep
      refine .inl ⟨rfl, .inl rfl, rfl, ?_⟩
      simp only [Sender.work, SenderPhase.rank]
      split_ifs <;> omega
  | readAck =>
    have hk : k = i := hfresh
    simp only [senderStep, hpend] at hstep
    split_ifs at hstep with hnone
    · cases hstep
      have hall : acked = i := by omega
      refine .inl ⟨rfl, .inl rfl, ⟨hk.trans hall.symm, hall⟩, ?_⟩
      simp only [Sender.work, SenderPhase.rank, if_pos hall]
      omega
    · cases hstep
      have hsome : acked ≠ i := by omega
      refine .inl ⟨rfl, .inl rfl, hk, ?_⟩
      simp only [Sender.work, SenderPhase.rank, if_neg hsome]
      omega
  | recvAck => cases hstep
  | close => cases hside
  | readClose j => cases hside
  | exited b => cases hside

/-- The sender's loop stops nowhere but in `recvfrom`. -/
theorem SenderInv.exists_step (h : SenderInv pkts n acked S) (hside : S.side = .transmitting)
    (hphase : S.phase ≠ .recvAck) (lost corr : Bool) :
    ∃ r, senderStep pkts lost corr S = some r := by
  obtain ⟨phase, w, i, shifted⟩ := S
  cases phase with
  | top =>
    simp only [senderStep]
    split_ifs <;> exact ⟨_, rfl⟩
  | fill =>
    simp only [senderStep]
    cases pkts[i]? with
    | none => exact ⟨_, rfl⟩
    | some pkt =>
      dsimp only
      split_ifs <;> exact ⟨_, rfl⟩
  | shift => exact ⟨_, h.step_shift rfl lost corr⟩
  | write todo =>
    obtain ⟨y, -, hyi, htodo⟩ := h.sound
    have hi : i ≤ pkts.length := h.i_le
    dsimp only at hyi htodo
    subst htodo
    rcases Nat.lt_or_ge y i with hlt | hge
    · have hpkt : pkts[y]? = some pkts[y] := List.getElem?_eq_getElem (by omega)
      rw [slotsFrom_of_lt hlt, hpkt]
      exact ⟨_, rfl⟩
    · obtain rfl : y = i := by omega
      rw [slotsFrom_self]
      exact ⟨_, rfl⟩
  | readAck =>
    simp only [senderStep]
    split_ifs <;> exact ⟨_, rfl⟩
  | recvAck => exact absurd rfl hphase
  | close => cases hside
  | readClose j => cases hside
  | exited b => cases hside

end Sender

/-! ### The receiver -/

/-- A receiver that has taken everything that has arrived, `got` packets. -/
structure Receiver.Steady (pkts : List Packet) (n got : ℕ) (R : Receiver) : Prop where
  inv : ∃ base added, ReceiverInv pkts n base added R
  got_eq : got = R.appended.length + if R.phase = .deliver then 1 else 0
  holding : R.phase = .deliver → R.side = .holding
  closing : R.phase = .close ∨ R.phase = .readClose → R.appended.length = pkts.length
  reading : R.phase ≠ .exited

/-- The close packets that such a receiver has sent. -/
def Receiver.closes (R : Receiver) : List Packet :=
  if R.phase = .readClose then [closePacket] else []

/-- The steps of the receiver without an effect that may follow each other. -/
def ReceiverPhase.rank : ReceiverPhase → ℕ
  | .top => 1
  | .close => 1
  | _ => 0

/-- What is left to do for the receiver. -/
def Receiver.work (m got : ℕ) (R : Receiver) : ℕ :=
  16 * ((m - got) + (m - R.appended.length)) + R.phase.rank

section Receiver

variable {pkts : List Packet} {n got : ℕ} {R R' : Receiver} {behind heap : List UInt8}
  {out : Option Packet} {stack pkt : Packet}

/-- What the receiver sends: nothing, the next acknowledgement, or a close packet at its end. -/
inductive SteadyEffect (n : ℕ) (R R' : Receiver) : Option Packet → Prop
  | quiet : R'.appended.length = R.appended.length → R'.closes = R.closes →
      SteadyEffect n R R' none
  | ack : R'.appended.length = R.appended.length + 1 → R.closes = [] → R'.closes = [] →
      SteadyEffect n R R' (some (ackPacket (seqOf n R.appended.length)))
  | close : R'.appended.length = R.appended.length → R.closes = [] → R'.closes = [closePacket] →
      SteadyEffect n R R' (some closePacket)

theorem Receiver.Steady.step (hnum : Numbered n pkts) (h : R.Steady pkts n got)
    (hstep : receiverStep false false behind heap R = some (R', out)) :
    R'.Steady pkts n got ∧ SteadyEffect n R R' out ∧
      R'.work pkts.length got < R.work pkts.length got := by
  obtain ⟨base, added, hR⟩ := h.inv
  obtain ⟨⟨base', hR'⟩, -⟩ := hR.step hstep
  have hgot := h.got_eq
  have hsound := hR.sound
  cases hphase : R.phase with
  | top =>
    rw [hphase] at hsound hgot
    obtain ⟨R₁, hs, hphase', happ⟩ := receiverStep_top hphase hsound.2 false false behind heap
    cases hs.symm.trans hstep
    refine ⟨⟨⟨base', added, hR'⟩, ?_, fun e => ?_, fun e => ?_, fun e => ?_⟩,
      .quiet (by rw [happ]) (by rw [Receiver.closes, Receiver.closes, hphase, hphase']; rfl), ?_⟩
    · rw [happ, hphase']
      exact hgot
    · rw [hphase'] at e; cases e
    · rw [hphase'] at e; rcases e with e | e <;> cases e
    · rw [hphase'] at e; cases e
    · rw [Receiver.work, Receiver.work, hphase, hphase', happ]
      exact Nat.lt_succ_self _
  | deliver =>
    have hside := h.holding hphase
    rw [hphase] at hsound hgot
    rcases hsound with hadded | ⟨hadded, pkt, hpkt, hslot⟩
    · rw [Receiver.side, hphase, hR.window.numPendingAcks, hadded, Nat.sub_self] at hside
      cases hside
    · have hwindow := hR.window
      have hpos : 0 < added := by rw [hadded]; exact Nat.succ_pos _
      have hstart : R.cwndR.start = true := hR.started.trans (decide_eq_true hpos)
      rw [hadded] at hwindow
      unfold receiverStep at hstep
      rw [hphase] at hstep
      dsimp only at hstep
      rw [deliver_of_pending hwindow hstart hslot] at hstep
      cases hstep
      have hlength : (R.appended ++ [pkt]).length = R.appended.length + 1 := by simp
      refine ⟨⟨⟨base', added, hR'⟩, ?_, fun e => ?_, fun e => ?_, fun e => ?_⟩,
        .ack hlength (by rw [Receiver.closes, hphase]; rfl)
          (if_neg (by split_ifs <;> exact fun e => by cases e)), ?_⟩
      · dsimp only
        rw [if_neg (by split_ifs <;> exact fun e => by cases e)]
        exact hgot.trans hlength.symm
      · dsimp only at e
        split_ifs at e
      · dsimp only at e ⊢
        split_ifs at e with hlast
        · rcases e with e | e <;> cases e
        · rw [hlength]
          exact ((hnum.last hpkt).1 (by simpa using hlast)).2
      · dsimp only at e
        split_ifs at e
      · have hlen := hR'.length_le
        dsimp only at hlen
        rw [hlength] at hlen
        simp only [Receiver.work, hphase, hlength]
        split_ifs <;> simp only [ReceiverPhase.rank] <;> omega
  | close =>
    rw [hphase] at hgot
    have hall := h.closing (.inl hphase)
    unfold receiverStep at hstep
    rw [hphase] at hstep
    cases hstep
    refine ⟨⟨⟨base', added, hR'⟩, hgot, fun e => (by cases e), fun _ => hall,
      fun e => (by cases e)⟩, .close rfl (by rw [Receiver.closes, hphase]; rfl) rfl, ?_⟩
    rw [Receiver.work, Receiver.work, hphase]
    exact Nat.lt_succ_self _
  | read => unfold receiverStep at hstep; rw [hphase] at hstep; cases hstep
  | readClose => unfold receiverStep at hstep; rw [hphase] at hstep; cases hstep
  | exited => unfold receiverStep at hstep; rw [hphase] at hstep; cases hstep

/-- The receiver stops nowhere but in `recvfrom`. -/
theorem ReceiverInv.exists_step {base added : ℕ} (h : ReceiverInv pkts n base added R)
    (hread : R.phase ≠ .read) (hclose : R.phase ≠ .readClose) (hexited : R.phase ≠ .exited)
    (lost corr : Bool) (behind heap : List UInt8) :
    ∃ r, receiverStep lost corr behind heap R = some r := by
  have hsound := h.sound
  have hwindow := h.window
  unfold receiverStep
  cases hphase : R.phase with
  | top => exact ⟨_, rfl⟩
  | deliver =>
    rw [hphase] at hsound
    rcases hsound with hadded | ⟨hadded, pkt, -, hslot⟩
    · rw [← hadded] at hwindow
      exact ⟨_, deliver_of_none hwindow h.started lost corr behind heap⟩
    · have hpos : 0 < added := by rw [hadded]; exact Nat.succ_pos _
      rw [hadded] at hwindow
      exact ⟨_, deliver_of_pending hwindow (h.started.trans (decide_eq_true hpos)) hslot lost corr
        behind heap⟩
  | close => exact ⟨_, rfl⟩
  | read => exact absurd hphase hread
  | readClose => exact absurd hphase hclose
  | exited => exact absurd hphase hexited

theorem Receiver.Steady.exists_step (h : R.Steady pkts n got) (hread : R.phase ≠ .read)
    (hclose : R.phase ≠ .readClose) (lost corr : Bool) (behind heap : List UInt8) :
    ∃ r, receiverStep lost corr behind heap R = some r := by
  obtain ⟨base, added, hR⟩ := h.inv
  exact hR.exists_step hread hclose h.reading lost corr behind heap

/-- Whatever arrives is what the receiver expects. -/
theorem Receiver.Steady.recv (hnum : Numbered n pkts) (h : R.Steady pkts n got)
    (hpkt : pkts[got]? = some pkt)
    (hrecv : receiverRecv stack (some (datagram pkt)) R = some R') :
    R'.Steady pkts n (got + 1) ∧ R'.appended = R.appended ∧ R'.closes = R.closes ∧
      R'.work pkts.length (got + 1) < R.work pkts.length got := by
  obtain ⟨base, added, hR⟩ := h.inv
  have hgot := h.got_eq
  rcases receiverRecv_phase hrecv with hphase | hphase
  · rw [hphase] at hgot
    have hgot' : got = R.appended.length := hgot
    subst hgot'
    obtain ⟨hinv, hside⟩ := hR.accepted hphase hpkt
    rw [hR.recv_read hphase, if_pos
      ⟨hnum.close hpkt, hnum.verifies hpkt, hnum.seqNum hpkt, hnum.ack hpkt⟩] at hrecv
    cases hrecv
    have hlen : R.appended.length < pkts.length := (List.getElem?_eq_some_iff.1 hpkt).1
    refine ⟨⟨⟨base, added + 1, hinv⟩, rfl, fun _ => hside,
      fun e => (by rcases e with e | e <;> cases e), fun e => (by cases e)⟩, rfl,
      by rw [Receiver.closes, Receiver.closes, hphase]; rfl, ?_⟩
    simp only [Receiver.work, hphase, ReceiverPhase.rank]
    omega
  · rw [hphase] at hgot
    have hgot' : got = R.appended.length := hgot
    rw [hgot', h.closing (.inr hphase), List.getElem?_eq_none le_rfl] at hpkt
    cases hpkt

end Receiver

end Tcp118
