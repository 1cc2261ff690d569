import Tcp118.Library.Runs
import Tcp118.Transport.Events
import Tcp118.Transport.InFlight
import Tcp118.Transport.FinalAck
import Tcp118.Transport.Message

/-!
# When `readTCP` can return

`readTCP` returns for a close packet of its peer.  The peer sends them in its closing loop, which
it may leave for good after ten timeouts, and gets there only with the acknowledgement of the final
packet.

* `CanReturn`, `Completable`: some run leads to the return, and the condition on the state;
* `canReturn_of_closePacket`, `canReturn_of_closing`, `canReturn_of_canLeave`: the ways to return;
* `Joint.close_of_exit`, `closing_or_left`: both sides at the end of the transmission loop;
* `Stranded`, `Stranded.not_canReturn`: without a close packet there is none;
* `canReturn_iff`: the exact condition on a reachable state;
* `readTCP_canReturn_iff`: the same by the length of the buffer;
* `returned_drained`: what the return leaves in flight.
-/

namespace Tcp118

open Protocol

/-- Some run leads to the return of `readTCP`. -/
def CanReturn (buf : List UInt8) (W : ℕ) (J : Joint) : Prop :=
  ∃ J', (transferSystem buf W).Reaches J J' ∧ J'.receiver.phase = .exited

/-- The receiver is in its receive loop, or a close packet is in flight to it, or the sender can
still send one. -/
def Completable (pkts : List Packet) (J : Joint) : Prop :=
  J.Receiving ∨ closePacket ∈ J.fwd ∨ J.sender.side = .closing ∨
    J.Transmitting ∧ (FinalAckInFlight pkts J ∨ AllAcked pkts J)

theorem Receiver.side_eq_closing_iff {R : Receiver} :
    R.side = .closing ↔ R.phase = .close ∨ R.phase = .readClose := by
  unfold Receiver.side
  cases R.phase with
  | deliver =>
    constructor
    · intro h
      split_ifs at h
    · rintro (h | h) <;> cases h
  | _ => simp

theorem Sender.side_eq_closing_iff {S : Sender} :
    S.side = .closing ↔ S.phase = .close ∨ ∃ k, S.phase = .readClose k := by
  unfold Sender.side
  cases S.phase <;> simp

theorem Sender.side_eq_left_iff {S : Sender} {b : Bool} :
    S.side = .left b ↔ S.phase = .exited b := by
  unfold Sender.side
  cases S.phase <;> simp

section Reachable

variable {buf : List UInt8} {n : ℕ} {J : Joint}

theorem canReturn_of_reaches {W : ℕ} {J' : Joint} (h : (transferSystem buf W).Reaches J J')
    (h' : CanReturn buf W J') : CanReturn buf W J := by
  obtain ⟨J'', hreach, hret⟩ := h'
  exact ⟨J'', h.trans hreach, hret⟩

/-- The network may drop the first datagrams to the receiver. -/
theorem reaches_dropFwd_count {W : ℕ} (J : Joint) (k : ℕ) :
    (transferSystem buf W).Reaches J { J with fwd := J.fwd.drop k } := by
  obtain ⟨sender, receiver, fwd, rev⟩ := J
  induction k generalizing fwd with
  | zero => exact .refl _
  | succ k ih =>
    cases fwd with
    | nil => exact .refl _
    | cons pkt fwd =>
      refine StepSystem.Reaches.trans (reaches_step (.dropFwd 0) ?_) (ih fwd)
      simp [Joint.step]

/-! ### Ways to return -/

/-- A closing receiver may come to wait for a close packet. -/
theorem reaches_readClose {W : ℕ} (hside : J.receiver.side = .closing) :
    ∃ R, (transferSystem buf W).Reaches J { J with receiver := R } ∧ R.phase = .readClose := by
  rcases Receiver.side_eq_closing_iff.1 hside with hphase | hphase
  · refine ⟨{ J.receiver with phase := .readClose }, ?_, rfl⟩
    apply reaches_step (.receiver true false [] [])
    simp only [Joint.step, receiverStep, hphase, Option.map_some, writeClosePacket, if_true,
      Option.toList_none, List.append_nil]
  · exact ⟨J.receiver, .refl J, hphase⟩

/-- A close packet is in flight. -/
theorem reaches_return {W : ℕ} (hside : J.receiver.side = .closing) (hclose : closePacket ∈ J.fwd) :
    ∃ J', (transferSystem buf W).Reaches J J' ∧ J'.receiver.phase = .exited ∧
      J'.sender = J.sender := by
  obtain ⟨R, hreach, hphase⟩ : ∃ R, (transferSystem buf W).Reaches J { J with receiver := R } ∧
      R.phase = .readClose := reaches_readClose hside
  obtain ⟨before, after, hsplit⟩ := List.append_of_mem hclose
  have hrest : J.fwd.drop before.length = closePacket :: after := by rw [hsplit, List.drop_left]
  have hdrop : (transferSystem buf W).Reaches { J with receiver := R }
      { J with receiver := R, fwd := J.fwd.drop before.length } :=
    reaches_dropFwd_count _ before.length
  rw [hrest] at hdrop
  have hrecv := receiverRecv_readClose hphase zeroPacket closePacket
  rw [if_pos ⟨getClose_closePacket, verifies_closePacket⟩] at hrecv
  have hread : (transferSystem buf W).Reaches { J with receiver := R, fwd := closePacket :: after }
      _ := reaches_receiverRecv rfl hrecv
  exact ⟨_, hreach.trans (hdrop.trans hread), rfl, rfl⟩

theorem canReturn_of_closePacket {W : ℕ} (hside : J.receiver.side = .closing)
    (hclose : closePacket ∈ J.fwd) : CanReturn buf W J := by
  obtain ⟨J', hreach, hret, -⟩ := reaches_return hside hclose
  exact ⟨J', hreach, hret⟩

/-- The sender may send a close packet, and then waits for an answer. -/
theorem reaches_close {W : ℕ} (hsend : J.sender.phase = .close) :
    (transferSystem buf W).Reaches J
      { J with
        sender := { J.sender with phase := .readClose 0 }
        fwd := J.fwd ++ [closePacket] } := by
  apply reaches_step (.sender false false)
  simp only [Joint.step, senderStep, hsend, Option.map_some, writeClosePacket,
    Bool.false_eq_true, if_false, Option.toList_some]

/-- The sender is about to send a close packet. -/
theorem canReturn_of_close {W : ℕ} (hside : J.receiver.side = .closing)
    (hsend : J.sender.phase = .close) : CanReturn buf W J :=
  canReturn_of_reaches (reaches_close hsend)
    (canReturn_of_closePacket hside (List.mem_append_right _ List.mem_cons_self))

/-- The sender is in its closing loop: a close packet of the receiver makes it send another one. -/
theorem canReturn_of_closing {W : ℕ} (hside : J.receiver.side = .closing)
    (hsend : J.sender.side = .closing) : CanReturn buf W J := by
  rcases Sender.side_eq_closing_iff.1 hsend with hphase | ⟨k, hphase⟩
  · exact canReturn_of_close hside hphase
  · obtain ⟨R, hreach, hclose⟩ : ∃ R, (transferSystem buf W).Reaches J { J with receiver := R } ∧
        R.phase = .close := by
      rcases Receiver.side_eq_closing_iff.1 hside with h | h
      · exact ⟨J.receiver, .refl J, h⟩
      · exact ⟨_, reaches_receiverTimeout (receiverRecv_readClose_timeout h zeroPacket), rfl⟩
    have hstep : (transferSystem buf W).Reaches { J with receiver := R }
        { J with receiver := { R with phase := .readClose }, rev := J.rev ++ [closePacket] } := by
      apply reaches_step (.receiver false false [] [])
      simp only [Joint.step, receiverStep, hclose, Option.map_some, writeClosePacket,
        Bool.false_eq_true, if_false, Option.toList_some]
    have hdrop : (transferSystem buf W).Reaches
        { J with receiver := { R with phase := .readClose }, rev := J.rev ++ [closePacket] } _ :=
      reaches_dropRev _ J.rev.length
    simp only [List.drop_left] at hdrop
    have hrecv : (transferSystem buf W).Reaches
        { J with receiver := { R with phase := .readClose }, rev := [closePacket] }
        { J with
          sender := { J.sender with phase := .close }
          receiver := { R with phase := .readClose }
          rev := [] } := by
      apply reaches_step (.senderRecv zeroPacket)
      have hno : ¬ (getClose closePacket = false ∧ verifies closePacket = true) := by
        rw [getClose_closePacket]
        rintro ⟨e, -⟩
        cases e
      simp only [Joint.step, senderRecv_readClose hphase, if_neg hno, Option.map_some]
    exact canReturn_of_reaches (hreach.trans (hstep.trans (hdrop.trans hrecv)))
      (canReturn_of_close rfl rfl)

/-! ### The end of the transmission loop -/

/-- The sender leaves its transmission loop for the start of its closing loop. -/
theorem senderStep_of_transmitting {pkts : List Packet} {lost corr : Bool} {S S' : Sender}
    {out : Option Packet} (hside : S.side = .transmitting)
    (h : senderStep pkts lost corr S = some (S', out)) :
    S'.side = .transmitting ∨ S'.phase = .close := by
  unfold Sender.side at hside
  unfold senderStep at h
  cases hphase : S.phase with
  | top =>
    rw [hphase] at h
    dsimp only at h
    split_ifs at h
    · cases h
      exact .inl rfl
    · cases h
      exact .inr rfl
  | fill =>
    rw [hphase] at h
    dsimp only at h
    split at h
    · split_ifs at h <;> cases h <;> exact .inl rfl
    · cases h
      exact .inl rfl
  | shift =>
    rw [hphase] at h
    obtain ⟨todo, -, heq⟩ := Option.map_eq_some_iff.1 h
    cases heq
    exact .inl rfl
  | write todo =>
    rw [hphase] at h
    cases todo with
    | nil =>
      cases h
      exact .inl rfl
    | cons entry todo =>
      obtain ⟨pkt, -, heq⟩ := Option.map_eq_some_iff.1 h
      cases heq
      exact .inl rfl
  | readAck =>
    rw [hphase] at h
    dsimp only at h
    split_ifs at h <;> cases h <;> exact .inl rfl
  | recvAck => rw [hphase] at h; cases h
  | close => rw [hphase] at hside; cases hside
  | readClose k => rw [hphase] at hside; cases hside
  | exited b => rw [hphase] at hside; cases hside

/-- Where the sender receives while it transmits. -/
theorem recvAck_of_recv {stack : Packet} {recv : Option Datagram} {S S' : Sender}
    (hside : S.side = .transmitting) (h : senderRecv stack recv S = some S') :
    S.phase = .recvAck := by
  rcases senderRecv_phase h with hphase | ⟨k, hphase⟩
  · exact hphase
  · rw [Sender.side, hphase] at hside
    cases hside

/-- A step that ends the transmission loop leads to the closing loop. -/
theorem Joint.close_of_exit {pkts : List Packet} {event : Event} {J' : Joint}
    (hsend : J.Transmitting) (hstep : J.step pkts event = some J') (hend : ¬ J'.Transmitting) :
    J'.sender.phase = .close := by
  rcases J.step_sender hstep with he | ⟨lost, corr, out, hs⟩ | ⟨stack, recv, hs⟩
  · rw [Joint.Transmitting, he] at hend
    exact absurd hsend hend
  · exact (senderStep_of_transmitting hsend hs).resolve_left hend
  · -- receiving an acknowledgement does not end the loop
    refine absurd ?_ hend
    have hphase := recvAck_of_recv hsend hs
    unfold senderRecv at hs
    rw [hphase] at hs
    rw [Joint.Transmitting, ← Option.some.inj hs, Sender.side]
    dsimp only
    cases (readAckPacket stack recv J.sender.cwndW).2 <;> rfl

variable (hn : 0 < n) (hring : 2 * n ∣ 2 ^ 22) (hb : 1024 * (2 * n) < 2 ^ 31)
include hn hring hb

/-- Where the sender has left its transmission loop and the final packet is flagged, the receiver
has left its receive loop. -/
theorem closing_or_left (hflag : finalFlag (sentPackets buf (1024 * n)) = true)
    (h : (transferSystem buf (1024 * n)).Reachable J) (hend : ¬ J.Transmitting) :
    J.receiver.side = .closing ∨ J.receiver.side = .left := by
  obtain ⟨acked, fwd, rev, hrel, hinv⟩ := Related.of_reachable hn hring hb h
  have htaken := (hrel.acked_eq hinv hend).2.2
  refine hinv.phases.closes hflag ?_ htaken
  have hne : sentPackets buf (1024 * n) ≠ [] := by
    intro e
    rw [e] at hflag
    cases hflag
  dsimp only [Joint.view]
  have := List.length_pos_of_ne_nil hne
  omega

omit hn hring hb in
/-- A run that leaves the transmission loop comes to the start of the closing loop. -/
theorem reaches_end (hsend : J.Transmitting) (hleave : CanLeave buf (1024 * n) J) :
    ∃ J', (transferSystem buf (1024 * n)).Reaches J J' ∧ ¬ J'.Transmitting ∧
      J'.sender.phase = .close := by
  obtain ⟨J', hreach, hend⟩ := hleave
  obtain ⟨J₁, J₂, hreach₁, hsend₁, hstep, hend₂⟩ := hreach.exists_exit hsend hend
  have hreach₂ := hreach₁.of_within.trans (.single hstep)
  obtain ⟨event, -, hevent⟩ := hstep
  exact ⟨J₂, hreach₂, hend₂, J₁.close_of_exit hsend₁ hevent hend₂⟩

/-- The transmission loop can be left: then `readTCP` can return. -/
theorem canReturn_of_canLeave (hflag : finalFlag (sentPackets buf (1024 * n)) = true)
    (h : (transferSystem buf (1024 * n)).Reachable J) (hsend : J.Transmitting)
    (hleave : CanLeave buf (1024 * n) J) : CanReturn buf (1024 * n) J := by
  obtain ⟨J', hreach, hend, hclose⟩ := reaches_end hsend hleave
  refine canReturn_of_reaches hreach ?_
  rcases closing_or_left hn hring hb hflag (h.trans hreach) hend with hside | hleft
  · exact canReturn_of_close hside hclose
  · exact ⟨J', .refl J', Receiver.side_eq_left_iff.1 hleft⟩

omit hn hring hb in
/-- Once `readTCP` has returned, `writeTCP` in its closing loop may return for a packet that its
peer sends next. -/
theorem reaches_heard {W : ℕ} {pkt : Packet} (hopen : getClose pkt = false)
    (hvalid : verifies pkt = true) (hret : J.receiver.phase = .exited)
    (hclosing : J.sender.side = .closing) :
    ∃ J', (transferSystem buf W).Reaches J J' ∧ J'.receiver.phase = .exited ∧
      J'.sender.phase = .exited true := by
  obtain ⟨J₁, hreach₁, hret₁, k, hphase₁⟩ : ∃ J₁, (transferSystem buf W).Reaches J J₁ ∧
      J₁.receiver.phase = .exited ∧ ∃ k, J₁.sender.phase = .readClose k := by
    rcases Sender.side_eq_closing_iff.1 hclosing with hphase | hphase
    · exact ⟨_, reaches_close hphase, hret, 0, rfl⟩
    · exact ⟨J, .refl J, hret, hphase⟩
  have hfollow : (transferSystem buf W).Reaches J₁ { J₁ with rev := J₁.rev ++ [pkt] } := by
    apply reaches_step (.follow pkt)
    rw [Joint.step, if_pos hret₁]
  have hdrop : (transferSystem buf W).Reaches { J₁ with rev := J₁.rev ++ [pkt] } _ :=
    reaches_dropRev _ J₁.rev.length
  simp only [List.drop_left] at hdrop
  have hrecv : (transferSystem buf W).Reaches { J₁ with rev := [pkt] }
      { J₁ with sender := { J₁.sender with phase := .exited true }, rev := [] } := by
    apply reaches_step (.senderRecv zeroPacket)
    simp only [Joint.step, senderRecv_readClose hphase₁, if_pos (And.intro hopen hvalid),
      Option.map_some]
  exact ⟨_, hreach₁.trans (hfollow.trans (hdrop.trans hrecv)), hret₁, rfl⟩

/-- A transfer whose final packet is flagged may come to the return of both calls, that of
`writeTCP` for a datagram. -/
theorem Joint.Initial.reaches_returned (hflag : finalFlag (sentPackets buf (1024 * n)) = true)
    (h : J.Initial (1024 * n)) :
    ∃ J', (transferSystem buf (1024 * n)).Reaches J J' ∧ J'.receiver.phase = .exited ∧
      J'.sender.phase = .exited true := by
  have hinit : (transferSystem buf (1024 * n)).Reachable J := .of_init h
  have hnum : Numbered n (sentPackets buf (1024 * n)) := numbered_packetsOf hring hb _ _
  obtain ⟨pkt, hpkt⟩ : ∃ pkt, (sentPackets buf (1024 * n))[0]? = some pkt := by
    cases hpkts : sentPackets buf (1024 * n) with
    | nil => rw [hpkts] at hflag; cases hflag
    | cons pkt pkts => exact ⟨pkt, rfl⟩
  obtain ⟨⟨heap, hsender⟩, ⟨heap', hreceiver⟩, -, -⟩ := h
  have hsend : J.Transmitting := by rw [Joint.Transmitting, hsender]; rfl
  have hreceive : J.Receiving := by rw [Joint.Receiving, hreceiver]; exact .inl rfl
  obtain ⟨J₁, hreach₁, hend, hclose⟩ :=
    reaches_end hsend (canLeave_of_receiving hn hring hb hinit hsend hreceive)
  obtain ⟨J₂, hreach₂, hret, hclosing⟩ : ∃ J₂, (transferSystem buf (1024 * n)).Reaches J₁ J₂ ∧
      J₂.receiver.phase = .exited ∧ J₂.sender.side = .closing := by
    rcases closing_or_left hn hring hb hflag (hinit.trans hreach₁) hend with hside | hleft
    · have hsent : (transferSystem buf (1024 * n)).Reaches J₁
          { J₁ with
            sender := { J₁.sender with phase := .readClose 0 }
            fwd := J₁.fwd ++ [closePacket] } := reaches_close hclose
      obtain ⟨J₂, hreach₂, hret, hsame⟩ : ∃ J₂, (transferSystem buf (1024 * n)).Reaches _ J₂ ∧
          J₂.receiver.phase = .exited ∧ J₂.sender = _ :=
        reaches_return (J := { J₁ with
          sender := { J₁.sender with phase := .readClose 0 }
          fwd := J₁.fwd ++ [closePacket] }) hside (List.mem_append_right _ List.mem_cons_self)
      exact ⟨J₂, hsent.trans hreach₂, hret, by rw [hsame]; rfl⟩
    · exact ⟨J₁, .refl J₁, Receiver.side_eq_left_iff.1 hleft,
        Sender.side_eq_closing_iff.2 (.inl hclose)⟩
  obtain ⟨J₃, hreach₃, hret₃, hsend₃⟩ :=
    reaches_heard (hnum.close hpkt) (hnum.verifies hpkt) hret hclosing
  exact ⟨J₃, hreach₁.trans (hreach₂.trans hreach₃), hret₃, hsend₃⟩

/-! ### No way to return -/

omit hn hring hb

/-- The sender has returned, and no close packet is in flight to the closing receiver. -/
structure Stranded (J : Joint) : Prop where
  receiver : J.receiver.side = .closing
  sender : ∃ b, J.sender.phase = .exited b
  noClose : closePacket ∉ J.fwd

theorem closePacket_ne_zeroPacket : closePacket ≠ zeroPacket := by
  intro e
  have hv := verifies_closePacket
  rw [e, verifies_zeroPacket] at hv
  cases hv

/-- A receiver that waits for a close packet does not return for anything else in flight. -/
theorem Related.close_of_exit {pkts : List Packet} {acked : ℕ} {fwd rev : List (Option ℕ)}
    (hnum : Numbered n pkts) (h : Related pkts n J acked fwd rev) {pkt : Packet}
    (hpkt : pkt ∈ J.fwd) (hexit : getClose pkt = true ∧ verifies pkt = true) :
    pkt = closePacket := by
  rcases h.data_or_control hpkt with ⟨j, -, hj⟩ | ⟨-, hclose | hzero⟩
  · rw [hnum.close hj] at hexit
    cases hexit.1
  · exact hclose
  · rw [hzero, verifies_zeroPacket] at hexit
    cases hexit.2

/-- A step of the receiver in its closing loop. -/
theorem receiverStep_closing {lost corr : Bool} {behind heap : List UInt8} {R R' : Receiver}
    {out : Option Packet} (hside : R.side = .closing)
    (h : receiverStep lost corr behind heap R = some (R', out)) : R'.side = .closing := by
  unfold receiverStep at h
  rcases Receiver.side_eq_closing_iff.1 hside with hphase | hphase
  · rw [hphase] at h
    cases h
    rfl
  · rw [hphase] at h
    cases h

theorem Stranded.step {pkts : List Packet} {acked : ℕ} {fwd rev : List (Option ℕ)}
    {event : Event} {J' : Joint} (hnum : Numbered n pkts) (h : Related pkts n J acked fwd rev)
    (hs : Stranded J) (hstep : J.step pkts event = some J') : Stranded J' := by
  obtain ⟨hside, ⟨b, hexited⟩, hno⟩ := hs
  cases event with
  | sender lost corr =>
    obtain ⟨r, hr, rfl⟩ := Option.map_eq_some_iff.1 hstep
    unfold senderStep at hr
    rw [hexited] at hr
    cases hr
  | senderRecv stack =>
    rw [Joint.step] at hstep
    split at hstep
    · cases hstep
    · obtain ⟨S', hr, rfl⟩ := Option.map_eq_some_iff.1 hstep
      unfold senderRecv at hr
      rw [hexited] at hr
      cases hr
  | senderTimeout stack =>
    obtain ⟨S', hr, rfl⟩ := Option.map_eq_some_iff.1 hstep
    unfold senderRecv at hr
    rw [hexited] at hr
    cases hr
  | receiver lost corr behind heap =>
    obtain ⟨⟨R', out⟩, hr, rfl⟩ := Option.map_eq_some_iff.1 hstep
    exact ⟨receiverStep_closing hside hr, ⟨b, hexited⟩, hno⟩
  | receiverRecv stack =>
    rw [Joint.step] at hstep
    cases hfwd : J.fwd with
    | nil => rw [hfwd] at hstep; cases hstep
    | cons pkt rest =>
      rw [hfwd] at hstep
      obtain ⟨R', hr, rfl⟩ := Option.map_eq_some_iff.1 hstep
      rw [hfwd, List.mem_cons, not_or] at hno
      have hmem : pkt ∈ J.fwd := by rw [hfwd]; exact List.mem_cons_self
      rcases receiverRecv_phase hr with hphase | hphase
      · rw [Receiver.side, hphase] at hside
        cases hside
      · rw [receiverRecv_readClose hphase, if_neg fun hexit =>
          hno.1 (h.close_of_exit hnum hmem hexit).symm] at hr
        cases hr
        exact ⟨rfl, ⟨b, hexited⟩, hno.2⟩
  | receiverTimeout stack =>
    obtain ⟨R', hr, rfl⟩ := Option.map_eq_some_iff.1 hstep
    rcases receiverRecv_phase hr with hphase | hphase
    · rw [Receiver.side, hphase] at hside
      cases hside
    · rw [receiverRecv_readClose_timeout hphase] at hr
      cases hr
      exact ⟨rfl, ⟨b, hexited⟩, hno⟩
  | dropFwd i =>
    rw [Joint.step] at hstep
    split_ifs at hstep
    cases hstep
    exact ⟨hside, ⟨b, hexited⟩, fun hmem => hno (List.mem_of_mem_eraseIdx hmem)⟩
  | dropRev i =>
    rw [Joint.step] at hstep
    split_ifs at hstep
    cases hstep
    exact ⟨hside, ⟨b, hexited⟩, hno⟩
  | zeroFwd i =>
    obtain ⟨channel, hz, rfl⟩ := Option.map_eq_some_iff.1 hstep
    obtain ⟨pkt, -, -, rfl⟩ := zeroAt_cases hz
    refine ⟨hside, ⟨b, hexited⟩, fun hmem => ?_⟩
    rcases List.mem_or_eq_of_mem_set hmem with hmem | heq
    · exact hno hmem
    · exact closePacket_ne_zeroPacket heq
  | zeroRev i =>
    obtain ⟨channel, hz, rfl⟩ := Option.map_eq_some_iff.1 hstep
    exact ⟨hside, ⟨b, hexited⟩, hno⟩
  | follow pkt =>
    rw [Joint.step] at hstep
    split_ifs at hstep
    cases hstep
    exact ⟨hside, ⟨b, hexited⟩, hno⟩

include hn hring hb

theorem Stranded.not_canReturn (hs : Stranded J)
    (h : (transferSystem buf (1024 * n)).Reachable J) : ¬ CanReturn buf (1024 * n) J := by
  have hnum : Numbered n (sentPackets buf (1024 * n)) := numbered_packetsOf hring hb _ _
  rintro ⟨J', hreach, hret⟩
  have hs' : Stranded J' := by
    refine hreach.invariant h hs fun J₁ J₂ h₁ hs₁ => ?_
    rintro ⟨event, -, hstep⟩
    obtain ⟨_, _, _, hrel, -⟩ := Related.of_reachable hn hring hb h₁
    exact hs₁.step hnum hrel hstep
  have hside := hs'.receiver
  rw [Receiver.side, hret] at hside
  cases hside

/-! ### The exact condition -/

/-- **When `readTCP` can return.**  For a buffer whose final packet is flagged, from a reachable
state some run leads to the return of `readTCP` exactly if it has returned, or it still receives
data, or a close packet is in flight to it, or the sender is in its closing loop, or the sender
transmits and has, or can get, the acknowledgement of the final packet. -/
theorem canReturn_iff (hflag : finalFlag (sentPackets buf (1024 * n)) = true)
    (h : (transferSystem buf (1024 * n)).Reachable J) :
    CanReturn buf (1024 * n) J ↔
      J.receiver.phase = .exited ∨ Completable (sentPackets buf (1024 * n)) J := by
  obtain ⟨acked, fwd, rev, hrel, hinv⟩ := Related.of_reachable hn hring hb h
  constructor
  · intro hret
    by_contra hno
    rw [not_or] at hno
    obtain ⟨hnot, hcomp⟩ := hno
    unfold Completable at hcomp
    simp only [not_or] at hcomp
    obtain ⟨hreceive, hclose, hclosing, hleave⟩ := hcomp
    have hside : J.receiver.side = .closing := by
      rcases J.receiving_or with hr | hc | hl
      · exact absurd hr hreceive
      · exact hc
      · exact absurd (Receiver.side_eq_left_iff.1 hl) hnot
    by_cases hsend : J.Transmitting
    · -- `readTCP` returns behind the end of the transmission loop
      have hcan : CanLeave buf (1024 * n) J := by
        obtain ⟨J', hreach, hret'⟩ := hret
        obtain ⟨_, _, _, -, hinv'⟩ := Related.of_reachable hn hring hb (h.trans hreach)
        exact ⟨J', hreach, hinv'.phases.left (Receiver.side_eq_left_iff.2 hret')⟩
      rcases (canLeave_iff hn hring hb h hsend).1 hcan with hr | hway
      · exact hreceive hr
      · exact hleave ⟨hsend, hway⟩
    · have hexited : ∃ b, J.sender.phase = .exited b := by
        cases hs : J.sender.side with
        | transmitting => exact absurd hs hsend
        | closing => exact absurd hs hclosing
        | left b => exact ⟨b, Sender.side_eq_left_iff.1 hs⟩
      exact Stranded.not_canReturn hn hring hb ⟨hside, hexited, hclose⟩ h hret
  · rintro (hret | hcomp)
    · exact ⟨J, .refl J, hret⟩
    · by_cases hsend : J.Transmitting
      · by_cases hreceive : J.Receiving
        · exact canReturn_of_canLeave hn hring hb hflag h hsend
            ((canLeave_iff hn hring hb h hsend).2 (.inl hreceive))
        · obtain ⟨hside, -, -⟩ := finished_of_not_receiving hinv hsend hreceive
          rcases hcomp with hr | hclose | hclosing | ⟨-, hway⟩
          · exact absurd hr hreceive
          · exact canReturn_of_closePacket hside hclose
          · exact canReturn_of_closing hside hclosing
          · exact canReturn_of_canLeave hn hring hb hflag h hsend
              ((canLeave_iff hn hring hb h hsend).2 (.inr hway))
      · rcases closing_or_left hn hring hb hflag h hsend with hside | hleft
        · rcases hcomp with hr | hclose | hclosing | ⟨hsend', -⟩
          · rcases hr with hr | hr <;> rw [hside] at hr <;> cases hr
          · exact canReturn_of_closePacket hside hclose
          · exact canReturn_of_closing hside hclosing
          · exact absurd hsend' hsend
        · exact ⟨J, .refl J, Receiver.side_eq_left_iff.1 hleft⟩

end Reachable

/-! ### By the length of the buffer -/

/-- The final packet of a buffer is flagged exactly if the length is no multiple of
`MAX_BODY_SIZE`. -/
theorem finalFlag_sentPackets_iff {buf : List UInt8}
    (hlen : (buf.length + (maxBodySize - 1)) / maxBodySize * packetSize < 2 ^ 31) (W : ℕ) :
    finalFlag (sentPackets buf W) = true ↔ buf.length % maxBodySize ≠ 0 := by
  rw [sentPackets_eq hlen]
  rcases Nat.eq_zero_or_pos buf.length with hzero | hpos
  · rw [hzero, Nat.zero_mod]
    exact ⟨fun e => (by cases e), fun e => absurd rfl e⟩
  have hcount : buf.length + 1011 < 2 ^ 32 := by
    simp only [maxBodySize, packetSize] at hlen
    omega
  rw [← finalFlagged_iff buf W buf.length hpos hcount]
  have hlast : (packetsOf buf W buf.length).length - 1 < (packetsOf buf W buf.length).length := by
    rw [length_packetsOf, numPackets_eq hlen]
    simp only [maxBodySize]
    omega
  constructor
  · intro hflag i hi
    have hpkt := List.getElem?_eq_getElem hi
    rw [getLast_packet hpkt]
    exact ⟨fun e => e.2, fun e => ⟨hflag, e⟩⟩
  · intro hall
    have hpkt := List.getElem?_eq_getElem hlast
    exact ((getLast_packet hpkt).1 ((hall _ hlast).2 (by omega))).1

section Lengths

variable {buf : List UInt8} {n : ℕ} {J : Joint}

theorem not_receiving_of_exited (h : J.receiver.phase = .exited) : ¬ J.Receiving := by
  rw [Joint.Receiving, Receiver.side_eq_left_iff.2 h]
  rintro (e | e) <;> cases e

/-- Without a flagged packet `readTCP` never leaves its receive loop. -/
theorem not_returned_of_not_flag (hn : 0 < n) (hring : 2 * n ∣ 2 ^ 22)
    (hb : 1024 * (2 * n) < 2 ^ 31) (hflag : finalFlag (sentPackets buf (1024 * n)) ≠ true)
    (h : (transferSystem buf (1024 * n)).Reachable J) : J.Receiving := by
  obtain ⟨_, _, _, -, hinv⟩ := Related.of_reachable hn hring hb h
  rcases J.receiving_or with hr | hleft
  · exact hr
  · exact absurd (hinv.phases.received hleft).1 hflag

theorem canReturn_iff_of_length (hn : 0 < n) (hring : 2 * n ∣ 2 ^ 22)
    (hb : 1024 * (2 * n) < 2 ^ 31)
    (hlen : (buf.length + (maxBodySize - 1)) / maxBodySize * packetSize < 2 ^ 31)
    (h : (transferSystem buf (1024 * n)).Reachable J) :
    CanReturn buf (1024 * n) J ↔ buf.length % maxBodySize ≠ 0 ∧
      (J.receiver.phase = .exited ∨ Completable (sentPackets buf (1024 * n)) J) := by
  rw [← finalFlag_sentPackets_iff hlen (1024 * n)]
  by_cases hflag : finalFlag (sentPackets buf (1024 * n)) = true
  · rw [canReturn_iff hn hring hb hflag h]
    exact ⟨fun hway => ⟨hflag, hway⟩, fun hway => hway.2⟩
  · refine ⟨?_, fun hway => absurd hway.1 hflag⟩
    rintro ⟨J', hreach, hret⟩
    exact absurd (not_returned_of_not_flag hn hring hb hflag (h.trans hreach))
      (not_receiving_of_exited hret)

/-- **The states from which `readTCP` can return**: for every buffer and every reachable state of
its transfer. -/
theorem readTCP_canReturn_iff {e : ℕ} (he : 10 ≤ e) (he' : e ≤ 29)
    (hlen : (buf.length + (maxBodySize - 1)) / maxBodySize * packetSize < 2 ^ 31)
    (h : (transferSystem buf (2 ^ e)).Reachable J) :
    CanReturn buf (2 ^ e) J ↔ buf.length % maxBodySize ≠ 0 ∧
      (J.receiver.phase = .exited ∨ Completable (sentPackets buf (2 ^ e)) J) := by
  obtain ⟨n, hW, hn, hring, hb⟩ := exists_packets_of_pow he he'
  rw [hW] at h ⊢
  exact canReturn_iff_of_length hn hring hb hlen h

theorem readTCP_canReturn_byte :
    CanReturn [65] (2 ^ 12) startOfTransfer ↔ [(65 : UInt8)].length % maxBodySize ≠ 0 ∧
      (startOfTransfer.receiver.phase = .exited ∨
        Completable (sentPackets [65] (2 ^ 12)) startOfTransfer) :=
  readTCP_canReturn_iff (by norm_num) (by norm_num) (by decide) startOfTransfer_reachable

/-- **Nothing of a transfer is left for a later `readTCP`.**  Once `readTCP` has returned, only
close packets and zeroed ones are in flight to it, and `readPacket` takes none of them, with
whatever window. -/
theorem returned_drained {e : ℕ} (he : 10 ≤ e) (he' : e ≤ 29)
    (h : (transferSystem buf (2 ^ e)).Reachable J) (hreturned : J.receiver.phase = .exited) :
    ∀ pkt ∈ J.fwd, IsControl pkt ∧ ∀ stack w r,
      readPacket stack (some (datagram pkt)) w = some r → r.1 = w := by
  obtain ⟨n, hW, hn, hring, hb⟩ := exists_packets_of_pow he he'
  rw [hW] at h
  intro pkt hpkt
  have hcontrol := control_of_returned hn hring hb h hreturned pkt hpkt
  refine ⟨hcontrol, fun stack w r => readPacket_ignores ?_ stack⟩
  rcases hcontrol.close_or with hclose | hzero
  · exact .inl hclose
  · exact .inr (.inl hzero)

/-- A transfer of one byte whose `readTCP` has returned. -/
theorem returned_drained_byte :
    ∃ J, (transferSystem [65] (2 ^ 12)).Reachable J ∧ J.receiver.phase = .exited ∧
      ∀ pkt ∈ J.fwd, IsControl pkt ∧ ∀ stack w r,
        readPacket stack (some (datagram pkt)) w = some r → r.1 = w := by
  obtain ⟨n, hW, hn, hring, hb⟩ := exists_packets_of_pow (e := 12) (by norm_num) (by norm_num)
  have hstart := startOfTransfer_reachable
  have hcan : CanReturn [65] (2 ^ 12) startOfTransfer := by
    rw [hW] at hstart ⊢
    exact (canReturn_iff_of_length hn hring hb (by decide) hstart).2
      ⟨by decide, .inr (.inl (.inl rfl))⟩
  obtain ⟨J, hreach, hret⟩ := hcan
  exact ⟨J, hstart.trans hreach, hret,
    returned_drained (by norm_num) (by norm_num) (hstart.trans hreach) hret⟩

end Lengths

end Tcp118
