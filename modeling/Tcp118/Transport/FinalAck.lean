import Tcp118.Transport.Progress

/-!
# Runs that keep the acknowledgement of the final packet

* `KeepsFinalAck`: the events that do not lose this acknowledgement;
* `Leavable`: the receiver is in its receive loop, or the acknowledgement is in flight or taken;
* `Leavable.step`, `Leavable.of_reachable`: it stays so along the runs whose events all keep the
  acknowledgement;
* `transfer_canLeave`: the exact condition, and these runs;
* `transfer_wedges`: a run that loses the acknowledgement.
-/

namespace Tcp118

open Protocol

/-- An event does not lose the acknowledgement of the final packet: it is sent and not corrupted
when the receiver holds the flagged final packet, and neither dropped nor zeroed afterwards. -/
def KeepsFinalAck (pkts : List Packet) (event : Event) (J : Joint) : Prop :=
  match event with
  | .receiver lost corr _ _ => J.receiver.side = .holding → finalFlag pkts = true →
      J.receiver.appended.length + 1 = pkts.length → lost = false ∧ corr = false
  | .dropRev i => ¬ J.Receiving → ∀ pkt, J.rev[i]? = some pkt → ¬ IsFinalAck pkts pkt
  | .zeroRev i => ¬ J.Receiving → ∀ pkt, J.rev[i]? = some pkt → ¬ IsFinalAck pkts pkt
  | _ => True

/-- There is a way out, if one is needed. -/
def Leavable (pkts : List Packet) (J : Joint) : Prop :=
  J.Transmitting → J.Receiving ∨ FinalAckInFlight pkts J ∨ AllAcked pkts J

section Kept

variable {pkts : List Packet} {buf : List UInt8} {n : ℕ} {J J' : Joint}

/-- What the network or the receiver adds to the channel does not matter. -/
theorem FinalAckInFlight.append (h : FinalAckInFlight pkts J) (hrev : ∃ l, J'.rev = J.rev ++ l) :
    FinalAckInFlight pkts J' := by
  obtain ⟨pkt, hpkt, hfinal⟩ := h
  obtain ⟨l, hl⟩ := hrev
  exact ⟨pkt, by rw [hl]; exact List.mem_append_left l hpkt, hfinal⟩

theorem SenderEffect.transmitting {acked : ℕ} {S S' : Sender} {out : Option Packet}
    (h : SenderEffect pkts n acked S S' out) (hside : S'.side = .transmitting) :
    S.side = .transmitting := by
  cases h with
  | quiet he => rwa [← he]
  | add hs => exact hs
  | shift hs => exact hs
  | send _ _ hs => exact hs
  | finish hs => exact hs
  | sendClose _ _ hs' => rw [hs'] at hside; cases hside

/-- Only in `readAckPacket` does the sender receive and go on transmitting. -/
theorem recvAck_of_transmitting {stack : Packet} {recv : Option Datagram} {S S' : Sender}
    (h : senderRecv stack recv S = some S') (hside : S'.side = .transmitting) :
    S.phase = .recvAck := by
  rcases senderRecv_phase h with hphase | ⟨k, hphase⟩
  · exact hphase
  · unfold senderRecv at h
    rw [hphase] at h
    dsimp only at h
    split at h
    · cases h
      unfold Sender.side at hside
      split_ifs at hside
    · cases h
      unfold Sender.side at hside
      split_ifs at hside

/-- Where the receiver receives, it is in its receive loop before and after, or in its closing
loop. -/
theorem receiving_of_recv {stack : Packet} {recv : Option Datagram} {R R' : Receiver}
    (h : receiverRecv stack recv R = some R') :
    (R'.side = .waiting ∨ R'.side = .holding) ∨ R.side = .closing := by
  rcases receiverRecv_phase h with hphase | hphase
  · unfold receiverRecv at h
    rw [hphase] at h
    obtain ⟨r, -, rfl⟩ := Option.map_eq_some_iff.1 h
    exact .inl (Receiver.receiving_iff.2 (.inr (.inr rfl)))
  · exact .inr (by rw [Receiver.side, hphase])

section Steps

variable {acked : ℕ} {fwd rev : List (Option ℕ)}

theorem Leavable.step_sender {lost corr : Bool} {S' : Sender} {out : Option Packet}
    (h : Related pkts n J acked fwd rev) (hl : Leavable pkts J)
    (hstep : senderStep pkts lost corr J.sender = some (S', out)) :
    Leavable pkts { J with sender := S', fwd := J.fwd ++ out.toList } := by
  intro hsend
  obtain ⟨hS, heffect⟩ := h.sender.step hstep
  rcases hl (heffect.transmitting hsend) with hr | hflight | hacked
  · exact .inl hr
  · exact .inr (.inl hflight)
  · rw [h.allAcked_iff] at hacked
    have hi := hS.i_le
    have hle := hS.window.acked_le
    refine .inr (.inr ⟨by dsimp only; omega, ?_⟩)
    rw [hS.window.numPendingAcks, hacked]
    exact Nat.sub_eq_zero_of_le hi

/-- The sender receives: if it is the final acknowledgement, everything is acknowledged. -/
theorem Leavable.recv_sender {stack pkt : Packet} {rest : List Packet} {S' : Sender}
    {final : Bool} (hnum : Numbered n pkts) (h : Related pkts n J acked fwd rev)
    (hinv : Inv n pkts.length final (J.view acked fwd rev)) (hl : Leavable pkts J)
    (hrev : J.rev = pkt :: rest)
    (hrecv : senderRecv stack (some (datagram pkt)) J.sender = some S') :
    Leavable pkts { J with sender := S', rev := rest } := by
  intro hsend
  have hphase := recvAck_of_transmitting hrecv hsend
  have hside : J.Transmitting := by rw [Joint.Transmitting, Sender.side, hphase]
  have hsound := h.sender.sound
  rw [hphase] at hsound
  have hlt : acked < J.sender.i := hsound
  have hi := h.sender.i_le
  by_cases hreceive : J.Receiving
  · exact .inl hreceive
  obtain ⟨-, htaken, hpos⟩ := finished_of_not_receiving hinv hside hreceive
  rcases hl hside with hr | ⟨p, hp, hfinal⟩ | hacked
  · exact absurd hr hreceive
  · rw [hrev] at hp
    rcases List.mem_cons.1 hp with rfl | hp
    · have hadded : J.receiver.appended.length ≤ J.sender.i := hinv.counts.taken_le
      have hbase := h.sender.window.base_le
      rw [isFinalAck_iff hnum hpos] at hfinal
      subst hfinal
      obtain ⟨w, hw, hS⟩ := h.sender.recv_ack (q := pkts.length - 1) hphase (by omega) (by omega)
        stack
      rw [hw] at hrecv
      cases hrecv
      rw [show max acked (pkts.length - 1 + 1) = pkts.length by omega] at hS
      refine .inr (.inr ⟨by dsimp only; omega, ?_⟩)
      rw [hS.window.numPendingAcks]
      exact Nat.sub_eq_zero_of_le hi
    · exact .inr (.inl ⟨p, hp, hfinal⟩)
  · rw [h.allAcked_iff] at hacked
    omega

theorem Leavable.step_receiver {lost corr : Bool} {behind heap : List UInt8} {R' : Receiver}
    {out : Option Packet} (hnum : Numbered n pkts) (h : Related pkts n J acked fwd rev)
    (hl : Leavable pkts J) (hkeeps : KeepsFinalAck pkts (.receiver lost corr behind heap) J)
    (hstep : receiverStep lost corr behind heap J.receiver = some (R', out)) :
    Leavable pkts { J with receiver := R', rev := J.rev ++ out.toList } := by
  intro hsend
  by_cases hreceive : J.Receiving
  swap
  · rcases hl hsend with hr | hflight | hacked
    · exact absurd hr hreceive
    · exact .inr (.inl (hflight.append ⟨_, rfl⟩))
    · exact .inr (.inr hacked)
  obtain ⟨base, added, hR⟩ := h.receiver
  obtain ⟨-, heffect⟩ := hR.step hstep
  cases heffect with
  | quiet hside =>
    rw [Joint.Receiving, ← hside] at hreceive
    exact .inl hreceive
  | deliver pkt hside hpkt happ hside' =>
    by_cases hlast : getLast (some pkt) = true
    · obtain ⟨hfinal, hend⟩ := (hnum.last hpkt).1 hlast
      obtain ⟨rfl, rfl⟩ := hkeeps hside hfinal hend
      refine .inr (.inl ⟨ackPacket (seqOf n J.receiver.appended.length), ?_, ?_⟩)
      · exact List.mem_append_right _ List.mem_cons_self
      · rw [isFinalAck_iff hnum (by omega), ← hend, Nat.add_sub_cancel]
    · rw [if_neg hlast] at hside'
      exact .inl (.inl hside')
  | ackAgain _ hside' => exact .inl (.inl hside')
  | sendClose out hside =>
    rcases hreceive with e | e <;> rw [hside] at e <;> cases e

/-- The receiver receives without sending. -/
theorem Leavable.recv_receiver {stack : Packet} {recv : Option Datagram} {channel : List Packet}
    {R' : Receiver} (hl : Leavable pkts J) (hrecv : receiverRecv stack recv J.receiver = some R') :
    Leavable pkts { J with receiver := R', fwd := channel } := by
  intro hsend
  rcases receiving_of_recv hrecv with hr | hclosing
  · exact .inl hr
  · rcases hl hsend with hr | hway
    · rcases hr with e | e <;> rw [hclosing] at e <;> cases e
    · exact .inr hway

/-- The network changes the reverse channel and leaves the final acknowledgement. -/
theorem Leavable.network {channel : List Packet} (hl : Leavable pkts J)
    (hkeeps : ¬ J.Receiving → ∀ pkt ∈ J.rev, IsFinalAck pkts pkt → pkt ∈ channel) :
    Leavable pkts { J with rev := channel } := by
  intro hsend
  by_cases hreceive : J.Receiving
  · exact .inl hreceive
  · rcases hl hsend with hr | ⟨pkt, hpkt, hfinal⟩ | hacked
    · exact .inl hr
    · exact .inr (.inl ⟨pkt, hkeeps hreceive pkt hpkt hfinal, hfinal⟩)
    · exact .inr (.inr hacked)

theorem Leavable.step {event : Event} {final : Bool} (hnum : Numbered n pkts)
    (h : Related pkts n J acked fwd rev) (hinv : Inv n pkts.length final (J.view acked fwd rev))
    (hl : Leavable pkts J) (hkeeps : KeepsFinalAck pkts event J)
    (hstep : J.step pkts event = some J') : Leavable pkts J' := by
  cases event with
  | sender lost corr =>
    obtain ⟨⟨S', out⟩, hs, rfl⟩ := Option.map_eq_some_iff.1 hstep
    exact hl.step_sender h hs
  | senderRecv stack =>
    rw [Joint.step] at hstep
    cases hrev : J.rev with
    | nil => rw [hrev] at hstep; cases hstep
    | cons pkt rest =>
      rw [hrev] at hstep
      obtain ⟨S', hs, rfl⟩ := Option.map_eq_some_iff.1 hstep
      exact hl.recv_sender hnum h hinv hrev hs
  | senderTimeout stack =>
    obtain ⟨S', hs, rfl⟩ := Option.map_eq_some_iff.1 hstep
    intro hsend
    have hphase := recvAck_of_transmitting hs hsend
    rw [senderRecv_timeout stack hphase] at hs
    cases hs
    exact hl (by rw [Joint.Transmitting, Sender.side, hphase])
  | receiver lost corr behind heap =>
    obtain ⟨⟨R', out⟩, hs, rfl⟩ := Option.map_eq_some_iff.1 hstep
    exact hl.step_receiver hnum h hkeeps hs
  | receiverRecv stack =>
    rw [Joint.step] at hstep
    cases hfwd : J.fwd with
    | nil => rw [hfwd] at hstep; cases hstep
    | cons pkt rest =>
      rw [hfwd] at hstep
      obtain ⟨R', hs, rfl⟩ := Option.map_eq_some_iff.1 hstep
      exact hl.recv_receiver hs
  | receiverTimeout stack =>
    obtain ⟨R', hs, rfl⟩ := Option.map_eq_some_iff.1 hstep
    exact hl.recv_receiver hs
  | dropFwd i =>
    rw [Joint.step] at hstep
    split_ifs at hstep
    cases hstep
    exact hl
  | dropRev i =>
    rw [Joint.step] at hstep
    split_ifs at hstep
    cases hstep
    refine hl.network fun hreceive pkt hpkt hfinal => ?_
    obtain ⟨k, hk⟩ := List.mem_iff_getElem?.1 hpkt
    refine List.mem_eraseIdx_iff_getElem?.2 ⟨k, fun e => ?_, hk⟩
    exact hkeeps hreceive pkt (e ▸ hk) hfinal
  | zeroFwd i =>
    obtain ⟨channel, hs, rfl⟩ := Option.map_eq_some_iff.1 hstep
    exact hl
  | zeroRev i =>
    obtain ⟨channel, hs, rfl⟩ := Option.map_eq_some_iff.1 hstep
    obtain ⟨_, _, _, rfl⟩ := zeroAt_cases hs
    refine hl.network fun hreceive pkt hpkt hfinal => ?_
    obtain ⟨k, hk⟩ := List.mem_iff_getElem?.1 hpkt
    refine List.mem_iff_getElem?.2 ⟨k, ?_⟩
    rw [List.getElem?_set_ne, hk]
    intro e
    exact hkeeps hreceive pkt (e ▸ hk) hfinal
  | follow pkt =>
    rw [Joint.step] at hstep
    split_ifs at hstep
    cases hstep
    exact hl.network fun _ _ hpkt _ => List.mem_append_left _ hpkt

end Steps

theorem Leavable.of_reachable (hn : 0 < n) (hring : 2 * n ∣ 2 ^ 22)
    (hb : 1024 * (2 * n) < 2 ^ 31)
    (h : (transferRuns buf (1024 * n) (KeepsFinalAck (sentPackets buf (1024 * n)))).Reachable J) :
    Leavable (sentPackets buf (1024 * n)) J := by
  have hnum : Numbered n (sentPackets buf (1024 * n)) := numbered_packetsOf hring hb _ _
  refine h.invariant (I := Leavable (sentPackets buf (1024 * n))) ?_ ?_
  · rintro J₀ ⟨-, ⟨heap, hR⟩, -, -⟩ -
    left
    left
    rw [hR]
    rfl
  · rintro J₁ J₂ h₁ hl ⟨event, hkeeps, hstep⟩
    obtain ⟨acked, fwd, rev, hrel, hinv⟩ := Related.of_reachable hn hring hb h₁
    exact hl.step hnum hrel hinv hkeeps hstep

end Kept

/-- **When the transmission loop can be left.**  In every reachable state it can be left exactly
when the receiver is in its receive loop or the acknowledgement of the final packet is in flight or
has arrived; so it can be left from every state of a run that keeps this acknowledgement. -/
theorem transfer_canLeave {e : ℕ} (he : 10 ≤ e) (he' : e ≤ 29) (buf : List UInt8) :
    (∀ J, (transferSystem buf (2 ^ e)).Reachable J → J.Transmitting →
      (CanLeave buf (2 ^ e) J ↔ J.Receiving ∨ FinalAckInFlight (sentPackets buf (2 ^ e)) J ∨
        AllAcked (sentPackets buf (2 ^ e)) J)) ∧
    ∀ J, (transferRuns buf (2 ^ e) (KeepsFinalAck (sentPackets buf (2 ^ e)))).Reachable J →
      J.Transmitting → CanLeave buf (2 ^ e) J := by
  obtain ⟨n, hW, hn, hring, hb⟩ := exists_packets_of_pow he he'
  rw [hW]
  refine ⟨fun J h hsend => canLeave_iff hn hring hb h hsend, fun J h hsend => ?_⟩
  have hfull : (transferSystem buf (1024 * n)).Reachable J :=
    StepSystem.Reachable.mono_allowed (fun _ _ _ => trivial) h
  exact (canLeave_iff hn hring hb hfull hsend).2 (Leavable.of_reachable hn hring hb h hsend)

/-- The only packet of one byte arrives, and its acknowledgement may be lost. -/
theorem exists_taken_byte (lost : Bool) :
    ∃ J, (transferSystem [65] (1024 * 4)).Reachable J ∧ J.Transmitting ∧ ¬ J.Receiving ∧
      cwndNumPendingAcks J.sender.cwndW ≠ 0 ∧
      J.rev = if lost then [] else [ackPacket (seqOf 4 0)] := by
  have hring : 2 * 4 ∣ 2 ^ 22 := by norm_num
  have hb : 1024 * (2 * 4) < 2 ^ 31 := by norm_num
  have hlen : (sentPackets [65] (1024 * 4)).length = 1 := length_packetsOf _ _ _
  have hinit : startOfTransfer.Initial (1024 * 4) := startOfTransfer_initial
  obtain ⟨J, pkt, hreach, hpkt, hsend, hS, hlt, hphase, -, -, hrev⟩ :=
    hinit.reaches_taken (by norm_num) hring hb rfl rfl (by rw [hlen]; norm_num) lost
  have hlast : getLast (some pkt) = true := by
    rw [eq_pieceOf hpkt, getLast_pieceOf]
    rfl
  rw [hlast] at hphase
  refine ⟨J, (StepSystem.Reachable.of_init hinit).trans hreach, hsend, fun hr => ?_, ?_, hrev⟩
  · rcases Receiver.receiving_iff.1 hr with e | e | e <;> cases hphase.symm.trans e
  · rw [hS.window.numPendingAcks]
    omega

/-- One byte in windows of 4096 bytes: its acknowledgement is in flight. -/
theorem transfer_canLeave_4096 :
    ∃ J, (transferSystem [65] (2 ^ 12)).Reachable J ∧ J.Transmitting ∧
      FinalAckInFlight (sentPackets [65] (2 ^ 12)) J ∧
      (CanLeave [65] (2 ^ 12) J ↔ J.Receiving ∨ FinalAckInFlight (sentPackets [65] (2 ^ 12)) J ∨
        AllAcked (sentPackets [65] (2 ^ 12)) J) ∧ CanLeave [65] (2 ^ 12) startOfTransfer := by
  have hnum : Numbered 4 (sentPackets [65] (1024 * 4)) :=
    numbered_packetsOf (by norm_num) (by norm_num) _ _
  have hlen : (sentPackets [65] (1024 * 4)).length = 1 := length_packetsOf _ _ _
  obtain ⟨J, h, hsend, -, -, hrev⟩ := exists_taken_byte false
  have hflight : FinalAckInFlight (sentPackets [65] (1024 * 4)) J := by
    refine ⟨ackPacket (seqOf 4 0), by rw [hrev]; exact List.mem_cons_self, ?_⟩
    rw [isFinalAck_iff hnum (by omega), hlen]
  exact ⟨J, h, hsend, hflight,
    (transfer_canLeave (e := 12) (by norm_num) (by norm_num) [65]).1 J h hsend,
    (transfer_canLeave (e := 12) (by norm_num) (by norm_num) [65]).2 _
      (.of_init startOfTransfer_initial) rfl⟩

/-- One byte in windows of 4096 bytes: its only packet arrives, the acknowledgement is lost, and
the sender transmits for ever. -/
theorem transfer_wedges :
    0 < [65].length ∧ [65].length % maxBodySize ≠ 0 ∧
      ∃ J, (transferSystem [65] (2 ^ 12)).Reachable J ∧ J.Transmitting ∧
        ¬ CanLeave [65] (2 ^ 12) J := by
  obtain ⟨J, h, hsend, hreceive, hpending, hrev⟩ := exists_taken_byte true
  refine ⟨by decide, by decide, J, h, hsend,
    not_canLeave (by norm_num) (by norm_num) (by norm_num) h hsend hreceive ?_ ?_⟩
  · rintro ⟨p, hp, -⟩
    rw [hrev] at hp
    exact absurd hp List.not_mem_nil
  · rintro ⟨-, hnone⟩
    exact hpending hnone

end Tcp118
