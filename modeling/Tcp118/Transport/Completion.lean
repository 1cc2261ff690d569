import Tcp118.Transport.Paced

/-!
# Transfers that come to their end

Nothing is lost or zeroed, and no `recvfrom` times out before `readTCP` has returned; behind that,
those of `writeTCP` may, and have to, because a close packet does not end its closing loop.

* `Event.Calm`, `calmRuns`: the runs;
* `Parting`, `Parting.step`, `Parting.next`: both sides behind the transmission loop;
* `Sending.Complete`: what a transfer comes to;
* `transfer_completes_iff`: the buffers whose transfer comes there.
-/

namespace Tcp118

open Protocol

/-- Nothing goes wrong; when `readTCP` has returned, `writeTCP` may wait in vain. -/
def Event.Calm (J : Joint) (event : Event) : Prop :=
  event.Undisturbed ∨ J.receiver.phase = .exited ∧ ∃ stack, event = .senderTimeout stack

/-- The runs from empty channels in which nothing goes wrong. -/
def calmRuns (buf : List UInt8) (W : ℕ) : StepSystem Sending :=
  .ofEvents (Sending.Initial W) (Sending.step (sentPackets buf W)) fun event T => event.Calm T.joint

/-- Both calls have returned, `writeTCP` after ten timeouts; each packet has been sent once, and the
caller of `readTCP` has as many bytes as the buffer, and the buffer itself if no body of its packets
has a zero byte before its last one. -/
structure Sending.Complete (buf : List UInt8) (W : ℕ) (T : Sending) : Prop where
  writeTCP : T.joint.sender.phase = .exited false
  readTCP : T.joint.receiver.phase = .exited
  sent : ∃ closes, T.sent = sentPackets buf W ++ closes ∧ closes.length ≤ 2 ∧
    ∀ pkt ∈ closes, pkt = closePacket
  msgLen : T.joint.receiver.message.msgLen = buf.length
  bytes : Transparent buf → T.joint.receiver.message.bytes = buf

/-! ### The closing loops -/

/-- The close packet before `recvfrom` has not been sent yet. -/
def SenderPhase.unsent : SenderPhase → ℕ
  | .close => 1
  | _ => 0

def ReceiverPhase.unsent : ReceiverPhase → ℕ
  | .close => 1
  | _ => 0

/-- The steps of the sender up to its tenth timeout. -/
def SenderPhase.parting : SenderPhase → ℕ
  | .close => 12
  | .readClose k => 11 - k
  | _ => 0

/-- The steps of the receiver up to its return. -/
def ReceiverPhase.parting : ReceiverPhase → ℕ
  | .close => 2
  | .readClose => 1
  | _ => 0

/-- Both sides are behind the transmission loop, and only close packets are in flight: one of them
to the receiver, if the sender is waiting and the receiver has not returned.  Each close packet of
the receiver makes the sender send one more. -/
structure Parting (pkts : List Packet) (T : Sending) : Prop where
  sender : T.joint.sender.phase = .close ∨ (∃ k < 10, T.joint.sender.phase = .readClose k) ∨
    T.joint.sender.phase = .exited false
  receiver : T.joint.receiver.phase = .close ∨ T.joint.receiver.phase = .readClose ∨
    T.joint.receiver.phase = .exited
  fwd : ∀ pkt ∈ T.joint.fwd, pkt = closePacket
  rev : ∀ pkt ∈ T.joint.rev, pkt = closePacket
  answered : T.joint.receiver.phase ≠ .exited → T.joint.sender.phase = .close ∨ T.joint.fwd ≠ []
  sent : ∃ closes, T.sent = pkts ++ closes ∧ (∀ pkt ∈ closes, pkt = closePacket) ∧
    closes.length + T.joint.rev.length + T.joint.sender.phase.unsent +
      T.joint.receiver.phase.unsent = 2

/-- What is left to do up to the return of `writeTCP`. -/
def Sending.partingWork (T : Sending) : ℕ :=
  16 * (T.joint.rev.length + T.joint.receiver.phase.unsent) + T.joint.sender.phase.parting +
    T.joint.receiver.phase.parting

section Parting

variable {pkts : List Packet} {T T' : Sending} {event : Event}

theorem Parting.step_sender (h : Parting pkts T)
    (hstep : T.step pkts (.sender false false) = some T') :
    Parting pkts T' ∧ T'.partingWork < T.partingWork := by
  obtain ⟨J, hJ, rfl⟩ := Option.map_eq_some_iff.1 hstep
  obtain ⟨⟨S, out⟩, hs, rfl⟩ := Option.map_eq_some_iff.1 hJ
  rcases h.sender with hphase | ⟨k, -, hphase⟩ | hphase
  · have hsend : senderStep pkts false false T.joint.sender =
        some ({ T.joint.sender with phase := .readClose 0 }, some closePacket) := by
      rw [senderStep, hphase]
      rfl
    cases hsend.symm.trans hs
    have hsends : T.joint.sends pkts (.sender false false) = [closePacket] := by
      rw [Joint.sends, hsend]
      rfl
    obtain ⟨closes, hsent, hcloses, hcount⟩ := h.sent
    rw [hphase] at hcount
    rw [hsends]
    refine ⟨⟨.inr (.inl ⟨0, by norm_num, rfl⟩), h.receiver, ?_, h.rev,
      fun _ => .inr (List.append_ne_nil_of_right_ne_nil _ (List.cons_ne_nil _ _)),
      closes ++ [closePacket], ?_, ?_, ?_⟩, ?_⟩
    · exact List.forall_mem_append.2 ⟨h.fwd, List.forall_mem_singleton.2 rfl⟩
    · dsimp only
      rw [hsent, List.append_assoc]
    · exact List.forall_mem_append.2 ⟨hcloses, List.forall_mem_singleton.2 rfl⟩
    · simp only [SenderPhase.unsent, List.length_append, List.length_singleton] at hcount ⊢
      omega
    · simp only [Sending.partingWork, hphase, SenderPhase.parting]
      omega
  · rw [senderStep, hphase] at hs
    cases hs
  · rw [senderStep, hphase] at hs
    cases hs

/-- A close packet of the receiver. -/
theorem Parting.recv_sender {stack : Packet} (h : Parting pkts T)
    (hstep : T.step pkts (.senderRecv stack) = some T') :
    Parting pkts T' ∧ T'.partingWork < T.partingWork := by
  obtain ⟨J, hJ, rfl⟩ := Option.map_eq_some_iff.1 hstep
  rw [show T.joint.sends pkts (.senderRecv stack) = [] from rfl, List.append_nil]
  rw [Joint.step] at hJ
  have hrev := h.rev
  obtain ⟨closes, hsent, hcloses, hcount⟩ := h.sent
  cases hchannel : T.joint.rev with
  | nil => rw [hchannel] at hJ; cases hJ
  | cons pkt rest =>
    rw [hchannel] at hJ hrev hcount
    rw [List.forall_mem_cons] at hrev
    obtain ⟨rfl, hrest⟩ := hrev
    obtain ⟨S, hs, rfl⟩ := Option.map_eq_some_iff.1 hJ
    rcases h.sender with hphase | ⟨k, -, hphase⟩ | hphase
    · rw [senderRecv, hphase] at hs
      cases hs
    · have hno : ¬ (getClose closePacket = false ∧ verifies closePacket = true) := by
        rw [getClose_closePacket]
        rintro ⟨e, -⟩
        cases e
      rw [senderRecv_readClose hphase, if_neg hno] at hs
      cases hs
      rw [hphase] at hcount
      refine ⟨⟨.inl rfl, h.receiver, h.fwd, hrest, fun _ => .inl rfl, closes, hsent, hcloses, ?_⟩,
        ?_⟩
      · simp only [SenderPhase.unsent, List.length_cons] at hcount ⊢
        omega
      · simp only [Sending.partingWork, hchannel, hphase, SenderPhase.parting, List.length_cons]
        omega
    · rw [senderRecv, hphase] at hs
      cases hs

theorem Parting.timeout_sender {stack : Packet} (h : Parting pkts T)
    (hexited : T.joint.receiver.phase = .exited)
    (hstep : T.step pkts (.senderTimeout stack) = some T') :
    Parting pkts T' ∧ T'.partingWork < T.partingWork := by
  obtain ⟨J, hJ, rfl⟩ := Option.map_eq_some_iff.1 hstep
  rw [show T.joint.sends pkts (.senderTimeout stack) = [] from rfl, List.append_nil]
  obtain ⟨S, hs, rfl⟩ := Option.map_eq_some_iff.1 hJ
  obtain ⟨closes, hsent, hcloses, hcount⟩ := h.sent
  rcases h.sender with hphase | ⟨k, hk, hphase⟩ | hphase
  · rw [senderRecv, hphase] at hs
    cases hs
  · rw [senderRecv_readClose_timeout hphase] at hs
    rw [hphase] at hcount
    cases hs
    by_cases hten : k + 1 = 10
    · rw [if_pos hten]
      refine ⟨⟨.inr (.inr rfl), h.receiver, h.fwd, h.rev, fun e => absurd hexited e, closes, hsent,
        hcloses, hcount⟩, ?_⟩
      simp only [Sending.partingWork, hphase, SenderPhase.parting]
      omega
    · rw [if_neg hten]
      refine ⟨⟨.inr (.inl ⟨k + 1, by omega, rfl⟩), h.receiver, h.fwd, h.rev,
        fun e => absurd hexited e, closes, hsent, hcloses, hcount⟩, ?_⟩
      simp only [Sending.partingWork, hphase, SenderPhase.parting]
      omega
  · rw [senderRecv, hphase] at hs
    cases hs

theorem Parting.step_receiver {behind heap : List UInt8} (h : Parting pkts T)
    (hstep : T.step pkts (.receiver false false behind heap) = some T') :
    Parting pkts T' ∧ T'.partingWork < T.partingWork := by
  obtain ⟨J, hJ, rfl⟩ := Option.map_eq_some_iff.1 hstep
  rw [show T.joint.sends pkts (.receiver false false behind heap) = [] from rfl, List.append_nil]
  obtain ⟨⟨R, out⟩, hs, rfl⟩ := Option.map_eq_some_iff.1 hJ
  obtain ⟨closes, hsent, hcloses, hcount⟩ := h.sent
  rcases h.receiver with hphase | hphase | hphase
  · have hanswered := h.answered (by rw [hphase]; exact fun e => by cases e)
    rw [receiverStep, hphase] at hs
    cases hs
    rw [hphase] at hcount
    refine ⟨⟨h.sender, .inr (.inl rfl), h.fwd, ?_, fun _ => hanswered, closes, hsent, hcloses, ?_⟩,
      ?_⟩
    · exact List.forall_mem_append.2 ⟨h.rev, List.forall_mem_singleton.2 rfl⟩
    · simp only [ReceiverPhase.unsent, writeClosePacket, Bool.false_eq_true, if_false,
        Option.toList_some, List.length_append, List.length_singleton] at hcount ⊢
      omega
    · simp only [Sending.partingWork, hphase, ReceiverPhase.parting, ReceiverPhase.unsent,
        writeClosePacket, Bool.false_eq_true, if_false, Option.toList_some, List.length_append,
        List.length_singleton]
      omega
  · rw [receiverStep, hphase] at hs
    cases hs
  · rw [receiverStep, hphase] at hs
    cases hs

/-- A close packet of the sender. -/
theorem Parting.recv_receiver {stack : Packet} (h : Parting pkts T)
    (hstep : T.step pkts (.receiverRecv stack) = some T') :
    Parting pkts T' ∧ T'.partingWork < T.partingWork := by
  obtain ⟨J, hJ, rfl⟩ := Option.map_eq_some_iff.1 hstep
  rw [show T.joint.sends pkts (.receiverRecv stack) = [] from rfl, List.append_nil]
  rw [Joint.step] at hJ
  have hfwd := h.fwd
  obtain ⟨closes, hsent, hcloses, hcount⟩ := h.sent
  cases hchannel : T.joint.fwd with
  | nil => rw [hchannel] at hJ; cases hJ
  | cons pkt rest =>
    rw [hchannel] at hJ hfwd
    rw [List.forall_mem_cons] at hfwd
    obtain ⟨rfl, hrest⟩ := hfwd
    obtain ⟨R, hs, rfl⟩ := Option.map_eq_some_iff.1 hJ
    rcases h.receiver with hphase | hphase | hphase
    · rw [receiverRecv, hphase] at hs
      cases hs
    · rw [receiverRecv_readClose hphase,
        if_pos ⟨getClose_closePacket, verifies_closePacket⟩] at hs
      cases hs
      rw [hphase] at hcount
      refine ⟨⟨h.sender, .inr (.inr rfl), hrest, h.rev, fun e => absurd rfl e, closes, hsent,
        hcloses, hcount⟩, ?_⟩
      simp only [Sending.partingWork, hphase, ReceiverPhase.parting, ReceiverPhase.unsent]
      omega
    · rw [receiverRecv, hphase] at hs
      cases hs

theorem Parting.step (h : Parting pkts T) (hallowed : event.Calm T.joint)
    (hstep : T.step pkts event = some T') :
    Parting pkts T' ∧ T'.partingWork < T.partingWork := by
  rcases hallowed with hallowed | ⟨hexited, stack, rfl⟩
  · cases event with
    | sender lost corr =>
      obtain ⟨rfl, rfl⟩ := hallowed
      exact h.step_sender hstep
    | senderRecv stack => exact h.recv_sender hstep
    | receiver lost corr behind heap =>
      obtain ⟨rfl, rfl⟩ := hallowed
      exact h.step_receiver hstep
    | receiverRecv stack => exact h.recv_receiver hstep
    | receiverTimeout | senderTimeout => exact absurd hallowed id
    | dropFwd | dropRev | zeroFwd | zeroRev | follow => exact absurd hallowed id
  · exact h.timeout_sender hexited hstep

/-- As long as one of the two has not returned, something can happen. -/
theorem Parting.next (h : Parting pkts T)
    (hopen : ¬ (T.joint.sender.phase = .exited false ∧ T.joint.receiver.phase = .exited)) :
    ∃ event T', event.Calm T.joint ∧ T.step pkts event = some T' := by
  by_cases hclose : T.joint.sender.phase = .close
  · obtain ⟨T', hT⟩ : ∃ T', T.step pkts (.sender false false) = some T' := by
      refine Sending.exists_step ?_
      rw [Joint.step, senderStep, hclose]
      exact ⟨_, rfl⟩
    exact ⟨.sender false false, T', .inl ⟨rfl, rfl⟩, hT⟩
  rcases h.receiver with hphase | hphase | hphase
  · obtain ⟨T', hT⟩ : ∃ T', T.step pkts (.receiver false false [] []) = some T' := by
      refine Sending.exists_step ?_
      rw [Joint.step, receiverStep, hphase]
      exact ⟨_, rfl⟩
    exact ⟨.receiver false false [] [], T', .inl ⟨rfl, rfl⟩, hT⟩
  · have hfwd : T.joint.fwd ≠ [] :=
      (h.answered (by rw [hphase]; exact fun e => by cases e)).resolve_left hclose
    obtain ⟨pkt, rest, hchannel⟩ := List.exists_cons_of_ne_nil hfwd
    obtain ⟨T', hT⟩ : ∃ T', T.step pkts (.receiverRecv zeroPacket) = some T' := by
      refine Sending.exists_step ?_
      rw [Joint.step, hchannel]
      dsimp only
      rw [receiverRecv_readClose hphase]
      exact ⟨_, rfl⟩
    exact ⟨.receiverRecv zeroPacket, T', .inl trivial, hT⟩
  · rcases h.sender with hclose' | ⟨k, -, hread⟩ | hexited
    · exact absurd hclose' hclose
    · obtain ⟨T', hT⟩ : ∃ T', T.step pkts (.senderTimeout zeroPacket) = some T' := by
        refine Sending.exists_step ?_
        rw [Joint.step, senderRecv_readClose_timeout hread]
        exact ⟨_, rfl⟩
      exact ⟨.senderTimeout zeroPacket, T', .inr ⟨hphase, zeroPacket, rfl⟩, hT⟩
    · exact absurd ⟨hexited, hphase⟩ hopen

end Parting

/-! ### Runs -/

section Runs

variable {buf : List UInt8} {T : Sending}

/-- A run in which nothing goes wrong is a run of the transfer. -/
theorem joint_reachable {W : ℕ} (h : (calmRuns buf W).Reachable T) :
    (transferSystem buf W).Reachable T.joint := by
  refine h.invariant (I := fun T => (transferSystem buf W).Reachable T.joint)
    (fun T hinit => StepSystem.Reachable.of_init (s := T.joint) hinit.joint) ?_
  rintro T T' - hT ⟨event, -, hstep⟩
  obtain ⟨J, hJ, rfl⟩ := Option.map_eq_some_iff.1 hstep
  exact hT.tail ⟨event, trivial, hJ⟩

/-- While the sender is in its transmission loop, `readTCP` has not returned. -/
theorem Paced.undisturbed {pkts : List Packet} {n acked got : ℕ} {event : Event}
    (h : Paced pkts n T acked got) (hallowed : event.Calm T.joint) : event.Undisturbed := by
  rcases hallowed with hallowed | ⟨hexited, -⟩
  · exact hallowed
  · exact absurd hexited h.receiver.reading

variable {n : ℕ} (hn : 0 < n) (hring : 2 * n ∣ 2 ^ 22) (hb : 1024 * (2 * n) < 2 ^ 31)
include hn hring hb

/-- If the final packet is flagged, the receiver is behind its receive loop when the sender comes to
its closing loop. -/
theorem Finished.parting (hflag : finalFlag (sentPackets buf (1024 * n)) = true)
    (h : Finished (sentPackets buf (1024 * n)) n T)
    (hreach : (transferSystem buf (1024 * n)).Reachable T.joint) :
    Parting (sentPackets buf (1024 * n)) T := by
  have hphase : T.joint.receiver.phase = .close ∨ T.joint.receiver.phase = .readClose := by
    rcases closing_or_left hn hring hb hflag hreach h.ended.stopped with hside | hleft
    · exact Receiver.side_eq_closing_iff.1 hside
    · exact absurd (Receiver.side_eq_left_iff.1 hleft) h.receiver.reading
  have hrev := h.rev
  unfold Receiver.closes at hrev
  refine ⟨.inl h.sender, hphase.imp_right .inl, fun pkt hpkt => ?_, fun pkt hpkt => ?_,
    fun _ => .inl h.sender, [], ?_, fun _ hp => absurd hp List.not_mem_nil, ?_⟩
  · rw [h.fwd] at hpkt
    exact absurd hpkt List.not_mem_nil
  · rw [hrev] at hpkt
    split_ifs at hpkt
    · exact List.mem_singleton.1 hpkt
    · exact absurd hpkt List.not_mem_nil
  · rw [List.append_nil, h.sent]
  · rw [hrev, h.sender]
    rcases hphase with hphase | hphase <;> rw [hphase] <;> rfl

theorem paced_or_parting (hflag : finalFlag (sentPackets buf (1024 * n)) = true)
    (h : (calmRuns buf (1024 * n)).Reachable T) :
    (∃ acked got, Paced (sentPackets buf (1024 * n)) n T acked got) ∨
      Parting (sentPackets buf (1024 * n)) T := by
  have hnum : Numbered n (sentPackets buf (1024 * n)) := numbered_packetsOf hring hb _ _
  refine h.invariant (I := fun T =>
    (∃ acked got, Paced (sentPackets buf (1024 * n)) n T acked got) ∨
      Parting (sentPackets buf (1024 * n)) T)
    (fun T hinit => .inl ⟨0, 0, hinit.paced hn hring hb⟩) ?_
  rintro T T' hreach hT hTT
  have hreach' := joint_reachable (hreach.tail hTT)
  obtain ⟨event, hallowed, hstep⟩ := hTT
  rcases hT with ⟨acked, got, hpaced⟩ | hparting
  · rcases hpaced.step hnum (hpaced.undisturbed hallowed) hstep with
      ⟨acked', got', hpaced', -⟩ | hfinished
    · exact .inl ⟨acked', got', hpaced'⟩
    · exact .inr (hfinished.parting hn hring hb hflag hreach')
  · exact .inr (hparting.step hallowed hstep).1

/-- When both have returned, the transfer is complete. -/
theorem Parting.complete
    (hlen : (buf.length + (maxBodySize - 1)) / maxBodySize * packetSize < 2 ^ 31)
    (h : Parting (sentPackets buf (1024 * n)) T)
    (hreach : (transferSystem buf (1024 * n)).Reachable T.joint)
    (hsender : T.joint.sender.phase = .exited false)
    (hreceiver : T.joint.receiver.phase = .exited) :
    T.Complete buf (1024 * n) := by
  obtain ⟨got, -, hmsgLen, hbytes, hgot⟩ := message_of_reachable hn hring hb hlen hreach
  obtain rfl := hgot (not_receiving_of_exited hreceiver)
  obtain ⟨closes, hsent, hcloses, hcount⟩ := h.sent
  exact ⟨hsender, hreceiver, ⟨closes, hsent, by omega, hcloses⟩, hmsgLen, hbytes⟩

/-- Behind the transmission loop both return. -/
theorem Parting.inevitable
    (hlen : (buf.length + (maxBodySize - 1)) / maxBodySize * packetSize < 2 ^ 31)
    (h : Parting (sentPackets buf (1024 * n)) T) (hreach : (calmRuns buf (1024 * n)).Reachable T) :
    (calmRuns buf (1024 * n)).Inevitable (Sending.Complete buf (1024 * n)) T := by
  by_cases hopen : T.joint.sender.phase = .exited false ∧ T.joint.receiver.phase = .exited
  · exact .now (h.complete hn hring hb hlen (joint_reachable hreach) hopen.1 hopen.2)
  refine StepSystem.inevitable_of_work
    (I := fun T w => (calmRuns buf (1024 * n)).Reachable T ∧
      Parting (sentPackets buf (1024 * n)) T ∧
      ¬ (T.joint.sender.phase = .exited false ∧ T.joint.receiver.phase = .exited) ∧
      w = T.partingWork) ⟨hreach, h, hopen, rfl⟩ ?_ ?_
  · rintro T _ ⟨-, hT, hopen, -⟩
    obtain ⟨event, T', hallowed, hstep⟩ := hT.next hopen
    exact ⟨T', event, hallowed, hstep⟩
  · rintro T T' _ ⟨hreach, hT, -, rfl⟩ hTT
    have hreach' := hreach.tail hTT
    obtain ⟨event, hallowed, hstep⟩ := hTT
    obtain ⟨hT', hless⟩ := hT.step hallowed hstep
    by_cases hopen' : T'.joint.sender.phase = .exited false ∧ T'.joint.receiver.phase = .exited
    · exact .inl (hT'.complete hn hring hb hlen (joint_reachable hreach') hopen'.1 hopen'.2)
    · exact .inr ⟨_, hless, hreach', hT', hopen', rfl⟩

/-- The sender comes to its closing loop. -/
theorem Paced.inevitable {acked got : ℕ} (hflag : finalFlag (sentPackets buf (1024 * n)) = true)
    (h : Paced (sentPackets buf (1024 * n)) n T acked got)
    (hreach : (calmRuns buf (1024 * n)).Reachable T) :
    (calmRuns buf (1024 * n)).Inevitable (Parting (sentPackets buf (1024 * n))) T := by
  have hnum : Numbered n (sentPackets buf (1024 * n)) := numbered_packetsOf hring hb _ _
  refine StepSystem.inevitable_of_work
    (I := fun T w => (calmRuns buf (1024 * n)).Reachable T ∧
      ∃ acked got, Paced (sentPackets buf (1024 * n)) n T acked got ∧
        w = T.work (sentPackets buf (1024 * n)).length acked got)
    ⟨hreach, acked, got, h, rfl⟩ ?_ ?_
  · rintro T _ ⟨-, acked, got, hpaced, -⟩
    obtain ⟨event, T', hallowed, hstep⟩ := hpaced.next
    exact ⟨T', event, .inl hallowed, hstep⟩
  · rintro T T' _ ⟨hreach, acked, got, hpaced, rfl⟩ hTT
    have hreach' := hreach.tail hTT
    obtain ⟨event, hallowed, hstep⟩ := hTT
    rcases hpaced.step hnum (hpaced.undisturbed hallowed) hstep with
      ⟨acked', got', hpaced', hless⟩ | hfinished
    · exact .inr ⟨_, hless, hreach', acked', got', hpaced', rfl⟩
    · exact .inl (hfinished.parting hn hring hb hflag (joint_reachable hreach'))

omit hn hring hb

/-- **A transfer in which nothing goes wrong.**  However its events are interleaved, a run from
empty channels in which nothing is lost or zeroed, and nobody waits in vain before `readTCP` has
returned, comes to the return of both calls, with each packet sent once and as many bytes received
as the buffer has, its own if it is transparent, exactly if the length of the buffer is no multiple
of `MAX_BODY_SIZE`. -/
theorem transfer_completes_iff {e : ℕ} (he : 10 ≤ e) (he' : e ≤ 29)
    (hlen : (buf.length + (maxBodySize - 1)) / maxBodySize * packetSize < 2 ^ 31)
    (h : (calmRuns buf (2 ^ e)).Reachable T) :
    (calmRuns buf (2 ^ e)).Inevitable (Sending.Complete buf (2 ^ e)) T ↔
      buf.length % maxBodySize ≠ 0 := by
  obtain ⟨n, hW, hn, hring, hb⟩ := exists_packets_of_pow he he'
  rw [hW] at h ⊢
  constructor
  · intro hinevitable
    obtain ⟨T', hreach, hcomplete⟩ := hinevitable.exists_reaches
    have hreturn : CanReturn buf (1024 * n) T'.joint := ⟨T'.joint, .refl _, hcomplete.readTCP⟩
    exact ((canReturn_iff_of_length hn hring hb hlen
      (joint_reachable (h.trans hreach))).1 hreturn).1
  · intro hmod
    have hflag := (finalFlag_sentPackets_iff hlen (1024 * n)).2 hmod
    rcases paced_or_parting hn hring hb hflag h with ⟨acked, got, hpaced⟩ | hparting
    · exact (hpaced.inevitable hn hring hb hflag h).bind fun T' hreach hparting =>
        hparting.inevitable hn hring hb hlen (h.trans hreach)
    · exact hparting.inevitable hn hring hb hlen h

theorem transfer_completes_byte :
    (calmRuns [65] (2 ^ 12)).Inevitable (Sending.Complete [65] (2 ^ 12)) ⟨startOfTransfer, []⟩ ↔
      [(65 : UInt8)].length % maxBodySize ≠ 0 :=
  transfer_completes_iff (by norm_num) (by norm_num) (by decide)
    (.of_init ⟨startOfTransfer_initial, rfl, rfl, rfl⟩)

end Runs

end Tcp118
