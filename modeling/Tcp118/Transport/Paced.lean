import Tcp118.Transport.Leaving
import Tcp118.Transport.Undisturbed

/-!
# Transfers that nothing disturbs

While the sender is in its transmission loop nothing is lost or zeroed, and no `recvfrom` times out.

* `undisturbedRuns`: the runs;
* `Paced`, `Paced.step`, `Paced.next`: what is in flight in such a run; some event can always
  happen, and each one leaves less work;
* `Finished`, `Ended`, `inevitable_ended`: at the end of the transmission loop, and behind it;
* `writeTCP_sends_once`: every packet is sent once, and in order;
* `writeTCP_completes`: every such run comes to the end of the transmission loop.
-/

namespace Tcp118

open Protocol

/-- The runs from empty channels that are undisturbed up to the end of the transmission loop. -/
def undisturbedRuns (buf : List UInt8) (W : ℕ) : StepSystem Sending :=
  .ofEvents (Sending.Initial W) (Sending.step (sentPackets buf W))
    fun event T => T.joint.Transmitting → event.Undisturbed

/-! ### Both sides -/

/-- What is in flight while the sender is in its transmission loop: the packets that have been sent
and have not arrived, and the acknowledgements of those that have been delivered and are not known
to be. -/
structure Paced (pkts : List Packet) (n : ℕ) (T : Sending) (acked got : ℕ) : Prop where
  transmitting : T.joint.Transmitting
  sender : SenderInv pkts n acked T.joint.sender
  fresh : T.joint.sender.Fresh pkts n acked T.sent.length
  sent : T.sent = pkts.take T.sent.length
  receiver : T.joint.receiver.Steady pkts n got
  got_le : got ≤ T.sent.length
  fwd : T.joint.fwd = T.sent.drop got
  acked_le : acked ≤ T.joint.receiver.appended.length
  rev : T.joint.rev = (List.range' acked (T.joint.receiver.appended.length - acked)).map
    (fun q => ackPacket (seqOf n q)) ++ T.joint.receiver.closes

/-- What is left to do up to the end of the transmission loop. -/
def Sending.work (m acked got : ℕ) (T : Sending) : ℕ :=
  T.joint.sender.work m acked T.sent.length + T.joint.receiver.work m got + 16 * (m - acked)

/-- At the end of the transmission loop everything has been sent and delivered, and of the close
packets of the receiver at most the first one is in flight. -/
structure Finished (pkts : List Packet) (n : ℕ) (T : Sending) : Prop where
  sender : T.joint.sender.phase = .close
  receiver : T.joint.receiver.Steady pkts n pkts.length
  delivered : T.joint.receiver.appended.length = pkts.length
  sent : T.sent = pkts
  fwd : T.joint.fwd = []
  rev : T.joint.rev = T.joint.receiver.closes

/-- Behind the transmission loop all packets have been sent, and then close packets. -/
structure Ended (pkts : List Packet) (T : Sending) : Prop where
  stopped : ¬ T.joint.Transmitting
  sent : ∃ closes, T.sent = pkts ++ closes ∧ ∀ pkt ∈ closes, IsControl pkt

theorem Finished.ended {pkts : List Packet} {n : ℕ} {T : Sending} (h : Finished pkts n T) :
    Ended pkts T := by
  refine ⟨fun htrans => ?_, [], ?_, fun _ hp => absurd hp List.not_mem_nil⟩
  · rw [Joint.Transmitting, Sender.side, h.sender] at htrans
    cases htrans
  · rw [List.append_nil, h.sent]

section Both

variable {pkts : List Packet} {n acked got : ℕ} {T T' : Sending}
  {event : Event}

/-- The end of the transmission loop: everything has been acknowledged. -/
theorem Paced.finished {S : Sender} (h : Paced pkts n T acked got) (hinv : SenderInv pkts n acked S)
    (hfresh : S.Fresh pkts n acked T.sent.length) (hphase : S.phase = .close) :
    Finished pkts n ⟨{ T.joint with sender := S }, T.sent⟩ := by
  have hacked := hinv.sound
  unfold Sender.Fresh at hfresh
  rw [hphase] at hacked hfresh
  have hsent : T.sent.length = pkts.length := hfresh
  have hacked' : acked = pkts.length := hacked
  obtain ⟨base, added, hR⟩ := h.receiver.inv
  have hlength := hR.length_le
  have hle := h.acked_le
  have hgot_le := h.got_le
  have hgot := h.receiver.got_eq
  have hdelivered : T.joint.receiver.appended.length = pkts.length := by omega
  have hgot' : got = pkts.length := by omega
  have hreceiver := h.receiver
  have hfwd := h.fwd
  have hrev := h.rev
  rw [hgot'] at hreceiver hfwd
  rw [hdelivered, hacked', Nat.sub_self] at hrev
  refine ⟨hphase, hreceiver, hdelivered, ?_, ?_, hrev⟩
  · dsimp only
    rw [h.sent, hsent, List.take_length]
  · dsimp only
    rw [hfwd, ← hsent, List.drop_length]

theorem Paced.step_sender {corr : Bool} (h : Paced pkts n T acked got)
    (hstep : T.step pkts (.sender false corr) = some T') :
    Paced pkts n T' acked got ∧
        T'.work pkts.length acked got < T.work pkts.length acked got ∨ Finished pkts n T' := by
  obtain ⟨J, hJ, rfl⟩ := Option.map_eq_some_iff.1 hstep
  obtain ⟨⟨S, out⟩, hs, rfl⟩ := Option.map_eq_some_iff.1 hJ
  have hsends : T.joint.sends pkts (.sender false corr) = out.toList := by
    rw [Joint.sends, hs]
    rfl
  rw [hsends]
  obtain ⟨hinv, -⟩ := h.sender.step hs
  rcases h.sender.fresh_step h.fresh h.transmitting hs with
    ⟨rfl, hside | hphase, hfresh, hwork⟩ | ⟨hlt, rfl, hside, hfresh, hwork⟩
  · rw [Option.toList_none, List.append_nil, List.append_nil]
    refine .inl ⟨⟨hside, hinv, hfresh, h.sent, h.receiver, h.got_le, h.fwd, h.acked_le, h.rev⟩, ?_⟩
    exact Nat.add_lt_add_right (Nat.add_lt_add_right hwork _) _
  · rw [Option.toList_none, List.append_nil, List.append_nil]
    exact .inr (h.finished hinv hfresh hphase)
  · have hlen : T.sent.length < pkts.length := lt_of_lt_of_le hlt h.sender.i_le
    have hpkt : pkts[T.sent.length]? = some pkts[T.sent.length] := List.getElem?_eq_getElem hlen
    have hsent : T.sent ++ [pkts[T.sent.length]] =
        pkts.take (T.sent ++ [pkts[T.sent.length]]).length := append_eq_take h.sent hpkt
    have hlength : (T.sent ++ [pkts[T.sent.length]]).length = T.sent.length + 1 := by simp
    have hgot := h.got_le
    rw [hpkt, Option.toList_some]
    refine .inl ⟨⟨hside, hinv, ?_, hsent, h.receiver, ?_, ?_, h.acked_le, h.rev⟩, ?_⟩
    · rw [hlength]
      exact hfresh
    · rw [hlength]
      omega
    · dsimp only
      rw [h.fwd, List.drop_append_of_le_length hgot]
    · rw [Sending.work, Sending.work, hlength]
      exact Nat.add_lt_add_right (Nat.add_lt_add_right hwork _) _

/-- The sender takes the next acknowledgement. -/
theorem Paced.recv_sender {stack : Packet} (h : Paced pkts n T acked got)
    (hstep : T.step pkts (.senderRecv stack) = some T') :
    Paced pkts n T' (acked + 1) got ∧
      T'.work pkts.length (acked + 1) got < T.work pkts.length acked got := by
  obtain ⟨J, hJ, rfl⟩ := Option.map_eq_some_iff.1 hstep
  rw [show T.joint.sends pkts (.senderRecv stack) = [] from rfl, List.append_nil]
  have hside := h.transmitting
  have hrev := h.rev
  have hackedle := h.acked_le
  rw [Joint.step] at hJ
  cases hchannel : T.joint.rev with
  | nil => rw [hchannel] at hJ; cases hJ
  | cons pkt rest =>
    rw [hchannel] at hJ hrev
    obtain ⟨S, hs, rfl⟩ := Option.map_eq_some_iff.1 hJ
    rcases senderRecv_phase hs with hphase | ⟨j, hphase⟩
    · have hlt : acked < T.joint.sender.i := by
        have hsound := h.sender.sound
        rwa [hphase] at hsound
      have hilen := h.sender.i_le
      -- an acknowledgement is in flight, because not everything has been delivered
      have hpending : acked < T.joint.receiver.appended.length := by
        by_contra hno
        have hzero : T.joint.receiver.appended.length - acked = 0 := by omega
        rw [hzero, List.range'_zero, List.map_nil, List.nil_append] at hrev
        have hclose : T.joint.receiver.phase = .readClose := by
          by_contra hno
          rw [Receiver.closes, if_neg hno] at hrev
          cases hrev
        have hall := h.receiver.closing (.inr hclose)
        omega
      obtain ⟨d, hd⟩ : ∃ d, T.joint.receiver.appended.length - acked = d + 1 :=
        ⟨T.joint.receiver.appended.length - acked - 1, by omega⟩
      rw [hd, List.range'_succ, List.map_cons, List.cons_append] at hrev
      obtain ⟨rfl, hrest⟩ := List.cons.inj hrev
      obtain ⟨w, hw, hS⟩ := h.sender.recv_ack hphase h.sender.window.base_le hlt stack
      rw [hw] at hs
      cases hs
      rw [Nat.max_eq_right (Nat.le_succ acked)] at hS
      have hfresh := h.fresh
      unfold Sender.Fresh at hfresh
      rw [hphase] at hfresh
      refine ⟨⟨rfl, hS, hfresh, h.sent, h.receiver, h.got_le, h.fwd, hpending, ?_⟩, ?_⟩
      · dsimp only
        rw [hrest, show T.joint.receiver.appended.length - (acked + 1) = d by omega]
      · simp only [Sending.work, Sender.work, hphase, SenderPhase.rank]
        split_ifs <;> omega
    · rw [Joint.Transmitting, Sender.side, hphase] at hside
      cases hside

theorem Paced.step_receiver {behind heap : List UInt8} (hnum : Numbered n pkts)
    (h : Paced pkts n T acked got)
    (hstep : T.step pkts (.receiver false false behind heap) = some T') :
    Paced pkts n T' acked got ∧
      T'.work pkts.length acked got < T.work pkts.length acked got := by
  obtain ⟨J, hJ, rfl⟩ := Option.map_eq_some_iff.1 hstep
  obtain ⟨⟨R, out⟩, hs, rfl⟩ := Option.map_eq_some_iff.1 hJ
  rw [show T.joint.sends pkts (.receiver false false behind heap) = [] from rfl, List.append_nil]
  obtain ⟨hR, heffect, hwork⟩ := h.receiver.step hnum hs
  have hackedle := h.acked_le
  refine ⟨⟨h.transmitting, h.sender, h.fresh, h.sent, hR, h.got_le, h.fwd, ?_, ?_⟩,
    Nat.add_lt_add_right (Nat.add_lt_add_left hwork _) _⟩
  · cases heffect <;> dsimp only <;> omega
  · dsimp only
    cases heffect with
    | quiet hlength hcloses => rw [Option.toList_none, List.append_nil, h.rev, hlength, hcloses]
    | ack hlength hnone hnone' =>
      rw [h.rev, hnone, hnone', hlength, List.append_nil, List.append_nil,
        show T.joint.receiver.appended.length + 1 - acked =
          T.joint.receiver.appended.length - acked + 1 by omega,
        List.range'_concat, List.map_append, Nat.one_mul, Nat.add_sub_cancel' hackedle]
      rfl
    | close hlength hnone hclose =>
      rw [h.rev, hnone, hclose, hlength, List.append_nil]
      rfl

/-- The receiver takes the next packet. -/
theorem Paced.recv_receiver {stack : Packet} (hnum : Numbered n pkts)
    (h : Paced pkts n T acked got) (hstep : T.step pkts (.receiverRecv stack) = some T') :
    Paced pkts n T' acked (got + 1) ∧
      T'.work pkts.length acked (got + 1) < T.work pkts.length acked got := by
  obtain ⟨J, hJ, rfl⟩ := Option.map_eq_some_iff.1 hstep
  rw [show T.joint.sends pkts (.receiverRecv stack) = [] from rfl, List.append_nil]
  have hfwd := h.fwd
  rw [Joint.step] at hJ
  cases hchannel : T.joint.fwd with
  | nil => rw [hchannel] at hJ; cases hJ
  | cons pkt rest =>
    rw [hchannel] at hJ hfwd
    obtain ⟨R, hs, rfl⟩ := Option.map_eq_some_iff.1 hJ
    have hlt : got < T.sent.length := by
      by_contra hno
      rw [List.drop_eq_nil_of_le (Nat.le_of_not_lt hno)] at hfwd
      cases hfwd
    rw [List.drop_eq_getElem_cons hlt] at hfwd
    obtain ⟨hpkt, hrest⟩ := List.cons.inj hfwd
    have hget : pkts[got]? = some pkt := by
      have hsome : T.sent[got]? = some pkt := by rw [List.getElem?_eq_getElem hlt, hpkt]
      rw [h.sent, List.getElem?_take_of_lt hlt] at hsome
      exact hsome
    obtain ⟨hR, happ, hcloses, hwork⟩ := h.receiver.recv hnum hget hs
    refine ⟨⟨h.transmitting, h.sender, h.fresh, h.sent, hR, hlt, hrest, ?_, ?_⟩,
      Nat.add_lt_add_right (Nat.add_lt_add_left hwork _) _⟩
    · dsimp only
      rw [happ]
      exact h.acked_le
    · dsimp only
      rw [happ, hcloses]
      exact h.rev

/-- An undisturbed event leaves less to do, or is the end of the transmission loop. -/
theorem Paced.step (hnum : Numbered n pkts) (h : Paced pkts n T acked got)
    (hallowed : event.Undisturbed) (hstep : T.step pkts event = some T') :
    (∃ acked' got', Paced pkts n T' acked' got' ∧
        T'.work pkts.length acked' got' < T.work pkts.length acked got) ∨ Finished pkts n T' := by
  cases event with
  | sender lost corr =>
    obtain ⟨rfl, rfl⟩ := hallowed
    rcases h.step_sender hstep with h' | h'
    · exact .inl ⟨_, _, h'⟩
    · exact .inr h'
  | senderRecv stack => exact .inl ⟨_, _, h.recv_sender hstep⟩
  | receiver lost corr behind heap =>
    obtain ⟨rfl, rfl⟩ := hallowed
    exact .inl ⟨_, _, h.step_receiver hnum hstep⟩
  | receiverRecv stack => exact .inl ⟨_, _, h.recv_receiver hnum hstep⟩
  | receiverTimeout stack => exact absurd hallowed id
  | senderTimeout stack => exact absurd hallowed id
  | dropFwd i => exact absurd hallowed id
  | dropRev i => exact absurd hallowed id
  | zeroFwd i => exact absurd hallowed id
  | zeroRev i => exact absurd hallowed id
  | follow pkt => exact absurd hallowed id

/-- The sender waits in vain for no acknowledgement: while one is missing, it is in flight, or the
receiver has a packet to take or to deliver. -/
theorem Paced.next_receiver (h : Paced pkts n T acked got)
    (hlt : T.joint.receiver.appended.length < T.sent.length) :
    ∃ event T', event.Undisturbed ∧ T.step pkts event = some T' := by
  have hlen : T.sent.length ≤ pkts.length := by
    rw [h.sent]
    exact List.length_take_le' _ _
  by_cases hread : T.joint.receiver.phase = .read
  · have hgot := h.receiver.got_eq
    rw [hread] at hgot
    have hgot' : got = T.joint.receiver.appended.length := hgot
    have hfwd := h.fwd
    rw [hgot', List.drop_eq_getElem_cons hlt] at hfwd
    obtain ⟨base, added, hR⟩ := h.receiver.inv
    obtain ⟨T', hT⟩ : ∃ T', T.step pkts (.receiverRecv zeroPacket) = some T' := by
      refine Sending.exists_step ?_
      rw [Joint.step, hfwd]
      dsimp only
      rw [hR.recv_read hread]
      exact ⟨_, rfl⟩
    exact ⟨.receiverRecv zeroPacket, T', trivial, hT⟩
  · have hclose : T.joint.receiver.phase ≠ .readClose := fun e => by
      have := h.receiver.closing (.inr e)
      omega
    obtain ⟨r, hr⟩ := h.receiver.exists_step hread hclose false false [] []
    obtain ⟨T', hT⟩ : ∃ T', T.step pkts (.receiver false false [] []) = some T' := by
      refine Sending.exists_step ?_
      rw [Joint.step, hr]
      exact ⟨_, rfl⟩
    exact ⟨.receiver false false [] [], T', ⟨rfl, rfl⟩, hT⟩

/-- Some undisturbed event can happen. -/
theorem Paced.next (h : Paced pkts n T acked got) :
    ∃ event T', event.Undisturbed ∧ T.step pkts event = some T' := by
  by_cases hphase : T.joint.sender.phase = .recvAck
  · have hfresh := h.fresh
    unfold Sender.Fresh at hfresh
    rw [hphase] at hfresh
    have hsound := h.sender.sound
    rw [hphase] at hsound
    have hacked : acked < T.sent.length := lt_of_lt_of_eq hsound hfresh.symm
    have hrev := h.rev
    cases hchannel : T.joint.rev with
    | cons pkt rest =>
      obtain ⟨T', hT⟩ : ∃ T', T.step pkts (.senderRecv zeroPacket) = some T' := by
        refine Sending.exists_step ?_
        rw [Joint.step, hchannel]
        dsimp only
        rw [senderRecv, hphase]
        exact ⟨_, rfl⟩
      exact ⟨.senderRecv zeroPacket, T', trivial, hT⟩
    | nil =>
      -- everything that has been delivered is known to be
      rw [hchannel] at hrev
      have hlength := congrArg List.length hrev
      rw [List.length_append, List.length_map, List.length_range', List.length_nil] at hlength
      have hle := h.acked_le
      exact h.next_receiver (by omega)
  · obtain ⟨r, hr⟩ := h.sender.exists_step h.transmitting hphase false false
    obtain ⟨T', hT⟩ : ∃ T', T.step pkts (.sender false false) = some T' := by
      refine Sending.exists_step ?_
      rw [Joint.step, hr]
      exact ⟨_, rfl⟩
    exact ⟨.sender false false, T', ⟨rfl, rfl⟩, hT⟩

/-- Whatever happens after the end of the transmission loop. -/
theorem Ended.step (h : Ended pkts T) (hstep : T.step pkts event = some T') : Ended pkts T' := by
  obtain ⟨closes, hsent, hcloses⟩ := h.sent
  obtain ⟨J, hJ, rfl⟩ := Option.map_eq_some_iff.1 hstep
  have hover : ¬ J.Transmitting := by
    rcases T.joint.step_sender hJ with he | ⟨lost, corr, out, hs⟩ | ⟨stack, recv, hs⟩
    · rw [Joint.Transmitting, he]
      exact h.stopped
    · exact (senderStep_of_closing h.stopped hs).1
    · exact senderRecv_of_closing h.stopped hs
  refine ⟨hover, closes ++ T.joint.sends pkts event, ?_, fun pkt hpkt => ?_⟩
  · dsimp only
    rw [hsent, List.append_assoc]
  · rcases List.mem_append.1 hpkt with hold | hnew
    · exact hcloses pkt hold
    · cases event with
      | sender lost corr =>
        obtain ⟨⟨S, out⟩, hs, -⟩ := Option.map_eq_some_iff.1 hJ
        rw [Joint.sends, hs] at hnew
        exact (senderStep_of_closing h.stopped hs).2 pkt hnew
      | _ => exact absurd hnew List.not_mem_nil

end Both

/-! ### Runs -/

section Runs

variable {buf : List UInt8} {n : ℕ} {T : Sending}

theorem Sending.Initial.paced (hn : 0 < n) (hring : 2 * n ∣ 2 ^ 22) (hb : 1024 * (2 * n) < 2 ^ 31)
    (h : T.Initial (1024 * n)) : Paced (sentPackets buf (1024 * n)) n T 0 0 := by
  obtain ⟨⟨S, R, fwd, rev⟩, sent⟩ := T
  obtain ⟨⟨⟨heap, hS⟩, ⟨heap', hR⟩, -, -⟩, hfwd, hrev, hsent⟩ := h
  dsimp only at hS hR hfwd hrev hsent
  subst hS hR hfwd hrev hsent
  exact ⟨rfl, senderInv_init _ hn hring hb heap, ⟨rfl, rfl⟩, rfl,
    ⟨⟨0, 0, receiverInv_init _ hn hring hb heap'⟩, rfl, fun e => (by cases e),
      fun e => (by rcases e with e | e <;> cases e), fun e => (by cases e)⟩,
    le_rfl, rfl, le_rfl, rfl⟩

theorem paced_or_ended (hn : 0 < n) (hring : 2 * n ∣ 2 ^ 22) (hb : 1024 * (2 * n) < 2 ^ 31)
    (h : (undisturbedRuns buf (1024 * n)).Reachable T) :
    (∃ acked got, Paced (sentPackets buf (1024 * n)) n T acked got) ∨
      Ended (sentPackets buf (1024 * n)) T := by
  have hnum : Numbered n (sentPackets buf (1024 * n)) := numbered_packetsOf hring hb _ _
  refine h.invariant (I := fun T =>
    (∃ acked got, Paced (sentPackets buf (1024 * n)) n T acked got) ∨
      Ended (sentPackets buf (1024 * n)) T) (fun T hinit => .inl ⟨0, 0, hinit.paced hn hring hb⟩) ?_
  rintro T T' - hT ⟨event, hallowed, hstep⟩
  rcases hT with ⟨acked, got, hpaced⟩ | hended
  · rcases hpaced.step hnum (hallowed hpaced.transmitting) hstep with
      ⟨acked', got', hpaced', -⟩ | hfinished
    · exact .inl ⟨acked', got', hpaced'⟩
    · exact .inr hfinished.ended
  · exact .inr (hended.step hstep)

/-- The transmission loop comes to its end. -/
theorem inevitable_ended (hn : 0 < n) (hring : 2 * n ∣ 2 ^ 22) (hb : 1024 * (2 * n) < 2 ^ 31)
    (h : (undisturbedRuns buf (1024 * n)).Reachable T) :
    (undisturbedRuns buf (1024 * n)).Inevitable (Ended (sentPackets buf (1024 * n))) T := by
  have hnum : Numbered n (sentPackets buf (1024 * n)) := numbered_packetsOf hring hb _ _
  rcases paced_or_ended hn hring hb h with ⟨acked, got, hpaced⟩ | hended
  · refine StepSystem.inevitable_of_work
      (I := fun T w => ∃ acked got, Paced (sentPackets buf (1024 * n)) n T acked got ∧
        w = T.work (sentPackets buf (1024 * n)).length acked got)
      ⟨acked, got, hpaced, rfl⟩ ?_ ?_
    · rintro T _ ⟨acked, got, hpaced, -⟩
      obtain ⟨event, T', hallowed, hstep⟩ := hpaced.next
      exact ⟨T', event, fun _ => hallowed, hstep⟩
    · rintro T T' _ ⟨acked, got, hpaced, rfl⟩ ⟨event, hallowed, hstep⟩
      rcases hpaced.step hnum (hallowed hpaced.transmitting) hstep with
        ⟨acked', got', hpaced', hless⟩ | hfinished
      · exact .inr ⟨_, hless, acked', got', hpaced', rfl⟩
      · exact .inl hfinished.ended
  · exact .now hended

/-- **Nothing is sent twice without need.**  In a run from empty channels in which, up to the end of
the transmission loop, nothing is lost or zeroed and nobody waits for data in vain, `writeTCP` has
sent the first packets of its list, each once and in order; behind the loop, all of them, and then
close packets and zeroed ones. -/
theorem writeTCP_sends_once {e : ℕ} (he : 10 ≤ e) (he' : e ≤ 29)
    (h : (undisturbedRuns buf (2 ^ e)).Reachable T) :
    (T.joint.Transmitting → T.sent <+: sentPackets buf (2 ^ e)) ∧
      (¬ T.joint.Transmitting → ∃ closes, T.sent = sentPackets buf (2 ^ e) ++ closes ∧
        ∀ pkt ∈ closes, IsControl pkt) := by
  obtain ⟨n, hW, hn, hring, hb⟩ := exists_packets_of_pow he he'
  rw [hW] at h ⊢
  rcases paced_or_ended hn hring hb h with ⟨acked, got, hpaced⟩ | hended
  · refine ⟨fun _ => ?_, fun hno => absurd hpaced.transmitting hno⟩
    rw [hpaced.sent]
    exact List.take_prefix _ _
  · exact ⟨fun htrans => absurd htrans hended.stopped, fun _ => hended.sent⟩

/-- Behind the transmission loop for one byte. -/
theorem writeTCP_sends_once_byte :
    ∃ T, (undisturbedRuns [65] (2 ^ 12)).Reachable T ∧ ¬ T.joint.Transmitting ∧
      (T.joint.Transmitting → T.sent <+: sentPackets [65] (2 ^ 12)) ∧
      (¬ T.joint.Transmitting → ∃ closes, T.sent = sentPackets [65] (2 ^ 12) ++ closes ∧
        ∀ pkt ∈ closes, IsControl pkt) := by
  have hstart : (undisturbedRuns [65] (1024 * 4)).Reachable ⟨startOfTransfer, []⟩ :=
    .of_init ⟨startOfTransfer_initial, rfl, rfl, rfl⟩
  obtain ⟨T, hreach, hended⟩ :=
    (inevitable_ended (by norm_num) (by norm_num) (by norm_num) hstart).exists_reaches
  have h := hstart.trans hreach
  exact ⟨T, h, hended.stopped, writeTCP_sends_once (e := 12) (by norm_num) (by norm_num) h⟩

/-- **The transmission loop comes to its end.**  However the steps of the two and the arrivals of
datagrams are interleaved, a run from empty channels in which nothing is lost or zeroed and nobody
waits for data in vain does not stop before `writeTCP` has left its transmission loop, nor go on for
ever before; then every packet has been sent once and in order. -/
theorem writeTCP_completes {e : ℕ} (he : 10 ≤ e) (he' : e ≤ 29)
    (h : (undisturbedRuns buf (2 ^ e)).Reachable T) :
    (undisturbedRuns buf (2 ^ e)).Inevitable (fun T => ¬ T.joint.Transmitting ∧
      ∃ closes, T.sent = sentPackets buf (2 ^ e) ++ closes ∧ ∀ pkt ∈ closes, IsControl pkt) T := by
  obtain ⟨n, hW, hn, hring, hb⟩ := exists_packets_of_pow he he'
  rw [hW] at h ⊢
  exact (inevitable_ended hn hring hb h).bind fun T' _ hended =>
    .now ⟨hended.stopped, hended.sent⟩

theorem writeTCP_completes_byte :
    (undisturbedRuns [65] (2 ^ 12)).Inevitable (fun T => ¬ T.joint.Transmitting ∧
      ∃ closes, T.sent = sentPackets [65] (2 ^ 12) ++ closes ∧ ∀ pkt ∈ closes, IsControl pkt)
      ⟨startOfTransfer, []⟩ :=
  writeTCP_completes (by norm_num) (by norm_num) (.of_init ⟨startOfTransfer_initial, rfl, rfl, rfl⟩)

end Runs

end Tcp118
