import Tcp118.Transport.Returns

/-!
# What a transfer guarantees

For windows of `W = 2 ^ e` bytes with `10 ≤ e ≤ 29` on both sides, over every run of the transfer
of a buffer:

* `delivered_prefix`: the receiver has appended a prefix of the packets of the buffer, and all of
  them once it has left its receive loop;
* `message_delivered`: what the caller of `readTCP` gets;
* `acked_delivered`: what the sender has marked as acknowledged, or shifted out of its window, the
  receiver has appended;
* `closing_order`: the receiver returns after the transmission loop of the sender has ended, and a
  sender that returns because of a datagram returns after the receiver;
* `inFlight_unambiguous`: a sequence number in flight belongs to one packet, and the number a reader
  acts on belongs to the packet it takes it for;
* `Describes`, `transfer_refines`: every run is described by one of the protocol.
-/

namespace Tcp118

open Protocol

/-! ### Two packets in windows of one -/

/-- A buffer of two packets. -/
def twoPackets : List UInt8 := List.replicate 1013 65

/-- The start of its transfer in windows of 1024 bytes. -/
def startOfTwo : Joint :=
  ⟨senderInit 1024 fun _ => zeroPacket, receiverInit 1024 fun _ => zeroPacket, [], []⟩

theorem startOfTwo_initial : startOfTwo.Initial (1024 * 1) :=
  ⟨⟨_, rfl⟩, ⟨_, rfl⟩, fun _ hp => absurd hp List.not_mem_nil,
    fun _ hp => absurd hp List.not_mem_nil⟩

theorem startOfTwo_reachable : (transferSystem twoPackets (1024 * 1)).Reachable startOfTwo :=
  .of_init startOfTwo_initial

theorem twoPackets_countable :
    (twoPackets.length + (maxBodySize - 1)) / maxBodySize * packetSize < 2 ^ 31 := by
  rw [twoPackets, List.length_replicate]
  norm_num

theorem finalFlag_twoPackets (W : ℕ) : finalFlag (sentPackets twoPackets W) = true := by
  rw [finalFlag_sentPackets_iff twoPackets_countable, twoPackets, List.length_replicate]
  norm_num

theorem length_sentPackets_two (W : ℕ) : (sentPackets twoPackets W).length = 2 := by
  rw [sentPackets, length_packetsOf, twoPackets, List.length_replicate]
  rfl

theorem exists_returned_two :
    ∃ J, (transferSystem twoPackets (1024 * 1)).Reaches startOfTwo J ∧
      J.receiver.phase = .exited ∧ J.sender.phase = .exited true :=
  startOfTwo_initial.reaches_returned (by norm_num) (by norm_num) (by norm_num)
    (finalFlag_twoPackets _)

/-- The acknowledgement of the first packet is in flight. -/
theorem exists_taken_two :
    ∃ J, (transferSystem twoPackets (1024 * 1)).Reachable J ∧ J.Transmitting ∧
      SenderInv (sentPackets twoPackets (1024 * 1)) 1 0 J.sender ∧ 0 < J.sender.i ∧
      J.receiver.phase = .top ∧ J.receiver.appended.length = 1 ∧
      J.rev = [ackPacket (seqOf 1 0)] := by
  have hnum : Numbered 1 (sentPackets twoPackets (1024 * 1)) :=
    numbered_packetsOf (by norm_num) (by norm_num) _ _
  obtain ⟨J, pkt, hreach, hpkt, hsend, hS, hlt, hphase, happ, -, hrev⟩ :=
    startOfTwo_initial.reaches_taken (by norm_num) (by norm_num) (by norm_num) rfl rfl
      (by rw [length_sentPackets_two]; norm_num) false
  have hlast : getLast (some pkt) = false := by
    by_contra hlast
    have hend := ((hnum.last hpkt).1 (by simpa using hlast)).2
    rw [length_sentPackets_two] at hend
    omega
  rw [if_pos hlast] at hphase
  exact ⟨J, startOfTwo_reachable.trans hreach, hsend, hS, hlt, hphase, by rw [happ]; rfl, hrev⟩

section Transfers

variable {e : ℕ} {buf : List UInt8} {J : Joint}

/-! ### Delivery -/

/-- **In-order exactly-once delivery.** -/
theorem delivered_prefix (he : 10 ≤ e) (he' : e ≤ 29)
    (h : (transferSystem buf (2 ^ e)).Reachable J) :
    J.receiver.appended <+: sentPackets buf (2 ^ e) ∧
      (¬ J.Receiving → J.receiver.appended = sentPackets buf (2 ^ e)) := by
  obtain ⟨n, hW, hn, hring, hb⟩ := exists_packets_of_pow he he'
  rw [hW] at h ⊢
  obtain ⟨acked, fwd, rev, hrel, hinv⟩ := Related.of_reachable hn hring hb h
  refine ⟨hrel.appended_prefix, fun hdone => hrel.appended_eq ?_⟩
  rcases J.receiving_or with hreceiving | hleft
  · exact absurd hreceiving hdone
  · exact (hinv.phases.received hleft).2.1

theorem delivered_prefix_two :
    ∃ J, (transferSystem twoPackets (2 ^ 10)).Reachable J ∧ ¬ J.Receiving ∧
      J.receiver.appended <+: sentPackets twoPackets (2 ^ 10) ∧
      (¬ J.Receiving → J.receiver.appended = sentPackets twoPackets (2 ^ 10)) := by
  obtain ⟨J, hreach, hret, -⟩ := exists_returned_two
  have h := startOfTwo_reachable.trans hreach
  exact ⟨J, h, not_receiving_of_exited hret,
    delivered_prefix (e := 10) (by norm_num) (by norm_num) h⟩

/-- **What the caller of `readTCP` gets**: in every state of every run as many bytes as a prefix
of the buffer has, and the whole buffer's once the receive loop has ended; these bytes themselves,
if the buffer has no zero byte before the end of a packet. -/
theorem message_delivered (he : 10 ≤ e) (he' : e ≤ 29)
    (hlen : (buf.length + (maxBodySize - 1)) / maxBodySize * packetSize < 2 ^ 31)
    (h : (transferSystem buf (2 ^ e)).Reachable J) :
    J.receiver.message.msgLen ≤ J.receiver.message.msgBody.length ∧
      ∃ got, got <+: buf ∧ J.receiver.message.msgLen = got.length ∧
        (Transparent buf → J.receiver.message.bytes = got) ∧ (¬ J.Receiving → got = buf) := by
  refine ⟨(assembles_of_reachable h).msgLen_le, ?_⟩
  obtain ⟨n, hW, hn, hring, hb⟩ := exists_packets_of_pow he he'
  rw [hW] at h
  exact message_of_reachable hn hring hb hlen h

theorem message_delivered_two :
    ∃ J, (transferSystem twoPackets (2 ^ 10)).Reachable J ∧ ¬ J.Receiving ∧
      J.receiver.message.msgLen ≤ J.receiver.message.msgBody.length ∧
      ∃ got, got <+: twoPackets ∧ J.receiver.message.msgLen = got.length ∧
        (Transparent twoPackets → J.receiver.message.bytes = got) ∧
        (¬ J.Receiving → got = twoPackets) := by
  obtain ⟨J, hreach, hret, -⟩ := exists_returned_two
  have h := startOfTwo_reachable.trans hreach
  exact ⟨J, h, not_receiving_of_exited hret,
    message_delivered (e := 10) (by norm_num) (by norm_num) twoPackets_countable h⟩

/-- **No false acknowledgement.** -/
theorem acked_delivered (he : 10 ≤ e) (he' : e ≤ 29)
    (h : (transferSystem buf (2 ^ e)).Reachable J) :
    (∀ slot, J.sender.cwndW.acks[slot]? = some 1 →
      ∃ x pkt, J.sender.shifted ≤ x ∧ x < J.sender.i ∧ x % (2 * 2 ^ e / 1024) = slot ∧
        (sentPackets buf (2 ^ e))[x]? = some pkt ∧
        J.sender.cwndW.packets[slot]? = some pkt ∧ J.receiver.appended[x]? = some pkt) ∧
    (∀ x < J.sender.shifted, ∃ pkt, (sentPackets buf (2 ^ e))[x]? = some pkt ∧
      J.receiver.appended[x]? = some pkt) ∧
    (¬ J.Transmitting → J.receiver.appended = sentPackets buf (2 ^ e)) := by
  obtain ⟨n, hW, hn, hring, hb⟩ := exists_packets_of_pow he he'
  rw [hW] at h ⊢
  obtain ⟨acked, fwd, rev, hrel, hinv⟩ := Related.of_reachable hn hring hb h
  have hbase := hrel.sender.window.base_le
  have hwindow := hrel.sender.window.acked_le
  have htaken : acked ≤ J.receiver.appended.length := hinv.counts.acked_le
  have hlen := hrel.sender.i_le
  refine ⟨fun slot hslot => ?_, fun x hx => ?_, fun hleft => ?_⟩
  · have hshape := hrel.sender.window.shape
    have hlt : slot < 2 * n := by
      rw [← hshape.lenAcks]
      exact (List.getElem?_eq_some_iff.1 hslot).1
    obtain ⟨p, hp, rfl⟩ := Cyclic.exists_pos (β := J.sender.shifted % (2 * n))
      (Nat.mod_lt _ (by omega)) hlt
    rw [hshape.acks p hp, Option.some.injEq] at hslot
    have hacked : p < acked - J.sender.shifted := by
      unfold ackAt at hslot
      split_ifs at hslot <;> first | assumption | omega
    have hpkt : (sentPackets buf (1024 * n))[J.sender.shifted + p]? =
        some (sentPackets buf (1024 * n))[J.sender.shifted + p] :=
      List.getElem?_eq_getElem (by omega)
    refine ⟨J.sender.shifted + p, _, by omega, by omega, ?_, hpkt, ?_, ?_⟩
    · rw [show 2 * (1024 * n) / 1024 = 2 * n by omega, Nat.mod_add_mod]
    · rw [Nat.mod_add_mod, hrel.sender.stored _ (by omega) (by omega), hpkt]
    · rw [hrel.getElem?_appended (by omega), hpkt]
  · have hpkt : (sentPackets buf (1024 * n))[x]? = some (sentPackets buf (1024 * n))[x] :=
      List.getElem?_eq_getElem (by omega)
    exact ⟨_, hpkt, by rw [hrel.getElem?_appended (by omega), hpkt]⟩
  · exact hrel.appended_eq (hrel.acked_eq hinv hleft).2.2

/-- The first packet has been acknowledged; it has been shifted out of the window; and the loop has
been left. -/
theorem acked_delivered_two :
    (∃ J, (transferSystem twoPackets (2 ^ 10)).Reachable J ∧ J.sender.cwndW.acks[0]? = some 1 ∧
      (∀ slot, J.sender.cwndW.acks[slot]? = some 1 →
        ∃ x pkt, J.sender.shifted ≤ x ∧ x < J.sender.i ∧ x % (2 * 2 ^ 10 / 1024) = slot ∧
          (sentPackets twoPackets (2 ^ 10))[x]? = some pkt ∧
          J.sender.cwndW.packets[slot]? = some pkt ∧ J.receiver.appended[x]? = some pkt) ∧
      (∀ x < J.sender.shifted, ∃ pkt, (sentPackets twoPackets (2 ^ 10))[x]? = some pkt ∧
        J.receiver.appended[x]? = some pkt) ∧
      (¬ J.Transmitting → J.receiver.appended = sentPackets twoPackets (2 ^ 10))) ∧
    (∃ J, (transferSystem twoPackets (2 ^ 10)).Reachable J ∧ 0 < J.sender.shifted ∧
      ¬ J.Transmitting ∧
      (∀ x < J.sender.shifted, ∃ pkt, (sentPackets twoPackets (2 ^ 10))[x]? = some pkt ∧
        J.receiver.appended[x]? = some pkt) ∧
      (¬ J.Transmitting → J.receiver.appended = sentPackets twoPackets (2 ^ 10))) := by
  have hring : 2 * 1 ∣ 2 ^ 22 := by norm_num
  have hb : 1024 * (2 * 1) < 2 ^ 31 := by norm_num
  constructor
  · obtain ⟨J, h, hsend, hS, -, -, htaken, hrev⟩ := exists_taken_two
    obtain ⟨J', hreach, -, hreceiver, hS', hshifted⟩ := reaches_acked (by norm_num) hring hb h hS
      hsend (by omega) (by rw [hrev, htaken])
    have h' := h.trans hreach
    refine ⟨J', h', ?_, acked_delivered (e := 10) (by norm_num) (by norm_num) h'⟩
    have hack := hS'.window.shape.acks 0 (by norm_num)
    rw [Nat.le_zero.1 hshifted, htaken] at hack
    exact hack
  · obtain ⟨J, hreach, hret, hexited⟩ := exists_returned_two
    have h := startOfTwo_reachable.trans hreach
    obtain ⟨acked, _, _, hrel, hinv⟩ := Related.of_reachable (by norm_num) hring hb h
    have hend : ¬ J.Transmitting := hinv.phases.left (Receiver.side_eq_left_iff.2 hret)
    have hi := (hrel.acked_eq hinv hend).2.1
    have hroom := hrel.sender.window.added_le
    rw [length_sentPackets_two] at hi
    exact ⟨J, h, by omega, hend, (acked_delivered (e := 10) (by norm_num) (by norm_num) h).2⟩

/-- **Ordering of the closing handshake.** -/
theorem closing_order (he : 10 ≤ e) (he' : e ≤ 29)
    (hflag : finalFlag (sentPackets buf (2 ^ e)) = true)
    (h : (transferSystem buf (2 ^ e)).Reachable J) :
    (J.receiver.phase = .exited → ¬ J.Transmitting ∧
      J.sender.i = (sentPackets buf (2 ^ e)).length ∧ cwndNumPendingAcks J.sender.cwndW = 0) ∧
    (J.sender.phase = .exited true → J.receiver.phase = .exited) := by
  obtain ⟨n, hW, hn, hring, hb⟩ := exists_packets_of_pow he he'
  rw [hW] at h hflag ⊢
  obtain ⟨acked, fwd, rev, hrel, hinv⟩ := Related.of_reachable hn hring hb h
  constructor
  · intro hexited
    have hside : J.receiver.side = .left := Receiver.side_eq_left_iff.2 hexited
    have hdone : ¬ J.Transmitting := hinv.phases.left hside
    obtain ⟨hacked, hi, -⟩ := hrel.acked_eq hinv hdone
    exact ⟨hdone, hi, by rw [hrel.sender.window.numPendingAcks, hacked, hi, Nat.sub_self]⟩
  · intro hexited
    have hside : J.sender.side = .left true := by rw [Sender.side, hexited]
    exact Receiver.side_eq_left_iff.1 (hinv.phases.byDatagram hflag hside)

theorem closing_order_two :
    ∃ J, (transferSystem twoPackets (2 ^ 10)).Reachable J ∧ J.receiver.phase = .exited ∧
      J.sender.phase = .exited true ∧
      (J.receiver.phase = .exited → ¬ J.Transmitting ∧
        J.sender.i = (sentPackets twoPackets (2 ^ 10)).length ∧
        cwndNumPendingAcks J.sender.cwndW = 0) ∧
      (J.sender.phase = .exited true → J.receiver.phase = .exited) := by
  obtain ⟨J, hreach, hret, hexited⟩ := exists_returned_two
  have h := startOfTwo_reachable.trans hreach
  exact ⟨J, h, hret, hexited,
    closing_order (e := 10) (by norm_num) (by norm_num) (finalFlag_twoPackets _) h⟩

/-! ### Sequence numbers -/

/-- **Sequence numbers in flight are unambiguous.**  No two data packets in flight share one; the
one the receiver expects belongs to the next packet; and an acknowledgement that passes the
sender's test is for a packet of its window that the receiver has appended. -/
theorem inFlight_unambiguous (he : 10 ≤ e) (he' : e ≤ 29)
    (h : (transferSystem buf (2 ^ e)).Reachable J) :
    (∀ p ∈ J.fwd, ∀ q ∈ J.fwd, ¬ IsControl p → ¬ IsControl q → getSeqNum p = getSeqNum q →
      p = q) ∧
    (J.receiver.phase = .read → ∀ p ∈ J.fwd, ¬ IsControl p →
      expSeq J.receiver.cwndR = some (getSeqNum p) →
      (sentPackets buf (2 ^ e))[J.receiver.appended.length]? = some p) ∧
    (J.receiver.phase ≠ .exited → ∀ p ∈ J.rev, ¬ IsControl p →
      cwndCheckIn J.sender.cwndW (getACKNum p) = true →
      ∃ x pkt, J.sender.shifted ≤ x ∧ x < J.receiver.appended.length ∧
        (sentPackets buf (2 ^ e))[x]? = some pkt ∧ getACKNum p = getSeqNum pkt) := by
  obtain ⟨n, hW, hn, hring, hb⟩ := exists_packets_of_pow he he'
  rw [hW] at h ⊢
  have hnum : Numbered n (sentPackets buf (1024 * n)) := numbered_packetsOf hring hb _ _
  obtain ⟨acked, fwd, rev, hrel, hinv⟩ := Related.of_reachable hn hring hb h
  refine ⟨fun p hp q hq hpc hqc hseq => ?_, fun hread p hp hpc hexp => ?_,
    fun hphase p hp hpc hin => ?_⟩
  · rcases hrel.data_or_control hp with ⟨i, hi, hpi⟩ | ⟨-, hc⟩
    · rcases hrel.data_or_control hq with ⟨j, hj, hqj⟩ | ⟨-, hc⟩
      · exact hnum.eq_of_seqNum hinv hi hpi hj hqj hseq
      · exact absurd hc hqc
    · exact absurd hc hpc
  · rcases hrel.data_or_control hp with ⟨i, hi, hpi⟩ | ⟨-, hc⟩
    · exact hrel.next_of_seqNum hnum hinv hread hi hpi hexp
    · exact absurd hc hpc
  · have hleft : J.receiver.side ≠ .left := fun e => hphase (Receiver.side_eq_left_iff.1 e)
    rcases hrel.ack_or_control hleft hp with ⟨q, hq, rfl⟩ | hc
    · have hlt := seqOf_lt hn hb q
      rw [getACKNum_ackPacket (by omega)] at hin ⊢
      obtain ⟨h1, h2, pkt, h3, h4⟩ := hrel.taken_of_checkIn hnum hinv hq hin
      exact ⟨q, pkt, h1, h2, h3, h4⟩
    · exact absurd hc hpc

/-- The first packet is in flight to a receiver that waits for it; and its acknowledgement is. -/
theorem inFlight_unambiguous_two :
    (∃ J, (transferSystem twoPackets (2 ^ 10)).Reachable J ∧ J.receiver.phase = .read ∧
      (∃ p ∈ J.fwd, ¬ IsControl p ∧ expSeq J.receiver.cwndR = some (getSeqNum p)) ∧
      (∀ p ∈ J.fwd, ∀ q ∈ J.fwd, ¬ IsControl p → ¬ IsControl q → getSeqNum p = getSeqNum q →
        p = q) ∧
      (J.receiver.phase = .read → ∀ p ∈ J.fwd, ¬ IsControl p →
        expSeq J.receiver.cwndR = some (getSeqNum p) →
        (sentPackets twoPackets (2 ^ 10))[J.receiver.appended.length]? = some p)) ∧
    (∃ J, (transferSystem twoPackets (2 ^ 10)).Reachable J ∧ J.receiver.phase ≠ .exited ∧
      (∃ p ∈ J.rev, ¬ IsControl p ∧ cwndCheckIn J.sender.cwndW (getACKNum p) = true) ∧
      (J.receiver.phase ≠ .exited → ∀ p ∈ J.rev, ¬ IsControl p →
        cwndCheckIn J.sender.cwndW (getACKNum p) = true →
        ∃ x pkt, J.sender.shifted ≤ x ∧ x < J.receiver.appended.length ∧
          (sentPackets twoPackets (2 ^ 10))[x]? = some pkt ∧ getACKNum p = getSeqNum pkt)) := by
  have hring : 2 * 1 ∣ 2 ^ 22 := by norm_num
  have hb : 1024 * (2 * 1) < 2 ^ 31 := by norm_num
  have hnum : Numbered 1 (sentPackets twoPackets (1024 * 1)) := numbered_packetsOf hring hb _ _
  constructor
  · obtain ⟨J, hreach, hS, hlt, hwrite, hread, happ, hfwd, -⟩ := startOfTwo_initial.reaches_waiting
      (by norm_num) hring hb rfl rfl (by rw [length_sentPackets_two]; norm_num)
    have hlen : 0 < (sentPackets twoPackets (1024 * 1)).length := hlt.trans_le hS.i_le
    obtain ⟨pkt, hpkt⟩ : ∃ pkt, (sentPackets twoPackets (1024 * 1))[0]? = some pkt :=
      ⟨_, List.getElem?_eq_getElem hlen⟩
    have h := startOfTwo_reachable.trans hreach
    have h' := h.trans (reaches_send hS.i_le le_rfl hlt hwrite hpkt)
    refine ⟨_, h', hread, ⟨pkt, List.mem_append_right _ List.mem_cons_self, fun hc => ?_, ?_⟩,
      (inFlight_unambiguous (e := 10) (by norm_num) (by norm_num) h').1,
      (inFlight_unambiguous (e := 10) (by norm_num) (by norm_num) h').2.1⟩
    · rcases hc.close_or with e | e
      · rw [hnum.close hpkt] at e
        cases e
      · rw [hnum.verifies hpkt] at e
        cases e
    · obtain ⟨_, _, _, hrel, -⟩ := Related.of_reachable (by norm_num) hring hb h
      obtain ⟨base, added, hR⟩ := hrel.receiver
      have hsound := hR.sound
      have hw := hR.window
      rw [hread] at hsound
      rw [hsound.1, happ] at hw
      rw [hnum.seqNum hpkt]
      exact expSeq_eq hw
  · obtain ⟨J, h, -, hS, hlt, hphase, -, hrev⟩ := exists_taken_two
    refine ⟨J, h, (by rw [hphase]; exact fun e => by cases e),
      ⟨ackPacket (seqOf 1 0), by rw [hrev]; exact List.mem_cons_self, fun hc => ?_, ?_⟩,
      (inFlight_unambiguous (e := 10) (by norm_num) (by norm_num) h).2.2⟩
    · have hack := hc.not_ack
      rw [getACK_ackPacket] at hack
      cases hack
    · have hbase := hS.window.base_le
      rw [getACKNum_ackPacket (lt_trans (seqOf_lt (by norm_num) hb 0) (by norm_num))]
      exact (hS.window.checkIn_iff (by omega) (by omega)).2 ⟨hbase, hlt⟩

/-! ### Runs of the protocol -/

/-- A configuration of the protocol describes a joint state: the counters and sides agree, and what
is in flight is the packets and acknowledgements with the numbers of the configuration. -/
def Describes (pkts : List Packet) (n : ℕ) (a : Config) (J : Joint) : Prop :=
  ∃ acked fwd rev, a = J.view acked fwd rev ∧ Related pkts n J acked fwd rev

/-- **The transfer is one with packet numbers.**  Every run of the two programs and the network from
a reachable state is described by a run of the protocol, whose datagrams carry the numbers of the
packets themselves. -/
theorem transfer_refines {J' : Joint} (he : 10 ≤ e) (he' : e ≤ 29)
    (h : (transferSystem buf (2 ^ e)).Reachable J)
    (hreach : (transferSystem buf (2 ^ e)).Reaches J J') :
    ∃ n a a', 2 ^ e = 1024 * n ∧
      (transfer n (sentPackets buf (2 ^ e)).length
        (finalFlag (sentPackets buf (2 ^ e)))).Reachable a ∧
      (transfer n (sentPackets buf (2 ^ e)).length
        (finalFlag (sentPackets buf (2 ^ e)))).Reaches a a' ∧
      Describes (sentPackets buf (2 ^ e)) n a J ∧ Describes (sentPackets buf (2 ^ e)) n a' J' := by
  obtain ⟨n, hW, hn, hring, hb⟩ := exists_packets_of_pow he he'
  rw [hW] at h hreach ⊢
  obtain ⟨a, ha, hrel⟩ := (refinement buf (fun _ _ => True) hn hring hb).reachable h
  obtain ⟨a', haa, hrel'⟩ := (refinement buf (fun _ _ => True) hn hring hb).reaches ha hrel hreach
  exact ⟨n, a, a', rfl, ha, haa, hrel, hrel'⟩

/-- A run to the return of both calls. -/
theorem transfer_refines_two :
    ∃ J, J.receiver.phase = .exited ∧
      (transferSystem twoPackets (2 ^ 10)).Reaches startOfTwo J ∧
      ∃ n a a', 2 ^ 10 = 1024 * n ∧
        (transfer n (sentPackets twoPackets (2 ^ 10)).length
          (finalFlag (sentPackets twoPackets (2 ^ 10)))).Reachable a ∧
        (transfer n (sentPackets twoPackets (2 ^ 10)).length
          (finalFlag (sentPackets twoPackets (2 ^ 10)))).Reaches a a' ∧
        Describes (sentPackets twoPackets (2 ^ 10)) n a startOfTwo ∧
        Describes (sentPackets twoPackets (2 ^ 10)) n a' J := by
  obtain ⟨J, hreach, hret, -⟩ := exists_returned_two
  exact ⟨J, hret, hreach,
    transfer_refines (e := 10) (by norm_num) (by norm_num) startOfTwo_reachable hreach⟩

end Transfers

end Tcp118
