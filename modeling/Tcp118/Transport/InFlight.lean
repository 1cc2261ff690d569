import Tcp118.Protocol.Drained
import Tcp118.Transport.Refinement

/-!
# What is in flight

* `Related.drained`: every reachable joint state has a view that satisfies the invariant of the
  protocol and the order of data and close packets;
* `Related.data_or_control`, `Related.ack_or_control`: the kinds of datagrams of the two
  directions;
* `control_of_returned`, `readPacket_ignores`: once `readTCP` has returned, nothing in flight to it
  is of use to a later call;
* `Numbered.eq_of_seqNum`, `Related.next_of_seqNum`, `Related.taken_of_checkIn`: a sequence number
  in flight belongs to one packet, and the number a reader acts on belongs to the packet it takes it
  for.
-/

namespace Tcp118

open Protocol

/-- A close packet or a zeroed one. -/
def IsControl (pkt : Packet) : Prop := pkt = closePacket ∨ pkt = zeroPacket

section Kinds

variable {pkts : List Packet} {n acked : ℕ} {J : Joint} {fwd rev : List (Option ℕ)}

/-- A datagram to the receiver is a packet of the list or a control packet. -/
theorem Related.data_or_control (h : Related pkts n J acked fwd rev) {pkt : Packet}
    (hpkt : pkt ∈ J.fwd) :
    (∃ j, some j ∈ fwd ∧ pkts[j]? = some pkt) ∨ none ∈ fwd ∧ IsControl pkt := by
  obtain ⟨i, hi⟩ := List.mem_iff_getElem?.1 hpkt
  obtain ⟨t, ht, hcarries⟩ := forall₂_getElem? h.fwd hi
  have hmem := List.mem_iff_getElem?.2 ⟨i, ht⟩
  cases hcarries with
  | @data j _ hj => exact .inl ⟨j, hmem, hj⟩
  | close => exact .inr ⟨hmem, .inl rfl⟩
  | zero => exact .inr ⟨hmem, .inr rfl⟩

/-- A datagram to the sender is an acknowledgement or a control packet, as long as the receiver has
not returned. -/
theorem Related.ack_or_control (h : Related pkts n J acked fwd rev)
    (hreceiver : J.receiver.side ≠ .left) {pkt : Packet} (hpkt : pkt ∈ J.rev) :
    (∃ q, some q ∈ rev ∧ pkt = ackPacket (seqOf n q)) ∨ IsControl pkt := by
  obtain ⟨i, hi⟩ := List.mem_iff_getElem?.1 hpkt
  obtain ⟨t, ht, hack⟩ := forall₂_getElem? h.rev hi
  have hmem := List.mem_iff_getElem?.2 ⟨i, ht⟩
  cases hack with
  | ack q => exact .inl ⟨q, hmem, rfl⟩
  | close => exact .inr (.inl rfl)
  | zero => exact .inr (.inr rfl)
  | follow hleft => exact absurd hleft hreceiver

/-- A control packet is a close packet or fails the test of every receiver. -/
theorem IsControl.close_or {pkt : Packet} (h : IsControl pkt) :
    getClose pkt = true ∨ verifies pkt = false := by
  rcases h with rfl | rfl
  · exact .inl getClose_closePacket
  · exact .inr verifies_zeroPacket

theorem IsControl.not_ack {pkt : Packet} (h : IsControl pkt) : getACK pkt = false := by
  rcases h with rfl | rfl
  · exact getACK_closePacket
  · exact getACK_zeroPacket

end Kinds

section Reachable

variable {buf : List UInt8} {n : ℕ} {J : Joint} {allowed : Event → Joint → Prop}

/-- Every reachable joint state has a view with both invariants of the protocol. -/
theorem Related.drained (hn : 0 < n) (hring : 2 * n ∣ 2 ^ 22) (hb : 1024 * (2 * n) < 2 ^ 31)
    (h : (transferRuns buf (1024 * n) allowed).Reachable J) :
    ∃ acked fwd rev, Related (sentPackets buf (1024 * n)) n J acked fwd rev ∧
      Inv n (sentPackets buf (1024 * n)).length (finalFlag (sentPackets buf (1024 * n)))
        (J.view acked fwd rev) ∧ Drained (J.view acked fwd rev) := by
  obtain ⟨a, ha, acked, fwd, rev, rfl, hrel⟩ := (refinement buf allowed hn hring hb).reachable h
  exact ⟨acked, fwd, rev, hrel, Protocol.inv hn ha, Protocol.drained hn ha⟩

/-- Behind the return of `readTCP` only control packets are in flight to it. -/
theorem control_of_returned (hn : 0 < n) (hring : 2 * n ∣ 2 ^ 22) (hb : 1024 * (2 * n) < 2 ^ 31)
    (h : (transferRuns buf (1024 * n) allowed).Reachable J)
    (hreturned : J.receiver.phase = .exited) : ∀ pkt ∈ J.fwd, IsControl pkt := by
  obtain ⟨acked, fwd, rev, hrel, -, hdrained⟩ := Related.drained hn hring hb h
  intro pkt hpkt
  rcases hrel.data_or_control hpkt with ⟨j, hj, -⟩ | ⟨-, hcontrol⟩
  · cases hdrained.drained (Receiver.side_eq_left_iff.2 hreturned) _ hj
  · exact hcontrol

/-- What `readPacket` does with a control packet, or with an acknowledgement. -/
theorem readPacket_ignores {pkt : Packet}
    (h : getClose pkt = true ∨ verifies pkt = false ∨ getACK pkt = true) (stack : Packet)
    {w : Cwnd} {r : Cwnd × ℤ} (hr : readPacket stack (some (datagram pkt)) w = some r) :
    r.1 = w := by
  unfold readPacket at hr
  simp only [recvBuf_datagram] at hr
  by_cases hclose : getClose pkt = true
  · rw [if_pos hclose, Option.some.injEq] at hr
    rw [← hr]
  · have hnot : ∀ seq, ¬ (verifies pkt = true ∧ getSeqNum pkt = seq ∧ getACK pkt = false) := by
      rintro seq ⟨h1, -, h2⟩
      rcases h with h | h | h
      · exact hclose h
      · rw [h1] at h; cases h
      · rw [h2] at h; cases h
    rw [if_neg hclose] at hr
    obtain ⟨seq, -, hseq⟩ := Option.bind_eq_some_iff.1 hr
    rw [if_neg (hnot seq), Option.pure_def, Option.some.injEq] at hseq
    rw [← hseq]

/-! ### Sequence numbers -/

/-- Two data packets in flight with one sequence number are the same: those in flight come from
the sender's window and the one before it, which fit the ring together. -/
theorem Numbered.eq_of_seqNum {pkts : List Packet} {acked : ℕ} {fwd rev : List (Option ℕ)}
    {final : Bool} (hnum : Numbered n pkts)
    (hinv : Inv n pkts.length final (J.view acked fwd rev)) {i j : ℕ} {p q : Packet}
    (hi : some i ∈ fwd) (hp : pkts[i]? = some p) (hj : some j ∈ fwd) (hq : pkts[j]? = some q)
    (hseq : getSeqNum p = getSeqNum q) : p = q := by
  have hroom : J.sender.i ≤ J.sender.shifted + n := hinv.counts.added_le
  obtain ⟨hi1, hi2⟩ := hinv.forward.near i hi
  obtain ⟨hj1, hj2⟩ := hinv.forward.near j hj
  dsimp only [Joint.view] at hi1 hi2 hj1 hj2
  rw [hnum.seqNum hp, hnum.seqNum hq, seqOf_inj (by omega) (by omega)] at hseq
  rw [hseq, hq, Option.some.injEq] at hp
  exact hp.symm

/-- A data packet in flight that carries the number the receiver expects is the next packet. -/
theorem Related.next_of_seqNum {pkts : List Packet} {acked : ℕ} {fwd rev : List (Option ℕ)}
    {final : Bool} (hnum : Numbered n pkts) (hrel : Related pkts n J acked fwd rev)
    (hinv : Inv n pkts.length final (J.view acked fwd rev)) (hread : J.receiver.phase = .read)
    {i : ℕ} {p : Packet} (hi : some i ∈ fwd) (hp : pkts[i]? = some p)
    (hexp : expSeq J.receiver.cwndR = some (getSeqNum p)) :
    pkts[J.receiver.appended.length]? = some p := by
  obtain ⟨base, added, hR⟩ := hrel.receiver
  have hsound := hR.sound
  rw [hread] at hsound
  have hw := hR.window
  rw [hsound.1] at hw
  obtain ⟨h1, h2⟩ := hinv.fwd_near hi
  dsimp only [Joint.view] at h1 h2
  rw [expSeq_eq hw, hnum.seqNum hp, Option.some.injEq, eq_comm, seqOf_inj h1 h2] at hexp
  rw [← hexp, hp]

/-- An acknowledgement in flight that passes the sender's test is for a packet of its window that
the receiver has appended. -/
theorem Related.taken_of_checkIn {pkts : List Packet} {acked : ℕ} {fwd rev : List (Option ℕ)}
    {final : Bool} (hnum : Numbered n pkts) (hrel : Related pkts n J acked fwd rev)
    (hinv : Inv n pkts.length final (J.view acked fwd rev)) {q : ℕ} (hq : some q ∈ rev)
    (hin : cwndCheckIn J.sender.cwndW (seqOf n q) = true) :
    J.sender.shifted ≤ q ∧ q < J.receiver.appended.length ∧
      ∃ pkt, pkts[q]? = some pkt ∧ seqOf n q = getSeqNum pkt := by
  obtain ⟨h1, h2⟩ := hinv.rev_near hq
  obtain ⟨h3, h4⟩ := (hrel.sender.window.checkIn_iff h1 h2).1 hin
  have h5 := hrel.sender.i_le
  have h6 := (hinv.reverse.near q (List.reduceOption_mem_iff.2 hq)).2
  have hpkt : pkts[q]? = some pkts[q] := List.getElem?_eq_getElem (by omega)
  exact ⟨h3, h6, _, hpkt, (hnum.seqNum hpkt).symm⟩

end Reachable

end Tcp118
