import Tcp118.Library.StepSystem
import Tcp118.Transport.Receiver
import Tcp118.Transport.Joint

/-!
# The windows of `server.c` and `client.c`

The server takes the window of its `writeTCP` from the command line; the window of the client's
`readTCP` is always 4096 bytes.

* `receiverSystem`: the runs of `readTCP` alone, with arbitrary datagrams and timeouts as the
  results of its receive calls;
* `expSeq_of_reachable`: the number it expects, from the count of the accepted packets;
* `exists_reading`: it can accept packets of any list up to the first number it does not expect;
* `EndpointsAgree`, `endpointsAgree_iff`: the numbers of the two programs agree exactly for equal
  windows and for files that end before the smaller of their rings does.
-/

namespace Tcp118

/-- An event of `readTCP`: a step of its own or the return of a receive call. -/
inductive ReceiverEvent
  | step (lost corr : Bool) (behind heap : List UInt8)
  | recv (stack : Packet) (recv : Option Datagram)

/-- What an event does. -/
def receiverNext : ReceiverEvent → Receiver → Option Receiver
  | .step lost corr behind heap, R => (receiverStep lost corr behind heap R).map Prod.fst
  | .recv stack recv, R => receiverRecv stack recv R

/-- The runs of `readTCP`, whatever it is sent. -/
def receiverSystem (cWnd : ℕ) : StepSystem Receiver :=
  .ofEvents (fun R => ∃ heap, R = receiverInit cWnd heap) receiverNext fun _ _ => True

/-- The window of the client. -/
def clientWnd : ℕ := 4096

/-- Whenever the client is about to receive and has accepted exactly the packets before packet `i`
of the server's response, it expects the sequence number of packet `i`. -/
def EndpointsAgree (file : List UInt8) (cWnd : ℕ) : Prop :=
  ∀ i, ∀ h : i < (sentPackets file cWnd).length, ∀ R, (receiverSystem clientWnd).Reachable R →
    R.phase = .read → R.appended = (sentPackets file cWnd).take i →
    expSeq R.cwndR = some (getSeqNum (sentPackets file cWnd)[i])

/-! ### The runs of the receiver -/

section Runs

variable {pkts : List Packet} {n base added : ℕ} {R R' : Receiver}

/-- The list of a receiver in `readPacket` may be changed behind the packets it has read. -/
theorem ReceiverInv.extend (h : ReceiverInv pkts n base added R) (hphase : R.phase = .read)
    (pkt : Packet) : ReceiverInv (R.appended ++ [pkt]) n base added R := by
  have hsound := h.sound
  rw [hphase] at hsound
  refine ⟨h.window, (List.take_left' rfl).symm, h.started, ?_⟩
  rw [hphase]
  exact hsound

/-- Every datagram keeps the invariant, over some list. -/
theorem ReceiverInv.recv {stack : Packet} {recv : Option Datagram}
    (h : ReceiverInv pkts n base added R) (hrecv : receiverRecv stack recv R = some R') :
    ∃ pkts' added', ReceiverInv pkts' n base added' R' := by
  have hsound := h.sound
  rcases receiverRecv_phase hrecv with hphase | hphase
  · cases recv with
    | none =>
      rw [receiverRecv_read_timeout hphase] at hrecv
      cases hrecv
      exact ⟨_, _, (h.ignored hphase).1⟩
    | some d =>
      obtain ⟨pkt, hbuf⟩ : ∃ pkt, recvBuf stack d = pkt := ⟨_, rfl⟩
      rw [h.recv_some hphase hbuf] at hrecv
      cases hrecv
      split_ifs with hexp
      · exact ⟨_, _, ((h.extend hphase pkt).accepted hphase List.getElem?_concat_length).1⟩
      · exact ⟨_, _, (h.ignored hphase).1⟩
  · rw [hphase] at hsound
    unfold receiverRecv at hrecv
    rw [hphase] at hrecv
    cases hrecv
    refine ⟨pkts, added, h.withPhase ?_⟩
    split_ifs <;> exact hsound

theorem ReceiverInv.of_reachable (hn : 0 < n) (hring : 2 * n ∣ 2 ^ 22)
    (hb : 1024 * (2 * n) < 2 ^ 31) (h : (receiverSystem (1024 * n)).Reachable R) :
    ∃ pkts base added, ReceiverInv pkts n base added R := by
  refine h.invariant (I := fun R => ∃ pkts base added, ReceiverInv pkts n base added R) ?_ ?_
  · rintro _ ⟨heap, rfl⟩
    exact ⟨[], 0, 0, receiverInv_init [] hn hring hb heap⟩
  · rintro R₁ R₂ - ⟨pkts, base, added, hinv⟩ ⟨event, -, hnext⟩
    cases event with
    | step lost corr behind heap =>
      obtain ⟨⟨R', out⟩, hstep, rfl⟩ := Option.map_eq_some_iff.1 hnext
      obtain ⟨base', hinv'⟩ := (hinv.step hstep).1
      exact ⟨pkts, base', added, hinv'⟩
    | recv stack recv =>
      obtain ⟨pkts', added', hinv'⟩ := hinv.recv hnext
      exact ⟨pkts', base, added', hinv'⟩

/-- In `readPacket` the receiver expects the number of the packet behind the accepted ones. -/
theorem expSeq_of_reachable (hn : 0 < n) (hring : 2 * n ∣ 2 ^ 22) (hb : 1024 * (2 * n) < 2 ^ 31)
    (h : (receiverSystem (1024 * n)).Reachable R) (hphase : R.phase = .read) :
    expSeq R.cwndR = some (seqOf n R.appended.length) := by
  obtain ⟨pkts, base, added, hinv⟩ := ReceiverInv.of_reachable hn hring hb h
  have hsound := hinv.sound
  rw [hphase] at hsound
  have hw := hinv.window
  rw [hsound.1] at hw
  exact expSeq_eq hw

theorem reachable_step {cWnd : ℕ} {out : Option Packet} (h : (receiverSystem cWnd).Reachable R)
    (hstep : receiverStep false false [] [] R = some (R', out)) :
    (receiverSystem cWnd).Reachable R' := by
  refine h.tail ⟨.step false false [] [], trivial, ?_⟩
  rw [receiverNext, hstep, Option.map_some]

/-- A receiver in `readPacket` takes an unflagged packet that it expects, and comes back. -/
theorem exists_read_next (hn : 0 < n) (hring : 2 * n ∣ 2 ^ 22) (hb : 1024 * (2 * n) < 2 ^ 31)
    (h : (receiverSystem (1024 * n)).Reachable R) (hphase : R.phase = .read) {pkt : Packet}
    (hexp : getClose pkt = false ∧ verifies pkt = true ∧
      getSeqNum pkt = seqOf n R.appended.length ∧ getACK pkt = false)
    (hlast : getLast (some pkt) = false) :
    ∃ R', (receiverSystem (1024 * n)).Reachable R' ∧ R'.phase = .read ∧
      R'.appended = R.appended ++ [pkt] := by
  obtain ⟨pkts, base, added, hinv⟩ := ReceiverInv.of_reachable hn hring hb h
  have hinv := hinv.extend hphase pkt
  have hsound := hinv.sound
  rw [hphase] at hsound
  -- `recvfrom` returns the packet
  have hrecv := hinv.recv_read hphase zeroPacket pkt
  rw [if_pos hexp] at hrecv
  have hreach := h.tail ⟨.recv zeroPacket (some (datagram pkt)), trivial, hrecv⟩
  -- its body is appended
  obtain ⟨hheld, -⟩ := hinv.accepted hphase List.getElem?_concat_length
  have hwindow := hheld.window
  have hstarted := hheld.started
  have hslot : (cwndAddPkt R.cwndR pkt).1.packets[R.appended.length % (2 * n)]? = some pkt := by
    obtain ⟨hadded, hroom⟩ := hsound
    rw [hinv.window.packets_addPkt (by omega), if_pos (by rw [hadded])]
  rw [hsound.1] at hwindow hstarted
  have hdeliver := deliver_of_pending hwindow
    (hstarted.trans (decide_eq_true (Nat.succ_pos _))) hslot false false [] []
  rw [if_pos hlast] at hdeliver
  have hreach' := reachable_step hreach hdeliver
  -- and the loop starts again
  obtain ⟨R', hstep, hread, happ⟩ := receiverStep_top (R := { R with
    cwndR := cwndSetAllPrevAck (cwndAddPkt R.cwndR pkt).1 (seqOf n R.appended.length)
    pkt := some pkt
    message := appendBody R.message pkt [] []
    appended := R.appended ++ [pkt]
    phase := .top }) rfl hlast false false [] []
  exact ⟨R', reachable_step hreach' hstep, hread, happ⟩

/-- As long as the numbers of a list are the expected ones, its packets can be accepted. -/
theorem exists_reading (hn : 0 < n) (hring : 2 * n ∣ 2 ^ 22) (hb : 1024 * (2 * n) < 2 ^ 31)
    (buf : List UInt8) (cWnd nbytes : ℕ) {i : ℕ} (hi : i < (packetsOf buf cWnd nbytes).length)
    (hseq : ∀ j pkt, j < i → (packetsOf buf cWnd nbytes)[j]? = some pkt →
      getSeqNum pkt = seqOf n j) :
    ∃ R, (receiverSystem (1024 * n)).Reachable R ∧ R.phase = .read ∧
      R.appended = (packetsOf buf cWnd nbytes).take i := by
  induction i with
  | zero =>
    have hinit : (receiverSystem (1024 * n)).Reachable
        (receiverInit (1024 * n) fun _ => zeroPacket) := .of_init ⟨_, rfl⟩
    obtain ⟨R, hstep, hread, happ⟩ := receiverStep_top
      (R := receiverInit (1024 * n) fun _ => zeroPacket) rfl rfl false false [] []
    exact ⟨R, reachable_step hinit hstep, hread, happ⟩
  | succ i ih =>
    obtain ⟨R, hreach, hread, happ⟩ := ih (by omega) fun j pkt hj => hseq j pkt (by omega)
    have hpkt : (packetsOf buf cWnd nbytes)[i]? = some (packetsOf buf cWnd nbytes)[i] :=
      List.getElem?_eq_getElem (by omega)
    have hlen : R.appended.length = i := by
      rw [happ, List.length_take, Nat.min_eq_left (by omega)]
    have hexp := (hseq i _ (Nat.lt_succ_self i) hpkt).trans (congrArg (seqOf n) hlen.symm)
    have hlast : getLast (some (packetsOf buf cWnd nbytes)[i]) = false := by
      rw [← Bool.not_eq_true, getLast_packet hpkt]
      omega
    obtain ⟨R', hreach', hread', happ'⟩ := exists_read_next hn hring hb hreach hread
      ⟨getClose_packet hpkt, verifies_packet hpkt, hexp, getACK_packet hpkt⟩ hlast
    refine ⟨R', hreach', hread', ?_⟩
    rw [happ', happ, List.take_add_one, hpkt, Option.toList_some]

end Runs

/-! ### Two windows -/

section Endpoints

variable {file : List UInt8} {n : ℕ}

/-- Before the ring ends, packet `i` carries `i * PACKET_SIZE`. -/
theorem getSeqNum_before_wrap {nbytes i : ℕ} {pkt : Packet} (hb : 1024 * (2 * n) < 2 ^ 31)
    (hi : i < 2 * n) (h : (packetsOf file (1024 * n) nbytes)[i]? = some pkt) :
    getSeqNum pkt = 1024 * i := by
  rw [eq_pieceOf h, getSeqNum_pieceOf]
  unfold u32
  simp only [packetSize]
  rw [Nat.mod_eq_of_lt (by omega : i * 1024 < 2 ^ 32),
    Nat.mod_eq_of_lt (by omega : 2 * (1024 * n) < 2 ^ 32), Nat.mod_eq_of_lt (by omega),
    Nat.mul_comm]

/-- The packet behind the smaller ring. -/
theorem getSeqNum_at_wrap {nbytes : ℕ} {pkt : Packet} (hn : 0 < n) (hb : 1024 * (2 * n) < 2 ^ 31)
    (hne : n ≠ 4) (h : (packetsOf file (1024 * n) nbytes)[2 * min n 4]? = some pkt) :
    getSeqNum pkt ≠ seqOf 4 (2 * min n 4) := by
  unfold seqOf
  simp only [packetSize]
  rcases Nat.lt_or_ge n 4 with hlt | hge
  · rw [Nat.min_eq_left (by omega)] at h ⊢
    rw [eq_pieceOf h, getSeqNum_pieceOf]
    unfold u32
    simp only [packetSize]
    rw [Nat.mod_eq_of_lt (by omega : 2 * n * 1024 < 2 ^ 32),
      Nat.mod_eq_of_lt (by omega : 2 * (1024 * n) < 2 ^ 32),
      show 2 * n * 1024 = 2 * (1024 * n) by omega, Nat.mod_self]
    omega
  · rw [Nat.min_eq_right hge] at h ⊢
    rw [getSeqNum_before_wrap hb (by omega) h]
    omega

/-- The number of packets of a file, whose length is an `int`. -/
theorem length_sentPackets (hfile : file.length < 2 ^ 31) (W : ℕ) :
    (sentPackets file W).length = (file.length + 1011) / 1012 := by
  rw [sentPackets, length_packetsOf]
  unfold numPackets u32
  simp only [maxBodySize]
  omega

/-- With different windows a file that outlasts the smaller ring leaves the client with a packet
whose number it does not expect. -/
theorem exists_unexpected (file : List UInt8) (hn : 0 < n) (hb : 1024 * (2 * n) < 2 ^ 31)
    (hne : n ≠ 4) (hlen : 2 * min n 4 < (sentPackets file (1024 * n)).length) :
    ∃ R, (receiverSystem clientWnd).Reachable R ∧ R.phase = .read ∧
      R.appended = (sentPackets file (1024 * n)).take (2 * min n 4) ∧
      expSeq R.cwndR ≠ some (getSeqNum (sentPackets file (1024 * n))[2 * min n 4]) := by
  have hring : 2 * 4 ∣ 2 ^ 22 := by norm_num
  obtain ⟨R, hreach, hread, happ⟩ := exists_reading (n := 4) (by norm_num) hring (by norm_num)
    file (1024 * n) (u32 file.length) hlen fun j pkt hj hpkt => by
      rw [getSeqNum_before_wrap hb (by omega) hpkt]
      unfold seqOf
      simp only [packetSize]
      omega
  refine ⟨R, hreach, hread, happ, fun hexp => ?_⟩
  have htaken : R.appended.length = 2 * min n 4 := by
    rw [happ]
    exact List.length_take_of_le (Nat.le_of_lt hlen)
  rw [expSeq_of_reachable (n := 4) (by norm_num) hring (by norm_num) hreach hread, htaken,
    Option.some.injEq] at hexp
  exact getSeqNum_at_wrap hn hb hne (List.getElem?_eq_getElem hlen) hexp.symm

/-- With equal windows, and before the smaller ring ends, the numbers agree. -/
theorem endpointsAgree_of (hb : 1024 * (2 * n) < 2 ^ 31)
    (h : n = 4 ∨ (sentPackets file (1024 * n)).length ≤ 2 * min n 4) :
    EndpointsAgree file (1024 * n) := by
  intro i hi R hreach hread happ
  have hpkt : (packetsOf file (1024 * n) (u32 file.length))[i]? =
      some (sentPackets file (1024 * n))[i] := List.getElem?_eq_getElem hi
  rw [expSeq_of_reachable (n := 4) (by norm_num) (by norm_num) (by norm_num) hreach hread, happ,
    List.length_take, Nat.min_eq_left (Nat.le_of_lt hi), Option.some.injEq]
  rcases h with rfl | hle
  · rw [getSeqNum_packet (by norm_num) hb hpkt]
  · rw [getSeqNum_before_wrap hb (by omega) hpkt]
    unfold seqOf
    simp only [packetSize]
    omega

end Endpoints

/-- **The server and the client agree on the sequence numbers of a file exactly when the server's
window has 4096 bytes, or the file ends before the smaller of the two rings does.**  The length of
a file is an `int`. -/
theorem endpointsAgree_iff {cWnd : ℕ} (hpos : 0 < cWnd) (hmul : cWnd % packetSize = 0)
    (hb : 2 * cWnd < 2 ^ 31) {file : List UInt8} (hfile : file.length < 2 ^ 31) :
    EndpointsAgree file cWnd ↔
      cWnd = clientWnd ∨
        file.length ≤ 2 * min cWnd clientWnd / packetSize * maxBodySize := by
  obtain ⟨n, rfl⟩ : ∃ n, cWnd = 1024 * n :=
    ⟨cWnd / 1024, by simp only [packetSize] at hmul; omega⟩
  have hlen := length_sentPackets hfile (1024 * n)
  have hcond : (1024 * n = clientWnd ∨
      file.length ≤ 2 * min (1024 * n) clientWnd / packetSize * maxBodySize) ↔
        n = 4 ∨ (sentPackets file (1024 * n)).length ≤ 2 * min n 4 := by
    rw [hlen]
    simp only [clientWnd, packetSize, maxBodySize]
    omega
  rw [hcond]
  refine ⟨fun h => ?_, endpointsAgree_of (by omega)⟩
  by_contra hnot
  obtain ⟨R, hreach, hread, happ, hne⟩ := exists_unexpected file (by omega) (by omega)
    (fun e => hnot (.inl e)) (by omega)
  exact hne (h _ _ R hreach hread happ)

/-- The window of the client, given to the server. -/
theorem endpointsAgree_4096 : EndpointsAgree (List.replicate 2025 65) 4096 :=
  (endpointsAgree_iff (by norm_num) (by norm_num) (by norm_num)
    (by rw [List.length_replicate]; norm_num)).2 (.inl rfl)

/-- A window of one packet: the third packet of a file has the number `0` again. -/
theorem not_endpointsAgree_1024 : ¬ EndpointsAgree (List.replicate 2025 65) 1024 := by
  have hlen : (sentPackets (List.replicate 2025 65) 1024).length = 3 := by
    rw [length_sentPackets (by rw [List.length_replicate]; norm_num), List.length_replicate]
  intro h
  obtain ⟨R, hreach, hread, happ, hne⟩ := exists_unexpected (n := 1)
    (List.replicate 2025 65) (by norm_num) (by norm_num) (by norm_num)
    (by rw [hlen]; norm_num)
  exact hne (h _ _ R hreach hread happ)

end Tcp118
