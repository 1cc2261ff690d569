import Tcp118.Transport.LastAccepted

/-!
# Datagrams other than the expected packet

What a pass of `readTCP`'s loop does with a datagram that is not the expected packet.  The other
readers compare what `recvfrom` returns with `PACKET_SIZE` before they look at the buffer, and
`readPacket` does not.

* `receivePass`: the pass from `recvfrom` on;
* `Undisturbed`: the window and the message are as before, and at most a duplicate acknowledgement
  has been sent;
* `TrackedInv.undisturbed`: without an expected packet in the buffer nothing is disturbed;
* `TrackedInv.disturbed`: with one the window moves on, however long the datagram was;
* `ignores_iff`: the exact condition.
-/

namespace Tcp118

/-- The pass of `readTCP`'s loop that receives a datagram, from `recvfrom` on, with the datagram it
sends. -/
def receivePass (stack : Packet) (d : Datagram) (lost corr : Bool) (behind heap : List UInt8)
    (R : Receiver) : Option (Receiver × Option Packet) := do
  let R ← receiverRecv stack (some d) R
  receiverStep lost corr behind heap R

/-- The receiver is as before, and at most the packet accepted last has been acknowledged again. -/
structure Undisturbed (last : Option Packet) (R R' : Receiver) (out : Option Packet) : Prop where
  packets : R'.cwndR.packets = R.cwndR.packets
  acks : R'.cwndR.acks = R.cwndR.acks
  lastSeq : R'.cwndR.lastSeq = R.cwndR.lastSeq
  nextSeq : R'.cwndR.nextSeq = R.cwndR.nextSeq
  message : R'.message = R.message
  out : out = none ∨ ∃ acc, last = some acc ∧ out = some (ackPacket (getSeqNum acc))

/-- A datagram that is not the expected packet does not disturb the receiver. -/
def Ignores (stack : Packet) (d : Datagram) (T : Tracked) : Prop :=
  (¬ ∃ pkt, d = datagram pkt ∧ Expected T.receiver.cwndR pkt) →
    ∀ lost corr behind heap, ∃ R' out,
      receivePass stack d lost corr behind heap T.receiver = some (R', out) ∧
        Undisturbed T.last T.receiver R' out

/-- A datagram of `PACKET_SIZE` bytes is the packet it leaves in the buffer. -/
theorem datagram_recvBuf {d : Datagram} (h : d.length = packetSize) (stack : Packet) :
    datagram (recvBuf stack d) = d := by
  apply List.ext_getElem
  · rw [length_datagram, h]
  · intro i _ hi
    rw [getElem_datagram, recvBuf, Packet.byte_ofBytes (by rwa [h] at hi),
      List.getD_eq_getElem _ _ hi]

/-- With nothing pending the expected packet has the number `next_seq`. -/
theorem Shape.expected_iff {n β k : ℕ} {w : Cwnd} (h : Shape n β k k w) (pkt : Packet) :
    Expected w pkt ↔ getClose pkt = false ∧ verifies pkt = true ∧ getSeqNum pkt = w.nextSeq ∧
      getACK pkt = false := by
  unfold Expected
  rw [h.expSeq_eq, Option.some.injEq, eq_comm (a := w.nextSeq)]

section Pass

variable {n β k : ℕ} {T : Tracked}

/-- What `recvfrom` leaves in the buffer decides what `readPacket` does. -/
theorem TrackedInv.receiverRecv_read (h : TrackedInv n β k k T) (hphase : T.receiver.phase = .read)
    (stack : Packet) (d : Datagram) :
    receiverRecv stack (some d) T.receiver = some { T.receiver with
      cwndR := if Expected T.receiver.cwndR (recvBuf stack d)
        then (cwndAddPkt T.receiver.cwndR (recvBuf stack d)).1 else T.receiver.cwndR
      phase := .deliver } := by
  obtain ⟨r, hread⟩ := h.window.readPacket_some (rfl : recvBuf stack d = _)
  unfold receiverRecv
  rw [hphase]
  dsimp only
  rw [hread, Option.map_some]
  simp only [h.window.expected_iff]

/-- Without an expected packet in the buffer, the pass repeats the last acknowledgement at most. -/
theorem TrackedInv.undisturbed (h : TrackedInv n β k k T) (hphase : T.receiver.phase = .read)
    (hring : 2 * n ∣ 2 ^ 22) {stack : Packet} {d : Datagram}
    (hexp : ¬ Expected T.receiver.cwndR (recvBuf stack d)) (lost corr : Bool)
    (behind heap : List UInt8) :
    ∃ R' out, receivePass stack d lost corr behind heap T.receiver = some (R', out) ∧
      Undisturbed T.last T.receiver R' out := by
  unfold receivePass
  rw [h.receiverRecv_read hphase, if_neg hexp]
  refine ⟨_, _, Shape.deliver_of_none (R := { T.receiver with phase := .deliver }) h.window
    lost corr behind heap, rfl, rfl, rfl, rfl, rfl, ?_⟩
  dsimp only
  rw [h.started]
  cases hlast : T.last with
  | none => exact .inl rfl
  | some acc =>
    refine .inr ⟨acc, rfl, ?_⟩
    rw [(h.prevSeq_eq_iff hlast).2 (.inr hring)]
    rfl

/-- With an expected packet in the buffer, the window moves on by one packet. -/
theorem TrackedInv.disturbed (h : TrackedInv n β k k T) (hphase : T.receiver.phase = .read)
    (hk : k < n) {stack : Packet} {d : Datagram}
    (hexp : Expected T.receiver.cwndR (recvBuf stack d)) (lost corr : Bool)
    (behind heap : List UInt8) {R' : Receiver} {out : Option Packet}
    (hpass : receivePass stack d lost corr behind heap T.receiver = some (R', out)) :
    R'.cwndR.nextSeq ≠ T.receiver.cwndR.nextSeq := by
  have hadd := h.window.checkAdd_of_lt h.half hk
  have hs := h.window.addPkt hadd (by omega) (recvBuf stack d)
  have hdone := hs.setAllPrevAck_slot (Nat.lt_succ_self k)
  unfold receivePass at hpass
  rw [h.receiverRecv_read hphase, if_pos hexp] at hpass
  have hslot : (cwndAddPkt T.receiver.cwndR (recvBuf stack d)).1.packets[(β + k) % (2 * n)]? =
      some (recvBuf stack d) := by
    rw [h.window.packets_addPkt hadd, if_pos rfl]
  have hdeliver := Shape.deliver_of_pending (R := { T.receiver with
    cwndR := (cwndAddPkt T.receiver.cwndR (recvBuf stack d)).1
    phase := .deliver }) hs (Shape.start_addPkt hadd _) hslot lost corr behind heap
  have heq := hpass.symm.trans hdeliver
  rw [Option.some.injEq, Prod.mk.injEq] at heq
  rw [heq.1, h.window.nextSeq]
  dsimp only
  rw [hdone.nextSeq]
  have hne := Cyclic.pos_inj (N := 2 * n) (β := β) (p := k + 1) (q := k) (by omega) (by omega)
  omega

/-- So a datagram of another length that leaves an expected packet in the buffer is not ignored. -/
theorem TrackedInv.not_ignores (h : TrackedInv n β k k T) (hphase : T.receiver.phase = .read)
    (hk : k < n) {stack : Packet} {d : Datagram}
    (hexp : Expected T.receiver.cwndR (recvBuf stack d)) (hlen : d.length ≠ packetSize) :
    ¬ Ignores stack d T := by
  intro hignores
  have hnot : ¬ ∃ pkt, d = datagram pkt ∧ Expected T.receiver.cwndR pkt := by
    rintro ⟨pkt, rfl, -⟩
    exact hlen (length_datagram pkt)
  obtain ⟨R', out, hpass, hsame⟩ := hignores hnot false false [] []
  exact h.disturbed hphase hk hexp false false [] [] hpass hsame.nextSeq

end Pass

/-- **A datagram other than the expected packet leaves the receiver undisturbed exactly when the
buffer behind `recvfrom` does not hold the expected packet**, unless the datagram has
`PACKET_SIZE` bytes and is that packet. -/
theorem ignores_iff {e : ℕ} (he : 10 ≤ e) (he' : e ≤ 29) {T : Tracked}
    (hreach : (trackedSystem (2 ^ e)).Reachable T) (hphase : T.receiver.phase = .read)
    (stack : Packet) (d : Datagram) :
    Ignores stack d T ↔
      (Expected T.receiver.cwndR (recvBuf stack d) → d.length = packetSize) := by
  obtain ⟨n, hW, hn, hring, hb⟩ := exists_packets_of_pow he he'
  rw [hW] at hreach
  obtain ⟨β, k, j, h⟩ := TrackedInv.of_reachable hn hb hreach
  have hsettled := h.settled
  rw [hphase] at hsettled
  obtain ⟨rfl, hguard⟩ := hsettled
  constructor
  · intro hignores hexp
    by_contra hlen
    -- a window that need not be shifted has room
    have hd := drift_of_dvd hn hring
    have hroom := h.room
    rw [room, if_neg (by omega)] at hroom
    rw [← Bool.not_eq_true, h.window.shiftGuard_iff, ← Bool.not_eq_true,
      h.window.checkAdd_iff h.half hroom hd] at hguard
    exact h.not_ignores hphase (by omega) hexp hlen hignores
  · intro hfull hnot
    have hexp : ¬ Expected T.receiver.cwndR (recvBuf stack d) := fun hexp =>
      hnot ⟨recvBuf stack d, (datagram_recvBuf (hfull hexp) stack).symm, hexp⟩
    exact h.undisturbed hphase hring hexp

/-- A client that waits for its first packet. -/
def waiting : Tracked :=
  ⟨{ receiverInit clientWnd fun _ => zeroPacket with phase := .read }, none⟩

theorem reachable_waiting : (trackedSystem clientWnd).Reachable waiting := by
  have hs := shape_init (n := 4) (by norm_num) (by norm_num) fun _ => zeroPacket
  have hg : shiftGuard (cwndInit clientWnd fun _ => zeroPacket) = false := by
    rw [← Bool.not_eq_true, clientWnd, hs.shiftGuard_iff]
    omega
  have hinit : (trackedSystem clientWnd).Reachable
      ⟨receiverInit clientWnd fun _ => zeroPacket, none⟩ := .of_init ⟨_, rfl⟩
  refine hinit.tail ⟨.step false false [] [], trivial, ?_⟩
  unfold trackedNext receiverNext receiverStep receiverInit
  dsimp only
  rw [hg]
  rfl

/-- An empty datagram over a zeroed buffer. -/
theorem ignores_zeroPacket : Ignores zeroPacket [] waiting :=
  (ignores_iff (e := 12) (by norm_num) (by norm_num) reachable_waiting rfl zeroPacket []).2
    fun hexp => by
      have hver := hexp.2.1
      rw [recvBuf_nil, verifies_zeroPacket] at hver
      cases hver

/-- An empty datagram over a buffer that still holds a packet with the number `0`. -/
theorem not_ignores_emptyPacket :
    ∃ T stack, (trackedSystem clientWnd).Reachable T ∧ T.receiver.phase = .read ∧
      ¬ Ignores stack [] T := by
  have h : TrackedInv 4 0 0 0 waiting :=
    { trackedInv_init (n := 4) (by norm_num) (by norm_num) fun _ => zeroPacket with
      settled := ⟨rfl, by decide⟩ }
  have hexp : Expected waiting.receiver.cwndR (recvBuf (emptyPacket 0) []) := by
    rw [recvBuf_nil, h.window.expected_iff]
    exact ⟨getClose_generatePacket .., verifies_emptyPacket 0,
      getSeqNum_generatePacket _ _ _ _ _ _ _ (by norm_num), getACK_generatePacket ..⟩
  exact ⟨waiting, emptyPacket 0, reachable_waiting, rfl,
    h.not_ignores rfl (by norm_num) hexp (by decide)⟩

end Tcp118
