import Tcp118.Transport.SenderWindow
import Tcp118.Window.Flat

/-!
# Passes of `writeTCP`'s loop for any `c_wnd`

Runs of the sender whose window is no multiple of `PACKET_SIZE`, or whose sequence numbers do not
wrap with the ring.

* `WindowStep`, `windowStep_of_senderNext`: what a step can do to the window;
* `reachable_fill`, `exists_added`, `reachable_shift`, `reachable_written`, `reachable_acked`,
  `reachable_top`: the parts of a pass;
* `exists_first_window`, `exists_second_window`: the first window is filled and sent, acknowledged
  as far as the shift test asks for, and shifted.
-/

namespace Tcp118

/-- What `writeTCP` and `readTCP` do to their windows. -/
inductive WindowStep (w : Cwnd) : Cwnd → Prop
  | same : WindowStep w w
  | add (buf : Packet) : cwndCheckAdd w = true → WindowStep w (cwndAddPkt w buf).1
  | ack (seqNum : ℕ) : WindowStep w (cwndSetAllPrevAck w seqNum)
  | shift : shiftGuard w = true → WindowStep w (cwndShiftWnd w)

/-- The slots of a window are allocated once. -/
theorem WindowStep.length_packets {w w' : Cwnd} (h : WindowStep w w') :
    w'.packets.length = w.packets.length := by
  cases h with
  | same => rfl
  | add buf hadd =>
    unfold cwndAddPkt
    rw [if_pos hadd]
    simp [cwndStart]
  | ack seqNum => rw [packets_setAllPrevAck]
  | shift => rfl

theorem readAckPacket_fst (stack : Packet) (recv : Option Datagram) (w : Cwnd) :
    WindowStep w (readAckPacket stack recv w).1 := by
  unfold readAckPacket
  split_ifs
  · exact .same
  · cases recv with
    | none => exact .same
    | some d =>
      dsimp only
      split_ifs
      · exact .ack _
      · exact .same
      · exact .same
      · exact .same

theorem windowStep_shiftWnd (S : Sender) : WindowStep S.cwndW S.shiftWnd.cwndW := by
  unfold Sender.shiftWnd
  split_ifs with hg
  · exact .shift hg
  · exact .same

/-- The step lemma. -/
theorem windowStep_of_senderNext {pkts : List Packet} {event : SenderEvent} {S S' : Sender}
    (h : senderNext pkts event S = some S') : WindowStep S.cwndW S'.cwndW := by
  cases event with
  | step lost corr =>
    obtain ⟨⟨S'', out⟩, hstep, rfl⟩ := Option.map_eq_some_iff.1 h
    unfold senderStep at hstep
    cases hphase : S.phase with
    | top =>
      rw [hphase] at hstep
      dsimp only at hstep
      split_ifs at hstep <;> cases hstep <;> exact .same
    | fill =>
      rw [hphase] at hstep
      dsimp only at hstep
      split at hstep
      · split_ifs at hstep with hadd
        · cases hstep
          exact .add _ hadd
        · cases hstep
          exact .same
      · cases hstep
        exact .same
    | shift =>
      rw [hphase] at hstep
      obtain ⟨todo, -, heq⟩ := Option.map_eq_some_iff.1 hstep
      cases heq
      exact windowStep_shiftWnd S
    | write todo =>
      rw [hphase] at hstep
      cases todo with
      | nil =>
        cases hstep
        exact .same
      | cons entry todo =>
        obtain ⟨pkt, -, heq⟩ := Option.map_eq_some_iff.1 hstep
        cases heq
        exact .same
    | readAck =>
      rw [hphase] at hstep
      dsimp only at hstep
      split_ifs at hstep <;> cases hstep <;> exact .same
    | close =>
      rw [hphase] at hstep
      cases hstep
      exact .same
    | recvAck => rw [hphase] at hstep; cases hstep
    | readClose i => rw [hphase] at hstep; cases hstep
    | exited b => rw [hphase] at hstep; cases hstep
  | recv stack recv =>
    change senderRecv stack recv S = some S' at h
    unfold senderRecv at h
    split at h
    · cases h
      exact readAckPacket_fst _ _ _
    · split at h <;> cases h <;> exact .same
    · cases h

section Runs

variable {pkts : List Packet} {c : ℕ} {S : Sender}

theorem length_packets_of_reachable (hb : 2 * c < 2 ^ 31)
    (h : (senderSystem pkts c).Reachable S) : S.cwndW.packets.length = 2 * c / 1024 := by
  refine h.invariant (I := fun S => S.cwndW.packets.length = 2 * c / 1024) ?_ ?_
  · rintro _ ⟨heap, rfl⟩
    have hsize : u32 (c * 2) = 2 * c := by unfold u32; omega
    simp [senderInit, cwndInit, hsize]
  · rintro S₁ S₂ - hlen ⟨event, -, hnext⟩
    exact (windowStep_of_senderNext hnext).length_packets.trans hlen

theorem reachable_senderStep {S' : Sender} (h : (senderSystem pkts c).Reachable S)
    (hstep : senderStep pkts true false S = some (S', none)) :
    (senderSystem pkts c).Reachable S' := by
  refine h.tail ⟨.step true false, trivial, ?_⟩
  rw [senderNext, hstep, Option.map_some]

/-! ### The parts of a pass -/

theorem reachable_fill (h : (senderSystem pkts c).Reachable S) (hphase : S.phase = .top)
    (hi : S.i < pkts.length) : (senderSystem pkts c).Reachable { S with phase := .fill } := by
  refine reachable_senderStep h ?_
  unfold senderStep
  rw [hphase]
  dsimp only
  rw [if_pos (.inr hi)]

/-- The inner loop, over windows of a family `P` that have room up to `m`. -/
theorem exists_added {P : ℕ → Cwnd → Prop} {m : ℕ}
    (hP : ∀ k w pkt, k < m → P k w → cwndCheckAdd w = true ∧ P (k + 1) (cwndAddPkt w pkt).1)
    (d : ℕ) : ∀ k S, k + d ≤ m → (senderSystem pkts c).Reachable S → S.phase = .fill →
      P k S.cwndW → S.i + d ≤ pkts.length →
      ∃ S', (senderSystem pkts c).Reachable S' ∧ S'.phase = .fill ∧ P (k + d) S'.cwndW ∧
        S'.i = S.i + d := by
  induction d with
  | zero => exact fun k S _ h hphase hS _ => ⟨S, h, hphase, hS, rfl⟩
  | succ d ih =>
    intro k S hk h hphase hS hi
    have hpkt : pkts[S.i]? = some pkts[S.i] := List.getElem?_eq_getElem (by omega)
    obtain ⟨hadd, hnext⟩ := hP k S.cwndW pkts[S.i] (by omega) hS
    have hstep : senderStep pkts true false S =
        some ({ S with cwndW := (cwndAddPkt S.cwndW pkts[S.i]).1, i := S.i + 1 }, none) := by
      unfold senderStep
      rw [hphase]
      dsimp only
      rw [hpkt]
      dsimp only
      rw [if_pos hadd]
    obtain ⟨S', h', hphase', hS', hi'⟩ := ih (k + 1) _ (by omega) (reachable_senderStep h hstep)
      hphase hnext (by dsimp only; omega)
    refine ⟨S', h', hphase', ?_, ?_⟩
    · rwa [show k + (d + 1) = k + 1 + d by omega]
    · rw [hi']
      dsimp only
      omega

/-- The inner loop ends with the room in the window or with the list. -/
theorem reachable_shift (h : (senderSystem pkts c).Reachable S) (hphase : S.phase = .fill)
    (hend : cwndCheckAdd S.cwndW = false ∨ S.i = pkts.length) :
    (senderSystem pkts c).Reachable { S with phase := .shift } := by
  refine reachable_senderStep h ?_
  unfold senderStep
  rw [hphase]
  dsimp only
  rcases hend with hfull | hlen
  · split
    · rw [if_neg (by rw [hfull]; decide)]
    · rfl
  · rw [hlen, List.getElem?_eq_none le_rfl]

/-- The loop of `writePackets` over packets in allocated slots. -/
theorem reachable_readAck (todo : List (ℤ × Option Packet)) :
    ∀ S, (senderSystem pkts c).Reachable S → S.phase = .write todo →
      (∀ entry ∈ todo, entry.2.isSome = true) →
      (senderSystem pkts c).Reachable { S with phase := .readAck } := by
  induction todo with
  | nil =>
    intro S h hphase _
    refine reachable_senderStep h ?_
    unfold senderStep
    rw [hphase]
  | cons entry todo ih =>
    intro S h hphase hsome
    obtain ⟨i, pkt⟩ := entry
    obtain ⟨pkt, rfl⟩ := Option.isSome_iff_exists.1 (hsome _ List.mem_cons_self)
    have hstep : senderStep pkts true false S = some ({ S with phase := .write todo }, none) := by
      unfold senderStep
      rw [hphase]
      rfl
    exact ih { S with phase := .write todo } (reachable_senderStep h hstep) rfl
      fun e he => hsome e (List.mem_cons_of_mem _ he)

/-- The shift test and `writePackets`. -/
theorem reachable_written (h : (senderSystem pkts c).Reachable S) (hphase : S.phase = .shift)
    {todo : List (ℤ × Option Packet)} (hw : writePackets S.shiftWnd.cwndW = some todo)
    (hsome : ∀ entry ∈ todo, entry.2.isSome = true) :
    (senderSystem pkts c).Reachable { S.shiftWnd with phase := .readAck } := by
  have hstep : senderStep pkts true false S =
      some ({ S.shiftWnd with phase := .write todo }, none) := by
    unfold senderStep
    rw [hphase]
    dsimp only
    rw [hw, Option.map_some]
  exact reachable_readAck todo { S.shiftWnd with phase := .write todo }
    (reachable_senderStep h hstep) rfl hsome

/-- An acknowledgement that is read. -/
theorem reachable_acked (h : (senderSystem pkts c).Reachable S) (hphase : S.phase = .readAck)
    (hpend : cwndNumPendingAcks S.cwndW ≠ 0) (seqNum : ℕ) (hseq : seqNum < 2 ^ 32)
    (hin : cwndCheckIn S.cwndW seqNum = true) :
    (senderSystem pkts c).Reachable
      { S with cwndW := cwndSetAllPrevAck S.cwndW seqNum, phase := .readAck } := by
  have hstep : senderStep pkts true false S = some ({ S with phase := .recvAck }, none) := by
    unfold senderStep
    rw [hphase]
    dsimp only
    rw [if_neg hpend]
  have hread : readAckPacket zeroPacket (some (datagram (ackPacket seqNum))) S.cwndW =
      (cwndSetAllPrevAck S.cwndW seqNum, true) := by
    unfold readAckPacket
    rw [if_neg hpend]
    dsimp only
    rw [recvBuf_datagram, if_pos (recvLen_datagram _), getACKNum_ackPacket hseq,
      if_pos ⟨getACK_ackPacket seqNum, verifies_ackPacket seqNum⟩, if_pos hin]
  refine (reachable_senderStep h hstep).tail
    ⟨.recv zeroPacket (some (datagram (ackPacket seqNum))), trivial, ?_⟩
  unfold senderNext senderRecv
  dsimp only
  rw [hread]
  rfl

/-- The end of a pass, at once or by a timeout. -/
theorem reachable_top (h : (senderSystem pkts c).Reachable S) (hphase : S.phase = .readAck) :
    (senderSystem pkts c).Reachable { S with phase := .top } := by
  by_cases hpend : cwndNumPendingAcks S.cwndW = 0
  · refine reachable_senderStep h ?_
    unfold senderStep
    rw [hphase]
    dsimp only
    rw [if_pos hpend]
  · have hstep : senderStep pkts true false S = some ({ S with phase := .recvAck }, none) := by
      unfold senderStep
      rw [hphase]
      dsimp only
      rw [if_neg hpend]
    have hrecv := senderRecv_timeout (S := { S with phase := .recvAck }) zeroPacket rfl
    exact (reachable_senderStep h hstep).tail ⟨.recv zeroPacket none, trivial, hrecv⟩

/-! ### The first two windows -/

/-- Without acknowledgements `writePackets` attempts to send every packet of the window. -/
theorem Flat.writePackets {b k : ℕ} {w : Cwnd} (h : Flat c b k 0 w)
    (hlen : w.packets.length = 2 * c / 1024) :
    ∃ todo, writePackets w = some todo ∧ ∀ entry ∈ todo, entry.2.isSome = true := by
  have hin := h.inside
  have hloop : ∀ left i, i + left ≤ 2 * c / 1024 →
      ∀ entry ∈ writeLoop w left (i : ℤ), entry.2.isSome = true := by
    intro left
    induction left with
    | zero => exact fun i _ entry he => absurd he List.not_mem_nil
    | succ left ih =>
      intro i hi entry he
      have hrest := ih (i + 1) (by omega)
      rw [Nat.cast_add, Nat.cast_one] at hrest
      rw [writeLoop] at he
      split_ifs at he
      · exact hrest entry he
      · rcases List.mem_cons.1 he with rfl | he
        · have hpkt : packetAt w (i : ℤ) = w.packets[i]? := by
            rw [packetAt, if_pos (Int.natCast_nonneg i), Int.toNat_natCast]
          dsimp only
          rw [hpkt, List.getElem?_eq_getElem (by omega)]
          rfl
        · exact hrest entry he
  unfold Tcp118.writePackets
  rw [h.lastPendingAckMss, h.numPendingAcks]
  refine ⟨_, rfl, ?_⟩
  rcases Nat.eq_zero_or_pos k with rfl | hk
  · exact fun entry he => absurd he List.not_mem_nil
  · rw [if_pos hk]
    exact hloop _ _ (by omega)

/-- The first window takes `c_wnd / PACKET_SIZE` packets, rounded up, and sends them. -/
theorem exists_first_window (hlarge : 1024 ≤ c) (hb : 2 * c < 2 ^ 31)
    (hlen : (c + 1023) / 1024 < pkts.length) :
    ∃ S, (senderSystem pkts c).Reachable S ∧ S.phase = .readAck ∧
      Flat c 0 ((c + 1023) / 1024) 0 S.cwndW ∧ S.i = (c + 1023) / 1024 := by
  have hinit : (senderSystem pkts c).Reachable (senderInit c fun _ => zeroPacket) :=
    .of_init ⟨_, rfl⟩
  have hfill := reachable_fill hinit rfl (by dsimp only [senderInit]; omega)
  obtain ⟨S, h, hphase, hS, hi⟩ := exists_added (P := fun k w => Flat c 0 k 0 w)
    (m := (c + 1023) / 1024)
    (fun k w pkt hk hw => ⟨by rw [hw.checkAdd_eq]; exact decide_eq_true (by omega),
      hw.addPkt (by omega) (by omega) pkt⟩)
    ((c + 1023) / 1024) 0 _ (by omega) hfill rfl (Flat.init hlarge hb _)
    (by dsimp only [senderInit]; omega)
  rw [Nat.zero_add] at hS
  dsimp only [senderInit] at hi
  have hfull : cwndCheckAdd S.cwndW = false := by
    rw [hS.checkAdd_eq]
    exact decide_eq_false (by omega)
  obtain ⟨todo, hw, hsome⟩ := hS.writePackets (length_packets_of_reachable hb h)
  -- without acknowledgements it is not shifted
  have hguard : shiftGuard S.cwndW = false := by
    rw [← Bool.not_eq_true, hS.shiftGuard_iff]
    omega
  have hsame : ({ S with phase := .shift } : Sender).shiftWnd = { S with phase := .shift } := by
    unfold Sender.shiftWnd
    rw [if_neg (by rw [hguard]; decide)]
  have hwritten := reachable_written (reachable_shift h hphase (.inl hfull)) rfl
    (by rw [hsame]; exact hw) hsome
  rw [hsame] at hwritten
  exact ⟨_, hwritten, rfl, hS, by dsimp only; omega⟩

/-- The shift test is passed when `c_wnd / PACKET_SIZE` packets, rounded down, have been
acknowledged. -/
theorem exists_second_window (hlarge : 1024 ≤ c) (hb : 2 * c < 2 ^ 31)
    (hlen : (c + 1023) / 1024 < pkts.length) :
    ∃ S, (senderSystem pkts c).Reachable S ∧ S.phase = .fill ∧
      Flat c ((c + 1023) / 1024) 0 0 S.cwndW ∧ S.i = (c + 1023) / 1024 := by
  obtain ⟨S, h, hphase, hS, hi⟩ := exists_first_window hlarge hb hlen
  -- an acknowledgement of all the packets the test counts
  have hack := hS.setAllPrevAck (i := c / 1024 - 1) (by omega)
  rw [Nat.zero_add, show max 0 (c / 1024 - 1 + 1) = c / 1024 by omega] at hack
  have hacked := reachable_acked h hphase (by rw [hS.numPendingAcks]; omega)
    (1024 * (c / 1024 - 1)) (by omega) (by rw [hS.checkIn_iff]; omega)
  have hfull : cwndCheckAdd (cwndSetAllPrevAck S.cwndW (1024 * (c / 1024 - 1))) = false := by
    rw [hack.checkAdd_eq]
    exact decide_eq_false (by omega)
  -- the next pass shifts the window
  have hfill := reachable_fill (reachable_top hacked rfl) rfl (by dsimp only; omega)
  have htest := reachable_shift hfill rfl (.inl hfull)
  have hshift := hack.shiftWnd
  rw [Nat.zero_add] at hshift
  have hguard : shiftGuard (cwndSetAllPrevAck S.cwndW (1024 * (c / 1024 - 1))) = true := by
    rw [hack.shiftGuard_iff]
    omega
  have hshifted : ({ S with
      cwndW := cwndSetAllPrevAck S.cwndW (1024 * (c / 1024 - 1))
      phase := .shift } : Sender).shiftWnd = { S with
      cwndW := cwndShiftWnd (cwndSetAllPrevAck S.cwndW (1024 * (c / 1024 - 1)))
      phase := .shift
      shifted := S.i } := by
    unfold Sender.shiftWnd
    rw [if_pos hguard]
  have hpackets := length_packets_of_reachable hb htest
  obtain ⟨todo, hw, hsome⟩ := hshift.writePackets hpackets
  have hwritten := reachable_written htest rfl (by rw [hshifted]; exact hw) hsome
  rw [hshifted] at hwritten
  exact ⟨_, reachable_fill (reachable_top hwritten rfl) rfl (by dsimp only; omega), rfl, hshift,
    by dsimp only; omega⟩

end Runs

end Tcp118
