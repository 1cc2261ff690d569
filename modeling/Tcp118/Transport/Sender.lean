import Tcp118.Transport.Datagrams
import Tcp118.Protocol.Basic

/-!
# `writeTCP`

The sender as a machine whose steps are the pieces of `writeTCP` between two tests of its loops
or two calls of the socket.

* `Sender`, `senderInit`, `senderStep`, `senderRecv`: the machine;
* `writePackets_eq`: on a window over a numbered list, `writePackets` attempts to send the
  pending packets, each once and in order;
* `SenderInv`: the invariant of the loops;
* `SenderInv.step`: the step lemma, with what the step does (`SenderEffect`);
* `SenderInv.recv`: the invariant under any datagram.
-/

namespace Tcp118

/-- Where `writeTCP` is: at the conditions of its two loops (`top`, `fill`), before the shift test
(`shift`), in the loop of `writePackets` with `todo` still to be sent, before `readAckPacket` and in
its `recvfrom`, before `writeClosePacket`, in the `recvfrom` of `readClosePacketSender` at index
`i`, and after the return, because of a datagram or after ten timeouts. -/
inductive SenderPhase
  | top
  | fill
  | shift
  | write (todo : List (ℤ × Option Packet))
  | readAck
  | recvAck
  | close
  | readClose (i : ℕ)
  | exited (byDatagram : Bool)

/-- The local state of `writeTCP`.  The value of `i` at the last shift, `shifted`, is no variable
of the source. -/
structure Sender where
  phase : SenderPhase
  cwndW : Cwnd
  i : ℕ
  shifted : ℕ

/-- `writeTCP` before its loop. -/
def senderInit (cWnd : ℕ) (heap : ℕ → Packet) : Sender := ⟨.top, cwndInit cWnd heap, 0, 0⟩

/-- The shift test. -/
def Sender.shiftWnd (S : Sender) : Sender :=
  if shiftGuard S.cwndW then { S with cwndW := cwndShiftWnd S.cwndW, shifted := S.i } else S

/-- One step of `writeTCP` outside `recvfrom`, with the datagram it sends. -/
def senderStep (pkts : List Packet) (lost corr : Bool) (S : Sender) :
    Option (Sender × Option Packet) :=
  match S.phase with
  | .top =>
    if cwndNumPendingAcks S.cwndW > 0 ∨ S.i < pkts.length then
      some ({ S with phase := .fill }, none)
    else some ({ S with phase := .close }, none)
  | .fill =>
    match pkts[S.i]? with
    | some pkt =>
      if cwndCheckAdd S.cwndW then
        some ({ S with cwndW := (cwndAddPkt S.cwndW pkt).1, i := S.i + 1 }, none)
      else some ({ S with phase := .shift }, none)
    | none => some ({ S with phase := .shift }, none)
  | .shift =>
    (writePackets S.shiftWnd.cwndW).map fun todo => ({ S.shiftWnd with phase := .write todo }, none)
  | .write [] => some ({ S with phase := .readAck }, none)
  | .write ((_, pkt) :: todo) =>
    pkt.map fun pkt => ({ S with phase := .write todo }, if lost then none else some pkt)
  | .readAck =>
    if cwndNumPendingAcks S.cwndW = 0 then some ({ S with phase := .top }, none)
    else some ({ S with phase := .recvAck }, none)
  | .close => some ({ S with phase := .readClose 0 }, writeClosePacket lost corr)
  | _ => none

/-- The return of `recvfrom`; a datagram without bytes does not end the loop of
`readClosePacketSender` either. -/
def senderRecv (stack : Packet) (recv : Option Datagram) (S : Sender) : Option Sender :=
  match S.phase with
  | .recvAck =>
    let r := readAckPacket stack recv S.cwndW
    some { S with cwndW := r.1, phase := if r.2 then .readAck else .top }
  | .readClose i =>
    match recv with
    | some (b :: d) =>
      some { S with phase := if closeAnswer stack (b :: d) then .exited true else .close }
    | _ => some { S with phase := if i + 1 = 10 then .exited false else .readClose (i + 1) }
  | _ => none

/-- The side of the transfer a phase belongs to. -/
def Sender.side (S : Sender) : Protocol.SenderSide :=
  match S.phase with
  | .close => .closing
  | .readClose _ => .closing
  | .exited b => .left b
  | _ => .transmitting

/-! ### What `writePackets` attempts to send -/

section WritePackets

variable {pkts : List Packet} {n base acked added : ℕ} {w : Cwnd}

/-- The slots and packets of the packets from `y` on and before `x`. -/
def slotsFrom (pkts : List Packet) (n y x : ℕ) : List (ℤ × Option Packet) :=
  (List.range' y (x - y)).map fun z => (((z % (2 * n) : ℕ) : ℤ), pkts[z]?)

theorem slotsFrom_self (pkts : List Packet) (n x : ℕ) : slotsFrom pkts n x x = [] := by
  rw [slotsFrom, Nat.sub_self]
  rfl

theorem slotsFrom_of_lt {y x : ℕ} (h : y < x) :
    slotsFrom pkts n y x = (((y % (2 * n) : ℕ) : ℤ), pkts[y]?) :: slotsFrom pkts n (y + 1) x := by
  rw [slotsFrom, show x - y = x - (y + 1) + 1 by omega, List.range'_succ, List.map_cons, slotsFrom]

/-- The slots of `w` hold the packets of the list with the numbers of the window. -/
def Stored (pkts : List Packet) (n base added : ℕ) (w : Cwnd) : Prop :=
  ∀ x, base ≤ x → x < added → w.packets[x % (2 * n)]? = pkts[x]?

/-- The loop of `writePackets` from a pending packet on: the index is not reduced modulo the
ring, and it need not be, because the window lies in one half of it. -/
theorem writeLoop_eq (h : Indexed n base acked added w) (hst : Stored pkts n base added w)
    (left : ℕ) :
    ∀ z, acked ≤ z → z + left = added →
      writeLoop w left ((z % (2 * n) : ℕ) : ℤ) = slotsFrom pkts n z added := by
  have hn := h.pos
  have h1 := h.base_le
  have h3 := h.added_le
  induction left with
  | zero =>
    intro z _ hz
    rw [writeLoop, show added = z by omega, slotsFrom_self]
  | succ left ih =>
    intro z hz hsum
    have hslot := Indexed.slot_of_lt hn h.aligned (p := z - base) (by omega)
    rw [Nat.add_sub_cancel' (by omega)] at hslot
    have hlt : z % (2 * n) < 2 * n := Nat.mod_lt _ (by omega)
    have hack := h.getAck (x := z) (by omega) (by omega)
    rw [if_neg (by omega), if_pos (by omega), seqOf] at hack
    have hstored := hst z (by omega) (by omega)
    rw [writeLoop, toU32_slot h.shape.bound hlt, hack, if_neg (by norm_num),
      slotsFrom_of_lt (by omega : z < added), packetAt, if_pos (by omega), Int.toNat_natCast,
      hstored]
    rcases Nat.lt_or_ge (z + 1) added with hnext | hlast
    · have hslot' := Indexed.slot_of_lt hn h.aligned (p := z + 1 - base) (by omega)
      rw [Nat.add_sub_cancel' (by omega)] at hslot'
      have hsucc : ((z % (2 * n) : ℕ) : ℤ) + 1 = (((z + 1) % (2 * n) : ℕ) : ℤ) := by
        rw [hslot, hslot']
        omega
      rw [hsucc, ih (z + 1) (by omega) (by omega)]
    · obtain rfl : left = 0 := by omega
      rw [writeLoop, show added = z + 1 by omega, slotsFrom_self]

/-- `writePackets` attempts to send exactly the pending packets, each once and in order. -/
theorem writePackets_eq (h : Indexed n base acked added w) (hst : Stored pkts n base added w) :
    writePackets w = some (slotsFrom pkts n acked added) := by
  have h2 := h.acked_le
  unfold writePackets
  rw [h.lastPendingAckMss, h.numPendingAcks]
  simp only [Option.bind_eq_bind, Option.bind_some, Option.pure_def, Option.some.injEq]
  by_cases hlt : acked < added
  · rw [if_pos hlt]
    exact writeLoop_eq h hst (added - acked) acked le_rfl (by omega)
  · rw [show added - acked = 0 by omega, writeLoop, show added = acked by omega, slotsFrom_self]

theorem Stored.addPkt (hst : Stored pkts n base added w) (h : Indexed n base acked added w)
    (hlt : added < base + n) {pkt : Packet} (hpkt : pkts[added]? = some pkt) :
    Stored pkts n base (added + 1) (cwndAddPkt w pkt).1 := by
  intro x hx hx'
  rw [h.packets_addPkt hlt]
  have h1 := h.base_le
  have h2 := h.acked_le
  rcases Nat.lt_or_ge x added with hold | hnew
  · have hne : added % (2 * n) ≠ x % (2 * n) := by
      rw [Ne, Cyclic.mod_eq_iff_of_near (by omega) (by omega)]
      omega
    rw [if_neg hne]
    exact hst x hx hold
  · obtain rfl : x = added := by omega
    rw [if_pos rfl, hpkt]

end WritePackets

/-! ### The invariant -/

/-- What a phase adds: the loop of `writePackets` has the rest of the pending packets before it,
`readAckPacket` waits only for a pending acknowledgement, and the transmission loop is left only
when everything has been acknowledged. -/
def SenderPhase.Sound (pkts : List Packet) (n acked i : ℕ) : SenderPhase → Prop
  | .write todo => ∃ y, acked ≤ y ∧ y ≤ i ∧ todo = slotsFrom pkts n y i
  | .recvAck => acked < i
  | .close => acked = pkts.length
  | .readClose _ => acked = pkts.length
  | .exited _ => acked = pkts.length
  | _ => True

/-- The invariant of `writeTCP`: its window is over the list, with the packets before `shifted`
shifted out, those before `acked` acknowledged, and those before `i` added. -/
structure SenderInv (pkts : List Packet) (n acked : ℕ) (S : Sender) : Prop where
  window : Indexed n S.shifted acked S.i S.cwndW
  stored : Stored pkts n S.shifted S.i S.cwndW
  i_le : S.i ≤ pkts.length
  sound : S.phase.Sound pkts n acked S.i

/-- What one step of the sender does to the transfer. -/
inductive SenderEffect (pkts : List Packet) (n acked : ℕ) (S S' : Sender) :
    Option Packet → Prop
  | quiet : S'.side = S.side → S'.i = S.i → S'.shifted = S.shifted →
      SenderEffect pkts n acked S S' none
  | add : S.side = .transmitting → S'.side = .transmitting → S.i < pkts.length →
      S.i < S.shifted + n → S'.i = S.i + 1 → S'.shifted = S.shifted →
      SenderEffect pkts n acked S S' none
  | shift : S.side = .transmitting → S'.side = .transmitting → acked = S.shifted + n →
      S'.i = S.i → S'.shifted = S.shifted + n → SenderEffect pkts n acked S S' none
  | send (j : ℕ) (out : Option Packet) : S.side = .transmitting → S'.side = .transmitting →
      acked ≤ j → j < S.i → S'.i = S.i → S'.shifted = S.shifted → out = none ∨ out = pkts[j]? →
      SenderEffect pkts n acked S S' out
  | finish : S.side = .transmitting → S'.side = .closing → acked = pkts.length → S'.i = S.i →
      S'.shifted = S.shifted → SenderEffect pkts n acked S S' none
  | sendClose (out : Option Packet) : S.side = .closing → S'.side = .closing → S'.i = S.i →
      S'.shifted = S.shifted → out = none ∨ out = some closePacket ∨ out = some zeroPacket →
      SenderEffect pkts n acked S S' out

theorem senderInv_init {n : ℕ} (pkts : List Packet) (hn : 0 < n) (hring : 2 * n ∣ 2 ^ 22)
    (hb : 1024 * (2 * n) < 2 ^ 31) (heap : ℕ → Packet) :
    SenderInv pkts n 0 (senderInit (1024 * n) heap) where
  window := indexed_init hn hring hb heap
  stored := fun _ _ hx => absurd hx (Nat.not_lt_zero _)
  i_le := Nat.zero_le _
  sound := trivial

section Steps

variable {pkts : List Packet} {n acked : ℕ} {S S' : Sender} {out : Option Packet}

/-- The invariant does not depend on the phase but for what the phase adds. -/
theorem SenderInv.withPhase (h : SenderInv pkts n acked S) {phase : SenderPhase}
    (hsound : phase.Sound pkts n acked S.i) : SenderInv pkts n acked { S with phase := phase } :=
  ⟨h.window, h.stored, h.i_le, hsound⟩

theorem SenderInv.acked_le (h : SenderInv pkts n acked S) : acked ≤ pkts.length :=
  h.window.acked_le.trans h.i_le

/-- The window tells how much has been acknowledged. -/
theorem SenderInv.acked_unique {acked' : ℕ} (h : SenderInv pkts n acked S)
    (h' : SenderInv pkts n acked' S) : acked = acked' := by
  have hpend := h.window.numPendingAcks
  rw [h'.window.numPendingAcks] at hpend
  have := h.window.acked_le
  have := h'.window.acked_le
  omega

/-- The shift test: the window is shifted when it is full and fully acknowledged. -/
theorem SenderInv.shiftWnd (h : SenderInv pkts n acked S) :
    (acked = S.shifted + n ∧ S.shiftWnd = { S with cwndW := cwndShiftWnd S.cwndW, shifted := S.i } ∧
      S.i = S.shifted + n ∧ Indexed n S.i acked S.i (cwndShiftWnd S.cwndW)) ∨
    (acked ≠ S.shifted + n ∧ S.shiftWnd = S) := by
  have hle := h.window.acked_le
  have hle' := h.window.added_le
  unfold Sender.shiftWnd
  by_cases hg : acked = S.shifted + n
  · have hi : S.i = S.shifted + n := by omega
    have hw := h.window
    rw [hg] at hw
    refine .inl ⟨hg, if_pos (h.window.shiftGuard_iff.2 hg), hi, ?_⟩
    rw [hg, hi]
    exact hw.shiftWnd
  · exact .inr ⟨hg, if_neg fun e => hg (h.window.shiftGuard_iff.1 e)⟩

/-- The step lemma. -/
theorem SenderInv.step {lost corr : Bool} (h : SenderInv pkts n acked S)
    (hstep : senderStep pkts lost corr S = some (S', out)) :
    SenderInv pkts n acked S' ∧ SenderEffect pkts n acked S S' out := by
  obtain ⟨phase, w, i, shifted⟩ := S
  obtain ⟨hw, hst, hi, hsound⟩ := h
  have hpend := hw.numPendingAcks
  have hle := hw.acked_le
  dsimp only at hw hst hi hsound hpend hle
  unfold senderStep at hstep
  cases phase with
  | top =>
    simp only [hpend] at hstep
    split_ifs at hstep with hmore
    · cases hstep
      exact ⟨⟨hw, hst, hi, trivial⟩, .quiet rfl rfl rfl⟩
    · cases hstep
      have hm : acked = pkts.length := by omega
      exact ⟨⟨hw, hst, hi, hm⟩, .finish rfl rfl hm rfl rfl⟩
  | fill =>
    dsimp only at hstep
    cases hpkt : pkts[i]? with
    | none =>
      rw [hpkt] at hstep
      cases hstep
      exact ⟨⟨hw, hst, hi, trivial⟩, .quiet rfl rfl rfl⟩
    | some pkt =>
      have hlen : i < pkts.length := (List.getElem?_eq_some_iff.1 hpkt).1
      simp only [hpkt] at hstep
      split_ifs at hstep with hadd
      · cases hstep
        have hroom := hw.checkAdd_iff.1 hadd
        exact ⟨⟨hw.addPkt hroom pkt, hst.addPkt hw hroom hpkt, hlen, trivial⟩,
          .add rfl rfl hlen hroom rfl rfl⟩
      · cases hstep
        exact ⟨⟨hw, hst, hi, trivial⟩, .quiet rfl rfl rfl⟩
  | shift =>
    dsimp only at hstep
    rcases SenderInv.shiftWnd (S := ⟨.shift, w, i, shifted⟩) ⟨hw, hst, hi, hsound⟩ with
      ⟨hg, he, hfull, hw'⟩ | ⟨hg, he⟩
    · have hst' : Stored pkts n i i (cwndShiftWnd w) := fun x h1 h2 => absurd h2 (by omega)
      simp only [he, writePackets_eq hw' hst', Option.map_some] at hstep
      cases hstep
      exact ⟨⟨hw', hst', hi, acked, le_rfl, hle, rfl⟩, .shift rfl rfl hg rfl hfull⟩
    · simp only [he, writePackets_eq hw hst, Option.map_some] at hstep
      cases hstep
      exact ⟨⟨hw, hst, hi, acked, le_rfl, hle, rfl⟩, .quiet rfl rfl rfl⟩
  | write todo =>
    obtain ⟨y, hy, hyi, rfl⟩ := hsound
    rcases Nat.lt_or_ge y i with hlt | hge
    · have hpkt : pkts[y]? = some pkts[y] := List.getElem?_eq_getElem (by omega)
      rw [slotsFrom_of_lt hlt] at hstep
      simp only [hpkt, Option.map_some] at hstep
      cases hstep
      refine ⟨⟨hw, hst, hi, y + 1, by omega, hlt, rfl⟩, .send y _ rfl rfl hy hlt rfl rfl ?_⟩
      cases lost
      · exact .inr hpkt.symm
      · exact .inl rfl
    · obtain rfl : y = i := by omega
      rw [slotsFrom_self] at hstep
      cases hstep
      exact ⟨⟨hw, hst, hi, trivial⟩, .quiet rfl rfl rfl⟩
  | readAck =>
    simp only [hpend] at hstep
    split_ifs at hstep with hnone
    · cases hstep
      exact ⟨⟨hw, hst, hi, trivial⟩, .quiet rfl rfl rfl⟩
    · cases hstep
      exact ⟨⟨hw, hst, hi, by dsimp only [SenderPhase.Sound]; omega⟩, .quiet rfl rfl rfl⟩
  | recvAck => cases hstep
  | close =>
    cases hstep
    refine ⟨⟨hw, hst, hi, hsound⟩, .sendClose _ rfl rfl rfl rfl ?_⟩
    unfold writeClosePacket
    cases lost <;> cases corr <;> simp
  | readClose k => cases hstep
  | exited b => cases hstep

/-- Whatever arrives, `readAckPacket` at most acknowledges up to some number. -/
theorem readAckPacket_cases (stack : Packet) (recv : Option Datagram) (w : Cwnd) :
    (readAckPacket stack recv w).1 = w ∨
      ∃ seqNum, (readAckPacket stack recv w).1 = cwndSetAllPrevAck w seqNum := by
  unfold readAckPacket
  by_cases hp : cwndNumPendingAcks w = 0
  · exact .inl (by rw [if_pos hp])
  rw [if_neg hp]
  cases recv with
  | none => exact .inl rfl
  | some d =>
    dsimp only
    split_ifs
    · exact .inr ⟨_, rfl⟩
    · exact .inl rfl
    · exact .inl rfl
    · exact .inl rfl

/-- The sender receives in two places. -/
theorem senderRecv_phase {stack : Packet} {recv : Option Datagram}
    (h : senderRecv stack recv S = some S') :
    S.phase = .recvAck ∨ ∃ i, S.phase = .readClose i := by
  unfold senderRecv at h
  split at h
  · exact .inl ‹_›
  · exact .inr ⟨_, ‹_›⟩
  · cases h

/-- The invariant under whatever a receive call returns. -/
theorem SenderInv.recv {stack : Packet} {recv : Option Datagram} (h : SenderInv pkts n acked S)
    (hrecv : senderRecv stack recv S = some S') :
    ∃ acked', acked ≤ acked' ∧ SenderInv pkts n acked' S' := by
  obtain ⟨phase, w, i, shifted⟩ := S
  obtain ⟨hw, hst, hi, hsound⟩ := h
  unfold senderRecv at hrecv
  cases phase with
  | recvAck =>
    dsimp only at hrecv
    rw [Option.some.injEq] at hrecv
    have hphase : S'.phase = .readAck ∨ S'.phase = .top := by
      rw [← hrecv]
      dsimp only
      split_ifs
      · exact .inl rfl
      · exact .inr rfl
    have hsound' : ∀ acked', S'.phase.Sound pkts n acked' S'.i := by
      intro acked'
      rcases hphase with e | e <;> rw [e] <;> trivial
    rcases readAckPacket_cases stack recv w with he | ⟨seqNum, he⟩
    · rw [he] at hrecv
      subst hrecv
      exact ⟨acked, le_rfl, hw, hst, hi, hsound' acked⟩
    · rw [he] at hrecv
      subst hrecv
      obtain ⟨acked', hle, hw'⟩ := hw.exists_setAllPrevAck seqNum
      refine ⟨acked', hle, hw', ?_, hi, hsound' acked'⟩
      intro x hx hx'
      rw [packets_setAllPrevAck]
      exact hst x hx hx'
  | readClose k =>
    dsimp only at hrecv
    split at hrecv
    · cases hrecv
      refine ⟨acked, le_rfl, hw, hst, hi, ?_⟩
      dsimp only
      split_ifs <;> exact hsound
    · cases hrecv
      refine ⟨acked, le_rfl, hw, hst, hi, ?_⟩
      dsimp only
      split_ifs <;> exact hsound
  | top => cases hrecv
  | fill => cases hrecv
  | shift => cases hrecv
  | write todo => cases hrecv
  | readAck => cases hrecv
  | close => cases hrecv
  | exited b => cases hrecv

/-! ### Receiving the datagrams of a transfer -/

/-- A receive call without effect ends the reading of acknowledgements. -/
theorem senderRecv_of_ignored {stack : Packet} {recv : Option Datagram}
    (hphase : S.phase = .recvAck) (h : readAckPacket stack recv S.cwndW = (S.cwndW, false)) :
    senderRecv stack recv S = some { S with phase := .top } := by
  unfold senderRecv
  rw [hphase, h]
  rfl

theorem senderRecv_timeout (stack : Packet) (hphase : S.phase = .recvAck) :
    senderRecv stack none S = some { S with phase := .top } := by
  apply senderRecv_of_ignored hphase
  unfold readAckPacket
  split_ifs <;> rfl

/-- Anything but a valid acknowledgement has no effect. -/
theorem senderRecv_of_not_ack {stack pkt : Packet} (hphase : S.phase = .recvAck)
    (hpkt : getACK pkt = false ∨ verifies pkt = false) :
    senderRecv stack (some (datagram pkt)) S = some { S with phase := .top } := by
  have hcond : ¬ (getACK pkt = true ∧ verifies pkt = true) := by
    rintro ⟨h1, h2⟩
    rw [h1, h2] at hpkt
    rcases hpkt with e | e <;> cases e
  apply senderRecv_of_ignored hphase
  unfold readAckPacket
  simp only [recvBuf_datagram, recvLen_datagram, hcond, if_false, ite_self]

/-- An acknowledgement of the window is acted on. -/
theorem SenderInv.recv_ack {q : ℕ} (h : SenderInv pkts n acked S) (hphase : S.phase = .recvAck)
    (hq : S.shifted ≤ q) (hq' : q < S.i) (stack : Packet) :
    ∃ w, senderRecv stack (some (datagram (ackPacket (seqOf n q)))) S =
        some { S with cwndW := w, phase := .readAck } ∧
      SenderInv pkts n (max acked (q + 1)) { S with cwndW := w, phase := .readAck } := by
  have hn := h.window.pos
  have hsound := h.sound
  rw [hphase] at hsound
  have hpend : cwndNumPendingAcks S.cwndW ≠ 0 := by
    rw [h.window.numPendingAcks]
    exact Nat.sub_ne_zero_of_lt hsound
  have hlt := seqOf_lt hn h.window.shape.bound q
  have hroom := h.window.added_le
  have hin := (h.window.checkIn_iff (q := q) (by omega) (by omega)).2 ⟨hq, hq'⟩
  refine ⟨cwndSetAllPrevAck S.cwndW (seqOf n q), ?_, h.window.setAllPrevAck hq hq', ?_, h.i_le,
    trivial⟩
  · unfold senderRecv readAckPacket
    simp only [hphase, recvBuf_datagram, recvLen_datagram, getACK_ackPacket, verifies_ackPacket,
      getACKNum_ackPacket (show seqOf n q < 2 ^ 32 by omega), hpend, hin, and_self, if_true,
      if_false]
  · intro x hx hx'
    rw [packets_setAllPrevAck]
    exact h.stored x hx hx'

/-- An acknowledgement of the packet before the window is not. -/
theorem SenderInv.recv_ack_old {q : ℕ} (h : SenderInv pkts n acked S)
    (hphase : S.phase = .recvAck) (hq : S.shifted ≤ q + 1) (hq' : q < S.shifted + n)
    (hout : ¬ (S.shifted ≤ q ∧ q < S.i)) (stack : Packet) :
    senderRecv stack (some (datagram (ackPacket (seqOf n q)))) S =
      some { S with phase := .top } := by
  have hlt := seqOf_lt h.window.pos h.window.shape.bound q
  have hin : cwndCheckIn S.cwndW (seqOf n q) ≠ true := by
    rw [Ne, h.window.checkIn_iff hq hq']
    exact hout
  apply senderRecv_of_ignored hphase
  unfold readAckPacket
  simp only [recvBuf_datagram, recvLen_datagram, getACK_ackPacket, verifies_ackPacket,
    getACKNum_ackPacket (show seqOf n q < 2 ^ 32 by omega), hin, and_self, if_true, if_false,
    Bool.false_eq_true, ite_self]

/-- In the closing loop a timeout counts, and a datagram decides. -/
theorem senderRecv_readClose {k : ℕ} (hphase : S.phase = .readClose k) (stack pkt : Packet) :
    senderRecv stack (some (datagram pkt)) S =
      some { S with phase := if getClose pkt = false ∧ verifies pkt = true then .exited true
        else .close } := by
  obtain ⟨b, d, hd⟩ := datagram_eq_cons pkt
  unfold senderRecv
  rw [hphase, hd]
  dsimp only
  rw [← hd, closeAnswer, recvBuf_datagram, recvLen_datagram, if_pos rfl]
  cases getClose pkt <;> cases verifies pkt <;> rfl

theorem senderRecv_readClose_timeout {k : ℕ} (hphase : S.phase = .readClose k) (stack : Packet) :
    senderRecv stack none S =
      some { S with phase := if k + 1 = 10 then .exited false else .readClose (k + 1) } := by
  unfold senderRecv
  rw [hphase]

end Steps

end Tcp118
