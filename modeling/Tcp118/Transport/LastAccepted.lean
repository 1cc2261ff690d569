import Tcp118.Transport.Endpoints

/-!
# The packet accepted last

`writeAckPacket` computes the number it acknowledges from the window.  It should be that of the
packet the window has accepted last.

* `Expected`, `accepted`, `Tracked`, `trackedSystem`: the runs of `readTCP` with the packet
  accepted last, which is no variable of the source;
* `reachable_tracked_iff`: every run of `readTCP` is tracked;
* `TrackedInv`, `TrackedInv.of_reachable`: the invariant, for every window that is a multiple of
  `PACKET_SIZE`;
* `NamesLast`, `TrackedInv.namesLast_iff`: when an acknowledgement has the number of that packet;
* `exists_wrapped`: every window has a run to the one state where it can be wrong;
* `acksLast_iff`: the exact condition.
-/

namespace Tcp118

/-- The packet `readPacket` waits for. -/
def Expected (cwndR : Cwnd) (pkt : Packet) : Prop :=
  getClose pkt = false ∧ verifies pkt = true ∧ expSeq cwndR = some (getSeqNum pkt) ∧
    getACK pkt = false

instance (cwndR : Cwnd) (pkt : Packet) : Decidable (Expected cwndR pkt) :=
  inferInstanceAs (Decidable (_ ∧ _))

/-- The packet `readPacket` adds to the window. -/
def accepted (stack : Packet) (recv : Option Datagram) (cwndR : Cwnd) : Option Packet :=
  match recv with
  | none => none
  | some d =>
    if Expected cwndR (recvBuf stack d) ∧ cwndCheckAdd cwndR = true then some (recvBuf stack d)
    else none

theorem accepted_eq_some {stack : Packet} {recv : Option Datagram} {w : Cwnd} {pkt : Packet}
    (h : accepted stack recv w = some pkt) : Expected w pkt ∧ cwndCheckAdd w = true := by
  unfold accepted at h
  split at h
  · cases h
  · rw [Option.ite_none_right_eq_some, Option.some.injEq] at h
    rw [← h.2]
    exact h.1

/-- A receiver and the packet its window has accepted last. -/
structure Tracked where
  receiver : Receiver
  last : Option Packet

/-- The packet accepted last after an event. -/
def lastAfter : ReceiverEvent → Tracked → Option Packet
  | .step .., T => T.last
  | .recv stack recv, T =>
    if T.receiver.phase = .read then (accepted stack recv T.receiver.cwndR).or T.last else T.last

theorem lastAfter_read {T : Tracked} (h : T.receiver.phase = .read) {stack : Packet}
    {recv : Option Datagram} :
    lastAfter (.recv stack recv) T = (accepted stack recv T.receiver.cwndR).or T.last := if_pos h

theorem lastAfter_of_ne {T : Tracked} (h : T.receiver.phase ≠ .read) {stack : Packet}
    {recv : Option Datagram} : lastAfter (.recv stack recv) T = T.last := if_neg h

/-- What an event does. -/
def trackedNext (event : ReceiverEvent) (T : Tracked) : Option Tracked :=
  (receiverNext event T.receiver).map fun R => ⟨R, lastAfter event T⟩

/-- The runs of `readTCP`, with the packet accepted last. -/
def trackedSystem (cWnd : ℕ) : StepSystem Tracked :=
  .ofEvents (fun T => ∃ heap, T = ⟨receiverInit cWnd heap, none⟩) trackedNext fun _ _ => True

/-- The window `readPacket` leaves has the accepted packet added. -/
theorem readPacket_accepted {stack : Packet} {recv : Option Datagram} {w w' : Cwnd} {r : ℤ}
    (h : readPacket stack recv w = some (w', r)) :
    w' = match accepted stack recv w with
      | some pkt => (cwndAddPkt w pkt).1
      | none => w := by
  unfold readPacket at h
  unfold accepted Expected
  cases recv with
  | none =>
    cases h
    rfl
  | some d =>
    dsimp only at h ⊢
    generalize recvBuf stack d = buf at h ⊢
    by_cases hclose : getClose buf = true
    · rw [if_pos hclose, Option.some.injEq, Prod.mk.injEq] at h
      rw [← h.1, if_neg (by simp [hclose])]
    · rw [if_neg hclose] at h
      obtain ⟨seq, hseq, h⟩ := Option.bind_eq_some_iff.1 h
      split_ifs at h with hexp
      · rw [Option.pure_def, Option.some.injEq, Prod.mk.injEq] at h
        obtain ⟨hver, rfl, hack⟩ := hexp
        rw [← h.1]
        cases hadd : cwndCheckAdd w with
        | true => simp [hver, hseq, hack, hclose]
        | false => simp [Shape.addPkt_of_full hadd]
      · rw [Option.pure_def, Option.some.injEq, Prod.mk.injEq] at h
        rw [← h.1, if_neg]
        rintro ⟨⟨-, hver, heq, hack⟩, -⟩
        rw [hseq, Option.some.injEq] at heq
        exact hexp ⟨hver, heq.symm, hack⟩

/-- Tracking the accepted packets neither adds nor removes a run. -/
theorem reachable_tracked_iff {cWnd : ℕ} {R : Receiver} :
    (receiverSystem cWnd).Reachable R ↔ ∃ last, (trackedSystem cWnd).Reachable ⟨R, last⟩ := by
  constructor
  · intro h
    refine h.invariant (I := fun R => ∃ last, (trackedSystem cWnd).Reachable ⟨R, last⟩) ?_ ?_
    · rintro _ ⟨heap, rfl⟩
      exact ⟨none, .of_init ⟨heap, rfl⟩⟩
    · rintro R₁ R₂ - ⟨last, hreach⟩ ⟨event, -, hnext⟩
      refine ⟨lastAfter event ⟨R₁, last⟩, hreach.tail ⟨event, trivial, ?_⟩⟩
      unfold trackedNext
      rw [hnext, Option.map_some]
  · rintro ⟨last, h⟩
    refine h.invariant (I := fun T => (receiverSystem cWnd).Reachable T.receiver) ?_ ?_
    · rintro _ ⟨heap, rfl⟩
      exact .of_init ⟨heap, rfl⟩
    · rintro T₁ T₂ - hreach ⟨event, -, hnext⟩
      obtain ⟨R, hR, rfl⟩ := Option.map_eq_some_iff.1 hnext
      exact hreach.tail ⟨event, trivial, hR⟩

/-! ### The invariant -/

/-- What a phase adds: the loop comes back with nothing pending, and to `readPacket` with a window
that need not be shifted; behind it one packet may be pending. -/
def ReceiverPhase.Settled (k j : ℕ) (w : Cwnd) : ReceiverPhase → Prop
  | .read => j = k ∧ shiftGuard w = false
  | .deliver => j = k ∨ j + 1 = k
  | _ => j = k

/-- The invariant of the tracked receiver: the packet accepted last is that of the slot before
`next_seq`. -/
structure TrackedInv (n β k j : ℕ) (T : Tracked) : Prop where
  window : Shape n β k j T.receiver.cwndR
  half : IsHalf n β
  room : k ≤ room n β
  started : T.receiver.cwndR.start = T.last.isSome
  some_of_pos : 0 < k → T.last.isSome = true
  last : ∀ acc, T.last = some acc →
    ∃ s < 2 * n, getSeqNum acc = 1024 * s ∧ (s + 1) % (2 * n) = (β + k) % (2 * n)
  settled : T.receiver.phase.Settled k j T.receiver.cwndR

theorem trackedInv_init {n : ℕ} (hn : 0 < n) (hb : 1024 * (2 * n) < 2 ^ 31) (heap : ℕ → Packet) :
    TrackedInv n 0 0 0 ⟨receiverInit (1024 * n) heap, none⟩ where
  window := shape_init hn hb heap
  half := .inl rfl
  room := Nat.zero_le _
  started := rfl
  some_of_pos := fun h => absurd h (lt_irrefl 0)
  last := fun _ h => nomatch h
  settled := rfl

/-- What the end of a pass does to the window, and where it leads. -/
theorem deliver_spec {lost corr : Bool} {behind heap : List UInt8} {R R' : Receiver}
    {out : Option Packet} (h : deliver lost corr behind heap R = some (R', out)) :
    (∃ ret, writeAckPacket lost corr R.cwndR = some (R'.cwndR, out, ret)) ∧
      (R'.phase = .top ∨ R'.phase = .close) := by
  unfold deliver at h
  obtain ⟨pkt, -, h⟩ := Option.bind_eq_some_iff.1 h
  obtain ⟨⟨w, out', ret⟩, hw, h⟩ := Option.bind_eq_some_iff.1 h
  cases h
  refine ⟨⟨ret, hw⟩, ?_⟩
  dsimp only
  split_ifs
  · exact .inl rfl
  · exact .inr rfl

section Invariant

variable {n β k j : ℕ} {R R' : Receiver} {last : Option Packet}

/-- The invariant at another place of the source. -/
theorem TrackedInv.withPhase (h : TrackedInv n β k j ⟨R, last⟩) {phase : ReceiverPhase}
    (hsettled : phase.Settled k j R.cwndR) :
    TrackedInv n β k j ⟨{ R with phase := phase }, last⟩ :=
  ⟨h.window, h.half, h.room, h.started, h.some_of_pos, h.last, hsettled⟩

/-- The shift at the start of the loop. -/
theorem TrackedInv.top (h : TrackedInv n β k k ⟨R, last⟩) (phase : ReceiverPhase)
    (hphase : phase = .read ∨ phase = .deliver) :
    ∃ β' k', TrackedInv n β' k' k' ⟨{ R with
      cwndR := if shiftGuard R.cwndR then cwndShiftWnd R.cwndR else R.cwndR
      phase := phase }, last⟩ := by
  have hn := h.window.pos
  by_cases hg : shiftGuard R.cwndR = true
  · rw [if_pos hg]
    obtain rfl : k = n := (h.window.shiftGuard_iff.1 hg).1
    have hshift := h.window.shiftWnd
    refine ⟨(β + k) % (2 * k), 0, hshift, isHalf_shift hn h.half, Nat.zero_le _, h.started,
      fun h0 => absurd h0 (lt_irrefl 0), fun acc hacc => ?_, ?_⟩
    · rw [Nat.add_zero, Nat.mod_mod]
      exact h.last acc hacc
    · rcases hphase with rfl | rfl
      · refine ⟨rfl, ?_⟩
        rw [← Bool.not_eq_true, hshift.shiftGuard_iff]
        omega
      · exact .inl rfl
  · rw [if_neg hg]
    refine ⟨β, k, h.window, h.half, h.room, h.started, h.some_of_pos, h.last, ?_⟩
    rcases hphase with rfl | rfl
    · exact ⟨rfl, by simpa using hg⟩
    · exact .inl rfl

/-- The end of a pass leaves nothing pending. -/
theorem TrackedInv.deliver (h : TrackedInv n β k j ⟨R, last⟩) (hphase : R.phase = .deliver)
    {lost corr : Bool} {behind heap : List UInt8} {out : Option Packet}
    (hstep : deliver lost corr behind heap R = some (R', out)) :
    TrackedInv n β k k ⟨R', last⟩ := by
  obtain ⟨⟨ret, hw⟩, hphase'⟩ := deliver_spec hstep
  obtain ⟨hwin, hstart⟩ : Shape n β k k R'.cwndR ∧ R'.cwndR.start = R.cwndR.start := by
    have hsettled := h.settled
    dsimp only at hsettled
    rw [hphase] at hsettled
    rcases hsettled with rfl | rfl
    · -- nothing was pending
      have hsame : R'.cwndR = R.cwndR := by
        cases hs : R.cwndR.start with
        | true =>
          rw [h.window.writeAckPacket_of_none hs, Option.some.injEq, Prod.mk.injEq] at hw
          exact hw.1.symm
        | false =>
          rw [h.window.writeAckPacket_of_not_started hs, Option.some.injEq, Prod.mk.injEq] at hw
          exact hw.1.symm
      rw [hsame]
      exact ⟨h.window, rfl⟩
    · -- the pending packet is acknowledged
      have hs : R.cwndR.start = true := h.started.trans (h.some_of_pos (Nat.succ_pos j))
      rw [h.window.writeAckPacket_of_pending (Nat.lt_succ_self j) hs] at hw
      have hmark := h.window.setAllPrevAck_slot (Nat.lt_succ_self j)
      rw [Nat.max_eq_right (Nat.le_succ j)] at hmark
      rw [Option.some.injEq, Prod.mk.injEq] at hw
      rw [← hw.1]
      exact ⟨hmark, start_setAllPrevAck _ _⟩
  refine ⟨hwin, h.half, h.room, hstart.trans h.started, h.some_of_pos, h.last, ?_⟩
  rcases hphase' with e | e <;> rw [e] <;> rfl

/-- A receive call adds the packet it accepts. -/
theorem TrackedInv.recv (h : TrackedInv n β k j ⟨R, last⟩) (hphase : R.phase = .read)
    {stack : Packet} {recv : Option Datagram} (hrecv : receiverRecv stack recv R = some R') :
    ∃ k', TrackedInv n β k' j ⟨R', (accepted stack recv R.cwndR).or last⟩ := by
  have hsettled := h.settled
  dsimp only at hsettled
  rw [hphase] at hsettled
  obtain ⟨rfl, -⟩ := hsettled
  unfold receiverRecv at hrecv
  rw [hphase] at hrecv
  obtain ⟨⟨w', r⟩, hread, rfl⟩ := Option.map_eq_some_iff.1 hrecv
  have hw' := readPacket_accepted hread
  cases hacc : accepted stack recv R.cwndR with
  | none =>
    rw [hacc] at hw'
    dsimp only at hw' ⊢
    rw [hw']
    exact ⟨j, h.withPhase (.inl rfl)⟩
  | some pkt =>
    rw [hacc] at hw'
    obtain ⟨⟨-, -, hseq, -⟩, hadd⟩ := accepted_eq_some hacc
    have hlt := (h.window.checkAdd_iff_room h.half h.room).1 hadd
    have hroom := room_lt h.window.pos β
    rw [h.window.expSeq_eq, Option.some.injEq, h.window.nextSeq] at hseq
    refine ⟨j + 1, ?_, h.half, hlt, ?_, fun _ => rfl, ?_, .inr rfl⟩
    · rw [hw']
      exact h.window.addPkt hadd (by omega) pkt
    · rw [hw']
      exact Shape.start_addPkt hadd pkt
    · rintro acc hacc'
      cases hacc'
      exact ⟨(β + j) % (2 * n), h.window.slot_lt j, hseq.symm, Nat.mod_add_mod _ _ _⟩

/-- The step lemma. -/
theorem TrackedInv.next {T T' : Tracked} (h : TrackedInv n β k j T) {event : ReceiverEvent}
    (hnext : trackedNext event T = some T') : ∃ β' k' j', TrackedInv n β' k' j' T' := by
  obtain ⟨R, last⟩ := T
  obtain ⟨R', hR, rfl⟩ := Option.map_eq_some_iff.1 hnext
  have hsettled := h.settled
  dsimp only at hR hsettled
  cases event with
  | step lost corr behind heap =>
    obtain ⟨⟨R'', out⟩, hstep, rfl⟩ := Option.map_eq_some_iff.1 hR
    unfold receiverStep at hstep
    cases hphase : R.phase with
    | top =>
      rw [hphase] at hstep hsettled
      obtain rfl : j = k := hsettled
      cases hstep
      obtain ⟨β', k', h'⟩ := h.top (if getLast R.pkt = false then .read else .deliver)
        (by split_ifs <;> simp)
      exact ⟨β', k', k', h'⟩
    | deliver =>
      rw [hphase] at hstep
      exact ⟨β, k, k, h.deliver hphase hstep⟩
    | close =>
      rw [hphase] at hstep hsettled
      cases hstep
      exact ⟨β, k, j, h.withPhase hsettled⟩
    | read => rw [hphase] at hstep; cases hstep
    | readClose => rw [hphase] at hstep; cases hstep
    | exited => rw [hphase] at hstep; cases hstep
  | recv stack recv =>
    rcases receiverRecv_phase hR with hphase | hphase
    · obtain ⟨k', h'⟩ := h.recv hphase hR
      rw [lastAfter_read hphase]
      exact ⟨β, k', j, h'⟩
    · rw [hphase] at hsettled
      rw [lastAfter_of_ne (by rw [hphase]; decide)]
      change receiverRecv stack recv R = some R' at hR
      unfold receiverRecv at hR
      rw [hphase] at hR
      cases hR
      refine ⟨β, k, j, h.withPhase ?_⟩
      split_ifs <;> exact hsettled

/-- The invariant along every run. -/
theorem TrackedInv.of_reachable (hn : 0 < n) (hb : 1024 * (2 * n) < 2 ^ 31) {T : Tracked}
    (h : (trackedSystem (1024 * n)).Reachable T) : ∃ β k j, TrackedInv n β k j T := by
  refine h.invariant (I := fun T => ∃ β k j, TrackedInv n β k j T) ?_ ?_
  · rintro _ ⟨heap, rfl⟩
    exact ⟨0, 0, 0, trackedInv_init hn hb heap⟩
  · rintro T₁ T₂ - ⟨β, k, j, hinv⟩ ⟨event, -, hnext⟩
    exact hinv.next hnext

end Invariant

/-! ### The number of an acknowledgement -/

/-- An acknowledgement is sent only after a packet has been accepted, and it has the number of the
packet accepted last unless it has been zeroed. -/
def NamesLast (last : Option Packet) (cwndR : Cwnd) : Prop :=
  ∀ lost corr cwndR' pkt ret, writeAckPacket lost corr cwndR = some (cwndR', some pkt, ret) →
    ∃ acc, last = some acc ∧ (pkt ≠ zeroPacket → getACKNum pkt = getSeqNum acc)

/-- Every acknowledgement of every run has the number of the packet accepted last. -/
def AcksLast (cWnd : ℕ) : Prop :=
  ∀ T, (trackedSystem cWnd).Reachable T → T.receiver.phase = .deliver →
    NamesLast T.last T.receiver.cwndR

theorem ackPacket_ne_zeroPacket (seq : ℕ) : ackPacket seq ≠ zeroPacket := by
  intro h
  have hver := verifies_ackPacket seq
  rw [h, verifies_zeroPacket] at hver
  cases hver

section Numbers

variable {n β k j : ℕ} {T : Tracked}

/-- With a packet pending the acknowledgement is right. -/
theorem TrackedInv.namesLast_of_pending (h : TrackedInv n β (j + 1) j T) :
    NamesLast T.last T.receiver.cwndR := by
  have hsome := h.some_of_pos (Nat.succ_pos j)
  obtain ⟨acc, hacc⟩ := Option.isSome_iff_exists.1 hsome
  obtain ⟨s, hs, hseq, hslot⟩ := h.last acc hacc
  have hb := h.window.bound
  -- the pending packet is the one accepted last
  have hpos : (β + j) % (2 * n) = s := by
    have hβj := h.window.slot_lt j
    rw [← Nat.add_assoc, ← Nat.mod_add_mod (β + j)] at hslot
    exact ((Nat.ModEq.add_right_cancel' 1 hslot).eq_of_lt_of_lt hs hβj).symm
  intro lost corr w' pkt ret hw
  rw [h.window.writeAckPacket_of_pending (Nat.lt_succ_self j) (h.started.trans hsome), hpos,
    Option.some.injEq, Prod.mk.injEq, Prod.mk.injEq] at hw
  obtain ⟨-, hout, -⟩ := hw
  refine ⟨acc, hacc, fun hne => ?_⟩
  rw [Option.ite_none_left_eq_some, Option.some.injEq] at hout
  cases corr with
  | true => exact absurd hout.2.symm hne
  | false =>
    rw [hseq, ← hout.2]
    exact getACKNum_ackPacket (by omega)

/-- The number before `next_seq` is that of the packet accepted last, unless `next_seq` has wrapped
to `0` and the ring does not divide `2 ^ 22`. -/
theorem TrackedInv.prevSeq_eq_iff (h : TrackedInv n β k j T) {acc : Packet}
    (hacc : T.last = some acc) :
    u32Sub T.receiver.cwndR.nextSeq packetSize % (1024 * (2 * n)) = getSeqNum acc ↔
      T.receiver.cwndR.nextSeq ≠ 0 ∨ 2 * n ∣ 2 ^ 22 := by
  obtain ⟨s, hs, hseq, hslot⟩ := h.last acc hacc
  have hnext := h.window.nextSeq
  rw [← hslot] at hnext
  have hzero : T.receiver.cwndR.nextSeq ≠ 0 ↔ (s + 1) % (2 * n) ≠ 0 := by
    rw [hnext]
    omega
  rw [hzero, hnext, hseq]
  exact Tcp118.prevSeq_eq_iff h.window.bound hs

/-- With nothing pending it is right under the same condition. -/
theorem TrackedInv.namesLast_of_none (h : TrackedInv n β k k T)
    (hstart : T.receiver.cwndR.start = true) :
    NamesLast T.last T.receiver.cwndR ↔ T.receiver.cwndR.nextSeq ≠ 0 ∨ 2 * n ∣ 2 ^ 22 := by
  have hb := h.window.bound
  obtain ⟨acc, hacc⟩ := Option.isSome_iff_exists.1 (h.started.symm.trans hstart)
  have hlt : u32Sub T.receiver.cwndR.nextSeq packetSize % (1024 * (2 * n)) < 1024 * (2 * n) :=
    Nat.mod_lt _ (by have := h.window.pos; omega)
  rw [← h.prevSeq_eq_iff hacc]
  constructor
  · intro hnames
    obtain ⟨acc', hacc', hnum⟩ :=
      hnames false false _ _ _ (h.window.writeAckPacket_of_none hstart false false)
    rw [hacc, Option.some.injEq] at hacc'
    rw [hacc', ← hnum (ackPacket_ne_zeroPacket _)]
    exact (getACKNum_ackPacket (by omega)).symm
  · intro heq lost corr w' pkt ret hw
    rw [h.window.writeAckPacket_of_none hstart, Option.some.injEq, Prod.mk.injEq,
      Prod.mk.injEq, Option.some.injEq] at hw
    refine ⟨acc, hacc, fun _ => ?_⟩
    rw [← hw.2.1, ← heq]
    exact getACKNum_ackPacket (by omega)

/-- Before the first packet nothing is sent. -/
theorem TrackedInv.namesLast_of_not_started (h : TrackedInv n β k j T)
    (hstart : T.receiver.cwndR.start = false) : NamesLast T.last T.receiver.cwndR := by
  intro lost corr w' pkt ret hw
  rw [h.window.writeAckPacket_of_not_started hstart] at hw
  cases hw

theorem pow_mod_eq_zero_iff : 2 ^ 32 % (2 * (1024 * n)) = 0 ↔ 2 * n ∣ 2 ^ 22 := by
  rw [← Nat.dvd_iff_mod_eq_zero, show (2 : ℕ) ^ 32 = 1024 * 2 ^ 22 by norm_num,
    Nat.mul_left_comm 2 1024 n]
  exact Nat.mul_dvd_mul_iff_left (by norm_num)

/-- Behind `readPacket`, when the next acknowledgement is right. -/
theorem TrackedInv.namesLast_iff (h : TrackedInv n β k j T)
    (hphase : T.receiver.phase = .deliver) :
    NamesLast T.last T.receiver.cwndR ↔
      cwndNumPendingAcks T.receiver.cwndR ≠ 0 ∨ T.receiver.cwndR.start = false ∨
        T.receiver.cwndR.nextSeq ≠ 0 ∨ 2 ^ 32 % (2 * (1024 * n)) = 0 := by
  have hsettled := h.settled
  rw [hphase] at hsettled
  rw [h.window.numPendingAcks, pow_mod_eq_zero_iff]
  rcases hsettled with rfl | rfl
  · cases hstart : T.receiver.cwndR.start with
    | true =>
      rw [h.namesLast_of_none hstart]
      simp
    | false => exact iff_of_true (h.namesLast_of_not_started hstart) (.inr (.inl rfl))
  · exact iff_of_true h.namesLast_of_pending (.inl (by omega))

end Numbers

/-! ### A run to the end of the ring -/

section Wrapping

variable {cWnd n β k : ℕ} {R : Receiver}

/-- A data packet without bytes. -/
def emptyPacket (seqNum : ℕ) : Packet := generatePacket seqNum seqNum false false false [] 0

theorem verifies_emptyPacket (seqNum : ℕ) : verifies (emptyPacket seqNum) = true := by
  rw [verifies, emptyPacket, checksum_generatePacket]
  rfl

/-- A receiver in `readPacket` whose window has room can take a packet and come back to the start
of the loop. -/
theorem exists_taken (h : (receiverSystem cWnd).Reachable R) (hphase : R.phase = .read)
    (hs : Shape n β k k R.cwndR) (hadd : cwndCheckAdd R.cwndR = true) (hk : k + 1 < 2 * n) :
    ∃ R', (receiverSystem cWnd).Reachable R' ∧ R'.phase = .top ∧ getLast R'.pkt = false ∧
      Shape n β (k + 1) (k + 1) R'.cwndR ∧ R'.cwndR.start = true := by
  have hnext : R.cwndR.nextSeq < 2 ^ 32 := by
    have hb := hs.bound
    have hslot := hs.slot_lt k
    rw [hs.nextSeq]
    omega
  -- `recvfrom` returns a packet with the expected number
  obtain ⟨r, hread⟩ := hs.readPacket_some
    (recvBuf_datagram zeroPacket (emptyPacket R.cwndR.nextSeq))
  rw [if_pos ⟨getClose_generatePacket .., verifies_emptyPacket _,
    getSeqNum_generatePacket _ _ _ _ _ _ _ hnext, getACK_generatePacket ..⟩] at hread
  have hrecv : receiverRecv zeroPacket (some (datagram (emptyPacket R.cwndR.nextSeq))) R =
      some { R with
        cwndR := (cwndAddPkt R.cwndR (emptyPacket R.cwndR.nextSeq)).1
        phase := .deliver } := by
    unfold receiverRecv
    rw [hphase]
    dsimp only
    rw [hread, Option.map_some]
  have hreach := h.tail ⟨.recv zeroPacket (some (datagram (emptyPacket R.cwndR.nextSeq))),
    trivial, hrecv⟩
  -- it is acknowledged
  have hs' := hs.addPkt hadd hk (emptyPacket R.cwndR.nextSeq)
  have hstart := Shape.start_addPkt hadd (emptyPacket R.cwndR.nextSeq)
  have hdone := hs'.setAllPrevAck_slot (Nat.lt_succ_self k)
  rw [Nat.max_eq_right (Nat.le_succ k)] at hdone
  have hslot : (cwndAddPkt R.cwndR (emptyPacket R.cwndR.nextSeq)).1.packets[(β + k) % (2 * n)]? =
      some (emptyPacket R.cwndR.nextSeq) := by
    rw [hs.packets_addPkt hadd, if_pos rfl]
  have hdeliver := Shape.deliver_of_pending (R := { R with
    cwndR := (cwndAddPkt R.cwndR (emptyPacket R.cwndR.nextSeq)).1
    phase := .deliver }) hs' hstart hslot false false [] []
  have hlast : getLast (some (emptyPacket R.cwndR.nextSeq)) = false := getLast_generatePacket ..
  rw [if_pos hlast] at hdeliver
  exact ⟨_, reachable_step hreach hdeliver, rfl, hlast, hdone,
    (start_setAllPrevAck _ _).trans hstart⟩

/-- The start of the loop. -/
theorem reachable_read (h : (receiverSystem cWnd).Reachable R) (hphase : R.phase = .top)
    (hlast : getLast R.pkt = false) :
    (receiverSystem cWnd).Reachable { R with
      cwndR := if shiftGuard R.cwndR then cwndShiftWnd R.cwndR else R.cwndR
      phase := .read } := by
  have hstep : receiverStep false false [] [] R = some ({ R with
      cwndR := if shiftGuard R.cwndR then cwndShiftWnd R.cwndR else R.cwndR
      phase := .read }, none) := by
    unfold receiverStep
    simp only [hphase, hlast, if_true]
  exact reachable_step h hstep

/-- `readPacket` is reached with the window ending at any slot of the ring. -/
theorem exists_read_at (hn : 0 < n) (hb : 1024 * (2 * n) < 2 ^ 31) (m : ℕ) (hm : m < 2 * n) :
    ∃ R β k, (receiverSystem (1024 * n)).Reachable R ∧ R.phase = .read ∧ Shape n β k k R.cwndR ∧
      IsHalf n β ∧ k < n ∧ β + k = m := by
  induction m with
  | zero =>
    have hs : Shape n 0 0 0 (receiverInit (1024 * n) fun _ => zeroPacket).cwndR :=
      shape_init hn hb _
    have hinit : (receiverSystem (1024 * n)).Reachable
        (receiverInit (1024 * n) fun _ => zeroPacket) := .of_init ⟨_, rfl⟩
    have hread := reachable_read hinit rfl rfl
    have hg : ¬ shiftGuard (receiverInit (1024 * n) fun _ => zeroPacket).cwndR = true := by
      rw [hs.shiftGuard_iff]
      omega
    refine ⟨_, 0, 0, hread, rfl, ?_, .inl rfl, hn, rfl⟩
    dsimp only
    rw [if_neg hg]
    exact hs
  | succ m ih =>
    obtain ⟨R, β, k, hreach, hphase, hs, hβ, hk, rfl⟩ := ih (by omega)
    obtain ⟨R', hreach', htop, hlast, hs', -⟩ :=
      exists_taken hreach hphase hs (hs.checkAdd_of_lt hβ hk) (by omega)
    refine ⟨_, if k + 1 = n then n else β, if k + 1 = n then 0 else k + 1,
      reachable_read hreach' htop hlast, rfl, ?_, ?_, ?_, ?_⟩
    · dsimp only
      by_cases hfull : k + 1 = n
      · -- the lower half is full
        obtain rfl : β = 0 := by rcases hβ with e | e <;> omega
        have hg : shiftGuard R'.cwndR = true := by
          rw [hs'.shiftGuard_iff, hs'.checkAdd_eq, hfull, dist_full_lower hn]
          simp
        have hshift := hs'.shiftWnd
        rw [hfull, Nat.zero_add, Nat.mod_eq_of_lt (by omega)] at hshift
        rw [if_pos hg, if_pos hfull, if_pos hfull]
        exact hshift
      · have hg : ¬ shiftGuard R'.cwndR = true := by
          rw [hs'.shiftGuard_iff]
          omega
        rw [if_neg hg, if_neg hfull, if_neg hfull]
        exact hs'
    · split_ifs
      · exact .inr rfl
      · exact hβ
    · split_ifs <;> omega
    · rcases hβ with rfl | rfl <;> split_ifs <;> omega

/-- Every window has a run in which `readPacket` times out after the last slot of the ring. -/
theorem exists_wrapped (hn : 0 < n) (hb : 1024 * (2 * n) < 2 ^ 31) :
    ∃ R, (receiverSystem (1024 * n)).Reachable R ∧ R.phase = .deliver ∧
      cwndNumPendingAcks R.cwndR = 0 ∧ R.cwndR.start = true ∧ R.cwndR.nextSeq = 0 := by
  obtain ⟨R, β, k, hreach, hphase, hs, hβ, hk, hm⟩ :=
    exists_read_at hn hb (2 * n - 1) (by omega)
  obtain ⟨R', hreach', htop, hlast, hs', hstart⟩ :=
    exists_taken hreach hphase hs (hs.checkAdd_of_lt hβ hk) (by omega)
  have hzero : R'.cwndR.nextSeq = 0 := by
    rw [hs'.nextSeq, show β + (k + 1) = 2 * n by omega, Nat.mod_self]
  have htimeout : (receiverSystem (1024 * n)).Reachable { R' with
      cwndR := if shiftGuard R'.cwndR then cwndShiftWnd R'.cwndR else R'.cwndR
      phase := .deliver } :=
    (reachable_read hreach' htop hlast).tail ⟨.recv zeroPacket none, trivial, rfl⟩
  refine ⟨_, htimeout, rfl, ?_, ?_, ?_⟩
  · dsimp only
    split_ifs
    · exact hs'.shiftWnd.numPendingAcks
    · rw [hs'.numPendingAcks, Nat.sub_self]
  · dsimp only
    split_ifs <;> exact hstart
  · dsimp only
    split_ifs <;> exact hzero

/-- Where the ring does not divide `2 ^ 22`, an acknowledgement of that run is wrong. -/
theorem not_acksLast_of_not_dvd (hn : 0 < n) (hb : 1024 * (2 * n) < 2 ^ 31)
    (hring : ¬ 2 * n ∣ 2 ^ 22) : ¬ AcksLast (1024 * n) := by
  intro hall
  obtain ⟨R, hreach, hphase, hpend, hstart, hzero⟩ := exists_wrapped hn hb
  obtain ⟨last, htracked⟩ := reachable_tracked_iff.1 hreach
  obtain ⟨β, k, j, hinv⟩ := TrackedInv.of_reachable hn hb htracked
  rcases (hinv.namesLast_iff hphase).1 (hall _ htracked hphase) with h | h | h | h
  · exact h hpend
  · rw [hstart] at h
    cases h
  · exact h hzero
  · exact hring (pow_mod_eq_zero_iff.1 h)

end Wrapping

/-- **Every acknowledgement names the packet accepted last exactly when `2 * c_wnd` divides
`2 ^ 32`**; otherwise the one sent with nothing pending and `next_seq` wrapped to `0` does not. -/
theorem acksLast_iff {cWnd : ℕ} (hpos : 0 < cWnd) (hmul : cWnd % packetSize = 0)
    (hb : 2 * cWnd < 2 ^ 31) :
    (AcksLast cWnd ↔ 2 ^ 32 % (2 * cWnd) = 0) ∧
      ∀ T, (trackedSystem cWnd).Reachable T → T.receiver.phase = .deliver →
        (NamesLast T.last T.receiver.cwndR ↔
          cwndNumPendingAcks T.receiver.cwndR ≠ 0 ∨ T.receiver.cwndR.start = false ∨
            T.receiver.cwndR.nextSeq ≠ 0 ∨ 2 ^ 32 % (2 * cWnd) = 0) := by
  obtain ⟨n, rfl⟩ : ∃ n, cWnd = 1024 * n := ⟨cWnd / 1024, by simp only [packetSize] at hmul; omega⟩
  have hstate : ∀ T, (trackedSystem (1024 * n)).Reachable T → T.receiver.phase = .deliver →
      (NamesLast T.last T.receiver.cwndR ↔
        cwndNumPendingAcks T.receiver.cwndR ≠ 0 ∨ T.receiver.cwndR.start = false ∨
          T.receiver.cwndR.nextSeq ≠ 0 ∨ 2 ^ 32 % (2 * (1024 * n)) = 0) := by
    intro T hreach hphase
    obtain ⟨β, k, j, hinv⟩ := TrackedInv.of_reachable (by omega) (by omega) hreach
    exact hinv.namesLast_iff hphase
  refine ⟨⟨fun hall => ?_, fun hring T hreach hphase => ?_⟩, hstate⟩
  · by_contra hring
    exact not_acksLast_of_not_dvd (by omega) (by omega)
      (fun hdvd => hring (pow_mod_eq_zero_iff.2 hdvd)) hall
  · exact (hstate T hreach hphase).2 (.inr (.inr (.inr hring)))

/-- The window of the client. -/
theorem acksLast_4096 : AcksLast 4096 :=
  (acksLast_iff (by norm_num) (by norm_num) (by norm_num)).1.2 (by norm_num)

/-- With a window of three packets the acknowledgement after the sixth packet, repeated on a
timeout, names another packet. -/
theorem not_acksLast_3072 : ¬ AcksLast 3072 :=
  not_acksLast_of_not_dvd (n := 3) (by norm_num) (by norm_num) (by norm_num)

end Tcp118
