import Tcp118.Transport.Sender
import Mathlib.Logic.Relation

/-!
# Runs of the sender on its own

What `writeTCP` does when nothing it sends arrives and nothing is received: it keeps what has been
acknowledged and comes round its loop.

* `Quiet`: such runs;
* `quiet_fill`, `quiet_shift`, `quiet_write`, `quiet_readAck`: the parts of one round;
* `quiet_top`: from anywhere in the transmission loop back to its start;
* `quiet_pending`: from there, while packets are missing, to a loop of `writePackets` over at least
  one pending packet;
* `quiet_finish`: once everything has been acknowledged, to the end of the transmission loop.
-/

namespace Tcp118

/-- A step with everything lost, or a timeout. -/
def QuietStep (pkts : List Packet) (S S' : Sender) : Prop :=
  senderStep pkts true false S = some (S', none) ∨ senderRecv zeroPacket none S = some S'

/-- A run with everything lost and nothing received. -/
def Quiet (pkts : List Packet) : Sender → Sender → Prop := Relation.ReflTransGen (QuietStep pkts)

variable {pkts : List Packet} {n acked : ℕ} {S S' S'' : Sender}

theorem Quiet.refl (S : Sender) : Quiet pkts S S := Relation.ReflTransGen.refl

theorem Quiet.trans (h : Quiet pkts S S') (h' : Quiet pkts S' S'') : Quiet pkts S S'' :=
  Relation.ReflTransGen.trans h h'

theorem Quiet.single (h : senderStep pkts true false S = some (S', none)) : Quiet pkts S S' :=
  Relation.ReflTransGen.single (.inl h)

/-! ### The parts of a round -/

/-- The inner loop ends when the list or the room in the window ends. -/
theorem quiet_fill (h : SenderInv pkts n acked S) (hphase : S.phase = .fill) :
    ∃ S', Quiet pkts S S' ∧ SenderInv pkts n acked S' ∧ S'.phase = .shift ∧
      S'.shifted = S.shifted ∧ (S'.i = pkts.length ∨ S'.i = S.shifted + n) := by
  induction hd : pkts.length - S.i generalizing S with
  | zero =>
    have hi : S.i = pkts.length := by have := h.i_le; omega
    have hstep : senderStep pkts true false S = some ({ S with phase := .shift }, none) := by
      unfold senderStep
      rw [hphase]
      dsimp only
      rw [hi, List.getElem?_eq_none le_rfl]
    exact ⟨_, .single hstep, (h.step hstep).1, rfl, rfl, .inl hi⟩
  | succ d ih =>
    have hpkt : pkts[S.i]? = some pkts[S.i] := List.getElem?_eq_getElem (by omega)
    by_cases hroom : S.i < S.shifted + n
    · have hstep : senderStep pkts true false S =
          some ({ S with cwndW := (cwndAddPkt S.cwndW pkts[S.i]).1, i := S.i + 1 }, none) := by
        unfold senderStep
        rw [hphase]
        dsimp only
        rw [hpkt]
        dsimp only
        rw [if_pos (h.window.checkAdd_iff.2 hroom)]
      obtain ⟨S', hq, hrest⟩ := ih (h.step hstep).1 hphase (by dsimp only; omega)
      exact ⟨S', (Quiet.single hstep).trans hq, hrest⟩
    · have hstep : senderStep pkts true false S = some ({ S with phase := .shift }, none) := by
        unfold senderStep
        rw [hphase]
        dsimp only
        rw [hpkt]
        dsimp only
        rw [if_neg fun e => hroom (h.window.checkAdd_iff.1 e)]
      have := h.window.added_le
      exact ⟨_, .single hstep, (h.step hstep).1, rfl, rfl, .inr (by dsimp only; omega)⟩

/-- The shift test, and the start of `writePackets`. -/
theorem quiet_shift (h : SenderInv pkts n acked S) (hphase : S.phase = .shift) :
    ∃ S', Quiet pkts S S' ∧ SenderInv pkts n acked S' ∧ S'.i = S.i ∧
      S'.phase = .write (slotsFrom pkts n acked S.i) ∧
      (acked = S.shifted + n → S'.shifted = S.i) := by
  have hstep : ∃ S', senderStep pkts true false S = some (S', none) ∧ S'.i = S.i ∧
      S'.phase = .write (slotsFrom pkts n acked S.i) ∧
      (acked = S.shifted + n → S'.shifted = S.i) := by
    unfold senderStep
    rw [hphase]
    dsimp only
    rcases h.shiftWnd with ⟨_, he, _, hw⟩ | ⟨hg, he⟩
    · rw [he]
      dsimp only
      rw [writePackets_eq hw fun x h1 h2 => absurd h2 (by omega)]
      exact ⟨_, rfl, rfl, rfl, fun _ => rfl⟩
    · rw [he, writePackets_eq h.window h.stored]
      exact ⟨_, rfl, rfl, rfl, fun e => absurd e hg⟩
  obtain ⟨S', hS, hrest⟩ := hstep
  exact ⟨S', .single hS, (h.step hS).1, hrest⟩

/-- The loop of `writePackets` over lost packets. -/
theorem quiet_write {y z : ℕ} (hi : S.i ≤ pkts.length) (hyz : y ≤ z) (hz : z ≤ S.i)
    (hphase : S.phase = .write (slotsFrom pkts n y S.i)) :
    Quiet pkts S { S with phase := .write (slotsFrom pkts n z S.i) } := by
  induction hd : z - y generalizing y S with
  | zero =>
    obtain rfl : y = z := by omega
    rw [← hphase]
    exact .refl S
  | succ d ih =>
    have hpkt : pkts[y]? = some pkts[y] := List.getElem?_eq_getElem (by omega)
    have hstep : senderStep pkts true false S =
        some ({ S with phase := .write (slotsFrom pkts n (y + 1) S.i) }, none) := by
      unfold senderStep
      rw [hphase, slotsFrom_of_lt (by omega : y < S.i), hpkt]
      rfl
    have hrest := ih (y := y + 1) (S := { S with phase := .write (slotsFrom pkts n (y + 1) S.i) })
      hi (by omega) hz rfl (by omega)
    exact (Quiet.single hstep).trans hrest

/-- The end of `writePackets`. -/
theorem quiet_written (hphase : S.phase = .write (slotsFrom pkts n S.i S.i)) :
    Quiet pkts S { S with phase := .readAck } := by
  refine .single ?_
  unfold senderStep
  rw [hphase, slotsFrom_self]

/-- `readAckPacket` waits when something is pending. -/
theorem quiet_readAck (h : SenderInv pkts n acked S) (hphase : S.phase = .readAck)
    (hlt : acked < S.i) : Quiet pkts S { S with phase := .recvAck } := by
  refine .single ?_
  unfold senderStep
  rw [hphase]
  dsimp only
  rw [h.window.numPendingAcks, if_neg (by omega)]

theorem quiet_recvAck (hphase : S.phase = .recvAck) :
    Quiet pkts S { S with phase := .top } :=
  Relation.ReflTransGen.single (.inr (senderRecv_timeout zeroPacket hphase))

/-! ### Whole rounds -/

theorem quiet_top_of_readAck (h : SenderInv pkts n acked S) (hphase : S.phase = .readAck) :
    Quiet pkts S { S with phase := .top } := by
  by_cases hlt : acked < S.i
  · exact (quiet_readAck h hphase hlt).trans
      (quiet_recvAck (S := { S with phase := .recvAck }) rfl)
  · refine .single ?_
    unfold senderStep
    rw [hphase]
    dsimp only
    rw [h.window.numPendingAcks, if_pos (by omega)]

theorem quiet_top_of_write (h : SenderInv pkts n acked S) {y : ℕ} (hy : y ≤ S.i)
    (hphase : S.phase = .write (slotsFrom pkts n y S.i)) :
    Quiet pkts S { S with phase := .top } :=
  (quiet_write h.i_le hy le_rfl hphase).trans <|
    (quiet_written (S := { S with phase := .write (slotsFrom pkts n S.i S.i) }) rfl).trans
      (quiet_top_of_readAck (S := { S with phase := .readAck }) (h.withPhase trivial) rfl)

theorem quiet_top_of_shift (h : SenderInv pkts n acked S) (hphase : S.phase = .shift) :
    ∃ S', Quiet pkts S S' ∧ SenderInv pkts n acked S' ∧ S'.phase = .top := by
  obtain ⟨S', hq, hS, hi, hwrite, _⟩ := quiet_shift h hphase
  rw [← hi] at hwrite
  exact ⟨_, hq.trans (quiet_top_of_write hS hS.window.acked_le hwrite), hS.withPhase trivial, rfl⟩

/-- From anywhere in the transmission loop the sender comes back to its start. -/
theorem quiet_top (h : SenderInv pkts n acked S) (hside : S.side = .transmitting) :
    ∃ S', Quiet pkts S S' ∧ SenderInv pkts n acked S' ∧ S'.phase = .top := by
  have hsound := h.sound
  cases hphase : S.phase with
  | top => exact ⟨S, .refl S, h, hphase⟩
  | fill =>
    obtain ⟨S₁, hq, hS₁, hshift, -⟩ := quiet_fill h hphase
    obtain ⟨S₂, hq', hS₂⟩ := quiet_top_of_shift hS₁ hshift
    exact ⟨S₂, hq.trans hq', hS₂⟩
  | shift => exact quiet_top_of_shift h hphase
  | write todo =>
    rw [hphase] at hsound
    obtain ⟨y, -, hy, rfl⟩ := hsound
    exact ⟨_, quiet_top_of_write h hy hphase, h.withPhase trivial, rfl⟩
  | readAck => exact ⟨_, quiet_top_of_readAck h hphase, h.withPhase trivial, rfl⟩
  | recvAck => exact ⟨_, quiet_recvAck hphase, h.withPhase trivial, rfl⟩
  | close => rw [Sender.side, hphase] at hside; cases hside
  | readClose k => rw [Sender.side, hphase] at hside; cases hside
  | exited b => rw [Sender.side, hphase] at hside; cases hside

/-- One round as far as `writePackets`: something is pending, or the window has just been
shifted. -/
theorem quiet_round (h : SenderInv pkts n acked S) (hphase : S.phase = .top)
    (hmore : acked < pkts.length) :
    ∃ S', Quiet pkts S S' ∧ SenderInv pkts n acked S' ∧
      S'.phase = .write (slotsFrom pkts n acked S'.i) ∧
      (acked < S'.i ∨ S'.shifted = acked ∧ S.shifted ≠ acked) := by
  have hle := h.window.acked_le
  have hstep : senderStep pkts true false S = some ({ S with phase := .fill }, none) := by
    unfold senderStep
    rw [hphase]
    dsimp only
    rw [h.window.numPendingAcks, if_pos (by omega)]
  obtain ⟨S₁, hq₁, hS₁, hshift, hbase, hend⟩ := quiet_fill (h.step hstep).1 rfl
  obtain ⟨S₂, hq₂, hS₂, hi, hwrite, hshifted⟩ := quiet_shift hS₁ hshift
  have hle₁ := hS₁.window.acked_le
  have hn := h.window.pos
  rw [← hi] at hwrite
  refine ⟨S₂, (Quiet.single hstep).trans (hq₁.trans hq₂), hS₂, hwrite, ?_⟩
  dsimp only at hbase hend
  by_cases hlt : acked < S₂.i
  · exact .inl hlt
  · have hfull : acked = S₁.shifted + n := by omega
    have := hshifted hfull
    exact .inr ⟨by omega, by omega⟩

/-- While packets are missing the sender comes to send pending ones. -/
theorem quiet_pending (h : SenderInv pkts n acked S) (hside : S.side = .transmitting)
    (hmore : acked < pkts.length) :
    ∃ S', Quiet pkts S S' ∧ SenderInv pkts n acked S' ∧ acked < S'.i ∧
      S'.phase = .write (slotsFrom pkts n acked S'.i) := by
  obtain ⟨S₁, hq₁, hS₁, htop⟩ := quiet_top h hside
  obtain ⟨S₂, hq₂, hS₂, hwrite, hlt | ⟨hshifted, -⟩⟩ := quiet_round hS₁ htop hmore
  · exact ⟨S₂, hq₁.trans hq₂, hS₂, hlt, hwrite⟩
  · -- the round found the window full and acknowledged; the next one starts from an empty window
    have htop₂ := quiet_top_of_write hS₂ hS₂.window.acked_le hwrite
    obtain ⟨S₃, hq₃, hS₃, hwrite₃, hlt | ⟨-, hne⟩⟩ :=
      quiet_round (S := { S₂ with phase := .top }) (hS₂.withPhase trivial) rfl hmore
    · exact ⟨S₃, hq₁.trans (hq₂.trans (htop₂.trans hq₃)), hS₃, hlt, hwrite₃⟩
    · exact absurd hshifted hne

/-- While packets are missing the sender comes to wait for an acknowledgement. -/
theorem quiet_waiting (h : SenderInv pkts n acked S) (hside : S.side = .transmitting)
    (hmore : acked < pkts.length) :
    ∃ S', Quiet pkts S S' ∧ SenderInv pkts n acked S' ∧ S'.phase = .recvAck := by
  obtain ⟨S', hq, hS, hlt, hwrite⟩ := quiet_pending h hside hmore
  refine ⟨{ S' with phase := .recvAck }, hq.trans ?_, hS.withPhase hlt, rfl⟩
  exact (quiet_write hS.i_le hlt.le le_rfl hwrite).trans <|
    (quiet_written (S := { S' with phase := .write (slotsFrom pkts n S'.i S'.i) }) rfl).trans
      (quiet_readAck (S := { S' with phase := .readAck }) (hS.withPhase trivial) rfl hlt)

/-- With everything acknowledged the sender leaves its transmission loop. -/
theorem quiet_finish (h : SenderInv pkts n pkts.length S) (hside : S.side = .transmitting) :
    ∃ S', Quiet pkts S S' ∧ S'.side = .closing := by
  obtain ⟨S₁, hq₁, hS₁, htop⟩ := quiet_top h hside
  have hi := hS₁.i_le
  have hle := hS₁.window.acked_le
  have hstep : senderStep pkts true false S₁ = some ({ S₁ with phase := .close }, none) := by
    unfold senderStep
    rw [htop]
    dsimp only
    rw [hS₁.window.numPendingAcks, if_neg (by omega)]
  exact ⟨_, hq₁.trans (.single hstep), rfl⟩

end Tcp118
