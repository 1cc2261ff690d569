import Tcp118.Transport.Events
import Tcp118.Transport.InFlight
import Tcp118.Transport.Steps

/-!
# A `readTCP` that has received nothing

Until the first packet arrives, `readTCP` goes round its loop without sending anything, and leaves
no trace but its phase.

* `Receiver.Idle`: a call that has received nothing;
* `Ignorable`: the datagrams that such a call takes like a timeout;
* `Idle.step`, `Idle.recv_timeout`, `Idle.recv_ignorable`: it stays idle;
* `Idle.reachable`: it is a state of any transfer that is about to start;
* `started_or_exchange`, `reachable_exchange`: as long as it has taken nothing, one idle call is as
  good as another.
-/

namespace Tcp118

/-- A call of `readTCP` that has received nothing. -/
def Receiver.Idle (W : ℕ) (R : Receiver) : Prop :=
  ∃ heap phase, R = ⟨phase, cwndInit W heap, none, Message.empty, []⟩ ∧
    (phase = .top ∨ phase = .read ∨ phase = .deliver)

/-- A close packet, an acknowledgement, or a datagram that fails the test. -/
def Ignorable (pkt : Packet) : Prop :=
  getClose pkt = true ∨ verifies pkt = false ∨ getACK pkt = true

theorem IsControl.ignorable {pkt : Packet} (h : IsControl pkt) : Ignorable pkt := by
  rcases h.close_or with hclose | hzero
  · exact .inl hclose
  · exact .inr (.inl hzero)

theorem ignorable_zeroPacket : Ignorable zeroPacket := IsControl.ignorable (.inr rfl)

theorem ignorable_ackPacket (seq : ℕ) : Ignorable (ackPacket seq) :=
  .inr (.inr (getACK_ackPacket seq))

/-- A new window is not shifted. -/
theorem not_shiftGuard_init {n : ℕ} (hn : 0 < n) (hring : 2 * n ∣ 2 ^ 22)
    (hb : 1024 * (2 * n) < 2 ^ 31) (heap : ℕ → Packet) :
    shiftGuard (cwndInit (1024 * n) heap) = false := by
  rw [← Bool.not_eq_true, (indexed_init hn hring hb heap).shiftGuard_iff]
  omega

namespace Receiver

theorem idle_init (W : ℕ) (heap : ℕ → Packet) : Idle W (receiverInit W heap) :=
  ⟨heap, .top, rfl, .inl rfl⟩

namespace Idle

variable {W n : ℕ} {R R' : Receiver}

theorem appended (h : R.Idle W) : R.appended = [] := by
  obtain ⟨heap, phase, rfl, -⟩ := h
  rfl

theorem not_exited (h : R.Idle W) : R.phase ≠ .exited := by
  obtain ⟨heap, phase, rfl, hphase⟩ := h
  rcases hphase with rfl | rfl | rfl <;> exact fun e => by cases e

/-- It waits in `readPacket`, and nowhere else, for a datagram. -/
theorem read_of_recv (h : R.Idle W) {stack : Packet} {recv : Option Datagram}
    (hrecv : receiverRecv stack recv R = some R') : R.phase = .read := by
  obtain ⟨heap, phase, rfl, hphase⟩ := h
  rcases receiverRecv_phase hrecv with hread | hclose
  · exact hread
  · dsimp only at hclose
    rw [hclose] at hphase
    rcases hphase with e | e | e <;> cases e

theorem recv_timeout (h : R.Idle W) {stack : Packet}
    (hrecv : receiverRecv stack none R = some R') : R'.Idle W := by
  have hread := h.read_of_recv hrecv
  obtain ⟨heap, phase, rfl, -⟩ := h
  rw [receiverRecv_read_timeout hread] at hrecv
  cases hrecv
  exact ⟨heap, .deliver, rfl, .inr (.inr rfl)⟩

/-- What it ignores has the effect of a timeout. -/
theorem recv_ignorable (h : R.Idle W) {stack pkt : Packet} (hpkt : Ignorable pkt)
    (hrecv : receiverRecv stack (some (datagram pkt)) R = some R') :
    receiverRecv stack none R = some R' := by
  have hread := h.read_of_recv hrecv
  rw [receiverRecv_read_timeout hread]
  unfold receiverRecv at hrecv
  rw [hread] at hrecv
  obtain ⟨r, hr, rfl⟩ := Option.map_eq_some_iff.1 hrecv
  rw [readPacket_ignores hpkt stack hr]

/-- It goes round its loop without sending anything. -/
theorem step (hn : 0 < n) (hring : 2 * n ∣ 2 ^ 22) (hb : 1024 * (2 * n) < 2 ^ 31)
    (h : R.Idle (1024 * n)) {lost corr : Bool} {behind heap : List UInt8} {out : Option Packet}
    (hstep : receiverStep lost corr behind heap R = some (R', out)) :
    R'.Idle (1024 * n) ∧ out = none := by
  obtain ⟨mem, phase, rfl, hphase⟩ := h
  have hw : Indexed n 0 0 0 (cwndInit (1024 * n) mem) := indexed_init hn hring hb mem
  unfold receiverStep at hstep
  rcases hphase with rfl | rfl | rfl
  · simp only [not_shiftGuard_init hn hring hb, Bool.false_eq_true, if_false] at hstep
    cases hstep
    exact ⟨⟨mem, .read, rfl, .inr (.inl rfl)⟩, rfl⟩
  · cases hstep
  · have hdeliver := deliver_of_none
      (R := ⟨.deliver, cwndInit (1024 * n) mem, none, Message.empty, []⟩) hw rfl
    dsimp only at hstep
    rw [hdeliver] at hstep
    cases hstep
    exact ⟨⟨mem, .top, rfl, .inl rfl⟩, rfl⟩

/-- It is a state of any transfer that is about to start. -/
theorem reachable (hn : 0 < n) (hring : 2 * n ∣ 2 ^ 22) (hb : 1024 * (2 * n) < 2 ^ 31)
    (h : R.Idle (1024 * n)) {buf : List UInt8} {J : Joint} (hJ : J.Initial (1024 * n)) :
    (transferSystem buf (1024 * n)).Reachable { J with receiver := R } := by
  obtain ⟨mem, phase, rfl, hphase⟩ := h
  have hinit : (transferSystem buf (1024 * n)).Reachable
      { J with receiver := ⟨.top, cwndInit (1024 * n) mem, none, Message.empty, []⟩ } :=
    .of_init ⟨hJ.sender, ⟨mem, rfl⟩, hJ.fwd, hJ.rev⟩
  have hread : (transferSystem buf (1024 * n)).Reachable
      { J with receiver := ⟨.read, cwndInit (1024 * n) mem, none, Message.empty, []⟩ } :=
    hinit.tail ⟨.receiver false false [] [], trivial, by
      simp only [Joint.step, receiverStep, not_shiftGuard_init hn hring hb, Bool.false_eq_true,
        if_false, Option.map_some, Option.toList_none, List.append_nil]
      rfl⟩
  have hdeliver : (transferSystem buf (1024 * n)).Reachable
      { J with receiver := ⟨.deliver, cwndInit (1024 * n) mem, none, Message.empty, []⟩ } :=
    hread.tail ⟨.receiverTimeout zeroPacket, trivial, by
      simp only [Joint.step, receiverRecv_read_timeout, Option.map_some]⟩
  rcases hphase with rfl | rfl | rfl
  · exact hinit
  · exact hread
  · exact hdeliver

end Idle

end Receiver

/-! ### One idle call for another -/

section Exchange

variable {buf : List UInt8} {n : ℕ} {J : Joint}

theorem start_cwndAddPkt {w : Cwnd} (h : w.start = true) (pkt : Packet) :
    (cwndAddPkt w pkt).1.start = true := by
  unfold cwndAddPkt
  split_ifs
  · rfl
  · exact h

/-- What `readPacket` leaves is its window, or the window with a packet added. -/
theorem readPacket_window {stack : Packet} {recv : Option Datagram} {w : Cwnd} {r : Cwnd × ℤ}
    (h : readPacket stack recv w = some r) : r.1 = w ∨ ∃ pkt, r.1 = (cwndAddPkt w pkt).1 := by
  cases recv with
  | none => cases h; exact .inl rfl
  | some d =>
    unfold readPacket at h
    dsimp only at h
    split_ifs at h
    · cases h
      exact .inl rfl
    · obtain ⟨seq, -, hseq⟩ := Option.bind_eq_some_iff.1 h
      split_ifs at hseq <;> cases hseq
      · exact .inr ⟨_, rfl⟩
      · exact .inl rfl

theorem start_of_recv {stack : Packet} {recv : Option Datagram} {R R' : Receiver}
    (h : R.cwndR.start = true) (hrecv : receiverRecv stack recv R = some R') :
    R'.cwndR.start = true := by
  unfold receiverRecv at hrecv
  split at hrecv
  · obtain ⟨r, hr, rfl⟩ := Option.map_eq_some_iff.1 hrecv
    rcases readPacket_window hr with hw | ⟨pkt, hw⟩
    · exact (congrArg Cwnd.start hw).trans h
    · exact (congrArg Cwnd.start hw).trans (start_cwndAddPkt h pkt)
  · cases hrecv
    exact h
  · cases hrecv

theorem ReceiverInv.start_of_step {pkts : List Packet} {base added : ℕ} {R R' : Receiver}
    {lost corr : Bool} {behind heap : List UInt8} {out : Option Packet}
    (hR : ReceiverInv pkts n base added R) (h : R.cwndR.start = true)
    (hstep : receiverStep lost corr behind heap R = some (R', out)) : R'.cwndR.start = true := by
  obtain ⟨base', hR'⟩ := (hR.step hstep).1
  rw [hR'.started, ← hR.started, h]

/-- An idle call that receives a datagram stays idle or takes it. -/
theorem Receiver.Idle.recv_cases {R R' : Receiver} {stack pkt : Packet} {W : ℕ} (h : R.Idle W)
    (hrecv : receiverRecv stack (some (datagram pkt)) R = some R') :
    R'.Idle W ∨ R'.cwndR.start = true := by
  have hread := h.read_of_recv hrecv
  obtain ⟨heap, phase, rfl, -⟩ := h
  unfold receiverRecv at hrecv
  rw [hread] at hrecv
  obtain ⟨r, hr, rfl⟩ := Option.map_eq_some_iff.1 hrecv
  rcases readPacket_window hr with hw | ⟨buf, hw⟩
  · refine .inl ⟨heap, .deliver, ?_, .inr (.inr rfl)⟩
    dsimp only
    rw [hw]
  · dsimp only at hw ⊢
    rw [hw]
    unfold cwndAddPkt
    split_ifs with hadd
    · exact .inr rfl
    · exact .inl ⟨heap, .deliver, rfl, .inr (.inr rfl)⟩

/-- In a reachable state the receiver has started, or it may be exchanged for any idle one. -/
theorem started_or_exchange (hn : 0 < n) (hring : 2 * n ∣ 2 ^ 22) (hb : 1024 * (2 * n) < 2 ^ 31)
    (h : (transferSystem buf (1024 * n)).Reachable J) :
    J.receiver.cwndR.start = true ∨ J.receiver.Idle (1024 * n) ∧
      ∀ R : Receiver, R.Idle (1024 * n) →
        (transferSystem buf (1024 * n)).Reachable { J with receiver := R } := by
  refine h.invariant (I := fun J => J.receiver.cwndR.start = true ∨ J.receiver.Idle (1024 * n) ∧
    ∀ R : Receiver, R.Idle (1024 * n) →
      (transferSystem buf (1024 * n)).Reachable { J with receiver := R }) ?_ ?_
  · intro J₀ hinit
    obtain ⟨heap, hR⟩ := hinit.receiver
    refine .inr ⟨?_, fun R hR => hR.reachable hn hring hb hinit⟩
    rw [hR]
    exact Receiver.idle_init _ heap
  · rintro J₁ J₂ hJ₁ (hstart | ⟨hidle, hall⟩) ⟨event, -, hstep⟩
    · left
      rcases J₁.step_receiver hstep with
        he | ⟨lost, corr, behind, heap, out, hs⟩ | ⟨stack, recv, hs⟩
      · rw [he]
        exact hstart
      · obtain ⟨_, _, _, hrel, -⟩ := Related.of_reachable hn hring hb hJ₁
        obtain ⟨base, added, hR⟩ := hrel.receiver
        exact hR.start_of_step hstart hs
      · exact start_of_recv hstart hs
    · cases event with
      | sender lost corr =>
        obtain ⟨⟨S, out⟩, hs, rfl⟩ := Option.map_eq_some_iff.1 hstep
        exact .inr ⟨hidle, fun R hR => (hall R hR).trans (reaches_sender hs)⟩
      | senderRecv stack =>
        rw [Joint.step] at hstep
        cases hrev : J₁.rev with
        | nil => rw [hrev] at hstep; cases hstep
        | cons pkt rest =>
          rw [hrev] at hstep
          obtain ⟨S, hs, rfl⟩ := Option.map_eq_some_iff.1 hstep
          exact .inr ⟨hidle, fun R hR => (hall R hR).trans (reaches_senderRecv hrev hs)⟩
      | senderTimeout stack =>
        obtain ⟨S, hs, rfl⟩ := Option.map_eq_some_iff.1 hstep
        exact .inr ⟨hidle, fun R hR => (hall R hR).trans (reaches_senderTimeout hs)⟩
      | receiver lost corr behind heap =>
        obtain ⟨⟨R', out⟩, hs, rfl⟩ := Option.map_eq_some_iff.1 hstep
        obtain ⟨hidle', hout⟩ := hidle.step hn hring hb hs
        refine .inr ⟨hidle', fun R hR => ?_⟩
        dsimp only at hout ⊢
        rw [hout, Option.toList_none, List.append_nil]
        exact hall R hR
      | receiverRecv stack =>
        rw [Joint.step] at hstep
        cases hfwd : J₁.fwd with
        | nil => rw [hfwd] at hstep; cases hstep
        | cons pkt rest =>
          rw [hfwd] at hstep
          obtain ⟨R', hs, rfl⟩ := Option.map_eq_some_iff.1 hstep
          rcases hidle.recv_cases hs with hidle' | hstart
          · exact .inr ⟨hidle', fun R hR => (hall R hR).trans (reaches_tailFwd hfwd)⟩
          · exact .inl hstart
      | receiverTimeout stack =>
        obtain ⟨R', hs, rfl⟩ := Option.map_eq_some_iff.1 hstep
        exact .inr ⟨hidle.recv_timeout hs, hall⟩
      | dropFwd i =>
        rw [Joint.step] at hstep
        split_ifs at hstep with hi
        cases hstep
        exact .inr ⟨hidle, fun R hR => (hall R hR).trans (reaches_step (.dropFwd i) (if_pos hi))⟩
      | dropRev i =>
        rw [Joint.step] at hstep
        split_ifs at hstep with hi
        cases hstep
        exact .inr ⟨hidle, fun R hR => (hall R hR).trans (reaches_step (.dropRev i) (if_pos hi))⟩
      | zeroFwd i =>
        obtain ⟨channel, hz, rfl⟩ := Option.map_eq_some_iff.1 hstep
        refine .inr ⟨hidle, fun R hR => (hall R hR).trans (reaches_step (.zeroFwd i) ?_)⟩
        simp only [Joint.step, hz, Option.map_some]
      | zeroRev i =>
        obtain ⟨channel, hz, rfl⟩ := Option.map_eq_some_iff.1 hstep
        refine .inr ⟨hidle, fun R hR => (hall R hR).trans (reaches_step (.zeroRev i) ?_)⟩
        simp only [Joint.step, hz, Option.map_some]
      | follow pkt =>
        rw [Joint.step, if_neg hidle.not_exited] at hstep
        cases hstep

/-- One idle receiver is as good as another. -/
theorem reachable_exchange (hn : 0 < n) (hring : 2 * n ∣ 2 ^ 22) (hb : 1024 * (2 * n) < 2 ^ 31)
    (h : (transferSystem buf (1024 * n)).Reachable J) (hidle : J.receiver.Idle (1024 * n))
    {R : Receiver} (hR : R.Idle (1024 * n)) :
    (transferSystem buf (1024 * n)).Reachable { J with receiver := R } := by
  rcases started_or_exchange hn hring hb h with hstart | ⟨-, hall⟩
  · obtain ⟨heap, phase, he, -⟩ := hidle
    rw [he] at hstart
    cases hstart
  · exact hall R hR

end Exchange

end Tcp118
