import Tcp118.Library.StepSystem
import Tcp118.Transport.Sender

/-!
# The windows of the sender

`writeTCP` alone, with arbitrary datagrams and timeouts as the results of its receive calls.

* `senderSystem`: its runs;
* `SenderInv.of_reachable`: the invariant along every run;
* `SenderWindow`: the window in the terms of the source, byte offsets and slots;
* `reachable_senderWindow`: every reachable window has this form, and `writePackets` attempts to
  send exactly the pending packets.
-/

namespace Tcp118

/-- An event of `writeTCP`: a step of its own or the return of a receive call. -/
inductive SenderEvent
  | step (lost corr : Bool)
  | recv (stack : Packet) (recv : Option Datagram)

/-- What an event does. -/
def senderNext (pkts : List Packet) : SenderEvent → Sender → Option Sender
  | .step lost corr, S => (senderStep pkts lost corr S).map Prod.fst
  | .recv stack recv, S => senderRecv stack recv S

/-- The runs of `writeTCP` over a list of packets. -/
def senderSystem (pkts : List Packet) (cWnd : ℕ) : StepSystem Sender :=
  .ofEvents (fun S => ∃ heap, S = senderInit cWnd heap) (senderNext pkts) fun _ _ => True

section Runs

variable {pkts : List Packet} {n : ℕ} {S : Sender}

theorem SenderInv.of_reachable (hn : 0 < n) (hring : 2 * n ∣ 2 ^ 22)
    (hb : 1024 * (2 * n) < 2 ^ 31) (h : (senderSystem pkts (1024 * n)).Reachable S) :
    ∃ acked, SenderInv pkts n acked S := by
  refine h.invariant (I := fun S => ∃ acked, SenderInv pkts n acked S) ?_ ?_
  · rintro _ ⟨heap, rfl⟩
    exact ⟨0, senderInv_init pkts hn hring hb heap⟩
  · rintro S₁ S₂ - ⟨acked, hinv⟩ ⟨event, -, hnext⟩
    cases event with
    | step lost corr =>
      obtain ⟨⟨S', out⟩, hstep, rfl⟩ := Option.map_eq_some_iff.1 hnext
      exact ⟨acked, (hinv.step hstep).1⟩
    | recv stack recv =>
      obtain ⟨acked', _, hinv'⟩ := hinv.recv hnext
      exact ⟨acked', hinv'⟩

/-- Every reachable window of the sender has a shape and does not straddle the ring's end. -/
theorem exists_shape_of_reachable {e : ℕ} (he : 10 ≤ e) (he' : e ≤ 29)
    (h : (senderSystem pkts (2 ^ e)).Reachable S) :
    ∃ n β k j, Shape n β k j S.cwndW ∧ β + k ≤ 2 * n := by
  obtain ⟨n, hW, hn, hring, hb⟩ := exists_packets_of_pow he he'
  rw [hW] at h
  obtain ⟨acked, hinv⟩ := SenderInv.of_reachable hn hring hb h
  refine ⟨n, _, _, _, hinv.window.shape, ?_⟩
  have h3 := hinv.window.added_le
  rcases hinv.window.isHalf with e | e <;> rw [e] <;> omega

/-- The pending packets are those before `y` and those from `y` on. -/
theorem slotsFrom_append {x y z : ℕ} (hxy : x ≤ y) (hyz : y ≤ z) :
    slotsFrom pkts n x y ++ slotsFrom pkts n y z = slotsFrom pkts n x z := by
  unfold slotsFrom
  have happend := List.range'_append_1 (s := x) (m := y - x) (n := z - y)
  rw [show x + (y - x) = y by omega, show y - x + (z - y) = z - x by omega] at happend
  rw [← List.map_append, happend]

end Runs

/-! ### The window in bytes and slots -/

/-- The slot at position `p` from `last_seq`. -/
def slotAt (W : ℕ) (w : Cwnd) (p : ℕ) : ℕ := (w.lastSeq / 1024 + p) % (2 * W / 1024)

/-- The window of a sender with `c_wnd = W` after `k` packets have been added since the last shift
and `j` of them acknowledged. -/
structure SenderWindow (W : ℕ) (pkts : List Packet) (S : Sender) (k j : ℕ) : Prop where
  lastSeq : S.cwndW.lastSeq = 0 ∨ S.cwndW.lastSeq = W
  added : S.i = S.shifted + k
  added_le : k ≤ W / 1024
  acked_le : j ≤ k
  nextSeq : S.cwndW.nextSeq = (S.cwndW.lastSeq + 1024 * k) % (2 * W)
  length : S.cwndW.acks.length = 2 * W / 1024
  acks : ∀ p < 2 * W / 1024, S.cwndW.acks[slotAt W S.cwndW p]? =
    some (if p < j then 1 else if p < k then 0 else -1)
  stored : ∀ p < k, ∃ pkt, S.cwndW.packets[slotAt W S.cwndW p]? = some pkt ∧
    pkts[S.shifted + p]? = some pkt ∧ getSeqNum pkt = 1024 * slotAt W S.cwndW p
  writes : writePackets S.cwndW = some ((List.range' j (k - j)).map fun p =>
    ((slotAt W S.cwndW p : ℤ), pkts[S.shifted + p]?))

theorem SenderInv.senderWindow {buf : List UInt8} {nbytes n acked : ℕ} {S : Sender}
    (h : SenderInv (packetsOf buf (1024 * n) nbytes) n acked S) :
    SenderWindow (1024 * n) (packetsOf buf (1024 * n) nbytes) S (S.i - S.shifted)
      (acked - S.shifted) := by
  have hn := h.window.pos
  have h1 := h.window.base_le
  have h2 := h.window.acked_le
  have h3 := h.window.added_le
  have hslots : 2 * (1024 * n) / 1024 = 2 * n := by omega
  have hlast := h.window.shape.lastSeq
  have hβ : S.cwndW.lastSeq / 1024 = S.shifted % (2 * n) := by omega
  have hslot : ∀ p, slotAt (1024 * n) S.cwndW p = (S.shifted + p) % (2 * n) := by
    intro p
    rw [slotAt, hβ, hslots, Nat.mod_add_mod]
  refine ⟨?_, by omega, by omega, by omega, ?_, ?_, ?_, ?_, ?_⟩
  · rw [hlast]
    rcases h.window.isHalf with e | e
    · left; rw [e]
    · right; rw [e]
  · rw [h.window.shape.nextSeq, hlast, ← Nat.mul_add, show 2 * (1024 * n) = 1024 * (2 * n) by omega,
      Nat.mul_mod_mul_left]
  · rw [h.window.shape.lenAcks, hslots]
  · intro p hp
    rw [hslots] at hp
    rw [hslot, ← Nat.mod_add_mod, h.window.shape.acks p hp, ackAt]
  · intro p hp
    have hx : S.shifted + p < (packetsOf buf (1024 * n) nbytes).length := by
      have := h.i_le; omega
    refine ⟨(packetsOf buf (1024 * n) nbytes)[S.shifted + p], ?_, List.getElem?_eq_getElem hx, ?_⟩
    · rw [hslot, h.stored _ (by omega) (by omega), List.getElem?_eq_getElem hx]
    · rw [getSeqNum_packet h.window.ring h.window.shape.bound (List.getElem?_eq_getElem hx), hslot,
        seqOf, Nat.mul_comm]
  · rw [writePackets_eq h.window h.stored, slotsFrom, Option.some.injEq,
      show S.i - S.shifted - (acked - S.shifted) = S.i - acked by omega]
    apply List.ext_getElem
    · simp
    · intro m _ _
      simp only [List.getElem_map, List.getElem_range', hslot, Nat.one_mul]
      rw [show S.shifted + (acked - S.shifted + m) = acked + m by omega]

/-- **The shape of every reachable sender window**: a run of acknowledged packets, then a run of
pending ones, stored under their own sequence numbers; `writePackets` attempts to send exactly the
pending ones, in order, and what is left of its loop is the rest of these. -/
theorem reachable_senderWindow {e : ℕ} (he : 10 ≤ e) (he' : e ≤ 29) {buf : Option (List UInt8)}
    {nbytes : ℕ} {pkts : List Packet} (hpkts : bufToPackets buf nbytes (2 ^ e) = some pkts)
    {S : Sender} (h : (senderSystem pkts (2 ^ e)).Reachable S) :
    ∃ k j, SenderWindow (2 ^ e) pkts S k j ∧
      ∀ todo, S.phase = .write todo → ∃ sent, writePackets S.cwndW = some (sent ++ todo) := by
  obtain ⟨n, hW, hn, hring, hb⟩ := exists_packets_of_pow he he'
  rw [hW] at hpkts h ⊢
  cases buf with
  | none => cases hpkts
  | some buf =>
    obtain rfl := packetsOf_of_bufToPackets buf _ hpkts
    obtain ⟨acked, hinv⟩ := SenderInv.of_reachable hn hring hb h
    refine ⟨_, _, hinv.senderWindow, fun todo hphase => ?_⟩
    have hsound := hinv.sound
    rw [hphase] at hsound
    obtain ⟨y, hy, hyi, rfl⟩ := hsound
    exact ⟨slotsFrom _ n acked y, by
      rw [writePackets_eq hinv.window hinv.stored, slotsFrom_append hy hyi]⟩

/-- A sender with a window of 4096 bytes that has added the only packet of a buffer. -/
theorem exists_first_packet :
    ∃ S, (senderSystem (packetsOf [65] 4096 1) 4096).Reachable S ∧ S.i = 1 ∧
      cwndNumPendingAcks S.cwndW = 1 := by
  have hinit : (senderSystem (packetsOf [65] 4096 1) 4096).Reachable
      (senderInit 4096 fun _ => zeroPacket) := .of_init ⟨_, rfl⟩
  have hinv := senderInv_init (n := 4) (packetsOf [65] 4096 1) (by norm_num) (by norm_num)
    (by norm_num) fun _ => zeroPacket
  have hlen : (packetsOf [65] 4096 1).length = 1 := length_packetsOf _ _ _
  have htop : senderNext (packetsOf [65] 4096 1) (.step false false)
      (senderInit 4096 fun _ => zeroPacket) =
        some { senderInit 4096 fun _ => zeroPacket with phase := .fill } := by
    unfold senderNext senderStep
    simp only [senderInit, hlen]
    simp
  have hpkt : (packetsOf [65] 4096 1)[0]? = some (packetsOf [65] 4096 1)[0] :=
    List.getElem?_eq_getElem (by omega)
  have hadd : cwndCheckAdd (cwndInit 4096 fun _ => zeroPacket) = true :=
    hinv.window.checkAdd_iff.2 (by norm_num [senderInit])
  have hfill : senderNext (packetsOf [65] 4096 1) (.step false false)
      { senderInit 4096 fun _ => zeroPacket with phase := .fill } =
        some ⟨.fill, (cwndAddPkt (cwndInit 4096 fun _ => zeroPacket)
          (packetsOf [65] 4096 1)[0]).1, 1, 0⟩ := by
    unfold senderNext senderStep
    simp only [senderInit, hpkt, hadd, if_true]
    rfl
  have hwindow : Indexed 4 0 0 1 (cwndAddPkt (cwndInit 4096 fun _ => zeroPacket)
      (packetsOf [65] 4096 1)[0]).1 := hinv.window.addPkt (by norm_num [senderInit]) _
  exact ⟨_, (hinit.tail ⟨_, trivial, htop⟩).tail ⟨_, trivial, hfill⟩, rfl, hwindow.numPendingAcks⟩

/-- A window of 4096 bytes after the first packet of a buffer has been added. -/
theorem senderWindow_4096 :
    ∃ S, (senderSystem (packetsOf [65] 4096 1) 4096).Reachable S ∧ S.i = 1 ∧
      ∃ k j, SenderWindow 4096 (packetsOf [65] 4096 1) S k j ∧
        ∀ todo, S.phase = .write todo → ∃ sent, writePackets S.cwndW = some (sent ++ todo) := by
  obtain ⟨S, hr, hi, -⟩ := exists_first_packet
  exact ⟨S, hr, hi, reachable_senderWindow (e := 12) (by norm_num) (by norm_num)
    (bufToPackets_some [65] (by norm_num) (by norm_num) 1) hr⟩

end Tcp118
