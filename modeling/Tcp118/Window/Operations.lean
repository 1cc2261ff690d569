import Tcp118.Library.StepSystem
import Tcp118.Window.Indexed

/-!
# Runs of the window operations

A window may be shifted before it is full, so its first slot can be any slot of the ring, and
`cwnd_setAck` may acknowledge its packets in any order.

* `WindowOp`, `LoggedWnd`, `windowRuns`: all runs of `cwnd_addPkt`, `cwnd_setAck`,
  `cwnd_setAllPrevAck` and `cwnd_shiftWnd` from `cwnd_init`, with a log of the packets added since
  the last shift;
* `InUse n β k s`: the slots at the positions below `k` hold the logged packets, pending or
  acknowledged, and the other slots are free;
* `InUse.addPkt`, `InUse.ack`, `InUse.shiftWnd`, `InUse.apply`, `exists_inUse`: what each operation
  and each run leaves;
* `pending_search`: the pending-slot search finds the oldest slot, and in every run it agrees with
  the count of pending packets.
-/

namespace Tcp118

/-- A call of one of the operations that change a window. -/
inductive WindowOp where
  | addPkt (buf : Packet)
  | setAck (seqNum : UInt32)
  | setAllPrevAck (seqNum : UInt32)
  | shiftWnd

/-- A window, and (not in the source) the slots and packets added since the last shift. -/
structure LoggedWnd where
  cwnd : Cwnd
  added : List (ℕ × Packet)

/-- The state after a call. -/
def WindowOp.apply (s : LoggedWnd) : WindowOp → LoggedWnd
  | .addPkt buf => {
      cwnd := (cwndAddPkt s.cwnd buf).1
      added :=
        if (cwndAddPkt s.cwnd buf).2 then s.added ++ [(cwndNextMss s.cwnd, buf)] else s.added }
  | .setAck seqNum => { s with cwnd := cwndSetAck s.cwnd seqNum.toNat }
  | .setAllPrevAck seqNum => { s with cwnd := cwndSetAllPrevAck s.cwnd seqNum.toNat }
  | .shiftWnd => { cwnd := cwndShiftWnd s.cwnd, added := [] }

/-- The runs from `cwnd_init` whose calls are allowed. -/
def windowRuns (cWnd : ℕ) (allowed : WindowOp → LoggedWnd → Prop) : StepSystem LoggedWnd :=
  .ofEvents (fun s => ∃ heap, s = ⟨cwndInit cWnd heap, []⟩) (fun op s => some (op.apply s)) allowed

/-- Every call of a list is allowed where it is made. -/
def AllowedRun (allowed : WindowOp → LoggedWnd → Prop) : List WindowOp → LoggedWnd → Prop
  | [], _ => True
  | op :: ops, s => allowed op s ∧ AllowedRun allowed ops (op.apply s)

instance AllowedRun.decidable {allowed : WindowOp → LoggedWnd → Prop}
    [∀ op s, Decidable (allowed op s)] : ∀ ops s, Decidable (AllowedRun allowed ops s)
  | [], _ => .isTrue trivial
  | op :: ops, s =>
    have := @AllowedRun.decidable allowed _ ops (op.apply s)
    inferInstanceAs (Decidable (allowed op s ∧ AllowedRun allowed ops (op.apply s)))

/-- A list of calls, one after the other. -/
theorem reachable_foldl {cWnd : ℕ} {allowed : WindowOp → LoggedWnd → Prop} (ops : List WindowOp) :
    ∀ {s : LoggedWnd}, (windowRuns cWnd allowed).Reachable s → AllowedRun allowed ops s →
      (windowRuns cWnd allowed).Reachable (ops.foldl WindowOp.apply s) := by
  induction ops with
  | nil => exact fun h _ => h
  | cons op ops ih => exact fun h hall => ih (h.tail ⟨op, hall.1, rfl⟩) hall.2

/-! ### The invariant -/

/-- The slots at the positions below `k` are in use, for the logged packets; the others are free. -/
structure InUse (n β k : ℕ) (s : LoggedWnd) : Prop where
  ring : RingWnd n β k s.cwnd
  wraps : 2 * n ∣ 2 ^ 22
  added_le : k ≤ n
  used : ∀ p < k, s.cwnd.acks[(β + p) % (2 * n)]? = some 0 ∨
    s.cwnd.acks[(β + p) % (2 * n)]? = some 1
  free : ∀ p, k ≤ p → p < 2 * n → s.cwnd.acks[(β + p) % (2 * n)]? = some (-1)
  slots : s.added.map Prod.fst = (List.range k).map fun p => (β + p) % (2 * n)
  held : ∀ e ∈ s.added, s.cwnd.packets[e.1]? = some e.2

/-- `w'` is `w` with some of its first `k` packets acknowledged. -/
def AckedFrom (n β k : ℕ) (w w' : Cwnd) : Prop :=
  ∃ acks, w' = { w with acks := acks } ∧ acks.length = 2 * n ∧
    ∀ p < 2 * n, acks[(β + p) % (2 * n)]? = w.acks[(β + p) % (2 * n)]? ∨
      p < k ∧ acks[(β + p) % (2 * n)]? = some 1

namespace RingWnd

variable {n β k : ℕ} {w : Cwnd}

theorem ackedFrom_refl (h : RingWnd n β k w) : AckedFrom n β k w w :=
  ⟨w.acks, rfl, h.lenAcks, fun _ _ => Or.inl rfl⟩

/-- `cwnd_setAck` acknowledges at most the packet whose number it is given. -/
theorem ackedFrom_setAck (h : RingWnd n β k w) (seqNum : ℕ) :
    AckedFrom n β k w (cwndSetAck w seqNum) := by
  have hk := h.added
  unfold cwndSetAck
  split_ifs with hin
  · obtain ⟨hlow, hhigh⟩ := (h.checkIn_iff seqNum).1 hin
    have hslot : slotOf w seqNum = (β + (seqNum / 1024 - β)) % (2 * n) := by
      unfold slotOf
      rw [h.size, packetSize, Nat.mod_mul_right_div_self, Nat.add_sub_cancel' (by omega)]
    refine ⟨_, rfl, by rw [List.length_set, h.lenAcks], fun p hp => ?_⟩
    rw [hslot, List.getElem?_set, h.lenAcks, if_pos (h.slot_lt _)]
    split_ifs with hpos
    · rw [Cyclic.pos_inj (by omega) hp] at hpos
      exact Or.inr ⟨by omega, rfl⟩
    · exact Or.inl rfl
  · exact h.ackedFrom_refl

/-- `cwnd_setAllPrevAck` acknowledges packets of the window only. -/
theorem ackedFrom_setAllPrevAck (h : RingWnd n β k w) (seqNum : ℕ) :
    AckedFrom n β k w (cwndSetAllPrevAck w seqNum) := by
  unfold cwndSetAllPrevAck cwndLastSeq
  dsimp only
  rw [h.aligned.liftedNext, h.aligned.liftedSeq, h.aligned.lastMss, h.span]
  generalize (if seqNum < 1024 * β then seqNum + 1024 * (2 * n) else seqNum) = lifted
  split_ifs with hin
  · have hm : lifted / packetSize + 1 - β ≤ k := by
      simp only [packetSize]
      omega
    rw [h.aligned.setAcks_eq h.lenAcks (by rw [h.span]; exact hm)]
    refine ⟨_, rfl, by rw [length_markAcks, h.lenAcks], fun p hp => ?_⟩
    rw [getElem?_markAcks, Cyclic.pos_mod h.base hp]
    split_ifs with hlt
    · have hin' : (β + p) % (2 * n) < w.acks.length := by rw [h.lenAcks]; exact h.slot_lt p
      exact Or.inr ⟨by omega, by rw [List.getElem?_eq_getElem hin', Option.map_some]⟩
    · exact Or.inl rfl
  · exact h.ackedFrom_refl

/-- Where sequence numbers wrap with the ring, packets are admitted up to `n`. -/
theorem checkAdd_iff (h : RingWnd n β k w) (hring : 2 * n ∣ 2 ^ 22) :
    cwndCheckAdd w = true ↔ k < n := by
  have hdist : Shape.dist n β k = k := by
    unfold Shape.dist
    split_ifs
    · rfl
    · rw [Nat.add_mod, Nat.mod_eq_zero_of_dvd hring, Nat.zero_add, Nat.mod_mod,
        Nat.mod_eq_of_lt h.added]
  rw [h.checkAdd_eq, hdist, decide_eq_true_iff]

end RingWnd

namespace InUse

variable {n β k : ℕ} {s : LoggedWnd}

theorem init (hn : 0 < n) (hring : 2 * n ∣ 2 ^ 22) (hb : 1024 * (2 * n) < 2 ^ 31)
    (heap : ℕ → Packet) : InUse n 0 0 ⟨cwndInit (1024 * n) heap, []⟩ where
  ring := ring_init hn hb heap
  wraps := hring
  added_le := Nat.zero_le n
  used p hp := absurd hp (Nat.not_lt_zero p)
  free p _ _ := acks_init hb heap (Nat.mod_lt _ (by omega))
  slots := rfl
  held _ he := absurd he List.not_mem_nil

/-- The slots in use, by position. -/
theorem mem_slots_iff (h : InUse n β k s) {x : ℕ} (hx : x < 2 * n) :
    x ∈ s.added.map Prod.fst ↔ Cyclic.pos (2 * n) β x < k := by
  have hk := h.ring.added
  rw [h.slots, List.mem_map]
  constructor
  · rintro ⟨p, hp, rfl⟩
    rw [List.mem_range] at hp
    rwa [Cyclic.pos_mod h.ring.base (by omega)]
  · intro hlt
    exact ⟨_, List.mem_range.2 hlt, Cyclic.mod_pos h.ring.base hx⟩

/-- A packet is added while fewer than `n` are in use. -/
theorem addPkt (h : InUse n β k s) (hlt : k < n) (buf : Packet) :
    InUse n β (k + 1) ((WindowOp.addPkt buf).apply s) := by
  have hadd := (h.ring.checkAdd_iff h.wraps).2 hlt
  have happly : (WindowOp.addPkt buf).apply s =
      ⟨(cwndAddPkt s.cwnd buf).1, s.added ++ [((β + k) % (2 * n), buf)]⟩ := by
    rw [WindowOp.apply, Shape.addPkt_snd, if_pos hadd, h.ring.nextMss]
  rw [happly]
  refine ⟨h.ring.addPkt hadd (by omega) buf, h.wraps, hlt, fun p hp => ?_, fun p hkp hp => ?_, ?_,
    fun e he => ?_⟩
  · rw [h.ring.acks_addPkt hadd buf (by omega)]
    split_ifs with hpk
    · exact Or.inl rfl
    · exact h.used p (by omega)
  · rw [h.ring.acks_addPkt hadd buf hp, if_neg (by omega)]
    exact h.free p (by omega) hp
  · rw [List.map_append, h.slots, List.range_succ, List.map_append]
    rfl
  · rw [h.ring.packets_addPkt hadd buf]
    rcases List.mem_append.1 he with he | he
    · -- an earlier packet lies in another slot
      have hslot : (β + k) % (2 * n) ≠ e.1 := by
        intro heq
        have hmem := (h.mem_slots_iff (h.ring.slot_lt k)).1 (heq ▸ List.mem_map_of_mem he)
        rw [h.ring.span] at hmem
        exact lt_irrefl k hmem
      rw [if_neg hslot]
      exact h.held e he
    · obtain rfl := List.mem_singleton.1 he
      rw [if_pos rfl]

/-- A full window refuses a packet. -/
theorem addPkt_of_full (h : InUse n β k s) (hge : ¬ k < n) (buf : Packet) :
    (WindowOp.addPkt buf).apply s = s := by
  have hadd : cwndCheckAdd s.cwnd = false := by
    rw [← Bool.not_eq_true, h.ring.checkAdd_iff h.wraps]
    exact hge
  rw [WindowOp.apply, Shape.addPkt_of_full hadd]
  rfl

/-- Acknowledging leaves the same slots in use. -/
theorem ack (h : InUse n β k s) {w : Cwnd} (hw : AckedFrom n β k s.cwnd w) :
    InUse n β k { s with cwnd := w } := by
  obtain ⟨acks, rfl, hlen, hacks⟩ := hw
  have hk := h.ring.added
  refine ⟨h.ring.withAcks hlen, h.wraps, h.added_le, fun p hp => ?_, fun p hkp hp => ?_, h.slots,
    h.held⟩
  · rcases hacks p (by omega) with he | ⟨-, he⟩
    · exact he.symm ▸ h.used p hp
    · exact Or.inr he
  · rcases hacks p hp with he | ⟨hlt, -⟩
    · exact he.trans (h.free p hkp hp)
    · omega

/-- A shift frees every slot. -/
theorem shiftWnd (h : InUse n β k s) :
    InUse n ((β + k) % (2 * n)) 0 (WindowOp.shiftWnd.apply s) where
  ring := h.ring.shiftWnd
  wraps := h.wraps
  added_le := Nat.zero_le n
  used p hp := absurd hp (Nat.not_lt_zero p)
  free p _ _ := h.ring.acks_shiftWnd (Nat.mod_lt _ (by have := h.ring.pos; omega))
  slots := rfl
  held _ he := absurd he List.not_mem_nil

/-- One step. -/
theorem apply (h : InUse n β k s) (op : WindowOp) : ∃ β' k', InUse n β' k' (op.apply s) := by
  cases op with
  | addPkt buf =>
    by_cases hlt : k < n
    · exact ⟨β, k + 1, h.addPkt hlt buf⟩
    · rw [h.addPkt_of_full hlt]
      exact ⟨β, k, h⟩
  | setAck seqNum => exact ⟨β, k, h.ack (h.ring.ackedFrom_setAck _)⟩
  | setAllPrevAck seqNum => exact ⟨β, k, h.ack (h.ring.ackedFrom_setAllPrevAck _)⟩
  | shiftWnd => exact ⟨_, 0, h.shiftWnd⟩

end InUse

/-- Every run. -/
theorem exists_inUse {n : ℕ} {allowed : WindowOp → LoggedWnd → Prop} {s : LoggedWnd} (hn : 0 < n)
    (hring : 2 * n ∣ 2 ^ 22) (hb : 1024 * (2 * n) < 2 ^ 31)
    (h : (windowRuns (1024 * n) allowed).Reachable s) : ∃ β k, InUse n β k s := by
  refine h.invariant (I := fun s => ∃ β k, InUse n β k s) ?_ ?_
  · rintro _ ⟨heap, rfl⟩
    exact ⟨0, 0, .init hn hring hb heap⟩
  · rintro s t - ⟨β, k, hs⟩ ⟨op, -, hnext⟩
    cases hnext
    exact hs.apply op

/-! ### The search and the count -/

/-- A slot in use is pending unless it is acknowledged, and a free one is neither, so the search
comes to the end of the window exactly when the count over all of `acks` is `0`. -/
theorem InUse.lastPendingAckMss_iff {n β k : ℕ} {s : LoggedWnd} (h : InUse n β k s) :
    cwndLastPendingAckMss s.cwnd = some (-1) ↔ cwndNumPendingAcks s.cwnd = 0 := by
  have hal := h.ring.aligned
  have hk := h.ring.added
  rw [hal.findsOldest.eq_neg_one_iff, hal.numPendingAcks_eq_zero]
  simp only [hal.unacked_iff, h.ring.span]
  constructor
  · intro hnone x hx hpending
    have hslot := Cyclic.mod_pos h.ring.base hx
    refine hnone x ⟨hx, ?_, by rw [hpending]; decide⟩
    by_contra hge
    have hfree := h.free (Cyclic.pos (2 * n) β x) (by omega) (Cyclic.pos_lt (by omega))
    rw [hslot, hpending] at hfree
    exact absurd hfree (by decide)
  · rintro hzero x ⟨hx, hlt, hack⟩
    have hused := h.used (Cyclic.pos (2 * n) β x) hlt
    rw [Cyclic.mod_pos h.ring.base hx] at hused
    exact hused.elim (hzero x hx) hack

/-- The exponent of a `c_wnd` that is a power of two. -/
theorem exponent_bounds {e : ℕ} (hmul : 2 ^ e % packetSize = 0) (hb : 2 * 2 ^ e ≤ 2 ^ 30) :
    10 ≤ e ∧ e ≤ 29 := by
  constructor
  · by_contra hlt
    have hpow : 2 ^ e < packetSize := Nat.pow_lt_pow_right (by decide) (by omega : e < 10)
    rw [Nat.mod_eq_of_lt hpow] at hmul
    exact absurd hmul (Nat.two_pow_pos e).ne'
  · rw [← Nat.pow_succ', Nat.pow_le_pow_iff_right (by decide)] at hb
    omega

/-- **The pending-slot search** ends on every window on slot boundaries and finds the first slot
that is not acknowledged; in every run with a power of two for `c_wnd` it returns `-1` exactly when
no packet is pending. -/
theorem pending_search {cWnd : ℕ} (hpos : 0 < cWnd) (hmul : cWnd % packetSize = 0)
    (hb : 2 * cWnd ≤ 2 ^ 30) :
    (∀ w : Cwnd, w.size = 2 * cWnd → w.lastSeq % packetSize = 0 → w.lastSeq < w.size →
      w.nextSeq % packetSize = 0 → w.nextSeq < w.size → FindsOldest w) ∧
    ∀ e, cWnd = 2 ^ e → ∀ s, (windowRuns cWnd fun _ _ => True).Reachable s →
      (cwndLastPendingAckMss s.cwnd = some (-1) ↔ cwndNumPendingAcks s.cwnd = 0) := by
  constructor
  · intro w hsize hlast hlast' hnext hnext'
    obtain ⟨n, h⟩ :=
      exists_aligned hpos hmul hsize (hsize.trans_le hb) hlast hlast' hnext hnext'
    exact h.findsOldest
  · rintro e rfl s hs
    obtain ⟨he, he'⟩ := exponent_bounds hmul hb
    obtain ⟨n, hW, hn, hring, hbound⟩ := exists_packets_of_pow he he'
    rw [hW] at hs
    obtain ⟨β, k, h⟩ := exists_inUse hn hring hbound hs
    exact h.lastPendingAckMss_iff

/-- Two packets, of which the second one is acknowledged. -/
def outOfOrder : LoggedWnd :=
  [.addPkt zeroPacket, .addPkt zeroPacket, .setAck 1024].foldl WindowOp.apply
    ⟨cwndInit 4096 fun _ => zeroPacket, []⟩

/-- A straddling window with any entries, and a run with an acknowledgement out of order. -/
theorem pending_search_4096 :
    FindsOldest straddlingWnd ∧
      (cwndLastPendingAckMss outOfOrder.cwnd = some (-1) ↔
        cwndNumPendingAcks outOfOrder.cwnd = 0) := by
  have hreach : (windowRuns 4096 fun _ _ => True).Reachable outOfOrder :=
    reachable_foldl _ (.of_init ⟨_, rfl⟩) ⟨trivial, trivial, trivial, trivial⟩
  have h := @pending_search 4096 (by decide) (by decide) (by decide)
  exact ⟨h.1 _ rfl rfl (by decide) rfl (by decide), h.2 12 rfl _ hreach⟩

example : cwndLastPendingAckMss { straddlingWnd with acks := [0, 0, -1, -1, -1, -1, 1, 1] } =
    some 0 := by decide

end Tcp118
