import Tcp118.Window.Shape

/-!
# Capacity of an aligned window

A window of `n = c_wnd / PACKET_SIZE` packets is filled, acknowledged and shifted as `writeTCP`
and `readTCP` do; its `last_seq` is then always the start of one half of the ring.

* `WindowRun`: the windows those operations reach, with the number of packets added since the
  last shift;
* `dist_of_lt`, `dist_full`: what `cwnd_checkAdd` compares.  In the upper half of the ring the
  full window has wrapped, and the comparison is right only if `2 ^ 32 % (2 * c_wnd) < c_wnd`;
* `capacity_iff`: exactly under that condition a window accepts a packet if and only if fewer
  than `n` have been added.
-/

namespace Tcp118

/-- Windows reached from `cwnd_init` by the operations as `writeTCP` and `readTCP` call them,
with the number of packets added since the last shift. -/
inductive WindowRun (cWnd : ℕ) (heap : ℕ → Packet) : Cwnd → ℕ → Prop
  | init : WindowRun cWnd heap (cwndInit cWnd heap) 0
  | add {w : Cwnd} {added : ℕ} (buf : Packet) : WindowRun cWnd heap w added →
      WindowRun cWnd heap (cwndAddPkt w buf).1
        (if (cwndAddPkt w buf).2 = true then added + 1 else added)
  | ack {w : Cwnd} {added : ℕ} (seqNum : UInt32) : WindowRun cWnd heap w added →
      WindowRun cWnd heap (cwndSetAllPrevAck w seqNum.toNat) added
  | shift {w : Cwnd} {added : ℕ} : WindowRun cWnd heap w added → shiftGuard w = true →
      WindowRun cWnd heap (cwndShiftWnd w) 0

/-- What the capacity of a window should mean. -/
structure Capacity (cWnd : ℕ) (w : Cwnd) (added : ℕ) : Prop where
  accepts : ∀ buf, (cwndAddPkt w buf).2 = true ↔ added < cWnd / packetSize
  outstanding : added * packetSize ≤ cWnd
  free : ∀ buf, (cwndAddPkt w buf).2 = true → w.acks[cwndNextMss w]? ≠ some 0

/-! ### Halves of the ring -/

/-- `β` is the first slot of one half of a ring of `2 * n` slots. -/
def IsHalf (n β : ℕ) : Prop := β = 0 ∨ β = n

/-- The excess of `2 ^ 32` over a whole number of rings, in slots. -/
def drift (n : ℕ) : ℕ := 2 ^ 22 % (2 * n)

theorem drift_lt_iff {n : ℕ} : 2 ^ 32 % (2 * (1024 * n)) < 1024 * n ↔ drift n < n := by
  have h : 2 ^ 32 % (2 * (1024 * n)) = 1024 * drift n := by
    rw [show (2 : ℕ) ^ 32 = 1024 * 2 ^ 22 by norm_num,
      show 2 * (1024 * n) = 1024 * (2 * n) by omega, Nat.mul_mod_mul_left]
    rfl
  rw [h]
  omega

theorem dist_of_lt {n β k : ℕ} (hβ : IsHalf n β) (hk : k < n) : Shape.dist n β k = k := by
  unfold Shape.dist
  rw [if_pos (by rcases hβ with rfl | rfl <;> omega)]

theorem dist_full_lower {n : ℕ} (hn : 0 < n) : Shape.dist n 0 n = n := by
  unfold Shape.dist
  rw [if_pos (by omega)]

/-- Behind the ring's end the distance runs from the drift. -/
theorem dist_upper {n t : ℕ} : Shape.dist n n (n + t) = (drift n + n + t) % (2 * n) := by
  unfold Shape.dist drift
  rw [if_neg (by omega), Nat.add_assoc (2 ^ 22 % (2 * n)), Nat.mod_add_mod]

theorem dist_full {n β : ℕ} (hn : 0 < n) (hβ : IsHalf n β) (hd : drift n < n) :
    n ≤ Shape.dist n β n := by
  rcases hβ with rfl | rfl
  · rw [dist_full_lower hn]
  · have h := dist_upper (n := β) (t := 0)
    simp only [Nat.add_zero] at h
    rw [h, Nat.mod_eq_of_lt (by omega)]
    omega

/-- The drift is never half a ring, because only a power of two divides `2 ^ 22`. -/
theorem drift_ne {n : ℕ} (hn : 0 < n) (hb : 1024 * (2 * n) < 2 ^ 31) : drift n ≠ n := by
  intro h
  unfold drift at h
  have hdiv := Nat.div_add_mod (2 ^ 22) (2 * n)
  rw [h] at hdiv
  generalize 2 ^ 22 / (2 * n) = q at hdiv
  have hfac : (2 * q + 1) * n = 2 ^ 22 := by
    rw [← hdiv]
    ring
  have hodd : Nat.Coprime (2 * q + 1) (2 ^ 22) :=
    Nat.Coprime.pow_right _ (by simp)
  have hone : 2 * q + 1 = 1 := Nat.Coprime.eq_one_of_dvd hodd ⟨n, hfac.symm⟩
  rw [hone, Nat.one_mul] at hfac
  omega

/-- How many packets a window on half `β` admits: with a larger drift the upper half of the ring
admits more than `n`. -/
def room (n β : ℕ) : ℕ := if β = n ∧ n < drift n then 3 * n - drift n else n

theorem room_lt {n : ℕ} (hn : 0 < n) (β : ℕ) : room n β < 2 * n := by
  unfold room
  split_ifs <;> omega

/-- The distance is small exactly while there is room. -/
theorem dist_lt_iff {n β k : ℕ} (hn : 0 < n) (hb : 1024 * (2 * n) < 2 ^ 31) (hβ : IsHalf n β)
    (hk : k ≤ room n β) : Shape.dist n β k < n ↔ k < room n β := by
  have hne := drift_ne hn hb
  have hlt : drift n < 2 * n := Nat.mod_lt _ (by omega)
  unfold room at hk ⊢
  rcases Nat.lt_or_ge k n with hkn | hkn
  · rw [dist_of_lt hβ hkn]
    split_ifs <;> omega
  · obtain ⟨t, rfl⟩ := Nat.exists_eq_add_of_le hkn
    rcases hβ with rfl | rfl
    · rw [if_neg (by omega)] at hk ⊢
      obtain rfl : t = 0 := by omega
      rw [Nat.add_zero, dist_full_lower hn]
    · rw [dist_upper, Cyclic.mod_of_lt_two_mul (by split_ifs at hk <;> omega)]
      split_ifs at hk ⊢ <;> omega

/-- The other half. -/
theorem isHalf_shift {n β : ℕ} (hn : 0 < n) (hβ : IsHalf n β) : IsHalf n ((β + n) % (2 * n)) := by
  rcases hβ with rfl | rfl
  · right
    rw [Nat.zero_add, Nat.mod_eq_of_lt (by omega)]
  · left
    rw [← Nat.two_mul, Nat.mod_self]

namespace Shape

variable {n β k j : ℕ} {w : Cwnd}

theorem checkAdd_of_lt (h : Shape n β k j w) (hβ : IsHalf n β) (hk : k < n) :
    cwndCheckAdd w = true := by
  rw [h.checkAdd_eq, dist_of_lt hβ hk]
  exact decide_eq_true hk

theorem checkAdd_of_full (h : Shape n β n j w) (hβ : IsHalf n β) (hd : drift n < n) :
    cwndCheckAdd w = false := by
  rw [h.checkAdd_eq]
  exact decide_eq_false (by have := dist_full h.pos hβ hd; omega)

/-- A window of at most `n` packets admits one more exactly when it holds fewer. -/
theorem checkAdd_iff (h : Shape n β k j w) (hβ : IsHalf n β) (hk : k ≤ n) (hd : drift n < n) :
    cwndCheckAdd w = true ↔ k < n := by
  constructor
  · intro hadd
    by_contra hge
    obtain rfl : k = n := by omega
    rw [h.checkAdd_of_full hβ hd] at hadd
    exact absurd hadd (by decide)
  · exact h.checkAdd_of_lt hβ

/-- A window admits one more packet exactly when there is room for it. -/
theorem checkAdd_iff_room (h : Shape n β k j w) (hβ : IsHalf n β) (hk : k ≤ room n β) :
    cwndCheckAdd w = true ↔ k < room n β := by
  rw [h.checkAdd_eq, decide_eq_true_iff, dist_lt_iff h.pos h.bound hβ hk]

/-- The guard of the shift counts the acknowledged packets. -/
theorem shiftGuard_iff (h : Shape n β k j w) :
    shiftGuard w = true ↔ j = n ∧ cwndCheckAdd w = false := by
  unfold shiftGuard
  rw [h.numReceivedAcks, h.maxMss, Nat.mul_div_cancel_left n (by omega : 0 < 2)]
  simp

end Shape

/-! ### Runs of an aligned window -/

section Runs

variable {n : ℕ} {heap : ℕ → Packet}

/-- The invariant of every run when the drift is below half a ring. -/
theorem WindowRun.shape (hn : 0 < n) (hb : 1024 * (2 * n) < 2 ^ 31) (hd : drift n < n) {w : Cwnd}
    {added : ℕ} (h : WindowRun (1024 * n) heap w added) :
    ∃ β j, Shape n β added j w ∧ IsHalf n β ∧ added ≤ n := by
  induction h with
  | init => exact ⟨0, 0, shape_init hn hb heap, Or.inl rfl, Nat.zero_le n⟩
  | @add w added buf _ ih =>
    obtain ⟨β, j, hs, hβ, hle⟩ := ih
    rw [Shape.addPkt_snd]
    by_cases hadd : cwndCheckAdd w = true
    · have hlt := (hs.checkAdd_iff hβ hle hd).1 hadd
      rw [if_pos hadd]
      exact ⟨β, j, hs.addPkt hadd (by omega) buf, hβ, hlt⟩
    · rw [if_neg hadd, Shape.addPkt_of_full (by simpa using hadd)]
      exact ⟨β, j, hs, hβ, hle⟩
  | ack seqNum _ ih =>
    obtain ⟨β, j, hs, hβ, hle⟩ := ih
    obtain ⟨j', -, hs'⟩ := hs.setAllPrevAck seqNum.toNat
    exact ⟨β, j', hs', hβ, hle⟩
  | @shift w added _ hguard ih =>
    obtain ⟨β, j, hs, hβ, hle⟩ := ih
    have hj := (hs.shiftGuard_iff.1 hguard).1
    have hjk := hs.acked
    obtain rfl : added = n := by omega
    exact ⟨_, 0, hs.shiftWnd, isHalf_shift hn hβ, Nat.zero_le _⟩

theorem WindowRun.capacity (hn : 0 < n) (hb : 1024 * (2 * n) < 2 ^ 31) (hd : drift n < n)
    {w : Cwnd} {added : ℕ} (h : WindowRun (1024 * n) heap w added) :
    Capacity (1024 * n) w added := by
  obtain ⟨β, j, hs, hβ, hle⟩ := h.shape hn hb hd
  have hdiv : 1024 * n / packetSize = n := by simp only [packetSize]; omega
  have haccepts : ∀ buf, (cwndAddPkt w buf).2 = true ↔ added < 1024 * n / packetSize := by
    intro buf
    rw [Shape.addPkt_snd, hs.checkAdd_iff hβ hle hd, hdiv]
  refine ⟨haccepts, by simp only [packetSize]; omega, fun buf hadd => ?_⟩
  -- the slot behind the window is free
  have hlt := (haccepts buf).1 hadd
  rw [hdiv] at hlt
  have hjk := hs.acked
  rw [hs.nextMss, hs.acks added (by omega), ackAt, if_neg (by omega), if_neg (by omega)]
  decide

/-- Packets can be added up to the capacity of a half. -/
theorem WindowRun.exists_added {w : Cwnd} {β : ℕ} (hw : WindowRun (1024 * n) heap w 0)
    (hs : Shape n β 0 0 w) (hβ : IsHalf n β) (k : ℕ) (hk : k ≤ n) :
    ∃ w', WindowRun (1024 * n) heap w' k ∧ Shape n β k 0 w' := by
  induction k with
  | zero => exact ⟨w, hw, hs⟩
  | succ k ih =>
    obtain ⟨w', hw', hs'⟩ := ih (by omega)
    have hadd := hs'.checkAdd_of_lt hβ hk
    have hrun := hw'.add zeroPacket
    rw [Shape.addPkt_snd, if_pos hadd] at hrun
    exact ⟨_, hrun, hs'.addPkt hadd (by omega) zeroPacket⟩

/-- With a larger drift the second window accepts a packet when it is full. -/
theorem WindowRun.exists_overfull (heap : ℕ → Packet) (hn : 0 < n)
    (hb : 1024 * (2 * n) < 2 ^ 31) (hd : n ≤ drift n) :
    ∃ w, WindowRun (1024 * n) heap w n ∧ ∀ buf, (cwndAddPkt w buf).2 = true := by
  -- fill and acknowledge the first half
  obtain ⟨w₁, hw₁, hs₁⟩ :=
    WindowRun.exists_added .init (shape_init hn hb heap) (Or.inl rfl) n le_rfl
  have hseq : (UInt32.ofNat (1024 * (n - 1))).toNat = 1024 * (n - 1) := by
    rw [UInt32.toNat_ofNat']
    omega
  have hlift : Shape.lift n 0 (1024 * (n - 1)) = 1024 * (n - 1) := by
    unfold Shape.lift
    rw [if_neg (by omega)]
  have hs₂ := hs₁.setAllPrevAck_of_mem (1024 * (n - 1)) (by rw [hlift]; omega)
  rw [hlift, show max 0 (1024 * (n - 1) / 1024 + 1 - 0) = n by omega] at hs₂
  have hw₂ := hw₁.ack (UInt32.ofNat (1024 * (n - 1)))
  rw [hseq] at hw₂
  -- shift, and fill the second half
  have hguard : shiftGuard (cwndSetAllPrevAck w₁ (1024 * (n - 1))) = true := by
    rw [hs₂.shiftGuard_iff, hs₂.checkAdd_eq, dist_full_lower hn]
    simp
  have hs₃ := hs₂.shiftWnd
  rw [Nat.zero_add, Nat.mod_eq_of_lt (by omega)] at hs₃
  obtain ⟨w₄, hw₄, hs₄⟩ := WindowRun.exists_added (hw₂.shift hguard) hs₃ (Or.inr rfl) n le_rfl
  refine ⟨w₄, hw₄, fun buf => ?_⟩
  have hdrift : drift n < 2 * n := Nat.mod_lt _ (by omega)
  have hdist := dist_upper (n := n) (t := 0)
  simp only [Nat.add_zero] at hdist
  rw [Shape.addPkt_snd, hs₄.checkAdd_eq, hdist,
    Cyclic.mod_of_lt_two_mul (by omega), if_neg (by omega)]
  exact decide_eq_true (by omega)

end Runs

/-- **The capacity of the window is `c_wnd / PACKET_SIZE` packets exactly when
`2 ^ 32 % (2 * c_wnd) < c_wnd`.** -/
theorem capacity_iff {cWnd : ℕ} (hpos : 0 < cWnd) (hmul : cWnd % packetSize = 0)
    (hb : 2 * cWnd < 2 ^ 31) :
    (∀ heap w added, WindowRun cWnd heap w added → Capacity cWnd w added) ↔
      2 ^ 32 % (2 * cWnd) < cWnd := by
  obtain ⟨n, rfl⟩ : ∃ n, cWnd = 1024 * n := ⟨cWnd / 1024, by simp only [packetSize] at hmul; omega⟩
  rw [drift_lt_iff]
  constructor
  · intro h
    by_contra hd
    obtain ⟨w, hw, hacc⟩ := WindowRun.exists_overfull (fun _ => zeroPacket)
      (by omega : 0 < n) (by omega) (by omega)
    have hlt := ((h _ w n hw).accepts zeroPacket).1 (hacc zeroPacket)
    simp only [packetSize] at hlt
    omega
  · intro hd heap w added hw
    exact hw.capacity (by omega) (by omega) hd

/-- The first window of 4096 bytes after one packet. -/
theorem capacity_4096 :
    Capacity 4096 (cwndAddPkt (cwndInit 4096 fun _ => zeroPacket) zeroPacket).1
      (if (cwndAddPkt (cwndInit 4096 fun _ => zeroPacket) zeroPacket).2 = true then 0 + 1 else 0) :=
  (capacity_iff (by norm_num) (by norm_num) (by norm_num)).2 (by norm_num) _ _ _ (.add _ .init)

/-- A window of three packets takes a fourth one in its second half. -/
theorem not_capacity_3072 :
    ∃ heap w, WindowRun 3072 heap w 3 ∧ (∀ buf, (cwndAddPkt w buf).2 = true) ∧
      ¬ Capacity 3072 w 3 := by
  obtain ⟨w, hw, hacc⟩ := WindowRun.exists_overfull (n := 3) (fun _ => zeroPacket)
    (by norm_num) (by norm_num) (by decide)
  refine ⟨_, w, hw, hacc, fun h => ?_⟩
  have hlt := (h.accepts zeroPacket).1 (hacc zeroPacket)
  norm_num at hlt

end Tcp118
