import Tcp118.Window.Cumulative

/-!
# The pending-slot search

`cwnd_lastPendingAckMss` walks along the ring from the slot of `last_seq` while the entries of
`acks` are `1`, and stops at the slot of `next_seq` at the latest.

* `Aligned.pendingScan_eq`: the loop from any position up to the one at which it stops; what is
  left to go is the induction's measure;
* `Aligned.lastPendingAckMss_eq`: what the search returns;
* `Unacked`, `OldestUnacked`: the slots the search is for, and the first of them;
* `FindsOldest`: the search ends, with the oldest of them or with `-1`;
* `Aligned.findsOldest`: it does, whatever `acks` holds.
-/

namespace Tcp118

/-- A slot from the one of `last_seq` on and before the one of `next_seq`, with an entry that is
not `1`. -/
def Unacked (w : Cwnd) (x : ℕ) : Prop :=
  x < w.size / packetSize ∧
    Cyclic.Before (w.lastSeq / packetSize) (w.nextSeq / packetSize) x ∧ w.acks[x]? ≠ some 1

/-- The first of these slots, counted cyclically from the slot of `last_seq`. -/
def OldestUnacked (w : Cwnd) (x : ℕ) : Prop :=
  Unacked w x ∧ ∀ y, Unacked w y → Cyclic.Between (w.lastSeq / packetSize) y x

/-- The search ends.  It returns `-1` exactly when there is no such slot, and the first one
otherwise. -/
def FindsOldest (w : Cwnd) : Prop :=
  ∃ r, cwndLastPendingAckMss w = some r ∧ (r = -1 ↔ ∀ x, ¬ Unacked w x) ∧
    (r ≠ -1 → ∃ x : ℕ, r = x ∧ OldestUnacked w x)

/-- Its value `-1` means that every packet is acknowledged. -/
theorem FindsOldest.eq_neg_one_iff {w : Cwnd} (h : FindsOldest w) :
    cwndLastPendingAckMss w = some (-1) ↔ ∀ x, ¬ Unacked w x := by
  obtain ⟨r, hr, hnone, -⟩ := h
  rw [hr, Option.some.injEq, hnone]

namespace Aligned

variable {n β ν m : ℕ} {w : Cwnd}

theorem maxMss (h : Aligned n β ν w) : cwndMaxMss w = 2 * n := maxMss_of_size h.size

theorem nextMss (h : Aligned n β ν w) : cwndNextMss w = ν := by
  have hν := h.next
  exact nextMss_of_nextSeq h.nextSeq (by rw [h.size]; omega)

/-- The count of pending packets runs over the whole of `acks`. -/
theorem numPendingAcks_eq_zero (h : Aligned n β ν w) :
    cwndNumPendingAcks w = 0 ↔ ∀ x < 2 * n, w.acks[x]? ≠ some 0 := by
  unfold cwndNumPendingAcks countAcks
  rw [h.maxMss, List.countP_eq_zero]
  simp only [List.mem_range, beq_iff_eq]
  exact forall₂_congr fun x hx => not_congr (getAck_boundary_iff h.size hx (by decide))

/-! ### The loop -/

/-- The loop goes on at the positions before `m` and stops at `m`. -/
structure StopsAt (n β ν m : ℕ) (w : Cwnd) : Prop where
  inside : m ≤ Cyclic.pos (2 * n) β ν
  acked : ∀ p < m, w.acks[(β + p) % (2 * n)]? = some 1
  stop : m < Cyclic.pos (2 * n) β ν → w.acks[(β + m) % (2 * n)]? ≠ some 1

/-- There is a first position at which the loop stops. -/
theorem exists_stopsAt (n β ν : ℕ) (w : Cwnd) : ∃ m, StopsAt n β ν m w := by
  classical
  have hex : ∃ p, Cyclic.pos (2 * n) β ν ≤ p ∨ w.acks[(β + p) % (2 * n)]? ≠ some 1 :=
    ⟨_, Or.inl le_rfl⟩
  refine ⟨Nat.find hex, Nat.find_min' hex (Or.inl le_rfl), fun p hp => ?_, fun hlt => ?_⟩
  · by_contra hack
    exact Nat.find_min hex hp (Or.inr hack)
  · exact (Nat.find_spec hex).resolve_left (by omega)

/-- The loop condition at a position up to `m`. -/
theorem goesOn_iff (h : Aligned n β ν w) (hm : StopsAt n β ν m w) {p : ℕ} (hp : p ≤ m) :
    (cwndGetAck w ((β + p) % (2 * n) * packetSize) = 1 ∧ (β + p) % (2 * n) ≠ cwndNextMss w) ↔
      p < m := by
  have hpos : 0 < 2 * n := by have := h.pos; omega
  have hspan := Cyclic.pos_lt (β := β) (x := ν) hpos
  have hin := hm.inside
  have hlast : (β + p) % (2 * n) = ν ↔ p = Cyclic.pos (2 * n) β ν := by
    conv_lhs => rw [← Cyclic.mod_pos h.base h.next]
    exact Cyclic.pos_inj (by omega) hspan
  rw [getAck_boundary_iff h.size (Nat.mod_lt _ hpos) (by decide), h.nextMss, ne_eq, hlast]
  constructor
  · rintro ⟨hack, hne⟩
    by_contra hge
    obtain rfl : p = m := by omega
    exact hm.stop (by omega) hack
  · intro hlt
    exact ⟨hm.acked p hlt, by omega⟩

/-- From position `p` the loop needs one test for each position up to `m`. -/
theorem pendingScan_eq (h : Aligned n β ν w) (hm : StopsAt n β ν m w) (d : ℕ) :
    ∀ p fuel, p + d = m → d < fuel →
      pendingScan w fuel ((β + p) % (2 * n)) = some ((β + m) % (2 * n)) := by
  induction d with
  | zero =>
    intro p fuel hp hfuel
    obtain ⟨fuel, rfl⟩ := Nat.exists_eq_succ_of_ne_zero (by omega : fuel ≠ 0)
    obtain rfl : p = m := by omega
    rw [pendingScan, if_neg]
    rw [h.goesOn_iff hm le_rfl]
    omega
  | succ d ih =>
    intro p fuel hp hfuel
    obtain ⟨fuel, rfl⟩ := Nat.exists_eq_succ_of_ne_zero (by omega : fuel ≠ 0)
    rw [pendingScan, if_pos ((h.goesOn_iff hm (by omega)).2 (by omega)), h.maxMss, Cyclic.pos_succ]
    exact ih (p + 1) fuel (by omega) (by omega)

/-- What the search returns: the slot at which it stops, unless that is the slot of `next_seq`. -/
theorem lastPendingAckMss_eq (h : Aligned n β ν w) (hm : StopsAt n β ν m w) :
    cwndLastPendingAckMss w =
      some (if m < Cyclic.pos (2 * n) β ν then (((β + m) % (2 * n) : ℕ) : ℤ) else -1) := by
  have hspan := Cyclic.pos_lt (N := 2 * n) (β := β) (x := ν) (by have := h.pos; omega)
  have hin := hm.inside
  have hscan := h.pendingScan_eq hm m 0 (2 * n + 1) (by omega) (by omega)
  simp only [Nat.add_zero, Nat.mod_eq_of_lt h.base] at hscan
  unfold cwndLastPendingAckMss
  rw [h.maxMss, h.lastMss, hscan, h.nextMss, Option.map_some]
  congr 1
  conv_lhs => rw [← Cyclic.mod_pos h.base h.next]
  by_cases hlt : m < Cyclic.pos (2 * n) β ν
  · rw [if_pos hlt, if_pos]
    rw [ne_eq, Cyclic.pos_inj (by omega) hspan]
    omega
  · rw [if_neg hlt, show m = Cyclic.pos (2 * n) β ν by omega, if_neg (by simp)]

/-! ### The oldest slot -/

/-- The slots between the two ends are those at the positions before the last one. -/
theorem unacked_iff (h : Aligned n β ν w) (x : ℕ) :
    Unacked w x ↔ x < 2 * n ∧ Cyclic.pos (2 * n) β x < Cyclic.pos (2 * n) β ν ∧
      w.acks[x]? ≠ some 1 := by
  unfold Unacked
  rw [h.size, h.lastSeq, h.nextSeq, packetSize, Nat.mul_div_cancel_left _ (by omega),
    Nat.mul_div_cancel_left _ (by omega), Nat.mul_div_cancel_left _ (by omega)]
  exact and_congr_right fun hx => by rw [Cyclic.before_iff h.base h.next hx]

/-- Before the position at which the loop stops there is no such slot. -/
theorem le_pos_of_unacked (h : Aligned n β ν w) (hm : StopsAt n β ν m w) {x : ℕ}
    (hx : Unacked w x) : m ≤ Cyclic.pos (2 * n) β x := by
  obtain ⟨hlt, -, hack⟩ := (h.unacked_iff x).1 hx
  by_contra hge
  have hone := hm.acked (Cyclic.pos (2 * n) β x) (by omega)
  rw [Cyclic.mod_pos h.base hlt] at hone
  exact hack hone

/-- The search finds the oldest slot, whatever `acks` holds. -/
theorem findsOldest (h : Aligned n β ν w) : FindsOldest w := by
  have hspan := Cyclic.pos_lt (N := 2 * n) (β := β) (x := ν) (by have := h.pos; omega)
  obtain ⟨m, hm⟩ := exists_stopsAt n β ν w
  refine ⟨_, h.lastPendingAckMss_eq hm, ?_⟩
  by_cases hlt : m < Cyclic.pos (2 * n) β ν
  · have hslot : (β + m) % (2 * n) < 2 * n := Nat.mod_lt _ (by omega)
    have hpos : Cyclic.pos (2 * n) β ((β + m) % (2 * n)) = m :=
      Cyclic.pos_mod h.base (by omega)
    have hunacked : Unacked w ((β + m) % (2 * n)) :=
      (h.unacked_iff _).2 ⟨hslot, by rwa [hpos], hm.stop hlt⟩
    rw [if_pos hlt]
    refine ⟨⟨fun e => by omega, fun hno => absurd hunacked (hno _)⟩, fun _ =>
      ⟨_, rfl, hunacked, fun y hy => ?_⟩⟩
    have hybound := ((h.unacked_iff y).1 hy).1
    rw [h.lastSeq, packetSize, Nat.mul_div_cancel_left _ (by omega),
      Cyclic.between_iff h.base hybound hslot, hpos]
    exact h.le_pos_of_unacked hm hy
  · rw [if_neg hlt]
    refine ⟨⟨fun _ x hx => ?_, fun _ => rfl⟩, fun hne => absurd rfl hne⟩
    have hge := h.le_pos_of_unacked hm hx
    have hbefore := ((h.unacked_iff x).1 hx).2.1
    omega

end Aligned

end Tcp118
