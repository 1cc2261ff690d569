import Tcp118.Library.Cyclic
import Tcp118.Window.Basic
import Mathlib.Tactic.NormNum

/-!
# Cumulative acknowledgement

`cwnd_setAllPrevAck` lifts its number and `next_seq` by one ring length where they lie below
`last_seq`, and marks slot after slot through `cwnd_setAck`, which reduces the slot again.

* `Aligned n β ν w`: a ring of `2 * n` slots whose window runs from slot `β` to slot `ν`, with any
  entries in `acks`;
* `markAcks`: the entries of `m` slots from `β` on set to `1`;
* `Aligned.setAcks_eq`: the loop in closed form;
* `Aligned.setAllPrevAck_of_mem`, `Aligned.setAllPrevAck_of_not_mem`: what the function does;
* `cumulative_ack`: it marks exactly the slots from `last_seq` through its number.
-/

namespace Tcp118

/-- A window on slot boundaries, from slot `β` up to slot `ν`. -/
structure Aligned (n β ν : ℕ) (w : Cwnd) : Prop where
  pos : 0 < n
  bound : 1024 * (2 * n) < 2 ^ 31
  size : w.size = 1024 * (2 * n)
  base : β < 2 * n
  next : ν < 2 * n
  lastSeq : w.lastSeq = 1024 * β
  nextSeq : w.nextSeq = 1024 * ν

/-- The entries of the `m` slots from `β` on are set to `1`. -/
def markAcks (n β m : ℕ) (acks : List ℤ) : List ℤ :=
  acks.mapIdx fun x a => if Cyclic.pos (2 * n) β x < m then 1 else a

theorem getElem?_markAcks (n β m : ℕ) (acks : List ℤ) (x : ℕ) :
    (markAcks n β m acks)[x]? =
      if Cyclic.pos (2 * n) β x < m then acks[x]?.map fun _ => 1 else acks[x]? := by
  rw [markAcks, List.getElem?_mapIdx]
  split_ifs <;> simp

@[simp] theorem length_markAcks (n β m : ℕ) (acks : List ℤ) :
    (markAcks n β m acks).length = acks.length := by simp [markAcks]

@[simp] theorem markAcks_zero (n β : ℕ) (acks : List ℤ) : markAcks n β 0 acks = acks := by
  apply List.ext_getElem?
  intro x
  simp [getElem?_markAcks]

/-- Marking one slot more. -/
theorem set_markAcks {n β m : ℕ} (hβ : β < 2 * n) (hm : m < 2 * n) {acks : List ℤ}
    (hlen : acks.length ≤ 2 * n) :
    (markAcks n β m acks).set ((β + m) % (2 * n)) 1 = markAcks n β (m + 1) acks := by
  apply List.ext_getElem?
  intro x
  rw [List.getElem?_set, getElem?_markAcks, getElem?_markAcks, length_markAcks]
  by_cases hx : (β + m) % (2 * n) = x
  · subst hx
    rw [if_pos rfl, Cyclic.pos_mod hβ hm, if_pos (Nat.lt_succ_self m)]
    split_ifs with hin
    · simp [hin]
    · simp [List.getElem?_eq_none (Nat.le_of_not_lt hin)]
  · rw [if_neg hx]
    by_cases hin : x < acks.length
    · have hne : Cyclic.pos (2 * n) β x ≠ m := by
        intro e
        exact hx (by rw [← e, Cyclic.mod_pos hβ (by omega)])
      by_cases hlt : Cyclic.pos (2 * n) β x < m
      · rw [if_pos hlt, if_pos (by omega)]
      · rw [if_neg hlt, if_neg (by omega)]
    · simp [List.getElem?_eq_none (Nat.le_of_not_lt hin)]

namespace Aligned

variable {n β ν : ℕ} {w : Cwnd}

/-- The entries of `acks` do not matter. -/
theorem withAcks (h : Aligned n β ν w) (acks : List ℤ) : Aligned n β ν { w with acks := acks } :=
  ⟨h.pos, h.bound, h.size, h.base, h.next, h.lastSeq, h.nextSeq⟩

theorem lastMss (h : Aligned n β ν w) : cwndLastMss w = β := by
  have hβ := h.base
  exact lastMss_of_lastSeq h.lastSeq (by rw [h.size]; omega)

theorem slotOf_mul (h : Aligned n β ν w) (s : ℕ) : slotOf w (s * packetSize) = s % (2 * n) :=
  slotOf_boundary h.size s

/-- `next_seq`, lifted by one ring length where it lies below `last_seq`. -/
theorem liftedNext (h : Aligned n β ν w) :
    (if w.nextSeq < w.lastSeq then u32 (w.nextSeq + w.size) else w.nextSeq) =
      1024 * (β + Cyclic.pos (2 * n) β ν) := by
  have hb := h.bound
  have hβ := h.base
  have hν := h.next
  rw [h.nextSeq, h.lastSeq, h.size]
  rcases Nat.lt_or_ge ν β with hlt | hge
  · rw [if_pos (by omega), u32_of_lt (by omega), Cyclic.pos_of_gt hlt hβ]
    omega
  · rw [if_neg (by omega), Cyclic.pos_of_le hge hν]
    omega

theorem checkIn_iff (h : Aligned n β ν w) (seqNum : ℕ) :
    cwndCheckIn w seqNum = true ↔
      1024 * β ≤ seqNum ∧ seqNum < 1024 * (β + Cyclic.pos (2 * n) β ν) := by
  unfold cwndCheckIn
  rw [h.liftedNext, h.lastSeq]
  simp

/-- One step of the loop: position `m` is marked when the positions before it are. -/
theorem setAck_mark (h : Aligned n β ν w) (hlen : w.acks.length = 2 * n) {m : ℕ}
    (hm : m < Cyclic.pos (2 * n) β ν) :
    cwndSetAck { w with acks := markAcks n β m w.acks } (u32 ((β + m) * packetSize)) =
      { w with acks := markAcks n β (m + 1) w.acks } := by
  have hb := h.bound
  have hβ := h.base
  have hspan := Cyclic.pos_lt (N := 2 * n) (β := β) (x := ν) (by omega)
  have h' := h.withAcks (markAcks n β m w.acks)
  have hin :
      cwndCheckIn { w with acks := markAcks n β m w.acks } ((β + m) * packetSize) = true := by
    rw [h'.checkIn_iff]
    simp only [packetSize]
    omega
  rw [u32_of_lt (by simp only [packetSize]; omega), cwndSetAck, if_pos hin, h'.slotOf_mul]
  congr 1
  exact set_markAcks hβ (by omega) (by omega)

/-- The loop over `m` slots of the window. -/
theorem setAcks_eq (h : Aligned n β ν w) (hlen : w.acks.length = 2 * n) {m : ℕ}
    (hm : m ≤ Cyclic.pos (2 * n) β ν) :
    setAcks w β m = { w with acks := markAcks n β m w.acks } := by
  induction m with
  | zero => simp [setAcks]
  | succ m ih =>
    have hstep := h.setAck_mark hlen (m := m) (by omega)
    rw [← ih (by omega)] at hstep
    unfold setAcks at hstep ⊢
    rw [List.range'_concat, List.foldl_append, Nat.one_mul]
    exact hstep

/-- A sequence number, lifted by one ring length where it lies below `last_seq`. -/
theorem liftedSeq (h : Aligned n β ν w) (seqNum : ℕ) :
    (if seqNum < w.lastSeq then u32 (seqNum + w.size) else seqNum) =
      if seqNum < 1024 * β then seqNum + 1024 * (2 * n) else seqNum := by
  have hb := h.bound
  have hβ := h.base
  rw [h.lastSeq, h.size]
  split_ifs with hlt
  · rw [u32_of_lt (by omega)]
  · rfl

/-- A number below the ring length is lifted to the position of its slot. -/
theorem lift_eq (h : Aligned n β ν w) {seqNum : ℕ} (hs : seqNum < 1024 * (2 * n)) :
    (if seqNum < 1024 * β then seqNum + 1024 * (2 * n) else seqNum) =
      1024 * (β + Cyclic.pos (2 * n) β (seqNum / 1024)) + seqNum % 1024 := by
  have hβ := h.base
  have hdiv : seqNum / 1024 < 2 * n := by omega
  rcases Nat.lt_or_ge (seqNum / 1024) β with hlt | hge
  · rw [if_pos (by omega), Cyclic.pos_of_gt hlt hβ]
    omega
  · rw [if_neg (by omega), Cyclic.pos_of_le hge hdiv]
    omega

/-- A number of the window: the slots from the first one through its own are marked. -/
theorem setAllPrevAck_of_mem (h : Aligned n β ν w) (hlen : w.acks.length = 2 * n) {seqNum : ℕ}
    (hs : seqNum < 1024 * (2 * n))
    (hin : Cyclic.pos (2 * n) β (seqNum / 1024) < Cyclic.pos (2 * n) β ν) :
    cwndSetAllPrevAck w seqNum =
      { w with acks := markAcks n β (Cyclic.pos (2 * n) β (seqNum / 1024) + 1) w.acks } := by
  have hcount : (1024 * (β + Cyclic.pos (2 * n) β (seqNum / 1024)) + seqNum % 1024) / packetSize +
      1 - β = Cyclic.pos (2 * n) β (seqNum / 1024) + 1 := by
    simp only [packetSize]
    omega
  unfold cwndSetAllPrevAck cwndLastSeq
  dsimp only
  rw [h.liftedNext, h.liftedSeq, h.lift_eq hs, if_pos (by omega), h.lastMss, hcount]
  exact h.setAcks_eq hlen hin

/-- Any other number changes nothing. -/
theorem setAllPrevAck_of_not_mem (h : Aligned n β ν w) {seqNum : ℕ}
    (hs : seqNum < 1024 * (2 * n))
    (hin : ¬ Cyclic.pos (2 * n) β (seqNum / 1024) < Cyclic.pos (2 * n) β ν) :
    cwndSetAllPrevAck w seqNum = w := by
  unfold cwndSetAllPrevAck cwndLastSeq
  dsimp only
  rw [h.liftedNext, h.liftedSeq, h.lift_eq hs, if_neg (by omega)]

/-- A number lies in the byte interval of the window exactly when its slot lies in the slots. -/
theorem before_iff (h : Aligned n β ν w) {seqNum : ℕ} (hs : seqNum < 1024 * (2 * n)) :
    Cyclic.Before w.lastSeq w.nextSeq seqNum ↔
      Cyclic.pos (2 * n) β (seqNum / 1024) < Cyclic.pos (2 * n) β ν := by
  rw [← Cyclic.before_iff h.base h.next (by omega), h.lastSeq, h.nextSeq]
  unfold Cyclic.Before
  split_ifs <;> omega

end Aligned

/-- A window whose ends lie on packet boundaries of its ring. -/
theorem exists_aligned {w : Cwnd} {cWnd : ℕ} (hpos : 0 < cWnd) (hmul : cWnd % packetSize = 0)
    (hsize : w.size = 2 * cWnd) (hb : w.size ≤ 2 ^ 30) (hlast : w.lastSeq % packetSize = 0)
    (hlast' : w.lastSeq < w.size) (hnext : w.nextSeq % packetSize = 0)
    (hnext' : w.nextSeq < w.size) : ∃ n, Aligned n (w.lastSeq / 1024) (w.nextSeq / 1024) w := by
  simp only [packetSize] at hmul hlast hnext
  obtain ⟨n, rfl⟩ : ∃ n, cWnd = 1024 * n := ⟨cWnd / 1024, by omega⟩
  exact ⟨n, by omega, by omega, by omega, by omega, by omega, by omega, by omega⟩

/-- **Cumulative acknowledgement marks exactly the right slots**: for a number in the cyclic
interval from `last_seq` to `next_seq`, those from the slot of `last_seq` through its own; for any
other number, none. -/
theorem cumulative_ack {w : Cwnd} {seqNum : ℕ} (hpos : 0 < w.cWnd)
    (hmul : w.cWnd % packetSize = 0) (hsize : w.size = 2 * w.cWnd) (hb : w.size ≤ 2 ^ 30)
    (hlast : w.lastSeq % packetSize = 0) (hlast' : w.lastSeq < w.size)
    (hnext : w.nextSeq % packetSize = 0) (hnext' : w.nextSeq < w.size)
    (hlen : w.acks.length = w.size / packetSize) (hs : seqNum < w.size) :
    (Cyclic.Before w.lastSeq w.nextSeq seqNum →
      ∃ acks, cwndSetAllPrevAck w seqNum = { w with acks := acks } ∧
        acks.length = w.acks.length ∧
        ∀ x < w.size / packetSize, acks[x]? =
          if Cyclic.Between (w.lastSeq / packetSize) (seqNum / packetSize) x then some 1
          else w.acks[x]?) ∧
    (¬ Cyclic.Before w.lastSeq w.nextSeq seqNum → cwndSetAllPrevAck w seqNum = w) := by
  obtain ⟨n, h⟩ := exists_aligned hpos hmul hsize hb hlast hlast' hnext hnext'
  simp only [packetSize] at hlen ⊢
  have hdiv : w.size / 1024 = 2 * n := by rw [h.size, Nat.mul_div_cancel_left _ (by decide)]
  have hs' : seqNum < 1024 * (2 * n) := by rwa [← h.size]
  rw [hdiv] at hlen ⊢
  rw [h.before_iff hs']
  constructor
  · intro hin
    refine ⟨_, h.setAllPrevAck_of_mem hlen hs' hin, length_markAcks _ _ _ _, fun x hx => ?_⟩
    simp only [getElem?_markAcks, Cyclic.between_iff h.base (by omega : seqNum / 1024 < 2 * n) hx,
      Nat.lt_succ_iff]
    simp [List.getElem?_eq_getElem (by omega : x < w.acks.length)]
  · exact h.setAllPrevAck_of_not_mem hs'

/-- A window of four slots that straddles the end of its ring of eight. -/
def straddlingWnd : Cwnd := ⟨4096, 8192, true, 6144, 2048, [0, 0, -1, -1, -1, -1, 0, 0], []⟩

/-- The number `1000` lies behind the ring's end and on no packet boundary. -/
theorem cumulative_ack_straddling :
    ∃ acks, cwndSetAllPrevAck straddlingWnd 1000 = { straddlingWnd with acks := acks } ∧
      acks.length = 8 ∧ ∀ x < 8, acks[x]? =
        if Cyclic.Between 6 0 x then some 1 else straddlingWnd.acks[x]? := by
  have hs : 1000 < straddlingWnd.size := by decide
  exact (cumulative_ack (by decide) (by decide) (by decide) (by decide) (by decide) (by decide)
    (by decide) (by decide) (by decide) hs).1 (by decide)

example : (cwndSetAllPrevAck straddlingWnd 1000).acks = [1, 0, -1, -1, -1, -1, 1, 1] := by decide

end Tcp118
