import Tcp118.Window.Flat
import Tcp118.Window.Capacity

/-!
# The slots that are used

What the functions of `cwnd118.c` use as indices of `cwnd->acks` and `cwnd->packets`.

* `getAckSlots`, `countSlots`, `lastPendingSlots`, `setAllPrevAckSlots`, `addPktSlots`, …: the
  indices a call uses, in order;
* `Allocated`: indices below the number of slots that `cwnd_init` allocates;
* `Whole`: a window whose ring is a whole number `N` of slots.  All functions of `cwnd118.c` keep to
  the allocated slots of such a window;
* `Confined`: between two shifts the packets stay in one part of the ring and do not reach over its
  end.  Filling, acknowledging and shifting keep this if `2 ^ 32 % (2 * c_wnd) < c_wnd`.
-/

namespace Tcp118

/-! ### Indices -/

def getAckSlots (cwnd : Cwnd) (seqNum : ℕ) : List ℤ := [(slotOf cwnd seqNum : ℤ)]

/-- `cwnd_numPendingAcks`, `cwnd_numReceivedAcks` and `cwnd_print`. -/
def countSlots (cwnd : Cwnd) : List ℤ :=
  (List.range (cwndMaxMss cwnd)).flatMap fun i => getAckSlots cwnd (i * packetSize)

/-- The loop of `cwnd_lastPendingAckMss`. -/
def scanSlots (cwnd : Cwnd) : (fuel i : ℕ) → List ℤ
  | 0, _ => []
  | fuel + 1, i =>
    getAckSlots cwnd (i * packetSize) ++
      if cwndGetAck cwnd (i * packetSize) = 1 ∧ i ≠ cwndNextMss cwnd then
        scanSlots cwnd fuel ((i + 1) % cwndMaxMss cwnd)
      else []

def lastPendingSlots (cwnd : Cwnd) : List ℤ :=
  scanSlots cwnd (cwndMaxMss cwnd + 1) (cwndLastMss cwnd)

def setAckSlots (cwnd : Cwnd) (seqNum : ℕ) : List ℤ :=
  if cwndCheckIn cwnd seqNum then [(slotOf cwnd seqNum : ℤ)] else []

/-- The loop of `cwnd_setAllPrevAck`. -/
def setAcksSlots : Cwnd → List ℕ → List ℤ
  | _, [] => []
  | cwnd, i :: rest =>
    setAckSlots cwnd (u32 (i * packetSize)) ++
      setAcksSlots (cwndSetAck cwnd (u32 (i * packetSize))) rest

def setAllPrevAckSlots (cwnd : Cwnd) (seqNum : ℕ) : List ℤ :=
  let seqNum := if seqNum < cwndLastSeq cwnd then u32 (seqNum + cwnd.size) else seqNum
  let nextSeq :=
    if cwnd.nextSeq < cwndLastSeq cwnd then u32 (cwnd.nextSeq + cwnd.size) else cwnd.nextSeq
  if seqNum < nextSeq then
    setAcksSlots cwnd
      (List.range' (cwndLastMss cwnd) (seqNum / packetSize + 1 - cwndLastMss cwnd))
  else []

def addPktSlots (cwnd : Cwnd) : List ℤ :=
  if cwndCheckAdd cwnd then [(cwndNextMss cwnd : ℤ)] else []

def getPktSeqSlots (cwnd : Cwnd) (seq : ℕ) : List ℤ :=
  getAckSlots cwnd seq ++
    if cwndGetAck cwnd seq ≠ 0 then [] else [((seq / packetSize : ℕ) : ℤ)]

/-- Every index lies below `N`. -/
def Allocated (N : ℕ) (slots : List ℤ) : Prop := ∀ i ∈ slots, 0 ≤ i ∧ i < N

section Allocated

variable {N : ℕ}

@[simp] theorem allocated_nil : Allocated N [] := fun _ h => nomatch h

@[simp] theorem allocated_append {l l' : List ℤ} :
    Allocated N (l ++ l') ↔ Allocated N l ∧ Allocated N l' := List.forall_mem_append

@[simp] theorem allocated_singleton {i : ℤ} : Allocated N [i] ↔ 0 ≤ i ∧ i < N :=
  List.forall_mem_singleton

end Allocated

/-! ### Rings of a whole number of slots -/

/-- The ring has `N` slots and nothing behind them. -/
structure Whole (N : ℕ) (w : Cwnd) : Prop where
  pos : 0 < N
  size : w.size = 1024 * N
  next : w.nextSeq < w.size

namespace Whole

variable {N : ℕ} {w : Cwnd}

theorem slotOf_lt (h : Whole N w) (seqNum : ℕ) : slotOf w seqNum < N := by
  have hlt : seqNum % (1024 * N) < 1024 * N := Nat.mod_lt _ (by have := h.pos; omega)
  unfold slotOf
  rw [h.size]
  simp only [packetSize]
  omega

theorem nextMss_lt (h : Whole N w) : cwndNextMss w < N := by
  have hnext := h.next
  rw [h.size] at hnext
  have hdiv : w.nextSeq / packetSize < N := by simp only [packetSize]; omega
  unfold cwndNextMss
  rw [h.size, Nat.mod_eq_of_lt (by omega)]
  exact hdiv

theorem maxMss (h : Whole N w) : cwndMaxMss w = N := maxMss_of_size h.size

theorem getAck (h : Whole N w) (seqNum : ℕ) : Allocated N (getAckSlots w seqNum) := by
  have := h.slotOf_lt seqNum
  unfold getAckSlots
  rw [allocated_singleton]
  omega

theorem count (h : Whole N w) : Allocated N (countSlots w) := by
  intro i hi
  obtain ⟨x, -, hx⟩ := List.mem_flatMap.1 hi
  exact h.getAck _ i hx

theorem scan (h : Whole N w) (fuel : ℕ) : ∀ i, Allocated N (scanSlots w fuel i) := by
  induction fuel with
  | zero => exact fun i => allocated_nil
  | succ fuel ih =>
    intro i
    rw [scanSlots, allocated_append]
    refine ⟨h.getAck _, ?_⟩
    split_ifs
    · exact ih _
    · exact allocated_nil

theorem lastPending (h : Whole N w) : Allocated N (lastPendingSlots w) := h.scan _ _

theorem setAck (h : Whole N w) (seqNum : ℕ) : Whole N (cwndSetAck w seqNum) := by
  unfold cwndSetAck
  split_ifs
  · exact ⟨h.pos, h.size, h.next⟩
  · exact h

theorem setAckSlots (h : Whole N w) (seqNum : ℕ) : Allocated N (setAckSlots w seqNum) := by
  have := h.slotOf_lt seqNum
  unfold Tcp118.setAckSlots
  split_ifs
  · rw [allocated_singleton]
    omega
  · exact allocated_nil

theorem setAcksSlots (slots : List ℕ) :
    ∀ w, Whole N w → Allocated N (setAcksSlots w slots) := by
  induction slots with
  | nil => exact fun w _ => allocated_nil
  | cons i slots ih =>
    intro w h
    rw [Tcp118.setAcksSlots, allocated_append]
    exact ⟨h.setAckSlots _, ih _ (h.setAck _)⟩

theorem setAllPrevAckSlots (h : Whole N w) (seqNum : ℕ) :
    Allocated N (setAllPrevAckSlots w seqNum) := by
  unfold Tcp118.setAllPrevAckSlots
  dsimp only
  generalize (if seqNum < cwndLastSeq w then u32 (seqNum + w.size) else seqNum) = s
  generalize (if w.nextSeq < cwndLastSeq w then u32 (w.nextSeq + w.size) else w.nextSeq) = t
  split_ifs
  · exact setAcksSlots _ w h
  · exact allocated_nil

theorem addPktSlots (h : Whole N w) : Allocated N (addPktSlots w) := by
  have := h.nextMss_lt
  unfold Tcp118.addPktSlots
  split_ifs
  · rw [allocated_singleton]
    omega
  · exact allocated_nil

theorem getPktSeqSlots (h : Whole N w) {seq : ℕ} (hseq : seq < 1024 * N) :
    Allocated N (getPktSeqSlots w seq) := by
  unfold Tcp118.getPktSeqSlots
  rw [allocated_append]
  refine ⟨h.getAck seq, ?_⟩
  split_ifs
  · exact allocated_nil
  · rw [allocated_singleton]
    simp only [packetSize]
    omega

end Whole

/-! ### Windows that stay in one part of the ring -/

/-- The first slot of the second part of a ring of `N` slots. -/
def secondStart (N : ℕ) : ℕ := (N + 1) / 2

/-- `k` packets have been added since the last shift, from the first slot `β` of a part of the ring
on, and they end with that part; nothing is pending elsewhere. -/
structure Confined (N β k : ℕ) (w : Cwnd) : Prop where
  large : 2 ≤ N
  bound : 1024 * N < 2 ^ 31
  small : 2 * (2 ^ 22 % N) < N
  cWnd : w.cWnd = 512 * N
  size : w.size = 1024 * N
  lastSeq : w.lastSeq = 1024 * β
  nextSeq : w.nextSeq = 1024 * ((β + k) % N)
  inside : β = 0 ∧ k ≤ secondStart N ∨ β = secondStart N ∧ β + k ≤ N
  pending : ∀ x, w.acks[x]? = some 0 → β ≤ x ∧ x < β + k

/-- No odd number but `1` divides a power of two. -/
theorem odd_mod_ne_zero {N : ℕ} (hN : 2 ≤ N) (hodd : N % 2 = 1) : 2 ^ 22 % N ≠ 0 := by
  intro h
  obtain ⟨q, rfl⟩ : ∃ q, N = 2 * q + 1 := ⟨N / 2, by omega⟩
  have hcop : Nat.Coprime (2 * q + 1) (2 ^ 22) := Nat.Coprime.pow_right _ (by simp)
  have hone := Nat.Coprime.eq_one_of_dvd hcop (Nat.dvd_of_mod_eq_zero h)
  omega

theorem confined_init {N : ℕ} (hN : 2 ≤ N) (hb : 1024 * N < 2 ^ 31) (hd : 2 * (2 ^ 22 % N) < N)
    (heap : ℕ → Packet) : Confined N 0 0 (cwndInit (512 * N) heap) where
  large := hN
  bound := hb
  small := hd
  cWnd := rfl
  size := by
    simp only [cwndInit]
    unfold u32
    omega
  lastSeq := rfl
  nextSeq := by simp [cwndInit]
  inside := .inl ⟨rfl, Nat.zero_le _⟩
  pending x hx := by
    simp only [cwndInit, List.getElem?_replicate] at hx
    split_ifs at hx
    exact absurd (Option.some.inj hx) (by decide)

namespace Confined

variable {N β k : ℕ} {w : Cwnd}

theorem le_ring (h : Confined N β k w) : β + k ≤ N := by
  have hN := h.large
  have hin := h.inside
  unfold secondStart at hin
  omega

theorem lt_ring (h : Confined N β k w) : β < N := by
  have hN := h.large
  have hin := h.inside
  unfold secondStart at hin
  omega

theorem whole (h : Confined N β k w) : Whole N w where
  pos := by have := h.large; omega
  size := h.size
  next := by
    have hlt : (β + k) % N < N := Nat.mod_lt _ (by have := h.large; omega)
    rw [h.nextSeq, h.size]
    omega

/-- The window is full exactly when it ends with its part of the ring. -/
theorem checkAdd_iff (h : Confined N β k w) :
    cwndCheckAdd w = true ↔ if β = 0 then k < secondStart N else β + k < N := by
  have hN := h.large
  have hb := h.bound
  have hd := h.small
  have hin := h.inside
  have hle := h.le_ring
  have hdist : u32Sub w.nextSeq w.lastSeq % w.size =
      1024 * if β + k < N then k else (2 ^ 22 + k) % N := by
    rw [h.nextSeq, h.lastSeq, h.size]
    rcases Nat.lt_or_ge (β + k) N with hlt | hge
    · rw [Nat.mod_eq_of_lt hlt, if_pos hlt, u32Sub_of_le (by omega) (by omega),
        Nat.mod_eq_of_lt (by omega)]
      omega
    · obtain rfl : N = β + k := by omega
      have hβ := h.lt_ring
      unfold secondStart at hin
      rw [Nat.mod_self, if_neg (by omega), Nat.mul_zero, u32Sub_of_lt (by omega) (by omega),
        ← Nat.add_mod_right (0 + 2 ^ 32 - 1024 * β), show 0 + 2 ^ 32 - 1024 * β + 1024 * (β + k) =
          1024 * (2 ^ 22 + k) by omega, Nat.mul_mod_mul_left]
  have hmod : ∀ k < N, (2 ^ 22 + k) % N = (2 ^ 22 % N + k) % N := fun k _ => by
    rw [Nat.mod_add_mod]
  unfold cwndCheckAdd
  rw [hdist, h.cWnd]
  simp only [Bool.not_eq_true', decide_eq_false_iff_not, not_le]
  unfold secondStart at hin ⊢
  rcases hin with ⟨rfl, hk⟩ | ⟨rfl, hk⟩
  · rw [if_pos (by omega), if_pos rfl]
    omega
  · rw [if_neg (by omega : ¬ (N + 1) / 2 = 0)]
    rcases Nat.lt_or_ge ((N + 1) / 2 + k) N with hlt | hge
    · rw [if_pos hlt]
      omega
    · -- `next_seq` has wrapped to `0`
      have hodd := odd_mod_ne_zero hN
      rw [if_neg (by omega), hmod k (by omega), Nat.mod_eq_of_lt (by omega)]
      omega

theorem addPkt (h : Confined N β k w) (hadd : cwndCheckAdd w = true) (buf : Packet) :
    Confined N β (k + 1) (cwndAddPkt w buf).1 := by
  have hN := h.large
  have hb := h.bound
  have hlt : β + k < N := by
    have hroom := h.checkAdd_iff.1 hadd
    have hin := h.inside
    unfold secondStart at hroom hin
    split_ifs at hroom <;> omega
  have hnext : cwndNextMss w = β + k :=
    nextMss_of_nextSeq (by rw [h.nextSeq, Nat.mod_eq_of_lt hlt]) (by rw [h.size]; omega)
  have hroom := h.checkAdd_iff.1 hadd
  unfold cwndAddPkt
  rw [if_pos hadd]
  refine ⟨hN, hb, h.small, h.cWnd, h.size, h.lastSeq, ?_, ?_, ?_⟩
  · simp only [cwndStart]
    rw [h.nextSeq, h.size, Nat.mod_eq_of_lt hlt]
    simp only [packetSize]
    rw [u32_of_lt (by omega), show 1024 * (β + k) + 1024 = 1024 * (β + (k + 1)) by omega,
      Nat.mul_mod_mul_left]
  · rcases h.inside with ⟨hβ, hk⟩ | ⟨hβ, hk⟩
    · rw [if_pos hβ] at hroom
      exact .inl ⟨hβ, hroom⟩
    · exact .inr ⟨hβ, hlt⟩
  · intro x hx
    simp only [cwndStart] at hx
    rw [List.getElem?_set, hnext] at hx
    split_ifs at hx with hkx
    · omega
    · have := h.pending x hx
      omega

theorem setAck (h : Confined N β k w) (seqNum : ℕ) : Confined N β k (cwndSetAck w seqNum) := by
  unfold cwndSetAck
  split_ifs
  · refine ⟨h.large, h.bound, h.small, h.cWnd, h.size, h.lastSeq, h.nextSeq, h.inside,
      fun x hx => ?_⟩
    dsimp only at hx
    rw [List.getElem?_set] at hx
    split_ifs at hx
    · exact absurd (Option.some.inj hx) (by decide)
    · exact h.pending x hx
  · exact h

theorem setAcks (h : Confined N β k w) (start count : ℕ) :
    Confined N β k (setAcks w start count) := by
  unfold Tcp118.setAcks
  induction List.range' start count generalizing w with
  | nil => exact h
  | cons i slots ih => exact ih (h.setAck _)

theorem setAllPrevAck (h : Confined N β k w) (seqNum : ℕ) :
    Confined N β k (cwndSetAllPrevAck w seqNum) := by
  unfold cwndSetAllPrevAck
  dsimp only
  generalize (if seqNum < cwndLastSeq w then u32 (seqNum + w.size) else seqNum) = s
  generalize (if w.nextSeq < cwndLastSeq w then u32 (w.nextSeq + w.size) else w.nextSeq) = t
  split_ifs
  · exact h.setAcks _ _
  · exact h

/-- A full window is shifted to the other part of the ring. -/
theorem shiftWnd (h : Confined N β k w) (hfull : cwndCheckAdd w = false) :
    Confined N ((β + k) % N) 0 (cwndShiftWnd w) := by
  have hN := h.large
  have hle := h.le_ring
  have hin := h.inside
  have hroom := h.checkAdd_iff.not.1 (by rw [hfull]; decide)
  refine ⟨hN, h.bound, h.small, h.cWnd, h.size, h.nextSeq, ?_, ?_, fun x hx => ?_⟩
  · rw [Nat.add_zero, Nat.mod_mod]
    exact h.nextSeq
  · unfold secondStart at hin hroom ⊢
    rcases Nat.lt_or_ge (β + k) N with hlt | hge
    · rw [Nat.mod_eq_of_lt hlt]
      split_ifs at hroom <;> omega
    · rw [show β + k = N by omega, Nat.mod_self]
      omega
  · simp only [cwndShiftWnd, cwndResetAck, List.getElem?_replicate] at hx
    split_ifs at hx
    exact absurd (Option.some.inj hx) (by decide)

end Confined

end Tcp118
