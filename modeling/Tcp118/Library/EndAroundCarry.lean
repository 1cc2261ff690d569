import Mathlib.Data.List.Induction
import Mathlib.Data.Nat.ModEq
import Mathlib.Algebra.BigOperators.Group.List.Basic
import Mathlib.Tactic.Ring

/-!
# One's-complement sums by end-around carry

Numbers are added in base `B` and the carry out of the low digit is added back into it.  Folding
the carry keeps the residue modulo `B - 1` and keeps a positive number positive; so the sum a
folded accumulator arrives at is the plain sum modulo `B - 1`, where the residue `0` is written
`B - 1` unless every summand is `0`.

* `fold`, `foldDown`: one fold, and folding until the carry is gone;
* `accumulate`: the folded sum of a list;
* `foldDown_eq_top`: the accumulator ends at `B - 1` exactly for a positive multiple of `B - 1`;
* `onesAdd`, `onesSum`, `accumulate_eq_onesSum`: one's-complement addition of digits, and that the
  accumulator computes it.
-/

namespace EndAroundCarry

variable {B : ℕ}

/-- Add the carry of `s` back into its low digit. -/
def fold (B s : ℕ) : ℕ := s % B + s / B

theorem fold_modEq (hB : 0 < B) (s : ℕ) : fold B s ≡ s [MOD B - 1] := by
  obtain ⟨D, rfl⟩ : ∃ D, B = D + 1 := ⟨B - 1, by omega⟩
  have h : s = fold (D + 1) s + D * (s / (D + 1)) := by
    unfold fold
    have := Nat.mod_add_div s (D + 1)
    rw [Nat.add_mul] at this
    omega
  have hmod : fold (D + 1) s + D * (s / (D + 1)) ≡ fold (D + 1) s [MOD D] := by
    simp [Nat.ModEq]
  rw [← h] at hmod
  simpa using hmod.symm

theorem fold_pos {s : ℕ} (hs : 0 < s) : 0 < fold B s := by
  unfold fold
  have h := Nat.mod_add_div s B
  rcases Nat.eq_zero_or_pos (s / B) with h0 | h0
  · rw [h0] at h
    omega
  · omega

@[simp] theorem fold_zero : fold B 0 = 0 := by simp [fold]

/-- A fold shortens every number that has a carry. -/
theorem fold_lt {s : ℕ} (hB : 1 < B) (hs : B ≤ s) : fold B s < s := by
  unfold fold
  have h := Nat.mod_add_div s B
  have hq : 0 < s / B := Nat.div_pos hs (by omega)
  have : 2 * (s / B) ≤ B * (s / B) := Nat.mul_le_mul_right _ hB
  omega

/-- Fold until there is no carry. -/
def foldDown (B s : ℕ) : ℕ :=
  if 1 < B ∧ B ≤ s then foldDown B (fold B s) else s
termination_by s
decreasing_by
  rename_i h
  exact fold_lt h.1 h.2

theorem foldDown_of_lt {s : ℕ} (h : s < B) : foldDown B s = s := by
  rw [foldDown, if_neg (by omega)]

theorem foldDown_of_le {s : ℕ} (hB : 1 < B) (h : B ≤ s) :
    foldDown B s = foldDown B (fold B s) := by
  rw [foldDown, if_pos ⟨hB, h⟩]

theorem foldDown_lt (hB : 1 < B) (s : ℕ) : foldDown B s < B := by
  induction s using Nat.strong_induction_on with
  | _ s ih =>
    rcases Nat.lt_or_ge s B with h | h
    · rwa [foldDown_of_lt h]
    · rw [foldDown_of_le hB h]
      exact ih _ (fold_lt hB h)

theorem foldDown_modEq (hB : 1 < B) (s : ℕ) : foldDown B s ≡ s [MOD B - 1] := by
  induction s using Nat.strong_induction_on with
  | _ s ih =>
    rcases Nat.lt_or_ge s B with h | h
    · rw [foldDown_of_lt h]
    · rw [foldDown_of_le hB h]
      exact (ih _ (fold_lt hB h)).trans (fold_modEq (by omega) s)

theorem foldDown_pos (hB : 1 < B) {s : ℕ} (hs : 0 < s) : 0 < foldDown B s := by
  induction s using Nat.strong_induction_on with
  | _ s ih =>
    rcases Nat.lt_or_ge s B with h | h
    · rwa [foldDown_of_lt h]
    · rw [foldDown_of_le hB h]
      exact ih _ (fold_lt hB h) (fold_pos hs)

/-- The folded sum ends at the top digit exactly for a positive multiple of `B - 1`. -/
theorem foldDown_eq_top (hB : 1 < B) (s : ℕ) :
    foldDown B s = B - 1 ↔ 0 < s ∧ s ≡ 0 [MOD B - 1] := by
  have hlt := foldDown_lt hB s
  have hmod := foldDown_modEq hB s
  constructor
  · intro h
    refine ⟨Nat.pos_of_ne_zero ?_, ?_⟩
    · rintro rfl
      rw [foldDown_of_lt (by omega)] at h
      omega
    · rw [h] at hmod
      exact hmod.symm.trans (by simp [Nat.ModEq])
  · rintro ⟨hs, h0⟩
    have hpos := foldDown_pos hB hs
    have hdvd : B - 1 ∣ foldDown B s := (Nat.modEq_zero_iff_dvd).1 (hmod.trans h0)
    have := Nat.le_of_dvd hpos hdvd
    omega

/-! ### Sums of lists -/

/-- The accumulator that folds the carry after each addition. -/
def accumulate (B : ℕ) (ws : List ℕ) : ℕ := ws.foldl (fun acc w => fold B (acc + w)) 0

@[simp] theorem accumulate_append_singleton (ws : List ℕ) (w : ℕ) :
    accumulate B (ws ++ [w]) = fold B (accumulate B ws + w) := by
  simp [accumulate]

theorem accumulate_modEq (hB : 0 < B) (ws : List ℕ) : accumulate B ws ≡ ws.sum [MOD B - 1] := by
  induction ws using List.reverseRecOn with
  | nil => rfl
  | append_singleton ws w ih =>
    rw [accumulate_append_singleton, List.sum_append, List.sum_singleton]
    exact (fold_modEq hB _).trans (ih.add_right w)

theorem accumulate_pos {ws : List ℕ} (h : 0 < ws.sum) : 0 < accumulate B ws := by
  induction ws using List.reverseRecOn with
  | nil => simp at h
  | append_singleton ws w ih =>
    rw [accumulate_append_singleton]
    rw [List.sum_append, List.sum_singleton] at h
    refine fold_pos ?_
    rcases Nat.eq_zero_or_pos w with rfl | hw
    · exact Nat.add_pos_left (ih (by omega)) 0
    · omega

theorem accumulate_of_sum_eq_zero {ws : List ℕ} (h : ws.sum = 0) : accumulate B ws = 0 := by
  induction ws using List.reverseRecOn with
  | nil => rfl
  | append_singleton ws w ih =>
    rw [List.sum_append, List.sum_singleton] at h
    obtain rfl : w = 0 := by omega
    simp [ih (by omega)]

theorem accumulate_pos_iff (ws : List ℕ) : 0 < accumulate B ws ↔ 0 < ws.sum := by
  refine ⟨fun h => ?_, accumulate_pos⟩
  by_contra h0
  rw [accumulate_of_sum_eq_zero (by omega)] at h
  omega

/-- Two sums whose terms agree except at `j` differ as the terms at `j` do. -/
theorem sum_range_of_agree {f g : ℕ → ℕ} {j n : ℕ} (hj : j < n)
    (h : ∀ k < n, k ≠ j → f k = g k) :
    ((List.range n).map f).sum + g j = ((List.range n).map g).sum + f j := by
  induction n with
  | zero => omega
  | succ n ih =>
    simp only [List.range_succ, List.map_append, List.sum_append, List.map_singleton,
      List.sum_singleton]
    rcases Nat.lt_or_ge j n with hjn | hjn
    · have := ih hjn fun k hk => h k (by omega)
      rw [h n (by omega) (by omega)]
      omega
    · obtain rfl : j = n := by omega
      have hmap : (List.range j).map f = (List.range j).map g := by
        apply List.map_congr_left
        intro k hk
        have hkj := List.mem_range.1 hk
        exact h k (by omega) (by omega)
      rw [hmap]
      omega

/-! ### One's-complement addition -/

/-- The one's-complement sum of two digits: a carry out of the digit is added at its bottom. -/
def onesAdd (B x y : ℕ) : ℕ := if x + y < B then x + y else x + y + 1 - B

/-- The one's-complement sum of a list of digits. -/
def onesSum (B : ℕ) (ws : List ℕ) : ℕ := ws.foldl (onesAdd B) 0

section OnesComplement

variable {x y z : ℕ} {ws : List ℕ}

theorem onesAdd_lt (hx : x < B) (hy : y < B) : onesAdd B x y < B := by
  unfold onesAdd
  split_ifs <;> omega

/-- Two digits below the top one that give the same sum with a third are equal. -/
theorem onesAdd_right_inj (hy : y < B - 1) (hz : z < B - 1) :
    onesAdd B x y = onesAdd B x z ↔ y = z := by
  unfold onesAdd
  split_ifs <;> omega

/-- Folding the sum of two digits adds their carry. -/
theorem fold_add (hx : x < B) (hy : y < B) : fold B (x + y) = onesAdd B x y := by
  unfold fold onesAdd
  split_ifs with h
  · rw [Nat.mod_eq_of_lt h, Nat.div_eq_of_lt h, Nat.add_zero]
  · have hdiv : (x + y) / B = 1 := Nat.div_eq_of_lt_le (by omega) (by omega)
    have hmod := Nat.mod_add_div (x + y) B
    rw [hdiv, Nat.mul_one] at hmod
    omega

theorem foldDown_add (hB : 1 < B) (hx : x < B) (hy : y < B) :
    foldDown B (x + y) = onesAdd B x y := by
  rcases Nat.lt_or_ge (x + y) B with h | h
  · rw [foldDown_of_lt h, onesAdd, if_pos h]
  · rw [foldDown_of_le hB h, fold_add hx hy, foldDown_of_lt (onesAdd_lt hx hy)]

@[simp] theorem onesSum_nil : onesSum B [] = 0 := rfl

@[simp] theorem onesSum_append_singleton (ws : List ℕ) (w : ℕ) :
    onesSum B (ws ++ [w]) = onesAdd B (onesSum B ws) w := by
  simp [onesSum]

theorem onesSum_lt (hB : 0 < B) (h : ∀ w ∈ ws, w < B) : onesSum B ws < B := by
  induction ws using List.reverseRecOn with
  | nil => simpa using hB
  | append_singleton ws w ih =>
    rw [onesSum_append_singleton]
    exact onesAdd_lt (ih fun v hv => h v (by simp [hv])) (h w (by simp))

/-- The accumulator of digits is their one's-complement sum. -/
theorem accumulate_eq_onesSum (hB : 0 < B) (h : ∀ w ∈ ws, w < B) :
    accumulate B ws = onesSum B ws := by
  induction ws using List.reverseRecOn with
  | nil => rfl
  | append_singleton ws w ih =>
    have hws : ∀ v ∈ ws, v < B := fun v hv => h v (by simp [hv])
    rw [accumulate_append_singleton, onesSum_append_singleton, ih hws]
    exact fold_add (onesSum_lt hB hws) (h w (by simp))

theorem onesSum_modEq (hB : 0 < B) (h : ∀ w ∈ ws, w < B) : onesSum B ws ≡ ws.sum [MOD B - 1] := by
  rw [← accumulate_eq_onesSum hB h]
  exact accumulate_modEq hB ws

end OnesComplement

end EndAroundCarry
