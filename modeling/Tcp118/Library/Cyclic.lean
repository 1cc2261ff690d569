import Mathlib.Data.List.Rotate
import Mathlib.Data.Nat.ModEq
import Mathlib.Tactic.Ring

/-!
# Positions on a ring of `N` slots

A ring buffer numbers its slots `0, …, N - 1`; the slot at *position* `p` counted from the slot
`β` is `(β + p) % N`.

* `mod_of_lt_two_mul`: the remainder of a number below `2 * N`;
* `pos_inj`, `exists_pos`: positions below `N` and slots below `N` correspond one to one;
* `countP_pos`: counting over the slots is counting over the positions;
* `countP_of_iff`: the count of what holds exactly in an interval;
* `pos`, `Between`, `Before`: the position of a slot, and the slots from one slot through, or up to,
  another one;
* `mod_eq_iff_of_near`: two numbers less than `N` apart have one remainder only if they are equal.
-/

namespace Cyclic

variable {N : ℕ}

/-- Below `2 * N` a remainder is found by at most one subtraction. -/
theorem mod_of_lt_two_mul {x : ℕ} (h : x < 2 * N) : x % N = if x < N then x else x - N := by
  split_ifs with hx
  · exact Nat.mod_eq_of_lt hx
  · rw [Nat.mod_eq_sub_mod (by omega), Nat.mod_eq_of_lt (by omega)]

/-- The same as a case distinction. -/
theorem mod_cases {x : ℕ} (h : x < 2 * N) : (x < N ∧ x % N = x) ∨ (N ≤ x ∧ x % N = x - N) := by
  rw [mod_of_lt_two_mul h]
  split_ifs <;> omega

theorem pos_inj {β p q : ℕ} (hp : p < N) (hq : q < N) :
    (β + p) % N = (β + q) % N ↔ p = q := by
  constructor
  · intro h
    have h' : p % N = q % N := Nat.ModEq.add_left_cancel' β h
    rwa [Nat.mod_eq_of_lt hp, Nat.mod_eq_of_lt hq] at h'
  · rintro rfl
    rfl

/-- Every slot has a position. -/
theorem exists_pos {β x : ℕ} (hβ : β < N) (hx : x < N) : ∃ p < N, (β + p) % N = x := by
  by_cases h : β ≤ x
  · exact ⟨x - β, by omega, by rw [Nat.add_sub_cancel' h, Nat.mod_eq_of_lt hx]⟩
  · refine ⟨x + N - β, by omega, ?_⟩
    rw [Nat.add_sub_cancel' (by omega), Nat.add_mod_right, Nat.mod_eq_of_lt hx]

/-- Stepping to the next slot steps to the next position. -/
theorem pos_succ (β p : ℕ) : ((β + p) % N + 1) % N = (β + (p + 1)) % N := by
  rw [Nat.mod_add_mod, Nat.add_assoc]

theorem mod_eq_iff_of_near {x y : ℕ} (h₁ : x < y + N) (h₂ : y < x + N) :
    x % N = y % N ↔ x = y := by
  rcases le_total x y with hle | hle
  · obtain ⟨d, rfl⟩ := Nat.exists_eq_add_of_le hle
    have := pos_inj (β := x) (p := 0) (q := d) (N := N) (by omega) (by omega)
    rw [Nat.add_zero] at this
    rw [this]
    omega
  · obtain ⟨d, rfl⟩ := Nat.exists_eq_add_of_le hle
    have := pos_inj (β := y) (p := d) (q := 0) (N := N) (by omega) (by omega)
    rw [Nat.add_zero] at this
    rw [this]
    omega

/-! ### Counting -/

theorem map_pos_perm (β : ℕ) :
    ((List.range N).map fun p => (β + p) % N).Perm (List.range N) := by
  have h : (List.range N).map (fun p => (β + p) % N) = (List.range N).rotate β := by
    apply List.ext_getElem
    · simp
    · intro i h₁ h₂
      simp [List.getElem_rotate, Nat.add_comm β i]
  rw [h]
  exact List.rotate_perm _ _

/-- Counting over the slots is counting over the positions. -/
theorem countP_pos (β : ℕ) (f : ℕ → Bool) :
    (List.range N).countP f = (List.range N).countP fun p => f ((β + p) % N) := by
  rw [← (map_pos_perm β).countP_eq f, List.countP_map]
  rfl

/-- The number of positions below `N` in `[a, b)`. -/
theorem countP_interval (a b : ℕ) :
    (List.range N).countP (fun p => decide (a ≤ p ∧ p < b)) = min b N - a := by
  induction N with
  | zero => simp
  | succ N ih =>
    rw [List.range_succ, List.countP_append, ih, List.countP_singleton]
    by_cases h : a ≤ N ∧ N < b
    · rw [if_pos (by simpa using h)]
      omega
    · rw [if_neg (by simpa using h)]
      omega

/-- Counting what holds exactly in an interval. -/
theorem countP_of_iff {f : ℕ → Bool} {a b : ℕ} (hb : b ≤ N)
    (h : ∀ p < N, f p = true ↔ a ≤ p ∧ p < b) : (List.range N).countP f = b - a := by
  have hcount := countP_interval (N := N) a b
  rw [Nat.min_eq_left hb] at hcount
  rw [← hcount]
  apply List.countP_congr
  intro p hp
  rw [h p (List.mem_range.1 hp), decide_eq_true_iff]

/-! ### Intervals -/

/-- The position of the slot `x`, counted from the slot `β`. -/
def pos (N β x : ℕ) : ℕ := (x + N - β) % N

theorem pos_lt {β x : ℕ} (hN : 0 < N) : pos N β x < N := Nat.mod_lt _ hN

theorem pos_of_le {β x : ℕ} (h : β ≤ x) (hx : x < N) : pos N β x = x - β := by
  rw [pos, show x + N - β = x - β + N by omega, Nat.add_mod_right, Nat.mod_eq_of_lt (by omega)]

theorem pos_of_gt {β x : ℕ} (h : x < β) (hβ : β < N) : pos N β x = x + N - β := by
  rw [pos, Nat.mod_eq_of_lt (by omega)]

/-- The slot at position `p` has position `p`. -/
theorem pos_mod {β p : ℕ} (hβ : β < N) (hp : p < N) : pos N β ((β + p) % N) = p := by
  rcases mod_cases (N := N) (x := β + p) (by omega) with ⟨hlt, hmod⟩ | ⟨hge, hmod⟩
  · rw [hmod, pos_of_le (by omega) hlt]
    omega
  · rw [hmod, pos_of_gt (by omega) hβ]
    omega

/-- The slot of a position, from the slot's own position. -/
theorem mod_pos {β x : ℕ} (hβ : β < N) (hx : x < N) : (β + pos N β x) % N = x := by
  rcases Nat.lt_or_ge x β with h | h
  · rw [pos_of_gt h hβ, show β + (x + N - β) = x + N by omega, Nat.add_mod_right,
      Nat.mod_eq_of_lt hx]
  · rw [pos_of_le h hx, Nat.add_sub_cancel' h, Nat.mod_eq_of_lt hx]

/-- `x` lies in the cyclic interval from `a` through `b`. -/
def Between (a b x : ℕ) : Prop := if a ≤ b then a ≤ x ∧ x ≤ b else a ≤ x ∨ x ≤ b

/-- `x` lies in the cyclic interval from `a` up to `b`, without `b`. -/
def Before (a b x : ℕ) : Prop := if a ≤ b then a ≤ x ∧ x < b else a ≤ x ∨ x < b

instance (a b x : ℕ) : Decidable (Between a b x) :=
  inferInstanceAs (Decidable (if a ≤ b then a ≤ x ∧ x ≤ b else a ≤ x ∨ x ≤ b))

instance (a b x : ℕ) : Decidable (Before a b x) :=
  inferInstanceAs (Decidable (if a ≤ b then a ≤ x ∧ x < b else a ≤ x ∨ x < b))

theorem between_iff {a b x : ℕ} (ha : a < N) (hb : b < N) (hx : x < N) :
    Between a b x ↔ pos N a x ≤ pos N a b := by
  unfold Between
  rcases Nat.lt_or_ge b a with hba | hab
  · rw [if_neg (by omega), pos_of_gt hba ha]
    rcases Nat.lt_or_ge x a with hxa | hax
    · rw [pos_of_gt hxa ha]
      omega
    · rw [pos_of_le hax hx]
      omega
  · rw [if_pos hab, pos_of_le hab hb]
    rcases Nat.lt_or_ge x a with hxa | hax
    · rw [pos_of_gt hxa ha]
      omega
    · rw [pos_of_le hax hx]
      omega

theorem before_iff {a b x : ℕ} (ha : a < N) (hb : b < N) (hx : x < N) :
    Before a b x ↔ pos N a x < pos N a b := by
  unfold Before
  rcases Nat.lt_or_ge b a with hba | hab
  · rw [if_neg (by omega), pos_of_gt hba ha]
    rcases Nat.lt_or_ge x a with hxa | hax
    · rw [pos_of_gt hxa ha]
      omega
    · rw [pos_of_le hax hx]
      omega
  · rw [if_pos hab, pos_of_le hab hb]
    rcases Nat.lt_or_ge x a with hxa | hax
    · rw [pos_of_gt hxa ha]
      omega
    · rw [pos_of_le hax hx]
      omega

end Cyclic
