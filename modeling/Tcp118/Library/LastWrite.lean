import Mathlib.Data.List.Basic

/-!
# The last write wins

A state is changed by a sequence of events, and each event either gives a new value to one
observation of the state or leaves that observation as it was.

* `lastOr`: the value given last, or the initial one;
* `get_foldl`: the observation after a sequence of events is the value given last;
* `map_lastOr`, `lastOr_of_none`: the value given last under a function, and where none is given.
-/

namespace LastWrite

variable {σ ε α β : Type*} {write : ε → Option α}

/-- The value that the last writing event of `es` gives, or `a` if none writes. -/
def lastOr (write : ε → Option α) (es : List ε) (a : α) : α :=
  ((es.filterMap write).getLast?).getD a

@[simp] theorem lastOr_nil (a : α) : lastOr write [] a = a := rfl

@[simp] theorem lastOr_cons (e : ε) (es : List ε) (a : α) :
    lastOr write (e :: es) a = lastOr write es ((write e).getD a) := by
  unfold lastOr
  cases hw : write e with
  | none => simp [hw]
  | some v => simp [hw, List.getLast?_cons]

/-- If each event writes the observation or keeps it, a sequence of events leaves what was written
last. -/
theorem get_foldl {step : σ → ε → σ} {g : σ → α}
    (h : ∀ s e, g (step s e) = (write e).getD (g s)) (es : List ε) (s : σ) :
    g (es.foldl step s) = lastOr write es (g s) := by
  induction es generalizing s with
  | nil => rw [List.foldl_nil, lastOr_nil]
  | cons e es ih => rw [List.foldl_cons, ih, h, lastOr_cons]

theorem map_lastOr (f : α → β) (es : List ε) (a : α) :
    f (lastOr write es a) = lastOr (fun e => (write e).map f) es (f a) := by
  induction es generalizing a with
  | nil => simp
  | cons e es ih =>
    rw [lastOr_cons, lastOr_cons, ih]
    cases write e <;> rfl

/-- An observation that no event writes stays. -/
theorem lastOr_of_none {es : List ε} (h : ∀ e ∈ es, write e = none) (a : α) :
    lastOr write es a = a := by
  unfold lastOr
  rw [List.filterMap_eq_nil_iff.2 h]
  rfl

end LastWrite
