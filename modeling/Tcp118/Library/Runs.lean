import Tcp118.Library.StepSystem
import Mathlib.Data.Prod.Lex

/-!
# Parts of runs, and runs carried over to another system

* `within`: the steps between states with a property;
* `Reaches.within_of_final`: a run to a state with a property that steps do not bring about;
* `Reaches.exists_exit`: a run that comes to leave a property has a first step that leaves it;
* `Reaches.keeps`: what every step keeps, a run keeps, without an initial state;
* `Reaches.carry`: a relation under which each step of one system can be matched by a run of
  another carries runs over;
* `Reaches.carry_until`: it is enough to match the steps up to the first state with a property;
* `Inevitable`, `Inevitable.bind`, `inevitable_of_work`: what every run comes to, one thing after
  another, and the rule of termination;
* `Rank`: measures for that rule;
* `not_inevitable`: what can be put off for ever.
-/

namespace StepSystem

variable {σ τ : Type*} {M : StepSystem σ} {N : StepSystem τ} {s t : σ}

/-- The steps of `M` between states with the property `P`. -/
def within (M : StepSystem σ) (P : σ → Prop) : StepSystem σ where
  init := M.init
  step a b := P a ∧ M.step a b ∧ P b

theorem Reaches.of_within {P : σ → Prop} (h : (M.within P).Reaches s t) : M.Reaches s t := by
  induction h with
  | refl => exact .refl s
  | tail _ hab ih => exact ih.trans (.single hab.2.1)

/-- A property that no step brings about holds all along a run at whose end it holds. -/
theorem Reaches.within_of_final {P : σ → Prop} (h : M.Reaches s t) (ht : P t)
    (hback : ∀ a b, M.step a b → P b → P a) : (M.within P).Reaches s t := by
  have both : (M.within P).Reaches s t ∧ P s := by
    induction h using Relation.ReflTransGen.head_induction_on with
    | refl => exact ⟨.refl t, ht⟩
    | head hab _ ih =>
      obtain ⟨hreach, hb⟩ := ih
      have ha := hback _ _ hab hb
      exact ⟨.trans (.single ⟨ha, hab, hb⟩) hreach, ha⟩
  exact both.1

/-- The first step of a run that leaves `P`. -/
theorem Reaches.exists_exit {P : σ → Prop} (h : M.Reaches s t) (hs : P s) (ht : ¬ P t) :
    ∃ a b, (M.within P).Reaches s a ∧ P a ∧ M.step a b ∧ ¬ P b := by
  have both : ((M.within P).Reaches s t ∧ P t) ∨
      ∃ a b, (M.within P).Reaches s a ∧ P a ∧ M.step a b ∧ ¬ P b := by
    clear ht
    induction h with
    | refl => exact .inl ⟨.refl s, hs⟩
    | @tail b c _ hbc ih =>
      rcases ih with ⟨hreach, hb⟩ | hexit
      · by_cases hc : P c
        · exact .inl ⟨hreach.trans (.single ⟨hb, hbc, hc⟩), hc⟩
        · exact .inr ⟨b, c, hreach, hb, hbc, hc⟩
      · exact .inr hexit
  rcases both with ⟨-, ht'⟩ | hexit
  · exact absurd ht' ht
  · exact hexit

/-- What every step keeps, every run keeps. -/
theorem Reaches.keeps {I : σ → Prop} (h : M.Reaches s t) (hs : I s)
    (hstep : ∀ a b, I a → M.step a b → I b) : I t := by
  induction h with
  | refl => exact hs
  | tail _ hab ih => exact hstep _ _ ih hab

/-- Runs are carried over along a relation. -/
theorem Reaches.carry {R : σ → τ → Prop} {c : τ} (h : M.Reaches s t) (hs : R s c)
    (hstep : ∀ a b c, R a c → M.step a b → ∃ d, N.Reaches c d ∧ R b d) :
    ∃ d, N.Reaches c d ∧ R t d := by
  induction h with
  | refl => exact ⟨c, .refl c, hs⟩
  | tail _ hab ih =>
    obtain ⟨d, hcd, hd⟩ := ih
    obtain ⟨d', hdd', hd'⟩ := hstep _ _ d hd hab
    exact ⟨d', hcd.trans hdd', hd'⟩

/-- A run to a state with the property `P` is carried over to the first such state. -/
theorem Reaches.carry_until {P : σ → Prop} {R : σ → τ → Prop} {c : τ} (h : M.Reaches s t)
    (ht : P t) (hs : R s c)
    (hstep : ∀ a b c, ¬ P a → R a c → M.step a b → ∃ d, N.Reaches c d ∧ R b d) :
    ∃ b d, N.Reaches c d ∧ R b d ∧ P b := by
  by_cases hP : P s
  · exact ⟨s, c, .refl c, hs, hP⟩
  obtain ⟨a, b, hreach, ha, hab, hb⟩ := h.exists_exit (P := fun a => ¬ P a) hP (not_not_intro ht)
  obtain ⟨d, hcd, hd⟩ := hreach.carry hs fun a b c hac hab' => hstep a b c hab'.1 hac hab'.2.1
  obtain ⟨d', hdd', hd'⟩ := hstep a b d ha hd hab
  exact ⟨b, d', hcd.trans hdd', hd', Classical.not_not.1 hb⟩

/-- Whatever happens, a state with the property `P` is reached: no run stops before it, and none
goes on for ever without it. -/
inductive Inevitable (M : StepSystem σ) (P : σ → Prop) : σ → Prop
  | now {s : σ} : P s → Inevitable M P s
  | later {s : σ} : (∃ t, M.step s t) → (∀ t, M.step s t → Inevitable M P t) → Inevitable M P s

/-- What is inevitable is reached. -/
theorem Inevitable.exists_reaches {P : σ → Prop} (h : M.Inevitable P s) :
    ∃ t, M.Reaches s t ∧ P t := by
  induction h with
  | now hP => exact ⟨_, .refl _, hP⟩
  | later hsome _ ih =>
    obtain ⟨t, hst⟩ := hsome
    obtain ⟨u, htu, hu⟩ := ih t hst
    exact ⟨u, .trans (.single hst) htu, hu⟩

/-- One thing after another. -/
theorem Inevitable.bind {P Q : σ → Prop} (h : M.Inevitable P s)
    (hnext : ∀ t, M.Reaches s t → P t → M.Inevitable Q t) : M.Inevitable Q s := by
  induction h with
  | now hP => exact hnext _ (.refl _) hP
  | later hsome _ ih =>
    exact .later hsome fun t hst => ih t hst fun u htu hu => hnext u (.trans (.single hst) htu) hu

/-- The rule of termination: `I s w` says that `s` has the work `w` before it. -/
theorem inevitable_of_work {ω : Type*} [Preorder ω] [WellFoundedLT ω] {P : σ → Prop}
    {I : σ → ω → Prop} {w : ω} (h : I s w) (hnext : ∀ a w, I a w → ∃ b, M.step a b)
    (hstep : ∀ a b w, I a w → M.step a b → P b ∨ ∃ w' < w, I b w') : M.Inevitable P s := by
  induction w using WellFoundedLT.induction generalizing s with
  | ind w ih =>
    refine .later (hnext s w h) fun t hst => ?_
    rcases hstep s t w h hst with hP | ⟨w', hlt, ht⟩
    · exact .now hP
    · exact ih w' hlt ht

/-- Measures of work in stages: ranks are compared at the first place at which they differ. -/
abbrev Rank := ℕ ×ₗ ℕ ×ₗ ℕ ×ₗ ℕ

def rank (s x y z : ℕ) : Rank := toLex (s, toLex (x, toLex (y, z)))

theorem rank_lt_iff {s x y z s' x' y' z' : ℕ} : rank s x y z < rank s' x' y' z' ↔
    s < s' ∨ s = s' ∧ (x < x' ∨ x = x' ∧ (y < y' ∨ y = y' ∧ z < z')) := by
  simp only [rank, Prod.Lex.toLex_lt_toLex]

/-- What can be put off for ever is not inevitable: from every state with `X`, none of which has
`P`, some step leads to one with `X`. -/
theorem not_inevitable {P X : σ → Prop} (hs : X s)
    (hstep : ∀ a, X a → ¬ P a ∧ ∃ b, M.step a b ∧ X b) : ¬ M.Inevitable P s := by
  intro h
  induction h with
  | now hP => exact (hstep _ hs).1 hP
  | later _ _ ih =>
    obtain ⟨t, hst, ht⟩ := (hstep _ hs).2
    exact ih t hst ht

end StepSystem
