import Mathlib.Logic.Relation

/-!
# Step systems, invariants and simulations

A step system is a set of initial states and a step relation.

* `Reaches`, `Reachable`: runs, and the states a run from an initial state arrives at;
* `Reachable.invariant`: what holds initially and is kept by every step of a reachable state
  holds of every reachable state;
* `ofEvents`: the step system of a partial step function whose events decide the
  nondeterminism, with a condition on the events a run may take;
* `Simulation`: a relation under which every step of one system is matched by a run of another,
  where the abstract state may be assumed reachable.
-/

/-- Initial states and steps. -/
structure StepSystem (σ : Type*) where
  init : σ → Prop
  step : σ → σ → Prop

namespace StepSystem

variable {σ τ ε : Type*}

/-- `t` can be reached from `s` in finitely many steps. -/
def Reaches (M : StepSystem σ) : σ → σ → Prop := Relation.ReflTransGen M.step

/-- `s` is reached by a run from an initial state. -/
def Reachable (M : StepSystem σ) (s : σ) : Prop := ∃ s₀, M.init s₀ ∧ M.Reaches s₀ s

section Runs

variable {M : StepSystem σ} {s t u : σ}

theorem Reaches.refl (s : σ) : M.Reaches s s := Relation.ReflTransGen.refl

theorem Reaches.single (h : M.step s t) : M.Reaches s t := Relation.ReflTransGen.single h

theorem Reaches.trans (h : M.Reaches s t) (h' : M.Reaches t u) : M.Reaches s u :=
  Relation.ReflTransGen.trans h h'

theorem Reachable.of_init (h : M.init s) : M.Reachable s := ⟨s, h, Reaches.refl s⟩

theorem Reachable.trans (h : M.Reachable s) (h' : M.Reaches s t) : M.Reachable t := by
  obtain ⟨s₀, h₀, hs⟩ := h
  exact ⟨s₀, h₀, hs.trans h'⟩

theorem Reachable.tail (h : M.Reachable s) (h' : M.step s t) : M.Reachable t :=
  h.trans (Reaches.single h')

/-- What every step from a reachable state keeps, every run from a reachable state keeps. -/
theorem Reaches.invariant {I : σ → Prop} (h : M.Reaches s t) (hr : M.Reachable s) (hs : I s)
    (hstep : ∀ a b, M.Reachable a → I a → M.step a b → I b) : I t := by
  have both : M.Reachable t ∧ I t := by
    induction h with
    | refl => exact ⟨hr, hs⟩
    | tail _ hab ih => exact ⟨ih.1.tail hab, hstep _ _ ih.1 ih.2 hab⟩
  exact both.2

/-- The induction rule of invariants. -/
theorem Reachable.invariant {I : σ → Prop} (h : M.Reachable s) (h₀ : ∀ a, M.init a → I a)
    (hstep : ∀ a b, M.Reachable a → I a → M.step a b → I b) : I s := by
  obtain ⟨s₀, hi, hr⟩ := h
  exact hr.invariant (Reachable.of_init hi) (h₀ s₀ hi) hstep

end Runs

/-! ### Systems driven by events -/

/-- The system whose step takes an allowed event and the state the step function gives for it. -/
def ofEvents (init : σ → Prop) (next : ε → σ → Option σ) (allowed : ε → σ → Prop) :
    StepSystem σ where
  init := init
  step s t := ∃ e, allowed e s ∧ next e s = some t

variable {init : σ → Prop} {next : ε → σ → Option σ} {allowed allowed' : ε → σ → Prop}

theorem Reaches.mono_allowed (hle : ∀ e s, allowed e s → allowed' e s) {s t : σ}
    (h : (ofEvents init next allowed).Reaches s t) :
    (ofEvents init next allowed').Reaches s t := by
  have hmono : ∀ a b, (ofEvents init next allowed).step a b →
      (ofEvents init next allowed').step a b := by
    rintro a b ⟨e, he, hab⟩
    exact ⟨e, hle e a he, hab⟩
  exact Relation.ReflTransGen.mono hmono _ _ h

theorem Reachable.mono_allowed (hle : ∀ e s, allowed e s → allowed' e s) {s : σ}
    (h : (ofEvents init next allowed).Reachable s) :
    (ofEvents init next allowed').Reachable s := by
  obtain ⟨s₀, hi, hr⟩ := h
  exact ⟨s₀, hi, hr.mono_allowed hle⟩

/-! ### Simulations -/

/-- `C` refines `A`: each step of `C` is matched by a run of `A` between related states. -/
structure Simulation (C : StepSystem σ) (A : StepSystem τ) where
  rel : σ → τ → Prop
  init : ∀ c, C.init c → ∃ a, A.init a ∧ rel c a
  step : ∀ c c' a, A.Reachable a → rel c a → C.step c c' → ∃ a', A.Reaches a a' ∧ rel c' a'

namespace Simulation

variable {C : StepSystem σ} {A : StepSystem τ} (S : Simulation C A) {c c' : σ} {a : τ}

/-- Every run of the concrete system is matched by a run of the abstract one. -/
theorem reaches (ha : A.Reachable a) (hr : S.rel c a) (h : C.Reaches c c') :
    ∃ a', A.Reaches a a' ∧ S.rel c' a' := by
  induction h with
  | refl => exact ⟨a, Reaches.refl a, hr⟩
  | tail _ hstep ih =>
    obtain ⟨b, hb, hrel⟩ := ih
    obtain ⟨b', hb', hrel'⟩ := S.step _ _ b (ha.trans hb) hrel hstep
    exact ⟨b', hb.trans hb', hrel'⟩

/-- Every reachable concrete state is related to a reachable abstract one. -/
theorem reachable (h : C.Reachable c) : ∃ a, A.Reachable a ∧ S.rel c a := by
  obtain ⟨c₀, hi, hr⟩ := h
  obtain ⟨a₀, hia, hrel⟩ := S.init c₀ hi
  obtain ⟨a, ha, hrel'⟩ := S.reaches (Reachable.of_init hia) hrel hr
  exact ⟨a, (Reachable.of_init hia).trans ha, hrel'⟩

end Simulation

end StepSystem
