import Mathlib.Data.List.Basic

/-!
# Queues with a stale front

A queue that is used for one purpose after another holds what is left from before in front of what
belongs to the present one, and the reader meets it first.

* `StaleFront`: the front has a property, and as long as there is a front, a condition holds;
* `StaleFront.append`, `StaleFront.append_front`, `StaleFront.cons_cases`: writing, and what a
  reader meets;
* `StaleFront.mono`, `StaleFront.of_forall`: changing the condition, and a queue that is stale as a
  whole.
-/

/-- `queue` is `live` behind elements with the property `P`; if there are any, `C` holds. -/
def StaleFront {α : Type*} (P : α → Prop) (C : Prop) (queue live : List α) : Prop :=
  ∃ stale, queue = stale ++ live ∧ (∀ x ∈ stale, P x) ∧ (stale ≠ [] → C)

namespace StaleFront

variable {α : Type*} {P : α → Prop} {C C' : Prop} {queue live : List α} {x : α}

theorem refl (P : α → Prop) (C : Prop) (queue : List α) : StaleFront P C queue queue :=
  ⟨[], rfl, fun _ hx => absurd hx List.not_mem_nil, fun h => absurd rfl h⟩

/-- Nothing in the queue is of the present use. -/
theorem of_forall (hP : ∀ x ∈ queue, P x) (hC : C) : StaleFront P C queue [] :=
  ⟨queue, (List.append_nil queue).symm, hP, fun _ => hC⟩

theorem mono (h : StaleFront P C queue live) (hle : C → C') : StaleFront P C' queue live := by
  obtain ⟨stale, he, hP, hC⟩ := h
  exact ⟨stale, he, hP, fun hne => hle (hC hne)⟩

/-- Writing does not touch the front. -/
theorem append (h : StaleFront P C queue live) (l : List α) :
    StaleFront P C (queue ++ l) (live ++ l) := by
  obtain ⟨stale, rfl, hP, hC⟩ := h
  exact ⟨stale, List.append_assoc stale live l, hP, hC⟩

/-- While nothing is of the present use, more may join the front. -/
theorem append_front {l : List α} (h : StaleFront P C queue []) (hl : ∀ x ∈ l, P x) (hC : C) :
    StaleFront P C (queue ++ l) [] := by
  obtain ⟨stale, rfl, hP, -⟩ := h
  refine of_forall (fun x hx => ?_) hC
  rw [List.append_nil] at hx
  rcases List.mem_append.1 hx with hx | hx
  · exact hP x hx
  · exact hl x hx

/-- A reader meets an element of the front, or the queue has none. -/
theorem cons_cases (h : StaleFront P C (x :: queue) live) :
    (P x ∧ C ∧ StaleFront P C queue live) ∨ live = x :: queue := by
  obtain ⟨stale, he, hP, hC⟩ := h
  cases stale with
  | nil => exact .inr he.symm
  | cons y stale =>
    obtain ⟨rfl, rfl⟩ := List.cons.inj he
    exact .inl ⟨hP x List.mem_cons_self, hC (List.cons_ne_nil _ _), stale, rfl,
      fun z hz => hP z (List.mem_cons_of_mem _ hz), fun _ => hC (List.cons_ne_nil _ _)⟩

end StaleFront
