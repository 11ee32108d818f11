import Mathlib.Data.List.Basic
import Mathlib.Data.List.Induction

/-!
# Properties of every state of a run

A run is a list of steps from a first state.  If a step keeps a property exactly when
it meets a condition, then the property holds in every state of a run exactly when
every step of the run meets the condition.
-/

namespace RunInvariant

variable {σ ε : Type} {step : σ → ε → σ} {first : σ} {P : σ → Prop} {Q : σ → ε → Prop}

/-- A property that the steps of a run keep holds in every state of it. -/
theorem forall_states_of_steps (hfirst : P first) {run : List ε}
    (hstep : ∀ (done : List ε) e rest, run = done ++ e :: rest → P (done.foldl step first) →
      P (step (done.foldl step first) e)) :
    ∀ done rest : List ε, run = done ++ rest → P (done.foldl step first) := by
  intro done
  induction done using List.reverseRecOn with
  | nil =>
      intro rest _
      exact hfirst
  | append_singleton done e ih =>
      intro rest hrun
      rw [List.append_assoc] at hrun
      rw [List.foldl_concat]
      exact hstep done e rest hrun (ih _ hrun)

theorem forall_states (hfirst : P first) (hstep : ∀ s e, P s → Q s e → P (step s e))
    {run : List ε} (h : ∀ (done : List ε) e rest, run = done ++ e :: rest →
      Q (done.foldl step first) e) :
    ∀ done rest : List ε, run = done ++ rest → P (done.foldl step first) :=
  forall_states_of_steps hfirst fun done e rest hrun hP =>
    hstep _ e hP (h done e rest hrun)

theorem forall_states_iff (hfirst : P first)
    (hstep : ∀ (done : List ε) e, P (done.foldl step first) →
      (P (step (done.foldl step first) e) ↔ Q (done.foldl step first) e)) (run : List ε) :
    (∀ done rest : List ε, run = done ++ rest → P (done.foldl step first)) ↔
      ∀ (done : List ε) e rest, run = done ++ e :: rest → Q (done.foldl step first) e := by
  constructor
  · intro h done e rest hrun
    have hafter := h (done ++ [e]) rest (by rw [hrun, List.append_assoc]; rfl)
    rw [List.foldl_concat] at hafter
    exact (hstep done e (h done (e :: rest) hrun)).mp hafter
  · intro h
    exact forall_states_of_steps hfirst fun done e rest hrun hP =>
      (hstep done e hP).mpr (h done e rest hrun)

/-- A condition on all steps of a run is one on its first step and on the rest. -/
theorem forall_steps_cons {x : ε} {run : List ε} (hx : Q first x)
    (hrun : ∀ (done : List ε) e rest, run = done ++ e :: rest →
      Q (done.foldl step (step first x)) e) :
    ∀ (done : List ε) e rest, x :: run = done ++ e :: rest → Q (done.foldl step first) e := by
  intro done e rest h
  cases done with
  | nil =>
      cases h
      exact hx
  | cons y done =>
      cases h
      exact hrun done e rest rfl

theorem forall_steps_nil :
    ∀ (done : List ε) e rest, [] = done ++ e :: rest → Q (done.foldl step first) e := by
  intro done e rest h
  simp at h

/-- Steps that meet the condition in every state come first. -/
theorem forall_steps_append {before run : List ε} (hbefore : ∀ e ∈ before, ∀ s, Q s e)
    (hrun : ∀ (done : List ε) e rest, run = done ++ e :: rest →
      Q (done.foldl step (before.foldl step first)) e) :
    ∀ (done : List ε) e rest, before ++ run = done ++ e :: rest → Q (done.foldl step first) e := by
  induction before generalizing first with
  | nil => exact hrun
  | cons x before ih =>
      apply forall_steps_cons (hbefore x List.mem_cons_self first)
      exact ih (fun e he => hbefore e (List.mem_cons_of_mem x he)) hrun

end RunInvariant
