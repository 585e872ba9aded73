import Mathlib.Logic.Relation
import Mathlib.Tactic.Common

/- Transition systems and their runs. A run may be restricted by a guard on the
   state each step starts from; deterministic machines consume a list of inputs
   and are compared step by step. -/
namespace Runs

variable {σ τ ι ο : Type}

/-- The states of all finite runs of step that begin in a start state. -/
inductive Reached (start : σ → Prop) (step : σ → σ → Prop) : σ → Prop where
  | start {s : σ} (begin : start s) : Reached start step s
  | step {s t : σ} (before : Reached start step s) (next : step s t) : Reached start step t

theorem reached_invariant {start : σ → Prop} {step : σ → σ → Prop} (inv : σ → Prop)
    (initial : ∀ s, start s → inv s) (preserved : ∀ s t, inv s → step s t → inv t)
    {s : σ} (run : Reached start step s) : inv s := by
  induction run with
  | start begin => exact initial _ begin
  | step before next ih => exact preserved _ _ ih next

theorem reached_mono {start : σ → Prop} {step step' : σ → σ → Prop}
    (weaker : ∀ s t, step s t → step' s t) {s : σ} (run : Reached start step s) :
    Reached start step' s := by
  induction run with
  | start begin => exact Reached.start begin
  | step before next ih => exact Reached.step ih (weaker _ _ next)

theorem reached_path {start : σ → Prop} {step step' : σ → σ → Prop}
    (weaker : ∀ s t, step' s t → step s t) {s t : σ} (run : Reached start step s)
    (path : Relation.ReflTransGen step' s t) : Reached start step t := by
  induction path with
  | refl => exact run
  | tail before next ih => exact Reached.step ih (weaker _ _ next)

/-- A system whose steps are steps of another one, or none of it, runs within the runs of the
    other. -/
theorem reached_simulated {start : σ → Prop} {step : σ → σ → Prop} {start' : τ → Prop}
    {step' : τ → τ → Prop} (rel : σ → τ → Prop)
    (initial : ∀ s, start s → ∃ t, start' t ∧ rel s t)
    (simulated : ∀ s s' t, rel s t → step s s' →
      rel s' t ∨ ∃ t', step' t t' ∧ rel s' t')
    {s : σ} (run : Reached start step s) : ∃ t, Reached start' step' t ∧ rel s t := by
  induction run with
  | start begin =>
    obtain ⟨t, begin', related⟩ := initial _ begin
    exact ⟨t, Reached.start begin', related⟩
  | step before next ih =>
    obtain ⟨t, run', related⟩ := ih
    rcases simulated _ _ t related next with same | ⟨t', next', related'⟩
    · exact ⟨t, run', same⟩
    · exact ⟨t', Reached.step run' next', related'⟩

theorem reached_events {start : σ → Prop} {next : σ → ι → Option σ} {events : List ι} {s t : σ}
    (before : Reached start (fun s t => ∃ e, next s e = some t) s)
    (run : events.foldlM next s = some t) :
    Reached start (fun s t => ∃ e, next s e = some t) t := by
  induction events generalizing s with
  | nil =>
    cases run
    exact before
  | cons e rest ih =>
    cases one : next s e with
    | none => simp [one] at run
    | some u =>
      apply ih (Reached.step before ⟨e, one⟩)
      simpa [one] using run

def Guarded (guard : σ → Prop) (step : σ → σ → Prop) (s t : σ) : Prop :=
  guard s ∧ step s t

/- Deterministic machines on a list of inputs. -/

/-- Driven by the same inputs, the machines answer alike and stay related. -/
def Lockstep (rel : σ → τ → Prop) (f : σ → ι → ο × σ) (g : τ → ι → ο × τ) :
    σ → τ → List ι → Prop
  | s, t, [] => rel s t
  | s, t, i :: rest => rel s t ∧ (f s i).1 = (g t i).1 ∧ Lockstep rel f g (f s i).2 (g t i).2 rest

theorem lockstep_start {rel : σ → τ → Prop} {f : σ → ι → ο × σ} {g : τ → ι → ο × τ}
    {s : σ} {t : τ} {inputs : List ι} (run : Lockstep rel f g s t inputs) : rel s t := by
  cases inputs with
  | nil => exact run
  | cons i rest => exact run.1

theorem lockstep_of_step {rel : σ → τ → Prop} {f : σ → ι → ο × σ} {g : τ → ι → ο × τ}
    (good : ι → Prop)
    (preserved : ∀ s t i, rel s t → good i →
      (f s i).1 = (g t i).1 ∧ rel (f s i).2 (g t i).2)
    (inputs : List ι) (all_good : ∀ i ∈ inputs, good i) (s : σ) (t : τ) (related : rel s t) :
    Lockstep rel f g s t inputs := by
  induction inputs generalizing s t with
  | nil => exact related
  | cons i rest ih =>
    obtain ⟨same, next⟩ := preserved s t i related (all_good i (by simp))
    exact ⟨related, same, ih (fun j hj => all_good j (by simp [hj])) _ _ next⟩

theorem lockstep_input {rel : σ → τ → Prop} {f : σ → ι → ο × σ} {g : τ → ι → ο × τ}
    {inputs : List ι} {s : σ} {t : τ} (run : Lockstep rel f g s t inputs) {i : ι}
    (member : i ∈ inputs) :
    ∃ s' t', rel s' t' ∧ (f s' i).1 = (g t' i).1 ∧ rel (f s' i).2 (g t' i).2 := by
  induction inputs generalizing s t with
  | nil => simp at member
  | cons j rest ih =>
    obtain ⟨related, same, more⟩ := run
    rcases List.mem_cons.mp member with rfl | later
    · exact ⟨s, t, related, same, lockstep_start more⟩
    · exact ih more later

end Runs
