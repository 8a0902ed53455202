/-
# Simulation between two systems

A relation between the states of two systems is a simulation if every step of
the one from related states is matched by steps of the other that lead to
related states and show an observer the same. Then every run of the one is
matched by a run of the other that shows the same (`Simulation.run`), and what
all runs of the other show, those of the one show.

Key theorem: `Simulation.run`.
-/
import ValkeyLdap.Lib.Runs

namespace Runs

variable {σ α τ β γ : Type*} {step : σ → α → Option σ} {step' : τ → β → Option τ}

/-- One step, taken alone. -/
theorem Run.single {s t : σ} {a : α} (h : step s a = some t) : Run step s [(s, a)] t :=
  Run.snoc .refl h

theorem events_single (f : σ → α → Option γ) (s : σ) (a : α) :
    events f [(s, a)] = (f s a).toList :=
  events_snoc f [] s a

/-- `R` is a simulation of the steps that meet `ok`, seen through `f` and `g`. -/
def Simulation (step : σ → α → Option σ) (step' : τ → β → Option τ) (ok : σ → α → Prop)
    (f : σ → α → Option γ) (g : τ → β → Option γ) (R : σ → τ → Prop) : Prop :=
  ∀ s t a s', R s t → ok s a → step s a = some s' →
    ∃ tr t', Run step' t tr t' ∧ R s' t' ∧ events g tr = (f s a).toList

/-- **A run is matched by a run that shows the same.** -/
theorem Simulation.run {ok : σ → α → Prop} {f : σ → α → Option γ} {g : τ → β → Option γ}
    {R : σ → τ → Prop} (hR : Simulation step step' ok f g R) {s s' : σ} {t : τ}
    {tr : List (σ × α)} (h : Run step s tr s') (hok : Steps ok tr) (h0 : R s t) :
    ∃ tr' t', Run step' t tr' t' ∧ R s' t' ∧ events g tr' = events f tr := by
  induction h with
  | refl => exact ⟨[], t, .refl, h0, rfl⟩
  | @snoc tr u u' a _ ha ih =>
    obtain ⟨hok, hoka⟩ := steps_snoc.mp hok
    obtain ⟨tr₁, t₁, hrun₁, h₁, he₁⟩ := ih hok
    obtain ⟨tr₂, t₂, hrun₂, h₂, he₂⟩ := hR u t₁ a u' h₁ hoka ha
    refine ⟨tr₁ ++ tr₂, t₂, hrun₁.trans hrun₂, h₂, ?_⟩
    rw [events_append, he₁, he₂, events_snoc]

end Runs
