/-
# Endless runs of a partial step function

What a system has to do in the end is said of its endless runs: at each moment
it is in a state, and takes a step or rests (`Endless`). That a thread or a
task is not passed by for ever is weak fairness (`WeakFair`), a condition on
the run and no part of the step function.

A state that lasts until a fair step is taken sees that step
(`WeakFair.taken`), and what only a lower measure can put off comes about
(`eventually_of_measure`). The rules for finite runs carry over, since each
moment ends a finite run (`Endless.upTo`), and a finite run is an endless one
that rests at its end (`endless_exec`).

Key theorems: `Endless.upTo`, `Endless.invariant`, `WeakFair.taken`,
`WeakFair.lowers`, `eventually_of_measure`, `eventually_forall_lt`,
`endless_exec`.
-/
import Mathlib.Data.Nat.Init
import Mathlib.Order.MinMax
import ValkeyLdap.Lib.Runs

namespace Runs

variable {σ α : Type*} {step : σ → α → Option σ} {run : ℕ → σ} {act : ℕ → Option α}

/-- An endless run: its states, and the steps between them. -/
structure Endless (step : σ → α → Option σ) (run : ℕ → σ) (act : ℕ → Option α) : Prop where
  next : ∀ n a, act n = some a → step (run n) a = some (run (n + 1))
  rest : ∀ n, act n = none → run (n + 1) = run n

/-- Every step of the endless run meets `ok`. -/
def Always (ok : σ → α → Prop) (run : ℕ → σ) (act : ℕ → Option α) : Prop :=
  ∀ n a, act n = some a → ok (run n) a

/-- What is `ready` from some moment on is `taken` at some later moment. -/
def WeakFair (ready : σ → Prop) (taken : σ → α → Prop) (run : ℕ → σ) (act : ℕ → Option α) : Prop :=
  ∀ n, (∀ m, n ≤ m → ready (run m)) → ∃ m a, n ≤ m ∧ act m = some a ∧ taken (run m) a

/-- Each moment ends a finite run, of the steps taken until then. -/
theorem Endless.upTo (h : Endless step run act) (n : ℕ) :
    ∃ tr, Run step (run 0) tr (run n) ∧ ∀ x ∈ tr, ∃ m, act m = some x.2 ∧ x.1 = run m := by
  induction n with
  | zero => exact ⟨[], .refl, fun x hx => by cases hx⟩
  | succ n ih =>
    obtain ⟨tr, hrun, hsteps⟩ := ih
    cases ha : act n with
    | none => exact ⟨tr, h.rest n ha ▸ hrun, hsteps⟩
    | some a =>
      refine ⟨tr ++ [(run n, a)], hrun.snoc (h.next n a ha), fun x hx => ?_⟩
      rcases List.mem_append.mp hx with hx | hx
      · exact hsteps x hx
      · obtain rfl := List.mem_singleton.mp hx
        exact ⟨n, ha, rfl⟩

/-- The finite runs of an endless one whose steps all meet `ok`. -/
theorem Endless.upTo_steps {ok : σ → α → Prop} (h : Endless step run act) (hok : Always ok run act)
    (n : ℕ) : ∃ tr, Run step (run 0) tr (run n) ∧ Steps ok tr := by
  obtain ⟨tr, hrun, hsteps⟩ := h.upTo n
  refine ⟨tr, hrun, fun x hx => ?_⟩
  obtain ⟨m, ha, hx⟩ := hsteps x hx
  rw [hx]
  exact hok m _ ha

/-- **Invariant rule.** What holds at some moment and is kept by the steps from
there on holds at every later moment. -/
theorem Endless.invariant {I : σ → Prop} (h : Endless step run act) {n : ℕ} (h0 : I (run n))
    (hstep : ∀ m a, n ≤ m → I (run m) → act m = some a → I (run (m + 1))) {m : ℕ} (hm : n ≤ m) :
    I (run m) := by
  induction m, hm using Nat.le_induction with
  | base => exact h0
  | succ m hm ih =>
    cases ha : act m with
    | none => rw [h.rest m ha]; exact ih
    | some a => exact hstep m a hm ih ha

/-- A state that is ready, and stays so while no such step is taken, sees one. -/
theorem WeakFair.taken {ready : σ → Prop} {taken : σ → α → Prop} (hfair : WeakFair ready taken run act)
    (h : Endless step run act) {I : σ → Prop} {n : ℕ} (h0 : I (run n))
    (hready : ∀ s, I s → ready s)
    (hstep : ∀ m a, n ≤ m → I (run m) → act m = some a → ¬ taken (run m) a → I (run (m + 1))) :
    ∃ m a, n ≤ m ∧ I (run m) ∧ act m = some a ∧ taken (run m) a := by
  by_contra hnever
  have hlasts (m : ℕ) (hm : n ≤ m) : I (run m) := h.invariant h0
    (fun m a hm hi ha => hstep m a hm hi ha fun ht => hnever ⟨m, a, hm, hi, ha, ht⟩) hm
  obtain ⟨m, a, hm, ha, ht⟩ := hfair n fun m hm => hready _ (hlasts m hm)
  exact hnever ⟨m, a, hm, hlasts m hm, ha, ht⟩

/-- **Measure rule.** What fails only until a measure gets lower comes about. -/
theorem eventually_of_measure {Q : ℕ → Prop} (f : ℕ → ℕ) {n : ℕ}
    (h : ∀ m, n ≤ m → ¬ Q m → ∃ k, m ≤ k ∧ f k < f m) : ∃ m, n ≤ m ∧ Q m := by
  induction hf : f n using Nat.strongRecOn generalizing n with
  | ind r ih =>
    by_cases hq : Q n
    · exact ⟨n, le_refl n, hq⟩
    · obtain ⟨k, hk, hlt⟩ := h n (le_refl n) hq
      obtain ⟨m, hm, hq⟩ := ih (f k) (hf ▸ hlt) (fun m hm => h m (hk.trans hm)) rfl
      exact ⟨m, hk.trans hm, hq⟩

/-- A measure that no step raises gets lower, if what lowers it stays ready as
long as it does not. -/
theorem WeakFair.lowers {ready : σ → Prop} {taken : σ → α → Prop}
    (hfair : WeakFair ready taken run act) (f : ℕ → ℕ) {n : ℕ}
    (hle : ∀ m, n ≤ m → f (m + 1) ≤ f m) (hready : ∀ m, n ≤ m → f m = f n → ready (run m))
    (hlower : ∀ m a, n ≤ m → f m = f n → act m = some a → taken (run m) a → f (m + 1) < f m) :
    ∃ m, n ≤ m ∧ f m < f n := by
  have hbelow (m : ℕ) (hm : n ≤ m) : f m ≤ f n := by
    induction m, hm using Nat.le_induction with
    | base => exact le_refl _
    | succ m hm ih => exact (hle m hm).trans ih
  by_contra hnever
  have hsame (m : ℕ) (hm : n ≤ m) : f m = f n :=
    le_antisymm (hbelow m hm) (not_lt.mp fun hlt => hnever ⟨m, hm, hlt⟩)
  obtain ⟨m, a, hm, ha, ht⟩ := hfair n fun m hm => hready m hm (hsame m hm)
  exact hnever ⟨m + 1, Nat.le_succ_of_le hm, (hlower m a hm (hsame m hm) ha ht).trans_eq (hsame m hm)⟩

/-- What finitely many come to for good, they are at together. -/
theorem eventually_forall_lt {P : ℕ → ℕ → Prop} {n : ℕ} (k : ℕ)
    (h : ∀ i < k, ∃ m, n ≤ m ∧ ∀ l, m ≤ l → P i l) : ∃ m, n ≤ m ∧ ∀ i < k, ∀ l, m ≤ l → P i l := by
  induction k with
  | zero => exact ⟨n, le_refl n, fun i hi => absurd hi (Nat.not_lt_zero i)⟩
  | succ k ih =>
    obtain ⟨m, hm, hall⟩ := ih fun i hi => h i (Nat.lt_succ_of_lt hi)
    obtain ⟨m', hm', hlast⟩ := h k (Nat.lt_succ_self k)
    refine ⟨max m m', hm.trans (le_max_left m m'), fun i hi l hl => ?_⟩
    rcases Nat.lt_succ_iff_lt_or_eq.mp hi with hi | rfl
    · exact hall i hi l ((le_max_left m m').trans hl)
    · exact hlast l ((le_max_right m m').trans hl)

/-! ### A run that rests at its end -/

/-- The state after the first `n` labels. -/
def states (step : σ → α → Option σ) (s : σ) (as : List α) (n : ℕ) : σ :=
  (exec step s (as.take n)).getD s

theorem exec_append (s : σ) (as bs : List α) :
    exec step s (as ++ bs) = (exec step s as).bind fun t => exec step t bs := by
  induction as generalizing s with
  | nil => rfl
  | cons a as ih =>
    rw [List.cons_append, exec, exec, Option.bind_assoc]
    exact congrArg _ (funext ih)

theorem exec_take {s t : σ} {as : List α} (h : exec step s as = some t) (n : ℕ) :
    exec step s (as.take n) = some (states step s as n) := by
  rw [← List.take_append_drop n as, exec_append] at h
  obtain ⟨u, hu, -⟩ := Option.bind_eq_some_iff.mp h
  rw [states, hu, Option.getD_some]

/-- The steps are those of the finite run. -/
theorem mem_trace_of_getElem? {s t : σ} {as : List α} (h : exec step s as = some t) {n : ℕ} {a : α}
    (ha : as[n]? = some a) : (states step s as n, a) ∈ trace step s as := by
  induction as generalizing s n with
  | nil => cases ha
  | cons b as ih =>
    obtain ⟨u, hu, hexec⟩ := Option.bind_eq_some_iff.mp h
    have htrace : trace step s (b :: as) = (s, b) :: trace step u as := by simp [trace, hu]
    cases n with
    | zero =>
      obtain rfl := Option.some.inj ha
      exact List.mem_cons_self
    | succ n =>
      have hstate : states step s (b :: as) (n + 1) = states step u as n := by
        have htake := exec_take h (n + 1)
        rw [List.take_succ_cons, exec, hu, Option.bind_some, exec_take hexec] at htake
        exact (Option.some.inj htake).symm
      rw [hstate, htrace]
      exact List.mem_cons_of_mem _ (ih hexec ha)

/-- A finite run, continued by rest. -/
theorem endless_exec {s t : σ} {as : List α} (h : exec step s as = some t) :
    Endless step (states step s as) (fun n => as[n]?) ∧
      ∀ n, as.length ≤ n → states step s as n = t := by
  have hend (n : ℕ) (hn : as.length ≤ n) : states step s as n = t := by
    have htake := exec_take h n
    rw [List.take_of_length_le hn, h] at htake
    exact (Option.some.inj htake).symm
  refine ⟨⟨fun n a ha => ?_, fun n ha => ?_⟩, hend⟩
  · have hsucc := exec_take h (n + 1)
    rw [List.take_succ_eq_append_getElem (List.getElem?_eq_some_iff.mp ha).1, exec_append,
      exec_take h n, (List.getElem?_eq_some_iff.mp ha).2] at hsucc
    simpa [exec] using hsucc
  · have hn := List.getElem?_eq_none_iff.mp ha
    rw [hend n hn, hend (n + 1) (Nat.le_succ_of_le hn)]

/-- What the steps of the finite run meet, those of the endless one do. -/
theorem always_of_steps {ok : σ → α → Prop} {s t : σ} {as : List α}
    (h : exec step s as = some t) (hok : Steps ok (trace step s as)) :
    Always ok (states step s as) fun n => as[n]? :=
  fun _ _ ha => hok _ (mem_trace_of_getElem? h ha)

/-- At rest nothing is passed by. -/
theorem weakFair_of_rest {ready : σ → Prop} {taken : σ → α → Prop} {s t : σ} {as : List α}
    (h : exec step s as = some t) (ht : ¬ ready t) :
    WeakFair ready taken (states step s as) fun n => as[n]? := by
  intro n hready
  have hlate := hready (max n as.length) (le_max_left _ _)
  rw [(endless_exec h).2 _ (le_max_right _ _)] at hlate
  exact absurd hlate ht

end Runs
