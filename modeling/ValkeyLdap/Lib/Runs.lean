/-
# Runs of a partial step function

A system is a step function `step : σ → α → Option σ`: what the state
becomes when the labelled action happens, `none` where it cannot. `Run`
records the steps of a run with the state each was taken in, so that a
condition on steps and a property of steps are both conditions on the run.
An invariant may lean on a guard that every step of the run meets
(`Run.invariant`), and may speak of the run so far (`Run.history`), as may a
property of steps (`StepsAfter`); `Since` says what has lasted since when.
`exec` computes a run from its labels (`exec_run`).

Key theorems: `Run.invariant`, `Run.forall_steps`, `Run.history`, `since_snoc`,
`exec_run`.
-/
import Mathlib.Data.List.Basic

namespace Runs

variable {σ α : Type*} {step : σ → α → Option σ}

/-- What a list that has grown at its end holds: what it held, or what is new. -/
theorem getElem?_concat_cases {β : Type*} {l : List β} {x y : β} {i : ℕ}
    (h : (l ++ [x])[i]? = some y) : l[i]? = some y ∨ (i = l.length ∧ y = x) := by
  rcases Nat.lt_trichotomy i l.length with hlt | rfl | hlt
  · exact Or.inl ((List.getElem?_append_left hlt).symm.trans h)
  · exact Or.inr ⟨rfl, Option.some.inj (h.symm.trans List.getElem?_concat_length)⟩
  · rw [List.getElem?_eq_none (by rw [List.length_append, List.length_singleton]; omega)] at h
    cases h

/-- `Run step s tr t`: the steps `tr`, each the state before it and its label,
lead from `s` to `t`. -/
inductive Run (step : σ → α → Option σ) (s : σ) : List (σ × α) → σ → Prop
  | refl : Run step s [] s
  | snoc {tr : List (σ × α)} {t u : σ} {a : α} :
      Run step s tr t → step t a = some u → Run step s (tr ++ [(t, a)]) u

/-- Every step of the run meets `ok`. -/
def Steps (ok : σ → α → Prop) (tr : List (σ × α)) : Prop := ∀ x ∈ tr, ok x.1 x.2

theorem steps_nil (ok : σ → α → Prop) : Steps ok [] := fun x hx => by simp at hx

/-- The guard that every step meets. -/
theorem steps_true {tr : List (σ × α)} : Steps (fun _ _ => True) tr := fun _ _ => trivial

theorem steps_snoc {ok : σ → α → Prop} {tr : List (σ × α)} {t : σ} {a : α} :
    Steps ok (tr ++ [(t, a)]) ↔ Steps ok tr ∧ ok t a := by
  constructor
  · intro h
    exact ⟨fun x hx => h x (List.mem_append_left _ hx), h (t, a) (by simp)⟩
  · rintro ⟨h, ha⟩ x hx
    rcases List.mem_append.mp hx with hx | hx
    · exact h x hx
    · obtain rfl : x = (t, a) := by simpa using hx
      exact ha

theorem Steps.imp {ok ok' : σ → α → Prop} {tr : List (σ × α)} (h : Steps ok tr)
    (hi : ∀ t a, ok t a → ok' t a) : Steps ok' tr :=
  fun x hx => hi _ _ (h x hx)

theorem Steps.and {ok ok' : σ → α → Prop} {tr : List (σ × α)} (h : Steps ok tr)
    (h' : Steps ok' tr) : Steps (fun t a => ok t a ∧ ok' t a) tr :=
  fun x hx => ⟨h x hx, h' x hx⟩

/-- Two properties that agree at every step agree on the run. -/
theorem Steps.congr {P Q : σ → α → Prop} {tr : List (σ × α)}
    (h : Steps (fun t a => P t a ↔ Q t a) tr) : Steps P tr ↔ Steps Q tr :=
  ⟨fun hp x hx => (h x hx).mp (hp x hx), fun hq x hx => (h x hx).mpr (hq x hx)⟩

/-- **Invariant rule.** What holds at the start and is kept by every step that
meets the guard holds at the end of every run whose steps meet it. -/
theorem Run.invariant {ok : σ → α → Prop} {I : σ → Prop} {s t : σ} {tr : List (σ × α)}
    (h : Run step s tr t) (hok : Steps ok tr) (h0 : I s)
    (hstep : ∀ t a u, I t → ok t a → step t a = some u → I u) : I t := by
  induction h with
  | refl => exact h0
  | snoc _ ha ih =>
    obtain ⟨hok, hoka⟩ := steps_snoc.mp hok
    exact hstep _ _ _ (ih hok) hoka ha

/-- **Step rule.** With an invariant, a property of every single step the
invariant allows is a property of all steps of the run. -/
theorem Run.forall_steps {ok P : σ → α → Prop} {I : σ → Prop} {s t : σ} {tr : List (σ × α)}
    (h : Run step s tr t) (hok : Steps ok tr) (h0 : I s)
    (hstep : ∀ t a u, I t → ok t a → step t a = some u → I u)
    (hP : ∀ t a u, I t → ok t a → step t a = some u → P t a) : Steps P tr := by
  induction h with
  | refl => exact steps_nil P
  | snoc h ha ih =>
    obtain ⟨hok, hoka⟩ := steps_snoc.mp hok
    exact steps_snoc.mpr ⟨ih hok, hP _ _ _ (h.invariant hok h0 hstep) hoka ha⟩

/-- Every step of a run leads somewhere. -/
theorem Run.enabled {s t : σ} {tr : List (σ × α)} (h : Run step s tr t) :
    Steps (fun t a => ∃ u, step t a = some u) tr :=
  h.forall_steps steps_true (I := fun _ => True) trivial
    (fun _ _ _ _ _ _ => trivial) fun _ _ u _ _ hu => ⟨u, hu⟩

/-! ### Steps and the run before them -/

/-- Every step meets `P`, which sees the run before the step, too. -/
def StepsAfter (P : List (σ × α) → σ → α → Prop) (tr : List (σ × α)) : Prop :=
  ∀ pre t a post, tr = pre ++ (t, a) :: post → P pre t a

theorem stepsAfter_nil (P : List (σ × α) → σ → α → Prop) : StepsAfter P [] := by
  intro pre t a post h
  cases pre <;> cases h

theorem stepsAfter_snoc {P : List (σ × α) → σ → α → Prop} {tr : List (σ × α)} {t : σ} {a : α} :
    StepsAfter P (tr ++ [(t, a)]) ↔ StepsAfter P tr ∧ P tr t a := by
  constructor
  · intro h
    refine ⟨fun pre u b post htr => h pre u b (post ++ [(t, a)]) ?_, h tr t a [] rfl⟩
    rw [htr, List.append_assoc, List.cons_append]
  · rintro ⟨h, ha⟩ pre u b post htr
    rcases List.eq_nil_or_concat post with rfl | ⟨post, x, rfl⟩
    · obtain ⟨rfl, hx⟩ := List.append_inj' htr rfl
      obtain ⟨rfl, rfl⟩ := Prod.mk.inj (List.cons.inj hx).1
      exact ha
    · have hsplit : tr ++ [(t, a)] = (pre ++ (u, b) :: post) ++ [x] := by
        rw [htr, List.concat_eq_append, List.append_assoc, List.cons_append]
      exact h pre u b post (List.append_inj' hsplit rfl).1

theorem StepsAfter.left {P : List (σ × α) → σ → α → Prop} {tr tr' : List (σ × α)}
    (h : StepsAfter P (tr ++ tr')) : StepsAfter P tr :=
  fun pre t a post htr =>
    h pre t a (post ++ tr') (by rw [htr, List.append_assoc, List.cons_append])

/-- **Invariant rule with history.** The invariant may speak of the run so
far. -/
theorem Run.history {ok : σ → α → Prop} {I : List (σ × α) → σ → Prop} {s t : σ}
    {tr : List (σ × α)} (h : Run step s tr t) (hok : Steps ok tr) (h0 : I [] s)
    (hstep : ∀ pre t a u, I pre t → ok t a → step t a = some u → I (pre ++ [(t, a)]) u) :
    I tr t := by
  induction h with
  | refl => exact h0
  | snoc _ ha ih =>
    obtain ⟨hok, hoka⟩ := steps_snoc.mp hok
    exact hstep _ _ _ _ (ih hok) hoka ha

/-- A property of steps with history that is one of single steps wherever the
invariant holds. -/
theorem Run.stepsAfter_iff {ok Q : σ → α → Prop} {P : List (σ × α) → σ → α → Prop}
    {I : List (σ × α) → σ → Prop} {s t : σ} {tr : List (σ × α)} (h : Run step s tr t)
    (hok : Steps ok tr) (h0 : I [] s)
    (hstep : ∀ pre t a u, I pre t → ok t a → step t a = some u → I (pre ++ [(t, a)]) u)
    (hiff : ∀ pre t a u, I pre t → ok t a → step t a = some u → (P pre t a ↔ Q t a)) :
    StepsAfter P tr ↔ Steps Q tr := by
  induction h with
  | refl => exact iff_of_true (stepsAfter_nil P) (steps_nil Q)
  | snoc h ha ih =>
    obtain ⟨hok, hoka⟩ := steps_snoc.mp hok
    have hlast := hiff _ _ _ _ (h.history hok h0 hstep) hoka ha
    rw [stepsAfter_snoc, steps_snoc, ih hok, hlast]

/-- A step with `E` has been taken, and in no state from it on did `P` fail. -/
def Since (P : σ → Prop) (E : σ → α → Prop) (tr : List (σ × α)) : Prop :=
  ∃ pre t a post, tr = pre ++ (t, a) :: post ∧ E t a ∧ ∀ x ∈ (t, a) :: post, P x.1

theorem since_nil (P : σ → Prop) (E : σ → α → Prop) : ¬ Since P E [] := by
  rintro ⟨pre, t, a, post, h, -⟩
  cases pre <;> cases h

theorem since_snoc {P : σ → Prop} {E : σ → α → Prop} {tr : List (σ × α)} {t : σ} {a : α} :
    Since P E (tr ++ [(t, a)]) ↔ P t ∧ (E t a ∨ Since P E tr) := by
  constructor
  · rintro ⟨pre, u, b, post, htr, he, hp⟩
    rcases List.eq_nil_or_concat post with rfl | ⟨post, x, rfl⟩
    · obtain ⟨rfl, hx⟩ := List.append_inj' htr rfl
      obtain ⟨rfl, rfl⟩ := Prod.mk.inj (List.cons.inj hx).1
      exact ⟨hp _ List.mem_cons_self, Or.inl he⟩
    · have hsplit : tr ++ [(t, a)] = (pre ++ (u, b) :: post) ++ [x] := by
        rw [htr, List.concat_eq_append, List.append_assoc, List.cons_append]
      obtain ⟨rfl, hx⟩ := List.append_inj' hsplit rfl
      obtain rfl : (t, a) = x := (List.cons.inj hx).1
      refine ⟨hp (t, a) (by simp), Or.inr ⟨pre, u, b, post, rfl, he, fun y hy => hp y ?_⟩⟩
      rw [List.concat_eq_append, ← List.cons_append]
      exact List.mem_append_left _ hy
  · rintro ⟨hp, he | ⟨pre, u, b, post, rfl, he, hpost⟩⟩
    · refine ⟨tr, t, a, [], rfl, he, fun x hx => ?_⟩
      obtain rfl := List.mem_singleton.mp hx
      exact hp
    · refine ⟨pre, u, b, post ++ [(t, a)], by simp, he, fun x hx => ?_⟩
      rw [← List.cons_append] at hx
      rcases List.mem_append.mp hx with hx | hx
      · exact hpost x hx
      · obtain rfl := List.mem_singleton.mp hx
        exact hp

/-- What the steps of a run show to an observer of single steps, in order. -/
def events {β : Type*} (f : σ → α → Option β) (tr : List (σ × α)) : List β :=
  tr.filterMap fun x => f x.1 x.2

theorem events_nil {β : Type*} (f : σ → α → Option β) : events f [] = [] := rfl

theorem events_append {β : Type*} (f : σ → α → Option β) (tr tr' : List (σ × α)) :
    events f (tr ++ tr') = events f tr ++ events f tr' :=
  List.filterMap_append

theorem events_snoc {β : Type*} (f : σ → α → Option β) (tr : List (σ × α)) (t : σ) (a : α) :
    events f (tr ++ [(t, a)]) = events f tr ++ (f t a).toList := by
  unfold events
  rw [List.filterMap_append]
  cases h : f t a <;> simp [h]

/-- **Replay rule.** Where each step changes a view by what is seen of it, the
view is at the end what is seen of the run, replayed. -/
theorem Run.replay {β ν : Type*} {view : σ → ν} {f : σ → α → Option β} {apply : ν → β → ν}
    {ok : σ → α → Prop} {I : σ → Prop} {s t : σ} {tr : List (σ × α)} (h : Run step s tr t)
    (hok : Steps ok tr) (h0 : I s) (hstep : ∀ t a u, I t → ok t a → step t a = some u → I u)
    (hview : ∀ t a u, I t → ok t a → step t a = some u →
      view u = (f t a).toList.foldl apply (view t)) :
    view t = (events f tr).foldl apply (view s) := by
  induction h with
  | refl => rfl
  | snoc h ha ih =>
    obtain ⟨hok, hoka⟩ := steps_snoc.mp hok
    rw [events_snoc, List.foldl_append, ← ih hok]
    exact hview _ _ _ (h.invariant hok h0 hstep) hoka ha

/-- Two runs, one after the other. -/
theorem Run.trans {s t u : σ} {tr tr' : List (σ × α)} (h : Run step s tr t)
    (h' : Run step t tr' u) : Run step s (tr ++ tr') u := by
  induction h' with
  | refl => simpa using h
  | snoc _ ha ih => rw [← List.append_assoc]; exact ih.snoc ha

/-- The state the labels lead to. -/
def exec (step : σ → α → Option σ) : σ → List α → Option σ
  | s, [] => some s
  | s, a :: as => (step s a).bind fun t => exec step t as

/-- The steps of that run, as far as it goes. -/
def trace (step : σ → α → Option σ) : σ → List α → List (σ × α)
  | _, [] => []
  | s, a :: as => (s, a) :: ((step s a).map fun t => trace step t as).getD []

theorem mem_of_trace {s : σ} {as : List α} {x : σ × α} (h : x ∈ trace step s as) : x.2 ∈ as := by
  induction as generalizing s with
  | nil => cases h
  | cons a as ih =>
    rcases List.mem_cons.mp h with rfl | h
    · exact List.mem_cons_self
    · cases hs : step s a with
      | none => simp [hs] at h
      | some t => exact List.mem_cons_of_mem _ (ih (by simpa [hs] using h))

theorem exec_run {s t : σ} {as : List α} (h : exec step s as = some t) :
    Run step s (trace step s as) t := by
  induction as generalizing s with
  | nil =>
    obtain rfl : s = t := by simpa [exec] using h
    exact .refl
  | cons a as ih =>
    obtain ⟨u, hu, h⟩ := Option.bind_eq_some_iff.mp h
    simpa [trace, hu] using (Run.snoc .refl hu : Run step s [(s, a)] u).trans (ih h)

/-! ### What the tasks of a system hold -/

/-- One task goes on as another that shows the same. -/
theorem map_set_eq {β γ : Type*} (f : β → γ) {l : List β} {i : ℕ} {a b : β} (hi : l[i]? = some a)
    (hf : f b = f a) : (l.set i b).map f = l.map f := by
  have hget : (l.map f)[i]? = some (f a) := by rw [List.getElem?_map, hi, Option.map_some]
  obtain ⟨hlt, hself⟩ := List.getElem?_eq_some_iff.mp hget
  rw [List.map_set, hf, ← hself]
  exact List.set_getElem_self _

/-- One task goes on as another: what it held is exchanged for what that one
holds. -/
theorem filterMap_set_perm {β γ : Type*} (f : β → Option γ) {l : List β} {i : ℕ} {a : β} (b : β)
    (hi : l[i]? = some a) :
    ((l.set i b).filterMap f ++ (f a).toList).Perm (l.filterMap f ++ (f b).toList) := by
  have hcons : ∀ (c : β) (t : List β), (c :: t).filterMap f = (f c).toList ++ t.filterMap f := by
    intro c t
    cases h : f c <;> simp [h]
  obtain ⟨hlt, rfl⟩ := List.getElem?_eq_some_iff.mp hi
  rw [List.set_eq_take_append_cons_drop, if_pos hlt]
  conv_rhs => rw [← List.take_append_drop i l, List.drop_eq_getElem_cons hlt]
  simp only [List.filterMap_append, hcons, List.append_assoc]
  refine List.Perm.append_left _ ?_
  generalize (f b).toList = new, (l.drop (i + 1)).filterMap f = rest
  calc new ++ (rest ++ (f l[i]).toList)
    List.Perm _ (rest ++ (f l[i]).toList ++ new) := List.perm_append_comm
    _ = rest ++ ((f l[i]).toList ++ new) := List.append_assoc _ _ _
    List.Perm _ ((f l[i]).toList ++ (rest ++ new)) := List.perm_append_comm_assoc _ _ _

end Runs
