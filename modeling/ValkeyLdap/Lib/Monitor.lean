/-
# Tasks that wait on one lock and one broadcast signal

A job takes the lock, waits on the signal until its condition holds, acts, and
lets the lock go; if what it did calls for it, it wakes all waiters first. To
wait is to register on the signal, to let the lock go, and to take it again
once there has been a call; then the condition is looked at again.

No wake-up is lost (`no_lost_wakeup`) if what a job does without waking makes
no condition true that was not (`Monitor.Lawful`): while the lock is free a
task that waits and has not been woken waits for a condition that does not
hold. The condition a job waited for still holds when it acts, so a job that
cannot fail then never does.

Key theorems: `inv_step`, `no_lost_wakeup`.
-/
import ValkeyLdap.Lib.Runs

open Runs

/-- What the jobs `κ` do to the state `σ`, given an input `ν`. -/
structure Monitor (σ κ ν : Type*) where
  /-- What the job waits for. -/
  ready : κ → σ → Bool
  /-- The state the job leaves, what becomes of it, and whether it wakes the
  waiters; `none` is a failure. -/
  act : κ → ν → σ → Option (σ × κ × Bool)
  /-- The calls of the signal so far. -/
  calls : σ → ℕ
  notify : σ → σ
  /-- What a job that is over goes on as, if it does. -/
  next : κ → Option κ
  /-- The jobs that may be begun. -/
  fresh : κ → Bool

namespace Monitor

/-- Where a task is. -/
inductive Phase
  | locking
  | checking
  | registered (seen : ℕ)
  | waiting (seen : ℕ)
  | acting
  | notifying
  | leaving
  | finished
  | failed
  deriving DecidableEq, Repr

structure State (σ κ : Type*) where
  shared : σ
  holder : Option ℕ
  tasks : List (κ × Phase)

inductive Label (κ ν : Type*)
  | begin (job : κ)
  | run (i : ℕ) (input : ν)

variable {σ κ ν : Type*} (M : Monitor σ κ ν)

/-- Task `i`, which is `job` in `phase`, goes on. A failure lets the lock go. -/
def stepTask (s : State σ κ) (i : ℕ) (input : ν) (job : κ) : Phase → Option (State σ κ)
  | .locking =>
    if s.holder = none then
      some { s with holder := some i, tasks := s.tasks.set i (job, .checking) }
    else none
  | .checking =>
    if M.ready job s.shared then some { s with tasks := s.tasks.set i (job, .acting) }
    else some { s with tasks := s.tasks.set i (job, .registered (M.calls s.shared)) }
  | .registered seen =>
    some { s with holder := none, tasks := s.tasks.set i (job, .waiting seen) }
  | .waiting seen =>
    if seen < M.calls s.shared then some { s with tasks := s.tasks.set i (job, .locking) }
    else none
  | .acting =>
    match M.act job input s.shared with
    | some (shared, job', true) =>
      some { s with shared, tasks := s.tasks.set i (job', .notifying) }
    | some (shared, job', false) =>
      some { s with shared, tasks := s.tasks.set i (job', .leaving) }
    | none => some { s with holder := none, tasks := s.tasks.set i (job, .failed) }
  | .notifying =>
    some { s with shared := M.notify s.shared, tasks := s.tasks.set i (job, .leaving) }
  | .leaving => some { s with holder := none, tasks := s.tasks.set i (job, .finished) }
  | .finished =>
    match M.next job with
    | some job' => some { s with tasks := s.tasks.set i (job', .locking) }
    | none => none
  | .failed => none

def step (s : State σ κ) : Label κ ν → Option (State σ κ)
  | .begin job =>
    if M.fresh job then some { s with tasks := s.tasks ++ [(job, .locking)] } else none
  | .run i input =>
    match s.tasks[i]? with
    | some (job, phase) => M.stepTask s i input job phase
    | none => none

/-- Nobody has begun. -/
def start (shared : σ) : State σ κ := { shared, holder := none, tasks := [] }

def State.jobs (s : State σ κ) : List κ := s.tasks.map (·.1)

/-- `I` is kept whatever is done, a job that acts does not fail, and one that
does not wake the waiters makes no condition true. -/
structure Lawful (I : σ → List κ → Prop) : Prop where
  act : ∀ {s : σ} {jobs : List κ} {i : ℕ} {job : κ} (input : ν), I s jobs →
    jobs[i]? = some job → M.ready job s = true → ∃ s' job' wakes,
      M.act job input s = some (s', job', wakes) ∧ I s' (jobs.set i job') ∧
        M.calls s' = M.calls s ∧
        (wakes = false → ∀ k, M.ready k s = false → M.ready k s' = false)
  notify : ∀ {s : σ} {jobs : List κ}, I s jobs →
    I (M.notify s) jobs ∧ M.calls (M.notify s) = M.calls s + 1
  next : ∀ {s : σ} {jobs : List κ} {i : ℕ} {job job' : κ}, I s jobs → jobs[i]? = some job →
    M.next job = some job' → I s (jobs.set i job')
  begin : ∀ {s : σ} {jobs : List κ} {job : κ}, I s jobs → M.fresh job = true →
    I s (jobs ++ [job])

/-! ### The invariant -/

/-- The holder of the lock is about to wake the waiters. -/
def Pending (s : State σ κ) : Prop :=
  ∃ i job, s.holder = some i ∧ s.tasks[i]? = some (job, Phase.notifying)

/-- What holds of task `i`. -/
def TaskOk (s : State σ κ) (i : ℕ) (job : κ) : Phase → Prop
  | .locking | .finished => s.holder ≠ some i
  | .checking | .notifying | .leaving => s.holder = some i
  | .registered seen =>
    s.holder = some i ∧ seen = M.calls s.shared ∧ M.ready job s.shared = false
  | .waiting seen =>
    s.holder ≠ some i ∧ seen ≤ M.calls s.shared ∧
      (seen = M.calls s.shared → M.ready job s.shared = false ∨ Pending s)
  | .acting => s.holder = some i ∧ M.ready job s.shared = true
  | .failed => False

structure Inv (I : σ → List κ → Prop) (s : State σ κ) : Prop where
  data : I s.shared s.jobs
  holder : ∀ i, s.holder = some i → i < s.tasks.length
  tasks : ∀ (i : ℕ) (job : κ) (phase : Phase), s.tasks[i]? = some (job, phase) →
    M.TaskOk s i job phase

variable {M} {I : σ → List κ → Prop}

theorem jobs_set (tasks : List (κ × Phase)) (i : ℕ) (x : κ × Phase) :
    (tasks.set i x).map (·.1) = (tasks.map (·.1)).set i x.1 := List.map_set

/-- A task's job stays the same where only its phase changes. -/
theorem jobs_set_self {tasks : List (κ × Phase)} {i : ℕ} {job : κ} {phase : Phase}
    (h : tasks[i]? = some (job, phase)) : (tasks.map (·.1)).set i job = tasks.map (·.1) := by
  have hjob : (tasks.map (·.1))[i]? = some job := by
    rw [List.getElem?_map, h]
    rfl
  obtain ⟨hi, rfl⟩ := List.getElem?_eq_some_iff.mp hjob
  exact List.set_getElem_self hi

theorem not_pending {s : State σ κ} {i : ℕ} {job : κ} {phase : Phase} (hh : s.holder = some i)
    (ht : s.tasks[i]? = some (job, phase)) (hne : phase ≠ .notifying) : ¬ Pending s := by
  rintro ⟨j, k, hj, hk⟩
  obtain rfl := Option.some.inj (hh.symm.trans hj)
  rw [ht] at hk
  exact hne (Prod.mk.inj (Option.some.inj hk)).2

/-- Another task is as it was, if the step is the holder's or leaves the state,
and wakes the waiters or makes no condition true. -/
theorem TaskOk.other {s s' : State σ κ} {i j : ℕ} {k : κ} {phase : Phase}
    (h : M.TaskOk s j k phase) (hholder : s'.holder = some j ↔ s.holder = some j) (hne : j ≠ i)
    (hshared : s.holder = some i ∨ s'.shared = s.shared)
    (hcalls : M.calls s.shared ≤ M.calls s'.shared)
    (hwake : M.calls s'.shared = M.calls s.shared → M.ready k s.shared = false ∨ Pending s →
      M.ready k s'.shared = false ∨ Pending s') : M.TaskOk s' j k phase := by
  have hsame : s.holder = some j → s'.shared = s.shared := fun hj =>
    hshared.resolve_left fun hi => hne (Option.some.inj (hj.symm.trans hi))
  cases phase with
  | locking => exact mt hholder.mp h
  | finished => exact mt hholder.mp h
  | checking => exact hholder.mpr h
  | notifying => exact hholder.mpr h
  | leaving => exact hholder.mpr h
  | registered seen =>
    obtain ⟨hj, hseen, hready⟩ := h
    refine ⟨hholder.mpr hj, ?_, ?_⟩
    · rw [hsame hj]
      exact hseen
    · rw [hsame hj]
      exact hready
  | waiting seen =>
    obtain ⟨hj, hle, hlost⟩ := h
    refine ⟨mt hholder.mp hj, Nat.le_trans hle hcalls, fun hseen => ?_⟩
    exact hwake (by omega) (hlost (by omega))
  | acting =>
    obtain ⟨hj, hready⟩ := h
    refine ⟨hholder.mpr hj, ?_⟩
    rw [hsame hj]
    exact hready
  | failed => exact h

/-- What is to be shown of a step of task `i`. -/
theorem Inv.set {s : State σ κ} (h : M.Inv I s) {i : ℕ} {job job' : κ} {phase phase' : Phase}
    {shared' : σ} {holder' : Option ℕ} (hi : s.tasks[i]? = some (job, phase))
    (hdata : I shared' (s.jobs.set i job'))
    (hholder : ∀ j, j ≠ i → (holder' = some j ↔ s.holder = some j))
    (hshared : s.holder = some i ∨ shared' = s.shared)
    (hcalls : M.calls s.shared ≤ M.calls shared')
    (hself : M.TaskOk ⟨shared', holder', s.tasks.set i (job', phase')⟩ i job' phase')
    (hwake : ∀ k, M.calls shared' = M.calls s.shared →
      M.ready k s.shared = false ∨ Pending s →
      M.ready k shared' = false ∨ Pending ⟨shared', holder', s.tasks.set i (job', phase')⟩) :
    M.Inv I ⟨shared', holder', s.tasks.set i (job', phase')⟩ := by
  have hlt : i < s.tasks.length := (List.getElem?_eq_some_iff.mp hi).1
  refine ⟨?_, fun j hj => ?_, fun j k ph hk => ?_⟩
  · show I shared' ((s.tasks.set i (job', phase')).map (·.1))
    rw [jobs_set]
    exact hdata
  · show j < (s.tasks.set i (job', phase')).length
    rw [List.length_set]
    by_cases hji : j = i
    · exact hji ▸ hlt
    · exact h.holder j ((hholder j hji).mp hj)
  · by_cases hji : j = i
    · subst hji
      replace hk : (s.tasks.set j (job', phase'))[j]? = some (k, ph) := hk
      rw [List.getElem?_set_self hlt] at hk
      obtain ⟨rfl, rfl⟩ := Prod.mk.inj (Option.some.inj hk)
      exact hself
    · replace hk : (s.tasks.set i (job', phase'))[j]? = some (k, ph) := hk
      rw [List.getElem?_set_ne fun he => hji he.symm] at hk
      exact (h.tasks j k ph hk).other (hholder j hji) hji hshared hcalls (hwake k)

/-- The holder of the lock stays pending while another task takes a step. -/
theorem Pending.set {s : State σ κ} (h : Pending s) {i : ℕ} {job : κ} {phase : Phase}
    (hi : s.holder ≠ some i) : Pending { s with tasks := s.tasks.set i (job, phase) } := by
  obtain ⟨j, k, hj, hk⟩ := h
  refine ⟨j, k, hj, ?_⟩
  have hne : i ≠ j := fun he => hi (he ▸ hj)
  exact (List.getElem?_set_ne hne).trans hk

theorem inv_start {shared : σ} (h : I shared []) : M.Inv I (start shared) :=
  ⟨h, fun i hi => by simp [start] at hi, fun i k ph hk => by simp [start] at hk⟩

theorem inv_stepTask (hM : M.Lawful I) {s s' : State σ κ} (h : M.Inv I s) {i : ℕ} {input : ν}
    {job : κ} {phase : Phase} (hi : s.tasks[i]? = some (job, phase))
    (hs : M.stepTask s i input job phase = some s') : M.Inv I s' := by
  have hok := h.tasks i job phase hi
  have hdata : I s.shared (s.jobs.set i job) := by
    rw [State.jobs, jobs_set_self hi]
    exact h.data
  have hjob : s.jobs[i]? = some job := by rw [State.jobs, List.getElem?_map, hi]; rfl
  cases phase with
  | locking =>
    simp only [stepTask] at hs
    split at hs <;> cases hs
    rename_i hfree
    refine h.set hi hdata (fun j hj => ?_) (.inr rfl) (Nat.le_refl _) rfl fun k _ hk => ?_
    · rw [hfree]
      simp [Ne.symm hj]
    · refine .inl (hk.resolve_right ?_)
      rintro ⟨j, _, hj, -⟩
      rw [hfree] at hj
      cases hj
  | checking =>
    have hquiet : ¬ Pending s := not_pending hok hi (by simp)
    simp only [stepTask] at hs
    split at hs
    · rename_i hready
      cases hs
      exact h.set hi hdata (fun j _ => Iff.rfl) (.inr rfl) (Nat.le_refl _) ⟨hok, hready⟩
        fun k _ hk => .inl (hk.resolve_right hquiet)
    · rename_i hready
      cases hs
      exact h.set hi hdata (fun j _ => Iff.rfl) (.inr rfl) (Nat.le_refl _)
        ⟨hok, rfl, eq_false_of_ne_true hready⟩ fun k _ hk => .inl (hk.resolve_right hquiet)
  | registered seen =>
    obtain ⟨hh, hseen, hready⟩ := hok
    have hquiet : ¬ Pending s := not_pending hh hi (by simp)
    cases hs
    refine h.set hi hdata (fun j hj => ?_) (.inr rfl) (Nat.le_refl _) ⟨nofun, Nat.le_of_eq hseen,
      fun _ => .inl hready⟩ fun k _ hk => .inl (hk.resolve_right hquiet)
    rw [hh]
    simp [Ne.symm hj]
  | waiting seen =>
    obtain ⟨hh, -, -⟩ := hok
    simp only [stepTask] at hs
    split at hs <;> cases hs
    exact h.set hi hdata (fun j _ => Iff.rfl) (.inr rfl) (Nat.le_refl _) hh
      fun k _ hk => hk.imp id fun hp => hp.set hh
  | acting =>
    obtain ⟨hh, hready⟩ := hok
    obtain ⟨shared, job', wakes, hact, hkept, hcalls, hquiet⟩ := hM.act input h.data hjob hready
    simp only [stepTask, hact] at hs
    have hholder : ∀ j, j ≠ i → (s.holder = some j ↔ s.holder = some j) := fun _ _ => Iff.rfl
    cases wakes with
    | true =>
      cases hs
      have hlt : i < s.tasks.length := (List.getElem?_eq_some_iff.mp hi).1
      exact h.set hi hkept hholder (.inl hh) (Nat.le_of_eq hcalls.symm) hh fun _ _ _ =>
        .inr ⟨i, job', hh, List.getElem?_set_self hlt⟩
    | false =>
      cases hs
      exact h.set hi hkept hholder (.inl hh) (Nat.le_of_eq hcalls.symm) hh fun k _ hk =>
        .inl (hquiet rfl k (hk.resolve_right (not_pending hh hi (by simp))))
  | notifying =>
    obtain ⟨hkept, hcalls⟩ := hM.notify hdata
    cases hs
    exact h.set hi hkept (fun j _ => Iff.rfl) (.inl hok) (by omega) hok fun _ he _ => by omega
  | leaving =>
    have hquiet : ¬ Pending s := not_pending hok hi (by simp)
    cases hs
    refine h.set hi hdata (fun j hj => ?_) (.inr rfl) (Nat.le_refl _) nofun
      fun k _ hk => .inl (hk.resolve_right hquiet)
    rw [show s.holder = some i from hok]
    simp [Ne.symm hj]
  | finished =>
    simp only [stepTask] at hs
    split at hs <;> cases hs
    rename_i job' hnext
    exact h.set hi (hM.next h.data hjob hnext) (fun j _ => Iff.rfl) (.inr rfl) (Nat.le_refl _) hok
      fun k _ hk => hk.imp id fun hp => hp.set hok
  | failed => exact hok.elim

theorem inv_begin (hM : M.Lawful I) {s : State σ κ} (h : M.Inv I s) {job : κ}
    (hfresh : M.fresh job = true) :
    M.Inv I { s with tasks := s.tasks ++ [(job, .locking)] } := by
  refine ⟨?_, fun j hj => ?_, fun j k ph hk => ?_⟩
  · show I s.shared ((s.tasks ++ [(job, Phase.locking)]).map (·.1))
    rw [List.map_append]
    exact hM.begin h.data hfresh
  · show j < (s.tasks ++ [(job, Phase.locking)]).length
    rw [List.length_append]
    exact Nat.lt_add_right 1 (h.holder j hj)
  · replace hk : (s.tasks ++ [(job, Phase.locking)])[j]? = some (k, ph) := hk
    rcases Runs.getElem?_concat_cases hk with hk | ⟨rfl, hnew⟩
    · have hlt := (List.getElem?_eq_some_iff.mp hk).1
      refine (h.tasks j k ph hk).other Iff.rfl (Nat.ne_of_lt hlt) (.inr rfl) (Nat.le_refl _) ?_
      rintro - (hready | ⟨i, l, hi, hl⟩)
      · exact .inl hready
      · refine .inr ⟨i, l, hi, ?_⟩
        exact (List.getElem?_append_left (h.holder i hi)).trans hl
    · obtain ⟨rfl, rfl⟩ := Prod.mk.inj hnew
      exact fun hj => Nat.lt_irrefl _ (h.holder _ hj)

/-- **Step lemma.** -/
theorem inv_step (hM : M.Lawful I) {s s' : State σ κ} (h : M.Inv I s) {a : Label κ ν}
    (hs : M.step s a = some s') : M.Inv I s' := by
  cases a with
  | begin job =>
    simp only [step] at hs
    split at hs <;> cases hs
    exact inv_begin hM h ‹_›
  | run i input =>
    simp only [step] at hs
    split at hs
    · exact inv_stepTask hM h ‹_› hs
    · cases hs

/-- **No wake-up is lost.** In every state reached in which the lock is free, a
task that waits and has not been woken waits for what does not hold; and no
task has failed. -/
theorem no_lost_wakeup (hM : M.Lawful I) {shared : σ} (h0 : I shared [])
    {tr : List (State σ κ × Label κ ν)} {s : State σ κ} (h : Run M.step (start shared) tr s) :
    (s.holder = none → ∀ (i : ℕ) (job : κ) (seen : ℕ),
      s.tasks[i]? = some (job, .waiting seen) → M.calls s.shared ≤ seen →
      M.ready job s.shared = false) ∧
    ∀ (i : ℕ) (job : κ), s.tasks[i]? ≠ some (job, .failed) := by
  have hinv : M.Inv I s :=
    h.invariant steps_true (inv_start h0) fun _ _ _ hi _ hs => inv_step hM hi hs
  refine ⟨fun hfree i job seen hi hseen => ?_, fun i job hi => hinv.tasks i job _ hi⟩
  obtain ⟨-, hle, hlost⟩ := hinv.tasks i job _ hi
  refine (hlost (by omega)).resolve_right ?_
  rintro ⟨j, _, hj, -⟩
  rw [hfree] at hj
  cases hj

end Monitor
