/-
# Waiting for a task

`submit_sync_task` (`src/vkldap/scheduler.rs`) sends a task whose callback
leaves the result in a cell and notifies, and waits for the cell to be filled:
a mutex and a condition variable, which may wake the waiter for no reason. The
calls wait on cells of their own, and share the scheduler with the tasks that
other clients send.

`sync_call_returns_own_result`: a call returns when its own task is called
back and not before, with that task's result; none is left asleep with its
cell filled, and one whose task is dropped or panics never returns.

Key theorems: `callsOk_step`, `sync_call_returns_own_result`.
-/
import ValkeyLdap.Scheduler

namespace ValkeyLdap
namespace Scheduling

open Runs

section
variable {τ : Type} (El : τ → Type) (ι : Type)

/-- A thread in `submit_sync_task`: about to lock the cell and look; in
`Condvar::wait`; back with what it returns; panicked, as there was no sender. -/
inductive Waiter
  | checking
  | asleep
  | returned (res : Result (Dyn El))
  | panicked

/-- A call: the type of its result and its task; the number of the job it sent;
the cell of its `Notify`; and where its thread is. -/
structure Call where
  R : τ
  task : Future ι (El R)
  job : Option ℕ
  cell : Option (Dyn El)
  waiter : Waiter El

end

namespace Sync

variable {τ : Type} {El : τ → Type} {ι W : Type}

/-- `Notify::notify`: `notify_one` wakes the thread that waits. -/
def notify (res : Dyn El) (c : Call El ι) : Call El ι :=
  { c with
    cell := some res
    waiter := match c.waiter with
      | .asleep => .checking
      | waiter => waiter }

/-- What call number `j` hands to `Task::new`: the callback notifies it. -/
def submission (T : τ) (j : ℕ) (R : τ) (task : Future ι (El R)) :
    Submission El ι (W × List (Call El ι)) where
  R := R
  T := T
  task := task
  callback := fun _ res w => (w.1, w.2.modify j (notify ⟨R, res⟩))
  data := none

/-- What another client submits: its callback acts on what is not the calls'. -/
def lift (sub : Submission El ι W) : Submission El ι (W × List (Call El ι)) where
  R := sub.R
  T := sub.T
  task := sub.task
  callback := fun data res w => (sub.callback data res w.1, w.2)
  data := sub.data

abbrev State (El : τ → Type) (ι W : Type) := Scheduling.State El ι (W × List (Call El ι))

variable (El ι W) in
inductive Act
  /-- A thread calls `submit_sync_task`. -/
  | call (R : τ) (task : Future ι (El R))
  /-- Call `j` locks its cell and looks. -/
  | check (j : ℕ)
  /-- The condition variable wakes call `j` for no reason. -/
  | wake (j : ℕ)
  /-- Another client sends a job. -/
  | submit (sub : Submission El ι W)
  | outside (world : W)
  | start
  | recv
  | poll (i : ℕ) (input : ι)
  | exit
  | stop
  | join

def calls (s : State El ι W) : List (Call El ι) := s.world.2

def setCall (s : State El ι W) (j : ℕ) (c : Call El ι) : State El ι W :=
  { s with world := (s.world.1, (calls s).set j c) }

def withCall (s : State El ι W) (c : Call El ι) : State El ι W :=
  { s with world := (s.world.1, calls s ++ [c]) }

/-- The call that begins, over how its send ends. -/
def begin (s : State El ι W) (R : τ) (task : Future ι (El R)) : Call El ι :=
  match s.sent with
  | .ok => { R, task, job := some (jobCount s), cell := none, waiter := .checking }
  | .closed => { R, task, job := none, cell := none, waiter := .returned (.error
      (.failedToSendJobToScheduler "sending on a closed channel")) }
  | .panicked => { R, task, job := none, cell := none, waiter := .panicked }

variable [DecidableEq τ] (T : τ) (dropData : Dyn El → W → W)

/-- `Drop` of what the other clients' tasks carry. -/
def liftDrop (d : Dyn El) (w : W × List (Call El ι)) : W × List (Call El ι) := (dropData d w.1, w.2)

def step (s : State El ι W) : Act El ι W → Option (State El ι W)
  | .call R task =>
    (withCall s (begin s R task)).step (liftDrop dropData)
      (.submit (submission T (calls s).length R task))
  | .check j =>
    match (calls s)[j]? with
    | some c =>
      match c.waiter, c.cell with
      | .checking, some res =>
        some (setCall s j { c with cell := none, waiter := .returned (.ok res) })
      | .checking, none => some (setCall s j { c with waiter := .asleep })
      | _, _ => none
    | none => none
  | .wake j =>
    match (calls s)[j]? with
    | some c =>
      match c.waiter with
      | .asleep => some (setCall s j { c with waiter := .checking })
      | _ => none
    | none => none
  | .submit sub => s.step (liftDrop dropData) (.submit (lift sub))
  | .outside world => some { s with world := (world, calls s) }
  | .start => s.step (liftDrop dropData) .start
  | .recv => s.step (liftDrop dropData) .recv
  | .poll i input => s.step (liftDrop dropData) (.poll i input)
  | .exit => s.step (liftDrop dropData) .exit
  | .stop => s.step (liftDrop dropData) .stop
  | .join => s.step (liftDrop dropData) .join

/-! ### What holds of the calls -/

/-- The job has been called back, after these answers. -/
def FinishedWith (s : State El ι W) (n : ℕ) (inputs : List ι) : Prop :=
  ∃ t, s.tasks[n]? = some (t, .finished inputs)

/-- What the call that sent job `n` is like, before the job is called back and
after. -/
structure CallOk (s : State El ι W) (j : ℕ) (c : Call El ι) (n : ℕ) : Prop where
  job : (jobs s)[n]? = some (submission T j c.R c.task).toTask
  pending : (∀ inputs, ¬ FinishedWith s n inputs) →
    c.cell = none ∧ (c.waiter = .checking ∨ c.waiter = .asleep)
  settled : ∀ inputs, FinishedWith s n inputs → ∃ r, c.task inputs = .ready r ∧
    ((c.cell = some ⟨c.R, r⟩ ∧ c.waiter = .checking) ∨
      (c.cell = none ∧ c.waiter = .returned (.ok ⟨c.R, r⟩)))

/-- The task of another client. -/
def Foreign (t : Task El ι (W × List (Call El ι))) : Prop :=
  ∃ sub : Submission El ι W, t = (lift sub).toTask

structure CallsOk (s : State El ι W) : Prop where
  stage : Stage s.initialized s.stopping s.thread s.channel
  /-- Every job is a call's or another client's. -/
  owned : ∀ (n : ℕ) (t : Task El ι (W × List (Call El ι))), (jobs s)[n]? = some t →
    (∃ (j : ℕ) (c : Call El ι), (calls s)[j]? = some c ∧ c.job = some n) ∨ Foreign t
  sent : ∀ (j : ℕ) (c : Call El ι) (n : ℕ), (calls s)[j]? = some c → c.job = some n →
    CallOk T s j c n
  apart : ∀ (i j : ℕ) (c d : Call El ι) (n : ℕ), (calls s)[i]? = some c → (calls s)[j]? = some d →
    c.job = some n → d.job = some n → i = j
  failed : ∀ (j : ℕ) (c : Call El ι), (calls s)[j]? = some c → c.job = none →
    c.waiter = .panicked

variable {T dropData} {s s' : State El ι W}

theorem callsOk_init (world : W) : CallsOk T (State.init (world, []) : State El ι W) where
  stage := .off
  owned n t h := by simp [jobs, State.init] at h
  sent j c n h := by simp [calls, State.init] at h
  apart i j c d n h := by simp [calls, State.init] at h
  failed j c h := by simp [calls, State.init] at h

theorem CallOk.congr {j n : ℕ} {c : Call El ι} (h : CallOk T s j c n)
    (hjob : (jobs s')[n]? = (jobs s)[n]?)
    (hfinished : ∀ inputs, FinishedWith s' n inputs ↔ FinishedWith s n inputs) :
    CallOk T s' j c n where
  job := hjob.trans h.job
  pending hp := h.pending fun inputs hf => hp inputs ((hfinished inputs).mpr hf)
  settled inputs hf := h.settled inputs ((hfinished inputs).mp hf)

/-- Steps that send no job, call none back and leave the calls. -/
theorem CallsOk.of_same (h : CallsOk T s)
    (hstage : Stage s'.initialized s'.stopping s'.thread s'.channel) (hjobs : jobs s' = jobs s)
    (hcalls : calls s' = calls s)
    (hfinished : ∀ n inputs, FinishedWith s' n inputs ↔ FinishedWith s n inputs) :
    CallsOk T s' where
  stage := hstage
  owned := by rw [hjobs, hcalls]; exact h.owned
  sent j c n hc hn :=
    (h.sent j c n (hcalls ▸ hc) hn).congr (by rw [hjobs]) (hfinished n)
  apart := by rw [hcalls]; exact h.apart
  failed := by rw [hcalls]; exact h.failed

/-- A job sent is a new one. -/
theorem CallsOk.job_lt (h : CallsOk T s) {j n : ℕ} {c : Call El ι} (hc : (calls s)[j]? = some c)
    (hn : c.job = some n) : n < jobCount s := by
  rw [← jobs_length]
  exact (List.getElem?_eq_some_iff.mp (h.sent j c n hc hn).job).1

/-- Another client's job is sent. -/
theorem CallsOk.submit (h : CallsOk T s)
    (hstage : Stage s'.initialized s'.stopping s'.thread s'.channel)
    {t : Task El ι (W × List (Call El ι))} (ht : Foreign t) (hjobs : jobs s' = jobs s ++ [t])
    (hcalls : calls s' = calls s) (htasks : s'.tasks = s.tasks) : CallsOk T s' where
  stage := hstage
  owned n u hu := by
    rw [hcalls]
    rw [hjobs] at hu
    rcases Runs.getElem?_concat_cases hu with hu | ⟨-, rfl⟩
    · exact h.owned n u hu
    · exact Or.inr ht
  sent j c n hc hn := by
    rw [hcalls] at hc
    refine (h.sent j c n hc hn).congr ?_ fun inputs => by rw [FinishedWith, FinishedWith, htasks]
    rw [hjobs, List.getElem?_append_left (jobs_length s ▸ h.job_lt hc hn)]
  apart := by rw [hcalls]; exact h.apart
  failed := by rw [hcalls]; exact h.failed

/-- A thread calls `submit_sync_task`. -/
theorem CallsOk.call (h : CallsOk T s) {R : τ} {task : Future ι (El R)}
    (hs : step T dropData s (.call R task) = some s') : CallsOk T s' := by
  have hs : (withCall s (begin s R task)).step (liftDrop dropData)
    (.submit (submission T (calls s).length R task)) = some s' := hs
  have hstage := stage_step (s := withCall s (begin s R task)) h.stage hs
  have hjobs := jobs_step (s := withCall s (begin s R task)) h.stage hs
  have hlast {j : ℕ} {c : Call El ι} (hc : (calls s ++ [begin s R task])[j]? = some c) :
      (calls s)[j]? = some c ∨ (j = (calls s).length ∧ c = begin s R task) :=
    Runs.getElem?_concat_cases hc
  have hold {j : ℕ} {c : Call El ι} (hc : (calls s)[j]? = some c) :
      (calls s ++ [begin s R task])[j]? = some c :=
    (List.getElem?_append_left (List.getElem?_eq_some_iff.mp hc).1).trans hc
  have hnew : (calls s ++ [begin s R task])[(calls s).length]? = some (begin s R task) :=
    List.getElem?_concat_length
  cases step_move hs with
  | accept _ hsent =>
    have hsent : s.sent = .ok := hsent
    have hbegin : begin s R task =
        { R, task, job := some (jobCount s), cell := none, waiter := .checking } := by
      rw [begin, hsent]
    have haccepted : accepted (withCall s (begin s R task))
        (.submit (submission T (calls s).length R task)) = some _ := if_pos hsent
    rw [haccepted] at hjobs
    generalize ht : (submission T (calls s).length R task : Submission El ι
      (W × List (Call El ι))).toTask = t at hstage hjobs ⊢
    have hjobs : jobs ({ withCall s (begin s R task) with
        channel := (withCall s (begin s R task)).channel ++ [.task t] } : State El ι W) =
          jobs s ++ [t] := by
      rw [hjobs, Option.toList_some, List.map_singleton, ht]
      rfl
    have hunfinished (inputs : List ι) : ¬ FinishedWith s (jobCount s) inputs := by
      rintro ⟨u, hu⟩
      have hlt := (List.getElem?_eq_some_iff.mp hu).1
      rw [jobCount] at hlt
      omega
    refine ⟨hstage, fun n u hu => ?_, fun j c n hc hn => ?_, fun i j c d n hc hd hn hm => ?_,
      fun j c hc hn => ?_⟩
    · rw [hjobs] at hu
      rcases Runs.getElem?_concat_cases hu with hu | ⟨rfl, -⟩
      · refine (h.owned n u hu).imp (fun hx => ?_) id
        obtain ⟨j, c, hc, hn⟩ := hx
        exact ⟨j, c, hold hc, hn⟩
      · exact Or.inl ⟨_, _, hnew, by rw [hbegin, jobs_length]⟩
    · rcases hlast hc with hc | ⟨rfl, rfl⟩
      · refine (h.sent j c n hc hn).congr ?_ fun inputs => Iff.rfl
        rw [hjobs, List.getElem?_append_left (jobs_length s ▸ h.job_lt hc hn)]
      · obtain rfl : jobCount s = n := Option.some.inj ((congrArg Call.job hbegin).symm.trans hn)
        refine ⟨?_, fun _ => ?_, fun inputs hf => absurd hf (hunfinished inputs)⟩
        · rw [hjobs, ← jobs_length, List.getElem?_concat_length, ← ht, hbegin]
        · rw [hbegin]
          exact ⟨rfl, Or.inl rfl⟩
    · rcases hlast hc with hc | ⟨rfl, rfl⟩
      · rcases hlast hd with hd | ⟨rfl, rfl⟩
        · exact h.apart i j c d n hc hd hn hm
        · rw [hbegin] at hm
          have := h.job_lt hc hn
          obtain rfl := Option.some.inj hm
          omega
      · rcases hlast hd with hd | ⟨rfl, rfl⟩
        · rw [hbegin] at hn
          have := h.job_lt hd hm
          obtain rfl := Option.some.inj hn
          omega
        · rfl
    · rcases hlast hc with hc | ⟨rfl, rfl⟩
      · exact h.failed j c hc hn
      · rw [hbegin] at hn
        cases hn
  | refuse _ hsent =>
    have hbegin : begin s R task = { R, task, job := none, cell := none, waiter := .panicked } := by
      rw [begin]
      cases hp : s.sent with
      | ok => exact absurd hp hsent
      | closed => exact absurd hp h.stage.sent_ne_closed
      | panicked => rfl
    refine ⟨hstage, fun n u hu => ?_, fun j c n hc hn => ?_, fun i j c d n hc hd hn hm => ?_,
      fun j c hc hn => ?_⟩
    · refine (h.owned n u hu).imp (fun hx => ?_) id
      obtain ⟨j, c, hc, hn⟩ := hx
      exact ⟨j, c, hold hc, hn⟩
    · rcases hlast hc with hc | ⟨rfl, rfl⟩
      · exact (h.sent j c n hc hn).congr rfl fun _ => Iff.rfl
      · rw [hbegin] at hn
        cases hn
    · rcases hlast hc with hc | ⟨rfl, rfl⟩
      · rcases hlast hd with hd | ⟨rfl, rfl⟩
        · exact h.apart i j c d n hc hd hn hm
        · rw [hbegin] at hm
          cases hm
      · rw [hbegin] at hn
        cases hn
    · rcases hlast hc with hc | ⟨rfl, rfl⟩
      · exact h.failed j c hc hn
      · rw [hbegin]

/-- Call `j` changes, and the others' jobs do not. -/
theorem CallsOk.replace (h : CallsOk T s)
    (hstage : Stage s'.initialized s'.stopping s'.thread s'.channel) (hjobs : jobs s' = jobs s)
    {j : ℕ} {c c' : Call El ι} (hc : (calls s)[j]? = some c) (hcalls : calls s' = (calls s).set j c')
    {m : ℕ} (hm : c.job = some m) (hjob : c'.job = c.job) (hok : CallOk T s' j c' m)
    (hother : ∀ n, n ≠ m → ∀ inputs, FinishedWith s' n inputs ↔ FinishedWith s n inputs) :
    CallsOk T s' := by
  have hself : (calls s')[j]? = some c' := by
    rw [hcalls, List.getElem?_set_self (List.getElem?_eq_some_iff.mp hc).1]
  have hne {i : ℕ} (hi : i ≠ j) : (calls s')[i]? = (calls s)[i]? := by
    rw [hcalls, List.getElem?_set_ne (Ne.symm hi)]
  have hbefore {i : ℕ} {d : Call El ι} {n : ℕ} (hd : (calls s')[i]? = some d)
      (hn : d.job = some n) : ∃ e, (calls s)[i]? = some e ∧ e.job = some n := by
    by_cases hi : i = j
    · subst hi
      obtain rfl := Option.some.inj (hself.symm.trans hd)
      exact ⟨c, hc, hjob.symm.trans hn⟩
    · exact ⟨d, (hne hi).symm.trans hd, hn⟩
  refine ⟨hstage, fun n t ht => ?_, fun i d n hd hn => ?_, fun i k d e n hd he hn hm => ?_,
    fun i d hd hn => ?_⟩
  · refine (h.owned n t (hjobs ▸ ht)).imp (fun ⟨i, d, hd, hn⟩ => ?_) id
    by_cases hi : i = j
    · subst hi
      obtain rfl := Option.some.inj (hd.symm.trans hc)
      exact ⟨i, c', hself, hjob.trans hn⟩
    · exact ⟨i, d, (hne hi).trans hd, hn⟩
  · by_cases hi : i = j
    · subst hi
      obtain rfl := Option.some.inj (hself.symm.trans hd)
      obtain rfl := Option.some.inj (hm.symm.trans (hjob.symm.trans hn))
      exact hok
    · rw [hne hi] at hd
      have hnm : n ≠ m := fun he => hi (h.apart i j d c n hd hc hn (he ▸ hm))
      exact (h.sent i d n hd hn).congr (by rw [hjobs]) (hother n hnm)
  · obtain ⟨d', hd', hn'⟩ := hbefore hd hn
    obtain ⟨e', he', hm'⟩ := hbefore he hm
    exact h.apart i k d' e' n hd' he' hn' hm'
  · by_cases hi : i = j
    · subst hi
      obtain rfl := Option.some.inj (hself.symm.trans hd)
      rw [hjob, hm] at hn
      cases hn
    · exact h.failed i d ((hne hi).symm.trans hd) hn

omit [DecidableEq τ] in
theorem calls_dropTask (dropData : Dyn El → W → W) (t : Task El ι (W × List (Call El ι)))
    (w : W × List (Call El ι)) : (dropTask (liftDrop dropData) t w).2 = w.2 := by
  unfold dropTask
  cases t.data with
  | none => rfl
  | some d => rfl

omit [DecidableEq τ] in
theorem calls_dropAll (dropData : Dyn El → W → W) : ∀ (w : W × List (Call El ι))
    (tasks : List (Task El ι (W × List (Call El ι)) × Phase ι)),
    (dropAll (liftDrop dropData) w tasks).1.2 = w.2
  | _, [] => rfl
  | w, (t, .running _) :: tasks =>
    (calls_dropAll dropData (dropTask (liftDrop dropData) t w) tasks).trans
      (calls_dropTask dropData t w)
  | w, (_, .finished _) :: tasks => calls_dropAll dropData w tasks
  | w, (_, .panicked) :: tasks => calls_dropAll dropData w tasks
  | w, (_, .asserted) :: tasks => calls_dropAll dropData w tasks
  | w, (_, .dropped) :: tasks => calls_dropAll dropData w tasks

/-- A step of the scheduler that receives, starts or stops. -/
theorem CallsOk.control (dropData : Dyn El → W → W) (h : CallsOk T s)
    {a : Scheduling.Act El ι (W × List (Call El ι))}
    (hs : s.step (liftDrop dropData) a = some s')
    (ha : a = .start ∨ a = .recv ∨ a = .exit ∨ a = .stop ∨ a = .join) : CallsOk T s' := by
  have hstage := stage_step h.stage hs
  have hjobs : jobs s' = jobs s := by
    rw [jobs_step h.stage hs]
    rcases ha with rfl | rfl | rfl | rfl | rfl
    all_goals exact List.append_nil _
  cases step_move hs with
  | recvTask =>
    exact h.of_same hstage hjobs rfl fun n inputs => exists_congr fun t => spawned_finished_iff
  | @exit world tasks _ hdrop =>
    obtain rfl : s.tasks.map (fun x => (x.1, x.2.afterDrop)) = tasks := by
      rw [← dropAll_tasks (liftDrop dropData) s.world, hdrop]
    refine h.of_same hstage hjobs ?_ fun n inputs => ?_
    · show world.2 = s.world.2
      rw [← calls_dropAll dropData s.world s.tasks, hdrop]
    · exact exists_congr fun t => afterDrop_finished_iff
  | start => exact h.of_same hstage hjobs rfl fun _ _ => Iff.rfl
  | recvShutdown => exact h.of_same hstage hjobs rfl fun _ _ => Iff.rfl
  | stop => exact h.of_same hstage hjobs rfl fun _ _ => Iff.rfl
  | stopRefused => exact h.of_same hstage hjobs rfl fun _ _ => Iff.rfl
  | join => exact h.of_same hstage hjobs rfl fun _ _ => Iff.rfl
  | _ => simp at ha

omit [DecidableEq τ] in
/-- A poll that calls nothing back leaves the calls. -/
theorem calls_pollTask {t : Task El ι (W × List (Call El ι))} {inputs : List ι} {phase : Phase ι}
    {w w' : W × List (Call El ι)} (hpoll : pollTask (liftDrop dropData) t inputs w = (phase, w'))
    (h : ¬ ∃ inputs', phase = .finished inputs') : w'.2 = w.2 := by
  unfold pollTask at hpoll
  split at hpoll
  · cases hpoll
    rfl
  · cases hpoll
    exact calls_dropTask dropData t w
  · split at hpoll
    · cases hpoll
      exact absurd ⟨_, rfl⟩ h
    · cases hpoll
      exact calls_dropTask dropData t w

omit [DecidableEq τ] in
/-- A poll changes what is said of its own task only. -/
theorem finishedWith_set_ne {i n : ℕ} {x : Task El ι (W × List (Call El ι)) × Phase ι}
    {world : W × List (Call El ι)} (hn : n ≠ i) (inputs : List ι) :
    FinishedWith ({ s with world, tasks := s.tasks.set i x } : State El ι W) n inputs ↔
      FinishedWith s n inputs := by
  show (∃ u, (s.tasks.set i x)[n]? = _) ↔ _
  rw [List.getElem?_set_ne (Ne.symm hn)]
  rfl

omit [DecidableEq τ] in
theorem finishedWith_set_self {i : ℕ} {t : Task El ι (W × List (Call El ι))} {phase : Phase ι}
    {world : W × List (Call El ι)} (hlt : i < s.tasks.length) (inputs : List ι) :
    FinishedWith ({ s with world, tasks := s.tasks.set i (t, phase) } : State El ι W) i inputs ↔
      phase = .finished inputs := by
  show (∃ u, (s.tasks.set i (t, phase))[i]? = _) ↔ _
  rw [List.getElem?_set_self hlt]
  constructor
  · rintro ⟨u, hu⟩
    exact (Prod.mk.inj (Option.some.inj hu)).2
  · rintro rfl
    exact ⟨t, rfl⟩

/-- The task of call `j` is called back: that call is notified of its result, and
no other changes. -/
theorem CallsOk.notified (h : CallsOk T s)
    (hstage : Stage s'.initialized s'.stopping s'.thread s'.channel) (hjobs : jobs s' = jobs s)
    {i j : ℕ} {c : Call El ι} (hc : (calls s)[j]? = some c) (hn : c.job = some i)
    (hbefore : ∀ inputs, ¬ FinishedWith s i inputs) {inputs : List ι} {r : El c.R}
    (hr : c.task inputs = .ready r)
    (hat : ∀ inputs', FinishedWith s' i inputs' ↔ inputs' = inputs)
    (hother : ∀ n, n ≠ i → ∀ inputs, FinishedWith s' n inputs ↔ FinishedWith s n inputs)
    (hcalls : calls s' = (calls s).modify j (notify ⟨c.R, r⟩)) :
    CallsOk T s' ∧ (calls s').map Call.job = (calls s).map Call.job ∧
      ∀ (k : ℕ) (d : Call El ι) (res : Result (Dyn El)), (calls s)[k]? = some d →
        d.waiter = .returned res → (calls s')[k]? = some d := by
  have hok := h.sent j c i hc hn
  obtain ⟨-, hwaiter⟩ := hok.pending hbefore
  have hset : calls s' = (calls s).set j (notify ⟨c.R, r⟩ c) := by
    rw [hcalls, List.modify_eq_set_getElem?, hc]
    rfl
  refine ⟨h.replace hstage hjobs hc hset hn rfl ?_ hother, ?_, fun k d res hd hw => ?_⟩
  · refine ⟨by rw [hjobs]; exact hok.job, fun hp => ?_, fun inputs' hf => ?_⟩
    · exact absurd ((hat inputs).mpr rfl) (hp inputs)
    · obtain rfl := (hat inputs').mp hf
      refine ⟨r, hr, Or.inl ⟨rfl, ?_⟩⟩
      rcases hwaiter with hwaiter | hwaiter
      · simp only [notify, hwaiter]
      · simp only [notify, hwaiter]
  · rw [hset]
    exact map_set_eq Call.job hc rfl
  · have hne : j ≠ k := by
      rintro rfl
      obtain rfl := Option.some.inj (hc.symm.trans hd)
      rcases hwaiter with hwaiter | hwaiter <;> cases hwaiter.symm.trans hw
    rw [hset, List.getElem?_set_ne hne, hd]

/-- A task is polled: the calls keep their jobs, and those that have returned
stay as they are. -/
theorem CallsOk.poll (dropData : Dyn El → W → W) (h : CallsOk T s) {i : ℕ} {input : ι}
    (hs : s.step (liftDrop dropData) (.poll i input) = some s') :
    CallsOk T s' ∧ (calls s').map Call.job = (calls s).map Call.job ∧
      ∀ (k : ℕ) (d : Call El ι) (res : Result (Dyn El)), (calls s)[k]? = some d →
        d.waiter = .returned res → (calls s')[k]? = some d := by
  have hstage := stage_step h.stage hs
  have hjobs' := (jobs_step h.stage hs).trans (List.append_nil _)
  cases step_move hs with
  | @poll _ _ t inputs phase world hthread ht hpoll =>
    have hlt := (List.getElem?_eq_some_iff.mp ht).1
    have hjob : (jobs s)[i]? = some t := jobs_of_task ht
    have hbefore (inputs : List ι) : ¬ FinishedWith s i inputs := by
      rintro ⟨u, hu⟩
      cases ht.symm.trans hu
    by_cases hfinished : ∃ inputs', phase = .finished inputs'
    · obtain ⟨inputs', rfl⟩ := hfinished
      by_cases hcall : ∃ (j : ℕ) (c : Call El ι), (calls s)[j]? = some c ∧ c.job = some i
      · -- the task is a call's: its callback notifies that call and no other
        obtain ⟨j, c, hc, hn⟩ := hcall
        obtain rfl := Option.some.inj (hjob.symm.trans (h.sent j c i hc hn).job)
        rcases pollTask_cases (liftDrop dropData) (submission T j c.R c.task) (inputs ++ [input])
          s.world with ⟨r, hr, -, hcalled⟩ | ⟨-, hgo⟩
        · obtain ⟨he, rfl⟩ := Prod.mk.inj (hpoll.symm.trans hcalled)
          obtain rfl := Phase.finished.inj he
          refine h.notified hstage hjobs' hc hn hbefore hr (fun inputs' => ?_)
            (fun n hn inputs => finishedWith_set_ne hn inputs) rfl
          exact (finishedWith_set_self hlt inputs').trans
            ⟨fun he => (Phase.finished.inj he).symm, fun he => he ▸ rfl⟩
        · rw [hpoll] at hgo
          rcases hgo with hgo | hgo <;> cases hgo
      · -- no call waits for the task
        obtain ⟨sub, rfl⟩ := (h.owned i t hjob).resolve_left hcall
        rcases pollTask_cases (liftDrop dropData) (lift sub) (inputs ++ [input]) s.world with
          ⟨r, -, -, hcalled⟩ | ⟨-, hgo⟩
        · obtain ⟨-, rfl⟩ := Prod.mk.inj (hpoll.symm.trans hcalled)
          refine ⟨⟨hstage, by rw [hjobs']; exact h.owned, fun k d n hd hn => ?_, h.apart, h.failed⟩,
            rfl, fun _ _ _ hd _ => hd⟩
          have hni : n ≠ i := fun he => hcall ⟨k, d, hd, he ▸ hn⟩
          exact (h.sent k d n hd hn).congr (by rw [hjobs']) fun inputs =>
            finishedWith_set_ne hni inputs
        · rw [hpoll] at hgo
          rcases hgo with hgo | hgo <;> cases hgo
    · have hcalls := calls_pollTask hpoll hfinished
      refine ⟨h.of_same hstage hjobs' hcalls fun n inputs' => ?_, congrArg (List.map Call.job) hcalls,
        fun k d _ hd _ => (congrArg (·[k]?) hcalls).trans hd⟩
      by_cases hn : n = i
      · subst hn
        exact (finishedWith_set_self hlt inputs').trans
          (iff_of_false (fun he => hfinished ⟨inputs', he⟩) (hbefore inputs'))
      · exact finishedWith_set_ne hn inputs'

/-- A call that is there has sent a job, if its thread has not panicked. -/
theorem CallsOk.job_of_waiter (h : CallsOk T s) {j : ℕ} {c : Call El ι}
    (hc : (calls s)[j]? = some c) (hw : c.waiter ≠ .panicked) : ∃ n, c.job = some n := by
  cases hn : c.job with
  | none => exact absurd (h.failed j c hc hn) hw
  | some n => exact ⟨n, rfl⟩

/-- A call that looks returns what its cell holds, or goes to sleep. -/
theorem step_check {j : ℕ} (hs : step T dropData s (.check j) = some s') :
    ∃ c, (calls s)[j]? = some c ∧ c.waiter = .checking ∧
      ((∃ res, c.cell = some res ∧
        s' = setCall s j { c with cell := none, waiter := .returned (.ok res) }) ∨
        (c.cell = none ∧ s' = setCall s j { c with waiter := .asleep })) := by
  simp only [step] at hs
  cases hc : (calls s)[j]? with
  | none => simp [hc] at hs
  | some c =>
    simp only [hc] at hs
    split at hs
    · rename_i res hwaiter hcell
      exact ⟨c, rfl, hwaiter, Or.inl ⟨res, hcell, (Option.some.inj hs).symm⟩⟩
    · rename_i hwaiter hcell
      exact ⟨c, rfl, hwaiter, Or.inr ⟨hcell, (Option.some.inj hs).symm⟩⟩
    · cases hs

theorem step_wake {j : ℕ} (hs : step T dropData s (.wake j) = some s') :
    ∃ c, (calls s)[j]? = some c ∧ c.waiter = .asleep ∧
      s' = setCall s j { c with waiter := .checking } := by
  simp only [step] at hs
  cases hc : (calls s)[j]? with
  | none => simp [hc] at hs
  | some c =>
    simp only [hc] at hs
    split at hs
    · rename_i hwaiter
      exact ⟨c, rfl, hwaiter, (Option.some.inj hs).symm⟩
    · cases hs

/-- **Step lemma.** -/
theorem callsOk_step (h : CallsOk T s) {a : Act El ι W} (hs : step T dropData s a = some s') :
    CallsOk T s' := by
  cases a with
  | call R task => exact h.call hs
  | check j =>
    obtain ⟨c, hc, hwaiter, hmove⟩ := step_check hs
    obtain ⟨n, hn⟩ := h.job_of_waiter hc (by rw [hwaiter]; exact nofun)
    have hok := h.sent j c n hc hn
    rcases hmove with ⟨res, hcell, rfl⟩ | ⟨hcell, rfl⟩
    · refine h.replace h.stage rfl hc rfl hn rfl ⟨hok.job, fun hp => ?_, fun inputs hf => ?_⟩
        fun _ _ _ => Iff.rfl
      · have hempty := (hok.pending hp).1
        rw [hcell] at hempty
        cases hempty
      · obtain ⟨r, hr, ⟨hres, -⟩ | ⟨hres, -⟩⟩ := hok.settled inputs hf
        · obtain rfl := Option.some.inj (hcell.symm.trans hres)
          exact ⟨r, hr, Or.inr ⟨rfl, rfl⟩⟩
        · rw [hcell] at hres
          cases hres
    · refine h.replace h.stage rfl hc rfl hn rfl ⟨hok.job, fun _ => ⟨hcell, Or.inr rfl⟩,
        fun inputs hf => ?_⟩ fun _ _ _ => Iff.rfl
      -- the cell of a job called back is filled until the call returns
      obtain ⟨r, hr, ⟨hres, -⟩ | ⟨-, hres⟩⟩ := hok.settled inputs hf
      · rw [hcell] at hres
        cases hres
      · rw [hwaiter] at hres
        cases hres
  | wake j =>
    obtain ⟨c, hc, hwaiter, rfl⟩ := step_wake hs
    obtain ⟨n, hn⟩ := h.job_of_waiter hc (by rw [hwaiter]; exact nofun)
    have hok := h.sent j c n hc hn
    refine h.replace h.stage rfl hc rfl hn rfl ⟨hok.job, fun hp => ⟨(hok.pending hp).1, Or.inl rfl⟩,
      fun inputs hf => ?_⟩ fun _ _ _ => Iff.rfl
    obtain ⟨r, hr, ⟨-, hres⟩ | ⟨-, hres⟩⟩ := hok.settled inputs hf
    · rw [hwaiter] at hres
      cases hres
    · rw [hwaiter] at hres
      cases hres
  | submit sub =>
    have hs : s.step (liftDrop dropData) (.submit (lift sub)) = some s' := hs
    have hstage := stage_step h.stage hs
    cases step_move hs with
    | accept =>
      refine h.submit hstage ⟨sub, rfl⟩ ?_ rfl rfl
      rw [jobs_step h.stage hs, show accepted s (.submit (lift sub)) = some _ from if_pos ‹_›]
      rfl
    | refuse =>
      exact h.of_same hstage rfl (calls_dropTask dropData _ _) fun _ _ => Iff.rfl
  | outside world =>
    cases hs
    exact h.of_same h.stage rfl rfl fun _ _ => Iff.rfl
  | poll i input => exact (h.poll dropData hs).1
  | start => exact h.control dropData (a := .start) hs (by simp)
  | recv => exact h.control dropData (a := .recv) hs (by simp)
  | exit => exact h.control dropData (a := .exit) hs (by simp)
  | stop => exact h.control dropData (a := .stop) hs (by simp)
  | join => exact h.control dropData (a := .join) hs (by simp)

omit [DecidableEq τ] in
theorem jobs_setCall {j : ℕ} {c c' : Call El ι} (hc : (calls s)[j]? = some c)
    (hjob : c'.job = c.job) : (calls s).map Call.job <+: (calls (setCall s j c')).map Call.job := by
  have hmap : (calls (setCall s j c')).map Call.job = (calls s).map Call.job :=
    map_set_eq Call.job hc hjob
  rw [hmap]

/-- The scheduler's own steps leave the calls, and so does another client's
submission. -/
theorem calls_control (dropData : Dyn El → W → W)
    {b : Scheduling.Act El ι (W × List (Call El ι))}
    (hs : s.step (liftDrop dropData) b = some s')
    (hb : b = .start ∨ b = .recv ∨ b = .exit ∨ b = .stop ∨ b = .join ∨
      ∃ sub, b = .submit (lift sub)) : calls s' = calls s := by
  cases step_move hs with
  | refuse =>
    rcases hb with hb | hb | hb | hb | hb | ⟨sub, hb⟩
    all_goals cases hb
    exact calls_dropTask dropData _ _
  | exit _ hdrop =>
    show Prod.snd _ = _
    rw [← (Prod.mk.inj hdrop).1]
    exact calls_dropAll dropData s.world s.tasks
  | poll => simp at hb
  | outside => simp at hb
  | _ => rfl

theorem calls_call {R : τ} {task : Future ι (El R)}
    (hs : step T dropData s (.call R task) = some s') :
    calls s' = calls s ++ [begin s R task] := by
  have hs : (withCall s (begin s R task)).step (liftDrop dropData)
    (.submit (submission T (calls s).length R task)) = some s' := hs
  cases step_move hs with
  | accept => rfl
  | refuse => rfl

/-- Calls keep their jobs. -/
theorem jobs_kept (h : CallsOk T s) {a : Act El ι W} (hs : step T dropData s a = some s') :
    (calls s).map Call.job <+: (calls s').map Call.job := by
  have hkept (hcalls : calls s' = calls s) : (calls s).map Call.job <+: (calls s').map Call.job := by
    rw [hcalls]
  cases a with
  | call R task =>
    rw [calls_call hs, List.map_append]
    exact List.prefix_append _ _
  | check j =>
    obtain ⟨c, hc, -, ⟨res, -, rfl⟩ | ⟨-, rfl⟩⟩ := step_check hs
    · exact jobs_setCall hc rfl
    · exact jobs_setCall hc rfl
  | wake j =>
    obtain ⟨c, hc, -, rfl⟩ := step_wake hs
    exact jobs_setCall hc rfl
  | submit sub => exact hkept (calls_control dropData (b := .submit (lift sub)) hs (by simp))
  | outside world =>
    cases hs
    exact hkept rfl
  | poll i input =>
    rw [(h.poll dropData hs).2.1]
  | start => exact hkept (calls_control dropData (b := .start) hs (by simp))
  | recv => exact hkept (calls_control dropData (b := .recv) hs (by simp))
  | exit => exact hkept (calls_control dropData (b := .exit) hs (by simp))
  | stop => exact hkept (calls_control dropData (b := .stop) hs (by simp))
  | join => exact hkept (calls_control dropData (b := .join) hs (by simp))

/-- A call that has returned stays as it is. -/
theorem returned_kept (h : CallsOk T s) {a : Act El ι W} (hs : step T dropData s a = some s')
    {k : ℕ} {d : Call El ι} {res : Result (Dyn El)} (hd : (calls s)[k]? = some d)
    (hw : d.waiter = .returned res) : (calls s')[k]? = some d := by
  have hne {j : ℕ} {c : Call El ι} (hc : (calls s)[j]? = some c) (hcw : c.waiter ≠ .returned res) :
      j ≠ k := by
    rintro rfl
    exact hcw (Option.some.inj (hc.symm.trans hd) ▸ hw)
  cases a with
  | call R task =>
    rw [calls_call hs, List.getElem?_append_left (List.getElem?_eq_some_iff.mp hd).1, hd]
  | check j =>
    obtain ⟨c, hc, hcw, ⟨_, -, rfl⟩ | ⟨-, rfl⟩⟩ := step_check hs
    · exact (List.getElem?_set_ne (hne hc (hcw ▸ nofun))).trans hd
    · exact (List.getElem?_set_ne (hne hc (hcw ▸ nofun))).trans hd
  | wake j =>
    obtain ⟨c, hc, hcw, rfl⟩ := step_wake hs
    exact (List.getElem?_set_ne (hne hc (hcw ▸ nofun))).trans hd
  | submit sub => rw [calls_control dropData (b := .submit (lift sub)) hs (by simp), hd]
  | outside world =>
    cases hs
    exact hd
  | poll i input => exact (h.poll dropData hs).2.2 k d res hd hw
  | start => rw [calls_control dropData (b := .start) hs (by simp), hd]
  | recv => rw [calls_control dropData (b := .recv) hs (by simp), hd]
  | exit => rw [calls_control dropData (b := .exit) hs (by simp), hd]
  | stop => rw [calls_control dropData (b := .stop) hs (by simp), hd]
  | join => rw [calls_control dropData (b := .join) hs (by simp), hd]

/-- A task that is over without having been called back. -/
def Lost (s : State El ι W) (n : ℕ) : Prop :=
  ∃ t phase, s.tasks[n]? = some (t, phase) ∧ phase.Over ∧ ∀ inputs, phase ≠ .finished inputs

omit [DecidableEq τ] in
theorem Lost.not_finishedWith {n : ℕ} (h : Lost s n) (inputs : List ι) :
    ¬ FinishedWith s n inputs := by
  obtain ⟨t, phase, ht, -, hphase⟩ := h
  rintro ⟨u, hu⟩
  exact hphase inputs (Prod.mk.inj (Option.some.inj (ht.symm.trans hu))).2

/-- A task that is over stays as it is. -/
theorem over_kept {s s' : State El ι W} {a : Scheduling.Act El ι (W × List (Call El ι))}
    (hs : s.step (liftDrop dropData) a = some s') {n : ℕ}
    {t : Task El ι (W × List (Call El ι))} {phase : Phase ι} (ht : s.tasks[n]? = some (t, phase))
    (hover : phase.Over) : s'.tasks[n]? = some (t, phase) := by
  cases step_move hs with
  | recvTask => exact (List.getElem?_append_left (List.getElem?_eq_some_iff.mp ht).1).trans ht
  | @poll i _ u inputs _ _ _ hu =>
    have hne : i ≠ n := by
      rintro rfl
      obtain ⟨-, rfl⟩ := Prod.mk.inj (Option.some.inj (ht.symm.trans hu))
      exact hover
    exact (List.getElem?_set_ne hne).trans ht
  | @exit world tasks _ hdrop =>
    show tasks[n]? = _
    rw [← (Prod.mk.inj hdrop).2, dropAll_tasks, List.getElem?_map, ht]
    show some (t, phase.afterDrop) = _
    rw [phase.afterDrop_of_over hover]
  | _ => exact ht

/-- A step is one of the scheduler's, over the world with the call that begins,
or changes the world alone. -/
theorem step_sched {a : Act El ι W} (hs : step T dropData s a = some s') :
    ∃ world b, ({ s with world } : State El ι W).step (liftDrop dropData) b = some s' ∧
      (b = .start → a = .start) ∧ (b = .stop → a = .stop) ∧ (b = .join → a = .join) := by
  cases a with
  | call R task => exact ⟨(withCall s (begin s R task)).world, .submit _, hs, nofun, nofun, nofun⟩
  | check j =>
    obtain ⟨c, -, -, ⟨res, -, rfl⟩ | ⟨-, rfl⟩⟩ := step_check hs
    · exact ⟨s.world, .outside _, rfl, nofun, nofun, nofun⟩
    · exact ⟨s.world, .outside _, rfl, nofun, nofun, nofun⟩
  | wake j =>
    obtain ⟨c, -, -, rfl⟩ := step_wake hs
    exact ⟨s.world, .outside _, rfl, nofun, nofun, nofun⟩
  | submit sub => exact ⟨s.world, .submit (lift sub), hs, nofun, nofun, nofun⟩
  | outside world =>
    cases hs
    exact ⟨s.world, .outside _, rfl, nofun, nofun, nofun⟩
  | poll i input => exact ⟨s.world, .poll i input, hs, nofun, nofun, nofun⟩
  | start => exact ⟨s.world, .start, hs, fun _ => rfl, nofun, nofun⟩
  | recv => exact ⟨s.world, .recv, hs, nofun, nofun, nofun⟩
  | exit => exact ⟨s.world, .exit, hs, nofun, nofun, nofun⟩
  | stop => exact ⟨s.world, .stop, hs, nofun, fun _ => rfl, nofun⟩
  | join => exact ⟨s.world, .join, hs, nofun, nofun, fun _ => rfl⟩

/-- A job stays called back. -/
theorem finished_kept {a : Act El ι W} {n : ℕ} {inputs : List ι} (h : FinishedWith s n inputs)
    (hs : step T dropData s a = some s') : FinishedWith s' n inputs := by
  obtain ⟨t, ht⟩ := h
  obtain ⟨world, b, hs, -⟩ := step_sched hs
  exact ⟨t, over_kept hs ht trivial⟩

theorem lost_step {a : Act El ι W} {n : ℕ} (hlost : Lost s n)
    (hs : step T dropData s a = some s') : Lost s' n := by
  obtain ⟨t, phase, ht, hover, hphase⟩ := hlost
  obtain ⟨world, b, hs, -⟩ := step_sched hs
  exact ⟨t, phase, over_kept hs ht hover, hover, hphase⟩

/-- What a call comes to, by what becomes of its job. -/
structure Answered (T : τ) (dropData : Dyn El → W → W) (s : State El ι W) (j : ℕ)
    (c : Call El ι) : Prop where
  /-- It returns only what its own task, called back, came to. -/
  own : ∀ res, c.waiter = .returned res → ∃ n inputs r, c.job = some n ∧
    (jobs s)[n]? = some (submission T j c.R c.task).toTask ∧ FinishedWith s n inputs ∧
      c.task inputs = .ready r ∧ res = .ok ⟨c.R, r⟩
  /-- Called back, it is not asleep, and returns when it looks. -/
  woken : ∀ n inputs, c.job = some n → FinishedWith s n inputs → c.waiter ≠ .asleep ∧
    (c.waiter = .checking → ∃ r s' c', c.task inputs = .ready r ∧
      step T dropData s (.check j) = some s' ∧ (calls s')[j]? = some c' ∧
        c'.waiter = .returned (.ok ⟨c.R, r⟩))
  /-- Its task lost, it never returns. -/
  lost : ∀ n, c.job = some n → Lost s n → ∀ tr s', Run (step T dropData) s tr s' →
    ∃ c', (calls s')[j]? = some c' ∧ (c'.waiter = .checking ∨ c'.waiter = .asleep)
  /-- Without a job, there was no scheduler to send one to. -/
  unsent : c.job = none → c.waiter = .panicked

theorem CallsOk.answered (h : CallsOk T s) {j : ℕ} {c : Call El ι}
    (hc : (calls s)[j]? = some c) : Answered T dropData s j c := by
  refine ⟨fun res hres => ?_, fun n inputs hn hf => ⟨?_, fun hw => ?_⟩,
    fun n hn hlost tr s' hrun => ?_, h.failed j c hc⟩
  · obtain ⟨n, hn⟩ := h.job_of_waiter hc (by rw [hres]; exact nofun)
    have hok := h.sent j c n hc hn
    by_cases hf : ∃ inputs, FinishedWith s n inputs
    · obtain ⟨inputs, hf⟩ := hf
      obtain ⟨r, hr, ⟨-, hw⟩ | ⟨-, hw⟩⟩ := hok.settled inputs hf
      · rw [hres] at hw
        cases hw
      · rw [hres] at hw
        exact ⟨n, inputs, r, hn, hok.job, hf, hr, Waiter.returned.inj hw⟩
    · rcases (hok.pending fun inputs hf' => hf ⟨inputs, hf'⟩).2 with hw | hw
      · rw [hres] at hw
        cases hw
      · rw [hres] at hw
        cases hw
  · obtain ⟨r, -, ⟨-, hw⟩ | ⟨-, hw⟩⟩ := (h.sent j c n hc hn).settled inputs hf
    · rw [hw]
      exact nofun
    · rw [hw]
      exact nofun
  · obtain ⟨r, hr, ⟨hcell, -⟩ | ⟨-, hw'⟩⟩ := (h.sent j c n hc hn).settled inputs hf
    · refine ⟨r, setCall s j { c with cell := none, waiter := .returned (.ok ⟨c.R, r⟩) }, _, hr, ?_,
        List.getElem?_set_self (List.getElem?_eq_some_iff.mp hc).1, rfl⟩
      simp only [step, hc, hw, hcell]
    · rw [hw] at hw'
      cases hw'
  · -- the job stays the call's, and lost
    have hkept : CallsOk T s' ∧ Lost s' n ∧ (calls s).map Call.job <+: (calls s').map Call.job := by
      refine hrun.invariant (I := fun s' => CallsOk T s' ∧ Lost s' n ∧
        (calls s).map Call.job <+: (calls s').map Call.job) steps_true
        ⟨h, hlost, List.prefix_rfl⟩ fun u a u' hu _ hs => ?_
      exact ⟨callsOk_step hu.1 hs, lost_step hu.2.1 hs, hu.2.2.trans (jobs_kept hu.1 hs)⟩
    obtain ⟨hok, hlost', rest, hrest⟩ := hkept
    have hjob : ((calls s').map Call.job)[j]? = some (some n) := by
      have hlt := (List.getElem?_eq_some_iff.mp hc).1
      rw [← hrest, List.getElem?_append_left (by rwa [List.length_map]), List.getElem?_map, hc]
      exact congrArg some hn
    rw [List.getElem?_map] at hjob
    obtain ⟨c', hc', hn'⟩ := Option.map_eq_some_iff.mp hjob
    exact ⟨c', hc', ((hok.sent j c' n hc' hn').pending hlost'.not_finishedWith).2⟩

/-- **A call returns its own task's result**, when that task has been called
back and not before; called back, it is not left asleep; its task lost, it
never returns. -/
theorem sync_call_returns_own_result (T : τ) (dropData : Dyn El → W → W) (world : W)
    (tr : List (State El ι W × Act El ι W)) (s : State El ι W)
    (h : Run (step T dropData) (State.init (world, [])) tr s) (j : ℕ) (c : Call El ι)
    (hc : (calls s)[j]? = some c) : Answered T dropData s j c := by
  have hok : CallsOk T s :=
    h.invariant steps_true (callsOk_init world) fun _ _ _ hi _ hs => callsOk_step hi hs
  exact hok.answered hc

/-- Two threads call, and the later call is answered first. -/
def twoCalls : List (Act CountOrList ℕ (List (List ℕ))) :=
  [.start, .call false sumTask.task, .call true listTask.task, .check 0, .recv, .recv, .poll 0 3,
    .poll 1 5, .check 1, .poll 0 4, .check 0, .stop, .recv, .exit, .join]

theorem sync_call_returns_own_result_two_calls : ∃ s c,
    exec (step false fun _ world => world) (State.init ([], [])) twoCalls = some s ∧
    (calls s)[0]? = some c ∧ c.waiter = .returned (.ok ⟨false, (7 : ℕ)⟩) ∧
    Answered false (fun _ world => world) s 0 c :=
  ⟨_, _, rfl, rfl, rfl, sync_call_returns_own_result false (fun _ world => world) [] _ _
    (exec_run (show exec (step false fun _ world => world) _ twoCalls = some _ from rfl)) 0 _ rfl⟩

end Sync
end Scheduling
end ValkeyLdap
