/-
# The job scheduler

`src/vkldap/scheduler.rs`: jobs are sent through a channel to the scheduler's
thread, which spawns each as a task of its own; when the task's future is
ready, its callback is called with the data it was submitted with. Futures and
callbacks of any type share one channel: `Task::new` hides the types behind
`dyn Any`, and the callback asserts them back.

A task is polled with what it awaited; the callback acts on the `world` that
the scheduler's clients share. Dropping a task uncalled drops its data, which
may act on the world too (`Drop`). `SCHEDULER`'s lock is read for a send and
written for the whole of `stop_job_scheduler`, so nothing is sent meanwhile.

`each_job_called_back_once`: no job is lost, repeated or overtaken in the
channel, each is called back at most once, with its own result and its own
data, and no assertion on a type fails.

Key theorems: `inv_step`, `each_job_called_back_once`.
-/
import ValkeyLdap.Errors
import ValkeyLdap.Lib.Runs

namespace ValkeyLdap
namespace Scheduling

open Runs

/-! ### Tasks -/

section
variable {τ : Type} {El : τ → Type} {ι ω : Type}

/-- `Box<dyn Any>`: a value, with its type. -/
structure Dyn (El : τ → Type) where
  ty : τ
  val : El ty

/-- `downcast::<R>()`. -/
def Dyn.downcast [DecidableEq τ] (R : τ) (a : Dyn El) : Option (El R) :=
  if h : a.ty = R then some (h ▸ a.val) else none

/-- How far a future has come. -/
inductive Poll (α : Type)
  | pending
  | ready (res : α)
  | panicked

def Poll.map {α β : Type} (f : α → β) : Poll α → Poll β
  | .pending => .pending
  | .ready res => .ready (f res)
  | .panicked => .panicked

/-- A future, as what it has come to over the answers to its awaits. -/
abbrev Future (ι α : Type) := List ι → Poll α

def coerceFutureOutput {R : τ} (f : Future ι (El R)) : Future ι (Dyn El) :=
  fun inputs => (f inputs).map (Dyn.mk R)

/-- The callback over `dyn Any`; `none` is a failed assertion. -/
def downcastCallbackInput [DecidableEq τ] {R T : τ} (c : Option (El T) → El R → ω → ω)
    (data : Option (Dyn El)) (res : Dyn El) : Option (ω → ω) :=
  match res.downcast R with
  | none => none
  | some r =>
    match data with
    | some d =>
      match d.downcast T with
      | some d => some (c (some d) r)
      | none => none
    | none => some (c none r)

variable (El ι ω) in
structure Task where
  task : Future ι (Dyn El)
  callback : Option (Dyn El) → Dyn El → Option (ω → ω)
  data : Option (Dyn El)

variable (El ι ω) in
/-- What a client hands to `Task::new`. -/
structure Submission where
  R : τ
  T : τ
  task : Future ι (El R)
  callback : Option (El T) → El R → ω → ω
  data : Option (El T)

/-- `Task::new`. -/
def Submission.toTask [DecidableEq τ] (sub : Submission El ι ω) : Task El ι ω where
  task := coerceFutureOutput sub.task
  callback := downcastCallbackInput sub.callback
  data := sub.data.map (Dyn.mk sub.T)

theorem downcast_mk [DecidableEq τ] {R : τ} (r : El R) : (Dyn.mk R r).downcast R = some r := by
  unfold Dyn.downcast
  rw [dif_pos rfl]

/-- **The types come back.** Neither assertion fails, and the client's callback
is called with the client's data. -/
theorem callback_toTask [DecidableEq τ] (sub : Submission El ι ω) (r : El sub.R) :
    sub.toTask.callback sub.toTask.data ⟨sub.R, r⟩ = some (sub.callback sub.data r) := by
  unfold Submission.toTask
  simp only [downcastCallbackInput, downcast_mk]
  cases sub.data with
  | none => rfl
  | some d => simp only [Option.map_some, downcast_mk]

theorem task_toTask_ready [DecidableEq τ] {sub : Submission El ι ω} {inputs : List ι}
    {res : Dyn El} (h : sub.toTask.task inputs = .ready res) :
    ∃ r, sub.task inputs = .ready r ∧ res = ⟨sub.R, r⟩ := by
  have h : (sub.task inputs).map (Dyn.mk sub.R) = .ready res := h
  cases hp : sub.task inputs with
  | ready r =>
    rw [hp] at h
    obtain rfl := Poll.ready.inj h
    exact ⟨r, rfl, rfl⟩
  | pending => rw [hp] at h; cases h
  | panicked => rw [hp] at h; cases h

end

/-! ### The scheduler -/

section
variable {τ : Type} (El : τ → Type) (ι ω : Type)

inductive Job
  | shutdown
  | task (task : Task El ι ω)

/-- A spawned task: polled so far with these answers; called back; panicked in
its future, or in an assertion of its callback; dropped with the runtime. -/
inductive Phase
  | running (inputs : List ι)
  | finished (inputs : List ι)
  | panicked
  | asserted
  | dropped

/-- The scheduler's thread: not there; in `scheduler_loop`; out of it, about to
drop the runtime; over. -/
inductive Thread
  | none
  | receiving
  | returned
  | ended
  deriving DecidableEq, Repr

structure State where
  world : ω
  /-- `Scheduler.state`, the sender of the channel. -/
  initialized : Bool
  /-- `stop_job_scheduler` holds the lock and joins the thread. -/
  stopping : Bool
  channel : List (Job El ι ω)
  thread : Thread
  tasks : List (Task El ι ω × Phase ι)

inductive Act
  /-- `start_job_scheduler`. -/
  | start
  /-- A client sends a job. -/
  | submit (sub : Submission El ι ω)
  /-- The scheduler's thread receives. -/
  | recv
  /-- Task `i` is polled, with the answer to its await. -/
  | poll (i : ℕ) (input : ι)
  /-- The scheduler's thread, out of its loop, drops the runtime and ends. -/
  | exit
  /-- `stop_job_scheduler` sends `Job::Shutdown`, and takes the sender away. -/
  | stop
  /-- The thread has been joined. -/
  | join
  /-- Others change what the clients share. -/
  | outside (world : ω)

end

section
variable {τ : Type} {El : τ → Type} {ι ω : Type}

/-- Nothing has been started. -/
def State.init (world : ω) : State El ι ω :=
  { world, initialized := false, stopping := false, channel := [], thread := .none, tasks := [] }

/-- How a send ends: the job is in the channel; the receiver is gone; there is
no sender (`unwrap` of `None`). -/
inductive Sent
  | ok
  | closed
  | panicked
  deriving DecidableEq, Repr

/-- `get_sender().send(..)`. -/
def State.sent (s : State El ι ω) : Sent :=
  if s.initialized then
    match s.thread with
    | .receiving => .ok
    | _ => .closed
  else .panicked

/-- `submit_async_task`, for a sender that is there. -/
def State.sendResult (s : State El ι ω) : Result Unit :=
  match s.sent with
  | .ok => .ok ()
  | _ => .error (.failedToSendJobToScheduler "sending on a closed channel")

variable (dropData : Dyn El → ω → ω)

/-- A task is dropped with the data it has. -/
def dropTask (t : Task El ι ω) (world : ω) : ω :=
  match t.data with
  | some d => dropData d world
  | none => world

/-- The runtime drops what has not ended. -/
def dropAll (world : ω) : List (Task El ι ω × Phase ι) → ω × List (Task El ι ω × Phase ι)
  | [] => (world, [])
  | (t, .running _) :: tasks =>
    let (world, tasks) := dropAll (dropTask dropData t world) tasks
    (world, (t, .dropped) :: tasks)
  | x :: tasks =>
    let (world, tasks) := dropAll world tasks
    (world, x :: tasks)

/-- What a poll makes of a task and of the world. -/
def pollTask (t : Task El ι ω) (inputs : List ι) (world : ω) : Phase ι × ω :=
  match t.task inputs with
  | .pending => (.running inputs, world)
  | .panicked => (.panicked, dropTask dropData t world)
  | .ready res =>
    match t.callback t.data res with
    | some act => (.finished inputs, act world)
    | none => (.asserted, dropTask dropData t world)

def State.step [DecidableEq τ] (s : State El ι ω) : Act El ι ω → Option (State El ι ω)
  | .start =>
    if s.initialized ∨ s.stopping then none
    else some { s with initialized := true, channel := [], thread := .receiving }
  | .submit sub =>
    if s.stopping then none
    else match s.sent with
      | .ok => some { s with channel := s.channel ++ [.task sub.toTask] }
      | _ => some { s with world := dropTask dropData sub.toTask s.world }
  | .recv =>
    match s.thread, s.channel with
    | .receiving, .shutdown :: channel => some { s with channel, thread := .returned }
    | .receiving, .task t :: channel =>
      some { s with channel, tasks := s.tasks ++ [(t, .running [])] }
    | _, _ => none
  | .poll i input =>
    if s.thread = .receiving ∨ s.thread = .returned then
      match s.tasks[i]? with
      | some (t, .running inputs) =>
        let (phase, world) := pollTask dropData t (inputs ++ [input]) s.world
        some { s with world, tasks := s.tasks.set i (t, phase) }
      | _ => none
    else none
  | .exit =>
    if s.thread = .returned then
      let (world, tasks) := dropAll dropData s.world s.tasks
      some { s with world, tasks, thread := .ended }
    else none
  | .stop =>
    if s.stopping then none
    else match s.sent with
      | .ok => some { s with
          channel := s.channel ++ [.shutdown], initialized := false, stopping := true }
      | .closed => some s
      -- the `unwrap` of `None` ends the process
      | .panicked => none
  | .join =>
    if s.stopping ∧ s.thread = .ended then some { s with stopping := false, thread := .none }
    else none
  | .outside world => some { s with world }

/-! ### Jobs and tasks -/

def Job.task? : Job El ι ω → Option (Task El ι ω)
  | .task t => some t
  | .shutdown => none

def Phase.afterDrop : Phase ι → Phase ι
  | .running _ => .dropped
  | phase => phase

/-- The task goes on no more. -/
def Phase.Over : Phase ι → Prop
  | .running _ => False
  | _ => True

/-- The runtime drops the tasks that run and leaves the others. -/
theorem dropAll_tasks (dropData : Dyn El → ω → ω) :
    ∀ (world : ω) (tasks : List (Task El ι ω × Phase ι)),
      (dropAll dropData world tasks).2 = tasks.map fun x => (x.1, x.2.afterDrop)
  | _, [] => rfl
  | world, (t, .running inputs) :: tasks => by
    rw [List.map_cons, ← dropAll_tasks dropData (dropTask dropData t world) tasks]
    rfl
  | world, (t, .finished inputs) :: tasks => by
    rw [List.map_cons, ← dropAll_tasks dropData world tasks]
    rfl
  | world, (t, .panicked) :: tasks => by
    rw [List.map_cons, ← dropAll_tasks dropData world tasks]
    rfl
  | world, (t, .asserted) :: tasks => by
    rw [List.map_cons, ← dropAll_tasks dropData world tasks]
    rfl
  | world, (t, .dropped) :: tasks => by
    rw [List.map_cons, ← dropAll_tasks dropData world tasks]
    rfl

theorem Phase.over_afterDrop (phase : Phase ι) : phase.afterDrop.Over := by
  cases phase <;> trivial

theorem Phase.afterDrop_of_over (phase : Phase ι) (h : phase.Over) : phase.afterDrop = phase := by
  cases phase with
  | running inputs => exact h.elim
  | _ => rfl

theorem Phase.afterDrop_eq_finished {phase : Phase ι} {inputs : List ι} :
    phase.afterDrop = .finished inputs ↔ phase = .finished inputs := by
  cases phase <;> simp [Phase.afterDrop]

/-- The runtime's drop keeps the tasks called back. -/
theorem afterDrop_finished_iff {tasks : List (Task El ι ω × Phase ι)} {i : ℕ} {t : Task El ι ω}
    {inputs : List ι} :
    (tasks.map fun x => (x.1, x.2.afterDrop))[i]? = some (t, .finished inputs) ↔
      tasks[i]? = some (t, .finished inputs) := by
  rw [List.getElem?_map]
  constructor
  · intro h
    obtain ⟨⟨u, phase⟩, hu, he⟩ := Option.map_eq_some_iff.mp h
    obtain ⟨rfl, hphase⟩ := Prod.mk.inj he
    exact hu.trans (congrArg _ (congrArg _ (Phase.afterDrop_eq_finished.mp hphase)))
  · intro h
    rw [h]
    rfl

/-- A task just spawned is not one called back. -/
theorem spawned_finished_iff {tasks : List (Task El ι ω × Phase ι)} {i : ℕ} {t u : Task El ι ω}
    {inputs : List ι} :
    (tasks ++ [(t, .running [])])[i]? = some (u, .finished inputs) ↔
      tasks[i]? = some (u, .finished inputs) := by
  constructor
  · intro h
    rcases Runs.getElem?_concat_cases h with h | ⟨-, hnew⟩
    · exact h
    · cases hnew
  · intro h
    rw [List.getElem?_append_left (List.getElem?_eq_some_iff.mp h).1, h]

theorem Phase.afterDrop_eq_asserted {phase : Phase ι} :
    phase.afterDrop = .asserted ↔ phase = .asserted := by
  cases phase <;> simp [Phase.afterDrop]

/-- Where the scheduler is between a start and the end of a stop. -/
inductive Stage : Bool → Bool → Thread → List (Job El ι ω) → Prop
  | off : Stage false false .none []
  | on (ts : List (Task El ι ω)) : Stage true false .receiving (ts.map .task)
  | stopping (ts : List (Task El ι ω)) :
      Stage false true .receiving (ts.map .task ++ [.shutdown])
  | returned : Stage false true .returned []
  | ended : Stage false true .ended []

theorem Stage.channel_off {thread : Thread} {channel : List (Job El ι ω)}
    (h : Stage false false thread channel) : thread = .none ∧ channel = [] := by
  cases h
  exact ⟨rfl, rfl⟩

theorem Stage.channel_on {stopping : Bool} {thread : Thread} {channel : List (Job El ι ω)}
    (h : Stage true stopping thread channel) :
    stopping = false ∧ thread = .receiving ∧ ∃ ts, channel = List.map .task ts := by
  cases h with
  | on ts => exact ⟨rfl, rfl, ts, rfl⟩

/-- While it is stopped, the thread has the shutdown before it, or no job. -/
theorem Stage.channel_stopping {initialized : Bool} {thread : Thread} {channel : List (Job El ι ω)}
    (h : Stage initialized true thread channel) :
    (thread = .receiving ∧ channel ≠ []) ∨ (thread = .returned ∧ channel = []) ∨
      (thread = .ended ∧ channel = []) := by
  cases h with
  | stopping ts => exact Or.inl ⟨rfl, by simp⟩
  | returned => exact Or.inr (Or.inl ⟨rfl, rfl⟩)
  | ended => exact Or.inr (Or.inr ⟨rfl, rfl⟩)

/-- What is left once the thread has received the shutdown. -/
theorem Stage.after_shutdown {initialized stopping : Bool} {channel : List (Job El ι ω)}
    (h : Stage initialized stopping .receiving (.shutdown :: channel)) :
    Stage initialized stopping .returned channel := by
  generalize hc : Job.shutdown :: channel = c at h
  cases h with
  | on ts => cases ts <;> cases hc
  | stopping ts =>
    cases ts with
    | nil =>
      obtain rfl := (List.cons.inj hc).2
      exact .returned
    | cons t ts => cases hc

theorem Stage.after_task {initialized stopping : Bool} {t : Task El ι ω}
    {channel : List (Job El ι ω)} (h : Stage initialized stopping .receiving (.task t :: channel)) :
    Stage initialized stopping .receiving channel := by
  generalize hc : Job.task t :: channel = c at h
  cases h with
  | on ts =>
    cases ts with
    | nil => cases hc
    | cons u ts =>
      obtain rfl := (List.cons.inj hc).2
      exact .on ts
  | stopping ts =>
    cases ts with
    | nil => cases hc
    | cons u ts =>
      obtain rfl := (List.cons.inj hc).2
      exact .stopping ts

theorem Stage.channel_none {initialized stopping : Bool} {channel : List (Job El ι ω)}
    (h : Stage initialized stopping .none channel) : channel = [] := by
  cases h
  rfl

theorem Stage.channel_ended {initialized stopping : Bool} {channel : List (Job El ι ω)}
    (h : Stage initialized stopping .ended channel) : channel = [] := by
  cases h
  rfl

theorem Stage.after_exit {initialized stopping : Bool} {channel : List (Job El ι ω)}
    (h : Stage initialized stopping .returned channel) :
    Stage initialized stopping .ended channel := by
  cases h
  exact .ended

theorem Stage.after_join {initialized stopping : Bool} {channel : List (Job El ι ω)}
    (h : Stage initialized stopping .ended channel) : Stage initialized false .none channel := by
  cases h
  exact .off

/-- A send finds the receiver exactly if there is a sender. -/
theorem Stage.sent_iff {s : State El ι ω}
    (h : Stage s.initialized s.stopping s.thread s.channel) :
    s.sent = .ok ↔ s.initialized = true := by
  unfold State.sent
  cases hi : s.initialized with
  | false => simp
  | true =>
    rw [hi] at h
    obtain ⟨-, hthread, -⟩ := h.channel_on
    simp [hthread]

/-- The receiver is never gone while there is a sender. -/
theorem Stage.sent_ne_closed {s : State El ι ω}
    (h : Stage s.initialized s.stopping s.thread s.channel) : s.sent ≠ .closed := by
  unfold State.sent
  cases hi : s.initialized with
  | false => simp
  | true =>
    rw [hi] at h
    obtain ⟨-, hthread, -⟩ := h.channel_on
    simp [hthread]

/-! ### What a step does -/

variable [DecidableEq τ] {dropData}

/-- The steps of the scheduler, each with what it found and what it leaves. -/
inductive State.Move (dropData : Dyn El → ω → ω) (s : State El ι ω) :
    Act El ι ω → State El ι ω → Prop
  | start : s.initialized = false → s.stopping = false →
      Move dropData s .start { s with initialized := true, channel := [], thread := .receiving }
  | accept {sub : Submission El ι ω} : s.stopping = false → s.sent = .ok →
      Move dropData s (.submit sub) { s with channel := s.channel ++ [.task sub.toTask] }
  | refuse {sub : Submission El ι ω} : s.stopping = false → s.sent ≠ .ok →
      Move dropData s (.submit sub) { s with world := dropTask dropData sub.toTask s.world }
  | recvShutdown {channel : List (Job El ι ω)} : s.thread = .receiving →
      s.channel = .shutdown :: channel → Move dropData s .recv { s with channel, thread := .returned }
  | recvTask {t : Task El ι ω} {channel : List (Job El ι ω)} : s.thread = .receiving →
      s.channel = .task t :: channel →
      Move dropData s .recv { s with channel, tasks := s.tasks ++ [(t, .running [])] }
  | poll {i : ℕ} {input : ι} {t : Task El ι ω} {inputs : List ι} {phase : Phase ι} {world : ω} :
      s.thread = .receiving ∨ s.thread = .returned → s.tasks[i]? = some (t, .running inputs) →
      pollTask dropData t (inputs ++ [input]) s.world = (phase, world) →
      Move dropData s (.poll i input) { s with world, tasks := s.tasks.set i (t, phase) }
  | exit {world : ω} {tasks : List (Task El ι ω × Phase ι)} : s.thread = .returned →
      dropAll dropData s.world s.tasks = (world, tasks) →
      Move dropData s .exit { s with world, tasks, thread := .ended }
  | stop : s.stopping = false → s.sent = .ok → Move dropData s .stop { s with
      channel := s.channel ++ [.shutdown], initialized := false, stopping := true }
  | stopRefused : s.stopping = false → s.sent = .closed → Move dropData s .stop s
  | join : s.stopping = true → s.thread = .ended →
      Move dropData s .join { s with stopping := false, thread := .none }
  | outside {world : ω} : Move dropData s (.outside world) { s with world }

theorem step_move {s s' : State El ι ω} {a : Act El ι ω} (h : s.step dropData a = some s') :
    s.Move dropData a s' := by
  cases a with
  | start =>
    simp only [State.step] at h
    split at h
    · cases h
    · rename_i hnot
      rw [not_or, Bool.not_eq_true, Bool.not_eq_true] at hnot
      cases h
      exact .start hnot.1 hnot.2
  | submit sub =>
    simp only [State.step] at h
    by_cases hs : s.stopping = true
    · rw [if_pos hs] at h
      cases h
    · rw [if_neg hs] at h
      have hs : s.stopping = false := by simpa using hs
      cases hsent : s.sent with
      | ok =>
        simp only [hsent] at h
        cases h
        exact .accept hs hsent
      | closed =>
        simp only [hsent] at h
        cases h
        exact .refuse hs (by simp [hsent])
      | panicked =>
        simp only [hsent] at h
        cases h
        exact .refuse hs (by simp [hsent])
  | recv =>
    simp only [State.step] at h
    split at h
    · cases h
      exact .recvShutdown ‹_› ‹_›
    · cases h
      exact .recvTask ‹_› ‹_›
    · cases h
  | poll i input =>
    simp only [State.step] at h
    split at h
    · rename_i hthread
      split at h
      · rename_i t inputs ht
        cases h
        exact .poll hthread ht rfl
      · cases h
    · cases h
  | exit =>
    simp only [State.step] at h
    split at h
    · cases h
      exact .exit ‹_› rfl
    · cases h
  | stop =>
    simp only [State.step] at h
    by_cases hs : s.stopping = true
    · rw [if_pos hs] at h
      cases h
    · rw [if_neg hs] at h
      have hs : s.stopping = false := by simpa using hs
      cases hsent : s.sent with
      | ok =>
        simp only [hsent] at h
        cases h
        exact .stop hs hsent
      | closed =>
        simp only [hsent] at h
        cases h
        exact .stopRefused hs hsent
      | panicked =>
        simp only [hsent] at h
        cases h
  | join =>
    simp only [State.step] at h
    split at h
    · rename_i hj
      cases h
      exact .join hj.1 hj.2
    · cases h
  | outside world =>
    cases h
    exact .outside

theorem stage_step {s s' : State El ι ω} {a : Act El ι ω}
    (h : Stage s.initialized s.stopping s.thread s.channel) (hs : s.step dropData a = some s') :
    Stage s'.initialized s'.stopping s'.thread s'.channel := by
  cases step_move hs with
  | start _ hstop =>
    rw [hstop]
    exact .on []
  | @accept sub hstop hsent =>
    have hi := h.sent_iff.mp hsent
    rw [hi] at h
    obtain ⟨-, hthread, ts, hchannel⟩ := h.channel_on
    show Stage s.initialized s.stopping s.thread (s.channel ++ [Job.task sub.toTask])
    rw [hi, hstop, hthread, hchannel, ← List.map_singleton, ← List.map_append]
    exact .on _
  | refuse => exact h
  | recvShutdown hthread hchannel =>
    rw [hthread, hchannel] at h
    exact h.after_shutdown
  | recvTask hthread hchannel =>
    rw [hthread, hchannel] at h
    exact hthread ▸ h.after_task
  | poll => exact h
  | exit hthread =>
    rw [hthread] at h
    exact h.after_exit
  | stop hstop hsent =>
    rw [h.sent_iff.mp hsent] at h
    obtain ⟨-, hthread, ts, hchannel⟩ := h.channel_on
    rw [hthread, hchannel]
    exact .stopping ts
  | stopRefused => exact h
  | join hstop hthread =>
    rw [hthread] at h
    exact h.after_join
  | outside => exact h

/-- A stopped scheduler runs no task. -/
def State.OverWhenStopped (s : State El ι ω) : Prop :=
  s.thread = .none ∨ s.thread = .ended → ∀ x ∈ s.tasks, x.2.Over

theorem over_step {s s' : State El ι ω} {a : Act El ι ω} (h : s.OverWhenStopped)
    (hs : s.step dropData a = some s') : s'.OverWhenStopped := by
  cases step_move hs with
  | start => exact fun hs => by simp at hs
  | recvShutdown => exact fun hs => by simp at hs
  | recvTask hthread =>
    intro hs
    have hs : s.thread = .none ∨ s.thread = .ended := hs
    rw [hthread] at hs
    simp at hs
  | poll hthread =>
    intro hs
    have hs : s.thread = .none ∨ s.thread = .ended := hs
    rcases hthread with hthread | hthread <;> simp [hthread] at hs
  | @exit world tasks _ hdrop =>
    rintro - x hx
    have htasks : tasks = s.tasks.map fun x => (x.1, x.2.afterDrop) := by
      rw [← dropAll_tasks dropData s.world, hdrop]
    subst htasks
    obtain ⟨y, -, rfl⟩ := List.mem_map.mp hx
    exact y.2.over_afterDrop
  | join _ hthread => exact fun _ => h (Or.inr hthread)
  | _ => exact h

/-! ### What is accepted, and what is called back -/

/-- The job that the scheduler accepts. -/
def accepted (s : State El ι ω) : Act El ι ω → Option (Submission El ι ω)
  | .submit sub => if s.sent = .ok then some sub else none
  | _ => none

/-- The jobs accepted so far, in order: those received, and those in the
channel. -/
def jobs (s : State El ι ω) : List (Task El ι ω) :=
  s.tasks.map (·.1) ++ s.channel.filterMap Job.task?

def jobCount (s : State El ι ω) : ℕ := s.tasks.length + (s.channel.filterMap Job.task?).length

omit [DecidableEq τ] in
theorem jobs_length (s : State El ι ω) : (jobs s).length = jobCount s := by
  rw [jobs, List.length_append, List.length_map, jobCount]

omit [DecidableEq τ] in
/-- Task `n` is job `n`. -/
theorem jobs_of_task {s : State El ι ω} {n : ℕ} {t : Task El ι ω} {phase : Phase ι}
    (ht : s.tasks[n]? = some (t, phase)) : (jobs s)[n]? = some t := by
  have hlt := (List.getElem?_eq_some_iff.mp ht).1
  rw [jobs, List.getElem?_append_left (by rwa [List.length_map]), List.getElem?_map, ht]
  rfl

/-- No job is lost, repeated or overtaken. -/
theorem jobs_step {s s' : State El ι ω} {a : Act El ι ω}
    (h : Stage s.initialized s.stopping s.thread s.channel) (hs : s.step dropData a = some s') :
    jobs s' = jobs s ++ (accepted s a).toList.map Submission.toTask := by
  cases step_move hs with
  | start hi hstop =>
    rw [hi, hstop] at h
    rw [jobs, jobs, h.channel_off.2]
    exact (List.append_nil _).symm
  | accept _ hsent =>
    rw [accepted, if_pos hsent, jobs, jobs, List.filterMap_append, ← List.append_assoc]
    rfl
  | refuse _ hsent =>
    rw [accepted, if_neg hsent]
    exact (List.append_nil _).symm
  | recvShutdown _ hchannel =>
    rw [jobs, jobs, hchannel]
    exact (List.append_nil _).symm
  | recvTask _ hchannel =>
    rw [jobs, jobs, hchannel, List.map_append, List.append_assoc]
    exact (List.append_nil _).symm
  | poll _ ht =>
    refine Eq.trans ?_ (List.append_nil _).symm
    exact congrArg (· ++ s.channel.filterMap Job.task?) (map_set_eq Prod.fst ht rfl)
  | @exit world tasks _ hdrop =>
    obtain rfl : s.tasks.map (fun x => (x.1, x.2.afterDrop)) = tasks := by
      rw [← dropAll_tasks dropData s.world, hdrop]
    rw [jobs, jobs, List.map_map]
    exact (List.append_nil _).symm
  | stop =>
    rw [jobs, jobs, List.filterMap_append]
    exact (congrArg _ (List.append_nil _)).trans (List.append_nil _).symm
  | stopRefused => exact (List.append_nil _).symm
  | join => exact (List.append_nil _).symm
  | outside => exact (List.append_nil _).symm

/-- The task that is called back, and its result. -/
def called (s : State El ι ω) : Act El ι ω → Option (ℕ × Dyn El)
  | .poll i input =>
    match s.tasks[i]? with
    | some (t, .running inputs) =>
      match t.task (inputs ++ [input]) with
      | .ready res => some (i, res)
      | _ => none
    | _ => none
  | _ => none

/-- A task that is called back is called with its own data and with what its
own future came to. -/
def CallsOwn (dropData : Dyn El → ω → ω) (pre : List (State El ι ω × Act El ι ω)) (s : State El ι ω)
    (a : Act El ι ω) : Prop :=
  ∀ i res, called s a = some (i, res) → ∃ sub inputs r,
    (events accepted pre)[i]? = some sub ∧ sub.task inputs = .ready r ∧ res = ⟨sub.R, r⟩ ∧
      ∀ s', s.step dropData a = some s' → s'.world = sub.callback sub.data r s.world

structure Inv (tr : List (State El ι ω × Act El ι ω)) (s : State El ι ω) : Prop where
  stage : Stage s.initialized s.stopping s.thread s.channel
  order : (events accepted tr).map Submission.toTask = jobs s
  finished : ∀ i, i ∈ (events called tr).map (·.1) ↔
    ∃ t inputs, s.tasks[i]? = some (t, .finished inputs)
  once : ((events called tr).map (·.1)).Nodup
  safe : ∀ x ∈ s.tasks, x.2 ≠ .asserted
  overWhenStopped : s.OverWhenStopped

theorem inv_init (world : ω) : Inv [] (State.init world : State El ι ω) where
  stage := .off
  order := rfl
  finished i := by simp [events_nil, State.init]
  once := List.nodup_nil
  safe x hx := by cases hx
  overWhenStopped _ x hx := by cases hx

/-- The job of every task was submitted. -/
theorem Inv.submitted {tr : List (State El ι ω × Act El ι ω)} {s : State El ι ω} (h : Inv tr s)
    {i : ℕ} {t : Task El ι ω} {phase : Phase ι} (ht : s.tasks[i]? = some (t, phase)) :
    ∃ sub, (events accepted tr)[i]? = some sub ∧ t = sub.toTask := by
  have hi := jobs_of_task ht
  rw [← h.order, List.getElem?_map] at hi
  obtain ⟨sub, hsub, rfl⟩ := Option.map_eq_some_iff.mp hi
  exact ⟨sub, hsub, rfl⟩

/-- What a poll makes of a submitted task: no assertion fails, and a result is
called back. -/
theorem pollTask_toTask (dropData : Dyn El → ω → ω) (sub : Submission El ι ω) (inputs : List ι)
    (world : ω) : pollTask dropData sub.toTask inputs world =
      match sub.task inputs with
      | .pending => (.running inputs, world)
      | .panicked => (.panicked, dropTask dropData sub.toTask world)
      | .ready r => (.finished inputs, sub.callback sub.data r world) := by
  have htask : sub.toTask.task inputs = (sub.task inputs).map (Dyn.mk sub.R) := rfl
  rw [pollTask, htask]
  cases sub.task inputs with
  | pending => rfl
  | panicked => rfl
  | ready r =>
    simp only [Poll.map, callback_toTask]

/-- A poll never ends in a failed assertion, and a result is called back. -/
theorem pollTask_cases (dropData : Dyn El → ω → ω) (sub : Submission El ι ω) (inputs : List ι)
    (world : ω) :
    (∃ r, sub.task inputs = .ready r ∧
      sub.toTask.task inputs = .ready ⟨sub.R, r⟩ ∧
      pollTask dropData sub.toTask inputs world = (.finished inputs, sub.callback sub.data r world)) ∨
    ((∀ res, sub.toTask.task inputs ≠ .ready res) ∧
      ((pollTask dropData sub.toTask inputs world).1 = .running inputs ∨
        (pollTask dropData sub.toTask inputs world).1 = .panicked)) := by
  have htask : sub.toTask.task inputs = (sub.task inputs).map (Dyn.mk sub.R) := rfl
  rw [pollTask_toTask, htask]
  cases sub.task inputs with
  | pending => exact Or.inr ⟨nofun, Or.inl rfl⟩
  | panicked => exact Or.inr ⟨nofun, Or.inr rfl⟩
  | ready r => exact Or.inl ⟨r, rfl, rfl, rfl⟩

theorem callsOwn_of_inv {tr : List (State El ι ω × Act El ι ω)} {s : State El ι ω}
    (h : Inv tr s) (a : Act El ι ω) : CallsOwn dropData tr s a := by
  intro i res hcalled
  cases a with
  | poll j input =>
    simp only [called] at hcalled
    split at hcalled
    · rename_i t inputs ht
      split at hcalled
      · rename_i res' hready
        cases hcalled
        obtain ⟨sub, hsub, rfl⟩ := h.submitted ht
        obtain ⟨r, hr, rfl⟩ := task_toTask_ready hready
        refine ⟨sub, inputs ++ [input], r, hsub, hr, rfl, fun s' hs => ?_⟩
        cases step_move hs with
        | poll hthread ht' hpoll =>
          obtain ⟨rfl, hinputs⟩ := Prod.mk.inj (Option.some.inj (ht'.symm.trans ht))
          obtain rfl := Phase.running.inj hinputs
          rw [pollTask, hready] at hpoll
          simp only [callback_toTask] at hpoll
          exact (Prod.mk.inj hpoll).2.symm
      · cases hcalled
    · cases hcalled
  | _ => cases hcalled

theorem Inv.order_step {tr : List (State El ι ω × Act El ι ω)} {s s' : State El ι ω}
    {a : Act El ι ω} (h : Inv tr s) (hs : s.step dropData a = some s') :
    (events accepted (tr ++ [(s, a)])).map Submission.toTask = jobs s' := by
  rw [events_snoc, List.map_append, h.order, jobs_step h.stage hs]

/-- A step that calls none back and leaves the tasks. -/
theorem Inv.of_same {tr : List (State El ι ω × Act El ι ω)} {s s' : State El ι ω}
    {a : Act El ι ω} (h : Inv tr s) (hs : s.step dropData a = some s') (hcalled : called s a = none)
    (htasks : s'.tasks = s.tasks) : Inv (tr ++ [(s, a)]) s' where
  stage := stage_step h.stage hs
  order := h.order_step hs
  finished i := by rw [events_snoc, hcalled, htasks, Option.toList_none, List.append_nil, h.finished]
  once := by rw [events_snoc, hcalled, Option.toList_none, List.append_nil]; exact h.once
  safe := htasks ▸ h.safe
  overWhenStopped := over_step h.overWhenStopped hs

/-- **Step lemma.** -/
theorem inv_step {tr : List (State El ι ω × Act El ι ω)} {s s' : State El ι ω} {a : Act El ι ω}
    (h : Inv tr s) (hs : s.step dropData a = some s') : Inv (tr ++ [(s, a)]) s' := by
  have hstage := stage_step h.stage hs
  have hover := over_step h.overWhenStopped hs
  have horder := h.order_step hs
  cases step_move hs with
  | @recvTask t channel hthread hchannel =>
    refine ⟨hstage, horder, fun i => ?_, ?_, fun x hx => ?_, hover⟩
    · rw [events_snoc, show called s .recv = none from rfl, Option.toList_none, List.append_nil,
        h.finished]
      exact exists_congr fun u => exists_congr fun inputs => spawned_finished_iff.symm
    · rw [events_snoc, show called s .recv = none from rfl, Option.toList_none, List.append_nil]
      exact h.once
    · rcases List.mem_append.mp hx with hx | hx
      · exact h.safe x hx
      · rw [List.mem_singleton.mp hx]
        exact nofun
  | @poll i input t inputs phase world hthread ht hpoll =>
    obtain ⟨sub, -, rfl⟩ := h.submitted ht
    have hlt := (List.getElem?_eq_some_iff.mp ht).1
    have hget (j : ℕ) : (s.tasks.set i (sub.toTask, phase))[j]? =
        if i = j then some (sub.toTask, phase) else s.tasks[j]? := by
      rw [List.getElem?_set]
      by_cases hj : i = j
      · rw [if_pos hj, if_pos hj, if_pos hlt]
      · rw [if_neg hj, if_neg hj]
    rcases pollTask_cases dropData sub (inputs ++ [input]) s.world with
      ⟨r, -, hready, hcall⟩ | ⟨hready, hgo⟩
    · -- the task is called back, as it was not before
      obtain ⟨rfl, -⟩ := Prod.mk.inj (hpoll.symm.trans hcall)
      have hcalled : called s (.poll i input) = some (i, ⟨sub.R, r⟩) := by
        simp only [called, ht, hready]
      have hnew : i ∉ (events called tr).map (·.1) := by
        rw [h.finished, ht]
        rintro ⟨u, inputs, hu⟩
        cases hu
      refine ⟨hstage, horder, fun j => ?_, ?_, fun x hx => ?_, hover⟩
      · rw [events_snoc, hcalled, List.map_append, List.mem_append, h.finished, hget]
        by_cases hj : i = j
        · subst hj
          rw [if_pos rfl]
          exact iff_of_true (Or.inr (by simp)) ⟨_, _, rfl⟩
        · rw [if_neg hj]
          simp [Ne.symm hj]
      · rw [events_snoc, hcalled, List.map_append, List.nodup_append]
        refine ⟨h.once, List.pairwise_singleton _ _, fun x hx y hy he => hnew ?_⟩
        obtain rfl : y = i := by simpa using hy
        exact he ▸ hx
      · rcases List.mem_or_eq_of_mem_set hx with hx | rfl
        · exact h.safe x hx
        · exact nofun
    · have hcalled : called s (.poll i input) = none := by
        cases hp : sub.toTask.task (inputs ++ [input]) with
        | ready res => exact absurd hp (hready res)
        | pending => simp only [called, ht, hp]
        | panicked => simp only [called, ht, hp]
      have hphase : (∀ inputs, phase ≠ .finished inputs) ∧ phase ≠ .asserted := by
        rw [hpoll] at hgo
        rcases hgo with rfl | rfl
        · exact ⟨nofun, nofun⟩
        · exact ⟨nofun, nofun⟩
      refine ⟨hstage, horder, fun j => ?_, ?_, fun x hx => ?_, hover⟩
      · rw [events_snoc, hcalled, Option.toList_none, List.append_nil, h.finished, hget]
        by_cases hj : i = j
        · subst hj
          rw [if_pos rfl, ht]
          refine iff_of_false ?_ ?_
          · rintro ⟨u, inputs, hu⟩
            cases hu
          · rintro ⟨u, inputs, hu⟩
            exact hphase.1 inputs (Prod.mk.inj (Option.some.inj hu)).2
        · rw [if_neg hj]
      · rw [events_snoc, hcalled, Option.toList_none, List.append_nil]
        exact h.once
      · rcases List.mem_or_eq_of_mem_set hx with hx | rfl
        · exact h.safe x hx
        · exact hphase.2
  | @exit world tasks hthread hdrop =>
    obtain rfl : s.tasks.map (fun x => (x.1, x.2.afterDrop)) = tasks := by
      rw [← dropAll_tasks dropData s.world, hdrop]
    refine ⟨hstage, horder, fun i => ?_, ?_, fun x hx => ?_, hover⟩
    · rw [events_snoc, show called s .exit = none from rfl, Option.toList_none, List.append_nil,
        h.finished]
      exact exists_congr fun t => exists_congr fun inputs => afterDrop_finished_iff.symm
    · rw [events_snoc, show called s .exit = none from rfl, Option.toList_none, List.append_nil]
      exact h.once
    · obtain ⟨y, hy, rfl⟩ := List.mem_map.mp hx
      exact fun he => h.safe y hy (Phase.afterDrop_eq_asserted.mp he)
  | _ => exact h.of_same hs rfl rfl

theorem inv_run {world : ω} {tr : List (State El ι ω × Act El ι ω)} {s : State El ι ω}
    (h : Run (State.step dropData) (State.init world) tr s) : Inv tr s :=
  h.history steps_true (inv_init world) fun _ _ _ _ hi _ hs => inv_step hi hs

/-- What becomes of the jobs of a run. -/
structure Delivered (dropData : Dyn El → ω → ω) (tr : List (State El ι ω × Act El ι ω))
    (s : State El ι ω) : Prop where
  /-- The jobs accepted, in order: those received, and those in the channel. -/
  order : (events accepted tr).map Submission.toTask =
    s.tasks.map (·.1) ++ s.channel.filterMap Job.task?
  once : ((events called tr).map (·.1)).Nodup
  own : StepsAfter (CallsOwn dropData) tr
  /-- A task that has been called back is over, as one that is not is not. -/
  finished : ∀ i, i ∈ (events called tr).map (·.1) ↔
    ∃ t inputs, s.tasks[i]? = some (t, .finished inputs)
  asserts : ∀ x ∈ s.tasks, x.2 ≠ .asserted
  /-- Once the scheduler is stopped, every job has been received and is over. -/
  stopped : s.thread = .none ∨ s.thread = .ended →
    s.channel = [] ∧ ∀ x ∈ s.tasks, x.2.Over

/-- **Each job is called back once**, with its own result and its own data,
whatever the order in which jobs are sent, received, polled and ended; jobs are
received in the order they were sent, and none is left in the channel when the
scheduler has been stopped. -/
theorem each_job_called_back_once (dropData : Dyn El → ω → ω) (world : ω)
    (tr : List (State El ι ω × Act El ι ω)) (s : State El ι ω)
    (h : Run (State.step dropData) (State.init world) tr s) : Delivered dropData tr s := by
  have hinv := inv_run h
  refine ⟨hinv.order, hinv.once, ?_, hinv.finished, hinv.safe, fun hs => ⟨?_, hinv.overWhenStopped hs⟩⟩
  · exact (h.stepsAfter_iff steps_true (inv_init world) (fun _ _ _ _ hi _ hs => inv_step hi hs)
      fun _ _ _ _ hi _ _ => iff_of_true (callsOwn_of_inv hi _) trivial).mpr steps_true
  · have hstage := hinv.stage
    rcases hs with hs | hs
    · rw [hs] at hstage
      exact hstage.channel_none
    · rw [hs] at hstage
      exact hstage.channel_ended

end

/-- Results and data of two types. -/
abbrev CountOrList : Bool → Type
  | false => ℕ
  | true => List ℕ

/-- A task that waits for two answers and comes to their sum. -/
def sumTask : Submission CountOrList ℕ (List (List ℕ)) where
  R := false
  T := true
  task := fun inputs => if inputs.length < 2 then .pending else .ready (inputs.foldl Nat.add 0)
  callback := fun data res world => world ++ [data.getD [] ++ [res]]
  data := some [10]

/-- A task that comes to its answers. -/
def listTask : Submission CountOrList ℕ (List (List ℕ)) where
  R := true
  T := false
  task := fun inputs => if inputs.isEmpty then .pending else .ready inputs
  callback := fun data res world => world ++ [data.getD 0 :: res]
  data := some 20

theorem each_job_called_back_once_overtaking : ∃ s,
    exec (State.step fun _ world => world) (State.init [])
      [.start, .submit sumTask, .submit listTask, .recv, .recv, .poll 0 3, .poll 1 5, .poll 0 4,
        .stop, .recv, .exit, .join] = some s ∧
    s.world = [[20, 5], [10, 7]] ∧
    Delivered (fun _ world => world) (trace (State.step fun _ world => world) (State.init [])
      [.start, .submit sumTask, .submit listTask, .recv, .recv, .poll 0 3, .poll 1 5, .poll 0 4,
        .stop, .recv, .exit, .join]) s :=
  ⟨_, rfl, rfl, each_job_called_back_once _ _ _ _ (exec_run rfl)⟩

end Scheduling
end ValkeyLdap
