/-
# Loading and unloading the module

`initializer` and `deinitializer` (`src/lib.rs`) start and stop two threads:
the scheduler's (`src/vkldap/scheduler.rs`) and the failure detector's
(`src/vkldap/failure_detector.rs`). The main thread and the detector submit
tasks and wait for them (`SyncTasks`); what the tasks do is left open.

Several lines of these paths panic if an order is not kept: `get_sender`
without a scheduler, `shutdown` of a detector that was not started,
`state.take().unwrap()`. The detector submits without asking whether there is
a scheduler, and `stop_job_scheduler` holds the lock that a submission needs
while it joins the scheduler's thread.

`load_unload_safe`: over any number of loads and unloads neither thread
panics, whoever needs the lock is not joined by its holder, and nothing of the
module runs on when it has been unloaded; and both joins of an unload end where
no thread is passed by and the task of each iteration is called back.

Key theorems: `inv_step`, `detector_joined`, `scheduler_joined`,
`load_unload_safe`.
-/
import ValkeyLdap.Lib.Endless
import ValkeyLdap.SyncTasks

namespace ValkeyLdap
namespace Lifecycle

open Runs Scheduling

section
variable {τ : Type} (El : τ → Type) (ι W : Type)

/-- Where the main thread goes on when a call has returned. -/
inductive After
  | loading
  | serving
  | stopping
  deriving DecidableEq, Repr

/-- The main thread: the module not loaded; `initializer` about to start the
detector; in the rest of it; serving; `deinitializer` joining the detector's
thread, about to clear the server list, about to stop the scheduler, joining
its thread; in `submit_sync_task`; panicked. -/
inductive Main
  | unloaded
  | scheduled
  | loading
  | serving
  | joiningDetector
  | clearing
  | stopping
  | joiningScheduler
  | waiting (j : ℕ) (next : After)
  | panicked
  deriving DecidableEq, Repr

/-- The detector's thread: not there; asleep; in `submit_sync_task`; about to
look at `stop`; over; panicked. -/
inductive Detector
  | none
  | sleeping
  | waiting (j : ℕ)
  | deciding
  | exited
  | panicked
  deriving DecidableEq, Repr

/-- The scheduler and its tasks go on; call `j` looks, or is woken for no
reason; others change what the clients share. -/
inductive Background
  | recv
  | poll (i : ℕ) (input : ι)
  | exit
  | check (j : ℕ)
  | wake (j : ℕ)
  | outside (world : W)

structure State where
  sync : Sync.State El ι W
  main : Main
  detector : Detector
  /-- `FailureDetector.stop`. -/
  stop : Bool
  /-- The handle in `FailureDetector.thread`. -/
  thread : Bool

inductive Act
  /-- `MODULE LOAD`: `start_job_scheduler`. -/
  | load
  /-- `start_failure_detector_thread`. -/
  | startDetector
  /-- `initializer` returns. -/
  | loaded
  /-- The main thread calls `submit_sync_task`, if the scheduler is ready. -/
  | mainCall (R : τ) (task : Future ι (El R))
  | mainReturn
  /-- An `AUTH` submits a task. -/
  | auth (sub : Submission El ι W)
  /-- `MODULE UNLOAD`: `shutdown_failure_detector_thread` up to the join. -/
  | unload
  | joinedDetector
  /-- `stop_job_scheduler` up to the join. -/
  | stop
  | joinedScheduler
  | detectorCall (R : τ) (task : Future ι (El R))
  | detectorReturn
  | detectorDecide
  | background (b : Background ι W)

end

section
variable {τ : Type} {El : τ → Type} {ι W : Type}

def After.main : After → Main
  | .loading => .loading
  | .serving => .serving
  | .stopping => .stopping

/-- Where the main thread may call from, and goes on after the call. -/
def Main.after : Main → Option After
  | .loading => some .loading
  | .serving => some .serving
  | .clearing => some .stopping
  | _ => none

/-- What a call that has returned leaves the main thread at: an error of
`clear_server_list` ends `deinitializer`, and the module stays loaded. -/
def After.returned (next : After) : Result (Dyn El) → Main
  | .ok _ => next.main
  | .error _ =>
    match next with
    | .stopping => .serving
    | next => next.main

def Background.act : Background ι W → Sync.Act El ι W
  | .recv => .recv
  | .poll i input => .poll i input
  | .exit => .exit
  | .check j => .check j
  | .wake j => .wake j
  | .outside world => .outside world

/-- How call `j` stands. -/
def waiter (s : Sync.State El ι W) (j : ℕ) : Option (Waiter El) := (Sync.calls s)[j]?.map (·.waiter)

variable [DecidableEq τ] (T : τ) (dropData : Dyn El → W → W)

def State.step (s : State El ι W) : Act El ι W → Option (State El ι W)
  | .load =>
    if s.main = .unloaded then
      (Sync.step T dropData s.sync .start).map fun sync => { s with sync, main := .scheduled }
    else none
  | .startDetector =>
    if s.main = .scheduled then
      some { s with stop := false, thread := true, detector := .sleeping, main := .loading }
    else none
  | .loaded => if s.main = .loading then some { s with main := .serving } else none
  | .mainCall R task =>
    match s.main.after with
    | none => none
    | some next =>
      if s.sync.initialized then
        (Sync.step T dropData s.sync (.call R task)).map fun sync =>
          { s with sync, main := .waiting (Sync.calls s.sync).length next }
      else some { s with main := next.main }
  | .mainReturn =>
    match s.main with
    | .waiting j next =>
      match waiter s.sync j with
      | some (.returned res) => some { s with main := next.returned res }
      | some .panicked => some { s with main := .panicked }
      | _ => none
    | _ => none
  | .auth sub =>
    if s.main = .serving ∧ s.sync.initialized = true then
      (Sync.step T dropData s.sync (.submit sub)).map fun sync => { s with sync }
    else none
  | .unload =>
    if s.main = .serving then
      if s.thread then some { s with stop := true, thread := false, main := .joiningDetector }
      else some { s with stop := true, main := .panicked }
    else none
  | .joinedDetector =>
    if s.main = .joiningDetector then
      match s.detector with
      | .exited => some { s with detector := .none, main := .clearing }
      | .panicked => some { s with detector := .none, main := .serving }
      | _ => none
    else none
  | .stop =>
    if s.main = .stopping then
      match s.sync.sent with
      | .ok => (Sync.step T dropData s.sync .stop).map fun sync =>
          { s with sync, main := .joiningScheduler }
      | .closed => some { s with main := .serving }
      | .panicked => some { s with main := .panicked }
    else none
  | .joinedScheduler =>
    if s.main = .joiningScheduler then
      (Sync.step T dropData s.sync .join).map fun sync => { s with sync, main := .unloaded }
    else none
  | .detectorCall R task =>
    if s.detector = .sleeping then
      (Sync.step T dropData s.sync (.call R task)).map fun sync =>
        { s with sync, detector := .waiting (Sync.calls s.sync).length }
    else none
  | .detectorReturn =>
    match s.detector with
    | .waiting j =>
      match waiter s.sync j with
      | some (.returned _) => some { s with detector := .deciding }
      | some .panicked => some { s with detector := .panicked }
      | _ => none
    | _ => none
  | .detectorDecide =>
    if s.detector = .deciding then
      some { s with detector := if s.stop then .exited else .sleeping }
    else none
  | .background b => (Sync.step T dropData s.sync b.act).map fun sync => { s with sync }

end

section
variable {τ : Type} (El : τ → Type) (ι : Type) {W : Type}

/-- The module has not been loaded yet. -/
def State.init (world : W) : State El ι W :=
  { sync := Scheduling.State.init (world, []), main := .unloaded, detector := .none, stop := false
    thread := false }

end

/-! ### Calls that wait -/

section
variable {τ : Type} {El : τ → Type} {ι W : Type}

/-- Call `j` has sent a job. -/
def HasJob (s : Sync.State El ι W) (j : ℕ) : Prop :=
  ∃ n, ((Sync.calls s).map Call.job)[j]? = some (some n)

variable [DecidableEq τ] {T : τ} {dropData : Dyn El → W → W}

theorem hasJob_step {s s' : Sync.State El ι W} {a : Sync.Act El ι W} (h : Sync.CallsOk T s)
    (hs : Sync.step T dropData s a = some s') {j : ℕ} (hj : HasJob s j) : HasJob s' j := by
  obtain ⟨n, hn⟩ := hj
  obtain ⟨rest, hrest⟩ := Sync.jobs_kept h hs
  refine ⟨n, ?_⟩
  rw [← hrest, List.getElem?_append_left (List.getElem?_eq_some_iff.mp hn).1, hn]

/-- A call that finds a scheduler sends a job. -/
theorem hasJob_call {s s' : Sync.State El ι W} {R : τ} {task : Future ι (El R)}
    (h : Sync.CallsOk T s) (hinit : s.initialized = true)
    (hs : Sync.step T dropData s (.call R task) = some s') :
    HasJob s' (Sync.calls s).length := by
  have hsent : s.sent = .ok := h.stage.sent_iff.mpr hinit
  refine ⟨jobCount s, ?_⟩
  rw [List.getElem?_map, Sync.calls_call hs, List.getElem?_concat_length, Sync.begin, hsent]
  rfl

/-- A call that has sent a job neither panics nor returns an error. -/
theorem waiter_of_hasJob {s : Sync.State El ι W} (h : Sync.CallsOk T s) {j : ℕ}
    (hj : HasJob s j) {w : Waiter El} (hw : waiter s j = some w) :
    w = .checking ∨ w = .asleep ∨ ∃ res, w = .returned (.ok res) := by
  obtain ⟨n, hn⟩ := hj
  obtain ⟨c, hc, rfl⟩ := Option.map_eq_some_iff.mp hw
  rw [List.getElem?_map, hc] at hn
  have hok := h.sent j c n hc (Option.some.inj hn)
  by_cases hf : ∃ inputs, Sync.FinishedWith s n inputs
  · obtain ⟨inputs, hf⟩ := hf
    obtain ⟨r, -, ⟨-, hw⟩ | ⟨-, hw⟩⟩ := hok.settled inputs hf
    · exact Or.inl hw
    · exact Or.inr (Or.inr ⟨_, hw⟩)
  · exact (hok.pending fun inputs hf' => hf ⟨inputs, hf'⟩).2.imp id Or.inl

/-- Only a start and a stop touch the sender, and a join the lock. -/
theorem control_kept {s s' : Sync.State El ι W} {a : Sync.Act El ι W}
    (hs : Sync.step T dropData s a = some s') (hstart : a ≠ .start) (hstop : a ≠ .stop)
    (hjoin : a ≠ .join) : s'.initialized = s.initialized ∧ s'.stopping = s.stopping := by
  obtain ⟨world, b, hs, hb⟩ := Sync.step_sched hs
  cases step_move hs with
  | start => exact absurd (hb.1 rfl) hstart
  | stop => exact absurd (hb.2.1 rfl) hstop
  | stopRefused => exact absurd (hb.2.1 rfl) hstop
  | join => exact absurd (hb.2.2 rfl) hjoin
  | _ => exact ⟨rfl, rfl⟩

theorem sync_over_step {s s' : Sync.State El ι W} {a : Sync.Act El ι W} (h : s.OverWhenStopped)
    (hs : Sync.step T dropData s a = some s') : s'.OverWhenStopped := by
  obtain ⟨world, b, hs, -⟩ := Sync.step_sched hs
  exact over_step (s := { s with world }) h hs

theorem start_control {s s' : Sync.State El ι W} (hs : Sync.step T dropData s .start = some s') :
    s'.initialized = true ∧ s'.stopping = false := by
  have hs : s.step (Sync.liftDrop dropData) .start = some s' := hs
  cases step_move hs with
  | start _ hstop => exact ⟨rfl, hstop⟩

theorem stop_control {s s' : Sync.State El ι W} (hsent : s.sent = .ok)
    (hs : Sync.step T dropData s .stop = some s') :
    s'.initialized = false ∧ s'.stopping = true := by
  have hs : s.step (Sync.liftDrop dropData) .stop = some s' := hs
  cases step_move hs with
  | stop => exact ⟨rfl, rfl⟩
  | stopRefused _ hclosed =>
    rw [hsent] at hclosed
    cases hclosed

theorem join_control {s s' : Sync.State El ι W} (hs : Sync.step T dropData s .join = some s') :
    s'.initialized = s.initialized ∧ s'.stopping = false := by
  have hs : s.step (Sync.liftDrop dropData) .join = some s' := hs
  cases step_move hs with
  | join => exact ⟨rfl, rfl⟩

end

/-! ### What a step does -/

section
variable {τ : Type} {El : τ → Type} {ι W : Type} [DecidableEq τ]

/-- The steps of the two threads, each with what it found and what it leaves. -/
inductive State.Move (T : τ) (dropData : Dyn El → W → W) (s : State El ι W) :
    Act El ι W → State El ι W → Prop
  | load {sync : Sync.State El ι W} : s.main = .unloaded →
      Sync.step T dropData s.sync .start = some sync →
      Move T dropData s .load { s with sync, main := .scheduled }
  | startDetector : s.main = .scheduled → Move T dropData s .startDetector
      { s with stop := false, thread := true, detector := .sleeping, main := .loading }
  | loaded : s.main = .loading → Move T dropData s .loaded { s with main := .serving }
  | mainCall {R : τ} {task : Future ι (El R)} {next : After} {sync : Sync.State El ι W} :
      s.main.after = some next → s.sync.initialized = true →
      Sync.step T dropData s.sync (.call R task) = some sync →
      Move T dropData s (.mainCall R task)
        { s with sync, main := .waiting (Sync.calls s.sync).length next }
  | mainSkip {R : τ} {task : Future ι (El R)} {next : After} : s.main.after = some next →
      s.sync.initialized = false → Move T dropData s (.mainCall R task) { s with main := next.main }
  | mainReturn {j : ℕ} {next : After} {res : Result (Dyn El)} : s.main = .waiting j next →
      waiter s.sync j = some (.returned res) →
      Move T dropData s .mainReturn { s with main := next.returned res }
  | mainPanic {j : ℕ} {next : After} : s.main = .waiting j next →
      waiter s.sync j = some .panicked → Move T dropData s .mainReturn { s with main := .panicked }
  | auth {sub : Submission El ι W} {sync : Sync.State El ι W} : s.main = .serving →
      Sync.step T dropData s.sync (.submit sub) = some sync →
      Move T dropData s (.auth sub) { s with sync }
  | unload : s.main = .serving → s.thread = true → Move T dropData s .unload
      { s with stop := true, thread := false, main := .joiningDetector }
  | unloadPanic : s.main = .serving → s.thread = false →
      Move T dropData s .unload { s with stop := true, main := .panicked }
  | joinedDetector : s.main = .joiningDetector → s.detector = .exited →
      Move T dropData s .joinedDetector { s with detector := .none, main := .clearing }
  | joinedPanic : s.main = .joiningDetector → s.detector = .panicked →
      Move T dropData s .joinedDetector { s with detector := .none, main := .serving }
  | stop {sync : Sync.State El ι W} : s.main = .stopping → s.sync.sent = .ok →
      Sync.step T dropData s.sync .stop = some sync →
      Move T dropData s .stop { s with sync, main := .joiningScheduler }
  | stopRefused : s.main = .stopping → s.sync.sent = .closed →
      Move T dropData s .stop { s with main := .serving }
  | stopPanic : s.main = .stopping → s.sync.sent = .panicked →
      Move T dropData s .stop { s with main := .panicked }
  | joinedScheduler {sync : Sync.State El ι W} : s.main = .joiningScheduler →
      Sync.step T dropData s.sync .join = some sync →
      Move T dropData s .joinedScheduler { s with sync, main := .unloaded }
  | detectorCall {R : τ} {task : Future ι (El R)} {sync : Sync.State El ι W} :
      s.detector = .sleeping → Sync.step T dropData s.sync (.call R task) = some sync →
      Move T dropData s (.detectorCall R task)
        { s with sync, detector := .waiting (Sync.calls s.sync).length }
  | detectorReturn {j : ℕ} {res : Result (Dyn El)} : s.detector = .waiting j →
      waiter s.sync j = some (.returned res) →
      Move T dropData s .detectorReturn { s with detector := .deciding }
  | detectorPanic {j : ℕ} : s.detector = .waiting j → waiter s.sync j = some .panicked →
      Move T dropData s .detectorReturn { s with detector := .panicked }
  | detectorDecide : s.detector = .deciding → Move T dropData s .detectorDecide
      { s with detector := if s.stop then .exited else .sleeping }
  | background {b : Background ι W} {sync : Sync.State El ι W} :
      Sync.step T dropData s.sync b.act = some sync →
      Move T dropData s (.background b) { s with sync }

variable {T : τ} {dropData : Dyn El → W → W} {s s' : State El ι W}

theorem step_move {a : Act El ι W} (h : s.step T dropData a = some s') : s.Move T dropData a s' := by
  cases a with
  | load =>
    simp only [State.step] at h
    split at h
    · obtain ⟨sync, hsync, rfl⟩ := Option.map_eq_some_iff.mp h
      exact .load ‹_› hsync
    · cases h
  | startDetector =>
    simp only [State.step] at h
    split at h
    · cases h
      exact .startDetector ‹_›
    · cases h
  | loaded =>
    simp only [State.step] at h
    split at h
    · cases h
      exact .loaded ‹_›
    · cases h
  | mainCall R task =>
    simp only [State.step] at h
    cases hafter : s.main.after with
    | none => simp [hafter] at h
    | some next =>
      simp only [hafter] at h
      by_cases hinit : s.sync.initialized = true
      · rw [if_pos hinit] at h
        obtain ⟨sync, hsync, rfl⟩ := Option.map_eq_some_iff.mp h
        exact .mainCall hafter hinit hsync
      · rw [if_neg hinit] at h
        cases h
        exact .mainSkip hafter (by simpa using hinit)
  | mainReturn =>
    simp only [State.step] at h
    split at h
    · rename_i j next hmain
      split at h
      · cases h
        exact .mainReturn hmain ‹_›
      · cases h
        exact .mainPanic hmain ‹_›
      · cases h
    · cases h
  | auth sub =>
    simp only [State.step] at h
    split at h
    · obtain ⟨sync, hsync, rfl⟩ := Option.map_eq_some_iff.mp h
      rename_i hauth
      exact .auth hauth.1 hsync
    · cases h
  | unload =>
    simp only [State.step] at h
    split at h
    · rename_i hmain
      by_cases hthread : s.thread = true
      · rw [if_pos hthread] at h
        cases h
        exact .unload hmain hthread
      · rw [if_neg hthread] at h
        cases h
        exact .unloadPanic hmain (by simpa using hthread)
    · cases h
  | joinedDetector =>
    simp only [State.step] at h
    split at h
    · rename_i hmain
      split at h
      · cases h
        exact .joinedDetector hmain ‹_›
      · cases h
        exact .joinedPanic hmain ‹_›
      · cases h
    · cases h
  | stop =>
    simp only [State.step] at h
    split at h
    · rename_i hmain
      cases hsent : s.sync.sent with
      | ok =>
        simp only [hsent] at h
        obtain ⟨sync, hsync, rfl⟩ := Option.map_eq_some_iff.mp h
        exact .stop hmain hsent hsync
      | closed =>
        simp only [hsent] at h
        cases h
        exact .stopRefused hmain hsent
      | panicked =>
        simp only [hsent] at h
        cases h
        exact .stopPanic hmain hsent
    · cases h
  | joinedScheduler =>
    simp only [State.step] at h
    split at h
    · obtain ⟨sync, hsync, rfl⟩ := Option.map_eq_some_iff.mp h
      exact .joinedScheduler ‹_› hsync
    · cases h
  | detectorCall R task =>
    simp only [State.step] at h
    split at h
    · obtain ⟨sync, hsync, rfl⟩ := Option.map_eq_some_iff.mp h
      exact .detectorCall ‹_› hsync
    · cases h
  | detectorReturn =>
    simp only [State.step] at h
    split at h
    · rename_i j hdetector
      split at h
      · cases h
        exact .detectorReturn hdetector ‹_›
      · cases h
        exact .detectorPanic hdetector ‹_›
      · cases h
    · cases h
  | detectorDecide =>
    simp only [State.step] at h
    split at h
    · cases h
      exact .detectorDecide ‹_›
    · cases h
  | background b =>
    obtain ⟨sync, hsync, rfl⟩ := Option.map_eq_some_iff.mp h
    exact .background hsync

/-! ### The invariant -/

/-- A detector that nobody has told to stop. -/
structure Up (detector : Detector) (stop thread : Bool) : Prop where
  there : detector ≠ .none
  goesOn : detector ≠ .exited
  stop : stop = false
  thread : thread = true

/-- What the main thread finds where it is: whether there is a scheduler, and
whether one is being stopped; the detector, its flag and its handle. -/
def Main.Finds (initialized stopping : Bool) (detector : Detector) (stop thread : Bool) :
    Main → Prop
  | .unloaded => initialized = false ∧ stopping = false ∧ detector = .none
  | .scheduled => initialized = true ∧ stopping = false ∧ detector = .none
  | .loading | .serving | .waiting _ .loading | .waiting _ .serving =>
    initialized = true ∧ stopping = false ∧ Up detector stop thread
  | .joiningDetector => initialized = true ∧ stopping = false ∧ detector ≠ .none ∧ stop = true
  | .clearing | .stopping | .waiting _ .stopping =>
    initialized = true ∧ stopping = false ∧ detector = .none
  | .joiningScheduler => initialized = false ∧ stopping = true ∧ detector = .none
  | .panicked => False

/-- The detector goes on. -/
theorem Main.Finds.detector {initialized stopping stop thread : Bool} {d d' : Detector} {main : Main}
    (h : main.Finds initialized stopping d stop thread) (hd : d ≠ .none) (hd' : d' ≠ .none)
    (hgo : stop = false → d' ≠ .exited) : main.Finds initialized stopping d' stop thread := by
  have hup (h : Up d stop thread) : Up d' stop thread := ⟨hd', hgo h.stop, h.stop, h.thread⟩
  cases main with
  | unloaded => exact absurd h.2.2 hd
  | scheduled => exact absurd h.2.2 hd
  | loading => exact ⟨h.1, h.2.1, hup h.2.2⟩
  | serving => exact ⟨h.1, h.2.1, hup h.2.2⟩
  | joiningDetector => exact ⟨h.1, h.2.1, hd', h.2.2.2⟩
  | clearing => exact absurd h.2.2 hd
  | stopping => exact absurd h.2.2 hd
  | joiningScheduler => exact absurd h.2.2 hd
  | waiting j next =>
    cases next with
    | loading => exact ⟨h.1, h.2.1, hup h.2.2⟩
    | serving => exact ⟨h.1, h.2.1, hup h.2.2⟩
    | stopping => exact absurd h.2.2 hd
  | panicked => exact h

/-- A detector that is there finds a scheduler, and nobody holds the lock. -/
theorem Main.Finds.scheduler {initialized stopping stop thread : Bool} {d : Detector} {main : Main}
    (h : main.Finds initialized stopping d stop thread) (hd : d ≠ .none) :
    initialized = true ∧ stopping = false := by
  cases main with
  | unloaded => exact absurd h.2.2 hd
  | joiningScheduler => exact absurd h.2.2 hd
  | waiting j next => cases next <;> exact ⟨h.1, h.2.1⟩
  | panicked => exact h.elim
  | _ => exact ⟨h.1, h.2.1⟩

/-- Only the main thread's stop holds the lock. -/
theorem Main.Finds.stopping {initialized stop thread : Bool} {d : Detector} {main : Main}
    (h : main.Finds initialized true d stop thread) : main = .joiningScheduler ∧ d = .none := by
  cases main with
  | joiningScheduler => exact ⟨rfl, h.2.2⟩
  | waiting j next => cases next <;> exact absurd h.2.1 nofun
  | panicked => exact h.elim
  | _ => exact absurd h.2.1 nofun

/-- Where a call may begin, and is awaited, the main thread finds the same. -/
theorem Main.Finds.call {initialized stopping stop thread : Bool} {d : Detector} {main : Main}
    (h : main.Finds initialized stopping d stop thread) {next : After}
    (hafter : main.after = some next) (j : ℕ) :
    initialized = true ∧ (Main.waiting j next).Finds initialized stopping d stop thread := by
  cases main with
  | loading =>
    cases hafter
    exact ⟨h.1, h⟩
  | serving =>
    cases hafter
    exact ⟨h.1, h⟩
  | clearing =>
    cases hafter
    exact ⟨h.1, h⟩
  | _ => cases hafter

omit [DecidableEq τ] in
theorem Main.Finds.return {initialized stopping stop thread : Bool} {d : Detector} {next : After}
    {j : ℕ} (h : (Main.waiting j next).Finds initialized stopping d stop thread) (res : Dyn El) :
    (next.returned (.ok res)).Finds initialized stopping d stop thread := by
  cases next <;> exact h

structure Inv (T : τ) (s : State El ι W) : Prop where
  calls : Sync.CallsOk T s.sync
  overWhenStopped : s.sync.OverWhenStopped
  finds : s.main.Finds s.sync.initialized s.sync.stopping s.detector s.stop s.thread
  mainJob : ∀ j next, s.main = .waiting j next → HasJob s.sync j
  detectorJob : ∀ j, s.detector = .waiting j → HasJob s.sync j
  detector : s.detector ≠ .panicked

theorem inv_init (world : W) : Inv T (State.init El ι world) where
  calls := Sync.callsOk_init world
  overWhenStopped _ x hx := by cases hx
  finds := ⟨rfl, rfl, rfl⟩
  mainJob := nofun
  detectorJob := nofun
  detector := nofun

/-- The scheduler takes a step that is no start, no stop and no join. -/
theorem Inv.sync (h : Inv T s) {a : Sync.Act El ι W} {sync : Sync.State El ι W}
    (hs : Sync.step T dropData s.sync a = some sync) (hstart : a ≠ .start) (hstop : a ≠ .stop)
    (hjoin : a ≠ .join) : Inv T { s with sync } where
  calls := Sync.callsOk_step h.calls hs
  overWhenStopped := sync_over_step h.overWhenStopped hs
  finds := by
    obtain ⟨hinit, hstopping⟩ := control_kept hs hstart hstop hjoin
    show s.main.Finds sync.initialized sync.stopping s.detector s.stop s.thread
    rw [hinit, hstopping]
    exact h.finds
  mainJob j next hj := hasJob_step h.calls hs (h.mainJob j next hj)
  detectorJob j hj := hasJob_step h.calls hs (h.detectorJob j hj)
  detector := h.detector

/-- The main thread goes on. -/
theorem Inv.main (h : Inv T s) {main : Main}
    (hfinds : main.Finds s.sync.initialized s.sync.stopping s.detector s.stop s.thread)
    (hjob : ∀ j next, main = .waiting j next → HasJob s.sync j) : Inv T { s with main } :=
  { h with finds := hfinds, mainJob := hjob }

/-- The detector's thread goes on. -/
theorem Inv.detectorGoes (h : Inv T s) {detector : Detector} (hd : s.detector ≠ .none)
    (hd' : detector ≠ .none) (hgo : s.stop = false → detector ≠ .exited)
    (hjob : ∀ j, detector = .waiting j → HasJob s.sync j) (hpanic : detector ≠ .panicked) :
    Inv T { s with detector } :=
  { h with finds := h.finds.detector hd hd' hgo, detectorJob := hjob, detector := hpanic }

omit [DecidableEq τ] in
theorem After.returned_ne_waiting (next : After) (res : Result (Dyn El)) (j : ℕ) (next' : After) :
    next.returned res ≠ .waiting j next' := by
  cases next <;> cases res <;> exact nofun

/-- **Step lemma.** -/
theorem inv_step (h : Inv T s) {a : Act El ι W} (hs : s.step T dropData a = some s') : Inv T s' := by
  have hfinds := h.finds
  cases step_move hs with
  | load hmain hsync =>
    rw [hmain] at hfinds
    obtain ⟨hinit, hstopping⟩ := start_control hsync
    exact ⟨Sync.callsOk_step h.calls hsync, sync_over_step h.overWhenStopped hsync,
      ⟨hinit, hstopping, hfinds.2.2⟩, nofun,
      fun j hj => hasJob_step h.calls hsync (h.detectorJob j hj), h.detector⟩
  | startDetector hmain =>
    rw [hmain] at hfinds
    exact ⟨h.calls, h.overWhenStopped, ⟨hfinds.1, hfinds.2.1, nofun, nofun, rfl, rfl⟩, nofun,
      nofun, nofun⟩
  | loaded hmain =>
    rw [hmain] at hfinds
    exact h.main hfinds nofun
  | mainCall hafter hinit hsync =>
    have hsynced := h.sync hsync nofun nofun nofun
    refine hsynced.main (hsynced.finds.call hafter _).2 fun j next hj => ?_
    obtain rfl := (Main.waiting.inj hj).1
    exact hasJob_call h.calls hinit hsync
  | mainSkip hafter hinit =>
    rw [(hfinds.call hafter 0).1] at hinit
    cases hinit
  | mainReturn hmain hwaiter =>
    rw [hmain] at hfinds
    rcases waiter_of_hasJob h.calls (h.mainJob _ _ hmain) hwaiter with hw | hw | ⟨res, hw⟩
    · cases hw
    · cases hw
    · obtain rfl := Waiter.returned.inj hw
      exact h.main (hfinds.return res) fun j next hj => absurd hj (After.returned_ne_waiting _ _ j next)
  | mainPanic hmain hwaiter =>
    rcases waiter_of_hasJob h.calls (h.mainJob _ _ hmain) hwaiter with hw | hw | ⟨res, hw⟩
    · cases hw
    · cases hw
    · cases hw
  | auth hmain hsync => exact h.sync hsync nofun nofun nofun
  | unload hmain hthread =>
    rw [hmain] at hfinds
    obtain ⟨hinit, hstopping, hup⟩ := hfinds
    exact ⟨h.calls, h.overWhenStopped, ⟨hinit, hstopping, hup.there, rfl⟩, nofun, h.detectorJob,
      h.detector⟩
  | unloadPanic hmain hthread =>
    rw [hmain] at hfinds
    obtain ⟨-, -, hup⟩ := hfinds
    rw [hup.thread] at hthread
    cases hthread
  | joinedDetector hmain =>
    rw [hmain] at hfinds
    exact ⟨h.calls, h.overWhenStopped, ⟨hfinds.1, hfinds.2.1, rfl⟩, nofun, nofun, nofun⟩
  | joinedPanic _ hdetector => exact absurd hdetector h.detector
  | stop hmain hsent hsync =>
    rw [hmain] at hfinds
    obtain ⟨hinit, hstopping⟩ := stop_control hsent hsync
    exact ⟨Sync.callsOk_step h.calls hsync, sync_over_step h.overWhenStopped hsync,
      ⟨hinit, hstopping, hfinds.2.2⟩, nofun,
      fun j hj => hasJob_step h.calls hsync (h.detectorJob j hj), h.detector⟩
  | stopRefused _ hsent => exact absurd hsent h.calls.stage.sent_ne_closed
  | stopPanic hmain hsent =>
    rw [hmain] at hfinds
    rw [h.calls.stage.sent_iff.mpr hfinds.1] at hsent
    cases hsent
  | joinedScheduler hmain hsync =>
    rw [hmain] at hfinds
    obtain ⟨hinit, hstopping⟩ := join_control hsync
    exact ⟨Sync.callsOk_step h.calls hsync, sync_over_step h.overWhenStopped hsync,
      ⟨hinit.trans hfinds.1, hstopping, hfinds.2.2⟩, nofun,
      fun j hj => hasJob_step h.calls hsync (h.detectorJob j hj), h.detector⟩
  | detectorCall hdetector hsync =>
    have hsynced := h.sync hsync nofun nofun nofun
    have hthere : s.detector ≠ .none := by rw [hdetector]; exact nofun
    refine hsynced.detectorGoes hthere nofun (fun _ => nofun) (fun j hj => ?_) nofun
    obtain rfl := Detector.waiting.inj hj
    exact hasJob_call h.calls (hfinds.scheduler hthere).1 hsync
  | detectorReturn hdetector =>
    have hthere : s.detector ≠ .none := by rw [hdetector]; exact nofun
    exact h.detectorGoes hthere nofun (fun _ => nofun) nofun nofun
  | detectorPanic hdetector hwaiter =>
    rcases waiter_of_hasJob h.calls (h.detectorJob _ hdetector) hwaiter with hw | hw | ⟨res, hw⟩
    · cases hw
    · cases hw
    · cases hw
  | detectorDecide hdetector =>
    have hthere : s.detector ≠ .none := by rw [hdetector]; exact nofun
    refine h.detectorGoes hthere ?_ (fun hgo => ?_) (fun j hj => ?_) ?_
    · by_cases hstop : s.stop = true
      · simp [hstop]
      · simp [hstop]
    · simp [hgo]
    · by_cases hstop : s.stop = true
      · simp [hstop] at hj
      · simp [hstop] at hj
    · by_cases hstop : s.stop = true
      · simp [hstop]
      · simp [hstop]
  | @background b sync hsync =>
    exact h.sync hsync (by cases b <;> exact nofun) (by cases b <;> exact nofun)
      (by cases b <;> exact nofun)

/-! ### Ending the threads -/

/-- How many steps of its own the detector's thread is from its end. -/
def Detector.left : Detector → ℕ
  | .sleeping => 3
  | .waiting _ => 2
  | .deciding => 1
  | _ => 0

theorem Detector.sleeping_of_left {d : Detector} (h : d.left = 3) : d = .sleeping := by
  cases d <;> first | rfl | cases h

theorem Detector.deciding_of_left {d : Detector} (h : d.left = 1) : d = .deciding := by
  cases d <;> first | rfl | cases h

/-- At its end a thread that is there has not panicked. -/
theorem Detector.exited_of_left {d : Detector} (h : d.left = 0) (hthere : d ≠ .none)
    (hpanicked : d ≠ .panicked) : d = .exited := by
  cases d with
  | none => exact absurd rfl hthere
  | exited => rfl
  | panicked => exact absurd rfl hpanicked
  | _ => cases h

/-- How many steps of its own the scheduler's thread is from its end. -/
def left (s : Sync.State El ι W) : ℕ :=
  s.channel.length + match s.thread with
    | .receiving => 1
    | .returned => 1
    | _ => 0

/-- The call's task has been called back. -/
def CalledBack (s : Sync.State El ι W) (j : ℕ) : Prop :=
  ∃ c n, (Sync.calls s)[j]? = some c ∧ c.job = some n ∧ ∃ inputs, Sync.FinishedWith s n inputs

theorem calledBack_step {s s' : Sync.State El ι W} {a : Sync.Act El ι W} (h : Sync.CallsOk T s)
    (hs : Sync.step T dropData s a = some s') {j : ℕ} (hj : CalledBack s j) : CalledBack s' j := by
  obtain ⟨c, n, hc, hn, inputs, hf⟩ := hj
  obtain ⟨rest, hrest⟩ := Sync.jobs_kept h hs
  have hkept : ((Sync.calls s').map Call.job)[j]? = some (some n) := by
    rw [← hrest, List.getElem?_append_left (by simpa using (List.getElem?_eq_some_iff.mp hc).1),
      List.getElem?_map, hc, Option.map_some, hn]
  rw [List.getElem?_map] at hkept
  obtain ⟨c', hc', hn'⟩ := Option.map_eq_some_iff.mp hkept
  exact ⟨c', n, hc', hn', inputs, Sync.finished_kept hf hs⟩

theorem background_step {b : Background ι W} {sync : Sync.State El ι W}
    (h : Sync.step T dropData s.sync b.act = some sync) :
    s.step T dropData (.background b) = some { s with sync } := by
  rw [State.step, h, Option.map_some]

variable (dropData) in
/-- A call whose task has been called back has returned, or returns when it
looks. -/
theorem CalledBack.waiter {s : Sync.State El ι W} (h : Sync.CallsOk T s) {j : ℕ}
    (hj : CalledBack s j) : (∃ res, waiter s j = some (.returned res)) ∨
      ∃ s', Sync.step T dropData s (.check j) = some s' ∧
        ∃ res, Lifecycle.waiter s' j = some (.returned res) := by
  obtain ⟨c, n, hc, hn, inputs, hf⟩ := hj
  obtain ⟨r, -, ⟨hcell, hw⟩ | ⟨-, hw⟩⟩ := (h.sent j c n hc hn).settled inputs hf
  · refine Or.inr ⟨Sync.setCall s j { c with cell := none, waiter := .returned (.ok ⟨c.R, r⟩) },
      by simp only [Sync.step, hc, hw, hcell], .ok ⟨c.R, r⟩, ?_⟩
    show ((Sync.calls s).set j _)[j]?.map _ = _
    rw [List.getElem?_set_self (List.getElem?_eq_some_iff.mp hc).1]
    rfl
  · exact Or.inl ⟨.ok ⟨c.R, r⟩, by rw [Lifecycle.waiter, hc, Option.map_some, hw]⟩

theorem returned_step {s s' : Sync.State El ι W} {a : Sync.Act El ι W} (h : Sync.CallsOk T s)
    (hs : Sync.step T dropData s a = some s') {j : ℕ} {res : Result (Dyn El)}
    (hj : waiter s j = some (.returned res)) : waiter s' j = some (.returned res) := by
  obtain ⟨c, hc, hw⟩ := Option.map_eq_some_iff.mp hj
  rw [waiter, Sync.returned_kept h hs hc hw, Option.map_some, hw]

/-- The detector's thread, while it is joined, does not get further from its
end. -/
theorem Inv.joiningDetector (h : Inv T s) (hmain : s.main = .joiningDetector) {a : Act El ι W}
    (hs : s.step T dropData a = some s') :
    s'.main = .clearing ∨ (s'.main = .joiningDetector ∧ s'.detector.left ≤ s.detector.left) := by
  have hfinds := h.finds
  rw [hmain] at hfinds
  obtain ⟨-, -, -, hstop⟩ := hfinds
  cases step_move hs with
  | joinedDetector => exact Or.inl rfl
  | joinedPanic _ hd => exact absurd hd h.detector
  | detectorCall hd => exact Or.inr ⟨hmain, by rw [hd]; exact Nat.le_succ 2⟩
  | detectorReturn hd => exact Or.inr ⟨hmain, by rw [hd]; exact Nat.le_succ 1⟩
  | detectorPanic hd => exact Or.inr ⟨hmain, Nat.zero_le _⟩
  | detectorDecide hd =>
    refine Or.inr ⟨hmain, ?_⟩
    show (if s.stop then Detector.exited else Detector.sleeping).left ≤ _
    rw [hstop]
    exact Nat.zero_le _
  | background => exact Or.inr ⟨hmain, le_refl _⟩
  | mainCall hafter => simp [hmain, Main.after] at hafter
  | mainSkip hafter => simp [hmain, Main.after] at hafter
  | load hm => simp [hmain] at hm
  | startDetector hm => simp [hmain] at hm
  | loaded hm => simp [hmain] at hm
  | mainReturn hm => simp [hmain] at hm
  | mainPanic hm => simp [hmain] at hm
  | auth hm => simp [hmain] at hm
  | unload hm => simp [hmain] at hm
  | unloadPanic hm => simp [hmain] at hm
  | stop hm => simp [hmain] at hm
  | stopRefused hm => simp [hmain] at hm
  | stopPanic hm => simp [hmain] at hm
  | joinedScheduler hm => simp [hmain] at hm

/-- Nor does the scheduler's thread; what it does itself brings it nearer. -/
theorem left_recv {s s' : Sync.State El ι W} (hs : Sync.step T dropData s .recv = some s') :
    left s' < left s := by
  have hs : s.step (Sync.liftDrop dropData) .recv = some s' := hs
  cases Scheduling.step_move hs with
  | recvShutdown hthread hchannel => simp [left, hthread, hchannel]
  | recvTask hthread hchannel => simp [left, hthread, hchannel]

theorem left_exit {s s' : Sync.State El ι W} (hs : Sync.step T dropData s .exit = some s') :
    left s' < left s := by
  have hs : s.step (Sync.liftDrop dropData) .exit = some s' := hs
  cases Scheduling.step_move hs with
  | exit hthread => simp [left, hthread]

theorem left_background {s s' : Sync.State El ι W} {b : Background ι W}
    (hs : Sync.step T dropData s b.act = some s') : left s' ≤ left s := by
  cases b with
  | recv => exact (left_recv hs).le
  | poll i input =>
    have hs : s.step (Sync.liftDrop dropData) (.poll i input) = some s' := hs
    cases Scheduling.step_move hs with
    | poll => exact le_refl _
  | exit => exact (left_exit hs).le
  | check j =>
    obtain ⟨c, -, -, ⟨res, -, rfl⟩ | ⟨-, rfl⟩⟩ := Sync.step_check hs
    · exact le_refl _
    · exact le_refl _
  | wake j =>
    obtain ⟨c, -, -, rfl⟩ := Sync.step_wake hs
    exact le_refl _
  | outside world =>
    cases hs
    exact le_refl _

theorem Inv.joiningScheduler (h : Inv T s) (hmain : s.main = .joiningScheduler) {a : Act El ι W}
    (hs : s.step T dropData a = some s') :
    s'.main = .unloaded ∨ (s'.main = .joiningScheduler ∧ left s'.sync ≤ left s.sync) := by
  have hfinds := h.finds
  rw [hmain] at hfinds
  obtain ⟨-, -, hnone⟩ := hfinds
  cases step_move hs with
  | joinedScheduler => exact Or.inl rfl
  | background hsync => exact Or.inr ⟨hmain, left_background hsync⟩
  | detectorCall hd => simp [hnone] at hd
  | detectorReturn hd => simp [hnone] at hd
  | detectorPanic hd => simp [hnone] at hd
  | detectorDecide hd => simp [hnone] at hd
  | mainCall hafter => simp [hmain, Main.after] at hafter
  | mainSkip hafter => simp [hmain, Main.after] at hafter
  | load hm => simp [hmain] at hm
  | startDetector hm => simp [hmain] at hm
  | loaded hm => simp [hmain] at hm
  | mainReturn hm => simp [hmain] at hm
  | mainPanic hm => simp [hmain] at hm
  | auth hm => simp [hmain] at hm
  | unload hm => simp [hmain] at hm
  | unloadPanic hm => simp [hmain] at hm
  | joinedDetector hm => simp [hmain] at hm
  | joinedPanic hm => simp [hmain] at hm
  | stop hm => simp [hmain] at hm
  | stopRefused hm => simp [hmain] at hm
  | stopPanic hm => simp [hmain] at hm

/-- A detector that waits goes on waiting for the same call, or is past it. -/
theorem waiting_step (hmain : s.main = .joiningDetector) {a : Act El ι W} {j : ℕ}
    (hd : s.detector = .waiting j) (hs : s.step T dropData a = some s') :
    s'.detector = .waiting j ∨ s'.detector.left < 2 := by
  cases step_move hs with
  | startDetector hm => simp [hmain] at hm
  | joinedDetector => exact Or.inr Nat.two_pos
  | joinedPanic => exact Or.inr Nat.two_pos
  | detectorCall hsleeping => simp [hd] at hsleeping
  | detectorReturn => exact Or.inr Nat.one_lt_two
  | detectorPanic => exact Or.inr Nat.two_pos
  | detectorDecide hdeciding => simp [hd] at hdeciding
  | _ => exact Or.inl hd

/-- The scheduler and its calls take a step, or stay as they are. -/
theorem sync_step {a : Act El ι W} (hs : s.step T dropData a = some s') :
    s'.sync = s.sync ∨ ∃ b, Sync.step T dropData s.sync b = some s'.sync := by
  cases step_move hs with
  | load _ hsync => exact Or.inr ⟨_, hsync⟩
  | mainCall _ _ hsync => exact Or.inr ⟨_, hsync⟩
  | auth _ hsync => exact Or.inr ⟨_, hsync⟩
  | stop _ _ hsync => exact Or.inr ⟨_, hsync⟩
  | joinedScheduler _ hsync => exact Or.inr ⟨_, hsync⟩
  | detectorCall _ hsync => exact Or.inr ⟨_, hsync⟩
  | background hsync => exact Or.inr ⟨_, hsync⟩
  | _ => exact Or.inl rfl

variable (dropData) in
/-- The scheduler's thread receives, leaves its loop, or is over. -/
theorem Inv.schedulerGoesOn (h : Inv T s) (hmain : s.main = .joiningScheduler) :
    (2 ≤ left s.sync ∧ ∃ s', s.step T dropData (.background .recv) = some s') ∨
      (left s.sync = 1 ∧ ∃ s', s.step T dropData (.background .exit) = some s') ∨
        (left s.sync = 0 ∧ ∃ s', s.step T dropData .joinedScheduler = some s') := by
  have hfinds := h.finds
  rw [hmain] at hfinds
  obtain ⟨-, hstopping, -⟩ := hfinds
  have hstage := h.calls.stage
  rw [hstopping] at hstage
  rcases hstage.channel_stopping with ⟨hthread, hchannel⟩ | ⟨hthread, hchannel⟩ | ⟨hthread, hchannel⟩
  · obtain ⟨job, channel, hcons⟩ := List.exists_cons_of_ne_nil hchannel
    have hrecv : Sync.step T dropData s.sync .recv ≠ none := by
      simp only [Sync.step, Scheduling.State.step, hthread, hcons]
      cases job <;> exact Option.some_ne_none _
    obtain ⟨sync, hsync⟩ := Option.ne_none_iff_exists'.mp hrecv
    exact Or.inl ⟨by simp [left, hthread, hcons], _, background_step hsync⟩
  · have hexit : Sync.step T dropData s.sync .exit ≠ none := by
      simp only [Sync.step, Scheduling.State.step, hthread, if_true]
      exact Option.some_ne_none _
    obtain ⟨sync, hsync⟩ := Option.ne_none_iff_exists'.mp hexit
    exact Or.inr (Or.inl ⟨by simp [left, hthread, hchannel], _, background_step hsync⟩)
  · have hjoin : Sync.step T dropData s.sync .join =
        some { s.sync with stopping := false, thread := .none } := by
      show Scheduling.State.step (Sync.liftDrop dropData) s.sync .join = _
      rw [Scheduling.State.step, if_pos ⟨hstopping, hthread⟩]
    exact Or.inr (Or.inr ⟨by simp [left, hthread, hchannel], _, by
      rw [State.step, if_pos hmain, hjoin]; rfl⟩)

/-! ### The joins of an unload -/

/-- What the threads do of themselves; a call that is awake looks. -/
def Act.Own : Act El ι W → Prop
  | .detectorReturn | .detectorDecide | .joinedDetector | .joinedScheduler
  | .background .recv | .background .exit | .background (.check _) => True
  | _ => False

/-- Nobody who can go on is passed by for ever, and the detector's sleep
ends. -/
structure Fair (T : τ) (dropData : Dyn El → W → W) (run : ℕ → State El ι W)
    (act : ℕ → Option (Act El ι W)) : Prop where
  wakes : WeakFair (fun s => s.detector = .sleeping)
    (fun _ a => ∃ R task, a = .detectorCall R task) run act
  goesOn : ∀ a : Act El ι W, a.Own →
    WeakFair (fun s => ∃ s', s.step T dropData a = some s') (fun _ b => b = a) run act

/-- The task of each iteration is called back some time. -/
def CallsBack (run : ℕ → State El ι W) : Prop :=
  ∀ n j, (run n).detector = .waiting j → ∃ m, n ≤ m ∧ CalledBack (run m).sync j

section
variable {run : ℕ → State El ι W} {act : ℕ → Option (Act El ι W)}

/-- What the steps of a join do not raise gets no higher during it. -/
theorem joining_le (h : Endless (State.step T dropData) run act) {f : State El ι W → ℕ} {n : ℕ}
    (hle : ∀ m s' a, n ≤ m → s' = run (m + 1) → (run m).step T dropData a = some s' →
      f s' ≤ f (run m)) {m : ℕ} (hm : n ≤ m) : f (run (m + 1)) ≤ f (run m) := by
  cases ha : act m with
  | none => rw [h.rest m ha]
  | some a => exact hle m _ a hm rfl (h.next m a ha)

/-- The scheduler's own step, where it lowers what is left. -/
theorem left_of_background (h : Endless (State.step T dropData) run act) {b : Background ι W} {k : ℕ}
    (ha : act k = some (.background b))
    (hlower : ∀ {s s' : Sync.State El ι W}, Sync.step T dropData s b.act = some s' →
      left s' < left s) : left (run (k + 1)).sync < left (run k).sync := by
  obtain ⟨sync, hsync, hnext⟩ := Option.map_eq_some_iff.mp (h.next k _ ha)
  rw [← hnext]
  exact hlower hsync

variable (h : Endless (State.step T dropData) run act) (hinv : ∀ m, Inv T (run m))
include h hinv

/-- What holds of the calls from some moment on. -/
theorem calls_later {P : Sync.State El ι W → Prop}
    (hP : ∀ s s' b, Sync.CallsOk T s → Sync.step T dropData s b = some s' → P s → P s')
    {n m : ℕ} (hm : n ≤ m) (hn : P (run n).sync) : P (run m).sync :=
  h.invariant (I := fun s => P s.sync) hn (fun l a _ hl ha => by
    rcases sync_step (h.next l a ha) with hsame | ⟨b, hs⟩
    · rw [hsame]
      exact hl
    · exact hP _ _ b (hinv l).calls hs hl) hm

/-- The call of a detector that is joined returns, once its task has been
called back. -/
theorem waiting_ends (hfair : Fair T dropData run act) (hcalls : CallsBack run) {n j : ℕ}
    (hjoining : ∀ m, n ≤ m → (run m).main = .joiningDetector)
    (hd : (run n).detector = .waiting j) : ∃ m, n ≤ m ∧ (run m).detector.left < 2 := by
  by_contra hnever
  have hwaits (m : ℕ) (hm : n ≤ m) : (run m).detector = .waiting j :=
    h.invariant (I := fun s => s.detector = .waiting j) hd (fun l a hl hi ha =>
      (waiting_step (hjoining l hl) hi (h.next l a ha)).resolve_right
        fun hlt => hnever ⟨l + 1, Nat.le_succ_of_le hl, hlt⟩) hm
  obtain ⟨m, hm, hback⟩ := hcalls n j hd
  have hback (l : ℕ) (hl : m ≤ l) : CalledBack (run l).sync j :=
    calls_later h hinv (fun _ _ _ hok hs => calledBack_step hok hs) hl hback
  -- a call that has not returned looks, and returns
  obtain ⟨k, hk, res, hreturned⟩ : ∃ k, m ≤ k ∧ ∃ res,
      waiter (run k).sync j = some (.returned res) := by
    by_contra hnot
    have hlooks (l : ℕ) (hl : m ≤ l) := ((hback l hl).waiter dropData
      (hinv l).calls).resolve_left fun ⟨res, hres⟩ => hnot ⟨l, hl, res, hres⟩
    obtain ⟨l, a, hl, ha, rfl⟩ := hfair.goesOn (.background (.check j)) trivial m fun l hl => by
      obtain ⟨sync, hs, -⟩ := hlooks l hl
      exact ⟨_, background_step (b := .check j) hs⟩
    obtain ⟨sync, hs, res, hres⟩ := hlooks l hl
    have hnext := (background_step (b := .check j) hs).symm.trans (h.next l _ ha)
    exact hnot ⟨l + 1, Nat.le_succ_of_le hl, res, Option.some.inj hnext ▸ hres⟩
  have hreturned (l : ℕ) (hl : k ≤ l) : waiter (run l).sync j = some (.returned res) :=
    calls_later h hinv (P := fun s => waiter s j = some (.returned res))
      (fun _ _ _ hok hs => returned_step hok hs) hl hreturned
  obtain ⟨l, a, hl, ha, rfl⟩ := hfair.goesOn .detectorReturn trivial k fun l hl =>
    ⟨_, by simp only [State.step, hwaits l (hm.trans (hk.trans hl)), hreturned l hl]; rfl⟩
  have hstill := hwaits (l + 1) (Nat.le_succ_of_le (hm.trans (hk.trans hl)))
  have hnext := h.next l _ ha
  generalize run (l + 1) = s' at hstill hnext
  cases step_move hnext with
  | detectorReturn => cases hstill
  | detectorPanic => cases hstill

/-- The detector's thread, joined for ever, comes to its end. -/
theorem detector_exits (hfair : Fair T dropData run act) (hcalls : CallsBack run) {n : ℕ}
    (hjoining : ∀ m, n ≤ m → (run m).main = .joiningDetector) :
    ∃ m, n ≤ m ∧ (run m).detector.left = 0 := by
  have hle (m : ℕ) (hm : n ≤ m) : (run (m + 1)).detector.left ≤ (run m).detector.left :=
    joining_le h (f := fun s => s.detector.left) (n := n) (fun m s' a hm hs' hs => by
      rcases (hinv m).joiningDetector (hjoining m hm) hs with hclearing | hle
      · rw [hs', hjoining (m + 1) (Nat.le_succ_of_le hm)] at hclearing
        cases hclearing
      · exact hle.2) hm
  refine eventually_of_measure (fun m => (run m).detector.left) fun m hm hleft => ?_
  have hle (k : ℕ) (hk : m ≤ k) := hle k (hm.trans hk)
  cases hd : (run m).detector with
  | sleeping =>
    rw [← hd]
    refine hfair.wakes.lowers (fun m => (run m).detector.left) hle (fun k hk hsame => ?_)
      fun k a hk hsame ha ⟨R, task, hcall⟩ => ?_
    · rw [hd] at hsame
      exact Detector.sleeping_of_left hsame
    · subst hcall
      have hnext := h.next k _ ha
      rw [hsame, hd]
      generalize run (k + 1) = s' at hnext
      cases step_move hnext
      exact Nat.lt_succ_self 2
  | waiting j =>
    obtain ⟨k, hk, hlt⟩ := waiting_ends h hinv hfair hcalls
      (fun l hl => hjoining l (hm.trans hl)) hd
    exact ⟨k, hk, hlt⟩
  | deciding =>
    rw [← hd]
    have hdeciding (k : ℕ) (hsame : (run k).detector.left = (run m).detector.left) :
        (run k).detector = .deciding := by
      rw [hd] at hsame
      exact Detector.deciding_of_left hsame
    refine (hfair.goesOn .detectorDecide trivial).lowers (fun m => (run m).detector.left) hle
      (fun k hk hsame => ?_) fun k a hk hsame ha hdecide => ?_
    · exact ⟨_, by rw [State.step, if_pos (hdeciding k hsame)]⟩
    · subst hdecide
      have hstop := (hinv k).finds
      rw [hjoining k (hm.trans hk)] at hstop
      have hnext := h.next k _ ha
      rw [State.step, if_pos (hdeciding k hsame), hstop.2.2.2] at hnext
      rw [hsame, hd, ← Option.some.inj hnext]
      exact Nat.one_pos
  | _ => exact absurd (by rw [hd]; rfl) hleft

/-- What the main thread joins from some moment on, if it never gets past the
join. -/
theorem still_joining {n : ℕ} {main next : Main} (hmain : (run n).main = main)
    (hstep : ∀ (s s' : State El ι W) (a : Act El ι W), Inv T s → s.main = main → s.step T dropData a = some s' →
      s'.main = next ∨ s'.main = main)
    (hnever : ¬ ∃ m, n ≤ m ∧ (run m).main = next) {m : ℕ} (hm : n ≤ m) : (run m).main = main :=
  h.invariant (I := fun s => s.main = main) hmain (fun l a hl hi ha =>
    (hstep _ _ a (hinv l) hi (h.next l a ha)).resolve_left
      fun hnext => hnever ⟨l + 1, Nat.le_succ_of_le hl, hnext⟩) hm

/-- **The join of the detector's thread ends.** -/
theorem detector_joined (hfair : Fair T dropData run act) (hcalls : CallsBack run) {n : ℕ}
    (hmain : (run n).main = .joiningDetector) : ∃ m, n ≤ m ∧ (run m).main = .clearing := by
  by_contra hnever
  have hjoining (m : ℕ) (hm : n ≤ m) : (run m).main = .joiningDetector :=
    still_joining h hinv hmain (fun s s' a hi hm hs => (hi.joiningDetector hm hs).imp id And.left)
      hnever hm
  obtain ⟨m, hm, hleft⟩ := detector_exits h hinv hfair hcalls hjoining
  have hexited (k : ℕ) (hk : m ≤ k) : (run k).detector = .exited := by
    have hzero : (run k).detector.left = 0 := by
      refine h.invariant (I := fun s => s.detector.left = 0) hleft (fun l a hl hi ha => ?_) hk
      rcases (hinv l).joiningDetector (hjoining l (hm.trans hl)) (h.next l a ha) with hclear | hle
      · exact absurd ⟨l + 1, Nat.le_succ_of_le (hm.trans hl), hclear⟩ hnever
      · exact Nat.le_zero.mp (hi ▸ hle.2)
    have hfinds := (hinv k).finds
    rw [hjoining k (hm.trans hk)] at hfinds
    exact Detector.exited_of_left hzero hfinds.2.2.1 (hinv k).detector
  obtain ⟨k, a, hk, ha, rfl⟩ := hfair.goesOn .joinedDetector trivial m fun k hk =>
    ⟨_, by simp only [State.step, hjoining k (hm.trans hk), if_true, hexited k hk]; rfl⟩
  have hnext := h.next k _ ha
  simp only [State.step, hjoining k (hm.trans hk), if_true, hexited k hk] at hnext
  exact hnever ⟨k + 1, Nat.le_succ_of_le (hm.trans hk), Option.some.inj hnext ▸ rfl⟩

/-- Nothing that is left of the scheduler's thread comes back while it is joined. -/
theorem joiningScheduler_le {n : ℕ} (hjoining : ∀ m, n ≤ m → (run m).main = .joiningScheduler)
    {m : ℕ} (hm : n ≤ m) : left (run (m + 1)).sync ≤ left (run m).sync :=
  joining_le h (f := fun s => left s.sync) (n := n) (fun m s' a hm hs' hs => by
    rcases (hinv m).joiningScheduler (hjoining m hm) hs with hunloaded | hle
    · rw [hs', hjoining (m + 1) (Nat.le_succ_of_le hm)] at hunloaded
      cases hunloaded
    · exact hle.2) hm

/-- While it is joined the scheduler's thread comes to its end. -/
theorem scheduler_exits (hfair : Fair T dropData run act) {n : ℕ}
    (hjoining : ∀ m, n ≤ m → (run m).main = .joiningScheduler) :
    ∃ m, n ≤ m ∧ left (run m).sync = 0 := by
  have hgoes (k : ℕ) (hk : n ≤ k) := (hinv k).schedulerGoesOn dropData (hjoining k hk)
  refine eventually_of_measure (fun m => left (run m).sync) fun m hm hleft => ?_
  have hle (k : ℕ) (hk : m ≤ k) := joiningScheduler_le h hinv hjoining (hm.trans hk)
  rcases hgoes m hm with ⟨htwo, -⟩ | ⟨hone, -⟩ | ⟨hzero, -⟩
  · -- the channel still has the shutdown
    refine (hfair.goesOn (.background .recv) trivial).lowers (fun m => left (run m).sync) hle
      (fun k hk hsame => ?_) fun k a hk hsame ha hrecv => ?_
    · rcases hgoes k (hm.trans hk) with ⟨-, hstep⟩ | ⟨hleft, -⟩ | ⟨hleft, -⟩
      · exact hstep
      · omega
      · omega
    · subst hrecv
      exact left_of_background h ha left_recv
  · refine (hfair.goesOn (.background .exit) trivial).lowers (fun m => left (run m).sync) hle
      (fun k hk hsame => ?_) fun k a hk hsame ha hexit => ?_
    · rcases hgoes k (hm.trans hk) with ⟨hleft, -⟩ | ⟨-, hstep⟩ | ⟨hleft, -⟩
      · omega
      · exact hstep
      · omega
    · subst hexit
      exact left_of_background h ha left_exit
  · exact absurd hzero hleft

/-- **The join of the scheduler's thread ends.** -/
theorem scheduler_joined (hfair : Fair T dropData run act) {n : ℕ}
    (hmain : (run n).main = .joiningScheduler) : ∃ m, n ≤ m ∧ (run m).main = .unloaded := by
  by_contra hnever
  have hjoining (m : ℕ) (hm : n ≤ m) : (run m).main = .joiningScheduler :=
    still_joining h hinv hmain (fun s s' a hi hm hs => (hi.joiningScheduler hm hs).imp id And.left)
      hnever hm
  obtain ⟨m, hm, hleft⟩ := scheduler_exits h hinv hfair hjoining
  obtain ⟨k, a, hk, ha, rfl⟩ := hfair.goesOn .joinedScheduler trivial m fun k hk => by
    have hzero : left (run k).sync = 0 :=
      h.invariant (I := fun s => left s.sync = 0) hleft (fun l a hl hi ha => by
        have := joiningScheduler_le h hinv hjoining (hm.trans hl)
        omega) hk
    rcases (hinv k).schedulerGoesOn dropData (hjoining k (hm.trans hk)) with
      ⟨hleft, -⟩ | ⟨hleft, -⟩ | ⟨-, hstep⟩
    · omega
    · omega
    · exact hstep
  have hnext := h.next k _ ha
  simp only [State.step, hjoining k (hm.trans hk), if_true] at hnext
  obtain ⟨sync, -, hunloaded⟩ := Option.map_eq_some_iff.mp hnext
  exact hnever ⟨k + 1, Nat.le_succ_of_le (hm.trans hk), hunloaded ▸ rfl⟩

end

/-- What holds of the two threads whatever the order. -/
structure Safe (s : State El ι W) : Prop where
  main : s.main ≠ .panicked
  detector : s.detector ≠ .panicked
  /-- A detector is started where there is a scheduler and no other detector. -/
  fresh : s.main = .scheduled → s.sync.initialized = true ∧ s.detector = .none
  /-- A module that serves has both. -/
  serving : s.main = .serving → s.sync.initialized = true ∧ Up s.detector s.stop s.thread
  /-- While `stop_job_scheduler` holds the lock no detector needs it. -/
  lock : s.sync.stopping = true → s.main = .joiningScheduler ∧ s.detector = .none
  /-- An unloaded module has no thread, no job and no task that goes on. -/
  unloaded : s.main = .unloaded → s.detector = .none ∧ s.sync.thread = .none ∧
    s.sync.channel = [] ∧ ∀ x ∈ s.sync.tasks, x.2.Over

/-- Once the module is unloaded and no call is awake, nobody can go on. -/
theorem Fair.of_unloaded {t : State El ι W} {as : List (Act El ι W)}
    (h : exec (State.step T dropData) s as = some t) (hmain : t.main = .unloaded)
    (hdetector : t.detector = .none) (hthread : t.sync.thread = .none)
    (hcalls : ∀ c ∈ Sync.calls t.sync, c.waiter ≠ .checking) :
    Fair T dropData (states (State.step T dropData) s as) fun n => as[n]? := by
  refine ⟨weakFair_of_rest h (by rw [hdetector]; exact nofun), fun a ha =>
    weakFair_of_rest h fun ⟨s', hs⟩ => ?_⟩
  cases step_move hs with
  | @background b sync hsync =>
    cases b with
    | recv =>
      have hsync : t.sync.step (Sync.liftDrop dropData) .recv = some sync := hsync
      cases Scheduling.step_move hsync with
      | recvShutdown hreceiving => simp [hthread] at hreceiving
      | recvTask hreceiving => simp [hthread] at hreceiving
    | exit =>
      have hsync : t.sync.step (Sync.liftDrop dropData) .exit = some sync := hsync
      cases Scheduling.step_move hsync with
      | exit hreturned => simp [hthread] at hreturned
    | check j =>
      obtain ⟨c, hc, hchecking, -⟩ := Sync.step_check hsync
      exact hcalls c (List.mem_of_getElem? hc) hchecking
    | _ => exact ha
  | joinedDetector hm => simp [hmain] at hm
  | joinedPanic hm => simp [hmain] at hm
  | joinedScheduler hm => simp [hmain] at hm
  | detectorReturn hd => simp [hdetector] at hd
  | detectorPanic hd => simp [hdetector] at hd
  | detectorDecide hd => simp [hdetector] at hd
  | _ => exact ha

theorem Inv.safe (hinv : Inv T s) : Safe s := by
  have hfinds := hinv.finds
  refine ⟨fun hm => ?_, hinv.detector, fun hm => ?_, fun hm => ?_, fun hl => ?_, fun hm => ?_⟩
  · rw [hm] at hfinds
    exact hfinds
  · rw [hm] at hfinds
    exact ⟨hfinds.1, hfinds.2.2⟩
  · rw [hm] at hfinds
    exact ⟨hfinds.1, hfinds.2.2⟩
  · rw [hl] at hfinds
    exact hfinds.stopping
  · rw [hm] at hfinds
    have hstage := hinv.calls.stage
    rw [hfinds.1, hfinds.2.1] at hstage
    exact ⟨hfinds.2.2, hstage.channel_off.1, hstage.channel_off.2,
      hinv.overWhenStopped (Or.inl hstage.channel_off.1)⟩

/-- **Loads and unloads are safe.** However often the module is loaded and
unloaded, and whatever runs meanwhile, neither thread panics, and an unload
leaves nothing behind. Both of its joins end where nobody who can go on is
passed by for ever and the task of each iteration is called back. -/
theorem load_unload_safe (T : τ) (dropData : Dyn El → W → W) (world : W) :
    (∀ (tr : List (State El ι W × Act El ι W)) (s : State El ι W),
      Run (State.step T dropData) (State.init El ι world) tr s → Safe s) ∧
    ∀ (run : ℕ → State El ι W) (act : ℕ → Option (Act El ι W)),
      Endless (State.step T dropData) run act → run 0 = State.init El ι world →
      Fair T dropData run act → CallsBack run → ∀ n,
        ((run n).main = .joiningDetector → ∃ m, n ≤ m ∧ (run m).main = .clearing) ∧
        ((run n).main = .joiningScheduler → ∃ m, n ≤ m ∧ (run m).main = .unloaded) := by
  refine ⟨fun tr s h => ?_, fun run act h h0 hfair hcalls n => ?_⟩
  · exact Inv.safe (h.invariant steps_true (inv_init world) fun _ _ _ hi _ hs => inv_step hi hs)
  · have hinv (m : ℕ) : Inv T (run m) := h.invariant (h0 ▸ inv_init world)
      (fun l a _ hi ha => inv_step hi (h.next l a ha)) (Nat.zero_le m)
    exact ⟨detector_joined h hinv hfair hcalls, scheduler_joined h hinv hfair⟩

end

/-- A load, a reset of the context, one iteration of the detector and an unload
during it. -/
def loadUnload : List (Act CountOrList ℕ (List (List ℕ))) :=
  [.load, .startDetector, .mainCall false sumTask.task, .background .recv, .background (.poll 0 1),
    .background (.check 0), .background (.poll 0 2), .background (.check 0), .mainReturn, .loaded,
    .detectorCall true listTask.task, .unload, .background .recv, .background (.poll 1 4),
    .background (.check 1), .detectorReturn, .detectorDecide, .joinedDetector,
    .mainCall false sumTask.task, .background .recv, .background (.poll 2 1),
    .background (.poll 2 2), .background (.check 2), .mainReturn, .stop, .background .recv,
    .background .exit, .joinedScheduler]

def noModule : State CountOrList ℕ (List (List ℕ)) := State.init CountOrList ℕ []

/-- The call is awake and has not returned. -/
def awake (c : Call CountOrList ℕ) : Bool :=
  match c.waiter with
  | .checking => true
  | _ => false

/-- The detector waits for no other call than the second. -/
def waitsForSecond (s : State CountOrList ℕ (List (List ℕ))) : Bool :=
  match s.detector with
  | .waiting j => j == 1
  | _ => true

/-- The module is loaded again afterwards, and both joins of the unload end. -/
theorem load_unload_safe_reload :
    (∃ s, exec (State.step false fun _ world => world) noModule
      (loadUnload ++ [.load, .startDetector]) = some s ∧ s.main = .loading ∧ Safe s) ∧
    ∃ run act, Endless (State.step false fun _ world => world) run act ∧ run 0 = noModule ∧
      (∃ m, 12 ≤ m ∧ (run m).main = .clearing) ∧ ∃ m, 25 ≤ m ∧ (run m).main = .unloaded := by
  refine ⟨⟨_, rfl, rfl, (load_unload_safe false (fun _ world => world) []).1 _ _ (exec_run
    (show exec (State.step false fun _ world => world) noModule
      (loadUnload ++ [.load, .startDetector]) = some _ from rfl))⟩, ?_⟩
  obtain ⟨t, ht, hmain, hdetector, hthread, hawake, hsecond⟩ : ∃ t,
      exec (State.step false fun _ world => world) noModule loadUnload = some t ∧
        t.main = .unloaded ∧ t.detector = .none ∧ t.sync.thread = .none ∧
          (Sync.calls t.sync).all (fun c => !awake c) = true ∧ CalledBack t.sync 1 :=
    ⟨_, rfl, rfl, rfl, rfl, rfl, _, _, rfl, rfl, _, _, rfl⟩
  obtain ⟨hrun, hrest⟩ := endless_exec ht
  have hfair := Fair.of_unloaded ht hmain hdetector hthread fun c hc hchecking => by
    have := List.all_eq_true.mp hawake c hc
    rw [awake, hchecking] at this
    cases this
  have hwaits : (trace (State.step false fun _ world => world) noModule loadUnload).all
      (fun x => waitsForSecond x.1) = true := by decide +kernel
  have hcalls : CallsBack (states (State.step false fun _ world => world) noModule loadUnload) := by
    refine fun n j hj => ⟨max n loadUnload.length, le_max_left _ _, ?_⟩
    rw [hrest _ (le_max_right _ _)]
    rcases Nat.lt_or_ge n loadUnload.length with hn | hn
    · have := List.all_eq_true.mp hwaits _
        (mem_trace_of_getElem? ht (List.getElem?_eq_getElem hn))
      simp only [waitsForSecond, hj, beq_iff_eq] at this
      exact this ▸ hsecond
    · rw [hrest n hn, hdetector] at hj
      cases hj
  have hends := (load_unload_safe false (fun _ world => world) []).2 _ _ hrun rfl hfair hcalls
  exact ⟨_, _, hrun, rfl, (hends 12).1 rfl, (hends 25).2 rfl⟩

end Lifecycle
end ValkeyLdap
