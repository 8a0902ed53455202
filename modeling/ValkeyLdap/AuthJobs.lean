/-
# AUTH over the job scheduler

The machine of `Auth` has a queue of requests and what becomes of each. Here
the blocking callback (`src/auth.rs`) blocks the client and submits a job to
the scheduler of `Scheduling`, with the operation as its future and the
blocked client as its data: the job's callback asserts that the client is
there and sets its private data, and a client that is dropped is unblocked
without any.

`auth_over_scheduler`: every run is a run of the machine of `Auth` with the
same results and the same replies, so what holds of that machine's runs holds
of the scheduler's; no assertion fails, and no client is unblocked twice.
`no_client_left_blocked`: once the scheduler has been stopped, no client is
left waiting.

Key theorems: `Rel.settle`, `simulation`, `auth_over_scheduler`,
`no_client_left_blocked`.
-/
import ValkeyLdap.Auth
import ValkeyLdap.Scheduler
import ValkeyLdap.Lib.Simulation

namespace ValkeyLdap
namespace Auth
namespace Jobs

open Runs

/-- What the jobs of `AUTH` come to, and what they carry. -/
inductive Ty
  | rules
  | blockedClient
  deriving DecidableEq, Repr

/-- A blocked client is named by its number. -/
abbrev El : Ty → Type
  | .rules => Result (List String)
  | .blockedClient => ℕ

/-- What an operation awaits: the settings, under the context's lock; what its
passes have found so far. An await may panic. -/
inductive Answer (ι : Type)
  | settings (ldapSettings : VkLdapSettings)
  | found (found : ι)
  | panicked

/-- A blocked client: it waits; it has been unblocked, with or without private
data; its reply callback has run. -/
inductive Blocked
  | waiting
  | unblocked (privData : Option (Result (List String)))
  | replied

/-- The client with what the reply callback is given of it, and the number of
the job it was sent with. -/
structure Client where
  username : ValkeyString
  password : ValkeyString
  job : Option ℕ
  blocked : Blocked

/-- The blocked clients, and whether an assertion has failed or a client was
unblocked that did not wait. -/
structure Clients where
  clients : List Client
  fault : Bool

abbrev Sched (ι : Type) := Scheduling.State El (Answer ι) Clients

structure State (ι : Type) where
  configs : Configs
  ldapSettings : VkLdapSettings
  sched : Sched ι

inductive Act (ι : Type)
  | auth (username password : ValkeyString)
  /-- Task `n` is polled, and reads the settings. -/
  | begin (n : ℕ)
  /-- Task `n` is polled, with what it has found so far. -/
  | answer (n : ℕ) (found : ι)
  /-- What task `n` awaits panics. -/
  | panic (n : ℕ)
  | recv
  | exit
  | start
  | stop
  | join
  | reply (j : ℕ) (valkey : Valkey)
  | setConfigs (configs : Configs)
  | setLdapSettings (ldapSettings : VkLdapSettings)

variable {ι : Type}

/-- `UnblockClient`, with the private data. -/
def unblock (j : ℕ) (privData : Option (Result (List String))) (w : Clients) : Clients :=
  match w.clients[j]? with
  | some c =>
    match c.blocked with
    | .waiting => { w with clients := w.clients.set j { c with blocked := .unblocked privData } }
    | _ => { w with fault := true }
  | none => { w with fault := true }

/-- `Drop` of a `BlockedClient`. -/
def dropData : Scheduling.Dyn El → Clients → Clients
  | ⟨.blockedClient, j⟩, w => unblock j none w
  | ⟨.rules, _⟩, w => w

/-- The callback that is submitted with the operation. -/
def callback (blockedClient : Option ℕ) (result : Result (List String)) (w : Clients) : Clients :=
  match blockedClient with
  | some j => unblock j (some result) w
  | none => { w with fault := true }

/-- The operation, as a future. -/
def ldapOp (job : Job ι) (mode : LdapAuthMode) (username password : String) :
    Scheduling.Future (Answer ι) (Result (List String))
  | .settings settings :: answers =>
    match answers.getLast? with
    | none => .pending
    | some (.found found) =>
      match job mode settings username password found with
      | .running => .pending
      | .panicked => .panicked
      | .returned res => .ready res
    | some _ => .panicked
  | _ => .pending

def submission (job : Job ι) (mode : LdapAuthMode) (username password : ValkeyString) (j : ℕ) :
    Scheduling.Submission El (Answer ι) Clients where
  R := .rules
  T := .blockedClient
  task := ldapOp job mode username.toString password.toString
  callback := callback
  data := some j

/-- `block_client_on_auth`. -/
def blockClientOnAuth (s : Sched ι) (c : Client) : Sched ι :=
  { s with world := { s.world with clients := s.world.clients ++ [c] } }

/-- `is_scheduler_ready`, where nobody holds the lock for writing. -/
def isSchedulerReady (s : Sched ι) : Bool := s.initialized

namespace State

/-- The blocking callback: what it leaves, and what it returns. -/
def auth (job : Job ι) (s : State ι) (username password : ValkeyString) :
    Option (State ι × AuthResult) :=
  if !s.configs.isAuthEnabled then some (s, .authNotHandled)
  else
    let userStr := username.toString
    if s.configs.isUserExemptedFromLdap userStr then some (s, .authNotHandled)
    else
      let j := s.sched.world.clients.length
      let mode := if s.configs.isBindMode then .bind else .searchAndBind
      let n := if s.sched.sent = .ok then some (Scheduling.jobCount s.sched) else none
      let sched := blockClientOnAuth s.sched ⟨username, password, n, .waiting⟩
      if !isSchedulerReady s.sched then
        -- the blocked client is dropped
        some ({ s with sched := { sched with world := unblock j none sched.world } },
          .authNotHandled)
      else
        (sched.step dropData (.submit (submission job mode username password j))).map fun sched' =>
          ({ s with sched := sched' },
            match sched.sendResult with
            | .ok _ => .authHandled
            | .error _ => .authNotHandled)

/-- What the reply callback does for client `j`, if it can run. -/
def reply (s : State ι) (j : ℕ) (valkey : Valkey) : Option (Client × Reply) :=
  match s.sched.world.clients[j]? with
  | some c =>
    match c.blocked with
    | .unblocked privData =>
      some (c, authReplyCallback s.configs valkey c.username c.password privData)
    | _ => none
  | none => none

def poll (s : State ι) (n : ℕ) (input : Answer ι) : Option (State ι) :=
  (s.sched.step dropData (.poll n input)).map fun sched => { s with sched }

/-- Valkey's main thread is not in `stop_job_scheduler`. -/
def mainFree (s : State ι) : Bool := !s.sched.stopping

def step (job : Job ι) (s : State ι) : Act ι → Option (State ι)
  | .auth username password =>
    if s.mainFree then (s.auth job username password).map (·.1) else none
  | .begin n =>
    match s.sched.tasks[n]? with
    | some (_, .running []) => s.poll n (.settings s.ldapSettings)
    | _ => none
  | .answer n found =>
    match s.sched.tasks[n]? with
    | some (_, .running (_ :: _)) => s.poll n (.found found)
    | _ => none
  | .panic n =>
    match s.sched.tasks[n]? with
    | some (_, .running (_ :: _)) => s.poll n .panicked
    | _ => none
  | .recv => (s.sched.step dropData .recv).map fun sched => { s with sched }
  | .exit => (s.sched.step dropData .exit).map fun sched => { s with sched }
  | .start => (s.sched.step dropData .start).map fun sched => { s with sched }
  | .stop => (s.sched.step dropData .stop).map fun sched => { s with sched }
  | .join => (s.sched.step dropData .join).map fun sched => { s with sched }
  | .reply j valkey =>
    if s.mainFree then
      (s.reply j valkey).map fun x => { s with sched := { s.sched with world :=
        { s.sched.world with
          clients := s.sched.world.clients.set j { x.1 with blocked := .replied } } } }
    else none
  | .setConfigs configs => if s.mainFree then some { s with configs } else none
  | .setLdapSettings ldapSettings => if s.mainFree then some { s with ldapSettings } else none

end State

/-- The module is loaded, its scheduler started. -/
def State.init (configs : Configs) (ldapSettings : VkLdapSettings) : State ι :=
  { configs, ldapSettings,
    sched := { Scheduling.State.init ⟨[], false⟩ with initialized := true, thread := .receiving } }

/-! ### What is seen of a run -/

/-- What Valkey sees: what the blocking callback returned; what the reply
callback of a client called and returned. -/
inductive Seen
  | blocking (username password : ValkeyString) (result : AuthResult)
  | reply (j : ℕ) (reply : Reply)

def State.seen (job : Job ι) (s : State ι) : Act ι → Option Seen
  | .auth username password =>
    (s.auth job username password).map fun x => .blocking username password x.2
  | .reply j valkey => (s.reply j valkey).map fun x => .reply j x.2
  | _ => none

/-- The same of the machine of `Auth`. -/
def seen (t : Auth.State ι) : Auth.Act ι → Option Seen
  | .auth username password => some (.blocking username password
      (ldapAuthBlockingCallback t.configs t.scheduler username).result)
  | .reply j valkey => (t.reply j valkey).map fun x => .reply j x.2
  | _ => none

/-! ### The relation -/

/-- The scheduler, as `Auth` has it. -/
def scheduler (s : Sched ι) : Scheduler :=
  if s.initialized then
    match s.thread with
    | .receiving => .running
    | _ => .closed
  else .stopped

/-- How a job stands, as a task or in the channel, as a request and as a blocked
client. -/
inductive Stands : Option (Scheduling.Phase (Answer ι)) → Phase ι → Blocked → Prop
  | queued : Stands none .queued .waiting
  | spawned : Stands (some (.running [])) .queued .waiting
  | running {settings : VkLdapSettings} {answers : List (Answer ι)} :
      Stands (some (.running (.settings settings :: answers))) (.running settings) .waiting
  | ended {inputs : List (Answer ι)} {settings : VkLdapSettings} {found : ι}
      {res : Result (List String)} :
      Stands (some (.finished inputs)) (.ended settings found res) (.unblocked (some res))
  | panicked : Stands (some .panicked) .dropped (.unblocked none)
  | dropped : Stands (some .dropped) .dropped (.unblocked none)
  | replied {phase : Scheduling.Phase (Answer ι)} : phase.Over → Stands (some phase) .replied .replied

/-- A client that no job was sent for. -/
inductive Unsent : Phase ι → Blocked → Prop
  | dropped : Unsent .dropped (.unblocked none)
  | replied : Unsent .replied .replied

/-- How a client with or without a job stands. -/
def ClientStands (s : Sched ι) (phase : Phase ι) (blocked : Blocked) : Option ℕ → Prop
  | none => Unsent phase blocked
  | some n => Stands (s.tasks[n]?.map (·.2)) phase blocked

structure Matches (job : Job ι) (s : Sched ι) (j : ℕ) (c : Client) (r : Request ι) : Prop where
  username : c.username = r.username
  password : c.password = r.password
  sent : ∀ n, c.job = some n → (Scheduling.jobs s)[n]? =
    some (submission job r.mode r.username r.password j).toTask
  stands : ClientStands s r.phase c.blocked c.job

structure Rel (job : Job ι) (s : State ι) (t : Auth.State ι) : Prop where
  configs : t.configs = s.configs
  ldapSettings : t.ldapSettings = s.ldapSettings
  scheduler : t.scheduler = scheduler s.sched
  stage : Scheduling.Stage s.sched.initialized s.sched.stopping s.sched.thread s.sched.channel
  fault : s.sched.world.fault = false
  length : t.requests.length = s.sched.world.clients.length
  request : ∀ (j : ℕ) (c : Client) (r : Request ι),
    s.sched.world.clients[j]? = some c → t.requests[j]? = some r →
    Matches job s.sched j c r
  owned : ∀ n, n < Scheduling.jobCount s.sched → ∃ (j : ℕ) (c : Client),
    s.sched.world.clients[j]? = some c ∧ c.job = some n
  apart : ∀ (i j : ℕ) (c d : Client) (n : ℕ),
    s.sched.world.clients[i]? = some c → s.sched.world.clients[j]? = some d →
    c.job = some n → d.job = some n → i = j

variable {job : Job ι} {s : State ι} {t : Auth.State ι}

theorem rel_init (configs : Configs) (ldapSettings : VkLdapSettings) :
    Rel job (State.init configs ldapSettings : State ι) (Auth.State.init configs ldapSettings) where
  configs := rfl
  ldapSettings := rfl
  scheduler := rfl
  stage := .on []
  fault := rfl
  length := rfl
  request j c r hc := by simp [State.init, Scheduling.State.init] at hc
  owned n hn := by simp [State.init, Scheduling.State.init, Scheduling.jobCount] at hn
  apart i j c d n hc := by simp [State.init, Scheduling.State.init] at hc

/-- The request of a client. -/
theorem Rel.client (h : Rel job s t) {j : ℕ} {c : Client}
    (hc : s.sched.world.clients[j]? = some c) :
    ∃ r, t.requests[j]? = some r ∧ Matches job s.sched j c r := by
  have hlt : j < t.requests.length := by
    rw [h.length]
    exact (List.getElem?_eq_some_iff.mp hc).1
  exact ⟨_, List.getElem?_eq_getElem hlt, h.request j c _ hc (List.getElem?_eq_getElem hlt)⟩

/-- The client of a task. -/
theorem Rel.owner (h : Rel job s t) {n : ℕ} {task : Scheduling.Task El (Answer ι) Clients}
    {phase : Scheduling.Phase (Answer ι)} (ht : s.sched.tasks[n]? = some (task, phase)) :
    ∃ (j : ℕ) (c : Client) (r : Request ι), s.sched.world.clients[j]? = some c ∧
      c.job = some n ∧ t.requests[j]? = some r ∧
      task = (submission job r.mode r.username r.password j).toTask ∧
      Stands (some phase) r.phase c.blocked := by
  have hjob := Scheduling.jobs_of_task ht
  obtain ⟨j, c, hc, hn⟩ := h.owned n (Scheduling.jobs_length s.sched ▸
    (List.getElem?_eq_some_iff.mp hjob).1)
  obtain ⟨r, hr, hm⟩ := h.client hc
  have hstands := hm.stands
  rw [hn] at hstands
  have hstands : Stands (s.sched.tasks[n]?.map (·.2)) r.phase c.blocked := hstands
  rw [ht] at hstands
  exact ⟨j, c, r, hc, hn, hr, Option.some.inj (hjob.symm.trans (hm.sent n hn)), hstands⟩

/-- **One client goes on**, and the others' jobs do not. -/
theorem Rel.settle (h : Rel job s t) (sched : Sched ι)
    (hstage : Scheduling.Stage sched.initialized sched.stopping sched.thread sched.channel)
    (hscheduler : Jobs.scheduler sched = Jobs.scheduler s.sched)
    (hjobs : Scheduling.jobs sched = Scheduling.jobs s.sched) {j : ℕ} {c : Client} {r : Request ι}
    (hc : s.sched.world.clients[j]? = some c) (hr : t.requests[j]? = some r) {blocked : Blocked}
    (hworld : sched.world = ⟨s.sched.world.clients.set j { c with blocked }, false⟩)
    (hother : ∀ n, c.job ≠ some n → sched.tasks[n]? = s.sched.tasks[n]?) {phase : Phase ι}
    (hstands : ClientStands sched phase blocked c.job) :
    Rel job { s with sched } (t.setPhase j r phase) := by
  have hclient {i : ℕ} {d : Client} (hd : sched.world.clients[i]? = some d) :
      (i = j ∧ d = { c with blocked }) ∨ (i ≠ j ∧ s.sched.world.clients[i]? = some d) := by
    rw [hworld] at hd
    by_cases hi : i = j
    · subst hi
      have hself := List.getElem?_set_self (a := { c with blocked })
        (List.getElem?_eq_some_iff.mp hc).1
      exact Or.inl ⟨rfl, Option.some.inj (hd.symm.trans hself)⟩
    · exact Or.inr ⟨hi, by rw [← hd, List.getElem?_set_ne (Ne.symm hi)]⟩
  have hbefore {i : ℕ} {d : Client} {n : ℕ} (hd : sched.world.clients[i]? = some d)
      (hn : d.job = some n) : ∃ e, s.sched.world.clients[i]? = some e ∧ e.job = some n := by
    rcases hclient hd with ⟨rfl, rfl⟩ | ⟨-, hd⟩
    · exact ⟨c, hc, hn⟩
    · exact ⟨d, hd, hn⟩
  refine ⟨h.configs, h.ldapSettings, h.scheduler.trans hscheduler.symm, hstage, ?_, ?_,
    fun i d q hd hq => ?_, fun n hn => ?_, fun i k d e n hd he hn hm => ?_⟩
  · show sched.world.fault = false
    rw [hworld]
  · show (t.requests.set j _).length = sched.world.clients.length
    rw [hworld, List.length_set, List.length_set, h.length]
  · have hq : (t.requests.set j { r with phase })[i]? = some q := hq
    rcases hclient hd with ⟨rfl, rfl⟩ | ⟨hi, hd⟩
    · rw [List.getElem?_set_self (List.getElem?_eq_some_iff.mp hr).1] at hq
      obtain rfl := Option.some.inj hq
      have hm := h.request i c r hc hr
      exact ⟨hm.username, hm.password, fun n hn => hjobs ▸ hm.sent n hn, hstands⟩
    · rw [List.getElem?_set_ne (Ne.symm hi)] at hq
      have hm := h.request i d q hd hq
      refine ⟨hm.username, hm.password, fun n hn => hjobs ▸ hm.sent n hn, ?_⟩
      have hold := hm.stands
      cases hn : d.job with
      | none =>
        rw [hn] at hold
        exact hold
      | some n =>
        rw [hn] at hold
        have hne : c.job ≠ some n := fun hcn => hi (h.apart i j d c n hd hc hn hcn)
        show Stands (sched.tasks[n]?.map (·.2)) q.phase d.blocked
        rw [hother n hne]
        exact hold
  · have hn : n < Scheduling.jobCount s.sched := by
      rw [← Scheduling.jobs_length, ← hjobs, Scheduling.jobs_length]
      exact hn
    obtain ⟨i, d, hd, hdn⟩ := h.owned n hn
    show ∃ (j : ℕ) (c : Client), sched.world.clients[j]? = some c ∧ c.job = some n
    rw [hworld]
    by_cases hi : i = j
    · subst hi
      obtain rfl := Option.some.inj (hd.symm.trans hc)
      exact ⟨i, _, List.getElem?_set_self (List.getElem?_eq_some_iff.mp hc).1, hdn⟩
    · exact ⟨i, d, by rw [List.getElem?_set_ne (Ne.symm hi)]; exact hd, hdn⟩
  · obtain ⟨d', hd', hn'⟩ := hbefore hd hn
    obtain ⟨e', he', hm'⟩ := hbefore he hm
    exact h.apart i k d' e' n hd' he' hn' hm'

/-- The scheduler goes on, and no client does. -/
theorem Rel.keep (h : Rel job s t) (sched : Sched ι)
    (hstage : Scheduling.Stage sched.initialized sched.stopping sched.thread sched.channel)
    (hworld : sched.world = s.sched.world)
    (hjobs : Scheduling.jobs sched = Scheduling.jobs s.sched)
    (hstands : ∀ (n : ℕ) (phase : Phase ι) (blocked : Blocked),
      Stands (s.sched.tasks[n]?.map (·.2)) phase blocked →
        Stands (sched.tasks[n]?.map (·.2)) phase blocked) :
    Rel job { s with sched } { t with scheduler := Jobs.scheduler sched } where
  configs := h.configs
  ldapSettings := h.ldapSettings
  scheduler := rfl
  stage := hstage
  fault := (congrArg Clients.fault hworld).trans h.fault
  length := by
    show _ = sched.world.clients.length
    rw [hworld]
    exact h.length
  request j c r hc hr := by
    have hm := h.request j c r (hworld ▸ hc) hr
    refine ⟨hm.username, hm.password, fun n hn => hjobs ▸ hm.sent n hn, ?_⟩
    have hold := hm.stands
    cases hn : c.job with
    | none =>
      rw [hn] at hold
      exact hold
    | some n =>
      rw [hn] at hold
      exact hstands n _ _ hold
  owned n hn := by
    show ∃ (j : ℕ) (c : Client), sched.world.clients[j]? = some c ∧ c.job = some n
    rw [hworld]
    refine h.owned n ?_
    rw [← Scheduling.jobs_length, ← hjobs, Scheduling.jobs_length]
    exact hn
  apart i j c d n hc hd := h.apart i j c d n (hworld ▸ hc) (hworld ▸ hd)

/-- **A client is blocked**, and a job sent for it or none. -/
theorem Rel.push (h : Rel job s t) (sched : Sched ι)
    (hstage : Scheduling.Stage sched.initialized sched.stopping sched.thread sched.channel)
    (hscheduler : Jobs.scheduler sched = Jobs.scheduler s.sched) {c : Client} {r : Request ι}
    (hworld : sched.world = ⟨s.sched.world.clients ++ [c], false⟩)
    (htasks : sched.tasks = s.sched.tasks)
    (hjobs : Scheduling.jobs sched = Scheduling.jobs s.sched ++ c.job.toList.map fun _ =>
      (submission job r.mode r.username r.password s.sched.world.clients.length).toTask)
    (hnew : ∀ n, c.job = some n → n = Scheduling.jobCount s.sched)
    (husername : c.username = r.username) (hpassword : c.password = r.password)
    (hstands : ClientStands sched r.phase c.blocked c.job) :
    Rel job { s with sched } { t with requests := t.requests ++ [r] } := by
  have hclient {i : ℕ} {d : Client} (hd : sched.world.clients[i]? = some d) :
      s.sched.world.clients[i]? = some d ∨ (i = s.sched.world.clients.length ∧ d = c) := by
    rw [hworld] at hd
    exact Runs.getElem?_concat_cases hd
  have hold {i : ℕ} {d : Client} {n : ℕ} (hd : s.sched.world.clients[i]? = some d)
      (hn : d.job = some n) : n < Scheduling.jobCount s.sched := by
    obtain ⟨q, -, hm⟩ := h.client hd
    rw [← Scheduling.jobs_length]
    exact (List.getElem?_eq_some_iff.mp (hm.sent n hn)).1
  refine ⟨h.configs, h.ldapSettings, h.scheduler.trans hscheduler.symm, hstage, ?_, ?_,
    fun i d q hd hq => ?_, fun n hn => ?_, fun i k d e n hd he hn hm => ?_⟩
  · show sched.world.fault = false
    rw [hworld]
  · show (t.requests ++ [r]).length = sched.world.clients.length
    rw [hworld, List.length_append, List.length_append, h.length]
    rfl
  · have hq : (t.requests ++ [r])[i]? = some q := hq
    rcases hclient hd with hd | ⟨rfl, rfl⟩
    · rw [List.getElem?_append_left (by
        rw [h.length]; exact (List.getElem?_eq_some_iff.mp hd).1)] at hq
      have hm := h.request i d q hd hq
      refine ⟨hm.username, hm.password, fun n hn => ?_, ?_⟩
      · rw [hjobs, List.getElem?_append_left (List.getElem?_eq_some_iff.mp (hm.sent n hn)).1]
        exact hm.sent n hn
      · have hstill := hm.stands
        cases hn : d.job with
        | none =>
          rw [hn] at hstill
          exact hstill
        | some n =>
          rw [hn] at hstill
          show Stands (sched.tasks[n]?.map (·.2)) q.phase d.blocked
          rw [htasks]
          exact hstill
    · rw [← h.length, List.getElem?_concat_length] at hq
      obtain rfl := Option.some.inj hq
      refine ⟨husername, hpassword, fun n hn => ?_, hstands⟩
      rw [hjobs, hn, hnew n hn, ← Scheduling.jobs_length]
      exact List.getElem?_concat_length
  · show ∃ (j : ℕ) (c : Client), sched.world.clients[j]? = some c ∧ c.job = some n
    rw [hworld]
    by_cases hlt : n < Scheduling.jobCount s.sched
    · obtain ⟨i, d, hd, hdn⟩ := h.owned n hlt
      exact ⟨i, d, by
        rw [List.getElem?_append_left (List.getElem?_eq_some_iff.mp hd).1]; exact hd, hdn⟩
    · have hn : n < Scheduling.jobCount sched := hn
      rw [← Scheduling.jobs_length, hjobs, List.length_append, Scheduling.jobs_length] at hn
      cases hc : c.job with
      | none =>
        rw [hc] at hn
        exact absurd hn hlt
      | some m =>
        rw [hc] at hn
        have hn : n < Scheduling.jobCount s.sched + 1 := hn
        refine ⟨_, c, List.getElem?_concat_length, ?_⟩
        rw [hc, hnew m hc]
        exact congrArg some (by omega)
  · rcases hclient hd with hd | ⟨rfl, rfl⟩
    · rcases hclient he with he | ⟨rfl, rfl⟩
      · exact h.apart i k d e n hd he hn hm
      · have := hold hd hn
        rw [hnew n hm] at this
        omega
    · rcases hclient he with he | ⟨rfl, rfl⟩
      · have := hold he hm
        rw [hnew n hn] at this
        omega
      · rfl

theorem unblock_waiting {w : Clients} {j : ℕ} {c : Client} (hc : w.clients[j]? = some c)
    (hw : c.blocked = .waiting) (hf : w.fault = false) (privData : Option (Result (List String))) :
    unblock j privData w =
      ⟨w.clients.set j { c with blocked := .unblocked privData }, false⟩ := by
  rw [unblock, hc]
  simp only [hw, hf]

/-- A task that runs has a client that waits. -/
theorem Stands.of_running {inputs : List (Answer ι)} {phase : Phase ι} {blocked : Blocked}
    (h : Stands (some (.running inputs)) phase blocked) :
    blocked = .waiting ∧ (phase = .queued ∨ ∃ settings, phase = .running settings) := by
  cases h with
  | spawned => exact ⟨rfl, Or.inl rfl⟩
  | running => exact ⟨rfl, Or.inr ⟨_, rfl⟩⟩
  | replied hover => exact hover.elim

/-- A task that has not been polled. -/
theorem Stands.of_spawned {phase : Phase ι} {blocked : Blocked}
    (h : Stands (some (.running [])) phase blocked) : phase = .queued := by
  cases h with
  | spawned => rfl
  | replied hover => exact hover.elim

/-- A task that has been polled was first given the settings. -/
theorem Stands.of_polled {answer : Answer ι} {answers : List (Answer ι)} {phase : Phase ι}
    {blocked : Blocked} (h : Stands (some (.running (answer :: answers))) phase blocked) :
    ∃ settings, answer = .settings settings ∧ phase = .running settings := by
  cases h with
  | running => exact ⟨_, rfl, rfl⟩
  | replied hover => exact hover.elim

/-- A client whose job is in the channel. -/
theorem Stands.of_none {phase : Phase ι} {blocked : Blocked} (h : Stands none phase blocked) :
    phase = .queued ∧ blocked = .waiting := by
  cases h
  exact ⟨rfl, rfl⟩

/-! ### A task ends -/

theorem setPhase_self {j : ℕ} {r : Request ι} (hr : t.requests[j]? = some r) :
    t.setPhase j r r.phase = t := by
  obtain ⟨hlt, hr⟩ := List.getElem?_eq_some_iff.mp hr
  have hset : t.requests.set j r = t.requests := by rw [← hr, List.set_getElem_self]
  show { t with requests := t.requests.set j r } = t
  rw [hset]

/-- A task that runs goes on, and with it its client. -/
theorem Rel.task (h : Rel job s t) {n : ℕ} {task : Scheduling.Task El (Answer ι) Clients}
    {inputs : List (Answer ι)} (ht : s.sched.tasks[n]? = some (task, .running inputs)) {j : ℕ}
    {c : Client} {r : Request ι} (hc : s.sched.world.clients[j]? = some c) (hn : c.job = some n)
    (hr : t.requests[j]? = some r) {next : Scheduling.Phase (Answer ι)} {phase : Phase ι}
    {blocked : Blocked} (hstands : Stands (some next) phase blocked) :
    Rel job { s with sched := { s.sched with
      world := ⟨s.sched.world.clients.set j { c with blocked }, false⟩
      tasks := s.sched.tasks.set n (task, next) } } (t.setPhase j r phase) := by
  refine h.settle { s.sched with
    world := ⟨s.sched.world.clients.set j { c with blocked }, false⟩
    tasks := s.sched.tasks.set n (task, next) } h.stage rfl ?_ hc hr rfl (fun m hm => ?_) ?_
  · exact congrArg (· ++ s.sched.channel.filterMap Scheduling.Job.task?)
      (map_set_eq Prod.fst ht rfl)
  · refine List.getElem?_set_ne fun he => hm ?_
    rw [hn, he]
  · rw [hn]
    show Stands ((s.sched.tasks.set n (task, next))[n]?.map (·.2)) phase blocked
    rw [List.getElem?_set_self (List.getElem?_eq_some_iff.mp ht).1]
    exact hstands

/-- What a poll makes of a task and of its client. -/
theorem Rel.poll (h : Rel job s t) {n : ℕ} {input : Answer ι} {s' : State ι}
    (hs : s.poll n input = some s') {task : Scheduling.Task El (Answer ι) Clients}
    {inputs : List (Answer ι)} (ht : s.sched.tasks[n]? = some (task, .running inputs)) :
    ∃ (j : ℕ) (r : Request ι), t.requests[j]? = some r ∧
      Stands (some (.running inputs)) r.phase .waiting ∧
      match ldapOp job r.mode r.username.toString r.password.toString (inputs ++ [input]) with
      | .pending => ∀ phase, Stands (some (.running (inputs ++ [input]))) phase .waiting →
          Rel job s' (t.setPhase j r phase)
      | .ready res => ∀ phase, Stands (some (.finished (inputs ++ [input]))) phase
          (.unblocked (some res)) → Rel job s' (t.setPhase j r phase)
      | .panicked => Rel job s' (t.setPhase j r .dropped) := by
  obtain ⟨j, c, r, hc, hn, hr, rfl, hstands⟩ := h.owner ht
  have hw := hstands.of_running.1
  rw [hw] at hstands
  refine ⟨j, r, hr, hstands, ?_⟩
  obtain ⟨sched, hsched, rfl⟩ := Option.map_eq_some_iff.mp hs
  have hpolled : ∃ phase world, Scheduling.pollTask dropData
      (submission job r.mode r.username r.password j).toTask (inputs ++ [input]) s.sched.world =
        (phase, world) ∧ sched = { s.sched with
          world
          tasks := s.sched.tasks.set n
            ((submission job r.mode r.username r.password j).toTask, phase) } := by
    cases Scheduling.step_move hsched with
    | poll _ ht' hpoll =>
      obtain ⟨rfl, hinputs⟩ := Prod.mk.inj (Option.some.inj (ht'.symm.trans ht))
      obtain rfl := Scheduling.Phase.running.inj hinputs
      exact ⟨_, _, hpoll, rfl⟩
  obtain ⟨phase, world, hpoll, rfl⟩ := hpolled
  rw [Scheduling.pollTask_toTask, show (submission job r.mode r.username r.password j).task =
    ldapOp job r.mode r.username.toString r.password.toString from rfl] at hpoll
  cases hop : ldapOp job r.mode r.username.toString r.password.toString (inputs ++ [input]) with
  | pending =>
    rw [hop] at hpoll
    obtain ⟨rfl, rfl⟩ := Prod.mk.inj hpoll
    intro phase hphase
    have hrel := h.task ht hc hn hr hphase
    have hset : s.sched.world.clients.set j { c with blocked := .waiting } =
        s.sched.world.clients := by
      obtain ⟨hlt, hget⟩ := List.getElem?_eq_some_iff.mp hc
      rw [← hw, show ({ c with blocked := c.blocked } : Client) = c from rfl, ← hget,
        List.set_getElem_self]
    rw [hset, ← h.fault] at hrel
    exact hrel
  | ready res =>
    rw [hop] at hpoll
    obtain ⟨rfl, rfl⟩ := Prod.mk.inj hpoll
    intro phase hphase
    have hworld : (submission job r.mode r.username r.password j).callback
        (submission job r.mode r.username r.password j).data res s.sched.world =
        ⟨s.sched.world.clients.set j { c with blocked := .unblocked (some res) }, false⟩ :=
      unblock_waiting hc hw h.fault (some res)
    rw [hworld]
    exact h.task ht hc hn hr hphase
  | panicked =>
    rw [hop] at hpoll
    obtain ⟨rfl, rfl⟩ := Prod.mk.inj hpoll
    have hworld : Scheduling.dropTask dropData
        (submission job r.mode r.username r.password j).toTask s.sched.world =
        ⟨s.sched.world.clients.set j { c with blocked := .unblocked none }, false⟩ :=
      unblock_waiting hc hw h.fault none
    rw [hworld]
    exact h.task ht hc hn hr .panicked

/-- Its operation dropped, the request is. -/
theorem step_drop {j : ℕ} {r : Request ι} (hr : t.requests[j]? = some r)
    (hp : r.phase = .queued ∨ ∃ settings, r.phase = .running settings) :
    t.step job (.drop j) = some (t.setPhase j r .dropped) := by
  rcases hp with hp | ⟨settings, hp⟩
  · simp only [Auth.State.step, hr, hp]
  · simp only [Auth.State.step, hr, hp]

/-- **The runtime drops its tasks**, and with each that runs a request is
dropped. -/
theorem Rel.dropAll : ∀ (post pre rest : List (Scheduling.Task El (Answer ι) Clients ×
    Scheduling.Phase (Answer ι))) (s : State ι) (t : Auth.State ι), Rel job s t →
    s.sched.tasks = pre ++ post →
    pre ++ (Scheduling.dropAll dropData s.sched.world post).2 = rest →
    ∃ tr t', Run (Auth.State.step job) t tr t' ∧
      Rel job { s with sched := { s.sched with
        world := (Scheduling.dropAll dropData s.sched.world post).1, tasks := rest } } t' ∧
      events seen tr = []
  | [], pre, rest, s, t, h, htasks, hrest => by
    refine ⟨[], t, .refl, ?_, rfl⟩
    rw [← hrest, show pre ++ (Scheduling.dropAll dropData s.sched.world []).2 = s.sched.tasks from
      htasks.symm]
    exact h
  | (task, .running inputs) :: post, pre, rest, s, t, h, htasks, hrest => by
    have ht : s.sched.tasks[pre.length]? = some (task, .running inputs) := by
      rw [htasks, List.getElem?_append_right (le_refl _), Nat.sub_self]
      rfl
    obtain ⟨j, c, r, hc, hn, hr, rfl, hstands⟩ := h.owner ht
    obtain ⟨hw, hp⟩ := hstands.of_running
    have hworld : Scheduling.dropTask dropData
        (submission job r.mode r.username r.password j).toTask s.sched.world =
        ⟨s.sched.world.clients.set j { c with blocked := .unblocked none }, false⟩ :=
      unblock_waiting hc hw h.fault none
    have hset : s.sched.tasks.set pre.length
        ((submission job r.mode r.username r.password j).toTask, .dropped) =
        (pre ++ [((submission job r.mode r.username r.password j).toTask, .dropped)]) ++ post := by
      rw [htasks, List.set_append_right _ _ (le_refl _), Nat.sub_self, List.append_assoc]
      rfl
    have hrel := h.task ht hc hn hr Stands.dropped
    rw [hset, ← hworld] at hrel
    obtain ⟨tr, t', hrun, hrel', hseen⟩ := Rel.dropAll post _ rest _ _ hrel rfl
      (by rw [← hrest, List.append_assoc]; rfl)
    refine ⟨[(t, .drop j)] ++ tr, t', (Run.single (step_drop hr hp)).trans hrun, hrel', ?_⟩
    rw [events_append, hseen, List.append_nil, events_single]
    rfl
  | (task, .finished inputs) :: post, pre, rest, s, t, h, htasks, hrest =>
    Rel.dropAll post (pre ++ [(task, .finished inputs)]) rest s t h
      (by rw [htasks, List.append_assoc]; rfl) (by rw [← hrest, List.append_assoc]; rfl)
  | (task, .panicked) :: post, pre, rest, s, t, h, htasks, hrest =>
    Rel.dropAll post (pre ++ [(task, .panicked)]) rest s t h
      (by rw [htasks, List.append_assoc]; rfl) (by rw [← hrest, List.append_assoc]; rfl)
  | (task, .asserted) :: post, pre, rest, s, t, h, htasks, hrest =>
    Rel.dropAll post (pre ++ [(task, .asserted)]) rest s t h
      (by rw [htasks, List.append_assoc]; rfl) (by rw [← hrest, List.append_assoc]; rfl)
  | (task, .dropped) :: post, pre, rest, s, t, h, htasks, hrest =>
    Rel.dropAll post (pre ++ [(task, .dropped)]) rest s t h
      (by rw [htasks, List.append_assoc]; rfl) (by rw [← hrest, List.append_assoc]; rfl)

/-! ### The simulation -/

/-- A step is matched by steps that show the same. -/
def Matched (job : Job ι) (s' : State ι) (t : Auth.State ι) (shown : Option Seen) : Prop :=
  ∃ tr t', Run (Auth.State.step job) t tr t' ∧ Rel job s' t' ∧ events seen tr = shown.toList

theorem Matched.none {s' : State ι} (h : Rel job s' t) : Matched job s' t none :=
  ⟨[], t, .refl, h, rfl⟩

theorem Matched.one {s' : State ι} {t' : Auth.State ι} {a : Auth.Act ι} {shown : Option Seen}
    (hs : t.step job a = some t') (h : Rel job s' t') (hseen : seen t a = shown) :
    Matched job s' t shown :=
  ⟨_, t', Run.single hs, h, by rw [events_single, hseen]⟩

/-- A client that no scheduler is there for. -/
theorem Rel.refused (h : Rel job s t) (hinit : s.sched.initialized = false)
    (username password : ValkeyString) :
    Rel job { s with sched := { s.sched with
        world := ⟨s.sched.world.clients ++ [⟨username, password, none, .unblocked none⟩], false⟩ } }
      { t with requests := t.requests ++
        [⟨username, password, t.configs.ldapAuthMode, .dropped⟩] } ∧
    t.scheduler = .stopped := by
  refine ⟨h.push { s.sched with world := ⟨s.sched.world.clients ++ [_], false⟩ }
    h.stage rfl rfl rfl (List.append_nil _).symm nofun rfl rfl .dropped, ?_⟩
  rw [h.scheduler, Jobs.scheduler, hinit]
  rfl

/-- A client that a job is sent for. -/
theorem Rel.submitted (h : Rel job s t) (hinit : s.sched.initialized = true)
    (username password : ValkeyString) (mode : LdapAuthMode) {sched : Sched ι}
    (hs : (blockClientOnAuth s.sched ⟨username, password, some (Scheduling.jobCount s.sched),
      .waiting⟩).step dropData (.submit (submission job mode username password
        s.sched.world.clients.length)) = some sched) :
    Rel job { s with sched } { t with requests := t.requests ++
      [⟨username, password, mode, .queued⟩] } ∧ t.scheduler = .running := by
  have hsent : s.sched.sent = .ok := h.stage.sent_iff.mpr hinit
  have hon := h.stage
  rw [hinit] at hon
  obtain ⟨-, hthread, -⟩ := hon.channel_on
  refine ⟨?_, by rw [h.scheduler, Jobs.scheduler, hinit, hthread]; rfl⟩
  have hstage := Scheduling.stage_step (s := blockClientOnAuth s.sched _) h.stage hs
  have hjobs := Scheduling.jobs_step (s := blockClientOnAuth s.sched _) h.stage hs
  have haccepted : Scheduling.accepted (blockClientOnAuth s.sched ⟨username, password,
      some (Scheduling.jobCount s.sched), .waiting⟩) (.submit (submission job mode username password
        s.sched.world.clients.length)) = some _ := if_pos hsent
  rw [haccepted] at hjobs
  cases Scheduling.step_move hs with
  | accept =>
    refine h.push _ (c := ⟨username, password, some (Scheduling.jobCount s.sched), .waiting⟩)
      (r := ⟨username, password, mode, .queued⟩) hstage rfl ?_ rfl hjobs
      (fun n hn => (Option.some.inj hn).symm) rfl rfl ?_
    · show (⟨s.sched.world.clients ++ [_], s.sched.world.fault⟩ : Clients) = _
      rw [h.fault]
    · show Stands (s.sched.tasks[Scheduling.jobCount s.sched]?.map (·.2)) _ _
      rw [Scheduling.jobCount, List.getElem?_eq_none (Nat.le_add_right _ _)]
      exact .queued
  | refuse _ hrefused => exact absurd hsent hrefused

/-- An `AUTH`. -/
theorem Rel.auth (h : Rel job s t) {username password : ValkeyString} {s' : State ι}
    {result : AuthResult} (hs : s.auth job username password = some (s', result)) :
    Matched job s' t (some (.blocking username password result)) := by
  unfold State.auth at hs
  by_cases henabled : s.configs.isAuthEnabled = true
  · by_cases hexempted : s.configs.isUserExemptedFromLdap username.toString = true
    · simp only [henabled, Bool.not_true, Bool.false_eq_true, if_false, hexempted, if_true] at hs
      obtain ⟨rfl, rfl⟩ := Prod.mk.inj (Option.some.inj hs)
      have hcallback : ldapAuthBlockingCallback t.configs t.scheduler username = .passed := by
        simp [ldapAuthBlockingCallback, h.configs, henabled, hexempted]
      refine .one (a := .auth username password) ?_ h (congrArg some ?_)
      · simp only [Auth.State.step, hcallback]
      · rw [hcallback]
        rfl
    · simp only [henabled, Bool.not_true, Bool.false_eq_true, if_false, hexempted] at hs
      cases hinit : s.sched.initialized with
      | false =>
        have hsent : s.sched.sent ≠ .ok := fun hok => by
          rw [h.stage.sent_iff.mp hok] at hinit
          cases hinit
        simp only [isSchedulerReady, hinit, Bool.not_false, if_true, if_neg hsent] at hs
        obtain ⟨rfl, rfl⟩ := Prod.mk.inj (Option.some.inj hs)
        obtain ⟨hrel, hstopped⟩ := h.refused hinit username password
        have hcallback : ldapAuthBlockingCallback t.configs t.scheduler username =
            .failed .schedulerNotReady := by
          rw [hstopped]
          simp [ldapAuthBlockingCallback, h.configs, henabled, hexempted,
            vkLdapBindAndGroupRules, vkLdapSearchBindAndGroupRules, submitLdapOp,
            Auth.isSchedulerReady]
        have hworld : unblock s.sched.world.clients.length none
            (blockClientOnAuth s.sched ⟨username, password, none, .waiting⟩).world =
            ⟨s.sched.world.clients ++ [⟨username, password, none, .unblocked none⟩], false⟩ := by
          show unblock _ none ⟨s.sched.world.clients ++ [_], s.sched.world.fault⟩ = _
          rw [h.fault, unblock_waiting List.getElem?_concat_length rfl rfl]
          simp
        rw [hworld]
        refine .one (a := .auth username password) ?_ hrel (congrArg some ?_)
        · simp only [Auth.State.step, hcallback]
        · rw [hcallback]
          rfl
      | true =>
        have hsent : s.sched.sent = .ok := h.stage.sent_iff.mpr hinit
        simp only [isSchedulerReady, hinit, Bool.not_true, Bool.false_eq_true, if_false,
          if_pos hsent] at hs
        obtain ⟨sched, hsched, hs⟩ := Option.map_eq_some_iff.mp hs
        obtain ⟨rfl, rfl⟩ := Prod.mk.inj hs
        obtain ⟨hrel, hrunning⟩ := h.submitted hinit username password _ hsched
        have hcallback : ldapAuthBlockingCallback t.configs t.scheduler username =
            .submitted (if s.configs.isBindMode then .bind else .searchAndBind) := by
          rw [hrunning]
          cases hmode : s.configs.isBindMode <;>
            simp [ldapAuthBlockingCallback, h.configs, henabled, hexempted, hmode,
              vkLdapBindAndGroupRules, vkLdapSearchBindAndGroupRules, submitLdapOp,
              Auth.isSchedulerReady, submitAsyncTask]
        refine .one (a := .auth username password) ?_ hrel (congrArg some ?_)
        · simp only [Auth.State.step, hcallback]
        · have hresult : (blockClientOnAuth s.sched ⟨username, password,
              some (Scheduling.jobCount s.sched), .waiting⟩).sendResult = .ok () := by
            rw [Scheduling.State.sendResult, show (blockClientOnAuth s.sched _).sent = .ok from hsent]
          rw [hcallback, hresult]
          rfl
  · simp only [henabled, Bool.not_false, if_true] at hs
    obtain ⟨rfl, rfl⟩ := Prod.mk.inj (Option.some.inj hs)
    have hcallback : ldapAuthBlockingCallback t.configs t.scheduler username = .passed := by
      simp [ldapAuthBlockingCallback, h.configs, henabled]
    refine .one (a := .auth username password) ?_ h (congrArg some ?_)
    · simp only [Auth.State.step, hcallback]
    · rw [hcallback]
      rfl

/-- A client that has been unblocked can be replied to. -/
theorem ClientStands.unblocked {sched : Sched ι} {r : Request ι} {n : Option ℕ}
    {privData : Option (Result (List String))}
    (h : ClientStands sched r.phase (.unblocked privData) n) :
    r.privData = some privData ∧ ClientStands sched .replied .replied n := by
  unfold Request.privData
  cases n with
  | none =>
    have h : Unsent r.phase (.unblocked privData) := h
    generalize r.phase = phase at h
    cases h
    exact ⟨rfl, .replied⟩
  | some n =>
    have h : Stands (sched.tasks[n]?.map (·.2)) r.phase (.unblocked privData) := h
    show _ ∧ Stands (sched.tasks[n]?.map (·.2)) .replied .replied
    generalize r.phase = phase, sched.tasks[n]?.map (·.2) = task at h
    cases h with
    | ended => exact ⟨rfl, .replied trivial⟩
    | panicked => exact ⟨rfl, .replied trivial⟩
    | dropped => exact ⟨rfl, .replied trivial⟩

/-- A reply callback. -/
theorem Rel.reply (h : Rel job s t) {j : ℕ} {valkey : Valkey} {c : Client} {reply : Reply}
    (hs : s.reply j valkey = some (c, reply)) :
    Matched job { s with sched := { s.sched with world := { s.sched.world with
      clients := s.sched.world.clients.set j { c with blocked := .replied } } } } t
      (some (.reply j reply)) := by
  unfold State.reply at hs
  split at hs
  · rename_i c' hc
    split at hs
    · rename_i privData hblocked
      obtain ⟨rfl, rfl⟩ := Prod.mk.inj (Option.some.inj hs)
      obtain ⟨r, hr, hm⟩ := h.client hc
      have hstands := hm.stands
      rw [hblocked] at hstands
      obtain ⟨hdata, hreplied⟩ := hstands.unblocked
      have hreply : t.reply j valkey = some (r, authReplyCallback s.configs valkey c'.username
          c'.password privData) := by
        simp only [Auth.State.reply, hr, hdata, Option.map_some, h.configs, hm.username, hm.password]
      have hrel := h.settle { s.sched with
        world := ⟨s.sched.world.clients.set j { c' with blocked := .replied }, false⟩ }
        h.stage rfl rfl hc hr rfl (fun _ _ => rfl) hreplied
      rw [← h.fault] at hrel
      refine .one (a := .reply j valkey) ?_ hrel ?_
      · simp only [Auth.State.step, hreply, Option.map_some]
      · simp only [seen, hreply, Option.map_some]
    · cases hs
  · cases hs

/-- The scheduler takes a step that sends no job, calls none back and leaves the
clients. -/
theorem Rel.control (h : Rel job s t) {a : Scheduling.Act El (Answer ι) Clients} {s' : State ι}
    (hs : (s.sched.step dropData a).map (fun sched => { s with sched }) = some s')
    (ha : a = .start ∨ a = .recv ∨ a = .stop ∨ a = .join) : Matched job s' t none := by
  obtain ⟨sched, hsched, rfl⟩ := Option.map_eq_some_iff.mp hs
  have hstage := Scheduling.stage_step h.stage hsched
  have hjobs : Scheduling.jobs sched = Scheduling.jobs s.sched := by
    rw [Scheduling.jobs_step h.stage hsched]
    rcases ha with rfl | rfl | rfl | rfl
    all_goals exact List.append_nil _
  have hkept (hworld : sched.world = s.sched.world)
      (hstands : ∀ (n : ℕ) (phase : Phase ι) (blocked : Blocked),
        Stands (s.sched.tasks[n]?.map (·.2)) phase blocked →
          Stands (sched.tasks[n]?.map (·.2)) phase blocked) :
      Matched job { s with sched } t none :=
    .one (a := .setScheduler (Jobs.scheduler sched)) rfl (h.keep sched hstage hworld hjobs hstands) rfl
  cases Scheduling.step_move hsched with
  | recvTask =>
    refine hkept rfl fun n phase blocked hstands => ?_
    rcases Nat.lt_trichotomy n s.sched.tasks.length with hlt | rfl | hlt
    · rw [List.getElem?_append_left hlt]
      exact hstands
    · -- the job was in the channel, and is spawned now
      rw [List.getElem?_eq_none (le_refl _)] at hstands
      obtain ⟨rfl, rfl⟩ := Stands.of_none hstands
      rw [List.getElem?_concat_length]
      exact .spawned
    · rw [List.getElem?_eq_none (by omega)] at hstands
      rw [List.getElem?_eq_none (by rw [List.length_append, List.length_singleton]; omega)]
      exact hstands
  | start => exact hkept rfl fun _ _ _ hstands => hstands
  | recvShutdown => exact hkept rfl fun _ _ _ hstands => hstands
  | stop => exact hkept rfl fun _ _ _ hstands => hstands
  | stopRefused => exact hkept rfl fun _ _ _ hstands => hstands
  | join => exact hkept rfl fun _ _ _ hstands => hstands
  | _ => simp at ha

/-- The runtime is dropped. -/
theorem Rel.exit (h : Rel job s t) {s' : State ι}
    (hs : (s.sched.step dropData .exit).map (fun sched => { s with sched }) = some s') :
    Matched job s' t none := by
  obtain ⟨sched, hsched, rfl⟩ := Option.map_eq_some_iff.mp hs
  have hstage := Scheduling.stage_step h.stage hsched
  have hjobs := (Scheduling.jobs_step h.stage hsched).trans (List.append_nil _)
  cases Scheduling.step_move hsched with
  | @exit world tasks hthread hdrop =>
    obtain ⟨tr, t', hrun, hrel, hseen⟩ := Rel.dropAll s.sched.tasks [] _ s t h rfl rfl
    rw [hdrop] at hrel
    have hkept := hrel.keep { s.sched with world, tasks, thread := .ended } hstage rfl rfl
      fun _ _ _ hstands => hstands
    refine ⟨tr ++ [_], _, hrun.trans (Run.single
      (a := .setScheduler (Jobs.scheduler { s.sched with world, tasks, thread := .ended })) rfl),
      hkept, ?_⟩
    rw [events_append, hseen, events_single]
    rfl

theorem ldapOp_found (job : Job ι) (mode : LdapAuthMode) (username password : String)
    (settings : VkLdapSettings) (answers : List (Answer ι)) (found : ι) :
    ldapOp job mode username password (.settings settings :: answers ++ [.found found]) =
      match job mode settings username password found with
      | .running => .pending
      | .panicked => .panicked
      | .returned res => .ready res := by
  rw [List.cons_append, ldapOp, List.getLast?_concat]

theorem ldapOp_panicked (job : Job ι) (mode : LdapAuthMode) (username password : String)
    (settings : VkLdapSettings) (answers : List (Answer ι)) :
    ldapOp job mode username password (.settings settings :: answers ++ [.panicked]) =
      .panicked := by
  rw [List.cons_append, ldapOp, List.getLast?_concat]

/-- **Simulation.** Each step of the scheduler's machine is matched by steps of
the machine of `Auth`. -/
theorem simulation (job : Job ι) : Simulation (State.step job) (Auth.State.step job)
    (fun _ _ => True) (State.seen job) seen (Rel job) := by
  intro s t a s' h _ hs
  cases a with
  | auth username password =>
    simp only [State.step] at hs
    split at hs
    · obtain ⟨⟨s', result⟩, hauth, rfl⟩ := Option.map_eq_some_iff.mp hs
      have hmatched := h.auth hauth
      show ∃ tr t', _ ∧ _ ∧ events seen tr = (State.seen job s (.auth username password)).toList
      rw [State.seen, hauth]
      exact hmatched
    · cases hs
  | begin n =>
    simp only [State.step] at hs
    split at hs
    · rename_i task ht
      obtain ⟨j, r, hr, hstands, hgo⟩ := h.poll hs ht
      have hphase := hstands.of_spawned
      refine Matched.one (a := .start j) ?_ (hgo _ .running) rfl
      simp only [Auth.State.step, hr, hphase, h.ldapSettings]
    · cases hs
  | answer n found =>
    simp only [State.step] at hs
    split at hs
    · rename_i task answer answers ht
      obtain ⟨j, r, hr, hstands, hgo⟩ := h.poll hs ht
      obtain ⟨settings, rfl, hphase⟩ := hstands.of_polled
      rw [ldapOp_found] at hgo
      cases hjob : job r.mode settings r.username.toString r.password.toString found with
      | running =>
        simp only [hjob] at hgo
        have hrel := hgo r.phase (hphase ▸ .running)
        rw [setPhase_self hr] at hrel
        exact Matched.none hrel
      | panicked =>
        simp only [hjob] at hgo
        exact Matched.one (step_drop hr hstands.of_running.2) hgo rfl
      | returned res =>
        simp only [hjob] at hgo
        refine Matched.one (a := .finish j found) ?_ (hgo (.ended settings found res) .ended) rfl
        simp only [Auth.State.step, hr, hphase, hjob]
    · cases hs
  | panic n =>
    simp only [State.step] at hs
    split at hs
    · rename_i task answer answers ht
      obtain ⟨j, r, hr, hstands, hgo⟩ := h.poll hs ht
      obtain ⟨settings, rfl, hphase⟩ := hstands.of_polled
      rw [ldapOp_panicked] at hgo
      exact Matched.one (step_drop hr hstands.of_running.2) hgo rfl
    · cases hs
  | recv => exact h.control hs (by simp)
  | exit => exact h.exit hs
  | start => exact h.control hs (by simp)
  | stop => exact h.control hs (by simp)
  | join => exact h.control hs (by simp)
  | reply j valkey =>
    simp only [State.step] at hs
    split at hs
    · obtain ⟨⟨c, reply⟩, hreply, rfl⟩ := Option.map_eq_some_iff.mp hs
      have hmatched := h.reply hreply
      show ∃ tr t', _ ∧ _ ∧ events seen tr = (State.seen job s (.reply j valkey)).toList
      rw [State.seen, hreply]
      exact hmatched
    · cases hs
  | setConfigs configs =>
    simp only [State.step] at hs
    split at hs
    · cases hs
      exact Matched.one (a := .setConfigs configs) rfl { h with configs := rfl } rfl
    · cases hs
  | setLdapSettings ldapSettings =>
    simp only [State.step] at hs
    split at hs
    · cases hs
      exact Matched.one (a := .setLdapSettings ldapSettings) rfl { h with ldapSettings := rfl } rfl
    · cases hs

/-- **`AUTH` over the scheduler does what the machine of `Auth` does.** Every
run, whatever the order in which jobs are sent, received, polled, ended and
dropped, shows the results and replies of a run of that machine; no assertion
fails in a callback, and no client is unblocked twice. -/
theorem auth_over_scheduler (job : Job ι) (configs : Configs) (ldapSettings : VkLdapSettings)
    (tr : List (State ι × Act ι)) (s : State ι)
    (h : Run (State.step job) (State.init configs ldapSettings) tr s) :
    s.sched.world.fault = false ∧ ∃ tr' t,
      Run (Auth.State.step job) (Auth.State.init configs ldapSettings) tr' t ∧
        events seen tr' = events (State.seen job) tr := by
  obtain ⟨tr', t, hrun, hrel, hseen⟩ :=
    (simulation job).run h steps_true (rel_init configs ldapSettings)
  exact ⟨hrel.fault, tr', t, hrun, hseen⟩

/-! ### No client waits for ever -/

/-- A step is one of the scheduler's, or changes the world alone. -/
theorem step_sched {s' : State ι} {a : Act ι} (hs : s.step job a = some s') :
    ∃ world b, ({ s.sched with world } : Sched ι).step dropData b = some s'.sched := by
  have hmap {b : Scheduling.Act El (Answer ι) Clients}
      (hs : (s.sched.step dropData b).map (fun sched => { s with sched }) = some s') :
      ∃ world b, ({ s.sched with world } : Sched ι).step dropData b = some s'.sched := by
    obtain ⟨sched, hsched, rfl⟩ := Option.map_eq_some_iff.mp hs
    exact ⟨s.sched.world, b, hsched⟩
  cases a with
  | auth username password =>
    simp only [State.step, State.auth] at hs
    split at hs
    · obtain ⟨⟨s', result⟩, hauth, rfl⟩ := Option.map_eq_some_iff.mp hs
      split at hauth
      · cases hauth
        exact ⟨s.sched.world, .outside _, rfl⟩
      · split at hauth
        · cases hauth
          exact ⟨s.sched.world, .outside _, rfl⟩
        · split at hauth
          · cases hauth
            exact ⟨s.sched.world, .outside _, rfl⟩
          · obtain ⟨sched, hsched, hauth⟩ := Option.map_eq_some_iff.mp hauth
            cases hauth
            exact ⟨_, _, hsched⟩
    · cases hs
  | begin n =>
    simp only [State.step] at hs
    split at hs
    · exact hmap hs
    · cases hs
  | answer n found =>
    simp only [State.step] at hs
    split at hs
    · exact hmap hs
    · cases hs
  | panic n =>
    simp only [State.step] at hs
    split at hs
    · exact hmap hs
    · cases hs
  | recv => exact hmap hs
  | exit => exact hmap hs
  | start => exact hmap hs
  | stop => exact hmap hs
  | join => exact hmap hs
  | reply j valkey =>
    simp only [State.step] at hs
    split at hs
    · obtain ⟨⟨c, reply⟩, -, rfl⟩ := Option.map_eq_some_iff.mp hs
      exact ⟨s.sched.world, .outside _, rfl⟩
    · cases hs
  | setConfigs configs =>
    simp only [State.step] at hs
    split at hs
    · cases hs
      exact ⟨s.sched.world, .outside _, rfl⟩
    · cases hs
  | setLdapSettings ldapSettings =>
    simp only [State.step] at hs
    split at hs
    · cases hs
      exact ⟨s.sched.world, .outside _, rfl⟩
    · cases hs

/-- A client waits exactly while its job does. -/
theorem Stands.waiting_iff {task : Option (Scheduling.Phase (Answer ι))} {phase : Phase ι}
    {blocked : Blocked} (h : Stands task phase blocked) :
    blocked = .waiting ↔ task = none ∨ ∃ inputs, task = some (.running inputs) := by
  cases h with
  | queued => exact iff_of_true rfl (Or.inl rfl)
  | spawned => exact iff_of_true rfl (Or.inr ⟨_, rfl⟩)
  | running => exact iff_of_true rfl (Or.inr ⟨_, rfl⟩)
  | ended => exact iff_of_false nofun (by simp)
  | panicked => exact iff_of_false nofun (by simp)
  | dropped => exact iff_of_false nofun (by simp)
  | replied hover =>
    refine iff_of_false nofun ?_
    rintro (hnone | ⟨inputs, hrunning⟩)
    · cases hnone
    · obtain rfl := Option.some.inj hrunning
      exact hover

/-- The job of a client is in the channel, or its task goes on. -/
def Pending (s : Sched ι) (c : Client) : Prop :=
  ∃ n, c.job = some n ∧ (s.tasks[n]?.map (·.2) = none ∨
    ∃ inputs, s.tasks[n]?.map (·.2) = some (.running inputs))

/-- **No client is left blocked.** A client waits exactly as long as its job is
in the channel or its task goes on, so none does once the scheduler has been
stopped: each can be replied to. -/
theorem no_client_left_blocked (job : Job ι) (configs : Configs) (ldapSettings : VkLdapSettings)
    (tr : List (State ι × Act ι)) (s : State ι)
    (h : Run (State.step job) (State.init configs ldapSettings) tr s) :
    (∀ c ∈ s.sched.world.clients, c.blocked = .waiting ↔ Pending s.sched c) ∧
      (s.sched.thread = .none ∨ s.sched.thread = .ended →
        ∀ c ∈ s.sched.world.clients, c.blocked ≠ .waiting) := by
  obtain ⟨tr', t, -, hrel, -⟩ := (simulation job).run h steps_true (rel_init configs ldapSettings)
  have hover : s.sched.OverWhenStopped := by
    refine h.invariant (I := fun s => s.sched.OverWhenStopped) steps_true ?_ fun s a s' hi _ hs => ?_
    · exact fun _ x hx => by cases hx
    · obtain ⟨world, b, hsched⟩ := step_sched hs
      exact Scheduling.over_step (s := { s.sched with world }) hi hsched
  have hpending : ∀ c ∈ s.sched.world.clients, c.blocked = .waiting ↔ Pending s.sched c := by
    intro c hmem
    obtain ⟨j, hc⟩ := List.getElem?_of_mem hmem
    obtain ⟨r, -, hm⟩ := hrel.client hc
    have hstands := hm.stands
    unfold Pending
    cases hn : c.job with
    | none =>
      rw [hn] at hstands
      refine iff_of_false (fun hw => ?_) (by simp)
      rw [hw] at hstands
      generalize r.phase = phase at hstands
      cases hstands
    | some n =>
      rw [hn] at hstands
      have hstands : Stands (s.sched.tasks[n]?.map (·.2)) r.phase c.blocked := hstands
      rw [hstands.waiting_iff]
      constructor
      · exact fun hp => ⟨n, rfl, hp⟩
      · rintro ⟨m, hm, hp⟩
        obtain rfl := Option.some.inj hm
        exact hp
  refine ⟨hpending, fun hstopped c hmem hw => ?_⟩
  obtain ⟨n, hn, hp⟩ := (hpending c hmem).mp hw
  obtain ⟨j, hc⟩ := List.getElem?_of_mem hmem
  obtain ⟨r, -, hm⟩ := hrel.client hc
  have hchannel : s.sched.channel = [] := by
    have hstage := hrel.stage
    rcases hstopped with hthread | hthread
    · rw [hthread] at hstage
      exact hstage.channel_none
    · rw [hthread] at hstage
      exact hstage.channel_ended
  have hsent := hm.sent n hn
  rw [Scheduling.jobs, hchannel, List.filterMap_nil, List.append_nil, List.getElem?_map] at hsent
  obtain ⟨⟨task, phase⟩, htask, -⟩ := Option.map_eq_some_iff.mp hsent
  rw [htask] at hp
  rcases hp with hp | ⟨inputs, hp⟩
  · cases hp
  · have hphase : phase = .running inputs := Option.some.inj hp
    have hphaseOver := hover hstopped _ (List.mem_of_getElem? htask)
    rw [hphase] at hphaseOver
    exact hphaseOver

/-- Two clients, the first with its answer when the module is unloaded. -/
def twoClients : List (Act (Result (List String))) :=
  [.auth ⟨[0x61]⟩ ⟨[0x62]⟩, .auth ⟨[0x63]⟩ ⟨[0x64]⟩, .recv, .recv, .begin 0, .begin 1,
    .answer 0 (.error .noServerConfigured), .stop, .recv, .exit, .join, .reply 1 fun _ => true,
    .reply 0 fun _ => true]

/-- One server, and the fallback enabled. -/
def oneServer : Configs := { ldapServerList := "ldap://a", ldapAclFallbackEnabled := true }

theorem auth_over_scheduler_unloaded : ∃ s,
    exec (State.step anyJob) (State.init oneServer {}) twoClients = some s ∧
    s.sched.world.fault = false ∧ ∃ tr' t,
      Run (Auth.State.step anyJob) (Auth.State.init oneServer {}) tr' t ∧ events seen tr' =
        events (State.seen anyJob) (trace (State.step anyJob) (State.init oneServer {}) twoClients) :=
  ⟨_, rfl, auth_over_scheduler anyJob oneServer {} _ _
    (exec_run (show exec (State.step anyJob) _ twoClients = some _ from rfl))⟩

theorem no_client_left_blocked_unloaded : ∃ s c,
    exec (State.step anyJob) (State.init oneServer {}) twoClients = some s ∧
    s.sched.thread = .none ∧ s.sched.world.clients[1]? = some c ∧ c.blocked ≠ .waiting :=
  ⟨_, _, rfl, rfl, rfl, (no_client_left_blocked anyJob oneServer {} _ _
    (exec_run (show exec (State.step anyJob) (State.init oneServer {}) twoClients = some _ from rfl))).2
      (Or.inl rfl) _ (List.mem_of_getElem? (i := 1) rfl)⟩

end Jobs
end Auth
end ValkeyLdap
