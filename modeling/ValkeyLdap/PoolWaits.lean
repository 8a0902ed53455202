/-
# The waiting operations of the pool

`take_connection` and `shutdown` wait in `notify_wait!`: they register on the
pool's signal with the queue locked, unlock it, and look at their condition
again once they are woken and have the lock back. The tasks of one pool are the
jobs of a monitor, a critical section in the steps the scheduler may interleave
with others: to take the lock, to look, to act, to notify, to unlock.

`no_wakeup_lost` is the result: who waits and has not been notified has
nothing to be woken for, and no task takes from an empty queue.

Key theorems: `Effect.refines`, `poolMonitor_lawful`, `no_wakeup_lost`.
-/
import ValkeyLdap.Lib.Monitor
import ValkeyLdap.PoolRuns

namespace ValkeyLdap
namespace Pool

open Runs
open Monitor (Phase)

/-! ### The jobs -/

/-- What a task does with the pool. After `take` it has a connection, and may
give it back. -/
inductive Job
  | take
  | took (poolConn : VkLdapPoolConnection)
  | give (poolConn : VkLdapPoolConnection)
  | refresh (settings : VkConnectionSettings)
  | shutdown
  | done
  deriving DecidableEq, Repr

namespace Job

/-- The condition to leave the loop; the others do not wait. -/
def ready (p : Pool) : Job → Bool
  | .take => !p.queue.isEmpty
  | .shutdown => p.queue.hasAllConnections
  | .give _ | .refresh _ => true
  | .took _ | .done => false

/-- What the operation does to the locked queue, and whether it notifies;
`connect` are the outcomes of the connections it opens, and `none` is the
failed assertion of `take`. -/
def act (connect : ℕ → Result Unit) (p : Pool) : Job → Option (Pool × Job × Bool)
  | .take =>
    p.queue.take.map fun ((conn, epoch), queue) =>
      let poolConn := { conn, server := p.server, fromEpoch := epoch }
      ({ p with queue, out := poolConn :: p.out }, .took poolConn, false)
  | .give poolConn =>
    let p := { p with out := p.out.erase poolConn }
    if p.queue.epoch = poolConn.fromEpoch then
      some ({ p with queue := p.queue.put poolConn.conn }, .done, true)
    else some ({ p with journal := p.journal.close [poolConn.conn] }, .done, false)
  | .refresh settings =>
    let (p, res) := p.reset settings connect
    some (p, .done, res.toBool)
  | .shutdown =>
    let (queue, journal) := p.queue.closeConnections p.journal
    some ({ p with queue, journal, shut := true }, .done, false)
  | .took _ | .done => none

def next : Job → Option Job
  | .took poolConn => some (.give poolConn)
  | _ => none

/-- A connection is given back by the task that took it, or one that it hands
it to. -/
def fresh : Job → Bool
  | .take | .refresh _ | .shutdown => true
  | .took _ | .give _ | .done => false

/-- The connection that the task has. -/
def owned : Job → Option VkLdapPoolConnection
  | .took poolConn | .give poolConn => some poolConn
  | _ => none

end Job

def notify (p : Pool) : Pool := { p with signal := p.signal.notifyWaiters }

def poolMonitor : Monitor Pool Job (ℕ → Result Unit) where
  ready job p := job.ready p
  act job connect p := job.act connect p
  calls p := p.signal.calls
  notify := notify
  next := Job.next
  fresh := Job.fresh

/-! ### What a job does is what the operation does -/

/-- What a job that may go on does to the pool, what becomes of it, and whether
it notifies. -/
inductive Effect (connect : ℕ → Result Unit) (p : Pool) : Job → Pool → Job → Bool → Prop
  | take {c : VkLdapPoolConnection} {q : Pool} : p.takeConnection = some (c, q) →
      Effect connect p .take q (.took c) false
  | put {c : VkLdapPoolConnection} : p.queue.epoch = c.fromEpoch →
      Effect connect p (.give c) { p with out := p.out.erase c, queue := p.queue.put c.conn } .done
        true
  | close {c : VkLdapPoolConnection} : p.queue.epoch ≠ c.fromEpoch →
      Effect connect p (.give c)
        { p with out := p.out.erase c, journal := p.journal.close [c.conn] } .done false
  | refresh {settings : VkConnectionSettings} : Effect connect p (.refresh settings)
      (p.reset settings connect).1 .done (p.reset settings connect).2.toBool
  | shutdown {q : Pool} : p.queue.hasAllConnections = true → p.shutdown = some q →
      Effect connect p .shutdown q .done false

/-- A job that may go on does not fail. -/
theorem act_effect (connect : ℕ → Result Unit) {p : Pool} {job : Job}
    (h : job.ready p = true) : ∃ q job' wakes,
      job.act connect p = some (q, job', wakes) ∧ Effect connect p job q job' wakes := by
  cases job with
  | take =>
    have hne : p.queue.isEmpty = false := by simpa [Job.ready] using h
    have hqueue : p.queue.queue ≠ [] := fun he => by simp [ConnectionQueue.isEmpty, he] at hne
    have htake : p.takeConnection = p.queue.take.map fun ((conn, epoch), queue) =>
        let poolConn := { conn, server := p.server, fromEpoch := epoch }
        (poolConn, { p with queue, out := poolConn :: p.out }) := by
      rw [takeConnection, hne]
      rfl
    have hlast : p.queue.queue.getLast? = some (p.queue.queue.getLast hqueue) :=
      List.getLast?_eq_some_getLast hqueue
    unfold ConnectionQueue.take at htake
    rw [hlast] at htake
    refine ⟨_, _, _, ?_, .take htake⟩
    rw [Job.act, ConnectionQueue.take, hlast]
    rfl
  | give c =>
    by_cases he : p.queue.epoch = c.fromEpoch
    · exact ⟨_, _, _, if_pos he, .put he⟩
    · exact ⟨_, _, _, if_neg he, .close he⟩
  | refresh settings => exact ⟨_, _, _, rfl, .refresh⟩
  | shutdown => exact ⟨_, _, _, rfl, .shutdown h (if_pos h)⟩
  | took c => cases h
  | done => cases h

theorem inv_notify {p : Pool} (h : p.Inv) : p.notify.Inv := ⟨h.ids, h.queued, h.outs, h.count⟩

theorem inv_of_notify {p : Pool} (h : p.notify.Inv) : p.Inv := ⟨h.ids, h.queued, h.outs, h.count⟩

theorem shutdown_eq {p q : Pool} (h : p.shutdown = some q) :
    q = { p with queue := (p.queue.closeConnections p.journal).1,
                 journal := (p.queue.closeConnections p.journal).2, shut := true } := by
  unfold shutdown at h
  split at h
  · exact (Option.some.inj h).symm
  · cases h

section
variable {connect : ℕ → Result Unit} {p q : Pool} {job job' : Job} {wakes : Bool}

/-- Acting, and notifying where that follows, is the operation of the pool. -/
theorem Effect.refines (h : Effect connect p job q job' wakes) :
    (∃ c, job = .take ∧ p.takeConnection = some (c, q)) ∨
      (∃ c, job = .give c ∧ (if wakes then q.notify else q) = p.returnConnection c) ∨
      (∃ settings, job = .refresh settings ∧
        (if wakes then q.notify else q) = (p.refreshConnections settings connect).1) ∨
      job = .shutdown ∧ p.shutdown = some q := by
  cases h with
  | @take c q ht => exact .inl ⟨c, rfl, ht⟩
  | @put c he =>
    refine .inr (.inl ⟨c, rfl, ?_⟩)
    unfold returnConnection
    simp only [he, if_true]
    rfl
  | @close c he =>
    refine .inr (.inl ⟨c, rfl, ?_⟩)
    unfold returnConnection
    simp only [he, if_false]
    rfl
  | @refresh settings =>
    refine .inr (.inr (.inl ⟨settings, rfl, ?_⟩))
    rw [refreshConnections_fst]
    have hsignal : (p.reset settings connect).1.signal = p.signal := rfl
    by_cases hr : (p.reset settings connect).2.toBool = true
    · rw [if_pos hr, if_pos hr, notify, hsignal]
    · rw [if_neg hr, if_neg hr, ← hsignal]
  | shutdown _ hs => exact .inr (.inr (.inr ⟨rfl, hs⟩))

/-- The connections of the task are exchanged with those handed out. -/
theorem Effect.out (h : Effect connect p job q job' wakes)
    (hc : ∀ c, job = .give c → c ∈ p.out) :
    (job.owned.toList ++ q.out).Perm (job'.owned.toList ++ p.out) := by
  cases h with
  | @take c q ht =>
    rw [(takeConnection_eq ht).2.2.2]
    exact .refl _
  | @put c he => exact (List.perm_cons_erase (hc c rfl)).symm
  | @close c he => exact (List.perm_cons_erase (hc c rfl)).symm
  | refresh => exact .refl _
  | shutdown _ hs =>
    rw [shutdown_eq hs]
    exact .refl _

theorem Effect.inv (h : Effect connect p job q job' wakes) (hp : p.Inv)
    (hc : ∀ c, job = .give c → c ∈ p.out) : q.Inv := by
  rcases h.refines with ⟨c, rfl, ht⟩ | ⟨c, rfl, he⟩ | ⟨settings, rfl, he⟩ | ⟨rfl, hs⟩
  · exact inv_takeConnection hp ht
  · have hinv := he ▸ inv_returnConnection hp (hc c rfl)
    cases wakes with
    | true => exact inv_of_notify hinv
    | false => exact hinv
  · have hinv : (p.refreshConnections settings connect).1.Inv :=
      inv_refreshConnections settings connect hp
    rw [← he] at hinv
    cases wakes with
    | true => exact inv_of_notify hinv
    | false => exact hinv
  · exact inv_shutdown hp hs

theorem Effect.signal (h : Effect connect p job q job' wakes) : q.signal = p.signal := by
  cases h with
  | take ht => rw [(takeConnection_eq ht).2.2.2]
  | shutdown _ hs => rw [shutdown_eq hs]
  | _ => rfl

/-- The queue is never longer than the pool is large. -/
theorem Inv.idle_le (h : p.Inv) : p.idle ≤ p.queue.size := by
  have hcount := h.count
  split at hcount <;> omega

theorem ready_take : Job.take.ready p = false ↔ p.queue.queue = [] := by
  simp [Job.ready, ConnectionQueue.isEmpty]

theorem ready_shutdown : Job.shutdown.ready p = false ↔ p.idle ≠ p.queue.size := by
  simp [Job.ready, ConnectionQueue.hasAllConnections, idle]

/-- A reset that failed has had connections to open. -/
theorem size_pos_of_failed {settings : VkConnectionSettings}
    (h : (p.reset settings connect).2.toBool = false) : settings.connectionPoolSize ≠ 0 := by
  intro h0
  have hloop : (p.resetLoop settings connect).2.2 = .ok () := by
    unfold resetLoop
    rw [h0]
    rfl
  rw [reset_eq] at h
  simp only [hloop] at h
  cases h

/-- What does not notify makes neither condition true. -/
theorem Effect.quiet (h : Effect connect p job q job' wakes) (hwakes : wakes = false) (hp : p.Inv) :
    (p.queue.queue = [] → q.queue.queue = []) ∧
      (p.idle ≠ p.queue.size → q.idle ≠ q.queue.size) := by
  cases h with
  | @take c q ht =>
    obtain ⟨hqueue, -, -, hq⟩ := takeConnection_eq ht
    have hsize : q.queue.size = p.queue.size := by rw [hq]
    have hidle : p.idle = q.idle + 1 := by
      rw [idle, hqueue, List.length_append]
      rfl
    have hle := hp.idle_le
    constructor
    · intro he
      rw [he] at hqueue
      simp at hqueue
    · omega
  | put => cases hwakes
  | close => exact ⟨id, id⟩
  | @refresh settings =>
    have hlength := resetLoop_length p settings connect
    have hsize := resetLoop_size p settings connect
    have hpos := size_pos_of_failed hwakes
    rw [reset_eq] at hwakes ⊢
    simp only at hwakes
    rw [hwakes] at hlength
    constructor
    · exact fun _ => List.length_eq_zero_iff.mp hlength
    · rintro - he
      exact hpos (hsize.symm.trans (he.symm.trans hlength))
  | shutdown hall hs =>
    rw [shutdown_eq hs]
    constructor
    · exact fun _ => rfl
    · intro hne
      have heq : p.idle = p.queue.size := by
        simpa [ConnectionQueue.hasAllConnections, idle] using hall
      exact absurd heq hne

theorem Effect.quiet_ready (h : Effect connect p job q job' false) (hp : p.Inv) (k : Job)
    (hk : k.ready p = false) : k.ready q = false := by
  obtain ⟨htake, hshutdown⟩ := h.quiet rfl hp
  cases k with
  | take => exact ready_take.mpr (htake (ready_take.mp hk))
  | shutdown => exact ready_shutdown.mpr (hshutdown (ready_shutdown.mp hk))
  | give c => cases hk
  | refresh settings => cases hk
  | took c => rfl
  | done => rfl

end

/-! ### Runs -/

/-- The pool is in order, and the tasks have the connections handed out. -/
def Kept (p : Pool) (jobs : List Job) : Prop :=
  p.Inv ∧ (jobs.filterMap Job.owned).Perm p.out

theorem Kept.mem {p : Pool} {jobs : List Job} (h : Kept p jobs) {i : ℕ}
    {c : VkLdapPoolConnection} (hi : jobs[i]? = some (.give c)) : c ∈ p.out :=
  h.2.subset (List.mem_filterMap.mpr ⟨_, List.mem_of_getElem? hi, rfl⟩)

theorem Kept.set {p q : Pool} {jobs : List Job} {i : ℕ} {job job' : Job} (h : Kept p jobs)
    (hi : jobs[i]? = some job) (hq : q.Inv)
    (hout : (job.owned.toList ++ q.out).Perm (job'.owned.toList ++ p.out)) :
    Kept q (jobs.set i job') := by
  refine ⟨hq, (List.perm_append_right_iff job.owned.toList).mp ?_⟩
  have hset := Runs.filterMap_set_perm Job.owned job' hi
  calc
    List.Perm _ (jobs.filterMap Job.owned ++ job'.owned.toList) := hset
    List.Perm _ (p.out ++ job'.owned.toList) := h.2.append_right _
    List.Perm _ (job'.owned.toList ++ p.out) := List.perm_append_comm
    List.Perm _ (job.owned.toList ++ q.out) := hout.symm
    List.Perm _ (q.out ++ job.owned.toList) := List.perm_append_comm

theorem poolMonitor_lawful : poolMonitor.Lawful Kept where
  act {p jobs i job} connect h hi hready := by
    obtain ⟨q, job', wakes, hact, heffect⟩ := act_effect connect hready
    have hc : ∀ c, job = .give c → c ∈ p.out := by
      rintro c rfl
      exact h.mem hi
    refine ⟨q, job', wakes, hact, h.set hi (heffect.inv h.1 hc) (heffect.out hc),
      congrArg (·.calls) heffect.signal, fun hw k hk => ?_⟩
    subst hw
    exact heffect.quiet_ready h.1 k hk
  notify h := ⟨⟨inv_notify h.1, h.2⟩, rfl⟩
  next {p jobs i job job'} h hi hnext := by
    cases job with
    | took c =>
      obtain rfl := Option.some.inj hnext
      exact h.set hi h.1 (.refl _)
    | _ => cases hnext
  begin {p jobs job} h hfresh := by
    have hnone : job.owned = none := by cases job <;> first | rfl | cases hfresh
    refine ⟨h.1, ?_⟩
    rw [List.filterMap_append]
    simpa [hnone] using h.2

/-- **No wake-up is lost in the pool.** However many tasks take, give back,
refresh and shut down, in every state reached in which the queue is unlocked: if a
task waits in `take_connection` and has not been notified since it registered,
the queue is empty; if one waits so in `shutdown`, not all connections are
there; and no `take` ever fails its assertion. -/
theorem no_wakeup_lost (n : ℕ) (server : VkLdapServer) (settings : VkConnectionSettings)
    (connect : ℕ → Result Unit)
    (tr : List (Monitor.State Pool Job × Monitor.Label Job (ℕ → Result Unit)))
    (s : Monitor.State Pool Job)
    (h : Run poolMonitor.step (Monitor.start (Pool.new n server settings connect).1) tr s) :
    (s.holder = none → ∀ (i seen : ℕ), s.shared.signal.calls ≤ seen →
      (s.tasks[i]? = some (Job.take, Phase.waiting seen) → s.shared.queue.isEmpty = true) ∧
      (s.tasks[i]? = some (Job.shutdown, Phase.waiting seen) →
        s.shared.queue.hasAllConnections = false)) ∧
    ∀ (i : ℕ) (job : Job), s.tasks[i]? ≠ some (job, Phase.failed) := by
  have hkept : Kept (Pool.new n server settings connect).1 [] :=
    ⟨inv_new settings connect n server, .refl _⟩
  obtain ⟨hwaits, hfailed⟩ := Monitor.no_lost_wakeup poolMonitor_lawful hkept h
  refine ⟨fun hfree i seen hseen => ⟨fun hi => ?_, fun hi => ?_⟩, hfailed⟩
  · have hready : (!s.shared.queue.isEmpty) = false := hwaits hfree i _ seen hi hseen
    simpa using hready
  · exact hwaits hfree i _ seen hi hseen

/-! ### Two takers of one connection -/

/-- The first takes it and the second waits. -/
def twoTakers : List (Monitor.Label Job (ℕ → Result Unit)) :=
  [.begin .take, .begin .take, .run 0 fun _ => .ok (), .run 0 fun _ => .ok (),
    .run 0 fun _ => .ok (), .run 0 fun _ => .ok (), .run 1 fun _ => .ok (),
    .run 1 fun _ => .ok (), .run 1 fun _ => .ok ()]

theorem no_wakeup_lost_two : ∃ tr s,
    Run poolMonitor.step (Monitor.start (Pool.new 0 (.new "ldap://a" 0 .healthy)
      { connectionPoolSize := 1 } fun _ => .ok ()).1) tr s ∧
      s.tasks[1]? = some (Job.take, Phase.waiting 0) ∧ s.shared.queue.isEmpty = true := by
  have hexec : ∃ s, exec poolMonitor.step (Monitor.start (Pool.new 0 (.new "ldap://a" 0 .healthy)
      { connectionPoolSize := 1 } fun _ => .ok ()).1) twoTakers = some s ∧
      s.holder = none ∧ s.tasks[1]? = some (Job.take, Phase.waiting 0) ∧ s.shared.signal.calls ≤ 0 :=
    ⟨_, rfl, rfl, rfl, Nat.le_refl 0⟩
  obtain ⟨s, hs, hfree, htask, hseen⟩ := hexec
  obtain ⟨hwaits, -⟩ := no_wakeup_lost 0 (.new "ldap://a" 0 .healthy) { connectionPoolSize := 1 }
    (fun _ => .ok ()) _ s (exec_run hs)
  exact ⟨_, s, exec_run hs, htask, (hwaits hfree 1 0 hseen).1 htask⟩

end Pool
end ValkeyLdap
