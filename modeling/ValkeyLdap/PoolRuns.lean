/-
# Runs of one pool

Every pool reached from `VkConnectionPool::new` by any interleaving of
`take_connection`, `return_connection`, `refresh_connections` and `shutdown`
keeps `Pool.Inv`, whatever the outcomes of the attempts to connect: no
connection is lost, doubled or queued in an epoch that is not its own.

Key theorems: `Pool.inv_new`, `Pool.inv_step`, `Pool.pool_conservation`.
-/
import Mathlib.Data.List.Count
import Mathlib.Data.List.Nodup
import Mathlib.Tactic.SplitIfs
import ValkeyLdap.Lib.Runs
import ValkeyLdap.Pool

namespace ValkeyLdap

/-! ### The loop that opens connections -/

namespace ConnectionQueue

variable (server : VkLdapServer) (settings : VkConnectionSettings) (connect : ℕ → Result Unit)

theorem openConnections_epoch : ∀ (n k : ℕ) (q : ConnectionQueue) (j : Journal),
    (openConnections server settings connect n k q j).1.epoch = q.epoch ∧
      (openConnections server settings connect n k q j).1.size = q.size
  | 0, _, _, _ => ⟨rfl, rfl⟩
  | n + 1, k, q, j => by
    unfold openConnections
    split
    · exact openConnections_epoch n (k + 1) _ _
    · exact ⟨rfl, rfl⟩

theorem openConnections_ok : ∀ (n k : ℕ) (q : ConnectionQueue) (j : Journal),
    (openConnections server settings connect n k q j).2.2 = .ok () →
      (openConnections server settings connect n k q j).1.queue.length = q.queue.length + n
  | 0, _, _, _, _ => rfl
  | n + 1, k, q, j, h => by
    unfold openConnections at h ⊢
    split at h
    · have ih := openConnections_ok n (k + 1) _ _ h
      simp only [List.length_cons] at ih ⊢
      omega
    · cases h

theorem openConnections_error : ∀ (n k : ℕ) (q : ConnectionQueue) (j : Journal),
    (openConnections server settings connect n k q j).2.2 ≠ .ok () →
      (openConnections server settings connect n k q j).1.queue = []
  | 0, _, _, _, h => absurd rfl h
  | n + 1, k, q, j, h => by
    unfold openConnections at h ⊢
    split at h
    · exact openConnections_error n (k + 1) _ _ h
    · rfl

/-- What holds of the queued connections and of every one that may be opened
in this epoch holds of the queue afterwards. -/
theorem openConnections_forall (P : VkLdapConnection → Prop) :
    ∀ (n k : ℕ) (q : ConnectionQueue) (j : Journal), (∀ c ∈ q.queue, P c) →
      (∀ i, P { pool := j.pool, id := i, url := server.url, settings, epoch := q.epoch }) →
      ∀ c ∈ (openConnections server settings connect n k q j).1.queue, P c
  | 0, _, _, _, hq, _ => hq
  | n + 1, k, q, j, hq, hnew => by
    unfold openConnections
    split
    · refine openConnections_forall P n (k + 1) _ _ (fun c hc => ?_) hnew
      rcases List.mem_cons.mp hc with rfl | hc
      · exact hnew _
      · exact hq c hc
    · simp [closeConnections]

theorem accounted_close {q : ConnectionQueue} {out : List ℕ} {j : Journal}
    (h : q.Accounted out j) : (q.closeConnections j).1.Accounted out (q.closeConnections j).2 := by
  intro i
  rw [show (q.closeConnections j).2.opened = j.opened from rfl, ← h i]
  simp only [closeConnections, Journal.close, List.map_nil, List.count_nil, List.map_append,
    List.count_append]
  omega

theorem accounted_open {q : ConnectionQueue} {out : List ℕ} {j : Journal} (h : q.Accounted out j)
    (c : VkLdapConnection) (hc : c.id = j.opened) :
    ConnectionQueue.Accounted { q with queue := c :: q.queue } out
      { j with opened := j.opened + 1 } := by
  intro i
  have := h i
  simp only [List.map_cons, List.count_cons, hc, beq_iff_eq]
  split_ifs at this ⊢ <;> omega

theorem openConnections_accounted (out : List ℕ) :
    ∀ (n k : ℕ) (q : ConnectionQueue) (j : Journal), q.Accounted out j →
      (openConnections server settings connect n k q j).1.Accounted out
        (openConnections server settings connect n k q j).2.1
  | 0, _, _, _, h => h
  | n + 1, k, q, j, h => by
    unfold openConnections
    split
    · exact openConnections_accounted out n (k + 1) _ _ (accounted_open h _ rfl)
    · exact accounted_close h

end ConnectionQueue

/-! ### The operations keep the invariant -/

namespace Pool

variable {p : Pool}

/-- The queue a reset starts from, once the old connections are closed. -/
def resetStart (p : Pool) (settings : VkConnectionSettings) : ConnectionQueue :=
  { queue := [], epoch := p.queue.epoch + 1, size := settings.connectionPoolSize }

/-- The loop as `reset` runs it. -/
def resetLoop (p : Pool) (settings : VkConnectionSettings) (connect : ℕ → Result Unit) :
    ConnectionQueue × Journal × Result Unit :=
  ConnectionQueue.openConnections p.server settings connect settings.connectionPoolSize 0
    (p.resetStart settings) (p.journal.close p.queue.queue)

theorem reset_eq (p : Pool) (settings : VkConnectionSettings) (connect : ℕ → Result Unit) :
    p.reset settings connect =
      ({ p with queue := (p.resetLoop settings connect).1,
                journal := (p.resetLoop settings connect).2.1,
                resetOk := (p.resetLoop settings connect).2.2.toBool, shut := false },
        (p.resetLoop settings connect).2.2) := rfl

variable (p : Pool) (settings : VkConnectionSettings) (connect : ℕ → Result Unit)

theorem resetLoop_epoch : (p.resetLoop settings connect).1.epoch = p.queue.epoch + 1 :=
  (ConnectionQueue.openConnections_epoch _ _ _ _ _ _ _).1

theorem resetLoop_size :
    (p.resetLoop settings connect).1.size = settings.connectionPoolSize :=
  (ConnectionQueue.openConnections_epoch _ _ _ _ _ _ _).2

/-- A reset leaves all of the connections or none. -/
theorem resetLoop_length : (p.resetLoop settings connect).1.queue.length =
    if (p.resetLoop settings connect).2.2.toBool then settings.connectionPoolSize else 0 := by
  cases hr : (p.resetLoop settings connect).2.2 with
  | ok =>
    have : (p.resetLoop settings connect).1.queue.length = 0 + settings.connectionPoolSize :=
      ConnectionQueue.openConnections_ok _ _ _ _ _ _ _ hr
    simpa [Except.toBool] using this
  | error e =>
    have : (p.resetLoop settings connect).1.queue = [] :=
      ConnectionQueue.openConnections_error _ _ _ _ _ _ _ (fun h => by cases hr.symm.trans h)
    simpa [Except.toBool] using this

/-- Whatever holds of every connection the reset may open holds of the queue. -/
theorem resetLoop_forall (P : VkLdapConnection → Prop)
    (hnew : ∀ i, P { pool := p.journal.pool, id := i, url := p.server.url, settings,
                     epoch := p.queue.epoch + 1 }) :
    ∀ c ∈ (p.resetLoop settings connect).1.queue, P c :=
  ConnectionQueue.openConnections_forall _ _ _ P _ _ _ _ (fun c hc => by simp [resetStart] at hc)
    hnew

variable {p}

theorem reset_inv (hids : p.queue.Accounted p.outIds p.journal)
    (houts : ∀ c ∈ p.out, c.conn.epoch = c.fromEpoch ∧ c.fromEpoch ≤ p.queue.epoch) :
    (p.reset settings connect).1.Inv := by
  rw [reset_eq]
  have he := resetLoop_epoch p settings connect
  refine ⟨?_, ?_, ?_, ?_⟩
  · exact ConnectionQueue.openConnections_accounted _ _ _ _ _ _ _ _
      (ConnectionQueue.accounted_close hids)
  · exact fun c hc => (resetLoop_forall p settings connect (·.epoch = p.queue.epoch + 1)
      (fun _ => rfl) c hc).trans he.symm
  · intro c hc
    obtain ⟨h1, h2⟩ := houts c hc
    exact ⟨h1, by simp only; omega⟩
  · -- a connection handed out before the reset is of an earlier epoch
    have h0 : p.out.countP (·.fromEpoch = (p.resetLoop settings connect).1.epoch) = 0 := by
      rw [List.countP_eq_zero]
      intro c hc
      have := (houts c hc).2
      simp only [he, decide_eq_true_eq]
      omega
    simp only [idle, outNow, Live, h0, resetLoop_length, resetLoop_size, and_true, Nat.add_zero]

theorem inv_new (n : ℕ) (server : VkLdapServer) : (Pool.new n server settings connect).1.Inv :=
  reset_inv settings connect (fun i => by simp [ConnectionQueue.new, outIds])
    (fun c hc => by simp at hc)

theorem refreshConnections_fst (p : Pool) : (p.refreshConnections settings connect).1 =
    { (p.reset settings connect).1 with
      signal := if (p.reset settings connect).2.toBool then p.signal.notifyWaiters
        else p.signal } := by
  unfold refreshConnections
  rcases h : p.reset settings connect with ⟨q, r⟩
  have hs : q.signal = p.signal := congrArg (fun x => x.1.signal) h.symm
  cases r <;> simp [Except.toBool, ← hs]

theorem inv_refreshConnections (h : p.Inv) : (p.refreshConnections settings connect).1.Inv := by
  rw [refreshConnections_fst]
  obtain ⟨h1, h2, h3, h4⟩ := reset_inv settings connect h.ids h.outs
  exact ⟨h1, h2, h3, h4⟩

/-- Taking hands out the last connection of the queue. -/
theorem takeConnection_eq {c : VkLdapPoolConnection} {q : Pool}
    (h : p.takeConnection = some (c, q)) :
    p.queue.queue = q.queue.queue ++ [c.conn] ∧ c.server = p.server ∧
      c.fromEpoch = p.queue.epoch ∧
      q = { p with queue := { p.queue with queue := q.queue.queue }, out := c :: p.out } := by
  unfold takeConnection at h
  split at h
  · cases h
  · obtain ⟨⟨⟨conn, epoch⟩, q'⟩, ht, h⟩ := Option.map_eq_some_iff.mp h
    obtain ⟨conn', hl, ht⟩ := Option.map_eq_some_iff.mp ht
    simp only [Prod.mk.injEq] at h ht
    obtain ⟨⟨rfl, rfl⟩, rfl⟩ := ht
    obtain ⟨rfl, rfl⟩ := h
    exact ⟨(List.dropLast_append_getLast? _ hl).symm, rfl, rfl, rfl⟩

theorem inv_takeConnection {c : VkLdapPoolConnection} {q : Pool} (h : p.Inv)
    (ht : p.takeConnection = some (c, q)) : q.Inv := by
  obtain ⟨hq, -, he, heq⟩ := takeConnection_eq ht
  rw [heq]
  refine ⟨fun i => ?_, ?_, ?_, ?_⟩
  · rw [← h.ids i]
    simp only [hq, outIds, List.map_append, List.map_cons, List.map_nil, List.count_append,
      List.count_cons, List.count_nil]
    omega
  · exact fun x hx => h.queued x (hq ▸ List.mem_append_left _ hx)
  · intro x hx
    rcases List.mem_cons.mp hx with rfl | hx
    · exact ⟨(h.queued _ (hq ▸ by simp)).trans he.symm, Nat.le_of_eq he⟩
    · exact h.outs x hx
  · refine Eq.trans ?_ h.count
    simp only [idle, outNow, hq, List.length_append, List.length_singleton, List.countP_cons, he,
      decide_true, ite_true]
    omega

theorem inv_returnConnection {c : VkLdapPoolConnection} (h : p.Inv) (hc : c ∈ p.out) :
    (p.returnConnection c).Inv := by
  obtain ⟨h1, h2⟩ := h.outs c hc
  have hperm := List.perm_cons_erase hc
  have houts : ∀ x ∈ p.out.erase c, x.conn.epoch = x.fromEpoch ∧ x.fromEpoch ≤ p.queue.epoch :=
    fun x hx => h.outs x (List.mem_of_mem_erase hx)
  have hcnt : ∀ i, p.outIds.count i =
      ((p.out.erase c).map (·.conn.id)).count i + if c.conn.id = i then 1 else 0 := by
    intro i
    rw [outIds, (hperm.map _).count_eq i, List.map_cons, List.count_cons]
    simp
  have hnow : p.outNow = (p.out.erase c).countP (·.fromEpoch = p.queue.epoch) +
      if c.fromEpoch = p.queue.epoch then 1 else 0 := by
    rw [outNow, hperm.countP_eq, List.countP_cons]
    simp
  unfold returnConnection
  simp only
  split
  · rename_i he
    refine ⟨fun i => ?_, ?_, houts, ?_⟩
    · refine Eq.trans ?_ (h.ids i)
      rw [hcnt i]
      simp only [ConnectionQueue.put, outIds, List.map_cons, List.count_cons, beq_iff_eq]
      omega
    · intro x hx
      rcases List.mem_cons.mp hx with rfl | hx
      · exact h1.trans he.symm
      · exact h.queued x hx
    · refine Eq.trans ?_ h.count
      rw [hnow, if_pos he.symm]
      exact Nat.succ_add_eq_add_succ _ _
  · rename_i he
    refine ⟨fun i => ?_, h.queued, houts, ?_⟩
    · refine Eq.trans ?_ (h.ids i)
      rw [hcnt i]
      simp only [Journal.close, outIds, List.map_append, List.map_cons, List.map_nil,
        List.count_append, List.count_cons, List.count_nil, beq_iff_eq]
      omega
    · refine Eq.trans ?_ h.count
      rw [hnow, if_neg (fun h => he h.symm)]
      rfl

/-- A pool that is shut down has everything back: a dead one has no
connection out either. -/
theorem inv_shutdown {q : Pool} (h : p.Inv) (hs : p.shutdown = some q) : q.Inv := by
  unfold shutdown at hs
  split at hs
  · rename_i hall
    obtain rfl := Option.some.inj hs
    refine ⟨ConnectionQueue.accounted_close h.ids, fun x hx => ?_, h.outs, ?_⟩
    · simp at hx
    · have hall : p.idle = p.queue.size := by
        simpa [ConnectionQueue.hasAllConnections, idle] using hall
      have hcount := h.count
      have h0 : p.outNow = 0 := by split_ifs at hcount <;> omega
      rw [if_neg (fun h => Bool.noConfusion h.2)]
      exact (Nat.zero_add _).trans h0
  · cases hs

/-! ### Runs -/

/-- An operation on the pool that gets past its wait. -/
inductive Act
  | takeConnection
  | returnConnection (poolConn : VkLdapPoolConnection)
  | refreshConnections (settings : VkConnectionSettings) (connect : ℕ → Result Unit)
  | shutdown

/-- A connection is given back once, by a task that took it from this pool. -/
def step (p : Pool) : Act → Option Pool
  | .takeConnection => p.takeConnection.map (·.2)
  | .returnConnection poolConn =>
    if poolConn ∈ p.out then some (p.returnConnection poolConn) else none
  | .refreshConnections settings connect => some (p.refreshConnections settings connect).1
  | .shutdown => p.shutdown

theorem inv_step {a : Act} {q : Pool} (h : p.Inv) (hs : p.step a = some q) : q.Inv := by
  cases a with
  | takeConnection =>
    obtain ⟨⟨c, q'⟩, ht, rfl⟩ := Option.map_eq_some_iff.mp hs
    exact inv_takeConnection h ht
  | returnConnection c =>
    simp only [step] at hs
    split at hs
    · obtain rfl := Option.some.inj hs
      exact inv_returnConnection h ‹_›
    · cases hs
  | refreshConnections settings connect =>
    obtain rfl := Option.some.inj hs
    exact inv_refreshConnections settings connect h
  | shutdown => exact inv_shutdown h hs

theorem inv_run (n : ℕ) (server : VkLdapServer) {tr : List (Pool × Act)}
    (h : Runs.Run step (Pool.new n server settings connect).1 tr p) : p.Inv :=
  h.invariant Runs.steps_true (inv_new settings connect n server)
    fun _ _ _ hi _ hs => inv_step hi hs

/-- Of the connections opened so far, number `i` is queued, handed out or
closed: in how many of these places it is, and how often. -/
def places (p : Pool) (i : ℕ) : ℕ :=
  (p.queue.queue.map (·.id)).count i + p.outIds.count i + (p.journal.closed.map (·.id)).count i

/-- **Conservation and exclusive use.** Whatever the interleaving of takes,
returns, refreshes and shutdowns and whichever attempts to connect fail: the
queue holds connections of the current epoch, none of them closed; no
connection is in the queue and the tasks' hands twice; a pool that is live has
`size` connections there, one whose last reset failed or which has been shut
down since has none; and every connection opened is in exactly one place. -/
theorem pool_conservation (n : ℕ) (server : VkLdapServer) (settings : VkConnectionSettings)
    (connect : ℕ → Result Unit) (tr : List (Pool × Act)) (p : Pool)
    (h : Runs.Run step (Pool.new n server settings connect).1 tr p) :
    (∀ c ∈ p.queue.queue, c.epoch = p.queue.epoch ∧ ∀ d ∈ p.journal.closed, d.id ≠ c.id) ∧
      (p.queue.queue.map (·.id) ++ p.outIds).Nodup ∧
      p.idle + p.outNow = (if p.Live then p.queue.size else 0) ∧
      ∀ i, p.places i = if i < p.journal.opened then 1 else 0 := by
  have hI := inv_run settings connect n server h
  have hle : ∀ i, p.places i ≤ 1 := fun i => by
    rw [places, hI.ids i]
    split_ifs <;> omega
  refine ⟨fun c hc => ⟨hI.queued c hc, fun d hd he => ?_⟩, ?_, hI.count, hI.ids⟩
  · -- a closed connection in the queue would be in two places
    have h1 : 0 < (p.queue.queue.map (·.id)).count c.id :=
      List.count_pos_iff.mpr (List.mem_map.mpr ⟨c, hc, rfl⟩)
    have h2 : 0 < (p.journal.closed.map (·.id)).count c.id :=
      List.count_pos_iff.mpr (List.mem_map.mpr ⟨d, hd, he⟩)
    have := hle c.id
    unfold places at this
    omega
  · rw [List.nodup_iff_count_le_one]
    intro i
    have := hle i
    unfold places at this
    rw [List.count_append]
    omega

/-- A pool of one connection, taken and given back. -/
theorem pool_conservation_one :
    let server := VkLdapServer.new "ldap://a" 0 .healthy
    let settings : VkConnectionSettings := { connectionPoolSize := 1 }
    let new := (Pool.new 0 server settings fun _ => .ok ()).1
    ∃ tr p, Runs.Run step new tr p ∧ p.outIds = [0] ∧
      p.idle + p.outNow = (if p.Live then p.queue.size else 0) := by
  intro server settings new
  have h : ∃ p, Runs.exec step new [.takeConnection] = some p ∧ p.outIds = [0] := ⟨_, rfl, rfl⟩
  obtain ⟨p, hp, ho⟩ := h
  have hr := Runs.exec_run hp
  exact ⟨_, p, hr, ho, (pool_conservation 0 server settings _ _ p hr).2.2.1⟩

/-- A refresh opens a pool again that has been shut down: it is possible to
have both shut a pool down and hold its connections. -/
theorem pool_refresh_reopens :
    ¬ ∀ (n : ℕ) (server : VkLdapServer) (settings : VkConnectionSettings)
      (connect : ℕ → Result Unit) (tr : List (Pool × Act)) (p : Pool),
      Runs.Run step (Pool.new n server settings connect).1 tr p →
        (p.resetOk = true ∧ (∀ x ∈ tr, x.2 ≠ .shutdown) → p.idle + p.outNow = p.queue.size) ∧
          (¬ (p.resetOk = true ∧ ∀ x ∈ tr, x.2 ≠ .shutdown) → p.idle + p.outNow = 0) := by
  intro h
  let server := VkLdapServer.new "ldap://a" 0 .healthy
  let settings : VkConnectionSettings := { connectionPoolSize := 1 }
  have hex : ∃ p, Runs.exec step (Pool.new 0 server settings fun _ => .ok ()).1
      [.shutdown, .refreshConnections settings fun _ => .ok ()] = some p ∧
        p.idle + p.outNow = 1 := ⟨_, rfl, rfl⟩
  obtain ⟨p, hp, h1⟩ := hex
  have h0 := (h 0 server settings _ _ p (Runs.exec_run hp)).2 fun hc =>
    hc.2 _ List.mem_cons_self rfl
  omega

end Pool
end ValkeyLdap
