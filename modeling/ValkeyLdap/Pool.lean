/-
# The connection pool of a server

`src/vkldap/connection.rs`, `ConnectionQueue` and `VkConnectionPool`. Every
operation holds the queue's lock from its first line to its last (the awaits
inside only open and close connections), so an operation is one function of
the queue. What the two waiting operations do is one attempt each: `none` is
the branch that registers on the signal and releases the lock.

`Pool` adds to the code's fields what has happened to the pool (`Journal`,
`out`, `resetOk`, `shut`); no operation reads it.
-/
import Mathlib.Data.List.Basic
import ValkeyLdap.Errors
import ValkeyLdap.Server

namespace ValkeyLdap

/-- `VkLdapConnection`: the pool that opened it, as its which connection, to
which server, with which settings and in which epoch. -/
structure VkLdapConnection where
  pool : ℕ
  id : ℕ
  url : Url
  settings : VkConnectionSettings
  epoch : ℕ
  deriving DecidableEq, Repr

/-- `VkLdapPoolConnection`. -/
structure VkLdapPoolConnection where
  conn : VkLdapConnection
  server : VkLdapServer
  fromEpoch : ℕ
  deriving DecidableEq, Repr

/-- Which pool this is, how many connections it has opened (the next one's id),
and the ones it has closed, each as often as it was closed. -/
structure Journal where
  pool : ℕ
  opened : ℕ
  closed : List VkLdapConnection
  deriving DecidableEq, Repr

def Journal.close (j : Journal) (conns : List VkLdapConnection) : Journal :=
  { j with closed := j.closed ++ conns }

/-- `ConnectionQueue`; the front of the `VecDeque` is the head of the list.
The epoch is a `u64`, which no run of resets exhausts. -/
structure ConnectionQueue where
  queue : List VkLdapConnection
  epoch : ℕ
  size : ℕ
  deriving DecidableEq, Repr

namespace ConnectionQueue

protected def new : ConnectionQueue := { queue := [], epoch := 0, size := 0 }

def closeConnections (q : ConnectionQueue) (j : Journal) : ConnectionQueue × Journal :=
  ({ q with queue := [] }, j.close q.queue)

/-- The loop of `reset_connections`: `n` connections still to open, the next
one being attempt `k`; the first failure closes what was opened. -/
def openConnections (server : VkLdapServer) (settings : VkConnectionSettings)
    (connect : ℕ → Result Unit) :
    ℕ → ℕ → ConnectionQueue → Journal → ConnectionQueue × Journal × Result Unit
  | 0, _, q, j => (q, j, .ok ())
  | n + 1, k, q, j =>
    match connect k with
    | .ok () =>
      let conn :=
        { pool := j.pool, id := j.opened, url := server.url, settings, epoch := q.epoch }
      openConnections server settings connect n (k + 1) { q with queue := conn :: q.queue }
        { j with opened := j.opened + 1 }
    | .error err =>
      let (q, j) := q.closeConnections j
      (q, j, .error err)

/-- `reset_connections`; `connect k` is the outcome of the `k`-th attempt to
open a connection. -/
def resetConnections (q : ConnectionQueue) (server : VkLdapServer)
    (settings : VkConnectionSettings) (connect : ℕ → Result Unit) (j : Journal) :
    ConnectionQueue × Journal × Result Unit :=
  let (q, j) := q.closeConnections j
  let q := { q with epoch := q.epoch + 1, size := settings.connectionPoolSize }
  openConnections server settings connect q.size 0 q j

def isEmpty (q : ConnectionQueue) : Bool := q.queue.isEmpty

def hasAllConnections (q : ConnectionQueue) : Bool := q.queue.length == q.size

/-- `take`; `none` is the failed assertion. -/
def take (q : ConnectionQueue) : Option ((VkLdapConnection × ℕ) × ConnectionQueue) :=
  q.queue.getLast?.map fun conn => ((conn, q.epoch), { q with queue := q.queue.dropLast })

def put (q : ConnectionQueue) (conn : VkLdapConnection) : ConnectionQueue :=
  { q with queue := conn :: q.queue }

/-- Of the connections opened so far each is queued, in `out` or closed, and
that once. -/
def Accounted (q : ConnectionQueue) (out : List ℕ) (j : Journal) : Prop :=
  ∀ i, (q.queue.map (·.id)).count i + out.count i + (j.closed.map (·.id)).count i =
    if i < j.opened then 1 else 0

end ConnectionQueue

/-- `tokio::sync::Notify`: `notify_waiters` wakes every future created before
it, so a future is due once the calls exceed those it saw. -/
structure Notify where
  calls : ℕ
  deriving DecidableEq, Repr

def Notify.notifyWaiters (n : Notify) : Notify := { calls := n.calls + 1 }

structure VkConnectionPool where
  queue : ConnectionQueue
  signal : Notify
  server : VkLdapServer
  deriving DecidableEq, Repr

/-- A pool with what has happened to it: the connections opened and closed,
those handed out and not given back, whether the last reset succeeded, and
whether it has been shut down since. -/
structure Pool extends VkConnectionPool where
  journal : Journal
  out : List VkLdapPoolConnection
  resetOk : Bool
  shut : Bool
  deriving DecidableEq, Repr

namespace Pool

/-- The reset both `new` and `refresh_connections` begin with. -/
def reset (p : Pool) (settings : VkConnectionSettings) (connect : ℕ → Result Unit) :
    Pool × Result Unit :=
  let (queue, journal, res) := p.queue.resetConnections p.server settings connect p.journal
  ({ p with queue, journal, resetOk := res.toBool, shut := false }, res)

/-- `VkConnectionPool::new`, as pool number `n`. -/
protected def new (n : ℕ) (server : VkLdapServer) (settings : VkConnectionSettings)
    (connect : ℕ → Result Unit) : Pool × Result Unit :=
  reset
    { queue := .new, signal := { calls := 0 }, server,
      journal := { pool := n, opened := 0, closed := [] }, out := [], resetOk := false,
      shut := false }
    settings connect

/-- `refresh_connections`: a failed reset leaves without notifying. -/
def refreshConnections (p : Pool) (settings : VkConnectionSettings)
    (connect : ℕ → Result Unit) : Pool × Result Unit :=
  match p.reset settings connect with
  | (p, .ok ()) => ({ p with signal := p.signal.notifyWaiters }, .ok ())
  | (p, .error err) => (p, .error err)

/-- One turn of the loop of `take_connection`. -/
def takeConnection (p : Pool) : Option (VkLdapPoolConnection × Pool) :=
  if p.queue.isEmpty then none
  else p.queue.take.map fun ((conn, epoch), queue) =>
    let poolConn := { conn, server := p.server, fromEpoch := epoch }
    (poolConn, { p with queue, out := poolConn :: p.out })

/-- `return_connection`. -/
def returnConnection (p : Pool) (poolConn : VkLdapPoolConnection) : Pool :=
  let p := { p with out := p.out.erase poolConn }
  if p.queue.epoch = poolConn.fromEpoch then
    { p with queue := p.queue.put poolConn.conn, signal := p.signal.notifyWaiters }
  else { p with journal := p.journal.close [poolConn.conn] }

/-- One turn of the loop of `shutdown`. -/
def shutdown (p : Pool) : Option Pool :=
  if p.queue.hasAllConnections then
    let (queue, journal) := p.queue.closeConnections p.journal
    some { p with queue, journal, shut := true }
  else none

/-! ### What a pool holds -/

def idle (p : Pool) : ℕ := p.queue.queue.length

/-- The connections handed out in the current epoch and not given back. -/
def outNow (p : Pool) : ℕ := p.out.countP (·.fromEpoch = p.queue.epoch)

/-- The last reset succeeded, and nothing has shut the pool down since. -/
def Live (p : Pool) : Prop := p.resetOk = true ∧ p.shut = false

instance (p : Pool) : Decidable p.Live := by unfold Live; infer_instance

def outIds (p : Pool) : List ℕ := p.out.map (·.conn.id)

/-- The invariant: every connection ever opened is in one place, the queue
holds the current epoch's, a connection handed out remembers its epoch, and
a live pool has `size` connections between queue and tasks, a dead one none. -/
structure Inv (p : Pool) : Prop where
  ids : p.queue.Accounted p.outIds p.journal
  queued : ∀ c ∈ p.queue.queue, c.epoch = p.queue.epoch
  outs : ∀ c ∈ p.out, c.conn.epoch = c.fromEpoch ∧ c.fromEpoch ≤ p.queue.epoch
  count : p.idle + p.outNow = if p.Live then p.queue.size else 0

end Pool
end ValkeyLdap
