/-
# The concurrent system

The tasks that share the context and the pools: LDAP operations with failover
(`src/vkldap/context.rs`), the checks of a failure-detector iteration
(`src/vkldap/failure_detector.rs`), the sync tasks the main thread submits for
`CONFIG SET` (`src/vkldap/mod.rs`, `src/configs.rs`), and the tasks spawned to
give back a connection and to shut down removed pools.

A step of a task runs from one await to the next. A critical section of the
context lock has no await inside and is one step; so is one of a pool lock,
whose awaits only open and close connections while nobody else can enter.
Where a task waits in `notify_wait!`, it holds the number of calls of the
signal it saw, and goes on once there have been more.
-/
import ValkeyLdap.Context
import ValkeyLdap.Lib.Runs
import ValkeyLdap.Pool

namespace ValkeyLdap
namespace System

/-- What is shared: the context, and every pool ever created by number. -/
structure Mem where
  ctx : VkLdapContext
  pools : List Pool
  deriving DecidableEq, Repr

/-- How an LDAP operation on a connection ends. -/
inductive Outcome
  | returned (res : Result Unit)
  | panicked
  deriving DecidableEq, Repr

/-- What the network answers to the step that asks: the attempts to connect,
the ping with the time it took, the LDAP operation. The attempts that
`add_server` makes may panic, too, as those with a URL that has no host do. -/
structure Net where
  connect : ℕ → Result Unit := fun _ => .ok ()
  connectPanics : ℕ → Bool := fun _ => false
  ping : Result Duration := .ok 0
  ldapOp : Outcome := .returned (.ok ())

/-- One of the `n` attempts to connect from attempt `k` on, which the first
failure ends, panics. -/
def Net.panics (net : Net) : ℕ → ℕ → Bool
  | 0, _ => false
  | n + 1, k => net.connectPanics k || (net.connect k).toBool && net.panics n (k + 1)

namespace Mem

def setPool (m : Mem) (pool : ℕ) (p : Pool) : Mem := { m with pools := m.pools.set pool p }

def updateServerStatus (m : Mem) (server : VkLdapServer) (status : VkLdapServerStatus)
    (pingTime : Option Duration) : Mem :=
  { m with ctx := m.ctx.updateServerStatus server status pingTime }

/-- The future that saw `seen` calls of the signal resolves. -/
def due (p : Pool) : Option ℕ → Bool
  | none => true
  | some seen => seen < p.signal.calls

/-- `take_connection` up to its next await: a connection, or the number of
calls of the signal seen on registering. -/
def takeConnection (m : Mem) (pool : ℕ) (seen : Option ℕ) :
    Option (Mem × (VkLdapPoolConnection ⊕ ℕ)) :=
  match m.pools[pool]? with
  | none => none
  | some p =>
    if due p seen then
      match p.takeConnection with
      | some (conn, p') => some (m.setPool pool p', .inl conn)
      | none => some (m, .inr p.signal.calls)
    else none

end Mem

/-! ### The tasks -/

/-- `run_ldap_op_with_failover`: at the head of the loop; in `take_connection`;
in the LDAP operation; about to mark the server unhealthy after a connection
error; over. -/
inductive Op
  | find
  | take (server : VkLdapServer) (pool : ℕ) (seen : Option ℕ)
  | ldap (server : VkLdapServer) (pool : ℕ) (conn : VkLdapPoolConnection)
  | fail (server : VkLdapServer) (err : VkLdapError)
  | done (res : Result Unit)
  | panicked
  deriving DecidableEq, Repr

/-- `refresh_pool_connections`: about to look the pool up; with the pool and
the settings; about to report the reset that made epoch `asOf`. -/
inductive Refresh
  | lookup
  | reset (pool : ℕ) (settings : VkConnectionSettings)
  | report (res : Result Unit) (asOf : ℕ)
  deriving DecidableEq, Repr

/-- `check_server_health`: of a healthy server, `start` looks its pool up, and
`giveBack` looks it up again; of an unhealthy one, `start` reads the settings
to connect with. `asOf` is the epoch of the connection that was pinged. -/
inductive Check
  | start
  | take (pool : ℕ) (seen : Option ℕ)
  | ping (conn : VkLdapPoolConnection)
  | giveBack (conn : VkLdapPoolConnection) (res : Result Duration)
  | put (pool : ℕ) (conn : VkLdapPoolConnection) (res : Result Duration)
  | report (res : Result Duration) (asOf : ℕ)
  | connect (settings : VkConnectionSettings)
  | pingNew
  | reportConnect (err : VkLdapError)
  | refresh (r : Refresh)
  | done
  deriving DecidableEq, Repr

inductive Task
  | op (pc : Op)
  | check (server : VkLdapServer) (pc : Check)
  | ret (pool : ℕ) (conn : VkLdapPoolConnection)
  | shutdown (pools : List ℕ) (seen : Option ℕ)
  | ended
  deriving DecidableEq, Repr

/-- What a task does next: it goes on as another, with new ones spawned, or it
panics. -/
inductive Next (α : Type)
  | go (pc : α) (spawned : List Task)
  | panic
  deriving DecidableEq, Repr

/-- The status a result is reported as. -/
def statusOf {α : Type} : Result α → VkLdapServerStatus
  | .ok _ => .healthy
  | .error err => .unhealthy err.toString

def Op.step (m : Mem) (net : Net) : Op → Option (Mem × Next Op)
  | .find =>
    match m.ctx.findServer with
    | .error err => some (m, .go (.done (.error err)) [])
    | .ok server =>
      match m.ctx.getConnectionPool server with
      | some pool => some (m, .go (.take server pool none) [])
      | none => some (m, .panic)
  | .take server pool seen =>
    match m.takeConnection pool seen with
    | some (m', .inl conn) => some (m', .go (.ldap server pool conn) [])
    | some (m', .inr calls) => some (m', .go (.take server pool (some calls)) [])
    | none => none
  | .ldap server pool conn =>
    match net.ldapOp with
    | .returned (.error (.ldapConnectionError err)) =>
      some (m, .go (.fail server (.ldapConnectionError err)) [.ret pool conn])
    | .returned res => some (m, .go (.done res) [.ret pool conn])
    | .panicked => some (m, .panic)
  | .fail server err =>
    some (m.updateServerStatus server (.unhealthy err.toString) none, .go .find [])
  | .done _ => none
  | .panicked => none

def Refresh.step (m : Mem) (net : Net) (server : VkLdapServer) :
    Refresh → Option (Mem × Next (Option Refresh))
  | .lookup =>
    match m.ctx.getConnectionPool server with
    | some pool => some (m, .go (some (.reset pool m.ctx.connectionSettings)) [])
    | none => some (m, .panic)
  | .reset pool settings =>
    match m.pools[pool]? with
    | none => none
    | some p =>
      let (p', res) := p.refreshConnections settings net.connect
      some (m.setPool pool p', .go (some (.report res p'.queue.epoch)) [])
  | .report res _ => some (m.updateServerStatus server (statusOf res) none, .go none [])

def Check.step (m : Mem) (net : Net) (server : VkLdapServer) :
    Check → Option (Mem × Next Check)
  | .start =>
    if server.isHealthy then
      match m.ctx.getConnectionPool server with
      | some pool => some (m, .go (.take pool none) [])
      | none => some (m, .panic)
    else some (m, .go (.connect m.ctx.connectionSettings) [])
  | .take pool seen =>
    match m.takeConnection pool seen with
    | some (m', .inl conn) => some (m', .go (.ping conn) [])
    | some (m', .inr calls) => some (m', .go (.take pool (some calls)) [])
    | none => none
  | .ping conn => some (m, .go (.giveBack conn net.ping) [])
  | .giveBack conn res =>
    match m.ctx.getConnectionPool conn.server with
    | some pool => some (m, .go (.put pool conn res) [])
    | none => some (m, .panic)
  | .put pool conn res =>
    match m.pools[pool]? with
    | some p => some (m.setPool pool (p.returnConnection conn), .go (.report res conn.fromEpoch) [])
    | none => none
  | .report res _ => some (m.updateServerStatus server (statusOf res) res.toOption, .go .done [])
  | .connect _ =>
    match net.connect 0 with
    | .ok () => some (m, .go .pingNew [])
    | .error err => some (m, .go (.reportConnect err) [])
  | .pingNew =>
    match net.ping with
    | .ok _ => some (m, .go (.refresh .lookup) [])
    | .error _ => some (m, .go .done [])
  | .reportConnect err =>
    some (m.updateServerStatus server (.unhealthy err.toString) none, .go .done [])
  | .refresh r =>
    match r.step m net server with
    | some (m', .go (some r') spawned) => some (m', .go (.refresh r') spawned)
    | some (m', .go none spawned) => some (m', .go .done spawned)
    | some (m', .panic) => some (m', .panic)
    | none => none
  | .done => none

/-- A panic of an operation ends its task alone; one of a check unwinds the
iteration it is joined in. -/
def Task.step (m : Mem) (net : Net) : Task → Option (Mem × Next Task)
  | .op pc =>
    match pc.step m net with
    | some (m', .go pc' spawned) => some (m', .go (.op pc') spawned)
    | some (m', .panic) => some (m', .go (.op .panicked) [])
    | none => none
  | .check server pc =>
    match pc.step m net server with
    | some (m', .go pc' spawned) => some (m', .go (.check server pc') spawned)
    | some (m', .panic) => some (m', .panic)
    | none => none
  | .ret pool conn =>
    match m.pools[pool]? with
    | some p => some (m.setPool pool (p.returnConnection conn), .go .ended [])
    | none => none
  | .shutdown [] _ => some (m, .go .ended [])
  | .shutdown (pool :: pools) seen =>
    match m.pools[pool]? with
    | some p =>
      if Mem.due p seen then
        match p.shutdown with
        | some p' => some (m.setPool pool p', .go (.shutdown pools none) [])
        | none => some (m, .go (.shutdown (pool :: pools) (some p.signal.calls)) [])
      else none
    | none => none
  | .ended => none

/-! ### The main thread and the detector thread -/

/-- The sync task of the main thread: `process_server_list` about to clear the
list, about to add the next server, opening the connections of its pool, about
to list it; `refresh_connection_settings` about to store the settings, about
to read the servers, refreshing a server's pool; `hung` waits for the result
of a task that panicked. -/
inductive Main
  | idle
  | clearing (urls : List Url)
  | adding (urls : List Url)
  | opening (server : VkLdapServer) (settings : VkConnectionSettings) (urls : List Url)
  | listing (server : VkLdapServer) (pool : Pool) (urls : List Url)
  | storing (settings : VkConnectionSettings)
  | reading
  | refreshing (server : VkLdapServer) (r : Refresh) (rest : List VkLdapServer)
  | hung
  deriving DecidableEq, Repr

/-- The pools of the servers still to refresh. -/
def Main.refreshNext : List VkLdapServer → Main
  | [] => .idle
  | server :: rest => .refreshing server .lookup rest

/-- The pool `add_server` creates, and the server as it lists it. -/
def openServer (n : ℕ) (server : VkLdapServer) (settings : VkConnectionSettings)
    (connect : ℕ → Result Unit) : VkLdapServer × Pool :=
  match Pool.new n server settings connect with
  | (pool, .ok ()) => (server, pool)
  | (pool, .error err) => (server.setStatus (.unhealthy err.toString), pool)

def Mem.listServer (m : Mem) (server : VkLdapServer) (pool : Pool) : Mem :=
  { ctx := m.ctx.addServer server m.pools.length, pools := m.pools ++ [pool] }

def Main.step (m : Mem) (net : Net) : Main → Option (Mem × Main × List Task)
  | .idle => none
  | .clearing urls =>
    let (ctx, pools) := m.ctx.clearServerList
    some ({ m with ctx }, .adding urls, [.shutdown pools none])
  | .adding [] => some (m, .idle, [])
  | .adding (url :: urls) =>
    some (m, .opening (m.ctx.newServer url) m.ctx.connectionSettings urls, [])
  | .opening server settings urls =>
    if net.panics settings.connectionPoolSize 0 then some (m, .hung, [])
    else
      let (server, pool) := openServer m.pools.length server settings net.connect
      some (m, .listing server pool urls, [])
  | .listing server pool urls => some (m.listServer server pool, .adding urls, [])
  | .storing settings =>
    some ({ m with ctx := m.ctx.refreshConnectionSettings settings }, .reading, [])
  | .reading => some (m, .refreshNext m.ctx.servers, [])
  | .refreshing server r rest =>
    match r.step m net server with
    | some (m', .go (some r') spawned) => some (m', .refreshing server r' rest, spawned)
    | some (m', .go none spawned) => some (m', .refreshNext rest, spawned)
    | some (m', .panic) => some (m', .hung, [])
    | none => none
  | .hung => none

/-- The failure-detector thread: asleep, waiting for the iteration it has
submitted, or waiting for the result of one that panicked. -/
inductive Detector
  | sleeping
  | waiting
  | hung
  deriving DecidableEq, Repr

structure State where
  mem : Mem
  tasks : List Task
  main : Main
  detector : Detector
  deriving DecidableEq, Repr

def Task.isCheck : Task → Bool
  | .check _ _ => true
  | _ => false

/-- The checks are over: `join_all` returns. -/
def joined (tasks : List Task) : Bool :=
  tasks.all fun
    | .check _ pc => pc == .done
    | _ => true

inductive Act
  /-- An `AUTH` submits an LDAP operation. -/
  | submit
  /-- Task `i` goes on to its next await. -/
  | task (i : ℕ) (net : Net)
  /-- `CONFIG SET ldap.servers`, the list parsed. -/
  | setServers (urls : List Url)
  /-- `CONFIG SET` of an option that the connections depend on. -/
  | setConnectionSettings (settings : VkConnectionSettings)
  /-- The main thread's task goes on to its next await. -/
  | main (net : Net)
  /-- The detector submits an iteration, which reads the servers. -/
  | iterate
  /-- The iteration is over and wakes the detector thread. -/
  | deliver

def State.step (s : State) : Act → Option State
  | .submit => some { s with tasks := s.tasks ++ [.op .find] }
  | .task i net =>
    match s.tasks[i]? with
    | none => none
    | some t =>
      match t.step s.mem net with
      | some (mem, .go t' spawned) => some { s with mem, tasks := s.tasks.set i t' ++ spawned }
      | some (mem, .panic) =>
        some { s with mem, tasks := s.tasks.filter (!·.isCheck), detector := .hung }
      | none => none
  | .setServers urls => if s.main = .idle then some { s with main := .clearing urls } else none
  | .setConnectionSettings settings =>
    if s.main = .idle then some { s with main := .storing settings } else none
  | .main net =>
    match s.main.step s.mem net with
    | some (mem, main, spawned) => some { s with mem, main, tasks := s.tasks ++ spawned }
    | none => none
  | .iterate =>
    if s.detector = .sleeping then
      some { s with tasks := s.tasks ++ s.mem.ctx.servers.map (.check · .start)
                    detector := .waiting }
    else none
  | .deliver =>
    if s.detector = .waiting ∧ joined s.tasks then
      some { s with tasks := s.tasks.filter (!·.isCheck), detector := .sleeping }
    else none

/-- The module just loaded, with these settings stored and no server yet. -/
def State.init (ldapSettings : VkLdapSettings) (connectionSettings : VkConnectionSettings) :
    State :=
  { mem := { ctx := { VkLdapContext.new with ldapSettings, connectionSettings }, pools := [] }
    tasks := []
    main := .idle
    detector := .sleeping }

/-- `add_server` with nobody in between. -/
def Mem.addServer (m : Mem) (url : Url) (connect : ℕ → Result Unit) : Mem :=
  let (server, pool) :=
    openServer m.pools.length (m.ctx.newServer url) m.ctx.connectionSettings connect
  m.listServer server pool

/-- The module with a server list set and nothing running: each URL with the
outcomes of its first attempts to connect. -/
def State.booted (ldapSettings : VkLdapSettings) (connectionSettings : VkConnectionSettings)
    (servers : List (Url × (ℕ → Result Unit))) : State :=
  let s := State.init ldapSettings connectionSettings
  { s with mem := servers.foldl (fun m x => m.addServer x.1 x.2) s.mem }

end System
end ValkeyLdap
