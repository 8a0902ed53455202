/-
# An operation visits the healthy servers in order

`run_ldap_op_with_failover` has no counter: what brings its loop to an end is
that a connection error marks the entry that `find_server` chose, so that the
next pass chooses the next healthy one. Here the operation runs alone with the
tasks that give its connections back; the rest of the system may do anything
to the pools between its steps, and nothing to the table.

`failover_visits_in_order` says which servers it tries, what it returns, what
table it leaves, and that every connection it took goes back to the pool it
came from, once.

Key theorems: `findServer_after`, `at_step`, `holds_ret`, `holds_own`,
`failover_visits_in_order`.
-/
import ValkeyLdap.Aligned
import ValkeyLdap.Lib.Runs

namespace ValkeyLdap
namespace System
namespace Visits

open Runs

/-! ### The operation and its return tasks -/

inductive Act
  /-- Task `i` goes on: the operation is task 0, the others give back. -/
  | run (i : ℕ) (net : Net)
  /-- Somebody else takes a step that leaves this memory. -/
  | other (mem : Mem)

def step (s : State) : Act → Option State
  | .run i net => s.step (.task i net)
  | .other mem => some { s with mem }

/-- The operation is submitted. -/
def start (m : Mem) : State :=
  { mem := m, tasks := [.op .find], main := .idle, detector := .sleeping }

/-! ### What it is to do -/

section
variable (outcome : ℕ → Result Unit) (servers : List VkLdapServer)

def healthy : List VkLdapServer := servers.filter (·.isHealthy)

/-- The operation on this server does not end in a connection error. -/
def settles (server : VkLdapServer) : Bool :=
  match outcome server.id with
  | .error (.ldapConnectionError _) => false
  | _ => true

/-- The position among the healthy servers of the first that settles it; past
the end if none does. -/
def stopsAt : ℕ := (healthy servers).findIdx (settles outcome)

/-- What the operation returns. -/
def verdict : Result Unit :=
  match (healthy servers)[stopsAt outcome servers]? with
  | some server => outcome server.id
  | none => .error (if servers = [] then .noServerConfigured else .noHealthyServerAvailable)

/-- The entry as the update after a connection error leaves it. -/
def failed (server : VkLdapServer) : VkLdapServer :=
  match outcome server.id with
  | .ok _ => server
  | .error err => VkLdapContext.written server (.unhealthy err.toString) none

/-- The table after connection errors on the first `k` healthy servers. -/
def tableAfter (k : ℕ) : List VkLdapServer :=
  servers.map fun s => if s ∈ (healthy servers).take k then failed outcome s else s

end

/-! ### What `find_server` finds -/

section
variable {outcome : ℕ → Result Unit} {servers : List VkLdapServer}

/-- Ids are positions. -/
def Numbered (servers : List VkLdapServer) : Prop :=
  ∀ (i : ℕ) (server : VkLdapServer), servers[i]? = some server → server.id = i

theorem Numbered.nodup (h : Numbered servers) : servers.Nodup := by
  rw [List.nodup_iff_injective_get]
  intro i j hij
  have hi := h i (servers.get i) (List.getElem?_eq_getElem i.2)
  have hj := h j (servers.get j) (List.getElem?_eq_getElem j.2)
  rw [← hij, hi] at hj
  exact Fin.ext hj

theorem not_settles {server : VkLdapServer} (h : settles outcome server = false) :
    ∃ err, outcome server.id = .error (.ldapConnectionError err) := by
  unfold settles at h
  split at h
  · exact ⟨_, ‹_›⟩
  · cases h

theorem settles_ne {server : VkLdapServer} (h : settles outcome server = true) (err : LdapError) :
    outcome server.id ≠ .error (.ldapConnectionError err) := by
  intro he
  unfold settles at h
  rw [he] at h
  cases h

theorem settles_of_getElem? {k : ℕ} {server : VkLdapServer} (hk : k ≤ stopsAt outcome servers)
    (hs : (healthy servers)[k]? = some server) :
    settles outcome server = true ↔ k = stopsAt outcome servers := by
  obtain ⟨hlt, rfl⟩ := List.getElem?_eq_some_iff.mp hs
  constructor
  · intro h
    by_contra hne
    have hlt : k < (healthy servers).findIdx (settles outcome) := lt_of_le_of_ne hk hne
    have hfalse := List.not_of_lt_findIdx hlt
    rw [h] at hfalse
    cases hfalse
  · rintro rfl
    exact List.findIdx_getElem (w := hlt)

theorem filter_not_mem_take {α : Type} [DecidableEq α] {l : List α} (h : l.Nodup) (k : ℕ) :
    l.filter (fun a => decide (a ∉ l.take k)) = l.drop k := by
  have hdisj : ∀ a ∈ l.drop k, a ∉ l.take k := by
    intro a hd ht
    have h := List.take_append_drop k l ▸ h
    exact (List.nodup_append.mp h).2.2 a ht a hd rfl
  conv_lhs => rw [← List.take_append_drop k l]
  rw [List.filter_append, List.filter_eq_nil_iff.mpr, List.filter_eq_self.mpr]
  · rfl
  · intro a ha
    rw [List.take_append_drop]
    simpa using hdisj a ha
  · intro a ha
    rw [List.take_append_drop]
    simpa using ha

theorem Numbered.nodup_healthy (h : Numbered servers) : (healthy servers).Nodup :=
  h.nodup.filter _

theorem Numbered.mem (h : Numbered servers) {server : VkLdapServer} (hs : server ∈ servers) :
    servers[server.id]? = some server := by
  obtain ⟨i, hi⟩ := List.mem_iff_getElem?.mp hs
  rw [h i server hi]
  exact hi

theorem failed_unhealthy {k : ℕ} (hk : k ≤ stopsAt outcome servers) {server : VkLdapServer}
    (hs : server ∈ (healthy servers).take k) : (failed outcome server).isHealthy = false := by
  obtain ⟨i, hi⟩ := List.mem_iff_getElem?.mp hs
  have hik : i < k := by
    have := (List.getElem?_eq_some_iff.mp hi).1
    rw [List.length_take] at this
    omega
  rw [List.getElem?_take_of_lt hik] at hi
  have hns : settles outcome server ≠ true := fun h => by
    have := (settles_of_getElem? (by omega) hi).mp h
    omega
  obtain ⟨err, he⟩ := not_settles (eq_false_of_ne_true hns)
  rw [failed, he]
  rfl

/-- After `k` connection errors the healthy servers are those not yet tried. -/
theorem healthy_tableAfter (hn : Numbered servers) {k : ℕ} (hk : k ≤ stopsAt outcome servers) :
    healthy (tableAfter outcome servers k) = (healthy servers).drop k := by
  have hsplit : ∀ s ∈ servers, VkLdapServer.isHealthy
      (if s ∈ (healthy servers).take k then failed outcome s else s) =
        (decide (s ∉ (healthy servers).take k) && s.isHealthy) := by
    intro s _
    by_cases h : s ∈ (healthy servers).take k
    · rw [if_pos h, failed_unhealthy hk h]
      simp [h]
    · rw [if_neg h]
      simp [h]
  unfold tableAfter
  rw [← filter_not_mem_take hn.nodup_healthy k, healthy, List.filter_map]
  have hfilter : servers.filter ((·.isHealthy) ∘ fun s =>
      if s ∈ (healthy servers).take k then failed outcome s else s) =
        (healthy servers).filter fun s => decide (s ∉ (healthy servers).take k) := by
    refine (List.filter_congr hsplit).trans ?_
    rw [healthy, List.filter_filter]
  rw [hfilter]
  conv_rhs => rw [← List.map_id (List.filter _ _)]
  refine List.map_congr_left fun s hs => ?_
  rw [if_neg (by simpa using (List.mem_filter.mp hs).2)]
  rfl

/-- The next healthy server is chosen, or none is left. -/
theorem findServer_after (hn : Numbered servers) {k : ℕ} (hk : k ≤ stopsAt outcome servers)
    {ctx : VkLdapContext} (hctx : ctx.servers = tableAfter outcome servers k) :
    ctx.findServer = match (healthy servers)[k]? with
      | some server => .ok server
      | none =>
        .error (if servers = [] then .noServerConfigured else .noHealthyServerAvailable) := by
  have hfind : ctx.servers.find? (·.isHealthy) = (healthy servers)[k]? := by
    rw [← List.head?_filter, hctx]
    show (healthy (tableAfter outcome servers k)).head? = _
    rw [healthy_tableAfter hn hk, List.head?_drop]
  have hempty : ctx.servers.isEmpty = true ↔ servers = [] := by
    rw [hctx, tableAfter]
    simp
  unfold VkLdapContext.findServer
  rw [hfind]
  by_cases he : servers = []
  · rw [if_pos (hempty.mpr he)]
    subst he
    rfl
  · have hne : ctx.servers.isEmpty = false := eq_false_of_ne_true fun h => he (hempty.mp h)
    cases (healthy servers)[k]? with
    | none => simp [hne, he]
    | some server => simp [hne]

/-- The update after a connection error hits the entry that was chosen. -/
theorem tableAfter_succ (hn : Numbered servers) {k : ℕ} {server : VkLdapServer} {err : VkLdapError}
    (hs : (healthy servers)[k]? = some server) (herr : outcome server.id = .error err) :
    (tableAfter outcome servers k).modify server.id
        (VkLdapContext.written · (.unhealthy err.toString) none) =
      tableAfter outcome servers (k + 1) := by
  have hmem : server ∈ servers := (List.mem_filter.mp (List.mem_of_getElem? hs)).1
  have hnew : server ∉ (healthy servers).take k := by
    have hdrop : server ∈ (healthy servers).drop k := by
      rw [List.mem_iff_getElem?]
      exact ⟨0, by rw [List.getElem?_drop]; exact hs⟩
    rw [← filter_not_mem_take hn.nodup_healthy k] at hdrop
    simpa using (List.mem_filter.mp hdrop).2
  refine List.ext_getElem? fun i => ?_
  unfold tableAfter
  simp only [List.getElem?_modify, List.getElem?_map]
  cases he : servers[i]? with
  | none => rfl
  | some e =>
    have hid := hn i e he
    simp only [Option.map_eq_map, Option.map_some, List.take_add_one, hs, Option.toList_some,
      List.mem_append, List.mem_singleton]
    by_cases hi : server.id = i
    · have : e = server := by
        have := hn.mem hmem
        rw [hi, he] at this
        exact Option.some.inj this
      subst this
      rw [if_pos hi, if_neg hnew, if_pos (.inr rfl), failed, herr]
    · have : e ≠ server := fun h => hi (h ▸ hid)
      rw [if_neg hi]
      simp [this]

end

/-! ### What happens in a run -/

/-- The server whose connection the operation is about to run on. -/
def runsOn : Op → Option VkLdapServer
  | .ldap server _ _ => some server
  | _ => none

/-- The pool and the connection that the operation is about to take. -/
def takes (m : Mem) : Op → Option (ℕ × VkLdapPoolConnection)
  | .take _ pool seen =>
    match m.takeConnection pool seen with
    | some (_, .inl conn) => some (pool, conn)
    | _ => none
  | _ => none

/-- The pool and the connection that the task is to give back. -/
def holds : Task → Option (ℕ × VkLdapPoolConnection)
  | .op (.ldap _ pool conn) => some (pool, conn)
  | .ret pool conn => some (pool, conn)
  | _ => none

/-- The server whose connection the operation runs on in this step. -/
def attempt (s : State) (a : Act) : Option VkLdapServer :=
  match a, s.tasks with
  | .run 0 _, .op pc :: _ => runsOn pc
  | _, _ => none

/-- The pool and the connection that the operation takes in this step. -/
def taken (s : State) (a : Act) : Option (ℕ × VkLdapPoolConnection) :=
  match a, s.tasks with
  | .run 0 _, .op pc :: _ => takes s.mem pc
  | _, _ => none

/-- The pool and the connection that a return task gives back in this step. -/
def givenBack (s : State) : Act → Option (ℕ × VkLdapPoolConnection)
  | .run (i + 1) _ => s.tasks[i + 1]?.bind holds
  | _ => none

/-- The step is the operation's own. -/
def own (_ : State) : Act → Option Unit
  | .run 0 _ => some ()
  | _ => none

/-- Nobody else changes the table, the pool chosen can give a connection, and
the operation ends on a server as `outcome` says. -/
def Undisturbed (outcome : ℕ → Result Unit) (s : State) : Act → Prop
  | .other mem =>
    mem.ctx.servers = s.mem.ctx.servers ∧ mem.ctx.connPools = s.mem.ctx.connPools
  | .run 0 net =>
    (∀ server pool seen, s.tasks.head? = some (.op (.take server pool seen)) →
      ∃ mem conn, s.mem.takeConnection pool seen = some (mem, .inl conn)) ∧
    ∀ server pool conn, s.tasks.head? = some (.op (.ldap server pool conn)) →
      net.ldapOp = .returned (outcome server.id)
  | .run _ _ => True

/-! ### Where the operation is -/

section
variable (outcome : ℕ → Result Unit) (servers : List VkLdapServer)

/-- Where the operation is after so many steps of its own, with the servers it
has tried and the table. -/
inductive At : Op → List VkLdapServer → List VkLdapServer → ℕ → Prop
  | find {k : ℕ} : k ≤ stopsAt outcome servers →
      At .find ((healthy servers).take k) (tableAfter outcome servers k) (4 * k)
  | take {k : ℕ} {server : VkLdapServer} {pool : ℕ} {seen : Option ℕ} :
      k ≤ stopsAt outcome servers → (healthy servers)[k]? = some server →
      At (.take server pool seen) ((healthy servers).take k) (tableAfter outcome servers k)
        (4 * k + 1)
  | ldap {k : ℕ} {server : VkLdapServer} {pool : ℕ} {conn : VkLdapPoolConnection} :
      k ≤ stopsAt outcome servers → (healthy servers)[k]? = some server →
      At (.ldap server pool conn) ((healthy servers).take k) (tableAfter outcome servers k)
        (4 * k + 2)
  | fail {k : ℕ} {server : VkLdapServer} {err : VkLdapError} :
      k < stopsAt outcome servers → (healthy servers)[k]? = some server →
      outcome server.id = .error err →
      At (.fail server err) ((healthy servers).take (k + 1)) (tableAfter outcome servers k)
        (4 * k + 3)
  | done {k n : ℕ} : k = stopsAt outcome servers → n ≤ 4 * (healthy servers).length + 1 →
      At (.done (verdict outcome servers)) ((healthy servers).take (k + 1))
        (tableAfter outcome servers k) n

end

variable {outcome : ℕ → Result Unit} {servers : List VkLdapServer}

/-- The operation returns what does not break the connection. -/
theorem step_settled (m : Mem) {net : Net} {server : VkLdapServer} (pool : ℕ)
    (conn : VkLdapPoolConnection) {res : Result Unit} (hout : net.ldapOp = .returned res)
    (hne : ∀ err, res ≠ .error (.ldapConnectionError err)) :
    Op.step m net (.ldap server pool conn) = some (m, .go (.done res) [.ret pool conn]) := by
  simp only [Op.step, hout]

/-- The operation is where it is next, and what it took and has not given back
is in its hands or in a return task. -/
def Goes (outcome : ℕ → Result Unit) (servers : List VkLdapServer) (m : Mem) (pc : Op)
    (visited : List VkLdapServer) (n : ℕ) (m' : Mem) (next : Next Op) : Prop :=
  ∃ pc' sp, next = .go pc' sp ∧
    At outcome servers pc' (visited ++ (runsOn pc).toList) m'.ctx.servers (n + 1) ∧
    m'.ctx.connPools = m.ctx.connPools ∧ (∀ t ∈ sp, ∃ pool conn, t = .ret pool conn) ∧
    ((holds (.op pc')).toList ++ sp.filterMap holds).Perm
      ((holds (.op pc)).toList ++ (takes m pc).toList)

section
variable {m m' : Mem} {net : Net} {next : Next Op} {k : ℕ} {server : VkLdapServer}

/-- From the head of the loop to the next healthy server, or to the end if
every one has been tried. -/
theorem goes_find (hn : Numbered servers) (hlen : m.ctx.connPools.length = servers.length)
    (htable : m.ctx.servers = tableAfter outcome servers k) (hk : k ≤ stopsAt outcome servers)
    (hs : Op.step m net .find = some (m', next)) :
    Goes outcome servers m .find ((healthy servers).take k) (4 * k) m' next := by
  have hfind := findServer_after hn hk htable
  have hle : stopsAt outcome servers ≤ (healthy servers).length := List.findIdx_le_length
  cases hserver : (healthy servers)[k]? with
  | none =>
    -- every healthy server has been tried
    have hk' : (healthy servers).length ≤ k := List.getElem?_eq_none_iff.mp hserver
    have hstop : k = stopsAt outcome servers := by omega
    have hverdict : verdict outcome servers =
        .error (if servers = [] then .noServerConfigured else .noHealthyServerAvailable) := by
      rw [verdict, ← hstop, hserver]
    rw [hserver] at hfind
    simp only [Op.step, hfind, Option.some.injEq, Prod.mk.injEq] at hs
    obtain ⟨rfl, rfl⟩ := hs
    refine ⟨_, _, rfl, ?_, rfl, by simp, .refl _⟩
    rw [htable, ← hverdict]
    have hvisited : (healthy servers).take k ++ (runsOn .find).toList =
        (healthy servers).take (k + 1) := by
      rw [List.take_of_length_le hk', List.take_of_length_le (by omega)]
      exact List.append_nil _
    rw [hvisited]
    exact .done hstop (by omega)
  | some server =>
    rw [hserver] at hfind
    have hmem : server ∈ servers := (List.mem_filter.mp (List.mem_of_getElem? hserver)).1
    have hid : server.id < m.ctx.connPools.length := by
      rw [hlen]
      exact (List.getElem?_eq_some_iff.mp (hn.mem hmem)).1
    have hpool : m.ctx.getConnectionPool server = some m.ctx.connPools[server.id] :=
      List.getElem?_eq_getElem hid
    simp only [Op.step, hfind, hpool, Option.some.injEq, Prod.mk.injEq] at hs
    obtain ⟨rfl, rfl⟩ := hs
    refine ⟨_, _, rfl, ?_, rfl, by simp, .refl _⟩
    show At outcome servers _ (_ ++ []) _ _
    rw [htable, List.append_nil]
    exact .take hk hserver

theorem goes_take {pool : ℕ} {seen : Option ℕ} {mem : Mem} {conn : VkLdapPoolConnection}
    (htable : m.ctx.servers = tableAfter outcome servers k) (hk : k ≤ stopsAt outcome servers)
    (hserver : (healthy servers)[k]? = some server)
    (ht : m.takeConnection pool seen = some (mem, .inl conn))
    (hs : Op.step m net (.take server pool seen) = some (m', next)) :
    Goes outcome servers m (.take server pool seen) ((healthy servers).take k) (4 * k + 1) m'
      next := by
  obtain ⟨p, -, -, ⟨c, p', -, -, hmem⟩ | ⟨-, hr, -⟩⟩ := Mem.takeConnection_cases ht
  · simp only [Op.step, ht, Option.some.injEq, Prod.mk.injEq] at hs
    obtain ⟨rfl, rfl⟩ := hs
    refine ⟨_, _, rfl, ?_, by rw [hmem]; rfl, by simp, ?_⟩
    · rw [hmem]
      show At outcome servers _ (_ ++ []) m.ctx.servers _
      rw [htable, List.append_nil]
      exact .ldap hk hserver
    · simp [holds, takes, ht]
  · cases hr

/-- The LDAP operation: it settles the matter, or loses the connection. -/
theorem goes_ldap {pool : ℕ} {conn : VkLdapPoolConnection}
    (htable : m.ctx.servers = tableAfter outcome servers k) (hk : k ≤ stopsAt outcome servers)
    (hserver : (healthy servers)[k]? = some server)
    (hout : net.ldapOp = .returned (outcome server.id))
    (hs : Op.step m net (.ldap server pool conn) = some (m', next)) :
    Goes outcome servers m (.ldap server pool conn) ((healthy servers).take k) (4 * k + 2) m'
      next := by
  have hvisited : (healthy servers).take k ++ (runsOn (.ldap server pool conn)).toList =
      (healthy servers).take (k + 1) := by
    rw [List.take_add_one, hserver]
    rfl
  have hlt : k < (healthy servers).length := (List.getElem?_eq_some_iff.mp hserver).1
  by_cases hsettles : settles outcome server = true
  · have hstop := (settles_of_getElem? hk hserver).mp hsettles
    have hverdict : verdict outcome servers = outcome server.id := by
      rw [verdict, ← hstop, hserver]
    have hne := settles_ne hsettles
    rw [← hverdict] at hout hne
    rw [step_settled m pool conn hout hne] at hs
    simp only [Option.some.injEq, Prod.mk.injEq] at hs
    obtain ⟨rfl, rfl⟩ := hs
    refine ⟨_, _, rfl, ?_, rfl, by simp, ?_⟩
    · rw [htable, hvisited]
      exact .done hstop (by omega)
    · simp [holds, takes]
  · obtain ⟨err, herr⟩ := not_settles (eq_false_of_ne_true hsettles)
    have hlt : k < stopsAt outcome servers := lt_of_le_of_ne hk fun he =>
      hsettles ((settles_of_getElem? hk hserver).mpr he)
    rw [herr] at hout
    simp only [Op.step, hout, Option.some.injEq, Prod.mk.injEq] at hs
    obtain ⟨rfl, rfl⟩ := hs
    refine ⟨_, _, rfl, ?_, rfl, by simp, ?_⟩
    · rw [htable, hvisited]
      exact .fail hlt hserver herr
    · simp [holds, takes]

theorem goes_fail {err : VkLdapError} (hn : Numbered servers)
    (htable : m.ctx.servers = tableAfter outcome servers k) (hk : k < stopsAt outcome servers)
    (hserver : (healthy servers)[k]? = some server) (herr : outcome server.id = .error err)
    (hs : Op.step m net (.fail server err) = some (m', next)) :
    Goes outcome servers m (.fail server err) ((healthy servers).take (k + 1)) (4 * k + 3) m'
      next := by
  simp only [Op.step, Option.some.injEq, Prod.mk.injEq] at hs
  obtain ⟨rfl, rfl⟩ := hs
  have hservers : (m.updateServerStatus server (.unhealthy err.toString) none).ctx.servers =
      tableAfter outcome servers (k + 1) := by
    unfold Mem.updateServerStatus
    rw [VkLdapContext.updateServerStatus_eq]
    show m.ctx.servers.modify _ _ = _
    rw [htable]
    exact tableAfter_succ hn hserver herr
  refine ⟨_, _, rfl, ?_, ?_, by simp, .refl _⟩
  · show At outcome servers _ (_ ++ []) _ _
    rw [hservers, List.append_nil]
    exact .find hk
  · unfold Mem.updateServerStatus
    rw [VkLdapContext.updateServerStatus_eq]

end

/-- One step of the operation. -/
theorem at_step {m m' : Mem} {pc : Op} {net : Net} {next : Next Op} {visited : List VkLdapServer}
    {n : ℕ} (hn : Numbered servers) (hlen : m.ctx.connPools.length = servers.length)
    (h : At outcome servers pc visited m.ctx.servers n)
    (htake : ∀ server pool seen, pc = .take server pool seen →
      ∃ mem conn, m.takeConnection pool seen = some (mem, .inl conn))
    (hldap : ∀ server pool conn, pc = .ldap server pool conn →
      net.ldapOp = .returned (outcome server.id))
    (hs : pc.step m net = some (m', next)) : Goes outcome servers m pc visited n m' next := by
  generalize htable : m.ctx.servers = table at h
  cases h with
  | find hk => exact goes_find hn hlen htable hk hs
  | take hk hserver =>
    obtain ⟨mem, conn, ht⟩ := htake _ _ _ rfl
    exact goes_take htable hk hserver ht hs
  | ldap hk hserver => exact goes_ldap htable hk hserver (hldap _ _ _ rfl) hs
  | fail hk hserver herr => exact goes_fail hn htable hk hserver herr hs
  | done => cases hs

/-! ### Runs -/

/-- What holds in a run so far. -/
structure Inv (outcome : ℕ → Result Unit) (m : Mem) (tr : List (State × Act)) (t : State) :
    Prop where
  connPools : t.mem.ctx.connPools = m.ctx.connPools
  tasks : ∃ pc rest, t.tasks = .op pc :: rest ∧
    (∀ x ∈ rest, x = .ended ∨ ∃ pool conn, x = .ret pool conn) ∧
    At outcome m.ctx.servers pc (events attempt tr) t.mem.ctx.servers (events own tr).length
  balance : (events taken tr).Perm (events givenBack tr ++ t.tasks.filterMap holds)

theorem step_own {s s' : State} {pc : Op} {rest : List Task} {net : Net}
    (ht : s.tasks = .op pc :: rest) (h : step s (.run 0 net) = some s') :
    ∃ m' next, pc.step s.mem net = some (m', next) ∧ ∀ pc' sp, next = .go pc' sp →
      s' = { s with mem := m', tasks := .op pc' :: (rest ++ sp) } := by
  have h : s.step (.task 0 net) = some s' := h
  obtain ⟨t, m', hi, hs⟩ := State.step_task_step h
  rw [ht] at hi
  obtain rfl : Task.op pc = t := Option.some.inj hi
  rcases hs with ⟨t', sp, hs, rfl⟩ | ⟨hs, -⟩
  · simp only [Task.step] at hs
    split at hs
    · rename_i m'' pc' sp' hop
      cases hs
      refine ⟨_, _, hop, fun pc' sp he => ?_⟩
      cases he
      rw [ht]
      rfl
    · rename_i m'' hop
      cases hs
      exact ⟨_, _, hop, fun pc' sp he => by cases he⟩
    · cases hs
  · simp only [Task.step] at hs
    split at hs <;> cases hs

theorem step_ret {s s' : State} {t : Task} {rest : List Task} {i : ℕ} {net : Net}
    (ht : s.tasks = t :: rest) (hrest : ∀ x ∈ rest, x = .ended ∨ ∃ pool conn, x = .ret pool conn)
    (h : step s (.run (i + 1) net) = some s') :
    ∃ pool conn p, rest[i]? = some (.ret pool conn) ∧
      s' = { s with mem := s.mem.setPool pool p, tasks := t :: rest.set i .ended } := by
  have h : s.step (.task (i + 1) net) = some s' := h
  obtain ⟨u, m', hi, hs⟩ := State.step_task_step h
  rw [ht, List.getElem?_cons_succ] at hi
  rcases hrest u (List.mem_of_getElem? hi) with rfl | ⟨pool, conn, rfl⟩
  · rcases hs with ⟨_, _, hs, -⟩ | ⟨hs, -⟩ <;> cases hs
  · rcases hs with ⟨t', sp, hs, rfl⟩ | ⟨hs, -⟩
    · simp only [Task.step] at hs
      split at hs
      · rename_i p _
        cases hs
        refine ⟨pool, conn, p.returnConnection conn, hi, ?_⟩
        rw [ht]
        simp
      · cases hs
    · simp only [Task.step] at hs
      split at hs <;> cases hs

theorem filterMap_cons_eq {α β : Type} (f : α → Option β) (a : α) (l : List α) :
    (a :: l).filterMap f = (f a).toList ++ l.filterMap f := by
  cases h : f a <;> simp [h]

/-- A return task that ends holds its connection no more. -/
theorem holds_ret {t : State} {pc : Op} {rest : List Task} {i pool : ℕ}
    {conn : VkLdapPoolConnection} (ht : t.tasks = .op pc :: rest)
    (hi : rest[i]? = some (.ret pool conn)) : (t.tasks.filterMap holds).Perm
      ((pool, conn) :: (Task.op pc :: rest.set i .ended).filterMap holds) := by
  rw [ht]
  have hset := filterMap_set_perm holds Task.ended
    (show (Task.op pc :: rest)[i + 1]? = some (.ret pool conn) from hi)
  refine (List.append_nil _ ▸ hset.symm).trans ?_
  exact List.perm_append_comm

/-- What the operation takes, it holds, or a task it has spawned. -/
theorem holds_own {t : State} {pc pc' : Op} {rest sp : List Task} (ht : t.tasks = .op pc :: rest)
    (hperm : ((holds (.op pc')).toList ++ sp.filterMap holds).Perm
      ((holds (.op pc)).toList ++ (takes t.mem pc).toList)) :
    (t.tasks.filterMap holds ++ (takes t.mem pc).toList).Perm
      ((Task.op pc' :: (rest ++ sp)).filterMap holds) := by
  rw [ht, filterMap_cons_eq, filterMap_cons_eq, List.filterMap_append, List.append_assoc]
  calc (holds (.op pc)).toList ++ (rest.filterMap holds ++ (takes t.mem pc).toList)
    List.Perm _ (rest.filterMap holds ++ ((holds (.op pc)).toList ++ (takes t.mem pc).toList)) :=
      List.perm_append_comm_assoc _ _ _
    List.Perm _ (rest.filterMap holds ++ ((holds (.op pc')).toList ++ sp.filterMap holds)) :=
      hperm.symm.append_left _
    List.Perm _ ((holds (.op pc')).toList ++ (rest.filterMap holds ++ sp.filterMap holds)) :=
      List.perm_append_comm_assoc _ _ _

theorem inv_step {outcome : ℕ → Result Unit} {m : Mem} (hm : m.ctx.Aligned)
    {tr : List (State × Act)} {t u : State} {a : Act} (h : Inv outcome m tr t)
    (hok : Undisturbed outcome t a) (hs : step t a = some u) :
    Inv outcome m (tr ++ [(t, a)]) u := by
  obtain ⟨hpools, ⟨pc, rest, ht, hrest, hat⟩, hbal⟩ := h
  match a with
  | .other mem =>
    obtain rfl := Option.some.inj hs
    obtain ⟨hservers, hpools'⟩ := hok
    refine ⟨hpools'.trans hpools, ⟨pc, rest, ht, hrest, ?_⟩, ?_⟩
    · simp only [events_snoc]
      show At outcome m.ctx.servers pc (_ ++ []) mem.ctx.servers (_ ++ []).length
      rw [hservers, List.append_nil, List.append_nil]
      exact hat
    · simp only [events_snoc]
      show List.Perm (_ ++ []) ((_ ++ []) ++ _)
      rw [List.append_nil, List.append_nil]
      exact hbal
  | .run (i + 1) net =>
    obtain ⟨pool, conn, p, hi, rfl⟩ := step_ret ht hrest hs
    refine ⟨hpools, ⟨pc, rest.set i .ended, rfl, fun x hx => ?_, ?_⟩, ?_⟩
    · rcases List.mem_or_eq_of_mem_set hx with hx | rfl
      · exact hrest x hx
      · exact .inl rfl
    · simp only [events_snoc]
      show At outcome m.ctx.servers pc (_ ++ []) t.mem.ctx.servers (_ ++ []).length
      rw [List.append_nil, List.append_nil]
      exact hat
    · have hback : givenBack t (.run (i + 1) net) = some (pool, conn) := by
        simp [givenBack, ht, hi, holds]
      simp only [events_snoc, hback]
      show List.Perm (_ ++ []) ((_ ++ [(pool, conn)]) ++ _)
      rw [List.append_nil, List.append_assoc]
      exact hbal.trans ((holds_ret ht hi).append_left _)
  | .run 0 net =>
    obtain ⟨m', next, hop, hgo⟩ := step_own ht hs
    have hn : Numbered m.ctx.servers := hm.id
    have hlen : t.mem.ctx.connPools.length = m.ctx.servers.length := by
      rw [hpools]
      exact hm.length
    obtain ⟨htake, hldap⟩ := hok
    rw [ht] at htake hldap
    obtain ⟨pc', sp, rfl, hat', hpools', hsp, hperm⟩ := at_step hn hlen hat
      (fun server pool seen he => htake server pool seen (by rw [he]; rfl))
      (fun server pool conn he => hldap server pool conn (by rw [he]; rfl)) hop
    obtain rfl := hgo pc' sp rfl
    have hattempt : attempt t (.run 0 net) = runsOn pc := by simp [attempt, ht]
    have htaken : taken t (.run 0 net) = takes t.mem pc := by simp [taken, ht]
    refine ⟨hpools'.trans hpools, ⟨pc', rest ++ sp, rfl, fun x hx => ?_, ?_⟩, ?_⟩
    · rcases List.mem_append.mp hx with hx | hx
      · exact hrest x hx
      · exact .inr (hsp x hx)
    · simp only [events_snoc, hattempt]
      show At outcome m.ctx.servers pc' _ m'.ctx.servers (_ ++ [()]).length
      rw [List.length_append]
      exact hat'
    · simp only [events_snoc, htaken]
      show List.Perm _ ((_ ++ []) ++ _)
      rw [List.append_nil]
      have hleft := hbal.append_right (takes t.mem pc).toList
      rw [List.append_assoc] at hleft
      exact hleft.trans ((holds_own ht hperm).append_left _)

theorem inv_run {outcome : ℕ → Result Unit} {m : Mem} (hm : m.ctx.Aligned)
    {tr : List (State × Act)} {t : State} (h : Run step (start m) tr t)
    (hok : Steps (Undisturbed outcome) tr) : Inv outcome m tr t := by
  have hstart : Inv outcome m [] (start m) := by
    refine ⟨rfl, ⟨.find, [], rfl, by simp, ?_⟩, .refl _⟩
    have hat : At outcome m.ctx.servers .find _ _ _ := .find (Nat.zero_le _)
    simpa [tableAfter, events, start] using hat
  exact h.history hok hstart fun _ _ _ _ hi hok ha => inv_step hm hi hok ha

/-- The pool that the operation waits for, if any, can give a connection. -/
def CanGive (t : State) : Prop :=
  ∀ server pool seen, t.tasks.head? = some (.op (.take server pool seen)) →
    ∃ mem conn, t.mem.takeConnection pool seen = some (mem, .inl conn)

theorem op_enabled (m : Mem) (net : Net) {pc : Op}
    (htake : ∀ server pool seen, pc = .take server pool seen →
      ∃ mem conn, m.takeConnection pool seen = some (mem, .inl conn))
    (hdone : ∀ res, pc ≠ .done res) (hpanicked : pc ≠ .panicked) :
    ∃ m' next, pc.step m net = some (m', next) := by
  cases pc with
  | find =>
    simp only [Op.step]
    split
    · exact ⟨_, _, rfl⟩
    · split <;> exact ⟨_, _, rfl⟩
  | take server pool seen =>
    obtain ⟨mem, conn, htake⟩ := htake server pool seen rfl
    simp only [Op.step, htake]
    exact ⟨_, _, rfl⟩
  | ldap server pool conn =>
    simp only [Op.step]
    split <;> exact ⟨_, _, rfl⟩
  | fail server err => exact ⟨_, _, rfl⟩
  | done res => exact absurd rfl (hdone res)
  | panicked => exact absurd rfl hpanicked

/-- The answer that `outcome` gives to the operation in its next step. -/
def answer (outcome : ℕ → Result Unit) (pc : Op) : Net :=
  match runsOn pc with
  | some server => { ldapOp := .returned (outcome server.id) }
  | none => {}

/-- The operation has returned, or its next step is possible. -/
theorem goes_on {outcome : ℕ → Result Unit} {m : Mem} {tr : List (State × Act)} {t : State}
    (h : Inv outcome m tr t) (hgive : CanGive t) :
    (∃ res, t.tasks.head? = some (.op (.done res))) ∨
      ∃ net u, Undisturbed outcome t (.run 0 net) ∧ step t (.run 0 net) = some u := by
  obtain ⟨-, ⟨pc, rest, ht, -, hat⟩, -⟩ := h
  by_cases hdone : ∃ res, pc = .done res
  · obtain ⟨res, rfl⟩ := hdone
    exact .inl ⟨res, by rw [ht]; rfl⟩
  · right
    have hpanicked : pc ≠ .panicked := by
      rintro rfl
      cases hat
    obtain ⟨m', next, hop⟩ := op_enabled t.mem (answer outcome pc)
      (fun server pool seen he => hgive server pool seen (by rw [ht, he]; rfl))
      (fun res he => hdone ⟨res, he⟩) hpanicked
    have hstep : ∃ u, t.step (.task 0 (answer outcome pc)) = some u := by
      unfold State.step Task.step
      simp only [ht, List.getElem?_cons_zero, hop]
      cases next <;> exact ⟨_, rfl⟩
    obtain ⟨u, hu⟩ := hstep
    refine ⟨_, u, ⟨hgive, fun server pool conn he => ?_⟩, hu⟩
    rw [ht] at he
    rw [Task.op.inj (Option.some.inj he)]
    rfl

theorem verdict_ne (outcome : ℕ → Result Unit) (servers : List VkLdapServer) (err : LdapError) :
    verdict outcome servers ≠ .error (.ldapConnectionError err) := by
  unfold verdict
  split
  · rename_i server hserver
    exact settles_ne ((settles_of_getElem? (Nat.le_refl _) hserver).mpr rfl) err
  · split <;> rintro ⟨⟩

theorem At.bounds {pc : Op} {visited table : List VkLdapServer} {n : ℕ}
    (h : At outcome servers pc visited table n) :
    visited.length ≤ (healthy servers).length ∧ n ≤ 4 * (healthy servers).length + 1 := by
  have hle : stopsAt outcome servers ≤ (healthy servers).length := List.findIdx_le_length
  cases h with
  | find hk => exact ⟨List.length_take_le' _ _, by omega⟩
  | take hk hs =>
    have := (List.getElem?_eq_some_iff.mp hs).1
    exact ⟨List.length_take_le' _ _, by omega⟩
  | ldap hk hs =>
    have := (List.getElem?_eq_some_iff.mp hs).1
    exact ⟨List.length_take_le' _ _, by omega⟩
  | fail hk hs =>
    have := (List.getElem?_eq_some_iff.mp hs).1
    exact ⟨List.length_take_le' _ _, by omega⟩
  | done hk hn => exact ⟨List.length_take_le' _ _, hn⟩

/-- **Failover visits the healthy servers in order and ends.** While nobody
else changes the table and each pool chosen can give a connection, the
operation makes at most as many attempts as there are healthy servers, and
goes on until it returns. It has then tried the healthy servers in the order
of the list, up to the first whose operation ends in no connection error; it
returns what that one ended in, or that there is no server, or no healthy one;
the servers that failed are UNHEALTHY and every other entry is as it was; and
once its return tasks have run, the connections given back are those taken,
each to its own pool. -/
theorem failover_visits_in_order (outcome : ℕ → Result Unit) (m : Mem) (hm : m.ctx.Aligned)
    (tr : List (State × Act)) (t : State) (h : Run step (start m) tr t)
    (hok : Steps (Undisturbed outcome) tr) :
    (events attempt tr).length ≤ (healthy m.ctx.servers).length ∧
    (events own tr).length ≤ 4 * (healthy m.ctx.servers).length + 1 ∧
    (CanGive t → (∃ res, t.tasks.head? = some (.op (.done res))) ∨
      ∃ net u, Undisturbed outcome t (.run 0 net) ∧ step t (.run 0 net) = some u) ∧
    ∀ res, t.tasks.head? = some (.op (.done res)) →
      events attempt tr =
        (healthy m.ctx.servers).take (stopsAt outcome m.ctx.servers + 1) ∧
      res = verdict outcome m.ctx.servers ∧
      (∀ err, res ≠ .error (.ldapConnectionError err)) ∧
      t.mem.ctx.servers = tableAfter outcome m.ctx.servers (stopsAt outcome m.ctx.servers) ∧
      ((∀ pool conn, Task.ret pool conn ∉ t.tasks) →
        (events givenBack tr).Perm (events taken tr)) := by
  have hinv := inv_run hm h hok
  have hgoes := goes_on hinv
  obtain ⟨-, ⟨pc, rest, ht, hrest, hat⟩, hbal⟩ := hinv
  refine ⟨hat.bounds.1, hat.bounds.2, hgoes, fun res hres => ?_⟩
  rw [ht] at hres
  obtain rfl := Task.op.inj (Option.some.inj hres)
  have hpending : (∀ pool conn, Task.ret pool conn ∉ t.tasks) → t.tasks.filterMap holds = [] := by
    intro hnone
    rw [List.filterMap_eq_nil_iff]
    intro x hx
    rw [ht] at hx
    rcases List.mem_cons.mp hx with rfl | hx
    · rfl
    · rcases hrest x hx with rfl | ⟨pool, conn, rfl⟩
      · rfl
      · exact absurd (ht ▸ List.mem_cons_of_mem _ hx) (hnone pool conn)
  generalize htable : t.mem.ctx.servers = table at hat
  generalize hvisited : events attempt tr = visited at hat
  generalize hn : (events own tr).length = n at hat
  cases hat with
  | done hk _ =>
    subst hk
    refine ⟨rfl, rfl, verdict_ne outcome m.ctx.servers, rfl, fun hnone => ?_⟩
    rw [hpending hnone, List.append_nil] at hbal
    exact hbal.symm

/-! ### Two servers, the first of which is down -/

/-- The connection to the first server breaks; the second answers. -/
def firstIsDown : ℕ → Result Unit
  | 0 => .error (.ldapConnectionError ⟨.other, "down"⟩)
  | _ => .ok ()

def twoServers : Mem :=
  (State.booted {} { connectionPoolSize := 1 }
    [("ldap://a", fun _ => .ok ()), ("ldap://b", fun _ => .ok ())]).mem

theorem twoServers_aligned : twoServers.ctx.Aligned := by
  refine ⟨rfl, fun i server h => ?_⟩
  match i with
  | 0 | 1 =>
    obtain rfl := Option.some.inj h
    rfl
  | _ + 2 => cases h

/-- The operation fails over and both connections go back. -/
def failedOver : List Act :=
  [.run 0 {}, .run 0 {}, .run 0 { ldapOp := .returned (firstIsDown 0) }, .run 1 {}, .run 0 {},
    .run 0 {}, .run 0 {}, .run 0 {}, .run 2 {}]

/-- A step of the operation that neither takes a connection nor runs on one. -/
theorem undisturbed_quiet {s : State} {net : Net} {pc : Op} (ht : s.tasks.head? = some (.op pc))
    (htake : ∀ server pool seen, pc ≠ .take server pool seen)
    (hldap : ∀ server pool conn, pc ≠ .ldap server pool conn) :
    Undisturbed firstIsDown s (.run 0 net) := by
  constructor
  · intro server pool seen h
    rw [ht] at h
    exact absurd (Task.op.inj (Option.some.inj h)) (htake server pool seen)
  · intro server pool conn h
    rw [ht] at h
    exact absurd (Task.op.inj (Option.some.inj h)) (hldap server pool conn)

theorem undisturbed_take {s : State} {net : Net} {server : VkLdapServer} {pool : ℕ}
    {seen : Option ℕ} (ht : s.tasks.head? = some (.op (.take server pool seen)))
    (htake : ∃ mem conn, s.mem.takeConnection pool seen = some (mem, .inl conn)) :
    Undisturbed firstIsDown s (.run 0 net) := by
  constructor
  · intro server' pool' seen' h
    rw [ht] at h
    cases h
    exact htake
  · intro server' pool' conn h
    rw [ht] at h
    cases h

theorem undisturbed_ldap {s : State} {net : Net} {server : VkLdapServer} {pool : ℕ}
    {conn : VkLdapPoolConnection} (ht : s.tasks.head? = some (.op (.ldap server pool conn)))
    (hnet : net.ldapOp = .returned (firstIsDown server.id)) :
    Undisturbed firstIsDown s (.run 0 net) := by
  constructor
  · intro server' pool' seen' h
    rw [ht] at h
    cases h
  · intro server' pool' conn' h
    rw [ht] at h
    cases h
    exact hnet

theorem undisturbed_failedOver :
    Steps (Undisturbed firstIsDown) (trace step (start twoServers) failedOver) := by
  intro x hx
  replace hx : x ∈ [_, _, _, _, _, _, _, _, _] := hx
  simp only [List.mem_cons, List.not_mem_nil, or_false] at hx
  rcases hx with rfl | rfl | rfl | rfl | rfl | rfl | rfl | rfl | rfl
  · exact undisturbed_quiet rfl (by simp) (by simp)
  · exact undisturbed_take rfl ⟨_, _, rfl⟩
  · exact undisturbed_ldap rfl rfl
  · trivial
  · exact undisturbed_quiet rfl (by simp) (by simp)
  · exact undisturbed_quiet rfl (by simp) (by simp)
  · exact undisturbed_take rfl ⟨_, _, rfl⟩
  · exact undisturbed_ldap rfl rfl
  · trivial

/-- The operation ends on the second server, after one attempt on each. -/
theorem failover_visits_two : ∃ tr t, Run step (start twoServers) tr t ∧
    t.tasks.head? = some (.op (.done (.ok ()))) ∧
    (events attempt tr).map (·.url) = ["ldap://a", "ldap://b"] ∧
    (events givenBack tr).Perm (events taken tr) := by
  have hexec : ∃ t, exec step (start twoServers) failedOver = some t ∧
      t.tasks = [.op (.done (.ok ())), .ended, .ended] := ⟨_, rfl, rfl⟩
  obtain ⟨t, ht, htasks⟩ := hexec
  have hdone : t.tasks.head? = some (.op (.done (.ok ()))) := by rw [htasks]; rfl
  obtain ⟨-, -, -, hend⟩ := failover_visits_in_order firstIsDown twoServers twoServers_aligned _ t
    (exec_run ht) undisturbed_failedOver
  obtain ⟨htried, -, -, -, hback⟩ := hend _ hdone
  refine ⟨_, t, exec_run ht, hdone, ?_, hback ?_⟩
  · rw [htried]
    rfl
  · rw [htasks]
    simp

end Visits
end System
end ValkeyLdap
