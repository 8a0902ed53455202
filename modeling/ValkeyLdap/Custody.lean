/-
# The pools' books at work

The tasks use the pools as `Pool.Inv` asks: whatever a task holds, its pool
has handed out, and is given back at most once. So in every run in which each
check returns its connection to the pool it comes from, every pool keeps its
invariant.

Key theorems: `Task.Move.hands`, `custody_step`.
-/
import Mathlib.Data.List.Count
import ValkeyLdap.Ownership

namespace ValkeyLdap
namespace Pool

variable {p : Pool}

theorem refreshConnections_out (p : Pool) (settings : VkConnectionSettings)
    (connect : ℕ → Result Unit) : (p.refreshConnections settings connect).1.out = p.out := by
  rw [refreshConnections_fst]
  rfl

theorem takeConnection_out {c : VkLdapPoolConnection} {q : Pool}
    (h : p.takeConnection = some (c, q)) : q.out = c :: p.out := by
  rw [(takeConnection_eq h).2.2.2]

theorem returnConnection_out (p : Pool) (c : VkLdapPoolConnection) :
    (p.returnConnection c).out = p.out.erase c := by
  unfold returnConnection
  simp only
  split <;> rfl

theorem shutdown_out {q : Pool} (h : p.shutdown = some q) : q.out = p.out := by
  unfold shutdown at h
  split at h
  · obtain rfl := Option.some.inj h
    rfl
  · cases h

end Pool

namespace System

/-! ### In whose hands a connection is -/

/-- The connection that a task holds. -/
def Task.conn? : Task → Option VkLdapPoolConnection
  | .op (.ldap _ _ conn) => some conn
  | .check _ (.ping conn) => some conn
  | .check _ (.giveBack conn _) => some conn
  | .check _ (.put _ conn _) => some conn
  | .ret _ conn => some conn
  | _ => none

/-- In how many hands `c` is. -/
def hands (c : VkLdapPoolConnection) (tasks : List Task) : ℕ :=
  tasks.countP fun t => t.conn? = some c

/-- How often its pool has handed `c` out. -/
def Mem.handedOut (m : Mem) (c : VkLdapPoolConnection) : ℕ :=
  (m.pools[c.conn.pool]?.map fun p => p.out.count c).getD 0

theorem Mem.handedOut_eq {m : Mem} {k : ℕ} {p : Pool} {c : VkLdapPoolConnection}
    (hp : m.pools[k]? = some p) (hc : c.conn.pool = k) : m.handedOut c = p.out.count c := by
  simp [Mem.handedOut, hc, hp]

@[simp] theorem Mem.handedOut_updateServerStatus (m : Mem) (server : VkLdapServer)
    (status : VkLdapServerStatus) (pingTime : Option Duration) (c : VkLdapPoolConnection) :
    (m.updateServerStatus server status pingTime).handedOut c = m.handedOut c := rfl

theorem hands_eq_zero {c : VkLdapPoolConnection} {tasks : List Task}
    (h : ∀ t ∈ tasks, t.conn? ≠ some c) : hands c tasks = 0 :=
  List.countP_eq_zero.mpr fun t ht => by simpa using h t ht

theorem hands_append (c : VkLdapPoolConnection) (l l' : List Task) :
    hands c (l ++ l') = hands c l + hands c l' := List.countP_append

theorem hands_filter_le (c : VkLdapPoolConnection) (f : Task → Bool) (l : List Task) :
    hands c (l.filter f) ≤ hands c l := List.filter_sublist.countP_le

/-- A task becomes another. -/
theorem hands_set {tasks : List Task} {i : ℕ} {t : Task} (ht : tasks[i]? = some t) (t' : Task)
    (c : VkLdapPoolConnection) :
    hands c (tasks.set i t') + hands c [t] = hands c tasks + hands c [t'] := by
  obtain ⟨hi, rfl⟩ := List.getElem?_eq_some_iff.mp ht
  have hpos : tasks[i].conn? = some c → 0 < hands c tasks := fun h =>
    List.countP_pos_iff.mpr ⟨tasks[i], List.getElem_mem hi, by simp [h]⟩
  simp only [hands, List.countP_set hi, List.countP_singleton, decide_eq_true_eq] at hpos ⊢
  split <;> split <;> simp_all

/-- What a pool's step does to the counts of all connections. -/
theorem handedOut_setPool {m : Mem} {k : ℕ} {p p' : Pool} (hp : m.pools[k]? = some p)
    (c : VkLdapPoolConnection) : (m.setPool k p').handedOut c =
      if c.conn.pool = k then p'.out.count c else m.handedOut c := by
  have hk := (List.getElem?_eq_some_iff.mp hp).1
  unfold Mem.handedOut Mem.setPool
  by_cases h : c.conn.pool = k
  · simp [h, hk]
  · simp [h, List.getElem?_set_ne (Ne.symm h)]

theorem handedOut_setPool_same {m : Mem} {k : ℕ} {p p' : Pool} (hp : m.pools[k]? = some p)
    (ho : p'.out = p.out) (c : VkLdapPoolConnection) :
    (m.setPool k p').handedOut c = m.handedOut c := by
  rw [handedOut_setPool hp]
  split
  · rename_i hk
    rw [ho, Mem.handedOut_eq hp hk]
  · rfl

theorem handedOut_take {m : Mem} {k : ℕ} {p p' : Pool} {d : VkLdapPoolConnection}
    (hp : m.pools[k]? = some p) (ht : p.takeConnection = some (d, p')) (hd : d.conn.pool = k)
    (c : VkLdapPoolConnection) :
    (m.setPool k p').handedOut c = m.handedOut c + if d = c then 1 else 0 := by
  rw [handedOut_setPool hp, Pool.takeConnection_out ht, List.count_cons]
  by_cases hc : c.conn.pool = k
  · simp [hc, Mem.handedOut_eq hp hc]
  · simp [hc, show d ≠ c from fun h => hc (h ▸ hd)]

theorem handedOut_return {m : Mem} {k : ℕ} {p : Pool} (hp : m.pools[k]? = some p)
    (d c : VkLdapPoolConnection) :
    m.handedOut c ≤ (m.setPool k (p.returnConnection d)).handedOut c +
      if d = c then 1 else 0 := by
  rw [handedOut_setPool hp, Pool.returnConnection_out]
  split
  · rename_i hc
    rw [Mem.handedOut_eq hp hc, List.count_erase]
    by_cases h : d = c
    · simp only [h, if_true, BEq.rfl]
      omega
    · simp [h]
  · exact Nat.le_add_right _ _

theorem hands_singleton (c : VkLdapPoolConnection) (t : Task) :
    hands c [t] = if t.conn? = some c then 1 else 0 := by
  simp [hands, List.countP_singleton]

/-- What a move adds to the hands its pool has handed out. -/
theorem Task.Move.hands {m m' : Mem} {t t' : Task} {spawned : List Task}
    (h : t.Move m m' (.go t' spawned)) (ha : Aligned m) (hm : m.Own) (c : VkLdapPoolConnection) :
    hands c [t'] + hands c spawned + m.handedOut c ≤ hands c [t] + m'.handedOut c := by
  have htake {k : ℕ} {p p' : Pool} {d : VkLdapPoolConnection} (hp : m.pools[k]? = some p)
      (ht : p.takeConnection = some (d, p')) :
      (m.setPool k p').handedOut c = m.handedOut c + if d = c then 1 else 0 :=
    handedOut_take hp ht
      (opened_of_take ha hp (Pool.own_takeConnection (hm _ _ hp) ht).2).1 c
  have hnil : System.hands c [] = 0 := rfl
  cases h with
  | take hp _ ht => simp only [htake hp ht, hands_singleton, hnil, Task.conn?]; simp; omega
  | checkTake hp _ ht => simp only [htake hp ht, hands_singleton, hnil, Task.conn?]; simp; omega
  | @put _ _ conn _ _ hp =>
    have := handedOut_return hp conn c
    simp only [hands_singleton, hnil, Task.conn?]
    simp
    omega
  | @ret _ conn _ hp =>
    have := handedOut_return hp conn c
    simp only [hands_singleton, hnil, Task.conn?]
    simp
    omega
  | refreshReset hp =>
    rw [handedOut_setPool_same hp (Pool.refreshConnections_out _ _ _)]
    simp [hands_singleton, hnil, Task.conn?]
  | shutdown hp _ hs =>
    rw [handedOut_setPool_same hp (Pool.shutdown_out hs)]
    simp [hands_singleton, hnil, Task.conn?]
  | _ => simp [hands_singleton, hnil, Task.conn?]

theorem Main.Move.hands {m m' : Mem} {main main' : Main} {spawned : List Task}
    (h : main.Move m m' main' spawned) (c : VkLdapPoolConnection) :
    hands c spawned = 0 ∧ m.handedOut c ≤ m'.handedOut c := by
  have hnil : System.hands c [] = 0 := rfl
  cases h with
  | clear => exact ⟨hands_eq_zero fun t ht => by
      obtain rfl := List.mem_singleton.mp ht; simp [Task.conn?], Nat.le_refl _⟩
  | @list server pool urls =>
    refine ⟨hnil, ?_⟩
    simp only [Mem.handedOut, Mem.listServer]
    cases hp : m.pools[c.conn.pool]? with
    | none => exact Nat.zero_le _
    | some p =>
      exact Nat.le_of_eq (by
        rw [List.getElem?_append_left (List.getElem?_eq_some_iff.mp hp).1, hp])
  | refreshReset hp =>
    rw [handedOut_setPool_same hp (Pool.refreshConnections_out _ _ _)]
    exact ⟨hnil, Nat.le_refl _⟩
  | _ => exact ⟨hnil, Nat.le_refl _⟩

/-! ### The pools keep their invariant -/

/-- Every pool keeps its books. -/
def Mem.Inv (m : Mem) : Prop := ∀ (k : ℕ) (p : Pool), m.pools[k]? = some p → p.Inv

theorem Mem.Inv.setPool {m : Mem} {k : ℕ} {p : Pool} (h : m.Inv) (hp : p.Inv) :
    (m.setPool k p).Inv := by
  intro i q hq
  rcases Mem.setPool_cases hq with ⟨-, rfl⟩ | ⟨-, hq⟩
  · exact hp
  · exact h i q hq

/-- The check returns its connection to the pool it comes from. -/
def Task.ReturnsOwn : Task → Prop
  | .check _ (.put pool conn _) => conn.conn.pool = pool
  | _ => True

theorem Task.ReturnsOwn.fits {t : Task} (h : t.ReturnsOwn) (m : Mem) : t.ReturnFits m := by
  cases t with
  | check server pc =>
    cases pc with
    | put => exact fun p _ => Or.inl h
    | _ => trivial
  | _ => trivial

theorem mem_out_of_handedOut {m : Mem} {k : ℕ} {p : Pool} {c : VkLdapPoolConnection}
    (hp : m.pools[k]? = some p) (hc : c.conn.pool = k) (h : 0 < m.handedOut c) : c ∈ p.out := by
  rw [Mem.handedOut_eq hp hc] at h
  exact List.count_pos_iff.mp h

theorem Task.Move.inv {m m' : Mem} {t : Task} {n : Next Task} (h : t.Move m m' n)
    (hm : m.Inv) (ht : t.Own m) (hr : t.ReturnsOwn)
    (hout : ∀ c, t.conn? = some c → 0 < m.handedOut c) : m'.Inv := by
  cases h with
  | take hp _ hc => exact hm.setPool (Pool.inv_takeConnection (hm _ _ hp) hc)
  | checkTake hp _ hc => exact hm.setPool (Pool.inv_takeConnection (hm _ _ hp) hc)
  | put hp => exact hm.setPool (Pool.inv_returnConnection (hm _ _ hp)
      (mem_out_of_handedOut hp hr (hout _ rfl)))
  | ret hp => exact hm.setPool (Pool.inv_returnConnection (hm _ _ hp)
      (mem_out_of_handedOut hp ht.1 (hout _ rfl)))
  | refreshReset hp => exact hm.setPool (Pool.inv_refreshConnections _ _ (hm _ _ hp))
  | shutdown hp _ hs => exact hm.setPool (Pool.inv_shutdown (hm _ _ hp) hs)
  | _ => exact hm

/-- The pool about to be listed keeps its books. -/
def Main.Inv : Main → Prop
  | .listing _ pool _ => pool.Inv
  | _ => True

theorem openServer_inv (n : ℕ) (server : VkLdapServer) (settings : VkConnectionSettings)
    (connect : ℕ → Result Unit) : (openServer n server settings connect).2.Inv := by
  rw [openServer_snd]
  exact Pool.inv_new settings connect n server

theorem Mem.Inv.listServer {m : Mem} {server : VkLdapServer} {pool : Pool} (h : m.Inv)
    (hp : pool.Inv) : (m.listServer server pool).Inv := by
  intro k p hk
  rcases Mem.listServer_cases hk with hk | ⟨-, rfl⟩
  · exact h k p hk
  · exact hp

theorem Main.Move.inv {m m' : Mem} {main main' : Main} {spawned : List Task}
    (h : main.Move m m' main' spawned) (hm : m.Inv) (hmain : main.Inv) :
    m'.Inv ∧ main'.Inv := by
  have hnext (rest : List VkLdapServer) : (Main.refreshNext rest).Inv := by
    cases rest <;> trivial
  cases h with
  | opened => exact ⟨hm, openServer_inv _ _ _ _⟩
  | list => exact ⟨hm.listServer hmain, trivial⟩
  | read => exact ⟨hm, hnext _⟩
  | refreshReset hp => exact ⟨hm.setPool (Pool.inv_refreshConnections _ _ (hm _ _ hp)), trivial⟩
  | refreshReport => exact ⟨hm, hnext _⟩
  | _ => exact ⟨hm, trivial⟩

/-! ### Runs -/

/-- Connections are where they belong, a connection is in as many hands as its
pool has handed it out, at most, and every pool keeps its books. -/
structure State.Custody (s : State) : Prop where
  own : s.Own
  hands : ∀ c, hands c s.tasks ≤ s.mem.handedOut c
  inv : s.mem.Inv
  main : s.main.Inv

/-- The step's return, if it makes one, is to the connection's own pool. -/
def ReturnsOwn (s : State) (a : Act) : Prop :=
  ∀ i net t, a = .task i net → s.tasks[i]? = some t → t.ReturnsOwn

theorem hands_step {s s' : State} {a : Act} (hc : s.Custody) (h : s.step a = some s')
    (c : VkLdapPoolConnection) : hands c s'.tasks ≤ s'.mem.handedOut c := by
  have hle := hc.hands c
  rcases State.step_cases h with ⟨i, net, rfl⟩ | ⟨net, rfl⟩ | hother
  · obtain ⟨t, m', ht, ⟨t', spawned, hs, rfl⟩ | ⟨hs, rfl⟩⟩ := State.step_task h
    · have hmove := hs.hands hc.own.aligned.1 hc.own.pools c
      have hset := hands_set ht t' c
      simp only [hands_append]
      omega
    · have hm : m'.handedOut c = s.mem.handedOut c := by cases hs <;> rfl
      exact hm ▸ Nat.le_trans (hands_filter_le c _ _) hle
  · obtain ⟨m', main, spawned, hs, rfl⟩ := State.step_main h
    obtain ⟨h0, hm⟩ := hs.hands c
    simp only [hands_append]
    omega
  · cases hother with
    | submit => simpa [hands_append, hands_singleton, Task.conn?] using hle
    | iterate =>
      have hnew : hands c (s.mem.ctx.servers.map (.check · .start)) = 0 :=
        hands_eq_zero fun t ht => by
          obtain ⟨e, -, rfl⟩ := List.mem_map.mp ht
          simp [Task.conn?]
      rw [hands_append, hnew]
      exact hle
    | deliver => exact Nat.le_trans (hands_filter_le c _ _) hle
    | _ => exact hle

theorem hands_pos {tasks : List Task} {t : Task} {c : VkLdapPoolConnection} (ht : t ∈ tasks)
    (hc : t.conn? = some c) : 0 < hands c tasks :=
  List.countP_pos_iff.mpr ⟨t, ht, by simpa using hc⟩

/-- The connection of a task has been handed out. -/
theorem State.Custody.handedOut {s : State} (hs : s.Custody) {t : Task} (ht : t ∈ s.tasks)
    (c : VkLdapPoolConnection) (hc : t.conn? = some c) : 0 < s.mem.handedOut c :=
  Nat.lt_of_lt_of_le (hands_pos ht hc) (hs.hands c)

theorem custody_step {s s' : State} {a : Act} (hc : s.Custody) (hr : ReturnsOwn s a)
    (h : s.step a = some s') : s'.Custody := by
  have hown : s'.Own := own_step hc.own (fun i net t ha ht => (hr i net t ha ht).fits _) h
  have hhands : ∀ c, hands c s'.tasks ≤ s'.mem.handedOut c := hands_step hc h
  rcases State.step_cases h with ⟨i, net, rfl⟩ | ⟨net, rfl⟩ | hother
  · obtain ⟨t, m', ht, hs⟩ := State.step_task h
    have hmem := List.mem_of_getElem? ht
    have hinv {n : Next Task} (hmove : t.Move s.mem m' n) : m'.Inv :=
      hmove.inv hc.inv (hc.own.tasks t hmem) (hr i net t rfl ht)
        (hc.handedOut hmem)
    rcases hs with ⟨t', spawned, hs, rfl⟩ | ⟨hs, rfl⟩
    · exact ⟨hown, hhands, hinv hs, hc.main⟩
    · exact ⟨hown, hhands, hinv hs, hc.main⟩
  · obtain ⟨m', main, spawned, hs, rfl⟩ := State.step_main h
    obtain ⟨h1, h2⟩ := hs.inv hc.inv hc.main
    exact ⟨hown, hhands, h1, h2⟩
  · cases hother with
    | setServers => exact ⟨hown, hhands, hc.inv, trivial⟩
    | setConnectionSettings => exact ⟨hown, hhands, hc.inv, trivial⟩
    | _ => exact ⟨hown, hhands, hc.inv, hc.main⟩

end System
end ValkeyLdap
