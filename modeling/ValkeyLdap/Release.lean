/-
# Removed pools are released

`clear_server_list` spawns one task that shuts the removed pools down in their
order, each once its queue holds as many connections as its size says. A pool
whose last reset failed never will; a refresh that has read the pool from the
old table may fail while the task waits, or fill a pool again that has been
shut down. `removed_pools_released`: but for these, the task waits only for
connections that are checked out, and leaves everything closed.

Key theorems: `Pool.quiet_short`, `releasing_step`, `removed_pools_released`,
`dead_pool_blocks_release`.
-/
import ValkeyLdap.Waiting

namespace ValkeyLdap

namespace Pool

variable {p q : Pool}

/-- A step of a live pool short of connections that wakes nobody leaves it so,
unless it is a refresh that fails. -/
theorem quiet_short {a : Act} (h : p.step a = some q) (hcalls : q.signal.calls = p.signal.calls)
    (hlive : p.Live) (hshort : p.idle < p.queue.size) :
    (q.Live ∧ q.idle < q.queue.size) ∨ a.Refused p := by
  have hstamp (hs : q.stamp = p.stamp) (hidle : q.idle ≤ p.idle) :
      q.Live ∧ q.idle < q.queue.size := by
    rw [live_iff_stamp] at hlive ⊢
    have hsize : q.queue.size = p.queue.size := congrArg (·.1.2) hs
    exact ⟨hs ▸ hlive, by omega⟩
  cases a with
  | takeConnection =>
    obtain ⟨⟨c, q'⟩, ht, rfl⟩ := Option.map_eq_some_iff.mp h
    refine Or.inl (hstamp (takeConnection_stamp ht) ?_)
    show q'.idle ≤ p.idle
    rw [idle_takeConnection ht]
    exact Nat.le_succ _
  | returnConnection c =>
    simp only [step] at h
    split at h <;> cases h
    rw [signal_returnConnection] at hcalls
    refine Or.inl (hstamp (returnConnection_stamp p c) ?_)
    rw [idle_returnConnection]
    omega
  | refreshConnections settings connect =>
    cases h
    rw [signal_reset] at hcalls
    refine Or.inr ?_
    by_contra hok
    rw [if_pos (eq_true_of_ne_false hok)] at hcalls
    omega
  | shutdown =>
    have := (shutdown_idle h).1
    omega

/-- Only a refresh brings a pool to life. -/
theorem step_live {a : Act} (h : p.step a = some q)
    (ha : ∀ settings connect, a ≠ .refreshConnections settings connect) (hl : q.Live) : p.Live := by
  rw [live_iff_stamp] at hl ⊢
  cases a with
  | takeConnection =>
    obtain ⟨⟨c, q'⟩, ht, rfl⟩ := Option.map_eq_some_iff.mp h
    exact takeConnection_stamp ht ▸ hl
  | returnConnection c =>
    simp only [step] at h
    split at h <;> cases h
    exact returnConnection_stamp p c ▸ hl
  | refreshConnections settings connect => exact absurd rfl (ha settings connect)
  | shutdown => cases (shutdown_shut h).symm.trans (live_iff_stamp.mpr hl).2

theorem shutdown_none (h : p.shutdown = none) : p.idle ≠ p.queue.size := by
  intro he
  unfold shutdown at h
  rw [if_pos (by simpa [ConnectionQueue.hasAllConnections, idle] using he)] at h
  cases h

/-- All connections of a pool that is not live and has none out are closed. -/
theorem all_closed (h : p.Inv) (hdead : ¬ p.Live) (hout : p.out = []) :
    p.queue.queue = [] ∧ ∀ i < p.journal.opened, i ∈ p.journal.closed.map (·.id) := by
  have hcount := h.count
  rw [if_neg hdead] at hcount
  have hempty : p.queue.queue = [] :=
    List.length_eq_zero_iff.mp (Nat.eq_zero_of_add_eq_zero hcount).1
  refine ⟨hempty, fun i hi => ?_⟩
  have hids := h.ids i
  simp only [hempty, outIds, hout, List.map_nil, List.count_nil, if_pos hi] at hids
  exact List.count_pos_iff.mp (by omega)

end Pool

namespace System

open Runs

/-! ### Shutting down -/

/-- The pool that a task is about to shut down, and the calls of its signal
that it has seen. -/
def Task.shuts? : Task → Option (ℕ × Option ℕ)
  | .shutdown (pool :: _) seen => some (pool, seen)
  | _ => none

/-- The task has still to shut the pool down. -/
def Task.ShutsDown (k : ℕ) : Task → Prop
  | .shutdown pools _ => k ∈ pools
  | _ => False

theorem Task.shuts?_eq {t : Task} {x : ℕ × Option ℕ} (h : t.shuts? = some x) :
    ∃ pools, t = .shutdown (x.1 :: pools) x.2 := by
  unfold Task.shuts? at h
  split at h
  · obtain rfl := Option.some.inj h
    exact ⟨_, rfl⟩
  · cases h

/-- The attempt to shut a pool down finds it live. -/
def ShutsLive (s : State) : Act → Prop
  | .task i _ => ∀ x, s.tasks[i]?.bind Task.shuts? = some x →
      ∀ p, s.mem.pools[x.1]? = some p → p.Live
  | _ => True

/-- A refresh that will fail finds no shutdown waiting on the pool. -/
def RefusalShut (s : State) : Act → Prop
  | .task i net => ∀ x, s.tasks[i]?.bind Task.reset? = some x → x.2.Refused net.connect →
      ∀ u ∈ s.tasks, ∀ seen, u.shuts? = some (x.1, some seen) → ¬ s.mem.Unnotified x.1 seen
  | _ => True

/-- A check resets a pool of the table, or one still to be shut down, or fails. -/
def ReopensNone (s : State) : Act → Prop
  | .task i net => ∀ x, s.tasks[i]?.bind Task.reset? = some x →
      x.1 ∈ s.mem.ctx.connPools ∨ (∃ u ∈ s.tasks, u.ShutsDown x.1) ∨ x.2.Refused net.connect
  | _ => True

/-- The pool is live and has not all of its connections back. -/
def Mem.Short (m : Mem) (k : ℕ) : Prop :=
  ∃ p, m.pools[k]? = some p ∧ p.Live ∧ p.idle < p.queue.size

/-- A removed pool is still to be shut down, or holds nothing; a shutdown that
waits, waits for a live pool. -/
structure State.Releasing (s : State) : Prop where
  attended : s.Attended
  table : ∀ x, s.main.reset? = some x → x.1 ∈ s.mem.ctx.connPools
  apart : ∀ t ∈ s.tasks, ∀ k, t.ShutsDown k →
    k < s.mem.pools.length ∧ k ∉ s.mem.ctx.connPools
  removed : ∀ (k : ℕ) (p : Pool), s.mem.pools[k]? = some p →
    k ∈ s.mem.ctx.connPools ∨ (∃ t ∈ s.tasks, t.ShutsDown k) ∨ ¬ p.Live
  heard : ∀ t ∈ s.tasks, ∀ k seen, t.shuts? = some (k, some seen) → s.mem.Heard k seen
  waits : ∀ t ∈ s.tasks, ∀ k seen, t.shuts? = some (k, some seen) →
    s.mem.Unnotified k seen → s.mem.Short k

/-! ### What the moves do to a task that shuts down -/

theorem Task.Move.shuts {m m' : Mem} {t t' : Task} {spawned : List Task}
    (h : t.Move m m' (.go t' spawned)) :
    (∀ k, t'.ShutsDown k → t.ShutsDown k) ∧ (∀ u ∈ spawned, ∀ k, ¬ u.ShutsDown k) ∧
      (∀ k, t.ShutsDown k → t'.ShutsDown k ∨ ∃ p', m'.pools[k]? = some p' ∧ ¬ p'.Live) ∧
      ∀ k seen, t'.shuts? = some (k, some seen) → m' = m ∧ ∃ p seen₀,
        t.shuts? = some (k, seen₀) ∧ m.pools[k]? = some p ∧ p.shutdown = none ∧
          seen = p.signal.calls := by
  have hret {pool : ℕ} {conn : VkLdapPoolConnection} :
      ∀ u ∈ [Task.ret pool conn], ∀ k, ¬ u.ShutsDown k := by
    intro u hu k
    obtain rfl := List.mem_singleton.mp hu
    exact id
  have hnil : ∀ u ∈ ([] : List Task), ∀ k, ¬ u.ShutsDown k := fun u hu => by cases hu
  cases h with
  | ldapFailed => exact ⟨fun _ => id, hret, fun _ h => absurd h id, fun _ _ hs => by cases hs⟩
  | ldap => exact ⟨fun _ => id, hret, fun _ h => absurd h id, fun _ _ hs => by cases hs⟩
  | shutdownDone => exact ⟨fun _ h => absurd h id, hnil, (fun _ h => by cases h),
      fun _ _ hs => by cases hs⟩
  | @shutdown pool pools seen p p' hp _ hs =>
    refine ⟨fun _ hk => List.mem_cons_of_mem _ hk, hnil, fun k hk => ?_, fun k seen hks => ?_⟩
    · rcases List.mem_cons.mp hk with rfl | hk
      · refine Or.inr ⟨p', by simp [Mem.setPool, (List.getElem?_eq_some_iff.mp hp).1], fun hl => ?_⟩
        cases (Pool.shutdown_shut hs).symm.trans hl.2
      · exact Or.inl hk
    · cases pools <;> cases hks
  | shutdownWait hp _ hs =>
    refine ⟨fun _ hk => hk, hnil, fun k hk => Or.inl hk, fun k seen hks => ?_⟩
    cases hks
    exact ⟨rfl, _, _, rfl, hp, hs, rfl⟩
  | _ => exact ⟨fun _ => id, hnil, fun _ h => absurd h id, fun _ _ hs => by cases hs⟩

theorem Main.Move.shuts {m m' : Mem} {main main' : Main} {spawned : List Task}
    (h : main.Move m m' main' spawned) :
    (∀ u ∈ spawned, u.shuts? = none ∨ ∃ k, u.shuts? = some (k, none)) ∧
      ∀ u ∈ spawned, ∀ k, u.ShutsDown k → k ∈ m.ctx.connPools ∧ m'.ctx.connPools = [] ∧
        m'.pools = m.pools := by
  cases h with
  | clear =>
    constructor <;> intro u hu <;> obtain rfl := List.mem_singleton.mp hu
    · cases hc : m.ctx.connPools with
      | nil => exact Or.inl rfl
      | cons k ks => exact Or.inr ⟨k, rfl⟩
    · exact fun k hk => ⟨hk, rfl, rfl⟩
  | _ => exact ⟨(fun u hu => by cases hu), fun u hu => by cases hu⟩

/-! ### The table and the lists of removed pools stay apart -/

/-- Whatever is neither in the table nor new stays out of it. -/
theorem removed_stays {s s' : State} {a : Act} (h : s.step a = some s') {k : ℕ}
    (hk : k < s.mem.pools.length ∧ k ∉ s.mem.ctx.connPools) :
    k < s'.mem.pools.length ∧ k ∉ s'.mem.ctx.connPools := by
  rcases State.step_cases h with ⟨i, net, rfl⟩ | ⟨net, rfl⟩ | hother
  · obtain ⟨t, m', -, ⟨t', spawned, hmove, rfl⟩ | ⟨hmove, rfl⟩⟩ := State.step_task h <;>
      exact ⟨hmove.shape.poolsLength ▸ hk.1, hmove.shape.connPools ▸ hk.2⟩
  · obtain ⟨m', main, spawned, hmove, rfl⟩ := State.step_main h
    generalize s.main = main₀ at hmove
    have hpools : s.mem.pools.length ≤ m'.pools.length := by
      cases hmove <;> simp [Mem.listServer, Mem.setPool, Mem.updateServerStatus]
    refine ⟨hk.1.trans_le hpools, fun hin => ?_⟩
    cases hmove with
    | clear => cases hin
    | list =>
      simp only [Mem.listServer, VkLdapContext.addServer] at hin
      rcases List.mem_append.mp hin with hin | hin
      · exact hk.2 hin
      · exact absurd (List.mem_singleton.mp hin) (Nat.ne_of_lt hk.1)
    | refreshReport =>
      rw [(Mem.SameShape.updateServerStatus s.mem _ _ _).connPools] at hin
      exact hk.2 hin
    | _ => exact hk.2 hin
  · cases hother <;> exact hk

theorem apart_step {s s' : State} {a : Act} (ha : System.Aligned s.mem)
    (h0 : ∀ t ∈ s.tasks, ∀ k, t.ShutsDown k →
      k < s.mem.pools.length ∧ k ∉ s.mem.ctx.connPools) (h : s.step a = some s') :
    ∀ t ∈ s'.tasks, ∀ k, t.ShutsDown k →
      k < s'.mem.pools.length ∧ k ∉ s'.mem.ctx.connPools := by
  refine State.forall_tasks_step
    (P := fun m t => ∀ k, t.ShutsDown k → k < m.pools.length ∧ k ∉ m.ctx.connPools) h h0
    (fun t _ ht k hk => removed_stays h (ht k hk)) ?_ ?_ (fun k hk => absurd hk id)
    fun _ _ k hk => absurd hk id
  · intro i net t t' spawned _ ht hmove
    obtain ⟨hback, hspawned, -, -⟩ := hmove.shuts
    exact ⟨fun k hk => removed_stays h (h0 t (List.mem_of_getElem? ht) k (hback k hk)),
      fun u hu k hk => absurd hk (hspawned u hu k)⟩
  · intro net spawned _ hmove u hu k hk
    obtain ⟨hin, hnil, hpools⟩ := hmove.shuts.2 u hu k hk
    obtain ⟨i, hi⟩ := List.mem_iff_getElem?.mp hin
    obtain ⟨p, hp⟩ := (ha.poolAt hi).exists
    rw [hnil, hpools]
    exact ⟨(List.getElem?_eq_some_iff.mp hp).1, List.not_mem_nil⟩

theorem table_step {s s' : State} {a : Act}
    (h0 : ∀ x, s.main.reset? = some x → x.1 ∈ s.mem.ctx.connPools) (h : s.step a = some s') :
    ∀ x, s'.main.reset? = some x → x.1 ∈ s'.mem.ctx.connPools := by
  rcases State.step_cases h with ⟨i, net, rfl⟩ | ⟨net, rfl⟩ | hother
  · obtain ⟨t, m', -, ⟨t', spawned, hmove, rfl⟩ | ⟨hmove, rfl⟩⟩ := State.step_task h <;>
      exact fun x hx => hmove.shape.connPools ▸ h0 x hx
  · obtain ⟨m', main, spawned, hmove, rfl⟩ := State.step_main h
    have hnext (rest : List VkLdapServer) : (Main.refreshNext rest).reset? = none := by
      cases rest <;> rfl
    have hnone {main : Main} (hn : main.reset? = none) {x : ℕ × VkConnectionSettings}
        (hx : main.reset? = some x) : x.1 ∈ m'.ctx.connPools := by
      rw [hn] at hx
      cases hx
    generalize s.main = main₀ at hmove
    cases hmove with
    | refreshLookup hp =>
      intro x hx
      cases hx
      exact List.mem_of_getElem? hp
    | read => exact fun x => hnone (hnext _)
    | refreshReport => exact fun x => hnone (hnext _)
    | _ => exact fun x => hnone rfl
  · cases hother with
    | setServers => exact fun x hx => by cases hx
    | setConnectionSettings => exact fun x hx => by cases hx
    | _ => exact h0

/-! ### A removed pool is shut down or empty -/

theorem removed_reset {s s' : State} {i : ℕ} {net : Net} {server : VkLdapServer}
    {x : ℕ × VkConnectionSettings} (hr : s.Releasing) (hopens : ReopensNone s (.task i net))
    (ht : s.tasks[i]? = some (.check server (.refresh (.reset x.1 x.2))))
    (h : s.step (.task i net) = some s') (k : ℕ) (p : Pool) (hp : s'.mem.pools[k]? = some p) :
    k ∈ s'.mem.ctx.connPools ∨ (∃ t ∈ s'.tasks, t.ShutsDown k) ∨ ¬ p.Live := by
  obtain ⟨q, -, rfl⟩ := State.step_reset ht h
  have hstay (hu : ∃ u ∈ s.tasks, u.ShutsDown k) : ∃ u ∈ s.tasks.set i (.check server (.refresh
      (.report (q.refreshConnections x.2 net.connect).2
        (q.refreshConnections x.2 net.connect).1.queue.epoch))), u.ShutsDown k := by
    obtain ⟨u, hu, huk⟩ := hu
    refine ⟨u, ?_, huk⟩
    simpa using mem_go (l := []) ht hu (by rintro rfl; exact huk)
  by_cases hk : x.1 = k
  · subst hk
    rcases hopens x (by rw [ht]; rfl) with hin | hu | href
    · exact Or.inl hin
    · exact Or.inr (Or.inl (hstay hu))
    · obtain rfl := Mem.setPool_eq hp
      refine Or.inr (Or.inr fun hl => ?_)
      rw [Pool.live_iff_stamp, Pool.refreshConnections_stamp,
        (Pool.refreshConnections_refused q _ _).mpr href] at hl
      cases hl
  · have hp : (s.mem.setPool x.1 _).pools[k]? = some p := hp
    rw [Mem.setPool_ne hk] at hp
    exact (hr.removed k p hp).imp id (Or.imp hstay id)

theorem removed_task {s s' : State} {i : ℕ} {net : Net} (hr : s.Releasing)
    (hown : ReturnsOwn s (.task i net)) (hopens : ReopensNone s (.task i net))
    (h : s.step (.task i net) = some s') :
    ∀ (k : ℕ) (p : Pool), s'.mem.pools[k]? = some p →
      k ∈ s'.mem.ctx.connPools ∨ (∃ t ∈ s'.tasks, t.ShutsDown k) ∨ ¬ p.Live := by
  obtain ⟨t, m', ht, hcase⟩ := State.step_task h
  have hmem := List.mem_of_getElem? ht
  have hcustody := hr.attended.sized.custody
  have hout := hcustody.handedOut hmem
  rcases hreset : t.reset? with _ | x
  · rcases hcase with ⟨t', spawned, hmove, rfl⟩ | ⟨hmove, rfl⟩
    · intro k p' hp'
      have hk : k < s.mem.pools.length :=
        hmove.shape.poolsLength ▸ (List.getElem?_eq_some_iff.mp hp').1
      rcases hr.removed k _ (List.getElem?_eq_getElem hk) with hin | ⟨u, hu, huk⟩ | hdead
      · exact Or.inl (hmove.shape.connPools ▸ hin)
      · refine Or.inr ?_
        by_cases hut : u = t
        · subst hut
          rcases hmove.shuts.2.2.1 k huk with hk' | ⟨q, hq, hdead⟩
          · have hi := (List.getElem?_eq_some_iff.mp ht).1
            exact Or.inl ⟨t', List.mem_append_left _ (List.mem_set hi t'), hk'⟩
          · exact Or.inr (Option.some.inj (hq.symm.trans hp') ▸ hdead)
        · exact Or.inl ⟨u, mem_go ht hu hut, huk⟩
      · refine Or.inr (Or.inr fun hl => hdead ?_)
        rcases hmove.pool_at (hcustody.own.tasks t hmem) (hown i net t rfl ht) hout
          (List.getElem?_eq_getElem hk) hp' with rfl | ⟨a, hstep, ha⟩
        · exact hl
        · exact Pool.step_live hstep
            (fun settings connect he => by rw [ha _ _ he] at hreset; cases hreset) hl
    · obtain rfl := hmove.panic_mem
      intro k p hp
      refine (hr.removed k p hp).imp id (Or.imp ?_ id)
      rintro ⟨u, hu, huk⟩
      refine ⟨u, List.mem_filter.mpr ⟨hu, ?_⟩, huk⟩
      cases u with
      | shutdown => rfl
      | _ => exact absurd huk id
  · obtain ⟨server, rfl⟩ := Task.reset?_eq hreset
    exact removed_reset hr hopens ht h

theorem removed_main {s s' : State} {net : Net} (hr : s.Releasing)
    (h : s.step (.main net) = some s') :
    ∀ (k : ℕ) (p : Pool), s'.mem.pools[k]? = some p →
      k ∈ s'.mem.ctx.connPools ∨ (∃ t ∈ s'.tasks, t.ShutsDown k) ∨ ¬ p.Live := by
  obtain ⟨m', main, spawned, hmove, rfl⟩ := State.step_main h
  intro k p hp
  have hkeep (hpools : s.mem.pools[k]? = some p)
      (hin : k ∈ s.mem.ctx.connPools →
        k ∈ m'.ctx.connPools ∨ ∃ t ∈ s.tasks ++ spawned, t.ShutsDown k) :
      k ∈ m'.ctx.connPools ∨ (∃ t ∈ s.tasks ++ spawned, t.ShutsDown k) ∨ ¬ p.Live := by
    rcases hr.removed k p hpools with h | ⟨u, hu, huk⟩ | h
    · exact (hin h).imp id Or.inl
    · exact Or.inr (Or.inl ⟨u, List.mem_append_left _ hu, huk⟩)
    · exact Or.inr (Or.inr h)
  have htable := hr.table
  generalize s.main = main₀ at hmove htable
  cases hmove with
  | clear =>
    exact hkeep hp fun hin => Or.inr ⟨_, List.mem_append_right _ List.mem_cons_self, hin⟩
  | list =>
    rcases Mem.listServer_cases hp with hp | ⟨rfl, -⟩
    · exact hkeep hp fun hin => Or.inl (List.mem_append_left _ hin)
    · exact Or.inl (List.mem_append_right _ List.mem_cons_self)
  | @refreshReset server rest k₀ settings connect q hq =>
    by_cases hk : k₀ = k
    · exact Or.inl (hk ▸ htable _ rfl)
    · have hp : (s.mem.setPool k₀ _).pools[k]? = some p := hp
      rw [Mem.setPool_ne hk] at hp
      exact hkeep hp Or.inl
  | refreshReport =>
    refine hkeep hp fun hin => Or.inl ?_
    rw [(Mem.SameShape.updateServerStatus s.mem _ _ _).connPools]
    exact hin
  | _ => exact hkeep hp Or.inl

theorem removed_other {s s' : State} {a : Act} (hr : s.Releasing) (h : s.Other a s') :
    ∀ (k : ℕ) (p : Pool), s'.mem.pools[k]? = some p →
      k ∈ s'.mem.ctx.connPools ∨ (∃ t ∈ s'.tasks, t.ShutsDown k) ∨ ¬ p.Live := by
  intro k p hp
  have hkeep (htasks : ∀ u ∈ s.tasks, u.ShutsDown k → u ∈ s'.tasks) :
      (∃ t ∈ s.tasks, t.ShutsDown k) → ∃ t ∈ s'.tasks, t.ShutsDown k :=
    fun ⟨u, hu, huk⟩ => ⟨u, htasks u hu huk, huk⟩
  cases h with
  | submit =>
    exact (hr.removed k p hp).imp id (Or.imp (hkeep fun u hu _ => List.mem_append_left _ hu) id)
  | iterate =>
    exact (hr.removed k p hp).imp id (Or.imp (hkeep fun u hu _ => List.mem_append_left _ hu) id)
  | deliver =>
    refine (hr.removed k p hp).imp id (Or.imp (hkeep fun u hu huk => ?_) id)
    refine List.mem_filter.mpr ⟨hu, ?_⟩
    cases u with
    | shutdown => rfl
    | _ => exact absurd huk id
  | _ => exact hr.removed k p hp

/-! ### A shutdown that waits, waits for a live pool -/

theorem heard_step {s s' : State} {a : Act} (hs : s.Sized) (hown : ReturnsOwn s a)
    (h0 : ∀ t ∈ s.tasks, ∀ k seen, t.shuts? = some (k, some seen) → s.mem.Heard k seen)
    (h : s.step a = some s') :
    ∀ t ∈ s'.tasks, ∀ k seen, t.shuts? = some (k, some seen) → s'.mem.Heard k seen := by
  have hspawned {m : Mem} {u : Task} (hu : u.shuts? = none ∨ ∃ k, u.shuts? = some (k, none)) :
      ∀ k seen, u.shuts? = some (k, some seen) → m.Heard k seen := by
    intro k seen hk
    rcases hu with hu | ⟨j, hu⟩ <;> rw [hu] at hk <;> cases hk
  refine State.forall_tasks_step
    (P := fun m t => ∀ k seen, t.shuts? = some (k, some seen) → m.Heard k seen) h h0
    (fun t _ ht k seen hk => (ht k seen hk).later (later_step hs hown h)) ?_ ?_
    (hspawned (Or.inl rfl)) fun _ _ => hspawned (Or.inl rfl)
  · intro i net t t' spawned _ _ hmove
    obtain ⟨-, hnone, -, hreg⟩ := hmove.shuts
    refine ⟨fun k seen hk => ?_, fun u hu k seen hk => ?_⟩
    · obtain ⟨hm, p, seen₀, -, hp, -, rfl⟩ := hreg k seen hk
      exact ⟨p, hm ▸ hp, Nat.le_refl _⟩
    · obtain ⟨pools, rfl⟩ := Task.shuts?_eq hk
      exact absurd List.mem_cons_self (hnone _ hu k)
  · intro net spawned _ hmove u hu
    exact hspawned (hmove.shuts.1 u hu)

/-- A shutdown that waits is not notified in a step that leaves its pool short
of connections. -/
theorem short_task {s s' : State} {i : ℕ} {net : Net} (hr : s.Releasing)
    (hown : ReturnsOwn s (.task i net)) (hlive : ShutsLive s (.task i net))
    (href : RefusalShut s (.task i net)) (h : s.step (.task i net) = some s') :
    ∀ u ∈ s'.tasks, ∀ k seen, u.shuts? = some (k, some seen) →
      s'.mem.Unnotified k seen → s'.mem.Short k := by
  obtain ⟨t, m', ht, hcase⟩ := State.step_task h
  have hmem := List.mem_of_getElem? ht
  have hsized := hr.attended.sized
  have hcustody := hsized.custody
  have hout := hcustody.handedOut hmem
  have hlater : s.mem.Later s'.mem := later_step hsized hown h
  -- whoever waited before
  have hold {u : Task} (hu : u ∈ s.tasks) {k seen : ℕ} (hk : u.shuts? = some (k, some seen))
      (hun : s'.mem.Unnotified k seen) : s'.mem.Short k := by
    obtain ⟨p, p', hp, hp', hcalls, hbefore⟩ := hun.before (hr.heard u hu k seen hk) hlater
    obtain ⟨q, hq, hql, hshort⟩ := hr.waits u hu k seen hk hbefore
    obtain rfl : p = q := Option.some.inj (hp.symm.trans hq)
    rcases hreset : t.reset? with _ | x
    · have hmove : ∃ next, t.Move s.mem s'.mem next := by
        rcases hcase with ⟨t', spawned, hmove, rfl⟩ | ⟨hmove, rfl⟩ <;> exact ⟨_, hmove⟩
      obtain ⟨next, hmove⟩ := hmove
      rcases hmove.pool_at (hcustody.own.tasks t hmem) (hown i net t rfl ht) hout hp hp' with
        rfl | ⟨a, hstep, ha⟩
      · exact ⟨p', hp', hql, hshort⟩
      · rcases Pool.quiet_short hstep hcalls hql hshort with ⟨h1, h2⟩ | hrefused
        · exact ⟨p', hp', h1, h2⟩
        · exact absurd hreset (refused_resets hrefused ha)
    · obtain ⟨server, rfl⟩ := Task.reset?_eq hreset
      obtain ⟨q, hq₀, rfl⟩ := State.step_reset ht h
      by_cases hx : x.1 = k
      · subst hx
        obtain ⟨hrefused, -⟩ := reset_unnoticed hq₀ hp hp' hcalls
        exact absurd hbefore (href x (by rw [ht]; rfl) hrefused u hu seen hk)
      · exact ⟨p, (Mem.setPool_ne hx _).trans hp, hql, hshort⟩
  rcases hcase with ⟨t', spawned, hmove, rfl⟩ | ⟨hmove, rfl⟩
  · intro u hu k seen hk hun
    rcases List.mem_append.mp hu with hu | hu
    · rcases List.mem_or_eq_of_mem_set hu with hu | rfl
      · exact hold hu hk hun
      · -- the attempt that has just failed found a live pool
        obtain ⟨rfl, p, seen₀, hts, hp, hnone, -⟩ := hmove.shuts.2.2.2 k seen hk
        have hl := hlive (k, seen₀) (by rw [ht]; exact hts) p hp
        have hcount := (hcustody.inv k p hp).count
        rw [if_pos hl] at hcount
        have hne := Pool.shutdown_none hnone
        exact ⟨p, hp, hl, by omega⟩
    · obtain ⟨pools, rfl⟩ := Task.shuts?_eq hk
      exact absurd List.mem_cons_self (hmove.shuts.2.1 _ hu k)
  · exact fun u hu k seen hk hun => hold (List.mem_filter.mp hu).1 hk hun

theorem short_main {s s' : State} {net : Net} (hr : s.Releasing)
    (h : s.step (.main net) = some s') :
    ∀ u ∈ s'.tasks, ∀ k seen, u.shuts? = some (k, some seen) →
      s'.mem.Unnotified k seen → s'.mem.Short k := by
  obtain ⟨m', main, spawned, hmove, rfl⟩ := State.step_main h
  intro u hu k seen hk hun
  have hold : u ∈ s.tasks := by
    refine (List.mem_append.mp hu).resolve_right fun hu => ?_
    rcases hmove.shuts.1 u hu with hn | ⟨j, hn⟩ <;> rw [hn] at hk <;> cases hk
  obtain ⟨p, p', hp, -, -, hbefore⟩ := hun.before (hr.heard u hold k seen hk) hmove.later
  obtain ⟨q, hq, hql, hshort⟩ := hr.waits u hold k seen hk hbefore
  obtain rfl : p = q := Option.some.inj (hp.symm.trans hq)
  -- the pool is not of the table, which alone the main thread resets
  obtain ⟨pools, rfl⟩ := Task.shuts?_eq hk
  have hnot := (hr.apart _ hold k List.mem_cons_self).2
  rcases hreset : s.main.reset? with _ | x
  · exact ⟨p, hmove.keeps_pool hreset hp, hql, hshort⟩
  · obtain ⟨server, rest, hm⟩ := Main.reset?_eq hreset
    obtain ⟨q, -, hm', -⟩ := State.step_main_reset hm h
    have hx : x.1 ≠ k := fun he => hnot (he ▸ hr.table x hreset)
    refine ⟨p, ?_, hql, hshort⟩
    show m'.pools[k]? = some p
    rw [show m' = _ from hm']
    exact (Mem.setPool_ne hx _).trans hp

theorem short_other {s s' : State} {a : Act} (hr : s.Releasing) (h : s.Other a s') :
    ∀ u ∈ s'.tasks, ∀ k seen, u.shuts? = some (k, some seen) →
      s'.mem.Unnotified k seen → s'.mem.Short k := by
  intro u hu k seen hk hun
  cases h with
  | submit =>
    rcases List.mem_append.mp hu with hu | hu
    · exact hr.waits u hu k seen hk hun
    · obtain rfl := List.mem_singleton.mp hu
      cases hk
  | iterate =>
    rcases List.mem_append.mp hu with hu | hu
    · exact hr.waits u hu k seen hk hun
    · obtain ⟨e, -, rfl⟩ := List.mem_map.mp hu
      cases hk
  | deliver => exact hr.waits u (List.mem_filter.mp hu).1 k seen hk hun
  | _ => exact hr.waits u hu k seen hk hun

/-! ### Runs -/

theorem releasing_step {s s' : State} {a : Act} (hr : s.Releasing) (hg : Attends s a)
    (hlive : ShutsLive s a) (href : RefusalShut s a) (hopens : ReopensNone s a)
    (h : s.step a = some s') : s'.Releasing := by
  have hsized := hr.attended.sized
  refine ⟨attended_step hr.attended hg h, table_step hr.table h,
    apart_step hsized.linked.aligned.1 hr.apart h, ?_, heard_step hsized hg.2.1 hr.heard h, ?_⟩
  · rcases State.step_cases h with ⟨i, net, rfl⟩ | ⟨net, rfl⟩ | hother
    · exact removed_task hr hg.2.1 hopens h
    · exact removed_main hr h
    · exact removed_other hr hother
  · rcases State.step_cases h with ⟨i, net, rfl⟩ | ⟨net, rfl⟩ | hother
    · exact short_task hr hg.2.1 hlive href h
    · exact short_main hr h
    · exact short_other hr hother

theorem releasing_init (ls : VkLdapSettings) (cs : VkConnectionSettings)
    (hs : 1 ≤ cs.connectionPoolSize) : (State.init ls cs).Releasing := by
  have htasks {P : Task → Prop} : ∀ t ∈ (State.init ls cs).tasks, P t :=
    fun t ht => by simp [State.init] at ht
  exact ⟨attended_init ls cs hs, (fun x hx => by cases hx), htasks,
    (fun k p hp => by simp [State.init] at hp), htasks, htasks⟩

/-- A shutdown waits only while a connection of the pool's current epoch is
checked out. -/
def State.ShutdownsWait (s : State) : Prop :=
  ∀ k pools seen, .shutdown (k :: pools) (some seen) ∈ s.tasks → s.mem.Unnotified k seen →
    s.CheckedOut k

/-- All connections that a removed pool ever opened are closed, if those taken
from it have been returned and the task that has still to shut it down, should
there be one, can make no further step although that is so of all its pools. -/
def State.Released (s : State) : Prop :=
  ∀ (k : ℕ) (p : Pool), s.mem.pools[k]? = some p → k ∉ s.mem.ctx.connPools → p.out = [] →
    (∀ pools seen, .shutdown pools seen ∈ s.tasks → k ∈ pools →
      (∀ net, (Task.shutdown pools seen).step s.mem net = none) ∧
        ∀ j ∈ pools, ∀ q, s.mem.pools[j]? = some q → q.out = []) →
    p.queue.queue = [] ∧ ∀ i < p.journal.opened, i ∈ p.journal.closed.map (·.id)

/-- A task that cannot go on with a shutdown waits on the signal. -/
theorem stuck_shutdown {m : Mem} {net : Net} {k : ℕ} {pools : List ℕ} {seen : Option ℕ} {p : Pool}
    (h : (Task.shutdown (k :: pools) seen).step m net = none) (hp : m.pools[k]? = some p) :
    ∃ n, seen = some n ∧ m.Unnotified k n := by
  simp only [Task.step, hp] at h
  split at h
  · split at h <;> cases h
  · rename_i hdue
    cases seen with
    | none => exact absurd rfl hdue
    | some n => exact ⟨n, rfl, p, hp, eq_false_of_ne_true hdue⟩

theorem State.Releasing.shutdownsWait {s : State} (hr : s.Releasing) : s.ShutdownsWait := by
  intro k pools seen ht hun
  obtain ⟨p, hp, hl, hshort⟩ := hr.waits _ ht k seen rfl hun
  exact hr.attended.checkedOut hp hl hshort

theorem State.Releasing.released {s : State} (hr : s.Releasing) : s.Released := by
  intro k p hp hremoved hout hstuck
  have hcustody := hr.attended.sized.custody
  refine Pool.all_closed (hcustody.inv k p hp) ?_ hout
  rcases hr.removed k p hp with hin | ⟨t, ht, hk⟩ | hdead
  · exact absurd hin hremoved
  · cases t with
    | shutdown pools seen =>
      obtain ⟨hnone, hreturned⟩ := hstuck pools seen ht hk
      obtain ⟨j, rest, rfl⟩ := List.exists_cons_of_ne_nil (List.ne_nil_of_mem hk)
      have hj := (hr.apart _ ht j List.mem_cons_self).1
      have hq := List.getElem?_eq_getElem hj
      obtain ⟨n, rfl, hun⟩ := stuck_shutdown (hnone {}) hq
      obtain ⟨u, hu, c, q, huc, hcj, hq', -⟩ := hr.shutdownsWait j rest n ht hun
      have hpos := Nat.lt_of_lt_of_le (hands_pos hu huc) (hcustody.hands c)
      have hmem := mem_out_of_handedOut hq' hcj hpos
      rw [hreturned j List.mem_cons_self q hq'] at hmem
      cases hmem
    | _ => exact absurd hk id
  · exact hdead

/-- **Removed pools are released.** In every run in which each attempt to shut
a pool down finds it live, no refresh fails while a shutdown waits on its pool,
none fills a pool again that has been shut down, checks give back to the pool
they took from and no panic drops a connection: a shutdown waits only while a
connection is checked out, and when it is over everything is closed. -/
theorem removed_pools_released (ls : VkLdapSettings) (cs : VkConnectionSettings)
    (hs : 1 ≤ cs.connectionPoolSize) (tr : List (State × Act)) (t : State)
    (h : Run State.step (State.init ls cs) tr t) (hatt : Steps Attends tr)
    (hlive : Steps ShutsLive tr) (href : Steps RefusalShut tr) (hopens : Steps ReopensNone tr) :
    t.ShutdownsWait ∧ t.Released := by
  have hr : t.Releasing := h.invariant ((hatt.and hlive).and (href.and hopens))
    (releasing_init ls cs hs)
    fun _ _ _ hr hg hstep => releasing_step hr hg.1.1 hg.1.2 hg.2.1 hg.2.2 hstep
  exact ⟨hr.shutdownsWait, hr.released⟩

/-- The list is emptied while an operation has the only connection, and the
shutdown waits for it. -/
def emptiedWhileOut : List Act :=
  [.setServers ["ldap://a"], .main {}, .main {}, .main {}, .main {}, .main {}, .submit,
    .task 1 {}, .task 1 {}, .setServers [], .main {}, .main {}, .task 2 {}, .task 1 {},
    .task 3 {}, .task 2 {}]

theorem Calm.releases {s : State} {a : Act} (h : Calm s a) :
    ShutsLive s a ∧ RefusalShut s a ∧ ReopensNone s a := by
  refine ⟨?_, ?_, ?_⟩
  · cases a with
    | task i net => exact fun _ _ p hp => h.pools p (List.mem_of_getElem? hp)
    | _ => trivial
  · cases a with
    | task i net => exact fun x hx => absurd hx h.no_reset
    | _ => trivial
  · cases a with
    | task i net => exact fun x hx => absurd hx h.no_reset
    | _ => trivial

theorem removed_pools_released_emptied : ∃ tr t,
    Run State.step (State.init {} { connectionPoolSize := 1 }) tr t ∧
      (∃ p, t.mem.pools[0]? = some p ∧ p.shut = true) ∧ t.ShutdownsWait ∧ t.Released := by
  obtain ⟨t, ht, p, hp, hshut⟩ : ∃ t,
      exec State.step (State.init {} { connectionPoolSize := 1 }) emptiedWhileOut = some t ∧
        ∃ p, t.mem.pools[0]? = some p ∧ p.shut = true := ⟨_, rfl, _, rfl, rfl⟩
  have hcalm : Steps Calm
      (trace State.step (State.init {} { connectionPoolSize := 1 }) emptiedWhileOut) :=
    calm_steps (by decide +kernel)
  refine ⟨_, t, exec_run ht, ⟨p, hp, hshut⟩,
    removed_pools_released {} _ (Nat.le_refl 1) _ t (exec_run ht) ?_
      (hcalm.imp fun _ _ h => h.releases.1) (hcalm.imp fun _ _ h => h.releases.2.1)
      (hcalm.imp fun _ _ h => h.releases.2.2)⟩
  rintro ⟨s, a⟩ hx
  refine ⟨?_, (hcalm _ hx).returnsOwn, fun u hu => ?_⟩
  · have ha : a ∈ emptiedWhileOut := mem_of_trace hx
    simp only [emptiedWhileOut, List.mem_cons, List.not_mem_nil, or_false] at ha
    rcases ha with rfl | rfl | rfl | rfl | rfl | rfl | rfl | rfl | rfl | rfl | rfl | rfl | rfl |
      rfl | rfl | rfl <;> trivial
  · rw [(hcalm _ hx).dropped] at hu
    cases hu

/-- The pool of the first of two servers could not be filled; then the list is
emptied. -/
def emptiedWithDeadPool : List Act :=
  [.setServers ["ldap://a", "ldap://b"], .main {}, .main {},
    .main { connect := fun _ => .error (.ldapConnectionError ⟨.other, "refused"⟩) }, .main {},
    .main {}, .main {}, .main {}, .main {}, .setServers [], .main {}, .main {}, .task 1 {}]

/-- The shutdown waits on the dead pool, with nothing checked out, and the pool
after it keeps its connection. -/
theorem dead_pool_blocks_release : ∃ tr t,
    Run State.step (State.init {} { connectionPoolSize := 1 }) tr t ∧ Steps Attends tr ∧
      t.main = .idle ∧ ¬ t.ShutdownsWait ∧ ¬ t.Released := by
  obtain ⟨t, ht, hmain, htasks, ⟨p, hp, hdue⟩, ⟨q, hq, hqueue⟩, hout, htable⟩ : ∃ t,
      exec State.step (State.init {} { connectionPoolSize := 1 }) emptiedWithDeadPool = some t ∧
        t.main = .idle ∧ t.tasks = [.shutdown [] none, .shutdown [0, 1] (some 0)] ∧
        (∃ p, t.mem.pools[0]? = some p ∧ Mem.due p (some 0) = false) ∧
        (∃ q, t.mem.pools[1]? = some q ∧ q.queue.queue.length = 1) ∧
        (∀ p ∈ t.mem.pools, p.out = []) ∧ t.mem.ctx.connPools = [] :=
    ⟨_, rfl, rfl, rfl, ⟨_, rfl, rfl⟩, ⟨_, rfl, rfl⟩, by decide, rfl⟩
  have hquiet : (trace State.step (State.init {} { connectionPoolSize := 1 })
      emptiedWithDeadPool).all (fun x => x.1.tasks.all (fun u => !u.isCheck) &&
        (x.1.dropped x.2).isEmpty) = true := by decide +kernel
  refine ⟨_, t, exec_run ht, ?_, hmain, fun hwait => ?_, fun hrel => ?_⟩
  · rintro ⟨s, a⟩ hx
    have hall := List.all_eq_true.mp hquiet _ hx
    simp only [Bool.and_eq_true, List.all_eq_true, List.isEmpty_iff, Bool.not_eq_true'] at hall
    refine ⟨?_, ?_, fun u hu => ?_⟩
    · have ha : a ∈ emptiedWithDeadPool := mem_of_trace hx
      simp only [emptiedWithDeadPool, List.mem_cons, List.not_mem_nil, or_false] at ha
      rcases ha with rfl | rfl | rfl | rfl | rfl | rfl | rfl | rfl | rfl | rfl | rfl | rfl | rfl <;>
        trivial
    · intro i net u _ hu
      have hcheck := hall.1 u (List.mem_of_getElem? hu)
      cases u with
      | check => cases hcheck
      | _ => trivial
    · rw [hall.2] at hu
      cases hu
  · obtain ⟨u, hu, c, -, hc, -⟩ := hwait 0 [1] 0 (by simp [htasks]) ⟨p, hp, hdue⟩
    rw [htasks] at hu
    simp only [List.mem_cons, List.not_mem_nil, or_false] at hu
    rcases hu with rfl | rfl <;> cases hc
  · have hempty := (hrel 1 q hq (by simp [htable]) (hout q (List.mem_of_getElem? hq)) ?_).1
    · rw [hempty] at hqueue
      cases hqueue
    · intro pools seen hmem hk
      rw [htasks] at hmem
      simp only [List.mem_cons, List.not_mem_nil, or_false] at hmem
      rcases hmem with h | h <;> cases h
      · cases hk
      · exact ⟨fun net => by simp [Task.step, hp, hdue],
          fun j _ r hr => hout r (List.mem_of_getElem? hr)⟩

end System
end ValkeyLdap
