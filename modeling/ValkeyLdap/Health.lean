/-
# Health status and pool state

A server's status lives in the context and its connections in its pool. A
refresh first resets the pool and then takes the context lock to write what
came of it, and a check writes what came of its ping after it has given the
connection back, so what a task writes may be older than the pool it speaks
of. `health_agrees`: over a fixed list a HEALTHY server has a live pool as
long as no task writes HEALTHY from before a failed reset of which nobody is
about to write the failure.

Key theorems: `Task.Move.agree`, `Task.Move.seen`, `health_step`,
`health_agrees`, `healthy_with_dead_pool`.
-/
import ValkeyLdap.FixedList

namespace ValkeyLdap
namespace System

open Runs

/-! ### What is written, and as of when -/

def Mem.Healthy (m : Mem) (j : ℕ) : Prop :=
  ∃ e, m.ctx.servers[j]? = some e ∧ e.status = .healthy

def Mem.LiveAt (m : Mem) (j : ℕ) : Prop := ∃ p, m.pools[j]? = some p ∧ p.Live

/-- The position whose failed refresh the task is about to write. -/
def Task.reportsFailure : Task → Option ℕ
  | .check server (.refresh (.report (.error _) _)) => some server.id
  | _ => none

def Main.reportsFailure : Main → Option ℕ
  | .refreshing server (.report (.error _) _) _ => some server.id
  | _ => none

/-- The position the task is about to mark healthy, and the epoch of the pool
in which it saw that. -/
def Task.marksHealthy : Task → Option (ℕ × ℕ)
  | .check server (.report (.ok _) asOf) => some (server.id, asOf)
  | .check server (.refresh (.report (.ok _) asOf)) => some (server.id, asOf)
  | _ => none

def Main.marksHealthy : Main → Option (ℕ × ℕ)
  | .refreshing server (.report (.ok _) asOf) _ => some (server.id, asOf)
  | _ => none

/-- The epoch has been, and while it lasts the pool is live. -/
def Mem.Seen (m : Mem) (x : ℕ × ℕ) : Prop :=
  ∀ p, m.pools[x.1]? = some p → x.2 ≤ p.queue.epoch ∧ (p.queue.epoch = x.2 → p.Live)

theorem marks_xor_reports {t : Task} {x : ℕ × ℕ} (h : t.marksHealthy = some x) :
    t.reportsFailure = none := by
  unfold Task.marksHealthy at h
  split at h
  · rfl
  · rfl
  · cases h

theorem main_marks_xor_reports {main : Main} {x : ℕ × ℕ} (h : main.marksHealthy = some x) :
    main.reportsFailure = none := by
  unfold Main.marksHealthy at h
  split at h
  · rfl
  · cases h

/-! ### Stamps carry both -/

theorem Mem.LiveAt.of_stamps {m m' : Mem} {j : ℕ} (h : m.LiveAt j) (hs : m.SameStamps m')
    (hlen : m'.pools.length = m.pools.length) : m'.LiveAt j := by
  obtain ⟨p, hp, hlive⟩ := h
  have hlt : j < m'.pools.length := hlen ▸ (List.getElem?_eq_some_iff.mp hp).1
  obtain ⟨q, hq, hstamp, -⟩ := hs j _ (List.getElem?_eq_getElem hlt)
  obtain rfl : p = q := Option.some.inj (hp.symm.trans hq)
  refine ⟨_, List.getElem?_eq_getElem hlt, ?_⟩
  rw [Pool.live_iff_stamp, hstamp, ← Pool.live_iff_stamp]
  exact hlive

theorem Mem.Seen.of_stamps {m m' : Mem} {x : ℕ × ℕ} (h : m.Seen x) (hs : m.SameStamps m') :
    m'.Seen x := by
  intro p' hp'
  obtain ⟨p, hp, hstamp, -⟩ := hs x.1 p' hp'
  obtain ⟨hle, hlive⟩ := h p hp
  have hepoch : p'.queue.epoch = p.queue.epoch := congrArg (·.1.1) hstamp
  refine ⟨hepoch ▸ hle, fun he => ?_⟩
  rw [Pool.live_iff_stamp, hstamp, ← Pool.live_iff_stamp]
  exact hlive (hepoch ▸ he)

theorem Mem.Seen.reset {m : Mem} {x : ℕ × ℕ} (h : m.Seen x) {k : ℕ} {p : Pool}
    (hp : m.pools[k]? = some p) (settings : VkConnectionSettings) (connect : ℕ → Result Unit) :
    (m.setPool k (p.refreshConnections settings connect).1).Seen x := by
  intro q hq
  rcases Mem.setPool_cases hq with ⟨rfl, rfl⟩ | ⟨-, hq⟩
  · have hepoch : (p.refreshConnections settings connect).1.queue.epoch = p.queue.epoch + 1 :=
      congrArg (·.1.1) (Pool.refreshConnections_stamp p settings connect)
    have hle := (h p hp).1
    rw [hepoch]
    exact ⟨by omega, fun he => by omega⟩
  · exact h q hq

/-- The pool a refresh leaves: live, or its failure is what the refresh reports. -/
theorem refreshConnections_live (p : Pool) (settings : VkConnectionSettings)
    (connect : ℕ → Result Unit) (h : (p.refreshConnections settings connect).2.toBool = true) :
    (p.refreshConnections settings connect).1.Live := by
  rw [Pool.live_iff_stamp, Pool.refreshConnections_stamp, h]

/-- Who holds a connection of the pool's current epoch sees a live pool. -/
theorem live_of_out {p : Pool} (h : p.Inv) {c : VkLdapPoolConnection} (hc : c ∈ p.out)
    (he : p.queue.epoch = c.fromEpoch) : p.Live := by
  by_contra hdead
  have hcount := h.count
  rw [if_neg hdead] at hcount
  have hpos : 0 < p.outNow := List.countP_pos_iff.mpr ⟨c, hc, by simp [he]⟩
  omega

/-! ### What a move writes -/

theorem healthy_updateServerStatus {m : Mem} {server : VkLdapServer}
    {status : VkLdapServerStatus} {pingTime : Option Duration} {j : ℕ}
    (h : (m.updateServerStatus server status pingTime).Healthy j) :
    (server.id = j ∧ status = .healthy) ∨ (server.id ≠ j ∧ m.Healthy j) := by
  obtain ⟨e', he', hhealthy⟩ := h
  unfold Mem.updateServerStatus at he'
  rw [VkLdapContext.updateServerStatus_eq, List.getElem?_modify] at he'
  obtain ⟨e, he, rfl⟩ := Option.map_eq_some_iff.mp he'
  by_cases hj : server.id = j
  · exact Or.inl ⟨hj, by simpa [hj, VkLdapContext.written] using hhealthy⟩
  · exact Or.inr ⟨hj, e, he, by simpa [hj] using hhealthy⟩

theorem statusOf_error {α : Type} (err : VkLdapError) :
    statusOf (.error err : Result α) ≠ .healthy := VkLdapServerStatus.noConfusion

/-- A HEALTHY that is written: seen in the current epoch, or the pool is live
anyway, or somebody is about to write the failure. -/
def Mem.FreshMark (m : Mem) (pending : ℕ → Prop) (x : ℕ × ℕ) : Prop :=
  ∀ p, m.pools[x.1]? = some p → p.queue.epoch = x.2 ∨ p.resetOk = true ∨ pending x.1

theorem Mem.FreshMark.agree {n : ℕ} {m : Mem} {Q : ℕ → Prop} {x : ℕ × ℕ}
    (h : m.FreshMark Q x) (hs : m.Seen x) (hf : m.Fixed n) (hx : x.1 < n) :
    m.LiveAt x.1 ∨ Q x.1 := by
  have hp := List.getElem?_eq_getElem (hf.count ▸ hx : x.1 < m.pools.length)
  rcases h _ hp with he | hok | hq
  · exact Or.inl ⟨_, hp, (hs _ hp).2 he⟩
  · exact Or.inl ⟨_, hp, hok, (hf.pools _ _ hp).2.2⟩
  · exact Or.inr hq

/-- Where a refresh of pool `k` leads, if every healthy server but maybe the
refreshed one has a live pool: its failure is about to be written. -/
theorem agree_reset {m : Mem} {k : ℕ} {p : Pool} (hp : m.pools[k]? = some p)
    (settings : VkConnectionSettings) (connect : ℕ → Result Unit) {j : ℕ}
    (h : m.LiveAt j) :
    (m.setPool k (p.refreshConnections settings connect).1).LiveAt j ∨
      (k = j ∧ (p.refreshConnections settings connect).2.toBool = false) := by
  by_cases hj : k = j
  · subst hj
    cases hr : (p.refreshConnections settings connect).2.toBool with
    | true =>
      exact Or.inl ⟨_, Mem.setPool_self hp _, refreshConnections_live p settings connect hr⟩
    | false => exact Or.inr ⟨rfl, rfl⟩
  · obtain ⟨q, hq, hlive⟩ := h
    exact Or.inl ⟨q, (Mem.setPool_ne hj _).trans hq, hlive⟩

/-- A move keeps the agreement: `Q` says whose failures others are about to
write. -/
theorem Task.Move.agree {n : ℕ} {m m' : Mem} {t t' : Task} {spawned : List Task} {Q : ℕ → Prop}
    (h : t.Move m m' (.go t' spawned)) (hf : m.Fixed n) (ht : t.Fixed n)
    (hag : ∀ j, m.Healthy j → m.LiveAt j ∨ t.reportsFailure = some j ∨ Q j)
    (hmark : ∀ x, t.marksHealthy = some x → m.Seen x ∧ m.FreshMark Q x) {j : ℕ}
    (hj : m'.Healthy j) : m'.LiveAt j ∨ t'.reportsFailure = some j ∨ Q j := by
  have hlen := h.shape.poolsLength
  have hstamps := h.stamps
  -- a move that writes no status and reports no failure
  have hkeep (hs : m.SameStamps m') (hh : m.Healthy j) (hr : t.reportsFailure = none) :
      m'.LiveAt j ∨ t'.reportsFailure = some j ∨ Q j := by
    rcases hag j hh with hlive | hrep | hq
    · exact Or.inl (hlive.of_stamps hs hlen)
    · rw [hr] at hrep
      cases hrep
    · exact Or.inr (Or.inr hq)
  have hwrite {server : VkLdapServer} {status : VkLdapServerStatus} {pingTime : Option Duration}
      (hm : m' = m.updateServerStatus server status pingTime)
      (hmarked : status = .healthy → m.LiveAt server.id ∨ Q server.id)
      (hother : server.id ≠ j → t.reportsFailure ≠ some j) :
      m'.LiveAt j ∨ t'.reportsFailure = some j ∨ Q j := by
    subst hm
    rcases healthy_updateServerStatus hj with ⟨rfl, hst⟩ | ⟨hne, hh⟩
    · rcases hmarked hst with hlive | hq
      · exact Or.inl hlive
      · exact Or.inr (Or.inr hq)
    · rcases hag j hh with hlive | hrep | hq
      · exact Or.inl hlive
      · exact absurd hrep (hother hne)
      · exact Or.inr (Or.inr hq)
  have hfresh {server : VkLdapServer} {asOf : ℕ} (hid : server.id < n)
      (hx : t.marksHealthy = some (server.id, asOf)) : m.LiveAt server.id ∨ Q server.id :=
    (hmark _ hx).2.agree (hmark _ hx).1 hf hid
  cases h with
  | fail => exact hwrite rfl (fun h => by cases h) (fun _ h => by cases h)
  | reportConnect => exact hwrite rfl (fun h => by cases h) (fun _ h => by cases h)
  | @report server res asOf =>
    refine hwrite rfl (fun hst => ?_) (fun _ h => by cases h)
    cases res with
    | ok time => exact hfresh ht.1 rfl
    | error err => exact absurd hst (statusOf_error err)
  | @refreshReport server res asOf =>
    cases res with
    | ok u => exact hwrite rfl (fun _ => hfresh ht.1 rfl) (fun _ h => by cases h)
    | error err =>
      exact hwrite rfl (fun hst => absurd hst (statusOf_error (α := Unit) err))
        fun hne h => hne (Option.some.inj h)
  | @refreshReset server pool settings connect p hp =>
    rcases hag j hj with hlive | hrep | hq
    · rcases agree_reset hp settings connect hlive with hlive | ⟨hk, hr⟩
      · exact Or.inl hlive
      · refine Or.inr (Or.inl ?_)
        cases hres : (p.refreshConnections settings connect).2 with
        | ok u => rw [hres] at hr; cases hr
        | error err => exact congrArg some (ht.2.1.symm.trans hk)
    · cases hrep
    · exact Or.inr (Or.inr hq)
  | shutdownDone => exact absurd ht id
  | shutdown => exact absurd ht id
  | shutdownWait => exact absurd ht id
  | _ => exact hkeep (hstamps (fun _ _ _ h => by cases h) (fun _ _ h => by cases h)) hj rfl

/-- What was seen stays seen. -/
theorem Task.Move.seen_keep {n : ℕ} {m m' : Mem} {t : Task} {next : Next Task}
    (h : t.Move m m' next) (ht : t.Fixed n) {x : ℕ × ℕ} (hx : m.Seen x) : m'.Seen x := by
  have hstamps := h.stamps
  cases h with
  | refreshReset hp => exact hx.reset hp _ _
  | shutdownDone => exact absurd ht id
  | shutdown => exact absurd ht id
  | shutdownWait => exact absurd ht id
  | _ => exact hx.of_stamps (hstamps (fun _ _ _ h => by cases h) (fun _ _ h => by cases h))

/-- The epoch that a successful refresh has just made. -/
theorem seen_reset {m : Mem} {k : ℕ} {p : Pool} (hp : m.pools[k]? = some p)
    {settings : VkConnectionSettings} {connect : ℕ → Result Unit} {u : Unit}
    (hr : (p.refreshConnections settings connect).2 = .ok u) {m' : Mem}
    (hm : m' = m.setPool k (p.refreshConnections settings connect).1) :
    m'.Seen (k, (p.refreshConnections settings connect).1.queue.epoch) := by
  subst hm
  intro q hq
  have hk := (List.getElem?_eq_some_iff.mp hp).1
  obtain rfl : (p.refreshConnections settings connect).1 = q := by
    simpa [Mem.setPool, hk] using hq
  exact ⟨Nat.le_refl _, fun _ => refreshConnections_live p settings connect (by rw [hr]; rfl)⟩

/-- What a task is about to mark, it has seen. -/
theorem Task.Move.seen {n : ℕ} {m m' : Mem} {t t' : Task} {spawned : List Task}
    (h : t.Move m m' (.go t' spawned)) (ht : t.Fixed n) (hinv : m.Inv)
    (hout : ∀ c, t.conn? = some c → 0 < m.handedOut c) :
    (∀ x, t'.marksHealthy = some x → m'.Seen x) ∧
      ∀ u ∈ spawned, ∀ x, u.marksHealthy = some x → m'.Seen x := by
  have hnil : ∀ u ∈ ([] : List Task), ∀ x, u.marksHealthy = some x → m'.Seen x :=
    fun u hu => by cases hu
  have hret {pool : ℕ} {conn : VkLdapPoolConnection} :
      ∀ u ∈ [Task.ret pool conn], ∀ x, u.marksHealthy = some x → m'.Seen x := by
    intro u hu x hx
    obtain rfl := List.mem_singleton.mp hu
    cases hx
  cases h with
  | ldapFailed => exact ⟨(fun _ hx => by cases hx), hret⟩
  | ldap => exact ⟨(fun _ hx => by cases hx), hret⟩
  | @put server pool conn res p hp =>
    refine ⟨fun x hx => ?_, hnil⟩
    obtain ⟨hpool, hconn⟩ := ht.2
    have hmem : conn ∈ p.out := mem_out_of_handedOut hp (hconn.trans hpool.symm) (hout _ rfl)
    have hseen : m.Seen (server.id, conn.fromEpoch) := by
      intro q hq
      obtain rfl : p = q := Option.some.inj (hp.symm.trans (hpool ▸ hq))
      exact ⟨((hinv _ p hp).outs conn hmem).2, live_of_out (hinv _ p hp) hmem⟩
    cases res with
    | error err => cases hx
    | ok time =>
      obtain rfl := Option.some.inj hx
      exact hseen.of_stamps
        (.setPool hp (Pool.returnConnection_stamp _ _) (Pool.returnConnection_key _ _))
  | @refreshReset server pool settings connect p hp =>
    refine ⟨fun x hx => ?_, hnil⟩
    cases hr : (p.refreshConnections settings connect).2 with
    | error err => rw [hr] at hx; cases hx
    | ok u =>
      rw [hr] at hx
      obtain rfl := Option.some.inj hx
      exact seen_reset (ht.2.1 ▸ hp) hr (by rw [ht.2.1])
  | _ => exact ⟨(fun _ hx => by cases hx), hnil⟩

theorem reportsFailure_refreshNext (rest : List VkLdapServer) :
    (Main.refreshNext rest).reportsFailure = none ∧ (Main.refreshNext rest).marksHealthy = none := by
  cases rest <;> exact ⟨rfl, rfl⟩

theorem Main.Move.agree {n : ℕ} {m m' : Mem} {main main' : Main} {spawned : List Task}
    {Q : ℕ → Prop} (h : main.Move m m' main' spawned) (hf : m.Fixed n) (hm : main.Fixed n)
    (hag : ∀ j, m.Healthy j → m.LiveAt j ∨ Q j ∨ main.reportsFailure = some j)
    (hmark : ∀ x, main.marksHealthy = some x → m.Seen x ∧ m.FreshMark Q x) {j : ℕ}
    (hj : m'.Healthy j) : m'.LiveAt j ∨ Q j ∨ main'.reportsFailure = some j := by
  -- a move that leaves the pools and reports no failure
  have hkeep (hh : m.Healthy j) (hpools : m'.pools = m.pools) (hr : main.reportsFailure = none) :
      m'.LiveAt j ∨ Q j ∨ main'.reportsFailure = some j := by
    unfold Mem.LiveAt
    rw [hpools]
    rcases hag j hh with hlive | hq | hrep
    · exact Or.inl hlive
    · exact Or.inr (Or.inl hq)
    · rw [hr] at hrep
      cases hrep
  cases h with
  | store => exact hkeep hj rfl rfl
  | read => exact hkeep hj rfl rfl
  | refreshLookup => exact hkeep hj rfl rfl
  | refreshLost => exact hkeep hj rfl rfl
  | @refreshReset server rest pool settings connect p hp =>
    rcases hag j hj with hlive | hq | hrep
    · rcases agree_reset hp settings connect hlive with hlive | ⟨hk, hr⟩
      · exact Or.inl hlive
      · refine Or.inr (Or.inr ?_)
        cases hres : (p.refreshConnections settings connect).2 with
        | ok u => rw [hres] at hr; cases hr
        | error err => exact congrArg some (hm.2.1.symm.trans hk)
    · exact Or.inr (Or.inl hq)
    · cases hrep
  | @refreshReport server rest res asOf =>
    have hid : server.id < n := hm.1 server List.mem_cons_self
    rcases healthy_updateServerStatus hj with ⟨rfl, hst⟩ | ⟨hne, hh⟩
    · cases res with
      | ok u =>
        obtain ⟨hseen, hfresh⟩ := hmark _ rfl
        exact (hfresh.agree hseen hf hid).imp id Or.inl
      | error err => exact absurd hst (statusOf_error (α := Unit) err)
    · rcases hag j hh with hlive | hq | hrep
      · exact Or.inl hlive
      · exact Or.inr (Or.inl hq)
      · cases res with
        | ok u => cases hrep
        | error err => exact absurd (Option.some.inj hrep) hne
  | _ => exact absurd hm id

theorem Main.Move.seen {n : ℕ} {m m' : Mem} {main main' : Main} {spawned : List Task}
    (h : main.Move m m' main' spawned) (hm : main.Fixed n) :
    (∀ x, m.Seen x → m'.Seen x) ∧ ∀ x, main'.marksHealthy = some x → m'.Seen x := by
  have hnone {x : ℕ × ℕ} {main : Main} (hn : main.marksHealthy = none)
      (hx : main.marksHealthy = some x) : m'.Seen x := by
    rw [hn] at hx
    cases hx
  cases h with
  | store => exact ⟨fun _ hx => hx, fun _ => hnone rfl⟩
  | read => exact ⟨fun _ hx => hx, fun _ => hnone (reportsFailure_refreshNext _).2⟩
  | refreshLookup => exact ⟨fun _ hx => hx, fun _ => hnone rfl⟩
  | refreshLost => exact ⟨fun _ hx => hx, fun _ => hnone rfl⟩
  | @refreshReset server rest pool settings connect p hp =>
    refine ⟨fun x hx => hx.reset hp _ _, fun x hx => ?_⟩
    cases hr : (p.refreshConnections settings connect).2 with
    | error err => rw [hr] at hx; cases hx
    | ok u =>
      rw [hr] at hx
      obtain rfl := Option.some.inj hx
      exact seen_reset (hm.2.1 ▸ hp) hr (by rw [hm.2.1])
  | refreshReport =>
    exact ⟨fun _ hx => hx, fun _ => hnone (reportsFailure_refreshNext _).2⟩
  | _ => exact absurd hm id

/-! ### Runs -/

/-- Somebody is about to write a failed refresh of the pool at `j`. -/
def State.FailurePending (s : State) (j : ℕ) : Prop :=
  (∃ t ∈ s.tasks, t.reportsFailure = some j) ∨ s.main.reportsFailure = some j

/-- The HEALTHY that the step writes, if it writes one. -/
def State.marksHealthy (s : State) : Act → Option (ℕ × ℕ)
  | .task i _ => s.tasks[i]?.bind Task.marksHealthy
  | .main _ => s.main.marksHealthy
  | _ => none

/-- A step that marks a server healthy saw that in the current epoch of its
pool, or the pool's last reset succeeded, or somebody is about to write that it
failed. -/
def FreshMark (s : State) (a : Act) : Prop :=
  ∀ x, s.marksHealthy a = some x → s.mem.FreshMark s.FailurePending x

/-- Healthy servers have a live pool, unless the failure of its last refresh is
about to be written. -/
structure State.Health (n : ℕ) (s : State) : Prop where
  fixed : s.Fixed n
  agree : ∀ j, s.mem.Healthy j → s.mem.LiveAt j ∨ s.FailurePending j
  seen : ∀ t ∈ s.tasks, ∀ x, t.marksHealthy = some x → s.mem.Seen x
  seenMain : ∀ x, s.main.marksHealthy = some x → s.mem.Seen x

/-- Somebody else than task `i` is about to write a failure. -/
def State.OthersPending (s : State) (i j : ℕ) : Prop :=
  (∃ k u, k ≠ i ∧ s.tasks[k]? = some u ∧ u.reportsFailure = some j) ∨
    s.main.reportsFailure = some j

theorem FailurePending.others {s : State} {i j : ℕ} {t : Task} (ht : s.tasks[i]? = some t)
    (h : s.FailurePending j) : t.reportsFailure = some j ∨ s.OthersPending i j := by
  rcases h with ⟨u, hu, hr⟩ | hmain
  · obtain ⟨k, hk⟩ := List.mem_iff_getElem?.mp hu
    by_cases hki : k = i
    · subst hki
      obtain rfl : t = u := Option.some.inj (ht.symm.trans hk)
      exact Or.inl hr
    · exact Or.inr (Or.inl ⟨k, u, hki, hk, hr⟩)
  · exact Or.inr (Or.inr hmain)

theorem OthersPending.pending {s : State} {i j : ℕ} {t' : Task} {l : List Task} {m' : Mem}
    (h : s.OthersPending i j) : State.FailurePending
      { s with mem := m', tasks := s.tasks.set i t' ++ l } j := by
  rcases h with ⟨k, u, hki, hk, hr⟩ | hmain
  · refine Or.inl ⟨u, List.mem_append_left _ ?_, hr⟩
    exact List.mem_of_getElem? (by rw [List.getElem?_set_ne (Ne.symm hki), hk])
  · exact Or.inr hmain

/-- A task about to write a failure has not finished. -/
theorem not_joined {tasks : List Task} {t : Task} {j : ℕ} (ht : t ∈ tasks)
    (hr : t.reportsFailure = some j) : joined tasks = false := by
  by_contra hjoined
  have := List.all_eq_true.mp (eq_true_of_ne_false hjoined) t ht
  unfold Task.reportsFailure at hr
  split at hr
  · cases this
  · cases hr

/-- What was seen stays seen, whoever steps. -/
theorem seen_mono {n : ℕ} {s s' : State} {a : Act} (hf : s.Fixed n) (h : s.step a = some s')
    {x : ℕ × ℕ} (hx : s.mem.Seen x) : s'.mem.Seen x := by
  rcases State.step_cases h with ⟨i, net, rfl⟩ | ⟨net, rfl⟩ | hother
  · obtain ⟨t, t', m', spawned, ht, hs, rfl⟩ := hf.step_task h
    exact hs.seen_keep (hf.tasks t (List.mem_of_getElem? ht)) hx
  · obtain ⟨m', main, spawned, hs, rfl⟩ := State.step_main h
    exact (hs.seen hf.main).1 x hx
  · cases hother <;> exact hx

/-- Whatever a task or the main thread is about to mark, it has seen. -/
theorem seen_step {n : ℕ} {s s' : State} {a : Act} (hf : s.Fixed n) (h : s.step a = some s')
    (h0 : ∀ t ∈ s.tasks, ∀ x, t.marksHealthy = some x → s.mem.Seen x)
    (hmain : ∀ x, s.main.marksHealthy = some x → s.mem.Seen x) :
    (∀ t ∈ s'.tasks, ∀ x, t.marksHealthy = some x → s'.mem.Seen x) ∧
      ∀ x, s'.main.marksHealthy = some x → s'.mem.Seen x := by
  constructor
  · refine State.forall_tasks_step
      (P := fun m t => ∀ x, t.marksHealthy = some x → m.Seen x) h h0
      (fun t _ ht x hx => seen_mono hf h (ht x hx)) ?_ ?_ (fun x hx => by cases hx)
      (fun e _ x hx => by cases hx)
    · intro i net t t' spawned _ ht hmove
      have hmem := List.mem_of_getElem? ht
      exact hmove.seen (hf.tasks t hmem) hf.custody.inv
        (hf.custody.handedOut hmem)
    · intro net spawned _ hmove u hu
      rw [(hmove.fixed hf.mem hf.main hf.linked.aligned.1).2.2] at hu
      cases hu
  · rcases State.step_cases h with ⟨i, net, rfl⟩ | ⟨net, rfl⟩ | hother
    · obtain ⟨t, t', m', spawned, -, -, rfl⟩ := hf.step_task h
      exact fun x hx => seen_mono hf h (hmain x hx)
    · obtain ⟨m', main, spawned, hs, rfl⟩ := State.step_main h
      exact (hs.seen hf.main).2
    · cases hother with
      | setServers => exact fun x hx => by cases hx
      | setConnectionSettings => exact fun x hx => by cases hx
      | _ => exact hmain

theorem health_task {n : ℕ} {s s' : State} {i : ℕ} {net : Net} (hh : s.Health n)
    (hmark : FreshMark s (.task i net)) (h : s.step (.task i net) = some s') {j : ℕ}
    (hj : s'.mem.Healthy j) : s'.mem.LiveAt j ∨ s'.FailurePending j := by
  obtain ⟨t, t', m', spawned, ht, hs, rfl⟩ := hh.fixed.step_task h
  have hmem := List.mem_of_getElem? ht
  have hagree := hs.agree (Q := s.OthersPending i) hh.fixed.mem (hh.fixed.tasks t hmem)
    (fun j hj => (hh.agree j hj).imp id (FailurePending.others ht))
    (fun x hx => ⟨hh.seen t hmem x hx, fun p hp => ?_⟩) hj
  · rcases hagree with hlive | hrep | hq
    · exact Or.inl hlive
    · have hi := (List.getElem?_eq_some_iff.mp ht).1
      exact Or.inr (Or.inl ⟨t', List.mem_append_left _ (List.mem_set hi t'), hrep⟩)
    · exact Or.inr (OthersPending.pending hq)
  · rcases hmark x (by simpa [State.marksHealthy, ht] using hx) p hp with he | hok | hpend
    · exact Or.inl he
    · exact Or.inr (Or.inl hok)
    · refine Or.inr (Or.inr ((FailurePending.others ht hpend).resolve_left fun hr => ?_))
      rw [marks_xor_reports hx] at hr
      cases hr

theorem health_main {n : ℕ} {s s' : State} {net : Net} (hh : s.Health n)
    (hmark : FreshMark s (.main net)) (h : s.step (.main net) = some s') {j : ℕ}
    (hj : s'.mem.Healthy j) : s'.mem.LiveAt j ∨ s'.FailurePending j := by
  obtain ⟨m', main, spawned, hs, rfl⟩ := State.step_main h
  obtain ⟨-, -, rfl⟩ := hs.fixed hh.fixed.mem hh.fixed.main hh.fixed.linked.aligned.1
  refine (hs.agree (Q := fun j => ∃ t ∈ s.tasks, t.reportsFailure = some j) hh.fixed.mem
    hh.fixed.main hh.agree (fun x hx => ⟨hh.seenMain x hx, fun p hp => ?_⟩) hj).imp id ?_
  · rcases hmark x hx p hp with he | hok | htask | hmain
    · exact Or.inl he
    · exact Or.inr (Or.inl hok)
    · exact Or.inr (Or.inr htask)
    · rw [main_marks_xor_reports hx] at hmain
      cases hmain
  · simp only [State.FailurePending, List.append_nil]
    exact id

/-- The other steps take no pending failure away. -/
theorem failurePending_other {s s' : State} {a : Act} (h : s.Other a s') {j : ℕ}
    (hp : s.FailurePending j) : s'.FailurePending j := by
  cases h with
  | submit => exact hp.imp (fun ⟨t, ht, hr⟩ => ⟨t, List.mem_append_left _ ht, hr⟩) id
  | iterate => exact hp.imp (fun ⟨t, ht, hr⟩ => ⟨t, List.mem_append_left _ ht, hr⟩) id
  | setServers hidle => exact hp.imp id fun hr => by rw [hidle] at hr; cases hr
  | setConnectionSettings hidle => exact hp.imp id fun hr => by rw [hidle] at hr; cases hr
  | deliver _ hjoined =>
    rcases hp with ⟨t, ht, hr⟩ | hmain
    · rw [not_joined ht hr] at hjoined
      cases hjoined
    · exact Or.inr hmain

theorem health_step {n : ℕ} {s s' : State} {a : Act} (hh : s.Health n) (hg : FixedList s a)
    (hmark : FreshMark s a) (h : s.step a = some s') : s'.Health n := by
  obtain ⟨hseen, hseenMain⟩ := seen_step hh.fixed h hh.seen hh.seenMain
  refine ⟨fixed_step hh.fixed hg h, fun j hj => ?_, hseen, hseenMain⟩
  rcases State.step_cases h with ⟨i, net, rfl⟩ | ⟨net, rfl⟩ | hother
  · exact health_task hh hmark h hj
  · exact health_main hh hmark h hj
  · have hmem := hother.mem_eq
    rw [hmem] at hj ⊢
    exact (hh.agree j hj).imp id (failurePending_other hother)

/-! ### The start -/

theorem openServer_live {n : ℕ} {server : VkLdapServer} {settings : VkConnectionSettings}
    {connect : ℕ → Result Unit}
    (h : (openServer n server settings connect).1.status = .healthy) :
    (openServer n server settings connect).2.Live := by
  have hstamp : (Pool.new n server settings connect).1.stamp.2 =
      ((Pool.new n server settings connect).2.toBool, false) :=
    congrArg Prod.snd (Pool.reset_stamp _ _ _)
  unfold openServer at h ⊢
  split at h
  · rename_i heq
    rw [heq] at hstamp
    exact Pool.live_iff_stamp.mpr hstamp
  · cases h

theorem agree_addServer {m : Mem} (hb : m.Booted)
    (h : ∀ j, m.Healthy j → m.LiveAt j) (url : Url) (connect : ℕ → Result Unit) :
    ∀ j, (m.addServer url connect).Healthy j → (m.addServer url connect).LiveAt j := by
  have hlive : ∀ st : (openServer m.pools.length (m.ctx.newServer url)
      m.ctx.connectionSettings connect).1.status = .healthy, _ := openServer_live
  unfold Mem.addServer
  generalize openServer m.pools.length (m.ctx.newServer url) m.ctx.connectionSettings connect = r
    at *
  obtain ⟨server, pool⟩ := r
  rintro j ⟨e, he, hst⟩
  simp only [Mem.listServer, VkLdapContext.addServer] at he
  rcases Nat.lt_or_ge j m.ctx.servers.length with hj | hj
  · rw [List.getElem?_append_left hj] at he
    obtain ⟨p, hp, hpl⟩ := h j ⟨e, he, hst⟩
    exact ⟨p, Mem.listServer_old hp server pool, hpl⟩
  · rw [List.getElem?_append_right hj] at he
    obtain ⟨h0, rfl⟩ : j - m.ctx.servers.length = 0 ∧ server = e := by
      rcases hk : j - m.ctx.servers.length with _ | k <;> simp_all
    have hj : j = m.pools.length := by
      have hcount := hb.fixed.count
      omega
    exact ⟨pool, hj ▸ Mem.listServer_new m server pool, hlive hst⟩

theorem agree_foldl (servers : List (Url × (ℕ → Result Unit))) :
    ∀ m : Mem, m.Booted → (∀ j, m.Healthy j → m.LiveAt j) →
      ∀ j, (servers.foldl (fun m x => m.addServer x.1 x.2) m).Healthy j →
        (servers.foldl (fun m x => m.addServer x.1 x.2) m).LiveAt j := by
  induction servers with
  | nil => exact fun _ _ h => h
  | cons x servers ih =>
    exact fun m hb h => ih _ (booted_addServer hb x.1 x.2) (agree_addServer hb h x.1 x.2)

theorem health_booted (ls : VkLdapSettings) (cs : VkConnectionSettings)
    (servers : List (Url × (ℕ → Result Unit))) (hs : 1 ≤ cs.connectionPoolSize) :
    (State.booted ls cs servers).Health (State.booted ls cs servers).mem.ctx.servers.length := by
  refine ⟨fixed_booted ls cs servers hs, fun j hj => Or.inl ?_, ?_, ?_⟩
  · refine agree_foldl servers _ (booted_init ls cs hs) ?_ j hj
    rintro k ⟨e, he, -⟩
    simp [State.init, VkLdapContext.new] at he
  · exact fun t ht => by simp [State.booted, State.init] at ht
  · exact fun x hx => by cases hx

/-! ### Health and pools agree -/

/-- Between a ping or a refresh and the status update that follows it. -/
def Task.Between : Task → Prop
  | .check _ (.giveBack _ _) => True
  | .check _ (.put _ _ _) => True
  | .check _ (.report _ _) => True
  | .check _ (.refresh (.report _ _)) => True
  | _ => False

def State.Quiet (s : State) : Prop :=
  (∀ t ∈ s.tasks, ¬ t.Between) ∧
    ∀ server res asOf rest, s.main ≠ .refreshing server (.report res asOf) rest

theorem not_pending_of_quiet {s : State} (h : s.Quiet) (j : ℕ) : ¬ s.FailurePending j := by
  rintro (⟨t, ht, hr⟩ | hr)
  · unfold Task.reportsFailure at hr
    split at hr
    · exact h.1 _ ht trivial
    · cases hr
  · unfold Main.reportsFailure at hr
    split at hr
    · exact h.2 _ _ _ _ ‹_›
    · cases hr

/-- A healthy server's pool: its last reset succeeded, and all its connections
are idle or checked out in the current epoch. -/
def State.HealthAgrees (s : State) : Prop :=
  ∀ (i : ℕ) (e : VkLdapServer), s.mem.ctx.servers[i]? = some e → e.status = .healthy →
    ∃ (k : ℕ) (p : Pool), s.mem.ctx.connPools[i]? = some k ∧ s.mem.pools[k]? = some p ∧
      p.resetOk = true ∧ p.idle + p.outNow = p.queue.size ∧ 0 < p.idle + p.outNow

theorem Health.agrees {n : ℕ} {s : State} (h : s.Health n) (hq : s.Quiet) : s.HealthAgrees := by
  intro i e he hst
  have hi := (List.getElem?_eq_some_iff.mp he).1
  rw [← h.fixed.linked.aligned.1.length, h.fixed.mem.table, List.length_range] at hi
  obtain ⟨p, hp, hlive⟩ := (h.agree i ⟨e, he, hst⟩).resolve_right (not_pending_of_quiet hq i)
  have hcount := (h.fixed.custody.inv i p hp).count
  have hsize := (h.fixed.mem.pools i p hp).2.1
  rw [if_pos hlive] at hcount
  refine ⟨i, p, ?_, hp, hlive.1, hcount, by omega⟩
  rw [h.fixed.mem.table]
  simp [hi]

/-- **Health status and pool state agree while no HEALTHY is stale.** In every
run over a fixed list in which no task marks a server healthy from before a
failed reset of its pool that nobody is about to report, a server that is
healthy has a live pool whenever no task is between a ping or a refresh and the
status update that follows it. -/
theorem health_agrees (ls : VkLdapSettings) (cs : VkConnectionSettings)
    (servers : List (Url × (ℕ → Result Unit))) (hs : 1 ≤ cs.connectionPoolSize)
    (tr : List (State × Act)) (t : State)
    (h : Run State.step (State.booted ls cs servers) tr t)
    (hfixed : Steps FixedList tr) (hmark : Steps FreshMark tr) (hq : t.Quiet) :
    t.HealthAgrees := by
  have hhealth := h.invariant (hfixed.and hmark) (health_booted ls cs servers hs)
    fun _ _ _ hh hg hstep => health_step hh hg.1 hg.2 hstep
  exact Health.agrees hhealth hq

/-- One server, with one connection to it. -/
def oneServer : State :=
  State.booted {} { connectionPoolSize := 1 } [("ldap://a", fun _ => .ok ())]

/-- A `CONFIG SET` of the servers or of what their connections depend on. -/
def Act.isConfigSet : Act → Bool
  | .setServers _ => true
  | .setConnectionSettings _ => true
  | _ => false

def wholeIteration : List Act := .iterate :: List.replicate 6 (.task 0 {}) ++ [.deliver]

/-- A whole iteration over a healthy server. -/
theorem health_agrees_iteration : ∃ tr t,
    Run State.step oneServer tr t ∧ t.detector = .sleeping ∧ tr.length = 8 ∧
      t.HealthAgrees := by
  obtain ⟨t, ht, hd, htasks, hmain⟩ : ∃ t, exec State.step oneServer wholeIteration = some t ∧
      t.detector = .sleeping ∧ t.tasks = [] ∧ t.main = .idle := ⟨_, rfl, rfl, rfl, rfl⟩
  -- every HEALTHY of this run was seen in the epoch its pool is in
  have hfresh : (trace State.step oneServer wholeIteration).all (fun x =>
      (x.1.marksHealthy x.2).all fun y =>
        x.1.mem.pools[y.1]?.all fun p => p.queue.epoch == y.2) = true := by decide +kernel
  have hacts : (trace State.step oneServer wholeIteration).all (fun x => !x.2.isConfigSet) = true := by
    decide +kernel
  refine ⟨_, t, exec_run ht, hd, rfl, health_agrees {} { connectionPoolSize := 1 } _
    (Nat.le_refl 1) _ t (exec_run ht) (fun x hx => ?_) (fun x hx y hy p hp => ?_) ⟨?_, ?_⟩⟩
  · have := List.all_eq_true.mp hacts x hx
    cases hx2 : x.2 with
    | setServers urls => rw [hx2] at this; cases this
    | setConnectionSettings settings => rw [hx2] at this; cases this
    | _ => trivial
  · have := List.all_eq_true.mp hfresh x hx
    rw [hy] at this
    simp only [Option.all_some, hp, beq_iff_eq] at this
    exact Or.inl this
  · rw [htasks]
    exact fun t ht => by cases ht
  · rw [hmain]
    exact fun _ _ _ _ h => by cases h

/-- A check of `ldap://a` has pinged it when a refresh of its pool fails; then
the check writes HEALTHY over the failure. -/
def pingThenFailedRefresh : List Act :=
  [.iterate, .task 0 {}, .task 0 {}, .task 0 {},
    .setConnectionSettings { connectionPoolSize := 1 }, .main {}, .main {}, .main {},
    .main { connect := fun _ => .error (.ldapConnectionError ⟨.other, "refused"⟩) }, .main {},
    .task 0 {}, .task 0 {}, .task 0 {}, .deliver]

theorem pingThenFailedRefresh_fixedList :
    Steps FixedList (trace State.step oneServer pingThenFailedRefresh) := by
  rintro ⟨s, a⟩ hx
  have ha : a ∈ pingThenFailedRefresh := mem_of_trace hx
  simp only [pingThenFailedRefresh, List.mem_cons, List.not_mem_nil, or_false] at ha
  rcases ha with rfl | rfl | rfl | rfl | rfl | rfl | rfl | rfl | rfl | rfl | rfl | rfl | rfl | rfl
  all_goals first | trivial | exact Nat.le_refl 1

/-- The server is left healthy with a pool that has no connection at all. -/
theorem healthy_with_dead_pool : ∃ tr t, Run State.step oneServer tr t ∧ Steps FixedList tr ∧
    t.Quiet ∧ t.tasks = [] ∧ ¬ t.HealthAgrees := by
  obtain ⟨t, ht, htasks, hmain, htable, ⟨e, he, hst⟩, p, hp, hdead⟩ :
      ∃ t, exec State.step oneServer pingThenFailedRefresh = some t ∧ t.tasks = [] ∧ t.main = .idle ∧
        t.mem.ctx.connPools[0]? = some 0 ∧
        (∃ e, t.mem.ctx.servers[0]? = some e ∧ e.status = .healthy) ∧
        ∃ p, t.mem.pools[0]? = some p ∧ p.idle + p.outNow = 0 :=
    ⟨_, rfl, rfl, rfl, rfl, ⟨_, rfl, rfl⟩, _, rfl, rfl⟩
  refine ⟨_, t, exec_run ht, pingThenFailedRefresh_fixedList, ⟨?_, ?_⟩, htasks, fun hagree => ?_⟩
  · rw [htasks]
    exact fun t ht => by cases ht
  · rw [hmain]
    exact fun _ _ _ _ h => by cases h
  · obtain ⟨k, q, hk, hq, -, -, hpos⟩ := hagree 0 e he hst
    obtain rfl : 0 = k := Option.some.inj (htable.symm.trans hk)
    obtain rfl : p = q := Option.some.inj (hp.symm.trans hq)
    omega

end System
end ValkeyLdap
