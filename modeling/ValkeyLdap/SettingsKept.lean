/-
# Connection settings are not lost

`CONFIG SET` stores the new settings, then has every pool of the list reset
with them. A check that refreshes the pool of an unhealthy server reads the
settings under the context lock and resets the pool later, so it can put old
settings back after the main thread has been there. `settings_kept`: without
such a reset, what a healthy server's pool holds was opened with the settings
stored.

Key theorems: `Pool.openedWith_refreshConnections`, `Main.Move.kept`,
`kept_step`, `settings_kept`, `old_settings_return`.
-/
import ValkeyLdap.Health

namespace ValkeyLdap

/-! ### What a pool's connections were opened with -/

/-- One of the attempts a reset makes fails. -/
def VkConnectionSettings.Refused (settings : VkConnectionSettings)
    (connect : ℕ → Result Unit) : Prop :=
  ∃ k < settings.connectionPoolSize, (connect k).toBool = false

theorem ConnectionQueue.openConnections_refused (server : VkLdapServer)
    (settings : VkConnectionSettings) (connect : ℕ → Result Unit) :
    ∀ (n k : ℕ) (q : ConnectionQueue) (j : Journal),
      (openConnections server settings connect n k q j).2.2.toBool = false ↔
        ∃ i, k ≤ i ∧ i < k + n ∧ (connect i).toBool = false
  | 0, k, _, _ => by
    constructor
    · intro h
      cases h
    · rintro ⟨i, h1, h2, -⟩
      omega
  | n + 1, k, q, j => by
    unfold openConnections
    split
    · rename_i hk
      rw [openConnections_refused server settings connect n (k + 1)]
      constructor
      · rintro ⟨i, h1, h2, h⟩
        exact ⟨i, by omega, by omega, h⟩
      · rintro ⟨i, h1, h2, h⟩
        have hne : i ≠ k := fun he => by rw [he, hk] at h; cases h
        exact ⟨i, by omega, by omega, h⟩
    · rename_i err hk
      exact ⟨fun _ => ⟨k, Nat.le_refl k, by omega, by rw [hk]; rfl⟩, fun _ => rfl⟩

namespace Pool

variable {p : Pool} {settings : VkConnectionSettings}

/-- The connections queued, and those that will be queued when they come back,
were opened with these settings; the size is theirs. -/
structure OpenedWith (p : Pool) (settings : VkConnectionSettings) : Prop where
  queued : ∀ c ∈ p.queue.queue, c.settings = settings
  outs : ∀ c ∈ p.out, c.fromEpoch = p.queue.epoch → c.conn.settings = settings
  size : p.queue.size = settings.connectionPoolSize

theorem openedWith_reset (h : ∀ c ∈ p.out, c.fromEpoch ≤ p.queue.epoch)
    (settings : VkConnectionSettings) (connect : ℕ → Result Unit) :
    (p.reset settings connect).1.OpenedWith settings := by
  rw [reset_eq]
  refine ⟨resetLoop_forall p settings connect (·.settings = settings) fun _ => rfl,
    fun c hc he => ?_, resetLoop_size p settings connect⟩
  -- what is out was handed out in an earlier epoch
  have hle := h c hc
  rw [resetLoop_epoch] at he
  omega

theorem openedWith_refreshConnections (h : p.Inv) (settings : VkConnectionSettings)
    (connect : ℕ → Result Unit) : (p.refreshConnections settings connect).1.OpenedWith settings := by
  rw [refreshConnections_fst]
  obtain ⟨h1, h2, h3⟩ := openedWith_reset (fun c hc => (h.outs c hc).2) settings connect
  exact ⟨h1, h2, h3⟩

theorem refreshConnections_refused (p : Pool) (settings : VkConnectionSettings)
    (connect : ℕ → Result Unit) :
    (p.refreshConnections settings connect).2.toBool = false ↔ settings.Refused connect := by
  rw [refreshConnections_snd, reset_eq]
  refine (ConnectionQueue.openConnections_refused _ _ _ _ _ _ _).trans ?_
  unfold VkConnectionSettings.Refused
  constructor
  · rintro ⟨k, -, hk, hfail⟩
    exact ⟨k, by omega, hfail⟩
  · rintro ⟨k, hk, hfail⟩
    exact ⟨k, Nat.zero_le k, by omega, hfail⟩

theorem OpenedWith.takeConnection {c : VkLdapPoolConnection} {q : Pool}
    (h : p.OpenedWith settings) (ht : p.takeConnection = some (c, q)) : q.OpenedWith settings := by
  obtain ⟨hq, -, -, heq⟩ := takeConnection_eq ht
  rw [heq]
  refine ⟨fun x hx => h.queued x (hq ▸ List.mem_append_left _ hx), fun x hx he => ?_, h.size⟩
  rcases List.mem_cons.mp hx with rfl | hx
  · exact h.queued _ (hq ▸ by simp)
  · exact h.outs x hx he

theorem OpenedWith.returnConnection {c : VkLdapPoolConnection} (h : p.OpenedWith settings)
    (hc : c ∈ p.out) : (p.returnConnection c).OpenedWith settings := by
  have houts : ∀ x ∈ p.out.erase c, x.fromEpoch = p.queue.epoch → x.conn.settings = settings :=
    fun x hx => h.outs x (List.mem_of_mem_erase hx)
  unfold Pool.returnConnection
  simp only
  split
  · rename_i he
    refine ⟨fun x hx => ?_, houts, h.size⟩
    rcases List.mem_cons.mp hx with rfl | hx
    · exact h.outs c hc he.symm
    · exact h.queued x hx
  · exact ⟨h.queued, houts, h.size⟩

/-- A dead pool has no connection that could have been opened otherwise. -/
theorem openedWith_of_dead (h : p.Inv) (hdead : ¬ p.Live)
    (hs : p.queue.size = settings.connectionPoolSize) : p.OpenedWith settings := by
  have hcount := h.count
  rw [if_neg hdead] at hcount
  have hidle : p.queue.queue.length = 0 := by unfold idle at hcount; omega
  have hout : p.out.countP (·.fromEpoch = p.queue.epoch) = 0 := by unfold outNow at hcount; omega
  refine ⟨fun c hc => ?_, fun c hc he => ?_, hs⟩
  · rw [List.length_eq_zero_iff.mp hidle] at hc
    cases hc
  · exact absurd (decide_eq_true he) (List.countP_eq_zero.mp hout c hc)

end Pool

namespace System

open Runs

/-! ### Current settings, and those still to come -/

/-- Pool `j` works with the settings stored. -/
def Mem.Current (m : Mem) (j : ℕ) : Prop :=
  ∀ p, m.pools[j]? = some p → p.OpenedWith m.ctx.connectionSettings

/-- The main thread has still to reset the pool of position `j`, with the
settings stored then. -/
def Main.WillReset (j : ℕ) : Main → Prop
  | .storing _ => True
  | .reading => True
  | .refreshing _ (.report _ _) rest => j ∈ rest.map (·.id)
  | .refreshing server _ rest => j ∈ (server :: rest).map (·.id)
  | _ => False

/-- The main thread refreshes with the settings stored: nobody else stores any. -/
def Main.Resets (m : Mem) : Main → Prop
  | .refreshing _ (.reset _ settings) _ => settings = m.ctx.connectionSettings
  | _ => True

/-- The pool that a check is about to reset, and the settings it has read. -/
def Task.reset? : Task → Option (ℕ × VkConnectionSettings)
  | .check _ (.refresh (.reset pool settings)) => some (pool, settings)
  | _ => none

theorem Mem.Current.of_same {m m' : Mem} {j : ℕ} (h : m.Current j) (hp : m'.pools = m.pools)
    (hs : m'.ctx.connectionSettings = m.ctx.connectionSettings) : m'.Current j := by
  unfold Mem.Current
  rw [hp, hs]
  exact h

theorem Mem.Current.setPool {m : Mem} {j k : ℕ} {p : Pool} (h : m.Current j)
    (hp : k = j → p.OpenedWith m.ctx.connectionSettings) : (m.setPool k p).Current j := by
  intro q hq
  rcases Mem.setPool_cases hq with ⟨hk, rfl⟩ | ⟨-, hq⟩
  · exact hp hk
  · exact h q hq

/-- A pool reset with the settings stored. -/
theorem current_reset {m : Mem} {k : ℕ} {p : Pool} (hinv : p.Inv)
    {settings : VkConnectionSettings} (hs : settings = m.ctx.connectionSettings)
    (connect : ℕ → Result Unit) :
    (m.setPool k (p.refreshConnections settings connect).1).Current k := by
  intro q hq
  obtain rfl := Mem.setPool_eq hq
  subst hs
  exact Pool.openedWith_refreshConnections hinv _ connect

theorem Mem.Current.updateServerStatus {m : Mem} {j : ℕ} (h : m.Current j)
    (server : VkLdapServer) (status : VkLdapServerStatus) (pingTime : Option Duration) :
    (m.updateServerStatus server status pingTime).Current j := by
  unfold Mem.updateServerStatus
  rw [VkLdapContext.updateServerStatus_eq]
  exact h.of_same rfl rfl

/-- A task that resets no pool keeps what is current. -/
theorem Task.Move.current {n : ℕ} {m m' : Mem} {t : Task} {next : Next Task} {j : ℕ}
    (h : t.Move m m' next) (ht : t.Fixed n) (hown : t.Own m) (hreset : t.reset? = none)
    (hout : ∀ c, t.conn? = some c → 0 < m.handedOut c) (hc : m.Current j) : m'.Current j := by
  cases h with
  | take hp _ htake => exact hc.setPool fun hk => (hc _ (hk ▸ hp)).takeConnection htake
  | checkTake hp _ htake => exact hc.setPool fun hk => (hc _ (hk ▸ hp)).takeConnection htake
  | put hp =>
    exact hc.setPool fun hk => (hc _ (hk ▸ hp)).returnConnection
      (mem_out_of_handedOut hp (ht.2.2.trans ht.2.1.symm) (hout _ rfl))
  | ret hp =>
    exact hc.setPool fun hk => (hc _ (hk ▸ hp)).returnConnection
      (mem_out_of_handedOut hp hown.1 (hout _ rfl))
  | fail => exact hc.updateServerStatus _ _ _
  | report => exact hc.updateServerStatus _ _ _
  | reportConnect => exact hc.updateServerStatus _ _ _
  | refreshReport => exact hc.updateServerStatus _ _ _
  | refreshReset => cases hreset
  | shutdownDone => exact absurd ht id
  | shutdown => exact absurd ht id
  | shutdownWait => exact absurd ht id
  | _ => exact hc

theorem willReset_refreshNext {j : ℕ} {rest : List VkLdapServer} (h : j ∈ rest.map (·.id)) :
    (Main.refreshNext rest).WillReset j := by
  cases rest with
  | nil => cases h
  | cons server rest => exact h

/-- The main thread's moves keep a pool current or still to be reset. -/
theorem Main.Move.kept {n : ℕ} {m m' : Mem} {main main' : Main} {spawned : List Task} {j : ℕ}
    (h : main.Move m m' main' spawned) (hf : m.Fixed n) (hm : main.Fixed n) (ha : Aligned m)
    (hinv : m.Inv) (hr : main.Resets m) (hk : m.Current j ∨ main.WillReset j) :
    m'.Current j ∨ main'.WillReset j := by
  cases h with
  | store => exact Or.inr trivial
  | read =>
    rcases hp : m.pools[j]? with _ | p
    · exact Or.inl fun q hq => by rw [hp] at hq; cases hq
    · -- every pool's server is in the list that is read
      have hj : j < m.ctx.servers.length := by
        have hlt := (List.getElem?_eq_some_iff.mp hp).1
        rw [hf.count] at hlt
        rw [← ha.length, hf.table, List.length_range]
        exact hlt
      refine Or.inr (willReset_refreshNext (List.mem_map.mpr ⟨_, List.getElem_mem hj, ?_⟩))
      exact (ha.entry j _ (List.getElem?_eq_getElem hj)).1
  | refreshLookup => exact hk
  | @refreshReset server rest pool settings connect p hp =>
    obtain ⟨hpool, -⟩ := hm.2
    by_cases hj : pool = j
    · exact Or.inl (hj ▸ current_reset (hinv pool p hp) hr connect)
    · rcases hk with hc | hw
      · exact Or.inl (hc.setPool fun h => absurd h hj)
      · rcases List.mem_cons.mp hw with he | hrest
        · exact absurd (hpool.trans he.symm) hj
        · exact Or.inr hrest
  | refreshReport =>
    rcases hk with hc | hw
    · exact Or.inl (hc.updateServerStatus _ _ _)
    · exact Or.inr (willReset_refreshNext hw)
  | refreshLost hn => exact absurd hn (hf.found (hm.1 _ List.mem_cons_self))
  | _ => exact absurd hm id

theorem Main.Resets.of_settings {m m' : Mem} {main : Main} (h : main.Resets m)
    (hs : m'.ctx.connectionSettings = m.ctx.connectionSettings) : main.Resets m' := by
  unfold Main.Resets
  rw [hs]
  exact h

/-- Tasks do not change the settings stored. -/
theorem Task.Move.connectionSettings {m m' : Mem} {t : Task} {next : Next Task}
    (h : t.Move m m' next) : m'.ctx.connectionSettings = m.ctx.connectionSettings := by
  have hupdate (server : VkLdapServer) (status : VkLdapServerStatus) (ping : Option Duration) :
      (m.updateServerStatus server status ping).ctx.connectionSettings =
        m.ctx.connectionSettings := by
    unfold Mem.updateServerStatus
    rw [VkLdapContext.updateServerStatus_eq]
  cases h with
  | fail => exact hupdate _ _ _
  | report => exact hupdate _ _ _
  | reportConnect => exact hupdate _ _ _
  | refreshReport => exact hupdate _ _ _
  | _ => rfl

/-- What is live after a move of the main thread was live before, or it has
just been reset. -/
theorem Main.Move.live_or_current {n : ℕ} {m m' : Mem} {main main' : Main} {spawned : List Task}
    {j : ℕ} (h : main.Move m m' main' spawned) (hm : main.Fixed n) (hinv : m.Inv)
    (hr : main.Resets m) (hl : m'.LiveAt j) : m.LiveAt j ∨ m'.Current j := by
  cases h with
  | @refreshReset server rest pool settings connect p hp =>
    by_cases hj : pool = j
    · exact Or.inr (hj ▸ current_reset (hinv pool p hp) hr connect)
    · obtain ⟨q, hq, hlive⟩ := hl
      exact Or.inl ⟨q, (Mem.setPool_ne hj _).symm.trans hq, hlive⟩
  | list => exact absurd hm id
  | _ => exact Or.inl hl

theorem Main.Move.resets {m m' : Mem} {main main' : Main} {spawned : List Task}
    (h : main.Move m m' main' spawned) : main'.Resets m' := by
  have hnext (m : Mem) (rest : List VkLdapServer) : (Main.refreshNext rest).Resets m := by
    cases rest <;> trivial
  cases h with
  | read => exact hnext _ _
  | refreshReport => exact hnext _ _
  | refreshLookup => rfl
  | _ => trivial

/-! ### Runs -/

/-- A check resets a pool with the settings stored, or the main thread has
still to reset that pool, or an attempt to connect fails. -/
def FreshReset (s : State) : Act → Prop
  | .task i net => ∀ x, s.tasks[i]?.bind Task.reset? = some x →
      x.2 = s.mem.ctx.connectionSettings ∨ s.main.WillReset x.1 ∨ x.2.Refused net.connect
  | _ => True

/-- A step that marks a server healthy saw that in the current epoch of its
pool, or the pool's last reset succeeded or had the size stored, or somebody is
about to write that it failed or to reset it. -/
def SizedMark (s : State) (a : Act) : Prop :=
  ∀ x, s.marksHealthy a = some x → ∀ p, s.mem.pools[x.1]? = some p →
    p.queue.epoch = x.2 ∨ p.resetOk = true ∨ s.FailurePending x.1 ∨
      p.queue.size = s.mem.ctx.connectionSettings.connectionPoolSize ∨ s.main.WillReset x.1

/-- A pool that has connections, and one whose server is healthy, works with
the settings stored or will be reset with them. -/
structure State.Kept (n : ℕ) (s : State) : Prop where
  fixed : s.Fixed n
  seen : ∀ t ∈ s.tasks, ∀ x, t.marksHealthy = some x → s.mem.Seen x
  seenMain : ∀ x, s.main.marksHealthy = some x → s.mem.Seen x
  resets : s.main.Resets s.mem
  live : ∀ j, s.mem.LiveAt j → s.mem.Current j ∨ s.main.WillReset j
  healthy : ∀ j, s.mem.Healthy j →
    s.mem.LiveAt j ∨ s.FailurePending j ∨ s.mem.Current j ∨ s.main.WillReset j

/-- The pool that a step marks healthy is live or kept, or its failure is
about to be written by another. -/
theorem SizedMark.fresh {n : ℕ} {s : State} {a : Act} {x : ℕ × ℕ} (hk : s.Kept n)
    (h : SizedMark s a) (hx : s.marksHealthy a = some x) :
    s.mem.FreshMark (fun j => s.FailurePending j ∨ s.mem.Current j ∨ s.main.WillReset j) x := by
  intro p hp
  rcases h x hx p hp with he | hok | hpend | hsize | hwill
  · exact Or.inl he
  · exact Or.inr (Or.inl hok)
  · exact Or.inr (Or.inr (Or.inl hpend))
  · refine Or.inr (Or.inr (Or.inr ?_))
    by_cases hlive : p.Live
    · exact hk.live x.1 ⟨p, hp, hlive⟩
    · refine Or.inl fun q hq => ?_
      obtain rfl : p = q := Option.some.inj (hp.symm.trans hq)
      exact Pool.openedWith_of_dead (hk.fixed.custody.inv _ p hp) hlive hsize
  · exact Or.inr (Or.inr (Or.inr (Or.inr hwill)))

theorem Task.reset?_eq {t : Task} {x : ℕ × VkConnectionSettings} (h : t.reset? = some x) :
    ∃ server, t = .check server (.refresh (.reset x.1 x.2)) := by
  unfold Task.reset? at h
  split at h
  · obtain rfl := Option.some.inj h
    exact ⟨_, rfl⟩
  · cases h

/-- The step of a check that resets its pool, attempt by attempt. -/
theorem State.step_reset {s s' : State} {i : ℕ} {net : Net} {server : VkLdapServer} {pool : ℕ}
    {settings : VkConnectionSettings}
    (ht : s.tasks[i]? = some (.check server (.refresh (.reset pool settings))))
    (h : s.step (.task i net) = some s') :
    ∃ p, s.mem.pools[pool]? = some p ∧ s' = { s with
      mem := s.mem.setPool pool (p.refreshConnections settings net.connect).1
      tasks := s.tasks.set i (.check server (.refresh (.report
        (p.refreshConnections settings net.connect).2
        (p.refreshConnections settings net.connect).1.queue.epoch))) } := by
  simp only [State.step, ht, Task.step, Check.step, Refresh.step] at h
  cases hp : s.mem.pools[pool]? with
  | none => simp [hp] at h
  | some p =>
    simp only [hp, Option.some.injEq, List.append_nil] at h
    exact ⟨p, rfl, h.symm⟩

theorem liveAt_of_same {m m' : Mem} {j : ℕ} (hs : m.SameStamps m') (h : m'.LiveAt j) :
    m.LiveAt j := by
  obtain ⟨p', hp', hlive⟩ := h
  obtain ⟨p, hp, hstamp, -⟩ := hs j p' hp'
  exact ⟨p, hp, by rw [Pool.live_iff_stamp, ← hstamp, ← Pool.live_iff_stamp]; exact hlive⟩

/-- A check resets pool `k`: the pool it leaves is current, or will be reset,
or this check is about to write that the reset failed. -/
theorem kept_reset {n : ℕ} {s s' : State} {i : ℕ} {net : Net} {server : VkLdapServer} {k : ℕ}
    {settings : VkConnectionSettings} (hk : s.Kept n) (hreset : FreshReset s (.task i net))
    (ht : s.tasks[i]? = some (.check server (.refresh (.reset k settings))))
    (h : s.step (.task i net) = some s') :
    (∀ j, s'.mem.LiveAt j → s'.mem.Current j ∨ s'.main.WillReset j) ∧
      ∀ j, s'.mem.Healthy j →
        s'.mem.LiveAt j ∨ s'.FailurePending j ∨ s'.mem.Current j ∨ s'.main.WillReset j := by
  have hi := (List.getElem?_eq_some_iff.mp ht).1
  have hpool : k = server.id := (hk.fixed.tasks _ (List.mem_of_getElem? ht)).2.1
  have hset := hreset (k, settings) (by rw [ht]; rfl)
  obtain ⟨p, hp, rfl⟩ := State.step_reset ht h
  have hinv := hk.fixed.custody.inv k p hp
  have hother (j : ℕ) (hj : k ≠ j) (hkept : s.mem.Current j ∨ s.main.WillReset j) :
      (s.mem.setPool k (p.refreshConnections settings net.connect).1).Current j ∨
        s.main.WillReset j :=
    hkept.imp (fun hc => hc.setPool fun h => absurd h hj) id
  have hlive (j : ℕ) (hj : k ≠ j)
      (hl : (s.mem.setPool k (p.refreshConnections settings net.connect).1).LiveAt j) :
      s.mem.LiveAt j := by
    obtain ⟨q, hq, hq'⟩ := hl
    exact ⟨q, (Mem.setPool_ne hj _).symm.trans hq, hq'⟩
  constructor
  · intro j hl
    by_cases hj : k = j
    · subst hj
      rcases hset with hcur | hw | href
      · exact Or.inl (current_reset hinv hcur net.connect)
      · exact Or.inr hw
      · -- a pool left live had all its connections opened
        obtain ⟨q, hq, hq'⟩ := hl
        obtain rfl := Mem.setPool_eq hq
        rw [Pool.live_iff_stamp, Pool.refreshConnections_stamp,
          (Pool.refreshConnections_refused p _ _).mpr href] at hq'
        cases hq'
    · exact hother j hj (hk.live j (hlive j hj hl))
  · intro j hh
    by_cases hj : k = j
    · subst hj
      cases hres : (p.refreshConnections settings net.connect).2 with
      | ok u =>
        refine Or.inl ⟨_, Mem.setPool_self hp _, refreshConnections_live p settings net.connect ?_⟩
        rw [hres]
        rfl
      | error err =>
        refine Or.inr (Or.inl (Or.inl ⟨_, List.mem_set hi _, ?_⟩))
        exact congrArg some hpool.symm
    · rcases hk.healthy j hh with ⟨q, hq, hq'⟩ | hpend | hkept
      · exact Or.inl ⟨q, (Mem.setPool_ne hj _).trans hq, hq'⟩
      · refine Or.inr (Or.inl ?_)
        rcases FailurePending.others ht hpend with hr | ho
        · cases hr
        · simpa using OthersPending.pending (l := []) ho
      · exact Or.inr (Or.inr (hother j hj hkept))

theorem kept_task {n : ℕ} {s s' : State} {i : ℕ} {net : Net} (hk : s.Kept n)
    (hreset : FreshReset s (.task i net)) (hmark : SizedMark s (.task i net))
    (h : s.step (.task i net) = some s') :
    (∀ j, s'.mem.LiveAt j → s'.mem.Current j ∨ s'.main.WillReset j) ∧
      ∀ j, s'.mem.Healthy j →
        s'.mem.LiveAt j ∨ s'.FailurePending j ∨ s'.mem.Current j ∨ s'.main.WillReset j := by
  obtain ⟨t, t', m', spawned, ht, hs, rfl⟩ := hk.fixed.step_task h
  have hmem := List.mem_of_getElem? ht
  have hfix := hk.fixed.tasks t hmem
  rcases hr : t.reset? with _ | x
  · have hkeep (j : ℕ) (hkept : s.mem.Current j ∨ s.main.WillReset j) :
        m'.Current j ∨ s.main.WillReset j :=
      hkept.imp (hs.current hfix (hk.fixed.custody.own.tasks t hmem) hr
        (hk.fixed.custody.handedOut hmem)) id
    have hstamps : s.mem.SameStamps m' :=
      hs.stamps (fun _ _ _ he => by rw [he] at hr; cases hr) fun _ _ he => by rw [he] at hfix; exact hfix
    refine ⟨fun j hl => hkeep j (hk.live j (liveAt_of_same hstamps hl)), fun j hj => ?_⟩
    have hagree := hs.agree
      (Q := fun j => s.OthersPending i j ∨ m'.Current j ∨ s.main.WillReset j) hk.fixed.mem hfix
      (fun j hj => ?_) (fun x hx => ⟨hk.seen t hmem x hx, fun p hp => ?_⟩) hj
    · rcases hagree with hlive | hrep | ho | hkept
      · exact Or.inl hlive
      · have hi := (List.getElem?_eq_some_iff.mp ht).1
        exact Or.inr (Or.inl (Or.inl ⟨t', List.mem_append_left _ (List.mem_set hi t'), hrep⟩))
      · exact Or.inr (Or.inl (OthersPending.pending ho))
      · exact Or.inr (Or.inr hkept)
    · rcases hk.healthy j hj with hlive | hpend | hkept
      · exact Or.inl hlive
      · exact Or.inr ((FailurePending.others ht hpend).imp id Or.inl)
      · exact Or.inr (Or.inr (Or.inr (hkeep j hkept)))
    · have hmarks : s.marksHealthy (.task i net) = some x := by simpa [State.marksHealthy, ht] using hx
      rcases hmark.fresh hk hmarks p hp with he | hok | hpend | hkept
      · exact Or.inl he
      · exact Or.inr (Or.inl hok)
      · refine Or.inr (Or.inr (Or.inl ((FailurePending.others ht hpend).resolve_left fun hf => ?_)))
        rw [marks_xor_reports hx] at hf
        cases hf
      · exact Or.inr (Or.inr (Or.inr (hkeep x.1 hkept)))
  · obtain ⟨server, rfl⟩ := Task.reset?_eq hr
    exact kept_reset hk hreset ht h

theorem kept_main {n : ℕ} {s s' : State} {net : Net} (hk : s.Kept n)
    (hmark : SizedMark s (.main net)) (h : s.step (.main net) = some s') :
    (∀ j, s'.mem.LiveAt j → s'.mem.Current j ∨ s'.main.WillReset j) ∧
      ∀ j, s'.mem.Healthy j →
        s'.mem.LiveAt j ∨ s'.FailurePending j ∨ s'.mem.Current j ∨ s'.main.WillReset j := by
  obtain ⟨m', main, spawned, hs, rfl⟩ := State.step_main h
  obtain ⟨-, -, rfl⟩ := hs.fixed hk.fixed.mem hk.fixed.main hk.fixed.linked.aligned.1
  have hkeep (j : ℕ) : s.mem.Current j ∨ s.main.WillReset j → m'.Current j ∨ main.WillReset j :=
    hs.kept hk.fixed.mem hk.fixed.main hk.fixed.linked.aligned.1 hk.fixed.custody.inv hk.resets
  constructor
  · intro j hl
    rcases hs.live_or_current hk.fixed.main hk.fixed.custody.inv hk.resets hl with hl | hc
    · exact hkeep j (hk.live j hl)
    · exact Or.inl hc
  · intro j hj
    have hagree := hs.agree
      (Q := fun j => (∃ t ∈ s.tasks, t.reportsFailure = some j) ∨ m'.Current j ∨ main.WillReset j)
      hk.fixed.mem hk.fixed.main (fun j hj => ?_) (fun x hx => ⟨hk.seenMain x hx, fun p hp => ?_⟩) hj
    · simp only [State.FailurePending, List.append_nil]
      rcases hagree with hlive | (htask | hkept) | hrep
      · exact Or.inl hlive
      · exact Or.inr (Or.inl (Or.inl htask))
      · exact Or.inr (Or.inr hkept)
      · exact Or.inr (Or.inl (Or.inr hrep))
    · rcases hk.healthy j hj with hlive | (htask | hmain) | hkept
      · exact Or.inl hlive
      · exact Or.inr (Or.inl (Or.inl htask))
      · exact Or.inr (Or.inr hmain)
      · exact Or.inr (Or.inl (Or.inr (hkeep j hkept)))
    · rcases hmark.fresh hk hx p hp with he | hok | (htask | hmain) | hkept
      · exact Or.inl he
      · exact Or.inr (Or.inl hok)
      · exact Or.inr (Or.inr (Or.inl htask))
      · rw [main_marks_xor_reports hx] at hmain
        cases hmain
      · exact Or.inr (Or.inr (Or.inr (hkeep x.1 hkept)))

theorem kept_step {n : ℕ} {s s' : State} {a : Act} (hk : s.Kept n) (hg : FixedList s a)
    (hreset : FreshReset s a) (hmark : SizedMark s a) (h : s.step a = some s') : s'.Kept n := by
  obtain ⟨hseen, hseenMain⟩ := seen_step hk.fixed h hk.seen hk.seenMain
  have hfixed : s'.Fixed n := fixed_step hk.fixed hg h
  rcases State.step_cases h with ⟨i, net, rfl⟩ | ⟨net, rfl⟩ | hother
  · obtain ⟨hlive, hhealthy⟩ := kept_task hk hreset hmark h
    refine ⟨hfixed, hseen, hseenMain, ?_, hlive, hhealthy⟩
    obtain ⟨t, t', m', spawned, -, hs, rfl⟩ := hk.fixed.step_task h
    exact hk.resets.of_settings hs.connectionSettings
  · obtain ⟨hlive, hhealthy⟩ := kept_main hk hmark h
    refine ⟨hfixed, hseen, hseenMain, ?_, hlive, hhealthy⟩
    obtain ⟨m', main, spawned, hs, rfl⟩ := State.step_main h
    exact hs.resets
  · have hmem := hother.mem_eq
    have hwill {j : ℕ} (hw : s.main.WillReset j) : s'.main.WillReset j := by
      cases hother with
      | setServers => exact absurd hg id
      | setConnectionSettings => trivial
      | _ => exact hw
    refine ⟨hfixed, hseen, hseenMain, ?_, fun j hj => ?_, fun j hj => ?_⟩
    · rw [hmem]
      cases hother with
      | setServers => trivial
      | setConnectionSettings => trivial
      | _ => exact hk.resets
    · rw [hmem] at hj ⊢
      exact (hk.live j hj).imp id hwill
    · rw [hmem] at hj ⊢
      rcases hk.healthy j hj with hl | hpend | hc | hw
      · exact Or.inl hl
      · exact Or.inr (Or.inl (failurePending_other hother hpend))
      · exact Or.inr (Or.inr (Or.inl hc))
      · exact Or.inr (Or.inr (Or.inr (hwill hw)))

/-! ### The start -/

theorem openServer_openedWith (n : ℕ) (server : VkLdapServer) (settings : VkConnectionSettings)
    (connect : ℕ → Result Unit) : (openServer n server settings connect).2.OpenedWith settings := by
  rw [openServer_snd]
  exact Pool.openedWith_reset (fun c hc => by cases hc) settings connect

theorem current_addServer {m : Mem} (h : ∀ j, m.Current j) (url : Url)
    (connect : ℕ → Result Unit) : ∀ j, (m.addServer url connect).Current j := by
  have hopened := openServer_openedWith m.pools.length (m.ctx.newServer url)
    m.ctx.connectionSettings connect
  intro j q hq
  rcases Mem.listServer_cases hq with hq | ⟨-, rfl⟩
  · exact h j q hq
  · exact hopened

theorem current_foldl (servers : List (Url × (ℕ → Result Unit))) :
    ∀ m : Mem, (∀ j, m.Current j) →
      ∀ j, (servers.foldl (fun m x => m.addServer x.1 x.2) m).Current j := by
  induction servers with
  | nil => exact fun _ h => h
  | cons x servers ih => exact fun m h => ih _ (current_addServer h x.1 x.2)

theorem kept_booted (ls : VkLdapSettings) (cs : VkConnectionSettings)
    (servers : List (Url × (ℕ → Result Unit))) (hs : 1 ≤ cs.connectionPoolSize) :
    (State.booted ls cs servers).Kept (State.booted ls cs servers).mem.ctx.servers.length := by
  have hcurrent : ∀ j, (State.booted ls cs servers).mem.Current j :=
    current_foldl servers _ fun j p hp => by simp [State.init] at hp
  exact ⟨fixed_booted ls cs servers hs, fun t ht => by simp [State.booted, State.init] at ht,
    fun x hx => (by cases hx), trivial, fun j _ => Or.inl (hcurrent j),
    fun j _ => Or.inr (Or.inr (Or.inl (hcurrent j)))⟩

/-! ### Settings are kept -/

/-- Neither a `CONFIG SET` of connection settings nor a check is refreshing
pools. -/
def State.NoRefresh (s : State) : Prop :=
  s.main = .idle ∧ ∀ server r, .check server (.refresh r) ∉ s.tasks

/-- What a healthy server's pool holds, and will hold again, was opened with
the settings stored, and its size is theirs. -/
def State.SettingsKept (s : State) : Prop :=
  ∀ (i : ℕ) (e : VkLdapServer), s.mem.ctx.servers[i]? = some e → e.status = .healthy →
    ∃ (k : ℕ) (p : Pool), s.mem.ctx.connPools[i]? = some k ∧ s.mem.pools[k]? = some p ∧
      (∀ c ∈ p.queue.queue, c.settings = s.mem.ctx.connectionSettings) ∧
      (∀ c ∈ p.out, c.fromEpoch = p.queue.epoch →
        c.conn.settings = s.mem.ctx.connectionSettings) ∧
      p.queue.size = s.mem.ctx.connectionSettings.connectionPoolSize

theorem Kept.settingsKept {n : ℕ} {s : State} (hk : s.Kept n) (hq : s.NoRefresh) :
    s.SettingsKept := by
  have hwill (j : ℕ) : ¬ s.main.WillReset j := by
    rw [hq.1]
    exact id
  have hpend (j : ℕ) : ¬ s.FailurePending j := by
    rintro (⟨t, ht, hr⟩ | hr)
    · unfold Task.reportsFailure at hr
      split at hr
      · exact hq.2 _ _ ht
      · cases hr
    · rw [hq.1] at hr
      cases hr
  intro i e he hst
  have hi : i < n := by
    have hlt := (List.getElem?_eq_some_iff.mp he).1
    rw [← hk.fixed.linked.aligned.1.length, hk.fixed.mem.table, List.length_range] at hlt
    exact hlt
  have hcurrent : s.mem.Current i := by
    rcases hk.healthy i ⟨e, he, hst⟩ with hl | hp | hc | hw
    · exact (hk.live i hl).resolve_right (hwill i)
    · exact absurd hp (hpend i)
    · exact hc
    · exact absurd hw (hwill i)
  have hp := List.getElem?_eq_getElem (hk.fixed.mem.count ▸ hi : i < s.mem.pools.length)
  obtain ⟨h1, h2, h3⟩ := hcurrent _ hp
  refine ⟨i, _, ?_, hp, h1, h2, h3⟩
  rw [hk.fixed.mem.table]
  simp [hi]

/-- **Settings are kept while no check puts old ones back.** In every run over
a fixed list in which each reset that a check makes with other settings than
those stored fails or will be redone by the main thread, and each step that
marks a server healthy speaks of a pool that is up, of the size stored or about
to be reset or reported: when no refresh is in progress, the pool of a healthy
server holds connections opened with the settings stored, as many as they say. -/
theorem settings_kept (ls : VkLdapSettings) (cs : VkConnectionSettings)
    (servers : List (Url × (ℕ → Result Unit))) (hs : 1 ≤ cs.connectionPoolSize)
    (tr : List (State × Act)) (t : State)
    (h : Run State.step (State.booted ls cs servers) tr t) (hfixed : Steps FixedList tr)
    (hreset : Steps FreshReset tr) (hmark : Steps SizedMark tr) (hq : t.NoRefresh) :
    t.SettingsKept := by
  have hkept := h.invariant ((hfixed.and hreset).and hmark) (kept_booted ls cs servers hs)
    fun _ _ _ hk hg hstep => kept_step hk hg.1.1 hg.1.2 hg.2 hstep
  exact Kept.settingsKept hkept hq

/-- A server whose first attempt to connect was refused. -/
def oneUnhealthy : State :=
  State.booted {} { connectionPoolSize := 1 }
    [("ldap://a", fun _ => .error (.ldapConnectionError ⟨.other, "refused"⟩))]

/-- StartTLS is switched on, then a check finds the server up and refreshes its
pool. -/
def startTlsThenCheck : List Act :=
  [.setConnectionSettings { useStarttls := true, connectionPoolSize := 1 }, .main {}, .main {},
    .main {}, .main { connect := fun _ => .error (.ldapConnectionError ⟨.other, "refused"⟩) },
    .main {}, .iterate, .task 0 {}, .task 0 {}, .task 0 {}, .task 0 {}, .task 0 {}, .task 0 {},
    .deliver]

theorem settings_kept_startTls : ∃ tr t, Run State.step oneUnhealthy tr t ∧ tr.length = 14 ∧
    t.mem.ctx.connectionSettings.useStarttls = true ∧ t.SettingsKept := by
  obtain ⟨t, ht, htasks, hmain, htls⟩ : ∃ t,
      exec State.step oneUnhealthy startTlsThenCheck = some t ∧ t.tasks = [] ∧ t.main = .idle ∧
        t.mem.ctx.connectionSettings.useStarttls = true := ⟨_, rfl, rfl, rfl, rfl⟩
  have hreset : (trace State.step oneUnhealthy startTlsThenCheck).all (fun x =>
      x.1.tasks.all fun u => u.reset?.all fun y =>
        y.2 == x.1.mem.ctx.connectionSettings) = true := by decide +kernel
  have hmark : (trace State.step oneUnhealthy startTlsThenCheck).all (fun x =>
      (x.1.marksHealthy x.2).all fun y => x.1.mem.pools[y.1]?.all fun p => p.resetOk) = true := by
    decide +kernel
  refine ⟨_, t, exec_run ht, rfl, htls, settings_kept {} { connectionPoolSize := 1 } _
    (Nat.le_refl 1) _ t (exec_run ht) ?_ ?_ (fun x hx y hy p hp => ?_) ⟨hmain, ?_⟩⟩
  · rintro ⟨s, a⟩ hx
    have ha : a ∈ startTlsThenCheck := mem_of_trace hx
    simp only [startTlsThenCheck, List.mem_cons, List.not_mem_nil, or_false] at ha
    rcases ha with rfl | rfl | rfl | rfl | rfl | rfl | rfl | rfl | rfl | rfl | rfl | rfl | rfl | rfl
    all_goals first | trivial | exact Nat.le_refl 1
  · rintro ⟨s, a⟩ hx
    cases a with
    | task i net =>
      intro y hy
      obtain ⟨u, hu, hy⟩ := Option.bind_eq_some_iff.mp hy
      have := List.all_eq_true.mp (List.all_eq_true.mp hreset _ hx) u (List.mem_of_getElem? hu)
      rw [hy] at this
      exact Or.inl (by simpa using this)
    | _ => trivial
  · have := List.all_eq_true.mp hmark x hx
    rw [hy] at this
    simp only [Option.all_some, hp] at this
    exact Or.inr (Or.inl this)
  · rw [htasks]
    exact fun _ _ h => by cases h

/-- A check has read the settings when StartTLS is switched on and the main
thread resets the pool; then the check resets it with what it has read. -/
def checkAcrossStartTls : List Act :=
  [.iterate, .task 0 {}, .task 0 {}, .task 0 {}, .task 0 {},
    .setConnectionSettings { useStarttls := true, connectionPoolSize := 1 }, .main {}, .main {},
    .main {}, .main {}, .main {}, .task 0 {}, .task 0 {}, .deliver]

/-- The healthy server is left with a connection opened without StartTLS. -/
theorem old_settings_return : ∃ tr t, Run State.step oneUnhealthy tr t ∧ Steps FixedList tr ∧
    t.NoRefresh ∧ t.tasks = [] ∧ t.mem.ctx.connectionSettings.useStarttls = true ∧
    ¬ t.SettingsKept := by
  obtain ⟨t, ht, htasks, hmain, htls, htable, ⟨e, he, hst⟩, p, c, hp, hc, hplain⟩ : ∃ t,
      exec State.step oneUnhealthy checkAcrossStartTls = some t ∧ t.tasks = [] ∧ t.main = .idle ∧
        t.mem.ctx.connectionSettings.useStarttls = true ∧ t.mem.ctx.connPools[0]? = some 0 ∧
        (∃ e, t.mem.ctx.servers[0]? = some e ∧ e.status = .healthy) ∧
        ∃ p c, t.mem.pools[0]? = some p ∧ c ∈ p.queue.queue ∧ c.settings.useStarttls = false :=
    ⟨_, rfl, rfl, rfl, rfl, rfl, ⟨_, rfl, rfl⟩, _, _, rfl, List.mem_singleton.mpr rfl, rfl⟩
  refine ⟨_, t, exec_run ht, ?_, ⟨hmain, ?_⟩, htasks, htls, fun hkept => ?_⟩
  · rintro ⟨s, a⟩ hx
    have ha : a ∈ checkAcrossStartTls := mem_of_trace hx
    simp only [checkAcrossStartTls, List.mem_cons, List.not_mem_nil, or_false] at ha
    rcases ha with rfl | rfl | rfl | rfl | rfl | rfl | rfl | rfl | rfl | rfl | rfl | rfl | rfl | rfl
    all_goals first | trivial | exact Nat.le_refl 1
  · rw [htasks]
    exact fun _ _ h => by cases h
  · obtain ⟨k, q, hk, hq, hqueued, -⟩ := hkept 0 e he hst
    obtain rfl : 0 = k := Option.some.inj (htable.symm.trans hk)
    obtain rfl : p = q := Option.some.inj (hp.symm.trans hq)
    rw [hqueued c hc, htls] at hplain
    cases hplain

end System
end ValkeyLdap
