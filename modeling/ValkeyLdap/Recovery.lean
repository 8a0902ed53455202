/-
# Recovering through a fresh pool

A check goes by the status its server had when the iteration began: it pings
a healthy server on a connection of the pool, and connects anew to an
unhealthy one and refreshes its pool if that answers. Either way it then
marks the server healthy. A refresh so reported is one since the server
became unhealthy, since an unhealthy server is left to its check. But an
operation may lose its connection and mark the server unhealthy while the
check of a healthy one is under way, and what the ping said before is written
over that: the server is healthy again with the connections it was declared
unhealthy with. `recovers_through_fresh_pool`: that is the only way.

Key theorems: `CheckKnows.step`, `watched_step`, `recoversFresh_iff`,
`newer_step`, `recovers_through_fresh_pool`, `healthy_without_refresh`.
-/
import Mathlib.Data.List.Range
import ValkeyLdap.Waiting

namespace ValkeyLdap
namespace System
namespace Recovery

open Runs

/-! ### Falls, refreshes and recoveries -/

def Unhealthy (j : ℕ) (s : State) : Prop :=
  ∃ e, s.mem.ctx.servers[j]? = some e ∧ e.isHealthy = false

/-- Of logins and checks alone: nobody changes the list or a setting. -/
def NoConfigSet (_ : State) (a : Act) : Prop := a.isConfigSet = false

/-- The step refreshes the pool of server `j`, successfully. -/
def Refreshes (j : ℕ) (s : State) : Act → Prop
  | .task i net => ∃ k settings p, s.mem.ctx.connPools[j]? = some k ∧
      s.tasks[i]?.bind Task.reset? = some (k, settings) ∧ s.mem.pools[k]? = some p ∧
      (p.refreshConnections settings net.connect).2 = .ok ()
  | _ => False

/-- A server that the step makes healthy has had its pool refreshed while it
was unhealthy. -/
def RecoversFresh (tr : List (State × Act)) (s : State) (a : Act) : Prop :=
  ∀ j s', Unhealthy j s → s.step a = some s' → s'.mem.Healthy j →
    Since (Unhealthy j) (Refreshes j) tr

/-- Server `j` has become unhealthy with the last step. -/
def JustFell (j : ℕ) (tr : List (State × Act)) (s : State) : Prop :=
  Unhealthy j s ∧ ∀ x, tr.getLast? = some x → ¬ Unhealthy j x.1

/-- The connection is the pool's, idle or checked out. -/
def Includes (p : Pool) (c : VkLdapConnection) : Prop :=
  c ∈ p.queue.queue ∨ ∃ d ∈ p.out, d.conn = c

/-- The connection that the step takes out, and of which pool. -/
def handsOut (s : State) : Act → Option (ℕ × VkLdapPoolConnection)
  | .task i _ =>
    match s.tasks[i]?.bind Task.takes? with
    | none => none
    | some (pool, seen) =>
      match s.mem.takeConnection pool seen with
      | some (_, .inl conn) => some (pool, conn)
      | _ => none
  | _ => none

/-- What a healthy server's pool hands out was not in it when the server
became unhealthy, however long ago. -/
def ServesFresh (tr : List (State × Act)) (s : State) (a : Act) : Prop :=
  ∀ j k c, s.mem.Healthy j → s.mem.ctx.connPools[j]? = some k → handsOut s a = some (k, c) →
    StepsAfter (fun pre t _ => JustFell j pre t →
      ∀ p, t.mem.pools[k]? = some p → ¬ Includes p c.conn) tr

/-- The server of which the step writes that a ping succeeded. -/
def reportsPing (s : State) : Act → Option ℕ
  | .task i _ =>
    match s.tasks[i]? with
    | some (.check server (.report (.ok _) _)) => some server.id
    | _ => none
  | _ => none

/-- A check that is about to write that its ping succeeded finds the server
healthy, still or again. -/
def PingStands (s : State) (a : Act) : Prop := ∀ j, reportsPing s a = some j → s.mem.Healthy j

theorem unhealthy_iff {j : ℕ} {s : State} :
    Unhealthy j s ↔ j < s.mem.ctx.servers.length ∧ ¬ s.mem.Healthy j := by
  constructor
  · rintro ⟨e, he, hst⟩
    refine ⟨(List.getElem?_eq_some_iff.mp he).1, ?_⟩
    rintro ⟨e', he', hst'⟩
    obtain rfl : e = e' := Option.some.inj (he.symm.trans he')
    rw [(e.isHealthy_iff).mpr hst'] at hst
    cases hst
  · rintro ⟨hlt, hno⟩
    have he := List.getElem?_eq_getElem hlt
    refine ⟨_, he, ?_⟩
    by_contra hne
    exact hno ⟨_, he, (VkLdapServer.isHealthy_iff _).mp (eq_true_of_ne_false hne)⟩

/-- Who makes a server healthy, marks it. -/
theorem healthy_move {m m' : Mem} {t : Task} {next : Next Task} (h : t.Move m m' next) {j : ℕ}
    (hj : m'.Healthy j) : m.Healthy j ∨ ∃ asOf, t.marksHealthy = some (j, asOf) := by
  have hkeep (hctx : m'.ctx = m.ctx) : m.Healthy j ∨ ∃ asOf, t.marksHealthy = some (j, asOf) := by
    refine Or.inl ?_
    unfold Mem.Healthy at hj ⊢
    rwa [hctx] at hj
  cases h with
  | fail =>
    rcases healthy_updateServerStatus hj with ⟨-, hst⟩ | ⟨-, hh⟩
    · cases hst
    · exact Or.inl hh
  | reportConnect =>
    rcases healthy_updateServerStatus hj with ⟨-, hst⟩ | ⟨-, hh⟩
    · cases hst
    · exact Or.inl hh
  | @report server res asOf =>
    rcases healthy_updateServerStatus hj with ⟨rfl, hst⟩ | ⟨-, hh⟩
    · cases res with
      | ok time => exact Or.inr ⟨asOf, rfl⟩
      | error err => exact absurd hst (statusOf_error err)
    · exact Or.inl hh
  | @refreshReport server res asOf =>
    rcases healthy_updateServerStatus hj with ⟨rfl, hst⟩ | ⟨-, hh⟩
    · cases res with
      | ok u => exact Or.inr ⟨asOf, rfl⟩
      | error err => exact absurd hst (statusOf_error (α := Unit) err)
    · exact Or.inl hh
  | _ => exact hkeep rfl

/-! ### What a check relies on -/

/-- What a check knows of its server: one that found it healthy, that there has
been no refresh since it fell, if it has fallen; one that found it unhealthy,
that it still is, and what came of the refresh. `down` says that the server is
unhealthy, `fresh` that its pool has been refreshed since it fell. -/
def CheckKnows (healthy : Bool) (down fresh : Prop) : Check → Prop
  | .start => if healthy then ¬ (down ∧ fresh) else down
  | .take _ _ => ¬ (down ∧ fresh)
  | .ping _ => ¬ (down ∧ fresh)
  | .giveBack _ _ => ¬ (down ∧ fresh)
  | .put _ _ _ => ¬ (down ∧ fresh)
  | .report _ _ => ¬ (down ∧ fresh)
  | .connect _ => down
  | .pingNew => down
  | .reportConnect _ => down
  | .refresh (.report (.ok _) _) => down ∧ fresh
  | .refresh _ => down
  | .done => True

/-- Another's step, which neither refreshes the pool nor ends the unhealthiness. -/
theorem CheckKnows.keep {healthy : Bool} {down down' fresh fresh' : Prop} {pc : Check}
    (h : CheckKnows healthy down fresh pc) (hdown : down → down')
    (hfresh : fresh' ↔ down ∧ fresh) : CheckKnows healthy down' fresh' pc := by
  have hnot (hn : ¬ (down ∧ fresh)) : ¬ (down' ∧ fresh') := fun hf => hn (hfresh.mp hf.2)
  have hboth (hb : down ∧ fresh) : down' ∧ fresh' := ⟨hdown hb.1, hfresh.mpr hb⟩
  cases pc with
  | start =>
    cases healthy with
    | true => exact hnot h
    | false => exact hdown h
  | refresh r =>
    cases r with
    | report res asOf =>
      cases res with
      | ok u => exact hboth h
      | error err => exact hdown h
    | _ => exact hdown h
  | take pool seen => exact hnot h
  | ping conn => exact hnot h
  | giveBack conn res => exact hnot h
  | put pool conn res => exact hnot h
  | report res asOf => exact hnot h
  | connect settings => exact hdown h
  | pingNew => exact hdown h
  | reportConnect err => exact hdown h
  | done => trivial

/-- A check's own step that is no refresh. -/
theorem CheckKnows.step {m m' : Mem} {server : VkLdapServer} {pc : Check} {t' : Task}
    {spawned : List Task} {down down' fresh fresh' : Prop}
    (h : (Task.check server pc).Move m m' (.go t' spawned))
    (hreset : ∀ pool settings, pc ≠ .refresh (.reset pool settings))
    (hk : CheckKnows server.isHealthy down fresh pc)
    (hdown : m'.ctx = m.ctx → down → down') (hfresh : fresh' ↔ down ∧ fresh) :
    ∃ pc', t' = .check server pc' ∧ spawned = [] ∧
      CheckKnows server.isHealthy down' fresh' pc' := by
  have hnot (hn : ¬ (down ∧ fresh)) : ¬ (down' ∧ fresh') := fun hf => hn (hfresh.mp hf.2)
  have hstart : pc = .start → if server.isHealthy then ¬ (down ∧ fresh) else down := by
    rintro rfl
    exact hk
  cases h with
  | checkFind hh =>
    have hnone := hstart rfl
    rw [if_pos hh] at hnone
    exact ⟨_, rfl, rfl, hnot hnone⟩
  | checkConnect hh =>
    have hstill := hstart rfl
    rw [if_neg (by rw [hh]; exact Bool.false_ne_true)] at hstill
    exact ⟨_, rfl, rfl, hdown rfl hstill⟩
  | checkTake => exact ⟨_, rfl, rfl, hnot hk⟩
  | checkWait => exact ⟨_, rfl, rfl, hnot hk⟩
  | ping => exact ⟨_, rfl, rfl, hnot hk⟩
  | giveBack => exact ⟨_, rfl, rfl, hnot hk⟩
  | put => exact ⟨_, rfl, rfl, hnot hk⟩
  | report => exact ⟨_, rfl, rfl, trivial⟩
  | connected => exact ⟨_, rfl, rfl, hdown rfl hk⟩
  | connectFailed => exact ⟨_, rfl, rfl, hdown rfl hk⟩
  | pinged => exact ⟨_, rfl, rfl, hdown rfl hk⟩
  | pingFailed => exact ⟨_, rfl, rfl, trivial⟩
  | reportConnect => exact ⟨_, rfl, rfl, trivial⟩
  | refreshLookup => exact ⟨_, rfl, rfl, hdown rfl hk⟩
  | refreshReset => exact absurd rfl (hreset _ _)
  | refreshReport => exact ⟨_, rfl, rfl, trivial⟩

/-! ### One check of a server at a time -/

/-- The server a task checks. -/
def checked : Task → Option ℕ
  | .check server _ => some server.id
  | _ => none

def Knows (tr : List (State × Act)) (s : State) : Task → Prop
  | .check server pc => CheckKnows server.isHealthy (Unhealthy server.id s)
      (Since (Unhealthy server.id) (Refreshes server.id) tr) pc
  | _ => True

/-- Logins and checks over a fixed list: the main thread is idle, no server
has two checks, and between two iterations there is none. -/
structure Watched (n : ℕ) (tr : List (State × Act)) (s : State) : Prop where
  fixed : s.Fixed n
  idle : s.main = .idle
  once : (s.tasks.filterMap checked).Nodup
  asleep : s.detector = .sleeping → s.tasks.filterMap checked = []
  knows : ∀ t ∈ s.tasks, Knows tr s t

theorem Watched.not_main {n : ℕ} {tr : List (State × Act)} {s s' : State} {net : Net}
    (hw : Watched n tr s) (h : s.step (.main net) = some s') : False := by
  simp only [State.step, hw.idle, Main.step] at h
  cases h

theorem fixedList_of_noConfigSet {s : State} {a : Act} (h : NoConfigSet s a) : FixedList s a := by
  cases a with
  | setServers urls => cases h
  | setConnectionSettings settings => cases h
  | _ => trivial

/-- The tasks of a step, as far as they are checks. -/
theorem checked_move {m m' : Mem} {t t' : Task} {spawned : List Task}
    (h : t.Move m m' (.go t' spawned)) :
    checked t' = checked t ∧ spawned.filterMap checked = [] := by
  cases h <;> exact ⟨rfl, rfl⟩

theorem checked_go {tasks spawned : List Task} {i : ℕ} {t t' : Task} (ht : tasks[i]? = some t)
    (h : checked t' = checked t) (hspawned : spawned.filterMap checked = []) :
    ((tasks.set i t' ++ spawned).filterMap checked).Perm (tasks.filterMap checked) := by
  have hperm := filterMap_set_perm checked t' ht
  rw [h] at hperm
  rw [List.filterMap_append, hspawned, List.append_nil]
  exact (List.perm_append_right_iff _).mp hperm

/-- Two tasks that check the same server are one. -/
theorem checked_inj {tasks : List Task} (h : (tasks.filterMap checked).Nodup) {i k j : ℕ}
    {t u : Task} (ht : tasks[i]? = some t) (hu : tasks[k]? = some u) (hti : checked t = some j)
    (huk : checked u = some j) : i = k := by
  obtain ⟨hi, rfl⟩ := List.getElem?_eq_some_iff.mp ht
  obtain ⟨hk, rfl⟩ := List.getElem?_eq_some_iff.mp hu
  have hpair := List.pairwise_iff_getElem.mp (List.pairwise_filterMap.mp h)
  rcases Nat.lt_trichotomy i k with hlt | heq | hlt
  · exact absurd rfl (hpair i k hi hk hlt j hti j huk)
  · exact heq
  · exact absurd rfl (hpair k i hk hi hlt j huk j hti)

/-- An iteration checks every server once. -/
theorem checked_iterate {m : Mem} (h : Aligned m) :
    (m.ctx.servers.map (Task.check · .start)).filterMap checked =
      List.range m.ctx.servers.length := by
  rw [List.filterMap_map]
  refine List.ext_getElem? fun i => ?_
  rw [show checked ∘ (Task.check · Check.start) = fun e : VkLdapServer => some e.id from rfl,
    List.filterMap_eq_map', List.getElem?_map]
  cases he : m.ctx.servers[i]? with
  | none =>
    have hle := List.getElem?_eq_none_iff.mp he
    rw [List.getElem?_eq_none_iff.mpr (by simpa using hle)]
    rfl
  | some e =>
    have hlt := (List.getElem?_eq_some_iff.mp he).1
    rw [List.getElem?_range hlt, Option.map_some, (h.entry i e he).1]

theorem checked_deliver (tasks : List Task) :
    (tasks.filter (!·.isCheck)).filterMap checked = [] := by
  refine List.filterMap_eq_nil_iff.mpr fun t ht => ?_
  have hno := (List.mem_filter.mp ht).2
  cases t with
  | check server pc => cases hno
  | _ => rfl

/-! ### A step of logins and checks -/

section
variable {n i j : ℕ} {tr : List (State × Act)} {s s' : State} {net : Net} {t t' : Task}

theorem checked_of_marks {asOf : ℕ} (h : t.marksHealthy = some (j, asOf)) :
    checked t = some j := by
  unfold Task.marksHealthy at h
  split at h
  · exact congrArg some (congrArg Prod.fst (Option.some.inj h))
  · exact congrArg some (congrArg Prod.fst (Option.some.inj h))
  · cases h

/-- Over a fixed list the pool is refreshed by a check of its server. -/
theorem checked_of_refreshes (hf : s.Fixed n) (ht : s.tasks[i]? = some t)
    (h : Refreshes j s (.task i net)) : checked t = some j := by
  obtain ⟨k, settings, p, hk, hreset, -, -⟩ := h
  obtain rfl := hf.mem.lookup hk
  rw [ht] at hreset
  obtain ⟨server, rfl⟩ := Task.reset?_eq hreset
  have hpool := (hf.tasks _ (List.mem_of_getElem? ht)).2.1
  exact congrArg some hpool.symm

theorem unhealthy_move {next : Next Task} (h : t.Move s.mem s'.mem next)
    (hno : ∀ asOf, t.marksHealthy ≠ some (j, asOf)) (hj : Unhealthy j s) : Unhealthy j s' := by
  obtain ⟨hlt, hdown⟩ := unhealthy_iff.mp hj
  refine unhealthy_iff.mpr ⟨?_, fun hup => ?_⟩
  · rw [h.shape.length]
    exact hlt
  · rcases healthy_move h hup with hh | ⟨asOf, hmark⟩
    · exact hdown hh
    · exact hno asOf hmark

theorem since_step {a : Act} (h : ¬ Refreshes j s a) :
    Since (Unhealthy j) (Refreshes j) (tr ++ [(s, a)]) ↔
      Unhealthy j s ∧ Since (Unhealthy j) (Refreshes j) tr := by
  rw [since_snoc]
  exact and_congr_right fun _ => or_iff_right h

theorem knows_of_not_checked (h : checked t = none) : Knows tr s t := by
  cases t with
  | check server pc => cases h
  | _ => trivial

/-- Who checks another server learns nothing from the step. -/
theorem knows_keep {a : Act} (h : Knows tr s t)
    (hdown : ∀ j, checked t = some j → Unhealthy j s → Unhealthy j s')
    (hno : ∀ j, checked t = some j → ¬ Refreshes j s a) : Knows (tr ++ [(s, a)]) s' t := by
  cases t with
  | check server pc => exact CheckKnows.keep h (hdown _ rfl) (since_step (hno _ rfl))
  | _ => trivial

/-- The check whose step it is. -/
theorem knows_own (hw : Watched n tr s) (h : s.step (.task i net) = some s')
    (hi : s'.tasks[i]? = some t') : Knows (tr ++ [(s, .task i net)]) s' t' := by
  obtain ⟨t, u, m', spawned, ht, hmove, hs'⟩ := hw.fixed.step_task h
  have hknows := hw.knows t (List.mem_of_getElem? ht)
  have hlt := (List.getElem?_eq_some_iff.mp ht).1
  obtain rfl : u = t' := by
    rw [hs', List.getElem?_append_left (by simpa using hlt), List.getElem?_set_self hlt] at hi
    exact Option.some.inj hi
  cases t with
  | check server pc =>
    by_cases hreset : ∃ pool settings, pc = .refresh (.reset pool settings)
    · obtain ⟨pool, settings, rfl⟩ := hreset
      have hid : pool = server.id := (hw.fixed.tasks _ (List.mem_of_getElem? ht)).2.1
      obtain ⟨p, hp, hreport⟩ := State.step_reset ht h
      have hdown : Unhealthy server.id s' := by
        rw [hreport]
        exact hknows
      rw [hreport] at hi
      obtain rfl := Option.some.inj ((List.getElem?_set_self hlt).symm.trans hi)
      cases hres : (p.refreshConnections settings net.connect).2 with
      | error err => exact hdown
      | ok done =>
        have hlookup : s.mem.ctx.connPools[server.id]? = some server.id := by
          rw [hw.fixed.mem.table]
          simp [(hw.fixed.tasks _ (List.mem_of_getElem? ht)).1]
        refine ⟨hdown, since_snoc.mpr ⟨hknows, Or.inl ?_⟩⟩
        exact ⟨server.id, settings, p, hlookup, by rw [ht, ← hid]; rfl, hid ▸ hp, hres⟩
    · have hother (pool : ℕ) (settings : VkConnectionSettings) :
          pc ≠ .refresh (.reset pool settings) := fun hpc => hreset ⟨pool, settings, hpc⟩
      have hno : ¬ Refreshes server.id s (.task i net) := by
        rintro ⟨k, settings, p, -, hr, -, -⟩
        rw [ht] at hr
        obtain ⟨server', heq⟩ := Task.reset?_eq hr
        exact hother _ _ (Task.check.inj heq).2
      have hdown : m'.ctx = s.mem.ctx → Unhealthy server.id s → Unhealthy server.id s' := by
        intro hctx hj
        unfold Unhealthy
        rw [hs', hctx]
        exact hj
      obtain ⟨pc', rfl, -, hgo⟩ := CheckKnows.step hmove hother hknows hdown (since_step hno)
      exact hgo
  | _ => exact knows_of_not_checked (checked_move hmove).1

theorem watched_task (hw : Watched n tr s) (hg : NoConfigSet s (.task i net))
    (h : s.step (.task i net) = some s') : Watched n (tr ++ [(s, .task i net)]) s' := by
  have hfixed := fixed_step hw.fixed (fixedList_of_noConfigSet hg) h
  have hown (v : Task) (hv : s'.tasks[i]? = some v) : Knows (tr ++ [(s, .task i net)]) s' v :=
    knows_own hw h hv
  obtain ⟨t, u, m', spawned, ht, hmove, rfl⟩ := hw.fixed.step_task h
  obtain ⟨hsame, hspawned⟩ := checked_move hmove
  have hperm := checked_go ht hsame hspawned
  refine ⟨hfixed, hw.idle, hperm.nodup_iff.mpr hw.once, fun hs => ?_, fun v hv => ?_⟩
  · have hnil := hw.asleep hs
    rw [hnil] at hperm
    exact hperm.eq_nil
  · rcases List.mem_append.mp hv with hv | hv
    · obtain ⟨k, hk⟩ := List.mem_iff_getElem?.mp hv
      by_cases hki : k = i
      · subst hki
        refine hown v ?_
        rw [List.getElem?_append_left (List.getElem?_eq_some_iff.mp hk).1]
        exact hk
      · rw [List.getElem?_set_ne (Ne.symm hki)] at hk
        -- the step is of a check of another server, or of no check at all
        have hne (j : ℕ) (hj : checked v = some j) : checked t ≠ some j :=
          fun htj => hki (checked_inj hw.once hk ht hj htj)
        refine knows_keep (hw.knows v (List.mem_of_getElem? hk)) (fun j hj => ?_) fun j hj => ?_
        · exact unhealthy_move hmove fun asOf hmark => hne j hj (checked_of_marks hmark)
        · exact fun hr => hne j hj (checked_of_refreshes hw.fixed ht hr)
    · exact knows_of_not_checked (List.filterMap_eq_nil_iff.mp hspawned v hv)

theorem watched_other {a : Act} (hw : Watched n tr s) (hg : NoConfigSet s a)
    (h : s.step a = some s') (hother : s.Other a s') : Watched n (tr ++ [(s, a)]) s' := by
  have hfixed := fixed_step hw.fixed (fixedList_of_noConfigSet hg) h
  have haligned := hw.fixed.linked.aligned.1
  have hno (j : ℕ) : ¬ Refreshes j s a := by
    cases hother <;> exact id
  have hmem := hother.mem_eq
  have hkeep (t : Task) (ht : t ∈ s.tasks) : Knows (tr ++ [(s, a)]) s' t := by
    refine knows_keep (hw.knows t ht) (fun j _ hj => ?_) fun j _ => hno j
    unfold Unhealthy
    rwa [hmem]
  cases hother with
  | setServers => cases hg
  | setConnectionSettings => cases hg
  | submit =>
    refine ⟨hfixed, hw.idle, ?_, fun hs => ?_, fun t ht => ?_⟩
    · rw [List.filterMap_append]
      exact (List.append_nil _).symm ▸ hw.once
    · rw [List.filterMap_append, hw.asleep hs]
      rfl
    · rcases List.mem_append.mp ht with ht | ht
      · exact hkeep t ht
      · obtain rfl := List.mem_singleton.mp ht
        trivial
  | iterate hasleep =>
    refine ⟨hfixed, hw.idle, ?_, (fun hs => by cases hs), fun t ht => ?_⟩
    · rw [List.filterMap_append, hw.asleep hasleep, checked_iterate haligned]
      exact List.nodup_range
    · rcases List.mem_append.mp ht with ht | ht
      · exact hkeep t ht
      · obtain ⟨e, he, rfl⟩ := List.mem_map.mp ht
        obtain ⟨k, hk⟩ := List.mem_iff_getElem?.mp he
        obtain rfl := (haligned.entry k e hk).1
        by_cases hh : e.isHealthy = true
        · have hup : s.mem.Healthy e.id := ⟨e, hk, e.isHealthy_iff.mp hh⟩
          simp only [Knows, CheckKnows, if_pos hh]
          exact fun hdown => (unhealthy_iff.mp hdown.1).2 hup
        · simp only [Knows, CheckKnows, if_neg hh]
          exact ⟨e, hk, eq_false_of_ne_true hh⟩
  | deliver =>
    refine ⟨hfixed, hw.idle, ?_, fun _ => checked_deliver s.tasks, fun t ht => ?_⟩
    · rw [checked_deliver]
      exact List.nodup_nil
    · exact hkeep t (List.mem_filter.mp ht).1

/-- A step of logins and checks keeps what the checks rely on. -/
theorem watched_step {a : Act} (hw : Watched n tr s) (hg : NoConfigSet s a)
    (h : s.step a = some s') : Watched n (tr ++ [(s, a)]) s' := by
  rcases State.step_cases h with ⟨i, net, rfl⟩ | ⟨net, rfl⟩ | hother
  · exact watched_task hw hg h
  · exact (hw.not_main h).elim
  · exact watched_other hw hg h hother

theorem watched_booted (ls : VkLdapSettings) (cs : VkConnectionSettings)
    (servers : List (Url × (ℕ → Result Unit))) (hs : 1 ≤ cs.connectionPoolSize) :
    Watched (State.booted ls cs servers).mem.ctx.servers.length []
      (State.booted ls cs servers) :=
  ⟨fixed_booted ls cs servers hs, rfl, List.nodup_nil, fun _ => rfl,
    fun _ ht => by cases ht⟩

end

/-! ### Recoveries -/

theorem healthy_updated {m : Mem} {server : VkLdapServer} {pingTime : Option Duration}
    (h : server.id < m.ctx.servers.length) :
    (m.updateServerStatus server .healthy pingTime).Healthy server.id := by
  refine ⟨VkLdapContext.written m.ctx.servers[server.id] .healthy pingTime, ?_, rfl⟩
  unfold Mem.updateServerStatus
  rw [VkLdapContext.updateServerStatus_eq, List.getElem?_modify_eq, List.getElem?_eq_getElem h]
  rfl

theorem Watched.length {n : ℕ} {tr : List (State × Act)} {s : State} (hw : Watched n tr s) :
    s.mem.ctx.servers.length = n := by
  rw [← hw.fixed.linked.aligned.1.length, hw.fixed.mem.table, List.length_range]

theorem reportsPing_eq {s : State} {a : Act} {j : ℕ} (h : reportsPing s a = some j) :
    ∃ i net server time asOf, a = .task i net ∧
      s.tasks[i]? = some (.check server (.report (.ok time) asOf)) ∧ server.id = j := by
  unfold reportsPing at h
  split at h
  · split at h
    · exact ⟨_, _, _, _, _, rfl, ‹_›, Option.some.inj h⟩
    · cases h
  · cases h

/-- A step recovers a server without a refresh only as a ping that no longer
stands. -/
theorem recoversFresh_iff {n : ℕ} {tr : List (State × Act)} {s s' : State} {a : Act}
    (hw : Watched n tr s) (h : s.step a = some s') : RecoversFresh tr s a ↔ PingStands s a := by
  constructor
  · intro hfresh j hj
    by_contra hno
    obtain ⟨i, net, server, time, asOf, rfl, ht, rfl⟩ := reportsPing_eq hj
    have hmem := List.mem_of_getElem? ht
    have hlt : server.id < s.mem.ctx.servers.length := by
      rw [hw.length]
      exact (hw.fixed.tasks _ hmem).1
    have hdown : Unhealthy server.id s := unhealthy_iff.mpr ⟨hlt, hno⟩
    have hup : s'.mem.Healthy server.id := by
      simp only [State.step, ht, Task.step, Check.step, Option.some.injEq] at h
      subst h
      exact healthy_updated hlt
    exact hw.knows _ hmem ⟨hdown, hfresh _ s' hdown h hup⟩
  · intro hstands j u hdown hu hup
    obtain rfl : s' = u := Option.some.inj (h.symm.trans hu)
    rcases State.step_cases h with ⟨i, net, rfl⟩ | ⟨net, rfl⟩ | hother
    · obtain ⟨t, t', m', spawned, ht, hmove, rfl⟩ := hw.fixed.step_task h
      rcases healthy_move hmove hup with hh | ⟨asOf, hmark⟩
      · exact absurd hh (unhealthy_iff.mp hdown).2
      · have hknows := hw.knows t (List.mem_of_getElem? ht)
        unfold Task.marksHealthy at hmark
        split at hmark
        · rename_i server time epoch
          obtain ⟨rfl, -⟩ := Prod.mk.inj (Option.some.inj hmark)
          have hping : reportsPing s (.task i net) = some server.id := by
            simp only [reportsPing, ht]
          exact absurd (hstands _ hping) (unhealthy_iff.mp hdown).2
        · obtain ⟨rfl, -⟩ := Prod.mk.inj (Option.some.inj hmark)
          exact hknows.2
        · cases hmark
    · exact (hw.not_main h).elim
    · have hmem := hother.mem_eq
      rw [hmem] at hup
      exact absurd hup (unhealthy_iff.mp hdown).2

/-! ### What a recovered server hands out -/

def epochOf (j : ℕ) (m : Mem) : ℕ := (m.pools[j]?.map (·.queue.epoch)).getD 0

/-- The connections of pool `j` are of epochs before `e`. -/
def Below (j e : ℕ) (m : Mem) : Prop :=
  ∀ p c, m.pools[j]? = some p → Includes p c → c.epoch < e

section
variable {n i j : ℕ} {tr : List (State × Act)} {s s' : State} {a : Act} {m m' : Mem}

theorem epochOf_eq {p : Pool} (h : m.pools[j]? = some p) : epochOf j m = p.queue.epoch := by
  unfold epochOf
  rw [h]
  rfl

theorem Below.mono {e e' : ℕ} (h : Below j e m) (hle : e ≤ e') : Below j e' m :=
  fun p c hp hc => Nat.lt_of_lt_of_le (h p c hp hc) hle

/-- The connections of a pool are of its epoch, or of earlier ones. -/
theorem below_self (h : m.Inv) : Below j (epochOf j m + 1) m := by
  intro p c hp hc
  rw [epochOf_eq hp]
  have hinv := h j p hp
  rcases hc with hc | ⟨d, hd, rfl⟩
  · have hqueued := hinv.queued c hc
    omega
  · have hout := hinv.outs d hd
    omega

/-- What is handed out is of the pool's epoch. -/
theorem epoch_of_handsOut {k : ℕ} {c : VkLdapPoolConnection} (hinv : s.mem.Inv)
    (h : handsOut s a = some (k, c)) : c.conn.epoch = epochOf k s.mem := by
  cases a with
  | task i net =>
    simp only [handsOut] at h
    split at h
    · cases h
    · split at h
      · rename_i m' conn hc
        obtain ⟨rfl, rfl⟩ := Prod.mk.inj (Option.some.inj h)
        obtain ⟨p, hp, -, ⟨d, p', ht, hd, -⟩ | ⟨-, hd, -⟩⟩ := Mem.takeConnection_cases hc
        · obtain rfl := Sum.inl.inj hd
          rw [epochOf_eq hp]
          refine (hinv _ p hp).queued _ ?_
          rw [(Pool.takeConnection_eq ht).1]
          exact List.mem_append_right _ (List.mem_singleton_self _)
        · cases hd
      · cases h
  | _ => cases h

theorem epochOf_of_stamps (h : m.SameStamps m') (hlen : m'.pools.length = m.pools.length) :
    epochOf j m' = epochOf j m := by
  cases hp' : m'.pools[j]? with
  | none =>
    have hp : m.pools[j]? = none := by
      rw [List.getElem?_eq_none_iff, ← hlen, ← List.getElem?_eq_none_iff]
      exact hp'
    unfold epochOf
    rw [hp, hp']
  | some p' =>
    obtain ⟨p, hp, hstamp, -⟩ := h j p' hp'
    rw [epochOf_eq hp, epochOf_eq hp']
    exact congrArg (·.1.1) hstamp

theorem epochOf_setPool {k : ℕ} {p p' : Pool} (hp : m.pools[k]? = some p) :
    epochOf j (m.setPool k p') = if k = j then p'.queue.epoch else epochOf j m := by
  by_cases hj : k = j
  · subst hj
    rw [if_pos rfl]
    exact epochOf_eq (List.getElem?_set_self (List.getElem?_eq_some_iff.mp hp).1)
  · rw [if_neg hj]
    unfold epochOf
    simp only [Mem.setPool]
    rw [List.getElem?_set_ne hj]

/-- Epochs only grow, and a refresh makes a new one. -/
theorem epochOf_step (hw : Watched n tr s) (h : s.step a = some s') (j : ℕ) :
    epochOf j s.mem ≤ epochOf j s'.mem ∧
      (Refreshes j s a → epochOf j s.mem < epochOf j s'.mem) := by
  rcases State.step_cases h with ⟨i, net, rfl⟩ | ⟨net, rfl⟩ | hother
  · obtain ⟨t, t', m', spawned, ht, hmove, hs'⟩ := hw.fixed.step_task h
    have htask := hw.fixed.tasks t (List.mem_of_getElem? ht)
    by_cases hreset : ∃ x, t.reset? = some x
    · obtain ⟨x, hx⟩ := hreset
      obtain ⟨server, rfl⟩ := Task.reset?_eq hx
      obtain ⟨p, hp, rfl⟩ := State.step_reset ht h
      have hnext : (p.refreshConnections x.2 net.connect).1.queue.epoch = p.queue.epoch + 1 :=
        congrArg (·.1.1) (Pool.refreshConnections_stamp p x.2 net.connect)
      show _ ≤ epochOf j (s.mem.setPool _ _) ∧ (_ → _ < epochOf j (s.mem.setPool _ _))
      rw [epochOf_setPool hp, hnext]
      by_cases hj : x.1 = j
      · subst hj
        rw [if_pos rfl, epochOf_eq hp]
        exact ⟨Nat.le_succ _, fun _ => Nat.lt_succ_self _⟩
      · rw [if_neg hj]
        have hpool : x.1 = server.id := htask.2.1
        refine ⟨Nat.le_refl _, fun hr => absurd (hpool.trans ?_) hj⟩
        exact Option.some.inj (checked_of_refreshes hw.fixed ht hr)
    · have hno : ¬ Refreshes j s (.task i net) := by
        rintro ⟨k, settings, p, -, hr, -, -⟩
        rw [ht] at hr
        exact hreset ⟨_, hr⟩
      have hstamps : s.mem.SameStamps m' := by
        refine hmove.stamps (fun server pool settings heq => ?_) fun pools seen heq => ?_
        · subst heq
          exact hreset ⟨_, rfl⟩
        · subst heq
          exact htask
      subst hs'
      exact ⟨(epochOf_of_stamps hstamps hmove.shape.poolsLength).symm.le, fun hr => absurd hr hno⟩
  · exact (hw.not_main h).elim
  · have hmem := hother.mem_eq
    rw [hmem]
    refine ⟨Nat.le_refl _, fun hr => ?_⟩
    cases hother <;> cases hr

/-- What was in the pool of `j` before is of its epochs so far, and what was in
it when `j` became unhealthy, of earlier ones than the pool's, once it has been
refreshed. -/
structure Newer (j : ℕ) (tr : List (State × Act)) (s : State) : Prop where
  past : ∀ x ∈ tr, Below j (epochOf j s.mem + 1) x.1.mem
  fresh : s.mem.Healthy j ∨ Since (Unhealthy j) (Refreshes j) tr →
    StepsAfter (fun pre t _ => JustFell j pre t → Below j (epochOf j s.mem) t.mem) tr

/-- Where there has been a refresh since it fell, it has not fallen just now. -/
theorem not_justFell (h : Since (Unhealthy j) (Refreshes j) tr) : ¬ JustFell j tr s := by
  rintro ⟨-, hlast⟩
  rcases List.eq_nil_or_concat tr with rfl | ⟨tr, ⟨t, a⟩, rfl⟩
  · exact since_nil _ _ h
  · rw [List.concat_eq_append] at h hlast
    exact hlast (t, a) List.getLast?_concat (since_snoc.mp h).1

theorem newer_step (hw : Watched n tr s) (hg : NoConfigSet s a) (hr : RecoversFresh tr s a)
    (hn : Newer j tr s) (h : s.step a = some s') : Newer j (tr ++ [(s, a)]) s' := by
  obtain ⟨hle, hlt⟩ := epochOf_step hw h j
  -- from `s` on there has been a refresh, and now also a new epoch
  have hkeep (hsince : s.mem.Healthy j ∨ Since (Unhealthy j) (Refreshes j) tr)
      (hnot : ¬ JustFell j tr s) : StepsAfter
        (fun pre t _ => JustFell j pre t → Below j (epochOf j s'.mem) t.mem) (tr ++ [(s, a)]) := by
    refine stepsAfter_snoc.mpr ⟨fun pre t b post htr hfell => ?_, fun hfell => absurd hfell hnot⟩
    exact (hn.fresh hsince pre t b post htr hfell).mono hle
  constructor
  · intro x hx
    rcases List.mem_append.mp hx with hx | hx
    · exact (hn.past x hx).mono (Nat.succ_le_succ hle)
    · obtain rfl := List.mem_singleton.mp hx
      exact (below_self hw.fixed.custody.inv).mono (Nat.succ_le_succ hle)
  · rintro (hup | hsince)
    · by_cases hh : s.mem.Healthy j
      · exact hkeep (Or.inl hh) fun hfell => (unhealthy_iff.mp hfell.1).2 hh
      · have hlen : j < s.mem.ctx.servers.length := by
          obtain ⟨e, he, -⟩ := hup
          rw [hw.length, ← (watched_step hw hg h).length]
          exact (List.getElem?_eq_some_iff.mp he).1
        have hsince := hr j s' (unhealthy_iff.mpr ⟨hlen, hh⟩) h hup
        exact hkeep (Or.inr hsince) (not_justFell hsince)
    · obtain ⟨-, hnow | hsince⟩ := since_snoc.mp hsince
      · refine stepsAfter_snoc.mpr ⟨fun pre t b post htr hfell => ?_, fun _ => ?_⟩
        · have hmem : (t, b) ∈ tr := by simp [htr]
          exact (hn.past _ hmem).mono (hlt hnow)
        · exact (below_self hw.fixed.custody.inv).mono (hlt hnow)
      · exact hkeep (Or.inr hsince) (not_justFell hsince)

end

/-- Once refreshed since it fell, a healthy server hands out nothing of before. -/
theorem servesFresh_of_newer {n : ℕ} {tr : List (State × Act)} {s : State} {a : Act}
    (hw : Watched n tr s) (hn : ∀ j, Newer j tr s) : ServesFresh tr s a := by
  intro j k c hup hk hout
  obtain rfl := hw.fixed.mem.lookup hk
  have hepoch := epoch_of_handsOut hw.fixed.custody.inv hout
  intro pre t b post htr hfell p hp hincludes
  have hlt := (hn k).fresh (Or.inl hup) pre t b post htr hfell p c.conn hp hincludes
  omega

/-- **A server recovers only through a fresh pool, exactly while no ping is
overtaken.** In every run of logins and checks over a fixed list, every server
that turns healthy has had its pool refreshed since it became unhealthy, and no
connection that was in its pool then is handed out while it is healthy, if and
only if each check that writes a successful ping finds its server healthy. -/
theorem recovers_through_fresh_pool (ls : VkLdapSettings) (cs : VkConnectionSettings)
    (servers : List (Url × (ℕ → Result Unit))) (hs : 1 ≤ cs.connectionPoolSize)
    (tr : List (State × Act)) (t : State)
    (h : Run State.step (State.booted ls cs servers) tr t) (hg : Steps NoConfigSet tr) :
    (StepsAfter RecoversFresh tr ∧ StepsAfter ServesFresh tr) ↔ Steps PingStands tr := by
  have h0 := watched_booted ls cs servers hs
  have hrecovers : StepsAfter RecoversFresh tr ↔ Steps PingStands tr :=
    h.stepsAfter_iff hg h0 (fun _ _ _ _ hw hg hstep => watched_step hw hg hstep)
      fun _ _ _ _ hw _ hstep => recoversFresh_iff hw hstep
  constructor
  · rintro ⟨hfresh, -⟩
    exact hrecovers.mp hfresh
  · intro hstands
    have hserves : StepsAfter ServesFresh tr ↔ Steps (fun _ _ => True) tr := by
      refine h.stepsAfter_iff (hg.and hstands) (I := fun tr s =>
        Watched (State.booted ls cs servers).mem.ctx.servers.length tr s ∧ ∀ j, Newer j tr s)
        ⟨h0, fun j => ⟨(fun _ hx => by cases hx), fun _ => stepsAfter_nil _⟩⟩ ?_ ?_
      · rintro tr s a s' ⟨hw, hn⟩ ⟨hg, hstands⟩ hstep
        have hr := (recoversFresh_iff hw hstep).mpr hstands
        exact ⟨watched_step hw hg hstep, fun j => newer_step hw hg hr (hn j) hstep⟩
      · rintro tr s a s' ⟨hw, hn⟩ - hstep
        exact iff_of_true (servesFresh_of_newer hw hn) trivial
    exact ⟨hrecovers.mpr hstands, hserves.mpr steps_true⟩

/-- An operation loses its connection to `ldap://a`; the next iteration
refreshes the pool, and then another operation takes a connection. -/
def fallAndRecovery : List Act :=
  [.submit, .task 0 {}, .task 0 {},
    .task 0 { ldapOp := .returned (.error (.ldapConnectionError ⟨.other, "broken pipe"⟩)) },
    .task 0 {}, .task 1 {},
    .iterate, .task 2 {}, .task 2 {}, .task 2 {}, .task 2 {}, .task 2 {}, .task 2 {}, .deliver,
    .submit, .task 2 {}, .task 2 {}]

theorem recovers_through_fresh_pool_once : ∃ tr t, Run State.step oneServer tr t ∧
    (∃ x ∈ tr, Unhealthy 0 x.1) ∧ t.mem.Healthy 0 ∧
    StepsAfter RecoversFresh tr ∧ StepsAfter ServesFresh tr := by
  obtain ⟨t, ht, hup⟩ : ∃ t, exec State.step oneServer fallAndRecovery = some t ∧
      ∃ e, t.mem.ctx.servers[0]? = some e ∧ e.status = .healthy := ⟨_, rfl, _, rfl, rfl⟩
  have hacts : (trace State.step oneServer fallAndRecovery).all (fun x => !x.2.isConfigSet) = true := by
    decide +kernel
  have hdown : (trace State.step oneServer fallAndRecovery).any (fun x =>
      x.1.mem.ctx.servers[0]?.any (!·.isHealthy)) = true := by decide +kernel
  have hpings : (trace State.step oneServer fallAndRecovery).all (fun x =>
      (reportsPing x.1 x.2).isNone) = true := by decide +kernel
  refine ⟨_, t, exec_run ht, ?_, hup, (recovers_through_fresh_pool {} { connectionPoolSize := 1 } _
    (Nat.le_refl 1) _ t (exec_run ht) fun x hx => ?_).mpr fun x hx j hj => ?_⟩
  · obtain ⟨x, hx, hany⟩ := List.any_eq_true.mp hdown
    obtain ⟨e, he, hst⟩ := (Option.any_eq_true _ _).mp hany
    exact ⟨x, hx, e, he, by simpa using hst⟩
  · have hact := List.all_eq_true.mp hacts x hx
    simpa [NoConfigSet] using hact
  · have hnone := List.all_eq_true.mp hpings x hx
    rw [hj] at hnone
    cases hnone

/-- A check of `ldap://a` has pinged it when an operation loses a connection to
it and is about to mark it unhealthy. -/
def pingThenLoss : List Act :=
  [.iterate, .task 0 {}, .task 0 {}, .task 0 {}, .task 0 {}, .task 0 {},
    .submit, .task 1 {}, .task 1 {},
    .task 1 { ldapOp := .returned (.error (.ldapConnectionError ⟨.other, "broken pipe"⟩)) }]

/-- The lost connection is given back, and an operation is about to take one. -/
def lossGivenBack : List Act := [.task 2 {}, .submit, .task 3 {}]

theorem noConfigSet_of_mem {a : Act} (h : a ∈ pingThenLoss ∨ a ∈ lossGivenBack) (s : State) :
    NoConfigSet s a := by
  have hno : (pingThenLoss ++ lossGivenBack).all (!·.isConfigSet) = true := rfl
  have hact := List.all_eq_true.mp hno a (List.mem_append.mpr h)
  simpa [NoConfigSet] using hact

/-- The operation marks the server unhealthy and then the check marks it
healthy: nothing has been refreshed, and the lost connection is handed out
again. -/
theorem healthy_without_refresh : ∃ tr t, Run State.step oneServer tr t ∧ Steps NoConfigSet tr ∧
    ¬ StepsAfter RecoversFresh tr ∧ ¬ StepsAfter ServesFresh tr := by
  obtain ⟨e, f, g, s, t, he, hf, hg, hs, ht, hup, hdown, hping, ⟨e', he', hup'⟩, hlist, c, p, d, hout,
      hp, hd, hc⟩ : ∃ e f g s t,
      exec State.step oneServer pingThenLoss = some e ∧ e.step (.task 1 {}) = some f ∧
      f.step (.task 0 {}) = some g ∧ exec State.step g lossGivenBack = some s ∧
      s.step (.task 3 {}) = some t ∧
      e.mem.ctx.servers.all (·.isHealthy) = true ∧
      (∃ x, f.mem.ctx.servers[0]? = some x ∧ x.isHealthy = false) ∧
      reportsPing f (.task 0 {}) = some 0 ∧
      (∃ x, s.mem.ctx.servers[0]? = some x ∧ x.status = .healthy) ∧
      s.mem.ctx.connPools[0]? = some 0 ∧
      ∃ c p d, handsOut s (.task 3 {}) = some (0, c) ∧ f.mem.pools[0]? = some p ∧ p.out = [d] ∧
        d.conn = c.conn := by
    refine ⟨_, _, _, _, _, rfl, rfl, rfl, rfl, rfl, rfl, ⟨_, rfl, rfl⟩, rfl, ⟨_, rfl, rfl⟩, rfl, _, _, _,
      rfl, rfl, rfl, rfl⟩
  have hrun := (exec_run he).snoc hf
  have hok : Steps NoConfigSet (trace State.step oneServer pingThenLoss ++ [(e, .task 1 {})]) :=
    steps_snoc.mpr ⟨fun x hx => noConfigSet_of_mem (Or.inl (mem_of_trace hx)) _, rfl⟩
  refine ⟨_, t, ((hrun.snoc hg).trans (exec_run hs)).snoc ht, ?_, fun hfresh => ?_, fun hserves => ?_⟩
  · refine steps_snoc.mpr ⟨fun x hx => ?_, rfl⟩
    rcases List.mem_append.mp hx with hx | hx
    · have hping : NoConfigSet f (.task 0 {}) := rfl
      exact steps_snoc.mpr ⟨hok, hping⟩ x hx
    · exact noConfigSet_of_mem (Or.inr (mem_of_trace hx)) _
  · have hw := hrun.history hok (watched_booted {} { connectionPoolSize := 1 } _ (Nat.le_refl 1))
      fun _ _ _ _ hw hg hstep => watched_step hw hg hstep
    have hlast := (stepsAfter_snoc.mp (stepsAfter_snoc.mp hfresh).1.left).2
    have hstands := (recoversFresh_iff hw hg).mp hlast 0 hping
    exact (unhealthy_iff.mp hdown).2 hstands
  · have hnever := (stepsAfter_snoc.mp hserves).2 0 0 c ⟨e', he', hup'⟩ hlist hout
    refine (stepsAfter_snoc.mp hnever.left).2 ⟨hdown, ?_⟩ p hp (Or.inr ⟨d, by simp [hd], hc⟩)
    intro x hx hfell
    rw [List.getLast?_concat] at hx
    obtain rfl := Option.some.inj hx
    obtain ⟨y, hy, hfalse⟩ := hfell
    rw [List.all_eq_true.mp hup y (List.mem_of_getElem? hy)] at hfalse
    cases hfalse

end Recovery
end System
end ValkeyLdap
