/-
# Starting up

`initializer` (`src/lib.rs`) starts the failure-detector thread, resets the
context, stores the configured settings in it and sets the configured server
list. It stores the settings by `try_lock`: the comment at that call says that
no other tasks are running, but the detector's are, and where one of them
holds the lock, the settings are not stored.

In `System` a critical section is one step. Here a detector task first takes
the lock and then runs its section, so that the initializer comes in between.
The scheduler counts as ready once it has been started, so the wait for it is
over at once.

Key theorems: `ctx_of_held`, `stored_iff`, `settings_in_force`.
-/
import ValkeyLdap.Moves
import ValkeyLdap.ServerList

namespace ValkeyLdap
namespace System

/-! ### Sections of the context lock -/

/-- The task's next step is a section of the context lock. -/
def Task.usesContext : Task → Bool
  | .op .find | .op (.fail _ _) => true
  | .check _ .start | .check _ (.giveBack _ _) | .check _ (.report _ _)
  | .check _ (.reportConnect _) | .check _ (.refresh .lookup) | .check _ (.refresh (.report _ _)) =>
    true
  | _ => false

def Main.usesContext : Main → Bool
  | .clearing _ | .adding (_ :: _) | .listing _ _ _ | .storing _ | .reading
  | .refreshing _ .lookup _ | .refreshing _ (.report _ _) _ => true
  | _ => false

/-- Tasks write the statuses of the servers and nothing else of the context. -/
theorem Task.Move.ctx_eq {m m' : Mem} {t : Task} {next : Next Task} (h : t.Move m m' next) :
    ∃ servers, m'.ctx = { m.ctx with servers } := by
  have hupdate : ∀ (server : VkLdapServer) (status : VkLdapServerStatus) (time : Option Duration),
      ∃ servers, (m.updateServerStatus server status time).ctx = { m.ctx with servers } := by
    intro server status time
    unfold Mem.updateServerStatus
    rw [VkLdapContext.updateServerStatus_eq]
    exact ⟨_, rfl⟩
  cases h with
  | fail => exact hupdate _ _ _
  | report => exact hupdate _ _ _
  | reportConnect => exact hupdate _ _ _
  | refreshReport => exact hupdate _ _ _
  | _ => exact ⟨_, rfl⟩

/-- Outside of the sections the context is left alone. -/
theorem Task.Move.ctx_of_not_uses {m m' : Mem} {t : Task} {next : Next Task}
    (h : t.Move m m' next) (ht : t.usesContext = false) : m'.ctx = m.ctx := by
  cases h with
  | fail => cases ht
  | report => cases ht
  | reportConnect => cases ht
  | refreshReport => cases ht
  | _ => rfl

theorem Main.Move.ctx_of_not_uses {m m' : Mem} {main main' : Main} {spawned : List Task}
    (h : main.Move m m' main' spawned) (hmain : main.usesContext = false) : m'.ctx = m.ctx := by
  cases h with
  | clear => cases hmain
  | list => cases hmain
  | store => cases hmain
  | refreshReport => cases hmain
  | _ => rfl

namespace Startup

open Runs

/-! ### The machine -/

/-- What the module is configured with, and the URL parser. -/
structure Config where
  ldapSettings : VkLdapSettings
  connectionSettings : VkConnectionSettings
  serverList : String
  parse : String → Except String Url

/-- A holder of the context lock: the detector's iteration, about to read the
servers, or a task. -/
inductive Owner
  | iteration
  | task (i : ℕ)
  deriving DecidableEq, Repr

/-- Where the initializer is: about to reset the context, to store each of the
two settings, to call `process_server_list`; in that call; at `Status::Ok`. -/
inductive Init
  | resetting
  | storingLdap
  | storingConnection
  | loading
  | processing
  | ok
  deriving DecidableEq, Repr

structure World where
  sys : State
  holder : Option Owner
  pc : Init

inductive Act
  /-- The initializer, or the sync task it waits for, goes on. -/
  | init (net : Net)
  | lock (owner : Owner)
  /-- The holder runs its section and gives the lock back. -/
  | critical (net : Net)
  /-- Task `i` goes on outside of the lock. -/
  | task (i : ℕ) (net : Net)
  /-- The iteration is over and wakes the detector thread. -/
  | deliver

/-- The owner's next step is a section of the lock. -/
def ready (sys : State) : Owner → Bool
  | .iteration => sys.detector == .sleeping
  | .task i => sys.tasks[i]?.any (·.usesContext)

def Owner.act (net : Net) : Owner → System.Act
  | .iteration => .iterate
  | .task i => .task i net

namespace World

def ctx (w : World) : VkLdapContext := w.sys.mem.ctx

def setCtx (w : World) (ctx : VkLdapContext) : World :=
  { w with sys := { w.sys with mem := { w.sys.mem with ctx } } }

/-- `try_lock` and, if that succeeds, an update of the context. -/
def tryUpdate (w : World) (update : VkLdapContext → VkLdapContext) : World :=
  if w.holder = none then w.setCtx (update w.ctx) else w

def step (cfg : Config) (w : World) : Act → Option World
  | .init net =>
    match w.pc with
    | .resetting =>
      if w.holder = none then some { w.setCtx .new with pc := .storingLdap } else none
    | .storingLdap =>
      some { w.tryUpdate (·.refreshLdapSettings cfg.ldapSettings) with pc := .storingConnection }
    | .storingConnection =>
      some { w.tryUpdate (·.refreshConnectionSettings cfg.connectionSettings) with pc := .loading }
    | .loading =>
      some { w with
        sys := (ServerList.processServerList cfg.parse w.sys cfg.serverList).sys
        pc := .processing }
    | .processing =>
      if w.sys.main = .idle then some { w with pc := .ok }
      else if w.holder = none ∨ w.sys.main.usesContext = false then
        (w.sys.step (.main net)).map fun sys => { w with sys }
      else none
    | .ok => none
  | .lock owner =>
    if w.holder = none ∧ ready w.sys owner then some { w with holder := some owner } else none
  | .critical net =>
    match w.holder with
    | some owner => (w.sys.step (owner.act net)).map fun sys => { w with sys, holder := none }
    | none => none
  | .task i net =>
    if w.sys.tasks[i]?.any (!·.usesContext) then
      (w.sys.step (.task i net)).map fun sys => { w with sys }
    else none
  | .deliver => (w.sys.step .deliver).map fun sys => { w with sys }

/-- The scheduler and the detector thread just started, over whatever an
earlier load of the module has left. -/
def start (mem : Mem) : World :=
  { sys := { mem, tasks := [], main := .idle, detector := .sleeping }
    holder := none
    pc := .resetting }

end World

/-- The URL whose server is added next. -/
def nextUrl : Main → Option Url
  | .adding (url :: _) => some url
  | _ => none

/-- A server is added, with the settings that its connections are opened with. -/
def added (w : World) : Act → Option (Url × VkConnectionSettings)
  | .init _ =>
    if w.pc = .processing then (nextUrl w.sys.main).map fun url => (url, w.ctx.connectionSettings)
    else none
  | _ => none

/-- The configured settings are those in force, and every server of the list
was added with them. -/
structure InForce (cfg : Config) (tr : List (World × Act)) (w : World) : Prop where
  ldapSettings : w.ctx.ldapSettings = cfg.ldapSettings
  connectionSettings : w.ctx.connectionSettings = cfg.connectionSettings
  servers : ∀ urls, ServerList.Parsed cfg.parse cfg.serverList urls →
    events added tr = urls.map fun url => (url, cfg.connectionSettings)

/-! ### What a step does -/

/-- Neither the initializer nor what it reads and writes is touched. -/
structure Quiet (w w' : World) : Prop where
  pc : w'.pc = w.pc
  main : w'.sys.main = w.sys.main
  ldapSettings : w'.ctx.ldapSettings = w.ctx.ldapSettings
  connectionSettings : w'.ctx.connectionSettings = w.ctx.connectionSettings

theorem quiet_task {w : World} {sys : State} {i : ℕ} {net : Net}
    (h : w.sys.step (.task i net) = some sys) (holder : Option Owner) :
    Quiet w { w with sys, holder } := by
  obtain ⟨t, m', -, ⟨t', spawned, hmove, rfl⟩ | ⟨hmove, rfl⟩⟩ := State.step_task h
  all_goals
    obtain ⟨servers, hctx⟩ := hmove.ctx_eq
    refine ⟨rfl, rfl, ?_, ?_⟩
    · show m'.ctx.ldapSettings = _
      rw [hctx]
      rfl
    · show m'.ctx.connectionSettings = _
      rw [hctx]
      rfl

theorem quiet_iterate {w : World} {sys : State} (h : w.sys.step .iterate = some sys)
    (holder : Option Owner) : Quiet w { w with sys, holder } := by
  simp only [State.step] at h
  split at h
  · obtain rfl := Option.some.inj h
    exact ⟨rfl, rfl, rfl, rfl⟩
  · cases h

theorem quiet_deliver {w : World} {sys : State} (h : w.sys.step .deliver = some sys) :
    Quiet w { w with sys } := by
  simp only [State.step] at h
  split at h
  · obtain rfl := Option.some.inj h
    exact ⟨rfl, rfl, rfl, rfl⟩
  · cases h

/-- What is not the initializer's step leaves it alone. -/
theorem quiet_step {cfg : Config} {w w' : World} {a : Act} (h : w.step cfg a = some w')
    (ha : ∀ net, a ≠ .init net) : Quiet w w' := by
  cases a with
  | init net => exact absurd rfl (ha net)
  | lock owner =>
    simp only [World.step] at h
    split at h
    · obtain rfl := Option.some.inj h
      exact ⟨rfl, rfl, rfl, rfl⟩
    · cases h
  | critical net =>
    simp only [World.step] at h
    split at h
    · rename_i owner _
      obtain ⟨sys, hsys, rfl⟩ := Option.map_eq_some_iff.mp h
      cases owner with
      | iteration => exact quiet_iterate hsys none
      | task i => exact quiet_task hsys none
    · cases h
  | task i net =>
    simp only [World.step] at h
    split at h
    · obtain ⟨sys, hsys, rfl⟩ := Option.map_eq_some_iff.mp h
      exact quiet_task hsys w.holder
    · cases h
  | deliver =>
    obtain ⟨sys, hsys, rfl⟩ := Option.map_eq_some_iff.mp h
    exact quiet_deliver hsys

/-- The steps of the initializer. -/
inductive World.Move (cfg : Config) (w : World) : World → Prop
  | reset : w.pc = .resetting → w.holder = none →
      Move cfg w { w.setCtx .new with pc := .storingLdap }
  | storeLdap : w.pc = .storingLdap → Move cfg w
      { w.tryUpdate (·.refreshLdapSettings cfg.ldapSettings) with pc := .storingConnection }
  | storeConnection : w.pc = .storingConnection → Move cfg w
      { w.tryUpdate (·.refreshConnectionSettings cfg.connectionSettings) with pc := .loading }
  | load : w.pc = .loading → Move cfg w { w with
      sys := (ServerList.processServerList cfg.parse w.sys cfg.serverList).sys
      pc := .processing }
  | ok : w.pc = .processing → w.sys.main = .idle → Move cfg w { w with pc := .ok }
  | main {m' : Mem} {main : Main} {spawned : List Task} : w.pc = .processing →
      w.holder = none ∨ w.sys.main.usesContext = false →
      w.sys.main.Move w.sys.mem m' main spawned → Move cfg w { w with
        sys := { w.sys with mem := m', main, tasks := w.sys.tasks ++ spawned } }

theorem step_init {cfg : Config} {w w' : World} {net : Net}
    (h : w.step cfg (.init net) = some w') : w.Move cfg w' := by
  simp only [World.step] at h
  split at h
  · rename_i hpc
    split at h
    · rename_i hfree
      obtain rfl := Option.some.inj h
      exact .reset hpc hfree
    · cases h
  · rename_i hpc
    obtain rfl := Option.some.inj h
    exact .storeLdap hpc
  · rename_i hpc
    obtain rfl := Option.some.inj h
    exact .storeConnection hpc
  · rename_i hpc
    obtain rfl := Option.some.inj h
    exact .load hpc
  · rename_i hpc
    split at h
    · rename_i hidle
      obtain rfl := Option.some.inj h
      exact .ok hpc hidle
    · split at h
      · rename_i hlock
        obtain ⟨sys, hsys, rfl⟩ := Option.map_eq_some_iff.mp h
        obtain ⟨m', main, spawned, hmove, rfl⟩ := State.step_main hsys
        exact .main hpc hlock hmove
      · cases h
  · cases h

/-- The main thread sets the server list, is lost in that, or does nothing. -/
def setsList : Main → Bool
  | .idle | .clearing _ | .adding _ | .opening _ _ _ | .listing _ _ _ | .hung => true
  | _ => false

/-- Setting the list keeps the settings. -/
theorem setsList_move {m m' : Mem} {main main' : Main} {spawned : List Task}
    (h : main.Move m m' main' spawned) (hmain : setsList main = true) :
    setsList main' = true ∧ m'.ctx.ldapSettings = m.ctx.ldapSettings ∧
      m'.ctx.connectionSettings = m.ctx.connectionSettings := by
  cases h with
  | clear => exact ⟨rfl, rfl, rfl⟩
  | added => exact ⟨rfl, rfl, rfl⟩
  | add => exact ⟨rfl, rfl, rfl⟩
  | opened => exact ⟨rfl, rfl, rfl⟩
  | openLost => exact ⟨rfl, rfl, rfl⟩
  | list => exact ⟨rfl, rfl, rfl⟩
  | _ => cases hmain

theorem processServerList_sys (cfg : Config) (sys : State) :
    ∃ main, (ServerList.processServerList cfg.parse sys cfg.serverList).sys = { sys with main } ∧
      (setsList sys.main = true → setsList main = true) := by
  by_cases hvalid : ServerList.Invalid cfg.parse cfg.serverList
  · obtain ⟨e, he⟩ := ServerList.call_invalid hvalid sys
    rw [he]
    exact ⟨sys.main, rfl, id⟩
  · obtain ⟨urls, -, hcall⟩ := ServerList.call_valid hvalid sys
    rw [hcall]
    exact ⟨.clearing urls, rfl, fun _ => rfl⟩

theorem tryUpdate_main (w : World) (update : VkLdapContext → VkLdapContext) :
    (w.tryUpdate update).sys.main = w.sys.main := by
  unfold World.tryUpdate
  split
  · rfl
  · rfl

/-- The steps of the initializer keep the main thread at setting the list. -/
theorem setsList_init {cfg : Config} {w w' : World} (h : w.Move cfg w')
    (hw : setsList w.sys.main = true) : setsList w'.sys.main = true := by
  cases h with
  | reset => exact hw
  | storeLdap => exact (tryUpdate_main w _).symm ▸ hw
  | storeConnection => exact (tryUpdate_main w _).symm ▸ hw
  | load =>
    obtain ⟨main, hsys, hmain⟩ := processServerList_sys cfg w.sys
    show setsList (ServerList.processServerList cfg.parse w.sys cfg.serverList).sys.main = true
    rw [hsys]
    exact hmain hw
  | ok => exact hw
  | main _ _ hmove => exact (setsList_move hmove hw).1

theorem setsList_step {cfg : Config} {w w' : World} {a : Act} (hw : setsList w.sys.main = true)
    (hstep : w.step cfg a = some w') : setsList w'.sys.main = true := by
  by_cases hinit : ∃ net, a = .init net
  · obtain ⟨net, rfl⟩ := hinit
    exact setsList_init (step_init hstep) hw
  · rw [(quiet_step hstep fun net hnet => hinit ⟨net, hnet⟩).main]
    exact hw

/-- All the main thread does is to set the list, whatever else holds of the run
so far. -/
theorem start_history {cfg : Config} {I : List (World × Act) → World → Prop} {mem : Mem}
    {tr : List (World × Act)} {w : World} (h : Run (World.step cfg) (World.start mem) tr w)
    (h0 : I [] (World.start mem))
    (hstep : ∀ tr t a u, setsList t.sys.main = true → I tr t → t.step cfg a = some u →
      I (tr ++ [(t, a)]) u) : I tr w := by
  have hboth : setsList w.sys.main = true ∧ I tr w := by
    refine h.history steps_true (I := fun tr w => setsList w.sys.main = true ∧ I tr w)
      ⟨rfl, h0⟩ ?_
    rintro tr t a u ⟨hmain, hi⟩ - ha
    exact ⟨setsList_step hmain ha, hstep tr t a u hmain hi ha⟩
  exact hboth.2

theorem tryUpdate_ctx (w : World) (update : VkLdapContext → VkLdapContext) :
    (w.tryUpdate update).ctx = if w.holder = none then update w.ctx else w.ctx := by
  unfold World.tryUpdate
  split
  · rfl
  · rfl

theorem load_ctx (cfg : Config) (w : World) :
    (ServerList.processServerList cfg.parse w.sys cfg.serverList).sys.mem = w.sys.mem := by
  obtain ⟨main, hsys, -⟩ := processServerList_sys cfg w.sys
  rw [hsys]

/-- **While the lock is held, only the holder's section changes the context.** -/
theorem ctx_of_held {cfg : Config} {w w' : World} {a : Act} (h : w.step cfg a = some w')
    (hheld : w.holder ≠ none) (ha : ∀ net, a ≠ .critical net) : w'.ctx = w.ctx := by
  cases a with
  | init net =>
    cases step_init h with
    | reset _ hfree => exact absurd hfree hheld
    | storeLdap => exact (tryUpdate_ctx w _).trans (if_neg hheld)
    | storeConnection => exact (tryUpdate_ctx w _).trans (if_neg hheld)
    | load => exact congrArg Mem.ctx (load_ctx cfg w)
    | ok => rfl
    | main _ hlock hmove => exact hmove.ctx_of_not_uses (hlock.resolve_left hheld)
  | critical net => exact absurd rfl (ha net)
  | lock owner =>
    simp only [World.step, hheld, false_and, if_false] at h
    cases h
  | task i net =>
    simp only [World.step] at h
    split at h
    · rename_i huses
      obtain ⟨sys, hsys, rfl⟩ := Option.map_eq_some_iff.mp h
      obtain ⟨t, m', ht, hmove⟩ := State.step_task hsys
      have huses : t.usesContext = false := by simpa [ht] using huses
      rcases hmove with ⟨t', spawned, hmove, rfl⟩ | ⟨hmove, rfl⟩
      · exact hmove.ctx_of_not_uses huses
      · exact hmove.ctx_of_not_uses huses
    · cases h
  | deliver =>
    obtain ⟨sys, hsys, rfl⟩ := Option.map_eq_some_iff.mp h
    simp only [State.step] at hsys
    split at hsys
    · obtain rfl := Option.some.inj hsys
      rfl
    · cases hsys

/-! ### The two attempts -/

/-- How far the initializer is. -/
def Init.rank : Init → ℕ
  | .resetting => 0
  | .storingLdap => 1
  | .storingConnection => 2
  | .loading => 3
  | .processing => 4
  | .ok => 5

theorem Init.rank_inj {p q : Init} (h : p.rank = q.rank) : p = q := by
  cases p <;> cases q <;> first | rfl | cases h

/-- A step of the initializer at `p` finds the lock free, or the setting is
what it is to become. -/
def FindsLock {β : Type} (get : VkLdapContext → β) (v : β) (p : Init) (w : World) : Act → Prop
  | .init _ => w.pc = p → w.holder = none ∨ get w.ctx = v
  | _ => True

/-- The setting is written at `p` if the lock is free, and not after. -/
structure StoredAt {β : Type} (cfg : Config) (get : VkLdapContext → β) (v : β) (p : Init) :
    Prop where
  attempt : ∀ {w w' : World}, w.Move cfg w' → w.pc = p →
    (get w'.ctx = v ↔ w.holder = none ∨ get w.ctx = v)
  past : ∀ {w w' : World}, setsList w.sys.main = true → w.Move cfg w' → p.rank < w.pc.rank →
    get w'.ctx = get w.ctx
  quiet : ∀ {w w' : World}, Quiet w w' → get w'.ctx = get w.ctx

theorem rank_move {cfg : Config} {w w' : World} (h : w.Move cfg w') :
    w.pc.rank ≤ w'.pc.rank ∧ w'.pc.rank ≤ w.pc.rank + 1 ∧
      (w.pc.rank < 4 → w'.pc.rank = w.pc.rank + 1) := by
  cases h with
  | reset hpc => simp [hpc, Init.rank]
  | storeLdap hpc => simp [hpc, Init.rank]
  | storeConnection hpc => simp [hpc, Init.rank]
  | load hpc => simp [hpc, Init.rank]
  | ok hpc => simp [hpc, Init.rank]
  | main hpc => simp [hpc, Init.rank]

/-- Up to the attempt every step finds the lock as it should, and from then on
the setting is in force exactly if the attempt did. -/
def Attempted {β : Type} (get : VkLdapContext → β) (v : β) (p : Init) (tr : List (World × Act))
    (w : World) : Prop :=
  (w.pc.rank ≤ p.rank → Steps (FindsLock get v p) tr) ∧
    (p.rank < w.pc.rank → (get w.ctx = v ↔ Steps (FindsLock get v p) tr))

theorem attempted_step {β : Type} {cfg : Config} {get : VkLdapContext → β} {v : β} {p : Init}
    (hp : StoredAt cfg get v p) (hrank : p.rank < 4) {tr : List (World × Act)} {t u : World}
    {a : Act} (hmain : setsList t.sys.main = true) (h : Attempted get v p tr t)
    (ha : t.step cfg a = some u) : Attempted get v p (tr ++ [(t, a)]) u := by
  obtain ⟨hbefore, hafter⟩ := h
  unfold Attempted
  by_cases hinit : ∃ net, a = .init net
  · obtain ⟨net, rfl⟩ := hinit
    have hmove := step_init ha
    obtain ⟨hle, hsucc, hnext⟩ := rank_move hmove
    by_cases hpast : p.rank < t.pc.rank
    · -- the attempt has been
      have hne : t.pc ≠ p := fun he => by rw [he] at hpast; omega
      have hfinds : FindsLock get v p t (.init net) := fun he => absurd he hne
      refine ⟨fun _ => by omega, fun _ => ?_⟩
      rw [hp.past hmain hmove hpast, hafter hpast, steps_snoc]
      exact ⟨fun h => ⟨h, hfinds⟩, fun h => h.1⟩
    · have hsteps := hbefore (by omega)
      by_cases hpc : t.pc = p
      · -- this is the attempt
        have hlt : p.rank < u.pc.rank := by
          rw [hpc] at hnext
          omega
        refine ⟨fun _ => by omega, fun _ => ?_⟩
        rw [hp.attempt hmove hpc, steps_snoc]
        exact ⟨fun h => ⟨hsteps, fun _ => h⟩, fun h => h.2 hpc⟩
      · have hlt : t.pc.rank < p.rank := by
          have hne : t.pc.rank ≠ p.rank := fun he => hpc (Init.rank_inj he)
          omega
        refine ⟨fun _ => steps_snoc.mpr ⟨hsteps, fun he => absurd he hpc⟩, fun _ => by omega⟩
  · have hquiet := quiet_step ha fun net hnet => hinit ⟨net, hnet⟩
    have hfinds : FindsLock get v p t a := by
      cases a with
      | init net => exact absurd ⟨net, rfl⟩ hinit
      | _ => trivial
    rw [hquiet.pc, hp.quiet hquiet, steps_snoc]
    exact ⟨fun hle => ⟨hbefore hle, hfinds⟩,
      fun hlt => (hafter hlt).trans ⟨fun h => ⟨h, hfinds⟩, fun h => h.1⟩⟩

/-- **A setting is in force after its attempt exactly if** the attempt found
the lock free, or had nothing to change. -/
theorem stored_iff {β : Type} {cfg : Config} {get : VkLdapContext → β} {v : β} {p : Init}
    (hp : StoredAt cfg get v p) (hrank : p.rank < 4) {mem : Mem} {tr : List (World × Act)}
    {w : World} (h : Run (World.step cfg) (World.start mem) tr w) (hpast : p.rank < w.pc.rank) :
    get w.ctx = v ↔ Steps (FindsLock get v p) tr := by
  have hstart : Attempted get v p [] (World.start mem) :=
    ⟨fun _ => steps_nil _, fun hlt => absurd hlt (Nat.not_lt_zero _)⟩
  have hattempted := start_history h hstart
    fun _ _ _ _ hmain hi ha => attempted_step hp hrank hmain hi ha
  exact hattempted.2 hpast

/-- An attempt to write `v`. -/
theorem attempt_iff {β : Type} {get : VkLdapContext → β} {v : β} {w : World}
    {update : VkLdapContext → VkLdapContext} (hget : get (update w.ctx) = v) :
    get (w.tryUpdate update).ctx = v ↔ w.holder = none ∨ get w.ctx = v := by
  rw [tryUpdate_ctx]
  by_cases hfree : w.holder = none
  · rw [if_pos hfree]
    exact iff_of_true hget (.inl hfree)
  · rw [if_neg hfree]
    exact ⟨.inr, fun h => h.resolve_left hfree⟩

theorem storedAt_ldap (cfg : Config) :
    StoredAt cfg (·.ldapSettings) cfg.ldapSettings .storingLdap where
  attempt := fun hmove hpc => by
    cases hmove with
    | storeLdap => exact attempt_iff rfl
    | reset h | storeConnection h | load h | ok h | main h =>
      rw [hpc] at h
      cases h
  past := fun hmain hmove hlt => by
    cases hmove with
    | reset h | storeLdap h =>
      rw [h] at hlt
      simp [Init.rank] at hlt
    | storeConnection =>
      show ((World.tryUpdate _ _).ctx).ldapSettings = _
      rw [tryUpdate_ctx]
      split
      · rfl
      · rfl
    | load => exact congrArg (fun m : Mem => m.ctx.ldapSettings) (load_ctx cfg _)
    | ok => rfl
    | main _ _ hmove => exact (setsList_move hmove hmain).2.1
  quiet := fun hquiet => hquiet.ldapSettings

theorem storedAt_connection (cfg : Config) :
    StoredAt cfg (·.connectionSettings) cfg.connectionSettings .storingConnection where
  attempt := fun hmove hpc => by
    cases hmove with
    | storeConnection => exact attempt_iff rfl
    | reset h | storeLdap h | load h | ok h | main h =>
      rw [hpc] at h
      cases h
  past := fun hmain hmove hlt => by
    cases hmove with
    | reset h | storeLdap h | storeConnection h =>
      rw [h] at hlt
      simp [Init.rank] at hlt
    | load => exact congrArg (fun m : Mem => m.ctx.connectionSettings) (load_ctx cfg _)
    | ok => rfl
    | main _ _ hmove => exact (setsList_move hmove hmain).2.2
  quiet := fun hquiet => hquiet.connectionSettings

/-! ### The servers of the list -/

theorem parsed_unique {parse : String → Except String Url} {serverList : String}
    {urls urls' : List Url} (h : ServerList.Parsed parse serverList urls)
    (h' : ServerList.Parsed parse serverList urls') : urls = urls' := by
  unfold ServerList.Parsed at h h'
  by_cases hempty : serverList = ""
  · rw [if_pos hempty] at h h'
    rw [h, h']
  · rw [if_neg hempty] at h h'
    have hinj : Function.Injective (@Except.ok String Url) := fun _ _ he => Except.ok.inj he
    exact List.map_injective_iff.mpr hinj (h.symm.trans h')

/-- The call with a list of these URLs begins to set them. -/
theorem processServerList_parsed {parse : String → Except String Url} {serverList : String}
    {urls : List Url} (h : ServerList.Parsed parse serverList urls) (sys : State) :
    (ServerList.processServerList parse sys serverList).sys = { sys with main := .clearing urls } := by
  have hvalid : ¬ ServerList.Invalid parse serverList := by
    rintro ⟨hne, piece, hpiece, e, he⟩
    unfold ServerList.Parsed at h
    rw [if_neg hne] at h
    have hmem : parse piece ∈ urls.map Except.ok := h ▸ List.mem_map_of_mem hpiece
    obtain ⟨url, -, hurl⟩ := List.mem_map.mp hmem
    rw [he] at hurl
    cases hurl
  obtain ⟨urls', hparsed, hcall⟩ := ServerList.call_valid hvalid sys
  rw [hcall, parsed_unique h hparsed]

/-- The URLs the main thread has still to add. -/
def toAdd : Main → List Url
  | .clearing urls | .adding urls | .opening _ _ urls | .listing _ _ urls => urls
  | _ => []

/-- Those added, each with the settings stored, and those to add are the
list. -/
structure Adding (urls : List Url) (tr : List (World × Act)) (w : World) : Prop where
  before : w.pc.rank < 4 → w.sys.main = .idle ∧ events added tr = []
  during : 4 ≤ w.pc.rank → w.sys.main ≠ .hung → ∃ done, done ++ toAdd w.sys.main = urls ∧
    events added tr = done.map fun url => (url, w.ctx.connectionSettings)
  ok : w.pc = .ok → w.sys.main = .idle

/-- No server is added by a step that leaves those to add. -/
theorem Adding.keep {urls : List Url} {tr : List (World × Act)} {t u : World} {a : Act}
    (h : Adding urls tr t) (ha : added t a = none) (hpc : u.pc.rank < 4 ↔ t.pc.rank < 4)
    (hmain : t.sys.main = .idle → u.sys.main = .idle)
    (hlost : t.sys.main = .hung → u.sys.main = .hung)
    (htoAdd : toAdd u.sys.main = toAdd t.sys.main)
    (hsettings : 4 ≤ t.pc.rank → u.ctx.connectionSettings = t.ctx.connectionSettings)
    (hok : u.pc = .ok → u.sys.main = .idle) : Adding urls (tr ++ [(t, a)]) u := by
  have hevents : events added (tr ++ [(t, a)]) = events added tr := by
    rw [events_snoc, ha, Option.toList_none, List.append_nil]
  refine ⟨fun hlt => ?_, fun hle hgoes => ?_, hok⟩
  · obtain ⟨hidle, hnil⟩ := h.before (hpc.mp hlt)
    exact ⟨hmain hidle, hevents.trans hnil⟩
  · have hle : 4 ≤ t.pc.rank := by
      have hnot : ¬ u.pc.rank < 4 := by omega
      exact Nat.le_of_not_lt fun hlt => hnot (hpc.mpr hlt)
    obtain ⟨done, hdone, hadded⟩ := h.during hle fun hhung => hgoes (hlost hhung)
    exact ⟨done, by rw [htoAdd, hdone], by rw [hevents, hadded, hsettings hle]⟩

/-- In the call: a URL moves from those to add to those added, or none does,
or the main thread is lost. -/
theorem adding_main {urls : List Url} {tr : List (World × Act)} {t : World} {net : Net} {m' : Mem}
    {main' : Main} {spawned : List Task} (h : Adding urls tr t)
    (hmain : setsList t.sys.main = true) (hpc : t.pc = .processing)
    (hmove : t.sys.main.Move t.sys.mem m' main' spawned) :
    Adding urls (tr ++ [(t, .init net)]) { t with
      sys := { t.sys with mem := m', main := main', tasks := t.sys.tasks ++ spawned } } := by
  have hle : 4 ≤ t.pc.rank := by
    rw [hpc]
    decide
  have hsettings := (setsList_move hmove hmain).2.2
  have hgoes : t.sys.main ≠ .hung := by
    intro hhung
    rw [hhung] at hmove
    cases hmove
  have hkeep : added t (.init net) = none → toAdd main' = toAdd t.sys.main →
      (t.sys.main = .idle → main' = .idle) → Adding urls (tr ++ [(t, .init net)]) { t with
        sys := { t.sys with mem := m', main := main', tasks := t.sys.tasks ++ spawned } } :=
    fun hadded htoAdd hidle => h.keep hadded Iff.rfl hidle (fun hhung => absurd hhung hgoes) htoAdd
      (fun _ => hsettings) fun he => by
      rw [show t.pc = .ok from he] at hpc
      cases hpc
  have hadded : added t (.init net) =
      (nextUrl t.sys.main).map fun url => (url, t.ctx.connectionSettings) := if_pos hpc
  generalize hm : t.sys.main = main at hmove hmain hadded hkeep hgoes
  cases hmove with
  | clear => exact hkeep hadded rfl fun h => by cases h
  | added => exact hkeep hadded rfl fun _ => rfl
  | opened => exact hkeep hadded rfl fun h => by cases h
  | openLost =>
    refine ⟨fun hlt => absurd hlt (Nat.not_lt_of_le hle), fun _ hgo => absurd rfl hgo, fun he => ?_⟩
    rw [show t.pc = .ok from he] at hpc
    cases hpc
  | list => exact hkeep hadded rfl fun h => by cases h
  | add =>
    rename_i url rest
    obtain ⟨done, hdone, hevents⟩ := h.during hle fun hhung => by
      rw [hm] at hhung
      cases hhung
    refine ⟨fun hlt => absurd hlt (Nat.not_lt_of_le hle), fun _ _ => ⟨done ++ [url], ?_, ?_⟩,
      fun he => ?_⟩
    · rw [List.append_assoc, ← hdone, hm]
      rfl
    · rw [events_snoc, hevents, hadded, List.map_append]
      rfl
    · rw [show t.pc = .ok from he] at hpc
      cases hpc
  | _ => cases hmain

theorem adding_step {cfg : Config} {urls : List Url}
    (hurls : ServerList.Parsed cfg.parse cfg.serverList urls) {tr : List (World × Act)}
    {t u : World} {a : Act} (h : Adding urls tr t) (hmain : setsList t.sys.main = true)
    (ha : t.step cfg a = some u) : Adding urls (tr ++ [(t, a)]) u := by
  by_cases hinit : ∃ net, a = .init net
  · obtain ⟨net, rfl⟩ := hinit
    have hnone : t.pc ≠ .processing → added t (.init net) = none := fun hne => if_neg hne
    cases step_init ha with
    | reset hpc =>
      exact h.keep (hnone (by rw [hpc]; decide)) (by simp [hpc, Init.rank]) id id rfl
        (fun hle => by simp [hpc, Init.rank] at hle) (fun he => by cases he)
    | storeLdap hpc =>
      exact h.keep (hnone (by rw [hpc]; decide)) (by simp [hpc, Init.rank])
        (fun hi => (tryUpdate_main t _).trans hi) (fun hi => (tryUpdate_main t _).trans hi)
        (congrArg toAdd (tryUpdate_main t _))
        (fun hle => by simp [hpc, Init.rank] at hle) (fun he => by cases he)
    | storeConnection hpc =>
      exact h.keep (hnone (by rw [hpc]; decide)) (by simp [hpc, Init.rank])
        (fun hi => (tryUpdate_main t _).trans hi) (fun hi => (tryUpdate_main t _).trans hi)
        (congrArg toAdd (tryUpdate_main t _))
        (fun hle => by simp [hpc, Init.rank] at hle) (fun he => by cases he)
    | load hpc =>
      obtain ⟨-, hnil⟩ := h.before (by rw [hpc]; decide)
      refine ⟨fun hlt => absurd hlt (by simp [Init.rank]), fun _ _ => ⟨[], ?_, ?_⟩,
        fun he => by cases he⟩
      · rw [processServerList_parsed hurls]
        rfl
      · rw [events_snoc, hnil, hnone (by rw [hpc]; decide)]
        rfl
    | ok hpc hidle =>
      have hadded : added t (.init net) = none := by
        unfold added
        rw [hidle]
        exact ite_self none
      exact h.keep hadded (by simp [hpc, Init.rank]) id id rfl (fun _ => rfl) fun _ => hidle
    | main hpc _ hmove => exact adding_main h hmain hpc hmove
  · have hquiet := quiet_step ha fun net hnet => hinit ⟨net, hnet⟩
    have hadded : added t a = none := by
      cases a with
      | init net => exact absurd ⟨net, rfl⟩ hinit
      | _ => rfl
    exact h.keep hadded (by rw [hquiet.pc]) (fun hi => hquiet.main.trans hi)
      (fun hi => hquiet.main.trans hi) (by rw [hquiet.main]) (fun _ => hquiet.connectionSettings)
      fun hpc => hquiet.main.trans (h.ok (hquiet.pc.symm.trans hpc))

theorem adding_run {cfg : Config} {urls : List Url}
    (hurls : ServerList.Parsed cfg.parse cfg.serverList urls) {mem : Mem}
    {tr : List (World × Act)} {w : World}
    (h : Run (World.step cfg) (World.start mem) tr w) : Adding urls tr w := by
  have hstart : Adding urls [] (World.start mem) :=
    ⟨fun _ => ⟨rfl, rfl⟩, fun hle => by simp [World.start, Init.rank] at hle,
      fun he => by cases he⟩
  exact start_history h hstart fun _ _ _ _ hmain hi ha => adding_step hurls hi hmain ha

/-! ### The settings in force -/

/-- Both attempts find the lock free, or the settings are what they are to
become. -/
def LocksFound (cfg : Config) (w : World) (a : Act) : Prop :=
  FindsLock (·.ldapSettings) cfg.ldapSettings .storingLdap w a ∧
    FindsLock (·.connectionSettings) cfg.connectionSettings .storingConnection w a

/-- **The configured settings are in force after start-up exactly if** no
detector task held the context lock at an attempt to store a setting that was
not yet there. -/
theorem settings_in_force (cfg : Config) (mem : Mem) (tr : List (World × Act)) (w : World)
    (h : Run (World.step cfg) (World.start mem) tr w) (hok : w.pc = .ok) :
    InForce cfg tr w ↔ Steps (LocksFound cfg) tr := by
  have hldap := stored_iff (storedAt_ldap cfg) (by decide) h (by rw [hok]; decide)
  have hconnection := stored_iff (storedAt_connection cfg) (by decide) h (by rw [hok]; decide)
  constructor
  · rintro ⟨h₁, h₂, -⟩
    exact (hldap.mp h₁).and (hconnection.mp h₂)
  · intro hfound
    have hsettings := hconnection.mpr (hfound.imp fun _ _ => And.right)
    refine ⟨hldap.mpr (hfound.imp fun _ _ => And.left), hsettings, fun urls hurls => ?_⟩
    obtain ⟨-, hduring, hidle⟩ := adding_run hurls h
    obtain ⟨done, hdone, hadded⟩ := hduring (by rw [hok]; decide) (by rw [hidle hok]; exact nofun)
    rw [hidle hok] at hdone
    rw [hadded, ← hdone, hsettings]
    exact congrArg _ (List.append_nil done).symm

theorem tryUpdate_holder (w : World) (update : VkLdapContext → VkLdapContext) :
    (w.tryUpdate update).holder = w.holder := by
  unfold World.tryUpdate
  split
  · rfl
  · rfl

/-- The initializer leaves the lock as it is between its steps. -/
theorem holder_init {cfg : Config} {w w' : World} (h : w.Move cfg w') : w'.holder = w.holder := by
  cases h with
  | storeLdap => exact tryUpdate_holder w _
  | storeConnection => exact tryUpdate_holder w _
  | _ => rfl

theorem locksFound_of_free {cfg : Config} {w : World} (h : w.holder = none) (a : Act) :
    LocksFound cfg w a := by
  cases a with
  | init net => exact ⟨fun _ => .inl h, fun _ => .inl h⟩
  | _ => exact ⟨trivial, trivial⟩

/-- An initializer that nobody comes in between of finds the lock free. -/
theorem locksFound_alone {cfg : Config} {mem : Mem} {tr : List (World × Act)} {w : World}
    (h : Run (World.step cfg) (World.start mem) tr w)
    (halone : Steps (fun _ a => ∃ net, a = .init net) tr) : Steps (LocksFound cfg) tr := by
  refine h.forall_steps halone (I := fun w => w.holder = none) rfl ?_ ?_
  · rintro t _ u ht ⟨net, rfl⟩ ha
    exact (holder_init (step_init ha)).trans ht
  · intro t a u ht _ _
    exact locksFound_of_free ht a

/-! ### With the detector, and without -/

/-- One server, with a pool of two, and a prefix for the names to bind. -/
def configured : Config where
  ldapSettings := { bindDbPrefix := "cn=" }
  connectionSettings := { connectionPoolSize := 2 }
  serverList := "ldap://a"
  parse := ServerList.urlParse

/-- The initializer with nobody in between. -/
def alone : List Act := List.replicate 10 (.init {})

theorem settings_in_force_alone : ∃ tr w,
    Run (World.step configured) (World.start ⟨.new, []⟩) tr w ∧ w.pc = .ok ∧
      InForce configured tr w := by
  obtain ⟨w, hw, hok⟩ : ∃ w, exec (World.step configured) (World.start ⟨.new, []⟩) alone = some w ∧
      w.pc = .ok := ⟨_, rfl, rfl⟩
  have hrun := exec_run hw
  refine ⟨_, w, hrun, hok, (settings_in_force configured _ _ w hrun hok).mpr ?_⟩
  exact locksFound_alone hrun fun x hx => ⟨_, List.eq_of_mem_replicate (mem_of_trace hx)⟩

/-- An iteration of the detector takes the lock before the attempts, and reads
the servers after them. -/
def detectorInBetween : List Act :=
  .init {} :: .lock .iteration :: .init {} :: .init {} :: .critical {} :: List.replicate 7 (.init {})

/-- The module is up, with the default settings and a pool of no connections. -/
theorem detector_in_between : ∃ tr w,
    Run (World.step configured) (World.start ⟨.new, []⟩) tr w ∧ w.pc = .ok ∧
      w.ctx.ldapSettings = {} ∧ events added tr = [("ldap://a", {})] ∧
      ¬ InForce configured tr w := by
  obtain ⟨w, hw, hok, hldap⟩ : ∃ w, exec (World.step configured) (World.start ⟨.new, []⟩)
      detectorInBetween = some w ∧ w.pc = .ok ∧ w.ctx.ldapSettings = {} := ⟨_, rfl, rfl, rfl⟩
  refine ⟨_, w, exec_run hw, hok, hldap, rfl, fun hforce => ?_⟩
  have hset := hforce.ldapSettings
  rw [hldap] at hset
  revert hset
  decide

end Startup
end System
end ValkeyLdap
