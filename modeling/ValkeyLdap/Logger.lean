/-
# The logger's context

`ValkeyGlobalLogger` (`src/logging.rs`) keeps a context of Valkey behind a
mutex: `setup_for_context` detaches a new one and frees the one before,
`teardown` frees it, and every log call of any thread uses it while it has the
guard. `log_internal` panics there on a message with a NUL, which poisons the
mutex for all.

`logger_context_safe`: Valkey holds exactly the context that the logger has, so
none is freed twice, used once it is freed, or left behind; a log call with a NUL
panics while there is a context, all calls after it panic too, and no others.

Key theorems: `sound_body`, `logger_context_safe`.
-/
import ValkeyLdap.Lib.Poison
import ValkeyLdap.Logging

namespace ValkeyLdap
namespace Logging
namespace Logger

open Runs
open Poison (Mutex Act Outcome Account)

/-- The pointer in the mutex, none when it is null; the contexts that Valkey has
detached and not freed, and how many it has ever detached; `misused` once a
context has been freed or used that is not among them. -/
structure Data where
  context : Option ℕ := none
  live : List ℕ := []
  detached : ℕ := 0
  misused : Bool := false
  deriving DecidableEq, Repr

/-- `RedisModule_FreeThreadSafeContext`. -/
def Data.free (d : Data) (ctx : ℕ) : Data :=
  { d with live := d.live.erase ctx, misused := d.misused || !d.live.contains ctx }

/-- `RedisModule_GetDetachedThreadSafeContext`. -/
def Data.detach (d : Data) : Data × ℕ :=
  ({ d with live := d.live ++ [d.detached], detached := d.detached + 1 }, d.detached)

/-- `RedisModule_Log`. -/
def Data.use (d : Data) (ctx : ℕ) : Data :=
  { d with misused := d.misused || !d.live.contains ctx }

inductive Call
  | setupForContext
  | teardown
  | log (r : Record)

/-- `init`. -/
def Data.init (d : Data) : Data :=
  let freed := match d.context with
    | some ctx => d.free ctx
    | none => d
  { freed.detach.1 with context := some freed.detach.2 }

/-- `deinit`. -/
def Data.deinit (d : Data) : Data :=
  match d.context with
  | some ctx => { d.free ctx with context := none }
  | none => d

/-- `log`: nothing without a context; a panic of `log_internal` comes before the
context is used. -/
def Data.log (d : Data) (r : Record) : Data × Bool :=
  match d.context with
  | some ctx =>
    match logInternal r.level r.message with
    | some () => (d.use ctx, false)
    | none => (d, true)
  | none => (d, false)

/-- What a call does while it has the guard, and whether it panics there. -/
def body : Call → Data → Data × Bool
  | .setupForContext, d => (d.init, false)
  | .teardown, d => (d.deinit, false)
  | .log r, d => d.log r

/-- Valkey holds the context of the logger and no other. -/
structure Sound (d : Data) : Prop where
  live : d.live = d.context.toList
  detached : ∀ ctx ∈ d.live, ctx < d.detached
  used : d.misused = false

theorem sound_new : Sound {} := ⟨rfl, fun _ h => absurd h List.not_mem_nil, rfl⟩

theorem Sound.free {d : Data} {ctx : ℕ} (h : Sound d) (hctx : d.context = some ctx) :
    (d.free ctx).live = [] ∧ (d.free ctx).misused = false := by
  have hlive : d.live = [ctx] := by rw [h.live, hctx, Option.toList_some]
  constructor
  · simp [Data.free, hlive]
  · simp [Data.free, hlive, h.used]

theorem sound_body {d : Data} (h : Sound d) (c : Call) : Sound (body c d).1 := by
  cases c with
  | setupForContext =>
    have hfreed : ∀ freed : Data, freed.live = [] → freed.misused = false →
        Sound { freed.detach.1 with context := some freed.detach.2 } := by
      intro freed hlive hused
      refine ⟨by simp [Data.detach, hlive], fun ctx hctx => ?_, hused⟩
      have : ctx = freed.detached := by simpa [Data.detach, hlive] using hctx
      simp [Data.detach, this]
    show Sound d.init
    unfold Data.init
    cases hctx : d.context with
    | none => exact hfreed d (by rw [h.live, hctx, Option.toList_none]) h.used
    | some ctx => exact hfreed (d.free ctx) (h.free hctx).1 (h.free hctx).2
  | teardown =>
    show Sound d.deinit
    unfold Data.deinit
    cases hctx : d.context with
    | none => exact h
    | some ctx =>
      have hlive := (h.free hctx).1
      refine ⟨hlive, fun x hx => ?_, (h.free hctx).2⟩
      rw [hlive] at hx
      cases hx
  | log r =>
    show Sound (d.log r).1
    unfold Data.log
    cases hctx : d.context with
    | none => exact h
    | some ctx =>
      have hlive : d.live = [ctx] := by rw [h.live, hctx, Option.toList_some]
      cases logInternal r.level r.message with
      | none => exact h
      | some u => exact ⟨h.live, h.detached, by simp [Data.use, hlive, h.used]⟩

/-- A call panics with the guard on a record that is refused, and only where
there is a context. -/
theorem body_panics (d : Data) (c : Call) :
    (body c d).2 = true ↔ ∃ r, c = .log r ∧ d.context ≠ none ∧ ¬ r.Accepted := by
  cases c with
  | setupForContext => simp [body]
  | teardown => simp [body]
  | log r =>
    have hlog : (body (.log r) d).2 = (d.log r).2 := rfl
    rw [hlog, Data.log]
    cases hctx : d.context with
    | none => simp
    | some ctx =>
      unfold Record.Accepted
      cases hlog : logInternal r.level r.message <;> simp [hlog]

/-- A log call leaves the logger its context. -/
theorem log_context (d : Data) (r : Record) : (body (.log r) d).1.context = d.context := by
  show (d.log r).1.context = d.context
  unfold Data.log
  cases hctx : d.context with
  | none => exact hctx
  | some ctx => cases logInternal r.level r.message <;> exact hctx

theorem sound_folded {d : Data} (h : Sound d) (calls : List Call) :
    Sound (Poison.folded body d calls) := by
  induction calls generalizing d with
  | nil => exact h
  | cons c calls ih => exact ih (sound_body h c)

/-- Whether there is a context after a call. -/
def Call.leavesContext (before : Bool) : Call → Bool
  | .setupForContext => true
  | .teardown => false
  | .log _ => before

/-- The calls leave a context: of those that set up or tear down, the last sets
up. -/
def hasContext (calls : List Call) : Bool := calls.foldl Call.leavesContext false

/-- There is a log call with a NUL among the calls, while there is a context. -/
def MeetsNul (calls : List Call) : Prop :=
  ∃ before r after, calls = before ++ .log r :: after ∧ hasContext before = true ∧
    clean r.args = false

theorem isSome_body (d : Data) (c : Call) :
    (body c d).1.context.isSome = c.leavesContext d.context.isSome := by
  cases c with
  | setupForContext => rfl
  | teardown =>
    show d.deinit.context.isSome = false
    unfold Data.deinit
    cases hctx : d.context with
    | none => rw [hctx]; rfl
    | some ctx => rfl
  | log r => rw [log_context]; rfl

theorem isSome_folded (d : Data) (calls : List Call) :
    (Poison.folded body d calls).context.isSome =
      calls.foldl Call.leavesContext d.context.isSome := by
  induction calls generalizing d with
  | nil => rfl
  | cons c calls ih =>
    show (Poison.folded body (body c d).1 calls).context.isSome = _
    rw [ih, isSome_body]
    rfl

/-- A call after others panics on a NUL, while there is a context. -/
theorem panics_after (calls : List Call) (c : Call) :
    (body c (Poison.folded body {} calls)).2 = true ↔
      ∃ r, c = .log r ∧ hasContext calls = true ∧ clean r.args = false := by
  have hcontext : (Poison.folded body {} calls).context ≠ none ↔ hasContext calls = true := by
    rw [← Option.isSome_iff_ne_none, isSome_folded]
    rfl
  have haccepted (r : Record) : ¬ r.Accepted ↔ clean r.args = false := by
    rw [logInternal_record, Bool.not_eq_true]
  simp only [body_panics, hcontext, haccepted]

theorem panics_iff (calls : List Call) : Poison.Panics body {} calls ↔ MeetsNul calls := by
  constructor
  · rintro ⟨before, c, after, hcalls, hpanic⟩
    obtain ⟨r, rfl, hctx, hnul⟩ := (panics_after before c).mp hpanic
    exact ⟨before, r, after, hcalls, hctx, hnul⟩
  · rintro ⟨before, r, after, hcalls, hctx, hnul⟩
    exact ⟨before, .log r, after, hcalls, (panics_after before _).mpr ⟨r, rfl, hctx, hnul⟩⟩

/-- What holds of the logger after a run. -/
structure Safe (outs : List (Call × Outcome)) (m : Mutex Call Data) : Prop where
  /-- Valkey holds the logger's context and no other, none is misused. -/
  live : m.data.live = m.data.context.toList
  used : m.data.misused = false
  /-- A call panics exactly if it, or one before it, is a log call with a NUL
  while there is a context. -/
  outcomes : ∀ before x later, outs = before ++ x :: later →
    (x.2 = .panicked ↔ MeetsNul ((before ++ [x]).map Prod.fst))
  /-- There is a context if the calls leave one, and once a call has panicked. -/
  context : ¬ MeetsNul (outs.map Prod.fst) →
    (m.data.context ≠ none ↔ hasContext (outs.map Prod.fst) = true)
  kept : MeetsNul (outs.map Prod.fst) → m.data.context ≠ none

/-- **The logger's context is safe**, whatever threads log and in whatever order
the module is set up and torn down. While there is a context a log call with a NUL
panics, and so does every call after it; no other does. -/
theorem logger_context_safe (tr : List (Mutex Call Data × Act Call)) (m : Mutex Call Data)
    (h : Run (Poison.step body) (.new {}) tr m) : Safe (events (Poison.outcome body) tr) m := by
  have haccount := Poison.outcomes_of_run h
  generalize events (Poison.outcome body) tr = outs at haccount
  have houtcomes : ∀ before x later, outs = before ++ x :: later →
      (x.2 = .panicked ↔ MeetsNul ((before ++ [x]).map Prod.fst)) :=
    fun before x later hsplit => (haccount.panicked_iff hsplit).trans (panics_iff _)
  cases haccount with
  | fine calls hcalm =>
    have hsound := sound_folded sound_new calls
    have hcalls := Poison.map_fst_pair calls Outcome.done
    refine ⟨hsound.live, hsound.used, houtcomes, fun _ => ?_, fun hnul => ?_⟩
    · rw [hcalls, ← Option.isSome_iff_ne_none, isSome_folded]
      rfl
    · rw [hcalls, ← panics_iff] at hnul
      exact absurd hnul hcalm.not_panics
  | poisoned calls c later _ hpanic =>
    have hsound := sound_folded sound_new (calls ++ [c])
    obtain ⟨r, rfl, hctx, hnul⟩ := (panics_after _ _).mp hpanic
    refine ⟨hsound.live, hsound.used, houtcomes, fun hnone => absurd ?_ hnone, fun _ => ?_⟩
    · refine ⟨calls, r, later, ?_, hctx, hnul⟩
      rw [List.map_append, List.map_cons, Poison.map_fst_pair, Poison.map_fst_pair]
    · rw [← Option.isSome_iff_ne_none, isSome_folded, List.foldl_append]
      exact hctx

/-- A load, a message and an unload; a load again, and a message with a NUL that
another thread waits behind. -/
def secondLoad : List (Act Call) :=
  [.lock .setupForContext, .unlock, .lock (.log ⟨.error, authSite "1" rfl, "down"⟩), .unlock,
    .lock .teardown, .unlock, .lock .setupForContext, .unlock,
    .lock (.log ⟨.error, authSite "1" rfl, String.singleton (Char.ofNat 0)⟩), .unlock,
    .lock .teardown]

theorem logger_context_safe_secondLoad : ∃ m : Mutex Call Data,
    Poison.Mutex.data m = { context := some 1, live := [1], detached := 2 } ∧
      exec (Poison.step body) (.new {}) secondLoad = some m ∧
      Safe (events (Poison.outcome body) (trace (Poison.step body) (.new {}) secondLoad)) m :=
  ⟨_, rfl, rfl, logger_context_safe _ _
    (exec_run (show exec (Poison.step body) (.new {}) secondLoad = some _ from rfl))⟩

end Logger
end Logging
end ValkeyLdap
