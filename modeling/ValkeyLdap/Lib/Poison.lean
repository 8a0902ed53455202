/-
# A mutex that is poisoned

`std::sync::Mutex`: one call at a time has the guard, others wait for it. A
panic of the call that has it poisons the mutex, and from then on every
`lock().unwrap()` panics. Calls are any type; `body` says what a call makes of
the data, and whether it panics there.

`outcomes_of_run`: whatever the order in which threads come to the lock, the
calls up to the first that panics are done one after the other (`folded`), and
all after it panic and change nothing. So a call panics exactly if it, or one
before it, would panic where they are done one after the other
(`Account.panicked_iff`).

Key theorems: `account_step`, `outcomes_of_run`, `Account.panicked_iff`.
-/
import ValkeyLdap.Lib.Runs

namespace Poison

open Runs

variable {κ α : Type*}

/-- The data, whether the mutex is poisoned, and the call that has the guard. -/
structure Mutex (κ α : Type*) where
  data : α
  poisoned : Bool
  holder : Option κ

def Mutex.new (data : α) : Mutex κ α := ⟨data, false, none⟩

inductive Act (κ : Type*)
  /-- A call comes to the lock when it is free. -/
  | lock (c : κ)
  /-- The call that has the guard ends. -/
  | unlock

inductive Outcome
  | done
  | panicked
  deriving DecidableEq, Repr

variable (body : κ → α → α × Bool)

def step (m : Mutex κ α) : Act κ → Option (Mutex κ α)
  | .lock c =>
    if m.holder.isSome then none
    else if m.poisoned then some m
    else some { m with holder := some c }
  | .unlock =>
    match m.holder with
    | some c => some ⟨(body c m.data).1, (body c m.data).2, none⟩
    | none => none

/-- The call that ends with the step, and how. -/
def outcome (m : Mutex κ α) : Act κ → Option (κ × Outcome)
  | .lock c => if m.poisoned then some (c, .panicked) else none
  | .unlock => m.holder.map fun c => (c, if (body c m.data).2 then .panicked else .done)

/-- The calls done one after the other. -/
def folded (data : α) (calls : List κ) : α := calls.foldl (fun data c => (body c data).1) data

/-- The calls one after the other, none of which panics. -/
def Calm (data : α) (calls : List κ) : Prop :=
  ∀ pre c post, calls = pre ++ c :: post → (body c (folded body data pre)).2 = false

/-- One of the calls would panic after those before it. -/
def Panics (data : α) (calls : List κ) : Prop :=
  ∃ pre c post, calls = pre ++ c :: post ∧ (body c (folded body data pre)).2 = true

/-- What has come of the calls so far: all are done; or one panicked, and all
after it. -/
inductive Account (data : α) : List (κ × Outcome) → Mutex κ α → Prop
  | fine (calls : List κ) {holder : Option κ} : Calm body data calls →
      Account data (calls.map (·, .done)) ⟨folded body data calls, false, holder⟩
  | poisoned (calls : List κ) (c : κ) (later : List κ) : Calm body data calls →
      (body c (folded body data calls)).2 = true →
      Account data (calls.map (·, .done) ++ (c, .panicked) :: later.map (·, .panicked))
        ⟨folded body data (calls ++ [c]), true, none⟩

variable {body}

theorem folded_snoc (data : α) (calls : List κ) (c : κ) :
    folded body data (calls ++ [c]) = (body c (folded body data calls)).1 := by
  simp [folded]

theorem calm_snoc {data : α} {calls : List κ} {c : κ} (h : Calm body data calls)
    (hc : (body c (folded body data calls)).2 = false) : Calm body data (calls ++ [c]) := by
  intro pre d post hsplit
  rcases List.eq_nil_or_concat post with rfl | ⟨post, x, rfl⟩
  · obtain ⟨rfl, hd⟩ := List.append_inj' hsplit rfl
    obtain rfl : c = d := (List.cons.inj hd).1
    exact hc
  · have hsplit' : calls ++ [c] = (pre ++ d :: post) ++ [x] := by
      rw [hsplit, List.concat_eq_append, List.append_assoc, List.cons_append]
    exact h pre d post (List.append_inj' hsplit' rfl).1

theorem account_step {data : α} {outs : List (κ × Outcome)} {m m' : Mutex κ α} {a : Act κ}
    (h : Account body data outs m) (hs : step body m a = some m') :
    Account body data (outs ++ (outcome body m a).toList) m' := by
  cases h with
  | @fine calls holder hcalm =>
    cases a with
    | lock c =>
      cases holder with
      | some d => simp [step] at hs
      | none =>
        obtain rfl : (⟨folded body data calls, false, some c⟩ : Mutex κ α) = m' := by
          simpa [step] using hs
        simpa [outcome] using Account.fine calls hcalm
    | unlock =>
      cases holder with
      | none => simp [step] at hs
      | some c =>
        cases hpanic : (body c (folded body data calls)).2 with
        | false =>
          obtain rfl : (⟨folded body data (calls ++ [c]), false, none⟩ : Mutex κ α) = m' := by
            simpa [step, folded_snoc, hpanic] using hs
          simpa [outcome, hpanic] using Account.fine _ (calm_snoc hcalm hpanic)
        | true =>
          obtain rfl : (⟨folded body data (calls ++ [c]), true, none⟩ : Mutex κ α) = m' := by
            simpa [step, folded_snoc, hpanic] using hs
          simpa [outcome, hpanic] using Account.poisoned calls c [] hcalm hpanic
  | poisoned calls c later hcalm hpanic =>
    cases a with
    | lock d =>
      obtain rfl : (⟨folded body data (calls ++ [c]), true, none⟩ : Mutex κ α) = m' := by
        simpa [step] using hs
      simpa [outcome] using Account.poisoned calls c (later ++ [d]) hcalm hpanic
    | unlock => simp [step] at hs

/-- **One panic poisons, and everything before it is as if done in order.** -/
theorem outcomes_of_run {data : α} {m : Mutex κ α} {tr : List (Mutex κ α × Act κ)}
    (h : Run (step body) (.new data) tr m) :
    Account body data (events (outcome body) tr) m := by
  refine h.history (I := fun tr m => Account body data (events (outcome body) tr) m) steps_true
    (Account.fine [] ?_) fun pre m a m' hm _ hs => ?_
  · intro pre c post hsplit
    cases pre <;> cases hsplit
  · rw [events_snoc]
    exact account_step hm hs

theorem Panics.append {data : α} {calls : List κ} (h : Panics body data calls) (more : List κ) :
    Panics body data (calls ++ more) := by
  obtain ⟨pre, c, post, rfl, hpanic⟩ := h
  exact ⟨pre, c, post ++ more, by rw [List.append_assoc, List.cons_append], hpanic⟩

theorem Calm.not_panics {data : α} {calls : List κ} (h : Calm body data calls) :
    ¬ Panics body data calls := by
  rintro ⟨pre, c, post, hsplit, hpanic⟩
  rw [h pre c post hsplit] at hpanic
  cases hpanic

theorem map_fst_pair (calls : List κ) (o : Outcome) :
    (calls.map (·, o)).map Prod.fst = calls := by
  rw [List.map_map]
  exact List.map_id calls

/-- Among calls that are done none panics. -/
theorem Calm.panicked_iff {data : α} {calls : List κ} (h : Calm body data calls)
    {before later : List (κ × Outcome)} {x : κ × Outcome}
    (hsplit : calls.map (·, .done) = before ++ x :: later) :
    x.2 = .panicked ↔ Panics body data ((before ++ [x]).map Prod.fst) := by
  have hx : x ∈ calls.map (·, Outcome.done) := by
    rw [hsplit]
    exact List.mem_append_right _ List.mem_cons_self
  obtain ⟨c, -, rfl⟩ := List.mem_map.mp hx
  refine ⟨by rintro ⟨⟩, fun hpanics => absurd ?_ h.not_panics⟩
  have hcalls : calls = (before ++ [(c, Outcome.done)]).map Prod.fst ++ later.map Prod.fst := by
    rw [← List.map_append, List.append_assoc, List.singleton_append, ← hsplit, map_fst_pair]
  rw [hcalls]
  exact hpanics.append _

/-- From a call that panics on all do. -/
theorem panicked_from {data : α} {calls later : List κ} {c : κ}
    (hpanic : (body c (folded body data calls)).2 = true) {pre rest : List (κ × Outcome)}
    {x : κ × Outcome} (hsplit : (c :: later).map (·, Outcome.panicked) = pre ++ x :: rest) :
    x.2 = .panicked ∧
      Panics body data ((calls.map (·, Outcome.done) ++ pre ++ [x]).map Prod.fst) := by
  have hx : x ∈ (c :: later).map (·, Outcome.panicked) := by
    rw [hsplit]
    exact List.mem_append_right _ List.mem_cons_self
  obtain ⟨d, -, rfl⟩ := List.mem_map.mp hx
  refine ⟨rfl, ?_⟩
  have hcalls : Panics body data (calls ++ [c]) := ⟨calls, c, [], rfl, hpanic⟩
  rw [List.append_assoc, List.map_append, map_fst_pair]
  cases pre with
  | nil =>
    obtain ⟨rfl, -⟩ := Prod.mk.inj (List.cons.inj hsplit).1
    exact hcalls
  | cons y pre =>
    obtain rfl := (List.cons.inj hsplit).1
    have hmore := hcalls.append ((pre ++ [(d, Outcome.panicked)]).map Prod.fst)
    rw [List.append_assoc] at hmore
    exact hmore

/-- **Which calls panic**: those up to which one would. -/
theorem Account.panicked_iff {data : α} {outs before later : List (κ × Outcome)} {x : κ × Outcome}
    {m : Mutex κ α} (h : Account body data outs m) (hsplit : outs = before ++ x :: later) :
    x.2 = .panicked ↔ Panics body data ((before ++ [x]).map Prod.fst) := by
  cases h with
  | fine calls hcalm => exact hcalm.panicked_iff hsplit
  | poisoned calls c later' hcalm hpanic =>
    rcases List.append_eq_append_iff.mp hsplit with ⟨pre, rfl, hpre⟩ | ⟨_ | ⟨y, done⟩, hdone, hrest⟩
    · -- the call is that which panics first, or a later one
      obtain ⟨hx, hpanics⟩ := panicked_from hpanic hpre
      exact iff_of_true hx hpanics
    · have hfirst : (c :: later').map (·, Outcome.panicked) = [] ++ x :: later := hrest.symm
      obtain ⟨hx, hpanics⟩ := panicked_from hpanic hfirst
      rw [List.append_nil] at hpanics hdone
      exact iff_of_true hx (hdone ▸ hpanics)
    · obtain ⟨rfl, -⟩ := List.cons.inj hrest
      exact hcalm.panicked_iff hdone

end Poison
