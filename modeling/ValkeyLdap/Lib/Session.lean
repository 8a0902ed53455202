/-
# Computations over a session

A client runs requests over a session with a server: a request reads and
changes what the server keeps of the session and is answered by a value or an
error; the computation may also crash and answer nothing. `M` is their monad,
`ok_of_bind` takes a successful run apart.

`Forgets` says of a computation that neither its answer nor the session it
leaves depends on the session it began with. It is decided by the first thing
the computation does (`Forgets.bind`).

A directory session keeps the identity that is bound. `Handle` is what a
client holds, whatever the server keeps; `Directory` is a server whose answers
depend on the identity and the request alone, with the rules of RFC 4511 and
RFC 4513 for a simple bind: the session is anonymous while it is processed,
and the named user's after it only if both name and password were given.

Key theorems: `ok_of_bind`, `run_bind_eq_none`, `Forgets.bind`, `Directory.simpleBind_forgets`.
-/
import Mathlib.Data.List.Basic

namespace Session

/-! ### Computations -/

/-- `none` is a crash; an error ends the computation, in a session still. -/
abbrev M (σ ε : Type) := ExceptT ε (StateT σ Option)

variable {σ ε α β : Type}

def run (m : M σ ε α) (s : σ) : Option (Except ε α × σ) := m s

/-- One request. -/
def request (f : σ → Except ε α × σ) : M σ ε α := fun s => some (f s)

def crash : M σ ε α := fun _ => none

@[simp] theorem run_request (f : σ → Except ε α × σ) (s : σ) :
    run (request f) s = some (f s) := rfl

@[simp] theorem run_pure (a : α) (s : σ) : run (pure a : M σ ε α) s = some (.ok a, s) := rfl

theorem run_bind (m : M σ ε α) (f : α → M σ ε β) (s : σ) :
    run (m >>= f) s = (run m s).bind fun r =>
      match r with
      | (.ok a, t) => run (f a) t
      | (.error e, t) => some (.error e, t) := by
  show (m s).bind _ = (m s).bind _
  congr 1
  funext r
  obtain ⟨r, t⟩ := r
  cases r with
  | ok a => rfl
  | error e => rfl

/-- **A successful run is a successful run of each part.** -/
theorem ok_of_bind {m : M σ ε α} {f : α → M σ ε β} {s u : σ} {b : β}
    (h : run (m >>= f) s = some (.ok b, u)) :
    ∃ a t, run m s = some (.ok a, t) ∧ run (f a) t = some (.ok b, u) := by
  rw [run_bind] at h
  obtain ⟨⟨r, t⟩, hm, hf⟩ := Option.bind_eq_some_iff.mp h
  cases r with
  | ok a => exact ⟨a, t, hm, hf⟩
  | error e => cases (Prod.mk.inj (Option.some.inj hf)).1

/-- An error is the first part's, or the second's after a success. -/
theorem error_of_bind {m : M σ ε α} {f : α → M σ ε β} {s u : σ} {e : ε}
    (h : run (m >>= f) s = some (.error e, u)) :
    run m s = some (.error e, u) ∨
      ∃ a t, run m s = some (.ok a, t) ∧ run (f a) t = some (.error e, u) := by
  rw [run_bind] at h
  obtain ⟨⟨r, t⟩, hm, hf⟩ := Option.bind_eq_some_iff.mp h
  cases r with
  | ok a => exact .inr ⟨a, t, hm, hf⟩
  | error e' =>
    have hf : some (Except.error e', t) = some (Except.error e, u) := hf
    left
    rw [hm]
    obtain ⟨he, rfl⟩ := Prod.mk.inj (Option.some.inj hf)
    rw [Except.error.inj he]

theorem run_bind_ok {m : M σ ε α} {f : α → M σ ε β} {s t : σ} {a : α}
    (h : run m s = some (.ok a, t)) : run (m >>= f) s = run (f a) t := by
  rw [run_bind, h]
  rfl

theorem run_bind_error {m : M σ ε α} {f : α → M σ ε β} {s t : σ} {e : ε}
    (h : run m s = some (.error e, t)) : run (m >>= f) s = some (.error e, t) := by
  rw [run_bind, h]
  rfl

/-! ### Crashes -/

/-- The computation crashes in no session. -/
def Total (m : M σ ε α) : Prop := ∀ s, run m s ≠ none

theorem total_request (f : σ → Except ε α × σ) : Total (request f) := fun _ h => by cases h

theorem total_pure (a : α) : Total (pure a : M σ ε α) := fun _ h => by cases h

theorem Total.bind {m : M σ ε α} {f : α → M σ ε β} (hm : Total m) (hf : ∀ a, Total (f a)) :
    Total (m >>= f) := by
  intro s h
  rw [run_bind] at h
  cases hr : run m s with
  | none => exact hm s hr
  | some r =>
    obtain ⟨r, t⟩ := r
    rw [hr] at h
    cases r with
    | ok a => exact hf a t h
    | error e => cases h

/-- **A crash is a crash of the first part, or of what follows its success.** -/
theorem run_bind_eq_none {m : M σ ε α} {f : α → M σ ε β} {s : σ} :
    run (m >>= f) s = none ↔
      run m s = none ∨ ∃ a t, run m s = some (.ok a, t) ∧ run (f a) t = none := by
  rw [run_bind]
  cases hr : run m s with
  | none => simp
  | some r =>
    obtain ⟨r, t⟩ := r
    cases r with
    | ok a => simp
    | error e => simp

/-! ### Errors -/

/-- The errors of the computation are of this kind. -/
def Fails (P : ε → Prop) (m : M σ ε α) : Prop := ∀ s e t, run m s = some (.error e, t) → P e

theorem fails_pure (P : ε → Prop) (a : α) : Fails P (pure a : M σ ε α) := fun _ _ _ h => by cases h

theorem Fails.bind {P : ε → Prop} {m : M σ ε α} {f : α → M σ ε β} (hm : Fails P m)
    (hf : ∀ a, Fails P (f a)) : Fails P (m >>= f) := by
  intro s e u h
  rcases error_of_bind h with h | ⟨a, t, -, h⟩
  · exact hm s e u h
  · exact hf a t e u h

/-! ### Independence of the session -/

/-- Neither the answer nor the session left depends on the one before. -/
def Forgets (m : M σ ε α) : Prop := ∀ s t, run m s = run m t

/-- **What forgets the session first, forgets it.** -/
theorem Forgets.bind {m : M σ ε α} (h : Forgets m) (f : α → M σ ε β) : Forgets (m >>= f) := by
  intro s t
  rw [run_bind, run_bind, h s t]

/-! ### Directory sessions -/

/-- What a client holds of a session: a simple bind with a name and a
password, and a search. -/
structure Handle (σ ρ α ε : Type) where
  simpleBind : String → String → σ → Except ε Unit × σ
  search : ρ → σ → Except ε α × σ

/-- The server lets nobody bind by a name and a password unless the password
is a credential of the name. -/
def Handle.Verifies {ρ : Type} (h : Handle σ ρ α ε) (credential : String → String → Prop) : Prop :=
  ∀ dn passwd s, (h.simpleBind dn passwd s).1 = .ok () → dn ≠ "" → passwd ≠ "" →
    credential dn passwd

inductive Identity
  | anonymous
  | user (dn : String)
  deriving DecidableEq, Repr

/-- A server that answers by the identity bound and the request. -/
structure Directory (ρ α ε : Type) where
  bind : Identity → String → String → Except ε Unit
  search : Identity → ρ → Except ε α

namespace Directory

variable {ρ : Type} (d : Directory ρ α ε)

/-- The identity a successful simple bind leaves: a bind without a name, or
without a password, is anonymous. -/
def bound (dn passwd : String) : Identity :=
  if dn = "" ∨ passwd = "" then .anonymous else .user dn

/-- The session is anonymous from the moment the bind arrives. -/
def simpleBind (dn passwd : String) : Identity → Except ε Unit × Identity := fun _ =>
  match d.bind .anonymous dn passwd with
  | .ok () => (.ok (), bound dn passwd)
  | .error err => (.error err, .anonymous)

def handle : Handle Identity ρ α ε where
  simpleBind := d.simpleBind
  search := fun r i => (d.search i r, i)

/-- The identity bound after these binds on a new connection. -/
def after (binds : List (String × String)) : Identity :=
  binds.foldl (fun i b => (d.simpleBind b.1 b.2 i).2) .anonymous

/-- **A bind forgets who was bound.** -/
theorem simpleBind_forgets (dn passwd : String) : Forgets (request (d.simpleBind dn passwd)) :=
  fun _ _ => rfl

end Directory
end Session
