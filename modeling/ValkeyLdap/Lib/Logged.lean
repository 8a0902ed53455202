/-
# Computations that log

A computation over a session (`Session.M`) that also hands records to a
logger, in order; a record handed over stays so if the computation crashes
later. `erase` forgets the records and gives the computation back, step by
step (`erase_bind`). `Safe` is the triple for what is logged: every record is
acceptable, and the value or the error is as stated.

Key theorems: `erase_bind`, `Safe.bind`.
-/
import ValkeyLdap.Lib.Session

namespace Session

/-- The records, and what the computation does. -/
structure Logged (ρ σ ε α : Type) where
  exec : σ → List ρ × Option (Except ε α × σ)

namespace Logged

variable {ρ σ ε α β : Type}

def log (record : ρ) : Logged ρ σ ε Unit := ⟨fun s => ([record], some (.ok (), s))⟩

/-- A computation that logs nothing. -/
def silent (m : M σ ε α) : Logged ρ σ ε α := ⟨fun s => ([], run m s)⟩

def erase (m : Logged ρ σ ε α) : M σ ε α := fun s => (m.exec s).2

def records (m : Logged ρ σ ε α) (s : σ) : List ρ := (m.exec s).1

protected def bind (m : Logged ρ σ ε α) (f : α → Logged ρ σ ε β) : Logged ρ σ ε β :=
  ⟨fun s =>
    match m.exec s with
    | (rs, some (.ok a, t)) => (rs ++ ((f a).exec t).1, ((f a).exec t).2)
    | (rs, some (.error e, t)) => (rs, some (.error e, t))
    | (rs, none) => (rs, none)⟩

instance : Monad (Logged ρ σ ε) where
  pure a := silent (pure a)
  bind := Logged.bind

@[simp] theorem erase_log (record : ρ) : erase (log record : Logged ρ σ ε Unit) = pure () := rfl

@[simp] theorem erase_silent (m : M σ ε α) : erase (silent m : Logged ρ σ ε α) = m := rfl

@[simp] theorem erase_pure (a : α) : erase (pure a : Logged ρ σ ε α) = pure a := rfl

@[simp] theorem records_log (record : ρ) (s : σ) :
    records (log record : Logged ρ σ ε Unit) s = [record] := rfl

@[simp] theorem records_silent (m : M σ ε α) (s : σ) :
    records (silent m : Logged ρ σ ε α) s = [] := rfl

/-- **Without its records a computation runs its parts without theirs.** -/
@[simp] theorem erase_bind (m : Logged ρ σ ε α) (f : α → Logged ρ σ ε β) :
    erase (m >>= f) = erase m >>= fun a => erase (f a) := by
  funext s
  show run (erase (m.bind f)) s = run (erase m >>= fun a => erase (f a)) s
  rw [run_bind]
  show ((m.bind f).exec s).2 = Option.bind (m.exec s).2 _
  unfold Logged.bind
  rcases h : m.exec s with ⟨rs, _ | ⟨_ | a, t⟩⟩
  · simp [h]
  · simp [h]
  · simp [h, run, erase]

/-- What is logged: the first part's records, and after a success the second's. -/
theorem records_bind (m : Logged ρ σ ε α) (f : α → Logged ρ σ ε β) (s : σ) :
    (∃ a t, run (erase m) s = some (.ok a, t) ∧
      records (m >>= f) s = records m s ++ records (f a) t) ∨
      (∀ a t, run (erase m) s ≠ some (.ok a, t)) ∧ records (m >>= f) s = records m s := by
  show (∃ a t, (m.exec s).2 = _ ∧ ((m.bind f).exec s).1 = (m.exec s).1 ++ _) ∨
    (∀ a t, (m.exec s).2 ≠ _) ∧ ((m.bind f).exec s).1 = (m.exec s).1
  unfold Logged.bind
  rcases h : m.exec s with ⟨rs, _ | ⟨e | a, t⟩⟩
  · right
    constructor
    · intro a t he
      cases he
    · simp [h]
  · right
    constructor
    · intro a t he
      cases he
    · simp [h]
  · left
    refine ⟨a, t, rfl, ?_⟩
    simp [h, records]

theorem records_bind_ok {m : Logged ρ σ ε α} {f : α → Logged ρ σ ε β} {s t : σ} {a : α}
    (h : run (erase m) s = some (.ok a, t)) :
    records (m >>= f) s = records m s ++ records (f a) t := by
  rcases records_bind m f s with ⟨b, u, hb, hr⟩ | ⟨hne, -⟩
  · rw [h] at hb
    obtain ⟨hab, rfl⟩ := Prod.mk.inj (Option.some.inj hb)
    obtain rfl := Except.ok.inj hab
    exact hr
  · exact absurd h (hne a t)

/-- What the first part logs is logged. -/
theorem mem_records_bind {m : Logged ρ σ ε α} {r : ρ} {s : σ} (h : r ∈ records m s)
    (f : α → Logged ρ σ ε β) : r ∈ records (m >>= f) s := by
  rcases records_bind m f s with ⟨a, t, -, heq⟩ | ⟨-, heq⟩
  · rw [heq]
    exact List.mem_append_left _ h
  · rw [heq]
    exact h

/-- What is logged after the first part's success is logged. -/
theorem mem_records_bind_ok {m : Logged ρ σ ε α} {r : ρ} {s t : σ} {a : α}
    (hm : run (erase m) s = some (.ok a, t)) {f : α → Logged ρ σ ε β} (h : r ∈ records (f a) t) :
    r ∈ records (m >>= f) s := by
  rw [records_bind_ok hm]
  exact List.mem_append_right _ h

/-! ### What is logged, and how it ends -/

/-- Every record is acceptable; a value is as `post` says, an error as `err`
says. -/
def Safe (ok : ρ → Prop) (err : ε → Prop) (post : α → Prop) (m : Logged ρ σ ε α) : Prop :=
  ∀ s, (∀ r ∈ records m s, ok r) ∧ (∀ a t, run (erase m) s = some (.ok a, t) → post a) ∧
    ∀ e t, run (erase m) s = some (.error e, t) → err e

variable {ok : ρ → Prop} {err : ε → Prop}

theorem safe_log {record : ρ} (h : ok record) :
    Safe ok err (fun _ => True) (log record : Logged ρ σ ε Unit) := by
  refine fun s => ⟨fun r hr => ?_, fun _ _ _ => trivial, fun e t he => ?_⟩
  · rw [records_log, List.mem_singleton] at hr
    rw [hr]
    exact h
  · cases he

theorem safe_silent {m : M σ ε α} {post : α → Prop}
    (hok : ∀ s a t, run m s = some (.ok a, t) → post a)
    (herr : ∀ s e t, run m s = some (.error e, t) → err e) :
    Safe ok err post (silent m : Logged ρ σ ε α) :=
  fun s => ⟨fun r hr => by simp at hr, hok s, herr s⟩

theorem safe_pure {a : α} {post : α → Prop} (h : post a) :
    Safe ok err post (pure a : Logged ρ σ ε α) :=
  safe_silent (fun s b t hb => by
    rw [run_pure] at hb
    obtain rfl := Except.ok.inj (Prod.mk.inj (Option.some.inj hb)).1
    exact h) fun s e t he => by cases he

theorem Safe.imp {m : Logged ρ σ ε α} {post post' : α → Prop} (hm : Safe ok err post m)
    (h : ∀ a, post a → post' a) : Safe ok err post' m := fun s =>
  ⟨(hm s).1, fun a t ha => h a ((hm s).2.1 a t ha), (hm s).2.2⟩

/-- **What a computation does is safe if what each part does is.** -/
theorem Safe.bind {m : Logged ρ σ ε α} {f : α → Logged ρ σ ε β} {post : α → Prop}
    {post' : β → Prop} (hm : Safe ok err post m) (hf : ∀ a, post a → Safe ok err post' (f a)) :
    Safe ok err post' (m >>= f) := by
  intro s
  obtain ⟨hrecords, hpost, herr⟩ := hm s
  refine ⟨fun r hr => ?_, fun b u hb => ?_, fun e u he => ?_⟩
  · rcases records_bind m f s with ⟨a, t, ha, heq⟩ | ⟨-, heq⟩
    · rw [heq] at hr
      rcases List.mem_append.mp hr with hr | hr
      · exact hrecords r hr
      · exact (hf a (hpost a t ha) t).1 r hr
    · rw [heq] at hr
      exact hrecords r hr
  · rw [erase_bind] at hb
    obtain ⟨a, t, ha, hb⟩ := ok_of_bind hb
    exact (hf a (hpost a t ha) t).2.1 b u hb
  · rw [erase_bind] at he
    rcases error_of_bind he with he | ⟨a, t, ha, he⟩
    · exact herr e u he
    · exact (hf a (hpost a t ha) t).2.2 e u he

end Logged
end Session
