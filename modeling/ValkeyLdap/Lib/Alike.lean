/-
# Two computations that show the same

Two computations over sessions of two servers are alike if, from related
sessions, they log the same and end the same, in related sessions again. What
an outsider sees of the one he sees of the other, so he cannot tell which ran.
Computations made of alike parts are alike (`Alike.bind`).

Two handles are alike if a search is answered the same by both, and a bind with
related passwords too.

Key theorem: `Alike.bind`.
-/
import Mathlib.Data.Option.Basic
import ValkeyLdap.Lib.Logged

namespace Session
namespace Logged

variable {ρ σ τ ε α β : Type}

/-- Both crash, or both end the same, in related sessions. -/
def EndAlike (R : σ → τ → Prop) (x : Option (Except ε α × σ)) (y : Option (Except ε α × τ)) :
    Prop :=
  Option.Rel (fun x y => x.1 = y.1 ∧ R x.2 y.2) x y

/-- From related sessions they log the same and end alike. -/
def Alike (R : σ → τ → Prop) (m : Logged ρ σ ε α) (m' : Logged ρ τ ε α) : Prop :=
  ∀ s t, R s t → records m s = records m' t ∧ EndAlike R (run (erase m) s) (run (erase m') t)

variable {R : σ → τ → Prop}

theorem alike_log (record : ρ) :
    Alike R (log record : Logged ρ σ ε Unit) (log record : Logged ρ τ ε Unit) :=
  fun _ _ h => ⟨rfl, .some ⟨rfl, h⟩⟩

theorem alike_pure (a : α) : Alike R (pure a : Logged ρ σ ε α) (pure a : Logged ρ τ ε α) :=
  fun _ _ h => ⟨rfl, .some ⟨rfl, h⟩⟩

theorem alike_throw (e : ε) :
    Alike R (silent (throw e) : Logged ρ σ ε α) (silent (throw e) : Logged ρ τ ε α) :=
  fun _ _ h => ⟨rfl, .some ⟨rfl, h⟩⟩

theorem alike_crash : Alike R (silent crash : Logged ρ σ ε α) (silent crash : Logged ρ τ ε α) :=
  fun _ _ _ => ⟨rfl, .none⟩

theorem alike_request {f : σ → Except ε α × σ} {g : τ → Except ε α × τ}
    (h : ∀ s t, R s t → (f s).1 = (g t).1 ∧ R (f s).2 (g t).2) :
    Alike R (silent (request f) : Logged ρ σ ε α) (silent (request g) : Logged ρ τ ε α) :=
  fun s t hst => ⟨rfl, .some (h s t hst)⟩

theorem EndAlike.of_left {res : Except ε α} {u : σ} {y : Option (Except ε α × τ)}
    (h : EndAlike R (some (res, u)) y) : ∃ v, y = some (res, v) ∧ R u v := by
  cases h with
  | @some _ y h =>
    obtain ⟨res', v⟩ := y
    obtain ⟨rfl, hR⟩ := h
    exact ⟨v, rfl, hR⟩

theorem EndAlike.of_right {x : Option (Except ε α × σ)} {res : Except ε α} {v : τ}
    (h : EndAlike R x (some (res, v))) : ∃ u, x = some (res, u) ∧ R u v := by
  cases h with
  | @some x _ h =>
    obtain ⟨res', u⟩ := x
    obtain ⟨rfl, hR⟩ := h
    exact ⟨u, rfl, hR⟩

/-- **What is made of alike parts is alike.** -/
theorem Alike.bind {m : Logged ρ σ ε α} {m' : Logged ρ τ ε α} {f : α → Logged ρ σ ε β}
    {f' : α → Logged ρ τ ε β} (hm : Alike R m m') (hf : ∀ a, Alike R (f a) (f' a)) :
    Alike R (m >>= f) (m' >>= f') := by
  intro s t hst
  obtain ⟨hrecords, hend⟩ := hm s t hst
  rw [erase_bind, erase_bind, run_bind, run_bind]
  rcases records_bind m f s with ⟨a, u, ha, heq⟩ | ⟨hne, heq⟩
  · rw [ha] at hend ⊢
    obtain ⟨v, hv, hR⟩ := hend.of_left
    obtain ⟨hrecords', hend'⟩ := hf a u v hR
    refine ⟨?_, ?_⟩
    · rw [heq, records_bind_ok hv, hrecords, hrecords']
    · rw [hv]
      exact hend'
  · have hlast : records (m' >>= f') t = records m' t := by
      rcases records_bind m' f' t with ⟨a, v, ha, -⟩ | ⟨-, heq'⟩
      · rw [ha] at hend
        obtain ⟨u, hu, -⟩ := hend.of_right
        exact absurd hu (hne a u)
      · exact heq'
    refine ⟨by rw [heq, hlast, hrecords], ?_⟩
    cases hx : run (erase m) s with
    | none =>
      rw [hx] at hend
      cases hy : run (erase m') t with
      | none => exact .none
      | some y =>
        rw [hy] at hend
        cases hend
    | some x =>
      obtain ⟨res, u⟩ := x
      rw [hx] at hend
      obtain ⟨v, hv, hR⟩ := hend.of_left
      rw [hv]
      cases res with
      | ok a => exact absurd hx (hne a u)
      | error e => exact .some ⟨rfl, hR⟩

/-- The same where the parts log nothing. -/
theorem Alike.silent_bind {m : M σ ε α} {m' : M τ ε α} {f : α → M σ ε β} {f' : α → M τ ε β}
    (hm : Alike R (silent m : Logged ρ σ ε α) (silent m'))
    (hf : ∀ a, Alike R (silent (f a) : Logged ρ σ ε β) (silent (f' a))) :
    Alike R (silent (m >>= f) : Logged ρ σ ε β) (silent (m' >>= f')) := by
  intro s t hst
  refine ⟨rfl, ?_⟩
  simpa only [erase_bind, erase_silent] using (hm.bind hf s t hst).2

/-! ### Handles -/

/-- Both answer a search the same, and a bind with related passwords. -/
structure AlikeHandles {κ : Type} (R : σ → τ → Prop) (Q : String → String → Prop)
    (h : Handle σ κ α ε) (h' : Handle τ κ α ε) : Prop where
  bind : ∀ (dn p p' : String) (s : σ) (t : τ), Q p p' → R s t →
    (h.simpleBind dn p s).1 = (h'.simpleBind dn p' t).1 ∧
      R (h.simpleBind dn p s).2 (h'.simpleBind dn p' t).2
  search : ∀ (r : κ) (s : σ) (t : τ), R s t →
    (h.search r s).1 = (h'.search r t).1 ∧ R (h.search r s).2 (h'.search r t).2

end Logged
end Session
