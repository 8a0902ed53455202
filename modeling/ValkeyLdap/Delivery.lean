/-
# The result of an iteration

The checks of an iteration are joined in one task, whose callback wakes the
detector's thread. While no check panics each stays where it is among the
tasks, and every step it takes brings it nearer to its end, unless it finds no
connection and waits again (`going_step`). So where no check is passed by and
none waits for ever, the iteration comes to its end (`joined_eventually`), and
its result is delivered.

`lookups_in_bounds`: every lookup is in bounds and every iteration delivers,
exactly while the list stays long enough for the positions that checks look up
and every check that waits gets a connection.

Key theorems: `going_step`, `joined_eventually`, `lookups_in_bounds`,
`stale_lookup_panics`.
-/
import ValkeyLdap.Lib.Endless
import ValkeyLdap.Lookups

namespace ValkeyLdap
namespace System

open Runs

/-! ### Who checks whom -/

/-- The server that the task checks. -/
def Task.checks? : Task → Option VkLdapServer
  | .check server _ => some server
  | _ => none

def State.checksAt (s : State) (i : ℕ) : Option VkLdapServer := s.tasks[i]?.bind Task.checks?

section
variable {s s' : State} {a : Act} {i j : ℕ} {net : Net} {e : VkLdapServer} {t t' : Task}
  {spawned : List Task}

theorem checksAt_eq_some : s.checksAt i = some e ↔ ∃ pc, s.tasks[i]? = some (.check e pc) := by
  unfold State.checksAt
  constructor
  · intro h
    obtain ⟨t, ht, he⟩ := Option.bind_eq_some_iff.mp h
    cases t with
    | check server pc =>
      obtain rfl := Option.some.inj he
      exact ⟨pc, ht⟩
    | _ => cases he
  · rintro ⟨pc, ht⟩
    rw [ht]
    rfl

theorem Task.Move.checks? {m m' : Mem} (h : t.Move m m' (.go t' spawned)) :
    t'.checks? = t.checks? ∧ ∀ u ∈ spawned, u.checks? = none := by
  cases h <;> exact ⟨rfl, by simp [Task.checks?]⟩

theorem Main.Move.checks? {m m' : Mem} {main main' : Main} (h : main.Move m m' main' spawned) :
    ∀ u ∈ spawned, u.checks? = none := by
  cases h <;> simp [Task.checks?]

/-- What is spawned besides checks nobody. -/
theorem checks?_append {tasks : List Task} (h : ∀ u ∈ spawned, u.checks? = none) (j : ℕ) :
    (tasks ++ spawned)[j]?.bind Task.checks? = tasks[j]?.bind Task.checks? := by
  rcases Nat.lt_or_ge j tasks.length with hj | hj
  · rw [List.getElem?_append_left hj]
  · rw [List.getElem?_append_right hj, List.getElem?_eq_none_iff.mpr hj]
    cases hu : spawned[j - tasks.length]? with
    | none => rfl
    | some u => exact h u (List.mem_of_getElem? hu)

theorem checks?_go {tasks : List Task} (ht : tasks[i]? = some t) (hsame : t'.checks? = t.checks?)
    (hspawned : ∀ u ∈ spawned, u.checks? = none) (j : ℕ) :
    (tasks.set i t' ++ spawned)[j]?.bind Task.checks? = tasks[j]?.bind Task.checks? := by
  rw [checks?_append hspawned, List.getElem?_set]
  by_cases hj : i = j
  · subst hj
    rw [if_pos rfl, if_pos (List.getElem?_eq_some_iff.mp ht).1, ht]
    exact hsame
  · rw [if_neg hj]

/-- A step of another task, or of a thread, leaves the checks where they are. -/
theorem checks_step (h : s.step a = some s')
    (hother : ∀ i net, a = .task i net → s.checksAt i = none) (hwaiting : s.detector = .waiting)
    (hgoing : a ≠ .deliver) :
    s'.detector = .waiting ∧ (∀ j, s'.checksAt j = s.checksAt j) ∧
      ∀ (j : ℕ) (e : VkLdapServer) (pc : Check), s.tasks[j]? = some (.check e pc) →
        s'.tasks[j]? = some (.check e pc) := by
  have hleft (l : List Task) {j : ℕ} {t : Task} (hj : s.tasks[j]? = some t) :
      (s.tasks ++ l)[j]? = some t := by
    rw [List.getElem?_append_left (List.getElem?_eq_some_iff.mp hj).1, hj]
  rcases State.step_cases h with ⟨i, net, rfl⟩ | ⟨net, rfl⟩ | hstep
  · obtain ⟨t, m', ht, hgo⟩ := State.step_task h
    have hnone : t.checks? = none := by
      have := hother i net rfl
      rwa [State.checksAt, ht] at this
    rcases hgo with ⟨t', spawned, hmove, rfl⟩ | ⟨hmove, rfl⟩
    · obtain ⟨hsame, hspawned⟩ := hmove.checks?
      refine ⟨hwaiting, checks?_go ht hsame hspawned, fun j e pc hj => ?_⟩
      have hne : i ≠ j := by
        rintro rfl
        obtain rfl := Option.some.inj (ht.symm.trans hj)
        cases hnone
      have hlt : j < (s.tasks.set i t').length := by
        rw [List.length_set]
        exact (List.getElem?_eq_some_iff.mp hj).1
      rw [List.getElem?_append_left hlt, List.getElem?_set_ne hne, hj]
    · -- only a check takes the others with it
      cases hmove <;> cases hnone
  · obtain ⟨m', main, spawned, hmove, rfl⟩ := State.step_main h
    exact ⟨hwaiting, checks?_append hmove.checks?, fun j e pc => hleft spawned⟩
  · cases hstep with
    | submit => exact ⟨hwaiting, checks?_append (by simp [Task.checks?]), fun j e pc => hleft _⟩
    | setServers => exact ⟨hwaiting, fun _ => rfl, fun _ _ _ => id⟩
    | setConnectionSettings => exact ⟨hwaiting, fun _ => rfl, fun _ _ _ => id⟩
    | iterate hsleeping =>
      rw [hwaiting] at hsleeping
      cases hsleeping
    | deliver => exact absurd rfl hgoing

theorem checks?_eq_none {t : Task} : t.checks? = none ↔ t.isCheck = false := by
  cases t with
  | check server pc => exact iff_of_false (fun h => by cases h) fun h => by cases h
  | _ => exact iff_of_true rfl rfl

/-- Between two iterations there are no checks. -/
theorem resting_step (hrest : s.detector = .sleeping → ∀ u ∈ s.tasks, u.checks? = none)
    (h : s.step a = some s') (hsleeping : s'.detector = .sleeping) :
    ∀ u ∈ s'.tasks, u.checks? = none := by
  rcases State.step_cases h with ⟨i, net, rfl⟩ | ⟨net, rfl⟩ | hother
  · obtain ⟨t, m', ht, ⟨t', spawned, hmove, rfl⟩ | ⟨-, rfl⟩⟩ := State.step_task h
    · have hnone := hrest hsleeping
      obtain ⟨hsame, hspawned⟩ := hmove.checks?
      intro u hu
      rcases List.mem_append.mp hu with hu | hu
      · rcases List.mem_or_eq_of_mem_set hu with hu | rfl
        · exact hnone u hu
        · exact hsame.trans (hnone t (List.mem_of_getElem? ht))
      · exact hspawned u hu
    · cases hsleeping
  · obtain ⟨m', main, spawned, hmove, rfl⟩ := State.step_main h
    intro u hu
    rcases List.mem_append.mp hu with hu | hu
    · exact hrest hsleeping u hu
    · exact hmove.checks? u hu
  · cases hother with
    | submit =>
      intro u hu
      rcases List.mem_append.mp hu with hu | hu
      · exact hrest hsleeping u hu
      · rw [List.mem_singleton.mp hu]
        rfl
    | setServers => exact hrest hsleeping
    | setConnectionSettings => exact hrest hsleeping
    | iterate => cases hsleeping
    | deliver =>
      intro u hu
      exact checks?_eq_none.mpr (by simpa using (List.mem_filter.mp hu).2)

/-! ### A step of the iteration -/

/-- How far a check is from its end. -/
def Check.left : Check → ℕ
  | .start => 6
  | .take _ _ => 5
  | .connect _ => 5
  | .ping _ => 4
  | .pingNew => 4
  | .giveBack _ _ => 3
  | .refresh .lookup => 3
  | .put _ _ _ => 2
  | .refresh (.reset _ _) => 2
  | .report _ _ => 1
  | .reportConnect _ => 1
  | .refresh (.report _ _) => 1
  | .done => 0

/-- So for the task of a check. -/
def Task.left : Task → ℕ
  | .check _ pc => pc.left
  | _ => 0

/-- A check that goes on comes nearer to its end, or waits again. -/
theorem Check.move_nearer {m m' : Mem} {pc : Check}
    (h : Task.Move m (.check e pc) m' (.go t' spawned)) :
    spawned = [] ∧ ∃ pc', t' = .check e pc' ∧ (pc'.left < pc.left ∨
      ∃ pool seen seen', pc = .take pool seen ∧ pc' = .take pool seen') := by
  cases h with
  | checkWait => exact ⟨rfl, _, rfl, Or.inr ⟨_, _, _, rfl, rfl⟩⟩
  | _ => exact ⟨rfl, _, rfl, Or.inl (by simp [Check.left])⟩

/-- **A step of an iteration under way** leaves every check where it is; it is
the check's own, and brings it nearer to its end or lets it wait again, or
leaves it as it is. -/
theorem going_step (h : s.step a = some s') (hwaiting : s.detector = .waiting)
    (hstill : s'.detector = .waiting) :
    (∀ j, s'.checksAt j = s.checksAt j) ∧
      ∀ (j : ℕ) (e : VkLdapServer) (pc : Check), s.tasks[j]? = some (.check e pc) →
        ∃ pc', s'.tasks[j]? = some (.check e pc') ∧
          ((∀ net, a ≠ .task j net) ∧ pc' = pc ∨ (∃ net, a = .task j net) ∧
            (pc'.left < pc.left ∨ ∃ pool seen seen', pc = .take pool seen ∧
              pc' = .take pool seen')) := by
  by_cases hother : ∀ i net, a = .task i net → s.checksAt i = none
  · have hgoing : a ≠ .deliver := by
      rintro rfl
      rcases State.step_cases h with ⟨i, net, ha⟩ | ⟨net, ha⟩ | hstep
      · cases ha
      · cases ha
      · cases hstep
        cases hstill
    obtain ⟨-, hchecks, htasks⟩ := checks_step h hother hwaiting hgoing
    refine ⟨hchecks, fun j e pc hj => ⟨pc, htasks j e pc hj, Or.inl ⟨fun net ha => ?_, rfl⟩⟩⟩
    have hnone := hother j net ha
    rw [checksAt_eq_some.mpr ⟨pc, hj⟩] at hnone
    cases hnone
  · simp only [not_forall] at hother
    obtain ⟨i, net, rfl, hsome⟩ := hother
    obtain ⟨e, he⟩ := Option.ne_none_iff_exists'.mp hsome
    obtain ⟨pc, ht⟩ := checksAt_eq_some.mp he
    obtain ⟨t, m', ht', ⟨t', spawned, hmove, rfl⟩ | ⟨-, rfl⟩⟩ := State.step_task h
    · obtain rfl := Option.some.inj (ht.symm.trans ht')
      obtain ⟨rfl, pc', rfl, hnearer⟩ := Check.move_nearer hmove
      refine ⟨checks?_go ht rfl (by simp), fun j f pd hj => ?_⟩
      rw [List.append_nil]
      by_cases hij : i = j
      · subst hij
        obtain ⟨rfl, rfl⟩ := Task.check.inj (Option.some.inj (ht.symm.trans hj))
        exact ⟨pc', List.getElem?_set_self (List.getElem?_eq_some_iff.mp ht).1,
          Or.inr ⟨⟨net, rfl⟩, hnearer⟩⟩
      · refine ⟨pd, by rw [List.getElem?_set_ne hij, hj], Or.inl ⟨fun net' ha => ?_, rfl⟩⟩
        exact hij (Act.task.inj ha).1
    · cases hstill

end

/-! ### Endless runs -/

section
variable {run : ℕ → State} {act : ℕ → Option Act}

/-- No check is passed by for ever while it can go on. -/
def ChecksFair (run : ℕ → State) (act : ℕ → Option Act) : Prop :=
  ∀ i, WeakFair
    (fun s => (s.checksAt i).isSome = true ∧ ∃ net s', s.step (.task i net) = some s')
    (fun _ a => ∃ net, a = .task i net) run act

/-- Neither is a check, nor is the result of an iteration that is over held
back for ever. -/
structure Fair (run : ℕ → State) (act : ℕ → Option Act) : Prop where
  checks : ChecksFair run act
  deliver : WeakFair (fun s => ∃ s', s.step .deliver = some s') (fun _ a => a = .deliver) run act

/-- Every check that waits in `take_connection` gets a connection some time. -/
def Served (run : ℕ → State) : Prop :=
  ∀ (n i : ℕ) (e : VkLdapServer) (pool : ℕ) (seen : Option ℕ),
    (run n).tasks[i]? = some (.check e (.take pool seen)) →
    ∃ m, n ≤ m ∧ ∀ seen', (run m).tasks[i]? ≠ some (.check e (.take pool seen'))

/-- The checks hold handles of their own servers and of pools there are. -/
def State.ChecksLinked (s : State) : Prop :=
  ∀ (i : ℕ) (e : VkLdapServer) (pc : Check), s.tasks[i]? = some (.check e pc) → pc.Linked s.mem e

theorem State.Linked.checks {s : State} (hl : s.Linked) : s.ChecksLinked :=
  fun _ _ _ ht => hl.tasks _ (List.mem_of_getElem? ht)

/-- A check that neither waits nor is over can take a step. -/
theorem State.ChecksLinked.enabled {s : State} (hl : s.ChecksLinked) {i : ℕ} {e : VkLdapServer}
    {pc : Check} (ht : s.tasks[i]? = some (.check e pc)) (hd : pc ≠ .done)
    (hw : ∀ pool seen, pc ≠ .take pool seen) : ∃ net s', s.step (.task i net) = some s' := by
  have hlinked : pc.Linked s.mem e := hl i e pc ht
  have hsteps : ∃ r, pc.step s.mem {} e = some r := by
    cases pc with
    | start =>
      simp only [Check.step]
      split
      · split <;> exact ⟨_, rfl⟩
      · exact ⟨_, rfl⟩
    | take pool seen => exact absurd rfl (hw pool seen)
    | giveBack conn res =>
      simp only [Check.step]
      split <;> exact ⟨_, rfl⟩
    | put pool conn res =>
      obtain ⟨p, hp⟩ := hlinked.2.exists
      exact ⟨_, by simp only [Check.step, hp]; rfl⟩
    | refresh r =>
      cases r with
      | lookup =>
        simp only [Check.step, Refresh.step]
        cases s.mem.ctx.getConnectionPool e <;> exact ⟨_, rfl⟩
      | reset pool settings =>
        obtain ⟨p, hp⟩ := Mem.PoolAt.exists hlinked
        exact ⟨_, by simp only [Check.step, Refresh.step, hp]; rfl⟩
      | report res asOf => exact ⟨_, rfl⟩
    | done => exact absurd rfl hd
    | _ => exact ⟨_, rfl⟩
  obtain ⟨⟨m', next⟩, hs⟩ := hsteps
  refine ⟨{}, ?_⟩
  cases next with
  | go pc' spawned => exact ⟨_, by simp only [State.step, ht, Task.step, hs]; rfl⟩
  | panic => exact ⟨_, by simp only [State.step, ht, Task.step, hs]; rfl⟩

/-- Where a check can be found later. -/
def Check.Later (pc pc' : Check) : Prop :=
  pc'.left < pc.left ∨ pc' = pc ∨ ∃ pool seen seen', pc = .take pool seen ∧ pc' = .take pool seen'

theorem Check.Later.le {pc pc' : Check} (h : pc.Later pc') : pc'.left ≤ pc.left := by
  rcases h with hlt | rfl | ⟨pool, seen, seen', rfl, rfl⟩
  · exact hlt.le
  · exact le_refl _
  · exact le_refl _

theorem Check.Later.trans {pc pc' pc'' : Check} (h : pc.Later pc') (h' : pc'.Later pc'') :
    pc.Later pc'' := by
  have hle := h.le
  have hle' := h'.le
  rcases h with hlt | rfl | ⟨pool, seen, seen', rfl, rfl⟩
  · exact Or.inl (hle'.trans_lt hlt)
  · exact h'
  · rcases h' with hlt | rfl | ⟨pool', seen₁, seen₂, htake, rfl⟩
    · exact Or.inl hlt
    · exact Or.inr (Or.inr ⟨_, _, _, rfl, rfl⟩)
    · obtain ⟨rfl, rfl⟩ := Check.take.inj htake
      exact Or.inr (Or.inr ⟨_, _, _, rfl, rfl⟩)

section
variable {n : ℕ} (h : Endless State.step run act)
  (hwaiting : ∀ m, n ≤ m → (run m).detector = .waiting)
include h hwaiting

/-- Each check stays where it is, and gets no further from its end. -/
theorem check_later {m i : ℕ} {e : VkLdapServer} {pc : Check} (hm : n ≤ m)
    (ht : (run m).tasks[i]? = some (.check e pc)) {k : ℕ} (hk : m ≤ k) :
    ∃ pc', (run k).tasks[i]? = some (.check e pc') ∧ pc.Later pc' := by
  refine h.invariant (I := fun s => ∃ pc', s.tasks[i]? = some (.check e pc') ∧ pc.Later pc')
    ⟨pc, ht, Or.inr (Or.inl rfl)⟩ (fun l a hl ⟨pc', ht', hlater⟩ ha => ?_) hk
  obtain ⟨-, htasks⟩ := going_step (h.next l a ha) (hwaiting l (hm.trans hl))
    (hwaiting (l + 1) (hm.trans (Nat.le_succ_of_le hl)))
  obtain ⟨pc'', ht'', ⟨-, rfl⟩ | ⟨-, hnearer⟩⟩ := htasks i e pc' ht'
  · exact ⟨pc'', ht'', hlater⟩
  · refine ⟨pc'', ht'', hlater.trans ?_⟩
    exact hnearer.imp id Or.inr

theorem checksAt_later {m : ℕ} (hm : n ≤ m) (i : ℕ) : (run m).checksAt i = (run n).checksAt i := by
  refine h.invariant (I := fun s => s.checksAt i = (run n).checksAt i) rfl
    (fun l a hl hi ha => ?_) hm
  exact ((going_step (h.next l a ha) (hwaiting l hl)
    (hwaiting (l + 1) (Nat.le_succ_of_le hl))).1 i).trans hi

/-- A check that is not over comes nearer to its end. -/
theorem check_nearer (hlinked : ∀ m, (run m).ChecksLinked) (hfair : ChecksFair run act)
    (hserved : Served run)
    {m i : ℕ} {e : VkLdapServer} {pc : Check} (hm : n ≤ m)
    (ht : (run m).tasks[i]? = some (.check e pc)) (hd : pc ≠ .done) :
    ∃ k pc', m ≤ k ∧ (run k).tasks[i]? = some (.check e pc') ∧ pc'.left < pc.left := by
  by_cases htake : ∃ pool seen, pc = .take pool seen
  · obtain ⟨pool, seen, rfl⟩ := htake
    obtain ⟨k, hk, hleft⟩ := hserved m i e pool seen ht
    obtain ⟨pc', ht', hlt | rfl | ⟨pool', seen₁, seen', hsame, rfl⟩⟩ :=
      check_later h hwaiting hm ht hk
    · exact ⟨k, pc', hk, ht', hlt⟩
    · exact absurd ht' (hleft seen)
    · obtain ⟨rfl, -⟩ := Check.take.inj hsame
      exact absurd ht' (hleft seen')
  · -- the step that fairness brings is the first the check takes from here
    have hready (s : State) (hs : s.ChecksLinked ∧ s.tasks[i]? = some (.check e pc)) :
        (s.checksAt i).isSome = true ∧ ∃ net s', s.step (.task i net) = some s' :=
      ⟨by rw [checksAt_eq_some.mpr ⟨pc, hs.2⟩]; rfl,
        hs.1.enabled hs.2 hd fun pool seen he => htake ⟨pool, seen, he⟩⟩
    obtain ⟨k, a, hk, ⟨-, htk⟩, ha, net, rfl⟩ := (hfair i).taken h ⟨hlinked m, ht⟩ hready
      fun l a hl ⟨_, htl⟩ ha hnot => by
        obtain ⟨-, htasks⟩ := going_step (h.next l a ha) (hwaiting l (hm.trans hl))
          (hwaiting (l + 1) (hm.trans (Nat.le_succ_of_le hl)))
        obtain ⟨pc', ht', ⟨-, rfl⟩ | ⟨hown, -⟩⟩ := htasks i e pc htl
        · exact ⟨hlinked (l + 1), ht'⟩
        · exact absurd hown hnot
    obtain ⟨-, htasks⟩ := going_step (h.next k _ ha) (hwaiting k (hm.trans hk))
      (hwaiting (k + 1) (hm.trans (Nat.le_succ_of_le hk)))
    obtain ⟨pc', ht', ⟨hother, -⟩ | ⟨-, hlt | ⟨pool, seen, seen', he, -⟩⟩⟩ := htasks i e pc htk
    · exact absurd rfl (hother net)
    · exact ⟨k + 1, pc', Nat.le_succ_of_le hk, ht', hlt⟩
    · exact absurd ⟨pool, seen, he⟩ htake

/-- Each check comes to its end, and stays there. -/
theorem check_ends (hlinked : ∀ m, (run m).ChecksLinked) (hfair : ChecksFair run act)
    (hserved : Served run)
    {i : ℕ} {e : VkLdapServer} (hi : (run n).checksAt i = some e) :
    ∃ m, n ≤ m ∧ ∀ l, m ≤ l → (run l).tasks[i]? = some (.check e .done) := by
  have hat (m : ℕ) (hm : n ≤ m) : ∃ pc, (run m).tasks[i]? = some (.check e pc) :=
    checksAt_eq_some.mp ((checksAt_later h hwaiting hm i).trans hi)
  obtain ⟨m, hm, hdone⟩ := eventually_of_measure (n := n)
    (Q := fun m => (run m).tasks[i]? = some (.check e .done))
    (fun m => (run m).tasks[i]?.elim 0 Task.left) fun m hm hnot => by
    obtain ⟨pc, ht⟩ := hat m hm
    have hd : pc ≠ .done := by
      rintro rfl
      exact hnot ht
    obtain ⟨k, pc', hk, ht', hlt⟩ := check_nearer h hwaiting hlinked hfair hserved hm ht hd
    exact ⟨k, hk, by rw [ht, ht']; exact hlt⟩
  refine ⟨m, hm, fun l hl => ?_⟩
  obtain ⟨pc, ht, hlt | rfl | ⟨pool, seen, seen', he, -⟩⟩ := check_later h hwaiting hm hdone hl
  · exact absurd hlt (Nat.not_lt_zero _)
  · exact ht
  · cases he

/-- **An iteration comes to its end** where no check is passed by and every one
that waits gets a connection. -/
theorem joined_eventually (hlinked : ∀ m, (run m).ChecksLinked) (hfair : ChecksFair run act)
    (hserved : Served run) : ∃ m, n ≤ m ∧ ∀ l, m ≤ l → joined (run l).tasks = true := by
  obtain ⟨m, hm, hall⟩ := eventually_forall_lt (n := n)
    (P := fun i l => ∀ e, (run n).checksAt i = some e →
      (run l).tasks[i]? = some (.check e .done)) (run n).tasks.length fun i _ => by
    cases hi : (run n).checksAt i with
    | none => exact ⟨n, le_refl n, fun l _ e he => by cases he⟩
    | some e =>
      obtain ⟨m, hm, hdone⟩ := check_ends h hwaiting hlinked hfair hserved hi
      exact ⟨m, hm, fun l hl f hf => Option.some.inj hf ▸ hdone l hl⟩
  refine ⟨m, hm, fun l hl => List.all_eq_true.mpr fun t ht => ?_⟩
  cases t with
  | check e pc =>
    obtain ⟨i, ht⟩ := List.mem_iff_getElem?.mp ht
    have hi := (checksAt_later h hwaiting (hm.trans hl) i).symm.trans
      (checksAt_eq_some.mpr ⟨pc, ht⟩)
    have hlt : i < (run n).tasks.length := by
      obtain ⟨pc₀, ht₀⟩ := checksAt_eq_some.mp hi
      exact (List.getElem?_eq_some_iff.mp ht₀).1
    obtain ⟨-, rfl⟩ := Task.check.inj (Option.some.inj (ht.symm.trans (hall i hlt l hl e hi)))
    rfl
  | _ => rfl

end

/-! ### Every iteration delivers its result -/

/-- Whenever the detector's thread waits in `submit_sync_task`, it gets the
result of its iteration some time. -/
def EachDelivers (run : ℕ → State) (act : ℕ → Option Act) : Prop :=
  ∀ n, (run n).detector ≠ .sleeping → ∃ m, n ≤ m ∧ act m = some .deliver

/-- Only the detector's own steps change what its thread does. -/
theorem still_waiting {s s' : State} {a : Act} (h : s.step a = some s') (hp : ¬ s.Panics a)
    (hd : s.detector = .waiting) (ha : a ≠ .deliver) : s'.detector = .waiting := by
  have hkept := step_detector h hp (by rw [hd]; exact Detector.noConfusion)
  rcases State.step_cases h with ⟨i, net, rfl⟩ | ⟨net, rfl⟩ | hother
  · obtain ⟨t, m', -, ⟨t', spawned, -, rfl⟩ | ⟨-, rfl⟩⟩ := State.step_task h
    · exact hd
    · exact absurd rfl hkept
  · obtain ⟨m', main, spawned, -, rfl⟩ := State.step_main h
    exact hd
  · cases hother with
    | iterate => rfl
    | deliver => exact absurd rfl ha
    | _ => exact hd

/-- Where no lookup panics and every check that waits gets a connection, the
result is delivered: a thread that waited for ever would see its checks over
for good, and the delivery passed by. -/
theorem eachDelivers_of_served (h : Endless State.step run act) (hfair : Fair run act)
    (hlinked : ∀ m, (run m).Linked) (hlives : ∀ m, (run m).detector ≠ .hung)
    (hpanics : Always (fun s a => ¬ s.Panics a) run act) (hserved : Served run) :
    EachDelivers run act := by
  intro n hn
  by_contra hnever
  have hnot {m : ℕ} (hm : n ≤ m) : act m ≠ some .deliver := fun ha => hnever ⟨m, hm, ha⟩
  have hwaits : (run n).detector = .waiting := by
    cases hd : (run n).detector with
    | sleeping => exact absurd hd hn
    | waiting => rfl
    | hung => exact absurd hd (hlives n)
  have hwaiting (m : ℕ) (hm : n ≤ m) : (run m).detector = .waiting :=
    h.invariant (I := fun s => s.detector = .waiting) hwaits
      (fun l a hl hd ha => still_waiting (h.next l a ha) (hpanics l a ha) hd
        fun he => hnot hl (he ▸ ha)) hm
  obtain ⟨m, hm, hjoined⟩ := joined_eventually h hwaiting (fun m => (hlinked m).checks)
    hfair.checks hserved
  obtain ⟨k, a, hk, ha, rfl⟩ := hfair.deliver m fun l hl =>
    ⟨_, by simp only [State.step, hwaiting l (hm.trans hl), hjoined l hl, and_self, if_true]; rfl⟩
  exact hnot (hm.trans hk) ha

/-- A delivered iteration leaves no check behind. -/
theorem served_of_eachDelivers (h : Endless State.step run act)
    (hrest : (run 0).detector = .sleeping → ∀ u ∈ (run 0).tasks, u.checks? = none)
    (hdelivers : EachDelivers run act) : Served run := by
  intro n i e pool seen ht
  have hresting (m : ℕ) : (run m).detector = .sleeping → ∀ u ∈ (run m).tasks, u.checks? = none :=
    h.invariant (I := fun s => s.detector = .sleeping → ∀ u ∈ s.tasks, u.checks? = none) hrest
      (fun l a _ hl ha => resting_step hl (h.next l a ha)) (Nat.zero_le m)
  have hsleepless : (run n).detector ≠ .sleeping := fun hd => by
    cases hresting n hd _ (List.mem_of_getElem? ht)
  obtain ⟨m, hm, ha⟩ := hdelivers n hsleepless
  have hdelivered : (run (m + 1)).detector = .sleeping := by
    have hs := h.next m _ ha
    simp only [State.step] at hs
    split at hs
    · rw [← Option.some.inj hs]
    · cases hs
  refine ⟨m + 1, Nat.le_succ_of_le hm, fun seen' ht' => ?_⟩
  cases hresting (m + 1) hdelivered _ (List.mem_of_getElem? ht')

end

/-- **No stale position is looked up, and every iteration delivers, exactly
while the list stays long enough and no check waits for ever.** In every run,
all lookups are in bounds, nothing panics outside an LDAP operation or an
attempt of `add_server` to connect, and the detector's thread is not lost, if
and only if the list is longer than the check's position whenever a check looks
up its pool. In every endless run that passes by neither a check nor a delivery
for ever, each result gets to the thread besides, if and only if every check
that waits in `take_connection` gets a connection besides. -/
theorem lookups_in_bounds (ls : VkLdapSettings) (cs : VkConnectionSettings) :
    (∀ (tr : List (State × Act)) (t : State), Run State.step (State.init ls cs) tr t →
      (Steps Covered tr ↔
        Steps InBounds tr ∧ Steps (fun s a => ¬ s.Panics a) tr ∧ t.detector ≠ .hung)) ∧
    ∀ (run : ℕ → State) (act : ℕ → Option Act), Endless State.step run act →
      run 0 = State.init ls cs → Fair run act →
      (Always Covered run act ∧ Served run ↔
        Always InBounds run act ∧ Always (fun s a => ¬ s.Panics a) run act ∧
          EachDelivers run act) := by
  refine ⟨fun tr t h => ⟨fun hc => ?_, fun ⟨hb, _⟩ => ?_⟩,
    fun run act h h0 hfair => ⟨fun ⟨hc, hserved⟩ => ?_, fun ⟨hb, _, hdelivers⟩ => ?_⟩⟩
  · have hb := steps_inBounds h hc
    exact ⟨hb, hb.imp fun _ _ => not_panics_of_inBounds, not_hung_of_inBounds h hb⟩
  · exact fun x hx => h.forall_steps (P := fun s a => InBounds s a → Covered s a) steps_true
      (linked_init ls cs) (fun _ _ _ hl _ hs => linked_step hl hs)
      (fun _ _ _ hl _ _ => covered_of_inBounds hl) x hx (hb x hx)
  · have hlinked (m : ℕ) : (run m).Linked := h.invariant (by rw [h0]; exact linked_init ls cs)
      (fun l a _ hl ha => linked_step hl (h.next l a ha)) (Nat.zero_le m)
    have hb : Always InBounds run act := fun n a ha => inBounds_of_covered (hlinked n) (hc n a ha)
    have hpanics : Always (fun s a => ¬ s.Panics a) run act :=
      fun n a ha => not_panics_of_inBounds (hb n a ha)
    have hlives (m : ℕ) : (run m).detector ≠ .hung := by
      obtain ⟨tr, hrun, hsteps⟩ := h.upTo_steps hb m
      exact not_hung_of_inBounds (h0 ▸ hrun) hsteps
    exact ⟨hb, hpanics, eachDelivers_of_served h hfair hlinked hlives hpanics hserved⟩
  · have hlinked (m : ℕ) : (run m).Linked := h.invariant (by rw [h0]; exact linked_init ls cs)
      (fun l a _ hl ha => linked_step hl (h.next l a ha)) (Nat.zero_le m)
    refine ⟨fun n a ha => covered_of_inBounds (hlinked n) (hb n a ha), ?_⟩
    refine served_of_eachDelivers h (fun _ u hu => ?_) hdelivers
    rw [h0] at hu
    cases hu

/-! ### Runs that come to rest -/

section
variable {s t : State} {as : List Act}

/-- A run that ends without checks leaves none waiting. -/
theorem served_of_exec (h : exec State.step s as = some t) (ht : ∀ u ∈ t.tasks, u.checks? = none) :
    Served (states State.step s as) := by
  intro n i e pool seen _
  refine ⟨max n as.length, le_max_left _ _, fun seen' hlate => ?_⟩
  rw [(endless_exec h).2 _ (le_max_right _ _)] at hlate
  cases ht _ (List.mem_of_getElem? hlate)

theorem checksFair_of_exec (h : exec State.step s as = some t)
    (ht : ∀ i net s', t.checksAt i ≠ none → t.step (.task i net) ≠ some s') :
    ChecksFair (states State.step s as) fun n => as[n]? := by
  refine fun i => weakFair_of_rest h fun ⟨hsome, net, s', hs⟩ => ht i net s' (fun hnone => ?_) hs
  rw [hnone] at hsome
  cases hsome

/-- The check that takes the step is of a position in the list. -/
def checkListed (s : State) : Act → Bool
  | .task i _ => (s.checksAt i).all fun e => decide (e.id < s.mem.ctx.servers.length)
  | _ => true

theorem covered_of_listed {a : Act} (h : checkListed s a = true) : Covered s a := by
  rintro i net server pc rfl ht -
  rw [checkListed, checksAt_eq_some.mpr ⟨pc, ht⟩] at h
  exact of_decide_eq_true h

end

/-- The list is set, and a whole iteration runs over it. -/
def deliveredIteration : List Act :=
  [.setServers ["ldap://a"], .main {}, .main {}, .main {}, .main {}, .main {}, .iterate] ++
    List.replicate 6 (.task 1 {}) ++ [.deliver]

/-- Its result gets to the thread. -/
theorem lookups_in_bounds_kept : ∃ run act, Endless State.step run act ∧
    run 0 = State.init {} { connectionPoolSize := 1 } ∧ act 6 = some .iterate ∧
      Always InBounds run act ∧ Always (fun s a => ¬ s.Panics a) run act ∧
        EachDelivers run act := by
  obtain ⟨t, ht, hd, hnone⟩ : ∃ t, exec State.step (State.init {} { connectionPoolSize := 1 })
      deliveredIteration = some t ∧ t.detector = .sleeping ∧
        t.tasks.all (fun u => u.checks?.isNone) = true := ⟨_, rfl, rfl, rfl⟩
  have hnone (u : Task) (hu : u ∈ t.tasks) : u.checks? = none :=
    Option.isNone_iff_eq_none.mp (List.all_eq_true.mp hnone u hu)
  have hlisted : (trace State.step (State.init {} { connectionPoolSize := 1 })
      deliveredIteration).all (fun x => checkListed x.1 x.2) = true := by decide +kernel
  refine ⟨_, _, (endless_exec ht).1, rfl, rfl, ((lookups_in_bounds {} { connectionPoolSize := 1 }).2
    _ _ (endless_exec ht).1 rfl ⟨checksFair_of_exec ht fun i net s' hchecked => ?_,
      weakFair_of_rest ht fun ⟨s', hs⟩ => ?_⟩).mp
        ⟨always_of_steps ht fun x hx => covered_of_listed (List.all_eq_true.mp hlisted x hx),
          served_of_exec ht hnone⟩⟩
  · obtain ⟨e, he⟩ := Option.ne_none_iff_exists'.mp hchecked
    obtain ⟨pc, hpc⟩ := checksAt_eq_some.mp he
    cases hnone _ (List.mem_of_getElem? hpc)
  · simp only [State.step, hd] at hs
    cases hs

/-- The detector takes its snapshot of `ldap://a`, the list is emptied, and the
check looks up position 0. -/
def staleLookup : List Act :=
  [.setServers ["ldap://a"], .main {}, .main {}, .main {}, .main {}, .main {}, .iterate,
    .setServers [], .main {}, .task 1 {}]

theorem hung_forever {s t : State} {tr : List (State × Act)} (h : Run State.step s tr t)
    (hd : s.detector = .hung) : t.detector = .hung := by
  refine h.invariant steps_true (I := fun s => s.detector = .hung) hd
    fun s a s' hd _ hs => ?_
  rcases State.step_cases hs with ⟨i, net, rfl⟩ | ⟨net, rfl⟩ | hother
  · obtain ⟨t, m', -, ⟨t', spawned, -, rfl⟩ | ⟨-, rfl⟩⟩ := State.step_task hs
    · exact hd
    · rfl
  · obtain ⟨m', main, spawned, -, rfl⟩ := State.step_main hs
    exact hd
  · cases hother with
    | iterate hsleep => rw [hd] at hsleep; cases hsleep
    | deliver hwait => rw [hd] at hwait; cases hwait
    | _ => exact hd

/-- The check panics, and the detector thread waits forever. -/
theorem stale_lookup_panics : ∃ tr t,
    Run State.step (State.init {} { connectionPoolSize := 1 }) tr t ∧ ¬ Steps InBounds tr ∧
      ∀ tr' t', Run State.step t tr' t' → t'.detector = .hung := by
  obtain ⟨s, hs, hlen, htask⟩ : ∃ s, exec State.step
      (State.init {} { connectionPoolSize := 1 }) (staleLookup.take 9) = some s ∧
      s.mem.ctx.connPools = [] ∧
      s.tasks[1]? = some (.check (.new "ldap://a" 0 .healthy) .start) := ⟨_, rfl, rfl, rfl⟩
  obtain ⟨t, ht, hd⟩ : ∃ t, s.step (.task 1 {}) = some t ∧ t.detector = .hung := by
    simp only [State.step, htask, Task.step, Check.step, VkLdapContext.getConnectionPool, hlen]
    exact ⟨_, rfl, rfl⟩
  refine ⟨_, t, (exec_run hs).snoc ht, fun hb => ?_, fun tr' t' h' => hung_forever h' hd⟩
  have := (steps_snoc.mp hb).2 0 (by simp only [State.looksUp, htask]; rfl)
  rw [hlen] at this
  exact absurd this (by decide)

end System
end ValkeyLdap
