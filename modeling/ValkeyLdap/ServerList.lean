/-
# Setting the server list

`process_server_list` (`src/configs.rs`) parses every piece of the option
before it touches the table; from then on it returns no error. The main thread
waits while the scheduler runs its tasks, the clearing of the list and then
one task per URL, which hands out the id, opens the connections with the
context unlocked, and lists the server. A task that panics in between is
never called back, and the main thread waits for it for ever.

`server_list_set_exactly` follows the call through any steps of the operations
and of the failure detector: the list is set as it should be exactly while no
attempt to connect panics. A URL need not have a host (`ldap:///`), and with
such a one the attempt does (`url_without_host_hangs`).

Key theorems: `parseUrls_eq`, `phase_main`, `lost_or_going`,
`server_list_set_exactly`, `url_without_host_hangs`.
-/
import ValkeyLdap.Aligned
import ValkeyLdap.Lib.Runs

namespace ValkeyLdap
namespace System
namespace ServerList

open Runs

/-! ### The call -/

/-- The pieces between single spaces. -/
def pieces (serverList : String) : List String :=
  (serverList.toList.splitOn ' ').map String.ofList

/-- The loop over the pieces. `parse` is `Url::parse`, with the text of its
error. -/
def parseUrls (parse : String → Except String Url) :
    List String → List Url → Except String (List Url)
  | [], urlList => .ok urlList
  | urlStr :: urls, urlList =>
    match parse urlStr with
    | .ok url => parseUrls parse urls (urlList ++ [url])
    | .error e => .error e

/-- The system, and what the call has returned. -/
structure World where
  sys : State
  returned : Option (Except String Unit)

/-- `process_server_list` up to the first task it submits. For the empty
string it only clears the list, as for no URL at all. -/
def processServerList (parse : String → Except String Url) (s : State) (serverList : String) :
    World :=
  if serverList = "" then { sys := { s with main := .clearing [] }, returned := none }
  else match parseUrls parse (pieces serverList) [] with
    | .error e => { sys := s, returned := some (.error e) }
    | .ok urls => { sys := { s with main := .clearing urls }, returned := none }

/-- A step of the system; when the last task of the call is over it returns. -/
def World.step (w : World) (a : Act) : Option World :=
  (w.sys.step a).map fun sys =>
    { sys, returned := if w.returned = none ∧ sys.main = .idle then some (.ok ()) else w.returned }

/-- Some piece is no URL. -/
def Invalid (parse : String → Except String Url) (serverList : String) : Prop :=
  serverList ≠ "" ∧ ∃ piece ∈ pieces serverList, ∃ e, parse piece = .error e

/-- The URLs of the list. -/
def Parsed (parse : String → Except String Url) (serverList : String) (urls : List Url) : Prop :=
  if serverList = "" then urls = [] else (pieces serverList).map parse = urls.map .ok

/-- What the loop makes of the pieces: the first error, or all URLs in order. -/
theorem parseUrls_eq (parse : String → Except String Url) : ∀ (l : List String) (acc : List Url),
    (∃ piece ∈ l, ∃ e, parse piece = .error e ∧ parseUrls parse l acc = .error e) ∨
      ∃ urls, l.map parse = urls.map .ok ∧ parseUrls parse l acc = .ok (acc ++ urls)
  | [], acc => Or.inr ⟨[], rfl, by rw [List.append_nil]; rfl⟩
  | piece :: l, acc => by
    cases hp : parse piece with
    | error e =>
      refine Or.inl ⟨piece, List.mem_cons_self, e, hp, ?_⟩
      simp only [parseUrls, hp]
    | ok url =>
      simp only [parseUrls, hp]
      rcases parseUrls_eq parse l (acc ++ [url]) with ⟨p, hmem, e, he, h⟩ | ⟨urls, hurls, h⟩
      · exact Or.inl ⟨p, List.mem_cons_of_mem _ hmem, e, he, h⟩
      · refine Or.inr ⟨url :: urls, ?_, ?_⟩
        · rw [List.map_cons, List.map_cons, hp, hurls]
        · rw [h, List.append_assoc]
          rfl

theorem call_invalid {parse : String → Except String Url} {serverList : String}
    (h : Invalid parse serverList) (s : State) :
    ∃ e, processServerList parse s serverList = { sys := s, returned := some (.error e) } := by
  obtain ⟨hne, piece, hmem, e, he⟩ := h
  unfold processServerList
  rw [if_neg hne]
  rcases parseUrls_eq parse (pieces serverList) [] with ⟨-, -, e', -, h⟩ | ⟨urls, hurls, -⟩
  · exact ⟨e', by rw [h]⟩
  · have : parse piece ∈ urls.map Except.ok := hurls ▸ List.mem_map_of_mem hmem
    obtain ⟨url, -, hurl⟩ := List.mem_map.mp this
    rw [he] at hurl
    cases hurl

theorem call_valid {parse : String → Except String Url} {serverList : String}
    (h : ¬ Invalid parse serverList) (s : State) :
    ∃ urls, Parsed parse serverList urls ∧ processServerList parse s serverList =
      { sys := { s with main := .clearing urls }, returned := none } := by
  unfold processServerList Parsed
  by_cases hempty : serverList = ""
  · exact ⟨[], by rw [if_pos hempty], by rw [if_pos hempty]⟩
  · rw [if_neg hempty]
    rcases parseUrls_eq parse (pieces serverList) [] with ⟨p, hmem, e, he, -⟩ | ⟨urls, hurls, h'⟩
    · exact absurd ⟨hempty, p, hmem, e, he⟩ h
    · exact ⟨urls, by rw [if_neg hempty]; exact hurls, by rw [h']; rfl⟩

/-! ### What happens in a run -/

/-- No other option is set meanwhile. -/
def NoConfigSet (_ : World) : Act → Prop
  | .setServers _ | .setConnectionSettings _ => False
  | _ => True

/-- The attempts to open the connections of the next pool do not panic. -/
def ConnectsGo (w : World) : Act → Prop
  | .main net => ∀ server settings urls, w.sys.main = .opening server settings urls →
      net.panics settings.connectionPoolSize 0 = false
  | _ => True

/-- The step is the main thread's. -/
def mainStep (_ : World) : Act → Option Unit
  | .main _ => some ()
  | _ => none

/-- The URL whose connections are opened next, and how that ends. -/
def opens (m : Mem) (net : Net) : Main → Option (Url × Result Unit)
  | .opening server settings _ =>
    some (server.url, (Pool.new m.pools.length server settings net.connect).2)
  | _ => none

/-- The server that is listed next. -/
def lists : Main → Option VkLdapServer
  | .listing server _ _ => some server
  | _ => none

def opened (w : World) : Act → Option (Url × Result Unit)
  | .main net => opens w.sys.mem net w.sys.main
  | _ => none

def listed (w : World) : Act → Option VkLdapServer
  | .main _ => lists w.sys.main
  | _ => none

/-- The entry for the `i`-th URL, whose connections were opened with this
result. -/
def entry (i : ℕ) (x : Url × Result Unit) : VkLdapServer := .new x.1 i (statusOf x.2)

/-- The list is being set to these URLs, or has been. -/
structure SetTo (urls : List Url) (tr : List (World × Act)) (w : World) : Prop where
  length : w.sys.mem.ctx.connPools.length = w.sys.mem.ctx.servers.length
  positions : ∀ (i : ℕ) (server : VkLdapServer), w.sys.mem.ctx.servers[i]? = some server →
    server.id = i ∧ ∃ (k : ℕ) (p : Pool), w.sys.mem.ctx.connPools[i]? = some k ∧
      w.sys.mem.pools[k]? = some p ∧ p.server.id = i ∧ p.server.url = server.url
  attempts : (events opened tr).map (·.1) <+: urls
  entries : events listed tr <+: (events opened tr).mapIdx entry
  table : events mainStep tr ≠ [] →
    w.sys.mem.ctx.servers.map serverKey = (events listed tr).map serverKey
  goesOn : w.returned = none → (events mainStep tr).length < 3 * urls.length + 2 ∧
    ∀ net, ∃ w', w.step (.main net) = some w'
  returns : ∀ res, w.returned = some res → res = .ok () ∧
    w.sys.mem.ctx.servers.map (·.url) = urls ∧ (events opened tr).map (·.1) = urls ∧
    events listed tr = (events opened tr).mapIdx entry

/-! ### Where the call is -/

/-- Where the main thread is, with the table as keys, what the call has
returned, what has been opened and listed, and the main thread's steps. -/
inductive Phase (urls : List Url) : Main → List (Url × ℕ) → Option (Except String Unit) →
    List (Url × Result Unit) → List VkLdapServer → ℕ → Prop
  | clearing {table : List (Url × ℕ)} : Phase urls (.clearing urls) table none [] [] 0
  | adding {rest : List Url} {xs : List (Url × Result Unit)} : xs.map (·.1) ++ rest = urls →
      Phase urls (.adding rest) ((xs.mapIdx entry).map serverKey) none xs (xs.mapIdx entry)
        (3 * xs.length + 1)
  | opening {url : Url} {settings : VkConnectionSettings} {rest : List Url}
      {xs : List (Url × Result Unit)} : xs.map (·.1) ++ url :: rest = urls →
      Phase urls (.opening (.new url xs.length .healthy) settings rest)
        ((xs.mapIdx entry).map serverKey) none xs (xs.mapIdx entry) (3 * xs.length + 2)
  | listing {x : Url × Result Unit} {pool : Pool} {rest : List Url}
      {xs : List (Url × Result Unit)} : xs.map (·.1) ++ x.1 :: rest = urls →
      Phase urls (.listing (entry xs.length x) pool rest)
        ((xs.mapIdx entry).map serverKey) none (xs ++ [x]) (xs.mapIdx entry) (3 * xs.length + 3)
  | returned {xs : List (Url × Result Unit)} : xs.map (·.1) = urls →
      Phase urls .idle ((xs.mapIdx entry).map serverKey) (some (.ok ())) xs (xs.mapIdx entry)
        (3 * xs.length + 2)

theorem mapIdx_snoc (xs : List (Url × Result Unit)) (x : Url × Result Unit) :
    (xs ++ [x]).mapIdx entry = xs.mapIdx entry ++ [entry xs.length x] := by
  rw [List.mapIdx_concat]

/-- What opening the pool makes of the server. -/
theorem openServer_fst (n : ℕ) (url : Url) (i : ℕ) (settings : VkConnectionSettings)
    (connect : ℕ → Result Unit) :
    (openServer n (.new url i .healthy) settings connect).1 =
      entry i (url, (Pool.new n (.new url i .healthy) settings connect).2) := by
  unfold openServer
  split <;> rename_i h <;> rw [h] <;> rfl

/-- The opened server is about to be listed as the entry it should be. -/
theorem Phase.opened {urls rest : List Url} {url : Url} {xs : List (Url × Result Unit)}
    (hurls : xs.map (·.1) ++ url :: rest = urls) (n : ℕ) (settings : VkConnectionSettings)
    (connect : ℕ → Result Unit) (pool : Pool) :
    Phase urls (.listing (openServer n (.new url xs.length .healthy) settings connect).1 pool rest)
      ((xs.mapIdx entry).map serverKey) none
      (xs ++ [(url, (Pool.new n (.new url xs.length .healthy) settings connect).2)])
      (xs.mapIdx entry) (3 * xs.length + 3) := by
  rw [openServer_fst]
  exact .listing (x := (url, _)) hurls

/-- What holds in a run so far. -/
structure Inv (urls : List Url) (tr : List (World × Act)) (w : World) : Prop where
  aligned : w.sys.Aligned
  phase : Phase urls w.sys.main (w.sys.mem.ctx.servers.map serverKey) w.returned
    (events opened tr) (events listed tr) (events mainStep tr).length

/-- The call has returned once the main thread is idle. -/
theorem Phase.not_idle {urls : List Url} {main : Main} {table : List (Url × ℕ)}
    {res : Option (Except String Unit)} {xs : List (Url × Result Unit)} {ls : List VkLdapServer}
    {n : ℕ} (h : Phase urls main table res xs ls n) : ¬ (res = none ∧ main = .idle) := by
  rintro ⟨rfl, rfl⟩
  cases h

/-- A step of the main thread. -/
theorem phase_main {urls : List Url} {tr : List (World × Act)} {w w' : World} {net : Net}
    (h : Inv urls tr w) (hgo : ConnectsGo w (.main net)) (hs : w.step (.main net) = some w') :
    Phase urls w'.sys.main (w'.sys.mem.ctx.servers.map serverKey) w'.returned
      (events opened (tr ++ [(w, .main net)])) (events listed (tr ++ [(w, .main net)]))
      (events mainStep (tr ++ [(w, .main net)])).length := by
  obtain ⟨sys, hsys, rfl⟩ := Option.map_eq_some_iff.mp hs
  obtain ⟨-, hphase⟩ := h
  simp only [events_snoc, List.length_append]
  generalize hmain : w.sys.main = main at hphase
  generalize htable : w.sys.mem.ctx.servers.map serverKey = table at hphase
  generalize hres : w.returned = res at hphase
  generalize hopened : events opened tr = xs at hphase
  generalize hlisted : events listed tr = ls at hphase
  generalize hn : (events mainStep tr).length = n at hphase
  have hlen : w.sys.mem.ctx.servers.length = table.length := by rw [← htable, List.length_map]
  unfold State.step at hsys
  rw [hmain] at hsys
  have hopens : opened w (.main net) = opens w.sys.mem net main := hmain ▸ rfl
  have hlists : listed w (.main net) = lists main := hmain ▸ rfl
  have hmainStep : mainStep w (.main net) = some () := rfl
  rw [hopens, hlists, hmainStep]
  cases hphase with
  | clearing =>
    obtain rfl := Option.some.inj hsys
    rw [if_neg (by simp)]
    exact @Phase.adding urls urls [] rfl
  | @adding rest xs hurls =>
    cases rest with
    | nil =>
      obtain rfl := Option.some.inj hsys
      rw [if_pos ⟨rfl, rfl⟩]
      simp only [opens, lists, Option.toList_none, List.append_nil, htable] at hurls ⊢
      exact .returned hurls
    | cons url rest =>
      obtain rfl := Option.some.inj hsys
      rw [if_neg (by simp)]
      simp only [opens, lists, Option.toList_none, List.append_nil, htable,
        VkLdapContext.newServer, hlen, List.length_map, List.length_mapIdx]
      exact .opening hurls
  | @opening url settings rest xs hurls =>
    simp only [Main.step, hgo _ settings rest hmain, Bool.false_eq_true, if_false] at hsys
    obtain rfl := Option.some.inj hsys
    rw [if_neg (by simp)]
    simp only [opens, lists, Option.toList_none, Option.toList_some, List.append_nil, htable]
    exact .opened hurls w.sys.mem.pools.length settings net.connect _
  | @listing x pool rest xs hurls =>
    obtain rfl := Option.some.inj hsys
    rw [if_neg (by simp)]
    have htable' : (w.sys.mem.listServer (entry xs.length x) pool).ctx.servers.map serverKey =
        ((xs ++ [x]).mapIdx entry).map serverKey := by
      rw [mapIdx_snoc, List.map_append, ← htable]
      exact List.map_append
    have hphase : Phase urls (.adding rest) (((xs ++ [x]).mapIdx entry).map serverKey) none
        (xs ++ [x]) ((xs ++ [x]).mapIdx entry) (3 * (xs ++ [x]).length + 1) :=
      .adding (by rw [List.map_append, List.append_assoc]; exact hurls)
    simp only [opens, lists, Option.toList_none, Option.toList_some, List.append_nil, htable']
    rw [mapIdx_snoc, List.length_append] at hphase
    rw [mapIdx_snoc]
    exact hphase
  | returned => cases hsys

/-- A step of anybody else. -/
theorem phase_other {urls : List Url} {tr : List (World × Act)} {w w' : World} {a : Act}
    (h : Inv urls tr w) (hok : NoConfigSet w a) (hmain : ∀ net, a ≠ .main net)
    (hs : w.step a = some w') :
    Phase urls w'.sys.main (w'.sys.mem.ctx.servers.map serverKey) w'.returned
      (events opened (tr ++ [(w, a)])) (events listed (tr ++ [(w, a)]))
      (events mainStep (tr ++ [(w, a)])).length := by
  obtain ⟨sys, hsys, rfl⟩ := Option.map_eq_some_iff.mp hs
  obtain ⟨-, hphase⟩ := h
  have hsame : sys.main = w.sys.main ∧
      sys.mem.ctx.servers.map serverKey = w.sys.mem.ctx.servers.map serverKey := by
    rcases State.step_cases hsys with ⟨i, net, rfl⟩ | ⟨net, rfl⟩ | hother
    · obtain ⟨t, m', -, ⟨t', spawned, ht, rfl⟩ | ⟨ht, rfl⟩⟩ := State.step_task hsys
      · exact ⟨rfl, ht.shape.servers⟩
      · exact ⟨rfl, ht.shape.servers⟩
    · exact absurd rfl (hmain net)
    · cases hother with
      | setServers => exact absurd hok id
      | setConnectionSettings => exact absurd hok id
      | _ => exact ⟨rfl, rfl⟩
  have hquiet : opened w a = none ∧ listed w a = none ∧ mainStep w a = none := by
    cases a with
    | main net => exact absurd rfl (hmain net)
    | _ => exact ⟨rfl, rfl, rfl⟩
  obtain ⟨hopened, hlisted, hmainStep⟩ := hquiet
  simp only [events_snoc, hopened, hlisted, hmainStep, Option.toList_none, List.append_nil]
  rw [hsame.1, hsame.2]
  rw [if_neg hphase.not_idle]
  exact hphase

theorem inv_step {urls : List Url} {tr : List (World × Act)} {w w' : World} {a : Act}
    (h : Inv urls tr w) (hok : NoConfigSet w a) (hgo : ConnectsGo w a) (hs : w.step a = some w') :
    Inv urls (tr ++ [(w, a)]) w' := by
  have haligned : w'.sys.Aligned := by
    obtain ⟨sys, hsys, rfl⟩ := Option.map_eq_some_iff.mp hs
    exact aligned_step h.aligned hsys
  by_cases hmain : ∃ net, a = .main net
  · obtain ⟨net, rfl⟩ := hmain
    exact ⟨haligned, phase_main h hgo hs⟩
  · exact ⟨haligned, phase_other h hok (fun net he => hmain ⟨net, he⟩) hs⟩

theorem inv_run {urls : List Url} {s : State} (hs : s.Aligned) {tr : List (World × Act)}
    {w : World}
    (h : Run World.step { sys := { s with main := .clearing urls }, returned := none } tr w)
    (hok : Steps NoConfigSet tr) (hgo : Steps ConnectsGo tr) : Inv urls tr w :=
  h.history (hok.and hgo) ⟨⟨hs.1, trivial⟩, .clearing⟩ fun _ _ _ _ hi hok ha =>
    inv_step hi hok.1 hok.2 ha

/-! ### A panic -/

/-- The main thread waits for a task that has panicked. -/
def World.Hung (w : World) : Prop := w.sys.main = .hung ∧ w.returned = none

theorem hung_step {w w' : World} {a : Act} (h : w.Hung) (hs : w.step a = some w') : w'.Hung := by
  obtain ⟨sys, hsys, rfl⟩ := Option.map_eq_some_iff.mp hs
  obtain ⟨hmain, hreturned⟩ := h
  have hsame : sys.main = .hung := by
    rcases State.step_cases hsys with ⟨i, net, rfl⟩ | ⟨net, rfl⟩ | hother
    · obtain ⟨t, m', -, ⟨t', spawned, -, rfl⟩ | ⟨-, rfl⟩⟩ := State.step_task hsys
      · exact hmain
      · exact hmain
    · obtain ⟨m', main, spawned, hmove, -⟩ := State.step_main hsys
      rw [hmain] at hmove
      cases hmove
    · cases hother with
      | setServers hidle =>
        rw [hmain] at hidle
        cases hidle
      | setConnectionSettings hidle =>
        rw [hmain] at hidle
        cases hidle
      | _ => exact hmain
  refine ⟨hsame, ?_⟩
  show (if w.returned = none ∧ sys.main = .idle then _ else w.returned) = none
  rw [hsame, if_neg nofun, hreturned]

/-- The step in which an attempt to connect panics. -/
theorem hung_of_panic {urls : List Url} {tr : List (World × Act)} {w w' : World} {a : Act}
    (h : Inv urls tr w) (hgo : ¬ ConnectsGo w a) (hs : w.step a = some w') : w'.Hung := by
  cases a with
  | main net =>
    simp only [ConnectsGo, not_forall, Bool.not_eq_false] at hgo
    obtain ⟨server, settings, rest, hmain, hpanics⟩ := hgo
    obtain ⟨sys, hsys, rfl⟩ := Option.map_eq_some_iff.mp hs
    have hreturned : w.returned = none := by
      cases hres : w.returned with
      | none => rfl
      | some res =>
        have hphase := h.phase
        rw [hmain, hres] at hphase
        generalize w.sys.mem.ctx.servers.map serverKey = table at hphase
        generalize events listed tr = ls at hphase
        generalize (events mainStep tr).length = n at hphase
        cases hphase
    unfold State.step at hsys
    simp only [hmain, Main.step, hpanics, if_true] at hsys
    obtain rfl := Option.some.inj hsys
    refine ⟨rfl, ?_⟩
    show (if w.returned = none ∧ Main.hung = .idle then _ else w.returned) = none
    rw [if_neg (by simp), hreturned]
  | _ => exact absurd trivial hgo

/-- In every run the attempts go on, or the main thread has been lost. -/
theorem lost_or_going {urls : List Url} {s : State} (hs : s.Aligned) {tr : List (World × Act)}
    {w : World}
    (h : Run World.step { sys := { s with main := .clearing urls }, returned := none } tr w)
    (hok : Steps NoConfigSet tr) : Steps ConnectsGo tr ∨ w.Hung := by
  induction h with
  | refl => exact Or.inl (steps_nil _)
  | @snoc tr w w' a h ha ih =>
    obtain ⟨hok, -⟩ := steps_snoc.mp hok
    rcases ih hok with hgo | hhung
    · by_cases hlast : ConnectsGo w a
      · exact Or.inl (steps_snoc.mpr ⟨hgo, hlast⟩)
      · exact Or.inr (hung_of_panic (inv_run hs h hok hgo) hlast ha)
    · exact Or.inr (hung_step hhung ha)

/-! ### The call as a whole -/

/-- While the call is not over, the main thread can go on. -/
theorem Phase.enabled {urls : List Url} {main : Main} {table : List (Url × ℕ)}
    {xs : List (Url × Result Unit)} {ls : List VkLdapServer} {n : ℕ}
    (h : Phase urls main table none xs ls n) (m : Mem) (net : Net) :
    ∃ m' main' spawned, main.step m net = some (m', main', spawned) := by
  cases h with
  | @adding rest _ _ => cases rest <;> exact ⟨_, _, _, rfl⟩
  | opening =>
    simp only [Main.step]
    split <;> exact ⟨_, _, _, rfl⟩
  | _ => exact ⟨_, _, _, rfl⟩

theorem World.step_main {w : World} {net : Net} {m' : Mem} {main' : Main} {spawned : List Task}
    (h : w.sys.main.step w.sys.mem net = some (m', main', spawned)) :
    ∃ w', w.step (.main net) = some w' := by
  unfold World.step State.step
  simp only [h]
  exact ⟨_, rfl⟩

/-- What each phase has in common. -/
theorem Phase.summary {urls : List Url} {main : Main} {table : List (Url × ℕ)}
    {res : Option (Except String Unit)} {xs : List (Url × Result Unit)} {ls : List VkLdapServer}
    {n : ℕ} (h : Phase urls main table res xs ls n) :
    xs.map (·.1) <+: urls ∧ ls <+: xs.mapIdx entry ∧ (n ≠ 0 → table = ls.map serverKey) ∧
      (res = none → n < 3 * urls.length + 2) ∧
      ∀ r, res = some r → r = .ok () ∧ xs.map (·.1) = urls ∧ ls = xs.mapIdx entry ∧ n ≠ 0 := by
  cases h with
  | clearing => exact ⟨List.nil_prefix, List.nil_prefix, fun h => absurd rfl h, by omega, nofun⟩
  | @adding rest xs hurls =>
    subst hurls
    refine ⟨List.prefix_append _ _, List.prefix_refl _, fun _ => rfl, fun _ => ?_, nofun⟩
    rw [List.length_append, List.length_map]
    omega
  | @opening url settings rest xs hurls =>
    subst hurls
    refine ⟨List.prefix_append _ _, List.prefix_refl _, fun _ => rfl, fun _ => ?_, nofun⟩
    rw [List.length_append, List.length_map, List.length_cons]
    omega
  | @listing x pool rest xs hurls =>
    subst hurls
    refine ⟨?_, ?_, fun _ => rfl, fun _ => ?_, nofun⟩
    · rw [List.map_append, List.append_cons]
      exact List.prefix_append _ _
    · rw [mapIdx_snoc]
      exact List.prefix_append _ _
    · rw [List.length_append, List.length_map, List.length_cons]
      omega
  | returned hurls =>
    refine ⟨hurls ▸ List.prefix_refl _, List.prefix_refl _, fun _ => rfl, nofun, fun r hr => ?_⟩
    obtain rfl := Option.some.inj hr
    exact ⟨rfl, hurls, rfl, by omega⟩

theorem urls_of_keys {servers : List VkLdapServer} {xs : List (Url × Result Unit)}
    (h : servers.map serverKey = (xs.mapIdx entry).map serverKey) :
    servers.map (·.url) = xs.map (·.1) := by
  have hurls := congrArg (List.map Prod.fst) h
  rw [List.map_map, List.map_map] at hurls
  refine hurls.trans (List.ext_getElem (by simp) fun i hi hi' => ?_)
  simp [serverKey, entry, VkLdapServer.new]

theorem SetTo.of_inv {urls : List Url} {tr : List (World × Act)} {w : World}
    (h : Inv urls tr w) : SetTo urls tr w := by
  obtain ⟨⟨haligned, -⟩, hphase⟩ := h
  obtain ⟨hattempts, hentries, htable, hgoes, hreturned⟩ := hphase.summary
  have hne : events mainStep tr ≠ [] ↔ (events mainStep tr).length ≠ 0 := by
    rw [ne_eq, ne_eq, List.length_eq_zero_iff]
  refine ⟨haligned.length, haligned.entry, hattempts, hentries, fun h => htable (hne.mp h),
    fun hnone => ⟨hgoes hnone, fun net => ?_⟩, fun res hres => ?_⟩
  · rw [hnone] at hphase
    obtain ⟨m', main', spawned, hmain⟩ := hphase.enabled w.sys.mem net
    exact World.step_main hmain
  · obtain ⟨hok, hurls, hlisted, hn⟩ := hreturned res hres
    refine ⟨hok, ?_, hurls, hlisted⟩
    rw [← hurls]
    exact urls_of_keys (hlisted ▸ htable hn)

/-- A main thread that is lost goes on no more. -/
theorem World.Hung.not_setTo {urls : List Url} {tr : List (World × Act)} {w : World} (h : w.Hung) :
    ¬ SetTo urls tr w := by
  intro hset
  obtain ⟨w', hs⟩ := (hset.goesOn h.2).2 {}
  obtain ⟨sys, hsys, -⟩ := Option.map_eq_some_iff.mp hs
  obtain ⟨m', main, spawned, hmove, -⟩ := State.step_main hsys
  rw [h.1] at hmove
  cases hmove

/-- **The server list is set exactly, or not at all, while no attempt to connect
panics.** A list with a piece that is no URL is refused and changes nothing.
Any other is set: whatever the operations and the failure detector do, at every
state ids are positions, the pools have the length of the table, and each
belongs to the URL at its position; the URLs are tried in order, and each is
listed at its position with the status of its attempt; the call goes on until
it returns `Ok`, after `3 n + 2` steps of the main thread, and then the table
is that of the URLs. All this holds at a state if and only if no attempt of the
call to connect has panicked before it. -/
theorem server_list_set_exactly (parse : String → Except String Url) (ls : VkLdapSettings)
    (cs : VkConnectionSettings) (tr₀ : List (State × Act)) (s : State)
    (hs : Run State.step (State.init ls cs) tr₀ s) (serverList : String) :
    (Invalid parse serverList → ∃ e,
      processServerList parse s serverList = { sys := s, returned := some (.error e) }) ∧
    (¬ Invalid parse serverList → ∃ urls, Parsed parse serverList urls ∧
      ∀ tr w, Run World.step (processServerList parse s serverList) tr w →
        Steps NoConfigSet tr → (Steps ConnectsGo tr ↔ SetTo urls tr w)) := by
  have haligned : s.Aligned := aligned_run hs (aligned_init ls cs)
  refine ⟨fun h => call_invalid h s, fun h => ?_⟩
  obtain ⟨urls, hparsed, hcall⟩ := call_valid h s
  refine ⟨urls, hparsed, fun tr w hrun hok => ?_⟩
  rw [hcall] at hrun
  constructor
  · intro hgo
    exact .of_inv (inv_run haligned hrun hok hgo)
  · intro hset
    exact (lost_or_going haligned hrun hok).resolve_right fun hhung => hhung.not_setTo hset

/-! ### Two servers, the second of which is down -/

def urlParse (s : String) : Except String Url :=
  if "ldap://".toList <+: s.toList then .ok s else .error "relative URL without a base"

theorem pieces_two : pieces "ldap://a ldap://b" = ["ldap://a", "ldap://b"] := by decide

theorem parse_two :
    ["ldap://a", "ldap://b"].map urlParse = [.ok "ldap://a", .ok "ldap://b"] := by decide

/-- The steps of the main thread. -/
def secondIsDown : List Act :=
  [.main {}, .main {}, .main {}, .main {}, .main {},
    .main { connect := fun _ => .error (.ioError "connect" "refused") }, .main {}, .main {}]

theorem connectsGo_secondIsDown (w : World) :
    Steps ConnectsGo (trace World.step w secondIsDown) := by
  intro x hx
  have ha : x.2 ∈ secondIsDown := mem_of_trace hx
  simp only [secondIsDown, List.mem_cons, List.not_mem_nil, or_false] at ha
  rcases ha with ha | ha | ha | ha | ha | ha | ha | ha
  all_goals
    rw [ha]
    exact fun _ _ _ _ => Net.panics_eq_false (fun _ => rfl) _ _

/-- Both are listed, the second as unhealthy. -/
theorem server_list_set_exactly_two : ∃ tr w,
    Run World.step (processServerList urlParse (State.init {} { connectionPoolSize := 1 })
      "ldap://a ldap://b") tr w ∧
      w.returned = some (.ok ()) ∧
      w.sys.mem.ctx.servers.map (·.url) = ["ldap://a", "ldap://b"] ∧
      (events listed tr).map (·.isHealthy) = [true, false] := by
  let s := State.init {} { connectionPoolSize := 1 }
  have hvalid : ¬ Invalid urlParse "ldap://a ldap://b" := by
    rintro ⟨-, piece, hpiece, e, he⟩
    have hmem : urlParse piece ∈ [Except.ok "ldap://a", .ok "ldap://b"] := by
      rw [← parse_two, ← pieces_two]
      exact List.mem_map_of_mem hpiece
    rw [he] at hmem
    simp at hmem
  have hcall : processServerList urlParse s "ldap://a ldap://b" =
      { sys := { s with main := .clearing ["ldap://a", "ldap://b"] }, returned := none } := by
    unfold processServerList
    rw [if_neg (by decide), pieces_two]
    rfl
  obtain ⟨-, hset⟩ := server_list_set_exactly urlParse {} { connectionPoolSize := 1 } [] s .refl
    "ldap://a ldap://b"
  obtain ⟨urls, hparsed, hset⟩ := hset hvalid
  have hurls : urls = ["ldap://a", "ldap://b"] := by
    rw [Parsed, if_neg (by decide), pieces_two, parse_two] at hparsed
    replace hparsed : ["ldap://a", "ldap://b"].map (@Except.ok String Url) = urls.map .ok := hparsed
    have hinj : Function.Injective (@Except.ok String Url) := fun _ _ h =>
      Except.ok.inj h
    exact (List.map_injective_iff.mpr hinj hparsed).symm
  have hexec : ∃ w, exec World.step
      { sys := { s with main := .clearing ["ldap://a", "ldap://b"] }, returned := none }
      secondIsDown = some w ∧ w.returned = some (.ok ()) := ⟨_, rfl, rfl⟩
  obtain ⟨w, hw, hreturned⟩ := hexec
  rw [← hcall] at hw
  have hok : Steps NoConfigSet (trace World.step (processServerList urlParse s "ldap://a ldap://b")
      secondIsDown) := by
    intro x hx
    have ha : x.2 ∈ secondIsDown := mem_of_trace hx
    simp only [secondIsDown, List.mem_cons, List.not_mem_nil, or_false] at ha
    rcases ha with ha | ha | ha | ha | ha | ha | ha | ha
    all_goals
      rw [ha]
      trivial
  have hgo := connectsGo_secondIsDown (processServerList urlParse s "ldap://a ldap://b")
  obtain ⟨-, hservers, -, -⟩ := ((hset _ w (exec_run hw) hok).mp hgo).returns _ hreturned
  refine ⟨_, w, exec_run hw, hreturned, hservers.trans hurls, ?_⟩
  rw [hcall]
  rfl

/-! ### A URL without a host -/

/-- The attempt to connect to the only server panics. -/
def noHost : List Act := [.main {}, .main {}, .main { connectPanics := fun _ => true }]

/-- The call for a URL without a host, which is a valid one, never returns. -/
theorem url_without_host_hangs : ¬ Invalid urlParse "ldap:///" ∧
    ∃ tr w, Run World.step (processServerList urlParse (State.init {} { connectionPoolSize := 1 })
      "ldap:///") tr w ∧ Steps NoConfigSet tr ∧
      ∀ tr' w', Run World.step w tr' w' → w'.sys.main = .hung ∧ w'.returned = none := by
  have hpieces : pieces "ldap:///" = ["ldap:///"] := by decide
  have hparse : urlParse "ldap:///" = .ok "ldap:///" := by decide
  have hcall : processServerList urlParse (State.init {} { connectionPoolSize := 1 }) "ldap:///" =
      { sys := { State.init {} { connectionPoolSize := 1 } with main := .clearing ["ldap:///"] },
        returned := none } := by
    unfold processServerList
    rw [if_neg (by decide), hpieces, parseUrls, hparse]
    rfl
  obtain ⟨w, hw, hhung⟩ : ∃ w, exec World.step
      { sys := { State.init {} { connectionPoolSize := 1 } with main := .clearing ["ldap:///"] },
        returned := none } noHost = some w ∧ w.Hung := ⟨_, rfl, rfl, rfl⟩
  rw [← hcall] at hw
  refine ⟨?_, _, w, exec_run hw, fun x hx => ?_, fun tr' w' h' => ?_⟩
  · rintro ⟨-, piece, hpiece, e, he⟩
    rw [hpieces] at hpiece
    rw [List.mem_singleton.mp hpiece, hparse] at he
    cases he
  · have ha : x.2 ∈ noHost := mem_of_trace hx
    simp only [noHost, List.mem_cons, List.not_mem_nil, or_false] at ha
    rcases ha with ha | ha | ha
    all_goals
      rw [ha]
      trivial
  · exact h'.invariant steps_true hhung fun _ _ _ hh _ hs => hung_step hh hs

end ServerList
end System
end ValkeyLdap
