/-
# The string form of search filters

The grammar of RFC 4515 as a parser. A filter is a parenthesised term: a
conjunction, a disjunction, a negation, or an item, which runs to the next
parenthesis and splits at its first `=`. What stands between is read with the
escapes of the grammar into octets; an asterisk makes the item a presence or
a substring match.

The parser reads a filter from the front of a string and never looks beyond
its closing parenthesis, so it reads one filter inside another as it reads it
alone (`parseFilter_append`). An attribute and a value written around `=` are
the equality of the two unless the value holds one of the five special
characters (`parseItem_equality`), also in a conjunction with another filter
(`parse_and_item`).

Key theorems: `decodeValue_eq_octets`, `parseItem_equality`,
`parseFilter_append`, `parse_and_item`.
-/
import Mathlib.Data.List.Basic

namespace LdapFilter

inductive Filter
  | and (filters : List Filter)
  | or (filters : List Filter)
  | not (filter : Filter)
  | equality (attr : List Char) (value : List UInt8)
  | approx (attr : List Char) (value : List UInt8)
  | greaterOrEqual (attr : List Char) (value : List UInt8)
  | lessOrEqual (attr : List Char) (value : List UInt8)
  | present (attr : List Char)
  | substrings (attr : List Char) (initial : List UInt8) (any : List (List UInt8))
      (final : List UInt8)
  | extensible (attr : Option (List Char)) (dnAttributes : Bool) (rule : Option (List Char))
      (value : List UInt8)

/-! ### Values -/

/-- The characters a value cannot hold unescaped. -/
def special (c : Char) : Bool :=
  c == '\\' || c == '*' || c == '(' || c == ')' || c == Char.ofNat 0

def hexValue (c : Char) : Option ℕ :=
  if '0' ≤ c ∧ c ≤ '9' then some (c.toNat - 48)
  else if 'a' ≤ c ∧ c ≤ 'f' then some (c.toNat - 87)
  else if 'A' ≤ c ∧ c ≤ 'F' then some (c.toNat - 55)
  else none

/-- The octets of a text. -/
def octets (s : List Char) : List UInt8 := s.flatMap String.utf8EncodeChar

/-- The octets an assertion value stands for: `\xx` is one, every other
character stands for its own. -/
def decodeValue : List Char → Option (List UInt8)
  | [] => some []
  | '\\' :: h :: l :: s => do
    let h ← hexValue h
    let l ← hexValue l
    let v ← decodeValue s
    some (UInt8.ofNat (16 * h + l) :: v)
  | c :: s =>
    if special c then none
    else (decodeValue s).map (String.utf8EncodeChar c ++ ·)

theorem octets_cons (c : Char) (s : List Char) :
    octets (c :: s) = String.utf8EncodeChar c ++ octets s := rfl

theorem length_utf8EncodeChar_pos (c : Char) : 0 < (String.utf8EncodeChar c).length := by
  rw [String.length_utf8EncodeChar]
  exact c.utf8Size_pos

/-- A value has at most as many octets as its text, and fewer with an escape. -/
theorem length_decodeValue {s : List Char} {v : List UInt8} (h : decodeValue s = some v) :
    v.length ≤ (octets s).length ∧
      (v.length = (octets s).length → ∀ c ∈ s, special c = false) := by
  fun_induction decodeValue s generalizing v with
  | case1 =>
    obtain rfl := Option.some.inj h
    exact ⟨Nat.le_refl _, fun _ c hc => by cases hc⟩
  | case2 a b s ih =>
    simp only [Option.bind_eq_bind, Option.bind_eq_some_iff] at h
    obtain ⟨_, -, _, -, w, hw, hv⟩ := h
    obtain rfl := Option.some.inj hv
    have hle := (ih hw).1
    have h1 := length_utf8EncodeChar_pos a
    have h2 := length_utf8EncodeChar_pos b
    have h3 := length_utf8EncodeChar_pos '\\'
    simp only [octets_cons, List.length_append, List.length_cons]
    exact ⟨by omega, fun h => by omega⟩
  | case3 => cases h
  | case4 c s _ hc ih =>
    obtain ⟨w, hw, rfl⟩ := Option.map_eq_some_iff.mp h
    obtain ⟨hle, hplain⟩ := ih hw
    simp only [octets_cons, List.length_append]
    refine ⟨by omega, fun heq d hd => ?_⟩
    rcases List.mem_cons.mp hd with rfl | hd
    · exact eq_false_of_ne_true hc
    · exact hplain (by omega) d hd

theorem decodeValue_of_plain {s : List Char} (h : ∀ c ∈ s, special c = false) :
    decodeValue s = some (octets s) := by
  fun_induction decodeValue s with
  | case1 => rfl
  | case2 a b s ih => exact absurd (h '\\' List.mem_cons_self) (by decide)
  | case3 c s _ hc => rw [h c List.mem_cons_self] at hc; cases hc
  | case4 c s _ hc ih =>
    rw [ih fun d hd => h d (List.mem_cons_of_mem _ hd)]
    rfl

/-- **A value stands for its own text exactly if it holds no special
character.** -/
theorem decodeValue_eq_octets (s : List Char) :
    decodeValue s = some (octets s) ↔ ∀ c ∈ s, special c = false := by
  constructor
  · intro h
    exact (length_decodeValue h).2 rfl
  · exact decodeValue_of_plain

theorem plain_of_any {s : List Char} (h : s.any special = false) :
    ∀ c ∈ s, special c = false :=
  fun c hc => eq_false_of_ne_true (List.any_eq_false.mp h c hc)

/-! ### Items -/

/-- The parts of `s` between the occurrences of `c`. -/
def splitAt (c : Char) : List Char → List (List Char)
  | [] => [[]]
  | d :: s =>
    if d = c then [] :: splitAt c s
    else match splitAt c s with
      | [] => [[d]]
      | w :: ws => (d :: w) :: ws

def keychar (c : Char) : Bool := c.isAlphanum || c == '-'

def descr : List Char → Bool
  | [] => false
  | c :: s => c.isAlpha && s.all keychar

def number : List Char → Bool
  | [] => false
  | c :: s => c.isDigit && s.all Char.isDigit && (c != '0' || s.isEmpty)

def numericoid (s : List Char) : Bool :=
  let numbers := splitAt '.' s
  2 ≤ numbers.length && numbers.all number

def oid (s : List Char) : Bool := descr s || numericoid s

/-- An attribute description: a type and its options. -/
def attributeDescription (s : List Char) : Bool :=
  match splitAt ';' s with
  | [] => false
  | type :: options => oid type && options.all fun o => !o.isEmpty && o.all keychar

/-- What follows `attr=`: a value, a presence, or a substring match. -/
def parseValue (attr rhs : List Char) : Option Filter :=
  match splitAt '*' rhs with
  | [] => none
  | [v] => (decodeValue v).map (.equality attr)
  | [[], []] => some (.present attr)
  | initial :: rest => do
    let initial ← decodeValue initial
    let any ← rest.dropLast.mapM decodeValue
    let final ← decodeValue (rest.getLastD [])
    some (.substrings attr initial any final)

/-- What stands before `:=`: an attribute, a matching rule, or both, with the
flag `dn` in between. -/
def parseExtensible (lhs rhs : List Char) : Option Filter := do
  let value ← decodeValue rhs
  let isDn (w : List Char) : Bool := w.map Char.toLower == ['d', 'n']
  let attr (a : List Char) : Option (List Char) := if a.isEmpty then none else some a
  match splitAt ':' lhs with
  | [a] => if attributeDescription a then some (.extensible (some a) false none value) else none
  | [a, w] =>
    if attributeDescription a && isDn w then some (.extensible (some a) true none value)
    else if (a.isEmpty || attributeDescription a) && oid w then
      some (.extensible (attr a) false (some w) value)
    else none
  | [a, w, r] =>
    if (a.isEmpty || attributeDescription a) && isDn w && oid r then
      some (.extensible (attr a) true (some r) value)
    else none
  | _ => none

/-- An item, split at its first `=`; the character before it says which
comparison. -/
def parseItem (s : List Char) : Option Filter :=
  let lhs := s.takeWhile (· != '=')
  match s.dropWhile (· != '=') with
  | [] => none
  | _ :: rhs =>
    let simple (make : List Char → List UInt8 → Filter) : Option Filter :=
      if attributeDescription lhs.dropLast then (decodeValue rhs).map (make lhs.dropLast)
      else none
    match lhs.getLast? with
    | some '~' => simple .approx
    | some '>' => simple .greaterOrEqual
    | some '<' => simple .lessOrEqual
    | some ':' => parseExtensible lhs.dropLast rhs
    | _ => if attributeDescription lhs then parseValue lhs rhs else none

/-! ### Filters -/

def notParen (c : Char) : Bool := c != '(' && c != ')'

/-- The parenthesis that ends a filter. -/
def close : Option (Filter × List Char) → Option (Filter × List Char)
  | some (f, ')' :: s) => some (f, s)
  | _ => none

mutual

/-- A filter at the front of `s`, and what follows it; `n` bounds the depth. -/
def parseFilter : ℕ → List Char → Option (Filter × List Char)
  | 0, _ => none
  | n + 1, s =>
    match s with
    | '(' :: s => close (parseComp n s)
    | _ => none

/-- What stands between the parentheses. -/
def parseComp : ℕ → List Char → Option (Filter × List Char)
  | 0, _ => none
  | n + 1, s =>
    match s with
    | '&' :: s => (parseFilters n s).map fun r => (.and r.1, r.2)
    | '|' :: s => (parseFilters n s).map fun r => (.or r.1, r.2)
    | '!' :: s => (parseFilter n s).map fun r => (.not r.1, r.2)
    | s => (parseItem (s.takeWhile notParen)).map fun f => (f, s.dropWhile notParen)

/-- One filter or more. -/
def parseFilters : ℕ → List Char → Option (List Filter × List Char)
  | 0, _ => none
  | n + 1, s =>
    match parseFilter n s with
    | none => none
    | some (f, '(' :: s) => (parseFilters n ('(' :: s)).map fun r => (f :: r.1, r.2)
    | some (f, s) => some ([f], s)

end

/-- The filter that the whole string is. -/
def parse (s : List Char) : Option Filter :=
  match parseFilter (3 * s.length) s with
  | some (f, []) => some f
  | _ => none

/-! ### The parser reads no further than it must -/

theorem close_eq_some {r : Option (Filter × List Char)} {f : Filter} {s : List Char} :
    close r = some (f, s) ↔ r = some (f, ')' :: s) := by
  unfold close
  split
  · simp
  · rename_i h
    constructor
    · intro h
      cases h
    · intro hr
      exact absurd hr (h f s)

/-- A filter with another behind it, and the last one. -/
theorem parseFilters_cons {n : ℕ} {s t : List Char} {f : Filter}
    (h : parseFilter n s = some (f, '(' :: t)) :
    parseFilters (n + 1) s = (parseFilters n ('(' :: t)).map fun r => (f :: r.1, r.2) := by
  rw [parseFilters, h]
  rfl

theorem parseFilters_last {n : ℕ} {s t : List Char} {f : Filter} (ht : ∀ u, t ≠ '(' :: u)
    (h : parseFilter n s = some (f, t)) : parseFilters (n + 1) s = some ([f], t) := by
  unfold parseFilters
  rw [h]
  split
  · rename_i he
    cases he
  · rename_i he
    exact absurd (Prod.mk.inj (Option.some.inj he)).2 (ht _)
  · rename_i he
    obtain ⟨rfl, rfl⟩ := Prod.mk.inj (Option.some.inj he)
    rfl

theorem parseFilters_inv {n : ℕ} {s r : List Char} {fs : List Filter}
    (h : parseFilters (n + 1) s = some (fs, r)) :
    (∃ f t gs, parseFilter n s = some (f, '(' :: t) ∧ parseFilters n ('(' :: t) = some (gs, r) ∧
      fs = f :: gs) ∨
      ∃ f, parseFilter n s = some (f, r) ∧ (∀ u, r ≠ '(' :: u) ∧ fs = [f] := by
  unfold parseFilters at h
  split at h
  · cases h
  · rename_i f t hf
    obtain ⟨⟨gs, r'⟩, hs, he⟩ := Option.map_eq_some_iff.mp h
    obtain ⟨rfl, rfl⟩ := Prod.mk.inj he
    exact .inl ⟨f, t, gs, hf, hs, rfl⟩
  · rename_i f t ht hf
    obtain ⟨rfl, rfl⟩ := Prod.mk.inj (Option.some.inj h)
    exact .inr ⟨f, hf, ht, rfl⟩

theorem parseFilters_ne_nil {n : ℕ} {s r : List Char} {fs : List Filter}
    (h : parseFilters n s = some (fs, r)) : fs ≠ [] := by
  cases n with
  | zero => simp [parseFilters] at h
  | succ n =>
    rcases parseFilters_inv h with ⟨f, _, gs, -, -, rfl⟩ | ⟨f, -, -, rfl⟩
    · exact List.cons_ne_nil f gs
    · exact List.cons_ne_nil f []

/-- The text does not begin like a compound filter. -/
def IsItem (s : List Char) : Prop := ∀ t, s ≠ '&' :: t ∧ s ≠ '|' :: t ∧ s ≠ '!' :: t

theorem parseComp_item (n : ℕ) {s : List Char} (hs : IsItem s) :
    parseComp (n + 1) s =
      (parseItem (s.takeWhile notParen)).map fun f => (f, s.dropWhile notParen) := by
  rw [parseComp]
  · exact fun t => (hs t).1
  · exact fun t => (hs t).2.1
  · exact fun t => (hs t).2.2

/-- What stands between the parentheses, by how it begins. -/
theorem parseComp_inv {n : ℕ} {s r : List Char} {f : Filter}
    (h : parseComp (n + 1) s = some (f, r)) :
    (∃ t fs, s = '&' :: t ∧ parseFilters n t = some (fs, r) ∧ f = .and fs) ∨
      (∃ t fs, s = '|' :: t ∧ parseFilters n t = some (fs, r) ∧ f = .or fs) ∨
      (∃ t g, s = '!' :: t ∧ parseFilter n t = some (g, r) ∧ f = .not g) ∨
      IsItem s ∧ parseItem (s.takeWhile notParen) = some f ∧ s.dropWhile notParen = r := by
  unfold parseComp at h
  split at h
  · rename_i t
    obtain ⟨⟨fs, r'⟩, hfs, he⟩ := Option.map_eq_some_iff.mp h
    obtain ⟨rfl, rfl⟩ := Prod.mk.inj he
    exact .inl ⟨t, fs, rfl, hfs, rfl⟩
  · rename_i t
    obtain ⟨⟨fs, r'⟩, hfs, he⟩ := Option.map_eq_some_iff.mp h
    obtain ⟨rfl, rfl⟩ := Prod.mk.inj he
    exact .inr (.inl ⟨t, fs, rfl, hfs, rfl⟩)
  · rename_i t
    obtain ⟨⟨g, r'⟩, hg, he⟩ := Option.map_eq_some_iff.mp h
    obtain ⟨rfl, rfl⟩ := Prod.mk.inj he
    exact .inr (.inr (.inl ⟨t, g, rfl, hg, rfl⟩))
  · rename_i h1 h2 h3
    obtain ⟨g, hg, he⟩ := Option.map_eq_some_iff.mp h
    obtain ⟨rfl, rfl⟩ := Prod.mk.inj he
    exact .inr (.inr (.inr ⟨fun t => ⟨h1 t, h2 t, h3 t⟩, hg, rfl⟩))

theorem takeWhile_append_of_stop {p : Char → Bool} {s t r : List Char} {c : Char}
    (h : s.dropWhile p = c :: r) :
    (s ++ t).takeWhile p = s.takeWhile p ∧ (s ++ t).dropWhile p = c :: (r ++ t) := by
  induction s with
  | nil => cases h
  | cons d s ih =>
    by_cases hd : p d = true
    · rw [List.dropWhile_cons_of_pos hd] at h
      obtain ⟨h1, h2⟩ := ih h
      simp only [List.cons_append, List.takeWhile_cons_of_pos hd, List.dropWhile_cons_of_pos hd]
      exact ⟨by rw [h1], h2⟩
    · rw [List.dropWhile_cons_of_neg hd] at h
      obtain ⟨rfl, rfl⟩ := List.cons.inj h
      simp only [List.cons_append, List.takeWhile_cons_of_neg hd, List.dropWhile_cons_of_neg hd,
        and_self]

theorem IsItem.append {p : Char → Bool} {s r : List Char} {c : Char} (hs : IsItem s)
    (t : List Char) (h : s.dropWhile p = c :: r) : IsItem (s ++ t) := by
  cases s with
  | nil => cases h
  | cons d s =>
    intro u
    have hd := hs s
    refine ⟨fun he => hd.1 ?_, fun he => hd.2.1 ?_, fun he => hd.2.2 ?_⟩
    all_goals rw [(List.cons.inj he).1]

/-- What the parser has read it reads again with more text behind; inside the
parentheses, if it stopped before the end. -/
theorem parse_append (n : ℕ) :
    (∀ s t f r, parseFilter n s = some (f, r) → parseFilter n (s ++ t) = some (f, r ++ t)) ∧
      (∀ s t f c r, parseComp n s = some (f, c :: r) →
        parseComp n (s ++ t) = some (f, c :: r ++ t)) ∧
      ∀ s t fs c r, parseFilters n s = some (fs, c :: r) →
        parseFilters n (s ++ t) = some (fs, c :: r ++ t) := by
  induction n with
  | zero =>
    exact ⟨fun _ _ _ _ h => by simp [parseFilter] at h, fun _ _ _ _ _ h => by
      simp [parseComp] at h, fun _ _ _ _ _ h => by simp [parseFilters] at h⟩
  | succ n ih =>
    obtain ⟨ihf, ihc, ihs⟩ := ih
    refine ⟨fun s t f r h => ?_, fun s t f c r h => ?_, fun s t fs c r h => ?_⟩
    · unfold parseFilter at h
      split at h
      · rename_i s
        rw [close_eq_some] at h
        rw [List.cons_append, parseFilter, close_eq_some]
        exact ihc s t f _ r h
      · cases h
    · rcases parseComp_inv h with ⟨u, fs, rfl, hfs, rfl⟩ | ⟨u, fs, rfl, hfs, rfl⟩ |
        ⟨u, g, rfl, hg, rfl⟩ | ⟨hs, hitem, hr⟩
      · rw [List.cons_append, parseComp, ihs u t fs c r hfs]
        rfl
      · rw [List.cons_append, parseComp, ihs u t fs c r hfs]
        rfl
      · rw [List.cons_append, parseComp, ihf u t g _ hg]
        rfl
      · obtain ⟨ht, hd⟩ := takeWhile_append_of_stop (t := t) hr
        rw [parseComp_item n (hs.append t hr), ht, hd, hitem]
        rfl
    · rcases parseFilters_inv h with ⟨f, u, gs, hf, hs, rfl⟩ | ⟨f, hf, hr, rfl⟩
      · have hf : parseFilter n (s ++ t) = some (f, '(' :: (u ++ t)) := ihf s t f _ hf
        have hs : parseFilters n ('(' :: (u ++ t)) = some (gs, c :: r ++ t) := ihs _ t gs c r hs
        rw [parseFilters_cons hf, hs]
        rfl
      · refine parseFilters_last (fun u he => ?_) (ihf s t f (c :: r) hf)
        rw [List.cons_append] at he
        exact hr r (by rw [(List.cons.inj he).1])

/-- More fuel changes nothing about what was read. -/
theorem parse_mono (n : ℕ) :
    (∀ m s x, n ≤ m → parseFilter n s = some x → parseFilter m s = some x) ∧
      (∀ m s x, n ≤ m → parseComp n s = some x → parseComp m s = some x) ∧
      ∀ m s x, n ≤ m → parseFilters n s = some x → parseFilters m s = some x := by
  induction n with
  | zero =>
    exact ⟨fun _ _ _ _ h => by simp [parseFilter] at h, fun _ _ _ _ h => by
      simp [parseComp] at h, fun _ _ _ _ h => by simp [parseFilters] at h⟩
  | succ n ih =>
    obtain ⟨ihf, ihc, ihs⟩ := ih
    refine ⟨fun m s x hm h => ?_, fun m s x hm h => ?_, fun m s x hm h => ?_⟩
    all_goals
      obtain ⟨m, rfl⟩ : ∃ k, m = k + 1 := ⟨m - 1, by omega⟩
      have hm : n ≤ m := by omega
    · unfold parseFilter at h ⊢
      split at h
      · obtain ⟨f, r⟩ := x
        rw [close_eq_some] at h ⊢
        exact ihc m _ _ hm h
      · cases h
    · obtain ⟨f, r⟩ := x
      rcases parseComp_inv h with ⟨u, fs, rfl, hfs, rfl⟩ | ⟨u, fs, rfl, hfs, rfl⟩ |
        ⟨u, g, rfl, hg, rfl⟩ | ⟨hs, hitem, hr⟩
      · rw [parseComp, ihs m u _ hm hfs]
        rfl
      · rw [parseComp, ihs m u _ hm hfs]
        rfl
      · rw [parseComp, ihf m u _ hm hg]
        rfl
      · rw [parseComp_item m hs, hitem, hr]
        rfl
    · obtain ⟨fs, r⟩ := x
      rcases parseFilters_inv h with ⟨f, u, gs, hf, hs, rfl⟩ | ⟨f, hf, hr, rfl⟩
      · rw [parseFilters_cons (ihf m s _ hm hf), ihs m _ _ hm hs]
        rfl
      · exact parseFilters_last hr (ihf m s _ hm hf)

/-- **A filter is read inside a longer text as it is read alone.** -/
theorem parseFilter_append {n m : ℕ} {s t : List Char} {f : Filter} (hm : n ≤ m)
    (h : parseFilter n s = some (f, [])) : parseFilter m (s ++ t) = some (f, t) :=
  (parse_mono n).1 m _ _ hm ((parse_append n).1 s t f [] h)

theorem parse_eq_some {s : List Char} {f : Filter} :
    parse s = some f ↔ parseFilter (3 * s.length) s = some (f, []) := by
  unfold parse
  split
  · rename_i g hg
    rw [hg]
    simp
  · rename_i h
    constructor
    · intro h
      cases h
    · intro hf
      exact absurd hf (h f)

/-! ### Attribute descriptions hold no delimiter -/

theorem splitAt_ne_nil (c : Char) (s : List Char) : splitAt c s ≠ [] := by
  cases s with
  | nil => exact List.cons_ne_nil _ _
  | cons d s =>
    unfold splitAt
    split
    · exact List.cons_ne_nil _ _
    · split
      · exact List.cons_ne_nil _ _
      · exact List.cons_ne_nil _ _

theorem mem_splitAt {c d : Char} {s : List Char} (hd : d ∈ s) :
    d = c ∨ ∃ w ∈ splitAt c s, d ∈ w := by
  induction s with
  | nil => cases hd
  | cons e s ih =>
    unfold splitAt
    by_cases he : e = c
    · rw [if_pos he]
      rcases List.mem_cons.mp hd with rfl | hd
      · exact .inl he
      · rcases ih hd with h | ⟨w, hw, hd⟩
        · exact .inl h
        · exact .inr ⟨w, List.mem_cons_of_mem _ hw, hd⟩
    · rw [if_neg he]
      split
      · rename_i h
        exact absurd h (splitAt_ne_nil c s)
      · rename_i w ws h
        rw [h] at ih
        rcases List.mem_cons.mp hd with rfl | hd
        · exact .inr ⟨d :: w, List.mem_cons_self, List.mem_cons_self⟩
        · rcases ih hd with h | ⟨v, hv, hd⟩
          · exact .inl h
          · rcases List.mem_cons.mp hv with rfl | hv
            · exact .inr ⟨e :: v, List.mem_cons_self, List.mem_cons_of_mem _ hd⟩
            · exact .inr ⟨v, List.mem_cons_of_mem _ hv, hd⟩

theorem splitAt_of_not_mem {c : Char} {s : List Char} (h : c ∉ s) : splitAt c s = [s] := by
  induction s with
  | nil => rfl
  | cons d s ih =>
    have hd : d ≠ c := fun he => h (he ▸ List.mem_cons_self)
    rw [splitAt, if_neg hd, ih fun hs => h (List.mem_cons_of_mem _ hs)]

theorem splitAt_eq_single {c : Char} {s w : List Char} (h : splitAt c s = [w]) : w = s := by
  induction s generalizing w with
  | nil => exact (List.cons.inj h).1.symm
  | cons d s ih =>
    unfold splitAt at h
    by_cases hd : d = c
    · rw [if_pos hd] at h
      exact absurd (List.cons.inj h).2 (splitAt_ne_nil c s)
    · rw [if_neg hd] at h
      split at h
      · rename_i hs
        exact absurd hs (splitAt_ne_nil c s)
      · rename_i v vs hs
        obtain ⟨rfl, rfl⟩ := List.cons.inj h
        rw [ih hs]

/-- The characters of an attribute description. -/
def attrchar (c : Char) : Bool := keychar c || c == '.' || c == ';'

theorem descr_keychar {s : List Char} (h : descr s = true) : ∀ c ∈ s, keychar c = true := by
  cases s with
  | nil => cases h
  | cons d s =>
    obtain ⟨hd, hs⟩ := Bool.and_eq_true_iff.mp h
    intro c hc
    rcases List.mem_cons.mp hc with rfl | hc
    · simp [keychar, Char.isAlphanum, hd]
    · exact List.all_eq_true.mp hs c hc

theorem number_keychar {s : List Char} (h : number s = true) : ∀ c ∈ s, keychar c = true := by
  have digit : ∀ c : Char, c.isDigit = true → keychar c = true := fun c hc => by
    simp [keychar, Char.isAlphanum, hc]
  cases s with
  | nil => cases h
  | cons d s =>
    obtain ⟨hds, -⟩ := Bool.and_eq_true_iff.mp h
    obtain ⟨hd, hs⟩ := Bool.and_eq_true_iff.mp hds
    intro c hc
    rcases List.mem_cons.mp hc with rfl | hc
    · exact digit c hd
    · exact digit c (List.all_eq_true.mp hs c hc)

theorem oid_attrchar {s : List Char} (h : oid s = true) : ∀ c ∈ s, attrchar c = true := by
  intro c hc
  rcases Bool.or_eq_true_iff.mp h with h | h
  · rw [attrchar, descr_keychar h c hc]
    rfl
  · obtain ⟨-, h⟩ := Bool.and_eq_true_iff.mp h
    rcases mem_splitAt (c := '.') hc with rfl | ⟨w, hw, hc⟩
    · rfl
    · rw [attrchar, number_keychar (List.all_eq_true.mp h w hw) c hc]
      rfl

theorem attributeDescription_attrchar {s : List Char} (h : attributeDescription s = true) :
    ∀ c ∈ s, attrchar c = true := by
  intro c hc
  unfold attributeDescription at h
  split at h
  · cases h
  · rename_i type options hs
    obtain ⟨ht, ho⟩ := Bool.and_eq_true_iff.mp h
    rcases mem_splitAt (c := ';') hc with rfl | ⟨w, hw, hc⟩
    · rfl
    · rw [hs] at hw
      rcases List.mem_cons.mp hw with rfl | hw
      · exact oid_attrchar ht c hc
      · obtain ⟨-, hk⟩ := Bool.and_eq_true_iff.mp (List.all_eq_true.mp ho w hw)
        rw [attrchar, List.all_eq_true.mp hk c hc]
        rfl

theorem not_mem_attributeDescription {s : List Char} {c : Char} (hc : attrchar c = false)
    (h : attributeDescription s = true) : c ∉ s := by
  intro hs
  rw [attributeDescription_attrchar h c hs] at hc
  cases hc

/-! ### Equality items -/

/-- A value without an asterisk is the whole right-hand side. -/
theorem parseValue_eq_equality {attr a rhs : List Char} {v : List UInt8}
    (h : parseValue attr rhs = some (.equality a v)) : a = attr ∧ decodeValue rhs = some v := by
  unfold parseValue at h
  split at h
  · cases h
  · rename_i w hw
    obtain ⟨u, hu, he⟩ := Option.map_eq_some_iff.mp h
    obtain ⟨rfl, rfl⟩ := Filter.equality.inj he
    rw [splitAt_eq_single hw] at hu
    exact ⟨rfl, hu⟩
  · cases Option.some.inj h
  · simp only [Option.bind_eq_bind, Option.bind_eq_some_iff] at h
    obtain ⟨_, -, _, -, _, -, he⟩ := h
    cases Option.some.inj he

theorem parseValue_of_plain (attr : List Char) {rhs : List Char}
    (h : ∀ c ∈ rhs, special c = false) :
    parseValue attr rhs = some (.equality attr (octets rhs)) := by
  have hstar : '*' ∉ rhs := fun hs => absurd (h '*' hs) (by decide)
  rw [parseValue, splitAt_of_not_mem hstar]
  simp only [decodeValue_of_plain h, Option.map_some]

theorem parseExtensible_ne_equality {lhs rhs a : List Char} {v : List UInt8} :
    parseExtensible lhs rhs ≠ some (.equality a v) := by
  intro h
  unfold parseExtensible at h
  obtain ⟨w, -, h⟩ := Option.bind_eq_some_iff.mp h
  simp only at h
  repeat' split at h
  all_goals cases h

/-- An item that is an equality is an attribute description, `=`, and a value. -/
theorem parseItem_inv {s a : List Char} {v : List UInt8}
    (h : parseItem s = some (.equality a v)) :
    attributeDescription a = true ∧ a = s.takeWhile (· != '=') ∧
      ∃ rhs, s = a ++ '=' :: rhs ∧ decodeValue rhs = some v := by
  unfold parseItem at h
  simp only at h
  split at h
  · cases h
  · rename_i d rhs hd
    have hs : s = s.takeWhile (· != '=') ++ d :: rhs := by
      rw [← hd, List.takeWhile_append_dropWhile]
    have heq : d = '=' := by
      have := List.head_dropWhile_not (· != '=') (l := s) (by rw [hd]; exact List.cons_ne_nil _ _)
      simpa [hd] using this
    have simple : ∀ (make : List Char → List UInt8 → Filter) (lhs : List Char),
        (∀ w u, make w u ≠ .equality a v) →
        (if attributeDescription lhs = true then (decodeValue rhs).map (make lhs) else none) ≠
          some (.equality a v) := by
      intro make lhs hmake hif
      split at hif
      · obtain ⟨u, -, hu⟩ := Option.map_eq_some_iff.mp hif
        exact hmake _ _ hu
      · cases hif
    split at h
    · exact absurd h (simple .approx _ (by rintro _ _ ⟨⟩))
    · exact absurd h (simple .greaterOrEqual _ (by rintro _ _ ⟨⟩))
    · exact absurd h (simple .lessOrEqual _ (by rintro _ _ ⟨⟩))
    · exact absurd h parseExtensible_ne_equality
    · by_cases hattr : attributeDescription (s.takeWhile (· != '=')) = true
      · rw [if_pos hattr] at h
        obtain ⟨rfl, hv⟩ := parseValue_eq_equality h
        rw [heq] at hs
        exact ⟨hattr, rfl, rhs, hs, hv⟩
      · rw [if_neg hattr] at h
        cases h

theorem takeWhile_ne_of_not_mem {c : Char} {s r : List Char} (h : c ∉ s) :
    (s ++ c :: r).takeWhile (· != c) = s ∧ (s ++ c :: r).dropWhile (· != c) = c :: r := by
  have hs : ∀ d ∈ s, (d != c) = true := fun d hd => by
    simpa using fun he : d = c => h (he ▸ hd)
  rw [List.takeWhile_append_of_pos hs, List.dropWhile_append_of_pos hs]
  simp

/-- **An attribute and a value written around `=` are the equality of the two
exactly if the attribute is a description and the value holds no special
character.** -/
theorem parseItem_equality (attr value : List Char) :
    parseItem (attr ++ '=' :: value) = some (.equality attr (octets value)) ↔
      attributeDescription attr = true ∧ ∀ c ∈ value, special c = false := by
  constructor
  · intro h
    obtain ⟨hattr, -, rhs, hs, hv⟩ := parseItem_inv h
    obtain ⟨-, hrhs⟩ := List.cons.inj (List.append_cancel_left hs)
    rw [← hrhs] at hv
    exact ⟨hattr, (decodeValue_eq_octets value).mp hv⟩
  · rintro ⟨hattr, hvalue⟩
    have hchar := attributeDescription_attrchar hattr
    obtain ⟨ht, hd⟩ := takeWhile_ne_of_not_mem (r := value)
      (not_mem_attributeDescription (c := '=') (by decide) hattr)
    have hlast : ∀ c, attr.getLast? = some c → attrchar c = true := fun c hc =>
      hchar c (List.mem_of_getLast? hc)
    unfold parseItem
    simp only [ht, hd]
    -- the last character of a description is none that marks another comparison
    split
    · rename_i he
      exact absurd (hlast _ he) (by decide)
    · rename_i he
      exact absurd (hlast _ he) (by decide)
    · rename_i he
      exact absurd (hlast _ he) (by decide)
    · rename_i he
      exact absurd (hlast _ he) (by decide)
    · rw [if_pos hattr, parseValue_of_plain attr hvalue]

theorem attributeDescription_ne_nil {s : List Char} (h : attributeDescription s = true) :
    s ≠ [] := by
  rintro rfl
  revert h
  decide

/-! ### An item as a filter -/

theorem span_notParen {s r : List Char} (h : ∀ c ∈ s, notParen c = true) :
    (s ++ ')' :: r).takeWhile notParen = s ∧ (s ++ ')' :: r).dropWhile notParen = ')' :: r := by
  rw [List.takeWhile_append_of_pos h, List.dropWhile_append_of_pos h]
  simp [notParen]

/-- A parenthesised item that holds no parenthesis and does not begin like a
compound filter is read as the item. -/
theorem parseFilter_item {n : ℕ} {c : Char} {s r : List Char} {f : Filter}
    (hs : ∀ d ∈ c :: s, notParen d = true) (hc : c ≠ '&' ∧ c ≠ '|' ∧ c ≠ '!')
    (h : parseItem (c :: s) = some f) :
    parseFilter (n + 2) ('(' :: (c :: s ++ ')' :: r)) = some (f, r) := by
  obtain ⟨ht, hd⟩ := span_notParen (r := r) hs
  have hitem : IsItem (c :: s ++ ')' :: r) := fun t =>
    ⟨fun he => hc.1 (List.cons.inj he).1, fun he => hc.2.1 (List.cons.inj he).1,
      fun he => hc.2.2 (List.cons.inj he).1⟩
  rw [parseFilter, close_eq_some, parseComp_item n hitem, ht, hd, h]
  rfl

/-- What is read as an equality is one item up to the closing parenthesis. -/
theorem parseFilter_inv {n : ℕ} {s r a : List Char} {v : List UInt8}
    (h : parseFilter n ('(' :: s) = some (.equality a v, r)) :
    parseItem (s.takeWhile notParen) = some (.equality a v) ∧
      s.dropWhile notParen = ')' :: r := by
  cases n with
  | zero => simp [parseFilter] at h
  | succ n =>
    rw [parseFilter, close_eq_some] at h
    cases n with
    | zero => simp [parseComp] at h
    | succ n =>
      rcases parseComp_inv h with ⟨_, _, -, -, he⟩ | ⟨_, _, -, -, he⟩ | ⟨_, _, -, -, he⟩ |
        ⟨-, hitem, hr⟩
      · cases he
      · cases he
      · cases he
      · exact ⟨hitem, hr⟩

theorem plain_notParen {c : Char} (h : special c = false) : notParen c = true := by
  simp only [special, Bool.or_eq_false_iff] at h
  simp [notParen, bne, h]

theorem attrchar_notParen {c : Char} (h : attrchar c = true) : notParen c = true := by
  have hl : c ≠ '(' := by
    rintro rfl
    exact absurd h (by decide)
  have hr : c ≠ ')' := by
    rintro rfl
    exact absurd h (by decide)
  simp [notParen, hl, hr]

/-- The text of an equality item. -/
def equalityItem (attr value : List Char) : List Char := attr ++ '=' :: value

theorem parseFilter_equality {n : ℕ} {attr value r : List Char}
    (hattr : attributeDescription attr = true) (hvalue : ∀ c ∈ value, special c = false) :
    parseFilter (n + 2) ('(' :: (equalityItem attr value ++ ')' :: r)) =
      some (.equality attr (octets value), r) := by
  have hchar := attributeDescription_attrchar hattr
  have hitem := (parseItem_equality attr value).mpr ⟨hattr, hvalue⟩
  obtain ⟨c, attr', rfl⟩ := List.exists_cons_of_ne_nil (attributeDescription_ne_nil hattr)
  have hc := hchar c List.mem_cons_self
  refine parseFilter_item (c := c) (s := attr' ++ '=' :: value) (fun d hd => ?_) ?_ hitem
  · have hd : d ∈ (c :: attr') ++ '=' :: value := hd
    rcases List.mem_append.mp hd with hd | hd
    · exact attrchar_notParen (hchar d hd)
    · rcases List.mem_cons.mp hd with rfl | hd
      · rfl
      · exact plain_notParen (hvalue d hd)
  · refine ⟨?_, ?_, ?_⟩ <;> rintro rfl <;> exact absurd hc (by decide)

/-- **A filter and an item in one conjunction.** The text `(&(filter)(attr=value))`
is the conjunction of the filter and the equality of `attr` with exactly the
text of `value` if and only if `attr` is an attribute description and `value`
holds no special character. -/
theorem parse_and_item {filter attr value : List Char} {f : Filter}
    (hf : parse ('(' :: filter ++ [')']) = some f) :
    parse ("(&(".toList ++ filter ++ ")(".toList ++ attr ++ "=".toList ++ value ++ "))".toList) =
        some (.and [f, .equality attr (octets value)]) ↔
      attributeDescription attr = true ∧ ∀ c ∈ value, special c = false := by
  rw [parse_eq_some] at hf
  -- the text after `(&`: the filter, the item, the closing parenthesis
  have htext : "(&(".toList ++ filter ++ ")(".toList ++ attr ++ "=".toList ++ value ++ "))".toList =
      '(' :: '&' :: (('(' :: filter ++ [')']) ++
        '(' :: (equalityItem attr value ++ ')' :: [')'])) := by
    simp [equalityItem]
  rw [parse_eq_some, htext]
  obtain ⟨k, hk, hle⟩ : ∃ k, 3 * ('(' :: '&' :: (('(' :: filter ++ [')']) ++
      '(' :: (equalityItem attr value ++ ')' :: [')']))).length = k + 6 ∧
      3 * ('(' :: filter ++ [')']).length ≤ k + 3 := by
    refine ⟨3 * ('(' :: filter ++ [')']).length + 3 * (equalityItem attr value).length + 9,
      ?_, ?_⟩
    · simp only [List.length_cons, List.length_append, List.length_nil]
      omega
    · omega
  have hfirst := parseFilter_append (t := '(' :: (equalityItem attr value ++ ')' :: [')'])) hle hf
  rw [hk, parseFilter, close_eq_some, parseComp, parseFilters_cons hfirst]
  constructor
  · intro h
    obtain ⟨⟨fs, r⟩, hfs, he⟩ := Option.map_eq_some_iff.mp h
    obtain ⟨he, rfl⟩ := Prod.mk.inj he
    obtain rfl := Filter.and.inj he
    obtain ⟨⟨fs, r⟩, hfs, he⟩ := Option.map_eq_some_iff.mp hfs
    obtain ⟨he, rfl⟩ := Prod.mk.inj he
    obtain rfl := (List.cons.inj he).2
    rcases parseFilters_inv hfs with ⟨g, _, gs, -, hgs, he⟩ | ⟨g, hitem, -, he⟩
    · exact absurd (List.cons.inj he).2.symm (parseFilters_ne_nil hgs)
    · obtain ⟨rfl, -⟩ := List.cons.inj he
      obtain ⟨hitem, hrest⟩ := parseFilter_inv hitem
      have hall := List.takeWhile_append_dropWhile
        (p := notParen) (l := equalityItem attr value ++ ')' :: [')'])
      rw [hrest] at hall
      rw [List.append_cancel_right hall] at hitem
      exact (parseItem_equality attr value).mp hitem
  · rintro ⟨hattr, hvalue⟩
    rw [parseFilters_last (by rintro _ ⟨⟩) (parseFilter_equality hattr hvalue)]
    rfl

end LdapFilter
