/-
# The string form of distinguished names

The grammar of RFC 4514 as a parser. A name is a list of relative names
between commas, each a list of assertions between plus signs, each an
attribute type, `=`, and a value. A backslash takes the next character out of
the grammar: it stands for itself, or begins the two hexadecimal digits of an
octet. A value that begins with `#` is the encoding of some other value.

A text written as a value stands for itself exactly if it is plain, that is, a
value without any escape: an escape has fewer octets than its text, and a
comma of the text that is no separator is a comma of the value, so what
follows the text cannot become a part of it (`value_of_text`).

Key theorems: `length_decodeChars`, `count_decodeChars`, `value_of_text`,
`parse_type`.
-/
import ValkeyLdap.Lib.Filter

namespace LdapDn

open LdapFilter (octets octets_cons hexValue oid)

/-! ### Values -/

inductive Value
  | string (octets : List UInt8)
  | ber (octets : List UInt8)
  deriving DecidableEq, Repr

/-- A character that may stand in a value unescaped. -/
def stringchar (c : Char) : Bool :=
  c != '"' && c != '+' && c != ',' && c != ';' && c != '<' && c != '>' && c != '\\' &&
    c != Char.ofNat 0

/-- A character that a backslash makes stand for itself. -/
def escapable (c : Char) : Bool :=
  c == '"' || c == '+' || c == ',' || c == ';' || c == '<' || c == '>' || c == '\\' ||
    c == ' ' || c == '#' || c == '='

/-- The octets that the characters and pairs of a string stand for. -/
def decodeChars : List Char → Option (List UInt8)
  | [] => some []
  | '\\' :: h :: l :: s =>
    if escapable h then (decodeChars (l :: s)).map (String.utf8EncodeChar h ++ ·)
    else do
      let h ← hexValue h
      let l ← hexValue l
      let v ← decodeChars s
      some (UInt8.ofNat (16 * h + l) :: v)
  | ['\\', c] => if escapable c then some (String.utf8EncodeChar c) else none
  | c :: s =>
    if stringchar c then (decodeChars s).map (String.utf8EncodeChar c ++ ·) else none

/-- The text ends with a space that is not escaped. -/
def trailingSpace : List Char → Bool
  | [] => false
  | '\\' :: _ :: s => trailingSpace s
  | [c] => c == ' '
  | _ :: s => trailingSpace s

def decodeString (s : List Char) : Option (List UInt8) :=
  if s.head? = some ' ' ∨ trailingSpace s = true then none else decodeChars s

def hexPairs : List Char → Option (List UInt8)
  | [] => some []
  | h :: l :: s => do
    let h ← hexValue h
    let l ← hexValue l
    let v ← hexPairs s
    some (UInt8.ofNat (16 * h + l) :: v)
  | _ => none

def parseValue : List Char → Option Value
  | ['#'] => none
  | '#' :: s => (hexPairs s).map .ber
  | s => (decodeString s).map .string

/-- A text that is a value and needs no escape. -/
def Plain (s : List Char) : Prop :=
  (∀ c ∈ s, stringchar c = true) ∧ s.head? ≠ some ' ' ∧ s.head? ≠ some '#' ∧
    s.getLast? ≠ some ' '

/-! ### Names -/

/-- The parts of `s` between the separators that are not escaped. -/
def splitUnescaped (sep : Char) : List Char → List (List Char)
  | [] => [[]]
  | '\\' :: c :: s => (splitUnescaped sep s).modifyHead ('\\' :: c :: ·)
  | c :: s =>
    if c = sep then [] :: splitUnescaped sep s else (splitUnescaped sep s).modifyHead (c :: ·)

/-- An attribute type and a value. -/
structure Ava where
  type : List Char
  value : Value
  deriving DecidableEq, Repr

abbrev Rdn := List Ava

abbrev Dn := List Rdn

def parseAva (s : List Char) : Option Ava :=
  let type := s.takeWhile (· != '=')
  match s.dropWhile (· != '=') with
  | [] => none
  | _ :: value => if oid type then (parseValue value).map (⟨type, ·⟩) else none

def parseRdn (s : List Char) : Option Rdn := (splitUnescaped '+' s).mapM parseAva

/-- The name that the text is; the empty text is the empty name. -/
def parse (s : List Char) : Option Dn :=
  if s = [] then some [] else (splitUnescaped ',' s).mapM parseRdn

/-! ### What a string stands for -/

theorem decodeChars_plain {c : Char} (s : List Char) (hc : stringchar c = true) :
    decodeChars (c :: s) = (decodeChars s).map (String.utf8EncodeChar c ++ ·) := by
  have hback : c ≠ '\\' := fun he => absurd (he ▸ hc) (by decide)
  generalize htext : c :: s = text
  fun_cases decodeChars text with
  | case1 => cases htext
  | case2 => exact absurd (List.cons.inj htext).1 hback
  | case3 => exact absurd (List.cons.inj htext).1 hback
  | case4 => exact absurd (List.cons.inj htext).1 hback
  | case5 => exact absurd (List.cons.inj htext).1 hback
  | case6 =>
    obtain ⟨rfl, rfl⟩ := List.cons.inj htext
    rfl
  | case7 =>
    obtain ⟨rfl, rfl⟩ := List.cons.inj htext
    contradiction

theorem decodeChars_of_stringchar {s : List Char} (h : ∀ c ∈ s, stringchar c = true) :
    decodeChars s = some (octets s) := by
  induction s with
  | nil => rfl
  | cons c s ih =>
    rw [decodeChars_plain s (h c List.mem_cons_self), ih fun d hd => h d (List.mem_cons_of_mem _ hd)]
    rfl

/-- A string has at most as many octets as its text, and fewer with an
escape. -/
theorem length_decodeChars {s : List Char} {v : List UInt8} (h : decodeChars s = some v) :
    v.length ≤ (octets s).length ∧
      (v.length = (octets s).length → ∀ c ∈ s, stringchar c = true) := by
  have hpos := LdapFilter.length_utf8EncodeChar_pos
  fun_induction decodeChars s generalizing v with
  | case1 =>
    obtain rfl := Option.some.inj h
    exact ⟨Nat.le_refl _, fun _ c hc => by cases hc⟩
  | case2 a b s ha ih =>
    obtain ⟨w, hw, rfl⟩ := Option.map_eq_some_iff.mp h
    have hle := (ih hw).1
    have hback := hpos '\\'
    rw [octets_cons, octets_cons]
    simp only [List.length_append] at hle ⊢
    exact ⟨by omega, fun h => by omega⟩
  | case3 a b s ha ih =>
    simp only [Option.bind_eq_bind, Option.bind_eq_some_iff] at h
    obtain ⟨_, -, _, -, w, hw, hv⟩ := h
    obtain rfl := Option.some.inj hv
    have hle := (ih hw).1
    have h1 := hpos a
    have h2 := hpos b
    have hback := hpos '\\'
    simp only [octets_cons, List.length_append, List.length_cons]
    exact ⟨by omega, fun h => by omega⟩
  | case4 c hc =>
    obtain rfl := Option.some.inj h
    have hback := hpos '\\'
    simp only [octets_cons, List.length_append]
    exact ⟨by omega, fun h => by omega⟩
  | case5 => cases h
  | case6 c s _ _ hc ih =>
    obtain ⟨w, hw, rfl⟩ := Option.map_eq_some_iff.mp h
    obtain ⟨hle, hplain⟩ := ih hw
    simp only [octets_cons, List.length_append]
    refine ⟨by omega, fun heq d hd => ?_⟩
    rcases List.mem_cons.mp hd with rfl | hd
    · exact hc
    · exact hplain (by omega) d hd
  | case7 => cases h

/-! ### Commas -/

theorem ofNat_ne_comma {b : ℕ} (hb : b < 256) (hne : b ≠ 44) : (44 : UInt8) ≠ UInt8.ofNat b := by
  intro h
  have h := congrArg UInt8.toNat h
  rw [UInt8.toNat_ofNat', Nat.mod_eq_of_lt hb] at h
  exact hne h.symm

/-- The octet of the comma occurs in the encoding of the comma only. -/
theorem count_utf8EncodeChar (c : Char) :
    (String.utf8EncodeChar c).count 44 = if c = ',' then 1 else 0 := by
  by_cases hc : c = ','
  · subst hc
    rfl
  · rw [if_neg hc, List.count_eq_zero]
    have hne : c.val.toNat ≠ 44 := fun h => hc (Char.ext (UInt32.toNat_inj.mp h))
    unfold String.utf8EncodeChar
    generalize c.val.toNat = v at hne
    simp only
    split
    · simpa using ofNat_ne_comma (by omega) hne
    · split
      · simp only [List.mem_cons, List.not_mem_nil, or_false, not_or]
        exact ⟨ofNat_ne_comma (by omega) (by omega), ofNat_ne_comma (by omega) (by omega)⟩
      · split
        · simp only [List.mem_cons, List.not_mem_nil, or_false, not_or]
          exact ⟨ofNat_ne_comma (by omega) (by omega), ofNat_ne_comma (by omega) (by omega),
            ofNat_ne_comma (by omega) (by omega)⟩
        · simp only [List.mem_cons, List.not_mem_nil, or_false, not_or]
          exact ⟨ofNat_ne_comma (by omega) (by omega), ofNat_ne_comma (by omega) (by omega),
            ofNat_ne_comma (by omega) (by omega), ofNat_ne_comma (by omega) (by omega)⟩

theorem count_octets (s : List Char) : (octets s).count 44 = s.count ',' := by
  induction s with
  | nil => rfl
  | cons c s ih =>
    rw [octets_cons, List.count_append, count_utf8EncodeChar, ih, List.count_cons]
    by_cases hc : c = ','
    · simp [hc, Nat.add_comm]
    · simp [hc]

/-- A comma of the text is a comma of the string. -/
theorem count_decodeChars {s : List Char} {v : List UInt8} (h : decodeChars s = some v) :
    s.count ',' ≤ v.count 44 := by
  have hhex : ∀ {c : Char} {n : ℕ}, hexValue c = some n → c ≠ ',' := by
    rintro c n hn rfl
    cases hn
  fun_induction decodeChars s generalizing v with
  | case1 => exact Nat.zero_le _
  | case2 a b s ha ih =>
    obtain ⟨w, hw, rfl⟩ := Option.map_eq_some_iff.mp h
    have := ih hw
    rw [List.count_append, count_utf8EncodeChar, List.count_cons_of_ne (by decide), List.count_cons]
    by_cases hc : a = ','
    · simp only [hc, beq_self_eq_true, if_true]
      omega
    · simp only [hc, beq_iff_eq, if_false]
      omega
  | case3 a b s ha ih =>
    simp only [Option.bind_eq_bind, Option.bind_eq_some_iff] at h
    obtain ⟨_, hna, _, hnb, w, hw, hv⟩ := h
    obtain rfl := Option.some.inj hv
    rw [List.count_cons_of_ne (by decide), List.count_cons_of_ne (hhex hna),
      List.count_cons_of_ne (hhex hnb)]
    exact Nat.le_trans (ih hw) List.count_le_count_cons
  | case4 c hc =>
    obtain rfl := Option.some.inj h
    rw [count_utf8EncodeChar, List.count_cons_of_ne (by decide), List.count_cons]
    simp
  | case5 => cases h
  | case6 c s _ _ hc ih =>
    obtain ⟨w, hw, rfl⟩ := Option.map_eq_some_iff.mp h
    have hne : c ≠ ',' := by
      rintro rfl
      exact absurd hc (by decide)
    rw [List.count_cons_of_ne hne, List.count_append]
    exact Nat.le_trans (ih hw) (Nat.le_add_left _ _)
  | case7 => cases h

/-! ### Texts that stand for themselves -/

theorem trailingSpace_of_stringchar {s : List Char} (h : ∀ c ∈ s, stringchar c = true) :
    trailingSpace s = true ↔ s.getLast? = some ' ' := by
  fun_induction trailingSpace s with
  | case1 => simp
  | case2 c s => exact absurd (h '\\' List.mem_cons_self) (by decide)
  | case3 c => simp
  | case4 c s _ hne ih =>
    rw [ih fun d hd => h d (List.mem_cons_of_mem _ hd)]
    cases s with
    | nil => exact (hne rfl).elim
    | cons d s => rw [List.getLast?_cons_cons]

theorem parseValue_eq_string {s : List Char} {v : List UInt8} :
    parseValue s = some (.string v) ↔ s.head? ≠ some '#' ∧ decodeString s = some v := by
  unfold parseValue
  split
  · simp
  · rename_i t _
    simp
  · rename_i hne hne'
    have hhead : s.head? ≠ some '#' := by
      intro h
      obtain ⟨t, rfl⟩ := List.head?_eq_some_iff.mp h
      exact hne' t rfl
    simp [hhead]

/-- **A text stands for itself exactly if it is plain.** -/
theorem parseValue_self (s : List Char) :
    parseValue s = some (.string (octets s)) ↔ Plain s := by
  rw [parseValue_eq_string, decodeString]
  constructor
  · rintro ⟨hsharp, h⟩
    split at h
    · cases h
    · rename_i hspace
      have hchars := (length_decodeChars h).2 rfl
      refine ⟨hchars, fun hs => hspace (.inl hs), hsharp, fun hs => hspace (.inr ?_)⟩
      exact (trailingSpace_of_stringchar hchars).mpr hs
  · rintro ⟨hchars, hspace, hsharp, hlast⟩
    refine ⟨hsharp, ?_⟩
    rw [if_neg, decodeChars_of_stringchar hchars]
    rintro (h | h)
    · exact hspace h
    · exact hlast ((trailingSpace_of_stringchar hchars).mp h)

theorem decodeChars_of_parseValue {s : List Char} {v : List UInt8}
    (h : parseValue s = some (.string v)) : decodeChars s = some v := by
  obtain ⟨-, h⟩ := parseValue_eq_string.mp h
  unfold decodeString at h
  split at h
  · cases h
  · exact h

/-- **A value ends where its text ends.** If the front of `u`, of `u` and a
comma with more behind it, stands for `u`, that front is `u`. -/
theorem value_of_text {u s p r : List Char} (hs : s = [] ∨ ∃ d, s = ',' :: d)
    (hsplit : p ++ r = u ++ s) (h : decodeChars p = some (octets u)) : p = u := by
  rcases List.append_eq_append_iff.mp hsplit with ⟨x, rfl, -⟩ | ⟨x, rfl, hx⟩
  · -- a shorter front has too few octets
    have hle := (length_decodeChars h).1
    rw [show octets (p ++ x) = octets p ++ octets x from List.flatMap_append,
      List.length_append] at hle
    cases x with
    | nil => rw [List.append_nil]
    | cons c x =>
      have hpos := LdapFilter.length_utf8EncodeChar_pos c
      rw [octets_cons, List.length_append] at hle
      omega
  · -- a longer front holds the comma, which is not in the value
    cases x with
    | nil => rw [List.append_nil]
    | cons c x =>
      have hc : c = ',' := by
        rcases hs with rfl | ⟨d, rfl⟩
        · cases hx
        · exact (List.cons.inj hx).1.symm
      have hle := count_decodeChars h
      rw [count_octets, hc, List.count_append, List.count_cons_self] at hle
      omega

/-! ### What stands between separators -/

theorem splitUnescaped_ne_nil (sep : Char) (s : List Char) : splitUnescaped sep s ≠ [] := by
  fun_induction splitUnescaped sep s with
  | case1 => exact List.cons_ne_nil _ _
  | case2 c s ih => simpa using ih
  | case3 s => exact List.cons_ne_nil _ _
  | case4 c s _ hc ih => simpa using ih

theorem modifyHead_eq_cons {f : List Char → List Char} {l : List (List Char)} {w : List Char}
    {ws : List (List Char)} (h : l.modifyHead f = w :: ws) : ∃ v, l = v :: ws ∧ w = f v := by
  cases l with
  | nil => cases h
  | cons v l =>
    obtain ⟨rfl, rfl⟩ := List.cons.inj h
    exact ⟨v, rfl, rfl⟩

/-- The first part is the text up to a separator, and the rest are the parts
of what follows it; or there is no separator. -/
theorem splitUnescaped_cases {sep : Char} {s w : List Char} {ws : List (List Char)}
    (h : splitUnescaped sep s = w :: ws) :
    s = w ∧ ws = [] ∨ ∃ t, s = w ++ sep :: t ∧ splitUnescaped sep t = ws := by
  fun_induction splitUnescaped sep s generalizing w with
  | case1 =>
    obtain ⟨rfl, rfl⟩ := List.cons.inj h
    exact .inl ⟨rfl, rfl⟩
  | case2 c s ih =>
    obtain ⟨v, hv, rfl⟩ := modifyHead_eq_cons h
    rcases ih hv with ⟨rfl, rfl⟩ | ⟨t, rfl, ht⟩
    · exact .inl ⟨rfl, rfl⟩
    · exact .inr ⟨t, rfl, ht⟩
  | case3 s =>
    obtain ⟨rfl, rfl⟩ := List.cons.inj h
    exact .inr ⟨s, rfl, rfl⟩
  | case4 c s _ hc ih =>
    obtain ⟨v, hv, rfl⟩ := modifyHead_eq_cons h
    rcases ih hv with ⟨rfl, rfl⟩ | ⟨t, rfl, ht⟩
    · exact .inl ⟨rfl, rfl⟩
    · exact .inr ⟨t, rfl, ht⟩

/-- Text in front that holds neither a separator nor a backslash is in the
first part. -/
theorem splitUnescaped_append {sep : Char} {p s w : List Char} {ws : List (List Char)}
    (hp : ∀ c ∈ p, c ≠ sep ∧ c ≠ '\\') (h : splitUnescaped sep s = w :: ws) :
    splitUnescaped sep (p ++ s) = (p ++ w) :: ws := by
  induction p with
  | nil => exact h
  | cons c p ih =>
    obtain ⟨hne, hback⟩ := hp c List.mem_cons_self
    rw [List.cons_append, splitUnescaped, if_neg hne,
      ih fun d hd => hp d (List.mem_cons_of_mem _ hd)]
    · rfl
    · rintro d t rfl -
      exact hback rfl


theorem splitUnescaped_sep {sep : Char} (hsep : sep ≠ '\\') (s : List Char) :
    splitUnescaped sep (sep :: s) = [] :: splitUnescaped sep s := by
  rw [splitUnescaped, if_pos rfl]
  rintro d t rfl -
  exact hsep rfl

/-- A text with no separator and no backslash is one part. -/
theorem splitUnescaped_single {sep : Char} {p : List Char} (hp : ∀ c ∈ p, c ≠ sep ∧ c ≠ '\\') :
    splitUnescaped sep p = [p] := by
  have h := splitUnescaped_append (s := []) hp rfl
  rwa [List.append_nil] at h

/-! ### Relative names -/

theorem oid_chars {type : List Char} (h : oid type = true) :
    ∀ c ∈ type, c ≠ '=' ∧ c ≠ ',' ∧ c ≠ '+' ∧ c ≠ '\\' := by
  intro c hc
  have hattr := LdapFilter.oid_attrchar h c hc
  refine ⟨?_, ?_, ?_, ?_⟩
  all_goals
    rintro rfl
    exact absurd hattr (by decide)

/-- The type and the equals sign are in the first part. -/
theorem splitUnescaped_type {type s w : List Char} {ws : List (List Char)} {sep : Char}
    (hsep : sep = ',' ∨ sep = '+') (ht : oid type = true) (h : splitUnescaped sep s = w :: ws) :
    splitUnescaped sep (type ++ '=' :: s) = (type ++ '=' :: w) :: ws := by
  rw [List.append_cons, List.append_cons type '=' w]
  refine splitUnescaped_append (fun c hc => ?_) h
  rcases List.mem_append.mp hc with hc | hc
  · obtain ⟨-, hcomma, hplus, hback⟩ := oid_chars ht c hc
    rcases hsep with rfl | rfl
    · exact ⟨hcomma, hback⟩
    · exact ⟨hplus, hback⟩
  · obtain rfl := List.mem_singleton.mp hc
    rcases hsep with rfl | rfl <;> decide

theorem parseAva_type {type s : List Char} (ht : oid type = true) :
    parseAva (type ++ '=' :: s) = (parseValue s).map (⟨type, ·⟩) := by
  have hne : ∀ c ∈ type, (c != '=') = true := fun c hc => by simpa using (oid_chars ht c hc).1
  have htake : (type ++ '=' :: s).takeWhile (· != '=') = type := by
    rw [List.takeWhile_append_of_pos hne, List.takeWhile_cons_of_neg (by decide), List.append_nil]
  have hdrop : (type ++ '=' :: s).dropWhile (· != '=') = '=' :: s := by
    rw [List.dropWhile_append_of_pos hne, List.dropWhile_cons_of_neg (by decide)]
  unfold parseAva
  simp only [htake, hdrop, ht, if_true]

theorem mapM_cons_eq_some {α β : Type} {f : α → Option β} {a : α} {l : List α} {bs : List β} :
    (a :: l).mapM f = some bs ↔ ∃ b cs, f a = some b ∧ l.mapM f = some cs ∧ bs = b :: cs := by
  rw [List.mapM_cons]
  simp only [Option.bind_eq_bind, Option.bind_eq_some_iff, Option.pure_def, Option.some.injEq]
  constructor
  · rintro ⟨b, hb, cs, hcs, rfl⟩
    exact ⟨b, cs, hb, hcs, rfl⟩
  · rintro ⟨b, cs, hb, hcs, rfl⟩
    exact ⟨b, hb, cs, hcs, rfl⟩

/-- The relative name of one type and one value. -/
theorem parseRdn_type {type s : List Char} {value : Value} (ht : oid type = true) :
    parseRdn (type ++ '=' :: s) = some [⟨type, value⟩] ↔
      parseValue s = some value ∧ splitUnescaped '+' s = [s] := by
  obtain ⟨w, ws, hw⟩ := List.exists_cons_of_ne_nil (splitUnescaped_ne_nil '+' s)
  rw [parseRdn, splitUnescaped_type (.inr rfl) ht hw, mapM_cons_eq_some, parseAva_type ht, hw]
  constructor
  · rintro ⟨b, cs, hb, hcs, he⟩
    obtain ⟨rfl, rfl⟩ := List.cons.inj he
    obtain ⟨v, hv, hava⟩ := Option.map_eq_some_iff.mp hb
    obtain rfl := (Ava.mk.inj hava).2
    have hws : ws = [] := by
      cases ws with
      | nil => rfl
      | cons x ws =>
        obtain ⟨_, _, -, -, he⟩ := mapM_cons_eq_some.mp hcs
        cases he
    subst hws
    rcases splitUnescaped_cases hw with ⟨rfl, -⟩ | ⟨t, -, ht⟩
    · exact ⟨hv, rfl⟩
    · exact absurd ht (splitUnescaped_ne_nil '+' t)
  · rintro ⟨hv, he⟩
    obtain ⟨rfl, rfl⟩ := List.cons.inj he
    exact ⟨_, [], by rw [hv]; rfl, rfl, rfl⟩

theorem Plain.chars {u : List Char} (h : Plain u) : ∀ c ∈ u, c ≠ ',' ∧ c ≠ '+' ∧ c ≠ '\\' := by
  intro c hc
  have hchar := h.1 c hc
  refine ⟨?_, ?_, ?_⟩
  all_goals
    rintro rfl
    exact absurd hchar (by decide)

/-- **A name that begins with a text as its first value.** It has that value,
and what follows is the rest of the name, exactly if the text is plain and
something does follow the comma. -/
theorem parse_type {type u s : List Char} {rdns : Dn} (ht : oid type = true)
    (hs : s = [] ∨ ∃ d, s = ',' :: d) :
    parse (type ++ '=' :: (u ++ s)) = some ([⟨type, .string (octets u)⟩] :: rdns) ↔
      Plain u ∧ (s = [] ∧ rdns = [] ∨ ∃ d, s = ',' :: d ∧ d ≠ [] ∧ parse d = some rdns) := by
  obtain ⟨p, ws, hsplit⟩ := List.exists_cons_of_ne_nil (splitUnescaped_ne_nil ',' (u ++ s))
  have hparse : parse (type ++ '=' :: (u ++ s)) = some ([⟨type, .string (octets u)⟩] :: rdns) ↔
      (parseValue p = some (.string (octets u)) ∧ splitUnescaped '+' p = [p]) ∧
        ws.mapM parseRdn = some rdns := by
    rw [parse, if_neg (by simp), splitUnescaped_type (.inl rfl) ht hsplit, mapM_cons_eq_some,
      ← parseRdn_type ht]
    constructor
    · rintro ⟨b, cs, hb, hcs, he⟩
      obtain ⟨rfl, rfl⟩ := List.cons.inj he
      exact ⟨hb, hcs⟩
    · rintro ⟨hb, hcs⟩
      exact ⟨_, _, hb, hcs, rfl⟩
  rw [hparse]
  constructor
  · rintro ⟨⟨hvalue, -⟩, hrest⟩
    have hp : p = u := by
      have hchars := decodeChars_of_parseValue hvalue
      rcases splitUnescaped_cases hsplit with ⟨he, -⟩ | ⟨t, he, -⟩
      · exact value_of_text hs ((List.append_nil p).trans he.symm) hchars
      · exact value_of_text hs he.symm hchars
    subst hp
    refine ⟨(parseValue_self p).mp hvalue, ?_⟩
    rcases splitUnescaped_cases hsplit with ⟨he, rfl⟩ | ⟨t, he, ht⟩
    · rw [List.append_right_eq_self] at he
      exact .inl ⟨he, (Option.some.inj hrest).symm⟩
    · obtain rfl := List.append_cancel_left he
      have hne : t ≠ [] := by
        rintro rfl
        rw [← ht] at hrest
        cases hrest
      refine .inr ⟨t, rfl, hne, ?_⟩
      rw [parse, if_neg hne, ht]
      exact hrest
  · rintro ⟨hplain, hrest⟩
    have hself : parseValue u = some (.string (octets u)) := (parseValue_self u).mpr hplain
    have hplus : splitUnescaped '+' u = [u] :=
      splitUnescaped_single fun c hc => (hplain.chars c hc).2
    have hcomma : ∀ c ∈ u, c ≠ ',' ∧ c ≠ '\\' := fun c hc =>
      ⟨(hplain.chars c hc).1, (hplain.chars c hc).2.2⟩
    rcases hrest with ⟨rfl, rfl⟩ | ⟨d, rfl, hne, hd⟩
    · rw [List.append_nil, splitUnescaped_single hcomma] at hsplit
      obtain ⟨rfl, rfl⟩ := List.cons.inj hsplit
      exact ⟨⟨hself, hplus⟩, rfl⟩
    · rw [splitUnescaped_append hcomma (splitUnescaped_sep (by decide) d), List.append_nil] at hsplit
      obtain ⟨rfl, rfl⟩ := List.cons.inj hsplit
      rw [parse, if_neg hne] at hd
      exact ⟨⟨hself, hplus⟩, hd⟩

end LdapDn
