import Mathlib.Data.List.Infix

/-! # JSON values and their parser

The grammar is the one Python's `json` module reads: RFC 8259 values and the
three literals for non-finite floats. Numbers are abstract: `NumberSyntax` says how the
number type is written and read, `JsonNumber` that this is a round trip. An unpaired
surrogate escape, for which no character exists, is read as a character that the caller
gives, or it is refused. The parser is structural in a fuel argument; the main results are
that more fuel and more input never change a result (`parseValue_extends`,
`parseValue_delimited`), so that a text cut short never parses (`loadsWith_cut`). -/
namespace SchedulingUtil.Lib.Json

abbrev Text := List Char

inductive Value (N : Type) where
  | null
  | bool (b : Bool)
  | num (n : N)
  | str (s : Text)
  | arr (items : List (Value N))
  | obj (fields : List (Text × Value N))

/-- The last field of that name: a repeated key overrides the earlier ones. -/
def Value.get? {N : Type} : Value N → Text → Option (Value N)
  | .obj fields, key => (fields.reverse.find? fun f => f.1 == key).map Prod.snd
  | _, _ => none

theorem get?_of_forall {N : Type} {fields : List (Text × Value N)} {key : Text} {v : Value N}
    (hmem : (key, v) ∈ fields) (h : ∀ f ∈ fields, f.1 = key → f.2 = v) :
    (Value.obj fields).get? key = some v := by
  rw [Value.get?]
  cases hfind : fields.reverse.find? (fun f => f.1 == key) with
  | none =>
    have hnone := List.find?_eq_none.mp hfind (key, v) (List.mem_reverse.mpr hmem)
    simp at hnone
  | some f =>
    have hkey := List.find?_some hfind
    have hf := List.mem_reverse.mp (List.mem_of_find?_eq_some hfind)
    rw [Option.map_some, h f hf (by simpa using hkey)]

def isWs (c : Char) : Bool := c == ' ' || c == '\t' || c == '\n' || c == '\r'

def isNumChar (c : Char) : Bool :=
  c.isDigit || c == '-' || c == '+' || c == '.' || c == 'e' || c == 'E'

/-- How numbers are written and read. `constant` is the value, if there is one,
of the literals `NaN`, `Infinity` and `-Infinity`. -/
class NumberSyntax (N : Type) where
  render : N → Text
  read : Text → Option N
  constant : Text → Option N

/-- Numbers that are written as JSON has them and read back. -/
class JsonNumber (N : Type) extends NumberSyntax N where
  render_ne_nil : ∀ n, render n ≠ []
  render_numChar : ∀ n, ∀ c ∈ render n, isNumChar c = true
  read_render : ∀ n, read (render n) = some n
  read_nil : read [] = none
  read_minus : read ['-'] = none

/-! ## Strings -/

def hexVal (c : Char) : Option Nat :=
  if c.isDigit then some (c.toNat - 48)
  else if 'a' ≤ c ∧ c ≤ 'f' then some (c.toNat - 87)
  else if 'A' ≤ c ∧ c ≤ 'F' then some (c.toNat - 55)
  else none

def hex4 (a b c d : Char) : Option Nat := do
  return 4096 * (← hexVal a) + 256 * (← hexVal b) + 16 * (← hexVal c) + (← hexVal d)

/-- The character of a one-letter escape. -/
def shortEscape : Char → Option Char
  | '"' => some '"'
  | '\\' => some '\\'
  | '/' => some '/'
  | 'b' => some '\x08'
  | 'f' => some '\x0c'
  | 'n' => some '\n'
  | 'r' => some '\r'
  | 't' => some '\t'
  | _ => none

def isHigh (n : Nat) : Bool := 0xd800 ≤ n && n < 0xdc00
def isLow (n : Nat) : Bool := 0xdc00 ≤ n && n < 0xe000

/-- The four digits after `\u`. -/
def codeUnit : Text → Option (Nat × Text)
  | a :: b :: c :: d :: rest => (hex4 a b c d).map fun n => (n, rest)
  | _ => none

section
variable (unpaired : Option Char)

/-- What the high surrogate `n` stands for, with the low one that follows it or without.
Where a text ends right behind it, no string does. -/
def highSurrogate (n : Nat) : Text → Option (Char × Text)
  | [] | ['\\'] => none
  | '\\' :: 'u' :: cs => do
    let (m, rest) ← codeUnit cs
    if isLow m then return (Char.ofNat (0x10000 + 0x400 * (n - 0xd800) + (m - 0xdc00)), rest)
    else unpaired.map fun c => (c, '\\' :: 'u' :: cs)
  | cs => unpaired.map fun c => (c, cs)

/-- The character a `\u` escape stands for. -/
def unicodeEscape (cs : Text) : Option (Char × Text) := do
  let (n, rest) ← codeUnit cs
  if isHigh n then highSurrogate unpaired n rest
  else if isLow n then unpaired.map fun c => (c, rest)
  else return (Char.ofNat n, rest)

/-- An escape after its backslash. -/
def escape : Text → Option (Char × Text)
  | [] => none
  | 'u' :: rest => unicodeEscape unpaired rest
  | c :: rest => (shortEscape c).map fun x => (x, rest)

/-- One character of a string body, escapes resolved. -/
def stringChar : Text → Option (Char × Text)
  | [] => none
  | '"' :: _ => none
  | '\\' :: rest => escape unpaired rest
  | c :: rest => if c.toNat < 0x20 then none else some (c, rest)

/-- The rest of a string after its opening quote. -/
def parseString : Nat → Text → Option (Text × Text)
  | 0, _ => none
  | _ + 1, '"' :: rest => some ([], rest)
  | fuel + 1, cs => do
    let (c, rest) ← stringChar unpaired cs
    let (s, rest) ← parseString fuel rest
    return (c :: s, rest)

end

/-! ## Values -/

def skipWs (cs : Text) : Text := cs.dropWhile isWs

def keyword (w cs : Text) : Option Text := if w <+: cs then some (cs.drop w.length) else none

/-- Items parsed by `p`, separated by commas, up to the closing bracket. -/
def sepBy {α : Type} (p : Text → Option (α × Text)) (close : Char) :
    Nat → Text → Option (List α × Text)
  | 0, _ => none
  | fuel + 1, cs => do
    let (v, rest) ← p cs
    match skipWs rest with
    | [] => none
    | c :: rest =>
      if c = close then return ([v], rest)
      else if c = ',' then
        let (vs, rest) ← sepBy p close fuel rest
        return (v :: vs, rest)
      else none

/-- A bracketed list after its opening bracket. -/
def bracketed {α : Type} (p : Text → Option (α × Text)) (close : Char) (fuel : Nat) (cs : Text) :
    Option (List α × Text) :=
  match skipWs cs with
  | [] => none
  | c :: rest => if c = close then some ([], rest) else sepBy p close fuel (c :: rest)

/-- A member `"key": value` of an object. -/
def member {α : Type} (unpaired : Option Char) (p : Text → Option (α × Text)) (fuel : Nat)
    (cs : Text) : Option ((Text × α) × Text) :=
  match skipWs cs with
  | '"' :: rest => do
    let (k, rest) ← parseString unpaired fuel rest
    match skipWs rest with
    | ':' :: rest => do
      let (v, rest) ← p rest
      return ((k, v), rest)
    | _ => none
  | _ => none

section
variable {N : Type} [NumberSyntax N]

def literal (w : Text) (v : Option (Value N)) (cs : Text) : Option (Value N × Text) := do
  let rest ← keyword w cs
  let v ← v
  return (v, rest)

def parseNumber (cs : Text) : Option (Value N × Text) := do
  let n ← NumberSyntax.read (cs.takeWhile isNumChar)
  return (.num n, cs.dropWhile isNumChar)

def constant (w cs : Text) : Option (Value N × Text) :=
  literal w ((NumberSyntax.constant w).map .num) cs

def nan : Text := ['N', 'a', 'N']
def infinity : Text := ['I', 'n', 'f', 'i', 'n', 'i', 't', 'y']

/-- Words and numbers, told apart by how they start. -/
def parseAtom : Text → Option (Value N × Text)
  | 'n' :: cs => literal ['n', 'u', 'l', 'l'] (some .null) ('n' :: cs)
  | 't' :: cs => literal ['t', 'r', 'u', 'e'] (some (.bool true)) ('t' :: cs)
  | 'f' :: cs => literal ['f', 'a', 'l', 's', 'e'] (some (.bool false)) ('f' :: cs)
  | 'N' :: cs => constant nan ('N' :: cs)
  | 'I' :: cs => constant infinity ('I' :: cs)
  | '-' :: 'I' :: cs => constant ('-' :: infinity) ('-' :: 'I' :: cs)
  | cs => parseNumber cs

variable (unpaired : Option Char)

/-- One value, after white space. -/
def parseValue : Nat → Text → Option (Value N × Text)
  | 0, _ => none
  | fuel + 1, cs =>
    match skipWs cs with
    | '"' :: rest => (parseString unpaired fuel rest).map fun r => (.str r.1, r.2)
    | '[' :: rest => (bracketed (parseValue fuel) ']' fuel rest).map fun r => (.arr r.1, r.2)
    | '{' :: rest =>
      (bracketed (member unpaired (parseValue fuel) fuel) '}' fuel rest).map fun r =>
        (.obj r.1, r.2)
    | rest => parseAtom rest

/-- A whole text: one value, with white space around it. -/
def loadsWith (cs : Text) : Option (Value N) :=
  match parseValue unpaired (cs.length + 1) cs with
  | some (v, rest) => if skipWs rest = [] then some v else none
  | none => none

/-- A text whose strings are all Unicode text. -/
def loads (cs : Text) : Option (Value N) := loadsWith none cs

/-! ## More input, more fuel -/

/-- `p'` reads what `p` reads, also when more text follows. A result that used up
the whole text is kept only without more text: a number could go on. -/
def Extends {α : Type} (p p' : Text → Option (α × Text)) : Prop :=
  ∀ cs v r q, p cs = some (v, r) → r ≠ [] ∨ q = [] → p' (cs ++ q) = some (v, r ++ q)

theorem skipWs_append {cs q : Text} {c : Char} {rest : Text} (h : skipWs cs = c :: rest) :
    skipWs (cs ++ q) = c :: (rest ++ q) := by
  induction cs with
  | nil => cases h
  | cons d cs ih =>
    unfold skipWs at h ih ⊢
    by_cases hd : isWs d = true
    · rw [List.dropWhile_cons_of_pos hd] at h
      rw [List.cons_append, List.dropWhile_cons_of_pos hd]
      exact ih h
    · rw [List.dropWhile_cons_of_neg hd] at h
      rw [List.cons_append, List.dropWhile_cons_of_neg hd]
      cases h
      rfl

theorem ne_nil_of_skipWs {cs rest : Text} {c : Char} (h : skipWs cs = c :: rest) : cs ≠ [] := by
  rintro rfl
  cases h

theorem codeUnit_extends {cs r : Text} {n : Nat} (q : Text) (h : codeUnit cs = some (n, r)) :
    codeUnit (cs ++ q) = some (n, r ++ q) := by
  revert h
  fun_cases codeUnit cs with
  | case1 a b c d rest =>
    intro h
    obtain ⟨m, hm, he⟩ := Option.map_eq_some_iff.mp h
    cases he
    simp [codeUnit, hm]
  | case2 => intro h; cases h

variable {unpaired : Option Char}

theorem highSurrogate_extends {n : Nat} {cs r : Text} {c : Char} (q : Text)
    (h : highSurrogate unpaired n cs = some (c, r)) :
    highSurrogate unpaired n (cs ++ q) = some (c, r ++ q) := by
  revert h
  fun_cases highSurrogate unpaired n cs with
  | case1 | case2 => intro h; cases h
  | case3 cs =>
    intro h
    simp only [Option.bind_eq_bind, Option.pure_def] at h
    obtain ⟨⟨m, rest⟩, hm, h⟩ := Option.bind_eq_some_iff.mp h
    rw [List.cons_append, List.cons_append, highSurrogate, codeUnit_extends q hm]
    simp only [Option.bind_eq_bind, Option.bind_some, Option.pure_def]
    split at h <;> simp_all
    obtain ⟨d, rfl, rfl, rfl⟩ := h
    simp
  | case4 cs hnil hlone hunit =>
    intro h
    obtain ⟨d, hd, he⟩ := Option.map_eq_some_iff.mp h
    cases he
    have hcut : ∀ t, cs ++ q = '\\' :: t → ∃ x u, cs = '\\' :: x :: u ∧ x ≠ 'u' := by
      intro t ht
      match cs with
      | [] => exact (hnil rfl).elim
      | [x] =>
        cases ht
        exact (hlone rfl).elim
      | x :: y :: u =>
        cases ht
        exact ⟨y, u, rfl, fun hy => hunit u (by rw [hy])⟩
    rw [highSurrogate.eq_4, hd, Option.map_some]
    · exact fun he => hnil (List.append_eq_nil_iff.mp he).1
    · intro he
      obtain ⟨x, u, rfl, -⟩ := hcut _ he
      cases he
    · intro t he
      obtain ⟨x, u, rfl, hx⟩ := hcut _ he
      cases he
      exact hx rfl

theorem unicodeEscape_extends {cs r : Text} {c : Char} (q : Text)
    (h : unicodeEscape unpaired cs = some (c, r)) :
    unicodeEscape unpaired (cs ++ q) = some (c, r ++ q) := by
  simp only [unicodeEscape, Option.bind_eq_bind, Option.pure_def] at h ⊢
  obtain ⟨⟨n, rest⟩, hn, h⟩ := Option.bind_eq_some_iff.mp h
  rw [codeUnit_extends q hn, Option.bind_some]
  split at h
  · rename_i hhigh
    rw [if_pos hhigh]
    exact highSurrogate_extends q h
  · rename_i hhigh
    rw [if_neg hhigh]
    split at h <;> simp_all

theorem escape_extends {cs r : Text} {c : Char} (q : Text)
    (h : escape unpaired cs = some (c, r)) : escape unpaired (cs ++ q) = some (c, r ++ q) := by
  revert h
  fun_cases escape unpaired cs with
  | case1 => intro h; cases h
  | case2 rest => exact unicodeEscape_extends q
  | case3 d rest hd =>
    intro h
    obtain ⟨x, hx, he⟩ := Option.map_eq_some_iff.mp h
    cases he
    rw [List.cons_append, escape.eq_3 _ _ _ hd, hx, Option.map_some]

theorem stringChar_extends {cs r : Text} {c : Char} (q : Text)
    (h : stringChar unpaired cs = some (c, r)) :
    stringChar unpaired (cs ++ q) = some (c, r ++ q) := by
  revert h
  fun_cases stringChar unpaired cs with
  | case1 | case2 | case4 => intro h; cases h
  | case3 rest => exact escape_extends q
  | case5 d rest hq hb hc =>
    intro h
    cases h
    rw [List.cons_append, stringChar.eq_4 _ _ _ hq hb, if_neg hc]

theorem parseString_cons {f : Nat} {d : Char} {cs : Text} (hd : d ≠ '"') :
    parseString unpaired (f + 1) (d :: cs) = (stringChar unpaired (d :: cs)).bind fun p =>
      (parseString unpaired f p.2).map fun t => (p.1 :: t.1, t.2) := by
  rw [parseString.eq_3 _ _ _ (fun _ h => hd (List.cons.inj h).1)]
  cases stringChar unpaired (d :: cs) with
  | none => rfl
  | some p => cases h : parseString unpaired f p.2 <;> simp [h]

theorem parseString_extends : ∀ {f f' : Nat} {cs s r : Text} (q : Text), f ≤ f' →
    parseString unpaired f cs = some (s, r) → parseString unpaired f' (cs ++ q) = some (s, r ++ q)
  | 0, _, _, _, _, _, _, h => by simp [parseString] at h
  | f + 1, 0, _, _, _, _, hf, _ => by omega
  | f + 1, f' + 1, [], s, r, q, _, h => by simp [parseString, stringChar] at h
  | f + 1, f' + 1, d :: cs, s, r, q, hf, h => by
    by_cases hd : d = '"'
    · subst hd
      cases h
      rfl
    · rw [parseString_cons hd] at h
      obtain ⟨⟨c, rest⟩, hc, h⟩ := Option.bind_eq_some_iff.mp h
      obtain ⟨⟨t, r'⟩, ht, he⟩ := Option.map_eq_some_iff.mp h
      cases he
      rw [List.cons_append, parseString_cons hd, ← List.cons_append, stringChar_extends q hc,
        Option.bind_some, parseString_extends q (Nat.le_of_succ_le_succ hf) ht, Option.map_some]

theorem sepBy_extends {α : Type} {p p' : Text → Option (α × Text)} (hp : Extends p p')
    (close : Char) : ∀ {f f' : Nat} {cs : Text} {vs : List α} {r : Text} (q : Text), f ≤ f' →
      sepBy p close f cs = some (vs, r) → sepBy p' close f' (cs ++ q) = some (vs, r ++ q)
  | 0, _, _, _, _, _, _, h => by simp [sepBy] at h
  | f + 1, 0, _, _, _, _, hf, _ => by omega
  | f + 1, f' + 1, cs, vs, r, q, hf, h => by
    simp only [sepBy, Option.bind_eq_bind, Option.pure_def] at h ⊢
    obtain ⟨⟨v, rest⟩, hv, h⟩ := Option.bind_eq_some_iff.mp h
    cases hs : skipWs rest with
    | nil => simp [hs] at h
    | cons c rest' =>
      rw [hp cs v rest q hv (.inl (ne_nil_of_skipWs hs))]
      simp only [hs, Option.bind_some, skipWs_append hs] at h ⊢
      split at h
      · simp_all
      · rename_i hclose
        rw [if_neg hclose]
        split at h
        · rename_i hcomma
          rw [if_pos hcomma]
          obtain ⟨⟨vs', r'⟩, hvs, h⟩ := Option.bind_eq_some_iff.mp h
          rw [sepBy_extends hp close q (Nat.le_of_succ_le_succ hf) hvs]
          simp_all
        · cases h

theorem bracketed_extends {α : Type} {p p' : Text → Option (α × Text)} (hp : Extends p p')
    {close : Char} {f f' : Nat} {cs r : Text} {vs : List α} (q : Text) (hf : f ≤ f')
    (h : bracketed p close f cs = some (vs, r)) :
    bracketed p' close f' (cs ++ q) = some (vs, r ++ q) := by
  unfold bracketed at h ⊢
  cases hs : skipWs cs with
  | nil => simp [hs] at h
  | cons c rest =>
    simp only [hs, skipWs_append hs] at h ⊢
    split at h
    · simp_all
    · rename_i hc
      rw [if_neg hc, ← List.cons_append]
      exact sepBy_extends hp close q hf h

theorem member_extends {α : Type} {p p' : Text → Option (α × Text)} (hp : Extends p p')
    {f f' : Nat} (hf : f ≤ f') : Extends (member unpaired p f) (member unpaired p' f') := by
  intro cs v r q h hr
  unfold member at h ⊢
  split at h
  · rename_i rest hs
    simp only [skipWs_append hs, Option.bind_eq_bind, Option.pure_def] at h ⊢
    obtain ⟨⟨k, rest'⟩, hk, h⟩ := Option.bind_eq_some_iff.mp h
    rw [parseString_extends q hf hk, Option.bind_some]
    split at h
    · rename_i rest'' hs'
      simp only [skipWs_append hs']
      obtain ⟨⟨w, r'⟩, hw, he⟩ := Option.bind_eq_some_iff.mp h
      cases he
      rw [hp _ _ _ q hw hr, Option.bind_some]
    · cases h
  · cases h

omit [NumberSyntax N] in
theorem literal_extends {w : Text} {v : Option (Value N)} :
    Extends (literal w v) (literal w v) := by
  intro cs x r q h _
  simp only [literal, keyword, Option.bind_eq_bind, Option.pure_def] at h ⊢
  split at h
  · rename_i hp
    rw [if_pos (hp.trans (List.prefix_append cs q))]
    obtain ⟨y, hy, he⟩ := Option.bind_eq_some_iff.mp h
    obtain ⟨z, hz, he⟩ := Option.bind_eq_some_iff.mp he
    cases hy
    cases he
    simp [hz, List.drop_append_of_le_length hp.length_le]
  · cases h

/-- The run of number characters ends inside a text that has something left. -/
theorem takeWhile_isNumChar_append {cs q : Text} (h : cs.dropWhile isNumChar ≠ []) :
    (cs ++ q).takeWhile isNumChar = cs.takeWhile isNumChar := by
  have hlen := congrArg List.length (List.takeWhile_append_dropWhile (p := isNumChar) (l := cs))
  have hpos := List.length_pos_iff.mpr h
  rw [List.length_append] at hlen
  rw [List.takeWhile_append, if_neg (by omega)]

theorem parseNumber_extends : Extends (parseNumber (N := N)) parseNumber := by
  intro cs x r q h hr
  simp only [parseNumber, Option.bind_eq_bind, Option.pure_def] at h ⊢
  obtain ⟨n, hn, he⟩ := Option.bind_eq_some_iff.mp h
  cases he
  rcases hr with hr | rfl
  · rw [takeWhile_isNumChar_append hr, hn, Option.bind_some, List.dropWhile_append,
      if_neg (by simpa using hr)]
  · simp [hn]

theorem parseNumber_rest {cs r : Text} {x : Value N} (h : parseNumber cs = some (x, r)) :
    r = cs.dropWhile isNumChar := by
  simp only [parseNumber, Option.bind_eq_bind, Option.pure_def] at h
  obtain ⟨n, _, he⟩ := Option.bind_eq_some_iff.mp h
  cases he
  rfl

theorem not_starts_append {cs q : Text} {c : Char} (hne : cs ≠ [])
    (h : ∀ t, cs = c :: t → False) : ∀ t, cs ++ q = c :: t → False := by
  intro t he
  obtain ⟨d, cs', rfl⟩ := List.exists_cons_of_ne_nil hne
  cases he
  exact h cs' rfl

/-- The words are told from the numbers by what is already there: a lone `-`
is the only start that more input could turn, and it leaves nothing over. -/
theorem parseAtom_extends : Extends (parseAtom (N := N)) parseAtom := by
  intro cs x r q h hr
  rcases hr with hr | rfl
  · revert h
    fun_cases parseAtom (N := N) cs with
    | case1 cs | case2 cs | case3 cs | case4 cs | case5 cs | case6 cs =>
      exact fun h => literal_extends _ _ _ q h (.inl hr)
    | case7 cs hn ht hf hN hI hm =>
      intro h
      have hrest := parseNumber_rest h
      have hne : cs ≠ [] := by
        rintro rfl
        exact hr hrest
      have hminus : ∀ t, cs ++ q = '-' :: 'I' :: t → False := by
        intro t he
        match cs, hm, hrest with
        | [], _, hrest => exact hr hrest
        | [c], _, hrest =>
          obtain ⟨rfl, -⟩ := List.cons.inj he
          exact hr hrest
        | c :: d :: cs, hm, _ =>
          cases he
          exact hm cs rfl
      rw [parseAtom.eq_7 _ (not_starts_append hne hn) (not_starts_append hne ht)
        (not_starts_append hne hf) (not_starts_append hne hN) (not_starts_append hne hI) hminus]
      exact parseNumber_extends _ _ _ q h (.inl hr)
  · simpa using h

/-- Whether the text starts with a string, an array or an object, whose end the
text itself marks. -/
def Delimited (cs : Text) : Prop := ∃ c rest, skipWs cs = c :: rest ∧ (c = '"' ∨ c = '[' ∨ c = '{')

theorem parseValue_atom {f : Nat} {cs : Text} (h : ¬ Delimited cs) :
    parseValue (N := N) unpaired (f + 1) cs = parseAtom (skipWs cs) := by
  rw [parseValue]
  split
  · rename_i rest hs
    exact absurd ⟨_, rest, hs, by simp⟩ h
  · rename_i rest hs
    exact absurd ⟨_, rest, hs, by simp⟩ h
  · rename_i rest hs
    exact absurd ⟨_, rest, hs, by simp⟩ h
  · rfl

theorem parseValue_delimited_succ {f f' : Nat} {cs r : Text} {x : Value N} (q : Text) (hf : f ≤ f')
    (ih : Extends (parseValue (N := N) unpaired f) (parseValue unpaired f')) (hd : Delimited cs)
    (h : parseValue unpaired (f + 1) cs = some (x, r)) :
    parseValue unpaired (f' + 1) (cs ++ q) = some (x, r ++ q) := by
  obtain ⟨c, rest, hs, hc⟩ := hd
  rw [parseValue, hs] at h
  rw [parseValue, skipWs_append hs]
  rcases hc with rfl | rfl | rfl
  · obtain ⟨⟨s, r'⟩, hp, he⟩ := Option.map_eq_some_iff.mp h
    cases he
    simp [parseString_extends q hf hp]
  · obtain ⟨⟨vs, r'⟩, hp, he⟩ := Option.map_eq_some_iff.mp h
    cases he
    simp [bracketed_extends ih q hf hp]
  · obtain ⟨⟨vs, r'⟩, hp, he⟩ := Option.map_eq_some_iff.mp h
    cases he
    simp [bracketed_extends (member_extends ih hf) q hf hp]

theorem parseValue_extends : ∀ {f f' : Nat}, f ≤ f' →
    Extends (parseValue (N := N) unpaired f) (parseValue unpaired f')
  | 0, _, _ => fun _ _ _ _ h _ => by simp [parseValue] at h
  | f + 1, 0, hf => by omega
  | f + 1, f' + 1, hf => by
    intro cs x r q h hr
    have hf := Nat.le_of_succ_le_succ hf
    by_cases hd : Delimited cs
    · exact parseValue_delimited_succ q hf (parseValue_extends hf) hd h
    · rw [parseValue_atom hd] at h
      cases hs : skipWs cs with
      | nil =>
        rw [hs] at h
        obtain rfl := parseNumber_rest h
        obtain rfl := hr.resolve_left (by simp)
        simpa [parseValue_atom hd, hs] using h
      | cons c rest =>
        have hd' : ¬ Delimited (cs ++ q) := by
          intro hdel
          obtain ⟨c', rest', hs', hc⟩ := hdel
          rw [skipWs_append hs] at hs'
          cases hs'
          exact hd ⟨c, rest, hs, hc⟩
        rw [hs] at h
        rw [parseValue_atom hd', skipWs_append hs]
        exact parseAtom_extends _ _ _ q h hr

/-- A delimited value is read the same way whatever follows it. -/
theorem parseValue_delimited {f f' : Nat} {cs r : Text} {x : Value N} (q : Text) (hf : f ≤ f')
    (hd : Delimited cs) (h : parseValue unpaired f cs = some (x, r)) :
    parseValue unpaired f' (cs ++ q) = some (x, r ++ q) := by
  match f, f', hf, h with
  | 0, _, _, h => simp [parseValue] at h
  | f + 1, f' + 1, hf, h =>
    have hf := Nat.le_of_succ_le_succ hf
    exact parseValue_delimited_succ q hf (parseValue_extends hf) hd h

end

/-! ## A text cut short -/

variable {N : Type} [JsonNumber N] {unpaired : Option Char}

theorem loadsWith_nil : loadsWith (N := N) unpaired [] = none := by
  simp [loadsWith, parseValue, skipWs, parseAtom, parseNumber, JsonNumber.read_nil]

/-- A text that is one delimited value from its first to its last character does
not parse when its end is missing. -/
theorem loadsWith_cut {f : Nat} {p q : Text} {v : Value N} (hd : p ≠ [] → Delimited p) (hq : q ≠ [])
    (h : parseValue unpaired f (p ++ q) = some (v, [])) :
    loadsWith (N := N) unpaired p = none := by
  by_cases hp : p = []
  · rw [hp, loadsWith_nil]
  · unfold loadsWith
    split
    · rename_i v' r hr
      have hcut := parseValue_delimited q (Nat.le_max_left (p.length + 1) f) (hd hp) hr
      have hall := parseValue_extends (Nat.le_max_right (p.length + 1) f) _ _ _ [] h (.inr rfl)
      rw [List.append_nil, hcut] at hall
      simp_all
    · rfl

end SchedulingUtil.Lib.Json
