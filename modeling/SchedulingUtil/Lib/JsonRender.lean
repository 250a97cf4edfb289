import SchedulingUtil.Lib.Json

/-! # Writing JSON, and reading it back

A `Layout` says where a writer puts white space and how it escapes characters;
its fields carry what the parser needs to know about either. Every layout is
inverted by the parser (`loadsWith_render`), and no proper prefix of a rendered array,
object or string is accepted (`loadsWith_render_cut`). -/
namespace SchedulingUtil.Lib.Json

/-- White space and escapes of a writer. `line d` stands after an opening
bracket whose items are at depth `d`, and before the closing bracket of a list
at depth `d`; `sep d` stands after a comma between items at depth `d`. -/
structure Layout where
  line : Nat → Text
  sep : Nat → Text
  colon : Text
  escape : Char → Text
  line_ws : ∀ d, ∀ c ∈ line d, isWs c = true
  sep_ws : ∀ d, ∀ c ∈ sep d, isWs c = true
  colon_ws : ∀ c ∈ colon, isWs c = true
  stringChar_escape : ∀ u c r, stringChar u (escape c ++ r) = some (c, r)

variable {N : Type} (L : Layout) {unpaired : Option Char}

def renderString (s : Text) : Text := '"' :: (s.flatMap L.escape ++ ['"'])

section
variable [NumberSyntax N]

mutual
def render (d : Nat) : Value N → Text
  | .null => ['n', 'u', 'l', 'l']
  | .bool true => ['t', 'r', 'u', 'e']
  | .bool false => ['f', 'a', 'l', 's', 'e']
  | .num n => NumberSyntax.render n
  | .str s => renderString L s
  | .arr [] => ['[', ']']
  | .arr (v :: vs) =>
    '[' :: (L.line (d + 1) ++ render (d + 1) v ++ renderItems (d + 1) vs ++ L.line d ++ [']'])
  | .obj [] => ['{', '}']
  | .obj ((k, v) :: fs) =>
    '{' :: (L.line (d + 1) ++ renderString L k ++ ':' :: (L.colon ++ render (d + 1) v) ++
      renderMembers (d + 1) fs ++ L.line d ++ ['}'])

def renderItems (d : Nat) : List (Value N) → Text
  | [] => []
  | v :: vs => ',' :: (L.sep d ++ render d v) ++ renderItems d vs

def renderMembers (d : Nat) : List (Text × Value N) → Text
  | [] => []
  | (k, v) :: fs =>
    ',' :: (L.sep d ++ renderString L k ++ ':' :: (L.colon ++ render d v)) ++ renderMembers d fs
end

attribute [local simp] render renderItems renderMembers

theorem renderItems_eq (d : Nat) (vs : List (Value N)) :
    renderItems L d vs = vs.flatMap fun v => ',' :: (L.sep d ++ render L d v) := by
  induction vs with
  | nil => simp
  | cons v vs ih => simp [ih]

end

/-! ## Reading back -/

section
variable [NumberSyntax N]

/-- What may follow a number. -/
def NumEnd (r : Text) : Prop := r.takeWhile isNumChar = []

theorem numEnd_nil : NumEnd [] := rfl

theorem numEnd_cons {c : Char} {r : Text} (h : isNumChar c = false) : NumEnd (c :: r) := by
  simp [NumEnd, h]

theorem numEnd_ws {w r : Text} (hw : ∀ c ∈ w, isWs c = true) (hr : NumEnd r) : NumEnd (w ++ r) := by
  cases w with
  | nil => exact hr
  | cons c w =>
    have hc := hw c (by simp)
    refine numEnd_cons ?_
    simp only [isWs, Bool.or_eq_true, beq_iff_eq] at hc
    rcases hc with ((rfl | rfl) | rfl) | rfl <;> decide

theorem skipWs_ws {w : Text} (hw : ∀ c ∈ w, isWs c = true) (r : Text) :
    skipWs (w ++ r) = skipWs r := by
  unfold skipWs
  rw [List.dropWhile_append_of_pos hw]

omit [NumberSyntax N] in
theorem skipWs_cons {c : Char} {r : Text} (h : isWs c = false) : skipWs (c :: r) = c :: r := by
  simp [skipWs, h]

theorem parseValue_ws {w : Text} (hw : ∀ c ∈ w, isWs c = true) (f : Nat) (r : Text) :
    parseValue (N := N) unpaired f (w ++ r) = parseValue unpaired f r := by
  cases f with
  | zero => rfl
  | succ f => rw [parseValue, parseValue, skipWs_ws hw]

/-- An escape does not look like the closing quote. -/
theorem escape_cons (c : Char) : ∃ d e, L.escape c = d :: e ∧ d ≠ '"' := by
  have hc := L.stringChar_escape none c []
  cases he : L.escape c with
  | nil => simp [he, stringChar] at hc
  | cons d e =>
    refine ⟨d, e, rfl, ?_⟩
    rintro rfl
    simp [he, stringChar] at hc

theorem parseString_render : ∀ {f : Nat} (s : Text) {r : Text}, s.length < f →
    parseString unpaired f (s.flatMap L.escape ++ '"' :: r) = some (s, r)
  | 0, _, _, h => by omega
  | f + 1, [], r, _ => rfl
  | f + 1, c :: s, r, h => by
    obtain ⟨d, e, he, hd⟩ := escape_cons L c
    have hc := L.stringChar_escape unpaired c (s.flatMap L.escape ++ '"' :: r)
    rw [he, List.cons_append] at hc
    rw [List.flatMap_cons, List.append_assoc, he, List.cons_append, parseString_cons hd, hc,
      Option.bind_some, parseString_render s (by simpa using h), Option.map_some]

/-- A list of texts that `p` reads one by one, as `sepBy` reads it. -/
theorem sepBy_items {α : Type} {p : Text → Option (α × Text)} {close : Char} {w : Text}
    (hclose : isNumChar close = false) (hws : isWs close = false) (hcomma : close ≠ ',')
    (hw : ∀ c ∈ w, isWs c = true) {f : Nat} {l : List (Text × α)} {t : Text} {v : α} {r : Text}
    (hv : ∀ r, NumEnd r → p (t ++ r) = some (v, r))
    (hi : ∀ i ∈ l, ∀ r, NumEnd r → p (i.1 ++ r) = some (i.2, r)) (hf : l.length < f) :
    sepBy p close f (t ++ ((l.flatMap fun i => ',' :: i.1) ++ (w ++ close :: r))) =
      some (v :: l.map Prod.snd, r) := by
  induction l generalizing f t v with
  | nil =>
    obtain ⟨f, rfl⟩ : ∃ g, f = g + 1 := ⟨f - 1, by simp at hf; omega⟩
    rw [List.flatMap_nil, List.nil_append, sepBy, hv _ (numEnd_ws hw (numEnd_cons hclose))]
    simp [skipWs_ws hw, skipWs_cons hws]
  | cons i l ih =>
    obtain ⟨f, rfl⟩ : ∃ g, f = g + 1 := ⟨f - 1, by simp at hf; omega⟩
    have hrec := ih (f := f) (t := i.1) (v := i.2) (hi i (by simp))
      (fun j hj => hi j (by simp [hj])) (by simpa using hf)
    rw [List.flatMap_cons, List.append_assoc, List.cons_append, sepBy,
      hv _ (numEnd_cons (by decide))]
    simp [skipWs_cons (show isWs ',' = false by decide), Ne.symm hcomma, hrec]

/-- The same for a whole bracketed list, `t` being its first item. -/
theorem bracketed_items {α : Type} {p : Text → Option (α × Text)} {close c : Char} {w w' t' : Text}
    (hclose : isNumChar close = false) (hws : isWs close = false) (hcomma : close ≠ ',')
    (hw : ∀ c ∈ w, isWs c = true) (hw' : ∀ c ∈ w', isWs c = true)
    {f : Nat} {l : List (Text × α)} {t : Text} {v : α} {r : Text}
    (ht : t = c :: t') (hc : isWs c = false) (hne : c ≠ close)
    (hv : ∀ r, NumEnd r → p (t ++ r) = some (v, r))
    (hi : ∀ i ∈ l, ∀ r, NumEnd r → p (i.1 ++ r) = some (i.2, r)) (hf : l.length < f) :
    bracketed p close f (w' ++ (t ++ ((l.flatMap fun i => ',' :: i.1) ++ (w ++ close :: r)))) =
      some (v :: l.map Prod.snd, r) := by
  have hlist := sepBy_items (r := r) hclose hws hcomma hw hv hi hf
  rw [bracketed, skipWs_ws hw']
  rw [ht, List.cons_append] at hlist ⊢
  rw [skipWs_cons hc]
  simp only [if_neg hne]
  exact hlist

/-! ## The round trip -/

omit [NumberSyntax N] in
/-- Induction over values, with the items of a list at hand. -/
theorem Value.induct {P : Value N → Prop} (null : P .null) (bool : ∀ b, P (.bool b))
    (num : ∀ n, P (.num n)) (str : ∀ s, P (.str s))
    (arr : ∀ items, (∀ v ∈ items, P v) → P (.arr items))
    (obj : ∀ fields, (∀ f ∈ fields, P f.2) → P (.obj fields)) : ∀ v, P v
  | .null => null
  | .bool b => bool b
  | .num n => num n
  | .str s => str s
  | .arr items => arr items fun v _ => Value.induct null bool num str arr obj v
  | .obj fields => obj fields fun f _ => Value.induct null bool num str arr obj f.2
termination_by v => sizeOf v
decreasing_by
  · have := List.sizeOf_lt_of_mem ‹v ∈ items›
    simp only [Value.arr.sizeOf_spec]
    omega
  · have := List.sizeOf_lt_of_mem ‹f ∈ fields›
    obtain ⟨k, v⟩ := f
    simp only [Value.obj.sizeOf_spec, Prod.mk.sizeOf_spec] at this ⊢
    omega

omit [NumberSyntax N] in
theorem length_le_flatMap {α : Type} (g : α → Text) (l : List α) :
    l.length ≤ (l.flatMap fun x => ',' :: g x).length := by
  induction l with
  | nil => simp
  | cons x l ih =>
    simp only [List.flatMap_cons, List.length_append, List.length_cons] at ih ⊢
    omega

omit [NumberSyntax N] in
theorem length_le_flatMap_of_mem {α : Type} (g : α → Text) {l : List α} {x : α} (h : x ∈ l) :
    (g x).length < (l.flatMap fun x => ',' :: g x).length := by
  induction l with
  | nil => cases h
  | cons y l ih =>
    simp only [List.flatMap_cons, List.length_append, List.length_cons]
    rcases List.mem_cons.mp h with rfl | h
    · omega
    · have := ih h
      omega

/-- A member as it stands after its bracket or comma. -/
def renderMember (d : Nat) (f : Text × Value N) : Text :=
  renderString L f.1 ++ ':' :: (L.colon ++ render L d f.2)

theorem renderMembers_eq (d : Nat) (fs : List (Text × Value N)) :
    renderMembers L d fs = fs.flatMap fun f => ',' :: (L.sep d ++ renderMember L d f) := by
  induction fs with
  | nil => rfl
  | cons f fs ih =>
    rw [renderMembers, List.flatMap_cons, ih, renderMember, List.append_assoc (L.sep d)]

/-- The number is written as JSON has it and read back. -/
structure Written (n : N) : Prop where
  ne_nil : NumberSyntax.render n ≠ []
  ne_minus : NumberSyntax.render n ≠ ['-']
  numChar : ∀ c ∈ NumberSyntax.render n, isNumChar c = true
  read : NumberSyntax.read (NumberSyntax.render n) = some n

omit [NumberSyntax N] in
/-- All numbers of a value satisfy `P`. -/
inductive Value.AllNums (P : N → Prop) : Value N → Prop
  | null : AllNums P .null
  | bool (b : Bool) : AllNums P (.bool b)
  | num {n : N} (h : P n) : AllNums P (.num n)
  | str (s : Text) : AllNums P (.str s)
  | arr {items : List (Value N)} (h : ∀ v ∈ items, AllNums P v) : AllNums P (.arr items)
  | obj {fields : List (Text × Value N)} (h : ∀ f ∈ fields, AllNums P f.2) :
      AllNums P (.obj fields)

/-- What the round trip says of one value, at every depth and before every text
that does not go on with a number. -/
def Readable (v : Value N) : Prop :=
  ∀ u d f r, (render L d v).length < f → NumEnd r →
    parseValue u f (render L d v ++ r) = some (v, r)

omit [NumberSyntax N] in
theorem isWs_of_isNumChar {c : Char} (h : isNumChar c = true) : isWs c = false := by
  by_contra hw
  simp only [isWs, Bool.not_eq_false, Bool.or_eq_true, beq_iff_eq] at hw
  rcases hw with ((rfl | rfl) | rfl) | rfl <;> revert h <;> decide

omit [NumberSyntax N] in
theorem ne_of_isNumChar {c d : Char} (h : isNumChar c = true) (hd : isNumChar d = false) :
    c ≠ d := by
  rintro rfl
  rw [h] at hd
  cases hd

theorem parseNumber_render {n : N} (hn : Written n) {r : Text} (hr : NumEnd r) :
    parseNumber (NumberSyntax.render n ++ r) = some (.num n, r) := by
  have hdrop : r.dropWhile isNumChar = r := by
    have := List.takeWhile_append_dropWhile (p := isNumChar) (l := r)
    rwa [hr, List.nil_append] at this
  simp [parseNumber, List.takeWhile_append_of_pos hn.numChar,
    List.dropWhile_append_of_pos hn.numChar, hdrop, show r.takeWhile isNumChar = [] from hr,
    hn.read]

theorem readable_num {n : N} (hn : Written n) : Readable L (.num n) := by
  intro u d f r hf hr
  obtain ⟨f, rfl⟩ : ∃ g, f = g + 1 := ⟨f - 1, by omega⟩
  have hnum := parseNumber_render hn hr
  have hchars := hn.numChar
  rw [render]
  cases hc : NumberSyntax.render n with
  | nil => exact absurd hc hn.ne_nil
  | cons c t =>
    rw [hc] at hnum hchars
    have hcn := hchars c (by simp)
    have hws := skipWs_cons (r := t ++ r) (isWs_of_isNumChar hcn)
    have hminus : ∀ u, c :: (t ++ r) = '-' :: 'I' :: u → False := by
      intro u hu
      obtain ⟨rfl, hu⟩ := List.cons.inj hu
      cases t with
      | nil => exact hn.ne_minus hc
      | cons e t =>
        cases hu
        exact absurd (hchars 'I' (by simp)) (by decide)
    have hstart : ∀ {e : Char}, isNumChar e = false → ∀ u, c :: (t ++ r) = e :: u → False :=
      fun he u hu => ne_of_isNumChar hcn he (List.cons.inj hu).1
    have hd : ¬ Delimited (c :: (t ++ r)) := by
      intro hdel
      obtain ⟨e, rest, hs, he⟩ := hdel
      rw [hws] at hs
      cases hs
      rcases he with rfl | rfl | rfl <;> exact absurd hcn (by decide)
    rw [List.cons_append, parseValue_atom hd, hws,
      parseAtom.eq_7 _ (hstart (by decide)) (hstart (by decide)) (hstart (by decide))
        (hstart (by decide)) (hstart (by decide)) hminus]
    exact hnum

theorem length_le_escape (s : Text) : s.length ≤ (s.flatMap L.escape).length := by
  induction s with
  | nil => simp
  | cons c s ih =>
    obtain ⟨d, e, he, _⟩ := escape_cons L c
    simp only [List.flatMap_cons, List.length_append, List.length_cons, he]
    omega

theorem readable_str (s : Text) : Readable (N := N) L (.str s) := by
  intro u d f r hf _
  obtain ⟨f, rfl⟩ : ∃ g, f = g + 1 := ⟨f - 1, by omega⟩
  have hlen := length_le_escape L s
  simp only [render, renderString, List.length_cons, List.length_append] at hf
  have hs : parseString u f (s.flatMap L.escape ++ '"' :: r) = some (s, r) :=
    parseString_render L s (by omega)
  simp [render, renderString, parseValue, skipWs_cons (show isWs '"' = false by decide), hs]

/-- How a value starts: neither with white space nor with a closing bracket. -/
theorem render_head (d : Nat) {v : Value N} (hv : v.AllNums Written) :
    ∃ c t, render L d v = c :: t ∧ isWs c = false ∧ c ≠ ']' := by
  cases hv with
  | null => exact ⟨'n', ['u', 'l', 'l'], by rw [render], by decide, by decide⟩
  | bool b =>
    cases b with
    | true => exact ⟨'t', ['r', 'u', 'e'], by rw [render], by decide, by decide⟩
    | false => exact ⟨'f', ['a', 'l', 's', 'e'], by rw [render], by decide, by decide⟩
  | @num n hn =>
    have hchars := hn.numChar
    rw [render]
    cases hc : NumberSyntax.render n with
    | nil => exact absurd hc hn.ne_nil
    | cons c t =>
      rw [hc] at hchars
      have hcn := hchars c (by simp)
      exact ⟨c, t, rfl, isWs_of_isNumChar hcn, ne_of_isNumChar hcn (by decide)⟩
  | str s => exact ⟨'"', _, by rw [render, renderString], by decide, by decide⟩
  | @arr items _ =>
    cases items with
    | nil => exact ⟨'[', [']'], by rw [render], by decide, by decide⟩
    | cons v vs => exact ⟨'[', _, by rw [render], by decide, by decide⟩
  | @obj fields _ =>
    cases fields with
    | nil => exact ⟨'{', ['}'], by rw [render], by decide, by decide⟩
    | cons f fs => exact ⟨'{', _, by rw [render], by decide, by decide⟩

theorem readable_arr {items : List (Value N)} (hv : ∀ v ∈ items, v.AllNums Written)
    (ih : ∀ v ∈ items, Readable L v) : Readable L (.arr items) := by
  intro u d f r hf _
  obtain ⟨f, rfl⟩ : ∃ g, f = g + 1 := ⟨f - 1, by omega⟩
  cases items with
  | nil => simp [render, parseValue, skipWs, isWs, bracketed]
  | cons v vs =>
    obtain ⟨c, t, hhead, hc, hne⟩ := render_head L (d + 1) (hv v (by simp))
    simp only [render, List.length_cons, List.length_append, renderItems_eq] at hf
    have hcount := length_le_flatMap (fun v => L.sep (d + 1) ++ render L (d + 1) v) vs
    have hlist := bracketed_items (p := parseValue u f) (f := f) (w := L.line d) (r := r)
      (l := vs.map fun v => (L.sep (d + 1) ++ render L (d + 1) v, v))
      (show isNumChar ']' = false by decide) (by decide) (by decide) (L.line_ws d)
      (L.line_ws (d + 1)) hhead hc hne
      (fun r hr => ih v (by simp) u (d + 1) f r (by omega) hr)
      (by
        intro i hi r hr
        obtain ⟨x, hx, rfl⟩ := List.mem_map.mp hi
        have hlen := length_le_flatMap_of_mem (fun v => L.sep (d + 1) ++ render L (d + 1) v) hx
        simp only [List.length_append] at hlen
        rw [List.append_assoc, parseValue_ws (L.sep_ws (d + 1))]
        exact ih x (by simp [hx]) u (d + 1) f r (by omega) hr)
      (by rw [List.length_map]; omega)
    rw [List.map_map, List.flatMap_map] at hlist
    rw [render, parseValue, List.cons_append, skipWs_cons (by decide)]
    simp only [renderItems_eq, List.append_assoc, List.cons_append, List.nil_append, hlist,
      Option.map_some]
    simp [Function.comp_def]

theorem member_render {d f : Nat} {g : Text × Value N} (hg : Readable L g.2) {w : Text}
    (hw : ∀ c ∈ w, isWs c = true) (hf : (renderMember L d g).length < f) {r : Text}
    (hr : NumEnd r) :
    member unpaired (parseValue unpaired f) f (w ++ (renderMember L d g ++ r)) = some (g, r) := by
  have hlen := length_le_escape L g.1
  simp only [renderMember, renderString, List.length_cons, List.length_append] at hf
  have hk : parseString unpaired f (g.1.flatMap L.escape ++
      '"' :: ':' :: (L.colon ++ (render L d g.2 ++ r))) = _ :=
    parseString_render L g.1 (by omega)
  have hv := hg unpaired d f r (by omega) hr
  simp [member, renderMember, renderString, skipWs_ws hw, hk, hv, parseValue_ws L.colon_ws,
    skipWs_cons (show isWs '"' = false by decide), skipWs_cons (show isWs ':' = false by decide)]

theorem readable_obj {fields : List (Text × Value N)} (ih : ∀ f ∈ fields, Readable L f.2) :
    Readable L (.obj fields) := by
  intro u d f r hf _
  obtain ⟨f, rfl⟩ : ∃ g, f = g + 1 := ⟨f - 1, by omega⟩
  cases fields with
  | nil => simp [render, parseValue, skipWs, isWs, bracketed]
  | cons g gs =>
    have hrender : render L d (.obj (g :: gs)) = '{' :: (L.line (d + 1) ++
        (renderMember L (d + 1) g ++ (renderMembers L (d + 1) gs ++ (L.line d ++ ['}'])))) := by
      rw [render, renderMember]
      simp
    rw [hrender, renderMembers_eq] at hf ⊢
    simp only [List.length_cons, List.length_append] at hf
    have hcount := length_le_flatMap (fun g => L.sep (d + 1) ++ renderMember L (d + 1) g) gs
    have hlist := bracketed_items (p := member u (parseValue u f) f) (f := f) (w := L.line d)
      (r := r)
      (l := gs.map fun g => (L.sep (d + 1) ++ renderMember L (d + 1) g, g))
      (show isNumChar '}' = false by decide) (by decide) (by decide) (L.line_ws d)
      (L.line_ws (d + 1)) (show renderMember L (d + 1) g = '"' :: _ from rfl) (by decide)
      (by decide)
      (fun r hr => member_render L (w := []) (ih g (by simp)) (by simp) (by omega) hr)
      (by
        intro i hi r hr
        obtain ⟨x, hx, rfl⟩ := List.mem_map.mp hi
        have hlen :=
          length_le_flatMap_of_mem (fun g => L.sep (d + 1) ++ renderMember L (d + 1) g) hx
        simp only [List.length_append] at hlen
        rw [List.append_assoc]
        exact member_render L (ih x (by simp [hx])) (L.sep_ws (d + 1)) (by omega) hr)
      (by rw [List.length_map]; omega)
    rw [List.map_map, List.flatMap_map] at hlist
    rw [parseValue, List.cons_append, skipWs_cons (by decide)]
    simp only [List.append_assoc, List.cons_append, List.nil_append, hlist, Option.map_some]
    simp [Function.comp_def]

theorem readable_word {v : Value N} {w : Text} (hv : ∀ d, render L d v = w)
    (hw : ∀ u f r, parseValue (N := N) u (f + 1) (w ++ r) = some (v, r)) : Readable L v := by
  intro u d f r hf _
  obtain ⟨f, rfl⟩ : ∃ g, f = g + 1 := ⟨f - 1, by omega⟩
  rw [hv, hw]

theorem readable_of_written {v : Value N} (hv : v.AllNums Written) : Readable L v := by
  induction hv with
  | null =>
    refine readable_word L (fun _ => by rw [render]) ?_
    intro u f r
    simp [parseValue, skipWs, isWs, parseAtom, literal, keyword]
  | bool b =>
    cases b with
    | true =>
      refine readable_word L (fun _ => by rw [render]) ?_
      intro u f r
      simp [parseValue, skipWs, isWs, parseAtom, literal, keyword]
    | false =>
      refine readable_word L (fun _ => by rw [render]) ?_
      intro u f r
      simp [parseValue, skipWs, isWs, parseAtom, literal, keyword]
  | num hn => exact readable_num L hn
  | str s => exact readable_str L s
  | arr h ih => exact readable_arr L h ih
  | obj h ih => exact readable_obj L ih

/-- **Every layout is read back**, also before white space, where the numbers are. -/
theorem loadsWith_written_ws {v : Value N} (hv : v.AllNums Written) {w : Text}
    (hw : ∀ c ∈ w, isWs c = true) : loadsWith unpaired (render L 0 v ++ w) = some v := by
  have hend : NumEnd w := by simpa using numEnd_ws hw numEnd_nil
  have hskip : skipWs w = [] := by simpa [skipWs] using skipWs_ws hw []
  have h := readable_of_written L hv unpaired 0 ((render L 0 v ++ w).length + 1) w
    (by rw [List.length_append]; omega) hend
  rw [loadsWith, h]
  exact if_pos hskip

theorem loadsWith_written {v : Value N} (hv : v.AllNums Written) :
    loadsWith unpaired (render L 0 v) = some v := by
  simpa using loadsWith_written_ws L hv (w := []) (by simp)

end

variable [JsonNumber N]

theorem written (n : N) : Written n where
  ne_nil := JsonNumber.render_ne_nil n
  ne_minus h := by
    have hread := JsonNumber.read_render n
    rw [h, JsonNumber.read_minus] at hread
    cases hread
  numChar := JsonNumber.render_numChar n
  read := JsonNumber.read_render n

theorem allNums_written (v : Value N) : v.AllNums Written := by
  induction v using Value.induct with
  | null => exact .null
  | bool b => exact .bool b
  | num n => exact .num (written n)
  | str s => exact .str s
  | arr items ih => exact .arr ih
  | obj fields ih => exact .obj ih

theorem loads_render_ws (v : Value N) {w : Text} (hw : ∀ c ∈ w, isWs c = true) :
    loads (render L 0 v ++ w) = some v := loadsWith_written_ws L (allNums_written v) hw

theorem loadsWith_render (v : Value N) : loadsWith unpaired (render L 0 v) = some v :=
  loadsWith_written L (allNums_written v)

theorem loads_render (v : Value N) : loads (render L 0 v) = some v := loadsWith_render L v

/-- Values whose text marks its own end. -/
def Value.Bracketed : Value N → Prop
  | .str _ | .arr _ | .obj _ => True
  | _ => False

theorem render_bracketed {v : Value N} (hv : v.Bracketed) (d : Nat) :
    ∃ c t, render L d v = c :: t ∧ (c = '"' ∨ c = '[' ∨ c = '{') := by
  cases v with
  | null | bool _ | num _ => exact hv.elim
  | str s => exact ⟨'"', _, by rw [render, renderString], by simp⟩
  | arr items =>
    cases items with
    | nil => exact ⟨'[', [']'], by rw [render], by simp⟩
    | cons v vs => exact ⟨'[', _, by rw [render], by simp⟩
  | obj fields =>
    cases fields with
    | nil => exact ⟨'{', ['}'], by rw [render], by simp⟩
    | cons f fs => exact ⟨'{', _, by rw [render], by simp⟩

/-- **A rendering cut short is never a text.** An array, object or string whose
end is missing does not parse. -/
theorem loadsWith_render_cut {v : Value N} {p q : Text} (hv : v.Bracketed)
    (h : p ++ q = render L 0 v) (hq : q ≠ []) : loadsWith (N := N) unpaired p = none := by
  have hall := readable_of_written L (allNums_written v) unpaired 0 ((render L 0 v).length + 1) []
    (by omega) numEnd_nil
  rw [List.append_nil, ← h] at hall
  refine loadsWith_cut ?_ hq hall
  intro hp
  obtain ⟨c, t, hc, hstart⟩ := render_bracketed L hv 0
  obtain ⟨d, p', rfl⟩ := List.exists_cons_of_ne_nil hp
  rw [hc] at h
  obtain ⟨rfl, -⟩ := List.cons.inj h
  refine ⟨d, p', skipWs_cons ?_, hstart⟩
  rcases hstart with rfl | rfl | rfl <;> decide

theorem loads_render_cut {v : Value N} {p q : Text} (hv : v.Bracketed)
    (h : p ++ q = render L 0 v) (hq : q ≠ []) : loads (N := N) p = none :=
  loadsWith_render_cut L hv h hq

/-! ## Lines and braces -/

/-- A layout that writes no newline. -/
structure Layout.OneLine : Prop where
  line : ∀ d, '\n' ∉ L.line d
  sep : ∀ d, '\n' ∉ L.sep d
  colon : '\n' ∉ L.colon
  escape : ∀ c, '\n' ∉ L.escape c

variable {L} in
theorem Layout.OneLine.renderString (h : L.OneLine) (s : Text) : '\n' ∉ renderString L s := by
  have hescape : '\n' ∉ s.flatMap L.escape := by
    intro hmem
    obtain ⟨c, -, hc⟩ := List.mem_flatMap.mp hmem
    exact h.escape c hc
  simp [Json.renderString, hescape]

variable {L} in
theorem Layout.OneLine.render_arr (h : L.OneLine) {items : List (Value N)}
    (ih : ∀ v ∈ items, ∀ d, '\n' ∉ render L d v) (d : Nat) : '\n' ∉ render L d (.arr items) := by
  cases items with
  | nil => simp [render]
  | cons v vs =>
    have hitems : '\n' ∉ renderItems L (d + 1) vs := by
      rw [renderItems_eq]
      intro hmem
      obtain ⟨w, hw, hc⟩ := List.mem_flatMap.mp hmem
      simp [h.sep, ih w (List.mem_cons_of_mem _ hw)] at hc
    simp [render, h.line, ih v List.mem_cons_self, hitems]

variable {L} in
theorem Layout.OneLine.render_obj (h : L.OneLine) {fields : List (Text × Value N)}
    (ih : ∀ f ∈ fields, ∀ d, '\n' ∉ render L d f.2) (d : Nat) :
    '\n' ∉ render L d (.obj fields) := by
  cases fields with
  | nil => simp [render]
  | cons f fs =>
    have hmembers : '\n' ∉ renderMembers L (d + 1) fs := by
      rw [renderMembers_eq]
      intro hmem
      obtain ⟨g, hg, hc⟩ := List.mem_flatMap.mp hmem
      simp [renderMember, h.sep, h.colon, h.renderString,
        ih g (List.mem_cons_of_mem _ hg)] at hc
    simp [render, h.line, h.colon, h.renderString, ih f List.mem_cons_self, hmembers]

variable {L} in
/-- **No rendering has a newline**, whatever its strings hold. -/
theorem Layout.OneLine.render (h : L.OneLine) (v : Value N) :
    ∀ d, '\n' ∉ Json.render L d v := by
  induction v using Value.induct with
  | null => intro d; simp [Json.render]
  | bool b => intro d; cases b <;> simp [Json.render]
  | num n =>
    intro d hmem
    rw [Json.render] at hmem
    exact absurd (JsonNumber.render_numChar n _ hmem) (by decide)
  | str s =>
    intro d
    rw [Json.render]
    exact h.renderString s
  | arr items ih => exact h.render_arr ih
  | obj fields ih => exact h.render_obj ih

omit [JsonNumber N] in
/-- An object stands between braces. -/
theorem render_obj_braces [NumberSyntax N] (d : Nat) (fields : List (Text × Value N)) :
    ∃ t, render L d (.obj fields) = '{' :: (t ++ ['}']) := by
  cases fields with
  | nil => exact ⟨[], by rw [render]; rfl⟩
  | cons f fs => exact ⟨_, by rw [render]⟩

/-! ## Layouts in use -/

def hexDigit (n : Nat) : Char := if n < 10 then Char.ofNat (48 + n) else Char.ofNat (87 + n)

/-- Escapes only what JSON does not allow in a string. -/
def escapeControl (c : Char) : Text :=
  if c = '"' then ['\\', '"']
  else if c = '\\' then ['\\', '\\']
  else if c = '\x08' then ['\\', 'b']
  else if c = '\x0c' then ['\\', 'f']
  else if c = '\n' then ['\\', 'n']
  else if c = '\r' then ['\\', 'r']
  else if c = '\t' then ['\\', 't']
  else if c.toNat < 0x20 then
    ['\\', 'u', '0', '0', hexDigit (c.toNat / 16), hexDigit (c.toNat % 16)]
  else [c]

theorem hex4_hexDigit :
    ∀ n < 0x20, hex4 '0' '0' (hexDigit (n / 16)) (hexDigit (n % 16)) = some n := by
  decide

theorem stringChar_escapeControl (u : Option Char) (c : Char) (r : Text) :
    stringChar u (escapeControl c ++ r) = some (c, r) := by
  unfold escapeControl
  split
  · subst c; simp [stringChar, escape, shortEscape]
  split
  · subst c; simp [stringChar, escape, shortEscape]
  split
  · subst c; simp [stringChar, escape, shortEscape]
  split
  · subst c; simp [stringChar, escape, shortEscape]
  split
  · subst c; simp [stringChar, escape, shortEscape]
  split
  · subst c; simp [stringChar, escape, shortEscape]
  split
  · subst c; simp [stringChar, escape, shortEscape]
  split
  · rename_i h
    have hhigh : isHigh c.toNat = false := by simp [isHigh]; omega
    have hlow : isLow c.toNat = false := by simp [isLow]; omega
    simp [stringChar, escape, unicodeEscape, codeUnit, hex4_hexDigit c.toNat h, hhigh, hlow,
      Char.ofNat_toNat]
  · rename_i hq hb _ _ _ _ _ h
    rw [List.cons_append, List.nil_append, stringChar.eq_4 _ _ _ hq hb, if_neg h]

theorem newline_notMem_escapeControl (c : Char) : '\n' ∉ escapeControl c := by
  unfold escapeControl
  split
  · simp
  split
  · simp
  split
  · simp
  split
  · simp
  split
  · simp
  split
  · simp
  split
  · simp
  split
  · rename_i h
    have hdigit : ∀ n < 16, hexDigit n ≠ '\n' := by decide
    have hhigh := hdigit (c.toNat / 16) (by omega)
    have hlow := hdigit (c.toNat % 16) (by omega)
    simp [hhigh.symm, hlow.symm]
  · rename_i hn _ _ _
    simp [Ne.symm hn]

/-- Everything on one line, without white space. -/
def compact : Layout where
  line _ := []
  sep _ := []
  colon := []
  escape := escapeControl
  line_ws := by simp
  sep_ws := by simp
  colon_ws := by simp
  stringChar_escape := stringChar_escapeControl

theorem oneLine_compact : compact.OneLine where
  line _ := List.not_mem_nil
  sep _ := List.not_mem_nil
  colon := List.not_mem_nil
  escape := newline_notMem_escapeControl

/-- One item a line, indented by `n` blanks a level. -/
def indented (n : Nat) : Layout where
  line d := '\n' :: List.replicate (n * d) ' '
  sep d := '\n' :: List.replicate (n * d) ' '
  colon := [' ']
  escape := escapeControl
  line_ws d c h := by
    rcases List.mem_cons.mp h with rfl | h
    · rfl
    · rw [List.eq_of_mem_replicate h]; rfl
  sep_ws d c h := by
    rcases List.mem_cons.mp h with rfl | h
    · rfl
    · rw [List.eq_of_mem_replicate h]; rfl
  colon_ws := by simp [isWs]
  stringChar_escape := stringChar_escapeControl

/-- One line, a blank after each comma and colon. -/
def spaced : Layout where
  line _ := []
  sep _ := [' ']
  colon := [' ']
  escape := escapeControl
  line_ws := by simp
  sep_ws := by simp [isWs]
  colon_ws := by simp [isWs]
  stringChar_escape := stringChar_escapeControl

end SchedulingUtil.Lib.Json
