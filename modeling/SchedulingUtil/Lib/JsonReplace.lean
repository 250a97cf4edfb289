import SchedulingUtil.Lib.JsonRender
import SchedulingUtil.Lib.Replace

/-! # Replacing in rendered JSON

Where a text is found in a rendering only among characters of a string that are written as
themselves, replacing it there is replacing it in the strings of the value (`replace_render`). -/
namespace SchedulingUtil.Lib.Json
open Replace

/-! ## The strings of a value -/

section Strings
variable {N : Type}

mutual
/-- The value with `f` of each of its strings, keys included. -/
def Value.mapStrings (f : Text → Text) : Value N → Value N
  | .null => .null
  | .bool b => .bool b
  | .num n => .num n
  | .str s => .str (f s)
  | .arr items => .arr (mapItems f items)
  | .obj fields => .obj (mapMembers f fields)

def mapItems (f : Text → Text) : List (Value N) → List (Value N)
  | [] => []
  | v :: vs => v.mapStrings f :: mapItems f vs

def mapMembers (f : Text → Text) : List (Text × Value N) → List (Text × Value N)
  | [] => []
  | (k, v) :: fs => (f k, v.mapStrings f) :: mapMembers f fs
end

attribute [local simp] Value.mapStrings mapItems mapMembers

/-- One of the strings of a value, keys included. -/
inductive Value.HasString (s : Text) : Value N → Prop where
  | str : HasString s (.str s)
  | item {items : List (Value N)} {v : Value N} (hv : v ∈ items) (h : HasString s v) :
    HasString s (.arr items)
  | key {fields : List (Text × Value N)} {v : Value N} (hf : (s, v) ∈ fields) :
    HasString s (.obj fields)
  | value {fields : List (Text × Value N)} {k : Text} {v : Value N} (hf : (k, v) ∈ fields)
    (h : HasString s v) : HasString s (.obj fields)

theorem mapItems_eq (f : Text → Text) (items : List (Value N)) :
    mapItems f items = items.map (Value.mapStrings f) := by
  induction items with
  | nil => rfl
  | cons v items ih => rw [mapItems, ih, List.map_cons]

theorem mapMembers_eq (f : Text → Text) (fields : List (Text × Value N)) :
    mapMembers f fields = fields.map fun m => (f m.1, m.2.mapStrings f) := by
  induction fields with
  | nil => rfl
  | cons m fields ih =>
    obtain ⟨k, v⟩ := m
    rw [mapMembers, ih, List.map_cons]

/-- A string of the mapped value is `f` of one of the value. -/
theorem hasString_mapStrings {f : Text → Text} {s : Text} {v : Value N}
    (h : (v.mapStrings f).HasString s) : ∃ t, v.HasString t ∧ s = f t := by
  induction v using Value.induct with
  | null | bool _ | num _ => cases h
  | str t => cases h; exact ⟨t, .str, rfl⟩
  | arr items ih =>
    rw [Value.mapStrings, mapItems_eq] at h
    obtain ⟨⟩ | ⟨hv, h⟩ := h
    obtain ⟨u, hu, rfl⟩ := List.mem_map.mp hv
    obtain ⟨t, ht, rfl⟩ := ih u hu h
    exact ⟨t, .item hu ht, rfl⟩
  | obj fields ih =>
    rw [Value.mapStrings, mapMembers_eq] at h
    cases h with
    | key hf =>
      obtain ⟨⟨k, u⟩, hu, heq⟩ := List.mem_map.mp hf
      cases heq
      exact ⟨k, .key hu, rfl⟩
    | value hf h =>
      obtain ⟨⟨k, u⟩, hu, heq⟩ := List.mem_map.mp hf
      cases heq
      obtain ⟨t, ht, rfl⟩ := ih (k, u) hu h
      exact ⟨t, .value hu ht, rfl⟩

theorem Value.HasString.mapStrings {s : Text} {v : Value N} (h : v.HasString s)
    (f : Text → Text) : (v.mapStrings f).HasString (f s) := by
  induction h with
  | str => exact .str
  | item hv _ ih =>
    rw [Value.mapStrings, mapItems_eq]
    exact .item (List.mem_map_of_mem hv) ih
  | key hf =>
    rw [Value.mapStrings, mapMembers_eq]
    exact .key (List.mem_map_of_mem hf)
  | value hf _ ih =>
    rw [Value.mapStrings, mapMembers_eq]
    exact .value (List.mem_map_of_mem hf) ih

theorem mapStrings_of_forall {f : Text → Text} (hf : ∀ s, f s = s) (v : Value N) :
    v.mapStrings f = v := by
  induction v using Value.induct with
  | null | bool _ | num _ => rfl
  | str s => rw [Value.mapStrings, hf]
  | arr items ih =>
    rw [Value.mapStrings, mapItems_eq, List.map_congr_left ih, List.map_id']
  | obj fields ih =>
    have hmember : ∀ m ∈ fields, (f m.1, m.2.mapStrings f) = m := fun m hm => by
      rw [hf, ih m hm]
    rw [Value.mapStrings, mapMembers_eq, List.map_congr_left hmember, List.map_id']

theorem mapStrings_mapStrings (f g : Text → Text) (v : Value N) :
    (v.mapStrings f).mapStrings g = v.mapStrings (g ∘ f) := by
  induction v using Value.induct with
  | null | bool _ | num _ | str _ => rfl
  | arr items ih =>
    simp only [Value.mapStrings, mapItems_eq, List.map_map]
    exact congrArg Value.arr (List.map_congr_left fun v hv => ih v hv)
  | obj fields ih =>
    simp only [Value.mapStrings, mapMembers_eq, List.map_map]
    refine congrArg Value.obj (List.map_congr_left fun m hm => ?_)
    simp only [Function.comp_apply, ih m hm]

end Strings

/-! ## Renderings as tokens -/

/-- What a rendering consists of: strings, and the text around them. -/
inductive Token where
  | fixed (t : Text)
  | string (s : Text)

namespace Token

def text (L : Layout) : Token → Text
  | fixed t => t
  | string s => renderString L s

def map (f : Text → Text) : Token → Token
  | fixed t => fixed t
  | string s => string (f s)

end Token

section Tokens
variable {N : Type} [NumberSyntax N] (L : Layout)

mutual
def tokens (d : Nat) : Value N → List Token
  | .null => [.fixed (render L d (.null : Value N))]
  | .bool b => [.fixed (render L d (.bool b : Value N))]
  | .num n => [.fixed (NumberSyntax.render n)]
  | .str s => [.string s]
  | .arr [] => [.fixed ['[', ']']]
  | .arr (v :: vs) =>
    .fixed ('[' :: L.line (d + 1)) :: (tokens (d + 1) v ++ itemTokens (d + 1) vs ++
      [.fixed (L.line d ++ [']'])])
  | .obj [] => [.fixed ['{', '}']]
  | .obj ((k, v) :: fs) =>
    .fixed ('{' :: L.line (d + 1)) :: .string k :: .fixed (':' :: L.colon) ::
      (tokens (d + 1) v ++ memberTokens (d + 1) fs ++ [.fixed (L.line d ++ ['}'])])

def itemTokens (d : Nat) : List (Value N) → List Token
  | [] => []
  | v :: vs => .fixed (',' :: L.sep d) :: (tokens d v ++ itemTokens d vs)

def memberTokens (d : Nat) : List (Text × Value N) → List Token
  | [] => []
  | (k, v) :: fs =>
    .fixed (',' :: L.sep d) :: .string k :: .fixed (':' :: L.colon) ::
      (tokens d v ++ memberTokens d fs)
end

attribute [local simp] tokens itemTokens memberTokens

theorem text_itemTokens {d : Nat} {vs : List (Value N)}
    (h : ∀ v ∈ vs, (tokens L d v).flatMap (Token.text L) = render L d v) :
    (itemTokens L d vs).flatMap (Token.text L) = renderItems L d vs := by
  induction vs with
  | nil => rfl
  | cons v vs ih =>
    rw [List.forall_mem_cons] at h
    simp only [itemTokens, renderItems, List.flatMap_cons, List.flatMap_append, Token.text, h.1,
      ih h.2, List.cons_append, List.append_assoc]

theorem text_memberTokens {d : Nat} {fs : List (Text × Value N)}
    (h : ∀ f ∈ fs, (tokens L d f.2).flatMap (Token.text L) = render L d f.2) :
    (memberTokens L d fs).flatMap (Token.text L) = renderMembers L d fs := by
  induction fs with
  | nil => rfl
  | cons f fs ih =>
    obtain ⟨k, v⟩ := f
    rw [List.forall_mem_cons] at h
    simp only [memberTokens, renderMembers, List.flatMap_cons, List.flatMap_append, Token.text,
      h.1, ih h.2, List.cons_append, List.append_assoc]

theorem text_tokens (v : Value N) :
    ∀ d, (tokens L d v).flatMap (Token.text L) = render L d v := by
  induction v using Value.induct with
  | null | bool b | num n | str s =>
    intro d
    simp only [tokens, render, List.flatMap_singleton, Token.text]
  | arr items ih =>
    intro d
    cases items with
    | nil => simp only [tokens, render, List.flatMap_singleton, Token.text]
    | cons v vs =>
      have hitems := text_itemTokens L fun u hu => ih u (List.mem_cons_of_mem _ hu) (d + 1)
      simp only [tokens, render, List.flatMap_cons, List.flatMap_append, List.flatMap_nil,
        Token.text, ih v List.mem_cons_self, hitems, List.cons_append, List.append_assoc,
        List.append_nil]
  | obj fields ih =>
    intro d
    cases fields with
    | nil => simp only [tokens, render, List.flatMap_singleton, Token.text]
    | cons f fs =>
      obtain ⟨k, v⟩ := f
      have hmembers :=
        text_memberTokens L fun g hg => ih g (List.mem_cons_of_mem _ hg) (d + 1)
      have hvalue := ih (k, v) List.mem_cons_self (d + 1)
      simp only [tokens, render, List.flatMap_cons, List.flatMap_append, List.flatMap_nil,
        Token.text, hvalue, hmembers, List.cons_append, List.append_assoc, List.append_nil]

theorem itemTokens_mapItems {f : Text → Text} {d : Nat} {vs : List (Value N)}
    (h : ∀ v ∈ vs, tokens L d (v.mapStrings f) = (tokens L d v).map (Token.map f)) :
    itemTokens L d (mapItems f vs) = (itemTokens L d vs).map (Token.map f) := by
  induction vs with
  | nil => rfl
  | cons v vs ih =>
    rw [List.forall_mem_cons] at h
    simp only [mapItems, itemTokens, List.map_cons, List.map_append, Token.map, h.1, ih h.2]

theorem memberTokens_mapMembers {f : Text → Text} {d : Nat} {fs : List (Text × Value N)}
    (h : ∀ m ∈ fs, tokens L d (m.2.mapStrings f) = (tokens L d m.2).map (Token.map f)) :
    memberTokens L d (mapMembers f fs) = (memberTokens L d fs).map (Token.map f) := by
  induction fs with
  | nil => rfl
  | cons m fs ih =>
    obtain ⟨k, v⟩ := m
    rw [List.forall_mem_cons] at h
    simp only [mapMembers, memberTokens, List.map_cons, List.map_append, Token.map, h.1, ih h.2]

theorem tokens_mapStrings (f : Text → Text) (v : Value N) :
    ∀ d, tokens L d (v.mapStrings f) = (tokens L d v).map (Token.map f) := by
  induction v using Value.induct with
  | null | bool b | num n | str s =>
    intro d
    simp only [Value.mapStrings, tokens, List.map_cons, List.map_nil, Token.map]
  | arr items ih =>
    intro d
    cases items with
    | nil => simp only [Value.mapStrings, mapItems, tokens, List.map_cons, List.map_nil, Token.map]
    | cons v vs =>
      have hitems := itemTokens_mapItems L fun u hu => ih u (List.mem_cons_of_mem _ hu) (d + 1)
      simp only [Value.mapStrings, mapItems, tokens, List.map_cons, List.map_append, List.map_nil,
        Token.map, ih v List.mem_cons_self, hitems]
  | obj fields ih =>
    intro d
    cases fields with
    | nil =>
      simp only [Value.mapStrings, mapMembers, tokens, List.map_cons, List.map_nil, Token.map]
    | cons m fs =>
      obtain ⟨k, v⟩ := m
      have hmembers :=
        memberTokens_mapMembers L fun g hg => ih g (List.mem_cons_of_mem _ hg) (d + 1)
      have hvalue := ih (k, v) List.mem_cons_self (d + 1)
      simp only [Value.mapStrings, mapMembers, tokens, List.map_cons, List.map_append,
        List.map_nil, Token.map, hvalue, hmembers]

end Tokens

/-! ## Characters that are written as themselves -/

section Marks
variable (L : Layout)

/-- Every character is written as itself. -/
def Layout.Plain (t : Text) : Prop := ∀ c ∈ t, L.escape c = [c]

instance (t : Text) : Decidable (L.Plain t) :=
  List.decidableBAll (fun c => L.escape c = [c]) t

def unmarked (t : Text) : List (Char × Bool) := t.map (·, false)

def markChar (c : Char) : List (Char × Bool) :=
  if L.escape c = [c] then [(c, true)] else unmarked (L.escape c)

def markString (s : Text) : List (Char × Bool) :=
  unmarked ['"'] ++ s.flatMap (markChar L) ++ unmarked ['"']

def Token.marks : Token → List (Char × Bool)
  | .fixed t => unmarked t
  | .string s => markString L s

/-- The rendering, with the characters marked that stand in a string as themselves. -/
def marks {N : Type} [NumberSyntax N] (d : Nat) (v : Value N) : List (Char × Bool) :=
  (tokens L d v).flatMap (Token.marks L)

theorem map_fst_unmarked (t : Text) : (unmarked t).map Prod.fst = t := by
  rw [unmarked, List.map_map]
  exact List.map_id t

theorem map_fst_markChar (c : Char) : (markChar L c).map Prod.fst = L.escape c := by
  rw [markChar]
  split
  · rename_i h
    exact h.symm
  · exact map_fst_unmarked _

theorem map_fst_tokenMarks (token : Token) :
    (token.marks L).map Prod.fst = token.text L := by
  cases token with
  | fixed t => exact map_fst_unmarked t
  | string s =>
    have hbody : (s.flatMap (markChar L)).map Prod.fst = s.flatMap L.escape := by
      rw [List.map_flatMap]
      exact List.flatMap_congr fun c _ => map_fst_markChar L c
    rw [Token.marks, markString, List.map_append, List.map_append, hbody, map_fst_unmarked]
    rfl

/-- Without the marks it is the rendering. -/
theorem map_fst_marks {N : Type} [NumberSyntax N] (v : Value N) (d : Nat) :
    (marks L d v).map Prod.fst = render L d v := by
  rw [marks, List.map_flatMap, ← text_tokens]
  exact List.flatMap_congr fun token _ => map_fst_tokenMarks L token

theorem not_mem_unmarked {t : Text} {c : Char} : (c, true) ∉ unmarked t := by simp [unmarked]

theorem escape_of_mem_markString {s : Text} {c : Char} (h : (c, true) ∈ markString L s) :
    L.escape c = [c] := by
  simp only [markString, List.mem_append, not_mem_unmarked, false_or, or_false,
    List.mem_flatMap] at h
  obtain ⟨d, -, hd⟩ := h
  rw [markChar] at hd
  split at hd
  · rename_i hplain
    rw [List.mem_singleton, Prod.mk.injEq] at hd
    rw [hd.1, hplain]
  · exact absurd hd not_mem_unmarked

/-- Only such characters are marked. -/
theorem escape_of_mem_marks {N : Type} [NumberSyntax N] {v : Value N} {d : Nat} {c : Char}
    (h : (c, true) ∈ marks L d v) : L.escape c = [c] := by
  obtain ⟨token, -, hc⟩ := List.mem_flatMap.mp h
  cases token with
  | fixed t => exact absurd hc not_mem_unmarked
  | string s => exact escape_of_mem_markString L hc

end Marks

/-! ## Replacing in strings -/

section Replacing
variable {N : Type} [NumberSyntax N] (L : Layout) (r marker : Text)

/-- Characters of a string that are written as themselves. -/
def plain (t : Text) : List (Char × Bool) := t.map (·, true)

/-- In front of every text, replacing turns `x` into `x'`. -/
def Becomes (x x' : List (Char × Bool)) : Prop :=
  ∀ y, replace (plain r) (plain marker) (x ++ y) = x' ++ replace (plain r) (plain marker) y

variable {L r marker}

theorem plain_ne_nil (hr : r ≠ []) : plain r ≠ [] := by simpa [plain] using hr

theorem Becomes.append {x x' y y' : List (Char × Bool)} (hx : Becomes r marker x x')
    (hy : Becomes r marker y y') : Becomes r marker (x ++ y) (x' ++ y') := by
  intro z
  rw [List.append_assoc, hx, hy, List.append_assoc]

theorem becomes_unmarked (hr : r ≠ []) (t : Text) : Becomes r marker (unmarked t) (unmarked t) := by
  intro y
  obtain ⟨d, r', rfl⟩ := List.exists_cons_of_ne_nil hr
  induction t with
  | nil => rfl
  | cons c t ih =>
    have hpassed : ¬ plain (d :: r') <+: (c, false) :: (unmarked t ++ y) := by
      intro hstart
      have hhead := (List.cons_prefix_cons.mp (show (d, true) :: plain r' <+: _ from hstart)).1
      cases hhead
    show replace _ _ ((c, false) :: (unmarked t ++ y)) = (c, false) :: (unmarked t ++ _)
    rw [replace_cons (plain_ne_nil hr) hpassed, ih]

/-- No occurrence goes past what stands for no such character. -/
theorem length_le_of_plain_prefix {x y : List (Char × Bool)} {c : Char}
    (h : plain r <+: x ++ (c, false) :: y) : r.length ≤ x.length := by
  induction r generalizing x with
  | nil => exact Nat.zero_le _
  | cons d r ih =>
    cases x with
    | nil =>
      have hhead := (List.cons_prefix_cons.mp (show (d, true) :: plain r <+: _ from h)).1
      cases hhead
    | cons e x =>
      have hrest := (List.cons_prefix_cons.mp
        (show (d, true) :: plain r <+: e :: (x ++ (c, false) :: y) from h)).2
      exact Nat.succ_le_succ (ih hrest)

/-- In the characters of a string, `r` is found where the string has it. -/
theorem prefix_of_plain_prefix {s : Text} (h : plain r <+: s.flatMap (markChar L)) : r <+: s := by
  induction r generalizing s with
  | nil => exact List.nil_prefix
  | cons d r ih =>
    cases s with
    | nil => exact absurd (List.prefix_nil.mp h) (List.cons_ne_nil _ _)
    | cons c s =>
      rw [List.flatMap_cons, markChar] at h
      split at h
      · obtain ⟨hhead, hrest⟩ := List.cons_prefix_cons.mp
          (show (d, true) :: plain r <+: (c, true) :: s.flatMap (markChar L) from h)
        cases hhead
        exact List.cons_prefix_cons.mpr ⟨rfl, ih hrest⟩
      · obtain ⟨e, rest, he, -⟩ := escape_cons L c
        rw [he] at h
        have hhead := (List.cons_prefix_cons.mp (show (d, true) :: plain r <+:
          (e, false) :: (unmarked rest ++ s.flatMap (markChar L)) from h)).1
        cases hhead

theorem flatMap_markChar_plain {t : Text} (h : L.Plain t) : t.flatMap (markChar L) = plain t := by
  induction t with
  | nil => rfl
  | cons c t ih =>
    rw [List.flatMap_cons, markChar, if_pos (h c List.mem_cons_self),
      ih fun d hd => h d (List.mem_cons_of_mem _ hd)]
    rfl

theorem replace_flatMap_markChar (hr : r ≠ []) (hplain : L.Plain r) (hmarker : L.Plain marker)
    (s : Text) : replace (plain r) (plain marker) (s.flatMap (markChar L)) =
      (replace r marker s).flatMap (markChar L) := by
  induction s using replace_induct hr with
  | nil => rw [List.flatMap_nil, replace_nil hr, replace_nil (plain_ne_nil hr), List.flatMap_nil]
  | found s ih =>
    rw [List.flatMap_append, flatMap_markChar_plain hplain, replace_append_self (plain_ne_nil hr),
      ih, replace_append_self hr, List.flatMap_append, flatMap_markChar_plain hmarker]
  | passed c s hpassed ih =>
    rw [replace_cons hr hpassed, List.flatMap_cons, List.flatMap_cons, ← ih]
    by_cases hc : L.escape c = [c]
    · have hmark : markChar L c = [(c, true)] := if_pos hc
      rw [hmark]
      refine replace_cons (plain_ne_nil hr) (fun hstart => hpassed ?_) _
      refine prefix_of_plain_prefix (L := L) ?_
      rwa [List.flatMap_cons, hmark]
    · have hmark : markChar L c = unmarked (L.escape c) := if_neg hc
      rw [hmark, becomes_unmarked hr]

theorem becomes_markString (hr : r ≠ []) (hplain : L.Plain r) (hmarker : L.Plain marker)
    (s : Text) : Becomes r marker (markString L s) (markString L (replace r marker s)) := by
  intro y
  have hbody : replace (plain r) (plain marker) (s.flatMap (markChar L) ++ ('"', false) :: y) =
      (replace r marker s).flatMap (markChar L) ++
        replace (plain r) (plain marker) (('"', false) :: y) := by
    rw [← replace_flatMap_markChar hr hplain hmarker]
    refine replace_append (plain_ne_nil hr) _ fun n hn hstart => ?_
    have hle := length_le_of_plain_prefix hstart
    rw [List.length_drop] at hle
    rw [plain, List.length_map]
    omega
  have hquote : Becomes r marker (unmarked ['"']) (unmarked ['"']) := becomes_unmarked hr ['"']
  have hclosing := hquote y
  show replace _ _ (unmarked ['"'] ++ s.flatMap (markChar L) ++ unmarked ['"'] ++ y) = _
  rw [List.append_assoc, List.append_assoc, hquote]
  refine (congrArg (unmarked ['"'] ++ ·) (hbody.trans (congrArg _ hclosing))).trans ?_
  simp only [markString, List.append_assoc]

/-- Token by token. -/
theorem becomes_flatMap_marks (hr : r ≠ []) (hplain : L.Plain r) (hmarker : L.Plain marker)
    (ts : List Token) : Becomes r marker (ts.flatMap (Token.marks L))
      ((ts.map (Token.map (replace r marker))).flatMap (Token.marks L)) := by
  induction ts with
  | nil => exact fun y => rfl
  | cons token ts ih =>
    rw [List.map_cons, List.flatMap_cons, List.flatMap_cons]
    refine Becomes.append ?_ ih
    cases token with
    | fixed t => exact becomes_unmarked hr t
    | string s => exact becomes_markString hr hplain hmarker s

theorem map_fst_plain (t : Text) : (plain t).map Prod.fst = t := by
  rw [plain, List.map_map]
  exact List.map_id t

variable (L r) in
/-- Wherever the rendering has `r`, these are characters of one string, written as themselves. -/
def WithinStrings (v : Value N) : Prop :=
  ∀ n, r <+: (render L 0 v).drop n → plain r <+: (marks L 0 v).drop n

theorem withinStrings_of_lt (hr : r ≠ []) {v : Value N}
    (h : ∀ n < (render L 0 v).length,
      r <+: (render L 0 v).drop n → plain r <+: (marks L 0 v).drop n) :
    WithinStrings L r v := by
  intro n hn
  refine h n (Nat.lt_of_not_le fun hle => hr ?_) hn
  rwa [List.drop_of_length_le hle, List.prefix_nil] at hn

/-- **Replacing within the strings of a rendering renders the value with replaced strings.** -/
theorem replace_render (hr : r ≠ []) (hplain : L.Plain r) (hmarker : L.Plain marker)
    {v : Value N} (h : WithinStrings L r v) :
    replace r marker (render L 0 v) = render L 0 (v.mapStrings (replace r marker)) := by
  have hmarks := becomes_flatMap_marks hr hplain hmarker (tokens L 0 v) []
  rw [replace_nil (plain_ne_nil hr), List.append_nil, List.append_nil, ← tokens_mapStrings,
    ← marks, ← marks] at hmarks
  have hmap := map_replace (f := Prod.fst) (s := marks L 0 v) (plain_ne_nil hr) (plain marker)
    fun n hn => h n (by rwa [map_fst_plain, map_fst_marks] at hn)
  rwa [hmarks, map_fst_plain, map_fst_plain, map_fst_marks, map_fst_marks, eq_comm] at hmap

/-- What has an escaped character is not found within strings at all. -/
theorem not_infix_render (hplain : ¬ L.Plain r) {v : Value N} (h : WithinStrings L r v) :
    ¬ r <:+: render L 0 v := by
  rintro ⟨before, after, htext⟩
  refine hplain fun c hc => ?_
  have hstart := h before.length (by
    rw [← htext, List.append_assoc, List.drop_left]
    exact List.prefix_append r after)
  have hmem := hstart.mem (List.mem_map_of_mem (f := (·, true)) hc)
  exact escape_of_mem_marks L (List.mem_of_mem_drop hmem)

end Replacing

end SchedulingUtil.Lib.Json
