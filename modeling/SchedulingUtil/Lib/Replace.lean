import Mathlib.Data.List.Infix

/-! # Replacement of sublists

`str.replace` over any alphabet: the occurrences that are replaced are found from the left, each
after the end of the one before. -/
namespace SchedulingUtil.Lib.Replace

variable {α : Type} [DecidableEq α] {old new s : List α}

/-- The first `skip` elements belong to an occurrence that has been replaced. -/
def replaceFrom (old new : List α) : Nat → List α → List α
  | _, [] => []
  | skip + 1, _ :: s => replaceFrom old new skip s
  | 0, c :: s =>
    if old <+: c :: s then new ++ replaceFrom old new (old.length - 1) s
    else c :: replaceFrom old new 0 s

/-- An empty `old` is found before every element and at the end. -/
def replace (old new s : List α) : List α :=
  if old = [] then new ++ s.flatMap (· :: new) else replaceFrom old new 0 s

theorem replaceFrom_drop (old new s : List α) (skip : Nat) :
    replaceFrom old new skip s = replaceFrom old new 0 (s.drop skip) := by
  induction s generalizing skip with
  | nil => simp [replaceFrom]
  | cons c s ih =>
    cases skip with
    | zero => rfl
    | succ skip => simp only [replaceFrom, List.drop_succ_cons, ih skip]

/-! ## One step of the search -/

theorem replace_nil (hold : old ≠ []) : replace old new [] = [] := by
  rw [replace, if_neg hold, replaceFrom]

theorem replace_append_self (hold : old ≠ []) (new s : List α) :
    replace old new (old ++ s) = new ++ replace old new s := by
  obtain ⟨c, old', rfl⟩ := List.exists_cons_of_ne_nil hold
  have hstart : c :: old' <+: c :: (old' ++ s) := List.prefix_append (c :: old') s
  rw [replace, replace, if_neg hold, if_neg hold, List.cons_append, replaceFrom, if_pos hstart,
    replaceFrom_drop, List.length_cons, Nat.add_sub_cancel, List.drop_left]

theorem replace_cons (hold : old ≠ []) {c : α} (h : ¬ old <+: c :: s) (new : List α) :
    replace old new (c :: s) = c :: replace old new s := by
  rw [replace, replace, if_neg hold, if_neg hold, replaceFrom, if_neg h]

/-- Induction along the search. -/
@[elab_as_elim]
theorem replace_induct {motive : List α → Prop} (hold : old ≠ []) (nil : motive [])
    (found : ∀ s, motive s → motive (old ++ s))
    (passed : ∀ c s, ¬ old <+: c :: s → motive s → motive (c :: s)) (s : List α) : motive s := by
  induction hlength : s.length using Nat.strong_induction_on generalizing s with
  | _ n ih =>
    cases s with
    | nil => exact nil
    | cons c s =>
      by_cases hstart : old <+: c :: s
      · obtain ⟨t, ht⟩ := hstart
        have hpos := List.length_pos_of_ne_nil hold
        have hsum := congrArg List.length ht
        rw [List.length_append] at hsum
        rw [← ht]
        exact found t (ih t.length (by omega) t rfl)
      · exact passed c s hstart (ih s.length (by simp only [← hlength, List.length_cons]; omega)
          s rfl)

/-! ## What is not found stays -/

theorem replace_append_passed (hold : old ≠ []) (new : List α) {x : List α}
    (h : ∀ n < x.length, ¬ old <+: x.drop n ++ s) :
    replace old new (x ++ s) = x ++ replace old new s := by
  induction x with
  | nil => rfl
  | cons c x ih =>
    have hhead : ¬ old <+: c :: (x ++ s) := h 0 (Nat.succ_pos _)
    have hrest := ih fun n hn => h (n + 1) (Nat.succ_lt_succ hn)
    rw [List.cons_append, replace_cons hold hhead, hrest, List.cons_append]

theorem replace_of_absent (hold : old ≠ []) (new : List α) (h : ¬ old <:+: s) :
    replace old new s = s := by
  have hpassed := replace_append_passed (s := []) (x := s) hold new fun n _ hstart =>
    h ((hstart.trans (List.append_nil _ ▸ List.prefix_rfl)).isInfix.trans
      (List.drop_suffix n s).isInfix)
  rwa [List.append_nil, replace_nil hold, List.append_nil] at hpassed

/-- Where no occurrence crosses the border, both sides are searched on their own. -/
theorem replace_append (hold : old ≠ []) (new : List α) {x : List α}
    (h : ∀ n < x.length, old <+: x.drop n ++ s → n + old.length ≤ x.length) :
    replace old new (x ++ s) = replace old new x ++ replace old new s := by
  induction x using replace_induct hold with
  | nil => rw [replace_nil hold, List.nil_append, List.nil_append]
  | found x ih =>
    have hrest := ih fun n hn hstart => by
      have hle := h (old.length + n) (by rw [List.length_append]; omega)
        (by rwa [List.drop_append, List.drop_of_length_le (by omega), List.nil_append,
          Nat.add_sub_cancel_left])
      rw [List.length_append] at hle
      omega
    rw [List.append_assoc, replace_append_self hold, replace_append_self hold, hrest,
      List.append_assoc]
  | passed c x hc ih =>
    have hrest := ih fun n hn hstart => by
      have hle := h (n + 1) (by simp only [List.length_cons]; omega) hstart
      rw [List.length_cons] at hle
      omega
    have hpassed : ¬ old <+: c :: (x ++ s) := by
      intro hstart
      have hle := h 0 (Nat.succ_pos _) hstart
      exact hc (List.prefix_of_prefix_length_le hstart (List.prefix_append (c :: x) s)
        (by rwa [Nat.zero_add] at hle))
    rw [List.cons_append, replace_cons hold hpassed, replace_cons hold hc, hrest,
      List.cons_append]

/-! ## What replacement leaves -/

/-- What has nothing of `new` and starts the result has been at the start before. -/
theorem prefix_of_prefix_replace (hold : old ≠ []) (hnew : new ≠ []) {x : List α}
    (hx : ∀ c ∈ x, c ∉ new) (h : x <+: replace old new s) : x <+: s := by
  induction s using replace_induct hold generalizing x with
  | nil => rwa [replace_nil hold] at h
  | found s ih =>
    rw [replace_append_self hold] at h
    cases x with
    | nil => exact List.nil_prefix
    | cons c x =>
      obtain ⟨d, new', rfl⟩ := List.exists_cons_of_ne_nil hnew
      obtain ⟨rfl, -⟩ := List.cons_prefix_cons.mp (h : c :: x <+: d :: (new' ++ _))
      exact absurd List.mem_cons_self (hx c List.mem_cons_self)
  | passed c s hpassed ih =>
    rw [replace_cons hold hpassed] at h
    cases x with
    | nil => exact List.nil_prefix
    | cons d x =>
      obtain ⟨rfl, hrest⟩ := List.cons_prefix_cons.mp h
      exact List.cons_prefix_cons.mpr
        ⟨rfl, ih (fun e he => hx e (List.mem_cons_of_mem _ he)) hrest⟩

omit [DecidableEq α] in
theorem infix_of_infix_append {x y : List α} (hx : ∀ c ∈ x, c ∉ new) (h : x <:+: new ++ y) :
    x <:+: y := by
  cases x with
  | nil => exact List.nil_infix
  | cons c x =>
    induction new with
    | nil => exact h
    | cons d new ih =>
      rcases List.infix_cons_iff.mp h with hstart | hrest
      · obtain ⟨rfl, -⟩ := List.cons_prefix_cons.mp hstart
        exact absurd List.mem_cons_self (hx c List.mem_cons_self)
      · exact ih (fun e he hmem => hx e he (List.mem_cons_of_mem _ hmem)) hrest

/-- Nothing comes into being that has nothing of `new`. -/
theorem infix_of_infix_replace (hold : old ≠ []) (hnew : new ≠ []) {x : List α}
    (hx : ∀ c ∈ x, c ∉ new) (h : x <:+: replace old new s) : x <:+: s := by
  induction s using replace_induct hold with
  | nil => rwa [replace_nil hold] at h
  | found s ih =>
    rw [replace_append_self hold] at h
    exact (ih (infix_of_infix_append hx h)).trans (List.suffix_append old s).isInfix
  | passed c s hpassed ih =>
    rw [replace_cons hold hpassed] at h
    rcases List.infix_cons_iff.mp h with hstart | hrest
    · cases x with
      | nil => exact List.nil_infix
      | cons d x =>
        obtain ⟨rfl, hx'⟩ := List.cons_prefix_cons.mp hstart
        exact (List.cons_prefix_cons.mpr ⟨rfl, prefix_of_prefix_replace hold hnew
          (fun e he => hx e (List.mem_cons_of_mem _ he)) hx'⟩).isInfix
    · exact (ih hrest).trans (List.suffix_cons c s).isInfix

/-- No occurrence is left. -/
theorem not_infix_replace (hold : old ≠ []) (hnew : new ≠ []) (hdisjoint : ∀ c ∈ old, c ∉ new)
    (s : List α) : ¬ old <:+: replace old new s := by
  intro h
  induction s using replace_induct hold with
  | nil =>
    rw [replace_nil hold] at h
    exact hold (List.infix_nil.mp h)
  | found s ih =>
    rw [replace_append_self hold] at h
    exact ih (infix_of_infix_append hdisjoint h)
  | passed c s hpassed ih =>
    rw [replace_cons hold hpassed] at h
    rcases List.infix_cons_iff.mp h with hstart | hrest
    · obtain ⟨d, old', rfl⟩ := List.exists_cons_of_ne_nil hold
      obtain ⟨rfl, hold'⟩ := List.cons_prefix_cons.mp hstart
      exact hpassed (List.cons_prefix_cons.mpr ⟨rfl, prefix_of_prefix_replace hold hnew
        (fun e he => hdisjoint e (List.mem_cons_of_mem _ he)) hold'⟩)
    · exact ih hrest

/-! ## Projections -/

/-- Replacing in a projected text, where each occurrence is a projected one. -/
theorem map_replace {β : Type} [DecidableEq β] {f : α → β} (hold : old ≠ []) (new : List α)
    (h : ∀ n, old.map f <+: (s.map f).drop n → old <+: s.drop n) :
    (replace old new s).map f = replace (old.map f) (new.map f) (s.map f) := by
  have hmap : old.map f ≠ [] := by simpa using hold
  induction s using replace_induct hold with
  | nil => rw [replace_nil hold, List.map_nil, replace_nil hmap]
  | found s ih =>
    have hrest := ih fun n hstart => by
      have hlater := h (old.length + n)
      rw [List.map_append, ← List.drop_drop, ← List.drop_drop, List.drop_left,
        List.drop_left' (List.length_map f)] at hlater
      exact hlater hstart
    rw [replace_append_self hold, List.map_append, List.map_append, replace_append_self hmap,
      hrest]
  | passed c s hpassed ih =>
    have hrest := ih fun n => h (n + 1)
    have hmapped : ¬ old.map f <+: f c :: s.map f := fun hstart => hpassed (h 0 hstart)
    rw [replace_cons hold hpassed, List.map_cons, List.map_cons, replace_cons hmap hmapped, hrest]

end SchedulingUtil.Lib.Replace
