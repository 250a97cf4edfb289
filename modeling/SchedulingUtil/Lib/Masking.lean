import Mathlib.Data.Finset.Union
import Mathlib.Order.Interval.Finset.Nat
import SchedulingUtil.Lib.Replace

/-! # Masked texts

Texts in which stretches have been replaced by a marker, one `replace` after the other. The
occurrences that this masks are those that come first (`firstCome`): by the order of the
replacements and from the left, an occurrence is taken if it overlaps none taken before. -/
namespace SchedulingUtil.Lib.Masking
open Replace

variable {α : Type}

/-! ## What a text with markers stands for -/

/-- An element that has been kept, or the stretch that a marker stands for. -/
inductive Piece (α : Type) where
  | kept (a : α)
  | masked (w : List α)
  deriving DecidableEq

namespace Piece

def source : Piece α → List α
  | kept a => [a]
  | masked w => w

def shown (marker : List α) : Piece α → List α
  | kept a => [a]
  | masked _ => marker

end Piece

def source (ps : List (Piece α)) : List α := ps.flatMap Piece.source

def shown (marker : List α) (ps : List (Piece α)) : List α := ps.flatMap (Piece.shown marker)

/-- No marker stands for nothing. -/
def Proper (ps : List (Piece α)) : Prop := ∀ w, .masked w ∈ ps → w ≠ []

/-- The positions that are masked, counted from `i`. -/
def maskedFrom (i : Nat) : List (Piece α) → Finset Nat
  | [] => ∅
  | .kept _ :: ps => maskedFrom (i + 1) ps
  | .masked w :: ps => Finset.Ico i (i + w.length) ∪ maskedFrom (i + w.length) ps

section Pieces
variable {marker : List α} {ps qs : List (Piece α)} {r : List α} {i j : Nat}

@[simp] theorem source_nil : source ([] : List (Piece α)) = [] := rfl
@[simp] theorem shown_nil : shown marker ([] : List (Piece α)) = [] := rfl

@[simp] theorem source_cons (p : Piece α) : source (p :: ps) = p.source ++ source ps := rfl

@[simp] theorem shown_cons (p : Piece α) :
    shown marker (p :: ps) = p.shown marker ++ shown marker ps := rfl

@[simp] theorem source_append : source (ps ++ qs) = source ps ++ source qs :=
  List.flatMap_append

@[simp] theorem shown_append : shown marker (ps ++ qs) = shown marker ps ++ shown marker qs :=
  List.flatMap_append

@[simp] theorem source_map_kept (r : List α) : source (r.map .kept) = r := by
  induction r with
  | nil => rfl
  | cons a r ih => rw [List.map_cons, source_cons, ih]; rfl

@[simp] theorem shown_map_kept (r : List α) : shown marker (r.map .kept) = r := by
  induction r with
  | nil => rfl
  | cons a r ih => rw [List.map_cons, shown_cons, ih]; rfl

theorem map_kept_ne_nil (hr : r ≠ []) : r.map Piece.kept ≠ [] := by simpa using hr

theorem Proper.of_append (h : Proper (ps ++ qs)) : Proper qs :=
  fun w hw => h w (List.mem_append_right _ hw)

theorem Proper.of_cons {p : Piece α} (h : Proper (p :: ps)) : Proper ps :=
  fun w hw => h w (List.mem_cons_of_mem _ hw)

theorem proper_map_kept (s : List α) : Proper (s.map Piece.kept) := by
  intro w hw
  obtain ⟨a, -, ha⟩ := List.mem_map.mp hw
  cases ha

theorem length_shown_pos (hmarker : marker ≠ []) (p : Piece α) : 0 < (p.shown marker).length := by
  cases p with
  | kept a => exact Nat.one_pos
  | masked w => exact List.length_pos_of_ne_nil hmarker

theorem le_of_mem_maskedFrom (hj : j ∈ maskedFrom i ps) : i ≤ j := by
  induction ps generalizing i with
  | nil => exact absurd hj (Finset.notMem_empty j)
  | cons p ps ih =>
    cases p with
    | kept a => exact (Nat.le_succ i).trans (ih hj)
    | masked w =>
      rcases Finset.mem_union.mp hj with h | h
      · exact (Finset.mem_Ico.mp h).1
      · exact (Nat.le_add_right i _).trans (ih h)

theorem maskedFrom_map_kept_append (r : List α) :
    maskedFrom i (r.map .kept ++ ps) = maskedFrom (i + r.length) ps := by
  induction r generalizing i with
  | nil => rfl
  | cons a r ih =>
    rw [List.map_cons, List.cons_append, maskedFrom, ih, List.length_cons, Nat.add_right_comm,
      Nat.add_assoc]

/-- An occurrence that the pieces have not kept meets a masked position. -/
theorem kept_or_masked (hps : Proper ps) (h : r <+: source ps) :
    r.map .kept <+: ps ∨ ∃ j ∈ maskedFrom i ps, j < i + r.length := by
  induction r generalizing ps i with
  | nil => exact .inl List.nil_prefix
  | cons a r ih =>
    cases ps with
    | nil => exact absurd (List.prefix_nil.mp h) (List.cons_ne_nil a r)
    | cons p ps =>
      cases p with
      | kept b =>
        obtain ⟨rfl, hr⟩ := List.cons_prefix_cons.mp (h : a :: r <+: b :: source ps)
        rcases ih (i := i + 1) hps.of_cons hr with
          hkept | ⟨j, hj, hlt⟩
        · exact .inl (List.cons_prefix_cons.mpr ⟨rfl, hkept⟩)
        · exact .inr ⟨j, hj, by rw [List.length_cons]; omega⟩
      | masked w =>
        have hpos := List.length_pos_of_ne_nil (hps w List.mem_cons_self)
        exact .inr ⟨i, Finset.mem_union_left _ (Finset.mem_Ico.mpr ⟨le_rfl, by omega⟩),
          by rw [List.length_cons]; omega⟩

end Pieces

/-! ## First come, first served -/

/-- A set is taken if it overlaps none taken before. -/
def claim (taken o : Finset Nat) : Finset Nat := if Disjoint o taken then taken ∪ o else taken

def firstCome (os : List (Finset Nat)) : Finset Nat := os.foldl claim ∅

theorem foldl_claim_of_overlapping {taken : Finset Nat} {os : List (Finset Nat)}
    (h : ∀ o ∈ os, ∃ j ∈ o, j ∈ taken) : os.foldl claim taken = taken := by
  induction os with
  | nil => rfl
  | cons o os ih =>
    obtain ⟨j, hj, htaken⟩ := h o List.mem_cons_self
    have hclaim : claim taken o = taken :=
      if_neg fun hdisjoint => Finset.disjoint_left.mp hdisjoint hj htaken
    rw [List.foldl_cons, hclaim]
    exact ih fun o ho => h o (List.mem_cons_of_mem _ ho)

section Occurrences
variable [DecidableEq α]

/-- The positions of every occurrence of `r`, from the left, counted from `i`. -/
def occurrencesFrom (r : List α) (i : Nat) : List α → List (Finset Nat)
  | [] => []
  | c :: s =>
    if r <+: c :: s then Finset.Ico i (i + r.length) :: occurrencesFrom r (i + 1) s
    else occurrencesFrom r (i + 1) s

/-- The occurrences of each text of the list in turn. -/
def occurrences (rs : List (List α)) (s : List α) : List (Finset Nat) :=
  rs.flatMap fun r => occurrencesFrom r 0 s

theorem mem_occurrencesFrom {r s : List α} {i : Nat} {o : Finset Nat} :
    o ∈ occurrencesFrom r i s ↔
      ∃ p < s.length, r <+: s.drop p ∧ o = Finset.Ico (i + p) (i + p + r.length) := by
  induction s generalizing i with
  | nil => simp [occurrencesFrom]
  | cons c s ih =>
    have hstep : (∃ p < (c :: s).length, r <+: (c :: s).drop p ∧
        o = Finset.Ico (i + p) (i + p + r.length)) ↔
          (r <+: c :: s ∧ o = Finset.Ico i (i + r.length)) ∨ o ∈ occurrencesFrom r (i + 1) s := by
      rw [ih]
      constructor
      · rintro ⟨p, hp, hstart, rfl⟩
        cases p with
        | zero => exact .inl ⟨hstart, rfl⟩
        | succ p =>
          exact .inr ⟨p, Nat.lt_of_succ_lt_succ hp, hstart, by rw [Nat.add_right_comm i 1 p]; rfl⟩
      · rintro (⟨hstart, rfl⟩ | ⟨p, hp, hstart, rfl⟩)
        · exact ⟨0, Nat.succ_pos _, hstart, rfl⟩
        · exact ⟨p + 1, Nat.succ_lt_succ hp, hstart, by rw [Nat.add_right_comm i 1 p]; rfl⟩
    rw [hstep, occurrencesFrom]
    split
    · simp [*]
    · simp [*]

/-- The occurrences that start within `w`, and those after it. -/
theorem occurrencesFrom_append {r w s : List α} {i : Nat} (hr : r ≠ []) :
    ∃ os, occurrencesFrom r i (w ++ s) = os ++ occurrencesFrom r (i + w.length) s ∧
      ∀ o ∈ os, ∃ j ∈ o, i ≤ j ∧ j < i + w.length := by
  induction w generalizing i with
  | nil => exact ⟨[], rfl, by simp⟩
  | cons c w ih =>
    obtain ⟨os, hos, hin⟩ := ih (i := i + 1)
    have hlength : i + 1 + w.length = i + (c :: w).length := by rw [List.length_cons]; omega
    rw [hlength] at hos hin
    have hlater : ∀ o ∈ os, ∃ j ∈ o, i ≤ j ∧ j < i + (c :: w).length := by
      intro o ho
      obtain ⟨j, hj, hle, hlt⟩ := hin o ho
      exact ⟨j, hj, by omega, hlt⟩
    rw [List.cons_append, occurrencesFrom, hos]
    split
    · refine ⟨Finset.Ico i (i + r.length) :: os, rfl, ?_⟩
      intro o ho
      rcases List.mem_cons.mp ho with rfl | ho
      · have hpos := List.length_pos_of_ne_nil hr
        exact ⟨i, Finset.mem_Ico.mpr ⟨le_rfl, by omega⟩, le_rfl, by rw [List.length_cons]; omega⟩
      · exact hlater o ho
    · exact ⟨os, rfl, hlater⟩

/-! ## One replacement masks what comes first -/

/-- Every kept occurrence of `r` is masked. -/
def maskOne (ps : List (Piece α)) (r : List α) : List (Piece α) :=
  replace (r.map .kept) [.masked r] ps

/-- All of them in turn. -/
def mask (ps : List (Piece α)) (rs : List (List α)) : List (Piece α) := rs.foldl maskOne ps

variable {ps : List (Piece α)} {r : List α} {i : Nat}

theorem source_maskOne (hr : r ≠ []) : source (maskOne ps r) = source ps := by
  rw [maskOne]
  induction ps using replace_induct (map_kept_ne_nil hr) with
  | nil => rw [replace_nil (map_kept_ne_nil hr)]
  | found ps ih =>
    rw [replace_append_self (map_kept_ne_nil hr), source_append, source_append, ih, source_map_kept]
    rw [source_cons, source_nil, List.append_nil, Piece.source]
  | passed p ps h ih => rw [replace_cons (map_kept_ne_nil hr) h, source_cons, source_cons, ih]

theorem proper_maskOne (hr : r ≠ []) (hps : Proper ps) : Proper (maskOne ps r) := by
  rw [maskOne]
  induction ps using replace_induct (map_kept_ne_nil hr) with
  | nil => rwa [replace_nil (map_kept_ne_nil hr)]
  | found ps ih =>
    rw [replace_append_self (map_kept_ne_nil hr)]
    intro w hw
    rcases List.mem_append.mp hw with hw | hw
    · rw [List.mem_singleton, Piece.masked.injEq] at hw
      rwa [hw]
    · exact ih hps.of_append w hw
  | passed p ps h ih =>
    rw [replace_cons (map_kept_ne_nil hr) h]
    intro w hw
    rcases List.mem_cons.mp hw with hw | hw
    · exact hps w (hw ▸ List.mem_cons_self)
    · exact ih hps.of_cons w hw

/-- From a position on, the occurrences of `r` that come first are those that are masked. -/
theorem foldl_claim_occurrencesFrom (hr : r ≠ []) (hps : Proper ps) {taken : Finset Nat}
    (htaken : ∀ j, i ≤ j → (j ∈ taken ↔ j ∈ maskedFrom i ps)) :
    (occurrencesFrom r i (source ps)).foldl claim taken =
      taken ∪ maskedFrom i (maskOne ps r) := by
  have hpos := List.length_pos_of_ne_nil hr
  rw [maskOne]
  induction ps using replace_induct (map_kept_ne_nil hr) generalizing i taken with
  | nil => rw [replace_nil (map_kept_ne_nil hr)]; exact (Finset.union_empty taken).symm
  | found ps ih =>
    obtain ⟨c, r', rfl⟩ := List.exists_cons_of_ne_nil hr
    rw [maskedFrom_map_kept_append] at htaken
    have hdisjoint : Disjoint (Finset.Ico i (i + (c :: r').length)) taken := by
      refine Finset.disjoint_left.mpr fun j hj hmem => ?_
      have hlt := (Finset.mem_Ico.mp hj).2
      have hle := le_of_mem_maskedFrom ((htaken j (Finset.mem_Ico.mp hj).1).mp hmem)
      omega
    obtain ⟨os, hos, hin⟩ :=
      occurrencesFrom_append (w := r') (s := source ps) (i := i + 1) (List.cons_ne_nil c r')
    have hlength : i + 1 + r'.length = i + (c :: r').length := by rw [List.length_cons]; omega
    rw [hlength] at hos hin
    have hoverlap : ∀ o ∈ os, ∃ j ∈ o, j ∈ taken ∪ Finset.Ico i (i + (c :: r').length) := by
      intro o ho
      obtain ⟨j, hj, hle, hlt⟩ := hin o ho
      exact ⟨j, hj, Finset.mem_union_right _ (Finset.mem_Ico.mpr ⟨by omega, hlt⟩)⟩
    have htail : ∀ j, i + (c :: r').length ≤ j →
        (j ∈ taken ∪ Finset.Ico i (i + (c :: r').length) ↔
          j ∈ maskedFrom (i + (c :: r').length) ps) := by
      intro j hj
      rw [Finset.mem_union, htaken j (by omega), Finset.mem_Ico]
      constructor
      · rintro (h | h)
        · exact h
        · omega
      · exact .inl
    have hrest := ih hps.of_append htail
    have hstart : c :: r' <+: c :: (r' ++ source ps) := List.prefix_append (c :: r') _
    rw [source_append, source_map_kept, List.cons_append, occurrencesFrom, if_pos hstart,
      List.foldl_cons, claim, if_pos hdisjoint, hos, List.foldl_append,
      foldl_claim_of_overlapping hoverlap, hrest, replace_append_self (map_kept_ne_nil hr),
      List.singleton_append, maskedFrom, Finset.union_assoc]
  | passed p ps h ih =>
    rw [replace_cons (map_kept_ne_nil hr) h]
    cases p with
    | kept a =>
      have hrest := ih (i := i + 1) hps.of_cons fun j hj => htaken j (by omega)
      rw [source_cons, Piece.source, List.singleton_append, occurrencesFrom, maskedFrom]
      split
      · rename_i hstart
        rcases kept_or_masked (i := i) hps hstart with hkept | ⟨j, hj, hlt⟩
        · exact absurd hkept h
        · have hle := le_of_mem_maskedFrom hj
          have hoverlap : ∀ o ∈ [Finset.Ico i (i + r.length)], ∃ j ∈ o, j ∈ taken := by
            intro o ho
            rw [List.mem_singleton.mp ho]
            exact ⟨j, Finset.mem_Ico.mpr ⟨hle, hlt⟩, (htaken j hle).mpr hj⟩
          have hclaim := foldl_claim_of_overlapping hoverlap
          rw [List.foldl_cons, List.foldl_nil] at hclaim
          rw [List.foldl_cons, hclaim, hrest]
      · exact hrest
    | masked w =>
      obtain ⟨os, hos, hin⟩ := occurrencesFrom_append (w := w) (s := source ps) (i := i) hr
      have hstretch : Finset.Ico i (i + w.length) ⊆ taken := fun j hj =>
        (htaken j (Finset.mem_Ico.mp hj).1).mpr (Finset.mem_union_left _ hj)
      have hoverlap : ∀ o ∈ os, ∃ j ∈ o, j ∈ taken := by
        intro o ho
        obtain ⟨j, hj, hle, hlt⟩ := hin o ho
        exact ⟨j, hj, hstretch (Finset.mem_Ico.mpr ⟨hle, hlt⟩)⟩
      have htail : ∀ j, i + w.length ≤ j → (j ∈ taken ↔ j ∈ maskedFrom (i + w.length) ps) := by
        intro j hj
        rw [htaken j (by omega), maskedFrom, Finset.mem_union, Finset.mem_Ico]
        constructor
        · rintro (h | h)
          · omega
          · exact h
        · exact .inr
      have hrest := ih hps.of_cons htail
      rw [source_cons, Piece.source, hos, List.foldl_append, foldl_claim_of_overlapping hoverlap,
        hrest, maskedFrom, ← Finset.union_assoc, Finset.union_eq_left.mpr hstretch]

theorem maskedFrom_subset_maskOne (hr : r ≠ []) :
    maskedFrom i ps ⊆ maskedFrom i (maskOne ps r) := by
  rw [maskOne]
  induction ps using replace_induct (map_kept_ne_nil hr) generalizing i with
  | nil => exact Finset.empty_subset _
  | found ps ih =>
    rw [replace_append_self (map_kept_ne_nil hr), maskedFrom_map_kept_append]
    exact (ih (i := i + r.length)).trans Finset.subset_union_right
  | passed p ps h ih =>
    rw [replace_cons (map_kept_ne_nil hr) h]
    cases p with
    | kept a => exact ih (i := i + 1)
    | masked w => exact Finset.union_subset_union_right (ih (i := i + w.length))

theorem source_mask {rs : List (List α)} (hrs : ∀ r ∈ rs, r ≠ []) :
    source (mask ps rs) = source ps := by
  induction rs generalizing ps with
  | nil => rfl
  | cons r rs ih =>
    rw [mask, List.foldl_cons]
    exact (ih fun r hr => hrs r (List.mem_cons_of_mem _ hr)).trans
      (source_maskOne (hrs r List.mem_cons_self))

theorem proper_mask {rs : List (List α)} (hrs : ∀ r ∈ rs, r ≠ []) (hps : Proper ps) :
    Proper (mask ps rs) := by
  induction rs generalizing ps with
  | nil => exact hps
  | cons r rs ih =>
    exact ih (fun r hr => hrs r (List.mem_cons_of_mem _ hr))
      (proper_maskOne (hrs r List.mem_cons_self) hps)

theorem maskedFrom_mask {rs : List (List α)} (hrs : ∀ r ∈ rs, r ≠ []) (hps : Proper ps) :
    maskedFrom 0 (mask ps rs) = (occurrences rs (source ps)).foldl claim (maskedFrom 0 ps) := by
  induction rs generalizing ps with
  | nil => rfl
  | cons r rs ih =>
    have hr := hrs r List.mem_cons_self
    have hone := foldl_claim_occurrencesFrom (i := 0) hr hps fun j _ => Iff.rfl
    rw [Finset.union_eq_right.mpr (maskedFrom_subset_maskOne hr)] at hone
    have hrest := ih (fun r hr => hrs r (List.mem_cons_of_mem _ hr)) (proper_maskOne hr hps)
    rw [source_maskOne hr] at hrest
    rw [occurrences, List.flatMap_cons, List.foldl_append, hone]
    exact hrest

/-- **What is masked is what comes first.** -/
theorem maskedFrom_mask_map_kept {rs : List (List α)} (hrs : ∀ r ∈ rs, r ≠ []) (s : List α) :
    maskedFrom 0 (mask (s.map .kept) rs) = firstCome (occurrences rs s) := by
  have hnone : maskedFrom 0 (s.map Piece.kept) = ∅ := by
    have hkept : maskedFrom 0 (s.map Piece.kept ++ []) = maskedFrom (0 + s.length) [] :=
      maskedFrom_map_kept_append s
    rwa [List.append_nil, maskedFrom] at hkept
  rw [maskedFrom_mask hrs (proper_map_kept s), hnone, source_map_kept, firstCome]

end Occurrences

/-! ## Texts with their covered stretches masked -/

/-- From position `i` on, the second text is the first one with one marker or more in place of
every stretch of covered positions. -/
inductive Masked (marker : List α) (covered : Nat → Prop) : Nat → List α → List α → Prop where
  | nil {i : Nat} : Masked marker covered i [] []
  | kept {i : Nat} {a : α} {s out : List α} (h : ¬ covered i)
    (rest : Masked marker covered (i + 1) s out) : Masked marker covered i (a :: s) (a :: out)
  | marked {i n : Nat} {w s out : List α} (hw : w ≠ [])
    (h : ∀ j, i ≤ j → j < i + w.length → covered j)
    (rest : Masked marker covered (i + w.length) s out) :
    Masked marker covered i (w ++ s) ((List.replicate (n + 1) marker).flatten ++ out)

theorem masked_shown {marker : List α} {covered : Nat → Prop} {ps : List (Piece α)} {i : Nat}
    (hps : Proper ps) (h : ∀ j, i ≤ j → (covered j ↔ j ∈ maskedFrom i ps)) :
    Masked marker covered i (source ps) (shown marker ps) := by
  induction ps generalizing i with
  | nil => exact .nil
  | cons p ps ih =>
    cases p with
    | kept a =>
      refine .kept ?_ (ih hps.of_cons fun j hj => h j (by omega))
      intro hcovered
      have hin : i ∈ maskedFrom (i + 1) ps := (h i le_rfl).mp hcovered
      have hle := le_of_mem_maskedFrom hin
      omega
    | masked w =>
      have hone : (List.replicate (0 + 1) marker).flatten = marker := by simp
      have hmarked : Masked marker covered i (w ++ source ps)
          ((List.replicate (0 + 1) marker).flatten ++ shown marker ps) := by
        refine .marked (hps w List.mem_cons_self) ?_ (ih hps.of_cons ?_)
        · exact fun j hle hlt =>
            (h j hle).mpr (Finset.mem_union_left _ (Finset.mem_Ico.mpr ⟨hle, hlt⟩))
        · intro j hj
          rw [h j (by omega), maskedFrom, Finset.mem_union, Finset.mem_Ico]
          constructor
          · rintro (hin | hin)
            · omega
            · exact hin
          · exact .inr
      rwa [hone] at hmarked


section Survivors
variable [DecidableEq α] {marker : List α}

/-- How many elements are neither covered nor of the marker, from position `i` on. -/
def survivors (marker : List α) (covered : Nat → Prop) [DecidablePred covered] (i : Nat) :
    List α → Nat
  | [] => 0
  | a :: s => (if covered i ∨ a ∈ marker then 0 else 1) + survivors marker covered (i + 1) s

variable {covered covered' : Nat → Prop} [DecidablePred covered] [DecidablePred covered']

theorem survivors_append {w s : List α} {i : Nat} (h : ∀ j, i ≤ j → j < i + w.length → covered j) :
    survivors marker covered i (w ++ s) = survivors marker covered (i + w.length) s := by
  induction w generalizing i with
  | nil => rfl
  | cons a w ih =>
    have hlength : i + 1 + w.length = i + (a :: w).length := by rw [List.length_cons]; omega
    rw [List.cons_append, survivors,
      if_pos (.inl (h i le_rfl (by rw [List.length_cons]; omega))), Nat.zero_add,
      ih fun j hle hlt => h j (by omega) (by omega), hlength]

/-- They can be counted in the masked text. -/
theorem Masked.countP_eq {i : Nat} {s out : List α} (h : Masked marker covered i s out) :
    out.countP (· ∉ marker) = survivors marker covered i s := by
  induction h with
  | nil => rfl
  | @kept i a s out hnot rest ih =>
    rw [List.countP_cons, ih, survivors, Nat.add_comm]
    simp [hnot]
  | @marked i n w s out hw hcovered rest ih =>
    have hnone : (List.replicate (n + 1) marker).flatten.countP (· ∉ marker) = 0 := by
      rw [List.countP_eq_zero]
      intro a ha
      obtain ⟨l, hl, hal⟩ := List.mem_flatten.mp ha
      rw [List.eq_of_mem_replicate hl] at hal
      simp [hal]
    rw [List.countP_append, hnone, ih, Nat.zero_add, survivors_append hcovered]

variable (marker) in
theorem survivor_le (h : ∀ j, covered' j → covered j) (a : α) (i : Nat) :
    (if covered i ∨ a ∈ marker then 0 else 1) ≤ if covered' i ∨ a ∈ marker then 0 else 1 := by
  by_cases hi : covered i ∨ a ∈ marker
  · rw [if_pos hi]
    exact Nat.zero_le _
  · rw [if_neg hi, if_neg fun hi' => hi (hi'.imp_left (h i))]

variable (marker) in
theorem survivors_le (h : ∀ j, covered' j → covered j) (s : List α) (i : Nat) :
    survivors marker covered i s ≤ survivors marker covered' i s := by
  induction s generalizing i with
  | nil => exact Nat.le_refl 0
  | cons a s ih => exact Nat.add_le_add (survivor_le marker h a i) (ih (i + 1))

/-- If no more of them survive, what is covered is so by the lesser of the two. -/
theorem covered_of_survivors_eq {s : List α} {i : Nat} (h : ∀ j, covered' j → covered j)
    (heq : survivors marker covered i s = survivors marker covered' i s) :
    ∀ n (hn : n < s.length), s[n] ∉ marker → covered (i + n) → covered' (i + n) := by
  induction s generalizing i with
  | nil => exact fun n hn => absurd hn (Nat.not_lt_zero n)
  | cons a s ih =>
    have hhead := survivor_le marker h a i
    have hrest := survivors_le marker h s (i + 1)
    rw [survivors, survivors] at heq
    intro n hn hnot hcovered
    cases n with
    | zero =>
      by_contra hnot'
      have hnone : ¬ (covered' i ∨ a ∈ marker) := not_or.mpr ⟨hnot', hnot⟩
      rw [if_pos (.inl hcovered), if_neg hnone] at heq
      omega
    | succ n =>
      rw [← Nat.add_assoc, Nat.add_right_comm] at hcovered ⊢
      exact ih (by omega) n (Nat.lt_of_succ_lt_succ hn) hnot hcovered

end Survivors

/-! ## Replacing in the text itself -/

/-- Where the shown text has `r`, these are kept elements: no marker takes part. -/
def Untouched (marker : List α) (ps : List (Piece α)) (r : List α) : Prop :=
  ∀ before after, shown marker ps = before ++ r ++ after →
    ∃ ps₁ ps₂, ps = ps₁ ++ r.map .kept ++ ps₂ ∧ shown marker ps₁ = before

section Text
variable {marker r : List α} {ps : List (Piece α)}

theorem kept_prefix_of_disjoint (hmarker : marker ≠ []) (hdisjoint : ∀ a ∈ r, a ∉ marker)
    (h : r <+: shown marker ps) : r.map .kept <+: ps := by
  induction r generalizing ps with
  | nil => exact List.nil_prefix
  | cons a r ih =>
    cases ps with
    | nil => exact absurd (List.prefix_nil.mp h) (List.cons_ne_nil a r)
    | cons p ps =>
      cases p with
      | kept b =>
        obtain ⟨rfl, hr⟩ := List.cons_prefix_cons.mp (h : a :: r <+: b :: shown marker ps)
        exact List.cons_prefix_cons.mpr
          ⟨rfl, ih (fun a ha => hdisjoint a (List.mem_cons_of_mem _ ha)) hr⟩
      | masked w =>
        obtain ⟨b, marker', rfl⟩ := List.exists_cons_of_ne_nil hmarker
        obtain ⟨rfl, -⟩ :=
          List.cons_prefix_cons.mp (h : a :: r <+: b :: (marker' ++ shown (b :: marker') ps))
        exact absurd List.mem_cons_self (hdisjoint a List.mem_cons_self)

theorem untouched_of_disjoint (hmarker : marker ≠ []) (hr : r ≠ [])
    (hdisjoint : ∀ a ∈ r, a ∉ marker) : Untouched marker ps r := by
  intro before after h
  induction ps generalizing before with
  | nil =>
    have hempty := List.append_eq_nil_iff.mp (List.append_eq_nil_iff.mp h.symm).1
    exact absurd hempty.2 hr
  | cons p ps ih =>
    cases before with
    | nil =>
      obtain ⟨ps₂, hps₂⟩ := kept_prefix_of_disjoint hmarker hdisjoint ⟨after, h.symm⟩
      exact ⟨[], ps₂, hps₂.symm, rfl⟩
    | cons c before =>
      cases p with
      | kept b =>
        obtain ⟨rfl, hrest⟩ :=
          List.cons.inj (h : b :: shown marker ps = c :: (before ++ r ++ after))
        obtain ⟨ps₁, ps₂, rfl, hps₁⟩ := ih before hrest
        exact ⟨.kept b :: ps₁, ps₂, rfl, congrArg (b :: ·) hps₁⟩
      | masked w =>
        rw [shown_cons, Piece.shown, List.append_assoc] at h
        rcases List.append_eq_append_iff.mp h with
          ⟨between, hbefore, hrest⟩ | ⟨between, hshown, hrest⟩
        · obtain ⟨ps₁, ps₂, rfl, hps₁⟩ := ih between (by rw [hrest, List.append_assoc])
          exact ⟨.masked w :: ps₁, ps₂, rfl, by rw [shown_cons, hps₁, hbefore]; rfl⟩
        · cases between with
          | nil =>
            obtain ⟨ps₁, ps₂, rfl, hps₁⟩ := ih [] hrest.symm
            refine ⟨.masked w :: ps₁, ps₂, rfl, ?_⟩
            rw [shown_cons, hps₁, Piece.shown, hshown, List.append_nil, List.append_nil]
          | cons a between =>
            obtain ⟨b, r', rfl⟩ := List.exists_cons_of_ne_nil hr
            obtain ⟨rfl, -⟩ :=
              List.cons.inj (hrest : b :: (r' ++ after) = a :: (between ++ shown marker ps))
            refine absurd ?_ (hdisjoint b List.mem_cons_self)
            rw [hshown]
            exact List.mem_append_right _ List.mem_cons_self

/-- A prefix of the pieces is found by what it shows. -/
theorem eq_of_shown_eq (hmarker : marker ≠ []) {ps₁ ps₂ qs₁ qs₂ : List (Piece α)}
    (h : ps₁ ++ qs₁ = ps₂ ++ qs₂) (hshown : shown marker ps₁ <+: shown marker ps₂) :
    ∃ between, ps₂ = ps₁ ++ between ∧ qs₁ = between ++ qs₂ := by
  rcases List.append_eq_append_iff.mp h with ⟨between, hps₂, hqs₁⟩ | ⟨between, hps₁, hqs₂⟩
  · exact ⟨between, hps₂, hqs₁⟩
  · cases between with
    | nil => exact ⟨[], by rw [hps₁, List.append_nil, List.append_nil], hqs₂.symm⟩
    | cons p between =>
      have hle := hshown.length_le
      have hpos := length_shown_pos hmarker p
      rw [hps₁, shown_append, shown_cons, List.length_append, List.length_append] at hle
      omega

theorem Untouched.of_append (hmarker : marker ≠ []) {ps₁ : List (Piece α)}
    (h : Untouched marker (ps₁ ++ ps) r) : Untouched marker ps r := by
  intro before after hps
  obtain ⟨qs₁, qs₂, hqs, hbefore⟩ :=
    h (shown marker ps₁ ++ before) after (by rw [shown_append, hps]; simp only [List.append_assoc])
  rw [List.append_assoc] at hqs
  obtain ⟨between, rfl, hrest⟩ :=
    eq_of_shown_eq hmarker hqs (hbefore ▸ List.prefix_append _ _)
  rw [shown_append] at hbefore
  exact ⟨between, qs₂, by rw [hrest, List.append_assoc], List.append_cancel_left hbefore⟩

variable [DecidableEq α]

/-- Replacing in the shown text masks the pieces. -/
theorem shown_maskOne (hmarker : marker ≠ []) (hr : r ≠ []) (h : Untouched marker ps r) :
    shown marker (maskOne ps r) = replace r marker (shown marker ps) := by
  rw [maskOne]
  induction ps using replace_induct (map_kept_ne_nil hr) with
  | nil => rw [replace_nil (map_kept_ne_nil hr), shown_nil, replace_nil hr]
  | found ps ih =>
    rw [replace_append_self (map_kept_ne_nil hr), shown_append, shown_append, shown_map_kept,
      replace_append_self hr, ih (h.of_append hmarker), shown_cons, shown_nil, List.append_nil,
      Piece.shown]
  | passed p ps hpassed ih =>
    have htail : Untouched marker ps r :=
      Untouched.of_append hmarker (show Untouched marker ([p] ++ ps) r from h)
    have hrest := ih htail
    rw [replace_cons (map_kept_ne_nil hr) hpassed, shown_cons, shown_cons, hrest]
    refine (replace_append_passed hr marker fun n hn hstart => ?_).symm
    obtain ⟨after, hafter⟩ := hstart
    obtain ⟨ps₁, ps₂, hps, hbefore⟩ := h ((p.shown marker).take n) after (by
      rw [shown_cons, List.append_assoc, hafter, ← List.append_assoc, List.take_append_drop])
    -- the occurrence starts within the first piece, so the pieces before it are none
    cases ps₁ with
    | nil => exact hpassed (hps ▸ List.prefix_append _ _)
    | cons q ps₁ =>
      obtain ⟨rfl, -⟩ := List.cons.inj (hps : p :: ps = q :: (ps₁ ++ r.map .kept ++ ps₂))
      have hlength := congrArg List.length hbefore
      rw [shown_cons, List.length_append, List.length_take] at hlength
      omega

/-- None of the texts is found where a marker takes part. -/
def UntouchedBy (marker : List α) (ps : List (Piece α)) : List (List α) → Prop
  | [] => True
  | r :: rs => Untouched marker ps r ∧ UntouchedBy marker (maskOne ps r) rs

theorem untouchedBy_of_disjoint {rs : List (List α)} (hmarker : marker ≠ [])
    (hrs : ∀ r ∈ rs, r ≠ []) (hdisjoint : ∀ r ∈ rs, ∀ a ∈ r, a ∉ marker) :
    UntouchedBy marker ps rs := by
  induction rs generalizing ps with
  | nil => trivial
  | cons r rs ih =>
    exact ⟨untouched_of_disjoint hmarker (hrs r List.mem_cons_self)
        (hdisjoint r List.mem_cons_self),
      ih (fun r hr => hrs r (List.mem_cons_of_mem _ hr))
        fun r hr => hdisjoint r (List.mem_cons_of_mem _ hr)⟩

theorem shown_mask {rs : List (List α)} (hmarker : marker ≠ []) (hrs : ∀ r ∈ rs, r ≠ [])
    (h : UntouchedBy marker ps rs) :
    shown marker (mask ps rs) = rs.foldl (fun s r => replace r marker s) (shown marker ps) := by
  induction rs generalizing ps with
  | nil => rfl
  | cons r rs ih =>
    rw [mask, List.foldl_cons, List.foldl_cons,
      ← shown_maskOne hmarker (hrs r List.mem_cons_self) h.1]
    exact ih (fun r hr => hrs r (List.mem_cons_of_mem _ hr)) h.2

end Text

/-! ## When everything is masked -/

/-- The position lies in an occurrence of one of the texts. -/
def Covered (rs : List (List α)) (s : List α) (j : Nat) : Prop :=
  ∃ r ∈ rs, ∃ p, r <+: s.drop p ∧ p ≤ j ∧ j < p + r.length

section Covered
variable [DecidableEq α] {marker s : List α} {rs : List (List α)} {j : Nat}

theorem covered_iff : Covered rs s j ↔ ∃ o ∈ occurrences rs s, j ∈ o := by
  simp only [Covered, occurrences, List.mem_flatMap, mem_occurrencesFrom]
  constructor
  · rintro ⟨r, hr, p, hstart, hle, hlt⟩
    have hlength := hstart.length_le
    rw [List.length_drop] at hlength
    exact ⟨_, ⟨r, hr, p, by omega, hstart, rfl⟩, Finset.mem_Ico.mpr ⟨by omega, by omega⟩⟩
  · rintro ⟨o, ⟨r, hr, p, hp, hstart, rfl⟩, hj⟩
    have hin := Finset.mem_Ico.mp hj
    exact ⟨r, hr, p, hstart, by omega, by omega⟩

theorem exists_of_mem_foldl_claim {os : List (Finset Nat)} {taken : Finset Nat}
    (hj : j ∈ os.foldl claim taken) : j ∈ taken ∨ ∃ o ∈ os, j ∈ o := by
  induction os generalizing taken with
  | nil => exact .inl hj
  | cons o os ih =>
    rcases ih hj with h | ⟨o', ho', hin⟩
    · rw [claim] at h
      split at h
      · rcases Finset.mem_union.mp h with h | h
        · exact .inl h
        · exact .inr ⟨o, List.mem_cons_self, h⟩
      · exact .inl h
    · exact .inr ⟨o', List.mem_cons_of_mem _ ho', hin⟩

theorem covered_of_mem_firstCome (hj : j ∈ firstCome (occurrences rs s)) : Covered rs s j := by
  rcases exists_of_mem_foldl_claim hj with h | h
  · exact absurd h (Finset.notMem_empty j)
  · exact covered_iff.mpr h

/-- Every position of an occurrence belongs to one that comes first. -/
def AllFirstCome (rs : List (List α)) (s : List α) : Prop :=
  ∀ o ∈ occurrences rs s, o ⊆ firstCome (occurrences rs s)

instance : Decidable (AllFirstCome rs s) :=
  inferInstanceAs (Decidable (∀ o ∈ occurrences rs s, o ⊆ firstCome (occurrences rs s)))

theorem allFirstCome_iff :
    AllFirstCome rs s ↔ ∀ j, Covered rs s j → j ∈ firstCome (occurrences rs s) := by
  constructor
  · intro h j hj
    obtain ⟨o, ho, hmem⟩ := covered_iff.mp hj
    exact h o ho hmem
  · exact fun h o ho j hj => h j (covered_iff.mpr ⟨o, ho, hj⟩)

/-- Then every covered position is masked, if no marker takes part in an occurrence. -/
theorem masked_of_allFirstCome (hmarker : marker ≠ []) (hrs : ∀ r ∈ rs, r ≠ [])
    (htouch : UntouchedBy marker (s.map .kept) rs)
    (hall : AllFirstCome rs s) :
    Masked marker (Covered rs s) 0 s (rs.foldl (fun s r => replace r marker s) s) := by
  have hshown := shown_mask hmarker hrs htouch
  have hmasked : Masked marker (Covered rs s) 0 (source (mask (s.map .kept) rs))
      (shown marker (mask (s.map .kept) rs)) :=
    masked_shown (proper_mask hrs (proper_map_kept s)) fun j _ => by
      rw [maskedFrom_mask_map_kept hrs]
      exact ⟨allFirstCome_iff.mp hall j, covered_of_mem_firstCome⟩
  rwa [source_mask hrs, source_map_kept, hshown, shown_map_kept] at hmasked

/-- And only then, if the texts have nothing of the marker: the elements that survive are
counted. -/
theorem allFirstCome_of_masked (hmarker : marker ≠ []) (hrs : ∀ r ∈ rs, r ≠ [])
    (hdisjoint : ∀ r ∈ rs, ∀ a ∈ r, a ∉ marker)
    (h : Masked marker (Covered rs s) 0 s (rs.foldl (fun s r => replace r marker s) s)) :
    AllFirstCome rs s := by
  classical
  rw [allFirstCome_iff]
  have htouch : UntouchedBy marker (s.map .kept) rs :=
    untouchedBy_of_disjoint hmarker hrs hdisjoint
  have hshown := shown_mask hmarker hrs htouch
  rw [shown_map_kept] at hshown
  have hmasked : Masked marker (· ∈ firstCome (occurrences rs s)) 0
      (source (mask (s.map .kept) rs)) (shown marker (mask (s.map .kept) rs)) :=
    masked_shown (proper_mask hrs (proper_map_kept s)) fun j _ => by
      rw [maskedFrom_mask_map_kept hrs]
  rw [source_mask hrs, source_map_kept, hshown] at hmasked
  have hcount := h.countP_eq.symm.trans hmasked.countP_eq
  rintro j ⟨r, hr, p, hstart, hle, hlt⟩
  have hlength := hstart.length_le
  rw [List.length_drop] at hlength
  have hj : j < s.length := by omega
  have hmem : s[j] ∈ r := by
    obtain ⟨t, ht⟩ := hstart
    have hget : (s.drop p)[j - p]? = some s[j] := by
      rw [List.getElem?_drop, Nat.add_sub_cancel' hle, List.getElem?_eq_getElem hj]
    rw [← ht, List.getElem?_append_left (by omega)] at hget
    exact List.mem_of_getElem? hget
  have htaken := covered_of_survivors_eq (fun j => covered_of_mem_firstCome) hcount j hj
    (hdisjoint r hr _ hmem)
  rw [Nat.zero_add] at htaken
  exact htaken ⟨r, hr, p, hstart, hle, hlt⟩

end Covered

end SchedulingUtil.Lib.Masking
