import Mathlib.Data.List.Induction

/-! # Executions of a labelled transition system

An execution records the steps it takes, each with the state it is taken in.
The rules: an invariant of the steps holds in every state reached; what only
some steps can end holds until one of them is taken; what a rank bounds is
taken before too many steps have counted. -/
namespace SchedulingUtil.Lib

variable {S L : Type*}

/-- From a state, over the steps of the list, to a state. -/
inductive Execution (step : S → L → S → Prop) (s : S) : List (S × L) → S → Prop where
  | refl : Execution step s [] s
  | snoc {s' s'' : S} {l : L} {steps : List (S × L)} (h : Execution step s steps s')
      (hl : step s' l s'') : Execution step s (steps ++ [(s', l)]) s''

namespace Execution

variable {step : S → L → S → Prop} {s s' s'' : S} {l : L} {steps steps' : List (S × L)}

theorem single (h : step s l s') : Execution step s [(s, l)] s' := .snoc .refl h

theorem trans (h : Execution step s steps s') (h' : Execution step s' steps' s'') :
    Execution step s (steps ++ steps') s'' := by
  induction h' with
  | refl => rwa [List.append_nil]
  | snoc _ hl ih => rw [← List.append_assoc]; exact .snoc ih hl

theorem cons (hl : step s l s') (h : Execution step s' steps s'') :
    Execution step s ((s, l) :: steps) s'' := (single hl).trans h

theorem eq_of_nil (h : Execution step s [] s') : s' = s := by
  generalize hnil : ([] : List (S × L)) = steps at h
  cases h with
  | refl => rfl
  | snoc => simp at hnil

theorem of_snoc {x : S × L} (h : Execution step s (steps ++ [x]) s'') :
    Execution step s steps x.1 ∧ step x.1 x.2 s'' := by
  generalize hx : steps ++ [x] = all at h
  cases h with
  | refl => simp at hx
  | snoc h hl =>
    obtain ⟨rfl, rfl⟩ := List.append_inj' hx rfl |>.imp id List.singleton_inj.mp
    exact ⟨h, hl⟩

theorem split (h : Execution step s (steps ++ steps') s'') :
    ∃ s', Execution step s steps s' ∧ Execution step s' steps' s'' := by
  induction steps' using List.reverseRecOn generalizing s'' with
  | nil => exact ⟨s'', by rwa [List.append_nil] at h, .refl⟩
  | append_singleton steps' x ih =>
    rw [← List.append_assoc] at h
    obtain ⟨h, hl⟩ := of_snoc h
    obtain ⟨s', h₁, h₂⟩ := ih h
    exact ⟨s', h₁, .snoc h₂ hl⟩

theorem of_cons {x : S × L} (h : Execution step s (x :: steps) s'') :
    x.1 = s ∧ ∃ s', step s x.2 s' ∧ Execution step s' steps s'' := by
  rw [← List.singleton_append] at h
  obtain ⟨s', h₁, h₂⟩ := split h
  rw [← List.nil_append [x]] at h₁
  obtain ⟨h₀, hl⟩ := of_snoc h₁
  obtain rfl := eq_of_nil h₀
  exact ⟨rfl, s', hl, h₂⟩

/-- The step in the middle of an execution. -/
theorem middle {x : S × L} (h : Execution step s (steps ++ x :: steps') s'') :
    Execution step s steps x.1 ∧ ∃ s', step x.1 x.2 s' ∧ Execution step s' steps' s'' := by
  obtain ⟨s', h₁, h₂⟩ := split h
  obtain ⟨rfl, h₂⟩ := of_cons h₂
  exact ⟨h₁, h₂⟩

theorem step_of_mem {x : S × L} (h : Execution step s steps s') (hx : x ∈ steps) :
    ∃ s', step x.1 x.2 s' := by
  obtain ⟨a, b, rfl⟩ := List.append_of_mem hx
  obtain ⟨-, s', hl, -⟩ := h.middle
  exact ⟨s', hl⟩

/-- **Determinism rule.** Where no state leaves a choice, an execution to a state without
a step begins with every other one. -/
theorem prefix_of_deterministic
    (hdet : ∀ u l v k w, step u l v → step u k w → l = k ∧ v = w)
    (h : Execution step s steps s') (hstuck : ∀ l v, ¬ step s' l v)
    (h' : Execution step s steps' s'') : steps' <+: steps := by
  have htarget : ∀ {steps u v}, Execution step s steps u → Execution step s steps v → u = v := by
    intro steps u v hu hv
    induction hu with
    | refl => exact hv.eq_of_nil.symm
    | snoc hu hl ih => exact (hdet _ _ _ _ _ hl hv.of_snoc.2).2
  induction h' with
  | refl => exact List.nil_prefix
  | @snoc u v l steps' hbefore hl ih =>
    obtain ⟨rest, rfl⟩ := ih
    obtain ⟨m, hm, hrest⟩ := h.split
    obtain rfl := htarget hm hbefore
    cases rest with
    | nil =>
      obtain rfl := hrest.eq_of_nil
      exact absurd hl (hstuck l v)
    | cons x rest =>
      obtain ⟨rfl, w, hx, -⟩ := hrest.of_cons
      obtain ⟨rfl, -⟩ := hdet _ _ _ _ _ hl hx
      exact ⟨rest, by rw [List.append_assoc, List.singleton_append]⟩

/-- **Invariant rule.** -/
theorem invariant {P : S → Prop} (hstep : ∀ u l v, P u → step u l v → P v)
    (h : Execution step s steps s') (hs : P s) : P s' := by
  induction h with
  | refl => exact hs
  | snoc _ hl ih => exact hstep _ _ _ ih hl

/-- **Flag rule.** An invariant that depends on whether a step with the label `f` has
been taken. -/
theorem flag {P : Bool → S → Prop} {f : L → Bool}
    (hstep : ∀ b u l v, P b u → step u l v → P (b || f l) v)
    (h : Execution step s steps s') (hs : P false s) : P (steps.any fun x => f x.2) s' := by
  induction h with
  | refl => exact hs
  | snoc _ hl ih =>
    rw [List.any_append, List.any_cons, List.any_nil, Bool.or_false]
    exact hstep _ _ _ _ ih hl

/-- **Until rule.** What every step outside `Q` preserves holds at the end, or a
step of `Q` has been taken. -/
theorem holds_until {P : S → Prop} {Q : S × L → Prop}
    (hstep : ∀ u l v, P u → step u l v → Q (u, l) ∨ P v)
    (h : Execution step s steps s') (hs : P s) : (∃ x ∈ steps, Q x) ∨ P s' := by
  induction h with
  | refl => exact .inr hs
  | snoc _ hl ih =>
    rcases ih with ⟨x, hx, hq⟩ | hp
    · exact .inl ⟨x, List.mem_append_left _ hx, hq⟩
    · rcases hstep _ _ _ hp hl with hq | hp'
      · exact .inl ⟨_, List.mem_append_right _ (.head _), hq⟩
      · exact .inr hp'

/-- **Progress rule.** Up to the first step of `Q` the property `P` holds, and
every step that counts has lowered the rank. -/
theorem progress {P : S → Prop} {Q : S × L → Prop} {counts : L → Bool} {rank : S → Nat}
    (hstep : ∀ u l v, P u → step u l v →
      Q (u, l) ∨ P v ∧ rank v + (if counts l then 1 else 0) ≤ rank u)
    (h : Execution step s steps s') (hs : P s) :
    (∃ a x b, steps = a ++ x :: b ∧ Q x ∧ (∀ y ∈ a, P y.1) ∧ P x.1 ∧
      rank x.1 + a.countP (fun x => counts x.2) ≤ rank s) ∨
    (∀ y ∈ steps, P y.1) ∧ P s' ∧ rank s' + steps.countP (fun x => counts x.2) ≤ rank s := by
  induction h with
  | refl => exact .inr ⟨by simp, hs, by simp⟩
  | snoc _ hl ih =>
    rcases ih with ⟨a, x, b, rfl, hq, ha, hx, hle⟩ | ⟨hall, hp, hle⟩
    · exact .inl ⟨a, x, b ++ [_], List.append_assoc .., hq, ha, hx, hle⟩
    · rcases hstep _ _ _ hp hl with hq | ⟨hp', hle'⟩
      · exact .inl ⟨_, _, [], rfl, hq, hall, hp, hle⟩
      · refine .inr ⟨?_, hp', ?_⟩
        · intro y hy
          rcases List.mem_append.mp hy with hy | hy
          · exact hall y hy
          · rw [List.mem_singleton.mp hy]
            exact hp
        · rw [List.countP_append, List.countP_singleton]
          dsimp only
          omega

end Execution

end SchedulingUtil.Lib
