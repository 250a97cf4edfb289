import Mathlib.Data.List.Basic

/-! # Machines that answer their inputs

A machine answers each input and goes on in its next state. Two machines that answer alike in
related states, and stay related, answer alike for ever; what the inputs have to keep to may
depend on those before them. -/
namespace SchedulingUtil.Lib

abbrev Machine (σ ι ο : Type) := σ → ι → ο × σ

variable {γ σ τ ι ο : Type}

namespace Machine

def answers (m : Machine σ ι ο) : σ → List ι → List ο
  | _, [] => []
  | s, i :: is => (m s i).1 :: answers m (m s i).2 is

def reached (m : Machine σ ι ο) (s : σ) (is : List ι) : σ := is.foldl (fun s i => (m s i).2) s

end Machine

/-- Inputs one of which is allowed after the other. -/
inductive Fed (allowed : γ → ι → γ → Prop) : γ → List ι → γ → Prop where
  | nil {g : γ} : Fed allowed g [] g
  | cons {g g' g'' : γ} {i : ι} {is : List ι} (h : allowed g i g') (hs : Fed allowed g' is g'') :
    Fed allowed g (i :: is) g''

/-- Related states answer an allowed input alike, and the next ones are related. -/
def Simulates (allowed : γ → ι → γ → Prop) (R : γ → σ → τ → Prop) (m : Machine σ ι ο)
    (n : Machine τ ι ο) : Prop :=
  ∀ ⦃g g' : γ⦄ ⦃s : σ⦄ ⦃t : τ⦄ ⦃i : ι⦄, R g s t → allowed g i g' →
    (m s i).1 = (n t i).1 ∧ R g' (m s i).2 (n t i).2

theorem Simulates.run {allowed : γ → ι → γ → Prop} {R : γ → σ → τ → Prop} {m : Machine σ ι ο}
    {n : Machine τ ι ο} (h : Simulates allowed R m n) {g g' : γ} {is : List ι}
    (hfed : Fed allowed g is g') {s : σ} {t : τ} (hR : R g s t) :
    m.answers s is = n.answers t is ∧ R g' (m.reached s is) (n.reached t is) := by
  induction hfed generalizing s t with
  | nil => exact ⟨rfl, hR⟩
  | cons hi _ ih =>
    obtain ⟨hanswer, hnext⟩ := h hR hi
    obtain ⟨hanswers, hreached⟩ := ih hnext
    exact ⟨congrArg₂ List.cons hanswer hanswers, hreached⟩

end SchedulingUtil.Lib
