import Mathlib.Data.List.Infix

/-! # Programs that record what they do

A program does things in order and ends with a value or with an exception. The rules say
which of its effects such a program has done by then: a bind or a handler adds the effects
of its second part behind those of the first. -/
namespace SchedulingUtil.Lib

/-- The exception that leaves a call. -/
def raised? {ε α : Type} : Except ε α → Option ε
  | .ok _ => none
  | .error e => some e

structure Traced (η ε α : Type) where
  effects : List η
  result : Except ε α

namespace Traced
variable {η ε α β : Type}

/-- A call that is recorded, whether it raises or not. -/
def call (effect : η) (result : Except ε α) : Traced η ε α := ⟨[effect], result⟩

def emit (effect : η) : Traced η ε Unit := call effect (.ok ())

def lift (result : Except ε α) : Traced η ε α := ⟨[], result⟩

def raise (e : ε) : Traced η ε α := lift (.error e)

/-- `try … except … else`: either way on is outside the guarded part. -/
def orElse (m : Traced η ε α) (handler : ε → Traced η ε β) (next : α → Traced η ε β) :
    Traced η ε β :=
  match m.result with
  | .ok a => ⟨m.effects ++ (next a).effects, (next a).result⟩
  | .error e => ⟨m.effects ++ (handler e).effects, (handler e).result⟩

instance : Monad (Traced η ε) where
  pure a := lift (.ok a)
  bind m f := m.orElse raise f

variable {m : Traced η ε α} {handler : ε → Traced η ε β} {next : α → Traced η ε β}

theorem orElse_of_ok {a : α} (h : m.result = .ok a) :
    m.orElse handler next = ⟨m.effects ++ (next a).effects, (next a).result⟩ := by
  simp only [orElse, h]

theorem orElse_of_error {e : ε} (h : m.result = .error e) :
    m.orElse handler next = ⟨m.effects ++ (handler e).effects, (handler e).result⟩ := by
  simp only [orElse, h]

theorem bind_of_ok {a : α} (h : m.result = .ok a) :
    m >>= next = ⟨m.effects ++ (next a).effects, (next a).result⟩ := orElse_of_ok h

theorem bind_of_error {e : ε} (h : m.result = .error e) : m >>= next = ⟨m.effects, .error e⟩ := by
  rw [show m >>= next = _ from orElse_of_error h, raise, lift, List.append_nil]

theorem bind_eq_ok {b : β} :
    (m >>= next).result = .ok b ↔ ∃ a, m.result = .ok a ∧ (next a).result = .ok b := by
  cases h : m.result with
  | ok a => simp [bind_of_ok h]
  | error e => simp [bind_of_error h]

/-! ## Stopping at the first failure -/

/-- Effects of which some fail: a failure is tolerated, or the program ends with it. -/
def Stops (failure : η → Option ε) (tolerated : η → ε → Prop) (m : Traced η ε α) : Prop :=
  match m.result with
  | .ok _ => ∀ x ∈ m.effects, ∀ e, failure x = some e → tolerated x e
  | .error e => ∃ before x, m.effects = before ++ [x] ∧
      (∀ y ∈ before, ∀ e, failure y = some e → tolerated y e) ∧
      failure x = some e ∧ ¬ tolerated x e

variable {failure : η → Option ε} {tolerated : η → ε → Prop}

theorem stops_of_ok {a : α} (h : m.result = .ok a) :
    m.Stops failure tolerated ↔ ∀ x ∈ m.effects, ∀ e, failure x = some e → tolerated x e := by
  rw [Stops, h]

theorem stops_of_error {e : ε} (h : m.result = .error e) :
    m.Stops failure tolerated ↔ ∃ before x, m.effects = before ++ [x] ∧
      (∀ y ∈ before, ∀ e, failure y = some e → tolerated y e) ∧
      failure x = some e ∧ ¬ tolerated x e := by
  rw [Stops, h]

theorem stops_pure (a : α) : (pure a : Traced η ε α).Stops failure tolerated := by
  intro x hx
  cases hx

theorem stops_emit {x : η} (h : failure x = none) :
    (emit x : Traced η ε Unit).Stops failure tolerated := by
  intro y hy e he
  rw [List.mem_singleton.mp hy, h] at he
  cases he

/-- What has gone well may stand in front. -/
theorem Stops.after {effects : List η}
    (h : ∀ x ∈ effects, ∀ e, failure x = some e → tolerated x e)
    (hm : m.Stops failure tolerated) :
    (⟨effects ++ m.effects, m.result⟩ : Traced η ε α).Stops failure tolerated := by
  cases hr : m.result with
  | ok a =>
    intro x hx
    rcases List.mem_append.mp hx with hx | hx
    · exact h x hx
    · exact (stops_of_ok hr).mp hm x hx
  | error e =>
    obtain ⟨before, x, heffects, hbefore, hfails⟩ := (stops_of_error hr).mp hm
    refine ⟨effects ++ before, x, by rw [heffects, List.append_assoc], ?_, hfails⟩
    intro y hy
    rcases List.mem_append.mp hy with hy | hy
    · exact h y hy
    · exact hbefore y hy

theorem Stops.bind (hm : m.Stops failure tolerated)
    (hnext : ∀ a, m.result = .ok a → (next a).Stops failure tolerated) :
    (m >>= next).Stops failure tolerated := by
  cases h : m.result with
  | ok a =>
    rw [bind_of_ok h]
    exact .after ((stops_of_ok h).mp hm) (hnext a h)
  | error e =>
    rw [bind_of_error h]
    exact (stops_of_error h).mp hm

/-- A guarded call whose handler knows which failures are tolerated: it goes on after those,
and raises the others again. -/
theorem Stops.orElse_call {x : η} {r : Except ε α} (hx : failure x = raised? r)
    (hnext : ∀ a, r = .ok a → (next a).Stops failure tolerated)
    (hhandler : ∀ e, r = .error e → tolerated x e → (handler e).Stops failure tolerated)
    (hraise : ∀ e, r = .error e → ¬ tolerated x e → handler e = raise e) :
    ((call x r).orElse handler next).Stops failure tolerated := by
  cases r with
  | ok a =>
    rw [orElse_of_ok (m := call x (.ok a)) rfl]
    refine .after ?_ (hnext a rfl)
    intro y hy e he
    rw [List.mem_singleton.mp hy, hx] at he
    cases he
  | error e =>
    rw [orElse_of_error (m := call x (.error e)) rfl]
    by_cases ht : tolerated x e
    · refine .after ?_ (hhandler e rfl ht)
      intro y hy e' he'
      obtain rfl := List.mem_singleton.mp hy
      obtain rfl : e = e' := by simpa [hx, raised?] using he'
      exact ht
    · rw [hraise e rfl ht]
      exact ⟨[], x, rfl, by simp, hx, ht⟩

end Traced

end SchedulingUtil.Lib
