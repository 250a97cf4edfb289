import Mathlib.Algebra.Order.Group.Basic
import Mathlib.Data.List.Induction

/-! # Events in a sliding window

A log from which old events are dropped still counts right: `Keeps` says that
it tells as much about every later window as the events themselves. The other
half is about events that were each let through below a limit: then no window
of that length has more than the limit. -/
namespace SchedulingUtil.Lib.Window

variable {α : Type*} [AddCommGroup α] [LinearOrder α]

/-- The events after `t - w`. -/
def prune (w t : α) (xs : List α) : List α := xs.filter (t - w < ·)

/-- The number of events in the window of length `w` that ends with `t`. -/
def count (w t : α) (xs : List α) : Nat := xs.countP fun x => t - w < x ∧ x ≤ t

theorem prune_append (w t : α) (xs ys : List α) :
    prune w t (xs ++ ys) = prune w t xs ++ prune w t ys := List.filter_append ..

/-- Among more events, no fewer are in the window. -/
theorem count_le {w t : α} {xs ys : List α} (h : xs.Sublist ys) : count w t xs ≤ count w t ys :=
  h.countP_le

/-- What is dropped at one time counts at no later one. -/
theorem prune_prune [IsOrderedAddMonoid α] {w c t : α} (h : c ≤ t) (xs : List α) :
    prune w t (prune w c xs) = prune w t xs := by
  rw [prune, prune, prune, List.filter_filter]
  refine List.filter_congr fun x _ => Bool.eq_iff_iff.mpr ?_
  simp only [Bool.and_eq_true, decide_eq_true_eq, and_iff_left_iff_imp]
  exact (sub_le_sub_right h w).trans_lt

theorem length_prune {w t : α} {xs : List α} (h : ∀ x ∈ xs, x ≤ t) :
    (prune w t xs).length = count w t xs := by
  rw [prune, count, ← List.countP_eq_length_filter]
  exact List.countP_congr fun x hx => by simp [h x hx]

/-- From `c` on, what is kept tells the windows of the events. -/
structure Keeps (w c : α) (kept events : List α) : Prop where
  past : ∀ x ∈ events, x ≤ c
  same : ∀ t, c ≤ t → prune w t kept = prune w t events

namespace Keeps

variable {w c t : α} {kept events : List α}

theorem all (h : ∀ x ∈ events, x ≤ c) : Keeps w c events events := ⟨h, fun _ _ => rfl⟩

theorem later (h : Keeps w c kept events) (ht : c ≤ t) : Keeps w t kept events :=
  ⟨fun x hx => (h.past x hx).trans ht, fun u hu => h.same u (ht.trans hu)⟩

theorem prune [IsOrderedAddMonoid α] (h : Keeps w c kept events) (ht : c ≤ t) :
    Keeps w t (prune w t kept) events :=
  ⟨(h.later ht).past, fun u hu => by rw [prune_prune hu, h.same u (ht.trans hu)]⟩

theorem record (h : Keeps w c kept events) (ht : c ≤ t) :
    Keeps w t (kept ++ [t]) (events ++ [t]) where
  past x hx := by
    rcases List.mem_append.mp hx with hx | hx
    · exact (h.past x hx).trans ht
    · exact (List.mem_singleton.mp hx).le
  same u hu := by rw [prune_append, prune_append, h.same u (ht.trans hu)]

/-- **The kept events count the window exactly.** -/
theorem length_eq_count (h : Keeps w c kept events) (ht : c ≤ t) :
    (Window.prune w t kept).length = count w t events := by
  rw [h.same t ht, length_prune (h.later ht).past]

end Keeps

/-- Each of the events was let through with fewer than `k` earlier ones in its window. -/
def Admitted (w : α) (k : Nat) (xs : List α) : Prop :=
  ∀ pre t post, xs = pre ++ t :: post → count w t pre < k

theorem admitted_nil (w : α) (k : Nat) : Admitted w k [] := by
  intro pre t post h
  cases pre <;> cases h

theorem Admitted.snoc {w t : α} {k : Nat} {xs : List α} (h : Admitted w k xs)
    (ht : count w t xs < k) : Admitted w k (xs ++ [t]) := by
  intro pre u post hx
  rcases List.eq_nil_or_concat post with rfl | ⟨post, y, rfl⟩
  · obtain ⟨rfl, hlast⟩ := List.append_inj' hx rfl
    cases hlast
    exact ht
  · rw [List.concat_eq_append, ← List.cons_append, ← List.append_assoc] at hx
    exact h pre u post (List.append_inj' hx rfl).1

theorem Admitted.init {w t : α} {k : Nat} {xs : List α} (h : Admitted w k (xs ++ [t])) :
    Admitted w k xs := fun pre u post hx => h pre u (post ++ [t]) (by rw [hx]; simp)

/-- **No window holds more than the limit**, where a window is any set of times
that are less than `w` apart. -/
theorem Admitted.countP_le {w : α} {k : Nat} {xs : List α} (h : Admitted w k xs)
    (hxs : xs.Pairwise (· ≤ ·)) (I : α → Prop) [DecidablePred I]
    (hI : ∀ x y, I x → I y → y - w < x) : xs.countP I ≤ k := by
  induction xs using List.reverseRecOn with
  | nil => exact Nat.zero_le k
  | append_singleton xs t ih =>
    obtain ⟨hxs', -, hle⟩ := List.pairwise_append.mp hxs
    rw [List.countP_append, List.countP_singleton]
    by_cases ht : I t
    · -- All the others in the window of `I` are in the one that ends with the last.
      have hsub : xs.countP I ≤ count w t xs := by
        refine List.countP_mono_left ?_
        intro x hx hIx
        simp only [decide_eq_true_eq] at hIx ⊢
        exact ⟨hI x t hIx ht, hle x hx t (List.mem_singleton_self t)⟩
      rw [if_pos (decide_eq_true ht)]
      exact Nat.succ_le_of_lt (hsub.trans_lt (h xs t [] rfl))
    · rw [if_neg (by simpa using ht)]
      exact ih h.init hxs'

theorem Admitted.countP_Ico_le [IsOrderedAddMonoid α] {w : α} {k : Nat} {xs : List α}
    (h : Admitted w k xs)
    (hxs : xs.Pairwise (· ≤ ·)) (a : α) : (xs.countP fun x => a ≤ x ∧ x < a + w) ≤ k :=
  h.countP_le hxs _ fun _ _ hx hy => (sub_lt_iff_lt_add.mpr hy.2).trans_le hx.1

theorem Admitted.countP_Ioc_le [IsOrderedAddMonoid α] {w : α} {k : Nat} {xs : List α}
    (h : Admitted w k xs)
    (hxs : xs.Pairwise (· ≤ ·)) (a : α) : (xs.countP fun x => a < x ∧ x ≤ a + w) ≤ k :=
  h.countP_le hxs _ fun _ _ hx hy => (sub_le_iff_le_add.mpr hy.2).trans_lt hx.1

end SchedulingUtil.Lib.Window
