import Mathlib.Data.List.Nodup
import SchedulingUtil.Lib.Traced

/-! # Sets in insertion order

An `OrderedSet` holds no element twice and keeps the first place of each. Elements that are
converted on their way into a set come out the same whether the repetitions are left out
before the conversion or after it. -/
namespace SchedulingUtil.Lib

structure OrderedSet (α : Type) where
  toList : List α
  nodup : toList.Nodup

namespace OrderedSet
variable {α β ε : Type}

@[ext] theorem ext {s t : OrderedSet α} (h : s.toList = t.toList) : s = t := by
  cases s
  cases t
  cases h
  rfl

def empty : OrderedSet α := ⟨[], .nil⟩

section Add
variable [DecidableEq α]

def add (s : OrderedSet α) (a : α) : OrderedSet α :=
  if h : a ∈ s.toList then s
  else ⟨s.toList ++ [a], List.nodup_append.mpr ⟨s.nodup, List.nodup_singleton a, by
    intro b hb c hc
    rw [List.mem_singleton.mp hc]
    rintro rfl
    exact h hb⟩⟩

/-- `|=`. -/
def addAll (s : OrderedSet α) (as : List α) : OrderedSet α := as.foldl add s

def ofList (as : List α) : OrderedSet α := addAll empty as

/-- `remove`, of an element or of none. -/
def remove (s : OrderedSet α) (a : α) : OrderedSet α :=
  ⟨s.toList.filter (· ≠ a), s.nodup.filter _⟩

theorem add_of_mem {s : OrderedSet α} {a : α} (h : a ∈ s.toList) : s.add a = s := dif_pos h

theorem toList_add_of_not_mem {s : OrderedSet α} {a : α} (h : a ∉ s.toList) :
    (s.add a).toList = s.toList ++ [a] := by
  rw [add, dif_neg h]

@[simp] theorem mem_add {s : OrderedSet α} {a b : α} :
    b ∈ (s.add a).toList ↔ b ∈ s.toList ∨ b = a := by
  by_cases h : a ∈ s.toList
  · rw [add_of_mem h]
    refine ⟨.inl, ?_⟩
    rintro (hb | rfl)
    · exact hb
    · exact h
  · rw [toList_add_of_not_mem h, List.mem_append, List.mem_singleton]

theorem ofList_concat (as : List α) (a : α) : ofList (as ++ [a]) = (ofList as).add a :=
  List.foldl_concat ..

@[simp] theorem mem_ofList {as : List α} {a : α} : a ∈ (ofList as).toList ↔ a ∈ as := by
  induction as using List.reverseRecOn with
  | nil => rfl
  | append_singleton as b ih => rw [ofList_concat, mem_add, ih, List.mem_append, List.mem_singleton]

theorem ofList_filter (p : α → Bool) (as : List α) :
    (ofList (as.filter p)).toList = (ofList as).toList.filter p := by
  induction as using List.reverseRecOn with
  | nil => rfl
  | append_singleton as a ih =>
    rw [ofList_concat, List.filter_append]
    by_cases hp : p a = true
    · rw [List.filter_cons_of_pos hp, List.filter_nil, ofList_concat]
      by_cases ha : a ∈ as
      · rw [add_of_mem (mem_ofList.mpr (List.mem_filter.mpr ⟨ha, hp⟩)),
          add_of_mem (mem_ofList.mpr ha), ih]
      · have hfilter : a ∉ (ofList (as.filter p)).toList :=
          fun h => ha (List.mem_of_mem_filter (mem_ofList.mp h))
        rw [toList_add_of_not_mem hfilter, toList_add_of_not_mem (fun h => ha (mem_ofList.mp h)),
          List.filter_append, List.filter_cons_of_pos hp, List.filter_nil, ih]
    · rw [List.filter_cons_of_neg hp, List.filter_nil, List.append_nil, ih]
      by_cases ha : a ∈ as
      · rw [add_of_mem (mem_ofList.mpr ha)]
      · rw [toList_add_of_not_mem (fun h => ha (mem_ofList.mp h)), List.filter_append,
          List.filter_cons_of_neg hp, List.filter_nil, List.append_nil]

end Add

/-! ## Converted elements -/

section Convert
variable (f : α → Except ε β)

theorem mapM_eq_ok_of_mem {as : List α} {bs : List β} (h : as.mapM f = .ok bs) {a : α}
    (ha : a ∈ as) : ∃ b ∈ bs, f a = .ok b := by
  induction as generalizing bs with
  | nil => cases ha
  | cons x as ih =>
    rw [List.mapM_cons] at h
    cases hx : f x with
    | error e => rw [hx] at h; cases h
    | ok y =>
      cases hys : as.mapM f with
      | error e => rw [hx, hys] at h; cases h
      | ok ys =>
        rw [hx, hys] at h
        cases h
        rcases List.mem_cons.mp ha with rfl | ha
        · exact ⟨y, .head _, hx⟩
        · obtain ⟨b, hb, hab⟩ := ih hys ha
          exact ⟨b, .tail _ hb, hab⟩

theorem mapM_concat (as : List α) (a : α) :
    (as ++ [a]).mapM f = (do let xs ← as.mapM f; let x ← f a; pure (xs ++ [x])) := by
  rw [List.mapM_append]
  simp

variable [DecidableEq β]

/-- The set of a generator that converts the elements one by one. -/
def ofEach (s : OrderedSet β) : List α → Traced α ε (OrderedSet β)
  | [] => pure s
  | a :: as => do
    let b ← Traced.call a (f a)
    ofEach (s.add b) as

theorem ofEach_result (s : OrderedSet β) (as : List α) :
    (ofEach f s as).result = (as.mapM f).map s.addAll := by
  induction as generalizing s with
  | nil => rfl
  | cons a as ih =>
    rw [ofEach, List.mapM_cons]
    cases ha : f a with
    | error e =>
      rw [Traced.bind_of_error (m := Traced.call a (.error e)) rfl]
      rfl
    | ok b =>
      rw [Traced.bind_of_ok (m := Traced.call a (.ok b)) rfl]
      dsimp only
      rw [ih]
      cases as.mapM f <;> rfl

/-- Every element is converted once and in its turn, up to the first that cannot be. -/
theorem ofEach_effects (s : OrderedSet β) (as : List α) :
    (ofEach f s as).effects <+: as ∧
      ∀ t, (ofEach f s as).result = .ok t → (ofEach f s as).effects = as := by
  induction as generalizing s with
  | nil => exact ⟨List.prefix_rfl, fun _ _ => rfl⟩
  | cons a as ih =>
    rw [ofEach]
    cases ha : f a with
    | error e =>
      rw [Traced.bind_of_error (m := Traced.call a (.error e)) rfl]
      exact ⟨⟨as, rfl⟩, fun t ht => nomatch ht⟩
    | ok b =>
      rw [Traced.bind_of_ok (m := Traced.call a (.ok b)) rfl]
      obtain ⟨hpart, hall⟩ := ih (s.add b)
      exact ⟨(List.prefix_cons_inj a).mpr hpart, fun t ht => congrArg (a :: ·) (hall t ht)⟩

theorem map_ofList_concat (bs : Except ε (List β)) (c : Except ε β) :
    (do let xs ← bs; let x ← c; pure (xs ++ [x])).map ofList =
      (do let s ← bs.map ofList; let x ← c; pure (s.add x)) := by
  cases bs with
  | error e => rfl
  | ok bs =>
    cases c with
    | error e => rfl
    | ok b => exact congrArg Except.ok (ofList_concat bs b)

variable [DecidableEq α]

/-- **Repetitions may be left out first**: the same set, or the same first exception. -/
theorem ofList_mapM (as : List α) :
    ((ofList as).toList.mapM f).map ofList = (as.mapM f).map ofList := by
  induction as using List.reverseRecOn with
  | nil => rfl
  | append_singleton as a ih =>
    rw [ofList_concat, mapM_concat, map_ofList_concat]
    by_cases ha : a ∈ as
    · rw [add_of_mem (mem_ofList.mpr ha), ih]
      cases has : as.mapM f with
      | error e => rfl
      | ok bs =>
        obtain ⟨b, hb, hab⟩ := mapM_eq_ok_of_mem f has ha
        rw [hab]
        exact congrArg Except.ok (add_of_mem (mem_ofList.mpr hb)).symm
    · rw [toList_add_of_not_mem (fun h => ha (mem_ofList.mp h)), mapM_concat, map_ofList_concat, ih]

end Convert

end OrderedSet

end SchedulingUtil.Lib
