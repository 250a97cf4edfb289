import SchedulingUtil.LastRunHistorySpec

/-! # What the history queries answer

Every query scans the entries from the end. The reference semantics names positions of
the list instead: the last entry that satisfies the filters, and the failures behind the
last success. -/
namespace SchedulingUtil

variable {N : Type}

/-! ## The last entry with a property -/

/-- The last element with the property, or none when there is none. -/
def LastWhere {α : Type} (P : α → Prop) (xs : List α) : Option α → Prop
  | none => ∀ x ∈ xs, ¬ P x
  | some x => ∃ pre post, xs = pre ++ x :: post ∧ P x ∧ ∀ y ∈ post, ¬ P y

section LastWhere
variable {α : Type} {P : α → Prop} {xs : List α} {x : α}

theorem lastWhere_concat (hx : P x) : LastWhere P (xs ++ [x]) (some x) :=
  ⟨xs, [], rfl, hx, by simp⟩

theorem LastWhere.concat {r : Option α} (h : LastWhere P xs r) (hx : ¬ P x) :
    LastWhere P (xs ++ [x]) r := by
  cases r with
  | none =>
    intro y hy
    rcases List.mem_append.mp hy with hy | hy
    · exact h y hy
    · rwa [List.mem_singleton.mp hy]
  | some z =>
    obtain ⟨pre, post, rfl, hz, hpost⟩ := h
    refine ⟨pre, post ++ [x], by simp, hz, ?_⟩
    intro y hy
    rcases List.mem_append.mp hy with hy | hy
    · exact hpost y hy
    · rwa [List.mem_singleton.mp hy]

theorem lastWhere_find? {p : α → Bool} (xs : List α) :
    LastWhere (fun x => p x = true) xs (xs.reverse.find? p) := by
  induction xs using List.reverseRecOn with
  | nil => simp [LastWhere]
  | append_singleton xs x ih =>
    rw [List.reverse_append, List.reverse_singleton, List.singleton_append, List.find?_cons]
    cases hx : p x with
    | true => exact lastWhere_concat hx
    | false => exact ih.concat (by simp [hx])

/-! ## The scan -/

variable {p : α → Except PyException Bool}

theorem findFirst_cons (x : α) (xs : List α) :
    findFirst p (x :: xs) = match p x with
      | .ok true => .ok (some x)
      | .ok false => findFirst p xs
      | .error e => .error e := by
  rcases hx : p x with e | b
  · simp [findFirst, hx, bind, Except.bind]
  · cases b <;> simp [findFirst, hx, bind, Except.bind, pure, Except.pure]

/-- What a scan from the end returns. -/
theorem lastWhere_findFirst (hp : ∀ x b, p x = .ok b → (b = true ↔ P x)) {r : Option α}
    (h : findFirst p xs.reverse = .ok r) : LastWhere P xs r := by
  induction xs using List.reverseRecOn with
  | nil =>
    cases h
    simp [LastWhere]
  | append_singleton xs x ih =>
    rw [List.reverse_append, List.reverse_singleton, List.singleton_append, findFirst_cons] at h
    split at h
    · rename_i hx
      cases h
      exact lastWhere_concat ((hp x true hx).mp rfl)
    · rename_i hx
      exact (ih h).concat fun hP => Bool.false_ne_true ((hp x false hx).mpr hP)
    · cases h

/-- It raises what the first test raises that does not refuse its entry. -/
theorem findFirst_error_iff {e : PyException} :
    findFirst p xs.reverse = .error e ↔
      ∃ pre x post, xs = pre ++ x :: post ∧ p x = .error e ∧ ∀ y ∈ post, p y = .ok false := by
  induction xs using List.reverseRecOn with
  | nil => simp [findFirst, pure, Except.pure]
  | append_singleton xs x ih =>
    rw [List.reverse_append, List.reverse_singleton, List.singleton_append, findFirst_cons]
    constructor
    · intro h
      split at h
      · cases h
      · rename_i hx
        obtain ⟨pre, y, post, rfl, hy, hpost⟩ := ih.mp h
        refine ⟨pre, y, post ++ [x], by simp, hy, ?_⟩
        intro z hz
        rcases List.mem_append.mp hz with hz | hz
        · exact hpost z hz
        · rwa [List.mem_singleton.mp hz]
      · rename_i hx
        cases h
        exact ⟨xs, x, [], rfl, hx, by simp⟩
    · rintro ⟨pre, y, post, hxs, hy, hpost⟩
      rcases List.eq_nil_or_concat post with rfl | ⟨post, z, rfl⟩
      · obtain ⟨-, hxy⟩ := List.append_inj' hxs rfl
        rw [List.singleton_inj.mp hxy, hy]
      · rw [List.concat_eq_append, ← List.cons_append, ← List.append_assoc] at hxs
        obtain ⟨rfl, hxz⟩ := List.append_inj' hxs rfl
        rw [List.singleton_inj.mp hxz, hpost z (by simp)]
        exact ih.mpr ⟨pre, y, post, rfl, hy, fun w hw => hpost w (by simp [hw])⟩

end LastWhere

/-! ## The filters -/

/-- A filter on the time of the entry is given. -/
def EntryFilter.Timed (f : EntryFilter) : Prop := f.after.isSome ∨ f.before.isSome

/-- The entry satisfies all given filters. -/
structure EntryFilter.Satisfied (fromTimestamp : FromTimestamp N) (f : EntryFilter)
    (e : LastRunHistoryEntry N) : Prop where
  after : ∀ a, f.after = some a → ∃ t, fromTimestamp e.time = .ok t ∧ a < t
  before : ∀ b, f.before = some b → ∃ t, fromTimestamp e.time = .ok t ∧ t < b
  started : f.started = true → ∃ s, e = .started s
  finished : f.finished = true → ∃ a, e = .finished a
  outcome : ∀ o, f.outcome = some o → ∃ a, e = .finished a ∧ a.outcome = o

section Filter
variable {fromTimestamp : FromTimestamp N} {f : EntryFilter} {e : LastRunHistoryEntry N}

/-- The filters on the kind of the entry. -/
def EntryFilter.acceptsKind (f : EntryFilter) (e : LastRunHistoryEntry N) : Bool :=
  (!f.started || e.started?.isSome) &&
    (!(f.finished || f.outcome.isSome) ||
      e.finished?.any fun a => f.outcome.all fun o => a.outcome == o)

theorem accepts_untimed (h : ¬ f.Timed) : f.accepts fromTimestamp e = .ok (f.acceptsKind e) := by
  obtain ⟨before, after, started, finished, outcome⟩ := f
  obtain ⟨rfl, rfl⟩ : after = none ∧ before = none := by simpa [EntryFilter.Timed] using h
  cases started <;> cases finished <;> cases outcome <;> cases e <;>
    simp [EntryFilter.accepts, EntryFilter.acceptsKind, LastRunHistoryEntry.started?,
      LastRunHistoryEntry.finished?, pure, Except.pure]

theorem accepts_of_error {x : PyException} (h : f.Timed) (he : fromTimestamp e.time = .error x) :
    f.accepts fromTimestamp e = .error x := by
  obtain ⟨before, after, started, finished, outcome⟩ := f
  cases after with
  | some a => simp [EntryFilter.accepts, he, bind, Except.bind]
  | none =>
    cases before with
    | some b => simp [EntryFilter.accepts, he, bind, Except.bind]
    | none => simp [EntryFilter.Timed] at h

theorem accepts_of_ok {t : Datetime} (he : fromTimestamp e.time = .ok t) :
    f.accepts fromTimestamp e =
      .ok (f.after.all (· < t) && f.before.all (t < ·) && f.acceptsKind e) := by
  obtain ⟨before, after, started, finished, outcome⟩ := f
  have hkind : EntryFilter.accepts fromTimestamp ⟨none, none, started, finished, outcome⟩ e =
      .ok (EntryFilter.acceptsKind ⟨before, after, started, finished, outcome⟩ e) :=
    accepts_untimed (by simp [EntryFilter.Timed])
  have hbefore : EntryFilter.accepts fromTimestamp ⟨before, none, started, finished, outcome⟩ e =
      .ok (before.all (t < ·) && EntryFilter.acceptsKind ⟨before, after, started, finished, outcome⟩
        e) := by
    cases before with
    | none => exact hkind
    | some b =>
      by_cases hb : t < b
      · simpa [EntryFilter.accepts, he, bind, Except.bind, hb, Int.not_le.mpr hb] using hkind
      · simp [EntryFilter.accepts, he, bind, Except.bind, pure, Except.pure, hb, Int.not_lt.mp hb]
  cases after with
  | none => exact hbefore
  | some a =>
    by_cases ha : a < t
    · simpa [EntryFilter.accepts, he, bind, Except.bind, ha, Int.not_le.mpr ha] using hbefore
    · simp [EntryFilter.accepts, he, bind, Except.bind, pure, Except.pure, ha, Int.not_lt.mp ha]

theorem acceptsKind_iff : f.acceptsKind e = true ↔
    (f.started = true → ∃ s, e = .started s) ∧ (f.finished = true → ∃ a, e = .finished a) ∧
      ∀ o, f.outcome = some o → ∃ a, e = .finished a ∧ a.outcome = o := by
  obtain ⟨-, -, started, finished, outcome⟩ := f
  cases started <;> cases finished <;> cases outcome <;> cases e <;>
    simp [EntryFilter.acceptsKind, LastRunHistoryEntry.started?, LastRunHistoryEntry.finished?]

theorem accepts_ok_iff {b : Bool} (h : f.accepts fromTimestamp e = .ok b) :
    b = true ↔ f.Satisfied fromTimestamp e := by
  cases he : fromTimestamp e.time with
  | ok t =>
    rw [accepts_of_ok he, Except.ok.injEq] at h
    subst h
    simp only [Bool.and_eq_true, acceptsKind_iff, Option.all_eq_true, decide_eq_true_eq]
    constructor
    · rintro ⟨⟨hafter, hbefore⟩, hstarted, hfinished, houtcome⟩
      exact ⟨fun a ha => ⟨t, he, hafter a ha⟩, fun b hb => ⟨t, he, hbefore b hb⟩, hstarted,
        hfinished, houtcome⟩
    · intro hsat
      refine ⟨⟨?_, ?_⟩, hsat.started, hsat.finished, hsat.outcome⟩
      · intro a ha
        obtain ⟨t', ht', hlt⟩ := hsat.after a ha
        rw [he, Except.ok.injEq] at ht'
        rwa [ht']
      · intro a ha
        obtain ⟨t', ht', hlt⟩ := hsat.before a ha
        rw [he, Except.ok.injEq] at ht'
        rwa [ht']
  | error x =>
    by_cases htimed : f.Timed
    · rw [accepts_of_error htimed he] at h
      cases h
    · rw [accepts_untimed htimed, Except.ok.injEq] at h
      subst h
      rw [acceptsKind_iff]
      obtain ⟨hafter, hbefore⟩ : f.after = none ∧ f.before = none := by
        simpa [EntryFilter.Timed] using htimed
      constructor
      · rintro ⟨hstarted, hfinished, houtcome⟩
        exact ⟨by simp [hafter], by simp [hbefore], hstarted, hfinished, houtcome⟩
      · intro hsat
        exact ⟨hsat.started, hsat.finished, hsat.outcome⟩

theorem accepts_error_iff {x : PyException} :
    f.accepts fromTimestamp e = .error x ↔ f.Timed ∧ fromTimestamp e.time = .error x := by
  cases he : fromTimestamp e.time with
  | ok t => simp [accepts_of_ok he]
  | error y =>
    by_cases htimed : f.Timed
    · simp [accepts_of_error htimed he, htimed]
    · simp [accepts_untimed htimed, htimed]

end Filter

/-! ## The queries -/

variable (fromTimestamp : FromTimestamp N) (es : List (LastRunHistoryEntry N))

def HasOutcome (o : Outcome) (e : LastRunHistoryEntry N) : Prop :=
  ∃ a, e = .finished a ∧ a.outcome = o

/-- The failed finished entries. -/
def failures (es : List (LastRunHistoryEntry N)) : Nat :=
  (finishedAttempts es).countP fun a => a.outcome == .failure

theorem findLastEntry_error_iff (f : EntryFilter) (x : PyException) :
    findLastEntry fromTimestamp f es = .error x ↔
      ∃ pre e post, es = pre ++ e :: post ∧ (f.Timed ∧ fromTimestamp e.time = .error x) ∧
        ∀ y ∈ post, ¬ f.Satisfied fromTimestamp y ∧
          ∀ x', f.Timed → fromTimestamp y.time ≠ .error x' := by
  have hrefused (y : LastRunHistoryEntry N) : f.accepts fromTimestamp y = .ok false ↔
      ¬ f.Satisfied fromTimestamp y ∧ ∀ x', f.Timed → fromTimestamp y.time ≠ .error x' := by
    rcases hy : f.accepts fromTimestamp y with x' | b
    · obtain ⟨htimed, herror⟩ := accepts_error_iff.mp hy
      exact iff_of_false nofun fun h => h.2 x' htimed herror
    · have hno (x' : PyException) (htimed : f.Timed) : fromTimestamp y.time ≠ .error x' := by
        intro herror
        rw [accepts_of_error htimed herror] at hy
        cases hy
      rw [← accepts_ok_iff hy, Except.ok.injEq, Bool.not_eq_true]
      exact (and_iff_left hno).symm
  simp only [findLastEntry, findFirst_error_iff, accepts_error_iff, hrefused]

/-- Every query for finished entries comes down to one of the last of them. -/
theorem lastWhere_finished {q : LastRunAttemptFinished N → Bool} :
    LastWhere (fun e => ∃ a, e = .finished a ∧ q a = true) es
      (((finishedAttempts es).reverse.find? q).map .finished) := by
  have hlast := lastWhere_find? (p := fun e => e.finished?.any q) es
  have hfind : es.reverse.find? (fun e => e.finished?.any q) =
      ((finishedAttempts es).reverse.find? q).map .finished := by
    rw [finishedAttempts, ← List.filterMap_reverse]
    induction es.reverse with
    | nil => rfl
    | cons e rest ih =>
      cases e with
      | started e => exact ih
      | finished e =>
        have hany : (LastRunHistoryEntry.finished e).finished?.any q = q e := rfl
        have hsome : List.filterMap LastRunHistoryEntry.finished? (.finished e :: rest) =
            e :: rest.filterMap LastRunHistoryEntry.finished? := rfl
        rw [List.find?_cons, hany, hsome, List.find?_cons]
        cases q e with
        | true => rfl
        | false => exact ih
  rw [hfind] at hlast
  have hprop : (fun e : LastRunHistoryEntry N => ∃ a, e = .finished a ∧ q a = true) =
      fun e => e.finished?.any q = true := by
    funext e
    cases e <;> simp [LastRunHistoryEntry.finished?]
  rwa [hprop]

theorem lastWhere_lastWithOutcome (o : Outcome) :
    ∃ r, lastWithOutcome fromTimestamp es o = .ok r ∧
      LastWhere (HasOutcome o) es (r.map .finished) := by
  refine ⟨_, lastWithOutcome_eq fromTimestamp es o, ?_⟩
  have hprop : HasOutcome o = fun e : LastRunHistoryEntry N =>
      ∃ a, e = .finished a ∧ (a.outcome == o) = true := by
    funext e
    simp [HasOutcome]
  rw [hprop]
  exact lastWhere_finished es

theorem lastWhere_lastFinished :
    ∃ r, lastFinished fromTimestamp es = .ok r ∧
      LastWhere (fun e => ∃ a, e = .finished a) es (r.map .finished) := by
  refine ⟨_, lastFinished_eq fromTimestamp es, ?_⟩
  have hlast := lastWhere_finished es (q := fun _ => true)
  rw [← List.head?_reverse]
  cases h : (finishedAttempts es).reverse <;> simpa [h] using hlast

theorem lastWhere_lastStarted :
    ∃ r, lastStarted fromTimestamp es = .ok r ∧
      LastWhere (fun e => ∃ a, e = .started a) es (r.map .started) := by
  have hf (e : LastRunHistoryEntry N) :
      EntryFilter.accepts fromTimestamp { started := true } e = .ok e.started?.isSome := by
    cases e <;> rfl
  have hlast := lastWhere_find? (p := fun e => e.started?.isSome) es
  rw [lastStarted, findLastEntry, findFirst_ok hf]
  have hprop : (fun e : LastRunHistoryEntry N => ∃ a, e = .started a) =
      fun e => e.started?.isSome = true := by
    funext e
    cases e <;> simp [LastRunHistoryEntry.started?]
  rw [hprop]
  cases hr : es.reverse.find? fun e => e.started?.isSome with
  | none =>
    rw [hr] at hlast
    exact ⟨none, rfl, hlast⟩
  | some e =>
    rw [hr] at hlast
    cases e with
    | started e => exact ⟨some e, rfl, hlast⟩
    | finished e =>
      have hstarted := List.find?_some hr
      cases hstarted

/-! ### The count of failures -/

theorem failuresSince_append {fs gs : List (LastRunAttemptFinished N)}
    (h : ∀ a ∈ gs, a.outcome ≠ .success) :
    failuresSince (fs ++ gs) = failuresSince fs + gs.countP fun a => a.outcome == .failure := by
  induction gs using List.reverseRecOn with
  | nil => simp
  | append_singleton gs a ih =>
    rw [← List.append_assoc, failuresSince_concat, ih fun b hb => h b (by simp [hb])]
    cases ha : a.outcome with
    | success => exact absurd ha (h a (by simp))
    | failure => simp [ha]; omega
    | neutral => simp [ha]

theorem outcome_ne_of_not_hasOutcome {o : Outcome} {es : List (LastRunHistoryEntry N)}
    (h : ∀ e ∈ es, ¬ HasOutcome o e) (a : LastRunAttemptFinished N)
    (ha : a ∈ finishedAttempts es) : a.outcome ≠ o := by
  obtain ⟨e, he, hea⟩ := List.mem_filterMap.mp ha
  intro ho
  cases e with
  | started e => cases hea
  | finished e =>
    cases hea
    exact h _ he ⟨a, rfl, ho⟩

/-- The failures behind the last success, or all of them if there is none. -/
def FailuresBehind (es : List (LastRunHistoryEntry N)) :
    Option (LastRunAttemptFinished N) → Nat → Prop
  | none, n => n = failures es
  | some s, n => ∃ pre post, es = pre ++ .finished s :: post ∧
      (∀ e ∈ post, ¬ HasOutcome .success e) ∧ n = failures post

theorem failuresBehind_lastSuccess {r : Option (LastRunAttemptFinished N)}
    (h : lastSuccess fromTimestamp es = .ok r) :
    FailuresBehind es r (nFailuresSinceLastSuccess es) := by
  obtain ⟨r', hr', hlast⟩ := lastWhere_lastWithOutcome fromTimestamp es .success
  obtain rfl : r' = r := Except.ok.inj (hr'.symm.trans h)
  cases r' with
  | none =>
    have hcount : failuresSince ([] ++ finishedAttempts es) = _ :=
      failuresSince_append (outcome_ne_of_not_hasOutcome hlast)
    rw [List.nil_append, failuresSince_nil, Nat.zero_add] at hcount
    exact (nFailuresSinceLastSuccess_eq es).trans hcount
  | some s =>
    obtain ⟨pre, post, rfl, ⟨a, ha, hsuccess⟩, hpost⟩ := hlast
    cases ha
    refine ⟨pre, post, rfl, hpost, ?_⟩
    have hsplit : finishedAttempts (pre ++ .finished s :: post) =
        finishedAttempts pre ++ [s] ++ finishedAttempts post := by
      simp [finishedAttempts, LastRunHistoryEntry.finished?]
    rw [nFailuresSinceLastSuccess_eq, hsplit,
      failuresSince_append (outcome_ne_of_not_hasOutcome hpost), failuresSince_concat, hsuccess,
      Nat.zero_add, failures]

theorem nFailuresSinceLastSuccess_pos {a : LastRunAttemptFinished N}
    (h : lastFinished fromTimestamp es = .ok (some a)) (ha : a.outcome = .failure) :
    0 < nFailuresSinceLastSuccess es := by
  rw [lastFinished_eq, Except.ok.injEq, List.getLast?_eq_some_iff] at h
  obtain ⟨fs, hfs⟩ := h
  rw [nFailuresSinceLastSuccess_eq, hfs, failuresSince_concat, ha]
  exact Nat.succ_pos _

/-- **The queries answer from positions of the list.** What `find_last_entry` returns is the
last entry that satisfies the filters; with a time given it raises instead where the scan
meets a timestamp without a date before such an entry. The queries for one kind or outcome
never fail an assertion, and the failures counted are those behind the last success. -/
theorem history_queries_agree :
    (∀ f : EntryFilter,
      (∀ r, findLastEntry fromTimestamp f es = .ok r →
        LastWhere (f.Satisfied fromTimestamp) es r) ∧
      ∀ x, findLastEntry fromTimestamp f es = .error x ↔
        ∃ pre e post, es = pre ++ e :: post ∧ (f.Timed ∧ fromTimestamp e.time = .error x) ∧
          ∀ y ∈ post, ¬ f.Satisfied fromTimestamp y ∧
            ∀ x', f.Timed → fromTimestamp y.time ≠ .error x') ∧
    ((∀ o, ∃ r, lastWithOutcome fromTimestamp es o = .ok r ∧
        LastWhere (HasOutcome o) es (r.map .finished)) ∧
      (∃ r, lastStarted fromTimestamp es = .ok r ∧
        LastWhere (fun e => ∃ a, e = .started a) es (r.map .started)) ∧
      ∃ r, lastFinished fromTimestamp es = .ok r ∧
        LastWhere (fun e => ∃ a, e = .finished a) es (r.map .finished)) ∧
    (∀ r, lastSuccess fromTimestamp es = .ok r →
      FailuresBehind es r (nFailuresSinceLastSuccess es)) ∧
    ∀ a, lastFinished fromTimestamp es = .ok (some a) → a.outcome = .failure →
      0 < nFailuresSinceLastSuccess es := by
  refine ⟨?_, ⟨?_, ?_, ?_⟩, ?_, ?_⟩
  · intro f
    refine ⟨?_, findLastEntry_error_iff fromTimestamp es f⟩
    intro r hr
    exact lastWhere_findFirst (fun e b => accepts_ok_iff) hr
  · exact lastWhere_lastWithOutcome fromTimestamp es
  · exact lastWhere_lastStarted fromTimestamp es
  · exact lastWhere_lastFinished fromTimestamp es
  · intro r hr
    exact failuresBehind_lastSuccess fromTimestamp es hr
  · intro a ha hfailure
    exact nFailuresSinceLastSuccess_pos fromTimestamp es ha hfailure

/-! ### A timestamp without a date -/

def yearOutOfRange : PyException := .valueError "year 33658 is out of range"

/-- Local time is UTC; the last date is the end of the year 9999. -/
def utcDatetime : FromTimestamp Int := fun t =>
  if t < 253402300800000000 then .ok t else .error yearOutOfRange

/-- An entry of the year 33658, found when no time is asked for. -/
def farEntry : LastRunHistoryEntry Int := .started ⟨1000000000000000000⟩

/-- Asked for an entry after 1970, `find_last_entry` returns neither this one nor none. -/
theorem far_entry_raises : ¬ ∃ r, findLastEntry utcDatetime { after := some 0 } [farEntry] = .ok r ∧
    LastWhere (EntryFilter.Satisfied utcDatetime { after := some 0 }) [farEntry] r := by
  rintro ⟨r, hr, -⟩
  have herror : findLastEntry utcDatetime { after := some 0 } [farEntry] = .error yearOutOfRange :=
    (findLastEntry_error_iff ..).mpr
      ⟨[], farEntry, [], rfl, ⟨.inl rfl, rfl⟩, by simp⟩
  rw [herror] at hr
  cases hr

end SchedulingUtil
