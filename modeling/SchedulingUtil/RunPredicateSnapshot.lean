import SchedulingUtil.RunPredicateSound

/-! # A decision on one snapshot

Each read of `_predicate` reloads the history between the entry and the exit of a nested lock;
the outer one makes all of them answer from the same entries. And none of them waits: once it
has the lock, the call decides in steps of its own thread. -/
namespace SchedulingUtil
open Lib LockFrame

variable {N : Type} [PyNumber N] {J : Type}

namespace HistoryWorld

variable {P T K : Type} [DecidableEq P] [DecidableEq T] [DecidableEq K] [DecidableEq J]
  [Fintype T] {proc : T → P} {k : K} {fromTimestamp : FromTimestamp N}
  {w w' : HistoryWorld P T K J N} {t u : T}

/-! ## Without waiting -/

variable (proc k fromTimestamp) in
/-- A step of the thread `t`. -/
def OwnStep (t : T) (w w' : HistoryWorld P T K J N) : Prop :=
  ∃ e : HistoryEvent P T J N, e.thread = some t ∧ Step proc k fromTimestamp w e w'

omit [Fintype T] in
theorem ownStep_lock {locks : ReentrantLocks P T K}
    (h : Relation.ReflTransGen (ReentrantLocks.Advance proc t) w.locks locks) :
    Relation.ReflTransGen (OwnStep proc k fromTimestamp t) w { w with locks } := by
  induction h with
  | refl => exact .refl
  | tail _ hl ih => exact ih.tail ⟨.lock t, rfl, .lock hl⟩

theorem Sound.ownSteps (h : w.Sound proc k fromTimestamp)
    (hs : Relation.ReflTransGen (OwnStep proc k fromTimestamp t) w w') :
    w'.Sound proc k fromTimestamp := by
  induction hs with
  | refl => exact h
  | tail _ hl ih =>
    obtain ⟨e, -, hl⟩ := hl
    exact ih.step hl

omit [Fintype T] in
theorem ownStep_body {c : Option (PredicateRun J N)} {i : J} {q : HistoryQuery} {pc : HistoryPc}
    {x : LastRunHistory N} {call : HistoryCall N} {file : File}
    (ht : w.thread t = ⟨c, some ⟨i, .read q, .inside pc⟩⟩)
    (hx : w.instances (proc t) i = some x)
    (hb : HistoryStep (⟨x, none, pc⟩, w.file) (call, file)) :
    ∃ w', OwnStep proc k fromTimestamp t w w' ∧ w'.locks = w.locks ∧ w'.file = file ∧
      w'.thread t = ⟨c, some ⟨i, .read q, .inside call.pc⟩⟩ ∧
      w'.instances (proc t) i = some call.history :=
  ⟨_, ⟨.body t, rfl, .body ht rfl hx hb⟩, rfl, rfl, setThread_same .., by simp [setThread]⟩

omit [Fintype T] in
/-- The body of a read comes to its end. -/
theorem reloads {c : Option (PredicateRun J N)} {i : J} {q : HistoryQuery} {x : LastRunHistory N}
    (ht : w.thread t = ⟨c, some ⟨i, .read q, .inside .exists⟩⟩)
    (hx : w.instances (proc t) i = some x) :
    ∃ w' x', Relation.ReflTransGen (OwnStep proc k fromTimestamp t) w w' ∧ w'.locks = w.locks ∧
      w'.thread t = ⟨c, some ⟨i, .read q, .inside .done⟩⟩ ∧
      w'.instances (proc t) i = some x' := by
  cases hfile : w.file with
  | none =>
    have hmissing : HistoryStep (⟨x, none, .exists⟩, w.file) (⟨x, none, .done⟩, none) := by
      rw [hfile]
      exact .missing rfl
    obtain ⟨w', hown, hlocks, -, ht', hx'⟩ := ownStep_body ht hx hmissing
    exact ⟨w', _, .single hown, hlocks, ht', hx'⟩
  | some content =>
    have hfound : HistoryStep (⟨x, none, .exists⟩, w.file) (⟨x, none, .load⟩, some content) := by
      rw [hfile]
      exact .found rfl
    obtain ⟨w₁, hown₁, hlocks₁, -, ht₁, hx₁⟩ := ownStep_body ht hx hfound
    have hload : HistoryStep (⟨x, none, .load⟩, w₁.file)
        (⟨x.loadFromFileWithoutLock w₁.file, none, .done⟩, w₁.file) := .load rfl
    obtain ⟨w', hown, hlocks, -, ht', hx'⟩ := ownStep_body ht₁ hx₁ hload
    exact ⟨w', _, .tail (.single hown₁) hown, hlocks.trans hlocks₁, ht', hx'⟩

/-- A read of the predicate gets its answer. -/
theorem Sound.answers (h : w.Sound proc k fromTimestamp) {c : PredicateRun J N} {d : Decision N}
    {q : HistoryQuery} (ht : w.thread t = ⟨some c, none⟩) (hc : c.stage = .inside d)
    (hq : d.query = some q) :
    ∃ w' entries, Relation.ReflTransGen (OwnStep proc k fromTimestamp t) w w' ∧
      w'.thread t = ⟨some { c with
        stage := .inside (d.resume (q.answer fromTimestamp entries))
        reads := c.reads ++ [(q, q.answer fromTimestamp entries)] }, none⟩ := by
  have hfits := h.fits t
  rw [ht] at hfits
  simp only [HistoryThread.Fits, hc] at hfits
  obtain ⟨g, hg, hk, hin⟩ := hfits
  -- It enters the lock again,
  obtain ⟨w₁, hown₁, ht₁, f, hf₁, hfk, hfs⟩ : ∃ w₁, OwnStep proc k fromTimestamp t w w₁ ∧
      w₁.thread t = ⟨some c, some ⟨c.call.index, .read q, .entering⟩⟩ ∧
      ∃ f, w₁.locks.frames t = [f, g] ∧ f.key = k ∧ f.stage = .acquire := by
    refine ⟨_, ⟨.read t, rfl, .read ht hc hq⟩, enterLock_same ..,
      ⟨k, (w.locks.getState (proc t) k).1, .acquire⟩, ?_, rfl, rfl⟩
    rw [enterLock_frames, hg]
  have h₁ := h.ownSteps (.single hown₁)
  obtain ⟨locks₂, hadvance₂, hframes₂⟩ :=
    h₁.locks.enters_nested hf₁ hfs (.head _) (hk.trans hfk.symm)
  have hf₂ : locks₂.frames t = [{ f with stage := .nested }, g] := by
    rw [hframes₂, Function.update_self]
  -- reloads the history,
  have ht₃ := setThread_same { w₁ with locks := locks₂ } t
    ⟨some c, some ⟨c.call.index, .read q, .inside .exists⟩⟩
  have hown₃ : OwnStep proc k fromTimestamp t { w₁ with locks := locks₂ } _ :=
    ⟨.begin t, rfl, .begin ht₁ rfl ⟨_, _, hf₂, rfl⟩⟩
  obtain ⟨x, hx, -⟩ := h₁.reading ht₁ hc
  obtain ⟨w₄, x', hown₄, hlocks₄, ht₄, hx₄⟩ := reloads ht₃ hx
  -- leaves the lock
  have hf₄ : w₄.locks.frames t = [{ f with stage := .nested }, g] := by
    rw [hlocks₄]
    exact hf₂
  obtain ⟨locks₅, hleave, hframes₅⟩ : ∃ locks, ReentrantLocks.Leave t k w₄.locks locks ∧
      locks.frames = Function.update w₄.locks.frames t [{ f with stage := .release }, g] :=
    ⟨_, .nested hf₄ hfk rfl, rfl⟩
  have hf₅ : locks₅.frames t = [{ f with stage := .release }, g] := by
    rw [hframes₅, Function.update_self]
  have hown₅ : OwnStep proc k fromTimestamp t w₄ _ :=
    ⟨.leave t, rfl, .leave ht₄ rfl hx₄ hleave⟩
  have hown : Relation.ReflTransGen (OwnStep proc k fromTimestamp t) w _ :=
    ((((Relation.ReflTransGen.single hown₁).trans (ownStep_lock hadvance₂)).tail hown₃).trans
      hown₄).tail hown₅
  have h₅ := h.ownSteps hown
  have ht₅ := setThread_same { w₄ with locks := locks₅ } t
    ⟨some c, some ⟨c.call.index, .read q, .leaving (q.answer fromTimestamp x'.entries)⟩⟩
  obtain ⟨locks₆, hadvance₆, hframes₆⟩ := h₅.locks.exits hf₅ rfl
  have hf₆ : locks₆.frames t = [g] := by
    rw [hframes₆, Function.update_self]
  -- and has its answer.
  refine ⟨_, x'.entries, (hown.trans (ownStep_lock hadvance₆)).tail
    ⟨.resume t, rfl, .resume ht₅ hc rfl rfl ⟨g, [], hf₆, hin⟩⟩, setThread_same ..⟩

/-- One read after the other it comes to a decision. -/
theorem Sound.decides (h : w.Sound proc k fromTimestamp) {c : PredicateRun J N} {d : Decision N}
    (ht : w.thread t = ⟨some c, none⟩) (hc : c.stage = .inside d) :
    ∃ w' reads r, Relation.ReflTransGen (OwnStep proc k fromTimestamp t) w w' ∧
      w'.thread t = ⟨some ⟨c.call, .inside (.done r), reads⟩, none⟩ := by
  induction d generalizing w c with
  | done r =>
    obtain ⟨call, stage, reads⟩ := c
    cases hc
    exact ⟨w, reads, r, .refl, ht⟩
  | nFailuresSinceLastSuccess next ih =>
    obtain ⟨w₁, entries, hown₁, ht₁⟩ := h.answers ht hc rfl
    obtain ⟨w', reads, r, hown, ht'⟩ := ih _ (h.ownSteps hown₁) ht₁ rfl
    exact ⟨w', reads, r, hown₁.trans hown, ht'⟩
  | lastFinished next ih =>
    obtain ⟨w₁, entries, hown₁, ht₁⟩ := h.answers ht hc rfl
    rw [HistoryQuery.answer] at ht₁
    cases hanswer : SchedulingUtil.lastFinished fromTimestamp entries with
    | error e =>
      rw [hanswer] at ht₁
      exact ⟨w₁, _, _, hown₁, ht₁⟩
    | ok e =>
      rw [hanswer] at ht₁
      obtain ⟨w', reads, r, hown, ht'⟩ := ih e (h.ownSteps hown₁) ht₁ rfl
      exact ⟨w', reads, r, hown₁.trans hown, ht'⟩
  | lastSuccess next ih =>
    obtain ⟨w₁, entries, hown₁, ht₁⟩ := h.answers ht hc rfl
    rw [HistoryQuery.answer] at ht₁
    cases hanswer : SchedulingUtil.lastSuccess fromTimestamp entries with
    | error e =>
      rw [hanswer] at ht₁
      exact ⟨w₁, _, _, hown₁, ht₁⟩
    | ok e =>
      rw [hanswer] at ht₁
      obtain ⟨w', reads, r, hown, ht'⟩ := ih e (h.ownSteps hown₁) ht₁ rfl
      exact ⟨w', reads, r, hown₁.trans hown, ht'⟩

/-- **Once it has the lock, the call returns** without waiting for any other thread. -/
theorem Sound.responds (h : w.Sound proc k fromTimestamp) {c : PredicateRun J N} {d : Decision N}
    (ht : w.thread t = ⟨some c, none⟩) (hc : c.stage = .inside d) :
    ∃ w' reads r w'', Relation.ReflTransGen (OwnStep proc k fromTimestamp t) w w' ∧
      Step proc k fromTimestamp w' (.respond t c.call reads r) w'' := by
  obtain ⟨w₁, reads, r, hown₁, ht₁⟩ := h.decides ht hc
  have hfits := (h.ownSteps hown₁).fits t
  rw [ht₁] at hfits
  obtain ⟨f, hf, hk, hin⟩ := hfits
  obtain ⟨locks₂, stage, hleave, hx, hframes₂⟩ := ReentrantLocks.leave_of_inside hf hin
  have hown₂ : OwnStep proc k fromTimestamp t w₁ _ :=
    ⟨.decided t c.call reads r, rfl, .decided ht₁ rfl (hk ▸ hleave)⟩
  have ht₂ := setThread_same { w₁ with locks := locks₂ } t
    ⟨some ⟨c.call, .leaving r, reads⟩, none⟩
  have hf₂ : locks₂.frames t = [{ f with stage }] := by
    rw [hframes₂, Function.update_self]
  obtain ⟨locks₃, hadvance₃, hframes₃⟩ := ((h.ownSteps hown₁).ownSteps (.single hown₂)).locks.exits
    hf₂ hx
  have hout : locks₃.frames t = [] := by
    rw [hframes₃, Function.update_self]
  obtain ⟨w₃, hown₃, ht₃, hout₃⟩ : ∃ w₃,
      Relation.ReflTransGen (OwnStep proc k fromTimestamp t) w w₃ ∧
      w₃.thread t = ⟨some ⟨c.call, .leaving r, reads⟩, none⟩ ∧ w₃.locks.frames t = [] :=
    ⟨_, (hown₁.tail hown₂).trans (ownStep_lock hadvance₃), ht₂, hout⟩
  exact ⟨w₃, reads, r, _, hown₃, .respond ht₃ rfl hout₃⟩

/-! ## Runs -/

theorem sound_run {mtime : K → Option Int} {file : File}
    {instances : P → J → Option (LastRunHistory N)}
    {steps : List (HistoryWorld P T K J N × HistoryEvent P T J N)}
    (h : Execution (Step proc k fromTimestamp) (start mtime file instances) steps w) :
    w.Sound proc k fromTimestamp :=
  h.invariant (fun _ _ _ hw hl => hw.step hl)
    ⟨ReentrantLocks.Sound.unlocked proc mtime, fun _ => rfl, fun _ _ hc => by cases hc⟩

/-- What the call has read and decided when it gives back the lock. -/
theorem Sound.decided (h : w.Sound proc k fromTimestamp) {c : PredicateCall J}
    {reads : List (HistoryQuery × HistoryAnswer N)} {r : Except PyException (Bool × List Report)}
    (hs : Step proc k fromTimestamp w (.decided t c reads r) w') :
    ∃ x, w.instances (proc t) c.index = some x ∧
      (∀ q a, (q, a) ∈ reads → a = q.answer fromTimestamp (x.snapshot w.file)) ∧
      c.predicate.call fromTimestamp c.now (x.snapshot w.file) = (c.predicate, r) := by
  cases hs with
  | @decided _ c _ _ ht hc hl =>
    obtain ⟨x, hx, hdecides⟩ := h.reading ht hc
    refine ⟨x, hx, fun q a hq => hdecides.reads _ hq, ?_⟩
    rw [RunPredicate.call, c.call.unforced]
    exact congrArg _ hdecides.decision.symm

omit [Fintype T] in
/-- A call that is to return its decision has taken it before. -/
theorem leaving_step {e : HistoryEvent P T J N} (hs : Step proc k fromTimestamp w e w')
    {c : PredicateRun J N} {r : Except PyException (Bool × List Report)}
    (ht : (w'.thread t).predicate = some c) (hc : c.stage = .leaving r) :
    (w.thread t).predicate = some c ∨ e = .decided t c.call c.reads r := by
  by_cases hu : e.thread = some t
  · cases hs with
    | create hnew => cases hu
    | lock hadvance => exact .inl ht
    | read ht' | begin ht' | body ht' | leave ht' =>
      cases hu
      simp only [setThread_same, enterLock_same] at ht
      rw [ht']
      exact .inl ht
    | call ht' | finish ht' | respond ht' =>
      cases hu
      simp only [setThread_same, enterLock_same] at ht
      cases ht
    | resume ht' | ask ht' | consider ht' =>
      cases hu
      simp only [setThread_same, enterLock_same] at ht
      cases ht
      cases hc
    | decided ht' =>
      cases hu
      rw [setThread_same] at ht
      cases ht
      cases hc
      exact .inr rfl
  · rw [thread_other hs hu] at ht
    exact .inl ht

omit [Fintype T] in
theorem decided_before {mtime : K → Option Int} {file : File}
    {instances : P → J → Option (LastRunHistory N)}
    {steps : List (HistoryWorld P T K J N × HistoryEvent P T J N)}
    (h : Execution (Step proc k fromTimestamp) (start mtime file instances) steps w)
    {c : PredicateRun J N} {r : Except PyException (Bool × List Report)}
    (ht : (w.thread t).predicate = some c) (hc : c.stage = .leaving r) :
    ∃ y, (y, .decided t c.call c.reads r) ∈ steps := by
  induction h with
  | refl => cases ht
  | @snoc w' w'' e steps _ hl ih =>
    rcases leaving_step hl ht hc with hbefore | rfl
    · obtain ⟨y, hy⟩ := ih hbefore
      exact ⟨y, List.mem_append_left _ hy⟩
    · exact ⟨w', List.mem_append_right _ (.head _)⟩

/-- **A decision is taken on one snapshot**: every read that a call of the predicate has made
answers from the entries that its history held when it gave back the lock, and what it returns
is the policy's decision on them. -/
theorem decision_on_one_snapshot {mtime : K → Option Int} {file : File}
    {instances : P → J → Option (LastRunHistory N)}
    {pre post : List (HistoryWorld P T K J N × HistoryEvent P T J N)}
    {x : HistoryWorld P T K J N} {c : PredicateCall J}
    {reads : List (HistoryQuery × HistoryAnswer N)} {r : Except PyException (Bool × List Report)}
    (h : Execution (Step proc k fromTimestamp) (start mtime file instances)
      (pre ++ (x, .respond t c reads r) :: post) w) :
    ∃ entries : List (LastRunHistoryEntry N),
      (∀ q a, (q, a) ∈ reads → a = q.answer fromTimestamp entries) ∧
      c.predicate.call fromTimestamp c.now entries = (c.predicate, r) ∧
      ∃ y history, (y, .decided t c reads r) ∈ pre ∧ y.instances (proc t) c.index = some history ∧
        history.snapshot y.file = entries := by
  obtain ⟨hpre, x', hx, -⟩ := h.middle
  obtain ⟨y, hy⟩ : ∃ y, (y, .decided t c reads r) ∈ pre := by
    cases hx with
    | respond ht hc hout => exact decided_before hpre (by rw [ht]) hc
  obtain ⟨before, after, rfl⟩ := List.append_of_mem hy
  obtain ⟨hbefore, y', hdecided, -⟩ := hpre.middle
  obtain ⟨history, hhistory, hreads, hcall⟩ := (sound_run hbefore).decided hdecided
  exact ⟨_, hreads, hcall, y, history, hy, hhistory, rfl⟩

/-! A call behind a failure, while another process is to append. -/

def failedHistory : List (LastRunHistoryEntry Int) :=
  [.finished ⟨0, .success, ""⟩, .finished ⟨6, .failure, ""⟩]

def stalledCall : PredicateCall Unit := ⟨(), ⟨10, 10, 5, 1, .stall, false, none⟩, 7, rfl⟩

def beforeStalledCall : HistoryWorld Bool Bool Unit Unit Int :=
  start (fun _ => none) (some (dumpEntries failedHistory)) fun _ _ => some ⟨[], 10, true⟩

open ReentrantLocks in
theorem stalledCall_returns : ∃ pre x reads reports w,
    Execution (Step (fun t : Bool => t) () .ok) beforeStalledCall
      (pre ++ [(x, .respond true stalledCall reads (.ok (false, reports)))]) w ∧
    reads.map Prod.fst = [.lastFinished, .nFailuresSinceLastSuccess, .lastSuccess] := by
  have hload (es : List (LastRunHistoryEntry Int)) :
      HistoryStep (⟨⟨es, 10, true⟩, none, .load⟩, some (dumpEntries failedHistory))
        (⟨⟨failedHistory, 10, true⟩, none, .done⟩, some (dumpEntries failedHistory)) := by
    have hentries : LastRunHistory.loadFromFileWithoutLock ⟨es, 10, true⟩
        (some (dumpEntries failedHistory)) = ⟨failedHistory, 10, true⟩ := by
      simp only [LastRunHistory.loadFromFileWithoutLock, if_true, load_dumpEntries]
      rfl
    rw [← hentries]
    exact .load rfl
  have hrun : ∃ steps x reads reports,
      Execution (Step (fun t : Bool => t) () .ok) beforeStalledCall steps x ∧
      x.thread true = ⟨some ⟨stalledCall, .leaving (.ok (false, reports)), reads⟩, none⟩ ∧
      x.locks.frames true = [] ∧
      reads.map Prod.fst = [.lastFinished, .nFailuresSinceLastSuccess, .lastSuccess] := by
    refine ⟨_, _, _, _,
      .cons (l := .ask true stalledCall) (.ask rfl rfl) <|
      .cons (l := .lock true) (.lock (Advance.acquire (f := ⟨(), 0, .acquire⟩) rfl rfl rfl)) <|
      .cons (l := .lock true)
        (.lock (Advance.outermost (f := ⟨(), 0, .test⟩) rfl rfl (by decide +kernel))) <|
      .cons (l := .lock true)
        (.lock (Advance.file (f := ⟨(), 0, .file .createExclusive⟩) rfl rfl (.created 0))) <|
      .cons (l := .lock true)
        (.lock (Advance.file (f := ⟨(), 0, .file (.flock true)⟩) rfl rfl .flock)) <|
      .cons (l := .lock true) (.lock (Advance.file (f := ⟨(), 0, .file .utime⟩) rfl rfl .utime)) <|
      .cons (l := .consider true) (.consider (c := ⟨stalledCall, _, _⟩) rfl rfl ⟨_, _, rfl, rfl⟩) <|
      -- another process is to append
      .cons (l := .call false () (.append firstEntry)) (.call rfl) <|
      .cons (l := .lock false) (.lock (Advance.acquire (f := ⟨(), 1, .acquire⟩) rfl rfl rfl)) <|
      .cons (l := .lock false)
        (.lock (Advance.outermost (f := ⟨(), 1, .test⟩) rfl rfl (by decide +kernel))) <|
      .cons (l := .lock false)
        (.lock (Advance.file (f := ⟨(), 1, .file .createExclusive⟩) rfl rfl .fileExists)) <|
      .cons (l := .lock false)
        (.lock (Advance.file (f := ⟨(), 1, .file .openExisting⟩) rfl rfl .opened)) <|
      -- `last_finished`
      .cons (l := .read true) (.read (c := ⟨stalledCall, _, _⟩) rfl rfl rfl) <|
      .cons (l := .lock true) (.lock (Advance.acquire (f := ⟨(), 0, .acquire⟩) rfl rfl rfl)) <|
      .cons (l := .lock true)
        (.lock (Advance.nested (f := ⟨(), 0, .test⟩) rfl rfl (by decide +kernel))) <|
      .cons (l := .begin true) (.begin rfl rfl ⟨_, _, rfl, rfl⟩) <|
      .cons (l := .body true) (.body rfl rfl rfl (.found rfl)) <|
      .cons (l := .body true) (.body rfl rfl rfl (hload _)) <|
      .cons (l := .leave true)
        (.leave rfl rfl rfl (Leave.nested (f := ⟨(), 0, .nested⟩) rfl rfl rfl)) <|
      .cons (l := .lock true) (.lock (Advance.release (f := ⟨(), 0, .release⟩) rfl rfl rfl)) <|
      .cons (l := .lock true) (.lock (Advance.drop (f := ⟨(), 0, .drop⟩) rfl rfl)) <|
      .cons (l := .resume true)
        (.resume (c := ⟨stalledCall, _, _⟩) rfl rfl rfl rfl ⟨_, _, rfl, rfl⟩) <|
      -- `n_failures_since_last_success`
      .cons (l := .read true) (.read (c := ⟨stalledCall, _, _⟩) rfl rfl rfl) <|
      .cons (l := .lock true) (.lock (Advance.acquire (f := ⟨(), 0, .acquire⟩) rfl rfl rfl)) <|
      .cons (l := .lock true)
        (.lock (Advance.nested (f := ⟨(), 0, .test⟩) rfl rfl (by decide +kernel))) <|
      .cons (l := .begin true) (.begin rfl rfl ⟨_, _, rfl, rfl⟩) <|
      .cons (l := .body true) (.body rfl rfl rfl (.found rfl)) <|
      .cons (l := .body true) (.body rfl rfl rfl (hload _)) <|
      .cons (l := .leave true)
        (.leave rfl rfl rfl (Leave.nested (f := ⟨(), 0, .nested⟩) rfl rfl rfl)) <|
      .cons (l := .lock true) (.lock (Advance.release (f := ⟨(), 0, .release⟩) rfl rfl rfl)) <|
      .cons (l := .lock true) (.lock (Advance.drop (f := ⟨(), 0, .drop⟩) rfl rfl)) <|
      .cons (l := .resume true)
        (.resume (c := ⟨stalledCall, _, _⟩) rfl rfl rfl rfl ⟨_, _, rfl, rfl⟩) <|
      -- `last_success`
      .cons (l := .read true) (.read (c := ⟨stalledCall, _, _⟩) rfl rfl rfl) <|
      .cons (l := .lock true) (.lock (Advance.acquire (f := ⟨(), 0, .acquire⟩) rfl rfl rfl)) <|
      .cons (l := .lock true)
        (.lock (Advance.nested (f := ⟨(), 0, .test⟩) rfl rfl (by decide +kernel))) <|
      .cons (l := .begin true) (.begin rfl rfl ⟨_, _, rfl, rfl⟩) <|
      .cons (l := .body true) (.body rfl rfl rfl (.found rfl)) <|
      .cons (l := .body true) (.body rfl rfl rfl (hload _)) <|
      .cons (l := .leave true)
        (.leave rfl rfl rfl (Leave.nested (f := ⟨(), 0, .nested⟩) rfl rfl rfl)) <|
      .cons (l := .lock true) (.lock (Advance.release (f := ⟨(), 0, .release⟩) rfl rfl rfl)) <|
      .cons (l := .lock true) (.lock (Advance.drop (f := ⟨(), 0, .drop⟩) rfl rfl)) <|
      .cons (l := .resume true)
        (.resume (c := ⟨stalledCall, _, _⟩) rfl rfl rfl rfl ⟨_, _, rfl, rfl⟩) <|
      -- the decision
      .cons (l := .decided true _ _ _)
        (.decided (c := ⟨stalledCall, _, _⟩) rfl rfl
          (Leave.outermost (f := ⟨(), 0, .file .inside⟩) rfl rfl rfl)) <|
      .cons (l := .lock true) (.lock (Advance.closed (f := ⟨(), 0, .file .close⟩) rfl rfl)) <|
      .cons (l := .lock true) (.lock (Advance.reset (f := ⟨(), 0, .reset⟩) rfl rfl)) <|
      .cons (l := .lock true) (.lock (Advance.release (f := ⟨(), 0, .release⟩) rfl rfl rfl)) <|
      .cons (l := .lock true) (.lock (Advance.drop (f := ⟨(), 0, .drop⟩) rfl rfl)) <|
      .refl, rfl, rfl, rfl⟩
  obtain ⟨steps, x, reads, reports, h, ht, hout, hreads⟩ := hrun
  exact ⟨steps, x, reads, reports, _, h.snoc (.respond ht rfl hout), hreads⟩

/-- Three reads, and one list that answers them. -/
theorem decision_on_one_snapshot_stalled :
    ∃ pre x reads reports w, ∃ entries : List (LastRunHistoryEntry Int),
      Execution (Step (fun t : Bool => t) () .ok) beforeStalledCall
        (pre ++ [(x, .respond true stalledCall reads (.ok (false, reports)))]) w ∧
      reads.map Prod.fst = [.lastFinished, .nFailuresSinceLastSuccess, .lastSuccess] ∧
      (∀ q a, (q, a) ∈ reads → a = q.answer .ok entries) ∧
      stalledCall.predicate.call .ok stalledCall.now entries =
        (stalledCall.predicate, .ok (false, reports)) := by
  obtain ⟨pre, x, reads, reports, w, h, hqueries⟩ := stalledCall_returns
  obtain ⟨entries, hreads, hcall, -⟩ := decision_on_one_snapshot h
  exact ⟨pre, x, reads, reports, w, entries, h, hqueries, hreads, hcall⟩

end HistoryWorld

end SchedulingUtil
