import SchedulingUtil.ReentrantPathLockRuns
import SchedulingUtil.RunPredicateSteps

/-! # `RunPredicate` keeps the lock

From the entry of the lock in `_predicate` to its exit the thread has a context manager whose
body runs, also while its reads enter and leave the lock. So no other thread is in the body of
an operation, and what a reload of the history gives stays the same. -/
namespace SchedulingUtil
open Lib LockFrame

variable {N : Type}

/-! ## The context managers of a thread -/

/-- The context managers `fs` of a thread at this stage of a call, of which `outer` were there
before. -/
def CallStage.Fits {A B K : Type} (k : K) (outer fs : List (LockFrame K)) : CallStage A B → Prop
  | .entering => ∃ f, fs = f :: outer ∧ f.key = k ∧ f.stage.exiting = false
  | .inside _ => ∃ f, fs = f :: outer ∧ f.key = k ∧ f.stage.inside = true
  | .leaving _ => fs = outer ∨ ∃ f, fs = f :: outer ∧ f.stage.exiting = true

def HistoryThread.Fits {J K : Type} (k : K) (fs : List (LockFrame K)) : HistoryThread J N → Prop
  | ⟨none, none⟩ => fs = []
  | ⟨none, some o⟩ => o.stage.Fits k [] fs
  | ⟨some c, none⟩ => c.stage.Fits k [] fs
  | ⟨some c, some o⟩ => (∃ d, c.stage = .inside d) ∧
      ∃ g, g.key = k ∧ g.stage.inside = true ∧ o.stage.Fits k [g] fs

section Fits
variable {A B P T J K : Type} [DecidableEq P] [DecidableEq T] [DecidableEq K] {proc : T → P}
  {s s' : ReentrantLocks P T K} {t : T} {k : K} {outer : List (LockFrame K)}
  {stage : CallStage A B} {th : HistoryThread J N}

/-- The lock's own code does not leave the stage. -/
theorem CallStage.Fits.advance (h : stage.Fits k outer (s.frames t))
    (houter : ∀ g ∈ outer, g.stage.inside = true) (hs : ReentrantLocks.Advance proc t s s') :
    stage.Fits k outer (s'.frames t) := by
  obtain ⟨f, rest, hf, hout, hframes⟩ := hs.frames
  rw [hf] at h
  cases stage with
  | entering =>
    obtain ⟨f', hcons, hk, hx⟩ := h
    obtain ⟨rfl, rfl⟩ := List.cons.inj hcons
    rcases hframes with ⟨stage, hstage, hframes⟩ | ⟨hx', -⟩
    · rw [hframes, Function.update_self]
      exact ⟨_, rfl, hk, hstage.trans hx⟩
    · rw [hx] at hx'
      cases hx'
  | inside a =>
    obtain ⟨f', hcons, -, hin⟩ := h
    obtain ⟨rfl, rfl⟩ := List.cons.inj hcons
    rw [hout] at hin
    cases hin
  | leaving b =>
    rcases h with rfl | ⟨f', hcons, hx⟩
    · rw [houter f (.head _)] at hout
      cases hout
    · obtain ⟨rfl, rfl⟩ := List.cons.inj hcons
      rcases hframes with ⟨stage, hstage, hframes⟩ | ⟨-, hframes⟩ <;>
        rw [hframes, Function.update_self]
      · exact .inr ⟨_, rfl, hstage.trans hx⟩
      · exact .inl rfl

theorem HistoryThread.Fits.advance (h : th.Fits k (s.frames t))
    (hs : ReentrantLocks.Advance proc t s s') : th.Fits k (s'.frames t) := by
  obtain ⟨c, o⟩ := th
  cases c with
  | none =>
    cases o with
    | none =>
      obtain ⟨f, rest, hf, -⟩ := hs.frames
      rw [HistoryThread.Fits, hf] at h
      cases h
    | some o => exact CallStage.Fits.advance h (by simp) hs
  | some c =>
    cases o with
    | none => exact CallStage.Fits.advance h (by simp) hs
    | some o =>
      obtain ⟨hc, g, hk, hin, hfits⟩ := h
      exact ⟨hc, g, hk, hin, hfits.advance (by simpa using hin) hs⟩

omit [DecidableEq P] [DecidableEq T] [DecidableEq K] in
theorem CallStage.Fits.body
    (h : (CallStage.entering (A := A) (B := B)).Fits k outer (s.frames t)) (a : A)
    (hin : s.BodyRuns t) : (CallStage.inside (B := B) a).Fits k outer (s.frames t) := by
  obtain ⟨f, hf, hk, -⟩ := h
  obtain ⟨f', rest, hf', hin⟩ := hin
  obtain ⟨rfl, rfl⟩ := List.cons.inj (hf.symm.trans hf')
  exact ⟨f, hf, hk, hin⟩

omit [DecidableEq P] in
theorem CallStage.Fits.leave {a : A}
    (h : (CallStage.inside (B := B) a).Fits k outer (s.frames t)) (b : B)
    (hs : ReentrantLocks.Leave t k s s') :
    (CallStage.leaving (A := A) b).Fits k outer (s'.frames t) := by
  obtain ⟨f, hf, -⟩ := h
  obtain ⟨f', rest, stage, hf', -, -, hx, hframes⟩ := hs.frames
  obtain ⟨rfl, rfl⟩ := List.cons.inj (hf.symm.trans hf')
  rw [hframes, Function.update_self]
  exact .inr ⟨_, rfl, hx⟩

omit [DecidableEq K] in
theorem HistoryThread.Fits.operation {c : Option (PredicateRun J N)} {o o' : OperationCall J N}
    {fs fs' : List (LockFrame K)} (h : (⟨c, some o⟩ : HistoryThread J N).Fits k fs)
    (ho : ∀ outer, o.stage.Fits k outer fs → o'.stage.Fits k outer fs') :
    (⟨c, some o'⟩ : HistoryThread J N).Fits k fs' := by
  cases c with
  | none => exact ho [] h
  | some c =>
    obtain ⟨hc, g, hk, hin, hfits⟩ := h
    exact ⟨hc, g, hk, hin, ho [g] hfits⟩

end Fits

/-! ## A read under way -/

/-- How far the body of a read has come. -/
def LastRunHistory.ReadAt [PyNumber N] (h : LastRunHistory N) (file : File) (pc : HistoryPc) :
    Prop :=
  pc = .exists ∨ pc = .load ∧ file.isSome = true ∨ pc = .done ∧ h.entries = h.snapshot file

/-- It reloads what it would have been reloaded with before. -/
theorem HistoryStep.readAt [PyNumber N] {h : LastRunHistory N} {pc : HistoryPc} {file file' : File}
    {call : HistoryCall N} (hs : HistoryStep (⟨h, none, pc⟩, file) (call, file'))
    (hpc : h.ReadAt file pc) :
    file' = file ∧ call.history.snapshot file = h.snapshot file ∧
      call.history.ReadAt file call.pc := by
  cases hs with
  | found h' =>
    cases h'
    exact ⟨rfl, rfl, .inr (.inl ⟨rfl, rfl⟩)⟩
  | missing h' => exact ⟨rfl, rfl, .inr (.inr ⟨rfl, (h.snapshot_cached none (by simp)).symm⟩)⟩
  | load h' =>
    have hsome : file.isSome = true := by
      rcases hpc with hpc | ⟨-, hsome⟩ | ⟨hpc, -⟩
      · rw [show pc = .load from h'] at hpc
        cases hpc
      · exact hsome
      · rw [show pc = .load from h'] at hpc
        cases hpc
    dsimp only
    rw [loadFromFile_eq_refresh (.inl hsome)]
    exact ⟨rfl, h.snapshot_refresh file, .inr (.inr ⟨rfl, (h.snapshot_refresh file).symm⟩)⟩
  | add h' he => cases he
  | _ h' =>
    rcases hpc with hpc | ⟨hpc, -⟩ | ⟨hpc, -⟩ <;>
    · cases hpc
      cases h'

/-! ## The invariant -/

variable [PyNumber N] {J : Type}

/-- A read of the call, on its instance `h`. -/
def OperationCall.Reads (o : OperationCall J N) (fromTimestamp : FromTimestamp N) (i : J)
    (q : HistoryQuery) (h : LastRunHistory N) (file : File) : Prop :=
  o.index = i ∧ o.op = .read q ∧
    match o.stage with
    | .entering => True
    | .inside pc => h.ReadAt file pc
    | .leaving a => a = q.answer fromTimestamp (h.snapshot file)

/-- The reads so far have answered from what a reload gives now, and what is left of the
decision comes to the policy's on that. -/
structure PredicateRun.DecidesOn (c : PredicateRun J N) (fromTimestamp : FromTimestamp N)
    (d : Decision N) (o? : Option (OperationCall J N)) (h : LastRunHistory N) (file : File) :
    Prop where
  reads : ∀ x ∈ c.reads, x.2 = x.1.answer fromTimestamp (h.snapshot file)
  decision : d.eval fromTimestamp (h.snapshot file) =
    c.call.predicate.predicate fromTimestamp c.call.now (h.snapshot file)
  operation : ∀ o, o? = some o →
    ∃ q, d.query = some q ∧ o.Reads fromTimestamp c.call.index q h file

def PredicateRun.Consistent (c : PredicateRun J N) (fromTimestamp : FromTimestamp N)
    (o? : Option (OperationCall J N)) (instance? : Option (LastRunHistory N)) (file : File) :
    Prop :=
  match c.stage with
  | .entering => instance?.isSome = true ∧ c.reads = []
  | .inside d => ∃ h, instance? = some h ∧ c.DecidesOn fromTimestamp d o? h file
  | .leaving _ => True

theorem PredicateRun.Consistent.mono {c : PredicateRun J N} {fromTimestamp : FromTimestamp N}
    {o? : Option (OperationCall J N)} {instance? instance?' : Option (LastRunHistory N)}
    {file : File} (h : c.Consistent fromTimestamp o? instance? file)
    (hinst : ∀ x, instance? = some x → instance?' = some x) :
    c.Consistent fromTimestamp o? instance?' file := by
  unfold Consistent at h ⊢
  split at h
  · obtain ⟨hsome, hreads⟩ := h
    obtain ⟨x, hx⟩ := Option.isSome_iff_exists.mp hsome
    exact ⟨by rw [hinst x hx]; rfl, hreads⟩
  · obtain ⟨x, hx, hdecides⟩ := h
    exact ⟨x, hinst x hx, hdecides⟩
  · trivial

namespace HistoryWorld

variable {P T K : Type} [DecidableEq P] [DecidableEq T] [DecidableEq K] [DecidableEq J]
  [Fintype T] {proc : T → P} {k : K} {fromTimestamp : FromTimestamp N}
  {w w' : HistoryWorld P T K J N} {t u : T}

structure Sound (proc : T → P) (k : K) (fromTimestamp : FromTimestamp N)
    (w : HistoryWorld P T K J N) : Prop where
  locks : w.locks.Sound proc
  fits : ∀ t, (w.thread t).Fits k (w.locks.frames t)
  consistent : ∀ t c, (w.thread t).predicate = some c → c.Consistent fromTimestamp
    (w.thread t).operation (w.instances (proc t) c.call.index) w.file

omit [DecidableEq P] [DecidableEq K] [DecidableEq J] in
/-- A thread in the body of its predicate is inside, also during the reads. -/
theorem Sound.insideOf_predicate (h : w.Sound proc k fromTimestamp) {c : PredicateRun J N}
    {d : Decision N} (ht : (w.thread t).predicate = some c) (hc : c.stage = .inside d) :
    w.locks.InsideOf k t := by
  have hfits := h.fits t
  generalize hth : w.thread t = th at hfits ht
  obtain ⟨c', o⟩ := th
  cases ht
  cases o with
  | none =>
    rw [HistoryThread.Fits, hc] at hfits
    obtain ⟨f, hf, hk, hin⟩ := hfits
    exact ⟨f, by rw [hf]; exact .head _, hk, hin⟩
  | some o =>
    obtain ⟨-, g, hk, hin, hfits⟩ := hfits
    refine ⟨g, ?_, hk, hin⟩
    cases ho : o.stage with
    | entering | inside a =>
      rw [ho] at hfits
      obtain ⟨f, hf, -⟩ := hfits
      rw [hf]
      exact .tail _ (.head _)
    | leaving b =>
      rw [ho] at hfits
      rcases hfits with hf | ⟨f, hf, -⟩ <;> rw [hf]
      · exact .head _
      · exact .tail _ (.head _)

omit [DecidableEq P] [DecidableEq K] [DecidableEq J] in
theorem Sound.insideOf_operation (h : w.Sound proc k fromTimestamp) {o : OperationCall J N}
    {pc : HistoryPc} (ht : (w.thread t).operation = some o) (ho : o.stage = .inside pc) :
    w.locks.InsideOf k t := by
  have hfits := h.fits t
  generalize hth : w.thread t = th at hfits ht
  obtain ⟨c, o'⟩ := th
  cases ht
  cases c with
  | none =>
    rw [HistoryThread.Fits, ho] at hfits
    obtain ⟨f, hf, hk, hin⟩ := hfits
    exact ⟨f, by rw [hf]; exact .head _, hk, hin⟩
  | some c =>
    obtain ⟨-, g, -, -, hfits⟩ := hfits
    rw [ho] at hfits
    obtain ⟨f, hf, hk, hin⟩ := hfits
    exact ⟨f, by rw [hf]; exact .head _, hk, hin⟩

omit [DecidableEq P] [DecidableEq K] [DecidableEq J] in
/-- A step of `t` that leaves the file and the instances alone. -/
theorem Sound.change (h : w.Sound proc k fromTimestamp) {locks : ReentrantLocks P T K}
    {th : HistoryThread J N} (hlocks : locks.Sound proc)
    (hframes : ∀ u, u ≠ t → locks.frames u = w.locks.frames u)
    (hfits : th.Fits k (locks.frames t))
    (hcons : ∀ c, th.predicate = some c → c.Consistent fromTimestamp th.operation
      (w.instances (proc t) c.call.index) w.file) :
    (({ w with locks }).setThread t th).Sound proc k fromTimestamp := by
  refine ⟨hlocks, fun u => ?_, fun u c hc => ?_⟩ <;> by_cases hu : u = t
  · subst hu
    rw [setThread_same]
    exact hfits
  · rw [setThread_other _ _ hu]
    exact (hframes u hu).symm ▸ h.fits u
  · subst hu
    rw [setThread_same] at hc ⊢
    exact hcons c hc
  · rw [setThread_other _ _ hu] at hc ⊢
    exact h.consistent u c hc

omit [DecidableEq J] in
/-- The context manager of a new call comes to those of the thread, whose bodies run. -/
theorem Sound.enterLock (h : w.Sound proc k fromTimestamp) {th : HistoryThread J N}
    (hin : ∀ f ∈ w.locks.frames t, f.stage.inside = true)
    (hfits : ∀ f : LockFrame K, f.key = k → f.stage.exiting = false →
      th.Fits k (f :: w.locks.frames t))
    (hcons : ∀ c, th.predicate = some c → c.Consistent fromTimestamp th.operation
      (w.instances (proc t) c.call.index) w.file) :
    (w.enterLock proc k t th).Sound proc k fromTimestamp := by
  refine h.change (h.locks.enter hin k) (fun u hu => ?_) ?_ hcons <;>
    rw [ReentrantLocks.enter_frames]
  · rw [Function.update_of_ne hu]
  · rw [Function.update_self]
    exact hfits _ rfl rfl

omit [DecidableEq P] [DecidableEq K] [DecidableEq J] in
theorem Sound.idle (h : w.Sound proc k fromTimestamp) (ht : w.thread t = ⟨none, none⟩) :
    w.locks.frames t = [] := by
  have hfits := h.fits t
  rwa [ht] at hfits

omit [DecidableEq P] [DecidableEq J] in
/-- The body of an operation ends, or that of the predicate. -/
theorem Sound.leaveLock (h : w.Sound proc k fromTimestamp) {locks : ReentrantLocks P T K}
    {th : HistoryThread J N} (hl : ReentrantLocks.Leave t k w.locks locks)
    (hfits : th.Fits k (locks.frames t))
    (hcons : ∀ c, th.predicate = some c → c.Consistent fromTimestamp th.operation
      (w.instances (proc t) c.call.index) w.file) :
    (({ w with locks }).setThread t th).Sound proc k fromTimestamp := by
  refine h.change (h.locks.leave hl) (fun u hu => ?_) hfits hcons
  obtain ⟨f, rest, stage, -, -, -, -, hframes⟩ := hl.frames
  rw [hframes, Function.update_of_ne hu]

omit [DecidableEq K] in
/-- **What the body of an operation does** only its own predicate sees. -/
theorem Sound.body (h : w.Sound proc k fromTimestamp) {c : Option (PredicateRun J N)}
    {o : OperationCall J N} {pc : HistoryPc} {x : LastRunHistory N} {call : HistoryCall N}
    {file : File} (ht : w.thread t = ⟨c, some o⟩) (ho : o.stage = .inside pc)
    (hx : w.instances (proc t) o.index = some x)
    (hb : HistoryStep (⟨x, o.op.appended.head?, pc⟩, w.file) (call, file)) :
    (({ w with
        file
        instances := Function.update w.instances (proc t)
          (Function.update (w.instances (proc t)) o.index (some call.history)) }).setThread t
        ⟨c, some { o with stage := .inside call.pc }⟩).Sound proc k fromTimestamp := by
  have hinside := h.insideOf_operation (by rw [ht]) ho
  refine ⟨h.locks, fun u => ?_, fun u c' hc' => ?_⟩ <;> by_cases hu : u = t
  · subst hu
    have hfits := h.fits u
    rw [ht] at hfits
    rw [setThread_same]
    cases c with
    | none =>
      rw [HistoryThread.Fits, ho] at hfits
      exact hfits
    | some c =>
      rw [HistoryThread.Fits, ho] at hfits
      exact hfits
  · rw [setThread_other _ _ hu]
    exact h.fits u
  · subst hu
    rw [setThread_same] at hc' ⊢
    cases hc'
    have hfits := h.fits u
    have hcons := h.consistent u c' (by rw [ht])
    rw [ht] at hfits hcons
    obtain ⟨⟨d, hd⟩, -⟩ := hfits
    simp only [PredicateRun.Consistent, hd] at hcons ⊢
    obtain ⟨y, hy, hdecides⟩ := hcons
    obtain ⟨q, hq, hindex, hop, hread⟩ := hdecides.operation o rfl
    rw [← hindex, hx] at hy
    cases hy
    rw [ho] at hread
    rw [hop] at hb
    obtain ⟨rfl, hsnapshot, hread⟩ := hb.readAt hread
    refine ⟨call.history, ?_, ⟨?_, ?_, ?_⟩⟩
    · simp [setThread, hindex]
    · rw [setThread, hsnapshot]
      exact hdecides.reads
    · rw [setThread, hsnapshot]
      exact hdecides.decision
    · intro o' ho'
      cases ho'
      exact ⟨q, hq, hindex, hop, hread⟩
  · rw [setThread_other _ _ hu] at hc' ⊢
    have hcons := h.consistent u c' hc'
    simp only [PredicateRun.Consistent] at hcons ⊢
    split at hcons
    · obtain ⟨hsome, hreads⟩ := hcons
      refine ⟨?_, hreads⟩
      simp only [setThread, ReentrantLocks.update_entry]
      split
      · rfl
      · exact hsome
    · rename_i d hd
      exact absurd (h.locks.exclusive (h.insideOf_predicate hc' hd) hinside) hu
    · trivial

omit [DecidableEq P] [DecidableEq K] [DecidableEq J] in
/-- The predicate that the operation of a thread belongs to, in its body. -/
theorem Sound.reading (h : w.Sound proc k fromTimestamp) {c : PredicateRun J N}
    {o? : Option (OperationCall J N)} {d : Decision N} (ht : w.thread t = ⟨some c, o?⟩)
    (hd : c.stage = .inside d) : ∃ x, w.instances (proc t) c.call.index = some x ∧
      c.DecidesOn fromTimestamp d o? x w.file := by
  have hcons := h.consistent t c (by rw [ht])
  rw [ht] at hcons
  simpa only [PredicateRun.Consistent, hd] using hcons

omit [DecidableEq P] [DecidableEq K] [DecidableEq J] in
/-- An operation of its own, or a read, goes on. -/
theorem Sound.operation (h : w.Sound proc k fromTimestamp) {c : Option (PredicateRun J N)}
    {o o' : OperationCall J N} (ht : w.thread t = ⟨c, some o⟩)
    (hreads : ∀ i q x, w.instances (proc t) o.index = some x →
      o.Reads fromTimestamp i q x w.file → o'.Reads fromTimestamp i q x w.file) :
    ∀ c', c = some c' → c'.Consistent fromTimestamp (some o')
      (w.instances (proc t) c'.call.index) w.file := by
  intro c' hc'
  subst hc'
  have hfits := h.fits t
  rw [ht] at hfits
  obtain ⟨⟨d, hd⟩, -⟩ := hfits
  obtain ⟨x, hx, hdecides⟩ := h.reading ht hd
  simp only [PredicateRun.Consistent, hd]
  refine ⟨x, hx, hdecides.reads, hdecides.decision, fun o'' ho'' => ?_⟩
  cases ho''
  obtain ⟨q, hq, hread⟩ := hdecides.operation o rfl
  exact ⟨q, hq, hreads _ q x (hread.1 ▸ hx) hread⟩

theorem Sound.step (h : w.Sound proc k fromTimestamp) {e : HistoryEvent P T J N}
    (hs : Step proc k fromTimestamp w e w') : w'.Sound proc k fromTimestamp := by
  cases hs with
  | @create p i x hnew hp =>
    refine ⟨h.locks, h.fits, fun t c hc => (h.consistent t c hc).mono fun y hy => ?_⟩
    dsimp only
    rw [ReentrantLocks.update_entry, if_neg]
    · exact hy
    · intro hslot
      obtain ⟨rfl, rfl⟩ := hslot
      rw [hnew] at hy
      cases hy
  | @lock t locks hadvance =>
    refine ⟨h.locks.advance hadvance, fun u => ?_, h.consistent⟩
    by_cases hu : u = t
    · subst hu
      exact (h.fits u).advance hadvance
    · obtain ⟨f, rest, -, -, ⟨stage, -, hframes⟩ | ⟨-, hframes⟩⟩ := hadvance.frames <;>
      · dsimp only
        rw [hframes, Function.update_of_ne hu]
        exact h.fits u
  | @call t i op ht =>
    have hidle := h.idle ht
    refine h.enterLock (by simp [hidle]) (fun f hk hx => ?_) (by simp)
    rw [hidle]
    exact ⟨f, rfl, hk, hx⟩
  | @read t c d q ht hc hq =>
    have hfits := h.fits t
    rw [ht] at hfits
    simp only [HistoryThread.Fits, hc] at hfits
    obtain ⟨g, hg, hk, hin⟩ := hfits
    obtain ⟨x, hx, hdecides⟩ := h.reading ht hc
    refine h.enterLock (by simpa [hg] using hin) (fun f hfk hfx => ?_) fun c' hc' => ?_
    · rw [hg]
      exact ⟨⟨d, hc⟩, g, hk, hin, f, rfl, hfk, hfx⟩
    · cases hc'
      simp only [PredicateRun.Consistent, hc]
      refine ⟨x, hx, hdecides.reads, hdecides.decision, fun o ho => ?_⟩
      cases ho
      exact ⟨q, hq, rfl, rfl, trivial⟩
  | @begin t c o ht ho hin =>
    refine h.change h.locks (fun u _ => rfl) ?_ (h.operation ht fun i q x _ hread => ?_)
    · refine (ht ▸ h.fits t : (⟨c, some o⟩ : HistoryThread J N).Fits _ _).operation
        fun outer hfits => ?_
      rw [ho] at hfits
      exact hfits.body o.op.firstPc hin
    · obtain ⟨hindex, hop, -⟩ := hread
      refine ⟨hindex, hop, .inl ?_⟩
      rw [hop]
      rfl
  | body ht ho hh hb => exact h.body ht ho hh hb
  | @leave t c o x locks ht ho hx hl =>
    refine h.leaveLock hl ?_ (h.operation ht fun i q y hy hread => ?_)
    · refine (ht ▸ h.fits t : (⟨c, some o⟩ : HistoryThread J N).Fits _ _).operation
        fun outer hfits => ?_
      rw [ho] at hfits
      exact hfits.leave (o.op.answer fromTimestamp x.entries) hl
    · rw [hx] at hy
      cases hy
      obtain ⟨hindex, hop, hread⟩ := hread
      rw [ho] at hread
      refine ⟨hindex, hop, ?_⟩
      obtain hpc | ⟨hpc, -⟩ | ⟨-, hentries⟩ := hread
      · cases hpc
      · cases hpc
      · rw [hop, HistoryOp.answer, hentries]
  | @finish t o a ht ho hout => exact h.change h.locks (fun u _ => rfl) hout (by simp)
  | @resume t c d o q a ht hc hq ho hout =>
    have hfits := h.fits t
    rw [ht] at hfits
    obtain ⟨-, g, hk, hin, hfits⟩ := hfits
    obtain ⟨x, hx, hdecides⟩ := h.reading ht hc
    obtain ⟨q', hq', -, hop, hread⟩ := hdecides.operation o rfl
    rw [hq] at hop
    cases hop
    rw [ho] at hfits hread
    refine h.change h.locks (fun u _ => rfl) ?_ fun c' hc' => ?_
    · rcases hfits with hg | ⟨f, hf, hx⟩
      · exact ⟨g, hg, hk, hin⟩
      · obtain ⟨f', rest, hf', hin'⟩ := hout
        obtain ⟨rfl, rfl⟩ := List.cons.inj (hf.symm.trans hf')
        rw [LockStage.exiting_of_inside hin'] at hx
        cases hx
    · cases hc'
      refine ⟨x, hx, ?_, ?_, by simp⟩
      · intro y hy
        rcases List.mem_append.mp hy with hy | hy
        · exact hdecides.reads y hy
        · rw [List.mem_singleton.mp hy]
          exact hread
      · rw [hread, Decision.eval_resume hq']
        exact hdecides.decision
  | @ask t c ht hi =>
    have hidle := h.idle ht
    refine h.enterLock (by simp [hidle]) (fun f hk hx => ?_) fun c' hc' => ?_
    · rw [hidle]
      exact ⟨f, rfl, hk, hx⟩
    · cases hc'
      exact ⟨hi, rfl⟩
  | @consider t c ht hc hin =>
    have hfits := h.fits t
    have hcons := h.consistent t c (by rw [ht])
    rw [ht] at hfits hcons
    simp only [HistoryThread.Fits, hc] at hfits
    simp only [PredicateRun.Consistent, hc] at hcons
    obtain ⟨hsome, hreads⟩ := hcons
    obtain ⟨x, hx⟩ := Option.isSome_iff_exists.mp hsome
    refine h.change h.locks (fun u _ => rfl) ?_ fun c' hc' => ?_
    · exact hfits.body (c.call.predicate.decision fromTimestamp c.call.now) hin
    · cases hc'
      exact ⟨x, hx, by simp [hreads], RunPredicate.eval_decision .., by simp⟩
  | @decided t c r locks ht hc hl =>
    have hfits := h.fits t
    rw [ht] at hfits
    simp only [HistoryThread.Fits, hc] at hfits
    refine h.leaveLock hl ?_ fun c' hc' => ?_
    · exact hfits.leave r hl
    · cases hc'
      trivial
  | @respond t c r ht hc hout => exact h.change h.locks (fun u _ => rfl) hout (by simp)

end HistoryWorld

end SchedulingUtil
