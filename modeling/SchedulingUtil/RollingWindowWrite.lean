import SchedulingUtil.RollingWindowRateLimiter

/-! # Writing the rolling window's file

`_write_timestamps_to_disk` step by step: the temporary file beside the path, its renaming,
and what is cleaned up behind a failure. Each step may raise, and the process may be killed
between any two. -/
namespace SchedulingUtil
open Lib Lib.Utf8

/-! ## The write -/

/-- The files of the directory that the path is in, by their names. -/
abbrev Directory := String → File

/-- The name of the temporary file; `random` is what `tempfile` puts into it. -/
def tempName (name random : String) : String := "." ++ name ++ "." ++ random ++ ".tmp"

/-- The next step. `close` and `closeDirectory` also run on the way out, with the exception
that is being raised. -/
inductive WritePc where
  | mkdir
  | create
  | write
  | flush
  | fsync
  | close (raised : Option PyException)
  | replace
  | openDirectory
  | fsyncDirectory
  | closeDirectory (raised : Option PyException)
  | cleanUp (raised : Option PyException)
  | left (raised : Option PyException)

/-- Where the step goes when it raises. The unlink of the clean-up does not, a file that is
not there being passed over. -/
def WritePc.onRaise (e : PyException) : WritePc → Option WritePc
  | .mkdir => some (.left (some e))
  | .create => some (.cleanUp (some e))
  | .write | .flush | .fsync => some (.close (some e))
  | .close _ | .replace | .openDirectory | .closeDirectory _ => some (.cleanUp (some e))
  | .fsyncDirectory => some (.closeDirectory (some e))
  | .cleanUp _ | .left _ => none

/-- `unwritten` is what the buffer of the temporary file still holds back. -/
structure WriteProgress where
  tempPath : Option String
  unwritten : Bytes
  pc : WritePc

inductive WriteEvent where
  | step
  | replaced
  | raised (e : PyException)

/-- Bytes may go from the buffer to the file while it is open. -/
def WritePc.buffered : WritePc → Bool
  | .write | .flush | .close _ => true
  | _ => false

section Write
variable (name : String) (data : Bytes) (posix : Bool)

/-- One step of writing `data` to the file `name`. -/
inductive WriteStep :
    WriteProgress × Directory → WriteEvent → WriteProgress × Directory → Prop where
  | mkdir {s : WriteProgress} {d : Directory} (h : s.pc = .mkdir) :
      WriteStep (s, d) .step ({ s with pc := .create }, d)
  | create {s : WriteProgress} {d : Directory} (h : s.pc = .create) (random : String)
      (hfree : d (tempName name random) = none) :
      WriteStep (s, d) .step (⟨some (tempName name random), data, .write⟩,
        Function.update d (tempName name random) (some []))
  | piece {s : WriteProgress} {d : Directory} {temp : String} {content piece rest : Bytes}
      (h : s.pc.buffered = true) (ht : s.tempPath = some temp) (hd : d temp = some content)
      (hu : s.unwritten = piece ++ rest) :
      WriteStep (s, d) .step
        ({ s with unwritten := rest }, Function.update d temp (some (content ++ piece)))
  | write {s : WriteProgress} {d : Directory} (h : s.pc = .write) :
      WriteStep (s, d) .step ({ s with pc := .flush }, d)
  | flush {s : WriteProgress} {d : Directory} (h : s.pc = .flush) (hu : s.unwritten = []) :
      WriteStep (s, d) .step ({ s with pc := .fsync }, d)
  | fsync {s : WriteProgress} {d : Directory} (h : s.pc = .fsync) :
      WriteStep (s, d) .step ({ s with pc := .close none }, d)
  | close {s : WriteProgress} {d : Directory} {raised : Option PyException}
      (h : s.pc = .close raised) :
      WriteStep (s, d) .step
        ({ s with pc := if raised.isSome then .cleanUp raised else .replace }, d)
  | replace {s : WriteProgress} {d : Directory} {temp : String} {content : Bytes}
      (h : s.pc = .replace) (ht : s.tempPath = some temp) (hd : d temp = some content) :
      WriteStep (s, d) .replaced ({ s with pc := if posix then .openDirectory else .cleanUp none },
        Function.update (Function.update d name (some content)) temp none)
  | openDirectory {s : WriteProgress} {d : Directory} (h : s.pc = .openDirectory) :
      WriteStep (s, d) .step ({ s with pc := .fsyncDirectory }, d)
  | fsyncDirectory {s : WriteProgress} {d : Directory} (h : s.pc = .fsyncDirectory) :
      WriteStep (s, d) .step ({ s with pc := .closeDirectory none }, d)
  | closeDirectory {s : WriteProgress} {d : Directory} {raised : Option PyException}
      (h : s.pc = .closeDirectory raised) :
      WriteStep (s, d) .step ({ s with pc := .cleanUp raised }, d)
  | unlink {s : WriteProgress} {d : Directory} {temp : String} {raised : Option PyException}
      (h : s.pc = .cleanUp raised) (ht : s.tempPath = some temp) :
      WriteStep (s, d) .step ({ s with pc := .left raised }, Function.update d temp none)
  | leave {s : WriteProgress} {d : Directory} {raised : Option PyException}
      (h : s.pc = .cleanUp raised) (ht : s.tempPath = none) :
      WriteStep (s, d) .step ({ s with pc := .left raised }, d)
  | raises {s : WriteProgress} {d : Directory} {e : PyException} {pc : WritePc}
      (h : s.pc.onRaise e = some pc) : WriteStep (s, d) (.raised e) ({ s with pc }, d)

end Write

/-- There is no temporary file yet, or its creation has failed. -/
def WritePc.Before : WritePc → Prop
  | .mkdir | .create | .cleanUp (some _) => True
  | _ => False

/-- There is one; behind the flush it holds everything. -/
def WritePc.Writing (unwritten : Bytes) : WritePc → Prop
  | .write | .flush | .close (some _) | .cleanUp (some _) => True
  | .fsync | .close none | .replace => unwritten = []
  | _ => False

/-- It has got the name of the path. -/
def WritePc.Renamed : WritePc → Prop
  | .openDirectory | .fsyncDirectory | .closeDirectory _ | .cleanUp _ => True
  | _ => False

/-- How far the write has come from the directory `d₀`, and whether the renaming has
taken place. -/
inductive WriteReaches (name : String) (data : Bytes) (d₀ : Directory) :
    Bool → WriteProgress × Directory → Prop where
  | before {s : WriteProgress} (ht : s.tempPath = none) (hpc : s.pc.Before) :
      WriteReaches name data d₀ false (s, d₀)
  | writing {s : WriteProgress} {temp : String} {content : Bytes} (ht : s.tempPath = some temp)
      (hne : temp ≠ name) (hfree : d₀ temp = none) (hdata : content ++ s.unwritten = data)
      (hpc : s.pc.Writing s.unwritten) :
      WriteReaches name data d₀ false (s, Function.update d₀ temp (some content))
  | renamed {s : WriteProgress} {temp : String} (ht : s.tempPath = some temp)
      (hne : temp ≠ name) (hfree : d₀ temp = none) (hpc : s.pc.Renamed) :
      WriteReaches name data d₀ true (s, Function.update d₀ name (some data))
  | failed {s : WriteProgress} {e : PyException} (hpc : s.pc = .left (some e)) :
      WriteReaches name data d₀ false (s, d₀)
  | left {s : WriteProgress} {raised : Option PyException} (hpc : s.pc = .left raised) :
      WriteReaches name data d₀ true (s, Function.update d₀ name (some data))

theorem tempName_ne (name random : String) : tempName name random ≠ name := by
  intro h
  have hlen := congrArg String.length h
  simp only [tempName, String.length_append] at hlen
  have hdot : ".".length = 1 := by decide
  omega

/-- A name that was free is freed again. -/
theorem update_free {d₀ : Directory} {temp : String} (hfree : d₀ temp = none) (file : File) :
    Function.update (Function.update d₀ temp file) temp none = d₀ := by
  rw [Function.update_idem, ← hfree, Function.update_eq_self]

theorem WritePc.Writing.piece {pc : WritePc} {unwritten piece rest : Bytes}
    (h : pc.Writing unwritten) (hu : unwritten = piece ++ rest) : pc.Writing rest := by
  have hnil (hnone : unwritten = []) : rest = [] :=
    (List.append_eq_nil_iff.mp (hu.symm.trans hnone)).2
  cases pc with
  | fsync | replace => exact hnil h
  | close raised =>
    cases raised with
    | none => exact hnil h
    | some e => trivial
  | cleanUp raised => cases raised <;> exact h
  | _ => exact h

/-- The event is the renaming. -/
def WriteEvent.isReplaced : WriteEvent → Bool
  | .replaced => true
  | _ => false

theorem WriteEvent.or_step (b : Bool) : (b || WriteEvent.step.isReplaced) = b := Bool.or_false b

section Write
variable {name : String} {data : Bytes} {posix : Bool} {d₀ : Directory}

/-- A step before there is a temporary file. -/
theorem writeReaches_before {s : WriteProgress} {y : WriteProgress × Directory} {e : WriteEvent}
    (ht : s.tempPath = none) (hpc : s.pc.Before)
    (hstep : WriteStep name data posix (s, d₀) e y) :
    WriteReaches name data d₀ e.isReplaced y := by
  cases hstep with
  | mkdir => exact .before ht trivial
  | create h random hfree => exact .writing rfl (tempName_ne name random) hfree rfl trivial
  | @leave _ _ raised h =>
    rw [h] at hpc
    cases raised with
    | none => exact hpc.elim
    | some e => exact .failed rfl
  | raises h =>
    cases hs : s.pc with
    | mkdir =>
      rw [hs] at h
      cases h
      exact .failed rfl
    | create =>
      rw [hs] at h
      cases h
      exact .before ht trivial
    | _ => rw [hs] at h hpc; first | exact hpc.elim | cases h
  | unlink _ ht' | piece _ ht' | replace _ ht' =>
    rw [ht] at ht'
    cases ht'
  | _ h =>
    rw [h] at hpc
    exact hpc.elim

/-- A step while it is being written, up to its renaming. -/
theorem writeReaches_writing {s : WriteProgress} {y : WriteProgress × Directory} {e : WriteEvent}
    {temp : String} {content : Bytes} (ht : s.tempPath = some temp) (hne : temp ≠ name)
    (hfree : d₀ temp = none) (hdata : content ++ s.unwritten = data)
    (hpc : s.pc.Writing s.unwritten)
    (hstep : WriteStep name data posix (s, Function.update d₀ temp (some content)) e y) :
    WriteReaches name data d₀ e.isReplaced y := by
  cases hstep with
  | piece h ht' hd hu =>
    rw [ht] at ht'
    cases ht'
    rw [Function.update_self] at hd
    cases hd
    rw [Function.update_idem]
    exact .writing ht hne hfree (by rw [List.append_assoc, ← hu]; exact hdata) (hpc.piece hu)
  | write h => exact .writing ht hne hfree hdata trivial
  | flush h hu => exact .writing ht hne hfree hdata hu
  | fsync h =>
    rw [h] at hpc
    exact .writing ht hne hfree hdata hpc
  | @close _ _ raised h =>
    rw [h] at hpc
    cases raised with
    | none => exact .writing ht hne hfree hdata hpc
    | some e => exact .writing ht hne hfree hdata trivial
  | replace h ht' hd =>
    rw [ht] at ht'
    cases ht'
    rw [Function.update_self] at hd
    cases hd
    rw [h] at hpc
    have hwhole : content = data := by
      rw [← hdata, show s.unwritten = [] from hpc, List.append_nil]
    rw [hwhole, Function.update_comm hne.symm, update_free hfree]
    refine .renamed ht hne hfree ?_
    cases posix <;> trivial
  | @unlink _ _ _ raised h ht' =>
    rw [ht] at ht'
    cases ht'
    rw [update_free hfree]
    rw [h] at hpc
    cases raised with
    | none => exact hpc.elim
    | some e => exact .failed rfl
  | leave _ ht' =>
    rw [ht] at ht'
    cases ht'
  | raises h =>
    cases hs : s.pc with
    | write | flush | fsync | close | replace =>
      rw [hs] at h
      cases h
      exact .writing ht hne hfree hdata trivial
    | _ => rw [hs] at h hpc; first | exact hpc.elim | cases h
  | _ h =>
    rw [h] at hpc
    exact hpc.elim

/-- A step behind the renaming. -/
theorem writeReaches_renamed {s : WriteProgress} {y : WriteProgress × Directory} {e : WriteEvent}
    {temp : String} (ht : s.tempPath = some temp) (hne : temp ≠ name) (hfree : d₀ temp = none)
    (hpc : s.pc.Renamed)
    (hstep : WriteStep name data posix (s, Function.update d₀ name (some data)) e y) :
    WriteReaches name data d₀ true y := by
  cases hstep with
  | openDirectory | fsyncDirectory | closeDirectory => exact .renamed ht hne hfree trivial
  | unlink h ht' =>
    rw [ht] at ht'
    cases ht'
    have hgone : Function.update (Function.update d₀ name (some data)) temp none =
        Function.update d₀ name (some data) := by
      rw [Function.update_comm hne.symm, ← hfree, Function.update_eq_self]
    rw [hgone]
    exact .left rfl
  | leave _ ht' =>
    rw [ht] at ht'
    cases ht'
  | raises h =>
    cases hs : s.pc with
    | openDirectory | fsyncDirectory | closeDirectory =>
      rw [hs] at h
      cases h
      exact .renamed ht hne hfree trivial
    | _ => rw [hs] at h hpc; first | exact hpc.elim | cases h
  | piece h =>
    cases hs : s.pc with
    | _ => rw [hs] at h hpc; first | exact hpc.elim | cases h
  | _ h =>
    rw [h] at hpc
    exact hpc.elim

theorem writeReaches_step {b : Bool} {x y : WriteProgress × Directory} {e : WriteEvent}
    (h : WriteReaches name data d₀ b x) (hstep : WriteStep name data posix x e y) :
    WriteReaches name data d₀ (b || e.isReplaced) y := by
  cases h with
  | before ht hpc => exact writeReaches_before ht hpc hstep
  | writing ht hne hfree hdata hpc => exact writeReaches_writing ht hne hfree hdata hpc hstep
  | renamed ht hne hfree hpc => exact writeReaches_renamed ht hne hfree hpc hstep
  | failed hpc | left hpc =>
    cases hstep with
    | raises h | piece h =>
      rw [hpc] at h
      cases h
    | _ h =>
      rw [hpc] at h
      cases h

end Write

/-! ## Cut off anywhere -/

/-- The exception on the way out. -/
def WritePc.raising : WritePc → Option PyException
  | .close raised | .closeDirectory raised | .cleanUp raised | .left raised => raised
  | _ => none

/-- It is one that a step has raised. -/
theorem raising_step {name : String} {data : Bytes} {posix : Bool}
    {x y : WriteProgress × Directory} {event : WriteEvent}
    (h : WriteStep name data posix x event y) {e : PyException}
    (he : y.1.pc.raising = some e) : x.1.pc.raising = some e ∨ event = .raised e := by
  cases h with
  | close h =>
    left
    rw [h]
    dsimp only at he
    split at he
    · exact he
    · cases he
  | closeDirectory h | unlink h | leave h =>
    left
    rw [h]
    exact he
  | piece => exact .inl he
  | @raises s d e' pc h =>
    right
    cases hs : s.pc with
    | cleanUp | left =>
      rw [hs] at h
      cases h
    | _ =>
      rw [hs] at h
      cases h
      cases he
      rfl
  | replace =>
    dsimp only at he
    split at he <;> cases he
  | _ => cases he

/-- The write of `data` in the directory `d` has come to `x` by these steps. -/
structure WriteCut (name : String) (data : Bytes) (d : Directory) (replaced : Prop)
    (x : WriteProgress × Directory) : Prop where
  file : x.2 name = d name ∨ x.2 name = some data ∧ replaced
  temporary : ∀ raised, x.1.pc = .left raised → ∀ other, other ≠ name → x.2 other = d other
  returns : x.1.pc = .left none → x.2 name = some data

theorem WriteReaches.cut {name : String} {data : Bytes} {d : Directory} {b : Bool}
    {x : WriteProgress × Directory} (h : WriteReaches name data d b x) :
    WriteCut name data d (b = true) x := by
  cases h with
  | before ht hpc =>
    refine ⟨.inl rfl, fun _ _ _ _ => rfl, ?_⟩
    intro hleft
    rw [hleft] at hpc
    exact hpc.elim
  | writing ht hne hfree hdata hpc =>
    refine ⟨.inl (Function.update_of_ne hne.symm ..), ?_, ?_⟩
    · intro raised hleft
      rw [hleft] at hpc
      exact hpc.elim
    · intro hleft
      rw [hleft] at hpc
      exact hpc.elim
  | renamed ht hne hfree hpc =>
    refine ⟨.inr ⟨Function.update_self .., rfl⟩, ?_, ?_⟩
    · intro raised hleft
      rw [hleft] at hpc
      exact hpc.elim
    · intro hleft
      rw [hleft] at hpc
      exact hpc.elim
  | failed hpc =>
    refine ⟨.inl rfl, fun _ _ _ _ => rfl, ?_⟩
    intro hleft
    rw [hpc] at hleft
    cases hleft
  | left hpc =>
    exact ⟨.inr ⟨Function.update_self .., rfl⟩, fun _ _ _ hother => Function.update_of_ne hother ..,
      fun _ => Function.update_self ..⟩

end SchedulingUtil
