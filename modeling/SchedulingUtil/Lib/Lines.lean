import Mathlib.Data.List.Infix

/-! # Terminated lines

A text of lines, each with its terminator behind it. Of the beginning of such a text the
terminated lines are the first ones, whole; what is left over is a piece of the next. -/
namespace SchedulingUtil.Lib

variable {α : Type} [DecidableEq α] {terminator : α}

/-- Each line with the terminator behind it. -/
def writeLines (terminator : α) (lines : List (List α)) : List α :=
  lines.flatMap (· ++ [terminator])

/-- The lines that have a terminator behind them. -/
def terminatedLines (terminator : α) (text : List α) : List (List α) :=
  (text.splitOn terminator).dropLast

omit [DecidableEq α] in
theorem writeLines_append (lines lines' : List (List α)) :
    writeLines terminator (lines ++ lines') =
      writeLines terminator lines ++ writeLines terminator lines' := List.flatMap_append

theorem terminatedLines_writeLines {lines : List (List α)} (h : ∀ line ∈ lines, terminator ∉ line)
    {rest : List α} (hrest : terminator ∉ rest) :
    terminatedLines terminator (writeLines terminator lines ++ rest) = lines := by
  have hsplit : (writeLines terminator lines ++ rest).splitOn terminator = lines ++ [rest] := by
    induction lines with
    | nil => exact List.splitOn_eq_singleton hrest
    | cons line lines ih =>
      obtain ⟨hline, hlines⟩ := List.forall_mem_cons.mp h
      rw [writeLines, List.flatMap_cons, List.append_assoc, List.append_assoc,
        List.singleton_append, List.splitOn_append_cons_self_of_not_mem hline]
      exact congrArg (line :: ·) (ih hlines)
  rw [terminatedLines, hsplit, List.dropLast_concat]

omit [DecidableEq α] in
/-- The beginning of a text of lines: some of them, and a piece of the next. -/
theorem prefix_writeLines {lines : List (List α)} (h : ∀ line ∈ lines, terminator ∉ line)
    {text : List α} (hpart : text <+: writeLines terminator lines) :
    ∃ before rest, before <+: lines ∧ terminator ∉ rest ∧
      text = writeLines terminator before ++ rest := by
  induction lines generalizing text with
  | nil =>
    obtain rfl := List.prefix_nil.mp hpart
    exact ⟨[], [], List.prefix_rfl, List.not_mem_nil, rfl⟩
  | cons line lines ih =>
    obtain ⟨hline, hlines⟩ := List.forall_mem_cons.mp h
    rw [writeLines, List.flatMap_cons] at hpart
    rcases List.prefix_or_prefix_of_prefix hpart (List.prefix_append _ _) with hshort | hlong
    · rcases List.prefix_concat_iff.mp hshort with rfl | hpiece
      · exact ⟨[line], [], ⟨lines, rfl⟩, List.not_mem_nil, by simp [writeLines]⟩
      · exact ⟨[], text, List.nil_prefix, fun hmem => hline (hpiece.subset hmem), rfl⟩
    · obtain ⟨text', rfl⟩ := hlong
      obtain ⟨before, rest, hbefore, hrest, rfl⟩ :=
        ih hlines ((List.prefix_append_right_inj _).mp hpart)
      refine ⟨line :: before, rest, (List.prefix_cons_inj line).mpr hbefore, hrest, ?_⟩
      rw [writeLines, writeLines, List.flatMap_cons, List.append_assoc, List.append_assoc,
        List.append_assoc]

omit [DecidableEq α] in
/-- What has no terminator lies on one side of it. -/
theorem infix_of_infix_append_cons {x a b : List α} (hx : terminator ∉ x)
    (h : x <:+: a ++ terminator :: b) : x <:+: a ∨ x <:+: b := by
  have hstart {a b : List α} (h : x <+: a ++ terminator :: b) : x <+: a := by
    rcases List.prefix_or_prefix_of_prefix h (List.prefix_append a _) with hshort | ⟨m, rfl⟩
    · exact hshort
    · cases m with
      | nil => simp
      | cons c m =>
        obtain ⟨rfl, -⟩ :=
          List.cons_prefix_cons.mp ((List.prefix_append_right_inj _).mp h)
        exact absurd (List.mem_append_right _ (.head _)) hx
  induction a with
  | nil =>
    rcases List.infix_cons_iff.mp h with hfirst | hrest
    · exact .inl (hstart hfirst).isInfix
    · exact .inr hrest
  | cons c a ih =>
    rcases List.infix_cons_iff.mp h with hfirst | hrest
    · exact .inl (hstart hfirst).isInfix
    · exact (ih hrest).imp_left fun h => h.trans (List.suffix_cons c a).isInfix

omit [DecidableEq α] in
theorem infix_of_infix_writeLines {x : List α} (hx : terminator ∉ x) (hne : x ≠ [])
    {lines : List (List α)} (h : x <:+: writeLines terminator lines) :
    ∃ line ∈ lines, x <:+: line := by
  induction lines with
  | nil => exact absurd (List.infix_nil.mp h) hne
  | cons line lines ih =>
    rw [writeLines, List.flatMap_cons, List.append_assoc, List.singleton_append] at h
    rcases infix_of_infix_append_cons hx h with hline | hrest
    · exact ⟨line, .head _, hline⟩
    · obtain ⟨line', hmem, hshown⟩ := ih hrest
      exact ⟨line', .tail _ hmem, hshown⟩

end SchedulingUtil.Lib
