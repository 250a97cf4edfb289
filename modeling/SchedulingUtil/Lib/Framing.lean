import Mathlib.Data.List.TakeWhile

/-! # Frames that end with a delimiter

A reader takes chunks off a stream until the delimiter is among what it has, the stream
ends, or it has more than a limit. Where the stream is cut into chunks makes no difference
to a frame that ends with its only delimiter (`readUntil_frame`) or with the stream
(`readUntil_end`). -/
namespace SchedulingUtil.Lib.Framing

variable {α ε : Type}

inductive ReadError (ε : Type) where
  | failed (e : ε)
  | tooLarge

/-- The reader before its `i`-th `recv`, with the data it has. An empty chunk is the end of
the stream. -/
def readUntil [DecidableEq α] (delimiter : α) (limit : Nat) (recv : Nat → Except ε (List α))
    (i : Nat) (data : List α) : Except (ReadError ε) (List α) :=
  if delimiter ∈ data then .ok data
  else
    match recv i with
    | .error e => .error (.failed e)
    | .ok [] => .ok data
    | .ok (a :: chunk) =>
      if limit < (data ++ a :: chunk).length then .error .tooLarge
      else readUntil delimiter limit recv (i + 1) (data ++ a :: chunk)
termination_by limit - data.length
decreasing_by
  rename_i hle
  rw [List.length_append, List.length_cons] at hle ⊢
  omega

/-- From the `i`-th `recv` on these chunks arrive, none of them empty. -/
inductive Arrives (recv : Nat → Except ε (List α)) : Nat → List (List α) → Prop where
  | nil {i : Nat} : Arrives recv i []
  | cons {i : Nat} {a : α} {chunk : List α} {chunks : List (List α)}
    (h : recv i = .ok (a :: chunk)) (rest : Arrives recv (i + 1) chunks) :
    Arrives recv i ((a :: chunk) :: chunks)

variable {delimiter : α} {limit : Nat} {recv : Nat → Except ε (List α)}

theorem Arrives.flatten_ne_nil {i : Nat} {chunks : List (List α)} (h : Arrives recv i chunks)
    (hne : chunks ≠ []) : chunks.flatten ≠ [] := by
  cases h with
  | nil => exact absurd rfl hne
  | cons => simp

/-- The stream that arrives in these chunks, and then ends. -/
def streamOf (chunks : List (List α)) (i : Nat) : Except ε (List α) := .ok (chunks.getD i [])

theorem arrives_streamOf {chunks : List (List α)} (h : ∀ chunk ∈ chunks, chunk ≠ []) :
    Arrives (streamOf chunks : Nat → Except ε (List α)) 0 chunks := by
  suffices hgen : ∀ rest i, chunks.drop i = rest →
      Arrives (streamOf chunks : Nat → Except ε (List α)) i rest from hgen chunks 0 rfl
  intro rest
  induction rest with
  | nil => exact fun i _ => .nil
  | cons chunk rest ih =>
    intro i hdrop
    have hget : chunks[i]? = some chunk := by
      rw [← List.head?_drop, hdrop]
      rfl
    have hrest : chunks.drop (i + 1) = rest := by
      rw [← List.tail_drop, hdrop]
      rfl
    obtain ⟨a, chunk, rfl⟩ := List.exists_cons_of_ne_nil (h chunk (List.mem_of_getElem? hget))
    refine .cons ?_ (ih (i + 1) hrest)
    rw [streamOf, List.getD_eq_getElem?_getD, hget]
    rfl

/-- A proper prefix of a frame has no delimiter. -/
theorem notMem_of_append_eq {body data rest : List α} (hbody : delimiter ∉ body)
    (h : data ++ rest = body ++ [delimiter]) (hrest : rest ≠ []) : delimiter ∉ data := by
  obtain ⟨front, last, rfl⟩ := (List.eq_nil_or_concat rest).resolve_left hrest
  rw [List.concat_eq_append, ← List.append_assoc] at h
  obtain ⟨rfl, -⟩ := List.append_inj' h rfl
  exact fun hmem => hbody (List.mem_append_left _ hmem)

/-- Nothing arrives but the stream, as far as it gets. -/
def Carries (recv : Nat → Except ε (List α)) (stream : List α) : Prop :=
  ∀ chunks, Arrives recv 0 chunks → chunks.flatten <+: stream

theorem carries_streamOf (chunks : List (List α)) :
    Carries (streamOf chunks : Nat → Except ε (List α)) chunks.flatten := by
  suffices hgen : ∀ i rest, Arrives (streamOf chunks : Nat → Except ε (List α)) i rest →
      rest <+: chunks.drop i by
    intro rest h
    obtain ⟨more, hmore⟩ := hgen 0 rest h
    rw [List.drop_zero] at hmore
    exact ⟨more.flatten, by rw [← List.flatten_append, hmore]⟩
  intro i rest h
  induction h with
  | nil => exact List.nil_prefix
  | @cons i a chunk rest hrecv _ ih =>
    have hget : chunks.getD i [] = a :: chunk := Except.ok.inj hrecv
    rw [List.getD_eq_getElem?_getD] at hget
    cases hi : chunks[i]? with
    | none =>
      rw [hi] at hget
      cases hget
    | some c =>
      rw [hi, Option.getD_some] at hget
      subst hget
      obtain ⟨hlt, hc⟩ := List.getElem?_eq_some_iff.mp hi
      rw [List.drop_eq_getElem_cons hlt, hc]
      exact List.cons_prefix_cons.mpr ⟨rfl, ih⟩

/-! ## One `recv` -/

variable [DecidableEq α]

theorem readUntil_of_mem {i : Nat} {data : List α} (h : delimiter ∈ data) :
    readUntil delimiter limit recv i data = .ok data := by
  rw [readUntil, if_pos h]

theorem readUntil_of_end {i : Nat} {data : List α} (hmem : delimiter ∉ data)
    (h : recv i = .ok []) : readUntil delimiter limit recv i data = .ok data := by
  rw [readUntil, if_neg hmem, h]

theorem readUntil_of_tooLarge {i : Nat} {a : α} {data chunk : List α} (hmem : delimiter ∉ data)
    (h : recv i = .ok (a :: chunk)) (hlarge : limit < (data ++ a :: chunk).length) :
    readUntil delimiter limit recv i data = .error .tooLarge := by
  rw [readUntil, if_neg hmem, h]
  exact if_pos hlarge

theorem readUntil_of_chunk {i : Nat} {a : α} {data chunk : List α} (hmem : delimiter ∉ data)
    (h : recv i = .ok (a :: chunk)) (hfits : (data ++ a :: chunk).length ≤ limit) :
    readUntil delimiter limit recv i data =
      readUntil delimiter limit recv (i + 1) (data ++ a :: chunk) := by
  rw [readUntil, if_neg hmem, h]
  exact if_neg (Nat.not_lt.mpr hfits)

/-! ## A whole stream -/

/-- **A frame is read whole, or is too large**, however its stream is cut. -/
theorem readUntil_frame {body : List α} (hbody : delimiter ∉ body) {i : Nat}
    {chunks : List (List α)} (harrives : Arrives recv i chunks) {data : List α}
    (hdata : delimiter ∉ data) (h : data ++ chunks.flatten = body ++ [delimiter]) :
    readUntil delimiter limit recv i data =
      if body.length < limit then .ok (body ++ [delimiter]) else .error .tooLarge := by
  have hlength : (data ++ chunks.flatten).length = body.length + 1 := by
    rw [h, List.length_append, List.length_singleton]
  induction harrives generalizing data with
  | nil =>
    rw [List.flatten_nil, List.append_nil] at h
    exact absurd (h ▸ List.mem_append_right _ (List.mem_singleton_self _)) hdata
  | @cons i a chunk chunks hrecv hrest ih =>
    rw [List.flatten_cons, ← List.append_assoc] at h hlength
    by_cases hfits : (data ++ a :: chunk).length ≤ limit
    · rw [readUntil_of_chunk hdata hrecv hfits]
      by_cases hlast : chunks = []
      · -- the delimiter has come, in the last chunk
        subst hlast
        rw [List.flatten_nil, List.append_nil] at h hlength
        rw [h, readUntil_of_mem (List.mem_append_right _ (List.mem_singleton_self _)),
          if_pos (by omega)]
      · exact ih (notMem_of_append_eq hbody h (hrest.flatten_ne_nil hlast)) h hlength
    · rw [readUntil_of_tooLarge hdata hrecv (Nat.not_le.mp hfits), if_neg]
      rw [List.length_append] at hlength
      omega

/-- A stream without the delimiter is read to its end. -/
theorem readUntil_end {i : Nat} {chunks : List (List α)} (harrives : Arrives recv i chunks)
    {data : List α} (hdata : delimiter ∉ data ++ chunks.flatten)
    (hfits : (data ++ chunks.flatten).length ≤ limit)
    (hend : recv (i + chunks.length) = .ok []) :
    readUntil delimiter limit recv i data = .ok (data ++ chunks.flatten) := by
  induction harrives generalizing data with
  | nil =>
    rw [List.flatten_nil, List.append_nil] at hdata ⊢
    exact readUntil_of_end hdata hend
  | @cons i a chunk chunks hrecv hrest ih =>
    rw [List.flatten_cons, ← List.append_assoc] at hdata hfits ⊢
    have hlength : (data ++ a :: chunk).length ≤ limit := by
      rw [List.length_append] at hfits
      omega
    rw [readUntil_of_chunk (fun hmem => hdata (by simp [hmem])) hrecv hlength]
    refine ih hdata hfits ?_
    rw [List.length_cons] at hend
    rw [← hend]
    congr 1
    omega

/-- What a reader has is what has arrived. -/
theorem readUntil_arrives {i : Nat} {data out : List α}
    (h : readUntil delimiter limit recv i data = .ok out) :
    ∃ chunks, Arrives recv i chunks ∧ out = data ++ chunks.flatten := by
  induction i, data using readUntil.induct delimiter limit recv with
  | case1 i data hmem =>
    rw [readUntil_of_mem hmem] at h
    cases h
    exact ⟨[], .nil, (List.append_nil _).symm⟩
  | case2 i data hmem e hrecv =>
    rw [readUntil, if_neg hmem, hrecv] at h
    cases h
  | case3 i data hmem hrecv =>
    rw [readUntil_of_end hmem hrecv] at h
    cases h
    exact ⟨[], .nil, (List.append_nil _).symm⟩
  | case4 i data hmem a chunk hrecv hlarge =>
    rw [readUntil_of_tooLarge hmem hrecv hlarge] at h
    cases h
  | case5 i data hmem a chunk hrecv hlarge ih =>
    rw [readUntil_of_chunk hmem hrecv (Nat.not_lt.mp hlarge)] at h
    obtain ⟨chunks, harrives, rfl⟩ := ih h
    exact ⟨_, .cons hrecv harrives, by rw [List.flatten_cons, List.append_assoc]⟩

theorem Carries.readUntil {stream out : List α} (h : Carries recv stream)
    (hread : readUntil delimiter limit recv 0 [] = .ok out) : out <+: stream := by
  obtain ⟨chunks, harrives, rfl⟩ := readUntil_arrives hread
  exact h chunks harrives

/-- The body is what comes before the first delimiter. -/
theorem takeWhile_frame {body : List α} (hbody : delimiter ∉ body) (rest : List α) :
    (body ++ delimiter :: rest).takeWhile (· != delimiter) = body := by
  have hne : ∀ a ∈ body, (a != delimiter) = true := fun a ha =>
    bne_iff_ne.mpr fun heq => hbody (heq ▸ ha)
  rw [List.takeWhile_append_of_pos hne, List.takeWhile_cons_of_neg (by simp), List.append_nil]

theorem takeWhile_body {body : List α} (hbody : delimiter ∉ body) :
    body.takeWhile (· != delimiter) = body := by
  rw [List.takeWhile_eq_self_iff]
  exact fun a ha => bne_iff_ne.mpr fun heq => hbody (heq ▸ ha)

/-- The part of a frame that has come, up to the delimiter, is one of its body. -/
theorem takeWhile_prefix_body {body data : List α} (hbody : delimiter ∉ body)
    (h : data <+: body ++ [delimiter]) : data.takeWhile (· != delimiter) <+: body := by
  obtain ⟨rest, hrest⟩ := h
  by_cases hnil : rest = []
  · rw [hnil, List.append_nil] at hrest
    exact ⟨[], by rw [hrest, takeWhile_frame hbody, List.append_nil]⟩
  · have hdata : delimiter ∉ data := notMem_of_append_eq hbody hrest hnil
    rw [takeWhile_body hdata]
    refine List.prefix_of_prefix_length_le ⟨rest, hrest⟩ (List.prefix_append ..) ?_
    have hlength := congrArg List.length hrest
    have hpos := List.length_pos_iff.mpr hnil
    rw [List.length_append, List.length_append, List.length_singleton] at hlength
    omega

end SchedulingUtil.Lib.Framing
