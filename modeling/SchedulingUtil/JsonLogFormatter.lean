import SchedulingUtil.Lib.JsonAscii
import SchedulingUtil.LogRecord

/-! # `JsonLogFormatter`

`json.dumps` of a record's attributes. The fallback of `JsonLogEncoder` is asked for objects that
`json` does not know, and for nothing else that it refuses. -/
namespace SchedulingUtil
open Lib.Json

/-- What the interpreter sets: how deep it goes, and the numbers that it writes. An `int` may have
too many digits (`sys.get_int_max_str_digits`). -/
structure Interpreter (N : Type) where
  recursionLimit : Nat
  writes : N → Bool

/-- `super().default` raises `TypeError` for every object. An exception of `repr` is shown by its
`str`, which no handler is left for. -/
def JsonLogEncoder.default : ReprResult → Except PyException Text
  | .returned s => .ok s
  | .raised text => text.map fun s => "Failed to serialize object: ".toList ++ s

section Encoder
variable {N : Type} [NumberSyntax N] (py : Interpreter N)

def Interpreter.checkNumber (n : N) : Except PyException Unit :=
  if py.writes n then .ok ()
  else .error (.valueError "Exceeds the limit for integer string conversion")

/-- With `allow_nan=False`. -/
def outOfRange : PyException :=
  .valueError "Out of range float values are not JSON compliant"

def recursionError : PyException :=
  ⟨.exception, "RecursionError", "maximum recursion depth exceeded"⟩

def Interpreter.checkDepth (depth : Nat) : Except PyException Unit :=
  if depth < py.recursionLimit then .ok () else .error recursionError

def encodeKey : PyKey N → Except PyException Text
  | .none => .ok "null".toList
  | .bool true => .ok "true".toList
  | .bool false => .ok "false".toList
  | .num n => (py.checkNumber n).map fun _ => NumberSyntax.render n
  | .nonFinite => .error outOfRange
  | .str s => .ok s
  | .other typeName => .error ⟨.exception, "TypeError",
      "keys must be str, int, float, bool or None, not " ++ typeName⟩

mutual
/-- What the encoder writes for a value within `depth` others. -/
def encodeValue (depth : Nat) : PyValue N → Except PyException (Value N)
  | .none => .ok .null
  | .bool b => .ok (.bool b)
  | .num n => (py.checkNumber n).map fun _ => .num n
  | .nonFinite => .error outOfRange
  | .str s => .ok (.str s)
  | .list items => do
    py.checkDepth depth
    return .arr (← encodeItems (depth + 1) items)
  | .tuple items => do
    py.checkDepth depth
    return .arr (← encodeItems (depth + 1) items)
  | .dict items => do
    py.checkDepth depth
    return .obj (← encodeMembers (depth + 1) items)
  | .object repr => do
    py.checkDepth depth
    return .str (← JsonLogEncoder.default repr)
  | .cycle => .error (.valueError "Circular reference detected")

def encodeItems (depth : Nat) : List (PyValue N) → Except PyException (List (Value N))
  | [] => .ok []
  | v :: vs => do
    let v ← encodeValue depth v
    return v :: (← encodeItems depth vs)

def encodeMembers (depth : Nat) :
    List (PyKey N × PyValue N) → Except PyException (List (Text × Value N))
  | [] => .ok []
  | (k, v) :: items => do
    let k ← encodeKey py k
    let v ← encodeValue depth v
    return (k, v) :: (← encodeMembers depth items)
end

attribute [local simp] encodeValue encodeItems encodeMembers

/-- `{**record.__dict__, "msg": message}`, encoded. -/
def encodeRecord (record : LogRecord N) (message : Text) : Except PyException (Value N) :=
  encodeValue py 0 (.dict (setItem "msg" (.str message) record.dict))

def JsonLogFormatter.format (getMessage : GetMessage N) (record : LogRecord N) :
    Except PyException Text := do
  let message ← getMessage record
  let value ← encodeRecord py record message
  return render ascii 0 value

/-! ## What can be written -/

/-- `repr` returns, or what it raises can be shown. -/
def ReprResult.Shown (repr : ReprResult) : Prop := ∃ s, JsonLogEncoder.default repr = .ok s

/-- A `str`, `int`, `float`, `bool` or `None` that JSON has. -/
inductive Interpreter.KeyWritable : PyKey N → Prop where
  | none : KeyWritable .none
  | bool {b : Bool} : KeyWritable (.bool b)
  | num {n : N} (h : py.writes n) : KeyWritable (.num n)
  | str {s : Text} : KeyWritable (.str s)

/-- Within `depth` others: finite numbers, such keys and no cycle, no deeper than the interpreter
goes, and objects that show something. -/
inductive Interpreter.Writable : Nat → PyValue N → Prop where
  | none {depth : Nat} : Writable depth .none
  | bool {depth : Nat} {b : Bool} : Writable depth (.bool b)
  | num {depth : Nat} {n : N} (h : py.writes n) : Writable depth (.num n)
  | str {depth : Nat} {s : Text} : Writable depth (.str s)
  | list {depth : Nat} {items : List (PyValue N)} (hdepth : depth < py.recursionLimit)
    (h : ∀ v ∈ items, Writable (depth + 1) v) : Writable depth (.list items)
  | tuple {depth : Nat} {items : List (PyValue N)} (hdepth : depth < py.recursionLimit)
    (h : ∀ v ∈ items, Writable (depth + 1) v) : Writable depth (.tuple items)
  | dict {depth : Nat} {items : List (PyKey N × PyValue N)} (hdepth : depth < py.recursionLimit)
    (hkeys : ∀ item ∈ items, py.KeyWritable item.1)
    (h : ∀ item ∈ items, Writable (depth + 1) item.2) : Writable depth (.dict items)
  | object {depth : Nat} {repr : ReprResult} (hdepth : depth < py.recursionLimit)
    (h : repr.Shown) : Writable depth (.object repr)

section Written
variable {py}

theorem isOk_bind_iff {α β : Type} {x : Except PyException α} {f : α → Except PyException β} :
    (∃ b, (x >>= f) = .ok b) ↔ ∃ a, x = .ok a ∧ ∃ b, f a = .ok b := by
  cases x with
  | error e => simp [bind, Except.bind]
  | ok a => simp [bind, Except.bind]

theorem isOk_map_iff {α β : Type} {x : Except PyException α} {f : α → β} :
    (∃ b, x.map f = .ok b) ↔ ∃ a, x = .ok a := by
  cases x with
  | error e => simp [Except.map]
  | ok a => simp [Except.map]

omit [NumberSyntax N] in
theorem checkNumber_isOk {n : N} : (∃ u, py.checkNumber n = .ok u) ↔ py.writes n := by
  rw [Interpreter.checkNumber]
  split <;> simp [*]

omit [NumberSyntax N] in
theorem checkDepth_isOk {depth : Nat} :
    (∃ u, py.checkDepth depth = .ok u) ↔ depth < py.recursionLimit := by
  rw [Interpreter.checkDepth]
  split <;> simp [*]

theorem encodeKey_isOk {k : PyKey N} : (∃ s, encodeKey py k = .ok s) ↔ py.KeyWritable k := by
  cases k with
  | none => exact iff_of_true ⟨_, rfl⟩ .none
  | bool b => exact iff_of_true (by cases b <;> exact ⟨_, rfl⟩) .bool
  | num n =>
    rw [encodeKey, isOk_map_iff, checkNumber_isOk]
    exact ⟨.num, fun h => by cases h; assumption⟩
  | nonFinite => exact iff_of_false (fun h => by cases h.choose_spec) nofun
  | str s => exact iff_of_true ⟨_, rfl⟩ .str
  | other typeName => exact iff_of_false (fun h => by cases h.choose_spec) nofun

theorem encodeItems_isOk {depth : Nat} {items : List (PyValue N)} :
    (∃ vs, encodeItems py depth items = .ok vs) ↔
      ∀ v ∈ items, ∃ w, encodeValue py depth v = .ok w := by
  induction items with
  | nil => simp
  | cons v items ih =>
    rw [List.forall_mem_cons, ← ih, encodeItems, isOk_bind_iff]
    constructor
    · rintro ⟨w, hw, hrest⟩
      obtain ⟨ws, hws, -⟩ := isOk_bind_iff.mp hrest
      exact ⟨⟨w, hw⟩, ws, hws⟩
    · rintro ⟨⟨w, hw⟩, ws, hws⟩
      exact ⟨w, hw, isOk_bind_iff.mpr ⟨ws, hws, _, rfl⟩⟩

theorem encodeMembers_isOk {depth : Nat} {items : List (PyKey N × PyValue N)} :
    (∃ ms, encodeMembers py depth items = .ok ms) ↔
      (∀ item ∈ items, py.KeyWritable item.1) ∧
        ∀ item ∈ items, ∃ w, encodeValue py depth item.2 = .ok w := by
  induction items with
  | nil => simp
  | cons item items ih =>
    obtain ⟨k, v⟩ := item
    rw [List.forall_mem_cons, List.forall_mem_cons, ← encodeKey_isOk, encodeMembers,
      isOk_bind_iff]
    constructor
    · rintro ⟨s, hs, hvalue⟩
      obtain ⟨w, hw, hrest⟩ := isOk_bind_iff.mp hvalue
      obtain ⟨ms, hms, -⟩ := isOk_bind_iff.mp hrest
      obtain ⟨hkeys, hvalues⟩ := ih.mp ⟨ms, hms⟩
      exact ⟨⟨⟨s, hs⟩, hkeys⟩, ⟨w, hw⟩, hvalues⟩
    · rintro ⟨⟨⟨s, hs⟩, hkeys⟩, ⟨w, hw⟩, hvalues⟩
      obtain ⟨ms, hms⟩ := ih.mpr ⟨hkeys, hvalues⟩
      exact ⟨s, hs, isOk_bind_iff.mpr ⟨w, hw, isOk_bind_iff.mpr ⟨ms, hms, _, rfl⟩⟩⟩

omit [NumberSyntax N] in
/-- Within a container, which takes a level. -/
theorem isOk_container {depth : Nat} {α : Type} {x : Except PyException α} {f : α → Value N} :
    (∃ w, (do py.checkDepth depth; return f (← x) : Except PyException (Value N)) = .ok w) ↔
      depth < py.recursionLimit ∧ ∃ a, x = .ok a := by
  rw [isOk_bind_iff, ← checkDepth_isOk]
  constructor
  · rintro ⟨u, hu, hrest⟩
    obtain ⟨a, ha, -⟩ := isOk_bind_iff.mp hrest
    exact ⟨⟨u, hu⟩, a, ha⟩
  · rintro ⟨⟨u, hu⟩, a, ha⟩
    exact ⟨u, hu, isOk_bind_iff.mpr ⟨a, ha, _, rfl⟩⟩

/-- **The encoder refuses nothing else.** -/
theorem encodeValue_isOk_iff (v : PyValue N) :
    ∀ depth, (∃ w, encodeValue py depth v = .ok w) ↔ py.Writable depth v := by
  induction v using PyValue.induct with
  | none => exact fun depth => iff_of_true ⟨_, rfl⟩ .none
  | bool b => exact fun depth => iff_of_true ⟨_, rfl⟩ .bool
  | num n =>
    intro depth
    rw [encodeValue, isOk_map_iff, checkNumber_isOk]
    exact ⟨.num, fun h => by cases h; assumption⟩
  | nonFinite => exact fun depth => iff_of_false (fun h => by cases h.choose_spec) nofun
  | str s => exact fun depth => iff_of_true ⟨_, rfl⟩ .str
  | list items ih =>
    intro depth
    rw [encodeValue, isOk_container, encodeItems_isOk,
      forall₂_congr fun v hv => ih v hv (depth + 1)]
    exact ⟨fun h => .list h.1 h.2, fun h => by cases h; exact ⟨‹_›, ‹_›⟩⟩
  | tuple items ih =>
    intro depth
    rw [encodeValue, isOk_container, encodeItems_isOk,
      forall₂_congr fun v hv => ih v hv (depth + 1)]
    exact ⟨fun h => .tuple h.1 h.2, fun h => by cases h; exact ⟨‹_›, ‹_›⟩⟩
  | dict items ih =>
    intro depth
    rw [encodeValue, isOk_container, encodeMembers_isOk,
      forall₂_congr fun item hitem => ih item hitem (depth + 1)]
    exact ⟨fun h => .dict h.1 h.2.1 h.2.2, fun h => by cases h; exact ⟨‹_›, ‹_›, ‹_›⟩⟩
  | object repr =>
    intro depth
    rw [encodeValue, isOk_container]
    exact ⟨fun h => .object h.1 h.2, fun h => by cases h; exact ⟨‹_›, ‹_›⟩⟩
  | cycle => exact fun depth => iff_of_false (fun h => by cases h.choose_spec) nofun

theorem encodeValue_dict {depth : Nat} {items : List (PyKey N × PyValue N)} {value : Value N}
    (h : encodeValue py depth (.dict items) = .ok value) :
    ∃ fields, value = .obj fields ∧ encodeMembers py (depth + 1) items = .ok fields := by
  rw [encodeValue] at h
  cases hdepth : py.checkDepth depth with
  | error e => rw [hdepth] at h; cases h
  | ok u =>
    cases hfields : encodeMembers py (depth + 1) items with
    | error e => rw [hdepth, hfields] at h; cases h
    | ok fields =>
      rw [hdepth, hfields] at h
      cases h
      exact ⟨fields, rfl, rfl⟩

theorem mem_encodeMembers {depth : Nat} {items : List (PyKey N × PyValue N)}
    {ms : List (Text × Value N)} (h : encodeMembers py depth items = .ok ms)
    {m : Text × Value N} :
    m ∈ ms ↔ ∃ item ∈ items, encodeKey py item.1 = .ok m.1 ∧
      encodeValue py depth item.2 = .ok m.2 := by
  induction items generalizing ms with
  | nil => cases h; simp
  | cons item items ih =>
    obtain ⟨k, v⟩ := item
    rw [encodeMembers] at h
    cases hk : encodeKey py k with
    | error e => rw [hk] at h; cases h
    | ok s =>
      cases hv : encodeValue py depth v with
      | error e => rw [hk, hv] at h; cases h
      | ok w =>
        cases hrest : encodeMembers py depth items with
        | error e => rw [hk, hv, hrest] at h; cases h
        | ok rest =>
          rw [hk, hv, hrest] at h
          cases h
          have hhead : m = (s, w) ↔
              encodeKey py k = .ok m.1 ∧ encodeValue py depth v = .ok m.2 := by
            rw [hk, hv, Except.ok.injEq, Except.ok.injEq, Prod.ext_iff, eq_comm (a := s),
              eq_comm (a := w)]
          rw [List.mem_cons, List.exists_mem_cons_iff, ih hrest, hhead]

end Written

end Encoder

/-! ## The line of a record -/

section Line
variable {N : Type}

theorem isName_iff {name : String} {k : PyKey N} : k.isName name ↔ k = .str name.toList := by
  cases k <;> simp [PyKey.isName]

theorem mem_setItem {name : String} {value : PyValue N} {items : List (PyKey N × PyValue N)}
    {item : PyKey N × PyValue N} :
    item ∈ setItem name value items ↔
      item = (.str name.toList, value) ∨ item ∈ items ∧ ¬ item.1.isName name := by
  rw [setItem]
  split
  · rename_i hany
    obtain ⟨old, hold, hname⟩ := List.any_eq_true.mp hany
    rw [List.mem_map]
    constructor
    · rintro ⟨other, hother, rfl⟩
      by_cases hthis : other.1.isName name
      · rw [if_pos hthis, isName_iff.mp hthis]
        exact .inl rfl
      · rw [if_neg hthis]
        exact .inr ⟨hother, hthis⟩
    · rintro (rfl | ⟨hmem, hnot⟩)
      · exact ⟨old, hold, by rw [if_pos hname, isName_iff.mp hname]⟩
      · exact ⟨item, hmem, if_neg hnot⟩
  · rename_i hany
    rw [List.mem_append, List.mem_singleton, or_comm]
    refine or_congr_right (iff_self_and.mpr fun hmem hname => hany ?_)
    exact List.any_eq_true.mpr ⟨item, hmem, hname⟩

/-- Everything in the record but its `msg`, which is not written, can be. -/
structure Interpreter.RecordWritable (py : Interpreter N) (record : LogRecord N) : Prop where
  depth : 0 < py.recursionLimit
  keys : ∀ item ∈ record.dict, py.KeyWritable item.1
  values : ∀ item ∈ record.dict, ¬ item.1.isName "msg" → py.Writable 1 item.2

variable {py : Interpreter N} {record : LogRecord N}

theorem writable_setItem_iff (message : Text) :
    py.Writable 0 (.dict (setItem "msg" (.str message) record.dict)) ↔
      py.RecordWritable record := by
  constructor
  · rintro (_ | _ | _ | _ | _ | _ | ⟨hdepth, hkeys, hvalues⟩ | _)
    refine ⟨hdepth, fun item hitem => ?_, fun item hitem hnot =>
      hvalues item (mem_setItem.mpr (.inr ⟨hitem, hnot⟩))⟩
    by_cases hname : item.1.isName "msg"
    · rw [isName_iff.mp hname]
      exact .str
    · exact hkeys item (mem_setItem.mpr (.inr ⟨hitem, hname⟩))
  · intro h
    refine .dict h.depth (fun item hitem => ?_) fun item hitem => ?_
    · rcases mem_setItem.mp hitem with rfl | ⟨hmem, -⟩
      · exact .str
      · exact h.keys item hmem
    · rcases mem_setItem.mp hitem with rfl | ⟨hmem, hnot⟩
      · exact .str
      · exact h.values item hmem hnot

variable [JsonNumber N]

theorem isName_of_encodeKey {k : PyKey N} (h : encodeKey py k = .ok "msg".toList) :
    k.isName "msg" := by
  cases k with
  | none | nonFinite | other _ => cases h
  | bool b => cases b <;> cases h
  | num n =>
    rw [encodeKey, Interpreter.checkNumber] at h
    split at h
    · have hrender : NumberSyntax.render n = "msg".toList := Except.ok.inj h
      have hchars := JsonNumber.render_numChar n
      rw [hrender] at hchars
      exact absurd (hchars 'm' (by decide)) (by decide)
    · cases h
  | str s => exact isName_iff.mpr (congrArg PyKey.str (Except.ok.inj h))

theorem get?_encodeMembers {message : Text} {fields : List (Text × Value N)} {depth : Nat}
    (h : encodeMembers py depth (setItem "msg" (.str message) record.dict) = .ok fields) :
    (Value.obj fields).get? "msg".toList = some (.str message) := by
  refine get?_of_forall ((mem_encodeMembers h).mpr ⟨_, mem_setItem.mpr (.inl rfl), rfl, rfl⟩) ?_
  intro f hf hkey
  obtain ⟨item, hitem, hk, hv⟩ := (mem_encodeMembers h).mp hf
  rw [hkey] at hk
  rcases mem_setItem.mp hitem with rfl | ⟨-, hnot⟩
  · exact (Except.ok.inj hv).symm
  · exact absurd (isName_of_encodeKey hk) hnot

/-- One line of JSON that says `message` under `"msg"`. -/
def IsLineOf (N : Type) [JsonNumber N] (message line : Text) : Prop :=
  '\n' ∉ line ∧ ∃ fields : List (Text × Value N), line = render ascii 0 (.obj fields) ∧
    loads line = some (.obj fields) ∧
    (Value.obj fields).get? "msg".toList = some (.str message)

theorem format_eq {getMessage : GetMessage N} {message : Text}
    (hmessage : getMessage record = .ok message) :
    JsonLogFormatter.format py getMessage record =
      (encodeRecord py record message).map (render ascii 0) := by
  rw [JsonLogFormatter.format, hmessage]
  show (do let value ← encodeRecord py record message; return render ascii 0 value) = _
  cases encodeRecord py record message <;> rfl

/-- **A record is written as one line exactly where the encoder refuses nothing of it.** -/
theorem format_one_line_iff {getMessage : GetMessage N} {message : Text}
    (hmessage : getMessage record = .ok message) :
    (∃ line, JsonLogFormatter.format py getMessage record = .ok line ∧ IsLineOf N message line) ↔
      py.RecordWritable record := by
  rw [← writable_setItem_iff message, ← encodeValue_isOk_iff, format_eq hmessage]
  constructor
  · rintro ⟨line, hline, -⟩
    exact isOk_map_iff.mp ⟨line, hline⟩
  · rintro ⟨value, hvalue⟩
    obtain ⟨fields, rfl, hfields⟩ := encodeValue_dict hvalue
    refine ⟨render ascii 0 (.obj fields), ?_, oneLine_ascii.render _ 0, fields, rfl,
      loads_render ascii _, get?_encodeMembers hfields⟩
    rw [encodeRecord, hvalue, Except.map]

end Line

/-! ### Two records -/

/-- The usual limits. -/
def usualLimits : Interpreter Nat where
  recursionLimit := 1000
  writes n := (Nat.toDigits 10 n).length ≤ 4300

/-- `logger.info("seen", extra={"counts": counts})`. -/
def countsRecord (counts : PyValue Nat) : LogRecord Nat :=
  ⟨[(.str "msg".toList, .str "seen".toList), (.str "args".toList, .tuple []),
    (.str "counts".toList, counts)]⟩

def seen : GetMessage Nat := fun _ => .ok "seen".toList

/-- Lists, an object and keys that are numbers. -/
theorem numbered_counts_written :
    ∃ line, JsonLogFormatter.format usualLimits seen (countsRecord
        (.dict [(.num 1, .list [.num 2, .object (.raised (.ok "no repr".toList))])])) = .ok line ∧
      IsLineOf Nat "seen".toList line := by
  refine (format_one_line_iff rfl).mpr ⟨by decide, ?_, ?_⟩
  · simp only [countsRecord, List.forall_mem_cons]
    exact ⟨.str, .str, .str, nofun⟩
  · simp only [countsRecord, List.forall_mem_cons]
    refine ⟨fun _ => .str, fun _ => .tuple (by decide) nofun, fun _ => .dict (by decide) ?_ ?_,
      nofun⟩
    · exact List.forall_mem_singleton.mpr (.num (by decide))
    · refine List.forall_mem_singleton.mpr (.list (by decide) ?_)
      simp only [List.forall_mem_cons]
      exact ⟨.num (by decide), .object (by decide) ⟨_, rfl⟩, nofun⟩

/-- A pair as a key. -/
theorem tuple_key_raises :
    JsonLogFormatter.format usualLimits seen (countsRecord (.dict [(.other "tuple", .num 3)])) =
      .error ⟨.exception, "TypeError",
        "keys must be str, int, float, bool or None, not tuple"⟩ ∧
    ¬ ∃ line, JsonLogFormatter.format usualLimits seen
        (countsRecord (.dict [(.other "tuple", .num 3)])) = .ok line ∧
      IsLineOf Nat "seen".toList line := by
  refine ⟨rfl, ?_⟩
  rintro ⟨line, hline, -⟩
  cases hline

end SchedulingUtil
