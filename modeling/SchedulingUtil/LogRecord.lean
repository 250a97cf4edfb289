import SchedulingUtil.Types

/-! # Log records

A record is what its `__dict__` holds, and that is any Python value. -/
namespace SchedulingUtil
open Lib.Json

/-- What `repr` does with an object: it returns a text, or it raises an exception, and then
`str` of that one does either. -/
inductive ReprResult where
  | returned (s : Text)
  | raised (text : Except PyException Text)

/-- A hashable value, by what `json` distinguishes in keys. -/
inductive PyKey (N : Type) where
  | none
  | bool (b : Bool)
  | num (n : N)
  | nonFinite
  | str (s : Text)
  | other (typeName : String)

/-- A value, as far as it can be followed from the outside: numbers are finite ones, `nonFinite`
is a NaN or an infinity, `cycle` a container within itself, and `object` everything else. -/
inductive PyValue (N : Type) where
  | none
  | bool (b : Bool)
  | num (n : N)
  | nonFinite
  | str (s : Text)
  | list (items : List (PyValue N))
  | tuple (items : List (PyValue N))
  | dict (items : List (PyKey N × PyValue N))
  | object (repr : ReprResult)
  | cycle

variable {N : Type}

/-- Induction over values, with the items of a container at hand. -/
theorem PyValue.induct {P : PyValue N → Prop} (none : P .none) (bool : ∀ b, P (.bool b))
    (num : ∀ n, P (.num n)) (nonFinite : P .nonFinite) (str : ∀ s, P (.str s))
    (list : ∀ items, (∀ v ∈ items, P v) → P (.list items))
    (tuple : ∀ items, (∀ v ∈ items, P v) → P (.tuple items))
    (dict : ∀ items, (∀ item ∈ items, P item.2) → P (.dict items))
    (object : ∀ repr, P (.object repr)) (cycle : P .cycle) : ∀ v, P v
  | .none => none
  | .bool b => bool b
  | .num n => num n
  | .nonFinite => nonFinite
  | .str s => str s
  | .list items => list items fun v _ =>
    PyValue.induct none bool num nonFinite str list tuple dict object cycle v
  | .tuple items => tuple items fun v _ =>
    PyValue.induct none bool num nonFinite str list tuple dict object cycle v
  | .dict items => dict items fun item _ =>
    PyValue.induct none bool num nonFinite str list tuple dict object cycle item.2
  | .object repr => object repr
  | .cycle => cycle
termination_by v => sizeOf v
decreasing_by
  · have := List.sizeOf_lt_of_mem ‹v ∈ items›
    simp only [PyValue.list.sizeOf_spec]
    omega
  · have := List.sizeOf_lt_of_mem ‹v ∈ items›
    simp only [PyValue.tuple.sizeOf_spec]
    omega
  · have := List.sizeOf_lt_of_mem ‹item ∈ items›
    obtain ⟨k, v⟩ := item
    simp only [PyValue.dict.sizeOf_spec, Prod.mk.sizeOf_spec] at this ⊢
    omega

def PyKey.isName (name : String) : PyKey N → Bool
  | .str s => s == name.toList
  | _ => false

/-- `items[name] = value`. -/
def setItem (name : String) (value : PyValue N) (items : List (PyKey N × PyValue N)) :
    List (PyKey N × PyValue N) :=
  if items.any (·.1.isName name) then
    items.map fun item => if item.1.isName name then (item.1, value) else item
  else items ++ [(.str name.toList, value)]

/-- A `LogRecord`, by its `__dict__`. -/
structure LogRecord (N : Type) where
  dict : List (PyKey N × PyValue N)

namespace LogRecord

variable (record : LogRecord N)

def get? (name : String) : Option (PyValue N) :=
  (record.dict.find? (·.1.isName name)).map Prod.snd

/-- `record.name`. -/
def getattr (name : String) : Except PyException (PyValue N) :=
  match record.get? name with
  | some value => .ok value
  | none => .error ⟨.exception, "AttributeError",
      "'LogRecord' object has no attribute '" ++ name ++ "'"⟩

def setattr (name : String) (value : PyValue N) : LogRecord N :=
  ⟨setItem name value record.dict⟩

end LogRecord

/-- `record.getMessage()`: the message with its arguments merged into it, by the `str` and the
`%` of whatever values these are. -/
abbrev GetMessage (N : Type) := LogRecord N → Except PyException Text

end SchedulingUtil
