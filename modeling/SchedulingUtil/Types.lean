import SchedulingUtil.Lib.JsonDecimal
import SchedulingUtil.Lib.Utf8

/-! # Outcomes, files, exceptions and numbers

The types several modules share. Times are integers, in microseconds: a
`datetime` is a naive local time, a `timedelta` a difference of two. -/
namespace SchedulingUtil
open Lib.Json Lib.Utf8

inductive Outcome where
  | success
  | failure
  | neutral
  deriving DecidableEq, Repr

/-- A naive `datetime`. -/
abbrev Datetime := Int
abbrev Timedelta := Int

/-- What is at a path: nothing, or a file with its content. -/
abbrev File := Option Bytes

/-- What the handlers ask of an exception's class: `Exception` covers everything
but the three that derive from `BaseException` alone. -/
inductive ExceptionClass where
  | exception
  | keyboardInterrupt
  | systemExit
  | generatorExit
  deriving DecidableEq, Repr

/-- A raised exception: its class, `type(e).__name__` and `str(e)`. -/
structure PyException where
  cls : ExceptionClass
  typeName : String
  text : String
  deriving DecidableEq, Repr

namespace PyException

def valueError (text : String) : PyException := ⟨.exception, "ValueError", text⟩
def assertionError : PyException := ⟨.exception, "AssertionError", ""⟩

/-- The value of a variable that no path through the function has assigned. -/
def unboundLocalError (name : String) : PyException :=
  ⟨.exception, "UnboundLocalError",
    "cannot access local variable '" ++ name ++ "' where it is not associated with a value"⟩

end PyException

/-- Numbers as Python holds them. `lax` is pydantic's conversion of a decoded value
to `float`, `float` is the built-in one, `isFinite` is `math.isfinite`. -/
class PyNumber (N : Type) extends NumberSyntax N where
  lax : Value N → Option N
  float : Value N → Option N
  isFinite : N → Bool

/-- A Unix timestamp in seconds, as Python's `float` holds it: either conversion
takes a number as it is. NaN and the infinities are left out. -/
class PyFloat (N : Type) extends PyNumber N, JsonNumber N where
  lax_num : ∀ n, lax (.num n) = some n
  float_num : ∀ n, float (.num n) = some n
  isFinite_all : ∀ n, isFinite n = true

/-- All values of Python's `float`. The finite ones are numbers of JSON, and no number is
read from a `null`. -/
class PyDouble (N : Type) extends PyNumber N where
  lax_num : ∀ n, isFinite n = true → lax (.num n) = some n
  lax_null : lax .null = none
  written : ∀ n, isFinite n = true → Written n

/-- `datetime.fromtimestamp`, which raises for what no local time represents. -/
abbrev FromTimestamp (N : Type) := N → Except PyException Datetime

/-- A boolean, a number or the text of one, in microseconds. -/
def millionths : Value Int → Option Int
  | .num n => some n
  | .bool b => some (if b then 1000000 else 0)
  | .str s => readMillionths s
  | _ => none

/-- Timestamps in microseconds. -/
instance : PyFloat Int where
  lax := millionths
  float := millionths
  isFinite _ := true
  lax_num _ := rfl
  float_num _ := rfl
  isFinite_all _ := rfl

end SchedulingUtil
