import Mathlib.Algebra.Group.Int.Defs
import Mathlib.Data.List.Basic

/-!
# JSON values

`serde_json::Value`, its accessors and conversions, as far as typed extraction
uses them. Parsing and printing are those of the `serde_json` crate, outside the
repository, and so is the `f64` type `F` of a number that is not an integer.
-/

namespace Semcast.Json

/-- The `f64` operations that decoding a field calls. -/
structure Floats (F : Type*) where
  /-- `as f64` of an `i64` or `u64`. -/
  ofInt : Int → F
  /-- `<=`, false on NaN. -/
  le : F → F → Bool
  isFinite : F → Bool
  /-- `Display`. -/
  display : F → String

/-- `serde_json::Number`: an integer (`u64`, or `i64` when negative) or a float. -/
inductive Number (F : Type*) where
  | int (n : Int)
  | float (x : F)
  deriving DecidableEq

/-- `serde_json::Value`. -/
inductive Value (F : Type*) where
  | null
  | bool (b : Bool)
  | number (n : Number F)
  | string (s : String)
  | array (items : List (Value F))
  | object (fields : List (String × Value F))

/-- The calls into `serde_json` that print and parse a value. -/
structure Text (F : Type*) where
  fromStr : String → Option (Value F)
  toString : Value F → String

variable {F : Type*}

/-- `i64::MAX`. -/
def maxInt64 : Int := 2 ^ 63 - 1

namespace Value

def asStr : Value F → Option String
  | .string s => some s
  | _ => none

def asBool : Value F → Option Bool
  | .bool b => some b
  | _ => none

def asArray : Value F → Option (List (Value F))
  | .array items => some items
  | _ => none

/-- `as_i64`: none for an integer above `i64::MAX` and for every float. -/
def asI64 : Value F → Option Int
  | .number (.int n) => if n ≤ maxInt64 then some n else none
  | _ => none

def asF64 (floats : Floats F) : Value F → Option F
  | .number (.int n) => some (floats.ofInt n)
  | .number (.float x) => some x
  | _ => none

/-- `Value::from` of an `f64`: null when it is not finite. -/
def ofF64 (floats : Floats F) (x : F) : Value F :=
  if floats.isFinite x then .number (.float x) else .null

end Value

end Semcast.Json
