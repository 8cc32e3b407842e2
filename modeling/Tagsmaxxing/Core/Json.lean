import Mathlib.Algebra.Ring.Int.Defs

/-! # JSON values (`serde_json::Value`)

Only what the handlers read: member access and the typed views. Reading and writing the text of a value is
`serde_json`'s, and a parameter (`SerdeJson`) of the functions that need it. -/

namespace Tagsmaxxing

/-- `serde_json::Value`. A number is an integer or something that no integer view accepts. -/
inductive Json
  | null
  | bool (b : Bool)
  | int (n : Int)
  | float
  | str (s : String)
  | arr (xs : List Json)
  | obj (fields : List (String × Json))

namespace Json

/-- `Value::get` with a string key. -/
def get? (key : String) : Json → Option Json
  | obj fields => fields.lookup key
  | _ => none

/-- `Value::as_str`. -/
def asStr : Json → Option String
  | str s => some s
  | _ => none

/-- `Value::as_array`. -/
def asArray : Json → Option (List Json)
  | arr xs => some xs
  | _ => none

/-- `Value::as_i64`. -/
def asI64 : Json → Option Int
  | int n => if -2 ^ 63 ≤ n ∧ n < 2 ^ 63 then some n else none
  | _ => none

/-- The characters a text that is read can start with: white space, or the first one of a value. -/
def isStart (c : Char) : Bool :=
  c ∈ [' ', '\n', '\t', '\r', '"', '\x7b', '[', 'n', 't', 'f', '-'] || c.isDigit

end Json

/-- `serde_json::to_string` and `from_str`, which says why it cannot read a text. -/
structure SerdeJson where
  toString : Json → String
  fromStr : String → Except String Json

namespace SerdeJson

def ReadsBack (serde : SerdeJson) (v : Json) : Prop := serde.fromStr (serde.toString v) = .ok v

/-- A text that starts like no value is not read. -/
def RejectsProse (serde : SerdeJson) : Prop :=
  ∀ c cs, Json.isStart c = false → ∃ e, serde.fromStr (String.ofList (c :: cs)) = .error e

end SerdeJson

/-- The value of a decimal digit. -/
def digitValue (c : Char) : Option ℕ := if c.isDigit then some (c.toNat - 48) else none

/-- A non-empty string of decimal digits. -/
def parseDigits (cs : List Char) : Option ℕ :=
  if cs.isEmpty then none
  else cs.foldl (fun acc c => acc.bind fun n => (digitValue c).map fun d => 10 * n + d) (some 0)

/-- `str::parse::<i64>`: an optional sign, digits, and no overflow. -/
def parseI64 (s : String) : Option Int :=
  let value : Option Int := match s.toList with
    | '-' :: cs => (parseDigits cs).map fun n => -(n : Int)
    | '+' :: cs => (parseDigits cs).map fun n => (n : Int)
    | cs => (parseDigits cs).map fun n => (n : Int)
  value.filter fun n => decide (-2 ^ 63 ≤ n) && decide (n < 2 ^ 63)

end Tagsmaxxing
