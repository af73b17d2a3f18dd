import RunnerDashboard.Lib.Json
import RunnerDashboard.Lib.PyFloat

/-!
# Values of JSON with floats

What `json.loads` returns, and what Python does with it.

## Main definitions

* `Py.Value` — the values, and `Py.Value.ofJson` — those without floats.
* `Py.Value.get`, `Py.Value.iter`, `Py.Value.truthy` — subscripts, iterations, truth.
* `Py.pyInt` — `int(v)`.
-/

namespace Py

/-- What `json.loads` returns. -/
inductive Value
  | null
  | bool (b : Bool)
  | int (n : ℤ)
  | float (x : PyFloat)
  | str (s : String)
  | arr (items : List Value)
  | obj (fields : List (String × Value))

namespace Value

/-- `v[k]` for a text `k`; `none` where it raises.  Of the values of a repeated name the last one
stays. -/
def get : Value → String → Option Value
  | .obj fields, k => fields.reverse.lookup k
  | _, _ => none

/-- `isinstance(v, dict)`. -/
def isDict : Value → Bool
  | .obj _ => true
  | _ => false

/-- `bool(v)`. -/
def truthy : Value → Bool
  | .null => false
  | .bool b => b
  | .int n => n ≠ 0
  | .float x => x ≠ .fin 0
  | .str s => s ≠ ""
  | .arr items => !items.isEmpty
  | .obj fields => !fields.isEmpty

/-- The elements of an iteration; `none` where there is none. -/
def iter : Value → Option (List Value)
  | .arr items => some items
  | .str s => some (s.toList.map fun c => .str (String.ofList [c]))
  | .obj fields => some (fields.map fun f => .str f.1)
  | _ => none

/-- `v == s` for a text `s`. -/
def isText : Value → String → Bool
  | .str s, t => s = t
  | _, _ => false

mutual

def ofJson : Json → Value
  | .null => .null
  | .bool b => .bool b
  | .num n => .int n
  | .str s => .str s
  | .arr vs => .arr (ofItems vs)
  | .obj fs => .obj (ofFields fs)

def ofItems : List Json → List Value
  | [] => []
  | v :: vs => ofJson v :: ofItems vs

def ofFields : List (String × Json) → List (String × Value)
  | [] => []
  | (k, v) :: fs => (k, ofJson v) :: ofFields fs

end

end Value

/-- `int(v)`; a float loses its fraction. -/
def pyInt (intOf : String → Option Int) : Value → Option Int
  | .int n => some n
  | .bool b => some (if b then 1 else 0)
  | .float x => x.trunc
  | .str s => intOf s
  | _ => none

end Py
