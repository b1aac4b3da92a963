import Conform.Json.Basic

/-! # Modes, options and outcomes

Data that does not fit is rejected at a path. A fault is something else: the schema asks for what
its data cannot give, or nests deeper than the caller allows.
-/

set_option autoImplicit false

namespace Conform

/-- How far data may stray from its native representation. -/
inductive Mode where
  | strict
  | lenient
deriving DecidableEq, Repr

structure Options where
  mode : Mode := .strict
  /-- Zero stands for no limit. -/
  maxDepth : Nat := 0
deriving DecidableEq, Repr

/-- The field names and indices that lead from the input to a place in it. -/
abbrev Path := List String

def Path.text (path : Path) : String := "/" ++ "/".intercalate path

inductive Fault where
  | notBoolean (path : Path)
  | notNumber (path : Path)
  | notScalar (path : Path)
  | depthExceeded
deriving DecidableEq, Repr

namespace Fault

def path? : Fault → Option Path
  | .notBoolean path | .notNumber path | .notScalar path => some path
  | .depthExceeded => none

def message : Fault → String
  | .notBoolean path => "value at " ++ path.text ++ " is not castable to boolean"
  | .notNumber path => "value at " ++ path.text ++ " is not castable to number"
  | .notScalar path =>
    "value at " ++ path.text ++ " is not a scalar and cannot be resolved as mixed"
  | .depthExceeded => "max depth exceeded"

end Fault

/-- Why a place in the input gives no value. -/
inductive Failure where
  | rejected
  | fault (cause : Fault)
deriving DecidableEq, Repr

/-- The result of a coercion. -/
inductive Outcome where
  | accepted (record : Record)
  | rejected (path : Path)
  | faulted (cause : Fault)
deriving DecidableEq, Repr

def rejectionMessage (path : Path) : String := "input rejected at " ++ path.text

namespace Outcome

def record? : Outcome → Option Record
  | .accepted record => some record
  | _ => none

/-- Records compare as data does, everything else exactly. -/
def same : Outcome → Outcome → Bool
  | .accepted x, .accepted y => x.same y
  | .rejected x, .rejected y => x == y
  | .faulted x, .faulted y => x == y
  | _, _ => false

end Outcome

end Conform
