import Conform.Coerce.Outcome
import Conform.Numeral
import Conform.Schema.Tag
import Conform.Text.Pieces

/-! # Coercion of single values

Predicates say whether a value can stand for a boolean, a number, an integer or null in a mode;
casters turn a value into what it stands for. A caster does not look at the mode, so it is only
asked after its predicate has answered.
-/

set_option autoImplicit false

namespace Conform

namespace Json

def isBoolean (mode : Mode) : Json → Bool
  | .bool _ => true
  | .str text => mode == .lenient && ["true", "false", "1", "0"].contains text
  | .num n => mode == .lenient && (n.toBinary64.same .one || n.toBinary64.isZero)
  | _ => false

/-- The double that a value stands for. -/
def numeric? (mode : Mode) : Json → Option Binary64
  | .num n => some n.toBinary64
  | .bool b => if mode = .lenient then some (if b then .one else .zero false) else none
  | .str text => if mode = .lenient then Numeral.read? text.toList else none
  | _ => none

def isNumber (mode : Mode) (value : Json) : Bool := (value.numeric? mode).isSome

def isInt (mode : Mode) (value : Json) : Bool := (value.numeric? mode).any Binary64.isIntegral

def isNull (mode : Mode) : Json → Bool
  | .null => true
  | .str text => mode == .lenient && text == "null"
  | _ => false

def isString : Json → Bool
  | .str _ => true
  | _ => false

def toBoolean? : Json → Option Bool
  | .bool b => some b
  | .str text =>
    if text = "true" ∨ text = "1" then some true
    else if text = "false" ∨ text = "0" then some false
    else none
  | .num n =>
    if n.toBinary64.same .one then some true
    else if n.toBinary64.isZero then some false
    else none
  | _ => none

/-- A number keeps its kind. The number read from text is an integer if it is whole and safe. -/
def toNumber? : Json → Option Number
  | .num n => some n
  | .bool b => some (.ofBool b)
  | .str text => (Numeral.read? text.toList).map .ofBinary64
  | _ => none

def castBoolean (path : Path) (value : Json) : Except Fault Json :=
  match value.toBoolean? with
  | some b => .ok (.bool b)
  | none => .error (.notBoolean path)

def castNumber (path : Path) (value : Json) : Except Fault Json :=
  match value.toNumber? with
  | some n => .ok (.num n)
  | none => .error (.notNumber path)

/-- The first that fits of number, boolean, null and string. -/
def castMixed (mode : Mode) (path : Path) (value : Json) : Except Fault Json :=
  if value.isNumber mode then castNumber path value
  else if value.isBoolean mode then castBoolean path value
  else if value.isNull mode then .ok .null
  else if value.isString then .ok value
  else .error (.notScalar path)

end Json

/-- The cast is made if the test has been passed. -/
def castIf (test : Bool) (cast : Except Fault Json) : Except Failure Json :=
  if test then cast.mapError .fault else .error .rejected

namespace Kind

def coerce (mode : Mode) (path : Path) (value : Json) : Kind → Except Failure Json
  | .boolean => castIf (value.isBoolean mode) (value.castBoolean path)
  | .string => castIf value.isString (.ok value)
  | .int => castIf (value.isInt mode) (value.castNumber path)
  | .float => castIf (value.isNumber mode) (value.castNumber path)
  | .null => castIf (value.isNull mode) (.ok .null)
  | .mixed => (value.castMixed mode path).mapError .fault

/-- Kinds are tried in their order until one does not reject. -/
def coerceFirst (mode : Mode) (path : Path) (value : Json) : List Kind → Except Failure Json
  | [] => .error .rejected
  | kind :: rest =>
    match kind.coerce mode path value with
    | .error .rejected => coerceFirst mode path value rest
    | result => result

/-- A list is no member of a union, whatever its kinds. -/
def coerceUnion (mode : Mode) (path : Path) (value : Json) (kinds : List Kind) :
    Except Failure Json :=
  if value.isArray then .error .rejected else coerceFirst mode path value kinds

end Kind

namespace Json

def separator : Char := ','

/-- The elements of a list. In lenient mode a text that is not empty lists its pieces. -/
def elements? (mode : Mode) : Json → Option (List Json)
  | .arr elements => some elements
  | .str text =>
    if mode = .lenient ∧ text ≠ "" then
      some ((Text.pieces separator text.toList).map fun piece => .str (String.ofList piece))
    else none
  | _ => none

end Json

end Conform
