/-! # Type tags

A tag names a kind of scalar, then says with `[]` that a list of them is meant and with `?` that the
field may be absent, in this order.
-/

set_option autoImplicit false

namespace Conform

inductive Kind where
  | int
  | float
  | boolean
  | string
  | null
  | mixed
deriving DecidableEq, Repr

namespace Kind

def text : Kind → String
  | .int => "int"
  | .float => "float"
  | .boolean => "boolean"
  | .string => "string"
  | .null => "null"
  | .mixed => "mixed"

def parse? : String → Option Kind
  | "int" => some .int
  | "float" => some .float
  | "boolean" => some .boolean
  | "string" => some .string
  | "null" => some .null
  | "mixed" => some .mixed
  | _ => none

end Kind

structure Tag where
  kind : Kind
  array : Bool := false
  optional : Bool := false
deriving DecidableEq, Repr

namespace Tag

def text (tag : Tag) : String :=
  tag.kind.text ++ (if tag.array then "[]" else "") ++ (if tag.optional then "?" else "")

/-- The text before an ending, and whether the ending was there. -/
def stripEnd (ending text : List Char) : List Char × Bool :=
  if ending.isSuffixOf text then (text.take (text.length - ending.length), true) else (text, false)

def parse? (text : String) : Option Tag :=
  let (text, optional) := stripEnd ['?'] text.toList
  let (text, array) := stripEnd ['[', ']'] text
  (Kind.parse? (String.ofList text)).map fun kind => { kind, array, optional }

/-- A tag that is a kind and nothing more. -/
def isPlain (tag : Tag) : Bool := !tag.array && !tag.optional

end Tag

end Conform
