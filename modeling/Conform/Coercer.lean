import Conform.Coerce.Engine

/-! # Coercers

A schema together with options, for use on many inputs.
-/

set_option autoImplicit false

namespace Conform

structure Coercer where
  schema : Schema
  options : Options := {}

namespace Coercer

def mode (coercer : Coercer) : Mode := coercer.options.mode

def withMode (coercer : Coercer) (mode : Mode) : Coercer :=
  { coercer with options := { coercer.options with mode } }

def parse (coercer : Coercer) (input : Json) : Outcome :=
  coercer.schema.coerce input coercer.options

end Coercer

end Conform
