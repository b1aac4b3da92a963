import Conform.Json.Token

/-! # JSON documents

A document is one value. Its tokens are read from left to right, with the containers that are still
open held in a list of frames, the innermost one first.
-/

set_option autoImplicit false

namespace Conform.Json

/-- An open container: what has been read of it, the last first. In an object the value of one more
name is under way. -/
inductive Frame where
  | array (elements : List Json)
  | object (entries : List (String × Json)) (name : String)

/-- What has been read, and what may come next. -/
inductive Progress where
  | beforeValue (frames : List Frame)
  | arrayOpened (frames : List Frame)
  | objectOpened (frames : List Frame)
  | beforeName (entries : List (String × Json)) (frames : List Frame)
  | afterName (entries : List (String × Json)) (name : String) (frames : List Frame)
  | afterValue (value : Json) (frames : List Frame)

namespace Progress

/-- So many containers may be open at a time. -/
def maxOpen : Nat := 127

/-- A value begins, as a scalar or as a container. -/
def beginValue? (frames : List Frame) : Token → Option Progress
  | .scalar value => some (.afterValue value frames)
  | .openArray => if frames.length < maxOpen then some (.arrayOpened frames) else none
  | .openObject => if frames.length < maxOpen then some (.objectOpened frames) else none
  | _ => none

def beginName? (entries : List (String × Json)) (frames : List Frame) : Token → Option Progress
  | .scalar (.str name) => some (.afterName entries name frames)
  | _ => none

def step? : Progress → Token → Option Progress
  | .beforeValue frames, token => beginValue? frames token
  | .arrayOpened frames, .closeArray => some (.afterValue (.arr []) frames)
  | .arrayOpened frames, token => beginValue? (.array [] :: frames) token
  | .objectOpened frames, .closeObject => some (.afterValue (.obj []) frames)
  | .objectOpened frames, token => beginName? [] frames token
  | .beforeName entries frames, token => beginName? entries frames token
  | .afterName entries name frames, .colon => some (.beforeValue (.object entries name :: frames))
  | .afterName .., _ => none
  | .afterValue value (.array elements :: frames), .comma =>
    some (.beforeValue (.array (value :: elements) :: frames))
  | .afterValue value (.array elements :: frames), .closeArray =>
    some (.afterValue (.arr (value :: elements).reverse) frames)
  | .afterValue value (.object entries name :: frames), .comma =>
    some (.beforeName ((name, value) :: entries) frames)
  | .afterValue value (.object entries name :: frames), .closeObject =>
    some (.afterValue (.obj ((name, value) :: entries).reverse) frames)
  | .afterValue .., _ => none

def value? : Progress → Option Json
  | .afterValue value [] => some value
  | _ => none

end Progress

/-- The value of a JSON text. A name that an object gives twice has two entries. -/
def ofText? (text : String) : Option Json := do
  let tokens ← Token.scan? text.toList
  let progress ← tokens.foldlM Progress.step? (.beforeValue [])
  progress.value?

mutual

/-- Every object keeps one entry a name, at its first place and with its last value. -/
def merged : Json → Json
  | .arr elements => .arr (mergedElements elements)
  | .obj entries => .obj (Entries.ofList (mergedEntries entries))
  | json => json

def mergedElements : List Json → List Json
  | [] => []
  | json :: rest => merged json :: mergedElements rest

def mergedEntries : List (String × Json) → List (String × Json)
  | [] => []
  | (name, json) :: rest => (name, merged json) :: mergedEntries rest

end

end Conform.Json
