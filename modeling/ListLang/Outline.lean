/-!
# Outlines

An outline is a tree of names, fields and elements, the common form in which syntax
trees and values are shown in full. It is laid out either on one line or with one field
or element a line, each of those followed by a comma and indented by four spaces more
than what holds it.

## Main definitions

* `Outline` — the tree.
* `Outline.inline` — the layout on one line.
* `Outline.block` — the layout with one item a line.
-/

namespace ListLang

/-- A tree of named parts. A `record` that is not `complete` says so by a closing `..`. -/
inductive Outline where
  | leaf (text : String)
  | call (name : String) (arguments : List Outline)
  | record (name : String) (complete : Bool) (fields : List Outline)
  | field (label : String) (value : Outline)
  | sequence (items : List Outline)
  deriving Repr, Inhabited

namespace Outline

mutual

/-- Writes an outline on one line, behind `out`. -/
def writeInline (out : String) : Outline → String
  | leaf text => out ++ text
  | call name arguments => writeItems (out ++ name ++ "(") false arguments ++ ")"
  | record name complete fields =>
    let body := writeItems (out ++ name ++ " \x7b ") false fields
    if complete then body ++ " \x7d" else body ++ ", .. \x7d"
  | field label value => writeInline (out ++ label ++ ": ") value
  | sequence items => writeItems (out ++ "[") false items ++ "]"

/-- Writes items on one line with commas between them, and one in front if some item
was already written. -/
def writeItems (out : String) (started : Bool) : List Outline → String
  | [] => out
  | item :: rest => writeItems (writeInline (if started then out ++ ", " else out) item) true rest

end

/-- The outline on one line. -/
def inline (o : Outline) : String := writeInline "" o

/-- The blanks in front of a line at nesting depth `depth`. -/
def indent (depth : Nat) : String := "".pushn ' ' (4 * depth)

mutual

/-- Writes an outline at a nesting depth with one item a line, behind `out`. -/
def writeBlock (out : String) (depth : Nat) : Outline → String
  | leaf text => out ++ text
  | call name arguments =>
    writeLines (out ++ name ++ "(\n") (depth + 1) arguments ++ indent depth ++ ")"
  | record name complete fields =>
    let body := writeLines (out ++ name ++ " \x7b\n") (depth + 1) fields
    let body := if complete then body else body ++ indent (depth + 1) ++ "..\n"
    body ++ indent depth ++ "\x7d"
  | field label value => writeBlock (out ++ label ++ ": ") depth value
  | sequence [] => out ++ "[]"
  | sequence items => writeLines (out ++ "[\n") (depth + 1) items ++ indent depth ++ "]"

/-- Writes each item on a line of its own. -/
def writeLines (out : String) (depth : Nat) : List Outline → String
  | [] => out
  | item :: rest =>
    writeLines (writeBlock (out ++ indent depth) depth item ++ ",\n") depth rest

end

/-- The outline with one item a line. -/
def block (o : Outline) : String := writeBlock "" 0 o

end Outline

end ListLang
