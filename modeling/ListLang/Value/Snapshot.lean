import ListLang.Expr.Outline
import ListLang.Value.Store

/-!
# Snapshots of values

A snapshot is a value written out as it is in one store: lists with all their items and
closures with the names they capture. A list that is shared is written out wherever it
occurs. Snapshots are what is shown of values.

## Main definitions

* `Snapshot` — values written out.
* `Store.snapshot` — the snapshot of a value.
* `Snapshot.text` — a value as a program's answer.
* `Snapshot.outline` — a value in full.
-/

namespace ListLang

/-- Names in quotes, with commas between them, in braces. -/
def Environment.textOfNames (names : List String) : String :=
  "\x7b" ++ String.intercalate ", " (names.map Text.Quoted.quoted) ++ "\x7d"

/-- A value written out. -/
inductive Snapshot where
  | int (n : Int64)
  | bool (b : Bool)
  | string (s : String)
  | list (contentKind : Kind) (items : List Snapshot)
  | closure (param : String) (names : List String) (body : Expr)
  | builtin (b : Builtin)
  deriving Repr, Inhabited

/-- Writes out a value, looking at most `depth` steps into lists. -/
def Store.snapshotWithin (s : Store) : Nat → Value → Snapshot
  | _, .int n => .int n
  | _, .bool b => .bool b
  | _, .string t => .string t
  | _, .closure id =>
    let c := s.closure id
    .closure c.param c.env.names c.body
  | _, .builtin b => .builtin b
  | 0, .list id => .list (s.list id).contentKind []
  | depth + 1, .list id =>
    let cell := s.list id
    .list cell.contentKind (cell.items.map (snapshotWithin s depth))

/-- Writes out a value. Where no list is inside itself, the steps from list to list are no
more than there are lists. -/
def Store.snapshot (s : Store) (v : Value) : Snapshot := s.snapshotWithin s.lists.size v

namespace Snapshot

/-- The kind of the value. -/
def kind : Snapshot → Kind
  | int _ => .int
  | bool _ => .bool
  | string _ => .string
  | list .. => .list
  | closure .. | builtin _ => .function

mutual

/-- The value as a program's answer. Strings stand between quotes as they are. -/
def text : Snapshot → String
  | int n => Integer.text n
  | bool b => if b then "true" else "false"
  | string s => "\"" ++ s ++ "\""
  | list _ items => "List[" ++ itemsText items ++ "]"
  | closure param _ _ => "<closure \\" ++ param ++ ">"
  | builtin b => "<builtin " ++ b.name ++ ">"

/-- The items of a list with commas between them. -/
def itemsText : List Snapshot → String
  | [] => ""
  | [item] => text item
  | item :: rest => text item ++ ", " ++ itemsText rest

end

/-- The name of a builtin in an outline. -/
def builtinLabel : Builtin → String
  | .firstChar => "FirstChar"
  | .remainingChars => "RemainingChars"
  | .charCode => "CharCode"
  | .codeChar => "CodeChar"

mutual

/-- The value in full. -/
def outline : Snapshot → Outline
  | int n => .call "Int" [.leaf (Integer.text n)]
  | bool b => .call "Bool" [.ofBool b]
  | string s => .call "String" [.ofString s]
  | list contentKind items =>
    .call "List" [.node "ListValue" [("content_type", .leaf contentKind.text),
      ("items", .node "RefCell" [("value", .sequence (outlines items))])]]
  | closure param _ body =>
    .call "Closure" [.record "Closure" false [.field "param" (.ofString param),
      .field "body" body.outline]]
  | builtin b => .call "Builtin" [.leaf (builtinLabel b)]

/-- The values in full, in order. -/
def outlines : List Snapshot → List Outline
  | [] => []
  | item :: rest => outline item :: outlines rest

end

end Snapshot

end ListLang
