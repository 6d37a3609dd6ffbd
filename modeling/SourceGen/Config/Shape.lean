import SourceGen.Config
import SourceGen.Config.Problem

/-!
# The shape of settings documents

A document may hold one table `builder` with the keys `indent_width` and `line_ending`. An
array stands for that table too, with the width first and the line ending second. Keys
are visited in the order of their names, whatever the order of the document, and the
first problem on the way is reported.
-/
namespace SourceGen

open Toml

namespace Shape

variable {π : Type}

def builderKey : Text := "builder".toList

def documentKeys : List Text := [builderKey]

inductive Setting where
  | width
  | lineEnding
  deriving DecidableEq

/-- The settings with their keys, in the order in which an array has them. -/
def Setting.keys : List (Text × Setting) :=
  [("indent_width".toList, width), ("line_ending".toList, lineEnding)]

def Setting.ofKey? (name : Text) : Option Setting := keys.lookup name

def settingsKeys : List Text := Setting.keys.map (·.1)

/-- The name under which a date or time shows its value when it is read as a table. -/
def dateTimeKey : Text := "$__toml_private_datetime".toList

/-- The entries by name. Names are compared by code point, as their UTF-8 forms by byte. -/
def inNameOrder (t : Table π) : Table π := t.mergeSort fun a b => !b.1.name.lex a.1.name

/-- What a value is reported as. Numbers without a value, and those that no machine format
holds, have no report. -/
def found? : Node π → Option Found
  | .scalar _ (.string t) => some (.string t)
  | .scalar _ (.integer n) =>
    (n.filter fun n => fitsSigned 128 n || fitsUnsigned 128 n).map .integer
  | .scalar _ (.float x) => x.map .float
  | .scalar _ (.boolean b) => some (.boolean b)
  | .scalar _ .dateTime => some .map
  | .array _ _ _ => some .sequence
  | .table _ _ _ => some .map

def mismatch (node : Node π) (expected : Expectation) : Fault π :=
  match found? node with
  | some found => ⟨.wrongType found expected, node.place⟩
  | none => ⟨.unreadableNumber, node.place⟩

def width (node : Node π) : Except (Fault π) Int :=
  match node with
  | .scalar place (.integer (some n)) =>
    if fitsSigned 64 n then .ok n
    else if fitsUnsigned 64 n then .error ⟨.widthTooLarge n, place⟩
    else .error (mismatch node .width)
  | _ => .error (mismatch node .width)

def isEmptyCollection : Node π → Bool
  | .array _ _ items => items.isEmpty
  | .table _ _ entries => entries.isEmpty
  | .scalar _ _ => false

/-- A line ending is its name, or a table that has its name as the only key and nothing
under it. -/
def lineEnding (node : Node π) : Except (Fault π) LineEnding :=
  match node with
  | .scalar place (.string t) =>
    match LineEnding.ofName? t with
    | some e => .ok e
    | none => .error ⟨.unknownLineEnding t, place⟩
  | .table _ _ [(key, content)] =>
    match LineEnding.ofName? key.name with
    | some e =>
      if isEmptyCollection content then .ok e else .error ⟨.lineEndingContent, content.place⟩
    | none => .error ⟨.unknownLineEnding key.name, key.place⟩
  | .table place _ _ => .error ⟨.lineEndingKeys, place⟩
  | _ => .error ⟨.noLineEnding, node.place⟩

def setting (c : BuilderConfig) (entry : Key π × Node π) : Except (Fault π) BuilderConfig :=
  match Setting.ofKey? entry.1.name with
  | some .width => (width entry.2).map fun n => { c with indentWidth := n }
  | some .lineEnding => (lineEnding entry.2).map fun e => { c with lineEnding := e }
  | none => .error ⟨.unknownField entry.1.name settingsKeys, entry.1.place⟩

/-- Settings in an array are read in order; what follows the second is not looked at. -/
def positional : List (Node π) → Except (Fault π) BuilderConfig
  | [] => .ok {}
  | [w] => (width w).map fun n => { indentWidth := n }
  | w :: e :: _ => do
    let n ← width w
    let e ← lineEnding e
    return { indentWidth := n, lineEnding := e }

def settings (node : Node π) : Except (Fault π) BuilderConfig :=
  match node with
  | .table _ _ entries => (inNameOrder entries).foldlM setting {}
  | .array _ _ items => positional items
  | .scalar place .dateTime => .error ⟨.unknownField dateTimeKey settingsKeys, place⟩
  | _ => .error (mismatch node .settings)

def topLevel (_ : BuilderConfig) (entry : Key π × Node π) : Except (Fault π) BuilderConfig :=
  if documentKeys.contains entry.1.name then settings entry.2
  else .error ⟨.unknownField entry.1.name documentKeys, entry.1.place⟩

def document (root : Table π) : Except (Fault π) BuilderConfig :=
  (inNameOrder root).foldlM topLevel {}

end Shape

end SourceGen
