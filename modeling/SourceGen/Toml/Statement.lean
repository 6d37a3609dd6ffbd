import SourceGen.Toml.DateTime
import SourceGen.Toml.Node
import SourceGen.Toml.Number

/-!
# Statements

A document is a sequence of statements, one to a line except where a value spans several:
blank lines, headers, and keys with their values.
-/
namespace SourceGen.Toml

/-- A stretch of a document: the text from its first character on, and the text behind it. -/
structure Extent where
  start : Text
  stop : Text
  deriving DecidableEq

/-- The offset and the length of a stretch, in bytes of the document. -/
def Extent.span (document : Text) (e : Extent) : Nat × Nat :=
  (document.byteLength - e.start.byteLength, e.start.byteLength - e.stop.byteLength)

structure KeyPath (π : Type) where
  parents : List (Key π)
  key : Key π

structure Assignment (π : Type) where
  path : KeyPath π
  value : Node π

inductive Statement (π : Type) where
  | blank
  | openTable (path : KeyPath π) (place : π)
  | openElement (path : KeyPath π) (place : π)
  | assign (a : Assignment π)

def isBareKeyChar (c : Char) : Bool := c.isAlphanum || c == '-' || c == '_'

def key? (s : Text) : Option (Key Extent × Text) :=
  match s with
  | [] => none
  | c :: _ =>
    if isBareKeyChar c then
      let rest := s.dropWhile isBareKeyChar
      some (⟨s.takeWhile isBareKeyChar, ⟨s, rest⟩⟩, rest)
    else (shortString? s).map fun (name, rest) => (⟨name, ⟨s, rest⟩⟩, rest)

def KeyPath.ofList? {π : Type} (keys : List (Key π)) : Option (KeyPath π) :=
  keys.getLast?.map fun key => ⟨keys.dropLast, key⟩

/-- The number of keys that a path may have, and of brackets and braces that may be open at
a time. -/
def nestingLimit : Nat := 80

/-- Keys with points between them, and what follows the last one and the blanks behind it. -/
def keyPath? (s : Text) : Option (KeyPath Extent × Text) :=
  let turn (s : Text) : Option (Turn (Key Extent)) :=
    match key? (skipBlanks s) with
    | none => none
    | some (key, rest) =>
      match skipBlanks rest with
      | '.' :: rest => some ⟨some key, rest, true⟩
      | rest => some ⟨some key, rest, false⟩
  match collect turn s with
  | none => none
  | some (keys, rest) =>
    if nestingLimit < keys.length then none else (KeyPath.ofList? keys).map (·, rest)

def Scalar.names : List (Text × Scalar) := [
  ("true".toList, .boolean true), ("false".toList, .boolean false),
  ("inf".toList, .float (some (.infinity false))), ("+inf".toList, .float (some (.infinity false))),
  ("-inf".toList, .float (some (.infinity true))), ("nan".toList, .float (some .nan)),
  ("+nan".toList, .float (some .nan)), ("-nan".toList, .float (some .nan))
]

def Scalar.ofWord? (w : Text) : Option Scalar :=
  match names.lookup w with
  | some value => some value
  | none =>
    if isDateTime w then some .dateTime
    else
      match integer? w with
      | some n => some (.integer n)
      | none => (float? w).map .float

def endsWord (c : Char) : Bool :=
  isBlank c || ['\n', '\r', '#', ',', '=', '[', ']', '\x7b', '\x7d'].contains c

/-- A word goes on behind blanks, up to a comment, a quoted string or the end of the value. -/
def continuesWord : Text → Bool
  | [] => false
  | c :: _ => !(endsWord c || c == '"' || c == '\'')

/-- The unquoted word in front of a text, and what follows it. The blanks at its end do not
belong to it. -/
def word : Text → Text × Text
  | [] => ([], [])
  | c :: rest =>
    if (if isBlank c then continuesWord (skipBlanks rest) else !endsWord c) then
      (word rest).map (c :: ·) id
    else ([], c :: rest)

def scalar? (s : Text) : Option (Node Extent × Text) :=
  match string? s with
  | some (t, rest) => some (.scalar ⟨s, rest⟩ (.string t), rest)
  | none => (Scalar.ofWord? (word s).1).map fun value =>
      (.scalar ⟨s, (word s).2⟩ value, (word s).2)

/-- A key path, an equals sign and a value, and what follows them. Around the equals sign
stands what `skip` skips. -/
def assignment? (skip : Text → Text) (value : Text → Option (Node Extent × Text)) (s : Text) :
    Option (Assignment Extent × Text) :=
  match keyPath? s with
  | none => none
  | some (path, rest) =>
    match skip rest with
    | '=' :: rest => (value (skip rest)).map fun (node, rest) => (⟨path, node⟩, rest)
    | _ => none

def inlineTable? {π : Type} (assignments : List (Assignment π)) : Option (Table π) :=
  assignments.foldlM (fun t a => Table.assign a.path.parents a.path.key a.value .inline t) []

/-- The value in front of a text, nested at most so deep, and what follows it. -/
def value? : Nat → Text → Option (Node Extent × Text)
  | 0, s => scalar? s
  | depth + 1, s =>
    match s with
    | '[' :: rest => (bracketed ']' (value? depth) rest).map fun (items, rest) =>
        (.array ⟨s, rest⟩ false items, rest)
    | '\x7b' :: rest =>
      match bracketed '\x7d' (assignment? (skipTrivia false) (value? depth)) rest with
      | none => none
      | some (assignments, rest) => (inlineTable? assignments).map fun entries =>
          (.table ⟨s, rest⟩ .inline entries, rest)
    | _ => scalar? s

/-- The header in front of a text, with the brackets that close it, and what follows it. -/
def header? (close s : Text) : Option (KeyPath Extent × Text) :=
  match keyPath? s with
  | none => none
  | some (path, rest) => if close.isPrefixOf rest then some (path, rest.drop close.length) else none

def statement? (s : Text) : Option (Statement Extent × Text) :=
  match lineEnd? s with
  | some rest => some (.blank, rest)
  | none =>
    let start := skipBlanks s
    let content : Option (Statement Extent × Text) :=
      match start with
      | '[' :: '[' :: rest => (header? [']', ']'] rest).map fun (path, rest) =>
          (.openElement path ⟨start, rest⟩, rest)
      | '[' :: rest => (header? [']'] rest).map fun (path, rest) =>
          (.openTable path ⟨start, rest⟩, rest)
      | _ => (assignment? skipBlanks (value? nestingLimit) start).map fun (a, rest) => (.assign a, rest)
    match content with
    | none => none
    | some (statement, rest) => (lineEnd? rest).map (statement, ·)

def statements? (s : Text) : Option (List (Statement Extent)) :=
  let turn (s : Text) : Option (Turn (Statement Extent)) :=
    match s with
    | [] => some ⟨none, [], false⟩
    | _ => (statement? s).map fun (statement, rest) => ⟨some statement, rest, true⟩
  (collect turn s).map (·.1)

end SourceGen.Toml
