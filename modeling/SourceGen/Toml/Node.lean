import SourceGen.Number.Binary64
import SourceGen.Text

/-!
# Document trees

Every key and value of a document carries a place. What a place is stays open: reading
puts extents of the document there, and nothing that a tree says depends on them.
-/
namespace SourceGen.Toml

/-- A value without parts. The number is absent where an integer has no value, or where a
float is beyond the range of the format. -/
inductive Scalar where
  | string (t : Text)
  | integer (n : Option Int)
  | float (x : Option Binary64)
  | boolean (b : Bool)
  | dateTime
  deriving DecidableEq

/-- How a table came about: by a header or as the root, as the parent in a longer header, as
the parent in a dotted key, or in braces. -/
inductive TableForm where
  | header
  | parent
  | dotted
  | inline
  deriving DecidableEq

structure Key (π : Type) where
  name : Text
  place : π
  deriving DecidableEq

/-- A value with its place. Arrays of tables are those made by headers. -/
inductive Node (π : Type) where
  | scalar (place : π) (value : Scalar)
  | array (place : π) (ofTables : Bool) (items : List (Node π))
  | table (place : π) (form : TableForm) (entries : List (Key π × Node π))

abbrev Table (π : Type) := List (Key π × Node π)

variable {π : Type}

def Node.place : Node π → π
  | .scalar place _ | .array place _ _ | .table place _ _ => place

namespace Table

def find? (t : Table π) (name : Text) : Option (Node π) :=
  match t with
  | [] => none
  | (key, node) :: t => if key.name = name then some node else find? t name

def insert (t : Table π) (key : Key π) (node : Node π) : Table π := t ++ [(key, node)]

def replace (t : Table π) (name : Text) (node : Node π) : Table π :=
  t.map fun (key, old) => if key.name = name then (key, node) else (key, old)

def erase (t : Table π) (name : Text) : Table π := t.filter fun (key, _) => key.name ≠ name

end Table

def modifyLast? {α : Type} (f : α → Option α) : List α → Option (List α)
  | [] => none
  | [a] => (f a).map ([·])
  | a :: b :: rest => (modifyLast? f (b :: rest)).map (a :: ·)

namespace Node

def inTable (change : TableForm → Table π → Option (Table π)) : Node π → Option (Node π)
  | .table place form entries => (change form entries).map (.table place form)
  | _ => none

/-- Changes the table that a parent key of the given form leads to: the value itself, or the
last table of an array of tables. Tables in braces are closed, and a dotted key does not
extend a table that has a header. -/
def inParent (form : TableForm) (change : TableForm → Table π → Option (Table π)) :
    Node π → Option (Node π)
  | .array place true items => (modifyLast? (inTable change) items).map (.array place true)
  | .table place made entries =>
    if made = .inline ∨ (form = .dotted ∧ made = .header) then none
    else inTable change (.table place made entries)
  | _ => none

end Node

namespace Table

/-- Changes the table at the end of a path. Tables missing on the way are made in the given
form, each at the place of its key. -/
def changeAt (form : TableForm) (change : TableForm → Table π → Option (Table π)) :
    List (Key π) → TableForm → Table π → Option (Table π)
  | [], here, t => change here t
  | key :: path, _, t =>
    match t.find? key.name with
    | none => (changeAt form change path form []).map fun inner =>
        t.insert key (.table key.place form inner)
    | some node => (node.inParent form (changeAt form change path)).map (t.replace key.name)

/-- Enters a value under a new key. Behind a path the table must come from a dotted key. -/
def enter (dotted : Bool) (key : Key π) (node : Node π) (here : TableForm) (t : Table π) :
    Option (Table π) :=
  if (dotted ∧ here ≠ .dotted) ∨ (t.find? key.name).isSome then none
  else some (t.insert key node)

def assign (path : List (Key π)) (key : Key π) (node : Node π) :
    TableForm → Table π → Option (Table π) :=
  changeAt .dotted (enter (!path.isEmpty) key node) path

/-- Gives a table a header. It may be there already as a parent, and then moves to the
header with the header's key. -/
def openTable (key : Key π) (place : π) (t : Table π) : Option (Table π) :=
  match t.find? key.name with
  | none => some (t.insert key (.table place .header []))
  | some (.table _ .parent entries) =>
    some ((t.erase key.name).insert key (.table place .header entries))
  | some _ => none

/-- Adds a table to an array of tables, which the first header makes. -/
def openElement (key : Key π) (place : π) (t : Table π) : Option (Table π) :=
  match t.find? key.name with
  | none => some (t.insert key (.array place true [.table place .header []]))
  | some (.array first true items) =>
    some (t.replace key.name (.array first true (items ++ [.table place .header []])))
  | some _ => none

end Table

end SourceGen.Toml
