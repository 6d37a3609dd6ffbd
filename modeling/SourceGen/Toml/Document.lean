import SourceGen.Toml.Statement

/-!
# Documents

The statements of a document build its root table one after the other. A header moves the
place where later keys go.
-/
namespace SourceGen.Toml

/-- The root table so far, and the path of the last header. -/
structure Building (π : Type) where
  root : Table π := []
  current : List (Key π) := []

namespace Building

variable {π : Type}

def changeAt (b : Building π) (path : List (Key π))
    (change : TableForm → Table π → Option (Table π)) : Option (Table π) :=
  b.root.changeAt .parent change path .header

def step (b : Building π) : Statement π → Option (Building π)
  | .blank => some b
  | .openTable path place =>
    (b.changeAt path.parents fun _ => Table.openTable path.key place).map
      (⟨·, path.parents ++ [path.key]⟩)
  | .openElement path place =>
    (b.changeAt path.parents fun _ => Table.openElement path.key place).map
      (⟨·, path.parents ++ [path.key]⟩)
  | .assign a =>
    (b.changeAt b.current (Table.assign a.path.parents a.path.key a.value)).map (⟨·, b.current⟩)

end Building

def build? {π : Type} (statements : List (Statement π)) : Option (Table π) :=
  (statements.foldlM Building.step {}).map (·.root)

/-- The text of a document behind the byte order mark that it may begin with. -/
def skipByteOrderMark : Text → Text
  | '\ufeff' :: rest => rest
  | s => s

def parse? (document : Text) : Option (Table Extent) :=
  (statements? (skipByteOrderMark document)).bind build?

end SourceGen.Toml
