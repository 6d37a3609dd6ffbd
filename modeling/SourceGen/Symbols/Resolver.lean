import SourceGen.Symbols.Asked
import SourceGen.Text

/-!
# Symbol resolution

A host's model binds symbols to nodes. A resolver looks a node up and narrows what it
finds to one kind of symbol.
-/
namespace SourceGen

structure Resolver (ν σ : Type) where
  symbolInfo : ν → Option σ

namespace Resolver

variable {ν σ τ : Type}

/-- The symbol bound to a node. The model is asked once. -/
def resolve (r : Resolver ν σ) (node : ν) : Asked ν (Option σ) := ⟨r.symbolInfo node, [node]⟩

def resolveAs (r : Resolver ν σ) (narrow : σ → Option τ) (node : ν) : Asked ν (Option τ) :=
  (r.resolve node).map (·.bind narrow)

end Resolver

/-- The kinds that resolution can narrow to, and any other kind a host has. -/
inductive SymbolKind where
  | type
  | method
  | other (name : Text)
  deriving DecidableEq

def SymbolKind.name : SymbolKind → Text
  | type => "type".toList
  | method => "method".toList
  | other name => name

def SymbolKind.ofName (t : Text) : SymbolKind :=
  if t = type.name then type else if t = method.name then method else other t

structure Symbol where
  kind : SymbolKind
  name : Text
  deriving DecidableEq

def Symbol.ofKind? (kind : SymbolKind) (s : Symbol) : Option Symbol :=
  if s.kind = kind then some s else none

end SourceGen
