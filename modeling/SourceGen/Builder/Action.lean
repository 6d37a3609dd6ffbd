import SourceGen.Builder.CSharp

/-!
# Single calls on a builder

An action is one call. It says what the builder becomes and what the caller is told,
which depends on the builder before the call only.
-/
namespace SourceGen

inductive Action where
  | append (t : Text)
  | appendChar (c : Char)
  | writeText (t : Text)
  | writeChar (c : Char)
  | writePair (left right : Text)
  | appendBlankLine
  | appendLine (t : Text)
  | appendBody (t : Text)
  | appendLineIndented (t : Text)
  | appendBodyIndented (t : Text)
  | unindentLine (t : Text)
  | appendLines (items : List Text)
  | appendLinesIndented (items : List Text)
  | appendBodies (items : List Text)
  | appendLinesBy (items : List Text) (format : Text → Text)
  | appendLinesIndentedBy (items : List Text) (format : Text → Text)
  | appendBodiesBy (items : List Text) (format : Text → Text)
  | appendUsing (ns : Text)
  | appendUsings (namespaces : List Text)
  | appendMultipleUsings (sources : List (List Text))
  | appendComment (comment : Text)
  | appendLineComment (comment : Text)
  | appendAutoGenerated
  | appendNamespace (name : Text)
  | appendNullableEnable
  | indent
  | unindent
  | setLineEnding (e : LineEnding)
  | clear
  | flush
  | snapshot
  | build
  | display
  | isEmpty
  | settings

inductive Report where
  | flag (b : Bool)
  | text (t : Text)
  | settings (width : Nat) (e : LineEnding)
  | depth (n : Nat)
  | handled (message : Text)
  | caught (message : Option Text)
  deriving DecidableEq

namespace Action

def apply (b : TextBuilder) : Action → TextBuilder
  | append t | writeText t => b.append t
  | appendChar c | writeChar c => b.appendChar c
  | writePair left right => b.appendPieces [left, " = ".toList, right, [';']]
  | appendBlankLine => b.appendBlankLine
  | appendLine t => b.appendLine t
  | appendBody t => b.appendBody t
  | appendLineIndented t => b.appendLineIndented t
  | appendBodyIndented t => b.appendBodyIndented t
  | unindentLine t => b.unindentLine t
  | appendLines items => b.appendLines items
  | appendLinesIndented items => b.appendLinesIndented items
  | appendBodies items => b.appendBodies items
  | appendLinesBy items format => b.appendLinesBy items format
  | appendLinesIndentedBy items format => b.appendLinesIndentedBy items format
  | appendBodiesBy items format => b.appendBodiesBy items format
  | appendUsing ns => b.appendUsing ns
  | appendUsings namespaces => b.appendUsings namespaces
  | appendMultipleUsings sources => b.appendMultipleUsings sources
  | appendComment comment => b.appendComment comment
  | appendLineComment comment => b.appendLineComment comment
  | appendAutoGenerated => b.appendAutoGenerated
  | appendNamespace name => b.appendNamespace name
  | appendNullableEnable => b.appendNullableEnable
  | indent => b.deeper
  | unindent => b.shallower
  | setLineEnding e => b.withLineEnding e
  | clear => b.clear
  | flush => b.flush.2
  | snapshot | build | display | isEmpty | settings => b

def report? (b : TextBuilder) : Action → Option Report
  | writeText _ | writeChar _ | writePair _ _ => some (.flag true)
  | flush => some (.text b.flush.1)
  | snapshot | build | display => some (.text b.text)
  | isEmpty => some (.flag b.isEmpty)
  | settings => some (.settings b.indent.width b.lineEnding)
  | _ => none

end Action

end SourceGen
