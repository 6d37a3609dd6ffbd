import SourceGen.Builder

/-!
# Lines of C# source

Directives and comments that generated C# files begin with.
-/
namespace SourceGen.TextBuilder

def usingDirective (ns : Text) : Text := "using ".toList ++ ns ++ [';']

def namespaceDirective (name : Text) : Text := "namespace ".toList ++ name ++ [';']

def lineComment (comment : Text) : Text := "// ".toList ++ comment

def appendUsing (b : TextBuilder) (ns : Text) : TextBuilder := b.appendLine (usingDirective ns)

def appendUsings (b : TextBuilder) (namespaces : List Text) : TextBuilder :=
  b.forEach namespaces appendUsing

/-- One directive per distinct namespace, at the place where it first occurs. -/
def appendMultipleUsings (b : TextBuilder) (sources : List (List Text)) : TextBuilder :=
  b.appendUsings sources.flatten.eraseDups

/-- A comment at the end of the line in progress. -/
def appendComment (b : TextBuilder) (comment : Text) : TextBuilder :=
  b.append (' ' :: lineComment comment)

def appendLineComment (b : TextBuilder) (comment : Text) : TextBuilder :=
  b.appendLine (lineComment comment)

/-- The marker by which tools know generated files. -/
def appendAutoGenerated (b : TextBuilder) : TextBuilder :=
  b.appendLineComment "<auto-generated />".toList

def appendNamespace (b : TextBuilder) (name : Text) : TextBuilder :=
  b.appendLine (namespaceDirective name)

def appendNullableEnable (b : TextBuilder) : TextBuilder := b.appendLine "#nullable enable".toList

end SourceGen.TextBuilder
