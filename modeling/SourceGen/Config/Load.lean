import SourceGen.Config.Shape
import SourceGen.Files
import SourceGen.Toml.Document

/-!
# Loading settings

Settings come from a document or from a file that holds one. A successful load is logged
with the name of the source; a failed one is not. The name has no other effect than to
stand in the log record or in the error.
-/
namespace SourceGen

/-- Why settings could not be loaded. A problem with a document stands with the offset and
the length of the stretch it is about. It is absent where the document is not well formed,
and only there. -/
inductive LoadError where
  | io (path : Text) (error : FileError)
  | document (source : Text) (problem : Option (Problem × Nat × Nat))
  deriving DecidableEq

namespace LoadError

def message : LoadError → Text
  | io path _ => "failed to read '".toList ++ path ++ ['\x27']
  | document source _ => "failed to parse ".toList ++ source

def code : LoadError → Text
  | io _ _ => "gentools::io_error".toList
  | document _ _ => "gentools::parse_error".toList

def help : LoadError → Text
  | io _ _ => "check that the configuration file exists and is readable".toList
  | document _ _ =>
    "the [builder] table accepts `indent_width` (integer) and `line_ending` (\"lf\" or \"crlf\")".toList

end LoadError

structure Load where
  result : Except LoadError BuilderConfig
  logs : List LogRecord := []

/-- The source of settings that do not come from a file. -/
def defaultSource : Text := "gentools.toml".toList

namespace BuilderConfig

/-- The settings of a document, or the first problem and where it is. A document that is not
well formed gives neither. -/
def ofDocument (document : Text) : Except (Option (Problem × Nat × Nat)) BuilderConfig :=
  match Toml.parse? document with
  | none => .error none
  | some root =>
    match Shape.document root with
    | .ok c => .ok c
    | .error fault => .error (some (fault.problem, fault.place.span document))

def loadRecord (c : BuilderConfig) (source : Text) : LogRecord :=
  ⟨.debug, "loaded builder config from ".toList ++ source ++ ": indent_width=".toList ++
    Text.ofInt c.indentWidth ++ ", line_ending=".toList ++ c.lineEnding.name⟩

def load (document source : Text) : Load :=
  match ofDocument document with
  | .ok c => { result := .ok c, logs := [c.loadRecord source] }
  | .error problem => { result := .error (.document source problem) }

def loadFile (fs : FileSystem) (path : Text) : Load :=
  match fs.read path with
  | .ok document => load document path
  | .error e => { result := .error (.io path e) }

end BuilderConfig

end SourceGen
