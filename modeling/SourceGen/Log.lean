import SourceGen.Text

/-!
# Log records
-/
namespace SourceGen

inductive LogLevel where
  | debug
  | warn
  deriving DecidableEq

def LogLevel.name : LogLevel → Text
  | debug => "DEBUG".toList
  | warn => "WARN".toList

structure LogRecord where
  level : LogLevel
  text : Text
  deriving DecidableEq

def LogRecord.line (r : LogRecord) : Text := r.level.name ++ ": ".toList ++ r.text

end SourceGen
