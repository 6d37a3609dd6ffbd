import SourceGen.Builder
import SourceGen.Log

/-!
# Builder settings

A configuration holds what a user wrote. Builders use a width between 1 and 64: one that
is not positive gives way to the default, and a wider one is clamped.
-/
namespace SourceGen

def maxIndentWidth : Nat := 64

structure BuilderConfig where
  indentWidth : Int := defaultIndentWidth
  lineEnding : LineEnding := LineEnding.lf
  deriving DecidableEq

namespace BuilderConfig

def withLineEnding (c : BuilderConfig) (e : LineEnding) : BuilderConfig :=
  { c with lineEnding := e }

/-- The configured width cannot be used and gives way to the default. -/
def usesFallback (c : BuilderConfig) : Bool := c.indentWidth ≤ 0

def isClamped (c : BuilderConfig) : Bool := maxIndentWidth < c.indentWidth

def effectiveWidth (c : BuilderConfig) : Nat :=
  if c.usesFallback then defaultIndentWidth else min c.indentWidth.toNat maxIndentWidth

def widthWarning (c : BuilderConfig) (complaint : Text) : LogRecord :=
  ⟨.warn, "indent width ".toList ++ Text.ofInt c.indentWidth ++ " is ".toList ++ complaint ++
    ", using ".toList ++ Text.ofNat c.effectiveWidth ++ " spaces".toList⟩

def warnings (c : BuilderConfig) : List LogRecord :=
  if c.usesFallback then [c.widthWarning "not positive".toList]
  else if c.isClamped then [c.widthWarning "too large".toList]
  else []

def toBuilder (c : BuilderConfig) : TextBuilder :=
  (TextBuilder.withWidth c.effectiveWidth).withLineEnding c.lineEnding

theorem effectiveWidth_pos (c : BuilderConfig) : 0 < c.effectiveWidth := by
  unfold effectiveWidth
  split
  · decide
  · rename_i h
    have h : 0 < c.indentWidth := by simpa [usesFallback] using h
    exact Nat.lt_min.mpr ⟨by omega, by decide⟩

theorem effectiveWidth_le (c : BuilderConfig) : c.effectiveWidth ≤ maxIndentWidth := by
  unfold effectiveWidth
  split
  · decide
  · exact Nat.min_le_right _ _

end BuilderConfig

end SourceGen
