/-!
# Answers with the questions behind them

A host answers questions while the library works. What the library asks, and in which
order, is part of its result.
-/
namespace SourceGen

/-- An answer, and the questions put to the host on the way to it. -/
structure Asked (κ β : Type) where
  answer : β
  questions : List κ := []
  deriving DecidableEq

namespace Asked

variable {κ β γ : Type}

def map (f : β → γ) (a : Asked κ β) : Asked κ γ := ⟨f a.answer, a.questions⟩

def andThen (a : Asked κ β) (next : β → Asked κ γ) : Asked κ γ :=
  ⟨(next a.answer).answer, a.questions ++ (next a.answer).questions⟩

/-- Puts questions that came before. -/
def after (before : List κ) (a : Asked κ β) : Asked κ β := ⟨a.answer, before ++ a.questions⟩

end Asked

end SourceGen
