import SourceGen.Text

/-!
# Scanning

Functions that read the front of a text and give what is left. A place in a document is
the text that remains from there on, so no position is counted while reading.
-/
namespace SourceGen.Toml

def isBlank (c : Char) : Bool := c == ' ' || c == '\t'

/-- The characters of comments and of strings on one line: a tab, and all but controls. -/
def isTextChar (c : Char) : Bool := c == '\t' || (' ' ≤ c && c != '\x7f')

def skipBlanks (s : Text) : Text := s.dropWhile isBlank

/-- What follows a line break. A carriage return alone is none. -/
def lineBreak? : Text → Option Text
  | '\n' :: rest => some rest
  | '\r' :: '\n' :: rest => some rest
  | _ => none

def skipComment : Text → Text
  | '#' :: rest => rest.dropWhile isTextChar
  | s => s

/-- What follows a line on which nothing else stands than blanks and a comment. -/
def lineEnd? (s : Text) : Option Text :=
  match skipComment (skipBlanks s) with
  | [] => some []
  | rest => lineBreak? rest

/-- What follows blanks, line breaks and comments; the flag says that a comment has begun. -/
def skipTrivia (inComment : Bool) : Text → Text
  | [] => []
  | '\r' :: '\n' :: rest => skipTrivia false rest
  | c :: rest =>
    if c == '\n' then skipTrivia false rest
    else if inComment then (if isTextChar c then skipTrivia true rest else c :: rest)
    else if c == '#' then skipTrivia true rest
    else if isBlank c then skipTrivia false rest
    else c :: rest

/-- One turn of a repetition: what it read, what is left, and whether another turn follows. -/
structure Turn (α : Type) where
  item : Option α
  rest : Text
  more : Bool

/-- What the turns of a repetition read, within a number of turns. -/
def collectWithin {α : Type} (turn : Text → Option (Turn α)) : Nat → Text → Option (List α × Text)
  | 0, _ => none
  | n + 1, s =>
    match turn s with
    | none => none
    | some t =>
      if t.more then (collectWithin turn n t.rest).map fun (items, rest) =>
        (t.item.toList ++ items, rest)
      else some (t.item.toList, t.rest)

/-- What the turns of a repetition read. A turn that others follow takes a character at
least, so their number is bounded by the length of the text. -/
def collect {α : Type} (turn : Text → Option (Turn α)) (s : Text) : Option (List α × Text) :=
  collectWithin turn (s.length + 1) s

/-- Items up to a closing bracket, separated by commas. A comma may follow the last item. -/
def bracketed {α : Type} (close : Char) (item : Text → Option (α × Text)) :
    Text → Option (List α × Text) :=
  collect fun s =>
    match skipTrivia false s with
    | [] => none
    | c :: rest =>
      if c = close then some ⟨none, rest, false⟩
      else
        match item (c :: rest) with
        | none => none
        | some (a, rest) =>
          match skipTrivia false rest with
          | ',' :: rest => some ⟨some a, rest, true⟩
          | d :: rest => if d = close then some ⟨some a, rest, false⟩ else none
          | [] => none

end SourceGen.Toml
