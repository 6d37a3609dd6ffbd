import SourceGen.Builder.Program
import SourceGen.Proofs.Text.Grammar

/-! # Strokes

Every action of a builder is a sequence of a few primitive strokes. What holds for each stroke
holds for each action, so no later argument has to go through the actions one by one. -/
namespace SourceGen

open Text

inductive Stroke where
  /-- Text written as it is, behind a margin where it begins a line. -/
  | raw (t : Text)
  /-- A line at a number of levels below the present depth. -/
  | line (levels : Int) (t : Text)
  | blank
  | deeper
  | shallower
  | ending (e : LineEnding)
  | clear

namespace TextBuilder

def marginAt (b : TextBuilder) (levels : Int) : Text := b.indent.margin (b.depth + levels).toNat

def stroke (b : TextBuilder) : Stroke → TextBuilder
  | .raw t => b.append t
  | .line levels t => b.write (b.marginAt levels ++ t ++ b.lineEnding.terminator)
  | .blank => b.appendBlankLine
  | .deeper => b.deeper
  | .shallower => b.shallower
  | .ending e => b.withLineEnding e
  | .clear => b.clear

end TextBuilder

def bodyStrokes (levels : Int) (t : Text) : List Stroke := (bodyLines t).map (.line levels)

def Action.strokes : Action → List Stroke
  | .append t | .writeText t => [.raw t]
  | .appendChar c | .writeChar c => [.raw [c]]
  | .writePair left right => [.raw left, .raw " = ".toList, .raw right, .raw [';']]
  | .appendBlankLine => [.blank]
  | .appendLine t => [.line 0 t]
  | .appendBody t => bodyStrokes 0 t
  | .appendLineIndented t => [.line 1 t]
  | .appendBodyIndented t => bodyStrokes 1 t
  | .unindentLine t => [.line (-1) t]
  | .appendLines items => items.map (.line 0)
  | .appendLinesIndented items => items.map (.line 1)
  | .appendBodies items => items.flatMap (bodyStrokes 0)
  | .appendLinesBy items format => items.map fun item => .line 0 (format item)
  | .appendLinesIndentedBy items format => items.map fun item => .line 1 (format item)
  | .appendBodiesBy items format => items.flatMap fun item => bodyStrokes 0 (format item)
  | .appendUsing ns => [.line 0 (TextBuilder.usingDirective ns)]
  | .appendUsings namespaces => namespaces.map fun ns => .line 0 (TextBuilder.usingDirective ns)
  | .appendMultipleUsings sources =>
    sources.flatten.eraseDups.map fun ns => .line 0 (TextBuilder.usingDirective ns)
  | .appendComment comment => [.raw (' ' :: TextBuilder.lineComment comment)]
  | .appendLineComment comment => [.line 0 (TextBuilder.lineComment comment)]
  | .appendAutoGenerated => [.line 0 (TextBuilder.lineComment "<auto-generated />".toList)]
  | .appendNamespace name => [.line 0 (TextBuilder.namespaceDirective name)]
  | .appendNullableEnable => [.line 0 "#nullable enable".toList]
  | .indent => [.deeper]
  | .unindent => [.shallower]
  | .setLineEnding e => [.ending e]
  | .clear | .flush => [.clear]
  | .snapshot | .build | .display | .isEmpty | .settings => []

namespace TextBuilder

theorem appendLine_eq_stroke (b : TextBuilder) (t : Text) : b.appendLine t = b.stroke (.line 0 t) := by
  simp [stroke, marginAt, appendLine, margin]

theorem appendBody_eq_foldl (b : TextBuilder) (t : Text) :
    b.appendBody t = (bodyStrokes 0 t).foldl stroke b := by
  rw [bodyStrokes, List.foldl_map]
  rfl

theorem appendLineIndented_eq_stroke (b : TextBuilder) (t : Text) :
    b.appendLineIndented t = b.stroke (.line 1 t) := by
  have hd : ((b.depth : Int) + 1).toNat = b.depth + 1 := by omega
  simp [stroke, marginAt, appendLineIndented, indentWith, appendLine, margin, deeper, atDepth,
    write, hd]

theorem unindentLine_eq_stroke (b : TextBuilder) (t : Text) :
    b.unindentLine t = b.stroke (.line (-1) t) := by
  have hd : ((b.depth : Int) + -1).toNat = b.depth - 1 := by omega
  simp [stroke, marginAt, unindentLine, unindentWith, appendLine, margin, shallower, atDepth,
    write, hd]

/-- One scope around many lines is a scope around each of them. -/
theorem indentWith_foldl_appendLine (lines : List Text) (b : TextBuilder) :
    b.indentWith (lines.foldl appendLine ·) = lines.foldl appendLineIndented b := by
  induction lines generalizing b with
  | nil => rfl
  | cons l lines ih =>
    rw [List.foldl_cons, ← ih]
    rfl

theorem appendBodyIndented_eq_foldl (b : TextBuilder) (t : Text) :
    b.appendBodyIndented t = (bodyStrokes 1 t).foldl stroke b := by
  rw [bodyStrokes, List.foldl_map]
  exact indentWith_foldl_appendLine (bodyLines t) b

theorem forEach_eq_foldl_map {α : Type} {f : TextBuilder → α → TextBuilder} {mark : α → Stroke}
    (h : ∀ b x, f b x = b.stroke (mark x)) (items : List α) (b : TextBuilder) :
    b.forEach items f = (items.map mark).foldl stroke b := by
  rw [List.foldl_map, forEach]
  congr 1
  funext b x
  exact h b x

theorem forEach_eq_foldl_flatMap {α : Type} {f : TextBuilder → α → TextBuilder}
    {marks : α → List Stroke} (h : ∀ b x, f b x = (marks x).foldl stroke b) (items : List α)
    (b : TextBuilder) : b.forEach items f = (items.flatMap marks).foldl stroke b := by
  rw [List.foldl_flatMap, forEach]
  congr 1
  funext b x
  exact h b x

theorem appendUsings_eq_foldl (namespaces : List Text) (b : TextBuilder) :
    b.appendUsings namespaces =
      (namespaces.map fun ns => .line 0 (usingDirective ns)).foldl stroke b :=
  forEach_eq_foldl_map (fun b ns => b.appendLine_eq_stroke (usingDirective ns)) namespaces b

end TextBuilder

open TextBuilder in
theorem Action.apply_eq_foldl (a : Action) (b : TextBuilder) :
    a.apply b = a.strokes.foldl stroke b := by
  cases a with
  | appendBody t => exact b.appendBody_eq_foldl t
  | appendLineIndented t => exact b.appendLineIndented_eq_stroke t
  | appendBodyIndented t => exact b.appendBodyIndented_eq_foldl t
  | unindentLine t => exact b.unindentLine_eq_stroke t
  | appendLines items => exact forEach_eq_foldl_map appendLine_eq_stroke items b
  | appendLinesIndented items => exact forEach_eq_foldl_map appendLineIndented_eq_stroke items b
  | appendBodies items => exact forEach_eq_foldl_flatMap appendBody_eq_foldl items b
  | appendLinesBy items format =>
    exact forEach_eq_foldl_map (fun b x => b.appendLine_eq_stroke (format x)) items b
  | appendLinesIndentedBy items format =>
    exact forEach_eq_foldl_map (fun b x => b.appendLineIndented_eq_stroke (format x)) items b
  | appendBodiesBy items format =>
    exact forEach_eq_foldl_flatMap (fun b x => b.appendBody_eq_foldl (format x)) items b
  | appendUsings namespaces => exact appendUsings_eq_foldl namespaces b
  | appendMultipleUsings sources => exact appendUsings_eq_foldl sources.flatten.eraseDups b
  -- The other actions are their strokes by definition.
  | _ => rfl

def Stroke.body : Stroke → Text
  | .raw t | .line _ t => t
  | _ => []

/-- The texts that an action writes as they are, within a line. Bodies are split, so theirs are
not among them. -/
def Action.verbatim : Action → List Text
  | .append t | .writeText t | .appendLine t | .appendLineIndented t | .unindentLine t => [t]
  | .appendUsing t | .appendComment t | .appendLineComment t | .appendNamespace t => [t]
  | .appendChar c | .writeChar c => [[c]]
  | .writePair left right => [left, right]
  | .appendLines items | .appendLinesIndented items | .appendUsings items => items
  | .appendLinesBy items format | .appendLinesIndentedBy items format => items.map format
  | .appendMultipleUsings sources => sources.flatten
  | _ => []

section Bodies

-- A condition on characters that all but breaks satisfy.
variable {ok : Char → Prop} (hok : ∀ c, isBreak c = false → ok c)
include hok

theorem forall_mem_of_breakFree {t : Text} (h : BreakFree t) : ∀ c ∈ t, ok c :=
  fun c hc => hok c (h c hc)

theorem forall_body_bodyStrokes (levels : Int) (t : Text) :
    ∀ s ∈ bodyStrokes levels t, ∀ c ∈ s.body, ok c := by
  intro s hs
  obtain ⟨l, hl, rfl⟩ := List.mem_map.mp hs
  exact forall_mem_of_breakFree hok (breakFree_of_mem_bodyLines hl)

theorem forall_mem_framed {l t r : Text} (hl : BreakFree l) (hr : BreakFree r)
    (h : ∀ c ∈ t, ok c) : ∀ c ∈ l ++ t ++ r, ok c := by
  have ht := List.forall_mem_append.mpr ⟨forall_mem_of_breakFree hok hl, h⟩
  exact List.forall_mem_append.mpr ⟨ht, forall_mem_of_breakFree hok hr⟩

theorem forall_mem_usingDirective {ns : Text} (h : ∀ c ∈ ns, ok c) :
    ∀ c ∈ TextBuilder.usingDirective ns, ok c :=
  forall_mem_framed hok (by decide) (by decide) h

theorem forall_mem_lineComment {comment : Text} (h : ∀ c ∈ comment, ok c) :
    ∀ c ∈ TextBuilder.lineComment comment, ok c :=
  List.forall_mem_append.mpr ⟨forall_mem_of_breakFree hok (by decide), h⟩

/-- If the texts of an action meet the condition, so does everything its strokes write between
margins and terminators. -/
theorem Action.forall_body {a : Action} (h : ∀ t ∈ a.verbatim, ∀ c ∈ t, ok c) :
    ∀ s ∈ a.strokes, ∀ c ∈ s.body, ok c := by
  cases a with
  | append t | writeText t | appendLine t | appendLineIndented t | unindentLine t =>
    simpa [strokes, verbatim, Stroke.body] using h
  | appendChar c | writeChar c => simpa [strokes, verbatim, Stroke.body] using h
  | writePair left right => simpa [strokes, verbatim, Stroke.body, hok, isBreak] using h
  | appendLines items | appendLinesIndented items =>
    simpa [strokes, verbatim, Stroke.body] using h
  | appendLinesBy items format | appendLinesIndentedBy items format =>
    simpa [strokes, verbatim, Stroke.body] using h
  | appendBody t => exact forall_body_bodyStrokes hok 0 t
  | appendBodyIndented t => exact forall_body_bodyStrokes hok 1 t
  | appendBodies items | appendBodiesBy items format =>
    intro s hs
    obtain ⟨item, -, hs⟩ := List.mem_flatMap.mp hs
    exact forall_body_bodyStrokes hok 0 _ s hs
  | appendUsing ns =>
    have hn : ∀ c ∈ ns, ok c := h ns List.mem_cons_self
    simpa [strokes, Stroke.body] using forall_mem_usingDirective hok hn
  | appendUsings namespaces =>
    intro s hs
    obtain ⟨ns, hn, rfl⟩ := List.mem_map.mp hs
    exact forall_mem_usingDirective hok (h ns hn)
  | appendMultipleUsings sources =>
    intro s hs
    obtain ⟨ns, hn, rfl⟩ := List.mem_map.mp hs
    exact forall_mem_usingDirective hok (h ns (List.mem_eraseDups.mp hn))
  | appendComment comment =>
    have hc := forall_mem_lineComment hok (h comment List.mem_cons_self)
    have hb : ok ' ' := hok ' ' (by decide)
    simpa [strokes, Stroke.body, hb] using hc
  | appendLineComment comment =>
    have hc := forall_mem_lineComment hok (h comment List.mem_cons_self)
    simpa [strokes, Stroke.body] using hc
  | appendNamespace name =>
    have hn : ∀ c ∈ TextBuilder.namespaceDirective name, ok c :=
      forall_mem_framed hok (by decide) (by decide) (h name List.mem_cons_self)
    simpa [strokes, Stroke.body] using hn
  | appendAutoGenerated | appendNullableEnable =>
    intro s hs
    rw [List.mem_singleton.mp hs]
    exact forall_mem_of_breakFree hok (by decide)
  | _ => simp [strokes, Stroke.body]

end Bodies

end SourceGen
