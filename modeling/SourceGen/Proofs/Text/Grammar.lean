import Mathlib.Data.List.Chain
import SourceGen.Proofs.Text.Lines

/-! # The grammar of lines

A text is a sequence of break-free lines with a break between every two of them. There are
three breaks, and one is the other two in a row, so a carriage return and a line feed with
nothing between them are always read as one. -/
namespace SourceGen

open Text

inductive Break where
  | lf
  | cr
  | crlf
  deriving DecidableEq

def Break.text : Break → Text
  | lf => ['\n']
  | cr => ['\r']
  | crlf => ['\r', '\n']

theorem Break.bodyLines_append (b : Break) {t : Text} (h : b = .cr → t.head? ≠ some '\n') :
    bodyLines (b.text ++ t) = [] :: bodyLines t := by
  cases b with
  | lf => exact bodyLines_lf t
  | cr => exact bodyLines_cr (h rfl)
  | crlf => exact bodyLines_crlf t

/-- Lines with the breaks between them: the first line, and each further line behind its break. -/
structure Layout where
  first : Text
  rest : List (Break × Text) := []

namespace Layout

def lines (y : Layout) : List Text := y.first :: y.rest.map Prod.snd

def text (y : Layout) : Text := y.first ++ y.rest.flatMap fun p => p.1.text ++ p.2

/-- The second break does not follow the first so closely that both are read as one. -/
def Apart (p q : Break × Text) : Prop := ¬(p.1 = .cr ∧ p.2 = [] ∧ q.1 = .lf)

instance (p q : Break × Text) : Decidable (Apart p q) :=
  inferInstanceAs (Decidable (¬(_ ∧ _ ∧ _)))

structure Valid (y : Layout) : Prop where
  breakFree : ∀ l ∈ y.lines, BreakFree l
  apart : y.rest.IsChain Apart

instance (y : Layout) : Decidable y.Valid :=
  decidable_of_iff ((∀ l ∈ y.lines, BreakFree l) ∧ y.rest.IsChain Apart)
    ⟨fun h => ⟨h.1, h.2⟩, fun h => ⟨h.1, h.2⟩⟩

def behind (b : Break) (y : Layout) : Layout := ⟨[], (b, y.first) :: y.rest⟩

@[simp] theorem text_behind (b : Break) (y : Layout) : (y.behind b).text = b.text ++ y.text := by
  simp [behind, text]

@[simp] theorem lines_behind (b : Break) (y : Layout) : (y.behind b).lines = [] :: y.lines := by
  simp [behind, lines]

theorem Valid.behind {b : Break} {y : Layout} (h : y.Valid)
    (hb : b = .cr → y.text.head? ≠ some '\n') : (y.behind b).Valid := by
  constructor
  · rw [lines_behind]
    exact List.forall_mem_cons.mpr ⟨by simp [BreakFree], h.breakFree⟩
  · refine List.isChain_cons.mpr ⟨?_, h.apart⟩
    rintro ⟨c, l⟩ hq ⟨rfl, hf, rfl⟩
    obtain ⟨rest, hr⟩ := List.head?_eq_some_iff.mp hq
    have hf : y.first = [] := hf
    exact hb rfl (by simp [text, hf, hr, Break.text])

def push (c : Char) (y : Layout) : Layout := { y with first := c :: y.first }

theorem Valid.push {c : Char} {y : Layout} (h : y.Valid) (hc : isBreak c = false) :
    (y.push c).Valid := by
  refine ⟨?_, h.apart⟩
  obtain ⟨hf, hr⟩ := List.forall_mem_cons.mp h.breakFree
  exact List.forall_mem_cons.mpr ⟨List.forall_mem_cons.mpr ⟨hc, hf⟩, hr⟩

theorem exists_valid (t : Text) :
    ∃ y : Layout, y.Valid ∧ y.text = t ∧ y.lines = bodyLines t := by
  induction t using break_induction with
  | nil => exact ⟨⟨[], []⟩, by decide, rfl, by simp [lines, bodyLines]⟩
  | lf t ih =>
    obtain ⟨y, hv, ht, hl⟩ := ih
    exact ⟨y.behind .lf, hv.behind (by simp), by simp [ht, Break.text], by simp [hl]⟩
  | crlf t ih =>
    obtain ⟨y, hv, ht, hl⟩ := ih
    exact ⟨y.behind .crlf, hv.behind (by simp), by simp [ht, Break.text], by simp [hl]⟩
  | cr t hlf ih =>
    obtain ⟨y, hv, ht, hl⟩ := ih
    exact ⟨y.behind .cr, hv.behind fun _ => ht ▸ hlf, by simp [ht, Break.text],
      by simp [hl, bodyLines_cr hlf]⟩
  | char c t hc ih =>
    obtain ⟨y, hv, ht, hl⟩ := ih
    refine ⟨y.push c, hv.push hc, by simp [← ht, push, text], ?_⟩
    rw [bodyLines_cons hc, ← hl]
    simp [seam, push, lines]

theorem text_cons (f l : Text) (b : Break) (rest : List (Break × Text)) :
    text ⟨f, (b, l) :: rest⟩ = f ++ (b.text ++ text ⟨l, rest⟩) := by
  simp [text]

theorem Valid.tail {f l : Text} {b : Break} {rest : List (Break × Text)}
    (h : Valid ⟨f, (b, l) :: rest⟩) : Valid ⟨l, rest⟩ :=
  ⟨(List.forall_mem_cons.mp h.breakFree).2, h.apart.tail⟩

/-- What stands behind a carriage return alone does not begin with a line feed. -/
theorem Valid.head?_ne_lf {f l : Text} {rest : List (Break × Text)}
    (h : Valid ⟨f, (.cr, l) :: rest⟩) : (text ⟨l, rest⟩).head? ≠ some '\n' := by
  have hl : BreakFree l := h.tail.breakFree l List.mem_cons_self
  cases l with
  | cons c l =>
    have hc := hl c List.mem_cons_self
    rintro hn
    have hn : c = '\n' := by simpa [text] using hn
    simp [hn, isBreak] at hc
  | nil =>
    cases rest with
    | nil => simp [text]
    | cons q rest =>
      obtain ⟨c, k⟩ := q
      have ha : Apart (.cr, []) (c, k) := h.apart.rel
      cases c with
      | lf => exact absurd ⟨rfl, rfl, rfl⟩ ha
      | cr | crlf => simp [text, Break.text]

theorem Valid.bodyLines_text {y : Layout} (h : y.Valid) : bodyLines y.text = y.lines := by
  obtain ⟨f, rest⟩ := y
  have hf : BreakFree f := h.breakFree f List.mem_cons_self
  induction rest generalizing f with
  | nil => simpa [text, lines] using bodyLines_breakFree hf
  | cons p rest ih =>
    obtain ⟨b, l⟩ := p
    have hl : BreakFree l := h.tail.breakFree l List.mem_cons_self
    have hb : b = .cr → (text ⟨l, rest⟩).head? ≠ some '\n' := by
      rintro rfl
      exact h.head?_ne_lf
    rw [text_cons, bodyLines_breakFree_append hf, b.bodyLines_append hb, ih l h.tail hl]
    simp [seam, lines]

end Layout

theorem breakFree_of_mem_bodyLines {t l : Text} (h : l ∈ bodyLines t) : BreakFree l := by
  obtain ⟨y, hv, -, hl⟩ := Layout.exists_valid t
  exact hv.breakFree l (hl ▸ h)

namespace LineCursor

theorem advance_of_none (n : Nat) :
    advance n ⟨none⟩ = (List.replicate n none, ⟨none⟩) := by
  induction n with
  | zero => rfl
  | succ n ih => simp [advance, next, ih, List.replicate_succ]

theorem advance_remaining (k : Nat) (cursor : LineCursor) :
    advance (cursor.remaining.length + k) cursor =
      (cursor.remaining.map some ++ List.replicate k none, ⟨none⟩) := by
  generalize hr : cursor.remaining = lines
  induction lines generalizing cursor with
  | nil =>
    rcases cursor with ⟨_ | t⟩
    · simpa using advance_of_none k
    · exact absurd hr (bodyLines_ne_nil t)
  | cons l lines ih =>
    rcases cursor with ⟨_ | t⟩
    · simp [remaining] at hr
    · have ht := bodyLines_eq_splitLine t
      obtain ⟨hl, hm⟩ := List.cons_eq_cons.mp (ht.symm.trans hr)
      rw [List.length_cons, Nat.add_right_comm, advance]
      simp [next, hl, ih _ hm]

end LineCursor

/-- Reading lines and writing them with breaks between them are inverse to each other, on all
texts and on all layouts in which no two breaks merge. The walk gives out exactly these lines. -/
theorem bodyLines_grammar :
    (∀ t, ∃ y : Layout, y.Valid ∧ y.text = t ∧ y.lines = bodyLines t) ∧
    (∀ y : Layout, y.Valid → bodyLines y.text = y.lines) ∧
    (∀ t k, (LineCursor.start t).advance ((bodyLines t).length + k) =
      ((bodyLines t).map some ++ List.replicate k none, ⟨none⟩)) :=
  ⟨Layout.exists_valid, fun _ h => h.bodyLines_text,
    fun t k => LineCursor.advance_remaining k (.start t)⟩

theorem bodyLines_grammar_mixed :
    let y : Layout := ⟨['a'], [(.cr, []), (.crlf, []), (.lf, ['b']), (.lf, []), (.cr, [])]⟩
    y.Valid ∧ y.text = "a\r\r\n\nb\n\r".toList ∧ bodyLines y.text = [['a'], [], [], ['b'], [], []] :=
  ⟨by decide, by decide, bodyLines_grammar.2.1 _ (by decide)⟩

end SourceGen
