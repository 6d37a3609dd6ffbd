import SourceGen.Proofs.Builder.LineDocument

/-! # Where a line starts

A builder decides from its last character and the next one whether to write a margin. Reading the
whole text into lines comes to the same decision. -/
namespace SourceGen

/-- With the character a new physical line of the text begins: the last line is still empty, and the
character has a part in the lines. -/
def BeginsLine (before : Text) (next : Char) : Prop :=
  (bodyLines before).getLast? = some [] ∧ bodyLines (before ++ [next]) ≠ bodyLines before

instance (before : Text) (next : Char) : Decidable (BeginsLine before next) :=
  inferInstanceAs (Decidable (_ ∧ _ ≠ _))

theorem opensLine_lf_iff (before : Text) :
    opensLine before '\n' = true ↔
      (bodyLines before).getLast? = some [] ∧ before.getLast? ≠ some '\r' := by
  rw [getLast?_bodyLines_eq_nil_iff]
  unfold opensLine
  split <;> simp_all [Text.isBreak]

/-- The two recognisers of line starts agree. -/
theorem opensLine_iff_beginsLine (before : Text) (next : Char) :
    opensLine before next = true ↔ BeginsLine before next := by
  have hs := bodyLines_snoc_eq_iff before next
  by_cases hn : next = '\n'
  · subst hn
    rw [opensLine_lf_iff, BeginsLine, Ne, Ne, hs]
    simp
  · rw [opensLine_iff_last_line before hn, BeginsLine, Ne, hs]
    simp [hn]

/-- At an empty last line every character begins a line, except the line feed that completes a
carriage return. -/
theorem not_beginsLine_iff {before : Text} (h : (bodyLines before).getLast? = some [])
    (next : Char) : ¬BeginsLine before next ↔ before.getLast? = some '\r' ∧ next = '\n' := by
  rw [← bodyLines_snoc_eq_iff, BeginsLine]
  simp [h]

namespace TextBuilder

theorem margin_ne_nil {b : TextBuilder} (h : 0 < b.depth) : b.margin ≠ [] := by
  have hw := b.indent.width_pos
  have hc : 0 < b.indent.columns b.depth := by
    have hm := Nat.mul_pos hw h
    have hl : 0 < columnLimit := by decide
    exact Nat.lt_min.mpr ⟨hm, hl⟩
  intro hn
  have hl := b.indent.length_margin b.depth
  rw [← margin, hn] at hl
  simp at hl
  omega

theorem marginBefore_of_beginsLine {b : TextBuilder} {c : Char} (h : BeginsLine b.text c) :
    b.marginBefore c = b.margin :=
  if_pos ((opensLine_iff_beginsLine b.text c).mpr h)

theorem marginBefore_of_not_beginsLine {b : TextBuilder} {c : Char} (h : ¬BeginsLine b.text c) :
    b.marginBefore c = [] :=
  if_neg fun ho => h ((opensLine_iff_beginsLine b.text c).mp ho)

/-- What is written before a text tells whether a line begins, as the margin is not empty. -/
theorem write_marginBefore_iff {b : TextBuilder} (hd : 0 < b.depth) (c : Char) (t : Text) :
    (b.write (b.marginBefore c ++ t) = b.write (b.margin ++ t) ↔ BeginsLine b.text c) ∧
    (b.write (b.marginBefore c ++ t) = b.write t ↔ ¬BeginsLine b.text c) := by
  have hm := margin_ne_nil hd
  by_cases h : BeginsLine b.text c
  · simp [marginBefore_of_beginsLine h, write, h, hm]
  · simp [marginBefore_of_not_beginsLine h, write, h, hm]

end TextBuilder

/-- At a depth above zero, a builder writes its margin before the first character of what it appends
if and only if that character begins a line of the whole text. At an empty last line this fails for a
line feed behind a carriage return only. -/
theorem append_writes_margin_iff_beginsLine {b : TextBuilder} (hd : 0 < b.depth) :
    b.margin ≠ [] ∧ b.append [] = b ∧
    ∀ (c : Char) (t : Text),
      (b.appendChar c = b.write (b.margin ++ [c]) ↔ BeginsLine b.text c) ∧
      (b.appendChar c = b.write [c] ↔ ¬BeginsLine b.text c) ∧
      (b.append (c :: t) = b.write (b.margin ++ c :: t) ↔ BeginsLine b.text c) ∧
      (b.append (c :: t) = b.write (c :: t) ↔ ¬BeginsLine b.text c) ∧
      ((bodyLines b.text).getLast? = some [] →
        (¬BeginsLine b.text c ↔ b.text.getLast? = some '\r' ∧ c = '\n')) := by
  refine ⟨TextBuilder.margin_ne_nil hd, rfl, ?_⟩
  intro c t
  obtain ⟨hc, hc'⟩ := TextBuilder.write_marginBefore_iff hd c [c]
  obtain ⟨ht, ht'⟩ := TextBuilder.write_marginBefore_iff hd c (c :: t)
  exact ⟨hc, hc', ht, ht', fun hl => not_beginsLine_iff hl c⟩

theorem append_writes_margin_iff_beginsLine_split :
    let b := ((TextBuilder.withWidth 2).atDepth 1).write "a\n\r".toList
    0 < b.depth ∧ (bodyLines b.text).getLast? = some [] ∧
      b.appendChar '\n' = b.write ['\n'] ∧
      b.append "\r\n".toList = b.write "  \r\n".toList := by
  intro b
  have hd : 0 < b.depth := by decide
  obtain ⟨-, -, h⟩ := append_writes_margin_iff_beginsLine hd
  obtain ⟨-, hlf, -⟩ := h '\n' []
  obtain ⟨-, -, hcr, -⟩ := h '\r' ['\n']
  exact ⟨hd, by decide, hlf.mpr (by decide), hcr.mpr (by decide)⟩

end SourceGen
