import Mathlib.Algebra.Group.Nat.Defs
import SourceGen.Config
import SourceGen.Proofs.Builder.Lineage

/-! # Configured indentation

Whatever width is configured, builders use one between 1 and 64, and a warning tells of any other.
With so small a width no run of a realistic length comes near the limit of columns: every margin has
just the spaces that the width and the depth ask for. -/
namespace SourceGen

namespace BuilderConfig

@[simp] theorem width_toBuilder (c : BuilderConfig) :
    c.toBuilder.indent.width = c.effectiveWidth := by
  have hw : c.effectiveWidth ≠ 0 := Nat.ne_of_gt c.effectiveWidth_pos
  change (Indent.spaces c.effectiveWidth).width = c.effectiveWidth
  rw [Indent.width_spaces, if_neg hw]

/-- A width that can be used is used without a word. Any other gives way to another one, with a
single warning. -/
theorem warnings_cases (c : BuilderConfig) :
    (c.warnings = [] ∧ (c.effectiveWidth : Int) = c.indentWidth) ∨
      ((c.effectiveWidth : Int) ≠ c.indentWidth ∧
        ∃ r, c.warnings = [r] ∧ r.level = .warn) := by
  by_cases hf : c.indentWidth ≤ 0
  · right
    have hw : c.effectiveWidth = defaultIndentWidth := if_pos (by simpa [usesFallback] using hf)
    refine ⟨?_, _, if_pos (by simpa [usesFallback] using hf), rfl⟩
    rw [hw, defaultIndentWidth]
    omega
  have hn : ¬c.usesFallback := by simpa [usesFallback] using hf
  have hw : c.effectiveWidth = min c.indentWidth.toNat maxIndentWidth := if_neg hn
  by_cases hc : (maxIndentWidth : Int) < c.indentWidth
  · right
    refine ⟨?_, _, (if_neg hn).trans (if_pos (by simpa [isClamped] using hc)), rfl⟩
    rw [hw]
    omega
  · left
    refine ⟨(if_neg hn).trans (if_neg (by simpa [isClamped] using hc)), ?_⟩
    rw [hw]
    omega

end BuilderConfig

/-- As long as the product of width and depth fits a word, the margin has that many spaces. -/
theorem TextBuilder.margin_eq_replicate {b : TextBuilder} {width rises : Nat}
    (hw : b.indent.width = width) (hl : width ≤ maxIndentWidth) (hd : b.depth ≤ rises)
    (hr : rises ≤ 2 ^ 57) : b.margin = List.replicate (width * b.depth) ' ' := by
  have hm : width * b.depth ≤ maxIndentWidth * 2 ^ 57 := Nat.mul_le_mul hl (hd.trans hr)
  have hc : b.indent.width * b.depth ≤ columnLimit := by
    rw [hw]
    exact hm.trans (by decide)
  rw [margin, Indent.margin, Indent.columns_eq_of_le hc, hw]

/-- A configured builder has a width between 1 and 64. Just one warning tells if it is not the one
that was configured, and otherwise there is none. Whatever program runs on the builder, and whatever
state it comes to, in the builder or in a copy: the depth is at most the number of indent calls made
and of scopes entered until then. Up to 2 ^ 57 of them, one level more still fits a word, and the
margin has the width's number of spaces for each level. -/
theorem configured_indentation_is_exact (c : BuilderConfig) :
    let b := c.toBuilder
    (1 ≤ b.indent.width ∧ b.indent.width ≤ 64) ∧
      ((b.indent.width : Int) = c.indentWidth ↔ c.warnings = []) ∧
      ((b.indent.width : Int) ≠ c.indentWidth ↔ ∃ r, c.warnings = [r] ∧ r.level = .warn) ∧
      ∀ p : Program,
        (∀ e ∈ (p.run b).trace, ∃ g ∈ p.stages b, g.state = e.state) ∧
        (∃ g ∈ p.stages b, g.state = (p.run b).state) ∧
        ∀ g ∈ p.stages b,
          g.state.depth ≤ g.rises ∧
          (g.rises ≤ 2 ^ 57 →
            g.state.depth + 1 ≤ 2 ^ 64 - 1 ∧
            g.state.margin = List.replicate (b.indent.width * g.state.depth) ' ') := by
  intro b
  have hw : b.indent.width = c.effectiveWidth := c.width_toBuilder
  rw [hw]
  refine ⟨⟨c.effectiveWidth_pos, c.effectiveWidth_le⟩, ?_, ?_, ?_⟩
  · rcases c.warnings_cases with ⟨hn, he⟩ | ⟨hne, r, hr, -⟩
    · exact iff_of_true he hn
    · exact iff_of_false hne (by simp [hr])
  · rcases c.warnings_cases with ⟨hn, he⟩ | ⟨hne, hr⟩
    · exact iff_of_false (not_not_intro he) (by simp [hn])
    · exact iff_of_true hne hr
  · intro p
    have ht := p.run_tracked b
    refine ⟨fun e he => Program.exists_stage (ht.trace e he), Program.exists_stage ht.state, ?_⟩
    intro g hg
    obtain ⟨script, -, hg⟩ := List.mem_flatMap.mp hg
    have hd : g.state.depth ≤ g.rises := script.unfold.depth_le_rises (Nat.le_refl 0) g hg
    have hi : g.state.indent.width = c.effectiveWidth := by
      rw [script.unfold.indent_stages b 0 g hg, hw]
    refine ⟨hd, fun hr => ⟨by omega, ?_⟩⟩
    exact TextBuilder.margin_eq_replicate hi c.effectiveWidth_le hd hr

theorem configured_indentation_is_exact_clamped :
    let c : BuilderConfig := { indentWidth := 100 }
    let p := Program.ofList [
      .act .indent,
      .fork (.scope .indented 2 (.act (.appendLinesIndented [['a'], ['b']]))),
      .scope .indentWith 1 (.seq (.act .clear) (.panic ['x']))]
    c.toBuilder.indent.width = 64 ∧
      (∃ r, c.warnings = [r] ∧ r.level = .warn) ∧
      ∃ g ∈ p.stages c.toBuilder, g.rises = 5 ∧ g.rises ≤ 2 ^ 57 ∧ g.state.depth = 4 ∧
        g.state.margin = List.replicate 256 ' ' := by
  intro c p
  obtain ⟨-, -, warned, run⟩ := configured_indentation_is_exact c
  obtain ⟨-, -, stages⟩ := run p
  have hs : ∃ g ∈ p.stages c.toBuilder, g.rises = 5 ∧ g.state.depth = 4 := by decide
  obtain ⟨g, hg, hr, hd⟩ := hs
  have hl : g.rises ≤ 2 ^ 57 := by omega
  have hm := ((stages g hg).2 hl).2
  rw [hd] at hm
  exact ⟨rfl, warned.mp (by decide), g, hg, hr, hl, hd, hm⟩

end SourceGen
