import SourceGen.Proofs.Builder.Body
import SourceGen.Proofs.Text.Concatenation

/-! # Many items at once

What is written for many items may be written in one go: one scope around all lines does what a
scope around each does, and bodies in a row are one body if their texts are joined by a break that
stays a break. -/
namespace SourceGen

open Text

/-- The lines can be read off what is written for them. -/
theorem LineEnding.writeLines_inj (e : LineEnding) {margin : Text} (hm : BreakFree margin)
    {ls ms : List Text} (hl : ∀ l ∈ ls, BreakFree l) (hms : ∀ m ∈ ms, BreakFree m) :
    e.writeLines margin ls = e.writeLines margin ms ↔ ls = ms := by
  refine ⟨fun h => ?_, congrArg _⟩
  have hb := congrArg bodyLines h
  rw [bodyLines_writeLines_margin e hm hl, bodyLines_writeLines_margin e hm hms] at hb
  have hp : (ls.map (margin ++ ·)) = ms.map (margin ++ ·) := List.append_cancel_right hb
  exact List.map_injective_iff.mpr (fun s t => List.append_cancel_left) hp

theorem breakFree_of_mem_flatMap_bodyLines {items : List Text} {l : Text}
    (h : l ∈ items.flatMap bodyLines) : BreakFree l := by
  obtain ⟨item, -, hl⟩ := List.mem_flatMap.mp h
  exact breakFree_of_mem_bodyLines hl

namespace TextBuilder

theorem forEach_map {α β : Type} (b : TextBuilder) (items : List α) (g : α → β)
    (f : TextBuilder → β → TextBuilder) :
    b.forEach (items.map g) f = b.forEach items fun b item => f b (g item) :=
  List.foldl_map

theorem appendBodies_eq_write (b : TextBuilder) (items : List Text) :
    b.appendBodies items =
      b.write (b.lineEnding.writeLines b.margin (items.flatMap bodyLines)) := by
  rw [← foldl_appendLine_eq_write, List.foldl_flatMap]
  rfl

/-- Bodies are one body exactly if its lines are theirs, one after the other. -/
theorem appendBodies_eq_appendBody_iff (b : TextBuilder) (items : List Text) (t : Text) :
    b.appendBodies items = b.appendBody t ↔ bodyLines t = items.flatMap bodyLines := by
  have hi : ∀ l ∈ items.flatMap bodyLines, BreakFree l :=
    fun l hl => breakFree_of_mem_flatMap_bodyLines hl
  have ht : ∀ l ∈ bodyLines t, BreakFree l := fun l hl => breakFree_of_mem_bodyLines hl
  have hw := b.lineEnding.writeLines_inj b.breakFree_margin_self ht hi
  rw [eq_comm, appendBody_eq_write, appendBodies_eq_write, ← hw]
  simp [write]

end TextBuilder

/-- Indented lines may share one scope, and items may be formatted before they are handed over.
Bodies in a row are the body of their texts joined by carriage return and line feed. Joined by line
feeds alone they are if and only if no text but the last ends in a carriage return. -/
theorem batches_eq_hoisted_and_joined (b : TextBuilder) (items : List Text) (format : Text → Text) :
    b.appendLinesIndented items = b.indentWith (·.appendLines items) ∧
    b.appendLinesBy items format = b.appendLines (items.map format) ∧
    b.appendLinesIndentedBy items format = b.appendLinesIndented (items.map format) ∧
    b.appendBodiesBy items format = b.appendBodies (items.map format) ∧
    (items ≠ [] →
      b.appendBodies items = b.appendBody ("\r\n".toList.intercalate items) ∧
      (b.appendBodies items = b.appendBody ("\n".toList.intercalate items) ↔
        ∀ item ∈ items.dropLast, item.getLast? ≠ some '\r')) := by
  refine ⟨(TextBuilder.indentWith_foldl_appendLine items b).symm, ?_, ?_, ?_, ?_⟩
  · exact (b.forEach_map items format TextBuilder.appendLine).symm
  · exact (b.forEach_map items format TextBuilder.appendLineIndented).symm
  · exact (b.forEach_map items format TextBuilder.appendBody).symm
  · intro h
    rw [b.appendBodies_eq_appendBody_iff, b.appendBodies_eq_appendBody_iff]
    exact ⟨bodyLines_intercalate_crlf h, bodyLines_intercalate_lf_iff h⟩

theorem batches_eq_hoisted_and_joined_breaks :
    let b := ((TextBuilder.withWidth 2).atDepth 1).write ['\r']
    let apart := ["a\n".toList, "\nb".toList, [], "c\r".toList]
    let merging := ["a\r".toList, "b".toList]
    apart ≠ [] ∧ merging ≠ [] ∧
      b.appendBodies merging = b.appendBody "a\r\r\nb".toList ∧
      b.appendBodies apart = b.appendBody "a\n\n\nb\n\nc\r".toList ∧
      b.appendBodies merging ≠ b.appendBody "a\r\nb".toList := by
  intro b apart merging
  have ha : apart ≠ [] := by decide
  have hm : merging ≠ [] := by decide
  obtain ⟨-, -, -, -, joined⟩ := batches_eq_hoisted_and_joined b apart id
  obtain ⟨-, -, -, -, merged⟩ := batches_eq_hoisted_and_joined b merging id
  exact ⟨ha, hm, (merged hm).1, (joined ha).2.mpr (by decide), (merged hm).2.not.mpr (by decide)⟩

end SourceGen
