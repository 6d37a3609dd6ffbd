import Mathlib.Data.List.Induction
import SourceGen.Proofs.Text.Lines

/-! # Concatenations

The lines of a concatenation are the lines of its two parts, joined at the seam. One line is lost
where a carriage return meets a line feed there, and nowhere else. So lines can be counted by the
breaks of a text, and texts with a break between them keep their lines as long as that break stays
apart from theirs. -/
namespace SourceGen

open Text

/-- The number of carriage returns with a line feed right behind them. -/
def crlfCount (t : Text) : Nat := (t.zip t.tail).count ('\r', '\n')

theorem crlfCount_cons (c : Char) (t : Text) :
    crlfCount (c :: t) = crlfCount t + if c = '\r' ∧ t.head? = some '\n' then 1 else 0 := by
  cases t with
  | nil => simp [crlfCount]
  | cons d t => simp [crlfCount, List.count_cons]

theorem length_bodyLines (t : Text) :
    (bodyLines t).length + crlfCount t = 1 + t.count '\n' + t.count '\r' := by
  induction t using break_induction with
  | nil => simp [bodyLines, crlfCount]
  | lf t ih => grind [crlfCount_cons, bodyLines_lf]
  | crlf t ih =>
    -- one break, but two characters: the pair makes up for the second
    grind [crlfCount_cons, bodyLines_crlf]
  | cr t h ih => grind [crlfCount_cons, bodyLines_cr]
  | char c t hc ih =>
    obtain ⟨hn, hr⟩ : c ≠ '\n' ∧ c ≠ '\r' := by simpa [isBreak] using hc
    have hl : (bodyLines (c :: t)).length = (bodyLines t).length := by
      obtain ⟨l, ls, h⟩ := List.exists_cons_of_ne_nil (bodyLines_ne_nil t)
      simp [bodyLines_cons hc, h, seam]
    simp [crlfCount_cons, hl, hn, hr, ih]

theorem seam_eq_getLast_head {ls ms : List Text} (hl : ls ≠ []) (hm : ms ≠ []) :
    seam ls ms = ls.dropLast ++ (ls.getLast hl ++ ms.head hm) :: ms.tail := by
  rw [seam, List.getLast?_eq_some_getLast hl, List.head?_eq_some_head hm]
  rfl

/-- At the seam of two texts the last line of the first goes on with the first line of the second.
Where a carriage return meets a line feed, the empty lines on both sides of the seam are lost for
the one break that they become. So a text has one line more than it has breaks. -/
theorem bodyLines_append_at_seam (s t : Text) :
    (¬(s.getLast? = some '\r' ∧ t.head? = some '\n') →
      bodyLines (s ++ t) = (bodyLines s).dropLast ++
        ((bodyLines s).getLast (bodyLines_ne_nil s) ++ (bodyLines t).head (bodyLines_ne_nil t)) ::
          (bodyLines t).tail) ∧
    (s.getLast? = some '\r' ∧ t.head? = some '\n' →
      bodyLines (s ++ t) = (bodyLines s).dropLast ++ (bodyLines t).tail) ∧
    (bodyLines t).length + crlfCount t = 1 + t.count '\n' + t.count '\r' := by
  refine ⟨?_, ?_, length_bodyLines t⟩
  · intro h
    have hs : SeamFree s t := fun hr hn => h ⟨hr, hn⟩
    rw [bodyLines_append hs, seam_eq_getLast_head]
  · rintro ⟨hr, hn⟩
    obtain ⟨s, rfl⟩ := List.getLast?_eq_some_iff.mp hr
    obtain ⟨t, rfl⟩ := List.head?_eq_some_iff.mp hn
    exact bodyLines_append_crlf s t

theorem bodyLines_append_at_seam_split :
    let s := "a\n\r".toList
    let t := "\n\rb".toList
    ¬(t.getLast? = some '\r' ∧ s.head? = some '\n') ∧
      bodyLines (t ++ s) = [[], [], ['b', 'a'], [], []] ∧
      (s.getLast? = some '\r' ∧ t.head? = some '\n') ∧
      bodyLines (s ++ t) = [['a'], [], [], ['b']] ∧
      (bodyLines (s ++ t)).length + crlfCount (s ++ t) = 1 + 2 + 2 := by
  intro s t
  have apart : ¬(t.getLast? = some '\r' ∧ s.head? = some '\n') := by decide
  have meets : s.getLast? = some '\r' ∧ t.head? = some '\n' := by decide
  obtain ⟨joined, -, -⟩ := bodyLines_append_at_seam t s
  obtain ⟨-, merged, -⟩ := bodyLines_append_at_seam s t
  obtain ⟨-, -, counted⟩ := bodyLines_append_at_seam [] (s ++ t)
  exact ⟨apart, (joined apart).trans (by decide), meets, (merged meets).trans (by decide), counted⟩

theorem seam_nil_cons {ls : List Text} (h : ls ≠ []) (ms : List Text) :
    seam ls ([] :: ms) = ls ++ ms := by
  obtain ⟨init, last, rfl⟩ := (List.eq_nil_or_concat ls).resolve_left h
  simp [seam]

/-- A carriage return in front of the line feed keeps it from an earlier one. -/
theorem bodyLines_append_crlf_append (s t : Text) :
    bodyLines (s ++ ['\r', '\n'] ++ t) = bodyLines s ++ bodyLines t := by
  have hs : SeamFree s ('\r' :: '\n' :: t) := by simp [SeamFree]
  rw [List.append_assoc, List.cons_append, List.cons_append, List.nil_append, bodyLines_append hs,
    bodyLines_crlf, seam_nil_cons (bodyLines_ne_nil s)]

theorem bodyLines_append_lf_append {s : Text} (hs : s.getLast? ≠ some '\r') (t : Text) :
    bodyLines (s ++ ['\n'] ++ t) = bodyLines s ++ bodyLines t := by
  rw [List.append_assoc, List.singleton_append, bodyLines_append (seamFree_of_getLast? hs _),
    bodyLines_lf, seam_nil_cons (bodyLines_ne_nil s)]

/-- A line feed behind a carriage return adds no break. -/
theorem length_bodyLines_append_lf_append {s : Text} (hs : s.getLast? = some '\r') (t : Text) :
    (bodyLines (s ++ ['\n'] ++ t)).length + 1 = (bodyLines s).length + (bodyLines t).length := by
  have hp := List.length_pos_iff.mpr (bodyLines_ne_nil s)
  obtain ⟨s, rfl⟩ := List.getLast?_eq_some_iff.mp hs
  rw [List.append_assoc (s ++ ['\r']), List.singleton_append, bodyLines_append_crlf, bodyLines_lf,
    List.tail_cons, List.length_append, List.length_dropLast]
  omega

theorem bodyLines_intercalate_crlf {items : List Text} (h : items ≠ []) :
    bodyLines (['\r', '\n'].intercalate items) = items.flatMap bodyLines := by
  induction items, h using List.recNeNil with
  | singleton item => simp
  | cons item items h ih =>
    rw [List.intercalate_cons_of_ne_nil h, bodyLines_append_crlf_append, ih, List.flatMap_cons]

/-- Each text but the last that ends in a carriage return costs a line. -/
theorem length_bodyLines_intercalate_lf {items : List Text} (h : items ≠ []) :
    (bodyLines (['\n'].intercalate items)).length +
      items.dropLast.countP (·.getLast? = some '\r') = (items.flatMap bodyLines).length := by
  induction items, h using List.recNeNil with
  | singleton item => simp
  | cons item items h ih =>
    rw [List.intercalate_cons_of_ne_nil h, List.dropLast_cons_of_ne_nil h, List.flatMap_cons,
      List.length_append]
    by_cases hr : item.getLast? = some '\r'
    · have hl := length_bodyLines_append_lf_append hr (['\n'].intercalate items)
      rw [List.countP_cons_of_pos (by simpa using hr)]
      omega
    · rw [bodyLines_append_lf_append hr, List.length_append,
        List.countP_cons_of_neg (by simpa using hr)]
      omega

theorem bodyLines_intercalate_lf {items : List Text} (h : items ≠ [])
    (hr : ∀ item ∈ items.dropLast, item.getLast? ≠ some '\r') :
    bodyLines (['\n'].intercalate items) = items.flatMap bodyLines := by
  induction items, h using List.recNeNil with
  | singleton item => simp
  | cons item items h ih =>
    rw [List.dropLast_cons_of_ne_nil h] at hr
    obtain ⟨hi, hr⟩ := List.forall_mem_cons.mp hr
    rw [List.intercalate_cons_of_ne_nil h, bodyLines_append_lf_append hi, ih hr, List.flatMap_cons]

theorem bodyLines_intercalate_lf_iff {items : List Text} (h : items ≠ []) :
    bodyLines (['\n'].intercalate items) = items.flatMap bodyLines ↔
      ∀ item ∈ items.dropLast, item.getLast? ≠ some '\r' := by
  refine ⟨fun he => ?_, bodyLines_intercalate_lf h⟩
  have hl := length_bodyLines_intercalate_lf h
  rw [he, Nat.add_eq_left, List.countP_eq_zero] at hl
  simpa using hl

end SourceGen
