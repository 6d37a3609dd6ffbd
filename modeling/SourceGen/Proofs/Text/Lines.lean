import SourceGen.Text.Lines

/-! # Lines of a concatenation

Writing one text behind another joins the last line of the first with the first line of the
second. The only exception is a carriage return that meets a line feed: the two become one
break, so the empty line between them is lost. -/
namespace SourceGen

open Text

/-- The last line of `ls` goes on with the first line of `ms`. -/
def seam (ls ms : List Text) : List Text :=
  ls.dropLast ++ (ls.getLast?.getD [] ++ ms.head?.getD []) :: ms.tail

theorem seam_snoc (ls : List Text) (l : Text) (ms : List Text) :
    seam (ls ++ [l]) ms = ls ++ (l ++ ms.head?.getD []) :: ms.tail := by
  simp [seam]

theorem seam_cons (l : Text) {ls : List Text} (h : ls ≠ []) (ms : List Text) :
    seam (l :: ls) ms = l :: seam ls ms := by
  obtain ⟨k, ls, rfl⟩ := List.exists_cons_of_ne_nil h
  simp [seam, List.getLast?_cons_cons]

theorem nil_seam {ms : List Text} (h : ms ≠ []) : seam [[]] ms = ms := by
  obtain ⟨m, ms, rfl⟩ := List.exists_cons_of_ne_nil h
  simp [seam]

theorem seam_assoc (ls : List Text) {ks : List Text} (h : ks ≠ []) (ms : List Text) :
    seam (seam ls ks) ms = seam ls (seam ks ms) := by
  obtain ⟨k, ks, rfl⟩ := List.exists_cons_of_ne_nil h
  rcases List.eq_nil_or_concat ks with rfl | ⟨mid, last, rfl⟩
  · simp [seam]
  · have hl : seam ls (k :: mid.concat last) =
        (ls.dropLast ++ (ls.getLast?.getD [] ++ k) :: mid) ++ [last] := by simp [seam]
    have hr : k :: mid.concat last = (k :: mid) ++ [last] := by simp
    rw [hl, seam_snoc, hr, seam_snoc]
    simp [seam]

@[simp] theorem bodyLines_lf (t : Text) : bodyLines ('\n' :: t) = [] :: bodyLines t := by
  simp [bodyLines, isBreak]

@[simp] theorem bodyLines_crlf (t : Text) :
    bodyLines ('\r' :: '\n' :: t) = [] :: bodyLines t := by
  simp [bodyLines]

theorem bodyLines_cr {t : Text} (h : t.head? ≠ some '\n') :
    bodyLines ('\r' :: t) = [] :: bodyLines t := by
  cases t with
  | nil => simp [bodyLines, isBreak]
  | cons c t =>
    have hc : c ≠ '\n' := by simpa using h
    simp [bodyLines, isBreak, hc]

theorem bodyLines_cons {c : Char} (h : isBreak c = false) (t : Text) :
    bodyLines (c :: t) = seam [[c]] (bodyLines t) := by
  obtain ⟨l, ls, hl⟩ := List.exists_cons_of_ne_nil (bodyLines_ne_nil t)
  have hr : c ≠ '\r' := by rintro rfl; simp [isBreak] at h
  rw [bodyLines]
  · simp [h, hl, seam]
  · rintro _ rfl; exact absurd rfl hr

theorem bodyLines_breakFree_append {l : Text} (h : BreakFree l) (t : Text) :
    bodyLines (l ++ t) = seam [l] (bodyLines t) := by
  induction l with
  | nil => exact (nil_seam (bodyLines_ne_nil t)).symm
  | cons c l ih =>
    have hl : BreakFree l := fun x hx => h x (List.mem_cons_of_mem c hx)
    rw [List.cons_append, bodyLines_cons (h c List.mem_cons_self), ih hl]
    simp [seam]

theorem bodyLines_breakFree {l : Text} (h : BreakFree l) : bodyLines l = [l] := by
  have hl := bodyLines_breakFree_append h []
  simpa [bodyLines, seam] using hl

/-- Induction along the breaks of a text. A carriage return in front of a line feed is never
taken alone. -/
@[elab_as_elim]
theorem break_induction {P : Text → Prop} (nil : P [])
    (lf : ∀ t, P t → P ('\n' :: t)) (crlf : ∀ t, P t → P ('\r' :: '\n' :: t))
    (cr : ∀ t, t.head? ≠ some '\n' → P t → P ('\r' :: t))
    (char : ∀ c t, isBreak c = false → P t → P (c :: t)) (t : Text) : P t := by
  fun_induction bodyLines t with
  | case1 => exact nil
  | case2 rest ih => exact crlf rest ih
  | case3 c rest hlf hb ih =>
    rcases (by simpa [isBreak] using hb : c = '\n' ∨ c = '\r') with rfl | rfl
    · exact lf rest ih
    · refine cr rest ?_ ih
      intro hr
      obtain ⟨t, rfl⟩ := List.head?_eq_some_iff.mp hr
      exact hlf t rfl rfl
  | case4 c rest hlf hb hnil ih => exact char c rest (by simpa using hb) ih
  | case5 c rest hlf hb line more hl ih => exact char c rest (by simpa using hb) ih

/-- No line feed of the second text is about to complete a carriage return of the first. -/
def SeamFree (s t : Text) : Prop := s.getLast? = some '\r' → t.head? ≠ some '\n'

theorem SeamFree.of_cons {c : Char} {s t : Text} (h : SeamFree (c :: s) t) : SeamFree s t := by
  intro hs
  exact h (by simp [List.getLast?_cons, hs])

theorem bodyLines_append {s t : Text} (h : SeamFree s t) :
    bodyLines (s ++ t) = seam (bodyLines s) (bodyLines t) := by
  induction s using break_induction with
  | nil => exact (nil_seam (bodyLines_ne_nil t)).symm
  | lf s ih =>
    rw [List.cons_append, bodyLines_lf, bodyLines_lf, seam_cons _ (bodyLines_ne_nil s), ih h.of_cons]
  | crlf s ih =>
    rw [List.cons_append, List.cons_append, bodyLines_crlf, bodyLines_crlf,
      seam_cons _ (bodyLines_ne_nil s), ih h.of_cons.of_cons]
  | cr s hs ih =>
    have hst : (s ++ t).head? ≠ some '\n' := by
      cases s with
      | nil => exact h rfl
      | cons c s => simpa using hs
    rw [List.cons_append, bodyLines_cr hst, bodyLines_cr hs, seam_cons _ (bodyLines_ne_nil s),
      ih h.of_cons]
  | char c s hc ih =>
    rw [List.cons_append, bodyLines_cons hc, bodyLines_cons hc, ih h.of_cons,
      seam_assoc _ (bodyLines_ne_nil s)]

/-- Where a carriage return meets a line feed, the line between them is lost. -/
theorem bodyLines_append_crlf (s t : Text) :
    bodyLines ((s ++ ['\r']) ++ '\n' :: t) =
      (bodyLines (s ++ ['\r'])).dropLast ++ (bodyLines ('\n' :: t)).tail := by
  have hs : ∀ u, SeamFree s ('\r' :: u) := by simp [SeamFree]
  have hcr : bodyLines ['\r'] = [[], []] := bodyLines_cr (by simp)
  rw [List.append_assoc, List.singleton_append, bodyLines_append (hs _), bodyLines_append (hs _), hcr]
  simp [seam, List.dropLast_append_of_ne_nil]

theorem seamFree_of_getLast? {s : Text} (h : s.getLast? ≠ some '\r') (t : Text) : SeamFree s t :=
  fun hs => absurd hs h

theorem bodyLines_break {c : Char} (h : isBreak c = true) : bodyLines [c] = [[], []] := by
  rcases (by simpa [isBreak] using h : c = '\n' ∨ c = '\r') with rfl | rfl
  · simp [bodyLines]
  · exact bodyLines_cr (by simp)

theorem bodyLines_snoc_break (s : Text) {c : Char} (h : isBreak c = true) :
    ∃ ls, bodyLines (s ++ [c]) = ls ++ [[]] := by
  have split : ∀ b : Text, bodyLines b = [[], []] → SeamFree s b →
      ∃ ls, bodyLines (s ++ b) = ls ++ [[]] := by
    intro b hb hs
    rw [bodyLines_append hs, hb]
    exact ⟨(bodyLines s).dropLast ++ [(bodyLines s).getLast?.getD []], by simp [seam]⟩
  rcases (by simpa [isBreak] using h : c = '\n' ∨ c = '\r') with rfl | rfl
  · by_cases hs : s.getLast? = some '\r'
    · obtain ⟨s, rfl⟩ := List.getLast?_eq_some_iff.mp hs
      rw [bodyLines_append_crlf, bodyLines_break h]
      exact ⟨_, rfl⟩
    · exact split ['\n'] (bodyLines_break h) (seamFree_of_getLast? hs _)
  · exact split ['\r'] (bodyLines_break h) (by simp [SeamFree])

/-- The last line is empty exactly if nothing stands behind the last break. -/
theorem getLast?_bodyLines_eq_nil_iff (t : Text) :
    (bodyLines t).getLast? = some [] ↔ ∀ c, t.getLast? = some c → isBreak c = true := by
  rcases List.eq_nil_or_concat t with rfl | ⟨s, c, rfl⟩
  · simp [bodyLines]
  rw [List.concat_eq_append]
  by_cases hc : isBreak c = true
  · obtain ⟨ls, hls⟩ := bodyLines_snoc_break s hc
    simp [hls, hc]
  · have hb : BreakFree [c] := by simpa [BreakFree] using hc
    have hs : SeamFree s [c] := by
      intro _ hn
      have hn : c = '\n' := by simpa using hn
      exact hc (by simp [hn, isBreak])
    rw [bodyLines_append hs, bodyLines_breakFree hb]
    simp [seam, hc]

/-- One more character changes the lines of a text, unless it is the line feed for which a
carriage return was waiting. -/
theorem bodyLines_snoc_eq_iff (s : Text) (c : Char) :
    bodyLines (s ++ [c]) = bodyLines s ↔ s.getLast? = some '\r' ∧ c = '\n' := by
  constructor
  · intro h
    by_cases hn : s.getLast? = some '\r' ∧ c = '\n'
    · exact hn
    exfalso
    have hs : SeamFree s [c] := by
      intro hr hc
      exact hn ⟨hr, by simpa using hc⟩
    obtain ⟨ls, l, hl⟩ := (List.eq_nil_or_concat (bodyLines s)).resolve_left (bodyLines_ne_nil s)
    rw [bodyLines_append hs, hl, List.concat_eq_append, seam_snoc] at h
    by_cases hb : isBreak c = true
    · -- a break opens one more line
      simp [bodyLines_break hb] at h
    · -- any other character makes the last line longer
      have hb : BreakFree [c] := by simpa [BreakFree] using hb
      simp [bodyLines_breakFree hb] at h
  · rintro ⟨hs, rfl⟩
    obtain ⟨s, rfl⟩ := List.getLast?_eq_some_iff.mp hs
    obtain ⟨ls, hl⟩ := bodyLines_snoc_break s (c := '\r') (by decide)
    have h := bodyLines_append_crlf s []
    rw [bodyLines_break (by decide)] at h
    simpa [hl] using h

end SourceGen
