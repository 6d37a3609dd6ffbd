import SourceGen.Proofs.Builder.LineStart

/-! # Texts in pieces

A text may reach a builder in pieces. Every piece is an append of its own, so it gets a margin where
it begins a line, while the breaks within one append are followed by none. The pieces leave what
their concatenation leaves exactly if no line starts between two of them, or margins are empty. -/
namespace SourceGen

/-- No line starts between the two texts. A line feed that completes a carriage return starts
none. -/
def Joins (p q : Text) : Prop :=
  p.getLast? ≠ some '\n' ∧ (p.getLast? = some '\r' → q.head? = some '\n')

instance (p q : Text) : Decidable (Joins p q) :=
  inferInstanceAs (Decidable (_ ∧ (_ → _)))

/-- Written behind `before`, the text begins a line. -/
def StartsLine (before : Text) : Text → Prop
  | [] => False
  | c :: _ => BeginsLine before c

instance (before : Text) : DecidablePred (StartsLine before)
  | [] => inferInstanceAs (Decidable False)
  | c :: _ => inferInstanceAs (Decidable (BeginsLine before c))

theorem joins_iff_opensLine (before : Text) {p : Text} (hp : p ≠ []) (c : Char) (t : Text) :
    Joins p (c :: t) ↔ opensLine (before ++ p) c = false := by
  obtain ⟨p, x, rfl⟩ := (List.eq_nil_or_concat p).resolve_left hp
  simp only [List.concat_eq_append, ← List.append_assoc, Joins, opensLine, List.getLast?_concat]
  split <;> simp_all

namespace TextBuilder

/-- An append writes its text, behind a margin if it begins a line. -/
theorem append_eq_write (b : TextBuilder) (t : Text) :
    b.append t = b.write ((if StartsLine b.text t then b.margin else []) ++ t) := by
  cases t with
  | nil => simp [append, write, StartsLine]
  | cons c t =>
    by_cases h : BeginsLine b.text c
    · simp [append, StartsLine, h, marginBefore_of_beginsLine h]
    · simp [append, StartsLine, h, marginBefore_of_not_beginsLine h]

theorem append_append (b : TextBuilder) {s : Text} (hs : s ≠ []) (t : Text) :
    b.append (s ++ t) = (b.append s).write t := by
  obtain ⟨c, s, rfl⟩ := List.exists_cons_of_ne_nil hs
  simp [append, write]

theorem append_of_margin_eq_nil {b : TextBuilder} (h : b.margin = []) (t : Text) :
    b.append t = b.write t := by
  simp [append_eq_write, h]

theorem appendPieces_cons (b : TextBuilder) (p : Text) (ps : List Text) :
    b.appendPieces (p :: ps) = (b.append p).appendPieces ps :=
  rfl

theorem appendPieces_filter (b : TextBuilder) (ps : List Text) :
    b.appendPieces (ps.filter (· ≠ [])) = b.appendPieces ps := by
  induction ps generalizing b with
  | nil => rfl
  | cons p ps ih =>
    have hi := ih (b.append p)
    by_cases hp : p = []
    · simpa [hp, appendPieces_cons, append] using hi
    · simpa [hp, appendPieces_cons] using hi

theorem appendPieces_of_margin_eq_nil {b : TextBuilder} (h : b.margin = []) (ps : List Text) :
    b.appendPieces ps = b.write ps.flatten := by
  induction ps generalizing b with
  | nil => exact b.write_nil.symm
  | cons p ps ih =>
    have hp : (b.write p).margin = [] := h
    rw [appendPieces_cons, append_of_margin_eq_nil h, ih hp, write_write, List.flatten_cons]

/-- Every piece stands behind the margin of its own append. -/
theorem appendPieces_eq_write (b : TextBuilder) (ps : List Text) :
    b.appendPieces ps = b.write (ps.mapIdx fun i p =>
      (if StartsLine (b.appendPieces (ps.take i)).text p then b.margin else []) ++ p).flatten := by
  induction ps generalizing b with
  | nil => exact b.write_nil.symm
  | cons p ps ih =>
    have hm : (b.append p).margin = b.margin := by rw [append_eq_write]; rfl
    rw [appendPieces_cons, ih, hm, append_eq_write b p, write_write, ← append_eq_write b p,
      List.mapIdx_cons]
    rfl

theorem length_le_length_text_appendPieces (b : TextBuilder) (ps : List Text) :
    b.text.length + ps.flatten.length ≤ (b.appendPieces ps).text.length := by
  induction ps generalizing b with
  | nil => simp [appendPieces]
  | cons p ps ih =>
    have hi := ih (b.append p)
    have hp : b.text.length + p.length ≤ (b.append p).text.length := by
      simp [append_eq_write, write]
    rw [appendPieces_cons, List.flatten_cons, List.length_append]
    omega

/-- Behind a piece, further pieces are written without margins exactly if they join. -/
theorem appendPieces_eq_write_iff {b : TextBuilder} (hd : 0 < b.depth) {before p : Text}
    (hb : b.text = before ++ p) (hp : p ≠ []) {ps : List Text} (hps : [] ∉ ps) :
    b.appendPieces ps = b.write ps.flatten ↔ (p :: ps).IsChain Joins := by
  induction ps generalizing b before p with
  | nil => simp [appendPieces, write_nil]
  | cons q ps ih =>
    have hq : q ≠ [] := (List.ne_of_not_mem_cons hps).symm
    obtain ⟨c, t, rfl⟩ := List.exists_cons_of_ne_nil hq
    have hj := joins_iff_opensLine before hp c t
    rw [← hb] at hj
    rw [appendPieces_cons, List.flatten_cons, List.isChain_cons_cons]
    by_cases h : Joins p (c :: t)
    · have ha : b.append (c :: t) = b.write (c :: t) := by
        simp [append, marginBefore, hj.mp h]
      rw [ha, ← write_write]
      simpa only [h, true_and] using
        ih (b := b.write (c :: t)) hd rfl hq (List.not_mem_of_not_mem_cons hps)
    · -- a margin in between makes the text too long
      have ho : opensLine b.text c = true := by simpa using hj.not.mp h
      have ha : b.append (c :: t) = b.write (b.margin ++ c :: t) := by
        simp [append, marginBefore, ho]
      have hm := List.length_pos_iff.mpr (margin_ne_nil hd)
      have hl := (b.append (c :: t)).length_le_length_text_appendPieces ps
      refine iff_of_false (fun he => ?_) fun hc => h hc.1
      rw [he, ha] at hl
      simp only [write, List.length_append] at hl
      omega

theorem appendPieces_eq_append_flatten_iff (b : TextBuilder) (ps : List Text) :
    b.appendPieces ps = b.append ps.flatten ↔
      b.depth = 0 ∨ (ps.filter (· ≠ [])).IsChain Joins := by
  rcases Nat.eq_zero_or_pos b.depth with hd | hd
  · have hm : b.margin = [] := by simp [margin, Indent.margin, Indent.columns, hd]
    simp [hd, appendPieces_of_margin_eq_nil hm, append_of_margin_eq_nil hm]
  · have hn : [] ∉ ps.filter (· ≠ []) := by simp
    rw [← appendPieces_filter, ← List.flatten_filter_ne_nil]
    generalize ps.filter (· ≠ []) = qs at hn
    cases qs with
    | nil => simp [appendPieces, append]
    | cons q qs =>
      have hq : q ≠ [] := (List.ne_of_not_mem_cons hn).symm
      have ha := b.append_eq_write q
      have hb : (b.append q).text =
          (b.text ++ if StartsLine b.text q then b.margin else []) ++ q := by
        rw [ha, write, List.append_assoc]
      have hd' : 0 < (b.append q).depth := by rwa [ha]
      rw [appendPieces_cons, List.flatten_cons, append_append b hq,
        appendPieces_eq_write_iff hd' hb hq (List.not_mem_of_not_mem_cons hn)]
      exact (or_iff_right (Nat.ne_of_gt hd)).symm

end TextBuilder

/-- The text that a call appends as it is, in one piece. -/
def Action.piece? : Action → Option Text
  | append t | writeText t => some t
  | appendChar c | writeChar c => some [c]
  | _ => none

theorem Action.apply_of_piece? {a : Action} {t : Text} (h : a.piece? = some t) (b : TextBuilder) :
    a.apply b = b.append t := by
  cases a with
  | append s | writeText s | appendChar c | writeChar c =>
    obtain rfl := Option.some.inj h
    rfl
  | _ => cases h

theorem Action.foldl_apply_of_pieces {calls : List Action} {ps : List Text}
    (h : calls.map piece? = ps.map some) (b : TextBuilder) :
    calls.foldl apply b = b.appendPieces ps := by
  induction calls generalizing ps b with
  | nil =>
    obtain rfl : ps = [] := by simpa using h.symm
    rfl
  | cons a calls ih =>
    cases ps with
    | nil => cases h
    | cons p ps =>
      obtain ⟨ha, h⟩ := List.cons_eq_cons.mp h
      rw [List.foldl_cons, apply_of_piece? ha, ih h, TextBuilder.appendPieces_cons]

/-- Calls that append a text piece by piece leave what a single append of it leaves if and only if
the depth is zero or no line starts between two pieces, empty ones left out. In any case the pieces
are written in order, a margin in front of each that is not empty and begins a line of the text at
its time, and nothing else. -/
theorem pieces_eq_append_iff (b : TextBuilder) {calls : List Action} {ps : List Text}
    (h : calls.map Action.piece? = ps.map some) :
    (calls.foldl Action.apply b = b.append ps.flatten ↔
      b.depth = 0 ∨ (ps.filter (· ≠ [])).IsChain Joins) ∧
    calls.foldl Action.apply b = b.write (ps.mapIdx fun i p =>
      (if StartsLine ((calls.take i).foldl Action.apply b).text p then b.margin else []) ++
        p).flatten := by
  have take : ∀ i, (calls.take i).foldl Action.apply b = b.appendPieces (ps.take i) := by
    intro i
    have hi := congrArg (List.take i) h
    rw [← List.map_take, ← List.map_take] at hi
    exact Action.foldl_apply_of_pieces hi b
  simp only [take, Action.foldl_apply_of_pieces h]
  exact ⟨b.appendPieces_eq_append_flatten_iff ps, b.appendPieces_eq_write ps⟩

theorem pieces_eq_append_iff_crlf :
    let b := ((TextBuilder.withWidth 2).atDepth 1).write ['\n']
    let whole : List Action := [.append "a\nb\r".toList, .writeText [], .writeChar '\n']
    let split : List Action := [.append "a\n".toList, .writeText [], .writeText "b\r\n".toList]
    whole.map Action.piece? = ["a\nb\r".toList, [], ['\n']].map some ∧
      split.map Action.piece? = ["a\n".toList, [], "b\r\n".toList].map some ∧
      whole.foldl Action.apply b = b.append "a\nb\r\n".toList ∧
      split.foldl Action.apply b ≠ b.append "a\nb\r\n".toList ∧
      split.foldl Action.apply b = b.write "  a\n  b\r\n".toList := by
  intro b whole split
  have whole_pieces : whole.map Action.piece? = ["a\nb\r".toList, [], ['\n']].map some := rfl
  have split_pieces : split.map Action.piece? = ["a\n".toList, [], "b\r\n".toList].map some := rfl
  obtain ⟨hw, -⟩ := pieces_eq_append_iff b whole_pieces
  obtain ⟨hs, ht⟩ := pieces_eq_append_iff b split_pieces
  exact ⟨whole_pieces, split_pieces, hw.mpr (by decide), hs.not.mpr (by decide),
    ht.trans (by decide)⟩

end SourceGen
