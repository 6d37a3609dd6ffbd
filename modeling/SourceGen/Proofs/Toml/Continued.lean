import Mathlib.Data.List.TakeDrop
import SourceGen.Proofs.Toml.Places
import SourceGen.Proofs.Toml.Rest

/-! # Reading does not look beyond a line break

What is read in front of a line break does not depend on what follows it. So a reader that succeeds on
a text succeeds in the same way where the text goes on with a line break, and only the places, which
extend to the end of the document, become longer. -/
namespace SourceGen.Toml

/-- The stretch in a document that goes on. -/
def Extent.extend (u : Text) (e : Extent) : Extent := ⟨e.start ++ u, e.stop ++ u⟩

/-- The text begins with a line break. -/
def Breaks (u : Text) : Prop := (lineBreak? u).isSome

/-- Where a text goes on with `u`, the reader gives the same as at its end, up to `extend`. -/
def ReadsOn {α : Type} (u : Text) (extend : α → α) (read : Text → Option (α × Text)) : Prop :=
  ∀ ⦃s a rest⦄, read s = some (a, rest) → read (s ++ u) = some (extend a, rest ++ u)

section Breaks

variable {u : Text} (hu : Breaks u)
include hu

theorem Breaks.exists_eq_cons : ∃ c v, u = c :: v ∧ (c = '\n' ∨ c = '\r') := by
  unfold Breaks lineBreak? at hu
  split at hu
  · exact ⟨_, _, rfl, .inl rfl⟩
  · exact ⟨_, _, rfl, .inr rfl⟩
  · cases hu

theorem Breaks.eq_cons_of_append {s r : Text} {c : Char} (h : s ++ u = c :: r) (hn : c ≠ '\n')
    (hr : c ≠ '\r') : ∃ t, s = c :: t ∧ r = t ++ u := by
  obtain ⟨d, v, rfl, hd⟩ := hu.exists_eq_cons
  cases s with
  | nil =>
    cases h
    rcases hd with rfl | rfl <;> contradiction
  | cons a s =>
    cases h
    exact ⟨s, rfl, rfl⟩

/-- A stretch of characters of a kind that line breaks are not of ends where the text does. -/
theorem Breaks.dropWhile_append {p : Char → Bool} (hn : p '\n' = false) (hr : p '\r' = false)
    (s : Text) : (s ++ u).dropWhile p = s.dropWhile p ++ u := by
  obtain ⟨c, v, rfl, hc⟩ := hu.exists_eq_cons
  have hp : p c = false := by rcases hc with rfl | rfl <;> assumption
  rw [List.dropWhile_append]
  split
  · next he =>
    rw [List.isEmpty_iff.mp he, List.dropWhile_cons_of_neg (by simp [hp])]
    rfl
  · rfl

theorem Breaks.takeWhile_append {p : Char → Bool} (hn : p '\n' = false) (hr : p '\r' = false)
    (s : Text) : (s ++ u).takeWhile p = s.takeWhile p := by
  obtain ⟨c, v, rfl, hc⟩ := hu.exists_eq_cons
  have hp : p c = false := by rcases hc with rfl | rfl <;> assumption
  rw [List.takeWhile_append]
  split
  · next he =>
    rw [List.takeWhile_cons_of_neg (by simp [hp]), List.append_nil]
    exact ((List.takeWhile_prefix p).eq_of_length he).symm
  · rfl

theorem Breaks.skipBlanks_append (s : Text) : skipBlanks (s ++ u) = skipBlanks s ++ u :=
  hu.dropWhile_append (by decide) (by decide) s

theorem Breaks.skipComment_append (s : Text) : skipComment (s ++ u) = skipComment s ++ u := by
  obtain ⟨c, v, rfl, hc⟩ := hu.exists_eq_cons
  cases s with
  | nil => rcases hc with rfl | rfl <;> rfl
  | cons d s =>
    by_cases hd : d = '#'
    · subst hd
      exact hu.dropWhile_append (by decide) (by decide) s
    · simp [skipComment, hd]

end Breaks

theorem skipTrivia_append {inComment : Bool} {s : Text} {c : Char} {rest : Text}
    (h : skipTrivia inComment s = c :: rest) (hc : c ≠ '\r') (u : Text) :
    skipTrivia inComment (s ++ u) = c :: rest ++ u := by
  fun_induction skipTrivia inComment s with
  | case1 => cases h
  | case2 b t ih => simpa [skipTrivia] using ih h
  | case3 b d t _ hd ih =>
    have hr : d = '\n' := by simpa using hd
    simpa [skipTrivia, hr] using ih h
  | case4 d t _ hn hd ih =>
    have hr : d ≠ '\r' := by
      rintro rfl
      exact absurd hd (by decide)
    have hn : d ≠ '\n' := by simpa using hn
    simpa [skipTrivia, hr, hn, hd] using ih h
  | case5 d t _ hn hd =>
    cases h
    have hn : c ≠ '\n' := by simpa using hn
    simp [skipTrivia, hc, hn, hd]
  | case6 b d t _ hn hb hd ih =>
    have hr : d = '#' := by simpa using hd
    simpa [skipTrivia, hr, hb] using ih h
  | case7 b d t _ hn hb hd hs ih =>
    have hr : d ≠ '\r' := by
      rintro rfl
      exact absurd hs (by decide)
    have hn : d ≠ '\n' := by simpa using hn
    have hd : d ≠ '#' := by simpa using hd
    simpa [skipTrivia, hr, hn, hb, hd, hs] using ih h
  | case8 b d t _ hn hb hd hs =>
    cases h
    have hn : c ≠ '\n' := by simpa using hn
    have hd : c ≠ '#' := by simpa using hd
    simp [skipTrivia, hc, hn, hb, hd, hs]

section Quotes

variable {quote c d : Char} {escapes : Bool} {rest : Text}

theorem untilQuote_quote : untilQuote quote escapes (quote :: rest) = some ([], rest) := by
  rw [untilQuote.eq_def]
  exact if_pos rfl

theorem untilQuote_escape (hc : c ≠ quote) (he : (escapes && c == '\\') = true) :
    untilQuote quote escapes (c :: d :: rest) =
      (untilQuote quote escapes rest).map fun r => (c :: d :: r.1, r.2) := by
  rw [untilQuote.eq_def]
  exact (if_neg hc).trans (if_pos he)

theorem untilQuote_char (hc : c ≠ quote) (he : ¬(escapes && c == '\\') = true) :
    untilQuote quote escapes (c :: rest) =
      (untilQuote quote escapes rest).map fun r => (c :: r.1, r.2) := by
  rw [untilQuote.eq_def]
  exact (if_neg hc).trans (if_neg he)

/-- The quotes in front of a text, as far as they may belong to the end of a string. -/
def closing (quote : Char) (s : Text) : Text := (s.takeWhile (· == quote)).take 5

theorem untilThreeQuotes_quotes (h : 3 ≤ (closing quote (c :: rest)).length) :
    untilThreeQuotes quote escapes (c :: rest) =
      some ((closing quote (c :: rest)).drop 3,
        (c :: rest).drop (closing quote (c :: rest)).length) := by
  rw [untilThreeQuotes.eq_def]
  exact if_pos h

theorem untilThreeQuotes_escape (h : ¬3 ≤ (closing quote (c :: d :: rest)).length)
    (he : (escapes && c == '\\') = true) :
    untilThreeQuotes quote escapes (c :: d :: rest) =
      (untilThreeQuotes quote escapes rest).map fun r => (c :: d :: r.1, r.2) := by
  rw [untilThreeQuotes.eq_def]
  exact (if_neg h).trans (if_pos he)

theorem untilThreeQuotes_char (h : ¬3 ≤ (closing quote (c :: rest)).length)
    (he : ¬(escapes && c == '\\') = true) :
    untilThreeQuotes quote escapes (c :: rest) =
      (untilThreeQuotes quote escapes rest).map fun r => (c :: r.1, r.2) := by
  rw [untilThreeQuotes.eq_def]
  exact (if_neg h).trans (if_neg he)

end Quotes

theorem readsOn_untilQuote (quote : Char) (escapes : Bool) (u : Text) :
    ReadsOn u id (untilQuote quote escapes) := by
  intro s body rest h
  fun_induction untilQuote quote escapes s generalizing body rest with
  | case1 | case3 => cases h
  | case2 t =>
    cases h
    exact untilQuote_quote
  | case4 c hc he d t ih =>
    obtain ⟨⟨body', rest'⟩, h, hb⟩ := Option.map_eq_some_iff.mp h
    cases hb
    rw [List.cons_append, List.cons_append, untilQuote_escape hc he, ih h]
    rfl
  | case5 c t hc he ih =>
    obtain ⟨⟨body', rest'⟩, h, hb⟩ := Option.map_eq_some_iff.mp h
    cases hb
    rw [List.cons_append, untilQuote_char hc he, ih h]
    rfl

theorem readsOn_untilThreeQuotes {u : Text} (hu : Breaks u) {quote : Char} (hn : quote ≠ '\n')
    (hr : quote ≠ '\r') (escapes : Bool) : ReadsOn u id (untilThreeQuotes quote escapes) := by
  have hq : ∀ s : Text, closing quote (s ++ u) = closing quote s := by
    intro s
    have ht := hu.takeWhile_append (p := (· == quote)) (by simpa using hn.symm)
      (by simpa using hr.symm) s
    exact congrArg (List.take 5) ht
  intro s body rest h
  fun_induction untilThreeQuotes quote escapes s generalizing body rest with
  | case1 | case3 => cases h
  | case2 c t quotes =>
    rename_i hl
    cases h
    have hs : (closing quote (c :: t)).length ≤ (c :: t).length :=
      Nat.le_trans (List.length_take_le' _ _) (List.takeWhile_prefix _).length_le
    have hl' : 3 ≤ (closing quote (c :: (t ++ u))).length := by
      rw [← List.cons_append, hq]
      exact hl
    rw [List.cons_append, untilThreeQuotes_quotes hl', ← List.cons_append, hq,
      List.drop_append_of_le_length hs]
    rfl
  | case4 c he d t quotes hl =>
    rename_i ih
    obtain ⟨⟨body', rest'⟩, h, hb⟩ := Option.map_eq_some_iff.mp h
    cases hb
    have hl' : ¬3 ≤ (closing quote (c :: d :: (t ++ u))).length := by
      rw [← List.cons_append, ← List.cons_append, hq]
      exact hl
    rw [List.cons_append, List.cons_append, untilThreeQuotes_escape hl' he, ih h]
    rfl
  | case5 c t quotes hl he =>
    rename_i ih
    obtain ⟨⟨body', rest'⟩, h, hb⟩ := Option.map_eq_some_iff.mp h
    cases hb
    have hl' : ¬3 ≤ (closing quote (c :: (t ++ u))).length := by
      rw [← List.cons_append, hq]
      exact hl
    rw [List.cons_append, untilThreeQuotes_char hl' he, ih h]
    rfl

theorem readsOn_shortString? (u : Text) : ReadsOn u id shortString? := by
  intro s t rest h
  unfold shortString? at h
  split at h
  · split at h
    · cases h
    · next hq =>
      obtain ⟨t', ht, he⟩ := Option.map_eq_some_iff.mp h
      cases he
      have hq := readsOn_untilQuote _ _ u hq
      simp_all [shortString?]
  · split at h
    · cases h
    · next hq =>
      obtain ⟨t', ht, he⟩ := Option.map_eq_some_iff.mp h
      cases he
      have hq := readsOn_untilQuote _ _ u hq
      simp_all [shortString?]
  · cases h

/-- A line break does not add to opening quotes. -/
theorem Breaks.not_opened {u : Text} (hu : Breaks u) {quote : Char} (hn : quote ≠ '\n')
    (hr : quote ≠ '\r') {s : Text} (h : ∀ rest, s = quote :: quote :: quote :: rest → False)
    (rest : Text) : s ++ u = quote :: quote :: quote :: rest → False := by
  obtain ⟨c, v, rfl, hc⟩ := hu.exists_eq_cons
  have hq : c ≠ quote := by
    rcases hc with rfl | rfl
    · exact hn.symm
    · exact hr.symm
  intro he
  match s with
  | [] | [_] | [_, _] => simp_all
  | a :: b :: d :: s =>
    simp only [List.cons_append, List.cons.injEq] at he
    obtain ⟨rfl, rfl, rfl, -⟩ := he
    exact h s rfl

theorem readsOn_string? {u : Text} (hu : Breaks u) : ReadsOn u id string? := by
  intro s t rest h
  unfold string? at h
  split at h
  · split at h
    · cases h
    · next hq =>
      obtain ⟨t', ht, he⟩ := Option.map_eq_some_iff.mp h
      cases he
      have hq := readsOn_untilThreeQuotes hu (by decide) (by decide) _ hq
      simp_all [string?]
  · split at h
    · cases h
    · next hq =>
      obtain ⟨t', ht, he⟩ := Option.map_eq_some_iff.mp h
      cases he
      have hq := readsOn_untilThreeQuotes hu (by decide) (by decide) _ hq
      simp_all [string?]
  · next hd hs =>
    have hd := hu.not_opened (by decide) (by decide) hd
    have hs := hu.not_opened (by decide) (by decide) hs
    rw [string?.eq_3 _ hd hs]
    exact readsOn_shortString? u h

theorem readsOn_key? {u : Text} (hu : Breaks u) : ReadsOn u (Key.map (.extend u)) key? := by
  intro s key rest h
  unfold key? at h
  split at h
  · cases h
  · next c t =>
    split at h
    · next hc =>
      cases h
      have hd := hu.dropWhile_append (p := isBareKeyChar) (by decide) (by decide) (c :: t)
      have ht := hu.takeWhile_append (p := isBareKeyChar) (by decide) (by decide) (c :: t)
      rw [List.cons_append] at hd ht ⊢
      rw [key?, if_pos hc, hd, ht]
      rfl
    · next hc =>
      obtain ⟨⟨name, rest'⟩, hs, he⟩ := Option.map_eq_some_iff.mp h
      cases he
      have hs := readsOn_shortString? u hs
      rw [List.cons_append] at hs ⊢
      rw [key?, if_neg hc, hs]
      rfl

/-- A turn that reads alike where the text goes on, up to a change of its item. -/
def Turn.Continues {α : Type} (u : Text) (extend : α → α) (turn : Text → Option (Turn α)) : Prop :=
  ∀ ⦃s t⦄, turn s = some t → turn (s ++ u) = some ⟨t.item.map extend, t.rest ++ u, t.more⟩

theorem Turn.Continues.readsOn_collect {α : Type} {u : Text} {extend : α → α}
    {turn : Text → Option (Turn α)} (ht : Turn.Continues u extend turn) :
    ReadsOn u (List.map extend) (collect turn) := by
  -- The longer text has a larger bound on its turns, so the two bounds are kept apart.
  have hw : ∀ {n m : Nat} {s : Text} {items : List α} {rest : Text}, n ≤ m →
      collectWithin turn n s = some (items, rest) →
      collectWithin turn m (s ++ u) = some (items.map extend, rest ++ u) := by
    intro n
    induction n with
    | zero =>
      intro m s items rest _ h
      cases h
    | succ n ih =>
      intro m s items rest hm h
      obtain ⟨m, rfl⟩ : ∃ k, m = k + 1 := ⟨m - 1, by omega⟩
      rw [collectWithin] at h
      split at h
      · cases h
      · next t hs =>
        rw [collectWithin, ht hs]
        dsimp only
        split at h
        · next hmore =>
          obtain ⟨⟨more, rest'⟩, hc, he⟩ := Option.map_eq_some_iff.mp h
          cases he
          rw [if_pos hmore, ih (by omega) hc]
          cases t.item <;> simp
        · next hmore =>
          cases h
          rw [if_neg hmore]
          cases t.item <;> simp
  intro s items rest h
  exact hw (by simp) h

theorem KeyPath.ofList?_map {π ρ : Type} (g : π → ρ) (keys : List (Key π)) :
    ofList? (keys.map (Key.map g)) = (ofList? keys).map (KeyPath.map g) := by
  simp only [ofList?, List.getLast?_map, ← List.map_dropLast, Option.map_map]
  rfl

theorem readsOn_keyPath? {u : Text} (hu : Breaks u) :
    ReadsOn u (KeyPath.map (.extend u)) keyPath? := by
  intro s path rest h
  unfold keyPath? at h ⊢
  dsimp only at h ⊢
  split at h
  · cases h
  · next keys rest' hc =>
    split at h
    · cases h
    · next hl =>
      obtain ⟨path', hp, he⟩ := Option.map_eq_some_iff.mp h
      cases he
      have hr : collect _ (s ++ u) = some (keys.map (Key.map (Extent.extend u)), rest ++ u) :=
        Turn.Continues.readsOn_collect ?_ hc
      · rw [hr]
        dsimp only
        rw [List.length_map, if_neg hl, KeyPath.ofList?_map, hp]
        rfl
      · intro s t ht
        dsimp only at ht ⊢
        rw [hu.skipBlanks_append]
        split at ht
        · cases ht
        · next key rest hk =>
          rw [readsOn_key? hu hk]
          dsimp only
          rw [hu.skipBlanks_append]
          split at ht
          · next hd =>
            cases ht
            rw [hd]
            rfl
          · next hd =>
            cases ht
            split
            · next he =>
              obtain ⟨t, ht, -⟩ := hu.eq_cons_of_append he (by decide) (by decide)
              exact absurd ht (hd t)
            · rfl

theorem Breaks.continuesWord_append {u : Text} (hu : Breaks u) (s : Text) :
    continuesWord (s ++ u) = continuesWord s := by
  obtain ⟨c, v, rfl, hc⟩ := hu.exists_eq_cons
  cases s with
  | nil => rcases hc with rfl | rfl <;> rfl
  | cons d s => rfl

theorem Breaks.word_append {u : Text} (hu : Breaks u) (s : Text) :
    word (s ++ u) = ((word s).1, (word s).2 ++ u) := by
  induction s with
  | nil =>
    obtain ⟨c, v, rfl, hc⟩ := hu.exists_eq_cons
    rcases hc with rfl | rfl <;> rfl
  | cons c s ih =>
    rw [List.cons_append, word, word, hu.skipBlanks_append, hu.continuesWord_append, ih]
    by_cases hg : (if isBlank c then continuesWord (skipBlanks s) else !endsWord c) = true
    · rw [if_pos hg, if_pos hg]
      rfl
    · rw [if_neg hg, if_neg hg]
      rfl

theorem float?_quote {c : Char} (hc : c = '"' ∨ c = '\'') (w : Text) : float? (c :: w) = none := by
  rcases hc with rfl | rfl <;>
    simp [float?, decimal?, splitSign, List.span_eq_takeWhile_dropWhile, beginsDecimal]

/-- A word that begins with a quote is no value. -/
theorem Scalar.ofWord?_quote {c : Char} (hc : c = '"' ∨ c = '\'') (w : Text) :
    ofWord? (c :: w) = none := by
  have hl : names.lookup (c :: w) = none := by
    rcases hc with rfl | rfl <;> rfl
  have hd : isDateTime (c :: w) = false := by
    rcases hc with rfl | rfl <;> rfl
  have hi : integer? (c :: w) = none := by
    rcases hc with rfl | rfl <;> rfl
  rw [ofWord?, hl, hd, hi, float?_quote hc]
  rfl

theorem string?_of_not_quote {c : Char} (hd : c ≠ '"') (hs : c ≠ '\'') (rest : Text) :
    string? (c :: rest) = none := by
  unfold string?
  split
  · simp_all
  · simp_all
  · unfold shortString?
    split <;> simp_all

/-- The word in front of a text that gives a value begins with no quote, so that the text does not
begin with a string. -/
theorem exists_eq_cons_of_ofWord? {s : Text} {value : Scalar}
    (h : Scalar.ofWord? (word s).1 = some value) : ∃ c t, s = c :: t ∧ c ≠ '"' ∧ c ≠ '\'' := by
  cases s with
  | nil =>
    rw [word, Scalar.ofWord?_nil] at h
    cases h
  | cons c t =>
    refine ⟨c, t, rfl, ?_⟩
    by_contra hc
    have hq : c = '"' ∨ c = '\'' := by
      by_cases hd : c = '"'
      · exact .inl hd
      · exact .inr (not_not.mp fun hs => hc ⟨hd, hs⟩)
    have hw : (word (c :: t)).1 = c :: (word t).1 := by
      rcases hq with rfl | rfl <;> rfl
    rw [hw, Scalar.ofWord?_quote hq] at h
    cases h

theorem readsOn_scalar? {u : Text} (hu : Breaks u) : ReadsOn u (Node.map (.extend u)) scalar? := by
  intro s node rest h
  unfold scalar? at h
  split at h
  · next hs =>
    cases h
    rw [scalar?, readsOn_string? hu hs]
    simp [Extent.extend]
  · obtain ⟨value, hv, he⟩ := Option.map_eq_some_iff.mp h
    cases he
    obtain ⟨c, t, rfl, hd, hs⟩ := exists_eq_cons_of_ofWord? hv
    rw [scalar?, List.cons_append, string?_of_not_quote hd hs, ← List.cons_append, hu.word_append,
      hv]
    simp [Extent.extend]

/-- The reader refuses a text that is empty or begins with a carriage return. -/
def RefusesReturn {α : Type} (read : Text → Option (α × Text)) : Prop :=
  read [] = none ∧ ∀ rest, read ('\r' :: rest) = none

theorem RefusesReturn.exists_eq_cons {α : Type} {read : Text → Option (α × Text)}
    (h : RefusesReturn read) {s : Text} {r : α × Text} (hs : read s = some r) :
    ∃ c t, s = c :: t ∧ c ≠ '\r' := by
  cases s with
  | nil =>
    rw [h.1] at hs
    cases hs
  | cons c t =>
    refine ⟨c, t, rfl, ?_⟩
    rintro rfl
    rw [h.2] at hs
    cases hs

theorem readsOn_bracketed {α : Type} {u : Text} {extend : α → α} {item : Text → Option (α × Text)}
    (hi : ReadsOn u extend item) (hr : RefusesReturn item) {close : Char} (hc : close ≠ '\r') :
    ReadsOn u (List.map extend) (bracketed close item) := by
  refine Turn.Continues.readsOn_collect ?_
  intro s t ht
  refine bracketTurn_eq_some_iff.mpr ?_
  obtain ⟨r, hs, rfl⟩ | ⟨c, r, a, r', d, r'', hs, hk, ha, hm, hd, rfl⟩ :=
    bracketTurn_eq_some_iff.mp ht
  · exact .inl ⟨r ++ u, skipTrivia_append hs hc u, rfl⟩
  · obtain ⟨_, _, he, hn⟩ := hr.exists_eq_cons ha
    cases he
    have hd' : d ≠ '\r' := by
      rcases hd with rfl | rfl
      · decide
      · exact hc
    exact .inr ⟨c, r ++ u, extend a, r' ++ u, d, r'' ++ u, skipTrivia_append hs hn u, hk, hi ha,
      skipTrivia_append hm hd' u, hd, rfl⟩

/-- What the skipper skips is the same where the text goes on, unless it skips all. -/
def SkipsOn (u : Text) (skip : Text → Text) : Prop :=
  ∀ ⦃s c rest⦄, skip s = c :: rest → c ≠ '\r' → skip (s ++ u) = c :: rest ++ u

theorem readsOn_assignment? {u : Text} (hu : Breaks u) {skip : Text → Text} (hs : SkipsOn u skip)
    {value : Text → Option (Node Extent × Text)} (hv : ReadsOn u (Node.map (.extend u)) value)
    (hr : RefusesReturn value) :
    ReadsOn u (Assignment.map (.extend u)) (assignment? skip value) := by
  intro s a rest h
  obtain ⟨behind, r, hk, he, hn⟩ := exists_of_assignment? h
  obtain ⟨c, t, hc, hne⟩ := hr.exists_eq_cons hn
  have hn' : value (skip (r ++ u)) = some (a.value.map (.extend u), rest ++ u) := by
    rw [hs hc hne, ← hc, hv hn]
  rw [assignment?, readsOn_keyPath? hu hk]
  dsimp only
  rw [hs he (by decide)]
  exact congrArg
    (Option.map fun r => ((⟨a.path.map (.extend u), r.1⟩ : Assignment Extent), r.2)) hn'

theorem refusesReturn_assignment? (skip : Text → Text)
    (value : Text → Option (Node Extent × Text)) : RefusesReturn (assignment? skip value) := by
  constructor
  · rfl
  · intro rest
    rfl

theorem refusesReturn_value? (depth : Nat) : RefusesReturn (value? depth) := by
  cases depth with
  | zero => exact ⟨by decide, fun rest => rfl⟩
  | succ depth => exact ⟨rfl, fun rest => rfl⟩

theorem readsOn_value? {u : Text} (hu : Breaks u) (depth : Nat) :
    ReadsOn u (Node.map (.extend u)) (value? depth) := by
  induction depth with
  | zero => exact readsOn_scalar? hu
  | succ depth ih =>
    have hr := refusesReturn_value? depth
    have hs : SkipsOn u (skipTrivia false) := fun s c rest h hc => skipTrivia_append h hc u
    intro s node rest h
    unfold value? at h
    split at h
    · obtain ⟨⟨items, rest'⟩, hi, he⟩ := Option.map_eq_some_iff.mp h
      cases he
      have hb := readsOn_bracketed ih hr (by decide) hi
      simp [value?, hb, Extent.extend]
    · split at h
      · cases h
      · next assignments rest' ha =>
        obtain ⟨entries, hi, he⟩ := Option.map_eq_some_iff.mp h
        cases he
        have hb := readsOn_bracketed (readsOn_assignment? hu hs ih hr)
          (refusesReturn_assignment? _ _) (by decide) ha
        simp [value?, hb, inlineTable?_map, hi, Extent.extend]
    · next ha hb =>
      obtain ⟨c, t, rfl, -⟩ := (refusesReturn_value? 0).exists_eq_cons h
      have hs := readsOn_scalar? hu h
      rw [List.cons_append] at hs ⊢
      unfold value?
      split
      · simp_all
      · simp_all
      · exact hs

theorem readsOn_header? {u : Text} (hu : Breaks u) (close : Text) :
    ReadsOn u (KeyPath.map (.extend u)) (header? close) := by
  intro s path rest h
  have hp : close.isPrefixOf (close ++ (rest ++ u)) = true :=
    List.isPrefixOf_iff_prefix.mpr (List.prefix_append _ _)
  rw [header?, readsOn_keyPath? hu (keyPath?_of_header? h), List.append_assoc]
  dsimp only
  rw [if_pos hp, List.drop_left]

/-- What a text with more than blanks and a comment in it states, without the end of its line. -/
def content? (s : Text) : Option (Statement Extent × Text) :=
  match s with
  | '[' :: '[' :: rest => (header? [']', ']'] rest).map fun (path, rest) =>
      (.openElement path ⟨s, rest⟩, rest)
  | '[' :: rest => (header? [']'] rest).map fun (path, rest) => (.openTable path ⟨s, rest⟩, rest)
  | _ => (assignment? skipBlanks (value? nestingLimit) s).map fun (a, rest) => (.assign a, rest)

theorem statement?_eq (s : Text) :
    statement? s =
      match lineEnd? s with
      | some rest => some (.blank, rest)
      | none =>
        match content? (skipBlanks s) with
        | none => none
        | some (statement, rest) => (lineEnd? rest).map (statement, ·) := rfl

/-- Blanks and a comment state nothing. What else stands on a line is a statement, with the end of the
line behind it. -/
theorem statement?_cases {s rest : Text} {statement : Statement Extent}
    (h : statement? s = some (statement, rest)) :
    (lineEnd? s = some rest ∧ statement = .blank) ∨
      (lineEnd? s = none ∧ ∃ behind, content? (skipBlanks s) = some (statement, behind) ∧
        lineEnd? behind = some rest) := by
  rw [statement?_eq] at h
  split at h
  · next he =>
    cases h
    exact .inl ⟨he, rfl⟩
  · next he =>
    split at h
    · cases h
    · next behind hc =>
      obtain ⟨_, hr, hs⟩ := Option.map_eq_some_iff.mp h
      cases hs
      exact .inr ⟨he, behind, hc, hr⟩

/-- A statement is a header in double or in single brackets, or an assignment. -/
theorem content?_cases {s rest : Text} {statement : Statement Extent}
    (h : content? s = some (statement, rest)) :
    (∃ t path, s = '[' :: '[' :: t ∧ header? [']', ']'] t = some (path, rest) ∧
        statement = .openElement path ⟨s, rest⟩) ∨
      (∃ t path, s = '[' :: t ∧ header? [']'] t = some (path, rest) ∧
        statement = .openTable path ⟨s, rest⟩) ∨
      ∃ a, assignment? skipBlanks (value? nestingLimit) s = some (a, rest) ∧
        statement = .assign a := by
  unfold content? at h
  split at h
  · obtain ⟨⟨path, _⟩, hp, he⟩ := Option.map_eq_some_iff.mp h
    cases he
    exact .inl ⟨_, path, rfl, hp, rfl⟩
  · obtain ⟨⟨path, _⟩, hp, he⟩ := Option.map_eq_some_iff.mp h
    cases he
    exact .inr (.inl ⟨_, path, rfl, hp, rfl⟩)
  · obtain ⟨⟨a, _⟩, ha, he⟩ := Option.map_eq_some_iff.mp h
    cases he
    exact .inr (.inr ⟨a, ha, rfl⟩)

theorem readsOn_content? {u : Text} (hu : Breaks u) :
    ReadsOn u (Statement.map (.extend u)) content? := by
  intro s statement rest h
  unfold content? at h
  split at h
  · obtain ⟨⟨path, rest'⟩, hp, he⟩ := Option.map_eq_some_iff.mp h
    cases he
    have hr := readsOn_header? hu _ hp
    simp [content?, hr, Statement.map, Extent.extend]
  · next t hb =>
    obtain ⟨⟨path, rest'⟩, hp, he⟩ := Option.map_eq_some_iff.mp h
    cases he
    have hr := readsOn_header? hu _ hp
    -- What follows the line does not make the bracket a double one.
    have hb' : ∀ r, t ++ u = '[' :: r → False := by
      intro r he
      obtain ⟨t', ht, -⟩ := hu.eq_cons_of_append he (by decide) (by decide)
      exact hb t' ht
    rw [List.cons_append, content?.eq_2 _ hb', hr]
    rfl
  · next hd hb =>
    obtain ⟨⟨a, rest'⟩, ha, he⟩ := Option.map_eq_some_iff.mp h
    cases he
    have hs : SkipsOn u skipBlanks := by
      intro s c rest h _
      rw [hu.skipBlanks_append, h]
    have hr := readsOn_assignment? hu hs (readsOn_value? hu _) (refusesReturn_value? _) ha
    have hb' : ∀ r, s ++ u = '[' :: r → False := by
      intro r he
      obtain ⟨t', ht, -⟩ := hu.eq_cons_of_append he (by decide) (by decide)
      exact hb t' ht
    rw [content?.eq_3 _ (fun r he => hb' _ he) hb', hr]
    rfl

theorem advances_content? : Advances content? := by
  intro s statement rest h
  obtain ⟨t, path, rfl, hp, -⟩ | ⟨t, path, rfl, hp, -⟩ | ⟨a, ha, -⟩ := content?_cases h
  · exact (advances_header? _ hp).in_suffix (List.suffix_append ['[', '['] t)
  · exact (advances_header? _ hp).in_suffix (List.suffix_cons _ _)
  · exact advances_assignment? skipBlanks_suffix (advances_value? _) ha

/-- The text is a whole line, without the break at its end, and states `statement`. -/
structure IsLine (line : Text) (statement : Statement Extent) : Prop where
  read : statement? line = some (statement, [])
  ended : line.getLast? ≠ some '\n'

theorem getLast?_of_suffix {s t : Text} (h : t <:+ s) (ht : t ≠ []) : s.getLast? = t.getLast? := by
  obtain ⟨r, rfl⟩ := h
  rw [List.getLast?_append, List.getLast?_eq_some_getLast ht, Option.some_or]

/-- If a line ends without a break, it ends with the text. -/
theorem skipComment_eq_nil_of_lineEnd? {s : Text} (h : lineEnd? s = some [])
    (hs : s.getLast? ≠ some '\n') : skipComment (skipBlanks s) = [] := by
  by_contra hn
  have hl := getLast?_of_suffix ((skipComment_suffix (skipBlanks s)).trans (skipBlanks_suffix s)) hn
  rw [hl] at hs
  unfold lineEnd? at h
  split at h
  · exact hn ‹_›
  · unfold lineBreak? at h
    split at h
    · next he =>
      cases h
      rw [he] at hs
      exact hs rfl
    · next he =>
      cases h
      rw [he] at hs
      exact hs rfl
    · cases h

theorem lineEnd?_append {u rest : Text} (hu : lineBreak? u = some rest) {s : Text}
    (h : skipComment (skipBlanks s) = []) : lineEnd? (s ++ u) = some rest := by
  have hb : Breaks u := Option.isSome_iff_exists.mpr ⟨rest, hu⟩
  have hk : skipComment (skipBlanks (s ++ u)) = u := by
    rw [hb.skipBlanks_append, hb.skipComment_append, h, List.nil_append]
  unfold lineEnd?
  rw [hk]
  split
  · cases hu
  · exact hu

theorem exists_eq_cons_of_content? {s : Text} {r : Statement Extent × Text}
    (h : content? s = some r) : ∃ c t, s = c :: t ∧ c ≠ '#' ∧ c ≠ '\r' := by
  obtain ⟨t, path, rfl, -⟩ | ⟨t, path, rfl, -⟩ | ⟨a, ha, -⟩ := content?_cases h
  · exact ⟨_, _, rfl, by decide, by decide⟩
  · exact ⟨_, _, rfl, by decide, by decide⟩
  · obtain ⟨c, t, rfl, hr⟩ := (refusesReturn_assignment? _ _).exists_eq_cons ha
    refine ⟨c, t, rfl, ?_, hr⟩
    rintro rfl
    cases ha

/-- A line with something on it does not become blank where the text goes on. -/
theorem lineEnd?_append_of_content? {u : Text} (hu : Breaks u) {s : Text}
    (h : lineEnd? s = none) {r : Statement Extent × Text} (hc : content? (skipBlanks s) = some r) :
    lineEnd? (s ++ u) = none := by
  obtain ⟨c, t, hs, hh, hr⟩ := exists_eq_cons_of_content? hc
  have hk : ∀ t, skipComment (c :: t) = c :: t := by
    intro t
    unfold skipComment
    split
    · next he =>
      cases he
      exact absurd rfl hh
    · rfl
  have hn : c ≠ '\n' := by
    rintro rfl
    simp [lineEnd?, hs, hk, lineBreak?] at h
  simp [lineEnd?, hu.skipBlanks_append, hs, hk, lineBreak?, hn, hr]

theorem IsLine.statement?_append {line : Text} {statement : Statement Extent}
    (h : IsLine line statement) {u rest : Text} (hu : lineBreak? u = some rest) :
    statement? (line ++ u) = some (statement.map (.extend u), rest) := by
  have hb : Breaks u := Option.isSome_iff_exists.mpr ⟨rest, hu⟩
  rw [statement?_eq]
  obtain ⟨he, rfl⟩ | ⟨he, behind, hc, hr⟩ := statement?_cases h.read
  · rw [lineEnd?_append hu (skipComment_eq_nil_of_lineEnd? he h.ended)]
    rfl
  · have hl : behind.getLast? ≠ some '\n' := by
      intro hl
      have hn : behind ≠ [] := by
        rintro rfl
        cases hl
      have hsuf := (advances_content? hc).suffix.trans (skipBlanks_suffix line)
      exact h.ended ((getLast?_of_suffix hsuf hn).trans hl)
    rw [lineEnd?_append_of_content? hb he hc]
    dsimp only
    rw [hb.skipBlanks_append, readsOn_content? hb hc]
    dsimp only
    rw [lineEnd?_append hu (skipComment_eq_nil_of_lineEnd? hr hl)]
    rfl

end SourceGen.Toml
