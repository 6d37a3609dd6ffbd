import SourceGen.Toml.Document

/-! # What readers leave

A reader takes characters from the front of a text. What it leaves is the end of that text, and it is
shorter by a character at least. -/
namespace SourceGen.Toml

/-- What is left of `s` when a character or more is taken from its front. -/
structure LeftOf (rest s : Text) : Prop where
  suffix : rest <:+ s
  shorter : rest.length < s.length

namespace LeftOf

variable {r rest s t : Text}

theorem cons (h : rest <:+ t) (c : Char) : LeftOf rest (c :: t) :=
  ⟨h.trans (List.suffix_cons c t), Nat.lt_succ_of_le h.length_le⟩

theorem of_suffix (h : LeftOf rest s) (hr : r <:+ rest) : LeftOf r s :=
  ⟨hr.trans h.suffix, Nat.lt_of_le_of_lt hr.length_le h.shorter⟩

theorem in_suffix (h : LeftOf rest s) (hs : s <:+ t) : LeftOf rest t :=
  ⟨h.suffix.trans hs, Nat.lt_of_lt_of_le h.shorter hs.length_le⟩

end LeftOf

def Advances {α : Type} (read : Text → Option (α × Text)) : Prop :=
  ∀ ⦃s a rest⦄, read s = some (a, rest) → LeftOf rest s

theorem skipBlanks_suffix (s : Text) : skipBlanks s <:+ s := List.dropWhile_suffix isBlank

theorem lineBreak?_suffix {s rest : Text} (h : lineBreak? s = some rest) : rest <:+ s := by
  unfold lineBreak? at h
  split at h
  · cases h
    exact List.suffix_cons _ _
  · cases h
    exact (List.suffix_cons _ _).trans (List.suffix_cons _ _)
  · cases h

theorem skipComment_suffix (s : Text) : skipComment s <:+ s := by
  unfold skipComment
  split
  · exact (List.dropWhile_suffix _).trans (List.suffix_cons _ _)
  · exact List.suffix_rfl

theorem lineEnd?_suffix {s rest : Text} (h : lineEnd? s = some rest) : rest <:+ s := by
  have hs := (skipComment_suffix (skipBlanks s)).trans (skipBlanks_suffix s)
  unfold lineEnd? at h
  split at h
  · cases h
    exact List.nil_suffix
  · exact (lineBreak?_suffix h).trans hs

theorem skipTrivia_suffix (inComment : Bool) (s : Text) : skipTrivia inComment s <:+ s := by
  fun_induction skipTrivia inComment s with
  | case1 | case5 | case8 => exact List.suffix_rfl
  | case2 b t ih => exact ih.trans ((List.suffix_cons _ _).trans (List.suffix_cons _ _))
  | case3 b c t _ _ ih => exact ih.trans (List.suffix_cons _ _)
  | case4 c t _ _ _ ih => exact ih.trans (List.suffix_cons _ _)
  | case6 b c t _ _ _ _ ih => exact ih.trans (List.suffix_cons _ _)
  | case7 b c t _ _ _ _ _ ih => exact ih.trans (List.suffix_cons _ _)

theorem advances_untilQuote (quote : Char) (escapes : Bool) :
    Advances (untilQuote quote escapes) := by
  intro s body rest h
  fun_induction untilQuote quote escapes s generalizing body rest with
  | case1 | case3 => cases h
  | case2 t =>
    cases h
    exact .cons List.suffix_rfl _
  | case4 c _ _ d t ih =>
    obtain ⟨⟨body', rest'⟩, h, hb⟩ := Option.map_eq_some_iff.mp h
    cases hb
    exact (ih h).in_suffix ((List.suffix_cons _ _).trans (List.suffix_cons _ _))
  | case5 c t _ _ ih =>
    obtain ⟨⟨body', rest'⟩, h, hb⟩ := Option.map_eq_some_iff.mp h
    cases hb
    exact (ih h).in_suffix (List.suffix_cons _ _)

theorem advances_untilThreeQuotes (quote : Char) (escapes : Bool) :
    Advances (untilThreeQuotes quote escapes) := by
  intro s body rest h
  fun_induction untilThreeQuotes quote escapes s generalizing body rest with
  | case1 | case3 => cases h
  | case2 c t quotes =>
    rename_i hl
    cases h
    refine ⟨List.drop_suffix _ _, ?_⟩
    rw [List.length_drop, List.length_cons]
    omega
  | case4 c _ d t quotes _ =>
    rename_i ih
    obtain ⟨⟨body', rest'⟩, h, hb⟩ := Option.map_eq_some_iff.mp h
    cases hb
    exact (ih h).in_suffix ((List.suffix_cons _ _).trans (List.suffix_cons _ _))
  | case5 c t quotes _ _ =>
    rename_i ih
    obtain ⟨⟨body', rest'⟩, h, hb⟩ := Option.map_eq_some_iff.mp h
    cases hb
    exact (ih h).in_suffix (List.suffix_cons _ _)

theorem advances_shortString? : Advances shortString? := by
  intro s t rest h
  unfold shortString? at h
  split at h
  · split at h
    · cases h
    · next hq =>
      obtain ⟨_, -, he⟩ := Option.map_eq_some_iff.mp h
      cases he
      exact (advances_untilQuote _ _ hq).in_suffix (List.suffix_cons _ _)
  · split at h
    · cases h
    · next hq =>
      obtain ⟨_, -, he⟩ := Option.map_eq_some_iff.mp h
      cases he
      exact (advances_untilQuote _ _ hq).in_suffix (List.suffix_cons _ _)
  · cases h

theorem advances_string? : Advances string? := by
  have h3 : ∀ (c : Char) (s : Text), s <:+ c :: c :: c :: s := fun c s =>
    ((List.suffix_cons _ _).trans (List.suffix_cons _ _)).trans (List.suffix_cons _ _)
  intro s t rest h
  unfold string? at h
  split at h
  · split at h
    · cases h
    · next hq =>
      obtain ⟨_, -, he⟩ := Option.map_eq_some_iff.mp h
      cases he
      exact (advances_untilThreeQuotes _ _ hq).in_suffix (h3 _ _)
  · split at h
    · cases h
    · next hq =>
      obtain ⟨_, -, he⟩ := Option.map_eq_some_iff.mp h
      cases he
      exact (advances_untilThreeQuotes _ _ hq).in_suffix (h3 _ _)
  · exact advances_shortString? h

theorem advances_key? : Advances key? := by
  intro s key rest h
  unfold key? at h
  split at h
  · cases h
  · next c t =>
    split at h
    · next hc =>
      cases h
      rw [List.dropWhile_cons_of_pos hc]
      exact .cons (List.dropWhile_suffix _) c
    · obtain ⟨_, hs, he⟩ := Option.map_eq_some_iff.mp h
      cases he
      exact advances_shortString? hs

/-- What every turn keeps, the repetition keeps, and all its items have what those of a turn do. -/
theorem collectWithin_keeps {α : Type} {I : Text → Prop} {P : α → Prop}
    {turn : Text → Option (Turn α)}
    (ht : ∀ ⦃s t⦄, I s → turn s = some t → (∀ a ∈ t.item, P a) ∧ I t.rest) {n : Nat}
    {s rest : Text} {items : List α} (hs : I s)
    (h : collectWithin turn n s = some (items, rest)) : (∀ a ∈ items, P a) ∧ I rest := by
  induction n generalizing s items with
  | zero => cases h
  | succ n ih =>
    rw [collectWithin] at h
    split at h
    · cases h
    · next t hts =>
      obtain ⟨hp, hr⟩ := ht hs hts
      have hi : ∀ a ∈ t.item.toList, P a := by simpa using hp
      split at h
      · obtain ⟨⟨more, rest'⟩, hm, he⟩ := Option.map_eq_some_iff.mp h
        cases he
        obtain ⟨hmore, hrest⟩ := ih hr hm
        exact ⟨List.forall_mem_append.mpr ⟨hi, hmore⟩, hrest⟩
      · cases h
        exact ⟨hi, hr⟩

theorem advances_collect {α : Type} {turn : Text → Option (Turn α)}
    (ht : ∀ ⦃s t⦄, turn s = some t → LeftOf t.rest s) : Advances (collect turn) := by
  intro s items rest h
  rw [collect, collectWithin] at h
  split at h
  · cases h
  · next t hts =>
    split at h
    · obtain ⟨⟨more, rest'⟩, hm, he⟩ := Option.map_eq_some_iff.mp h
      cases he
      have hk := collectWithin_keeps (I := (· <:+ t.rest)) (P := fun _ => True)
        (fun s' t' hs hts' => ⟨fun _ _ => trivial, (ht hts').suffix.trans hs⟩) List.suffix_rfl hm
      exact (ht hts).of_suffix hk.2
    · cases h
      exact ht hts

theorem advances_keyPath? : Advances keyPath? := by
  intro s path rest h
  unfold keyPath? at h
  dsimp only at h
  split at h
  · cases h
  · next keys rest' hc =>
    split at h
    · cases h
    · obtain ⟨_, -, he⟩ := Option.map_eq_some_iff.mp h
      cases he
      refine advances_collect ?_ hc
      intro s t ht
      split at ht
      · cases ht
      · next key rest hk =>
        have hr := (advances_key? hk).in_suffix (skipBlanks_suffix s)
        split at ht
        · next hd =>
          cases ht
          exact hr.of_suffix ((List.suffix_cons _ _).trans (hd ▸ skipBlanks_suffix rest))
        · cases ht
          exact hr.of_suffix (skipBlanks_suffix rest)

/-- A turn of `bracketed`. -/
def bracketTurn {α : Type} (close : Char) (item : Text → Option (α × Text)) (s : Text) :
    Option (Turn α) :=
  match skipTrivia false s with
  | [] => none
  | c :: rest =>
    if c = close then some ⟨none, rest, false⟩
    else
      match item (c :: rest) with
      | none => none
      | some (a, rest) =>
        match skipTrivia false rest with
        | ',' :: rest => some ⟨some a, rest, true⟩
        | d :: rest => if d = close then some ⟨some a, rest, false⟩ else none
        | [] => none

/-- A turn reads the closing bracket, or an item with a comma or the closing bracket behind it. -/
theorem bracketTurn_eq_some_iff {α : Type} {close : Char} {item : Text → Option (α × Text)} {s : Text}
    {t : Turn α} : bracketTurn close item s = some t ↔
      (∃ r, skipTrivia false s = close :: r ∧ t = ⟨none, r, false⟩) ∨
        ∃ c r a r' d r'', skipTrivia false s = c :: r ∧ c ≠ close ∧ item (c :: r) = some (a, r') ∧
          skipTrivia false r' = d :: r'' ∧ (d = ',' ∨ d = close) ∧
          t = ⟨some a, r'', decide (d = ',')⟩ := by
  constructor
  · intro h
    unfold bracketTurn at h
    split at h
    · cases h
    · next c r hs =>
      split at h
      · next hc =>
        cases h
        exact .inl ⟨r, hc ▸ hs, rfl⟩
      · next hc =>
        right
        split at h
        · cases h
        · next a r' ha =>
          split at h
          · next r'' hm =>
            cases h
            exact ⟨c, r, a, r', ',', r'', hs, hc, ha, hm, .inl rfl, rfl⟩
          · next d r'' hne hm =>
            split at h
            · next hd =>
              cases h
              have hn : d ≠ ',' := by
                rintro rfl
                exact hne rfl
              exact ⟨c, r, a, r', d, r'', hs, hc, ha, hm, .inr hd, by simp [hn]⟩
            · cases h
          · cases h
  · rintro (⟨r, hs, rfl⟩ | ⟨c, r, a, r', d, r'', hs, hc, ha, hm, hd, rfl⟩)
    · rw [bracketTurn, hs]
      exact if_pos rfl
    · rw [bracketTurn, hs]
      dsimp only
      rw [if_neg hc, ha]
      dsimp only
      rw [hm]
      by_cases hn : d = ','
      · subst hn
        rfl
      · split
        · next he => exact absurd (List.cons.inj he).1 hn
        · next he =>
          cases he
          rw [if_pos (hd.resolve_left hn)]
          simp [hn]
        · next he => cases he

theorem advances_bracketed {α : Type} (close : Char) {item : Text → Option (α × Text)}
    (hi : Advances item) : Advances (bracketed close item) := by
  refine advances_collect ?_
  intro s t ht
  have hs := skipTrivia_suffix false s
  obtain ⟨r, hc, rfl⟩ | ⟨c, r, a, r', d, r'', hc, -, ha, hd, -, rfl⟩ :=
    bracketTurn_eq_some_iff.mp ht
  · exact (LeftOf.cons List.suffix_rfl close).in_suffix (hc ▸ hs)
  · have hk : d :: r'' <:+ r' := hd ▸ skipTrivia_suffix false r'
    exact ((hi ha).in_suffix (hc ▸ hs)).of_suffix ((List.suffix_cons _ _).trans hk)

theorem word_cons_cases (c : Char) (s : Text) :
    word (c :: s) = (c :: (word s).1, (word s).2) ∨ word (c :: s) = ([], c :: s) := by
  rw [word]
  by_cases hg : (if isBlank c then continuesWord (skipBlanks s) else !endsWord c) = true
  · exact .inl (if_pos hg)
  · exact .inr (if_neg hg)

theorem word_append (s : Text) : (word s).1 ++ (word s).2 = s := by
  induction s with
  | nil => rfl
  | cons c s ih =>
    rcases word_cons_cases c s with h | h
    · rw [h]
      exact congrArg (c :: ·) ih
    · rw [h]
      rfl

theorem word_suffix (s : Text) : (word s).2 <:+ s := ⟨(word s).1, word_append s⟩

theorem Scalar.ofWord?_nil : ofWord? [] = none := by decide

theorem exists_of_scalar? {s rest : Text} {node : Node Extent}
    (h : scalar? s = some (node, rest)) : ∃ value, node = .scalar ⟨s, rest⟩ value := by
  unfold scalar? at h
  split at h
  · cases h
    exact ⟨_, rfl⟩
  · obtain ⟨value, -, he⟩ := Option.map_eq_some_iff.mp h
    cases he
    exact ⟨value, rfl⟩

theorem advances_scalar? : Advances scalar? := by
  intro s node rest h
  unfold scalar? at h
  split at h
  · next hs =>
    cases h
    exact advances_string? hs
  · obtain ⟨value, hv, he⟩ := Option.map_eq_some_iff.mp h
    cases he
    refine ⟨word_suffix s, ?_⟩
    have hl := congrArg List.length (word_append s)
    rw [List.length_append] at hl
    have hn : (word s).1 ≠ [] := by
      intro hn
      rw [hn, Scalar.ofWord?_nil] at hv
      cases hv
    have hp := List.length_pos_iff.mpr hn
    omega

/-- An assignment is read as a key path, an equals sign and a value. -/
theorem exists_of_assignment? {skip : Text → Text} {value : Text → Option (Node Extent × Text)}
    {s rest : Text} {a : Assignment Extent} (h : assignment? skip value s = some (a, rest)) :
    ∃ behind r, keyPath? s = some (a.path, behind) ∧ skip behind = '=' :: r ∧
      value (skip r) = some (a.value, rest) := by
  unfold assignment? at h
  split at h
  · cases h
  · next path behind hk =>
    split at h
    · next r he =>
      obtain ⟨⟨node, _⟩, hn, ha⟩ := Option.map_eq_some_iff.mp h
      cases ha
      exact ⟨behind, r, hk, he, hn⟩
    · cases h

theorem advances_assignment? {skip : Text → Text} (hs : ∀ s, skip s <:+ s)
    {value : Text → Option (Node Extent × Text)} (hv : Advances value) :
    Advances (assignment? skip value) := by
  intro s a rest h
  obtain ⟨behind, r, hk, he, hn⟩ := exists_of_assignment? h
  have hr : r <:+ behind := (List.suffix_cons _ _).trans (he ▸ hs behind)
  exact (advances_keyPath? hk).of_suffix ((hv hn).suffix.trans ((hs r).trans hr))

theorem advances_value? (depth : Nat) : Advances (value? depth) := by
  induction depth with
  | zero => exact advances_scalar?
  | succ depth ih =>
    intro s node rest h
    unfold value? at h
    split at h
    · obtain ⟨_, hi, he⟩ := Option.map_eq_some_iff.mp h
      cases he
      exact (advances_bracketed _ ih hi).in_suffix (List.suffix_cons _ _)
    · split at h
      · cases h
      · next ha =>
        obtain ⟨_, -, he⟩ := Option.map_eq_some_iff.mp h
        cases he
        have hm := advances_assignment? (skipTrivia_suffix false) ih
        exact (advances_bracketed _ hm ha).in_suffix (List.suffix_cons _ _)
    · exact advances_scalar? h

/-- A header is read as a key path and the brackets that close it. -/
theorem keyPath?_of_header? {close s rest : Text} {path : KeyPath Extent}
    (h : header? close s = some (path, rest)) : keyPath? s = some (path, close ++ rest) := by
  unfold header? at h
  split at h
  · cases h
  · next hk =>
    split at h
    · next hc =>
      obtain ⟨r, rfl⟩ := List.isPrefixOf_iff_prefix.mp hc
      rw [List.drop_left] at h
      cases h
      exact hk
    · cases h

theorem advances_header? (close : Text) : Advances (header? close) := by
  intro s path rest h
  exact (advances_keyPath? (keyPath?_of_header? h)).of_suffix (List.suffix_append _ _)

end SourceGen.Toml
