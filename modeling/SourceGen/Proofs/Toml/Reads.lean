import Mathlib.Data.List.TakeWhile
import SourceGen.Proofs.Toml.Outline

/-! # Reading what was written

What a reader takes from the front of a text that was put together from known parts: assignments, items
in brackets and whole lines. Places are left out, as nothing depends on them. -/
namespace SourceGen.Toml

/-- The reader takes `b`, but for its places, and leaves the rest. -/
def Reads {α β : Type} (read : Text → Option (α × Text)) (erase : α → β) (s : Text) (b : β)
    (rest : Text) : Prop := ∃ a, read s = some (a, rest) ∧ erase a = b

def KeyPath.bare (path : KeyPath Extent) : KeyPath Unit := path.map fun _ => ()

def Assignment.bare (a : Assignment Extent) : Assignment Unit := a.map fun _ => ()

/-- The line says just this. -/
def Says (line : Text) (statement : Statement Unit) : Prop :=
  (∃ s, IsLine line s) ∧ stated? line = some statement

/-- Nothing is skipped in front of the text. -/
def Solid (s : Text) : Prop := skipBlanks s = s ∧ skipTrivia false s = s

theorem solid_cons {c : Char} (h : c ∉ [' ', '\t', '\n', '\r', '#']) (s : Text) : Solid (c :: s) := by
  simp only [List.mem_cons, List.not_mem_nil, or_false, not_or] at h
  obtain ⟨hs, ht, hn, hr, hc⟩ := h
  have hb : isBlank c = false := by simp [isBlank, hs, ht]
  constructor
  · rw [skipBlanks, List.dropWhile_cons_of_neg (by simp [hb])]
  · unfold skipTrivia
    split
    · next he => cases he
    · next he => exact absurd (List.cons.inj he).1 hr
    · next d rest _ he =>
      obtain ⟨rfl, rfl⟩ := List.cons.inj he
      simp [hn, hc, hb]

/-- A blank line or a comment. -/
inductive IsFiller : Text → Prop where
  | blank {s} : (∀ c ∈ s, isBlank c = true) → IsFiller s
  | comment {s t} : (∀ c ∈ s, isBlank c = true) → (∀ c ∈ t, isTextChar c = true) →
      IsFiller (s ++ '#' :: t)

theorem isFiller_isLine {line : Text} (h : IsFiller line) : IsLine line .blank := by
  have hb : ∀ {s : Text}, (∀ c ∈ s, isBlank c = true) → '\n' ∉ s := fun h hm => by cases h _ hm
  have hl : lineEnd? line = some [] ∧ '\n' ∉ line := by
    cases h with
    | @blank s h =>
      have hs : skipBlanks line = [] := List.dropWhile_eq_nil_iff.mpr h
      exact ⟨by rw [lineEnd?, hs]; rfl, hb h⟩
    | @comment s t hs ht =>
      have hk : skipBlanks (s ++ '#' :: t) = '#' :: t := by
        rw [skipBlanks, List.dropWhile_append_of_pos hs, List.dropWhile_cons_of_neg (by decide)]
      have hc : skipComment ('#' :: t) = [] := List.dropWhile_eq_nil_iff.mpr ht
      refine ⟨by rw [lineEnd?, hk, hc], ?_⟩
      simp only [List.mem_append, List.mem_cons, not_or]
      exact ⟨hb hs, by decide, fun hm => by cases ht _ hm⟩
  constructor
  · rw [statement?_eq, hl.1]
  · intro hm
    exact hl.2 (List.mem_of_getLast? hm)

theorem reads_assignment {skip : Text → Text} (hs : skip = skipBlanks ∨ skip = skipTrivia false)
    {value : Text → Option (Node Extent × Text)} {k v rest : Text} {path : KeyPath Unit}
    {node : Node Unit}
    (hk : Reads keyPath? KeyPath.bare (k ++ " = ".toList ++ v) path ("= ".toList ++ v))
    (hv : Solid v) (hr : Reads value Node.bare v node rest) :
    Reads (assignment? skip value) Assignment.bare (k ++ " = ".toList ++ v) ⟨path, node⟩ rest := by
  obtain ⟨path', hk, rfl⟩ := hk
  obtain ⟨node', hr, rfl⟩ := hr
  have he : skip ("= ".toList ++ v) = '=' :: ' ' :: v := by rcases hs with rfl | rfl <;> rfl
  have hb : skip (' ' :: v) = v := by
    rcases hs with rfl | rfl
    · exact hv.1
    · exact hv.2
  refine ⟨⟨path', node'⟩, ?_, rfl⟩
  simp only [assignment?, hk, he, hb, hr, Option.map_some]

/-- An assignment that fills a line is what the line says. -/
theorem says_assign {line : Text} (hc : ∃ c ∈ line.head?, isBareKeyChar c = true)
    {a : Assignment Unit}
    (h : Reads (assignment? skipBlanks (value? nestingLimit)) Assignment.bare line a [])
    (hn : line.getLast? ≠ some '\n') : Says line (.assign a) := by
  obtain ⟨a', ha, rfl⟩ := h
  obtain ⟨c, hl, hc⟩ := hc
  obtain ⟨s, rfl⟩ := List.head?_eq_some_iff.mp hl
  have hm : c ∉ [' ', '\t', '\n', '\r', '#', '['] := by
    intro hm
    have hf : ∀ d ∈ [' ', '\t', '\n', '\r', '#', '['], isBareKeyChar d = false := by
      simp [isBareKeyChar]
    rw [hf c hm] at hc
    cases hc
  have hs : Solid (c :: s) := solid_cons (fun h => hm (List.mem_append_left ['['] h)) s
  have hk : skipComment (c :: s) = c :: s := by
    unfold skipComment
    split
    · next he =>
      cases he
      simp at hm
    · rfl
  have hb : lineEnd? (c :: s) = none := by
    rw [lineEnd?, hs.1, hk]
    unfold lineBreak?
    split
    · next he => cases he
    · split
      · next he =>
        cases he
        simp at hm
      · next he =>
        cases he
        simp at hm
      · rfl
  have ht : content? (c :: s) = some (.assign a', []) := by
    unfold content?
    split
    · next he =>
      cases he
      simp at hm
    · next he =>
      cases he
      simp at hm
    · rw [ha]
      rfl
  have hr : statement? (c :: s) = some (.assign a', []) := by
    rw [statement?_eq, hb, hs.1]
    dsimp only
    rw [ht]
    rfl
  exact ⟨⟨_, hr, hn⟩, by rw [stated?, hr]; rfl⟩

/-- The text is read as one item if a comma or the text `tail` follows. -/
structure IsItem {α β : Type} (close : Char) (item : Text → Option (α × Text)) (erase : α → β)
    (tail text : Text) (b : β) : Prop where
  first : ∃ c s, text = c :: s ∧ c ≠ close ∧ c ∉ [' ', '\t', '\n', '\r', '#']
  read : ∀ u, u.head? = some ',' ∨ u = tail → Reads item erase (text ++ u) b u

section Bracketed

variable {α β : Type} {close : Char} {item : Text → Option (α × Text)} {erase : α → β}
  {tail rest text lead : Text} {b : β}

theorem skipTrivia_lead (hl : lead = [] ∨ lead = [' ']) (s : Text) :
    skipTrivia false (lead ++ s) = skipTrivia false s := by
  rcases hl with rfl | rfl <;> rfl

theorem IsItem.bracketTurn (h : IsItem close item erase tail text b) (hl : lead = [] ∨ lead = [' '])
    {u r : Text} (hu : u.head? = some ',' ∨ u = tail) {d : Char} (hr : skipTrivia false u = d :: r)
    (hd : d = ',' ∨ d = close) :
    ∃ a, erase a = b ∧ bracketTurn close item (lead ++ (text ++ u)) =
      some ⟨some a, r, decide (d = ',')⟩ := by
  obtain ⟨a, ha, hb⟩ := h.read u hu
  obtain ⟨c, s, rfl, hc, hm⟩ := h.first
  refine ⟨a, hb, bracketTurn_eq_some_iff.mpr (.inr ⟨c, s ++ u, a, u, d, r, ?_, hc, ha, hr, hd, rfl⟩)⟩
  rw [skipTrivia_lead hl]
  exact (solid_cons hm _).2

theorem reads_collectWithin (hc : close ≠ ',') (ht : skipTrivia false tail = close :: rest)
    {texts : List Text} {items : List β}
    (h : List.Forall₂ (IsItem close item erase tail) texts items) (hl : lead = [] ∨ lead = [' '])
    {n : Nat} (hn : texts.length < n) :
    Reads (collectWithin (bracketTurn close item) n) (List.map erase)
      (lead ++ (", ".toList.intercalate texts ++ tail)) items rest := by
  induction h generalizing n lead with
  | nil =>
    obtain ⟨n, rfl⟩ := Nat.exists_eq_add_one.mpr hn
    have hs : skipTrivia false (lead ++ tail) = close :: rest := by rw [skipTrivia_lead hl, ht]
    exact ⟨[], by simp [collectWithin, bracketTurn, hs], rfl⟩
  | @cons text b texts items hi hr ih =>
    obtain ⟨n, rfl⟩ := Nat.exists_eq_add_one.mpr (Nat.zero_lt_of_lt hn)
    by_cases he : texts = []
    · subst he
      cases hr
      obtain ⟨a, rfl, ha⟩ := hi.bracketTurn hl (.inr rfl) ht (.inr rfl)
      have hj : ", ".toList.intercalate [text] = text := by simp
      exact ⟨[a], by simp [collectWithin, ha, hc], rfl⟩
    · have hj : lead ++ (", ".toList.intercalate (text :: texts) ++ tail) =
          lead ++ (text ++ ',' :: ([' '] ++ (", ".toList.intercalate texts ++ tail))) := by
        rw [List.intercalate_cons_of_ne_nil he]
        simp
      obtain ⟨a, rfl, ha⟩ := hi.bracketTurn hl (.inl rfl)
        (u := ',' :: ([' '] ++ (", ".toList.intercalate texts ++ tail))) rfl (.inl rfl)
      obtain ⟨more, hm, rfl⟩ := ih (.inr rfl) (Nat.lt_of_succ_lt_succ hn)
      refine ⟨a :: more, ?_, rfl⟩
      rw [hj, collectWithin, ha]
      exact congrArg (Option.map fun r => (a :: r.1, r.2)) hm

theorem length_le_intercalate (s : Text) {texts : List Text} (h : ∀ t ∈ texts, t ≠ []) :
    texts.length ≤ (s.intercalate texts).length := by
  induction texts with
  | nil => exact Nat.zero_le _
  | cons t texts ih =>
    obtain ⟨ht, h⟩ := List.forall_mem_cons.mp h
    have hp := List.length_pos_iff.mpr ht
    by_cases he : texts = []
    · subst he
      simpa using Nat.succ_le_of_lt hp
    · have hl := ih h
      rw [List.intercalate_cons_of_ne_nil he, List.length_cons, List.length_append,
        List.length_append]
      omega

/-- What is written in brackets with commas between is read item by item. -/
theorem reads_bracketed (hc : close ≠ ',') (ht : skipTrivia false tail = close :: rest)
    {texts : List Text} {items : List β}
    (h : List.Forall₂ (IsItem close item erase tail) texts items) (hl : lead = [] ∨ lead = [' ']) :
    Reads (bracketed close item) (List.map erase)
      (lead ++ (", ".toList.intercalate texts ++ tail)) items rest := by
  have hne : ∀ t ∈ texts, t ≠ [] := by
    clear hl ht
    induction h with
    | nil => exact List.forall_mem_nil _
    | cons hi _ ih =>
      obtain ⟨c, s, he, -⟩ := hi.first
      exact List.forall_mem_cons.mpr ⟨by simp [he], ih⟩
  have hlen := length_le_intercalate ", ".toList hne
  refine reads_collectWithin hc ht h hl ?_
  rw [List.length_append, List.length_append]
  omega

end Bracketed

theorem reads_array {depth : Nat} {s rest : Text} {items : List (Node Unit)}
    (h : Reads (bracketed ']' (value? depth)) (List.map Node.bare) s items rest) :
    Reads (value? (depth + 1)) Node.bare ('[' :: s) (.array () false items) rest := by
  obtain ⟨items, h, rfl⟩ := h
  refine ⟨.array ⟨'[' :: s, rest⟩ false items, ?_, Node.map_array ..⟩
  rw [value?, h]
  rfl

theorem reads_inlineTable {depth : Nat} {s rest : Text} {assignments : List (Assignment Unit)}
    {entries : Table Unit}
    (h : Reads (bracketed '\x7d' (assignment? (skipTrivia false) (value? depth)))
      (List.map Assignment.bare) s assignments rest)
    (he : inlineTable? assignments = some entries) :
    Reads (value? (depth + 1)) Node.bare ('\x7b' :: s) (.table () .inline entries) rest := by
  obtain ⟨assignments, h, rfl⟩ := h
  obtain ⟨t, ht, rfl⟩ := Option.map_eq_some_iff.mp ((inlineTable?_map _ assignments).symm.trans he)
  refine ⟨.table ⟨'\x7b' :: s, rest⟩ .inline t, ?_, Node.map_table ..⟩
  rw [value?, h]
  dsimp only
  rw [ht]
  rfl

end SourceGen.Toml
