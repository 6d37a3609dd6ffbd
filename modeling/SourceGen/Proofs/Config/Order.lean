import SourceGen.Proofs.Config.Described
import SourceGen.Proofs.Config.Verdict
import SourceGen.Proofs.Toml.Order

/-! # The order of keys does not matter

Keys are visited by name. So two tables that are alike up to the order of their entries give the same
settings or have the same problem, and assignments may stand in any order. -/
namespace SourceGen

open Toml

namespace Shape

variable {π : Type}

theorem lex_eq_false_iff {a b : Text} : a.lex b = false ↔ ¬List.lt a b := by
  rw [Bool.eq_false_iff, Ne, List.lex_eq_true_iff_lt]
  rfl

theorem inNameOrder_names_sorted (t : Table π) :
    (List.map (fun e => e.1.name) (inNameOrder t)).Pairwise fun a b : Text => b.lex a = false := by
  rw [List.pairwise_map, inNameOrder]
  refine (List.pairwise_mergeSort ?_ ?_ t).imp fun h => by simpa using h
  · intro a b c hab hbc
    rw [Bool.not_eq_true', lex_eq_false_iff] at *
    exact List.le_trans hab hbc
  · intro a b
    rw [Bool.or_eq_true, Bool.not_eq_true', Bool.not_eq_true', lex_eq_false_iff, lex_eq_false_iff]
    exact List.le_total a.1.name b.1.name

theorem inNameOrder_distinct {t : Table π} (h : t.Distinct) : Table.Distinct (inNameOrder t) := by
  have hp := inNameOrder_perm t
  exact ⟨(hp.map _).nodup_iff.mpr h.names, fun e he => h.nodes e (hp.mem_iff.mp he)⟩

theorem find?_inNameOrder {t : Table π} (h : t.Distinct) (name : Text) :
    Table.find? (inNameOrder t) name = t.find? name :=
  Table.Distinct.find?_perm (inNameOrder_perm t) (inNameOrder_distinct h).names name

/-- The entries of like tables are visited in the same order, and are alike one by one. -/
theorem inNameOrder_forall₂ {t t' : Table π} (h : t.Alike t') (hd : t.Distinct) (hd' : t'.Distinct) :
    List.Forall₂ EntryAlike (inNameOrder t) (inNameOrder t') := by
  have hn : List.map (fun e => e.1.name) (inNameOrder t) =
      List.map (fun e => e.1.name) (inNameOrder t') := by
    have hp := ((inNameOrder_perm t).map _).trans
      ((h.names_perm hd hd').trans ((inNameOrder_perm t').map _).symm)
    refine hp.eq_of_pairwise ?_ (inNameOrder_names_sorted t) (inNameOrder_names_sorted t')
    intro a b _ _ hab hba
    rw [lex_eq_false_iff] at hab hba
    exact List.le_antisymm hab hba
  refine Table.Alike.forall₂ ?_ (inNameOrder_distinct hd) hn
  intro name
  rw [find?_inNameOrder hd, find?_inNameOrder hd']
  exact h name

theorem found?_alike {node node' : Node π} (h : node.Alike node') : found? node = found? node' := by
  cases h <;> rfl

theorem mismatch_alike {node node' : Node Unit} (h : node.Alike node') (expected : Expectation) :
    mismatch node expected = mismatch node' expected := by
  rw [mismatch, mismatch, found?_alike h]

theorem width_alike {node node' : Node Unit} (h : node.Alike node') : width node = width node' := by
  have hm := mismatch_alike h .width
  cases h with
  | scalar => rfl
  | array | table => exact congrArg Except.error hm

theorem isEmptyCollection_alike {node node' : Node π} (h : node.Alike node') :
    isEmptyCollection node = isEmptyCollection node' := by
  cases h with
  | scalar => rfl
  | array hi => cases hi <;> rfl
  | @table place form entries entries' ht =>
    match entries, entries' with
    | [], [] => rfl
    | _ :: _, _ :: _ => rfl
    | e :: _, [] | [], e :: _ =>
      have hr := rel_eq_none_iff (ht e.1.name)
      simp [Table.find?] at hr

theorem lineEnding_alike {node node' : Node Unit} (h : node.Alike node') (hd : node.Distinct)
    (hd' : node'.Distinct) : lineEnding node = lineEnding node' := by
  cases h with
  | scalar | array => rfl
  | @table place form entries entries' ht =>
    have hd := Node.distinct_table_iff.mp hd
    have hd' := Node.distinct_table_iff.mp hd'
    have hl := (Table.Alike.names_perm ht hd hd').length_eq
    rw [List.length_map, List.length_map] at hl
    match entries, entries', hl with
    | [], [], _ => rfl
    | [(⟨name, ()⟩, node)], [(⟨name', ()⟩, node')], _ =>
      have hp := Table.Alike.names_perm ht hd hd'
      obtain ⟨⟩ := List.singleton_perm_singleton.mp hp
      cases Table.Alike.forall₂ ht hd rfl with
      | cons he =>
        rw [lineEnding, lineEnding, isEmptyCollection_alike he.2]
    | _ :: _ :: _, _ :: _ :: _, _ => rfl

theorem setting_alike {e e' : Key Unit × Node Unit} (h : EntryAlike e e') (hd : e.2.Distinct)
    (hd' : e'.2.Distinct) (c : BuilderConfig) : setting c e = setting c e' := by
  obtain ⟨⟨name, ⟨⟩⟩, node⟩ := e
  obtain ⟨⟨name', ⟨⟩⟩, node'⟩ := e'
  obtain ⟨rfl, hn⟩ := h
  simp only [setting, width_alike hn, lineEnding_alike hn hd hd']

theorem positional_alike {items items' : List (Node Unit)} (h : List.Forall₂ Node.Alike items items')
    (hd : ∀ node ∈ items, node.Distinct) (hd' : ∀ node ∈ items', node.Distinct) :
    positional items = positional items' := by
  cases h with
  | nil => rfl
  | cons hw h =>
    cases h with
    | nil => rw [positional, positional, width_alike hw]
    | @cons e e' _ _ he _ =>
      have hl := lineEnding_alike he (hd e (by simp)) (hd' e' (by simp))
      rw [positional, positional, width_alike hw, hl]

/-- Folds over like tables agree where their steps do. -/
theorem foldlM_inNameOrder_alike {t t' : Table Unit} (h : t.Alike t') (hd : t.Distinct)
    (hd' : t'.Distinct)
    {step : BuilderConfig → Key Unit × Node Unit → Except (Fault Unit) BuilderConfig}
    (hs : ∀ {e e'}, EntryAlike e e' → e.2.Distinct → e'.2.Distinct → ∀ c, step c e = step c e')
    (c : BuilderConfig) : (inNameOrder t).foldlM step c = (inNameOrder t').foldlM step c := by
  have hf := inNameOrder_forall₂ h hd hd'
  have hn := (inNameOrder_distinct hd).nodes
  have hn' := (inNameOrder_distinct hd').nodes
  generalize inNameOrder t = l, inNameOrder t' = l' at hf hn hn'
  induction hf generalizing c with
  | nil => rfl
  | cons he _ ih =>
    obtain ⟨hh, hn⟩ := List.forall_mem_cons.mp hn
    obtain ⟨hh', hn'⟩ := List.forall_mem_cons.mp hn'
    rw [List.foldlM_cons, List.foldlM_cons, hs he hh hh']
    congr 1
    funext c'
    exact ih c' hn hn'

theorem settings_alike {node node' : Node Unit} (h : node.Alike node') (hd : node.Distinct)
    (hd' : node'.Distinct) : settings node = settings node' := by
  cases h with
  | scalar => rfl
  | array hi => exact positional_alike hi hd.items hd'.items
  | table ht =>
    exact foldlM_inNameOrder_alike ht (Node.distinct_table_iff.mp hd) (Node.distinct_table_iff.mp hd')
      setting_alike _

theorem topLevel_alike {e e' : Key Unit × Node Unit} (h : EntryAlike e e') (hd : e.2.Distinct)
    (hd' : e'.2.Distinct) (c : BuilderConfig) : topLevel c e = topLevel c e' := by
  obtain ⟨⟨name, ⟨⟩⟩, node⟩ := e
  obtain ⟨⟨name', ⟨⟩⟩, node'⟩ := e'
  obtain ⟨rfl, hn⟩ := h
  simp only [topLevel, settings_alike hn hd hd']

/-- Tables that are alike say the same. -/
theorem document_alike {root root' : Table Unit} (h : root.Alike root') (hd : root.Distinct)
    (hd' : root'.Distinct) : document root = document root' :=
  foldlM_inNameOrder_alike h hd hd' topLevel_alike _

end Shape

/-- The error without the place of its problem. -/
def LoadError.unplaced : LoadError → LoadError
  | .io path error => .io path error
  | .document source problem => .document source (problem.map fun p => (p.1, 0, 0))

/-- The same settings or the same error, but for the place of a problem, and the same records. -/
structure Load.Same (a b : Load) : Prop where
  result : a.result.mapError LoadError.unplaced = b.result.mapError LoadError.unplaced
  logs : a.logs = b.logs

theorem verdict_swap {a a' : Assignment Unit} (ha : a.value.IsClosed) (ha' : a'.value.IsClosed)
    {before behind : List (Statement Unit)}
    (hd : ∀ s ∈ before ++ .assign a :: .assign a' :: behind, s.Distinct) :
    verdict (some (before ++ .assign a :: .assign a' :: behind)) =
      verdict (some (before ++ .assign a' :: .assign a :: behind)) := by
  have hd' : ∀ s ∈ before ++ .assign a' :: .assign a :: behind, s.Distinct := by
    intro s hs
    refine hd s (List.Perm.mem_iff ?_ |>.mp hs)
    exact (List.Perm.swap ..).append_left before
  have hr := build?_swap ha ha' before behind
  rw [verdict, verdict, Option.bind_some, Option.bind_some]
  cases hb : build? (before ++ .assign a :: .assign a' :: behind) with
  | none => rw [rel_eq_none_iff hr |>.mp hb]
  | some root =>
    cases hb' : build? (before ++ .assign a' :: .assign a :: behind) with
    | none => cases (rel_eq_none_iff hr).mpr hb' ▸ hb
    | some root' =>
      rw [hb, hb'] at hr
      cases hr with
      | some hr =>
        dsimp only
        rw [Shape.document_alike hr (build?_distinct hb hd) (build?_distinct hb' hd')]

/-- The outline gives the same with the assignments in any order. -/
theorem verdict_perm {before block block' behind : List (Statement Unit)} (hp : block.Perm block')
    (ha : ∀ s ∈ block, ∃ a, s = .assign a ∧ a.value.IsClosed)
    (hd : ∀ s ∈ before ++ block ++ behind, s.Distinct) :
    verdict (some (before ++ block ++ behind)) = verdict (some (before ++ block' ++ behind)) := by
  induction hp generalizing before with
  | nil => rfl
  | cons s hp ih =>
    have hc : ∀ l, before ++ s :: l ++ behind = (before ++ [s]) ++ l ++ behind := by simp
    rw [hc] at hd
    rw [hc, hc]
    exact ih (List.forall_mem_cons.mp ha).2 hd
  | swap s s' l =>
    obtain ⟨⟨a', rfl, hc'⟩, hl⟩ := List.forall_mem_cons.mp ha
    obtain ⟨⟨a, rfl, hc⟩, -⟩ := List.forall_mem_cons.mp hl
    have he : ∀ s s', before ++ s :: s' :: l ++ behind = before ++ s :: s' :: (l ++ behind) := by simp
    rw [he] at hd
    rw [he, he]
    exact verdict_swap hc' hc hd
  | trans hp _ ih ih' =>
    rw [ih ha hd]
    refine ih' (fun s hs => ha s (hp.mem_iff.mpr hs)) fun s hs => hd s ?_
    exact ((hp.append_left before).append_right behind).mem_iff.mpr hs

namespace BuilderConfig

theorem load_same_of_verdict {document document' : Text}
    (h : verdict (outline? (skipByteOrderMark document)) =
      verdict (outline? (skipByteOrderMark document'))) (source : Text) :
    (load document source).Same (load document' source) := by
  have hr : ∀ d, (load d source).result.mapError LoadError.unplaced =
      (verdict (outline? (skipByteOrderMark d))).mapError fun problem =>
        .document source (problem.map fun p => (p, 0, 0)) := by
    intro d
    rw [← ofDocument_eq_verdict, load]
    cases ofDocument d with
    | ok c => rfl
    | error problem => cases problem <;> rfl
  have hl : ∀ d, (load d source).logs =
      (verdict (outline? (skipByteOrderMark d))).toOption.toList.map (loadRecord · source) := by
    intro d
    rw [← ofDocument_eq_verdict, load]
    cases ofDocument d <;> rfl
  exact ⟨by rw [hr, hr, h], by rw [hl, hl, h]⟩

end BuilderConfig

/-- The mark in front of a document whose lines can be read, up to the end of `block` at least. -/
theorem skipByteOrderMark_lines {mark : Text} (hm : mark = [] ∨ mark = ['\ufeff']) (e : LineEnding)
    {before block : List Text} (hb : ∀ line ∈ before, ∃ s, IsLine line s)
    (he : ∀ line ∈ block, IsEntry line ∨ IsRefused line) (hne : before ++ block ≠ [])
    (behind : List Text) :
    skipByteOrderMark (mark ++ e.join (before ++ block ++ behind)) =
      e.join (before ++ block ++ behind) := by
  have hs : ∀ line ∈ before ++ block, line.head? ≠ some '\ufeff' := by
    intro line hl
    rcases List.mem_append.mp hl with hl | hl
    · obtain ⟨s, hs⟩ := hb line hl
      exact hs.head?_ne
    · rcases he line hl with h | h
      · obtain ⟨s, hs⟩ := h.isLine
        exact hs.head?_ne
      · exact h.start
  obtain ⟨line, lines, hc⟩ := List.exists_cons_of_ne_nil hne
  rw [hc] at hs ⊢
  exact skipByteOrderMark_join hm e (hs line List.mem_cons_self) _

theorem verdict_join_perm (e : LineEnding) {before block block' : List Text} (behind : List Text)
    (hb : ∀ line ∈ before, ∃ s, IsLine line s)
    (he : ∀ line ∈ block, IsEntry line ∨ IsRefused line) (hp : block.Perm block') :
    verdict (outline? (e.join (before ++ block ++ behind))) =
      verdict (outline? (e.join (before ++ block' ++ behind))) := by
  by_cases hr : ∃ line ∈ block, IsRefused line
  -- Wherever the refused line goes, no statement is read from the document.
  · have he' : ∀ line ∈ block', IsEntry line ∨ IsRefused line := fun line hl =>
      he line (hp.mem_iff.mpr hl)
    have hr' : ∃ line ∈ block', IsRefused line := by
      obtain ⟨line, hl, hr⟩ := hr
      exact ⟨line, hp.mem_iff.mp hl, hr⟩
    rw [List.append_assoc, List.append_assoc, outline?_lines e hb, outline?_lines e hb,
      outline?_join_of_refused e he hr, outline?_join_of_refused e he' hr']
  · have hl : ∀ line ∈ block, IsEntry line := fun line hl =>
      (he line hl).resolve_right fun h => hr ⟨line, hl, h⟩
    have ho : ∀ {block : List Text}, (∀ line ∈ block, IsEntry line) →
        outline? (e.join (before ++ block ++ behind)) = (outline? (e.join behind)).map
          (before.filterMap stated? ++ block.filterMap stated? ++ ·) := by
      intro block hl
      rw [outline?_lines e (List.forall_mem_append.mpr ⟨hb, fun line hm => (hl line hm).isLine⟩),
        List.filterMap_append]
    have ho₁ := ho hl
    rw [ho₁, ho fun line hm => hl line (hp.mem_iff.mpr hm)]
    cases hs : outline? (e.join behind) with
    | none => rfl
    | some statements =>
      rw [hs, Option.map_some] at ho₁
      refine verdict_perm (hp.filterMap stated?) ?_ (outline?_distinct ho₁)
      intro s hm
      obtain ⟨line, hm, hs⟩ := List.mem_filterMap.mp hm
      exact (hl line hm).stated? hs

/-- The order of assignments that follow each other does not matter, under a header or at the top of a
document: whether the document can be read, what settings it gives and which problem is reported
follow from the lines alone. Only the place that a problem is at moves with its line. -/
theorem load_same_of_perm (e : LineEnding) {before block block' : List Text} (behind : List Text)
    (hb : ∀ line ∈ before, ∃ s, IsLine line s)
    (he : ∀ line ∈ block, IsEntry line ∨ IsRefused line) (hp : block.Perm block')
    {mark : Text} (hm : mark = [] ∨ mark = ['\ufeff']) (source : Text) :
    (BuilderConfig.load (mark ++ e.join (before ++ block ++ behind)) source).Same
      (BuilderConfig.load (mark ++ e.join (before ++ block' ++ behind)) source) := by
  by_cases hn : before ++ block = []
  · obtain ⟨rfl, rfl⟩ := List.append_eq_nil_iff.mp hn
    rw [List.nil_perm.mp hp]
    exact ⟨rfl, rfl⟩
  have hn' : before ++ block' ≠ [] := by
    intro h
    have hl := hp.append_left before
    rw [h] at hl
    exact hn (List.perm_nil.mp hl)
  have he' : ∀ line ∈ block', IsEntry line ∨ IsRefused line := fun line hl =>
    he line (hp.mem_iff.mpr hl)
  apply BuilderConfig.load_same_of_verdict
  rw [skipByteOrderMark_lines hm e hb he hn behind, skipByteOrderMark_lines hm e hb he' hn' behind]
  exact verdict_join_perm e behind hb he hp

theorem load_same_of_perm_several :
    (BuilderConfig.load (LineEnding.crlf.join ["[builder]".toList, "zz = 1".toList, [],
        "line_ending = \x7b\x7d".toList, "indent_width = [\n]".toList]) []).Same
      (BuilderConfig.load (LineEnding.crlf.join ["[builder]".toList, "indent_width = [\n]".toList,
        "line_ending = \x7b\x7d".toList, [], "zz = 1".toList]) []) ∧
    (BuilderConfig.load ('\ufeff' :: LineEnding.lf.join ["builder = 5".toList, "a = lf".toList,
        "[b]".toList]) []).Same
      (BuilderConfig.load ('\ufeff' :: LineEnding.lf.join ["a = lf".toList, "builder = 5".toList,
        "[b]".toList]) []) := by
  have hr : IsRefused "a = lf".toList := by
    refine ⟨by decide, ?_⟩
    rintro u (rfl | hu)
    · rfl
    · obtain ⟨rest, hu⟩ := Option.isSome_iff_exists.mp hu
      unfold lineBreak? at hu
      split at hu
      · rfl
      · rfl
      · cases hu
  have hp : ["zz = 1".toList, [], "line_ending = \x7b\x7d".toList, "indent_width = [\n]".toList].Perm
      ["indent_width = [\n]".toList, "line_ending = \x7b\x7d".toList, [], "zz = 1".toList] :=
    (List.reverse_perm _).symm
  constructor
  · have hb : ∀ line ∈ ["[builder]".toList], ∃ s, IsLine line s := by decide +kernel
    exact load_same_of_perm .crlf [] hb (fun line hl => .inl (by revert line; decide +kernel)) hp
      (.inl rfl) []
  · have hb : ∀ line ∈ ([] : List Text), ∃ s, IsLine line s := List.forall_mem_nil _
    have hs : ["builder = 5".toList, "a = lf".toList].Perm ["a = lf".toList, "builder = 5".toList] :=
      .swap ..
    refine load_same_of_perm .lf ["[b]".toList] hb ?_ hs (.inr rfl) []
    rintro line (_ | ⟨_, _ | ⟨_, ⟨⟩⟩⟩)
    · exact .inl (by decide +kernel)
    · exact .inr hr

end SourceGen
