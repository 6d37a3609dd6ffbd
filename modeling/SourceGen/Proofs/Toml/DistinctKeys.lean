import SourceGen.Toml.Document

/-! # Distinct keys

A key is entered into a table once. Whatever the way in which a table came about, by headers, by
dotted keys or in braces, no table of a document that was read has two entries of one name. -/
namespace SourceGen.Toml

variable {π : Type}

/-- No table in the tree has two entries of one name. -/
inductive Node.Distinct : Node π → Prop where
  | scalar {place value} : Distinct (.scalar place value)
  | array {place ofTables items} :
      (∀ node ∈ items, Distinct node) → Distinct (.array place ofTables items)
  | table {place form entries} : (entries.map fun e => e.1.name).Nodup →
      (∀ e ∈ entries, Distinct e.2) → Distinct (.table place form entries)

/-- The same for a table without a place. -/
structure Table.Distinct (t : Table π) : Prop where
  names : (t.map fun e => e.1.name).Nodup
  nodes : ∀ e ∈ t, e.2.Distinct

theorem Node.distinct_table_iff {place : π} {form : TableForm} {entries : Table π} :
    (Node.table place form entries).Distinct ↔ entries.Distinct := by
  constructor
  · rintro (_ | _ | ⟨hn, hd⟩)
    exact ⟨hn, hd⟩
  · intro h
    exact .table h.names h.nodes

theorem Node.Distinct.items {place : π} {ofTables : Bool} {items : List (Node π)}
    (h : (Node.array place ofTables items).Distinct) : ∀ node ∈ items, node.Distinct := by
  cases h with
  | array h => exact h

namespace Table

variable {t t' : Table π} {key : Key π} {node : Node π} {name : Text}

theorem mem_of_find? (h : t.find? name = some node) : ∃ key, key.name = name ∧ (key, node) ∈ t := by
  fun_induction find? t name with
  | case1 => cases h
  | case2 key node' t hk =>
    cases h
    exact ⟨key, hk, List.mem_cons_self⟩
  | case3 key node' t hk ih =>
    obtain ⟨key', hn, hm⟩ := ih h
    exact ⟨key', hn, List.mem_cons_of_mem _ hm⟩

theorem find?_eq_none_iff : t.find? name = none ↔ name ∉ t.map fun e => e.1.name := by
  fun_induction find? t name with
  | case1 => simp
  | case2 key node' t hk => simp [hk]
  | case3 key node' t hk ih => simpa [Ne.symm hk] using ih

theorem distinct_nil : Distinct ([] : Table π) :=
  ⟨List.nodup_nil, fun _ he => absurd he List.not_mem_nil⟩

namespace Distinct

theorem of_find? (h : t.Distinct) (hf : t.find? name = some node) : node.Distinct := by
  obtain ⟨key, -, hm⟩ := mem_of_find? hf
  exact h.nodes _ hm

theorem insert (h : t.Distinct) (hf : t.find? key.name = none) (hn : node.Distinct) :
    (t.insert key node).Distinct := by
  constructor
  · rw [Table.insert, List.map_append, List.map_singleton, List.nodup_append]
    refine ⟨h.names, by simp, ?_⟩
    rintro a ha b hb rfl
    rw [List.mem_singleton.mp hb] at ha
    exact find?_eq_none_iff.mp hf ha
  · intro e he
    rcases List.mem_append.mp he with he | he
    · exact h.nodes e he
    · rw [List.mem_singleton.mp he]
      exact hn

theorem replace (h : t.Distinct) (hn : node.Distinct) : (t.replace name node).Distinct := by
  constructor
  · have hm : ((t.replace name node).map fun e => e.1.name) = t.map fun e => e.1.name := by
      rw [Table.replace, List.map_map]
      apply List.map_congr_left
      intro e _
      simp only [Function.comp_apply]
      split <;> rfl
    rw [hm]
    exact h.names
  · intro e he
    obtain ⟨⟨key, old⟩, hm, rfl⟩ := List.mem_map.mp he
    by_cases hk : key.name = name
    · simpa [hk] using hn
    · simpa [hk] using h.nodes _ hm

theorem erase (h : t.Distinct) (name : Text) : (t.erase name).Distinct := by
  constructor
  · exact h.names.sublist (List.filter_sublist.map _)
  · intro e he
    exact h.nodes e (List.mem_filter.mp he).1

theorem find?_erase (t : Table π) (name : Text) : (t.erase name).find? name = none := by
  rw [find?_eq_none_iff]
  intro hm
  obtain ⟨e, he, hn⟩ := List.mem_map.mp hm
  simpa [hn] using (List.mem_filter.mp he).2

/-- Where names are distinct, an entry is what is found under its name. -/
theorem find?_eq_some_iff (h : (t.map fun e => e.1.name).Nodup) :
    t.find? name = some node ↔ ∃ key, key.name = name ∧ (key, node) ∈ t := by
  refine ⟨mem_of_find?, ?_⟩
  induction t with
  | nil => simp
  | cons e t ih =>
    rintro ⟨key, rfl, hm⟩
    obtain ⟨he, ht⟩ := List.nodup_cons.mp h
    rcases List.mem_cons.mp hm with rfl | hm
    · simp [find?]
    · have hn : e.1.name ≠ key.name := by
        intro hk
        have hm : key.name ∈ t.map fun e => e.1.name := List.mem_map.mpr ⟨_, hm, rfl⟩
        rw [← hk] at hm
        exact he hm
      simpa [find?, hn] using ih ht ⟨key, rfl, hm⟩

theorem find?_perm (hp : t.Perm t') (h : (t.map fun e => e.1.name).Nodup) (name : Text) :
    t.find? name = t'.find? name := by
  have h' : (t'.map fun e => e.1.name).Nodup := (hp.map _).nodup_iff.mp h
  ext node
  rw [find?_eq_some_iff h, find?_eq_some_iff h']
  simp only [hp.mem_iff]

end Distinct

/-- The change leaves tables with distinct keys behind. -/
def Keeps (change : TableForm → Table π → Option (Table π)) : Prop :=
  ∀ ⦃form t t'⦄, change form t = some t' → t.Distinct → t'.Distinct

end Table

theorem forall_modifyLast? {α : Type} {P : α → Prop} {f : α → Option α} {l l' : List α}
    (hf : ∀ {a b}, f a = some b → P a → P b) (h : modifyLast? f l = some l')
    (hl : ∀ a ∈ l, P a) : ∀ a ∈ l', P a := by
  fun_induction modifyLast? f l generalizing l' with
  | case1 => cases h
  | case2 a =>
    obtain ⟨b, hb, rfl⟩ := Option.map_eq_some_iff.mp h
    simpa using hf hb (hl a List.mem_cons_self)
  | case3 a b rest ih =>
    obtain ⟨hd, hl⟩ := List.forall_mem_cons.mp hl
    obtain ⟨rest', hr, rfl⟩ := Option.map_eq_some_iff.mp h
    exact List.forall_mem_cons.mpr ⟨hd, ih hr hl⟩

namespace Table.Keeps

variable {change : TableForm → Table π → Option (Table π)}

theorem inTable (hc : Keeps change) {node node' : Node π} (h : node.inTable change = some node')
    (hd : node.Distinct) : node'.Distinct := by
  cases node with
  | table place form entries =>
    obtain ⟨entries', he, rfl⟩ := Option.map_eq_some_iff.mp h
    exact Node.distinct_table_iff.mpr (hc he (Node.distinct_table_iff.mp hd))
  | scalar | array => cases h

theorem inParent (hc : Keeps change) {form : TableForm} {node node' : Node π}
    (h : node.inParent form change = some node') (hd : node.Distinct) : node'.Distinct := by
  unfold Node.inParent at h
  split at h
  · obtain ⟨items, hi, rfl⟩ := Option.map_eq_some_iff.mp h
    exact .array (forall_modifyLast? hc.inTable hi hd.items)
  · split at h
    · cases h
    · exact hc.inTable h hd
  · cases h

theorem changeAt (hc : Keeps change) (form : TableForm) (path : List (Key π)) :
    Keeps (changeAt form change path) := by
  induction path with
  | nil => exact hc
  | cons key path ih =>
    intro here t t' h hd
    rw [Table.changeAt] at h
    split at h
    · next hf =>
      obtain ⟨inner, hi, rfl⟩ := Option.map_eq_some_iff.mp h
      exact hd.insert hf (Node.distinct_table_iff.mpr (ih hi distinct_nil))
    · next node hf =>
      obtain ⟨node', hn, rfl⟩ := Option.map_eq_some_iff.mp h
      exact hd.replace (inParent ih hn (hd.of_find? hf))

theorem assign (path : List (Key π)) (key : Key π) {node : Node π} (hn : node.Distinct) :
    Keeps (assign path key node) := by
  refine changeAt ?_ .dotted path
  intro here t t' h hd
  unfold enter at h
  split at h
  · cases h
  · next hf =>
    cases h
    have hf : ¬(t.find? key.name).isSome := fun hs => hf (.inr hs)
    exact hd.insert (by simpa using hf) hn

theorem openTable (key : Key π) (place : π) : Keeps fun _ => openTable key place := by
  intro _ t t' h hd
  simp only [Table.openTable] at h
  split at h
  · next hf =>
    cases h
    exact hd.insert hf (Node.distinct_table_iff.mpr distinct_nil)
  · next entries hf =>
    cases h
    have he := Node.distinct_table_iff.mp (hd.of_find? hf)
    exact (hd.erase key.name).insert (Distinct.find?_erase t key.name)
      (Node.distinct_table_iff.mpr he)
  · cases h

theorem openElement (key : Key π) (place : π) : Keeps fun _ => openElement key place := by
  intro _ t t' h hd
  have hempty : (Node.table place .header []).Distinct := Node.distinct_table_iff.mpr distinct_nil
  simp only [Table.openElement] at h
  split at h
  · next hf =>
    cases h
    exact hd.insert hf (.array (by simpa using hempty))
  · next first items hf =>
    cases h
    have hi := (hd.of_find? hf).items
    refine hd.replace (.array ?_)
    intro node hm
    rcases List.mem_append.mp hm with hm | hm
    · exact hi node hm
    · rw [List.mem_singleton.mp hm]
      exact hempty
  · cases h

end Table.Keeps

/-- What the statement assigns has distinct keys. -/
def Statement.Distinct : Statement π → Prop
  | .assign a => a.value.Distinct
  | _ => True

theorem Building.step_distinct {b b' : Building π} {statement : Statement π}
    (h : b.step statement = some b') (hs : statement.Distinct) (hb : b.root.Distinct) :
    b'.root.Distinct := by
  cases statement with
  | blank =>
    cases h
    exact hb
  | openTable path place =>
    obtain ⟨root, hr, rfl⟩ := Option.map_eq_some_iff.mp h
    exact (Table.Keeps.openTable path.key place).changeAt .parent path.parents hr hb
  | openElement path place =>
    obtain ⟨root, hr, rfl⟩ := Option.map_eq_some_iff.mp h
    exact (Table.Keeps.openElement path.key place).changeAt .parent path.parents hr hb
  | assign a =>
    obtain ⟨root, hr, rfl⟩ := Option.map_eq_some_iff.mp h
    exact (Table.Keeps.assign a.path.parents a.path.key hs).changeAt .parent b.current hr hb

/-- A fold keeps what each of its steps keeps. -/
theorem foldlM_keeps {α β : Type} {P : β → Prop} {step : β → α → Option β} {l : List α}
    (hs : ∀ a ∈ l, ∀ ⦃b b'⦄, step b a = some b' → P b → P b') {b b' : β}
    (h : l.foldlM step b = some b') (hb : P b) : P b' := by
  induction l generalizing b with
  | nil =>
    cases h
    exact hb
  | cons a l ih =>
    rw [List.foldlM_cons] at h
    obtain ⟨c, hc, h⟩ := Option.bind_eq_some_iff.mp h
    obtain ⟨ha, hs⟩ := List.forall_mem_cons.mp hs
    exact ih hs h (ha hc hb)

theorem build?_distinct {statements : List (Statement π)} {root : Table π}
    (h : build? statements = some root) (hs : ∀ s ∈ statements, s.Distinct) : root.Distinct := by
  obtain ⟨b, hb, rfl⟩ := Option.map_eq_some_iff.mp h
  exact foldlM_keeps (P := fun b => b.root.Distinct)
    (fun s hm _ _ h => Building.step_distinct h (hs s hm)) hb Table.distinct_nil

theorem forall_mem_collectWithin {α : Type} {P : α → Prop} {turn : Text → Option (Turn α)}
    (hp : ∀ {s t}, turn s = some t → ∀ a ∈ t.item, P a) {n : Nat} {s rest : Text} {items : List α}
    (h : collectWithin turn n s = some (items, rest)) : ∀ a ∈ items, P a := by
  induction n generalizing s items with
  | zero => cases h
  | succ n ih =>
    rw [collectWithin] at h
    split at h
    · cases h
    · next t ht =>
      have hi : ∀ a ∈ t.item.toList, P a := by
        simpa using hp ht
      split at h
      · obtain ⟨⟨more, rest'⟩, hm, he⟩ := Option.map_eq_some_iff.mp h
        cases he
        exact List.forall_mem_append.mpr ⟨hi, ih hm⟩
      · cases h
        exact hi

/-- What holds of each item that is read holds of all items in brackets. -/
theorem forall_mem_bracketed {α : Type} {P : α → Prop} {close : Char}
    {item : Text → Option (α × Text)} (hp : ∀ {s a rest}, item s = some (a, rest) → P a)
    {s rest : Text} {items : List α} (h : bracketed close item s = some (items, rest)) :
    ∀ a ∈ items, P a := by
  refine forall_mem_collectWithin ?_ h
  intro s t ht
  split at ht
  · cases ht
  · split at ht
    · cases ht
      simp
    · split at ht
      · cases ht
      · next hi =>
        split at ht
        · cases ht
          simpa using hp hi
        · split at ht
          · cases ht
            simpa using hp hi
          · cases ht
        · cases ht

theorem scalar?_distinct {s rest : Text} {node : Node Extent} (h : scalar? s = some (node, rest)) :
    node.Distinct := by
  unfold scalar? at h
  split at h
  · cases h
    exact .scalar
  · obtain ⟨value, -, he⟩ := Option.map_eq_some_iff.mp h
    cases he
    exact .scalar

theorem assignment?_distinct {skip : Text → Text} {value : Text → Option (Node Extent × Text)}
    (hv : ∀ {s node rest}, value s = some (node, rest) → node.Distinct) {s rest : Text}
    {a : Assignment Extent} (h : assignment? skip value s = some (a, rest)) :
    a.value.Distinct := by
  unfold assignment? at h
  split at h
  · cases h
  · split at h
    · obtain ⟨⟨node, rest'⟩, hn, he⟩ := Option.map_eq_some_iff.mp h
      cases he
      exact hv hn
    · cases h

theorem inlineTable?_distinct {assignments : List (Assignment π)} {entries : Table π}
    (h : inlineTable? assignments = some entries) (hv : ∀ a ∈ assignments, a.value.Distinct) :
    entries.Distinct :=
  foldlM_keeps (P := Table.Distinct)
    (fun a hm _ _ h => Table.Keeps.assign a.path.parents a.path.key (hv a hm) h) h Table.distinct_nil

theorem value?_distinct {depth : Nat} {s rest : Text} {node : Node Extent}
    (h : value? depth s = some (node, rest)) : node.Distinct := by
  induction depth generalizing s node rest with
  | zero => exact scalar?_distinct h
  | succ depth ih =>
    unfold value? at h
    split at h
    · obtain ⟨⟨items, rest'⟩, hi, he⟩ := Option.map_eq_some_iff.mp h
      cases he
      exact .array (forall_mem_bracketed ih hi)
    · split at h
      · cases h
      · next assignments rest' ha =>
        obtain ⟨entries, hi, he⟩ := Option.map_eq_some_iff.mp h
        cases he
        have hv := forall_mem_bracketed (P := fun a => a.value.Distinct)
          (assignment?_distinct ih) ha
        exact Node.distinct_table_iff.mpr (inlineTable?_distinct hi hv)
    · exact scalar?_distinct h

theorem statement?_distinct {s rest : Text} {statement : Statement Extent}
    (h : statement? s = some (statement, rest)) : statement.Distinct := by
  unfold statement? at h
  split at h
  · cases h
    trivial
  · dsimp only at h
    split at h
    · cases h
    · next content _ hc =>
      obtain ⟨_, -, he⟩ := Option.map_eq_some_iff.mp h
      cases he
      split at hc
      · obtain ⟨_, -, he⟩ := Option.map_eq_some_iff.mp hc
        cases he
        trivial
      · obtain ⟨_, -, he⟩ := Option.map_eq_some_iff.mp hc
        cases he
        trivial
      · obtain ⟨⟨a, _⟩, ha, he⟩ := Option.map_eq_some_iff.mp hc
        cases he
        exact assignment?_distinct value?_distinct ha

theorem statements?_distinct {s : Text} {statements : List (Statement Extent)}
    (h : statements? s = some statements) : ∀ statement ∈ statements, statement.Distinct := by
  obtain ⟨⟨items, rest⟩, hi, rfl⟩ := Option.map_eq_some_iff.mp h
  refine forall_mem_collectWithin ?_ hi
  intro s t ht
  split at ht
  · cases ht
    simp
  · obtain ⟨⟨statement, rest'⟩, hr, rfl⟩ := Option.map_eq_some_iff.mp ht
    simpa using statement?_distinct hr

/-- No table of a document has two entries of one name. -/
theorem parse?_distinct {document : Text} {root : Table Extent}
    (h : parse? document = some root) : root.Distinct := by
  obtain ⟨statements, hs, hb⟩ := Option.bind_eq_some_iff.mp h
  exact build?_distinct hb (statements?_distinct hs)

end SourceGen.Toml
