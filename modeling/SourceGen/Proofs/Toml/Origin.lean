import SourceGen.Proofs.Toml.Order

/-! # Where keys and values stand

The place of a key or of a value is a stretch of the document, and what stands there can be read again:
a key as that key, a value as that value. A table that was not written as a value is at the header that
made it, or at the key in a header or in a dotted key that did. -/
namespace SourceGen.Toml

/-- At the place stands a header in single or double brackets, and its last key has the name. -/
inductive HeaderAt (name : Text) : Extent → Prop where
  | table {rest stop path} : header? [']'] rest = some (path, stop) → path.key.name = name →
      HeaderAt name ⟨'[' :: rest, stop⟩
  | element {rest stop path} : header? [']', ']'] rest = some (path, stop) → path.key.name = name →
      HeaderAt name ⟨'[' :: '[' :: rest, stop⟩

/-- At the place stands a key of this name. -/
def KeyAt (name : Text) (place : Extent) : Prop :=
  ∃ key, key? place.start = some (key, place.stop) ∧ key.name = name

def Node.IsHeaderTable : Node Extent → Prop
  | .table _ form _ => form = .header
  | _ => False

/-- What stands at the place of a value that was found under a name. -/
def Origin (name : Text) : Node Extent → Prop
  | .table place .header _ => HeaderAt name place
  | .table place .parent _ | .table place .dotted _ => KeyAt name place
  | .array place true items => HeaderAt name place ∧ ∀ node ∈ items, node.IsHeaderTable
  | node => ∃ depth, value? depth node.place.start = some (node, node.place.stop)

/-- The key stands in the document at its place. -/
structure Key.IsIn (document : Text) (key : Key Extent) : Prop where
  start : key.place.start <:+ document
  read : key? key.place.start = some (key, key.place.stop)

/-- The value stands in the document at its place, and so does all that is in it. -/
inductive Node.IsIn (document : Text) : Text → Node Extent → Prop where
  | scalar {name place value} : place.start <:+ document → Origin name (.scalar place value) →
      IsIn document name (.scalar place value)
  | array {name place ofTables items} : place.start <:+ document →
      Origin name (.array place ofTables items) → (∀ node ∈ items, IsIn document name node) →
      IsIn document name (.array place ofTables items)
  | table {name place form entries} : place.start <:+ document →
      Origin name (.table place form entries) → (∀ e ∈ entries, Key.IsIn document e.1) →
      (∀ e ∈ entries, IsIn document e.1.name e.2) → IsIn document name (.table place form entries)

/-- The same for the entries of a table. -/
structure Table.IsIn (document : Text) (t : Table Extent) : Prop where
  keys : ∀ e ∈ t, e.1.IsIn document
  nodes : ∀ e ∈ t, e.2.IsIn document e.1.name

variable {document name : Text}

namespace Node.IsIn

variable {node : Node Extent}

theorem start (h : node.IsIn document name) : node.place.start <:+ document := by
  cases h with
  | scalar hs | array hs | table hs => exact hs

theorem origin (h : node.IsIn document name) : Origin name node := by
  cases h with
  | scalar _ ho | array _ ho | table _ ho => exact ho

theorem items {place : Extent} {ofTables : Bool} {items : List (Node Extent)}
    (h : (Node.array place ofTables items).IsIn document name) :
    ∀ node ∈ items, node.IsIn document name := by
  cases h with
  | array _ _ hi => exact hi

theorem entries {place : Extent} {form : TableForm} {entries : Table Extent}
    (h : (Node.table place form entries).IsIn document name) : entries.IsIn document := by
  cases h with
  | table _ _ hk hn => exact ⟨hk, hn⟩

/-- A table that was not written as a value may get other entries. -/
theorem table_of {place : Extent} {form : TableForm} {entries entries' : Table Extent}
    (h : (Node.table place form entries).IsIn document name) (hf : form ≠ .inline)
    (he : entries'.IsIn document) : (Node.table place form entries').IsIn document name := by
  refine .table h.start ?_ he.keys he.nodes
  have ho := h.origin
  cases form with
  | inline => exact absurd rfl hf
  | header | parent | dotted => exact ho

end Node.IsIn

namespace Table

variable {t : Table Extent} {key : Key Extent} {node : Node Extent}

theorem isIn_nil : IsIn document [] := ⟨List.forall_mem_nil _, List.forall_mem_nil _⟩

namespace IsIn

theorem of_find? (h : t.IsIn document) (hf : t.find? name = some node) :
    node.IsIn document name := by
  obtain ⟨key, rfl, hm⟩ := mem_of_find? hf
  exact h.nodes _ hm

theorem insert (h : t.IsIn document) (hk : key.IsIn document) (hn : node.IsIn document key.name) :
    (t.insert key node).IsIn document :=
  ⟨List.forall_mem_append.mpr ⟨h.keys, List.forall_mem_singleton.mpr hk⟩,
    List.forall_mem_append.mpr ⟨h.nodes, List.forall_mem_singleton.mpr hn⟩⟩

theorem replace (h : t.IsIn document) (hn : node.IsIn document name) :
    (t.replace name node).IsIn document := by
  constructor
  · intro e he
    obtain ⟨⟨key, old⟩, hm, rfl⟩ := List.mem_map.mp he
    by_cases hk : key.name = name
    · simpa [hk] using h.keys _ hm
    · simpa [hk] using h.keys _ hm
  · intro e he
    obtain ⟨⟨key, old⟩, hm, rfl⟩ := List.mem_map.mp he
    by_cases hk : key.name = name
    · simpa [hk] using hn
    · simpa [hk] using h.nodes _ hm

theorem erase (h : t.IsIn document) (name : Text) : (t.erase name).IsIn document :=
  ⟨fun e he => h.keys e (List.mem_filter.mp he).1, fun e he => h.nodes e (List.mem_filter.mp he).1⟩

end IsIn

end Table

/-- The change leaves everything where it stands. -/
def Change.KeepsPlaces (document : Text) (c : Change Extent) : Prop :=
  ∀ ⦃here t t'⦄, c here t = some t' → t.IsIn document → t'.IsIn document

namespace Change.KeepsPlaces

variable {c : Change Extent}

theorem inTable (hc : KeepsPlaces document c) {node node' : Node Extent}
    (h : node.inTable c = some node') (hd : node.IsIn document name)
    (hi : ∀ place entries, node ≠ .table place .inline entries) : node'.IsIn document name := by
  cases node with
  | scalar | array => cases h
  | table place form entries =>
    obtain ⟨entries', he, rfl⟩ := Option.map_eq_some_iff.mp h
    refine hd.table_of ?_ (hc he hd.entries)
    rintro rfl
    exact hi place entries rfl

theorem inParent (hc : KeepsPlaces document c) {form : TableForm} {node node' : Node Extent}
    (h : node.inParent form c = some node') (hd : node.IsIn document name) :
    node'.IsIn document name := by
  unfold Node.inParent at h
  split at h
  · next place items =>
    obtain ⟨items', hi, rfl⟩ := Option.map_eq_some_iff.mp h
    -- The change goes into the last element, which stays the table that a header made.
    have hm : ∀ node ∈ items', node.IsIn document name ∧ node.IsHeaderTable := by
      refine forall_modifyLast? ?_ hi fun node hn => ⟨hd.items node hn, hd.origin.2 node hn⟩
      rintro node node' hn ⟨hi, hh⟩
      refine ⟨hc.inTable hn hi ?_, ?_⟩
      · rintro place entries rfl
        cases hh
      · cases node with
        | scalar | array => cases hn
        | table =>
          obtain ⟨_, _, rfl⟩ := Option.map_eq_some_iff.mp hn
          exact hh
    exact .array hd.start ⟨hd.origin.1, fun node hn => (hm node hn).2⟩ fun node hn => (hm node hn).1
  · next place made entries =>
    split at h
    · cases h
    · next hm =>
      refine hc.inTable h hd ?_
      rintro place' entries' he
      cases he
      exact hm (.inl rfl)
  · cases h

theorem changeAt (hc : KeepsPlaces document c) {form : TableForm} (hf : form.IsOpen)
    {path : List (Key Extent)} (hp : ∀ key ∈ path, key.IsIn document) :
    KeepsPlaces document (Table.changeAt form c path) := by
  induction path with
  | nil => exact hc
  | cons key path ih =>
    obtain ⟨hk, hp⟩ := List.forall_mem_cons.mp hp
    intro here t t' h hd
    rw [Table.changeAt] at h
    split at h
    · obtain ⟨inner, hi, rfl⟩ := Option.map_eq_some_iff.mp h
      have hn := ih hp hi Table.isIn_nil
      refine hd.insert hk (.table hk.start ?_ hn.keys hn.nodes)
      rcases hf with rfl | rfl <;> exact ⟨key, hk.read, rfl⟩
    · next node hn =>
      obtain ⟨node', hi, rfl⟩ := Option.map_eq_some_iff.mp h
      exact hd.replace (inParent (ih hp) hi (hd.of_find? hn))

theorem assign {path : List (Key Extent)} (hp : ∀ key ∈ path, key.IsIn document) {key : Key Extent}
    (hk : key.IsIn document) {node : Node Extent} (hn : node.IsIn document key.name) :
    KeepsPlaces document (Table.assign path key node) := by
  refine changeAt ?_ (.inr rfl) hp
  intro here t t' h hd
  unfold Table.enter at h
  split at h
  · cases h
  · cases h
    exact hd.insert hk hn

theorem openTable {key : Key Extent} (hk : key.IsIn document) {place : Extent}
    (hs : place.start <:+ document) (hh : HeaderAt key.name place) :
    KeepsPlaces document fun _ => Table.openTable key place := by
  intro _ t t' h hd
  simp only [Table.openTable] at h
  split at h
  · cases h
    exact hd.insert hk (.table hs hh (List.forall_mem_nil _) (List.forall_mem_nil _))
  · next entries hf =>
    cases h
    have he := (hd.of_find? hf).entries
    exact (hd.erase key.name).insert hk (.table hs hh he.keys he.nodes)
  · cases h

theorem openElement {key : Key Extent} (hk : key.IsIn document) {place : Extent}
    (hs : place.start <:+ document) (hh : HeaderAt key.name place) :
    KeepsPlaces document fun _ => Table.openElement key place := by
  have hn : (Node.table place .header []).IsIn document key.name :=
    .table hs hh (List.forall_mem_nil _) (List.forall_mem_nil _)
  intro _ t t' h hd
  simp only [Table.openElement] at h
  split at h
  · cases h
    exact hd.insert hk (.array hs ⟨hh, List.forall_mem_singleton.mpr rfl⟩
      (List.forall_mem_singleton.mpr hn))
  · next first items hf =>
    cases h
    have hi := hd.of_find? hf
    refine hd.replace (.array hi.start ⟨hi.origin.1, ?_⟩ ?_)
    · exact List.forall_mem_append.mpr ⟨hi.origin.2, List.forall_mem_singleton.mpr rfl⟩
    · exact List.forall_mem_append.mpr ⟨hi.items, List.forall_mem_singleton.mpr hn⟩
  · cases h

end Change.KeepsPlaces

section Reading

variable {s rest : Text}

theorem isIn_of_key? {key : Key Extent} (h : key? s = some (key, rest)) (hs : s <:+ document) :
    key.IsIn document := by
  have hp : key.place = ⟨s, rest⟩ := by
    unfold key? at h
    split at h
    · cases h
    · split at h
      · cases h
        rfl
      · obtain ⟨_, -, he⟩ := Option.map_eq_some_iff.mp h
        cases he
        rfl
  constructor
  · rw [hp]
    exact hs
  · rw [hp]
    exact h

structure KeyPath.IsIn (document : Text) (path : KeyPath Extent) : Prop where
  parents : ∀ key ∈ path.parents, key.IsIn document
  key : path.key.IsIn document

theorem isIn_of_keyPath? {path : KeyPath Extent} (h : keyPath? s = some (path, rest))
    (hs : s <:+ document) : path.IsIn document := by
  unfold keyPath? at h
  dsimp only at h
  split at h
  · cases h
  · next keys rest' hc =>
    split at h
    · cases h
    · obtain ⟨path', hp, he⟩ := Option.map_eq_some_iff.mp h
      cases he
      have hk : ∀ key ∈ keys, key.IsIn document := by
        refine (collectWithin_keeps (I := (· <:+ document)) ?_ hs hc).1
        intro s t hs ht
        split at ht
        · cases ht
        · next key rest hk =>
          have hb := (skipBlanks_suffix s).trans hs
          have hr := (advances_key? hk).suffix.trans hb
          split at ht
          · next hd =>
            cases ht
            refine ⟨by simpa using isIn_of_key? hk hb, ?_⟩
            exact ((List.suffix_cons _ _).trans (hd ▸ skipBlanks_suffix rest)).trans hr
          · cases ht
            exact ⟨by simpa using isIn_of_key? hk hb, (skipBlanks_suffix rest).trans hr⟩
      obtain ⟨key, hl, rfl⟩ := Option.map_eq_some_iff.mp hp
      exact ⟨fun k hm => hk k ((List.dropLast_sublist keys).subset hm),
        hk key (List.mem_of_getLast? hl)⟩

/-- What holds of each item that is read in the document holds of all items in brackets. -/
theorem bracketed_keeps {α : Type} {P : α → Prop} {close : Char} {item : Text → Option (α × Text)}
    (ha : Advances item)
    (hp : ∀ {s a rest}, item s = some (a, rest) → s <:+ document → P a) {items : List α}
    (h : bracketed close item s = some (items, rest)) (hs : s <:+ document) : ∀ a ∈ items, P a := by
  refine (collectWithin_keeps (I := (· <:+ document)) ?_ hs h).1
  intro s t hs ht
  have hk := (skipTrivia_suffix false s).trans hs
  obtain ⟨r, hc, rfl⟩ | ⟨c, r, a, r', d, r'', hc, -, hi, hd, -, rfl⟩ :=
    bracketTurn_eq_some_iff.mp ht
  · rw [hc] at hk
    exact ⟨by simp, (List.suffix_cons _ _).trans hk⟩
  · rw [hc] at hk
    have hl := (skipTrivia_suffix false r').trans ((ha hi).suffix.trans hk)
    rw [hd] at hl
    exact ⟨by simpa using hp hi hk, (List.suffix_cons _ _).trans hl⟩

structure Assignment.IsIn (document : Text) (a : Assignment Extent) : Prop where
  path : a.path.IsIn document
  value : ∀ name, a.value.IsIn document name

theorem isIn_of_assignment? {skip : Text → Text} (hk : ∀ s, skip s <:+ s)
    {value : Text → Option (Node Extent × Text)}
    (hv : ∀ {s node rest}, value s = some (node, rest) → s <:+ document →
      ∀ name, node.IsIn document name)
    {a : Assignment Extent} (h : assignment? skip value s = some (a, rest)) (hs : s <:+ document) :
    a.IsIn document := by
  obtain ⟨behind, r, hp, he, hn⟩ := exists_of_assignment? h
  have hr : r <:+ document := by
    have hr := (hk behind).trans ((advances_keyPath? hp).suffix.trans hs)
    rw [he] at hr
    exact (List.suffix_cons _ _).trans hr
  exact ⟨isIn_of_keyPath? hp hs, hv hn ((hk r).trans hr)⟩

theorem isIn_of_inlineTable? {assignments : List (Assignment Extent)} {entries : Table Extent}
    (h : inlineTable? assignments = some entries) (ha : ∀ a ∈ assignments, a.IsIn document) :
    entries.IsIn document :=
  foldlM_keeps (P := Table.IsIn document)
    (fun a hm _ _ h => Change.KeepsPlaces.assign (ha a hm).path.parents (ha a hm).path.key
      ((ha a hm).value _) h) h Table.isIn_nil

theorem isIn_of_scalar? {node : Node Extent} {depth : Nat} (h : scalar? s = some (node, rest))
    (hv : value? depth s = some (node, rest)) (hs : s <:+ document) (name : Text) :
    node.IsIn document name := by
  obtain ⟨value, rfl⟩ := exists_of_scalar? h
  exact .scalar hs ⟨depth, hv⟩

theorem isIn_of_value? {depth : Nat} {node : Node Extent} (h : value? depth s = some (node, rest))
    (hs : s <:+ document) (name : Text) : node.IsIn document name := by
  induction depth generalizing s node rest name with
  | zero => exact isIn_of_scalar? h h hs name
  | succ depth ih =>
    have hv := h
    unfold value? at h
    split at h
    · next s =>
      obtain ⟨⟨items, rest'⟩, hi, he⟩ := Option.map_eq_some_iff.mp h
      cases he
      have hm := bracketed_keeps (P := fun node => ∀ name, node.IsIn document name)
        (advances_value? depth) ih hi ((List.suffix_cons _ _).trans hs)
      exact .array hs ⟨depth + 1, hv⟩ fun node hn => hm node hn name
    · next s =>
      split at h
      · cases h
      · next assignments rest' ha =>
        obtain ⟨entries, hi, he⟩ := Option.map_eq_some_iff.mp h
        cases he
        have hm := bracketed_keeps (P := Assignment.IsIn document)
          (advances_assignment? (skipTrivia_suffix false) (advances_value? depth))
          (isIn_of_assignment? (skipTrivia_suffix false) ih) ha ((List.suffix_cons _ _).trans hs)
        have he := isIn_of_inlineTable? hi hm
        exact .table hs ⟨depth + 1, hv⟩ he.keys he.nodes
    · exact isIn_of_scalar? h hv hs name

/-- What a statement says stands in the document. -/
def Statement.IsIn (document : Text) : Statement Extent → Prop
  | .blank => True
  | .openTable path place | .openElement path place =>
    path.IsIn document ∧ place.start <:+ document ∧ HeaderAt path.key.name place
  | .assign a => a.IsIn document

theorem isIn_of_statement? {statement : Statement Extent}
    (h : statement? s = some (statement, rest)) (hs : s <:+ document) : statement.IsIn document := by
  have hb := (skipBlanks_suffix s).trans hs
  obtain ⟨-, rfl⟩ | ⟨-, behind, hc, -⟩ := statement?_cases h
  · trivial
  · obtain ⟨t, path, ht, hp, rfl⟩ | ⟨t, path, ht, hp, rfl⟩ | ⟨a, ha, rfl⟩ := content?_cases hc
    · rw [ht] at hb ⊢
      have hk := (List.suffix_append ['[', '['] t).trans hb
      exact ⟨isIn_of_keyPath? (keyPath?_of_header? hp) hk, hb, .element hp rfl⟩
    · rw [ht] at hb ⊢
      have hk := (List.suffix_cons _ _).trans hb
      exact ⟨isIn_of_keyPath? (keyPath?_of_header? hp) hk, hb, .table hp rfl⟩
    · exact isIn_of_assignment? skipBlanks_suffix isIn_of_value? ha hb

theorem isIn_of_statements? {statements : List (Statement Extent)}
    (h : statements? s = some statements) (hs : s <:+ document) :
    ∀ statement ∈ statements, statement.IsIn document := by
  rw [statements?_eq] at h
  obtain ⟨⟨_, rest⟩, hc, rfl⟩ := Option.map_eq_some_iff.mp h
  refine (collectWithin_keeps (I := (· <:+ document)) ?_ hs hc).1
  intro s t hs ht
  by_cases hn : s = []
  · subst hn
    cases ht
    exact ⟨by simp, hs⟩
  · rw [statementTurn_of_ne_nil hn] at ht
    obtain ⟨⟨statement, rest'⟩, hr, rfl⟩ := Option.map_eq_some_iff.mp ht
    exact ⟨by simpa using isIn_of_statement? hr hs, (statement?_suffix hr).trans hs⟩

end Reading

structure Building.IsIn (document : Text) (b : Building Extent) : Prop where
  root : b.root.IsIn document
  current : ∀ key ∈ b.current, key.IsIn document

theorem Building.step_isIn {b b' : Building Extent} {statement : Statement Extent}
    (h : b.step statement = some b') (hs : statement.IsIn document) (hb : b.IsIn document) :
    b'.IsIn document := by
  cases statement with
  | blank =>
    cases h
    exact hb
  | openTable path place =>
    obtain ⟨root, hr, rfl⟩ := Option.map_eq_some_iff.mp h
    obtain ⟨hp, hs, hh⟩ := hs
    have hc := (Change.KeepsPlaces.openTable hp.key hs hh).changeAt (.inl rfl) hp.parents
    exact ⟨hc hr hb.root,
      List.forall_mem_append.mpr ⟨hp.parents, List.forall_mem_singleton.mpr hp.key⟩⟩
  | openElement path place =>
    obtain ⟨root, hr, rfl⟩ := Option.map_eq_some_iff.mp h
    obtain ⟨hp, hs, hh⟩ := hs
    have hc := (Change.KeepsPlaces.openElement hp.key hs hh).changeAt (.inl rfl) hp.parents
    exact ⟨hc hr hb.root,
      List.forall_mem_append.mpr ⟨hp.parents, List.forall_mem_singleton.mpr hp.key⟩⟩
  | assign a =>
    obtain ⟨root, hr, rfl⟩ := Option.map_eq_some_iff.mp h
    have hc := (Change.KeepsPlaces.assign hs.path.parents hs.path.key (hs.value _)).changeAt
      (.inl rfl) hb.current
    exact ⟨hc hr hb.root, hb.current⟩

theorem skipByteOrderMark_suffix (document : Text) : skipByteOrderMark document <:+ document := by
  unfold skipByteOrderMark
  split
  · exact List.suffix_cons _ _
  · exact List.suffix_rfl

/-- All keys and values of a document stand in it at their places. -/
theorem parse?_isIn {root : Table Extent} (h : parse? document = some root) : root.IsIn document := by
  obtain ⟨statements, hs, hb⟩ := Option.bind_eq_some_iff.mp h
  obtain ⟨b, hf, rfl⟩ := Option.map_eq_some_iff.mp hb
  have hm := isIn_of_statements? hs (skipByteOrderMark_suffix document)
  exact (foldlM_keeps (P := Building.IsIn document)
    (fun statement hmem _ _ h => Building.step_isIn h (hm statement hmem)) hf
    ⟨Table.isIn_nil, List.forall_mem_nil _⟩).root

/-- The place is a stretch of a character or more. -/
theorem HeaderAt.leftOf {place : Extent} (h : HeaderAt name place) :
    LeftOf place.stop place.start := by
  cases h with
  | table hr => exact (advances_header? _ hr).in_suffix (List.suffix_cons _ _)
  | element hr => exact (advances_header? _ hr).in_suffix (List.suffix_append ['[', '['] _)

theorem Key.IsIn.leftOf {key : Key Extent} (h : key.IsIn document) :
    LeftOf key.place.stop key.place.start := advances_key? h.read

theorem Node.IsIn.leftOf {node : Node Extent} (h : node.IsIn document name) :
    LeftOf node.place.stop node.place.start := by
  have ho := h.origin
  cases node with
  | scalar =>
    obtain ⟨_, hr⟩ := ho
    exact advances_value? _ hr
  | array place ofTables items =>
    cases ofTables with
    | false =>
      obtain ⟨_, hr⟩ := ho
      exact advances_value? _ hr
    | true => exact ho.1.leftOf
  | table place form entries =>
    cases form with
    | header => exact HeaderAt.leftOf ho
    | parent | dotted =>
      obtain ⟨_, hr, -⟩ := ho
      exact advances_key? hr
    | inline =>
      obtain ⟨_, hr⟩ := ho
      exact advances_value? _ hr

end SourceGen.Toml
