import SourceGen.Proofs.Toml.Alike
import SourceGen.Proofs.Toml.Outline

/-! # The order of assignments

Assignments under one header may be made in any order. Those that start with different names do not
meet. Those that start with the same name either meet again inside one table or exclude each other, and
then they do so in both orders. -/
namespace SourceGen.Toml

variable {π : Type}

def Change.andThen (c d : Change π) : Change π := fun here t => (c here t).bind (d here)

def Alteration.andThen (f g : Alteration π) : Alteration π := fun here o =>
  (f here o).bind fun node => g here (some node)

/-- Like tables stay alike when one is changed by `c` and then `d`, the other by `d` and then `c`. -/
def Change.Commute (c d : Change π) : Prop := Change.Agree (c.andThen d) (d.andThen c)

namespace Change

variable {name name' : Text} {f g : Alteration π} {c d : Change π}

/-- What the names lead to after two alterations. -/
theorem Alters.map_find?_andThen (hc : Alters name f c) (hd : Alters name' g d) (here : TableForm)
    (t : Table π) :
    (c.andThen d here t).map Table.find? = (f here (t.find? name)).bind fun a =>
      (g here (Function.update (Table.find? t) name (some a) name')).map fun b =>
        Function.update (Function.update (Table.find? t) name (some a)) name' (some b) := by
  have hc := hc here t
  rw [Change.andThen]
  cases hf : f here (t.find? name) with
  | none =>
    rw [hf, Option.map_none, Option.map_eq_none_iff] at hc
    rw [hc]
    rfl
  | some a =>
    rw [hf, Option.map_some, Option.map_eq_some_iff] at hc
    obtain ⟨t', ht, hl⟩ := hc
    rw [ht, Option.bind_some, Option.bind_some, hd here t', hl]

theorem Alters.andThen (hc : Alters name f c) (hd : Alters name g d) :
    Alters name (f.andThen g) (c.andThen d) := by
  intro here t
  rw [hc.map_find?_andThen hd, Alteration.andThen, Option.map_bind]
  simp only [Function.update_self, Function.update_idem]
  rfl

/-- Changes under different names do not meet. -/
theorem Alters.commute_of_ne (hc : Alters name f c) (hd : Alters name' g d) (hn : name ≠ name')
    (hf : f.Agree f) (hg : g.Agree g) : Commute c d := by
  intro here t t' ht
  apply rel_of_map_find?
  rw [hc.map_find?_andThen hd, hd.map_find?_andThen hc]
  simp only [Function.update_of_ne hn, Function.update_of_ne hn.symm]
  have hrf := hf here (ht name)
  have hrg := hg here (ht name')
  revert hrf hrg
  generalize f here (Table.find? t name) = a, f here (Table.find? t' name) = a',
    g here (Table.find? t name') = b, g here (Table.find? t' name') = b'
  rintro (ha | _) (hb | _)
  · have hl := (ht.update name ha).update name' hb
    rw [Function.update_comm hn (some _) _ (Table.find? t')] at hl
    exact .some hl
  · exact .none
  · exact .none
  · exact .none

end Change

theorem modifyLast?_ne_nil {α : Type} {f : α → Option α} {l l' : List α}
    (h : modifyLast? f l = some l') : l' ≠ [] := by
  fun_cases modifyLast? f l with
  | case1 => cases h
  | case2 a =>
    obtain ⟨b, -, rfl⟩ := Option.map_eq_some_iff.mp h
    exact List.cons_ne_nil _ _
  | case3 a b rest =>
    obtain ⟨rest', -, rfl⟩ := Option.map_eq_some_iff.mp h
    exact List.cons_ne_nil _ _

theorem modifyLast?_bind {α : Type} (f g : α → Option α) (l : List α) :
    (modifyLast? f l).bind (modifyLast? g) = modifyLast? (fun a => (f a).bind g) l := by
  fun_induction modifyLast? f l with
  | case1 => rfl
  | case2 a =>
    rw [modifyLast?]
    cases f a <;> rfl
  | case3 a b rest ih =>
    rw [modifyLast?, ← ih]
    cases hr : modifyLast? f (b :: rest) with
    | none => rfl
    | some l =>
      obtain ⟨c, l, rfl⟩ := List.exists_cons_of_ne_nil (modifyLast?_ne_nil hr)
      rfl

namespace Node

variable {c d : Change π}

theorem inTable_andThen (node : Node π) :
    (node.inTable c).bind (inTable d) = node.inTable (c.andThen d) := by
  cases node with
  | scalar | array => rfl
  | table place form entries =>
    rw [inTable, inTable, Change.andThen]
    cases c form entries <;> rfl

theorem inParent_andThen (form : TableForm) (node : Node π) :
    (node.inParent form c).bind (inParent form d) = node.inParent form (c.andThen d) := by
  cases node with
  | scalar => rfl
  | array place ofTables items =>
    cases ofTables with
    | false => rfl
    | true =>
      have hi := modifyLast?_bind (inTable c) (inTable d) items
      rw [funext inTable_andThen] at hi
      rw [inParent, inParent, ← hi]
      cases modifyLast? (inTable c) items <;> rfl
  | table place made entries =>
    have ht := inTable_andThen (c := c) (d := d) (.table place made entries)
    simp only [inParent]
    split
    · rfl
    · next hm =>
      rw [← ht, inTable]
      cases c made entries with
      | none => rfl
      | some entries' => simp [inParent, hm]

end Node

/-- The table at a key may come from the header or the dotted key that is read. -/
def TableForm.IsOpen (form : TableForm) : Prop := form = .parent ∨ form = .dotted

namespace Change.Commute

variable {c d : Change π}

theorem through (h : Commute c d) {form : TableForm} (hf : form.IsOpen) (key : Key π) :
    Alteration.Agree ((Alteration.through form c key).andThen (.through form d key))
      ((Alteration.through form d key).andThen (.through form c key)) := by
  rintro here o o' (hn | _)
  · have hp := h.inParent form hn
    rwa [← Node.inParent_andThen, ← Node.inParent_andThen] at hp
  · have hm := rel_map (s := Node.Alike) (f := .table key.place form) (g := .table key.place form)
      (h form (.refl [])) fun _ _ => Node.Alike.table_iff.mpr
    have he : ∀ c d : Change π,
        (Alteration.through form c key).andThen (.through form d key) here none =
          (c.andThen d form []).map (.table key.place form) := by
      intro c d
      rw [Alteration.andThen, Alteration.through, Change.andThen]
      cases c form [] with
      | none => rfl
      | some t =>
        have ho : ¬(form = .inline ∨ form = .dotted ∧ form = .header) := by
          rcases hf with rfl | rfl <;> simp
        simp [Alteration.through, Node.inParent, ho, Node.inTable]
    rwa [he, he]

theorem changeAt (h : Commute c d) {form : TableForm} (hf : form.IsOpen) (path : List (Key π)) :
    Commute (Table.changeAt form c path) (Table.changeAt form d path) := by
  induction path with
  | nil => exact h
  | cons key path ih =>
    have hc := alters_changeAt_cons form c key path
    have hd := alters_changeAt_cons form d key path
    exact (hc.andThen hd).agree (hd.andThen hc) (ih.through hf key)

end Change.Commute

/-- A value that was read in one piece. Nothing goes into it afterwards. -/
def Node.IsClosed : Node π → Prop
  | .scalar _ _ => True
  | .array _ ofTables _ => ofTables = false
  | .table _ form _ => form = .inline

theorem Node.IsClosed.inParent {node : Node π} (h : node.IsClosed) (form : TableForm)
    (c : Change π) : node.inParent form c = none := by
  cases node with
  | scalar => rfl
  | array place ofTables items =>
    cases h
    rfl
  | table place made entries =>
    cases h
    simp [Node.inParent]

theorem Node.IsClosed.map {node : Node π} (h : node.IsClosed) {ρ : Type} (g : π → ρ) :
    (node.map g).IsClosed := by
  cases node with
  | scalar => trivial
  | array =>
    rw [map_array]
    exact h
  | table =>
    rw [map_table]
    exact h

theorem scalar?_closed {s rest : Text} {node : Node Extent} (h : scalar? s = some (node, rest)) :
    node.IsClosed := by
  obtain ⟨value, rfl⟩ := exists_of_scalar? h
  trivial

theorem value?_closed {depth : Nat} {s rest : Text} {node : Node Extent}
    (h : value? depth s = some (node, rest)) : node.IsClosed := by
  unfold value? at h
  split at h
  · exact scalar?_closed h
  · split at h
    · obtain ⟨⟨items, rest'⟩, -, he⟩ := Option.map_eq_some_iff.mp h
      cases he
      rfl
    · split at h
      · cases h
      · obtain ⟨entries, -, he⟩ := Option.map_eq_some_iff.mp h
        cases he
        rfl
    · exact scalar?_closed h

theorem statement?_closed {s rest : Text} {a : Assignment Extent}
    (h : statement? s = some (.assign a, rest)) : a.value.IsClosed := by
  obtain ⟨-, hs⟩ | ⟨-, behind, hc, -⟩ := statement?_cases h
  · cases hs
  · obtain ⟨_, _, -, -, hs⟩ | ⟨_, _, -, -, hs⟩ | ⟨_, ha, hs⟩ := content?_cases hc
    · cases hs
    · cases hs
    · cases hs
      obtain ⟨_, _, -, -, hn⟩ := exists_of_assignment? ha
      exact value?_closed hn

theorem enter_andThen_enter (dotted dotted' : Bool) (node node' : Node π) (here : TableForm)
    (o : Option (Node π)) :
    (Alteration.enter dotted node).andThen (.enter dotted' node') here o = none := by
  simp [Alteration.andThen, Alteration.enter]

theorem through_andThen_enter (form : TableForm) (c : Change π) (key : Key π) (dotted : Bool)
    (node : Node π) (here : TableForm) (o : Option (Node π)) :
    (Alteration.through form c key).andThen (.enter dotted node) here o = none := by
  simp [Alteration.andThen, Alteration.enter]

theorem enter_andThen_through {node : Node π} (hn : node.IsClosed) (form : TableForm) (c : Change π)
    (key : Key π) (dotted : Bool) (here : TableForm) (o : Option (Node π)) :
    (Alteration.enter dotted node).andThen (.through form c key) here o = none := by
  rw [Alteration.andThen, Alteration.enter]
  split
  · rfl
  · exact hn.inParent form c

/-- Two values go into a table by dotted keys in either order. The keys have no places, as it is the
first of them that makes a table on the way. -/
theorem commute_changeAt_enter {node node' : Node Unit} (hn : node.IsClosed) (hn' : node'.IsClosed)
    (dotted dotted' : Bool) (key key' : Key Unit) (path path' : List (Key Unit)) :
    Change.Commute (Table.changeAt .dotted (Table.enter dotted key node) path)
      (Table.changeAt .dotted (Table.enter dotted' key' node') path') := by
  have he := alters_enter dotted key node
  have he' := alters_enter dotted' key' node'
  have ha := Alteration.agree_enter dotted node
  have ha' := Alteration.agree_enter dotted' node'
  induction path generalizing path' with
  | nil =>
    cases path' with
    | nil =>
      by_cases hk : key.name = key'.name
      -- Whichever comes second finds the name taken.
      · rw [← hk] at he'
        refine (he.andThen he').agree (he'.andThen he) ?_
        intro here o o' _
        rw [enter_andThen_enter, enter_andThen_enter]
        exact .none
      · exact he.commute_of_ne he' hk ha ha'
    | cons k' path' =>
      have ht' := alters_changeAt_cons .dotted (Table.enter dotted' key' node') k' path'
      by_cases hk : key.name = k'.name
      -- One needs a table where the other puts a value, and nothing goes into that.
      · rw [← hk] at ht'
        refine (he.andThen ht').agree (ht'.andThen he) ?_
        intro here o o' _
        rw [enter_andThen_through hn, through_andThen_enter]
        exact .none
      · exact he.commute_of_ne ht' hk ha (((he'.agree he' ha').changeAt .dotted path').through _ k')
  | cons k path ih =>
    have ht := alters_changeAt_cons .dotted (Table.enter dotted key node) k path
    have hat := ((he.agree he ha).changeAt .dotted path).through .dotted k
    cases path' with
    | nil =>
      by_cases hk : k.name = key'.name
      · rw [← hk] at he'
        refine (ht.andThen he').agree (he'.andThen ht) ?_
        intro here o o' _
        rw [enter_andThen_through hn', through_andThen_enter]
        exact .none
      · exact ht.commute_of_ne he' hk hat ha'
    | cons k' path' =>
      have ht' := alters_changeAt_cons .dotted (Table.enter dotted' key' node') k' path'
      by_cases hk : k.name = k'.name
      -- They meet again inside the table at this key, whoever makes it.
      · obtain rfl : k = k' := by
          obtain ⟨name, ⟨⟩⟩ := k
          obtain ⟨name', ⟨⟩⟩ := k'
          obtain rfl : name = name' := hk
          rfl
        exact (ht.andThen ht').agree (ht'.andThen ht) ((ih path').through (.inr rfl) k)
      · exact ht.commute_of_ne ht' hk hat
          (((he'.agree he' ha').changeAt .dotted path').through _ k')

theorem step_assign_swap {a a' : Assignment Unit} (ha : a.value.IsClosed) (ha' : a'.value.IsClosed)
    (b : Building Unit) :
    Option.Rel Building.Alike ((b.step (.assign a)).bind (·.step (.assign a')))
      ((b.step (.assign a')).bind (·.step (.assign a))) := by
  have hc := commute_changeAt_enter ha ha' (!a.path.parents.isEmpty) (!a'.path.parents.isEmpty)
    a.path.key a'.path.key a.path.parents a'.path.parents
  have hr := hc.changeAt (.inl rfl) b.current .header (.refl b.root)
  have he : ∀ a a' : Assignment Unit, (b.step (.assign a)).bind (·.step (.assign a')) =
      (Change.andThen
        (Table.changeAt .parent (Table.assign a.path.parents a.path.key a.value) b.current)
        (Table.changeAt .parent (Table.assign a'.path.parents a'.path.key a'.value) b.current)
        .header b.root).map (⟨·, b.current⟩) := by
    intro a a'
    simp only [Building.step, Building.changeAt, Change.andThen, Option.bind_map, Option.map_bind]
    rfl
  rw [he, he]
  exact rel_map hr fun _ _ h => ⟨h, rfl⟩

/-- Where two assignments that follow each other change places, the table is the same up to order. -/
theorem build?_swap {a a' : Assignment Unit} (ha : a.value.IsClosed) (ha' : a'.value.IsClosed)
    (before behind : List (Statement Unit)) :
    Option.Rel Table.Alike (build? (before ++ .assign a :: .assign a' :: behind))
      (build? (before ++ .assign a' :: .assign a :: behind)) := by
  simp only [build?, List.foldlM_append, List.foldlM_cons]
  refine rel_map (r := Building.Alike) ?_ fun _ _ h => h.root
  cases before.foldlM Building.step {} with
  | none => exact .none
  | some b =>
    have hs := step_assign_swap ha ha' b
    have hb := rel_bind hs fun _ _ h => foldlM_step_alike behind h
    rwa [Option.bind_assoc, Option.bind_assoc] at hb

/-- A line that states nothing, or gives a value to a key. -/
def IsEntry (line : Text) : Prop := IsLine line .blank ∨ ∃ a, IsLine line (.assign a)

/-- A line that cannot be read, whatever follows it. -/
structure IsRefused (line : Text) : Prop where
  start : line.head? ≠ some '\ufeff'
  refused : ∀ u, u = [] ∨ Breaks u → statement? (line ++ u) = none

theorem IsEntry.isLine {line : Text} (h : IsEntry line) : ∃ s, IsLine line s := by
  rcases h with h | ⟨a, h⟩
  · exact ⟨_, h⟩
  · exact ⟨_, h⟩

def Statement.isEntry : Statement π → Bool
  | .blank | .assign _ => true
  | .openTable _ _ | .openElement _ _ => false

theorem isEntry_iff {line : Text} : IsEntry line ↔
    (statement? line).map (fun r => (r.1.isEntry, r.2)) = some (true, []) ∧
      line.getLast? ≠ some '\n' := by
  constructor
  · rintro (h | ⟨a, h⟩) <;> exact ⟨by rw [h.read]; rfl, h.ended⟩
  · rintro ⟨h, he⟩
    obtain ⟨⟨s, rest⟩, hs, hp⟩ := Option.map_eq_some_iff.mp h
    obtain ⟨hk, rfl⟩ := Prod.mk.inj hp
    cases s with
    | blank => exact .inl ⟨hs, he⟩
    | assign a => exact .inr ⟨a, hs, he⟩
    | openTable | openElement => cases hk

instance (line : Text) : Decidable (IsEntry line) := decidable_of_iff' _ isEntry_iff

theorem IsEntry.stated? {line : Text} (h : IsEntry line) {s : Statement Unit}
    (hs : stated? line = some s) : ∃ a, s = .assign a ∧ a.value.IsClosed := by
  rcases h with h | ⟨a, h⟩
  · rw [Toml.stated?, h.read] at hs
    cases hs
  · rw [Toml.stated?, h.read] at hs
    cases hs
    exact ⟨a.map fun _ => (), rfl, (statement?_closed h.read).map _⟩

theorem IsRefused.outline?_join {line : Text} (h : IsRefused line) (e : LineEnding)
    (behind : List Text) : outline? (e.join (line :: behind)) = none := by
  have hne : line ≠ [] := by
    rintro rfl
    cases h.refused [] (.inl rfl)
  obtain ⟨u, hu, hj⟩ := join_cons e line behind
  rw [hj, outline?_of_ne_nil (by simp [hne]), h.refused u hu]
  rfl

/-- One line that is refused spoils the document. -/
theorem outline?_join_of_refused (e : LineEnding) {block : List Text}
    (h : ∀ line ∈ block, IsEntry line ∨ IsRefused line) (hr : ∃ line ∈ block, IsRefused line)
    (behind : List Text) : outline? (e.join (block ++ behind)) = none := by
  induction block with
  | nil =>
    obtain ⟨line, hm, -⟩ := hr
    cases hm
  | cons line block ih =>
    obtain ⟨hl, h⟩ := List.forall_mem_cons.mp h
    rcases hl with hl | hl
    · have hb : ∃ line ∈ block, IsRefused line := by
        obtain ⟨line', hm, hr⟩ := hr
        rcases List.mem_cons.mp hm with rfl | hm
        · obtain ⟨s, hs⟩ := hl.isLine
          have hn := hr.refused [] (.inl rfl)
          rw [List.append_nil, hs.read] at hn
          cases hn
        · exact ⟨line', hm, hr⟩
      have hl : ∀ l ∈ [line], ∃ s, IsLine l s := by simpa using hl.isLine
      have hc := outline?_lines e hl (block ++ behind)
      rw [ih h hb] at hc
      exact hc
    · exact hl.outline?_join e (block ++ behind)

theorem Node.Distinct.map {node : Node π} (h : node.Distinct) {ρ : Type} (g : π → ρ) :
    (node.map g).Distinct := by
  induction h with
  | scalar =>
    rw [map_scalar]
    exact .scalar
  | array _ ih =>
    rw [map_array]
    exact .array (by simpa using ih)
  | @table place form entries hn _ ih =>
    rw [map_table]
    refine .table ?_ ?_
    · rw [Table.map, List.map_map]
      exact hn
    · intro e he
      obtain ⟨e', hm, rfl⟩ := List.mem_map.mp he
      exact ih e' hm

theorem outline?_distinct {s : Text} {statements : List (Statement Unit)}
    (h : outline? s = some statements) : ∀ statement ∈ statements, statement.Distinct := by
  obtain ⟨full, hf, rfl⟩ := Option.map_eq_some_iff.mp h
  intro statement hm
  obtain ⟨statement', hm, hb⟩ := List.mem_filterMap.mp hm
  have hd := statements?_distinct hf statement' hm
  cases statement' with
  | blank => cases hb
  | openTable | openElement =>
    cases hb
    trivial
  | assign a =>
    cases hb
    have hd : a.value.Distinct := hd
    exact hd.map _

end SourceGen.Toml
