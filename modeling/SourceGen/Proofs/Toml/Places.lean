import SourceGen.Toml.Document

/-! # Places do not matter

Every key and value carries a place, and nothing looks at it on the way to the root table. So a change
of places goes through the building of a document: the tables come out as before, with the places
changed. -/
namespace SourceGen.Toml

variable {π ρ σ : Type}

def Key.map (g : π → ρ) (key : Key π) : Key ρ := ⟨key.name, g key.place⟩

mutual

def Node.map (g : π → ρ) : Node π → Node ρ
  | .scalar place value => .scalar (g place) value
  | .array place ofTables items => .array (g place) ofTables (mapItems g items)
  | .table place form entries => .table (g place) form (mapEntries g entries)

def Node.mapItems (g : π → ρ) : List (Node π) → List (Node ρ)
  | [] => []
  | node :: items => node.map g :: mapItems g items

def Node.mapEntries (g : π → ρ) : List (Key π × Node π) → List (Key ρ × Node ρ)
  | [] => []
  | (key, node) :: entries => (key.map g, node.map g) :: mapEntries g entries

end

def Table.map (g : π → ρ) (t : Table π) : Table ρ := List.map (fun e => (e.1.map g, e.2.map g)) t

namespace Node

theorem mapItems_eq (g : π → ρ) (items : List (Node π)) :
    mapItems g items = items.map (Node.map g) := by
  induction items with
  | nil => rfl
  | cons node items ih => rw [mapItems, ih, List.map_cons]

theorem mapEntries_eq (g : π → ρ) (t : Table π) : mapEntries g t = t.map g := by
  induction t with
  | nil => rfl
  | cons e t ih =>
    rw [mapEntries, ih]
    rfl

@[simp] theorem map_scalar (g : π → ρ) (place : π) (value : Scalar) :
    (scalar place value).map g = scalar (g place) value := by
  rw [Node.map]

@[simp] theorem map_array (g : π → ρ) (place : π) (ofTables : Bool) (items : List (Node π)) :
    (array place ofTables items).map g = array (g place) ofTables (items.map (Node.map g)) := by
  rw [Node.map, mapItems_eq]

@[simp] theorem map_table (g : π → ρ) (place : π) (form : TableForm) (entries : Table π) :
    (table place form entries).map g = table (g place) form (entries.map g) := by
  rw [Node.map, mapEntries_eq]

@[simp] theorem place_map (g : π → ρ) (node : Node π) : (node.map g).place = g node.place := by
  cases node with
  | scalar => rw [map_scalar, place, place]
  | array => rw [map_array, place, place]
  | table => rw [map_table, place, place]

mutual

theorem map_map (f : π → ρ) (g : ρ → σ) :
    ∀ node : Node π, (node.map f).map g = node.map fun place => g (f place)
  | .scalar place value => by simp
  | .array place ofTables items => by simpa using mapItems_map f g items
  | .table place form entries => by simpa using mapEntries_map f g entries

theorem mapItems_map (f : π → ρ) (g : ρ → σ) : ∀ items : List (Node π),
    ∀ node ∈ items, (node.map f).map g = node.map fun place => g (f place)
  | [] => List.forall_mem_nil _
  | node :: items => List.forall_mem_cons.mpr ⟨node.map_map f g, mapItems_map f g items⟩

theorem mapEntries_map (f : π → ρ) (g : ρ → σ) : ∀ entries : List (Key π × Node π),
    Table.map g (Table.map f entries) = Table.map (fun place => g (f place)) entries
  | [] => rfl
  | (key, node) :: entries => by
    have h := mapEntries_map f g entries
    have hn := node.map_map f g
    simp only [Table.map, List.map_cons] at h ⊢
    rw [h, hn]
    rfl

end

end Node

namespace Table

variable (g : π → ρ)

@[simp] theorem map_nil : Table.map g [] = [] := rfl

theorem find?_map (t : Table π) (name : Text) :
    (t.map g).find? name = (t.find? name).map (Node.map g) := by
  induction t with
  | nil => rfl
  | cons e t ih =>
    obtain ⟨key, node⟩ := e
    by_cases hk : key.name = name
    · simp [Table.map, find?, Key.map, hk]
    · simpa [Table.map, find?, Key.map, hk] using ih

theorem insert_map (t : Table π) (key : Key π) (node : Node π) :
    (t.map g).insert (key.map g) (node.map g) = (t.insert key node).map g := by
  simp [insert, Table.map]

theorem replace_map (t : Table π) (name : Text) (node : Node π) :
    (t.map g).replace name (node.map g) = (t.replace name node).map g := by
  simp only [replace, Table.map, List.map_map]
  apply List.map_congr_left
  intro e _
  by_cases hk : e.1.name = name <;> simp [Key.map, hk]

theorem erase_map (t : Table π) (name : Text) : (t.map g).erase name = (t.erase name).map g := by
  simp only [erase, Table.map, List.filter_map]
  rfl

end Table

theorem modifyLast?_map {α β : Type} {f : α → Option α} {f' : β → Option β} {g : α → β}
    (h : ∀ a, f' (g a) = (f a).map g) (l : List α) :
    modifyLast? f' (l.map g) = (modifyLast? f l).map (List.map g) := by
  fun_induction modifyLast? f l with
  | case1 => rfl
  | case2 a => simp [modifyLast?, h, Function.comp_def]
  | case3 a b rest ih =>
    simp only [List.map_cons] at ih
    simp [modifyLast?, ih, Function.comp_def]

/-- The change `d` of tables with the new places is the change `c` of those with the old ones. -/
def Follows (g : π → ρ) (c : TableForm → Table π → Option (Table π))
    (d : TableForm → Table ρ → Option (Table ρ)) : Prop :=
  ∀ form t, d form (t.map g) = (c form t).map (Table.map g)

namespace Follows

variable {g : π → ρ} {c : TableForm → Table π → Option (Table π)}
  {d : TableForm → Table ρ → Option (Table ρ)}

theorem inTable (h : Follows g c d) (node : Node π) :
    (node.map g).inTable d = (node.inTable c).map (Node.map g) := by
  cases node with
  | scalar | array => simp [Node.inTable]
  | table place form entries =>
    rw [Node.map_table, Node.inTable, h form entries, Node.inTable]
    cases c form entries <;> simp

theorem inParent (h : Follows g c d) (form : TableForm) (node : Node π) :
    (node.map g).inParent form d = (node.inParent form c).map (Node.map g) := by
  cases node with
  | scalar => simp [Node.inParent]
  | array place ofTables items =>
    cases ofTables with
    | false => simp [Node.inParent]
    | true =>
      rw [Node.map_array, Node.inParent, modifyLast?_map h.inTable, Node.inParent]
      cases modifyLast? (Node.inTable c) items <;> simp
  | table place made entries =>
    have ht := h.inTable (.table place made entries)
    rw [Node.map_table] at ht ⊢
    simp only [Node.inParent]
    split
    · rfl
    · exact ht

theorem changeAt (h : Follows g c d) (form : TableForm) (path : List (Key π)) :
    Follows g (Table.changeAt form c path) (Table.changeAt form d (path.map (Key.map g))) := by
  induction path with
  | nil => exact h
  | cons key path ih =>
    intro here t
    rw [List.map_cons, Table.changeAt, Table.find?_map, Table.changeAt]
    cases hf : t.find? key.name with
    | none =>
      have hn := ih form []
      rw [Table.map_nil] at hn
      simp only [Key.map, hf, Option.map_none, hn, Option.map_map]
      congr 1
      funext inner
      rw [Function.comp_apply, Function.comp_apply, ← Table.insert_map, Node.map_table]
      rfl
    | some node =>
      simp only [Key.map, hf, Option.map_some, inParent ih form node, Option.map_map]
      congr 1
      funext node'
      exact Table.replace_map g t key.name node'

theorem enter (g : π → ρ) (dotted : Bool) (key : Key π) (node : Node π) :
    Follows g (Table.enter dotted key node) (Table.enter dotted (key.map g) (node.map g)) := by
  intro here t
  simp only [Table.enter, Key.map, Table.find?_map, Option.isSome_map]
  split
  · rfl
  · exact congrArg some (Table.insert_map g t key node)

theorem assign (g : π → ρ) (path : List (Key π)) (key : Key π) (node : Node π) :
    Follows g (Table.assign path key node)
      (Table.assign (path.map (Key.map g)) (key.map g) (node.map g)) := by
  have he := (enter g (!path.isEmpty) key node).changeAt .dotted path
  intro here t
  rw [Table.assign, List.isEmpty_map]
  exact he here t

theorem openTable (g : π → ρ) (key : Key π) (place : π) :
    Follows g (fun _ => Table.openTable key place)
      fun _ => Table.openTable (key.map g) (g place) := by
  intro _ t
  simp only [Table.openTable, Key.map, Table.find?_map]
  cases hf : t.find? key.name with
  | none => simp [← Table.insert_map, Key.map]
  | some node =>
    cases node with
    | scalar | array => simp
    | table old form entries => cases form <;> simp [← Table.insert_map, ← Table.erase_map, Key.map]

theorem openElement (g : π → ρ) (key : Key π) (place : π) :
    Follows g (fun _ => Table.openElement key place)
      fun _ => Table.openElement (key.map g) (g place) := by
  intro _ t
  simp only [Table.openElement, Key.map, Table.find?_map]
  cases hf : t.find? key.name with
  | none => simp [← Table.insert_map, Key.map]
  | some node =>
    cases node with
    | scalar | table => simp
    | array first ofTables items => cases ofTables <;> simp [← Table.replace_map]

end Follows

def KeyPath.map (g : π → ρ) (path : KeyPath π) : KeyPath ρ :=
  ⟨path.parents.map (Key.map g), path.key.map g⟩

def Assignment.map (g : π → ρ) (a : Assignment π) : Assignment ρ := ⟨a.path.map g, a.value.map g⟩

def Statement.map (g : π → ρ) : Statement π → Statement ρ
  | .blank => .blank
  | .openTable path place => .openTable (path.map g) (g place)
  | .openElement path place => .openElement (path.map g) (g place)
  | .assign a => .assign (a.map g)

def Building.map (g : π → ρ) (b : Building π) : Building ρ :=
  ⟨b.root.map g, b.current.map (Key.map g)⟩

theorem Building.changeAt_map {g : π → ρ} {c : TableForm → Table π → Option (Table π)}
    {d : TableForm → Table ρ → Option (Table ρ)} (h : Follows g c d) (b : Building π)
    (path : List (Key π)) :
    (b.map g).changeAt (path.map (Key.map g)) d = (b.changeAt path c).map (Table.map g) :=
  h.changeAt .parent path .header b.root

theorem Building.step_map (g : π → ρ) (b : Building π) (s : Statement π) :
    (b.map g).step (s.map g) = (b.step s).map (Building.map g) := by
  cases s with
  | blank => rfl
  | openTable path place =>
    have h := b.changeAt_map (Follows.openTable g path.key place) path.parents
    simp only [step, Statement.map, KeyPath.map, h, Option.map_map]
    congr 1
    funext root
    simp [Building.map]
  | openElement path place =>
    have h := b.changeAt_map (Follows.openElement g path.key place) path.parents
    simp only [step, Statement.map, KeyPath.map, h, Option.map_map]
    congr 1
    funext root
    simp [Building.map]
  | assign a =>
    have h := b.changeAt_map (Follows.assign g a.path.parents a.path.key a.value) b.current
    have hc : (b.map g).current = b.current.map (Key.map g) := rfl
    simp only [step, Statement.map, Assignment.map, KeyPath.map, hc, h, Option.map_map]
    rfl

theorem inlineTable?_map (g : π → ρ) (assignments : List (Assignment π)) :
    inlineTable? (assignments.map (Assignment.map g)) =
      (inlineTable? assignments).map (Table.map g) := by
  have h : ∀ t : Table π,
      (assignments.map (Assignment.map g)).foldlM
          (fun t a => Table.assign a.path.parents a.path.key a.value .inline t) (t.map g) =
        (assignments.foldlM
          (fun t a => Table.assign a.path.parents a.path.key a.value .inline t) t).map
            (Table.map g) := by
    induction assignments with
    | nil => exact fun t => rfl
    | cons a assignments ih =>
      intro t
      have ha := Follows.assign g a.path.parents a.path.key a.value .inline t
      rw [List.map_cons, List.foldlM_cons, List.foldlM_cons, Assignment.map, KeyPath.map, ha]
      cases Table.assign a.path.parents a.path.key a.value .inline t with
      | none => rfl
      | some t' => exact ih t'
  exact h []

end SourceGen.Toml
