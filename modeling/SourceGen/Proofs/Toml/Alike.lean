import Mathlib.Data.List.Forall2
import Mathlib.Logic.Function.Basic
import SourceGen.Proofs.Toml.DistinctKeys

/-! # Tables up to order

Tables are alike when the same names lead to alike values, in whatever order the entries stand. Every
change that building a document makes looks up one name and sets what stands under it, so alike tables
stay alike when they are changed in the same way. -/
namespace SourceGen.Toml

variable {π : Type}

/-- The same value, but for the keys' places and the order of the entries. -/
inductive Node.Alike : Node π → Node π → Prop where
  | scalar {place value} : Alike (.scalar place value) (.scalar place value)
  | array {place ofTables items items'} : List.Forall₂ Alike items items' →
      Alike (.array place ofTables items) (.array place ofTables items')
  | table {place form entries entries'} :
      (∀ name, Option.Rel Alike (Table.find? entries name) (Table.find? entries' name)) →
      Alike (.table place form entries) (.table place form entries')

/-- Each name leads to like values, or to none. -/
def LooksAlike (look look' : Text → Option (Node π)) : Prop :=
  ∀ name, Option.Rel Node.Alike (look name) (look' name)

/-- The same for tables without a place. -/
def Table.Alike (t t' : Table π) : Prop := LooksAlike t.find? t'.find?

section Rel

variable {α β γ δ : Type} {r : α → β → Prop} {s : γ → δ → Prop}

theorem rel_map {o : Option α} {o' : Option β} {f : α → γ} {g : β → δ} (h : Option.Rel r o o')
    (hf : ∀ a b, r a b → s (f a) (g b)) : Option.Rel s (o.map f) (o'.map g) := by
  cases h with
  | none => exact .none
  | some hr => exact .some (hf _ _ hr)

theorem rel_eq_none_iff {o : Option α} {o' : Option β} (h : Option.Rel r o o') :
    o = none ↔ o' = none := by
  cases h <;> simp

theorem rel_bind {o : Option α} {o' : Option β} {f : α → Option γ} {g : β → Option δ}
    (h : Option.Rel r o o') (hf : ∀ a b, r a b → Option.Rel s (f a) (g b)) :
    Option.Rel s (o.bind f) (o'.bind g) := by
  cases h with
  | none => exact .none
  | some hr => exact hf _ _ hr

end Rel

namespace Node.Alike

theorem table_iff {place : π} {form : TableForm} {t t' : Table π} :
    Node.Alike (.table place form t) (.table place form t') ↔ t.Alike t' := by
  constructor
  · rintro (_ | _ | h)
    exact h
  · exact .table

mutual

theorem refl : ∀ node : Node π, node.Alike node
  | .scalar _ _ => .scalar
  | .array _ _ items => .array (refl_items items)
  | .table _ _ entries => .table (refl_entries entries)

theorem refl_items : ∀ items : List (Node π), List.Forall₂ Node.Alike items items
  | [] => .nil
  | node :: items => .cons (refl node) (refl_items items)

theorem refl_entries : ∀ (entries : List (Key π × Node π)) (name : Text),
    Option.Rel Node.Alike (Table.find? entries name) (Table.find? entries name)
  | [], _ => .none
  | (key, node) :: entries, name => by
    rw [Table.find?]
    split
    · exact .some (refl node)
    · exact refl_entries entries name

end

end Node.Alike

theorem Table.Alike.refl (t : Table π) : t.Alike t := Node.Alike.refl_entries t

namespace Table

variable {t : Table π} {key : Key π} {node : Node π} {name : Text}

theorem find?_append (t t' : Table π) (name : Text) :
    find? (t ++ t') name = (t.find? name).or (find? t' name) := by
  induction t with
  | nil => rfl
  | cons e t ih =>
    rw [List.cons_append, find?, find?]
    split
    · rfl
    · exact ih

theorem find?_insert (h : t.find? key.name = none) :
    find? (t.insert key node) = Function.update (find? t) key.name (some node) := by
  funext n
  rw [insert, find?_append]
  by_cases hn : n = key.name
  · subst hn
    simp [h, find?]
  · simp [find?, Ne.symm hn, Function.update_of_ne hn]

theorem find?_replace_self (h : (t.find? name).isSome) :
    find? (t.replace name node) name = some node := by
  fun_induction find? t name with
  | case1 => cases h
  | case2 key old t hk => simp [replace, find?, hk]
  | case3 key old t hk ih => simpa [replace, find?, hk] using ih h

theorem find?_replace_of_ne {n : Text} (hn : n ≠ name) :
    find? (t.replace name node) n = find? t n := by
  induction t with
  | nil => rfl
  | cons e t ih =>
    obtain ⟨key, old⟩ := e
    have hc : replace ((key, old) :: t) name node =
        (key, if key.name = name then node else old) :: replace t name node := by
      rw [replace, List.map_cons, replace]
      congr 1
      by_cases hk : key.name = name <;> simp [hk]
    rw [hc, find?, find?, ih]
    by_cases hk : key.name = n
    · simp [hk, hn]
    · simp [hk]

theorem find?_replace (h : (t.find? name).isSome) :
    find? (t.replace name node) = Function.update (find? t) name (some node) := by
  funext n
  by_cases hn : n = name
  · subst hn
    rw [find?_replace_self h, Function.update_self]
  · rw [find?_replace_of_ne hn, Function.update_of_ne hn]

theorem find?_erase_of_ne {n : Text} (hn : n ≠ name) : find? (t.erase name) n = find? t n := by
  induction t with
  | nil => rfl
  | cons e t ih =>
    obtain ⟨key, old⟩ := e
    rw [erase, List.filter_cons]
    by_cases hk : key.name = name
    · have hkn : key.name ≠ n := fun h => hn (h.symm.trans hk)
      rw [if_neg (by simpa using hk), find?, if_neg hkn]
      exact ih
    · rw [if_pos (by simpa using hk), find?, find?]
      split
      · rfl
      · exact ih

theorem find?_erase_insert : find? ((t.erase key.name).insert key node) =
    Function.update (find? t) key.name (some node) := by
  rw [find?_insert (Distinct.find?_erase t key.name)]
  funext n
  by_cases hn : n = key.name
  · subst hn
    rw [Function.update_self, Function.update_self]
  · rw [Function.update_of_ne hn, Function.update_of_ne hn, find?_erase_of_ne hn]

end Table

theorem LooksAlike.update {look look' : Text → Option (Node π)} (h : LooksAlike look look')
    (name : Text) {node node' : Node π} (hn : node.Alike node') :
    LooksAlike (Function.update look name (some node)) (Function.update look' name (some node')) := by
  intro n
  by_cases he : n = name
  · subst he
    rw [Function.update_self, Function.update_self]
    exact .some hn
  · rw [Function.update_of_ne he, Function.update_of_ne he]
    exact h n

theorem rel_of_map_find? {x y : Option (Table π)}
    (h : Option.Rel LooksAlike (x.map Table.find?) (y.map Table.find?)) :
    Option.Rel Table.Alike x y := by
  cases x with
  | none =>
    cases y with
    | none => exact .none
    | some => cases h
  | some t =>
    cases y with
    | none => cases h
    | some =>
      cases h with
      | some h => exact .some h

/-- Changes of tables, which may depend on how the table came about, and may fail. -/
abbrev Change (π : Type) := TableForm → Table π → Option (Table π)

/-- What is to stand under a name, by what stands there. -/
abbrev Alteration (π : Type) := TableForm → Option (Node π) → Option (Node π)

/-- The change enters under `name` what the alteration makes of what stands there, and fails where that
fails. -/
def Change.Alters (name : Text) (f : Alteration π) (c : Change π) : Prop :=
  ∀ here t, (c here t).map Table.find? =
    (f here (t.find? name)).map fun node => Function.update t.find? name (some node)

/-- The changes do the same to like tables. -/
def Change.Agree (c d : Change π) : Prop :=
  ∀ here ⦃t t' : Table π⦄, t.Alike t' → Option.Rel Table.Alike (c here t) (d here t')

def Alteration.Agree (f g : Alteration π) : Prop :=
  ∀ here ⦃o o'⦄, Option.Rel Node.Alike o o' → Option.Rel Node.Alike (f here o) (g here o')

theorem Change.Alters.agree {name : Text} {f g : Alteration π} {c d : Change π}
    (hc : Change.Alters name f c) (hd : Change.Alters name g d) (hfg : f.Agree g) : c.Agree d := by
  intro here t t' ht
  apply rel_of_map_find?
  rw [hc, hd]
  exact rel_map (hfg here (ht name)) fun _ _ hn => ht.update name hn

namespace Alteration

def enter (dotted : Bool) (node : Node π) : Alteration π := fun here o =>
  if (dotted ∧ here ≠ .dotted) ∨ o.isSome then none else some node

def openTable (place : π) : Alteration π
  | _, none => some (.table place .header [])
  | _, some (.table _ .parent entries) => some (.table place .header entries)
  | _, some _ => none

def openElement (place : π) : Alteration π
  | _, none => some (.array place true [.table place .header []])
  | _, some (.array first true items) =>
    some (.array first true (items ++ [.table place .header []]))
  | _, some _ => none

/-- What a change at a path sets under the first key of the path, where `c` is what it does to the table
there. -/
def through (form : TableForm) (c : Change π) (key : Key π) : Alteration π
  | _, none => (c form []).map (.table key.place form)
  | _, some node => node.inParent form c

end Alteration

theorem alters_enter (dotted : Bool) (key : Key π) (node : Node π) :
    Change.Alters key.name (.enter dotted node) (Table.enter dotted key node) := by
  intro here t
  rw [Table.enter, Alteration.enter]
  split
  · rfl
  · next h =>
    have hf : t.find? key.name = none := by simpa using fun hs => h (.inr hs)
    exact congrArg some (Table.find?_insert hf)

theorem alters_openTable (key : Key π) (place : π) :
    Change.Alters key.name (.openTable place) fun _ => Table.openTable key place := by
  intro here t
  dsimp only [Table.openTable]
  split
  · next hf =>
    rw [hf]
    exact congrArg some (Table.find?_insert hf)
  · next entries hf =>
    rw [hf]
    exact congrArg some Table.find?_erase_insert
  · next node hp hf =>
    rw [hf, Alteration.openTable]
    · rfl
    · exact hp

theorem alters_openElement (key : Key π) (place : π) :
    Change.Alters key.name (.openElement place) fun _ => Table.openElement key place := by
  intro here t
  dsimp only [Table.openElement]
  split
  · next hf =>
    rw [hf]
    exact congrArg some (Table.find?_insert hf)
  · next first items hf =>
    have hs : (t.find? key.name).isSome := by simp [hf]
    rw [hf]
    exact congrArg some (Table.find?_replace hs)
  · next node hp hf =>
    rw [hf, Alteration.openElement]
    · rfl
    · exact hp

theorem alters_changeAt_cons (form : TableForm) (c : Change π) (key : Key π) (path : List (Key π)) :
    Change.Alters key.name (.through form (Table.changeAt form c path) key)
      (Table.changeAt form c (key :: path)) := by
  intro here t
  rw [Table.changeAt]
  cases hf : t.find? key.name with
  | none =>
    simp only [Alteration.through, Option.map_map]
    congr 1
    funext inner
    exact Table.find?_insert hf
  | some node =>
    have hs : (t.find? key.name).isSome := by simp [hf]
    simp only [Alteration.through, Option.map_map]
    congr 1
    funext node'
    exact Table.find?_replace hs

theorem rel_modifyLast? {α β : Type} {r : α → β → Prop} {f : α → Option α} {g : β → Option β}
    (hf : ∀ a b, r a b → Option.Rel r (f a) (g b)) {l : List α} {l' : List β}
    (h : List.Forall₂ r l l') :
    Option.Rel (List.Forall₂ r) (modifyLast? f l) (modifyLast? g l') := by
  induction h with
  | nil => exact .none
  | @cons a b l l' hab hl ih =>
    cases hl with
    | nil => exact rel_map (hf a b hab) fun _ _ h => .cons h .nil
    | cons => exact rel_map ih fun _ _ h => .cons hab h

namespace Change.Agree

variable {c d : Change π}

theorem inTable (h : Agree c d) {node node' : Node π} (hn : node.Alike node') :
    Option.Rel Node.Alike (node.inTable c) (node'.inTable d) := by
  cases hn with
  | scalar | array => exact .none
  | table ht => exact rel_map (h _ ht) fun _ _ => Node.Alike.table_iff.mpr

theorem inParent (h : Agree c d) (form : TableForm) {node node' : Node π} (hn : node.Alike node') :
    Option.Rel Node.Alike (node.inParent form c) (node'.inParent form d) := by
  cases hn with
  | scalar => exact .none
  | @array place ofTables items items' hi =>
    cases ofTables with
    | false => exact .none
    | true => exact rel_map (rel_modifyLast? (fun _ _ => h.inTable) hi) fun _ _ => .array
  | @table place made entries entries' ht =>
    simp only [Node.inParent]
    split
    · exact .none
    · exact h.inTable (.table ht)

theorem through (h : Agree c d) (form : TableForm) (key : Key π) :
    Alteration.Agree (.through form c key) (.through form d key) := by
  rintro here o o' (hn | _)
  · exact h.inParent form hn
  · exact rel_map (h form (.refl [])) fun _ _ => Node.Alike.table_iff.mpr

theorem changeAt (h : Agree c d) (form : TableForm) (path : List (Key π)) :
    Agree (Table.changeAt form c path) (Table.changeAt form d path) := by
  induction path with
  | nil => exact h
  | cons key path ih =>
    exact (alters_changeAt_cons form c key path).agree (alters_changeAt_cons form d key path)
      (ih.through form key)

end Change.Agree

namespace Alteration

theorem agree_enter (dotted : Bool) (node : Node π) :
    Alteration.Agree (.enter dotted node) (.enter dotted node) := by
  rintro here o o' (hn | _)
  · rw [enter, enter, if_pos (.inr rfl), if_pos (.inr rfl)]
    exact .none
  · rw [enter]
    split
    · exact .none
    · exact .some (.refl node)

theorem agree_openTable (place : π) :
    Alteration.Agree (.openTable place) (.openTable place) := by
  rintro here o o' (hn | _)
  · cases hn with
    | scalar | array => exact .none
    | @table old form entries entries' ht =>
      cases form with
      | parent => exact .some (.table ht)
      | header | dotted | inline => exact .none
  · exact .some (.refl _)

theorem agree_openElement (place : π) :
    Alteration.Agree (.openElement place) (.openElement place) := by
  rintro here o o' (hn | _)
  · cases hn with
    | scalar | table => exact .none
    | @array first ofTables items items' hi =>
      cases ofTables with
      | false => exact .none
      | true => exact .some (.array (List.rel_append hi (.cons (.refl _) .nil)))
  · exact .some (.refl _)

end Alteration

theorem agree_assign (path : List (Key π)) (key : Key π) (node : Node π) :
    Change.Agree (Table.assign path key node) (Table.assign path key node) := by
  have he := alters_enter (!path.isEmpty) key node
  exact (he.agree he (Alteration.agree_enter _ node)).changeAt .dotted path

theorem agree_openTable (key : Key π) (place : π) :
    Change.Agree (fun _ => Table.openTable key place) fun _ => Table.openTable key place :=
  (alters_openTable key place).agree (alters_openTable key place)
    (Alteration.agree_openTable place)

theorem agree_openElement (key : Key π) (place : π) :
    Change.Agree (fun _ => Table.openElement key place) fun _ => Table.openElement key place :=
  (alters_openElement key place).agree (alters_openElement key place)
    (Alteration.agree_openElement place)

/-- At the same header, with like tables. -/
structure Building.Alike (b b' : Building π) : Prop where
  root : b.root.Alike b'.root
  current : b.current = b'.current

theorem Building.step_alike {b b' : Building π} (h : b.Alike b') (s : Statement π) :
    Option.Rel Building.Alike (b.step s) (b'.step s) := by
  obtain ⟨root, current⟩ := b
  obtain ⟨root', current'⟩ := b'
  obtain ⟨hr, rfl⟩ := h
  cases s with
  | blank => exact .some ⟨hr, rfl⟩
  | openTable path place =>
    exact rel_map ((agree_openTable path.key place).changeAt .parent path.parents .header hr)
      fun _ _ h => ⟨h, rfl⟩
  | openElement path place =>
    exact rel_map ((agree_openElement path.key place).changeAt .parent path.parents .header hr)
      fun _ _ h => ⟨h, rfl⟩
  | assign a =>
    have ha := (agree_assign a.path.parents a.path.key a.value).changeAt .parent current
    exact rel_map (ha .header hr) fun _ _ h => ⟨h, rfl⟩

theorem foldlM_step_alike (statements : List (Statement π)) {b b' : Building π} (h : b.Alike b') :
    Option.Rel Building.Alike (statements.foldlM Building.step b)
      (statements.foldlM Building.step b') := by
  induction statements generalizing b b' with
  | nil => exact .some h
  | cons s statements ih =>
    rw [List.foldlM_cons, List.foldlM_cons]
    exact rel_bind (Building.step_alike h s) fun _ _ => ih

theorem Table.Alike.names_perm {t t' : Table π} (h : t.Alike t') (hd : t.Distinct)
    (hd' : t'.Distinct) :
    (List.map (fun e => e.1.name) t).Perm (List.map (fun e => e.1.name) t') := by
  rw [List.perm_ext_iff_of_nodup hd.names hd'.names]
  intro name
  rw [← not_iff_not, ← Table.find?_eq_none_iff, ← Table.find?_eq_none_iff]
  exact rel_eq_none_iff (h name)

/-- Entries with the same name and like values. -/
def EntryAlike (e e' : Key π × Node π) : Prop := e.1.name = e'.1.name ∧ e.2.Alike e'.2

theorem Table.Alike.forall₂ {t t' : Table π} (h : t.Alike t') (hd : t.Distinct)
    (hs : List.map (fun e => e.1.name) t = List.map (fun e => e.1.name) t') :
    List.Forall₂ EntryAlike t t' := by
  induction t generalizing t' with
  | nil =>
    cases t' with
    | nil => exact .nil
    | cons => cases hs
  | cons e t ih =>
    cases t' with
    | nil => cases hs
    | cons e' t' =>
      obtain ⟨hk, ht⟩ := List.cons.inj hs
      replace hk : e.1.name = e'.1.name := hk
      obtain ⟨hm, hn⟩ := List.nodup_cons.mp hd.names
      have hm' : e'.1.name ∉ List.map (fun e => e.1.name) t' := by
        rw [← ht, ← hk]
        exact hm
      refine .cons ⟨hk, ?_⟩ (ih ?_ ⟨hn, (List.forall_mem_cons.mp hd.nodes).2⟩ ht)
      · have he := h e.1.name
        rw [Table.find?, if_pos rfl, Table.find?, if_pos hk.symm] at he
        cases he with
        | some he => exact he
      · intro name
        by_cases hne : e.1.name = name
        · have hf : Table.find? t name = none := Table.find?_eq_none_iff.mpr (hne ▸ hm)
          have hf' : Table.find? t' name = none := Table.find?_eq_none_iff.mpr (hne ▸ hk.symm ▸ hm')
          rw [hf, hf']
          exact .none
        · have he := h name
          rwa [Table.find?, if_neg hne, Table.find?, if_neg (hk ▸ hne)] at he

end SourceGen.Toml
