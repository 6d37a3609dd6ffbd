import Mathlib.Algebra.BigOperators.Group.Finset.Piecewise
import Mathlib.Algebra.Order.BigOperators.Group.Finset
import SourceGen.Proofs.Symbols.Ancestors
import SourceGen.Proofs.Symbols.Search
import SourceGen.Symbols.Declarations

/-! # Queries in declared graphs

A declaration counts for one type only, so all types together have no more parents than are
declared, and no chain of bases is longer than the declarations of bases. A query within the bound
of the declarations always comes to its end. -/
namespace SourceGen.Declarations

variable {α : Type} [DecidableEq α]

theorem parents_eq (d : Declarations α) (x : α) :
    d.graph.parents x = ((d.bases.lookup x).map ([·])).getD [] ++
      (((d.interfaces?.getD []).lookup x).map id).getD [] := by
  have hb : (d.bases.lookup x).toList = ((d.bases.lookup x).map ([·])).getD [] := by
    cases d.bases.lookup x <;> rfl
  rw [TypeGraph.parents, ← hb]
  cases hd : d.interfaces? <;> simp [TypeGraph.interfaces, graph, hd]

theorem mem_flatMap_of_mem_lookup {β γ : Type} {f : β → List γ} {l : List (α × β)} {x : α} {y : γ}
    (h : y ∈ ((l.lookup x).map f).getD []) : y ∈ l.flatMap fun p => f p.2 := by
  cases hl : l.lookup x with
  | none => simp [hl] at h
  | some v =>
    have hy : y ∈ f v := by simpa [hl] using h
    obtain ⟨before, behind, rfl, -⟩ := List.lookup_eq_some_iff.mp hl
    simp [hy]

def named (d : Declarations α) : List α :=
  (d.bases.flatMap fun p => [p.2]) ++ (d.interfaces?.getD []).flatMap fun p => id p.2

theorem mem_named_of_mem_parents {d : Declarations α} {x y : α} (h : y ∈ d.graph.parents x) :
    y ∈ d.named := by
  rw [parents_eq, List.mem_append] at h
  rcases h with hb | hi
  · exact List.mem_append_left _ (mem_flatMap_of_mem_lookup hb)
  · exact List.mem_append_right _ (mem_flatMap_of_mem_lookup hi)

theorem finite_reaches (d : Declarations α) (x : α) : {y | d.graph.Reaches x y}.Finite := by
  refine TypeGraph.finite_reaches (x :: d.named).toFinset (by simp) ?_
  intro y _ z hz
  exact List.mem_toFinset.mpr (List.mem_cons_of_mem x (mem_named_of_mem_parents hz))

theorem sum_lookup_le {β γ : Type} (f : β → List γ) (types : Finset α) (l : List (α × β)) :
    ∑ x ∈ types, (((l.lookup x).map f).getD []).length ≤ (l.flatMap fun p => f p.2).length := by
  induction l with
  | nil => simp
  | cons p l ih =>
    obtain ⟨k, v⟩ := p
    have hx : ∀ x ∈ types, (((((k, v) :: l).lookup x).map f).getD []).length ≤
        (if x = k then (f v).length else 0) + (((l.lookup x).map f).getD []).length := by
      intro x _
      by_cases hk : x = k
      · simp [hk]
      · have hb : (x == k) = false := beq_eq_false_iff_ne.mpr hk
        simp [List.lookup_cons, hk, hb]
    have hk : ∑ x ∈ types, (if x = k then (f v).length else 0) ≤ (f v).length := by
      rw [Finset.sum_ite_eq']
      split <;> simp
    have hs := Finset.sum_le_sum hx
    rw [Finset.sum_add_distrib] at hs
    simp only [List.flatMap_cons, List.length_append]
    omega

theorem sum_length_parents_le (d : Declarations α) (types : Finset α) :
    ∑ x ∈ types, (d.graph.parents x).length ≤ d.edgeCount := by
  have hb := sum_lookup_le ([·]) types d.bases
  have hi := sum_lookup_le id types (d.interfaces?.getD [])
  have hl : (d.bases.flatMap fun p => [p.2]).length = d.bases.length := by
    rw [← List.map_eq_flatMap, List.length_map]
  simp only [parents_eq, List.length_append, Finset.sum_add_distrib, edgeCount]
  exact Nat.add_le_add (hl ▸ hb) hi

/-- In a declared graph every search comes to its end, and finds what can be reached. -/
theorem implements?_eq_some (d : Declarations α) (x target : α) :
    ∃ r, d.implements? x target = some r ∧ (r.answer = true ↔ d.graph.Reaches x target) := by
  have hf := d.finite_reaches x
  have hi : Search.Invariant d.graph x target { pending := [x] } := Search.initial_invariant
  have hw : Search.work d.graph hf.toFinset { pending := [x] } < d.bound := by
    have hs := d.sum_length_parents_le hf.toFinset
    simp only [Search.work, bound, List.length_singleton, List.toFinset_nil, Finset.sdiff_empty]
    omega
  obtain ⟨e, b, he, hb, hr⟩ := Search.exists_end (fun y hy => hf.mem_toFinset.mpr hy) hi hw
  exact ⟨_, hr, he.answer_iff hb⟩

variable {d : Declarations α} {x : α}

theorem finite_inherits (d : Declarations α) (x : α) : {y | d.graph.Inherits x y}.Finite := by
  refine (d.finite_reaches x).subset fun y hy => ?_
  refine hy.mem_of_closed Relation.ReflTransGen.refl ?_
  intro z hz w hb
  exact Relation.ReflTransGen.tail hz (.inl hb)

theorem mem_bases_of_baseChain {ys : List α} (h : d.graph.BaseChain x ys) :
    ys ⊆ d.bases.map Prod.snd := by
  induction ys generalizing x with
  | nil => exact List.nil_subset _
  | cons y ys ih =>
    obtain ⟨hb, h⟩ := TypeGraph.baseChain_cons.mp h
    obtain ⟨before, behind, he, -⟩ := List.lookup_eq_some_iff.mp hb
    have hy : y ∈ d.bases.map Prod.snd := by simp [he]
    exact List.cons_subset.mpr ⟨hy, ih h⟩

/-- A walk gives out each type once, so it has given out all before the declarations end. -/
theorem exists_yields (d : Declarations α) (x : α) :
    ∃ bs, BaseTypes.Yields d.graph ⟨d.graph.base x, [x]⟩ bs ∧ bs.length + 1 ≤ d.bound := by
  obtain ⟨bs, hb⟩ :=
    BaseTypes.Yields.exists_of_closes (TypeGraph.closes_of_finite (d.finite_inherits x))
  refine ⟨bs, hb, ?_⟩
  have hn : bs.Nodup := hb.nodup_cons.of_cons
  have hl := (List.subperm_of_subset hn (mem_bases_of_baseChain (hb.chain rfl))).length_le
  rw [List.length_map] at hl
  simp only [bound, edgeCount]
  omega

theorem inheritsFrom?_eq_some (d : Declarations α) (x target : α) :
    ∃ r, d.inheritsFrom? x target = some r ∧
      (r.answer = true ↔ d.graph.Inherits x target) := by
  obtain ⟨bs, hb, hl⟩ := d.exists_yields x
  by_cases hx : x = target
  · subst hx
    exact ⟨⟨true, []⟩, by simp [inheritsFrom?, TypeGraph.inheritsWithin],
      iff_of_true rfl (.refl d.graph x)⟩
  · have hi : bs.idxOf target + 1 ≤ d.bound := by
      have ht : bs.idxOf target ≤ bs.length := List.idxOf_le_length
      omega
    have hr := hb.inheritsWithin_eq hx d.bound
    rw [if_pos hi] at hr
    have hne : target ≠ x := Ne.symm hx
    exact ⟨_, hr, by simpa [hne] using hb.mem_cons_iff_inherits (z := target)⟩

/-- The base types are all that the type inherits from but itself, in the order of the chain. -/
theorem baseTypes?_eq_some (d : Declarations α) (x : α) :
    ∃ bs, d.baseTypes? x = some ⟨bs, (x :: bs).map .base⟩ ∧ d.graph.BaseChain x bs ∧
      ∀ y, y ∈ x :: bs ↔ d.graph.Inherits x y := by
  obtain ⟨bs, hb, hl⟩ := d.exists_yields x
  have hc := hb.collectWithin_eq d.bound
  rw [if_pos hl] at hc
  refine ⟨bs, ?_, hb.chain rfl, fun y => hb.mem_cons_iff_inherits⟩
  simp only [baseTypes?, TypeGraph.baseTypesWithin, BaseTypes.start, hc]
  rfl

end SourceGen.Declarations
