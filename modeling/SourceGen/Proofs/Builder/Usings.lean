import Mathlib.Data.List.Induction
import Mathlib.Data.List.Sort
import SourceGen.Proofs.Builder.Body

/-! # Using directives of several sources

Namespaces that come from several sources are written once each, at the place where they are first
seen. Which source they are in makes no difference, and what a source adds stands behind what the
sources before it have written. -/
namespace SourceGen

/-- The list has the members of `all`, each of them once, in the order in which they first occur. -/
structure FirstOccurrences {α : Type} [BEq α] (all once : List α) : Prop where
  nodup : once.Nodup
  mem_iff : ∀ x, x ∈ once ↔ x ∈ all
  ordered : once.Pairwise fun x y => all.idxOf x < all.idxOf y

namespace FirstOccurrences

theorem nil {α : Type} [BEq α] : FirstOccurrences ([] : List α) [] :=
  ⟨.nil, fun _ => Iff.rfl, .nil⟩

variable {α : Type} [BEq α] {all once other : List α}

theorem unique (h : FirstOccurrences all once) (h' : FirstOccurrences all other) :
    other = once := by
  have hm : ∀ x, x ∈ other ↔ x ∈ once := fun x => (h'.mem_iff x).trans (h.mem_iff x).symm
  have hp : other.Perm once := (List.perm_ext_iff_of_nodup h'.nodup h.nodup).mpr hm
  refine hp.eq_of_pairwise (fun x y _ _ hxy hyx => ?_) h'.ordered h.ordered
  exact absurd hxy (Nat.lt_asymm hyx)

variable [LawfulBEq α]

/-- More elements at the end do not move the first occurrences of those before. -/
theorem ordered_append (h : FirstOccurrences all once) (more : List α) :
    once.Pairwise fun x y => (all ++ more).idxOf x < (all ++ more).idxOf y := by
  refine h.ordered.imp_of_mem fun {x y} hx hy hxy => ?_
  have hx := (h.mem_iff x).mp hx
  have hy := (h.mem_iff y).mp hy
  rwa [List.idxOf_append_of_mem hx, List.idxOf_append_of_mem hy]

theorem snoc_of_mem (h : FirstOccurrences all once) {x : α} (hx : x ∈ all) :
    FirstOccurrences (all ++ [x]) once := by
  refine ⟨h.nodup, fun y => ?_, h.ordered_append [x]⟩
  rw [h.mem_iff, List.mem_append, List.mem_singleton]
  constructor
  · exact .inl
  · rintro (hy | rfl)
    · exact hy
    · exact hx

theorem snoc_of_notMem (h : FirstOccurrences all once) {x : α} (hx : x ∉ all) :
    FirstOccurrences (all ++ [x]) (once ++ [x]) := by
  have hn : x ∉ once := (h.mem_iff x).not.mpr hx
  refine ⟨by simpa using h.nodup.concat hn, fun y => ?_, ?_⟩
  · rw [List.mem_append, List.mem_append, h.mem_iff]
  · -- the new element first occurs behind all that were there
    refine List.pairwise_append.mpr ⟨h.ordered_append [x], List.pairwise_singleton _ _, ?_⟩
    intro y hy z hz
    obtain rfl := List.mem_singleton.mp hz
    have hy := (h.mem_iff y).mp hy
    have hl := List.idxOf_lt_length_of_mem hy
    rw [List.idxOf_append_of_mem hy, List.idxOf_append_of_notMem hx]
    omega

end FirstOccurrences

section EraseDups

variable {α : Type} [BEq α] [LawfulBEq α]

/-- One more element joins the others only if it is new. -/
theorem eraseDups_snoc (all : List α) (x : α) :
    (all ++ [x]).eraseDups = if x ∈ all then all.eraseDups else all.eraseDups ++ [x] := by
  by_cases hx : x ∈ all <;> simp [List.eraseDups_append, List.removeAll, List.eraseDups_cons, hx]

theorem firstOccurrences_eraseDups (all : List α) : FirstOccurrences all all.eraseDups := by
  induction all using List.reverseRecOn with
  | nil => exact .nil
  | append_singleton all x ih =>
    rw [eraseDups_snoc]
    by_cases hx : x ∈ all
    · rw [if_pos hx]
      exact ih.snoc_of_mem hx
    · rw [if_neg hx]
      exact ih.snoc_of_notMem hx

theorem firstOccurrences_iff {all once : List α} :
    FirstOccurrences all once ↔ once = all.eraseDups := by
  constructor
  · exact (firstOccurrences_eraseDups all).unique
  · rintro rfl
    exact firstOccurrences_eraseDups all

/-- What comes later stands behind. -/
theorem FirstOccurrences.isPrefix_append {all more once longer : List α}
    (h : FirstOccurrences all once) (h' : FirstOccurrences (all ++ more) longer) :
    once <+: longer := by
  rw [firstOccurrences_iff.mp h, firstOccurrences_iff.mp h', List.eraseDups_append]
  exact List.prefix_append _ _

theorem eraseDups_append_of_forall_mem {all more : List α} (h : ∀ x ∈ more, x ∈ all) :
    (all ++ more).eraseDups = all.eraseDups := by
  have hr : more.removeAll all = [] := by simpa [List.removeAll] using h
  rw [List.eraseDups_append, hr, List.eraseDups_nil, List.append_nil]

end EraseDups

instance (all once : List Text) : Decidable (FirstOccurrences all once) :=
  decidable_of_iff _ firstOccurrences_iff.symm

namespace TextBuilder

theorem appendUsings_eq_write (b : TextBuilder) (namespaces : List Text) :
    b.appendUsings namespaces =
      b.write (b.lineEnding.writeLines b.margin (namespaces.map usingDirective)) := by
  rw [← foldl_appendLine_eq_write, List.foldl_map]
  rfl

end TextBuilder

open TextBuilder in
/-- The namespaces of all sources are written once each, in the order in which they first occur, and
no other list has this order. The builder does not see where one source ends and the next begins. A
source that brings nothing new changes nothing, and further sources only write further lines. -/
theorem appendMultipleUsings_writes_first_occurrences (b : TextBuilder)
    (sources : List (List Text)) :
    (∃! ns, FirstOccurrences sources.flatten ns) ∧
    (∀ ns, FirstOccurrences sources.flatten ns →
      b.appendMultipleUsings sources = b.appendUsings ns ∧
      b.appendUsings ns = b.write (b.lineEnding.writeLines b.margin (ns.map usingDirective))) ∧
    (∀ others : List (List Text), others.flatten = sources.flatten →
      b.appendMultipleUsings others = b.appendMultipleUsings sources) ∧
    (∀ source, (∀ ns ∈ source, ns ∈ sources.flatten) →
      b.appendMultipleUsings (sources ++ [source]) = b.appendMultipleUsings sources) ∧
    (∀ more ns longer, FirstOccurrences sources.flatten ns →
      FirstOccurrences (sources ++ more).flatten longer →
      ns.map usingDirective <+: longer.map usingDirective) := by
  have first := firstOccurrences_eraseDups sources.flatten
  refine ⟨⟨_, first, fun ns h => first.unique h⟩, ?_, ?_, ?_, ?_⟩
  · intro ns h
    refine ⟨?_, b.appendUsings_eq_write ns⟩
    rw [appendMultipleUsings, first.unique h]
  · intro others h
    rw [appendMultipleUsings, appendMultipleUsings, h]
  · intro source h
    rw [appendMultipleUsings, appendMultipleUsings, List.flatten_append, List.flatten_singleton,
      eraseDups_append_of_forall_mem h]
  · intro more ns longer h h'
    rw [List.flatten_append] at h'
    exact (h.isPrefix_append h').map usingDirective

open TextBuilder in
theorem appendMultipleUsings_writes_first_occurrences_shared :
    let b := ((withWidth 2).atDepth 1).write ['x']
    let sources := [["B".toList, "A".toList, "B".toList], [], ["A".toList, "C".toList]]
    let others := [["B".toList], ["A".toList, "B".toList, "A".toList, "C".toList]]
    let ns := ["B".toList, "A".toList, "C".toList]
    let more := [["A".toList, "D".toList]]
    let longer := ["B".toList, "A".toList, "C".toList, "D".toList]
    FirstOccurrences sources.flatten ns ∧
      b.appendMultipleUsings sources = b.appendUsings ns ∧
      b.appendUsings ns = b.write "  using B;\n  using A;\n  using C;\n".toList ∧
      others.flatten = sources.flatten ∧
      b.appendMultipleUsings others = b.appendMultipleUsings sources ∧
      b.appendMultipleUsings (sources ++ [["C".toList, "B".toList]]) =
        b.appendMultipleUsings sources ∧
      FirstOccurrences (sources ++ more).flatten longer ∧
      ns.map usingDirective <+: longer.map usingDirective := by
  intro b sources others ns more longer
  obtain ⟨-, written, grouped, repeated, further⟩ :=
    appendMultipleUsings_writes_first_occurrences b sources
  have first : FirstOccurrences sources.flatten ns := by decide
  have flat : others.flatten = sources.flatten := by decide
  have all : FirstOccurrences (sources ++ more).flatten longer := by decide
  obtain ⟨once, lines⟩ := written ns first
  exact ⟨first, once, lines.trans (by decide), flat, grouped others flat, repeated _ (by decide),
    all, further more ns longer first all⟩

end SourceGen
