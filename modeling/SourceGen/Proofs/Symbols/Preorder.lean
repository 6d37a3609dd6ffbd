import SourceGen.Proofs.Symbols.Search

/-! # The order of a search

The search keeps a stack, but it expands types in the order of the recursive search that goes
through a type's base and all behind it before it turns to the interfaces. The stack holds
what the calls under way have still to visit, the innermost call first. -/
namespace SourceGen

variable {α : Type}

/-- The recursive search visits types in turn: from the types expanded before, in order, to those
expanded afterwards, and whether it met the target. It stops at the target, skips an expanded
type, and expands any other one, visiting its base and then its interfaces before what follows. -/
inductive Explores (g : TypeGraph α) (target : α) : List α → List α → List α → Bool → Prop where
  | nil {vs} : Explores g target [] vs vs false
  | stop {xs vs} : Explores g target (target :: xs) vs vs true
  | skip {x xs vs ws b} : x ≠ target → x ∈ vs → Explores g target xs vs ws b →
      Explores g target (x :: xs) vs ws b
  | found {x xs vs ws} : x ≠ target → x ∉ vs →
      Explores g target ((g.base x).toList ++ g.interfaces x) (vs ++ [x]) ws true →
      Explores g target (x :: xs) vs ws true
  | expand {x xs vs us ws b} : x ≠ target → x ∉ vs →
      Explores g target ((g.base x).toList ++ g.interfaces x) (vs ++ [x]) us false →
      Explores g target xs us ws b → Explores g target (x :: xs) vs ws b

variable {g : TypeGraph α} {target : α} {xs vs ws : List α} {b : Bool}

theorem Explores.unique (h : Explores g target xs vs ws b) {ws' : List α} {b' : Bool}
    (h' : Explores g target xs vs ws' b') : ws' = ws ∧ b' = b := by
  induction h generalizing ws' b' with
  | nil =>
    cases h'
    exact ⟨rfl, rfl⟩
  | stop =>
    cases h' with
    | stop => exact ⟨rfl, rfl⟩
    | skip hx | found hx | expand hx => exact absurd rfl hx
  | skip hx hv _ ih =>
    cases h' with
    | stop => exact absurd rfl hx
    | skip _ _ h' => exact ih h'
    | found _ hn | expand _ hn => exact absurd hv hn
  | found hx hv _ ih =>
    cases h' with
    | stop => exact absurd rfl hx
    | skip _ hn => exact absurd hn hv
    | found _ _ h' => exact ih h'
    | expand _ _ h' _ => exact absurd (ih h').2 (by simp)
  | expand hx hv _ _ ihp ih =>
    cases h' with
    | stop => exact absurd rfl hx
    | skip _ hn => exact absurd hn hv
    | found _ _ h' => exact absurd (ihp h').2 (by simp)
    | expand _ _ hp h' =>
      obtain ⟨rfl, -⟩ := ihp hp
      exact ih h'

namespace Search

/-- The search in which `vs` have been expanded, in this order, and `pending` come next. -/
def after (g : TypeGraph α) (vs pending : List α) : Search α :=
  ⟨pending, vs.reverse, vs.flatMap g.expansionQuestions⟩

variable [DecidableEq α] {x : α} {rest : List α} {r : Asked (Question α) Bool} {n : Nat}

theorem runWithin_after_target :
    runWithin g target (n + 1) (after g vs (target :: rest)) =
      some ⟨true, vs.flatMap g.expansionQuestions⟩ := by
  simp [runWithin, step, after]

theorem runWithin_after_skip (hx : x ≠ target) (hv : x ∈ vs) :
    runWithin g target (n + 1) (after g vs (x :: rest)) =
      runWithin g target n (after g vs rest) := by
  simp [runWithin, step, after, hx, hv]

theorem runWithin_after_expand (hx : x ≠ target) (hv : x ∉ vs) :
    runWithin g target (n + 1) (after g vs (x :: rest)) =
      runWithin g target n (after g (vs ++ [x]) (g.parents x ++ rest)) := by
  simp [runWithin, step, after, hx, hv]

/-- A search that ends has explored the types on top of its stack: either it met the target among
them, or it went on with the rest of the stack. -/
theorem explores_of_runWithin (h : runWithin g target n (after g vs (xs ++ rest)) = some r) :
    (∃ ws, Explores g target xs vs ws true ∧ r = ⟨true, ws.flatMap g.expansionQuestions⟩) ∨
      ∃ ws m, m ≤ n ∧ Explores g target xs vs ws false ∧
        runWithin g target m (after g ws rest) = some r := by
  induction n using Nat.strong_induction_on generalizing xs vs rest with
  | _ n ih =>
  cases xs with
  | nil => exact .inr ⟨vs, n, le_rfl, .nil, h⟩
  | cons x xs =>
    cases n with
    | zero => cases h
    | succ n =>
      rw [List.cons_append] at h
      by_cases hx : x = target
      · subst hx
        rw [runWithin_after_target] at h
        exact .inl ⟨vs, .stop, (Option.some.inj h).symm⟩
      by_cases hv : x ∈ vs
      · rw [runWithin_after_skip hx hv] at h
        rcases ih n (by omega) h with ⟨ws, he, hr⟩ | ⟨ws, m, hm, he, hr⟩
        · exact .inl ⟨ws, .skip hx hv he, hr⟩
        · exact .inr ⟨ws, m, by omega, .skip hx hv he, hr⟩
      -- The parents go on top of the stack, so the recursive calls for them come first.
      rw [runWithin_after_expand hx hv] at h
      rcases ih n (by omega) h with ⟨ws, he, hr⟩ | ⟨us, m, hm, he, hr⟩
      · exact .inl ⟨ws, .found hx hv he, hr⟩
      rcases ih m (by omega) hr with ⟨ws, he', hr⟩ | ⟨ws, k, hk, he', hr⟩
      · exact .inl ⟨ws, .expand hx hv he he', hr⟩
      · exact .inr ⟨ws, k, by omega, .expand hx hv he he', hr⟩

end Search

namespace TypeGraph

theorem expansionQuestions_of_isSome (h : g.interfaces?.isSome) (x : α) :
    g.expansionQuestions x = [.interfaces x, .base x] := by
  obtain ⟨declared, hd⟩ := Option.isSome_iff_exists.mp h
  simp [expansionQuestions, interfaceQuestions, hd]

theorem expansionQuestions_of_eq_none (h : g.interfaces? = none) (x : α) :
    g.expansionQuestions x = [.base x] := by
  simp [expansionQuestions, interfaceQuestions, h]

theorem filterMap_questions (xs : List α) :
    (xs.flatMap g.expansionQuestions).filterMap
      (fun | .base x => some x | .interfaces _ => none) = xs := by
  induction xs with
  | nil => rfl
  | cons x xs ih =>
    rw [List.flatMap_cons, List.filterMap_append, ih]
    cases hd : g.interfaces? <;> simp [expansionQuestions, interfaceQuestions, hd]

variable [DecidableEq α]

theorem count_questions {q : Question α} {y : α}
    (hq : ∀ x, (g.expansionQuestions x).count q = if x = y then 1 else 0) (xs : List α) :
    (xs.flatMap g.expansionQuestions).count q = xs.count y := by
  induction xs with
  | nil => rfl
  | cons x xs ih =>
    rw [List.flatMap_cons, List.count_append, ih, hq, List.count_cons, Nat.add_comm]
    simp

theorem count_base (x y : α) :
    (g.expansionQuestions x).count (.base y) = if x = y then 1 else 0 := by
  cases hd : g.interfaces? <;>
    simp [expansionQuestions, interfaceQuestions, hd, List.count_cons]

theorem count_interfaces (h : g.interfaces?.isSome) (x y : α) :
    (g.expansionQuestions x).count (.interfaces y) = if x = y then 1 else 0 := by
  simp [expansionQuestions_of_isSome h, List.count_cons]

theorem explores_of_implementsWithin {a : α} {n : Nat} {qs : List (Question α)}
    (h : g.implementsWithin n a target = some ⟨b, qs⟩) :
    ∃ ws, Explores g target [a] [] ws b ∧ qs = ws.flatMap g.expansionQuestions := by
  have hs : Search.runWithin g target n (Search.after g [] ([a] ++ [])) = some ⟨b, qs⟩ := h
  rcases Search.explores_of_runWithin hs with ⟨ws, he, hr⟩ | ⟨ws, m, -, he, hm⟩
  · cases hr
    exact ⟨ws, he, rfl⟩
  · cases m with
    | zero => cases hm
    | succ m =>
      cases hm
      exact ⟨ws, he, rfl⟩

/-- The search asks for the types that the recursive search expands, in its order: interfaces
first where the host answers for them, then the base. It asks for no type twice and never for
the target, and if it does not meet the target it asks for every type it can reach. -/
theorem implements_asks_in_preorder {a : α} (h : {x | g.Reaches a x}.Finite) (target : α) :
    ∃ xs b qs, (∀ ys c, Explores g target [a] [] ys c ↔ ys = xs ∧ c = b) ∧
      Settles (fun n => g.implementsWithin n a target) ⟨b, qs⟩ ∧
      (g.interfaces?.isSome → qs = xs.flatMap fun x => [.interfaces x, .base x]) ∧
      (g.interfaces? = none → qs = xs.map .base) ∧
      xs.Nodup ∧ target ∉ xs ∧
      (b = false → ∀ y, g.Reaches a y → qs.count (.base y) = 1 ∧
        (g.interfaces?.isSome → qs.count (.interfaces y) = 1)) := by
  obtain ⟨e, b, he, hb, hs⟩ := exists_search_end h target
  obtain ⟨n, hn⟩ := hs.exists_eq_some
  obtain ⟨xs, hx, hq⟩ := explores_of_implementsWithin hn
  have hv : xs = e.visited.reverse := by
    rw [← filterMap_questions (g := g) xs, ← hq, he.asked, filterMap_questions]
  have hnd : xs.Nodup := hv ▸ List.nodup_reverse.mpr he.nodup
  refine ⟨xs, b, e.questions, ?_, hs, ?_, ?_, hnd, ?_, ?_⟩
  · intro ys c
    exact ⟨hx.unique, by rintro ⟨rfl, rfl⟩; exact hx⟩
  · intro hd
    rw [hq, funext (expansionQuestions_of_isSome hd)]
  · intro hd
    rw [hq, funext (expansionQuestions_of_eq_none hd), List.map_eq_flatMap]
  · simpa [hv] using he.missed
  · rintro rfl y hy
    have hp : e.pending = [] := by simpa using Search.step_eq_inl hb
    have hy : y ∈ xs := by simpa [hv] using he.visited_of_reaches hp hy
    have hc : xs.count y = 1 := List.count_eq_one_of_mem hnd hy
    exact ⟨by rw [hq, count_questions (count_base · y), hc],
      fun hd => by rw [hq, count_questions (count_interfaces hd · y), hc]⟩

theorem implements_asks_in_preorder_ring :
    {x | ring.Reaches 0 x}.Finite ∧ Explores ring 9 [0] [] [0, 1, 2, 4] false ∧
      ∃ qs, Settles (fun n => ring.implementsWithin n 0 9) ⟨false, qs⟩ ∧
        qs = [.interfaces 0, .base 0, .interfaces 1, .base 1, .interfaces 2, .base 2,
          .interfaces 4, .base 4] := by
  have h4 : Explores ring 9 [4, 0, 4] [0, 1, 2] [0, 1, 2, 4] false :=
    .expand (by decide) (by decide) .nil
      (.skip (by decide) (by decide) (.skip (by decide) (by decide) .nil))
  have h2 : Explores ring 9 [2, 4, 0, 4] [0, 1] [0, 1, 2, 4] false :=
    .expand (by decide) (by decide) (.skip (by decide) (by decide) .nil) h4
  have h1 : Explores ring 9 [1] [0] [0, 1, 2, 4] false :=
    .expand (by decide) (by decide) h2 .nil
  have h0 : Explores ring 9 [0] [] [0, 1, 2, 4] false :=
    .expand (by decide) (by decide) h1 .nil
  obtain ⟨xs, b, qs, hx, hs, hq, -⟩ := implements_asks_in_preorder finite_reaches_ring 9
  obtain ⟨rfl, rfl⟩ := (hx _ _).mp h0
  exact ⟨finite_reaches_ring, h0, qs, hs, hq rfl⟩

end TypeGraph

end SourceGen
