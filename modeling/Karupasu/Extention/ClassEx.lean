import Mathlib.Data.List.Induction

/-!
# First occurrences: `Array.unique`

The `reduce` carries the elements kept so far, and the closure a dictionary of the elements
met so far; both are extended in the same turns.
-/
namespace Karupasu.ClassEx

variable {α : Type*} [BEq α]

section Model

variable [Hashable α]

/-- One turn of the `reduce`, with the dictionary that the closure has captured. -/
def turn (s : List α × Std.HashMap α Bool) (element : α) : List α × Std.HashMap α Bool :=
  if s.2[element]? ≠ none then s
  else (s.1 ++ [element], s.2.insert element true)

def reduced (a : List α) : List α × Std.HashMap α Bool := a.foldl turn ([], ∅)

def unique (a : List α) : List α := (reduced a).1

end Model

/-- `u` has the elements of `a` once each, where they occur first; all up to `==`. -/
structure KeepsFirst (a u : List α) : Prop where
  distinct : u.Pairwise fun x y => (x == y) = false
  contains_eq : ∀ x, u.contains x = a.contains x
  first : ∀ y ∈ u, a.find? (· == y) = some y
  ordered : u.Pairwise fun x y => a.idxOf x < a.idxOf y
  sublist : u.Sublist a

/-! ## Turns -/

theorem contains_concat (l : List α) (e x : α) :
    (l ++ [e]).contains x = (l.contains x || x == e) := by
  rw [List.contains_append, List.contains_cons, List.contains_nil, Bool.or_false]

theorem contains_eq_false_iff [PartialEquivBEq α] {l : List α} {e : α} :
    l.contains e = false ↔ ∀ x ∈ l, (x == e) = false := by
  rw [List.contains_eq_any_beq, List.any_eq_false]
  refine forall₂_congr fun x _ => ?_
  rw [BEq.comm, Bool.not_eq_true]

section Turns

variable [Hashable α]

theorem reduced_concat (a : List α) (element : α) :
    reduced (a ++ [element]) = turn (reduced a) element := by
  rw [reduced, List.foldl_append]
  rfl

/-- The dictionary has exactly the elements kept. -/
def Agrees (s : List α × Std.HashMap α Bool) : Prop := ∀ x, s.2.contains x = s.1.contains x

variable [EquivBEq α] [LawfulHashable α]

theorem agrees_turn {s : List α × Std.HashMap α Bool} (h : Agrees s) (element : α) :
    Agrees (turn s element) := by
  unfold turn
  split
  · exact h
  · intro x
    rw [Std.HashMap.contains_insert, h x, contains_concat, BEq.comm, Bool.or_comm]

theorem agrees_reduced (a : List α) : Agrees (reduced a) := by
  induction a using List.reverseRecOn with
  | nil => exact fun x => Std.HashMap.contains_empty
  | append_singleton a element ih =>
    rw [reduced_concat]
    exact agrees_turn ih element

/-- A new element is kept when none equal to it has been. -/
theorem unique_concat (a : List α) (element : α) :
    unique (a ++ [element]) =
      if (unique a).contains element then unique a else unique a ++ [element] := by
  have hc : (reduced a).2[element]? ≠ none ↔ (unique a).contains element = true := by
    rw [unique, ← agrees_reduced a element, Std.HashMap.contains_eq_isSome_getElem?,
      Option.isSome_iff_ne_none]
  rw [unique, reduced_concat, turn]
  by_cases h : (unique a).contains element = true
  · rw [if_pos (hc.mpr h), if_pos h]
    rfl
  · rw [if_neg fun hn => h (hc.mp hn), if_neg h]
    rfl

/-- What is distinct already is kept whole. -/
theorem unique_of_distinct {u : List α} (h : u.Pairwise fun x y => (x == y) = false) :
    unique u = u := by
  induction u using List.reverseRecOn with
  | nil => rfl
  | append_singleton u element ih =>
    obtain ⟨hu, -, hlast⟩ := List.pairwise_append.mp h
    have hnew : u.contains element = false := by
      apply contains_eq_false_iff.mpr
      intro y hy
      exact hlast y hy element (List.mem_singleton_self element)
    rw [unique_concat, ih hu, hnew, if_neg Bool.false_ne_true]

end Turns

/-! ## First occurrences -/

variable [EquivBEq α]

theorem idxOf_lt_length_iff {l : List α} {x : α} :
    l.idxOf x < l.length ↔ l.contains x = true := by
  rw [List.idxOf, List.findIdx_lt_length, List.contains_iff_exists_mem_beq]
  simp only [BEq.comm (a := x)]

theorem idxOf_concat_of_contains {a : List α} {x : α} (h : a.contains x = true) (e : α) :
    (a ++ [e]).idxOf x = a.idxOf x := by
  have hlt : a.findIdx (· == x) < a.length := idxOf_lt_length_iff.mpr h
  rw [List.idxOf, List.findIdx_append, if_pos hlt]

theorem idxOf_concat_self {a : List α} {e : α} (h : a.contains e = false) :
    (a ++ [e]).idxOf e = a.length := by
  have hge : ¬a.findIdx (· == e) < a.length := by
    intro hlt
    rw [idxOf_lt_length_iff.mp hlt] at h
    exact Bool.noConfusion h
  rw [List.idxOf, List.findIdx_append, if_neg hge, List.findIdx_singleton, BEq.rfl, if_pos rfl,
    Nat.zero_add]

namespace KeepsFirst

variable {a u : List α} {e : α}

theorem contains_of_mem (h : KeepsFirst a u) {y : α} (hy : y ∈ u) : a.contains y = true := by
  rw [← h.contains_eq]
  exact List.contains_iff_exists_mem_beq.mpr ⟨y, hy, BEq.rfl⟩

theorem ordered_concat (h : KeepsFirst a u) (e : α) :
    u.Pairwise fun x y => (a ++ [e]).idxOf x < (a ++ [e]).idxOf y := by
  refine h.ordered.imp_of_mem fun hx hy hlt => ?_
  rw [idxOf_concat_of_contains (h.contains_of_mem hx),
    idxOf_concat_of_contains (h.contains_of_mem hy)]
  exact hlt

/-- An element met before changes no first occurrence. -/
theorem skip (h : KeepsFirst a u) (he : u.contains e = true) : KeepsFirst (a ++ [e]) u where
  distinct := h.distinct
  contains_eq x := by
    rw [contains_concat, h.contains_eq x]
    by_cases hx : (x == e) = true
    · rw [List.contains_congr hx, ← h.contains_eq e, he, Bool.true_or]
    · rw [eq_false_of_ne_true hx, Bool.or_false]
  first y hy := by rw [List.find?_append, h.first y hy, Option.some_or]
  ordered := h.ordered_concat e
  sublist := h.sublist.trans (List.sublist_append_left a [e])

/-- A new element occurs first where it is added. -/
theorem keep (h : KeepsFirst a u) (he : u.contains e = false) :
    KeepsFirst (a ++ [e]) (u ++ [e]) where
  distinct := by
    refine List.pairwise_append.mpr ⟨h.distinct, List.pairwise_singleton _ e, ?_⟩
    intro x hx y hy
    rw [List.mem_singleton.mp hy]
    exact contains_eq_false_iff.mp he x hx
  contains_eq x := by rw [contains_concat, contains_concat, h.contains_eq x]
  first y hy := by
    rw [List.find?_append]
    rcases List.mem_append.mp hy with hy | hy
    · rw [h.first y hy, Option.some_or]
    · have hnone : a.find? (· == e) = none := by
        rw [h.contains_eq] at he
        refine List.find?_eq_none.mpr fun x hx => ?_
        rw [contains_eq_false_iff.mp he x hx]
        exact Bool.false_ne_true
      rw [List.mem_singleton.mp hy, hnone, Option.none_or, List.find?_singleton, BEq.rfl,
        if_pos rfl]
  ordered := by
    have hnew : a.contains e = false := by rw [← h.contains_eq, he]
    refine List.pairwise_append.mpr ⟨h.ordered_concat e, List.pairwise_singleton _ e, ?_⟩
    intro x hx y hy
    rw [List.mem_singleton.mp hy, idxOf_concat_self hnew,
      idxOf_concat_of_contains (h.contains_of_mem hx)]
    exact idxOf_lt_length_iff.mpr (h.contains_of_mem hx)
  sublist := h.sublist.append (List.Sublist.refl [e])

end KeepsFirst

variable [Hashable α] [LawfulHashable α]

theorem keepsFirst_unique (a : List α) : KeepsFirst a (unique a) := by
  induction a using List.reverseRecOn with
  | nil =>
    exact ⟨List.Pairwise.nil, fun _ => rfl, fun _ hy => absurd hy List.not_mem_nil,
      List.Pairwise.nil, List.Sublist.refl []⟩
  | append_singleton a element ih =>
    rw [unique_concat]
    split
    · next he => exact ih.skip he
    · next he => exact ih.keep (eq_false_of_ne_true he)

/-- `unique` keeps the first occurrences, and once they are kept there is nothing to drop. -/
theorem unique_keeps_first (a : List α) :
    KeepsFirst a (unique a) ∧ unique (unique a) = unique a := by
  have h := keepsFirst_unique a
  exact ⟨h, unique_of_distinct h.distinct⟩

/-- The second `"a"` is dropped. -/
theorem unique_keeps_first_names :
    KeepsFirst ["a", "b", "a"] (unique ["a", "b", "a"]) ∧
      unique (unique ["a", "b", "a"]) = unique ["a", "b", "a"] :=
  unique_keeps_first ["a", "b", "a"]

end Karupasu.ClassEx
