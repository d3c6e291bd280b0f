import Mathlib.Data.List.Basic

/-!
# Lists of keyed entries

Replacing the entry with a given key, and what it has to do with writing to the
position at which that entry was once found; and choosing the entries of given keys.
-/
namespace Karupasu.Library.KeyedList

variable {α κ : Type*} [DecidableEq κ] (key : α → κ)

/-- Put `v` in the place of each entry with key `k`. -/
def replaceKey (k : κ) (v : α) (l : List α) : List α := l.map (fun x => if key x = k then v else x)

/-- No position but `i` holds an entry with key `k`. -/
def OnlyAt (l : List α) (i : Nat) (k : κ) : Prop := ∀ j x, l[j]? = some x → key x = k → j = i

variable {key}

omit [DecidableEq κ] in
theorem onlyAt_of_nodup {l : List α} (hn : (l.map key).Nodup) {i : Nat} {x : α}
    (hx : l[i]? = some x) : OnlyAt key l i (key x) := by
  intro j y hy hk
  obtain ⟨hi, _⟩ := List.getElem?_eq_some_iff.mp hx
  have he : (l.map key)[i]? = (l.map key)[j]? := by
    rw [List.getElem?_map, List.getElem?_map, hx, hy, Option.map_some, Option.map_some, hk]
  have hi' : i < (l.map key).length := by simpa using hi
  exact ((List.getElem?_inj hi' hn).mp he).symm

/-- Writing to the one position of the key replaces its entry, whatever it has become. -/
theorem replaceKey_set {l : List α} {i : Nat} {k : κ} {x : α} (h : OnlyAt key l i k)
    (hx : key x = k) (v : α) : replaceKey key k v (l.set i x) = l.set i v := by
  apply List.ext_getElem?
  intro j
  rw [replaceKey, List.getElem?_map, List.getElem?_set, List.getElem?_set]
  by_cases hij : i = j
  · subst hij
    by_cases hlt : i < l.length
    · simp [hlt, hx]
    · simp [hlt]
  · rw [if_neg hij, if_neg hij]
    cases hj : l[j]? with
    | none => rfl
    | some y =>
      have hne : key y ≠ k := fun hk => hij (h j y hj hk).symm
      simp [hne]

/-- When writing to the position amounts to replacing the entry in another list, that list
differs at most in the entry. -/
theorem eq_set_of_replaceKey {l m : List α} {i : Nat} {k : κ} {v : α} (hi : i < l.length)
    (h : OnlyAt key l i k) (hv : key v = k) (he : replaceKey key k v m = l.set i v) :
    ∃ x, key x = k ∧ m = l.set i x := by
  have hat : ∀ j : Nat, m[j]?.map (fun x => if key x = k then v else x) = (l.set i v)[j]? := by
    intro j
    rw [← he, replaceKey, List.getElem?_map]
  have hi' := hat i
  rw [List.getElem?_set_self hi] at hi'
  obtain ⟨x, hmx, hvx⟩ := Option.map_eq_some_iff.mp hi'
  have hx : key x = k := by
    by_contra hne
    rw [if_neg hne] at hvx
    exact hne (hvx ▸ hv)
  refine ⟨x, hx, List.ext_getElem? fun j => ?_⟩
  by_cases hij : i = j
  · subst hij
    rw [List.getElem?_set_self hi, hmx]
  · have hj := hat j
    rw [List.getElem?_set_ne hij] at hj ⊢
    cases hm : m[j]? with
    | none =>
      rw [hm] at hj
      exact hj
    | some y =>
      rw [hm, Option.map_some] at hj
      by_cases hk : key y = k
      · -- then `l` would hold the entry at `j` as well
        rw [if_pos hk] at hj
        exact absurd (h j v hj.symm hv) (Ne.symm hij)
      · rw [if_neg hk] at hj
        exact hj

/-! ## Entries of given keys -/

theorem filter_eq_filter_iff {l : List α} {p q : α → Bool} :
    l.filter p = l.filter q ↔ ∀ a ∈ l, p a = q a := by
  constructor
  · intro h a ha
    rw [Bool.eq_iff_iff]
    have hmem : a ∈ l.filter p ↔ a ∈ l.filter q := by rw [h]
    simpa only [List.mem_filter, ha, true_and] using hmem
  · exact List.filter_congr

/-- Another key, however often it is added, changes what is chosen when it is new and listed. -/
theorem filter_contains_append_iff (key : α → κ) (l : List α) (keys : List κ) (n : Nat) (k : κ) :
    l.filter (fun a => keys.contains (key a)) =
        l.filter (fun a => (keys ++ List.replicate n k).contains (key a)) ↔
      n = 0 ∨ k ∈ keys ∨ k ∉ l.map key := by
  rw [filter_eq_filter_iff]
  constructor
  · intro h
    by_cases hn : n = 0
    · exact .inl hn
    · by_cases hk : k ∈ keys
      · exact .inr (.inl hk)
      · refine .inr (.inr fun hmem => ?_)
        obtain ⟨a, ha, rfl⟩ := List.mem_map.mp hmem
        have hc := h a ha
        rw [Bool.eq_iff_iff, List.contains_iff_mem, List.contains_iff_mem] at hc
        exact hk (hc.mpr (List.mem_append_right _ (List.mem_replicate.mpr ⟨hn, rfl⟩)))
  · intro h a ha
    rw [Bool.eq_iff_iff, List.contains_iff_mem, List.contains_iff_mem, List.mem_append,
      List.mem_replicate]
    refine ⟨.inl, fun hmem => ?_⟩
    rcases hmem with hmem | ⟨hn, he⟩
    · exact hmem
    · rcases h with h | h | h
      · exact absurd h hn
      · rw [he]
        exact h
      · exact absurd (List.mem_map.mpr ⟨a, ha, he⟩) h

end Karupasu.Library.KeyedList
