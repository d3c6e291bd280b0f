import Karupasu.Library.Loops
import Mathlib.Data.List.Nodup
import Mathlib.Logic.Function.Basic

/-!
# Matching two lists by a key

The entries of a first list are put in a dictionary by their keys. The entries of a second list
then look their keys up, and the places of the two lists point to each other. Either loop fails
at an entry whose key has been met before.
-/
namespace Karupasu.Library.Matching

open Karupasu.Library.Loops

universe u v w x

variable {α : Type u} {κ : Type v} {ι : Type w} {ι' : Type w} {ε : Type x}

def index [DecidableEq κ] (key : α → κ) (duplicate : ι → α → ε) (m : κ → Option ι) (p : α × ι) :
    Except ε (κ → Option ι) :=
  match m (key p.1) with
  | some i => throw (duplicate i p.1)
  | none => pure (Function.update m (key p.1) (some p.2))

def link [DecidableEq ι] [DecidableEq ι'] (key : α → κ) (duplicate : α → ε) (m : κ → Option ι)
    (t : (ι → Option ι') × (ι' → Option ι)) (p : α × ι') :
    Except ε ((ι → Option ι') × (ι' → Option ι)) :=
  match m (key p.1) with
  | none => pure t
  | some i =>
    if (t.1 i).isSome then throw (duplicate p.1)
    else pure (Function.update t.1 i (some p.2), Function.update t.2 p.2 (some i))

/-! ## The dictionary -/

section Index

variable [DecidableEq κ] (key : α → κ)

/-- The dictionary of a list of entries. -/
structure Indexes (ps : List (α × ι)) (m : κ → Option ι) : Prop where
  nodup : (ps.map fun p => key p.1).Nodup
  lookup : ∀ c i, m c = some i ↔ ∃ a, (a, i) ∈ ps ∧ key a = c

theorem indexes_concat {ps : List (α × ι)} {m : κ → Option ι} {p : α × ι}
    (h : Indexes key ps m) (hp : m (key p.1) = none) :
    Indexes key (ps ++ [p]) (Function.update m (key p.1) (some p.2)) := by
  have hnew : ∀ a i, (a, i) ∈ ps → key a ≠ key p.1 := by
    intro a i ha hk
    have hm := (h.lookup (key a) i).mpr ⟨a, ha, rfl⟩
    rw [hk, hp] at hm
    exact nomatch hm
  constructor
  · rw [List.map_append, List.map_singleton, ← List.concat_eq_append, List.nodup_concat]
    refine ⟨fun hm => ?_, h.nodup⟩
    obtain ⟨q, hq, he⟩ := List.mem_map.mp hm
    exact hnew q.1 q.2 hq he
  · intro c i
    by_cases hc : c = key p.1
    · subst hc
      rw [Function.update_self]
      constructor
      · intro hi
        obtain rfl := Option.some.inj hi
        exact ⟨p.1, List.mem_append_right ps (List.mem_singleton_self p), rfl⟩
      · rintro ⟨a, ha, hk⟩
        rcases List.mem_append.mp ha with ha | ha
        · exact absurd hk (hnew a i ha)
        · rw [← List.mem_singleton.mp ha]
    · rw [Function.update_of_ne hc, h.lookup]
      constructor
      · rintro ⟨a, ha, hk⟩
        exact ⟨a, List.mem_append_left [p] ha, hk⟩
      · rintro ⟨a, ha, hk⟩
        rcases List.mem_append.mp ha with ha | ha
        · exact ⟨a, ha, hk⟩
        · obtain rfl := List.mem_singleton.mp ha
          exact absurd hk.symm hc

theorem foldlM_index (duplicate : ι → α → ε) (ps : List (α × ι)) :
    (∃ m, ps.foldlM (index key duplicate) (fun _ => none) = .ok m ∧ Indexes key ps m) ∨
      ∃ e, ps.foldlM (index key duplicate) (fun _ => none) = .error e ∧
        (∃ p ∈ ps, ∃ q ∈ ps, e = duplicate p.2 q.1) ∧ ¬(ps.map fun p => key p.1).Nodup := by
  refine foldlM_ends (P := Indexes key)
    (Q := fun ps e => (∃ p ∈ ps, ∃ q ∈ ps, e = duplicate p.2 q.1) ∧
      ¬(ps.map fun p => key p.1).Nodup) ?_ ps ?_ ?_
  · exact ⟨List.nodup_nil, fun c i => iff_of_false (fun h => nomatch h) (by simp)⟩
  · intro ps p m h
    unfold index
    cases hp : m (key p.1) with
    | none => exact .inl ⟨_, rfl, indexes_concat key h hp⟩
    | some i =>
      obtain ⟨a, ha, hk⟩ := (h.lookup _ i).mp hp
      have hlast : p ∈ ps ++ [p] := List.mem_append_right ps (List.mem_singleton_self p)
      refine .inr ⟨_, rfl, ⟨(a, i), List.mem_append_left [p] ha, p, hlast, rfl⟩, fun hn => ?_⟩
      rw [List.map_append, List.map_singleton, ← List.concat_eq_append, List.nodup_concat] at hn
      exact hn.1 (List.mem_map.mpr ⟨(a, i), ha, hk⟩)
  · rintro ps p e ⟨⟨q, hq, r, hr, he⟩, hn⟩
    refine ⟨⟨q, List.mem_append_left [p] hq, r, List.mem_append_left [p] hr, he⟩, fun h => hn ?_⟩
    rw [List.map_append] at h
    exact h.of_append_left

variable {key} {ps : List (α × ι)} {m : κ → Option ι}

omit [DecidableEq κ] in
theorem Indexes.injective (h : Indexes key ps m) (hp : (ps.map Prod.snd).Nodup) (c d : κ) (i : ι)
    (hc : m c = some i) (hd : m d = some i) : c = d := by
  obtain ⟨a, ha, rfl⟩ := (h.lookup c i).mp hc
  obtain ⟨b, hb, rfl⟩ := (h.lookup d i).mp hd
  have hab : (a, i) = (b, i) := List.inj_on_of_nodup_map hp ha hb rfl
  rw [(Prod.mk.inj hab).1]

theorem Indexes.isSome_iff (h : Indexes key ps m) (c : κ) :
    (m c).isSome = decide (c ∈ ps.map fun p => key p.1) := by
  rw [Bool.eq_iff_iff, decide_eq_true_iff, Option.isSome_iff_exists, List.mem_map]
  constructor
  · rintro ⟨i, hi⟩
    obtain ⟨a, ha, hk⟩ := (h.lookup c i).mp hi
    exact ⟨(a, i), ha, hk⟩
  · rintro ⟨⟨a, i⟩, ha, hk⟩
    exact ⟨i, (h.lookup c i).mpr ⟨a, ha, hk⟩⟩

end Index

/-! ## The links -/

section Link

variable [DecidableEq ι] [DecidableEq ι'] (key : α → κ)

/-- The keys of a list that are in the dictionary. -/
def known (m : κ → Option ι) (qs : List (α × ι')) : List κ :=
  (qs.map fun q => key q.1).filter fun c => (m c).isSome

structure Links (m : κ → Option ι) (qs : List (α × ι')) (t : (ι → Option ι') × (ι' → Option ι)) :
    Prop where
  nodup : (known key m qs).Nodup
  there : ∀ i j, t.1 i = some j ↔ ∃ a, (a, j) ∈ qs ∧ m (key a) = some i
  back : (qs.map Prod.snd).Nodup →
    ∀ i j, t.2 j = some i ↔ ∃ a, (a, j) ∈ qs ∧ m (key a) = some i

omit [DecidableEq ι] [DecidableEq ι'] in
theorem known_concat (m : κ → Option ι) (qs : List (α × ι')) (q : α × ι') :
    known key m (qs ++ [q]) = known key m qs ++ if (m (key q.1)).isSome then [key q.1] else [] := by
  simp only [known, List.map_append, List.filter_append, List.map_singleton, List.filter_singleton,
    cond_eq_ite]

variable {key}

omit [DecidableEq ι'] in
/-- One link more, at places that point nowhere yet. -/
theorem update_eq_some_iff {f : ι → Option ι'} {R : ι → ι' → Prop} {i : ι} {j : ι'}
    (hf : ∀ a b, f a = some b ↔ R a b) (hi : f i = none) (a : ι) (b : ι') :
    Function.update f i (some j) a = some b ↔ R a b ∨ (a = i ∧ b = j) := by
  by_cases ha : a = i
  · subst ha
    rw [Function.update_self]
    have hr : ¬R a b := fun hr => by
      rw [← hf, hi] at hr
      exact nomatch hr
    rw [Option.some.injEq]
    exact ⟨fun h => .inr ⟨rfl, h.symm⟩, fun h => (h.resolve_left hr).2.symm⟩
  · rw [Function.update_of_ne ha, hf]
    exact ⟨.inl, fun h => h.resolve_right fun h => ha h.1⟩

omit [DecidableEq ι] [DecidableEq ι'] in
theorem mem_concat_link {m : κ → Option ι} {qs : List (α × ι')} {q : α × ι'} (i : ι) (j : ι') :
    (∃ a, (a, j) ∈ qs ++ [q] ∧ m (key a) = some i) ↔
      (∃ a, (a, j) ∈ qs ∧ m (key a) = some i) ∨ (m (key q.1) = some i ∧ j = q.2) := by
  constructor
  · rintro ⟨a, ha, hm⟩
    rcases List.mem_append.mp ha with ha | ha
    · exact .inl ⟨a, ha, hm⟩
    · obtain rfl := List.mem_singleton.mp ha
      exact .inr ⟨hm, rfl⟩
  · rintro (⟨a, ha, hm⟩ | ⟨hm, rfl⟩)
    · exact ⟨a, List.mem_append_left [q] ha, hm⟩
    · exact ⟨q.1, List.mem_append_right qs (List.mem_singleton_self q), hm⟩

theorem links_concat {m : κ → Option ι}
    {qs : List (α × ι')} {t : (ι → Option ι') × (ι' → Option ι)} (h : Links key m qs t)
    {q : α × ι'} {i : ι} (hq : m (key q.1) = some i) (ht : t.1 i = none) :
    Links key m (qs ++ [q])
      (Function.update t.1 i (some q.2), Function.update t.2 q.2 (some i)) := by
  have hnew : ∀ a j, (a, j) ∈ qs → m (key a) ≠ some i := by
    intro a j ha hk
    have hi := (h.there i j).mpr ⟨a, ha, hk⟩
    rw [ht] at hi
    exact nomatch hi
  refine ⟨?_, fun a b => ?_, fun hn a b => ?_⟩
  · rw [known_concat, if_pos (by rw [hq]; rfl), ← List.concat_eq_append, List.nodup_concat]
    refine ⟨fun hk => ?_, h.nodup⟩
    obtain ⟨r, hr, he⟩ := List.mem_map.mp (List.mem_filter.mp hk).1
    exact hnew r.1 r.2 hr (he ▸ hq)
  · rw [mem_concat_link, update_eq_some_iff h.there ht, hq]
    exact or_congr Iff.rfl (and_congr_left' ⟨fun h => h ▸ rfl, fun h => (Option.some.inj h).symm⟩)
  · rw [List.map_append, List.map_singleton, ← List.concat_eq_append, List.nodup_concat] at hn
    have hfree : t.2 q.2 = none := by
      rw [Option.eq_none_iff_forall_not_mem]
      intro k hk
      obtain ⟨a, ha, -⟩ := (h.back hn.2 k q.2).mp hk
      exact hn.1 (List.mem_map.mpr ⟨(a, q.2), ha, rfl⟩)
    rw [mem_concat_link, update_eq_some_iff (fun j k => h.back hn.2 k j) hfree, hq, and_comm]
    exact or_congr Iff.rfl (and_congr_left' ⟨fun h => h ▸ rfl, fun h => (Option.some.inj h).symm⟩)

theorem foldlM_link {m : κ → Option ι} (hm : ∀ c d i, m c = some i → m d = some i → c = d)
    (duplicate : α → ε) (qs : List (α × ι')) :
    (∃ t, qs.foldlM (link key duplicate m) (fun _ => none, fun _ => none) = .ok t ∧
        Links key m qs t) ∨
      ∃ e, qs.foldlM (link key duplicate m) (fun _ => none, fun _ => none) = .error e ∧
        (∃ q ∈ qs, e = duplicate q.1) ∧ ¬(known key m qs).Nodup := by
  refine foldlM_ends (P := Links key m)
    (Q := fun qs e => (∃ q ∈ qs, e = duplicate q.1) ∧ ¬(known key m qs).Nodup) ?_ qs ?_ ?_
  · exact ⟨List.nodup_nil, fun i j => iff_of_false (fun h => nomatch h) (by simp),
      fun _ i j => iff_of_false (fun h => nomatch h) (by simp)⟩
  · intro qs q t h
    unfold link
    cases hq : m (key q.1) with
    | none =>
      have hskip : ∀ i j, (∃ a, (a, j) ∈ qs ++ [q] ∧ m (key a) = some i) ↔
          ∃ a, (a, j) ∈ qs ∧ m (key a) = some i := by
        intro i j
        rw [mem_concat_link, hq]
        exact or_iff_left fun h => nomatch h.1
      refine .inl ⟨t, rfl, ?_, fun i j => ?_, fun hn i j => ?_⟩
      · rw [known_concat, hq]
        simpa using h.nodup
      · rw [hskip, h.there]
      · rw [List.map_append] at hn
        rw [hskip, h.back hn.of_append_left]
    | some i =>
      cases ht : t.1 i with
      | none =>
        refine .inl ⟨_, ?_, links_concat h hq ht⟩
        simp only [ht, Option.isSome_none, Bool.false_eq_true, if_false]
        rfl
      | some j =>
        obtain ⟨a, ha, hk⟩ := (h.there i j).mp ht
        have hlast : q ∈ qs ++ [q] := List.mem_append_right qs (List.mem_singleton_self q)
        refine .inr ⟨duplicate q.1, ?_, ⟨q, hlast, rfl⟩, fun hn => ?_⟩
        · simp only [ht, Option.isSome_some, if_true]
          rfl
        rw [known_concat, if_pos (by rw [hq]; rfl), ← List.concat_eq_append, List.nodup_concat] at hn
        refine hn.1 (List.mem_filter.mpr ⟨List.mem_map.mpr ⟨(a, j), ha, hm _ _ i hk hq⟩, ?_⟩)
        rw [hq]
        rfl
  · rintro qs q e ⟨⟨r, hr, he⟩, hn⟩
    refine ⟨⟨r, List.mem_append_left [q] hr, he⟩, fun h => hn ?_⟩
    rw [known_concat] at h
    exact h.of_append_left

end Link

end Karupasu.Library.Matching
