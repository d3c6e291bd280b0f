import Mathlib.Data.List.InsertIdx
import Mathlib.Data.List.Sublists
import Mathlib.Data.List.MinMax
import Mathlib.Data.List.Perm.Subperm

/-!
# Insert/remove edit scripts between two lists

A script lists removals by offset and then insertions by offset, and is applied
one change after the other in that order. What survives the removals is a common
subsequence of the two lists; in a script of minimal size it is a longest one.
-/
namespace Karupasu.Library

open List

/-- One change of an edit script. -/
inductive Change (α : Type*) where
  | remove (offset : Nat) (element : α)
  | insert (offset : Nat) (element : α)
  deriving DecidableEq

/-- An edit script: all removals come before all insertions. -/
structure Script (α : Type*) where
  removals : List (Nat × α)
  insertions : List (Nat × α)
  deriving DecidableEq

namespace Script

variable {α : Type*}

/-- The changes in the order in which they are enumerated. -/
def changes (d : Script α) : List (Change α) :=
  d.removals.map (fun p => .remove p.1 p.2) ++ d.insertions.map (fun p => .insert p.1 p.2)

def size (d : Script α) : Nat := d.removals.length + d.insertions.length

/-- Insert the listed elements one after the other, each at an offset in range. -/
def insertAll : List α → List (Nat × α) → Option (List α)
  | l, [] => some l
  | l, (offset, element) :: rest =>
    if offset ≤ l.length then insertAll (l.insertIdx offset element) rest else none

theorem insertAll_cons {l k : List α} {p : Nat × α} {rest : List (Nat × α)}
    (h : insertAll l (p :: rest) = some k) :
    p.1 ≤ l.length ∧ insertAll (l.insertIdx p.1 p.2) rest = some k := by
  simp only [insertAll] at h
  split at h
  · exact ⟨‹_›, h⟩
  · cases h

theorem insertAll_perm {l k : List α} {is : List (Nat × α)} (h : insertAll l is = some k) :
    k ~ is.map Prod.snd ++ l := by
  induction is generalizing l with
  | nil => cases h; exact Perm.refl _
  | cons p is ih =>
    obtain ⟨hle, hrest⟩ := insertAll_cons h
    have hp := (perm_insertIdx p.2 l hle).append_left (is.map Prod.snd)
    exact (ih hrest).trans (hp.trans perm_middle)

theorem insertAll_sublist {l k : List α} {is : List (Nat × α)} (h : insertAll l is = some k) :
    l <+ k := by
  induction is generalizing l with
  | nil => cases h; exact Sublist.refl _
  | cons p is ih => exact (sublist_insertIdx l p.1 p.2).trans (ih (insertAll_cons h).2)

theorem insertIdx_length_append (pre l : List α) (a : α) :
    (pre ++ l).insertIdx pre.length a = (pre ++ [a]) ++ l := by
  induction pre with
  | nil => rfl
  | cons b pre ih => simp only [cons_append, length_cons, insertIdx_succ_cons, ih]

/-- Matching from the left, an element that differs from the head of `c` is passed over. -/
theorem sublist_of_cons_ne {a b : α} {c l : List α} (hab : a ≠ b) (h : b :: c <+ a :: l) :
    b :: c <+ l := by
  rcases cons_sublist_cons'.mp h with h | ⟨he, _⟩
  · exact h
  · exact absurd he.symm hab

/-- The entries of `l`, counted from `k`, that stand at none of the offsets. -/
def without (k : Nat) (offsets : List Nat) (l : List α) : List α :=
  ((l.zipIdx k).filter fun p => decide (p.2 ∉ offsets)).map Prod.fst

/-- A valid edit script in the order in which it is enumerated: removals from the last offset
in the old list to the first, insertions from the first offset in the new list to the last. -/
structure IsDifference (old new : List α) (d : Script α) : Prop where
  removals_desc : (d.removals.map Prod.fst).Pairwise (· > ·)
  removals_at : ∀ p ∈ d.removals, old[p.1]? = some p.2
  insertions_asc : (d.insertions.map Prod.fst).Pairwise (· < ·)
  insertions_at : ∀ p ∈ d.insertions, new[p.1]? = some p.2
  rest_eq : without 0 (d.removals.map Prod.fst) old = without 0 (d.insertions.map Prod.fst) new

theorem without_append (k : Nat) (offsets : List Nat) (l r : List α) :
    without k offsets (l ++ r) = without k offsets l ++ without (k + l.length) offsets r := by
  simp only [without, zipIdx_append, filter_append, map_append]

theorem without_congr {k : Nat} {offsets offsets' : List Nat} {l : List α}
    (h : ∀ i, k ≤ i → i < k + l.length → (i ∈ offsets ↔ i ∈ offsets')) :
    without k offsets l = without k offsets' l := by
  unfold without
  refine congrArg (map Prod.fst) (filter_congr fun p hp => ?_)
  obtain ⟨hk, hlt, -⟩ := mem_zipIdx hp
  rw [decide_eq_decide, not_iff_not]
  exact h p.2 hk hlt

@[simp] theorem without_nil (k : Nat) (l : List α) : without k [] l = l := by
  simp [without]

theorem without_eq_self {k : Nat} {offsets : List Nat} {l : List α}
    (h : ∀ i ∈ offsets, k ≤ i → k + l.length ≤ i) : without k offsets l = l := by
  have hnone : without k offsets l = without k [] l := by
    refine without_congr fun i hk hlt => iff_of_false (fun hi => ?_) not_mem_nil
    have hle := h i hi hk
    omega
  rw [hnone, without_nil]

/-- The list before an offset, the entry there, and the list after it. -/
theorem without_cut {l : List α} {offset : Nat} {element : α} (h : l[offset]? = some element)
    (offsets : List Nat) :
    without 0 offsets l = without 0 offsets (l.take offset) ++
      (without offset offsets [element] ++ without (offset + 1) offsets (l.drop (offset + 1))) := by
  obtain ⟨hlt, hget⟩ := List.getElem?_eq_some_iff.mp h
  have hlen : (l.take offset).length = offset := length_take_of_le (by omega)
  have hcut : l = l.take offset ++ ([element] ++ l.drop (offset + 1)) := by
    rw [singleton_append, ← hget, ← drop_eq_getElem_cons hlt, take_append_drop]
  conv => lhs; rw [hcut]
  rw [without_append, without_append, hlen, length_singleton, Nat.zero_add]

theorem without_self (offset : Nat) (offsets : List Nat) (element : α) :
    without offset (offset :: offsets) [element] = [] := by
  simp [without]

/-- An offset after all others only takes away its entry. -/
theorem without_cons_last {l : List α} {offset : Nat} {element : α} {offsets : List Nat}
    (h : l[offset]? = some element) (hbefore : ∀ i ∈ offsets, i < offset) :
    without 0 (offset :: offsets) l = without 0 offsets (l.eraseIdx offset) := by
  obtain ⟨hlt, -⟩ := List.getElem?_eq_some_iff.mp h
  have hlen : (l.take offset).length = offset := length_take_of_le (by omega)
  have hfront : without 0 (offset :: offsets) (l.take offset) =
      without 0 offsets (l.take offset) := by
    refine without_congr fun i _ hi => ?_
    rw [mem_cons]
    exact ⟨fun hm => hm.resolve_left (by omega), .inr⟩
  have hback : without (offset + 1) (offset :: offsets) (l.drop (offset + 1)) =
      l.drop (offset + 1) := by
    refine without_eq_self fun i hi hk => ?_
    rcases mem_cons.mp hi with rfl | hi
    · omega
    · have hlast := hbefore i hi
      omega
  have hrest : without offset offsets (l.drop (offset + 1)) = l.drop (offset + 1) := by
    refine without_eq_self fun i hi hk => ?_
    have hlast := hbefore i hi
    omega
  rw [without_cut h, without_self, hfront, hback, nil_append, eraseIdx_eq_take_drop_succ,
    without_append, hlen, Nat.zero_add, hrest]

/-- The entry at an offset before all others goes back there. -/
theorem insertIdx_without_cons {l : List α} {offset : Nat} {element : α} {offsets : List Nat}
    (h : l[offset]? = some element) (hafter : ∀ i ∈ offsets, offset < i) :
    offset ≤ (without 0 (offset :: offsets) l).length ∧
      (without 0 (offset :: offsets) l).insertIdx offset element = without 0 offsets l := by
  obtain ⟨hlt, -⟩ := List.getElem?_eq_some_iff.mp h
  have hlen : (l.take offset).length = offset := length_take_of_le (by omega)
  have hfront : ∀ js : List Nat, (∀ i ∈ js, offset ≤ i) →
      without 0 js (l.take offset) = l.take offset := by
    intro js hj
    refine without_eq_self fun i hi _ => ?_
    have hoi := hj i hi
    omega
  have hcons : ∀ i ∈ offset :: offsets, offset ≤ i := by
    intro i hi
    rcases mem_cons.mp hi with rfl | hi
    · exact Nat.le_refl _
    · exact Nat.le_of_lt (hafter i hi)
  have hback : without (offset + 1) (offset :: offsets) (l.drop (offset + 1)) =
      without (offset + 1) offsets (l.drop (offset + 1)) := by
    refine without_congr fun i hi _ => ?_
    rw [mem_cons]
    exact ⟨fun hm => hm.resolve_left (by omega), .inr⟩
  have hone : without offset offsets [element] = [element] := by
    refine without_eq_self fun i hi _ => ?_
    have hoi := hafter i hi
    rw [length_singleton]
    omega
  have hins := insertIdx_length_append (l.take offset)
    (without (offset + 1) offsets (l.drop (offset + 1))) element
  rw [hlen] at hins
  rw [without_cut h (offset :: offsets), without_self, hfront _ hcons, hback, nil_append,
    without_cut h offsets, hfront _ fun i hi => Nat.le_of_lt (hafter i hi), hone,
    ← append_assoc]
  refine ⟨?_, hins⟩
  rw [length_append, hlen]
  omega

/-- Insertions from the first offset to the last: each finds the new list up to its offset. -/
theorem insertAll_without {l : List α} {is : List (Nat × α)}
    (hasc : (is.map Prod.fst).Pairwise (· < ·)) (hat : ∀ p ∈ is, l[p.1]? = some p.2) :
    insertAll (without 0 (is.map Prod.fst) l) is = some l := by
  induction is with
  | nil => rw [map_nil, without_nil]; rfl
  | cons p is ih =>
    obtain ⟨offset, element⟩ := p
    obtain ⟨hafter, hasc⟩ := pairwise_cons.mp hasc
    obtain ⟨hle, hins⟩ := insertIdx_without_cons (hat (offset, element) mem_cons_self) hafter
    simp only [map_cons, insertAll]
    rw [if_pos hle, hins]
    exact ih hasc fun q hq => hat q (mem_cons_of_mem _ hq)

structure RepeatsNone (d : Script α) : Prop where
  insertions : (d.insertions.map Prod.snd).Nodup
  removals : (d.removals.map Prod.snd).Nodup

theorem nodup_flatten_replicate (n : Nat) (l : List α) :
    (replicate n l).flatten.Nodup ↔ n = 0 ∨ l = [] ∨ n = 1 ∧ l.Nodup := by
  match n with
  | 0 => simp
  | 1 =>
    have hl : l = [] → l.Nodup := fun he => he ▸ nodup_nil
    simpa using hl
  | n + 2 =>
    simp only [replicate_succ, flatten_cons]
    constructor
    · intro h
      have hd := (nodup_append.mp h).2.2
      refine .inr (.inl (eq_nil_iff_forall_not_mem.mpr fun a ha => ?_))
      exact hd a ha a (mem_append_left _ ha) rfl
    · rintro (h | rfl | ⟨h, -⟩)
      · omega
      · simp
      · omega

/-- Carried out `n` times over, a script repeats each of its changes from the second time on. -/
theorem nodup_replicate_iff (n : Nat) (d : Script α) :
    (replicate n (d.insertions.map Prod.snd)).flatten.Nodup ∧
        (replicate n (d.removals.map Prod.snd)).flatten.Nodup ↔
      n = 0 ∨ d.changes = [] ∨ n = 1 ∧ d.RepeatsNone := by
  rw [nodup_flatten_replicate, nodup_flatten_replicate]
  simp only [Script.changes, append_eq_nil_iff, map_eq_nil_iff]
  constructor
  · rintro ⟨hi, hr⟩
    by_cases h0 : n = 0
    · exact .inl h0
    have hi := hi.resolve_left h0
    have hr := hr.resolve_left h0
    by_cases h1 : n = 1
    · have hnodup : ∀ l : List (Nat × α), l = [] ∨ n = 1 ∧ (l.map Prod.snd).Nodup →
          (l.map Prod.snd).Nodup := by
        rintro l (rfl | hl)
        · exact nodup_nil
        · exact hl.2
      exact .inr (.inr ⟨h1, hnodup _ hi, hnodup _ hr⟩)
    · have hi := hi.resolve_right fun hn => h1 hn.1
      have hr := hr.resolve_right fun hn => h1 hn.1
      exact .inr (.inl ⟨hr, hi⟩)
  · rintro (h0 | ⟨hr, hi⟩ | ⟨h1, hd⟩)
    · exact ⟨.inl h0, .inl h0⟩
    · exact ⟨.inr (.inl hi), .inr (.inl hr)⟩
    · exact ⟨.inr (.inr ⟨h1, hd.insertions⟩), .inr (.inr ⟨h1, hd.removals⟩)⟩

/-- One of the lists is the other with an entry more. -/
def OneApart (old new : List α) : Prop :=
  old <+ new ∧ new.length = old.length + 1 ∨ new <+ old ∧ old.length = new.length + 1

variable [DecidableEq α]

instance (old new : List α) : Decidable (OneApart old new) :=
  inferInstanceAs (Decidable (_ ∨ _))

/-- Remove the listed elements one after the other; each has to be where its offset says. -/
def removeAll : List α → List (Nat × α) → Option (List α)
  | l, [] => some l
  | l, (offset, element) :: rest =>
    if l[offset]? = some element then removeAll (l.eraseIdx offset) rest else none

/-- The script leads from `old` to `new`, and `kept` is what it leaves in place. -/
structure Between (old new kept : List α) (d : Script α) : Prop where
  removed : removeAll old d.removals = some kept
  inserted : insertAll kept d.insertions = some new

def Applies (old new : List α) (d : Script α) : Prop := ∃ kept, Between old new kept d

/-- No script between the two lists makes fewer changes. -/
structure Minimal (old new : List α) (d : Script α) : Prop where
  applies : Applies old new d
  least : ∀ d', Applies old new d' → d.size ≤ d'.size

theorem removeAll_cons {l k : List α} {p : Nat × α} {rest : List (Nat × α)}
    (h : removeAll l (p :: rest) = some k) :
    l[p.1]? = some p.2 ∧ removeAll (l.eraseIdx p.1) rest = some k := by
  simp only [removeAll] at h
  split at h
  · exact ⟨‹_›, h⟩
  · cases h

/-- Removals from the last offset to the first: each finds the old list up to its offset. -/
theorem removeAll_eq_without {l : List α} {rs : List (Nat × α)}
    (hdesc : (rs.map Prod.fst).Pairwise (· > ·)) (hat : ∀ p ∈ rs, l[p.1]? = some p.2) :
    removeAll l rs = some (without 0 (rs.map Prod.fst) l) := by
  induction rs generalizing l with
  | nil => rw [map_nil, without_nil]; rfl
  | cons p rs ih =>
    obtain ⟨offset, element⟩ := p
    obtain ⟨hbefore, hdesc⟩ := pairwise_cons.mp hdesc
    have hp := hat (offset, element) mem_cons_self
    have hat' : ∀ q ∈ rs, (l.eraseIdx offset)[q.1]? = some q.2 := by
      intro q hq
      rw [getElem?_eraseIdx_of_lt (hbefore q.1 (mem_map_of_mem hq))]
      exact hat q (mem_cons_of_mem _ hq)
    simp only [map_cons, removeAll]
    rw [if_pos hp, ih hdesc hat', without_cons_last hp hbefore]

/-- Carried out one change after the other, a valid script leads from the old list to the new. -/
theorem IsDifference.between {old new : List α} {d : Script α} (h : IsDifference old new d) :
    Between old new (without 0 (d.removals.map Prod.fst) old) d := by
  refine ⟨removeAll_eq_without h.removals_desc h.removals_at, ?_⟩
  rw [h.rest_eq]
  exact insertAll_without h.insertions_asc h.insertions_at

theorem removeAll_append (l : List α) (rs ts : List (Nat × α)) :
    removeAll l (rs ++ ts) = (removeAll l rs).bind (fun k => removeAll k ts) := by
  induction rs generalizing l with
  | nil => rfl
  | cons p rs ih =>
    simp only [cons_append, removeAll]
    split
    · exact ih _
    · rfl

/-- The removed elements and what is left make up the list. -/
theorem removeAll_perm {l k : List α} {rs : List (Nat × α)} (h : removeAll l rs = some k) :
    l ~ rs.map Prod.snd ++ k := by
  induction rs generalizing l with
  | nil => cases h; exact Perm.refl _
  | cons p rs ih =>
    obtain ⟨hat, hrest⟩ := removeAll_cons h
    obtain ⟨hlt, hget⟩ := List.getElem?_eq_some_iff.mp hat
    have hp := getElem_cons_eraseIdx_perm hlt
    rw [hget] at hp
    exact hp.symm.trans ((ih hrest).cons p.2)

theorem removeAll_sublist {l k : List α} {rs : List (Nat × α)} (h : removeAll l rs = some k) :
    k <+ l := by
  induction rs generalizing l with
  | nil => cases h; exact Sublist.refl _
  | cons p rs ih => exact (ih (removeAll_cons h).2).trans (eraseIdx_sublist l p.1)

namespace Between

variable {old new kept : List α} {d : Script α}

theorem sublist_old (h : Between old new kept d) : kept <+ old := removeAll_sublist h.removed

theorem sublist_new (h : Between old new kept d) : kept <+ new := insertAll_sublist h.inserted

theorem size_eq (h : Between old new kept d) :
    d.size + 2 * kept.length = old.length + new.length := by
  have ho := (removeAll_perm h.removed).length_eq
  have hn := (insertAll_perm h.inserted).length_eq
  simp only [length_append, length_map] at ho hn
  unfold size
  omega

/-- Each element of the new list was kept or is inserted. -/
theorem mem_new_iff (h : Between old new kept d) (a : α) :
    a ∈ new ↔ a ∈ d.insertions.map Prod.snd ∨ a ∈ kept := by
  rw [(insertAll_perm h.inserted).mem_iff, mem_append]

/-- Between lists without repetitions nothing is both kept and inserted. -/
theorem inserted_not_kept (h : Between old new kept d) (hn : new.Nodup) {a : α}
    (ha : a ∈ d.insertions.map Prod.snd) : a ∉ kept := by
  have hd := (insertAll_perm h.inserted).nodup_iff.mp hn
  exact fun hk => (nodup_append.mp hd).2.2 a ha a hk rfl

/-- What a list without repetitions has besides `k`. -/
theorem count_rest {l k rest : List α} {a : α} (hl : l.Nodup)
    (h : rest.count a + k.count a = l.count a) :
    rest.count a = if a ∈ l ∧ a ∉ k then 1 else 0 := by
  by_cases ha : a ∈ l
  · rw [count_eq_one_of_mem hl ha] at h
    by_cases hk : a ∈ k
    · have hpos := count_pos_iff.mpr hk
      rw [if_neg fun hn => hn.2 hk]
      omega
    · rw [count_eq_zero.mpr hk] at h
      rw [if_pos ⟨ha, hk⟩]
      omega
  · rw [count_eq_zero.mpr ha] at h
    rw [if_neg fun hn => ha hn.1]
    omega

theorem count_removals (h : Between old new kept d) (ho : old.Nodup) (a : α) :
    (d.removals.map Prod.snd).count a = if a ∈ old ∧ a ∉ kept then 1 else 0 :=
  count_rest ho (by rw [(removeAll_perm h.removed).count_eq, count_append])

theorem count_insertions (h : Between old new kept d) (hn : new.Nodup) (a : α) :
    (d.insertions.map Prod.snd).count a = if a ∈ new ∧ a ∉ kept then 1 else 0 :=
  count_rest hn (by rw [(insertAll_perm h.inserted).count_eq, count_append])

/-- No entry is inserted twice, and none removed twice. -/
theorem repeatsNone (h : Between old new kept d) (ho : old.Nodup) (hn : new.Nodup) :
    d.RepeatsNone := by
  constructor
  · exact ((insertAll_perm h.inserted).nodup_iff.mp hn).of_append_left
  · exact ((removeAll_perm h.removed).nodup_iff.mp ho).of_append_left

end Between

/-! ## A script through a given common subsequence -/

/-- The entries of `l`, with offsets counted from `k`, that a greedy match of `c` leaves out. -/
def leftover (k : Nat) : List α → List α → List (Nat × α)
  | [], _ => []
  | a :: l, [] => (k, a) :: leftover (k + 1) l []
  | a :: l, b :: c => if a = b then leftover (k + 1) l c else (k, a) :: leftover (k + 1) l (b :: c)

/-- The script that keeps `c` and changes the rest. -/
def through (old new c : List α) : Script α where
  removals := (leftover 0 old c).reverse
  insertions := leftover 0 new c

theorem removeAll_leftover (pre : List α) {l c : List α} (h : c <+ l) :
    removeAll (pre ++ l) (leftover pre.length l c).reverse = some (pre ++ c) := by
  induction l generalizing pre c with
  | nil => rw [sublist_nil.mp h]; rfl
  | cons a l ih =>
    have hpre : pre ++ a :: l = (pre ++ [a]) ++ l := by simp
    have hlen : (pre ++ [a]).length = pre.length + 1 := by simp
    cases c with
    | nil =>
      have hi := ih (pre ++ [a]) (nil_sublist l)
      rw [hlen] at hi
      simp only [leftover, reverse_cons, removeAll_append, hpre, hi, Option.bind_some]
      simp [removeAll, eraseIdx_append_of_length_le]
    | cons b c =>
      by_cases hab : a = b
      · subst hab
        have hi := ih (pre ++ [a]) (cons_sublist_cons.mp h)
        rw [hlen] at hi
        simp only [leftover, if_true, hpre, hi]
        simp
      · have hi := ih (pre ++ [a]) (sublist_of_cons_ne hab h)
        rw [hlen] at hi
        simp only [leftover, if_neg hab, reverse_cons, removeAll_append, hpre, hi, Option.bind_some]
        simp [removeAll, eraseIdx_append_of_length_le]

theorem insertAll_leftover (pre : List α) {l c : List α} (h : c <+ l) :
    insertAll (pre ++ c) (leftover pre.length l c) = some (pre ++ l) := by
  induction l generalizing pre c with
  | nil => rw [sublist_nil.mp h]; rfl
  | cons a l ih =>
    have hpre : pre ++ a :: l = (pre ++ [a]) ++ l := by simp
    have hlen : (pre ++ [a]).length = pre.length + 1 := by simp
    cases c with
    | nil =>
      have hi := ih (pre ++ [a]) (nil_sublist l)
      rw [hlen] at hi
      simp only [leftover, insertAll, insertIdx_length_append, hi, hpre]
      simp
    | cons b c =>
      by_cases hab : a = b
      · subst hab
        have hi := ih (pre ++ [a]) (cons_sublist_cons.mp h)
        rw [hlen] at hi
        simp only [leftover, if_true, hpre, ← hi]
        simp
      · have hi := ih (pre ++ [a]) (sublist_of_cons_ne hab h)
        rw [hlen] at hi
        simp only [leftover, if_neg hab, insertAll, insertIdx_length_append, hi, hpre]
        simp

theorem through_between {old new c : List α} (ho : c <+ old) (hn : c <+ new) :
    Between old new c (through old new c) :=
  ⟨removeAll_leftover [] ho, insertAll_leftover [] hn⟩

namespace Minimal

variable {old new kept : List α} {d : Script α}

/-- What a minimal script keeps is a longest common subsequence. -/
theorem longest (hm : Minimal old new d) (h : Between old new kept d) {c : List α}
    (ho : c <+ old) (hn : c <+ new) : c.length ≤ kept.length := by
  have hc := through_between ho hn
  have hle := hm.least _ ⟨c, hc⟩
  have hs := h.size_eq
  have hs' := hc.size_eq
  omega

theorem changes_eq_nil_iff (hm : Minimal old new d) : d.changes = [] ↔ old = new := by
  obtain ⟨kept, h⟩ := hm.applies
  constructor
  · intro hnil
    simp only [changes, append_eq_nil_iff, map_eq_nil_iff] at hnil
    have hr := h.removed
    have hi := h.inserted
    rw [hnil.1] at hr
    rw [hnil.2] at hi
    exact (Option.some.inj hr).trans (Option.some.inj hi)
  · intro he
    subst he
    have hle := hm.longest h (Sublist.refl old) (Sublist.refl old)
    have hs := h.size_eq
    have hz : d.removals.length + d.insertions.length = 0 := by unfold size at hs; omega
    have hr : d.removals = [] := length_eq_zero_iff.mp (by omega)
    have hi : d.insertions = [] := length_eq_zero_iff.mp (by omega)
    simp [changes, hr, hi]

theorem size_eq_one_iff (hm : Minimal old new d) : d.size = 1 ↔ OneApart old new := by
  obtain ⟨kept, h⟩ := hm.applies
  have hs := h.size_eq
  have ho := h.sublist_old.length_le
  have hn := h.sublist_new.length_le
  constructor
  · intro h1
    by_cases hk : kept.length = old.length
    · have he := h.sublist_old.eq_of_length hk
      exact .inl ⟨he ▸ h.sublist_new, by omega⟩
    · have he := h.sublist_new.eq_of_length (by omega)
      exact .inr ⟨he ▸ h.sublist_old, by omega⟩
  · rintro (⟨hsub, hl⟩ | ⟨hsub, hl⟩)
    · have hle := hm.longest h (Sublist.refl old) hsub
      omega
    · have hle := hm.longest h hsub (Sublist.refl new)
      omega

/-- Towards a list without repetitions, a minimal script keeps everything the lists share
exactly when the shared elements stand in `old` in the order `new` gives them. -/
theorem keeps_common_iff (hm : Minimal old new d) (h : Between old new kept d) (hn : new.Nodup) :
    (∀ a ∈ old, a ∈ new → a ∈ kept) ↔ new.filter (fun a => decide (a ∈ old)) <+ old := by
  have hkeep : kept <+ new.filter (fun a => decide (a ∈ old)) := by
    have hf : kept.filter (fun a => decide (a ∈ old)) = kept :=
      filter_eq_self.mpr (fun a ha => by simpa using h.sublist_old.subset ha)
    have hs := h.sublist_new.filter (fun a => decide (a ∈ old))
    rwa [hf] at hs
  constructor
  · intro hall
    have hsub : new.filter (fun a => decide (a ∈ old)) ⊆ kept := by
      intro a ha
      simp only [mem_filter, decide_eq_true_eq] at ha
      exact hall a ha.2 ha.1
    have hlen := (subperm_of_subset (hn.filter _) hsub).length_le
    have he := hkeep.eq_of_length (Nat.le_antisymm hkeep.length_le hlen)
    rw [← he]
    exact h.sublist_old
  · intro hs a ho ha
    have hlen := hm.longest h hs filter_sublist
    have he := hkeep.eq_of_length (Nat.le_antisymm hkeep.length_le hlen)
    rw [he]
    simp [ha, ho]

end Minimal
end Script

/-! ## Differencing functions -/

/-- A function that returns a minimal script between any two lists. -/
structure Differ (α : Type*) [DecidableEq α] where
  /-- `difference new old` leads from `old` to `new`. -/
  difference : List α → List α → Script α
  minimal : ∀ new old, Script.Minimal old new (difference new old)

namespace Differ

variable {α : Type*} [DecidableEq α]

/-- A longest common subsequence, by search through the subsequences of `old`. -/
def longestCommon (old new : List α) : List α :=
  ((old.sublists.filter (fun c => decide (c <+ new))).argmax length).getD []

theorem longestCommon_mem (old new : List α) :
    longestCommon old new <+ old ∧ longestCommon old new <+ new := by
  unfold longestCommon
  cases hm : (old.sublists.filter (fun c => decide (c <+ new))).argmax length with
  | none => exact ⟨nil_sublist _, nil_sublist _⟩
  | some c =>
    have hc := mem_filter.mp (argmax_mem hm)
    exact ⟨mem_sublists.mp hc.1, of_decide_eq_true hc.2⟩

theorem le_longestCommon {old new c : List α} (ho : c <+ old) (hn : c <+ new) :
    c.length ≤ (longestCommon old new).length := by
  have hc : c ∈ old.sublists.filter (fun c => decide (c <+ new)) :=
    mem_filter.mpr ⟨mem_sublists.mpr ho, decide_eq_true hn⟩
  unfold longestCommon
  cases hm : (old.sublists.filter (fun c => decide (c <+ new))).argmax length with
  | none => rw [argmax_eq_none.mp hm] at hc; cases hc
  | some l => exact le_of_mem_argmax hc hm

/-- An executable differencing function. -/
def viaLongest : Differ α where
  difference new old := Script.through old new (longestCommon old new)
  minimal new old := by
    obtain ⟨ho, hn⟩ := longestCommon_mem old new
    have hb := Script.through_between ho hn
    refine ⟨⟨_, hb⟩, ?_⟩
    rintro d' ⟨kept, hk⟩
    have hle := le_longestCommon hk.sublist_old hk.sublist_new
    have hs := hb.size_eq
    have hs' := hk.size_eq
    omega

end Differ
end Karupasu.Library
