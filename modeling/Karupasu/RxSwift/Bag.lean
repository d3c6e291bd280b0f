import Karupasu.Library.Machine
import Mathlib.Data.List.Nodup
import Mathlib.Data.List.Perm.Basic

/-!
# The bag of subscriptions

A subject keeps its observers in a bag: one slot, then an array of at most thirty pairs, then a
dictionary. The keys it hands out count up from zero. A dictionary is listed in some order of its
hash table, which is not the same at any two times.
-/
namespace Karupasu.RxSwift

open Karupasu.Library

universe u

/-- One order in which a hash table lists its entries. -/
structure HashOrder (α : Type u) where
  list : List α → List α
  perm : ∀ l, (list l).Perm l

namespace HashOrder

variable {α : Type u}

def identity : HashOrder α := ⟨id, List.Perm.refl⟩

def reverse : HashOrder α := ⟨List.reverse, List.reverse_perm⟩

end HashOrder

def arrayDictionaryMaxSize : Nat := 30

structure BagKey where
  rawValue : UInt64
deriving DecidableEq, Repr

abbrev Bag.Entry (T : Type u) := BagKey × T

/-- The value with the key, and the entries without it. -/
def removeValue {T : Type u} (key : BagKey) : List (Bag.Entry T) → Option (T × List (Bag.Entry T))
  | [] => none
  | (k, value) :: rest =>
    if k = key then some (value, rest)
    else (removeValue key rest).map fun (found, others) => (found, (k, value) :: others)

/-- `dictionary[key] = element` -/
def updateValue {T : Type u} (key : BagKey) (element : T) (entries : List (Bag.Entry T)) :
    List (Bag.Entry T) :=
  if key ∈ entries.map Prod.fst then
    entries.map fun (k, value) => if k = key then (k, element) else (k, value)
  else entries ++ [(key, element)]

structure Bag (T : Type u) where
  nextKey : BagKey
  key0 : Option BagKey
  value0 : Option T
  pairs : List (Bag.Entry T)
  dictionary : Option (List (Bag.Entry T))
  onlyFastPath : Bool

namespace Bag

variable {T : Type u}

def init : Bag T :=
  { nextKey := ⟨0⟩, key0 := none, value0 := none, pairs := [], dictionary := none,
    onlyFastPath := true }

def insert (bag : Bag T) (element : T) : BagKey × Bag T :=
  let key := bag.nextKey
  let bag := { bag with nextKey := ⟨bag.nextKey.rawValue + 1⟩ }
  if bag.key0 = none then
    (key, { bag with key0 := some key, value0 := some element })
  else
    match bag.dictionary with
    | some dictionary =>
      (key, { bag with onlyFastPath := false, dictionary := some (updateValue key element dictionary) })
    | none =>
      if bag.pairs.length < arrayDictionaryMaxSize then
        (key, { bag with onlyFastPath := false, pairs := bag.pairs ++ [(key, element)] })
      else (key, { bag with onlyFastPath := false, dictionary := some [(key, element)] })

def count (bag : Bag T) : Nat :=
  (if bag.value0.isSome then 1 else 0) + bag.pairs.length +
    ((bag.dictionary.map List.length).getD 0)

def removeAll (bag : Bag T) : Bag T :=
  { bag with key0 := none, value0 := none, pairs := [], dictionary := bag.dictionary.map fun _ => [] }

/-- Nothing is returned where `_value0!` would trap. -/
def removeKey (bag : Bag T) (key : BagKey) : Option (Option T × Bag T) :=
  if bag.key0 = some key then
    bag.value0.map fun value => (some value, { bag with key0 := none, value0 := none })
  else
    match bag.dictionary.bind (removeValue key) with
    | some (value, rest) => some (some value, { bag with dictionary := some rest })
    | none =>
      match removeValue key bag.pairs with
      | some (value, rest) => some (some value, { bag with pairs := rest })
      | none => some (none, bag)

/-- The values a dispatch visits, in its order; `disposeAll` visits them in the same way. -/
def dispatch (bag : Bag T) (order : HashOrder (Entry T)) : List T :=
  bag.value0.toList ++
    if bag.onlyFastPath then []
    else bag.pairs.map Prod.snd ++
      match bag.dictionary with
      | none => []
      | some dictionary => (order.list dictionary).map Prod.snd

def forEach (bag : Bag T) (order : HashOrder (Entry T)) : List T :=
  if bag.onlyFastPath then bag.value0.toList
  else bag.value0.toList ++ bag.pairs.map Prod.snd ++
    if (bag.dictionary.map List.length).getD 0 > 0 then
      (order.list (bag.dictionary.getD [])).map Prod.snd
    else []

/-! ## The entries -/

/-- The slot as an entry. -/
def slot (bag : Bag T) : List (Entry T) :=
  match bag.key0, bag.value0 with
  | some key, some value => [(key, value)]
  | _, _ => []

def entries (bag : Bag T) (order : HashOrder (Entry T)) : List (Entry T) :=
  bag.slot ++ (bag.pairs ++ order.list (bag.dictionary.getD []))

/-- What the fields have to do with one another. -/
structure Wellformed (bag : Bag T) : Prop where
  slot : bag.key0.isSome = bag.value0.isSome
  fast : bag.onlyFastPath = true → bag.pairs = [] ∧ bag.dictionary = none
  keys : ((bag.entries .identity).map Prod.fst).Nodup
  issued : ∀ e ∈ bag.entries .identity, e.1.rawValue.toNat < bag.nextKey.rawValue.toNat
  later : ∀ d, bag.dictionary = some d → ∀ p ∈ bag.pairs, ∀ e ∈ d,
    p.1.rawValue.toNat < e.1.rawValue.toNat
  sorted : bag.pairs.Pairwise fun p q => p.1.rawValue.toNat < q.1.rawValue.toNat

theorem list_nil (order : HashOrder (Entry T)) : order.list [] = [] :=
  List.perm_nil.mp (order.perm [])

theorem entries_perm (bag : Bag T) (order : HashOrder (Entry T)) :
    (bag.entries order).Perm (bag.entries .identity) :=
  ((order.perm _).append_left _).append_left _

theorem map_slot {bag : Bag T} (h : bag.key0.isSome = bag.value0.isSome) :
    bag.slot.map Prod.snd = bag.value0.toList := by
  unfold slot
  cases hk : bag.key0 <;> cases hv : bag.value0 <;> simp_all

/-- A dispatch visits the entries, whichever path it takes. -/
theorem dispatch_eq {bag : Bag T} (h : bag.Wellformed) (order : HashOrder (Entry T)) :
    bag.dispatch order = (bag.entries order).map Prod.snd := by
  rw [dispatch, entries, List.map_append, map_slot h.slot]
  congr 1
  split
  next hf =>
    obtain ⟨hp, hd⟩ := h.fast hf
    simp [hp, hd, list_nil]
  next =>
    cases hd : bag.dictionary with
    | none => simp [list_nil]
    | some d => simp

theorem forEach_eq (bag : Bag T) (order : HashOrder (Entry T)) :
    bag.forEach order = bag.dispatch order := by
  rw [forEach, dispatch]
  split
  next hf => simp
  next =>
    rw [List.append_assoc]
    congr 2
    cases hd : bag.dictionary with
    | none => simp
    | some d =>
      cases d with
      | nil => simp [list_nil]
      | cons e d => simp

theorem count_eq {bag : Bag T} (h : bag.Wellformed) (order : HashOrder (Entry T)) :
    bag.count = (bag.entries order).length := by
  rw [(bag.entries_perm order).length_eq]
  have hs : bag.slot.length = if bag.value0.isSome then 1 else 0 := by
    rw [← List.length_map (f := Prod.snd), map_slot h.slot]
    cases bag.value0 <;> rfl
  rw [entries, List.length_append, List.length_append, hs, count, Nat.add_assoc]
  cases bag.dictionary <;> rfl

/-! ## The keyed lists -/

theorem removeValue_eq_none {key : BagKey} {l : List (Entry T)} :
    removeValue key l = none ↔ key ∉ l.map Prod.fst := by
  induction l with
  | nil => simp [removeValue]
  | cons e l ih =>
    rw [removeValue, List.map_cons, List.mem_cons, not_or]
    by_cases hk : e.1 = key
    · simp [hk]
    · rw [if_neg hk, Option.map_eq_none_iff, ih]
      simp [Ne.symm hk]

theorem removeValue_eq_some {key : BagKey} {l rest : List (Entry T)} {value : T}
    (h : removeValue key l = some (value, rest)) :
    l.Perm ((key, value) :: rest) ∧ rest.Sublist l := by
  induction l generalizing rest with
  | nil => cases h
  | cons e l ih =>
    rw [removeValue] at h
    by_cases hk : e.1 = key
    · rw [if_pos hk] at h
      cases h
      rw [← hk]
      exact ⟨List.Perm.refl _, List.sublist_cons_self e l⟩
    · rw [if_neg hk] at h
      obtain ⟨r, hr, he⟩ := Option.map_eq_some_iff.mp h
      cases he
      obtain ⟨hp, hs⟩ := ih hr
      exact ⟨(hp.cons e).trans (List.Perm.swap _ _ _), hs.cons_cons e⟩

theorem updateValue_eq {key : BagKey} {l : List (Entry T)} (h : key ∉ l.map Prod.fst)
    (element : T) : updateValue key element l = l ++ [(key, element)] :=
  if_neg h

/-! ## The operations -/

theorem wellformed_init : (init : Bag T).Wellformed := by
  constructor <;> simp [init, entries, slot, HashOrder.identity]

/-- The entry goes to the slot when it is free, and else to the pairs until a dictionary exists. -/
theorem insert_cases (bag : Bag T) (element : T) :
    (bag.insert element).1 = bag.nextKey ∧
    ((bag.key0 = none ∧ (bag.insert element).2 =
        { bag with nextKey := ⟨bag.nextKey.rawValue + 1⟩, key0 := some bag.nextKey,
                   value0 := some element }) ∨
     (bag.key0 ≠ none ∧ bag.dictionary = none ∧ bag.pairs.length < arrayDictionaryMaxSize ∧
        (bag.insert element).2 =
        { bag with nextKey := ⟨bag.nextKey.rawValue + 1⟩, onlyFastPath := false,
                   pairs := bag.pairs ++ [(bag.nextKey, element)] }) ∨
     (bag.key0 ≠ none ∧ (bag.dictionary = none → arrayDictionaryMaxSize ≤ bag.pairs.length) ∧
        (bag.insert element).2 =
        { bag with nextKey := ⟨bag.nextKey.rawValue + 1⟩, onlyFastPath := false,
                   dictionary :=
                    some (updateValue bag.nextKey element (bag.dictionary.getD [])) })) := by
  unfold insert
  by_cases hk : bag.key0 = none
  · simp [hk]
  · cases hd : bag.dictionary with
    | some d => simp [hk]
    | none =>
      by_cases hl : bag.pairs.length < arrayDictionaryMaxSize
      · simp [hk, hl]
      · simp [hk, hl, updateValue]
        omega

theorem insert_nextKey {bag : Bag T} (h : bag.nextKey.rawValue.toNat + 1 < UInt64.size) (element : T) :
    (bag.insert element).2.nextKey.rawValue.toNat = bag.nextKey.rawValue.toNat + 1 := by
  have hn : (bag.insert element).2.nextKey = ⟨bag.nextKey.rawValue + 1⟩ := by
    obtain ⟨_, ⟨_, he⟩ | ⟨_, _, _, he⟩ | ⟨_, _, he⟩⟩ := bag.insert_cases element <;> rw [he]
  rw [hn, UInt64.toNat_add]
  exact Nat.mod_eq_of_lt h

theorem Wellformed.fresh {bag : Bag T} (h : bag.Wellformed) :
    bag.nextKey ∉ (bag.entries .identity).map Prod.fst := by
  intro hm
  obtain ⟨e, he, hk⟩ := List.mem_map.mp hm
  have hlt := h.issued e he
  rw [hk] at hlt
  omega

/-- The two conditions on keys need only the entries as a whole. -/
theorem keys_concat {bag bag' : Bag T} {element : T} (h : bag.Wellformed)
    (hp : (bag'.entries .identity).Perm (bag.entries .identity ++ [(bag.nextKey, element)]))
    (hn : bag'.nextKey.rawValue.toNat = bag.nextKey.rawValue.toNat + 1) :
    ((bag'.entries .identity).map Prod.fst).Nodup ∧
      ∀ e ∈ bag'.entries .identity, e.1.rawValue.toNat < bag'.nextKey.rawValue.toNat := by
  constructor
  · rw [(hp.map Prod.fst).nodup_iff, List.map_append, List.nodup_append]
    refine ⟨h.keys, List.nodup_singleton _, ?_⟩
    intro a ha b hb hab
    rw [List.map_singleton, List.mem_singleton] at hb
    rw [hab, hb] at ha
    exact h.fresh ha
  · intro e he
    rw [hn]
    obtain he | he := List.mem_append.mp (hp.subset he)
    · have hlt := h.issued e he
      omega
    · rw [List.mem_singleton.mp he]
      exact Nat.lt_succ_self _

theorem Wellformed.not_mem_dictionary {bag : Bag T} (h : bag.Wellformed) :
    bag.nextKey ∉ (bag.dictionary.getD []).map Prod.fst := by
  intro hm
  apply h.fresh
  rw [entries, List.map_append, List.map_append]
  exact List.mem_append_right _ (List.mem_append_right _ hm)

theorem Wellformed.mem_pairs {bag : Bag T} (h : bag.Wellformed) {e : Entry T}
    (he : e ∈ bag.pairs) : e.1.rawValue.toNat < bag.nextKey.rawValue.toNat :=
  h.issued e (List.mem_append_right _ (List.mem_append_left _ he))

/-- After an insertion the bag holds one entry more. -/
theorem insert_spec {bag : Bag T} (h : bag.Wellformed)
    (hb : bag.nextKey.rawValue.toNat + 1 < UInt64.size) (element : T) :
    (bag.insert element).2.Wellformed ∧
      ((bag.insert element).2.entries .identity).Perm
        (bag.entries .identity ++ [(bag.nextKey, element)]) ∧
      (bag.insert element).2.nextKey.rawValue.toNat = bag.nextKey.rawValue.toNat + 1 := by
  have hn := insert_nextKey hb element
  obtain ⟨_, ⟨hk, he⟩ | ⟨hk, hd, _, he⟩ | ⟨hk, hd, he⟩⟩ := bag.insert_cases element
  · have hv : bag.value0 = none := by
      have hs := h.slot
      rw [hk] at hs
      exact Option.isNone_iff_eq_none.mp (by simpa using hs.symm)
    have hp : ((bag.insert element).2.entries .identity).Perm
        (bag.entries .identity ++ [(bag.nextKey, element)]) := by
      rw [he]
      simp only [entries, slot, hk, hv]
      exact (List.perm_append_singleton _ _).symm
    obtain ⟨hkeys, hissued⟩ := keys_concat h hp hn
    refine ⟨⟨?_, ?_, hkeys, hissued, ?_, ?_⟩, hp, hn⟩
    · rw [he]; rfl
    · rw [he]; exact h.fast
    · rw [he]; exact h.later
    · rw [he]; exact h.sorted
  · have hp : ((bag.insert element).2.entries .identity).Perm
        (bag.entries .identity ++ [(bag.nextKey, element)]) := by
      rw [he]
      simp [entries, slot, hd, HashOrder.identity]
    obtain ⟨hkeys, hissued⟩ := keys_concat h hp hn
    refine ⟨⟨?_, ?_, hkeys, hissued, ?_, ?_⟩, hp, hn⟩
    · rw [he]; exact h.slot
    · rw [he]; simp
    · rw [he]
      intro d hd'
      rw [hd] at hd'
      cases hd'
    · rw [he]
      rw [List.pairwise_append]
      refine ⟨h.sorted, List.pairwise_singleton _ _, ?_⟩
      intro p hp q hq
      rw [List.mem_singleton.mp hq]
      exact h.mem_pairs hp
  · have hu := updateValue_eq h.not_mem_dictionary element
    have hp : ((bag.insert element).2.entries .identity).Perm
        (bag.entries .identity ++ [(bag.nextKey, element)]) := by
      rw [he]
      simp [entries, slot, hu, HashOrder.identity]
    obtain ⟨hkeys, hissued⟩ := keys_concat h hp hn
    refine ⟨⟨?_, ?_, hkeys, hissued, ?_, ?_⟩, hp, hn⟩
    · rw [he]; exact h.slot
    · rw [he]; simp
    · rw [he]
      intro d hd' p hp e hed
      rw [← Option.some.inj hd', hu] at hed
      obtain hed | hed := List.mem_append.mp hed
      · cases hdict : bag.dictionary with
        | none => rw [hdict] at hed; cases hed
        | some d' =>
          rw [hdict] at hed
          exact h.later d' hdict p hp e hed
      · rw [List.mem_singleton.mp hed]
        exact h.mem_pairs hp
    · rw [he]; exact h.sorted

/-- Where a key is removed from. `_value0!` never traps. -/
theorem removeKey_cases {bag : Bag T} (h : bag.Wellformed) (key : BagKey) :
    (∃ value, bag.key0 = some key ∧ bag.value0 = some value ∧
      bag.removeKey key = some (some value, { bag with key0 := none, value0 := none })) ∨
    (∃ value d rest, bag.dictionary = some d ∧ removeValue key d = some (value, rest) ∧
      bag.removeKey key = some (some value, { bag with dictionary := some rest })) ∨
    (∃ value rest, removeValue key bag.pairs = some (value, rest) ∧
      bag.removeKey key = some (some value, { bag with pairs := rest })) ∨
    (key ∉ (bag.entries .identity).map Prod.fst ∧ bag.removeKey key = some (none, bag)) := by
  by_cases hk : bag.key0 = some key
  · left
    have hs := h.slot
    rw [hk] at hs
    obtain ⟨value, hv⟩ := Option.isSome_iff_exists.mp hs.symm
    exact ⟨value, hk, hv, by simp [removeKey, hk, hv]⟩
  · right
    cases hd : bag.dictionary.bind (removeValue key) with
    | some r =>
      left
      obtain ⟨value, rest⟩ := r
      obtain ⟨d, hd', hr⟩ := Option.bind_eq_some_iff.mp hd
      exact ⟨value, d, rest, hd', hr, by rw [removeKey, if_neg hk, hd]⟩
    | none =>
      right
      cases hp : removeValue key bag.pairs with
      | some r =>
        left
        exact ⟨r.1, r.2, rfl, by rw [removeKey, if_neg hk, hd]; simp only [hp]⟩
      | none =>
        right
        have hslot : key ∉ bag.slot.map Prod.fst := by
          unfold slot
          split
          · next k v hk0 _ =>
            rw [hk0] at hk
            simpa [eq_comm] using hk
          · simp
        have hdict : key ∉ (bag.dictionary.getD []).map Prod.fst := by
          cases hb : bag.dictionary with
          | none => simp
          | some d =>
            rw [hb] at hd
            exact removeValue_eq_none.mp hd
        refine ⟨?_, by rw [removeKey, if_neg hk, hd]; simp only [hp]⟩
        rw [entries, List.map_append, List.map_append, List.mem_append, List.mem_append]
        rintro (hm | hm | hm)
        · exact hslot hm
        · exact removeValue_eq_none.mp hp hm
        · exact hdict hm

/-- The conditions on keys hold of fewer entries as well. -/
theorem keys_sublist {bag bag' : Bag T} {e : Entry T} (h : bag.Wellformed)
    (hp : (bag.entries .identity).Perm (e :: bag'.entries .identity))
    (hn : bag'.nextKey = bag.nextKey) :
    ((bag'.entries .identity).map Prod.fst).Nodup ∧
      ∀ x ∈ bag'.entries .identity, x.1.rawValue.toNat < bag'.nextKey.rawValue.toNat := by
  constructor
  · have hk := (hp.map Prod.fst).nodup_iff.mp h.keys
    exact (List.nodup_cons.mp hk).2
  · intro x hx
    rw [hn]
    exact h.issued x (hp.symm.subset (List.mem_cons_of_mem e hx))

/-- A removal takes the entry with the key and returns its value, or finds no such entry. -/
theorem removeKey_spec {bag : Bag T} (h : bag.Wellformed) (key : BagKey) :
    (∃ value bag', bag.removeKey key = some (some value, bag') ∧ bag'.Wellformed ∧
      (bag.entries .identity).Perm ((key, value) :: bag'.entries .identity) ∧
      bag'.nextKey = bag.nextKey) ∨
    (key ∉ (bag.entries .identity).map Prod.fst ∧ bag.removeKey key = some (none, bag)) := by
  obtain ⟨value, hk, hv, he⟩ | ⟨value, d, rest, hd, hr, he⟩ | ⟨value, rest, hr, he⟩ | hnone :=
    removeKey_cases h key
  · left
    have hp : (bag.entries .identity).Perm ((key, value) ::
        ({ bag with key0 := none, value0 := none } : Bag T).entries .identity) := by
      simp only [entries, slot, hk, hv]
      exact List.Perm.refl _
    obtain ⟨hkeys, hissued⟩ := keys_sublist h hp rfl
    refine ⟨value, _, he, ⟨rfl, h.fast, hkeys, hissued, h.later, h.sorted⟩, hp, rfl⟩
  · left
    obtain ⟨hperm, hsub⟩ := removeValue_eq_some hr
    have hp : (bag.entries .identity).Perm ((key, value) ::
        ({ bag with dictionary := some rest } : Bag T).entries .identity) := by
      simp only [entries, hd, HashOrder.identity, Option.getD_some, id_eq]
      refine ((hperm.append_left _).append_left _).trans ?_
      exact (List.perm_middle.append_left _).trans List.perm_middle
    obtain ⟨hkeys, hissued⟩ := keys_sublist h hp rfl
    refine ⟨value, _, he, ⟨h.slot, ?_, hkeys, hissued, ?_, h.sorted⟩, hp, rfl⟩
    · intro hf
      obtain ⟨_, hnone⟩ := h.fast hf
      rw [hd] at hnone
      cases hnone
    · intro d' hd' p hpair e hed
      cases hd'
      exact h.later d hd p hpair e (hsub.subset hed)
  · left
    obtain ⟨hperm, hsub⟩ := removeValue_eq_some hr
    have hp : (bag.entries .identity).Perm ((key, value) ::
        ({ bag with pairs := rest } : Bag T).entries .identity) := by
      refine ((hperm.append_right _).append_left _).trans ?_
      exact List.perm_middle
    obtain ⟨hkeys, hissued⟩ := keys_sublist h hp rfl
    refine ⟨value, _, he, ⟨h.slot, ?_, hkeys, hissued, ?_, h.sorted.sublist hsub⟩, hp, rfl⟩
    · intro hf
      obtain ⟨hnil, hnone⟩ := h.fast hf
      rw [hnil] at hsub
      exact ⟨List.sublist_nil.mp hsub, hnone⟩
    · intro d hd p hpair
      exact h.later d hd p (hsub.subset hpair)
  · right
    exact hnone

theorem removeAll_spec {bag : Bag T} (h : bag.Wellformed) (order : HashOrder (Entry T)) :
    bag.removeAll.Wellformed ∧ bag.removeAll.entries order = [] := by
  have he : ∀ order, bag.removeAll.entries order = [] := by
    intro order
    cases hd : bag.dictionary <;> simp [entries, removeAll, slot, hd, list_nil]
  refine ⟨⟨rfl, ?_, by simp [he], by simp [he], ?_, List.Pairwise.nil⟩, he order⟩
  · intro hf
    exact ⟨rfl, by simp [removeAll, (h.fast hf).2]⟩
  · intro d _ p hp
    cases hp

end Bag

/-! ## Runs -/

inductive Bag.Operation (T : Type u) where
  | insert (element : T)
  | removeKey (key : BagKey)
  | removeAll

inductive Bag.Report (T : Type u) where
  | inserted (key : BagKey)
  | removed (value : Option T)
  | trap
deriving DecidableEq

namespace Bag

variable {T : Type u}

def machine : Machine (Bag T) (Operation T) (Report T) where
  step bag operation :=
    match operation with
    | .insert element =>
      let (key, bag) := bag.insert element
      (bag, [.inserted key])
    | .removeKey key =>
      match bag.removeKey key with
      | none => (bag, [.trap])
      | some (value, bag) => (bag, [.removed value])
    | .removeAll => (bag.removeAll, [])

def insertions (operations : List (Operation T)) : Nat :=
  operations.countP fun
    | .insert _ => true
    | _ => false

end Bag

/-- What a bag is for: the values inserted and not removed since, the oldest first. -/
structure Registry (T : Type u) where
  live : List (Bag.Entry T)
  issued : Nat

namespace Registry

variable {T : Type u}

def empty : Registry T := ⟨[], 0⟩

def insert (registry : Registry T) (element : T) : Registry T :=
  { live := registry.live ++ [(⟨UInt64.ofNat registry.issued⟩, element)],
    issued := registry.issued + 1 }

def removeKey (registry : Registry T) (key : BagKey) : Option T × Registry T :=
  match removeValue key registry.live with
  | none => (none, registry)
  | some (value, live) => (some value, { registry with live := live })

theorem removeKey_issued (registry : Registry T) (key : BagKey) :
    (registry.removeKey key).2.issued = registry.issued := by
  unfold removeKey
  split <;> rfl

def machine : Machine (Registry T) (Bag.Operation T) (Bag.Report T) where
  step registry operation :=
    match operation with
    | .insert element =>
      (registry.insert element, [.inserted ⟨UInt64.ofNat registry.issued⟩])
    | .removeKey key => ((registry.removeKey key).2, [.removed (registry.removeKey key).1])
    | .removeAll => ({ registry with live := [] }, [])

end Registry

namespace Bag

variable {T : Type u}

/-- The bag holds what the registry lists. -/
structure Represents (bag : Bag T) (registry : Registry T) : Prop where
  wellformed : bag.Wellformed
  entries : (bag.entries .identity).Perm registry.live
  issued : bag.nextKey.rawValue.toNat = registry.issued

theorem represents_init : (init : Bag T).Represents Registry.empty :=
  ⟨wellformed_init, List.Perm.refl _, rfl⟩

variable {bag : Bag T} {registry : Registry T}

theorem Represents.nextKey (h : bag.Represents registry) :
    bag.nextKey = ⟨UInt64.ofNat registry.issued⟩ := by
  rw [← h.issued, UInt64.ofNat_toNat]

theorem Represents.insert (h : bag.Represents registry) (hb : registry.issued + 1 < UInt64.size)
    (element : T) : (bag.insert element).2.Represents (registry.insert element) := by
  rw [← h.issued] at hb
  obtain ⟨hw, hp, hn⟩ := insert_spec h.wellformed hb element
  refine ⟨hw, ?_, hn.trans (by rw [h.issued]; rfl)⟩
  rw [h.nextKey] at hp
  exact hp.trans (h.entries.append_right _)

theorem Represents.removeKey (h : bag.Represents registry) (key : BagKey) :
    ∃ bag', bag.removeKey key = some ((registry.removeKey key).1, bag') ∧
      bag'.Represents (registry.removeKey key).2 := by
  unfold Registry.removeKey
  obtain ⟨value, bag', he, hw, hp, hn⟩ | ⟨hk, he⟩ := removeKey_spec h.wellformed key
  · cases hr : removeValue key registry.live with
    | none =>
      have hmem : (key, value) ∈ registry.live :=
        h.entries.subset (hp.symm.subset List.mem_cons_self)
      have hkey : key ∈ registry.live.map Prod.fst := List.mem_map_of_mem hmem
      exact absurd hkey (removeValue_eq_none.mp hr)
    | some r =>
      obtain ⟨value', live⟩ := r
      obtain ⟨hl, _⟩ := removeValue_eq_some hr
      have hmem : (key, value') ∈ bag.entries .identity :=
        h.entries.symm.subset (hl.symm.subset List.mem_cons_self)
      have hv : (key, value) = (key, value') :=
        List.inj_on_of_nodup_map h.wellformed.keys (hp.symm.subset List.mem_cons_self) hmem rfl
      cases hv
      exact ⟨bag', he, hw, (hp.symm.trans (h.entries.trans hl)).cons_inv, by rw [hn]; exact h.issued⟩
  · have hr : removeValue key registry.live = none := by
      rw [removeValue_eq_none, ← (h.entries.map Prod.fst).mem_iff]
      exact hk
    rw [hr]
    exact ⟨bag, he, h⟩

theorem Represents.removeAll (h : bag.Represents registry) :
    bag.removeAll.Represents { registry with live := [] } := by
  obtain ⟨hw, he⟩ := removeAll_spec h.wellformed .identity
  exact ⟨hw, by rw [he], h.issued⟩

/-- A dispatch reaches each live value once. -/
theorem Represents.dispatch (h : bag.Represents registry) (order : HashOrder (Entry T)) :
    (bag.dispatch order).Perm (registry.live.map Prod.snd) := by
  rw [dispatch_eq h.wellformed]
  exact ((bag.entries_perm order).trans h.entries).map Prod.snd

theorem Represents.count (h : bag.Represents registry) : bag.count = registry.live.length := by
  rw [count_eq h.wellformed .identity, h.entries.length_eq]

/-- One operation, on the bag and in the registry. -/
theorem Represents.step (h : bag.Represents registry) {operation : Operation T}
    (hb : registry.issued + insertions [operation] < UInt64.size) :
    machine.emit bag operation = Registry.machine.emit registry operation ∧
      (machine.next bag operation).Represents (Registry.machine.next registry operation) ∧
      (Registry.machine.next registry operation).issued =
        registry.issued + insertions [operation] := by
  cases operation with
  | insert element =>
    refine ⟨?_, h.insert hb element, rfl⟩
    show [Report.inserted (bag.insert element).1] = _
    rw [(bag.insert_cases element).1, h.nextKey]
    rfl
  | removeKey key =>
    obtain ⟨bag', he, hr⟩ := h.removeKey key
    have hs : machine.step bag (.removeKey key) =
        (bag', [.removed (registry.removeKey key).1]) := by
      simp only [machine, he]
    refine ⟨congrArg Prod.snd hs, ?_, ?_⟩
    · show (machine.step bag (.removeKey key)).1.Represents _
      rw [hs]
      exact hr
    · exact registry.removeKey_issued key
  | removeAll => exact ⟨rfl, h.removeAll, rfl⟩

theorem insertions_cons (operation : Operation T) (operations : List (Operation T)) :
    insertions (operation :: operations) = insertions [operation] + insertions operations := by
  rw [insertions, ← List.singleton_append, List.countP_append]
  rfl

/-- In every run with fewer than 2⁶⁴ insertions the bag hands out fresh keys, returns from a
removal what was inserted under the key and not removed since, counts what is left and, in
whatever order its dictionary is listed, dispatches to each of it once; it never traps. -/
theorem run_registry {operations : List (Operation T)} (hb : insertions operations < UInt64.size) :
    machine.outputs init operations = Registry.machine.outputs Registry.empty operations ∧
      (machine.run init operations).count =
        (Registry.machine.run Registry.empty operations).live.length ∧
      ∀ order, ((machine.run init operations).dispatch order).Perm
        ((Registry.machine.run Registry.empty operations).live.map Prod.snd) := by
  suffices h : ∀ (bag : Bag T) (registry : Registry T), bag.Represents registry →
      registry.issued + insertions operations < UInt64.size →
      machine.outputs bag operations = Registry.machine.outputs registry operations ∧
        (machine.run bag operations).Represents (Registry.machine.run registry operations) by
    obtain ⟨ho, hr⟩ := h init Registry.empty represents_init (by simpa [Registry.empty] using hb)
    exact ⟨ho, hr.count, hr.dispatch⟩
  clear hb
  induction operations with
  | nil => exact fun bag registry h _ => ⟨rfl, h⟩
  | cons operation operations ih =>
    intro bag registry h hb
    rw [insertions_cons] at hb
    have hnow : registry.issued + insertions [operation] < UInt64.size := by omega
    obtain ⟨he, hr, hn⟩ := h.step hnow
    obtain ⟨ho, hrun⟩ := ih _ _ hr (by omega)
    rw [Machine.outputs_cons, Machine.outputs_cons, he, ho]
    exact ⟨rfl, hrun⟩

/-- Three values, the first removed before the third came. -/
def reinserted : List (Operation Nat) := [.insert 1, .insert 2, .removeKey ⟨0⟩, .insert 3]

theorem run_registry_reinserted :
    machine.outputs init reinserted =
        [.inserted ⟨0⟩, .inserted ⟨1⟩, .removed (some 1), .inserted ⟨2⟩] ∧
      ((machine.run init reinserted).dispatch .identity).Perm [2, 3] := by
  have hb : insertions reinserted < UInt64.size := by decide
  obtain ⟨ho, _, hd⟩ := run_registry hb
  exact ⟨ho.trans (by decide), hd .identity⟩

/-! ## The order of a dispatch -/

/-- However the dictionary is listed, the values are served in the order of their insertion. -/
def InTurn (bag : Bag T) : Prop :=
  ∀ order, (bag.entries order).Pairwise fun x y => x.1.rawValue.toNat < y.1.rawValue.toNat

/-- Two entries cannot be listed in both orders. -/
theorem length_le_one_of_pairwise {l : List (Entry T)}
    (h : l.Pairwise fun x y => x.1.rawValue.toNat < y.1.rawValue.toNat)
    (h' : l.Pairwise fun x y => y.1.rawValue.toNat < x.1.rawValue.toNat) : l.length ≤ 1 := by
  cases l with
  | nil => exact Nat.zero_le 1
  | cons x l =>
    cases l with
    | nil => exact Nat.le_refl 1
    | cons y l =>
      have hxy := (List.pairwise_cons.mp h).1 y List.mem_cons_self
      have hyx := (List.pairwise_cons.mp h').1 y List.mem_cons_self
      omega

theorem pairwise_of_length_le_one {r : Entry T → Entry T → Prop} {l : List (Entry T)}
    (h : l.length ≤ 1) : l.Pairwise r := by
  cases l with
  | nil => exact List.Pairwise.nil
  | cons x l =>
    have hl : l = [] := List.eq_nil_of_length_eq_zero (by simpa using h)
    rw [hl]
    exact List.pairwise_singleton _ _

theorem inTurn_iff {bag : Bag T} (h : bag.Wellformed) :
    bag.InTurn ↔
      (∀ x ∈ bag.slot, ∀ y ∈ bag.pairs ++ bag.dictionary.getD [],
        x.1.rawValue.toNat < y.1.rawValue.toNat) ∧
      (bag.dictionary.getD []).length ≤ 1 := by
  constructor
  · intro hi
    have hid := hi .identity
    have hrev := hi .reverse
    rw [entries, List.pairwise_append] at hid hrev
    refine ⟨hid.2.2, ?_⟩
    have hd := (List.pairwise_append.mp hid.2.1).2.1
    have hd' := (List.pairwise_append.mp hrev.2.1).2.1
    simp only [HashOrder.identity, HashOrder.reverse, id_eq, List.pairwise_reverse] at hd hd'
    exact length_le_one_of_pairwise hd hd'
  · rintro ⟨hslot, hone⟩ order
    have hperm := order.perm (bag.dictionary.getD [])
    rw [entries, List.pairwise_append, List.pairwise_append]
    refine ⟨?_, ⟨h.sorted, ?_, ?_⟩, ?_⟩
    · unfold slot
      split
      · exact List.pairwise_singleton _ _
      · exact List.Pairwise.nil
    · exact pairwise_of_length_le_one (Nat.le_trans (Nat.le_of_eq hperm.length_eq) hone)
    · intro p hp e he
      cases hd : bag.dictionary with
      | none => rw [hd] at he; simp [list_nil] at he
      | some d =>
        rw [hd] at he
        exact h.later d hd p hp e ((order.perm d).subset he)
    · intro x hx y hy
      apply hslot x hx y
      rw [List.mem_append] at hy ⊢
      exact hy.imp_right (fun hm => hperm.subset hm)

/-- An insertion keeps the order when it does not fill a slot that an older value left behind its
followers, and when the dictionary gets no second entry. -/
def KeepsTurn (bag : Bag T) : Operation T → Prop
  | .insert _ =>
    (bag.key0 = none → bag.pairs = [] ∧ bag.dictionary.getD [] = []) ∧
    (bag.key0 ≠ none → (bag.dictionary = none → arrayDictionaryMaxSize ≤ bag.pairs.length) →
      bag.dictionary.getD [] = [])
  | .removeKey _ => True
  | .removeAll => True

instance [DecidableEq T] (bag : Bag T) (operation : Operation T) :
    Decidable (bag.KeepsTurn operation) := by
  unfold KeepsTurn
  split <;> infer_instance

theorem insert_inTurn_iff {bag : Bag T} (h : bag.Wellformed)
    (hb : bag.nextKey.rawValue.toNat + 1 < UInt64.size) (hi : bag.InTurn) (element : T) :
    (bag.insert element).2.InTurn ↔ bag.KeepsTurn (.insert element) := by
  obtain ⟨hw, hp, hn⟩ := insert_spec h hb element
  obtain ⟨hslot, hone⟩ := (inTurn_iff h).mp hi
  rw [inTurn_iff hw, KeepsTurn]
  obtain ⟨_, ⟨hk, he⟩ | ⟨hk, hd, hl, he⟩ | ⟨hk, hd, he⟩⟩ := bag.insert_cases element
  · have hs : (bag.insert element).2.slot = [(bag.nextKey, element)] := by rw [he]; rfl
    rw [hs, he]
    simp only [List.mem_singleton, forall_eq, hk, ne_eq, not_true_eq_false, forall_const,
      false_implies, and_true]
    constructor
    · rintro ⟨hlt, _⟩
      have hnil : bag.pairs ++ bag.dictionary.getD [] = [] := by
        rw [List.eq_nil_iff_forall_not_mem]
        intro y hy
        have hissued := h.issued y (List.mem_append_right _ hy)
        have := hlt y hy
        omega
      exact List.append_eq_nil_iff.mp hnil
    · rintro ⟨hpairs, hdict⟩
      simp [hpairs, hdict]
  · have hs : (bag.insert element).2.slot = bag.slot := by rw [he]; rfl
    rw [hs, he]
    refine iff_of_true ⟨?_, ?_⟩ ⟨fun hnone => absurd hnone hk, fun _ hfull => ?_⟩
    · intro x hx y hy
      simp only [hd, Option.getD_none, List.append_nil, List.mem_append, List.mem_singleton] at hy
      obtain hy | hy := hy
      · exact hslot x hx y (List.mem_append_left _ hy)
      · rw [hy]
        exact h.issued x (List.mem_append_left _ hx)
    · exact hone
    · have := hfull hd
      omega
  · have hs : (bag.insert element).2.slot = bag.slot := by rw [he]; rfl
    rw [hs, he]
    simp only [Option.getD_some, updateValue_eq h.not_mem_dictionary, List.length_append,
      List.length_singleton]
    constructor
    · rintro ⟨_, hle⟩
      refine ⟨fun hnone => absurd hnone hk, fun _ _ => List.eq_nil_of_length_eq_zero (by omega)⟩
    · rintro ⟨_, hempty⟩
      have hnil := hempty hk hd
      refine ⟨?_, by rw [hnil]; exact Nat.le_refl 1⟩
      intro x hx y hy
      rw [hnil, List.nil_append, List.mem_append, List.mem_singleton] at hy
      obtain hy | hy := hy
      · exact hslot x hx y (List.mem_append_left _ hy)
      · rw [hy]
        exact h.issued x (List.mem_append_left _ hx)

theorem removeKey_inTurn {bag bag' : Bag T} {key : BagKey} {value : Option T} (h : bag.Wellformed)
    (hi : bag.InTurn) (he : bag.removeKey key = some (value, bag')) : bag'.InTurn := by
  intro order
  obtain ⟨v, _, _, heq⟩ | ⟨v, d, rest, hd, hr, heq⟩ | ⟨v, rest, hr, heq⟩ | ⟨_, heq⟩ :=
    removeKey_cases h key
  · rw [he] at heq
    cases heq
    exact (hi order).sublist (List.sublist_append_right _ _)
  · rw [he] at heq
    cases heq
    -- the dictionary had that entry only
    have hone := ((inTurn_iff h).mp hi).2
    have hlen := (removeValue_eq_some hr).1.length_eq
    rw [hd, Option.getD_some, hlen] at hone
    have hnil : rest = [] := List.eq_nil_of_length_eq_zero (by simpa using hone)
    refine (hi order).sublist ?_
    simp only [entries, hnil, Option.getD_some, list_nil, List.append_nil]
    exact (List.sublist_append_left _ _).append_left _
  · rw [he] at heq
    cases heq
    exact (hi order).sublist (((removeValue_eq_some hr).2.append_right _).append_left _)
  · rw [he] at heq
    cases heq
    exact hi order

theorem Wellformed.next {bag : Bag T} (h : bag.Wellformed) {operation : Operation T}
    (hb : bag.nextKey.rawValue.toNat + insertions [operation] < UInt64.size) :
    (machine.next bag operation).Wellformed ∧
      (machine.next bag operation).nextKey.rawValue.toNat =
        bag.nextKey.rawValue.toNat + insertions [operation] := by
  have hr : bag.Represents ⟨bag.entries .identity, bag.nextKey.rawValue.toNat⟩ :=
    ⟨h, List.Perm.refl _, rfl⟩
  obtain ⟨_, hnext, hissued⟩ := hr.step hb
  exact ⟨hnext.wellformed, hnext.issued.trans hissued⟩

/-- A key is left for every insertion to come. -/
theorem along_nextKey {bag : Bag T} {operations : List (Operation T)} (h : bag.Wellformed)
    (hb : bag.nextKey.rawValue.toNat + insertions operations < UInt64.size) :
    machine.Along
      (fun bag operation => bag.nextKey.rawValue.toNat + insertions [operation] < UInt64.size) bag
      operations := by
  induction operations generalizing bag with
  | nil => trivial
  | cons operation operations ih =>
    rw [insertions_cons] at hb
    have hnow : bag.nextKey.rawValue.toNat + insertions [operation] < UInt64.size := by omega
    obtain ⟨hw, hn⟩ := h.next hnow
    exact ⟨hnow, ih hw (by omega)⟩

theorem next_inTurn_iff {bag : Bag T} (h : bag.Wellformed) (hi : bag.InTurn)
    {operation : Operation T}
    (hb : bag.nextKey.rawValue.toNat + insertions [operation] < UInt64.size) :
    (machine.next bag operation).InTurn ↔ bag.KeepsTurn operation := by
  cases operation with
  | insert element => exact insert_inTurn_iff h hb hi element
  | removeKey key =>
    refine iff_of_true ?_ trivial
    cases he : bag.removeKey key with
    | none =>
      have hn : machine.next bag (.removeKey key) = bag := by simp [Machine.next, machine, he]
      rw [hn]
      exact hi
    | some r =>
      have hn : machine.next bag (.removeKey key) = r.2 := by simp [Machine.next, machine, he]
      rw [hn]
      exact removeKey_inTurn h hi he
  | removeAll =>
    refine iff_of_true ?_ trivial
    intro order
    show (bag.removeAll.entries order).Pairwise _
    rw [(removeAll_spec h order).2]
    exact List.Pairwise.nil

/-- In the states of a run every dispatch serves the values in the order of their insertion exactly
when no insertion fills a slot left behind its followers or puts a second entry in the dictionary. -/
theorem run_inTurn_iff {operations : List (Operation T)} (hb : insertions operations < UInt64.size) :
    machine.Always InTurn (init : Bag T) operations ↔
      machine.Along KeepsTurn (init : Bag T) operations := by
  have hinit : (init : Bag T).InTurn := by
    intro order
    simp [entries, init, slot, list_nil]
  exact machine.always_iff_along (I := Wellformed)
    (fun bag operation h _ hnow => (h.next hnow).1)
    (fun bag operation h hi hnow => next_inTurn_iff h hi hnow) wellformed_init hinit
    (along_nextKey wellformed_init (by simpa [init] using hb))

/-- The third value is served before the second, which was there first. -/
theorem run_inTurn_iff_reinserted : ¬ machine.Always InTurn init reinserted := by
  rw [run_inTurn_iff (by decide)]
  intro h
  have hpairs := (h.2.2.2.1.1 rfl).1
  exact absurd hpairs (List.cons_ne_nil _ _)

end Bag
end Karupasu.RxSwift
