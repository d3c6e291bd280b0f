import Karupasu.Differentiator.Items
import Karupasu.Library.BatchStages

/-!
# What the changesets ask for

Each of the three stages ends without an error, and what it asks for is told by the movements.
-/
namespace Karupasu.Differentiator

open Karupasu.Library.Loops
open Karupasu.Library.BatchUpdates (Batch Path item? item?_isSome_iff length_filterMap_range
  getElem?_filterMap_range_count)

/-- What `batchUpdates` asks of the view. -/
def Changeset.batchUpdates {Section : Type} (changes : Changeset Section) : Batch where
  deletedSections := changes.deletedSections
  insertedSections := changes.insertedSections
  movedSections := changes.movedSections
  deletedItems := changes.deletedItems.map (·.indexPath)
  insertedItems := changes.insertedItems.map (·.indexPath)
  updatedItems := changes.updatedItems.map (·.indexPath)
  movedItems := changes.movedItems.map fun move => (move.1.indexPath, move.2.indexPath)

theorem indexPath_injective : Function.Injective ItemPath.indexPath := by
  rintro ⟨k, j⟩ ⟨i, l⟩ he
  obtain ⟨rfl, rfl⟩ := Prod.mk.inj he
  rfl

theorem mem_map_indexPath {l : List ItemPath} {p : ItemPath} :
    p.indexPath ∈ l.map (·.indexPath) ↔ p ∈ l :=
  List.mem_map_of_injective indexPath_injective

namespace Diff

variable {Model Item SId IId : Type} [IdentifiableType Model SId] [IdentifiableType Item IId]

/-- The movements of the sections and the items of a generator. -/
structure Moved (g : CommandGenerator Model Item) : Prop where
  sections : SectionMovements g.initialSections g.finalSections g.sections
  items : ItemMovements (g.initialSections.map (·.items)) g.finalItemCache g.sections g.items

def KeepsSection (g : CommandGenerator Model Item) (k : Nat) : Prop :=
  (g.sections.initial k).moveIndex.isSome = true

instance (g : CommandGenerator Model Item) : DecidablePred (KeepsSection g) := fun k =>
  inferInstanceAs (Decidable ((g.sections.initial k).moveIndex.isSome = true))

def initialItem? (g : CommandGenerator Model Item) (p : ItemPath) : Option Item :=
  item? (g.initialSections.map (·.items)) p.indexPath

def finalItem? (g : CommandGenerator Model Item) (q : ItemPath) : Option Item :=
  item? g.finalItemCache q.indexPath

/-- The final item that an item of a moved section becomes, if it stays. -/
def survivor (g : CommandGenerator Model Item) (k j : Nat) : Option Item :=
  (target g.sections g.items ⟨k, j⟩).bind (finalItem? g)

def survivors (g : CommandGenerator Model Item) (k n : Nat) : List Item :=
  (List.range n).filterMap (survivor g k)

/-- An item that stays and is not equal to what it becomes. -/
def Updated [BEq Item] (g : CommandGenerator Model Item) (p : ItemPath) : Prop :=
  ∃ q a b, StaysAt g.sections g.items p q ∧ initialItem? g p = some a ∧ finalItem? g q = some b ∧
    (b != a) = true

variable {g : CommandGenerator Model Item}

theorem initialItem?_eq {k j : Nat} {a : AnimatableSectionModel Model Item}
    (h : g.initialSections[k]? = some a) : initialItem? g ⟨k, j⟩ = a.items[j]? := by
  simp only [initialItem?, item?, ItemPath.indexPath, List.getElem?_map, h, Option.map_some,
    Option.bind_some]

theorem finalItem?_eq {i j : Nat} {b : AnimatableSectionModel Model Item}
    (h : g.finalSections[i]? = some b) : finalItem? g ⟨i, j⟩ = b.items[j]? := by
  simp only [finalItem?, CommandGenerator.finalItemCache, item?, ItemPath.indexPath,
    List.getElem?_map, h, Option.map_some, Option.bind_some]

theorem finalItem_eq {q : ItemPath} {b : Item} (h : finalItem? g q = some b) :
    g.finalItem q = .ok b :=
  itemAt_eq_ok.mpr h

namespace Moved

theorem staysAt (h : Moved g) {k j : Nat} (hk : KeepsSection g k)
    (hs : stays g.sections g.items k j) :
    ∃ q b, StaysAt g.sections g.items ⟨k, j⟩ q ∧ finalItem? g q = some b ∧
      survivor g k j = some b := by
  obtain ⟨q, hq⟩ := Option.isSome_iff_exists.mp hs
  obtain ⟨hm, hf⟩ := Option.filter_eq_some_iff.mp hq
  obtain ⟨b, hb⟩ := Option.isSome_iff_exists.mp ((h.items.initial _ q).mp hm).isSome_final
  refine ⟨q, b, ⟨hm, hk, hf⟩, hb, ?_⟩
  rw [survivor, hq]
  exact hb

theorem stays_of_staysAt {p q : ItemPath} (hs : StaysAt g.sections g.items p q) :
    stays g.sections g.items p.sectionIndex p.itemIndex := by
  rw [stays, target, hs.moveIndex, Option.filter_some, if_pos hs.final]
  rfl

theorem survivor_eq_none {k j : Nat} (hs : ¬stays g.sections g.items k j) :
    survivor g k j = none := by
  rw [survivor, Option.not_isSome_iff_eq_none.mp hs]
  rfl

theorem survivor_isSome_iff (h : Moved g) {k j : Nat} (hk : KeepsSection g k) :
    (survivor g k j).isSome = true ↔ stays g.sections g.items k j := by
  constructor
  · intro hs
    by_contra hn
    rw [survivor_eq_none hn] at hs
    exact nomatch hs
  · intro hs
    obtain ⟨q, b, -, -, hb⟩ := h.staysAt hk hs
    rw [hb]
    rfl

theorem deleted_of_not_stays (h : Moved g) {k j : Nat} {a : Item} (hk : KeepsSection g k)
    (ha : initialItem? g ⟨k, j⟩ = some a) (hs : ¬stays g.sections g.items k j) :
    (g.items.initial ⟨k, j⟩).event = .deleted :=
  h.items.deleted ⟨k, j⟩ a ha hk fun _ hq => hs (stays_of_staysAt hq)

end Moved

theorem survivors_succ (k n : Nat) :
    survivors g k (n + 1) = survivors g k n ++ (survivor g k n).toList := by
  unfold survivors
  rw [List.range_succ, List.filterMap_append]
  cases h : survivor g k n with
  | none => rw [List.filterMap_cons_none h]; rfl
  | some b => rw [List.filterMap_cons_some h]; rfl

theorem safeInit_ok [BEq Item] [ReflBEq Item] [DecidableEq SId]
    (original : AnimatableSectionModel Model Item) (items : List Item) :
    safeInit original items = .ok ⟨original.model, items⟩ := by
  have hsame : (items == items) = true := BEq.rfl
  unfold safeInit
  simp only [bne, hsame, ne_eq, not_true_eq_false, decide_false, Bool.not_true, Bool.or_self,
    Bool.false_eq_true, if_false]
  rfl

/-! ## The first stage -/

section Deletions

variable [BEq Item]

/-- What the first stage has collected for section `k` after some of its items. -/
structure DeletesItems (g : CommandGenerator Model Item) (k turns : Nat)
    (s : CommandGenerator.ItemDeletions Item) : Prop where
  deleted : ∀ p, p ∈ s.deletedItems ↔
    p.sectionIndex = k ∧ p.itemIndex < turns ∧ ¬stays g.sections g.items k p.itemIndex
  updated : ∀ p, p ∈ s.updatedItems ↔ p.sectionIndex = k ∧ p.itemIndex < turns ∧ Updated g p
  deletedOnce : s.deletedItems.Nodup
  updatedOnce : s.updatedItems.Nodup
  after : s.afterDeleteItems = survivors g k turns

theorem mem_concat_path {l : List ItemPath} {k turns : Nat} {P : ItemPath → Prop}
    (h : ∀ p, p ∈ l ↔ p.sectionIndex = k ∧ p.itemIndex < turns ∧ P p) (hp : P ⟨k, turns⟩)
    (p : ItemPath) :
    p ∈ l ++ [⟨k, turns⟩] ↔ p.sectionIndex = k ∧ p.itemIndex < turns + 1 ∧ P p := by
  rw [List.mem_append, h, List.mem_singleton]
  constructor
  · rintro (⟨hk, hlt, hP⟩ | rfl)
    · exact ⟨hk, by omega, hP⟩
    · exact ⟨rfl, Nat.lt_succ_self turns, hp⟩
  · rintro ⟨rfl, hlt, hP⟩
    rcases Nat.lt_succ_iff_lt_or_eq.mp hlt with hlt | rfl
    · exact .inl ⟨rfl, hlt, hP⟩
    · exact .inr rfl

theorem mem_skip_path {l : List ItemPath} {k turns : Nat} {P : ItemPath → Prop}
    (h : ∀ p, p ∈ l ↔ p.sectionIndex = k ∧ p.itemIndex < turns ∧ P p) (hp : ¬P ⟨k, turns⟩)
    (p : ItemPath) : p ∈ l ↔ p.sectionIndex = k ∧ p.itemIndex < turns + 1 ∧ P p := by
  rw [h]
  constructor
  · rintro ⟨hk, hlt, hP⟩
    exact ⟨hk, by omega, hP⟩
  · rintro ⟨rfl, hlt, hP⟩
    rcases Nat.lt_succ_iff_lt_or_eq.mp hlt with hlt | rfl
    · exact ⟨rfl, hlt, hP⟩
    · exact absurd hP hp

omit [IdentifiableType Model SId] [IdentifiableType Item IId] [BEq Item] in
theorem nodup_append_singleton {α : Type} {l : List α} {a : α} (hl : l.Nodup) (ha : a ∉ l) :
    (l ++ [a]).Nodup := by
  rw [← List.concat_eq_append]
  exact hl.concat ha

theorem nodup_concat_path {l : List ItemPath} {k turns : Nat} {P : ItemPath → Prop}
    (h : ∀ p, p ∈ l ↔ p.sectionIndex = k ∧ p.itemIndex < turns ∧ P p) (hl : l.Nodup) :
    (l ++ [(⟨k, turns⟩ : ItemPath)]).Nodup := by
  refine nodup_append_singleton hl fun hmem => ?_
  exact Nat.lt_irrefl turns ((h _).mp hmem).2.1

theorem deleteItem_turn (h : Moved g) {k turns : Nat} {a : Item} (hk : KeepsSection g k)
    (ha : initialItem? g ⟨k, turns⟩ = some a) {s : CommandGenerator.ItemDeletions Item}
    (hs : DeletesItems g k turns s) :
    ∃ t, g.deleteItem k s (a, turns) = .ok t ∧ DeletesItems g k (turns + 1) t := by
  by_cases hstay : stays g.sections g.items k turns
  · obtain ⟨q, b, hq, hb, hsurvivor⟩ := h.staysAt hk hstay
    have hmoves := h.items.moved _ q hq
    have hdeleted : ∀ p, p ∈ s.deletedItems ↔ p.sectionIndex = k ∧ p.itemIndex < turns + 1 ∧
        ¬stays g.sections g.items k p.itemIndex :=
      mem_skip_path (P := fun p => ¬stays g.sections g.items k p.itemIndex) hs.deleted
        (not_not.mpr hstay)
    have hupdated : Updated g ⟨k, turns⟩ ↔ (b != a) = true := by
      constructor
      · rintro ⟨r, a', b', hr, ha', hb', hne⟩
        obtain rfl := Option.some.inj (hq.moveIndex.symm.trans hr.moveIndex)
        obtain rfl := Option.some.inj (ha.symm.trans ha')
        obtain rfl := Option.some.inj (hb.symm.trans hb')
        exact hne
      · exact fun hne => ⟨q, a, b, hq, ha, hb, hne⟩
    refine ⟨{ s with
      updatedItems := if b != a then s.updatedItems ++ [⟨k, turns⟩] else s.updatedItems
      afterDeleteItems := s.afterDeleteItems ++ [b] }, ?_, hdeleted, ?_, hs.deletedOnce, ?_, ?_⟩
    · have hfinal := finalItem_eq hb
      unfold CommandGenerator.deleteItem
      rcases hmoves with ⟨hm | hm, he⟩
      · rw [hm] at he
        simp only [he, hq.moveIndex, unwrap, pure_bind, hfinal]
        rfl
      · rw [hm] at he
        simp only [he, hq.moveIndex, unwrap, pure_bind, hfinal]
        rfl
    · by_cases hne : (b != a) = true
      · simp only [if_pos hne]
        exact mem_concat_path hs.updated (hupdated.mpr hne)
      · simp only [if_neg hne]
        exact mem_skip_path hs.updated fun hu => hne (hupdated.mp hu)
    · by_cases hne : (b != a) = true
      · simp only [if_pos hne]
        exact nodup_concat_path hs.updated hs.updatedOnce
      · simp only [if_neg hne]
        exact hs.updatedOnce
    · rw [survivors_succ, hsurvivor, ← hs.after]
      rfl
  · have hdelete := h.deleted_of_not_stays hk ha hstay
    refine ⟨{ s with deletedItems := s.deletedItems ++ [⟨k, turns⟩] }, ?_, ?_, ?_,
      nodup_concat_path (P := fun p => ¬stays g.sections g.items k p.itemIndex) hs.deleted
        hs.deletedOnce, hs.updatedOnce, ?_⟩
    · unfold CommandGenerator.deleteItem
      simp only [hdelete]
      rfl
    · exact mem_concat_path (P := fun p => ¬stays g.sections g.items k p.itemIndex) hs.deleted hstay
    · refine mem_skip_path hs.updated ?_
      rintro ⟨q, -, -, hq, -⟩
      exact hstay (Moved.stays_of_staysAt hq)
    · rw [survivors_succ, Moved.survivor_eq_none hstay, ← hs.after]
      exact (List.append_nil _).symm

theorem deleteItems (h : Moved g) {k : Nat} {a : AnimatableSectionModel Model Item}
    (hk : KeepsSection g k) (ha : g.initialSections[k]? = some a) :
    ∃ d, a.items.zipIdx.foldlM (g.deleteItem k) {} = .ok d ∧
      DeletesItems g k a.items.length d := by
  have hloop := foldlM_ok (ε := Error Model Item) (P := DeletesItems g k) (f := g.deleteItem k)
    (b := {}) ?_ a.items.zipIdx ?_
  · rw [List.length_zipIdx] at hloop
    exact hloop
  · exact ⟨fun p => iff_of_false List.not_mem_nil fun hp => Nat.not_lt_zero _ hp.2.1,
      fun p => iff_of_false List.not_mem_nil fun hp => Nat.not_lt_zero _ hp.2.1, List.nodup_nil,
      List.nodup_nil, rfl⟩
  · rintro turns ⟨item, j⟩ s hp hs
    obtain ⟨hitem, hj⟩ := getElem?_zipIdx_eq_some.mp hp
    obtain rfl : j = turns := hj
    exact deleteItem_turn h hk ((initialItem?_eq ha).trans hitem) hs

/-- A section as the first stage leaves it. -/
def sectionAfterDelete (g : CommandGenerator Model Item) (k : Nat) :
    Option (AnimatableSectionModel Model Item) :=
  if KeepsSection g k then
    g.initialSections[k]?.map fun a => ⟨a.model, survivors g k a.items.length⟩
  else none

/-- What the first stage has collected after some of the sections. -/
structure DeletesSections (g : CommandGenerator Model Item) (turns : Nat)
    (s : List Nat × List ItemPath × List ItemPath × List (AnimatableSectionModel Model Item)) :
    Prop where
  deletedSections : ∀ k, k ∈ s.1 ↔ k < turns ∧ ¬KeepsSection g k
  deletedItems : ∀ p, p ∈ s.2.1 ↔ p.sectionIndex < turns ∧ KeepsSection g p.sectionIndex ∧
    (initialItem? g p).isSome = true ∧ ¬stays g.sections g.items p.sectionIndex p.itemIndex
  updatedItems : ∀ p, p ∈ s.2.2.1 ↔ p.sectionIndex < turns ∧ Updated g p
  deletedSectionsOnce : s.1.Nodup
  deletedItemsOnce : s.2.1.Nodup
  updatedItemsOnce : s.2.2.1.Nodup
  after : s.2.2.2 = (List.range turns).filterMap (sectionAfterDelete g)

theorem Updated.keepsSection {p : ItemPath} (hu : Updated g p) : KeepsSection g p.sectionIndex := by
  obtain ⟨q, a, b, hq, -⟩ := hu
  exact hq.initial

theorem Updated.isSome {p : ItemPath} (hu : Updated g p) : (initialItem? g p).isSome = true := by
  obtain ⟨q, a, b, -, ha, -⟩ := hu
  rw [ha]
  rfl

/-- A property of the items, section by section. -/
theorem mem_append_section {l m : List ItemPath} {turns n : Nat} {P Q : ItemPath → Prop}
    (hl : ∀ p, p ∈ l ↔ p.sectionIndex < turns ∧ P p)
    (hm : ∀ p, p ∈ m ↔ p.sectionIndex = turns ∧ p.itemIndex < n ∧ Q p)
    (hPQ : ∀ j, P ⟨turns, j⟩ ↔ j < n ∧ Q ⟨turns, j⟩) (p : ItemPath) :
    p ∈ l ++ m ↔ p.sectionIndex < turns + 1 ∧ P p := by
  rw [List.mem_append, hl, hm]
  constructor
  · rintro (⟨hlt, hP⟩ | ⟨he, hQ⟩)
    · exact ⟨by omega, hP⟩
    · obtain ⟨i, j⟩ := p
      obtain rfl : i = turns := he
      exact ⟨Nat.lt_succ_self i, (hPQ j).mpr hQ⟩
  · rintro ⟨hlt, hP⟩
    rcases Nat.lt_succ_iff_lt_or_eq.mp hlt with hlt | he
    · exact .inl ⟨hlt, hP⟩
    · obtain ⟨i, j⟩ := p
      obtain rfl : i = turns := he
      exact .inr ⟨rfl, (hPQ j).mp hP⟩

theorem nodup_append_section {l m : List ItemPath} {turns n : Nat} {P Q : ItemPath → Prop}
    (hl : ∀ p, p ∈ l ↔ p.sectionIndex < turns ∧ P p)
    (hm : ∀ p, p ∈ m ↔ p.sectionIndex = turns ∧ p.itemIndex < n ∧ Q p) (hln : l.Nodup)
    (hmn : m.Nodup) : (l ++ m).Nodup := by
  refine hln.append hmn fun p hpl hpm => ?_
  exact absurd ((hl p).mp hpl).1 (((hm p).mp hpm).1 ▸ Nat.lt_irrefl _)

theorem mem_skip_section {l : List ItemPath} {turns : Nat} {P : ItemPath → Prop}
    (hl : ∀ p, p ∈ l ↔ p.sectionIndex < turns ∧ P p) (hP : ∀ j, ¬P ⟨turns, j⟩) (p : ItemPath) :
    p ∈ l ↔ p.sectionIndex < turns + 1 ∧ P p := by
  rw [hl]
  refine and_congr_left fun hp => ⟨fun hlt => by omega, fun hlt => ?_⟩
  refine lt_of_le_of_ne (Nat.le_of_lt_succ hlt) fun he => ?_
  obtain ⟨i, j⟩ := p
  obtain rfl : i = turns := he
  exact hP j hp

variable [ReflBEq Item] [DecidableEq SId]

theorem deleteSection_turn (h : Moved g) {turns : Nat} {a : AnimatableSectionModel Model Item}
    (ha : g.initialSections[turns]? = some a)
    {s : List Nat × List ItemPath × List ItemPath × List (AnimatableSectionModel Model Item)}
    (hs : DeletesSections g turns s) :
    ∃ t, g.deleteSection s (a, turns) = .ok t ∧ DeletesSections g (turns + 1) t := by
  have hlt := (List.getElem?_eq_some_iff.mp ha).1
  by_cases hk : KeepsSection g turns
  · obtain ⟨d, hd, hdeletes⟩ := deleteItems h hk ha
    have hevent : (g.sections.initial turns).event ≠ .deleted := by
      rw [ne_eq, h.sections.deleted_iff hlt]
      exact Option.isSome_iff_ne_none.mp hk
    refine ⟨(s.1, s.2.1 ++ d.deletedItems, s.2.2.1 ++ d.updatedItems,
      s.2.2.2 ++ [⟨a.model, d.afterDeleteItems⟩]), ?_, ?_, ?_, ?_, hs.deletedSectionsOnce,
      nodup_append_section hs.deletedItems hdeletes.deleted hs.deletedItemsOnce hdeletes.deletedOnce,
      nodup_append_section hs.updatedItems hdeletes.updated hs.updatedItemsOnce hdeletes.updatedOnce,
      ?_⟩
    · unfold CommandGenerator.deleteSection
      simp only [if_neg hevent]
      exact bind_eq_ok.mpr ⟨d, hd, bind_eq_ok.mpr ⟨_, safeInit_ok a d.afterDeleteItems, rfl⟩⟩
    · intro k
      rw [hs.deletedSections]
      refine and_congr_left fun hn => ⟨fun hk' => by omega, fun hk' => ?_⟩
      exact lt_of_le_of_ne (Nat.le_of_lt_succ hk') fun he => hn (he ▸ hk)
    · refine mem_append_section hs.deletedItems hdeletes.deleted fun j => ?_
      rw [initialItem?_eq ha, isSome_getElem?]
      exact ⟨fun hP => hP.2, fun hQ => ⟨hk, hQ⟩⟩
    · refine mem_append_section hs.updatedItems hdeletes.updated fun j => ?_
      refine ⟨fun hu => ⟨?_, hu⟩, fun hu => hu.2⟩
      have hsome := hu.isSome
      rw [initialItem?_eq ha, isSome_getElem?] at hsome
      exact hsome
    · rw [List.range_succ, List.filterMap_append, ← hs.after, hdeletes.after]
      have hafter : sectionAfterDelete g turns = some ⟨a.model, survivors g turns a.items.length⟩ := by
        rw [sectionAfterDelete, if_pos hk, ha]
        rfl
      rw [List.filterMap_cons_some hafter]
      rfl
  · have hevent : (g.sections.initial turns).event = .deleted := by
      rw [h.sections.deleted_iff hlt]
      exact Option.not_isSome_iff_eq_none.mp hk
    have honce : (s.1 ++ [turns]).Nodup :=
      nodup_append_singleton hs.deletedSectionsOnce fun hmem =>
        Nat.lt_irrefl turns ((hs.deletedSections turns).mp hmem).1
    refine ⟨(s.1 ++ [turns], s.2.1, s.2.2.1, s.2.2.2), ?_, ?_, ?_, ?_, honce, hs.deletedItemsOnce,
      hs.updatedItemsOnce, ?_⟩
    · unfold CommandGenerator.deleteSection
      simp only [if_pos hevent]
      rfl
    · intro k
      rw [List.mem_append, List.mem_singleton, hs.deletedSections]
      constructor
      · rintro (⟨hk', hn⟩ | rfl)
        · exact ⟨by omega, hn⟩
        · exact ⟨Nat.lt_succ_self k, hk⟩
      · rintro ⟨hk', hn⟩
        rcases Nat.lt_succ_iff_lt_or_eq.mp hk' with hk' | rfl
        · exact .inl ⟨hk', hn⟩
        · exact .inr rfl
    · exact mem_skip_section hs.deletedItems fun j hP => hk hP.1
    · exact mem_skip_section hs.updatedItems fun j hP => hk hP.keepsSection
    · rw [List.range_succ, List.filterMap_append, ← hs.after]
      have hafter : sectionAfterDelete g turns = none := by
        rw [sectionAfterDelete, if_neg hk]
      rw [List.filterMap_cons_none hafter]
      exact (List.append_nil _).symm

/-- The first stage. -/
theorem deletions_ok (h : Moved g) :
    ∃ s, DeletesSections g g.initialSections.length s ∧
      g.generateDeleteSectionsDeletedItemsAndUpdatedItems = .ok
        (if s.2.1.isEmpty && s.1.isEmpty && s.2.2.1.isEmpty then []
        else [{
          finalSections := s.2.2.2
          deletedSections := s.1
          deletedItems := s.2.1
          updatedItems := s.2.2.1 }]) := by
  have hloop := foldlM_ok (ε := Error Model Item) (P := DeletesSections g) (f := g.deleteSection)
    (b := ([], [], [], [])) ?_ g.initialSections.zipIdx ?_
  · rw [List.length_zipIdx] at hloop
    obtain ⟨s, hs, hdeletes⟩ := hloop
    refine ⟨s, hdeletes, ?_⟩
    unfold CommandGenerator.generateDeleteSectionsDeletedItemsAndUpdatedItems
    rw [hs]
    change (if _ then _ else _) = _
    split
    · rfl
    · rfl
  · exact ⟨fun k => iff_of_false List.not_mem_nil fun hk => Nat.not_lt_zero _ hk.1,
      fun p => iff_of_false List.not_mem_nil fun hp => Nat.not_lt_zero _ hp.1,
      fun p => iff_of_false List.not_mem_nil fun hp => Nat.not_lt_zero _ hp.1, List.nodup_nil,
      List.nodup_nil, List.nodup_nil, rfl⟩
  · rintro turns ⟨a, i⟩ s hp hs
    obtain ⟨ha, hi⟩ := getElem?_zipIdx_eq_some.mp hp
    obtain rfl : i = turns := hi
    exact deleteSection_turn h ha hs

end Deletions

/-! ## The second stage -/

/-- The place of a section once the others are deleted. -/
def rank (g : CommandGenerator Model Item) (k : Nat) : Nat := Nat.count (KeepsSection g) k

section SectionMoves

omit [IdentifiableType Model SId] [IdentifiableType Item IId] in
theorem mem_concat_turn {α : Type} {l : List α} {turns : Nat} {a : α} {P : Nat → α → Prop}
    (h : ∀ b, b ∈ l ↔ ∃ k < turns, P k b) (ha : ∀ b, P turns b ↔ b = a) (b : α) :
    b ∈ l ++ [a] ↔ ∃ k < turns + 1, P k b := by
  rw [List.mem_append, List.mem_singleton, h, ← ha]
  constructor
  · rintro (⟨k, hk, hP⟩ | hP)
    · exact ⟨k, by omega, hP⟩
    · exact ⟨turns, Nat.lt_succ_self turns, hP⟩
  · rintro ⟨k, hk, hP⟩
    rcases Nat.lt_succ_iff_lt_or_eq.mp hk with hk | rfl
    · exact .inl ⟨k, hk, hP⟩
    · exact .inr hP

omit [IdentifiableType Model SId] [IdentifiableType Item IId] in
theorem mem_skip_turn {α : Type} {l : List α} {turns : Nat} {P : Nat → α → Prop}
    (h : ∀ b, b ∈ l ↔ ∃ k < turns, P k b) (ha : ∀ b, ¬P turns b) (b : α) :
    b ∈ l ↔ ∃ k < turns + 1, P k b := by
  rw [h]
  constructor
  · rintro ⟨k, hk, hP⟩
    exact ⟨k, by omega, hP⟩
  · rintro ⟨k, hk, hP⟩
    rcases Nat.lt_succ_iff_lt_or_eq.mp hk with hk | rfl
    · exact ⟨k, hk, hP⟩
    · exact absurd hP (ha b)

/-- Section `k` is to be moved, from where it is after the deletions to where it is to be. -/
def MovesSection (g : CommandGenerator Model Item) (k : Nat) (move : Nat × Nat) : Prop :=
  (g.sections.initial k).event = .moved ∧ move.1 = rank g k ∧
    (g.sections.initial k).moveIndex = some move.2

/-- The moves of the sections before `turns`, each once. -/
structure MovesSections (g : CommandGenerator Model Item) (turns : Nat) (m : List (Nat × Nat)) :
    Prop where
  moved : ∀ move, move ∈ m ↔ ∃ k < turns, MovesSection g k move
  once : m.Nodup

theorem moveSection_turn (h : Moved g) {turns : Nat} (hlt : turns < g.initialSections.length)
    {l : List (Nat × Nat)} (hs : MovesSections g turns l) :
    ∃ m, g.moveSection l turns = .ok m ∧ MovesSections g (turns + 1) m := by
  cases hm : (g.sections.initial turns).moveIndex with
  | none =>
    have hevent := (h.sections.deleted_iff hlt).mpr hm
    refine ⟨l, ?_, mem_skip_turn hs.moved fun move hmove => ?_, hs.once⟩
    · unfold CommandGenerator.moveSection
      simp only [hevent]
      rfl
    · rw [MovesSection, hevent] at hmove
      exact nomatch hmove.1
  | some i =>
    have hfinal := h.sections.swap.mp hm
    have hindex := h.sections.indexAfterDelete turns i hfinal
    have hmoves := h.sections.moves_initial (by rw [hm]; rfl : (g.sections.initial turns).moveIndex.isSome = true)
    rcases hmoves with hevent | hevent
    · have hnew : (rank g turns, i) ∉ l := by
        intro hmem
        obtain ⟨k, hk, -, -, hki⟩ := (hs.moved _).mp hmem
        obtain rfl := Option.some.inj (hfinal.symm.trans (h.sections.swap.mp hki))
        exact Nat.lt_irrefl turns hk
      refine ⟨l ++ [(rank g turns, i)], ?_, mem_concat_turn hs.moved fun move => ?_,
        nodup_append_singleton hs.once hnew⟩
      · unfold CommandGenerator.moveSection
        simp only [hevent, hindex, hm, unwrap, pure_bind]
        rfl
      · unfold MovesSection
        rw [hm, Option.some.injEq]
        constructor
        · rintro ⟨-, hr, hi⟩
          exact Prod.ext hr hi.symm
        · rintro rfl
          exact ⟨hevent, rfl, rfl⟩
    · refine ⟨l, ?_, mem_skip_turn hs.moved fun move hmove => ?_, hs.once⟩
      · unfold CommandGenerator.moveSection
        simp only [hevent]
        rfl
      · rw [MovesSection, hevent] at hmove
        exact nomatch hmove.1

theorem moveSections (h : Moved g) :
    ∃ m, (List.range g.initialSections.length).foldlM g.moveSection [] =
        (.ok m : Except (Error Model Item) (List (Nat × Nat))) ∧
      MovesSections g g.initialSections.length m := by
  have hloop := foldlM_ok (ε := Error Model Item) (f := g.moveSection) (b := [])
    (P := MovesSections g) ?_ (List.range g.initialSections.length) ?_
  · rw [List.length_range] at hloop
    exact hloop
  · exact ⟨fun move => iff_of_false List.not_mem_nil fun ⟨k, hk, _⟩ => Nat.not_lt_zero k hk,
      List.nodup_nil⟩
  · intro turns i l hi hl
    obtain ⟨hlt, rfl⟩ := getElem?_range_eq_some.mp hi
    exact moveSection_turn h hlt hl

theorem keepItem_turn (h : Moved g) {k turns : Nat} {a : Item} (hk : KeepsSection g k)
    (ha : initialItem? g ⟨k, turns⟩ = some a) :
    g.keepItem k (survivors g k turns) turns = .ok (survivors g k (turns + 1)) := by
  rw [survivors_succ]
  by_cases hstay : stays g.sections g.items k turns
  · obtain ⟨q, b, hq, hb, hsurvivor⟩ := h.staysAt hk hstay
    have hmoves := h.items.moved _ q hq
    have hevent : (g.items.initial ⟨k, turns⟩).event ≠ .deleted := by
      rw [hmoves.2]
      rcases hmoves.1 with hm | hm
      · rw [hm]
        exact nofun
      · rw [hm]
        exact nofun
    rw [hsurvivor]
    unfold CommandGenerator.keepItem
    simp only [if_neg hevent, hq.moveIndex]
    exact bind_eq_ok.mpr ⟨b, finalItem_eq hb, rfl⟩
  · rw [Moved.survivor_eq_none hstay]
    unfold CommandGenerator.keepItem
    simp only [if_pos (h.deleted_of_not_stays hk ha hstay), Option.toList_none, List.append_nil]
    rfl

theorem keepItems (h : Moved g) {k : Nat} {a : AnimatableSectionModel Model Item}
    (hk : KeepsSection g k) (ha : g.initialSections[k]? = some a) :
    (List.range a.items.length).foldlM (g.keepItem k) [] =
      (.ok (survivors g k a.items.length) : Except (Error Model Item) (List Item)) := by
  have hloop := foldlM_ok (ε := Error Model Item) (f := g.keepItem k) (b := [])
    (P := fun n items => items = survivors g k n) rfl (List.range a.items.length) ?_
  · obtain ⟨r, hr, he⟩ := hloop
    rw [List.length_range] at he
    rw [hr, he]
  · rintro turns j items hj rfl
    obtain ⟨hlt, rfl⟩ := getElem?_range_eq_some.mp hj
    exact ⟨_, keepItem_turn h hk ((initialItem?_eq ha).trans (List.getElem?_eq_getElem hlt)), rfl⟩

/-- A section as the second stage leaves it. -/
def sectionAfterMove (g : CommandGenerator Model Item)
    (p : AnimatableSectionModel Model Item × Nat) : AnimatableSectionModel Model Item :=
  match (g.sections.final p.2).moveIndex with
  | none => p.1
  | some k => ⟨p.1.model, ((g.initialSections[k]?).map fun a => survivors g k a.items.length).getD []⟩

theorem sectionAfterMove_items {i k : Nat} {a b : AnimatableSectionModel Model Item}
    (hk : (g.sections.final i).moveIndex = some k) (ha : g.initialSections[k]? = some a) :
    sectionAfterMove g (b, i) = ⟨b.model, survivors g k a.items.length⟩ := by
  unfold sectionAfterMove
  simp only [hk, ha, Option.map_some, Option.getD_some]

variable [BEq Item] [ReflBEq Item] [DecidableEq SId]

theorem sectionAfterChange_ok (h : Moved g) {i : Nat} {b : AnimatableSectionModel Model Item}
    (hb : g.finalSections[i]? = some b) :
    g.sectionAfterChange (b, i) = .ok (sectionAfterMove g (b, i)) := by
  have hlt := (List.getElem?_eq_some_iff.mp hb).1
  cases hm : (g.sections.final i).moveIndex with
  | none =>
    have hevent := (h.sections.inserted_iff hlt).mpr hm
    unfold CommandGenerator.sectionAfterChange sectionAfterMove
    simp only [hevent, hm]
    rfl
  | some k =>
    have hk : KeepsSection g k := by
      rw [KeepsSection, h.sections.swap.mpr hm]
      rfl
    have hlt' := ((h.sections.final k i).mp hm).lt_initial
    have ha := List.getElem?_eq_getElem hlt'
    rw [sectionAfterMove_items hm ha]
    unfold CommandGenerator.sectionAfterChange
    rcases (h.sections.moved k i hm).1 with hevent | hevent
    · simp only [hevent, hm, unwrap, pure_bind, ha]
      exact bind_eq_ok.mpr ⟨_, keepItems h hk ha, safeInit_ok b _⟩
    · simp only [hevent, hm, unwrap, pure_bind, ha]
      exact bind_eq_ok.mpr ⟨_, keepItems h hk ha, safeInit_ok b _⟩

/-- The second stage. -/
theorem sectionMoves_ok (h : Moved g) :
    ∃ m, MovesSections g g.initialSections.length m ∧
      g.generateInsertAndMoveSections = .ok
        (if ((List.range g.finalSections.length).filter fun i =>
            (g.sections.final i).event = .inserted).isEmpty && m.isEmpty then []
        else [{
          finalSections := g.finalSections.zipIdx.map (sectionAfterMove g)
          insertedSections := (List.range g.finalSections.length).filter fun i =>
            (g.sections.final i).event = .inserted
          movedSections := m }]) := by
  obtain ⟨m, hm, hmem⟩ := moveSections h
  refine ⟨m, hmem, ?_⟩
  unfold CommandGenerator.generateInsertAndMoveSections
  refine bind_eq_ok.mpr ⟨m, hm, ?_⟩
  simp only
  split
  · rfl
  · have hmap := mapM_except_ok (ε := Error Model Item) (f := g.sectionAfterChange)
      (g := sectionAfterMove g) (l := g.finalSections.zipIdx) (by
        rintro ⟨b, i⟩ hp
        exact sectionAfterChange_ok h (List.mem_zipIdx_iff_getElem?.mp hp))
    exact bind_eq_ok.mpr ⟨_, hmap, rfl⟩

end SectionMoves

/-! ## The third stage -/

section ItemMoves

/-- Where an item is when the sections are in place and the items are not. -/
def InPlace (g : CommandGenerator Model Item) (p path : ItemPath) : Prop :=
  (g.sections.initial p.sectionIndex).moveIndex = some path.sectionIndex ∧
    path.itemIndex = Nat.count (stays g.sections g.items p.sectionIndex) p.itemIndex

def InsertsItem (g : CommandGenerator Model Item) (q : ItemPath) : Prop :=
  ∀ p, ¬StaysAt g.sections g.items p q

def MovesItem (g : CommandGenerator Model Item) (move : ItemPath × ItemPath) : Prop :=
  ∃ p, StaysAt g.sections g.items p move.2 ∧ (g.items.final move.2).event = .moved ∧
    InPlace g p move.1

/-- What the third stage has collected once the items of `visited` have had their turn. -/
structure InsertsItems (g : CommandGenerator Model Item) (visited : ItemPath → Prop)
    (s : List ItemPath × List (ItemPath × ItemPath)) : Prop where
  inserted : ∀ q, q ∈ s.1 ↔ visited q ∧ InsertsItem g q
  moved : ∀ move, move ∈ s.2 ↔ visited move.2 ∧ MovesItem g move
  insertedOnce : s.1.Nodup
  movedOnce : s.2.Nodup

theorem InsertsItems.congr {V W : ItemPath → Prop} {s : List ItemPath × List (ItemPath × ItemPath)}
    (h : InsertsItems g V s) (hV : ∀ q, W q ↔ V q) : InsertsItems g W s := by
  obtain rfl : W = V := funext fun q => propext (hV q)
  exact h

theorem staysAt_inj (h : Moved g) {p r q : ItemPath} (hp : StaysAt g.sections g.items p q)
    (hr : StaysAt g.sections g.items r q) : p = r := by
  have hp' := (h.items.final p q).mpr ((h.items.initial p q).mp hp.moveIndex)
  rw [(h.items.final r q).mpr ((h.items.initial r q).mp hr.moveIndex)] at hp'
  exact (Option.some.inj hp').symm

theorem insertItem_turn (h : Moved g) {V : ItemPath → Prop} {i j : Nat}
    (hV : ¬V ⟨i, j⟩) (hi : (g.sections.final i).moveIndex.isSome = true) {b : Item}
    (hb : finalItem? g ⟨i, j⟩ = some b) {s : List ItemPath × List (ItemPath × ItemPath)}
    (hs : InsertsItems g V s) :
    ∃ t, g.insertItem i s j = .ok t ∧ InsertsItems g (fun q => V q ∨ q = ⟨i, j⟩) t := by
  by_cases hstay : ∃ p, StaysAt g.sections g.items p ⟨i, j⟩
  · obtain ⟨p, hp⟩ := hstay
    have hmoves := (h.items.moved p _ hp).1
    have hfinal := (h.items.final p _).mpr ((h.items.initial p _).mp hp.moveIndex)
    have hinserted : ∀ q, q ∈ s.1 ↔ (V q ∨ q = ⟨i, j⟩) ∧ InsertsItem g q := by
      intro q
      rw [hs.inserted]
      refine and_congr_left fun hq => ⟨.inl, fun hv => hv.resolve_right fun he => ?_⟩
      exact hq p (he ▸ hp)
    obtain ⟨i', hi'⟩ := Option.isSome_iff_exists.mp hp.initial
    have hindex := h.items.indexAfterDelete p _ hp
    rcases hmoves with hevent | hevent
    · refine ⟨(s.1, s.2 ++ [(⟨i', Nat.count (stays g.sections g.items p.sectionIndex) p.itemIndex⟩,
        ⟨i, j⟩)]), ?_, hinserted, fun move => ?_, hs.insertedOnce,
        nodup_append_singleton hs.movedOnce fun hmem => hV ((hs.moved _).mp hmem).1⟩
      · unfold CommandGenerator.insertItem
        simp only [hevent, hfinal, hi', hindex, unwrap, pure_bind]
        rfl
      · rw [List.mem_append, List.mem_singleton, hs.moved]
        constructor
        · rintro (⟨hv, hm⟩ | rfl)
          · exact ⟨.inl hv, hm⟩
          · exact ⟨.inr rfl, p, hp, hevent, hi', rfl⟩
        · rintro ⟨hv | he, hm⟩
          · exact .inl ⟨hv, hm⟩
          · obtain ⟨r, hr, -, hsec, hitem⟩ := hm
            obtain ⟨⟨k, l⟩, q⟩ := move
            obtain rfl : q = ⟨i, j⟩ := he
            obtain rfl := staysAt_inj h hp hr
            obtain rfl := Option.some.inj (hi'.symm.trans hsec)
            obtain rfl : l = _ := hitem
            exact .inr rfl
    · refine ⟨s, ?_, hinserted, fun move => ?_, hs.insertedOnce, hs.movedOnce⟩
      · unfold CommandGenerator.insertItem
        simp only [hevent]
        rfl
      · rw [hs.moved]
        refine and_congr_left fun hm => ⟨.inl, fun hv => hv.resolve_right fun he => ?_⟩
        obtain ⟨r, -, hmoved, -⟩ := hm
        rw [he, hevent] at hmoved
        exact nomatch hmoved
  · have hnone : InsertsItem g ⟨i, j⟩ := fun p hp => hstay ⟨p, hp⟩
    have hevent := h.items.inserted ⟨i, j⟩ b hb hi hnone
    refine ⟨(s.1 ++ [⟨i, j⟩], s.2), ?_, fun q => ?_, fun move => ?_,
      nodup_append_singleton hs.insertedOnce fun hmem => hV ((hs.inserted _).mp hmem).1,
      hs.movedOnce⟩
    · unfold CommandGenerator.insertItem
      simp only [hevent]
      rfl
    · rw [List.mem_append, List.mem_singleton, hs.inserted]
      constructor
      · rintro (⟨hv, hq⟩ | rfl)
        · exact ⟨.inl hv, hq⟩
        · exact ⟨.inr rfl, hnone⟩
      · rintro ⟨hv | he, hq⟩
        · exact .inl ⟨hv, hq⟩
        · exact .inr he
    · rw [hs.moved]
      refine and_congr_left fun hm => ⟨.inl, fun hv => hv.resolve_right fun he => ?_⟩
      obtain ⟨r, hr, -⟩ := hm
      exact hnone r (he ▸ hr)

theorem insertItems_turn (h : Moved g) {i : Nat} {b : AnimatableSectionModel Model Item}
    (hb : g.finalSections[i]? = some b) {s : List ItemPath × List (ItemPath × ItemPath)}
    (hs : InsertsItems g (Visited g.finalItemCache g.sections i) s) :
    ∃ t, g.insertItems s (b, i) = .ok t ∧
      InsertsItems g (Visited g.finalItemCache g.sections (i + 1)) t := by
  have hlt := (List.getElem?_eq_some_iff.mp hb).1
  cases hm : (g.sections.final i).moveIndex with
  | none =>
    have hevent := (h.sections.inserted_iff hlt).mpr hm
    refine ⟨s, ?_, hs.congr (visited_skip hm)⟩
    unfold CommandGenerator.insertItems
    simp only [hevent]
    rfl
  | some k =>
    have hitems : g.finalItemCache[i]? = some b.items := by
      rw [CommandGenerator.finalItemCache, List.getElem?_map, hb]
      rfl
    have hmoves : ¬((g.sections.final i).event ≠ .moved ∧
        (g.sections.final i).event ≠ .movedAutomatically) := fun hne =>
      (h.sections.moved k i hm).1.elim hne.1 hne.2
    have hloop := foldlM_ok (ε := Error Model Item) (f := g.insertItem i) (b := s)
      (P := fun n t => InsertsItems g
        (fun q => Visited g.finalItemCache g.sections i q ∨ q.sectionIndex = i ∧ q.itemIndex < n) t)
      ?_ (List.range b.items.length) ?_
    · obtain ⟨t, ht, hinserts⟩ := hloop
      rw [List.length_range] at hinserts
      refine ⟨t, ?_, hinserts.congr (visited_succ hitems (by rw [hm]; rfl) rfl)⟩
      unfold CommandGenerator.insertItems
      simp only [if_neg hmoves]
      exact ht
    · exact hs.congr fun q => or_iff_left fun hq => Nat.not_lt_zero _ hq.2
    · intro n j t hj ht
      obtain ⟨hlt', rfl⟩ := getElem?_range_eq_some.mp hj
      simp only [path_lt_succ]
      have hV : ¬(Visited g.finalItemCache g.sections i ⟨i, j⟩ ∨ i = i ∧ j < j) :=
        not_or.mpr ⟨fun hv => Nat.lt_irrefl i hv.1, fun hj => Nat.lt_irrefl j hj.2⟩
      exact insertItem_turn h hV (by rw [hm]; rfl)
        ((finalItem?_eq hb).trans (List.getElem?_eq_getElem hlt')) ht

/-- The third stage. -/
theorem itemMoves_ok (h : Moved g) :
    ∃ s, InsertsItems g (Visited g.finalItemCache g.sections g.finalSections.length) s ∧
      g.generateInsertAndMovedItems = .ok (if s.1.isEmpty && s.2.isEmpty then [] else [{
        finalSections := g.finalSections
        insertedItems := s.1
        movedItems := s.2 }]) := by
  have hloop := foldlM_ok (ε := Error Model Item) (f := g.insertItems) (b := ([], []))
    (P := fun n t => InsertsItems g (Visited g.finalItemCache g.sections n) t)
    ?_ g.finalSections.zipIdx ?_
  · rw [List.length_zipIdx] at hloop
    obtain ⟨s, hs, hinserts⟩ := hloop
    refine ⟨s, hinserts, ?_⟩
    unfold CommandGenerator.generateInsertAndMovedItems
    rw [hs]
    change (if _ then _ else _) = _
    split
    · rfl
    · rfl
  · exact ⟨fun q => iff_of_false List.not_mem_nil fun hq => Nat.not_lt_zero _ hq.1.1,
      fun move => iff_of_false List.not_mem_nil fun hm => Nat.not_lt_zero _ hm.1.1, List.nodup_nil,
      List.nodup_nil⟩
  · rintro turns ⟨b, i⟩ s hp hs
    obtain ⟨hb, hi⟩ := getElem?_zipIdx_eq_some.mp hp
    obtain rfl : i = turns := hi
    exact insertItems_turn h hb hs

end ItemMoves

end Diff
end Karupasu.Differentiator
