import Karupasu.Differentiator.Commands

/-!
# What the stages do to the view

A view with the shape of the initial sections takes the changesets one after the other: each
names places that are there and no place twice, and mixes no commands that exclude each other.
The view ends with the shape of the final sections.
-/
namespace Karupasu.Differentiator.Diff

open Karupasu.Library.Loops
open Karupasu.Library.BatchUpdates

variable {Model Item SId IId : Type} [IdentifiableType Model SId] [IdentifiableType Item IId]
variable {g : CommandGenerator Model Item}

def rows (sections : List (AnimatableSectionModel Model Item)) : List (List Item) :=
  sections.map (·.items)

theorem rows_getElem? {sections : List (AnimatableSectionModel Model Item)} {k : Nat}
    {a : AnimatableSectionModel Model Item} (h : sections[k]? = some a) :
    (rows sections)[k]? = some a.items := by
  rw [rows, List.getElem?_map, h]
  rfl

theorem shape_getElem? {sections : List (AnimatableSectionModel Model Item)} {k : Nat}
    {a : AnimatableSectionModel Model Item} (h : sections[k]? = some a) :
    ((rows sections).map List.length)[k]? = some a.items.length := by
  rw [List.getElem?_map, rows_getElem? h]
  rfl

theorem section_of_shape {sections : List (AnimatableSectionModel Model Item)} {k n : Nat}
    (h : ((rows sections).map List.length)[k]? = some n) :
    ∃ a, sections[k]? = some a ∧ a.items.length = n := by
  rw [rows, List.map_map, List.getElem?_map] at h
  exact Option.map_eq_some_iff.mp h

/-- New cells for all items; `make` is what `configureCell` makes of an item. -/
def cells {Cell : Type} (make : Item → Cell) (sections : List (AnimatableSectionModel Model Item)) :
    List (List Cell) :=
  (rows sections).map (List.map make)

theorem shape_cells {Cell : Type} (make : Item → Cell)
    (sections : List (AnimatableSectionModel Model Item)) :
    (cells make sections).map List.length = (rows sections).map List.length := by
  rw [cells, List.map_map]
  exact List.map_congr_left fun items _ => List.length_map make

theorem item?_cells {Cell : Type} (make : Item → Cell)
    (sections : List (AnimatableSectionModel Model Item)) (q : Path) :
    item? (cells make sections) q = (item? (rows sections) q).map make := by
  simp only [cells, item?, List.getElem?_map]
  cases (rows sections)[q.1]? with
  | none => rfl
  | some items => exact List.getElem?_map

/-! ## What each stage leaves and asks for -/

/-- The sections after the first stage. -/
def afterDelete (g : CommandGenerator Model Item) : List (AnimatableSectionModel Model Item) :=
  (List.range g.initialSections.length).filterMap (sectionAfterDelete g)

/-- Where an item is once the sections and items before it that go are gone. -/
def place (g : CommandGenerator Model Item) (p : ItemPath) : Path :=
  (rank g p.sectionIndex, Nat.count (stays g.sections g.items p.sectionIndex) p.itemIndex)

/-- The changeset of the first stage. -/
def deletionChangeset (s : List Nat × List ItemPath × List ItemPath × List (AnimatableSectionModel Model Item)) :
    Changeset (AnimatableSectionModel Model Item) where
  finalSections := s.2.2.2
  deletedSections := s.1
  deletedItems := s.2.1
  updatedItems := s.2.2.1

/-- The sections after the second stage. -/
def afterMove (g : CommandGenerator Model Item) : List (AnimatableSectionModel Model Item) :=
  g.finalSections.zipIdx.map (sectionAfterMove g)

/-- The section, among those left by the first stage, that a final section comes from. -/
def sectionOrigin (g : CommandGenerator Model Item) (i : Nat) : Option Nat :=
  (g.sections.final i).moveIndex.map (rank g)

/-- The changeset of the second stage. -/
def sectionChangeset (g : CommandGenerator Model Item) (m : List (Nat × Nat)) :
    Changeset (AnimatableSectionModel Model Item) where
  finalSections := afterMove g
  insertedSections := (List.range g.finalSections.length).filter fun i =>
    (g.sections.final i).event = .inserted
  movedSections := m

/-- Where an item is when the sections are in place and the items are not. -/
def inPlace (g : CommandGenerator Model Item) (p : ItemPath) : Path :=
  (((g.sections.initial p.sectionIndex).moveIndex).getD 0,
    Nat.count (stays g.sections g.items p.sectionIndex) p.itemIndex)

/-- The item, among those left by the first two stages, that a final item comes from. -/
def itemOrigin (g : CommandGenerator Model Item) (q : Path) : Option Path :=
  match (g.sections.final q.1).moveIndex with
  | none => some q
  | some _ => (origin g.sections g.items ⟨q.1, q.2⟩).map (inPlace g)

/-- The changeset of the third stage. -/
def itemChangeset (g : CommandGenerator Model Item) (s : List ItemPath × List (ItemPath × ItemPath)) :
    Changeset (AnimatableSectionModel Model Item) where
  finalSections := g.finalSections
  insertedItems := s.1
  movedItems := s.2

namespace Moved

theorem keepsSection_lt (h : Moved g) {k : Nat} (hk : KeepsSection g k) :
    k < g.initialSections.length := by
  obtain ⟨i, hi⟩ := Option.isSome_iff_exists.mp hk
  exact ((h.sections.initial k i).mp hi).lt_initial

theorem isSome_initial (h : Moved g) {p q : ItemPath} (hs : StaysAt g.sections g.items p q) :
    (initialItem? g p).isSome = true :=
  ((h.items.initial p q).mp hs.moveIndex).isSome_initial

theorem isSome_final (h : Moved g) {p q : ItemPath} (hs : StaysAt g.sections g.items p q) :
    (finalItem? g q).isSome = true :=
  ((h.items.initial p q).mp hs.moveIndex).isSome_final

/-! ## The first stage -/

theorem sectionAfterDelete_isSome_iff (h : Moved g) (k : Nat) :
    (sectionAfterDelete g k).isSome = true ↔ KeepsSection g k := by
  unfold sectionAfterDelete
  by_cases hk : KeepsSection g k
  · rw [if_pos hk, List.getElem?_eq_getElem (h.keepsSection_lt hk)]
    exact iff_of_true rfl hk
  · rw [if_neg hk]
    exact iff_of_false nofun hk

theorem length_survivors (h : Moved g) {k : Nat} (hk : KeepsSection g k) (n : Nat) :
    (survivors g k n).length = Nat.count (stays g.sections g.items k) n := by
  rw [survivors, length_filterMap_range]
  exact count_congr (fun j => h.survivor_isSome_iff hk) n

theorem getElem?_survivors (h : Moved g) {k n j : Nat} (hk : KeepsSection g k) (hj : j < n)
    (hs : stays g.sections g.items k j) :
    (survivors g k n)[Nat.count (stays g.sections g.items k) j]? = survivor g k j := by
  rw [survivors, ← count_congr (fun j => h.survivor_isSome_iff hk) j]
  exact getElem?_filterMap_range_count hj ((h.survivor_isSome_iff hk).mpr hs)

theorem length_afterDelete (h : Moved g) :
    (afterDelete g).length = Nat.count (KeepsSection g) g.initialSections.length := by
  rw [afterDelete, length_filterMap_range]
  exact count_congr h.sectionAfterDelete_isSome_iff _

theorem getElem?_afterDelete (h : Moved g) {k : Nat} {a : AnimatableSectionModel Model Item}
    (hk : KeepsSection g k) (ha : g.initialSections[k]? = some a) :
    (afterDelete g)[rank g k]? = some ⟨a.model, survivors g k a.items.length⟩ := by
  have hget := getElem?_filterMap_range_count (h.keepsSection_lt hk)
    ((h.sectionAfterDelete_isSome_iff k).mpr hk)
  rw [count_congr h.sectionAfterDelete_isSome_iff k] at hget
  rw [afterDelete, rank, hget, sectionAfterDelete, if_pos hk, ha]
  rfl

theorem item?_afterDelete (h : Moved g) {p q : ItemPath} (hs : StaysAt g.sections g.items p q) :
    item? (rows (afterDelete g)) (place g p) = finalItem? g q := by
  obtain ⟨a, ha⟩ : ∃ a, g.initialSections[p.sectionIndex]? = some a :=
    ⟨_, List.getElem?_eq_getElem (h.keepsSection_lt hs.initial)⟩
  have hstays := stays_of_staysAt hs
  have hlt : p.itemIndex < a.items.length := by
    have hsome := h.isSome_initial hs
    rw [initialItem?_eq (k := p.sectionIndex) (j := p.itemIndex) ha, isSome_getElem?] at hsome
    exact hsome
  obtain ⟨r, b, hr, hb, hsurvivor⟩ := h.staysAt hs.initial hstays
  obtain rfl := Option.some.inj (hs.moveIndex.symm.trans hr.moveIndex)
  rw [item?, place, rows_getElem? (h.getElem?_afterDelete hs.initial ha), Option.bind_some,
    h.getElem?_survivors hs.initial hlt hstays, hsurvivor, hb]

/-- Every item left by the first stage is one that stays. -/
theorem exists_place (h : Moved g) {x : Path}
    (hx : (item? (rows (afterDelete g)) x).isSome = true) :
    ∃ p q, StaysAt g.sections g.items p q ∧ place g p = x := by
  obtain ⟨n, hn, hj⟩ := item?_isSome_iff.mp hx
  obtain ⟨c, hc, rfl⟩ := section_of_shape hn
  have hlt := (List.getElem?_eq_some_iff.mp hc).1
  rw [h.length_afterDelete] at hlt
  obtain ⟨k, -, hk, he⟩ := exists_of_lt_count hlt
  have ha := List.getElem?_eq_getElem (h.keepsSection_lt hk)
  have hget := h.getElem?_afterDelete hk ha
  rw [rank, he, hc] at hget
  obtain rfl := Option.some.inj hget
  rw [h.length_survivors hk] at hj
  obtain ⟨l, -, hl, hcount⟩ := exists_of_lt_count hj
  obtain ⟨q, b, hq, -⟩ := h.staysAt hk hl
  exact ⟨⟨k, l⟩, q, hq, Prod.ext he hcount⟩

variable [BEq Item]

theorem deletes (h : Moved g)
    {s : List Nat × List ItemPath × List ItemPath × List (AnimatableSectionModel Model Item)}
    (hs : DeletesSections g g.initialSections.length s) :
    (deletionChangeset s).batchUpdates.Deletes (rows g.initialSections) (rows (afterDelete g))
      (KeepsSection g) (stays g.sections g.items) := by
  constructor
  · exact ⟨rfl, rfl, rfl, rfl⟩
  · intro k hk
    have hmem := hs.deletedSections k
    rw [rows, List.length_map] at hk
    change ¬k ∈ s.1 ↔ _
    rw [hmem, not_and, not_not]
    exact ⟨fun hn => hn hk, fun hn _ => hn⟩
  · intro k j hk hj
    have hmem := hs.deletedItems ⟨k, j⟩
    change ¬(⟨k, j⟩ : ItemPath).indexPath ∈ s.2.1.map (·.indexPath) ↔ _
    rw [mem_map_indexPath, hmem]
    refine ⟨fun hn => by_contra fun hs => hn ⟨h.keepsSection_lt hk, hk, hj, hs⟩, ?_⟩
    exact fun hs hn => hn.2.2.2 hs
  · rw [rows, List.length_map, rows, List.length_map, h.length_afterDelete]
  · intro k n hk hn
    obtain ⟨a, ha, rfl⟩ := section_of_shape hn
    have hget := h.getElem?_afterDelete hk ha
    rw [rank] at hget
    rw [shape_getElem? hget, h.length_survivors hk]

/-- The view after the first stage. -/
theorem performs_deletions (h : Moved g)
    {s : List Nat × List ItemPath × List ItemPath × List (AnimatableSectionModel Model Item)}
    (hs : DeletesSections g g.initialSections.length s) {Cell : Type} (make : Item → Cell)
    {view : List (List Cell)}
    (hview : view.map List.length = (rows g.initialSections).map List.length) :
    ∃ view', performBatchUpdates (deletionChangeset s).batchUpdates (cells make (afterDelete g))
        view = some view' ∧
      view'.map List.length = (rows (afterDelete g)).map List.length ∧
      ∀ p q, StaysAt g.sections g.items p q →
        (Updated g p → item? view' (place g p) = (finalItem? g q).map make) ∧
        (¬Updated g p → item? view' (place g p) = item? view p.indexPath) := by
  obtain ⟨view', hview', hshape, hitem⟩ :=
    ((h.deletes hs).of_shape hview (shape_cells make _)).performs
  refine ⟨view', hview', hshape.trans (shape_cells make _), fun p q hst => ?_⟩
  have hsome : (item? view p.indexPath).isSome = true := by
    rw [isSome_of_shape hview]
    exact h.isSome_initial hst
  have hat := hitem p.sectionIndex p.itemIndex hst.initial (stays_of_staysAt hst) hsome
  have hmem : (p.sectionIndex, p.itemIndex) ∈ (deletionChangeset s).batchUpdates.updatedItems ↔
      Updated g p := by
    change p.indexPath ∈ s.2.2.1.map (·.indexPath) ↔ _
    rw [mem_map_indexPath, hs.updatedItems]
    exact ⟨fun hu => hu.2, fun hu => ⟨h.keepsSection_lt hst.initial, hu⟩⟩
  constructor
  · intro hu
    rw [if_pos (hmem.mpr hu), item?_cells] at hat
    exact hat.trans (congrArg (Option.map make) (h.item?_afterDelete hst))
  · intro hu
    rw [if_neg fun hm => hu (hmem.mp hm)] at hat
    exact hat

/-- A view takes what the first stage asks for. -/
theorem legal_deletions
    {s : List Nat × List ItemPath × List ItemPath × List (AnimatableSectionModel Model Item)}
    (hs : DeletesSections g g.initialSections.length s) {Cell : Type}
    (source : List (List Cell)) {view : List (List Cell)}
    (hview : view.map List.length = (rows g.initialSections).map List.length) :
    (deletionChangeset s).batchUpdates.Legal source view := by
  have hsections : (deletionChangeset s).batchUpdates.sectionsBefore = s.1 := List.append_nil _
  have hitems : (deletionChangeset s).batchUpdates.itemsBefore =
      (s.2.1 ++ s.2.2.1).map (·.indexPath) := by
    rw [List.map_append]
    exact List.append_nil _
  have hnamed : ∀ p ∈ s.2.1 ++ s.2.2.1, KeepsSection g p.sectionIndex ∧
      (initialItem? g p).isSome = true := by
    intro p hp
    rcases List.mem_append.mp hp with hp | hp
    · obtain ⟨-, hk, hsome, -⟩ := (hs.deletedItems p).mp hp
      exact ⟨hk, hsome⟩
    · have hu := ((hs.updatedItems p).mp hp).2
      exact ⟨hu.keepsSection, hu.isSome⟩
  -- what is deleted does not stay, and what is reloaded does
  have hdisjoint : List.Disjoint s.2.1 s.2.2.1 := by
    intro p hdeleted hupdated
    obtain ⟨q, -, -, hq, -⟩ := ((hs.updatedItems p).mp hupdated).2
    exact ((hs.deletedItems p).mp hdeleted).2.2.2 (stays_of_staysAt hq)
  refine ⟨.inl ⟨rfl, rfl⟩, ⟨?_, List.nodup_nil, ?_, List.nodup_nil, ?_, ?_⟩, ?_, ?_, ?_, ?_⟩
  · rw [hsections]
    exact hs.deletedSectionsOnce
  · rw [hitems]
    exact (hs.deletedItemsOnce.append hs.updatedItemsOnce hdisjoint).map indexPath_injective
  · intro x hx hdeleted
    rw [hitems] at hx
    obtain ⟨p, hp, rfl⟩ := List.mem_map.mp hx
    exact ((hs.deletedSections _).mp hdeleted).2 (hnamed p hp).1
  · exact fun x hx => absurd hx List.not_mem_nil
  · intro k hk
    rw [hsections] at hk
    rw [length_of_shape hview, rows, List.length_map]
    exact ((hs.deletedSections k).mp hk).1
  · exact fun i hi => absurd hi List.not_mem_nil
  · intro x hx
    rw [hitems] at hx
    obtain ⟨p, hp, rfl⟩ := List.mem_map.mp hx
    rw [isSome_of_shape hview]
    exact (hnamed p hp).2
  · exact fun x hx => absurd hx List.not_mem_nil

/-! ## The second stage -/

omit [BEq Item]

theorem rank_lt (h : Moved g) {k : Nat} (hk : KeepsSection g k) :
    rank g k < (afterDelete g).length := by
  rw [h.length_afterDelete]
  exact Nat.count_strict_mono hk (h.keepsSection_lt hk)

theorem rank_inj {k l : Nat} (hk : KeepsSection g k) (hl : KeepsSection g l)
    (he : rank g k = rank g l) : k = l :=
  Nat.count_injective hk hl he

theorem keepsSection_of_final (h : Moved g) {i k : Nat}
    (hi : (g.sections.final i).moveIndex = some k) : KeepsSection g k := by
  rw [KeepsSection, h.sections.swap.mpr hi]
  rfl

theorem final_lt (h : Moved g) {i k : Nat} (hi : (g.sections.final i).moveIndex = some k) :
    i < g.finalSections.length :=
  ((h.sections.final k i).mp hi).lt_final

theorem length_afterMove : (afterMove g).length = g.finalSections.length := by
  rw [afterMove, List.length_map, List.length_zipIdx]

theorem getElem?_afterMove (i : Nat) :
    (afterMove g)[i]? = g.finalSections[i]?.map fun b => sectionAfterMove g (b, i) := by
  rw [afterMove, List.getElem?_map, List.getElem?_zipIdx, Nat.zero_add, Option.map_map]
  rfl

theorem getElem?_afterMove_inserted {i : Nat} (hi : (g.sections.final i).moveIndex = none) :
    (afterMove g)[i]? = g.finalSections[i]? := by
  rw [getElem?_afterMove]
  have hsame : (fun b => sectionAfterMove g (b, i)) = id := by
    funext b
    unfold sectionAfterMove
    simp only [hi]
    rfl
  rw [hsame, Option.map_id_fun, id]

theorem getElem?_afterMove_moved (h : Moved g) {i k : Nat}
    {a : AnimatableSectionModel Model Item}
    (hi : (g.sections.final i).moveIndex = some k) (ha : g.initialSections[k]? = some a) :
    ∃ b, g.finalSections[i]? = some b ∧
      (afterMove g)[i]? = some ⟨b.model, survivors g k a.items.length⟩ := by
  have hb := List.getElem?_eq_getElem (h.final_lt hi)
  exact ⟨_, hb, by rw [getElem?_afterMove, hb, Option.map_some, sectionAfterMove_items hi ha]⟩

/-- The row of a moved section is the row that it had. -/
theorem row_afterMove (h : Moved g) {i k : Nat} (hi : (g.sections.final i).moveIndex = some k) :
    (rows (afterMove g))[i]? = (rows (afterDelete g))[rank g k]? := by
  have hk := h.keepsSection_of_final hi
  have ha := List.getElem?_eq_getElem (h.keepsSection_lt hk)
  obtain ⟨b, -, hget⟩ := h.getElem?_afterMove_moved hi ha
  rw [rows_getElem? hget, rows_getElem? (h.getElem?_afterDelete hk ha)]

theorem movesSections (h : Moved g) {m : List (Nat × Nat)}
    (hm : MovesSections g g.initialSections.length m) :
    (sectionChangeset g m).batchUpdates.MovesSections (rows (afterDelete g)) (rows (afterMove g))
      (sectionOrigin g) := by
  have hlen : (rows (afterDelete g)).length = (afterDelete g).length := by
    rw [rows, List.length_map]
  have hcount : (rows (afterMove g)).length = g.finalSections.length := by
    rw [rows, List.length_map, length_afterMove]
  have horigin : ∀ i r, sectionOrigin g i = some r → ∃ k,
      (g.sections.final i).moveIndex = some k ∧ rank g k = r :=
    fun i r hr => Option.map_eq_some_iff.mp hr
  have htarget : ∀ k i, (g.sections.final i).moveIndex = some k →
      (g.sections.final i).event = .moved → (rank g k, i) ∈ m := by
    intro k i hi he
    have hk := h.keepsSection_of_final hi
    have hevent := (h.sections.moved k i hi).2
    exact (hm.moved _).mpr ⟨k, h.keepsSection_lt hk, hevent.trans he, rfl, h.sections.swap.mpr hi⟩
  have hauto : ∀ i, (∀ r, (r, i) ∉ m) → ∀ k, (g.sections.final i).moveIndex = some k →
      (g.sections.final i).event = .movedAutomatically := fun i hfree k hi =>
    (h.sections.moved k i hi).1.resolve_left fun he => hfree _ (htarget k i hi he)
  refine ⟨rfl, rfl, rfl, rfl, rfl, ?_, ?_, ?_, ?_, ?_, ?_, ?_⟩
  · intro i hi
    rw [hcount] at hi
    change i ∈ (List.range g.finalSections.length).filter _ ↔ _
    rw [List.mem_filter, List.mem_range, decide_eq_true_eq, h.sections.inserted_iff hi,
      sectionOrigin, Option.map_eq_none_iff]
    exact and_iff_right hi
  · intro r i hr
    obtain ⟨k, -, -, rfl, hi⟩ := (hm.moved (r, i)).mp hr
    have hfinal := h.sections.swap.mp hi
    rw [hcount]
    exact ⟨h.final_lt hfinal, by rw [sectionOrigin, hfinal]; rfl⟩
  · intro i _ r hr
    obtain ⟨k, hk, rfl⟩ := horigin i r hr
    rw [hlen]
    exact h.rank_lt (h.keepsSection_of_final hk)
  · intro i _ j _ r hi hj
    obtain ⟨k, hk, rfl⟩ := horigin i r hi
    obtain ⟨l, hl, he⟩ := horigin j _ hj
    obtain rfl := rank_inj (h.keepsSection_of_final hl) (h.keepsSection_of_final hk) he
    exact Option.some.inj ((h.sections.swap.mpr hk).symm.trans (h.sections.swap.mpr hl))
  · intro r hr
    rw [hlen, h.length_afterDelete] at hr
    obtain ⟨k, -, hk, rfl⟩ := exists_of_lt_count hr
    obtain ⟨i, hi⟩ := Option.isSome_iff_exists.mp hk
    have hfinal := h.sections.swap.mp hi
    exact ⟨i, by rw [hcount]; exact h.final_lt hfinal, by rw [sectionOrigin, hfinal]; rfl⟩
  · intro i j hij _ hfi hfj r s hr hs
    obtain ⟨k, hk, rfl⟩ := horigin i r hr
    obtain ⟨l, hl, rfl⟩ := horigin j s hs
    have hkl := h.sections.automatic i j hij k l hk hl (hauto i hfi k hk) (hauto j hfj l hl)
    exact Nat.count_strict_mono (h.keepsSection_of_final hk) hkl
  · intro i _ r hr
    obtain ⟨k, hk, rfl⟩ := horigin i r hr
    rw [List.getElem?_map, List.getElem?_map, h.row_afterMove hk]

/-- The view after the second stage. -/
theorem performs_sectionMoves (h : Moved g) {m : List (Nat × Nat)}
    (hm : MovesSections g g.initialSections.length m) {Cell : Type} (make : Item → Cell)
    {view : List (List Cell)}
    (hview : view.map List.length = (rows (afterDelete g)).map List.length) :
    ∃ view', performBatchUpdates (sectionChangeset g m).batchUpdates (cells make (afterMove g))
        view = some view' ∧
      view'.map List.length = (rows (afterMove g)).map List.length ∧
      ∀ i j, (item? (rows (afterMove g)) (i, j)).isSome = true →
        ((g.sections.final i).moveIndex = none →
          item? view' (i, j) = (finalItem? g ⟨i, j⟩).map make) ∧
        ∀ k, (g.sections.final i).moveIndex = some k →
          item? view' (i, j) = item? view (rank g k, j) := by
  obtain ⟨view', hview', hshape, hitem⟩ :=
    ((h.movesSections hm).of_shape hview (shape_cells make _)).performs
  refine ⟨view', hview', hshape.trans (shape_cells make _), fun i j hij => ⟨fun hi => ?_, fun k hk => ?_⟩⟩
  · have hat := hitem (i, j) (by rw [isSome_of_shape (shape_cells make _)]; exact hij)
    rw [sectionOrigin, hi] at hat
    refine hat.trans ((item?_cells make _ _).trans (congrArg (Option.map make) ?_))
    change item? (rows (afterMove g)) (i, j) = item? (rows g.finalSections) (i, j)
    rw [item?, item?, rows, List.getElem?_map, getElem?_afterMove_inserted hi, rows,
      List.getElem?_map]
  · have hat := hitem (i, j) (by rw [isSome_of_shape (shape_cells make _)]; exact hij)
    rw [sectionOrigin, hk] at hat
    exact hat

theorem legal_sectionMoves (h : Moved g) {m : List (Nat × Nat)}
    (hm : MovesSections g g.initialSections.length m) {Cell : Type} {source view : List (List Cell)}
    (hsource : source.map List.length = (rows (afterMove g)).map List.length)
    (hview : view.map List.length = (rows (afterDelete g)).map List.length) :
    (sectionChangeset g m).batchUpdates.Legal source view := by
  have hmoves : ∀ move ∈ m, ∃ k, KeepsSection g k ∧ move.1 = rank g k ∧
      (g.sections.final move.2).moveIndex = some k := by
    intro move hmove
    obtain ⟨k, -, -, hrank, hi⟩ := (hm.moved move).mp hmove
    have hfinal := h.sections.swap.mp hi
    exact ⟨k, h.keepsSection_of_final hfinal, hrank, hfinal⟩
  have hinserted : ∀ i ∈ (sectionChangeset g m).insertedSections, i < g.finalSections.length ∧
      (g.sections.final i).moveIndex = none := by
    intro i hi
    obtain ⟨hlt, he⟩ := List.mem_filter.mp hi
    have hlt' := List.mem_range.mp hlt
    exact ⟨hlt', (h.sections.inserted_iff hlt').mp (of_decide_eq_true he)⟩
  refine ⟨.inr (.inl ⟨rfl, rfl, rfl⟩), ⟨?_, ?_, List.nodup_nil, List.nodup_nil, ?_, ?_⟩,
    ?_, ?_, ?_, ?_⟩
  · refine List.Nodup.map_on (fun x hx y hy he => ?_) hm.once
    obtain ⟨k, hk, hrankx, hfinalx⟩ := hmoves x hx
    obtain ⟨l, hl, hranky, hfinaly⟩ := hmoves y hy
    rw [hrankx, hranky] at he
    obtain rfl := rank_inj hk hl he
    have hto := (h.sections.swap.mpr hfinalx).symm.trans (h.sections.swap.mpr hfinaly)
    exact Prod.ext (hrankx.trans hranky.symm) (Option.some.inj hto)
  · refine List.Nodup.append (List.nodup_range.filter _) (List.Nodup.map_on ?_ hm.once) ?_
    · intro x hx y hy he
      obtain ⟨k, -, hrankx, hfinalx⟩ := hmoves x hx
      obtain ⟨l, -, hranky, hfinaly⟩ := hmoves y hy
      rw [he] at hfinalx
      obtain rfl := Option.some.inj (hfinalx.symm.trans hfinaly)
      exact Prod.ext (hrankx.trans hranky.symm) he
    · intro i hi hmove
      obtain ⟨x, hx, rfl⟩ := List.mem_map.mp hmove
      obtain ⟨k, -, -, hfinal⟩ := hmoves x hx
      exact nomatch (hinserted _ hi).2.symm.trans hfinal
  · exact fun x hx => absurd hx List.not_mem_nil
  · exact fun x hx => absurd hx List.not_mem_nil
  · intro r hr
    obtain ⟨x, hx, rfl⟩ := List.mem_map.mp hr
    obtain ⟨k, hk, hrank, -⟩ := hmoves x hx
    rw [length_of_shape hview, rows, List.length_map, hrank]
    exact h.rank_lt hk
  · intro i hi
    rw [length_of_shape hsource, rows, List.length_map, length_afterMove]
    rcases List.mem_append.mp hi with hi | hi
    · exact (hinserted i hi).1
    · obtain ⟨x, hx, rfl⟩ := List.mem_map.mp hi
      obtain ⟨k, -, -, hfinal⟩ := hmoves x hx
      exact h.final_lt hfinal
  · exact fun x hx => absurd hx List.not_mem_nil
  · exact fun x hx => absurd hx List.not_mem_nil

/-! ## The third stage -/

theorem itemOrigin_inserted {q : Path} (hq : (g.sections.final q.1).moveIndex = none) :
    itemOrigin g q = some q := by
  rw [itemOrigin, hq]

theorem origin_eq_some_iff (h : Moved g) {p q : ItemPath}
    (hq : (g.sections.final q.sectionIndex).moveIndex.isSome = true) :
    origin g.sections g.items q = some p ↔ StaysAt g.sections g.items p q := by
  rw [origin, Option.filter_eq_some_iff, h.items.final, ← h.items.initial]
  constructor
  · intro hs
    exact ⟨hs.1, hs.2, hq⟩
  · intro hs
    exact ⟨hs.moveIndex, hs.initial⟩

theorem itemOrigin_eq_some_iff (h : Moved g) {q : ItemPath} {x : Path}
    (hq : (g.sections.final q.sectionIndex).moveIndex.isSome = true) :
    itemOrigin g q.indexPath = some x ↔ ∃ p, StaysAt g.sections g.items p q ∧ inPlace g p = x := by
  obtain ⟨k, hk⟩ := Option.isSome_iff_exists.mp hq
  unfold itemOrigin ItemPath.indexPath
  simp only [hk]
  rw [Option.map_eq_some_iff]
  exact exists_congr fun p => and_congr_left' (h.origin_eq_some_iff hq)

theorem itemOrigin_eq_none_iff (h : Moved g) {q : ItemPath}
    (hq : (g.sections.final q.sectionIndex).moveIndex.isSome = true) :
    itemOrigin g q.indexPath = none ↔ InsertsItem g q := by
  rw [Option.eq_none_iff_forall_not_mem]
  constructor
  · exact fun hn p hp => hn _ ((h.itemOrigin_eq_some_iff hq).mpr ⟨p, hp, rfl⟩)
  · intro hn x hx
    obtain ⟨p, hp, -⟩ := (h.itemOrigin_eq_some_iff hq).mp hx
    exact hn p hp

theorem inPlace_eq {p : ItemPath} {i : Nat}
    (hi : (g.sections.initial p.sectionIndex).moveIndex = some i) :
    inPlace g p = (i, Nat.count (stays g.sections g.items p.sectionIndex) p.itemIndex) := by
  rw [inPlace, hi]
  rfl

theorem inPlace_inj (h : Moved g) {p r q s : ItemPath} (hp : StaysAt g.sections g.items p q)
    (hr : StaysAt g.sections g.items r s) (he : inPlace g p = inPlace g r) : p = r := by
  obtain ⟨i, hi⟩ := Option.isSome_iff_exists.mp hp.initial
  obtain ⟨j, hj⟩ := Option.isSome_iff_exists.mp hr.initial
  rw [inPlace_eq hi, inPlace_eq hj] at he
  obtain ⟨rfl, hcount⟩ := Prod.mk.inj he
  have hsec : p.sectionIndex = r.sectionIndex :=
    Option.some.inj ((h.sections.swap.mp hi).symm.trans (h.sections.swap.mp hj))
  rw [← hsec] at hcount
  have hstays := stays_of_staysAt hr
  rw [← hsec] at hstays
  have hitem := Nat.count_injective (stays_of_staysAt hp) hstays hcount
  obtain ⟨k, l⟩ := p
  obtain ⟨k', l'⟩ := r
  obtain rfl : k = k' := hsec
  obtain rfl : l = l' := hitem
  rfl

theorem item?_inPlace (h : Moved g) {p q : ItemPath} (hs : StaysAt g.sections g.items p q) :
    item? (rows (afterMove g)) (inPlace g p) = finalItem? g q := by
  obtain ⟨i, hi⟩ := Option.isSome_iff_exists.mp hs.initial
  have hplace := h.item?_afterDelete hs
  rw [place, item?, ← h.row_afterMove (h.sections.swap.mp hi)] at hplace
  rw [inPlace_eq hi]
  exact hplace

theorem isSome_inPlace (h : Moved g) {p q : ItemPath} (hs : StaysAt g.sections g.items p q) :
    (item? (rows (afterMove g)) (inPlace g p)).isSome = true := by
  rw [h.item?_inPlace hs]
  exact h.isSome_final hs

/-- Every item left in a moved section is one that stays. -/
theorem exists_inPlace (h : Moved g) {i j k : Nat} (hi : (g.sections.final i).moveIndex = some k)
    (hs : (item? (rows (afterMove g)) (i, j)).isSome = true) :
    ∃ p q, StaysAt g.sections g.items p q ∧ inPlace g p = (i, j) := by
  have hk := h.keepsSection_of_final hi
  have ha := List.getElem?_eq_getElem (h.keepsSection_lt hk)
  obtain ⟨b, -, hget⟩ := h.getElem?_afterMove_moved hi ha
  rw [item?, rows_getElem? hget, Option.bind_some, isSome_getElem?, h.length_survivors hk] at hs
  obtain ⟨l, -, hl, rfl⟩ := exists_of_lt_count hs
  obtain ⟨q, b, hq, -⟩ := h.staysAt hk hl
  exact ⟨⟨k, l⟩, q, hq, inPlace_eq (h.sections.swap.mpr hi)⟩

theorem lt_of_finalItem? {q : ItemPath} (hq : (finalItem? g q).isSome = true) :
    q.sectionIndex < g.finalSections.length := by
  have hlt := lt_of_item? hq
  rw [CommandGenerator.finalItemCache, List.length_map] at hlt
  exact hlt

theorem visited_iff {q : ItemPath} :
    Visited g.finalItemCache g.sections g.finalSections.length q ↔
      (finalItem? g q).isSome = true ∧
        (g.sections.final q.sectionIndex).moveIndex.isSome = true :=
  ⟨fun hv => ⟨hv.2.2, hv.2.1⟩, fun hv => ⟨lt_of_finalItem? hv.1, hv.2, hv.1⟩⟩

theorem mem_movedItems {s : List ItemPath × List (ItemPath × ItemPath)} {x : Path}
    {q : ItemPath} :
    (x, q.indexPath) ∈ (itemChangeset g s).batchUpdates.movedItems ↔
      (⟨⟨x.1, x.2⟩, q⟩ : ItemPath × ItemPath) ∈ s.2 := by
  change (x, q.indexPath) ∈ s.2.map (fun move => (move.1.indexPath, move.2.indexPath)) ↔ _
  rw [List.mem_map]
  constructor
  · rintro ⟨⟨⟨k, j⟩, ⟨i, l⟩⟩, hmove, he⟩
    obtain ⟨rfl, hq⟩ := Prod.mk.inj he
    obtain ⟨hi, hl⟩ := Prod.mk.inj hq
    obtain ⟨i', l'⟩ := q
    obtain rfl : i = i' := hi
    obtain rfl : l = l' := hl
    exact hmove
  · exact fun hmove => ⟨_, hmove, rfl⟩

/-- A final item that is not moved but stays is in the section and the order that it was. -/
theorem automatic_of_not_moved (h : Moved g) {s : List ItemPath × List (ItemPath × ItemPath)}
    (hs : InsertsItems g (Visited g.finalItemCache g.sections g.finalSections.length) s)
    {p q : ItemPath} (hst : StaysAt g.sections g.items p q)
    (hfree : ∀ x, (x, q.indexPath) ∉ (itemChangeset g s).batchUpdates.movedItems) :
    (g.items.final q).event = .movedAutomatically := by
  refine (h.items.moved p q hst).1.resolve_left fun he => ?_
  obtain ⟨i, hi⟩ := Option.isSome_iff_exists.mp hst.initial
  refine hfree (inPlace g p) (mem_movedItems.mpr ((hs.moved _).mpr ?_))
  refine ⟨visited_iff.mpr ⟨h.isSome_final hst, hst.final⟩, p, hst, he, ?_, rfl⟩
  rw [inPlace_eq hi]
  exact hi

theorem movesItems (h : Moved g) {s : List ItemPath × List (ItemPath × ItemPath)}
    (hs : InsertsItems g (Visited g.finalItemCache g.sections g.finalSections.length) s) :
    (itemChangeset g s).batchUpdates.MovesItems (rows (afterMove g)) (rows g.finalSections)
      (itemOrigin g) := by
  -- the items of an inserted section are in place already
  have hinserted : ∀ q : Path, (g.sections.final q.1).moveIndex = none →
      (item? (rows (afterMove g)) q).isSome = (item? (rows g.finalSections) q).isSome := by
    intro q hq
    rw [item?, item?, rows, List.getElem?_map, getElem?_afterMove_inserted hq, rows,
      List.getElem?_map]
  have hkept : ∀ (q : Path) x k, (g.sections.final q.1).moveIndex = some k →
      itemOrigin g q = some x → ∃ p, StaysAt g.sections g.items p ⟨q.1, q.2⟩ ∧ inPlace g p = x := by
    intro q x k hk hx
    refine (h.itemOrigin_eq_some_iff (q := ⟨q.1, q.2⟩) ?_).mp hx
    rw [hk]
    rfl
  refine ⟨rfl, rfl, rfl, rfl, rfl, ?_, ?_, ?_, ?_, ?_, ?_, ?_, ?_⟩
  · rw [rows, List.length_map, rows, List.length_map, length_afterMove]
  · rintro ⟨i, j⟩ hq
    change (⟨i, j⟩ : ItemPath).indexPath ∈ s.1.map (·.indexPath) ↔ _
    rw [mem_map_indexPath, hs.inserted, visited_iff]
    cases hm : (g.sections.final i).moveIndex with
    | none =>
      rw [itemOrigin_inserted hm]
      exact iff_of_false (fun hv => Bool.false_ne_true hv.1.2) (Option.some_ne_none _)
    | some k =>
      have hsec : (g.sections.final i).moveIndex.isSome = true := by
        rw [hm]
        rfl
      have hnone := h.itemOrigin_eq_none_iff (q := ⟨i, j⟩) hsec
      exact ⟨fun hv => hnone.mpr hv.2, fun ho => ⟨⟨hq, rfl⟩, hnone.mp ho⟩⟩
  · rintro x ⟨i, j⟩ hx
    obtain ⟨hv, p, hp, -, hsec, hitem⟩ :=
      (hs.moved _).mp ((mem_movedItems (q := ⟨i, j⟩)).mp hx)
    obtain ⟨hsome, hi⟩ := visited_iff.mp hv
    refine ⟨hsome, (h.itemOrigin_eq_some_iff (q := ⟨i, j⟩) hi).mpr ⟨p, hp, ?_⟩⟩
    rw [inPlace_eq hsec]
    exact Prod.ext rfl hitem.symm
  · intro q hq x hx
    cases hm : (g.sections.final q.1).moveIndex with
    | none =>
      rw [itemOrigin_inserted hm] at hx
      obtain rfl := Option.some.inj hx
      rw [hinserted q hm]
      exact hq
    | some k =>
      obtain ⟨p, hp, rfl⟩ := hkept q x k hm hx
      exact h.isSome_inPlace hp
  · intro q r _ _ x hq hr
    cases hmq : (g.sections.final q.1).moveIndex with
    | none =>
      rw [itemOrigin_inserted hmq] at hq
      obtain rfl := Option.some.inj hq
      cases hmr : (g.sections.final r.1).moveIndex with
      | none =>
        rw [itemOrigin_inserted hmr] at hr
        exact (Option.some.inj hr).symm
      | some k =>
        obtain ⟨p, hp, rfl⟩ := hkept r _ k hmr hr
        obtain ⟨i, hi⟩ := Option.isSome_iff_exists.mp hp.initial
        rw [inPlace_eq hi, h.sections.swap.mp hi] at hmq
        exact absurd hmq (Option.some_ne_none _)
    | some k =>
      obtain ⟨p, hp, rfl⟩ := hkept q x k hmq hq
      cases hmr : (g.sections.final r.1).moveIndex with
      | none =>
        rw [itemOrigin_inserted hmr] at hr
        obtain rfl := Option.some.inj hr
        obtain ⟨i, hi⟩ := Option.isSome_iff_exists.mp hp.initial
        rw [inPlace_eq hi, h.sections.swap.mp hi] at hmr
        exact absurd hmr (Option.some_ne_none _)
      | some l =>
        obtain ⟨p', hp', he⟩ := hkept r _ l hmr hr
        obtain rfl := h.inPlace_inj hp' hp he
        obtain ⟨hi, hj⟩ := ItemPath.mk.inj (Option.some.inj (hp.moveIndex.symm.trans hp'.moveIndex))
        exact Prod.ext hi hj
  · rintro ⟨i, j⟩ hp
    cases hm : (g.sections.final i).moveIndex with
    | none =>
      refine ⟨(i, j), ?_, itemOrigin_inserted hm⟩
      rw [hinserted (i, j) hm] at hp
      exact hp
    | some k =>
      obtain ⟨p, q, hq, hat⟩ := h.exists_inPlace hm hp
      exact ⟨q.indexPath, h.isSome_final hq, (h.itemOrigin_eq_some_iff hq.final).mpr ⟨p, hq, hat⟩⟩
  · intro q _ hfree x hx
    cases hm : (g.sections.final q.1).moveIndex with
    | none =>
      rw [itemOrigin_inserted hm] at hx
      rw [Option.some.inj hx]
    | some k =>
      obtain ⟨p, hp, rfl⟩ := hkept q x k hm hx
      have hauto := h.automatic_of_not_moved hs hp hfree
      have hsec := h.items.automatic p _ hp hauto
      rw [inPlace_eq (h.sections.swap.mpr hsec)]
  · intro i j l hjl hl hfj hfl x y hx hy
    cases hm : (g.sections.final i).moveIndex with
    | none =>
      rw [itemOrigin_inserted hm] at hx hy
      rw [← Option.some.inj hx, ← Option.some.inj hy]
      exact hjl
    | some k =>
      obtain ⟨p, hp, rfl⟩ := hkept (i, j) x k hm hx
      obtain ⟨r, hr, rfl⟩ := hkept (i, l) y k hm hy
      have hautop := h.automatic_of_not_moved hs hp hfj
      have hautor := h.automatic_of_not_moved hs hr hfl
      have hlt := h.items.ordered i j l hjl p r hp hr hautop hautor
      have hp' := h.items.automatic p ⟨i, j⟩ hp hautop
      have hr' := h.items.automatic r ⟨i, l⟩ hr hautor
      have hsec : p.sectionIndex = r.sectionIndex := Option.some.inj (hp'.symm.trans hr')
      change Nat.count _ _ < Nat.count _ _
      rw [← hsec]
      exact Nat.count_strict_mono (stays_of_staysAt hp) hlt

/-- The view after the third stage. -/
theorem performs_itemMoves (h : Moved g) {s : List ItemPath × List (ItemPath × ItemPath)}
    (hs : InsertsItems g (Visited g.finalItemCache g.sections g.finalSections.length) s)
    {Cell : Type} (make : Item → Cell) {view : List (List Cell)}
    (hview : view.map List.length = (rows (afterMove g)).map List.length) :
    ∃ view', performBatchUpdates (itemChangeset g s).batchUpdates (cells make g.finalSections)
        view = some view' ∧
      view'.map List.length = (rows g.finalSections).map List.length ∧
      ∀ q, (finalItem? g q).isSome = true →
        ((g.sections.final q.sectionIndex).moveIndex = none →
          item? view' q.indexPath = item? view q.indexPath) ∧
        ((g.sections.final q.sectionIndex).moveIndex.isSome = true → InsertsItem g q →
          item? view' q.indexPath = (finalItem? g q).map make) ∧
        ∀ p, StaysAt g.sections g.items p q →
          item? view' q.indexPath = item? view (inPlace g p) := by
  obtain ⟨view', hview', hshape, hitem⟩ :=
    ((h.movesItems hs).of_shape hview (shape_cells make _)).performs
  have hat : ∀ q, (finalItem? g q).isSome = true → _ := fun q hq => hitem q.indexPath (by
    rw [isSome_of_shape (shape_cells make _)]
    exact hq)
  refine ⟨view', hview', hshape.trans (shape_cells make _), fun q hq =>
    ⟨fun hi => ?_, fun hi hn => ?_, fun p hp => ?_⟩⟩
  · have hq' := hat q hq
    rw [itemOrigin_inserted hi] at hq'
    exact hq'
  · have hq' := hat q hq
    rw [(h.itemOrigin_eq_none_iff hi).mpr hn] at hq'
    exact hq'.trans (item?_cells make _ _)
  · have hq' := hat q hq
    rw [(h.itemOrigin_eq_some_iff hp.final).mpr ⟨p, hp, rfl⟩] at hq'
    exact hq'

theorem legal_itemMoves (h : Moved g) {s : List ItemPath × List (ItemPath × ItemPath)}
    (hs : InsertsItems g (Visited g.finalItemCache g.sections g.finalSections.length) s)
    {Cell : Type} {source view : List (List Cell)}
    (hsource : source.map List.length = (rows g.finalSections).map List.length)
    (hview : view.map List.length = (rows (afterMove g)).map List.length) :
    (itemChangeset g s).batchUpdates.Legal source view := by
  have hmoves : ∀ move ∈ s.2, ∃ p, StaysAt g.sections g.items p move.2 ∧
      inPlace g p = move.1.indexPath := by
    intro move hmove
    obtain ⟨-, p, hp, -, hsec, hitem⟩ := (hs.moved move).mp hmove
    exact ⟨p, hp, (inPlace_eq hsec).trans (Prod.ext rfl hitem.symm)⟩
  have hbefore : (itemChangeset g s).batchUpdates.itemsBefore =
      s.2.map fun move => move.1.indexPath := List.map_map
  have hafter : (itemChangeset g s).batchUpdates.itemsAfter =
      (s.1 ++ s.2.map Prod.snd).map (·.indexPath) := by
    rw [List.map_append, List.map_map]
    exact congrArg (s.1.map (·.indexPath) ++ ·) List.map_map
  have hvisited : ∀ q ∈ s.1 ++ s.2.map Prod.snd, (finalItem? g q).isSome = true := by
    intro q hq
    rcases List.mem_append.mp hq with hq | hq
    · exact (visited_iff.mp ((hs.inserted q).mp hq).1).1
    · obtain ⟨x, hx, rfl⟩ := List.mem_map.mp hq
      exact (visited_iff.mp ((hs.moved x).mp hx).1).1
  refine ⟨.inr (.inr ⟨rfl, rfl, rfl, rfl⟩), ⟨List.nodup_nil, List.nodup_nil, ?_, ?_, ?_, ?_⟩,
    ?_, ?_, ?_, ?_⟩
  · rw [hbefore]
    refine List.Nodup.map_on (fun x hx y hy he => ?_) hs.movedOnce
    obtain ⟨p, hp, hpx⟩ := hmoves x hx
    obtain ⟨r, hr, hry⟩ := hmoves y hy
    obtain rfl := h.inPlace_inj hp hr (hpx.trans (he.trans hry.symm))
    have hto := Option.some.inj (hp.moveIndex.symm.trans hr.moveIndex)
    exact Prod.ext (indexPath_injective he) hto
  · rw [hafter]
    refine List.Nodup.map indexPath_injective (hs.insertedOnce.append ?_ ?_)
    · refine List.Nodup.map_on (fun x hx y hy he => ?_) hs.movedOnce
      obtain ⟨p, hp, hpx⟩ := hmoves x hx
      obtain ⟨r, hr, hry⟩ := hmoves y hy
      rw [he] at hp
      obtain rfl := staysAt_inj h hp hr
      exact Prod.ext (indexPath_injective (hpx.symm.trans hry)) he
    · intro q hq hmove
      obtain ⟨x, hx, rfl⟩ := List.mem_map.mp hmove
      obtain ⟨p, hp, -⟩ := hmoves x hx
      exact ((hs.inserted _).mp hq).2 p hp
  · exact fun x _ hx => absurd hx List.not_mem_nil
  · exact fun x _ hx => absurd hx List.not_mem_nil
  · exact fun x hx => absurd hx List.not_mem_nil
  · exact fun x hx => absurd hx List.not_mem_nil
  · intro x hx
    rw [hbefore] at hx
    obtain ⟨move, hmove, rfl⟩ := List.mem_map.mp hx
    obtain ⟨p, hp, he⟩ := hmoves move hmove
    rw [isSome_of_shape hview, ← he]
    exact h.isSome_inPlace hp
  · intro x hx
    rw [hafter] at hx
    obtain ⟨q, hq, rfl⟩ := List.mem_map.mp hx
    rw [isSome_of_shape hsource]
    exact hvisited q hq

end Moved

end Karupasu.Differentiator.Diff
