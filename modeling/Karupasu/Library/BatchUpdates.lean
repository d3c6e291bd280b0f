import Karupasu.Library.Loops
import Mathlib.Data.List.Sort
import Mathlib.Data.Nat.Count

/-!
# Batch updates of a sectioned view

A batch deletes, inserts, moves and reloads sections and items. What is deleted, reloaded or
moved away is named by where it was before the batch, what is inserted or moved to by where it
is after it. The places left free are filled with what has stayed, in order; the view refuses a
batch that leaves a place empty or something over. Cells are made anew only for what is
inserted or reloaded.
-/
namespace Karupasu.Library.BatchUpdates

universe u v

abbrev Path := Nat × Nat

structure Batch where
  deletedSections : List Nat := []
  insertedSections : List Nat := []
  movedSections : List (Nat × Nat) := []
  deletedItems : List Path := []
  insertedItems : List Path := []
  updatedItems : List Path := []
  movedItems : List (Path × Path) := []

/-! ## Filling free places -/

variable {α : Type u} {β : Type v}

def fill : List (Option β) → List β → Option (List β)
  | [], [] => some []
  | [], _ :: _ => none
  | some b :: slots, queue => (fill slots queue).map (b :: ·)
  | none :: _, [] => none
  | none :: slots, b :: queue => (fill slots queue).map (b :: ·)

/-- The result is known: the slots that are not free agree with it, and the queue is the rest of
it. -/
theorem fill_map {slot : α → Option β} {f : α → β} {l : List α}
    (hslot : ∀ a ∈ l, ∀ b, slot a = some b → f a = b) :
    fill (l.map slot) ((l.filter fun a => (slot a).isNone).map f) = some (l.map f) := by
  induction l with
  | nil => rfl
  | cons a l ih =>
    have hrest := ih fun c hc => hslot c (List.mem_cons_of_mem a hc)
    cases ha : slot a with
    | none =>
      rw [List.map_cons, ha, List.filter_cons_of_pos (by rw [ha]; rfl), List.map_cons, fill, hrest]
      rfl
    | some b =>
      have hb := hslot a List.mem_cons_self b ha
      rw [List.map_cons, ha, List.filter_cons_of_neg (by rw [ha]; exact Bool.false_ne_true), fill,
        hrest, List.map_cons, hb]
      rfl

theorem fill_none_iff {l : List α} {queue r : List β} :
    fill (l.map fun _ => none) queue = some r ↔ l.length = queue.length ∧ r = queue := by
  induction l generalizing queue r with
  | nil =>
    cases queue with
    | nil => exact ⟨fun h => ⟨rfl, (Option.some.inj h).symm⟩, fun h => congrArg some h.2.symm⟩
    | cons b queue => exact iff_of_false nofun nofun
  | cons a l ih =>
    cases queue with
    | nil => exact iff_of_false nofun nofun
    | cons b queue =>
      rw [List.map_cons, fill, Option.map_eq_some_iff, List.length_cons, List.length_cons,
        Nat.succ_inj]
      constructor
      · rintro ⟨c, hc, rfl⟩
        exact ⟨(ih.mp hc).1, congrArg (b :: ·) (ih.mp hc).2⟩
      · rintro ⟨hl, rfl⟩
        exact ⟨queue, ih.mpr ⟨hl, rfl⟩, rfl⟩

/-- Two increasing enumerations of the same numbers. -/
theorem map_filter_range_eq {n m : Nat} {f : Nat → Nat} {p q : Nat → Bool}
    (hlt : ∀ i j, i < j → j < n → p i = true → p j = true → f i < f j)
    (hmem : ∀ j < n, p j = true → f j < m ∧ q (f j) = true)
    (hsurj : ∀ k < m, q k = true → ∃ j < n, p j = true ∧ f j = k) :
    ((List.range n).filter p).map f = (List.range m).filter q := by
  have hleft : (((List.range n).filter p).map f).Pairwise (· < ·) := by
    rw [List.pairwise_map]
    refine (List.pairwise_lt_range.filter p).imp_of_mem fun hi hj hij => ?_
    rw [List.mem_filter] at hi hj
    exact hlt _ _ hij (List.mem_range.mp hj.1) hi.2 hj.2
  refine hleft.eq_of_mem_iff (List.pairwise_lt_range.filter q) fun k => ?_
  rw [List.mem_map, List.mem_filter, List.mem_range]
  constructor
  · rintro ⟨j, hj, rfl⟩
    rw [List.mem_filter, List.mem_range] at hj
    exact hmem j hj.1 hj.2
  · rintro ⟨hk, hq⟩
    obtain ⟨j, hj, hp, hf⟩ := hsurj k hk hq
    exact ⟨j, List.mem_filter.mpr ⟨List.mem_range.mpr hj, hp⟩, hf⟩

theorem length_filterMap_range (f : Nat → Option β) (n : Nat) :
    ((List.range n).filterMap f).length = Nat.count (fun i => (f i).isSome = true) n := by
  rw [List.length_filterMap_eq_countP]
  simp [Nat.count]

/-- The position of a number among those with a value. -/
theorem getElem?_filterMap_range_count {f : Nat → Option β} {n k : Nat} (hk : k < n)
    (hf : (f k).isSome = true) :
    ((List.range n).filterMap f)[Nat.count (fun i => (f i).isSome = true) k]? = f k := by
  induction n with
  | zero => exact absurd hk (Nat.not_lt_zero k)
  | succ n ih =>
    rw [List.range_succ, List.filterMap_append]
    rcases Nat.lt_succ_iff_lt_or_eq.mp hk with h | rfl
    · have hlt : Nat.count (fun i => (f i).isSome = true) k <
          ((List.range n).filterMap f).length := by
        rw [length_filterMap_range]
        exact Nat.count_strict_mono hf h
      rw [List.getElem?_append_left hlt, ih h]
    · obtain ⟨b, hb⟩ := Option.isSome_iff_exists.mp hf
      rw [List.getElem?_append_right (by rw [length_filterMap_range]), length_filterMap_range,
        Nat.sub_self, hb,
        List.filterMap_cons_some hb]
      rfl

/-! ## Performing a batch -/

section Slots

variable {ι : Type u} [DecidableEq ι]

/-- What a place is given: something new, what is moved there, or nothing. -/
def slot (inserted : List ι) (moved : List (ι × ι)) (i : ι) : Option (Option ι) :=
  if i ∈ inserted then some none
  else (moved.find? fun move => move.2 = i).map fun move => some move.1

def stays (deleted : List ι) (moved : List (ι × ι)) (i : ι) : Bool :=
  decide (i ∉ deleted) && moved.all fun move => move.1 ≠ i

end Slots

namespace Batch

variable (b : Batch)

/-- The section that each section comes from, if it is not new. -/
def sectionOrigins (old new : Nat) : Option (List (Option Nat)) :=
  fill ((List.range new).map (slot b.insertedSections b.movedSections))
    (((List.range old).filter (stays b.deletedSections b.movedSections)).map some)

/-- The item that each item of section `i` comes from, when the section was section `k`. -/
def itemOrigins (k old i new : Nat) : Option (List (Option Path)) :=
  fill ((List.range new).map fun j => slot b.insertedItems b.movedItems (i, j))
    (((List.range old).filter fun j => stays b.deletedItems b.movedItems (k, j)).map
      fun j => some (k, j))

def rowOrigins (old : List Nat) (origin : Option Nat) (i new : Nat) : Option (List (Option Path)) :=
  match origin with
  | none => some ((List.range new).map fun _ => none)
  | some k => old[k]?.bind fun n => b.itemOrigins k n i new

/-- Where each item comes from; `old` and `new` are the numbers of items in the sections. -/
def origins (old new : List Nat) : Option (List (List (Option Path))) := do
  let sections ← b.sectionOrigins old.length new.length
  (sections.zip new).zipIdx.mapM fun p => b.rowOrigins old p.1.1 p.2 p.1.2

end Batch

def item? (view : List (List β)) (path : Path) : Option β :=
  view[path.1]?.bind fun items => items[path.2]?

/-- A cell for something new is made from the item of the data source. -/
def cell (b : Batch) (view : List (List β)) (origin : Option Path) (item : β) : Option β :=
  match origin with
  | none => some item
  | some path => if path ∈ b.updatedItems then some item else item? view path

def performBatchUpdates (b : Batch) (source view : List (List β)) : Option (List (List β)) :=
  (b.origins (view.map List.length) (source.map List.length)).bind fun rows =>
    (rows.zip source).mapM fun p => (p.1.zip p.2).mapM fun q => cell b view q.1 q.2

/-! ## What a view takes -/

namespace Batch

variable (b : Batch)

/-- The sections that are named by where they were. -/
def sectionsBefore : List Nat := b.deletedSections ++ b.movedSections.map Prod.fst

def sectionsAfter : List Nat := b.insertedSections ++ b.movedSections.map Prod.snd

def itemsBefore : List Path := b.deletedItems ++ b.updatedItems ++ b.movedItems.map Prod.fst

def itemsAfter : List Path := b.insertedItems ++ b.movedItems.map Prod.snd

/-- Deletions and reloads, what sections are inserted and moved, or what items are: never two of
these together. -/
def OneKind : Prop :=
  (b.sectionsAfter = [] ∧ b.itemsAfter = []) ∨
    (b.deletedSections = [] ∧ b.itemsBefore = [] ∧ b.itemsAfter = []) ∨
      (b.sectionsBefore = [] ∧ b.sectionsAfter = [] ∧ b.deletedItems = [] ∧ b.updatedItems = [])

instance : Decidable b.OneKind := inferInstanceAs (Decidable (_ ∨ _ ∨ _))

/-- No place is named twice, and no item together with its section. -/
def NamesOnce : Prop :=
  b.sectionsBefore.Nodup ∧ b.sectionsAfter.Nodup ∧ b.itemsBefore.Nodup ∧ b.itemsAfter.Nodup ∧
    (∀ p ∈ b.itemsBefore, p.1 ∉ b.deletedSections) ∧ ∀ q ∈ b.itemsAfter, q.1 ∉ b.insertedSections

instance : Decidable b.NamesOnce := inferInstanceAs (Decidable (_ ∧ _ ∧ _ ∧ _ ∧ _ ∧ _))

/-- Every place that is named is there. -/
def InRange (source view : List (List β)) : Prop :=
  (∀ k ∈ b.sectionsBefore, k < view.length) ∧ (∀ i ∈ b.sectionsAfter, i < source.length) ∧
    (∀ p ∈ b.itemsBefore, (item? view p).isSome = true) ∧
    ∀ q ∈ b.itemsAfter, (item? source q).isSome = true

instance (source view : List (List β)) : Decidable (b.InRange source view) :=
  inferInstanceAs (Decidable (_ ∧ _ ∧ _ ∧ _))

def Legal (source view : List (List β)) : Prop :=
  b.OneKind ∧ b.NamesOnce ∧ b.InRange source view

instance (source view : List (List β)) : Decidable (b.Legal source view) :=
  inferInstanceAs (Decidable (_ ∧ _ ∧ _))

end Batch

/-- A view that takes batches. It may refuse a batch out of a window, one that mixes commands of
different kinds or one that names a place twice or outside; any other one it performs, if the
numbers of sections and items fit. -/
structure SectionedView (β : Type v) where
  perform : (inWindow : Bool) → Batch → (source view : List (List β)) → Option (List (List β))
  performs : ∀ (b : Batch) (source view view' : List (List β)), b.Legal source view →
    performBatchUpdates b source view = some view' → perform true b source view = some view'

/-- The view that takes no other batch. -/
def SectionedView.strict : SectionedView β where
  perform inWindow b source view :=
    if inWindow = true ∧ b.Legal source view then performBatchUpdates b source view else none
  performs _ _ _ _ hl h := (if_pos ⟨rfl, hl⟩).trans h

-- a section is moved and an item of it reloaded
example : SectionedView.strict.perform true { movedSections := [(1, 0)], updatedItems := [(0, 0)] }
    [["b"], ["c"]] [["a"], ["b"]] = none := rfl

/-! ## What a batch does -/

/-- Sections stay in order, and the items of a section do. -/
structure Batch.Arranges (b : Batch) (old new : List Nat) (sectionOrigin : Nat → Option Nat)
    (origin : Path → Option Path) : Prop where
  sections : b.sectionOrigins old.length new.length =
    some ((List.range new.length).map sectionOrigin)
  items : ∀ i n, new[i]? = some n →
    b.rowOrigins old (sectionOrigin i) i n = some ((List.range n).map fun j => origin (i, j))

theorem Batch.Arranges.origins {b : Batch} {old new : List Nat} {sectionOrigin : Nat → Option Nat}
    {origin : Path → Option Path} (h : b.Arranges old new sectionOrigin origin) :
    ∃ rows, b.origins old new = some rows ∧ rows.length = new.length ∧
      ∀ i n, new[i]? = some n → rows[i]? = some ((List.range n).map fun j => origin (i, j)) := by
  have hget : ∀ i n, new[i]? = some n →
      (((List.range new.length).map sectionOrigin).zip new).zipIdx[i]? =
        some ((sectionOrigin i, n), i) := by
    intro i n hn
    have hi : i < new.length := (List.getElem?_eq_some_iff.mp hn).1
    rw [List.getElem?_zipIdx, List.getElem?_zip_eq_some (z := (sectionOrigin i, n)) |>.mpr]
    · simp
    · refine ⟨?_, hn⟩
      rw [List.getElem?_map, List.getElem?_range hi]
      rfl
  have hlen : (((List.range new.length).map sectionOrigin).zip new).zipIdx.length = new.length := by
    simp
  obtain ⟨rows, hrows, hl, hr⟩ := Loops.mapM_option_ok
    (l := (((List.range new.length).map sectionOrigin).zip new).zipIdx)
    (f := fun p => b.rowOrigins old p.1.1 p.2 p.1.2) (by
      intro p hp
      obtain ⟨i, hi⟩ := List.mem_iff_getElem?.mp hp
      have hlt : i < new.length := by
        rw [← hlen]
        exact (List.getElem?_eq_some_iff.mp hi).1
      rw [hget i new[i] (List.getElem?_eq_getElem hlt)] at hi
      obtain rfl := Option.some.inj hi
      exact ⟨_, h.items i new[i] (List.getElem?_eq_getElem hlt)⟩)
  refine ⟨rows, ?_, hl.trans hlen, fun i n hn => ?_⟩
  · rw [Batch.origins, h.sections]
    exact hrows
  · rw [hr, hget i n hn]
    exact h.items i n hn

theorem mapM_zip_ok {γ : Type v} {f : α → β → Option γ} {l : List α} {m : List β}
    (hlen : l.length = m.length)
    (h : ∀ (k : Nat) a b, l[k]? = some a → m[k]? = some b → ∃ c, f a b = some c) :
    ∃ r, (l.zip m).mapM (fun q => f q.1 q.2) = some r ∧ r.length = m.length ∧
      ∀ (k : Nat) a b, l[k]? = some a → m[k]? = some b → r[k]? = f a b := by
  obtain ⟨r, hr, hl, hget⟩ := Loops.mapM_option_ok (l := l.zip m) (f := fun q => f q.1 q.2) (by
    intro q hq
    obtain ⟨k, hk⟩ := List.mem_iff_getElem?.mp hq
    obtain ⟨ha, hb⟩ := List.getElem?_zip_eq_some.mp hk
    exact h k q.1 q.2 ha hb)
  refine ⟨r, hr, ?_, fun k a b ha hb => ?_⟩
  · rw [hl, List.length_zip, hlen, Nat.min_self]
  · rw [hget, List.getElem?_zip_eq_some (z := (a, b)) |>.mpr ⟨ha, hb⟩]
    rfl

/-- The cells of one section after a batch. -/
theorem cells_of_origins (b : Batch) (view : List (List β)) (origin : Nat → Option Path)
    (items : List β)
    (hcell : ∀ (j : Nat) item, items[j]? = some item → ∃ c, cell b view (origin j) item = some c) :
    ∃ cells, ((((List.range items.length).map origin).zip items).mapM
        fun q => cell b view q.1 q.2) = some cells ∧ cells.length = items.length ∧
      ∀ j : Nat, cells[j]? = items[j]?.bind (cell b view (origin j)) := by
  have hget : ∀ (j : Nat) item, items[j]? = some item →
      ((List.range items.length).map origin)[j]? = some (origin j) := by
    intro j item hj
    rw [List.getElem?_map, List.getElem?_range (List.getElem?_eq_some_iff.mp hj).1]
    rfl
  obtain ⟨cells, hcells, hl, hc⟩ := mapM_zip_ok (f := cell b view)
    (l := (List.range items.length).map origin) (m := items) (by simp) (by
      intro j o item ho hj
      obtain rfl := Option.some.inj (ho.symm.trans (hget j item hj))
      exact hcell j item hj)
  refine ⟨cells, hcells, hl, fun j => ?_⟩
  cases hj : items[j]? with
  | none =>
    rw [Option.bind_none, List.getElem?_eq_none_iff, hl]
    exact List.getElem?_eq_none_iff.mp hj
  | some item => exact hc j _ item (hget j item hj) hj

/-- The items after a batch, one by one. -/
theorem performBatchUpdates_of_arranges {b : Batch} {source view : List (List β)}
    {sectionOrigin : Nat → Option Nat} {origin : Path → Option Path}
    (h : b.Arranges (view.map List.length) (source.map List.length) sectionOrigin origin)
    (hcell : ∀ q item, item? source q = some item → ∃ c, cell b view (origin q) item = some c) :
    ∃ view', performBatchUpdates b source view = some view' ∧
      view'.map List.length = source.map List.length ∧
      ∀ q, item? view' q = (item? source q).bind (cell b view (origin q)) := by
  obtain ⟨rows, hrows, hlen, hget⟩ := h.origins
  rw [List.length_map] at hlen
  have hrow : ∀ (i : Nat) items, source[i]? = some items →
      rows[i]? = some ((List.range items.length).map fun j => origin (i, j)) := by
    intro i items hi
    refine hget i items.length ?_
    rw [List.getElem?_map, hi]
    rfl
  have hcells : ∀ (i : Nat) items, source[i]? = some items → _ := fun i items hi =>
    cells_of_origins b view (fun j => origin (i, j)) items
      fun j item hj => hcell (i, j) item (by rw [item?, hi]; exact hj)
  obtain ⟨view', hview, hl, hv⟩ := mapM_zip_ok
    (f := fun os items => (os.zip items).mapM fun q => cell b view q.1 q.2)
    (l := rows) (m := source) hlen (by
      intro i os items hos hi
      obtain rfl := Option.some.inj (hos.symm.trans (hrow i items hi))
      obtain ⟨cells, hc, -⟩ := hcells i items hi
      exact ⟨cells, hc⟩)
  have hview' : ∀ (i : Nat) items, source[i]? = some items → ∃ cells, view'[i]? = some cells ∧
      cells.length = items.length ∧
      ∀ j : Nat, cells[j]? = items[j]?.bind (cell b view (origin (i, j))) := by
    intro i items hi
    obtain ⟨cells, hc, hrest⟩ := hcells i items hi
    exact ⟨cells, (hv i _ items (hrow i items hi) hi).trans hc, hrest⟩
  have hnone : ∀ i : Nat, source[i]? = none → view'[i]? = none := by
    intro i hi
    rw [List.getElem?_eq_none_iff, hl]
    exact List.getElem?_eq_none_iff.mp hi
  refine ⟨view', ?_, ?_, fun ⟨i, j⟩ => ?_⟩
  · rw [performBatchUpdates, hrows]
    exact hview
  · refine List.ext_getElem? fun i => ?_
    rw [List.getElem?_map, List.getElem?_map]
    cases hi : source[i]? with
    | none => rw [hnone i hi]
    | some items =>
      obtain ⟨cells, hc, hlen', -⟩ := hview' i items hi
      rw [hc, Option.map_some, Option.map_some, hlen']
  · cases hi : source[i]? with
    | none => simp only [item?, hi, hnone i hi, Option.bind_none]
    | some items =>
      obtain ⟨cells, hc, -, hrest⟩ := hview' i items hi
      simp only [item?, hi, hc, Option.bind_some, hrest]

end Karupasu.Library.BatchUpdates
