import Karupasu.Differentiator.OneSection
import Karupasu.Event.CollectionCells

/-!
# The event list and its data source

The list hands its events to the data source as the items of one section. What
`View.reloadDatasource` says of the cells is what the difference of the two lists does to them.
-/
namespace Karupasu.Event.CollectionUpdates

open Karupasu.Differentiator
open Karupasu.Differentiator.Diff
open Karupasu.Library.BatchUpdates (SectionedView item? setCell)
open Karupasu.Event.CollectionCells (Cell View)
open Karupasu.EventModel (Event)

instance : IdentifiableType EventCellModel String := ⟨EventCellModel.identity⟩

instance : EquivBEq EventCellModel where
  rfl := EventCellModel.beq_iff.mpr rfl
  symm h := EventCellModel.beq_iff.mpr (EventCellModel.beq_iff.mp h).symm
  trans h i := EventCellModel.beq_iff.mpr
    ((EventCellModel.beq_iff.mp h).trans (EventCellModel.beq_iff.mp i))

/-- The sections that `reloadDatasource` is bound to. -/
def cellSections (events : List Event) : List (AnimatableSectionModel String EventCellModel) :=
  [⟨"cell", events.map EventCellModel.mk⟩]

/-- A new cell is not there before it is asked for. -/
def options (sectionedView : SectionedView (Option Cell)) :
    AnimatedDataSource.Options String EventCellModel (Option Cell) :=
  ⟨fun _ _ => .animated, fun _ => none, sectionedView⟩

variable (sectionedView : SectionedView (Option Cell))

/-- The data source and the collection view behind a list. -/
structure Shows (v : View) (a : AnimatedDataSource String EventCellModel (Option Cell)) : Prop where
  dataSet : a.dataSet = true
  view : a.view = [v.cells]
  items : AlikeSections a.sectionModels (cellSections v.items)
  length : v.cells.length = v.items.length

theorem map_identity_mk (events : List Event) :
    (events.map EventCellModel.mk).map identity = events.map View.identity := by
  rw [List.map_map]
  rfl

/-- The data source may keep older records; it keeps the identities. -/
theorem sectionModels_eq {a : List (AnimatableSectionModel String EventCellModel)}
    {events : List Event} (h : AlikeSections a (cellSections events)) :
    ∃ items, a = [⟨"cell", items⟩] ∧ items.map identity = events.map View.identity := by
  obtain ⟨hid, hshape, halike⟩ := h
  match a, hid with
  | [⟨model, items⟩], hid =>
    obtain ⟨hmodel, -⟩ := List.cons.inj hid
    obtain rfl : model = "cell" := hmodel
    refine ⟨items, rfl, ?_⟩
    rw [← map_identity_mk]
    have hlen : items.length = (events.map EventCellModel.mk).length := (List.cons.inj hshape).1
    refine List.ext_getElem? fun j => ?_
    rw [List.getElem?_map, List.getElem?_map]
    by_cases hj : j < items.length
    · have hx := List.getElem?_eq_getElem hj
      have hy := List.getElem?_eq_getElem (hlen ▸ hj : j < (events.map EventCellModel.mk).length)
      rw [hx, hy]
      exact congrArg some (halike (0, j) _ _ hx hy).identity_eq
    · rw [List.getElem?_eq_none_iff.mpr (Nat.le_of_not_lt hj),
        List.getElem?_eq_none_iff.mpr (by omega)]

theorem distinct_iff {items : List EventCellModel} {old : List Event} (new : List Event)
    (h : items.map identity = old.map View.identity) :
    Distinct [⟨"cell", items⟩] (cellSections new) ↔ View.duplicateItem old new = false := by
  rw [cellSections, OneSection.distinct_iff, h, map_identity_mk, View.duplicateItem,
    Bool.or_eq_false_iff, Bool.not_eq_false', Bool.not_eq_false', decide_eq_true_iff,
    decide_eq_true_iff]

/-- The cell of the first item of an identity. -/
theorem kept_eq_getElem? {v : View} {e : Event} {k : Nat} {c : Option Cell} {old : Event}
    (hnodup : (v.items.map View.identity).Nodup) (hold : v.items[k]? = some old)
    (hc : v.cells[k]? = some c) (hid : View.identity old = View.identity e) : v.kept e = c := by
  have hzip : (v.items.zip v.cells)[k]? = some (old, c) := List.getElem?_zip_eq_some.mpr ⟨hold, hc⟩
  cases hf : (v.items.zip v.cells).find? fun p => View.identity p.1 == View.identity e with
  | none =>
    have hne := List.find?_eq_none.mp hf (old, c) (List.mem_of_getElem? hzip)
    exact absurd (beq_iff_eq.mpr hid) hne
  | some p =>
    have hp := List.find?_some hf
    rw [beq_iff_eq] at hp
    obtain ⟨l, hl⟩ := List.mem_iff_getElem?.mp (List.mem_of_find?_eq_some hf)
    obtain ⟨hl1, hl2⟩ := List.getElem?_zip_eq_some.mp hl
    have hmap : ∀ {i : Nat} {x}, v.items[i]? = some x →
        (v.items.map View.identity)[i]? = some (View.identity x) := by
      intro i x hx
      rw [List.getElem?_map, hx]
      rfl
    have hkl : k = l := by
      refine (List.getElem?_inj (List.getElem?_eq_some_iff.mp (hmap hold)).1 hnodup).mp ?_
      rw [hmap hold, hmap hl1, hid, hp]
    subst hkl
    rw [hl2] at hc
    rw [View.kept, hf]
    exact Option.some.inj hc

theorem kept_eq_none {v : View} {e : Event}
    (h : ∀ (k : Nat) old, v.items[k]? = some old → View.identity old ≠ View.identity e) :
    v.kept e = none := by
  have hf : (v.items.zip v.cells).find? (fun p => View.identity p.1 == View.identity e) = none := by
    rw [List.find?_eq_none]
    intro p hp
    obtain ⟨k, hk⟩ := List.mem_iff_getElem?.mp hp
    rw [beq_iff_eq]
    exact h k p.1 (List.getElem?_zip_eq_some.mp hk).1
  rw [View.kept, hf]
  rfl

theorem view_of_updates {v : View} {a b : AnimatedDataSource String EventCellModel (Option Cell)}
    (h : Shows v a) {events : List Event} (hnodup : (v.items.map View.identity).Nodup)
    (hupdates : AnimatedDataSource.Updates (options sectionedView) a b (cellSections events)) :
    b.view = [events.map v.kept] := by
  obtain ⟨items, hitems, hids⟩ := sectionModels_eq h.items
  have hview : b.view = [(events.map EventCellModel.mk).map fun y => v.kept y.event] := by
    refine OneSection.view_of_updates (fun _ _ => EventCellModel.beq_iff) hitems h.view hupdates
      (fun k x y hx hid => ?_) fun y hy => ?_
    · have hmap := congrArg (·[k]?) hids
      simp only [List.getElem?_map, hx, Option.map_some] at hmap
      obtain ⟨old, hold, hid'⟩ := Option.map_eq_some_iff.mp hmap.symm
      have hc : k < v.cells.length := by
        rw [h.length]
        exact (List.getElem?_eq_some_iff.mp hold).1
      have hcell := List.getElem?_eq_getElem hc
      rw [kept_eq_getElem? hnodup hold hcell (hid'.trans hid)]
      exact hcell
    · refine kept_eq_none fun k old hold hid => ?_
      have hmem : View.identity old ∈ items.map identity :=
        hids ▸ List.mem_map_of_mem (List.mem_of_getElem? hold)
      obtain ⟨x, hx, hxid⟩ := List.mem_map.mp hmem
      exact hy x hx (hxid.trans hid)
  rw [hview, List.map_map]
  rfl

/-! ## The list and the data source side by side -/

/-- What happens to a list: it is bound to other events, or one of its cells changes. -/
inductive Change where
  | reloadDatasource (events : List Event) (inWindow : Bool)
  | setCell (position : Nat) (cell : Option Cell)

def changeView (v : View) : Change → View
  | .reloadDatasource events inWindow => { v with inWindow }.reloadDatasource events
  | .setCell position cell => { v with cells := v.cells.set position cell }

def changeSource (a : AnimatedDataSource String EventCellModel (Option Cell)) :
    Change → Option (AnimatedDataSource String EventCellModel (Option Cell))
  | .reloadDatasource events inWindow =>
    AnimatedDataSource.observedEvent (options sectionedView) a (cellSections events) inWindow
  | .setCell position cell => some { a with view := setCell a.view (0, position) cell }

theorem shows_reload (a : AnimatedDataSource String EventCellModel (Option Cell))
    (hset : a.dataSet = true) (inWindow : Bool) (events : List Event) :
    Shows (View.reloadData ⟨inWindow, events, []⟩)
      (AnimatedDataSource.reload (options sectionedView) a (cellSections events)) := by
  refine ⟨hset, ?_, AlikeSections.refl _, List.length_map _⟩
  change [(events.map EventCellModel.mk).map fun _ => none] = [events.map fun _ => none]
  rw [List.map_map]
  rfl

theorem shows_reloadDatasource {v : View}
    {a : AnimatedDataSource String EventCellModel (Option Cell)} (h : Shows v a)
    (events : List Event) :
    ∃ b, AnimatedDataSource.observedEvent (options sectionedView) a (cellSections events)
        v.inWindow = some b ∧
      Shows (v.reloadDatasource events) b := by
  obtain ⟨items, hitems, hids⟩ := sectionModels_eq h.items
  cases hw : v.inWindow with
  | false =>
    refine ⟨_, AnimatedDataSource.observedEvent_hidden _ h.dataSet _, ?_⟩
    have hno : v.animates events = false := by
      rw [View.animates, hw]
      rfl
    rw [View.reloadDatasource, hno]
    exact shows_reload sectionedView a h.dataSet v.inWindow events
  | true =>
    have hiff := distinct_iff events hids
    rw [← hitems] at hiff
    by_cases hdup : View.duplicateItem v.items events = false
    · have hanimates : v.animates events = true := by
        rw [View.animates, hw, hdup]
        rfl
      have hshape : a.view.map List.length = (rows a.sectionModels).map List.length := by
        have hlen := congrArg List.length hids
        rw [List.length_map, List.length_map] at hlen
        rw [h.view, hitems]
        exact congrArg (fun n => [n]) (h.length.trans hlen.symm)
      obtain ⟨g, s, m, t, hstaged, -, hfinal, differences, hok, view, hperform, hupdates⟩ :=
        AnimatedDataSource.updates_of_distinct (options sectionedView) hshape (hiff.mpr hdup)
      have hnodup : (v.items.map View.identity).Nodup := by
        simp only [View.duplicateItem, Bool.or_eq_false_iff, Bool.not_eq_false',
          decide_eq_true_iff] at hdup
        exact hdup.1
      have hrun := AnimatedDataSource.observedEvent_animated (options sectionedView) h.dataSet hok
        rfl
      refine ⟨_, hrun.trans hperform, ?_⟩
      rw [View.reloadDatasource, if_pos hanimates]
      refine ⟨h.dataSet, view_of_updates sectionedView h hnodup hupdates, ?_, List.length_map _⟩
      have halike := AnimatedDataSource.alike_sectionModelsAfter hstaged
      rw [hfinal] at halike
      exact halike
    · have hno : v.animates events = false := by
        rw [View.animates, hw, Bool.eq_true_of_not_eq_false hdup]
        rfl
      refine ⟨_, AnimatedDataSource.observedEvent_repeated _ h.dataSet fun hdistinct =>
        hdup (hiff.mp hdistinct), ?_⟩
      rw [View.reloadDatasource, hno]
      exact shows_reload sectionedView a h.dataSet v.inWindow events

theorem shows_change {v : View} {a : AnimatedDataSource String EventCellModel (Option Cell)}
    (h : Shows v a) (change : Change) :
    ∃ b, changeSource sectionedView a change = some b ∧ Shows (changeView v change) b := by
  cases change with
  | reloadDatasource events inWindow =>
    have h' : Shows { v with inWindow } a := ⟨h.dataSet, h.view, h.items, h.length⟩
    exact shows_reloadDatasource sectionedView h' events
  | setCell position cell =>
    refine ⟨_, rfl, h.dataSet, ?_, h.items, (List.length_set).trans h.length⟩
    rw [h.view]
    rfl

/-- What the first list leaves, which `viewDidLoad` binds. -/
def firstSource : AnimatedDataSource String EventCellModel (Option Cell) :=
  AnimatedDataSource.reload (options sectionedView)
    { AnimatedDataSource.start with dataSet := true } (cellSections [])

/-- Along every run the difference does to the cells what the list says. -/
theorem run_shows (changes : List Change) :
    ∃ a, changes.foldlM (changeSource sectionedView) (firstSource sectionedView) = some a ∧
      Shows (changes.foldl changeView CollectionCells.start.view) a := by
  induction changes using List.reverseRecOn with
  | nil => exact ⟨firstSource sectionedView, rfl, rfl, rfl, AlikeSections.refl _, rfl⟩
  | append_singleton changes change ih =>
    obtain ⟨a, ha, hshows⟩ := ih
    obtain ⟨b, hb, hshows'⟩ := shows_change sectionedView hshows change
    refine ⟨b, ?_, ?_⟩
    · rw [List.foldlM_append, ha]
      change (changeSource sectionedView a change).bind some = _
      rw [hb]
      rfl
    · rw [List.foldl_append]
      exact hshows'

end Karupasu.Event.CollectionUpdates
