import Karupasu.Differentiator.OneSection
import Karupasu.Event.DetailScreen
import Karupasu.Event.OptionTable

/-!
# The tables and their data sources

The prefecture picker and the detail screen hand their rows to an animated data source as the
items of one section. Along every run the table of each is what the vendored data source holds
after the updates, windows and cells of that run, in any table view that takes legal batches.
-/
namespace Karupasu.Event

open Karupasu.Library
open Karupasu.Library.BatchUpdates (SectionedView)
open Karupasu.Differentiator
open Karupasu.Differentiator.OneSection
open Karupasu.EventModel (Event)
open Karupasu.PrefectureModel (Prefecture)

/-! ## The prefecture picker -/

namespace OptionTable

open Karupasu.Event.ApplySheet

/-- What happens to the table, cell by cell and list by list. -/
abbrev TableChange := Change OptionSectionModel Bool

/-- The cell of a row is configured. -/
def configured (index : Nat) : TableChange :=
  .setCell index fun item selected => if item.isJoin then true else selected

/-- The rows of an event are handed to the data source. -/
def shown (prefectures : List Prefecture) (event : Event) : List TableChange :=
  if event.details.isSome then [.update (rowsFor prefectures event)] else []

/-- What a step does to a table that is there. -/
def handed (s : State) : Input → List TableChange
  | .setWindow isAttached asked => .setWindow isAttached :: asked.map configured
  | .cellForRow index => [configured index]
  | .tapRow index => [.setCell index fun _ selected => !selected]
  | .detailsAnswer index (some event) asked =>
    if (s.requests[index]?).isSome then shown s.prefectures event ++ asked.map configured else []
  | .prefecturesAnswer (some prefectures) order asked =>
    if prefectures.isEmpty then []
    else (refreshed s.picker order).flatMap (shown prefectures) ++ asked.map configured
  | .viewDidLoad | .tapConfirm | .setEvent _ | .reloadView | .detailsAnswer _ none _
  | .prefecturesAnswer none _ _ => []

def tableChanges (s : State) (input : Input) : List TableChange :=
  match s.table, input with
  | some _, _ => handed s input
  | none, .viewDidLoad => [.update s.picker.reloadDatasource]
  | none, _ => []

/-- The rows of the table; before the view has loaded there are none. -/
def tableOf (s : State) : Table := s.table.getD ⟨false, []⟩

theorem beq_iff (x y : OptionSectionModel) : (x == y) = true ↔ identity x = identity y :=
  beq_iff_eq (a := x.identity)

theorem foldl_configured (asked : List Nat) (t : Table) :
    (asked.map configured).foldl (changeRows Table.fresh) t = asked.foldl Table.cellForRow t := by
  rw [List.foldl_map]
  rfl

theorem table_reload (s : State) (event : Event) :
    (reload s event).table =
      s.table.map fun t => (shown s.prefectures event).foldl (changeRows Table.fresh) t := by
  by_cases hd : event.details.isSome = true
  · rw [(reload_of_details s hd).1, shown, if_pos hd]
    rfl
  · have hnone := Option.not_isSome_iff_eq_none.mp hd
    rw [shown, if_neg hd, reload, hnone]
    exact (Option.map_id').symm

theorem table_foldl_reload (events : List Event) (s : State) :
    (events.foldl reload s).table = s.table.map fun t =>
      (events.flatMap (shown s.prefectures)).foldl (changeRows Table.fresh) t := by
  induction events generalizing s with
  | nil => exact (Option.map_id').symm
  | cons event events ih =>
    rw [List.foldl_cons, ih, table_reload, (picker_reload s event).2, Option.map_map,
      List.flatMap_cons]
    simp only [Function.comp_def, List.foldl_append]

theorem table_accept (s : State) (event : Event) :
    (accept s event).table =
      s.table.map fun t => (shown s.prefectures event).foldl (changeRows Table.fresh) t := by
  unfold accept
  dsimp only
  split
  · exact table_reload _ event
  · next h =>
    rw [shown, if_neg h]
    exact (Option.map_id').symm

theorem table_ask (asked : List Nat) (s : State) :
    (ask asked s).table =
      s.table.map fun t => (asked.map configured).foldl (changeRows Table.fresh) t := by
  simp only [foldl_configured]
  rfl

theorem table_next {s : State} {input : Input} (h : input = .viewDidLoad → s.table.isSome = true) :
    (machine.next s input).table =
      s.table.map fun t => (handed s input).foldl (changeRows Table.fresh) t := by
  have hsame : s.table = s.table.map fun t => t := Option.map_id'.symm
  cases input with
  | viewDidLoad =>
    obtain ⟨t, ht⟩ := Option.isSome_iff_exists.mp (h rfl)
    simp only [Machine.next, machine, step, ht]
    rfl
  | setWindow isAttached asked =>
    change (ask asked _).table = _
    rw [table_ask, Option.map_map]
    rfl
  | cellForRow index => exact table_ask [index] s
  | tapRow index =>
    simp only [Machine.next, machine, step]
    cases ht : s.table with
    | none =>
      rw [ht]
      rfl
    | some t =>
      rw [Option.map_some, handed, List.foldl_cons, List.foldl_nil, changeRows]
      cases hrow : t.rows[index]? with
      | none =>
        simp only [hrow]
        rw [List.modify_eq_set_getElem?, hrow]
        exact ht
      | some row =>
        simp only [hrow]
        rw [List.modify_eq_set_getElem?, hrow]
        rfl
  | tapConfirm | setEvent event => exact hsame
  | reloadView =>
    simp only [Machine.next, machine, step]
    split
    · exact hsame
    · exact hsame
  | detailsAnswer index event asked =>
    have haccept : ∀ r event, (ask asked (accept { s with requests := r } event)).table =
        s.table.map fun t => (shown s.prefectures event ++ asked.map configured).foldl
          (changeRows Table.fresh) t := by
      intro r event
      rw [table_ask, table_accept, Option.map_map]
      simp only [Function.comp_def, List.foldl_append]
    simp only [Machine.next, machine, step]
    cases hrequest : s.requests[index]? with
    | none => cases event with
      | none => exact hsame
      | some event =>
        simp only [handed, hrequest]
        exact hsame
    | some request => cases event with
      | none =>
        obtain ⟨origin, id⟩ := request
        cases origin with
        | setEvent => exact hsame
        | reloadView => exact hsame
      | some event =>
        obtain ⟨origin, id⟩ := request
        simp only [handed, hrequest]
        cases origin with
        | setEvent => exact haccept _ event
        | reloadView => exact haccept _ event
  | prefecturesAnswer items order asked => cases items with
    | none => exact hsame
    | some prefectures =>
      simp only [Machine.next, machine, step, handed]
      by_cases hempty : prefectures.isEmpty = true
      · rw [if_pos hempty, if_pos hempty]
        exact hsame
      · rw [if_neg hempty, if_neg hempty, table_ask, refresh, table_foldl_reload, Option.map_map]
        simp only [Function.comp_def, List.foldl_append]

/-- One step changes the rows by the changes it stands for. -/
theorem tableOf_next (s : State) (input : Input) :
    tableOf (machine.next s input) = (tableChanges s input).foldl (changeRows Table.fresh)
      (tableOf s) := by
  unfold tableOf tableChanges
  cases ht : s.table with
  | some t =>
    rw [table_next fun _ => by rw [ht]; rfl, ht]
    rfl
  | none =>
    by_cases hload : input = .viewDidLoad
    · subst hload
      simp only [Machine.next, machine, step, ht, Option.getD_some]
      exact (AnimatedRows.update_of_rows_eq_nil rfl _).symm
    · rw [table_next fun h => absurd h hload, ht]
      cases input with
      | viewDidLoad => exact absurd rfl hload
      | setWindow isAttached asked | cellForRow index | tapRow index | tapConfirm | setEvent event
        | reloadView | detailsAnswer index event asked | prefecturesAnswer items order asked => rfl

/-- Along every run the table is what the vendored data source holds. -/
theorem run_source (sectionedView : SectionedView Bool) (prefectures : List Prefecture)
    (is : List Input) :
    ∃ source, (changesAlong machine tableChanges (start prefectures) is).foldlM
        (changeSource Table.fresh "Prefecrure" sectionedView) (.start, false) = some source ∧
      Holds "Prefecrure" (tableOf (machine.run (start prefectures) is)) source :=
  OneSection.run_source sectionedView beq_iff tableOf_next rfl is

end OptionTable

/-! ## The detail screen -/

namespace DetailScreen

open Karupasu.Event.Detail (Effect)
open Karupasu.GenreModel (Genre)
open Karupasu.MemberSectionModel (Content TableInput cellOf fresh)
open Karupasu.PlaceModel (Place)

abbrev TableChange := Change MemberSectionModel (Option Content)

def inputChange (prefectures : List Prefecture) : TableInput → TableChange
  | .setWindow isAttached => .setWindow isAttached
  | .cellForRow index => .setCell index fun item _ => some (cellOf prefectures item)
  | .didEndDisplaying index => .setCell index fun _ _ => none

/-- What the subscription to `reloadTable` does with an output. -/
def effectChange (s : State) : Effect → List TableChange
  | .reloadTable event =>
    if s.crashed then [] else [.update (MemberSectionModel.reloadTable event)]
  | .reloadView _ | .showApply _ | .showEditBtn | .showEdit _ | .favoriteEvent _
  | .getEventDetails _ => []

-- the places, and the text `AppText.genre()`
variable (places : List Place) (genreText : String)

/-- What the outputs of one step do, one after the other. -/
def effectChanges : State → List Effect → List TableChange
  | _, [] => []
  | s, effect :: effects =>
    effectChange s effect ++ effectChanges (observe places genreText s effect) effects

def tableChanges (s : State) (input : Input) : List TableChange :=
  if s.crashed then []
  else
    match input with
    | .stream input =>
      let (stream, effects) := Detail.step s.stream input
      let s := { turnMark s input with stream := stream }
      if s.loaded then effectChanges places genreText s effects else []
    | .table input => [inputChange s.prefectures input]
    | .viewDidLoad | .genres _ | .prefectures _ => []

variable {places} {genreText}

theorem beq_iff (x y : MemberSectionModel) : (x == y) = true ↔ identity x = identity y :=
  MemberSectionModel.beq_iff

theorem table_observe (s : State) (effect : Effect) :
    (observe places genreText s effect).table =
      (effectChange s effect).foldl (changeRows fresh) s.table := by
  unfold observe
  by_cases hc : s.crashed = true
  · rw [if_pos hc]
    cases effect with
    | reloadTable event =>
      rw [effectChange, if_pos hc]
      rfl
    | reloadView event | showApply event | showEditBtn | showEdit event | favoriteEvent eventId
      | getEventDetails eventId => rfl
  · rw [if_neg hc]
    cases effect with
    | reloadTable event =>
      rw [effectChange, if_neg hc]
      rfl
    | reloadView event =>
      simp only [reloadView]
      split
      · rfl
      · rfl
    | showApply event | showEditBtn | showEdit event | favoriteEvent eventId
      | getEventDetails eventId => rfl

theorem table_foldl_observe (effects : List Effect) (s : State) :
    (effects.foldl (observe places genreText) s).table =
      (effectChanges places genreText s effects).foldl (changeRows fresh) s.table := by
  induction effects generalizing s with
  | nil => rfl
  | cons effect effects ih =>
    rw [List.foldl_cons, ih, table_observe, effectChanges, List.foldl_append]

theorem table_turnMark (s : State) (input : Detail.Input) : (turnMark s input).table = s.table := by
  unfold turnMark
  split
  · split
    · rfl
    · rfl
  · rfl

theorem table_next (s : State) (input : Input) :
    ((machine places genreText).next s input).table =
      (tableChanges places genreText s input).foldl (changeRows fresh) s.table := by
  simp only [Machine.next, machine, step, tableChanges]
  by_cases hc : s.crashed = true
  · rw [if_pos hc, if_pos hc]
    rfl
  rw [if_neg hc, if_neg hc]
  cases input with
  | stream input =>
    simp only
    split
    · rw [table_foldl_observe, table_turnMark]
    · exact table_turnMark s input
  | table input => cases input with
    | setWindow isAttached | cellForRow index | didEndDisplaying index => rfl
  | viewDidLoad | genres genres | prefectures prefectures => rfl

/-- Along every run the table is what the vendored data source holds. -/
theorem run_source (sectionedView : SectionedView (Option Content)) (genres : List Genre)
    (prefectures : List Prefecture) (is : List Input) :
    ∃ source, (changesAlong (machine places genreText) (tableChanges places genreText)
          (start genres prefectures) is).foldlM
        (changeSource fresh genreText sectionedView) (.start, false) = some source ∧
      Holds genreText ((machine places genreText).run (start genres prefectures) is).table
        source :=
  OneSection.run_source sectionedView beq_iff table_next rfl is

end DetailScreen
end Karupasu.Event
