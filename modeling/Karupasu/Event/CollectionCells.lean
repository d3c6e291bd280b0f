import Karupasu.Event.Collection
import Karupasu.Event.EventCellModel

/-!
# The cells of the event list: `EventCollectionViewController`

`configureCell` leaves in a cell the index path the cell has at that moment. An animated
update keeps the cells of the items it finds again, wherever they stand afterwards, and a
tap on a bookmark sends the index path kept in the cell.
-/
namespace Karupasu.Event.CollectionCells

open Karupasu.Library
open Karupasu.EventModel (Event)

/-- A cell on the screen: the event of its last `cellSetup` and the index path captured. -/
structure Cell where
  event : Event
  index : Nat
  deriving DecidableEq

/-- The collection view with its data source; an item that is not on the screen has no cell. -/
structure View where
  /-- `collectionView.window` is not nil. -/
  inWindow : Bool
  items : List Event
  cells : List (Option Cell)
  deriving DecidableEq

namespace View

def identity (event : Event) : String := (EventCellModel.mk event).identity

/-- `Diff` throws `duplicateItem`: the old items repeat an identity, or the new ones repeat
one of the old. -/
def duplicateItem (old new : List Event) : Bool :=
  !decide (old.map identity).Nodup ||
    !decide ((new.map identity).filter fun i => i ∈ old.map identity).Nodup

/-- The update runs as an animation, not as `reloadData`. -/
def animates (v : View) (events : List Event) : Bool :=
  v.inWindow && !duplicateItem v.items events

/-- The cell that an animated update leaves to an item. Equality of items is equality of
identities, so an item that is found again counts as unchanged. -/
def kept (v : View) (event : Event) : Option Cell :=
  ((v.items.zip v.cells).find? fun p => identity p.1 == identity event).bind Prod.snd

def reloadData (v : View) : View := { v with cells := v.items.map fun _ => none }

/-- `rx.items(dataSource:)` on a new list. -/
def reloadDatasource (v : View) (events : List Event) : View :=
  if v.animates events then { v with items := events, cells := events.map v.kept }
  else reloadData { v with items := events }

/-- The subscriptions that `configureCell` has made to `updateCell`. -/
def updateCell (v : View) (event : Event) (index : Nat) : View :=
  { v with cells := v.cells.map fun cell =>
      cell.map fun c => if c.index = index then { c with event := event } else c }

/-- The collection view asks for the cell of an item that comes into sight. -/
def configureCell (v : View) (position : Nat) : View :=
  match v.items[position]?, v.cells[position]? with
  | some item, some none => { v with cells := v.cells.set position (some ⟨item, position⟩) }
  | _, _ => v

def prepareForReuse (v : View) (position : Nat) : View :=
  { v with cells := v.cells.set position none }

/-- The bindings of `viewDidLoad` to the outputs of the stream. -/
def render (v : View) : Collection.Effect → View
  | .setGenre _ => v.reloadData
  | .showHeader _ => v.reloadData
  | .reloadDatasource events => v.reloadDatasource events
  | .updateCell event index => v.updateCell event index
  | .showDetail _ => v
  | .favoriteEvent _ => v
  | .getEventDetails _ => v
  | .trap => v

end View

structure State where
  stream : Collection.State
  view : View

inductive Input where
  | setGenre (genre : String)
  | setEvents (events : List Event)
  | tapEvent (index : Nat)
  /-- A tap on the bookmark of the cell at a position. -/
  | tapBookmark (position : Nat)
  | favoriteAnswer (index : Nat) (isSuccess : Bool)
  | detailsAnswer (index : Nat) (event : Option Event)
  /-- An item scrolls into sight, and out of it. -/
  | willDisplay (position : Nat)
  | didEndDisplaying (position : Nat)
  /-- The view enters or leaves the hierarchy. -/
  | setWindow (isAttached : Bool)

def feed (i : Collection.Input) (s : State) : State × List Collection.Effect :=
  let r := Collection.step s.stream i
  (⟨r.1, r.2.foldl View.render s.view⟩, r.2)

def step (s : State) : Input → State × List Collection.Effect
  | .setGenre genre => feed (.setGenre genre) s
  | .setEvents events => feed (.setEvents events) s
  | .tapEvent index => feed (.tapEvent index) s
  | .tapBookmark position =>
    match s.view.cells[position]? with
    | some (some c) => feed (.tapBookmark c.index) s
    | _ => (s, [])
  | .favoriteAnswer index isSuccess => feed (.favoriteAnswer index isSuccess) s
  | .detailsAnswer index event => feed (.detailsAnswer index event) s
  | .willDisplay position => ({ s with view := s.view.configureCell position }, [])
  | .didEndDisplaying position => ({ s with view := s.view.prepareForReuse position }, [])
  | .setWindow isAttached => ({ s with view := { s.view with inWindow := isAttached } }, [])

def machine : Machine State Input Collection.Effect := ⟨step⟩

/-- After `viewDidLoad`, which has bound an empty list. -/
def start : State := ⟨Collection.start, ⟨false, [], []⟩⟩

/-! ## What a tap reads -/

/-- The event at the index path captured by the cell has the id the cell shows. -/
def Reads (events : List Event) (c : Cell) : Prop :=
  events[c.index]?.map (·.id) = some c.event.id

instance (events : List Event) (c : Cell) : Decidable (Reads events c) :=
  inferInstanceAs (Decidable (_ = _))

/-- Where the update keeps a cell, the new list has an event with the id the cell shows at
the index path the cell has captured. -/
def KeepsPlaces (v : View) (events : List Event) : Prop :=
  v.animates events → ∀ event ∈ events, ∀ c, v.kept event = some c → Reads events c

/-- The update of the list that a step makes, if any, keeps places. -/
def CellsKeepPlaces (s : State) : Input → Prop
  | .setEvents events => KeepsPlaces s.view events
  | .favoriteAnswer index false =>
    ∀ b, s.stream.favorites[index]? = some b →
      KeepsPlaces (s.view.updateCell b.item b.index) (b.items.set b.index b.item)
  | .detailsAnswer index (some event) =>
    ∀ b, s.stream.details[index]? = some b →
      KeepsPlaces (s.view.updateCell event b.index) (b.items.set b.index event)
  | _ => True

def AllRead (events : List Event) (v : View) : Prop := ∀ c, some c ∈ v.cells → Reads events c

/-- The data source has the list of the stream. -/
def Synced (s : State) : Prop := s.view.items = s.stream.currentEvents

/-- What a step does to list and cells: nothing, a change of the cells alone, or an update. -/
inductive Moves (s : State) : Input → State → Prop where
  | same {i : Input} {t : State} (hi : CellsKeepPlaces s i)
      (hlist : t.stream.currentEvents = s.stream.currentEvents) (hview : t.view = s.view) :
      Moves s i t
  | cells {i : Input} {t : State} (hi : CellsKeepPlaces s i)
      (hlist : t.stream.currentEvents = s.stream.currentEvents)
      (hitems : t.view.items = s.view.items)
      (hread : Synced s → AllRead s.stream.currentEvents s.view →
        AllRead s.stream.currentEvents t.view) : Moves s i t
  | update {i : Input} {t : State} (v : View) (events : List Event)
      (hi : CellsKeepPlaces s i ↔ KeepsPlaces v events)
      (hlist : t.stream.currentEvents = events) (hview : t.view = v.reloadDatasource events) :
      Moves s i t

end Karupasu.Event.CollectionCells
