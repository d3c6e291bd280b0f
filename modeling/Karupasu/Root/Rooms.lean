import Karupasu.Library.Difference
import Karupasu.Records
import Karupasu.Session.SessionInvariant

/-!
# Watching the talk rooms: `RootViewStream` on top of `RoomModel`

The rooms are polled for ever. A poll result is compared with the persisted
`roomIds`; each room that is inserted starts a search, and only the answer to the
search adds the room's id. Answers arrive one at a time, in any order. The machine
starts with the subscription made by `input.observe`.
-/
namespace Karupasu.Root.Rooms

open Karupasu.Library Karupasu.AppData
open Karupasu.EventModel (Event)
open Karupasu.RoomModel (Room)

/-- A `getEvents` request in flight and what its handler captured. -/
structure Search where
  /-- The number of the poll whose result started the search. -/
  poll : Nat
  roomId : Int
  title : String
  participantsCount : Int
  deriving DecidableEq

structure State where
  user : UserModel.State
  /-- The value of `RoomModel.rooms`. -/
  rooms : List Room
  /-- How many room polls have been sent. -/
  sent : Nat
  /-- The numbers of the polls in flight. -/
  polls : List Nat
  searches : List Search

def State.roomIds (s : State) : List Int := s.user.defaults.value .roomIds

def State.setRoomIds (s : State) (ids : List Int) : State :=
  { s with user := { s.user with defaults := s.user.defaults.setValue .roomIds ids } }

inductive Input where
  | fetchRoom
  /-- An answer to a poll: the decoded list, or `none` for an error or an undecodable body. -/
  | roomAnswer (index : Nat) (items : Option (List Room))
  /-- An answer to a search: the decoded events, or `none` for an error. -/
  | searchAnswer (index : Nat) (events : Option (List Event))
  | session (i : UserModel.Input)

inductive Effect where
  | getRoom (poll : Nat)
  | getEvents (search : Search)
  | showOver
  | session (signal : UserModel.Signal)
  /-- `remove(at:)` out of range ends the process. -/
  | trap
  deriving DecidableEq

/-- The loop over the changes, on the persisted ids; the searches are collected in order. -/
def changeLoop (poll : Nat) (rooms : List Room) :
    List (Change Int) → List Int → List Search → Option (List Int × List Search)
  | [], ids, searches => some (ids, searches)
  | .remove offset _ :: rest, ids, searches =>
    if offset < ids.length then changeLoop poll rooms rest (ids.eraseIdx offset) searches else none
  | .insert _ newElement :: rest, ids, searches =>
    match rooms.find? (fun room => room.roomId == newElement) with
    -- `guard let roomTitle = room?.title else { return }`
    | none => some (ids, searches)
    | some room =>
      changeLoop poll rooms rest ids
        (searches ++ [⟨poll, newElement, room.title, room.participantsCount⟩])

/-- The `forEach` over the events found; the `return` in it only leaves its closure. -/
def announce (search : Search) : List Event → List Int → List Int × List Effect
  | [], ids => (ids, [])
  | event :: events, ids =>
    if event.maxParticipantsCount = search.participantsCount then
      let r := announce search events (ids ++ [search.roomId])
      (r.1, .showOver :: r.2)
    else announce search events ids

/-- `start` on a session: `observe` has subscribed and nothing is in flight. -/
def start (user : UserModel.State) (rooms : List Room) : State :=
  { user := user, rooms := rooms, sent := 0, polls := [], searches := [] }

section

variable (δ : Differ Int)

/-- The subscription to `rooms`. -/
def deliver (poll : Nat) (rooms : List Room) (s : State) : State × List Effect :=
  let s := { s with rooms := rooms }
  let diff := δ.difference (rooms.map (·.roomId)) s.roomIds
  match changeLoop poll rooms diff.changes s.roomIds [] with
  | some (ids, searches) =>
    ({ s.setRoomIds ids with searches := s.searches ++ searches }, searches.map .getEvents)
  | none => (s, [.trap])

/-- `getRooms` passes on a decoded list only when it is not empty. -/
def roomAnswered (poll : Nat) (items : Option (List Room)) (s : State) : State × List Effect :=
  match items with
  | some rooms => if rooms.isEmpty then (s, []) else deliver δ poll rooms s
  | none => (s, [])

def searchAnswered (search : Search) (events : Option (List Event)) (s : State) :
    State × List Effect :=
  match events with
  | some events =>
    let r := announce search events s.roomIds
    (s.setRoomIds r.1, r.2)
  | none => (s, [])

def step (s : State) : Input → State × List Effect
  | .fetchRoom =>
    ({ s with sent := s.sent + 1, polls := s.polls ++ [s.sent] }, [.getRoom s.sent])
  | .roomAnswer index items =>
    match s.polls[index]? with
    | some poll => roomAnswered δ poll items { s with polls := s.polls.eraseIdx index }
    | none => (s, [])
  | .searchAnswer index events =>
    match s.searches[index]? with
    | some search => searchAnswered search events { s with searches := s.searches.eraseIdx index }
    | none => (s, [])
  | .session .relaunch =>
    ({ user := UserModel.init s.user.defaults, rooms := [], sent := s.sent, polls := [],
       searches := [] }, [])
  | .session i =>
    let r := UserModel.act s.user i
    ({ s with user := r.1 }, r.2.map .session)

def machine : Machine State Input Effect := ⟨step δ⟩

end

end Karupasu.Root.Rooms
