import Karupasu.Library.KeyedList
import Karupasu.Root.RoomIds

/-!
# The talk room list: `TalkRoomViewStream` next to `RootViewStream`

The list is computed from the relay of the rooms and from the persisted `roomIds`, but only
when the relay emits. `RootViewStream` has subscribed to the relay first, so its handler has
dealt with a new list of rooms by the time `TalkRoomViewStream` reads `roomIds`.
-/
namespace Karupasu.Chat.TalkRooms

open Karupasu.Library
open Karupasu.EventModel (Event)
open Karupasu.RoomModel (Room)
open Karupasu.Root

structure State where
  root : Rooms.State
  /-- `currentRooms`, which is bound to `reloadDatasource`; nil until the stream is created. -/
  reloadDatasource : Option (List Room)

inductive Input where
  /-- A `TalkRoomViewStream` is created, and takes the place of an earlier one. -/
  | create
  | root (i : Rooms.Input)

/-- The rooms of the relay whose id is in `roomIds`, in the order of the relay. -/
def matched (s : Rooms.State) : List Room :=
  s.rooms.filter fun room => s.roomIds.contains room.roomId

/-- The step makes the relay of the rooms emit. -/
def emits (s : Rooms.State) : Rooms.Input → Bool
  | .roomAnswer index (some rooms) => s.polls[index]?.isSome && !rooms.isEmpty
  | _ => false

section

variable (δ : Differ Int)

def step (s : State) : Input → State × List Rooms.Effect
  | .create => ({ s with reloadDatasource := some (matched s.root) }, [])
  | .root (.session .relaunch) =>
    let r := Rooms.step δ s.root (.session .relaunch)
    (⟨r.1, none⟩, r.2)
  | .root i =>
    let r := Rooms.step δ s.root i
    let reloadDatasource :=
      if emits s.root i then s.reloadDatasource.map fun _ => matched r.1 else s.reloadDatasource
    (⟨r.1, reloadDatasource⟩, r.2)

def machine : Machine State Input Rooms.Effect := ⟨step δ⟩

end

/-- No `TalkRoomViewStream` has been created. -/
def unopened (root : Rooms.State) : State := ⟨root, none⟩

/-! ## When the list is current -/

def ShowsMatched (s : State) : Prop :=
  ∀ rooms, s.reloadDatasource = some rooms → rooms = matched s.root

/-- While there is a list, an answered search finds nothing for its room, or the room is known
already or not listed; and a session that clears the stored data finds no room in the list. -/
def AddsNothingListed (s : State) : Input → Prop
  | .root (.searchAnswer index (some events)) =>
    s.reloadDatasource.isSome → ∀ search, s.root.searches[index]? = some search →
      Rooms.matching search events = [] ∨ search.roomId ∈ s.root.roomIds ∨
        search.roomId ∉ s.root.rooms.map (·.roomId)
  | .root (.session .relaunch) => True
  | .root (.session i) =>
    s.reloadDatasource.isSome → Rooms.logsOut s.root.user i →
      ∀ room ∈ s.root.rooms, room.roomId ∉ s.root.roomIds
  | _ => True

section

variable (δ : Differ Int)

theorem step_root {i : Rooms.Input} (hi : i ≠ .session .relaunch) (s : State) :
    (machine δ).next s (.root i) = ⟨(Rooms.machine δ).next s.root i,
      if emits s.root i then
        s.reloadDatasource.map fun _ => matched ((Rooms.machine δ).next s.root i)
      else s.reloadDatasource⟩ := by
  cases i with
  | session i =>
    cases i with
    | relaunch => exact absurd rfl hi
    | _ => rfl
  | _ => rfl

/-- When the relay emits, the list is computed from what the first subscriber has left. -/
theorem showsMatched_of_emits (s : State) {i : Rooms.Input} (he : emits s.root i = true) :
    ShowsMatched ((machine δ).next s (.root i)) := by
  have hi : i ≠ .session .relaunch := by
    rintro rfl
    cases he
  rw [step_root δ hi, if_pos he]
  intro rooms hrooms
  obtain ⟨_, -, hmatched⟩ := Option.map_eq_some_iff.mp hrooms
  exact hmatched.symm

/-- When it does not, the list is as before, and current exactly if nothing else has changed. -/
theorem showsMatched_next_iff {s : State} (h : ShowsMatched s) {i : Rooms.Input}
    (hi : i ≠ .session .relaunch) (he : emits s.root i = false) :
    ShowsMatched ((machine δ).next s (.root i)) ↔
      (s.reloadDatasource.isSome → matched s.root = matched ((Rooms.machine δ).next s.root i)) := by
  rw [step_root δ hi, he, if_neg Bool.false_ne_true]
  constructor
  · intro hs hsome
    obtain ⟨rooms, hrooms⟩ := Option.isSome_iff_exists.mp hsome
    rw [← h rooms hrooms]
    exact hs rooms hrooms
  · intro hm rooms hrooms
    rw [h rooms hrooms]
    exact hm (by rw [hrooms]; rfl)

theorem matched_setRoomIds (s : Rooms.State) (ids : List Int) :
    matched (s.setRoomIds ids) = s.rooms.filter fun room => ids.contains room.roomId := by
  rw [matched, Rooms.roomIds_setRoomIds]
  rfl

theorem matched_searchAnswer_iff (s : Rooms.State) (index : Nat) (events : List Event) :
    matched s = matched ((Rooms.machine δ).next s (.searchAnswer index (some events))) ↔
      ∀ search, s.searches[index]? = some search → Rooms.matching search events = [] ∨
        search.roomId ∈ s.roomIds ∨ search.roomId ∉ s.rooms.map (·.roomId) := by
  rcases Rooms.searchAnswer_cases δ s index (some events) with
    ⟨hnone, hnext⟩ | ⟨hevents, -⟩ | ⟨search, found, hget, hevents, hnext⟩
  · rw [hnext, hnone]
    exact iff_of_true rfl fun search hsearch => nomatch hsearch
  · cases hevents
  · obtain rfl := Option.some.inj hevents
    rw [hnext, matched_setRoomIds, hget]
    have happend := KeyedList.filter_contains_append_iff Room.roomId s.rooms s.roomIds
      (Rooms.matching search events).length search.roomId
    rw [List.length_eq_zero_iff] at happend
    constructor
    · rintro heq _ ⟨⟩
      exact happend.mp heq
    · intro hall
      exact happend.mpr (hall search rfl)

theorem matched_session_iff (s : Rooms.State) {i : UserModel.Input} (hi : i ≠ .relaunch) :
    matched s = matched ((Rooms.machine δ).next s (.session i)) ↔
      (Rooms.logsOut s.user i → ∀ room ∈ s.rooms, room.roomId ∉ s.roomIds) := by
  have hrooms : ((Rooms.machine δ).next s (.session i)).rooms = s.rooms := by
    cases i with
    | relaunch => exact absurd rfl hi
    | _ => rfl
  rw [matched, matched, hrooms, Rooms.roomIds_session, KeyedList.filter_eq_filter_iff]
  cases hout : Rooms.logsOut s.user i with
  | false => simp
  | true => simp

/-- An answer that the relay does not pass on changes neither the rooms nor `roomIds`. -/
theorem matched_roomAnswer (s : Rooms.State) {index : Nat} {items : Option (List Room)}
    (he : emits s (.roomAnswer index items) = false) :
    matched s = matched ((Rooms.machine δ).next s (.roomAnswer index items)) := by
  rcases Rooms.roomAnswer_cases δ s index items with
    ⟨_, hnext⟩ | ⟨_, hnext⟩ | ⟨poll, rooms, _, _, hpoll, hitems, hne, _⟩
  · rw [hnext]
  · rw [hnext]
    rfl
  · subst hitems
    simp [emits, hpoll, hne] at he

theorem matched_searchAnswer_none (s : Rooms.State) (index : Nat) :
    matched s = matched ((Rooms.machine δ).next s (.searchAnswer index none)) := by
  rcases Rooms.searchAnswer_cases δ s index none with
    ⟨_, hnext⟩ | ⟨_, hnext⟩ | ⟨_, _, _, hevents, _⟩
  · rw [hnext]
  · rw [hnext]
    rfl
  · cases hevents

theorem showsMatched_step_iff (s : State) (i : Input) (h : ShowsMatched s) :
    ShowsMatched ((machine δ).next s i) ↔ AddsNothingListed s i := by
  cases i with
  | create =>
    refine iff_of_true (fun rooms hrooms => ?_) trivial
    exact (Option.some.inj hrooms).symm
  | root i =>
    cases i with
    | fetchRoom =>
      refine iff_of_true ?_ trivial
      exact (showsMatched_next_iff δ h (i := .fetchRoom) (fun he => nomatch he) rfl).mpr
        fun _ => rfl
    | roomAnswer index items =>
      refine iff_of_true ?_ trivial
      cases he : emits s.root (.roomAnswer index items) with
      | true => exact showsMatched_of_emits δ s he
      | false =>
        have hiff := showsMatched_next_iff δ h (i := .roomAnswer index items) (fun he => nomatch he) he
        exact hiff.mpr fun _ => matched_roomAnswer δ s.root he
    | searchAnswer index events =>
      rw [showsMatched_next_iff δ h (i := .searchAnswer index events) (fun he => nomatch he) rfl]
      cases events with
      | none => exact iff_of_true (fun _ => matched_searchAnswer_none δ s.root index) trivial
      | some events => rw [matched_searchAnswer_iff, AddsNothingListed]
    | session i =>
      by_cases hi : i = .relaunch
      · subst hi
        exact iff_of_true (fun rooms hrooms => nomatch hrooms) trivial
      · have hne : Rooms.Input.session i ≠ .session .relaunch := fun he =>
          hi (Rooms.Input.session.inj he)
        rw [showsMatched_next_iff δ h hne rfl, matched_session_iff δ s.root hi]
        cases i with
        | relaunch => exact absurd rfl hi
        | _ => exact Iff.rfl

/-- In every state of a run, whenever the list was created, it shows exactly the matched rooms,
exactly when no step makes a listed room matched or unmatched behind the back of the relay. -/
theorem list_shows_matched_iff (root : Rooms.State) (is : List Input) :
    (machine δ).Always ShowsMatched (unopened root) is ↔
      (machine δ).Along AddsNothingListed (unopened root) is := by
  have h0 : ShowsMatched (unopened root) := fun rooms hrooms => nomatch hrooms
  exact (machine δ).always_iff_along_of_step (showsMatched_step_iff δ) h0 is

end

/-- The list is open, room 1 is polled, and its search finds its event. -/
def matchedLater : List Input :=
  [.create, .root .fetchRoom, .root (.roomAnswer 0 (some [Rooms.soloRoom 1])),
    .root (.searchAnswer 0 (some [Rooms.soloEvent 7]))]

/-- Room 1 is matched, and the list stays empty. -/
theorem matched_room_is_not_listed :
    let s := (machine .viaLongest).run (unopened (Rooms.start (UserModel.init AppData.resetALL) []))
      matchedLater
    s.root.roomIds = [1] ∧ matched s.root = [Rooms.soloRoom 1] ∧ s.reloadDatasource = some [] ∧
      ¬(machine .viaLongest).Always ShowsMatched
        (unopened (Rooms.start (UserModel.init AppData.resetALL) [])) matchedLater := by
  intro s
  have hmatched : matched s.root = [Rooms.soloRoom 1] := by decide
  have hlist : s.reloadDatasource = some [] := by decide
  refine ⟨by decide, hmatched, hlist, fun h => ?_⟩
  have hs : ShowsMatched s := h.last
  have he := hs [] hlist
  rw [hmatched] at he
  cases he

end Karupasu.Chat.TalkRooms
