import Karupasu.Library.KeyedList
import Karupasu.Library.Machine
import Karupasu.Records

/-!
# The event list: `EventCollectionViewStream`

A bookmark sends a favorite request and, when it is accepted, a details request. What the
tap has seen travels with the two requests: the whole list, the position, the event.
Requests are answered one at a time, in any order.
-/
namespace Karupasu.Event.Collection

open Karupasu.Library Karupasu.Library.KeyedList
open Karupasu.EventModel (Event)

/-- What the closures of a tap on a bookmark have captured. -/
structure Bookmark where
  items : List Event
  index : Nat
  item : Event
  valid : items[index]? = some item
  deriving DecidableEq

structure State where
  currentEvents : List Event
  showHeader : Bool
  /-- The favorite requests in flight. -/
  favorites : List Bookmark
  /-- The details requests in flight. -/
  details : List Bookmark

inductive Input where
  | setGenre (genre : String)
  | setEvents (events : List Event)
  | tapEvent (index : Nat)
  | tapBookmark (index : Nat)
  /-- An answer to a favorite request; errors arrive as `false`. -/
  | favoriteAnswer (index : Nat) (isSuccess : Bool)
  /-- An answer to a details request, or `none` for an error. -/
  | detailsAnswer (index : Nat) (event : Option Event)

inductive Effect where
  | setGenre (genre : String)
  | showHeader (isShown : Bool)
  | reloadDatasource (events : List Event)
  | showDetail (event : Event)
  | updateCell (event : Event) (index : Nat)
  | favoriteEvent (eventId : Int)
  | getEventDetails (eventId : Int)
  /-- A subscript out of range ends the process. -/
  | trap
  deriving DecidableEq

/-- `state.currentEvents.accept(events)` and the binding to `reloadDatasource`. -/
def accept (events : List Event) (s : State) : State × List Effect :=
  ({ s with currentEvents := events }, [.reloadDatasource events])

/-- `items[indexPath.item] = event` on the captured list, which is then written back. -/
def complete (b : Bookmark) (event : Event) (s : State) : State × List Effect :=
  let r := accept (b.items.set b.index event) s
  (r.1, .updateCell event b.index :: r.2)

def step (s : State) : Input → State × List Effect
  | .setGenre genre =>
    ({ s with showHeader := !genre.isEmpty }, [.setGenre genre, .showHeader (!genre.isEmpty)])
  | .setEvents events => accept events s
  | .tapEvent index =>
    match s.currentEvents[index]? with
    | some item => (s, [.showDetail item])
    | none => (s, [.trap])
  | .tapBookmark index =>
    match h : s.currentEvents[index]? with
    | some item =>
      ({ s with favorites := s.favorites ++ [⟨s.currentEvents, index, item, h⟩] },
        [.favoriteEvent item.id])
    | none => (s, [.trap])
  | .favoriteAnswer index isSuccess =>
    match s.favorites[index]? with
    | some b =>
      let s := { s with favorites := s.favorites.eraseIdx index }
      if isSuccess then
        ({ s with details := s.details ++ [b] }, [.getEventDetails b.item.id])
      else complete b b.item s
    | none => (s, [])
  | .detailsAnswer index event =>
    match s.details[index]?, event with
    | some b, some event => complete b event { s with details := s.details.eraseIdx index }
    | some _, none => ({ s with details := s.details.eraseIdx index }, [])
    | none, _ => (s, [])

def machine : Machine State Input Effect := ⟨step⟩

def start : State := ⟨[], false, [], []⟩

/-! ## Completions -/

/-- What the list should be after an input that completes a bookmark, given the list just
before it; `none` for the other inputs. -/
def expected (s : State) : Input → Option (List Event)
  | .favoriteAnswer index false =>
    match s.favorites[index]? with
    | some _ => some s.currentEvents
    | none => none
  | .detailsAnswer index (some event) =>
    match s.details[index]? with
    | some b => some (replaceKey Event.id b.item.id event s.currentEvents)
    | none => none
  | _ => none

/-- A completion changes the entry of its event and nothing else. -/
def NoLostUpdate (s : State) (i : Input) : Prop :=
  ∀ events, expected s i = some events → (machine.next s i).currentEvents = events

/-- The list has not changed since the tap, except that the entry tapped, which is the only
one with its id, may have been replaced by another version of the event. -/
def UpToDate (s : State) : Input → Prop
  | .favoriteAnswer index false =>
    ∀ b, s.favorites[index]? = some b → b.items = s.currentEvents
  | .detailsAnswer index (some _) =>
    ∀ b, s.details[index]? = some b →
      OnlyAt Event.id b.items b.index b.item.id ∧
        ∃ x : Event, x.id = b.item.id ∧ s.currentEvents = b.items.set b.index x
  | _ => True

/-- The list given to `setEvents` has pairwise distinct ids. -/
def DistinctIds : Input → Prop
  | .setEvents events => (events.map (·.id)).Nodup
  | _ => True

/-- The server answers a details request with the event asked for. -/
def AnswersAsked (s : State) : Input → Prop
  | .detailsAnswer index (some event) => ∀ b, s.details[index]? = some b → event.id = b.item.id
  | _ => True

theorem set_item (b : Bookmark) : b.items.set b.index b.item = b.items := by
  obtain ⟨hlt, hget⟩ := List.getElem?_eq_some_iff.mp b.valid
  rw [← hget]
  exact List.set_getElem_self hlt

theorem map_id_set {b : Bookmark} {event : Event} (h : event.id = b.item.id) :
    (b.items.set b.index event).map (·.id) = b.items.map (·.id) := by
  have hs := congrArg (List.map (·.id)) (set_item b)
  rw [List.map_set] at hs ⊢
  rw [h, hs]

theorem next_favoriteAnswer {s : State} {index : Nat} {b : Bookmark}
    (h : s.favorites[index]? = some b) :
    (machine.next s (.favoriteAnswer index false)).currentEvents = b.items := by
  simp only [Machine.next, machine, step, h, complete, accept]
  exact set_item b

theorem next_detailsAnswer {s : State} {index : Nat} {b : Bookmark}
    (h : s.details[index]? = some b) (event : Event) :
    (machine.next s (.detailsAnswer index (some event))).currentEvents =
      b.items.set b.index event := by
  simp only [Machine.next, machine, step, h, complete, accept]

theorem noLostUpdate_of_upToDate (s : State) (i : Input) (h : UpToDate s i) :
    NoLostUpdate s i := by
  intro events he
  match i with
  | .favoriteAnswer index false =>
    cases hget : s.favorites[index]? with
    | none => simp [expected, hget] at he
    | some b =>
      simp only [expected, hget, Option.some.injEq] at he
      rw [next_favoriteAnswer hget, ← he]
      exact h b hget
  | .detailsAnswer index (some event) =>
    cases hget : s.details[index]? with
    | none => simp [expected, hget] at he
    | some b =>
      simp only [expected, hget, Option.some.injEq] at he
      obtain ⟨honly, x, hx, hcur⟩ := h b hget
      rw [next_detailsAnswer hget, ← he, hcur, replaceKey_set honly hx]

/-- Every list in play has pairwise distinct ids. -/
structure Distinct (s : State) : Prop where
  current : (s.currentEvents.map (·.id)).Nodup
  favorites : ∀ b ∈ s.favorites, (b.items.map (·.id)).Nodup
  details : ∀ b ∈ s.details, (b.items.map (·.id)).Nodup

theorem distinct_step (s : State) (i : Input) (h : Distinct s)
    (hd : DistinctIds i ∧ AnswersAsked s i) : Distinct (machine.next s i) := by
  obtain ⟨hc, hf, hdet⟩ := h
  cases i with
  | setGenre genre => exact ⟨hc, hf, hdet⟩
  | setEvents events => exact ⟨hd.1, hf, hdet⟩
  | tapEvent index =>
    simp only [Machine.next, machine, step]
    split <;> exact ⟨hc, hf, hdet⟩
  | tapBookmark index =>
    simp only [Machine.next, machine, step]
    split
    · exact ⟨hc, List.forall_mem_append.mpr ⟨hf, List.forall_mem_singleton.mpr hc⟩, hdet⟩
    · exact ⟨hc, hf, hdet⟩
  | favoriteAnswer index isSuccess =>
    cases hget : s.favorites[index]? with
    | none =>
      simp only [Machine.next, machine, step, hget]
      exact ⟨hc, hf, hdet⟩
    | some b =>
      have hb := hf b (List.mem_of_getElem? hget)
      have hf' : ∀ a ∈ s.favorites.eraseIdx index, (a.items.map (·.id)).Nodup :=
        fun a ha => hf a (List.mem_of_mem_eraseIdx ha)
      cases isSuccess with
      | true =>
        simp only [Machine.next, machine, step, hget, if_true]
        exact ⟨hc, hf', List.forall_mem_append.mpr ⟨hdet, List.forall_mem_singleton.mpr hb⟩⟩
      | false =>
        simp only [Machine.next, machine, step, hget, Bool.false_eq_true, if_false, complete, accept]
        exact ⟨(map_id_set rfl).symm ▸ hb, hf', hdet⟩
  | detailsAnswer index event =>
    have hdet' : ∀ a ∈ s.details.eraseIdx index, (a.items.map (·.id)).Nodup :=
      fun a ha => hdet a (List.mem_of_mem_eraseIdx ha)
    cases hget : s.details[index]? with
    | none =>
      simp only [Machine.next, machine, step, hget]
      exact ⟨hc, hf, hdet⟩
    | some b =>
      cases event with
      | none =>
        simp only [Machine.next, machine, step, hget]
        exact ⟨hc, hf, hdet'⟩
      | some event =>
        simp only [Machine.next, machine, step, hget, complete, accept]
        refine ⟨?_, hf, hdet'⟩
        rw [map_id_set (hd.2 b hget)]
        exact hdet b (List.mem_of_getElem? hget)

theorem upToDate_iff (s : State) (i : Input) (h : Distinct s)
    (hd : DistinctIds i ∧ AnswersAsked s i) : NoLostUpdate s i ↔ UpToDate s i := by
  refine ⟨fun hn => ?_, noLostUpdate_of_upToDate s i⟩
  match i with
  | .favoriteAnswer index false =>
    intro b hget
    rw [← next_favoriteAnswer hget]
    exact hn s.currentEvents (by simp [expected, hget])
  | .detailsAnswer index (some event) =>
    intro b hget
    have hid := hd.2 b hget
    have honly := onlyAt_of_nodup (h.details b (List.mem_of_getElem? hget)) b.valid
    have he := hn (replaceKey Event.id b.item.id event s.currentEvents)
      (by simp only [expected, hget])
    rw [next_detailsAnswer hget] at he
    obtain ⟨hlt, _⟩ := List.getElem?_eq_some_iff.mp b.valid
    exact ⟨honly, eq_set_of_replaceKey hlt honly hid he.symm⟩
  | .favoriteAnswer _ true => trivial
  | .detailsAnswer _ none => trivial
  | .setGenre _ => trivial
  | .setEvents _ => trivial
  | .tapEvent _ => trivial
  | .tapBookmark _ => trivial

/-- A run loses no update when each completion finds the list of its tap; where the lists
have distinct ids and the server answers with the event asked for, only then. -/
theorem bookmarks_lose_no_update (is : List Input) :
    (machine.Along UpToDate start is → machine.Along NoLostUpdate start is) ∧
      ((∀ i ∈ is, DistinctIds i) → machine.Along AnswersAsked start is →
        machine.Along NoLostUpdate start is → machine.Along UpToDate start is) := by
  refine ⟨Machine.Along.mono noLostUpdate_of_upToDate, fun hd ha => ?_⟩
  have h0 : Distinct start := ⟨List.nodup_nil, by simp [start], by simp [start]⟩
  have hda := (machine.along_and _ _ start is).mpr ⟨machine.along_of_forall start hd, ha⟩
  exact (machine.along_congr distinct_step upToDate_iff h0 hda).mp

/-- An event for runs on fixed inputs. -/
def namedEvent (id : Int) (isBookmark : Int) : Event :=
  ⟨id, "event", "", 0, 0, none, some isBookmark, none, 4, none, none⟩

/-- Two bookmarks in turn: each is accepted and answered, then a third is refused. -/
def bookmarkedInTurn : List Input :=
  [.setEvents [namedEvent 1 0, namedEvent 2 0], .tapBookmark 0, .favoriteAnswer 0 true,
    .detailsAnswer 0 (some (namedEvent 1 1)), .tapBookmark 1, .favoriteAnswer 0 true,
    .detailsAnswer 0 (some (namedEvent 2 1)), .tapBookmark 0, .favoriteAnswer 0 false]

theorem bookmarks_lose_no_update_inTurn :
    (machine.run start bookmarkedInTurn).currentEvents = [namedEvent 1 1, namedEvent 2 1] ∧
      machine.Along NoLostUpdate start bookmarkedInTurn ∧
      machine.Along UpToDate start bookmarkedInTurn := by
  have hu : machine.Along UpToDate start bookmarkedInTurn := by
    refine ⟨trivial, trivial, trivial, ?_, trivial, trivial, ?_, trivial, ?_, trivial⟩
    · intro b hget
      cases hget
      exact ⟨onlyAt_of_nodup (i := 0) (x := namedEvent 1 0) (by decide) rfl, namedEvent 1 0, rfl,
        rfl⟩
    · intro b hget
      cases hget
      exact ⟨onlyAt_of_nodup (i := 1) (x := namedEvent 2 0) (by decide) rfl, namedEvent 2 0, rfl,
        rfl⟩
    · intro b hget
      cases hget
      rfl
  have hd : ∀ i ∈ bookmarkedInTurn, DistinctIds i := by
    simp [bookmarkedInTurn, DistinctIds, namedEvent]
  have ha : machine.Along AnswersAsked start bookmarkedInTurn := by
    refine ⟨trivial, trivial, trivial, ?_, trivial, trivial, ?_, trivial, trivial, trivial⟩
    · intro b hget
      cases hget
      rfl
    · intro b hget
      cases hget
      rfl
  obtain ⟨hif, hiff⟩ := bookmarks_lose_no_update bookmarkedInTurn
  exact ⟨by decide, hif hu, hiff hd ha (hif hu)⟩

/-- Two bookmarks that overlap: the second completion writes back the list of its tap and
with it the entry that the first has just replaced. -/
theorem second_bookmark_reverts_first :
    let is := [.setEvents [namedEvent 1 0, namedEvent 2 0], .tapBookmark 0, .tapBookmark 1,
      .favoriteAnswer 0 true, .favoriteAnswer 0 true, .detailsAnswer 0 (some (namedEvent 1 1))]
    let last := Input.detailsAnswer 0 (some (namedEvent 2 1))
    let s := machine.run start is
    s.currentEvents = [namedEvent 1 1, namedEvent 2 0] ∧
      (machine.next s last).currentEvents = [namedEvent 1 0, namedEvent 2 1] ∧
      ¬machine.Along NoLostUpdate start (is ++ [last]) := by
  intro is last s
  have hcur : s.currentEvents = [namedEvent 1 1, namedEvent 2 0] := by decide
  have hnext : (machine.next s last).currentEvents = [namedEvent 1 0, namedEvent 2 1] := by decide
  refine ⟨hcur, hnext, fun h => ?_⟩
  have hs : NoLostUpdate s last := h.at
  have he := hs [namedEvent 1 1, namedEvent 2 1] (by decide)
  rw [hnext] at he
  exact absurd he (by decide)

end Karupasu.Event.Collection
