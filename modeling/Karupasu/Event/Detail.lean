import Karupasu.Library.Machine
import Karupasu.Records

/-!
# The detail screen: `EventDetailViewStream`

One stream serves every event opened from a list. Opening an event, reloading the screen
and a bookmark each send requests whose answers overwrite `currentEvent`; requests are
answered one at a time, in any order.
-/
namespace Karupasu.Event.Detail

open Karupasu.Library
open Karupasu.EventModel (Event)

/-- The subscription that sent a details request. -/
inductive Origin where
  | setEvent
  | tapBookmark
  | reloadView
  deriving DecidableEq

structure DetailsRequest where
  origin : Origin
  eventId : Int
  deriving DecidableEq

structure State where
  currentEvent : Option Event
  /-- The events captured by the favorite requests in flight. -/
  favorites : List Event
  /-- The details requests in flight. -/
  details : List DetailsRequest

inductive Input where
  | setEvent (event : Event)
  | tapApplyButton
  | tapCancelButton
  | tapEditButton
  | tapBookmark
  | reloadTable
  | reloadView
  /-- An answer to a favorite request; errors arrive as `false`. -/
  | favoriteAnswer (index : Nat) (isSuccess : Bool)
  /-- An answer to a details request, or `none` for an error. -/
  | detailsAnswer (index : Nat) (event : Option Event)

inductive Effect where
  | reloadView (event : Event)
  | reloadTable (event : Event)
  | showApply (event : Event)
  | showEditBtn
  | showEdit (event : Event)
  | favoriteEvent (eventId : Int)
  | getEventDetails (eventId : Int)
  deriving DecidableEq

/-- `state.currentEvent.accept(event)` and the subscription to it. -/
def accept (event : Event) (s : State) : State × List Effect :=
  ({ s with currentEvent := some event }, [.reloadView event, .reloadTable event])

def request (origin : Origin) (eventId : Int) (s : State) : State × List Effect :=
  ({ s with details := s.details ++ [⟨origin, eventId⟩] }, [.getEventDetails eventId])

/-- `guard let event = state.currentEvent.value else { return }` -/
def withCurrent (f : Event → State → State × List Effect) (s : State) : State × List Effect :=
  match s.currentEvent with
  | some event => f event s
  | none => (s, [])

/-- The answer to a details request. -/
def detailsAnswered (origin : Origin) (event : Event) (s : State) : State × List Effect :=
  let r := accept event s
  match origin with
  | .setEvent =>
    (r.1, r.2 ++ [.reloadView event, .reloadTable event] ++
      if event.isHost.getD 0 = 1 then [.showEditBtn] else [])
  | .tapBookmark | .reloadView => r

def step (s : State) : Input → State × List Effect
  | .setEvent event =>
    let r := request .setEvent event.id s
    let r' := accept event r.1
    (r'.1, r.2 ++ r'.2)
  | .tapApplyButton => withCurrent (fun event s => (s, [.showApply event])) s
  | .tapCancelButton => withCurrent (fun event s => (s, [.showApply event])) s
  | .tapEditButton => withCurrent (fun event s => (s, [.showEdit event])) s
  | .tapBookmark =>
    withCurrent
      (fun event s => ({ s with favorites := s.favorites ++ [event] }, [.favoriteEvent event.id])) s
  | .reloadTable => withCurrent (fun event s => (s, [.reloadTable event])) s
  | .reloadView => withCurrent (fun event s => request .reloadView event.id s) s
  | .favoriteAnswer index isSuccess =>
    match s.favorites[index]? with
    | some event =>
      let s := { s with favorites := s.favorites.eraseIdx index }
      if isSuccess then request .tapBookmark event.id s else accept event s
    | none => (s, [])
  | .detailsAnswer index event =>
    match s.details[index]? with
    | some r =>
      let s := { s with details := s.details.eraseIdx index }
      match event with
      | some event => detailsAnswered r.origin event s
      | none => (s, [])
    | none => (s, [])

def machine : Machine State Input Effect := ⟨step⟩

def start : State := ⟨none, [], []⟩

/-! ## The event the user opened -/

/-- The id given by the latest `setEvent`. -/
def recordOpened (_ : State) (i : Input) (opened : Option Int) : Option Int :=
  match i with
  | .setEvent event => some event.id
  | _ => opened

/-- The server answers a details request with the event asked for. -/
def AnswersAsked (s : State) : Input → Prop
  | .detailsAnswer index (some event) =>
    ∀ r, s.details[index]? = some r → event.id = r.eventId
  | _ => True

def ShowsOpened (p : State × Option Int) : Prop := p.1.currentEvent.map (·.id) = p.2

/-- The output of a button. -/
def buttonOutput : Input → Option (Event → Effect)
  | .tapApplyButton | .tapCancelButton => some .showApply
  | .tapEditButton => some .showEdit
  | _ => none

/-- The three buttons hand on the event that was opened: no other one, and none of them fails to
once an event has been opened. -/
def EmitsOpened (p : State × Option Int) (i : Input) : Prop :=
  (∀ event, .showApply event ∈ machine.emit p.1 i ∨ .showEdit event ∈ machine.emit p.1 i →
    p.2 = some event.id) ∧
  ∀ output id, buttonOutput i = some output → p.2 = some id →
    ∃ event, event.id = id ∧ machine.emit p.1 i = [output event]

/-- Refused favorites and details answers arrive while their event is still current. -/
def ForCurrent (s : State) : Input → Prop
  | .favoriteAnswer index false =>
    ∀ event, s.favorites[index]? = some event → s.currentEvent.map (·.id) = some event.id
  | .detailsAnswer index (some _) =>
    ∀ r, s.details[index]? = some r → s.currentEvent.map (·.id) = some r.eventId
  | _ => True

theorem currentEvent_withCurrent {f : Event → State → State × List Effect} (s : State)
    (hf : ∀ event, (f event s).1.currentEvent = s.currentEvent) :
    (withCurrent f s).1.currentEvent = s.currentEvent := by
  unfold withCurrent
  split
  · exact hf _
  · rfl

theorem currentEvent_detailsAnswered (origin : Origin) (event : Event) (s : State) :
    (detailsAnswered origin event s).1.currentEvent = some event := by
  cases origin <;> rfl

/-- The inputs that leave `currentEvent` alone leave the event shown alone. -/
theorem showsOpened_of_eq {p : State × Option Int} {i : Input} (h : ShowsOpened p)
    (hc : (machine.next p.1 i).currentEvent = p.1.currentEvent)
    (ho : recordOpened p.1 i p.2 = p.2) :
    ShowsOpened ((machine.withHistory recordOpened).next p i) := by
  rw [Machine.next_withHistory]
  show (machine.next p.1 i).currentEvent.map (·.id) = recordOpened p.1 i p.2
  rw [hc, ho]
  exact h

/-- An input that puts an event in the place of the current one. -/
theorem showsOpened_iff_of_some {p : State × Option Int} {i : Input} (h : ShowsOpened p)
    {event : Event} (hc : (machine.next p.1 i).currentEvent = some event)
    (ho : recordOpened p.1 i p.2 = p.2) :
    ShowsOpened ((machine.withHistory recordOpened).next p i) ↔
      p.1.currentEvent.map (·.id) = some event.id := by
  rw [Machine.next_withHistory]
  show (machine.next p.1 i).currentEvent.map (·.id) = recordOpened p.1 i p.2 ↔ _
  rw [hc, ho, ← (show p.1.currentEvent.map (·.id) = p.2 from h)]
  exact eq_comm

theorem showsOpened_favoriteAnswer {p : State × Option Int} (h : ShowsOpened p) (index : Nat)
    (isSuccess : Bool) :
    ShowsOpened ((machine.withHistory recordOpened).next p (.favoriteAnswer index isSuccess)) ↔
      ForCurrent p.1 (.favoriteAnswer index isSuccess) := by
  cases hget : p.1.favorites[index]? with
  | none =>
    refine iff_of_true (showsOpened_of_eq h ?_ rfl) ?_
    · simp only [machine, Machine.next, step, hget]
    · cases isSuccess <;> simp [ForCurrent, hget]
  | some event =>
    cases isSuccess with
    | true =>
      refine iff_of_true (showsOpened_of_eq h ?_ rfl) trivial
      simp [machine, Machine.next, step, hget, request]
    | false =>
      have hc : (machine.next p.1 (.favoriteAnswer index false)).currentEvent = some event := by
        simp [machine, Machine.next, step, hget, accept]
      rw [showsOpened_iff_of_some h hc rfl]
      simp [ForCurrent, hget]

theorem showsOpened_detailsAnswer {p : State × Option Int} (h : ShowsOpened p) (index : Nat)
    (event : Option Event) (ha : AnswersAsked p.1 (.detailsAnswer index event)) :
    ShowsOpened ((machine.withHistory recordOpened).next p (.detailsAnswer index event)) ↔
      ForCurrent p.1 (.detailsAnswer index event) := by
  cases hget : p.1.details[index]? with
  | none =>
    refine iff_of_true (showsOpened_of_eq h ?_ rfl) ?_
    · simp only [machine, Machine.next, step, hget]
    · cases event <;> simp [ForCurrent, hget]
  | some r =>
    cases event with
    | none =>
      refine iff_of_true (showsOpened_of_eq h ?_ rfl) trivial
      simp only [machine, Machine.next, step, hget]
    | some event =>
      have hc : (machine.next p.1 (.detailsAnswer index (some event))).currentEvent =
          some event := by
        simp only [machine, Machine.next, step, hget, currentEvent_detailsAnswered]
      rw [showsOpened_iff_of_some h hc rfl, ha r hget]
      simp [ForCurrent, hget]

theorem showsOpened_step (p : State × Option Int) (i : Input) (h : ShowsOpened p)
    (ha : AnswersAsked p.1 i) :
    ShowsOpened ((machine.withHistory recordOpened).next p i) ↔ ForCurrent p.1 i := by
  cases i with
  | setEvent event => exact iff_of_true rfl trivial
  | favoriteAnswer index isSuccess => exact showsOpened_favoriteAnswer h index isSuccess
  | detailsAnswer index event => exact showsOpened_detailsAnswer h index event ha
  | _ =>
    exact iff_of_true (showsOpened_of_eq h (currentEvent_withCurrent p.1 fun _ => rfl) rfl) trivial

/-- What a button hands on is the current event. -/
theorem currentEvent_of_emit {s : State} {i : Input} {event : Event}
    (h : .showApply event ∈ machine.emit s i ∨ .showEdit event ∈ machine.emit s i) :
    s.currentEvent = some event := by
  cases i with
  | setEvent opened => simp [machine, Machine.emit, step, request, accept] at h
  | favoriteAnswer index isSuccess =>
    simp only [machine, Machine.emit, step] at h
    split at h
    · split at h <;> simp [request, accept] at h
    · simp at h
  | detailsAnswer index answer =>
    simp only [machine, Machine.emit, step] at h
    split at h
    · rename_i r _
      split at h
      · cases hr : r.origin <;> simp [detailsAnswered, accept, hr] at h
      · simp at h
    · simp at h
  | tapBookmark | reloadTable | reloadView =>
    cases hc : s.currentEvent <;>
      simp [machine, Machine.emit, step, withCurrent, request, hc] at h
  | tapApplyButton | tapCancelButton | tapEditButton =>
    cases hc : s.currentEvent with
    | none => simp [machine, Machine.emit, step, withCurrent, hc] at h
    | some current =>
      simp [machine, Machine.emit, step, withCurrent, hc] at h
      rw [h]

theorem emit_button {s : State} {i : Input} {output : Event → Effect} {event : Event}
    (hi : buttonOutput i = some output) (hc : s.currentEvent = some event) :
    machine.emit s i = [output event] := by
  cases i with
  | tapApplyButton | tapCancelButton | tapEditButton =>
    obtain rfl := Option.some.inj hi
    simp [machine, Machine.emit, step, withCurrent, hc]
  | _ => exact nomatch hi

theorem emitsOpened (p : State × Option Int) (i : Input) (h : ShowsOpened p) :
    EmitsOpened p i := by
  have hopened : p.1.currentEvent.map (·.id) = p.2 := h
  constructor
  · intro event he
    rw [← hopened, currentEvent_of_emit he]
    rfl
  · intro output id hi hid
    rw [hid] at hopened
    obtain ⟨event, hc, he⟩ := Option.map_eq_some_iff.mp hopened
    exact ⟨event, he, emit_button hi hc⟩

/-- With a server that answers what it was asked, every state of a run shows the event
opened last exactly when each refused favorite and each details answer arrives while its
event is current; the buttons then always hand on the event opened last, and nothing else. -/
theorem shows_opened_iff (is : List Input) (ha : machine.Along AnswersAsked start is) :
    ((machine.withHistory recordOpened).Always ShowsOpened (start, none) is ↔
        machine.Along ForCurrent start is) ∧
      (machine.Along ForCurrent start is →
        (machine.withHistory recordOpened).Along EmitsOpened (start, none) is) := by
  have ha' := (machine.along_withHistory AnswersAsked recordOpened start none is).mpr ha
  have hiff := (machine.withHistory recordOpened).always_iff_along (I := fun _ => True)
    (fun _ _ _ _ _ => trivial) (fun p i _ h ha => showsOpened_step p i h ha) trivial
    (show ShowsOpened (start, none) from rfl) ha'
  rw [machine.along_withHistory] at hiff
  exact ⟨hiff, fun h => (hiff.mpr h).along emitsOpened⟩

/-- An event for runs on fixed inputs. -/
def plainEvent (id : Int) : Event :=
  ⟨id, "event", "", 0, 0, none, none, none, 4, none, none⟩

/-- Event 1 is opened and answered, then event 2. -/
def openedInTurn : List Input :=
  [.setEvent (plainEvent 1), .detailsAnswer 0 (some (plainEvent 1)), .setEvent (plainEvent 2),
    .tapApplyButton]

theorem shows_opened_iff_inTurn :
    ((machine.withHistory recordOpened).Always ShowsOpened (start, none) openedInTurn ↔
        machine.Along ForCurrent start openedInTurn) ∧
      (machine.Along ForCurrent start openedInTurn →
        (machine.withHistory recordOpened).Along EmitsOpened (start, none) openedInTurn) := by
  refine shows_opened_iff openedInTurn ⟨trivial, ?_, trivial, trivial, trivial⟩
  intro r hget
  cases hget
  rfl

/-- Event 2 is opened before the details of event 1 have arrived. -/
def openedTooSoon : List Input :=
  [.setEvent (plainEvent 1), .setEvent (plainEvent 2), .detailsAnswer 0 (some (plainEvent 1))]

/-- The late details put event 1 back on the screen, and the button applies for it. -/
theorem late_details_switch_event :
    machine.history recordOpened start none openedTooSoon = some 2 ∧
      (machine.run start openedTooSoon).currentEvent = some (plainEvent 1) ∧
      machine.emit (machine.run start openedTooSoon) .tapApplyButton =
        [.showApply (plainEvent 1)] ∧
      ¬(machine.withHistory recordOpened).Always ShowsOpened (start, none) openedTooSoon := by
  have ho : machine.history recordOpened start none openedTooSoon = some 2 := by decide
  have hc : (machine.run start openedTooSoon).currentEvent = some (plainEvent 1) := by decide
  refine ⟨ho, hc, by decide, fun h => ?_⟩
  have hl := h.last
  rw [Machine.run_withHistory] at hl
  change (machine.run start openedTooSoon).currentEvent.map (·.id) =
    machine.history recordOpened start none openedTooSoon at hl
  rw [ho, hc] at hl
  exact absurd hl (by decide)

end Karupasu.Event.Detail
