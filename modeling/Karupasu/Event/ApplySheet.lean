import Karupasu.Library.Difference
import Karupasu.Library.Machine
import Karupasu.Records

/-!
# The apply sheet

One `EventApplyViewController`, with its `EventApplyViewStream` and the
`EventOptionSelectViewStream` of its prefecture picker, serves every event of the
detail screen. The relays hand values on synchronously; requests are answered one at
a time, in any order. A sheet starts unloaded, with nothing in flight.
-/
namespace Karupasu.Event.ApplySheet

open Karupasu.Library
open Karupasu.EventModel (Event EventDetail)
open Karupasu.PrefectureModel (Prefecture)

/-- A row of the picker. -/
structure OptionSectionModel where
  data : Prefecture
  subData : Option EventDetail
  deriving DecidableEq

/-- The subscription of the picker that sent a details request. -/
inductive Origin where
  | setEvent
  | reloadView
  deriving DecidableEq

structure DetailsRequest where
  origin : Origin
  eventId : Int
  deriving DecidableEq

/-- `EventOptionSelectViewStream` -/
structure Picker where
  currenEvent : Option Event
  selectedOption : List Prefecture
  reloadDatasource : List OptionSectionModel
  selectOption : List Prefecture
  confirmOption : List Prefecture
  /-- The events captured by the subscriptions to `prefectures`; none is ever disposed of. -/
  subscriptions : List Event

structure State where
  /-- `viewDidLoad` has run. -/
  loaded : Bool
  optionFlag : Bool
  currenEvent : Option Event
  selectedOption : List Prefecture
  oldOption : List Prefecture
  picker : Picker
  /-- The value of `PrefectureModel.prefectures`. -/
  prefectures : List Prefecture
  /-- The details requests in flight. -/
  requests : List DetailsRequest
  /-- The events of the apply and cancel requests in flight. -/
  applying : List Event

inductive Input where
  /-- `EventDetailViewController.showApply` -/
  | showApply (event : Event)
  | tapPrefecture
  | tapConfirm
  /-- `selectOption` of the picker: the rows now selected. -/
  | pickerSelect (items : List Prefecture)
  /-- `tapConfirm` of the picker. -/
  | pickerConfirm
  /-- `reloadView` of the picker. -/
  | pickerReload
  /-- An answer to a details request, or `none` for an error. -/
  | detailsAnswer (index : Nat) (event : Option Event)
  /-- An answer to an apply or cancel request; errors arrive as `false`. -/
  | applyAnswer (index : Nat) (isSuccess : Bool)
  /-- An answer to `getPrefectures`, and the order in which the relay runs its subscriptions. -/
  | prefecturesAnswer (items : Option (List Prefecture)) (order : List Nat)

inductive Effect where
  | getEventDetails (eventId : Int)
  | applyEvent (eventId prefectureId : Int)
  | cancelEvent (eventId prefectureId : Int)
  | showOption (event : Event)
  | success (event : Event)
  /-- The names shown on the sheet; without any it asks to select. -/
  | prefectureLbl (names : List String)
  deriving DecidableEq

/-! ## The picker -/

def sectionModel (event : Event) (details : List EventDetail) (prefectures : List Prefecture) :
    List OptionSectionModel :=
  prefectures.map fun prefecture =>
    let detail := (details.filter (fun detail => detail.prefecture == prefecture.id)).head?
    { data := prefecture
      subData := detail.map fun detail =>
        { detail with maxParticipantsCount := some event.maxParticipantsCount } }

def joinPrefecture (rows : List OptionSectionModel) : List Prefecture :=
  (rows.filter fun model => ((model.subData.map (·.isJoined)).getD 0) == 1).map (·.data)

/-- The inner subscription to `prefectures`, on one value. -/
def Picker.reload (picker : Picker) (event : Event) (prefectures : List Prefecture) : Picker :=
  match event.details with
  | some details =>
    let rows := sectionModel event details prefectures
    { picker with reloadDatasource := rows, selectedOption := joinPrefecture rows }
  | none => picker

/-- `state.currenEvent.accept(event)` and the subscription to it. -/
def Picker.accept (picker : Picker) (event : Event) (prefectures : List Prefecture) : Picker :=
  let picker := { picker with currenEvent := some event }
  if event.details.isSome then
    ({ picker with subscriptions := picker.subscriptions ++ [event] }).reload event prefectures
  else picker

/-- A new value of `prefectures` runs the inner subscriptions. -/
def Picker.refresh (picker : Picker) (prefectures : List Prefecture) (order : List Nat) : Picker :=
  order.foldl
    (fun picker index =>
      match picker.subscriptions[index]? with
      | some event => picker.reload event prefectures
      | none => picker)
    picker

/-- `getEventDetails` for one of the picker's subscriptions. -/
def request (origin : Origin) (eventId : Int) (s : State) : State × List Effect :=
  ({ s with requests := s.requests ++ [⟨origin, eventId⟩] }, [.getEventDetails eventId])

/-! ## The controller -/

/-- `selectOption.accept(state.selectedOption.value)` and the subscription in `viewDidLoad`. -/
def emitSelectOption (s : State) : State × List Effect :=
  let prefectures := s.picker.selectedOption
  let s := { s with picker := { s.picker with selectOption := prefectures } }
  if s.loaded then
    let effects := [.prefectureLbl (prefectures.map (·.name))]
    if s.optionFlag then ({ s with oldOption := prefectures, optionFlag := false }, effects)
    else (s, effects)
  else (s, [])

/-- `confirmOption.accept(state.selectedOption.value)` and the subscription in `viewDidLoad`. -/
def emitConfirmOption (s : State) : State :=
  let prefectures := s.picker.selectedOption
  let s := { s with picker := { s.picker with confirmOption := prefectures } }
  if s.loaded then { s with selectedOption := prefectures } else s

theorem emitSelectOption_eq (s : State) :
    emitSelectOption s =
      ({ s with
          picker := { s.picker with selectOption := s.picker.selectedOption }
          oldOption := if s.loaded ∧ s.optionFlag then s.picker.selectedOption else s.oldOption
          optionFlag := s.optionFlag && !s.loaded },
        if s.loaded then [.prefectureLbl (s.picker.selectedOption.map (·.name))] else []) := by
  cases hl : s.loaded <;> cases hf : s.optionFlag <;> simp [emitSelectOption, hl, hf]

theorem emitConfirmOption_eq (s : State) :
    emitConfirmOption s =
      { s with
        picker := { s.picker with confirmOption := s.picker.selectedOption }
        selectedOption := if s.loaded then s.picker.selectedOption else s.selectedOption } := by
  cases hl : s.loaded <;> simp [emitConfirmOption, hl]

/-- The subscriptions replay `confirmOption` and, once there is one, the current event. -/
def viewDidLoad (s : State) : State × List Effect :=
  if s.loaded then (s, [])
  else
    let s := { s with loaded := true, selectedOption := s.picker.confirmOption }
    match s.currenEvent with
    | some event => request .setEvent event.id s
    | none => (s, [])

/-- `input.setEvent`, and `updateEvent` behind it. -/
def setEvent (event : Event) (s : State) : State × List Effect :=
  let s := { s with currenEvent := some event }
  if s.loaded then request .setEvent event.id s else (s, [])

/-- Handing the controller to the presenter loads its view. -/
def showApply (event : Event) (s : State) : State × List Effect :=
  let r := viewDidLoad s
  let r' := setEvent event r.1
  ({ r'.1 with optionFlag := true }, r.2 ++ r'.2)

/-- The events whose details an opening asks for. -/
def openings (s : State) (event : Event) : List Event :=
  (if s.loaded then [] else s.currenEvent.toList) ++ [event]

theorem showApply_eq (event : Event) (s : State) :
    showApply event s =
      ({ s with
          loaded := true
          optionFlag := true
          currenEvent := some event
          selectedOption := if s.loaded then s.selectedOption else s.picker.confirmOption
          requests := s.requests ++ (openings s event).map fun event => ⟨.setEvent, event.id⟩ },
        (openings s event).map fun event => .getEventDetails event.id) := by
  cases hl : s.loaded <;> cases he : s.currenEvent <;>
    simp [showApply, viewDidLoad, setEvent, request, openings, hl, he]

/-- The request a change stands for. -/
def requestFor (event : Event) : Change Int → Effect
  | .insert _ element => .applyEvent event.id element
  | .remove _ element => .cancelEvent event.id element

def detailsAnswered (origin : Origin) (event : Option Event) (s : State) : State × List Effect :=
  match event with
  | some event =>
    let s := { s with picker := s.picker.accept event s.prefectures }
    match origin with
    | .setEvent => emitSelectOption s
    | .reloadView => (s, [])
  | none => (s, [])

section

variable (δ : Differ Int)

def tapConfirm (s : State) : State × List Effect :=
  match s.currenEvent with
  | some event =>
    let diff := δ.difference (s.selectedOption.map (·.id)) (s.oldOption.map (·.id))
    ({ s with applying := s.applying ++ diff.changes.map (fun _ => event) },
      diff.changes.map (requestFor event))
  | none => (s, [])

def step (s : State) : Input → State × List Effect
  | .showApply event => showApply event s
  | .tapPrefecture =>
    match s.currenEvent with
    | some event =>
      let r := request .setEvent event.id s
      (r.1, .showOption event :: r.2)
    | none => (s, [])
  | .tapConfirm => tapConfirm δ s
  | .pickerSelect items => ({ s with picker := { s.picker with selectedOption := items } }, [])
  | .pickerConfirm =>
    let r := emitSelectOption s
    (emitConfirmOption r.1, r.2)
  | .pickerReload =>
    match s.picker.currenEvent with
    | some event => request .reloadView event.id s
    | none => (s, [])
  | .detailsAnswer index event =>
    match s.requests[index]? with
    | some ⟨origin, _⟩ =>
      detailsAnswered origin event { s with requests := s.requests.eraseIdx index }
    | none => (s, [])
  | .applyAnswer index _ =>
    match s.applying[index]? with
    | some event => ({ s with applying := s.applying.eraseIdx index }, [.success event])
    | none => (s, [])
  | .prefecturesAnswer items order =>
    match items with
    | some prefectures =>
      if prefectures.isEmpty then (s, [])
      else
        ({ s with prefectures := prefectures, picker := s.picker.refresh prefectures order }, [])
    | none => (s, [])

def machine : Machine State Input Effect := ⟨step δ⟩

/-- The four ways an answer to a details request is handled. -/
theorem detailsAnswer_cases (s : State) (index : Nat) (event : Option Event) :
    let t := { s with requests := s.requests.eraseIdx index }
    s.requests[index]? = none ∧ step δ s (.detailsAnswer index event) = (s, []) ∨
    (∃ r, s.requests[index]? = some r) ∧ event = none ∧
      step δ s (.detailsAnswer index event) = (t, []) ∨
    (∃ e eventId, event = some e ∧ s.requests[index]? = some ⟨.reloadView, eventId⟩ ∧
      step δ s (.detailsAnswer index event) =
        ({ t with picker := s.picker.accept e s.prefectures }, [])) ∨
    (∃ e eventId, event = some e ∧ s.requests[index]? = some ⟨.setEvent, eventId⟩ ∧
      step δ s (.detailsAnswer index event) =
        emitSelectOption { t with picker := s.picker.accept e s.prefectures }) := by
  intro t
  simp only [step]
  cases hget : s.requests[index]? with
  | none => exact .inl ⟨rfl, rfl⟩
  | some r =>
    obtain ⟨origin, eventId⟩ := r
    cases event with
    | none => exact .inr (.inl ⟨⟨_, rfl⟩, rfl, rfl⟩)
    | some e =>
      cases origin with
      | reloadView => exact .inr (.inr (.inl ⟨e, eventId, rfl, rfl, rfl⟩))
      | setEvent => exact .inr (.inr (.inr ⟨e, eventId, rfl, rfl, rfl⟩))

theorem prefecturesAnswer_cases (s : State) (items : Option (List Prefecture))
    (order : List Nat) :
    (∀ prefectures, items = some prefectures → prefectures = []) ∧
      step δ s (.prefecturesAnswer items order) = (s, []) ∨
    ∃ prefectures, items = some prefectures ∧ prefectures ≠ [] ∧
      step δ s (.prefecturesAnswer items order) =
        ({ s with prefectures := prefectures, picker := s.picker.refresh prefectures order },
          []) := by
  match items with
  | none => exact .inl ⟨nofun, rfl⟩
  | some [] => exact .inl ⟨fun _ h => (Option.some.inj h).symm, rfl⟩
  | some (p :: ps) => exact .inr ⟨p :: ps, rfl, List.cons_ne_nil p ps, rfl⟩

end

def start (prefectures : List Prefecture) : State where
  loaded := false
  optionFlag := true
  currenEvent := none
  selectedOption := []
  oldOption := []
  picker := ⟨none, [], [], [], [], []⟩
  prefectures := prefectures
  requests := []
  applying := []

end Karupasu.Event.ApplySheet
