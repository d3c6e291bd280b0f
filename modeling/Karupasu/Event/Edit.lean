import Karupasu.Event.Form

/-!
# Editing an event: `EventEditViewController` on `EventEditViewStream`

Loading the screen hands the event to `setEvent`, which needs its genre to be in the list,
and hands the image, the place and the genre on only together. What the user does later
goes through the five inputs of the form.
-/
namespace Karupasu.Event.Edit

open Karupasu.Library
open Karupasu.PlaceModel (Place)
open Karupasu.GenreModel (Genre)

structure State (Image : Type) where
  stream : Stream Image
  eventId : Option Int
  /-- The `deleteEvent` requests in flight. -/
  deleting : List Int
  deriving DecidableEq

/-- What happens after the screen has loaded. -/
inductive Input (Image : Type) where
  | edit (e : Edit Image)
  | tapConfirm
  | tapDelete
  /-- `deleteEvent` gives a `Bool` for every answer and error. -/
  | deleteAnswer (index : Nat) (isSuccess : Bool)

inductive Output (Image : Type) where
  | confirmed (c : Confirmed Image)
  | deleteEvent (eventId : Int)
  | dissmissEvent
  deriving DecidableEq

variable {Image : Type}

def step (s : State Image) : Input Image → State Image × List (Output Image)
  | .edit e => ({ s with stream := s.stream.edit e }, [])
  | .tapConfirm => (s, [.confirmed s.stream.tapConfirm])
  | .tapDelete =>
    match s.eventId with
    | some id => ({ s with deleting := s.deleting ++ [id] }, [.deleteEvent id])
    | none => (s, [])
  | .deleteAnswer index isSuccess =>
    match s.deleting[index]? with
    | some _ =>
      ({ s with deleting := s.deleting.eraseIdx index },
        if isSuccess then [.dissmissEvent] else [])
    | none => (s, [])

def machine : Machine (State Image) (Input Image) (Output Image) := ⟨step⟩

def start : State Image := ⟨⟨{}, {}⟩, none, []⟩

/-! ## Loading -/

/-- `setEvent`; the guard unwraps the models of the place and the genre. -/
def setEvent (places : List Place) (genres : List Genre) (event : EventModel.Event)
    (s : State Image) : State Image :=
  match PlaceModel.getModel places event.place, GenreModel.getModel genres event.genreId with
  | some place, some genre =>
    { s with
      stream := { s.stream with
        current := ⟨some event.title, some event.maxParticipantsCount, some place, some genre,
          none⟩ }
      eventId := some event.id }
  | _, _ => s

/-- The inputs that depend on the image the view shows and on the two models. -/
def prefill (places : List Place) (genres : List Genre) (image : Option Image)
    (event : EventModel.Event) : List (Edit Image) :=
  match image, PlaceModel.getModel places event.place,
    GenreModel.getModel genres event.genreId with
  | some image, some place, some genre =>
    [.thumbnailSet image, .placeSelect place, .genreSelect genre]
  | _, _, _ => []

/-- The title and the member number are handed on by `viewDidLoad` and then once more by the
bindings, which emit the texts just set. -/
def texts (event : EventModel.Event) : List (Edit Image) :=
  [.titleEdit event.title, .memberEdit event.maxParticipantsCount,
    .titleEdit event.title, .memberEdit event.maxParticipantsCount]

/-- `viewDidLoad` with an event; `image` is what the image view got from the cache. -/
def viewDidLoad (places : List Place) (genres : List Genre) (image : Option Image)
    (event : EventModel.Event) : State Image :=
  let s := setEvent places genres event start
  { s with stream := s.stream.edits (prefill places genres image event ++ texts event) }

/-! ## After any edits -/

/-- The edits among the inputs. -/
def edits (is : List (Input Image)) : List (Edit Image) :=
  is.filterMap fun
    | .edit e => some e
    | _ => none

/-- Only the edits reach the form, and nothing reaches `eventId`. -/
theorem run_eq (s : State Image) (is : List (Input Image)) :
    (machine.run s is).stream = s.stream.edits (edits is) ∧
      (machine.run s is).eventId = s.eventId := by
  induction is generalizing s with
  | nil => exact ⟨rfl, rfl⟩
  | cons i is ih =>
    obtain ⟨hs, he⟩ := ih (machine.next s i)
    rw [Machine.run_cons, hs, he]
    cases i with
    | edit e => exact ⟨rfl, rfl⟩
    | tapConfirm => exact ⟨rfl, rfl⟩
    | tapDelete =>
      simp only [Machine.next, machine, step]
      split <;> exact ⟨rfl, rfl⟩
    | deleteAnswer index isSuccess =>
      simp only [Machine.next, machine, step]
      split <;> exact ⟨rfl, rfl⟩

section Load

variable (places : List Place) (genres : List Genre) (image : Option Image)
  (event : EventModel.Event)

/-- The event's genre is in the list. -/
def GenreKnown : Prop := (GenreModel.getModel genres event.genreId).isSome

/-- What the load itself has sent to the five inputs. -/
def prefilled : Fields Image := Fields.latest (prefill places genres image event ++ texts event)

theorem stream_loaded (is : List (Input Image)) :
    let s := machine.run (viewDidLoad places genres image event) is
    s.stream.Settled ∧
      s.stream.latest = (Fields.latest (edits is)).orElse (prefilled places genres image event) := by
  intro s
  have hs : (setEvent places genres event (start : State Image)).stream.Settled := by
    unfold setEvent
    split <;> rfl
  have hl : (setEvent places genres event (start : State Image)).stream.latest = {} := by
    unfold setEvent
    split <;> rfl
  have hrun : s.stream = ((setEvent places genres event start).stream.edits
      (prefill places genres image event ++ texts event)).edits (edits is) := (run_eq _ is).1
  rw [hrun, Stream.latest_edits, Stream.latest_edits, hl, Fields.orElse_empty]
  exact ⟨Stream.settled_edits (Stream.settled_edits hs _) _, rfl⟩

theorem eventId_loaded {place : Place} (hp : PlaceModel.getModel places event.place = some place)
    (is : List (Input Image)) :
    (machine.run (viewDidLoad places genres image event) is).eventId =
      if (GenreModel.getModel genres event.genreId).isSome then some event.id else none := by
  rw [(run_eq _ is).2]
  show (setEvent places genres event start).eventId = _
  unfold setEvent
  cases hg : GenreModel.getModel genres event.genreId <;> simp [hp, start]

/-- The image, the place and the genre are prefilled together or not at all. -/
theorem prefilled_of_known {place : Place} {image : Image} {genre : Genre}
    (hp : PlaceModel.getModel places event.place = some place)
    (hg : GenreModel.getModel genres event.genreId = some genre) :
    prefilled places genres (some image) event =
      Form.fields ⟨event.title, event.maxParticipantsCount, place, genre, image⟩ := by
  simp only [prefilled, prefill, hp, hg]
  rfl

theorem prefilled_of_not_known (h : ¬ (image.isSome ∧ GenreKnown genres event)) :
    prefilled places genres image event =
      ⟨some event.title, some event.maxParticipantsCount, none, none, none⟩ := by
  unfold prefilled prefill
  split
  · next image place genre _ hg => exact absurd ⟨rfl, by rw [GenreKnown, hg]; rfl⟩ h
  · rfl

/-! ## What the screen hands on -/

/-- A thumbnail was handed on, by the load or by the user, and a genre is available. -/
def Supplied (is : List (Input Image)) : Prop :=
  let d := Fields.latest (edits is)
  (d.thumbnail.isSome ∨ (prefilled places genres image event).thumbnail.isSome) ∧
    (GenreKnown genres event ∨ d.genre.isSome)

/-- `tapConfirm` hands on the event's values, each overridden by its latest edit. -/
def ConfirmsEdited (place : Place) (is : List (Input Image)) : Prop :=
  let d := Fields.latest (edits is)
  ∃ genre thumbnail,
    d.genre.or (GenreModel.getModel genres event.genreId) = some genre ∧
    d.thumbnail.or image = some thumbnail ∧
    machine.emit (machine.run (viewDidLoad places genres image event) is) .tapConfirm =
      [.confirmed (.checkData ⟨d.title.getD event.title,
        d.member.getD event.maxParticipantsCount, d.place.getD place, genre, thumbnail⟩)]

/-- The load found the image and the genre, or the user has chosen place, genre and
thumbnail since. -/
def AllFired (is : List (Input Image)) : Prop :=
  let d := Fields.latest (edits is)
  (image.isSome ∧ GenreKnown genres event) ∨
    (d.place.isSome ∧ d.genre.isSome ∧ d.thumbnail.isSome)

theorem deletes_iff {place : Place} (hp : PlaceModel.getModel places event.place = some place)
    (is : List (Input Image)) :
    machine.emit (machine.run (viewDidLoad places genres image event) is) .tapDelete =
      [.deleteEvent event.id] ↔ GenreKnown genres event := by
  have he := eventId_loaded places genres image event hp is
  simp only [Machine.emit, machine, step, GenreKnown] at he ⊢
  cases hg : (GenreModel.getModel genres event.genreId).isSome <;> simp_all

theorem form?_orElse_all (d : Fields Image) (form : Form Image) :
    (d.orElse form.fields).form? = some ⟨d.title.getD form.title, d.member.getD form.member,
      d.place.getD form.place, d.genre.getD form.genre, d.thumbnail.getD form.thumbnail⟩ := by
  simp [Fields.orElse, Form.fields, Fields.form?, Option.or_some]

/-- Over a form that holds the texts only, the rest has to come from the user. -/
theorem form?_orElse_texts (d : Fields Image) (title : String) (member : Int) :
    (d.orElse ⟨some title, some member, none, none, none⟩).form? =
      match d.place, d.genre, d.thumbnail with
      | some place, some genre, some thumbnail =>
        some ⟨d.title.getD title, d.member.getD member, place, genre, thumbnail⟩
      | _, _, _ => none := by
  obtain ⟨title', member', place, genre, thumbnail⟩ := d
  cases place <;> cases genre <;> cases thumbnail <;>
    simp [Fields.orElse, Fields.form?, Option.or_some]

theorem confirms_iff {place : Place} (hp : PlaceModel.getModel places event.place = some place)
    (is : List (Input Image)) :
    ConfirmsEdited places genres image event place is ↔ AllFired genres image event is := by
  obtain ⟨hs, hl⟩ := stream_loaded places genres image event is
  have ht := Stream.tapConfirm_eq hs
  have he : machine.emit (machine.run (viewDidLoad places genres image event) is) .tapConfirm =
    [.confirmed (machine.run (viewDidLoad places genres image event) is).stream.tapConfirm] := rfl
  unfold ConfirmsEdited AllFired
  rw [he, ht, hl]
  by_cases hall : image.isSome ∧ GenreKnown genres event
  · obtain ⟨hi, hg⟩ := hall
    obtain ⟨image, rfl⟩ := Option.isSome_iff_exists.mp hi
    obtain ⟨genre, hg'⟩ := Option.isSome_iff_exists.mp hg
    rw [prefilled_of_known places genres event hp hg', form?_orElse_all]
    refine iff_of_true ⟨_, _, ?_, Option.or_some, rfl⟩ (.inl ⟨rfl, hg⟩)
    rw [hg', Option.or_some]
  · -- the load has sent the texts only
    rw [prefilled_of_not_known places genres image event hall, form?_orElse_texts]
    generalize Fields.latest (edits is) = d
    obtain ⟨title, member, place', genre', thumbnail'⟩ := d
    cases place' <;> cases genre' <;> cases thumbnail' <;> simp [hall]

end Load

/-- For an event whose place is known: `tapDelete` requests its deletion exactly when its
genre was in the list at load, and a supplied form is handed on with the event's values
and the edits exactly when all five inputs have fired. -/
theorem edit_keeps_event_iff (places : List Place) (genres : List Genre) (image : Option Image)
    (event : EventModel.Event) (place : Place)
    (hp : PlaceModel.getModel places event.place = some place) (is : List (Input Image)) :
    (machine.emit (machine.run (viewDidLoad places genres image event) is) .tapDelete =
        [.deleteEvent event.id] ↔ GenreKnown genres event) ∧
      ((Supplied places genres image event is →
          ConfirmsEdited places genres image event place is) ↔
        (Supplied places genres image event is → AllFired genres image event is)) :=
  ⟨deletes_iff places genres image event hp is,
    imp_congr_right fun _ => confirms_iff places genres image event hp is⟩

/-- An event for runs on fixed inputs. -/
def lunch : EventModel.Event := ⟨7, "lunch", "", 1, 0, none, none, none, 4, none, none⟩

theorem edit_keeps_event_iff_lunch :
    (machine.emit (machine.run (viewDidLoad (PlaceModel.places "offline" "online")
        [⟨1, "food"⟩] (some ()) lunch) [.edit (.titleEdit "dinner")]) .tapDelete =
        [.deleteEvent 7] ↔ GenreKnown [⟨1, "food"⟩] lunch) ∧
      ((Supplied (PlaceModel.places "offline" "online") [⟨1, "food"⟩] (some ()) lunch
            [.edit (.titleEdit "dinner")] →
          ConfirmsEdited (PlaceModel.places "offline" "online") [⟨1, "food"⟩] (some ()) lunch
            ⟨0, "offline"⟩ [.edit (.titleEdit "dinner")]) ↔
        (Supplied (PlaceModel.places "offline" "online") [⟨1, "food"⟩] (some ()) lunch
            [.edit (.titleEdit "dinner")] →
          AllFired [⟨1, "food"⟩] (some ()) lunch [.edit (.titleEdit "dinner")])) :=
  edit_keeps_event_iff (PlaceModel.places "offline" "online") [⟨1, "food"⟩] (some ()) lunch
    ⟨0, "offline"⟩ (by decide) [.edit (.titleEdit "dinner")]

/-- The genre is known but the image was not in the cache; the user supplies one, and
`tapConfirm` reports an error. With an empty genre list `tapDelete` does nothing. -/
theorem supplied_image_is_refused :
    Supplied (PlaceModel.places "offline" "online") [⟨1, "food"⟩] none lunch
        [.edit (.thumbnailSet ())] ∧
      machine.emit (machine.run (viewDidLoad (PlaceModel.places "offline" "online")
        [⟨1, "food"⟩] none lunch) [.edit (.thumbnailSet ())]) .tapConfirm =
        [.confirmed (.showError "全項目を埋めてください")] ∧
      machine.emit (viewDidLoad (PlaceModel.places "offline" "online") [] (some ()) lunch)
        .tapDelete = [] := by
  refine ⟨⟨.inl rfl, .inl rfl⟩, ?_, ?_⟩ <;> decide

end Karupasu.Event.Edit
