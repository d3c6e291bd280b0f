import Karupasu.Event.Create

/-!
# What the creation form submits: `EventCreateViewStream`

The six inputs of the stream, in any order. Each field is a register of its own, written by
one input; `tapConfirm` reads a relay that is filled from all five of them together.
-/
namespace Karupasu.Event.EventCreateViewStream

open Karupasu.Library
open Karupasu.PlaceModel (Place)
open Karupasu.GenreModel (Genre)

inductive Input (Image : Type) where
  | edit (e : Edit Image)
  | tapConfirm
  deriving DecidableEq

variable {Image : Type}

def step (s : Stream Image) : Input Image → Stream Image × List (Confirmed Image)
  | .edit e => (s.edit e, [])
  | .tapConfirm => (s, [s.tapConfirm])

def machine : Machine (Stream Image) (Input Image) (Confirmed Image) := ⟨step⟩

def start : Stream Image := ⟨{}, {}⟩

/-! ## The fields and their inputs -/

def titleEdit? : Input Image → Option String
  | .edit (.titleEdit title) => some title
  | _ => none

def memberEdit? : Input Image → Option Int
  | .edit (.memberEdit member) => some member
  | _ => none

def placeSelect? : Input Image → Option Place
  | .edit (.placeSelect place) => some place
  | _ => none

def genreSelect? : Input Image → Option Genre
  | .edit (.genreSelect genre) => some genre
  | _ => none

def thumbnailSet? : Input Image → Option Image
  | .edit (.thumbnailSet image) => some image
  | _ => none

/-- Each of the five field inputs has occurred. -/
structure Filled (is : List (Input Image)) : Prop where
  title : ∃ i ∈ is, (titleEdit? i).isSome
  member : ∃ i ∈ is, (memberEdit? i).isSome
  place : ∃ i ∈ is, (placeSelect? i).isSome
  genre : ∃ i ∈ is, (genreSelect? i).isSome
  thumbnail : ∃ i ∈ is, (thumbnailSet? i).isSome

/-- The tuple consists of the most recent value of each field. -/
structure IsLatest (is : List (Input Image)) (form : Form Image) : Prop where
  title : Machine.written titleEdit? is = some form.title
  member : Machine.written memberEdit? is = some form.member
  place : Machine.written placeSelect? is = some form.place
  genre : Machine.written genreSelect? is = some form.genre
  thumbnail : Machine.written thumbnailSet? is = some form.thumbnail

/-- What each of the five inputs carried last. -/
def writtenFields (is : List (Input Image)) : Fields Image :=
  ⟨Machine.written titleEdit? is, Machine.written memberEdit? is,
    Machine.written placeSelect? is, Machine.written genreSelect? is,
    Machine.written thumbnailSet? is⟩

theorem writtenFields_edit (is : List (Input Image)) (e : Edit Image) :
    writtenFields (is ++ [.edit e]) = (writtenFields is).set e := by
  simp only [writtenFields, Machine.written_concat]
  cases e <;> rfl

theorem writtenFields_tapConfirm (is : List (Input Image)) :
    writtenFields (is ++ [.tapConfirm]) = writtenFields is := by
  simp only [writtenFields, Machine.written_concat]
  rfl

theorem latest_run (is : List (Input Image)) :
    (machine.run start is).latest = writtenFields is := by
  induction is using List.reverseRecOn with
  | nil => rfl
  | append_singleton is i ih =>
    rw [Machine.run_append]
    cases i with
    | edit e =>
      show ((machine.run start is).edit e).latest = _
      rw [Stream.latest_edit, ih, writtenFields_edit]
    | tapConfirm =>
      show (machine.run start is).latest = _
      rw [ih, writtenFields_tapConfirm]

theorem settled_run (is : List (Input Image)) :
    (machine.run (start : Stream Image) is).Settled := by
  have hstep : ∀ (s : Stream Image) i, s.Settled → (machine.next s i).Settled := by
    intro s i hs
    cases i with
    | edit e => exact Stream.settled_edit hs e
    | tapConfirm => exact hs
  have hstart : (start : Stream Image).Settled := rfl
  exact (machine.always_of_inv hstep hstart is).last

theorem isLatest_iff {is : List (Input Image)} {form : Form Image} :
    IsLatest is form ↔ (writtenFields is).form? = some form := by
  rw [Fields.form?_eq_some_iff]
  exact ⟨fun h => ⟨h.title, h.member, h.place, h.genre, h.thumbnail⟩,
    fun ⟨title, member, place, genre, thumbnail⟩ => ⟨title, member, place, genre, thumbnail⟩⟩

theorem filled_iff {is : List (Input Image)} : Filled is ↔ (writtenFields is).form?.isSome := by
  rw [Fields.isSome_form?_iff]
  simp only [writtenFields, Machine.isSome_written_iff]
  exact ⟨fun h => ⟨h.title, h.member, h.place, h.genre, h.thumbnail⟩,
    fun ⟨title, member, place, genre, thumbnail⟩ => ⟨title, member, place, genre, thumbnail⟩⟩

/-- A `tapConfirm` emits once: the most recent values when each field input has occurred before
it, and the error otherwise. -/
theorem tapConfirm_submits_latest (is : List (Input Image)) :
    let emitted := machine.emit (machine.run start is) .tapConfirm
    ((∃ form, emitted = [.checkData form] ∧ IsLatest is form) ↔ Filled is) ∧
      (emitted = [.showError "全項目を埋めてください"] ↔ ¬Filled is) := by
  intro emitted
  have hemit : emitted = [(machine.run start is).tapConfirm] := rfl
  have ht := Stream.tapConfirm_eq (settled_run is)
  rw [latest_run] at ht
  rw [filled_iff, hemit, ht]
  simp only [isLatest_iff]
  cases (writtenFields is).form? with
  | none => simp
  | some form => simp

/-! ## The screen -/

/-- What the bindings of the screen hand to the stream. -/
def sent : Create.Input Image → List (Input Image)
  | .titleTxf text => [.edit (.titleEdit text)]
  | .memberTxf text => (Create.intInit text).toList.map fun member => .edit (.memberEdit member)
  | .placeOption places => places.head?.toList.map fun place => .edit (.placeSelect place)
  | .genreOption genres => genres.head?.toList.map fun genre => .edit (.genreSelect genre)
  | .didFinishPickingMedia image => [.edit (.thumbnailSet image)]
  | .tapConfirm => [.tapConfirm]

/-- The screen reaches the stream through its inputs alone, and adds no output. -/
theorem create_drives :
    Create.machine.Drives (machine : Machine _ (Input Image) _) Create.State.stream sent := by
  constructor
  · intro s i
    cases i with
    | titleTxf text => rfl
    | memberTxf text =>
      show (Create.bindMember s text).stream = _
      simp only [sent, Create.bindMember]
      cases Create.intInit text <;> rfl
    | placeOption places => cases places <;> rfl
    | genreOption genres => cases genres <;> rfl
    | didFinishPickingMedia image => rfl
    | tapConfirm => rfl
  · intro s i
    cases i with
    | titleTxf text => rfl
    | memberTxf text =>
      simp only [sent]
      cases Create.intInit text <;> rfl
    | placeOption places => cases places <;> rfl
    | genreOption genres => cases genres <;> rfl
    | didFinishPickingMedia image => rfl
    | tapConfirm => rfl

/-- A run of the screen is a run of its stream, which has been told the empty title. -/
theorem create_run (is : List (Create.Input Image)) :
    (Create.machine.run Create.start is).stream =
        machine.run start (.edit (.titleEdit "") :: is.flatMap sent) ∧
      Create.machine.outputs Create.start is =
        machine.outputs start (.edit (.titleEdit "") :: is.flatMap sent) :=
  ⟨create_drives.run Create.start is, create_drives.outputs Create.start is⟩

end Karupasu.Event.EventCreateViewStream
