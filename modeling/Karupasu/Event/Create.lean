import Karupasu.Event.Form

/-!
# Creating an event: `EventCreateViewController` on `EventCreateViewStream`

The text fields are bound to the stream: a title passes as it is, a member text only when
it is a number. What the screen shows stands next to what the stream was told.
-/
namespace Karupasu.Event.Create

open Karupasu.Library
open Karupasu.PlaceModel (Place)
open Karupasu.GenreModel (Genre)

/-- One or more decimal digits. -/
def digits (chars : List Char) : Option Nat :=
  if chars.isEmpty || !chars.all Char.isDigit then none
  else some (chars.foldl (fun n c => 10 * n + (c.toNat - '0'.toNat)) 0)

/-- `Int.init` on a text: an optional sign and decimal digits, within 64 bits. -/
def intInit (text : String) : Option Int :=
  let value : Option Int := match text.toList with
    | '-' :: rest => (digits rest).map fun n => -(n : Int)
    | '+' :: rest => (digits rest).map fun n => (n : Int)
    | chars => (digits chars).map fun n => (n : Int)
  value.filter fun n => -9223372036854775808 ≤ n && n ≤ 9223372036854775807

/-- The screen and its stream. A label or an image not chosen yet is `none`. -/
structure State (Image : Type) where
  titleTxf : String
  memberTxf : String
  placeLbl : Option Place
  genreLbl : Option Genre
  thumbnailImage : Option Image
  stream : Stream Image
  deriving DecidableEq

inductive Input (Image : Type) where
  /-- The title field's text changes; a text field's text is never nil. -/
  | titleTxf (text : String)
  | memberTxf (text : String)
  /-- `selectOption` of the place screen. -/
  | placeOption (places : List Place)
  /-- `selectOption` of the genre screen. -/
  | genreOption (genres : List Genre)
  | didFinishPickingMedia (image : Image)
  | tapConfirm

variable {Image : Type}

/-- The binding of the title field. -/
def bindTitle (s : State Image) (text : String) : State Image :=
  { s with titleTxf := text, stream := s.stream.edit (.titleEdit text) }

/-- The binding of the member field, with `filterNil`. -/
def bindMember (s : State Image) (text : String) : State Image :=
  { s with
    memberTxf := text
    stream := match intInit text with
      | some member => s.stream.edit (.memberEdit member)
      | none => s.stream }

def step (s : State Image) : Input Image → State Image × List (Confirmed Image)
  | .titleTxf text => (bindTitle s text, [])
  | .memberTxf text => (bindMember s text, [])
  | .placeOption places =>
    match places.head? with
    | some place =>
      ({ s with placeLbl := some place, stream := s.stream.edit (.placeSelect place) }, [])
    | none => (s, [])
  | .genreOption genres =>
    match genres.head? with
    | some genre =>
      ({ s with genreLbl := some genre, stream := s.stream.edit (.genreSelect genre) }, [])
    | none => (s, [])
  | .didFinishPickingMedia image =>
    ({ s with thumbnailImage := some image, stream := s.stream.edit (.thumbnailSet image) }, [])
  | .tapConfirm => (s, [s.stream.tapConfirm])

def machine : Machine (State Image) (Input Image) (Confirmed Image) := ⟨step⟩

/-- `viewDidLoad`: the fields are empty, and the bindings emit their texts. -/
def start : State Image :=
  bindMember (bindTitle ⟨"", "", none, none, none, ⟨{}, {}⟩⟩ "") ""

/-! ## What the screen shows -/

/-- The values shown, when all five are there. -/
def shown (s : State Image) : Option (Form Image) :=
  if s.titleTxf = "" then none
  else Fields.form? ⟨some s.titleTxf, intInit s.memberTxf, s.placeLbl, s.genreLbl,
    s.thumbnailImage⟩

/-- A `tapConfirm` hands on exactly the values shown, or reports the error. -/
def SubmitsShown (s : State Image) : Prop :=
  machine.emit s .tapConfirm = match shown s with
    | some form => [.checkData form]
    | none => [.showError "全項目を埋めてください"]

def parses : Input Image → Bool
  | .memberTxf text => (intInit text).isSome
  | _ => false

/-- Everything has been chosen and some member text was a number, but now the title shown
is empty or the member text shown is none. -/
def Retyped (s : State Image) (is : List (Input Image)) : Prop :=
  s.placeLbl.isSome ∧ s.genreLbl.isSome ∧ s.thumbnailImage.isSome ∧ is.any parses ∧
    (s.titleTxf = "" ∨ intInit s.memberTxf = none)

/-- The stream knows what is shown, but keeps the last member text that was a number. -/
structure Bound (s : State Image) : Prop where
  settled : s.stream.Settled
  latest : s.stream.latest =
    ⟨some s.titleTxf, s.stream.latest.member, s.placeLbl, s.genreLbl, s.thumbnailImage⟩
  member : ∀ member, intInit s.memberTxf = some member → s.stream.latest.member = some member

theorem bound_start : Bound (start : State Image) := by
  refine ⟨rfl, rfl, fun member h => ?_⟩
  have hn : intInit "" = none := by decide
  rw [show (start : State Image).memberTxf = "" from rfl, hn] at h
  cases h

/-- An edit that reaches the stream and the screen alike. -/
theorem Bound.edit {s t : State Image} (h : Bound s) (e : Edit Image)
    (hst : t.stream = s.stream.edit e)
    (hl : s.stream.latest.set e = ⟨some t.titleTxf, (s.stream.latest.set e).member, t.placeLbl,
      t.genreLbl, t.thumbnailImage⟩)
    (hm : ∀ member, intInit t.memberTxf = some member →
      (s.stream.latest.set e).member = some member) : Bound t := by
  have he : t.stream.latest = s.stream.latest.set e := by
    rw [hst, Stream.latest_edit]
  refine ⟨?_, ?_, ?_⟩
  · rw [hst]
    exact Stream.settled_edit h.settled e
  · rw [he]
    exact hl
  · rw [he]
    exact hm

theorem bound_step {s : State Image} (h : Bound s) (i : Input Image) : Bound (machine.next s i) := by
  have hl := h.latest
  have hm := h.member
  simp only [Machine.next, machine]
  cases i with
  | titleTxf text => exact h.edit (.titleEdit text) rfl (by rw [hl]; rfl) hm
  | memberTxf text =>
    cases hp : intInit text with
    | none =>
      simp only [step, bindMember, hp]
      exact ⟨h.settled, hl, fun member hn => absurd (hp.symm.trans hn) nofun⟩
    | some value =>
      simp only [step, bindMember, hp]
      exact h.edit (.memberEdit value) rfl (by rw [hl]; rfl) fun member hn => hp.symm.trans hn
  | placeOption places =>
    cases hp : places.head? with
    | none =>
      simp only [step, hp]
      exact h
    | some place =>
      simp only [step, hp]
      exact h.edit (.placeSelect place) rfl (by rw [hl]; rfl) hm
  | genreOption genres =>
    cases hp : genres.head? with
    | none =>
      simp only [step, hp]
      exact h
    | some genre =>
      simp only [step, hp]
      exact h.edit (.genreSelect genre) rfl (by rw [hl]; rfl) hm
  | didFinishPickingMedia image => exact h.edit (.thumbnailSet image) rfl (by rw [hl]; rfl) hm
  | tapConfirm => exact h

/-- A member number is cached once some member text has been a number. -/
theorem isSome_member_step (s : State Image) (i : Input Image) :
    (machine.next s i).stream.latest.member.isSome ↔
      s.stream.latest.member.isSome ∨ parses i := by
  cases i with
  | titleTxf text => simp [Machine.next, machine, step, bindTitle, Stream.latest_edit, Fields.set,
      parses]
  | memberTxf text =>
    cases hp : intInit text <;>
      simp [Machine.next, machine, step, bindMember, hp, Stream.latest_edit, Fields.set, parses]
  | placeOption places =>
    cases hp : places.head? <;>
      simp [Machine.next, machine, step, hp, Stream.latest_edit, Fields.set, parses]
  | genreOption genres =>
    cases hp : genres.head? <;>
      simp [Machine.next, machine, step, hp, Stream.latest_edit, Fields.set, parses]
  | didFinishPickingMedia image =>
    simp [Machine.next, machine, step, Stream.latest_edit, Fields.set, parses]
  | tapConfirm => simp [Machine.next, machine, step, parses]

theorem isSome_member_run (s : State Image) (is : List (Input Image)) :
    (machine.run s is).stream.latest.member.isSome ↔
      s.stream.latest.member.isSome ∨ is.any parses := by
  induction is generalizing s with
  | nil => simp
  | cons i is ih => rw [Machine.run_cons, ih, isSome_member_step, List.any_cons, Bool.or_eq_true,
      or_assoc]

theorem submitsShown_iff_of_bound {s : State Image} (h : Bound s) :
    SubmitsShown s ↔ ¬ (s.placeLbl.isSome ∧ s.genreLbl.isSome ∧ s.thumbnailImage.isSome ∧
      s.stream.latest.member.isSome ∧ (s.titleTxf = "" ∨ intInit s.memberTxf = none)) := by
  obtain ⟨hs, hl, hm⟩ := h
  have ht := Stream.tapConfirm_eq hs
  rw [hl] at ht
  have he : machine.emit s .tapConfirm = [s.stream.tapConfirm] := rfl
  unfold SubmitsShown shown
  rw [he, ht]
  -- a missing choice is an error on both sides
  cases s.placeLbl with
  | none => simp [Fields.form?]
  | some place =>
    cases s.genreLbl with
    | none => simp [Fields.form?]
    | some genre =>
      cases s.thumbnailImage with
      | none => simp [Fields.form?]
      | some image =>
        by_cases hempty : s.titleTxf = ""
        · cases s.stream.latest.member <;> simp [Fields.form?, hempty]
        · cases hp : intInit s.memberTxf with
          | none => cases s.stream.latest.member <;> simp [Fields.form?, hempty]
          | some member => simp [Fields.form?, hempty, hm member hp]

/-- In every run `tapConfirm` submits what is shown, unless everything has been chosen and
a member number entered before the title was emptied or the member text became no number. -/
theorem submits_shown_iff (is : List (Input Image)) :
    SubmitsShown (machine.run (start : State Image) is) ↔
      ¬ Retyped (machine.run (start : State Image) is) is := by
  have hb : Bound (machine.run (start : State Image) is) :=
    (machine.always_of_inv (P := Bound) (fun _ i h => bound_step h i) bound_start is).last
  have hm : (machine.run (start : State Image) is).stream.latest.member.isSome ↔ is.any parses := by
    rw [isSome_member_run]
    simp [show (start : State Image).stream.latest.member = none from rfl]
  rw [submitsShown_iff_of_bound hb, hm]
  rfl

/-- Everything is entered, and then the member field is cleared. -/
def memberCleared : List (Input Unit) :=
  [.titleTxf "lunch", .memberTxf "4", .placeOption [⟨0, "offline"⟩], .genreOption [⟨1, "food"⟩],
    .didFinishPickingMedia (), .memberTxf ""]

/-- The field shows no number, and the form is handed on with the number it showed before. -/
theorem cleared_member_is_submitted :
    shown (machine.run start memberCleared) = none ∧
      machine.emit (machine.run start memberCleared) .tapConfirm =
        [.checkData ⟨"lunch", 4, ⟨0, "offline"⟩, ⟨1, "food"⟩, ()⟩] ∧
      ¬SubmitsShown (machine.run start memberCleared) := by
  have hs : shown (machine.run start memberCleared) = none := by decide
  have he : machine.emit (machine.run start memberCleared) .tapConfirm =
      [.checkData ⟨"lunch", 4, ⟨0, "offline"⟩, ⟨1, "food"⟩, ()⟩] := by decide
  refine ⟨hs, he, fun h => ?_⟩
  rw [SubmitsShown, hs, he] at h
  exact absurd h (by decide)

end Karupasu.Event.Create
