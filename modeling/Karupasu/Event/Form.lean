import Karupasu.Library.Machine
import Karupasu.Records

/-!
# The event form

What `EventCreateViewStream` and `EventEditViewStream` share: five inputs joined by
`combineLatest`, which is silent until each of them has emitted, the relay `current` that
keeps the tuple, and the guard of `tapConfirm` that reads it.
-/
namespace Karupasu

namespace PlaceModel

/-- The places, which never change; their names are texts of the app. -/
def places (offline online : String) : List Place := [⟨0, offline⟩, ⟨1, online⟩]

def getModel (places : List Place) (id : Int) : Option Place :=
  (places.filter fun place => place.id = id).head?

end PlaceModel

namespace GenreModel

def getModel (genres : List Genre) (id : Int) : Option Genre :=
  (genres.filter fun genre => genre.id = id).head?

end GenreModel

namespace Event

open Karupasu.PlaceModel (Place)
open Karupasu.GenreModel (Genre)

/-- The tuple of `checkData`; `Image` is UIKit's type of images. -/
structure Form (Image : Type) where
  title : String
  member : Int
  place : Place
  genre : Genre
  thumbnail : Image
  deriving DecidableEq

/-- The tuple of optionals: what each input emitted last, or the value of `current`. -/
structure Fields (Image : Type) where
  title : Option String := none
  member : Option Int := none
  place : Option Place := none
  genre : Option Genre := none
  thumbnail : Option Image := none
  deriving DecidableEq

/-- An emission of one of the five inputs. -/
inductive Edit (Image : Type) where
  | thumbnailSet (image : Image)
  | titleEdit (title : String)
  | memberEdit (member : Int)
  | placeSelect (place : Place)
  | genreSelect (genre : Genre)
  deriving DecidableEq

variable {Image : Type}

def Form.fields (f : Form Image) : Fields Image :=
  ⟨some f.title, some f.member, some f.place, some f.genre, some f.thumbnail⟩

namespace Fields

/-- The guard that unwraps all five. -/
def form? (f : Fields Image) : Option (Form Image) :=
  match f.title, f.member, f.place, f.genre, f.thumbnail with
  | some title, some member, some place, some genre, some thumbnail =>
    some ⟨title, member, place, genre, thumbnail⟩
  | _, _, _, _, _ => none

def set (f : Fields Image) : Edit Image → Fields Image
  | .thumbnailSet image => { f with thumbnail := some image }
  | .titleEdit title => { f with title := some title }
  | .memberEdit member => { f with member := some member }
  | .placeSelect place => { f with place := some place }
  | .genreSelect genre => { f with genre := some genre }

/-- The fields of `d`, and those of `f` where `d` has none. -/
def orElse (d f : Fields Image) : Fields Image :=
  ⟨d.title.or f.title, d.member.or f.member, d.place.or f.place, d.genre.or f.genre,
    d.thumbnail.or f.thumbnail⟩

/-- The latest emission of each input. -/
def latest (es : List (Edit Image)) : Fields Image := es.foldl set {}

theorem form?_eq_some_iff {f : Fields Image} {form : Form Image} :
    f.form? = some form ↔ f.title = some form.title ∧ f.member = some form.member ∧
      f.place = some form.place ∧ f.genre = some form.genre ∧
      f.thumbnail = some form.thumbnail := by
  obtain ⟨title, member, place, genre, thumbnail⟩ := f
  constructor
  · intro h
    simp only [form?] at h
    split at h
    · obtain rfl := Option.some.inj h
      exact ⟨rfl, rfl, rfl, rfl, rfl⟩
    · cases h
  · rintro ⟨rfl, rfl, rfl, rfl, rfl⟩
    rfl

theorem isSome_form?_iff {f : Fields Image} :
    f.form?.isSome ↔ f.title.isSome ∧ f.member.isSome ∧ f.place.isSome ∧ f.genre.isSome ∧
      f.thumbnail.isSome := by
  obtain ⟨title, member, place, genre, thumbnail⟩ := f
  cases title <;> cases member <;> cases place <;> cases genre <;> cases thumbnail <;>
    simp [form?]

/-- An emission takes nothing back. -/
theorem isSome_form?_set {f : Fields Image} (h : f.form?.isSome) (e : Edit Image) :
    (f.set e).form?.isSome := by
  rw [isSome_form?_iff] at h ⊢
  cases e <;> simp [set, h]

theorem orElse_empty (d : Fields Image) : d.orElse {} = d := by
  obtain ⟨title, member, place, genre, thumbnail⟩ := d
  simp [orElse]

theorem set_orElse (d f : Fields Image) (e : Edit Image) : (d.orElse f).set e = (d.set e).orElse f := by
  cases e <;> rfl

theorem foldl_set (es : List (Edit Image)) (d f : Fields Image) :
    es.foldl set (d.orElse f) = (es.foldl set d).orElse f := by
  induction es generalizing d with
  | nil => rfl
  | cons e es ih => rw [List.foldl_cons, set_orElse, ih, List.foldl_cons]

theorem foldl_set_eq (es : List (Edit Image)) (f : Fields Image) :
    es.foldl set f = (latest es).orElse f := foldl_set es {} f

end Fields

/-- The state of the `combineLatest` subscription and the relay it writes. -/
structure Stream (Image : Type) where
  latest : Fields Image
  current : Fields Image
  deriving DecidableEq

inductive Confirmed (Image : Type) where
  | checkData (form : Form Image)
  | showError (message : String)
  deriving DecidableEq

namespace Stream

def edit (s : Stream Image) (e : Edit Image) : Stream Image :=
  let latest := s.latest.set e
  match latest.form? with
  | some form => ⟨latest, form.fields⟩
  | none => ⟨latest, s.current⟩

def edits (s : Stream Image) (es : List (Edit Image)) : Stream Image := es.foldl edit s

/-- The guard of `tapConfirm`. -/
def tapConfirm (s : Stream Image) : Confirmed Image :=
  match s.current.form? with
  | some form => .checkData form
  | none => .showError "全項目を埋めてください"

/-- `current` unwraps exactly when all five inputs have emitted, and to what they emitted. -/
def Settled (s : Stream Image) : Prop := s.current.form? = s.latest.form?

theorem latest_edit (s : Stream Image) (e : Edit Image) : (s.edit e).latest = s.latest.set e := by
  simp only [edit]
  split <;> rfl

theorem latest_edits (s : Stream Image) (es : List (Edit Image)) :
    (s.edits es).latest = (Fields.latest es).orElse s.latest := by
  rw [← Fields.foldl_set_eq]
  induction es generalizing s with
  | nil => rfl
  | cons e es ih =>
    rw [List.foldl_cons, ← latest_edit]
    exact ih (s.edit e)

theorem settled_edit {s : Stream Image} (h : s.Settled) (e : Edit Image) : (s.edit e).Settled := by
  have h : s.current.form? = s.latest.form? := h
  simp only [edit]
  split
  · next form hf =>
    show form.fields.form? = (s.latest.set e).form?
    rw [hf, Fields.form?_eq_some_iff]
    exact ⟨rfl, rfl, rfl, rfl, rfl⟩
  · next hf =>
    show s.current.form? = (s.latest.set e).form?
    rw [hf, h, ← Option.not_isSome_iff_eq_none]
    intro hs
    have hset := Fields.isSome_form?_set hs e
    rw [hf] at hset
    cases hset

theorem settled_edits {s : Stream Image} (h : s.Settled) (es : List (Edit Image)) :
    (s.edits es).Settled := by
  induction es generalizing s with
  | nil => exact h
  | cons e es ih => exact ih (settled_edit h e)

/-- On a settled form `tapConfirm` reads the latest emissions. -/
theorem tapConfirm_eq {s : Stream Image} (h : s.Settled) :
    s.tapConfirm = match s.latest.form? with
      | some form => .checkData form
      | none => .showError "全項目を埋めてください" := by
  have h : s.current.form? = s.latest.form? := h
  rw [tapConfirm, h]

end Stream
end Event
end Karupasu
