import Karupasu.Library.Numerals
import Karupasu.Provider.EventProvider

/-!
# What a request of the event API says

A path names a resource: the events, one event with or without an operation on it, or one of
two lists. The method, the resource and the parameters are enough to say the request again.
-/
namespace Karupasu.EventProvider

open Karupasu.Library

/-- What follows the id of an event. -/
inductive Suffix where
  | none | apply | cancel | favorite
  deriving DecidableEq

inductive Resource where
  | events
  | event (eventId : Int) (suffix : Suffix)
  | favorites
  | participants
  deriving DecidableEq

def Suffix.text : Suffix → String
  | none => ""
  | apply => "/apply"
  | cancel => "/cancel"
  | favorite => "/favorite"

def Resource.path : Resource → String
  | events => "/events"
  | event eventId suffix => "/events/" ++ (toString eventId ++ suffix.text)
  | favorites => "/events/favorites"
  | participants => "/events/participants"

def resource : EventProvider → Resource
  | getEvents .. | postEvent .. => .events
  | putEvent eventId .. | deleteEvent eventId | getEventDetails eventId => .event eventId .none
  | postApplyEvent eventId _ => .event eventId .apply
  | postCancelEvent eventId _ => .event eventId .cancel
  | postFavorite eventId => .event eventId .favorite
  | getFavoriteEvents => .favorites
  | getParticipantEvents => .participants

theorem path_eq (p : EventProvider) : p.path = p.resource.path := by
  cases p with
  | postApplyEvent eventId prefectureId => exact String.append_assoc
  | postCancelEvent eventId prefectureId => exact String.append_assoc
  | postFavorite eventId => exact String.append_assoc
  | putEvent | deleteEvent | getEventDetails =>
    simp [path, resource, Resource.path, Suffix.text]
  | _ => rfl

/-! ## Paths -/

theorem Suffix.ends (suffix : Suffix) : Numerals.Ends suffix.text := by
  cases suffix with
  | none => exact fun c hc => nomatch hc
  | apply => exact Numerals.ends_of_toList (by rfl) (by decide : Numerals.Separates '/')
  | cancel => exact Numerals.ends_of_toList (by rfl) (by decide : Numerals.Separates '/')
  | favorite => exact Numerals.ends_of_toList (by rfl) (by decide : Numerals.Separates '/')

theorem Suffix.text_inj {s t : Suffix} : s.text = t.text ↔ s = t := by
  cases s <;> cases t <;> decide

theorem Resource.event_path_inj {m n : Int} {s t : Suffix} :
    (Resource.event m s).path = (Resource.event n t).path ↔ m = n ∧ s = t := by
  unfold Resource.path
  rw [String.append_right_inj, Numerals.numeral_append_ends_inj s.ends t.ends, Suffix.text_inj]

/-- A list is not an event: its name does not begin with a numeral. -/
theorem Resource.event_path_ne (name : String) {c : Char} {rest : List Char}
    (hname : name.toList = c :: rest) (hc : Numerals.Separates c) (n : Int) (s : Suffix) :
    (Resource.event n s).path ≠ "/events/" ++ name := by
  unfold Resource.path
  rw [Ne, String.append_right_inj]
  exact Numerals.numeral_append_ne hname hc n s.text

theorem Resource.event_path_ne_events (n : Int) (s : Suffix) :
    (Resource.event n s).path ≠ Resource.events.path := by
  intro h
  have hlen := congrArg String.length h
  simp only [Resource.path, String.length_append] at hlen
  have hlong : "/events/".length = 8 := by decide
  have hshort : "/events".length = 7 := by decide
  omega

theorem Resource.path_inj {r r' : Resource} (h : r.path = r'.path) : r = r' := by
  have hfavorites : Resource.favorites.path = "/events/" ++ "favorites" := by decide
  have hparticipants : Resource.participants.path = "/events/" ++ "participants" := by decide
  have hf := Resource.event_path_ne "favorites" (c := 'f') (by rfl) (by decide)
  have hp := Resource.event_path_ne "participants" (c := 'p') (by rfl) (by decide)
  rw [← hfavorites] at hf
  rw [← hparticipants] at hp
  cases r with
  | event m s =>
    cases r' with
    | event n t =>
      obtain ⟨rfl, rfl⟩ := Resource.event_path_inj.mp h
      rfl
    | events => exact absurd h (Resource.event_path_ne_events m s)
    | favorites => exact absurd h (hf m s)
    | participants => exact absurd h (hp m s)
  | events =>
    cases r' with
    | event n t => exact absurd h.symm (Resource.event_path_ne_events n t)
    | events => rfl
    | favorites => exact absurd h (by decide)
    | participants => exact absurd h (by decide)
  | favorites =>
    cases r' with
    | event n t => exact absurd h.symm (hf n t)
    | events => exact absurd h (by decide)
    | favorites => rfl
    | participants => exact absurd h (by decide)
  | participants =>
    cases r' with
    | event n t => exact absurd h.symm (hp n t)
    | events => exact absurd h (by decide)
    | favorites => exact absurd h (by decide)
    | participants => rfl

/-! ## Requests -/

def Parameter.string? : Parameter → Option String
  | string value => some value
  | int _ => none

def Parameter.int? : Parameter → Option Int
  | int value => some value
  | string _ => none

section

variable (sent : String → Option Parameter)

/-- The text sent under a key. -/
def text? (key : String) : Option String := (sent key).bind Parameter.string?

def number? (key : String) : Option Int := (sent key).bind Parameter.int?

/-- The request that says this, if there is one. -/
def read : Method → Resource → Option EventProvider
  | .get, .events =>
    some (.getEvents ((text? sent "word").getD "") (number? sent "genre_id")
      (number? sent "holding_method"))
  | .get, .event eventId .none => some (.getEventDetails eventId)
  | .get, .favorites => some .getFavoriteEvents
  | .get, .participants => some .getParticipantEvents
  | .post, .events => do
    let title ← text? sent "title"
    let imageUrl ← text? sent "image"
    let maxMember ← number? sent "maximum_participants_count"
    let place ← number? sent "holding_method"
    let genreId ← number? sent "genre_id"
    return .postEvent title imageUrl maxMember place genreId
  | .put, .event eventId .none => do
    let title ← text? sent "title"
    let imageUrl ← text? sent "image"
    let maxMember ← number? sent "maximum_participants_count"
    let place ← number? sent "holding_method"
    let genreId ← number? sent "genre_id"
    return .putEvent eventId title imageUrl maxMember place genreId
  | .post, .event eventId .apply => (number? sent "prefecture_id").map (.postApplyEvent eventId)
  | .post, .event eventId .cancel => (number? sent "prefecture_id").map (.postCancelEvent eventId)
  | .post, .event eventId .favorite => some (.postFavorite eventId)
  | .delete, .event eventId .none => some (.deleteEvent eventId)
  | _, _ => none

end

/-- Nothing of a request is lost: reading what it says gives it back. -/
theorem read_eq (p : EventProvider) :
    read (fun key => p.task.value? key) p.method p.resource = some p := by
  cases p with
  | getEvents word genreId holdingMethod =>
    obtain ⟨hword, hgenre, hplace, -⟩ := value?_getEvents word genreId holdingMethod
    have hw : ((text? (fun key => (getEvents word genreId holdingMethod).task.value? key)
        "word").getD "") = word := by
      simp only [text?, hword]
      by_cases he : word = ""
      · simp [he]
      · simp [he, Parameter.string?]
    have hg : number? (fun key => (getEvents word genreId holdingMethod).task.value? key)
        "genre_id" = genreId := by
      simp only [number?, hgenre]
      cases genreId <;> rfl
    have hh : number? (fun key => (getEvents word genreId holdingMethod).task.value? key)
        "holding_method" = holdingMethod := by
      simp only [number?, hplace]
      cases holdingMethod <;> rfl
    simp only [read, method, resource, hw, hg, hh]
  | _ => rfl

/-- Two requests with the same method, the same path and the same parameters are the same
request. -/
theorem requests_distinct (a b : EventProvider) :
    (a.method = b.method ∧ a.path = b.path ∧ ∀ key, a.task.value? key = b.task.value? key) ↔
      a = b := by
  constructor
  · rintro ⟨hmethod, hpath, htask⟩
    rw [path_eq, path_eq] at hpath
    have hresource := Resource.path_inj hpath
    have hsent : (fun key => a.task.value? key) = fun key => b.task.value? key := funext htask
    have ha := read_eq a
    rw [hmethod, hresource, hsent, read_eq b] at ha
    exact (Option.some.inj ha).symm
  · rintro rfl
    exact ⟨rfl, rfl, fun _ => rfl⟩

end Karupasu.EventProvider
