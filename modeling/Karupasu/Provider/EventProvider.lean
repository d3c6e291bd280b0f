/-!
# The requests of the event API: `EventProvider`

The method, the path and the parameters of each request. The parameters of a request are a
dictionary; their keys are pairwise distinct and listed here in the order of the source.
-/
namespace Karupasu

inductive EventProvider where
  | getEvents (word : String) (genreId holdingMethod : Option Int)
  | postEvent (title imageUrl : String) (maxMember place genreId : Int)
  | putEvent (eventId : Int) (title imageUrl : String) (maxMember place genreId : Int)
  | deleteEvent (eventId : Int)
  | getEventDetails (eventId : Int)
  | postApplyEvent (eventId prefectureId : Int)
  | postCancelEvent (eventId prefectureId : Int)
  | postFavorite (eventId : Int)
  | getFavoriteEvents
  | getParticipantEvents
  deriving DecidableEq

namespace EventProvider

/-- `Moya.Method` -/
inductive Method where
  | get | post | put | delete
  deriving DecidableEq

inductive Parameter where
  | string (value : String)
  | int (value : Int)
  deriving DecidableEq

abbrev Parameters := List (String × Parameter)

/-- Moya's `Task`; all parameters are sent with `URLEncoding.default`. -/
inductive Task where
  | requestParameters (parameters : Parameters)
  | requestPlain
  deriving DecidableEq

def path : EventProvider → String
  | getEvents .. => "/events"
  | postEvent .. => "/events"
  | putEvent eventId .. => "/events/" ++ toString eventId
  | deleteEvent eventId => "/events/" ++ toString eventId
  | getEventDetails eventId => "/events/" ++ toString eventId
  | postApplyEvent eventId _ => "/events/" ++ toString eventId ++ "/apply"
  | postCancelEvent eventId _ => "/events/" ++ toString eventId ++ "/cancel"
  | postFavorite eventId => "/events/" ++ toString eventId ++ "/favorite"
  | getFavoriteEvents => "/events/favorites"
  | getParticipantEvents => "/events/participants"

def method : EventProvider → Method
  | getEvents .. | getEventDetails _ | getFavoriteEvents | getParticipantEvents => .get
  | postEvent .. | postApplyEvent .. | postCancelEvent .. | postFavorite _ => .post
  | putEvent .. => .put
  | deleteEvent _ => .delete

/-- `if let value = value { params[key] = value }` on a key not yet there. -/
def put (params : Parameters) (key : String) : Option Parameter → Parameters
  | some value => params ++ [(key, value)]
  | none => params

/-- The parameters of an event that is created or updated. -/
def eventParameters (title imageUrl : String) (maxMember place genreId : Int) : Parameters :=
  [("title", .string title), ("image", .string imageUrl),
    ("maximum_participants_count", .int maxMember), ("holding_method", .int place),
    ("genre_id", .int genreId)]

def task : EventProvider → Task
  | getEvents word genreId holdingMethod =>
    let params := put [] "word" (if word.isEmpty then none else some (.string word))
    let params := put params "genre_id" (genreId.map .int)
    .requestParameters (put params "holding_method" (holdingMethod.map .int))
  | postEvent title imageUrl maxMember place genreId =>
    .requestParameters (eventParameters title imageUrl maxMember place genreId)
  | putEvent _ title imageUrl maxMember place genreId =>
    .requestParameters (eventParameters title imageUrl maxMember place genreId)
  | postApplyEvent _ prefectureId => .requestParameters [("prefecture_id", .int prefectureId)]
  | postCancelEvent _ prefectureId => .requestParameters [("prefecture_id", .int prefectureId)]
  | getEventDetails _ | getFavoriteEvents | getParticipantEvents | postFavorite _
  | deleteEvent _ => .requestPlain

namespace Task

/-- The value sent under a key. -/
def value? (key : String) : Task → Option Parameter
  | requestParameters parameters => parameters.lookup key
  | requestPlain => none

end Task

theorem lookup_put (params : Parameters) (key key' : String) (value : Option Parameter) :
    (put params key value).lookup key' =
      (params.lookup key').or (if key' == key then value else none) := by
  cases value with
  | none => simp [put]
  | some value =>
    rw [put, List.lookup_append, List.lookup_cons, List.lookup_nil]
    cases key' == key <;> rfl

/-- The parameters of a search: each is sent exactly when there is something to send. -/
theorem value?_getEvents (word : String) (genreId holdingMethod : Option Int) :
    let sent := (getEvents word genreId holdingMethod).task
    sent.value? "word" = (if word = "" then none else some (.string word)) ∧
      sent.value? "genre_id" = genreId.map .int ∧
      sent.value? "holding_method" = holdingMethod.map .int ∧
      ∀ key, key ≠ "word" → key ≠ "genre_id" → key ≠ "holding_method" → sent.value? key = none := by
  intro sent
  have hvalue : ∀ key, sent.value? key =
      ((if key == "word" then if word.isEmpty then none else some (.string word) else none).or
        (if key == "genre_id" then genreId.map Parameter.int else none)).or
          (if key == "holding_method" then holdingMethod.map Parameter.int else none) := by
    intro key
    simp only [sent, task, Task.value?, lookup_put, List.lookup_nil, Option.none_or]
  refine ⟨?_, ?_, ?_, fun key hw hg hh => ?_⟩
  · rw [hvalue]
    by_cases hword : word = "" <;> simp [hword]
  · simp [hvalue]
  · simp [hvalue]
  · simp [hvalue, hw, hg, hh]

end EventProvider
end Karupasu
