import Karupasu.Library.JSON
import Karupasu.Records

/-!
# The answers of the server: `Codable`

The records are read through their `CodingKeys`, in the order of the cases; an optional property
may be missing or null. An answer is an event, or a list of events, genres, prefectures or rooms.
-/
namespace Karupasu

open Karupasu.Library
open Karupasu.Library.JSON (Codec Fields FitsInt DecodingError Format Lists Makes)
open Karupasu.Library.JSON.Fields (required optional both record At IfPresent)

/-! ## The coding keys -/

namespace EventModel

def EventDetail.fields : Fields EventDetail :=
  record
    (both (required "prefecture_id" .int)
      (both (required "participation" .int)
        (both (required "participants_count" .int)
          (both (optional "max_participant_count" .int)
            (required "participants_names" (.array .string))
            (by decide)) (by decide)) (by decide)) (by decide))
    (fun p => ⟨p.1, p.2.1, p.2.2.1, p.2.2.2.2, p.2.2.2.1⟩)
    (fun d => (d.prefecture, d.isJoined, d.participantsCount, d.maxParticipantsCount,
      d.participantsNames))
    (fun _ => rfl)

def Event.fields : Fields Event :=
  record
    (both (required "id" .int)
      (both (required "title" .string)
        (both (required "image" .string)
          (both (required "genre_id" .int)
            (both (required "holding_method" .int)
              (both (optional "participation" .int)
                (both (optional "favorite" .int)
                  (both (optional "participants_count" .int)
                    (both (required "maximum_participants_count" .int)
                      (both (optional "is_host" .int)
                        (optional "details" (.array (.object EventDetail.fields)))
                        (by decide)) (by decide)) (by decide)) (by decide)) (by decide))
              (by decide)) (by decide)) (by decide)) (by decide)) (by decide))
    (fun p => ⟨p.1, p.2.1, p.2.2.1, p.2.2.2.1, p.2.2.2.2.1, p.2.2.2.2.2.1, p.2.2.2.2.2.2.1,
      p.2.2.2.2.2.2.2.1, p.2.2.2.2.2.2.2.2.1, p.2.2.2.2.2.2.2.2.2.1, p.2.2.2.2.2.2.2.2.2.2⟩)
    (fun e => (e.id, e.title, e.imageUrl, e.genreId, e.place, e.isJoined, e.isBookmark,
      e.participantsCount, e.maxParticipantsCount, e.isHost, e.details))
    (fun _ => rfl)

end EventModel

def GenreModel.Genre.fields : Fields GenreModel.Genre :=
  record (both (required "id" .int) (required "name" .string) (by decide))
    (fun p => ⟨p.1, p.2⟩) (fun g => (g.id, g.name)) (fun _ => rfl)

def PrefectureModel.Prefecture.fields : Fields PrefectureModel.Prefecture :=
  record (both (required "id" .int) (required "name" .string) (by decide))
    (fun p => ⟨p.1, p.2⟩) (fun pre => (pre.id, pre.name)) (fun _ => rfl)

namespace RoomModel

def User.fields : Fields User :=
  record
    (both (required "id" .int)
      (both (required "name" .string) (required "image" .string) (by decide)) (by decide))
    (fun p => ⟨p.1, p.2.1, p.2.2⟩) (fun u => (u.id, u.name, u.iconUrl)) (fun _ => rfl)

def Room.fields : Fields Room :=
  record
    (both (required "room_id" .int)
      (both (required "title" .string)
        (both (required "prefecture" .string)
          (both (required "participants_count" .int)
            (both (required "image" .string)
              (required "users" (.array (.object User.fields)))
              (by decide)) (by decide)) (by decide)) (by decide)) (by decide))
    (fun p => ⟨p.1, p.2.1, p.2.2.1, p.2.2.2.1, p.2.2.2.2.1, p.2.2.2.2.2⟩)
    (fun r => (r.roomId, r.title, r.prefecture, r.participantsCount, r.imageUrl, r.users))
    (fun _ => rfl)

end RoomModel

/-! ## What the answers look like -/

/-- A number without a fraction, in 64 bits. -/
def IsInt (n : Int) (j : JSON) : Prop := j = .number n ∧ FitsInt n

def IsString (text : String) (j : JSON) : Prop := j = .string text

namespace EventModel

structure EventDetail.Written (d : EventDetail) (look : String → Option JSON) : Prop where
  prefecture : At look "prefecture_id" (IsInt d.prefecture)
  isJoined : At look "participation" (IsInt d.isJoined)
  participantsCount : At look "participants_count" (IsInt d.participantsCount)
  maxParticipantsCount : IfPresent look "max_participant_count" IsInt d.maxParticipantsCount
  participantsNames : At look "participants_names" (Lists IsString d.participantsNames)

structure Event.Written (e : Event) (look : String → Option JSON) : Prop where
  id : At look "id" (IsInt e.id)
  title : At look "title" (IsString e.title)
  imageUrl : At look "image" (IsString e.imageUrl)
  genreId : At look "genre_id" (IsInt e.genreId)
  place : At look "holding_method" (IsInt e.place)
  isJoined : IfPresent look "participation" IsInt e.isJoined
  isBookmark : IfPresent look "favorite" IsInt e.isBookmark
  participantsCount : IfPresent look "participants_count" IsInt e.participantsCount
  maxParticipantsCount : At look "maximum_participants_count" (IsInt e.maxParticipantsCount)
  isHost : IfPresent look "is_host" IsInt e.isHost
  details : IfPresent look "details" (Lists (Makes EventDetail.Written)) e.details

end EventModel

structure GenreModel.Genre.Written (g : GenreModel.Genre) (look : String → Option JSON) : Prop where
  id : At look "id" (IsInt g.id)
  name : At look "name" (IsString g.name)

structure PrefectureModel.Prefecture.Written (pre : PrefectureModel.Prefecture)
    (look : String → Option JSON) : Prop where
  id : At look "id" (IsInt pre.id)
  name : At look "name" (IsString pre.name)

namespace RoomModel

structure User.Written (u : User) (look : String → Option JSON) : Prop where
  id : At look "id" (IsInt u.id)
  name : At look "name" (IsString u.name)
  iconUrl : At look "image" (IsString u.iconUrl)

structure Room.Written (r : Room) (look : String → Option JSON) : Prop where
  roomId : At look "room_id" (IsInt r.roomId)
  title : At look "title" (IsString r.title)
  prefecture : At look "prefecture" (IsString r.prefecture)
  participantsCount : At look "participants_count" (IsInt r.participantsCount)
  imageUrl : At look "image" (IsString r.imageUrl)
  users : At look "users" (Lists (Makes User.Written) r.users)

end RoomModel

variable {look : String → Option JSON}

theorem names_eq_ok {j : JSON} {names : List String} :
    (Codec.array .string).decode j = .ok names ↔ Lists IsString names j :=
  JSON.Codec.array_eq_ok fun _ _ => JSON.Codec.string_eq_ok

namespace EventModel

theorem EventDetail.fields_eq_ok (look : String → Option JSON) (d : EventDetail) :
    EventDetail.fields.decode look = .ok d ↔ d.Written look := by
  unfold EventDetail.fields
  rw [JSON.Fields.record_eq_ok (fun _ => rfl)]
  simp only [JSON.Fields.both_eq_ok, JSON.Fields.required_eq_ok, JSON.Fields.optional_eq_ok,
    JSON.Codec.int_eq_ok, names_eq_ok]
  constructor
  · intro h
    obtain ⟨hp, hj, hc, hm, hn⟩ := h
    exact ⟨hp, hj, hc, hm, hn⟩
  · intro h
    exact ⟨h.prefecture, h.isJoined, h.participantsCount, h.maxParticipantsCount,
      h.participantsNames⟩

theorem Event.fields_eq_ok (look : String → Option JSON) (e : Event) :
    Event.fields.decode look = .ok e ↔ e.Written look := by
  have hdetails : ∀ j details, (Codec.array (.object EventDetail.fields)).decode j = .ok details ↔
      Lists (Makes EventDetail.Written) details j :=
    fun _ _ => JSON.Codec.array_eq_ok fun _ _ => JSON.Codec.object_eq_ok EventDetail.fields_eq_ok
  unfold Event.fields
  rw [JSON.Fields.record_eq_ok (fun _ => rfl)]
  simp only [JSON.Fields.both_eq_ok, JSON.Fields.required_eq_ok, JSON.Fields.optional_eq_ok,
    JSON.Codec.int_eq_ok, JSON.Codec.string_eq_ok, hdetails]
  constructor
  · intro h
    obtain ⟨hi, ht, hu, hg, hp, hj, hb, hc, hm, hh, hd⟩ := h
    exact ⟨hi, ht, hu, hg, hp, hj, hb, hc, hm, hh, hd⟩
  · intro h
    exact ⟨h.id, h.title, h.imageUrl, h.genreId, h.place, h.isJoined, h.isBookmark,
      h.participantsCount, h.maxParticipantsCount, h.isHost, h.details⟩

end EventModel

theorem GenreModel.Genre.fields_eq_ok (look : String → Option JSON) (g : GenreModel.Genre) :
    GenreModel.Genre.fields.decode look = .ok g ↔ g.Written look := by
  unfold GenreModel.Genre.fields
  rw [JSON.Fields.record_eq_ok (fun _ => rfl)]
  simp only [JSON.Fields.both_eq_ok, JSON.Fields.required_eq_ok, JSON.Codec.int_eq_ok,
    JSON.Codec.string_eq_ok]
  exact ⟨fun h => ⟨h.1, h.2⟩, fun h => ⟨h.id, h.name⟩⟩

theorem PrefectureModel.Prefecture.fields_eq_ok (look : String → Option JSON)
    (pre : PrefectureModel.Prefecture) :
    PrefectureModel.Prefecture.fields.decode look = .ok pre ↔ pre.Written look := by
  unfold PrefectureModel.Prefecture.fields
  rw [JSON.Fields.record_eq_ok (fun _ => rfl)]
  simp only [JSON.Fields.both_eq_ok, JSON.Fields.required_eq_ok, JSON.Codec.int_eq_ok,
    JSON.Codec.string_eq_ok]
  exact ⟨fun h => ⟨h.1, h.2⟩, fun h => ⟨h.id, h.name⟩⟩

namespace RoomModel

theorem User.fields_eq_ok (look : String → Option JSON) (u : User) :
    User.fields.decode look = .ok u ↔ u.Written look := by
  unfold User.fields
  rw [JSON.Fields.record_eq_ok (fun _ => rfl)]
  simp only [JSON.Fields.both_eq_ok, JSON.Fields.required_eq_ok, JSON.Codec.int_eq_ok,
    JSON.Codec.string_eq_ok]
  exact ⟨fun h => ⟨h.1, h.2.1, h.2.2⟩, fun h => ⟨h.id, h.name, h.iconUrl⟩⟩

theorem Room.fields_eq_ok (look : String → Option JSON) (r : Room) :
    Room.fields.decode look = .ok r ↔ r.Written look := by
  have husers : ∀ j users, (Codec.array (.object User.fields)).decode j = .ok users ↔
      Lists (Makes User.Written) users j :=
    fun _ _ => JSON.Codec.array_eq_ok fun _ _ => JSON.Codec.object_eq_ok User.fields_eq_ok
  unfold Room.fields
  rw [JSON.Fields.record_eq_ok (fun _ => rfl)]
  simp only [JSON.Fields.both_eq_ok, JSON.Fields.required_eq_ok, JSON.Codec.int_eq_ok,
    JSON.Codec.string_eq_ok, husers]
  constructor
  · intro h
    obtain ⟨hi, ht, hp, hc, hu, hs⟩ := h
    exact ⟨hi, ht, hp, hc, hu, hs⟩
  · intro h
    exact ⟨h.roomId, h.title, h.prefecture, h.participantsCount, h.imageUrl, h.users⟩

end RoomModel

/-! ## The answers -/

/-- What an answer of the server is decoded as. -/
inductive Answer where
  | events
  | event
  | genres
  | prefectures
  | rooms
  deriving DecidableEq

namespace Answer

def Value : Answer → Type
  | events => List EventModel.Event
  | event => EventModel.Event
  | genres => List GenreModel.Genre
  | prefectures => List PrefectureModel.Prefecture
  | rooms => List RoomModel.Room

/-- `JSONDecoder().decode` at the type of the answer. -/
def codec : (answer : Answer) → Codec answer.Value
  | events => .array (.object EventModel.Event.fields)
  | event => .object EventModel.Event.fields
  | genres => .array (.object GenreModel.Genre.fields)
  | prefectures => .array (.object PrefectureModel.Prefecture.fields)
  | rooms => .array (.object RoomModel.Room.fields)

/-- The texts that stand for a value. -/
def Text : (answer : Answer) → answer.Value → JSON → Prop
  | events => Lists (Makes EventModel.Event.Written)
  | event => Makes EventModel.Event.Written
  | genres => Lists (Makes GenreModel.Genre.Written)
  | prefectures => Lists (Makes PrefectureModel.Prefecture.Written)
  | rooms => Lists (Makes RoomModel.Room.Written)

theorem codec_eq_ok (answer : Answer) (j : JSON) (value : answer.Value) :
    answer.codec.decode j = .ok value ↔ answer.Text value j := by
  cases answer with
  | events =>
    exact JSON.Codec.array_eq_ok fun _ _ => JSON.Codec.object_eq_ok EventModel.Event.fields_eq_ok
  | event => exact JSON.Codec.object_eq_ok EventModel.Event.fields_eq_ok
  | genres =>
    exact JSON.Codec.array_eq_ok fun _ _ => JSON.Codec.object_eq_ok GenreModel.Genre.fields_eq_ok
  | prefectures =>
    exact JSON.Codec.array_eq_ok fun _ _ =>
      JSON.Codec.object_eq_ok PrefectureModel.Prefecture.fields_eq_ok
  | rooms =>
    exact JSON.Codec.array_eq_ok fun _ _ => JSON.Codec.object_eq_ok RoomModel.Room.fields_eq_ok

end Answer

/-! ## Writing and reading back -/

namespace EventModel

def EventDetail.ints (d : EventDetail) : List Int :=
  [d.prefecture, d.isJoined, d.participantsCount] ++ d.maxParticipantsCount.toList

def Event.ints (e : Event) : List Int :=
  [e.id, e.genreId, e.place] ++ e.isJoined.toList ++ e.isBookmark.toList ++
    e.participantsCount.toList ++ [e.maxParticipantsCount] ++ e.isHost.toList ++
      (e.details.getD []).flatMap EventDetail.ints

end EventModel

def RoomModel.Room.ints (r : RoomModel.Room) : List Int :=
  [r.roomId, r.participantsCount] ++ r.users.map (·.id)

/-- The integers of an answer. -/
def Answer.ints : (answer : Answer) → answer.Value → List Int
  | .events, es => es.flatMap EventModel.Event.ints
  | .event, e => EventModel.Event.ints e
  | .genres, gs => gs.map fun g : GenreModel.Genre => g.id
  | .prefectures, ps => ps.map fun pre : PrefectureModel.Prefecture => pre.id
  | .rooms, rs => rs.flatMap RoomModel.Room.ints

theorem EventModel.EventDetail.writable {d : EventModel.EventDetail}
    (h : ∀ n ∈ d.ints, FitsInt n) : EventModel.EventDetail.fields.Writable d := by
  simp only [ints, List.cons_append, List.nil_append, List.forall_mem_cons] at h
  obtain ⟨hp, hj, hc, hm⟩ := h
  have hmax : ∀ n, d.maxParticipantsCount = some n → FitsInt n :=
    fun n hn => hm n (by simp [hn])
  exact ⟨hp, hj, hc, hmax, fun _ _ => trivial⟩

theorem EventModel.Event.writable {e : EventModel.Event} (h : ∀ n ∈ e.ints, FitsInt n) :
    EventModel.Event.fields.Writable e := by
  have hmem : ∀ n, n ∈ e.ints ↔ n = e.id ∨ n = e.genreId ∨ n = e.place ∨ e.isJoined = some n ∨
      e.isBookmark = some n ∨ e.participantsCount = some n ∨ n = e.maxParticipantsCount ∨
      e.isHost = some n ∨ n ∈ (e.details.getD []).flatMap EventDetail.ints := by
    intro n
    simp [ints]
  simp only [hmem] at h
  have hjoined : ∀ n, e.isJoined = some n → FitsInt n := fun n hn => h n (by simp [hn])
  have hbookmark : ∀ n, e.isBookmark = some n → FitsInt n := fun n hn => h n (by simp [hn])
  have hcount : ∀ n, e.participantsCount = some n → FitsInt n := fun n hn => h n (by simp [hn])
  have hhost : ∀ n, e.isHost = some n → FitsInt n := fun n hn => h n (by simp [hn])
  have hdetails : ∀ details, e.details = some details → ∀ d ∈ details,
      EventDetail.fields.Writable d := by
    intro details hd d hm
    refine EventDetail.writable fun n hn => h n ?_
    have hin : n ∈ (e.details.getD []).flatMap EventDetail.ints := by
      rw [hd]
      exact List.mem_flatMap.mpr ⟨d, hm, hn⟩
    simp only [hin, or_true]
  exact ⟨h _ (by simp), trivial, trivial, h _ (by simp), h _ (by simp), hjoined, hbookmark, hcount,
    h _ (by simp), hhost, hdetails⟩

theorem RoomModel.Room.writable {r : RoomModel.Room} (h : ∀ n ∈ r.ints, FitsInt n) :
    RoomModel.Room.fields.Writable r := by
  simp only [ints, List.cons_append, List.nil_append, List.forall_mem_cons,
    List.forall_mem_map] at h
  obtain ⟨hi, hc, hu⟩ := h
  exact ⟨hi, trivial, trivial, hc, trivial, fun u hm => ⟨hu u hm, trivial, trivial⟩⟩

/-- The integers of Swift have 64 bits. -/
theorem Answer.writable {answer : Answer} {value : answer.Value}
    (h : ∀ n ∈ answer.ints value, FitsInt n) : answer.codec.Writable value := by
  cases answer with
  | events =>
    exact fun e he => EventModel.Event.writable fun n hn =>
      h n (List.mem_flatMap.mpr ⟨e, he, hn⟩)
  | event => exact EventModel.Event.writable h
  | genres =>
    exact fun g hg => ⟨h g.id (List.mem_map.mpr ⟨g, hg, rfl⟩), trivial⟩
  | prefectures =>
    exact fun pre hp => ⟨h pre.id (List.mem_map.mpr ⟨pre, hp, rfl⟩), trivial⟩
  | rooms =>
    exact fun r hr => RoomModel.Room.writable fun n hn => h n (List.mem_flatMap.mpr ⟨r, hr, hn⟩)

theorem At.fits {key : String} {n : Int} (h : At look key (IsInt n)) : FitsInt n := by
  obtain ⟨j, _, _, hn⟩ := h
  exact hn

theorem IfPresent.fits {key : String} {o : Option Int} (h : IfPresent look key IsInt o) {n : Int}
    (hn : n ∈ o.toList) : FitsInt n := by
  obtain ⟨ho, _⟩ | ⟨j, m, _, _, ⟨_, hm⟩, ho⟩ := h
  · rw [ho] at hn
    cases hn
  · rw [ho, Option.toList_some, List.mem_singleton] at hn
    exact hn ▸ hm

namespace EventModel

theorem EventDetail.Written.fits {d : EventDetail} (h : d.Written look) :
    ∀ n ∈ d.ints, FitsInt n := by
  simp only [EventDetail.ints, List.cons_append, List.nil_append, List.forall_mem_cons]
  exact ⟨At.fits h.prefecture, At.fits h.isJoined, At.fits h.participantsCount,
    fun n hn => IfPresent.fits h.maxParticipantsCount hn⟩

theorem Event.Written.fits {e : Event} (h : e.Written look) : ∀ n ∈ e.ints, FitsInt n := by
  simp only [Event.ints, List.forall_mem_append, List.forall_mem_cons]
  refine ⟨⟨⟨⟨⟨⟨⟨At.fits h.id, At.fits h.genreId, At.fits h.place, fun n hn => absurd hn
    List.not_mem_nil⟩, fun n hn => IfPresent.fits h.isJoined hn⟩,
    fun n hn => IfPresent.fits h.isBookmark hn⟩, fun n hn => IfPresent.fits h.participantsCount hn⟩,
    At.fits h.maxParticipantsCount, fun n hn => absurd hn List.not_mem_nil⟩,
    fun n hn => IfPresent.fits h.isHost hn⟩, fun n hn => ?_⟩
  obtain ⟨d, hd, hn⟩ := List.mem_flatMap.mp hn
  obtain ⟨ho, _⟩ | ⟨j, details, _, _, hl, ho⟩ := h.details
  · rw [ho] at hd
    cases hd
  · rw [ho] at hd
    obtain ⟨i, entries, _, hw⟩ := hl.exists hd
    exact hw.fits n hn

end EventModel

theorem RoomModel.Room.Written.fits {r : RoomModel.Room} (h : r.Written look) :
    ∀ n ∈ r.ints, FitsInt n := by
  simp only [RoomModel.Room.ints, List.cons_append, List.nil_append, List.forall_mem_cons,
    List.forall_mem_map]
  refine ⟨At.fits h.roomId, At.fits h.participantsCount, fun u hu => ?_⟩
  obtain ⟨j, _, hl⟩ := h.users
  obtain ⟨i, entries, _, hw⟩ := hl.exists hu
  exact At.fits hw.id

/-- Texts only stand for integers of 64 bits. -/
theorem Answer.fits {answer : Answer} {value : answer.Value} {j : JSON}
    (h : answer.Text value j) : ∀ n ∈ answer.ints value, FitsInt n := by
  intro n hn
  cases answer with
  | events =>
    obtain ⟨e, he, hn⟩ := List.mem_flatMap.mp hn
    obtain ⟨i, entries, _, hw⟩ := JSON.Lists.exists h he
    exact hw.fits n hn
  | event =>
    obtain ⟨entries, _, hw⟩ := h
    exact hw.fits n hn
  | genres =>
    obtain ⟨g, hg, rfl⟩ := List.mem_map.mp hn
    obtain ⟨i, entries, _, hw⟩ := JSON.Lists.exists h hg
    exact At.fits hw.id
  | prefectures =>
    obtain ⟨pre, hp, rfl⟩ := List.mem_map.mp hn
    obtain ⟨i, entries, _, hw⟩ := JSON.Lists.exists h hp
    exact At.fits hw.id
  | rooms =>
    obtain ⟨r, hr, hn⟩ := List.mem_flatMap.mp hn
    obtain ⟨i, entries, _, hw⟩ := JSON.Lists.exists h hr
    exact hw.fits n hn

/-- A value is read from the texts that stand for it and from no others, and from the text it is
written as exactly when its integers have 64 bits, as those of Swift do. -/
theorem Answer.reads_back (answer : Answer) (value : answer.Value) :
    (∀ j, answer.codec.decode j = .ok value ↔ answer.Text value j) ∧
      (answer.codec.decode (answer.codec.encode value) = .ok value ↔
        ∀ n ∈ answer.ints value, FitsInt n) := by
  refine ⟨fun j => answer.codec_eq_ok j value, fun h => ?_, fun h => ?_⟩
  · exact Answer.fits ((answer.codec_eq_ok _ value).mp h)
  · exact answer.codec.decode_encode value (Answer.writable h)

/-- An event of the stub answers. Its details have their number of places under another key than
the one that is read. -/
def stubEvent : JSON :=
  .object [("id", .number 1), ("title", .string "lunch"), ("image", .string ""),
    ("holding_method", .number 1), ("genre_id", .number 1),
    ("maximum_participants_count", .number 2),
    ("details", .array [.object [("prefecture_id", .number 1), ("participation", .number 1),
      ("participants_count", .number 2), ("participants_names", .array [.string "a"]),
      ("maximum_participants_count", .number 2)]])]

example : Answer.event.codec.decode stubEvent =
    .ok ⟨1, "lunch", "", 1, 1, none, none, none, 2, none, some [⟨1, 1, 2, ["a"], none⟩]⟩ := rfl

/-! ## Answers that are not read -/

/-! The coding keys, in the order in which they are read -/

namespace EventModel

def EventDetail.format : Format :=
  .object
    [.required "prefecture_id" .int,
      .required "participation" .int,
      .required "participants_count" .int,
      .optional "max_participant_count" .int,
      .required "participants_names" (.array .string)]

def Event.format : Format :=
  .object
    [.required "id" .int,
      .required "title" .string,
      .required "image" .string,
      .required "genre_id" .int,
      .required "holding_method" .int,
      .optional "participation" .int,
      .optional "favorite" .int,
      .optional "participants_count" .int,
      .required "maximum_participants_count" .int,
      .optional "is_host" .int,
      .optional "details" (.array EventDetail.format)]

end EventModel

def GenreModel.Genre.format : Format :=
  .object [.required "id" .int, .required "name" .string]

def PrefectureModel.Prefecture.format : Format :=
  .object [.required "id" .int, .required "name" .string]

namespace RoomModel

def User.format : Format :=
  .object [.required "id" .int, .required "name" .string, .required "image" .string]

def Room.format : Format :=
  .object
    [.required "room_id" .int,
      .required "title" .string,
      .required "prefecture" .string,
      .required "participants_count" .int,
      .required "image" .string,
      .required "users" (.array User.format)]

end RoomModel

namespace Answer

def format : Answer → Format
  | events => .array EventModel.Event.format
  | event => EventModel.Event.format
  | genres => .array GenreModel.Genre.format
  | prefectures => .array PrefectureModel.Prefecture.format
  | rooms => .array RoomModel.Room.format

theorem format_codec (answer : Answer) : answer.codec.format = answer.format := by
  cases answer <;> rfl

/-- The decoder reports an error exactly if it is true: its path leads to the first place of the
answer that is not read, and it says what is wrong there. Read are the texts of the values. -/
theorem decode_rejects (answer : Answer) (j : JSON) :
    (∀ e, answer.codec.decode j = .error e ↔ answer.format.Blames j e) ∧
      (answer.format.Reads j ↔ ∃ value, answer.Text value j) := by
  rw [← format_codec]
  refine ⟨answer.codec.decode_eq_error_iff j, ?_⟩
  rw [answer.codec.reads_iff]
  exact exists_congr (answer.codec_eq_ok j)

/-- Two genres, the second without a name. -/
def namelessGenre : JSON :=
  .array [.object [("id", .number 1), ("name", .string "food")], .object [("id", .number 2)]]

example : genres.codec.decode namelessGenre = .error ⟨.keyNotFound "name", [.index 1]⟩ := rfl

end Answer

end Karupasu
