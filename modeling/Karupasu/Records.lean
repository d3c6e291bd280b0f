/-!
# The records exchanged with the server

The fields and their names are those of the `Codable` structs of the models.
-/
namespace Karupasu

namespace EventModel

structure EventDetail where
  prefecture : Int
  isJoined : Int
  participantsCount : Int
  participantsNames : List String
  maxParticipantsCount : Option Int
  deriving DecidableEq

structure Event where
  id : Int
  title : String
  imageUrl : String
  genreId : Int
  place : Int
  isJoined : Option Int
  isBookmark : Option Int
  participantsCount : Option Int
  maxParticipantsCount : Int
  isHost : Option Int
  details : Option (List EventDetail)
  deriving DecidableEq

end EventModel

namespace PrefectureModel

structure Prefecture where
  id : Int
  name : String
  deriving DecidableEq

end PrefectureModel

namespace GenreModel

structure Genre where
  id : Int
  name : String
  deriving DecidableEq

end GenreModel

namespace PlaceModel

structure Place where
  id : Int
  name : String
  deriving DecidableEq

end PlaceModel

namespace RoomModel

structure User where
  id : Int
  name : String
  iconUrl : String
  deriving DecidableEq

structure Room where
  roomId : Int
  title : String
  prefecture : String
  participantsCount : Int
  imageUrl : String
  users : List User
  deriving DecidableEq

end RoomModel
end Karupasu
