import Karupasu.Event.ConfirmScreens
import Karupasu.Model.Codables
import Karupasu.Provider.Targets

/-!
# An event from the form to the server and back

The requests of the confirm screens as they are sent, with a body that the server reads, and the
text of an answer as the screens read it.
-/
namespace Karupasu.Event.Submission

open Karupasu.Library
open Karupasu.Event.ConfirmScreens (Input Output create edit create_checked edit_checked
  postsChecked)
open Karupasu.Provider (Foundation URLRequest HTTPMethod MoyaError URL base urlPathAllowed)
open Karupasu.Library.PercentEncoding (escape)
open Karupasu.UserModel (Relays)

/-- What is sent for a target, in the session of the relays. -/
def urlRequest (foundation : Foundation) (relays : Relays) (target : EventProvider) :
    Except MoyaError URLRequest :=
  ((Provider.Request.event target).endpoint relays).urlRequest foundation

/-- What the server reads from a request. -/
structure Sent {Image : Type} (method : HTTPMethod) (path : String) (form : Form Image)
    (imageUrl : String) (r : URLRequest) : Prop where
  method : r.httpMethod = method
  location : (r.url.map fun url => (URL.ofString url.absoluteString).location) =
    some (base ++ escape urlPathAllowed path)
  title : r.bodyField "title" = some form.title
  image : r.bodyField "image" = some imageUrl
  maximumParticipantsCount :
    r.bodyField "maximum_participants_count" = some (toString form.member)
  holdingMethod : r.bodyField "holding_method" = some (toString form.place.id)
  genreId : r.bodyField "genre_id" = some (toString form.genre.id)

section Flow

variable {σ ι ο α Image ImageData : Type} {flow : ConfirmScreens σ ι ο α Image ImageData}
  {p : ConfirmScreens.State σ α × List (Output ο α ImageData)} {i : Input ι}

end Flow

variable {Image ImageData : Type}

end Karupasu.Event.Submission
