import Karupasu.Event.ApplySheetBaseline
import Karupasu.Event.Detail
import Karupasu.Root.Launch
import Karupasu.Root.RoomOrigins
import Karupasu.Search.SearchView
import Karupasu.Library.Tickets
import Karupasu.Session.Operations
import Karupasu.Event.Create
import Karupasu.Login.SignIn
import Karupasu.Event.Edit
import Karupasu.Event.Confirm
import Karupasu.Event.PickerRows
import Karupasu.Event.OptionTable
import Karupasu.Event.ApplyRequests
import Karupasu.Event.ApplyAnswers
import Karupasu.Event.EventCellModel
import Karupasu.Event.EventCreateViewStream
import Karupasu.Event.CollectionCells
import Karupasu.Root.RoomPass
import Karupasu.Event.CellContents
import Karupasu.Extention.RxSwiftEx
import Karupasu.Provider.EventProvider
import Karupasu.Provider.EventRequests
import Karupasu.Search.SearchRequests
import Karupasu.Search.EventFilter
import Karupasu.Util.UserDefaults
import Karupasu.Chat.TalkRooms
import Karupasu.Chat.TalkMessages
import Karupasu.Extention.ClassEx
import Karupasu.Event.MemberTable
import Karupasu.Library.Loops
import Karupasu.Library.BatchUpdates
import Karupasu.Differentiator.Diff
import Karupasu.Library.Matching
import Karupasu.Library.BatchStages
import Karupasu.Differentiator.Sections
import Karupasu.Differentiator.Items
import Karupasu.Differentiator.Commands
import Karupasu.Differentiator.Stages
import Karupasu.Differentiator.AnimatedDataSource
import Karupasu.Event.CollectionUpdates
import Karupasu.Library.PercentEncoding
import Karupasu.Provider.HTTPHeaders
import Karupasu.Provider.URLEncoding
import Karupasu.Provider.Targets
import Karupasu.Library.Handovers
import Karupasu.Root.RootViewController
import Karupasu.Library.Deliveries
import Karupasu.RxSwift.Bag
import Karupasu.RxSwift.Subjects
import Karupasu.RxSwift.PublishSubject
import Karupasu.RxSwift.BehaviorSubject
import Karupasu.RxSwift.Relays
import Karupasu.RxSwift.CompositeDisposable
import Karupasu.Event.DetailScreen
import Karupasu.Event.ConfirmScreens
import Karupasu.Model.Codables
import Karupasu.Event.Submission
import Karupasu.Library.CanonicalEquivalence
import Karupasu.Differentiator.AnimatedRows
import Karupasu.Differentiator.OneSection
import Karupasu.Event.TableUpdates
