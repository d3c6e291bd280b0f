import Karupasu.Library.Machine
import Karupasu.Session.AppData

/-!
# The session: `UserModel`

A handler of `UserModel` is the list of statements it executes, in source order,
so that the states in the middle of a handler can be talked about. Accepting a
value on one of the three credential relays runs the `combineLatest` subscription
made in `init`, which is their first subscriber, before `accept` returns.
-/
namespace Karupasu.UserModel

open Karupasu.Library Karupasu.AppData

/-- The relays of the store that mirror a property of `AppData`. -/
inductive Relay where
  | teamId | name | email | uid | client | accessToken
  deriving DecidableEq

/-- The property a relay is loaded from and saved to. -/
abbrev Relay.key : Relay → Key
  | teamId => .teamId
  | name => .userName
  | email => .userMailAddress
  | uid => .uid
  | client => .client
  | accessToken => .accessToken

abbrev Relay.Value (r : Relay) : Type := r.key.Value

/-- The relays `combineLatest` listens to. -/
def Relay.isCredential : Relay → Bool
  | uid | client | accessToken => true
  | teamId | name | email => false

abbrev Relays := (r : Relay) → r.Value

/-- The value the subscription in `init` gives `isRegistered`. -/
def registered (v : Relays) : Bool :=
  let uid : String := v .uid
  let client : String := v .client
  let accessToken : String := v .accessToken
  let nodata := uid.isEmpty || client.isEmpty || accessToken.isEmpty
  !nodata

/-- The requests of `UsereProvider`. -/
inductive UsereProvider where
  | searchTeam (code : String)
  | signUp (email pass : String) (teamId : Int) (name : String)
  | signIn (email pass : String)
  | signOut
  deriving DecidableEq

/-- An answer as far as the handlers read it: `json?["id"] as? Int`, the string under
`data.name` of the body, and three headers. -/
structure Response where
  statusCode : Int
  id : Option Int := none
  dataName : Option String := none
  uid : Option String := none
  client : Option String := none
  accessToken : Option String := none

/-- An answer or a network error. -/
inductive Outcome where
  | response (r : Response)
  | error

/-- A request in flight, with what its handler captured. -/
inductive Operation where
  | logoutAccount
  | checkTeamId (teamCode : String)
  | registerAccount (name mail pass : String)
  | loginAccount (mail pass : String)
  | autoLoginAccount (mail pass : String)
  deriving DecidableEq

structure State where
  defaults : UserDefaults
  relays : Relays
  isRegistered : Bool
  pending : List Operation

inductive Statement where
  /-- `ud.<property of r> = v` -/
  | set (r : Relay) (v : r.Value)
  /-- `ud.userPassword = v`; the password has no relay. -/
  | setPassword (v : String)
  /-- `ud.<property of r> = self.r.value` -/
  | save (r : Relay)
  | resetALL
  /-- `self.r.accept(v)` -/
  | accept (r : Relay) (v : r.Value)
  /-- `r.accept(ud.<property of r>)` -/
  | load (r : Relay)
  | onNext (b : Bool)
  | onError

/-- What others can see of a handler. -/
inductive Signal where
  | request (target : UsereProvider)
  | isRegistered (b : Bool)
  | onNext (b : Bool)
  | onError
  deriving DecidableEq

def State.accept (s : State) (r : Relay) (v : r.Value) : State :=
  let relays := Function.update s.relays r v
  { s with
    relays := relays
    isRegistered := if r.isCredential then registered relays else s.isRegistered }

def exec (s : State) : Statement → State
  | .set r v => { s with defaults := s.defaults.setValue r.key v }
  | .setPassword v => { s with defaults := s.defaults.setValue .userPassword v }
  | .save r => { s with defaults := s.defaults.setValue r.key (s.relays r) }
  | .resetALL => { s with defaults := AppData.resetALL }
  | .accept r v => s.accept r v
  | .load r => s.accept r (s.defaults.value r.key)
  | .onNext _ | .onError => s

/-- What the statement emits, read at the state after it. -/
def signal (after : State) : Statement → List Signal
  | .accept r _ | .load r => if r.isCredential then [.isRegistered after.isRegistered] else []
  | .onNext b => [.onNext b]
  | .onError => [.onError]
  | .set _ _ | .setPassword _ | .save _ | .resetALL => []

def execAll : State → List Statement → State := List.foldl exec

def signals : State → List Statement → List Signal
  | _, [] => []
  | s, t :: rest => signal (exec s t) t ++ signals (exec s t) rest

/-- The states between the statements of a handler, first and last included. -/
def moments : State → List Statement → List State
  | s, [] => [s]
  | s, t :: rest => s :: moments (exec s t) rest

/-! ## The handlers -/

def saveUserData : List Statement :=
  [.save .teamId, .save .name, .save .email, .save .uid, .save .client, .save .accessToken,
    .onNext true]

def clearUserData : List Statement :=
  [.resetALL, .load .teamId, .load .name, .load .email, .load .uid, .load .client,
    .load .accessToken]

/-- The subscriptions to the answers of `UsereProvider`. -/
def handle : Operation → Outcome → List Statement
  | .logoutAccount, .response r =>
    if r.statusCode = 200 then .onNext true :: clearUserData else [.onNext false]
  | .checkTeamId _, .response r =>
    if r.statusCode = 200 then
      match r.id with
      | some teamId => [.set .teamId teamId, .accept .teamId teamId, .onNext true]
      | none => []
    else [.onNext false]
  | .registerAccount name mail pass, .response r =>
    if r.statusCode = 200 then
      [.set .name name, .set .email mail, .setPassword pass,
        .accept .name name, .accept .email mail, .onNext true]
    else [.onNext false]
  | .loginAccount mail pass, .response r =>
    match decide (r.statusCode = 200), r.dataName, r.uid, r.client, r.accessToken with
    | true, some name, some uid, some client, some accessToken =>
      [.set .uid uid, .set .client client, .set .accessToken accessToken,
        .set .email mail, .set .name name, .setPassword pass,
        .accept .uid uid, .accept .client client, .accept .accessToken accessToken,
        .accept .email mail, .accept .name name, .onNext true]
    | _, _, _, _, _ => [.onNext false]
  | .autoLoginAccount _ _, .response r =>
    match decide (r.statusCode = 200), r.uid, r.client, r.accessToken with
    | true, some uid, some client, some accessToken =>
      [.set .uid uid, .set .client client, .set .accessToken accessToken,
        .accept .uid uid, .accept .client client, .accept .accessToken accessToken,
        .onNext true]
    | _, _, _, _ =>
      if r.statusCode = 400 ∨ r.statusCode = 401 then clearUserData ++ [.onNext false]
      else [.onNext false]
  | _, .error => [.onError]

/-! ## The machine -/

/-- `init` on what is stored: the relays are loaded and then `isRegistered` subscribed. -/
def init (d : UserDefaults) : State :=
  let relays : Relays := fun r => d.value r.key
  { defaults := d, relays := relays, isRegistered := registered relays, pending := [] }

inductive Input where
  /-- The process is started again: `init` on what the last one left behind. -/
  | relaunch
  | saveUserData
  | clearUserData
  | logoutAccount
  | checkTeamId (teamCode : String)
  | registerAccount (name mail pass : String)
  | loginAccount (mail pass : String)
  | autoLoginAccount
  /-- The outcome of the request at this position among those in flight. -/
  | answer (index : Nat) (outcome : Outcome)

/-- The guard of `registerAccount`. -/
def canRegister (s : State) (name mail pass : String) : Bool :=
  let teamId : Int := s.relays .teamId
  let isCorrect := !(name.isEmpty || mail.isEmpty || pass.isEmpty)
  isCorrect && teamId != 0

/-- The request an input sends. -/
def started (s : State) : Input → Option Operation
  | .logoutAccount => some .logoutAccount
  | .checkTeamId teamCode => some (.checkTeamId teamCode)
  | .registerAccount name mail pass =>
    if canRegister s name mail pass then some (.registerAccount name mail pass) else none
  | .loginAccount mail pass => some (.loginAccount mail pass)
  | .autoLoginAccount =>
    some (.autoLoginAccount (s.defaults.value .userMailAddress) (s.defaults.value .userPassword))
  | .relaunch | .saveUserData | .clearUserData | .answer _ _ => none

def target (s : State) : Operation → UsereProvider
  | .logoutAccount => .signOut
  | .checkTeamId teamCode => .searchTeam teamCode
  | .registerAccount name mail pass => .signUp mail pass (s.relays .teamId) name
  | .loginAccount mail pass | .autoLoginAccount mail pass => .signIn mail pass

/-- The statements an input executes at once. -/
def statements (s : State) : Input → List Statement
  | .saveUserData => saveUserData
  | .clearUserData => clearUserData
  | .registerAccount name mail pass =>
    if canRegister s name mail pass then [] else [.onNext false]
  | .answer index outcome =>
    match s.pending[index]? with
    | some op => handle op outcome
    | none => []
  | .relaunch | .logoutAccount | .checkTeamId _ | .loginAccount _ _ | .autoLoginAccount => []

/-- The requests in flight after an input. -/
def pendingAfter (s : State) : Input → List Operation
  | .answer index _ => s.pending.eraseIdx index
  | i => s.pending ++ (started s i).toList

/-- One input within the life of the process. -/
def act (s : State) (i : Input) : State × List Signal :=
  ({ execAll s (statements s i) with pending := pendingAfter s i },
    (started s i).toList.map (fun op => .request (target s op)) ++ signals s (statements s i))

def step (s : State) : Input → State × List Signal
  | .relaunch => (init s.defaults, [])
  | i => act s i

def machine : Machine State Input Signal := ⟨step⟩

end Karupasu.UserModel
