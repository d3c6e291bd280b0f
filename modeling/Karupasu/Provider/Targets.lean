import Karupasu.Provider.EventRequests
import Karupasu.Provider.URLEncoding
import Karupasu.Session.UserModel

/-!
# The requests of all providers on the wire

Each provider describes its requests by a path, a method, a task and headers. What is sent is the
method, a URL under the base of the API, a body and the headers.
-/
namespace Karupasu.Provider

open Karupasu.Library.PercentEncoding
open Karupasu.UserModel (Relays UsereProvider)

/-- `TargetType`; the headers are read from the session when a request is made. -/
class TargetType (Target : Type) where
  path : Target → String
  method : Target → HTTPMethod
  task : Target → Task
  headers : Relays → Target → Option (List (String × String))

/-- `AppConstants.API` -/
def v : String := "v1"

def base : String := "http://mc.miraito.tech/" ++ v

def baseURL : URL := ⟨base, none⟩

/-- The headers that identify the session. -/
def credentials (relays : Relays) : List (String × String) :=
  [("uid", relays .uid), ("client", relays .client), ("access-token", relays .accessToken)]

section

variable {Target : Type} [TargetType Target]

/-- `URL.init(target:)` -/
def targetURL (target : Target) : URL :=
  if (TargetType.path target).isEmpty then baseURL
  else baseURL.appendingPathComponent (TargetType.path target)

def defaultEndpointMapping (relays : Relays) (target : Target) : Endpoint where
  url := (targetURL target).absoluteString
  method := TargetType.method target
  task := TargetType.task target
  httpHeaderFields := TargetType.headers relays target

end

/-! ## `EventProvider` -/

def ofMethod : EventProvider.Method → HTTPMethod
  | .get => .get
  | .post => .post
  | .put => .put
  | .delete => .delete

theorem ofMethod_inj {m m' : EventProvider.Method} (h : ofMethod m = ofMethod m') : m = m' := by
  cases m <;> cases m' <;> first | rfl | contradiction

def ofParameter : EventProvider.Parameter → Value
  | .string value => .other value
  | .int value => .number value

def ofTask : EventProvider.Task → Task
  | .requestParameters parameters =>
    .requestParameters (parameters.map fun p => (p.1, ofParameter p.2)) {}
  | .requestPlain => .requestPlain

instance : TargetType EventProvider where
  path := EventProvider.path
  method target := ofMethod target.method
  task target := ofTask target.task
  headers relays _ := some (credentials relays)

/-! ## `UsereProvider` -/

instance : TargetType UsereProvider where
  path
    | .searchTeam _ => "/teams/search"
    | .signUp .. => "/auth"
    | .signIn .. => "/auth/sign_in"
    | .signOut => "/auth/sign_out"
  method
    | .searchTeam _ => .get
    | .signUp .. | .signIn .. => .post
    | .signOut => .delete
  task
    | .searchTeam code => .requestParameters [("code", .other code)] {}
    | .signUp email pass teamId name =>
      .requestParameters [("email", .other email), ("password", .other pass),
        ("team_id", .number teamId), ("name", .other name)] {}
    | .signIn email pass =>
      .requestParameters [("email", .other email), ("password", .other pass)]
        { destination := .queryString }
    | .signOut => .requestPlain
  headers relays
    | .searchTeam _ | .signUp .. | .signIn .. => none
    | .signOut => some (credentials relays)

/-! ## `GenreProvider`, `PrefectureProvider` and `RoomProvider` -/

inductive GenreProvider where
  | getGenres

instance : TargetType GenreProvider where
  path _ := "/genres"
  method _ := .get
  task _ := .requestPlain
  headers relays _ := some (credentials relays)

inductive PrefectureProvider where
  | getPrefectures

instance : TargetType PrefectureProvider where
  path _ := "/prefectures"
  method _ := .get
  task _ := .requestPlain
  headers relays _ := some (credentials relays)

inductive RoomProvider where
  | getRoom

instance : TargetType RoomProvider where
  path _ := "/talk_rooms"
  method _ := .get
  task _ := .requestPlain
  headers relays _ := some (credentials relays)

/-- A request of one of the providers. -/
inductive Request where
  | event (target : EventProvider)
  | user (target : UsereProvider)
  | genre (target : GenreProvider)
  | prefecture (target : PrefectureProvider)
  | room (target : RoomProvider)

instance : TargetType Request where
  path
    | .event target => TargetType.path target
    | .user target => TargetType.path target
    | .genre target => TargetType.path target
    | .prefecture target => TargetType.path target
    | .room target => TargetType.path target
  method
    | .event target => TargetType.method target
    | .user target => TargetType.method target
    | .genre target => TargetType.method target
    | .prefecture target => TargetType.method target
    | .room target => TargetType.method target
  task
    | .event target => TargetType.task target
    | .user target => TargetType.task target
    | .genre target => TargetType.task target
    | .prefecture target => TargetType.task target
    | .room target => TargetType.task target
  headers relays
    | .event target => TargetType.headers relays target
    | .user target => TargetType.headers relays target
    | .genre target => TargetType.headers relays target
    | .prefecture target => TargetType.headers relays target
    | .room target => TargetType.headers relays target

def Request.endpoint (relays : Relays) (request : Request) : Endpoint :=
  defaultEndpointMapping relays request

/-! ## Paths and URLs -/

section

variable {Target : Type} [TargetType Target] {target : Target}

theorem targetURL_eq (h : (TargetType.path target).toList.head? = some '/') :
    targetURL target = ⟨base ++ escape urlPathAllowed (TargetType.path target), none⟩ := by
  have hne : (TargetType.path target).isEmpty = false := by
    rw [String.isEmpty_eq_false_iff]
    intro he
    rw [he] at h
    exact absurd h (by decide)
  unfold targetURL URL.appendingPathComponent
  rw [hne, if_neg Bool.false_ne_true, if_pos h, baseURL]
  simp

/-- Whatever the path is, the URL of a target is one that Foundation takes as it is. -/
theorem isWeb_targetURL (h : (TargetType.path target).toList.head? = some '/') :
    (targetURL target).isWeb = true := by
  have hpath : wellEscaped urlPathAllowed
      ((escape urlPathAllowed (TargetType.path target)).toList ++ []) = true :=
    wellEscaped_escape (by decide) (fun _ hc => hc) (TargetType.path target) []
  rw [List.append_nil] at hpath
  have hbase : base.toList = ['h', 't', 't', 'p', ':', '/', '/', 'm', 'c', '.', 'm', 'i', 'r', 'a',
      'i', 't', 'o', '.', 't', 'e', 'c', 'h', '/', 'v', '1'] := by
    decide +kernel
  have hlocation : ∀ path : List Char,
      URL.isWebLocation (base.toList ++ path) = wellEscaped urlPathAllowed path := by
    intro path
    have hv : wellEscaped urlPathAllowed ('/' :: 'v' :: '1' :: path) =
        wellEscaped urlPathAllowed path := by
      rw [wellEscaped_cons (by decide), wellEscaped_cons (by decide), wellEscaped_cons (by decide)]
      rfl
    rw [hbase, ← hv]
    rfl
  rw [targetURL_eq h, URL.isWeb, String.toList_append, hlocation, hpath]
  rfl

end

theorem take_eventPath (target : EventProvider) :
    target.path.toList.take 3 = ['/', 'e', 'v'] := by
  rw [EventProvider.path_eq]
  cases target.resource with
  | event eventId suffix =>
    rw [EventProvider.Resource.path, String.toList_append]
    rfl
  | _ => rfl

/-- How the path of a request begins. -/
def Request.mark : Request → List Char
  | event _ => ['/', 'e', 'v']
  | user (.searchTeam _) => ['/', 't', 'e']
  | user _ => ['/', 'a', 'u']
  | genre _ => ['/', 'g', 'e']
  | prefecture _ => ['/', 'p', 'r']
  | room _ => ['/', 't', 'a']

theorem Request.take_path (request : Request) :
    (TargetType.path request).toList.take 3 = request.mark := by
  cases request with
  | event target => exact take_eventPath target
  | user target =>
    cases target with
    | searchTeam code =>
      show "/teams/search".toList.take 3 = ['/', 't', 'e']
      decide
    | signUp email pass teamId name =>
      show "/auth".toList.take 3 = ['/', 'a', 'u']
      decide
    | signIn email pass =>
      show "/auth/sign_in".toList.take 3 = ['/', 'a', 'u']
      decide
    | signOut =>
      show "/auth/sign_out".toList.take 3 = ['/', 'a', 'u']
      decide
  | genre target =>
    show "/genres".toList.take 3 = ['/', 'g', 'e']
    decide
  | prefecture target =>
    show "/prefectures".toList.take 3 = ['/', 'p', 'r']
    decide
  | room target =>
    show "/talk_rooms".toList.take 3 = ['/', 't', 'a']
    decide

theorem Request.head_path (request : Request) :
    (TargetType.path request).toList.head? = some '/' := by
  have h := congrArg List.head? request.take_path
  rw [List.head?_take, if_neg (by decide)] at h
  rw [h]
  cases request with
  | user target => cases target <;> rfl
  | _ => rfl

/-! ## What a request says -/

namespace URLEncoding

variable (encoding : URLEncoding)

/-- The text of a value that is neither a dictionary nor an array. -/
def scalar : Value → Option String
  | .number value => some (toString value)
  | .bool value => some (encoding.boolEncoding.encode value)
  | .other description => some description
  | .dictionary _ | .array _ => none

theorem fields_scalar {value : Value} {text : String} (h : encoding.scalar value = some text)
    (key : String) : encoding.fields key value = [(key, text)] := by
  cases value with
  | dictionary entries => exact absurd h (Option.some_ne_none _).symm
  | array values => exact absurd h (Option.some_ne_none _).symm
  | number value => rw [fields, Option.some.inj h]
  | bool value => rw [fields, Option.some.inj h]
  | other description => rw [fields, Option.some.inj h]

/-- What is sent under a key is the text of the parameter. -/
theorem lookup_sent {parameters : Parameters}
    (h : ∀ p ∈ parameters, (encoding.scalar p.2).isSome = true) (key : String) :
    (encoding.sent parameters).lookup key = (parameters.lookup key).bind encoding.scalar := by
  have hblock : ∀ k, encoding.fieldsAt parameters k =
      ((parameters.lookup k).bind encoding.scalar).toList.map fun text => (k, text) := by
    intro k
    unfold fieldsAt
    cases hk : parameters.lookup k with
    | none => rfl
    | some value =>
      obtain ⟨l, l', rfl, -⟩ := List.lookup_eq_some_iff.mp hk
      have hvalue := h (k, value) (List.mem_append_right _ List.mem_cons_self)
      obtain ⟨text, htext⟩ := Option.isSome_iff_exists.mp hvalue
      rw [Option.bind_some, htext]
      exact encoding.fields_scalar htext k
  have hkeys : ∀ keys : List String,
      (keys.flatMap fun k => ((parameters.lookup k).bind encoding.scalar).toList.map
        fun text => (k, text)).lookup key =
        if key ∈ keys then (parameters.lookup key).bind encoding.scalar else none := by
    intro keys
    induction keys with
    | nil => rfl
    | cons k keys ih =>
      rw [List.flatMap_cons, List.lookup_append, ih]
      by_cases hk : key = k
      · subst hk
        cases (parameters.lookup key).bind encoding.scalar <;> simp
      · cases (parameters.lookup k).bind encoding.scalar <;> simp [hk]
  have hsent : encoding.sent parameters = (sortedKeys parameters).flatMap fun k =>
      ((parameters.lookup k).bind encoding.scalar).toList.map fun text => (k, text) :=
    congrArg (fun f => List.flatMap f (sortedKeys parameters)) (funext hblock)
  rw [hsent, hkeys]
  by_cases hmem : key ∈ sortedKeys parameters
  · rw [if_pos hmem]
  · have hnone : parameters.lookup key = none := by
      rw [List.lookup_eq_none_iff]
      intro p hp
      rw [bne_iff_ne]
      rintro rfl
      exact hmem (List.mem_mergeSort.mpr (List.mem_map_of_mem hp))
    rw [if_neg hmem, hnone]
    rfl

end URLEncoding

/-- The text of a parameter of the event API. -/
def text : EventProvider.Parameter → String
  | .string value => value
  | .int value => toString value

theorem scalar_ofParameter (encoding : URLEncoding) (value : EventProvider.Parameter) :
    encoding.scalar (ofParameter value) = some (text value) := by
  cases value <;> rfl

theorem lookup_eventFields (task : EventProvider.Task) (key : String) :
    (ofTask task).fields.lookup key = (task.value? key).map text := by
  cases task with
  | requestPlain => rfl
  | requestParameters parameters =>
    show (URLEncoding.sent {} _).lookup key = (parameters.lookup key).map text
    rw [URLEncoding.lookup_sent]
    · induction parameters with
      | nil => rfl
      | cons p parameters ih =>
        rw [List.map_cons, List.lookup_cons, List.lookup_cons]
        cases key == p.1 with
        | true => exact scalar_ofParameter {} p.2
        | false => exact ih
    · intro p hp
      obtain ⟨q, -, rfl⟩ := List.mem_map.mp hp
      rw [scalar_ofParameter]
      rfl

/-- The keys that are sent with a text; the others are sent with a number. -/
def isText (key : String) : Bool := key ∈ ["word", "title", "image"]

def KeysTyped (parameters : EventProvider.Parameters) : Prop :=
  ∀ p ∈ parameters, p.2.string?.isSome = isText p.1

theorem KeysTyped.put {parameters : EventProvider.Parameters} (h : KeysTyped parameters)
    {key : String} {value : Option EventProvider.Parameter}
    (hv : ∀ v, value = some v → v.string?.isSome = isText key) :
    KeysTyped (EventProvider.put parameters key value) := by
  cases value with
  | none => exact h
  | some v =>
    intro p hp
    obtain hp | hp := List.mem_append.mp hp
    · exact h p hp
    · rw [List.mem_singleton] at hp
      subst hp
      exact hv v rfl

theorem keysTyped_eventParameters (title imageUrl : String) (maxMember place genreId : Int) :
    KeysTyped (EventProvider.eventParameters title imageUrl maxMember place genreId) := by
  simp [KeysTyped, EventProvider.eventParameters, EventProvider.Parameter.string?, isText]

theorem keysTyped_prefectureId (prefectureId : Int) :
    KeysTyped [("prefecture_id", .int prefectureId)] := by
  simp [KeysTyped, EventProvider.Parameter.string?, isText]

theorem keysTyped_task (target : EventProvider) {parameters : EventProvider.Parameters}
    (h : target.task = .requestParameters parameters) : KeysTyped parameters := by
  cases target with
  | getEvents word genreId holdingMethod =>
    obtain rfl := EventProvider.Task.requestParameters.inj h
    have hnil : KeysTyped [] := fun p hp => absurd hp List.not_mem_nil
    refine ((hnil.put ?_).put ?_).put ?_
    · intro v hv
      by_cases hw : word.isEmpty = true
      · rw [if_pos hw] at hv
        exact absurd hv.symm (Option.some_ne_none v)
      · rw [if_neg hw] at hv
        obtain rfl := Option.some.inj hv
        rfl
    · intro v hv
      obtain ⟨n, -, rfl⟩ := Option.map_eq_some_iff.mp hv
      rfl
    · intro v hv
      obtain ⟨n, -, rfl⟩ := Option.map_eq_some_iff.mp hv
      rfl
  | postEvent title imageUrl maxMember place genreId =>
    obtain rfl := EventProvider.Task.requestParameters.inj h
    exact keysTyped_eventParameters title imageUrl maxMember place genreId
  | putEvent eventId title imageUrl maxMember place genreId =>
    obtain rfl := EventProvider.Task.requestParameters.inj h
    exact keysTyped_eventParameters title imageUrl maxMember place genreId
  | postApplyEvent eventId prefectureId =>
    obtain rfl := EventProvider.Task.requestParameters.inj h
    exact keysTyped_prefectureId prefectureId
  | postCancelEvent eventId prefectureId =>
    obtain rfl := EventProvider.Task.requestParameters.inj h
    exact keysTyped_prefectureId prefectureId
  | getEventDetails | getFavoriteEvents | getParticipantEvents | postFavorite | deleteEvent =>
    contradiction

theorem string?_eq_isText {target : EventProvider} {key : String} {v : EventProvider.Parameter}
    (h : target.task.value? key = some v) : v.string?.isSome = isText key := by
  cases htask : target.task with
  | requestPlain =>
    rw [htask] at h
    exact absurd h.symm (Option.some_ne_none v)
  | requestParameters parameters =>
    rw [htask] at h
    obtain ⟨l, l', rfl, -⟩ := List.lookup_eq_some_iff.mp h
    exact keysTyped_task target htask (key, v) (List.mem_append_right _ List.mem_cons_self)

/-- Under one key, the text tells the parameter. -/
theorem text_inj {v w : EventProvider.Parameter} (h : v.string?.isSome = w.string?.isSome)
    (ht : text v = text w) : v = w := by
  cases v with
  | string s =>
    cases w with
    | string t => exact congrArg _ ht
    | int n => exact absurd h (by simp [EventProvider.Parameter.string?])
  | int m =>
    cases w with
    | string t => exact absurd h (by simp [EventProvider.Parameter.string?])
    | int n => exact congrArg _ (Library.Numerals.toString_inj.mp ht)

theorem event_eq {a b : EventProvider} (hmethod : a.method = b.method) (hpath : a.path = b.path)
    (hfields : (ofTask a.task).fields = (ofTask b.task).fields) : a = b := by
  have hsent : (fun key => a.task.value? key) = fun key => b.task.value? key := by
    funext key
    have htext := congrArg (List.lookup key) hfields
    rw [lookup_eventFields, lookup_eventFields] at htext
    cases ha : a.task.value? key with
    | none =>
      rw [ha, Option.map_none, eq_comm, Option.map_eq_none_iff] at htext
      exact htext.symm
    | some v =>
      rw [ha, Option.map_some, eq_comm, Option.map_eq_some_iff] at htext
      obtain ⟨w, hb, hw⟩ := htext
      rw [hb]
      refine congrArg some (text_inj ?_ hw.symm)
      rw [string?_eq_isText ha, string?_eq_isText hb]
  rw [EventProvider.path_eq, EventProvider.path_eq] at hpath
  have hresource := EventProvider.Resource.path_inj hpath
  have ha := EventProvider.read_eq a
  rw [hmethod, hresource, hsent, EventProvider.read_eq b] at ha
  exact (Option.some.inj ha).symm

/-! ## Requests of `UsereProvider` -/

/-- What a sign-in or a sign-up says under a key. -/
theorem lookup_user_fields (target : UsereProvider) {parameters : Parameters}
    {encoding : URLEncoding} (h : TargetType.task target = .requestParameters parameters encoding)
    (key : String) : (TargetType.task target).fields.lookup key =
      (parameters.lookup key).bind encoding.scalar := by
  rw [h]
  refine encoding.lookup_sent ?_ key
  cases target with
  | searchTeam code =>
    obtain ⟨rfl, rfl⟩ := Task.requestParameters.inj h
    simp [URLEncoding.scalar]
  | signUp email pass teamId name =>
    obtain ⟨rfl, rfl⟩ := Task.requestParameters.inj h
    simp [URLEncoding.scalar]
  | signIn email pass =>
    obtain ⟨rfl, rfl⟩ := Task.requestParameters.inj h
    simp [URLEncoding.scalar]
  | signOut => contradiction

theorem lookup_key {a b : UsereProvider}
    (hfields : (TargetType.task a).fields = (TargetType.task b).fields)
    {ps qs : Parameters} {e f : URLEncoding}
    (ha : TargetType.task a = .requestParameters ps e)
    (hb : TargetType.task b = .requestParameters qs f) (key : String) :
    (ps.lookup key).bind e.scalar = (qs.lookup key).bind f.scalar := by
  rw [← lookup_user_fields a ha, ← lookup_user_fields b hb, hfields]

/-- The requests without what they are about. -/
def kind : UsereProvider → Nat
  | .searchTeam _ => 0
  | .signUp .. => 1
  | .signIn .. => 2
  | .signOut => 3

theorem user_path (target : UsereProvider) :
    ["/teams/search", "/auth", "/auth/sign_in", "/auth/sign_out"][kind target]? =
      some (TargetType.path target) := by
  cases target <;> rfl

theorem kind_eq {a b : UsereProvider} (h : TargetType.path a = TargetType.path b) :
    kind a = kind b := by
  have hlt : ∀ c, kind c < 4 := fun c => by cases c <;> simp [kind]
  have hn : ["/teams/search", "/auth", "/auth/sign_in", "/auth/sign_out"].Nodup := by decide
  refine (List.getElem?_inj (hlt a) hn).mp ?_
  rw [user_path, user_path, h]

theorem user_eq {a b : UsereProvider} (hpath : TargetType.path a = TargetType.path b)
    (hfields : (TargetType.task a).fields = (TargetType.task b).fields) : a = b := by
  have hkind := kind_eq hpath
  cases a with
  | searchTeam code =>
    cases b with
    | searchTeam code' =>
      have hcode := lookup_key hfields rfl rfl "code"
      exact congrArg _ (Option.some.inj hcode)
    | _ => simp [kind] at hkind
  | signUp email pass teamId name =>
    cases b with
    | signUp email' pass' teamId' name' =>
      have hemail := lookup_key hfields rfl rfl "email"
      have hpass := lookup_key hfields rfl rfl "password"
      have hteam := lookup_key hfields rfl rfl "team_id"
      have hname := lookup_key hfields rfl rfl "name"
      simp [URLEncoding.scalar, List.lookup] at hemail hpass hteam hname
      rw [hemail, hpass, hteam, hname]
    | _ => simp [kind] at hkind
  | signIn email pass =>
    cases b with
    | signIn email' pass' =>
      have hemail := lookup_key hfields rfl rfl "email"
      have hpass := lookup_key hfields rfl rfl "password"
      simp [URLEncoding.scalar, List.lookup] at hemail hpass
      rw [hemail, hpass]
    | _ => simp [kind] at hkind
  | signOut =>
    cases b with
    | signOut => rfl
    | _ => simp [kind] at hkind

/-! ## Messages -/

namespace Request

theorem url_eq (relays : Relays) (request : Request) :
    (request.endpoint relays).url = base ++ escape urlPathAllowed (TargetType.path request) := by
  show (targetURL request).absoluteString = _
  rw [targetURL_eq request.head_path]
  rfl

theorem isWeb_endpoint (relays : Relays) (request : Request) : (request.endpoint relays).IsWeb := by
  have hweb := isWeb_targetURL request.head_path
  rw [targetURL_eq request.head_path] at hweb
  rw [Endpoint.IsWeb, url_eq]
  exact hweb

theorem eq_of_path {a b : Request} (hmethod : TargetType.method a = TargetType.method b)
    (hpath : TargetType.path a = TargetType.path b)
    (hfields : (TargetType.task a).fields = (TargetType.task b).fields) : a = b := by
  have hmark : a.mark = b.mark := by rw [← a.take_path, ← b.take_path, hpath]
  cases a with
  | event target =>
    cases b with
    | event target' => exact congrArg event (event_eq (ofMethod_inj hmethod) hpath hfields)
    | user target' => cases target' <;> simp [mark] at hmark
    | _ => simp [mark] at hmark
  | user target =>
    cases b with
    | user target' => exact congrArg user (user_eq hpath hfields)
    | _ => cases target <;> simp [mark] at hmark
  | genre target =>
    cases b with
    | genre target' => rfl
    | user target' => cases target' <;> simp [mark] at hmark
    | _ => simp [mark] at hmark
  | prefecture target =>
    cases b with
    | prefecture target' => rfl
    | user target' => cases target' <;> simp [mark] at hmark
    | _ => simp [mark] at hmark
  | room target =>
    cases b with
    | room target' => rfl
    | user target' => cases target' <;> simp [mark] at hmark
    | _ => simp [mark] at hmark

/-- Two requests that are sent with the same method, URL and body are the same request, whoever
is signed in. -/
theorem message_inj (foundation : Foundation) (relays relays' : Relays) (a b : Request) :
    (a.endpoint relays).message foundation = (b.endpoint relays').message foundation ↔ a = b := by
  constructor
  · intro h
    obtain ⟨hmethod, hurl, hfields⟩ :=
      Endpoint.eq_of_message_eq (a.isWeb_endpoint relays) (b.isWeb_endpoint relays') h
    rw [url_eq, url_eq, String.append_right_inj, escape_inj (by decide)] at hurl
    exact eq_of_path hmethod hurl hfields
  · rintro rfl
    rw [Endpoint.message_eq foundation (a.isWeb_endpoint relays),
      Endpoint.message_eq foundation (a.isWeb_endpoint relays')]
    rfl

/-! ## What is sent where -/

/-- Requests that are made without a session. -/
def isOpen : Request → Bool
  | user (.searchTeam _) | user (.signUp ..) | user (.signIn ..) => true
  | _ => false

theorem headers_eq (relays : Relays) (request : Request) :
    TargetType.headers relays request =
      if request.isOpen then none else some (credentials relays) := by
  cases request with
  | user target => cases target <;> rfl
  | _ => rfl

def sessionOf (headers : HTTPHeaders) : Option (String × String × String) := do
  let uid ← headers.value "uid"
  let client ← headers.value "client"
  let accessToken ← headers.value "access-token"
  return (uid, client, accessToken)

/-- The session a request is made in can be read from its headers. -/
def session (request : URLRequest) : Option (String × String × String) := sessionOf request.headers

theorem sessionOf_credentials (relays : Relays) {headers : HTTPHeaders}
    (h : headers = HTTPHeaders.ofDictionary (credentials relays)) :
    sessionOf headers = some (relays .uid, relays .client, relays .accessToken) := by
  have hnames : [lowercased "uid", lowercased "client", lowercased "access-token"].Nodup := by
    decide
  have hheaders : headers.headers = (credentials relays).map fun p => ⟨p.1, p.2⟩ := by
    rw [h]
    exact HTTPHeaders.headers_ofHeaders hnames
  have hclient : lowercased "uid" ≠ lowercased "client" := by decide
  have htoken : lowercased "uid" ≠ lowercased "access-token" ∧
      lowercased "client" ≠ lowercased "access-token" := by decide
  unfold sessionOf
  simp [HTTPHeaders.value_eq, hheaders, credentials, HTTPHeader.lowercasedName, hclient, htoken]

theorem sessionOf_endpoint (relays : Relays) (request : Request) :
    sessionOf (request.endpoint relays).headers =
      if request.isOpen then none
      else some (relays .uid, relays .client, relays .accessToken) := by
  have hfields : (request.endpoint relays).httpHeaderFields =
      if request.isOpen then none else some (credentials relays) := headers_eq relays request
  unfold Endpoint.headers
  rw [hfields]
  cases request.isOpen with
  | true => rfl
  | false => exact sessionOf_credentials relays rfl

/-- Every request of every provider is made without an error: Foundation takes its URL as it is. Its
method, its URL and its body say what the endpoint is to say, and its headers who is signed in. -/
theorem urlRequest_carries (foundation : Foundation) (relays : Relays) (request : Request) :
    ∃ r, (request.endpoint relays).urlRequest foundation = .ok r ∧
      r.Carries (request.endpoint relays) ∧
      session r = if request.isOpen then none
        else some (relays .uid, relays .client, relays .accessToken) := by
  obtain ⟨r, hr, hcarries⟩ :=
    Endpoint.carries_urlRequest foundation (request.isWeb_endpoint relays)
  refine ⟨r, hr, hcarries, ?_⟩
  rw [← sessionOf_endpoint]
  unfold session sessionOf
  rw [hcarries.headers "uid" (by decide), hcarries.headers "client" (by decide),
    hcarries.headers "access-token" (by decide)]

/-! ## Passwords -/

def signInPassword : Request → Option String
  | user (.signIn _ pass) => some pass
  | _ => none

def signUpPassword : Request → Option String
  | user (.signUp _ pass _ _) => some pass
  | _ => none

theorem event_password (target : EventProvider) :
    (ofTask target.task).fields.lookup "password" = none := by
  have hvalue : target.task.value? "password" = none := by
    cases target with
    | getEvents word genreId holdingMethod =>
      obtain ⟨-, -, -, hothers⟩ := EventProvider.value?_getEvents word genreId holdingMethod
      exact hothers "password" (by decide) (by decide) (by decide)
    | _ => rfl
  rw [lookup_eventFields, hvalue]
  rfl

theorem user_password (target : UsereProvider) :
    (TargetType.task target).fields.lookup "password" =
      (signInPassword (user target)).or (signUpPassword (user target)) := by
  cases target with
  | searchTeam code =>
    rw [lookup_user_fields _ rfl]
    rfl
  | signUp email pass teamId name =>
    rw [lookup_user_fields _ rfl]
    rfl
  | signIn email pass =>
    rw [lookup_user_fields _ rfl]
    rfl
  | signOut => rfl

theorem fields_password (request : Request) :
    (TargetType.task request).fields.lookup "password" =
      request.signInPassword.or request.signUpPassword := by
  cases request with
  | event target => exact event_password target
  | user target => exact user_password target
  | genre target => rfl
  | prefecture target => rfl
  | room target => rfl

/-- The password of a sign-in is read from the URL, the one of a sign-up from the body, and there
is no password in any other request. -/
theorem password_sent (foundation : Foundation) (relays : Relays) (request : Request) :
    ∃ r, (request.endpoint relays).urlRequest foundation = .ok r ∧
      r.queryField "password" = request.signInPassword ∧
      r.bodyField "password" = request.signUpPassword := by
  obtain ⟨r, hr, hcarries⟩ :=
    Endpoint.carries_urlRequest foundation (request.isWeb_endpoint relays)
  have hfields : (request.endpoint relays).task.fields.lookup "password" =
      request.signInPassword.or request.signUpPassword := request.fields_password
  refine ⟨r, hr, ?_, ?_⟩
  · rw [hcarries.queryField_eq, hfields]
    cases request with
    | user target => cases target <;> rfl
    | _ => exact ite_self _
  · rw [hcarries.bodyField_eq, hfields]
    cases request with
    | user target => cases target <;> rfl
    | _ => exact ite_self _

end Request
end Karupasu.Provider
