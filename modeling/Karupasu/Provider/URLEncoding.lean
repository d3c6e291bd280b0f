import Karupasu.Provider.HTTPHeaders
import Karupasu.Provider.URLs

/-!
# How parameters get into a request

Moya makes an `Endpoint` of a target and a `URLRequest` of the endpoint; Alamofire's `URLEncoding`
writes the parameters into the query of the URL or into the body. Dictionaries are lists of
entries, their keys pairwise distinct in the source.
-/
namespace Karupasu.Provider

open Karupasu.Library.PercentEncoding

/-! ## Values -/

/-- What `queryComponents` tells apart in a value. -/
inductive Value where
  | dictionary (entries : List (String × Value))
  | array (values : List Value)
  | number (value : Int)
  | bool (value : Bool)
  /-- Anything else, by its description. -/
  | other (description : String)

abbrev Parameters := List (String × Value)

inductive HTTPMethod where
  | connect | delete | get | head | options | patch | post | put | trace
  deriving DecidableEq

def HTTPMethod.rawValue : HTTPMethod → String
  | connect => "CONNECT"
  | delete => "DELETE"
  | get => "GET"
  | head => "HEAD"
  | options => "OPTIONS"
  | patch => "PATCH"
  | post => "POST"
  | put => "PUT"
  | trace => "TRACE"

theorem HTTPMethod.rawValue_inj {m m' : HTTPMethod} : m.rawValue = m'.rawValue ↔ m = m' := by
  cases m <;> cases m' <;> decide

/-! ## Requests -/

structure URLRequest where
  url : Option URL
  httpMethod : HTTPMethod
  allHTTPHeaderFields : Option (List (String × String))
  httpBody : Option String

namespace URLRequest

def headers (request : URLRequest) : HTTPHeaders :=
  match request.allHTTPHeaderFields with
  | some dictionary => HTTPHeaders.ofDictionary dictionary
  | none => HTTPHeaders.empty

def setHeaders (request : URLRequest) (headers : HTTPHeaders) : URLRequest :=
  { request with allHTTPHeaderFields := some headers.dictionary }

end URLRequest

inductive AFError where
  | missingURL
  deriving DecidableEq

/-! ## `URLEncoding` -/

inductive Destination where
  | methodDependent | queryString | httpBody
  deriving DecidableEq

def Destination.encodesParametersInURL : Destination → HTTPMethod → Bool
  | methodDependent, method => method ∈ [.get, .head, .delete]
  | queryString, _ => true
  | httpBody, _ => false

inductive ArrayEncoding where
  | brackets | noBrackets
  deriving DecidableEq

def ArrayEncoding.encode (key : String) : ArrayEncoding → String
  | brackets => key ++ "[]"
  | noBrackets => key

inductive BoolEncoding where
  | numeric | literal
  deriving DecidableEq

def BoolEncoding.encode (value : Bool) : BoolEncoding → String
  | numeric => if value then "1" else "0"
  | literal => if value then "true" else "false"

structure URLEncoding where
  destination : Destination := .methodDependent
  arrayEncoding : ArrayEncoding := .brackets
  boolEncoding : BoolEncoding := .numeric

/-- The general and the sub-delimiters, without `?` and `/`. -/
def encodableDelimiters : List Char :=
  [':', '#', '[', ']', '@', '!', '$', '&', '\'', '(', ')', '*', '+', ',', ';', '=']

def afURLQueryAllowed (c : Char) : Bool := urlQueryAllowed c && !decide (c ∈ encodableDelimiters)

namespace URLEncoding

def escape (string : String) : String :=
  Library.PercentEncoding.escape afURLQueryAllowed string

variable (encoding : URLEncoding)

mutual

def queryComponents (key : String) : Value → List (String × String)
  | .dictionary entries => dictionaryComponents key entries
  | .array values => arrayComponents key values
  | .number value => [(escape key, escape (toString value))]
  | .bool value => [(escape key, escape (encoding.boolEncoding.encode value))]
  | .other description => [(escape key, escape description)]

/-- The loop over a nested dictionary. -/
def dictionaryComponents (key : String) : List (String × Value) → List (String × String)
  | [] => []
  | (nestedKey, value) :: rest =>
    queryComponents (key ++ "[" ++ nestedKey ++ "]") value ++ dictionaryComponents key rest

/-- The loop over a nested array. -/
def arrayComponents (key : String) : List Value → List (String × String)
  | [] => []
  | value :: rest =>
    queryComponents (encoding.arrayEncoding.encode key) value ++ arrayComponents key rest

end

def sortedKeys (parameters : Parameters) : List String :=
  (parameters.map (·.1)).mergeSort fun a b => decide (a ≤ b)

def query (parameters : Parameters) : String :=
  let components := (sortedKeys parameters).flatMap fun key =>
    match parameters.lookup key with
    | some value => encoding.queryComponents key value
    | none => []
  "&".intercalate (components.map fun p => p.1 ++ "=" ++ p.2)

def contentType : HTTPHeader :=
  ⟨"Content-Type", "application/x-www-form-urlencoded; charset=utf-8"⟩

/-- A request that says nothing about its content is told that it is a form. -/
def withContentType (request : URLRequest) : URLRequest :=
  if (request.headers.value "Content-Type").isNone then
    request.setHeaders (request.headers.update contentType)
  else request

def encode (foundation : Foundation) (request : URLRequest) (parameters : Option Parameters) :
    Except AFError URLRequest :=
  match parameters with
  | none => pure request
  | some parameters =>
    if encoding.destination.encodesParametersInURL request.httpMethod then
      match request.url with
      | none => throw .missingURL
      | some url =>
        match foundation.components url with
        | some urlComponents =>
          if !parameters.isEmpty then
            let percentEncodedQuery :=
              (urlComponents.percentEncodedQuery.map (· ++ "&")).getD "" ++
                encoding.query parameters
            pure { request with
              url := foundation.componentsURL
                { urlComponents with percentEncodedQuery := some percentEncodedQuery } }
          else pure request
        | none => pure request
    else
      pure { withContentType request with httpBody := some (encoding.query parameters) }

end URLEncoding

/-! ## Moya -/

inductive Task where
  | requestPlain
  | requestParameters (parameters : Parameters) (encoding : URLEncoding)

structure Endpoint where
  url : String
  method : HTTPMethod
  task : Task
  httpHeaderFields : Option (List (String × String))

inductive MoyaError where
  | requestMapping (url : String)
  | parameterEncoding (error : AFError)
  deriving DecidableEq

def URLRequest.encoded (foundation : Foundation) (request : URLRequest) (parameters : Parameters)
    (parameterEncoding : URLEncoding) : Except MoyaError URLRequest :=
  match parameterEncoding.encode foundation request (some parameters) with
  | .ok request => pure request
  | .error error => throw (.parameterEncoding error)

/-- The request before its parameters are encoded. -/
def Endpoint.plainRequest (endpoint : Endpoint) (requestURL : URL) : URLRequest :=
  { url := some requestURL, httpMethod := endpoint.method,
    allHTTPHeaderFields := endpoint.httpHeaderFields, httpBody := none }

def Endpoint.urlRequest (foundation : Foundation) (endpoint : Endpoint) :
    Except MoyaError URLRequest :=
  match foundation.url endpoint.url with
  | none => throw (.requestMapping endpoint.url)
  | some requestURL =>
    let request := endpoint.plainRequest requestURL
    match endpoint.task with
    | .requestPlain => pure request
    | .requestParameters parameters parameterEncoding =>
      request.encoded foundation parameters parameterEncoding

/-! ## What a query says -/

namespace URLEncoding

variable (encoding : URLEncoding)

mutual

/-- The names and the texts a value is made of. -/
def fields (key : String) : Value → List (String × String)
  | .dictionary entries => dictionaryFields key entries
  | .array values => arrayFields key values
  | .number value => [(key, toString value)]
  | .bool value => [(key, encoding.boolEncoding.encode value)]
  | .other description => [(key, description)]

def dictionaryFields (key : String) : List (String × Value) → List (String × String)
  | [] => []
  | (nestedKey, value) :: rest =>
    fields (key ++ "[" ++ nestedKey ++ "]") value ++ dictionaryFields key rest

def arrayFields (key : String) : List Value → List (String × String)
  | [] => []
  | value :: rest => fields (encoding.arrayEncoding.encode key) value ++ arrayFields key rest

end

/-- The fields of the parameter with this key. -/
def fieldsAt (parameters : Parameters) (key : String) : List (String × String) :=
  match parameters.lookup key with
  | some value => encoding.fields key value
  | none => []

/-- The fields of the parameters, in the order of their keys. -/
def sent (parameters : Parameters) : List (String × String) :=
  (sortedKeys parameters).flatMap (encoding.fieldsAt parameters)

/-- Both parts of a field escaped. -/
def escapeField (p : String × String) : String × String := (escape p.1, escape p.2)

mutual

theorem queryComponents_eq (key : String) (value : Value) :
    encoding.queryComponents key value = (encoding.fields key value).map escapeField :=
  match value with
  | .dictionary entries => dictionaryComponents_eq key entries
  | .array values => arrayComponents_eq key values
  | .number _ => rfl
  | .bool _ => rfl
  | .other _ => rfl

theorem dictionaryComponents_eq (key : String) (entries : List (String × Value)) :
    encoding.dictionaryComponents key entries =
      (encoding.dictionaryFields key entries).map escapeField :=
  match entries with
  | [] => rfl
  | (nestedKey, value) :: rest => by
    rw [dictionaryComponents, dictionaryFields, List.map_append,
      queryComponents_eq (key ++ "[" ++ nestedKey ++ "]") value, dictionaryComponents_eq key rest]

theorem arrayComponents_eq (key : String) (values : List Value) :
    encoding.arrayComponents key values = (encoding.arrayFields key values).map escapeField :=
  match values with
  | [] => rfl
  | value :: rest => by
    rw [arrayComponents, arrayFields, List.map_append,
      queryComponents_eq (encoding.arrayEncoding.encode key) value, arrayComponents_eq key rest]

end

/-- A query is the form of what it says. -/
theorem query_eq (parameters : Parameters) :
    encoding.query parameters = writeForm afURLQueryAllowed (encoding.sent parameters) := by
  have hcomponents : ((sortedKeys parameters).flatMap fun key =>
      match parameters.lookup key with
      | some value => encoding.queryComponents key value
      | none => []) = (encoding.sent parameters).map escapeField := by
    rw [sent, List.map_flatMap]
    refine congrArg (fun f => List.flatMap f (sortedKeys parameters)) (funext fun key => ?_)
    unfold fieldsAt
    cases parameters.lookup key with
    | none => rfl
    | some value => exact encoding.queryComponents_eq key value
  rw [query, hcomponents, writeForm, List.map_map]
  rfl

theorem safe_afURLQueryAllowed : Safe afURLQueryAllowed where
  percent := by decide
  equals := by decide
  ampersand := by decide

theorem readForm_query (parameters : Parameters) :
    readForm (encoding.query parameters) = some (encoding.sent parameters) := by
  rw [query_eq]
  exact readForm_writeForm safe_afURLQueryAllowed _

/-- Whatever the parameters are made of, the query is read back to what they say, and it is the same
for other parameters exactly when these say the same. -/
theorem query_inj (encoding encoding' : URLEncoding) (parameters parameters' : Parameters) :
    readForm (encoding.query parameters) = some (encoding.sent parameters) ∧
      (encoding.query parameters = encoding'.query parameters' ↔
        encoding.sent parameters = encoding'.sent parameters') := by
  refine ⟨encoding.readForm_query parameters, ?_⟩
  rw [query_eq, query_eq, writeForm_inj safe_afURLQueryAllowed]

/-- Nothing but the headers changes, and of these at most the content type. -/
theorem withContentType_eq (request : URLRequest) :
    ∃ fields, withContentType request = { request with allHTTPHeaderFields := fields } ∧
      ((withContentType request).headers.value "Content-Type").isSome = true ∧
      ∀ name, lowercased name ≠ "content-type" →
        (withContentType request).headers.value name = request.headers.value name := by
  unfold withContentType
  by_cases hnone : (request.headers.value "Content-Type").isNone = true
  · rw [if_pos hnone]
    have hheaders : (request.setHeaders (request.headers.update contentType)).headers =
        request.headers.update contentType := HTTPHeaders.ofDictionary_dictionary _
    have hname : contentType.lowercasedName = lowercased "Content-Type" := rfl
    have hlower : lowercased "Content-Type" = "content-type" := by decide
    refine ⟨_, rfl, ?_, fun name hne => ?_⟩
    · rw [hheaders, HTTPHeaders.value_update, if_pos hname]
      rfl
    · rw [hheaders, HTTPHeaders.value_update, if_neg]
      exact fun he => hne (he.symm.trans (hname.trans hlower))
  · rw [if_neg hnone]
    rw [Bool.not_eq_true, Option.isNone_eq_false_iff] at hnone
    exact ⟨request.allHTTPHeaderFields, rfl, hnone, fun _ _ => rfl⟩

end URLEncoding

/-! ## Reading a request -/

namespace Endpoint

/-- What the query of the URL is to say. -/
def queryFields (endpoint : Endpoint) : Option (List (String × String)) :=
  match endpoint.task with
  | .requestPlain => none
  | .requestParameters parameters encoding =>
    if encoding.destination.encodesParametersInURL endpoint.method ∧ parameters ≠ [] then
      some (encoding.sent parameters)
    else none

/-- What the body is to say. -/
def bodyFields (endpoint : Endpoint) : Option (List (String × String)) :=
  match endpoint.task with
  | .requestPlain => none
  | .requestParameters parameters encoding =>
    if encoding.destination.encodesParametersInURL endpoint.method then none
    else some (encoding.sent parameters)

end Endpoint

/-- The headers of an endpoint. -/
def Endpoint.headers (endpoint : Endpoint) : HTTPHeaders :=
  match endpoint.httpHeaderFields with
  | some dictionary => HTTPHeaders.ofDictionary dictionary
  | none => HTTPHeaders.empty

/-- The URL of the endpoint is one that Foundation takes as it is. -/
def Endpoint.IsWeb (endpoint : Endpoint) : Prop := URL.isWeb ⟨endpoint.url, none⟩ = true

/-- A request carries an endpoint when the text of its URL and its body can be read back to the
fields, and its headers are those of the endpoint and the content type of a body. -/
structure URLRequest.Carries (request : URLRequest) (endpoint : Endpoint) : Prop where
  method : request.httpMethod = endpoint.method
  location : (request.url.map fun url => (URL.ofString url.absoluteString).location) =
    some endpoint.url
  query : (request.url.bind fun url => (URL.ofString url.absoluteString).percentEncodedQuery).map
    readForm = endpoint.queryFields.map some
  body : request.httpBody.map readForm = endpoint.bodyFields.map some
  headers : ∀ name, lowercased name ≠ "content-type" →
    request.headers.value name = endpoint.headers.value name
  contentType : endpoint.bodyFields.isSome = true →
    (request.headers.value "Content-Type").isSome = true

namespace Endpoint

variable {endpoint : Endpoint}

/-- The request of an endpoint, with some headers. -/
def written (endpoint : Endpoint) (fields : Option (List (String × String))) : URLRequest where
  url := some ⟨endpoint.url, endpoint.queryFields.map (writeForm afURLQueryAllowed)⟩
  httpMethod := endpoint.method
  allHTTPHeaderFields := fields
  httpBody := endpoint.bodyFields.map (writeForm afURLQueryAllowed)

/-- A URL stays one that Foundation takes when it gets a query. -/
theorem isWeb_withQuery (h : endpoint.IsWeb) (fields : List (String × String)) :
    URL.isWeb ⟨endpoint.url, some (writeForm afURLQueryAllowed fields)⟩ = true := by
  have hallowed : ∀ c, afURLQueryAllowed c = true → urlQueryAllowed c = true :=
    fun c hc => (Bool.and_eq_true_iff.mp hc).1
  unfold IsWeb URL.isWeb at h
  rw [Bool.and_eq_true] at h
  rw [URL.isWeb, Bool.and_eq_true]
  exact ⟨h.1, wellEscaped_writeForm URLEncoding.safe_afURLQueryAllowed hallowed (by decide)
    (by decide) fields⟩

/-- The request is made, whatever Foundation makes of other URLs. -/
theorem urlRequest_eq (foundation : Foundation) (h : endpoint.IsWeb) :
    ∃ fields, endpoint.urlRequest foundation = .ok (endpoint.written fields) ∧
      (∀ name, lowercased name ≠ "content-type" →
        (endpoint.written fields).headers.value name = endpoint.headers.value name) ∧
      (endpoint.bodyFields.isSome = true →
        ((endpoint.written fields).headers.value "Content-Type").isSome = true) := by
  obtain ⟨url, method, task, httpHeaderFields⟩ := endpoint
  have hurl : foundation.url url = some ⟨url, none⟩ := foundation.url_absoluteString ⟨url, none⟩ h
  have hcomponents : foundation.components ⟨url, none⟩ = some ⟨url, none⟩ :=
    foundation.components_eq ⟨url, none⟩ h
  have hset : ∀ sent : List (String × String),
      foundation.componentsURL ⟨url, some (writeForm afURLQueryAllowed sent)⟩ =
        some ⟨url, some (writeForm afURLQueryAllowed sent)⟩ :=
    fun sent => foundation.componentsURL_eq _ (isWeb_withQuery h sent)
  unfold urlRequest
  simp only [hurl]
  cases task with
  | requestPlain => exact ⟨httpHeaderFields, rfl, fun _ _ => rfl, nofun⟩
  | requestParameters parameters encoding =>
    by_cases hd : encoding.destination.encodesParametersInURL method = true
    · refine ⟨httpHeaderFields, ?_, fun _ _ => rfl, by simp [bodyFields, hd]⟩
      by_cases hp : parameters = []
      · simp [URLRequest.encoded, URLEncoding.encode, plainRequest, hd, hcomponents, hp, written,
          bodyFields, queryFields, pure, Except.pure]
      · simp [URLRequest.encoded, URLEncoding.encode, plainRequest, hd, hcomponents, hp, hset,
          written, bodyFields, queryFields, encoding.query_eq, pure, Except.pure]
    · obtain ⟨fields, hfields, hcontent, hothers⟩ := URLEncoding.withContentType_eq
        ⟨some ⟨url, none⟩, method, httpHeaderFields, none⟩
      rw [hfields] at hcontent hothers
      refine ⟨fields, ?_, hothers, fun _ => hcontent⟩
      simp [URLRequest.encoded, URLEncoding.encode, plainRequest, hd, hfields, written, bodyFields,
        queryFields, encoding.query_eq, pure, Except.pure]

theorem map_readForm (fields : Option (List (String × String))) :
    (fields.map (writeForm afURLQueryAllowed)).map readForm = fields.map some := by
  cases fields with
  | none => rfl
  | some fields => exact congrArg some (readForm_writeForm URLEncoding.safe_afURLQueryAllowed fields)

/-- Every endpoint with a web URL becomes a request that carries it. -/
theorem carries_urlRequest (foundation : Foundation) (h : endpoint.IsWeb) :
    ∃ request, endpoint.urlRequest foundation = .ok request ∧ request.Carries endpoint := by
  obtain ⟨fields, hr, hothers, hcontent⟩ := urlRequest_eq foundation h
  have hread : ∀ query, URL.ofString (URL.absoluteString ⟨endpoint.url, query⟩) =
      ⟨endpoint.url, query⟩ := URL.ofString_absoluteString (URL.question_not_mem h)
  refine ⟨endpoint.written fields, hr, rfl, ?_, ?_, map_readForm _, hothers, hcontent⟩
  · simp [written, hread]
  · simp only [written, Option.bind_some, hread]
    exact map_readForm _

end Endpoint

/-- What the text of the URL says under a key. -/
def URLRequest.queryField (request : URLRequest) (key : String) : Option String := do
  let url ← request.url
  let query ← (URL.ofString url.absoluteString).percentEncodedQuery
  let fields ← readForm query
  fields.lookup key

/-- What the body says under a key. -/
def URLRequest.bodyField (request : URLRequest) (key : String) : Option String := do
  let body ← request.httpBody
  let fields ← readForm body
  fields.lookup key

def Task.fields : Task → List (String × String)
  | .requestPlain => []
  | .requestParameters parameters encoding => encoding.sent parameters

def Endpoint.inURL (endpoint : Endpoint) : Bool :=
  match endpoint.task with
  | .requestPlain => true
  | .requestParameters _ encoding =>
    encoding.destination.encodesParametersInURL endpoint.method

namespace Endpoint

theorem lookup_queryFields (endpoint : Endpoint) (key : String) :
    endpoint.queryFields.bind (·.lookup key) =
      if endpoint.inURL then endpoint.task.fields.lookup key else none := by
  obtain ⟨url, method, task, httpHeaderFields⟩ := endpoint
  cases task with
  | requestPlain => rfl
  | requestParameters parameters encoding =>
    unfold queryFields inURL Task.fields
    by_cases hd : encoding.destination.encodesParametersInURL method = true
    · by_cases hp : parameters = []
      · subst hp
        simp [hd, URLEncoding.sent, URLEncoding.sortedKeys]
      · simp [hd, hp]
    · simp [hd]

theorem lookup_bodyFields (endpoint : Endpoint) (key : String) :
    endpoint.bodyFields.bind (·.lookup key) =
      if endpoint.inURL then none else endpoint.task.fields.lookup key := by
  obtain ⟨url, method, task, httpHeaderFields⟩ := endpoint
  cases task with
  | requestPlain => rfl
  | requestParameters parameters encoding =>
    unfold bodyFields inURL Task.fields
    by_cases hd : encoding.destination.encodesParametersInURL method = true
    · simp [hd]
    · simp [hd]

end Endpoint

namespace URLRequest.Carries

variable {request : URLRequest} {endpoint : Endpoint}

theorem queryField_eq (h : request.Carries endpoint) (key : String) :
    request.queryField key =
      if endpoint.inURL then endpoint.task.fields.lookup key else none := by
  have hquery := congrArg (fun o => o.bind fun fields => fields.bind (List.lookup key)) h.query
  simp only [Option.bind_map, Function.comp_def, Option.bind_some] at hquery
  rw [← Endpoint.lookup_queryFields, ← hquery, Option.bind_assoc]
  rfl

theorem bodyField_eq (h : request.Carries endpoint) (key : String) :
    request.bodyField key =
      if endpoint.inURL then none else endpoint.task.fields.lookup key := by
  have hbody := congrArg (fun o => o.bind fun fields => fields.bind (List.lookup key)) h.body
  simp only [Option.bind_map, Function.comp_def, Option.bind_some] at hbody
  rw [← Endpoint.lookup_bodyFields, ← hbody]
  rfl

end URLRequest.Carries

/-! ## What goes over the wire -/

/-- The method, the URL and the body of a request, as they are sent. -/
structure Message where
  method : String
  url : Option String
  body : Option String
  deriving DecidableEq

def URLRequest.message (request : URLRequest) : Message where
  method := request.httpMethod.rawValue
  url := request.url.map URL.absoluteString
  body := request.httpBody

def Endpoint.message (foundation : Foundation) (endpoint : Endpoint) : Except MoyaError Message :=
  (endpoint.urlRequest foundation).map URLRequest.message

namespace Endpoint

theorem fields_eq (endpoint : Endpoint) :
    endpoint.queryFields.getD (endpoint.bodyFields.getD []) = endpoint.task.fields := by
  obtain ⟨url, method, task, httpHeaderFields⟩ := endpoint
  cases task with
  | requestPlain => rfl
  | requestParameters parameters encoding =>
    unfold queryFields bodyFields Task.fields
    by_cases hd : encoding.destination.encodesParametersInURL method = true
    · by_cases hp : parameters = []
      · subst hp
        simp [hd, URLEncoding.sent, URLEncoding.sortedKeys]
      · simp [hd, hp]
    · simp [hd]

theorem message_eq (foundation : Foundation) {endpoint : Endpoint} (h : endpoint.IsWeb) :
    endpoint.message foundation = .ok (endpoint.written none).message := by
  obtain ⟨fields, hr, -⟩ := urlRequest_eq foundation h
  rw [message, hr]
  rfl

/-- A message says which method, which location and which fields it is about. -/
theorem eq_of_message_eq {foundation : Foundation} {e e' : Endpoint} (h : e.IsWeb) (h' : e'.IsWeb)
    (hm : e.message foundation = e'.message foundation) :
    e.method = e'.method ∧ e.url = e'.url ∧ e.task.fields = e'.task.fields := by
  have hform : Function.Injective (writeForm afURLQueryAllowed) :=
    fun _ _ => (writeForm_inj URLEncoding.safe_afURLQueryAllowed).mp
  rw [message_eq foundation h, message_eq foundation h'] at hm
  obtain ⟨hmethod, hurl, hbody⟩ := Message.mk.inj (Except.ok.inj hm)
  have hread := congrArg URL.ofString (Option.some.inj hurl)
  rw [URL.ofString_absoluteString (URL.question_not_mem h),
    URL.ofString_absoluteString (URL.question_not_mem h')] at hread
  obtain ⟨hlocation, hfields⟩ := URL.mk.inj hread
  refine ⟨HTTPMethod.rawValue_inj.mp hmethod, hlocation, ?_⟩
  rw [← fields_eq e, ← fields_eq e', Option.map_injective hform hfields,
    Option.map_injective hform hbody]

end Endpoint

end Karupasu.Provider
