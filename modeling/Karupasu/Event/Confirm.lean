import Karupasu.Event.Form
import Karupasu.Library.Tickets
import Karupasu.Provider.EventProvider

/-!
# Posting and updating an event

`EventConfirmViewStream` and `EventUpdateConfirmViewStream` differ in the tuple they are
given, in the request they send and in when they show the tuple. A post goes through the
upload of the thumbnail, the question for its URL and the event request; each post has a
number, so that a result can be traced to its tap.
-/
namespace Karupasu.Event.Confirm

open Karupasu.Library

/-- What distinguishes the two streams; `α` is the tuple of `setData`. -/
structure Kind (α : Type) where
  title : α → String
  /-- The request for a tuple and the URL of its thumbnail. -/
  request : α → String → EventProvider
  /-- `current` is bound to `showData`. -/
  showsOnSet : Bool

def EventConfirmViewStream {Image : Type} : Kind (Form Image) where
  title data := data.title
  request data imageUrl :=
    .postEvent data.title imageUrl data.member data.place.id data.genre.id
  showsOnSet := false

/-- The tuple has the event's id as its sixth component. -/
def EventUpdateConfirmViewStream {Image : Type} : Kind (Form Image × Int) where
  title data := data.1.title
  request data imageUrl :=
    .putEvent data.2 data.1.title imageUrl data.1.member data.1.place.id data.1.genre.id
  showsOnSet := true

/-- A post with the tuple its closures captured. -/
structure Post (α : Type) where
  number : Nat
  data : α
  deriving DecidableEq

structure State (α : Type) where
  current : Option α
  /-- The posts that wait for `putData`. -/
  uploads : List (Post α)
  /-- The posts that wait for `downloadURL`. -/
  urls : List (Post α)
  /-- The posts that wait for `postEvent` or `updateEvent`. -/
  requests : List (Post α)
  /-- How often `postData` was tapped. -/
  posted : Nat

/-- The answer of `downloadURL`. -/
inductive Download where
  | error
  | missing
  | url (imageUrl : String)
  deriving DecidableEq

inductive Input (α ImageData : Type) where
  | setData (data : α)
  | loadData
  /-- `postData`, with what `jpegData` makes of the thumbnail. -/
  | postData (imageData : Option ImageData)
  | putDataAnswer (index : Nat) (isSuccess : Bool)
  | downloadURLAnswer (index : Nat) (answer : Download)
  /-- The decoded event, or `none` for an undecodable answer or an error. -/
  | eventAnswer (index : Nat) (event : Option EventModel.Event)

inductive Output (α ImageData : Type) where
  | showData (data : α)
  | putData (number : Nat) (imageData : ImageData)
  | downloadURL (number : Nat)
  | request (number : Nat) (target : EventProvider)
  | postResult (number : Nat) (isSuccess : Bool)
  deriving DecidableEq

variable {α ImageData : Type}

def step (kind : Kind α) (s : State α) :
    Input α ImageData → State α × List (Output α ImageData)
  | .setData data =>
    ({ s with current := some data }, if kind.showsOnSet then [.showData data] else [])
  | .loadData => (s, s.current.toList.map .showData)
  | .postData imageData =>
    match s.current, imageData with
    | some data, some imageData =>
      ({ s with uploads := s.uploads ++ [⟨s.posted, data⟩], posted := s.posted + 1 },
        [.putData s.posted imageData])
    | _, _ => ({ s with posted := s.posted + 1 }, [.postResult s.posted false])
  | .putDataAnswer index isSuccess =>
    match s.uploads[index]? with
    | some post =>
      if isSuccess then
        ({ s with uploads := s.uploads.eraseIdx index, urls := s.urls ++ [post] },
          [.downloadURL post.number])
      -- the error reaches a subscription that has no `onError`
      else ({ s with uploads := s.uploads.eraseIdx index }, [])
    | none => (s, [])
  | .downloadURLAnswer index answer =>
    match s.urls[index]? with
    | some post =>
      match answer with
      | .url imageUrl =>
        ({ s with urls := s.urls.eraseIdx index, requests := s.requests ++ [post] },
          [.request post.number (kind.request post.data imageUrl)])
      | .error | .missing => ({ s with urls := s.urls.eraseIdx index }, [])
    | none => (s, [])
  | .eventAnswer index event =>
    match s.requests[index]? with
    | some post =>
      ({ s with requests := s.requests.eraseIdx index },
        [.postResult post.number
          (match event with
            | some event => event.title == kind.title post.data
            | none => false)])
    | none => (s, [])

def machine (kind : Kind α) : Machine (State α) (Input α ImageData) (Output α ImageData) :=
  ⟨step kind⟩

def start : State α := ⟨none, [], [], [], 0⟩

/-! ## Posts as tickets -/

/-- The posts something is in flight for. -/
def opened (s : State α) : List Nat :=
  s.uploads.map Post.number ++ (s.urls.map Post.number ++ s.requests.map Post.number)

def post (s : State α) : Input α ImageData → Option Nat
  | .postData _ => some s.posted
  | _ => none

def Output.result : Output α ImageData → Option Nat
  | postResult number _ => some number
  | _ => none

/-- The posts a result is reported of. -/
def results (out : List (Output α ImageData)) : List Nat := out.filterMap Output.result

/-- The post whose upload is answered with an error, or without a URL. -/
def uploadFailed (s : State α) : Input α ImageData → Option Nat
  | .putDataAnswer index false => s.uploads[index]?.map Post.number
  | .downloadURLAnswer index .error | .downloadURLAnswer index .missing =>
    s.urls[index]?.map Post.number
  | _ => none

theorem balance_step (kind : Kind α) (s : State α) (i : Input α ImageData) :
    Balance (opened s) (post s i).toList (opened ((machine kind).next s i))
      (results ((machine kind).emit s i)) (uploadFailed s i).toList := by
  intro t
  simp only [Machine.next, Machine.emit, machine, opened, results]
  cases i with
  | setData data =>
    cases h : kind.showsOnSet <;> simp [step, h, post, Output.result, uploadFailed, List.filterMap_cons]
  | loadData =>
    cases h : s.current <;> simp [step, h, post, Output.result, uploadFailed, List.filterMap_cons]
  | postData imageData =>
    cases h : s.current <;> cases imageData <;>
      simp [step, h, post, Output.result, uploadFailed, List.filterMap_cons, List.count_cons]
    omega
  | putDataAnswer index isSuccess =>
    cases h : s.uploads[index]? with
    | none => cases isSuccess <;> simp [step, h, post, uploadFailed]
    | some p =>
      have hc := count_map_eraseIdx Post.number h t
      cases isSuccess <;>
        simp [step, h, post, Output.result, uploadFailed, List.filterMap_cons, List.count_cons]
          at hc ⊢ <;> omega
  | downloadURLAnswer index answer =>
    cases h : s.urls[index]? with
    | none => cases answer <;> simp [step, h, post, uploadFailed]
    | some p =>
      have hc := count_map_eraseIdx Post.number h t
      cases answer <;>
        simp [step, h, post, Output.result, uploadFailed, List.filterMap_cons, List.count_cons]
          at hc ⊢ <;> omega
  | eventAnswer index event =>
    cases h : s.requests[index]? with
    | none => simp [step, h, post, uploadFailed]
    | some p =>
      have hc := count_map_eraseIdx Post.number h t
      simp [step, h, post, Output.result, uploadFailed, List.count_cons] at hc ⊢
      omega

theorem posted_step (kind : Kind α) (s : State α) (i : Input α ImageData) :
    ((machine kind).next s i).posted = s.posted + (post s i).toList.length := by
  simp only [Machine.next, machine]
  cases i with
  | setData data => rfl
  | loadData => rfl
  | postData imageData => cases h : s.current <;> cases imageData <;> simp [step, h, post]
  | putDataAnswer index isSuccess =>
    cases h : s.uploads[index]? <;> cases isSuccess <;> simp [step, h, post]
  | downloadURLAnswer index answer =>
    cases h : s.urls[index]? <;> cases answer <;> simp [step, h, post]
  | eventAnswer index event => cases h : s.requests[index]? <;> simp [step, h, post]

/-- The streams pass a post on from request to request until its result. -/
def custody (kind : Kind α) :
    Custody (machine kind : Machine (State α) (Input α ImageData) (Output α ImageData)) Nat where
  Inv _ := True
  opened := opened
  issue := post
  settle s i := results ((machine kind).emit s i)
  lose s i := (uploadFailed s i).toList
  number n := n
  count := State.posted
  inv_next _ _ _ := trivial
  number_issue s i t h := by
    cases i with
    | postData imageData => exact (Option.some.inj h).symm
    | _ => cases h
  count_next := posted_step kind
  balance s i _ := balance_step kind s i

/-- The posts made and the posts a result was reported of so far. -/
def record (kind : Kind α) (s : State α) (i : Input α ImageData) (h : List Nat × List Nat) :
    List Nat × List Nat :=
  (h.1 ++ (post s i).toList, h.2 ++ results ((machine kind).emit s i))

/-- Each post made so far has had one result and nothing is in flight for it, or none and one
request is in flight for it. -/
def OneResult (p : State α × (List Nat × List Nat)) : Prop :=
  ∀ n ∈ p.2.1, (opened p.1).count n + p.2.2.count n = 1

theorem one_result_iff (kind : Kind α) (is : List (Input α ImageData)) :
    ((machine kind).withHistory (record kind)).Always OneResult (start, ([], [])) is ↔
      (machine kind).Along (fun s i => uploadFailed s i = none) start is := by
  have h := (custody kind).resolved_iff (s := start) trivial rfl is
  simp only [custody, Option.toList_eq_nil_iff] at h
  exact h

/-! ## When a result is true -/

/-- What is remembered of the posts: the tuple each was made with, and those whose upload
ended with a URL. -/
structure Log (α : Type) where
  submitted : List (Nat × α)
  uploaded : List Nat

def log (s : State α) (i : Input α ImageData) (h : Log α) : Log α :=
  match i with
  | .postData _ =>
    { h with submitted := h.submitted ++ s.current.toList.map fun data => (s.posted, data) }
  | .downloadURLAnswer index (.url _) =>
    { h with uploaded := h.uploaded ++ (s.urls[index]?.map Post.number).toList }
  | _ => h

/-- A result is true only for a post whose upload ended with a URL, and at an event that
answers its request with the title it was made with. -/
def TrueOnly (kind : Kind α) (p : State α × Log α) (i : Input α ImageData) : Prop :=
  ∀ n, .postResult n true ∈ (machine kind).emit p.1 i →
    ∃ data index event, (n, data) ∈ p.2.submitted ∧ n ∈ p.2.uploaded ∧
      i = .eventAnswer index (some event) ∧ p.1.requests[index]? = some ⟨n, data⟩ ∧
      event.title = kind.title data

/-- Whatever is in flight is for a logged post; an event request, for an uploaded one. -/
structure Logged (p : State α × Log α) : Prop where
  uploads : ∀ post ∈ p.1.uploads, (post.number, post.data) ∈ p.2.submitted
  urls : ∀ post ∈ p.1.urls, (post.number, post.data) ∈ p.2.submitted
  requests : ∀ post ∈ p.1.requests,
    (post.number, post.data) ∈ p.2.submitted ∧ post.number ∈ p.2.uploaded

/-- A longer log covers what a shorter one does. -/
theorem Logged.mono {s : State α} {g g' : Log α} (h : Logged (s, g))
    (hs : ∀ x ∈ g.submitted, x ∈ g'.submitted) (hu : ∀ n ∈ g.uploaded, n ∈ g'.uploaded) :
    Logged (s, g') :=
  ⟨fun post hp => hs _ (h.uploads post hp), fun post hp => hs _ (h.urls post hp),
    fun post hp => ⟨hs _ (h.requests post hp).1, hu _ (h.requests post hp).2⟩⟩

theorem logged_postData (kind : Kind α) {s : State α} {g : Log α} (h : Logged (s, g))
    (imageData : Option ImageData) :
    Logged ((step kind s (.postData imageData)).1,
      log s (.postData imageData : Input α ImageData) g) := by
  have hg : Logged (s, log s (.postData imageData : Input α ImageData) g) :=
    h.mono (fun x hx => List.mem_append_left _ hx) fun n hn => hn
  obtain ⟨hu, hd, hr⟩ := hg
  cases hc : s.current with
  | none =>
    simp only [step, hc]
    exact ⟨hu, hd, hr⟩
  | some data =>
    cases imageData with
    | none =>
      simp only [step, hc]
      exact ⟨hu, hd, hr⟩
    | some imageData =>
      simp only [step, hc]
      refine ⟨List.forall_mem_append.mpr ⟨hu, ?_⟩, hd, hr⟩
      rw [List.forall_mem_singleton]
      exact List.mem_append_right _ (by simp [hc])

theorem logged_downloadURLAnswer (kind : Kind α) {s : State α} {g : Log α} (h : Logged (s, g))
    (index : Nat) (answer : Download) :
    Logged ((step kind s (.downloadURLAnswer index answer : Input α ImageData)).1,
      log s (.downloadURLAnswer index answer : Input α ImageData) g) := by
  cases hget : s.urls[index]? with
  | none =>
    have hl : log s (.downloadURLAnswer index answer : Input α ImageData) g = g := by
      cases answer <;> simp [log, hget]
    simp only [step, hget, hl]
    exact h
  | some post =>
    have hpost := h.urls post (List.mem_of_getElem? hget)
    have he : ∀ post ∈ s.urls.eraseIdx index, (post.number, post.data) ∈ g.submitted :=
      fun post hp => h.urls post (List.mem_of_mem_eraseIdx hp)
    simp only [step, hget]
    cases answer with
    | error => exact ⟨h.uploads, he, h.requests⟩
    | missing => exact ⟨h.uploads, he, h.requests⟩
    | url imageUrl =>
      -- the post joins the uploaded ones as its event request is sent
      refine ⟨h.uploads, he, List.forall_mem_append.mpr ⟨fun post hp => ?_, ?_⟩⟩
      · exact ⟨(h.requests post hp).1, List.mem_append_left _ (h.requests post hp).2⟩
      · rw [List.forall_mem_singleton]
        exact ⟨hpost, List.mem_append_right _ (by simp [hget])⟩

theorem logged_step (kind : Kind α) (p : State α × Log α) (i : Input α ImageData)
    (h : Logged p) : Logged (((machine kind).withHistory log).next p i) := by
  obtain ⟨s, g⟩ := p
  obtain ⟨hu, hd, hr⟩ := h
  rw [Machine.next_withHistory]
  simp only [Machine.next, machine]
  cases i with
  | setData data => exact ⟨hu, hd, hr⟩
  | loadData => exact ⟨hu, hd, hr⟩
  | postData imageData => exact logged_postData kind ⟨hu, hd, hr⟩ imageData
  | putDataAnswer index isSuccess =>
    cases hget : s.uploads[index]? with
    | none =>
      simp only [step, hget]
      exact ⟨hu, hd, hr⟩
    | some post =>
      have he : ∀ post ∈ s.uploads.eraseIdx index, (post.number, post.data) ∈ g.submitted :=
        fun post hp => hu post (List.mem_of_mem_eraseIdx hp)
      simp only [step, hget]
      cases isSuccess with
      | false => exact ⟨he, hd, hr⟩
      | true =>
        refine ⟨he, List.forall_mem_append.mpr ⟨hd, ?_⟩, hr⟩
        rw [List.forall_mem_singleton]
        exact hu post (List.mem_of_getElem? hget)
  | downloadURLAnswer index answer => exact logged_downloadURLAnswer kind ⟨hu, hd, hr⟩ index answer
  | eventAnswer index event =>
    cases hget : s.requests[index]? with
    | none =>
      simp only [step, hget]
      exact ⟨hu, hd, hr⟩
    | some post =>
      simp only [step, hget]
      exact ⟨hu, hd, fun post hp => hr post (List.mem_of_mem_eraseIdx hp)⟩

theorem trueOnly_of_logged (kind : Kind α) {p : State α × Log α} (h : Logged p)
    (i : Input α ImageData) : TrueOnly kind p i := by
  obtain ⟨s, g⟩ := p
  intro n hn
  simp only [Machine.emit, machine] at hn
  cases i with
  | setData data =>
    cases hk : kind.showsOnSet <;> simp [step, hk] at hn
  | loadData => simp [step] at hn
  | postData imageData =>
    cases hc : s.current <;> cases imageData <;> simp [step, hc] at hn
  | putDataAnswer index isSuccess =>
    cases hget : s.uploads[index]? <;> cases isSuccess <;> simp [step, hget] at hn
  | downloadURLAnswer index answer =>
    cases hget : s.urls[index]? <;> cases answer <;> simp [step, hget] at hn
  | eventAnswer index event =>
    cases hget : s.requests[index]? with
    | none => simp [step, hget] at hn
    | some post =>
      cases event with
      | none => simp [step, hget] at hn
      | some event =>
        simp only [step, hget, List.mem_singleton, Output.postResult.injEq] at hn
        obtain ⟨rfl, ht⟩ := hn
        have hm := h.requests post (List.mem_of_getElem? hget)
        exact ⟨post.data, index, event, hm.1, hm.2, rfl, hget, beq_iff_eq.mp ht.symm⟩

theorem trueOnly_run (kind : Kind α) (is : List (Input α ImageData)) :
    ((machine kind).withHistory log).Along (TrueOnly kind) (start, ⟨[], []⟩) is :=
  ((machine kind).withHistory log).along_of_inv (logged_step kind)
    (fun _ i h => trueOnly_of_logged kind h i)
    ⟨fun _ hp => absurd hp List.not_mem_nil, fun _ hp => absurd hp List.not_mem_nil,
      fun _ hp => absurd hp List.not_mem_nil⟩ is

/-- Reports back: every post has its one result, or is in flight and has had none, and a
result is true only after an upload that succeeded and at an event with the title posted. -/
def ReportsBack (kind : Kind α) (is : List (Input α ImageData)) : Prop :=
  ((machine kind).withHistory (record kind)).Always OneResult (start, ([], [])) is ∧
    ((machine kind).withHistory log).Along (TrueOnly kind) (start, ⟨[], []⟩) is

theorem reportsBack_iff (kind : Kind α) (is : List (Input α ImageData)) :
    ReportsBack kind is ↔
      (machine kind).Along (fun s i => uploadFailed s i = none) start is := by
  rw [← one_result_iff]
  exact and_iff_left (trueOnly_run kind is)

/-- Both streams report back exactly as long as no upload fails and each gives a URL. -/
theorem post_reports_back_iff {Image ImageData : Type} :
    (∀ is : List (Input (Form Image) ImageData), ReportsBack EventConfirmViewStream is ↔
      (machine EventConfirmViewStream).Along (fun s i => uploadFailed s i = none) start is) ∧
    (∀ is : List (Input (Form Image × Int) ImageData), ReportsBack EventUpdateConfirmViewStream is ↔
      (machine EventUpdateConfirmViewStream).Along (fun s i => uploadFailed s i = none) start is) :=
  ⟨reportsBack_iff EventConfirmViewStream, reportsBack_iff EventUpdateConfirmViewStream⟩

/-- A form is posted, and the upload fails. -/
def uploadError : List (Input (Form Unit) Unit) :=
  [.setData ⟨"lunch", 4, ⟨0, "offline"⟩, ⟨1, "food"⟩, ()⟩, .postData (some ()),
    .putDataAnswer 0 false]

/-- Nothing is in flight any more, and the post has had no result. -/
theorem upload_error_is_silent :
    let m : Machine (State (Form Unit)) (Input (Form Unit) Unit) (Output (Form Unit) Unit) :=
      machine EventConfirmViewStream
    m.history (record EventConfirmViewStream) start ([], []) uploadError = ([0], []) ∧
      opened (m.run start uploadError) = [] ∧
      ¬ReportsBack EventConfirmViewStream uploadError := by
  refine ⟨by decide, by decide, fun h => ?_⟩
  have hlast := h.1.last 0
  exact absurd (hlast (by decide)) (by decide)

end Karupasu.Event.Confirm
