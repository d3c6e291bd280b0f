import Karupasu.Event.Collection
import Mathlib.Data.List.Perm.Basic

/-!
# The search screen: `SearchViewStream` feeding `EventCollectionViewStream`

Every change of the keyword or the filter and every reload sends a request, once there
has been a reload. Each answer is handed to the list as it arrives; nothing cancels or
supersedes a request, so the list shows what was delivered last.
-/
namespace Karupasu.SearchView

open Karupasu.Library
open Karupasu.Event
open Karupasu.EventModel (Event)
open Karupasu.GenreModel (Genre)
open Karupasu.PlaceModel (Place)

/-- A `getEvents` request, with its number. -/
structure Request where
  number : Nat
  word : String
  genreId : Option Int
  holdingMethod : Option Int
  deriving DecidableEq

structure State where
  keyword : String
  filter : Option Genre × Option Place
  /-- `input.reload` has emitted, so `combineLatest` emits. -/
  reloaded : Bool
  /-- How many requests have been sent. -/
  sent : Nat
  /-- The requests in flight. -/
  requests : List Request
  collection : Collection.State

inductive Input where
  | searchKeyword (keyword : String)
  | setFilter (genre : Option Genre) (place : Option Place)
  | reload
  | tapFilter
  /-- An answer to a request: the decoded events, or `none` for an error. -/
  | eventsAnswer (index : Nat) (events : Option (List Event))
  | collection (i : Collection.Input)

inductive Effect where
  | getEvents (request : Request)
  | showFilterViews
  | collection (effect : Collection.Effect)
  deriving DecidableEq

/-- The subscription to `combineLatest`. -/
def search (s : State) : State × List Effect :=
  if s.reloaded then
    let request : Request :=
      ⟨s.sent, s.keyword, s.filter.1.map (·.id), s.filter.2.map (·.id)⟩
    ({ s with sent := s.sent + 1, requests := s.requests ++ [request] }, [.getEvents request])
  else (s, [])

def feed (i : Collection.Input) (s : State) : State × List Effect :=
  let r := Collection.step s.collection i
  ({ s with collection := r.1 }, r.2.map .collection)

def step (s : State) : Input → State × List Effect
  | .searchKeyword keyword => search { s with keyword := keyword }
  | .setFilter genre place => search { s with filter := (genre, place) }
  | .reload => search { s with reloaded := true }
  | .tapFilter => (s, [.showFilterViews])
  | .eventsAnswer index events =>
    match s.requests[index]? with
    | some _ =>
      let s := { s with requests := s.requests.eraseIdx index }
      match events with
      | some events => feed (.setEvents events) s
      | none => (s, [])
    | none => (s, [])
  | .collection i => feed i s

def machine : Machine State Input Effect := ⟨step⟩

def start : State := ⟨"", (none, none), false, 0, [], Collection.start⟩

/-! ## Deliveries -/

/-- The answers in the order of their delivery, each with the number of its request. -/
abbrev Answers := List (Nat × List Event)

def recordAnswer (s : State) (i : Input) (answers : Answers) : Answers :=
  match i with
  | .eventsAnswer index (some events) =>
    match s.requests[index]? with
    | some request => answers ++ [(request.number, events)]
    | none => answers
  | _ => answers

/-- A search without failed requests, and without taps on the list. -/
def Searching : Input → Prop
  | .eventsAnswer _ none | .collection _ => False
  | _ => True

/-- Every request is in flight or answered once, and the list shows the last answer. -/
structure Accounted (p : State × Answers) : Prop where
  numbers : List.Perm (p.1.requests.map (·.number) ++ p.2.map Prod.fst) (List.range p.1.sent)
  shown : p.2 ≠ [] → p.2.getLast?.map Prod.snd = some p.1.collection.currentEvents

theorem accounted_search {s : State} {answers : Answers} (h : Accounted (s, answers)) :
    Accounted ((search s).1, answers) := by
  obtain ⟨hn, hs⟩ := h
  unfold search
  split
  · refine ⟨?_, hs⟩
    dsimp only
    rw [List.range_succ, List.map_append, List.append_assoc]
    refine (List.perm_append_comm_assoc _ _ _).trans ?_
    exact (hn.append_left [s.sent]).trans List.perm_append_comm
  · exact ⟨hn, hs⟩

theorem accounted_eventsAnswer {p : State × Answers} (h : Accounted p) (index : Nat)
    (events : List Event) :
    Accounted ((machine.withHistory recordAnswer).next p (.eventsAnswer index (some events))) := by
  rw [Machine.next_withHistory]
  cases hget : p.1.requests[index]? with
  | none =>
    simp only [Machine.next, machine, step, recordAnswer, hget]
    exact h
  | some request =>
    simp only [Machine.next, machine, step, recordAnswer, hget]
    refine ⟨?_, fun _ => ?_⟩
    · -- the number moves from the requests in flight to the end of the answers
      obtain ⟨hlt, hat⟩ := List.getElem?_eq_some_iff.mp hget
      have hp := (List.getElem_cons_eraseIdx_perm hlt).map (·.number)
      rw [hat, List.map_cons] at hp
      refine List.Perm.trans ?_ h.numbers
      show List.Perm ((p.1.requests.eraseIdx index).map (·.number) ++
        (p.2 ++ [(request.number, events)]).map Prod.fst) _
      rw [List.map_append, ← List.append_assoc]
      exact List.perm_append_comm.trans (hp.append_right (p.2.map Prod.fst))
    · rw [List.getLast?_concat]
      rfl

theorem accounted_step (p : State × Answers) (i : Input) (h : Accounted p) (hi : Searching i) :
    Accounted ((machine.withHistory recordAnswer).next p i) := by
  match i with
  | .searchKeyword keyword =>
    have hk : Accounted ({ p.1 with keyword := keyword }, p.2) := ⟨h.numbers, h.shown⟩
    exact accounted_search hk
  | .setFilter genre place =>
    have hf : Accounted ({ p.1 with filter := (genre, place) }, p.2) := ⟨h.numbers, h.shown⟩
    exact accounted_search hf
  | .reload =>
    have hr : Accounted ({ p.1 with reloaded := true }, p.2) := ⟨h.numbers, h.shown⟩
    exact accounted_search hr
  | .tapFilter => exact ⟨h.numbers, h.shown⟩
  | .eventsAnswer index (some events) => exact accounted_eventsAnswer h index events
  | .eventsAnswer _ none => exact hi.elim
  | .collection _ => exact hi.elim

/-- Once nothing is in flight, each request has been answered exactly once and the list
shows the answer delivered last. -/
theorem quiescent_shows_last (is : List Input) (hi : ∀ i ∈ is, Searching i)
    (hq : (machine.run start is).requests = []) (hsent : 0 < (machine.run start is).sent) :
    let answers := machine.history recordAnswer start [] is
    List.Perm (answers.map Prod.fst) (List.range (machine.run start is).sent) ∧
      answers.getLast?.map Prod.snd = some (machine.run start is).collection.currentEvents := by
  intro answers
  have h0 : Accounted (start, []) := ⟨List.Perm.refl _, fun h => absurd rfl h⟩
  have h := ((machine.withHistory recordAnswer).always_of_step accounted_step h0
    ((machine.withHistory recordAnswer).along_of_forall (start, []) hi)).last
  rw [Machine.run_withHistory] at h
  have hn : List.Perm (answers.map Prod.fst) (List.range (machine.run start is).sent) := by
    have hn := h.numbers
    rw [hq] at hn
    exact hn
  refine ⟨hn, h.shown fun hnil => ?_⟩
  change answers = [] at hnil
  have hlen := hn.length_eq
  rw [hnil, List.map_nil, List.length_nil, List.length_range] at hlen
  omega

/-- An answer for runs on fixed inputs. -/
def found (id : Int) : List Event :=
  [⟨id, "event", "", 0, 0, none, none, none, 4, none, none⟩]

/-- Two requests, the one for the keyword sent last and answered first. -/
def overtaken : List Input :=
  [.reload, .searchKeyword "tennis", .eventsAnswer 1 (some (found 2)),
    .eventsAnswer 0 (some (found 1))]

theorem quiescent_shows_last_overtaken :
    List.Perm ((machine.history recordAnswer start [] overtaken).map Prod.fst)
        (List.range (machine.run start overtaken).sent) ∧
      (machine.history recordAnswer start [] overtaken).getLast?.map Prod.snd =
        some (machine.run start overtaken).collection.currentEvents :=
  quiescent_shows_last overtaken (by simp [overtaken, Searching]) (by decide) (by decide)

/-- Nothing is in flight, request 1 was sent last, and the list shows the answer to request 0. -/
theorem overtaken_answer_is_shown :
    (machine.run start overtaken).requests = [] ∧ (machine.run start overtaken).sent = 2 ∧
      machine.history recordAnswer start [] overtaken = [(1, found 2), (0, found 1)] ∧
      (machine.run start overtaken).collection.currentEvents = found 1 ∧
      (machine.run start overtaken).collection.currentEvents ≠ found 2 := by
  decide

end Karupasu.SearchView
