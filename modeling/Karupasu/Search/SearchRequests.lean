import Karupasu.Provider.EventProvider
import Karupasu.Search.SearchView

/-!
# What the search screen asks the server for

The keyword, the filter and the fact that there was a reload are registers, written by one
input each; a request is made of what they hold.
-/
namespace Karupasu.SearchView

open Karupasu.Library
open Karupasu.GenreModel (Genre)
open Karupasu.PlaceModel (Place)

/-- `EventModel.getEvents` -/
def Request.target (request : Request) : EventProvider :=
  .getEvents request.word request.genreId request.holdingMethod

def requests (effects : List Effect) : List Request :=
  effects.filterMap fun
    | .getEvents request => some request
    | _ => none

def keyword? : Input → Option String
  | .searchKeyword keyword => some keyword
  | _ => none

def filter? : Input → Option (Option Genre × Option Place)
  | .setFilter genre place => some (genre, place)
  | _ => none

def reload? : Input → Option Unit
  | .reload => some ()
  | _ => none

/-- The input is one that `combineLatest` listens to. -/
def Listened : Input → Prop
  | .searchKeyword _ | .setFilter _ _ | .reload => True
  | _ => False

/-- The input is listened to, and there has been a reload, or it is the first one. -/
def Searches (is : List Input) (i : Input) : Prop := Listened i ∧ .reload ∈ is ++ [i]

/-- The parameters sent are the latest keyword, unless it is empty, and the ids of the latest
filter's genre and place, where it has them. -/
structure CarriesLatest (history : List Input) (request : Request) : Prop where
  word : request.target.task.value? "word" =
    let keyword := (Machine.written keyword? history).getD ""
    if keyword = "" then none else some (.string keyword)
  genre_id : request.target.task.value? "genre_id" =
    ((Machine.written filter? history).bind Prod.fst).map fun genre => .int genre.id
  holding_method : request.target.task.value? "holding_method" =
    ((Machine.written filter? history).bind Prod.snd).map fun place => .int place.id

/-- What a step writes to the three registers. -/
theorem next_registers (s : State) (i : Input) :
    (machine.next s i).keyword = (keyword? i).getD s.keyword ∧
      (machine.next s i).filter = (filter? i).getD s.filter ∧
      (machine.next s i).reloaded = ((reload? i).isSome || s.reloaded) := by
  have hsearch : ∀ t : State, (search t).1.keyword = t.keyword ∧ (search t).1.filter = t.filter ∧
      (search t).1.reloaded = t.reloaded := by
    intro t
    unfold search
    split <;> exact ⟨rfl, rfl, rfl⟩
  cases i with
  | searchKeyword keyword => exact hsearch _
  | setFilter genre place => exact hsearch _
  | reload => exact hsearch _
  | tapFilter => exact ⟨rfl, rfl, rfl⟩
  | collection i => exact ⟨rfl, rfl, rfl⟩
  | eventsAnswer index events =>
    simp only [Machine.next, machine, step]
    split
    · cases events <;> exact ⟨rfl, rfl, rfl⟩
    · exact ⟨rfl, rfl, rfl⟩

theorem keyword_run (is : List Input) :
    (machine.run start is).keyword = (Machine.written keyword? is).getD "" :=
  machine.run_register_getD (fun s i => (next_registers s i).1) start is

theorem filter_run (is : List Input) :
    (machine.run start is).filter = (Machine.written filter? is).getD (none, none) :=
  machine.run_register_getD (fun s i => (next_registers s i).2.1) start is

theorem reloaded_run (is : List Input) :
    (machine.run start is).reloaded = true ↔ .reload ∈ is := by
  induction is using List.reverseRecOn with
  | nil => simp [start]
  | append_singleton is i ih =>
    rw [Machine.run_append, Machine.run_cons, Machine.run_nil, (next_registers _ i).2.2,
      Bool.or_eq_true, ih, List.mem_append, List.mem_singleton, or_comm]
    cases i <;> simp [reload?]

/-- Every change of an input is searched for at once, with what the state then holds. -/
theorem emit_of_listened (s : State) {i : Input} (hi : Listened i) :
    machine.emit s i = (search { s with
      keyword := (machine.next s i).keyword
      filter := (machine.next s i).filter
      reloaded := (machine.next s i).reloaded }).2 := by
  obtain ⟨hk, hf, hr⟩ := next_registers s i
  rw [hk, hf, hr]
  cases i with
  | searchKeyword keyword => rfl
  | setFilter genre place => rfl
  | reload => rfl
  | tapFilter => exact hi.elim
  | collection i => exact hi.elim
  | eventsAnswer index events => exact hi.elim

theorem requests_emit_of_not_listened (s : State) {i : Input} (hi : ¬Listened i) :
    requests (machine.emit s i) = [] := by
  have hfeed : ∀ (j : Event.Collection.Input) (t : State), requests (feed j t).2 = [] := by
    intro j t
    simp [requests, feed, List.filterMap_map]
  cases i with
  | searchKeyword keyword => exact absurd trivial hi
  | setFilter genre place => exact absurd trivial hi
  | reload => exact absurd trivial hi
  | tapFilter => rfl
  | collection i => exact hfeed i s
  | eventsAnswer index events =>
    simp only [Machine.emit, machine, step]
    split
    · cases events with
      | none => rfl
      | some events => exact hfeed _ _
    · rfl

/-- What is sent for a state that holds the latest inputs. -/
theorem carriesLatest_of_holds {history : List Input} {s : State} (number : Nat)
    (hk : s.keyword = (Machine.written keyword? history).getD "")
    (hf : s.filter = (Machine.written filter? history).getD (none, none)) :
    CarriesLatest history
      ⟨number, s.keyword, s.filter.1.map (·.id), s.filter.2.map (·.id)⟩ := by
  obtain ⟨hword, hgenre, hplace, -⟩ := EventProvider.value?_getEvents s.keyword
    (s.filter.1.map (·.id)) (s.filter.2.map (·.id))
  refine ⟨?_, ?_, ?_⟩
  · rw [← hk]
    exact hword
  · refine hgenre.trans ?_
    rw [hf, Option.map_map]
    cases Machine.written filter? history <;> rfl
  · refine hplace.trans ?_
    rw [hf, Option.map_map]
    cases Machine.written filter? history <;> rfl

/-- No input before the first reload makes a request; from then on each one makes exactly one
request, at once, and it carries the latest inputs. -/
theorem search_requests_carry_latest (is : List Input) (i : Input) :
    (Searches is i → ∃ request,
      requests (machine.emit (machine.run start is) i) = [request] ∧
        CarriesLatest (is ++ [i]) request) ∧
    (¬Searches is i → requests (machine.emit (machine.run start is) i) = []) := by
  have hrun : machine.run start (is ++ [i]) = machine.next (machine.run start is) i :=
    machine.run_append start is [i]
  have hr := reloaded_run (is ++ [i])
  rw [hrun] at hr
  constructor
  · rintro ⟨hi, hreload⟩
    rw [emit_of_listened _ hi, search, if_pos (hr.mpr hreload), ← hrun]
    exact ⟨_, rfl, carriesLatest_of_holds (s := machine.run start (is ++ [i])) _
      (keyword_run (is ++ [i])) (filter_run (is ++ [i]))⟩
  · intro hs
    by_cases hi : Listened i
    · have hn : ¬(machine.next (machine.run start is) i).reloaded = true :=
        fun h => hs ⟨hi, hr.mp h⟩
      rw [emit_of_listened _ hi, search, if_neg hn]
      rfl
    · exact requests_emit_of_not_listened _ hi

/-- The first reload after a keyword and a filter. -/
theorem search_requests_carry_latest_filtered :
    ∃ request,
      requests (machine.emit (machine.run start
        [.searchKeyword "tennis", .setFilter none (some ⟨1, "online"⟩)]) .reload) = [request] ∧
        CarriesLatest
          [.searchKeyword "tennis", .setFilter none (some ⟨1, "online"⟩), .reload] request :=
  (search_requests_carry_latest
    [.searchKeyword "tennis", .setFilter none (some ⟨1, "online"⟩)] .reload).1 ⟨trivial, by simp⟩

end Karupasu.SearchView
