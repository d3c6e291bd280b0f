import Karupasu.Event.Detail
import Karupasu.Event.MemberTable

/-!
# The detail screen: `EventDetailViewController` on `EventDetailViewStream`

What the stream emits reaches the views only once they are loaded, which is after the first event
was set. The place label reads the list of places at the index of the event's place, the member
rows go through an animated data source, and the mark of the bookmark button turns at each tap,
before the server has answered.
-/
namespace Karupasu

namespace GenreModel

def getSafeGenreTitle (genres : List Genre) (id : Int) : String :=
  ((genres.filter fun genre => genre.id = id).head?.map (·.name)).getD ""

end GenreModel

namespace Event.DetailScreen

open Karupasu.Library
open Karupasu.EventModel (Event)
open Karupasu.GenreModel (Genre getSafeGenreTitle)
open Karupasu.PlaceModel (Place)
open Karupasu.PrefectureModel (Prefecture)
open Karupasu.MemberSectionModel (CellsShow KeepsCapacity RowsShow Table TableInput
  getSafePrefectureTitle)
open Karupasu.Event.Detail (Effect DetailsRequest)

/-- What the screen shows of an event besides the bookmark and the members. -/
structure Labels where
  thumbnailImage : Option String
  isJoined : Bool
  titleLbl : String
  genreLbl : String
  placeLbl : String
  editHidden : Bool
deriving DecidableEq

/-- What a new `EventDetailView` shows. -/
def placeholders : Labels :=
  { thumbnailImage := none, isJoined := false, titleLbl := "Title", genreLbl := "Genre",
    placeLbl := "Place", editHidden := true }

structure State where
  stream : Detail.State
  /-- `genreModel.genres`, which is read at each reload of the view. -/
  genres : List Genre
  /-- `prefectureModel.prefectures`, which is read as a member cell is configured. -/
  prefectures : List Prefecture
  /-- `viewDidLoad` has subscribed to the outputs. -/
  loaded : Bool
  labels : Labels
  /-- `bookmarkBtn.isTapped` -/
  isTapped : Bool
  /-- `memberTableView` with its data source. -/
  table : Table
  /-- The index of a place was out of range. -/
  crashed : Bool

inductive Input where
  | stream (input : Detail.Input)
  | viewDidLoad
  | genres (genres : List Genre)
  | prefectures (prefectures : List Prefecture)
  | table (input : TableInput)

/-- `places.value[index]`; nothing is returned where the subscript traps. -/
def subscript (places : List Place) (index : Int) : Option Place :=
  if 0 ≤ index then places[index.toNat]? else none

section View

-- the places, and the text `AppText.genre()`
variable (places : List Place) (genreText : String)

def genreTitle (genres : List Genre) (event : Event) : String :=
  genreText ++ ": " ++ getSafeGenreTitle genres event.genreId

def isJoined (event : Event) : Bool :=
  match event.isJoined with
  | some isJoin => isJoin == 1
  | none => ((event.details.map fun details => details.any (·.isJoined == 1))).getD false

def labelsOf (genres : List Genre) (event : Event) (place : Place) : Labels :=
  { thumbnailImage := some event.imageUrl
    isJoined := isJoined event
    titleLbl := event.title
    genreLbl := genreTitle genreText genres event
    placeLbl := place.name
    editHidden := !(event.isHost.getD 0 == 1) }

/-- The subscription to `reloadView`. -/
def reloadView (s : State) (event : Event) : State :=
  match subscript places event.place with
  | none => { s with crashed := true }
  | some place =>
    { s with
      labels := labelsOf genreText s.genres event place
      isTapped := (event.isBookmark.map (· == 1)).getD s.isTapped }

/-- What the subscriptions of `viewDidLoad` do with an output of the stream. -/
def observe (s : State) (effect : Effect) : State :=
  if s.crashed then s
  else
    match effect with
    | .reloadView event => reloadView places genreText s event
    | .reloadTable event => { s with table := s.table.draw event }
    | .showEditBtn => { s with labels := { s.labels with editHidden := false } }
    -- the other screens and the requests
    | .showApply _ | .showEdit _ | .favoriteEvent _ | .getEventDetails _ => s

/-- The button turns its mark before its tap is handed on. -/
def turnMark (s : State) : Detail.Input → State
  | .tapBookmark => if s.loaded then { s with isTapped := !s.isTapped } else s
  | _ => s

def step (s : State) (input : Input) : State × List Effect :=
  if s.crashed then (s, [])
  else
    match input with
    | .stream input =>
      let (stream, effects) := Detail.step s.stream input
      let s := { turnMark s input with stream := stream }
      (if s.loaded then effects.foldl (observe places genreText) s else s, effects)
    | .viewDidLoad => ({ s with loaded := true }, [])
    | .genres genres => ({ s with genres := genres }, [])
    | .prefectures prefectures => ({ s with prefectures := prefectures }, [])
    | .table input => ({ s with table := s.table.step s.prefectures input }, [])

def machine : Machine State Input Effect := ⟨step places genreText⟩

def start (genres : List Genre) (prefectures : List Prefecture) : State :=
  { stream := Detail.start, genres := genres, prefectures := prefectures, loaded := false,
    labels := placeholders, isTapped := false, table := ⟨false, []⟩, crashed := false }

end View

/-! ## The accepted event -/

/-- The event an input puts in the place of the current one. -/
def accepted (s : Detail.State) : Detail.Input → Option Event
  | .setEvent event => some event
  | .favoriteAnswer index false => s.favorites[index]?
  | .detailsAnswer index (some event) => s.details[index]?.map fun _ => event
  | _ => none

theorem currentEvent_next (s : Detail.State) (input : Detail.Input) :
    (Detail.step s input).1.currentEvent = (accepted s input).or s.currentEvent := by
  cases input with
  | setEvent event => rfl
  | favoriteAnswer index isSuccess =>
    cases hget : s.favorites[index]? <;> cases isSuccess <;>
      simp [Detail.step, accepted, hget, Detail.request, Detail.accept]
  | detailsAnswer index event =>
    cases hget : s.details[index]? with
    | none => cases event <;> simp [Detail.step, accepted, hget]
    | some r =>
      cases event with
      | none => simp [Detail.step, accepted, hget]
      | some event =>
        simp only [Detail.step, accepted, hget, Detail.currentEvent_detailsAnswered]
        rfl
  | tapBookmark | tapApplyButton | tapCancelButton | tapEditButton | reloadTable | reloadView =>
    exact Detail.currentEvent_withCurrent s fun _ => rfl

section Observe

variable {places : List Place} {genreText : String}

/-- The view after an event was accepted. -/
def drawn (places : List Place) (genreText : String) (s : State) (event : Event) : State :=
  match subscript places event.place with
  | none => { s with crashed := true }
  | some place =>
    { s with
      labels := labelsOf genreText s.genres event place
      isTapped := (event.isBookmark.map (· == 1)).getD s.isTapped
      table := s.table.draw event }

theorem observe_crashed {s : State} (h : s.crashed = true) (effects : List Effect) :
    effects.foldl (observe places genreText) s = s := by
  induction effects with
  | nil => rfl
  | cons effect effects ih =>
    rw [List.foldl_cons, show observe places genreText s effect = s from if_pos h, ih]

theorem observe_accept {s : State} (h : s.crashed = false) (event : Event)
    (effects : List Effect) :
    (.reloadView event :: .reloadTable event :: effects).foldl (observe places genreText) s =
      effects.foldl (observe places genreText) (drawn places genreText s event) := by
  rw [List.foldl_cons, List.foldl_cons]
  congr 1
  unfold drawn
  cases hp : subscript places event.place with
  | none => simp [observe, reloadView, hp, h]
  | some place => simp [observe, reloadView, hp, h]

theorem drawn_crashed {s : State} {event : Event} (hp : subscript places event.place = none) :
    drawn places genreText s event = { s with crashed := true } := by
  rw [drawn, hp]

theorem drawn_eq {s : State} {event : Event} {place : Place}
    (hp : subscript places event.place = some place) :
    drawn places genreText s event =
      { s with
        labels := labelsOf genreText s.genres event place
        isTapped := (event.isBookmark.map (· == 1)).getD s.isTapped
        table := s.table.draw event } := by
  rw [drawn, hp]

theorem drawn_drawn {s : State} {event : Event} {place : Place}
    (hp : subscript places event.place = some place) :
    drawn places genreText (drawn places genreText s event) event =
      drawn places genreText s event := by
  rw [drawn_eq hp, drawn_eq hp]
  dsimp only
  rw [MemberSectionModel.draw_draw]
  cases event.isBookmark <;> rfl

/-- The answer to `setEvent` draws the event twice and shows the edit button of a host. -/
theorem observe_again {s : State} (h : s.crashed = false) (event : Event) :
    ([Effect.reloadView event, Effect.reloadTable event] ++
        if event.isHost.getD 0 = 1 then [Effect.showEditBtn] else []).foldl
      (observe places genreText) (drawn places genreText s event) =
        drawn places genreText s event := by
  cases hp : subscript places event.place with
  | none =>
    rw [drawn_crashed hp]
    exact observe_crashed rfl _
  | some place =>
    have hd : (drawn places genreText s event).crashed = false := by
      rw [drawn_eq hp]
      exact h
    rw [List.cons_append, List.cons_append, List.nil_append, observe_accept hd, drawn_drawn hp]
    split
    · next hh =>
      rw [drawn_eq hp]
      simp [observe, h, labelsOf, hh]
    · rfl

/-- What the outputs of one input do to the view. -/
theorem observe_effects {s : State} (h : s.crashed = false) (st : Detail.State)
    (input : Detail.Input) :
    (Detail.step st input).2.foldl (observe places genreText) s =
      match accepted st input with
      | some event => drawn places genreText s event
      | none =>
        match input, st.currentEvent with
        | .reloadTable, some event => { s with table := s.table.draw event }
        | _, _ => s := by
  cases input with
  | setEvent event =>
    simp only [accepted]
    rw [show (Detail.step st (.setEvent event)).2 =
      .getEventDetails event.id :: [.reloadView event, .reloadTable event] from rfl,
      List.foldl_cons, show observe places genreText s (.getEventDetails event.id) = s by
        simp [observe], observe_accept h]
    rfl
  | favoriteAnswer index isSuccess =>
    cases hget : st.favorites[index]? with
    | none => cases isSuccess <;> simp [Detail.step, accepted, hget]
    | some event =>
      cases isSuccess with
      | true => simp [Detail.step, accepted, hget, Detail.request, observe]
      | false =>
        simp only [Detail.step, accepted, hget, Detail.accept, Bool.false_eq_true, if_false]
        rw [observe_accept h]
        rfl
  | detailsAnswer index event =>
    cases hget : st.details[index]? with
    | none => cases event <;> simp [Detail.step, accepted, hget]
    | some r =>
      cases event with
      | none => simp [Detail.step, accepted, hget]
      | some event =>
        simp only [Detail.step, accepted, hget, Option.map_some]
        cases hr : r.origin with
        | setEvent =>
          simp only [Detail.detailsAnswered, Detail.accept, List.append_assoc]
          rw [List.cons_append, List.cons_append, List.nil_append, observe_accept h]
          exact observe_again h event
        | tapBookmark =>
          simp only [Detail.detailsAnswered, Detail.accept]
          rw [observe_accept h]
          rfl
        | reloadView =>
          simp only [Detail.detailsAnswered, Detail.accept]
          rw [observe_accept h]
          rfl
  | reloadTable =>
    cases hc : st.currentEvent <;>
      simp [Detail.step, accepted, Detail.withCurrent, hc, observe, h]
  | tapBookmark | tapApplyButton | tapCancelButton | tapEditButton | reloadView =>
    cases hc : st.currentEvent <;>
      simp [Detail.step, accepted, Detail.withCurrent, Detail.request, hc, observe]

end Observe

/-! ## What the screen shows -/

section Runs

variable {places : List Place} {genreText : String}

/-- The state before the outputs of an input are observed. -/
def advanced (s : State) (input : Detail.Input) : State :=
  { turnMark s input with stream := (Detail.step s.stream input).1 }

theorem advanced_eq (s : State) (input : Detail.Input) :
    (advanced s input).labels = s.labels ∧ (advanced s input).table = s.table ∧
      (advanced s input).genres = s.genres ∧ (advanced s input).prefectures = s.prefectures ∧
      (advanced s input).loaded = s.loaded ∧ (advanced s input).crashed = s.crashed := by
  unfold advanced turnMark
  split
  · split <;> exact ⟨rfl, rfl, rfl, rfl, rfl, rfl⟩
  · exact ⟨rfl, rfl, rfl, rfl, rfl, rfl⟩

theorem next_unloaded {s : State} (h : s.crashed = false) (hl : s.loaded = false)
    (input : Detail.Input) :
    (machine places genreText).next s (.stream input) = advanced s input := by
  have hload : (advanced s input).loaded = false := (advanced_eq s input).2.2.2.2.1.trans hl
  simp only [Machine.next, machine, step, h, Bool.false_eq_true, if_false]
  exact if_neg (by simpa [advanced] using hload)

theorem next_loaded {s : State} (h : s.crashed = false) (hl : s.loaded = true)
    (input : Detail.Input) :
    (machine places genreText).next s (.stream input) =
      match accepted s.stream input with
      | some event => drawn places genreText (advanced s input) event
      | none =>
        match input, s.stream.currentEvent with
        | .reloadTable, some event =>
          { advanced s input with table := (advanced s input).table.draw event }
        | _, _ => advanced s input := by
  obtain ⟨_, _, _, _, hload, hcrash⟩ := advanced_eq s input
  rw [← observe_effects (hcrash.trans h)]
  simp only [Machine.next, machine, step, h, Bool.false_eq_true, if_false]
  exact if_pos (by simpa [advanced] using hload.trans hl)

theorem next_crashed {s : State} (h : s.crashed = true) (input : Input) :
    (machine places genreText).next s input = s := by
  simp [Machine.next, machine, step, h]

/-- The screen shows its current event, or is still as it was made. -/
def Shows (places : List Place) (genreText : String) (s : State) : Prop :=
  s.crashed = false ∧ (s.labels = placeholders ∧ s.table.rows = [] ∨
    ∃ event, s.stream.currentEvent = some event ∧
      (s.labels = placeholders ∨ ∃ place, subscript places event.place = some place ∧
        s.labels = labelsOf genreText s.genres event place) ∧
      RowsShow s.prefectures s.table event)

/-- An event that reaches the loaded view has a place of the list and leaves no row in sight with
another capacity, and new lists of genres and prefectures change no title on the screen. -/
def Drawable (places : List Place) (genreText : String) (s : State) : Input → Prop
  | .stream input =>
    s.loaded = true → ∀ event, accepted s.stream input = some event →
      (subscript places event.place).isSome ∧ KeepsCapacity s.table event
  | .viewDidLoad => True
  | .genres genres =>
    s.labels ≠ placeholders → ∀ event, s.stream.currentEvent = some event →
      genreTitle genreText genres event = genreTitle genreText s.genres event
  | .prefectures prefectures =>
    ∀ row ∈ s.table.rows, row.2.isSome = true →
      getSafePrefectureTitle prefectures row.1.data.prefecture =
        getSafePrefectureTitle s.prefectures row.1.data.prefecture
  | .table _ => True

theorem labelsOf_ne_placeholders (genres : List Genre) (event : Event) (place : Place) :
    labelsOf genreText genres event place ≠ placeholders := by
  intro h
  have hi := congrArg Labels.thumbnailImage h
  cases hi

/-- Before the views are loaded, nothing is drawn. -/
def Undrawn (s : State) : Prop :=
  s.loaded = false → s.labels = placeholders ∧ s.table.rows = []

theorem loaded_next (s : State) (input : Input) (h : s.loaded = true) :
    ((machine places genreText).next s input).loaded = true := by
  by_cases hc : s.crashed = true
  · rw [next_crashed hc]
    exact h
  · rw [Bool.not_eq_true] at hc
    cases input with
    | stream input =>
      have hload := (advanced_eq s input).2.2.2.2.1.trans h
      rw [next_loaded hc h]
      split
      · unfold drawn
        split <;> exact hload
      · split <;> exact hload
    | viewDidLoad => simp [Machine.next, machine, step, hc]
    | genres _ | prefectures _ | table _ =>
      simp only [Machine.next, machine, step, hc, Bool.false_eq_true, if_false]
      exact h

theorem undrawn_next {s : State} (h : Undrawn s) (input : Input) :
    Undrawn ((machine places genreText).next s input) := by
  intro hn
  cases hl : s.loaded with
  | true =>
    rw [loaded_next s input hl] at hn
    cases hn
  | false =>
    by_cases hc : s.crashed = true
    · rw [next_crashed hc]
      exact h hl
    · rw [Bool.not_eq_true] at hc
      cases input with
      | stream input =>
        rw [next_unloaded hc hl, (advanced_eq s input).1, (advanced_eq s input).2.1]
        exact h hl
      | viewDidLoad | genres _ | prefectures _ =>
        simp only [Machine.next, machine, step, hc, Bool.false_eq_true, if_false]
        exact h hl
      | table input =>
        simp only [Machine.next, machine, step, hc, Bool.false_eq_true, if_false]
        exact ⟨(h hl).1, MemberSectionModel.rows_step_of_nil (h hl).2 input⟩

theorem Shows.cells {s : State} (h : Shows places genreText s) :
    s.table.identities.Nodup ∧ CellsShow s.prefectures s.table := by
  obtain ⟨_, ⟨_, hrows⟩ | ⟨event, _, _, hshow⟩⟩ := h
  · rw [Differentiator.AnimatedRows.identities_eq, hrows]
    exact ⟨List.nodup_nil, fun row hrow => absurd (hrows ▸ hrow) List.not_mem_nil⟩
  · exact ⟨hshow.identities_nodup, hshow.cells⟩

theorem shows_drawn_iff {s : State} (h : s.crashed = false) {event : Event}
    (hc : s.stream.currentEvent = some event) (hn : s.table.identities.Nodup)
    (hcells : CellsShow s.prefectures s.table) :
    Shows places genreText (drawn places genreText s event) ↔
      (subscript places event.place).isSome ∧ KeepsCapacity s.table event := by
  cases hp : subscript places event.place with
  | none =>
    rw [drawn_crashed hp]
    exact iff_of_false (fun hs => absurd hs.1 (by simp)) (by simp)
  | some place =>
    rw [drawn_eq hp, ← MemberSectionModel.rowsShow_draw_iff hn hcells]
    constructor
    · rintro ⟨_, ⟨hblank, _⟩ | ⟨event', hc', _, hrows⟩⟩
      · exact absurd hblank (labelsOf_ne_placeholders _ _ _)
      · obtain rfl := Option.some.inj (hc.symm.trans hc')
        exact ⟨rfl, hrows⟩
    · exact fun hrows => ⟨h, Or.inr ⟨event, hc, Or.inr ⟨place, hp, rfl⟩, hrows.2⟩⟩

/-- The current event, when nothing is accepted. -/
theorem currentEvent_advanced (s : State) (input : Detail.Input) :
    (advanced s input).stream.currentEvent =
      (accepted s.stream input).or s.stream.currentEvent :=
  currentEvent_next s.stream input

/-- An input that accepts nothing leaves the screen as it is, or draws its rows. -/
theorem shows_unaccepted {s : State} (h : Shows places genreText s) (hl : s.loaded = true)
    {input : Detail.Input} (ha : accepted s.stream input = none) :
    Shows places genreText ((machine places genreText).next s (.stream input)) := by
  obtain ⟨hcells, hcontents⟩ := h.cells
  obtain ⟨hc, hshows⟩ := h
  obtain ⟨hlabels, htable, hgenres, hprefectures, -, hcrash⟩ := advanced_eq s input
  have hcurrent := currentEvent_advanced s input
  rw [ha, Option.none_or] at hcurrent
  rw [next_loaded hc hl, ha]
  dsimp only
  split
  · next event he =>
    have hrows : RowsShow s.prefectures (s.table.draw event) event := by
      refine (MemberSectionModel.rowsShow_draw_iff hcells hcontents).mpr ?_
      obtain ⟨_, hnil⟩ | ⟨event', he', _, hrows⟩ := hshows
      · exact fun _ row hrow => absurd (hnil ▸ hrow) List.not_mem_nil
      · obtain rfl := Option.some.inj (he.symm.trans he')
        exact hrows.keepsCapacity
    refine ⟨hcrash.trans hc, Or.inr ⟨event, hcurrent.trans he, ?_, ?_⟩⟩
    · dsimp only
      rw [hlabels, hgenres]
      obtain ⟨hblank, _⟩ | ⟨event', he', hlabel, _⟩ := hshows
      · exact Or.inl hblank
      · obtain rfl := Option.some.inj (he.symm.trans he')
        exact hlabel
    · dsimp only
      rw [htable, hprefectures]
      exact hrows
  · refine ⟨hcrash.trans hc, ?_⟩
    rw [hcurrent, hlabels, htable, hgenres, hprefectures]
    exact hshows

theorem shows_stream_iff {s : State} (hu : Undrawn s) (h : Shows places genreText s)
    (input : Detail.Input) :
    Shows places genreText ((machine places genreText).next s (.stream input)) ↔
      Drawable places genreText s (.stream input) := by
  obtain ⟨hlabels, htable, _, hprefectures, _, hcrash⟩ := advanced_eq s input
  cases hl : s.loaded with
  | false =>
    rw [next_unloaded h.1 hl]
    obtain ⟨hblank, hrows⟩ := hu hl
    refine iff_of_true ⟨hcrash.trans h.1, Or.inl ⟨hlabels.trans hblank, ?_⟩⟩ ?_
    · rw [htable]
      exact hrows
    · intro htrue
      rw [hl] at htrue
      cases htrue
  | true =>
    cases ha : accepted s.stream input with
    | some event =>
      have hcurrent := currentEvent_advanced s input
      rw [ha] at hcurrent
      obtain ⟨hn, hcells⟩ := h.cells
      rw [← htable] at hn hcells
      rw [← hprefectures] at hcells
      rw [next_loaded h.1 hl, ha]
      dsimp only
      rw [shows_drawn_iff (hcrash.trans h.1) hcurrent hn hcells, htable]
      constructor
      · intro hp _ event' he
        rw [ha] at he
        cases he
        exact hp
      · intro hd
        exact hd hl event ha
    | none =>
      refine iff_of_true (shows_unaccepted h hl ha) fun _ event he => ?_
      exact absurd (ha.symm.trans he) (by simp)

theorem shows_genres_iff {s : State} (h : Shows places genreText s) (genres : List Genre) :
    Shows places genreText ((machine places genreText).next s (.genres genres)) ↔
      Drawable places genreText s (.genres genres) := by
  obtain ⟨hc, hshows⟩ := h
  have hn : (machine places genreText).next s (.genres genres) = { s with genres := genres } := by
    simp [Machine.next, machine, step, hc]
  rw [hn]
  constructor
  · rintro ⟨_, ⟨hblank, _⟩ | ⟨event, he, hblank | ⟨place, _, hl⟩, _⟩⟩ hne event' he'
    · exact absurd hblank hne
    · exact absurd hblank hne
    · obtain ⟨hblank, _⟩ | ⟨event'', he'', hblank | ⟨place', _, hl'⟩, _⟩ := hshows
      · exact absurd hblank hne
      · exact absurd hblank hne
      · obtain rfl := Option.some.inj (he.symm.trans he')
        obtain rfl := Option.some.inj (he.symm.trans he'')
        exact congrArg Labels.genreLbl (hl.symm.trans hl')
  · intro hd
    refine ⟨hc, ?_⟩
    obtain hblank | ⟨event, he, hblank | ⟨place, hp, hl⟩, hrows⟩ := hshows
    · exact Or.inl hblank
    · exact Or.inr ⟨event, he, Or.inl hblank, hrows⟩
    · refine Or.inr ⟨event, he, Or.inr ⟨place, hp, ?_⟩, hrows⟩
      have hne : s.labels ≠ placeholders := by
        rw [hl]
        exact labelsOf_ne_placeholders _ _ _
      have hg := hd hne event he
      show s.labels = labelsOf genreText genres event place
      rw [hl, labelsOf, labelsOf, hg]

theorem shows_prefectures_iff {s : State} (h : Shows places genreText s)
    (prefectures : List Prefecture) :
    Shows places genreText ((machine places genreText).next s (.prefectures prefectures)) ↔
      Drawable places genreText s (.prefectures prefectures) := by
  obtain ⟨_, hcells⟩ := h.cells
  obtain ⟨hc, hshows⟩ := h
  have hn : (machine places genreText).next s (.prefectures prefectures) =
      { s with prefectures := prefectures } := by
    simp [Machine.next, machine, step, hc]
  rw [hn, Drawable, ← MemberSectionModel.cellsShow_prefectures_iff hcells]
  constructor
  · rintro ⟨_, ⟨_, hnil⟩ | ⟨event, _, _, hrows⟩⟩
    · exact fun row hrow => absurd (hnil ▸ hrow) List.not_mem_nil
    · exact hrows.cells
  · intro hcells'
    refine ⟨hc, hshows.imp_right ?_⟩
    rintro ⟨event, he, hlabels, hrows⟩
    exact ⟨event, he, hlabels, hrows.items, hcells'⟩

theorem shows_table {s : State} (h : Shows places genreText s) (input : TableInput) :
    Shows places genreText ((machine places genreText).next s (.table input)) := by
  obtain ⟨hc, hshows⟩ := h
  have hn : (machine places genreText).next s (.table input) =
      { s with table := s.table.step s.prefectures input } := by
    simp [Machine.next, machine, step, hc]
  rw [hn]
  refine ⟨hc, hshows.imp ?_ ?_⟩
  · rintro ⟨hblank, hnil⟩
    exact ⟨hblank, MemberSectionModel.rows_step_of_nil hnil input⟩
  · rintro ⟨event, he, hlabels, hrows⟩
    exact ⟨event, he, hlabels, hrows.step input⟩

theorem shows_next_iff {s : State} (hu : Undrawn s) (h : Shows places genreText s)
    (input : Input) :
    Shows places genreText ((machine places genreText).next s input) ↔
      Drawable places genreText s input := by
  cases input with
  | stream input => exact shows_stream_iff hu h input
  | viewDidLoad =>
    have hn : (machine places genreText).next s .viewDidLoad = { s with loaded := true } := by
      simp [Machine.next, machine, step, h.1]
    rw [hn]
    exact iff_of_true h trivial
  | genres genres => exact shows_genres_iff h genres
  | prefectures prefectures => exact shows_prefectures_iff h prefectures
  | table input => exact iff_of_true (shows_table h input) trivial

/-- An event accepted once the views are loaded is on the screen afterwards. -/
def Draws (places : List Place) (genreText : String) (s : State) : Input → Prop
  | .stream input =>
    s.loaded = true → ∀ event, accepted s.stream input = some event →
      ∃ place, subscript places event.place = some place ∧
        ((machine places genreText).next s (.stream input)).labels =
          labelsOf genreText s.genres event place ∧
        RowsShow s.prefectures ((machine places genreText).next s (.stream input)).table event
  | .viewDidLoad | .genres _ | .prefectures _ | .table _ => True

theorem draws_of_drawable {s : State} (hs : Shows places genreText s) {input : Input}
    (h : Drawable places genreText s input) : Draws places genreText s input := by
  cases input with
  | stream input =>
    intro hl event ha
    obtain ⟨hp, hkeeps⟩ := h hl event ha
    obtain ⟨place, hp⟩ := Option.isSome_iff_exists.mp hp
    obtain ⟨hn, hcells⟩ := hs.cells
    obtain ⟨_, htable, hgenres, _⟩ := advanced_eq s input
    refine ⟨place, hp, ?_⟩
    rw [next_loaded hs.1 hl, ha]
    dsimp only
    rw [drawn_eq hp, ← hgenres]
    refine ⟨rfl, ?_⟩
    dsimp only
    rw [htable]
    exact (MemberSectionModel.rowsShow_draw_iff hn hcells).mpr hkeeps
  | viewDidLoad | genres _ | prefectures _ | table _ => trivial

/-- In every state of a run the screen shows the current event of the stream, or has not been drawn
yet, exactly when each event that reaches the loaded view has a place of the list and changes the
capacity of no row that the table keeps, and no new list of genres or prefectures changes a title on
the screen; then each such event is drawn when it is accepted. -/
theorem run_shows_iff (genres : List Genre) (prefectures : List Prefecture) (is : List Input) :
    ((machine places genreText).Always (Shows places genreText) (start genres prefectures) is ↔
        (machine places genreText).Along (Drawable places genreText) (start genres prefectures)
          is) ∧
      ((machine places genreText).Along (Drawable places genreText) (start genres prefectures) is →
        (machine places genreText).Along (Draws places genreText) (start genres prefectures)
          is) := by
  have hinit : Shows places genreText (start genres prefectures) := ⟨rfl, Or.inl ⟨rfl, rfl⟩⟩
  have hiff := (machine places genreText).always_iff_along_of_inv (I := Undrawn)
    (fun s i hu => undrawn_next hu i) (fun s i hu h => shows_next_iff hu h i)
    (show Undrawn (start genres prefectures) from fun _ => ⟨rfl, rfl⟩) hinit is
  refine ⟨hiff, fun h => ?_⟩
  have hboth := ((machine places genreText).along_and _ _ _ _).mpr
    ⟨h, (hiff.mpr h).along fun s i hs => hs⟩
  exact hboth.mono fun s i hi => draws_of_drawable hi.2 hi.1

/-! ## The mark of the bookmark button -/

/-- No bookmark is under way. -/
def Settled (s : Detail.State) : Prop :=
  s.favorites = [] ∧ ∀ r ∈ s.details, r.origin ≠ .tapBookmark

/-- The flag of the current event. -/
def Marked (s : State) : Prop :=
  ∃ event, s.stream.currentEvent = some event ∧ s.isTapped = (event.isBookmark == some 1)

/-- The events that are accepted tell whether they are bookmarked, and the details that follow a
bookmark arrive. -/
def Answered (s : State) : Input → Prop
  | .stream input =>
    (∀ event, accepted s.stream input = some event → event.isBookmark.isSome) ∧
      match input with
      | .detailsAnswer index none =>
        ∀ r, s.stream.details[index]? = some r → r.origin ≠ .tapBookmark
      | _ => True
  | .viewDidLoad | .genres _ | .prefectures _ | .table _ => True

/-- A mark that differs from the flag has a bookmark under way. -/
structure Accounted (s : State) : Prop where
  undrawn : Undrawn s
  current : s.labels ≠ placeholders → s.stream.currentEvent.isSome
  marked : s.crashed = true ∨ s.labels = placeholders ∨ Marked s ∨ ¬ Settled s.stream

theorem marked_drawn {s : State} {event : Event} {place : Place}
    (hc : s.stream.currentEvent = some event) (hb : event.isBookmark.isSome)
    (hp : subscript places event.place = some place) :
    Marked (drawn places genreText s event) := by
  rw [drawn_eq hp]
  refine ⟨event, hc, ?_⟩
  obtain ⟨flag, hf⟩ := Option.isSome_iff_exists.mp hb
  rw [hf]
  rfl

/-- An input that accepts nothing ends no bookmark, and keeps the mark unless it starts one. -/
theorem unaccepted {s : State} {input : Detail.Input} (ha : accepted s.stream input = none)
    (hd : Answered s (.stream input)) :
    (¬ Settled s.stream → ¬ Settled (advanced s input).stream) ∧
      ((advanced s input).isTapped = s.isTapped ∨ s.stream.currentEvent = none ∨
        ¬ Settled (advanced s input).stream) := by
  cases input with
  | setEvent event => cases ha
  | tapBookmark =>
    cases hc : s.stream.currentEvent with
    | none =>
      refine ⟨fun hn => ?_, Or.inr (Or.inl rfl)⟩
      simpa [advanced, Detail.step, Detail.withCurrent, hc] using hn
    | some event =>
      have hn : ¬ Settled (advanced s .tapBookmark).stream := by
        intro hs
        have hfav := hs.1
        simp [advanced, Detail.step, Detail.withCurrent, hc] at hfav
      exact ⟨fun _ => hn, Or.inr (Or.inr hn)⟩
  | favoriteAnswer index isSuccess =>
    cases hget : s.stream.favorites[index]? with
    | none =>
      refine ⟨fun hn => ?_, Or.inl rfl⟩
      simpa [advanced, Detail.step, hget] using hn
    | some event =>
      cases isSuccess with
      | false => simp [accepted, hget] at ha
      | true =>
        have hn : ¬ Settled (advanced s (.favoriteAnswer index true)).stream := by
          intro hs
          refine hs.2 ⟨.tapBookmark, event.id⟩ ?_ rfl
          simp [advanced, Detail.step, hget, Detail.request]
        exact ⟨fun _ => hn, Or.inl rfl⟩
  | detailsAnswer index event =>
    cases hget : s.stream.details[index]? with
    | none =>
      refine ⟨fun hn => ?_, Or.inl rfl⟩
      simpa [advanced, Detail.step, hget] using hn
    | some r =>
      cases event with
      | some event => simp [accepted, hget] at ha
      | none =>
        have hr : r.origin ≠ .tapBookmark := hd.2 r hget
        refine ⟨fun hn hs => hn ⟨?_, ?_⟩, Or.inl rfl⟩
        · simpa [advanced, Detail.step, hget] using hs.1
        · intro r' hr'
          have hs' : ∀ x ∈ s.stream.details.eraseIdx index, x.origin ≠ .tapBookmark := by
            simpa [advanced, Detail.step, hget] using hs.2
          -- the request is the one that was answered, or another
          obtain ⟨hlt, heq⟩ := List.getElem?_eq_some_iff.mp hget
          have hp := List.getElem_cons_eraseIdx_perm hlt
          rw [heq] at hp
          obtain rfl | hm := List.mem_cons.mp (hp.symm.subset hr')
          · exact hr
          · exact hs' r' hm
  | reloadView =>
    refine ⟨fun hn hs => hn ?_, Or.inl rfl⟩
    cases hc : s.stream.currentEvent with
    | none => simpa [advanced, Detail.step, Detail.withCurrent, hc] using hs
    | some event =>
      simp only [advanced, Detail.step, Detail.withCurrent, hc, Detail.request] at hs
      exact ⟨hs.1, fun r hr => hs.2 r (List.mem_append_left _ hr)⟩
  | tapApplyButton | tapCancelButton | tapEditButton | reloadTable =>
    refine ⟨fun hn => ?_, Or.inl rfl⟩
    cases hc : s.stream.currentEvent <;>
      simpa [advanced, Detail.step, Detail.withCurrent, hc] using hn

/-- The input accepts nothing, or the views do not see it. -/
theorem Accounted.unseen {s t : State} {input : Detail.Input} (h : Accounted s)
    (ha : accepted s.stream input = none) (hd : Answered s (.stream input))
    (hu : Undrawn t) (hlabels : t.labels = s.labels) (hcrash : t.crashed = s.crashed)
    (hstream : t.stream = (advanced s input).stream)
    (htapped : t.isTapped = (advanced s input).isTapped) : Accounted t := by
  have hcurrent : t.stream.currentEvent = s.stream.currentEvent := by
    rw [hstream, currentEvent_advanced, ha, Option.none_or]
  obtain ⟨hkeeps, hmark⟩ := unaccepted ha hd
  rw [← hstream] at hkeeps hmark
  refine ⟨hu, ?_, ?_⟩
  · rw [hlabels, hcurrent]
    exact h.current
  · obtain hc | hl | hm | hn := h.marked
    · exact Or.inl (hcrash.trans hc)
    · exact Or.inr (Or.inl (hlabels.trans hl))
    · obtain ⟨event, he, hflag⟩ := hm
      obtain hsame | hnone | hopen := hmark
      · exact Or.inr (Or.inr (Or.inl ⟨event, hcurrent.trans he,
          (htapped.trans hsame).trans hflag⟩))
      · rw [he] at hnone
        cases hnone
      · exact Or.inr (Or.inr (Or.inr hopen))
    · exact Or.inr (Or.inr (Or.inr (hkeeps hn)))

theorem accounted_stream {s : State} (h : Accounted s) (hc : s.crashed = false)
    {input : Detail.Input} (hd : Answered s (.stream input)) :
    Accounted ((machine places genreText).next s (.stream input)) := by
  have hu := @undrawn_next places genreText _ h.undrawn (.stream input)
  obtain ⟨hlabels, _, _, _, _, hcrash⟩ := advanced_eq s input
  cases hl : s.loaded with
  | false =>
    rw [next_unloaded hc hl] at hu ⊢
    have hblank := hlabels.trans (h.undrawn hl).1
    exact ⟨hu, fun hne => absurd hblank hne, Or.inr (Or.inl hblank)⟩
  | true =>
    rw [next_loaded hc hl] at hu ⊢
    cases ha : accepted s.stream input with
    | some event =>
      simp only [ha] at hu ⊢
      have hcurrent := currentEvent_advanced s input
      rw [ha, Option.some_or] at hcurrent
      cases hp : subscript places event.place with
      | none =>
        rw [drawn_crashed hp] at hu ⊢
        exact ⟨hu, fun _ => by simp [hcurrent], Or.inl rfl⟩
      | some place =>
        have hm : Marked (drawn places genreText (advanced s input) event) :=
          marked_drawn hcurrent (hd.1 event ha) hp
        refine ⟨hu, fun _ => ?_, Or.inr (Or.inr (Or.inl hm))⟩
        obtain ⟨_, he, _⟩ := hm
        rw [he]
        rfl
    | none =>
      simp only [ha] at hu ⊢
      split at hu
      · exact h.unseen ha hd hu hlabels hcrash rfl rfl
      · exact h.unseen ha hd hu hlabels hcrash rfl rfl

theorem accounted_next {s : State} (h : Accounted s) {input : Input} (hd : Answered s input) :
    Accounted ((machine places genreText).next s input) := by
  by_cases hc : s.crashed = true
  · rw [next_crashed hc]
    exact h
  · rw [Bool.not_eq_true] at hc
    cases input with
    | stream input => exact accounted_stream h hc hd
    | viewDidLoad =>
      have hn : (machine places genreText).next s .viewDidLoad = { s with loaded := true } := by
        simp [Machine.next, machine, step, hc]
      rw [hn]
      exact ⟨fun hl => absurd hl (by simp), h.current, h.marked⟩
    | genres _ | prefectures _ | table _ =>
      have hu := @undrawn_next places genreText _ h.undrawn
      refine ⟨hu _, ?_, ?_⟩
      · simp only [Machine.next, machine, step, hc, Bool.false_eq_true, if_false]
        exact h.current
      · have hmarked := h.marked.resolve_left (by rw [hc]; exact Bool.false_ne_true)
        simp only [Machine.next, machine, step, hc, Bool.false_eq_true, if_false]
        exact Or.inr hmarked

/-- The screen has been drawn, and its mark agrees with the flag once no bookmark is under way. -/
def MarkAgrees (s : State) : Prop :=
  s.crashed = false → s.labels ≠ placeholders → Settled s.stream → Marked s

/-- However taps, refusals and answers follow each other, the mark agrees with the current event
whenever no bookmark is under way, if the events tell their flag and no details that follow a
bookmark fail. -/
theorem run_markAgrees (genres : List Genre) (prefectures : List Prefecture) {is : List Input}
    (h : (machine places genreText).Along Answered (start genres prefectures) is) :
    (machine places genreText).Always MarkAgrees (start genres prefectures) is := by
  have hinit : Accounted (start genres prefectures) :=
    ⟨fun _ => ⟨rfl, rfl⟩, fun hne => absurd rfl hne, Or.inr (Or.inl rfl)⟩
  have hall := (machine places genreText).always_of_step (P := Accounted) (C := Answered)
    (fun s i hs hd => accounted_next hs hd) hinit h
  refine hall.mono fun s hs hc hne hsettled => ?_
  obtain hcrash | hblank | hm | hopen := hs.marked
  · rw [hc] at hcrash
    cases hcrash
  · exact absurd hblank hne
  · exact hm
  · exact absurd hsettled hopen

end Runs

/-- An event whose flag is known. -/
def flagged (flag : Int) : Event :=
  ⟨1, "event", "", 0, 0, none, some flag, none, 4, none, none⟩

/-- The event is opened, bookmarked, and its new details arrive. -/
def bookmarkedOnce : List Input :=
  [.stream (.setEvent (flagged 0)), .viewDidLoad, .stream .reloadView,
    .stream (.detailsAnswer 0 (some (flagged 0))), .stream .tapBookmark,
    .stream (.favoriteAnswer 0 true), .stream (.detailsAnswer 1 (some (flagged 1)))]

theorem run_markAgrees_bookmarkedOnce :
    Marked ((machine (PlaceModel.places "offline" "online") "genre").run (start [] [])
      bookmarkedOnce) := by
  have hknown : ∀ flag : Int, (flagged flag).isBookmark.isSome := fun _ => rfl
  have h : (machine (PlaceModel.places "offline" "online") "genre").Along Answered (start [] [])
      bookmarkedOnce := by
    refine ⟨⟨?_, trivial⟩, trivial, ⟨?_, trivial⟩, ⟨?_, trivial⟩, ⟨?_, trivial⟩, ⟨?_, trivial⟩,
      ⟨?_, trivial⟩, trivial⟩
    all_goals
      intro event he
      cases he
    all_goals exact hknown _
  exact (run_markAgrees [] [] h).last rfl (by decide) ⟨rfl, by decide⟩

end Event.DetailScreen
end Karupasu
