import Karupasu.Search.SearchRequests
import Mathlib.Data.List.Nodup

/-!
# The filter popover: `EventFilterViewController` and its stream

The table allows multiple selection; `willSelectRowAt` keeps it to one row for each section.
Each tap sends all the selected rows, and the stream makes a filter of them for the search.
-/
namespace Karupasu.EventFilter

open Karupasu.Library
open Karupasu.GenreModel (Genre)
open Karupasu.PlaceModel (Place)

structure IndexPath where
  sectionIndex : Nat
  row : Nat
  deriving DecidableEq

/-- `currentGenres` and `currentPlaces`, which are also the two sections of the table. -/
structure Lists where
  genres : List Genre
  places : List Place

def Lists.HasRow (lists : Lists) (path : IndexPath) : Prop :=
  (path.sectionIndex = 0 ∧ path.row < lists.genres.length) ∨
    (path.sectionIndex = 1 ∧ path.row < lists.places.length)

/-- A row of the table. -/
abbrev Row (lists : Lists) := {path : IndexPath // lists.HasRow path}

/-- The order in which UIKit lists the selected rows. -/
structure Listing where
  list : List IndexPath → List IndexPath
  perm : ∀ selected, List.Perm (list selected) selected

theorem Listing.mem_list (listing : Listing) {selected : List IndexPath} {path : IndexPath} :
    path ∈ listing.list selected ↔ path ∈ selected := (listing.perm selected).mem_iff

/-! ## The table -/

/-- `indexPathsForSelectedRows`, nil when no row is selected. -/
def indexPathsForSelectedRows (selected : List IndexPath) (listing : Listing) :
    Option (List IndexPath) :=
  if selected = [] then none else some (listing.list selected)

def deselectRow (selected : List IndexPath) (path : IndexPath) : List IndexPath :=
  selected.filter (· ≠ path)

/-- The delegate's answer, and the rows it leaves selected. -/
def willSelectRowAt (selected : List IndexPath) (listing : Listing) (indexPath : IndexPath) :
    List IndexPath × Option IndexPath :=
  match indexPathsForSelectedRows selected listing with
  | none => (selected, some indexPath)
  | some selectedIndexPaths =>
    ((selectedIndexPaths.filter (·.sectionIndex = indexPath.sectionIndex)).foldl deselectRow selected,
      some indexPath)

/-! ## The stream -/

/-- One turn of `paths.forEach`; `none` is a subscript out of range. -/
def pick (lists : Lists) (found : Option Genre × Option Place) (indexPath : IndexPath) :
    Option (Option Genre × Option Place) :=
  if indexPath.sectionIndex = 0 then
    lists.genres[indexPath.row]?.map fun genre => (some genre, found.2)
  else
    lists.places[indexPath.row]?.map fun place => (found.1, some place)

/-- The filter that `selectFilter` makes of the selected rows. -/
def filterOf (lists : Lists) (paths : List IndexPath) : Option (Option Genre × Option Place) :=
  paths.foldlM (pick lists) (none, none)

structure State where
  selected : List IndexPath
  search : SearchView.State

inductive Effect where
  | search (effect : SearchView.Effect)
  /-- A subscript out of range ends the process. -/
  | trap

inductive Input (lists : Lists) where
  | tap (row : Row lists) (listing : Listing)
  /-- What the search stream gets from elsewhere; only the popover sets the filter. -/
  | search (i : SearchView.Input) (h : SearchView.filter? i = none)

def feed (i : SearchView.Input) (s : State) : State × List Effect :=
  let r := SearchView.step s.search i
  ({ s with search := r.1 }, r.2.map .search)

/-- `itemSelected` and `itemDeselected` both send the rows that are now selected. -/
def selectFilter (lists : Lists) (listing : Listing) (s : State) : State × List Effect :=
  match filterOf lists ((indexPathsForSelectedRows s.selected listing).getD []) with
  | some (genre, place) => feed (.setFilter genre place) s
  | none => (s, [.trap])

/-- UIKit deselects a row that is selected, and asks the delegate before it selects another. -/
def step (lists : Lists) (s : State) : Input lists → State × List Effect
  | .tap row listing =>
    if row.1 ∈ s.selected then
      selectFilter lists listing { s with selected := deselectRow s.selected row.1 }
    else
      match willSelectRowAt s.selected listing row.1 with
      | (selected, some indexPath) =>
        selectFilter lists listing { s with selected := selected ++ [indexPath] }
      | (selected, none) => ({ s with selected := selected }, [])
  | .search i _ => feed i s

def machine (lists : Lists) : Machine State (Input lists) Effect := ⟨step lists⟩

/-- The popover as it opens, nothing selected. -/
def opened (search : SearchView.State) : State := ⟨[], search⟩

/-! ## The selection and the filter -/

/-- Rows of the table, at most one of each section. -/
structure Selection (lists : Lists) (selected : List IndexPath) : Prop where
  hasRow : ∀ path ∈ selected, lists.HasRow path
  onePerSection : (selected.map (·.sectionIndex)).Nodup

/-- `value` is the item of the selected row of the section, and nil if there is none. -/
def Follows {α : Type} (selected : List IndexPath) (sectionIndex : Nat) (items : List α)
    (value : Option α) : Prop :=
  match selected.find? (·.sectionIndex = sectionIndex) with
  | some path => ∃ h : path.row < items.length, value = some items[path.row]
  | none => value = none

structure InStep (lists : Lists) (s : State) : Prop where
  selection : Selection lists s.selected
  genre : Follows s.selected 0 lists.genres s.search.filter.1
  place : Follows s.selected 1 lists.places s.search.filter.2

theorem mem_indexPathsForSelectedRows (selected : List IndexPath) (listing : Listing)
    (path : IndexPath) :
    path ∈ (indexPathsForSelectedRows selected listing).getD [] ↔ path ∈ selected := by
  unfold indexPathsForSelectedRows
  split
  · next h => rw [h]; rfl
  · exact listing.mem_list

theorem foldl_deselectRow (paths selected : List IndexPath) :
    paths.foldl deselectRow selected = selected.filter (· ∉ paths) := by
  induction paths generalizing selected with
  | nil => simp
  | cons path paths ih =>
    rw [List.foldl_cons, ih, deselectRow, List.filter_filter]
    refine List.filter_congr fun other _ => ?_
    simp [Bool.and_comm]

/-- The delegate deselects the rows of the section, in whatever order they are listed. -/
theorem willSelectRowAt_eq (selected : List IndexPath) (listing : Listing)
    (indexPath : IndexPath) :
    willSelectRowAt selected listing indexPath =
      (selected.filter (·.sectionIndex ≠ indexPath.sectionIndex), some indexPath) := by
  unfold willSelectRowAt indexPathsForSelectedRows
  by_cases h : selected = []
  · rw [if_pos h, h]
    rfl
  · rw [if_neg h]
    simp only [foldl_deselectRow]
    congr 1
    refine List.filter_congr fun path hpath => ?_
    simp [listing.mem_list, hpath]

theorem Selection.filter {lists : Lists} {selected : List IndexPath} (h : Selection lists selected)
    (p : IndexPath → Bool) : Selection lists (selected.filter p) :=
  ⟨fun path hpath => h.hasRow path (List.mem_of_mem_filter hpath),
    h.onePerSection.sublist (List.filter_sublist.map _)⟩

theorem Selection.select {lists : Lists} {selected : List IndexPath} (h : Selection lists selected)
    {path : IndexPath} (hpath : lists.HasRow path) :
    Selection lists (selected.filter (·.sectionIndex ≠ path.sectionIndex) ++ [path]) := by
  have hf := h.filter (·.sectionIndex ≠ path.sectionIndex)
  constructor
  · intro other hother
    rcases List.mem_append.mp hother with hother | hother
    · exact hf.hasRow other hother
    · rw [List.mem_singleton.mp hother]
      exact hpath
  · rw [List.map_append, List.nodup_append']
    refine ⟨hf.onePerSection, List.nodup_singleton _, ?_⟩
    simp

/-- The item of a section that a row stands for. -/
def itemIn {α : Type} (sectionIndex : Nat) (items : List α) (path : IndexPath) : Option α :=
  if path.sectionIndex = sectionIndex then items[path.row]? else none

/-- On rows of the table the loop succeeds, and keeps the last row of each section. -/
theorem filterOf_eq {lists : Lists} {paths : List IndexPath}
    (h : ∀ path ∈ paths, lists.HasRow path) :
    filterOf lists paths = some (Machine.written (itemIn 0 lists.genres) paths,
      Machine.written (itemIn 1 lists.places) paths) := by
  unfold filterOf
  induction paths using List.reverseRecOn with
  | nil => rfl
  | append_singleton paths path ih =>
    have hpath := h path (List.mem_append_right _ List.mem_cons_self)
    rw [List.foldlM_append, ih fun other hother => h other (List.mem_append_left _ hother)]
    rw [Machine.written_concat, Machine.written_concat]
    obtain ⟨hsection, hrow⟩ | ⟨hsection, hrow⟩ := hpath
    · simp [pick, itemIn, hsection, hrow]
    · simp [pick, itemIn, hsection, hrow]

/-- With one row for each section, the last one listed is the one selected. -/
theorem follows_written {α : Type} {lists : Lists} {selected paths : List IndexPath}
    (h : Selection lists selected) (hmem : ∀ path, path ∈ paths ↔ path ∈ selected)
    {sectionIndex : Nat} {items : List α}
    (hrow : ∀ path, lists.HasRow path → path.sectionIndex = sectionIndex → path.row < items.length) :
    Follows selected sectionIndex items
      (Machine.written (itemIn sectionIndex items) paths) := by
  have hof : ∀ item, Machine.written (itemIn sectionIndex items) paths = some item →
      ∃ path ∈ selected, path.sectionIndex = sectionIndex ∧ items[path.row]? = some item := by
    intro item hitem
    obtain ⟨path, hpath, hwrite⟩ := Machine.exists_of_written hitem
    obtain ⟨hsection, hget⟩ := Option.ite_none_right_eq_some.mp hwrite
    exact ⟨path, (hmem path).mp hpath, hsection, hget⟩
  unfold Follows
  split
  · next path hfind =>
    have hpath := List.mem_of_find?_eq_some hfind
    have hsection : path.sectionIndex = sectionIndex := by
      simpa using List.find?_some hfind
    have hlt := hrow path (h.hasRow path hpath) hsection
    refine ⟨hlt, ?_⟩
    have hsome : (Machine.written (itemIn sectionIndex items) paths).isSome :=
      (Machine.isSome_written_iff _ _).mpr
        ⟨path, (hmem path).mpr hpath, by simp [itemIn, hsection, hlt]⟩
    obtain ⟨item, hitem⟩ := Option.isSome_iff_exists.mp hsome
    obtain ⟨other, hother, hothersection, hget⟩ := hof item hitem
    have heq : other = path := List.inj_on_of_nodup_map h.onePerSection hother hpath
      (hothersection.trans hsection.symm)
    rw [hitem, ← hget, heq, List.getElem?_eq_getElem hlt]
  · next hfind =>
    rw [← Option.not_isSome_iff_eq_none]
    intro hsome
    obtain ⟨item, hitem⟩ := Option.isSome_iff_exists.mp hsome
    obtain ⟨path, hpath, hsection, -⟩ := hof item hitem
    exact List.find?_eq_none.mp hfind path hpath (by simpa using hsection)

theorem Lists.HasRow.lt_genres {lists : Lists} {path : IndexPath} (h : lists.HasRow path)
    (hsection : path.sectionIndex = 0) : path.row < lists.genres.length := by
  unfold Lists.HasRow at h
  omega

theorem Lists.HasRow.lt_places {lists : Lists} {path : IndexPath} (h : lists.HasRow path)
    (hsection : path.sectionIndex = 1) : path.row < lists.places.length := by
  unfold Lists.HasRow at h
  omega

theorem filter_feed (i : SearchView.Input) (s : State) :
    (feed i s).1.search.filter = (SearchView.filter? i).getD s.search.filter :=
  (SearchView.next_registers s.search i).2.1

theorem selectFilter_inStep {lists : Lists} {s : State} (h : Selection lists s.selected)
    (listing : Listing) : InStep lists (selectFilter lists listing s).1 := by
  have hmem := mem_indexPathsForSelectedRows s.selected listing
  have hrows : ∀ path ∈ (indexPathsForSelectedRows s.selected listing).getD [],
      lists.HasRow path := fun path hpath => h.hasRow path ((hmem path).mp hpath)
  rw [selectFilter, filterOf_eq hrows]
  refine ⟨h, ?_, ?_⟩
  · dsimp only
    rw [filter_feed]
    exact follows_written h hmem fun _ => Lists.HasRow.lt_genres
  · dsimp only
    rw [filter_feed]
    exact follows_written h hmem fun _ => Lists.HasRow.lt_places

theorem tap_eq (lists : Lists) (s : State) (row : Row lists) (listing : Listing) :
    step lists s (.tap row listing) = selectFilter lists listing { s with
      selected := if row.1 ∈ s.selected then deselectRow s.selected row.1
        else s.selected.filter (·.sectionIndex ≠ row.1.sectionIndex) ++ [row.1] } := by
  simp only [step, willSelectRowAt_eq]
  split <;> rfl

/-- A tap leaves the filter in step with the selection, whatever the filter was before. -/
theorem inStep_tap {lists : Lists} {s : State} (h : Selection lists s.selected) (row : Row lists)
    (listing : Listing) : InStep lists ((machine lists).next s (.tap row listing)) := by
  show InStep lists (step lists s (.tap row listing)).1
  rw [tap_eq]
  refine selectFilter_inStep ?_ listing
  dsimp only
  split
  · exact h.filter _
  · exact h.select row.2

theorem selection_step {lists : Lists} (s : State) (i : Input lists)
    (h : Selection lists s.selected) : Selection lists ((machine lists).next s i).selected := by
  cases i with
  | tap row listing => exact (inStep_tap h row listing).selection
  | search i hi => exact h

/-- After each tap at most one row of each section is selected, and the filter of the search is
made of the selected rows, in whatever order the table lists them. -/
theorem filter_follows_selection (lists : Lists) (search : SearchView.State)
    (is : List (Input lists)) (row : Row lists) (listing : Listing) :
    InStep lists ((machine lists).run (opened search) (is ++ [.tap row listing])) := by
  have hopened : Selection lists (opened search).selected :=
    ⟨fun path hpath => absurd hpath List.not_mem_nil, List.nodup_nil⟩
  have h := ((machine lists).always_of_inv (P := fun s => Selection lists s.selected)
    selection_step hopened is).last
  rw [Machine.run_append]
  exact inStep_tap h row listing

/-- A second genre takes the place of the first, with the rows listed backwards. -/
example :
    let lists : Lists := ⟨[⟨1, "sport"⟩, ⟨2, "food"⟩], [⟨0, "offline"⟩, ⟨1, "online"⟩]⟩
    let backwards : Listing := ⟨List.reverse, List.reverse_perm⟩
    let s := (machine lists).run (opened SearchView.start)
      [.tap ⟨⟨0, 0⟩, .inl ⟨rfl, by decide⟩⟩ backwards, .tap ⟨⟨1, 1⟩, .inr ⟨rfl, by decide⟩⟩ backwards,
        .tap ⟨⟨0, 1⟩, .inl ⟨rfl, by decide⟩⟩ backwards]
    s.selected = [⟨1, 1⟩, ⟨0, 1⟩] ∧ s.search.filter = (some ⟨2, "food"⟩, some ⟨1, "online"⟩) := by
  decide

end Karupasu.EventFilter
