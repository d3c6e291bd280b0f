import Karupasu.Differentiator.AnimatedRows
import Karupasu.Event.PickerRows
import Karupasu.Library.Numerals

/-!
# The table of the prefecture picker

`EventOptionSelectViewController` shows the rows of its stream in a table that allows several
selected rows. The table keeps the selection of a row that an animated update finds again and
drops all of it when it reloads. From the data a row is selected only as its cell is configured,
which happens when the row comes into sight, with the item that the data source has for it then.
-/
namespace Karupasu.Event

open Karupasu.Library
open Karupasu.Differentiator
open Karupasu.EventModel (Event)
open Karupasu.PrefectureModel (Prefecture)

namespace ApplySheet.OptionSectionModel

def identity (m : OptionSectionModel) : String := toString m.data.id

instance : BEq OptionSectionModel := ⟨fun lhs rhs => lhs.identity == rhs.identity⟩

instance : IdentifiableType OptionSectionModel String := ⟨OptionSectionModel.identity⟩

def isJoin (m : OptionSectionModel) : Bool := (m.subData.map (·.isJoined)).getD 0 == 1

end ApplySheet.OptionSectionModel

namespace OptionTable

open Karupasu.Event.ApplySheet

/-- The table and its data source; of a row it is told whether the table has it selected. -/
abbrev Table := AnimatedRows OptionSectionModel Bool

namespace Table

/-- `configureCell`: a joined row is selected, and no row is deselected. -/
def configureCell (row : OptionSectionModel × Bool) : OptionSectionModel × Bool :=
  (row.1, if row.1.isJoin then true else row.2)

/-- The table asks for the cell of a row. -/
def cellForRow (t : Table) (index : Nat) : Table :=
  { t with rows := t.rows.modify index configureCell }

/-- The selection of a row that is new to the table. -/
def fresh (_item : OptionSectionModel) : Bool := false

/-- The rows at `indexPathsForSelectedRows`; in which order they are listed does not matter here. -/
def selectedItems (t : Table) : List Prefecture := (t.rows.filter (·.2)).map (·.1.data)

end Table

structure State where
  picker : Picker
  /-- The value of `PrefectureModel.prefectures`. -/
  prefectures : List Prefecture
  /-- The details requests in flight. -/
  requests : List DetailsRequest
  /-- The table, once the view has loaded. -/
  table : Option Table

/-- `asked` are the rows whose cells the table asks for as it is laid out. -/
inductive Input where
  | viewDidLoad
  /-- The table enters or leaves a window. -/
  | setWindow (isAttached : Bool) (asked : List Nat)
  /-- A row comes into sight. -/
  | cellForRow (index : Nat)
  /-- A tap on a row. -/
  | tapRow (index : Nat)
  | tapConfirm
  | setEvent (event : Event)
  | reloadView
  /-- An answer to a details request, or `none` for an error. -/
  | detailsAnswer (index : Nat) (event : Option Event) (asked : List Nat)
  /-- An answer to `getPrefectures`, and the order in which the relay runs its subscriptions. -/
  | prefecturesAnswer (items : Option (List Prefecture)) (order : List Nat) (asked : List Nat)

inductive Output where
  | getEventDetails (eventId : Int)
  | selectOption (prefectures : List Prefecture)
  | confirmOption (prefectures : List Prefecture)
  deriving DecidableEq

/-- The inner subscription to `prefectures`, and the table bound to `reloadDatasource`. -/
def reload (s : State) (event : Event) : State :=
  match event.details with
  | some _ =>
    let picker := s.picker.reload event s.prefectures
    { s with
      picker := picker
      table := s.table.map fun t => t.update Table.fresh picker.reloadDatasource }
  | none => s

/-- `state.currenEvent.accept(event)` and the subscription to it. -/
def accept (s : State) (event : Event) : State :=
  let s := { s with picker := { s.picker with currenEvent := some event } }
  if event.details.isSome then
    reload { s with picker := { s.picker with subscriptions := s.picker.subscriptions ++ [event] } }
      event
  else s

/-- A new value of `prefectures` runs the inner subscriptions. -/
def refresh (s : State) (prefectures : List Prefecture) (order : List Nat) : State :=
  (refreshed s.picker order).foldl reload { s with prefectures := prefectures }

/-- A cell that was asked for before another update of the same step would have been configured
with the same item, or its selection is dropped by that update. -/
def ask (asked : List Nat) (s : State) : State :=
  { s with table := s.table.map fun t => asked.foldl Table.cellForRow t }

def step (s : State) : Input → State × List Output
  | .viewDidLoad =>
    match s.table with
    | some _ => (s, [])
    | none =>
      ({ s with table := some (AnimatedRows.reloadData Table.fresh ⟨false, []⟩
          s.picker.reloadDatasource) }, [])
  | .setWindow isAttached asked =>
    (ask asked { s with table := s.table.map fun t => { t with inWindow := isAttached } }, [])
  | .cellForRow index => (ask [index] s, [])
  | .tapRow index =>
    match s.table with
    | some t =>
      match t.rows[index]? with
      | some row =>
        let t : Table := { t with rows := t.rows.set index (row.1, !row.2) }
        ({ s with table := some t
                  picker := { s.picker with selectedOption := t.selectedItems } }, [])
      | none => (s, [])
    | none => (s, [])
  | .tapConfirm =>
    let prefectures := s.picker.selectedOption
    ({ s with picker := { s.picker with
                selectOption := prefectures
                confirmOption := prefectures } },
      [.selectOption prefectures, .confirmOption prefectures])
  | .setEvent event =>
    ({ s with requests := s.requests ++ [⟨.setEvent, event.id⟩] }, [.getEventDetails event.id])
  | .reloadView =>
    match s.picker.currenEvent with
    | some event =>
      ({ s with requests := s.requests ++ [⟨.reloadView, event.id⟩] },
        [.getEventDetails event.id])
    | none => (s, [])
  | .detailsAnswer index event asked =>
    match s.requests[index]?, event with
    | some ⟨.setEvent, _⟩, some event =>
      let s := ask asked (accept { s with requests := s.requests.eraseIdx index } event)
      ({ s with picker := { s.picker with selectOption := s.picker.selectedOption } },
        [.selectOption s.picker.selectedOption])
    | some ⟨.reloadView, _⟩, some event =>
      (ask asked (accept { s with requests := s.requests.eraseIdx index } event), [])
    | some _, none => ({ s with requests := s.requests.eraseIdx index }, [])
    | none, _ => (s, [])
  | .prefecturesAnswer items order asked =>
    match items with
    | some prefectures =>
      if prefectures.isEmpty then (s, []) else (ask asked (refresh s prefectures order), [])
    | none => (s, [])

def machine : Machine State Input Output := ⟨step⟩

def start (prefectures : List Prefecture) : State :=
  ⟨⟨none, [], [], [], [], []⟩, prefectures, [], none⟩

/-! ## Cells that are asked for -/

theorem isJoin_rowFor (event : Event) (p : Prefecture) :
    (rowFor event p).isJoin = joinedIn event p.id := by
  unfold OptionSectionModel.isJoin rowFor joinedIn
  cases detailFor event p.id <;> rfl

theorem rows_ask (asked : List Nat) (t : Table) (j : Nat) :
    (asked.foldl Table.cellForRow t).rows[j]? =
      t.rows[j]?.map fun row => (row.1, row.2 || (decide (j ∈ asked) && row.1.isJoin)) := by
  induction asked generalizing t with
  | nil => simp
  | cons index asked ih =>
    rw [List.foldl_cons, ih, Table.cellForRow, List.getElem?_modify, Option.map_eq_map,
      Option.map_map]
    congr 1
    funext row
    by_cases hj : index = j
    · subst hj
      cases hjoin : row.1.isJoin <;> simp [Table.configureCell, hjoin]
    · simp [hj, Ne.symm hj]

theorem mem_selectedItems {t : Table} {p : Prefecture} :
    p ∈ t.selectedItems ↔ ∃ row ∈ t.rows, row.2 = true ∧ row.1.data = p := by
  simp [Table.selectedItems, and_assoc]

/-- A row of the prefecture is selected, or its cell is asked for and joined. -/
def AskedSelected (t : Table) (asked : List Nat) (p : Prefecture) : Prop :=
  ∃ (j : Nat) (row : OptionSectionModel × Bool), t.rows[j]? = some row ∧ row.1.data = p ∧
    (row.2 = true ∨ j ∈ asked ∧ row.1.isJoin = true)

theorem mem_selectedItems_ask {asked : List Nat} {t : Table} {p : Prefecture} :
    p ∈ (asked.foldl Table.cellForRow t).selectedItems ↔ AskedSelected t asked p := by
  rw [mem_selectedItems]
  constructor
  · rintro ⟨_, hmem, hs, hp⟩
    obtain ⟨j, hj⟩ := List.mem_iff_getElem?.mp hmem
    rw [rows_ask, Option.map_eq_some_iff] at hj
    obtain ⟨row, hrow, rfl⟩ := hj
    exact ⟨j, row, hrow, hp, by simpa using hs⟩
  · rintro ⟨j, row, hrow, hp, hs⟩
    refine ⟨(row.1, row.2 || (decide (j ∈ asked) && row.1.isJoin)),
      List.mem_of_getElem? (i := j) ?_, by simpa using hs, hp⟩
    rw [rows_ask, hrow]
    rfl

/-! ## The stream behind the table is that of the sheet -/

theorem picker_reload (s : State) (event : Event) :
    (reload s event).picker = s.picker.reload event s.prefectures ∧
      (reload s event).prefectures = s.prefectures := by
  cases hd : event.details <;> simp [reload, Picker.reload, hd]

theorem picker_accept (s : State) (event : Event) :
    (accept s event).picker = s.picker.accept event s.prefectures ∧
      (accept s event).prefectures = s.prefectures := by
  unfold accept Picker.accept
  dsimp only
  split
  · exact picker_reload _ event
  · exact ⟨rfl, rfl⟩

theorem picker_foldl_reload (events : List Event) (s : State) :
    (events.foldl reload s).picker =
        events.foldl (fun picker event => picker.reload event s.prefectures) s.picker ∧
      (events.foldl reload s).prefectures = s.prefectures := by
  induction events generalizing s with
  | nil => exact ⟨rfl, rfl⟩
  | cons event events ih =>
    obtain ⟨hp, hl⟩ := picker_reload s event
    obtain ⟨hp', hl'⟩ := ih (reload s event)
    rw [List.foldl_cons, List.foldl_cons, hp', hl', hp, hl]
    exact ⟨rfl, rfl⟩

theorem picker_refresh (s : State) (prefectures : List Prefecture) (order : List Nat) :
    (refresh s prefectures order).picker = s.picker.refresh prefectures order ∧
      (refresh s prefectures order).prefectures = prefectures := by
  rw [refresh_eq]
  exact picker_foldl_reload _ _

/-! ## What the updates of a step leave selected -/

/-- The rows that an event has for the prefectures. -/
def rowsFor (prefectures : List Prefecture) (event : Event) : List OptionSectionModel :=
  prefectures.map (rowFor event)

/-- Where the updates of one step are animated, the selection of the rows found again outlives
them: the first update finds no identity twice, and neither does any other. -/
def KeepsRows (t : Table) (prefectures : List Prefecture) (first : Event) (rest : List Event) :
    Prop :=
  t.animates (rowsFor prefectures first) = true ∧
    (rest = [] ∨ (prefectures.map fun p => toString p.id).Nodup)

instance (t : Table) (prefectures : List Prefecture) (first : Event) (rest : List Event) :
    Decidable (KeepsRows t prefectures first rest) := inferInstanceAs (Decidable (_ ∧ _))

/-- The event whose rows the data source holds after updates that do not keep the old ones. -/
def heldEvent (t : Table) (prefectures : List Prefecture) (first : Event) (rest : List Event) :
    Event :=
  if t.inWindow = true ∧ (prefectures.map fun p => toString p.id).Nodup then first
  else rest.getLast?.getD first

/-- A prefecture whose row is selected after the updates of one step, which show it the rows of
`first` and of the `rest` one after the other and ask for some cells. -/
def LeftSelected (t : Table) (prefectures : List Prefecture) (first : Event) (rest : List Event)
    (asked : List Nat) (p : Prefecture) : Prop :=
  (KeepsRows t prefectures first rest ∧
      t.identities = prefectures.map (fun q => toString q.id) ∧
    -- nothing changes: the data source keeps the items it has
    AskedSelected t asked p) ∨
  (KeepsRows t prefectures first rest ∧
      t.identities ≠ prefectures.map (fun q => toString q.id) ∧
    ∃ j : Nat, prefectures[j]? = some p ∧
      ((∃ row ∈ t.rows, row.1.data.id = p.id ∧ row.2 = true) ∨
        j ∈ asked ∧ joinedIn first p.id = true)) ∨
  (¬KeepsRows t prefectures first rest ∧
    -- the table reloads and deselects its rows
    ∃ j : Nat, prefectures[j]? = some p ∧ j ∈ asked ∧
      joinedIn (heldEvent t prefectures first rest) p.id = true)

theorem map_identity_rowsFor (prefectures : List Prefecture) (event : Event) :
    (rowsFor prefectures event).map identity = prefectures.map fun p => toString p.id := by
  rw [rowsFor, List.map_map]
  rfl

theorem rows_reloadData (t : Table) (prefectures : List Prefecture) (event : Event) (j : Nat) :
    (t.reloadData Table.fresh (rowsFor prefectures event)).rows[j]? =
      prefectures[j]?.map fun p => (rowFor event p, false) := by
  show ((rowsFor prefectures event).map fun item => (item, Table.fresh item))[j]? = _
  rw [rowsFor, List.map_map, List.getElem?_map]
  rfl

theorem kept_eq_true_iff {t : Table} (hn : t.identities.Nodup) (event : Event) (p : Prefecture) :
    t.kept Table.fresh (rowFor event p) = true ↔
      ∃ row ∈ t.rows, row.1.data.id = p.id ∧ row.2 = true := by
  have hid : ∀ row : OptionSectionModel × Bool,
      identity row.1 = identity (rowFor event p) ↔ row.1.data.id = p.id :=
    fun row => Numerals.toString_inj
  by_cases h : ∃ row ∈ t.rows, identity row.1 = identity (rowFor event p)
  · obtain ⟨row, hmem, hrow⟩ := h
    rw [AnimatedRows.kept_of_mem hn hmem hrow]
    constructor
    · exact fun hs => ⟨row, hmem, (hid row).mp hrow, hs⟩
    · rintro ⟨row', hmem', hrow', hs⟩
      rw [AnimatedRows.identities_eq] at hn
      have hsame := List.inj_on_of_nodup_map hn hmem hmem' (hrow.trans ((hid row').mpr hrow').symm)
      rw [hsame]
      exact hs
  · rw [AnimatedRows.kept_of_forall_ne fun row hmem hrow => h ⟨row, hmem, hrow⟩]
    refine iff_of_false Bool.false_ne_true ?_
    rintro ⟨row, hmem, hrow, -⟩
    exact h ⟨row, hmem, (hid row).mpr hrow⟩

/-- The table after the updates of one step, before any cell is asked for. -/
theorem foldl_update_rowsFor (t : Table) (prefectures : List Prefecture) (first : Event)
    (rest : List Event) :
    ((first :: rest).map (rowsFor prefectures)).foldl (AnimatedRows.update Table.fresh) t =
      if KeepsRows t prefectures first rest then t.update Table.fresh (rowsFor prefectures first)
      else t.reloadData Table.fresh (rowsFor prefectures (heldEvent t prefectures first rest)) := by
  have hids : ∀ items ∈ (first :: rest).map (rowsFor prefectures),
      items.map identity = prefectures.map fun p => toString p.id := by
    intro items hi
    obtain ⟨event, -, rfl⟩ := List.mem_map.mp hi
    exact map_identity_rowsFor prefectures event
  have hlast : ((first :: rest).map (rowsFor prefectures)).getLast? =
      some (rowsFor prefectures (rest.getLast?.getD first)) := by
    rw [List.getLast?_map, List.getLast?_cons]
    rfl
  rw [List.map_cons, AnimatedRows.foldl_update hids hlast]
  simp only [List.map_eq_nil_iff]
  have hreload : t.animates (rowsFor prefectures first) ≠ true →
      t.update Table.fresh (rowsFor prefectures first) =
        t.reloadData Table.fresh (rowsFor prefectures first) :=
    AnimatedRows.update_of_not_animates
  by_cases hk : KeepsRows t prefectures first rest
  · have hw := (AnimatedRows.of_animates hk.1).1
    rw [if_pos hk, if_pos (hk.2.imp_right fun hn => ⟨hw, hn⟩)]
  · rw [if_neg hk]
    by_cases hw : t.inWindow = true ∧ (prefectures.map fun p => toString p.id).Nodup
    · rw [if_pos (.inr hw), hreload fun ha => hk ⟨ha, .inr hw.2⟩, heldEvent, if_pos hw]
    · rw [heldEvent, if_neg hw]
      by_cases hr : rest = []
      · rw [if_pos (.inl hr), hreload fun ha => hk ⟨ha, .inl hr⟩, hr]
        rfl
      · rw [if_neg (not_or.mpr ⟨hr, hw⟩)]

theorem mem_selectedItems_shown {t : Table} {prefectures : List Prefecture} {first : Event}
    {rest : List Event} {asked : List Nat} {p : Prefecture} :
    p ∈ (asked.foldl Table.cellForRow (((first :: rest).map (rowsFor prefectures)).foldl
        (AnimatedRows.update Table.fresh) t)).selectedItems ↔
      LeftSelected t prefectures first rest asked p := by
  rw [foldl_update_rowsFor, mem_selectedItems_ask, LeftSelected, AskedSelected]
  by_cases hk : KeepsRows t prefectures first rest
  · obtain ⟨hw, hn⟩ := AnimatedRows.of_animates hk.1
    rw [if_pos hk, AnimatedRows.update, if_pos hk.1]
    rw [map_identity_rowsFor]
    by_cases hsame : t.identities = prefectures.map fun q => toString q.id
    · rw [if_pos hsame]
      simp only [hk, hsame, ne_eq, not_true_eq_false, false_and, and_false, or_false, true_and,
        AskedSelected]
    · rw [if_neg hsame]
      simp only [hk, hsame, ne_eq, not_true_eq_false, false_and, and_false, or_false, false_or,
        true_and, not_false_eq_true]
      have hrow : ∀ j : Nat, ((rowsFor prefectures first).map fun item =>
          (item, t.kept Table.fresh item))[j]? = prefectures[j]?.map fun p =>
            (rowFor first p, t.kept Table.fresh (rowFor first p)) := by
        intro j
        rw [rowsFor, List.map_map, List.getElem?_map]
        rfl
      constructor
      · rintro ⟨j, row, hj, rfl, hs⟩
        rw [hrow, Option.map_eq_some_iff] at hj
        obtain ⟨q, hq, rfl⟩ := hj
        refine ⟨j, hq, ?_⟩
        rw [kept_eq_true_iff hn, isJoin_rowFor] at hs
        exact hs
      · rintro ⟨j, hq, hs⟩
        refine ⟨j, (rowFor first p, t.kept Table.fresh (rowFor first p)), ?_, rfl, ?_⟩
        · rw [hrow, hq]
          rfl
        · rw [kept_eq_true_iff hn, isJoin_rowFor]
          exact hs
  · rw [if_neg hk]
    simp only [hk, false_and, false_or, not_false_eq_true, true_and, rows_reloadData,
      Option.map_eq_some_iff]
    constructor
    · rintro ⟨j, row, ⟨q, hq, rfl⟩, rfl, hs⟩
      refine ⟨j, hq, ?_⟩
      rw [isJoin_rowFor] at hs
      exact hs.resolve_left Bool.false_ne_true
    · rintro ⟨j, hq, hs⟩
      refine ⟨j, _, ⟨p, hq, rfl⟩, rfl, .inr ?_⟩
      rw [isJoin_rowFor]
      exact hs

/-! ## One reload, and several -/

theorem reload_of_details (s : State) {event : Event} (hd : event.details.isSome) :
    (reload s event).table =
        s.table.map (fun t => t.update Table.fresh (rowsFor s.prefectures event)) ∧
      (reload s event).picker.selectedOption =
        s.prefectures.filter (fun p => joinedIn event p.id) ∧
      (reload s event).prefectures = s.prefectures := by
  obtain ⟨details, hdet⟩ := Option.isSome_iff_exists.mp hd
  have hp := ApplySheet.reload_of_details s.picker hd s.prefectures
  rw [joinPrefecture_map_rowFor] at hp
  have hr : reload s event = { s with
      picker := s.picker.reload event s.prefectures
      table := s.table.map fun t =>
        t.update Table.fresh (s.picker.reload event s.prefectures).reloadDatasource } := by
    simp only [reload, hdet]
  rw [hr, hp]
  exact ⟨rfl, rfl, rfl⟩

theorem reload_of_no_details (s : State) {event : Event} (hd : ¬ event.details.isSome) :
    reload s event = s := by
  rw [Option.not_isSome_iff_eq_none] at hd
  simp only [reload, hd]

/-- The events among them that reload anything. -/
def detailed (events : List Event) : List Event := events.filter fun event => event.details.isSome

theorem isSome_of_mem_detailed {events : List Event} (event : Event) (h : event ∈ detailed events) :
    event.details.isSome := (List.mem_filter.mp h).2

theorem foldl_reload_detailed (events : List Event) (s : State) :
    events.foldl reload s = (detailed events).foldl reload s := by
  induction events generalizing s with
  | nil => rfl
  | cons event events ih =>
    by_cases hd : event.details.isSome
    · rw [detailed, List.filter_cons, if_pos hd]
      exact ih (reload s event)
    · rw [detailed, List.filter_cons, if_neg hd, List.foldl_cons, reload_of_no_details s hd]
      exact ih s

/-- Several reloads for one list of prefectures: the stream holds what is joined in the last. -/
theorem foldl_reload {first : Event} {rest : List Event} (s : State)
    (hd : ∀ event ∈ first :: rest, event.details.isSome) :
    ((first :: rest).foldl reload s).table = s.table.map (fun t =>
        ((first :: rest).map (rowsFor s.prefectures)).foldl (AnimatedRows.update Table.fresh) t) ∧
      ((first :: rest).foldl reload s).picker.selectedOption =
        s.prefectures.filter (fun p => joinedIn (rest.getLast?.getD first) p.id) := by
  obtain ⟨htab, hsel, hpre⟩ := reload_of_details s (hd first List.mem_cons_self)
  induction rest generalizing first s with
  | nil => exact ⟨htab, hsel⟩
  | cons second rest ih =>
    have hd' : ∀ event ∈ second :: rest, event.details.isSome :=
      fun event he => hd event (List.mem_cons_of_mem first he)
    obtain ⟨htab', hsel', hpre'⟩ := reload_of_details (reload s first)
      (hd' second List.mem_cons_self)
    obtain ⟨ht, hs⟩ := ih (reload s first) hd' htab' hsel' hpre'
    rw [List.foldl_cons, ht, hs, htab, hpre, Option.map_map, List.getLast?_cons]
    exact ⟨rfl, rfl⟩

/-! ## The selection submitted is the selection shown -/

/-- A `tapConfirm` submits exactly the prefectures whose rows are selected, whenever the table is
in a window with its button. -/
def SubmitsSelected (s : State) : Prop :=
  ∀ t, s.table = some t → t.inWindow = true → ∀ prefectures,
    .confirmOption prefectures ∈ machine.emit s .tapConfirm →
      ∀ p, p ∈ prefectures ↔ ∃ row ∈ t.rows, row.2 = true ∧ row.1.data = p

/-- The selection the stream holds is the one of the table. -/
def Agrees (s : State) : Prop :=
  ∀ t, s.table = some t → t.inWindow = true →
    ∀ p, p ∈ s.picker.selectedOption ↔ p ∈ t.selectedItems

theorem submitsSelected_iff (s : State) : SubmitsSelected s ↔ Agrees s := by
  constructor
  · intro h t ht hw p
    rw [mem_selectedItems]
    exact h t ht hw s.picker.selectedOption (by simp [Machine.emit, machine, step]) p
  · intro h t ht hw prefectures hm p
    have hp : prefectures = s.picker.selectedOption := by
      simpa [Machine.emit, machine, step] using hm
    rw [hp, ← mem_selectedItems]
    exact h t ht hw p

theorem Agrees.of_eq {s t : State} (h : Agrees s) (ht : t.table = s.table)
    (hs : t.picker.selectedOption = s.picker.selectedOption) : Agrees t := by
  intro r hr hw p
  rw [hs]
  exact h r (ht.symm.trans hr) hw p

@[simp] theorem inWindow_ask (asked : List Nat) (t : Table) :
    (asked.foldl Table.cellForRow t).inWindow = t.inWindow := by
  induction asked generalizing t with
  | nil => rfl
  | cons index asked ih => exact ih (t.cellForRow index)

theorem agrees_ask_iff (asked : List Nat) (s : State) :
    Agrees (ask asked s) ↔ ∀ t, s.table = some t → t.inWindow = true →
      ∀ p, p ∈ s.picker.selectedOption ↔ AskedSelected t asked p := by
  constructor
  · intro h t ht hw p
    rw [← mem_selectedItems_ask]
    exact h _ (by rw [ask, ht]; rfl) ((inWindow_ask asked t).trans hw) p
  · intro h r hr hw p
    obtain ⟨t, ht, rfl⟩ := Option.map_eq_some_iff.mp hr
    rw [mem_selectedItems_ask]
    exact h t ht ((inWindow_ask asked t).symm.trans hw) p

/-- Cells that are asked for in a table that is not updated. -/
def AsksSelected (selectedOption : List Prefecture) (t : Table) (asked : List Nat) : Prop :=
  ∀ j ∈ asked, ∀ row, t.rows[j]? = some row → row.1.isJoin = true → row.1.data ∈ selectedOption

theorem agrees_ask_iff_of_agrees {s : State} (h : Agrees s) (asked : List Nat) :
    Agrees (ask asked s) ↔
      ∀ t, s.table = some t → t.inWindow = true →
        AsksSelected s.picker.selectedOption t asked := by
  rw [agrees_ask_iff]
  refine forall_congr' fun t => forall_congr' fun ht => forall_congr' fun hw => ?_
  constructor
  · intro hall j hj row hrow hjoin
    exact (hall row.1.data).mpr ⟨j, row, hrow, rfl, .inr ⟨hj, hjoin⟩⟩
  · intro hasks p
    constructor
    · intro hp
      obtain ⟨row, hmem, hs, hd⟩ := mem_selectedItems.mp ((h t ht hw p).mp hp)
      obtain ⟨j, hj⟩ := List.mem_iff_getElem?.mp hmem
      exact ⟨j, row, hj, hd, .inl hs⟩
    · rintro ⟨j, row, hj, rfl, hs | ⟨hasked, hjoin⟩⟩
      · exact (h t ht hw _).mpr (mem_selectedItems.mpr ⟨row, List.mem_of_getElem? hj, hs, rfl⟩)
      · exact hasks j hasked row hj hjoin

/-- The rows left selected by the updates of a step are those joined in the event shown last. -/
def ShowsSelected (selectedOption : List Prefecture) (t : Table) (prefectures : List Prefecture)
    (asked : List Nat) : List Event → Prop
  | [] => AsksSelected selectedOption t asked
  | first :: rest => ∀ p, LeftSelected t prefectures first rest asked p ↔
      p ∈ prefectures ∧ joinedIn (rest.getLast?.getD first) p.id = true

theorem agrees_shown_iff {s : State} (h : Agrees s) {events : List Event}
    (hd : ∀ event ∈ events, event.details.isSome) (asked : List Nat) :
    Agrees (ask asked (events.foldl reload s)) ↔ ∀ t, s.table = some t → t.inWindow = true →
      ShowsSelected s.picker.selectedOption t s.prefectures asked events := by
  cases events with
  | nil => exact agrees_ask_iff_of_agrees h asked
  | cons first rest =>
    obtain ⟨htab, hsel⟩ := foldl_reload s hd
    have hwindow : ∀ (lists : List (List OptionSectionModel)) (t : Table),
        (lists.foldl (AnimatedRows.update Table.fresh) t).inWindow = t.inWindow := by
      intro lists
      induction lists with
      | nil => exact fun t => rfl
      | cons items lists ih =>
        exact fun t => (ih _).trans (AnimatedRows.inWindow_update items)
    rw [agrees_ask_iff, htab, hsel]
    constructor
    · intro hall t ht hw p
      rw [← mem_selectedItems_shown, mem_selectedItems_ask,
        ← hall _ (by rw [ht]; rfl) ((hwindow _ t).trans hw) p, List.mem_filter]
    · intro hall r hr hw p
      obtain ⟨t, ht, rfl⟩ := Option.map_eq_some_iff.mp hr
      rw [← mem_selectedItems_ask, mem_selectedItems_shown,
        hall t ht ((hwindow _ t).symm.trans hw) p, List.mem_filter]

theorem accept_eq (s : State) (event : Event) :
    accept s event = (detailed [event]).foldl reload
      { s with picker := { s.picker with
          currenEvent := some event
          subscriptions := s.picker.subscriptions ++ detailed [event] } } := by
  by_cases hd : event.details.isSome
  · simp [accept, detailed, hd]
  · simp [accept, detailed, hd]

/-- In a window, the rows that a step leaves selected and those whose cells are asked for and
joined are the rows of the prefectures that the stream has selected. -/
def KeepsTable (s : State) (i : Input) : Prop :=
  ∀ t, s.table = some t →
    match i with
    | .setWindow true asked => ∀ p, p ∈ s.picker.selectedOption ↔ AskedSelected t asked p
    | .cellForRow index => t.inWindow = true → AsksSelected s.picker.selectedOption t [index]
    | .detailsAnswer index (some event) asked =>
      t.inWindow = true → (s.requests[index]?).isSome →
        ShowsSelected s.picker.selectedOption t s.prefectures asked (detailed [event])
    | .prefecturesAnswer (some prefectures) order asked =>
      t.inWindow = true → prefectures ≠ [] →
        ShowsSelected s.picker.selectedOption t prefectures asked
          (detailed (refreshed s.picker order))
    | _ => True

theorem agrees_setWindow_iff (s : State) (isAttached : Bool) (asked : List Nat) :
    Agrees (machine.next s (.setWindow isAttached asked)) ↔
      KeepsTable s (.setWindow isAttached asked) := by
  simp only [Machine.next, machine, step]
  rw [agrees_ask_iff]
  cases isAttached with
  | false =>
    refine iff_of_true (fun r hr hw => ?_) (fun t _ => trivial)
    obtain ⟨t, -, rfl⟩ := Option.map_eq_some_iff.mp hr
    cases hw
  | true =>
    constructor
    · intro hall t ht p
      exact hall { t with inWindow := true } (by rw [ht]; rfl) rfl p
    · intro hall r hr _ p
      obtain ⟨t, ht, rfl⟩ := Option.map_eq_some_iff.mp hr
      exact hall t ht p

theorem agrees_detailsAnswer_iff {s : State} (h : Agrees s) (index : Nat) (event : Option Event)
    (asked : List Nat) :
    Agrees (machine.next s (.detailsAnswer index event asked)) ↔
      KeepsTable s (.detailsAnswer index event asked) := by
  cases hget : s.requests[index]? with
  | none =>
    refine iff_of_true ?_ fun t _ => ?_
    · simp only [Machine.next, machine, step, hget]
      exact h
    · cases event with
      | none => trivial
      | some event => exact fun _ hs => absurd hs (by rw [hget]; exact Bool.false_ne_true)
  | some request =>
    obtain ⟨origin, eventId⟩ := request
    cases event with
    | none =>
      refine iff_of_true ?_ fun t _ => trivial
      cases origin <;> simp only [Machine.next, machine, step, hget] <;> exact h
    | some event =>
      have ha : Agrees (ask asked (accept { s with requests := s.requests.eraseIdx index } event)) ↔
          KeepsTable s (.detailsAnswer index (some event) asked) := by
        rw [accept_eq]
        refine Iff.trans (agrees_shown_iff ?_ isSome_of_mem_detailed asked) ?_
        · exact h.of_eq rfl rfl
        refine forall_congr' fun t => forall_congr' fun ht => forall_congr' fun hw => ?_
        constructor
        · exact fun hs _ => hs
        · exact fun hs => hs (by rw [hget]; rfl)
      rw [← ha]
      cases origin with
      | reloadView => simp only [Machine.next, machine, step, hget]
      | setEvent =>
        simp only [Machine.next, machine, step, hget]
        exact ⟨fun h => h.of_eq rfl rfl, fun h => h.of_eq rfl rfl⟩

theorem agrees_prefecturesAnswer_iff {s : State} (h : Agrees s)
    (items : Option (List Prefecture)) (order asked : List Nat) :
    Agrees (machine.next s (.prefecturesAnswer items order asked)) ↔
      KeepsTable s (.prefecturesAnswer items order asked) := by
  cases items with
  | none => exact iff_of_true h fun t _ => trivial
  | some prefectures =>
    by_cases hne : prefectures = []
    · refine iff_of_true ?_ fun t _ _ hn => absurd hne hn
      subst hne
      exact h
    · have hn : machine.next s (.prefecturesAnswer (some prefectures) order asked) =
          ask asked ((detailed (refreshed s.picker order)).foldl reload
            { s with prefectures := prefectures }) := by
        rw [← foldl_reload_detailed]
        simp [Machine.next, machine, step, hne, refresh]
      rw [hn]
      refine Iff.trans (agrees_shown_iff ?_ isSome_of_mem_detailed asked) ?_
      · exact h.of_eq rfl rfl
      refine forall_congr' fun t => forall_congr' fun ht => forall_congr' fun hw => ?_
      constructor
      · exact fun hs _ => hs
      · exact fun hs => hs hne

theorem agrees_tapRow {s : State} (h : Agrees s) (index : Nat) :
    Agrees (machine.next s (.tapRow index)) := by
  simp only [Machine.next, machine, step]
  split
  · split
    · rintro t ht - p
      obtain rfl := Option.some.inj ht
      exact Iff.rfl
    · exact h
  · exact h

theorem agrees_viewDidLoad {s : State} (h : Agrees s) :
    Agrees (machine.next s .viewDidLoad) := by
  simp only [Machine.next, machine, step]
  cases ht : s.table with
  | some t => exact h
  | none =>
    intro t ht hw
    obtain rfl := Option.some.inj ht
    cases hw

theorem agrees_step_iff {s : State} (h : Agrees s) (i : Input) :
    Agrees (machine.next s i) ↔ KeepsTable s i := by
  cases i with
  | viewDidLoad => exact iff_of_true (agrees_viewDidLoad h) fun t _ => trivial
  | setWindow isAttached asked => exact agrees_setWindow_iff s isAttached asked
  | cellForRow index => exact agrees_ask_iff_of_agrees h [index]
  | tapRow index => exact iff_of_true (agrees_tapRow h index) fun t _ => trivial
  | tapConfirm => exact iff_of_true (h.of_eq rfl rfl) fun t _ => trivial
  | setEvent event => exact iff_of_true (h.of_eq rfl rfl) fun t _ => trivial
  | reloadView =>
    refine iff_of_true ?_ fun t _ => trivial
    simp only [Machine.next, machine, step]
    split
    · exact h.of_eq rfl rfl
    · exact h
  | detailsAnswer index event asked => exact agrees_detailsAnswer_iff h index event asked
  | prefecturesAnswer items order asked => exact agrees_prefecturesAnswer_iff h items order asked

/-- At every moment of every run a `tapConfirm` submits exactly the selected rows, as long
as and only as long as every step keeps the table in line. -/
theorem submits_selected_iff (prefectures : List Prefecture) (is : List Input) :
    machine.Always SubmitsSelected (start prefectures) is ↔
      machine.Along KeepsTable (start prefectures) is := by
  refine machine.always_iff_along_of_step (fun s i hp => ?_) ?_ is
  · rw [submitsSelected_iff]
    exact agrees_step_iff ((submitsSelected_iff s).mp hp) i
  · rw [submitsSelected_iff]
    exact fun t ht => nomatch ht

/-- The picker is shown for an event the user has joined and then set to another one. -/
def setTwice : List Input :=
  [.viewDidLoad, .setWindow true [], .setEvent (joinedEvent 5 []),
    .detailsAnswer 0 (some (joinedEvent 5 [1])) [0], .setEvent (joinedEvent 6 []),
    .detailsAnswer 0 (some (joinedEvent 6 [])) []]

/-- The row is still selected, and nothing is submitted. -/
theorem selected_row_is_not_submitted :
    let s := machine.run (start [⟨1, "Tokyo"⟩]) setTwice
    s.table = some ⟨true, [(rowFor (joinedEvent 5 [1]) ⟨1, "Tokyo"⟩, true)]⟩ ∧
      machine.emit s .tapConfirm = [.selectOption [], .confirmOption []] ∧
      ¬SubmitsSelected s := by
  intro s
  have ht : s.table = some ⟨true, [(rowFor (joinedEvent 5 [1]) ⟨1, "Tokyo"⟩, true)]⟩ := by decide
  have he : machine.emit s .tapConfirm = [.selectOption [], .confirmOption []] := by decide
  refine ⟨ht, he, fun h => ?_⟩
  have hmem : .confirmOption [] ∈ machine.emit s .tapConfirm := by
    rw [he]
    decide
  have hrow := (h _ ht rfl [] hmem ⟨1, "Tokyo"⟩).mpr ⟨_, List.mem_singleton_self _, rfl, rfl⟩
  exact absurd hrow List.not_mem_nil

end OptionTable
end Karupasu.Event
