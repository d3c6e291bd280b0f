import Karupasu.Event.CellContents
import Karupasu.Extention.ClassEx

/-!
# The rows of the detail screen

The table of members identifies a row with its detail and does not allow two rows of one
identity; `reloadTable` drops the repeated details first. The capacity that a cell shows is no
part of the identity, so an animated update leaves it as it was.
-/
namespace Karupasu.MemberSectionModel

open Karupasu.Differentiator
open Karupasu.EventModel (Event EventDetail)
open Karupasu.PrefectureModel (Prefecture)

deriving instance Hashable for EventDetail

instance : IdentifiableType MemberSectionModel EventDetail := ⟨MemberSectionModel.identity⟩

/-- The section that `output.reloadTable` hands to the data source. -/
def reloadTable (event : Event) : List MemberSectionModel :=
  match event.details with
  | none => []
  | some detail => (ClassEx.unique detail).map fun data => ⟨data, event.maxParticipantsCount⟩

theorem map_identity_reloadTable (event : Event) :
    (reloadTable event).map identity = ClassEx.unique (event.details.getD []) := by
  unfold reloadTable
  cases event.details with
  | none => rfl
  | some detail =>
    rw [Option.getD_some]
    dsimp only
    rw [List.map_map]
    exact List.map_id _

theorem identities_nodup (event : Event) : ((reloadTable event).map identity).Nodup := by
  rw [map_identity_reloadTable]
  refine (ClassEx.keepsFirst_unique _).distinct.imp fun hne => ?_
  exact ne_of_beq_false hne

/-- Every detail of the event has its row. -/
theorem mem_identities_iff (event : Event) (data : EventDetail) :
    data ∈ (reloadTable event).map identity ↔ data ∈ event.details.getD [] := by
  rw [map_identity_reloadTable, ← List.contains_iff_mem, ← List.contains_iff_mem,
    (ClassEx.keepsFirst_unique _).contains_eq]

/-- In one table a row that equals another is that row. -/
theorem eq_of_beq_of_mem {event : Event} {a b : MemberSectionModel} (ha : a ∈ reloadTable event)
    (hb : b ∈ reloadTable event) (h : a == b) : a = b :=
  List.inj_on_of_nodup_map (identities_nodup event) ha hb (beq_iff.mp h)

/-- Rows with the identities of an event's rows are those rows exactly when they have its
capacity. -/
theorem eq_reloadTable_iff {items : List MemberSectionModel} {event : Event}
    (h : items.map identity = (reloadTable event).map identity) :
    items = reloadTable event ↔ ∀ item ∈ items, item.maxMember = event.maxParticipantsCount := by
  have hmax : ∀ item ∈ reloadTable event, item.maxMember = event.maxParticipantsCount := by
    unfold reloadTable
    cases event.details with
    | none => exact fun _ hitem => absurd hitem List.not_mem_nil
    | some detail =>
      intro item hitem
      obtain ⟨data, -, rfl⟩ := List.mem_map.mp hitem
      rfl
  constructor
  · rintro rfl
    exact hmax
  · intro hitems
    have hback : ∀ l : List MemberSectionModel,
        (∀ item ∈ l, item.maxMember = event.maxParticipantsCount) →
          (l.map identity).map (⟨·, event.maxParticipantsCount⟩) = l := by
      intro l hl
      rw [List.map_map]
      refine (List.map_congr_left fun item hitem => ?_).trans (List.map_id l)
      change MemberSectionModel.mk item.data event.maxParticipantsCount = item
      rw [← hl item hitem]
    rw [← hback items hitems, h, hback _ hmax]

/-! ## The table -/

/-- The table and its data source; of a row it is told what its cell shows, if it is in sight. -/
abbrev Table := AnimatedRows MemberSectionModel (Option Content)

/-- A row that is new to the table is not in sight before its cell is asked for. -/
def fresh (_item : MemberSectionModel) : Option Content := none

/-- The cell of a row; what the cell showed before is replaced. -/
def cellOf (prefectures : List Prefecture) (item : MemberSectionModel) : Content :=
  configureCell prefectures ⟨"", "", "", "", false⟩ item

inductive TableInput where
  /-- The table enters or leaves a window. -/
  | setWindow (isAttached : Bool)
  /-- The table asks for the cell of a row, which comes into sight. -/
  | cellForRow (index : Nat)
  /-- A row goes out of sight. -/
  | didEndDisplaying (index : Nat)

namespace Table

def setCell (t : Table) (index : Nat) (cell : MemberSectionModel → Option Content) : Table :=
  { t with rows := t.rows.modify index fun row => (row.1, cell row.1) }

def step (prefectures : List Prefecture) (t : Table) : TableInput → Table
  | .setWindow isAttached => { t with inWindow := isAttached }
  | .cellForRow index => t.setCell index fun item => some (cellOf prefectures item)
  | .didEndDisplaying index => t.setCell index fun _ => none

/-- `rx.items(dataSource:)` on the rows of an event. -/
def draw (t : Table) (event : Event) : Table := t.update fresh (reloadTable event)

end Table

/-- The cells in sight show the items that the data source has for them. -/
def CellsShow (prefectures : List Prefecture) (t : Table) : Prop :=
  ∀ row ∈ t.rows, ∀ content, row.2 = some content → content = cellOf prefectures row.1

/-- The rows are those of the event, and each cell in sight shows its row. -/
structure RowsShow (prefectures : List Prefecture) (t : Table) (event : Event) : Prop where
  items : t.items = reloadTable event
  cells : CellsShow prefectures t

/-- An update in a window changes the capacity of no row that it finds again in sight, nor of any
row if it finds just the rows that are there. -/
def KeepsCapacity (t : Table) (event : Event) : Prop :=
  t.inWindow = true → ∀ row ∈ t.rows, identity row.1 ∈ (reloadTable event).map identity →
    (row.2.isSome = true ∨ t.identities = (reloadTable event).map identity) →
      row.1.maxMember = event.maxParticipantsCount

section Rows

variable {prefectures : List Prefecture} {t : Table} {event : Event}

theorem cellOf_eq_iff {a b : MemberSectionModel} (h : identity a = identity b) :
    cellOf prefectures a = cellOf prefectures b ↔ a.maxMember = b.maxMember := by
  rw [← looksSame_iff prefectures h]
  exact ⟨fun hc _ => hc, fun hl => hl _⟩

theorem items_setCell (index : Nat) (cell : MemberSectionModel → Option Content) :
    (t.setCell index cell).items = t.items :=
  AnimatedRows.items_modify t index fun item _ => cell item

theorem mem_setCell {index : Nat} {cell : MemberSectionModel → Option Content}
    {row : MemberSectionModel × Option Content} (h : row ∈ (t.setCell index cell).rows) :
    row ∈ t.rows ∨ row.2 = cell row.1 := by
  obtain ⟨j, hj⟩ := List.mem_iff_getElem?.mp h
  rw [Table.setCell, List.getElem?_modify] at hj
  obtain ⟨old, hold, he⟩ := Option.map_eq_some_iff.mp hj
  have hmem := List.mem_of_getElem? hold
  split at he
  · subst he
    exact .inr rfl
  · exact .inl (he ▸ hmem)

/-- A cell comes into sight with the item that the data source has for it. -/
theorem RowsShow.step (h : RowsShow prefectures t event) (input : TableInput) :
    RowsShow prefectures (t.step prefectures input) event := by
  cases input with
  | setWindow isAttached => exact ⟨h.items, h.cells⟩
  | cellForRow index =>
    refine ⟨(items_setCell index _).trans h.items, fun row hrow content hc => ?_⟩
    obtain hrow | hcell := mem_setCell hrow
    · exact h.cells row hrow content hc
    · exact (Option.some.inj (hcell.symm.trans hc)).symm
  | didEndDisplaying index =>
    refine ⟨(items_setCell index _).trans h.items, fun row hrow content hc => ?_⟩
    obtain hrow | hcell := mem_setCell hrow
    · exact h.cells row hrow content hc
    · exact nomatch hcell.symm.trans hc

theorem rows_step_of_nil (h : t.rows = []) (input : TableInput) :
    (t.step prefectures input).rows = [] := by
  cases input with
  | setWindow isAttached => exact h
  | cellForRow index | didEndDisplaying index =>
    rw [Table.step, Table.setCell, h, List.modify_nil]

theorem RowsShow.identities_nodup (h : RowsShow prefectures t event) : t.identities.Nodup := by
  rw [AnimatedRows.identities, h.items]
  exact MemberSectionModel.identities_nodup event

/-- No identity occurs twice, so only a missing window makes the table reload. -/
theorem animates_reloadTable (hn : t.identities.Nodup) :
    t.animates (reloadTable event) = t.inWindow := by
  have hnew : ((reloadTable event).map identity).Nodup := MemberSectionModel.identities_nodup event
  have hdup : AnimatedRows.duplicateItem t.identities ((reloadTable event).map identity) =
      false := by
    rw [AnimatedRows.duplicateItem, decide_eq_true hn, decide_eq_true (hnew.filter _)]
    rfl
  rw [AnimatedRows.animates]
  exact (congrArg (t.inWindow && !·) hdup).trans (Bool.and_true _)

/-- A new row shows what the row found again has shown. -/
theorem cell_kept {item : MemberSectionModel} (hn : t.identities.Nodup)
    (hc : CellsShow prefectures t) :
    (∀ content, t.kept fresh item = some content → content = cellOf prefectures item) ↔
      ∀ row ∈ t.rows, identity row.1 = identity item → row.2.isSome = true →
        row.1.maxMember = item.maxMember := by
  constructor
  · intro h row hrow hid hsome
    obtain ⟨content, hcontent⟩ := Option.isSome_iff_exists.mp hsome
    have hkept : t.kept fresh item = some content :=
      (AnimatedRows.kept_of_mem hn hrow hid).trans hcontent
    exact (cellOf_eq_iff hid).mp ((hc row hrow content hcontent).symm.trans (h content hkept))
  · intro h content hcontent
    by_cases hold : ∃ row ∈ t.rows, identity row.1 = identity item
    · obtain ⟨row, hrow, hid⟩ := hold
      have hkept : t.kept fresh item = row.2 := AnimatedRows.kept_of_mem hn hrow hid
      have hrow' := hkept.symm.trans hcontent
      have hmax := h row hrow hid (by rw [hrow']; rfl)
      exact (hc row hrow content hrow').trans ((cellOf_eq_iff hid).mpr hmax)
    · have hkept : t.kept fresh item = none :=
        AnimatedRows.kept_of_forall_ne fun row hrow hid => hold ⟨row, hrow, hid⟩
      exact nomatch hkept.symm.trans hcontent

theorem maxMember_reloadTable {item : MemberSectionModel} (h : item ∈ reloadTable event) :
    item.maxMember = event.maxParticipantsCount :=
  (eq_reloadTable_iff rfl).mp rfl item h

/-- The table after an update, when its cells have shown their rows before. -/
theorem rowsShow_draw_iff (hn : t.identities.Nodup) (hc : CellsShow prefectures t) :
    RowsShow prefectures (t.draw event) event ↔ KeepsCapacity t event := by
  rw [Table.draw, AnimatedRows.update, animates_reloadTable hn]
  cases hw : t.inWindow with
  | false =>
    refine iff_of_true ⟨AnimatedRows.items_map, fun row hrow content hcell => ?_⟩ fun h => ?_
    · obtain ⟨item, -, rfl⟩ := List.mem_map.mp hrow
      exact absurd hcell (Option.some_ne_none content).symm
    · exact absurd (hw.symm.trans h) Bool.false_ne_true
  | true =>
    rw [if_pos rfl]
    by_cases hids : t.identities = (reloadTable event).map identity
    · -- nothing changes: the data source keeps the items it has
      refine (iff_of_eq (congrArg (RowsShow prefectures · event) (if_pos hids))).trans ?_
      constructor
      · intro h _ row hrow _ _
        exact (eq_reloadTable_iff hids).mp h.items row.1 (List.mem_map_of_mem hrow)
      · intro h
        refine ⟨(eq_reloadTable_iff hids).mpr fun item hitem => ?_, hc⟩
        obtain ⟨row, hrow, rfl⟩ := List.mem_map.mp hitem
        have hid : identity row.1 ∈ (reloadTable event).map identity :=
          hids ▸ List.mem_map_of_mem hitem
        exact h hw row hrow hid (.inr hids)
    · refine (iff_of_eq (congrArg (RowsShow prefectures · event) (if_neg hids))).trans ?_
      constructor
      · intro h _ row hrow hid hsome
        obtain ⟨item, hitem, he⟩ := List.mem_map.mp hid
        rw [← maxMember_reloadTable hitem]
        have hcell := h.cells _ (List.mem_map_of_mem hitem)
        exact (cell_kept hn hc).mp hcell row hrow he.symm (hsome.resolve_right hids)
      · intro h
        refine ⟨AnimatedRows.items_map, fun row hrow => ?_⟩
        obtain ⟨item, hitem, rfl⟩ := List.mem_map.mp hrow
        refine (cell_kept hn hc).mpr fun old hold hid hsome => ?_
        have hmem : identity old.1 ∈ (reloadTable event).map identity :=
          hid ▸ List.mem_map_of_mem hitem
        rw [maxMember_reloadTable hitem]
        exact h hw old hold hmem (.inl hsome)

theorem RowsShow.keepsCapacity (h : RowsShow prefectures t event) : KeepsCapacity t event := by
  intro _ row hrow _ _
  refine maxMember_reloadTable ?_
  rw [← h.items]
  exact List.mem_map_of_mem hrow

/-- The answer to `setEvent` draws the rows of an event twice. -/
theorem draw_draw : (t.draw event).draw event = t.draw event := by
  have hids : (t.draw event).identities = (reloadTable event).map identity :=
    AnimatedRows.identities_update _
  have hn := MemberSectionModel.identities_nodup event
  have hwindow : (t.draw event).inWindow = t.inWindow := AnimatedRows.inWindow_update _
  cases hw : t.inWindow with
  | false =>
    have hreload : ∀ t : Table, t.inWindow = false →
        t.draw event = t.reloadData fresh (reloadTable event) := by
      intro t ht
      rw [Table.draw, AnimatedRows.update, AnimatedRows.animates, ht]
      rfl
    rw [hreload _ (hwindow.trans hw), hreload t hw]
    rfl
  | true =>
    exact AnimatedRows.update_of_unchanged (hwindow.trans hw) (by rw [hids]; exact hn) hids

/-- New prefectures rename no row in sight exactly when its title is the same in both lists. -/
theorem cellsShow_prefectures_iff (hc : CellsShow prefectures t) (new : List Prefecture) :
    CellsShow new t ↔ ∀ row ∈ t.rows, row.2.isSome = true →
      getSafePrefectureTitle new row.1.data.prefecture =
        getSafePrefectureTitle prefectures row.1.data.prefecture := by
  refine forall₂_congr fun row hrow => ?_
  constructor
  · intro h hsome
    obtain ⟨content, hcontent⟩ := Option.isSome_iff_exists.mp hsome
    have he := (h content hcontent).symm.trans (hc row hrow content hcontent)
    exact congrArg Content.prefectureLbl he
  · intro h content hcontent
    have htitle := h (by rw [hcontent]; rfl)
    rw [hc row hrow content hcontent, cellOf, cellOf, configureCell, configureCell, htitle]

end Rows

end Karupasu.MemberSectionModel
