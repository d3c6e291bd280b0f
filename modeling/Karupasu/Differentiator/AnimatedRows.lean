import Karupasu.Differentiator.Diff
import Mathlib.Data.List.Nodup

/-!
# The rows of one animated section

Where equality of items is equality of identities, all a difference can do to the view of one
section is to leave the cell of each item that it finds again. Without any difference the data
source even keeps its old items.
-/
namespace Karupasu.Differentiator

/-- The view of one section with its data source: each item and what the view has for it. -/
structure AnimatedRows (Item Cell : Type) where
  /-- `window` is not nil. -/
  inWindow : Bool
  rows : List (Item × Cell)
  deriving DecidableEq

namespace AnimatedRows

variable {Item Cell IId : Type} [IdentifiableType Item IId] [DecidableEq IId]

def items (t : AnimatedRows Item Cell) : List Item := t.rows.map Prod.fst

def identities (t : AnimatedRows Item Cell) : List IId := t.items.map identity

/-- `Diff` throws `duplicateItem`: an old identity occurs twice, among the old items or among the
new ones. -/
def duplicateItem (old new : List IId) : Bool :=
  !decide old.Nodup || !decide (new.filter fun i => i ∈ old).Nodup

/-- The update runs as an animation, not as `reloadData`. -/
def animates (t : AnimatedRows Item Cell) (items : List Item) : Bool :=
  t.inWindow && !duplicateItem t.identities (items.map identity)

-- what a new cell is
variable (fresh : Item → Cell)

/-- The cell that an animated update leaves to an item. -/
def kept (t : AnimatedRows Item Cell) (item : Item) : Cell :=
  ((t.rows.find? fun row => identity row.1 = identity item).map Prod.snd).getD (fresh item)

def reloadData (t : AnimatedRows Item Cell) (items : List Item) : AnimatedRows Item Cell :=
  { t with rows := items.map fun item => (item, fresh item) }

/-- `rx.items(dataSource:)` on new items. -/
def update (t : AnimatedRows Item Cell) (items : List Item) : AnimatedRows Item Cell :=
  if t.animates items then
    if t.identities = items.map identity then t
    else { t with rows := items.map fun item => (item, t.kept fresh item) }
  else t.reloadData fresh items

variable {fresh} {t : AnimatedRows Item Cell}

omit [DecidableEq IId] in
theorem identities_eq (t : AnimatedRows Item Cell) :
    t.identities = t.rows.map fun row => identity row.1 := by
  rw [identities, items, List.map_map]
  rfl

omit [IdentifiableType Item IId] in
theorem items_map {items : List Item} {cell : Item → Cell} {inWindow : Bool} :
    (⟨inWindow, items.map fun item => (item, cell item)⟩ : AnimatedRows Item Cell).items = items := by
  rw [AnimatedRows.items, List.map_map]
  exact List.map_id _

omit [IdentifiableType Item IId] in
theorem items_modify (t : AnimatedRows Item Cell) (index : Nat) (cell : Item → Cell → Cell) :
    AnimatedRows.items { t with
      rows := t.rows.modify index fun row => (row.1, cell row.1 row.2) } = t.items := by
  refine List.ext_getElem? fun j => ?_
  simp only [items, List.getElem?_map, List.getElem?_modify]
  cases t.rows[j]? with
  | none => rfl
  | some row => split <;> rfl

theorem identities_update (items : List Item) :
    (t.update fresh items).identities = items.map identity := by
  unfold update
  split
  · split
    · next h => exact h
    · rw [identities, items_map]
  · rw [identities, reloadData, items_map]

@[simp] theorem inWindow_update (items : List Item) :
    (t.update fresh items).inWindow = t.inWindow := by
  unfold update
  split
  · split <;> rfl
  · rfl

theorem duplicateItem_self (ids : List IId) : duplicateItem ids ids = !decide ids.Nodup := by
  have hall : ids.filter (fun i => i ∈ ids) = ids :=
    List.filter_eq_self.mpr fun i hi => decide_eq_true hi
  rw [duplicateItem, hall, Bool.or_self]

theorem update_of_unchanged {items : List Item} (hw : t.inWindow = true)
    (hn : t.identities.Nodup) (h : t.identities = items.map identity) :
    t.update fresh items = t := by
  have ha : t.animates items = true := by
    rw [animates, ← h, duplicateItem_self, hw, decide_eq_true hn]
    rfl
  rw [update, if_pos ha, if_pos h]

theorem update_of_not_animates {items : List Item} (h : ¬t.animates items = true) :
    t.update fresh items = t.reloadData fresh items := by
  rw [update, if_neg h]

theorem update_of_changed {items : List Item} (h : t.animates items = true)
    (hids : t.identities ≠ items.map identity) :
    t.update fresh items = { t with rows := items.map fun item => (item, t.kept fresh item) } := by
  rw [update, if_pos h, if_neg hids]

theorem update_of_repeated {items : List Item} (h : t.identities = items.map identity)
    (hd : ¬(t.inWindow = true ∧ t.identities.Nodup)) :
    t.update fresh items = t.reloadData fresh items := by
  refine update_of_not_animates ?_
  rw [animates, ← h, duplicateItem_self, Bool.and_eq_true, Bool.not_not, decide_eq_true_iff]
  exact hd

/-- Several lists with the same identities, one after the other: where the first is animated the
others change nothing, and otherwise the last is what is shown. -/
theorem foldl_update {first : List Item} {rest : List (List Item)} {ids : List IId}
    (hids : ∀ items ∈ first :: rest, items.map identity = ids) {last : List Item}
    (hl : (first :: rest).getLast? = some last) :
    (first :: rest).foldl (update fresh) t =
      if rest = [] ∨ t.inWindow = true ∧ ids.Nodup then t.update fresh first
      else t.reloadData fresh last := by
  induction rest generalizing first t with
  | nil =>
    rw [if_pos (.inl rfl)]
    rfl
  | cons second rest ih =>
    have hfirst := hids first List.mem_cons_self
    have hsecond := hids second (List.mem_cons_of_mem first List.mem_cons_self)
    have hsame : (t.update fresh first).identities = second.map identity := by
      rw [identities_update, hfirst, hsecond]
    rw [List.getLast?_cons_cons] at hl
    have hstep := ih (t := t.update fresh first)
      (fun items hi => hids items (List.mem_cons_of_mem first hi)) hl
    rw [List.foldl_cons, hstep, inWindow_update]
    by_cases hd : t.inWindow = true ∧ ids.Nodup
    · have hkeep : (t.update fresh first).update fresh second = t.update fresh first :=
        update_of_unchanged ((inWindow_update first).trans hd.1)
          (by rw [hsame, hsecond]; exact hd.2) hsame
      rw [if_pos (.inr hd), if_pos (.inr hd), hkeep]
    · have hreload : (t.update fresh first).update fresh second =
          (t.update fresh first).reloadData fresh second :=
        update_of_repeated hsame (by rwa [inWindow_update, hsame, hsecond])
      have hinside : ∀ items, (t.update fresh first).reloadData fresh items =
          t.reloadData fresh items := by
        intro items
        rw [reloadData, inWindow_update]
        rfl
      rw [if_neg (not_or.mpr ⟨List.cons_ne_nil second rest, hd⟩), hreload, hinside, hinside]
      split
      · next h =>
        obtain rfl := h.resolve_right hd
        obtain rfl := Option.some.inj hl
        rfl
      · rfl

theorem of_animates {items : List Item} (h : t.animates items = true) :
    t.inWindow = true ∧ t.identities.Nodup := by
  simp only [animates, duplicateItem, Bool.and_eq_true, Bool.not_eq_true', Bool.or_eq_false_iff,
    Bool.not_eq_false', decide_eq_true_eq] at h
  exact ⟨h.1, h.2.1⟩

/-- The cell left to an item that the update finds again. -/
theorem kept_of_mem {item old : Item} {c : Cell} (hn : t.identities.Nodup)
    (hmem : (old, c) ∈ t.rows) (hid : identity old = identity item) : t.kept fresh item = c := by
  rw [identities_eq] at hn
  cases hf : t.rows.find? fun row => identity row.1 = identity item with
  | none =>
    have hne := List.find?_eq_none.mp hf (old, c) hmem
    exact absurd (decide_eq_true hid) hne
  | some row =>
    have hrow : identity row.1 = identity item := by simpa using List.find?_some hf
    have hsame := List.inj_on_of_nodup_map hn (List.mem_of_find?_eq_some hf) hmem
      (hrow.trans hid.symm)
    rw [kept, hf, hsame]
    rfl

theorem kept_of_forall_ne {item : Item} (h : ∀ row ∈ t.rows, identity row.1 ≠ identity item) :
    t.kept fresh item = fresh item := by
  have hf : t.rows.find? (fun row => identity row.1 = identity item) = none :=
    List.find?_eq_none.mpr fun row hrow => by simpa using h row hrow
  rw [kept, hf]
  rfl

/-- The first update makes all cells. -/
theorem update_of_rows_eq_nil (h : t.rows = []) (items : List Item) :
    t.update fresh items = t.reloadData fresh items := by
  have hkept : t.kept fresh = fresh := by
    funext item
    refine kept_of_forall_ne fun row hrow => ?_
    rw [h] at hrow
    exact absurd hrow List.not_mem_nil
  unfold update
  split
  · split
    · next hids =>
      rw [identities_eq, h] at hids
      obtain rfl := List.map_eq_nil_iff.mp hids.symm
      rw [reloadData, List.map_nil, ← h]
    · rw [hkept, reloadData]
  · rfl

end AnimatedRows
end Karupasu.Differentiator
