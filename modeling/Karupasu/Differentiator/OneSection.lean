import Karupasu.Differentiator.AnimatedDataSource
import Karupasu.Differentiator.AnimatedRows
import Karupasu.Library.Machine

/-!
# A data source with one section

A difference asks for nothing exactly where the new sections look like the old ones. With one
section, and items that are equal where their identities are, the data source with its view does
what `AnimatedRows` says of the rows.
-/
namespace Karupasu.Differentiator

open Karupasu.Library (Machine)
open Karupasu.Library.BatchUpdates
open Diff

/-! ## Sections that look alike have no difference -/

namespace Diff

variable {Model Item SId IId : Type} [IdentifiableType Model SId] [IdentifiableType Item IId]
variable [BEq Item] {g : CommandGenerator Model Item}

namespace Moved

theorem lt_final_of_alike (ha : AlikeSections g.initialSections g.finalSections) {k : Nat} :
    k < g.finalSections.length ↔ k < g.initialSections.length := by
  have hlen := congrArg List.length ha.identities
  rw [List.length_map, List.length_map] at hlen
  rw [hlen]

theorem final_of_alike (h : Moved g) (ha : AlikeSections g.initialSections g.finalSections)
    {k : Nat} (hk : k < g.initialSections.length) :
    (g.sections.final k).moveIndex = some k := by
  have hinitial := List.getElem?_eq_getElem hk
  have hfinal := List.getElem?_eq_getElem ((lt_final_of_alike ha).mpr hk)
  refine (h.sections.final k k).mpr ⟨_, _, hinitial, hfinal, ?_⟩
  have hget := congrArg (·[k]?) ha.identities
  simp only [List.getElem?_map, hinitial, hfinal, Option.map_some] at hget
  exact Option.some.inj hget

/-- All sections move by themselves. -/
theorem section_automatic_of_alike (h : Moved g)
    (ha : AlikeSections g.initialSections g.finalSections) {k : Nat}
    (hk : k < g.initialSections.length) : (g.sections.final k).event = .movedAutomatically :=
  h.sections.settled k k (h.final_of_alike ha hk) fun l hl _ =>
    ⟨l, hl, h.final_of_alike ha (hl.trans hk)⟩

theorem isSome_final_of_alike (ha : AlikeSections g.initialSections g.finalSections)
    (q : ItemPath) : (finalItem? g q).isSome = (initialItem? g q).isSome :=
  (isSome_of_shape ha.shape q.indexPath).symm

theorem staysAt_of_alike (h : Moved g) (ha : AlikeSections g.initialSections g.finalSections)
    {q : ItemPath} (hq : (initialItem? g q).isSome = true) :
    StaysAt g.sections g.items q q := by
  obtain ⟨a, hinitial⟩ := Option.isSome_iff_exists.mp hq
  rw [← isSome_final_of_alike ha] at hq
  obtain ⟨b, hfinal⟩ := Option.isSome_iff_exists.mp hq
  have hlt : q.sectionIndex < g.initialSections.length := by
    have hrow := lt_of_item? (by rw [hinitial]; rfl : (initialItem? g q).isSome = true)
    rwa [List.length_map] at hrow
  have hmove := h.final_of_alike ha hlt
  refine ⟨(h.items.initial q q).mpr ⟨a, b, hinitial, hfinal, ?_⟩, ?_, ?_⟩
  · exact (ha.alike q.indexPath a b hinitial hfinal).identity_eq
  · rw [h.sections.swap.mpr hmove]
    rfl
  · rw [hmove]
    rfl

theorem eq_of_staysAt_of_alike (h : Moved g)
    (ha : AlikeSections g.initialSections g.finalSections) {p q : ItemPath}
    (hp : StaysAt g.sections g.items p q) : p = q :=
  staysAt_inj h hp (h.staysAt_of_alike ha (isSome_final_of_alike ha q ▸ h.isSome_final hp))

/-- All items move by themselves. -/
theorem item_automatic_of_alike (h : Moved g)
    (ha : AlikeSections g.initialSections g.finalSections) {p q : ItemPath}
    (hp : StaysAt g.sections g.items p q) : (g.items.final q).event = .movedAutomatically := by
  obtain rfl := h.eq_of_staysAt_of_alike ha hp
  have hlt := h.keepsSection_lt hp.initial
  refine h.items.settled p p hp (h.final_of_alike ha hlt) fun l hl _ => ⟨l, hl, ?_⟩
  have hrow := List.getElem?_eq_getElem hlt
  have hsome := h.isSome_initial hp
  rw [initialItem?_eq (k := p.sectionIndex) (j := p.itemIndex) hrow, isSome_getElem?] at hsome
  refine h.staysAt_of_alike ha ?_
  rw [initialItem?_eq hrow, isSome_getElem?]
  exact hl.trans hsome

end Moved

variable {s : List Nat × List ItemPath × List ItemPath × List (AnimatableSectionModel Model Item)}
variable {m : List (Nat × Nat)} {t : List ItemPath × List (ItemPath × ItemPath)}

theorem skipsDeletions_of_alike [EquivBEq Item] (h : Staged g s m t)
    (ha : AlikeSections g.initialSections g.finalSections) : skipsDeletions s = true := by
  simp only [skipsDeletions, Bool.and_eq_true, List.isEmpty_iff, List.eq_nil_iff_forall_not_mem]
  refine ⟨⟨fun p hp => ?_, fun k hk => ?_⟩, fun p hp => ?_⟩
  · obtain ⟨-, -, hsome, hno⟩ := (h.deletions.deletedItems p).mp hp
    exact hno (Moved.stays_of_staysAt (h.moved.staysAt_of_alike ha hsome))
  · obtain ⟨hlt, hno⟩ := (h.deletions.deletedSections k).mp hk
    exact hno (h.moved.keepsSection_of_final (h.moved.final_of_alike ha hlt))
  · obtain ⟨-, q, a, b, hq, hinitial, hfinal, hne⟩ := (h.deletions.updatedItems p).mp hp
    obtain rfl := h.moved.eq_of_staysAt_of_alike ha hq
    have hbeq := BEq.symm (ha.alike p.indexPath a b hinitial hfinal).beq
    rw [bne, hbeq] at hne
    exact Bool.false_ne_true hne

theorem skipsSectionMoves_of_alike (h : Staged g s m t)
    (ha : AlikeSections g.initialSections g.finalSections) : skipsSectionMoves g m = true := by
  simp only [skipsSectionMoves, Bool.and_eq_true, List.isEmpty_iff,
    List.eq_nil_iff_forall_not_mem]
  constructor
  · intro i hi
    obtain ⟨hrange, hinserted⟩ := List.mem_filter.mp hi
    have hlt := List.mem_range.mp hrange
    have hnone := (h.moved.sections.inserted_iff hlt).mp (of_decide_eq_true hinserted)
    rw [h.moved.final_of_alike ha ((Moved.lt_final_of_alike ha).mp hlt)] at hnone
    exact absurd hnone (Option.some_ne_none i)
  · intro move hmove
    obtain ⟨k, hlt, hmoved, -⟩ := (h.sectionMoves.moved move).mp hmove
    rw [(h.moved.sections.moved k k (h.moved.final_of_alike ha hlt)).2,
      h.moved.section_automatic_of_alike ha hlt] at hmoved
    exact absurd hmoved (by decide)

theorem skipsItemMoves_of_alike (h : Staged g s m t)
    (ha : AlikeSections g.initialSections g.finalSections) : skipsItemMoves t = true := by
  simp only [skipsItemMoves, Bool.and_eq_true, List.isEmpty_iff, List.eq_nil_iff_forall_not_mem]
  constructor
  · intro q hq
    obtain ⟨⟨-, -, hsome⟩, hno⟩ := (h.itemMoves.inserted q).mp hq
    have hinitial : (initialItem? g q).isSome = true := Moved.isSome_final_of_alike ha q ▸ hsome
    exact hno q (h.moved.staysAt_of_alike ha hinitial)
  · intro move hmove
    obtain ⟨-, p, hp, hmoved, -⟩ := (h.itemMoves.moved move).mp hmove
    rw [h.moved.item_automatic_of_alike ha hp] at hmoved
    exact absurd hmoved (by decide)

variable [DecidableEq SId] [DecidableEq IId]

/-- Nothing is asked for exactly where the new sections look like the old ones. -/
theorem differences_eq_nil_iff [EquivBEq Item]
    (initialSections finalSections : List (AnimatableSectionModel Model Item)) :
    differencesForSectionedView initialSections finalSections = .ok [] ↔
      Distinct initialSections finalSections ∧ AlikeSections initialSections finalSections := by
  obtain ⟨g, s, m, t, h, rfl, rfl, hok, hdistinct⟩ | ⟨e, he, -, hdup⟩ :=
    differences_ends initialSections finalSections
  · have hskips : differencesForSectionedView g.initialSections g.finalSections = .ok [] ↔
        skipsDeletions s = true ∧ skipsSectionMoves g m = true ∧ skipsItemMoves t = true := by
      have hnil : ∀ (skip : Bool) (c : Changeset (AnimatableSectionModel Model Item)),
          skipEmpty skip c = [] ↔ skip = true := by
        rintro (- | -) c
        · exact iff_of_false (List.cons_ne_nil c []) Bool.false_ne_true
        · exact iff_of_true rfl rfl
      rw [hok, Except.ok.injEq, List.append_eq_nil_iff, List.append_eq_nil_iff, hnil, hnil, hnil,
        and_assoc]
    rw [hskips]
    constructor
    · rintro ⟨hs, hm, ht⟩
      have halike := AnimatedDataSource.alike_sectionModelsAfter h
      rw [AnimatedDataSource.sectionModelsAfter, if_pos ht, if_pos hm, if_pos hs] at halike
      exact ⟨hdistinct, halike⟩
    · rintro ⟨-, ha⟩
      exact ⟨skipsDeletions_of_alike h ha, skipsSectionMoves_of_alike h ha,
        skipsItemMoves_of_alike h ha⟩
  · rw [he]
    exact iff_of_false (fun hok => by cases hok) fun hn => hdup hn.1

omit [DecidableEq SId] [DecidableEq IId] in
/-- Otherwise the new sections are there once the update is over. -/
theorem sectionModelsAfter_of_not_alike [EquivBEq Item] (h : Staged g s m t)
    (hn : ¬AlikeSections g.initialSections g.finalSections) :
    (AnimatedDataSource.sectionModelsAfter g s m t).map sectionIdentity =
        g.finalSections.map sectionIdentity ∧
      rows (AnimatedDataSource.sectionModelsAfter g s m t) = rows g.finalSections := by
  unfold AnimatedDataSource.sectionModelsAfter
  by_cases ht : skipsItemMoves t = true
  · rw [if_pos ht]
    have hmove := rows_of_skipsItemMoves h.moved h.itemMoves ht
    by_cases hm : skipsSectionMoves g m = true
    · have hdelete := rows_of_skipsSectionMoves h.moved h.sectionMoves hm
      have hid := identities_of_skipsSectionMoves h.moved h.sectionMoves hm
      by_cases hs : skipsDeletions s = true
      · refine absurd ((alike_of_skipsDeletions h.moved h.deletions hs).trans ?_) hn
        exact .of_rows (hid.trans identities_afterMove) (hdelete.trans hmove)
      · rw [if_pos hm, if_neg hs]
        exact ⟨hid.trans identities_afterMove, hdelete.trans hmove⟩
    · rw [if_neg hm]
      exact ⟨identities_afterMove, hmove⟩
  · rw [if_neg ht]
    exact ⟨rfl, rfl⟩

end Diff

/-! ## One section -/

namespace OneSection

variable {Item Cell IId : Type} [IdentifiableType Item IId] {model : String} {old new : List Item}

theorem sections_ext {a b : List (AnimatableSectionModel String Item)}
    (hid : a.map sectionIdentity = b.map sectionIdentity) (hrows : rows a = rows b) : a = b := by
  refine List.ext_getElem? fun k => ?_
  have hmodel := congrArg (·[k]?) hid
  have hitems := congrArg (·[k]?) hrows
  simp only [rows, List.getElem?_map] at hmodel hitems
  cases ha : a[k]? with
  | none =>
    rw [ha] at hmodel
    exact (Option.map_eq_none_iff.mp hmodel.symm).symm
  | some x =>
    rw [ha] at hmodel hitems
    obtain ⟨y, hy, hxy⟩ := Option.map_eq_some_iff.mp hmodel.symm
    rw [hy] at hitems
    obtain ⟨xmodel, xitems⟩ := x
    obtain ⟨ymodel, yitems⟩ := y
    obtain rfl : ymodel = xmodel := hxy
    obtain rfl : xitems = yitems := Option.some.inj hitems
    exact hy.symm

theorem item?_singleton {α : Type} (row : List α) (j : Nat) : item? [row] (0, j) = row[j]? := rfl

theorem section_eq_zero {α : Type} {row : List α} {i j : Nat} {x : α}
    (h : item? [row] (i, j) = some x) : i = 0 := by
  obtain ⟨_, hi, -⟩ := Option.bind_eq_some_iff.mp h
  exact Nat.lt_one_iff.mp (List.getElem?_eq_some_iff.mp hi).1

theorem distinct_iff [DecidableEq IId] :
    Distinct [(⟨model, old⟩ : AnimatableSectionModel String Item)] [⟨model, new⟩] ↔
      (old.map identity).Nodup ∧
        ((new.map identity).filter fun c => decide (c ∈ old.map identity)).Nodup := by
  have hflat : ∀ items : List Item,
      (rows [(⟨model, items⟩ : AnimatableSectionModel String Item)]).flatten = items :=
    List.append_nil
  constructor
  · rintro ⟨-, hinitial, hfinal⟩
    rw [hflat] at hinitial hfinal
    rw [hflat] at hfinal
    exact ⟨hinitial, hfinal⟩
  · rintro ⟨hinitial, hfinal⟩
    refine ⟨⟨List.nodup_singleton _, (List.nodup_singleton _).filter _⟩, ?_, ?_⟩
    · rw [hflat]
      exact hinitial
    · rw [hflat, hflat]
      exact hfinal

/-- In one section an item is found again by its identity alone. -/
theorem follows_iff {k j : Nat} :
    Follows [⟨model, old⟩] [⟨model, new⟩] ⟨0, k⟩ ⟨0, j⟩ ↔
      ∃ a b, old[k]? = some a ∧ new[j]? = some b ∧ identity a = identity b := by
  constructor
  · rintro ⟨⟨a, b, ha, hb, hid⟩, -, -⟩
    exact ⟨a, b, ha, hb, hid⟩
  · rintro ⟨a, b, ha, hb, hid⟩
    have hsame : SameSection [(⟨model, old⟩ : AnimatableSectionModel String Item)]
        [⟨model, new⟩] 0 0 := ⟨_, _, rfl, rfl, rfl⟩
    exact ⟨⟨a, b, ha, hb, hid⟩, ⟨0, hsame⟩, ⟨0, hsame⟩⟩

section Equality

variable [BEq Item]

theorem alike_iff (hbeq : ∀ a b : Item, (a == b) = true ↔ identity a = identity b) :
    AlikeSections [(⟨model, old⟩ : AnimatableSectionModel String Item)] [⟨model, new⟩] ↔
      old.map identity = new.map identity := by
  constructor
  · rintro ⟨-, hshape, halike⟩
    have hlen : old.length = new.length := (List.cons.inj hshape).1
    refine List.ext_getElem (by rw [List.length_map, List.length_map, hlen]) fun j hold hnew => ?_
    rw [List.length_map] at hold hnew
    rw [List.getElem_map, List.getElem_map]
    exact (halike (0, j) _ _ (List.getElem?_eq_getElem hold)
      (List.getElem?_eq_getElem hnew)).identity_eq
  · intro h
    refine ⟨rfl, congrArg (fun n => [n]) ?_, ?_⟩
    · have hlen := congrArg List.length h
      rwa [List.length_map, List.length_map] at hlen
    · rintro ⟨i, j⟩ x y hx hy
      obtain rfl := section_eq_zero (hx : item? [old] (i, j) = some x)
      have hget := congrArg (·[j]?) h
      have hx' : old[j]? = some x := hx
      have hy' : new[j]? = some y := hy
      simp only [List.getElem?_map, hx', hy', Option.map_some] at hget
      have hid := Option.some.inj hget
      exact ⟨hid, (hbeq x y).mpr hid⟩

/-- What an animated update shows, where the cell of an item found again is left to it. -/
theorem view_of_updates {options : AnimatedDataSource.Options String Item Cell}
    {a b : AnimatedDataSource String Item Cell} {cells : List Cell}
    (hbeq : ∀ x y : Item, (x == y) = true ↔ identity x = identity y)
    (hmodels : a.sectionModels = [⟨model, old⟩]) (hview : a.view = [cells])
    (hupdates : AnimatedDataSource.Updates options a b [⟨model, new⟩]) {kept : Item → Cell}
    (hfound : ∀ (k : Nat) x y, old[k]? = some x → identity x = identity y →
      cells[k]? = some (kept y))
    (hnew : ∀ y, (∀ x ∈ old, identity x ≠ identity y) → kept y = options.configureCell y) :
    b.view = [new.map kept] := by
  refine view_ext (hupdates.shape.trans ?_) ?_
  · rw [rows, List.map_singleton, List.map_singleton, List.map_singleton, List.length_map]
  rintro ⟨i, j⟩ hq
  obtain ⟨c, hc⟩ := Option.isSome_iff_exists.mp hq
  obtain rfl := section_eq_zero hc
  rw [item?_singleton, List.getElem?_map, Option.isSome_map, isSome_getElem?] at hq
  have hy := List.getElem?_eq_getElem hq
  generalize new[j] = y at hy
  have hat : item? (rows [(⟨model, new⟩ : AnimatableSectionModel String Item)])
      (ItemPath.indexPath ⟨0, j⟩) = some y := hy
  rw [item?_singleton, List.getElem?_map, hy, Option.map_some]
  by_cases hf : ∃ (k : Nat) (x : Item), old[k]? = some x ∧ identity x = identity y
  · obtain ⟨k, x, hx, hid⟩ := hf
    have hfollows : Follows a.sectionModels [⟨model, new⟩] ⟨0, k⟩ ⟨0, j⟩ := by
      rw [hmodels]
      exact follows_iff.mpr ⟨x, y, hx, hy, hid⟩
    have hinitial : item? (rows a.sectionModels) (ItemPath.indexPath ⟨0, k⟩) = some x := by
      rw [hmodels]
      exact hx
    have hshown := hupdates.followed _ _ _ _ hfollows hinitial hat
    rw [if_pos ((hbeq y x).mpr hid.symm), hview] at hshown
    exact hshown.trans (hfound k x y hx hid)
  · rw [hnew y fun x hx hid => hf (by
      obtain ⟨k, hk⟩ := List.mem_iff_getElem?.mp hx
      exact ⟨k, x, hk, hid⟩)]
    refine hupdates.inserted _ _ hat ?_
    rintro ⟨i, k⟩ hfollows
    refine hf ?_
    rw [hmodels] at hfollows
    obtain ⟨x, y', hx, hy', hid⟩ := hfollows.same
    obtain rfl := Option.some.inj (hat.symm.trans hy')
    obtain rfl := section_eq_zero (hx : item? [old] (i, k) = some x)
    exact ⟨k, x, hx, hid⟩

end Equality

/-! ## The rows and the data source side by side -/

/-- What happens to the rows of one section. -/
inductive Change (Item Cell : Type) where
  | update (items : List Item)
  /-- The view enters or leaves a window. -/
  | setWindow (inWindow : Bool)
  /-- What the view has for an item changes. -/
  | setCell (index : Nat) (cell : Item → Cell → Cell)

-- what a new cell is
variable (fresh : Item → Cell)

def changeRows [DecidableEq IId] (t : AnimatedRows Item Cell) :
    Change Item Cell → AnimatedRows Item Cell
  | .update items => t.update fresh items
  | .setWindow inWindow => { t with inWindow }
  | .setCell index cell =>
    { t with rows := t.rows.modify index fun row => (row.1, cell row.1 row.2) }

-- the name of the section, and the view that takes the batches
variable (model : String) (sectionedView : SectionedView Cell)

def options : AnimatedDataSource.Options String Item Cell :=
  ⟨fun _ _ => .animated, fresh, sectionedView⟩

/-- The data source with its view, and whether that is in a window. -/
abbrev Source (Item Cell : Type) := AnimatedDataSource String Item Cell × Bool

def changeSource [DecidableEq IId] [BEq Item] (s : Source Item Cell) :
    Change Item Cell → Option (Source Item Cell)
  | .update items =>
    (AnimatedDataSource.observedEvent (options fresh sectionedView) s.1 [⟨model, items⟩] s.2).map
      (·, s.2)
  | .setWindow inWindow => some (s.1, inWindow)
  | .setCell index cell =>
    match item? (rows s.1.sectionModels) (0, index), item? s.1.view (0, index) with
    | some item, some c =>
      some ({ s.1 with view := setCell s.1.view (0, index) (cell item c) }, s.2)
    | _, _ => some s

/-- The data source holds the rows, once it has been handed any items. -/
structure Holds (t : AnimatedRows Item Cell) (s : Source Item Cell) : Prop where
  inWindow : s.2 = t.inWindow
  set : s.1.dataSet = true →
    s.1.sectionModels = [⟨model, t.items⟩] ∧ s.1.view = [t.rows.map Prod.snd]
  unset : s.1.dataSet = false → s.1 = .start ∧ t.rows = []

variable {fresh} {model} {t : AnimatedRows Item Cell}

omit [IdentifiableType Item IId] in
theorem holds_reload (a : AnimatedDataSource String Item Cell) (hset : a.dataSet = true)
    (items : List Item) :
    Holds model (t.reloadData fresh items)
      (AnimatedDataSource.reload (options fresh sectionedView) a [⟨model, items⟩], t.inWindow) := by
  refine ⟨rfl, fun _ => ⟨?_, ?_⟩, fun hunset => absurd (hunset.symm.trans hset) Bool.false_ne_true⟩
  · rw [AnimatedRows.reloadData, AnimatedRows.items_map]
    rfl
  · change [items.map fresh] = [(items.map fun item => (item, fresh item)).map Prod.snd]
    rw [List.map_map]
    rfl

variable [DecidableEq IId]

theorem animates_iff {a : AnimatedDataSource String Item Cell} {items : List Item}
    (hmodels : a.sectionModels = [⟨model, t.items⟩]) :
    t.animates items = true ↔ t.inWindow = true ∧ Distinct a.sectionModels [⟨model, items⟩] := by
  rw [hmodels, distinct_iff, AnimatedRows.animates, AnimatedRows.duplicateItem, Bool.and_eq_true,
    Bool.not_eq_true', Bool.or_eq_false_iff, Bool.not_eq_false', Bool.not_eq_false',
    decide_eq_true_iff, decide_eq_true_iff]
  rfl

variable [BEq Item]

/-- A difference that is not empty leaves the new items and the cells of those found again. -/
theorem holds_changed [EquivBEq Item]
    (hbeq : ∀ x y : Item, (x == y) = true ↔ identity x = identity y)
    {a : AnimatedDataSource String Item Cell} (hset : a.dataSet = true)
    (hmodels : a.sectionModels = [⟨model, t.items⟩]) (hview : a.view = [t.rows.map Prod.snd])
    {items : List Item} (hanimates : t.animates items = true)
    (hids : t.identities ≠ items.map identity) :
    ∃ b, AnimatedDataSource.observedEvent (options fresh sectionedView) a [⟨model, items⟩]
        t.inWindow = some b ∧
      Holds model (t.update fresh items) (b, t.inWindow) := by
  obtain ⟨hw, hdistinct⟩ := (animates_iff hmodels).mp hanimates
  have hnodup := (AnimatedRows.of_animates hanimates).2
  have hshape : a.view.map List.length = (rows a.sectionModels).map List.length := by
    rw [hmodels, hview, rows, List.map_singleton, List.map_singleton, List.map_singleton,
      List.length_map, AnimatedRows.items, List.length_map]
  obtain ⟨g, s, m, u, hstaged, hinitial, hfinal, differences, hok, view, hperform, hupdates⟩ :=
    AnimatedDataSource.updates_of_distinct (options fresh sectionedView) hshape hdistinct
  have hnot : ¬AlikeSections g.initialSections g.finalSections := by
    rw [hinitial, hfinal, hmodels, alike_iff hbeq]
    exact hids
  obtain ⟨hnames, hrows⟩ := sectionModelsAfter_of_not_alike hstaged hnot
  have hview' : view = [items.map (t.kept fresh)] := by
    refine view_of_updates hbeq hmodels hview hupdates (fun k x y hx hid => ?_) fun y hy => ?_
    · rw [AnimatedRows.items, List.getElem?_map] at hx
      obtain ⟨⟨x, c⟩, hrow, rfl⟩ := Option.map_eq_some_iff.mp hx
      rw [List.getElem?_map, hrow,
        AnimatedRows.kept_of_mem hnodup (List.mem_of_getElem? hrow) hid]
      rfl
    · exact AnimatedRows.kept_of_forall_ne fun row hrow => hy row.1 (List.mem_map_of_mem hrow)
  refine ⟨_, hw ▸ (AnimatedDataSource.observedEvent_animated _ hset hok rfl).trans hperform, ?_⟩
  rw [AnimatedRows.update_of_changed hanimates hids]
  refine ⟨rfl, fun _ => ⟨?_, hview'.trans ?_⟩, ?_⟩
  · rw [AnimatedRows.items_map]
    exact (sections_ext hnames hrows).trans hfinal
  · rw [List.map_map]
    rfl
  · exact fun hunset => absurd (hunset.symm.trans hset) Bool.false_ne_true

theorem holds_update (hbeq : ∀ x y : Item, (x == y) = true ↔ identity x = identity y)
    {s : Source Item Cell} (h : Holds model t s) (items : List Item) :
    ∃ b, AnimatedDataSource.observedEvent (options fresh sectionedView) s.1 [⟨model, items⟩] s.2 =
        some b ∧
      Holds model (t.update fresh items) (b, s.2) := by
  have hequiv : EquivBEq Item :=
    { rfl := fun {x} => (hbeq x x).mpr rfl
      symm := fun {x y} h => (hbeq y x).mpr ((hbeq x y).mp h).symm
      trans := fun {x y z} h i => (hbeq x z).mpr (((hbeq x y).mp h).trans ((hbeq y z).mp i)) }
  obtain ⟨a, inWindow⟩ := s
  obtain rfl : inWindow = t.inWindow := h.inWindow
  cases hset : a.dataSet with
  | false =>
    rw [AnimatedRows.update_of_rows_eq_nil (h.unset hset).2]
    refine ⟨_, ?_, holds_reload sectionedView { a with dataSet := true } rfl items⟩
    rw [AnimatedDataSource.observedEvent, hset]
    rfl
  | true =>
    obtain ⟨hmodels, hview⟩ := h.set hset
    by_cases hanimates : t.animates items = true
    · by_cases hids : t.identities = items.map identity
      · -- the difference is empty, and the data source keeps the items it has
        obtain ⟨hw, hdistinct⟩ := (animates_iff hmodels).mp hanimates
        have halike : AlikeSections a.sectionModels [⟨model, items⟩] := by
          rw [hmodels]
          exact (alike_iff hbeq).mpr hids
        have hok := (differences_eq_nil_iff _ _).mpr ⟨hdistinct, halike⟩
        refine ⟨a, hw ▸ AnimatedDataSource.observedEvent_animated _ hset hok rfl, ?_⟩
        rw [AnimatedRows.update_of_unchanged hw (AnimatedRows.of_animates hanimates).2 hids]
        exact h
      · exact holds_changed sectionedView hbeq hset hmodels hview hanimates hids
    · rw [AnimatedRows.update_of_not_animates hanimates]
      refine ⟨_, ?_, holds_reload sectionedView a hset items⟩
      cases hw : t.inWindow with
      | false => exact AnimatedDataSource.observedEvent_hidden _ hset _
      | true =>
        refine AnimatedDataSource.observedEvent_repeated _ hset fun hdistinct => hanimates ?_
        exact (animates_iff hmodels).mpr ⟨hw, hdistinct⟩

theorem holds_setCell {s : Source Item Cell} (h : Holds model t s) (index : Nat)
    (cell : Item → Cell → Cell) :
    ∃ s', changeSource fresh model sectionedView s (.setCell index cell) = some s' ∧
      Holds model (changeRows fresh t (.setCell index cell)) s' := by
  obtain ⟨a, inWindow⟩ := s
  cases hset : a.dataSet with
  | false =>
    obtain ⟨rfl, hrows⟩ := h.unset hset
    refine ⟨_, rfl, h.inWindow, fun hset' => absurd hset' Bool.false_ne_true, fun _ => ⟨rfl, ?_⟩⟩
    rw [changeRows, hrows, List.modify_nil]
  | true =>
    obtain ⟨hmodels, hview⟩ := h.set hset
    have hitem : item? (rows a.sectionModels) (0, index) = t.rows[index]?.map Prod.fst := by
      rw [hmodels, ← List.getElem?_map]
      rfl
    have hcell : item? a.view (0, index) = t.rows[index]?.map Prod.snd := by
      rw [hview, item?_singleton, List.getElem?_map]
    cases hrow : t.rows[index]? with
    | none =>
      have hsame : changeRows fresh t (.setCell index cell) = t := by
        rw [changeRows, List.modify_eq_self (List.getElem?_eq_none_iff.mp hrow)]
      rw [hsame]
      refine ⟨_, ?_, h⟩
      rw [changeSource, hitem, hcell, hrow]
      rfl
    | some row =>
      refine ⟨({ a with view := setCell a.view (0, index) (cell row.1 row.2) }, inWindow), ?_,
        h.inWindow, fun _ => ⟨?_, ?_⟩, ?_⟩
      · rw [changeSource, hitem, hcell, hrow]
        rfl
      · exact hmodels.trans (by rw [changeRows, AnimatedRows.items_modify])
      · change (setCell a.view (0, index) _) = _
        rw [hview, changeRows, List.modify_eq_set_getElem?, hrow]
        change [(t.rows.map Prod.snd).set index _] = [(t.rows.set index (row.1, _)).map Prod.snd]
        rw [List.map_set]
      · exact fun hunset => absurd (hunset.symm.trans hset) Bool.false_ne_true

/-- The rows are what the vendored data source holds, whatever happens to both of them. -/
theorem holds_change (hbeq : ∀ x y : Item, (x == y) = true ↔ identity x = identity y)
    {s : Source Item Cell} (h : Holds model t s) (change : Change Item Cell) :
    ∃ s', changeSource fresh model sectionedView s change = some s' ∧
      Holds model (changeRows fresh t change) s' := by
  cases change with
  | update items =>
    obtain ⟨b, hb, hholds⟩ := holds_update sectionedView hbeq h items
    exact ⟨(b, s.2), by rw [changeSource, hb]; rfl, hholds⟩
  | setWindow inWindow =>
    exact ⟨_, rfl, rfl, h.set, h.unset⟩
  | setCell index cell => exact holds_setCell sectionedView h index cell

theorem run_holds (hbeq : ∀ x y : Item, (x == y) = true ↔ identity x = identity y)
    (changes : List (Change Item Cell)) :
    ∃ s, changes.foldlM (changeSource fresh model sectionedView) (.start, false) = some s ∧
      Holds model (changes.foldl (changeRows fresh) ⟨false, []⟩) s := by
  induction changes using List.reverseRecOn with
  | nil => exact ⟨_, rfl, rfl, fun hset => absurd hset Bool.false_ne_true, fun _ => ⟨rfl, rfl⟩⟩
  | append_singleton changes change ih =>
    obtain ⟨s, hs, hholds⟩ := ih
    obtain ⟨s', hs', hholds'⟩ := holds_change sectionedView hbeq hholds change
    refine ⟨s', ?_, ?_⟩
    · rw [List.foldlM_append, hs]
      change (changeSource fresh model sectionedView s change).bind some = _
      rw [hs']
      rfl
    · rw [List.foldl_append]
      exact hholds'

/-! ## The rows of a screen -/

variable {σ ι ο : Type} (m : Machine σ ι ο) (changes : σ → ι → List (Change Item Cell))

/-- What a screen does to its rows along a run. -/
def changesAlong : σ → List ι → List (Change Item Cell)
  | _, [] => []
  | s, i :: is => changes s i ++ changesAlong (m.next s i) is

variable {m} {changes}

omit [BEq Item] in
theorem rows_run {rowsOf : σ → AnimatedRows Item Cell}
    (hstep : ∀ s i, rowsOf (m.next s i) = (changes s i).foldl (changeRows fresh) (rowsOf s))
    (s : σ) (is : List ι) :
    rowsOf (m.run s is) =
      (changesAlong m changes s is).foldl (changeRows fresh) (rowsOf s) := by
  induction is generalizing s with
  | nil => rfl
  | cons i is ih => rw [Machine.run_cons, ih, hstep, changesAlong, List.foldl_append]

/-- A screen that begins without rows shows what the vendored data source holds. -/
theorem run_source (hbeq : ∀ x y : Item, (x == y) = true ↔ identity x = identity y)
    {rowsOf : σ → AnimatedRows Item Cell}
    (hstep : ∀ s i, rowsOf (m.next s i) = (changes s i).foldl (changeRows fresh) (rowsOf s))
    {s : σ} (hstart : rowsOf s = ⟨false, []⟩) (is : List ι) :
    ∃ source, (changesAlong m changes s is).foldlM (changeSource fresh model sectionedView)
        (.start, false) = some source ∧
      Holds model (rowsOf (m.run s is)) source := by
  obtain ⟨source, hsource, hholds⟩ :=
    run_holds sectionedView hbeq (changesAlong m changes s is)
  refine ⟨source, hsource, ?_⟩
  rw [rows_run hstep, hstart]
  exact hholds

end OneSection
end Karupasu.Differentiator
