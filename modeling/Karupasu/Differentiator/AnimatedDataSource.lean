import Karupasu.Differentiator.Stages

/-!
# The animated data sources

`RxTableViewSectionedAnimatedDataSource` and `RxCollectionViewSectionedAnimatedDataSource` hand
each difference to the view as a batch of its own. The view refuses a batch that it does not take
by an exception, which ends the process; so does a subscript out of range.
-/
namespace Karupasu.Differentiator

open Karupasu.Library.Loops
open Karupasu.Library.BatchUpdates
open Diff

/-- `String+IdentifiableType` -/
instance : IdentifiableType String String := ⟨id⟩

inductive ViewTransition where
  | animated | reload
  deriving DecidableEq

/-- The data source with its view. `reloadData` takes effect at once. -/
structure AnimatedDataSource (Model Item Cell : Type) where
  sectionModels : List (AnimatableSectionModel Model Item)
  dataSet : Bool
  view : List (List Cell)

namespace AnimatedDataSource

variable {Model Item SId IId Cell : Type}

/-- `decideViewTransition` of the initializer, what `configureCell` makes of an item, and the view
that takes the batches. -/
structure Options (Model Item Cell : Type) where
  decideViewTransition : AnimatedDataSource Model Item Cell →
    List (Changeset (AnimatableSectionModel Model Item)) → ViewTransition
  configureCell : Item → Cell
  sectionedView : SectionedView Cell

inductive Input (Model Item : Type) where
  /-- An event of the items, with whether the view is in a window. -/
  | next (newSections : List (AnimatableSectionModel Model Item)) (inWindow : Bool)
  /-- The view asks for a cell again. -/
  | cellForItem (path : Path)

def start : AnimatedDataSource Model Item Cell := ⟨[], false, []⟩

variable (options : Options Model Item Cell)

/-- `setSections` and `reloadData` -/
def reload (s : AnimatedDataSource Model Item Cell)
    (sections : List (AnimatableSectionModel Model Item)) : AnimatedDataSource Model Item Cell :=
  { s with sectionModels := sections, view := cells options.configureCell sections }

/-- One `performBatchUpdates`. -/
def performUpdates (inWindow : Bool) (s : AnimatedDataSource Model Item Cell)
    (difference : Changeset (AnimatableSectionModel Model Item)) :
    Option (AnimatedDataSource Model Item Cell) :=
  (options.sectionedView.perform inWindow difference.batchUpdates
    (cells options.configureCell difference.finalSections) s.view).map fun view =>
      { s with sectionModels := difference.finalSections, view }

variable [IdentifiableType Model SId] [IdentifiableType Item IId] [DecidableEq SId]
variable [DecidableEq IId] [BEq Item]

/-- `rxDebugFatalError`, which a difference that fails is handed to, only prints: the build is a
release build. -/
def observedEvent (s : AnimatedDataSource Model Item Cell)
    (newSections : List (AnimatableSectionModel Model Item)) (inWindow : Bool) :
    Option (AnimatedDataSource Model Item Cell) :=
  if !s.dataSet then some (reload options { s with dataSet := true } newSections)
  else if !inWindow then some (reload options s newSections)
  else
    match differencesForSectionedView s.sectionModels newSections with
    | .ok differences =>
      match options.decideViewTransition s differences with
      | .animated => differences.foldlM (performUpdates options inWindow) s
      | .reload => some (reload options s newSections)
    | .error .trap => none
    | .error _ => some (reload options s newSections)

def step (s : AnimatedDataSource Model Item Cell) :
    Input Model Item → Option (AnimatedDataSource Model Item Cell)
  | .next newSections inWindow => observedEvent options s newSections inWindow
  | .cellForItem path =>
    match item? (rows s.sectionModels) path with
    | none => some s
    | some item => some { s with view := setCell s.view path (options.configureCell item) }

/-- The sections of the last event. -/
def latestSections (inputs : List (Input Model Item)) : List (AnimatableSectionModel Model Item) :=
  inputs.foldl (fun latest input =>
    match input with
    | .next newSections _ => newSections
    | .cellForItem _ => latest) []

end AnimatedDataSource

/-! ## The differences -/

namespace Diff

variable {Model Item SId IId : Type} [IdentifiableType Model SId] [IdentifiableType Item IId]
variable [DecidableEq SId] [DecidableEq IId] [BEq Item]

/-- What a difference needs: no identity twice among the initial sections or items, nor among
the final ones that are found again. -/
structure Distinct (initialSections finalSections : List (AnimatableSectionModel Model Item)) :
    Prop where
  sections : DistinctSections initialSections finalSections
  items : DistinctItems (rows initialSections) (rows finalSections)

/-- A generator with the three changesets of its stages. -/
structure Staged (g : CommandGenerator Model Item)
    (s : List Nat × List ItemPath × List ItemPath × List (AnimatableSectionModel Model Item))
    (m : List (Nat × Nat)) (t : List ItemPath × List (ItemPath × ItemPath)) : Prop where
  moved : Moved g
  deletions : DeletesSections g g.initialSections.length s
  sectionMoves : MovesSections g g.initialSections.length m
  itemMoves : InsertsItems g (Visited g.finalItemCache g.sections g.finalSections.length) t

/-- A changeset that asks for nothing is left out. -/
def skipEmpty (skip : Bool) (c : Changeset (AnimatableSectionModel Model Item)) :
    List (Changeset (AnimatableSectionModel Model Item)) :=
  if skip then [] else [c]

def skipsDeletions
    (s : List Nat × List ItemPath × List ItemPath × List (AnimatableSectionModel Model Item)) : Bool :=
  s.2.1.isEmpty && s.1.isEmpty && s.2.2.1.isEmpty

def skipsSectionMoves (g : CommandGenerator Model Item) (m : List (Nat × Nat)) : Bool :=
  (sectionChangeset g m).insertedSections.isEmpty && m.isEmpty

def skipsItemMoves (t : List ItemPath × List (ItemPath × ItemPath)) : Bool :=
  t.1.isEmpty && t.2.isEmpty

omit [BEq Item] in
theorem generatorForInitialSections_ends
    (initialSections finalSections : List (AnimatableSectionModel Model Item)) :
    (∃ g, generatorForInitialSections initialSections finalSections = .ok g ∧ Moved g ∧
        g.initialSections = initialSections ∧ g.finalSections = finalSections ∧
        Distinct initialSections finalSections) ∨
      ∃ e, generatorForInitialSections initialSections finalSections = .error e ∧
        ((∃ sec, e = .duplicateSection sec) ∨ ∃ item, e = .duplicateItem item) ∧
        ¬Distinct initialSections finalSections := by
  unfold generatorForInitialSections
  obtain ⟨d, hd, hsections, hdistinct⟩ | ⟨e, he, hkind, hdup⟩ :=
    calculateSectionMovements_ends initialSections finalSections
  · rw [hd]
    obtain ⟨i, hi, hitems, hdistinct'⟩ | ⟨e, he, hkind, hdup⟩ :=
      calculateItemMovements_ends hsections
    · exact .inl ⟨_, bind_eq_ok.mpr ⟨d, rfl, bind_eq_ok.mpr ⟨i, hi, rfl⟩⟩, ⟨hsections, hitems⟩,
        rfl, rfl, hdistinct, hdistinct'⟩
    · refine .inr ⟨e, ?_, .inr hkind, fun hn => hdup hn.items⟩
      change (calculateItemMovements _ _ d >>= _) = _
      rw [he]
      rfl
  · rw [he]
    exact .inr ⟨e, rfl, .inl hkind, fun hn => hdup hn.sections⟩

theorem differences_ends [ReflBEq Item]
    (initialSections finalSections : List (AnimatableSectionModel Model Item)) :
    (∃ g s m t, Staged g s m t ∧ g.initialSections = initialSections ∧
        g.finalSections = finalSections ∧
        differencesForSectionedView initialSections finalSections =
          .ok (skipEmpty (skipsDeletions s) (deletionChangeset s) ++
            skipEmpty (skipsSectionMoves g m) (sectionChangeset g m) ++
            skipEmpty (skipsItemMoves t) (itemChangeset g t)) ∧
        Distinct initialSections finalSections) ∨
      ∃ e, differencesForSectionedView initialSections finalSections = .error e ∧
        ((∃ sec, e = .duplicateSection sec) ∨ ∃ item, e = .duplicateItem item) ∧
        ¬Distinct initialSections finalSections := by
  unfold differencesForSectionedView
  obtain ⟨g, hg, h, hinitial, hfinal, hdistinct⟩ | ⟨e, he, hkind, hdup⟩ :=
    generatorForInitialSections_ends initialSections finalSections
  · obtain ⟨s, hs, hdeletions⟩ := deletions_ok h
    obtain ⟨m, hm, hmoves⟩ := sectionMoves_ok h
    obtain ⟨t, ht, hitems⟩ := itemMoves_ok h
    refine .inl ⟨g, s, m, t, ⟨h, hs, hm, ht⟩, hinitial, hfinal, ?_, hdistinct⟩
    exact bind_eq_ok.mpr ⟨g, hg, bind_eq_ok.mpr ⟨_, hdeletions, bind_eq_ok.mpr ⟨_, hmoves,
      bind_eq_ok.mpr ⟨_, hitems, rfl⟩⟩⟩⟩
  · rw [he]
    exact .inr ⟨e, rfl, hkind, hdup⟩

/-- The only errors are those of an identity that occurs twice. -/
theorem differences_ok_iff [ReflBEq Item]
    (initialSections finalSections : List (AnimatableSectionModel Model Item)) :
    ((∃ differences, differencesForSectionedView initialSections finalSections = .ok differences) ↔
        Distinct initialSections finalSections) ∧
      ∀ e, differencesForSectionedView initialSections finalSections = .error e →
        (∃ sec, e = .duplicateSection sec) ∨ ∃ item, e = .duplicateItem item := by
  obtain ⟨g, s, m, t, -, -, -, hok, hdistinct⟩ | ⟨e, he, hkind, hdup⟩ :=
    differences_ends initialSections finalSections
  · exact ⟨iff_of_true ⟨_, hok⟩ hdistinct, fun e he => nomatch hok.symm.trans he⟩
  · refine ⟨iff_of_false (fun ⟨_, hok⟩ => nomatch hok.symm.trans he) hdup, fun e' he' => ?_⟩
    obtain rfl := Except.error.inj (he.symm.trans he')
    exact hkind

theorem differences_ok_iff_strings :
    ((∃ differences, differencesForSectionedView [⟨"a", ["x"]⟩, ⟨"b", ["x"]⟩]
          ([⟨"b", ["y"]⟩] : List (AnimatableSectionModel String String)) = .ok differences) ↔
        Distinct [⟨"a", ["x"]⟩, ⟨"b", ["x"]⟩]
          ([⟨"b", ["y"]⟩] : List (AnimatableSectionModel String String))) ∧
      ∀ e, differencesForSectionedView [⟨"a", ["x"]⟩, ⟨"b", ["x"]⟩]
          ([⟨"b", ["y"]⟩] : List (AnimatableSectionModel String String)) = .error e →
        (∃ sec, e = .duplicateSection sec) ∨ ∃ item, e = .duplicateItem item :=
  differences_ok_iff _ _

/-- The item at `p` is found again at `q`, in sections that are found again. -/
structure Follows (initialSections finalSections : List (AnimatableSectionModel Model Item))
    (p q : ItemPath) : Prop where
  same : SameItem (rows initialSections) (rows finalSections) p q
  initial : ∃ i, SameSection initialSections finalSections p.sectionIndex i
  final : ∃ k, SameSection initialSections finalSections k q.sectionIndex

omit [DecidableEq SId] [DecidableEq IId] [BEq Item] in
theorem staysAt_iff {g : CommandGenerator Model Item} (h : Moved g) (p q : ItemPath) :
    StaysAt g.sections g.items p q ↔ Follows g.initialSections g.finalSections p q := by
  have hinitial : (g.sections.initial p.sectionIndex).moveIndex.isSome = true ↔
      ∃ i, SameSection g.initialSections g.finalSections p.sectionIndex i := by
    rw [Option.isSome_iff_exists]
    exact exists_congr fun i => h.sections.initial p.sectionIndex i
  have hfinal : (g.sections.final q.sectionIndex).moveIndex.isSome = true ↔
      ∃ k, SameSection g.initialSections g.finalSections k q.sectionIndex := by
    rw [Option.isSome_iff_exists]
    exact exists_congr fun k => h.sections.final k q.sectionIndex
  constructor
  · exact fun hs => ⟨(h.items.initial p q).mp hs.moveIndex, hinitial.mp hs.initial,
      hfinal.mp hs.final⟩
  · exact fun hf => ⟨(h.items.initial p q).mpr hf.same, hinitial.mpr hf.initial,
      hfinal.mpr hf.final⟩

end Diff

/-! ## Sections that look alike -/

/-- The same identity, and equal for `==`. -/
structure Alike {Item IId : Type} [IdentifiableType Item IId] [BEq Item] (a b : Item) : Prop where
  identity_eq : identity a = identity b
  beq : (a == b) = true

structure AlikeSections {Model Item SId IId : Type} [IdentifiableType Model SId]
    [IdentifiableType Item IId] [BEq Item]
    (a b : List (AnimatableSectionModel Model Item)) : Prop where
  identities : a.map sectionIdentity = b.map sectionIdentity
  shape : (rows a).map List.length = (rows b).map List.length
  alike : ∀ q x y, item? (rows a) q = some x → item? (rows b) q = some y → Alike x y

section Alike

variable {Model Item SId IId : Type} [IdentifiableType Model SId] [IdentifiableType Item IId]
variable [BEq Item] [EquivBEq Item]

theorem Alike.refl (a : Item) : Alike a a := ⟨rfl, BEq.rfl⟩

theorem Alike.symm {a b : Item} (h : Alike a b) : Alike b a :=
  ⟨h.identity_eq.symm, BEq.symm h.beq⟩

theorem Alike.trans {a b c : Item} (hab : Alike a b) (hbc : Alike b c) : Alike a c :=
  ⟨hab.identity_eq.trans hbc.identity_eq, BEq.trans hab.beq hbc.beq⟩

theorem AlikeSections.of_rows {a b : List (AnimatableSectionModel Model Item)}
    (hid : a.map sectionIdentity = b.map sectionIdentity) (hrows : rows a = rows b) :
    AlikeSections a b := by
  refine ⟨hid, by rw [hrows], fun q x y hx hy => ?_⟩
  rw [hrows, hy] at hx
  rw [Option.some.inj hx]
  exact Alike.refl x

theorem AlikeSections.refl (a : List (AnimatableSectionModel Model Item)) : AlikeSections a a :=
  .of_rows rfl rfl

theorem AlikeSections.trans {a b c : List (AnimatableSectionModel Model Item)}
    (hab : AlikeSections a b) (hbc : AlikeSections b c) : AlikeSections a c := by
  refine ⟨hab.identities.trans hbc.identities, hab.shape.trans hbc.shape, fun q x z hx hz => ?_⟩
  have hsome : (item? (rows b) q).isSome = true := by
    rw [← isSome_of_shape hab.shape, hx]
    rfl
  obtain ⟨y, hy⟩ := Option.isSome_iff_exists.mp hsome
  exact (hab.alike q x y hx hy).trans (hbc.alike q y z hy hz)

end Alike

namespace Diff

variable {Model Item SId IId : Type} [IdentifiableType Model SId] [IdentifiableType Item IId]
variable {g : CommandGenerator Model Item}

omit [IdentifiableType Model SId] [IdentifiableType Item IId] in
theorem batchUpdates_of_skipsDeletions
    {s : List Nat × List ItemPath × List ItemPath × List (AnimatableSectionModel Model Item)}
    (h : skipsDeletions s = true) : (deletionChangeset s).batchUpdates = {} := by
  obtain ⟨deletedSections, deletedItems, updatedItems, after⟩ := s
  simp only [skipsDeletions, Bool.and_eq_true, List.isEmpty_iff] at h
  obtain ⟨⟨rfl, rfl⟩, rfl⟩ := h
  rfl

omit [IdentifiableType Model SId] [IdentifiableType Item IId] in
theorem batchUpdates_of_skipsSectionMoves {m : List (Nat × Nat)}
    (h : skipsSectionMoves g m = true) : (sectionChangeset g m).batchUpdates = {} := by
  simp only [skipsSectionMoves, Bool.and_eq_true, List.isEmpty_iff] at h
  obtain ⟨hinserted, rfl⟩ := h
  unfold Changeset.batchUpdates
  rw [hinserted]
  rfl

omit [IdentifiableType Model SId] [IdentifiableType Item IId] in
theorem batchUpdates_of_skipsItemMoves {t : List ItemPath × List (ItemPath × ItemPath)}
    (h : skipsItemMoves t = true) : (itemChangeset g t).batchUpdates = {} := by
  obtain ⟨inserted, moved⟩ := t
  simp only [skipsItemMoves, Bool.and_eq_true, List.isEmpty_iff] at h
  obtain ⟨rfl, rfl⟩ := h
  rfl

theorem identities_afterMove :
    (afterMove g).map sectionIdentity = g.finalSections.map sectionIdentity := by
  rw [afterMove, List.map_map, ← map_key_zipIdx sectionIdentity g.finalSections]
  refine List.map_congr_left fun p _ => ?_
  rw [Function.comp_apply, sectionAfterMove]
  cases (g.sections.final p.2).moveIndex with
  | none => rfl
  | some k => rfl

theorem rows_of_skipsItemMoves (h : Moved g) {t : List ItemPath × List (ItemPath × ItemPath)}
    (ht : InsertsItems g (Visited g.finalItemCache g.sections g.finalSections.length) t)
    (hskip : skipsItemMoves t = true) : rows (afterMove g) = rows g.finalSections := by
  obtain ⟨view, hperform, hshape, hview⟩ :=
    h.performs_itemMoves ht id (Eq.refl ((rows (afterMove g)).map List.length))
  rw [batchUpdates_of_skipsItemMoves hskip] at hperform
  obtain rfl := eq_of_empty hperform
  refine view_ext hshape fun ⟨i, j⟩ hq => ?_
  obtain ⟨-, hinserted, hstays⟩ := hview ⟨i, j⟩ hq
  cases hm : (g.sections.final i).moveIndex with
  | none =>
    rw [item?, item?, rows, List.getElem?_map, Moved.getElem?_afterMove_inserted hm, rows,
      List.getElem?_map]
  | some k =>
    by_cases hs : ∃ p, StaysAt g.sections g.items p ⟨i, j⟩
    · obtain ⟨p, hp⟩ := hs
      exact (hstays p hp).trans (h.item?_inPlace hp)
    · have hat := hinserted (by rw [hm]; rfl) fun p hp => hs ⟨p, hp⟩
      rw [Option.map_id] at hat
      exact hat

theorem rows_of_skipsSectionMoves (h : Moved g) {m : List (Nat × Nat)}
    (hm : MovesSections g g.initialSections.length m)
    (hskip : skipsSectionMoves g m = true) : rows (afterDelete g) = rows (afterMove g) := by
  obtain ⟨view, hperform, hshape, hview⟩ :=
    h.performs_sectionMoves hm id (Eq.refl ((rows (afterDelete g)).map List.length))
  rw [batchUpdates_of_skipsSectionMoves hskip] at hperform
  obtain rfl := eq_of_empty hperform
  refine view_ext hshape fun ⟨i, j⟩ hq => ?_
  obtain ⟨hinserted, hmoved⟩ := hview i j hq
  cases hi : (g.sections.final i).moveIndex with
  | none =>
    have hat := hinserted hi
    rw [Option.map_id] at hat
    refine hat.trans ?_
    change item? (rows g.finalSections) (i, j) = _
    rw [item?, item?, rows, List.getElem?_map, rows, List.getElem?_map,
      Moved.getElem?_afterMove_inserted hi]
  | some k =>
    refine (hmoved k hi).trans ?_
    rw [item?, item?, h.row_afterMove hi]

theorem identities_of_skipsSectionMoves (h : Moved g) {m : List (Nat × Nat)}
    (hm : MovesSections g g.initialSections.length m)
    (hskip : skipsSectionMoves g m = true) :
    (afterDelete g).map sectionIdentity = (afterMove g).map sectionIdentity := by
  have hmoves := h.movesSections hm
  rw [batchUpdates_of_skipsSectionMoves hskip] at hmoves
  obtain ⟨hlen, horigin⟩ := hmoves.of_empty
  rw [rows, List.length_map, rows, List.length_map] at hlen
  rw [rows, List.length_map] at horigin
  refine List.ext_getElem? fun i => ?_
  rw [List.getElem?_map, List.getElem?_map]
  by_cases hi : i < (afterMove g).length
  · obtain ⟨k, hk, rfl⟩ := Option.map_eq_some_iff.mp (horigin i hi)
    obtain ⟨a, b, ha, hb, he⟩ := (h.sections.final k _).mp hk
    obtain ⟨c, hc, hget⟩ := h.getElem?_afterMove_moved hk ha
    obtain rfl := Option.some.inj (hb.symm.trans hc)
    rw [hget, h.getElem?_afterDelete (h.keepsSection_of_final hk) ha]
    exact congrArg some he
  · rw [List.getElem?_eq_none_iff.mpr (by omega), List.getElem?_eq_none_iff.mpr (by omega)]

theorem rank_of_skipsDeletions [BEq Item]
    {s : List Nat × List ItemPath × List ItemPath × List (AnimatableSectionModel Model Item)}
    (hs : DeletesSections g g.initialSections.length s) (hskip : skipsDeletions s = true) {k : Nat}
    (hk : k < g.initialSections.length) : KeepsSection g k ∧ rank g k = k := by
  simp only [skipsDeletions, Bool.and_eq_true, List.isEmpty_iff] at hskip
  have hall : ∀ l < g.initialSections.length, KeepsSection g l := by
    intro l hl
    by_contra hn
    have hmem := (hs.deletedSections l).mpr ⟨hl, hn⟩
    rw [hskip.1.2] at hmem
    exact List.not_mem_nil hmem
  exact ⟨hall k hk, Nat.count_iff_forall.mpr fun l hl => hall l (hl.trans hk)⟩

theorem alike_of_skipsDeletions [BEq Item] [EquivBEq Item] (h : Moved g)
    {s : List Nat × List ItemPath × List ItemPath × List (AnimatableSectionModel Model Item)}
    (hs : DeletesSections g g.initialSections.length s) (hskip : skipsDeletions s = true) :
    AlikeSections g.initialSections (afterDelete g) := by
  obtain ⟨view, hperform, hshape, hview⟩ :=
    h.performs_deletions hs id (Eq.refl ((rows g.initialSections).map List.length))
  rw [batchUpdates_of_skipsDeletions hskip] at hperform
  obtain rfl := eq_of_empty hperform
  refine ⟨List.ext_getElem? fun k => ?_, hshape, fun x a b ha hb => ?_⟩
  · rw [List.getElem?_map, List.getElem?_map]
    by_cases hk : k < g.initialSections.length
    · obtain ⟨hkeeps, hrank⟩ := rank_of_skipsDeletions hs hskip hk
      have hget := h.getElem?_afterDelete hkeeps (List.getElem?_eq_getElem hk)
      rw [hrank] at hget
      rw [hget, List.getElem?_eq_getElem hk]
      rfl
    · have hlen := length_of_shape hshape
      rw [rows, List.length_map, rows, List.length_map] at hlen
      rw [List.getElem?_eq_none_iff.mpr (by omega), List.getElem?_eq_none_iff.mpr (by omega)]
  · obtain ⟨p, q, hpq, rfl⟩ := h.exists_place (by rw [hb]; rfl : (item? (rows (afterDelete g)) x).isSome = true)
    have hnot : ¬Updated g p := by
      intro hu
      have hmem := (hs.updatedItems p).mpr ⟨h.keepsSection_lt hu.keepsSection, hu⟩
      simp only [skipsDeletions, Bool.and_eq_true, List.isEmpty_iff] at hskip
      rw [hskip.2] at hmem
      exact List.not_mem_nil hmem
    have hp := (hview p q hpq).2 hnot
    rw [ha] at hp
    rw [h.item?_afterDelete hpq] at hb
    obtain ⟨a', b', ha', hb', hid⟩ := (h.items.initial p q).mp hpq.moveIndex
    obtain rfl := Option.some.inj (hp.trans ha')
    obtain rfl := Option.some.inj (hb.symm.trans hb')
    refine ⟨hid, BEq.symm (by_contra fun hne => hnot ⟨q, a, b, hpq, ha', hb, ?_⟩)⟩
    rw [bne, Bool.eq_false_of_not_eq_true hne]
    rfl

end Diff

/-! ## What an update shows -/

namespace AnimatedDataSource

variable {Model Item SId IId Cell : Type} [IdentifiableType Model SId] [IdentifiableType Item IId]
variable (options : Options Model Item Cell) {g : CommandGenerator Model Item}

theorem foldlM_skipEmpty {skip : Bool} {c : Changeset (AnimatableSectionModel Model Item)}
    (hskip : skip = true → c.batchUpdates = {}) {a : AnimatedDataSource Model Item Cell}
    {view : List (List Cell)}
    (hlegal : c.batchUpdates.Legal (cells options.configureCell c.finalSections) a.view)
    (h : performBatchUpdates c.batchUpdates (cells options.configureCell c.finalSections) a.view =
      some view) :
    (skipEmpty skip c).foldlM (performUpdates options true) a = some { a with
      sectionModels := if skip then a.sectionModels else c.finalSections
      view } := by
  cases skip with
  | true =>
    rw [hskip rfl] at h
    obtain rfl := eq_of_empty h
    rfl
  | false =>
    change (performUpdates options true a c).bind some = _
    rw [performUpdates, options.sectionedView.performs _ _ _ _ hlegal h]
    rfl

/-- What the view shows at the place `q` after an update: a new cell, or the cell that the item
had before. -/
structure ShowsUpdate [BEq Item] (g : CommandGenerator Model Item) (make : Item → Cell)
    (old new : List (List Cell)) (q : ItemPath) : Prop where
  inserted : InsertsItem g q → item? new q.indexPath = (finalItem? g q).map make
  updated : ∀ p, StaysAt g.sections g.items p q → Updated g p →
    item? new q.indexPath = (finalItem? g q).map make
  kept : ∀ p, StaysAt g.sections g.items p q → ¬Updated g p →
    item? new q.indexPath = item? old p.indexPath

variable [BEq Item]

/-- The section models once the last changeset has been performed. -/
def sectionModelsAfter (g : CommandGenerator Model Item)
    (s : List Nat × List ItemPath × List ItemPath × List (AnimatableSectionModel Model Item))
    (m : List (Nat × Nat)) (t : List ItemPath × List (ItemPath × ItemPath)) :
    List (AnimatableSectionModel Model Item) :=
  if skipsItemMoves t then
    if skipsSectionMoves g m then
      if skipsDeletions s then g.initialSections else afterDelete g
    else afterMove g
  else g.finalSections

omit [BEq Item] in
theorem view2_inPlace (h : Moved g) {make : Item → Cell} {view1 view2 : List (List Cell)}
    (hview : ∀ i j, (item? (rows (afterMove g)) (i, j)).isSome = true →
      ((g.sections.final i).moveIndex = none →
        item? view2 (i, j) = (finalItem? g ⟨i, j⟩).map make) ∧
      ∀ k, (g.sections.final i).moveIndex = some k → item? view2 (i, j) = item? view1 (rank g k, j))
    {p q : ItemPath} (hp : StaysAt g.sections g.items p q) :
    item? view2 (inPlace g p) = item? view1 (place g p) := by
  obtain ⟨i, hi⟩ := Option.isSome_iff_exists.mp hp.initial
  have hin := h.isSome_inPlace hp
  rw [Moved.inPlace_eq hi] at hin ⊢
  exact (hview _ _ hin).2 _ (h.sections.swap.mp hi)

theorem performs_differences
    {s : List Nat × List ItemPath × List ItemPath × List (AnimatableSectionModel Model Item)}
    {m : List (Nat × Nat)} {t : List ItemPath × List (ItemPath × ItemPath)} (h : Staged g s m t)
    {a : AnimatedDataSource Model Item Cell} (ha : a.sectionModels = g.initialSections)
    (hview : a.view.map List.length = (rows g.initialSections).map List.length) :
    ∃ view, (skipEmpty (skipsDeletions s) (deletionChangeset s) ++
        skipEmpty (skipsSectionMoves g m) (sectionChangeset g m) ++
        skipEmpty (skipsItemMoves t) (itemChangeset g t)).foldlM (performUpdates options true) a =
          some { a with sectionModels := sectionModelsAfter g s m t, view } ∧
      view.map List.length = (rows g.finalSections).map List.length ∧
      ∀ q, (finalItem? g q).isSome = true → ShowsUpdate g options.configureCell a.view view q := by
  have hafter : s.2.2.2 = afterDelete g := h.deletions.after
  obtain ⟨view1, hperform1, hshape1, hview1⟩ :=
    h.moved.performs_deletions h.deletions options.configureCell hview
  obtain ⟨view2, hperform2, hshape2, hview2⟩ :=
    h.moved.performs_sectionMoves h.sectionMoves options.configureCell hshape1
  obtain ⟨view3, hperform3, hshape3, hview3⟩ :=
    h.moved.performs_itemMoves h.itemMoves options.configureCell hshape2
  refine ⟨view3, ?_, hshape3, fun q hq => ⟨fun hn => ?_, fun p hp hu => ?_, fun p hp hu => ?_⟩⟩
  · have hfinal : (deletionChangeset s).finalSections = afterDelete g := hafter
    rw [← hfinal] at hperform1
    have hstage1 := foldlM_skipEmpty options batchUpdates_of_skipsDeletions
      (Moved.legal_deletions h.deletions _ hview) hperform1
    have hstage2 := fun b : AnimatedDataSource Model Item Cell => foldlM_skipEmpty options
      (a := { b with view := view1 }) batchUpdates_of_skipsSectionMoves
      (h.moved.legal_sectionMoves h.sectionMoves (shape_cells _ _) hshape1) hperform2
    have hstage3 := fun b : AnimatedDataSource Model Item Cell => foldlM_skipEmpty options
      (a := { b with view := view2 }) batchUpdates_of_skipsItemMoves
      (h.moved.legal_itemMoves h.itemMoves (shape_cells _ _) hshape2) hperform3
    rw [List.foldlM_append, List.foldlM_append, hstage1]
    change ((skipEmpty (skipsSectionMoves g m) (sectionChangeset g m)).foldlM
      (performUpdates options true) _).bind _ = _
    rw [hstage2 { a with
      sectionModels := if skipsDeletions s then a.sectionModels else _ }]
    refine (hstage3 { a with
      sectionModels := if skipsSectionMoves g m then _ else afterMove g }).trans ?_
    rw [ha, hfinal]
    rfl
  · obtain ⟨hinserted, hitem, -⟩ := hview3 q hq
    cases hm : (g.sections.final q.sectionIndex).moveIndex with
    | some k => exact hitem (by rw [hm]; rfl) hn
    | none =>
      have hin : (item? (rows (afterMove g)) q.indexPath).isSome = true := by
        rw [item?, ItemPath.indexPath, rows, List.getElem?_map,
          Moved.getElem?_afterMove_inserted hm, ← List.getElem?_map]
        exact hq
      exact (hinserted hm).trans ((hview2 q.sectionIndex q.itemIndex hin).1 hm)
  · rw [(hview3 q hq).2.2 p hp, view2_inPlace h.moved hview2 hp, (hview1 p q hp).1 hu]
  · rw [(hview3 q hq).2.2 p hp, view2_inPlace h.moved hview2 hp, (hview1 p q hp).2 hu]

/-- An animated update makes new cells for the items that are not found again and for those
that are not equal to what they were; every other item has the cell that it had. -/
structure Updates (old new : AnimatedDataSource Model Item Cell)
    (newSections : List (AnimatableSectionModel Model Item)) : Prop where
  shape : new.view.map List.length = (rows newSections).map List.length
  inserted : ∀ q b, item? (rows newSections) q.indexPath = some b →
    (∀ p, ¬Follows old.sectionModels newSections p q) →
    item? new.view q.indexPath = some (options.configureCell b)
  followed : ∀ p q a b, Follows old.sectionModels newSections p q →
    item? (rows old.sectionModels) p.indexPath = some a →
    item? (rows newSections) q.indexPath = some b →
    item? new.view q.indexPath =
      if b == a then item? old.view p.indexPath else some (options.configureCell b)

variable [ReflBEq Item] [DecidableEq SId] [DecidableEq IId]

theorem updates_of_distinct {old : AnimatedDataSource Model Item Cell}
    {newSections : List (AnimatableSectionModel Model Item)}
    (hview : old.view.map List.length = (rows old.sectionModels).map List.length)
    (hdistinct : Distinct old.sectionModels newSections) :
    ∃ g s m t, Staged g s m t ∧ g.initialSections = old.sectionModels ∧
      g.finalSections = newSections ∧ ∃ differences,
        differencesForSectionedView old.sectionModels newSections = .ok differences ∧
        ∃ view, differences.foldlM (performUpdates options true) old =
            some { old with sectionModels := sectionModelsAfter g s m t, view } ∧
          Updates options old { old with sectionModels := sectionModelsAfter g s m t, view }
            newSections := by
  obtain ⟨g, s, m, t, h, hinitial, hfinal, hok, -⟩ | ⟨e, -, -, hdup⟩ :=
    differences_ends old.sectionModels newSections
  · rw [← hinitial] at hview
    obtain ⟨view, hperform, hshape, hshows⟩ :=
      performs_differences options h hinitial.symm hview
    refine ⟨g, s, m, t, h, hinitial, hfinal, _, hok, view, hperform, ?_⟩
    rw [← hfinal]
    have hfollows : ∀ p q, Follows old.sectionModels g.finalSections p q ↔
        StaysAt g.sections g.items p q := by
      intro p q
      rw [← hinitial, staysAt_iff h.moved]
    refine ⟨hshape, fun q b hb hn => ?_, fun p q a b hf ha hb => ?_⟩
    · have hb' : finalItem? g q = some b := hb
      have hat := (hshows q (by rw [hb']; rfl)).inserted fun p hp => hn p ((hfollows p q).mpr hp)
      rw [hb'] at hat
      exact hat
    · have hb' : finalItem? g q = some b := hb
      have ha' : initialItem? g p = some a := by
        rw [initialItem?, hinitial]
        exact ha
      have hp := (hfollows p q).mp hf
      have hat := hshows q (by rw [hb']; rfl)
      have hupdated : Updated g p ↔ (b != a) = true := by
        constructor
        · rintro ⟨r, x, y, hr, hx, hy, hne⟩
          obtain rfl := Option.some.inj (hp.moveIndex.symm.trans hr.moveIndex)
          obtain rfl := Option.some.inj (ha'.symm.trans hx)
          obtain rfl := Option.some.inj (hb'.symm.trans hy)
          exact hne
        · exact fun hne => ⟨q, a, b, hp, ha', hb', hne⟩
      by_cases he : (b == a) = true
      · rw [if_pos he]
        exact hat.kept p hp fun hu => by
          have hne := hupdated.mp hu
          rw [bne, he] at hne
          exact Bool.false_ne_true hne
      · rw [if_neg he]
        have hnew := hat.updated p hp (hupdated.mpr (by rw [bne, Bool.eq_false_of_not_eq_true he]; rfl))
        rw [hb'] at hnew
        exact hnew
  · exact absurd hdistinct hdup

omit [ReflBEq Item] in
theorem observedEvent_hidden {old : AnimatedDataSource Model Item Cell} (hset : old.dataSet = true)
    (newSections : List (AnimatableSectionModel Model Item)) :
    observedEvent options old newSections false = some (reload options old newSections) := by
  unfold observedEvent
  rw [hset]
  rfl

omit [ReflBEq Item] in
theorem observedEvent_animated {old : AnimatedDataSource Model Item Cell}
    {newSections : List (AnimatableSectionModel Model Item)}
    {differences : List (Changeset (AnimatableSectionModel Model Item))} (hset : old.dataSet = true)
    (hok : differencesForSectionedView old.sectionModels newSections = .ok differences)
    (hanimated : options.decideViewTransition old differences = .animated) :
    observedEvent options old newSections true =
      differences.foldlM (performUpdates options true) old := by
  unfold observedEvent
  simp only [hset, hok, hanimated, Bool.not_true, Bool.false_eq_true, if_false]

theorem observedEvent_repeated {old : AnimatedDataSource Model Item Cell}
    {newSections : List (AnimatableSectionModel Model Item)} (hset : old.dataSet = true)
    (hdup : ¬Distinct old.sectionModels newSections) :
    observedEvent options old newSections true = some (reload options old newSections) := by
  obtain ⟨g, s, m, t, -, -, -, -, hdistinct⟩ | ⟨e, he, hkind, -⟩ :=
    differences_ends old.sectionModels newSections
  · exact absurd hdistinct hdup
  · unfold observedEvent
    obtain ⟨sec, rfl⟩ | ⟨item, rfl⟩ := hkind
    · simp only [hset, he, Bool.not_true, Bool.false_eq_true, if_false]
    · simp only [hset, he, Bool.not_true, Bool.false_eq_true, if_false]

theorem observedEvent_updates {old : AnimatedDataSource Model Item Cell}
    {newSections : List (AnimatableSectionModel Model Item)} (hset : old.dataSet = true)
    (hview : old.view.map List.length = (rows old.sectionModels).map List.length)
    (hanimated : ∀ differences, options.decideViewTransition old differences = .animated)
    (hdistinct : Distinct old.sectionModels newSections) :
    ∃ new, observedEvent options old newSections true = some new ∧
      Updates options old new newSections := by
  obtain ⟨g, s, m, t, -, -, -, differences, hok, view, hperform, hupdates⟩ :=
    updates_of_distinct options hview hdistinct
  exact ⟨_, (observedEvent_animated options hset hok (hanimated _)).trans hperform, hupdates⟩

theorem observedEvent_updates_strings :
    ∃ new, observedEvent ⟨fun _ _ => .animated, id, .strict⟩
        ⟨[⟨"a", ["x", "y"]⟩, ⟨"b", []⟩], true, [["x", "y"], []]⟩
        ([⟨"b", ["y"]⟩, ⟨"a", ["z", "x"]⟩] : List (AnimatableSectionModel String String)) true =
          some new ∧
      Updates ⟨fun _ _ => .animated, id, .strict⟩
        ⟨[⟨"a", ["x", "y"]⟩, ⟨"b", []⟩], true, [["x", "y"], []]⟩ new
        [⟨"b", ["y"]⟩, ⟨"a", ["z", "x"]⟩] :=
  observedEvent_updates ⟨fun _ _ => .animated, id, .strict⟩ rfl rfl (fun _ => rfl)
    ⟨⟨by decide, by decide⟩, ⟨by decide, by decide⟩⟩

omit [ReflBEq Item] [DecidableEq SId] [DecidableEq IId]

/-! ## What a run shows -/

/-- Each place of the view shows a cell made of an item that looks like the one there. -/
structure Shows (make : Item → Cell) (view : List (List Cell))
    (sections : List (AnimatableSectionModel Model Item)) : Prop where
  shape : view.map List.length = (rows sections).map List.length
  shows : ∀ q c b, item? view q = some c → item? (rows sections) q = some b →
    ∃ a, make a = c ∧ Alike a b

/-- The data source and its view are up to date. -/
structure UpToDate (s : AnimatedDataSource Model Item Cell)
    (latest : List (AnimatableSectionModel Model Item)) : Prop where
  sectionModels : AlikeSections s.sectionModels latest
  view : Shows options.configureCell s.view latest

variable [EquivBEq Item]

theorem alike_sectionModelsAfter
    {s : List Nat × List ItemPath × List ItemPath × List (AnimatableSectionModel Model Item)}
    {m : List (Nat × Nat)} {t : List ItemPath × List (ItemPath × ItemPath)}
    (h : Staged g s m t) : AlikeSections (sectionModelsAfter g s m t) g.finalSections := by
  unfold sectionModelsAfter
  cases ht : skipsItemMoves t with
  | false => exact AlikeSections.refl _
  | true =>
    have hmove : AlikeSections (afterMove g) g.finalSections :=
      .of_rows identities_afterMove (rows_of_skipsItemMoves h.moved h.itemMoves ht)
    cases hm : skipsSectionMoves g m with
    | false => exact hmove
    | true =>
      have hdelete : AlikeSections (afterDelete g) (afterMove g) :=
        .of_rows (identities_of_skipsSectionMoves h.moved h.sectionMoves hm)
          (rows_of_skipsSectionMoves h.moved h.sectionMoves hm)
      cases hs : skipsDeletions s with
      | false => exact hdelete.trans hmove
      | true => exact (alike_of_skipsDeletions h.moved h.deletions hs).trans (hdelete.trans hmove)

omit [BEq Item] [EquivBEq Item] [IdentifiableType Model SId] [IdentifiableType Item IId] in
theorem shows_cells [IdentifiableType Item IId] [BEq Item] [EquivBEq Item] (make : Item → Cell)
    (sections : List (AnimatableSectionModel Model Item)) :
    Shows make (cells make sections) sections := by
  refine ⟨shape_cells make sections, fun q c b hc hb => ⟨b, ?_, Alike.refl b⟩⟩
  rw [item?_cells, hb] at hc
  exact Option.some.inj hc

theorem upToDate_reload (s : AnimatedDataSource Model Item Cell)
    (sections : List (AnimatableSectionModel Model Item)) :
    UpToDate options (reload options s sections) sections :=
  ⟨AlikeSections.refl sections, shows_cells options.configureCell sections⟩

theorem upToDate_animated
    {s : List Nat × List ItemPath × List ItemPath × List (AnimatableSectionModel Model Item)}
    {m : List (Nat × Nat)} {t : List ItemPath × List (ItemPath × ItemPath)} (h : Staged g s m t)
    {a : AnimatedDataSource Model Item Cell} (ha : a.sectionModels = g.initialSections)
    {view : List (List Cell)} {latest : List (AnimatableSectionModel Model Item)}
    (hold : UpToDate options a latest)
    (hshape : view.map List.length = (rows g.finalSections).map List.length)
    (hview : ∀ q, (finalItem? g q).isSome = true →
      ShowsUpdate g options.configureCell a.view view q) :
    UpToDate options { a with sectionModels := sectionModelsAfter g s m t, view }
      g.finalSections := by
  refine ⟨alike_sectionModelsAfter h, hshape, fun x c b hc hb => ?_⟩
  have hq : finalItem? g ⟨x.1, x.2⟩ = some b := hb
  have hshows := hview ⟨x.1, x.2⟩ (by rw [hq]; rfl)
  have hnew : item? view x = (finalItem? g ⟨x.1, x.2⟩).map options.configureCell →
      ∃ d, options.configureCell d = c ∧ Alike d b := by
    intro he
    rw [hc, hq] at he
    exact ⟨b, (Option.some.inj he).symm, Alike.refl b⟩
  by_cases hs : ∃ p, StaysAt g.sections g.items p ⟨x.1, x.2⟩
  · obtain ⟨p, hp⟩ := hs
    by_cases hu : Updated g p
    · exact hnew (hshows.updated p hp hu)
    · have hkept := hshows.kept p hp hu
      obtain ⟨y, b', hy, hb', hid⟩ := (h.moved.items.initial p _).mp hp.moveIndex
      obtain rfl := Option.some.inj (hq.symm.trans hb')
      have hsome : (item? (rows latest) p.indexPath).isSome = true := by
        rw [← isSome_of_shape hold.sectionModels.shape, ha]
        exact h.moved.isSome_initial hp
      obtain ⟨z, hz⟩ := Option.isSome_iff_exists.mp hsome
      obtain ⟨d, hd, hdz⟩ := hold.view.shows p.indexPath c z (hkept.symm.trans hc) hz
      have hyz := hold.sectionModels.alike p.indexPath y z (by rw [ha]; exact hy) hz
      have hyb : Alike y b := by
        refine ⟨hid, BEq.symm (by_contra fun hne => hu ⟨_, y, b, hp, hy, hq, ?_⟩)⟩
        rw [bne, Bool.eq_false_of_not_eq_true hne]
        rfl
      exact ⟨d, hd, hdz.trans (hyz.symm.trans hyb)⟩
  · exact hnew (hshows.inserted fun p hp => hs ⟨p, hp⟩)

variable [DecidableEq SId] [DecidableEq IId]

theorem upToDate_observedEvent {a : AnimatedDataSource Model Item Cell}
    {latest : List (AnimatableSectionModel Model Item)} (hold : UpToDate options a latest)
    (newSections : List (AnimatableSectionModel Model Item)) (inWindow : Bool) :
    ∃ b, observedEvent options a newSections inWindow = some b ∧
      UpToDate options b newSections := by
  unfold observedEvent
  split
  · exact ⟨_, rfl, upToDate_reload options _ newSections⟩
  split
  · exact ⟨_, rfl, upToDate_reload options _ newSections⟩
  rename_i hwindow
  rw [Bool.not_eq_true', Bool.not_eq_false] at hwindow
  obtain ⟨g, s, m, t, h, hinitial, hfinal, hdiff, -⟩ | ⟨e, he, hkind, -⟩ :=
    differences_ends a.sectionModels newSections
  · rw [hdiff, hwindow]
    simp only
    split
    · have hshape := hold.view.shape.trans hold.sectionModels.shape.symm
      rw [← hinitial] at hshape
      obtain ⟨view, hperform, hshape', hview⟩ :=
        performs_differences options h hinitial.symm hshape
      refine ⟨_, hperform, ?_⟩
      rw [← hfinal]
      exact upToDate_animated options h hinitial.symm hold hshape' hview
    · exact ⟨_, rfl, upToDate_reload options _ newSections⟩
  · rw [he]
    obtain ⟨sec, rfl⟩ | ⟨item, rfl⟩ := hkind
    · exact ⟨_, rfl, upToDate_reload options _ newSections⟩
    · exact ⟨_, rfl, upToDate_reload options _ newSections⟩

omit [EquivBEq Item] [DecidableEq SId] [DecidableEq IId] in
theorem upToDate_setCell {a : AnimatedDataSource Model Item Cell}
    {latest : List (AnimatableSectionModel Model Item)} (hold : UpToDate options a latest)
    {path : Path} {item : Item} (hitem : item? (rows a.sectionModels) path = some item) :
    UpToDate options { a with view := setCell a.view path (options.configureCell item) } latest := by
  refine ⟨hold.sectionModels, (shape_setCell _ _ _).trans hold.view.shape, fun q c b hc hb => ?_⟩
  rcases item?_setCell hc with hc | ⟨rfl, rfl⟩
  · exact hold.view.shows q c b hc hb
  · exact ⟨item, rfl, hold.sectionModels.alike q item b hitem hb⟩

theorem upToDate_step {a : AnimatedDataSource Model Item Cell}
    {latest : List (AnimatableSectionModel Model Item)} (hold : UpToDate options a latest)
    (input : Input Model Item) :
    ∃ b, step options a input = some b ∧ UpToDate options b (match input with
      | .next newSections _ => newSections
      | .cellForItem _ => latest) := by
  cases input with
  | next newSections inWindow => exact upToDate_observedEvent options hold newSections inWindow
  | cellForItem path =>
    cases hitem : item? (rows a.sectionModels) path with
    | none => exact ⟨a, by simp only [step, hitem], hold⟩
    | some item =>
      exact ⟨_, by simp only [step, hitem], upToDate_setCell options hold hitem⟩

/-- No run ends in a refused batch, whatever lists come one after the other. -/
theorem run_upToDate (inputs : List (Input Model Item)) :
    ∃ s, inputs.foldlM (step options) start = some s ∧
      UpToDate options s (latestSections inputs) := by
  induction inputs using List.reverseRecOn with
  | nil =>
    refine ⟨start, rfl, AlikeSections.refl [], rfl, fun q c b hc => ?_⟩
    exact nomatch hc
  | append_singleton inputs input ih =>
    obtain ⟨a, ha, hold⟩ := ih
    obtain ⟨b, hb, hnew⟩ := upToDate_step options hold input
    refine ⟨b, ?_, ?_⟩
    · rw [List.foldlM_append, ha]
      change (step options a input).bind some = _
      rw [hb]
      rfl
    · unfold latestSections
      rw [List.foldl_append]
      exact hnew

theorem run_upToDate_strings :
    ∃ s, [.next [⟨"a", ["x", "y"]⟩, ⟨"b", []⟩] true, .cellForItem (0, 1),
          .next [⟨"b", ["x", "y"]⟩] false,
          .next ([⟨"b", ["y"]⟩, ⟨"a", ["z", "x"]⟩] : List (AnimatableSectionModel String String))
            true].foldlM (step ⟨fun _ _ => .animated, id, .strict⟩) start = some s ∧
      UpToDate ⟨fun _ _ => .animated, id, .strict⟩ s (latestSections
        [.next [⟨"a", ["x", "y"]⟩, ⟨"b", []⟩] true, .cellForItem (0, 1),
          .next [⟨"b", ["x", "y"]⟩] false, .next [⟨"b", ["y"]⟩, ⟨"a", ["z", "x"]⟩] true]) :=
  run_upToDate _ _

end AnimatedDataSource
end Karupasu.Differentiator
