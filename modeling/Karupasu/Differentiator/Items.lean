import Karupasu.Differentiator.Sections
import Karupasu.Library.BatchUpdates

/-!
# How the items move

An item stays when both its section and the section it is to be in are moved. Everything else is
deleted from its section and inserted anew.
-/
namespace Karupasu.Differentiator

open Karupasu.Library.Loops
open Karupasu.Library.BatchUpdates (Path item?)

/-- `IndexPath(item:section:)` -/
def ItemPath.indexPath (path : ItemPath) : Path := (path.sectionIndex, path.itemIndex)

namespace Diff

open Karupasu.Library (Matching.index Matching.link Matching.Indexes Matching.Links Matching.known)
open Karupasu.Library.Matching (foldlM_index foldlM_link)

variable {Model Item IId : Type} [IdentifiableType Item IId]

/-! ## Items of the same identity -/

def SameItem (initialItemCache finalItemCache : List (List Item)) (p q : ItemPath) : Prop :=
  ∃ a b, item? initialItemCache p.indexPath = some a ∧ item? finalItemCache q.indexPath = some b ∧
    identity a = identity b

/-- The initial items have different identities, and so have those final items whose identities
are among them. -/
structure DistinctItems [DecidableEq IId] (initialItemCache finalItemCache : List (List Item)) :
    Prop where
  initial : (initialItemCache.flatten.map identity).Nodup
  final : ((finalItemCache.flatten.map identity).filter fun c =>
    decide (c ∈ initialItemCache.flatten.map identity)).Nodup

theorem mem_itemPaths {cache : List (List Item)} {a : Item} {p : ItemPath} :
    (a, p) ∈ itemPaths cache ↔ item? cache p.indexPath = some a := by
  simp only [itemPaths, List.mem_flatMap, List.mem_map, Prod.exists, List.mem_zipIdx_iff_getElem?,
    item?, ItemPath.indexPath, Option.bind_eq_some_iff]
  constructor
  · rintro ⟨items, i, hi, b, j, hj, he⟩
    obtain ⟨rfl, rfl⟩ := Prod.mk.inj he
    exact ⟨items, hi, hj⟩
  · rintro ⟨items, hi, hj⟩
    exact ⟨items, p.sectionIndex, hi, a, p.itemIndex, hj, rfl⟩

theorem map_key_itemPaths {κ : Type} (key : Item → κ) (cache : List (List Item)) :
    (itemPaths cache).map (fun p => key p.1) = cache.flatten.map key := by
  have hrow : ∀ i (items : List Item),
      (items.zipIdx.map fun q => (q.1, (⟨i, q.2⟩ : ItemPath))).map (fun p => key p.1) =
        items.map key := by
    intro i items
    rw [List.map_map]
    exact map_key_zipIdx key items
  unfold itemPaths
  rw [List.map_flatMap]
  simp only [hrow]
  rw [List.map_flatten, List.flatMap_def, map_key_zipIdx (List.map key)]

theorem nodup_snd_itemPaths (cache : List (List Item)) :
    ((itemPaths cache).map Prod.snd).Nodup := by
  have hrow : ∀ i (items : List Item),
      (items.zipIdx.map fun q => (q.1, (⟨i, q.2⟩ : ItemPath))).map Prod.snd =
        (List.range items.length).map fun j => ⟨i, j⟩ := by
    intro i items
    rw [List.map_map, List.range_eq_range', ← List.zipIdx_map_snd 0 items, List.map_map]
    rfl
  unfold itemPaths
  rw [List.map_flatMap, List.nodup_flatMap]
  simp only [hrow]
  constructor
  · intro p _
    exact List.nodup_range.map fun j k h => (ItemPath.mk.inj h).2
  · have hp : (cache.zipIdx.map Prod.snd).Pairwise (· ≠ ·) := nodup_snd_zipIdx cache
    rw [List.pairwise_map] at hp
    refine hp.imp fun {a b} hne => ?_
    change List.Disjoint _ _
    rw [List.disjoint_left]
    rintro path ha hb
    obtain ⟨j, -, rfl⟩ := List.mem_map.mp ha
    obtain ⟨k, -, hk⟩ := List.mem_map.mp hb
    exact hne (ItemPath.mk.inj hk).1.symm

/-! ## The links -/

def itemMoves (d : ItemData) : (ItemPath → Option ItemPath) × (ItemPath → Option ItemPath) :=
  (ItemAssociatedData.moveIndex ∘ d.initial, ItemAssociatedData.moveIndex ∘ d.final)

theorem itemMoves_linkItem (dictionary : IId → Option ItemPath) (d : ItemData)
    (p : Item × ItemPath) :
    (linkItem dictionary d p : Except (Error Model Item) ItemData).map itemMoves =
      Matching.link identity Error.duplicateItem dictionary (itemMoves d) p := by
  unfold linkItem Matching.link
  cases dictionary (identity p.1) with
  | none => rfl
  | some q =>
    change Except.map itemMoves (if (d.initial q).moveIndex.isSome = true then _ else _) =
      if (d.initial q).moveIndex.isSome = true then _ else _
    by_cases hq : (d.initial q).moveIndex.isSome = true
    · rw [if_pos hq, if_pos hq]
      rfl
    · rw [if_neg hq, if_neg hq]
      refine congrArg Except.ok (Prod.ext ?_ ?_)
      · exact Function.comp_update ItemAssociatedData.moveIndex d.initial q _
      · exact Function.comp_update ItemAssociatedData.moveIndex d.final p.2 _

structure LinkedItems (initialItemCache finalItemCache : List (List Item)) (d : ItemData) :
    Prop where
  initial : ∀ p q, (d.initial p).moveIndex = some q ↔ SameItem initialItemCache finalItemCache p q
  final : ∀ p q, (d.final q).moveIndex = some p ↔ SameItem initialItemCache finalItemCache p q
  untouched : ∀ p, (d.initial p).event = .untouched

theorem sameItem_iff {initialItemCache finalItemCache : List (List Item)}
    {dictionary : IId → Option ItemPath}
    (h : Matching.Indexes identity (itemPaths initialItemCache) dictionary) (p q : ItemPath) :
    (∃ b, (b, q) ∈ itemPaths finalItemCache ∧ dictionary (identity b) = some p) ↔
      SameItem initialItemCache finalItemCache p q := by
  simp only [h.lookup, mem_itemPaths]
  exact ⟨fun ⟨b, hb, a, ha, he⟩ => ⟨a, b, ha, hb, he⟩, fun ⟨a, b, ha, hb, he⟩ => ⟨b, hb, a, ha, he⟩⟩

theorem untouched_linkItem {dictionary : IId → Option ItemPath} {c d : ItemData}
    {p : Item × ItemPath} (h : ∀ q, (c.initial q).event = .untouched)
    (hd : (linkItem dictionary c p : Except (Error Model Item) ItemData) = .ok d) (q : ItemPath) :
    (d.initial q).event = .untouched := by
  unfold linkItem at hd
  cases hi : dictionary (identity p.1) with
  | none =>
    rw [hi] at hd
    obtain rfl := Except.ok.inj hd
    exact h q
  | some r =>
    simp only [hi] at hd
    split at hd
    · exact nomatch hd
    · obtain rfl := Except.ok.inj hd
      by_cases hq : q = r
      · rw [hq]
        simp only [Function.update_self]
        exact h r
      · simp only [Function.update_of_ne hq]
        exact h q

section Distinct

variable [DecidableEq IId]

theorem known_itemPaths {initialItemCache finalItemCache : List (List Item)}
    {dictionary : IId → Option ItemPath}
    (h : Matching.Indexes identity (itemPaths initialItemCache) dictionary) :
    Matching.known identity dictionary (itemPaths finalItemCache) =
      (finalItemCache.flatten.map identity).filter fun c =>
        decide (c ∈ initialItemCache.flatten.map identity) := by
  unfold Matching.known
  rw [map_key_itemPaths]
  refine List.filter_congr fun c _ => ?_
  rw [h.isSome_iff, map_key_itemPaths]

/-- The error of an item that has already been indexed. -/
def alreadyIndexed (initialItemCache : List (List Item)) (path : ItemPath) (_ : Item) :
    Error Model Item :=
  match (itemAt initialItemCache path : Except (Error Model Item) Item) with
  | .ok item => .duplicateItem item
  | .error e => e

theorem indexItem_eq (initialItemCache : List (List Item)) :
    (indexItem initialItemCache :
      (IId → Option ItemPath) → _ → Except (Error Model Item) (IId → Option ItemPath)) =
      Matching.index identity (alreadyIndexed initialItemCache) := by
  funext m p
  unfold indexItem Matching.index alreadyIndexed
  cases m (identity p.1) with
  | none => rfl
  | some path =>
    simp only
    cases (itemAt initialItemCache path : Except (Error Model Item) Item) with
    | error e => rfl
    | ok item => rfl

theorem itemAt_eq_ok {cache : List (List Item)} {path : ItemPath} {item : Item} :
    (itemAt cache path : Except (Error Model Item) Item) = .ok item ↔
      item? cache path.indexPath = some item := by
  unfold itemAt item? ItemPath.indexPath
  cases cache[path.sectionIndex]?.bind (·[path.itemIndex]?) with
  | none => simp [throw, throwThe, MonadExceptOf.throw]
  | some b => simp [pure, Except.pure]

theorem calculateAssociatedData_ends (initialItemCache finalItemCache : List (List Item)) :
    (∃ d, calculateAssociatedData initialItemCache finalItemCache =
          (.ok d : Except (Error Model Item) ItemData) ∧
        LinkedItems initialItemCache finalItemCache d ∧
        DistinctItems initialItemCache finalItemCache) ∨
      ∃ e : Error Model Item, calculateAssociatedData initialItemCache finalItemCache = .error e ∧
        (∃ item, e = .duplicateItem item) ∧ ¬DistinctItems initialItemCache finalItemCache := by
  unfold calculateAssociatedData
  rw [indexItem_eq]
  obtain ⟨m, hm, hindexes⟩ | ⟨e, he, ⟨p, hp, q, -, rfl⟩, hdup⟩ := foldlM_index identity
    (alreadyIndexed initialItemCache : ItemPath → Item → Error Model Item)
    (itemPaths initialItemCache)
  · rw [hm]
    have hmap := foldlM_map (ε := Error Model Item) itemMoves (itemMoves_linkItem m)
      (itemPaths finalItemCache) {}
    have hinj := hindexes.injective (nodup_snd_itemPaths initialItemCache)
    have hnodup := hindexes.nodup
    rw [map_key_itemPaths] at hnodup
    obtain ⟨t, ht, hlinks⟩ | ⟨e, he, ⟨p, -, rfl⟩, hdup⟩ :=
      foldlM_link hinj (Error.duplicateItem : Item → Error Model Item) (itemPaths finalItemCache)
    · obtain ⟨d, hd, rfl⟩ := eq_ok_of_map (hmap.trans ht)
      refine .inl ⟨d, hd, ⟨fun k i => ?_, fun k i => ?_, ?_⟩, hnodup, ?_⟩
      · exact (hlinks.there k i).trans (sameItem_iff hindexes k i)
      · exact (hlinks.back (nodup_snd_itemPaths finalItemCache) k i).trans
          (sameItem_iff hindexes k i)
      · exact foldlM_turns (P := fun _ d => ∀ k, (d.initial k).event = .untouched) (fun _ => rfl)
          (fun _ _ _ _ _ hp hc => untouched_linkItem hp hc) hd
      · rw [← known_itemPaths hindexes]
        exact hlinks.nodup
    · refine .inr ⟨_, eq_error_of_map (hmap.trans he), ⟨p.1, rfl⟩, fun hd => hdup ?_⟩
      rw [known_itemPaths hindexes]
      exact hd.final
  · rw [he]
    refine .inr ⟨_, rfl, ⟨p.1, ?_⟩, fun hd => hdup ?_⟩
    · unfold alreadyIndexed
      rw [itemAt_eq_ok.mpr (mem_itemPaths.mp hp)]
    · rw [map_key_itemPaths]
      exact hd.initial

end Distinct

/-! ## The deleted items -/

/-- Where an item of a moved section goes to, if it stays. -/
def target (sections : SectionData) (d : ItemData) (p : ItemPath) : Option ItemPath :=
  (d.initial p).moveIndex.filter fun q => (sections.final q.sectionIndex).moveIndex.isSome

/-- Where an item of a moved section comes from, if it is not new. -/
def origin (sections : SectionData) (d : ItemData) (q : ItemPath) : Option ItemPath :=
  (d.final q).moveIndex.filter fun p => (sections.initial p.sectionIndex).moveIndex.isSome

def stays (sections : SectionData) (d : ItemData) (k j : Nat) : Prop :=
  (target sections d ⟨k, j⟩).isSome = true

instance (sections : SectionData) (d : ItemData) (k : Nat) :
    DecidablePred (stays sections d k) := fun j =>
  inferInstanceAs (Decidable ((target sections d ⟨k, j⟩).isSome = true))

/-- What is known of the initial items after turns over the sections. -/
structure MarkedItems (cache : List (List Item)) (sections : SectionData) (d : ItemData)
    (turns : Nat) (data : ItemPath → ItemAssociatedData) : Prop where
  moveIndex_eq : ∀ p, (data p).moveIndex = (d.initial p).moveIndex
  later : ∀ p, turns ≤ p.sectionIndex → (data p).event = .untouched
  ranked : ∀ k < turns, (sections.initial k).moveIndex.isSome = true → ∀ items,
    cache[k]? = some items → Ranked (stays sections d k) (fun j => (data ⟨k, j⟩).event)
      (fun j => (data ⟨k, j⟩).indexAfterDelete) items.length
      (Nat.count (stays sections d k) items.length)

omit [IdentifiableType Item IId]

/-- The final sections in reach are either inserted or moved. -/
def InsertedOrMoved (sections : SectionData) (d : ItemData) : Prop :=
  ∀ p q, (d.initial p).moveIndex = some q → ((sections.final q.sectionIndex).event = .inserted ↔
    (sections.final q.sectionIndex).moveIndex = none)

theorem markDeletedItem_spec {sections : SectionData} {d : ItemData} (h : InsertedOrMoved sections d)
    {k turns : Nat} {s : (ItemPath → ItemAssociatedData) × Nat}
    (hs : (s.1 ⟨k, turns⟩).moveIndex = (d.initial ⟨k, turns⟩).moveIndex) :
    (∀ p, p ≠ ⟨k, turns⟩ → (markDeletedItem sections k s turns).1 p = s.1 p) ∧
    (¬stays sections d k turns → (markDeletedItem sections k s turns).1 ⟨k, turns⟩ =
      { s.1 ⟨k, turns⟩ with event := .deleted } ∧ (markDeletedItem sections k s turns).2 = s.2) ∧
    (stays sections d k turns → (markDeletedItem sections k s turns).1 ⟨k, turns⟩ =
      { s.1 ⟨k, turns⟩ with indexAfterDelete := some s.2 } ∧
      (markDeletedItem sections k s turns).2 = s.2 + 1) := by
  unfold markDeletedItem stays target
  simp only [hs]
  cases hm : (d.initial ⟨k, turns⟩).moveIndex with
  | none =>
    refine ⟨fun p hp => Function.update_of_ne hp _ _, fun _ => ⟨Function.update_self _ _ _, rfl⟩,
      fun hstay => ?_⟩
    exact absurd hstay Bool.false_ne_true
  | some q =>
    have hiff := h ⟨k, turns⟩ q hm
    by_cases hq : (sections.final q.sectionIndex).event = .inserted
    · simp only [if_pos hq]
      refine ⟨fun p hp => Function.update_of_ne hp _ _,
        fun _ => ⟨Function.update_self _ _ _, trivial⟩, fun hstay => ?_⟩
      rw [Option.filter_some, hiff.mp hq] at hstay
      exact absurd hstay Bool.false_ne_true
    · simp only [if_neg hq]
      refine ⟨fun p hp => Function.update_of_ne hp _ _, fun hstay => absurd ?_ hstay,
        fun _ => ⟨Function.update_self _ _ _, trivial⟩⟩
      have hsome := Option.isSome_iff_ne_none.mpr fun hn => hq (hiff.mpr hn)
      rw [Option.filter_some, if_pos hsome]
      rfl

theorem markDeletedItems_kept {cache : List (List Item)} {sections : SectionData} {d : ItemData}
    (h : InsertedOrMoved sections d) {turns : Nat} (items : List Item)
    {data : ItemPath → ItemAssociatedData}
    (hm : MarkedItems cache sections d turns data)
    (hk : (sections.initial turns).moveIndex.isSome = true) :
    (∀ p, p.sectionIndex ≠ turns → markDeletedItems sections data (items, turns) p = data p) ∧
    (∀ p, (markDeletedItems sections data (items, turns) p).moveIndex = (d.initial p).moveIndex) ∧
    Ranked (stays sections d turns)
      (fun j => (markDeletedItems sections data (items, turns) ⟨turns, j⟩).event)
      (fun j => (markDeletedItems sections data (items, turns) ⟨turns, j⟩).indexAfterDelete)
      items.length (Nat.count (stays sections d turns) items.length) := by
  obtain ⟨i, hi⟩ := Option.isSome_iff_exists.mp hk
  have heq : markDeletedItems sections data (items, turns) =
      ((List.range items.length).foldl (markDeletedItem sections turns) (data, 0)).1 := by
    unfold markDeletedItems
    simp only [hi]
  have hloop := foldl_turns (f := markDeletedItem sections turns) (b := (data, 0))
    (P := fun n s => (∀ p, p.sectionIndex ≠ turns → s.1 p = data p) ∧
      (∀ p, (s.1 p).moveIndex = (d.initial p).moveIndex) ∧
      Ranked (stays sections d turns) (fun j => (s.1 ⟨turns, j⟩).event)
        (fun j => (s.1 ⟨turns, j⟩).indexAfterDelete) n s.2) ?_ (List.range items.length) ?_
  · rw [List.length_range] at hloop
    obtain ⟨hoff, hmove, hranked⟩ := hloop
    rw [heq]
    refine ⟨hoff, hmove, ?_⟩
    have hrank := hranked.rank_eq
    rw [hrank] at hranked
    exact hranked
  · refine ⟨fun _ _ => rfl, hm.moveIndex_eq, rfl, fun j _ => hm.later ⟨turns, j⟩ (Nat.le_refl _),
      fun j hj => absurd hj (Nat.not_lt_zero j), fun j hj => absurd hj (Nat.not_lt_zero j),
      fun j hj => absurd hj (Nat.not_lt_zero j)⟩
  · intro n j s hj ⟨hoff, hmove, hranked⟩
    obtain ⟨-, rfl⟩ := getElem?_range_eq_some.mp hj
    obtain ⟨hother, hdelete, hkeep⟩ := markDeletedItem_spec h (hmove ⟨turns, j⟩)
    have hne : ∀ l, l ≠ j → (⟨turns, l⟩ : ItemPath) ≠ ⟨turns, j⟩ :=
      fun l hl he => hl (ItemPath.mk.inj he).2
    refine ⟨fun p hp => ?_, fun p => ?_, ?_⟩
    · rw [hother p fun he => hp (by rw [he]), hoff p hp]
    · by_cases hp : p = ⟨turns, j⟩
      · rw [hp, ← hmove ⟨turns, j⟩]
        by_cases hs : stays sections d turns j
        · rw [(hkeep hs).1]
        · rw [(hdelete hs).1]
      · rw [hother p hp, hmove]
    · refine hranked.turn (fun l hl => by rw [hother _ (hne l hl)])
        (fun l hl => by rw [hother _ (hne l hl)]) ?_ ?_
      · intro hs
        exact ⟨by rw [(hdelete hs).1], (hdelete hs).2⟩
      · intro hs
        have hu := hranked.later j (Nat.le_refl j)
        exact ⟨by rw [(hkeep hs).1]; exact hu, by rw [(hkeep hs).1], (hkeep hs).2⟩

theorem markedItems (cache : List (List Item)) {sections : SectionData} {d : ItemData}
    (h : InsertedOrMoved sections d) (hd : ∀ p, (d.initial p).event = .untouched) :
    MarkedItems cache sections d cache.length
      (cache.zipIdx.foldl (markDeletedItems sections) d.initial) := by
  have hturns := foldl_turns (P := MarkedItems cache sections d)
    (f := markDeletedItems sections) (b := d.initial) ?_ cache.zipIdx ?_
  · rw [List.length_zipIdx] at hturns
    exact hturns
  · exact ⟨fun _ => rfl, fun p _ => hd p, fun k hk => absurd hk (Nat.not_lt_zero k)⟩
  · rintro turns ⟨items, i⟩ data hp hm
    obtain ⟨hitems, hi⟩ := getElem?_zipIdx_eq_some.mp hp
    obtain rfl : i = turns := hi
    cases hk : (sections.initial i).moveIndex with
    | none =>
      have hskip : markDeletedItems sections data (items, i) = data := by
        unfold markDeletedItems
        simp only [hk]
      rw [hskip]
      refine ⟨hm.moveIndex_eq, fun p hle => hm.later p (by omega), fun k hlt hs => ?_⟩
      refine hm.ranked k (lt_of_le_of_ne (Nat.le_of_lt_succ hlt) fun he => ?_) hs
      rw [he, hk] at hs
      exact nomatch hs
    | some l =>
      obtain ⟨hoff, hmove, hranked⟩ := markDeletedItems_kept h items hm (by rw [hk]; rfl)
      refine ⟨hmove, fun p hle => ?_, fun k hlt hs items' hget => ?_⟩
      · rw [hoff p (by omega), hm.later p (by omega)]
      · by_cases he : k = i
        · subst he
          obtain rfl := Option.some.inj (hitems.symm.trans hget)
          exact hranked
        · have hrow : ∀ j, markDeletedItems sections data (items, i) ⟨k, j⟩ = data ⟨k, j⟩ :=
            fun j => hoff ⟨k, j⟩ he
          simp only [hrow]
          exact hm.ranked k (by omega) hs items' hget

/-! ## The moved items -/

/-- The initial sections in reach are either deleted or moved. -/
def DeletedOrMoved (sections : SectionData) (d : ItemData) : Prop :=
  ∀ p q, (d.final q).moveIndex = some p →
    (sections.initial p.sectionIndex).event = .deleted ∧
      (sections.initial p.sectionIndex).moveIndex = none ∨
    Moves (sections.initial p.sectionIndex).event ∧
      (sections.initial p.sectionIndex).moveIndex.isSome = true

/-- Where the search for an untouched item of the section `old` has got to. -/
def untouchedIndex (sections : SectionData) (old : Nat) (s : Option Nat × ItemData) : Option Nat :=
  findNextUntouchedOldIndex (fun k => (s.2.initial ⟨old, k⟩).event) (sections.initial old).itemCount
    s.1

def moveType (old : Nat) (untouched : Option Nat) (p : ItemPath) : EditEvent :=
  if p.sectionIndex = old ∧ some p.itemIndex = untouched then .movedAutomatically else .moved

theorem moves_moveType (old : Nat) (untouched : Option Nat) (p : ItemPath) :
    Moves (moveType old untouched p) := by
  unfold moveType
  split
  · exact .inr rfl
  · exact .inl rfl

theorem moveType_automatic {old : Nat} {untouched : Option Nat} {p : ItemPath}
    (h : moveType old untouched p = .movedAutomatically) :
    p.sectionIndex = old ∧ untouched = some p.itemIndex := by
  unfold moveType at h
  split at h
  · rename_i hp
    exact ⟨hp.1, hp.2.symm⟩
  · exact nomatch h

theorem placeItem_inserted {sections : SectionData} {d : ItemData} (h : DeletedOrMoved sections d)
    {i old j : Nat} {s : Option Nat × ItemData}
    (hs : (s.2.final ⟨i, j⟩).moveIndex = (d.final ⟨i, j⟩).moveIndex)
    (ho : origin sections d ⟨i, j⟩ = none) :
    (placeItem sections i old s j : Except (Error Model Item) _) =
      .ok (untouchedIndex sections old s, { s.2 with
        final := Function.update s.2.final ⟨i, j⟩
          { s.2.final ⟨i, j⟩ with event := .inserted } }) := by
  unfold placeItem
  simp only [hs]
  cases hm : (d.final ⟨i, j⟩).moveIndex with
  | none => rfl
  | some p =>
    have hdeleted : (sections.initial p.sectionIndex).event = .deleted := by
      rcases h p ⟨i, j⟩ hm with ⟨he, -⟩ | ⟨-, hk⟩
      · exact he
      · rw [origin, hm, Option.filter_some, if_pos hk] at ho
        exact nomatch ho
    simp only [if_pos hdeleted]
    rfl

theorem placeItem_moved {sections : SectionData} {d : ItemData} (h : DeletedOrMoved sections d)
    {i old j : Nat} {p : ItemPath} {s : Option Nat × ItemData}
    (hs : (s.2.final ⟨i, j⟩).moveIndex = (d.final ⟨i, j⟩).moveIndex)
    (ho : origin sections d ⟨i, j⟩ = some p) :
    (placeItem sections i old s j : Except (Error Model Item) _) =
      .ok (untouchedIndex sections old s, {
        initial := Function.update s.2.initial p { s.2.initial p with
          event := moveType old (untouchedIndex sections old s) p }
        final := Function.update s.2.final ⟨i, j⟩ { s.2.final ⟨i, j⟩ with
          event := moveType old (untouchedIndex sections old s) p } }) := by
  obtain ⟨hm, hk⟩ := Option.filter_eq_some_iff.mp ho
  have hmoves : Moves (sections.initial p.sectionIndex).event := by
    rcases h p ⟨i, j⟩ hm with ⟨-, hn⟩ | ⟨hmoves, -⟩
    · rw [hn] at hk
      exact nomatch hk
    · exact hmoves
  unfold placeItem
  simp only [hs, hm]
  rcases hmoves with he | he
  · rw [he]
    rfl
  · rw [he]
    rfl

/-- What is known once the final items of `visited` have had their turn, which began from `d`. -/
structure PlacedItems (sections : SectionData) (d : ItemData) (visited : ItemPath → Prop)
    (r : ItemData) : Prop where
  initial : ∀ p, r.initial p = { d.initial p with event := (r.initial p).event }
  final : ∀ q, r.final q = { d.final q with event := (r.final q).event }
  waiting : ∀ p, (∀ q, visited q → origin sections d q ≠ some p) →
    (r.initial p).event = (d.initial p).event
  inserted : ∀ q, visited q → origin sections d q = none → (r.final q).event = .inserted
  placed : ∀ q, visited q → ∀ p, origin sections d q = some p →
    Moves (r.final q).event ∧ (r.initial p).event = (r.final q).event
  automatic : ∀ q, visited q → ∀ p, origin sections d q = some p →
    (r.final q).event = .movedAutomatically →
    (sections.final q.sectionIndex).moveIndex = some p.sectionIndex
  ordered : ∀ i j l, j < l → visited ⟨i, j⟩ → visited ⟨i, l⟩ → ∀ p q,
    origin sections d ⟨i, j⟩ = some p → origin sections d ⟨i, l⟩ = some q →
    (r.final ⟨i, j⟩).event = .movedAutomatically → (r.final ⟨i, l⟩).event = .movedAutomatically →
    p.itemIndex < q.itemIndex

/-- What the search of section `i` has passed. -/
def PassedItems (sections : SectionData) (d : ItemData) (visited : ItemPath → Prop) (i : Nat)
    (s : Option Nat × ItemData) : Prop :=
  ∀ j p, visited ⟨i, j⟩ → origin sections d ⟨i, j⟩ = some p →
    (s.2.final ⟨i, j⟩).event = .movedAutomatically → Passed s.1 p.itemIndex

/-- The items before `p` in its section are deleted or go to items before `q` in that one's. -/
def ComesFirst (sections : SectionData) (d : ItemData) (p q : ItemPath) : Prop :=
  ∀ l < p.itemIndex, (d.initial ⟨p.sectionIndex, l⟩).event = .untouched →
    ∃ j < q.itemIndex, origin sections d ⟨q.sectionIndex, j⟩ = some ⟨p.sectionIndex, l⟩

/-- An item before which there is nothing left in its section moves by itself. -/
def SettledItems (sections : SectionData) (d : ItemData) (visited : ItemPath → Prop)
    (r : ItemData) : Prop :=
  ∀ q, visited q → ∀ p, origin sections d q = some p →
    (sections.final q.sectionIndex).moveIndex = some p.sectionIndex →
    p.itemIndex < (sections.initial p.sectionIndex).itemCount →
    (d.initial p).event = .untouched → ComesFirst sections d p q →
    (r.final q).event = .movedAutomatically

/-- The search of the section `old` has not gone past an untouched item. -/
def ReachesItems (sections : SectionData) (old : Nat) (s : Option Nat × ItemData) : Prop :=
  Reaches (fun k => (s.2.initial ⟨old, k⟩).event) (sections.initial old).itemCount s.1

theorem SettledItems.congr {sections : SectionData} {d r : ItemData} {V W : ItemPath → Prop}
    (h : SettledItems sections d V r) (hV : ∀ q, W q ↔ V q) : SettledItems sections d W r :=
  fun q hq => h q ((hV q).mp hq)

theorem PlacedItems.congr {sections : SectionData} {d r : ItemData} {V W : ItemPath → Prop}
    (h : PlacedItems sections d V r) (hV : ∀ q, W q ↔ V q) : PlacedItems sections d W r := by
  obtain rfl : W = V := funext fun q => propext (hV q)
  exact h

section Turn

variable {sections : SectionData} {d : ItemData} {V : ItemPath → Prop} {i old j : Nat}
variable {s : Option Nat × ItemData}

theorem passedItems_search (hp : PassedItems sections d V i s) {l : Nat} {p : ItemPath}
    (hl : V ⟨i, l⟩) (ho : origin sections d ⟨i, l⟩ = some p)
    (he : (s.2.final ⟨i, l⟩).event = .movedAutomatically) :
    Passed (untouchedIndex sections old s) p.itemIndex :=
  passed_next (hp l p hl ho he)

theorem placedItems_insert (h : PlacedItems sections d V s.2) (hp : PassedItems sections d V i s)
    (hnew : ¬V ⟨i, j⟩) (ho : origin sections d ⟨i, j⟩ = none) {t : Option Nat × ItemData}
    (ht : t = (untouchedIndex sections old s, { s.2 with
      final := Function.update s.2.final ⟨i, j⟩
        { s.2.final ⟨i, j⟩ with event := .inserted } })) :
    PlacedItems sections d (fun q => V q ∨ q = ⟨i, j⟩) t.2 ∧
      PassedItems sections d (fun q => V q ∨ q = ⟨i, j⟩) i t := by
  have hold : ∀ q, q ≠ ⟨i, j⟩ → t.2.final q = s.2.final q := by
    intro q hq
    rw [ht]
    exact Function.update_of_ne hq _ _
  have hinitial : t.2.initial = s.2.initial := by rw [ht]
  have hnow : t.2.final ⟨i, j⟩ = { s.2.final ⟨i, j⟩ with event := .inserted } := by
    rw [ht]
    exact Function.update_self _ _ _
  have hbefore : ∀ q p, V q ∨ q = ⟨i, j⟩ → origin sections d q = some p → V q ∧ q ≠ ⟨i, j⟩ := by
    rintro q p (hq | rfl) hor
    · exact ⟨hq, fun he => hnew (he ▸ hq)⟩
    · rw [ho] at hor
      exact nomatch hor
  refine ⟨⟨?_, ?_, ?_, ?_, ?_, ?_, ?_⟩, ?_⟩
  · rw [hinitial]
    exact h.initial
  · intro q
    by_cases hq : q = ⟨i, j⟩
    · rw [hq, hnow, h.final]
    · rw [hold q hq, ← h.final q]
  · intro p hw
    rw [hinitial]
    exact h.waiting p fun q hq => hw q (.inl hq)
  · rintro q (hq | rfl) hor
    · rw [hold q fun he => hnew (he ▸ hq)]
      exact h.inserted q hq hor
    · rw [hnow]
  · intro q hv p hor
    obtain ⟨hq, hne⟩ := hbefore q p hv hor
    rw [hold q hne, hinitial]
    exact h.placed q hq p hor
  · intro q hv p hor he
    obtain ⟨hq, hne⟩ := hbefore q p hv hor
    rw [hold q hne] at he
    exact h.automatic q hq p hor he
  · intro k l m hlm hl hm p q hp' hq' hel hem
    obtain ⟨hvl, hnl⟩ := hbefore _ p hl hp'
    obtain ⟨hvm, hnm⟩ := hbefore _ q hm hq'
    rw [hold _ hnl] at hel
    rw [hold _ hnm] at hem
    exact h.ordered k l m hlm hvl hvm p q hp' hq' hel hem
  · intro l p hv hor he
    obtain ⟨hq, hne⟩ := hbefore _ p hv hor
    rw [hold _ hne] at he
    rw [ht]
    exact passedItems_search hp hq hor he

theorem placedItems_move {p : ItemPath}
    (hinj : ∀ q r p, origin sections d q = some p → origin sections d r = some p → q = r)
    (hi : (sections.final i).moveIndex = some old)
    (h : PlacedItems sections d V s.2) (hp : PassedItems sections d V i s)
    (hnew : ∀ l, V ⟨i, l⟩ → l < j) (ho : origin sections d ⟨i, j⟩ = some p)
    {t : Option Nat × ItemData} (ht : t = (untouchedIndex sections old s, {
        initial := Function.update s.2.initial p { s.2.initial p with
          event := moveType old (untouchedIndex sections old s) p }
        final := Function.update s.2.final ⟨i, j⟩ { s.2.final ⟨i, j⟩ with
          event := moveType old (untouchedIndex sections old s) p } })) :
    PlacedItems sections d (fun q => V q ∨ q = ⟨i, j⟩) t.2 ∧
      PassedItems sections d (fun q => V q ∨ q = ⟨i, j⟩) i t := by
  have hne : ∀ q, V q → q ≠ ⟨i, j⟩ := by
    rintro q hq rfl
    exact Nat.lt_irrefl j (hnew j hq)
  have hfinal : ∀ q, q ≠ ⟨i, j⟩ → t.2.final q = s.2.final q := by
    intro q hq
    rw [ht]
    exact Function.update_of_ne hq _ _
  have hnow : t.2.final ⟨i, j⟩ = { s.2.final ⟨i, j⟩ with
      event := moveType old (untouchedIndex sections old s) p } := by
    rw [ht]
    exact Function.update_self _ _ _
  have hinitial : ∀ r, r ≠ p → t.2.initial r = s.2.initial r := by
    intro r hr
    rw [ht]
    exact Function.update_of_ne hr _ _
  have hthere : t.2.initial p = { s.2.initial p with
      event := moveType old (untouchedIndex sections old s) p } := by
    rw [ht]
    exact Function.update_self _ _ _
  have hother : ∀ q r, V q → origin sections d q = some r → r ≠ p := by
    rintro q r hq hor rfl
    exact hne q hq (hinj q ⟨i, j⟩ r hor ho)
  have hpassed : ∀ l r, V ⟨i, l⟩ → origin sections d ⟨i, l⟩ = some r →
      (s.2.final ⟨i, l⟩).event = .movedAutomatically →
      (t.2.final ⟨i, j⟩).event = .movedAutomatically → r.itemIndex < p.itemIndex := by
    intro l r hl hor he hauto
    rw [hnow] at hauto
    obtain ⟨-, hu⟩ := moveType_automatic hauto
    obtain ⟨hmoves, heq⟩ := h.placed _ hl r hor
    have hsec : r.sectionIndex = old :=
      (Option.some.inj (hi.symm.trans (h.automatic _ hl r hor he))).symm
    refine lt_of_passed (hp l r hl hor he) ?_ hu
    rw [← hsec]
    exact heq ▸ hmoves.ne_untouched
  refine ⟨⟨?_, ?_, ?_, ?_, ?_, ?_, ?_⟩, ?_⟩
  · intro r
    by_cases hr : r = p
    · rw [hr, hthere, h.initial]
    · rw [hinitial r hr, ← h.initial r]
  · intro q
    by_cases hq : q = ⟨i, j⟩
    · rw [hq, hnow, h.final]
    · rw [hfinal q hq, ← h.final q]
  · intro r hw
    have hr : r ≠ p := fun he => hw ⟨i, j⟩ (.inr rfl) (by rw [he, ho])
    rw [hinitial r hr]
    exact h.waiting r fun q hq => hw q (.inl hq)
  · rintro q (hq | rfl) hor
    · rw [hfinal q (hne q hq)]
      exact h.inserted q hq hor
    · rw [ho] at hor
      exact nomatch hor
  · rintro q (hq | rfl) r hor
    · rw [hfinal q (hne q hq), hinitial r (hother q r hq hor)]
      exact h.placed q hq r hor
    · obtain rfl := Option.some.inj (ho.symm.trans hor)
      rw [hnow, hthere]
      exact ⟨moves_moveType _ _ _, rfl⟩
  · rintro q (hq | rfl) r hor he
    · rw [hfinal q (hne q hq)] at he
      exact h.automatic q hq r hor he
    · obtain rfl := Option.some.inj (ho.symm.trans hor)
      rw [hnow] at he
      rw [(moveType_automatic he).1]
      exact hi
  · intro k l m hlm hl hm r q hr hq hel hem
    have hvl : V ⟨k, l⟩ := by
      refine hl.resolve_right fun he => ?_
      obtain ⟨rfl, rfl⟩ := ItemPath.mk.inj he
      rcases hm with hm | hm
      · exact Nat.lt_asymm hlm (hnew m hm)
      · exact hlm.ne (ItemPath.mk.inj hm).2.symm
    rw [hfinal _ (hne _ hvl)] at hel
    rcases hm with hm | hm
    · rw [hfinal _ (hne _ hm)] at hem
      exact h.ordered k l m hlm hvl hm r q hr hq hel hem
    · obtain ⟨rfl, rfl⟩ := ItemPath.mk.inj hm
      obtain rfl := Option.some.inj (ho.symm.trans hq)
      exact hpassed l r hvl hr hel hem
  · rintro l r (hl | hl) hor he
    · rw [hfinal _ (hne _ hl)] at he
      rw [ht]
      exact passedItems_search hp hl hor he
    · obtain ⟨-, rfl⟩ := ItemPath.mk.inj hl
      obtain rfl := Option.some.inj (ho.symm.trans hor)
      rw [hnow] at he
      rw [ht, (moveType_automatic he).2]
      exact fun n hn => (Option.some.inj hn).le

theorem settledItems_insert (h : SettledItems sections d V s.2) (hr : ReachesItems sections old s)
    (hnew : ¬V ⟨i, j⟩) (ho : origin sections d ⟨i, j⟩ = none) {t : Option Nat × ItemData}
    (ht : t = (untouchedIndex sections old s, { s.2 with
      final := Function.update s.2.final ⟨i, j⟩
        { s.2.final ⟨i, j⟩ with event := .inserted } })) :
    SettledItems sections d (fun q => V q ∨ q = ⟨i, j⟩) t.2 ∧ ReachesItems sections old t := by
  subst ht
  refine ⟨?_, reaches_next hr⟩
  rintro q (hq | rfl) p hp hsec hlt hu hfirst
  · have hne : q ≠ ⟨i, j⟩ := fun he => hnew (he ▸ hq)
    simp only [Function.update_of_ne hne]
    exact h q hq p hp hsec hlt hu hfirst
  · rw [ho] at hp
    exact nomatch hp

theorem settledItems_move {p : ItemPath}
    (hinj : ∀ q r p, origin sections d q = some p → origin sections d r = some p → q = r)
    (hi : (sections.final i).moveIndex = some old) (hplaced : PlacedItems sections d V s.2)
    (h : SettledItems sections d V s.2) (hr : ReachesItems sections old s)
    (hvisited : ∀ l, V ⟨i, l⟩ ↔ l < j) (ho : origin sections d ⟨i, j⟩ = some p)
    {t : Option Nat × ItemData} (ht : t = (untouchedIndex sections old s, {
        initial := Function.update s.2.initial p { s.2.initial p with
          event := moveType old (untouchedIndex sections old s) p }
        final := Function.update s.2.final ⟨i, j⟩ { s.2.final ⟨i, j⟩ with
          event := moveType old (untouchedIndex sections old s) p } })) :
    SettledItems sections d (fun q => V q ∨ q = ⟨i, j⟩) t.2 ∧ ReachesItems sections old t := by
  subst ht
  have hne : ∀ q, V q → q ≠ ⟨i, j⟩ := by
    rintro q hq rfl
    exact Nat.lt_irrefl j ((hvisited j).mp hq)
  constructor
  · rintro q (hq | rfl) r hor hsec hlt hu hfirst
    · simp only [Function.update_of_ne (hne q hq)]
      exact h q hq r hor hsec hlt hu hfirst
    · obtain rfl := Option.some.inj (ho.symm.trans hor)
      obtain rfl := Option.some.inj (hi.symm.trans hsec)
      -- the search stops at the item that is moved now
      have hnow : (s.2.initial p).event = .untouched := by
        rw [hplaced.waiting p fun q hq hqp => hne q hq (hinj q ⟨i, j⟩ p hqp ho)]
        exact hu
      have hbefore : ∀ l < p.itemIndex, (s.2.initial ⟨p.sectionIndex, l⟩).event ≠ .untouched := by
        intro l hl
        by_cases hmoved : ∃ q, V q ∧ origin sections d q = some ⟨p.sectionIndex, l⟩
        · obtain ⟨q, hq, hql⟩ := hmoved
          obtain ⟨hmoves, heq⟩ := hplaced.placed q hq _ hql
          rw [heq]
          exact hmoves.ne_untouched
        · rw [hplaced.waiting _ fun q hq hql => hmoved ⟨q, hq, hql⟩]
          intro hlu
          obtain ⟨m, hm, hml⟩ := hfirst l hl hlu
          exact hmoved ⟨⟨i, m⟩, (hvisited m).mpr hm, hml⟩
      have hfound : untouchedIndex sections p.sectionIndex s = some p.itemIndex :=
        eq_some_of_reaches hr hlt hnow hbefore
      simp only [Function.update_self]
      rw [hfound, moveType, if_pos ⟨rfl, rfl⟩]
  · refine (reaches_next hr).mono fun k hk => ?_
    by_cases he : (⟨old, k⟩ : ItemPath) = p
    · simp only [he, Function.update_self] at hk
      exact absurd hk (moves_moveType _ _ _).ne_untouched
    · simp only [Function.update_of_ne he] at hk
      exact hk

end Turn

/-- The items of the moved sections before section `turns`. -/
def Visited (cache : List (List Item)) (sections : SectionData) (turns : Nat) (q : ItemPath) : Prop :=
  q.sectionIndex < turns ∧ (sections.final q.sectionIndex).moveIndex.isSome = true ∧
    (item? cache q.indexPath).isSome = true

theorem visited_succ {cache : List (List Item)} {sections : SectionData} {i n : Nat}
    {items : List Item} (hitems : cache[i]? = some items)
    (hi : (sections.final i).moveIndex.isSome = true) (hn : n = items.length) (q : ItemPath) :
    Visited cache sections (i + 1) q ↔
      Visited cache sections i q ∨ q.sectionIndex = i ∧ q.itemIndex < n := by
  unfold Visited
  constructor
  · intro ⟨hlt, hk, ha⟩
    by_cases he : q.sectionIndex = i
    · refine .inr ⟨he, ?_⟩
      rw [item?, ItemPath.indexPath, he, hitems, Option.bind_some, isSome_getElem?] at ha
      exact hn ▸ ha
    · exact .inl ⟨by omega, hk, ha⟩
  · rintro (⟨hlt, hk, ha⟩ | ⟨he, hlt⟩)
    · exact ⟨by omega, hk, ha⟩
    · refine ⟨by omega, by rw [he]; exact hi, ?_⟩
      rw [item?, ItemPath.indexPath, he, hitems, Option.bind_some, isSome_getElem?]
      exact hn ▸ hlt

theorem visited_skip {cache : List (List Item)} {sections : SectionData} {i : Nat}
    (hi : (sections.final i).moveIndex = none) (q : ItemPath) :
    Visited cache sections (i + 1) q ↔ Visited cache sections i q := by
  unfold Visited
  refine and_congr_left fun hq => ⟨fun hlt => ?_, fun hlt => by omega⟩
  refine lt_of_le_of_ne (Nat.le_of_lt_succ hlt) fun he => ?_
  rw [he, hi] at hq
  exact nomatch hq.1

theorem path_lt_succ {V : ItemPath → Prop} {i j : Nat} (q : ItemPath) :
    (V q ∨ q.sectionIndex = i ∧ q.itemIndex < j + 1) ↔
      (V q ∨ q.sectionIndex = i ∧ q.itemIndex < j) ∨ q = ⟨i, j⟩ := by
  rw [or_assoc]
  refine or_congr Iff.rfl ⟨fun ⟨he, hl⟩ => ?_, fun hq => ?_⟩
  · rcases Nat.lt_succ_iff_lt_or_eq.mp hl with hl | hl
    · exact .inl ⟨he, hl⟩
    · exact .inr (by rw [← he, ← hl])
  · rcases hq with ⟨he, hl⟩ | rfl
    · exact ⟨he, by omega⟩
    · exact ⟨rfl, Nat.lt_succ_self j⟩

theorem placeItems_moved {cache : List (List Item)} {sections : SectionData} {d : ItemData}
    (hsec : DeletedOrMoved sections d)
    (hinj : ∀ q r p, origin sections d q = some p → origin sections d r = some p → q = r)
    {i old : Nat} {items : List Item} (hitems : cache[i]? = some items)
    (hi : (sections.final i).moveIndex = some old) {r : ItemData}
    (h : PlacedItems sections d (Visited cache sections i) r)
    (hsettled : SettledItems sections d (Visited cache sections i) r) :
    ∃ t, placeItems sections r (items, i) = (.ok t : Except (Error Model Item) ItemData) ∧
      PlacedItems sections d (Visited cache sections (i + 1)) t ∧
      SettledItems sections d (Visited cache sections (i + 1)) t := by
  have hloop := foldlM_ok (ε := Error Model Item)
    (P := fun n s =>
      PlacedItems sections d
        (fun q => Visited cache sections i q ∨ q.sectionIndex = i ∧ q.itemIndex < n) s.2 ∧
      PassedItems sections d
        (fun q => Visited cache sections i q ∨ q.sectionIndex = i ∧ q.itemIndex < n) i s ∧
      SettledItems sections d
        (fun q => Visited cache sections i q ∨ q.sectionIndex = i ∧ q.itemIndex < n) s.2 ∧
      ReachesItems sections old s)
    (f := placeItem sections i old) (b := (some 0, r)) ?_ (List.range items.length) ?_
  · obtain ⟨s, hs, hplaced, -, hmoves, -⟩ := hloop
    have hmoved : (sections.final i).moveIndex.isSome = true := by
      rw [hi]
      rfl
    have hvisited := visited_succ hitems hmoved List.length_range
    refine ⟨s.2, ?_, hplaced.congr hvisited, hmoves.congr hvisited⟩
    unfold placeItems
    simp only [hi]
    exact bind_eq_ok.mpr ⟨s, hs, rfl⟩
  · have hnone : ∀ q, (Visited cache sections i q ∨ q.sectionIndex = i ∧ q.itemIndex < 0) ↔
        Visited cache sections i q := fun q => or_iff_left fun hq => Nat.not_lt_zero _ hq.2
    refine ⟨h.congr hnone, ?_, hsettled.congr hnone, fun k _ _ => ⟨0, rfl, Nat.zero_le k⟩⟩
    rintro l p (hv | ⟨-, hl⟩)
    · exact absurd hv.1 (Nat.lt_irrefl i)
    · exact absurd hl (Nat.not_lt_zero l)
  · intro n j s hj ⟨hplaced, hpassed, hmoves, hreaches⟩
    obtain ⟨-, rfl⟩ := getElem?_range_eq_some.mp hj
    have hvisited : ∀ l, (Visited cache sections i ⟨i, l⟩ ∨ i = i ∧ l < j) ↔ l < j := fun l =>
      ⟨fun hv => hv.elim (fun hv => absurd hv.1 (Nat.lt_irrefl i)) And.right,
        fun hl => .inr ⟨rfl, hl⟩⟩
    have hnew := fun l => (hvisited l).mp
    have hmove : (s.2.final ⟨i, j⟩).moveIndex = (d.final ⟨i, j⟩).moveIndex := by
      rw [hplaced.final]
    simp only [path_lt_succ]
    cases ho : origin sections d ⟨i, j⟩ with
    | none =>
      have hj' := fun hv => Nat.lt_irrefl j (hnew j hv)
      obtain ⟨hplaced', hpassed'⟩ := placedItems_insert hplaced hpassed hj' ho rfl
      exact ⟨_, placeItem_inserted hsec hmove ho, hplaced', hpassed',
        settledItems_insert hmoves hreaches hj' ho rfl⟩
    | some p =>
      obtain ⟨hplaced', hpassed'⟩ := placedItems_move hinj hi hplaced hpassed hnew ho rfl
      exact ⟨_, placeItem_moved hsec hmove ho, hplaced', hpassed',
        settledItems_move hinj hi hplaced hmoves hreaches hvisited ho rfl⟩

theorem placedItems (cache : List (List Item)) {sections : SectionData} {d : ItemData}
    (hsec : DeletedOrMoved sections d)
    (hinj : ∀ q r p, origin sections d q = some p → origin sections d r = some p → q = r) :
    ∃ r, cache.zipIdx.foldlM (placeItems sections) d =
        (.ok r : Except (Error Model Item) ItemData) ∧
      PlacedItems sections d (Visited cache sections cache.length) r ∧
      SettledItems sections d (Visited cache sections cache.length) r := by
  have hloop := foldlM_ok (ε := Error Model Item)
    (P := fun n r => PlacedItems sections d (Visited cache sections n) r ∧
      SettledItems sections d (Visited cache sections n) r)
    (f := placeItems sections) (b := d) ?_ cache.zipIdx ?_
  · rw [List.length_zipIdx] at hloop
    exact hloop
  · exact ⟨⟨fun _ => rfl, fun _ => rfl, fun _ _ => rfl,
      fun q hq => absurd hq.1 (Nat.not_lt_zero _), fun q hq => absurd hq.1 (Nat.not_lt_zero _),
      fun q hq => absurd hq.1 (Nat.not_lt_zero _), fun i j l _ hj => absurd hj.1 (Nat.not_lt_zero _)⟩,
      fun q hq => absurd hq.1 (Nat.not_lt_zero _)⟩
  · rintro n ⟨items, i⟩ r hp ⟨h, hsettled⟩
    obtain ⟨hitems, hi⟩ := getElem?_zipIdx_eq_some.mp hp
    obtain rfl : i = n := hi
    cases hk : (sections.final i).moveIndex with
    | some old => exact placeItems_moved hsec hinj hitems hk h hsettled
    | none =>
      refine ⟨r, ?_, h.congr (visited_skip hk), hsettled.congr (visited_skip hk)⟩
      unfold placeItems
      simp only [hk]
      rfl

/-! ## All movements -/

/-- An item whose sections are both moved. -/
structure StaysAt (sections : SectionData) (d : ItemData) (p q : ItemPath) : Prop where
  moveIndex : (d.initial p).moveIndex = some q
  initial : (sections.initial p.sectionIndex).moveIndex.isSome = true
  final : (sections.final q.sectionIndex).moveIndex.isSome = true

theorem stays_congr {sections : SectionData} {d e : ItemData}
    (h : ∀ p, (d.initial p).moveIndex = (e.initial p).moveIndex) (k j : Nat) :
    stays sections d k j ↔ stays sections e k j := by
  unfold stays target
  rw [h]

theorem count_stays_congr {sections : SectionData} {d e : ItemData}
    (h : ∀ p, (d.initial p).moveIndex = (e.initial p).moveIndex) (k n : Nat) :
    Nat.count (stays sections d k) n = Nat.count (stays sections e k) n :=
  Nat.le_antisymm (Nat.count_mono_left fun j _ => (stays_congr h k j).mp)
    (Nat.count_mono_left fun j _ => (stays_congr h k j).mpr)

variable [IdentifiableType Item IId]

/-- What becomes of the items. -/
structure ItemMovements (initialItemCache finalItemCache : List (List Item))
    (sections : SectionData) (d : ItemData) : Prop where
  initial : ∀ p q, (d.initial p).moveIndex = some q ↔ SameItem initialItemCache finalItemCache p q
  final : ∀ p q, (d.final q).moveIndex = some p ↔ SameItem initialItemCache finalItemCache p q
  deleted : ∀ p a, item? initialItemCache p.indexPath = some a →
    (sections.initial p.sectionIndex).moveIndex.isSome = true → (∀ q, ¬StaysAt sections d p q) →
    (d.initial p).event = .deleted
  inserted : ∀ q b, item? finalItemCache q.indexPath = some b →
    (sections.final q.sectionIndex).moveIndex.isSome = true → (∀ p, ¬StaysAt sections d p q) →
    (d.final q).event = .inserted
  moved : ∀ p q, StaysAt sections d p q →
    Moves (d.final q).event ∧ (d.initial p).event = (d.final q).event
  indexAfterDelete : ∀ p q, StaysAt sections d p q → (d.initial p).indexAfterDelete =
    some (Nat.count (stays sections d p.sectionIndex) p.itemIndex)
  automatic : ∀ p q, StaysAt sections d p q → (d.final q).event = .movedAutomatically →
    (sections.final q.sectionIndex).moveIndex = some p.sectionIndex
  ordered : ∀ i j l, j < l → ∀ p q, StaysAt sections d p ⟨i, j⟩ → StaysAt sections d q ⟨i, l⟩ →
    (d.final ⟨i, j⟩).event = .movedAutomatically → (d.final ⟨i, l⟩).event = .movedAutomatically →
    p.itemIndex < q.itemIndex
  settled : ∀ p q, StaysAt sections d p q →
    (sections.final q.sectionIndex).moveIndex = some p.sectionIndex →
    (∀ l < p.itemIndex, stays sections d p.sectionIndex l →
      ∃ j < q.itemIndex, StaysAt sections d ⟨p.sectionIndex, l⟩ ⟨q.sectionIndex, j⟩) →
    (d.final q).event = .movedAutomatically

theorem SameItem.isSome_initial {initialItemCache finalItemCache : List (List Item)} {p q : ItemPath}
    (h : SameItem initialItemCache finalItemCache p q) :
    (item? initialItemCache p.indexPath).isSome = true := by
  obtain ⟨a, b, ha, -⟩ := h
  rw [ha]
  rfl

theorem SameItem.isSome_final {initialItemCache finalItemCache : List (List Item)} {p q : ItemPath}
    (h : SameItem initialItemCache finalItemCache p q) :
    (item? finalItemCache q.indexPath).isSome = true := by
  obtain ⟨a, b, -, hb, -⟩ := h
  rw [hb]
  rfl

omit [IdentifiableType Item IId] in
theorem lt_of_item? {cache : List (List Item)} {p : ItemPath}
    (h : (item? cache p.indexPath).isSome = true) : p.sectionIndex < cache.length := by
  obtain ⟨a, ha⟩ := Option.isSome_iff_exists.mp h
  obtain ⟨items, hitems, -⟩ := Option.bind_eq_some_iff.mp ha
  exact (List.getElem?_eq_some_iff.mp hitems).1

theorem staysAt_iff_origin {initialItemCache finalItemCache : List (List Item)}
    {sections : SectionData} {linked d : ItemData}
    (h : LinkedItems initialItemCache finalItemCache linked)
    (hd : ∀ p, (d.initial p).moveIndex = (linked.initial p).moveIndex) {p q : ItemPath}
    (hq : (sections.final q.sectionIndex).moveIndex.isSome = true) :
    StaysAt sections d p q ↔ origin sections linked q = some p := by
  rw [origin, Option.filter_eq_some_iff, h.final, ← h.initial, ← hd]
  exact ⟨fun hs => ⟨hs.moveIndex, hs.initial⟩, fun ⟨hm, hk⟩ => ⟨hm, hk, hq⟩⟩

theorem itemMovements {initialItemCache finalItemCache : List (List Item)}
    {sections : SectionData} {linked r : ItemData} {marked : ItemPath → ItemAssociatedData}
    (h : LinkedItems initialItemCache finalItemCache linked)
    (hmark : MarkedItems initialItemCache sections linked initialItemCache.length marked)
    (hplace : PlacedItems sections { linked with initial := marked }
      (Visited finalItemCache sections finalItemCache.length) r)
    (hsettled : SettledItems sections { linked with initial := marked }
      (Visited finalItemCache sections finalItemCache.length) r)
    (hcount : ∀ k items, initialItemCache[k]? = some items →
      (sections.initial k).itemCount = items.length) :
    ItemMovements initialItemCache finalItemCache sections r := by
  have hinitial : ∀ p, (r.initial p).moveIndex = (linked.initial p).moveIndex := by
    intro p
    rw [hplace.initial]
    exact hmark.moveIndex_eq p
  have hfinal : ∀ q, (r.final q).moveIndex = (linked.final q).moveIndex := by
    intro q
    rw [hplace.final]
  have horigin : ∀ p q, StaysAt sections r p q →
      origin sections { linked with initial := marked } q = some p :=
    fun p q hs => (staysAt_iff_origin h hinitial hs.final).mp hs
  have hsame : ∀ p q, StaysAt sections r p q → SameItem initialItemCache finalItemCache p q := by
    intro p q hs
    rw [← h.initial, ← hinitial]
    exact hs.moveIndex
  have hvisited : ∀ p q, StaysAt sections r p q →
      Visited finalItemCache sections finalItemCache.length q :=
    fun p q hs => ⟨lt_of_item? (hsame p q hs).isSome_final, hs.final, (hsame p q hs).isSome_final⟩
  have hranked : ∀ (p : ItemPath) a, item? initialItemCache p.indexPath = some a →
      (sections.initial p.sectionIndex).moveIndex.isSome = true → ∃ n, p.itemIndex < n ∧
        Ranked (stays sections linked p.sectionIndex) (fun j => (marked ⟨p.sectionIndex, j⟩).event)
          (fun j => (marked ⟨p.sectionIndex, j⟩).indexAfterDelete) n
          (Nat.count (stays sections linked p.sectionIndex) n) := by
    intro p a ha hk
    obtain ⟨items, hitems, hj⟩ := Option.bind_eq_some_iff.mp ha
    exact ⟨items.length, (List.getElem?_eq_some_iff.mp hj).1, hmark.ranked p.sectionIndex
      (List.getElem?_eq_some_iff.mp hitems).1 hk items hitems⟩
  have hstays : ∀ p q, StaysAt sections r p q → stays sections linked p.sectionIndex p.itemIndex := by
    intro p q hs
    rw [stays, target, ← hinitial, hs.moveIndex, Option.filter_some, if_pos hs.final]
    rfl
  constructor
  · intro p q
    rw [hinitial, h.initial]
  · intro p q
    rw [hfinal, h.final]
  · intro p a ha hk hno
    obtain ⟨n, hj, hrank⟩ := hranked p a ha hk
    rw [hplace.waiting p fun q hv ho => hno q ((staysAt_iff_origin h hinitial hv.2.1).mpr ho)]
    refine hrank.deleted p.itemIndex hj fun hs => ?_
    obtain ⟨q, hq⟩ := Option.isSome_iff_exists.mp hs
    obtain ⟨hm, hf⟩ := Option.filter_eq_some_iff.mp hq
    exact hno q ⟨by rw [hinitial, ← hm], hk, hf⟩
  · intro q b hb hk hno
    have ha : (item? finalItemCache q.indexPath).isSome = true := by
      rw [hb]
      rfl
    refine hplace.inserted q ⟨lt_of_item? ha, hk, ha⟩ ?_
    rw [Option.eq_none_iff_forall_not_mem]
    exact fun p hp => hno p ((staysAt_iff_origin h hinitial hk).mpr hp)
  · intro p q hs
    exact hplace.placed q (hvisited p q hs) p (horigin p q hs)
  · intro p q hs
    obtain ⟨a, ha⟩ := Option.isSome_iff_exists.mp (hsame p q hs).isSome_initial
    obtain ⟨n, hj, hrank⟩ := hranked p a ha hs.initial
    rw [hplace.initial, count_stays_congr hinitial]
    exact hrank.index p.itemIndex hj (hstays p q hs)
  · intro p q hs
    exact hplace.automatic q (hvisited p q hs) p (horigin p q hs)
  · intro i j l hjl p q hp hq
    exact hplace.ordered i j l hjl (hvisited _ _ hp) (hvisited _ _ hq) p q (horigin _ _ hp)
      (horigin _ _ hq)
  · intro p q hs hsec hfirst
    obtain ⟨a, ha⟩ := Option.isSome_iff_exists.mp (hsame p q hs).isSome_initial
    obtain ⟨items, hitems, hj⟩ := Option.bind_eq_some_iff.mp ha
    have hlt := (List.getElem?_eq_some_iff.mp hj).1
    have hrank := hmark.ranked p.sectionIndex (List.getElem?_eq_some_iff.mp hitems).1 hs.initial
      items hitems
    refine hsettled q (hvisited p q hs) p (horigin p q hs) hsec ?_
      (hrank.kept p.itemIndex hlt (hstays p q hs)) fun l hl hu => ?_
    · rw [hcount p.sectionIndex items hitems]
      exact hlt
    · have hkept : stays sections linked p.sectionIndex l := by
        by_contra hn
        have hd := hrank.deleted l (hl.trans hlt) hn
        exact nomatch hu.symm.trans hd
      obtain ⟨j, hj, hstay⟩ := hfirst l hl ((stays_congr hinitial _ _).mpr hkept)
      exact ⟨j, hj, horigin _ _ hstay⟩

theorem calculateItemMovements_ends {SId : Type} [IdentifiableType Model SId] [DecidableEq IId]
    {initialSections finalSections : List (AnimatableSectionModel Model Item)}
    {sections : SectionData} (hs : SectionMovements initialSections finalSections sections) :
    (∃ d, calculateItemMovements (initialSections.map (·.items)) (finalSections.map (·.items))
          sections = (.ok d : Except (Error Model Item) ItemData) ∧
        ItemMovements (initialSections.map (·.items)) (finalSections.map (·.items)) sections d ∧
        DistinctItems (initialSections.map (·.items)) (finalSections.map (·.items))) ∨
      ∃ e : Error Model Item, calculateItemMovements (initialSections.map (·.items))
          (finalSections.map (·.items)) sections = .error e ∧
        (∃ item, e = .duplicateItem item) ∧
        ¬DistinctItems (initialSections.map (·.items)) (finalSections.map (·.items)) := by
  unfold calculateItemMovements
  obtain ⟨linked, hlinked, h, hdistinct⟩ | ⟨e, he, hkind, hdup⟩ :=
    (calculateAssociatedData_ends (initialSections.map (·.items)) (finalSections.map (·.items)) :
      _ ∨ ∃ e : Error Model Item, _)
  · rw [hlinked]
    have hinserted : InsertedOrMoved sections linked := by
      intro p q hq
      refine hs.inserted_iff ?_
      have hlt := lt_of_item? ((h.initial p q).mp hq).isSome_final
      rw [List.length_map] at hlt
      exact hlt
    have hdeleted : ∀ marked, DeletedOrMoved sections { linked with initial := marked } := by
      intro marked p q hq
      have hlt := lt_of_item? ((h.final p q).mp hq).isSome_initial
      rw [List.length_map] at hlt
      cases hk : (sections.initial p.sectionIndex).moveIndex with
      | none => exact .inl ⟨(hs.deleted_iff hlt).mpr hk, rfl⟩
      | some i => exact .inr ⟨hs.moves_initial (by rw [hk]; rfl), rfl⟩
    have hmark := markedItems (initialSections.map (·.items)) hinserted h.untouched
    have hinj : ∀ marked q r p, origin sections { linked with initial := marked } q = some p →
        origin sections { linked with initial := marked } r = some p → q = r := by
      intro marked q r p hq hr
      have hpq := (h.initial p q).mpr ((h.final p q).mp (Option.filter_eq_some_iff.mp hq).1)
      rw [(h.initial p r).mpr ((h.final p r).mp (Option.filter_eq_some_iff.mp hr).1)] at hpq
      exact (Option.some.inj hpq).symm
    obtain ⟨r, hr, hplace, hsettled⟩ := placedItems (finalSections.map (·.items)) (hdeleted _)
      (hinj ((initialSections.map (·.items)).zipIdx.foldl (markDeletedItems sections)
        linked.initial))
    have hcount : ∀ k items, (initialSections.map (·.items))[k]? = some items →
        (sections.initial k).itemCount = items.length := by
      intro k items hk
      rw [List.getElem?_map] at hk
      obtain ⟨a, ha, rfl⟩ := Option.map_eq_some_iff.mp hk
      exact hs.itemCount k a ha
    exact .inl ⟨r, bind_eq_ok.mpr ⟨linked, rfl, hr⟩,
      itemMovements h hmark hplace hsettled hcount, hdistinct⟩
  · rw [he]
    exact .inr ⟨e, rfl, hkind, hdup⟩

end Diff
end Karupasu.Differentiator
