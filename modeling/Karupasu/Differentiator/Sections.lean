import Karupasu.Differentiator.Diff
import Karupasu.Library.Matching
import Mathlib.Data.Nat.Count

/-!
# How the sections move

A section that has an identity of both lists is moved, by itself or with the others, and the
sections that move by themselves keep their order.
-/
namespace Karupasu.Differentiator.Diff

open Karupasu.Library.Loops
open Karupasu.Library (Matching.index Matching.link Matching.Indexes Matching.Links Matching.known)
open Karupasu.Library.Matching (foldlM_index foldlM_link)

/-! ## The next untouched index -/

theorem findNextUntouchedOldIndex_some {event : Nat → EditEvent} {count k : Nat} {start : Option Nat}
    (h : findNextUntouchedOldIndex event count start = some k) :
    ∃ s, start = some s ∧ s ≤ k ∧ k < count ∧ event k = .untouched := by
  cases start with
  | none => exact nomatch h
  | some s =>
    unfold findNextUntouchedOldIndex at h
    have hmem := List.mem_of_find?_eq_some h
    rw [List.mem_range'_1] at hmem
    have hevent := List.find?_some h
    exact ⟨s, rfl, hmem.1, by omega, of_decide_eq_true hevent⟩

/-- The search never comes back to `k`. -/
def Passed (start : Option Nat) (k : Nat) : Prop := ∀ s, start = some s → k ≤ s

theorem passed_next {event : Nat → EditEvent} {count k : Nat} {start : Option Nat}
    (h : Passed start k) : Passed (findNextUntouchedOldIndex event count start) k := by
  intro s hs
  obtain ⟨r, hr, hle, -, -⟩ := findNextUntouchedOldIndex_some hs
  have hk := h r hr
  omega

theorem lt_of_passed {event : Nat → EditEvent} {count k s : Nat} {start : Option Nat}
    (h : Passed start k) (hk : event k ≠ .untouched)
    (hs : findNextUntouchedOldIndex event count start = some s) : k < s := by
  refine lt_of_le_of_ne (passed_next h s hs) fun he => hk ?_
  obtain ⟨-, -, -, -, hu⟩ := findNextUntouchedOldIndex_some hs
  rw [he, hu]

/-- The search has not gone past an untouched index. -/
def Reaches (event : Nat → EditEvent) (count : Nat) (start : Option Nat) : Prop :=
  ∀ k < count, event k = .untouched → ∃ s, start = some s ∧ s ≤ k

theorem reaches_next {event : Nat → EditEvent} {count : Nat} {start : Option Nat}
    (h : Reaches event count start) :
    Reaches event count (findNextUntouchedOldIndex event count start) := by
  intro k hk hu
  obtain ⟨s, rfl, hle⟩ := h k hk hu
  have hmem : k ∈ List.range' s (count - s) := by
    rw [List.mem_range'_1]
    omega
  change ∃ r, (List.range' s (count - s)).find? (fun i => decide (event i = .untouched)) = some r ∧
    r ≤ k
  cases hf : (List.range' s (count - s)).find? fun i => decide (event i = .untouched) with
  | none => exact absurd (decide_eq_true hu) (List.find?_eq_none.mp hf k hmem)
  | some r =>
    refine ⟨r, rfl, ?_⟩
    obtain ⟨-, before, after, hrange, hbefore⟩ := List.find?_eq_some_iff_append.mp hf
    rw [hrange] at hmem
    rcases List.mem_append.mp hmem with hmem | hmem
    · have hne := hbefore k hmem
      rw [decide_eq_true hu] at hne
      exact absurd hne Bool.false_ne_true
    · rcases List.mem_cons.mp hmem with rfl | hmem
      · exact Nat.le_refl k
      · have hsorted : (List.range' s (count - s)).Pairwise (· < ·) := List.pairwise_lt_range'
        rw [hrange, List.pairwise_append, List.pairwise_cons] at hsorted
        exact (hsorted.2.1.1 k hmem).le

/-- The first untouched index is found. -/
theorem eq_some_of_reaches {event : Nat → EditEvent} {count k : Nat} {start : Option Nat}
    (h : Reaches event count start) (hk : k < count) (hu : event k = .untouched)
    (hfirst : ∀ l < k, event l ≠ .untouched) :
    findNextUntouchedOldIndex event count start = some k := by
  obtain ⟨r, hr, hle⟩ := reaches_next h k hk hu
  obtain ⟨-, -, -, -, hur⟩ := findNextUntouchedOldIndex_some hr
  rcases Nat.lt_or_eq_of_le hle with hlt | rfl
  · exact absurd hur (hfirst r hlt)
  · exact hr

theorem Reaches.mono {event event' : Nat → EditEvent} {count : Nat} {start : Option Nat}
    (h : Reaches event count start) (he : ∀ k, event' k = .untouched → event k = .untouched) :
    Reaches event' count start := fun k hk hu => h k hk (he k hu)

/-! ## Sections of the same identity -/

variable {Model Item SId : Type} [IdentifiableType Model SId]

def sectionIdentity (sec : AnimatableSectionModel Model Item) : SId := identity sec.model

def SameSection (initialSections finalSections : List (AnimatableSectionModel Model Item))
    (k i : Nat) : Prop :=
  ∃ a b, initialSections[k]? = some a ∧ finalSections[i]? = some b ∧
    sectionIdentity a = sectionIdentity b

variable [DecidableEq SId]

/-- The initial sections have different identities, and so have those final sections whose
identities are among them. -/
structure DistinctSections (initialSections finalSections : List (AnimatableSectionModel Model Item)) :
    Prop where
  initial : (initialSections.map sectionIdentity).Nodup
  final : ((finalSections.map sectionIdentity).filter fun c =>
    decide (c ∈ initialSections.map sectionIdentity)).Nodup

theorem map_key_zipIdx {α κ : Type} (key : α → κ) (l : List α) :
    l.zipIdx.map (fun p => key p.1) = l.map key := by
  have h := List.map_map (g := key) (f := Prod.fst) (l := l.zipIdx)
  rw [List.zipIdx_map_fst] at h
  exact h.symm

theorem nodup_snd_zipIdx {α : Type} (l : List α) : (l.zipIdx.map Prod.snd).Nodup := by
  rw [List.zipIdx_map_snd]
  exact List.nodup_range'

/-! ## The links -/

def sectionMoves (d : SectionData) : (Nat → Option Nat) × (Nat → Option Nat) :=
  (SectionAssociatedData.moveIndex ∘ d.initial, SectionAssociatedData.moveIndex ∘ d.final)

omit [DecidableEq SId] in
theorem sectionMoves_linkSection (indexes : SId → Option Nat) (d : SectionData)
    (p : AnimatableSectionModel Model Item × Nat) :
    (linkSection indexes d p).map sectionMoves =
      Matching.link sectionIdentity Error.duplicateSection indexes (sectionMoves d) p := by
  have hcount : SectionAssociatedData.moveIndex ∘ Function.update d.final p.2
      { d.final p.2 with itemCount := p.1.items.length } =
        SectionAssociatedData.moveIndex ∘ d.final := by
    rw [Function.comp_update]
    exact Function.update_eq_self p.2 _
  unfold linkSection Matching.link sectionIdentity
  cases indexes (identity p.1.model) with
  | none =>
    exact congrArg (fun final => Except.ok (SectionAssociatedData.moveIndex ∘ d.initial, final)) hcount
  | some k =>
    change Except.map sectionMoves (if (d.initial k).moveIndex.isSome = true then _ else _) =
      if (d.initial k).moveIndex.isSome = true then _ else _
    by_cases hk : (d.initial k).moveIndex.isSome = true
    · rw [if_pos hk, if_pos hk]
      rfl
    · rw [if_neg hk, if_neg hk]
      refine congrArg Except.ok (Prod.ext ?_ ?_)
      · exact Function.comp_update SectionAssociatedData.moveIndex d.initial k _
      · exact (Function.comp_update SectionAssociatedData.moveIndex _ p.2 _).trans (by rw [hcount]; rfl)

structure LinkedSections (initialSections finalSections : List (AnimatableSectionModel Model Item))
    (d : SectionData) : Prop where
  initial : ∀ k i, (d.initial k).moveIndex = some i ↔ SameSection initialSections finalSections k i
  final : ∀ k i, (d.final i).moveIndex = some k ↔ SameSection initialSections finalSections k i
  untouched : ∀ k, (d.initial k).event = .untouched

omit [DecidableEq SId] in
theorem sameSection_iff {initialSections finalSections : List (AnimatableSectionModel Model Item)}
    {indexes : SId → Option Nat}
    (h : Matching.Indexes sectionIdentity initialSections.zipIdx indexes) (k i : Nat) :
    (∃ b, (b, i) ∈ finalSections.zipIdx ∧ indexes (sectionIdentity b) = some k) ↔
      SameSection initialSections finalSections k i := by
  simp only [h.lookup, List.mem_zipIdx_iff_getElem?]
  exact ⟨fun ⟨b, hb, a, ha, he⟩ => ⟨a, b, ha, hb, he⟩, fun ⟨a, b, ha, hb, he⟩ => ⟨b, hb, a, ha, he⟩⟩

theorem known_zipIdx {initialSections finalSections : List (AnimatableSectionModel Model Item)}
    {indexes : SId → Option Nat}
    (h : Matching.Indexes sectionIdentity initialSections.zipIdx indexes) :
    Matching.known sectionIdentity indexes finalSections.zipIdx =
      (finalSections.map sectionIdentity).filter fun c =>
        decide (c ∈ initialSections.map sectionIdentity) := by
  unfold Matching.known
  rw [map_key_zipIdx]
  refine List.filter_congr fun c _ => ?_
  rw [h.isSome_iff, map_key_zipIdx]

omit [IdentifiableType Model SId] [DecidableEq SId] in
theorem untouched_update {initial : Nat → SectionAssociatedData} {k : Nat}
    {data : SectionAssociatedData} (h : ∀ k, (initial k).event = .untouched)
    (hdata : data.event = .untouched) (l : Nat) :
    (Function.update initial k data l).event = .untouched := by
  by_cases hl : l = k
  · rw [hl, Function.update_self, hdata]
  · rw [Function.update_of_ne hl, h]

omit [DecidableEq SId] in
theorem untouched_linkSection {indexes : SId → Option Nat} {c d : SectionData}
    {p : AnimatableSectionModel Model Item × Nat} (h : ∀ k, (c.initial k).event = .untouched)
    (hd : linkSection indexes c p = .ok d) (k : Nat) : (d.initial k).event = .untouched := by
  unfold linkSection at hd
  cases hi : indexes (identity p.1.model) with
  | none =>
    rw [hi] at hd
    obtain rfl := Except.ok.inj hd
    exact h k
  | some j =>
    simp only [hi] at hd
    split at hd
    · exact nomatch hd
    · obtain rfl := Except.ok.inj hd
      apply untouched_update h
      exact h j

/-- The second loop over the final sections. -/
theorem foldlM_linkSection {initialSections : List (AnimatableSectionModel Model Item)}
    {indexes : SId → Option Nat}
    (h : Matching.Indexes sectionIdentity initialSections.zipIdx indexes)
    (finalSections : List (AnimatableSectionModel Model Item)) :
    (∃ d, finalSections.zipIdx.foldlM (linkSection indexes) {} = .ok d ∧
        LinkedSections initialSections finalSections d ∧
        DistinctSections initialSections finalSections) ∨
      ∃ e, finalSections.zipIdx.foldlM (linkSection indexes) {} = .error e ∧
        (∃ sec, e = .duplicateSection sec) ∧ ¬DistinctSections initialSections finalSections := by
  have hmap := foldlM_map (ε := Error Model Item) sectionMoves (sectionMoves_linkSection indexes)
    finalSections.zipIdx {}
  have hinj := h.injective (nodup_snd_zipIdx initialSections)
  have hnodup := h.nodup
  rw [map_key_zipIdx] at hnodup
  obtain ⟨t, ht, hlinks⟩ | ⟨e, he, ⟨p, -, rfl⟩, hdup⟩ :=
    foldlM_link hinj Error.duplicateSection finalSections.zipIdx
  · obtain ⟨d, hd, rfl⟩ := eq_ok_of_map (hmap.trans ht)
    refine .inl ⟨d, hd, ⟨fun k i => ?_, fun k i => ?_, ?_⟩, hnodup, ?_⟩
    · exact (hlinks.there k i).trans (sameSection_iff h k i)
    · exact (hlinks.back (nodup_snd_zipIdx finalSections) k i).trans (sameSection_iff h k i)
    · exact foldlM_turns (P := fun _ d => ∀ k, (d.initial k).event = .untouched) (fun _ => rfl)
        (fun _ _ _ _ _ hp hc => untouched_linkSection hp hc) hd
    · rw [← known_zipIdx h]
      exact hlinks.nodup
  · refine .inr ⟨_, eq_error_of_map (hmap.trans he), ⟨p.1, rfl⟩, fun hd => hdup ?_⟩
    rw [known_zipIdx h]
    exact hd.final

/-! ## The deleted sections -/

/-- Turns over a list that mark what is not kept and number the rest. -/
structure Ranked (keep : Nat → Prop) [DecidablePred keep] (event : Nat → EditEvent)
    (indexAfterDelete : Nat → Option Nat) (turns rank : Nat) : Prop where
  rank_eq : rank = Nat.count keep turns
  later : ∀ k, turns ≤ k → event k = .untouched
  deleted : ∀ k < turns, ¬keep k → event k = .deleted
  kept : ∀ k < turns, keep k → event k = .untouched
  index : ∀ k < turns, keep k → indexAfterDelete k = some (Nat.count keep k)

theorem Ranked.turn {keep : Nat → Prop} [DecidablePred keep] {event event' : Nat → EditEvent}
    {index index' : Nat → Option Nat} {turns rank rank' : Nat}
    (h : Ranked keep event index turns rank)
    (hevent : ∀ k, k ≠ turns → event' k = event k) (hindex : ∀ k, k ≠ turns → index' k = index k)
    (hdelete : ¬keep turns → event' turns = .deleted ∧ rank' = rank)
    (hkeep : keep turns → event' turns = .untouched ∧ index' turns = some rank ∧ rank' = rank + 1) :
    Ranked keep event' index' (turns + 1) rank' := by
  have hold : ∀ k < turns + 1, k ≠ turns → k < turns := fun k hk hne => by omega
  constructor
  · rw [Nat.count_succ, ← h.rank_eq]
    by_cases hk : keep turns
    · rw [if_pos hk, (hkeep hk).2.2]
    · rw [if_neg hk, (hdelete hk).2, Nat.add_zero]
  · intro k hk
    rw [hevent k (by omega), h.later k (by omega)]
  · intro k hk hn
    by_cases he : k = turns
    · rw [he] at hn ⊢
      exact (hdelete hn).1
    · rw [hevent k he, h.deleted k (hold k hk he) hn]
  · intro k hk hn
    by_cases he : k = turns
    · rw [he] at hn ⊢
      exact (hkeep hn).1
    · rw [hevent k he, h.kept k (hold k hk he) hn]
  · intro k hk hn
    by_cases he : k = turns
    · rw [he] at hn ⊢
      rw [(hkeep hn).2.1, h.rank_eq]
    · rw [hindex k he, h.index k (hold k hk he) hn]

/-- What is known of the initial sections after some turns over them. -/
structure MarkedSections (sections : List (AnimatableSectionModel Model Item))
    (moveIndex : Nat → Option Nat) (turns : Nat) (s : (Nat → SectionAssociatedData) × Nat) :
    Prop where
  ranked : Ranked (fun k => (moveIndex k).isSome = true) (fun k => (s.1 k).event)
    (fun k => (s.1 k).indexAfterDelete) turns s.2
  moveIndex_eq : ∀ k, (s.1 k).moveIndex = moveIndex k
  itemCount : ∀ k < turns, ∀ a, sections[k]? = some a → (s.1 k).itemCount = a.items.length

omit [IdentifiableType Model SId] [DecidableEq SId]

theorem markedSections_turn {sections : List (AnimatableSectionModel Model Item)}
    {moveIndex : Nat → Option Nat} {turns : Nat} {s : (Nat → SectionAssociatedData) × Nat}
    {p : AnimatableSectionModel Model Item × Nat} (hp : sections.zipIdx[turns]? = some p)
    (h : MarkedSections sections moveIndex turns s) :
    MarkedSections sections moveIndex (turns + 1) (markDeletedSection s p) := by
  obtain ⟨ha, rfl⟩ := getElem?_zipIdx_eq_some.mp hp
  have hm := h.moveIndex_eq p.2
  have hoff : ∀ k, k ≠ p.2 → (markDeletedSection s p).1 k = s.1 k := by
    intro k hk
    unfold markDeletedSection
    cases hs : (s.1 p.2).moveIndex with
    | none => simp only [hs, Function.update_of_ne hk]
    | some i => simp only [hs, Function.update_of_ne hk]
  have hdelete : moveIndex p.2 = none →
      (markDeletedSection s p).1 p.2 =
        { s.1 p.2 with itemCount := p.1.items.length, event := .deleted } ∧
      (markDeletedSection s p).2 = s.2 := by
    intro hn
    unfold markDeletedSection
    simp only [hm, hn, Function.update_self, and_self]
  have hkeep : ∀ i, moveIndex p.2 = some i →
      (markDeletedSection s p).1 p.2 =
        { s.1 p.2 with itemCount := p.1.items.length, indexAfterDelete := some s.2 } ∧
      (markDeletedSection s p).2 = s.2 + 1 := by
    intro i hi
    unfold markDeletedSection
    simp only [hm, hi, Function.update_self, and_self]
  constructor
  · refine h.ranked.turn (fun k hk => by rw [hoff k hk]) (fun k hk => by rw [hoff k hk]) ?_ ?_
    · intro hn
      obtain ⟨hd, hr⟩ := hdelete (Option.not_isSome_iff_eq_none.mp hn)
      exact ⟨by rw [hd], hr⟩
    · intro hs
      obtain ⟨i, hi⟩ := Option.isSome_iff_exists.mp hs
      obtain ⟨hd, hr⟩ := hkeep i hi
      have hu := h.ranked.later p.2 (Nat.le_refl _)
      exact ⟨by rw [hd]; exact hu, by rw [hd], hr⟩
  · intro k
    by_cases hk : k = p.2
    · subst hk
      cases hn : moveIndex p.2 with
      | none => rw [(hdelete hn).1, ← hn, ← hm]
      | some i => rw [(hkeep i hn).1, ← hn, ← hm]
    · rw [hoff k hk, h.moveIndex_eq]
  · intro k hk a hget
    by_cases he : k = p.2
    · subst he
      obtain rfl := Option.some.inj (ha.symm.trans hget)
      cases hn : moveIndex p.2 with
      | none => rw [(hdelete hn).1]
      | some i => rw [(hkeep i hn).1]
    · rw [hoff k he, h.itemCount k (by omega) a hget]

theorem markedSections (sections : List (AnimatableSectionModel Model Item))
    {initial : Nat → SectionAssociatedData} (h : ∀ k, (initial k).event = .untouched) :
    MarkedSections sections (fun k => (initial k).moveIndex) sections.length
      (sections.zipIdx.foldl markDeletedSection (initial, 0)) := by
  have hturns := foldl_turns (P := MarkedSections sections fun k => (initial k).moveIndex)
    (f := markDeletedSection) (b := (initial, 0)) ?_ sections.zipIdx
    fun k p s hp hs => markedSections_turn hp hs
  · rw [List.length_zipIdx] at hturns
    exact hturns
  · exact ⟨⟨rfl, fun k _ => h k, fun k hk => absurd hk (Nat.not_lt_zero k),
      fun k hk => absurd hk (Nat.not_lt_zero k), fun k hk => absurd hk (Nat.not_lt_zero k)⟩,
      fun _ => rfl, fun k hk => absurd hk (Nat.not_lt_zero k)⟩

/-! ## The moved sections -/

def Moves (event : EditEvent) : Prop := event = .moved ∨ event = .movedAutomatically

theorem Moves.ne_untouched {event : EditEvent} (h : Moves event) : event ≠ .untouched := by
  rcases h with rfl | rfl
  · exact nofun
  · exact nofun

/-- What is known after some turns over the final sections, which began from `d`. -/
structure PlacedSections (d : SectionData) (turns : Nat) (s : Option Nat × SectionData) : Prop where
  initial : ∀ k, s.2.initial k = { d.initial k with event := (s.2.initial k).event }
  final : ∀ i, s.2.final i = { d.final i with event := (s.2.final i).event }
  waiting : ∀ k, (∀ i < turns, (d.final i).moveIndex ≠ some k) →
    (s.2.initial k).event = (d.initial k).event
  inserted : ∀ i < turns, (d.final i).moveIndex = none → (s.2.final i).event = .inserted
  placed : ∀ i < turns, ∀ k, (d.final i).moveIndex = some k →
    Moves (s.2.final i).event ∧ (s.2.initial k).event = (s.2.final i).event
  passed : ∀ i < turns, ∀ k, (d.final i).moveIndex = some k →
    (s.2.final i).event = .movedAutomatically → Passed s.1 k
  automatic : ∀ i j, i < j → j < turns → ∀ k l, (d.final i).moveIndex = some k →
    (d.final j).moveIndex = some l → (s.2.final i).event = .movedAutomatically →
    (s.2.final j).event = .movedAutomatically → k < l

theorem PlacedSections.moveIndex_eq {d : SectionData} {turns : Nat}
    {s : Option Nat × SectionData} (h : PlacedSections d turns s) (i : Nat) :
    (s.2.final i).moveIndex = (d.final i).moveIndex := by
  rw [h.final i]

theorem placeSection_inserted (count : Nat) {s : Option Nat × SectionData} {i : Nat}
    (hm : (s.2.final i).moveIndex = none) :
    placeSection count s i =
      (findNextUntouchedOldIndex (fun k => (s.2.initial k).event) count s.1,
        { s.2 with
          final := Function.update s.2.final i { s.2.final i with event := .inserted } }) := by
  unfold placeSection
  simp only [hm]

theorem placeSection_moved {count old i : Nat} {s : Option Nat × SectionData}
    {untouched : Option Nat} {moveType : EditEvent} (hm : (s.2.final i).moveIndex = some old)
    (hu : findNextUntouchedOldIndex (fun k => (s.2.initial k).event) count s.1 = untouched)
    (ht : (if some old ≠ untouched then .moved else .movedAutomatically) = moveType) :
    placeSection count s i =
      (untouched, {
        initial := Function.update s.2.initial old { s.2.initial old with event := moveType }
        final := Function.update s.2.final i { s.2.final i with event := moveType } }) := by
  unfold placeSection
  rw [hu, ← ht]
  simp only [hm]

theorem placedSections_insert {d : SectionData} {turns count : Nat} {s : Option Nat × SectionData}
    (h : PlacedSections d turns s) (hi : (d.final turns).moveIndex = none) :
    PlacedSections d (turns + 1) (placeSection count s turns) := by
  have hplace := placeSection_inserted count ((h.moveIndex_eq turns).trans hi)
  have hlt : ∀ i < turns + 1, ∀ k, (d.final i).moveIndex = some k → i < turns := by
    intro i hlt k hk
    refine lt_of_le_of_ne (Nat.le_of_lt_succ hlt) fun he => ?_
    rw [he, hi] at hk
    exact nomatch hk
  have hold : ∀ i, i ≠ turns → (placeSection count s turns).2.final i = s.2.final i := by
    intro i hne
    rw [hplace]
    exact Function.update_of_ne hne _ _
  have hinitial : (placeSection count s turns).2.initial = s.2.initial := by rw [hplace]
  constructor
  · rw [hinitial]
    exact h.initial
  · intro i
    by_cases he : i = turns
    · rw [he, hplace]
      simp only [Function.update_self]
      rw [h.final turns]
    · rw [hold i he, ← h.final i]
  · intro k hk
    rw [hinitial]
    exact h.waiting k fun i hlt => hk i (by omega)
  · intro i hlt hn
    by_cases he : i = turns
    · rw [he, hplace]
      simp only [Function.update_self]
    · rw [hold i he]
      exact h.inserted i (by omega) hn
  · intro i hi' k hk
    have hi := hlt i hi' k hk
    rw [hold i hi.ne, hinitial]
    exact h.placed i hi k hk
  · intro i hi' k hk he
    have hi := hlt i hi' k hk
    rw [hold i hi.ne] at he
    rw [hplace]
    exact passed_next (h.passed i hi k hk he)
  · intro i j hij hj' k l hk hl hei hej
    have hj := hlt j hj' l hl
    rw [hold i (by omega)] at hei
    rw [hold j hj.ne] at hej
    exact h.automatic i j hij hj k l hk hl hei hej

theorem placedSections_move {d : SectionData} {turns count old : Nat}
    {s : Option Nat × SectionData}
    (hinj : ∀ i j k, (d.final i).moveIndex = some k → (d.final j).moveIndex = some k → i = j)
    (h : PlacedSections d turns s) (hi : (d.final turns).moveIndex = some old) :
    PlacedSections d (turns + 1) (placeSection count s turns) := by
  obtain ⟨untouched, hu⟩ : ∃ untouched,
      findNextUntouchedOldIndex (fun k => (s.2.initial k).event) count s.1 = untouched := ⟨_, rfl⟩
  obtain ⟨moveType, ht⟩ : ∃ moveType : EditEvent,
      (if some old ≠ untouched then .moved else .movedAutomatically) = moveType := ⟨_, rfl⟩
  have hplace := placeSection_moved ((h.moveIndex_eq turns).trans hi) hu ht
  have hmoves : Moves moveType := by
    rw [← ht]
    split
    · exact .inl rfl
    · exact .inr rfl
  have hauto : moveType = .movedAutomatically → untouched = some old := by
    intro he
    rw [← ht] at he
    split at he
    · exact nomatch he
    · rename_i hn
      exact (not_not.mp hn).symm
  have hfinal : ∀ i, i ≠ turns → (placeSection count s turns).2.final i = s.2.final i := by
    intro i hne
    rw [hplace]
    exact Function.update_of_ne hne _ _
  have hinitial : ∀ k, k ≠ old → (placeSection count s turns).2.initial k = s.2.initial k := by
    intro k hne
    rw [hplace]
    exact Function.update_of_ne hne _ _
  have hother : ∀ i < turns, ∀ k, (d.final i).moveIndex = some k → k ≠ old := by
    rintro i hlt k hk rfl
    have he := hinj i turns k hk hi
    omega
  have hpassed : ∀ i < turns, ∀ k, (d.final i).moveIndex = some k →
      (s.2.final i).event = .movedAutomatically → Passed untouched k := by
    intro i hlt k hk he
    rw [← hu]
    exact passed_next (h.passed i hlt k hk he)
  constructor
  · intro k
    by_cases he : k = old
    · rw [he, hplace]
      simp only [Function.update_self]
      rw [h.initial old]
    · rw [hinitial k he, ← h.initial k]
  · intro i
    by_cases he : i = turns
    · rw [he, hplace]
      simp only [Function.update_self]
      rw [h.final turns]
    · rw [hfinal i he, ← h.final i]
  · intro k hk
    have hne : k ≠ old := fun he => hk turns (Nat.lt_succ_self turns) (by rw [he, hi])
    rw [hinitial k hne]
    exact h.waiting k fun i hlt => hk i (by omega)
  · intro i hlt hn
    have hne : i ≠ turns := fun he => by rw [he, hi] at hn; exact nomatch hn
    rw [hfinal i hne]
    exact h.inserted i (by omega) hn
  · intro i hlt k hk
    by_cases he : i = turns
    · rw [he, hi] at hk
      obtain rfl := Option.some.inj hk
      rw [he, hplace]
      simp only [Function.update_self, and_true]
      exact hmoves
    · have hlt' : i < turns := by omega
      rw [hfinal i he, hinitial k (hother i hlt' k hk)]
      exact h.placed i hlt' k hk
  · intro i hlt k hk hev
    by_cases he : i = turns
    · rw [he, hi] at hk
      obtain rfl := Option.some.inj hk
      rw [he, hplace] at hev
      simp only [Function.update_self] at hev
      rw [hplace, hauto hev]
      exact fun r hr => (Option.some.inj hr).le
    · rw [hfinal i he] at hev
      rw [hplace]
      exact hpassed i (by omega) k hk hev
  · intro i j hij hlt k l hk hl hei hej
    have hlt' : i < turns := by omega
    rw [hfinal i hlt'.ne] at hei
    by_cases he : j = turns
    · rw [he, hi] at hl
      obtain rfl := Option.some.inj hl
      rw [he, hplace] at hej
      simp only [Function.update_self] at hej
      have hne := (h.placed i hlt' k hk).1.ne_untouched
      rw [← (h.placed i hlt' k hk).2] at hne
      exact lt_of_passed (h.passed i hlt' k hk hei) hne (hu.trans (hauto hej))
    · rw [hfinal j he] at hej
      exact h.automatic i j hij (by omega) k l hk hl hei hej

theorem placedSections {d : SectionData}
    (hinj : ∀ i j k, (d.final i).moveIndex = some k → (d.final j).moveIndex = some k → i = j)
    (initialCount finalCount : Nat) :
    PlacedSections d finalCount
      ((List.range finalCount).foldl (placeSection initialCount) (some 0, d)) := by
  have hturns := foldl_turns (P := PlacedSections d) (f := placeSection initialCount)
    (b := (some 0, d)) ?_ (List.range finalCount) ?_
  · rw [List.length_range] at hturns
    exact hturns
  · exact ⟨fun _ => rfl, fun _ => rfl, fun _ _ => rfl, fun i hi => absurd hi (Nat.not_lt_zero i),
      fun i hi => absurd hi (Nat.not_lt_zero i), fun i hi => absurd hi (Nat.not_lt_zero i),
      fun i j _ hj => absurd hj (Nat.not_lt_zero j)⟩
  · intro turns i s hi h
    obtain ⟨-, rfl⟩ := getElem?_range_eq_some.mp hi
    cases hm : (d.final i).moveIndex with
    | none => exact placedSections_insert h hm
    | some old => exact placedSections_move hinj h hm

/-- A section moves by itself where each initial section before its own is deleted or has been
moved earlier. -/
structure SettledSections (d : SectionData) (count turns : Nat) (s : Option Nat × SectionData) :
    Prop where
  reaches : Reaches (fun k => (s.2.initial k).event) count s.1
  settled : ∀ i < turns, ∀ k < count, (d.final i).moveIndex = some k →
    (d.initial k).event = .untouched →
    (∀ l < k, (d.initial l).event = .untouched → ∃ j < i, (d.final j).moveIndex = some l) →
    (s.2.final i).event = .movedAutomatically

theorem settledSections_insert {d : SectionData} {turns count : Nat}
    {s : Option Nat × SectionData} (hplaced : PlacedSections d turns s)
    (h : SettledSections d count turns s) (hi : (d.final turns).moveIndex = none) :
    SettledSections d count (turns + 1) (placeSection count s turns) := by
  have hplace := placeSection_inserted count ((hplaced.moveIndex_eq turns).trans hi)
  rw [hplace]
  refine ⟨reaches_next h.reaches, fun i hlt k hk hm hu hbefore => ?_⟩
  have hne : i ≠ turns := by
    rintro rfl
    rw [hi] at hm
    exact nomatch hm
  simp only [Function.update_of_ne hne]
  exact h.settled i (by omega) k hk hm hu hbefore

theorem settledSections_move {d : SectionData} {turns count old : Nat}
    {s : Option Nat × SectionData}
    (hinj : ∀ i j k, (d.final i).moveIndex = some k → (d.final j).moveIndex = some k → i = j)
    (hplaced : PlacedSections d turns s) (h : SettledSections d count turns s)
    (hi : (d.final turns).moveIndex = some old) :
    SettledSections d count (turns + 1) (placeSection count s turns) := by
  obtain ⟨untouched, hu⟩ : ∃ untouched,
      findNextUntouchedOldIndex (fun k => (s.2.initial k).event) count s.1 = untouched := ⟨_, rfl⟩
  obtain ⟨moveType, ht⟩ : ∃ moveType : EditEvent,
      (if some old ≠ untouched then .moved else .movedAutomatically) = moveType := ⟨_, rfl⟩
  have hplace := placeSection_moved ((hplaced.moveIndex_eq turns).trans hi) hu ht
  have htouched : moveType ≠ .untouched := by
    rw [← ht]
    split
    · exact nofun
    · exact nofun
  have hreaches := reaches_next h.reaches
  rw [hu] at hreaches
  rw [hplace]
  refine ⟨hreaches.mono fun k hk => ?_, fun i hlt k hk hm huntouched hbefore => ?_⟩
  · by_cases he : k = old
    · rw [he] at hk
      simp only [Function.update_self] at hk
      exact absurd hk htouched
    · simp only [Function.update_of_ne he] at hk
      exact hk
  · by_cases he : i = turns
    · subst he
      obtain rfl := Option.some.inj (hi.symm.trans hm)
      -- the search stops at the section that is moved now
      have hnow : (s.2.initial old).event = .untouched := by
        rw [hplaced.waiting old fun j hj hjold => hj.ne (hinj j i old hjold hi)]
        exact huntouched
      have hfirst : ∀ l < old, (s.2.initial l).event ≠ .untouched := by
        intro l hl
        by_cases hmoved : ∃ j < i, (d.final j).moveIndex = some l
        · obtain ⟨j, hj, hjl⟩ := hmoved
          obtain ⟨hmoves, heq⟩ := hplaced.placed j hj l hjl
          rw [heq]
          exact hmoves.ne_untouched
        · rw [hplaced.waiting l fun j hj hjl => hmoved ⟨j, hj, hjl⟩]
          exact fun hlu => hmoved (hbefore l hl hlu)
      have hfound := eq_some_of_reaches h.reaches hk hnow hfirst
      rw [hu] at hfound
      simp only [Function.update_self]
      rw [← ht, hfound, if_neg (not_not.mpr rfl)]
    · simp only [Function.update_of_ne he]
      exact h.settled i (by omega) k hk hm huntouched hbefore

theorem settledSections {d : SectionData}
    (hinj : ∀ i j k, (d.final i).moveIndex = some k → (d.final j).moveIndex = some k → i = j)
    (initialCount finalCount : Nat) :
    SettledSections d initialCount finalCount
      ((List.range finalCount).foldl (placeSection initialCount) (some 0, d)) := by
  have hturns := foldl_turns
    (P := fun turns s => PlacedSections d turns s ∧ SettledSections d initialCount turns s)
    (f := placeSection initialCount) (b := (some 0, d)) ?_ (List.range finalCount) ?_
  · rw [List.length_range] at hturns
    exact hturns.2
  · have hstart := placedSections hinj initialCount 0
    exact ⟨hstart, fun k _ _ => ⟨0, rfl, Nat.zero_le k⟩, fun i hi => absurd hi (Nat.not_lt_zero i)⟩
  · rintro turns i s hi ⟨hplaced, h⟩
    obtain ⟨-, rfl⟩ := getElem?_range_eq_some.mp hi
    cases hm : (d.final i).moveIndex with
    | none => exact ⟨placedSections_insert hplaced hm, settledSections_insert hplaced h hm⟩
    | some old =>
      exact ⟨placedSections_move hinj hplaced hm, settledSections_move hinj hplaced h hm⟩

/-! ## All movements -/

variable [IdentifiableType Model SId]

/-- What becomes of the sections. -/
structure SectionMovements (initialSections finalSections : List (AnimatableSectionModel Model Item))
    (d : SectionData) : Prop where
  initial : ∀ k i, (d.initial k).moveIndex = some i ↔ SameSection initialSections finalSections k i
  final : ∀ k i, (d.final i).moveIndex = some k ↔ SameSection initialSections finalSections k i
  itemCount : ∀ k a, initialSections[k]? = some a → (d.initial k).itemCount = a.items.length
  deleted : ∀ k < initialSections.length, (d.initial k).moveIndex = none →
    (d.initial k).event = .deleted
  inserted : ∀ i < finalSections.length, (d.final i).moveIndex = none →
    (d.final i).event = .inserted
  moved : ∀ k i, (d.final i).moveIndex = some k →
    Moves (d.final i).event ∧ (d.initial k).event = (d.final i).event
  indexAfterDelete : ∀ k i, (d.final i).moveIndex = some k → (d.initial k).indexAfterDelete =
    some (Nat.count (fun l => (d.initial l).moveIndex.isSome = true) k)
  automatic : ∀ i j, i < j → ∀ k l, (d.final i).moveIndex = some k →
    (d.final j).moveIndex = some l → (d.final i).event = .movedAutomatically →
    (d.final j).event = .movedAutomatically → k < l
  settled : ∀ k i, (d.final i).moveIndex = some k →
    (∀ l < k, (d.initial l).moveIndex.isSome = true → ∃ j < i, (d.final j).moveIndex = some l) →
    (d.final i).event = .movedAutomatically

theorem SameSection.lt_initial {initialSections finalSections : List (AnimatableSectionModel Model Item)}
    {k i : Nat} (h : SameSection initialSections finalSections k i) :
    k < initialSections.length := by
  obtain ⟨a, b, ha, -⟩ := h
  exact (List.getElem?_eq_some_iff.mp ha).1

theorem SameSection.lt_final {initialSections finalSections : List (AnimatableSectionModel Model Item)}
    {k i : Nat} (h : SameSection initialSections finalSections k i) : i < finalSections.length := by
  obtain ⟨a, b, -, hb, -⟩ := h
  exact (List.getElem?_eq_some_iff.mp hb).1

namespace SectionMovements

variable {initialSections finalSections : List (AnimatableSectionModel Model Item)} {d : SectionData}

theorem swap (h : SectionMovements initialSections finalSections d) {k i : Nat} :
    (d.initial k).moveIndex = some i ↔ (d.final i).moveIndex = some k := by
  rw [h.initial, h.final]

theorem deleted_iff (h : SectionMovements initialSections finalSections d) {k : Nat}
    (hk : k < initialSections.length) :
    (d.initial k).event = .deleted ↔ (d.initial k).moveIndex = none := by
  refine ⟨fun he => ?_, h.deleted k hk⟩
  cases hm : (d.initial k).moveIndex with
  | none => rfl
  | some i =>
    obtain ⟨hmoves, heq⟩ := h.moved k i (h.swap.mp hm)
    rw [← heq, he] at hmoves
    rcases hmoves with hmoves | hmoves
    · exact nomatch hmoves
    · exact nomatch hmoves

theorem inserted_iff (h : SectionMovements initialSections finalSections d) {i : Nat}
    (hi : i < finalSections.length) :
    (d.final i).event = .inserted ↔ (d.final i).moveIndex = none := by
  refine ⟨fun he => ?_, h.inserted i hi⟩
  cases hm : (d.final i).moveIndex with
  | none => rfl
  | some k =>
    have hmoves := (h.moved k i hm).1
    rw [he] at hmoves
    rcases hmoves with hmoves | hmoves
    · exact nomatch hmoves
    · exact nomatch hmoves

theorem moves_initial (h : SectionMovements initialSections finalSections d) {k : Nat}
    (hk : (d.initial k).moveIndex.isSome = true) : Moves (d.initial k).event := by
  obtain ⟨i, hi⟩ := Option.isSome_iff_exists.mp hk
  obtain ⟨hmoves, heq⟩ := h.moved k i (h.swap.mp hi)
  rw [heq]
  exact hmoves

end SectionMovements

theorem sectionMovements {initialSections finalSections : List (AnimatableSectionModel Model Item)}
    {linked : SectionData} {m : (Nat → SectionAssociatedData) × Nat} {r : Option Nat × SectionData}
    (h : LinkedSections initialSections finalSections linked)
    (hmark : MarkedSections initialSections (fun k => (linked.initial k).moveIndex)
      initialSections.length m)
    (hplace : PlacedSections { linked with initial := m.1 } finalSections.length r)
    (hsettled : SettledSections { linked with initial := m.1 } initialSections.length
      finalSections.length r) :
    SectionMovements initialSections finalSections r.2 := by
  have hfinal : ∀ i, (r.2.final i).moveIndex = (linked.final i).moveIndex := by
    intro i
    rw [hplace.final i]
  have hinitial : ∀ k, (r.2.initial k).moveIndex = (linked.initial k).moveIndex := by
    intro k
    rw [hplace.initial k]
    exact hmark.moveIndex_eq k
  have hlt : ∀ i k, (linked.final i).moveIndex = some k → i < finalSections.length :=
    fun i k hk => ((h.final k i).mp hk).lt_final
  constructor
  · intro k i
    rw [hinitial, h.initial]
  · intro k i
    rw [hfinal, h.final]
  · intro k a ha
    rw [hplace.initial k]
    exact hmark.itemCount k (List.getElem?_eq_some_iff.mp ha).1 a ha
  · intro k hk hn
    rw [hinitial] at hn
    rw [hplace.waiting k]
    · exact hmark.ranked.deleted k hk (by rw [hn]; exact nofun)
    · intro i _ hi
      rw [(h.initial k i).mpr ((h.final k i).mp hi)] at hn
      exact nomatch hn
  · intro i hi hn
    rw [hfinal] at hn
    exact hplace.inserted i hi hn
  · intro k i hk
    rw [hfinal] at hk
    exact hplace.placed i (hlt i k hk) k hk
  · intro k i hk
    rw [hfinal, h.final] at hk
    have hs : ((linked.initial k).moveIndex).isSome = true := by
      rw [(h.initial k i).mpr hk]
      rfl
    rw [hplace.initial k]
    simp only [hinitial]
    exact hmark.ranked.index k hk.lt_initial hs
  · intro i j hij k l hk hl hi hj
    rw [hfinal] at hk hl
    exact hplace.automatic i j hij (hlt j l hl) k l hk hl hi hj
  · intro k i hk hbefore
    rw [hfinal] at hk
    have hsame := (h.final k i).mp hk
    have hkept : ∀ l < initialSections.length, (m.1 l).event = .untouched ↔
        (linked.initial l).moveIndex.isSome = true := by
      intro l hl
      refine ⟨fun hu => ?_, hmark.ranked.kept l hl⟩
      by_contra hn
      rw [hmark.ranked.deleted l hl hn] at hu
      exact nomatch hu
    refine hsettled.settled i (hlt i k hk) k hsame.lt_initial hk
      ((hkept k hsame.lt_initial).mpr ?_) fun l hl hu => ?_
    · rw [(h.initial k i).mpr hsame]
      rfl
    · have hs := (hkept l (hl.trans hsame.lt_initial)).mp hu
      rw [← hinitial] at hs
      obtain ⟨j, hj, hjl⟩ := hbefore l hl hs
      exact ⟨j, hj, by rw [← hfinal]; exact hjl⟩

variable [DecidableEq SId]

theorem indexSection_eq :
    (indexSection : _ → AnimatableSectionModel Model Item × Nat → _) =
      Matching.index sectionIdentity fun _ => Error.duplicateSection := by
  funext m p
  unfold indexSection Matching.index sectionIdentity
  cases m (identity p.1.model) with
  | none => rfl
  | some i => rfl

theorem calculateSectionMovements_ends
    (initialSections finalSections : List (AnimatableSectionModel Model Item)) :
    (∃ d, calculateSectionMovements initialSections finalSections = .ok d ∧
        SectionMovements initialSections finalSections d ∧
        DistinctSections initialSections finalSections) ∨
      ∃ e, calculateSectionMovements initialSections finalSections = .error e ∧
        (∃ sec, e = .duplicateSection sec) ∧ ¬DistinctSections initialSections finalSections := by
  unfold calculateSectionMovements indexSections
  rw [indexSection_eq]
  obtain ⟨m, hm, hindexes⟩ | ⟨e, he, ⟨p, -, q, -, rfl⟩, hdup⟩ :=
    foldlM_index sectionIdentity (fun _ => Error.duplicateSection) initialSections.zipIdx
  · rw [hm]
    obtain ⟨d, hd, hlinked, hdistinct⟩ | ⟨e, he, hkind, hdup⟩ :=
      foldlM_linkSection hindexes finalSections
    · refine .inl ⟨_, bind_eq_ok.mpr ⟨m, rfl, bind_eq_ok.mpr ⟨d, hd, rfl⟩⟩, ?_, hdistinct⟩
      have hinj : ∀ i j k, (d.final i).moveIndex = some k → (d.final j).moveIndex = some k →
          i = j := by
        intro i j k hi hj
        have hk := (hlinked.initial k i).mpr ((hlinked.final k i).mp hi)
        rw [(hlinked.initial k j).mpr ((hlinked.final k j).mp hj)] at hk
        exact (Option.some.inj hk).symm
      refine sectionMovements hlinked (markedSections initialSections hlinked.untouched)
        (placedSections ?_ _ _) (settledSections ?_ _ _)
      · exact hinj
      · exact hinj
    · refine .inr ⟨e, ?_, hkind, hdup⟩
      change (finalSections.zipIdx.foldlM (linkSection m) {} >>= _) = _
      rw [he]
      rfl
  · rw [he]
    refine .inr ⟨_, rfl, ⟨q.1, rfl⟩, fun hd => hdup ?_⟩
    rw [map_key_zipIdx]
    exact hd.initial

end Karupasu.Differentiator.Diff
