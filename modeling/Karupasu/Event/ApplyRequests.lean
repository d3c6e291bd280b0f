import Karupasu.Event.ApplySheetBaseline
import Mathlib.Data.List.Count

/-!
# The requests of a confirmation

A confirmation sends one request for each change of the script between two lists of ids.
An id that both lists have, but in another order, may be cancelled and applied for; and as
no answer moves the baseline, the next confirmation sends the whole script again.
-/
namespace Karupasu.Event.ApplySheet

open Karupasu.Library
open Karupasu.EventModel (Event)
open scoped List

/-! ## The requests of a script -/

/-- The prefectures of the apply requests among the effects. -/
def applied : List Effect → List Int :=
  List.filterMap fun
    | .applyEvent _ prefectureId => some prefectureId
    | _ => none

/-- The prefectures of the cancel requests among the effects. -/
def cancelled : List Effect → List Int :=
  List.filterMap fun
    | .cancelEvent _ prefectureId => some prefectureId
    | _ => none

theorem applied_append (l k : List Effect) : applied (l ++ k) = applied l ++ applied k :=
  List.filterMap_append

theorem cancelled_append (l k : List Effect) : cancelled (l ++ k) = cancelled l ++ cancelled k :=
  List.filterMap_append

theorem map_requestFor (event : Event) (d : Script Int) :
    d.changes.map (requestFor event) =
      (d.removals.map Prod.snd).map (Effect.cancelEvent event.id) ++
        (d.insertions.map Prod.snd).map (Effect.applyEvent event.id) := by
  simp only [Script.changes, List.map_append, List.map_map]
  rfl

theorem applied_requests (event : Event) (d : Script Int) :
    applied (d.changes.map (requestFor event)) = d.insertions.map Prod.snd := by
  rw [map_requestFor, applied_append]
  simp [applied, List.filterMap_map, Function.comp_def]

theorem cancelled_requests (event : Event) (d : Script Int) :
    cancelled (d.changes.map (requestFor event)) = d.removals.map Prod.snd := by
  rw [map_requestFor, cancelled_append]
  simp [cancelled, List.filterMap_map, Function.comp_def]

theorem count_applyEvent (event : Event) (d : Script Int) (id : Int) :
    (d.changes.map (requestFor event)).count (.applyEvent event.id id) =
      (d.insertions.map Prod.snd).count id := by
  have hinj : Function.Injective (Effect.applyEvent event.id) := fun a b h => by cases h; rfl
  rw [map_requestFor, List.count_append, List.count_map_of_injective _ _ hinj]
  have hz : ((d.removals.map Prod.snd).map (Effect.cancelEvent event.id)).count
      (.applyEvent event.id id) = 0 := by
    rw [List.count_eq_zero]
    simp
  omega

theorem count_cancelEvent (event : Event) (d : Script Int) (id : Int) :
    (d.changes.map (requestFor event)).count (.cancelEvent event.id id) =
      (d.removals.map Prod.snd).count id := by
  have hinj : Function.Injective (Effect.cancelEvent event.id) := fun a b h => by cases h; rfl
  rw [map_requestFor, List.count_append, List.count_map_of_injective _ _ hinj]
  have hz : ((d.insertions.map Prod.snd).map (Effect.applyEvent event.id)).count
      (.cancelEvent event.id id) = 0 := by
    rw [List.count_eq_zero]
    simp
  omega

/-! ## One confirmation -/

/-- The ids applied for are those selected anew, the ids cancelled those selected no more. -/
structure SendsDifference (event : Event) (selected old : List Int) (effects : List Effect) :
    Prop where
  applies : ∀ id, effects.count (.applyEvent event.id id) =
    if id ∈ selected ∧ id ∉ old then 1 else 0
  cancels : ∀ id, effects.count (.cancelEvent event.id id) =
    if id ∈ old ∧ id ∉ selected then 1 else 0

/-- Between lists without repetitions the changes are the difference of the two sets exactly
when the script leaves everything in place that the lists share. -/
theorem sendsDifference_iff_keeps (event : Event) {selected old kept : List Int}
    {d : Script Int} (h : Script.Between old selected kept d) (hs : selected.Nodup)
    (ho : old.Nodup) :
    SendsDifference event selected old (d.changes.map (requestFor event)) ↔
      ∀ id ∈ old, id ∈ selected → id ∈ kept := by
  constructor
  · rintro ⟨ha, -⟩ id hold hsel
    by_contra hk
    have hc := ha id
    rw [count_applyEvent, h.count_insertions hs, if_pos ⟨hsel, hk⟩,
      if_neg (fun hn => hn.2 hold)] at hc
    omega
  · intro hall
    constructor
    · intro id
      rw [count_applyEvent, h.count_insertions hs]
      have hiff : id ∈ selected → (id ∉ kept ↔ id ∉ old) := fun hsel =>
        not_congr ⟨fun hk => h.sublist_old.subset hk, fun hold => hall id hold hsel⟩
      exact if_congr (and_congr_right hiff) rfl rfl
    · intro id
      rw [count_cancelEvent, h.count_removals ho]
      have hiff : id ∈ old → (id ∉ kept ↔ id ∉ selected) := fun hold =>
        not_congr ⟨fun hk => h.sublist_new.subset hk, fun hsel => hall id hold hsel⟩
      exact if_congr (and_congr_right hiff) rfl rfl

section

variable (δ : Differ Int)

/-- With two lists of distinct ids, a confirmation sends exactly their difference if and only
if the ids that both have stand in the same order in both. -/
theorem sends_difference_iff (s : State) (event : Event) (he : s.currenEvent = some event)
    (hs : (s.selectedOption.map (·.id)).Nodup) (ho : (s.oldOption.map (·.id)).Nodup) :
    SendsDifference event (s.selectedOption.map (·.id)) (s.oldOption.map (·.id))
        ((machine δ).emit s .tapConfirm) ↔
      (s.selectedOption.map (·.id)).filter (fun id => decide (id ∈ s.oldOption.map (·.id))) <+
        s.oldOption.map (·.id) := by
  have hm := δ.minimal (s.selectedOption.map (·.id)) (s.oldOption.map (·.id))
  obtain ⟨kept, hk⟩ := hm.applies
  rw [emit_tapConfirm δ he, sendsDifference_iff_keeps event hk hs ho]
  exact hm.keeps_common_iff hk hs

end

theorem sends_difference_iff_fresh :
    let s := (machine .viaLongest).run (start [⟨1, "Tokyo"⟩, ⟨2, "Osaka"⟩])
      [.showApply (joinedEvent 5 [1]), .detailsAnswer 0 (some (joinedEvent 5 [1])),
        .pickerSelect [⟨1, "Tokyo"⟩, ⟨2, "Osaka"⟩], .pickerConfirm]
    SendsDifference (joinedEvent 5 [1]) (s.selectedOption.map (·.id)) (s.oldOption.map (·.id))
        ((machine .viaLongest).emit s .tapConfirm) ↔
      (s.selectedOption.map (·.id)).filter (fun id => decide (id ∈ s.oldOption.map (·.id))) <+
        s.oldOption.map (·.id) :=
  sends_difference_iff .viaLongest _ (joinedEvent 5 [1]) (by decide) (by decide) (by decide)

/-- A joined event, with the rows of the picker deselected and selected again. -/
def reselected : List Input :=
  [.showApply (joinedEvent 5 [1, 2]), .detailsAnswer 0 (some (joinedEvent 5 [1, 2])),
    .pickerSelect [⟨2, "Osaka"⟩], .pickerSelect [⟨2, "Osaka"⟩, ⟨1, "Tokyo"⟩], .pickerConfirm]

/-- Both lists hold the prefectures 1 and 2; one of them is cancelled and applied for. -/
theorem reselected_is_sent :
    let s := (machine .viaLongest).run (start [⟨1, "Tokyo"⟩, ⟨2, "Osaka"⟩]) reselected
    s.currenEvent = some (joinedEvent 5 [1, 2]) ∧ s.selectedOption.map (·.id) = [2, 1] ∧
      s.oldOption.map (·.id) = [1, 2] ∧
      (machine .viaLongest).emit s .tapConfirm = [.cancelEvent 5 2, .applyEvent 5 2] ∧
      ¬SendsDifference (joinedEvent 5 [1, 2]) [2, 1] [1, 2]
        ((machine .viaLongest).emit s .tapConfirm) := by
  intro s
  have he : (machine .viaLongest).emit s .tapConfirm = [.cancelEvent 5 2, .applyEvent 5 2] := by
    decide
  refine ⟨by decide, by decide, by decide, he, fun h => ?_⟩
  have hc := h.cancels 2
  rw [he] at hc
  exact absurd hc (by decide)

/-! ## Several confirmations -/

/-- The step hands something to `setEvent`, `setOption` or `oldOption` of the stream. -/
def Feeds (s : State) : Input → Prop
  | .showApply _ => True
  | .pickerConfirm => s.loaded = true
  | .detailsAnswer index (some _) =>
    s.loaded = true ∧ s.optionFlag = true ∧
      (s.requests[index]?).map (·.origin) = some .setEvent
  | _ => False

instance (s : State) (i : Input) : Decidable (Feeds s i) := by
  unfold Feeds
  split <;> infer_instance

/-- What a confirmation reads. -/
structure Steady (s t : State) : Prop where
  currenEvent : t.currenEvent = s.currenEvent
  selectedOption : t.selectedOption = s.selectedOption
  oldOption : t.oldOption = s.oldOption

def taps : List Input → Nat
  | [] => 0
  | .tapConfirm :: is => taps is + 1
  | _ :: is => taps is

/-- No prefecture is applied for twice, and none cancelled twice. -/
def AtMostOnce (effects : List Effect) : Prop :=
  ∀ id, (applied effects).count id ≤ 1 ∧ (cancelled effects).count id ≤ 1

section

variable (δ : Differ Int)

theorem steady_next (s : State) {i : Input} (h : ¬Feeds s i) :
    Steady s ((machine δ).next s i) := by
  cases i with
  | showApply event => exact absurd trivial h
  | pickerConfirm =>
    have hl : s.loaded = false := by simpa [Feeds] using h
    simp only [machine, Machine.next, step, emitSelectOption_eq, emitConfirmOption_eq, hl]
    exact ⟨rfl, rfl, by simp⟩
  | detailsAnswer index event =>
    obtain ⟨hk, -⟩ := next_detailsAnswer δ s index event
    refine ⟨hk.currenEvent, hk.selectedOption, ?_⟩
    simp only [machine, Machine.next]
    rcases detailsAnswer_cases δ s index event with
      ⟨-, hs⟩ | ⟨-, -, hs⟩ | ⟨e, eventId, -, -, hs⟩ | ⟨e, eventId, rfl, hget, hs⟩ <;> rw [hs]
    -- what is left is an opening's answer, which finds the sheet unloaded or the flag lowered
    rw [emitSelectOption_eq]
    apply if_neg
    rintro ⟨hl, hf⟩
    exact h ⟨hl, hf, by rw [hget]; rfl⟩
  | prefecturesAnswer items order =>
    simp only [machine, Machine.next]
    rcases prefecturesAnswer_cases δ s items order with ⟨-, hs⟩ | ⟨ps, -, -, hs⟩ <;> rw [hs] <;>
      exact ⟨rfl, rfl, rfl⟩
  | pickerSelect items => exact ⟨rfl, rfl, rfl⟩
  | _ =>
    simp only [machine, Machine.next, step, tapConfirm]
    split <;> exact ⟨rfl, rfl, rfl⟩

theorem emit_tapConfirm_congr {s t : State} (h : Steady s t) :
    (machine δ).emit t .tapConfirm = (machine δ).emit s .tapConfirm := by
  simp only [machine, Machine.emit, step, tapConfirm, h.currenEvent, h.selectedOption, h.oldOption]
  cases s.currenEvent <;> rfl

theorem requests_emitSelectOption (s : State) :
    applied (emitSelectOption s).2 = [] ∧ cancelled (emitSelectOption s).2 = [] := by
  rw [emitSelectOption_eq]
  dsimp only
  split <;> exact ⟨rfl, rfl⟩

/-- Only a confirmation of the sheet applies or cancels. -/
theorem requests_emit_of_ne (s : State) {i : Input} (hi : i ≠ .tapConfirm) :
    applied ((machine δ).emit s i) = [] ∧ cancelled ((machine δ).emit s i) = [] := by
  cases i with
  | tapConfirm => exact absurd rfl hi
  | showApply event =>
    simp only [Machine.emit, machine, step, showApply_eq]
    constructor <;> simp [applied, cancelled, List.filterMap_map]
  | pickerSelect items => exact ⟨rfl, rfl⟩
  | pickerConfirm => exact requests_emitSelectOption s
  | detailsAnswer index event =>
    simp only [Machine.emit, machine]
    rcases detailsAnswer_cases δ s index event with
      ⟨-, hs⟩ | ⟨-, -, hs⟩ | ⟨e, eventId, -, -, hs⟩ | ⟨e, eventId, -, -, hs⟩ <;> rw [hs]
    · exact ⟨rfl, rfl⟩
    · exact ⟨rfl, rfl⟩
    · exact ⟨rfl, rfl⟩
    · exact requests_emitSelectOption _
  | prefecturesAnswer items order =>
    simp only [Machine.emit, machine]
    rcases prefecturesAnswer_cases δ s items order with ⟨-, hs⟩ | ⟨ps, -, -, hs⟩ <;> rw [hs] <;>
      exact ⟨rfl, rfl⟩
  | _ =>
    simp only [Machine.emit, machine, step]
    split <;> exact ⟨rfl, rfl⟩

theorem taps_cons_of_ne {i : Input} (hi : i ≠ .tapConfirm) (is : List Input) :
    taps (i :: is) = taps is := by
  cases i with
  | tapConfirm => exact absurd rfl hi
  | _ => rfl

/-- Each confirmation sends what the first one would have sent. -/
theorem requests_outputs (s : State) {is : List Input}
    (h : (machine δ).Along (fun s i => ¬Feeds s i) s is) :
    applied ((machine δ).outputs s is) =
        (List.replicate (taps is) (applied ((machine δ).emit s .tapConfirm))).flatten ∧
      cancelled ((machine δ).outputs s is) =
        (List.replicate (taps is) (cancelled ((machine δ).emit s .tapConfirm))).flatten := by
  induction is generalizing s with
  | nil => exact ⟨rfl, rfl⟩
  | cons i is ih =>
    obtain ⟨ha, hc⟩ := ih ((machine δ).next s i) h.2
    rw [emit_tapConfirm_congr δ (steady_next δ s h.1)] at ha hc
    rw [Machine.outputs_cons, applied_append, cancelled_append, ha, hc]
    by_cases hi : i = .tapConfirm
    · subst hi
      exact ⟨rfl, rfl⟩
    · obtain ⟨hea, hec⟩ := requests_emit_of_ne δ s hi
      rw [hea, hec, taps_cons_of_ne hi]
      exact ⟨rfl, rfl⟩

theorem atMostOnce_iff (effects : List Effect) :
    AtMostOnce effects ↔ (applied effects).Nodup ∧ (cancelled effects).Nodup := by
  rw [List.nodup_iff_count_le_one, List.nodup_iff_count_le_one]
  exact forall_and

/-- While nothing reaches the stream but confirmations and answers, each prefecture is sent
at most once exactly if there is nothing to send, or a single confirmation of a script
without repetitions, as every script between lists of distinct ids is. -/
theorem confirm_once_iff (s : State) (is : List Input)
    (h : (machine δ).Along (fun s i => ¬Feeds s i) s is) :
    (AtMostOnce ((machine δ).outputs s is) ↔
      s.currenEvent = none ∨ taps is = 0 ∨
        s.selectedOption.map (·.id) = s.oldOption.map (·.id) ∨
        taps is = 1 ∧
          (δ.difference (s.selectedOption.map (·.id)) (s.oldOption.map (·.id))).RepeatsNone) ∧
    ((s.selectedOption.map (·.id)).Nodup → (s.oldOption.map (·.id)).Nodup →
      (δ.difference (s.selectedOption.map (·.id)) (s.oldOption.map (·.id))).RepeatsNone) := by
  have hm := δ.minimal (s.selectedOption.map (·.id)) (s.oldOption.map (·.id))
  constructor
  · obtain ⟨ha, hc⟩ := requests_outputs δ s h
    rw [atMostOnce_iff, ha, hc]
    cases he : s.currenEvent with
    | none =>
      have hemit : (machine δ).emit s .tapConfirm = [] := by
        simp only [Machine.emit, machine, step, tapConfirm, he]
      simp [hemit, applied, cancelled]
    | some event =>
      rw [emit_tapConfirm δ he, applied_requests, cancelled_requests, Script.nodup_replicate_iff,
        hm.changes_eq_nil_iff, eq_comm (a := s.oldOption.map (·.id))]
      exact (or_iff_right (Option.some_ne_none event)).symm
  · intro hs ho
    obtain ⟨kept, hk⟩ := hm.applies
    exact hk.repeatsNone ho hs

end

/-- A sheet on which prefecture 1 has been chosen for an event one has not joined. -/
def chosen : State :=
  (machine .viaLongest).run (start [⟨1, "Tokyo"⟩])
    [.showApply (joinedEvent 5 []), .detailsAnswer 0 (some (joinedEvent 5 [])),
      .pickerSelect [⟨1, "Tokyo"⟩], .pickerConfirm]

theorem confirm_once_iff_chosen :
    (AtMostOnce ((machine .viaLongest).outputs chosen [.tapConfirm, .applyAnswer 0 true]) ↔
      chosen.currenEvent = none ∨ taps [.tapConfirm, .applyAnswer 0 true] = 0 ∨
        chosen.selectedOption.map (·.id) = chosen.oldOption.map (·.id) ∨
        taps [.tapConfirm, .applyAnswer 0 true] = 1 ∧
          (Differ.viaLongest.difference (chosen.selectedOption.map (·.id))
            (chosen.oldOption.map (·.id))).RepeatsNone) ∧
    ((chosen.selectedOption.map (·.id)).Nodup → (chosen.oldOption.map (·.id)).Nodup →
      (Differ.viaLongest.difference (chosen.selectedOption.map (·.id))
        (chosen.oldOption.map (·.id))).RepeatsNone) :=
  confirm_once_iff .viaLongest chosen [.tapConfirm, .applyAnswer 0 true]
    ⟨by simp [Feeds], by simp [Feeds], trivial⟩

/-- A second tap before the answer, and another one after it: three applications. -/
theorem second_confirm_applies_again :
    let is := [Input.tapConfirm, .tapConfirm, .applyAnswer 0 true, .tapConfirm]
    (machine .viaLongest).Along (fun s i => ¬Feeds s i) chosen is ∧
      applied ((machine .viaLongest).outputs chosen is) = [1, 1, 1] ∧
      ¬AtMostOnce ((machine .viaLongest).outputs chosen is) := by
  intro is
  have ha : applied ((machine .viaLongest).outputs chosen is) = [1, 1, 1] := by decide
  refine ⟨⟨by simp [Feeds], by simp [Feeds], by simp [Feeds], by simp [Feeds], trivial⟩, ha, ?_⟩
  intro h
  have h1 := (h 1).1
  rw [ha] at h1
  exact absurd h1 (by decide)

end Karupasu.Event.ApplySheet
