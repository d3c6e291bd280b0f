import Karupasu.Event.ApplySheet

/-!
# What the apply sheet compares with what

A confirmation sends the difference from `oldOption` to `selectedOption`. The second is
always the choice last confirmed in the picker, whatever event it was confirmed for; the
first is whatever the picker selects first after the sheet was opened.
-/
namespace Karupasu.Event.ApplySheet

open Karupasu.Library
open Karupasu.EventModel (Event EventDetail)
open Karupasu.PrefectureModel (Prefecture)

/-- The prefectures marked as joined in an answer. -/
def joined (prefectures : List Prefecture) (event : Event) : List Prefecture :=
  joinPrefecture (sectionModel event (event.details.getD []) prefectures)

theorem selectedOption_accept (picker : Picker) (event : Event) (prefectures : List Prefecture) :
    (picker.accept event prefectures).selectedOption =
      if event.details.isSome then joined prefectures event else picker.selectedOption := by
  cases hd : event.details <;> simp [Picker.accept, Picker.reload, joined, hd]

@[simp] theorem confirmOption_reload (picker : Picker) (event : Event)
    (prefectures : List Prefecture) :
    (picker.reload event prefectures).confirmOption = picker.confirmOption := by
  unfold Picker.reload
  split <;> rfl

@[simp] theorem confirmOption_accept (picker : Picker) (event : Event)
    (prefectures : List Prefecture) :
    (picker.accept event prefectures).confirmOption = picker.confirmOption := by
  unfold Picker.accept
  dsimp only
  split
  · exact confirmOption_reload _ event prefectures
  · rfl

@[simp] theorem confirmOption_refresh (picker : Picker) (prefectures : List Prefecture)
    (order : List Nat) :
    (picker.refresh prefectures order).confirmOption = picker.confirmOption := by
  unfold Picker.refresh
  induction order generalizing picker with
  | nil => rfl
  | cons index order ih =>
    rw [List.foldl_cons, ih]
    split
    · exact confirmOption_reload picker _ prefectures
    · rfl

/-! ## Steps that neither open the sheet nor confirm the picker -/

def Quiet : Input → Prop
  | .showApply _ | .pickerConfirm => False
  | _ => True

theorem quiet_or (i : Input) :
    Quiet i ∨ (∃ event, i = .showApply event) ∨ i = .pickerConfirm := by
  cases i with
  | showApply event => exact .inr (.inl ⟨event, rfl⟩)
  | pickerConfirm => exact .inr (.inr rfl)
  | _ => exact .inl trivial

/-- The list a step hands to `selectOption`, when it is not a confirmation of the picker. -/
def selectionOf (s : State) : Input → Option (List Prefecture)
  | .detailsAnswer index (some event) =>
    match s.requests[index]? with
    | some ⟨.setEvent, _⟩ =>
      some (if event.details.isSome then joined s.prefectures event else s.picker.selectedOption)
    | _ => none
  | _ => none

/-- What a step keeps of the relays that a confirmation reads. -/
structure Kept (s t : State) : Prop where
  loaded : t.loaded = s.loaded
  currenEvent : t.currenEvent = s.currenEvent
  selectedOption : t.selectedOption = s.selectedOption
  confirmOption : t.picker.confirmOption = s.picker.confirmOption

/-- The first selection that meets a raised flag becomes the baseline. -/
structure Captured (s t : State) (selection : Option (List Prefecture)) : Prop where
  oldOption : t.oldOption = if s.optionFlag then selection.getD s.oldOption else s.oldOption
  optionFlag : t.optionFlag = (s.optionFlag && selection.isNone)

theorem Captured.of_eq {s t : State} (ho : t.oldOption = s.oldOption)
    (hf : t.optionFlag = s.optionFlag) : Captured s t none := by
  refine ⟨?_, ?_⟩
  · rw [ho, Option.getD_none, ite_self]
  · rw [hf, Option.isNone_none, Bool.and_true]

theorem Kept.trans {s t u : State} (h : Kept s t) (h' : Kept t u) : Kept s u :=
  ⟨h'.loaded.trans h.loaded, h'.currenEvent.trans h.currenEvent,
    h'.selectedOption.trans h.selectedOption, h'.confirmOption.trans h.confirmOption⟩

/-- A lowered flag lets later selections pass. -/
theorem Captured.trans {s t u : State} {a b : Option (List Prefecture)} (h : Captured s t a)
    (h' : Captured t u b) : Captured s u (a.or b) := by
  obtain ⟨ho, hf⟩ := h
  obtain ⟨ho', hf'⟩ := h'
  rw [ho, hf] at ho'
  rw [hf] at hf'
  cases hs : s.optionFlag <;> cases a <;> simp only [hs] at ho' hf' <;>
    exact ⟨by simpa [hs] using ho', by simpa [hs] using hf'⟩

theorem kept_emitSelectOption (s : State) : Kept s (emitSelectOption s).1 := by
  rw [emitSelectOption_eq]
  exact ⟨rfl, rfl, rfl, rfl⟩

theorem captured_emitSelectOption {s : State} (hl : s.loaded = true) :
    Captured s (emitSelectOption s).1 (some s.picker.selectedOption) := by
  rw [emitSelectOption_eq]
  exact ⟨by simp [hl], by simp [hl]⟩

section

variable (δ : Differ Int)

theorem next_detailsAnswer (s : State) (index : Nat) (event : Option Event) :
    Kept s ((machine δ).next s (.detailsAnswer index event)) ∧
      (s.loaded = true → Captured s ((machine δ).next s (.detailsAnswer index event))
        (selectionOf s (.detailsAnswer index event))) := by
  simp only [machine, Machine.next]
  rcases detailsAnswer_cases δ s index event with
    ⟨hget, h⟩ | ⟨-, rfl, h⟩ | ⟨e, eventId, rfl, hget, h⟩ | ⟨e, eventId, rfl, hget, h⟩ <;> rw [h]
  · have hsel : selectionOf s (.detailsAnswer index event) = none := by
      cases event <;> simp [selectionOf, hget]
    rw [hsel]
    exact ⟨⟨rfl, rfl, rfl, rfl⟩, fun _ => Captured.of_eq rfl rfl⟩
  · exact ⟨⟨rfl, rfl, rfl, rfl⟩, fun _ => Captured.of_eq rfl rfl⟩
  · simp only [selectionOf, hget]
    exact ⟨⟨rfl, rfl, rfl, confirmOption_accept _ _ _⟩, fun _ => Captured.of_eq rfl rfl⟩
  · simp only [selectionOf, hget, ← selectedOption_accept]
    -- the relays are those of `s` until the picker hands on its selection
    let t : State :=
      { s with
        requests := s.requests.eraseIdx index
        picker := s.picker.accept e s.prefectures }
    have hk := kept_emitSelectOption t
    refine ⟨⟨hk.loaded, hk.currenEvent, hk.selectedOption, ?_⟩, fun hl => ?_⟩
    · exact hk.confirmOption.trans (confirmOption_accept _ _ _)
    · obtain ⟨ho, hf⟩ := captured_emitSelectOption (s := t) hl
      exact ⟨ho, hf⟩

/-- The step lemma for everything but an opening and a confirmation of the picker. -/
theorem next_quiet (s : State) {i : Input} (hi : Quiet i) :
    Kept s ((machine δ).next s i) ∧
      (s.loaded = true → Captured s ((machine δ).next s i) (selectionOf s i)) := by
  cases i with
  | showApply event => exact hi.elim
  | pickerConfirm => exact hi.elim
  | detailsAnswer index event => exact next_detailsAnswer δ s index event
  | pickerSelect items => exact ⟨⟨rfl, rfl, rfl, rfl⟩, fun _ => Captured.of_eq rfl rfl⟩
  | prefecturesAnswer items order =>
    simp only [machine, Machine.next, selectionOf]
    rcases prefecturesAnswer_cases δ s items order with ⟨-, h⟩ | ⟨prefectures, -, -, h⟩ <;> rw [h]
    · exact ⟨⟨rfl, rfl, rfl, rfl⟩, fun _ => Captured.of_eq rfl rfl⟩
    · exact ⟨⟨rfl, rfl, rfl, confirmOption_refresh _ _ _⟩, fun _ => Captured.of_eq rfl rfl⟩
  | _ =>
    -- one `guard`, and behind it only effects and requests in flight
    simp only [machine, Machine.next, step, tapConfirm, selectionOf]
    split <;> exact ⟨⟨rfl, rfl, rfl, rfl⟩, fun _ => Captured.of_eq rfl rfl⟩

/-- Opening the sheet raises the flag and changes nothing that a confirmation compares. -/
theorem next_showApply (s : State) (event : Event) :
    let t := (machine δ).next s (.showApply event)
    t.loaded = true ∧ t.optionFlag = true ∧ t.currenEvent = some event ∧
      t.oldOption = s.oldOption ∧ t.picker = s.picker ∧
      t.selectedOption = if s.loaded then s.selectedOption else s.picker.confirmOption := by
  simp only [machine, Machine.next, step, showApply_eq]
  exact ⟨trivial, trivial, trivial, trivial, trivial, trivial⟩

/-- Confirming the picker hands its choice to both relays. -/
theorem next_pickerConfirm (s : State) :
    let t := (machine δ).next s .pickerConfirm
    t.loaded = s.loaded ∧ t.currenEvent = s.currenEvent ∧
      (s.loaded = true → t.selectedOption = t.picker.confirmOption) ∧
      (s.optionFlag = false → t.optionFlag = false ∧ t.oldOption = s.oldOption) := by
  simp only [machine, Machine.next, step, emitSelectOption_eq, emitConfirmOption_eq]
  refine ⟨trivial, trivial, fun hl => by rw [if_pos hl], fun hf => ?_⟩
  rw [hf, if_neg (by simp)]
  exact ⟨rfl, rfl⟩

/-- Once loaded, the sheet has the choice last confirmed in the picker. -/
def Wired (s : State) : Prop := s.loaded = true → s.selectedOption = s.picker.confirmOption

theorem wired_step (s : State) (i : Input) (h : Wired s) : Wired ((machine δ).next s i) := by
  rcases quiet_or i with hq | ⟨event, rfl⟩ | rfl
  · obtain ⟨hk, -⟩ := next_quiet δ s hq
    intro hl
    rw [hk.selectedOption, hk.confirmOption]
    exact h (hk.loaded ▸ hl)
  · obtain ⟨-, -, -, -, hp, hs⟩ := next_showApply δ s event
    intro _
    rw [hs, hp]
    split
    · exact h ‹_›
    · rfl
  · obtain ⟨hl, -, hs, -⟩ := next_pickerConfirm δ s
    exact fun hl' => hs (hl ▸ hl')

/-! ## Confirming without a choice -/

/-- The first list handed to `selectOption` along the inputs. -/
def firstSelection (s : State) : List Input → Option (List Prefecture)
  | [] => none
  | i :: is => (selectionOf s i).or (firstSelection ((machine δ).next s i) is)

theorem run_quiet {s : State} (hl : s.loaded = true) {is : List Input} (hq : ∀ i ∈ is, Quiet i) :
    Kept s ((machine δ).run s is) ∧
      Captured s ((machine δ).run s is) (firstSelection δ s is) := by
  induction is generalizing s with
  | nil => exact ⟨⟨rfl, rfl, rfl, rfl⟩, Captured.of_eq rfl rfl⟩
  | cons i is ih =>
    obtain ⟨hk, hc⟩ := next_quiet δ s (hq i List.mem_cons_self)
    obtain ⟨hk', hc'⟩ := ih (hk.loaded.trans hl) (fun j hj => hq j (List.mem_cons_of_mem i hj))
    exact ⟨hk.trans hk', (hc hl).trans hc'⟩

theorem emit_tapConfirm {s : State} {event : Event} (he : s.currenEvent = some event) :
    (machine δ).emit s .tapConfirm =
      (δ.difference (s.selectedOption.map (·.id)) (s.oldOption.map (·.id))).changes.map
        (requestFor event) := by
  simp only [Machine.emit, machine, step, tapConfirm, he]

/-- After an opening and no confirmation of the picker since, a confirmation of the sheet
sends nothing exactly when the choice last confirmed before the opening lists the same
prefectures, in the same order, as what the picker selected first after it. -/
theorem tapConfirm_silent_iff (prefectures : List Prefecture) (h c : List Input) (event : Event)
    (hc : ∀ i ∈ c, Quiet i) :
    let s := (machine δ).run (start prefectures) h
    let opened := (machine δ).next s (.showApply event)
    (machine δ).emit ((machine δ).run opened c) .tapConfirm = [] ↔
      s.picker.confirmOption.map (·.id) =
        ((firstSelection δ opened c).getD s.oldOption).map (·.id) := by
  intro s opened
  have hw : Wired opened :=
    wired_step δ s _ ((machine δ).always_of_inv (wired_step δ) (fun hl => by cases hl) h).last
  obtain ⟨hl, hf, he, ho, hp, -⟩ := next_showApply δ s event
  obtain ⟨hk, hcap⟩ := run_quiet δ hl hc
  have hold : ((machine δ).run opened c).oldOption =
      (firstSelection δ opened c).getD s.oldOption := by
    rw [hcap.oldOption, if_pos hf, ho]
  have hsel : ((machine δ).run opened c).selectedOption = s.picker.confirmOption := by
    rw [hk.selectedOption, hw hl, hp]
  have hevent : ((machine δ).run opened c).currenEvent = some event := hk.currenEvent.trans he
  rw [emit_tapConfirm δ hevent, List.map_eq_nil_iff, (δ.minimal _ _).changes_eq_nil_iff, hold,
    hsel]
  exact eq_comm

end

/-- An event for runs on fixed inputs: the user has joined it in the given prefectures. -/
def joinedEvent (id : Int) (prefectures : List Int) : Event :=
  ⟨id, "event", "", 0, 0, none, none, none, 4, none,
    some (prefectures.map fun prefecture => ⟨prefecture, 1, 1, [], none⟩)⟩

theorem tapConfirm_silent_iff_first :
    let s := (machine .viaLongest).run (start [⟨1, "Tokyo"⟩]) []
    let opened := (machine .viaLongest).next s (.showApply (joinedEvent 5 []))
    let c := [Input.detailsAnswer 0 (some (joinedEvent 5 []))]
    (machine .viaLongest).emit ((machine .viaLongest).run opened c) .tapConfirm = [] ↔
      s.picker.confirmOption.map (·.id) =
        ((firstSelection .viaLongest opened c).getD s.oldOption).map (·.id) :=
  tapConfirm_silent_iff .viaLongest [⟨1, "Tokyo"⟩] []
    [.detailsAnswer 0 (some (joinedEvent 5 []))] (joinedEvent 5 []) (by simp [Quiet])

/-- A first look at an event one has joined: confirming it untouched cancels the booking. -/
theorem untouched_confirm_cancels :
    let opened := (machine .viaLongest).next (start [⟨1, "Tokyo"⟩]) (.showApply (joinedEvent 5 [1]))
    let answered := (machine .viaLongest).next opened (.detailsAnswer 0 (some (joinedEvent 5 [1])))
    (machine .viaLongest).emit answered .tapConfirm = [.cancelEvent 5 1] := by
  decide

/-! ## The baseline -/

/-- The details answers since the sheet was last opened: for which event, and what they
mark as joined. -/
abbrev Answers := List (Int × List Prefecture)

def recordAnswer (s : State) (i : Input) (answers : Answers) : Answers :=
  match i with
  | .showApply _ => []
  | .detailsAnswer index (some event) =>
    match s.requests[index]? with
    | some r => answers ++ [(r.eventId, joined s.prefectures event)]
    | none => answers
  | _ => answers

/-- While the flag is raised, the picker is not confirmed, and the details answers are
those to openings of the sheet for its event, with details, or reloads of another event. -/
def FlagSafe (s : State) : Input → Prop
  | .pickerConfirm => s.currenEvent.isSome → s.optionFlag = false
  | .detailsAnswer index (some answer) =>
    s.optionFlag = true → ∀ event r, s.currenEvent = some event → s.requests[index]? = some r →
      r.origin = .setEvent ∧ r.eventId = event.id ∧ answer.details.isSome ∨
        r.origin = .reloadView ∧ r.eventId ≠ event.id
  | _ => True

/-- Once an answer for the event of the sheet has come, `oldOption` is what one of the
answers for it since the opening marks as joined. -/
def BaselineJoined (p : State × Answers) : Prop :=
  ∀ event, p.1.currenEvent = some event → (∃ l, (event.id, l) ∈ p.2) →
    (event.id, p.1.oldOption) ∈ p.2

/-- The flag is raised exactly until an answer for the event has been captured. -/
structure Tracked (p : State × Answers) (event : Event) : Prop where
  loaded : p.1.loaded = true
  raised : p.1.optionFlag = true → ∀ l, (event.id, l) ∉ p.2
  lowered : p.1.optionFlag = false → (event.id, p.1.oldOption) ∈ p.2

def TracksEvent (p : State × Answers) : Prop :=
  ∀ event, p.1.currenEvent = some event → Tracked p event

section

variable (δ : Differ Int)

/-- A step that captures nothing and records nothing. -/
theorem Tracked.of_idle {p q : State × Answers} {event : Event} (ht : Tracked p event)
    (hk : Kept p.1 q.1) (hc : p.1.loaded = true → Captured p.1 q.1 none) (ha : q.2 = p.2) :
    Tracked q event := by
  obtain ⟨ho, hf⟩ := hc ht.loaded
  rw [Option.getD_none, ite_self] at ho
  rw [Option.isNone_none, Bool.and_true] at hf
  refine ⟨hk.loaded.trans ht.loaded, ?_, ?_⟩
  · rw [hf, ha]
    exact ht.raised
  · rw [hf, ha, ho]
    exact ht.lowered

theorem tracked_detailsAnswer {p : State × Answers} {event : Event} (ht : Tracked p event)
    (he : p.1.currenEvent = some event) (index : Nat) (answer : Option Event)
    (hs : FlagSafe p.1 (.detailsAnswer index answer)) :
    Tracked (((machine δ).withHistory recordAnswer).next p (.detailsAnswer index answer))
      event := by
  obtain ⟨hk, hc⟩ := next_detailsAnswer δ p.1 index answer
  rw [Machine.next_withHistory]
  cases answer with
  | none => exact ht.of_idle hk hc rfl
  | some answer =>
    cases hget : p.1.requests[index]? with
    | none =>
      simp only [selectionOf, hget] at hc
      refine ht.of_idle hk hc ?_
      simp only [recordAnswer, hget]
    | some r =>
      obtain ⟨ho, hf⟩ := hc ht.loaded
      have ha : recordAnswer p.1 (.detailsAnswer index (some answer)) p.2 =
          p.2 ++ [(r.eventId, joined p.1.prefectures answer)] := by
        simp only [recordAnswer, hget]
      rw [ha]
      have hl := hk.loaded.trans ht.loaded
      cases hflag : p.1.optionFlag with
      | false =>
        -- the baseline is settled, and the answers only grow
        rw [hflag, if_neg Bool.false_ne_true] at ho
        rw [hflag, Bool.false_and] at hf
        refine ⟨hl, fun h => absurd (hf.symm.trans h) Bool.false_ne_true, fun _ => ?_⟩
        rw [ho]
        exact List.mem_append_left _ (ht.lowered hflag)
      | true =>
        rw [hflag, if_pos rfl] at ho
        rw [hflag, Bool.true_and] at hf
        obtain ⟨origin, eventId⟩ := r
        rcases hs hflag event _ he hget with ⟨horigin, hid, hdetails⟩ | ⟨horigin, hid⟩
        · change origin = .setEvent at horigin
          change eventId = event.id at hid
          subst horigin hid
          simp only [selectionOf, hget, hdetails, if_true, Option.getD_some,
            Option.isNone_some] at ho hf
          refine ⟨hl, fun h => absurd (hf.symm.trans h) Bool.false_ne_true, fun _ => ?_⟩
          rw [ho]
          exact List.mem_append_right _ List.mem_cons_self
        · change origin = .reloadView at horigin
          subst horigin
          simp only [selectionOf, hget, Option.isNone_none] at hf
          refine ⟨hl, ?_, fun h => absurd (hf.symm.trans h) Bool.false_ne_true.symm⟩
          rintro - l hmem
          rcases List.mem_append.mp hmem with hmem | hmem
          · exact ht.raised hflag l hmem
          · rw [List.mem_singleton, Prod.mk.injEq] at hmem
            exact hid hmem.1.symm

theorem tracksEvent_step (p : State × Answers) (i : Input) (h : TracksEvent p)
    (hs : FlagSafe p.1 i) : TracksEvent (((machine δ).withHistory recordAnswer).next p i) := by
  intro event he
  rw [Machine.next_withHistory] at he
  rcases quiet_or i with hq | ⟨opened, rfl⟩ | rfl
  · obtain ⟨hk, hc⟩ := next_quiet δ p.1 hq
    have he' : p.1.currenEvent = some event := hk.currenEvent.symm.trans he
    cases i with
    | detailsAnswer index answer => exact tracked_detailsAnswer δ (h event he') he' index answer hs
    | showApply event => exact hq.elim
    | pickerConfirm => exact hq.elim
    | _ => exact (h event he').of_idle hk hc rfl
  · obtain ⟨hl, hf, -, -, -, -⟩ := next_showApply δ p.1 opened
    exact ⟨hl, fun _ _ => List.not_mem_nil, fun hf' => absurd (hf.symm.trans hf') (by decide)⟩
  · obtain ⟨hl, hc, -, ho⟩ := next_pickerConfirm δ p.1
    have he' : p.1.currenEvent = some event := hc.symm.trans he
    have hflag : p.1.optionFlag = false := hs (by rw [he']; rfl)
    obtain ⟨hf, hold⟩ := ho hflag
    have ht := h event he'
    refine ⟨hl.trans ht.loaded, fun h => absurd (hf.symm.trans h) Bool.false_ne_true, fun _ => ?_⟩
    show (event.id, ((machine δ).next p.1 .pickerConfirm).oldOption) ∈ p.2
    rw [hold]
    exact ht.lowered hflag

/-- In a run whose steps are all safe, every state compares against the right baseline. -/
theorem baseline_joined (prefectures : List Prefecture) (is : List Input)
    (hs : (machine δ).Along FlagSafe (start prefectures) is) :
    ((machine δ).withHistory recordAnswer).Always BaselineJoined (start prefectures, []) is := by
  have h0 : TracksEvent (start prefectures, []) := fun event he => by cases he
  have hs' := ((machine δ).along_withHistory FlagSafe recordAnswer (start prefectures) [] is).mpr hs
  refine (((machine δ).withHistory recordAnswer).always_of_step (tracksEvent_step δ) h0 hs').mono ?_
  rintro p h event he ⟨l, hl⟩
  cases hf : p.1.optionFlag with
  | true => exact absurd hl ((h event he).raised hf l)
  | false => exact (h event he).lowered hf

end

/-- One opening, answered, and a reload of the picker. -/
def openedOnce : List Input :=
  [.showApply (joinedEvent 5 []), .detailsAnswer 0 (some (joinedEvent 5 [1])), .pickerReload]

theorem baseline_joined_openedOnce :
    ((machine .viaLongest).withHistory recordAnswer).Always BaselineJoined
      (start [⟨1, "Tokyo"⟩], []) openedOnce := by
  refine baseline_joined .viaLongest [⟨1, "Tokyo"⟩] openedOnce ⟨trivial, ?_, trivial, trivial⟩
  rintro - event r he hget
  cases he
  cases hget
  exact .inl ⟨rfl, rfl, rfl⟩

/-- The sheet is opened for event 6 while the answer for event 5 is still to come. -/
def openedTwice : List Input :=
  [.showApply (joinedEvent 5 []), .showApply (joinedEvent 6 []),
    .detailsAnswer 0 (some (joinedEvent 5 [1])), .detailsAnswer 0 (some (joinedEvent 6 []))]

/-- The late answer is captured as the baseline of event 6, and the answer for event 6
does not correct it. -/
theorem late_answer_is_baseline :
    let s := (machine .viaLongest).run (start [⟨1, "Tokyo"⟩]) openedTwice
    let answers := (machine .viaLongest).history recordAnswer (start [⟨1, "Tokyo"⟩]) [] openedTwice
    s.currenEvent = some (joinedEvent 6 []) ∧ s.oldOption = [⟨1, "Tokyo"⟩] ∧
      answers = [(5, [⟨1, "Tokyo"⟩]), (6, [])] ∧
      ¬((machine .viaLongest).withHistory recordAnswer).Always BaselineJoined
        (start [⟨1, "Tokyo"⟩], []) openedTwice := by
  intro s answers
  have he : s.currenEvent = some (joinedEvent 6 []) := by decide
  have ho : s.oldOption = [⟨1, "Tokyo"⟩] := by decide
  have ha : answers = [(5, [⟨1, "Tokyo"⟩]), (6, [])] := by decide
  refine ⟨he, ho, ha, fun h => ?_⟩
  have hl := h.last
  rw [Machine.run_withHistory] at hl
  have hm : (6, s.oldOption) ∈ answers := hl (joinedEvent 6 []) he ⟨[], by
    change (6, []) ∈ answers
    rw [ha]
    decide⟩
  rw [ho, ha] at hm
  exact absurd hm (by decide)

end Karupasu.Event.ApplySheet
