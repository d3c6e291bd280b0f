import Karupasu.Event.ApplySheetBaseline

/-!
# The rows of the prefecture picker

Every accepted event with details subscribes to the prefectures once more, for good, so a
new list of prefectures runs through all of them and the last one run leaves its rows.
-/
namespace Karupasu.Event.ApplySheet

open Karupasu.Library
open Karupasu.EventModel (Event EventDetail)
open Karupasu.PrefectureModel (Prefecture)

/-- The first detail of an event for a prefecture, with the capacity of the event. -/
def detailFor (event : Event) (prefectureId : Int) : Option EventDetail :=
  ((event.details.getD []).find? fun detail => detail.prefecture == prefectureId).map
    fun detail => { detail with maxParticipantsCount := some event.maxParticipantsCount }

/-- The prefecture is marked as joined in the event. -/
def joinedIn (event : Event) (prefectureId : Int) : Bool :=
  (detailFor event prefectureId).any fun detail => detail.isJoined == 1

/-- The rows and the selection the picker should have for an event: a row for each
prefecture, in order, and the prefectures marked as joined. -/
structure Describes (picker : Picker) (prefectures : List Prefecture) (event : Event) : Prop where
  data : picker.reloadDatasource.map (·.data) = prefectures
  subData : ∀ row ∈ picker.reloadDatasource, row.subData = detailFor event row.data.id
  selected : picker.selectedOption = prefectures.filter fun p => joinedIn event p.id

/-- The row of a prefecture. -/
def rowFor (event : Event) (prefecture : Prefecture) : OptionSectionModel :=
  ⟨prefecture, detailFor event prefecture.id⟩

theorem sectionModel_eq (event : Event) (prefectures : List Prefecture) :
    sectionModel event (event.details.getD []) prefectures = prefectures.map (rowFor event) := by
  simp only [sectionModel, List.head?_filter]
  rfl

theorem joinPrefecture_map_rowFor (event : Event) (prefectures : List Prefecture) :
    joinPrefecture (prefectures.map (rowFor event)) =
      prefectures.filter fun p => joinedIn event p.id := by
  have hj : (fun model : OptionSectionModel => ((model.subData.map (·.isJoined)).getD 0) == 1) ∘
      rowFor event = fun p : Prefecture => joinedIn event p.id := by
    funext p
    show (((detailFor event p.id).map (·.isJoined)).getD 0 == 1) = joinedIn event p.id
    unfold joinedIn
    cases detailFor event p.id <;> rfl
  unfold joinPrefecture
  rw [List.filter_map, hj, List.map_map]
  exact List.map_id _

theorem describes_iff (picker : Picker) (prefectures : List Prefecture) (event : Event) :
    Describes picker prefectures event ↔
      picker.reloadDatasource = prefectures.map (rowFor event) ∧
        picker.selectedOption = joinPrefecture (prefectures.map (rowFor event)) := by
  rw [joinPrefecture_map_rowFor]
  constructor
  · rintro ⟨hd, hs, hsel⟩
    refine ⟨?_, hsel⟩
    rw [← hd, List.map_map]
    refine (List.map_id _).symm.trans (List.map_congr_left fun row hrow => ?_)
    show row = ⟨row.data, detailFor event row.data.id⟩
    rw [← hs row hrow]
  · rintro ⟨hr, hsel⟩
    refine ⟨?_, fun row hrow => ?_, hsel⟩
    · rw [hr, List.map_map]
      exact List.map_id _
    · rw [hr] at hrow
      obtain ⟨p, -, rfl⟩ := List.mem_map.mp hrow
      rfl

/-! ## What a subscription leaves -/

theorem reload_of_details (picker : Picker) {event : Event} (hd : event.details.isSome)
    (prefectures : List Prefecture) :
    picker.reload event prefectures =
      { picker with
        reloadDatasource := prefectures.map (rowFor event)
        selectedOption := joinPrefecture (prefectures.map (rowFor event)) } := by
  obtain ⟨details, hd⟩ := Option.isSome_iff_exists.mp hd
  have hs := sectionModel_eq event prefectures
  rw [hd, Option.getD_some] at hs
  simp only [Picker.reload, hd, hs]

theorem describes_reload (picker : Picker) {event : Event} (hd : event.details.isSome)
    (prefectures : List Prefecture) :
    Describes (picker.reload event prefectures) prefectures event := by
  rw [describes_iff, reload_of_details picker hd]
  exact ⟨rfl, rfl⟩

theorem reload_keeps (picker : Picker) (event : Event) (prefectures : List Prefecture) :
    (picker.reload event prefectures).currenEvent = picker.currenEvent ∧
      (picker.reload event prefectures).subscriptions = picker.subscriptions := by
  unfold Picker.reload
  split <;> exact ⟨rfl, rfl⟩

/-- The events captured by the subscriptions a refresh runs, in the order it runs them. -/
def refreshed (picker : Picker) (order : List Nat) : List Event :=
  order.filterMap fun index => picker.subscriptions[index]?

theorem refresh_eq (picker : Picker) (prefectures : List Prefecture) (order : List Nat) :
    picker.refresh prefectures order =
      (refreshed picker order).foldl (fun picker event => picker.reload event prefectures)
        picker := by
  unfold Picker.refresh refreshed
  induction order generalizing picker with
  | nil => rfl
  | cons index order ih =>
    rw [List.foldl_cons, List.filterMap_cons]
    cases picker.subscriptions[index]? with
    | none => exact ih picker
    | some event =>
      have h := ih (picker.reload event prefectures)
      rw [(reload_keeps picker event prefectures).2] at h
      exact h

/-- The subscription run last decides. -/
theorem describes_foldl_reload {events : List Event} {event : Event}
    (hl : events.getLast? = some event) (hd : event.details.isSome) (picker : Picker)
    (prefectures : List Prefecture) :
    Describes (events.foldl (fun picker event => picker.reload event prefectures) picker)
      prefectures event := by
  obtain ⟨front, rfl⟩ := List.getLast?_eq_some_iff.mp hl
  rw [List.foldl_append, List.foldl_cons, List.foldl_nil]
  exact describes_reload _ hd prefectures

theorem foldl_reload_keeps (events : List Event) (picker : Picker)
    (prefectures : List Prefecture) :
    let q := events.foldl (fun picker event => picker.reload event prefectures) picker
    q.currenEvent = picker.currenEvent ∧ q.subscriptions = picker.subscriptions := by
  induction events generalizing picker with
  | nil => exact ⟨rfl, rfl⟩
  | cons event events ih =>
    obtain ⟨hc, hs⟩ := reload_keeps picker event prefectures
    obtain ⟨hc', hs'⟩ := ih (picker.reload event prefectures)
    exact ⟨hc'.trans hc, hs'.trans hs⟩

theorem filterMap_range_getElem? {α : Type} (l : List α) :
    (List.range l.length).filterMap (fun index => l[index]?) = l := by
  induction l with
  | nil => rfl
  | cons a l ih =>
    rw [List.length_cons, List.range_succ_eq_map, List.filterMap_cons]
    simpa [List.filterMap_map, Function.comp_def] using ih

/-! ## Steps of the sheet -/

/-- The step accepts an event or a list of prefectures. -/
def Delivers (s : State) : Input → Prop
  | .detailsAnswer index (some _) => (s.requests[index]?).isSome
  | .prefecturesAnswer (some prefectures) _ => prefectures ≠ []
  | _ => False

/-- What the rows depend on. -/
structure SameRows (p q : Picker) : Prop where
  currenEvent : q.currenEvent = p.currenEvent
  reloadDatasource : q.reloadDatasource = p.reloadDatasource
  subscriptions : q.subscriptions = p.subscriptions

theorem delivers_cases {s : State} {i : Input} (h : Delivers s i) :
    (∃ index event, i = .detailsAnswer index (some event) ∧ (s.requests[index]?).isSome) ∨
      ∃ prefectures order, i = .prefecturesAnswer (some prefectures) order ∧ prefectures ≠ [] := by
  cases i with
  | detailsAnswer index event =>
    cases event with
    | none => exact h.elim
    | some event => exact .inl ⟨index, event, rfl, h⟩
  | prefecturesAnswer items order =>
    cases items with
    | none => exact h.elim
    | some prefectures => exact .inr ⟨prefectures, order, rfl, h⟩
  | _ => exact h.elim

/-- The empty list or the list of details of an event without details. -/
theorem detailFor_of_no_details {event : Event} (hd : event.details = none) (id : Int) :
    detailFor event id = none := by
  simp [detailFor, hd]

section

variable (δ : Differ Int)

theorem sameRows_of_not_delivers (s : State) {i : Input} (h : ¬ Delivers s i) :
    SameRows s.picker ((machine δ).next s i).picker ∧
      ((machine δ).next s i).prefectures = s.prefectures := by
  cases i with
  | showApply event =>
    simp only [Machine.next, machine, step, showApply_eq]
    exact ⟨⟨rfl, rfl, rfl⟩, trivial⟩
  | pickerSelect items => exact ⟨⟨rfl, rfl, rfl⟩, rfl⟩
  | pickerConfirm =>
    simp only [Machine.next, machine, step, emitSelectOption_eq, emitConfirmOption_eq]
    exact ⟨⟨rfl, rfl, rfl⟩, trivial⟩
  | detailsAnswer index event =>
    simp only [Machine.next, machine]
    rcases detailsAnswer_cases δ s index event with
      ⟨-, hs⟩ | ⟨-, -, hs⟩ | ⟨e, eventId, rfl, hget, hs⟩ | ⟨e, eventId, rfl, hget, hs⟩
    · rw [hs]
      exact ⟨⟨rfl, rfl, rfl⟩, rfl⟩
    · rw [hs]
      exact ⟨⟨rfl, rfl, rfl⟩, rfl⟩
    · exact absurd (by rw [Delivers, hget]; rfl) h
    · exact absurd (by rw [Delivers, hget]; rfl) h
  | prefecturesAnswer items order =>
    simp only [Machine.next, machine]
    rcases prefecturesAnswer_cases δ s items order with ⟨-, hs⟩ | ⟨ps, rfl, hne, hs⟩
    · rw [hs]
      exact ⟨⟨rfl, rfl, rfl⟩, rfl⟩
    · exact absurd hne h
  | _ =>
    simp only [Machine.next, machine, step, tapConfirm]
    split <;> exact ⟨⟨rfl, rfl, rfl⟩, rfl⟩

/-- An accepted details answer. -/
theorem next_accepted (s : State) {index : Nat} (event : Event) (h : (s.requests[index]?).isSome) :
    let t := (machine δ).next s (.detailsAnswer index (some event))
    SameRows (s.picker.accept event s.prefectures) t.picker ∧
      t.picker.selectedOption = (s.picker.accept event s.prefectures).selectedOption ∧
      t.prefectures = s.prefectures := by
  obtain ⟨⟨origin, eventId⟩, hget⟩ := Option.isSome_iff_exists.mp h
  cases origin with
  | reloadView =>
    simp only [Machine.next, machine, step, hget, detailsAnswered]
    exact ⟨⟨rfl, rfl, rfl⟩, trivial, trivial⟩
  | setEvent =>
    simp only [Machine.next, machine, step, hget, detailsAnswered, emitSelectOption_eq]
    exact ⟨⟨rfl, rfl, rfl⟩, trivial, trivial⟩

theorem next_refreshed (s : State) {prefectures : List Prefecture} (h : prefectures ≠ [])
    (order : List Nat) :
    let t := (machine δ).next s (.prefecturesAnswer (some prefectures) order)
    t.picker = s.picker.refresh prefectures order ∧ t.prefectures = prefectures := by
  have hne : prefectures.isEmpty = false := by simpa using h
  simp only [Machine.next, machine, step, hne]
  exact ⟨rfl, rfl⟩

/-- The newest subscription holds the current event, when that one has details. -/
structure Tracking (picker : Picker) : Prop where
  detailed : ∀ event ∈ picker.subscriptions, event.details.isSome
  newest : ∀ event, picker.currenEvent = some event → event.details.isSome →
    picker.subscriptions.getLast? = some event
  silent : picker.subscriptions = [] → picker.reloadDatasource = []

theorem Tracking.of_sameRows {p q : Picker} (h : Tracking p) (hs : SameRows p q) : Tracking q := by
  obtain ⟨hd, hn, hsil⟩ := h
  obtain ⟨hc, hr, hsub⟩ := hs
  exact ⟨by rwa [hsub], by rwa [hc, hsub], by rwa [hsub, hr]⟩

theorem accept_of_details (picker : Picker) {event : Event} (hd : event.details.isSome)
    (prefectures : List Prefecture) :
    picker.accept event prefectures =
      { picker with
        currenEvent := some event
        subscriptions := picker.subscriptions ++ [event]
        reloadDatasource := prefectures.map (rowFor event)
        selectedOption := joinPrefecture (prefectures.map (rowFor event)) } := by
  simp only [Picker.accept, hd, if_true]
  rw [reload_of_details _ hd]

theorem accept_of_no_details (picker : Picker) {event : Event} (hd : event.details = none)
    (prefectures : List Prefecture) :
    picker.accept event prefectures = { picker with currenEvent := some event } := by
  simp [Picker.accept, hd]

theorem tracking_accept {picker : Picker} (h : Tracking picker) (event : Event)
    (prefectures : List Prefecture) : Tracking (picker.accept event prefectures) := by
  obtain ⟨hd, hn, hsil⟩ := h
  cases hdet : event.details with
  | none =>
    rw [accept_of_no_details picker hdet]
    refine ⟨hd, fun e he hedet => ?_, hsil⟩
    obtain rfl := Option.some.inj he
    rw [hdet] at hedet
    cases hedet
  | some details =>
    have hs : event.details.isSome := by rw [hdet]; rfl
    rw [accept_of_details picker hs]
    refine ⟨fun e he => ?_, fun e he _ => ?_, fun hnil => ?_⟩
    · rcases List.mem_append.mp he with he | he
      · exact hd e he
      · rwa [List.mem_singleton.mp he]
    · obtain rfl := Option.some.inj he
      exact List.getLast?_concat
    · exact absurd hnil (List.concat_ne_nil event picker.subscriptions)

theorem tracking_refresh {picker : Picker} (h : Tracking picker) (prefectures : List Prefecture)
    (order : List Nat) : Tracking (picker.refresh prefectures order) := by
  obtain ⟨hd, hn, hsil⟩ := h
  rw [refresh_eq]
  obtain ⟨hc, hsub⟩ := foldl_reload_keeps (refreshed picker order) picker prefectures
  refine ⟨by rwa [hsub], by rwa [hc, hsub], fun hnil => ?_⟩
  rw [hsub] at hnil
  have he : refreshed picker order = [] := by
    rw [refreshed, hnil]
    simp
  rw [he]
  exact hsil hnil

theorem tracking_step (s : State) (i : Input) (h : Tracking s.picker) :
    Tracking ((machine δ).next s i).picker := by
  by_cases hdel : Delivers s i
  · obtain ⟨index, event, rfl, hget⟩ | ⟨prefectures, order, rfl, hne⟩ := delivers_cases hdel
    · exact (tracking_accept h event s.prefectures).of_sameRows (next_accepted δ s event hget).1
    · rw [(next_refreshed δ s hne order).1]
      exact tracking_refresh h prefectures order
  · exact h.of_sameRows (sameRows_of_not_delivers δ s hdel).1

/-- The relay runs its subscriptions in the order in which they were made. -/
def InOrder (s : State) : Input → Prop
  | .prefecturesAnswer _ order => order = List.range s.picker.subscriptions.length
  | _ => True

/-- The rows and the selection are those for the current event, if there is one. -/
def DescribesCurrent (s : State) : Prop :=
  ∀ event, s.picker.currenEvent = some event → Describes s.picker s.prefectures event

/-- An accepted event has details, or the rows already pair each prefecture with nothing and
nothing is selected. At a new list of prefectures the current event has details, or the
event captured last has none for any prefecture of the list. -/
def Describable (s : State) : Input → Prop
  | .detailsAnswer index (some event) => (s.requests[index]?).isSome → event.details.isSome ∨
      s.picker.reloadDatasource = s.prefectures.map (fun p => ⟨p, none⟩) ∧
        s.picker.selectedOption = []
  | .prefecturesAnswer (some prefectures) _ => prefectures ≠ [] →
      ∀ event, s.picker.currenEvent = some event → event.details.isSome ∨
        ∃ newest, s.picker.subscriptions.getLast? = some newest ∧
          ∀ p ∈ prefectures, detailFor newest p.id = none
  | _ => True

theorem rowFor_of_no_details {event : Event} (hd : event.details = none) :
    rowFor event = fun p => ⟨p, none⟩ := by
  funext p
  rw [rowFor, detailFor_of_no_details hd]

/-- Rows made for one event describe another exactly when the two agree on every row. -/
theorem describes_other_iff {picker : Picker} {prefectures : List Prefecture} {newest : Event}
    (h : Describes picker prefectures newest) (event : Event) :
    Describes picker prefectures event ↔
      ∀ p ∈ prefectures, detailFor newest p.id = detailFor event p.id := by
  obtain ⟨hr, hsel⟩ := (describes_iff _ _ _).mp h
  rw [describes_iff, hr, hsel]
  constructor
  · rintro ⟨hrows, -⟩ p hp
    have hrow := List.map_inj_left.mp hrows p hp
    exact congrArg OptionSectionModel.subData hrow
  · intro hall
    have hrows : prefectures.map (rowFor newest) = prefectures.map (rowFor event) :=
      List.map_congr_left fun p hp => by rw [rowFor, hall p hp, rowFor]
    exact ⟨hrows, by rw [hrows]⟩

theorem describes_accept_iff (picker : Picker) (event : Event) (prefectures : List Prefecture) :
    Describes (picker.accept event prefectures) prefectures event ↔
      event.details.isSome ∨ picker.reloadDatasource = prefectures.map (fun p => ⟨p, none⟩) ∧
        picker.selectedOption = [] := by
  cases hd : event.details with
  | some details =>
    have hs : event.details.isSome := by rw [hd]; rfl
    refine iff_of_true ?_ (.inl rfl)
    rw [accept_of_details picker hs, describes_iff]
    exact ⟨rfl, rfl⟩
  | none =>
    have hj : joinPrefecture (prefectures.map (fun p => ⟨p, none⟩)) = [] := by
      simp [joinPrefecture, List.filter_map, Function.comp_def]
    rw [accept_of_no_details picker hd, describes_iff, rowFor_of_no_details hd, hj]
    exact (or_iff_right Bool.false_ne_true).symm

theorem describes_refresh_iff {picker : Picker} (h : Tracking picker) {event : Event}
    (hc : picker.currenEvent = some event) {prefectures : List Prefecture} (hne : prefectures ≠ []) :
    Describes (picker.refresh prefectures (List.range picker.subscriptions.length)) prefectures
        event ↔
      event.details.isSome ∨ ∃ newest, picker.subscriptions.getLast? = some newest ∧
        ∀ p ∈ prefectures, detailFor newest p.id = none := by
  have hall : refreshed picker (List.range picker.subscriptions.length) = picker.subscriptions :=
    filterMap_range_getElem? picker.subscriptions
  rw [refresh_eq, hall]
  cases hl : picker.subscriptions.getLast? with
  | none =>
    -- nothing subscribed yet, so there are no rows
    have hnil := List.getLast?_eq_none_iff.mp hl
    have hnd : ¬ event.details.isSome := fun hd => by
      have hn := h.newest event hc hd
      rw [hl] at hn
      cases hn
    refine iff_of_false (fun hdes => ?_) (by simpa using hnd)
    have hdata := hdes.data
    rw [hnil, List.foldl_nil, h.silent hnil] at hdata
    exact hne hdata.symm
  | some newest =>
    have hdet := h.detailed newest (List.mem_of_getLast? hl)
    have hdes := describes_foldl_reload hl hdet picker prefectures
    rw [describes_other_iff hdes]
    cases hd : event.details with
    | some details =>
      have hn := h.newest event hc (by rw [hd]; rfl)
      rw [hl] at hn
      obtain rfl := Option.some.inj hn
      exact iff_of_true (fun _ _ => rfl) (.inl rfl)
    | none =>
      simp [detailFor_of_no_details hd]

theorem currenEvent_accept (picker : Picker) (event : Event) (prefectures : List Prefecture) :
    (picker.accept event prefectures).currenEvent = some event := by
  cases hd : event.details with
  | none => rw [accept_of_no_details picker hd]
  | some details => rw [accept_of_details picker (by rw [hd]; rfl)]

theorem describesCurrent_iff {s : State} {event : Event} (hc : s.picker.currenEvent = some event) :
    DescribesCurrent s ↔ Describes s.picker s.prefectures event := by
  constructor
  · exact fun h => h event hc
  · intro h e he
    rw [hc] at he
    exact Option.some.inj he ▸ h

theorem delivers_describes_iff {s : State} (h : Tracking s.picker) (i : Input) (ho : InOrder s i) :
    (Delivers s i → DescribesCurrent ((machine δ).next s i)) ↔ Describable s i := by
  match i, ho with
  | .detailsAnswer index (some event), _ =>
    apply imp_congr_right
    intro hdel
    obtain ⟨hrows, hsel, hp⟩ := next_accepted δ s event hdel
    have hc := hrows.currenEvent.trans (currenEvent_accept s.picker event s.prefectures)
    rw [describesCurrent_iff hc, hp, ← describes_accept_iff, describes_iff, describes_iff,
      hrows.reloadDatasource, hsel]
  | .prefecturesAnswer (some prefectures) order, ho =>
    apply imp_congr_right
    intro hne
    obtain ⟨hpick, hp⟩ := next_refreshed δ s hne order
    have hcur : (s.picker.refresh prefectures order).currenEvent = s.picker.currenEvent := by
      rw [refresh_eq]
      exact (foldl_reload_keeps _ s.picker prefectures).1
    have ho : order = List.range s.picker.subscriptions.length := ho
    unfold DescribesCurrent
    rw [hpick, hp, hcur, ho]
    exact forall₂_congr fun event hc => describes_refresh_iff h hc hne
  | .showApply _, _ | .tapPrefecture, _ | .tapConfirm, _ | .pickerSelect _, _
  | .pickerConfirm, _ | .pickerReload, _ | .detailsAnswer _ none, _ | .applyAnswer _ _, _
  | .prefecturesAnswer none _, _ => exact iff_of_true (fun hdel => hdel.elim) trivial

/-- After each accepted event and each new list of prefectures the rows and the selection
are those for the current event, exactly as long as every step is describable. -/
theorem rows_describe_iff (prefectures : List Prefecture) (is : List Input)
    (ho : (machine δ).Along InOrder (start prefectures) is) :
    (machine δ).Along (fun s i => Delivers s i → DescribesCurrent ((machine δ).next s i))
        (start prefectures) is ↔
      (machine δ).Along Describable (start prefectures) is := by
  have h0 : Tracking (start prefectures).picker :=
    ⟨fun event he => absurd he List.not_mem_nil, fun event he => (nomatch he), fun _ => rfl⟩
  exact (machine δ).along_congr (I := fun s => Tracking s.picker)
    (fun s i h _ => tracking_step δ s i h) (fun s i h hord => delivers_describes_iff δ h i hord)
    h0 ho

end

/-- An event with details, a reload that brings the same event without any, and another
list of prefectures. -/
def detailsGone : List Input :=
  [.showApply (joinedEvent 5 []), .detailsAnswer 0 (some (joinedEvent 5 [1])), .pickerReload,
    .detailsAnswer 0 (some { joinedEvent 5 [1] with details := none })]

theorem rows_describe_iff_refreshed :
    (machine .viaLongest).Along
        (fun s i => Delivers s i → DescribesCurrent ((machine .viaLongest).next s i))
        (start [⟨1, "Tokyo"⟩])
        [.showApply (joinedEvent 5 []), .detailsAnswer 0 (some (joinedEvent 5 [1])),
          .prefecturesAnswer (some [⟨2, "Osaka"⟩]) [0]] ↔
      (machine .viaLongest).Along Describable (start [⟨1, "Tokyo"⟩])
        [.showApply (joinedEvent 5 []), .detailsAnswer 0 (some (joinedEvent 5 [1])),
          .prefecturesAnswer (some [⟨2, "Osaka"⟩]) [0]] :=
  rows_describe_iff .viaLongest [⟨1, "Tokyo"⟩] _ ⟨trivial, trivial, rfl, trivial⟩

/-- The current event has no details any more, and the rows and the selection are those of
the event accepted before. -/
theorem rows_outlive_details :
    let s := (machine .viaLongest).run (start [⟨1, "Tokyo"⟩]) detailsGone
    s.picker.currenEvent = some { joinedEvent 5 [1] with details := none } ∧
      s.picker.reloadDatasource = [⟨⟨1, "Tokyo"⟩, some ⟨1, 1, 1, [], some 4⟩⟩] ∧
      s.picker.selectedOption = [⟨1, "Tokyo"⟩] ∧ ¬ DescribesCurrent s := by
  intro s
  have hc : s.picker.currenEvent = some { joinedEvent 5 [1] with details := none } := by decide
  have hs : s.picker.selectedOption = [⟨1, "Tokyo"⟩] := by decide
  refine ⟨hc, by decide, hs, fun h => ?_⟩
  have hsel := (h _ hc).selected
  rw [hs] at hsel
  exact absurd hsel (by decide)

end Karupasu.Event.ApplySheet
