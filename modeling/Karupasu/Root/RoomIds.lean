import Karupasu.Root.Rooms

/-!
# What polls and searches do to `roomIds`

A poll leaves in `roomIds` what the edit script keeps and starts one search per
insertion; a search appends its id once per matching event. Both facts hold of every
script the standard library may return, and the results below use nothing else.
-/
namespace Karupasu.Root.Rooms

open Karupasu.Library Karupasu.AppData
open Karupasu.EventModel (Event)
open Karupasu.RoomModel (Room)

@[simp] theorem roomIds_setRoomIds (s : State) (ids : List Int) : (s.setRoomIds ids).roomIds = ids :=
  s.user.defaults.value_setValue_self .roomIds ids

/-! ## The session's handlers -/

/-- `AppData.resetALL` is the one statement of `UserModel` that touches `roomIds`. -/
def resets : UserModel.Statement → Bool
  | .resetALL => true
  | _ => false

/-- The input makes `UserModel` clear the stored data. -/
def logsOut (user : UserModel.State) (i : UserModel.Input) : Bool :=
  (UserModel.statements user i).any resets

theorem value_roomIds_setValue (d : UserDefaults) (r : UserModel.Relay) (v : r.Value) :
    (d.setValue r.key v).value .roomIds = d.value .roomIds := by
  cases r <;> rfl

theorem value_roomIds_exec (user : UserModel.State) (t : UserModel.Statement) :
    (UserModel.exec user t).defaults.value .roomIds =
      if resets t then [] else user.defaults.value .roomIds := by
  cases t with
  | set r v => exact value_roomIds_setValue user.defaults r v
  | save r => exact value_roomIds_setValue user.defaults r (user.relays r)
  | _ => rfl

theorem value_roomIds_execAll (user : UserModel.State) (ts : List UserModel.Statement) :
    (UserModel.execAll user ts).defaults.value .roomIds =
      if ts.any resets then [] else user.defaults.value .roomIds := by
  induction ts generalizing user with
  | nil => rfl
  | cons t ts ih =>
    show (UserModel.execAll (UserModel.exec user t) ts).defaults.value .roomIds = _
    rw [ih, value_roomIds_exec, List.any_cons]
    cases resets t <;> cases ts.any resets <;> rfl

theorem roomIds_session (δ : Differ Int) (s : State) (i : UserModel.Input) :
    ((machine δ).next s (.session i)).roomIds = if logsOut s.user i then [] else s.roomIds := by
  cases i with
  | relaunch => rfl
  | _ => exact value_roomIds_execAll s.user _

/-! ## The loop over the changes -/

theorem changeLoop_removals (poll : Nat) (rooms : List Room) {rs : List (Nat × Int)}
    {l kept : List Int} (h : Script.removeAll l rs = some kept) (rest : List (Change Int))
    (searches : List Search) :
    changeLoop poll rooms (rs.map (fun p => .remove p.1 p.2) ++ rest) l searches =
      changeLoop poll rooms rest kept searches := by
  induction rs generalizing l with
  | nil => cases h; rfl
  | cons p rs ih =>
    obtain ⟨hat, hrest⟩ := Script.removeAll_cons h
    obtain ⟨hlt, _⟩ := List.getElem?_eq_some_iff.mp hat
    simp only [List.map_cons, List.cons_append, changeLoop, if_pos hlt]
    exact ih hrest

/-- The search that a poll starts for a room. -/
def searchFor (poll : Nat) (room : Room) : Search :=
  ⟨poll, room.roomId, room.title, room.participantsCount⟩

theorem find?_isSome {rooms : List Room} {id : Int} (h : id ∈ rooms.map (·.roomId)) :
    (rooms.find? (fun room => room.roomId == id)).isSome := by
  obtain ⟨room, hroom, he⟩ := List.mem_map.mp h
  exact List.find?_isSome.mpr ⟨room, hroom, by simpa using he⟩

/-- Each inserted id is one of the poll's, so the guard on the title never leaves the loop. -/
theorem changeLoop_insertions (poll : Nat) {rooms : List Room} {is : List (Nat × Int)}
    (hmem : ∀ p ∈ is, p.2 ∈ rooms.map (·.roomId)) (ids : List Int) (searches : List Search) :
    ∃ started : List Search,
      changeLoop poll rooms (is.map (fun p => .insert p.1 p.2)) ids searches =
        some (ids, searches ++ started) ∧
      started.map (·.roomId) = is.map Prod.snd ∧
      ∀ q ∈ started, ∃ room ∈ rooms, q = searchFor poll room := by
  induction is generalizing searches with
  | nil => exact ⟨[], by simp [changeLoop]⟩
  | cons p is ih =>
    obtain ⟨room, hf⟩ := Option.isSome_iff_exists.mp (find?_isSome (hmem p List.mem_cons_self))
    have hid : room.roomId = p.2 := by simpa using List.find?_some hf
    obtain ⟨started, hloop, hids, hrooms⟩ :=
      ih (fun p' hp' => hmem p' (List.mem_cons_of_mem p hp'))
        (searches ++ [⟨poll, p.2, room.title, room.participantsCount⟩])
    refine ⟨⟨poll, p.2, room.title, room.participantsCount⟩ :: started, ?_, ?_, ?_⟩
    · simp only [List.map_cons, changeLoop, hf, hloop]
      simp
    · rw [List.map_cons, List.map_cons, hids]
    · intro q hq
      rcases List.mem_cons.mp hq with rfl | hq
      · exact ⟨room, List.mem_of_find?_eq_some hf, by rw [searchFor, hid]⟩
      · exact hrooms q hq

section

variable (δ : Differ Int)

/-- The whole effect of a poll result. It never traps. -/
theorem deliver_eq (poll : Nat) (rooms : List Room) (s : State) :
    ∃ (kept : List Int) (started : List Search),
      Script.Between s.roomIds (rooms.map (·.roomId)) kept
        (δ.difference (rooms.map (·.roomId)) s.roomIds) ∧
      started.map (·.roomId) =
        (δ.difference (rooms.map (·.roomId)) s.roomIds).insertions.map Prod.snd ∧
      (∀ q ∈ started, q.poll = poll) ∧
      deliver δ poll rooms s =
        ({ ({ s with rooms := rooms }).setRoomIds kept with searches := s.searches ++ started },
          started.map .getEvents) := by
  obtain ⟨kept, hb⟩ := (δ.minimal (rooms.map (·.roomId)) s.roomIds).applies
  have hmem : ∀ p ∈ (δ.difference (rooms.map (·.roomId)) s.roomIds).insertions,
      p.2 ∈ rooms.map (·.roomId) :=
    fun p hp => (hb.mem_new_iff p.2).mpr (.inl (List.mem_map_of_mem hp))
  obtain ⟨started, hloop, hids, hrooms⟩ := changeLoop_insertions poll hmem kept []
  have hpoll : ∀ q ∈ started, q.poll = poll := by
    intro q hq
    obtain ⟨room, -, rfl⟩ := hrooms q hq
    rfl
  refine ⟨kept, started, hb, hids, hpoll, ?_⟩
  have hall := changeLoop_removals poll rooms hb.removed
    ((δ.difference (rooms.map (·.roomId)) s.roomIds).insertions.map
      (fun p => .insert p.1 p.2)) []
  rw [hloop] at hall
  have hdiff : changeLoop poll rooms
      (δ.difference (rooms.map (·.roomId)) ({ s with rooms := rooms } : State).roomIds).changes
      ({ s with rooms := rooms } : State).roomIds [] = some (kept, started) := hall
  simp only [deliver, hdiff]

/-- What an answer to a poll does: nothing, or it ends the poll, or it also delivers a list. -/
theorem roomAnswer_cases (s : State) (index : Nat) (items : Option (List Room)) :
    (s.polls[index]? = none ∧ (machine δ).next s (.roomAnswer index items) = s) ∨
    ((items = none ∨ items = some []) ∧
      (machine δ).next s (.roomAnswer index items) =
        { s with polls := s.polls.eraseIdx index }) ∨
    ∃ (poll : Nat) (rooms : List Room) (kept : List Int) (started : List Search),
      s.polls[index]? = some poll ∧ items = some rooms ∧ rooms ≠ [] ∧
      Script.Between s.roomIds (rooms.map (·.roomId)) kept
        (δ.difference (rooms.map (·.roomId)) s.roomIds) ∧
      (∀ q ∈ started, q.poll = poll) ∧
      (machine δ).next s (.roomAnswer index items) =
        { ({ s with polls := s.polls.eraseIdx index, rooms := rooms }).setRoomIds kept with
          searches := s.searches ++ started } := by
  cases hget : s.polls[index]? with
  | none =>
    refine .inl ⟨rfl, ?_⟩
    simp only [Machine.next, machine, step, hget]
  | some poll =>
    match items with
    | none =>
      refine .inr (.inl ⟨.inl rfl, ?_⟩)
      simp only [Machine.next, machine, step, hget, roomAnswered]
    | some [] =>
      refine .inr (.inl ⟨.inr rfl, ?_⟩)
      simp only [Machine.next, machine, step, hget, roomAnswered, List.isEmpty_nil, if_true]
    | some (room :: rooms) =>
      obtain ⟨kept, started, hb, -, hpoll, he⟩ :=
        deliver_eq δ poll (room :: rooms) { s with polls := s.polls.eraseIdx index }
      refine .inr (.inr ⟨poll, room :: rooms, kept, started, rfl, rfl, by simp, hb, hpoll, ?_⟩)
      simp only [Machine.next, machine, step, hget, roomAnswered, List.isEmpty_cons]
      exact congrArg Prod.fst he

/-! ## Rooms that are already known -/

/-- The poll lists rooms with pairwise distinct ids. -/
def DistinctIds : Input → Prop
  | .roomAnswer _ (some rooms) => (rooms.map (·.roomId)).Nodup
  | _ => True

/-- A poll result neither forgets a room that it shares with `roomIds` nor searches for it. -/
def KeepsKnown (s : State) (i : Input) : Prop :=
  match i with
  | .roomAnswer _ (some rooms) =>
    ∀ r ∈ s.roomIds, r ∈ rooms.map (·.roomId) →
      r ∈ ((machine δ).next s i).roomIds ∧
        ∀ q : Search, .getEvents q ∈ (machine δ).emit s i → q.roomId ≠ r
  | _ => True

/-- The ids that a poll result shares with `roomIds` stand in `roomIds` in the order
in which the poll lists them. -/
def InOrder (s : State) : Input → Prop
  | .roomAnswer index (some rooms) =>
    index < s.polls.length →
      List.Sublist ((rooms.map (·.roomId)).filter (fun r => decide (r ∈ s.roomIds))) s.roomIds
  | _ => True

theorem deliver_keeps_known_iff (poll : Nat) {rooms : List Room} (s : State)
    (hn : (rooms.map (·.roomId)).Nodup) :
    (∀ r ∈ s.roomIds, r ∈ rooms.map (·.roomId) →
      r ∈ (deliver δ poll rooms s).1.roomIds ∧
        ∀ q : Search, .getEvents q ∈ (deliver δ poll rooms s).2 → q.roomId ≠ r) ↔
      List.Sublist ((rooms.map (·.roomId)).filter (fun r => decide (r ∈ s.roomIds)))
        s.roomIds := by
  obtain ⟨kept, started, hb, hids, -, he⟩ := deliver_eq δ poll rooms s
  have hkept : (deliver δ poll rooms s).1.roomIds = kept := by
    rw [he]
    exact roomIds_setRoomIds { s with rooms := rooms } kept
  rw [← (δ.minimal (rooms.map (·.roomId)) s.roomIds).keeps_common_iff hb hn, hkept, he]
  constructor
  · intro h r hr hr'
    exact (h r hr hr').1
  · intro h r hr hr'
    have hk := h r hr hr'
    refine ⟨hk, ?_⟩
    rintro q hq rfl
    obtain ⟨q', hq', heq⟩ := List.mem_map.mp hq
    cases heq
    -- an id that is searched for is inserted, and what is inserted was not kept
    have hins : q.roomId ∈
        (δ.difference (rooms.map (·.roomId)) s.roomIds).insertions.map Prod.snd := by
      rw [← hids]
      exact List.mem_map_of_mem hq'
    exact hb.inserted_not_kept hn hins hk

theorem keepsKnown_iff (s : State) (i : Input) (hd : DistinctIds i) :
    KeepsKnown δ s i ↔ InOrder s i := by
  cases i with
  | fetchRoom => exact Iff.rfl
  | searchAnswer index events => exact Iff.rfl
  | session i => exact Iff.rfl
  | roomAnswer index items =>
    cases items with
    | none => exact Iff.rfl
    | some rooms =>
      rcases Nat.lt_or_ge index s.polls.length with hlt | hge
      · have hget : s.polls[index]? = some s.polls[index] := List.getElem?_eq_getElem hlt
        cases rooms with
        | nil => simp [KeepsKnown, InOrder]
        | cons room rooms =>
          have hk := deliver_keeps_known_iff δ s.polls[index]
            { s with polls := s.polls.eraseIdx index } hd
          simp only [KeepsKnown, InOrder, Machine.next, Machine.emit, machine, step, hget,
            roomAnswered, List.isEmpty_cons, hlt, forall_const]
          exact hk
      · have hget : s.polls[index]? = none := List.getElem?_eq_none hge
        have hlt : ¬index < s.polls.length := by omega
        simp only [KeepsKnown, InOrder, Machine.next, Machine.emit, machine, step, hget, hlt,
          false_implies, iff_true]
        intro r hr _
        exact ⟨hr, fun q hq => absurd hq List.not_mem_nil⟩

/-- The polls of a run respect the known rooms exactly when each of them lists its known
rooms in the order in which `roomIds` has them, which is the order in which the searches
were answered. -/
theorem polls_keep_known_iff (s : State) (is : List Input) (hd : ∀ i ∈ is, DistinctIds i) :
    (machine δ).Along (KeepsKnown δ) s is ↔ (machine δ).Along InOrder s is :=
  (machine δ).along_congr (I := fun _ => True) (fun _ _ _ _ => trivial)
    (fun s i _ hi => keepsKnown_iff δ s i hi) trivial ((machine δ).along_of_forall s hd)

end

/-- A room and an event of one seat, for runs on fixed inputs. -/
def soloRoom (roomId : Int) : Room := ⟨roomId, "room", "", 1, "", []⟩

def soloEvent (id : Int) : Event := ⟨id, "room", "", 0, 0, none, none, none, 1, none, none⟩

/-- Rooms 1 and 2 are found by the first poll, and the search for 2 is answered first. -/
def answeredInReverse : List Input :=
  [.fetchRoom, .roomAnswer 0 (some [soloRoom 1, soloRoom 2]),
    .searchAnswer 1 (some [soloEvent 7]), .searchAnswer 0 (some [soloEvent 8]), .fetchRoom]

theorem polls_keep_known_iff_reverse :
    (machine .viaLongest).Along (KeepsKnown .viaLongest) (start (UserModel.init resetALL) [])
        (answeredInReverse ++ [.roomAnswer 0 (some [soloRoom 2, soloRoom 1])]) ↔
      (machine .viaLongest).Along InOrder (start (UserModel.init resetALL) [])
        (answeredInReverse ++ [.roomAnswer 0 (some [soloRoom 2, soloRoom 1])]) := by
  refine polls_keep_known_iff .viaLongest _ _ ?_
  simp [answeredInReverse, DistinctIds, soloRoom]

/-- The same list polled again drops one of the two known rooms and searches for it. -/
theorem poll_forgets_known :
    let s := (machine .viaLongest).run (start (UserModel.init resetALL) []) answeredInReverse
    let again := Input.roomAnswer 0 (some [soloRoom 1, soloRoom 2])
    s.roomIds = [2, 1] ∧ ((machine .viaLongest).next s again).roomIds = [2] ∧
      (machine .viaLongest).emit s again = [.getEvents ⟨1, 1, "room", 1⟩] ∧
      ¬(machine .viaLongest).Along (KeepsKnown .viaLongest)
        (start (UserModel.init resetALL) []) (answeredInReverse ++ [again]) := by
  intro s again
  have hids : s.roomIds = [2, 1] := by decide
  have hafter : ((machine .viaLongest).next s again).roomIds = [2] := by decide
  refine ⟨hids, hafter, by decide, ?_⟩
  intro h
  have hk : KeepsKnown .viaLongest s again := h.at
  have h1 := (hk 1 (by rw [hids]; decide) (by decide)).1
  rw [hafter] at h1
  exact absurd h1 (by decide)

/-! ## Repetitions -/

/-- The events a search result holds for its room. -/
def matching (search : Search) (events : List Event) : List Event :=
  events.filter (fun event => decide (event.maxParticipantsCount = search.participantsCount))

theorem announce_eq (search : Search) (events : List Event) (ids : List Int) :
    announce search events ids =
      (ids ++ List.replicate (matching search events).length search.roomId,
        List.replicate (matching search events).length .showOver) := by
  induction events generalizing ids with
  | nil => simp [announce, matching]
  | cons event events ih =>
    by_cases h : event.maxParticipantsCount = search.participantsCount
    · simp [announce, matching, h, ih, List.replicate_succ]
    · simp [announce, matching, h, ih]

/-- Each search answered finds no event for its room, or just one and a room not yet known. -/
def FindsOnce (s : State) : Input → Prop
  | .searchAnswer index (some events) =>
    ∀ search, s.searches[index]? = some search →
      (matching search events).length = 0 ∨
        (matching search events).length = 1 ∧ search.roomId ∉ s.roomIds
  | _ => True

theorem nodup_append_replicate_iff {ids : List Int} (h : ids.Nodup) (n : Nat) (r : Int) :
    (ids ++ List.replicate n r).Nodup ↔ n = 0 ∨ n = 1 ∧ r ∉ ids := by
  rw [List.nodup_append, List.nodup_replicate]
  constructor
  · rintro ⟨-, hle, hne⟩
    rcases Nat.eq_zero_or_pos n with h0 | hpos
    · exact .inl h0
    · refine .inr ⟨by omega, fun hr => ?_⟩
      exact hne r hr r (List.mem_replicate.mpr ⟨by omega, rfl⟩) rfl
  · rintro (rfl | ⟨rfl, hr⟩)
    · exact ⟨h, by omega, by simp⟩
    · refine ⟨h, le_refl 1, ?_⟩
      rintro a ha b hb rfl
      exact hr ((List.mem_replicate.mp hb).2 ▸ ha)

/-- What an answer to a search does: nothing, or it ends the search, or it also appends. -/
theorem searchAnswer_cases (δ : Differ Int) (s : State) (index : Nat)
    (events : Option (List Event)) :
    (s.searches[index]? = none ∧ (machine δ).next s (.searchAnswer index events) = s) ∨
    (events = none ∧ (machine δ).next s (.searchAnswer index events) =
      { s with searches := s.searches.eraseIdx index }) ∨
    ∃ (search : Search) (found : List Event),
      s.searches[index]? = some search ∧ events = some found ∧
      (machine δ).next s (.searchAnswer index events) =
        ({ s with searches := s.searches.eraseIdx index }).setRoomIds
          (s.roomIds ++ List.replicate (matching search found).length search.roomId) := by
  cases hget : s.searches[index]? with
  | none =>
    refine .inl ⟨rfl, ?_⟩
    simp only [Machine.next, machine, step, hget]
  | some search =>
    cases events with
    | none =>
      refine .inr (.inl ⟨rfl, ?_⟩)
      simp only [Machine.next, machine, step, hget, searchAnswered]
    | some found =>
      refine .inr (.inr ⟨search, found, rfl, rfl, ?_⟩)
      simp only [Machine.next, machine, step, hget, searchAnswered, announce_eq]
      rfl

theorem nodup_roomAnswer (δ : Differ Int) {s : State} (hs : s.roomIds.Nodup) (index : Nat)
    (items : Option (List Room)) :
    ((machine δ).next s (.roomAnswer index items)).roomIds.Nodup := by
  rcases roomAnswer_cases δ s index items with
    ⟨_, he⟩ | ⟨_, he⟩ | ⟨_, _, kept, _, _, _, _, hb, _, he⟩
  · rw [he]
    exact hs
  · rw [he]
    exact hs
  · rw [he]
    show (State.setRoomIds _ kept).roomIds.Nodup
    rw [roomIds_setRoomIds]
    exact hs.sublist hb.sublist_old

theorem nodup_searchAnswer_iff (δ : Differ Int) {s : State} (hs : s.roomIds.Nodup) (index : Nat)
    (events : Option (List Event)) :
    ((machine δ).next s (.searchAnswer index events)).roomIds.Nodup ↔
      FindsOnce s (.searchAnswer index events) := by
  rcases searchAnswer_cases δ s index events with
    ⟨hnone, he⟩ | ⟨rfl, he⟩ | ⟨search, found, hget, rfl, he⟩
  · rw [he]
    refine iff_of_true hs ?_
    cases events with
    | none => trivial
    | some found => simp [FindsOnce, hnone]
  · rw [he]
    exact iff_of_true hs trivial
  · rw [he, roomIds_setRoomIds, nodup_append_replicate_iff hs]
    simp [FindsOnce, hget]

/-- From a list without repetitions, `roomIds` stays free of them in every state of a run
exactly when each search answered finds its room at most once and still unknown. -/
theorem roomIds_nodup_iff (δ : Differ Int) {s : State} (hs : s.roomIds.Nodup) (is : List Input) :
    (machine δ).Always (fun s => s.roomIds.Nodup) s is ↔ (machine δ).Along FindsOnce s is := by
  refine (machine δ).always_iff_along_of_step ?_ hs is
  intro s i hs
  cases i with
  | fetchRoom => exact iff_of_true hs trivial
  | session i =>
    refine iff_of_true ?_ trivial
    rw [roomIds_session]
    split
    · exact List.nodup_nil
    · exact hs
  | roomAnswer index items =>
    exact iff_of_true (nodup_roomAnswer δ hs index items) trivial
  | searchAnswer index events => exact nodup_searchAnswer_iff δ hs index events

theorem roomIds_nodup_iff_reverse :
    (machine .viaLongest).Always (fun s => s.roomIds.Nodup) (start (UserModel.init resetALL) [])
        answeredInReverse ↔
      (machine .viaLongest).Along FindsOnce (start (UserModel.init resetALL) [])
        answeredInReverse := by
  have hs : (start (UserModel.init resetALL) []).roomIds.Nodup := List.nodup_nil
  exact roomIds_nodup_iff .viaLongest hs answeredInReverse

/-- Two events for one room: the `return` in the `forEach` does not end the loop. -/
theorem two_events_repeat_roomId :
    let is := [.fetchRoom, .roomAnswer 0 (some [soloRoom 1]),
      Input.searchAnswer 0 (some [soloEvent 7, soloEvent 8])]
    ((machine .viaLongest).run (start (UserModel.init resetALL) []) is).roomIds = [1, 1] ∧
      ¬(machine .viaLongest).Always (fun s => s.roomIds.Nodup)
        (start (UserModel.init resetALL) []) is := by
  intro is
  have hids : ((machine .viaLongest).run (start (UserModel.init resetALL) []) is).roomIds =
      [1, 1] := by decide
  refine ⟨hids, fun h => ?_⟩
  have hl := h.last
  rw [hids] at hl
  exact absurd hl (by decide)

end Karupasu.Root.Rooms
