import Karupasu.Root.RoomIds

/-!
# What one poll leaves behind

The loop over the changes, for every valid edit script: what it keeps of `roomIds`, which
searches it starts, and what a delivered list makes of the rooms that were known.
-/
namespace Karupasu.Root.Rooms

open Karupasu.Library Karupasu.AppData
open Karupasu.RoomModel (Room)

/-- What the loop over the changes ends with. -/
structure Pass (poll : Nat) (rooms : List Room) (old kept : List Int) (searches : List Search) :
    Prop where
  kept_old : List.Sublist kept old
  kept_new : List.Sublist kept (rooms.map (·.roomId))
  /-- One search for each room whose id is not kept, and no other. -/
  searches_perm : List.Perm searches
    ((rooms.filter fun room => decide (room.roomId ∉ kept)).map (searchFor poll))

theorem map_roomId_searchFor (poll : Nat) (rooms : List Room) :
    (rooms.map (searchFor poll)).map (·.roomId) = rooms.map (·.roomId) := by
  rw [List.map_map]
  rfl

theorem changeLoop_between (poll : Nat) {rooms : List Room} (hn : (rooms.map (·.roomId)).Nodup)
    {old kept : List Int} {d : Script Int}
    (hb : Script.Between old (rooms.map (·.roomId)) kept d) :
    ∃ searches, changeLoop poll rooms d.changes old [] = some (kept, searches) ∧
      Pass poll rooms old kept searches := by
  have hmem : ∀ p ∈ d.insertions, p.2 ∈ rooms.map (·.roomId) :=
    fun p hp => (hb.mem_new_iff p.2).mpr (.inl (List.mem_map_of_mem hp))
  obtain ⟨started, hloop, hids, hrooms⟩ := changeLoop_insertions poll hmem kept []
  refine ⟨started, ?_, hb.sublist_old, hb.sublist_new, ?_⟩
  · rw [Script.changes, changeLoop_removals poll rooms hb.removed, hloop, List.nil_append]
  have hinserted : (d.insertions.map Prod.snd).Nodup :=
    ((Script.insertAll_perm hb.inserted).nodup_iff.mp hn).of_append_left
  have hstarted : started.Nodup := by
    rw [← hids] at hinserted
    exact List.Nodup.of_map _ hinserted
  have hsearches : ((rooms.filter fun room => decide (room.roomId ∉ kept)).map
      (searchFor poll)).Nodup := by
    refine List.Nodup.of_map (·.roomId) ?_
    rw [map_roomId_searchFor]
    exact hn.sublist (List.filter_sublist.map _)
  refine (List.perm_ext_iff_of_nodup hstarted hsearches).mpr fun q => ?_
  simp only [List.mem_map, List.mem_filter, decide_eq_true_eq]
  constructor
  · intro hq
    obtain ⟨room, hroom, rfl⟩ := hrooms q hq
    have hid : room.roomId ∈ d.insertions.map Prod.snd := hids ▸ List.mem_map_of_mem hq
    exact ⟨room, ⟨hroom, hb.inserted_not_kept hn hid⟩, rfl⟩
  · rintro ⟨room, ⟨hroom, hkept⟩, rfl⟩
    have hid : room.roomId ∈ started.map (·.roomId) := by
      rw [hids]
      exact ((hb.mem_new_iff room.roomId).mp (List.mem_map_of_mem hroom)).resolve_right hkept
    obtain ⟨q, hq, he⟩ := List.mem_map.mp hid
    obtain ⟨room', hroom', rfl⟩ := hrooms q hq
    rwa [← List.inj_on_of_nodup_map hn hroom' hroom he]

/-- The loop over a valid script from `old`, with whatever repetitions, to rooms of distinct
ids: no removal is out of range, every inserted room is found, what remains is a common
subsequence, and each other room is searched for once. Whoever delivers the list stores
what remains and sends the searches. -/
theorem difference_pass (poll : Nat) (rooms : List Room) (old : List Int) (d : Script Int)
    (hn : (rooms.map (·.roomId)).Nodup)
    (hd : Script.IsDifference old (rooms.map (·.roomId)) d) :
    (∀ p ∈ d.insertions, (rooms.find? (fun room => room.roomId == p.2)).isSome) ∧
    ∃ (kept : List Int) (searches : List Search),
      changeLoop poll rooms d.changes old [] = some (kept, searches) ∧
      Pass poll rooms old kept searches ∧
      ∀ (δ : Differ Int) (s : State), s.roomIds = old →
        δ.difference (rooms.map (·.roomId)) old = d →
        (deliver δ poll rooms s).1.roomIds = kept ∧
          (deliver δ poll rooms s).2 = searches.map .getEvents := by
  obtain ⟨kept, hb⟩ : Script.Applies old (rooms.map (·.roomId)) d := ⟨_, hd.between⟩
  obtain ⟨searches, hloop, hpass⟩ := changeLoop_between poll hn hb
  refine ⟨fun p hp => ?_, kept, searches, hloop, hpass, ?_⟩
  · exact find?_isSome ((hb.mem_new_iff p.2).mpr (.inl (List.mem_map_of_mem hp)))
  · intro δ s hs hdiff
    have hdelivered : changeLoop poll rooms
        (δ.difference (rooms.map (·.roomId)) ({ s with rooms := rooms } : State).roomIds).changes
        ({ s with rooms := rooms } : State).roomIds [] = some (kept, searches) := by
      show changeLoop poll rooms (δ.difference (rooms.map (·.roomId)) s.roomIds).changes
        s.roomIds [] = _
      rw [hs, hdiff]
      exact hloop
    simp only [deliver, hdelivered, and_true]
    exact roomIds_setRoomIds _ _

/-- From `[5, 5, 7]` to the rooms 7 and 8: the entries at 1 and 0 go, 8 comes in at 1. -/
def fromRepeated : Script Int := ⟨[(1, 5), (0, 5)], [(1, 8)]⟩

theorem difference_pass_repeated :
    (∀ p ∈ fromRepeated.insertions,
      ([soloRoom 7, soloRoom 8].find? (fun room => room.roomId == p.2)).isSome) ∧
    ∃ (kept : List Int) (searches : List Search),
      changeLoop 0 [soloRoom 7, soloRoom 8] fromRepeated.changes [5, 5, 7] [] =
        some (kept, searches) ∧
      Pass 0 [soloRoom 7, soloRoom 8] [5, 5, 7] kept searches ∧
      ∀ (δ : Differ Int) (s : State), s.roomIds = [5, 5, 7] →
        δ.difference ([soloRoom 7, soloRoom 8].map (·.roomId)) [5, 5, 7] = fromRepeated →
        (deliver δ 0 [soloRoom 7, soloRoom 8] s).1.roomIds = kept ∧
          (deliver δ 0 [soloRoom 7, soloRoom 8] s).2 = searches.map .getEvents :=
  difference_pass 0 [soloRoom 7, soloRoom 8] [5, 5, 7] fromRepeated (by decide)
    ⟨by decide, by decide, by decide, by decide, by decide⟩

/-! ## Rooms that are no longer listed -/

/-- The relay holds the list, and no id is known that the list does not have. -/
structure Listed (rooms : List Room) (s : State) : Prop where
  rooms_eq : s.rooms = rooms
  known : ∀ id ∈ s.roomIds, id ∈ rooms.map (·.roomId)

/-- What may come in before a search is answered or another list is delivered. -/
def Meanwhile : Input → Prop
  | .searchAnswer _ _ => False
  | .roomAnswer _ (some (_ :: _)) => False
  | .session .relaunch => False
  | _ => True

section

variable (δ : Differ Int)

theorem listed_meanwhile {rooms : List Room} (s : State) (i : Input) (h : Listed rooms s)
    (hi : Meanwhile i) : Listed rooms ((machine δ).next s i) := by
  cases i with
  | fetchRoom => exact ⟨h.rooms_eq, h.known⟩
  | searchAnswer index events => exact hi.elim
  | roomAnswer index items =>
    rcases roomAnswer_cases δ s index items with
      ⟨_, he⟩ | ⟨_, he⟩ | ⟨_, list, _, _, _, hitems, hne, _⟩
    · rw [he]
      exact h
    · rw [he]
      exact ⟨h.rooms_eq, h.known⟩
    · subst hitems
      cases list with
      | nil => exact absurd rfl hne
      | cons room list => exact hi.elim
  | session i =>
    have hrooms : ((machine δ).next s (.session i)).rooms = s.rooms := by
      cases i with
      | relaunch => exact hi.elim
      | _ => rfl
    refine ⟨by rw [hrooms, h.rooms_eq], fun id hid => ?_⟩
    rw [roomIds_session] at hid
    split at hid
    · cases hid
    · exact h.known id hid

/-- A delivered list takes the place of the old one and of all ids it does not have. -/
theorem listed_roomAnswer {s : State} {index poll : Nat} (hpoll : s.polls[index]? = some poll)
    {rooms : List Room} (hne : rooms ≠ []) :
    Listed rooms ((machine δ).next s (.roomAnswer index (some rooms))) := by
  rcases roomAnswer_cases δ s index (some rooms) with
    ⟨hnone, _⟩ | ⟨hempty, _⟩ | ⟨_, list, kept, _, _, hitems, _, hb, _, he⟩
  · rw [hpoll] at hnone
    cases hnone
  · rcases hempty with hnone | hnil
    · cases hnone
    · exact absurd (Option.some.inj hnil) hne
  · obtain rfl := Option.some.inj hitems
    rw [he]
    refine ⟨rfl, fun id hid => ?_⟩
    have hkept : id ∈ kept := by
      rw [← roomIds_setRoomIds { s with polls := s.polls.eraseIdx index, rooms := rooms } kept]
      exact hid
    exact hb.sublist_new.subset hkept

theorem roomAnswer_empty (s : State) (index : Nat) :
    ((machine δ).next s (.roomAnswer index (some []))).rooms = s.rooms ∧
      ((machine δ).next s (.roomAnswer index (some []))).roomIds = s.roomIds := by
  rcases roomAnswer_cases δ s index (some []) with
    ⟨_, he⟩ | ⟨_, he⟩ | ⟨_, list, _, _, _, hitems, hne, _⟩
  · rw [he]
    exact ⟨rfl, rfl⟩
  · rw [he]
    exact ⟨rfl, rfl⟩
  · exact absurd (Option.some.inj hitems).symm hne

/-- After a list that is not empty has been delivered, and until a search is answered or
another list is delivered, the relay holds the list and each known id is in it. An empty list
changes neither the relay nor the known ids. -/
theorem unlisted_rooms_dropped (s : State) (is : List Input) (index poll : Nat)
    (hpoll : ((machine δ).run s is).polls[index]? = some poll) :
    (∀ (rooms : List Room) (js : List Input), rooms ≠ [] → (∀ j ∈ js, Meanwhile j) →
      Listed rooms ((machine δ).run s (is ++ .roomAnswer index (some rooms) :: js))) ∧
    ((machine δ).run s (is ++ [.roomAnswer index (some [])])).rooms =
        ((machine δ).run s is).rooms ∧
      ((machine δ).run s (is ++ [.roomAnswer index (some [])])).roomIds =
        ((machine δ).run s is).roomIds := by
  refine ⟨fun rooms js hne hjs => ?_, ?_⟩
  · rw [Machine.run_append, Machine.run_cons]
    exact ((machine δ).always_of_step (listed_meanwhile δ) (listed_roomAnswer δ hpoll hne)
      ((machine δ).along_of_forall _ hjs)).last
  · rw [Machine.run_append, Machine.run_cons, Machine.run_nil]
    exact roomAnswer_empty δ _ index

end

/-- Room 1 is listed and its search answered; a poll is in flight. -/
def roomKnown : List Input :=
  [.fetchRoom, .roomAnswer 0 (some [soloRoom 1]), .searchAnswer 0 (some [soloEvent 7]), .fetchRoom]

theorem unlisted_rooms_dropped_known :
    Listed [soloRoom 2] ((machine .viaLongest).run (start (UserModel.init resetALL) [])
      (roomKnown ++ .roomAnswer 0 (some [soloRoom 2]) :: [.fetchRoom])) :=
  (unlisted_rooms_dropped .viaLongest (start (UserModel.init resetALL) []) roomKnown 0 1
    (by decide)).1 [soloRoom 2] [.fetchRoom] (by decide)
    (by simp [Meanwhile])

/-- The server lists no room any more, and room 1 stays listed and known. -/
theorem empty_list_keeps_room :
    let s := (machine .viaLongest).run (start (UserModel.init resetALL) [])
      (roomKnown ++ [.roomAnswer 0 (some [])])
    s.rooms = [soloRoom 1] ∧ s.roomIds = [1] ∧ ¬Listed [] s := by
  intro s
  have hids : s.roomIds = [1] := by decide
  refine ⟨by decide, hids, fun h => ?_⟩
  have hmem := h.known 1 (by rw [hids]; exact List.mem_singleton_self 1)
  cases hmem

end Karupasu.Root.Rooms
