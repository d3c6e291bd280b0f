import Karupasu.Root.RoomIds

/-!
# Where the entries of `roomIds` come from

Nothing ties a poll or a search to the session it was sent in: a logout empties
`roomIds` and leaves both in flight. The history variable below keeps, next to each
entry of `roomIds`, the number of the poll whose search appended it.
-/
namespace Karupasu.Root.Rooms

open Karupasu.Library Karupasu.AppData

/-- The entries of `roomIds`, each with the number of the poll it comes from. -/
abbrev Origins := List (Int × Nat)

section

variable (δ : Differ Int)

def recordOrigin (s : State) (i : Input) (origins : Origins) : Origins :=
  match i with
  | .roomAnswer index (some rooms) =>
    if index < s.polls.length ∧ rooms ≠ [] then
      (δ.difference (rooms.map (·.roomId)) s.roomIds).removals.foldl
        (fun o p => o.eraseIdx p.1) origins
    else origins
  | .searchAnswer index (some events) =>
    match s.searches[index]? with
    | some search =>
      origins ++ List.replicate (matching search events).length (search.roomId, search.poll)
    | none => origins
  | .session i => if logsOut s.user i then [] else origins
  | _ => origins

/-- The poll was sent after `s`, or it was in flight at `s`, or a search for the id was. -/
def Since (s : State) (e : Int × Nat) : Prop :=
  s.sent ≤ e.2 ∨ e.2 ∈ s.polls ∨ ∃ q ∈ s.searches, q.roomId = e.1 ∧ q.poll = e.2

/-- Everything in `p` can be traced back to `s`. -/
structure Traced (s : State) (p : State × Origins) : Prop where
  sent_le : s.sent ≤ p.1.sent
  ids : p.2.map Prod.fst = p.1.roomIds
  polls : ∀ n ∈ p.1.polls, s.sent ≤ n ∨ n ∈ s.polls
  searches : ∀ q ∈ p.1.searches, Since s (q.roomId, q.poll)
  origins : ∀ e ∈ p.2, Since s e

theorem map_eraseOffsets {l kept : List Int} {rs : List (Nat × Int)}
    (h : Script.removeAll l rs = some kept) {origins : Origins} (ho : origins.map Prod.fst = l) :
    (rs.foldl (fun o p => o.eraseIdx p.1) origins).map Prod.fst = kept := by
  induction rs generalizing l origins with
  | nil => cases h; exact ho
  | cons p rs ih =>
    have hrest := (Script.removeAll_cons h).2
    refine ih hrest ?_
    rw [← ho, List.eraseIdx_map]

theorem mem_of_mem_eraseOffsets {rs : List (Nat × Int)} {origins : Origins} {e : Int × Nat}
    (he : e ∈ rs.foldl (fun o p => o.eraseIdx p.1) origins) : e ∈ origins := by
  induction rs generalizing origins with
  | nil => exact he
  | cons p rs ih => exact List.mem_of_mem_eraseIdx (ih he)

theorem traced_fetchRoom {s : State} {p : State × Origins} (h : Traced s p) :
    Traced s (((machine δ).withHistory (recordOrigin δ)).next p .fetchRoom) := by
  obtain ⟨hle, hids, hp, hq, ho⟩ := h
  refine ⟨Nat.le_succ_of_le hle, hids, ?_, hq, ho⟩
  intro n hn
  rcases List.mem_append.mp hn with hn | hn
  · exact hp n hn
  · rw [List.mem_singleton.mp hn]
    exact .inl hle

theorem traced_roomAnswer {s : State} {p : State × Origins} (h : Traced s p) (index : Nat)
    (items : Option (List RoomModel.Room)) :
    Traced s (((machine δ).withHistory (recordOrigin δ)).next p (.roomAnswer index items)) := by
  obtain ⟨hle, hids, hp, hq, ho⟩ := h
  rw [Machine.next_withHistory]
  rcases roomAnswer_cases δ p.1 index items with
    ⟨hnone, he⟩ | ⟨hitems, he⟩ | ⟨poll, rooms, kept, started, hget, rfl, hne, hb, hpoll, he⟩
  · have hge : ¬index < p.1.polls.length := by
      have hge := List.getElem?_eq_none_iff.mp hnone
      omega
    have hr : recordOrigin δ p.1 (.roomAnswer index items) p.2 = p.2 := by
      cases items <;> simp [recordOrigin, hge]
    rw [he, hr]
    exact ⟨hle, hids, hp, hq, ho⟩
  · have hr : recordOrigin δ p.1 (.roomAnswer index items) p.2 = p.2 := by
      rcases hitems with rfl | rfl <;> simp [recordOrigin]
    rw [he, hr]
    exact ⟨hle, hids, fun n hn => hp n (List.mem_of_mem_eraseIdx hn), hq, ho⟩
  · obtain ⟨hlt, hat⟩ := List.getElem?_eq_some_iff.mp hget
    rw [he]
    simp only [recordOrigin, if_pos (And.intro hlt hne)]
    refine ⟨hle, ?_, fun n hn => hp n (List.mem_of_mem_eraseIdx hn), ?_,
      fun e he => ho e (mem_of_mem_eraseOffsets he)⟩
    · rw [map_eraseOffsets hb.removed hids]
      exact (roomIds_setRoomIds _ kept).symm
    · intro q hmem
      rcases List.mem_append.mp hmem with hmem | hmem
      · exact hq q hmem
      · -- a search started now carries the number of the poll it was started by
        have hin : q.poll ∈ p.1.polls := by
          rw [hpoll q hmem, ← hat]
          exact List.getElem_mem hlt
        rcases hp q.poll hin with hsent | hpolls
        · exact .inl hsent
        · exact .inr (.inl hpolls)

theorem traced_searchAnswer {s : State} {p : State × Origins} (h : Traced s p) (index : Nat)
    (events : Option (List EventModel.Event)) :
    Traced s (((machine δ).withHistory (recordOrigin δ)).next p (.searchAnswer index events)) := by
  obtain ⟨hle, hids, hp, hq, ho⟩ := h
  rw [Machine.next_withHistory]
  rcases searchAnswer_cases δ p.1 index events with
    ⟨hnone, he⟩ | ⟨rfl, he⟩ | ⟨search, found, hget, rfl, he⟩
  · have hr : recordOrigin δ p.1 (.searchAnswer index events) p.2 = p.2 := by
      cases events <;> simp [recordOrigin, hnone]
    rw [he, hr]
    exact ⟨hle, hids, hp, hq, ho⟩
  · rw [he]
    exact ⟨hle, hids, hp, fun q hmem => hq q (List.mem_of_mem_eraseIdx hmem), ho⟩
  · rw [he]
    simp only [recordOrigin, hget]
    refine ⟨hle, ?_, hp, fun q hmem => hq q (List.mem_of_mem_eraseIdx hmem), ?_⟩
    · rw [roomIds_setRoomIds, List.map_append, hids, List.map_replicate]
    · intro e hmem
      rcases List.mem_append.mp hmem with hmem | hmem
      · exact ho e hmem
      · rw [(List.mem_replicate.mp hmem).2]
        exact hq search (List.mem_of_getElem? hget)

theorem traced_session {s : State} {p : State × Origins} (h : Traced s p)
    (i : UserModel.Input) :
    Traced s (((machine δ).withHistory (recordOrigin δ)).next p (.session i)) := by
  obtain ⟨hle, hids, hp, hq, ho⟩ := h
  have hids' : (recordOrigin δ p.1 (.session i) p.2).map Prod.fst =
      ((machine δ).next p.1 (.session i)).roomIds := by
    rw [roomIds_session]
    simp only [recordOrigin]
    split
    · rfl
    · exact hids
  have ho' : ∀ e ∈ recordOrigin δ p.1 (.session i) p.2, Since s e := by
    intro e he
    simp only [recordOrigin] at he
    split at he
    · cases he
    · exact ho e he
  cases i with
  | relaunch => exact ⟨hle, hids', fun n hn => absurd hn List.not_mem_nil,
      fun q hq => absurd hq List.not_mem_nil, ho'⟩
  | _ => exact ⟨hle, hids', hp, hq, ho'⟩

theorem traced_step {s : State} (p : State × Origins) (i : Input) (h : Traced s p) :
    Traced s (((machine δ).withHistory (recordOrigin δ)).next p i) := by
  cases i with
  | fetchRoom => exact traced_fetchRoom δ h
  | roomAnswer index items => exact traced_roomAnswer δ h index items
  | searchAnswer index events => exact traced_searchAnswer δ h index events
  | session i => exact traced_session δ h i

/-- A logout forgets every entry and keeps what is in flight. -/
theorem traced_logout (s : State) (origins : Origins) (i : UserModel.Input)
    (h : logsOut s.user i = true) :
    Traced s (((machine δ).withHistory (recordOrigin δ)).next (s, origins) (.session i)) := by
  have hids : ((machine δ).next s (.session i)).roomIds = [] := by rw [roomIds_session, if_pos h]
  have hr : recordOrigin δ s (.session i) origins = [] := by simp [recordOrigin, h]
  rw [Machine.next_withHistory, hr]
  have hpolls : ∀ n ∈ s.polls, s.sent ≤ n ∨ n ∈ s.polls := fun n hn => .inr hn
  have hsearches : ∀ q ∈ s.searches, Since s (q.roomId, q.poll) :=
    fun q hq => .inr (.inr ⟨q, hq, rfl, rfl⟩)
  cases i with
  | relaunch => cases h
  | _ => exact ⟨le_refl _, hids.symm, hpolls, hsearches, fun e he => absurd he List.not_mem_nil⟩

/-- At any time after a logout, each entry of `roomIds` comes from a poll sent after that
logout, or from a poll or a search that was in flight when it happened. -/
theorem roomIds_since_logout (s : State) (origins : Origins) (is js : List Input)
    (i : UserModel.Input) (h : logsOut ((machine δ).run s is).user i = true) :
    let after := (machine δ).history (recordOrigin δ) s origins (is ++ .session i :: js)
    after.map Prod.fst = ((machine δ).run s (is ++ .session i :: js)).roomIds ∧
      ∀ e ∈ after, Since ((machine δ).run s is) e := by
  intro after
  have hrun : ((machine δ).withHistory (recordOrigin δ)).run (s, origins)
      (is ++ .session i :: js) = ((machine δ).run s (is ++ .session i :: js), after) :=
    (machine δ).run_withHistory (recordOrigin δ) s origins _
  have ht : Traced ((machine δ).run s is) (((machine δ).withHistory (recordOrigin δ)).run
      (s, origins) (is ++ .session i :: js)) := by
    rw [Machine.run_append, (machine δ).run_withHistory (recordOrigin δ) s origins is,
      Machine.run_cons]
    exact (Machine.always_of_inv _ (traced_step δ) (traced_logout δ _ _ i h) js).last
  rw [hrun] at ht
  exact ⟨ht.ids, ht.origins⟩

end

/-- A room has been found and its search is still unanswered. -/
def searching : List Input := [.fetchRoom, .roomAnswer 0 (some [soloRoom 1])]

/-- What comes after the logout: the search is answered, and a new poll finds another room. -/
def answered : List Input :=
  [.searchAnswer 0 (some [soloEvent 7]), .fetchRoom, .roomAnswer 0 (some [soloRoom 1, soloRoom 2]),
    .searchAnswer 0 (some [soloEvent 8])]

theorem roomIds_since_logout_searching :
    let s := start (UserModel.init resetALL) []
    let is := searching ++ .session .clearUserData :: answered
    let after := (machine .viaLongest).history (recordOrigin .viaLongest) s [] is
    after = [(1, 0), (2, 1)] ∧ after.map Prod.fst = ((machine .viaLongest).run s is).roomIds ∧
      ∀ e ∈ after, Since ((machine .viaLongest).run s searching) e :=
  ⟨by decide, roomIds_since_logout .viaLongest (start (UserModel.init resetALL) []) [] searching
    answered .clearUserData (by decide)⟩

/-- The search outlives the logout: its answer stores the room of the user who left,
which comes from poll 0, and only polls from 1 on were sent after the logout. -/
theorem search_outlives_logout :
    let s := start (UserModel.init resetALL) []
    let is := searching ++ .session .clearUserData :: [.searchAnswer 0 (some [soloEvent 7])]
    let after := (machine .viaLongest).history (recordOrigin .viaLongest) s [] is
    ((machine .viaLongest).run s is).roomIds = [1] ∧ after = [(1, 0)] ∧
      ¬∀ e ∈ after, ((machine .viaLongest).run s searching).sent ≤ e.2 := by
  decide

end Karupasu.Root.Rooms
