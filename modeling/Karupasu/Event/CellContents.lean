import Karupasu.Event.EventCellModel
import Karupasu.Event.Form
import Karupasu.Event.OptionTable

/-!
# What the cells of the four lists show

Each list compares its items by their identities, and an update configures no cell for an
item equal to the one before. What a cell shows is put together elsewhere and from other
fields: a cell is configured on top of what it shows already.
-/
namespace Karupasu

open Karupasu.Library
open Karupasu.EventModel (Event EventDetail)
open Karupasu.PrefectureModel (Prefecture)
open Karupasu.PlaceModel (Place)
open Karupasu.RoomModel (Room)

/-- Whatever a cell shows, it shows the same after being configured with either item. -/
def LooksSame {Item Content : Type} (configure : Content → Item → Content) (a b : Item) : Prop :=
  ∀ cell, configure cell a = configure cell b

variable {URL : Type}

/-! ## Events -/

namespace EventCellModel

structure Content (URL : Type) where
  thumbnailImage : Option URL
  isJoined : Bool
  isBookmarked : Bool
  memberLbl : String
  placeLbl : String
  titleLbl : String

/-- `EventCollectionViewCell.cellSetup`; `asURL` is `URL.init(string:)` and `participant` a
text of the app. A mark whose flag is nil stays as it is. -/
def cellSetup (asURL : String → Option URL) (participant : String) (places : List Place)
    (cell : Content URL) (item : EventCellModel) : Content URL where
  thumbnailImage := asURL item.event.imageUrl
  isJoined := (item.event.isJoined.map (· == 1)).getD cell.isJoined
  isBookmarked := (item.event.isBookmark.map (· == 1)).getD cell.isBookmarked
  memberLbl := participant ++ " " ++ toString (item.event.participantsCount.getD 0) ++ "/" ++
    toString item.event.maxParticipantsCount
  placeLbl := ((PlaceModel.getModel places item.event.place).map (·.name)).getD ""
  titleLbl := item.event.title

/-- The fields that `cellSetup` reads agree, up to what it makes of them. -/
structure SameFields (asURL : String → Option URL) (places : List Place) (a b : Event) : Prop where
  imageUrl : asURL a.imageUrl = asURL b.imageUrl
  isJoined : a.isJoined.map (· == 1) = b.isJoined.map (· == 1)
  isBookmark : a.isBookmark.map (· == 1) = b.isBookmark.map (· == 1)
  participantsCount : a.participantsCount.getD 0 = b.participantsCount.getD 0
  maxParticipantsCount : a.maxParticipantsCount = b.maxParticipantsCount
  place : ((PlaceModel.getModel places a.place).map (·.name)).getD "" =
    ((PlaceModel.getModel places b.place).map (·.name)).getD ""
  title : a.title = b.title

theorem looksSame_iff (asURL : String → Option URL) (participant : String) (places : List Place)
    (a b : EventCellModel) :
    LooksSame (cellSetup asURL participant places) a b ↔ SameFields asURL places a.event b.event := by
  constructor
  · intro h
    have hoff := h ⟨none, false, false, "", "", ""⟩
    have hon := h ⟨none, true, true, "", "", ""⟩
    simp only [cellSetup, Content.mk.injEq] at hoff hon
    obtain ⟨himage, hjoined, hbookmark, hmember, hplace, htitle⟩ := hoff
    obtain ⟨-, hjoined', hbookmark', -⟩ := hon
    simp only [String.append_assoc, String.append_right_inj] at hmember
    obtain ⟨hcount, hmax⟩ :=
      (Numerals.numeral_append_inj (by rfl) (by decide : Numerals.Separates '/')).mp hmember
    have hmark : ∀ {x y : Option Bool}, x.getD false = y.getD false → x.getD true = y.getD true →
        x = y := by decide
    exact ⟨himage, hmark hjoined hjoined', hmark hbookmark hbookmark', hcount,
      Numerals.toString_inj.mp hmax, hplace, htitle⟩
  · intro h cell
    simp only [cellSetup, h.imageUrl, h.isJoined, h.isBookmark, h.participantsCount,
      h.maxParticipantsCount, h.place, h.title]

end EventCellModel

/-! ## Members -/

structure MemberSectionModel where
  data : EventDetail
  maxMember : Int
  deriving DecidableEq

namespace MemberSectionModel

/-- The hash value of the detail, which stands for the detail. -/
def identity (m : MemberSectionModel) : EventDetail := m.data

instance : BEq MemberSectionModel := ⟨fun lhs rhs => lhs.identity == rhs.identity⟩

structure Content where
  prefectureLbl : String
  memberLbl : String
  messageLbl : String
  membersTextView : String
  /-- The background of a joined detail. -/
  isJoined : Bool

def getSafePrefectureTitle (prefectures : List Prefecture) (id : Int) : String :=
  ((prefectures.filter fun prefecture => prefecture.id = id).head?.map (·.name)).getD ""

def configureCell (prefectures : List Prefecture) (_cell : Content) (item : MemberSectionModel) :
    Content where
  prefectureLbl := getSafePrefectureTitle prefectures item.data.prefecture
  memberLbl := toString item.data.participantsCount ++ "人/" ++ toString item.maxMember
  messageLbl := "あと" ++ toString (item.maxMember - item.data.participantsCount) ++
    "人で開催が決定します"
  membersTextView := "\n".intercalate item.data.participantsNames
  isJoined := item.data.isJoined == 1

theorem beq_iff {a b : MemberSectionModel} : (a == b) = true ↔ a.data = b.data :=
  beq_iff_eq (a := a.data)

theorem looksSame_iff (prefectures : List Prefecture) {a b : MemberSectionModel}
    (h : a.data = b.data) :
    LooksSame (configureCell prefectures) a b ↔ a.maxMember = b.maxMember := by
  constructor
  · intro hl
    have hm := congrArg Content.memberLbl (hl ⟨"", "", "", "", false⟩)
    simp only [configureCell, h, String.append_right_inj] at hm
    exact Numerals.toString_inj.mp hm
  · intro hmax cell
    simp only [configureCell, h, hmax]

end MemberSectionModel

/-! ## Prefectures -/

namespace Event.ApplySheet.OptionSectionModel

structure Content where
  titleLbl : String
  subTitle : String
  isSelected : Bool

def current (m : OptionSectionModel) : Int := (m.subData.map (·.participantsCount)).getD 0

def max (m : OptionSectionModel) : Int := (m.subData.bind (·.maxParticipantsCount)).getD 0

def subTitle (m : OptionSectionModel) : String :=
  if m.max = 0 then "" else toString m.current ++ "人/" ++ toString m.max

/-- A joined row is selected; nothing deselects the others. -/
def configureCell (cell : Content) (item : OptionSectionModel) : Content where
  titleLbl := item.data.name
  subTitle := item.subTitle
  isSelected := if item.isJoin then true else cell.isSelected

/-- The fields outside the identity agree; the count is shown only with a capacity. -/
structure SameFields (a b : OptionSectionModel) : Prop where
  name : a.data.name = b.data.name
  max : a.max = b.max
  current : a.max ≠ 0 → a.current = b.current
  isJoin : a.isJoin = b.isJoin

theorem beq_iff {a b : OptionSectionModel} : (a == b) = true ↔ a.identity = b.identity :=
  beq_iff_eq (a := a.identity)

theorem subTitle_of_max {m : OptionSectionModel} (h : m.max ≠ 0) :
    m.subTitle = toString m.current ++ ("人/" ++ toString m.max) := by
  rw [subTitle, if_neg h, String.append_assoc]

theorem subTitle_eq_empty_iff (m : OptionSectionModel) : m.subTitle = "" ↔ m.max = 0 := by
  by_cases h : m.max = 0
  · simp [subTitle, h]
  · rw [subTitle_of_max h]
    refine iff_of_false (fun he => ?_) h
    have hlen := congrArg String.length he
    simp only [String.length_append] at hlen
    have hsep : "人/".length = 2 := by decide
    have hempty : "".length = 0 := by decide
    omega

theorem subTitle_eq_iff (a b : OptionSectionModel) :
    a.subTitle = b.subTitle ↔ a.max = b.max ∧ (a.max ≠ 0 → a.current = b.current) := by
  by_cases ha : a.max = 0
  · have he : a.subTitle = "" := (subTitle_eq_empty_iff a).mpr ha
    rw [he, eq_comm, subTitle_eq_empty_iff, ha]
    exact ⟨fun hb => ⟨hb.symm, fun h => absurd rfl h⟩, fun h => h.1.symm⟩
  · by_cases hb : b.max = 0
    · have he : b.subTitle = "" := (subTitle_eq_empty_iff b).mpr hb
      rw [he, subTitle_eq_empty_iff, hb]
      exact ⟨fun h => absurd h ha, fun h => absurd h.1 ha⟩
    · rw [subTitle_of_max ha, subTitle_of_max hb,
        Numerals.numeral_append_inj (by rfl) (by decide : Numerals.Separates '人'),
        Numerals.toString_inj]
      exact ⟨fun h => ⟨h.2, fun _ => h.1⟩, fun h => ⟨h.2 ha, h.1⟩⟩

theorem looksSame_iff (a b : OptionSectionModel) :
    LooksSame configureCell a b ↔ SameFields a b := by
  constructor
  · intro h
    have hoff := h ⟨"", "", false⟩
    simp only [configureCell, Content.mk.injEq] at hoff
    obtain ⟨hname, hsub, hjoin⟩ := hoff
    obtain ⟨hmax, hcurrent⟩ := (subTitle_eq_iff a b).mp hsub
    refine ⟨hname, hmax, hcurrent, ?_⟩
    simpa using hjoin
  · intro h cell
    have hsub := (subTitle_eq_iff a b).mpr ⟨h.max, h.current⟩
    simp only [configureCell, h.name, hsub, h.isJoin]

end Event.ApplySheet.OptionSectionModel

/-! ## Rooms -/

structure RoomSectionModel where
  data : Room
  deriving DecidableEq

namespace RoomSectionModel

def identity (m : RoomSectionModel) : Int := m.data.roomId

instance : BEq RoomSectionModel := ⟨fun lhs rhs => lhs.identity == rhs.identity⟩

structure Content (URL : Type) where
  thumbnailImage : Option URL
  placeLbl : String
  titleLbl : String

/-- `TalkRoomTableViewCell.setModel` -/
def setModel (asURL : String → Option URL) (_cell : Content URL) (item : RoomSectionModel) :
    Content URL where
  thumbnailImage := asURL item.data.imageUrl
  placeLbl := item.data.prefecture ++ " " ++ toString item.data.participantsCount ++ "人"
  titleLbl := item.data.title

structure SameFields (asURL : String → Option URL) (a b : Room) : Prop where
  imageUrl : asURL a.imageUrl = asURL b.imageUrl
  prefecture : a.prefecture = b.prefecture
  participantsCount : a.participantsCount = b.participantsCount
  title : a.title = b.title

theorem beq_iff {a b : RoomSectionModel} : (a == b) = true ↔ a.data.roomId = b.data.roomId :=
  beq_iff_eq (a := a.data.roomId)

theorem looksSame_iff (asURL : String → Option URL) (a b : RoomSectionModel) :
    LooksSame (setModel asURL) a b ↔ SameFields asURL a.data b.data := by
  constructor
  · intro h
    have hl := h ⟨none, "", ""⟩
    simp only [setModel, Content.mk.injEq, String.append_left_inj] at hl
    obtain ⟨himage, hplace, htitle⟩ := hl
    rw [String.append_assoc, String.append_assoc] at hplace
    obtain ⟨hprefecture, hcount⟩ :=
      (Numerals.append_numeral_inj (by rfl) (by decide : Numerals.Separates ' ')).mp hplace
    exact ⟨himage, hprefecture, hcount, htitle⟩
  · intro h cell
    simp only [setModel, h.imageUrl, h.prefecture, h.participantsCount, h.title]

end RoomSectionModel

/-! ## Equal items -/

open Event.ApplySheet (OptionSectionModel)

/-- For each list, two items show the same whenever they are equal exactly when they agree in
the fields that the cell shows and the identity does not settle. -/
theorem equal_items_look_equal_iff (asURL : String → Option URL) (participant : String)
    (places : List Place) (prefectures : List Prefecture) :
    (∀ a b : EventCellModel,
      (a == b → LooksSame (EventCellModel.cellSetup asURL participant places) a b) ↔
        (a == b → EventCellModel.SameFields asURL places a.event b.event)) ∧
    (∀ a b : MemberSectionModel,
      (a == b → LooksSame (MemberSectionModel.configureCell prefectures) a b) ↔
        (a == b → a.maxMember = b.maxMember)) ∧
    (∀ a b : OptionSectionModel,
      (a == b → LooksSame OptionSectionModel.configureCell a b) ↔
        (a == b → OptionSectionModel.SameFields a b)) ∧
    ∀ a b : RoomSectionModel,
      (a == b → LooksSame (RoomSectionModel.setModel asURL) a b) ↔
        (a == b → RoomSectionModel.SameFields asURL a.data b.data) := by
  refine ⟨fun a b => ?_, fun a b => ?_, fun a b => ?_, fun a b => ?_⟩
  · rw [EventCellModel.looksSame_iff]
  · refine forall_congr' fun he => ?_
    exact MemberSectionModel.looksSame_iff prefectures (MemberSectionModel.beq_iff.mp he)
  · rw [OptionSectionModel.looksSame_iff]
  · rw [RoomSectionModel.looksSame_iff]

/-- Equal items that show something else: an event with a new image, a detail with another
capacity, a prefecture with a first participant, a room with a new title. -/
theorem equal_items_look_different :
    let titled := EventCellModel.titled 1 "hike"
    let detail : EventDetail := ⟨1, 0, 1, ["a"], some 4⟩
    let tokyo : Prefecture := ⟨1, "tokyo"⟩
    let room : Room := ⟨1, "hike", "tokyo", 4, "", []⟩
    ¬(EventCellModel.mk titled == EventCellModel.mk { titled with imageUrl := "b" } →
        LooksSame (EventCellModel.cellSetup some "" []) ⟨titled⟩ ⟨{ titled with imageUrl := "b" }⟩) ∧
      ¬(MemberSectionModel.mk detail 4 == MemberSectionModel.mk detail 5 →
        LooksSame (MemberSectionModel.configureCell []) ⟨detail, 4⟩ ⟨detail, 5⟩) ∧
      ¬(OptionSectionModel.mk tokyo none == OptionSectionModel.mk tokyo (some detail) →
        LooksSame OptionSectionModel.configureCell ⟨tokyo, none⟩ ⟨tokyo, some detail⟩) ∧
      ¬(RoomSectionModel.mk room == RoomSectionModel.mk { room with title := "walk" } →
        LooksSame (RoomSectionModel.setModel some) ⟨room⟩ ⟨{ room with title := "walk" }⟩) := by
  intro titled detail tokyo room
  refine ⟨fun h => ?_, fun h => ?_, fun h => ?_, fun h => ?_⟩
  · have hl := (EventCellModel.looksSame_iff _ _ _ _ _).mp (h (by decide))
    exact absurd hl.imageUrl (by decide)
  · have hmax := (MemberSectionModel.looksSame_iff [] (a := ⟨detail, 4⟩) (b := ⟨detail, 5⟩) rfl).mp
      (h (by decide))
    exact absurd hmax (by decide)
  · have hl := (OptionSectionModel.looksSame_iff _ _).mp (h (by decide))
    exact absurd hl.max (by decide)
  · have hl := (RoomSectionModel.looksSame_iff _ _ _).mp (h (by decide))
    exact absurd hl.title (by decide)

end Karupasu
