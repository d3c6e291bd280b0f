import Karupasu.Library.CanonicalEquivalence
import Karupasu.Library.Numerals
import Karupasu.Records

/-!
# The items of the event list: `EventCellModel`

The identity writes the id, the title and four numbers one after the other with nothing
in between, so an id can continue in the title that follows it.
-/
namespace Karupasu

open Karupasu.Library
open Karupasu.EventModel (Event)

/-- What the event list hands to its data source. -/
structure EventCellModel where
  event : Event
  deriving DecidableEq

namespace EventCellModel

/-- The part of the identity after the id. -/
def text (m : EventCellModel) : String :=
  m.event.title ++ toString (m.event.isBookmark.getD 0) ++
    toString (m.event.participantsCount.getD 0) ++ toString m.event.maxParticipantsCount ++
    toString (m.event.isJoined.getD 0)

def identity (m : EventCellModel) : String := toString m.event.id ++ m.text

/-- `==`, for texts that are compared code point by code point. -/
instance : BEq EventCellModel := ⟨fun lhs rhs => lhs.identity == rhs.identity⟩

theorem beq_iff {a b : EventCellModel} : (a == b) = true ↔ a.identity = b.identity :=
  beq_iff_eq (a := a.identity)

section Identity

variable (u : CharacterDatabase)

/-- The id of `b` is the id of `a` with further digits, and these digits begin what
follows the id of `a`. -/
def RunsInto (a b : EventCellModel) : Prop :=
  ∃ digits : String, digits ≠ "" ∧ toString b.event.id = toString a.event.id ++ digits ∧
    u.Equivalent a.text (digits ++ b.text)

theorem identity_equivalent_iff (a b : EventCellModel) :
    u.Equivalent a.identity b.identity ↔
      a.event.id = b.event.id ∧ u.Equivalent a.text b.text ∨ RunsInto u a b ∨ RunsInto u b a := by
  unfold identity
  rw [u.equivalent_append_append_iff (Numerals.ascii_numeral _) (Numerals.ascii_numeral _)]
  constructor
  · rintro (⟨w, hid, htext⟩ | ⟨w, hid, htext⟩)
    · by_cases hw : w = ""
      · subst hw
        rw [String.append_empty, Numerals.toString_inj] at hid
        rw [String.empty_append] at htext
        exact .inl ⟨hid.symm, htext⟩
      · exact .inr (.inl ⟨w, hw, hid, htext⟩)
    · by_cases hw : w = ""
      · subst hw
        rw [String.append_empty, Numerals.toString_inj] at hid
        rw [String.empty_append] at htext
        exact .inl ⟨hid, htext.symm⟩
      · exact .inr (.inr ⟨w, hw, hid, htext⟩)
  · rintro (⟨hid, htext⟩ | ⟨w, -, hid, htext⟩ | ⟨w, -, hid, htext⟩)
    · exact .inl ⟨"", by rw [hid, String.append_empty], by rwa [String.empty_append]⟩
    · exact .inl ⟨w, hid, htext⟩
    · exact .inr ⟨w, hid, htext⟩

theorem identity_distinct_iff {a b : EventCellModel} (h : a.event.id ≠ b.event.id) :
    ¬u.Equivalent a.identity b.identity ↔ ¬RunsInto u a b ∧ ¬RunsInto u b a := by
  rw [identity_equivalent_iff, not_or, not_or]
  exact and_iff_right fun he => h he.1

/-- A title that begins with an ASCII character other than a digit is not run into. -/
theorem not_runsInto_of_title {a b : EventCellModel} {c : Char} {rest : List Char}
    (ht : a.event.title.toList = c :: rest) (hc : Numerals.Separates c) (hascii : c.val < 128) :
    ¬RunsInto u a b := by
  rintro ⟨digits, hne, hid, htext⟩
  have hdigits : ∀ d ∈ digits.toList, d ∈ (toString b.event.id).toList := by
    intro d hd
    rw [hid, String.toList_append]
    exact List.mem_append_right _ hd
  have hleft : a.text = String.singleton c ++ String.ofList (rest ++
      (a.text.toList.drop a.event.title.toList.length)) := by
    rw [← String.toList_inj, String.toList_append, String.toList_singleton, String.toList_ofList]
    simp [text, ht]
  have hl : u.nfd a.text = u.nfd (digits ++ b.text) := htext
  rw [hleft, u.nfd_append (by simpa using hascii),
    u.nfd_append fun d hd => Numerals.ascii_numeral _ d (hdigits d hd),
    String.toList_singleton] at hl
  cases hd : digits.toList with
  | nil => exact hne (String.toList_inj.mp hd)
  | cons d ds =>
    rw [hd] at hl
    have hcd : c = d := (List.cons.inj hl).1
    have hmem : c ∈ (toString b.event.id).toList := by
      rw [hcd]
      exact hdigits d (hd ▸ List.mem_cons_self)
    exact Numerals.not_mem_numeral hc b.event.id hmem

/-- Events with different ids have different identities exactly when neither id runs into
the text after the other; a list with distinct ids has distinct identities exactly when no
two of its events do. -/
theorem identities_distinct (events : List Event) :
    (∀ a b : EventCellModel, a.event.id ≠ b.event.id →
      (¬u.Equivalent a.identity b.identity ↔ ¬RunsInto u a b ∧ ¬RunsInto u b a)) ∧
    ((events.map (·.id)).Nodup →
      ((events.map fun event => (EventCellModel.mk event).identity).Pairwise
          (fun i j => ¬u.Equivalent i j) ↔
        events.Pairwise fun a b => ¬RunsInto u ⟨a⟩ ⟨b⟩ ∧ ¬RunsInto u ⟨b⟩ ⟨a⟩)) := by
  refine ⟨fun a b h => identity_distinct_iff u h, fun hids => ?_⟩
  have hids : events.Pairwise fun a b => a.id ≠ b.id := List.pairwise_map.mp hids
  rw [List.pairwise_map]
  constructor
  · intro h
    exact (hids.and h).imp fun hab => (identity_distinct_iff u hab.1).mp hab.2
  · intro h
    exact (hids.and h).imp fun hab => (identity_distinct_iff u hab.1).mpr hab.2

end Identity

/-- An event for lists on fixed inputs. -/
def titled (id : Int) (title : String) : Event :=
  ⟨id, title, "", 0, 0, none, none, none, 4, none, none⟩

/-- The rows of a database for the letter é, alone and as a letter with a mark. -/
def acute : CharacterDatabase where
  decomposition c := if c = 'é' then ['e', '\u0301'] else [c]
  combiningClass c := if c = '\u0301' then 230 else 0
  decomposition_ascii c hc := by
    refine if_neg fun he => ?_
    subst he
    exact absurd hc (by decide)
  combiningClass_ascii c hc := by
    refine if_neg fun he => ?_
    subst he
    exact absurd hc (by decide)

/-- The accent is a mark of its own in one title and part of the letter in the other. -/
example : RunsInto acute ⟨titled 1 "1e\u0301"⟩ ⟨titled 11 "é"⟩ :=
  ⟨"1", by decide, by decide, by decide⟩

theorem identities_distinct_two :
    ¬acute.Equivalent (EventCellModel.mk (titled 1 "hike")).identity
        (EventCellModel.mk (titled 11 "walk")).identity ∧
      ([titled 1 "hike", titled 11 "walk"].map fun event =>
        (EventCellModel.mk event).identity).Pairwise fun i j => ¬acute.Equivalent i j := by
  have h : ¬RunsInto acute ⟨titled 1 "hike"⟩ ⟨titled 11 "walk"⟩ ∧
      ¬RunsInto acute ⟨titled 11 "walk"⟩ ⟨titled 1 "hike"⟩ :=
    ⟨not_runsInto_of_title acute (c := 'h') (by rfl) (by decide) (by decide),
      not_runsInto_of_title acute (c := 'w') (by rfl) (by decide) (by decide)⟩
  have hd := identities_distinct acute [titled 1 "hike", titled 11 "walk"]
  refine ⟨(hd.1 _ _ (by decide)).mpr h, (hd.2 (by decide)).mpr ?_⟩
  exact List.pairwise_pair.mpr h

/-- Event 1 with the title `1x` and event 11 with the title `x` have one identity, in a list
with distinct ids. -/
theorem id_runs_into_title :
    let a := titled 1 "1x"
    let b := titled 11 "x"
    ([a, b].map (·.id)).Nodup ∧ (EventCellModel.mk a).identity = (EventCellModel.mk b).identity ∧
      ∀ u : CharacterDatabase,
        (¬([a, b].map fun event => (EventCellModel.mk event).identity).Pairwise
          fun i j => ¬u.Equivalent i j) ∧
        ¬∀ a b : EventCellModel, a.event.id ≠ b.event.id → ¬u.Equivalent a.identity b.identity := by
  intro a b
  have he : (EventCellModel.mk a).identity = (EventCellModel.mk b).identity := by decide
  refine ⟨by decide, he, fun u => ?_⟩
  have hequivalent : u.Equivalent (EventCellModel.mk a).identity (EventCellModel.mk b).identity := by
    rw [he]
    exact u.equivalent_refl _
  refine ⟨fun h => ?_, fun h => h ⟨a⟩ ⟨b⟩ (by decide) hequivalent⟩
  exact List.pairwise_pair.mp h hequivalent

end EventCellModel
end Karupasu
