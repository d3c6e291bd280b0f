import Mathlib.Logic.Function.Basic

/-!
# The application data in the user defaults

`AppData` is a list of typed properties over one persisted dictionary. The
dictionary is indexed by property here; that no two properties share a
dictionary key is `rawValue_injective`.
-/
namespace Karupasu.AppData

/-- The properties of `AppData`. -/
inductive Key where
  | firstLunch | teamId | userMailAddress | userName | userPassword
  | uid | client | accessToken | roomIds
  deriving DecidableEq

namespace Key

/-- The string under which the property is stored; `client` is not stored under its name. -/
def rawValue : Key → String
  | firstLunch => "firstLunch"
  | teamId => "teamId"
  | userMailAddress => "userMailAddress"
  | userName => "userName"
  | userPassword => "userPassword"
  | uid => "uid"
  | client => "userToken"
  | accessToken => "accessToken"
  | roomIds => "roomIds"

abbrev Value : Key → Type
  | firstLunch => Bool
  | teamId => Int
  | userMailAddress | userName | userPassword | uid | client | accessToken => String
  | roomIds => List Int

def defaultValue : (k : Key) → k.Value
  | firstLunch => true
  | teamId => (0 : Int)
  | userMailAddress | userName | userPassword | uid | client | accessToken => ""
  | roomIds => ([] : List Int)

theorem rawValue_injective : Function.Injective rawValue := by
  intro a b h
  cases a <;> cases b <;> first | rfl | exact absurd h (by decide)

end Key

/-- What is persisted, per property; `none` is a key that was never set or was removed. -/
abbrev UserDefaults := (k : Key) → Option k.Value

namespace UserDefaults

/-- Reading a property: the stored value, or the property's default. -/
def value (d : UserDefaults) (k : Key) : k.Value := (d k).getD k.defaultValue

def setValue (d : UserDefaults) (k : Key) (v : k.Value) : UserDefaults :=
  Function.update d k (some v)

@[simp] theorem value_setValue_self (d : UserDefaults) (k : Key) (v : k.Value) :
    (d.setValue k v).value k = v := by
  simp [value, setValue]

@[simp] theorem value_setValue_of_ne (d : UserDefaults) {k k' : Key} (h : k' ≠ k) (v : k.Value) :
    (d.setValue k v).value k' = d.value k' := by
  simp [value, setValue, h]

end UserDefaults

/-- Every key of the dictionary is removed. -/
def resetALL : UserDefaults := fun _ => none

@[simp] theorem value_resetALL (k : Key) : resetALL.value k = k.defaultValue := rfl

end Karupasu.AppData
