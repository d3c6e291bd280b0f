import Karupasu.Session.AppData
import Mathlib.Data.List.Basic

/-!
# Values in the user defaults: `UserDefaultCompatible`

A value is turned into an object or into nil, and read back from an object. `nil` stands for
the value nil, for a key that is not there and for a failure to read; inside a collection it
is none of these, since a property list has no nil.
-/
namespace Karupasu.Util

/-- The types that are stored as they are. -/
inductive Base where
  | int | double | float | bool | string | date | data
  deriving DecidableEq

/-- What `toUserDefaultObject` returns when it is not nil; `β` gives the values of the base
types. The elements of a collection are results of `toUserDefaultObject` again. -/
inductive Object (β : Base → Type) where
  | base (type : Base) (value : β type)
  | array (elements : List (Option (Object β)))
  | dictionary (keys : List String) (values : List (Option (Object β)))

/-- A dictionary, with its keys in ascending order. -/
structure Dictionary (α : Type) where
  keys : List String
  values : List α
  ascending : keys.Pairwise (· < ·)
  length_eq : values.length = keys.length

namespace Dictionary

variable {α : Type}

def ofLists (keys : List String) (values : List α) : Option (Dictionary α) :=
  if h : keys.Pairwise (· < ·) ∧ values.length = keys.length then
    some ⟨keys, values, h.1, h.2⟩
  else none

theorem ofLists_lists (d : Dictionary α) : ofLists d.keys d.values = some d :=
  dif_pos ⟨d.ascending, d.length_eq⟩

end Dictionary

variable {β : Base → Type} {α : Type}

/-! ## Property lists -/

mutual

def Object.isPropertyList : Object β → Bool
  | .base _ _ => true
  | .array elements => Object.arePropertyLists elements
  | .dictionary _ values => Object.arePropertyLists values

def Object.arePropertyLists : List (Option (Object β)) → Bool
  | [] => true
  | none :: _ => false
  | some object :: objects => object.isPropertyList && Object.arePropertyLists objects

end

/-- `UserDefaults`, by key. -/
abbrev UserDefaults (β : Base → Type) := String → Option (Object β)

/-- `set(_:forKey:)`: nil removes the key, and what is not a property list ends the process. -/
def UserDefaults.set (defaults : UserDefaults β) (object : Option (Object β)) (key : String) :
    Option (UserDefaults β) :=
  match object with
  | none => some (Function.update defaults key none)
  | some object =>
    if object.isPropertyList then some (Function.update defaults key (some object)) else none

/-! ## Conformances -/

/-- The protocol: `init?(userDefaultObject:)` and `toUserDefaultObject`. -/
class UserDefaultCompatible (β : Base → Type) (α : Type) where
  ofUserDefaultObject : Object β → Option α
  toUserDefaultObject : α → Option (Object β)

open UserDefaultCompatible

/-- The cast `userDefaultObject as? Self` of a base type. -/
def Object.cast (type : Base) : Object β → Option (β type)
  | .base type' value => if h : type' = type then some (h ▸ value) else none
  | _ => none

@[reducible] def baseCompatible (β : Base → Type) (type : Base) :
    UserDefaultCompatible β (β type) where
  ofUserDefaultObject := Object.cast type
  toUserDefaultObject value := some (.base type value)

section

variable [UserDefaultCompatible β α]

/-- The elements of a collection; one that cannot be read makes all of it fail. -/
def readAll (objects : List (Option (Object β))) : Option (List α) :=
  objects.mapM fun object => object.bind ofUserDefaultObject

instance : UserDefaultCompatible β (List α) where
  ofUserDefaultObject
    | .array elements => readAll elements
    | _ => none
  toUserDefaultObject values := some (.array (values.map toUserDefaultObject))

instance : UserDefaultCompatible β (Dictionary α) where
  ofUserDefaultObject
    | .dictionary keys values => (readAll values).bind (Dictionary.ofLists keys)
    | _ => none
  toUserDefaultObject d := some (.dictionary d.keys (d.values.map toUserDefaultObject))

/-- A failure to read the wrapped value is read as nil. -/
instance : UserDefaultCompatible β (Option α) where
  ofUserDefaultObject object := some (ofUserDefaultObject object)
  toUserDefaultObject value := Option.bind value toUserDefaultObject

namespace UserDefaults

def value (defaults : UserDefaults β) (key : String) (defaultValue : α) : α :=
  match defaults key with
  | none => defaultValue
  | some object => (ofUserDefaultObject object).getD defaultValue

def setValue (defaults : UserDefaults β) (value : α) (key : String) : Option (UserDefaults β) :=
  defaults.set (toUserDefaultObject value) key

end UserDefaults

end

/-- The property wrapper. -/
structure UserDefault (α : Type) where
  key : String
  defaultValue : α

namespace UserDefault

variable [UserDefaultCompatible β α]

def get (p : UserDefault α) (defaults : UserDefaults β) : α :=
  defaults.value p.key p.defaultValue

def set (p : UserDefault α) (newValue : α) (defaults : UserDefaults β) : Option (UserDefaults β) :=
  defaults.setValue newValue p.key

/-- The value is stored, and then it is what is read. -/
def ReadsBack (p : UserDefault α) (v : α) (defaults : UserDefaults β) : Prop :=
  ∃ stored, p.set v defaults = some stored ∧ p.get stored = v

end UserDefault

/-! ## All types of values -/

inductive Ty where
  | base (type : Base)
  | optional (wrapped : Ty)
  | array (element : Ty)
  | dictionary (value : Ty)
  deriving DecidableEq

namespace Ty

def Val (β : Base → Type) : Ty → Type
  | base type => β type
  | optional t => Option (t.Val β)
  | array t => List (t.Val β)
  | dictionary t => Dictionary (t.Val β)

instance compatible (β : Base → Type) : (t : Ty) → UserDefaultCompatible β (t.Val β)
  | base type => baseCompatible β type
  | optional t =>
    let _ := compatible β t
    inferInstanceAs (UserDefaultCompatible β (Option (t.Val β)))
  | array t =>
    let _ := compatible β t
    inferInstanceAs (UserDefaultCompatible β (List (t.Val β)))
  | dictionary t =>
    let _ := compatible β t
    inferInstanceAs (UserDefaultCompatible β (Dictionary (t.Val β)))

/-- The value is nil, possibly inside further optionals. -/
def isNil : (t : Ty) → t.Val β → Bool
  | base _, _ => false
  | optional _, none => true
  | optional t, some v => t.isNil v
  | array _, _ => false
  | dictionary _, _ => false

/-- A collection somewhere in the value has a nil among its elements. -/
def hasNilInside : (t : Ty) → t.Val β → Bool
  | base _, _ => false
  | optional _, none => false
  | optional t, some v => t.hasNilInside v
  | array t, vs => List.any vs fun v => t.isNil v || t.hasNilInside v
  | dictionary t, d => d.values.any fun v => t.isNil v || t.hasNilInside v

end Ty

/-! ## What each conformance makes of a value -/

/-- A conformance returns nil for the values that are nil, a property list for the values
without a nil inside, and reads such an object back. -/
structure Conforms [UserDefaultCompatible β α] (isNil hasNilInside : α → Bool) : Prop where
  eq_none_iff : ∀ v : α, toUserDefaultObject (β := β) v = none ↔ isNil v = true
  isPropertyList_iff : ∀ (v : α) (object : Object β), toUserDefaultObject v = some object →
    (object.isPropertyList = true ↔ hasNilInside v = false)
  reads : ∀ (v : α) (object : Object β), toUserDefaultObject v = some object →
    object.isPropertyList = true → ofUserDefaultObject object = some v

theorem conforms_base (type : Base) :
    @Conforms β _ (baseCompatible β type) (fun _ => false) (fun _ => false) := by
  let _ := baseCompatible β type
  constructor
  · intro v
    exact iff_of_false (fun h => by cases h) Bool.false_ne_true
  · intro v object h
    obtain rfl := Option.some.inj h
    exact iff_of_true rfl rfl
  · intro v object h _
    obtain rfl := Option.some.inj h
    exact dif_pos rfl

section

variable [UserDefaultCompatible β α] {isNil hasNilInside : α → Bool}

theorem conforms_optional (h : Conforms (β := β) isNil hasNilInside) :
    Conforms (β := β) (α := Option α) (fun v => (v.map isNil).getD true)
      (fun v => (v.map hasNilInside).getD false) := by
  constructor
  · intro v
    cases v with
    | none => exact iff_of_true rfl rfl
    | some v => exact h.eq_none_iff v
  · intro v object ho
    cases v with
    | none => cases ho
    | some v => exact h.isPropertyList_iff v object ho
  · intro v object ho hp
    cases v with
    | none => cases ho
    | some v => exact congrArg some (h.reads v object ho hp)

theorem arePropertyLists_map_iff (h : Conforms (β := β) isNil hasNilInside) (vs : List α) :
    Object.arePropertyLists (vs.map (toUserDefaultObject (β := β))) = true ↔
      (vs.any fun v => isNil v || hasNilInside v) = false := by
  induction vs with
  | nil => exact iff_of_true rfl rfl
  | cons v vs ih =>
    cases ho : toUserDefaultObject (β := β) v with
    | none =>
      have hn := (h.eq_none_iff v).mp ho
      simp [Object.arePropertyLists, ho, hn]
    | some object =>
      have hn : isNil v = false := by
        rw [← Bool.not_eq_true, ← h.eq_none_iff, ho]
        exact Option.some_ne_none object
      simp only [List.map_cons, ho, Object.arePropertyLists, Bool.and_eq_true, ih,
        h.isPropertyList_iff v object ho, List.any_cons, hn, Bool.false_or, Bool.or_eq_false_iff]

/-- A collection that is a property list is read element by element. -/
theorem readAll_map (h : Conforms (β := β) isNil hasNilInside) (vs : List α)
    (hp : Object.arePropertyLists (vs.map (toUserDefaultObject (β := β))) = true) :
    readAll (vs.map (toUserDefaultObject (β := β))) = some vs := by
  induction vs with
  | nil => rfl
  | cons v vs ih =>
    cases ho : toUserDefaultObject (β := β) v with
    | none => simp [Object.arePropertyLists, ho] at hp
    | some object =>
      simp only [List.map_cons, ho, Object.arePropertyLists, Bool.and_eq_true] at hp
      have hv := h.reads v object ho hp.1
      have hvs := ih hp.2
      unfold readAll at hvs ⊢
      simp only [List.map_cons, ho, List.mapM_cons, Option.bind_some, hv, hvs]
      rfl

theorem conforms_array (h : Conforms (β := β) isNil hasNilInside) :
    Conforms (β := β) (α := List α) (fun _ => false)
      (fun vs => vs.any fun v => isNil v || hasNilInside v) := by
  constructor
  · intro vs
    exact iff_of_false (fun he => by cases he) Bool.false_ne_true
  · intro vs object ho
    obtain rfl := Option.some.inj ho
    exact arePropertyLists_map_iff h vs
  · intro vs object ho hp
    obtain rfl := Option.some.inj ho
    exact readAll_map h vs hp

theorem conforms_dictionary (h : Conforms (β := β) isNil hasNilInside) :
    Conforms (β := β) (α := Dictionary α) (fun _ => false)
      (fun d => d.values.any fun v => isNil v || hasNilInside v) := by
  constructor
  · intro d
    exact iff_of_false (fun he => by cases he) Bool.false_ne_true
  · intro d object ho
    obtain rfl := Option.some.inj ho
    exact arePropertyLists_map_iff h d.values
  · intro d object ho hp
    obtain rfl := Option.some.inj ho
    show (readAll (d.values.map toUserDefaultObject)).bind (Dictionary.ofLists d.keys) = some d
    rw [readAll_map h d.values hp]
    exact d.ofLists_lists

/-- Storing fails on a nil inside a collection; a value that is nil is read as the default. -/
theorem readsBack_iff (h : Conforms (β := β) isNil hasNilInside) (p : UserDefault α) (v : α)
    (defaults : UserDefaults β) (hv : isNil v = true → hasNilInside v = false) :
    p.ReadsBack v defaults ↔
      hasNilInside v = false ∧ (isNil v = true → v = p.defaultValue) := by
  cases ho : toUserDefaultObject (β := β) v with
  | none =>
    have hn := (h.eq_none_iff v).mp ho
    have hset : p.set v defaults = some (Function.update defaults p.key none) := by
      simp only [UserDefault.set, UserDefaults.setValue, ho, UserDefaults.set]
    have hget : p.get (Function.update defaults p.key none) = p.defaultValue := by
      simp only [UserDefault.get, UserDefaults.value, Function.update_self]
    constructor
    · rintro ⟨stored, hstored, hread⟩
      obtain rfl := Option.some.inj (hset.symm.trans hstored)
      exact ⟨hv hn, fun _ => hread.symm.trans hget⟩
    · intro hr
      exact ⟨_, hset, hget.trans (hr.2 hn).symm⟩
  | some object =>
    have hn : isNil v = false := by
      rw [← Bool.not_eq_true, ← h.eq_none_iff, ho]
      exact Option.some_ne_none object
    rw [← h.isPropertyList_iff v object ho]
    by_cases hp : object.isPropertyList = true
    · have hset : p.set v defaults = some (Function.update defaults p.key (some object)) := by
        simp only [UserDefault.set, UserDefaults.setValue, ho, UserDefaults.set, hp, if_true]
      have hget : p.get (Function.update defaults p.key (some object)) = v := by
        simp only [UserDefault.get, UserDefaults.value, Function.update_self,
          h.reads v object ho hp, Option.getD_some]
      refine iff_of_true ⟨_, hset, hget⟩ ⟨hp, fun he => ?_⟩
      rw [hn] at he
      cases he
    · refine iff_of_false (fun hr => ?_) fun hr => hp hr.1
      obtain ⟨stored, hset, -⟩ := hr
      simp [UserDefault.set, UserDefaults.setValue, ho, UserDefaults.set, hp] at hset

end

namespace Ty

theorem conforms (β : Base → Type) :
    (t : Ty) → Conforms (β := β) (α := t.Val β) t.isNil t.hasNilInside
  | base type => conforms_base type
  | optional t => by
    have h := conforms_optional (conforms β t)
    refine ⟨fun v => ?_, fun v => ?_, fun v => ?_⟩ <;> cases v
    · exact h.eq_none_iff none
    · exact h.eq_none_iff (some _)
    · exact h.isPropertyList_iff none
    · exact h.isPropertyList_iff (some _)
    · exact h.reads none
    · exact h.reads (some _)
  | array t => conforms_array (conforms β t)
  | dictionary t => conforms_dictionary (conforms β t)

/-- A value that is nil has no collection in it. -/
theorem hasNilInside_of_isNil : (t : Ty) → (v : t.Val β) → t.isNil v = true →
    t.hasNilInside v = false
  | base _, _, h => by cases h
  | optional _, none, _ => rfl
  | optional t, some v, h => hasNilInside_of_isNil t v h
  | array _, _, h => by cases h
  | dictionary _, _, h => by cases h

/-- A value that is assigned is the one read back exactly when no collection in it holds a
nil and, if it is nil, so is the default. -/
theorem stored_reads_back_iff (t : Ty) (p : UserDefault (t.Val β)) (v : t.Val β)
    (defaults : UserDefaults β) :
    p.ReadsBack v defaults ↔
      t.hasNilInside v = false ∧ (t.isNil v = true → v = p.defaultValue) :=
  readsBack_iff (t.conforms β) p v defaults (t.hasNilInside_of_isNil v)

/-- An optional whose default is 5 reads 5 after nil was assigned, and an array with a nil
cannot be assigned. -/
theorem nil_is_not_read_back :
    let ints : Base → Type := fun _ => Int
    let p : UserDefault ((optional (base .int)).Val ints) := ⟨"count", some (5 : Int)⟩
    let q : UserDefault ((array (optional (base .int))).Val ints) := ⟨"counts", []⟩
    let empty : UserDefaults ints := fun _ => none
    (p.set none empty).map p.get = some (some (5 : Int)) ∧ ¬p.ReadsBack none empty ∧
      (q.set [none] empty).isNone = true ∧ ¬q.ReadsBack [none] empty := by
  intro ints p q empty
  refine ⟨by rfl, fun h => ?_, by rfl, fun h => ?_⟩
  · have hd := ((readsBack_iff (conforms ints _) p none _ fun _ => rfl).mp h).2 rfl
    cases hd
  · have hn := ((readsBack_iff (conforms ints _) q [none] _ fun hn => by cases hn).mp h).1
    cases hn

/-! ## Types without optionals -/

def plain : Ty → Bool
  | base _ => true
  | optional _ => false
  | array t => t.plain
  | dictionary t => t.plain

theorem isNil_of_plain {t : Ty} (h : t.plain = true) (v : t.Val β) : t.isNil v = false := by
  cases t with
  | optional t => cases h
  | _ => rfl

theorem hasNilInside_of_plain : (t : Ty) → t.plain = true → (v : t.Val β) →
    t.hasNilInside v = false
  | base _, _, _ => rfl
  | optional _, h, _ => by cases h
  | array t, h, vs => List.any_eq_false.mpr fun v _ => by
    have ht : t.plain = true := h
    simp [isNil_of_plain ht, hasNilInside_of_plain t ht v]
  | dictionary t, h, d => List.any_eq_false.mpr fun v _ => by
    have ht : t.plain = true := h
    simp [isNil_of_plain ht, hasNilInside_of_plain t ht v]

end Ty

/-- The types of the properties of `AppData`. -/
def appDataTy : AppData.Key → Ty
  | .firstLunch => .base .bool
  | .teamId => .base .int
  | .roomIds => .array (.base .int)
  | .userMailAddress | .userName | .userPassword | .uid | .client | .accessToken => .base .string

/-- What is assigned to a property of `AppData` is read back, whatever its default. -/
theorem appData_reads_back (k : AppData.Key) (p : UserDefault ((appDataTy k).Val β))
    (v : (appDataTy k).Val β) (defaults : UserDefaults β) : p.ReadsBack v defaults := by
  have hplain : (appDataTy k).plain = true := by cases k <;> rfl
  refine (readsBack_iff (Ty.conforms β _) p v defaults (Ty.hasNilInside_of_isNil _ v)).mpr
    ⟨Ty.hasNilInside_of_plain _ hplain v, fun hn => ?_⟩
  rw [Ty.isNil_of_plain hplain v] at hn
  cases hn

end Karupasu.Util
