import Mathlib.Data.List.Basic
import Mathlib.Data.Rat.Defs

/-!
# What an error says of a JSON text

A `Format` says which texts are read and what an error says of one that is not: the path leads to
the first place that is not read, and the problem is what is wrong there. An error that is blamed
on a text is so always true of it, and there is one at most.
-/
namespace Karupasu.Library

/-- A parsed text. A number is its value, and an object lists the entries of a dictionary. -/
inductive JSON where
  | null
  | bool (value : Bool)
  | number (value : Rat)
  | string (value : String)
  | array (elements : List JSON)
  | object (entries : List (String × JSON))

namespace JSON

inductive CodingKey where
  | key (name : String)
  | index (index : Nat)
  deriving DecidableEq

inductive Problem where
  | typeMismatch
  | valueNotFound
  | keyNotFound (key : String)
  | dataCorrupted
  deriving DecidableEq

structure DecodingError where
  problem : Problem
  codingPath : List CodingKey
  deriving DecidableEq

/-- The error of a value, seen from the text that has it under the key. -/
def DecodingError.under (e : DecodingError) (key : CodingKey) : DecodingError :=
  { e with codingPath := key :: e.codingPath }

inductive Kind where
  | null | bool | number | string | array | object
  deriving DecidableEq

def kind : JSON → Kind
  | .null => .null
  | .bool _ => .bool
  | .number _ => .number
  | .string _ => .string
  | .array _ => .array
  | .object _ => .object

/-- The text is null, or of another kind than the one asked for. -/
def Mistakes (expected : Kind) (j : JSON) (e : DecodingError) : Prop :=
  j.kind ≠ expected ∧ e = ⟨if j.kind = .null then .valueNotFound else .typeMismatch, []⟩

/-- The integers of 64 bits. -/
def FitsInt (n : Int) : Prop := -9223372036854775808 ≤ n ∧ n ≤ 9223372036854775807

instance (n : Int) : Decidable (FitsInt n) := inferInstanceAs (Decidable (_ ∧ _))

/-- Some elements of a list are read and the next one is blamed; they are counted from `index`. -/
inductive FirstBlamed {α : Type} (Reads : α → Prop) (Blames : Nat → α → DecodingError → Prop) :
    Nat → List α → DecodingError → Prop where
  | here {index : Nat} {a : α} {rest : List α} {e : DecodingError} (hb : Blames index a e) :
      FirstBlamed Reads Blames index (a :: rest) e
  | later {index : Nat} {a : α} {rest : List α} {e : DecodingError} (hr : Reads a)
      (h : FirstBlamed Reads Blames (index + 1) rest e) :
      FirstBlamed Reads Blames index (a :: rest) e

namespace FirstBlamed

variable {α : Type} {Reads : α → Prop} {Blames : Nat → α → DecodingError → Prop}
variable {index : Nat} {l : List α} {e e' : DecodingError}

theorem not_forall (hn : ∀ i a e, Blames i a e → ¬Reads a) (h : FirstBlamed Reads Blames index l e) :
    ¬∀ a ∈ l, Reads a := by
  intro hall
  induction h with
  | here hb => exact hn _ _ _ hb (hall _ List.mem_cons_self)
  | later hr h ih => exact ih fun a ha => hall a (List.mem_cons_of_mem _ ha)

theorem unique (hn : ∀ i a e, Blames i a e → ¬Reads a)
    (hu : ∀ i a e e', Blames i a e → Blames i a e' → e = e')
    (h : FirstBlamed Reads Blames index l e) (h' : FirstBlamed Reads Blames index l e') : e = e' := by
  induction h with
  | here hb =>
    cases h' with
    | here hb' => exact hu _ _ _ _ hb hb'
    | later hr' _ => exact absurd hr' (hn _ _ _ hb)
  | later hr _ ih =>
    cases h' with
    | here hb' => exact absurd hr (hn _ _ _ hb')
    | later _ h' => exact ih h'

/-! Where the place of an element does not matter -/

section

variable {Blames : α → DecodingError → Prop}

theorem append_right (h : FirstBlamed Reads (fun _ => Blames) index l e) (l' : List α) :
    FirstBlamed Reads (fun _ => Blames) index (l ++ l') e := by
  induction h with
  | here hb => exact .here hb
  | later hr _ ih => exact .later hr ih

theorem append_left {l' : List α} (hall : ∀ a ∈ l', Reads a)
    (h : ∀ index, FirstBlamed Reads (fun _ => Blames) index l e) :
    FirstBlamed Reads (fun _ => Blames) index (l' ++ l) e := by
  induction l' generalizing index with
  | nil => exact h index
  | cons a l' ih =>
    obtain ⟨ha, hl'⟩ := List.forall_mem_cons.mp hall
    exact .later ha (ih hl')

theorem reindex (h : FirstBlamed Reads (fun _ => Blames) index l e) (index' : Nat) :
    FirstBlamed Reads (fun _ => Blames) index' l e := by
  induction h generalizing index' with
  | here hb => exact .here hb
  | later hr _ ih => exact .later hr (ih (index' + 1))

end

end FirstBlamed

/-- Which texts are read, and what an error says of a text that is not. -/
structure Format where
  Reads : JSON → Prop
  Blames : JSON → DecodingError → Prop
  not_reads : ∀ j e, Blames j e → ¬Reads j
  unique : ∀ j e e', Blames j e → Blames j e' → e = e'

namespace Format

def string : Format where
  Reads j := ∃ text, j = .string text
  Blames := Mistakes .string
  not_reads j e h := by
    rintro ⟨text, rfl⟩
    exact h.1 rfl
  unique j e e' h h' := h.2.trans h'.2.symm

/-- A number without a fraction, in 64 bits. -/
def int : Format where
  Reads j := ∃ n : Int, j = .number n ∧ FitsInt n
  Blames j e :=
    Mistakes .number j e ∨
      ∃ value, j = .number value ∧ (∀ n : Int, FitsInt n → value ≠ n) ∧ e = ⟨.dataCorrupted, []⟩
  not_reads j e h := by
    rintro ⟨n, rfl, hn⟩
    obtain h | ⟨value, hj, hv, -⟩ := h
    · exact h.1 rfl
    · exact hv n hn (JSON.number.inj hj).symm
  unique j e e' h h' := by
    obtain h | ⟨value, rfl, -, rfl⟩ := h
    · obtain h' | ⟨value, rfl, -⟩ := h'
      · exact h.2.trans h'.2.symm
      · exact absurd rfl h.1
    · obtain h' | ⟨value, -, -, rfl⟩ := h'
      · exact absurd rfl h'.1
      · rfl

/-- A list: the first element that is not read is blamed, under its place. -/
def array (f : Format) : Format where
  Reads j := ∃ js, j = .array js ∧ ∀ i ∈ js, f.Reads i
  Blames j e :=
    Mistakes .array j e ∨
      ∃ js, j = .array js ∧
        FirstBlamed f.Reads (fun n i e => ∃ e', f.Blames i e' ∧ e = e'.under (.index n)) 0 js e
  not_reads j e h := by
    rintro ⟨js, rfl, hjs⟩
    obtain h | ⟨js', hj, h⟩ := h
    · exact h.1 rfl
    · obtain rfl := JSON.array.inj hj
      exact h.not_forall (fun n i e ⟨e', he', _⟩ => f.not_reads i e' he') hjs
  unique j e e' h h' := by
    obtain h | ⟨js, rfl, h⟩ := h
    · obtain h' | ⟨js, rfl, -⟩ := h'
      · exact h.2.trans h'.2.symm
      · exact absurd rfl h.1
    · obtain h' | ⟨js', hj, h'⟩ := h'
      · exact absurd rfl h'.1
      · obtain rfl := JSON.array.inj hj
        refine h.unique (fun n i e ⟨e', he', _⟩ => f.not_reads i e' he') ?_ h'
        rintro n i _ _ ⟨a, ha, rfl⟩ ⟨b, hb, rfl⟩
        rw [f.unique i a b ha hb]

end Format

/-- A key of a record; one that is not required may be missing or hold a null. -/
structure Key where
  name : String
  isRequired : Bool
  format : Format

namespace Key

variable {k : Key} {look : String → Option JSON} {e e' : DecodingError}

def required (name : String) (format : Format) : Key := ⟨name, true, format⟩

def optional (name : String) (format : Format) : Key := ⟨name, false, format⟩

def Reads (look : String → Option JSON) (k : Key) : Prop :=
  (k.isRequired = false ∧ (look k.name = none ∨ look k.name = some .null)) ∨
    ∃ j, look k.name = some j ∧ k.format.Reads j

/-- The key is missing, or the error is that of the value under it. -/
def Blames (look : String → Option JSON) (k : Key) (e : DecodingError) : Prop :=
  (k.isRequired = true ∧ look k.name = none ∧ e = ⟨.keyNotFound k.name, []⟩) ∨
    ∃ j, look k.name = some j ∧ (k.isRequired = false → j ≠ .null) ∧
      ∃ e', k.format.Blames j e' ∧ e = e'.under (.key k.name)

theorem Blames.not_reads (h : k.Blames look e) : ¬k.Reads look := by
  rintro (⟨hopt, hl⟩ | ⟨i, hl, hr⟩)
  · obtain ⟨hreq, -⟩ | ⟨j, hj, hnull, -⟩ := h
    · rw [hopt] at hreq
      cases hreq
    · rw [hj] at hl
      obtain hl | hl := hl
      · cases hl
      · exact hnull hopt (Option.some.inj hl)
  · obtain ⟨-, hnone, -⟩ | ⟨j, hj, -, e', hb, -⟩ := h
    · rw [hl] at hnone
      cases hnone
    · rw [hl] at hj
      obtain rfl := Option.some.inj hj
      exact k.format.not_reads i e' hb hr

theorem Blames.unique (h : k.Blames look e) (h' : k.Blames look e') : e = e' := by
  obtain ⟨-, hnone, rfl⟩ | ⟨j, hj, -, a, ha, rfl⟩ := h
  · obtain ⟨-, -, rfl⟩ | ⟨j, hj, -⟩ := h'
    · rfl
    · rw [hnone] at hj
      cases hj
  · obtain ⟨-, hnone, -⟩ | ⟨j', hj', -, b, hb, rfl⟩ := h'
    · rw [hnone] at hj
      cases hj
    · rw [hj] at hj'
      obtain rfl := Option.some.inj hj'
      rw [k.format.unique j a b ha hb]

end Key

/-- The first key that is not read is blamed. -/
def BlamesKeys (keys : List Key) (look : String → Option JSON) (e : DecodingError) : Prop :=
  FirstBlamed (Key.Reads look) (fun _ => Key.Blames look) 0 keys e

theorem BlamesKeys.append_right {keys : List Key} {look : String → Option JSON} {e : DecodingError}
    (h : BlamesKeys keys look e) (keys' : List Key) : BlamesKeys (keys ++ keys') look e :=
  FirstBlamed.append_right h keys'

theorem BlamesKeys.append_left {keys keys' : List Key} {look : String → Option JSON}
    {e : DecodingError} (hall : ∀ k ∈ keys', k.Reads look) (h : BlamesKeys keys look e) :
    BlamesKeys (keys' ++ keys) look e :=
  FirstBlamed.append_left hall h.reindex

/-- A record: the first of its keys that is not read is blamed. -/
def Format.object (keys : List Key) : Format where
  Reads j := ∃ entries, j = .object entries ∧ ∀ k ∈ keys, k.Reads fun name => entries.lookup name
  Blames j e :=
    Mistakes .object j e ∨
      ∃ entries, j = .object entries ∧ BlamesKeys keys (fun name => entries.lookup name) e
  not_reads j e h := by
    rintro ⟨entries, rfl, hall⟩
    obtain h | ⟨entries', hj, h⟩ := h
    · exact h.1 rfl
    · obtain rfl := JSON.object.inj hj
      exact h.not_forall (fun _ _ _ hb => hb.not_reads) hall
  unique j e e' h h' := by
    obtain h | ⟨entries, rfl, h⟩ := h
    · obtain h' | ⟨entries, rfl, -⟩ := h'
      · exact h.2.trans h'.2.symm
      · exact absurd rfl h.1
    · obtain h' | ⟨entries', hj, h'⟩ := h'
      · exact absurd rfl h'.1
      · obtain rfl := JSON.object.inj hj
        exact h.unique (fun _ _ _ hb => hb.not_reads) (fun _ _ _ _ hb hb' => hb.unique hb') h'

end JSON
end Karupasu.Library
