import Karupasu.Library.JSONFormat
import Mathlib.Data.List.Forall2

/-!
# Reading records from JSON

A decoder either gives a value or says where and why the text is not one. `Codec` pairs a decoder
with the encoder it undoes and with the format of its texts. `Fields` is the part of a record that
reads and writes some keys of an object: two of them with different keys make a larger one, which
reads in their order.
-/
namespace Karupasu.Library
namespace JSON

variable {α β : Type}

/-- The result of a nested decoder. -/
def under (key : CodingKey) : Except DecodingError α → Except DecodingError α
  | .ok a => .ok a
  | .error e => .error (e.under key)

@[simp] theorem under_eq_ok {key : CodingKey} {r : Except DecodingError α} {a : α} :
    under key r = .ok a ↔ r = .ok a := by
  cases r <;> simp [under]

theorem under_eq_error {key : CodingKey} {r : Except DecodingError α} {e : DecodingError} :
    under key r = .error e ↔
      ∃ e', r = .error e' ∧ e = e'.under key := by
  cases r <;> simp [under, eq_comm]

/-- A decoder, and an encoder whose values it reads back; `Writable` is what can be written. -/
structure Codec (α : Type) where
  decode : JSON → Except DecodingError α
  encode : α → JSON
  Writable : α → Prop
  decode_encode : ∀ a, Writable a → decode (encode a) = .ok a
  encode_ne_null : ∀ a, encode a ≠ .null
  format : Format
  reads : ∀ j a, decode j = .ok a → format.Reads j
  blames : ∀ j e, decode j = .error e → format.Blames j e

theorem Codec.reads_iff (c : Codec α) (j : JSON) : c.format.Reads j ↔ ∃ a, c.decode j = .ok a := by
  refine ⟨fun hr => ?_, fun ⟨a, ha⟩ => c.reads j a ha⟩
  cases hd : c.decode j with
  | ok a => exact ⟨a, rfl⟩
  | error e => exact absurd hr (c.format.not_reads j e (c.blames j e hd))

/-- What is blamed on a text is its error. -/
theorem Codec.decode_eq_error_iff (c : Codec α) (j : JSON) (e : DecodingError) :
    c.decode j = .error e ↔ c.format.Blames j e := by
  refine ⟨c.blames j e, fun hb => ?_⟩
  cases hd : c.decode j with
  | ok a => exact absurd (c.reads j a hd) (c.format.not_reads j e hb)
  | error e' => rw [c.format.unique j e' e (c.blames j e' hd) hb]

/-! ## Texts, integers and arrays -/

def decodeString : JSON → Except DecodingError String
  | .string value => .ok value
  | .null => .error ⟨.valueNotFound, []⟩
  | _ => .error ⟨.typeMismatch, []⟩

theorem decodeString_eq_ok {j : JSON} {s : String} : decodeString j = .ok s ↔ j = .string s := by
  cases j <;> simp [decodeString]

theorem decodeString_eq_error {j : JSON} {e : DecodingError} (h : decodeString j = .error e) :
    Mistakes .string j e := by
  cases j with
  | string value => cases h
  | null | bool | number | array | object =>
    exact ⟨fun hk => (by cases hk), (Except.error.inj h).symm⟩

def Codec.string : Codec String where
  decode := decodeString
  encode := JSON.string
  Writable _ := True
  decode_encode _ _ := rfl
  encode_ne_null _ h := by cases h
  format := .string
  reads _ _ h := ⟨_, decodeString_eq_ok.mp h⟩
  blames _ _ := decodeString_eq_error

def decodeInt : JSON → Except DecodingError Int
  | .number value =>
    if value.den = 1 ∧ FitsInt value.num then .ok value.num else .error ⟨.dataCorrupted, []⟩
  | .null => .error ⟨.valueNotFound, []⟩
  | _ => .error ⟨.typeMismatch, []⟩

theorem decodeInt_eq_ok {j : JSON} {n : Int} :
    decodeInt j = .ok n ↔ j = .number n ∧ FitsInt n := by
  cases j with
  | number value =>
    simp only [decodeInt, number.injEq]
    constructor
    · intro h
      split at h
      · next hv =>
        have hn : value.num = n := Except.ok.inj h
        have hvalue : value = n := by
          rw [← hn]
          exact Rat.ext rfl hv.1
        exact ⟨hvalue, hn ▸ hv.2⟩
      · cases h
    · intro h
      obtain ⟨rfl, hn⟩ := h
      exact if_pos ⟨rfl, hn⟩
  | null | bool | string | array | object => simp [decodeInt]

theorem decodeInt_eq_error {j : JSON} {e : DecodingError} (h : decodeInt j = .error e) :
    Format.int.Blames j e := by
  cases j with
  | number value =>
    simp only [decodeInt] at h
    split at h
    · cases h
    · next hv =>
      refine .inr ⟨value, rfl, fun n hn hvalue => hv ?_, (Except.error.inj h).symm⟩
      rw [hvalue]
      exact ⟨rfl, hn⟩
  | null | bool | string | array | object =>
    exact .inl ⟨fun hk => (by cases hk), (Except.error.inj h).symm⟩

def Codec.int : Codec Int where
  decode := decodeInt
  encode n := .number n
  Writable := FitsInt
  decode_encode _ h := decodeInt_eq_ok.mpr ⟨rfl, h⟩
  encode_ne_null _ h := by cases h
  format := .int
  reads _ _ h := ⟨_, decodeInt_eq_ok.mp h⟩
  blames _ _ := decodeInt_eq_error

/-- The elements from the place `index` on. -/
def decodeElements (decode : JSON → Except DecodingError α) (index : Nat) :
    List JSON → Except DecodingError (List α)
  | [] => .ok []
  | j :: js => do
    let a ← under (.index index) (decode j)
    let as ← decodeElements decode (index + 1) js
    pure (a :: as)

theorem decodeElements_eq_ok {decode : JSON → Except DecodingError α} {index : Nat}
    {js : List JSON} {as : List α} :
    decodeElements decode index js = .ok as ↔ List.Forall₂ (fun j a => decode j = .ok a) js as := by
  induction js generalizing index as with
  | nil => cases as <;> simp [decodeElements]
  | cons j js ih =>
    rw [decodeElements]
    cases hj : decode j with
    | error e =>
      cases as <;> simp [under, hj, bind, Except.bind]
    | ok a =>
      cases hrest : decodeElements decode (index + 1) js with
      | error e =>
        have hno : ∀ as, ¬ List.Forall₂ (fun j a => decode j = .ok a) js as := by
          intro as has
          rw [← ih, hrest] at has
          cases has
        cases as <;> simp [under, hj, bind, Except.bind, hno]
      | ok as' =>
        have has' : List.Forall₂ (fun j a => decode j = .ok a) js as' := ih.mp hrest
        cases as with
        | nil => simp [under, bind, Except.bind, pure, Except.pure]
        | cons b bs =>
          rw [List.forall₂_cons, hj, ← ih, hrest]
          simp [under, bind, Except.bind, pure, Except.pure]

/-- The error of an array is that of its first element that is not read. -/
theorem decodeElements_eq_error {decode : JSON → Except DecodingError α} {f : Format}
    (hreads : ∀ j a, decode j = .ok a → f.Reads j)
    (hblames : ∀ j e, decode j = .error e → f.Blames j e) {index : Nat} {js : List JSON}
    {e : DecodingError} (h : decodeElements decode index js = .error e) :
    FirstBlamed f.Reads (fun n i e => ∃ e', f.Blames i e' ∧ e = e'.under (.index n)) index js e := by
  induction js generalizing index with
  | nil => cases h
  | cons j js ih =>
    rw [decodeElements] at h
    cases hj : decode j with
    | error e' =>
      refine .here ⟨e', hblames j e' hj, ?_⟩
      simpa [under, hj, bind, Except.bind, eq_comm] using h
    | ok a =>
      refine .later (hreads j a hj) (ih ?_)
      cases hrest : decodeElements decode (index + 1) js with
      | error e₁ => simpa [under, hj, hrest, bind, Except.bind] using h
      | ok as => simp [under, hj, hrest, bind, Except.bind, pure, Except.pure] at h

def decodeArray (decode : JSON → Except DecodingError α) : JSON → Except DecodingError (List α)
  | .array elements => decodeElements decode 0 elements
  | .null => .error ⟨.valueNotFound, []⟩
  | _ => .error ⟨.typeMismatch, []⟩

theorem decodeArray_eq_ok {decode : JSON → Except DecodingError α} {j : JSON} {as : List α} :
    decodeArray decode j = .ok as ↔
      ∃ js, j = .array js ∧ List.Forall₂ (fun j a => decode j = .ok a) js as := by
  cases j with
  | array elements => simp [decodeArray, decodeElements_eq_ok]
  | null | bool | number | string | object => simp [decodeArray]

theorem exists_of_forall₂ {r : JSON → α → Prop} {js : List JSON} {as : List α}
    (h : List.Forall₂ r js as) {j : JSON} (hj : j ∈ js) : ∃ a, r j a := by
  induction h with
  | nil => cases hj
  | cons hr _ ih =>
    obtain rfl | hj := List.mem_cons.mp hj
    · exact ⟨_, hr⟩
    · exact ih hj

def Codec.array (c : Codec α) : Codec (List α) where
  decode := decodeArray c.decode
  encode as := .array (as.map c.encode)
  Writable as := ∀ a ∈ as, c.Writable a
  decode_encode as h := by
    refine decodeArray_eq_ok.mpr ⟨_, rfl, ?_⟩
    rw [List.forall₂_map_left_iff, List.forall₂_same]
    exact fun a ha => c.decode_encode a (h a ha)
  encode_ne_null _ h := by cases h
  format := .array c.format
  reads j as h := by
    obtain ⟨js, rfl, hall⟩ := decodeArray_eq_ok.mp h
    exact ⟨js, rfl, fun i hi => (exists_of_forall₂ hall hi).elim (c.reads i)⟩
  blames j e h := by
    cases j with
    | array elements => exact .inr ⟨elements, rfl, decodeElements_eq_error c.reads c.blames h⟩
    | null | bool | number | string | object =>
      exact .inl ⟨fun hk => (by cases hk), (Except.error.inj h).symm⟩

/-! ## Records -/

/-- Some keys of an object. Nothing else is read or written. -/
structure Fields (α : Type) where
  keys : List Key
  decode : (String → Option JSON) → Except DecodingError α
  encode : α → List (String × JSON)
  Writable : α → Prop
  decode_congr : ∀ look look', (∀ k ∈ keys, look k.name = look' k.name) → decode look = decode look'
  keys_encode : ∀ a, ∀ p ∈ encode a, p.1 ∈ keys.map Key.name
  decode_encode : ∀ a, Writable a → decode (fun k => (encode a).lookup k) = .ok a
  reads : ∀ look a, decode look = .ok a → ∀ k ∈ keys, k.Reads look
  blames : ∀ look e, decode look = .error e → BlamesKeys keys look e

namespace Fields

/-- A key that must be there. -/
def decodeKey (decode : JSON → Except DecodingError α) (key : String)
    (look : String → Option JSON) : Except DecodingError α :=
  match look key with
  | some j => under (.key key) (decode j)
  | none => .error ⟨.keyNotFound key, []⟩

theorem decodeKey_eq_ok {decode : JSON → Except DecodingError α} {key : String}
    {look : String → Option JSON} {a : α} :
    decodeKey decode key look = .ok a ↔ ∃ j, look key = some j ∧ decode j = .ok a := by
  unfold decodeKey
  cases hl : look key <;> simp

def required (key : String) (c : Codec α) : Fields α where
  keys := [.required key c.format]
  decode := decodeKey c.decode key
  encode a := [(key, c.encode a)]
  Writable := c.Writable
  decode_congr look look' h := by
    have hkey : look key = look' key := h _ (List.mem_singleton_self _)
    unfold decodeKey
    rw [hkey]
  keys_encode a p hp := by
    rw [List.mem_singleton] at hp
    rw [hp]
    exact List.mem_singleton_self key
  decode_encode a h := decodeKey_eq_ok.mpr ⟨_, List.lookup_cons_self, c.decode_encode a h⟩
  reads look a h k hk := by
    obtain rfl := List.mem_singleton.mp hk
    obtain ⟨j, hj, ha⟩ := decodeKey_eq_ok.mp h
    exact .inr ⟨j, hj, c.reads j a ha⟩
  blames look e h := by
    unfold decodeKey at h
    cases hl : look key with
    | none =>
      rw [hl] at h
      exact .here (.inl ⟨rfl, hl, (Except.error.inj h).symm⟩)
    | some j =>
      rw [hl] at h
      obtain ⟨e', hd, he⟩ := under_eq_error.mp h
      exact .here (.inr ⟨j, hl, nofun, e', c.blames j e' hd, he⟩)

/-- A key that may be missing, or hold a null. -/
def decodeIfPresent (decode : JSON → Except DecodingError α) (key : String)
    (look : String → Option JSON) : Except DecodingError (Option α) :=
  match look key with
  | none | some .null => .ok none
  | some j => (under (.key key) (decode j)).map some

theorem decodeIfPresent_of_ne_null {decode : JSON → Except DecodingError α} {key : String}
    {look : String → Option JSON} {j : JSON} (hl : look key = some j) (hj : j ≠ .null) :
    decodeIfPresent decode key look = (under (.key key) (decode j)).map some := by
  unfold decodeIfPresent
  rw [hl]
  cases j <;> first | exact absurd rfl hj | rfl

theorem decodeIfPresent_eq_ok {decode : JSON → Except DecodingError α} {key : String}
    {look : String → Option JSON} {o : Option α} :
    decodeIfPresent decode key look = .ok o ↔
      (o = none ∧ (look key = none ∨ look key = some .null)) ∨
        ∃ j a, look key = some j ∧ j ≠ .null ∧ decode j = .ok a ∧ o = some a := by
  cases hl : look key with
  | none => simp [decodeIfPresent, hl, eq_comm]
  | some j =>
    by_cases hj : j = .null
    · subst hj
      simp [decodeIfPresent, hl, eq_comm]
    · rw [decodeIfPresent_of_ne_null hl hj]
      cases hd : decode j <;> simp [under, Except.map, hj, hd, eq_comm]

def optional (key : String) (c : Codec α) : Fields (Option α) where
  keys := [.optional key c.format]
  decode := decodeIfPresent c.decode key
  encode o := o.toList.map fun a => (key, c.encode a)
  Writable o := ∀ a, o = some a → c.Writable a
  decode_congr look look' h := by
    have hkey : look key = look' key := h _ (List.mem_singleton_self _)
    unfold decodeIfPresent
    rw [hkey]
  keys_encode o p hp := by
    obtain ⟨a, _, rfl⟩ := List.mem_map.mp hp
    exact List.mem_singleton_self key
  decode_encode o h := by
    refine decodeIfPresent_eq_ok.mpr ?_
    cases o with
    | none => exact Or.inl ⟨rfl, Or.inl rfl⟩
    | some a =>
      exact Or.inr ⟨_, a, List.lookup_cons_self, c.encode_ne_null a, c.decode_encode a (h a rfl),
        rfl⟩
  reads look o h k hk := by
    obtain rfl := List.mem_singleton.mp hk
    obtain ⟨-, hl⟩ | ⟨j, a, hj, -, ha, -⟩ := decodeIfPresent_eq_ok.mp h
    · exact .inl ⟨rfl, hl⟩
    · exact .inr ⟨j, hj, c.reads j a ha⟩
  blames look e h := by
    cases hl : look key with
    | none =>
      simp only [decodeIfPresent, hl] at h
      cases h
    | some j =>
      by_cases hj : j = .null
      · subst hj
        simp only [decodeIfPresent, hl] at h
        cases h
      · rw [decodeIfPresent_of_ne_null hl hj] at h
        cases hd : c.decode j with
        | ok a =>
          rw [hd] at h
          cases h
        | error e' =>
          rw [hd] at h
          exact .here (.inr ⟨j, hl, fun _ => hj, e', c.blames j e' hd, (Except.error.inj h).symm⟩)

theorem lookup_eq_none {l : List (String × JSON)} {k : String} (h : ∀ p ∈ l, p.1 ≠ k) :
    l.lookup k = none := by
  rw [List.lookup_eq_none_iff]
  intro p hp
  rw [bne_iff_ne]
  exact fun hk => h p hp hk.symm

/-- Two parts, read in this order. -/
def decodeBoth (f : Fields α) (g : Fields β) (look : String → Option JSON) :
    Except DecodingError (α × β) :=
  match f.decode look with
  | .error e => .error e
  | .ok a =>
    match g.decode look with
    | .error e => .error e
    | .ok b => .ok (a, b)

theorem decodeBoth_eq_ok {f : Fields α} {g : Fields β} {look : String → Option JSON} {p : α × β} :
    decodeBoth f g look = .ok p ↔ f.decode look = .ok p.1 ∧ g.decode look = .ok p.2 := by
  unfold decodeBoth
  cases hf : f.decode look with
  | error e => simp
  | ok a => cases hg : g.decode look <;> simp [Prod.ext_iff]

def both (f : Fields α) (g : Fields β)
    (h : ∀ name ∈ f.keys.map Key.name, name ∉ g.keys.map Key.name) : Fields (α × β) where
  keys := f.keys ++ g.keys
  decode := decodeBoth f g
  encode p := f.encode p.1 ++ g.encode p.2
  Writable p := f.Writable p.1 ∧ g.Writable p.2
  decode_congr look look' heq := by
    unfold decodeBoth
    rw [f.decode_congr look look' fun k hk => heq k (List.mem_append_left _ hk),
      g.decode_congr look look' fun k hk => heq k (List.mem_append_right _ hk)]
  keys_encode p q hq := by
    rw [List.map_append]
    obtain hq | hq := List.mem_append.mp hq
    · exact List.mem_append_left _ (f.keys_encode p.1 q hq)
    · exact List.mem_append_right _ (g.keys_encode p.2 q hq)
  decode_encode p hw := by
    refine decodeBoth_eq_ok.mpr ⟨?_, ?_⟩
    · rw [← f.decode_encode p.1 hw.1]
      refine f.decode_congr _ _ fun k hk => ?_
      -- the other part writes no key of this one
      have hnone : (g.encode p.2).lookup k.name = none := by
        refine lookup_eq_none fun q hq hqk => h k.name (List.mem_map_of_mem hk) ?_
        rw [← hqk]
        exact g.keys_encode p.2 q hq
      simp only [List.lookup_append, hnone, Option.or_none]
    · rw [← g.decode_encode p.2 hw.2]
      refine g.decode_congr _ _ fun k hk => ?_
      have hnone : (f.encode p.1).lookup k.name = none := by
        refine lookup_eq_none fun q hq hqk => h k.name ?_ (List.mem_map_of_mem hk)
        rw [← hqk]
        exact f.keys_encode p.1 q hq
      simp only [List.lookup_append, hnone, Option.none_or]
  reads look p hp k hk := by
    obtain ⟨hf, hg⟩ := decodeBoth_eq_ok.mp hp
    obtain hk | hk := List.mem_append.mp hk
    · exact f.reads look p.1 hf k hk
    · exact g.reads look p.2 hg k hk
  blames look e he := by
    unfold decodeBoth at he
    cases hf : f.decode look with
    | error e₁ =>
      rw [hf] at he
      obtain rfl := Except.error.inj he
      exact (f.blames look e₁ hf).append_right g.keys
    | ok a =>
      rw [hf] at he
      cases hg : g.decode look with
      | error e₁ =>
        rw [hg] at he
        obtain rfl := Except.error.inj he
        exact (g.blames look e₁ hg).append_left (f.reads look a hf)
      | ok b =>
        rw [hg] at he
        cases he

/-- The parts of a record, put together. -/
def record (f : Fields α) (make : α → β) (parts : β → α) (h : ∀ b, make (parts b) = b) :
    Fields β where
  keys := f.keys
  decode look := (f.decode look).map make
  encode b := f.encode (parts b)
  Writable b := f.Writable (parts b)
  decode_congr look look' heq := by rw [f.decode_congr look look' heq]
  keys_encode b := f.keys_encode (parts b)
  decode_encode b hw := by
    rw [f.decode_encode (parts b) hw, ← h b]
    simp [Except.map, h]
  reads look b hb := by
    cases hf : f.decode look with
    | ok a => exact f.reads look a hf
    | error e =>
      rw [hf] at hb
      cases hb
  blames look e he := by
    cases hf : f.decode look with
    | ok a =>
      rw [hf] at he
      cases he
    | error e₁ =>
      rw [hf] at he
      obtain rfl := Except.error.inj he
      exact f.blames look e₁ hf

theorem record_eq_ok {f : Fields α} {make : α → β} {parts : β → α} {h : ∀ b, make (parts b) = b}
    (hp : ∀ a, parts (make a) = a) {look : String → Option JSON} {b : β} :
    (f.record make parts h).decode look = .ok b ↔ f.decode look = .ok (parts b) := by
  show (f.decode look).map make = .ok b ↔ _
  cases hf : f.decode look with
  | error e => simp [Except.map]
  | ok a =>
    simp only [Except.map, Except.ok.injEq]
    constructor
    · intro hm
      rw [← hm, hp]
    · intro ha
      rw [ha, h]

@[simp] theorem both_eq_ok {f : Fields α} {g : Fields β} {h : ∀ name ∈ f.keys.map Key.name, name ∉ g.keys.map Key.name}
    {look : String → Option JSON} {a : α} {b : β} :
    (both f g h).decode look = .ok (a, b) ↔ f.decode look = .ok a ∧ g.decode look = .ok b :=
  decodeBoth_eq_ok

/-- What the value under a key has to be. -/
def At (look : String → Option JSON) (key : String) (p : JSON → Prop) : Prop :=
  ∃ j, look key = some j ∧ p j

/-- The same of a key that may be missing, or hold a null. -/
def IfPresent (look : String → Option JSON) (key : String) (p : α → JSON → Prop) (o : Option α) :
    Prop :=
  (o = none ∧ (look key = none ∨ look key = some .null)) ∨
    ∃ j a, look key = some j ∧ j ≠ .null ∧ p a j ∧ o = some a

@[simp] theorem required_eq_ok {key : String} {c : Codec α} {look : String → Option JSON} {a : α} :
    (required key c).decode look = .ok a ↔ At look key fun j => c.decode j = .ok a :=
  decodeKey_eq_ok

@[simp] theorem optional_eq_ok {key : String} {c : Codec α} {look : String → Option JSON}
    {o : Option α} :
    (optional key c).decode look = .ok o ↔
      IfPresent look key (fun a j => c.decode j = .ok a) o :=
  decodeIfPresent_eq_ok

end Fields

def decodeObject (f : Fields α) : JSON → Except DecodingError α
  | .object entries => f.decode fun k => entries.lookup k
  | .null => .error ⟨.valueNotFound, []⟩
  | _ => .error ⟨.typeMismatch, []⟩

theorem decodeObject_eq_ok {f : Fields α} {j : JSON} {a : α} :
    decodeObject f j = .ok a ↔
      ∃ entries, j = .object entries ∧ f.decode (fun k => entries.lookup k) = .ok a := by
  cases j <;> simp [decodeObject]

def Codec.object (f : Fields α) : Codec α where
  decode := decodeObject f
  encode a := .object (f.encode a)
  Writable := f.Writable
  decode_encode a h := decodeObject_eq_ok.mpr ⟨_, rfl, f.decode_encode a h⟩
  encode_ne_null _ h := by cases h
  format := .object f.keys
  reads j a h := by
    obtain ⟨entries, rfl, ha⟩ := decodeObject_eq_ok.mp h
    exact ⟨entries, rfl, f.reads _ a ha⟩
  blames j e h := by
    cases j with
    | object entries => exact .inr ⟨entries, rfl, f.blames _ e h⟩
    | null | bool | number | string | array =>
      exact .inl ⟨fun hk => (by cases hk), (Except.error.inj h).symm⟩

/-- A list whose elements are those of an array. -/
def Lists (p : α → JSON → Prop) (as : List α) (j : JSON) : Prop :=
  ∃ js, j = .array js ∧ List.Forall₂ (fun j a => p a j) js as

/-- A record that the entries of an object make. -/
def Makes (p : α → (String → Option JSON) → Prop) (a : α) (j : JSON) : Prop :=
  ∃ entries, j = .object entries ∧ p a fun k => entries.lookup k

/-- Each element of the list has a text. -/
theorem Lists.exists {p : α → JSON → Prop} {as : List α} {j : JSON} (h : Lists p as j) {a : α}
    (ha : a ∈ as) : ∃ i, p a i := by
  obtain ⟨js, _, hall⟩ := h
  obtain ⟨k, hk, hget⟩ := List.getElem_of_mem ha
  have hlen := hall.length_eq
  have hp := hall.get (by omega) hk
  exact ⟨js[k], by simpa [hget] using hp⟩

@[simp] theorem Codec.string_eq_ok {j : JSON} {s : String} :
    Codec.string.decode j = .ok s ↔ j = .string s := decodeString_eq_ok

@[simp] theorem Codec.int_eq_ok {j : JSON} {n : Int} :
    Codec.int.decode j = .ok n ↔ j = .number n ∧ FitsInt n := decodeInt_eq_ok

theorem Codec.array_eq_ok {c : Codec α} {p : α → JSON → Prop}
    (h : ∀ j a, c.decode j = .ok a ↔ p a j) {j : JSON} {as : List α} :
    c.array.decode j = .ok as ↔ Lists p as j := by
  have hp : (fun (j : JSON) a => c.decode j = .ok a) = fun j a => p a j := by
    funext j a
    exact propext (h j a)
  show decodeArray c.decode j = .ok as ↔ _
  rw [decodeArray_eq_ok, hp, Lists]

theorem Codec.object_eq_ok {f : Fields α} {p : α → (String → Option JSON) → Prop}
    (h : ∀ look a, f.decode look = .ok a ↔ p a look) {j : JSON} {a : α} :
    (Codec.object f).decode j = .ok a ↔ Makes p a j := by
  show decodeObject f j = .ok a ↔ _
  simp only [decodeObject_eq_ok, h, Makes]

end JSON
end Karupasu.Library
