import Mathlib.Data.List.Basic

/-!
# Percent encoding and forms

A text is escaped character by character: an allowed character stands for itself, any other one
for the bytes of its UTF-8 encoding, each written as `%` and two hexadecimal digits. A form is a
list of pairs of texts, written as `name=value` with `&` between them. Both are read back when
none of `%`, `=` and `&` is allowed to stand for itself.
-/
namespace Karupasu.Library.PercentEncoding

/-! ## Hexadecimal digits -/

def hexDigit (n : Nat) : Char := if n < 10 then Char.ofNat (48 + n) else Char.ofNat (55 + n)

/-- Digits are read in upper and in lower case. -/
def hexValue (c : Char) : Option Nat :=
  if '0' ≤ c ∧ c ≤ '9' then some (c.toNat - 48)
  else if 'A' ≤ c ∧ c ≤ 'F' then some (c.toNat - 55)
  else if 'a' ≤ c ∧ c ≤ 'f' then some (c.toNat - 87)
  else none

theorem hexValue_hexDigit {n : Nat} (hn : n < 16) : hexValue (hexDigit n) = some n := by
  have h : ∀ m : Fin 16, hexValue (hexDigit m) = some m.val := by decide
  exact h ⟨n, hn⟩

theorem hexDigit_ne {c : Char} (hc : hexValue c = none) {n : Nat} (hn : n < 16) :
    c ≠ hexDigit n := by
  rintro rfl
  rw [hexValue_hexDigit hn] at hc
  exact Option.some_ne_none _ hc

/-! ## Escaping -/

def escapeByte (b : UInt8) : List Char :=
  ['%', hexDigit (b.toNat / 16), hexDigit (b.toNat % 16)]

section

variable (allowed : Char → Bool)

def escapeChar (c : Char) : List Char :=
  if allowed c then [c] else (String.utf8EncodeChar c).flatMap escapeByte

def escapeChars (cs : List Char) : List Char := cs.flatMap (escapeChar allowed)

def escape (s : String) : String := String.ofList (escapeChars allowed s.toList)

end

/-- The bytes an escaped text stands for, unless a `%` is not followed by two digits. -/
def unescape : List Char → Option (List UInt8)
  | [] => some []
  | c :: rest =>
    if c = '%' then
      match rest with
      | high :: low :: rest => do
        let h ← hexValue high
        let l ← hexValue low
        let bytes ← unescape rest
        return UInt8.ofNat (16 * h + l) :: bytes
      | _ => none
    else do
      let bytes ← unescape rest
      return String.utf8EncodeChar c ++ bytes

/-- The text that is encoded by the bytes an escaped text stands for. -/
def decode (cs : List Char) : Option String := do
  let bytes ← unescape cs
  let chars ← bytes.toByteArray.utf8Decode?
  return String.ofList chars.toList

theorem unescape_escapeByte (b : UInt8) (rest : List Char) :
    unescape (escapeByte b ++ rest) = (unescape rest).map (b :: ·) := by
  have hb : b.toNat < 256 := b.toNat_lt
  have hhigh : b.toNat / 16 < 16 := by omega
  have hlow : b.toNat % 16 < 16 := by omega
  have hbyte : UInt8.ofNat (16 * (b.toNat / 16) + b.toNat % 16) = b := by
    rw [Nat.div_add_mod]
    exact UInt8.ofNat_toNat
  show unescape ('%' :: hexDigit (b.toNat / 16) :: hexDigit (b.toNat % 16) :: rest) = _
  rw [unescape, if_pos rfl, hexValue_hexDigit hhigh, hexValue_hexDigit hlow]
  simp only [Option.bind_eq_bind, Option.bind_some, hbyte]
  cases unescape rest <;> rfl

theorem unescape_cons {c : Char} (hc : c ≠ '%') (rest : List Char) :
    unescape (c :: rest) = (unescape rest).map (String.utf8EncodeChar c ++ ·) := by
  conv_lhs => unfold unescape
  rw [if_neg hc]
  cases unescape rest <;> rfl

theorem unescape_escapeBytes (bytes : List UInt8) (rest : List Char) :
    unescape (bytes.flatMap escapeByte ++ rest) = (unescape rest).map (bytes ++ ·) := by
  induction bytes with
  | nil =>
    show unescape rest = _
    cases unescape rest <;> rfl
  | cons b bytes ih =>
    rw [List.flatMap_cons, List.append_assoc, unescape_escapeByte, ih, Option.map_map]
    rfl

variable {allowed : Char → Bool}

theorem unescape_escapeChar (h : allowed '%' = false) (c : Char) (rest : List Char) :
    unescape (escapeChar allowed c ++ rest) =
      (unescape rest).map (String.utf8EncodeChar c ++ ·) := by
  unfold escapeChar
  by_cases hc : allowed c = true
  · have hne : c ≠ '%' := by
      rintro rfl
      rw [h] at hc
      exact Bool.false_ne_true hc
    rw [if_pos hc]
    exact unescape_cons hne rest
  · rw [if_neg hc]
    exact unescape_escapeBytes _ rest

theorem unescape_escapeChars (h : allowed '%' = false) (cs : List Char) :
    unescape (escapeChars allowed cs) = some (cs.flatMap String.utf8EncodeChar) := by
  induction cs with
  | nil => rfl
  | cons c cs ih =>
    have hcons : escapeChars allowed (c :: cs) = escapeChar allowed c ++ escapeChars allowed cs :=
      List.flatMap_cons
    rw [hcons, unescape_escapeChar h, ih, List.flatMap_cons]
    rfl

/-- An escaped text is read back. -/
theorem decode_escape (h : allowed '%' = false) (s : String) :
    decode (escape allowed s).toList = some s := by
  have hutf8 : (s.toList.flatMap String.utf8EncodeChar).toByteArray.utf8Decode? =
      some s.toList.toArray := List.utf8Decode?_utf8Encode
  unfold decode escape
  rw [String.toList_ofList, unescape_escapeChars h]
  simp only [Option.bind_eq_bind, Option.bind_some, hutf8]
  simp

/-- Escaping loses nothing. -/
theorem escape_inj (h : allowed '%' = false) {s t : String} :
    escape allowed s = escape allowed t ↔ s = t := by
  constructor
  · intro he
    have hs := decode_escape h s
    rw [he, decode_escape h] at hs
    exact (Option.some.inj hs).symm
  · rintro rfl
    rfl

/-- An escaped text is made of allowed characters, `%` and digits. -/
theorem not_mem_escape {c : Char} (h : allowed c = false) (hp : c ≠ '%') (hx : hexValue c = none)
    (s : String) : c ∉ (escape allowed s).toList := by
  have hbyte : ∀ b : UInt8, c ∉ escapeByte b := by
    intro b
    have hb : b.toNat < 256 := b.toNat_lt
    have hhigh := hexDigit_ne hx (show b.toNat / 16 < 16 by omega)
    have hlow := hexDigit_ne hx (show b.toNat % 16 < 16 by omega)
    simp [escapeByte, hp, hhigh, hlow]
  intro hmem
  rw [escape, String.toList_ofList, escapeChars, List.mem_flatMap] at hmem
  obtain ⟨d, -, hd⟩ := hmem
  unfold escapeChar at hd
  by_cases hallowed : allowed d = true
  · rw [if_pos hallowed, List.mem_singleton] at hd
    rw [← hd, h] at hallowed
    exact Bool.false_ne_true hallowed
  · rw [if_neg hallowed, List.mem_flatMap] at hd
    obtain ⟨b, -, hb⟩ := hd
    exact hbyte b hb

/-! ## Escaped texts -/

/-- Allowed characters, and `%` with two digits after it. -/
def wellEscaped (allowed : Char → Bool) : List Char → Bool
  | [] => true
  | c :: rest =>
    if c = '%' then
      match rest with
      | high :: low :: rest =>
        (hexValue high).isSome && (hexValue low).isSome && wellEscaped allowed rest
      | _ => false
    else allowed c && wellEscaped allowed rest

section

variable {allowed' : Char → Bool}

theorem wellEscaped_cons {c : Char} (hc : c ≠ '%') (rest : List Char) :
    wellEscaped allowed' (c :: rest) = (allowed' c && wellEscaped allowed' rest) := by
  conv_lhs => unfold wellEscaped
  rw [if_neg hc]

theorem wellEscaped_escapeBytes (bytes : List UInt8) (rest : List Char) :
    wellEscaped allowed' (bytes.flatMap escapeByte ++ rest) = wellEscaped allowed' rest := by
  induction bytes with
  | nil => rfl
  | cons b bytes ih =>
    have hb : b.toNat < 256 := b.toNat_lt
    have hhigh : b.toNat / 16 < 16 := by omega
    have hlow : b.toNat % 16 < 16 := by omega
    rw [List.flatMap_cons, List.append_assoc]
    show wellEscaped allowed'
      ('%' :: hexDigit (b.toNat / 16) :: hexDigit (b.toNat % 16) :: (_ ++ rest)) = _
    rw [wellEscaped, if_pos rfl, hexValue_hexDigit hhigh, hexValue_hexDigit hlow, ih]
    rfl

theorem not_mem_of_wellEscaped {c : Char} (h : allowed c = false) (hp : c ≠ '%')
    (hx : hexValue c = none) {cs : List Char} (hw : wellEscaped allowed cs = true) : c ∉ cs := by
  have hdigit : ∀ d, (hexValue d).isSome = true → c ≠ d := by
    rintro d hd rfl
    rw [hx] at hd
    exact Bool.false_ne_true hd
  fun_induction wellEscaped allowed cs with
  | case1 => exact List.not_mem_nil
  | case2 high low rest ih =>
    rw [Bool.and_eq_true, Bool.and_eq_true] at hw
    simp [hp, hdigit high hw.1.1, hdigit low hw.1.2, ih hw.2]
  | case3 => cases hw
  | case4 d rest hd ih =>
    rw [Bool.and_eq_true] at hw
    have hne : c ≠ d := by
      rintro rfl
      rw [h] at hw
      exact Bool.false_ne_true hw.1
    simp [hne, ih hw.2]

/-- A text is escaped for a place where more characters are allowed. -/
theorem wellEscaped_escape (hp : allowed '%' = false)
    (h : ∀ c, allowed c = true → allowed' c = true) (s : String) (rest : List Char) :
    wellEscaped allowed' ((escape allowed s).toList ++ rest) = wellEscaped allowed' rest := by
  rw [escape, String.toList_ofList]
  induction s.toList with
  | nil => rfl
  | cons c cs ih =>
    have hcons : escapeChars allowed (c :: cs) = escapeChar allowed c ++ escapeChars allowed cs :=
      List.flatMap_cons
    rw [hcons, List.append_assoc, escapeChar]
    by_cases hc : allowed c = true
    · have hne : c ≠ '%' := by
        rintro rfl
        rw [hp] at hc
        exact Bool.false_ne_true hc
      rw [if_pos hc]
      show wellEscaped allowed' (c :: (escapeChars allowed cs ++ rest)) = _
      rw [wellEscaped_cons hne, h c hc, Bool.true_and, ih]
    · rw [if_neg hc, wellEscaped_escapeBytes, ih]

end

/-! ## Forms -/

/-- What a form is made of does not stand for itself in a name or a value. -/
structure Safe (allowed : Char → Bool) : Prop where
  percent : allowed '%' = false
  equals : allowed '=' = false
  ampersand : allowed '&' = false

def writePair (allowed : Char → Bool) (p : String × String) : String :=
  escape allowed p.1 ++ "=" ++ escape allowed p.2

def writeForm (allowed : Char → Bool) (pairs : List (String × String)) : String :=
  "&".intercalate (pairs.map (writePair allowed))

def readPair (cs : List Char) : Option (String × String) :=
  match cs.splitOn '=' with
  | [name, value] => do
    let name ← decode name
    let value ← decode value
    return (name, value)
  | _ => none

def readForm (s : String) : Option (List (String × String)) :=
  if s = "" then some [] else (s.toList.splitOn '&').mapM readPair

theorem toList_writePair (p : String × String) :
    (writePair allowed p).toList =
      ['='].intercalate [(escape allowed p.1).toList, (escape allowed p.2).toList] := by
  unfold writePair
  rw [String.toList_append, String.toList_append]
  simp

theorem readPair_writePair (h : Safe allowed) (p : String × String) :
    readPair (writePair allowed p).toList = some p := by
  have hsplit : (writePair allowed p).toList.splitOn '=' =
      [(escape allowed p.1).toList, (escape allowed p.2).toList] := by
    rw [toList_writePair]
    refine List.splitOn_intercalate _ ?_ (List.cons_ne_nil _ _)
    intro cs hcs
    rw [List.mem_cons, List.mem_singleton] at hcs
    obtain rfl | rfl := hcs
    · exact not_mem_escape h.equals (by decide) (by decide) p.1
    · exact not_mem_escape h.equals (by decide) (by decide) p.2
  unfold readPair
  rw [hsplit]
  simp only [decode_escape h.percent, Option.bind_eq_bind, Option.bind_some]
  rfl

theorem ampersand_not_mem_writePair (h : Safe allowed) (p : String × String) :
    '&' ∉ (writePair allowed p).toList := by
  have hname := not_mem_escape h.ampersand (by decide) (by decide) p.1
  have hvalue := not_mem_escape h.ampersand (by decide) (by decide) p.2
  rw [toList_writePair]
  simp [hname, hvalue]

theorem writeForm_eq_empty_iff (pairs : List (String × String)) :
    writeForm allowed pairs = "" ↔ pairs = [] := by
  constructor
  · intro h
    cases pairs with
    | nil => rfl
    | cons p pairs =>
      have hmem : '=' ∈ (writeForm allowed (p :: pairs)).toList := by
        rw [writeForm, String.toList_intercalate]
        cases pairs with
        | nil => simp [toList_writePair]
        | cons q pairs => simp [toList_writePair]
      rw [h] at hmem
      exact absurd hmem (by decide)
  · rintro rfl
    rfl

theorem mapM_readPair (h : Safe allowed) (pairs : List (String × String)) :
    (pairs.map fun p => (writePair allowed p).toList).mapM readPair = some pairs := by
  induction pairs with
  | nil => rfl
  | cons p pairs ih =>
    rw [List.map_cons, List.mapM_cons, readPair_writePair h, ih]
    rfl

/-- A form is read back, with its names and values in order. -/
theorem readForm_writeForm (h : Safe allowed) (pairs : List (String × String)) :
    readForm (writeForm allowed pairs) = some pairs := by
  unfold readForm
  by_cases hp : pairs = []
  · rw [if_pos ((writeForm_eq_empty_iff pairs).mpr hp), hp]
  · have htext : (writeForm allowed pairs).toList =
        ['&'].intercalate (pairs.map fun p => (writePair allowed p).toList) := by
      rw [writeForm, String.toList_intercalate, List.map_map]
      rfl
    have hsplit : (writeForm allowed pairs).toList.splitOn '&' =
        pairs.map fun p => (writePair allowed p).toList := by
      rw [htext]
      refine List.splitOn_intercalate _ ?_ ?_
      · intro cs hcs
        obtain ⟨p, -, rfl⟩ := List.mem_map.mp hcs
        exact ampersand_not_mem_writePair h p
      · simpa using hp
    rw [if_neg (fun he => hp ((writeForm_eq_empty_iff pairs).mp he)), hsplit]
    exact mapM_readPair h pairs

/-- A form is written in the characters of its place, if these have `=` and `&`. -/
theorem wellEscaped_writeForm {allowed' : Char → Bool} (hs : Safe allowed)
    (h : ∀ c, allowed c = true → allowed' c = true) (heq : allowed' '=' = true)
    (hand : allowed' '&' = true) (pairs : List (String × String)) :
    wellEscaped allowed' (writeForm allowed pairs).toList = true := by
  have hpair : ∀ (p : String × String) (rest : List Char),
      wellEscaped allowed' ((writePair allowed p).toList ++ rest) = wellEscaped allowed' rest := by
    intro p rest
    unfold writePair
    rw [String.toList_append, String.toList_append, List.append_assoc, List.append_assoc,
      wellEscaped_escape hs.percent h]
    show wellEscaped allowed' ('=' :: ((escape allowed p.2).toList ++ rest)) = _
    rw [wellEscaped_cons (by decide), heq, Bool.true_and, wellEscaped_escape hs.percent h]
  have hnil : ∀ p : String × String, wellEscaped allowed' (writePair allowed p).toList = true := by
    intro p
    have hp := hpair p []
    rw [List.append_nil] at hp
    exact hp
  rw [writeForm, String.toList_intercalate, List.map_map]
  induction pairs with
  | nil => rfl
  | cons p pairs ih =>
    cases pairs with
    | nil => exact (congrArg _ (by simp)).trans (hnil p)
    | cons q pairs =>
      rw [List.map_cons, List.map_cons, List.intercalate_cons_cons]
      show wellEscaped allowed' ((writePair allowed p).toList ++ "&".toList ++ _) = true
      rw [List.append_assoc, hpair]
      show wellEscaped allowed' ('&' :: _) = true
      rw [wellEscaped_cons (by decide), hand, Bool.true_and]
      exact ih

/-- Two forms that are written alike are the same form. -/
theorem writeForm_inj (h : Safe allowed) {pairs pairs' : List (String × String)} :
    writeForm allowed pairs = writeForm allowed pairs' ↔ pairs = pairs' := by
  constructor
  · intro he
    have hp := readForm_writeForm h pairs
    rw [he, readForm_writeForm h] at hp
    exact (Option.some.inj hp).symm
  · rintro rfl
    rfl

end Karupasu.Library.PercentEncoding
