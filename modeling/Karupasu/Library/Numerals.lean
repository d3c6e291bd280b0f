import Mathlib

/-!
# Decimal numerals inside texts

A numeral is followed by a character no numeral contains, or preceded by one: then
the text determines the number and what stands on the other side. Without such a
character two texts may share a numeral's digits between them.
-/
namespace Karupasu.Library.Numerals

/-- No numeral contains the character. -/
def Separates (c : Char) : Prop := c.isDigit = false ∧ c ≠ '-'

instance (c : Char) : Decidable (Separates c) := inferInstanceAs (Decidable (_ ∧ _))

theorem toList_toString (n : Int) :
    (toString n).toList = Nat.toDigits 10 n.natAbs ∨
      (toString n).toList = '-' :: Nat.toDigits 10 n.natAbs := by
  cases n with
  | ofNat m => exact .inl Nat.toList_repr
  | negSucc m =>
    refine .inr ?_
    show ("-" ++ (m + 1).repr).toList = _
    rw [String.toList_append, Nat.toList_repr]
    rfl

theorem not_mem_numeral {c : Char} (hc : Separates c) (n : Int) : c ∉ (toString n).toList := by
  intro hmem
  have hdigits : c ∉ Nat.toDigits 10 n.natAbs := by
    intro h
    have hd := Nat.isDigit_of_mem_toDigits (by omega) (by omega) h
    rw [hc.1] at hd
    cases hd
  rcases toList_toString n with he | he
  · rw [he] at hmem
    exact hdigits hmem
  · rw [he] at hmem
    rcases List.mem_cons.mp hmem with h | h
    · exact hc.2 h
    · exact hdigits h

theorem ascii_numeral (n : Int) : ∀ c ∈ (toString n).toList, c.val < 128 := by
  have hdigits : ∀ c ∈ Nat.toDigits 10 n.natAbs, c.val < 128 := by
    intro c hc
    have hd := Nat.isDigit_of_mem_toDigits (by omega) (by omega) hc
    simp only [Char.isDigit, Bool.and_eq_true, decide_eq_true_eq] at hd
    exact UInt32.lt_of_le_of_lt hd.2 (by decide)
  intro c hc
  rcases toList_toString n with he | he
  · rw [he] at hc
    exact hdigits c hc
  · rw [he] at hc
    rcases List.mem_cons.mp hc with rfl | hc
    · decide
    · exact hdigits c hc

theorem numeral_ne_nil (n : Int) : (toString n).toList ≠ [] := by
  rcases toList_toString n with he | he
  · rw [he]
    exact Nat.toDigits_ne_nil
  · rw [he]
    exact List.cons_ne_nil _ _

theorem toString_inj {m n : Int} : toString m = toString n ↔ m = n := Int.repr_inj

/-- Lists agree up to the first occurrence of a character, and after it. -/
theorem append_cons_inj {c : Char} {x y r s : List Char} (hx : c ∉ x) (hy : c ∉ y) :
    x ++ c :: r = y ++ c :: s ↔ x = y ∧ r = s := by
  induction x generalizing y with
  | nil =>
    cases y with
    | nil => simp
    | cons d y =>
      have hcd : c ≠ d := fun h => hy (h ▸ List.mem_cons_self)
      simp [hcd]
  | cons b x ih =>
    cases y with
    | nil =>
      have hbc : b ≠ c := fun h => hx (h ▸ List.mem_cons_self)
      simp [hbc]
    | cons d y =>
      have h := ih (fun h => hx (List.mem_cons_of_mem b h)) (fun h => hy (List.mem_cons_of_mem d h))
      simp only [List.cons_append, List.cons.injEq, h, and_assoc]

/-- Nothing, or a text that begins with a separator. -/
def Ends (s : String) : Prop := ∀ c ∈ s.toList.head?, Separates c

theorem ends_of_toList {s : String} {c : Char} {rest : List Char} (hs : s.toList = c :: rest)
    (hc : Separates c) : Ends s := by
  intro d hd
  rw [hs, List.head?_cons, Option.mem_some] at hd
  rw [← hd]
  exact hc

theorem takeWhile_numeral (n : Int) {s : String} (hs : Ends s) :
    (toString n ++ s).toList.takeWhile (fun c => !decide (Separates c)) = (toString n).toList := by
  have hnumeral : ∀ c ∈ (toString n).toList, (!decide (Separates c)) = true := by
    intro c hmem
    have hc : ¬Separates c := fun hc => not_mem_numeral hc n hmem
    simp [hc]
  have hrest : s.toList.takeWhile (fun c => !decide (Separates c)) = [] := by
    cases hl : s.toList with
    | nil => rfl
    | cons c rest =>
      have hc : Separates c := hs c (by simp [hl])
      simp [hc]
  rw [String.toList_append, List.takeWhile_append_of_pos hnumeral, hrest, List.append_nil]

/-- Whatever ends a numeral leaves it readable. -/
theorem numeral_append_ends_inj {s t : String} (hs : Ends s) (ht : Ends t) {m n : Int} :
    toString m ++ s = toString n ++ t ↔ m = n ∧ s = t := by
  constructor
  · intro h
    have hm := takeWhile_numeral m hs
    rw [h, takeWhile_numeral n ht] at hm
    have hmn : toString m = toString n := String.toList_inj.mp hm.symm
    rw [hmn, String.append_right_inj] at h
    exact ⟨toString_inj.mp hmn, h⟩
  · rintro ⟨rfl, rfl⟩
    rfl

/-- A separator after a numeral ends it. -/
theorem numeral_append_inj {sep : String} {c : Char} {rest : List Char}
    (hsep : sep.toList = c :: rest) (hc : Separates c) {m n : Int} {r s : String} :
    toString m ++ (sep ++ r) = toString n ++ (sep ++ s) ↔ m = n ∧ r = s := by
  have hends : ∀ t : String, Ends (sep ++ t) := by
    intro t
    have htext : (sep ++ t).toList = c :: (rest ++ t.toList) := by
      rw [String.toList_append, hsep, List.cons_append]
    exact ends_of_toList htext hc
  rw [numeral_append_ends_inj (hends r) (hends s), String.append_right_inj]

/-- A text that begins with a separator does not begin with a numeral. -/
theorem numeral_append_ne {t : String} {c : Char} {rest : List Char} (ht : t.toList = c :: rest)
    (hc : Separates c) (n : Int) (s : String) : toString n ++ s ≠ t := by
  intro h
  have hl := congrArg String.toList h
  rw [String.toList_append, ht] at hl
  cases hn : (toString n).toList with
  | nil => exact numeral_ne_nil n hn
  | cons d ds =>
    rw [hn] at hl
    have hd : d = c := (List.cons.inj hl).1
    exact not_mem_numeral hc n (by rw [hn, hd]; exact List.mem_cons_self)

/-- A separator before a last numeral begins it. -/
theorem append_numeral_inj {sep : String} {c : Char} (hsep : sep.toList = [c])
    (hc : Separates c) {m n : Int} {r s : String} :
    r ++ (sep ++ toString m) = s ++ (sep ++ toString n) ↔ r = s ∧ m = n := by
  have hm : c ∉ (toString m).toList.reverse := fun h =>
    not_mem_numeral hc m (List.mem_reverse.mp h)
  have hn : c ∉ (toString n).toList.reverse := fun h =>
    not_mem_numeral hc n (List.mem_reverse.mp h)
  rw [← String.toList_inj, ← List.reverse_inj]
  simp only [String.toList_append, hsep, List.singleton_append, List.reverse_append,
    List.reverse_cons, List.append_assoc]
  rw [append_cons_inj hm hn, List.reverse_inj, List.reverse_inj, String.toList_inj,
    String.toList_inj, toString_inj, and_comm]

end Karupasu.Library.Numerals
