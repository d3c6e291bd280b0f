import Mathlib.Data.List.Basic

/-!
# Canonical equivalence of texts

Two texts are canonically equivalent when their canonical decompositions are the same: each
character is decomposed in full, and the marks between two starters are put in the order of their
combining classes. The tables of the character database are a parameter, of which only the rows of
the ASCII characters are known here.
-/
namespace Karupasu.Library

/-- The columns of the Unicode character database that canonical equivalence reads. -/
structure CharacterDatabase where
  /-- The full canonical decomposition. -/
  decomposition : Char → List Char
  /-- `Canonical_Combining_Class`, which is zero for a starter. -/
  combiningClass : Char → Nat
  decomposition_ascii : ∀ c : Char, c.val < 128 → decomposition c = [c]
  combiningClass_ascii : ∀ c : Char, c.val < 128 → combiningClass c = 0

namespace CharacterDatabase

variable (u : CharacterDatabase)

/-- The place of a character among marks that are in order: behind those of a smaller class. -/
def place (c : Char) : List Char → List Char
  | [] => [c]
  | d :: rest =>
    if 0 < u.combiningClass d ∧ u.combiningClass d < u.combiningClass c then d :: place c rest
    else c :: d :: rest

/-- The canonical ordering of the marks. -/
def reorder (cs : List Char) : List Char := cs.foldr u.place []

/-- Normalization Form D. -/
def nfd (s : String) : List Char := u.reorder (s.toList.flatMap u.decomposition)

def Equivalent (s t : String) : Prop := u.nfd s = u.nfd t

instance (s t : String) : Decidable (u.Equivalent s t) := inferInstanceAs (Decidable (_ = _))

theorem place_of_starter {c : Char} (h : u.combiningClass c = 0) (cs : List Char) :
    u.place c cs = c :: cs := by
  cases cs with
  | nil => rfl
  | cons d rest => exact if_neg fun hd => by omega

theorem reorder_append {cs : List Char} (h : ∀ c ∈ cs, u.combiningClass c = 0) (ds : List Char) :
    u.reorder (cs ++ ds) = cs ++ u.reorder ds := by
  induction cs with
  | nil => rfl
  | cons c cs ih =>
    have hrest := ih fun d hd => h d (List.mem_cons_of_mem c hd)
    show u.place c (u.reorder (cs ++ ds)) = _
    rw [hrest, u.place_of_starter (h c List.mem_cons_self), List.cons_append]

theorem flatMap_decomposition {cs : List Char} (h : ∀ c ∈ cs, c.val < 128) :
    cs.flatMap u.decomposition = cs := by
  induction cs with
  | nil => rfl
  | cons c cs ih =>
    rw [List.flatMap_cons, u.decomposition_ascii c (h c List.mem_cons_self),
      ih fun d hd => h d (List.mem_cons_of_mem c hd), List.singleton_append]

/-- What begins with ASCII characters is decomposed behind them. -/
theorem nfd_append {s : String} (h : ∀ c ∈ s.toList, c.val < 128) (t : String) :
    u.nfd (s ++ t) = s.toList ++ u.nfd t := by
  rw [nfd, String.toList_append, List.flatMap_append, u.flatMap_decomposition h]
  exact u.reorder_append (fun c hc => u.combiningClass_ascii c (h c hc)) _

theorem equivalent_refl (s : String) : u.Equivalent s s := rfl

/-- Two texts that begin with ASCII characters: one beginning is the other with more behind it. -/
theorem equivalent_append_append_iff {s t : String} (hs : ∀ c ∈ s.toList, c.val < 128)
    (ht : ∀ c ∈ t.toList, c.val < 128) (v w : String) :
    u.Equivalent (s ++ v) (t ++ w) ↔
      (∃ r, t = s ++ r ∧ u.Equivalent v (r ++ w)) ∨ ∃ r, s = t ++ r ∧ u.Equivalent w (r ++ v) := by
  unfold Equivalent
  rw [u.nfd_append hs, u.nfd_append ht, List.append_eq_append_iff]
  have hrest : ∀ {a b : String} {r : String}, b = a ++ r → (∀ c ∈ b.toList, c.val < 128) →
      ∀ x, u.nfd (r ++ x) = r.toList ++ u.nfd x := by
    intro a b r hb h x
    refine u.nfd_append (fun c hc => h c ?_) x
    rw [hb, String.toList_append]
    exact List.mem_append_right _ hc
  have hlist : ∀ {a b : String} {r : List Char}, b.toList = a.toList ++ r ↔
      b = a ++ String.ofList r := by
    intro a b r
    rw [← String.toList_inj, String.toList_append, String.toList_ofList]
  constructor
  · rintro (⟨r, hr, hv⟩ | ⟨r, hr, hw⟩)
    · have ht' := hlist.mp hr
      refine .inl ⟨String.ofList r, ht', ?_⟩
      rw [hrest ht' ht, String.toList_ofList, hv]
    · have hs' := hlist.mp hr
      refine .inr ⟨String.ofList r, hs', ?_⟩
      rw [hrest hs' hs, String.toList_ofList, hw]
  · rintro (⟨r, hr, hv⟩ | ⟨r, hr, hw⟩)
    · refine .inl ⟨r.toList, by rw [hr, String.toList_append], ?_⟩
      rw [hv, hrest hr ht]
    · refine .inr ⟨r.toList, by rw [hr, String.toList_append], ?_⟩
      rw [hw, hrest hr hs]

end CharacterDatabase
end Karupasu.Library
