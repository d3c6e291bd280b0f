import Mathlib.Data.List.Induction

/-!
# Loops as folds

A loop is a fold, which may fail. Its rule speaks about the elements it has dealt with so far.
-/
namespace Karupasu.Library.Loops

universe u v w

variable {α : Type u} {β : Type v} {ε : Type w}

theorem bind_eq_ok {γ : Type v} {x : Except ε β} {f : β → Except ε γ} {c : γ} :
    (x >>= f) = .ok c ↔ ∃ b, x = .ok b ∧ f b = .ok c := by
  cases x with
  | error e => exact iff_of_false (fun h => nomatch h) fun ⟨_, h, _⟩ => nomatch h
  | ok b => exact ⟨fun h => ⟨b, rfl, h⟩, fun ⟨_, h, hf⟩ => Except.ok.inj h ▸ hf⟩

theorem getElem?_concat_of_some {l : List α} {k : Nat} {b : α} (h : l[k]? = some b) (a : α) :
    (l ++ [a])[k]? = some b := by
  have hk : k < l.length := (List.getElem?_eq_some_iff.mp h).1
  rw [List.getElem?_append_left hk, h]

/-- What holds after each number of turns. -/
theorem foldl_turns {P : Nat → β → Prop} {f : β → α → β} {b : β} (h0 : P 0 b) (l : List α)
    (hstep : ∀ k a b, l[k]? = some a → P k b → P (k + 1) (f b a)) : P l.length (l.foldl f b) := by
  induction l using List.reverseRecOn with
  | nil => exact h0
  | append_singleton l a ih =>
    rw [List.foldl_append, List.length_append]
    refine hstep l.length a _ List.getElem?_concat_length (ih fun k c b hc => ?_)
    exact hstep k c b (getElem?_concat_of_some hc a)

theorem foldlM_concat (f : β → α → Except ε β) (b : β) (l : List α) (a : α) :
    (l ++ [a]).foldlM f b = l.foldlM f b >>= fun c => f c a := by
  rw [List.foldlM_append]
  simp only [List.foldlM_cons, List.foldlM_nil, bind_pure]

/-- A loop that does not fail. -/
theorem foldlM_turns {P : Nat → β → Prop} {f : β → α → Except ε β} {b : β} (h0 : P 0 b)
    {l : List α} (hstep : ∀ k a b c, l[k]? = some a → P k b → f b a = .ok c → P (k + 1) c)
    {r : β} (h : l.foldlM f b = .ok r) : P l.length r := by
  induction l using List.reverseRecOn generalizing r with
  | nil =>
    obtain rfl := Except.ok.inj h
    exact h0
  | append_singleton l a ih =>
    rw [foldlM_concat, bind_eq_ok] at h
    obtain ⟨c, hl, ha⟩ := h
    rw [List.length_append]
    refine hstep l.length a c r List.getElem?_concat_length (ih (fun k d b e hd => ?_) hl) ha
    exact hstep k d b e (getElem?_concat_of_some hd a)

/-- A loop does not fail when no turn does from where the turns before have led. -/
theorem foldlM_ok {P : Nat → β → Prop} {f : β → α → Except ε β} {b : β} (h0 : P 0 b)
    (l : List α)
    (hstep : ∀ k a b, l[k]? = some a → P k b → ∃ c, f b a = .ok c ∧ P (k + 1) c) :
    ∃ r, l.foldlM f b = .ok r ∧ P l.length r := by
  induction l using List.reverseRecOn with
  | nil => exact ⟨b, rfl, h0⟩
  | append_singleton l a ih =>
    obtain ⟨c, hc, hp⟩ := ih fun k d b hd => hstep k d b (getElem?_concat_of_some hd a)
    obtain ⟨r, hr, hpr⟩ := hstep l.length a c List.getElem?_concat_length hp
    rw [foldlM_concat, List.length_append]
    exact ⟨r, bind_eq_ok.mpr ⟨c, hc, hr⟩, hpr⟩

/-- A loop on a part of the state. -/
theorem foldlM_map {γ : Type v} {f : β → α → Except ε β} {f' : γ → α → Except ε γ} (g : β → γ)
    (hf : ∀ b a, (f b a).map g = f' (g b) a) (l : List α) (b : β) :
    (l.foldlM f b).map g = l.foldlM f' (g b) := by
  induction l using List.reverseRecOn with
  | nil => rfl
  | append_singleton l a ih =>
    rw [foldlM_concat, foldlM_concat, ← ih]
    cases l.foldlM f b with
    | error e => rfl
    | ok c => exact hf c a

theorem eq_error_of_map {γ : Type v} {x : Except ε β} {g : β → γ} {e : ε}
    (h : x.map g = .error e) : x = .error e := by
  cases x with
  | error d => exact congrArg Except.error (Except.error.inj h)
  | ok b => exact nomatch h

theorem eq_ok_of_map {γ : Type v} {x : Except ε β} {g : β → γ} {c : γ} (h : x.map g = .ok c) :
    ∃ b, x = .ok b ∧ g b = c := by
  cases x with
  | error d => exact nomatch h
  | ok b => exact ⟨b, rfl, Except.ok.inj h⟩

/-- A loop ends well or at the first turn that fails. -/
theorem foldlM_ends {P : List α → β → Prop} {Q : List α → ε → Prop}
    {f : β → α → Except ε β} {b : β} (h0 : P [] b) (l : List α)
    (hstep : ∀ l a b, P l b →
      (∃ c, f b a = .ok c ∧ P (l ++ [a]) c) ∨ ∃ e, f b a = .error e ∧ Q (l ++ [a]) e)
    (hgo : ∀ l a e, Q l e → Q (l ++ [a]) e) :
    (∃ r, l.foldlM f b = .ok r ∧ P l r) ∨ ∃ e, l.foldlM f b = .error e ∧ Q l e := by
  induction l using List.reverseRecOn with
  | nil => exact .inl ⟨b, rfl, h0⟩
  | append_singleton l a ih =>
    rw [foldlM_concat]
    obtain ⟨c, hc, hp⟩ | ⟨e, he, hq⟩ := ih
    · rw [hc]
      exact hstep l a c hp
    · rw [he]
      exact .inr ⟨e, rfl, hgo l a e hq⟩

theorem mapM_except_ok {γ : Type v} {f : α → Except ε γ} {g : α → γ} {l : List α}
    (h : ∀ a ∈ l, f a = .ok (g a)) : l.mapM f = .ok (l.map g) := by
  induction l with
  | nil => rfl
  | cons a l ih =>
    rw [List.mapM_cons, h a List.mem_cons_self, ih fun c hc => h c (List.mem_cons_of_mem a hc)]
    rfl

/-- A loop that may come to nothing, position by position. -/
theorem mapM_option_ok {f : α → Option β} {l : List α} (h : ∀ a ∈ l, ∃ b, f a = some b) :
    ∃ r, l.mapM f = some r ∧ r.length = l.length ∧ ∀ k : Nat, r[k]? = l[k]?.bind f := by
  induction l with
  | nil => exact ⟨[], rfl, rfl, fun k => rfl⟩
  | cons a l ih =>
    obtain ⟨b, hb⟩ := h a List.mem_cons_self
    obtain ⟨r, hr, hlen, hget⟩ := ih fun c hc => h c (List.mem_cons_of_mem a hc)
    refine ⟨b :: r, by rw [List.mapM_cons, hb, hr]; rfl, by rw [List.length_cons, hlen]; rfl, ?_⟩
    intro k
    cases k with
    | zero => exact hb.symm
    | succ k => exact hget k

/-! ## The usual ranges -/

theorem getElem?_range_eq_some {n k a : Nat} : (List.range n)[k]? = some a ↔ k < n ∧ a = k := by
  rw [List.getElem?_eq_some_iff]
  simp only [List.length_range, List.getElem_range]
  exact ⟨fun ⟨hk, he⟩ => ⟨hk, he.symm⟩, fun ⟨hk, he⟩ => ⟨hk, he.symm⟩⟩

theorem getElem?_zipIdx_eq_some {l : List α} {k : Nat} {p : α × Nat} :
    l.zipIdx[k]? = some p ↔ l[k]? = some p.1 ∧ p.2 = k := by
  rw [List.getElem?_zipIdx, Nat.zero_add, Option.map_eq_some_iff]
  constructor
  · rintro ⟨a, ha, rfl⟩
    exact ⟨ha, rfl⟩
  · intro ⟨ha, hk⟩
    exact ⟨p.1, ha, Prod.ext rfl hk.symm⟩

end Karupasu.Library.Loops
