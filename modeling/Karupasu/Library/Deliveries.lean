import Karupasu.Library.Machine
import Mathlib.Data.List.Perm.Basic

/-!
# Deliveries

A batch of deliveries is made one by one. Between two of them other batches may start, and such a
batch is served before the rest of the earlier one. A machine that serves batches is compared with
one that makes every delivery at once: what it has delivered, followed by what still waits, is the
same up to an equivalence that appending respects.
-/
namespace Karupasu.Library

universe u v w x y

variable {α : Type u} {σ : Type v} {τ : Type w} {ι : Type x} {ρ : Type y}

/-- What waits and what is delivered when a batch starts: its first delivery is made at once. -/
def serve (batch waiting : List α) : List α × List α :=
  match batch with
  | [] => (waiting, [])
  | first :: rest => (rest ++ waiting, [first])

/-- The next delivery is made. -/
def proceed (waiting : List α) : List α × List α := serve waiting []

theorem serve_append (batch waiting : List α) :
    (serve batch waiting).2 ++ (serve batch waiting).1 = batch ++ waiting := by
  cases batch <;> rfl

theorem proceed_append (waiting : List α) :
    (proceed waiting).2 ++ (proceed waiting).1 = waiting := by
  rw [proceed, serve_append, List.append_nil]

/-! ## Comparing deliveries -/

structure AppendCongruence (E : List α → List α → Prop) : Prop where
  refl : ∀ l, E l l
  trans : ∀ {a b c}, E a b → E b c → E a c
  append : ∀ {a b c d}, E a b → E c d → E (a ++ c) (b ++ d)

theorem appendCongruence_perm : AppendCongruence (@List.Perm α) :=
  ⟨List.Perm.refl, List.Perm.trans, List.Perm.append⟩

variable [DecidableEq ρ]

/-- Each recipient gets the same, in the same order. -/
def SameFor (recipient : α → ρ) (l l' : List α) : Prop :=
  ∀ r, l.filter (fun x => recipient x = r) = l'.filter (fun x => recipient x = r)

theorem appendCongruence_sameFor (recipient : α → ρ) : AppendCongruence (SameFor recipient) where
  refl _ _ := rfl
  trans h h' r := (h r).trans (h' r)
  append h h' r := by rw [List.filter_append, List.filter_append, h r, h' r]

/-- A batch may be served in any order when nobody gets two different things from it. -/
theorem sameFor_of_perm {recipient : α → ρ} {l l' : List α} (hp : l.Perm l')
    (hone : ∀ x ∈ l, ∀ y ∈ l, recipient x = recipient y → x = y) : SameFor recipient l l' := by
  intro r
  have hf := hp.filter (fun x => recipient x = r)
  cases hl : l.filter (fun x => recipient x = r) with
  | nil =>
    rw [hl] at hf
    exact (List.nil_perm.mp hf).symm
  | cons x rest =>
    have hx : x ∈ l.filter (fun x => recipient x = r) := hl ▸ List.mem_cons_self
    obtain ⟨hxl, hxr⟩ := List.mem_filter.mp hx
    have hall : ∀ y ∈ l.filter (fun x => recipient x = r), y = x := by
      intro y hy
      obtain ⟨hyl, hyr⟩ := List.mem_filter.mp hy
      exact hone y hyl x hxl ((of_decide_eq_true hyr).trans (of_decide_eq_true hxr).symm)
    have heq := List.eq_replicate_of_mem hall
    have heq' := List.eq_replicate_of_mem (fun y hy => hall y (hf.symm.subset hy))
    rw [← hl, heq, heq', hf.length_eq]

/-- Deliveries to different recipients may overtake each other. -/
theorem sameFor_append_comm {recipient : α → ρ} {l l' : List α}
    (h : ∀ x ∈ l, ∀ y ∈ l', recipient x ≠ recipient y) :
    SameFor recipient (l ++ l') (l' ++ l) := by
  intro r
  rw [List.filter_append, List.filter_append]
  by_cases hl : l.filter (fun x => recipient x = r) = []
  · rw [hl, List.nil_append, List.append_nil]
  · obtain ⟨x, hx⟩ := List.exists_mem_of_ne_nil _ hl
    obtain ⟨hxl, hxr⟩ := List.mem_filter.mp hx
    have hnil : l'.filter (fun x => recipient x = r) = [] := by
      rw [List.filter_eq_nil_iff]
      intro y hy hyr
      exact h x hxl y hy ((of_decide_eq_true hxr).trans (of_decide_eq_true hyr).symm)
    rw [hnil, List.nil_append, List.append_nil]

omit [DecidableEq ρ]

/-! ## Runs -/

section Runs

variable {E : List α → List α → Prop} (m : Machine σ ι α) (spec : Machine τ ι α)
  (waiting : σ → List α)

/-- One step serves, now or later, what the other machine delivers at once. -/
def Delivers (E : List α → List α → Prop) (R : σ → τ → Prop) (C : σ → ι → Prop)
    (D : τ → ι → Prop) : Prop :=
  ∀ s t i, R s t → C s i → D t i → R (m.next s i) (spec.next t i) ∧
    E (m.emit s i ++ waiting (m.next s i)) (waiting s ++ spec.emit t i)

variable {m spec waiting} {R : σ → τ → Prop} {C : σ → ι → Prop} {D : τ → ι → Prop}

/-- The delivery rule for runs: what was delivered and what waits make up what was due. -/
theorem Delivers.run (h : Delivers m spec waiting E R C D) (hE : AppendCongruence E) {s : σ}
    {t : τ} {is : List ι} (hr : R s t) (hc : m.Along C s is) (hd : spec.Along D t is) :
    R (m.run s is) (spec.run t is) ∧
      E (m.outputs s is ++ waiting (m.run s is)) (waiting s ++ spec.outputs t is) := by
  induction is generalizing s t with
  | nil =>
    refine ⟨hr, ?_⟩
    rw [Machine.outputs_nil, Machine.outputs_nil, List.append_nil]
    exact hE.refl _
  | cons i is ih =>
    obtain ⟨hnext, hemit⟩ := h s t i hr hc.1 hd.1
    obtain ⟨hrun, hrest⟩ := ih hnext hc.2 hd.2
    refine ⟨hrun, ?_⟩
    have hlater := hE.append (hE.refl (m.emit s i)) hrest
    have hnow := hE.append hemit (hE.refl (spec.outputs (spec.next t i) is))
    simp only [← List.append_assoc] at hlater hnow
    rw [Machine.outputs_cons, Machine.outputs_cons, ← List.append_assoc]
    exact hE.trans hlater hnow

end Runs
end Karupasu.Library
