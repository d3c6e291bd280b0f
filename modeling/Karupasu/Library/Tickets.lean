import Karupasu.Library.Machine
import Mathlib.Data.List.Nodup
import Mathlib.Data.List.Perm.Basic

/-!
# Tickets

A machine that owes an outcome for some of its inputs issues a ticket for each of them.
A ticket is open while something is in flight for it and settled when its outcome is
reported. `Custody` is the balance of one step: what was open or is issued stays open,
is settled or is lost. A run resolves every ticket exactly when no step loses one.
-/
namespace Karupasu.Library

universe u v w x

section Lists

variable {α : Type u} {τ : Type v} [DecidableEq τ]

/-- Taking an entry out of a list of requests closes the ticket it carries. -/
theorem count_filterMap_eraseIdx (f : α → Option τ) {l : List α} {k : Nat} {a : α}
    (h : l[k]? = some a) (t : τ) :
    ((l.eraseIdx k).filterMap f).count t + (f a).toList.count t = (l.filterMap f).count t := by
  obtain ⟨hk, ha⟩ := List.getElem?_eq_some_iff.mp h
  have hp := (List.getElem_cons_eraseIdx_perm hk).filterMap f
  rw [ha] at hp
  rw [← hp.count_eq t]
  cases hf : f a with
  | none => simp [hf]
  | some b => simp [hf, List.count_cons]

theorem count_map_eraseIdx (f : α → τ) {l : List α} {k : Nat} {a : α} (h : l[k]? = some a)
    (t : τ) : ((l.eraseIdx k).map f).count t + [f a].count t = (l.map f).count t := by
  have hc := count_filterMap_eraseIdx (fun b => some (f b)) h t
  rw [List.filterMap_eq_map', Option.toList_some] at hc
  exact hc

theorem eq_nil_iff_count {l : List τ} : l = [] ↔ ∀ t, l.count t = 0 := by
  rw [List.eq_nil_iff_forall_not_mem]
  exact forall_congr' fun t => List.count_eq_zero.symm

/-- Each ticket issued is either open or settled, once. -/
def ResolvedOnce (issued opened settled : List τ) : Prop :=
  ∀ t ∈ issued, opened.count t + settled.count t = 1

instance (issued opened settled : List τ) : Decidable (ResolvedOnce issued opened settled) :=
  inferInstanceAs (Decidable (∀ t ∈ issued, _))

/-- No ticket is issued twice, and none is open or settled more often than issued. -/
structure Ledger (issued opened settled : List τ) : Prop where
  unique : issued.Nodup
  covered : ∀ t, opened.count t + settled.count t ≤ issued.count t

theorem ledger_nil : Ledger ([] : List τ) [] [] := ⟨List.nodup_nil, fun t => by simp⟩

variable {issued opened opened' settled new done lost : List τ}

theorem Ledger.resolvedOnce_iff (h : Ledger issued opened settled) :
    ResolvedOnce issued opened settled ↔
      ∀ t, opened.count t + settled.count t = issued.count t := by
  constructor
  · intro hr t
    by_cases ht : t ∈ issued
    · rw [hr t ht, List.count_eq_one_of_mem h.unique ht]
    · have hc := h.covered t
      rw [List.count_eq_zero.mpr ht] at hc ⊢
      omega
  · intro hb t ht
    rw [hb t, List.count_eq_one_of_mem h.unique ht]

/-- The balance of a step: what was open or is new stays open, is done or is lost. -/
def Balance (opened new opened' done lost : List τ) : Prop :=
  ∀ t, opened'.count t + done.count t + lost.count t = opened.count t + new.count t

theorem Ledger.step (h : Ledger issued opened settled) (hn : (issued ++ new).Nodup)
    (hb : Balance opened new opened' done lost) :
    Ledger (issued ++ new) opened' (settled ++ done) := by
  refine ⟨hn, fun t => ?_⟩
  have hc := h.covered t
  have hbt := hb t
  rw [List.count_append, List.count_append]
  omega

/-- A step keeps every ticket resolved once exactly if it loses none. -/
theorem Ledger.resolvedOnce_step (h : Ledger issued opened settled)
    (hr : ResolvedOnce issued opened settled) (hn : (issued ++ new).Nodup)
    (hb : Balance opened new opened' done lost) :
    ResolvedOnce (issued ++ new) opened' (settled ++ done) ↔ lost = [] := by
  have ho := h.resolvedOnce_iff.mp hr
  rw [(h.step hn hb).resolvedOnce_iff, eq_nil_iff_count]
  apply forall_congr'
  intro t
  have hot := ho t
  have hbt := hb t
  rw [List.count_append, List.count_append]
  omega

end Lists

variable {σ : Type u} {ι : Type v} {ο : Type w} {τ : Type x} [DecidableEq τ]

/-- How a machine passes its tickets on: `Inv` is an invariant of the machine under which
each step keeps the balance. Tickets are numbered in the order of their issue. -/
structure Custody (m : Machine σ ι ο) (τ : Type x) [DecidableEq τ] where
  Inv : σ → Prop
  opened : σ → List τ
  issue : σ → ι → Option τ
  settle : σ → ι → List τ
  lose : σ → ι → List τ
  number : τ → Nat
  count : σ → Nat
  inv_next : ∀ s i, Inv s → Inv (m.next s i)
  number_issue : ∀ s i t, issue s i = some t → number t = count s
  count_next : ∀ s i, count (m.next s i) = count s + (issue s i).toList.length
  balance : ∀ s i, Inv s →
    Balance (opened s) (issue s i).toList (opened (m.next s i)) (settle s i) (lose s i)

namespace Custody

variable {m : Machine σ ι ο} (c : Custody m τ)

/-- The tickets issued and the tickets settled so far. -/
def record (s : σ) (i : ι) (h : List τ × List τ) : List τ × List τ :=
  (h.1 ++ (c.issue s i).toList, h.2 ++ c.settle s i)

/-- Every ticket issued so far is open or settled, once. -/
def Resolved (p : σ × (List τ × List τ)) : Prop := ResolvedOnce p.2.1 (c.opened p.1) p.2.2

structure Kept (p : σ × (List τ × List τ)) : Prop where
  inv : c.Inv p.1
  numbered : ∀ t ∈ p.2.1, c.number t < c.count p.1
  ledger : Ledger p.2.1 (c.opened p.1) p.2.2

variable {c}

theorem Kept.nodup_issue {p : σ × (List τ × List τ)} (h : c.Kept p) (i : ι) :
    (p.2.1 ++ (c.issue p.1 i).toList).Nodup := by
  cases hi : c.issue p.1 i with
  | none => simpa using h.ledger.unique
  | some t =>
    have hn := c.number_issue p.1 i t hi
    have ht : t ∉ p.2.1 := fun hm => by
      have hlt := h.numbered t hm
      omega
    exact List.nodup_append.mpr ⟨h.ledger.unique, List.nodup_singleton t, fun a ha b hb hab => by
      rw [Option.toList_some, List.mem_singleton] at hb
      exact ht (hb ▸ hab ▸ ha)⟩

theorem Kept.next {p : σ × (List τ × List τ)} (h : c.Kept p) (i : ι) :
    c.Kept ((m.withHistory c.record).next p i) := by
  refine ⟨c.inv_next p.1 i h.inv, fun t ht => ?_, h.ledger.step (h.nodup_issue i)
    (c.balance p.1 i h.inv)⟩
  have hc := c.count_next p.1 i
  show c.number t < c.count (m.next p.1 i)
  rcases List.mem_append.mp ht with ht | ht
  · have hlt := h.numbered t ht
    omega
  · have hi : c.issue p.1 i = some t := Option.mem_toList.mp ht
    have hn := c.number_issue p.1 i t hi
    rw [hi, Option.toList_some, List.length_singleton] at hc
    omega

theorem kept_start {s : σ} (hi : c.Inv s) (ho : c.opened s = []) : c.Kept (s, ([], [])) := by
  refine ⟨hi, fun t ht => absurd ht List.not_mem_nil, ?_⟩
  show Ledger [] (c.opened s) []
  rw [ho]
  exact ledger_nil

/-- A run resolves every ticket exactly when no step of it loses one. -/
theorem resolved_iff {s : σ} (hi : c.Inv s) (ho : c.opened s = []) (is : List ι) :
    (m.withHistory c.record).Always c.Resolved (s, ([], [])) is ↔
      m.Along (fun s i => c.lose s i = []) s is := by
  have h0 : c.Kept (s, ([], [])) := kept_start hi ho
  have hr : c.Resolved (s, ([], [])) := fun t ht => absurd ht List.not_mem_nil
  rw [← m.along_withHistory (fun s i => c.lose s i = []) c.record s ([], []) is]
  refine (m.withHistory c.record).always_iff_along_of_inv (fun p i hk => hk.next i)
    (fun p i hk hp => ?_) h0 hr is
  exact hk.ledger.resolvedOnce_step hp (hk.nodup_issue i) (c.balance p.1 i hk.inv)

end Custody
end Karupasu.Library
