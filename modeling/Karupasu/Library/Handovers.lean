import Mathlib.Data.List.Nodup
import Mathlib.Data.List.Perm.Basic

/-!
# Handovers

A place has members, one of which is current. A handover from the current member to a new one
takes time: the new member joins when it starts, and when it finishes the new member becomes
current and the old one leaves. Meanwhile other handovers may start, from the same member too, or
the current member may be replaced at once. The order in which handovers finish is arbitrary.
-/
namespace Karupasu.Library

universe u

structure Handovers (α : Type u) where
  current : Option α
  members : List α
  /-- The handovers that have started and not finished, as pairs of an old and a new member. -/
  pending : List (α × α)

namespace Handovers

variable {α : Type u}

/-- Nothing happens when there is no current member. -/
def start (h : Handovers α) (new : α) : Handovers α :=
  match h.current with
  | none => h
  | some old => { h with members := h.members ++ [new], pending := h.pending ++ [(old, new)] }

theorem start_eq {h : Handovers α} {old new : α} (hc : h.current = some old) :
    h.start new =
      { h with members := h.members ++ [new], pending := h.pending ++ [(old, new)] } := by
  rw [start, hc]

variable [DecidableEq α]

def finish (h : Handovers α) (index : Nat) : Handovers α :=
  match h.pending[index]? with
  | none => h
  | some (old, new) =>
    { current := some new, members := h.members.erase old, pending := h.pending.eraseIdx index }

def replace (h : Handovers α) (new : α) : Handovers α :=
  match h.current with
  | none => { h with current := some new, members := h.members ++ [new] }
  | some old => { h with current := some new, members := (h.members ++ [new]).erase old }

/-- The members a handover is about to take away. -/
def leaving (h : Handovers α) : List α := h.pending.map Prod.fst

/-- The members no handover is about to take away. -/
def staying (h : Handovers α) : Nat := h.members.countP fun x => x ∉ h.leaving

/-- A handover from the current member has started already. -/
def contested (h : Handovers α) : Bool :=
  match h.current with
  | none => false
  | some c => c ∈ h.leaving

/-- A member, or one that a handover still takes for one. -/
def Known (h : Handovers α) (x : α) : Prop := x ∈ h.members ∨ x ∈ h.leaving

def Fresh (h : Handovers α) (x : α) : Prop := ¬h.Known x

/-- The current member is there, and what a handover leads to is there and has not been current
yet. -/
structure Orderly (h : Handovers α) : Prop where
  current_mem : ∃ c, h.current = some c ∧ c ∈ h.members
  members_nodup : h.members.Nodup
  new_mem : ∀ p ∈ h.pending, p.2 ∈ h.members
  new_not_left : ∀ p ∈ h.pending, p.2 ∉ h.leaving
  new_not_current : ∀ p ∈ h.pending, h.current ≠ some p.2
  new_nodup : (h.pending.map Prod.snd).Nodup

variable {h : Handovers α} {new : α}

/-! ## Starting -/

omit [DecidableEq α] in
theorem Orderly.start (ho : h.Orderly) (hf : h.Fresh new) : (h.start new).Orderly := by
  obtain ⟨old, hc, hmem⟩ := ho.current_mem
  obtain ⟨hmembers, hleaving⟩ := not_or.mp hf
  have hne : new ≠ old := fun he => hmembers (he ▸ hmem)
  have hold : ∀ p ∈ h.pending, p.2 ≠ old := fun p hp he => ho.new_not_current p hp (he ▸ hc)
  have hleave : (h.start new).leaving = h.leaving ++ [old] := by
    rw [start_eq hc, leaving, List.map_append]
    rfl
  rw [start_eq hc] at hleave ⊢
  have hpending : ∀ p ∈ h.pending ++ [(old, new)], p ∈ h.pending ∨ p = (old, new) := by
    intro p hp
    rwa [List.mem_append, List.mem_singleton] at hp
  refine ⟨⟨old, hc, List.mem_append_left _ hmem⟩, ?_, ?_, ?_, ?_, ?_⟩
  · rw [List.nodup_append]
    refine ⟨ho.members_nodup, List.nodup_singleton _, fun x hx y hy he => ?_⟩
    rw [List.mem_singleton] at hy
    exact hmembers (hy ▸ he ▸ hx)
  · intro p hp
    obtain hp | rfl := hpending p hp
    · exact List.mem_append_left _ (ho.new_mem p hp)
    · exact List.mem_append_right _ (List.mem_singleton_self new)
  · intro p hp
    rw [hleave, List.mem_append, List.mem_singleton, not_or]
    obtain hp | rfl := hpending p hp
    · exact ⟨ho.new_not_left p hp, hold p hp⟩
    · exact ⟨hleaving, hne⟩
  · intro p hp he
    obtain hp | rfl := hpending p hp
    · exact ho.new_not_current p hp he
    · exact hne (Option.some.inj (hc.symm.trans he)).symm
  · rw [List.map_append, List.nodup_append]
    refine ⟨ho.new_nodup, List.nodup_singleton _, fun x hx y hy he => ?_⟩
    obtain ⟨p, hp, rfl⟩ := List.mem_map.mp hx
    rw [List.map_singleton, List.mem_singleton] at hy
    have hnew : p.2 = new := he.trans hy
    exact hmembers (hnew ▸ ho.new_mem p hp)

omit [DecidableEq α] in
theorem known_start (ho : h.Orderly) {x : α} (hx : (h.start new).Known x) :
    x = new ∨ h.Known x := by
  obtain ⟨old, hc, hmem⟩ := ho.current_mem
  rw [start_eq hc] at hx
  obtain hx | hx := hx
  · rw [List.mem_append, List.mem_singleton] at hx
    obtain hx | hx := hx
    · exact .inr (.inl hx)
    · exact .inl hx
  · rw [leaving, List.map_append, List.mem_append, List.map_singleton, List.mem_singleton] at hx
    obtain hx | rfl := hx
    · exact .inr (.inr hx)
    · exact .inr (.inl hmem)

/-- A member is counted once. -/
theorem countP_members {c : α} (hmem : c ∈ h.members) (p : α → Bool) :
    h.members.countP p = (if p c then 1 else 0) + (h.members.erase c).countP p := by
  rw [(List.perm_cons_erase hmem).countP_eq p, List.countP_cons, Nat.add_comm]

/-- A handover that starts while another leaves the same member makes one more member stay. -/
theorem staying_start (ho : h.Orderly) (hf : h.Fresh new) :
    (h.start new).staying = h.staying + if h.contested then 1 else 0 := by
  obtain ⟨old, hc, hmem⟩ := ho.current_mem
  obtain ⟨hmembers, hleaving⟩ := not_or.mp hf
  have hne : new ≠ old := fun he => hmembers (he ▸ hmem)
  have hleave : (h.start new).leaving = h.leaving ++ [old] := by
    rw [start_eq hc, leaving, List.map_append]
    rfl
  have hcontested : h.contested = decide (old ∈ h.leaving) := by rw [contested, hc]
  have hothers : (h.members.erase old).countP (fun x => decide (x ∉ h.leaving ++ [old])) =
      (h.members.erase old).countP fun x => decide (x ∉ h.leaving) := by
    refine List.countP_congr fun x hx => ?_
    have hxold : x ≠ old := (ho.members_nodup.mem_erase_iff.mp hx).1
    simp [hxold]
  unfold staying
  rw [hleave, start_eq hc, List.countP_append, countP_members hmem, countP_members hmem,
    hothers, hcontested]
  by_cases hold : old ∈ h.leaving
  · simp [hold, hleaving, hne]
  · simp [hold, hleaving, hne]
    omega

/-! ## Finishing -/

theorem finish_eq {index : Nat} {old new : α} (hi : h.pending[index]? = some (old, new)) :
    h.finish index =
      { current := some new, members := h.members.erase old,
        pending := h.pending.eraseIdx index } := by
  rw [finish, hi]

omit [DecidableEq α] in
theorem perm_eraseIdx {index : Nat} {p : α × α} (hi : h.pending[index]? = some p) :
    (p :: h.pending.eraseIdx index).Perm h.pending := by
  obtain ⟨hlt, rfl⟩ := List.getElem?_eq_some_iff.mp hi
  exact List.getElem_cons_eraseIdx_perm hlt

theorem Orderly.finish (ho : h.Orderly) (index : Nat) : (h.finish index).Orderly := by
  cases hi : h.pending[index]? with
  | none =>
    rw [Handovers.finish, hi]
    exact ho
  | some p =>
    obtain ⟨old, new⟩ := p
    have hperm := perm_eraseIdx hi
    have hin : (old, new) ∈ h.pending := List.mem_of_getElem? hi
    have hsub : ∀ p ∈ h.pending.eraseIdx index, p ∈ h.pending := fun p hp =>
      hperm.mem_iff.mp (List.mem_cons_of_mem _ hp)
    have hnot : ∀ p ∈ h.pending, p.2 ≠ old := by
      intro p hp he
      exact ho.new_not_left p hp (he ▸ List.mem_map_of_mem (f := Prod.fst) hin)
    have hnodup : (new :: (h.pending.eraseIdx index).map Prod.snd).Nodup :=
      (hperm.map Prod.snd).nodup_iff.mpr ho.new_nodup
    rw [finish_eq hi]
    refine ⟨⟨new, rfl, ?_⟩, ho.members_nodup.erase old, ?_, ?_, ?_, (List.nodup_cons.mp hnodup).2⟩
    · exact ho.members_nodup.mem_erase_iff.mpr ⟨hnot _ hin, ho.new_mem _ hin⟩
    · intro p hp
      exact ho.members_nodup.mem_erase_iff.mpr ⟨hnot p (hsub p hp), ho.new_mem p (hsub p hp)⟩
    · intro p hp hleft
      obtain ⟨q, hq, he⟩ := List.mem_map.mp hleft
      exact ho.new_not_left p (hsub p hp) (he ▸ List.mem_map_of_mem (f := Prod.fst) (hsub q hq))
    · intro p hp he
      exact (List.nodup_cons.mp hnodup).1
        (Option.some.inj he ▸ List.mem_map_of_mem (f := Prod.snd) hp)

theorem known_finish {index : Nat} {x : α} (hx : (h.finish index).Known x) : h.Known x := by
  cases hi : h.pending[index]? with
  | none =>
    rw [Handovers.finish, hi] at hx
    exact hx
  | some p =>
    rw [finish_eq hi] at hx
    obtain hx | hx := hx
    · exact .inl (List.mem_of_mem_erase hx)
    · refine .inr (((perm_eraseIdx hi).map Prod.fst).mem_iff.mp ?_)
      exact List.mem_cons_of_mem _ hx

/-- Finishing takes away no member that was to stay. -/
theorem staying_finish (ho : h.Orderly) (index : Nat) : (h.finish index).staying = h.staying := by
  cases hi : h.pending[index]? with
  | none => rw [Handovers.finish, hi]
  | some p =>
    obtain ⟨old, new⟩ := p
    have hperm := (perm_eraseIdx hi).map Prod.fst
    have hin : old ∈ h.leaving := List.mem_map_of_mem (f := Prod.fst) (List.mem_of_getElem? hi)
    have hothers : (h.members.erase old).countP
        (fun x => decide (x ∉ (h.pending.eraseIdx index).map Prod.fst)) =
        (h.members.erase old).countP fun x => decide (x ∉ h.leaving) := by
      refine List.countP_congr fun x hx => ?_
      have hxold : x ≠ old := (ho.members_nodup.mem_erase_iff.mp hx).1
      have hmem : x ∈ h.leaving ↔ x = old ∨ x ∈ (h.pending.eraseIdx index).map Prod.fst := by
        rw [leaving, ← hperm.mem_iff, List.map_cons, List.mem_cons]
      simp [hmem, hxold]
    rw [finish_eq hi]
    show (h.members.erase old).countP (fun x =>
      decide (x ∉ (h.pending.eraseIdx index).map Prod.fst)) = h.staying
    rw [hothers, staying]
    by_cases hmem : old ∈ h.members
    · rw [countP_members hmem]
      simp [hin]
    · rw [List.erase_of_not_mem hmem]

/-! ## Replacing -/

theorem replace_eq {old : α} (hc : h.current = some old) :
    h.replace new =
      { h with current := some new, members := (h.members ++ [new]).erase old } := by
  rw [replace, hc]

theorem Orderly.replace (ho : h.Orderly) (hf : h.Fresh new) : (h.replace new).Orderly := by
  obtain ⟨old, hc, hmem⟩ := ho.current_mem
  obtain ⟨hmembers, hleaving⟩ := not_or.mp hf
  have hne : new ≠ old := fun he => hmembers (he ▸ hmem)
  have hold : ∀ p ∈ h.pending, p.2 ≠ old := fun p hp he => ho.new_not_current p hp (he ▸ hc)
  have hnodup : (h.members ++ [new]).Nodup := by
    rw [List.nodup_append]
    refine ⟨ho.members_nodup, List.nodup_singleton _, fun x hx y hy he => ?_⟩
    rw [List.mem_singleton] at hy
    exact hmembers (hy ▸ he ▸ hx)
  rw [replace_eq hc]
  refine ⟨⟨new, rfl, ?_⟩, hnodup.erase old, ?_, ho.new_not_left, ?_, ho.new_nodup⟩
  · exact hnodup.mem_erase_iff.mpr ⟨hne, List.mem_append_right _ (List.mem_singleton_self new)⟩
  · intro p hp
    exact hnodup.mem_erase_iff.mpr ⟨hold p hp, List.mem_append_left _ (ho.new_mem p hp)⟩
  · intro p hp he
    exact hmembers (Option.some.inj he ▸ ho.new_mem p hp)

theorem known_replace {x : α} (hx : (h.replace new).Known x) : x = new ∨ h.Known x := by
  obtain hx | hx := hx
  · have hmem : x ∈ h.members ++ [new] := by
      cases hc : h.current with
      | none =>
        rw [Handovers.replace, hc] at hx
        exact hx
      | some old =>
        rw [replace_eq hc] at hx
        exact List.mem_of_mem_erase hx
    rw [List.mem_append, List.mem_singleton] at hmem
    obtain hmem | hmem := hmem
    · exact .inr (.inl hmem)
    · exact .inl hmem
  · have hleave : (h.replace new).leaving = h.leaving := by
      unfold Handovers.replace
      cases h.current <;> rfl
    exact .inr (.inr (hleave ▸ hx))

/-- Replacing a member that a handover leaves makes one more member stay. -/
theorem staying_replace (ho : h.Orderly) (hf : h.Fresh new) :
    (h.replace new).staying = h.staying + if h.contested then 1 else 0 := by
  obtain ⟨old, hc, hmem⟩ := ho.current_mem
  have hcontested : h.contested = decide (old ∈ h.leaving) := by rw [contested, hc]
  have hnew : new ∉ h.leaving := (not_or.mp hf).2
  rw [replace_eq hc]
  show ((h.members ++ [new]).erase old).countP (fun x => decide (x ∉ h.leaving)) = _
  rw [List.erase_append_left _ hmem, List.countP_append, staying, countP_members hmem, hcontested]
  by_cases hold : old ∈ h.leaving
  · simp [hold, hnew]
  · simp [hold, hnew]
    omega

/-! ## Rest -/

/-- At rest all members stay. -/
theorem staying_of_pending (hp : h.pending = []) : h.staying = h.members.length := by
  unfold staying leaving
  rw [hp, List.countP_eq_length]
  intro x _
  exact decide_eq_true List.not_mem_nil

/-! ## The latest member -/

/-- Where the handovers lead when they finish in the order in which they started. -/
def latest (h : Handovers α) : Option α := (h.pending.getLast?.map Prod.snd).or h.current

omit [DecidableEq α] in
theorem latest_start {old : α} (hc : h.current = some old) :
    (h.start new).latest = some new := by
  rw [start_eq hc, latest, List.getLast?_append]
  rfl

theorem latest_finish_zero : (h.finish 0).latest = h.latest := by
  obtain ⟨current, members, pending⟩ := h
  cases pending with
  | nil => rfl
  | cons p pending =>
    obtain ⟨old, new⟩ := p
    cases pending with
    | nil => rfl
    | cons q pending => rfl

theorem latest_replace (hp : h.pending = []) : (h.replace new).latest = some new := by
  unfold latest replace
  cases h.current <;> simp [hp]

omit [DecidableEq α] in
/-- At rest the latest member is the current one. -/
theorem latest_of_pending (hp : h.pending = []) : h.latest = h.current := by
  rw [latest, hp]
  rfl

end Handovers
end Karupasu.Library
