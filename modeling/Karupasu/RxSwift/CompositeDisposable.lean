import Karupasu.Library.Deliveries
import Karupasu.RxSwift.Bag

/-!
# Composite disposables

The bag is given up before its disposables are disposed, so what comes meanwhile is disposed at once.
Every disposable that was handed in is held, waits for its turn or has been disposed.
-/
namespace Karupasu.RxSwift

open Karupasu.Library

variable {T : Type}

structure CompositeDisposable (T : Type) where
  disposables : Option (Bag T)
  /-- What `disposeAll` has still to dispose of. -/
  waiting : List T

inductive CompositeDisposable.Use (T : Type) where
  | insert (disposable : T)
  | remove (disposeKey : BagKey)
  | dispose (order : HashOrder (Bag.Entry T))
  | proceed

inductive Disposal (T : Type) where
  | disposed (disposable : T)
  | trap
deriving DecidableEq, Repr

namespace CompositeDisposable

def init : CompositeDisposable T := { disposables := some .init, waiting := [] }

/-- The key is missing when the disposable was disposed instead. -/
def insert (composite : CompositeDisposable T) (disposable : T) :
    Option BagKey × CompositeDisposable T × List (Disposal T) :=
  match composite.disposables with
  | none => (none, composite, [.disposed disposable])
  | some bag =>
    let (key, bag) := bag.insert disposable
    (some key, { composite with disposables := some bag }, [])

def remove (composite : CompositeDisposable T) (disposeKey : BagKey) :
    CompositeDisposable T × List (Disposal T) :=
  match composite.disposables with
  | none => (composite, [])
  | some bag =>
    match bag.removeKey disposeKey with
    | none => (composite, [.trap])
    | some (disposable, bag) =>
      ({ composite with disposables := some bag }, disposable.toList.map .disposed)

def dispose (composite : CompositeDisposable T) (order : HashOrder (Bag.Entry T)) :
    CompositeDisposable T × List (Disposal T) :=
  match composite.disposables with
  | none => (composite, [])
  | some bag =>
    let (waiting, now) := serve (bag.dispatch order) composite.waiting
    ({ disposables := none, waiting := waiting }, now.map .disposed)

def machine : Machine (CompositeDisposable T) (Use T) (Disposal T) where
  step composite use :=
    match use with
    | .insert disposable => (composite.insert disposable).2
    | .remove disposeKey => composite.remove disposeKey
    | .dispose order => composite.dispose order
    | .proceed =>
      let (waiting, now) := proceed composite.waiting
      ({ composite with waiting := waiting }, now.map .disposed)

/-- What was handed in. -/
def inserted (uses : List (Use T)) : List T :=
  uses.filterMap fun
    | .insert disposable => some disposable
    | _ => none

/-- What a disposal would dispose of, in some order. -/
def held (composite : CompositeDisposable T) (order : HashOrder (Bag.Entry T)) : List T :=
  match composite.disposables with
  | none => []
  | some bag => bag.dispatch order

/-- The bag holds `live`; at most `issued` keys have been given out. -/
def Holds (composite : CompositeDisposable T) (live : List T) (issued : Nat) : Prop :=
  match composite.disposables with
  | none => live = []
  | some bag => ∃ registry : Registry T, bag.Represents registry ∧ registry.issued ≤ issued ∧
      live = registry.live.map Prod.snd

theorem holds_init : (init : CompositeDisposable T).Holds [] 0 :=
  ⟨.empty, Bag.represents_init, Nat.le_refl 0, rfl⟩

variable {composite : CompositeDisposable T} {live : List T} {issued : Nat}

theorem Holds.held (h : composite.Holds live issued) (order : HashOrder (Bag.Entry T)) :
    (composite.held order).Perm live := by
  unfold Holds at h
  unfold CompositeDisposable.held
  cases hd : composite.disposables with
  | none =>
    rw [hd] at h
    rw [h]
  | some bag =>
    rw [hd] at h
    obtain ⟨registry, hr, _, rfl⟩ := h
    exact hr.dispatch order

/-- What is disposed, waits and is held: the disposables a use accounts for. -/
def account (disposals : List (Disposal T)) (waiting live : List T) : List (Disposal T) :=
  disposals ++ (waiting ++ live).map .disposed

theorem account_nil (waiting live : List T) :
    account [] waiting live = (waiting ++ live).map .disposed := rfl

theorem removeKey_perm (registry : Registry T) (key : BagKey) :
    ((registry.removeKey key).1.toList ++ (registry.removeKey key).2.live.map Prod.snd).Perm
      (registry.live.map Prod.snd) := by
  unfold Registry.removeKey
  cases hr : removeValue key registry.live with
  | none => exact List.Perm.refl _
  | some r => exact ((Bag.removeValue_eq_some hr).1.map Prod.snd).symm

theorem inserted_cons (use : Use T) (uses : List (Use T)) :
    inserted (use :: uses) = inserted [use] ++ inserted uses := by
  rw [inserted, ← List.singleton_append, List.filterMap_append]
  rfl

theorem insert_account (h : composite.Holds live issued) (disposable : T)
    (hb : issued + 1 < UInt64.size) :
    ∃ live', (composite.insert disposable).2.1.Holds live' (issued + 1) ∧
      (account (composite.insert disposable).2.2 (composite.insert disposable).2.1.waiting
        live').Perm (account [] composite.waiting live ++ [.disposed disposable]) := by
  unfold Holds at h
  unfold CompositeDisposable.insert
  cases hd : composite.disposables with
  | none =>
    rw [hd] at h
    refine ⟨[], by simp only [Holds, hd], ?_⟩
    rw [h]
    exact (List.perm_append_singleton _ _).symm
  | some bag =>
    rw [hd] at h
    obtain ⟨registry, hr, hle, rfl⟩ := h
    have hinsert := hr.insert (by omega) disposable
    refine ⟨_, ⟨registry.insert disposable, hinsert, Nat.succ_le_succ hle, rfl⟩, ?_⟩
    simp only [account_nil, Registry.insert, List.map_append, List.append_assoc, List.map_cons,
      List.map_nil]
    exact List.Perm.refl _

theorem remove_account (h : composite.Holds live issued) (key : BagKey) :
    ∃ live', (composite.remove key).1.Holds live' issued ∧
      (account (composite.remove key).2 (composite.remove key).1.waiting live').Perm
        (account [] composite.waiting live) := by
  have h' := h
  unfold Holds at h
  unfold CompositeDisposable.remove
  cases hd : composite.disposables with
  | none => exact ⟨live, h', List.Perm.refl _⟩
  | some bag =>
    rw [hd] at h
    obtain ⟨registry, hr, hle, rfl⟩ := h
    obtain ⟨bag', he, hr'⟩ := hr.removeKey key
    simp only [he]
    have hissued := (registry.removeKey_issued key).symm ▸ hle
    refine ⟨_, ⟨(registry.removeKey key).2, hr', hissued, rfl⟩, ?_⟩
    rw [account, account_nil, ← List.map_append]
    refine List.Perm.map _ ?_
    exact (List.perm_append_comm_assoc _ _ _).trans ((removeKey_perm registry key).append_left _)

theorem dispose_account (h : composite.Holds live issued) (order : HashOrder (Bag.Entry T)) :
    ∃ live', (composite.dispose order).1.Holds live' issued ∧
      (account (composite.dispose order).2 (composite.dispose order).1.waiting live').Perm
        (account [] composite.waiting live) := by
  have h' := h
  unfold Holds at h
  unfold CompositeDisposable.dispose
  cases hd : composite.disposables with
  | none => exact ⟨live, h', List.Perm.refl _⟩
  | some bag =>
    rw [hd] at h
    obtain ⟨registry, hr, _, rfl⟩ := h
    refine ⟨[], rfl, ?_⟩
    have hs := serve_append (bag.dispatch order) composite.waiting
    simp only [account, List.append_nil, List.nil_append]
    rw [← List.map_append, hs]
    exact (((hr.dispatch order).append_right _).trans List.perm_append_comm).map _

theorem proceed_account (composite : CompositeDisposable T) (live : List T) :
    (account ((proceed composite.waiting).2.map .disposed) (proceed composite.waiting).1 live).Perm
      (account [] composite.waiting live) := by
  rw [account, account_nil, List.map_append, ← List.append_assoc, ← List.map_append,
    proceed_append, ← List.map_append]

/-- One use: what is accounted for grows by what is handed in. -/
theorem step_account (h : composite.Holds live issued) (use : Use T)
    (hb : issued + (inserted [use]).length < UInt64.size) :
    ∃ live', (machine.next composite use).Holds live' (issued + (inserted [use]).length) ∧
      (account (machine.emit composite use) (machine.next composite use).waiting live').Perm
        (account [] composite.waiting live ++ (inserted [use]).map .disposed) := by
  cases use with
  | insert disposable => exact insert_account h disposable hb
  | remove key =>
    obtain ⟨live', hl, hp⟩ := remove_account h key
    refine ⟨live', hl, ?_⟩
    rw [show inserted [Use.remove key] = ([] : List T) from rfl, List.map_nil, List.append_nil]
    exact hp
  | dispose order =>
    obtain ⟨live', hl, hp⟩ := dispose_account h order
    refine ⟨live', hl, ?_⟩
    rw [show inserted [Use.dispose order] = ([] : List T) from rfl, List.map_nil, List.append_nil]
    exact hp
  | proceed =>
    refine ⟨live, h, ?_⟩
    rw [show inserted [Use.proceed] = ([] : List T) from rfl, List.map_nil, List.append_nil]
    exact proceed_account composite live

theorem run_perm {uses : List (Use T)} (hb : (inserted uses).length < UInt64.size)
    (order : HashOrder (Bag.Entry T)) :
    (account (machine.outputs init uses) (machine.run init uses).waiting
        ((machine.run init uses).held order)).Perm
      ((inserted uses).map Disposal.disposed) := by
  suffices h : ∀ (composite : CompositeDisposable T) (live : List T) (issued : Nat),
      composite.Holds live issued → issued + (inserted uses).length < UInt64.size →
      ∃ live', (machine.run composite uses).Holds live' (issued + (inserted uses).length) ∧
        (account (machine.outputs composite uses) (machine.run composite uses).waiting live').Perm
          (account [] composite.waiting live ++ (inserted uses).map .disposed) by
    obtain ⟨live', hl, hp⟩ := h init [] 0 holds_init (by omega)
    have hheld := ((hl.held order).append_left (machine.run init uses).waiting).map
      (Disposal.disposed (T := T))
    exact (hheld.append_left _).trans hp
  clear hb
  induction uses with
  | nil =>
    intro composite live issued h _
    refine ⟨live, h, ?_⟩
    rw [show inserted ([] : List (Use T)) = [] from rfl, List.map_nil, List.append_nil]
    exact List.Perm.refl _
  | cons use uses ih =>
    intro composite live issued h hb
    rw [inserted_cons, List.length_append] at hb ⊢
    obtain ⟨live', hl, hp⟩ := step_account h use (by omega)
    obtain ⟨live'', hrun, hrest⟩ := ih _ live' _ hl (by omega)
    refine ⟨live'', ?_, ?_⟩
    · rw [← Nat.add_assoc]
      exact hrun
    · have hfirst : (machine.emit composite use ++
          account (machine.outputs (machine.next composite use) uses)
            (machine.run (machine.next composite use) uses).waiting live'').Perm
          (account (machine.emit composite use) (machine.next composite use).waiting live' ++
            (inserted uses).map .disposed) := by
        refine (hrest.append_left _).trans ?_
        rw [account, List.nil_append, account, List.append_assoc]
      have hall := hfirst.trans (hp.append_right _)
      rw [account, ← List.append_assoc] at hall
      rw [Machine.outputs_cons, List.map_append, ← List.append_assoc]
      exact hall

def isDispose : Use T → Bool
  | .dispose _ => true
  | _ => false

/-- The bag is given up at the first disposal, for good. -/
theorem next_disposables (composite : CompositeDisposable T) (use : Use T)
    (h : composite.disposables = none ∨ isDispose use) :
    (machine.next composite use).disposables = none := by
  cases hd : composite.disposables with
  | none => cases use <;> simp [Machine.next, machine, insert, remove, dispose, hd]
  | some bag =>
    have hu : isDispose use := h.resolve_left (by simp [hd])
    cases use with
    | dispose order => simp [Machine.next, machine, dispose, hd]
    | insert disposable => cases hu
    | remove key => cases hu
    | proceed => cases hu

theorem run_disposables (composite : CompositeDisposable T) (uses : List (Use T))
    (h : composite.disposables = none ∨ uses.any isDispose) :
    (machine.run composite uses).disposables = none := by
  induction uses generalizing composite with
  | nil => exact h.resolve_right (by simp)
  | cons use uses ih =>
    apply ih
    rw [List.any_cons, Bool.or_eq_true] at h
    obtain h | h | h := h
    · exact Or.inl (next_disposables composite use (Or.inl h))
    · exact Or.inl (next_disposables composite use (Or.inr h))
    · exact Or.inr h

/-- In every run each disposable that was handed in has been disposed, waits to be disposed or is
held by the bag: one of these, and once. After a disposal nothing is held. -/
theorem run_disposes {uses : List (Use T)} (hb : (inserted uses).length < UInt64.size)
    (order : HashOrder (Bag.Entry T)) :
    (account (machine.outputs init uses) (machine.run init uses).waiting
        ((machine.run init uses).held order)).Perm ((inserted uses).map Disposal.disposed) ∧
      (uses.any isDispose → (machine.run init uses).held order = []) := by
  refine ⟨run_perm hb order, fun h => ?_⟩
  rw [held, run_disposables init uses (Or.inr h)]

/-- One disposable is removed, and another comes while the rest is being disposed of. -/
def handed : List (Use Nat) :=
  [.insert 1, .insert 2, .insert 3, .remove ⟨0⟩, .dispose .identity, .insert 4, .proceed]

theorem run_disposes_handed :
    (machine.outputs init handed).Perm [.disposed 1, .disposed 2, .disposed 3, .disposed 4] := by
  have hb : (inserted handed).length < UInt64.size := by decide
  have hp := (run_disposes hb .identity).1
  rwa [account, show (machine.run init handed).waiting = [] from rfl,
    (run_disposes hb .identity).2 rfl, List.append_nil, List.map_nil, List.append_nil] at hp

end CompositeDisposable
end Karupasu.RxSwift
