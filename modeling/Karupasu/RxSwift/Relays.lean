import Karupasu.RxSwift.BehaviorSubject

/-!
# Behavior relays

A relay wraps a subject that is never ended nor disposed. What its observers have been told last is
compared with its value.
-/
namespace Karupasu.RxSwift

open Karupasu.Library

variable {ρ E F : Type}

/-- A call of a relay, or the return of the observer that was called last. -/
inductive RelayUse (ρ E : Type) where
  | accept (order : HashOrder (Bag.Entry ρ)) (event : E)
  | subscribe (observer : ρ)
  | unsubscribe (key : BagKey)
  | proceed

namespace RelayUse

/-- What the relay does with its subject. -/
def use : RelayUse ρ E → Use ρ E F
  | .accept order event => .on order (.next event)
  | .subscribe observer => .subscribe observer
  | .unsubscribe key => .unsubscribe key
  | .proceed => .proceed

def subscribes : RelayUse ρ E → Bool
  | .subscribe _ => true
  | _ => false

def accepted : RelayUse ρ E → Option E
  | .accept _ event => some event
  | _ => none

theorem subscriptions_map (uses : List (RelayUse ρ E)) :
    subscriptions (uses.map use : List (Use ρ E F)) = uses.countP subscribes := by
  rw [subscriptions, List.countP_map]
  congr 1
  funext u
  cases u <;> rfl

end RelayUse

structure BehaviorRelay (ρ E F : Type) where
  subject : BehaviorSubject ρ E F

namespace BehaviorRelay

/-- `try!` traps where nothing is returned. -/
def value (relay : BehaviorRelay ρ E F) : Option E := relay.subject.value.toOption

/-! ## The topic of a relay -/

theorem topic_status {topic : Topic ρ E F} (h : topic.status = .active) (use : RelayUse ρ E) :
    (Topic.machine.next topic use.use).status = .active := by
  cases use with
  | accept order event =>
    show (topic.on (.next event)).2.status = .active
    rw [Topic.on_next h]
    exact h
  | subscribe observer =>
    show (topic.subscribe observer).2.status = .active
    simp only [Topic.subscribe, h]
  | unsubscribe key => exact h
  | proceed => exact h

theorem topic_run_status {topic : Topic ρ E F} (h : topic.status = .active)
    (uses : List (RelayUse ρ E)) :
    (Topic.machine.run topic (uses.map RelayUse.use)).status = .active := by
  induction uses generalizing topic with
  | nil => exact h
  | cons use uses ih => exact ih (topic_status h use)

theorem topic_current {topic : Topic ρ E F} (h : topic.status = .active) {element : E}
    (hc : topic.current = some element) (use : RelayUse ρ E) :
    (Topic.machine.next topic use.use).current = some (use.accepted.getD element) := by
  cases use with
  | accept order event =>
    show (topic.on (.next event)).2.current = _
    rw [Topic.on_next h, hc]
    rfl
  | subscribe observer =>
    show (topic.subscribe observer).2.current = _
    simp only [Topic.subscribe, h]
    exact hc
  | unsubscribe key => exact hc
  | proceed => exact hc

/-- The topic remembers what was accepted last. -/
theorem topic_run_current (value : E) (uses : List (RelayUse ρ E)) :
    (Topic.machine.run (.opened (some value) : Topic ρ E F) (uses.map RelayUse.use)).current =
      some ((Machine.written RelayUse.accepted uses).getD value) := by
  induction uses using List.reverseRecOn with
  | nil => rfl
  | append_singleton uses use ih =>
    have hopen : (Topic.opened (some value) : Topic ρ E F).status = .active := rfl
    rw [List.map_append, Machine.run_append, Machine.written_concat]
    refine (topic_current (topic_run_status hopen uses) ih use).trans ?_
    cases use.accepted <;> rfl

variable [DecidableEq ρ]

/-- The last thing an observer was told. -/
def told (r : ρ) (occurrences : List (Occurrence ρ E F)) : Option (Occurrence ρ E F) :=
  (occurrences.filter fun x => Dispatching.recipient x = some r).getLast?

theorem told_append_of_forall {r : ρ} {log new : List (Occurrence ρ E F)}
    (h : ∀ x ∈ new, Dispatching.recipient x ≠ some r) : told r (log ++ new) = told r log := by
  have hnil : new.filter (fun x => Dispatching.recipient x = some r) = [] := by
    rw [List.filter_eq_nil_iff]
    intro x hx hxr
    exact h x hx (of_decide_eq_true hxr)
  rw [told, List.filter_append, hnil, List.append_nil, told]

/-- When all that is new for the observer is one event, and there is some, it was told that. -/
theorem told_append {r : ρ} {event : Event E F} {log new : List (Occurrence ρ E F)}
    (hmem : Occurrence.delivered (r, event) ∈ new)
    (hall : ∀ x ∈ new, Dispatching.recipient x = some r → x = .delivered (r, event)) :
    told r (log ++ new) = some (.delivered (r, event)) := by
  have hne : new.filter (fun x => Dispatching.recipient x = some r) ≠ [] := by
    apply List.ne_nil_of_mem (a := Occurrence.delivered (r, event))
    rw [List.mem_filter]
    exact ⟨hmem, by simp [Dispatching.recipient]⟩
  rw [told, List.filter_append, List.getLast?_append_of_ne_nil _ hne,
    List.getLast?_eq_some_getLast hne]
  congr 1
  obtain ⟨hx, hr⟩ := List.mem_filter.mp (List.getLast_mem hne)
  exact hall _ hx (of_decide_eq_true hr)

/-- The subscribers of the topic have been told its element last. -/
def UpToDate (topic : Topic ρ E F) (log : List (Occurrence ρ E F)) : Prop :=
  ∀ element, topic.current = some element → ∀ r ∈ topic.registry.live.map Prod.snd,
    told r log = some (.delivered (r, .next element))

theorem upToDate_next {topic : Topic ρ E F} (hs : topic.status = .active)
    {log : List (Occurrence ρ E F)} (h : UpToDate topic log) (use : RelayUse ρ E) :
    UpToDate (Topic.machine.next topic use.use) (log ++ Topic.machine.emit topic use.use) := by
  intro element hc r hr
  cases use with
  | accept order event =>
    have he : topic.on (.next event : Event E F) = (topic.registry.live.map Prod.snd,
      { topic with current := topic.current.map fun _ => event }) := Topic.on_next hs event
    have hnext : Topic.machine.next topic (RelayUse.accept order event).use =
        (topic.on (.next event)).2 := rfl
    have hemit : Topic.machine.emit topic (RelayUse.accept order event).use =
        (topic.on (.next event)).1.map fun r => .delivered (r, .next event) := rfl
    rw [hnext, he] at hc hr
    rw [hemit, he]
    have hevent : element = event := by
      obtain ⟨_, _, heq⟩ := Option.map_eq_some_iff.mp hc
      exact heq.symm
    rw [hevent]
    apply told_append
    · exact List.mem_map_of_mem hr
    · intro x hx hxr
      obtain ⟨r', _, rfl⟩ := List.mem_map.mp hx
      cases hxr
      rfl
  | subscribe observer =>
    have he : topic.subscribe observer = (topic.current.map .next,
        { topic with registry := topic.registry.insert observer }) := by
      simp only [Topic.subscribe, hs]
    have hnext : Topic.machine.next topic (RelayUse.subscribe observer).use =
        (topic.subscribe observer).2 := rfl
    have hemit : Topic.machine.emit topic (RelayUse.subscribe observer).use =
        (topic.subscribe observer).1.toList.map fun event => .delivered (observer, event) := rfl
    rw [hnext, he] at hc hr
    rw [hemit, he]
    dsimp only at hc
    rw [hc]
    by_cases hro : r = observer
    · rw [hro]
      apply told_append
      · exact List.mem_singleton_self _
      · intro x hx _
        exact List.mem_singleton.mp hx
    · rw [told_append_of_forall]
      · apply h element hc r
        simp only [Registry.insert, List.map_append, List.mem_append, List.map_singleton,
          List.mem_singleton] at hr
        exact hr.resolve_right hro
      · intro x hx hxr
        rw [List.mem_singleton.mp hx] at hxr
        cases hxr
        exact hro rfl
  | unsubscribe key =>
    have hemit : Topic.machine.emit topic (RelayUse.unsubscribe key).use =
        ([] : List (Occurrence ρ E F)) := rfl
    rw [hemit, List.append_nil]
    apply h element hc r
    have hlive : r ∈ (topic.registry.removeKey key).2.live.map Prod.snd := hr
    unfold Registry.removeKey at hlive
    split at hlive
    · exact hlive
    · next value live heq =>
      obtain ⟨_, hsub⟩ := Bag.removeValue_eq_some heq
      exact (hsub.map Prod.snd).subset hlive
  | proceed =>
    have hemit : Topic.machine.emit topic (RelayUse.proceed : RelayUse ρ E).use =
        ([] : List (Occurrence ρ E F)) := rfl
    rw [hemit, List.append_nil]
    exact h element hc r hr

theorem upToDate_run (value : E) (uses : List (RelayUse ρ E)) :
    UpToDate (Topic.machine.run (.opened (some value) : Topic ρ E F) (uses.map RelayUse.use))
      (Topic.machine.outputs (.opened (some value)) (uses.map RelayUse.use)) := by
  induction uses using List.reverseRecOn with
  | nil =>
    intro element _ r hr
    cases hr
  | append_singleton uses use ih =>
    rw [List.map_append, Machine.run_append, Machine.outputs_append]
    have hopen : (Topic.opened (some value) : Topic ρ E F).status = .active := rfl
    have hs := topic_run_status hopen uses
    have hstep := upToDate_next hs ih use
    rw [List.map_singleton, Machine.outputs_cons, Machine.outputs_nil, List.append_nil]
    exact hstep

/-! ## Runs of a relay -/

/-- In every run the value of the relay is what was accepted last. When no delivery waits, each
observer of the relay was told that value last, unless something was accepted while an earlier
element was still on its way to one of its observers. -/
theorem run_toldLast (value : E) {uses : List (RelayUse ρ E)}
    (hb : uses.countP RelayUse.subscribes < UInt64.size) :
    ∃ element, element = (Machine.written RelayUse.accepted uses).getD value ∧
      BehaviorRelay.value ⟨(Dispatching.machine.run
        ⟨(.init value : BehaviorSubject ρ E F), []⟩ (uses.map RelayUse.use)).subject⟩ =
          some element ∧
      ((Dispatching.machine.run ⟨(.init value : BehaviorSubject ρ E F), []⟩
          (uses.map RelayUse.use)).waiting = [] →
        Dispatching.machine.Along Dispatching.Calm ⟨(.init value : BehaviorSubject ρ E F), []⟩
          (uses.map RelayUse.use) →
        ∀ order, ∀ r ∈ (Dispatching.machine.run ⟨(.init value : BehaviorSubject ρ E F), []⟩
            (uses.map RelayUse.use)).subject.observers.dispatch order,
          told r (Dispatching.machine.outputs ⟨(.init value : BehaviorSubject ρ E F), []⟩
            (uses.map RelayUse.use)) = some (.delivered (r, .next element))) := by
  have hissued : (Topic.opened (some value) : Topic ρ E F).registry.issued +
      subscriptions (uses.map RelayUse.use : List (Use ρ E F)) < UInt64.size := by
    rw [RelayUse.subscriptions_map, show (Topic.opened (some value) : Topic ρ E F).registry.issued = 0
      from rfl]
    omega
  have hopen : (Topic.opened (some value) : Topic ρ E F).status = .active := rfl
  have hstatus := topic_run_status hopen uses
  have hcurrent := topic_run_current (F := F) value uses
  have hfollows := (Dispatching.run_follows BehaviorSubject.follows
    (BehaviorSubject.follows_init value) hissued).1
  refine ⟨_, rfl, ?_, ?_⟩
  · obtain ⟨_, hd, hn⟩ | ⟨hs, _⟩ | ⟨first, hs, _⟩ := hfollows.cases
    · have helement := hfollows.current.symm.trans hcurrent
      rw [BehaviorRelay.value, BehaviorSubject.value, hd, hn]
      exact helement
    · rw [hstatus] at hs
      cases hs
    · rw [hstatus] at hs
      cases hs
  · intro hidle hcalm order r hr
    have hsame := Dispatching.run_inOrder BehaviorSubject.follows
      (BehaviorSubject.follows_init value) hissued hcalm (some r)
    rw [Dispatching.due, hidle, List.map_nil, List.append_nil] at hsame
    have hlive := ((hfollows.represents hstatus).dispatch order).subset hr
    have hupToDate := upToDate_run (F := F) value uses _ hcurrent r hlive
    rw [told, hsame]
    exact hupToDate

/-- Two observers and a second element after the first has arrived. -/
def settled : List (RelayUse Nat Nat) :=
  [.subscribe 1, .subscribe 2, .accept .identity 10, .proceed, .accept .identity 20, .proceed]

theorem run_toldLast_settled :
    BehaviorRelay.value ⟨(Dispatching.machine.run
        ⟨(.init 0 : BehaviorSubject Nat Nat Empty), []⟩ (settled.map RelayUse.use)).subject⟩ =
          some 20 ∧
      ∀ r ∈ [1, 2], told r (Dispatching.machine.outputs
        ⟨(.init 0 : BehaviorSubject Nat Nat Empty), []⟩ (settled.map RelayUse.use)) =
          some (.delivered (r, .next 20)) := by
  have hb : settled.countP RelayUse.subscribes < UInt64.size := by decide
  have hcalm : Dispatching.machine.Along Dispatching.Calm
      ⟨(.init 0 : BehaviorSubject Nat Nat Empty), []⟩ (settled.map RelayUse.use) :=
    ⟨by decide, by decide, by decide, by decide, by decide, by decide, trivial⟩
  obtain ⟨element, he, hv, htold⟩ := run_toldLast (F := Empty) 0 hb
  have helement : element = 20 := he.trans (by decide)
  rw [helement] at hv htold
  exact ⟨hv, htold rfl hcalm .identity⟩

/-- The first observer accepts another element before the second one is told the first. -/
def overtaken : List (RelayUse Nat Nat) :=
  [.subscribe 1, .subscribe 2, .accept .identity 10, .accept .identity 20, .proceed, .proceed]

/-- The second observer is left with the older element. -/
example : told 2 (Dispatching.machine.outputs ⟨(.init 0 : BehaviorSubject Nat Nat Empty), []⟩
    (overtaken.map RelayUse.use)) = some (.delivered (2, .next 10)) := by decide

end BehaviorRelay
end Karupasu.RxSwift
