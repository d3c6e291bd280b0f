import Karupasu.Library.Deliveries
import Karupasu.RxSwift.Bag

/-!
# Subjects

A subject hands an event to the observers its bag holds when the event is sent. An observer may use
the subject before the next one is reached, so an event can be sent, an observer subscribed or
removed, while earlier events are still on their way.
-/
namespace Karupasu.RxSwift

open Karupasu.Library

variable {S ρ E F : Type}

/-- `RxError.disposed`, or any other error. -/
inductive SwiftError (F : Type) where
  | disposed
  | other (error : F)
deriving DecidableEq, Repr

inductive Event (E F : Type) where
  | next (element : E)
  | error (error : SwiftError F)
  | completed
deriving DecidableEq, Repr

def Event.isStopEvent : Event E F → Bool
  | .next _ => false
  | .error _ | .completed => true

/-- What a subscription leaves: the key to dispose it with, if there is one, and what the observer
was told before `subscribe` returned. -/
structure Subscribed (S E F : Type) where
  disposeKey : Option BagKey
  reply : Option (Event E F)
  subject : S

/-- What a subject does while it holds its lock. -/
class Subject (S : Type) (ρ E F : outParam Type) where
  /-- The observers the event is dispatched to. -/
  synchronizedOn : S → Event E F → Bag ρ × S
  synchronizedSubscribe : S → ρ → Subscribed S E F
  /-- Nothing is returned where the removal from the bag traps. -/
  synchronizedUnsubscribe : S → BagKey → Option S
  dispose : S → S

/-- A subject, and the deliveries that wait until an observer returns. -/
structure Dispatching (S ρ E F : Type) where
  subject : S
  waiting : List (ρ × Event E F)

/-- A call of the subject, or the return of the observer that was called last. -/
inductive Use (ρ E F : Type) where
  | on (order : HashOrder (Bag.Entry ρ)) (event : Event E F)
  | subscribe (observer : ρ)
  | unsubscribe (key : BagKey)
  | dispose
  | proceed

inductive Occurrence (ρ E F : Type) where
  | delivered (delivery : ρ × Event E F)
  | trap
deriving DecidableEq, Repr

namespace Dispatching

variable [Subject S ρ E F]

def on (d : Dispatching S ρ E F) (order : HashOrder (Bag.Entry ρ)) (event : Event E F) :
    Dispatching S ρ E F × List (Occurrence ρ E F) :=
  let (observers, subject) := Subject.synchronizedOn d.subject event
  let (waiting, now) := serve ((observers.dispatch order).map (·, event)) d.waiting
  (⟨subject, waiting⟩, now.map .delivered)

def subscribe (d : Dispatching S ρ E F) (observer : ρ) :
    Dispatching S ρ E F × List (Occurrence ρ E F) :=
  let subscribed := Subject.synchronizedSubscribe d.subject observer
  ({ d with subject := subscribed.subject },
    subscribed.reply.toList.map fun event => .delivered (observer, event))

def unsubscribe (d : Dispatching S ρ E F) (key : BagKey) :
    Dispatching S ρ E F × List (Occurrence ρ E F) :=
  match Subject.synchronizedUnsubscribe d.subject key with
  | none => (d, [.trap])
  | some subject => ({ d with subject := subject }, [])

def proceed (d : Dispatching S ρ E F) : Dispatching S ρ E F × List (Occurrence ρ E F) :=
  let (waiting, now) := Library.proceed d.waiting
  ({ d with waiting := waiting }, now.map .delivered)

def machine : Machine (Dispatching S ρ E F) (Use ρ E F) (Occurrence ρ E F) where
  step d use :=
    match use with
    | .on order event => d.on order event
    | .subscribe observer => d.subscribe observer
    | .unsubscribe key => d.unsubscribe key
    | .dispose => ({ d with subject := Subject.dispose d.subject }, [])
    | .proceed => d.proceed

end Dispatching

/-! ## Topics

What a subject is for: each event goes at once to the subscriptions that are open. -/

inductive Topic.Status (E F : Type) where
  | active
  | ended (event : Event E F)
  | disposed
deriving DecidableEq, Repr

structure Topic (ρ E F : Type) where
  registry : Registry ρ
  /-- The element a new subscriber is told, for a topic that remembers one. -/
  current : Option E
  status : Topic.Status E F

namespace Topic

def opened (current : Option E) : Topic ρ E F :=
  { registry := .empty, current := current, status := .active }

def stop (topic : Topic ρ E F) (status : Status E F) : Topic ρ E F :=
  { topic with registry := { topic.registry with live := [] }, status := status }

/-- The event reaches the open subscriptions. A topic that remembers no element can be ended even
after it was disposed; then later subscribers are told about that end. -/
def on (topic : Topic ρ E F) (event : Event E F) : List ρ × Topic ρ E F :=
  match event, topic.status with
  | .next element, .active =>
    (topic.registry.live.map Prod.snd,
      { topic with current := topic.current.map fun _ => element })
  | .next _, _ => ([], topic)
  | event, .active => (topic.registry.live.map Prod.snd, topic.stop (.ended event))
  | event, .disposed => if topic.current.isNone then ([], topic.stop (.ended event)) else ([], topic)
  | _, .ended _ => ([], topic)

def subscribe (topic : Topic ρ E F) (observer : ρ) : Option (Event E F) × Topic ρ E F :=
  match topic.status with
  | .active =>
    (topic.current.map .next, { topic with registry := topic.registry.insert observer })
  | .ended event => (some event, topic)
  | .disposed => (some (.error .disposed), topic)

def unsubscribe (topic : Topic ρ E F) (key : BagKey) : Topic ρ E F :=
  { topic with registry := (topic.registry.removeKey key).2 }

section On

variable {topic : Topic ρ E F} {event : Event E F}

theorem on_next (h : topic.status = .active) (element : E) :
    topic.on (.next element) = (topic.registry.live.map Prod.snd,
      { topic with current := topic.current.map fun _ => element }) := by
  unfold on
  rw [h]

/-- A topic that remembers nothing stays as it is. -/
theorem on_next_forgetful (h : topic.status = .active) (hc : topic.current = none) (element : E) :
    topic.on (.next element) = (topic.registry.live.map Prod.snd, topic) := by
  rw [on_next h]
  cases topic
  dsimp only at hc
  rw [hc]
  rfl

theorem on_next_of_ne (h : topic.status ≠ .active) (element : E) :
    topic.on (.next element) = ([], topic) := by
  unfold on
  cases hs : topic.status with
  | active => exact absurd hs h
  | ended event => rfl
  | disposed => rfl

theorem on_stop (h : topic.status = .active) (he : event.isStopEvent = true) :
    topic.on event = (topic.registry.live.map Prod.snd, topic.stop (.ended event)) := by
  unfold on
  rw [h]
  cases event with
  | next element => cases he
  | error error => rfl
  | completed => rfl

theorem on_stop_disposed (h : topic.status = .disposed) (he : event.isStopEvent = true) :
    topic.on event =
      ([], if topic.current.isNone then topic.stop (.ended event) else topic) := by
  unfold on
  rw [h]
  cases event with
  | next element => cases he
  | error error => dsimp only; split <;> rfl
  | completed => dsimp only; split <;> rfl

theorem on_stop_ended {first : Event E F} (h : topic.status = .ended first)
    (he : event.isStopEvent = true) : topic.on event = ([], topic) := by
  unfold on
  rw [h]
  cases event with
  | next element => cases he
  | error error => rfl
  | completed => rfl

end On

def machine : Machine (Topic ρ E F) (Use ρ E F) (Occurrence ρ E F) where
  step topic use :=
    match use with
    | .on _ event => ((topic.on event).2, (topic.on event).1.map fun r => .delivered (r, event))
    | .subscribe observer =>
      ((topic.subscribe observer).2,
        (topic.subscribe observer).1.toList.map fun event => .delivered (observer, event))
    | .unsubscribe key => (topic.unsubscribe key, [])
    | .dispose => (topic.stop .disposed, [])
    | .proceed => (topic, [])

end Topic

def subscriptions (uses : List (Use ρ E F)) : Nat :=
  uses.countP fun
    | .subscribe _ => true
    | _ => false

theorem subscriptions_cons (use : Use ρ E F) (uses : List (Use ρ E F)) :
    subscriptions (use :: uses) = subscriptions [use] + subscriptions uses := by
  rw [subscriptions, ← List.singleton_append, List.countP_append]
  rfl

namespace Topic

/-- The topic has a key left for the subscription. -/
def HasKey (topic : Topic ρ E F) (use : Use ρ E F) : Prop :=
  topic.registry.issued + subscriptions [use] < UInt64.size

theorem issued_next_le (topic : Topic ρ E F) (use : Use ρ E F) :
    (machine.next topic use).registry.issued ≤ topic.registry.issued + subscriptions [use] := by
  cases use with
  | on order event =>
    show (topic.on event).2.registry.issued ≤ _
    unfold on
    split <;> try split
    all_goals exact Nat.le_refl _
  | subscribe observer =>
    show (topic.subscribe observer).2.registry.issued ≤ _
    unfold subscribe
    split
    · exact Nat.le_refl _
    · exact Nat.le_add_right _ _
    · exact Nat.le_add_right _ _
  | unsubscribe key => exact Nat.le_of_eq (topic.registry.removeKey_issued key)
  | dispose => exact Nat.le_refl _
  | proceed => exact Nat.le_refl _

theorem along_hasKey {topic : Topic ρ E F} {uses : List (Use ρ E F)}
    (hb : topic.registry.issued + subscriptions uses < UInt64.size) :
    machine.Along HasKey topic uses := by
  induction uses generalizing topic with
  | nil => trivial
  | cons use uses ih =>
    rw [subscriptions_cons] at hb
    have hle := topic.issued_next_le use
    exact ⟨by unfold HasKey; omega, ih (by omega)⟩

end Topic

/-! ## A subject follows a topic -/

section Follows

variable [Subject S ρ E F]

/-- Under the relation `R` each operation of the subject does what the topic does. -/
structure Subject.Follows (R : S → Topic ρ E F → Prop) : Prop where
  on : ∀ {s t}, R s t → ∀ event,
    R (Subject.synchronizedOn s event).2 (t.on event).2 ∧
      ∀ order, ((Subject.synchronizedOn s event).1.dispatch order).Perm (t.on event).1
  subscribe : ∀ {s t}, R s t → t.registry.issued + 1 < UInt64.size → ∀ observer,
    R (Subject.synchronizedSubscribe s observer).subject (t.subscribe observer).2 ∧
      (Subject.synchronizedSubscribe s observer).reply = (t.subscribe observer).1
  unsubscribe : ∀ {s t}, R s t → ∀ key, ∃ s',
    Subject.synchronizedUnsubscribe s key = some s' ∧ R s' (t.unsubscribe key)
  dispose : ∀ {s t}, R s t → R (Subject.dispose s) (t.stop .disposed)

namespace Dispatching

/-- The deliveries that wait, as they will be observed. -/
def due (d : Dispatching S ρ E F) : List (Occurrence ρ E F) := d.waiting.map .delivered

/-- Whom an occurrence concerns. -/
def recipient : Occurrence ρ E F → Option ρ
  | .delivered delivery => some delivery.1
  | .trap => none

/-- Nothing is sent to an observer that an earlier event still waits for, nor is such an observer
told anything as it subscribes. -/
def Calm (d : Dispatching S ρ E F) : Use ρ E F → Prop
  | .on order event =>
    ∀ r ∈ (Subject.synchronizedOn d.subject event).1.dispatch order, r ∉ d.waiting.map Prod.fst
  | .subscribe observer =>
    (Subject.synchronizedSubscribe d.subject observer).reply.isSome = true →
      observer ∉ d.waiting.map Prod.fst
  | _ => True

instance [DecidableEq ρ] (d : Dispatching S ρ E F) (use : Use ρ E F) :
    Decidable (d.Calm use) := by
  unfold Calm
  split <;> infer_instance

theorem on_append (d : Dispatching S ρ E F) (order : HashOrder (Bag.Entry ρ))
    (event : Event E F) :
    (d.on order event).2 ++ (d.on order event).1.due =
      (((Subject.synchronizedOn d.subject event).1.dispatch order).map
        fun r => .delivered (r, event)) ++ d.due := by
  have hs := serve_append
    (((Subject.synchronizedOn d.subject event).1.dispatch order).map (·, event)) d.waiting
  have hm := congrArg (List.map (Occurrence.delivered (ρ := ρ))) hs
  rw [List.map_append, List.map_append, List.map_map] at hm
  exact hm

omit [Subject S ρ E F] in
theorem proceed_append (d : Dispatching S ρ E F) : d.proceed.2 ++ d.proceed.1.due = d.due := by
  have hs := Library.proceed_append d.waiting
  have hm := congrArg (List.map (Occurrence.delivered (ρ := ρ))) hs
  rw [List.map_append] at hm
  exact hm

omit [Subject S ρ E F] in
theorem mem_due {d : Dispatching S ρ E F} {x : Occurrence ρ E F} (h : x ∈ d.due) :
    ∃ r ∈ d.waiting.map Prod.fst, recipient x = some r := by
  obtain ⟨delivery, hd, rfl⟩ := List.mem_map.mp h
  exact ⟨delivery.1, List.mem_map_of_mem hd, rfl⟩

variable {R : S → Topic ρ E F → Prop}

/-- One use of the subject adds to what waits what the topic delivers. -/
theorem next_follows (h : Subject.Follows R) {d : Dispatching S ρ E F} {t : Topic ρ E F}
    (hr : R d.subject t) {use : Use ρ E F} (hk : t.HasKey use) :
    R (machine.next d use).subject (Topic.machine.next t use) ∧
      ∃ new, machine.emit d use ++ (machine.next d use).due = new ++ d.due ∧
        new.Perm (Topic.machine.emit t use) ∧
        (d.Calm use → ∀ x ∈ new, ∀ y ∈ d.due, recipient x ≠ recipient y) := by
  cases use with
  | on order event =>
    obtain ⟨hs, hp⟩ := h.on hr event
    refine ⟨hs, _, d.on_append order event, (hp order).map _, ?_⟩
    intro hcalm x hx y hy heq
    obtain ⟨r, hrm, rfl⟩ := List.mem_map.mp hx
    obtain ⟨r', hw, hr'⟩ := mem_due hy
    rw [hr'] at heq
    cases heq
    exact hcalm r hrm hw
  | subscribe observer =>
    obtain ⟨hs, hreply⟩ := h.subscribe hr hk observer
    refine ⟨hs, _, rfl, ?_, ?_⟩
    · show (List.map _ (Subject.synchronizedSubscribe d.subject observer).reply.toList).Perm _
      rw [hreply]
      exact List.Perm.refl _
    · intro hcalm x hx y hy heq
      obtain ⟨event, hevent, rfl⟩ := List.mem_map.mp hx
      obtain ⟨r', hw, hr'⟩ := mem_due hy
      rw [hr'] at heq
      cases heq
      have hsome := Option.isSome_of_mem (Option.mem_toList.mp hevent)
      exact hcalm hsome hw
  | unsubscribe key =>
    obtain ⟨s', he, hs⟩ := h.unsubscribe hr key
    have hu : d.unsubscribe key = ({ d with subject := s' }, []) := by
      rw [unsubscribe, he]
    refine ⟨?_, [], ?_, List.Perm.refl _, fun _ x hx => absurd hx List.not_mem_nil⟩
    · show R (d.unsubscribe key).1.subject _
      rw [hu]
      exact hs
    · show (d.unsubscribe key).2 ++ (d.unsubscribe key).1.due = _
      rw [hu]
      rfl
  | dispose =>
    exact ⟨h.dispose hr, [], rfl, List.Perm.refl _, fun _ x hx => absurd hx List.not_mem_nil⟩
  | proceed =>
    exact ⟨hr, [], d.proceed_append, List.Perm.refl _, fun _ x hx => absurd hx List.not_mem_nil⟩

theorem delivers_perm (h : Subject.Follows R) :
    Delivers machine Topic.machine due List.Perm (fun d t => R d.subject t) (fun _ _ => True)
      Topic.HasKey := by
  intro d t use hr _ hk
  obtain ⟨hnext, new, he, hp, _⟩ := next_follows h hr hk
  refine ⟨hnext, ?_⟩
  rw [he]
  exact List.perm_append_comm.trans (hp.append_left _)

end Dispatching

/-- A topic tells an observer one thing at a time. -/
theorem Topic.emit_unique (t : Topic ρ E F) (use : Use ρ E F) {x y : Occurrence ρ E F}
    (hx : x ∈ machine.emit t use) (hy : y ∈ machine.emit t use)
    (h : Dispatching.recipient x = Dispatching.recipient y) : x = y := by
  cases use with
  | on order event =>
    obtain ⟨r, _, rfl⟩ := List.mem_map.mp hx
    obtain ⟨r', _, rfl⟩ := List.mem_map.mp hy
    cases h
    rfl
  | subscribe observer =>
    obtain ⟨event, he, rfl⟩ := List.mem_map.mp hx
    obtain ⟨event', he', rfl⟩ := List.mem_map.mp hy
    rw [Option.mem_toList] at he he'
    rw [he] at he'
    cases he'
    rfl
  | unsubscribe key => cases hx
  | dispose => cases hx
  | proceed => cases hx

namespace Dispatching

variable {R : S → Topic ρ E F → Prop}

theorem delivers_sameFor [DecidableEq ρ] (h : Subject.Follows R) :
    Delivers machine Topic.machine due (SameFor recipient) (fun d t => R d.subject t) Calm
      Topic.HasKey := by
  intro d t use hr hcalm hk
  obtain ⟨hnext, new, he, hp, hapart⟩ := next_follows h hr hk
  refine ⟨hnext, ?_⟩
  rw [he]
  have hE := appendCongruence_sameFor (recipient (ρ := ρ) (E := E) (F := F))
  have hnew : SameFor recipient new (Topic.machine.emit t use) :=
    sameFor_of_perm hp fun x hx y hy =>
      t.emit_unique use (hp.subset hx) (hp.subset hy)
  exact hE.trans (sameFor_append_comm (hapart hcalm)) (hE.append (hE.refl _) hnew)

/-- The run rule for subjects: each delivery that is due is made once or waits. -/
theorem run_follows (h : Subject.Follows R) {s : S} {t : Topic ρ E F} (hr : R s t)
    {uses : List (Use ρ E F)} (hb : t.registry.issued + subscriptions uses < UInt64.size) :
    R (machine.run ⟨s, []⟩ uses).subject (Topic.machine.run t uses) ∧
      (machine.outputs ⟨s, []⟩ uses ++ (machine.run ⟨s, []⟩ uses).due).Perm
        (Topic.machine.outputs t uses) := by
  have hall : machine.Along (fun _ _ => True) (⟨s, []⟩ : Dispatching S ρ E F) uses :=
    machine.along_of_forall _ (D := fun _ => True) (fun _ _ => trivial)
  exact (delivers_perm h).run appendCongruence_perm hr hall (Topic.along_hasKey hb)

/-- In a calm run each observer gets what is due to it in the order in which it became due. -/
theorem run_inOrder [DecidableEq ρ] (h : Subject.Follows R) {s : S} {t : Topic ρ E F}
    (hr : R s t) {uses : List (Use ρ E F)}
    (hb : t.registry.issued + subscriptions uses < UInt64.size)
    (hcalm : machine.Along Calm (⟨s, []⟩ : Dispatching S ρ E F) uses) :
    SameFor recipient (machine.outputs ⟨s, []⟩ uses ++ (machine.run ⟨s, []⟩ uses).due)
      (Topic.machine.outputs t uses) :=
  ((delivers_sameFor h).run (appendCongruence_sameFor recipient) hr hcalm
    (Topic.along_hasKey hb)).2

end Dispatching
end Follows
end Karupasu.RxSwift
