import Karupasu.RxSwift.Subjects

/-!
# The behavior subject

It tells a new observer its element before the subscription returns. It keeps its observers when it
ends, and no longer serves them.
-/
namespace Karupasu.RxSwift

open Karupasu.Library

variable {ρ E F : Type}

structure BehaviorSubject (ρ E F : Type) where
  isDisposed : Bool
  element : E
  observers : Bag ρ
  stoppedEvent : Option (Event E F)

def Event.failure : Event E F → Option (SwiftError F)
  | .error e => some e
  | .next _ | .completed => none

namespace BehaviorSubject

def init (value : E) : BehaviorSubject ρ E F :=
  { isDisposed := false, element := value, observers := .init, stoppedEvent := none }

def value (subject : BehaviorSubject ρ E F) : Except (SwiftError F) E :=
  if subject.isDisposed then .error .disposed
  else
    match subject.stoppedEvent.bind Event.failure with
    | some error => .error error
    | none => .ok subject.element

def synchronizedOn (subject : BehaviorSubject ρ E F) (event : Event E F) :
    Bag ρ × BehaviorSubject ρ E F :=
  if subject.stoppedEvent.isSome || subject.isDisposed then (.init, subject)
  else
    match event with
    | .next element => (subject.observers, { subject with element := element })
    | .error _ | .completed => (subject.observers, { subject with stoppedEvent := some event })

def synchronizedSubscribe (subject : BehaviorSubject ρ E F) (observer : ρ) :
    Subscribed (BehaviorSubject ρ E F) E F :=
  if subject.isDisposed then
    { disposeKey := none, reply := some (.error .disposed), subject := subject }
  else
    match subject.stoppedEvent with
    | some stoppedEvent => { disposeKey := none, reply := some stoppedEvent, subject := subject }
    | none =>
      let (key, observers) := subject.observers.insert observer
      { disposeKey := some key, reply := some (.next subject.element),
        subject := { subject with observers := observers } }

def synchronizedUnsubscribe (subject : BehaviorSubject ρ E F) (disposeKey : BagKey) :
    Option (BehaviorSubject ρ E F) :=
  if subject.isDisposed then some subject
  else
    (subject.observers.removeKey disposeKey).map fun (_, observers) =>
      { subject with observers := observers }

def dispose (subject : BehaviorSubject ρ E F) : BehaviorSubject ρ E F :=
  { subject with isDisposed := true, observers := subject.observers.removeAll,
                 stoppedEvent := none }

instance : Subject (BehaviorSubject ρ E F) ρ E F where
  synchronizedOn := synchronizedOn
  synchronizedSubscribe := synchronizedSubscribe
  synchronizedUnsubscribe := synchronizedUnsubscribe
  dispose := dispose

def status (subject : BehaviorSubject ρ E F) : Topic.Status E F :=
  if subject.isDisposed then .disposed
  else
    match subject.stoppedEvent with
    | some event => .ended event
    | none => .active

/-- Once the subject has ended, the bag may hold observers that the topic has let go. -/
structure Follows (subject : BehaviorSubject ρ E F) (topic : Topic ρ E F) : Prop where
  observers : ∃ live, subject.observers.Represents { topic.registry with live := live } ∧
    (topic.status = .active → live = topic.registry.live)
  current : topic.current = some subject.element
  status : topic.status = subject.status
  closed : topic.status ≠ .active → topic.registry.live = []

theorem follows_init (value : E) :
    (init value : BehaviorSubject ρ E F).Follows (.opened (some value)) :=
  ⟨⟨[], Bag.represents_init, fun _ => rfl⟩, rfl, rfl, fun h => absurd rfl h⟩

variable {subject : BehaviorSubject ρ E F} {topic : Topic ρ E F}

/-- The three states of the flags. -/
theorem Follows.cases (h : subject.Follows topic) :
    (topic.status = .active ∧ subject.isDisposed = false ∧ subject.stoppedEvent = none) ∨
    (topic.status = .disposed ∧ subject.isDisposed = true) ∨
    (∃ event, topic.status = .ended event ∧ subject.isDisposed = false ∧
      subject.stoppedEvent = some event) := by
  rw [h.status, BehaviorSubject.status]
  cases hd : subject.isDisposed with
  | true => exact Or.inr (Or.inl ⟨rfl, rfl⟩)
  | false =>
    cases hs : subject.stoppedEvent with
    | none => exact Or.inl ⟨rfl, rfl, rfl⟩
    | some event => exact Or.inr (Or.inr ⟨event, rfl, rfl, rfl⟩)

theorem Follows.represents (h : subject.Follows topic) (hs : topic.status = .active) :
    subject.observers.Represents topic.registry := by
  obtain ⟨live, hr, hlive⟩ := h.observers
  rw [hlive hs] at hr
  exact hr

theorem synchronizedOn_stop {event : Event E F} (hd : subject.isDisposed = false)
    (hn : subject.stoppedEvent = none) (he : event.isStopEvent = true) :
    subject.synchronizedOn event =
      (subject.observers, { subject with stoppedEvent := some event }) := by
  unfold synchronizedOn
  rw [hd, hn]
  cases event with
  | next element => cases he
  | error error => rfl
  | completed => rfl

theorem synchronizedOn_closed (hs : subject.stoppedEvent.isSome || subject.isDisposed)
    (event : Event E F) : subject.synchronizedOn event = (.init, subject) := by
  unfold synchronizedOn
  rw [if_pos hs]

/-- An ended topic takes no notice of an event. -/
theorem on_closed (h : subject.Follows topic) (hs : topic.status ≠ .active) (event : Event E F) :
    topic.on event = ([], topic) := by
  cases he : event.isStopEvent with
  | false =>
    cases event with
    | next element => exact Topic.on_next_of_ne hs element
    | error error => cases he
    | completed => cases he
  | true =>
    cases ht : topic.status with
    | active => exact absurd ht hs
    | ended first => exact Topic.on_stop_ended ht he
    | disposed =>
      rw [Topic.on_stop_disposed ht he, h.current]
      rfl

theorem follows_on (h : subject.Follows topic) (event : Event E F) :
    (subject.synchronizedOn event).2.Follows (topic.on event).2 ∧
      ∀ order, ((subject.synchronizedOn event).1.dispatch order).Perm (topic.on event).1 := by
  obtain ⟨hs, hd, hn⟩ | ⟨hs, hd⟩ | ⟨first, hs, hd, hn⟩ := h.cases
  · have hr := h.represents hs
    cases he : event.isStopEvent with
    | false =>
      cases event with
      | error error => cases he
      | completed => cases he
      | next element =>
        rw [Topic.on_next hs, h.current]
        simp only [synchronizedOn, hd, hn, Option.isSome_none, Bool.or_self, Bool.false_eq_true,
          if_false]
        refine ⟨⟨⟨_, hr, fun _ => rfl⟩, rfl, ?_, h.closed⟩, hr.dispatch⟩
        rw [hs]
        rfl
    | true =>
      rw [Topic.on_stop hs he, synchronizedOn_stop hd hn he]
      refine ⟨⟨⟨_, hr, ?_⟩, h.current, ?_, fun _ => rfl⟩, hr.dispatch⟩
      · intro ht
        cases ht
      · show Topic.Status.ended event = BehaviorSubject.status _
        rw [BehaviorSubject.status]
        simp only [hd]
        rfl
  · rw [on_closed h (by simp [hs]), synchronizedOn_closed (by simp [hd])]
    exact ⟨h, fun _ => List.Perm.refl _⟩
  · rw [on_closed h (by simp [hs]), synchronizedOn_closed (by simp [hn])]
    exact ⟨h, fun _ => List.Perm.refl _⟩

theorem follows_subscribe (h : subject.Follows topic) (hb : topic.registry.issued + 1 < UInt64.size)
    (observer : ρ) :
    (subject.synchronizedSubscribe observer).subject.Follows (topic.subscribe observer).2 ∧
      (subject.synchronizedSubscribe observer).reply = (topic.subscribe observer).1 := by
  unfold synchronizedSubscribe Topic.subscribe
  obtain ⟨hs, hd, hn⟩ | ⟨hs, hd⟩ | ⟨first, hs, hd, hn⟩ := h.cases
  · simp only [hs, hd, hn, Bool.false_eq_true, if_false, h.current, Option.map_some]
    refine ⟨⟨⟨_, (h.represents hs).insert hb observer, fun _ => rfl⟩, rfl, rfl, ?_⟩, trivial⟩
    intro hne
    exact absurd rfl hne
  · simp only [hs, hd, if_true]
    exact ⟨h, trivial⟩
  · simp only [hs, hd, hn, Bool.false_eq_true, if_false]
    exact ⟨h, trivial⟩

theorem unsubscribe_closed (h : subject.Follows topic) (hs : topic.status ≠ .active)
    (key : BagKey) : topic.unsubscribe key = topic := by
  unfold Topic.unsubscribe Registry.removeKey
  rw [h.closed hs]
  rfl

theorem follows_unsubscribe (h : subject.Follows topic) (key : BagKey) :
    ∃ subject', subject.synchronizedUnsubscribe key = some subject' ∧
      subject'.Follows (topic.unsubscribe key) := by
  obtain ⟨hs, hd, hn⟩ | ⟨hs, hd⟩ | ⟨first, hs, hd, hn⟩ := h.cases
  · obtain ⟨observers, he, hr⟩ := (h.represents hs).removeKey key
    refine ⟨{ subject with observers := observers }, ?_, ⟨_, hr, fun _ => rfl⟩, h.current,
      h.status, fun hne => absurd hs hne⟩
    rw [synchronizedUnsubscribe, hd, he]
    rfl
  · refine ⟨subject, ?_, ?_⟩
    · rw [synchronizedUnsubscribe, hd]
      rfl
    · rw [unsubscribe_closed h (by simp [hs])]
      exact h
  · obtain ⟨live, hr, _⟩ := h.observers
    obtain ⟨observers, he, hr'⟩ := hr.removeKey key
    have hissued := Registry.removeKey_issued { topic.registry with live := live } key
    refine ⟨{ subject with observers := observers }, ?_, ?_⟩
    · rw [synchronizedUnsubscribe, hd, he]
      rfl
    · rw [unsubscribe_closed h (by simp [hs])]
      have hr'' : observers.Represents { topic.registry with
          live := (({ topic.registry with live := live } : Registry ρ).removeKey key).2.live } :=
        ⟨hr'.wellformed, hr'.entries, hr'.issued.trans hissued⟩
      refine ⟨⟨_, hr'', fun ht => ?_⟩, h.current, h.status, h.closed⟩
      rw [hs] at ht
      cases ht

theorem follows_dispose (h : subject.Follows topic) :
    subject.dispose.Follows (topic.stop .disposed) := by
  obtain ⟨live, hr, _⟩ := h.observers
  refine ⟨⟨[], hr.removeAll, fun ht => ?_⟩, h.current, rfl, fun _ => rfl⟩
  cases ht

theorem follows : Subject.Follows (S := BehaviorSubject ρ E F) Follows where
  on := follows_on
  subscribe := follows_subscribe
  unsubscribe := follows_unsubscribe
  dispose := follows_dispose

/-- Each event sent reaches each observer subscribed at that time once, after the element the
subject held when it subscribed; in the order of sending where nothing is sent to an observer that
still waits. Nothing traps. -/
theorem run_replays [DecidableEq ρ] (value : E) {uses : List (Use ρ E F)}
    (hb : subscriptions uses < UInt64.size) :
    (Dispatching.machine.outputs ⟨(init value : BehaviorSubject ρ E F), []⟩ uses ++
        (Dispatching.machine.run ⟨(init value : BehaviorSubject ρ E F), []⟩ uses).due).Perm
      (Topic.machine.outputs (.opened (some value)) uses) ∧
    (Dispatching.machine.Along Dispatching.Calm ⟨(init value : BehaviorSubject ρ E F), []⟩ uses →
      SameFor Dispatching.recipient
        (Dispatching.machine.outputs ⟨(init value : BehaviorSubject ρ E F), []⟩ uses ++
          (Dispatching.machine.run ⟨(init value : BehaviorSubject ρ E F), []⟩ uses).due)
        (Topic.machine.outputs (.opened (some value)) uses)) := by
  have hissued : (Topic.opened (some value) : Topic ρ E F).registry.issued + subscriptions uses <
      UInt64.size := by
    rw [show (Topic.opened (some value) : Topic ρ E F).registry.issued = 0 from rfl]
    omega
  exact ⟨(Dispatching.run_follows follows (follows_init value) hissued).2,
    Dispatching.run_inOrder follows (follows_init value) hissued⟩

/-- An observer subscribes while the other one is told an element, and the subject then ends. -/
def joined : List (Use Nat Nat Empty) :=
  [.subscribe 1, .on .identity (.next 10), .subscribe 2, .on .identity .completed, .proceed]

theorem run_replays_joined :
    (Dispatching.machine.outputs ⟨(init 0 : BehaviorSubject Nat Nat Empty), []⟩ joined).Perm
      [.delivered (1, .next 0), .delivered (1, .next 10), .delivered (2, .next 10),
        .delivered (1, .completed), .delivered (2, .completed)] := by
  have hb : subscriptions joined < UInt64.size := by decide
  have hp := (run_replays 0 hb).1
  rwa [show (Dispatching.machine.run ⟨(init 0 : BehaviorSubject Nat Nat Empty), []⟩ joined).due = []
    from rfl, List.append_nil] at hp

end BehaviorSubject
end Karupasu.RxSwift
