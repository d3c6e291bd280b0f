import Karupasu.RxSwift.Subjects

/-!
# The publish subject

It remembers no element and forgets its observers when it ends. A stop event that is sent after the
disposal is what later observers are told.
-/
namespace Karupasu.RxSwift

open Karupasu.Library

variable {ρ E F : Type}

structure PublishSubject (ρ E F : Type) where
  isDisposed : Bool
  observers : Bag ρ
  stopped : Bool
  stoppedEvent : Option (Event E F)

namespace PublishSubject

def init : PublishSubject ρ E F :=
  { isDisposed := false, observers := .init, stopped := false, stoppedEvent := none }

def synchronizedOn (subject : PublishSubject ρ E F) (event : Event E F) :
    Bag ρ × PublishSubject ρ E F :=
  match event with
  | .next _ =>
    if subject.isDisposed || subject.stopped then (.init, subject)
    else (subject.observers, subject)
  | .completed | .error _ =>
    if subject.stoppedEvent.isNone then
      (subject.observers,
        { subject with stoppedEvent := some event, stopped := true,
                       observers := subject.observers.removeAll })
    else (.init, subject)

def synchronizedSubscribe (subject : PublishSubject ρ E F) (observer : ρ) :
    Subscribed (PublishSubject ρ E F) E F :=
  match subject.stoppedEvent with
  | some stoppedEvent => { disposeKey := none, reply := some stoppedEvent, subject := subject }
  | none =>
    if subject.isDisposed then
      { disposeKey := none, reply := some (.error .disposed), subject := subject }
    else
      let (key, observers) := subject.observers.insert observer
      { disposeKey := some key, reply := none, subject := { subject with observers := observers } }

def synchronizedUnsubscribe (subject : PublishSubject ρ E F) (disposeKey : BagKey) :
    Option (PublishSubject ρ E F) :=
  (subject.observers.removeKey disposeKey).map fun (_, observers) =>
    { subject with observers := observers }

def dispose (subject : PublishSubject ρ E F) : PublishSubject ρ E F :=
  { subject with isDisposed := true, observers := subject.observers.removeAll,
                 stoppedEvent := none }

instance : Subject (PublishSubject ρ E F) ρ E F where
  synchronizedOn := synchronizedOn
  synchronizedSubscribe := synchronizedSubscribe
  synchronizedUnsubscribe := synchronizedUnsubscribe
  dispose := dispose

/-- A stop event outlasts the disposal, if it comes after it. -/
def status (subject : PublishSubject ρ E F) : Topic.Status E F :=
  match subject.stoppedEvent with
  | some event => .ended event
  | none => if subject.isDisposed then .disposed else .active

structure Follows (subject : PublishSubject ρ E F) (topic : Topic ρ E F) : Prop where
  observers : subject.observers.Represents topic.registry
  current : topic.current = none
  status : topic.status = subject.status
  stopped : subject.stopped = true → subject.stoppedEvent.isSome ∨ subject.isDisposed
  closed : topic.status ≠ .active → topic.registry.live = []
  ended : subject.stoppedEvent.isSome → subject.stopped = true

theorem follows_init : (init : PublishSubject ρ E F).Follows (.opened none) :=
  ⟨Bag.represents_init, rfl, rfl, fun h => absurd h Bool.false_ne_true, fun h => absurd rfl h,
    fun h => absurd h Bool.false_ne_true⟩

variable {subject : PublishSubject ρ E F} {topic : Topic ρ E F}

/-- The three states of the flags. -/
theorem Follows.cases (h : subject.Follows topic) :
    (topic.status = .active ∧ subject.stoppedEvent = none ∧ subject.isDisposed = false ∧
      subject.stopped = false) ∨
    (topic.status = .disposed ∧ subject.stoppedEvent = none ∧ subject.isDisposed = true) ∨
    (∃ event, topic.status = .ended event ∧ subject.stoppedEvent = some event ∧
      subject.stopped = true) := by
  rw [h.status, PublishSubject.status]
  cases hs : subject.stoppedEvent with
  | some event => exact Or.inr (Or.inr ⟨event, rfl, rfl, h.ended (by rw [hs]; rfl)⟩)
  | none =>
    cases hd : subject.isDisposed with
    | true => exact Or.inr (Or.inl ⟨rfl, rfl, rfl⟩)
    | false =>
      refine Or.inl ⟨rfl, rfl, rfl, ?_⟩
      by_contra hstop
      have hor := h.stopped (by simpa using hstop)
      simp [hs, hd] at hor

theorem synchronizedOn_stop {event : Event E F} (he : event.isStopEvent = true) :
    subject.synchronizedOn event =
      if subject.stoppedEvent.isNone then
        (subject.observers,
          { subject with stoppedEvent := some event, stopped := true,
                         observers := subject.observers.removeAll })
      else (.init, subject) := by
  cases event with
  | next element => cases he
  | error error => rfl
  | completed => rfl

/-- A stopped or disposed subject sends to nobody. -/
theorem Follows.dispatch (h : subject.Follows topic) (hs : topic.status ≠ .active)
    (order : HashOrder (Bag.Entry ρ)) : subject.observers.dispatch order = [] := by
  have hp := h.observers.dispatch order
  rw [h.closed hs] at hp
  exact List.perm_nil.mp hp

theorem Follows.stop (h : subject.Follows topic) {event : Event E F} :
    ({ subject with stoppedEvent := some event, stopped := true,
                    observers := subject.observers.removeAll } : PublishSubject ρ E F).Follows
      (topic.stop (.ended event)) where
  observers := h.observers.removeAll
  current := h.current
  status := rfl
  stopped _ := Or.inl rfl
  closed _ := rfl
  ended _ := rfl

theorem follows_on (h : subject.Follows topic) (event : Event E F) :
    (subject.synchronizedOn event).2.Follows (topic.on event).2 ∧
      ∀ order, ((subject.synchronizedOn event).1.dispatch order).Perm (topic.on event).1 := by
  cases he : event.isStopEvent with
  | false =>
    cases event with
    | error error => cases he
    | completed => cases he
    | next element =>
      obtain ⟨hs, _, hd, hstop⟩ | ⟨hs, _, hd⟩ | ⟨first, hs, _, hstop⟩ := h.cases
      · rw [Topic.on_next_forgetful hs h.current]
        simp only [synchronizedOn, hd, hstop, Bool.or_self, Bool.false_eq_true, if_false]
        exact ⟨h, h.observers.dispatch⟩
      · rw [Topic.on_next_of_ne (by simp [hs])]
        simp only [synchronizedOn, hd, Bool.true_or, if_true]
        exact ⟨h, fun _ => List.Perm.refl _⟩
      · rw [Topic.on_next_of_ne (by simp [hs])]
        simp only [synchronizedOn, hstop, Bool.or_true, if_true]
        exact ⟨h, fun _ => List.Perm.refl _⟩
  | true =>
    rw [synchronizedOn_stop he]
    obtain ⟨hs, hn, _⟩ | ⟨hs, hn, _⟩ | ⟨first, hs, hn, _⟩ := h.cases
    · rw [Topic.on_stop hs he, hn]
      exact ⟨h.stop, h.observers.dispatch⟩
    · rw [Topic.on_stop_disposed hs he, h.current, hn]
      refine ⟨h.stop, fun order => ?_⟩
      show (subject.observers.dispatch order).Perm []
      rw [h.dispatch (by simp [hs])]
    · rw [Topic.on_stop_ended hs he, hn]
      exact ⟨h, fun _ => List.Perm.refl _⟩

theorem follows_subscribe (h : subject.Follows topic) (hb : topic.registry.issued + 1 < UInt64.size)
    (observer : ρ) :
    (subject.synchronizedSubscribe observer).subject.Follows (topic.subscribe observer).2 ∧
      (subject.synchronizedSubscribe observer).reply = (topic.subscribe observer).1 := by
  unfold synchronizedSubscribe Topic.subscribe
  obtain ⟨hs, hn, hd, hstop⟩ | ⟨hs, hn, hd⟩ | ⟨first, hs, hn, _⟩ := h.cases
  · simp only [hs, hn, hd, Bool.false_eq_true, if_false, h.current, Option.map_none]
    refine ⟨⟨h.observers.insert hb observer, rfl, ?_, ?_, ?_, ?_⟩, trivial⟩
    · rfl
    · intro ht
      exact absurd (hstop.symm.trans ht) Bool.false_ne_true
    · intro hne
      exact absurd rfl hne
    · intro ht
      exact absurd ht Bool.false_ne_true
  · simp only [hs, hn, hd, if_true]
    exact ⟨h, trivial⟩
  · simp only [hs, hn]
    exact ⟨h, trivial⟩

theorem removeKey_live_eq_nil {registry : Registry ρ} (h : registry.live = []) (key : BagKey) :
    (registry.removeKey key).2.live = [] := by
  unfold Registry.removeKey
  rw [h]
  exact h

theorem follows_unsubscribe (h : subject.Follows topic) (key : BagKey) :
    ∃ subject', subject.synchronizedUnsubscribe key = some subject' ∧
      subject'.Follows (topic.unsubscribe key) := by
  obtain ⟨observers, he, hr⟩ := h.observers.removeKey key
  refine ⟨{ subject with observers := observers }, ?_, hr, h.current, h.status, h.stopped,
    fun hs => removeKey_live_eq_nil (h.closed hs) key, h.ended⟩
  rw [synchronizedUnsubscribe, he]
  rfl

/-- A subject that was stopped before keeps its flag. -/
theorem follows_dispose (h : subject.Follows topic) :
    subject.dispose.Follows (topic.stop .disposed) where
  observers := h.observers.removeAll
  current := h.current
  status := rfl
  stopped _ := Or.inr rfl
  closed _ := rfl
  ended hs := absurd hs Bool.false_ne_true

theorem follows : Subject.Follows (S := PublishSubject ρ E F) Follows where
  on := follows_on
  subscribe := follows_subscribe
  unsubscribe := follows_unsubscribe
  dispose := follows_dispose

/-- Each event sent reaches each observer subscribed at that time once, however the calls of the
subject are nested; where nothing is sent to an observer that still waits, in the order of sending.
Nothing traps. -/
theorem run_publishes [DecidableEq ρ] {uses : List (Use ρ E F)}
    (hb : subscriptions uses < UInt64.size) :
    (Dispatching.machine.outputs ⟨(init : PublishSubject ρ E F), []⟩ uses ++
        (Dispatching.machine.run ⟨(init : PublishSubject ρ E F), []⟩ uses).due).Perm
      (Topic.machine.outputs (.opened none) uses) ∧
    (Dispatching.machine.Along Dispatching.Calm ⟨(init : PublishSubject ρ E F), []⟩ uses →
      SameFor Dispatching.recipient
        (Dispatching.machine.outputs ⟨(init : PublishSubject ρ E F), []⟩ uses ++
          (Dispatching.machine.run ⟨(init : PublishSubject ρ E F), []⟩ uses).due)
        (Topic.machine.outputs (.opened none) uses)) := by
  have hissued : (Topic.opened none : Topic ρ E F).registry.issued + subscriptions uses < UInt64.size := by
    rw [show (Topic.opened none : Topic ρ E F).registry.issued = 0 from rfl]
    omega
  exact ⟨(Dispatching.run_follows follows follows_init hissued).2,
    Dispatching.run_inOrder follows follows_init hissued⟩

/-- The first observer sends the second event before the other observer is told the first. -/
def nested : List (Use Nat Nat Empty) :=
  [.subscribe 1, .subscribe 2, .on .identity (.next 10), .on .identity (.next 20), .proceed,
    .proceed]

theorem run_publishes_nested :
    (Dispatching.machine.outputs ⟨(init : PublishSubject Nat Nat Empty), []⟩ nested).Perm
      [.delivered (1, .next 10), .delivered (2, .next 10), .delivered (1, .next 20),
        .delivered (2, .next 20)] := by
  have hb : subscriptions nested < UInt64.size := by decide
  have hp := (run_publishes hb).1
  rwa [show (Dispatching.machine.run ⟨(init : PublishSubject Nat Nat Empty), []⟩ nested).due = []
    from rfl, List.append_nil] at hp

end PublishSubject
end Karupasu.RxSwift
