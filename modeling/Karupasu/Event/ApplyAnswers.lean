import Karupasu.Event.ApplyRequests
import Karupasu.Library.Tickets

/-!
# The answers to a confirmation

The requests of one confirmation are answered one at a time, in any order. Both functions
of `EventModel` turn a failure into `false`; the sheet reports success for either value,
after each of them.
-/
namespace Karupasu.EventModel

/-- How a request ends: the provider validates nothing, so any status code is a response. -/
inductive Answer where
  | response (statusCode : Int)
  | error
  deriving DecidableEq

/-- An event of the observable behind a request. -/
inductive RxEvent where
  | next (statusCode : Int)
  | error
  | completed

/-- The status code of `event.element`. -/
def RxEvent.element : RxEvent → Option Int
  | .next statusCode => some statusCode
  | .error | .completed => none

def Answer.events : Answer → List RxEvent
  | .response statusCode => [.next statusCode, .completed]
  | .error => [.error]

/-- `subscribe { (response) in … }` runs for every event; the `Single` takes the first call
of its observer. -/
def applyEvent (answer : Answer) : Option Bool :=
  (answer.events.map fun response => response.element == some 200).head?

/-- `subscribe { (response) in … } onError: { … }` -/
def cancelEvent (answer : Answer) : Option Bool :=
  (answer.events.filterMap fun
    | .next statusCode => some (statusCode == 200)
    | .error => some false
    | .completed => none).head?

/-- The two forms of `subscribe` agree. -/
theorem applyEvent_eq_cancelEvent (answer : Answer) : applyEvent answer = cancelEvent answer := by
  cases answer <;> rfl

theorem cancelEvent_eq (answer : Answer) :
    cancelEvent answer = some (decide (answer = .response 200)) := by
  cases answer with
  | response statusCode => simp [cancelEvent, Answer.events, beq_eq_decide]
  | error => rfl

end Karupasu.EventModel

namespace Karupasu.Event.ApplySheet

open Karupasu.Library
open Karupasu.EventModel (Event Answer applyEvent cancelEvent)
open Karupasu.PrefectureModel (Prefecture)

inductive Request where
  | apply
  | cancel
  deriving DecidableEq

def requestOf : Effect → Option Request
  | .applyEvent _ _ => some .apply
  | .cancelEvent _ _ => some .cancel
  | _ => none

/-- What the subscription of the sheet gets for an answer. -/
def Request.outcome : Request → Answer → Option Bool
  | .apply, answer => applyEvent answer
  | .cancel, answer => cancelEvent answer

theorem outcome_eq (request : Request) (answer : Answer) :
    request.outcome answer = some (decide (answer = .response 200)) := by
  cases request with
  | apply =>
    exact (EventModel.applyEvent_eq_cancelEvent answer).trans (EventModel.cancelEvent_eq answer)
  | cancel => exact EventModel.cancelEvent_eq answer

/-- The two lists of ids a confirmation compares. -/
structure Comparison where
  selected : List Int
  old : List Int
  deriving DecidableEq

/-- A request in flight, with the number of the confirmation that sent it. -/
structure Sent where
  tap : Nat
  request : Request
  deriving DecidableEq

/-- What the confirmations of a sheet have led to. -/
structure Log where
  /-- The confirmations with a current event. -/
  taps : List Comparison
  /-- The apply and cancel requests in flight, in the order of `applying`. -/
  waiting : List Sent
  /-- The answers so far, each with its confirmation. -/
  answered : List (Nat × Answer)
  /-- The confirmations for which `success` was emitted, once for each time. -/
  successes : List Nat

def Log.empty : Log := ⟨[], [], [], []⟩

def Input.isApplyAnswer : Input → Bool
  | .applyAnswer _ _ => true
  | _ => false

/-- Inputs of the sheet, with the answers to its requests as the server gives them. -/
inductive Action where
  | sheet (i : { i : Input // i.isApplyAnswer = false })
  | requestAnswer (index : Nat) (answer : Answer)

def isSuccess : Effect → Bool
  | .success _ => true
  | _ => false

/-- A confirmation with a current event issues the requests among its effects. -/
def Log.issue (log : Log) (s : State) (i : Input) (effects : List Effect) : Log :=
  match i, s.currenEvent with
  | .tapConfirm, some _ =>
    { log with
      taps := log.taps ++ [⟨s.selectedOption.map (·.id), s.oldOption.map (·.id)⟩]
      waiting := log.waiting ++ (effects.filterMap requestOf).map fun request =>
        ⟨log.taps.length, request⟩ }
  | _, _ => log

def Log.settle (log : Log) (index tap : Nat) (answer : Answer) (effects : List Effect) : Log :=
  { log with
    waiting := log.waiting.eraseIdx index
    answered := log.answered ++ [(tap, answer)]
    successes := log.successes ++ List.replicate (effects.countP isSuccess) tap }

section

variable (δ : Differ Int)

/-- The sheet with `EventModel` and the server behind it. -/
def answeredStep (p : State × Log) : Action → (State × Log) × List Effect
  | .sheet i =>
    let r := step δ p.1 i.1
    ((r.1, p.2.issue p.1 i.1 r.2), r.2)
  | .requestAnswer index answer =>
    match p.2.waiting[index]? with
    | some sent =>
      match sent.request.outcome answer with
      | some outcome =>
        let r := step δ p.1 (.applyAnswer index outcome)
        ((r.1, p.2.settle index sent.tap answer r.2), r.2)
      | none => (p, [])
    | none => (p, [])

def answeredMachine : Machine (State × Log) Action Effect := ⟨answeredStep δ⟩

end

/-- What `success` is to say of a confirmation. -/
structure Reported (log : Log) (tap : Nat) : Prop where
  once : log.successes.count tap ≤ 1
  complete : tap ∈ log.successes → ∀ sent ∈ log.waiting, sent.tap ≠ tap
  accepted : tap ∈ log.successes → ∀ answer, (tap, answer) ∈ log.answered → answer = .response 200

/-- An answer is a status 200, and to a confirmation of lists that are one change apart. -/
def Accepts (p : State × Log) : Action → Prop
  | .sheet _ => True
  | .requestAnswer index answer =>
    ∀ sent, p.2.waiting[index]? = some sent →
      answer = .response 200 ∧
        ∀ c, p.2.taps[sent.tap]? = some c → Script.OneApart c.old c.selected

/-! ## The requests of each confirmation -/

theorem length_requests (event : Event) (d : Script Int) :
    ((d.changes.map (requestFor event)).filterMap requestOf).length = d.size := by
  rw [map_requestFor]
  simp [List.filterMap_map, Function.comp_def, requestOf, Script.size]

section

variable (δ : Differ Int)

/-- How many requests a confirmation has sent. -/
def issued (taps : List Comparison) (tap : Nat) : Nat :=
  match taps[tap]? with
  | some c => (δ.difference c.selected c.old).size
  | none => 0

theorem issued_concat (taps : List Comparison) (c : Comparison) (tap : Nat) :
    issued δ (taps ++ [c]) tap =
      issued δ taps tap +
        if tap = taps.length then (δ.difference c.selected c.old).size else 0 := by
  unfold issued
  rcases Nat.lt_trichotomy tap taps.length with hlt | rfl | hgt
  · rw [List.getElem?_append_left hlt, if_neg (by omega)]
    rfl
  · rw [List.getElem?_concat_length, List.getElem?_eq_none (Nat.le_refl _), if_pos rfl]
    exact (Nat.zero_add _).symm
  · rw [List.getElem?_eq_none (by rw [List.length_append]; exact hgt),
      List.getElem?_eq_none (by omega), if_neg (by omega)]

/-- Each request sent is in flight or has been followed by a `success`, once. -/
structure Logged (p : State × Log) : Prop where
  parallel : p.2.waiting.length = p.1.applying.length
  settled : p.2.successes = p.2.answered.map Prod.fst
  balance : ∀ tap, (p.2.waiting.map (·.tap)).count tap + p.2.successes.count tap =
    issued δ p.2.taps tap

/-- The requests in flight change by confirmations and answers only. -/
theorem applying_next (s : State) {i : Input} (ha : i.isApplyAnswer = false)
    (ht : i ≠ .tapConfirm) : ((machine δ).next s i).applying = s.applying := by
  cases i with
  | applyAnswer index isSuccess => cases ha
  | tapConfirm => exact absurd rfl ht
  | showApply event => simp only [Machine.next, machine, step, showApply_eq]
  | pickerSelect items => rfl
  | pickerConfirm =>
    simp only [Machine.next, machine, step, emitSelectOption_eq, emitConfirmOption_eq]
  | detailsAnswer index event =>
    simp only [Machine.next, machine]
    rcases detailsAnswer_cases δ s index event with
      ⟨-, hs⟩ | ⟨-, -, hs⟩ | ⟨e, eventId, -, -, hs⟩ | ⟨e, eventId, -, -, hs⟩ <;> rw [hs]
    rw [emitSelectOption_eq]
  | prefecturesAnswer items order =>
    simp only [Machine.next, machine]
    rcases prefecturesAnswer_cases δ s items order with ⟨-, hs⟩ | ⟨ps, -, -, hs⟩ <;> rw [hs]
  | _ =>
    simp only [Machine.next, machine, step]
    split <;> rfl

/-- What a confirmation of two lists adds: a request for each change between them. -/
structure Issues (p q : State × Log) (c : Comparison) (requests : List Request) : Prop where
  taps : q.2.taps = p.2.taps ++ [c]
  waiting : q.2.waiting = p.2.waiting ++ requests.map fun request => ⟨p.2.taps.length, request⟩
  applying : q.1.applying.length = p.1.applying.length + requests.length
  length_requests : requests.length = (δ.difference c.selected c.old).size
  answered : q.2.answered = p.2.answered
  successes : q.2.successes = p.2.successes

/-- An input of the sheet is a confirmation of an event, or leaves the log as it is. -/
theorem next_sheet_cases (p : State × Log) (i : { i : Input // i.isApplyAnswer = false }) :
    let q := (answeredMachine δ).next p (.sheet i)
    (q.2 = p.2 ∧ q.1.applying = p.1.applying) ∨ ∃ c requests, Issues δ p q c requests := by
  intro q
  by_cases ht : i.1 = .tapConfirm
  · cases he : p.1.currenEvent with
    | none =>
      simp only [q, answeredMachine, Machine.next, answeredStep, ht, Log.issue, step, tapConfirm,
        he]
      exact .inl ⟨trivial, trivial⟩
    | some event =>
      let c : Comparison := ⟨p.1.selectedOption.map (·.id), p.1.oldOption.map (·.id)⟩
      let d := δ.difference c.selected c.old
      refine .inr ⟨c, (d.changes.map (requestFor event)).filterMap requestOf, ?_⟩
      simp only [q, answeredMachine, Machine.next, answeredStep, ht, Log.issue, step, tapConfirm,
        he]
      refine ⟨rfl, rfl, ?_, length_requests event d, rfl, rfl⟩
      rw [length_requests event d, List.length_append, List.length_map]
      simp [d, c, Script.changes, Script.size]
  · refine .inl ⟨?_, applying_next δ p.1 i.2 ht⟩
    show p.2.issue p.1 i.1 _ = p.2
    unfold Log.issue
    split
    · exact absurd ‹_› ht
    · rfl

/-- The log after an answer, which `success` has followed. -/
def Log.succeed (log : Log) (index tap : Nat) (answer : Answer) : Log :=
  { log with
    waiting := log.waiting.eraseIdx index
    answered := log.answered ++ [(tap, answer)]
    successes := log.successes ++ [tap] }

/-- An answer is followed by `success`, whatever it says. -/
theorem next_requestAnswer {p : State × Log} (hp : p.2.waiting.length = p.1.applying.length)
    {index : Nat} {sent : Sent} (hget : p.2.waiting[index]? = some sent) (answer : Answer) :
    (answeredMachine δ).next p (.requestAnswer index answer) =
      ({ p.1 with applying := p.1.applying.eraseIdx index },
        p.2.succeed index sent.tap answer) := by
  have hlt : index < p.1.applying.length := by
    obtain ⟨hlt, -⟩ := List.getElem?_eq_some_iff.mp hget
    omega
  have happly : p.1.applying[index]? = some p.1.applying[index] := List.getElem?_eq_getElem hlt
  simp only [answeredMachine, Machine.next, answeredStep, hget, outcome_eq, step, happly,
    Log.settle]
  rfl

theorem next_requestAnswer_none {p : State × Log} {index : Nat}
    (hget : p.2.waiting[index]? = none) (answer : Answer) :
    (answeredMachine δ).next p (.requestAnswer index answer) = p := by
  simp only [answeredMachine, Machine.next, answeredStep, hget]

theorem Logged.issues {p q : State × Log} (hp : Logged δ p) {c : Comparison}
    {requests : List Request} (hi : Issues δ p q c requests) : Logged δ q := by
  refine ⟨?_, ?_, fun tap => ?_⟩
  · have hpar := hp.parallel
    rw [hi.waiting, hi.applying, List.length_append, List.length_map]
    omega
  · rw [hi.answered, hi.successes]
    exact hp.settled
  · have hb := hp.balance tap
    rw [hi.waiting, hi.successes, hi.taps, issued_concat, ← hi.length_requests, List.map_append,
      List.map_map, List.count_append]
    have hc : (requests.map ((·.tap) ∘ fun request => (⟨p.2.taps.length, request⟩ : Sent))) =
        List.replicate requests.length p.2.taps.length := List.map_const'
    rw [hc, List.count_replicate]
    by_cases htap : tap = p.2.taps.length
    · rw [if_pos htap, if_pos (by simp [htap])]
      omega
    · rw [if_neg htap, if_neg (by simpa using fun h => htap h.symm)]
      omega

theorem logged_requestAnswer {p : State × Log} (hp : Logged δ p) (index : Nat)
    (answer : Answer) : Logged δ ((answeredMachine δ).next p (.requestAnswer index answer)) := by
  cases hget : p.2.waiting[index]? with
  | none =>
    rw [next_requestAnswer_none δ hget]
    exact hp
  | some sent =>
    rw [next_requestAnswer δ hp.parallel hget]
    have hpar := hp.parallel
    obtain ⟨hlt, -⟩ := List.getElem?_eq_some_iff.mp hget
    refine ⟨?_, ?_, fun tap => ?_⟩
    · show (p.2.waiting.eraseIdx index).length = (p.1.applying.eraseIdx index).length
      rw [List.length_eraseIdx_of_lt hlt, List.length_eraseIdx_of_lt (hpar ▸ hlt), hpar]
    · show p.2.successes ++ [sent.tap] = (p.2.answered ++ [(sent.tap, answer)]).map Prod.fst
      rw [List.map_append, hp.settled]
      rfl
    · have hb := hp.balance tap
      have hc := count_map_eraseIdx (fun sent : Sent => sent.tap) hget tap
      show ((p.2.waiting.eraseIdx index).map (·.tap)).count tap +
        (p.2.successes ++ [sent.tap]).count tap = issued δ p.2.taps tap
      rw [List.count_append]
      omega

theorem logged_step (p : State × Log) (a : Action) (hp : Logged δ p) :
    Logged δ ((answeredMachine δ).next p a) := by
  cases a with
  | requestAnswer index answer => exact logged_requestAnswer δ hp index answer
  | sheet i =>
    obtain ⟨hlog, happly⟩ | ⟨c, requests, hi⟩ := next_sheet_cases δ p i
    · refine ⟨?_, ?_, ?_⟩
      · rw [hlog, happly]
        exact hp.parallel
      · rw [hlog]
        exact hp.settled
      · rw [hlog]
        exact hp.balance
    · exact hp.issues δ hi

/-! ## The log misses no success -/

theorem countP_emitSelectOption (s : State) : (emitSelectOption s).2.countP isSuccess = 0 := by
  rw [emitSelectOption_eq]
  dsimp only
  split <;> rfl

theorem countP_emit (s : State) {i : Input} (ha : i.isApplyAnswer = false) :
    ((machine δ).emit s i).countP isSuccess = 0 := by
  cases i with
  | applyAnswer index isSuccess => cases ha
  | showApply event =>
    simp only [Machine.emit, machine, step, showApply_eq]
    simp [List.countP_eq_zero, isSuccess]
  | tapConfirm =>
    simp only [Machine.emit, machine, step, tapConfirm]
    split
    · rw [map_requestFor]
      simp [List.countP_eq_zero, isSuccess]
    · rfl
  | pickerSelect items => rfl
  | pickerConfirm => exact countP_emitSelectOption s
  | detailsAnswer index event =>
    simp only [Machine.emit, machine]
    rcases detailsAnswer_cases δ s index event with
      ⟨-, hs⟩ | ⟨-, -, hs⟩ | ⟨e, eventId, -, -, hs⟩ | ⟨e, eventId, -, -, hs⟩ <;> rw [hs]
    · rfl
    · rfl
    · rfl
    · exact countP_emitSelectOption _
  | prefecturesAnswer items order =>
    simp only [Machine.emit, machine]
    rcases prefecturesAnswer_cases δ s items order with ⟨-, hs⟩ | ⟨ps, -, -, hs⟩ <;> rw [hs] <;> rfl
  | _ =>
    simp only [Machine.emit, machine, step]
    split <;> rfl

theorem length_successes_next (p : State × Log) (a : Action) :
    ((answeredMachine δ).next p a).2.successes.length =
      p.2.successes.length + ((answeredMachine δ).emit p a).countP isSuccess := by
  cases a with
  | sheet i =>
    have hz : ((answeredMachine δ).emit p (.sheet i)).countP isSuccess = 0 := countP_emit δ p.1 i.2
    rw [hz]
    obtain ⟨hlog, -⟩ | ⟨c, requests, hi⟩ := next_sheet_cases δ p i
    · rw [hlog]
      rfl
    · rw [hi.successes]
      rfl
  | requestAnswer index answer =>
    simp only [Machine.next, Machine.emit, answeredMachine, answeredStep]
    split
    · split
      · exact List.length_append.trans (congrArg _ List.length_replicate)
      · rfl
    · rfl

/-- Each `success` of a run is in the log. -/
theorem length_successes_run (p : State × Log) (actions : List Action) :
    ((answeredMachine δ).run p actions).2.successes.length =
      p.2.successes.length + ((answeredMachine δ).outputs p actions).countP isSuccess := by
  induction actions generalizing p with
  | nil => rfl
  | cons a actions ih =>
    have hnext := length_successes_next δ p a
    rw [Machine.run_cons, Machine.outputs_cons, List.countP_append, ih, hnext]
    omega

/-! ## When success is right -/

theorem lt_taps_of_mem_successes {p : State × Log} (hp : Logged δ p) {tap : Nat}
    (h : tap ∈ p.2.successes) : tap < p.2.taps.length := by
  by_contra hge
  have hb := hp.balance tap
  have hpos := List.count_pos_iff.mpr h
  have hz : issued δ p.2.taps tap = 0 := by
    unfold issued
    rw [List.getElem?_eq_none (by omega)]
  omega

/-- Neither a confirmation nor any other input of the sheet speaks of an earlier one. -/
theorem reported_sheet {p : State × Log} (hp : Logged δ p)
    (hr : ∀ tap, Reported p.2 tap) (i : { i : Input // i.isApplyAnswer = false }) (tap : Nat) :
    Reported ((answeredMachine δ).next p (.sheet i)).2 tap := by
  obtain ⟨hlog, -⟩ | ⟨c, requests, hi⟩ := next_sheet_cases δ p i
  · rw [hlog]
    exact hr tap
  · refine ⟨?_, fun hm sent hsent => ?_, fun hm => ?_⟩
    · rw [hi.successes]
      exact (hr tap).once
    · rw [hi.successes] at hm
      rw [hi.waiting] at hsent
      rcases List.mem_append.mp hsent with hsent | hsent
      · exact (hr tap).complete hm sent hsent
      · obtain ⟨request, -, rfl⟩ := List.mem_map.mp hsent
        exact (lt_taps_of_mem_successes δ hp hm).ne'
    · rw [hi.successes] at hm
      rw [hi.answered]
      exact (hr tap).accepted hm

/-- An answer to one confirmation says nothing of another. -/
theorem Reported.of_ne {log : Log} {tap other : Nat} (hr : Reported log tap) (hne : tap ≠ other)
    (index : Nat) (answer : Answer) : Reported (log.succeed index other answer) tap := by
  have hold : tap ∈ log.successes ++ [other] → tap ∈ log.successes := by
    intro hm
    rcases List.mem_append.mp hm with hm | hm
    · exact hm
    · exact absurd (List.mem_singleton.mp hm) hne
  refine ⟨?_, fun hm sent hsent => ?_, fun hm answer' hm' => ?_⟩
  · have hz : [other].count tap = 0 := by
      rw [List.count_eq_zero]
      simpa using hne
    have honce := hr.once
    simp only [Log.succeed, List.count_append]
    omega
  · exact hr.complete (hold hm) sent (List.mem_of_mem_eraseIdx hsent)
  · rcases List.mem_append.mp hm' with hm' | hm'
    · exact hr.accepted (hold hm) answer' hm'
    · rw [List.mem_singleton, Prod.mk.injEq] at hm'
      exact absurd hm'.1 hne

/-- Of its own confirmation it is right exactly if it is a status 200, and the only answer. -/
theorem reported_succeed_iff {p : State × Log} (hp : Logged δ p) {index : Nat} {sent : Sent}
    (hget : p.2.waiting[index]? = some sent) (answer : Answer) :
    Reported (p.2.succeed index sent.tap answer) sent.tap ↔
      answer = .response 200 ∧ issued δ p.2.taps sent.tap = 1 := by
  have hb := hp.balance sent.tap
  have hc := count_map_eraseIdx (fun sent : Sent => sent.tap) hget sent.tap
  rw [List.count_singleton_self] at hc
  constructor
  · rintro ⟨honce, hcomplete, haccepted⟩
    have hm : sent.tap ∈ p.2.successes ++ [sent.tap] := by simp
    refine ⟨haccepted hm answer (by simp [Log.succeed]), ?_⟩
    have hz : ((p.2.waiting.eraseIdx index).map (·.tap)).count sent.tap = 0 := by
      rw [List.count_eq_zero, List.mem_map]
      rintro ⟨other, hother, htap⟩
      exact hcomplete hm other hother htap
    simp only [Log.succeed, List.count_append, List.count_singleton_self] at honce
    omega
  · rintro ⟨ha, h1⟩
    have hs : p.2.successes.count sent.tap = 0 := by omega
    refine ⟨?_, fun _ other hother he => ?_, fun _ answer' hm => ?_⟩
    · simp only [Log.succeed, List.count_append, List.count_singleton_self]
      omega
    · have hz : ((p.2.waiting.eraseIdx index).map (·.tap)).count sent.tap = 0 := by omega
      exact List.count_eq_zero.mp hz (List.mem_map.mpr ⟨other, hother, he⟩)
    · rcases List.mem_append.mp hm with hm | hm
      · -- an earlier answer would have been followed by a `success`
        rw [hp.settled] at hs
        exact absurd (List.mem_map_of_mem (f := Prod.fst) hm) (List.count_eq_zero.mp hs)
      · rw [List.mem_singleton, Prod.mk.injEq] at hm
        exact hm.2.trans ha

theorem reported_requestAnswer_iff {p : State × Log} (hp : Logged δ p)
    (hr : ∀ tap, Reported p.2 tap) {index : Nat} {sent : Sent}
    (hget : p.2.waiting[index]? = some sent) (answer : Answer) :
    (∀ tap, Reported ((answeredMachine δ).next p (.requestAnswer index answer)).2 tap) ↔
      answer = .response 200 ∧ issued δ p.2.taps sent.tap = 1 := by
  rw [next_requestAnswer δ hp.parallel hget, ← reported_succeed_iff δ hp hget answer]
  constructor
  · exact fun h => h sent.tap
  · intro h tap
    by_cases htap : tap = sent.tap
    · rw [htap]
      exact h
    · exact (hr tap).of_ne htap index answer

theorem accepts_iff {p : State × Log} (hp : Logged δ p) {index : Nat} {sent : Sent}
    (hget : p.2.waiting[index]? = some sent) (answer : Answer) :
    Accepts p (.requestAnswer index answer) ↔
      answer = .response 200 ∧ issued δ p.2.taps sent.tap = 1 := by
  have hpos : 0 < issued δ p.2.taps sent.tap := by
    have hb := hp.balance sent.tap
    have hm : sent.tap ∈ p.2.waiting.map (·.tap) :=
      List.mem_map_of_mem (List.mem_of_getElem? hget)
    have hc := List.count_pos_iff.mpr hm
    omega
  unfold issued at hpos ⊢
  cases hc : p.2.taps[sent.tap]? with
  | none =>
    rw [hc] at hpos
    exact absurd hpos (Nat.lt_irrefl 0)
  | some c =>
    have h1 := (δ.minimal c.selected c.old).size_eq_one_iff
    constructor
    · intro h
      obtain ⟨ha, hone⟩ := h sent hget
      exact ⟨ha, h1.mpr (hone c hc)⟩
    · rintro ⟨ha, hsize⟩ other hother
      rw [hget] at hother
      cases hother
      refine ⟨ha, fun c' hc' => ?_⟩
      rw [hc] at hc'
      cases hc'
      exact h1.mp hsize

/-- Along every run, success is reported as it should be if and only if every answer is a
status 200 to a confirmation that had one request to send. -/
theorem success_reported_iff (prefectures : List Prefecture) (actions : List Action) :
    (answeredMachine δ).Always (fun p => ∀ tap, Reported p.2 tap)
        (start prefectures, Log.empty) actions ↔
      (answeredMachine δ).Along Accepts (start prefectures, Log.empty) actions := by
  have h0 : Logged δ (start prefectures, Log.empty) := ⟨rfl, rfl, fun tap => rfl⟩
  have hr : ∀ tap, Reported (start prefectures, Log.empty).2 tap := fun tap =>
    ⟨Nat.zero_le 1, fun h => absurd h List.not_mem_nil, fun h => absurd h List.not_mem_nil⟩
  refine (answeredMachine δ).always_iff_along_of_inv (fun p a hp => logged_step δ p a hp)
    (fun p a hp hr => ?_) h0 hr actions
  cases a with
  | sheet i => exact iff_of_true (reported_sheet δ hp hr i) trivial
  | requestAnswer index answer =>
    cases hget : p.2.waiting[index]? with
    | none =>
      rw [next_requestAnswer_none δ hget]
      refine iff_of_true hr fun sent hsent => ?_
      rw [hget] at hsent
      cases hsent
    | some sent =>
      rw [reported_requestAnswer_iff δ hp hr hget]
      exact (accepts_iff δ hp hget answer).symm

end

/-- Two prefectures are applied for at once; the first answer is a refusal. -/
def refused : List Action :=
  [.sheet ⟨.showApply (joinedEvent 5 []), rfl⟩,
    .sheet ⟨.detailsAnswer 0 (some (joinedEvent 5 [])), rfl⟩,
    .sheet ⟨.pickerSelect [⟨1, "Tokyo"⟩, ⟨2, "Osaka"⟩], rfl⟩, .sheet ⟨.pickerConfirm, rfl⟩,
    .sheet ⟨.tapConfirm, rfl⟩, .requestAnswer 0 (.response 400)]

/-- The sheet reports success after a refusal, with a request still in flight. -/
theorem refusal_is_success :
    let p := (answeredMachine .viaLongest).run
      (start [⟨1, "Tokyo"⟩, ⟨2, "Osaka"⟩], Log.empty) refused
    p.2.successes = [0] ∧ p.2.waiting = [⟨0, .apply⟩] ∧
      p.2.answered = [(0, .response 400)] ∧
      ¬(answeredMachine .viaLongest).Always (fun p => ∀ tap, Reported p.2 tap)
        (start [⟨1, "Tokyo"⟩, ⟨2, "Osaka"⟩], Log.empty) refused := by
  intro p
  have hs : p.2.successes = [0] := by decide
  have ha : p.2.answered = [(0, .response 400)] := by decide
  refine ⟨hs, by decide, ha, fun h => ?_⟩
  have hr := (h.last 0).accepted
  change 0 ∈ p.2.successes → ∀ answer, (0, answer) ∈ p.2.answered → answer = .response 200 at hr
  rw [hs, ha] at hr
  exact absurd (hr (by decide) (.response 400) (by decide)) (by decide)

end Karupasu.Event.ApplySheet
