import Karupasu.Library.Tickets
import Karupasu.Session.Operations

/-!
# The sign-in screens

`FirstTeamViewStream`, `LoginViewStream` and `RegistrationViewStream` over one
`UserModel`. What a screen subscribed to stands next to the request it waits for, and
each submission has a number, so that an outcome can be traced to its tap.
-/
namespace Karupasu.SignIn

open Karupasu.Library Karupasu.UserModel

inductive Screen where
  | firstTeam | login | registration
  deriving DecidableEq

/-- A tap that asks for an outcome. -/
structure Submission where
  screen : Screen
  number : Nat
  deriving DecidableEq

/-- The closures that wait for an answer of `UserModel`. -/
inductive Subscriber where
  /-- `FirstTeamViewStream` on `checkTeamId`. -/
  | checkTeamId (number : Nat)
  /-- `LoginViewStream` on `loginAccount`. -/
  | login (number : Nat)
  /-- `RegistrationViewStream` on `registerAccount`, with what the inner closure captures. -/
  | register (number : Nat) (mail pass : String)
  /-- `RegistrationViewStream` on the `loginAccount` after it. -/
  | registeredLogin (number : Nat)

def Subscriber.submission : Subscriber → Submission
  | checkTeamId number => ⟨.firstTeam, number⟩
  | login number => ⟨.login, number⟩
  | register number _ _ | registeredLogin number => ⟨.registration, number⟩

inductive Output where
  | next (number : Nat)
  | invalid (number : Nat) (message : String)
  | loginEnd (number : Nat)
  | loginShowError (number : Nat) (message : String)
  | registrationEnd (number : Nat)
  | registrationShowError (number : Nat) (message : String)
  /-- `login` of the registration screen. -/
  | login
  deriving DecidableEq

/-- The submission an output is the outcome of. -/
def Output.submission : Output → Option Submission
  | next number | invalid number _ => some ⟨.firstTeam, number⟩
  | loginEnd number | loginShowError number _ => some ⟨.login, number⟩
  | registrationEnd number | registrationShowError number _ => some ⟨.registration, number⟩
  | login => none

/-- The latest value of an edit relay, `none` before its first. -/
abbrev Latest := Option (Option String)

structure State where
  userModel : UserModel.State
  /-- Who waits for each request in flight, in the order of `userModel.pending`. -/
  subscribers : List (Option Subscriber)
  loginMailAddress : Latest
  loginPassword : Latest
  name : Latest
  mailAddress : Latest
  password : Latest
  submitted : Nat

inductive Input where
  | tapEnter (text : String)
  | loginEditMailAddress (text : Option String)
  | loginEditPassword (text : Option String)
  | loginTapLogin
  | editName (text : Option String)
  | editMailAddress (text : Option String)
  | editPassword (text : Option String)
  | tapRegistration
  | tapLogin
  /-- An answer, or a call of `UserModel` from elsewhere. -/
  | userModel (i : UserModel.Input)

/-- `UserModel` takes an input, and `w` subscribes to what is requested. -/
def call (s : State) (w : Option Subscriber) (i : UserModel.Input) : State × List Signal :=
  let r := act s.userModel i
  let subscribers := match i with
    | .answer index _ => s.subscribers.eraseIdx index
    | _ => s.subscribers ++ (started s.userModel i).toList.map fun _ => w
  ({ s with userModel := r.1, subscribers := subscribers }, r.2)

/-- The closures on one signal. `saveUserData` requests nothing and is always heard. -/
def receive (s : State) : Subscriber → Signal → State × List Output
  | .checkTeamId n, .onNext true => (s, [.next n])
  | .checkTeamId n, .onNext false => (s, [.invalid n "コードが無効です"])
  | .checkTeamId n, .onError => (s, [.invalid n "通信エラー"])
  | .login n, .onNext true => ((call s none .saveUserData).1, [.loginEnd n])
  | .login n, .onNext false => (s, [.loginShowError n "ログインに失敗しました"])
  | .login n, .onError => (s, [.loginShowError n "通信エラー"])
  | .register n mail pass, .onNext true =>
    ((call s (some (.registeredLogin n)) (.loginAccount mail pass)).1, [])
  | .register n _ _, .onNext false => (s, [.registrationShowError n "登録に失敗しました"])
  | .register n _ _, .onError => (s, [.registrationShowError n "通信エラー"])
  | .registeredLogin n, .onNext true =>
    ((call s none .saveUserData).1, [.registrationEnd n])
  | .registeredLogin n, .onNext false | .registeredLogin n, .onError =>
    (s, [.registrationShowError n "登録に成功しましたが\nログインに失敗しました"])
  | _, .request _ | _, .isRegistered _ => (s, [])

def deliver (s : State) (w : Subscriber) : List Signal → State × List Output
  | [] => (s, [])
  | x :: rest =>
    let r := receive s w x
    let q := deliver r.1 w rest
    (q.1, r.2 ++ q.2)

/-- A call whose answer `w` waits for, with what is emitted at once. -/
def submit (s : State) (w : Subscriber) (i : UserModel.Input) : State × List Output :=
  let r := call s (some w) i
  deliver r.1 w r.2

/-- An answer, or a call nobody here waits for. -/
def others (s : State) (i : UserModel.Input) : State × List Output :=
  let r := call s none i
  let w := match i with
    | .answer index _ => s.subscribers[index]?.join
    | _ => none
  match w with
  | some w => deliver r.1 w r.2
  | none => (r.1, [])

/-- The text of a field that passes the guard. -/
def filled (text : Option String) : Option String := text.filter (!·.isEmpty)

def step (s : State) : Input → State × List Output
  | .tapEnter text =>
    let n := s.submitted
    let s := { s with submitted := n + 1 }
    if text.isEmpty then (s, [.invalid n "コードを入力してください"])
    else submit s (.checkTeamId n) (.checkTeamId text)
  | .loginEditMailAddress text => ({ s with loginMailAddress := some text }, [])
  | .loginEditPassword text => ({ s with loginPassword := some text }, [])
  | .loginTapLogin =>
    match s.loginMailAddress, s.loginPassword with
    | some mail, some pass =>
      let n := s.submitted
      let s := { s with submitted := n + 1 }
      match filled mail, filled pass with
      | some mail, some pass => submit s (.login n) (.loginAccount mail pass)
      | _, _ => (s, [.loginShowError n "情報を入力してください"])
    | _, _ => (s, [])
  | .editName text => ({ s with name := some text }, [])
  | .editMailAddress text => ({ s with mailAddress := some text }, [])
  | .editPassword text => ({ s with password := some text }, [])
  | .tapRegistration =>
    match s.name, s.mailAddress, s.password with
    | some name, some mail, some pass =>
      let n := s.submitted
      let s := { s with submitted := n + 1 }
      match filled name, filled mail, filled pass with
      | some name, some mail, some pass =>
        submit s (.register n mail pass) (.registerAccount name mail pass)
      | _, _, _ => (s, [.registrationShowError n "情報を入力してください"])
    | _, _, _ => (s, [])
  | .tapLogin => (s, [.login])
  | .userModel i => others s i

def machine : Machine State Input Output := ⟨step⟩

def start (d : AppData.UserDefaults) : State :=
  ⟨init d, [], none, none, none, none, none, 0⟩

/-! ## Submissions as tickets -/

/-- The submissions something is in flight for. -/
def opened (s : State) : List Submission :=
  s.subscribers.filterMap fun w => w.map Subscriber.submission

/-- The submission an input makes; a form none of whose fields is missing makes one. -/
def submission (s : State) : Input → Option Submission
  | .tapEnter _ => some ⟨.firstTeam, s.submitted⟩
  | .loginTapLogin =>
    if s.loginMailAddress.isSome && s.loginPassword.isSome then some ⟨.login, s.submitted⟩
    else none
  | .tapRegistration =>
    if s.name.isSome && s.mailAddress.isSome && s.password.isSome then
      some ⟨.registration, s.submitted⟩
    else none
  | _ => none

def outcomes (out : List Output) : List Submission := out.filterMap Output.submission

/-- The submission whose code check is answered with status 200 and no team id. -/
def unanswered (s : State) : Input → Option Submission
  | .userModel (.answer index outcome) =>
    match s.userModel.pending[index]?, s.subscribers[index]?.join with
    | some op, some w => if Unanswered op outcome then some w.submission else none
    | _, _ => none
  | _ => none

/-- Each request in flight has its entry among the subscribers. -/
def Aligned (s : State) : Prop := s.subscribers.length = s.userModel.pending.length

theorem aligned_call {s : State} (h : Aligned s) (w : Option Subscriber) (i : UserModel.Input) :
    Aligned (call s w i).1 := by
  have h : s.subscribers.length = s.userModel.pending.length := h
  cases i with
  | answer index outcome =>
    show (s.subscribers.eraseIdx index).length = (s.userModel.pending.eraseIdx index).length
    rw [List.length_eraseIdx, List.length_eraseIdx, h]
  | _ => simp [Aligned, call, act, pendingAfter, h]

theorem aligned_receive {s : State} (h : Aligned s) (w : Subscriber) (x : Signal) :
    Aligned (receive s w x).1 := by
  match w, x with
  | .checkTeamId _, .onNext true | .checkTeamId _, .onNext false | .checkTeamId _, .onError
  | .login _, .onNext false | .login _, .onError
  | .register _ _ _, .onNext false | .register _ _ _, .onError
  | .registeredLogin _, .onNext false | .registeredLogin _, .onError => exact h
  | .login _, .onNext true | .registeredLogin _, .onNext true
  | .register _ _ _, .onNext true => exact aligned_call h _ _
  | .checkTeamId _, .request _ | .login _, .request _ | .register _ _ _, .request _
  | .registeredLogin _, .request _ => exact h
  | .checkTeamId _, .isRegistered _ | .login _, .isRegistered _ | .register _ _ _, .isRegistered _
  | .registeredLogin _, .isRegistered _ => exact h

theorem aligned_deliver {s : State} (h : Aligned s) (w : Subscriber) (xs : List Signal) :
    Aligned (deliver s w xs).1 := by
  induction xs generalizing s with
  | nil => exact h
  | cons x xs ih => exact ih (aligned_receive h w x)

theorem opened_call (s : State) (w : Option Subscriber) (i : UserModel.Input)
    (hi : ∀ index outcome, i ≠ .answer index outcome) :
    opened (call s w i).1 = opened s ++
      (started s.userModel i).toList.filterMap fun _ => w.map Subscriber.submission := by
  cases i with
  | answer index outcome => exact absurd rfl (hi index outcome)
  | _ =>
    simp only [opened, call, List.filterMap_append, List.filterMap_map]
    rfl

/-- A verdict is reported, or handed on to the request made in reply. -/
theorem balance_receive (s : State) (w : Subscriber) {x : Signal} (hx : x.isVerdict = true) :
    Balance (opened s) [w.submission] (opened (receive s w x).1) (outcomes (receive s w x).2)
      [] := by
  intro t
  have hsave : opened (call s none .saveUserData).1 = opened s := by
    rw [opened_call s none .saveUserData (fun _ _ h => nomatch h)]
    exact List.append_nil (opened s)
  cases x with
  | request _ => cases hx
  | isRegistered _ => cases hx
  | onError => cases w <;> simp [receive, outcomes, Output.submission, Subscriber.submission]
  | onNext b =>
    cases b with
    | false => cases w <;> simp [receive, outcomes, Output.submission, Subscriber.submission]
    | true =>
      cases w with
      | checkTeamId n => simp [receive, outcomes, Output.submission, Subscriber.submission]
      | login n => simp [receive, hsave, outcomes, Output.submission, Subscriber.submission]
      | registeredLogin n =>
        simp [receive, hsave, outcomes, Output.submission, Subscriber.submission]
      | register n mail pass =>
        simp only [receive]
        rw [opened_call s _ (.loginAccount mail pass) (fun _ _ h => nomatch h)]
        simp [started, outcomes, Subscriber.submission]

theorem receive_of_not_isVerdict (s : State) (w : Subscriber) {x : Signal}
    (hx : x.isVerdict = false) : receive s w x = (s, []) := by
  cases x with
  | request _ => cases w <;> rfl
  | isRegistered _ => cases w <;> rfl
  | onNext _ => cases hx
  | onError => cases hx

/-- The closures hear the verdicts only. -/
theorem deliver_verdicts (s : State) (w : Subscriber) (xs : List Signal) :
    deliver s w xs = deliver s w (verdicts xs) := by
  induction xs generalizing s with
  | nil => rfl
  | cons x xs ih =>
    cases hx : x.isVerdict with
    | true => simp only [verdicts, List.filter_cons, hx, if_true, deliver, ih]
    | false =>
      simp only [deliver, receive_of_not_isVerdict s w hx, List.nil_append]
      simpa [verdicts, List.filter_cons, hx] using ih s

theorem deliver_singleton (s : State) (w : Subscriber) (x : Signal) :
    deliver s w [x] = receive s w x := by
  simp [deliver]

/-- A call either sends its request or reports its verdict at once. -/
def RequestsOrFails (u : UserModel.State) (i : UserModel.Input) : Prop :=
  (∃ op, started u i = some op ∧ verdicts (act u i).2 = []) ∨
    (started u i = none ∧ ∃ x, verdicts (act u i).2 = [x])

theorem requestsOrFails_registerAccount (u : UserModel.State) (name mail pass : String) :
    RequestsOrFails u (.registerAccount name mail pass) := by
  cases hc : canRegister u name mail pass with
  | true =>
    refine .inl ⟨.registerAccount name mail pass, ?_, ?_⟩
    · simp [started, hc]
    · simp [act, started, statements, hc, signals, verdicts, Signal.isVerdict]
  | false =>
    refine .inr ⟨?_, .onNext false, ?_⟩
    · simp [started, hc]
    · simp [act, started, statements, hc, signals, signal, verdicts, Signal.isVerdict]

theorem isVerdict_of_verdicts {xs : List Signal} {x : Signal} (h : verdicts xs = [x]) :
    x.isVerdict = true := by
  have hx : x ∈ verdicts xs := by
    rw [h]
    exact List.mem_singleton_self x
  exact (List.mem_filter.mp hx).2

theorem balance_submit (s : State) (w : Subscriber) {i : UserModel.Input}
    {before : List Submission} (ho : opened s = before)
    (hi : ∀ index outcome, i ≠ .answer index outcome) (h : RequestsOrFails s.userModel i) :
    Balance before [w.submission] (opened (submit s w i).1) (outcomes (submit s w i).2) [] := by
  subst ho
  have hc := opened_call s (some w) i hi
  rcases h with ⟨op, hs, hv⟩ | ⟨hs, x, hv⟩
  · have hd : submit s w i = ((call s (some w) i).1, []) := by
      simp only [submit]
      rw [deliver_verdicts]
      show deliver _ w (verdicts (act s.userModel i).2) = _
      rw [hv]
      rfl
    rw [hd, hc, hs]
    intro t
    simp [outcomes]
  · have hd : submit s w i = receive (call s (some w) i).1 w x := by
      simp only [submit]
      rw [deliver_verdicts]
      show deliver _ w (verdicts (act s.userModel i).2) = _
      rw [hv, deliver_singleton]
    rw [hs] at hc
    have hb := balance_receive (call s (some w) i).1 w (isVerdict_of_verdicts hv)
    rw [hd]
    rw [hc, Option.toList_none, List.filterMap_nil, List.append_nil] at hb
    exact hb

theorem aligned_submit {s : State} (h : Aligned s) (w : Subscriber) (i : UserModel.Input) :
    Aligned (submit s w i).1 := aligned_deliver (aligned_call h (some w) i) w _

theorem aligned_others {s : State} (h : Aligned s) (i : UserModel.Input) :
    Aligned (others s i).1 := by
  simp only [others]
  split
  · exact aligned_deliver (aligned_call h none i) _ _
  · exact aligned_call h none i

theorem aligned_step {s : State} (h : Aligned s) (i : Input) : Aligned (machine.next s i) := by
  cases i with
  | tapEnter text =>
    simp only [Machine.next, machine, step]
    split
    · exact h
    · apply aligned_submit
      exact h
  | loginTapLogin =>
    simp only [Machine.next, machine, step]
    split
    · split
      · apply aligned_submit
        exact h
      · exact h
    · exact h
  | tapRegistration =>
    simp only [Machine.next, machine, step]
    split
    · split
      · apply aligned_submit
        exact h
      · exact h
    · exact h
  | userModel i => exact aligned_others h i
  | loginEditMailAddress _ | loginEditPassword _ | editName _ | editMailAddress _
  | editPassword _ | tapLogin => exact h

theorem signals_answer (u : UserModel.State) {index : Nat} {op : Operation} (outcome : Outcome)
    (h : u.pending[index]? = some op) :
    (act u (.answer index outcome)).2 = signals u (handle op outcome) := by
  simp [act, started, statements, h]

/-- Nobody hears the answer to a request without a subscriber. -/
theorem answer_unheard {s : State} {index : Nat} (hw : s.subscribers[index]?.join = none)
    (outcome : Outcome) :
    others s (.answer index outcome) = ((call s none (.answer index outcome)).1, []) ∧
      unanswered s (.userModel (.answer index outcome)) = none := by
  constructor
  · simp [others, hw]
  · simp [unanswered, hw]

/-- The subscriber of a request is told the verdicts of its answer. -/
theorem answer_heard {s : State} {index : Nat} {w : Subscriber} {op : Operation}
    (hw : s.subscribers[index]? = some (some w)) (hop : s.userModel.pending[index]? = some op)
    (outcome : Outcome) :
    others s (.answer index outcome) = deliver (call s none (.answer index outcome)).1 w
      (verdicts (signals s.userModel (handle op outcome))) := by
  rw [← deliver_verdicts, ← signals_answer s.userModel outcome hop]
  simp [others, hw, call]

/-- The submission an answered request was in flight for is reported, handed on to another
request, or lost when the answer is swallowed. -/
theorem balance_answer {s : State} (h : Aligned s) (index : Nat) (outcome : Outcome) :
    Balance (opened s) [] (opened (others s (.answer index outcome)).1)
      (outcomes (others s (.answer index outcome)).2)
      (unanswered s (.userModel (.answer index outcome))).toList := by
  have h : s.subscribers.length = s.userModel.pending.length := h
  cases hw : s.subscribers[index]? with
  | none =>
    have hle : s.subscribers.length ≤ index := List.getElem?_eq_none_iff.mp hw
    obtain ⟨ho, hu⟩ := answer_unheard (by rw [hw]; rfl) outcome
    rw [ho, hu]
    intro t
    simp [opened, call, outcomes, List.eraseIdx_of_length_le hle]
  | some w =>
    have hc := count_filterMap_eraseIdx (fun w => w.map Subscriber.submission) hw
    cases w with
    | none =>
      obtain ⟨ho, hu⟩ := answer_unheard (by rw [hw]; rfl) outcome
      rw [ho, hu]
      intro t
      have hct := hc t
      simpa [opened, call, outcomes] using hct
    | some w =>
      have hlt : index < s.userModel.pending.length := by
        have hlt := (List.getElem?_eq_some_iff.mp hw).1
        omega
      have hop := List.getElem?_eq_getElem hlt
      rw [answer_heard hw hop outcome]
      rcases verdicts_handle s.userModel s.userModel.pending[index] outcome with
        ⟨hu, hv⟩ | ⟨hu, x, hv⟩
      · have hl : unanswered s (.userModel (.answer index outcome)) = some w.submission := by
          simp [unanswered, hw, hop, hu]
        rw [hv, hl]
        intro t
        have hct := hc t
        simpa [opened, call, outcomes, deliver] using hct
      · have hl : unanswered s (.userModel (.answer index outcome)) = none := by
          simp [unanswered, hw, hop, hu]
        have hb := balance_receive (call s none (.answer index outcome)).1 w
          (isVerdict_of_verdicts hv)
        rw [hv, hl, deliver_singleton]
        intro t
        have hct := hc t
        have hbt := hb t
        simp only [opened, call, Option.map_some, Option.toList_some, Option.toList_none,
          List.count_nil] at hct hbt ⊢
        omega

theorem balance_others {s : State} (h : Aligned s) (i : UserModel.Input) :
    Balance (opened s) [] (opened (others s i).1) (outcomes (others s i).2)
      (unanswered s (.userModel i)).toList := by
  cases i with
  | answer index outcome => exact balance_answer h index outcome
  | _ =>
    intro t
    simp only [others, unanswered]
    rw [opened_call s none _ (by intro _ _ h; cases h)]
    simp [outcomes]

theorem balance_step {s : State} (h : Aligned s) (i : Input) :
    Balance (opened s) (submission s i).toList (opened (machine.next s i))
      (outcomes (machine.emit s i)) (unanswered s i).toList := by
  cases i with
  | tapEnter text =>
    simp only [Machine.next, Machine.emit, machine, step]
    split
    · intro t
      simp [submission, unanswered, opened, outcomes, Output.submission]
    · exact balance_submit _ (.checkTeamId s.submitted) rfl (fun _ _ h => nomatch h)
        (.inl ⟨.checkTeamId text, rfl, rfl⟩)
  | loginTapLogin =>
    simp only [Machine.next, Machine.emit, machine, step, submission, unanswered]
    cases s.loginMailAddress <;> cases s.loginPassword
    case some.some mail pass =>
      simp only [Option.isSome_some, Bool.and_self, if_true]
      split
      · exact balance_submit _ (.login s.submitted) rfl (fun _ _ h => nomatch h)
          (.inl ⟨.loginAccount _ _, rfl, rfl⟩)
      · intro t
        simp [opened, outcomes, Output.submission]
    all_goals
      intro t
      simp [outcomes]
  | tapRegistration =>
    simp only [Machine.next, Machine.emit, machine, step, submission, unanswered]
    cases s.name <;> cases s.mailAddress <;> cases s.password
    case some.some.some name mail pass =>
      simp only [Option.isSome_some, Bool.and_self, if_true]
      split
      · exact balance_submit _ (.register s.submitted _ _) rfl (fun _ _ h => nomatch h)
          (requestsOrFails_registerAccount _ _ _ _)
      · intro t
        simp [opened, outcomes, Output.submission]
    all_goals
      intro t
      simp [outcomes]
  | userModel i => exact balance_others h i
  | tapLogin => exact fun t => rfl
  | loginEditMailAddress _ | loginEditPassword _ | editName _ | editMailAddress _
  | editPassword _ =>
    intro t
    simp [Machine.next, Machine.emit, machine, step, submission, unanswered, outcomes, opened]

theorem submitted_receive (s : State) (w : Subscriber) (x : Signal) :
    (receive s w x).1.submitted = s.submitted := by
  cases x with
  | onNext b => cases w <;> cases b <;> rfl
  | _ => cases w <;> rfl

theorem submitted_deliver (s : State) (w : Subscriber) (xs : List Signal) :
    (deliver s w xs).1.submitted = s.submitted := by
  induction xs generalizing s with
  | nil => rfl
  | cons x xs ih =>
    have hx := ih (receive s w x).1
    rw [submitted_receive] at hx
    exact hx

theorem submitted_submit (s : State) (w : Subscriber) (i : UserModel.Input) :
    (submit s w i).1.submitted = s.submitted := submitted_deliver _ w _

theorem submitted_others (s : State) (i : UserModel.Input) :
    (others s i).1.submitted = s.submitted := by
  simp only [others]
  split
  · exact submitted_deliver _ _ _
  · rfl

/-- Each submission takes the next number. -/
theorem submitted_step (s : State) (i : Input) :
    (machine.next s i).submitted = s.submitted + (submission s i).toList.length := by
  cases i with
  | tapEnter text =>
    simp only [Machine.next, machine, step]
    split
    · rfl
    · exact submitted_submit _ _ _
  | loginTapLogin =>
    simp only [Machine.next, machine, step, submission]
    cases s.loginMailAddress <;> cases s.loginPassword
    case some.some mail pass =>
      simp only [Option.isSome_some, Bool.and_self, if_true]
      split
      · exact submitted_submit _ _ _
      · rfl
    all_goals rfl
  | tapRegistration =>
    simp only [Machine.next, machine, step, submission]
    cases s.name <;> cases s.mailAddress <;> cases s.password
    case some.some.some name mail pass =>
      simp only [Option.isSome_some, Bool.and_self, if_true]
      split
      · exact submitted_submit _ _ _
      · rfl
    all_goals rfl
  | userModel i => exact submitted_others s i
  | loginEditMailAddress _ | loginEditPassword _ | editName _ | editMailAddress _
  | editPassword _ | tapLogin => rfl

theorem number_submission (s : State) (i : Input) (t : Submission) (h : submission s i = some t) :
    t.number = s.submitted := by
  cases i with
  | tapEnter text =>
    obtain rfl := Option.some.inj h
    rfl
  | loginTapLogin =>
    simp only [submission] at h
    split_ifs at h
    obtain rfl := Option.some.inj h
    rfl
  | tapRegistration =>
    simp only [submission] at h
    split_ifs at h
    obtain rfl := Option.some.inj h
    rfl
  | _ => cases h

/-- The screens pass a submission on from request to request until its outcome. -/
def custody : Custody machine Submission where
  Inv := Aligned
  opened := opened
  issue := submission
  settle s i := outcomes (machine.emit s i)
  lose s i := (unanswered s i).toList
  number := Submission.number
  count := State.submitted
  inv_next _ i h := aligned_step h i
  number_issue := number_submission
  count_next := submitted_step
  balance _ i h := balance_step h i

/-- The submissions made and the outcomes reported so far. -/
def record (s : State) (i : Input) (h : List Submission × List Submission) :
    List Submission × List Submission :=
  (h.1 ++ (submission s i).toList, h.2 ++ outcomes (machine.emit s i))

/-- Each submission made so far has had one outcome and nothing is in flight for it, or none
and one request is in flight for it. -/
def OneOutcome (p : State × (List Submission × List Submission)) : Prop :=
  ∀ t ∈ p.2.1, (opened p.1).count t + p.2.2.count t = 1

/-- At every moment of every run each submission has had its one outcome, or is in flight
and has had none, exactly as long as no code check is answered with status 200 and no
team id. -/
theorem one_outcome_iff (d : AppData.UserDefaults) (is : List Input) :
    (machine.withHistory record).Always OneOutcome (start d, ([], [])) is ↔
      machine.Along (fun s i => unanswered s i = none) (start d) is := by
  have h := custody.resolved_iff (s := start d) rfl rfl is
  simp only [custody, Option.toList_eq_nil_iff] at h
  exact h

/-- A code is entered, and the answer has status 200 and no team id. -/
def codeAnsweredWithoutId : List Input :=
  [.tapEnter "karupasu", .userModel (.answer 0 (.response ⟨200, none, none, none, none, none⟩))]

/-- Nothing is in flight any more, and the submission has had no outcome. -/
theorem code_without_id_unresolved :
    let h := machine.history record (start AppData.resetALL) ([], []) codeAnsweredWithoutId
    h.1 = [⟨.firstTeam, 0⟩] ∧ h.2 = [] ∧
      (machine.run (start AppData.resetALL) codeAnsweredWithoutId).userModel.pending = [] ∧
      machine.outputs (start AppData.resetALL) codeAnsweredWithoutId = [] ∧
      ¬(machine.withHistory record).Always OneOutcome (start AppData.resetALL, ([], []))
        codeAnsweredWithoutId := by
  refine ⟨by decide, by decide, by decide, by decide, fun h => ?_⟩
  have hlast := h.last ⟨.firstTeam, 0⟩
  exact absurd (hlast (by decide)) (by decide)

end Karupasu.SignIn
