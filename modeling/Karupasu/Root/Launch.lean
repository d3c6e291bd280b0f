import Karupasu.Session.SessionInvariant

/-!
# Launching: `RootViewStream` on top of `UserModel`

Two subscriptions feed `initializedApp`: the launch chain, with the outcome of the
automatic sign-in, and the observer of `isRegistered` made when the stream is bound.
The status emitted at binding time reaches no subscriber and is not an output.
-/
namespace Karupasu.Root.Launch

open Karupasu.Library Karupasu.AppData
open Karupasu.UserModel (Signal Outcome Operation)

inductive ErrorType where
  | login
  deriving DecidableEq

/-- `RootViewController.initializeStatus` -/
inductive InitializeStatus where
  | success
  | notLogin
  | error (type : ErrorType)
  deriving DecidableEq

structure State where
  user : UserModel.State
  /-- The last value `distinctUntilChanged` let through. -/
  seen : Option Bool

inductive Input where
  | launchApp
  | user (i : UserModel.Input)

/-- `isRegistered.distinctUntilChanged().filter { $0 == false }` on one value. -/
def observeRegistered (seen : Option Bool) (b : Bool) : List InitializeStatus :=
  if seen = some b then [] else if b = false then [.notLogin] else []

/-- What the two subscriptions make of a handler's signals; `launch` says whether the
handler belongs to the launch chain. -/
def observe (launch : Bool) : Option Bool → List Signal → Option Bool × List InitializeStatus
  | seen, [] => (seen, [])
  | seen, .isRegistered b :: rest =>
    let r := observe launch (some b) rest
    (r.1, observeRegistered seen b ++ r.2)
  | seen, .onNext isLogin :: rest =>
    let r := observe launch seen rest
    (r.1, (if launch then [if isLogin then .success else .error .login] else []) ++ r.2)
  | seen, .onError :: rest =>
    let r := observe launch seen rest
    (r.1, (if launch then [.error .login] else []) ++ r.2)
  | seen, .request _ :: rest => observe launch seen rest

/-- The launch chain is the only caller of `autoLoginAccount`. -/
def belongsToLaunch (s : UserModel.State) : UserModel.Input → Bool
  | .answer index _ =>
    match s.pending[index]? with
    | some (.autoLoginAccount _ _) => true
    | _ => false
  | _ => false

def stepUser (s : State) (i : UserModel.Input) : State × List InitializeStatus :=
  let r := UserModel.act s.user i
  let o := observe (belongsToLaunch s.user i) s.seen r.2
  (⟨r.1, o.1⟩, o.2)

def bind (d : UserDefaults) : State :=
  let user := UserModel.init d
  { user := user, seen := some user.isRegistered }

def step (s : State) : Input → State × List InitializeStatus
  | .launchApp =>
    if s.user.isRegistered then stepUser s .autoLoginAccount else (s, [.notLogin])
  | .user .relaunch =>
    (bind s.user.defaults, [])
  | .user i => stepUser s i

def machine : Machine State Input InitializeStatus := ⟨step⟩

/-! ## One launch -/

/-- A launch and the outcome of the request it sends, if it sends one. -/
def launch (s : State) (o : Outcome) : List InitializeStatus :=
  machine.outputs s [.launchApp, .user (.answer s.user.pending.length o)]

/-- `200` with the three headers `autoLoginAccount` reads. -/
def signedIn : Outcome → Option (String × String × String)
  | .response r =>
    match decide (r.statusCode = 200), r.uid, r.client, r.accessToken with
    | true, some uid, some client, some accessToken => some (uid, client, accessToken)
    | _, _, _, _ => none
  | .error => none

def refused : Outcome → Bool
  | .response r => r.statusCode = 400 ∨ r.statusCode = 401
  | .error => false

/-- The one status a launch should end in. -/
def expected (registered : Bool) (o : Outcome) : InitializeStatus :=
  if !registered || refused o then .notLogin
  else if (signedIn o).isSome then .success
  else .error .login

/-- No header of a successful sign-in is empty. -/
def credentialsNonempty (o : Outcome) : Prop :=
  ∀ uid client accessToken, signedIn o = some (uid, client, accessToken) →
    uid ≠ "" ∧ client ≠ "" ∧ accessToken ≠ ""

/-! ## The observer of `isRegistered` is up to date -/

/-- `seen` follows `isRegistered`, which follows the relays. -/
structure Consistent (s : State) : Prop where
  seen_eq : s.seen = some s.user.isRegistered
  registered : UserModel.Registered s.user

theorem observe_signal (launch : Bool) (s : UserModel.State) (t : UserModel.Statement)
    (rest : List Signal) :
    (observe launch (some s.isRegistered)
        (UserModel.signal (UserModel.exec s t) t ++ rest)).1 =
      (observe launch (some (UserModel.exec s t).isRegistered) rest).1 := by
  cases t with
  | accept r v =>
    cases hr : r.isCredential with
    | true => simp [UserModel.signal, hr, observe]
    | false => simp [UserModel.signal, UserModel.exec, UserModel.State.accept, hr]
  | load r =>
    cases hr : r.isCredential with
    | true => simp [UserModel.signal, hr, observe]
    | false => simp [UserModel.signal, UserModel.exec, UserModel.State.accept, hr]
  | set r v => rfl
  | setPassword v => rfl
  | save r => rfl
  | resetALL => rfl
  | onNext b => rfl
  | onError => rfl

/-- Induction on the statements: `distinctUntilChanged` has seen the last value of
`isRegistered`, whatever the handler did in between. -/
theorem observe_signals (launch : Bool) (s : UserModel.State) (ts : List UserModel.Statement) :
    (observe launch (some s.isRegistered) (UserModel.signals s ts)).1 =
      some (UserModel.execAll s ts).isRegistered := by
  induction ts generalizing s with
  | nil => rfl
  | cons t ts ih =>
    rw [UserModel.signals, observe_signal, ih]
    rfl

theorem observe_requests (launch : Bool) (seen : Option Bool) (ops : List Operation)
    (f : Operation → UserModel.UsereProvider) (rest : List Signal) :
    observe launch seen (ops.map (fun op => .request (f op)) ++ rest) = observe launch seen rest := by
  induction ops with
  | nil => rfl
  | cons op ops ih => exact ih

theorem consistent_bind (d : UserDefaults) : Consistent (bind d) :=
  ⟨rfl, (UserModel.init_agrees d).2⟩

theorem consistent_stepUser {s : State} (hs : Consistent s) (i : UserModel.Input) :
    Consistent (stepUser s i).1 := by
  refine ⟨?_, UserModel.registered_act hs.registered i⟩
  simp only [stepUser, UserModel.act, hs.seen_eq, observe_requests, observe_signals]

theorem consistent_step (s : State) (i : Input) (hs : Consistent s) :
    Consistent (machine.next s i) := by
  cases i with
  | launchApp =>
    cases hr : s.user.isRegistered with
    | true => simpa [Machine.next, machine, step, hr] using consistent_stepUser hs _
    | false => simpa [Machine.next, machine, step, hr] using hs
  | user i =>
    cases i with
    | relaunch => exact consistent_bind s.user.defaults
    | _ => exact consistent_stepUser hs _

theorem consistent_run (d : UserDefaults) (is : List Input) :
    Consistent (machine.run (bind d) is) :=
  (machine.always_of_inv consistent_step (consistent_bind d) is).last

/-! ## The statuses of one launch -/

theorem launch_unregistered {s : State} (hr : s.user.isRegistered = false) (o : Outcome) :
    launch s o = [.notLogin] := by
  simp [launch, machine, Machine.emit, Machine.next, step, stepUser, hr, UserModel.act,
    UserModel.started, UserModel.statements, UserModel.signals, observe]

/-- A registered launch answers with what the two subscriptions make of the handler of
`autoLoginAccount`, run with the relays of the launch. -/
theorem launch_registered {s : State} (hs : Consistent s) (hr : s.user.isRegistered = true)
    (o : Outcome) : ∃ (t : UserModel.State) (mail pass : String),
      t.relays = s.user.relays ∧
      launch s o = (observe true (some true)
        (UserModel.signals t (UserModel.handle (.autoLoginAccount mail pass) o))).2 := by
  let mail : String := s.user.defaults.value .userMailAddress
  let pass : String := s.user.defaults.value .userPassword
  refine ⟨{ s.user with pending := s.user.pending ++ [.autoLoginAccount mail pass] },
    mail, pass, rfl, ?_⟩
  simp [launch, machine, Machine.emit, Machine.next, step, stepUser, hr, UserModel.act,
    UserModel.started, UserModel.statements, UserModel.signals, UserModel.execAll,
    UserModel.pendingAfter, belongsToLaunch, observe, hs.seen_eq, mail, pass]

theorem handle_signedIn {o : Outcome} {uid client accessToken : String}
    (h : signedIn o = some (uid, client, accessToken)) (mail pass : String) :
    UserModel.handle (.autoLoginAccount mail pass) o =
      [.set .uid uid, .set .client client, .set .accessToken accessToken,
        .accept .uid uid, .accept .client client, .accept .accessToken accessToken,
        .onNext true] := by
  cases o with
  | error => cases h
  | response r =>
    simp only [signedIn] at h
    split at h
    · rename_i h200 huid hclient htoken
      cases h
      simp only [UserModel.handle, h200, huid, hclient, htoken]
    · cases h

theorem handle_refused {o : Outcome} (h : refused o = true) (mail pass : String) :
    UserModel.handle (.autoLoginAccount mail pass) o =
      UserModel.clearUserData ++ [.onNext false] := by
  cases o with
  | error => cases h
  | response r =>
    have h' : r.statusCode = 400 ∨ r.statusCode = 401 := by simpa [refused] using h
    have h200 : decide (r.statusCode = 200) = false := decide_eq_false (by omega)
    simp only [UserModel.handle, h200, if_pos h']

theorem handle_failed {r : UserModel.Response} (h : signedIn (.response r) = none)
    (hr : refused (.response r) = false) (mail pass : String) :
    UserModel.handle (.autoLoginAccount mail pass) (.response r) = [.onNext false] := by
  have h' : ¬(r.statusCode = 400 ∨ r.statusCode = 401) := by simpa [refused] using hr
  simp only [UserModel.handle]
  split
  · rename_i h200 huid hclient htoken
    simp [signedIn, h200, huid, hclient, htoken] at h
  · rw [if_neg h']

/-- The credentials of a successful sign-in arrive one by one, and `isRegistered` is
recomputed after each from the old values of the others. -/
theorem signals_signedIn {t : UserModel.State} (hc : (t.relays .client : String) ≠ "")
    (ha : (t.relays .accessToken : String) ≠ "") (uid client accessToken : String) :
    UserModel.signals t [.set .uid uid, .set .client client, .set .accessToken accessToken,
        .accept .uid uid, .accept .client client, .accept .accessToken accessToken,
        .onNext true] =
      [.isRegistered (!uid.isEmpty), .isRegistered (!(uid.isEmpty || client.isEmpty)),
        .isRegistered (!(uid.isEmpty || client.isEmpty || accessToken.isEmpty)),
        .onNext true] := by
  have hc' : String.isEmpty (t.relays .client) = false := by simpa using hc
  have ha' : String.isEmpty (t.relays .accessToken) = false := by simpa using ha
  have hall : UserModel.signals t [.set .uid uid, .set .client client,
        .set .accessToken accessToken, .accept .uid uid, .accept .client client,
        .accept .accessToken accessToken, .onNext true] =
      [.isRegistered (!(uid.isEmpty || String.isEmpty (t.relays .client) ||
          String.isEmpty (t.relays .accessToken))),
        .isRegistered (!(uid.isEmpty || client.isEmpty || String.isEmpty (t.relays .accessToken))),
        .isRegistered (!(uid.isEmpty || client.isEmpty || accessToken.isEmpty)),
        .onNext true] := rfl
  simpa only [hc', ha', Bool.or_false] using hall

theorem launch_signedIn {s : State} (hs : Consistent s) (hr : s.user.isRegistered = true)
    {o : Outcome} {uid client accessToken : String}
    (h : signedIn o = some (uid, client, accessToken)) :
    launch s o =
      (if uid = "" ∨ client = "" ∨ accessToken = "" then [.notLogin] else []) ++ [.success] := by
  obtain ⟨t, mail, pass, ht, hl⟩ := launch_registered hs hr o
  obtain ⟨_, hc, ha⟩ := hs.registered.mp hr
  rw [← ht] at hc ha
  rw [hl, handle_signedIn h, signals_signedIn hc ha]
  have he : (uid = "" ∨ client = "" ∨ accessToken = "") ↔
      (uid.isEmpty || client.isEmpty || accessToken.isEmpty) = true := by simp [or_assoc]
  simp only [he]
  cases uid.isEmpty <;> cases client.isEmpty <;> cases accessToken.isEmpty <;> rfl

theorem launch_refused {s : State} (hs : Consistent s) (hr : s.user.isRegistered = true)
    {o : Outcome} (h : refused o = true) : launch s o = [.notLogin, .error .login] := by
  obtain ⟨t, mail, pass, _, hl⟩ := launch_registered hs hr o
  rw [hl, handle_refused h]
  rfl

theorem launch_failed {s : State} (hs : Consistent s) (hr : s.user.isRegistered = true)
    {o : Outcome} (h : signedIn o = none) (hf : refused o = false) :
    launch s o = [.error .login] := by
  obtain ⟨t, mail, pass, _, hl⟩ := launch_registered hs hr o
  rw [hl]
  cases o with
  | error => rfl
  | response r =>
    rw [handle_failed h hf]
    rfl

/-- In every reachable state, a launch ends in exactly the one status it should exactly
when it finds no session, or the sign-in is neither refused nor answered with an empty
credential. -/
theorem launch_expected_iff (d : UserDefaults) (is : List Input) (o : Outcome) :
    launch (machine.run (bind d) is) o =
        [expected (machine.run (bind d) is).user.isRegistered o] ↔
      ((machine.run (bind d) is).user.isRegistered = true →
        refused o = false ∧ credentialsNonempty o) := by
  have hs := consistent_run d is
  generalize machine.run (bind d) is = s at hs
  cases hr : s.user.isRegistered with
  | false => simp [launch_unregistered hr, expected]
  | true =>
    cases hf : refused o with
    | true => simp [launch_refused hs hr hf]
    | false =>
      cases hi : signedIn o with
      | none => simp [launch_failed hs hr hi hf, expected, hf, hi, credentialsNonempty]
      | some c =>
        obtain ⟨uid, client, accessToken⟩ := c
        rw [launch_signedIn hs hr hi]
        simp [expected, hf, hi, credentialsNonempty]

/-- A stored session that the server no longer accepts is answered twice: by the observer
of `isRegistered` in the middle of `clearUserData`, and by the launch chain after it. -/
theorem launch_unauthorized :
    let d := ((resetALL.setValue .uid "u").setValue .client "c").setValue .accessToken "t"
    let o := Outcome.response { statusCode := 401 }
    launch (bind d) o = [.notLogin, .error .login] ∧
      launch (bind d) o ≠ [expected (bind d).user.isRegistered o] := by
  decide

end Karupasu.Root.Launch
