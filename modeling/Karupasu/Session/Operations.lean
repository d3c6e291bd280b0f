import Karupasu.Session.SessionInvariant

/-!
# The session operations are all or nothing

An operation writes a table of properties, to the user defaults and to the relays
alike, and emits `true`, or it writes nothing. The Firebase user, the one relay that
mirrors no property, stands next to the rest of the store.
-/
namespace Karupasu.UserModel

open Karupasu.Library Karupasu.AppData

def Signal.isVerdict : Signal → Bool
  | .onNext _ | .onError => true
  | .request _ | .isRegistered _ => false

/-- What the observer of an operation receives. -/
def verdicts (out : List Signal) : List Signal := out.filter Signal.isVerdict

/-- The store with `FBUser`; `Φ` is Firebase's type of users. -/
structure Session (Φ : Type) where
  store : State
  FBUser : Option Φ
  /-- The listener of `autoLogin` removes itself when it is called. -/
  listening : Bool

namespace Session

variable {Φ : Type}

def init (d : UserDefaults) : Session Φ := ⟨UserModel.init d, none, true⟩

inductive Input (Φ : Type) where
  | user (i : UserModel.Input)
  /-- Firebase calls the listener. -/
  | authState (user : Option Φ)

/-- The listener of `autoLogin`. Its other branch signs in to Firebase and ignores the result. -/
def authState (s : Session Φ) (user : Option Φ) : Session Φ :=
  let uid : String := s.store.defaults.value .uid
  if s.listening then
    { s with
      FBUser := if user.isSome && uid.isEmpty then user else s.FBUser
      listening := false }
  else s

def step (s : Session Φ) : Input Φ → Session Φ × List Signal
  | .user .relaunch => (init s.store.defaults, [])
  | .user i =>
    let r := UserModel.step s.store i
    ({ s with store := r.1 }, r.2)
  | .authState user => (s.authState user, [])

def machine : Machine (Session Φ) (Input Φ) Signal := ⟨step⟩

end Session

/-! ## The update of an operation -/

/-- The value an operation gives to a property when it is answered with `r`. -/
def assigned : Operation → Response → (k : Key) → Option k.Value
  | .logoutAccount, _, k => some k.defaultValue
  | .checkTeamId _, r, .teamId => r.id
  | .registerAccount name _ _, _, .userName => some name
  | .registerAccount _ mail _, _, .userMailAddress => some mail
  | .registerAccount _ _ pass, _, .userPassword => some pass
  | .loginAccount _ _, r, .uid => r.uid
  | .loginAccount _ _, r, .client => r.client
  | .loginAccount _ _, r, .accessToken => r.accessToken
  | .loginAccount mail _, _, .userMailAddress => some mail
  | .loginAccount _ _, r, .userName => r.dataName
  | .loginAccount _ pass, _, .userPassword => some pass
  | .autoLoginAccount _ _, r, .uid => r.uid
  | .autoLoginAccount _ _, r, .client => r.client
  | .autoLoginAccount _ _, r, .accessToken => r.accessToken
  | _, _, _ => none

/-- The properties the update of an operation consists of. -/
def updates : Operation → List Key
  | .logoutAccount =>
    [.firstLunch, .teamId, .userMailAddress, .userName, .userPassword, .uid, .client,
      .accessToken, .roomIds]
  | .checkTeamId _ => [.teamId]
  | .registerAccount _ _ _ => [.userName, .userMailAddress, .userPassword]
  | .loginAccount _ _ =>
    [.uid, .client, .accessToken, .userMailAddress, .userName, .userPassword]
  | .autoLoginAccount _ _ => [.uid, .client, .accessToken]

/-- The answer has status 200 and every value the update needs. -/
def Accepted (op : Operation) (r : Response) : Prop :=
  r.statusCode = 200 ∧ ∀ k ∈ updates op, (assigned op r k).isSome

instance (op : Operation) (r : Response) : Decidable (Accepted op r) :=
  inferInstanceAs (Decidable (_ ∧ _))

/-- The answers on which the automatic sign-in gives the session up. -/
def Refused : Operation → Response → Prop
  | .autoLoginAccount _ _, r => r.statusCode = 400 ∨ r.statusCode = 401
  | _, _ => False

instance (op : Operation) (r : Response) : Decidable (Refused op r) := by
  cases op <;> unfold Refused <;> infer_instance

/-- Some relay of the update is one `isRegistered` depends on. -/
def touchesCredentials (op : Operation) : Bool :=
  (updates op).any fun k => k = .uid || k = .client || k = .accessToken

/-- `true` is emitted and the whole update made, in the user defaults and in the relays. -/
structure Committed (op : Operation) (r : Response) (s t : State) (out : List Signal) : Prop where
  verdict : verdicts out = [.onNext true]
  defaults : ∀ k, t.defaults.value k = (assigned op r k).getD (s.defaults.value k)
  relays : ∀ x, t.relays x = (assigned op r x.key).getD (s.relays x)
  isRegistered :
    t.isRegistered = if touchesCredentials op then registered t.relays else s.isRegistered

/-- Every property and every relay has its default, and `true` is not emitted. -/
structure Reset (t : State) (out : List Signal) : Prop where
  verdict : verdicts out = [.onNext false]
  defaults : ∀ k, t.defaults.value k = k.defaultValue
  relays : ∀ x, t.relays x = x.key.defaultValue
  isRegistered : t.isRegistered = false

/-- Nothing is written, and `true` is not emitted. -/
structure Untouched (s t : State) (out : List Signal) : Prop where
  verdict : verdicts out = [] ∨ verdicts out = [.onNext false] ∨ verdicts out = [.onError]
  defaults : t.defaults = s.defaults
  relays : t.relays = s.relays
  isRegistered : t.isRegistered = s.isRegistered

/-- What an outcome of an operation may do. -/
def Atomic (op : Operation) (s t : State) (out : List Signal) : Outcome → Prop
  | .response r =>
    if Accepted op r then Committed op r s t out
    else if Refused op r then Reset t out
    else Untouched s t out
  | .error => Untouched s t out

/-- What an input of the five operations may do; the other inputs are not among them. -/
def AllOrNothing (s t : State) (out : List Signal) : Input → Prop
  | .answer index outcome =>
    match s.pending[index]? with
    | some op => Atomic op s t out outcome
    | none => Untouched s t out
  | .logoutAccount | .checkTeamId _ | .registerAccount _ _ _ | .loginAccount _ _
  | .autoLoginAccount => Untouched s t out
  | .relaunch | .saveUserData | .clearUserData => True

/-! ## When an answer carries the whole update -/

theorem accepted_logoutAccount (r : Response) :
    Accepted .logoutAccount r ↔ r.statusCode = 200 := by
  simp [Accepted, assigned]

theorem accepted_checkTeamId (teamCode : String) (r : Response) :
    Accepted (.checkTeamId teamCode) r ↔ r.statusCode = 200 ∧ ∃ teamId, r.id = some teamId := by
  simp [Accepted, updates, assigned, Option.isSome_iff_exists]

theorem accepted_registerAccount (name mail pass : String) (r : Response) :
    Accepted (.registerAccount name mail pass) r ↔ r.statusCode = 200 := by
  simp [Accepted, updates, assigned]

theorem accepted_loginAccount (mail pass : String) (r : Response) :
    Accepted (.loginAccount mail pass) r ↔ r.statusCode = 200 ∧ (∃ uid, r.uid = some uid) ∧
      (∃ client, r.client = some client) ∧ (∃ accessToken, r.accessToken = some accessToken) ∧
      ∃ name, r.dataName = some name := by
  simp [Accepted, updates, assigned, Option.isSome_iff_exists]

theorem accepted_autoLoginAccount (mail pass : String) (r : Response) :
    Accepted (.autoLoginAccount mail pass) r ↔ r.statusCode = 200 ∧ (∃ uid, r.uid = some uid) ∧
      (∃ client, r.client = some client) ∧ ∃ accessToken, r.accessToken = some accessToken := by
  simp [Accepted, updates, assigned, Option.isSome_iff_exists]

/-! ## One handler at a time -/

/-- The update is made when the answer carries everything it needs. -/
theorem committed_handle (s : State) {op : Operation} {r : Response} (h : Accepted op r) :
    Committed op r s (execAll s (handle op (.response r)))
      (signals s (handle op (.response r))) := by
  cases op with
  | logoutAccount =>
    have hs := (accepted_logoutAccount r).mp h
    have hh : handle .logoutAccount (.response r) = .onNext true :: clearUserData := if_pos hs
    rw [hh]
    exact ⟨rfl, fun k => by cases k <;> rfl, fun x => by cases x <;> rfl, rfl⟩
  | checkTeamId teamCode =>
    obtain ⟨hs, teamId, hid⟩ := (accepted_checkTeamId teamCode r).mp h
    have hh : handle (.checkTeamId teamCode) (.response r) =
        [.set .teamId teamId, .accept .teamId teamId, .onNext true] := by
      simp [handle, hs, hid]
    rw [hh]
    refine ⟨rfl, fun k => ?_, fun x => ?_, rfl⟩
    · cases k <;> simp only [assigned, hid] <;> rfl
    · cases x <;> simp only [assigned, hid] <;> rfl
  | registerAccount name mail pass =>
    have hs := (accepted_registerAccount name mail pass r).mp h
    have hh : handle (.registerAccount name mail pass) (.response r) =
        [.set .name name, .set .email mail, .setPassword pass,
          .accept .name name, .accept .email mail, .onNext true] := if_pos hs
    rw [hh]
    exact ⟨rfl, fun k => by cases k <;> rfl, fun x => by cases x <;> rfl, rfl⟩
  | loginAccount mail pass =>
    obtain ⟨hs, ⟨uid, huid⟩, ⟨client, hclient⟩, ⟨accessToken, haccess⟩, name, hname⟩ :=
      (accepted_loginAccount mail pass r).mp h
    have hh : handle (.loginAccount mail pass) (.response r) =
        [.set .uid uid, .set .client client, .set .accessToken accessToken,
          .set .email mail, .set .name name, .setPassword pass,
          .accept .uid uid, .accept .client client, .accept .accessToken accessToken,
          .accept .email mail, .accept .name name, .onNext true] := by
      simp [handle, hs, hname, huid, hclient, haccess]
    rw [hh]
    refine ⟨rfl, fun k => ?_, fun x => ?_, rfl⟩
    · cases k <;> simp only [assigned, hname, huid, hclient, haccess] <;> rfl
    · cases x <;> simp only [assigned, hname, huid, hclient, haccess] <;> rfl
  | autoLoginAccount mail pass =>
    obtain ⟨hs, ⟨uid, huid⟩, ⟨client, hclient⟩, accessToken, haccess⟩ :=
      (accepted_autoLoginAccount mail pass r).mp h
    have hh : handle (.autoLoginAccount mail pass) (.response r) =
        [.set .uid uid, .set .client client, .set .accessToken accessToken,
          .accept .uid uid, .accept .client client, .accept .accessToken accessToken,
          .onNext true] := by
      simp [handle, hs, huid, hclient, haccess]
    rw [hh]
    refine ⟨rfl, fun k => ?_, fun x => ?_, rfl⟩
    · cases k <;> simp only [assigned, huid, hclient, haccess] <;> rfl
    · cases x <;> simp only [assigned, huid, hclient, haccess] <;> rfl

/-- The statements of a handler that writes nothing and does not emit `true`. -/
def Idle (ts : List Statement) : Prop := ts = [] ∨ ts = [.onNext false] ∨ ts = [.onError]

theorem Idle.untouched {ts : List Statement} (h : Idle ts) (s : State) :
    Untouched s (execAll s ts) (signals s ts) := by
  rcases h with rfl | rfl | rfl
  · exact ⟨.inl rfl, rfl, rfl, rfl⟩
  · exact ⟨.inr (.inl rfl), rfl, rfl, rfl⟩
  · exact ⟨.inr (.inr rfl), rfl, rfl, rfl⟩

theorem idle_error (op : Operation) : Idle (handle op .error) := by
  cases op <;> exact .inr (.inr rfl)

theorem idle_handle {op : Operation} {r : Response} (ha : ¬ Accepted op r)
    (hr : ¬ Refused op r) : Idle (handle op (.response r)) := by
  cases op with
  | logoutAccount =>
    rw [accepted_logoutAccount] at ha
    exact .inr (.inl (if_neg ha))
  | checkTeamId teamCode =>
    rw [accepted_checkTeamId] at ha
    simp only [handle]
    split_ifs with hs
    · cases hid : r.id with
      | none => exact .inl rfl
      | some teamId => exact absurd ⟨hs, teamId, hid⟩ ha
    · exact .inr (.inl rfl)
  | registerAccount name mail pass =>
    rw [accepted_registerAccount] at ha
    exact .inr (.inl (if_neg ha))
  | loginAccount mail pass =>
    rw [accepted_loginAccount] at ha
    simp only [handle]
    split
    · exact absurd ⟨of_decide_eq_true ‹_›, ⟨_, ‹_›⟩, ⟨_, ‹_›⟩, ⟨_, ‹_›⟩, _, ‹_›⟩ ha
    · exact .inr (.inl rfl)
  | autoLoginAccount mail pass =>
    rw [accepted_autoLoginAccount] at ha
    simp only [handle]
    split
    · exact absurd ⟨of_decide_eq_true ‹_›, ⟨_, ‹_›⟩, ⟨_, ‹_›⟩, _, ‹_›⟩ ha
    · exact .inr (.inl (if_neg hr))

/-- A refused automatic sign-in leaves the defaults. -/
theorem reset_handle (s : State) {op : Operation} {r : Response} (h : Refused op r) :
    Reset (execAll s (handle op (.response r))) (signals s (handle op (.response r))) := by
  cases op with
  | autoLoginAccount mail pass =>
    have hr : r.statusCode = 400 ∨ r.statusCode = 401 := h
    have hs : decide (r.statusCode = 200) = false := by
      rw [decide_eq_false_iff_not]
      omega
    have hh : handle (.autoLoginAccount mail pass) (.response r) =
        clearUserData ++ [.onNext false] := by
      simp [handle, hs, hr]
    rw [hh]
    exact ⟨rfl, fun k => by cases k <;> rfl, fun x => by cases x <;> rfl, rfl⟩
  | logoutAccount | checkTeamId _ | registerAccount _ _ _ | loginAccount _ _ => exact h.elim

theorem atomic_handle (s : State) (op : Operation) (outcome : Outcome) :
    Atomic op s (execAll s (handle op outcome)) (signals s (handle op outcome)) outcome := by
  cases outcome with
  | error => exact (idle_error op).untouched s
  | response r =>
    simp only [Atomic]
    split_ifs with ha hr
    · exact committed_handle s ha
    · exact reset_handle s hr
    · exact (idle_handle ha hr).untouched s

/-- The one outcome on which an operation emits nothing: a code check answered with
status 200 and no team id. -/
def Unanswered : Operation → Outcome → Prop
  | .checkTeamId _, .response r => r.statusCode = 200 ∧ r.id = none
  | _, _ => False

instance (op : Operation) (outcome : Outcome) : Decidable (Unanswered op outcome) := by
  cases op <;> cases outcome <;> unfold Unanswered <;> infer_instance

theorem handle_eq_nil_iff (op : Operation) (outcome : Outcome) :
    handle op outcome = [] ↔ Unanswered op outcome := by
  cases outcome with
  | error => cases op <;> simp [handle, Unanswered]
  | response r =>
    cases op with
    | checkTeamId teamCode =>
      simp only [handle, Unanswered]
      split_ifs with hs
      · cases hid : r.id <;> simp [hs]
      · simp [hs]
    | logoutAccount | registerAccount _ _ _ =>
      simp only [handle, Unanswered]
      split_ifs <;> simp
    | loginAccount mail pass =>
      simp only [handle, Unanswered]
      split <;> simp
    | autoLoginAccount mail pass =>
      simp only [handle, Unanswered]
      split
      · simp
      · split_ifs <;> simp

/-- An outcome that is not lost gives the observer exactly one verdict. -/
theorem verdicts_handle (s : State) (op : Operation) (outcome : Outcome) :
    (Unanswered op outcome ∧ verdicts (signals s (handle op outcome)) = []) ∨
      (¬ Unanswered op outcome ∧ ∃ x, verdicts (signals s (handle op outcome)) = [x]) := by
  have hidle : Idle (handle op outcome) →
      (Unanswered op outcome ∧ verdicts (signals s (handle op outcome)) = []) ∨
        (¬ Unanswered op outcome ∧ ∃ x, verdicts (signals s (handle op outcome)) = [x]) := by
    rw [← handle_eq_nil_iff]
    rintro (h | h | h) <;> rw [h]
    · exact .inl ⟨rfl, rfl⟩
    · exact .inr ⟨List.cons_ne_nil _ _, _, rfl⟩
    · exact .inr ⟨List.cons_ne_nil _ _, _, rfl⟩
  cases outcome with
  | error => exact hidle (idle_error op)
  | response r =>
    by_cases ha : Accepted op r
    · refine .inr ⟨?_, _, (committed_handle s ha).verdict⟩
      intro hu
      cases op with
      | checkTeamId teamCode =>
        obtain ⟨-, teamId, hid⟩ := (accepted_checkTeamId teamCode r).mp ha
        rw [hu.2] at hid
        cases hid
      | logoutAccount | registerAccount _ _ _ | loginAccount _ _ | autoLoginAccount _ _ =>
        exact hu
    · by_cases hr : Refused op r
      · refine .inr ⟨?_, _, (reset_handle s hr).verdict⟩
        intro hu
        cases op with
        | autoLoginAccount mail pass => exact hu
        | logoutAccount | registerAccount _ _ _ | loginAccount _ _ | checkTeamId _ => exact hr
      · exact hidle (idle_handle ha hr)

/-! ## Every input -/

theorem allOrNothing_act (s : State) (i : Input) : AllOrNothing s (act s i).1 (act s i).2 i := by
  cases i with
  | relaunch => trivial
  | saveUserData => trivial
  | clearUserData => trivial
  | logoutAccount => exact ⟨.inl rfl, rfl, rfl, rfl⟩
  | checkTeamId teamCode => exact ⟨.inl rfl, rfl, rfl, rfl⟩
  | loginAccount mail pass => exact ⟨.inl rfl, rfl, rfl, rfl⟩
  | autoLoginAccount => exact ⟨.inl rfl, rfl, rfl, rfl⟩
  | registerAccount name mail pass =>
    cases hc : canRegister s name mail pass with
    | true =>
      refine ⟨.inl ?_, ?_, ?_, ?_⟩ <;> simp [act, started, statements, hc, execAll, signals,
        verdicts, Signal.isVerdict]
    | false =>
      refine ⟨.inr (.inl ?_), ?_, ?_, ?_⟩ <;> simp [act, started, statements, hc, execAll, signals,
        signal, exec, verdicts, Signal.isVerdict]
  | answer index outcome =>
    cases hget : s.pending[index]? with
    | none =>
      simp only [AllOrNothing, hget, act, statements, started]
      exact ⟨.inl rfl, rfl, rfl, rfl⟩
    | some op =>
      simp only [AllOrNothing, hget, act, statements, started, Option.toList_none, List.map_nil,
        List.nil_append]
      have ha := atomic_handle s op outcome
      cases outcome with
      | error => exact ⟨ha.verdict, ha.defaults, ha.relays, ha.isRegistered⟩
      | response r =>
        simp only [Atomic] at ha ⊢
        split_ifs at ha ⊢
        · exact ⟨ha.verdict, ha.defaults, ha.relays, ha.isRegistered⟩
        · exact ⟨ha.verdict, ha.defaults, ha.relays, ha.isRegistered⟩
        · exact ⟨ha.verdict, ha.defaults, ha.relays, ha.isRegistered⟩

namespace Session

variable {Φ : Type}

/-- Each operation emits `true` and makes its whole update, or leaves everything as it is,
a refused automatic sign-in apart, which resets everything; none of them touches `FBUser`. -/
theorem operations_atomic (s : Session Φ) (i : UserModel.Input) :
    AllOrNothing s.store (machine.next s (.user i)).store (machine.emit s (.user i)) i ∧
      (i = .relaunch ∨ (machine.next s (.user i)).FBUser = s.FBUser) := by
  cases i with
  | relaunch => exact ⟨trivial, .inl rfl⟩
  | _ => exact ⟨allOrNothing_act s.store _, .inr rfl⟩

/-- A first launch that finds a Firebase user, then a sign-in and a sign-out. -/
def signedOut : List (Input Unit) :=
  [.authState (some ()), .user (.loginAccount "mail" "pass"),
    .user (.answer 0 (.response ⟨200, none, some "name", some "uid", some "client", some "token"⟩)),
    .user .logoutAccount]

/-- The sign-out emits `true` and resets what mirrors a property, but the Firebase user stays. -/
theorem logout_keeps_FBUser :
    let s := machine.run (init AppData.resetALL) signedOut
    let logout : Input Unit := .user (.answer 0 (.response ⟨200, none, none, none, none, none⟩))
    s.store.pending = [.logoutAccount] ∧ verdicts (machine.emit s logout) = [.onNext true] ∧
      (machine.next s logout).FBUser ≠ none := by
  decide

end Session
end Karupasu.UserModel
