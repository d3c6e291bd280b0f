import Karupasu.Session.UserModel

/-!
# Stored and in-memory session agree

Each handler is closed under agreement of the six mirrored properties with their
relays; `isRegistered` is right after every single statement.
-/
namespace Karupasu.UserModel

open Karupasu.Library Karupasu.AppData

/-- What the user defaults hold for the relays. -/
def stored (s : State) : Relays := fun r => s.defaults.value r.key

/-- Each relay holds what its property reads from the user defaults. -/
def Agree (s : State) : Prop := ∀ r : Relay, s.defaults.value r.key = s.relays r

/-- `isRegistered` is true exactly when no credential is empty. -/
def Registered (s : State) : Prop :=
  s.isRegistered = true ↔
    (s.relays .uid : String) ≠ "" ∧ (s.relays .client : String) ≠ "" ∧
      (s.relays .accessToken : String) ≠ ""

theorem agree_iff (s : State) : Agree s ↔ stored s = s.relays := funext_iff.symm

theorem nodata_iff (uid client accessToken : String) :
    (!(uid.isEmpty || client.isEmpty || accessToken.isEmpty)) = true ↔
      uid ≠ "" ∧ client ≠ "" ∧ accessToken ≠ "" := by
  simp [and_assoc, ← Bool.not_eq_true]

theorem registered_iff (v : Relays) :
    registered v = true ↔
      (v .uid : String) ≠ "" ∧ (v .client : String) ≠ "" ∧ (v .accessToken : String) ≠ "" :=
  nodata_iff (v .uid) (v .client) (v .accessToken)

theorem registered_update {v : Relays} {r : Relay} (hr : r.isCredential = false) (x : r.Value) :
    registered (Function.update v r x) = registered v := by
  cases r <;> first | rfl | cases hr

@[simp] theorem defaults_accept (s : State) (r : Relay) (v : r.Value) :
    (s.accept r v).defaults = s.defaults := rfl

@[simp] theorem relays_accept (s : State) (r : Relay) (v : r.Value) :
    (s.accept r v).relays = Function.update s.relays r v := rfl

/-- Accepting a value runs the subscription of `init` when it concerns it. -/
theorem registered_accept {s : State} (hs : Registered s) (r : Relay) (v : r.Value) :
    Registered (s.accept r v) := by
  have hv := registered_iff (Function.update s.relays r v)
  unfold Registered at hs ⊢
  cases hr : r.isCredential with
  | true => simpa [State.accept, hr] using hv
  | false =>
    rw [registered_update hr] at hv
    have hs' : (s.accept r v).isRegistered = s.isRegistered := by simp [State.accept, hr]
    rw [hs', relays_accept, ← hv, registered_iff]
    exact hs

theorem registered_exec {s : State} (hs : Registered s) (t : Statement) : Registered (exec s t) := by
  cases t with
  | set r v => exact hs
  | setPassword v => exact hs
  | save r => exact hs
  | resetALL => exact hs
  | accept r v => exact registered_accept hs r v
  | load r => exact registered_accept hs r _
  | onNext b => exact hs
  | onError => exact hs

theorem registered_moments {s : State} (hs : Registered s) (ts : List Statement) :
    ∀ t ∈ moments s ts, Registered t := by
  induction ts generalizing s with
  | nil => simpa [moments] using hs
  | cons t ts ih =>
    intro x hx
    rcases List.mem_cons.mp hx with rfl | hx
    · exact hs
    · exact ih (registered_exec hs t) x hx

theorem execAll_mem_moments (s : State) (ts : List Statement) : execAll s ts ∈ moments s ts := by
  induction ts generalizing s with
  | nil => exact List.mem_singleton_self s
  | cons t ts ih => exact List.mem_cons_of_mem s (ih (exec s t))

/-! ## Agreement, handler by handler -/

theorem key_injective : Function.Injective Relay.key := by
  intro a b h
  cases a <;> cases b <;> first | rfl | cases h

theorem key_ne_userPassword (r : Relay) : r.key ≠ .userPassword := by cases r <;> decide

/-- Storing a relay's property changes what is stored for that relay only. -/
theorem stored_setValue (s : State) (r : Relay) (v : r.Value) :
    stored { s with defaults := s.defaults.setValue r.key v } = Function.update (stored s) r v := by
  funext r'
  by_cases hr : r' = r
  · subst hr
    simp [stored]
  · have hk : r'.key ≠ r.key := fun h => hr (key_injective h)
    simp [stored, hr, hk]

@[simp] theorem stored_set (s : State) (r : Relay) (v : r.Value) :
    stored (exec s (.set r v)) = Function.update (stored s) r v := stored_setValue s r v

@[simp] theorem stored_save (s : State) (r : Relay) :
    stored (exec s (.save r)) = Function.update (stored s) r (s.relays r) :=
  stored_setValue s r (s.relays r)

@[simp] theorem stored_setPassword (s : State) (v : String) :
    stored (exec s (.setPassword v)) = stored s := by
  funext r
  exact UserDefaults.value_setValue_of_ne s.defaults (key_ne_userPassword r) v

@[simp] theorem stored_resetALL (s : State) :
    stored (exec s .resetALL) = fun r => r.key.defaultValue := rfl

@[simp] theorem stored_accept (s : State) (r : Relay) (v : r.Value) :
    stored (exec s (.accept r v)) = stored s := rfl

@[simp] theorem stored_load (s : State) (r : Relay) : stored (exec s (.load r)) = stored s := rfl

@[simp] theorem stored_onNext (s : State) (b : Bool) : stored (exec s (.onNext b)) = stored s := rfl

@[simp] theorem relays_set (s : State) (r : Relay) (v : r.Value) :
    (exec s (.set r v)).relays = s.relays := rfl

@[simp] theorem relays_save (s : State) (r : Relay) : (exec s (.save r)).relays = s.relays := rfl

@[simp] theorem relays_setPassword (s : State) (v : String) :
    (exec s (.setPassword v)).relays = s.relays := rfl

@[simp] theorem relays_resetALL (s : State) : (exec s .resetALL).relays = s.relays := rfl

@[simp] theorem relays_exec_accept (s : State) (r : Relay) (v : r.Value) :
    (exec s (.accept r v)).relays = Function.update s.relays r v := rfl

@[simp] theorem relays_load (s : State) (r : Relay) :
    (exec s (.load r)).relays = Function.update s.relays r (stored s r) := rfl

@[simp] theorem relays_onNext (s : State) (b : Bool) : (exec s (.onNext b)).relays = s.relays := rfl

/-- Writing all six relays leaves nothing of the function written to. -/
theorem update_all (v x : Relays) :
    Function.update (Function.update (Function.update (Function.update (Function.update
      (Function.update v .teamId (x .teamId)) .name (x .name)) .email (x .email)) .uid (x .uid))
      .client (x .client)) .accessToken (x .accessToken) = x := by
  funext r
  cases r <;> rfl

theorem agree_saveUserData (s : State) : Agree (execAll s saveUserData) := by
  rw [agree_iff]
  simp [saveUserData, execAll, update_all]

theorem agree_clearUserData (s : State) : Agree (execAll s clearUserData) := by
  rw [agree_iff]
  simpa [clearUserData, execAll] using (update_all s.relays (fun r => r.key.defaultValue)).symm

theorem agree_handle {s : State} (hs : Agree s) (op : Operation) (o : Outcome) :
    Agree (execAll s (handle op o)) := by
  have he := (agree_iff s).mp hs
  cases o with
  | error => cases op <;> exact hs
  | response r =>
    cases op with
    | logoutAccount =>
      simp only [handle]
      split
      · exact agree_clearUserData s
      · exact hs
    | checkTeamId teamCode =>
      simp only [handle]
      split
      · split
        · rw [agree_iff]
          simp [execAll, he]
        · exact hs
      · exact hs
    | registerAccount name mail pass =>
      simp only [handle]
      split
      · rw [agree_iff]
        simp [execAll, he]
      · exact hs
    | loginAccount mail pass =>
      simp only [handle]
      split
      · rw [agree_iff]
        simp [execAll, he]
      · exact hs
    | autoLoginAccount mail pass =>
      simp only [handle]
      split
      · rw [agree_iff]
        simp [execAll, he]
      · split
        · simp only [execAll, List.foldl_append]
          exact agree_clearUserData s
        · exact hs

/-! ## Runs -/

theorem agree_execAll_statements {s : State} (hs : Agree s) (i : Input) :
    Agree (execAll s (statements s i)) := by
  cases i with
  | saveUserData => exact agree_saveUserData s
  | clearUserData => exact agree_clearUserData s
  | registerAccount name mail pass =>
    simp only [statements]
    split <;> exact hs
  | answer index outcome =>
    simp only [statements]
    split
    · exact agree_handle hs _ outcome
    · exact hs
  | relaunch | logoutAccount | checkTeamId _ | loginAccount _ _ | autoLoginAccount => exact hs

theorem init_agrees (d : UserDefaults) : Agree (init d) ∧ Registered (init d) :=
  ⟨fun _ => rfl, registered_iff (init d).relays⟩

theorem registered_act {s : State} (h : Registered s) (i : Input) : Registered (act s i).1 := by
  have hr := registered_moments h (statements s i) _ (execAll_mem_moments s (statements s i))
  exact hr

theorem step_agrees (s : State) (i : Input) (h : Agree s ∧ Registered s) :
    Agree (machine.next s i) ∧ Registered (machine.next s i) := by
  have ha : Agree (act s i).1 := agree_execAll_statements h.1 i
  have hr := registered_act h.2 i
  cases i with
  | relaunch => exact init_agrees s.defaults
  | _ => exact ⟨ha, hr⟩

/-- After every handler of every run the stored session is the one in memory, and
`isRegistered` is right then and between any two statements of a handler. -/
theorem session_agrees (d : UserDefaults) (is : List Input) :
    machine.Always (fun s => Agree s ∧ Registered s) (init d) is ∧
      machine.Along (fun s i => ∀ t ∈ moments s (statements s i), Registered t) (init d) is :=
  ⟨machine.always_of_inv step_agrees (init_agrees d) is,
    machine.along_of_inv step_agrees (fun s i h => registered_moments h.2 (statements s i))
      (init_agrees d) is⟩

end Karupasu.UserModel
