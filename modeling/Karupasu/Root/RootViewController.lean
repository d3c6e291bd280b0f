import Karupasu.Library.Handovers
import Karupasu.Root.Launch

/-!
# The screens of the app: `RootViewController`

The root shows one view controller at a time and hands over to the next with an animation. It is
driven by the statuses of the launch, by the screens that ask for another view, and by timers: a
launch is scheduled when the view is loaded and again after each error.
-/
namespace Karupasu.Root.RootViewController

open Karupasu.Library
open Launch (ErrorType InitializeStatus)

inductive PresentViewType where
  | normal
  | splash
  | login
  | error (type : ErrorType)
  deriving DecidableEq

inductive Screen where
  | splash | login | tabBarMenu
  deriving DecidableEq

/-- A view controller is made anew each time it is shown. -/
structure ViewController where
  id : Nat
  screen : Screen
  deriving DecidableEq

structure State where
  stream : Launch.State
  /-- `currentViewController`, `children` and the transitions that are not complete. -/
  views : Handovers ViewController
  /-- The calls of `launchApp` that are scheduled. -/
  launches : Nat
  /-- How many view controllers have been made. -/
  made : Nat

inductive Input where
  /-- A scheduled launch is due. -/
  | launchApp
  | user (i : UserModel.Input)
  | switchView (type : PresentViewType)
  /-- The completion handler of the transition at this position among those in flight. -/
  | completion (index : Nat)

def transitionViewController (s : State) (screen : Screen) : State :=
  { s with views := s.views.start ⟨s.made, screen⟩, made := s.made + 1 }

def transitionCurrentViewController (s : State) (screen : Screen) : State :=
  { s with views := s.views.replace ⟨s.made, screen⟩, made := s.made + 1 }

def showSplashView (s : State) : State := transitionCurrentViewController s .splash

/-- In the case of an error only a message is shown. -/
def switchViewType (s : State) : PresentViewType → State
  | .login => transitionViewController s .login
  | .error _ => s
  | .normal => transitionViewController s .tabBarMenu
  | .splash => showSplashView s

/-- The subscription to `initializedApp`. -/
def initializedApp (s : State) : InitializeStatus → State
  | .success => switchViewType s .normal
  | .notLogin => switchViewType s .login
  | .error type =>
    let s := switchViewType s (.error type)
    { s with launches := s.launches + 1 }

def viewDidLoad (d : AppData.UserDefaults) : State :=
  let s : State :=
    { stream := Launch.bind d, views := ⟨none, [], []⟩, launches := 0, made := 0 }
  let s := showSplashView s
  { s with launches := s.launches + 1 }

/-- A scheduled launch, if there is one. -/
def launchApp (s : State) : State × List InitializeStatus :=
  if s.launches = 0 then (s, [])
  else
    let r := Launch.step s.stream .launchApp
    ({ s with stream := r.1, launches := s.launches - 1 }, r.2)

/-- What an input does before the statuses it leads to are handled. -/
def receive (s : State) : Input → State × List InitializeStatus
  | .launchApp => launchApp s
  | .user .relaunch => (viewDidLoad s.stream.user.defaults, [])
  | .user i =>
    let r := Launch.step s.stream (.user i)
    ({ s with stream := r.1 }, r.2)
  | .switchView type => (switchViewType s type, [])
  | .completion index => ({ s with views := s.views.finish index }, [])

def step (s : State) (i : Input) : State × List InitializeStatus :=
  let r := receive s i
  (r.2.foldl initializedApp r.1, r.2)

def machine : Machine State Input InitializeStatus := ⟨step⟩

/-! ## The view controllers -/

/-- Every view controller the root knows has been made, and they are handed over in order. -/
structure Sound (s : State) : Prop where
  orderly : s.views.Orderly
  known : ∀ c, s.views.Known c → c.id < s.made

/-- A view that is asked for while the current one is already being left. -/
def contested (s : State) : Nat := if s.views.contested then 1 else 0

theorem fresh {s : State} (hs : Sound s) (screen : Screen) :
    s.views.Fresh ⟨s.made, screen⟩ := fun h => Nat.lt_irrefl _ (hs.known _ h)

theorem sound_transition {s : State} (hs : Sound s) (screen : Screen) :
    Sound (transitionViewController s screen) := by
  refine ⟨hs.orderly.start (fresh hs screen), fun c hc => ?_⟩
  show c.id < s.made + 1
  obtain rfl | hc := Handovers.known_start hs.orderly hc
  · exact Nat.lt_succ_self s.made
  · have h := hs.known c hc
    omega

theorem sound_transitionCurrent {s : State} (hs : Sound s) (screen : Screen) :
    Sound (transitionCurrentViewController s screen) := by
  refine ⟨hs.orderly.replace (fresh hs screen), fun c hc => ?_⟩
  show c.id < s.made + 1
  obtain rfl | hc := Handovers.known_replace hc
  · exact Nat.lt_succ_self s.made
  · have h := hs.known c hc
    omega

theorem sound_switchViewType {s : State} (hs : Sound s) (type : PresentViewType) :
    Sound (switchViewType s type) := by
  cases type with
  | normal => exact sound_transition hs .tabBarMenu
  | splash => exact sound_transitionCurrent hs .splash
  | login => exact sound_transition hs .login
  | error type => exact hs

theorem sound_initializedApp {s : State} (hs : Sound s) (status : InitializeStatus) :
    Sound (initializedApp s status) := by
  cases status with
  | success => exact sound_switchViewType hs .normal
  | notLogin => exact sound_switchViewType hs .login
  | error type => exact ⟨hs.orderly, hs.known⟩

theorem sound_viewDidLoad (d : AppData.UserDefaults) : Sound (viewDidLoad d) := by
  refine ⟨⟨⟨⟨0, .splash⟩, rfl, List.mem_singleton_self _⟩, List.nodup_singleton _, ?_, ?_, ?_,
    List.nodup_nil⟩, ?_⟩
  · exact fun p hp => absurd hp List.not_mem_nil
  · exact fun p hp => absurd hp List.not_mem_nil
  · exact fun p hp => absurd hp List.not_mem_nil
  · intro c hc
    obtain hc | hc := hc
    · rw [List.mem_singleton.mp hc]
      exact Nat.zero_lt_one
    · exact absurd hc List.not_mem_nil

theorem receive_user {s : State} {i : UserModel.Input} (hi : i ≠ .relaunch) :
    receive s (.user i) = ({ s with stream := (Launch.step s.stream (.user i)).1 },
      (Launch.step s.stream (.user i)).2) := by
  cases i with
  | relaunch => exact absurd rfl hi
  | _ => rfl

theorem launchApp_views (s : State) :
    (launchApp s).1.views = s.views ∧ (launchApp s).1.made = s.made := by
  unfold launchApp
  split
  · exact ⟨rfl, rfl⟩
  · exact ⟨rfl, rfl⟩

theorem sound_receive {s : State} (hs : Sound s) (i : Input) : Sound (receive s i).1 := by
  cases i with
  | launchApp =>
    obtain ⟨hviews, hmade⟩ := launchApp_views s
    exact ⟨hviews ▸ hs.orderly, fun c hc => hmade ▸ hs.known c (hviews ▸ hc)⟩
  | user i =>
    cases i with
    | relaunch => exact sound_viewDidLoad s.stream.user.defaults
    | _ => exact ⟨hs.orderly, hs.known⟩
  | switchView type => exact sound_switchViewType hs type
  | completion index =>
    exact ⟨hs.orderly.finish index, fun c hc => hs.known c (Handovers.known_finish hc)⟩

theorem sound_statuses {s : State} (hs : Sound s) (statuses : List InitializeStatus) :
    Sound (statuses.foldl initializedApp s) := by
  induction statuses generalizing s with
  | nil => exact hs
  | cons status statuses ih => exact ih (sound_initializedApp hs status)

theorem sound_step (s : State) (i : Input) (hs : Sound s) : Sound (machine.next s i) :=
  sound_statuses (sound_receive hs i) _

/-! ## Views that are left behind -/

/-- How many of the views a status asks for are asked for while the current one is being left. -/
def contestedBy (s : State) : InitializeStatus → Nat
  | .success | .notLogin => contested s
  | .error _ => 0

def contestedByAll (s : State) : List InitializeStatus → Nat
  | [] => 0
  | status :: rest => contestedBy s status + contestedByAll (initializedApp s status) rest

def contestedByType (s : State) : PresentViewType → Nat
  | .error _ => 0
  | .normal | .login | .splash => contested s

/-- How many views have been asked for, since the view was loaded, while the current one was being
left. -/
def collisions (s : State) (i : Input) (n : Nat) : Nat :=
  match i with
  | .user .relaunch => 0
  | .switchView type => n + contestedByType s type
  | i => n + contestedByAll (receive s i).1 (receive s i).2

theorem staying_switchViewType {s : State} (hs : Sound s) (type : PresentViewType) :
    (switchViewType s type).views.staying = s.views.staying + contestedByType s type := by
  cases type with
  | normal => exact Handovers.staying_start hs.orderly (fresh hs .tabBarMenu)
  | splash => exact Handovers.staying_replace hs.orderly (fresh hs .splash)
  | login => exact Handovers.staying_start hs.orderly (fresh hs .login)
  | error type => rfl

theorem staying_initializedApp {s : State} (hs : Sound s) (status : InitializeStatus) :
    (initializedApp s status).views.staying = s.views.staying + contestedBy s status := by
  cases status with
  | success => exact staying_switchViewType hs .normal
  | notLogin => exact staying_switchViewType hs .login
  | error type => rfl

theorem staying_statuses {s : State} (hs : Sound s) (statuses : List InitializeStatus) :
    (statuses.foldl initializedApp s).views.staying =
      s.views.staying + contestedByAll s statuses := by
  induction statuses generalizing s with
  | nil => rfl
  | cons status statuses ih =>
    rw [List.foldl_cons, ih (sound_initializedApp hs status), staying_initializedApp hs,
      contestedByAll]
    omega

/-- One view stays, and one more for each that was asked for while the current one was left. -/
def Counted (s : State) (n : Nat) : Prop := Sound s ∧ s.views.staying = 1 + n

theorem counted_step {s : State} {n : Nat} (h : Counted s n) (i : Input) :
    Counted (machine.next s i) (collisions s i n) := by
  obtain ⟨hs, hn⟩ := h
  refine ⟨sound_step s i hs, ?_⟩
  show ((receive s i).2.foldl initializedApp (receive s i).1).views.staying = _
  rw [staying_statuses (sound_receive hs i)]
  cases i with
  | launchApp =>
    show (launchApp s).1.views.staying + contestedByAll (launchApp s).1 (launchApp s).2 =
      1 + (n + contestedByAll (launchApp s).1 (launchApp s).2)
    rw [(launchApp_views s).1, hn]
    omega
  | user i =>
    cases i with
    | relaunch => rfl
    | _ =>
      show s.views.staying + contestedByAll _ _ = 1 + (n + contestedByAll _ _)
      rw [hn]
      exact Nat.add_assoc 1 n _
  | switchView type =>
    show (switchViewType s type).views.staying + 0 = _
    rw [staying_switchViewType hs, hn, collisions]
    omega
  | completion index =>
    show (s.views.finish index).staying + 0 = _
    rw [Handovers.staying_finish hs.orderly, hn]
    rfl

theorem counted_run (d : AppData.UserDefaults) (is : List Input) :
    Counted (machine.run (viewDidLoad d) is)
      (machine.history collisions (viewDidLoad d) 0 is) := by
  have hcounted : Counted (viewDidLoad d) 0 := ⟨sound_viewDidLoad d, rfl⟩
  have hrun := ((machine.withHistory collisions).always_of_inv
    (P := fun p => Counted p.1 p.2) (fun p i hp => counted_step hp i)
    (s := (viewDidLoad d, 0)) hcounted is).last
  rw [machine.run_withHistory] at hrun
  exact hrun

/-- In every run the current view controller is a child of the root, and so is every one that a
transition leads to; at rest the children are one more than the views that were asked for while
the current one was being left. -/
theorem run_children (d : AppData.UserDefaults) (is : List Input) :
    let s := machine.run (viewDidLoad d) is
    let n := machine.history collisions (viewDidLoad d) 0 is
    s.views.Orderly ∧ s.views.staying = 1 + n ∧
      (s.views.pending = [] → s.views.members.length = 1 + n) := by
  obtain ⟨hs, hn⟩ := counted_run d is
  exact ⟨hs.orderly, hn, fun hp => Handovers.staying_of_pending hp ▸ hn⟩

/-! ## Waiting on the splash -/

def isAutoLogin : UserModel.Operation → Bool
  | .autoLoginAccount _ _ => true
  | _ => false

/-- Something is under way that leads to another view. -/
def Awaiting (s : State) : Prop :=
  0 < s.launches ∨ s.views.pending ≠ [] ∨ ∃ op ∈ s.stream.user.pending, isAutoLogin op = true

/-- No transition leads to the splash. -/
structure Passing (s : State) : Prop where
  sound : Sound s
  views : ∀ p ∈ s.views.pending, p.2.screen ≠ .splash

def showsSplash (s : State) : Prop := ∃ c, s.views.current = some c ∧ c.screen = .splash

/-- While the splash is shown, something is under way. -/
def Leaves (s : State) : Prop := Passing s ∧ (showsSplash s → Awaiting s)

theorem pending_transition {s : State} (hs : Sound s) (screen : Screen) :
    (transitionViewController s screen).views.pending ≠ [] := by
  obtain ⟨old, hc, -⟩ := hs.orderly.current_mem
  show (s.views.start _).pending ≠ []
  rw [Handovers.start_eq hc]
  exact List.append_ne_nil_of_right_ne_nil _ (List.cons_ne_nil _ _)

theorem views_transition {s : State} {screen : Screen} (hscreen : screen ≠ .splash)
    (h : ∀ p ∈ s.views.pending, p.2.screen ≠ .splash) :
    ∀ p ∈ (transitionViewController s screen).views.pending, p.2.screen ≠ .splash := by
  intro p hp
  change p ∈ (s.views.start _).pending at hp
  unfold Handovers.start at hp
  split at hp
  · exact h p hp
  · obtain hp | hp := List.mem_append.mp hp
    · exact h p hp
    · rw [List.mem_singleton.mp hp]
      exact hscreen

theorem passing_transition {s : State} (h : Passing s) {screen : Screen}
    (hscreen : screen ≠ .splash) : Passing (transitionViewController s screen) :=
  ⟨sound_transition h.sound screen, views_transition hscreen h.views⟩

/-- Whatever its status, a launch that ends leads to another view or to another launch. -/
theorem passing_initializedApp {s : State} (h : Passing s) (status : InitializeStatus) :
    Passing (initializedApp s status) ∧ Awaiting (initializedApp s status) := by
  cases status with
  | success =>
    exact ⟨passing_transition h (by decide), .inr (.inl (pending_transition h.sound .tabBarMenu))⟩
  | notLogin =>
    exact ⟨passing_transition h (by decide), .inr (.inl (pending_transition h.sound .login))⟩
  | error type => exact ⟨⟨⟨h.sound.orderly, h.sound.known⟩, h.views⟩, .inl (Nat.succ_pos _)⟩

theorem passing_statuses {s : State} (h : Passing s) {statuses : List InitializeStatus}
    (hne : statuses ≠ []) :
    Passing (statuses.foldl initializedApp s) ∧ Awaiting (statuses.foldl initializedApp s) := by
  induction statuses generalizing s with
  | nil => exact absurd rfl hne
  | cons status statuses ih =>
    have hstatus := passing_initializedApp h status
    cases statuses with
    | nil => exact hstatus
    | cons next statuses => exact ih hstatus.1 (List.cons_ne_nil _ _)

theorem leaves_statuses {s : State} (h : Passing s) {statuses : List InitializeStatus}
    (hwaits : statuses ≠ [] ∨ (showsSplash s → Awaiting s)) :
    Leaves (statuses.foldl initializedApp s) := by
  cases statuses with
  | nil =>
    obtain hne | hs := hwaits
    · exact absurd rfl hne
    · exact ⟨h, hs⟩
  | cons status statuses =>
    obtain ⟨hp, ha⟩ := passing_statuses h (List.cons_ne_nil status statuses)
    exact ⟨hp, fun _ => ha⟩

/-! What the launch chain makes of an answer. -/

theorem handle_autoLogin (mail pass : String) (o : UserModel.Outcome) :
    (∃ b, .onNext b ∈ UserModel.handle (.autoLoginAccount mail pass) o) ∨
      .onError ∈ UserModel.handle (.autoLoginAccount mail pass) o := by
  cases o with
  | error => exact .inr (List.mem_singleton_self _)
  | response r =>
    refine .inl ?_
    cases hi : Launch.signedIn (.response r) with
    | some c =>
      obtain ⟨uid, client, accessToken⟩ := c
      rw [Launch.handle_signedIn hi]
      exact ⟨true, by simp⟩
    | none =>
      cases hr : Launch.refused (.response r) with
      | true =>
        rw [Launch.handle_refused hr]
        exact ⟨false, List.mem_append_right _ (List.mem_singleton_self _)⟩
      | false =>
        rw [Launch.handle_failed hi hr]
        exact ⟨false, List.mem_singleton_self _⟩

theorem mem_signals {t : UserModel.State} {ts : List UserModel.Statement}
    {statement : UserModel.Statement} (h : statement ∈ ts) :
    ∃ t', ∀ x ∈ UserModel.signal t' statement, x ∈ UserModel.signals t ts := by
  induction ts generalizing t with
  | nil => exact absurd h List.not_mem_nil
  | cons first ts ih =>
    obtain rfl | h := List.mem_cons.mp h
    · exact ⟨_, fun x hx => List.mem_append_left _ hx⟩
    · obtain ⟨t', ht'⟩ := ih (t := UserModel.exec t first) h
      exact ⟨t', fun x hx => List.mem_append_right _ (ht' x hx)⟩

theorem observe_ne_nil {seen : Option Bool} {signals : List UserModel.Signal}
    (h : (∃ b, .onNext b ∈ signals) ∨ .onError ∈ signals) :
    (Launch.observe true seen signals).2 ≠ [] := by
  induction signals generalizing seen with
  | nil =>
    obtain ⟨b, hb⟩ | he := h
    · exact absurd hb List.not_mem_nil
    · exact absurd he List.not_mem_nil
  | cons signal signals ih =>
    cases signal with
    | onNext b => exact List.cons_ne_nil _ _
    | onError => exact List.cons_ne_nil _ _
    | request target =>
      refine ih (h.imp ?_ ?_)
      · rintro ⟨b, hb⟩
        exact ⟨b, (List.mem_cons.mp hb).resolve_left (by simp)⟩
      · intro he
        exact (List.mem_cons.mp he).resolve_left (by simp)
    | isRegistered b =>
      refine List.append_ne_nil_of_right_ne_nil _ (ih (h.imp ?_ ?_))
      · rintro ⟨b, hb⟩
        exact ⟨b, (List.mem_cons.mp hb).resolve_left (by simp)⟩
      · intro he
        exact (List.mem_cons.mp he).resolve_left (by simp)

/-- The answer to an automatic sign-in ends in a status. -/
theorem statuses_ne_nil {s : Launch.State} {index : Nat} {mail pass : String}
    (hop : s.user.pending[index]? = some (.autoLoginAccount mail pass)) (o : UserModel.Outcome) :
    (Launch.step s (.user (.answer index o))).2 ≠ [] := by
  show (Launch.observe (Launch.belongsToLaunch s.user (.answer index o)) s.seen
    (UserModel.act s.user (.answer index o)).2).2 ≠ []
  have hlaunch : Launch.belongsToLaunch s.user (.answer index o) = true := by
    simp only [Launch.belongsToLaunch, hop]
  have hstatements : UserModel.statements s.user (.answer index o) =
      UserModel.handle (.autoLoginAccount mail pass) o := by
    simp only [UserModel.statements, hop]
  rw [hlaunch]
  refine observe_ne_nil ?_
  show (∃ b, _ ∈ [] ++ UserModel.signals s.user (UserModel.statements s.user (.answer index o))) ∨
    _ ∈ [] ++ UserModel.signals s.user (UserModel.statements s.user (.answer index o))
  rw [hstatements, List.nil_append]
  refine (handle_autoLogin mail pass o).imp ?_ ?_
  · rintro ⟨b, hb⟩
    obtain ⟨t', ht'⟩ := mem_signals (t := s.user) hb
    exact ⟨b, ht' _ (List.mem_singleton_self _)⟩
  · intro he
    obtain ⟨t', ht'⟩ := mem_signals (t := s.user) he
    exact ht' _ (List.mem_singleton_self _)

theorem isAutoLogin_iff {op : UserModel.Operation} :
    isAutoLogin op = true ↔ ∃ mail pass, op = .autoLoginAccount mail pass := by
  cases op <;> simp [isAutoLogin]

/-- An automatic sign-in is in flight until it is answered. -/
theorem autoLogin_step {s : Launch.State} {i : UserModel.Input} (hi : i ≠ .relaunch)
    (h : ∃ op ∈ s.user.pending, isAutoLogin op = true) :
    (Launch.step s (.user i)).2 ≠ [] ∨
      ∃ op ∈ (Launch.step s (.user i)).1.user.pending, isAutoLogin op = true := by
  have hpending : (Launch.step s (.user i)).1.user.pending =
      UserModel.pendingAfter s.user i := by
    cases i with
    | relaunch => exact absurd rfl hi
    | _ => rfl
  rw [hpending]
  obtain ⟨op, hop, hauto⟩ := h
  cases i with
  | relaunch => exact absurd rfl hi
  | answer index o =>
    by_cases hat : s.user.pending[index]? = some op
    · obtain ⟨mail, pass, rfl⟩ := isAutoLogin_iff.mp hauto
      exact .inl (statuses_ne_nil hat o)
    · refine .inr ⟨op, ?_, hauto⟩
      obtain ⟨j, hj⟩ := List.mem_iff_getElem?.mp hop
      have hne : j ≠ index := fun he => hat (he ▸ hj)
      show op ∈ s.user.pending.eraseIdx index
      exact List.mem_eraseIdx_iff_getElem?.mpr ⟨j, hne, hj⟩
  | _ => exact .inr ⟨op, List.mem_append_left _ hop, hauto⟩

theorem leaves_launchApp {s : State} (h : Leaves s) :
    Passing (launchApp s).1 ∧
      ((launchApp s).2 ≠ [] ∨ (showsSplash (launchApp s).1 → Awaiting (launchApp s).1)) := by
  obtain ⟨hp, hw⟩ := h
  unfold launchApp
  by_cases hl : s.launches = 0
  · rw [if_pos hl]
    exact ⟨hp, .inr hw⟩
  · rw [if_neg hl]
    refine ⟨⟨⟨hp.sound.orderly, hp.sound.known⟩, hp.views⟩, ?_⟩
    cases hr : s.stream.user.isRegistered with
    | true =>
      refine .inr fun _ => .inr (.inr ?_)
      simp only [Launch.step, hr, if_true]
      exact ⟨_, List.mem_append_right _ (List.mem_singleton_self _), rfl⟩
    | false =>
      refine .inl ?_
      simp only [Launch.step, hr, Bool.false_eq_true, if_false]
      exact List.cons_ne_nil _ _

theorem leaves_finish {s : State} (h : Leaves s) (index : Nat) :
    Leaves { s with views := s.views.finish index } := by
  obtain ⟨hp, hw⟩ := h
  cases hi : s.views.pending[index]? with
  | none =>
    have hsame : s.views.finish index = s.views := by rw [Handovers.finish, hi]
    rw [hsame]
    exact ⟨hp, hw⟩
  | some p =>
    obtain ⟨old, new⟩ := p
    have hfinish := Handovers.finish_eq hi
    refine ⟨⟨sound_receive hp.sound (.completion index), fun q hq => ?_⟩, ?_⟩
    · change q ∈ (s.views.finish index).pending at hq
      rw [hfinish] at hq
      exact hp.views q (List.mem_of_mem_eraseIdx hq)
    · rintro ⟨c, hc, hsplash⟩
      change (s.views.finish index).current = some c at hc
      rw [hfinish] at hc
      obtain rfl := Option.some.inj hc
      exact absurd hsplash (hp.views _ (List.mem_of_getElem? hi))

theorem leaves_step {s : State} {i : Input} (h : Leaves s) (hi : i ≠ .switchView .splash) :
    Leaves (machine.next s i) := by
  show Leaves ((receive s i).2.foldl initializedApp (receive s i).1)
  cases i with
  | launchApp =>
    obtain ⟨hp, hw⟩ := leaves_launchApp h
    exact leaves_statuses hp hw
  | completion index => exact leaves_finish h index
  | switchView type =>
    cases type with
    | splash => exact absurd rfl hi
    | normal =>
      exact ⟨passing_transition h.1 (by decide),
        fun _ => .inr (.inl (pending_transition h.1.sound .tabBarMenu))⟩
    | login =>
      exact ⟨passing_transition h.1 (by decide),
        fun _ => .inr (.inl (pending_transition h.1.sound .login))⟩
    | error type => exact h
  | user i =>
    by_cases hrelaunch : i = .relaunch
    · subst hrelaunch
      exact ⟨⟨sound_viewDidLoad _, fun p hp => absurd hp List.not_mem_nil⟩,
        fun _ => .inl Nat.zero_lt_one⟩
    · have hp : Passing { s with stream := (Launch.step s.stream (.user i)).1 } :=
        ⟨⟨h.1.sound.orderly, h.1.sound.known⟩, h.1.views⟩
      rw [receive_user hrelaunch]
      refine leaves_statuses hp ?_
      by_cases hauto : ∃ op ∈ s.stream.user.pending, isAutoLogin op = true
      · obtain hne | hop := autoLogin_step hrelaunch hauto
        · exact .inl hne
        · exact .inr fun _ => .inr (.inr hop)
      · refine .inr fun hs => ?_
        obtain hl | hpend | hop := h.2 hs
        · exact .inl hl
        · exact .inr (.inl hpend)
        · exact absurd hop hauto

/-- The app is never stuck on the splash: as long as it is shown, a launch is scheduled, an
automatic sign-in is in flight or a transition to another view has started. -/
theorem run_leaves (d : AppData.UserDefaults) (is : List Input)
    (his : ∀ i ∈ is, i ≠ .switchView .splash)
    (hsplash : showsSplash (machine.run (viewDidLoad d) is)) :
    Awaiting (machine.run (viewDidLoad d) is) := by
  have h0 : Leaves (viewDidLoad d) :=
    ⟨⟨sound_viewDidLoad d, fun p hp => absurd hp List.not_mem_nil⟩, fun _ => .inl Nat.zero_lt_one⟩
  have hrun := machine.always_of_step (fun s i h hi => leaves_step h hi) h0
    (machine.along_of_forall (viewDidLoad d) his)
  exact hrun.last.2 hsplash

theorem run_leaves_firstLaunch :
    Awaiting (machine.run (viewDidLoad AppData.resetALL) [.launchApp]) :=
  run_leaves AppData.resetALL [.launchApp] (by simp) ⟨⟨0, .splash⟩, by decide, rfl⟩

/-! ## The view that was asked for last -/

def screenOf (screen : Screen) : InitializeStatus → Screen
  | .success => .tabBarMenu
  | .notLogin => .login
  | .error _ => screen

/-- The screen that was asked for last. -/
def asked (s : State) (i : Input) (screen : Screen) : Screen :=
  match i with
  | .user .relaunch => .splash
  | .switchView .normal => .tabBarMenu
  | .switchView .login => .login
  | .switchView .splash => .splash
  | .switchView (.error _) => screen
  | i => (receive s i).2.foldl screenOf screen

/-- Transitions complete in the order in which they started, and the splash does not come back
in the middle of one. -/
def InOrder (s : State) : Input → Prop
  | .completion index => index = 0
  | .switchView .splash => s.views.pending = []
  | _ => True

/-- The transitions lead to the screen. -/
def LeadsTo (s : State) (screen : Screen) : Prop :=
  Sound s ∧ s.views.latest.map (·.screen) = some screen

theorem leadsTo_transition {s : State} (hs : Sound s) (screen : Screen) :
    LeadsTo (transitionViewController s screen) screen := by
  refine ⟨sound_transition hs screen, ?_⟩
  obtain ⟨old, hc, -⟩ := hs.orderly.current_mem
  show (s.views.start _).latest.map _ = _
  rw [Handovers.latest_start hc]
  rfl

theorem leadsTo_statuses {s : State} {screen : Screen} (h : LeadsTo s screen)
    (statuses : List InitializeStatus) :
    LeadsTo (statuses.foldl initializedApp s) (statuses.foldl screenOf screen) := by
  induction statuses generalizing s screen with
  | nil => exact h
  | cons status statuses ih =>
    rw [List.foldl_cons, List.foldl_cons]
    refine ih ?_
    cases status with
    | success => exact leadsTo_transition h.1 .tabBarMenu
    | notLogin => exact leadsTo_transition h.1 .login
    | error type => exact ⟨⟨h.1.orderly, h.1.known⟩, h.2⟩

theorem leadsTo_step {s : State} {i : Input} {screen : Screen} (h : LeadsTo s screen)
    (hi : InOrder s i) : LeadsTo (machine.next s i) (asked s i screen) := by
  cases i with
  | launchApp =>
    obtain ⟨hviews, hmade⟩ := launchApp_views s
    have hl : LeadsTo (launchApp s).1 screen :=
      ⟨sound_receive h.1 .launchApp, by rw [hviews]; exact h.2⟩
    exact leadsTo_statuses hl (launchApp s).2
  | completion index =>
    obtain rfl : index = 0 := hi
    refine ⟨sound_receive h.1 (.completion 0), ?_⟩
    show (s.views.finish 0).latest.map _ = _
    rw [Handovers.latest_finish_zero]
    exact h.2
  | switchView type =>
    cases type with
    | normal => exact leadsTo_transition h.1 .tabBarMenu
    | login => exact leadsTo_transition h.1 .login
    | error type => exact h
    | splash =>
      refine ⟨sound_transitionCurrent h.1 .splash, ?_⟩
      show (s.views.replace _).latest.map _ = _
      rw [Handovers.latest_replace hi]
      rfl
  | user i =>
    by_cases hrelaunch : i = .relaunch
    · subst hrelaunch
      exact ⟨sound_viewDidLoad _, rfl⟩
    · have hasked : asked s (.user i) screen = (receive s (.user i)).2.foldl screenOf screen := by
        cases i with
        | relaunch => exact absurd rfl hrelaunch
        | _ => rfl
      have hl : LeadsTo { s with stream := (Launch.step s.stream (.user i)).1 } screen :=
        ⟨⟨h.1.orderly, h.1.known⟩, h.2⟩
      show LeadsTo ((receive s (.user i)).2.foldl initializedApp (receive s (.user i)).1) _
      rw [hasked, receive_user hrelaunch]
      exact leadsTo_statuses hl _

/-- When transitions complete in the order in which they started, the root comes to rest on the
screen that was asked for last. -/
theorem run_latest (d : AppData.UserDefaults) (is : List Input)
    (his : machine.Along InOrder (viewDidLoad d) is)
    (hrest : (machine.run (viewDidLoad d) is).views.pending = []) :
    ∃ c, (machine.run (viewDidLoad d) is).views.current = some c ∧
      c.screen = machine.history asked (viewDidLoad d) .splash is := by
  have h0 : LeadsTo (viewDidLoad d) .splash := ⟨sound_viewDidLoad d, rfl⟩
  have hrun := ((machine.withHistory asked).always_of_step
    (P := fun p => LeadsTo p.1 p.2) (C := fun p i => InOrder p.1 i)
    (fun p i hp hi => leadsTo_step hp hi) (s := (viewDidLoad d, .splash)) h0
    ((machine.along_withHistory InOrder asked _ _ is).mpr his)).last
  rw [machine.run_withHistory] at hrun
  obtain ⟨-, hlatest⟩ := hrun
  rw [Handovers.latest_of_pending hrest] at hlatest
  exact Option.map_eq_some_iff.mp hlatest

theorem run_latest_firstLaunch :
    ∃ c, (machine.run (viewDidLoad AppData.resetALL) [.launchApp, .completion 0]).views.current =
        some c ∧
      c.screen = machine.history asked (viewDidLoad AppData.resetALL) .splash
        [.launchApp, .completion 0] :=
  run_latest AppData.resetALL [.launchApp, .completion 0] ⟨trivial, rfl, trivial⟩ (by decide)

end Karupasu.Root.RootViewController
