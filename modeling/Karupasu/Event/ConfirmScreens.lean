import Karupasu.Event.Confirm
import Karupasu.Event.Create
import Karupasu.Event.Edit

/-!
# From the form to the server

A tuple that the form hands on opens a confirm screen of its own: the property
`eventConfirmViewController` makes a new one each time it is read. A screen that was left keeps
its posts in flight, and the form can be edited and checked again meanwhile.
-/
namespace Karupasu.Event

/-- A screen with a form, and the confirm screens it opens. -/
structure ConfirmScreens (σ ι ο α Image ImageData : Type) where
  form : Library.Machine σ ι ο
  /-- The subscription to `checkData`. -/
  checkData : ο → Option α
  kind : Confirm.Kind α
  thumbnail : α → Image
  /-- `jpegData(compressionQuality: 0.3)` -/
  jpegData : Image → Option ImageData

namespace ConfirmScreens

open Karupasu.Library
open Karupasu.Event.Confirm (Post)

variable {σ ι ο α Image ImageData : Type}

structure State (σ α : Type) where
  form : σ
  /-- The streams of the confirm screens, in the order in which they were opened. -/
  screens : List (Confirm.State α)

/-- What happens on a confirm screen, or to its requests. -/
inductive Action where
  | viewWillAppear
  | tapPostBtn
  | putDataAnswer (index : Nat) (isSuccess : Bool)
  | downloadURLAnswer (index : Nat) (answer : Confirm.Download)
  | eventAnswer (index : Nat) (event : Option EventModel.Event)

inductive Input (ι : Type) where
  | form (input : ι)
  | screen (index : Nat) (action : Action)

inductive Output (ο α ImageData : Type) where
  | form (output : ο)
  | screen (index : Nat) (output : Confirm.Output α ImageData)

variable (flow : ConfirmScreens σ ι ο α Image ImageData)

/-- The input of the stream behind a screen. -/
def toConfirm (screen : Confirm.State α) : Action → Confirm.Input α ImageData
  | .viewWillAppear => .loadData
  | .tapPostBtn =>
    .postData (screen.current.bind fun data => flow.jpegData (flow.thumbnail data))
  | .putDataAnswer index isSuccess => .putDataAnswer index isSuccess
  | .downloadURLAnswer index answer => .downloadURLAnswer index answer
  | .eventAnswer index event => .eventAnswer index event

/-- A new confirm screen is given its tuple. -/
def setData (data : α) : Confirm.State α × List (Confirm.Output α ImageData) :=
  Confirm.step flow.kind Confirm.start (.setData data)

/-- The screens opened for some tuples, and their outputs; `index` is that of the first. -/
def pushAll (index : Nat) : List α → List (Confirm.State α) × List (Output ο α ImageData)
  | [] => ([], [])
  | data :: rest =>
    let (screen, out) := flow.setData data
    let (screens, outs) := pushAll (index + 1) rest
    (screen :: screens, out.map (.screen index) ++ outs)

def step (s : State σ α) : Input ι → State σ α × List (Output ο α ImageData)
  | .form input =>
    let (form, out) := flow.form.step s.form input
    let (screens, outs) := flow.pushAll s.screens.length (out.filterMap flow.checkData)
    (⟨form, s.screens ++ screens⟩, out.map .form ++ outs)
  | .screen index action =>
    match s.screens[index]? with
    | some screen =>
      let (screen', out) := Confirm.step flow.kind screen (flow.toConfirm screen action)
      ({ s with screens := s.screens.set index screen' }, out.map (.screen index))
    | none => (s, [])

def machine : Machine (State σ α) (Input ι) (Output ο α ImageData) := ⟨flow.step⟩

def start (form : σ) : State σ α := ⟨form, []⟩

/-! ## The trace of a run -/

/-- The tuple an output of the form hands on. -/
def handed? : Output ο α ImageData → Option α
  | .form output => flow.checkData output
  | .screen _ _ => none

/-- The tuples handed on so far. -/
def handed (trace : List (Output ο α ImageData)) : List α := trace.filterMap flow.handed?

/-- The tuples handed on by an input of the form. -/
def checkedBy (s : State σ α) (input : ι) : List α :=
  (flow.form.emit s.form input).filterMap flow.checkData

def told? (index : Nat) : Output ο α ImageData → Option (Confirm.Output α ImageData)
  | .form _ => none
  | .screen index' output => if index' = index then some output else none

/-- The outputs of one screen. -/
def told (index : Nat) (trace : List (Output ο α ImageData)) :
    List (Confirm.Output α ImageData) := trace.filterMap (told? index)

/-- What was reported so far. -/
def trace (s : State σ α) (i : Input ι) (h : List (Output ο α ImageData)) :
    List (Output ο α ImageData) := h ++ flow.machine.emit s i

section Trace

variable {flow}

@[simp] theorem handed_append (t u : List (Output ο α ImageData)) :
    flow.handed (t ++ u) = flow.handed t ++ flow.handed u := List.filterMap_append

@[simp] theorem told_append (k : Nat) (t u : List (Output ο α ImageData)) :
    told k (t ++ u) = told k t ++ told k u := List.filterMap_append

@[simp] theorem handed_form (out : List ο) :
    flow.handed (out.map .form) = out.filterMap flow.checkData := by
  rw [handed, List.filterMap_map]
  rfl

@[simp] theorem handed_screen (k : Nat) (out : List (Confirm.Output α ImageData)) :
    flow.handed (out.map (.screen k)) = [] := by
  rw [handed, List.filterMap_map, List.filterMap_eq_nil_iff]
  exact fun _ _ => rfl

@[simp] theorem told_form (k : Nat) (out : List ο) :
    told k (out.map .form : List (Output ο α ImageData)) = [] := by
  rw [told, List.filterMap_map, List.filterMap_eq_nil_iff]
  exact fun _ _ => rfl

theorem told_screen_self (k : Nat) (out : List (Confirm.Output α ImageData)) :
    told k (out.map (.screen k) : List (Output ο α ImageData)) = out := by
  rw [told, List.filterMap_map]
  have hf : (told? k : Output ο α ImageData → _) ∘ .screen k = some := by
    funext output
    exact if_pos rfl
  rw [hf, List.filterMap_some]

theorem told_screen_ne {j k : Nat} (h : j ≠ k) (out : List (Confirm.Output α ImageData)) :
    told k (out.map (.screen j) : List (Output ο α ImageData)) = [] := by
  rw [told, List.filterMap_map, List.filterMap_eq_nil_iff]
  exact fun _ _ => if_neg h

theorem mem_told {k : Nat} {output : Confirm.Output α ImageData}
    {t : List (Output ο α ImageData)} : output ∈ told k t ↔ .screen k output ∈ t := by
  rw [told, List.mem_filterMap]
  constructor
  · intro h
    obtain ⟨o, ho, hk⟩ := h
    cases o with
    | form output' => cases hk
    | screen j output' =>
      by_cases hj : j = k
      · subst hj
        have he : some output' = some output := (if_pos rfl).symm.trans hk
        cases he
        exact ho
      · have he : none = some output := (if_neg hj).symm.trans hk
        cases he
  · intro h
    exact ⟨_, h, if_pos rfl⟩

end Trace

/-! ## One screen -/

/-- What one screen holds: the tuple it was opened with, posts of it that were uploaded once and
have not been requested, and posts of it that wait for their answer. -/
structure Carried (data : α) (screen : Confirm.State α)
    (out : List (Confirm.Output α ImageData)) : Prop where
  current : screen.current = some data
  posts : ∀ post ∈ screen.uploads ++ screen.urls, post.data = data ∧ post.number < screen.posted ∧
    (∃ imageData, flow.jpegData (flow.thumbnail data) = some imageData ∧
      .putData post.number imageData ∈ out) ∧ ∀ target, .request post.number target ∉ out
  unique : ((screen.uploads ++ screen.urls).map Post.number).Nodup
  requested : ∀ n target, .request n target ∈ out → n < screen.posted
  asked : ∀ post ∈ screen.requests, post.data = data

/-- What an output of a screen tells: the tuple shown is the screen's, a request is made of it and
of the URL just answered, after its thumbnail was uploaded and never twice for a tap, and a result
is true at an event with its title. -/
def Faithful (data : α) (out : List (Confirm.Output α ImageData)) (action : Action) :
    Confirm.Output α ImageData → Prop
  | .showData shown => shown = data
  | .request n target =>
    (∃ index imageUrl, action = .downloadURLAnswer index (.url imageUrl) ∧
      target = flow.kind.request data imageUrl) ∧
    (∃ imageData, flow.jpegData (flow.thumbnail data) = some imageData ∧
      .putData n imageData ∈ out) ∧ ∀ target', .request n target' ∉ out
  | .postResult _ isSuccess =>
    isSuccess = true → ∃ index event, action = .eventAnswer index (some event) ∧
      event.title = flow.kind.title data
  | .putData _ _ | .downloadURL _ => True

section Screen

variable {flow} {data : α} {screen : Confirm.State α} {out : List (Confirm.Output α ImageData)}

theorem carried_setData (data : α) :
    flow.Carried data (flow.setData data).1 (flow.setData data).2 := by
  refine ⟨rfl, fun post hp => absurd hp List.not_mem_nil, List.nodup_nil, fun n target hm => ?_,
    fun post hp => absurd hp List.not_mem_nil⟩
  simp only [setData, Confirm.step] at hm
  split at hm
  · rw [List.mem_singleton] at hm
    cases hm
  · cases hm

/-- Outputs that request nothing. -/
theorem Carried.append (h : flow.Carried data screen out)
    {more : List (Confirm.Output α ImageData)} (hm : ∀ n target, .request n target ∉ more) :
    flow.Carried data screen (out ++ more) := by
  refine ⟨h.current, fun post hp => ?_, h.unique, fun n target hr => ?_, h.asked⟩
  · obtain ⟨hd, hn, ⟨imageData, hj, hput⟩, hr⟩ := h.posts post hp
    refine ⟨hd, hn, ⟨imageData, hj, List.mem_append_left _ hput⟩, fun target ht => ?_⟩
    obtain ht | ht := List.mem_append.mp ht
    · exact hr target ht
    · exact hm _ _ ht
  · obtain hr | hr := List.mem_append.mp hr
    · exact h.requested n target hr
    · exact absurd hr (hm n target)

/-- A screen with fewer posts, or the same in another order. -/
theorem Carried.sub (h : flow.Carried data screen out) {t : Confirm.State α}
    (hc : t.current = screen.current) (hp : t.posted = screen.posted)
    (hs : (t.uploads ++ t.urls).Subperm (screen.uploads ++ screen.urls))
    (hq : ∀ post ∈ t.requests, post.data = data) : flow.Carried data t out := by
  refine ⟨hc.trans h.current, fun post hm => ?_, ?_, ?_, hq⟩
  · rw [hp]
    exact h.posts post (hs.subset hm)
  · obtain ⟨l, hl, hsub⟩ := hs
    exact (hl.map Post.number).nodup_iff.mp (h.unique.sublist (hsub.map Post.number))
  · rw [hp]
    exact h.requested

/-- A step that loses posts or passes them on, and requests nothing. -/
theorem Carried.passed (h : flow.Carried data screen out) {t : Confirm.State α}
    (hc : t.current = screen.current) (hp : t.posted = screen.posted)
    (hs : (t.uploads ++ t.urls).Subperm (screen.uploads ++ screen.urls))
    (hq : ∀ post ∈ t.requests, post.data = data)
    {more : List (Confirm.Output α ImageData)} (hm : ∀ n target, .request n target ∉ more) :
    flow.Carried data t (out ++ more) := (h.sub hc hp hs hq).append hm

theorem carried_tapPostBtn (h : flow.Carried data screen out) :
    flow.Carried data (Confirm.step flow.kind screen (flow.toConfirm screen .tapPostBtn)).1
      (out ++ (Confirm.step flow.kind screen (flow.toConfirm screen .tapPostBtn)).2) := by
  have hc := h.current
  cases hj : flow.jpegData (flow.thumbnail data) with
  | none =>
    simp only [toConfirm, hc, Option.bind_some, hj, Confirm.step]
    have hnext : flow.Carried data { screen with posted := screen.posted + 1 } out := by
      refine ⟨hc, fun post hp => ?_, h.unique, fun n target hr => ?_, h.asked⟩
      · obtain ⟨hd, hn, hrest⟩ := h.posts post hp
        exact ⟨hd, Nat.lt_succ_of_lt hn, hrest⟩
      · exact Nat.lt_succ_of_lt (h.requested n target hr)
    have hmore : ∀ n target, (.request n target : Confirm.Output α ImageData) ∉
        [.postResult screen.posted false] := by simp
    simpa only [hc] using hnext.append hmore
  | some imageData =>
    simp only [toConfirm, hc, Option.bind_some, hj, Confirm.step]
    refine ⟨rfl, fun post hp => ?_, ?_, fun n target hr => ?_, h.asked⟩
    · have hp' : post ∈ screen.uploads ++ screen.urls ∨ post = ⟨screen.posted, data⟩ := by
        simp only [List.mem_append, List.mem_singleton] at hp ⊢
        tauto
      obtain hold | rfl := hp'
      · obtain ⟨hd, hn, ⟨imageData', hj', hput⟩, hr⟩ := h.posts post hold
        exact ⟨hd, Nat.lt_succ_of_lt hn, ⟨imageData', hj', List.mem_append_left _ hput⟩,
          fun target ht => hr target (by simpa using ht)⟩
      · refine ⟨rfl, Nat.lt_succ_self _, ⟨imageData, hj, by simp⟩, fun target ht => ?_⟩
        -- the number is new, so nothing was requested under it
        have hlt : screen.posted < screen.posted := h.requested _ target (by simpa using ht)
        omega
    · have hnew : screen.posted ∉ (screen.uploads ++ screen.urls).map Post.number := by
        intro hm
        obtain ⟨post, hp, hn⟩ := List.mem_map.mp hm
        have hlt := (h.posts post hp).2.1
        omega
      have hperm : (screen.uploads ++ [Post.mk screen.posted data] ++ screen.urls).Perm
          (Post.mk screen.posted data :: (screen.uploads ++ screen.urls)) := by
        rw [List.append_assoc]
        exact List.perm_middle
      rw [(hperm.map Post.number).nodup_iff]
      exact List.nodup_cons.mpr ⟨hnew, h.unique⟩
    · exact Nat.lt_succ_of_lt (h.requested n target (by simpa using hr))

/-- The post that was taken out is the only one of its number. -/
theorem Carried.requested_url (h : flow.Carried data screen out) {index : Nat} {post : Post α}
    (hget : screen.urls[index]? = some post) (target : EventProvider) {t : Confirm.State α}
    (hc : t.current = screen.current) (hp : t.posted = screen.posted)
    (hu : t.uploads = screen.uploads) (hl : t.urls = screen.urls.eraseIdx index)
    (hq : t.requests = screen.requests ++ [post]) :
    flow.Carried data t (out ++ [.request post.number target]) := by
  have hsub : (t.uploads ++ t.urls).Sublist (screen.uploads ++ screen.urls) := by
    rw [hu, hl]
    exact (List.eraseIdx_sublist screen.urls index).append_left _
  have hpost := h.posts post (List.mem_append_right _ (List.mem_of_getElem? hget))
  have hasked : ∀ p ∈ t.requests, p.data = data := by
    rw [hq, List.forall_mem_append, List.forall_mem_singleton]
    exact ⟨h.asked, hpost.1⟩
  have ht := h.sub hc hp hsub.subperm hasked
  obtain ⟨hlt, heq⟩ := List.getElem?_eq_some_iff.mp hget
  have hperm : (screen.uploads ++ screen.urls).Perm (post :: (t.uploads ++ t.urls)) := by
    have hcons := List.getElem_cons_eraseIdx_perm hlt
    rw [heq] at hcons
    rw [hu, hl]
    exact (hcons.symm.append_left _).trans List.perm_middle
  have hnew := (List.nodup_cons.mp ((hperm.map Post.number).nodup_iff.mp h.unique)).1
  refine ⟨ht.current, fun p hm => ?_, ht.unique, fun n target' hr => ?_, hasked⟩
  · obtain ⟨hd, hn, ⟨imageData, hj, hput⟩, hr⟩ := ht.posts p hm
    refine ⟨hd, hn, ⟨imageData, hj, List.mem_append_left _ hput⟩, fun target' hr' => ?_⟩
    obtain hr' | hr' := List.mem_append.mp hr'
    · exact hr target' hr'
    · rw [List.mem_singleton] at hr'
      injection hr' with hn'
      exact hnew (hn' ▸ List.mem_map_of_mem hm)
  · rw [hp]
    obtain hr | hr := List.mem_append.mp hr
    · exact h.requested n target' hr
    · rw [List.mem_singleton] at hr
      injection hr with hn'
      rw [hn']
      exact hpost.2.1

theorem carried_step (h : flow.Carried data screen out) (action : Action) :
    flow.Carried data (Confirm.step flow.kind screen (flow.toConfirm screen action)).1
        (out ++ (Confirm.step flow.kind screen (flow.toConfirm screen action)).2) ∧
      ∀ output ∈ (Confirm.step flow.kind screen (flow.toConfirm screen action)).2,
        flow.Faithful data out action output := by
  cases action with
  | viewWillAppear =>
    simp only [toConfirm, Confirm.step, h.current, Option.toList_some, List.map_cons, List.map_nil]
    refine ⟨h.append (by simp), fun output ho => ?_⟩
    rw [List.mem_singleton] at ho
    subst ho
    exact rfl
  | tapPostBtn =>
    refine ⟨carried_tapPostBtn h, fun output ho => ?_⟩
    simp only [toConfirm, Confirm.step] at ho
    split at ho
    · rw [List.mem_singleton] at ho
      subst ho
      trivial
    · rw [List.mem_singleton] at ho
      subst ho
      intro hs
      cases hs
  | putDataAnswer index isSuccess =>
    cases hget : screen.uploads[index]? with
    | none =>
      simp only [toConfirm, Confirm.step, hget]
      exact ⟨h.append (by simp), fun output ho => by cases ho⟩
    | some post =>
      obtain ⟨hlt, heq⟩ := List.getElem?_eq_some_iff.mp hget
      cases isSuccess with
      | false =>
        simp only [toConfirm, Confirm.step, hget, Bool.false_eq_true, if_false]
        have hsub := (List.eraseIdx_sublist screen.uploads index).append_right screen.urls
        refine ⟨h.passed (by rfl) (by rfl) (by exact hsub.subperm) (by exact h.asked) (by simp),
          fun output ho => ?_⟩
        cases ho
      | true =>
        simp only [toConfirm, Confirm.step, hget, if_true]
        have hperm : (screen.uploads.eraseIdx index ++ (screen.urls ++ [post])).Perm
            (screen.uploads ++ screen.urls) := by
          have hcons := List.getElem_cons_eraseIdx_perm hlt
          rw [heq] at hcons
          rw [← List.append_assoc]
          exact (List.perm_append_singleton _ _).trans (hcons.append_right screen.urls)
        refine ⟨h.passed (by rfl) (by rfl) (by exact hperm.subperm) (by exact h.asked) (by simp),
          fun output ho => ?_⟩
        rw [List.mem_singleton] at ho
        subst ho
        trivial
  | downloadURLAnswer index answer =>
    cases hget : screen.urls[index]? with
    | none =>
      simp only [toConfirm, Confirm.step, hget]
      exact ⟨h.append (by simp), fun output ho => by cases ho⟩
    | some post =>
      have hsub := (List.eraseIdx_sublist screen.urls index).append_left screen.uploads
      obtain ⟨hd, _, hput, hr⟩ :=
        h.posts post (List.mem_append_right _ (List.mem_of_getElem? hget))
      cases answer with
      | error | missing =>
        simp only [toConfirm, Confirm.step, hget]
        exact ⟨h.passed (by rfl) (by rfl) (by exact hsub.subperm) (by exact h.asked) (by simp),
          fun output ho => by cases ho⟩
      | url imageUrl =>
        simp only [toConfirm, Confirm.step, hget]
        refine ⟨h.requested_url hget _ rfl rfl rfl rfl rfl, fun output ho => ?_⟩
        rw [List.mem_singleton] at ho
        subst ho
        exact ⟨⟨index, imageUrl, rfl, by rw [hd]⟩, hput, hr⟩
  | eventAnswer index event =>
    cases hget : screen.requests[index]? with
    | none =>
      simp only [toConfirm, Confirm.step, hget]
      exact ⟨h.append (by simp), fun output ho => by cases ho⟩
    | some post =>
      simp only [toConfirm, Confirm.step, hget]
      have hasked : ∀ p ∈ screen.requests.eraseIdx index, p.data = data :=
        fun p hp => h.asked p (List.mem_of_mem_eraseIdx hp)
      refine ⟨h.passed (by rfl) (by rfl) (by rfl) (by exact hasked) (by simp), fun output ho => ?_⟩
      rw [List.mem_singleton] at ho
      subst ho
      intro hs
      cases event with
      | none => cases hs
      | some event =>
        refine ⟨index, event, rfl, ?_⟩
        rw [← h.asked post (List.mem_of_getElem? hget)]
        exact beq_iff_eq.mp hs

end Screen

/-! ## All screens -/

section Screens

variable {flow}

theorem length_pushAll (n : Nat) (datas : List α) :
    (flow.pushAll n datas).1.length = datas.length := by
  induction datas generalizing n with
  | nil => rfl
  | cons data datas ih => simp [pushAll, ih]

theorem handed_pushAll (n : Nat) (datas : List α) :
    flow.handed (flow.pushAll n datas).2 = [] := by
  induction datas generalizing n with
  | nil => rfl
  | cons data datas ih => simp [pushAll, ih]

/-- A screen that is opened only shows its tuple. -/
theorem mem_pushAll {n k : Nat} {datas : List α} {output : Confirm.Output α ImageData}
    (h : .screen k output ∈ (flow.pushAll n datas).2) :
    n ≤ k ∧ ∃ data, datas[k - n]? = some data ∧ output = .showData data := by
  induction datas generalizing n with
  | nil => cases h
  | cons data datas ih =>
    simp only [pushAll, List.mem_append, List.mem_map, Output.screen.injEq] at h
    obtain ⟨o, ho, rfl, rfl⟩ | h := h
    · refine ⟨Nat.le_refl _, data, by simp, ?_⟩
      simp only [setData, Confirm.step] at ho
      split at ho
      · exact List.mem_singleton.mp ho
      · cases ho
    · obtain ⟨hle, data', hget, hout⟩ := ih h
      refine ⟨by omega, data', ?_, hout⟩
      rw [show k - n = (k - (n + 1)) + 1 by omega, List.getElem?_cons_succ]
      exact hget

theorem told_pushAll_of_lt {n k : Nat} (datas : List α) (h : k < n) :
    told k (flow.pushAll n datas).2 = [] := by
  rw [List.eq_nil_iff_forall_not_mem]
  intro output ho
  have hle := (mem_pushAll (mem_told.mp ho)).1
  omega

theorem told_pushAll_of_le {n k : Nat} (datas : List α) (h : n + datas.length ≤ k) :
    told k (flow.pushAll n datas).2 = [] := by
  rw [List.eq_nil_iff_forall_not_mem]
  intro output ho
  obtain ⟨_, data, hget, _⟩ := mem_pushAll (mem_told.mp ho)
  obtain ⟨hlt, _⟩ := List.getElem?_eq_some_iff.mp hget
  omega

theorem pushAll_get {n j : Nat} {datas : List α} {data : α} (h : datas[j]? = some data) :
    (flow.pushAll n datas).1[j]? = some (flow.setData data).1 ∧
      told (n + j) (flow.pushAll n datas).2 = (flow.setData data).2 := by
  induction datas generalizing n j with
  | nil => cases h
  | cons d datas ih =>
    cases j with
    | zero =>
      have hd : d = data := Option.some.inj h
      subst hd
      refine ⟨rfl, ?_⟩
      simp only [pushAll, told_append, Nat.add_zero, told_screen_self]
      rw [told_pushAll_of_lt datas (Nat.lt_succ_self n), List.append_nil]
    | succ j =>
      obtain ⟨hs, ht⟩ := ih (n := n + 1) (j := j) h
      refine ⟨hs, ?_⟩
      simp only [pushAll, told_append]
      rw [told_screen_ne (by omega), List.nil_append, show n + (j + 1) = n + 1 + j by omega]
      exact ht

/-- The requests of a trace: the screen and the tap each was made for. -/
def request? : Output ο α ImageData → Option (Nat × Nat)
  | .screen index (.request n _) => some (index, n)
  | _ => none

def requests (trace : List (Output ο α ImageData)) : List (Nat × Nat) := trace.filterMap request?

theorem requests_append (t u : List (Output ο α ImageData)) :
    requests (t ++ u) = requests t ++ requests u := List.filterMap_append

theorem mem_requests {t : List (Output ο α ImageData)} {k n : Nat} :
    (k, n) ∈ requests t ↔ ∃ target, .screen k (.request n target) ∈ t := by
  rw [requests, List.mem_filterMap]
  constructor
  · intro h
    obtain ⟨o, ho, hr⟩ := h
    unfold request? at hr
    split at hr
    · cases hr
      exact ⟨_, ho⟩
    · cases hr
  · intro h
    obtain ⟨target, ht⟩ := h
    exact ⟨_, ht, rfl⟩

/-- Each screen carries the tuple that was handed on as it was opened. -/
structure Kept (p : State σ α × List (Output ο α ImageData)) : Prop where
  opened : p.1.screens.length = (flow.handed p.2).length
  screens : ∀ k data screen, (flow.handed p.2)[k]? = some data → p.1.screens[k]? = some screen →
    flow.Carried data screen (told k p.2)
  closed : ∀ k, p.1.screens.length ≤ k → told k p.2 = []
  once : (requests p.2).Nodup

variable {p : State σ α × List (Output ο α ImageData)}

theorem requests_form (out : List ο) :
    requests (out.map .form : List (Output ο α ImageData)) = [] := by
  rw [requests, List.filterMap_map, List.filterMap_eq_nil_iff]
  exact fun _ _ => rfl

theorem requests_pushAll (n : Nat) (datas : List α) :
    requests (flow.pushAll n datas).2 = [] := by
  rw [List.eq_nil_iff_forall_not_mem]
  intro x hx
  obtain ⟨target, ht⟩ := mem_requests.mp (show (x.1, x.2) ∈ _ from hx)
  obtain ⟨_, data, _, ho⟩ := mem_pushAll ht
  cases ho

theorem emit_form (s : State σ α) (input : ι) :
    flow.machine.emit s (.form input) = (flow.form.emit s.form input).map .form ++
      (flow.pushAll s.screens.length (flow.checkedBy s input)).2 := rfl

theorem emit_screen {s : State σ α} {index : Nat} {screen : Confirm.State α}
    (h : s.screens[index]? = some screen) (action : Action) :
    flow.machine.emit s (.screen index action) =
      (Confirm.step flow.kind screen (flow.toConfirm screen action)).2.map (.screen index) := by
  simp [Machine.emit, machine, step, h]

theorem emit_unopened {s : State σ α} {index : Nat} (h : s.screens[index]? = none)
    (action : Action) : flow.machine.emit s (.screen index action) = [] := by
  simp [Machine.emit, machine, step, h]

theorem handed_emit_form (s : State σ α) (input : ι) :
    flow.handed (flow.machine.emit s (.form input)) = flow.checkedBy s input := by
  rw [emit_form, handed_append, handed_form, handed_pushAll, List.append_nil, checkedBy]

theorem handed_emit_screen (s : State σ α) (index : Nat) (action : Action) :
    flow.handed (flow.machine.emit s (.screen index action)) = [] := by
  cases hget : s.screens[index]? with
  | none =>
    rw [emit_unopened hget]
    rfl
  | some screen => rw [emit_screen hget, handed_screen]

theorem told_emit_form (s : State σ α) (input : ι) (k : Nat) :
    told k (flow.machine.emit s (.form input)) =
      told k (flow.pushAll s.screens.length (flow.checkedBy s input)).2 := by
  rw [emit_form, told_append, told_form, List.nil_append]

theorem requests_emit_form (s : State σ α) (input : ι) :
    requests (flow.machine.emit s (.form input)) = [] := by
  rw [emit_form, requests_append, requests_form, requests_pushAll, List.append_nil]

/-- An open screen carries its tuple. -/
theorem Kept.carried (h : flow.Kept p) {index : Nat} {screen : Confirm.State α}
    (hget : p.1.screens[index]? = some screen) :
    ∃ data, (flow.handed p.2)[index]? = some data ∧
      flow.Carried data screen (told index p.2) := by
  obtain ⟨hlt, _⟩ := List.getElem?_eq_some_iff.mp hget
  have hdata := List.getElem?_eq_getElem (h.opened ▸ hlt)
  exact ⟨_, hdata, h.screens index _ screen hdata hget⟩

theorem Kept.form (h : flow.Kept p) (input : ι) :
    flow.Kept ((flow.machine.withHistory flow.trace).next p (.form input)) := by
  obtain ⟨s, t⟩ := p
  obtain ⟨hopen, hscreens, hclosed, honce⟩ := h
  simp only at hopen hscreens hclosed honce
  rw [Machine.next_withHistory]
  have hhanded : flow.handed (flow.trace s (.form input) t) =
      flow.handed t ++ flow.checkedBy s input := by
    rw [trace, handed_append, handed_emit_form]
  have htold : ∀ k, told k (flow.trace s (.form input) t) =
      told k t ++ told k (flow.pushAll s.screens.length (flow.checkedBy s input)).2 := by
    intro k
    rw [trace, told_append, told_emit_form]
  have hnext : (flow.machine.next s (.form input)).screens =
      s.screens ++ (flow.pushAll s.screens.length (flow.checkedBy s input)).1 := rfl
  refine ⟨?_, fun k data screen hk hget => ?_, fun k hk => ?_, ?_⟩
  · show (flow.machine.next s (.form input)).screens.length = _
    rw [hnext, hhanded, List.length_append, List.length_append, length_pushAll, hopen]
  · have hget : (flow.machine.next s (.form input)).screens[k]? = some screen := hget
    rw [hnext] at hget
    rw [hhanded] at hk
    rw [htold]
    obtain hlt | hle := Nat.lt_or_ge k s.screens.length
    · -- a screen that was open
      rw [List.getElem?_append_left (hopen ▸ hlt)] at hk
      rw [List.getElem?_append_left hlt] at hget
      rw [told_pushAll_of_lt _ hlt, List.append_nil]
      exact hscreens k data screen hk hget
    · -- a screen that is opened by this step
      rw [List.getElem?_append_right (hopen ▸ hle), ← hopen] at hk
      obtain ⟨hs, ht⟩ : (flow.pushAll s.screens.length (flow.checkedBy s input)).1[
            k - s.screens.length]? = some (flow.setData data).1 ∧
          told (s.screens.length + (k - s.screens.length))
            (flow.pushAll s.screens.length (flow.checkedBy s input)).2 =
              (flow.setData data).2 := pushAll_get hk
      rw [List.getElem?_append_right hle, hs] at hget
      obtain rfl := Option.some.inj hget
      rw [Nat.add_sub_cancel' hle] at ht
      rw [hclosed k hle, List.nil_append, ht]
      exact carried_setData data
  · have hk : (flow.machine.next s (.form input)).screens.length ≤ k := hk
    rw [hnext, List.length_append, length_pushAll] at hk
    rw [htold, hclosed k (by omega), told_pushAll_of_le _ hk, List.nil_append]
  · show (requests (flow.trace s (.form input) t)).Nodup
    rw [trace, requests_append, requests_emit_form, List.append_nil]
    exact honce

theorem length_step_le (kind : Confirm.Kind α) (screen : Confirm.State α)
    (input : Confirm.Input α ImageData) (h : ∀ data, input ≠ .setData data) :
    (Confirm.step kind screen input).2.length ≤ 1 := by
  cases input with
  | setData data => exact absurd rfl (h data)
  | loadData => cases hc : screen.current <;> simp [Confirm.step, hc]
  | postData imageData => cases hc : screen.current <;> cases imageData <;> simp [Confirm.step, hc]
  | putDataAnswer index isSuccess =>
    cases hg : screen.uploads[index]? <;> cases isSuccess <;> simp [Confirm.step, hg]
  | downloadURLAnswer index answer =>
    cases hg : screen.urls[index]? <;> cases answer <;> simp [Confirm.step, hg]
  | eventAnswer index event => cases hg : screen.requests[index]? <;> simp [Confirm.step, hg]

theorem toConfirm_ne_setData (screen : Confirm.State α) (action : Action) (data : α) :
    flow.toConfirm screen action ≠ .setData data := by
  intro h
  cases action <;> cases h

/-- A step makes one request at most, and for a tap that none was made for. -/
theorem once_step {t : List (Output ο α ImageData)} (honce : (requests t).Nodup) (k : Nat)
    {out : List (Confirm.Output α ImageData)} (hlen : out.length ≤ 1)
    (hnew : ∀ n target, .request n target ∈ out → ∀ target', .request n target' ∉ told k t) :
    (requests (t ++ out.map (.screen k))).Nodup := by
  rw [requests_append]
  have hsingle : (requests (out.map (.screen k) : List (Output ο α ImageData))).length ≤ 1 :=
    Nat.le_trans (List.length_filterMap_le _ _) (by simpa using hlen)
  refine List.nodup_append.mpr ⟨honce, ?_, fun x hx y hy hxy => ?_⟩
  · generalize requests (out.map (.screen k) : List (Output ο α ImageData)) = l at hsingle
    cases l with
    | nil => exact List.nodup_nil
    | cons x l =>
      have hl : l = [] := List.eq_nil_of_length_eq_zero (by simpa using hsingle)
      rw [hl]
      exact List.nodup_singleton x
  · subst hxy
    obtain ⟨o, ho, hr⟩ := List.mem_filterMap.mp hy
    obtain ⟨o', ho', rfl⟩ := List.mem_map.mp ho
    unfold request? at hr
    split at hr
    · next index n target he =>
      cases he
      cases hr
      obtain ⟨target', ht⟩ := mem_requests.mp hx
      exact hnew n target ho' target' (mem_told.mpr ht)
    · cases hr

theorem Kept.screen (h : flow.Kept p) (index : Nat) (action : Action) :
    flow.Kept ((flow.machine.withHistory flow.trace).next p (.screen index action)) := by
  obtain ⟨s, t⟩ := p
  rw [Machine.next_withHistory]
  cases hget : s.screens[index]? with
  | none =>
    have hnext : flow.machine.next s (.screen index action) = s := by
      simp [Machine.next, machine, step, hget]
    rw [hnext, trace, emit_unopened hget, List.append_nil]
    exact h
  | some screen =>
    obtain ⟨hlt, _⟩ := List.getElem?_eq_some_iff.mp hget
    obtain ⟨data, hdata, hopen⟩ := h.carried hget
    obtain ⟨hcarried, hfaithful⟩ := carried_step hopen action
    have hnext : (flow.machine.next s (.screen index action)).screens = s.screens.set index
        (Confirm.step flow.kind screen (flow.toConfirm screen action)).1 := by
      simp [Machine.next, machine, step, hget]
    have hhanded : flow.handed (flow.trace s (.screen index action) t) = flow.handed t := by
      rw [trace, handed_append, handed_emit_screen, List.append_nil]
    refine ⟨?_, fun k data' screen' hk hget' => ?_, fun k hk => ?_, ?_⟩
    · show (flow.machine.next s (.screen index action)).screens.length = _
      rw [hnext, hhanded, List.length_set]
      exact h.opened
    · have hget' : (flow.machine.next s (.screen index action)).screens[k]? = some screen' := hget'
      rw [hnext] at hget'
      rw [hhanded] at hk
      rw [trace, told_append, emit_screen hget]
      by_cases hki : k = index
      · subst hki
        rw [List.getElem?_set_self hlt] at hget'
        obtain rfl := Option.some.inj hget'
        obtain rfl := Option.some.inj (hdata.symm.trans hk)
        rw [told_screen_self]
        exact hcarried
      · rw [List.getElem?_set_ne (Ne.symm hki)] at hget'
        rw [told_screen_ne (Ne.symm hki), List.append_nil]
        exact h.screens k data' screen' hk hget'
    · have hk : (flow.machine.next s (.screen index action)).screens.length ≤ k := hk
      rw [hnext, List.length_set] at hk
      rw [trace, told_append, emit_screen hget, told_screen_ne (by omega), List.append_nil]
      exact h.closed k hk
    · show (requests (flow.trace s (.screen index action) t)).Nodup
      rw [trace, emit_screen hget]
      refine once_step h.once index (length_step_le _ _ _ (toConfirm_ne_setData screen action)) ?_
      intro n target hr
      exact (hfaithful _ hr).2.2

/-- What a step of the run reports is true of the tuples handed on: a tuple shown is the one its
screen was opened with, a request is made of that tuple and of the URL just answered, after the
tuple's own thumbnail was uploaded for the tap, and a result is true at an event with the tuple's
title. -/
structure Posts (p : State σ α × List (Output ο α ImageData)) (i : Input ι) : Prop where
  shows : ∀ k data, .screen k (.showData data) ∈ flow.machine.emit p.1 i →
    (flow.handed (flow.trace p.1 i p.2))[k]? = some data
  requests : ∀ k n target, .screen k (.request n target) ∈ flow.machine.emit p.1 i →
    ∃ data imageData index imageUrl, (flow.handed p.2)[k]? = some data ∧
      flow.jpegData (flow.thumbnail data) = some imageData ∧
      .screen k (.putData n imageData) ∈ p.2 ∧
      i = .screen k (.downloadURLAnswer index (.url imageUrl)) ∧
      target = flow.kind.request data imageUrl
  results : ∀ k n, .screen k (.postResult n true) ∈ flow.machine.emit p.1 i →
    ∃ data index event, (flow.handed p.2)[k]? = some data ∧
      i = .screen k (.eventAnswer index (some event)) ∧ event.title = flow.kind.title data

theorem Kept.posts (h : flow.Kept p) (i : Input ι) : flow.Posts p i := by
  obtain ⟨s, t⟩ := p
  cases i with
  | form input =>
    have hscreen : ∀ k output, .screen k output ∈ flow.machine.emit s (.form input) →
        .screen k output ∈ (flow.pushAll s.screens.length (flow.checkedBy s input)).2 := by
      intro k output ho
      rw [← mem_told, told_emit_form] at ho
      exact mem_told.mp ho
    refine ⟨fun k data hm => ?_, fun k n target hm => ?_, fun k n hm => ?_⟩
    · obtain ⟨hle, data', hget, ho⟩ := mem_pushAll (hscreen k _ hm)
      injection ho with hdata
      have hopen : s.screens.length = (flow.handed t).length := h.opened
      rw [trace, handed_append, handed_emit_form, List.getElem?_append_right (hopen ▸ hle),
        ← hopen, hget, hdata]
    · obtain ⟨_, data, _, ho⟩ := mem_pushAll (hscreen k _ hm)
      cases ho
    · obtain ⟨_, data, _, ho⟩ := mem_pushAll (hscreen k _ hm)
      cases ho
  | screen index action =>
    cases hget : s.screens[index]? with
    | none =>
      refine ⟨fun k data hm => ?_, fun k n target hm => ?_, fun k n hm => ?_⟩
      all_goals
        rw [emit_unopened hget] at hm
        cases hm
    | some screen =>
      obtain ⟨data, hdata, hopen⟩ := h.carried hget
      have hfaithful := (carried_step hopen action).2
      have hmem : ∀ k output, .screen k output ∈ flow.machine.emit s (.screen index action) →
          k = index ∧ flow.Faithful data (told index t) action output := by
        intro k output ho
        rw [emit_screen hget] at ho
        obtain ⟨o, hmem, he⟩ := List.mem_map.mp ho
        injection he with hk ho'
        subst ho'
        exact ⟨hk.symm, hfaithful o hmem⟩
      refine ⟨fun k data' hm => ?_, fun k n target hm => ?_, fun k n hm => ?_⟩
      · obtain ⟨rfl, hshown⟩ := hmem k _ hm
        have hshown : data' = data := hshown
        rw [trace, handed_append, handed_emit_screen, List.append_nil, hshown]
        exact hdata
      · obtain ⟨rfl, ⟨i, imageUrl, ha, ht⟩, ⟨imageData, hj, hput⟩, _⟩ := hmem k _ hm
        exact ⟨data, imageData, i, imageUrl, hdata, hj, mem_told.mp hput, by rw [ha], ht⟩
      · obtain ⟨rfl, hresult⟩ := hmem k _ hm
        obtain ⟨i, event, ha, ht⟩ := hresult rfl
        exact ⟨data, i, event, hdata, by rw [ha], ht⟩

theorem kept_start (form : σ) : flow.Kept (start form, []) := by
  refine ⟨rfl, fun k data screen hk _ => ?_, fun _ _ => rfl, List.nodup_nil⟩
  cases hk

theorem Kept.next (h : flow.Kept p) (i : Input ι) :
    flow.Kept ((flow.machine.withHistory flow.trace).next p i) := by
  cases i with
  | form input => exact h.form input
  | screen index action => exact h.screen index action

end Screens

/-! ## Where the tuples come from -/

section Runs

/-- The k-th tuple was handed on in a state of the form that reads it. -/
def Checked (reads : σ → Option α) (form : σ) (is : List (Input ι)) : Prop :=
  ∀ k data, (flow.handed (flow.machine.outputs (start form) is))[k]? = some data →
    ∃ before input after, is = before ++ .form input :: after ∧
      (flow.handed (flow.machine.outputs (start form) before)).length = k ∧
      reads (flow.machine.run (start form) before).form = some data

/-- Every post is a post of what was checked: the steps of the run report what was handed on, a
tap makes one request at most, and what was handed on is what the form held at that moment. -/
structure PostsChecked (reads : σ → Option α) (form : σ) (is : List (Input ι)) : Prop where
  posts : (flow.machine.withHistory flow.trace).Along flow.Posts (start form, []) is
  once : (requests (flow.machine.outputs (start form) is)).Nodup
  checked : flow.Checked reads form is

variable {flow}

/-- The trace holds the outputs of the run. -/
theorem run_trace (s : State σ α) (t : List (Output ο α ImageData)) (is : List (Input ι)) :
    ((flow.machine.withHistory flow.trace).run (s, t) is).2 = t ++ flow.machine.outputs s is := by
  induction is generalizing s t with
  | nil => exact (List.append_nil t).symm
  | cons i is ih =>
    rw [Machine.run_cons, Machine.next_withHistory, ih, Machine.outputs_cons, trace,
      List.append_assoc]

variable (flow) in
theorem form_next (s : State σ α) (i : Input ι) :
    (flow.machine.next s i).form = s.form ∨
      ∃ input, (flow.machine.next s i).form = flow.form.next s.form input := by
  cases i with
  | form input => exact Or.inr ⟨input, rfl⟩
  | screen index action =>
    refine Or.inl ?_
    cases hget : s.screens[index]? <;> simp [Machine.next, machine, step, hget]

/-- A form that hands on what it reads, in the states of an invariant. -/
theorem checked_of_reads {I : σ → Prop} {reads : σ → Option α}
    (hinv : ∀ s i, I s → I (flow.form.next s i))
    (hone : ∀ s i, I s → (flow.form.emit s i).filterMap flow.checkData = (reads s).toList ∨
      (flow.form.emit s i).filterMap flow.checkData = [])
    {form : σ} (h0 : I form) (is : List (Input ι)) : flow.Checked reads form is := by
  have hform : ∀ is : List (Input ι), I (flow.machine.run (start form) is).form := by
    intro is
    have hnext : ∀ (s : State σ α) i, I s.form → I (flow.machine.next s i).form := by
      intro s i hs
      obtain he | ⟨input, he⟩ := flow.form_next s i
      · rw [he]
        exact hs
      · rw [he]
        exact hinv s.form input hs
    exact (flow.machine.always_of_inv (P := fun s => I s.form) hnext h0 is).last
  induction is using List.reverseRecOn with
  | nil =>
    intro k data hk
    cases hk
  | append_singleton is i ih =>
    intro k data hk
    rw [Machine.outputs_append, handed_append] at hk
    obtain hlt | hle := Nat.lt_or_ge k (flow.handed (flow.machine.outputs (start form) is)).length
    · rw [List.getElem?_append_left hlt] at hk
      obtain ⟨before, input, after, his, hrest⟩ := ih k data hk
      exact ⟨before, input, after ++ [i], by rw [his, List.append_assoc]; rfl, hrest⟩
    · -- the tuple is handed on by the last step
      rw [List.getElem?_append_right hle, Machine.outputs_cons, Machine.outputs_nil,
        List.append_nil] at hk
      cases i with
      | screen index action =>
        rw [handed_emit_screen] at hk
        cases hk
      | form input =>
        rw [handed_emit_form, checkedBy] at hk
        obtain hl | hl := hone _ input (hform is)
        · rw [hl] at hk
          obtain ⟨hzero, hget⟩ := List.getElem?_eq_some_iff.mp hk
          have hlen : (reads (flow.machine.run (start form) is).form).toList.length ≤ 1 :=
            Option.length_toList_le
          refine ⟨is, input, [], rfl, by omega, ?_⟩
          exact Option.mem_toList.mp (hget ▸ List.getElem_mem hzero)
        · rw [hl] at hk
          cases hk

theorem postsChecked {reads : σ → Option α} {form : σ} {is : List (Input ι)}
    (h : flow.Checked reads form is) : flow.PostsChecked reads form is := by
  have hkept : (flow.machine.withHistory flow.trace).Always flow.Kept (start form, []) is :=
    (flow.machine.withHistory flow.trace).always_of_inv (fun _ i hp => hp.next i)
      (kept_start form) is
  refine ⟨hkept.along fun _ i hp => hp.posts i, ?_, h⟩
  have honce := hkept.last.once
  rw [run_trace, List.nil_append] at honce
  exact honce

end Runs

/-! ## The two screens with a form -/

section Forms

/-- `EventCreateViewController` -/
def create (jpegData : Image → Option ImageData) :
    ConfirmScreens (Create.State Image) (Create.Input Image) (Confirmed Image) (Form Image)
      Image ImageData where
  form := Create.machine
  checkData
    | .checkData form => some form
    | .showError _ => none
  kind := Confirm.EventConfirmViewStream
  thumbnail form := form.thumbnail
  jpegData := jpegData

/-- `EventEditViewController`; the id of its event is the sixth component of the tuple. -/
def edit (event : Option EventModel.Event) (jpegData : Image → Option ImageData) :
    ConfirmScreens (Edit.State Image) (Edit.Input Image) (Edit.Output Image) (Form Image × Int)
      Image ImageData where
  form := Edit.machine
  checkData
    | .confirmed (.checkData form) => some (form, (event.map (·.id)).getD 0)
    | .confirmed (.showError _) | .deleteEvent _ | .dissmissEvent => none
  kind := Confirm.EventUpdateConfirmViewStream
  thumbnail data := data.1.thumbnail
  jpegData := jpegData

theorem create_checked (jpegData : Image → Option ImageData)
    (is : List (Input (Create.Input Image))) :
    (create jpegData).Checked (fun s => s.stream.latest.form?) Create.start is := by
  refine checked_of_reads (I := Create.Bound) (fun s i hs => Create.bound_step hs i) ?_
    Create.bound_start is
  intro s i hs
  cases i with
  | tapConfirm =>
    refine Or.inl ?_
    show [s.stream.tapConfirm].filterMap (create jpegData).checkData = _
    rw [Stream.tapConfirm_eq hs.settled]
    cases s.stream.latest.form? <;> rfl
  | titleTxf text | memberTxf text | didFinishPickingMedia image => exact Or.inr rfl
  | placeOption places =>
    refine Or.inr ?_
    cases hp : places.head? <;> simp [create, Machine.emit, Create.machine, Create.step, hp]
  | genreOption genres =>
    refine Or.inr ?_
    cases hp : genres.head? <;> simp [create, Machine.emit, Create.machine, Create.step, hp]

theorem edit_checked (jpegData : Image → Option ImageData) (event : EventModel.Event)
    {form : Edit.State Image} (h : form.stream.Settled)
    (is : List (Input (Edit.Input Image))) :
    (edit (some event) jpegData).Checked
      (fun s => s.stream.latest.form?.map fun form => (form, event.id)) form is := by
  refine checked_of_reads (I := fun s => s.stream.Settled) (fun s i hs => ?_)
    (fun s i hs => ?_) h is
  · have hrun := (Edit.run_eq s [i]).1
    show (Edit.machine.run s [i]).stream.Settled
    rw [hrun]
    exact Stream.settled_edits hs _
  · cases i with
    | tapConfirm =>
      refine Or.inl ?_
      show [Edit.Output.confirmed s.stream.tapConfirm].filterMap
        (edit (some event) jpegData).checkData = _
      rw [Stream.tapConfirm_eq hs]
      cases s.stream.latest.form? <;> rfl
    | edit e => exact Or.inr rfl
    | tapDelete =>
      refine Or.inr ?_
      cases hid : s.eventId <;> simp [edit, Machine.emit, Edit.machine, Edit.step, hid]
    | deleteAnswer index isSuccess =>
      refine Or.inr ?_
      cases hget : s.deleting[index]? <;> cases isSuccess <;>
        simp [edit, Machine.emit, Edit.machine, Edit.step, hget]

/-- However checking, editing, posting and the answers to any number of posts interleave, on the
screen of a new event as on that of an event that is edited. -/
theorem run_postsChecked :
    (∀ (jpegData : Image → Option ImageData) (is : List (Input (Create.Input Image))),
      (create jpegData).PostsChecked (fun s => s.stream.latest.form?) Create.start is) ∧
    ∀ (jpegData : Image → Option ImageData) (places : List PlaceModel.Place)
      (genres : List GenreModel.Genre) (image : Option Image) (event : EventModel.Event)
      (is : List (Input (Edit.Input Image))),
      (edit (some event) jpegData).PostsChecked
        (fun s => s.stream.latest.form?.map fun form => (form, event.id))
        (Edit.viewDidLoad places genres image event) is := by
  refine ⟨fun jpegData is => postsChecked (create_checked jpegData is),
    fun jpegData places genres image event is => postsChecked (edit_checked jpegData event ?_ is)⟩
  exact (Edit.stream_loaded places genres image event []).1

end Forms

end ConfirmScreens
end Karupasu.Event
