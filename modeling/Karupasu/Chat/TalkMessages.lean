import Karupasu.Library.Machine

/-!
# Messages and sections: `TalkViewController`

A send runs on the main queue, one statement after the other. The greeting is appended on a
background queue, between any two statements, and the `reloadData` it schedules waits until
the main queue is free.
-/
namespace Karupasu.Chat.TalkMessages

open Karupasu.Library

structure Sender where
  senderId : String
  displayName : String
  deriving DecidableEq

inductive MessageKind (Image : Type) where
  | text (text : String)
  | attributedText (text : String)
  | photo (image : Image)
  deriving DecidableEq

structure Message (Image : Type) where
  sender : Sender
  kind : MessageKind Image
  deriving DecidableEq

/-- An element of `inputTextView.components`, which is of any type. -/
inductive Component (Image : Type) where
  | image (image : Image)
  | text (text : String)
  | other
  deriving DecidableEq

/-- The block after three seconds: not run yet, run with its `reloadData` still scheduled,
and done. -/
inductive Greeting where
  | waiting | appended | reloaded
  deriving DecidableEq

/-- Where the main queue is: free, before a turn of the loop over the components, or between
the two statements of a turn. -/
inductive Main (Image : Type) where
  | idle
  | loop (sender : Sender) (components : List (Component Image))
  | insert (sender : Sender) (components : List (Component Image))
  deriving DecidableEq

structure State (Image : Type) where
  messages : List (Message Image)
  /-- The sections the collection view displays. -/
  displayed : Nat
  greeting : Greeting
  main : Main Image
  deriving DecidableEq

inductive Input (Image : Type) where
  /-- The block on the background queue. -/
  | greet
  /-- The block it has scheduled on the main queue. -/
  | reload
  | didPressSendButtonWith (sender : Sender) (components : List (Component Image))
  /-- The main queue goes on with a send. -/
  | resume

inductive Effect where
  | insertSections (index : Nat)
  | scrollToBottom
  /-- The update does not match the number of sections, which ends the process. -/
  | trap
  deriving DecidableEq

variable {Image : Type}

def Component.message? (sender : Sender) : Component Image → Option (Message Image)
  | .image picture => some ⟨sender, .photo picture⟩
  | .text words => some ⟨sender, .attributedText words⟩
  | .other => none

def State.numberOfSections (s : State Image) : Nat := s.messages.length

def State.append (s : State Image) (message : Message Image) : State Image :=
  { s with messages := s.messages ++ [message] }

/-- `insertSections` asks the data source, and wants one section more than it displays. -/
def insertSections (s : State Image) (sender : Sender) (rest : List (Component Image)) :
    State Image × List Effect :=
  let effect := Effect.insertSections (s.messages.length - 1)
  if s.numberOfSections = s.displayed + 1 then
    ({ s with displayed := s.displayed + 1, main := .loop sender rest }, [effect])
  else (s, [effect, .trap])

def greeting : Message Image :=
  ⟨⟨"shirakami", "白上 有希"⟩, .text "よろしくお願いします!"⟩

def step (s : State Image) : Input Image → State Image × List Effect
  | .greet =>
    match s.greeting with
    | .waiting => ({ s.append greeting with greeting := .appended }, [])
    | _ => (s, [])
  | .reload =>
    match s.greeting, s.main with
    | .appended, .idle => ({ s with displayed := s.numberOfSections, greeting := .reloaded }, [])
    | _, _ => (s, [])
  | .didPressSendButtonWith sender components =>
    match s.main with
    | .idle => ({ s with main := .loop sender components }, [])
    | _ => (s, [])
  | .resume =>
    match s.main with
    | .idle => (s, [])
    | .loop _ [] => ({ s with main := .idle }, [.scrollToBottom])
    | .loop sender (component :: rest) =>
      match component.message? sender with
      | some message => ({ s.append message with main := .insert sender rest }, [])
      | none => ({ s with main := .loop sender rest }, [])
    | .insert sender rest => insertSections s sender rest

def machine : Machine (State Image) (Input Image) Effect := ⟨step⟩

/-- After `viewDidLoad` and the first layout. -/
def start : State Image where
  messages := [⟨⟨"admin", "マッチマッチ"⟩,
    .attributedText "おめでとうございます!\n参加者が集まったため開催が決定しました!"⟩]
  displayed := 1
  greeting := .waiting
  main := .idle

/-! ## Insertions -/

/-- Each `insertSections` finds one message more than there are sections. -/
def InsertsNext (s : State Image) (i : Input Image) : Prop :=
  ∀ index, .insertSections index ∈ machine.emit s i → s.messages.length = s.displayed + 1

/-- A message of a send has been appended and not been inserted. -/
def Main.inserts : Main Image → Bool
  | .insert _ _ => true
  | _ => false

/-- The main queue does not go on to insert a section while the `reloadData` waits for it. -/
def NotBeforeReload (s : State Image) : Input Image → Prop
  | .resume => s.main.inserts → s.greeting ≠ .appended
  | _ => True

/-- The collection view knows of all messages but the greeting before its `reloadData`, and
the message of a send before its section is inserted. -/
def Counted (s : State Image) : Prop :=
  s.messages.length = s.displayed + (s.greeting == .appended).toNat + s.main.inserts.toNat

theorem counted_start : Counted (start : State Image) := rfl

theorem counted_greet {s : State Image} (h : Counted s) : Counted (machine.next s .greet) := by
  obtain ⟨messages, displayed, greeting, main⟩ := s
  cases greeting with
  | waiting =>
    have h : messages.length = displayed + 0 + main.inserts.toNat := h
    show (messages ++ [TalkMessages.greeting]).length = displayed + 1 + main.inserts.toNat
    rw [List.length_append, List.length_singleton]
    omega
  | appended => exact h
  | reloaded => exact h

/-- The reload counts anew, and the main queue is between two sends. -/
theorem counted_reload {s : State Image} (h : Counted s) : Counted (machine.next s .reload) := by
  obtain ⟨messages, displayed, greeting, main⟩ := s
  cases greeting with
  | waiting => exact h
  | appended =>
    cases main with
    | idle => exact rfl
    | loop sender components => exact h
    | insert sender components => exact h
  | reloaded => exact h

theorem counted_didPressSendButtonWith {s : State Image} (h : Counted s) (sender : Sender)
    (components : List (Component Image)) :
    Counted (machine.next s (.didPressSendButtonWith sender components)) := by
  obtain ⟨messages, displayed, greeting, main⟩ := s
  cases main with
  | idle => exact h
  | loop _ _ => exact h
  | insert _ _ => exact h

/-- The message of a turn is unknown until its section is inserted. -/
theorem counted_resume {s : State Image} (h : Counted s) : Counted (machine.next s .resume) := by
  obtain ⟨messages, displayed, greeting, main⟩ := s
  cases main with
  | idle => exact h
  | loop sender components =>
    cases components with
    | nil => exact h
    | cons component rest =>
      have h : messages.length = displayed + (greeting == .appended).toNat + 0 := h
      simp only [Machine.next, machine, step]
      split
      · next message _ =>
        show (messages ++ [message]).length = displayed + (greeting == .appended).toNat + 1
        rw [List.length_append, List.length_singleton]
        omega
      · exact h
  | insert sender rest =>
    have h : messages.length = displayed + (greeting == .appended).toNat + 1 := h
    simp only [Machine.next, machine, step, insertSections]
    split
    · show messages.length = displayed + 1 + (greeting == .appended).toNat + 0
      omega
    · exact h

theorem counted_step (s : State Image) (i : Input Image) (h : Counted s) :
    Counted (machine.next s i) := by
  cases i with
  | greet => exact counted_greet h
  | reload => exact counted_reload h
  | didPressSendButtonWith sender components =>
    exact counted_didPressSendButtonWith h sender components
  | resume => exact counted_resume h

/-- An insertion finds one message too many exactly when the greeting has not been loaded. -/
theorem insertsNext_iff {s : State Image} (h : Counted s) (i : Input Image) :
    InsertsNext s i ↔ NotBeforeReload s i := by
  obtain ⟨messages, displayed, greeting, main⟩ := s
  cases i with
  | greet =>
    refine iff_of_true (fun index hmem => ?_) trivial
    cases greeting <;> cases hmem
  | reload =>
    refine iff_of_true (fun index hmem => ?_) trivial
    cases greeting <;> cases main <;> cases hmem
  | didPressSendButtonWith sender components =>
    refine iff_of_true (fun index hmem => ?_) trivial
    cases main <;> cases hmem
  | resume =>
    cases main with
    | idle => exact iff_of_true (fun index hmem => nomatch hmem) fun hi => nomatch hi
    | loop sender components =>
      refine iff_of_true (fun index hmem => ?_) fun hi => nomatch hi
      cases components with
      | nil =>
        have hmem : Effect.insertSections index ∈ [Effect.scrollToBottom] := hmem
        simp at hmem
      | cons component rest =>
        cases component <;> cases hmem
    | insert sender rest =>
      have h : messages.length = displayed + (greeting == .appended).toNat + 1 := h
      have hmem : Effect.insertSections (messages.length - 1) ∈
          machine.emit (⟨messages, displayed, greeting, .insert sender rest⟩ : State Image)
            .resume := by
        simp only [Machine.emit, machine, step, insertSections]
        split <;> exact List.mem_cons_self
      constructor
      · intro hn _ hg
        have hlen := hn _ hmem
        have hg : greeting = .appended := hg
        subst hg
        have h : messages.length = displayed + 1 + 1 := h
        have hlen : messages.length = displayed + 1 := hlen
        omega
      · intro hn index _
        have hg : greeting ≠ .appended := hn rfl
        have hz : (greeting == .appended).toNat = 0 := by simp [hg]
        show messages.length = displayed + 1
        omega

/-- In every run each insertion finds the number of messages that UIKit requires, exactly when
no section is inserted between the greeting and its `reloadData`. -/
theorem inserts_next_iff (is : List (Input Image)) :
    machine.Along InsertsNext start is ↔ machine.Along NotBeforeReload start is :=
  machine.along_congr (D := fun _ _ => True) (fun s i h _ => counted_step s i h)
    (fun _ i h _ => insertsNext_iff h i) counted_start
    (machine.along_of_forall start (D := fun _ => True) fun _ _ => trivial)

/-- A text is sent after the greeting and before its `reloadData`. -/
def sentInBetween : List (Input Image) :=
  [.greet, .didPressSendButtonWith ⟨"1", "a"⟩ [.text "hello"], .resume, .resume]

/-- There are three messages and one section, so the insertion ends the process. -/
theorem insertion_ends_process :
    (machine.run (start : State Unit) sentInBetween).messages.length = 3 ∧
      (machine.run (start : State Unit) sentInBetween).displayed = 1 ∧
      machine.outputs (start : State Unit) sentInBetween = [.insertSections 2, .trap] ∧
      ¬machine.Along InsertsNext (start : State Unit) sentInBetween := by
  refine ⟨by decide, by decide, by decide, fun h => ?_⟩
  have hsplit : machine.Along InsertsNext (start : State Unit)
      (sentInBetween.take 3 ++ .resume :: []) := h
  have hlast := hsplit.at
  have hlen := hlast 2 (by decide)
  revert hlen
  decide

end Karupasu.Chat.TalkMessages
