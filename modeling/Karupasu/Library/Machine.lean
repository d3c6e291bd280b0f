import Mathlib.Data.List.Induction

/-!
# Machines, runs and history variables

A machine takes one input at a time, changes its state and reports outputs.
Every step is total, so a run is a left fold over its inputs. Two predicates
range over a run: `Along` speaks about each step together with the state before
it, `Always` about each state reached. A history variable is a value computed
next to the state from the inputs seen so far; it never influences the machine.
-/
namespace Karupasu.Library

universe u v w x

/-- A deterministic machine with states `σ`, inputs `ι` and outputs `ο`. -/
structure Machine (σ : Type u) (ι : Type v) (ο : Type w) where
  step : σ → ι → σ × List ο

namespace Machine

variable {σ : Type u} {ι : Type v} {ο : Type w} {γ : Type x} (m : Machine σ ι ο)

def next (s : σ) (i : ι) : σ := (m.step s i).1

def emit (s : σ) (i : ι) : List ο := (m.step s i).2

/-- The state after the inputs, taken in order. -/
def run : σ → List ι → σ := List.foldl m.next

/-- Everything reported while the inputs are taken. -/
def outputs : σ → List ι → List ο
  | _, [] => []
  | s, i :: is => m.emit s i ++ outputs (m.next s i) is

/-- Each step of the run satisfies `C`, read at the state before the step. -/
def Along (C : σ → ι → Prop) : σ → List ι → Prop
  | _, [] => True
  | s, i :: is => C s i ∧ Along C (m.next s i) is

/-- Each state of the run satisfies `P`, the first one included. -/
def Always (P : σ → Prop) : σ → List ι → Prop
  | s, [] => P s
  | s, i :: is => P s ∧ Always P (m.next s i) is

@[simp] theorem run_nil (s : σ) : m.run s [] = s := rfl

@[simp] theorem run_cons (s : σ) (i : ι) (is : List ι) :
    m.run s (i :: is) = m.run (m.next s i) is := rfl

theorem run_append (s : σ) (is js : List ι) : m.run s (is ++ js) = m.run (m.run s is) js :=
  List.foldl_append

@[simp] theorem outputs_nil (s : σ) : m.outputs s [] = [] := rfl

@[simp] theorem outputs_cons (s : σ) (i : ι) (is : List ι) :
    m.outputs s (i :: is) = m.emit s i ++ m.outputs (m.next s i) is := rfl

@[simp] theorem along_nil (C : σ → ι → Prop) (s : σ) : m.Along C s [] := trivial

@[simp] theorem along_cons (C : σ → ι → Prop) (s : σ) (i : ι) (is : List ι) :
    m.Along C s (i :: is) ↔ C s i ∧ m.Along C (m.next s i) is := Iff.rfl

@[simp] theorem always_nil (P : σ → Prop) (s : σ) : m.Always P s [] ↔ P s := Iff.rfl

@[simp] theorem always_cons (P : σ → Prop) (s : σ) (i : ι) (is : List ι) :
    m.Always P s (i :: is) ↔ P s ∧ m.Always P (m.next s i) is := Iff.rfl

theorem outputs_append (s : σ) (is js : List ι) :
    m.outputs s (is ++ js) = m.outputs s is ++ m.outputs (m.run s is) js := by
  induction is generalizing s with
  | nil => rfl
  | cons i is ih => rw [List.cons_append, outputs_cons, ih, outputs_cons, run_cons, List.append_assoc]

theorem along_append (C : σ → ι → Prop) (s : σ) (is js : List ι) :
    m.Along C s (is ++ js) ↔ m.Along C s is ∧ m.Along C (m.run s is) js := by
  induction is generalizing s with
  | nil => simp
  | cons i is ih => simp only [List.cons_append, along_cons, ih, run_cons, and_assoc]

/-- A step of a run, read off its position. -/
theorem Along.at {m : Machine σ ι ο} {C : σ → ι → Prop} {s : σ} {is js : List ι} {i : ι}
    (h : m.Along C s (is ++ i :: js)) : C (m.run s is) i :=
  (((m.along_append C s is (i :: js)).mp h).2).1

theorem Along.mono {m : Machine σ ι ο} {C D : σ → ι → Prop} (hcd : ∀ s i, C s i → D s i)
    {s : σ} {is : List ι} (h : m.Along C s is) : m.Along D s is := by
  induction is generalizing s with
  | nil => trivial
  | cons i is ih => exact ⟨hcd s i h.1, ih h.2⟩

theorem along_and (C D : σ → ι → Prop) (s : σ) (is : List ι) :
    m.Along (fun s i => C s i ∧ D s i) s is ↔ m.Along C s is ∧ m.Along D s is := by
  induction is generalizing s with
  | nil => simp
  | cons i is ih => simp only [along_cons, ih, and_and_and_comm]

/-- A condition on the inputs alone holds along the run when it holds of each input. -/
theorem along_of_forall {D : ι → Prop} (s : σ) {is : List ι} (h : ∀ i ∈ is, D i) :
    m.Along (fun _ i => D i) s is := by
  induction is generalizing s with
  | nil => trivial
  | cons i is ih =>
    exact ⟨h i List.mem_cons_self, ih _ (fun j hj => h j (List.mem_cons_of_mem i hj))⟩

theorem Always.mono {m : Machine σ ι ο} {P Q : σ → Prop} (hpq : ∀ s, P s → Q s) {s : σ}
    {is : List ι} (h : m.Always P s is) : m.Always Q s is := by
  induction is generalizing s with
  | nil => exact hpq s h
  | cons i is ih => exact ⟨hpq s h.1, ih h.2⟩

theorem Always.first {m : Machine σ ι ο} {P : σ → Prop} {s : σ} {is : List ι}
    (h : m.Always P s is) : P s := by
  cases is with
  | nil => exact h
  | cons i is => exact h.1

theorem Always.last {m : Machine σ ι ο} {P : σ → Prop} {s : σ} {is : List ι}
    (h : m.Always P s is) : P (m.run s is) := by
  induction is generalizing s with
  | nil => exact h
  | cons i is ih => exact ih h.2

/-- What the state before a step decides holds along a run whose states all have it. -/
theorem Always.along {m : Machine σ ι ο} {P : σ → Prop} {C : σ → ι → Prop}
    (hpc : ∀ s i, P s → C s i) {s : σ} {is : List ι} (h : m.Always P s is) : m.Along C s is := by
  induction is generalizing s with
  | nil => trivial
  | cons i is ih => exact ⟨hpc s i h.1, ih h.2⟩

/-- The induction rule for runs: an invariant kept by the steps a run takes holds
in each of its states. -/
theorem always_of_step {P : σ → Prop} {C : σ → ι → Prop}
    (hstep : ∀ s i, P s → C s i → P (m.next s i)) {s : σ} {is : List ι}
    (h0 : P s) (hc : m.Along C s is) : m.Always P s is := by
  induction is generalizing s with
  | nil => exact h0
  | cons i is ih => exact ⟨h0, ih (hstep s i h0 hc.1) hc.2⟩

theorem always_of_inv {P : σ → Prop} (hstep : ∀ s i, P s → P (m.next s i)) {s : σ} (h0 : P s)
    (is : List ι) : m.Always P s is :=
  m.always_of_step (fun s i hp _ => hstep s i hp) h0
    (m.along_of_forall s (D := fun _ => True) (fun _ _ => trivial))

/-- What holds of every step from a state of the invariant holds along each run. -/
theorem along_of_inv {I : σ → Prop} {C : σ → ι → Prop} (hI : ∀ s i, I s → I (m.next s i))
    (hc : ∀ s i, I s → C s i) {s : σ} (h0 : I s) (is : List ι) : m.Along C s is := by
  induction is generalizing s with
  | nil => trivial
  | cons i is ih => exact ⟨hc s i h0, ih (hI s i h0)⟩

/-- When a step keeps `P` exactly if it meets `C`, the states of a run all have `P`
exactly if its steps all meet `C`. `I` is what the domain `D` of the inputs makes sure of. -/
theorem always_iff_along {I P : σ → Prop} {C D : σ → ι → Prop}
    (hI : ∀ s i, I s → P s → D s i → I (m.next s i))
    (hstep : ∀ s i, I s → P s → D s i → (P (m.next s i) ↔ C s i)) {s : σ} {is : List ι}
    (hi : I s) (h0 : P s) (hd : m.Along D s is) : m.Always P s is ↔ m.Along C s is := by
  induction is generalizing s with
  | nil => exact iff_of_true h0 trivial
  | cons i is ih =>
    have hs := hstep s i hi h0 hd.1
    constructor
    · intro h
      exact ⟨hs.mp h.2.first, (ih (hI s i hi h0 hd.1) h.2.first hd.2).mp h.2⟩
    · intro h
      have hp := hs.mpr h.1
      exact ⟨h0, (ih (hI s i hi h0 hd.1) hp hd.2).mpr h.2⟩

/-- The same when the steps keep the invariant without a condition on them. -/
theorem always_iff_along_of_inv {I P : σ → Prop} {C : σ → ι → Prop}
    (hI : ∀ s i, I s → I (m.next s i)) (hstep : ∀ s i, I s → P s → (P (m.next s i) ↔ C s i))
    {s : σ} (hi : I s) (h0 : P s) (is : List ι) : m.Always P s is ↔ m.Along C s is := by
  have htrue : m.Along (fun _ _ => True) s is :=
    m.along_of_forall s (D := fun _ => True) (fun _ _ => trivial)
  exact m.always_iff_along (fun s i hs _ _ => hI s i hs) (fun s i hs hp _ => hstep s i hs hp)
    hi h0 htrue

theorem always_iff_along_of_step {P : σ → Prop} {C : σ → ι → Prop}
    (hstep : ∀ s i, P s → (P (m.next s i) ↔ C s i)) {s : σ} (h0 : P s) (is : List ι) :
    m.Always P s is ↔ m.Along C s is :=
  m.always_iff_along_of_inv (I := fun _ => True) (fun _ _ _ => trivial)
    (fun s i _ hp => hstep s i hp) trivial h0 is

/-- Two step conditions that agree at the states of an invariant agree along runs. -/
theorem along_congr {I : σ → Prop} {C C' D : σ → ι → Prop}
    (hI : ∀ s i, I s → D s i → I (m.next s i))
    (hcc : ∀ s i, I s → D s i → (C s i ↔ C' s i)) {s : σ} {is : List ι}
    (hi : I s) (hd : m.Along D s is) : m.Along C s is ↔ m.Along C' s is := by
  induction is generalizing s with
  | nil => exact Iff.rfl
  | cons i is ih =>
    rw [along_cons, along_cons, hcc s i hi hd.1, ih (hI s i hi hd.1) hd.2]

/-- The machine with a history variable, updated by `g` from the state before each step. -/
def withHistory (g : σ → ι → γ → γ) : Machine (σ × γ) ι ο where
  step p i := ((m.next p.1 i, g p.1 i p.2), m.emit p.1 i)

/-- The history variable after a run. -/
def history (g : σ → ι → γ → γ) (s : σ) (c : γ) (is : List ι) : γ :=
  ((m.withHistory g).run (s, c) is).2

@[simp] theorem next_withHistory (g : σ → ι → γ → γ) (p : σ × γ) (i : ι) :
    (m.withHistory g).next p i = (m.next p.1 i, g p.1 i p.2) := rfl

/-- A history variable does not influence the run it records. -/
theorem run_withHistory (g : σ → ι → γ → γ) (s : σ) (c : γ) (is : List ι) :
    (m.withHistory g).run (s, c) is = (m.run s is, m.history g s c is) := by
  suffices h : ((m.withHistory g).run (s, c) is).1 = m.run s is from Prod.ext h rfl
  induction is generalizing s c with
  | nil => rfl
  | cons i is ih => exact ih (m.next s i) (g s i c)

theorem along_withHistory (C : σ → ι → Prop) (g : σ → ι → γ → γ) (s : σ) (c : γ) (is : List ι) :
    (m.withHistory g).Along (fun p i => C p.1 i) (s, c) is ↔ m.Along C s is := by
  induction is generalizing s c with
  | nil => exact Iff.rfl
  | cons i is ih => rw [along_cons, along_cons, next_withHistory, ih]

/-! ## Registers

A register is a part of the state that some inputs write and the others leave alone. -/

/-- What the inputs wrote last; `f` is what one input writes. -/
def written (f : ι → Option γ) (is : List ι) : Option γ := (is.filterMap f).getLast?

@[simp] theorem written_nil (f : ι → Option γ) : written f [] = none := rfl

theorem written_concat (f : ι → Option γ) (is : List ι) (i : ι) :
    written f (is ++ [i]) = (f i).or (written f is) := by
  unfold written
  cases hf : f i with
  | none => simp [hf]
  | some c => simp [hf]

theorem isSome_written_iff (f : ι → Option γ) (is : List ι) :
    (written f is).isSome ↔ ∃ i ∈ is, (f i).isSome := by
  induction is using List.reverseRecOn with
  | nil => simp
  | append_singleton is i ih =>
    rw [written_concat, Option.isSome_or, Bool.or_eq_true, ih]
    simp only [List.mem_append, List.mem_singleton, or_and_right, exists_or, exists_eq_left]
    exact or_comm

theorem exists_of_written {f : ι → Option γ} {is : List ι} {c : γ} (h : written f is = some c) :
    ∃ i ∈ is, f i = some c :=
  List.mem_filterMap.mp (List.mem_of_getLast? h)

/-- A register holds what was written last, or else what it held at first. -/
theorem run_register {p : σ → Option γ} {f : ι → Option γ}
    (h : ∀ s i, p (m.next s i) = (f i).or (p s)) (s : σ) (is : List ι) :
    p (m.run s is) = (written f is).or (p s) := by
  induction is using List.reverseRecOn with
  | nil => rfl
  | append_singleton is i ih =>
    rw [run_append, run_cons, run_nil, h, ih, written_concat, Option.or_assoc]

/-- A register that always holds something. -/
theorem run_register_getD {p : σ → γ} {f : ι → Option γ}
    (h : ∀ s i, p (m.next s i) = (f i).getD (p s)) (s : σ) (is : List ι) :
    p (m.run s is) = (written f is).getD (p s) := by
  have hstep : ∀ s i, some (p (m.next s i)) = (f i).or (some (p s)) := by
    intro s i
    rw [h]
    cases f i <;> rfl
  have hrun := m.run_register (p := fun s => some (p s)) hstep s is
  cases hw : written f is with
  | none => rw [hw] at hrun; exact Option.some.inj hrun
  | some c => rw [hw] at hrun; exact Option.some.inj hrun

/-! ## Machines that drive others -/

section Drives

variable {τ : Type*} {κ : Type*}

/-- Each step of `m` hands some inputs to a machine that is part of it, and reports what that
machine reports. -/
structure Drives (m : Machine σ ι ο) (part : Machine τ κ ο) (proj : σ → τ)
    (sent : ι → List κ) : Prop where
  next : ∀ s i, proj (m.next s i) = part.run (proj s) (sent i)
  emit : ∀ s i, m.emit s i = part.outputs (proj s) (sent i)

variable {m} {part : Machine τ κ ο} {proj : σ → τ} {sent : ι → List κ}

theorem Drives.run (h : m.Drives part proj sent) (s : σ) (is : List ι) :
    proj (m.run s is) = part.run (proj s) (is.flatMap sent) := by
  induction is generalizing s with
  | nil => rfl
  | cons i is ih => rw [run_cons, ih, h.next, List.flatMap_cons, run_append]

theorem Drives.outputs (h : m.Drives part proj sent) (s : σ) (is : List ι) :
    m.outputs s is = part.outputs (proj s) (is.flatMap sent) := by
  induction is generalizing s with
  | nil => rfl
  | cons i is ih => rw [outputs_cons, ih, h.emit, h.next, List.flatMap_cons, outputs_append]

end Drives
end Machine
end Karupasu.Library
