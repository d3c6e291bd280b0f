import Mathlib.Data.List.Basic

/-!
# Repeating a source: `ObservableType.repeat`

The sources are synchronous: a subscription is over before its disposable reaches the
`SerialDisposable`, which therefore has nothing to dispose of. What is left is a recursion
through `onCompleted`; fuel bounds its depth, and a run that has used it up has not ended.
-/
namespace Karupasu.RxSwiftEx

variable {Element Failure : Type}

inductive Ending (Failure : Type) where
  | completed
  | error (error : Failure)
  deriving DecidableEq

/-- What a source does on each subscription: it emits its elements and ends. -/
structure Source (Element Failure : Type) where
  elements : List Element
  ending : Ending Failure
  deriving DecidableEq

/-- The elements an observer has received, and how the sequence ended, if it has. -/
abbrev Received (Element Failure : Type) := List Element × Option (Ending Failure)

/-- The local function; its argument is never read. -/
def iterate (me : Source Element Failure) (count : Int) : Nat → Int → Received Element Failure
  | 0, _ => ([], none)
  | fuel + 1, _current =>
    match me.ending with
    | .error error => (me.elements, some (.error error))
    | .completed =>
      let remaining := count - 1
      if remaining > 0 then
        let rest := iterate me count fuel remaining
        (me.elements ++ rest.1, rest.2)
      else (me.elements, some .completed)

/-- `repeat` -/
def repeats (me : Source Element Failure) (count : Int) (fuel : Nat) : Received Element Failure :=
  if count ≤ 0 then ([], some .completed)
  else if count = 1 then (me.elements, some me.ending)
  else iterate me count fuel count

/-- With enough fuel the observer receives the elements and the ending, and nothing more. -/
def Emits (me : Source Element Failure) (count : Int) (elements : List Element)
    (ending : Ending Failure) : Prop :=
  ∃ enough, ∀ fuel, enough ≤ fuel → repeats me count fuel = (elements, some ending)

structure RepeatsExactly (me : Source Element Failure) (count : Int) : Prop where
  completes : me.ending = .completed →
    Emits me count (List.replicate count.toNat me.elements).flatten .completed
  fails : ∀ error, me.ending = .error error → 1 ≤ count →
    Emits me count me.elements (.error error)
  terminates : ∃ elements ending, Emits me count elements ending

theorem iterate_error {me : Source Element Failure} {error : Failure}
    (h : me.ending = .error error) (count : Int) (fuel : Nat) (current : Int) :
    iterate me count (fuel + 1) current = (me.elements, some (.error error)) := by
  simp only [iterate, h]

/-- The counter stands still, so each completion subscribes once more. -/
theorem iterate_completed {me : Source Element Failure} (h : me.ending = .completed)
    {count : Int} (hc : 2 ≤ count) (fuel : Nat) (current : Int) :
    iterate me count fuel current = ((List.replicate fuel me.elements).flatten, none) := by
  induction fuel generalizing current with
  | zero => rfl
  | succ fuel ih =>
    have hr : count - 1 > 0 := by omega
    simp only [iterate, h, if_pos hr, ih, List.replicate_succ, List.flatten_cons]

theorem repeats_nonpos (me : Source Element Failure) {count : Int} (h : count ≤ 0) (fuel : Nat) :
    repeats me count fuel = ([], some .completed) := by
  rw [repeats, if_pos h]

theorem repeats_one (me : Source Element Failure) (fuel : Nat) :
    repeats me 1 fuel = (me.elements, some me.ending) := by
  rw [repeats, if_neg (by omega), if_pos rfl]

theorem repeats_of_two_le (me : Source Element Failure) {count : Int} (h : 2 ≤ count)
    (fuel : Nat) : repeats me count fuel = iterate me count fuel count := by
  rw [repeats, if_neg (by omega), if_neg (by omega)]

theorem repeatsExactly_nonpos (me : Source Element Failure) {count : Int} (h : count ≤ 0) :
    RepeatsExactly me count := by
  have hn : count.toNat = 0 := by omega
  refine ⟨fun _ => ⟨0, fun fuel _ => ?_⟩, fun error _ h1 => absurd h1 (by omega),
    [], .completed, 0, fun fuel _ => repeats_nonpos me h fuel⟩
  rw [repeats_nonpos me h, hn]
  rfl

theorem repeatsExactly_one (me : Source Element Failure) : RepeatsExactly me 1 := by
  refine ⟨fun hcompleted => ⟨0, fun fuel _ => ?_⟩, fun error herror _ => ⟨0, fun fuel _ => ?_⟩,
    me.elements, me.ending, 0, fun fuel _ => repeats_one me fuel⟩
  · rw [repeats_one, hcompleted]
    simp
  · rw [repeats_one, herror]

theorem repeatsExactly_of_error {me : Source Element Failure} {error : Failure}
    (herror : me.ending = .error error) {count : Int} (h : 2 ≤ count) :
    RepeatsExactly me count := by
  have hemits : Emits me count me.elements (.error error) := by
    refine ⟨1, fun fuel hfuel => ?_⟩
    obtain ⟨n, rfl⟩ : ∃ n, fuel = n + 1 := ⟨fuel - 1, by omega⟩
    rw [repeats_of_two_le me h, iterate_error herror]
  refine ⟨fun hcompleted => ?_, fun error' herror' _ => ?_, me.elements, .error error, hemits⟩
  · rw [herror] at hcompleted
    cases hcompleted
  · rw [herror] at herror'
    cases herror'
    exact hemits

/-- A source that completes is repeated for ever when the count is 2 or more. -/
theorem not_emits {me : Source Element Failure} (h : me.ending = .completed) {count : Int}
    (hc : 2 ≤ count) (elements : List Element) (ending : Ending Failure) :
    ¬Emits me count elements ending := by
  rintro ⟨enough, hend⟩
  have he := hend enough (Nat.le_refl enough)
  rw [repeats_of_two_le me hc, iterate_completed h hc] at he
  cases he

/-- The operator repeats exactly `count` times, and ends at all, exactly when the count is at
most 1 or the source fails. -/
theorem repeats_exactly_iff (me : Source Element Failure) (count : Int) :
    RepeatsExactly me count ↔ count ≤ 1 ∨ ∃ error, me.ending = .error error := by
  by_cases hc : 2 ≤ count
  · cases hend : me.ending with
    | completed =>
      refine iff_of_false (fun h => ?_) ?_
      · obtain ⟨elements, ending, hemits⟩ := h.terminates
        exact not_emits hend hc elements ending hemits
      · rintro (h1 | ⟨error, he⟩)
        · omega
        · cases he
    | error error => exact iff_of_true (repeatsExactly_of_error hend hc) (.inr ⟨error, rfl⟩)
  · refine iff_of_true ?_ (.inl (by omega))
    by_cases h1 : count = 1
    · subst h1
      exact repeatsExactly_one me
    · exact repeatsExactly_nonpos me (by omega)

/-- A source of one element, asked for twice, has emitted three times with fuel for three
subscriptions, and with no fuel does it complete. -/
theorem repeat_twice_never_ends :
    let me : Source Nat String := ⟨[7], .completed⟩
    repeats me 2 3 = ([7, 7, 7], none) ∧ (∀ fuel, (repeats me 2 fuel).2 = none) ∧
      ¬RepeatsExactly me 2 := by
  intro me
  refine ⟨by decide, fun fuel => ?_, fun h => ?_⟩
  · rw [repeats_of_two_le me (by omega), iterate_completed rfl (by omega)]
  · obtain ⟨elements, ending, hemits⟩ := h.terminates
    exact not_emits rfl (by omega) elements ending hemits

end Karupasu.RxSwiftEx
