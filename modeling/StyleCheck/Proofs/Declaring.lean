import StyleCheck.Property.Defaulting

/-!
# What declaring a value does to a property

A property keeps its grammar for good: whatever it is given, it goes back to the same initial value. So whether a value is
taken, and how, does not depend on what the property holds; and a value of its own, or `initial`, leaves the same property
behind whatever was held before. Main statements: `answer_eq_of_reset_eq`, `after_eq_of_settles` and `reset_after`.
-/

namespace StyleCheck

/-- Whether a value given in this way decides what the property holds. -/
def Specified.settles : Specified → Bool
  | .value | .initial => true
  | .inherit | .unset => false

namespace Property

/-- How a property takes a declared value, none if it refuses it. -/
def answer (p : Property) (v : Value) : Option Specified := (p.declare v).value.1

/-- The property after a value was declared for it. -/
def after (p : Property) (v : Value) : Property := (p.declare v).value.2

/-! ## Back to the initial value -/

@[simp]
theorem name_reset (p : Property) : p.reset.name = p.name := by
  cases p <;> rfl

@[simp]
theorem reset_reset (p : Property) : p.reset.reset = p.reset := by
  cases p <;> rfl

@[simp]
theorem status_reset (p : Property) : p.reset.status = .initial := by
  cases p <;> rfl

/-- Properties that go back to the same initial value carry the same name. -/
theorem name_eq_of_reset_eq {p q : Property} (h : p.reset = q.reset) : p.name = q.name := by
  rw [← name_reset p, h, name_reset]

/-! ## Accepting a value -/

/-- Whether a value is accepted, and what is then held, does not depend on what was held before. -/
@[simp]
theorem commit_reset (p : Property) (v : Value) : p.reset.commit v = p.commit v := by
  cases p <;> rfl

/-- An accepted value is held as such, and the way back to the initial value stays the same. -/
theorem of_commit_eq_ok {p q : Property} {v : Value} (h : p.commit v = .ok q) :
    q.status = .committed ∧ q.reset = p.reset := by
  cases p with
  | keyword kind k =>
    simp only [commit, KeywordProperty.commit] at h
    cases hr : k.grammar.read v with
    | error e => rw [hr] at h; cases h
    | ok values =>
      rw [hr] at h
      obtain rfl := Except.ok.inj h
      exact ⟨rfl, rfl⟩
  | lines l =>
    simp only [commit, LineProperty.commit] at h
    cases hr : Line.read v with
    | error e => rw [hr] at h; cases h
    | ok values =>
      rw [hr] at h
      obtain rfl := Except.ok.inj h
      exact ⟨rfl, rfl⟩

/-! ## Declaring a value -/

/-- All that declaring a value can do: a value of its own is held as the property reads it, `initial` brings the initial value
back, and what is refused, as well as `inherit` and `unset`, leaves the property alone. -/
theorem declare_spec (p : Property) (v : Value) :
    match p.answer v with
    | some .value => p.commit v = .ok (p.after v)
    | some .initial => p.after v = p.reset
    | _ => p.after v = p := by
  unfold answer after declare
  cases WideKeyword.ofValue? v with
  | some k => cases k <;> rfl
  | none =>
    unfold validate
    cases hc : p.commit v with
    | ok q => rfl
    | error reason => rfl

/-- A commit answered by a value holds what the property holds after it. -/
theorem commit_eq_ok_of_answer_eq_value {p : Property} {v : Value} (h : p.answer v = some .value) :
    p.commit v = .ok (p.after v) := by
  have hp := p.declare_spec v
  rwa [h] at hp

/-- A property answers `initial` by an unset. -/
theorem after_eq_reset_of_answer_eq_initial {p : Property} {v : Value} (h : p.answer v = some .initial) :
    p.after v = p.reset := by
  have hp := p.declare_spec v
  rwa [h] at hp

/-- What does not decide what the property holds leaves it alone. -/
theorem after_eq_self_of_not_settles {p : Property} {v : Value} {s : Specified} (h : p.answer v = some s)
    (hs : s.settles = false) : p.after v = p := by
  have hp := p.declare_spec v
  rw [h] at hp
  cases s with
  | value => cases hs
  | initial => cases hs
  | inherit => exact hp
  | unset => exact hp

/-- Declaring a value does not change the initial value. -/
@[simp]
theorem reset_after (p : Property) (v : Value) : (p.after v).reset = p.reset := by
  have hp := p.declare_spec v
  split at hp
  · exact (of_commit_eq_ok hp).2
  · rw [hp, reset_reset]
  · rw [hp]

@[simp]
theorem name_after (p : Property) (v : Value) : (p.after v).name = p.name :=
  name_eq_of_reset_eq (reset_after p v)

/-- How a value is taken does not depend on what is held. -/
@[simp]
theorem answer_reset (p : Property) (v : Value) : p.reset.answer v = p.answer v := by
  unfold answer declare
  cases WideKeyword.ofValue? v with
  | some k => cases k <;> rfl
  | none =>
    unfold validate
    rw [commit_reset]
    cases p.commit v <;> rfl

/-- The answer to a value depends on the grammar alone, not on what is held. -/
theorem answer_eq_of_reset_eq {p q : Property} (h : p.reset = q.reset) (v : Value) : p.answer v = q.answer v := by
  rw [← answer_reset p, h, answer_reset]

/-- A value of its own, or `initial`, leaves the same property behind whatever was held. -/
theorem after_eq_of_settles {p q : Property} (h : p.reset = q.reset) {v : Value} {s : Specified}
    (ha : p.answer v = some s) (hs : s.settles = true) : p.after v = q.after v := by
  have hq : q.answer v = some s := by rw [← answer_eq_of_reset_eq h, ha]
  cases s with
  | value =>
    have hp' := commit_eq_ok_of_answer_eq_value ha
    have hq' := commit_eq_ok_of_answer_eq_value hq
    rw [← commit_reset, h, commit_reset, hq'] at hp'
    exact (Except.ok.inj hp').symm
  | initial => rw [after_eq_reset_of_answer_eq_initial ha, after_eq_reset_of_answer_eq_initial hq, h]
  | inherit => cases hs
  | unset => cases hs

end Property

end StyleCheck
