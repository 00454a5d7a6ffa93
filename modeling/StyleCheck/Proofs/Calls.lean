import StyleCheck.Proofs.Applying

/-!
# Runs of calls on a block

A block is changed by applying declarations to it and by declaring texts. Declaring a text comes down to applying a normal
declaration, or to nothing (`called_eq_self_or_applied`), so whatever applying declarations keeps is kept by every run of calls.
Main statements: `calledAll_induction`, and `forall_mem_applied` for what is to hold of every property in a block.
-/

namespace StyleCheck

/-- What can be asked of a block. -/
inductive Call where
  | apply (d : Declaration)
  | declare (name text : String)

/-- The declaration that a call applies if the register knows its name; none if its text is no value or an empty one. -/
def Call.declaration? : Call → Option Declaration
  | .apply d => some d
  | .declare name text =>
    match Value.parse text with
    | .error _ => none
    | .ok value => if value.components.isEmpty then none else some ⟨name, value, false⟩

namespace Block

/-- The block after a call. -/
def called (r : Registry) (b : Block) : Call → Block
  | .apply d => (b.apply r d).value.2
  | .declare name text => (b.declare r name text).value.2

/-- The block after calls in order. -/
def calledAll (r : Registry) (b : Block) (calls : List Call) : Block := calls.foldl (called r) b

/-- A text that is declared is applied as a normal value if the name is known, and if the text is a value with components. -/
theorem called_declare (r : Registry) (b : Block) (name text : String) :
    b.called r (.declare name text) =
      if r.contains name then ((Call.declare name text).declaration?).elim b (b.applied r) else b := by
  simp only [called, Block.declare, Call.declaration?]
  cases hname : r.contains name with
  | false => rfl
  | true =>
    cases Value.parse text with
    | error cause => rfl
    | ok value => cases hvalue : value.components.isEmpty <;> simp [hvalue, applied]

/-- A call applies its declaration or does nothing. -/
theorem called_eq_self_or_applied (r : Registry) (b : Block) (c : Call) :
    b.called r c = b ∨ ∃ d, c.declaration? = some d ∧ b.called r c = b.applied r d := by
  cases c with
  | apply d => exact .inr ⟨d, rfl, rfl⟩
  | declare name text =>
    rw [called_declare]
    split
    · cases (Call.declare name text).declaration? with
      | none => exact .inl rfl
      | some d => exact .inr ⟨d, rfl, rfl⟩
    · exact .inl rfl

/-- What the declarations of calls keep holds after all of the calls. -/
theorem calledAll_induction {r : Registry} {P : Block → Prop} {b : Block} (hb : P b) {calls : List Call}
    (hstep : ∀ c ∈ calls, ∀ d, c.declaration? = some d → ∀ b, P b → P (b.applied r d)) : P (b.calledAll r calls) := by
  refine List.foldlRecOn calls _ hb fun b hb c hc => ?_
  rcases b.called_eq_self_or_applied r c with h | ⟨d, hd, h⟩
  · rwa [h]
  · rw [h]
    exact hstep c hc d hd b hb

/-! ## Every property of a block -/

theorem mem_replaceFirst {name : String} {new e : Entry} {entries : List Entry} (h : e ∈ replaceFirst name new entries) :
    e = new ∨ e ∈ entries := by
  induction entries with
  | nil => cases h
  | cons x rest ih =>
    rw [replaceFirst] at h
    split at h
    · rcases List.mem_cons.1 h with h | h
      · exact .inl h
      · exact .inr (List.mem_cons_of_mem _ h)
    · rcases List.mem_cons.1 h with rfl | h
      · exact .inr List.mem_cons_self
      · exact (ih h).imp_right (List.mem_cons_of_mem _)

/-- What holds of new properties, and is kept when the value is declared, holds of all properties of the block. -/
theorem forall_mem_applied {r : Registry} {b : Block} {d : Declaration} {P : Property → Prop}
    (hb : ∀ e ∈ b.entries, P e.property) (hnew : ∀ q, r.fresh? d.name = some q → P q)
    (hafter : ∀ q, P q → P (q.after d.value)) : ∀ e ∈ (b.applied r d).entries, P e.property := by
  cases he : b.entry? d.name with
  | some old =>
    rw [applied_of_entry r he]
    cases hd : old.redeclared d with
    | none => exact hb
    | some new =>
      intro e hmem
      rcases mem_replaceFirst hmem with rfl | hmem
      · rw [Entry.property_of_redeclared hd]
        exact hafter _ (hb old (List.mem_of_find?_eq_some he))
      · exact hb e hmem
  | none =>
    rw [applied_of_no_entry r he]
    cases hd : (r.fresh? d.name).bind (firstEntry · d) with
    | none => exact hb
    | some new =>
      intro e hmem
      rcases List.mem_append.1 hmem with hmem | hmem
      · exact hb e hmem
      · obtain rfl := List.mem_singleton.1 hmem
        obtain ⟨q, hq, hproperty⟩ := property_of_firstEntry hd
        rw [hproperty]
        exact hafter q (hnew q hq)

end Block

end StyleCheck
