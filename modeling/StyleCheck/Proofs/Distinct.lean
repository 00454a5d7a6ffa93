import StyleCheck.Proofs.Calls
import StyleCheck.Proofs.Cascade
import StyleCheck.Proofs.Registering

/-!
# One property for each name

A block looks for an entry by the name that its property carries, but makes a new property by the name that was declared. Both
lead to the same entry as long as every property carries the name it is known under; as soon as one does not, declaring it twice
makes two entries for it. So the properties of all blocks have names of their own exactly if the register is coherent. Main
statement: `pairwise_names_iff_coherent`.
-/

namespace StyleCheck

/-- No two of the names are equal without regard to case. -/
def DistinctNames (names : List String) : Prop := names.Pairwise fun a b => eqIgnoringCase a b = false

instance (names : List String) : Decidable (DistinctNames names) :=
  inferInstanceAs (Decidable (names.Pairwise fun a b => eqIgnoringCase a b = false))

/-- Names stay distinct with one more exactly if none before is spelled like it. -/
theorem distinctNames_concat {names : List String} {name : String} :
    DistinctNames (names ++ [name]) ↔ DistinctNames names ∧ ∀ n ∈ names, eqIgnoringCase n name = false := by
  simp [DistinctNames, List.pairwise_append]

namespace Block

/-! ## Names of entries -/

/-- A name has no entry exactly if no entry name is spelled like it. -/
theorem entry?_eq_none_iff (b : Block) (name : String) :
    b.entry? name = none ↔ ∀ n ∈ b.names, eqIgnoringCase n name = false := by
  unfold entry?
  simp [names, Entry.isNamed]

/-- Replacing an entry by one of the same name changes no names. -/
theorem map_name_replaceFirst {name : String} {old new : Entry} (hname : new.property.name = old.property.name) :
    ∀ {entries : List Entry}, entries.find? (·.isNamed name) = some old →
      (replaceFirst name new entries).map (·.property.name) = entries.map (·.property.name) := by
  intro entries
  induction entries with
  | nil => intro h; cases h
  | cons e rest ih =>
    intro h
    rw [replaceFirst]
    split
    · next he =>
      rw [List.find?_cons_of_pos (p := fun e : Entry => e.isNamed name) he] at h
      obtain rfl := Option.some.inj h
      rw [List.map_cons, List.map_cons, hname]
    · next he =>
      rw [List.find?_cons_of_neg (p := fun e : Entry => e.isNamed name) he] at h
      rw [List.map_cons, List.map_cons, ih h]

/-- A declaration leaves the names as they are, or adds that of a new property which no entry was found for. -/
theorem names_applied (r : Registry) (b : Block) (d : Declaration) :
    (b.applied r d).names = b.names ∨
      ∃ q, b.entry? d.name = none ∧ r.fresh? d.name = some q ∧ (b.applied r d).names = b.names ++ [q.name] := by
  cases he : b.entry? d.name with
  | some e =>
    rw [applied_of_entry r he]
    cases hd : e.redeclared d with
    | none => exact .inl rfl
    | some new =>
      have hname : new.property.name = e.property.name := by rw [Entry.property_of_redeclared hd, Property.name_after]
      exact .inl (map_name_replaceFirst hname he)
  | none =>
    rw [applied_of_no_entry r he]
    cases hd : (r.fresh? d.name).bind (firstEntry · d) with
    | none => exact .inl rfl
    | some new =>
      obtain ⟨q, hq, hproperty⟩ := property_of_firstEntry hd
      exact .inr ⟨q, rfl, hq, by simp [names, hproperty]⟩

/-! ## Coherent registers -/

/-- One declaration keeps names apart: a new property carries the name that no entry was found for. -/
theorem distinctNames_applied {r : Registry} (hr : r.Coherent) {b : Block} (d : Declaration) (hb : DistinctNames b.names) :
    DistinctNames (b.applied r d).names := by
  rcases b.names_applied r d with h | ⟨q, hnone, hq, h⟩
  · rwa [h]
  · have hname := eqIgnoringCase_iff.1 (hr.name_of_fresh? hq)
    rw [h, distinctNames_concat]
    refine ⟨hb, fun n hn => ?_⟩
    rw [eqIgnoringCase, hname]
    exact (b.entry?_eq_none_iff d.name).1 hnone n hn

/-- All calls keep names apart. -/
theorem distinctNames_calledAll {r : Registry} (hr : r.Coherent) (calls : List Call) :
    DistinctNames (empty.calledAll r calls).names := by
  refine calledAll_induction (P := fun b => DistinctNames b.names) (b := empty) List.Pairwise.nil ?_
  intro c _ d _ b hb
  exact distinctNames_applied hr d hb

/-! ## Registers that are not coherent -/

/-- The normal declaration that a property is inherited. -/
def inheriting (name : String) : Declaration := ⟨name, .keyword "inherit", false⟩

/-- Every property takes `inherit`, whatever its grammar, so that the first one always makes an entry. -/
theorem names_applied_inheriting {r : Registry} {b : Block} {name : String} {q : Property} (hq : r.fresh? name = some q)
    (hnone : b.entry? name = none) : (b.applied r (inheriting name)).names = b.names ++ [q.name] := by
  have hfirst : (r.fresh? (inheriting name).name).bind (firstEntry · (inheriting name)) =
      some ⟨q.after (.keyword "inherit"), .inherit, false⟩ := by
    rw [inheriting, hq]
    rfl
  rw [applied_of_no_entry r (d := inheriting name) hnone, hfirst]
  simp [names]

/-- A property under a name that it does not carry is not found again, so that declaring it twice makes two entries. -/
theorem names_inheriting_twice {r : Registry} {name : String} {q : Property} (hq : r.fresh? name = some q)
    (hname : eqIgnoringCase q.name name = false) :
    (empty.calledAll r [.apply (inheriting name), .apply (inheriting name)]).names = [q.name, q.name] := by
  have hone : (empty.applied r (inheriting name)).names = [q.name] := names_applied_inheriting hq rfl
  have hnone : entry? (empty.applied r (inheriting name)) name = none := by
    rw [entry?_eq_none_iff, hone]
    simpa using hname
  have htwo := names_applied_inheriting hq hnone
  rwa [hone] at htwo

end Block

/-- The properties of a block never share a name exactly if every property carries the name it is known under, in every register
that comes of registrations: on the one side over all calls on a block, on the other over all factories registered. -/
theorem pairwise_names_iff_coherent {start : Registry} (hstart : start = .empty ∨ start = .builtin)
    (registrations : List (String × Factory)) :
    (∀ calls, DistinctNames (Block.empty.calledAll (start.registeredAll registrations) calls).names) ↔
      (start.registeredAll registrations).Coherent := by
  have hkept : (start.registeredAll registrations).WellKept := by
    rcases hstart with rfl | rfl
    · exact Registry.WellKept.empty.registeredAll registrations
    · exact Registry.WellKept.builtin.registeredAll registrations
  generalize start.registeredAll registrations = r at hkept
  constructor
  · rintro hdistinct ⟨name, f⟩ hf
    by_contra hname
    have hfresh : r.fresh? name = some f.value.reset := by rw [r.fresh?_eq, hkept.factory?_of_mem hf]; rfl
    have hpair := hdistinct [.apply (Block.inheriting name), .apply (Block.inheriting name)]
    rw [Block.names_inheriting_twice hfresh (by simpa using hname)] at hpair
    simp [DistinctNames, eqIgnoringCase_refl] at hpair
  · intro hr calls
    exact Block.distinctNames_calledAll hr calls

/-- A factory under a name that is taken is refused and does no harm; under a name of its own that it does not carry, it makes
two entries of one name possible. -/
theorem pairwise_names_iff_coherent_alias :
    let taken := Registry.builtin.registeredAll [("Background-Clip", LineProperty.factory)]
    let other := Registry.builtin.registeredAll [("Mask-Clip", backgroundClip.factory .box)]
    taken.Coherent ∧ (∀ calls, DistinctNames (Block.empty.calledAll taken calls).names) ∧
      ¬other.Coherent ∧ ∃ calls, ¬DistinctNames (Block.empty.calledAll other calls).names := by
  intro taken other
  have htaken : taken.Coherent := by
    have h : taken = .builtin := (Registry.registeredAll_singleton ..).trans (if_pos (by decide))
    rw [h]
    exact coherent_builtin
  have hother : ¬other.Coherent := by
    have h : other = ⟨Registry.builtin.entries ++ [("mask-clip", backgroundClip.factory .box)]⟩ :=
      (Registry.registeredAll_singleton ..).trans (if_neg (by decide))
    intro hcoherent
    have hname := hcoherent ("mask-clip", backgroundClip.factory .box) (by rw [h]; simp)
    revert hname
    decide
  have hiff : (∀ calls, DistinctNames (Block.empty.calledAll other calls).names) ↔ other.Coherent :=
    pairwise_names_iff_coherent (.inr rfl) [("Mask-Clip", backgroundClip.factory .box)]
  refine ⟨htaken, ?_, hother, ?_⟩
  · exact (pairwise_names_iff_coherent (.inr rfl) [("Background-Clip", LineProperty.factory)]).2 htaken
  · rw [← not_forall, hiff]
    exact hother

end StyleCheck
