import StyleCheck.Block
import StyleCheck.Proofs.Declaring
import StyleCheck.Proofs.LetterCase

/-!
# What applying a declaration does to a block

A declaration changes the entry of the property it names and no other, as long as every property carries the name it is known
under. `nextEntry` says what becomes of that entry. Main statements: `entry?_applied_other` and `entry?_applied_same` for one
declaration, `appliedAll_concat` for a run of them.
-/

namespace StyleCheck

namespace Registry

/-- Every property that the register builds carries the name it is known under, without regard to case. -/
def Coherent (r : Registry) : Prop :=
  ∀ e ∈ r.entries, eqIgnoringCase e.2.value.name e.1 = true

/-- A new property with this name, at its initial value. -/
def fresh? (r : Registry) (name : String) : Option Property := (r.create name).value

theorem fresh?_eq (r : Registry) (name : String) :
    r.fresh? name = (r.factory? name).map fun f => f.value.reset := by
  unfold fresh? create
  cases r.factory? name <;> rfl

/-- A new property can be had exactly under the names that are known. -/
theorem isSome_fresh? (r : Registry) (name : String) : (r.fresh? name).isSome = r.contains name := by
  rw [fresh?_eq, Option.isSome_map, contains]

/-- The case of the name does not matter. -/
theorem fresh?_congr (r : Registry) {a b : String} (h : eqIgnoringCase a b = true) : r.fresh? a = r.fresh? b := by
  rw [fresh?_eq, fresh?_eq, factory?, factory?, eqIgnoringCase_iff.1 h]

/-- A new property holds its initial value. -/
theorem reset_of_fresh? {r : Registry} {name : String} {q : Property} (h : r.fresh? name = some q) : q.reset = q := by
  rw [fresh?_eq] at h
  obtain ⟨f, -, rfl⟩ := Option.map_eq_some_iff.1 h
  exact Property.reset_reset _

/-- A new property carries the name it was asked for. -/
theorem Coherent.name_of_fresh? {r : Registry} (hr : r.Coherent) {name : String} {q : Property}
    (h : r.fresh? name = some q) : eqIgnoringCase q.name name = true := by
  rw [fresh?_eq] at h
  obtain ⟨f, hf, rfl⟩ := Option.map_eq_some_iff.1 h
  obtain ⟨e, he, rfl⟩ := Option.map_eq_some_iff.1 hf
  have hkey : e.1 = lower name := by simpa using List.find?_some he
  have hname := hr e (List.mem_of_find?_eq_some he)
  rw [hkey] at hname
  rw [Property.name_reset]
  exact eqIgnoringCase_trans hname (eqIgnoringCase_iff.2 (lower_lower name))

end Registry

/-! ## Entries by name -/

namespace Entry

/-- The case of the name does not matter. -/
theorem isNamed_congr (e : Entry) {a b : String} (h : eqIgnoringCase a b = true) : e.isNamed a = e.isNamed b := by
  rw [isNamed, isNamed, eqIgnoringCase, eqIgnoringCase, eqIgnoringCase_iff.1 h]

/-- Two names of one entry are equal without regard to case. -/
theorem eqIgnoringCase_of_isNamed {e : Entry} {a b : String} (ha : e.isNamed a = true) (hb : e.isNamed b = true) :
    eqIgnoringCase a b = true := by
  rw [isNamed, eqIgnoringCase_iff] at ha hb
  exact eqIgnoringCase_iff.2 (ha.symm.trans hb)

/-- The entry with its property given a value, as far as importance allows; none if nothing comes of it. -/
def redeclared (e : Entry) (d : Declaration) : Option Entry :=
  if e.important && !d.important then none
  else (e.property.answer d.value).map (⟨e.property.after d.value, ·, d.important⟩)

/-- An entry that is declared again holds its property after the value. -/
theorem property_of_redeclared {e new : Entry} {d : Declaration} (h : e.redeclared d = some new) :
    new.property = e.property.after d.value := by
  unfold redeclared at h
  split at h
  · cases h
  · obtain ⟨s, -, rfl⟩ := Option.map_eq_some_iff.1 h
    rfl

end Entry

namespace Block

/-- The first entry of a new property; none if the value is refused. -/
def firstEntry (q : Property) (d : Declaration) : Option Entry :=
  (q.answer d.value).map (⟨q.after d.value, ·, d.important⟩)

/-- A first entry is of a new property, after the value was declared for it. -/
theorem property_of_firstEntry {r : Registry} {name : String} {d : Declaration} {new : Entry}
    (h : (r.fresh? name).bind (firstEntry · d) = some new) :
    ∃ q, r.fresh? name = some q ∧ new.property = q.after d.value := by
  obtain ⟨q, hq, hn⟩ := Option.bind_eq_some_iff.1 h
  obtain ⟨s, -, rfl⟩ := Option.map_eq_some_iff.1 hn
  exact ⟨q, hq, rfl⟩

theorem value_redeclare (e : Entry) (d : Declaration) : (redeclare e d).value = e.redeclared d := by
  unfold redeclare Entry.redeclared
  split <;> rfl

theorem value_firstDeclare (r : Registry) (d : Declaration) :
    (firstDeclare r d).value = (r.fresh? d.name).bind (firstEntry · d) := by
  unfold firstDeclare Registry.fresh?
  rw [Logged.value_bind]
  cases (r.create d.name).value <;> rfl

/-- The block after a declaration was applied. -/
def applied (r : Registry) (b : Block) (d : Declaration) : Block := (b.apply r d).value.2

/-- The block after declarations were applied in order. -/
def appliedAll (r : Registry) (b : Block) (ds : List Declaration) : Block := (b.applyAll r ds).value.2

theorem appliedAll_cons (r : Registry) (b : Block) (d : Declaration) (ds : List Declaration) :
    b.appliedAll r (d :: ds) = (b.applied r d).appliedAll r ds := rfl

/-- Declarations are applied one after the other. -/
theorem appliedAll_append (r : Registry) (b : Block) (ds es : List Declaration) :
    b.appliedAll r (ds ++ es) = (b.appliedAll r ds).appliedAll r es := by
  induction ds generalizing b with
  | nil => rfl
  | cons d ds ih => rw [List.cons_append, appliedAll_cons, ih, ← appliedAll_cons]

theorem appliedAll_concat (r : Registry) (b : Block) (ds : List Declaration) (d : Declaration) :
    b.appliedAll r (ds ++ [d]) = (b.appliedAll r ds).applied r d :=
  appliedAll_append r b ds [d]

/-- A declaration of a property with an entry comes into force and replaces the entry, or leaves the block alone. -/
theorem value_apply_of_entry (r : Registry) {b : Block} {d : Declaration} {e : Entry} (h : b.entry? d.name = some e) :
    (b.apply r d).value = (e.redeclared d).elim (false, b) fun new => (true, ⟨replaceFirst d.name new b.entries⟩) := by
  unfold apply
  rw [h]
  simp only [Logged.value_bind, value_redeclare]
  cases e.redeclared d <;> rfl

/-- A declaration of a property without an entry comes into force and adds one, or leaves the block alone. -/
theorem value_apply_of_no_entry (r : Registry) {b : Block} {d : Declaration} (h : b.entry? d.name = none) :
    (b.apply r d).value =
      ((r.fresh? d.name).bind (firstEntry · d)).elim (false, b) fun new => (true, ⟨b.entries ++ [new]⟩) := by
  unfold apply
  rw [h]
  simp only [Logged.value_bind, value_firstDeclare]
  cases (r.fresh? d.name).bind (firstEntry · d) <;> rfl

/-- A declaration whose entry is there goes to that entry, which stays in its place. -/
theorem applied_of_entry (r : Registry) {b : Block} {d : Declaration} {e : Entry} (h : b.entry? d.name = some e) :
    b.applied r d = (e.redeclared d).elim b fun new => ⟨replaceFirst d.name new b.entries⟩ := by
  rw [applied, value_apply_of_entry r h]
  cases e.redeclared d <;> rfl

/-- A declaration without an entry adds one at the end, if its name is registered and the value is accepted. -/
theorem applied_of_no_entry (r : Registry) {b : Block} {d : Declaration} (h : b.entry? d.name = none) :
    b.applied r d = ((r.fresh? d.name).bind (firstEntry · d)).elim b fun new => ⟨b.entries ++ [new]⟩ := by
  rw [applied, value_apply_of_no_entry r h]
  cases (r.fresh? d.name).bind (firstEntry · d) <;> rfl

/-! ## The entry of one property -/

/-- After the first entry with a name is replaced, the name finds the new entry. -/
theorem find?_replaceFirst_same {name : String} {new : Entry} (hn : new.isNamed name = true) :
    ∀ {entries : List Entry}, (entries.find? (·.isNamed name)).isSome = true →
      (replaceFirst name new entries).find? (·.isNamed name) = some new := by
  intro entries
  induction entries with
  | nil => intro h; cases h
  | cons e rest ih =>
    intro h
    by_cases he : e.isNamed name = true
    · rw [replaceFirst, if_pos he, List.find?_cons, hn]
    · rw [Bool.not_eq_true] at he
      rw [List.find?_cons, he] at h
      rw [replaceFirst, if_neg (by simp [he]), List.find?_cons, he, ih h]

/-- Replacing the first entry with a name changes nothing for a name that none of its spellings matches. -/
theorem find?_replaceFirst_other {name other : String} {new : Entry} (hn : new.isNamed other = false)
    (ho : ∀ e : Entry, e.isNamed name = true → e.isNamed other = false) :
    ∀ entries : List Entry, (replaceFirst name new entries).find? (·.isNamed other) = entries.find? (·.isNamed other) := by
  intro entries
  induction entries with
  | nil => rfl
  | cons e rest ih =>
    by_cases he : e.isNamed name = true
    · rw [replaceFirst, if_pos he, List.find?_cons, List.find?_cons, hn, ho e he]
    · rw [replaceFirst, if_neg he, List.find?_cons, List.find?_cons, ih]

/-- What a declaration of a property makes of its entry. -/
def nextEntry (r : Registry) (name : String) (current : Option Entry) (d : Declaration) : Option Entry :=
  match current with
  | some e => (e.redeclared d).or (some e)
  | none => (r.fresh? name).bind (firstEntry · d)

/-- An entry that a declaration changes keeps its name. -/
theorem isNamed_of_redeclared {e new : Entry} {d : Declaration} (h : e.redeclared d = some new) (name : String) :
    new.isNamed name = e.isNamed name := by
  rw [Entry.isNamed, Entry.isNamed, Entry.property_of_redeclared h, Property.name_after]

/-- A first entry has the name it was declared under. -/
theorem isNamed_of_firstEntry {r : Registry} (hr : r.Coherent) {name : String} {d : Declaration} {new : Entry}
    (h : (r.fresh? name).bind (firstEntry · d) = some new) : new.isNamed name = true := by
  obtain ⟨q, hq, hproperty⟩ := property_of_firstEntry h
  rw [Entry.isNamed, hproperty, Property.name_after]
  exact hr.name_of_fresh? hq

/-- The entry found by a name has that name. -/
theorem isNamed_of_entry {b : Block} {name : String} {e : Entry} (h : b.entry? name = some e) :
    e.isNamed name = true :=
  List.find?_some (p := fun e : Entry => e.isNamed name) h

/-- An entry at the end is found by its name only if no earlier one has it. -/
theorem entry?_append (b : Block) (new : Entry) (name : String) :
    entry? ⟨b.entries ++ [new]⟩ name =
      (b.entry? name).or (if new.isNamed name then some new else none) := by
  unfold entry?
  rw [List.find?_append, List.find?_singleton]

/-- A declaration leaves the entries of all other properties alone. -/
theorem entry?_applied_other {r : Registry} (hr : r.Coherent) (b : Block) {d : Declaration} {name : String}
    (h : eqIgnoringCase d.name name = false) : entry? (b.applied r d) name = b.entry? name := by
  have hother : ∀ e : Entry, e.isNamed d.name = true → e.isNamed name = false := by
    intro e he
    cases hn : e.isNamed name with
    | false => rfl
    | true =>
      rw [Entry.eqIgnoringCase_of_isNamed he hn] at h
      cases h
  cases he : b.entry? d.name with
  | some e =>
    rw [applied_of_entry r he]
    cases hd : e.redeclared d with
    | none => rfl
    | some new =>
      have hnew : new.isNamed d.name = true := by rw [isNamed_of_redeclared hd, isNamed_of_entry he]
      exact find?_replaceFirst_other (hother new hnew) hother b.entries
  | none =>
    rw [applied_of_no_entry r he]
    cases hd : (r.fresh? d.name).bind (firstEntry · d) with
    | none => rfl
    | some new =>
      simp only [Option.elim]
      rw [entry?_append, hother new (isNamed_of_firstEntry hr hd), if_neg (by simp), Option.or_none]

/-- What a declaration does to the entry of its own property. -/
theorem entry?_applied_same {r : Registry} (hr : r.Coherent) (b : Block) {d : Declaration} {name : String}
    (h : eqIgnoringCase d.name name = true) : entry? (b.applied r d) name = nextEntry r name (b.entry? name) d := by
  have hnamed : ∀ e : Entry, e.isNamed d.name = e.isNamed name := fun e => e.isNamed_congr h
  have hentry : ∀ c : Block, c.entry? d.name = c.entry? name := by
    intro c
    unfold entry?
    simp only [hnamed]
  rw [← hentry, ← hentry]
  cases he : b.entry? d.name with
  | some e =>
    rw [applied_of_entry r he, nextEntry]
    cases hd : e.redeclared d with
    | none => exact he
    | some new =>
      have hnew : new.isNamed d.name = true := by rw [isNamed_of_redeclared hd, isNamed_of_entry he]
      exact find?_replaceFirst_same hnew (by rw [← entry?, he]; rfl)
  | none =>
    rw [applied_of_no_entry r he, nextEntry, ← r.fresh?_congr h]
    cases hd : (r.fresh? d.name).bind (firstEntry · d) with
    | none => exact he
    | some new =>
      simp only [Option.elim]
      rw [entry?_append, he, isNamed_of_firstEntry hr hd]
      rfl

end Block

end StyleCheck
