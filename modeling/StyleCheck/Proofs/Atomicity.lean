import StyleCheck.Proofs.Distinct
import StyleCheck.Proofs.ValueScan

/-!
# All of a declaration or nothing

A declaration that does not come into force leaves the block as it was, and the property it was tried on as well. One that does
touches a single entry, whatever the register makes of names: `Touches` says which, and `apply_eq_true_iff` that this is all.
Declaring a text is refused for three reasons only, all of them found before anything is applied. Main statement:
`apply_declare_touch_one`.
-/

namespace StyleCheck

namespace Property

/-- A property that refuses a value is as it was. -/
theorem after_of_answer_eq_none {p : Property} {v : Value} (h : p.answer v = none) : p.after v = p := by
  have hp := p.declare_spec v
  rwa [h] at hp

/-- A property with the value declared for it makes an entry exactly if it takes the value: with what it has become, and with the
way in which it took the value. -/
theorem map_answer_eq_some_iff (p : Property) (v : Value) (important : Bool) (new : Entry) :
    (p.answer v).map (fun s => (⟨p.after v, s, important⟩ : Entry)) = some new ↔
      (p.declare v).value = (some new.specified, new.property) ∧ new.important = important := by
  rw [Option.map_eq_some_iff]
  constructor
  · rintro ⟨s, hs, rfl⟩
    exact ⟨Prod.ext hs rfl, rfl⟩
  · rintro ⟨hdeclare, rfl⟩
    obtain ⟨hanswer, hafter⟩ := Prod.ext_iff.1 hdeclare
    refine ⟨new.specified, hanswer, ?_⟩
    rw [after, hafter]

end Property

/-- An entry is given a value exactly if the value is taken and nothing important is overridden by something normal. -/
theorem Entry.redeclared_eq_some_iff (e : Entry) (d : Declaration) (new : Entry) :
    e.redeclared d = some new ↔ (e.important = true → d.important = true) ∧
      (e.property.declare d.value).value = (some new.specified, new.property) ∧ new.important = d.important := by
  rw [← Property.map_answer_eq_some_iff, redeclared]
  cases e.important <;> cases d.important <;> simp

namespace Block

/-- What a declaration that comes into force makes of a block: one entry is added, or the first one with the declared name is
given the value. -/
inductive Touches (r : Registry) (b : Block) (d : Declaration) : Block → Prop where
  | adds {q : Property} {new : Entry} (absent : ∀ e ∈ b.entries, e.isNamed d.name = false)
      (created : (r.create d.name).value = some q)
      (declared : (q.declare d.value).value = (some new.specified, new.property))
      (importance : new.important = d.important) : Touches r b d ⟨b.entries ++ [new]⟩
  | changes {before after : List Entry} {old new : Entry} (split : b.entries = before ++ old :: after)
      (first : ∀ e ∈ before, e.isNamed d.name = false) (named : old.isNamed d.name = true)
      (ranks : old.important = true → d.important = true)
      (declared : (old.property.declare d.value).value = (some new.specified, new.property))
      (importance : new.important = d.important) (name : new.property.name = old.property.name) :
      Touches r b d ⟨before ++ new :: after⟩

/-! ## Entries by name -/

/-- A name has no entry exactly if no entry is named by it. -/
theorem entry?_eq_none_iff_isNamed (b : Block) (name : String) :
    b.entry? name = none ↔ ∀ e ∈ b.entries, e.isNamed name = false := by
  unfold entry?
  simp

/-- The entry found under a name is the first one that carries it. -/
theorem entry?_eq_some_iff_split (b : Block) (name : String) (e : Entry) :
    b.entry? name = some e ↔ e.isNamed name = true ∧
      ∃ before after, b.entries = before ++ e :: after ∧ ∀ x ∈ before, x.isNamed name = false := by
  unfold entry?
  rw [List.find?_eq_some_iff_append]
  simp

/-- The first entry with a name is replaced, and the entries on both sides of it stay. -/
theorem replaceFirst_append {name : String} {old new : Entry} (hold : old.isNamed name = true) (after : List Entry) :
    ∀ {before : List Entry}, (∀ e ∈ before, e.isNamed name = false) →
      replaceFirst name new (before ++ old :: after) = before ++ new :: after := by
  intro before
  induction before with
  | nil =>
    intro _
    rw [List.nil_append, replaceFirst, if_pos hold, List.nil_append]
  | cons e before ih =>
    intro hbefore
    have he : e.isNamed name = false := hbefore e List.mem_cons_self
    rw [List.cons_append, replaceFirst, if_neg (by simp [he]), ih fun x hx => hbefore x (List.mem_cons_of_mem e hx)]
    rfl

/-! ## Applying a declaration -/

/-- A declaration that does not come into force leaves the block as it was. -/
theorem apply_eq_self_of_false {r : Registry} {b : Block} {d : Declaration} (h : (b.apply r d).value.1 = false) :
    (b.apply r d).value.2 = b := by
  cases he : b.entry? d.name with
  | some e =>
    rw [value_apply_of_entry r he] at h ⊢
    cases hd : e.redeclared d with
    | none => rfl
    | some new => rw [hd] at h; cases h
  | none =>
    rw [value_apply_of_no_entry r he] at h ⊢
    cases hd : (r.fresh? d.name).bind (firstEntry · d) with
    | none => rfl
    | some new => rw [hd] at h; cases h

/-- A first entry comes from a new property that takes the value. -/
theorem firstEntry_eq_some_iff (r : Registry) (d : Declaration) (new : Entry) :
    (r.fresh? d.name).bind (firstEntry · d) = some new ↔ ∃ q, (r.create d.name).value = some q ∧
      (q.declare d.value).value = (some new.specified, new.property) ∧ new.important = d.important := by
  simp only [Option.bind_eq_some_iff, firstEntry, Property.map_answer_eq_some_iff]
  rfl

/-- A declaration comes into force exactly if it can touch an entry, and then does just that. -/
theorem apply_eq_true_iff (r : Registry) (b : Block) (d : Declaration) (c : Block) :
    (b.apply r d).value = (true, c) ↔ Touches r b d c := by
  cases he : b.entry? d.name with
  | some e =>
    obtain ⟨hnamed, before, after, hsplit, hfirst⟩ := (b.entry?_eq_some_iff_split d.name e).1 he
    rw [value_apply_of_entry r he]
    constructor
    · intro h
      cases hd : e.redeclared d with
      | none => rw [hd] at h; cases h
      | some new =>
        rw [hd] at h
        obtain ⟨-, rfl⟩ := Prod.mk.inj h
        obtain ⟨hranks, hdeclared, himportance⟩ := (e.redeclared_eq_some_iff d new).1 hd
        have hname : new.property.name = e.property.name := by rw [Entry.property_of_redeclared hd, Property.name_after]
        rw [hsplit, replaceFirst_append hnamed after hfirst]
        exact .changes hsplit hfirst hnamed hranks hdeclared himportance hname
    · rintro (⟨habsent, -, -, -⟩ | @⟨before', after', old, new, hsplit', hfirst', hnamed', hranks, hdeclared, himportance, -⟩)
      · rw [(b.entry?_eq_none_iff_isNamed d.name).2 habsent] at he
        cases he
      · have hold : b.entry? d.name = some old := (b.entry?_eq_some_iff_split d.name old).2 ⟨hnamed', _, _, hsplit', hfirst'⟩
        obtain rfl : old = e := Option.some.inj (hold.symm.trans he)
        rw [(old.redeclared_eq_some_iff d new).2 ⟨hranks, hdeclared, himportance⟩, hsplit', Option.elim_some,
          replaceFirst_append hnamed' after' hfirst']
  | none =>
    have habsent := (b.entry?_eq_none_iff_isNamed d.name).1 he
    rw [value_apply_of_no_entry r he]
    constructor
    · intro h
      cases hd : (r.fresh? d.name).bind (firstEntry · d) with
      | none => rw [hd] at h; cases h
      | some new =>
        rw [hd] at h
        obtain ⟨-, rfl⟩ := Prod.mk.inj h
        obtain ⟨q, hcreated, hdeclared, himportance⟩ := (firstEntry_eq_some_iff r d new).1 hd
        exact .adds habsent hcreated hdeclared himportance
    · rintro (@⟨q, new, -, hcreated, hdeclared, himportance⟩ | @⟨before, after, old, new, hsplit, -, hnamed, -, -, -, -⟩)
      · rw [(firstEntry_eq_some_iff r d new).2 ⟨q, hcreated, hdeclared, himportance⟩]
        rfl
      · have hold := habsent old (by rw [hsplit]; simp)
        rw [hnamed] at hold
        cases hold

/-! ## Declaring a text -/

/-- The reasons for which a text cannot be declared under a name: no property is known under it, whatever its case, or the text is
no value, or it is a value without components. -/
def CannotDeclare (r : Registry) (name text : String) : Prop :=
  (∀ n ∈ r.names, eqIgnoringCase n name = false) ∨ (∃ cause, Value.parse text = .error cause) ∨
    ∃ v, Value.parse text = .ok v ∧ v.components = []

/-- A text that cannot be declared is refused with an error, and any other is applied as a normal declaration. -/
theorem declare_cases {r : Registry} (hr : r.WellKept) (b : Block) (name text : String) :
    (CannotDeclare r name text ∧ ∃ e, b.declare r name text = pure (.error e, b)) ∨
      ¬CannotDeclare r name text ∧ ∃ v, Value.parse text = .ok v ∧
        b.declare r name text = do
          let (inForce, c) ← b.apply r ⟨name, v, false⟩
          return (.ok inForce, c) := by
  have hknown := hr.contains_iff_eqIgnoringCase name
  unfold declare CannotDeclare
  cases hname : r.contains name with
  | false =>
    have hunknown : ∀ n ∈ r.names, eqIgnoringCase n name = false := by simpa [hname] using hknown
    exact .inl ⟨.inl hunknown, _, rfl⟩
  | true =>
    obtain ⟨n, hn, hequal⟩ := hknown.1 hname
    cases hparse : Value.parse text with
    | error cause => exact .inl ⟨.inr (.inl ⟨cause, rfl⟩), _, rfl⟩
    | ok v =>
      cases hempty : v.components.isEmpty with
      | true => exact .inl ⟨.inr (.inr ⟨v, rfl, List.isEmpty_iff.1 hempty⟩), _, by simp only [hempty]; rfl⟩
      | false =>
        refine .inr ⟨?_, v, rfl, by simp only [hempty]; rfl⟩
        rintro (hunknown | ⟨cause, hcause⟩ | ⟨w, hw, hnone⟩)
        · rw [hunknown n hn] at hequal
          cases hequal
        · cases hcause
        · obtain rfl := Except.ok.inj hw
          rw [hnone] at hempty
          cases hempty

end Block

/-- What is declared is declared as a whole or not at all:

* a property that refuses a value is as it was;
* in every block and under every register, a declaration that does not come into force leaves the block as it was, and one that
  does touches one entry;
* in every block and under every register that comes of registrations, declaring a text ends in an error, with the block as it
  was, exactly if the text cannot be declared under the name, and otherwise does and records what applying its value as a normal
  declaration does. -/
theorem apply_declare_touch_one {start : Registry} (hstart : start = .empty ∨ start = .builtin)
    (registrations : List (String × Factory)) :
    (∀ (p : Property) (v : Value), (p.declare v).value.1 = none → (p.declare v).value.2 = p) ∧
    (∀ (r : Registry) (b : Block) (d : Declaration),
      ((b.apply r d).value.1 = false → (b.apply r d).value.2 = b) ∧
        ∀ c, (b.apply r d).value = (true, c) ↔ b.Touches r d c) ∧
    let r := start.registeredAll registrations
    ∀ (b : Block) (name text : String),
      ((∃ e, (b.declare r name text).value.1 = .error e) ↔ Block.CannotDeclare r name text) ∧
      (Block.CannotDeclare r name text → (b.declare r name text).value.2 = b) ∧
      (¬Block.CannotDeclare r name text → ∃ v, Value.parse text = .ok v ∧
        let applying := b.apply r ⟨name, v, false⟩
        (b.declare r name text).value = (.ok applying.value.1, applying.value.2) ∧
          (b.declare r name text).log = applying.log) := by
  refine ⟨fun p v h => Property.after_of_answer_eq_none h, fun r b d => ?_, ?_⟩
  · exact ⟨Block.apply_eq_self_of_false, Block.apply_eq_true_iff r b d⟩
  · intro r b name text
    rcases Block.declare_cases (.of_start hstart registrations : r.WellKept) b name text with
      ⟨hcannot, e, hdeclare⟩ | ⟨hcan, v, hparse, hdeclare⟩
    · rw [hdeclare]
      exact ⟨iff_of_true ⟨e, rfl⟩ hcannot, fun _ => rfl, fun h => absurd hcannot h⟩
    · rw [hdeclare]
      refine ⟨iff_of_false ?_ hcan, fun h => absurd h hcan, fun _ => ⟨v, hparse, rfl, List.append_nil _⟩⟩
      rintro ⟨e, he⟩
      cases he

/-- Under an alias two entries come to carry one name. A text declared under their own name meets the first of them, which is
important, and is not tried on the second; a text without components is refused under the alias. -/
theorem apply_declare_touch_one_alias :
    let registrations := [("Mask-Clip", backgroundClip.factory .box)]
    let r := Registry.builtin.registeredAll registrations
    let b := (Block.empty.applyAll r
      [⟨"mask-clip", .keyword "inherit", true⟩, ⟨"mask-clip", .keyword "padding-box", false⟩]).value.2
    b.names = ["background-clip", "background-clip"] ∧
      (b.declare r "Background-Clip" "unset").value = (.ok false, b) ∧
      (∃ e, (b.declare r "MASK-CLIP" " /**/").value.1 = .error e) ∧ (b.declare r "MASK-CLIP" " /**/").value.2 = b := by
  intro registrations r b
  obtain ⟨-, happly, hdeclare⟩ := apply_declare_touch_one (.inr rfl) registrations
  have hunset : Value.parse "unset" = .ok (.keyword "unset") := by
    have htokens : tokenize "unset".toList = [⟨.ident "unset", "unset".toList⟩] := by decide +kernel
    rw [Value.parse_eq, nodesOf, htokens]
    rfl
  have hcan : ¬Block.CannotDeclare r "Background-Clip" "unset" := by
    rintro (hunknown | ⟨cause, hcause⟩ | ⟨v, hv, hnone⟩)
    · have hknown := hunknown "background-clip" (by decide)
      revert hknown
      decide
    · rw [hunset] at hcause
      cases hcause
    · rw [hunset] at hv
      obtain rfl := Except.ok.inj hv
      cases hnone
  have hempty : Value.parse " /**/" = .ok (.list []) := by
    have htokens : tokenize " /**/".toList = [⟨.space, [' ']⟩, ⟨.comment, "/**/".toList⟩] := by decide +kernel
    rw [Value.parse_eq, nodesOf, htokens]
    rfl
  have hcannot : Block.CannotDeclare r "MASK-CLIP" " /**/" := .inr (.inr ⟨.list [], hempty, rfl⟩)
  obtain ⟨v, hv, hvalue, -⟩ := (hdeclare b _ _).2.2 hcan
  obtain rfl := Except.ok.inj (hunset.symm.trans hv)
  have houtranked : (b.apply r ⟨"Background-Clip", .keyword "unset", false⟩).value.1 = false := by decide +kernel
  refine ⟨by decide +kernel, ?_, (hdeclare b _ _).1.2 hcannot, (hdeclare b _ _).2.1 hcannot⟩
  rw [hvalue, houtranked, (happly r b _).1 houtranked]

end StyleCheck
