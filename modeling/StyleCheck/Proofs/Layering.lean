import StyleCheck.Proofs.Calls
import StyleCheck.Proofs.NormalForm

/-!
# Layers held by the properties of a block

A grammar of layers takes a value without components and reads no layers from it. No text leads there: a declaration that is read
has components, and a text without any is not declared. So every property of keywords in a block holds at least one layer, and
what it holds is its initial value or comes from its vocabulary. Main statement: `layered_of_mem_calledAll`.
-/

namespace StyleCheck

theorem exists_of_bind_eq_ok {ε α β : Type} {x : Except ε α} {f : α → Except ε β} {b : β} (h : x >>= f = .ok b) :
    ∃ a, x = .ok a ∧ f a = .ok b := by
  cases x with
  | error e => cases h
  | ok a => exact ⟨a, rfl, h⟩

/-! ## Reading layers -/

namespace Vocabulary

variable {α : Type} {t : Vocabulary α}

/-- All meanings, in the order of their spellings. -/
def meanings (t : Vocabulary α) : List α := t.entries.map Prod.snd

/-- What is read of one component is a meaning of the vocabulary. -/
theorem mem_meanings_of_readOne {v : Value} {a : α} (h : t.readOne v = .ok a) : a ∈ t.meanings := by
  cases v with
  | keyword text =>
    rw [readOne] at h
    cases hl : t.lookup text with
    | none => rw [hl] at h; cases h
    | some b =>
      rw [hl] at h
      cases h
      obtain ⟨e, he, rfl⟩ := Option.map_eq_some_iff.1 hl
      exact List.mem_map_of_mem (List.mem_of_find?_eq_some he)
  | _ => cases h

/-- What is read of a run of keywords are meanings of the vocabulary. -/
theorem mem_meanings_of_readRun {components : List Value} {values : List α} (h : t.readRun components = .ok values) :
    ∀ a ∈ values, a ∈ t.meanings := by
  induction components generalizing values with
  | nil =>
    cases h
    simp
  | cons v rest ih =>
    rw [readRun, List.mapM_cons] at h
    obtain ⟨a, ha, h⟩ := exists_of_bind_eq_ok h
    obtain ⟨more, hmore, h⟩ := exists_of_bind_eq_ok h
    cases h
    exact List.forall_mem_cons.2 ⟨mem_meanings_of_readOne ha, ih hmore⟩

/-- Layers are read one by one: the first component is the first layer, and all else are layers again. -/
theorem readLayers_cons_eq_ok {v : Value} {rest : List Value} {values : List α} (h : t.readLayers (v :: rest) = .ok values) :
    ∃ a layers, t.readOne v = .ok a ∧ t.readLayers rest.tail = .ok layers ∧ values = a :: layers := by
  cases rest with
  | nil =>
    rw [readLayers] at h
    obtain ⟨a, ha, rfl⟩ := exists_of_map_eq_ok h
    exact ⟨a, [], ha, rfl, rfl⟩
  | cons comma rest =>
    rw [readLayers] at h
    obtain ⟨a, ha, h⟩ := exists_of_bind_eq_ok h
    split at h
    · obtain ⟨layers, hlayers, h⟩ := exists_of_bind_eq_ok h
      exact ⟨a, layers, ha, hlayers, (Except.ok.inj h).symm⟩
    · cases h

/-- What is read of a list of layers are meanings of the vocabulary. -/
theorem mem_meanings_of_readLayers {components : List Value} {values : List α} (h : t.readLayers components = .ok values) :
    ∀ a ∈ values, a ∈ t.meanings := by
  -- a layer takes two components, itself and the comma after it
  induction hn : components.length using Nat.strong_induction_on generalizing components values with
  | _ n ih =>
    cases components with
    | nil =>
      cases h
      simp
    | cons v rest =>
      obtain ⟨a, layers, ha, hlayers, rfl⟩ := readLayers_cons_eq_ok h
      have hlength : rest.tail.length < n := by simp at hn ⊢; omega
      exact List.forall_mem_cons.2 ⟨mem_meanings_of_readOne ha, ih _ hlength hlayers rfl⟩

end Vocabulary

/-! ## Properties of keywords -/

/-- What a property of keywords holds has layers as its grammar asks for: at least one, exactly one where there is one only. It is
the initial value, or consists of meanings in the vocabulary. -/
structure KeywordProperty.Layered {α : Type} (p : KeywordProperty α) : Prop where
  nonempty : p.values ≠ []
  single : p.grammar.layering = .single → p.values.length = 1
  initial : p.status = .initial → p.values = [p.grammar.initial]
  committed : p.status = .committed → ∀ a ∈ p.values, a ∈ p.grammar.vocabulary.meanings

namespace KeywordProperty

variable {α : Type}

theorem layered_new (g : Grammar α) : (new g).Layered where
  nonempty := List.cons_ne_nil _ _
  single _ := rfl
  initial _ := rfl
  committed h := by cases h

/-- The grammar of layers has no objection to a value without components, so that the property alone would hold no layers. -/
theorem commit_empty_list {p : KeywordProperty α} (h : p.grammar.layering = .commaSeparated) :
    p.commit (.list []) = .ok ⟨p.grammar, [], .committed⟩ := by
  rw [commit, Grammar.read, h]
  rfl

/-- An accepted value with components has layers. -/
theorem layered_of_commit {p q : KeywordProperty α} {v : Value} (h : p.commit v = .ok q) (hv : v.components ≠ []) :
    q.Layered := by
  obtain ⟨values, hr, rfl⟩ := exists_of_map_eq_ok h
  rw [Grammar.read] at hr
  split at hr
  · next hlayering =>
    obtain ⟨c, cs, hcs⟩ := List.exists_cons_of_ne_nil hv
    have hmem := Vocabulary.mem_meanings_of_readLayers hr
    rw [hcs] at hr
    obtain ⟨a, layers, -, -, rfl⟩ := Vocabulary.readLayers_cons_eq_ok hr
    refine ⟨List.cons_ne_nil _ _, fun hsingle => ?_, fun hi => (by cases hi), fun _ => hmem⟩
    rw [hlayering] at hsingle
    cases hsingle
  · split at hr
    · next a hrun =>
      cases hr
      exact ⟨List.cons_ne_nil _ _, fun _ => rfl, fun hi => (by cases hi), fun _ => Vocabulary.mem_meanings_of_readRun hrun⟩
    · cases hr
    · cases hr

end KeywordProperty

namespace Property

/-- If the property is one of keywords, it has its layers. -/
def Layered : Property → Prop
  | .keyword _ p => p.Layered
  | .lines _ => True

theorem layered_reset (p : Property) : p.reset.Layered := by
  cases p with
  | keyword kind p => exact KeywordProperty.layered_new p.grammar
  | lines l => trivial

/-- A property is layered after every commit of a value with components. -/
theorem layered_of_commit {p q : Property} {v : Value} (h : p.commit v = .ok q) (hv : v.components ≠ []) : q.Layered := by
  cases p with
  | keyword kind p =>
    obtain ⟨p', hp, rfl⟩ := exists_of_map_eq_ok h
    exact KeywordProperty.layered_of_commit hp hv
  | lines l =>
    obtain ⟨l', -, rfl⟩ := exists_of_map_eq_ok h
    trivial

/-- Declaring a value with components keeps the layers. -/
theorem Layered.after {p : Property} (hp : p.Layered) {v : Value} (hv : v.components ≠ []) : (p.after v).Layered := by
  have h := p.declare_spec v
  split at h
  · exact layered_of_commit h hv
  · rw [h]
    exact p.layered_reset
  · rwa [h]

end Property

/-! ## Blocks -/

/-- A declaration that a call applies has components, if that is so for those given to it. -/
theorem Call.components_ne_nil {c : Call} (hc : ∀ d, c = .apply d → d.value.components ≠ []) {d : Declaration}
    (hd : c.declaration? = some d) : d.value.components ≠ [] := by
  cases c with
  | apply d' =>
    cases hd
    exact hc _ rfl
  | declare name text =>
    rw [declaration?] at hd
    split at hd
    · cases hd
    · split at hd
      · cases hd
      · next hne =>
        cases hd
        simpa using hne

namespace Block

/-- A declaration with components keeps every entry layered. -/
theorem layered_applied {r : Registry} {b : Block} (hb : ∀ e ∈ b.entries, e.property.Layered) {d : Declaration}
    (hd : d.value.components ≠ []) : ∀ e ∈ (b.applied r d).entries, e.property.Layered := by
  refine forall_mem_applied hb ?_ fun q hq => hq.after hd
  intro q hq
  rw [← Registry.reset_of_fresh? hq]
  exact q.layered_reset

/-- All calls keep the layers of all properties. -/
theorem layered_calledAll {r : Registry} {b : Block} (hb : ∀ e ∈ b.entries, e.property.Layered) {calls : List Call}
    (hcalls : ∀ d, .apply d ∈ calls → d.value.components ≠ []) :
    ∀ e ∈ (b.calledAll r calls).entries, e.property.Layered := by
  refine calledAll_induction (P := fun b => ∀ e ∈ b.entries, e.property.Layered) hb ?_
  intro c hc d hd b hb
  refine layered_applied hb (Call.components_ne_nil (fun d' hd' => hcalls d' ?_) hd)
  rwa [← hd']

/-- Declarations are applied by one call each. -/
theorem appliedAll_eq_calledAll (r : Registry) (b : Block) (ds : List Declaration) :
    b.appliedAll r ds = b.calledAll r (ds.map .apply) := by
  induction ds generalizing b with
  | nil => rfl
  | cons d ds ih => exact ih (b.applied r d)

/-- Every entry of a parsed block is layered. -/
theorem layered_parse (r : Registry) (text : String) : ∀ e ∈ (parse r text).value.entries, e.property.Layered := by
  have hparse : (parse r text).value = empty.calledAll r ((parseDeclarations text).map .apply) :=
    appliedAll_eq_calledAll r empty (parseDeclarations text)
  rw [hparse]
  refine layered_calledAll (by simp [empty]) ?_
  intro d hd
  obtain ⟨d', hd', h⟩ := List.mem_map.1 hd
  cases h
  exact (normal_of_mem_parseDeclarations hd').components

end Block

/-- In every block that comes of texts, by calls that declare texts and calls that apply declarations read from texts, the
properties of keywords have their layers, although those that take any number of layers would take none on their own. -/
theorem layered_of_mem_calledAll {r : Registry} {b : Block} (hb : b = .empty ∨ ∃ text, b = (Block.parse r text).value)
    {calls : List Call} (hcalls : ∀ d, .apply d ∈ calls → ∃ text, d ∈ parseDeclarations text) :
    (∀ e ∈ (b.calledAll r calls).entries, ∀ kind p, e.property = .keyword kind p → p.Layered) ∧
      ∀ (kind : Kind) (p : KeywordProperty kind.Meaning), p.grammar.layering = .commaSeparated →
        p.commit (.list []) = .ok ⟨p.grammar, [], .committed⟩ := by
  have hstart : ∀ e ∈ b.entries, e.property.Layered := by
    rcases hb with rfl | ⟨text, rfl⟩
    · simp [Block.empty]
    · exact Block.layered_parse r text
  refine ⟨?_, fun _ _ => KeywordProperty.commit_empty_list⟩
  intro e he kind p hp
  have hlayered : e.property.Layered := by
    refine Block.layered_calledAll hstart (fun d hd => ?_) e he
    obtain ⟨text, hd⟩ := hcalls d hd
    exact (normal_of_mem_parseDeclarations hd).components
  rwa [hp] at hlayered

/-- An empty text is not declared and leaves the layers that a text has given, and a declaration of an empty value is not read. -/
theorem layered_of_mem_calledAll_emptied :
    let b := (Block.parse .builtin "background-clip: content-box, border-box; text-decoration-style: wavy").value
    let calls := (parseDeclarations "background-clip: ; text-decoration-style: initial").map Call.apply ++
      [.declare "Background-Clip" "", .declare "background-origin" "BORDER-BOX"]
    ∃ e ∈ (b.calledAll .builtin calls).entries, ∃ kind p, e.property = .keyword kind p ∧ p.values.length = 2 ∧ p.Layered := by
  intro b calls
  have hheld : ("background-clip", ["ContentBox", "BorderBox"]) ∈
      (b.calledAll .builtin calls).entries.map fun e => (e.property.name, e.property.meanings) := by decide +kernel
  obtain ⟨e, he, hheld⟩ := List.mem_map.1 hheld
  obtain ⟨hname, hmeanings⟩ := Prod.mk.inj hheld
  have hcalls : ∀ d, .apply d ∈ calls → ∃ text, d ∈ parseDeclarations text := by
    intro d hd
    refine ⟨"background-clip: ; text-decoration-style: initial", ?_⟩
    simpa [calls] using hd
  cases hp : e.property with
  | keyword kind p =>
    rw [hp] at hmeanings
    have hlength := congrArg List.length hmeanings
    rw [Property.meanings, List.length_map] at hlength
    exact ⟨e, he, kind, p, hp, hlength, (layered_of_mem_calledAll (.inr ⟨_, rfl⟩) hcalls).1 e he kind p hp⟩
  | lines l =>
    rw [hp] at hname
    exact absurd hname (by decide : LineProperty.name ≠ "background-clip")

end StyleCheck
