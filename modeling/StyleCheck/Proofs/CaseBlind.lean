import Mathlib.Data.List.Forall2
import StyleCheck.Proofs.Applying
import StyleCheck.Proofs.CaseScan

/-!
# Declarations and blocks in small letters

No reader tells a text from the same text in small letters, except that the contents of strings and urls are kept as they are
written. Properties never look at these: a property sees the keywords and the commas of a value, and takes everything else for
a component of the wrong kind. So a declaration does the same to a block whatever its strings and urls hold
(`Block.applied_mapText`), and a block does not depend on the case of its text at all. Main statement: `parseDeclarations_lower`.
-/

namespace StyleCheck

/-! ## What a property sees of a value -/

section

variable (f : String → String)

/-- What strings and urls hold does not change which components there are. -/
theorem Value.components_mapText (v : Value) : (v.mapText f).components = v.components.map (Value.mapText f) := by
  cases v with
  | list items => exact Value.mapTextAll_eq_map f items
  | _ => rfl

/-- A keyword is no string and no url. -/
@[simp]
theorem Value.keyword?_mapText (v : Value) : (v.mapText f).keyword? = v.keyword? := by
  cases v <;> rfl

/-- A comma is no string and no url. -/
@[simp]
theorem Value.isSeparator_mapText (v : Value) : (v.mapText f).isSeparator = v.isSeparator := by
  cases v <;> rfl

/-- Which keyword a component is does not depend on strings and urls. -/
theorem Value.isKeyword_mapText (v : Value) (spelling : String) : (v.mapText f).isKeyword spelling = v.isKeyword spelling := by
  rw [Value.isKeyword, Value.isKeyword, Value.keyword?_mapText]

namespace Vocabulary

variable {α : Type} (t : Vocabulary α)

/-- A vocabulary takes no string and no url for a keyword, and refuses them for their kind. -/
@[simp]
theorem readOne_mapText (v : Value) : t.readOne (v.mapText f) = t.readOne v := by
  cases v <;> rfl

/-- A run of keywords is read without a look at strings and urls. -/
theorem readRun_mapText (vs : List Value) : t.readRun (vs.map (Value.mapText f)) = t.readRun vs := by
  have hone : t.readOne ∘ Value.mapText f = t.readOne := funext (t.readOne_mapText f)
  rw [readRun, readRun, List.mapM_map, hone]

/-- Layers of keywords are read without a look at strings and urls. -/
theorem readLayers_mapText (vs : List Value) : t.readLayers (vs.map (Value.mapText f)) = t.readLayers vs := by
  fun_induction readLayers t vs with
  | case1 => rfl
  | case2 v =>
    rw [List.map_cons, List.map_nil, readLayers, readOne_mapText]
  | case3 v comma rest ih =>
    simp only [List.map_cons, readLayers, readOne_mapText, Value.isSeparator_mapText, List.isEmpty_map, ih]

end Vocabulary

/-- No grammar looks at what strings and urls hold. -/
theorem Grammar.read_mapText {α : Type} (g : Grammar α) (v : Value) : g.read (v.mapText f) = g.read v := by
  rw [Grammar.read, Grammar.read, Value.components_mapText, Vocabulary.readLayers_mapText, Vocabulary.readRun_mapText]

/-- Lines are read without a look at what strings and urls hold. -/
theorem Line.read_mapText (v : Value) : Line.read (v.mapText f) = Line.read v := by
  rw [Line.read, Line.read, Value.components_mapText]
  match v.components with
  | [] => rfl
  | [c] =>
    have hrun := Line.vocabulary.readRun_mapText f [c]
    rw [List.map_cons, List.map_nil] at hrun
    simp only [List.map_cons, List.map_nil, Value.isKeyword_mapText, hrun]
  | c :: d :: rest =>
    have hrun := Line.vocabulary.readRun_mapText f (c :: d :: rest)
    have hany : ((c :: d :: rest).map (Value.mapText f)).any (·.isKeyword "none") =
        (c :: d :: rest).any (·.isKeyword "none") := by
      rw [List.any_map]
      exact congrArg (List.any _) (funext fun v => v.isKeyword_mapText f "none")
    simp only [List.map_cons] at hrun hany ⊢
    rw [hrun, hany]

/-- The keywords that every property takes are known without a look at strings and urls. -/
theorem WideKeyword.ofValue?_mapText (v : Value) : WideKeyword.ofValue? (v.mapText f) = WideKeyword.ofValue? v := by
  rw [WideKeyword.ofValue?, WideKeyword.ofValue?, Value.components_mapText]
  match v.components with
  | [] => rfl
  | [c] => simp [Vocabulary.project]
  | c :: d :: rest => rfl

namespace Property

/-- Whether a property accepts a value, and what it then holds, does not depend on what strings and urls hold. -/
theorem commit_mapText (p : Property) (v : Value) : p.commit (v.mapText f) = p.commit v := by
  cases p with
  | keyword kind k => rw [commit, commit, KeywordProperty.commit, KeywordProperty.commit, Grammar.read_mapText]
  | lines l => rw [commit, commit, LineProperty.commit, LineProperty.commit, Line.read_mapText]

/-- The contents of strings and urls do not decide what becomes of a property. -/
theorem value_declare_mapText (p : Property) (v : Value) : (p.declare (v.mapText f)).value = (p.declare v).value := by
  unfold declare
  rw [WideKeyword.ofValue?_mapText]
  cases WideKeyword.ofValue? v with
  | some k => cases k <;> rfl
  | none =>
    unfold validate
    rw [commit_mapText]
    cases p.commit v <;> rfl

/-- How a property takes a declared value does not depend on what strings and urls hold. -/
theorem answer_mapText (p : Property) (v : Value) : p.answer (v.mapText f) = p.answer v := by
  rw [answer, answer, value_declare_mapText]

/-- What a property holds after a declared value does not depend on what strings and urls hold. -/
theorem after_mapText (p : Property) (v : Value) : p.after (v.mapText f) = p.after v := by
  rw [after, after, value_declare_mapText]

end Property

/-! ## What a declaration does to a block -/

namespace Block

/-- One declaration does the same whatever its strings and urls hold. -/
theorem applied_mapText (r : Registry) (b : Block) (d : Declaration) : b.applied r (d.mapText f) = b.applied r d := by
  have hname : (d.mapText f).name = d.name := rfl
  cases he : b.entry? d.name with
  | some e =>
    have hredeclared : e.redeclared (d.mapText f) = e.redeclared d := by
      simp only [Entry.redeclared, Declaration.mapText, Property.answer_mapText, Property.after_mapText]
    rw [applied_of_entry r he, applied_of_entry r (d := d.mapText f) he, hredeclared, hname]
  | none =>
    have hfirst : ∀ q, firstEntry q (d.mapText f) = firstEntry q d := by
      intro q
      simp only [firstEntry, Declaration.mapText, Property.answer_mapText, Property.after_mapText]
    rw [applied_of_no_entry r he, applied_of_no_entry r (d := d.mapText f) he, hname]
    simp only [hfirst]

/-- Declarations in a row do the same whatever their strings and urls hold. -/
theorem appliedAll_mapText (r : Registry) (b : Block) (ds : List Declaration) :
    b.appliedAll r (ds.map (Declaration.mapText f)) = b.appliedAll r ds := by
  induction ds generalizing b with
  | nil => rfl
  | cons d ds ih => rw [List.map_cons, appliedAll_cons, appliedAll_cons, applied_mapText, ih]

/-- A block is parsed by applying the declarations of its text in order. -/
theorem value_parse (r : Registry) (text : String) : (parse r text).value = empty.appliedAll r (parseDeclarations text) := rfl

end Block

end

/-! ## Texts in small letters -/

/-- The tokens that readers see are the same in small letters, up to the case of the texts they carry. -/
theorem essenceOf_tokenize_lower (text : String) :
    essenceOf lower (tokenize (lower text).toList) = essenceOf lower (tokenize text.toList) := by
  have hfilter : ∀ ts : List Token, (ts.filter (!·.isTrivia)).map (fun t => (t.mapText lower).bare) =
      ((ts.map (Token.mapText lower)).filter (!·.isTrivia)).map Token.bare := by
    intro ts
    have htrivia : (fun t : Token => !t.isTrivia) ∘ Token.mapText lower = fun t => !t.isTrivia :=
      funext fun t => by rw [Function.comp_apply, Token.isTrivia_mapText]
    rw [List.filter_map, htrivia, List.map_map]
    rfl
  rw [essenceOf_eq, essenceOf_eq, hfilter, hfilter, ← tokensOf, ← tokensOf, tokensOf_lower]

/-- A text and its small form have the same declarations, but for the case of strings and urls. -/
theorem map_mapText_parseDeclarations_lower (text : String) :
    (parseDeclarations (lower text)).map (Declaration.mapText lower) = (parseDeclarations text).map (Declaration.mapText lower) := by
  have hessence : ∀ s : String, (parseDeclarations s).map (Declaration.mapText lower) =
      declarationsOf (readItems (group (essenceOf lower (tokenize s.toList)))) := by
    intro s
    rw [declarationsOf_group_essenceOf lower_lower]
    rfl
  rw [hessence, hessence, essenceOf_tokenize_lower]

/-- The case of letters has no say: a text and the same text in small letters have as many declarations, with the same names and
importance and with values that differ at most in the case of the contents of strings and urls, and the same block comes of
them under every register. -/
theorem parseDeclarations_lower (text : String) :
    List.Forall₂ (fun d e => d.name = e.name ∧ d.important = e.important ∧ d.value.mapText lower = e.value.mapText lower)
        (parseDeclarations text) (parseDeclarations (lower text)) ∧
      ∀ r : Registry, (Block.parse r text).value.entries = (Block.parse r (lower text)).value.entries := by
  have hsame := map_mapText_parseDeclarations_lower text
  constructor
  · have hall : List.Forall₂ Eq ((parseDeclarations text).map (Declaration.mapText lower))
        ((parseDeclarations (lower text)).map (Declaration.mapText lower)) := by
      rw [hsame]
      exact List.forall₂_refl _
    rw [List.forall₂_map_left_iff, List.forall₂_map_right_iff] at hall
    refine hall.imp fun d e h => ?_
    obtain ⟨hname, hvalue, himportant⟩ := Declaration.mk.inj h
    exact ⟨hname, himportant, hvalue⟩
  · intro r
    rw [Block.value_parse, Block.value_parse, ← Block.appliedAll_mapText lower, ← hsame, Block.appliedAll_mapText]

end StyleCheck
