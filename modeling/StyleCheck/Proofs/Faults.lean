import Mathlib.Data.List.Forall2
import StyleCheck.Property.Background
import StyleCheck.Property.Decoration
import StyleCheck.Proofs.Layering
import StyleCheck.Proofs.Vocabularies

/-!
# What grammars of keywords accept, and how they refuse

Grammars of keywords read components from the left, so that a value is refused for its first fault. What is a fault is said here
without the readers: of a component where a keyword is wanted (`fault?`), and of the components of layers by their places
(`layerFault?`). Main statements: `accepts_or_first_fault` for layers and for a single keyword, and `lines_accepted_or_fault` for
the lines along a text, where `none` among other components comes before every fault of a component.
-/

namespace StyleCheck

/-- The first fault among those at places `0`, `1` and so on. -/
def IsFirstFault (fault : Nat → Option Mismatch) (e : Mismatch) : Prop := ∃ i, fault i = some e ∧ ∀ j < i, fault j = none

/-- The first fault is the one at the first place, or if there is none it is the first of those at the places after it. -/
theorem isFirstFault_iff {fault : Nat → Option Mismatch} {e : Mismatch} :
    IsFirstFault fault e ↔ fault 0 = some e ∨ fault 0 = none ∧ IsFirstFault (fun i => fault (i + 1)) e := by
  constructor
  · rintro ⟨i, hi, hfirst⟩
    cases i with
    | zero => exact .inl hi
    | succ i => exact .inr ⟨hfirst 0 (Nat.succ_pos i), i, hi, fun j hj => hfirst (j + 1) (Nat.succ_lt_succ hj)⟩
  · rintro (h | ⟨h, i, hi, hfirst⟩)
    · exact ⟨0, h, fun j hj => absurd hj (Nat.not_lt_zero j)⟩
    · refine ⟨i + 1, hi, fun j hj => ?_⟩
      cases j with
      | zero => exact h
      | succ j => exact hfirst j (Nat.lt_of_succ_lt_succ hj)

theorem Value.isSeparator_iff {v : Value} : v.isSeparator = true ↔ v = .separator := by
  cases v <;> simp [isSeparator]

theorem map_eq_error_iff {ε α β : Type} {x : Except ε α} {f : α → β} {e : ε} : x.map f = .error e ↔ x = .error e := by
  cases x <;> simp [Except.map]

namespace Vocabulary

variable {α : Type}

/-- What is wrong with a component where a keyword of the vocabulary is wanted. -/
def fault? (t : Vocabulary α) : Value → Option Mismatch
  | .separator => some .misplacedSeparator
  | .keyword text => if t.entries.any fun e => eqIgnoringCase e.1 text then none else some .unknownKeyword
  | _ => some .wrongKind

/-- What is wrong with layers at a place. A keyword is wanted at every even place, and at every odd place a comma that is not the
last component. -/
def layerFault? (t : Vocabulary α) (components : List Value) (i : Nat) : Option Mismatch :=
  components[i]?.bind fun v =>
    if i % 2 = 0 then t.fault? v
    else if v.isSeparator && i + 1 < components.length then none
    else some .misplacedSeparator

/-- The components are the `n + 1` given layers: keywords with these meanings at the even places, and commas between them. -/
structure AreLayers (t : Vocabulary α) (components : List Value) (n : Nat) (layers : List α) : Prop where
  length : components.length = 2 * n + 1
  count : layers.length = n + 1
  comma : ∀ i < n, components[2 * i + 1]? = some .separator
  keyword : ∀ i ≤ n, ∃ text a, components[2 * i]? = some (.keyword text) ∧ t.Means text a ∧ layers[i]? = some a

variable {t : Vocabulary α}

/-! ## One component -/

/-- A component is accepted exactly if it is a keyword that spells an entry, and then has the meaning of the entry. -/
theorem readOne_eq_ok_iff {v : Value} {a : α} : t.readOne v = .ok a ↔ ∃ text, v = .keyword text ∧ t.Means text a := by
  simp only [← lookup_eq_some_iff]
  cases v with
  | keyword text => cases h : t.lookup text <;> simp [readOne, h]
  | _ => simp [readOne]

/-- A keyword is found exactly if it spells an entry. -/
theorem isSome_lookup (t : Vocabulary α) (text : String) :
    (t.lookup text).isSome = t.entries.any fun e => eqIgnoringCase e.1 text := by
  rw [lookup, Option.isSome_map, List.isSome_find?]

/-- A component has a meaning or a fault, for which it is refused. -/
theorem readOne_cases (t : Vocabulary α) (v : Value) :
    (∃ a, t.readOne v = .ok a ∧ t.fault? v = none) ∨ ∃ e, t.readOne v = .error e ∧ t.fault? v = some e := by
  cases v with
  | keyword text =>
    rw [fault?, ← isSome_lookup]
    cases h : t.lookup text with
    | none => exact .inr ⟨.unknownKeyword, by simp [readOne, h], by simp⟩
    | some a => exact .inl ⟨a, by simp [readOne, h], by simp⟩
  | _ => exact .inr ⟨_, rfl, rfl⟩

/-! ## Runs -/

theorem readRun_cons (v : Value) (rest : List Value) :
    t.readRun (v :: rest) = (t.readOne v).bind fun a => (t.readRun rest).map (a :: ·) := by
  unfold readRun
  rw [List.mapM_cons]
  cases t.readOne v with
  | error e => rfl
  | ok a => cases rest.mapM t.readOne <;> rfl

/-- A run is accepted if each of its components is. -/
theorem readRun_eq_ok_iff {components : List Value} {values : List α} :
    t.readRun components = .ok values ↔ List.Forall₂ (fun v a => t.readOne v = .ok a) components values := by
  induction components generalizing values with
  | nil =>
    rw [List.forall₂_nil_left_iff]
    exact ⟨fun h => (Except.ok.inj h).symm, fun h => h ▸ rfl⟩
  | cons v rest ih =>
    rw [readRun_cons, List.forall₂_cons_left_iff]
    constructor
    · intro h
      obtain ⟨a, ha, h⟩ := exists_of_bind_eq_ok h
      obtain ⟨more, hmore, rfl⟩ := exists_of_map_eq_ok h
      exact ⟨a, more, ha, ih.1 hmore, rfl⟩
    · rintro ⟨a, more, ha, hmore, rfl⟩
      rw [ha, ih.2 hmore]
      rfl

/-- A run is refused for the first of its components that has a fault. -/
theorem readRun_eq_error_iff {components : List Value} {e : Mismatch} :
    t.readRun components = .error e ↔ components.findSome? t.fault? = some e := by
  induction components with
  | nil => simp [readRun, pure, Except.pure]
  | cons v rest ih =>
    rw [readRun_cons]
    rcases t.readOne_cases v with ⟨a, hr, hf⟩ | ⟨e', hr, hf⟩
    · rw [hr, List.findSome?_cons_of_isNone (by simp [hf]), ← ih]
      cases t.readRun rest <;> simp [Except.bind, Except.map]
    · rw [hr, List.findSome?_cons_of_isSome (by simp [hf]), hf]
      simp [Except.bind]

/-! ## Layers -/

/-- The first layer takes two components, unless it is the last. -/
theorem readLayers_cons_cons (v comma : Value) (rest : List Value) :
    t.readLayers (v :: comma :: rest) = (t.readOne v).bind fun a =>
      if comma.isSeparator && !rest.isEmpty then (t.readLayers rest).map (a :: ·) else .error .misplacedSeparator := by
  rw [readLayers]
  cases t.readOne v with
  | error e => rfl
  | ok a =>
    cases comma.isSeparator && !rest.isEmpty with
    | false => rfl
    | true => cases t.readLayers rest <;> rfl

theorem not_areLayers_nil {n : Nat} {layers : List α} : ¬t.AreLayers [] n layers := by
  intro h
  have hlength := h.length
  rw [List.length_nil] at hlength
  omega

/-- A lone component is layers exactly if it is one layer. -/
theorem areLayers_singleton_iff {v : Value} {n : Nat} {layers : List α} :
    t.AreLayers [v] n layers ↔ n = 0 ∧ ∃ a, t.readOne v = .ok a ∧ layers = [a] := by
  constructor
  · intro h
    obtain rfl : n = 0 := by
      have hlength := h.length
      rw [List.length_singleton] at hlength
      omega
    obtain ⟨a, rfl⟩ := List.length_eq_one_iff.1 h.count
    obtain ⟨text, b, hv, hb, hab⟩ := h.keyword 0 (Nat.le_refl 0)
    simp only [Nat.mul_zero, List.getElem?_cons_zero, Option.some.injEq] at hv hab
    exact ⟨rfl, a, readOne_eq_ok_iff.2 ⟨text, hv, hab ▸ hb⟩, rfl⟩
  · rintro ⟨rfl, a, ha, rfl⟩
    obtain ⟨text, rfl, htext⟩ := readOne_eq_ok_iff.1 ha
    refine ⟨rfl, rfl, fun i hi => absurd hi (Nat.not_lt_zero i), fun i hi => ?_⟩
    obtain rfl := Nat.le_zero.1 hi
    exact ⟨text, a, rfl, htext, rfl⟩

/-- Layers with a second component have a separator there and layers after it. -/
theorem areLayers_cons_cons_iff {v comma : Value} {rest : List Value} {n : Nat} {layers : List α} :
    t.AreLayers (v :: comma :: rest) n layers ↔ ∃ m a more, n = m + 1 ∧ layers = a :: more ∧ t.readOne v = .ok a ∧
      comma = .separator ∧ t.AreLayers rest m more := by
  constructor
  · intro h
    have hlength := h.length
    have hcount := h.count
    rw [List.length_cons, List.length_cons] at hlength
    obtain ⟨m, rfl⟩ : ∃ m, n = m + 1 := ⟨n - 1, by omega⟩
    obtain ⟨a, more, rfl⟩ := List.exists_cons_of_length_eq_add_one hcount
    obtain ⟨text, b, hv, hb, hab⟩ := h.keyword 0 (Nat.zero_le _)
    have hcomma := h.comma 0 (Nat.succ_pos m)
    simp only [Nat.mul_zero, List.getElem?_cons_zero, List.getElem?_cons_succ, Option.some.injEq] at hv hab hcomma
    refine ⟨m, a, more, rfl, rfl, readOne_eq_ok_iff.2 ⟨text, hv, hab ▸ hb⟩, hcomma, ?_⟩
    refine ⟨by omega, by simpa using hcount, fun i hi => ?_, fun i hi => ?_⟩
    · simpa [Nat.mul_add] using h.comma (i + 1) (Nat.succ_lt_succ hi)
    · simpa [Nat.mul_add] using h.keyword (i + 1) (Nat.succ_le_succ hi)
  · rintro ⟨m, a, more, rfl, rfl, ha, rfl, h⟩
    obtain ⟨text, rfl, htext⟩ := readOne_eq_ok_iff.1 ha
    refine ⟨?_, ?_, ?_, ?_⟩
    · rw [List.length_cons, List.length_cons, h.length]
      omega
    · rw [List.length_cons, h.count]
    · intro i hi
      cases i with
      | zero => rfl
      | succ i => simpa [Nat.mul_add] using h.comma i (Nat.lt_of_succ_lt_succ hi)
    · intro i hi
      cases i with
      | zero => exact ⟨text, a, rfl, htext, rfl⟩
      | succ i => simpa [Nat.mul_add] using h.keyword i (Nat.le_of_succ_le_succ hi)

/-- Exactly layers are accepted, and no components as none. -/
theorem readLayers_eq_ok_iff {components : List Value} {layers : List α} :
    t.readLayers components = .ok layers ↔ components = [] ∧ layers = [] ∨ ∃ n, t.AreLayers components n layers := by
  induction components using readLayers.induct generalizing layers with
  | case1 =>
    simp only [readLayers, not_areLayers_nil, exists_false, or_false, true_and, Except.ok.injEq]
    exact eq_comm
  | case2 v =>
    simp only [readLayers, areLayers_singleton_iff, List.cons_ne_nil, false_and, false_or, exists_eq_left]
    constructor
    · intro h
      obtain ⟨a, ha, rfl⟩ := exists_of_map_eq_ok h
      exact ⟨a, ha, rfl⟩
    · rintro ⟨a, ha, rfl⟩
      rw [ha]
      rfl
  | case3 v comma rest ih =>
    simp only [readLayers_cons_cons, areLayers_cons_cons_iff, List.cons_ne_nil, false_and, false_or]
    constructor
    · intro h
      obtain ⟨a, ha, h⟩ := exists_of_bind_eq_ok h
      split at h
      · next hcomma =>
        simp only [Bool.and_eq_true, Value.isSeparator_iff, Bool.not_eq_true', List.isEmpty_eq_false_iff] at hcomma
        obtain ⟨more, hmore, rfl⟩ := exists_of_map_eq_ok h
        rcases ih.1 hmore with ⟨hrest, -⟩ | ⟨m, hm⟩
        · exact absurd hrest hcomma.2
        · exact ⟨m + 1, m, a, more, rfl, rfl, ha, hcomma.1, hm⟩
      · cases h
    · rintro ⟨-, m, a, more, rfl, rfl, ha, rfl, hm⟩
      have hrest : rest.isEmpty = false := by
        rw [List.isEmpty_eq_false_iff]
        rintro rfl
        exact not_areLayers_nil hm
      rw [ha, hrest, ih.2 (.inr ⟨m, hm⟩)]
      rfl

theorem layerFault?_zero (v : Value) (rest : List Value) : t.layerFault? (v :: rest) 0 = t.fault? v := rfl

/-- The fault of the second component is the lack of a separator, or of a layer after it. -/
theorem layerFault?_one (v comma : Value) (rest : List Value) : t.layerFault? (v :: comma :: rest) 1 =
    if comma.isSeparator && !rest.isEmpty then none else some .misplacedSeparator := by
  cases rest <;> simp [layerFault?]

/-- From the third component on, faults are those of the rest. -/
theorem layerFault?_add_two (v comma : Value) (rest : List Value) (i : Nat) :
    t.layerFault? (v :: comma :: rest) (i + 2) = t.layerFault? rest i := by
  have hlast : i + 2 + 1 < (v :: comma :: rest).length ↔ i + 1 < rest.length := by
    simp only [List.length_cons]
    omega
  simp only [layerFault?, hlast, List.getElem?_cons_succ, Nat.add_mod_right]

theorem not_isFirstFault_nil {e : Mismatch} : ¬IsFirstFault (t.layerFault? []) e := by
  rintro ⟨i, hi, -⟩
  simp [layerFault?] at hi

/-- Layers are refused for the fault at the first place that has one. -/
theorem readLayers_eq_error_iff {components : List Value} {e : Mismatch} :
    t.readLayers components = .error e ↔ IsFirstFault (t.layerFault? components) e := by
  induction components using readLayers.induct with
  | case1 => simp [readLayers, not_isFirstFault_nil]
  | case2 v =>
    have hshift : (fun i => t.layerFault? [v] (i + 1)) = t.layerFault? [] := funext fun i => by simp [layerFault?]
    rw [readLayers, isFirstFault_iff, hshift, layerFault?_zero]
    rcases t.readOne_cases v with ⟨a, hr, hf⟩ | ⟨e', hr, hf⟩
    · simp [hr, hf, Except.map, not_isFirstFault_nil]
    · simp [hr, hf, Except.map]
  | case3 v comma rest ih =>
    -- the two components of the first layer have faults of their own, and all later places are those of the rest
    have hshift : (fun i => t.layerFault? (v :: comma :: rest) (i + 1 + 1)) = t.layerFault? rest :=
      funext (layerFault?_add_two v comma rest)
    rw [readLayers_cons_cons, isFirstFault_iff, isFirstFault_iff, hshift, layerFault?_zero, layerFault?_one, ← ih]
    rcases t.readOne_cases v with ⟨a, hr, hf⟩ | ⟨e', hr, hf⟩
    · cases comma.isSeparator && !rest.isEmpty with
      | false => simp [hr, hf, Except.bind]
      | true => cases t.readLayers rest <;> simp [hr, hf, Except.bind, Except.map]
    · simp [hr, hf, Except.bind]

/-- The missing comma counts before the unknown keyword and the last comma. -/
example : BackgroundBox.vocabulary.readLayers [.keyword "border-box", .keyword "margin-box", .separator] =
    .error .misplacedSeparator := rfl

end Vocabulary

/-! ## A single keyword -/

namespace Grammar

variable {α : Type} {g : Grammar α} {v : Value}

/-- A grammar for one keyword reads a run of keywords and takes it if it is one keyword long. -/
theorem read_of_single (h : g.layering = .single) : g.read v = (g.vocabulary.readRun v.components).bind fun values =>
    if values.length = 1 then .ok values else .error .wrongKind := by
  rw [read, h]
  cases g.vocabulary.readRun v.components with
  | error e => rfl
  | ok values =>
    rcases values with _ | ⟨a, _ | ⟨b, rest⟩⟩
    · rfl
    · rfl
    · simp [Except.bind]

/-- A grammar for one keyword accepts exactly a single keyword of its vocabulary. -/
theorem read_eq_ok_iff_of_single (h : g.layering = .single) {values : List α} : g.read v = .ok values ↔
    ∃ text a, v.components = [.keyword text] ∧ g.vocabulary.Means text a ∧ values = [a] := by
  rw [read_of_single h]
  constructor
  · intro hread
    obtain ⟨values, hrun, hread⟩ := exists_of_bind_eq_ok hread
    split at hread
    · next hlength =>
      obtain rfl := Except.ok.inj hread
      obtain ⟨a, rfl⟩ := List.length_eq_one_iff.1 hlength
      obtain ⟨x, rest, hx, hrest, hcomponents⟩ := List.forall₂_cons_right_iff.1 (Vocabulary.readRun_eq_ok_iff.1 hrun)
      obtain rfl := List.forall₂_nil_right_iff.1 hrest
      obtain ⟨text, rfl, htext⟩ := Vocabulary.readOne_eq_ok_iff.1 hx
      exact ⟨text, a, hcomponents, htext, rfl⟩
    · cases hread
  · rintro ⟨text, a, hcomponents, htext, rfl⟩
    have hone : g.vocabulary.readOne (.keyword text) = .ok a := Vocabulary.readOne_eq_ok_iff.2 ⟨text, rfl, htext⟩
    have hrun : g.vocabulary.readRun v.components = .ok [a] := by
      rw [hcomponents]
      exact Vocabulary.readRun_eq_ok_iff.2 (.cons hone .nil)
    rw [hrun]
    rfl

/-- Where one keyword is wanted, the first fault of a component counts before their number does. -/
theorem read_eq_error_iff_of_single (h : g.layering = .single) {e : Mismatch} : g.read v = .error e ↔
    v.components.findSome? g.vocabulary.fault? = some e ∨
      (∀ x ∈ v.components, g.vocabulary.fault? x = none) ∧ v.components.length ≠ 1 ∧ e = .wrongKind := by
  rw [read_of_single h, ← List.findSome?_eq_none_iff]
  cases hrun : g.vocabulary.readRun v.components with
  | error e' =>
    have hfault := Vocabulary.readRun_eq_error_iff.1 hrun
    simp [hfault, Except.bind]
  | ok values =>
    have hfault : v.components.findSome? g.vocabulary.fault? = none := by
      refine Option.eq_none_iff_forall_ne_some.2 fun e' he' => ?_
      rw [← Vocabulary.readRun_eq_error_iff, hrun] at he'
      cases he'
    have hlength : v.components.length = values.length := (Vocabulary.readRun_eq_ok_iff.1 hrun).length_eq
    rw [hfault, hlength]
    by_cases hone : values.length = 1
    · simp [hone, Except.bind]
    · simp [hone, Except.bind, eq_comm]

end Grammar

/-- Layers are accepted exactly as keywords of the vocabulary with commas between them, or as no components, and refused for the
fault at the first place that has one. A property that takes one keyword accepts exactly one of its vocabulary, and refuses
all else for the first component that is not one, or for their number. -/
theorem accepts_or_first_fault {α : Type} (t : Vocabulary α) (v : Value) :
    (∀ layers, t.readLayers v.components = .ok layers ↔
      v.components = [] ∧ layers = [] ∨ ∃ n, t.AreLayers v.components n layers) ∧
      (∀ e, t.readLayers v.components = .error e ↔ IsFirstFault (t.layerFault? v.components) e) ∧
      ∀ p : KeywordProperty α, p.grammar.vocabulary = t → p.grammar.layering = .single →
        (∀ q, p.commit v = .ok q ↔ ∃ text a, v.components = [.keyword text] ∧ t.Means text a ∧
          q = ⟨p.grammar, [a], .committed⟩) ∧
        ∀ e, p.commit v = .error e ↔ v.components.findSome? t.fault? = some e ∨
          (∀ x ∈ v.components, t.fault? x = none) ∧ v.components.length ≠ 1 ∧ e = .wrongKind := by
  refine ⟨fun layers => Vocabulary.readLayers_eq_ok_iff, fun e => Vocabulary.readLayers_eq_error_iff, ?_⟩
  rintro p rfl hsingle
  refine ⟨fun q => ?_, fun e => ?_⟩
  · constructor
    · intro h
      obtain ⟨values, hvalues, rfl⟩ := exists_of_map_eq_ok h
      obtain ⟨text, a, hcomponents, htext, rfl⟩ := (Grammar.read_eq_ok_iff_of_single hsingle).1 hvalues
      exact ⟨text, a, hcomponents, htext, rfl⟩
    · rintro ⟨text, a, hcomponents, htext, rfl⟩
      rw [KeywordProperty.commit, (Grammar.read_eq_ok_iff_of_single hsingle).2 ⟨text, a, hcomponents, htext, rfl⟩]
      rfl
  · rw [← Grammar.read_eq_error_iff_of_single hsingle, KeywordProperty.commit, map_eq_error_iff]

/-- Of several faults the first one counts: layers are refused for their unknown keyword and not for the missing comma after it or
the last comma, and a style for its first component that is no keyword, not for the comma after it or the number of components.
Without faults, layers have the meanings of the entries they spell. -/
theorem accepts_or_first_fault_several :
    let faulty := Value.list [.keyword "Border-Box", .separator, .keyword "margin-box", .keyword "x", .separator]
    let layers := Value.list [.keyword "border-box", .separator, .keyword "CONTENT-box"]
    let style := Value.list [.keyword "WAVY", .string "solid", .separator, .keyword "none"]
    BackgroundBox.vocabulary.readLayers faulty.components = .error .unknownKeyword ∧
      BackgroundBox.vocabulary.readLayers layers.components = .ok [.border, .content] ∧
      (KeywordProperty.new textDecorationStyle).commit style = .error .wrongKind := by
  intro faulty layers style
  obtain ⟨-, hfault, -⟩ := accepts_or_first_fault BackgroundBox.vocabulary faulty
  obtain ⟨haccepted, -, -⟩ := accepts_or_first_fault BackgroundBox.vocabulary layers
  obtain ⟨-, -, hsingle⟩ := accepts_or_first_fault LineStyle.vocabulary style
  refine ⟨(hfault _).2 ⟨2, by decide, by decide⟩, (haccepted _).2 (.inr ⟨1, ?_⟩), ?_⟩
  · refine ⟨rfl, rfl, fun i hi => ?_, fun i hi => ?_⟩
    · obtain rfl := Nat.lt_one_iff.1 hi
      rfl
    · rcases Nat.le_one_iff_eq_zero_or_eq_one.1 hi with rfl | rfl
      · exact ⟨"border-box", .border, rfl, ⟨"border-box", by decide, by decide⟩, rfl⟩
      · exact ⟨"CONTENT-box", .content, rfl, ⟨"content-box", by decide, by decide⟩, rfl⟩
  · exact ((hsingle (.new textDecorationStyle) rfl rfl).2 _).2 (.inl rfl)

/-! ## Lines along a text -/

namespace Line

/-- A component is read as a line exactly if it is the keyword of that line. -/
theorem readOne_eq_ok_iff {x : Value} {line : Line} : vocabulary.readOne x = .ok line ↔ x.isKeyword line.keyword = true := by
  have hentry : ∀ spelling, (spelling, line) ∈ vocabulary.entries ↔ line.keyword = spelling := by
    intro spelling
    have hall : line ∈ all := by cases line <;> decide
    simp [vocabulary, hall]
  rw [Vocabulary.readOne_eq_ok_iff]
  simp only [Vocabulary.Means, hentry]
  cases x with
  | keyword text => simp [Value.isKeyword, Value.keyword?, eqIgnoringCase_comm text]
  | _ => simp [Value.isKeyword, Value.keyword?]

/-- A keyword for a line is not `none`. -/
theorem isKeyword_none_eq_false {x : Value} {line : Line} (h : x.isKeyword line.keyword = true) : x.isKeyword "none" = false := by
  cases x with
  | keyword text =>
    have hline : eqIgnoringCase line.keyword text = true := by rwa [eqIgnoringCase_comm]
    refine Bool.eq_false_iff.2 fun hnone => ?_
    have hsame : eqIgnoringCase line.keyword "none" = true := eqIgnoringCase_trans hline hnone
    revert hsame
    cases line <;> decide
  | _ => cases h

/-- Where every component is the keyword of a line, none is the keyword `none`. -/
theorem isKeyword_none_of_forall₂ {components : List Value} {lines : List Line}
    (h : List.Forall₂ (fun x line => x.isKeyword line.keyword = true) components lines) :
    ¬∃ x ∈ components, x.isKeyword "none" = true := by
  rintro ⟨x, hx, hnone⟩
  induction h with
  | nil => cases hx
  | cons hline _ ih =>
    rcases List.mem_cons.1 hx with rfl | hx
    · rw [isKeyword_none_eq_false hline] at hnone
      cases hnone
    · exact ih hx

/-- Lines are a run of keywords, unless there are no components or one of them is `none`. -/
theorem read_eq (v : Value) : read v =
    if v.components = [] then .error .wrongKind
    else if ∃ x ∈ v.components, x.isKeyword "none" = true then
      if v.components.length = 1 then .ok [] else .error .exclusiveKeyword
    else vocabulary.readRun v.components := by
  rw [read]
  match v.components with
  | [] => rfl
  | [c] => simp
  | c :: d :: rest => simp

/-- A run is read as lines exactly if its components are their keywords, one by one. -/
theorem readRun_eq_ok_iff {components : List Value} {lines : List Line} : vocabulary.readRun components = .ok lines ↔
    List.Forall₂ (fun x line => x.isKeyword line.keyword = true) components lines := by
  simp only [Vocabulary.readRun_eq_ok_iff, readOne_eq_ok_iff]

/-- No lines are read from `none` alone. -/
theorem read_eq_ok_nil_iff {v : Value} : read v = .ok [] ↔ ∃ x, v.components = [x] ∧ x.isKeyword "none" = true := by
  rw [read_eq]
  split
  · next hnil => simp [hnil]
  next hne =>
  split
  · next hnone =>
    by_cases hone : v.components.length = 1
    · obtain ⟨x, hx⟩ := List.length_eq_one_iff.1 hone
      simpa [hx] using hnone
    · have hlonger : ∀ x, v.components ≠ [x] := fun x hx => hone (by rw [hx]; rfl)
      simp [hone, hlonger]
  · next hnone =>
    rw [readRun_eq_ok_iff, List.forall₂_nil_right_iff]
    refine ⟨fun hnil => absurd hnil hne, ?_⟩
    rintro ⟨x, hx, hnone'⟩
    exact absurd ⟨x, by simp [hx], hnone'⟩ hnone

/-- Any lines are read from their keywords. -/
theorem read_eq_ok_cons_iff {v : Value} {line : Line} {lines : List Line} : read v = .ok (line :: lines) ↔
    List.Forall₂ (fun x line => x.isKeyword line.keyword = true) v.components (line :: lines) := by
  rw [read_eq]
  split
  · next hnil => simp [hnil]
  next hne =>
  split
  · next hnone =>
    refine ⟨fun h => ?_, fun h => absurd hnone (isKeyword_none_of_forall₂ h)⟩
    split at h <;> cases h
  · exact readRun_eq_ok_iff

/-- What is not lines is refused for its emptiness, then for `none`, and then for its first fault. -/
theorem read_eq_error_iff {v : Value} {e : Mismatch} : read v = .error e ↔
    v.components = [] ∧ e = .wrongKind ∨
      ((∃ x ∈ v.components, x.isKeyword "none" = true) ∧ v.components.length ≠ 1 ∧ e = .exclusiveKeyword) ∨
      (¬∃ x ∈ v.components, x.isKeyword "none" = true) ∧ v.components.findSome? vocabulary.fault? = some e := by
  rw [read_eq]
  split
  · next hnil => simp [hnil, eq_comm (a := e)]
  next hne =>
  split
  · next hnone =>
    by_cases hone : v.components.length = 1
    · simp [hne, hone, hnone]
    · simp [hne, hone, hnone, eq_comm (a := e)]
  · next hnone => simp [hne, hnone, Vocabulary.readRun_eq_error_iff]

/-- A last `none` counts before a first comma. -/
example : read (.list [.separator, .keyword "blink", .keyword "None"]) = .error .exclusiveKeyword := rfl

end Line

/-- The property of lines takes `none` alone as no lines and a run of keywords as their lines, in order and with repeats. It
refuses a value without components, then one with `none` among others, and then the first component that is no keyword for a line.
One component is read alike alone and in a list. -/
theorem lines_accepted_or_fault (v : Value) :
    (LineProperty.commit v = .ok ⟨[], .committed⟩ ↔ ∃ x, v.components = [x] ∧ x.isKeyword "none" = true) ∧
      (∀ line lines, LineProperty.commit v = .ok ⟨line :: lines, .committed⟩ ↔
        List.Forall₂ (fun x line => x.isKeyword line.keyword = true) v.components (line :: lines)) ∧
      (∀ e, LineProperty.commit v = .error e ↔
        v.components = [] ∧ e = .wrongKind ∨
          ((∃ x ∈ v.components, x.isKeyword "none" = true) ∧ v.components.length ≠ 1 ∧ e = .exclusiveKeyword) ∨
          (¬∃ x ∈ v.components, x.isKeyword "none" = true) ∧
            v.components.findSome? Line.vocabulary.fault? = some e) ∧
      (v.isList = false → LineProperty.commit (.list [v]) = LineProperty.commit v) := by
  have hok : ∀ lines, LineProperty.commit v = .ok ⟨lines, .committed⟩ ↔ Line.read v = .ok lines := by
    intro lines
    rw [LineProperty.commit]
    cases Line.read v <;> simp [Except.map]
  refine ⟨?_, fun line lines => ?_, fun e => ?_, fun hlist => ?_⟩
  · rw [hok, Line.read_eq_ok_nil_iff]
  · rw [hok, Line.read_eq_ok_cons_iff]
  · rw [LineProperty.commit, map_eq_error_iff, Line.read_eq_error_iff]
  · have hcomponents : (Value.list [v]).components = v.components := by
      cases v with
      | list items => cases hlist
      | _ => rfl
    rw [LineProperty.commit, LineProperty.commit, Line.read_eq, Line.read_eq, hcomponents]

end StyleCheck
