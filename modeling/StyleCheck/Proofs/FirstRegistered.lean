import Mathlib.Data.List.Find
import StyleCheck.Proofs.Registering

/-!
# The first registration of a name

Over any run of registrations a name belongs to whoever registered it first. `successes` are the registrations of a run that
succeed, and the register is the one at the start with these added (`entries_registeredAll`); a factory is found under a name
exactly as in the list of all registrations, by the first one with that name (`factory?_registeredAll`). Main statement:
`register_first_come`.
-/

namespace StyleCheck

/-- A property and the same one at its initial value: the same grammar with one layer of its initial meaning, or no lines. -/
inductive Property.Renewed : Property → Property → Prop where
  | keyword {kind : Kind} {g : Grammar kind.Meaning} {values : List kind.Meaning} {status : Status} :
      Renewed (.keyword kind ⟨g, values, status⟩) (.keyword kind ⟨g, [g.initial], .initial⟩)
  | lines {lines : List Line} {status : Status} : Renewed (.lines ⟨lines, status⟩) (.lines ⟨[], .initial⟩)

theorem Property.renewed_reset (p : Property) : p.Renewed p.reset := by
  cases p with
  | keyword kind k => exact .keyword
  | lines l => exact .lines

namespace Registry

/-- The registrations that succeed when all are made in order. -/
def successes (r : Registry) : List (String × Factory) → List (String × Factory)
  | [] => []
  | c :: calls =>
    match (r.register c.1 c.2).value with
    | .ok s => c :: s.successes calls
    | .error _ => r.successes calls

/-- The names known at the start and those registered with success since. -/
def takenNames (r : Registry) (calls : List (String × Factory)) : List String :=
  r.names ++ (r.successes calls).map Prod.fst

/-! ## One registration -/

/-- A registration succeeds exactly under a name that is not known. -/
theorem exists_register_eq_ok_iff (r : Registry) (name : String) (f : Factory) :
    (∃ s, (r.register name f).value = .ok s) ↔ r.contains name = false := by
  unfold register
  cases r.contains name with
  | false => exact iff_of_true ⟨_, rfl⟩ rfl
  | true =>
    refine iff_of_false ?_ (by simp)
    rintro ⟨s, hs⟩
    cases hs

/-- A registration that succeeds leaves the register it answers. -/
theorem registered_of_ok {r s : Registry} {name : String} {f : Factory} (h : (r.register name f).value = .ok s) :
    r.registered name f = s := by
  rw [registered, h]

/-- A registration that fails leaves the register as it was. -/
theorem registered_of_error {r : Registry} {name : String} {f : Factory} {e : AlreadyRegistered}
    (h : (r.register name f).value = .error e) : r.registered name f = r := by
  rw [registered, h]

/-- A registration that succeeds adds its factory at the end, under its name in small letters. -/
theorem entries_of_ok {r s : Registry} {name : String} {f : Factory} (h : (r.register name f).value = .ok s) :
    s.entries = r.entries ++ [(lower name, f)] := by
  have hnew := (exists_register_eq_ok_iff r name f).1 ⟨s, h⟩
  rw [← registered_of_ok h, registered_eq, hnew]
  rfl

/-- A factory is found under its name afterwards, unless another one was found there before. -/
theorem factory?_registered (r : Registry) (name : String) (f : Factory) (other : String) :
    (r.registered name f).factory? other =
      (r.factory? other).or (if eqIgnoringCase name other then some f else none) := by
  rw [registered_eq]
  cases hname : r.contains name with
  | true =>
    -- the name is taken: if it is the one looked for, a factory is found already
    rw [if_pos rfl]
    split
    · next hsame =>
      obtain ⟨g, hg⟩ := Option.isSome_iff_exists.1 hname
      have hother : r.factory? other = some g := by rw [← hg, factory?, factory?, eqIgnoringCase_iff.1 hsame]
      rw [hother]
      rfl
    · rw [Option.or_none]
  | false =>
    have hkey : (lower name = lower other) ↔ eqIgnoringCase name other = true := eqIgnoringCase_iff.symm
    rw [if_neg (by simp), factory?, factory?, List.find?_append, List.find?_singleton]
    simp only [decide_eq_true_eq, hkey]
    cases r.entries.find? fun e => e.1 = lower other with
    | some e => rfl
    | none => split <;> rfl

/-! ## Runs of registrations -/

theorem registeredAll_cons (r : Registry) (c : String × Factory) (calls : List (String × Factory)) :
    r.registeredAll (c :: calls) = (r.registered c.1 c.2).registeredAll calls := rfl

theorem registeredAll_concat (r : Registry) (calls : List (String × Factory)) (name : String) (f : Factory) :
    r.registeredAll (calls ++ [(name, f)]) = (r.registeredAll calls).registered name f := by
  simp [registeredAll]

/-- The register holds what it held at the start and what was registered with success, in this order. -/
theorem entries_registeredAll (r : Registry) (calls : List (String × Factory)) :
    (r.registeredAll calls).entries = r.entries ++ (r.successes calls).map fun c => (lower c.1, c.2) := by
  induction calls generalizing r with
  | nil => simp [registeredAll, successes]
  | cons c calls ih =>
    rw [registeredAll_cons, successes]
    cases h : (r.register c.1 c.2).value with
    | ok s => rw [registered_of_ok h, ih, entries_of_ok h, List.map_cons, List.append_assoc, List.singleton_append]
    | error e => rw [registered_of_error h, ih]

/-- The register grows by the calls that succeed. -/
theorem size_registeredAll (r : Registry) (calls : List (String × Factory)) :
    (r.registeredAll calls).size = r.size + (r.successes calls).length := by
  rw [size, size, entries_registeredAll, List.length_append, List.length_map]

/-- Whatever the run, a name is known exactly if it is taken, without regard to case. -/
theorem WellKept.contains_registeredAll {r : Registry} (h : r.WellKept) (calls : List (String × Factory)) (name : String) :
    (r.registeredAll calls).contains name = true ↔ ∃ n ∈ r.takenNames calls, eqIgnoringCase n name = true := by
  have hnames : (r.registeredAll calls).names = r.names ++ (r.successes calls).map fun c => lower c.1 := by
    simp [names, entries_registeredAll]
  have hsmall : ∀ n, eqIgnoringCase (lower n) name = eqIgnoringCase n name := by
    intro n
    rw [eqIgnoringCase, eqIgnoringCase, lower_lower]
  rw [(h.registeredAll calls).contains_iff_eqIgnoringCase, hnames, takenNames]
  simp only [List.mem_append, List.mem_map, or_and_right, exists_or]
  refine or_congr_right ⟨?_, ?_⟩
  · rintro ⟨-, ⟨c, hc, rfl⟩, hname⟩
    exact ⟨c.1, ⟨c, hc, rfl⟩, by rwa [← hsmall]⟩
  · rintro ⟨-, ⟨c, hc, rfl⟩, hname⟩
    exact ⟨lower c.1, ⟨c, hc, rfl⟩, by rwa [hsmall]⟩

/-- What was not known at the start is found as it was first registered. -/
theorem factory?_registeredAll (r : Registry) (calls : List (String × Factory)) (name : String) :
    (r.registeredAll calls).factory? name =
      (r.factory? name).or ((calls.find? fun c => eqIgnoringCase c.1 name).map Prod.snd) := by
  induction calls generalizing r with
  | nil => simp [registeredAll]
  | cons c calls ih =>
    rw [registeredAll_cons, ih, factory?_registered, Option.or_assoc, List.find?_cons]
    cases eqIgnoringCase c.1 name <;> rfl

/-- In a register with small names, looking for the small form of a name is looking for the name without regard to case. -/
theorem WellKept.factory?_eq {r : Registry} (h : r.WellKept) (name : String) :
    r.factory? name = (r.entries.find? fun e => eqIgnoringCase e.1 name).map Prod.snd := by
  rw [factory?]
  refine congrArg (Option.map Prod.snd) (List.find?_congr fun e he => ?_)
  rw [eqIgnoringCase, h.small e.1 (List.mem_map.2 ⟨e, he, rfl⟩)]
  rfl

/-- The factory found under a name is the first in the list of all registrations, those of the start before the others. -/
theorem WellKept.factory?_first {r : Registry} (h : r.WellKept) (calls : List (String × Factory)) (name : String) :
    (r.registeredAll calls).factory? name =
      ((r.entries ++ calls).find? fun c => eqIgnoringCase c.1 name).map Prod.snd := by
  rw [factory?_registeredAll, h.factory?_eq, List.find?_append]
  cases r.entries.find? fun c => eqIgnoringCase c.1 name <;> rfl

end Registry

/-- What a register is after any registrations, whether it was empty at the start or held the properties that are always known:

* one more registration succeeds exactly if its name differs, whatever its case, from all names known at the start and from all
  registered with success since, and leaves the register alone if it does not succeed;
* the names are distinct and in small letters, and as many as there were at the start and registrations succeeded;
* a name is known, and a property can be had under it, exactly if it is one of these names without regard to case;
* the property had under it is that of the first factory registered under the name, at its initial value whatever the factory
  gives it. -/
theorem register_first_come {start : Registry} (hstart : start = .empty ∨ start = .builtin)
    (calls : List (String × Factory)) :
    let r := start.registeredAll calls
    (∀ name f, ((∃ s, (r.register name f).value = .ok s) ↔
        ∀ n ∈ start.takenNames calls, eqIgnoringCase n name = false) ∧
      ∀ e, (r.register name f).value = .error e → start.registeredAll (calls ++ [(name, f)]) = r) ∧
    r.names.Nodup ∧ (∀ n ∈ r.names, isSmall n = true) ∧
    r.size = start.size + (start.successes calls).length ∧
    (∀ name, (r.contains name = true ↔ (r.create name).value.isSome = true) ∧
      (r.contains name = true ↔ ∃ n ∈ start.takenNames calls, eqIgnoringCase n name = true)) ∧
    ∀ name p, (r.create name).value = some p →
      ∃ f, ((start.entries ++ calls).find? fun c => eqIgnoringCase c.1 name).map Prod.snd = some f ∧ f.value.Renewed p := by
  intro r
  have hkept : start.WellKept := Registry.WellKept.of_start hstart []
  have hr : r.WellKept := hkept.registeredAll calls
  refine ⟨fun name f => ⟨?_, ?_⟩, hr.distinct, ?_, start.size_registeredAll calls, fun name => ⟨?_, ?_⟩, ?_⟩
  · rw [r.exists_register_eq_ok_iff name f, ← Bool.not_eq_true, hkept.contains_registeredAll calls name]
    simp
  · intro e he
    rw [start.registeredAll_concat, Registry.registered_of_error he]
  · intro n hn
    rw [← hr.small n hn, isSmall_lower]
  · rw [← r.isSome_fresh?]
    rfl
  · exact hkept.contains_registeredAll calls name
  · intro name p hp
    have hfresh : r.fresh? name = some p := hp
    rw [r.fresh?_eq, hkept.factory?_first] at hfresh
    obtain ⟨f, hf, rfl⟩ := Option.map_eq_some_iff.1 hfresh
    exact ⟨f, hf, f.value.renewed_reset⟩

/-- Of three registrations the first succeeds, with a factory that gives a committed property; the second wants a name that was
known at the start, and the third that of the first. -/
theorem register_first_come_committed :
    let underlined : Factory := do return (← (Property.lines .new).validate (.keyword "underline")).2
    let calls := [("Mask", underlined), ("BACKGROUND-clip", LineProperty.factory), ("mask", backgroundClip.factory .box)]
    let r := Registry.builtin.registeredAll calls
    underlined.value.status = .committed ∧ Registry.builtin.takenNames calls = Registry.builtin.names ++ ["Mask"] ∧
      r.size = 6 ∧ ¬(∃ s, (r.register "mAsK" LineProperty.factory).value = .ok s) ∧
      ∃ p, (r.create "MASK").value = some p ∧ underlined.value.Renewed p := by
  intro underlined calls r
  have htaken : Registry.builtin.takenNames calls = Registry.builtin.names ++ ["Mask"] := by decide
  have hcount : (Registry.builtin.successes calls).length = 1 := by decide
  obtain ⟨hregister, -, -, hsize, hknown, hcreate⟩ := register_first_come (.inr rfl) calls
  have hmask : ∃ n ∈ Registry.builtin.takenNames calls, eqIgnoringCase n "MASK" = true := by
    rw [htaken]
    exact ⟨"Mask", by simp, by decide⟩
  refine ⟨by decide, htaken, ?_, ?_, ?_⟩
  · rw [hsize, hcount]
    rfl
  · rw [(hregister "mAsK" LineProperty.factory).1, htaken]
    decide
  · obtain ⟨p, hp⟩ := Option.isSome_iff_exists.1 ((hknown "MASK").1.1 ((hknown "MASK").2.2 hmask))
    obtain ⟨f, hf, hrenewed⟩ := hcreate "MASK" p hp
    have hnone : (Registry.builtin.entries.find? fun c => eqIgnoringCase c.1 "MASK") = none :=
      List.find?_eq_none.2 (by decide)
    rw [List.find?_append, hnone, Option.none_or, List.find?_cons_of_pos (by decide)] at hf
    obtain rfl := Option.some.inj hf
    exact ⟨p, hp, hrenewed⟩

end StyleCheck
