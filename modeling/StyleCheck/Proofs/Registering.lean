import StyleCheck.Proofs.Applying

/-!
# Runs of registrations

A register is filled by one registration after the other. Under whichever names and however often it is asked, it keeps its names
in small letters and each of them once (`WellKept`), so that every factory in it can be had under its own name. Main statements:
`WellKept.registeredAll` and `WellKept.factory?_of_mem`.
-/

namespace StyleCheck

namespace Registry

/-- The register after a registration; a refused one leaves it alone. -/
def registered (r : Registry) (name : String) (f : Factory) : Registry :=
  match (r.register name f).value with
  | .ok s => s
  | .error _ => r

/-- The register after registrations in order. -/
def registeredAll (r : Registry) (calls : List (String × Factory)) : Registry :=
  calls.foldl (fun r c => r.registered c.1 c.2) r

/-- The names are in small letters, and each is taken once. -/
structure WellKept (r : Registry) : Prop where
  small : ∀ name ∈ r.names, lower name = name
  distinct : r.names.Nodup

/-! ## Known names -/

/-- A name is contained exactly if it is among the names, in lower case. -/
theorem contains_iff (r : Registry) (name : String) : r.contains name = true ↔ lower name ∈ r.names := by
  simp [contains, factory?, names]

/-- What a registration does: a name that is taken is refused, and any other is added at the end. -/
theorem registered_eq (r : Registry) (name : String) (f : Factory) :
    r.registered name f = if r.contains name then r else ⟨r.entries ++ [(lower name, f)]⟩ := by
  unfold registered register
  cases r.contains name <;> rfl

/-- One registration adds the name in lower case at the end, or nothing if it is there. -/
theorem registeredAll_singleton (r : Registry) (name : String) (f : Factory) :
    r.registeredAll [(name, f)] = if r.contains name then r else ⟨r.entries ++ [(lower name, f)]⟩ :=
  registered_eq r name f

namespace WellKept

theorem empty : Registry.empty.WellKept := ⟨by decide, by decide⟩

theorem builtin : Registry.builtin.WellKept := ⟨by decide, by decide⟩

/-- One registration. -/
theorem registered {r : Registry} (h : r.WellKept) (name : String) (f : Factory) : (r.registered name f).WellKept := by
  rw [registered_eq]
  split
  · exact h
  · next hname =>
    rw [contains_iff] at hname
    have hnames : names ⟨r.entries ++ [(lower name, f)]⟩ = r.names ++ [lower name] := by simp [names]
    refine ⟨?_, ?_⟩
    · rw [hnames]
      intro n hn
      rcases List.mem_append.1 hn with hn | hn
      · exact h.small n hn
      · rw [List.mem_singleton.1 hn, lower_lower]
    · rw [hnames]
      refine List.nodup_append.2 ⟨h.distinct, by simp, ?_⟩
      rintro n hn m hm rfl
      exact hname (List.mem_singleton.1 hm ▸ hn)

/-- Any registrations. -/
theorem registeredAll {r : Registry} (h : r.WellKept) (calls : List (String × Factory)) : (r.registeredAll calls).WellKept :=
  List.foldlRecOn calls _ h fun _ hs c _ => hs.registered c.1 c.2

/-- Every factory is found under its own name. -/
theorem factory?_of_mem {r : Registry} (h : r.WellKept) {name : String} {f : Factory} (hf : (name, f) ∈ r.entries) :
    r.factory? name = some f := by
  have hsmall : lower name = name := h.small name (List.mem_map.2 ⟨(name, f), hf, rfl⟩)
  have hdistinct := h.distinct
  rw [factory?, hsmall]
  unfold names at hdistinct
  generalize r.entries = entries at hf hdistinct
  induction entries with
  | nil => cases hf
  | cons e rest ih =>
    rw [List.map_cons, List.nodup_cons] at hdistinct
    rcases List.mem_cons.1 hf with rfl | hf
    · simp
    · have hne : e.1 ≠ name := by
        rintro rfl
        exact hdistinct.1 (List.mem_map.2 ⟨(e.1, f), hf, rfl⟩)
      rw [List.find?_cons_of_neg (by simpa using hne)]
      exact ih hf hdistinct.2

/-- The known names are those that are equal to a name in the register without regard to case. -/
theorem contains_iff_eqIgnoringCase {r : Registry} (h : r.WellKept) (name : String) :
    r.contains name = true ↔ ∃ n ∈ r.names, eqIgnoringCase n name = true := by
  rw [contains_iff]
  constructor
  · intro hname
    exact ⟨lower name, hname, eqIgnoringCase_lower name⟩
  · rintro ⟨n, hn, hname⟩
    rw [← eqIgnoringCase_iff.1 hname, h.small n hn]
    exact hn

/-- Every register that comes of registrations. -/
theorem of_start {start : Registry} (hstart : start = .empty ∨ start = .builtin) (calls : List (String × Factory)) :
    (start.registeredAll calls).WellKept := by
  rcases hstart with rfl | rfl
  · exact empty.registeredAll calls
  · exact builtin.registeredAll calls

end WellKept

end Registry

end StyleCheck
