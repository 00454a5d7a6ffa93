import Mathlib.Data.List.Induction
import StyleCheck.Proofs.Applying

/-!
# The cascade inside a block

Which of the declarations of a property is in force, and what the property then holds, said about the whole history at once:
a declaration counts if a new property of its name takes its value; of those that count the last important one wins, and the
last one if none is important. Main statement: `applyAll_entry_of_winner`, that applying declarations one by one to an empty block
arrives at the winner of the history.

What is held under `inherit` or `unset` is left over from earlier declarations. A normal declaration after an important one
leaves nothing behind, so the leftover is that of the declarations that came into force (`inForce`).
-/

namespace StyleCheck

/-- Whether the declaration is of the property with this name, and a new property of that name takes its value. -/
def Registry.accepts (r : Registry) (name : String) (d : Declaration) : Bool :=
  eqIgnoringCase d.name name && (r.fresh? name).any fun q => (q.answer d.value).isSome

/-- The accepted declarations of a property, in order. -/
def Registry.accepted (r : Registry) (name : String) (ds : List Declaration) : List Declaration :=
  ds.filter (r.accepts name)

/-- The last declaration with a mark, and those that stand before it. -/
def lastWith? (mark : Declaration → Bool) (ds : List Declaration) : Option (List Declaration × Declaration) :=
  match ds.reverse.dropWhile (!mark ·) with
  | [] => none
  | w :: before => some (before.reverse, w)

/-- The winner among accepted declarations, and those that stand before it: the last important one, or the last one if none is
important. -/
def winner? (ds : List Declaration) : Option (List Declaration × Declaration) :=
  (lastWith? (·.important) ds).or (lastWith? (fun _ => true) ds)

/-- The declarations without the normal ones that follow an important one. -/
def inForce (ds : List Declaration) : List Declaration :=
  ds.takeWhile (!·.important) ++ (ds.dropWhile (!·.important)).filter (·.important)

namespace Property

/-- What a new property holds after accepted declarations: the result of the last of them that decides it, and its initial value
if none does. -/
def heldAfter (q : Property) (ds : List Declaration) : Property :=
  ((ds.filter fun d => (q.answer d.value).any Specified.settles).getLast?).elim q fun d => q.after d.value

/-- The entry of a property after the declarations that came into force. -/
def entryAfter? (q : Property) (ds : List Declaration) : Option Entry :=
  ds.getLast?.bind fun w => (q.answer w.value).map (⟨q.heldAfter ds, ·, w.important⟩)

end Property

/-! ## Histories, one declaration longer -/

/-- The last marked declaration of a list with one more at its end. -/
theorem lastWith?_concat (mark : Declaration → Bool) (ds : List Declaration) (d : Declaration) :
    lastWith? mark (ds ++ [d]) = if mark d then some (ds, d) else lastWith? mark ds := by
  unfold lastWith?
  rw [List.reverse_concat, List.dropWhile_cons]
  cases mark d with
  | true => simp
  | false => rfl

/-- A marked declaration can be found exactly if there is one. -/
theorem isSome_lastWith? (mark : Declaration → Bool) (ds : List Declaration) :
    (lastWith? mark ds).isSome = ds.any mark := by
  induction ds using List.reverseRecOn with
  | nil => rfl
  | append_singleton ds d ih =>
    rw [lastWith?_concat, List.any_append, ← ih]
    cases hd : mark d <;> simp [hd]

/-- A new declaration wins unless it is normal and an important one stands before it. -/
theorem winner?_concat (ds : List Declaration) (d : Declaration) :
    winner? (ds ++ [d]) = if ds.any (·.important) && !d.important then winner? ds else some (ds, d) := by
  unfold winner?
  rw [lastWith?_concat, lastWith?_concat, if_pos rfl, ← isSome_lastWith?]
  cases d.important with
  | true => simp
  | false => cases lastWith? (·.important) ds <;> rfl

/-- After an important declaration only important ones are in force. -/
theorem inForce_cons (e : Declaration) (ds : List Declaration) :
    inForce (e :: ds) = e :: if e.important then ds.filter (·.important) else inForce ds := by
  unfold inForce
  cases he : e.important <;> simp [he]

/-- A new declaration comes into force unless it is normal and an important one stands before it. -/
theorem inForce_concat (ds : List Declaration) (d : Declaration) :
    inForce (ds ++ [d]) = if ds.any (·.important) && !d.important then inForce ds else inForce ds ++ [d] := by
  induction ds with
  | nil =>
    rw [List.nil_append, inForce_cons]
    cases d.important <;> rfl
  | cons e ds ih =>
    rw [List.cons_append, inForce_cons, inForce_cons, List.any_cons, ih]
    cases e.important with
    | true => cases hd : d.important <;> simp [hd]
    | false =>
      simp only [Bool.false_or, Bool.false_eq_true, if_false]
      split <;> rfl

/-- The winner comes last of those in force. -/
theorem inForce_of_winner? {ds before : List Declaration} {w : Declaration} (h : winner? ds = some (before, w)) :
    inForce ds = inForce before ++ [w] := by
  induction ds using List.reverseRecOn with
  | nil => cases h
  | append_singleton ds d ih =>
    rw [winner?_concat] at h
    rw [inForce_concat]
    split at h
    · next hd => rw [if_pos hd, ih h]
    · next hd =>
      obtain ⟨rfl, rfl⟩ := Prod.mk.inj (Option.some.inj h)
      rw [if_neg hd]

/-- There is a winner unless there is no declaration. -/
theorem exists_winner? {ds : List Declaration} (h : ds ≠ []) : ∃ before w, winner? ds = some (before, w) := by
  induction ds using List.reverseRecOn with
  | nil => exact absurd rfl h
  | append_singleton ds d ih =>
    rw [winner?_concat]
    split
    · next hd =>
      refine ih ?_
      rintro rfl
      cases hd
    · exact ⟨ds, d, rfl⟩

/-- The last declaration in force is important exactly if there is an important one. -/
theorem important_of_getLast?_inForce {ds : List Declaration} {w : Declaration} (h : (inForce ds).getLast? = some w) :
    w.important = ds.any (·.important) := by
  induction ds using List.reverseRecOn with
  | nil => cases h
  | append_singleton ds d ih =>
    rw [inForce_concat] at h
    rw [List.any_append]
    split at h
    · next hd =>
      rw [Bool.and_eq_true] at hd
      rw [ih h, hd.1, Bool.true_or]
    · next hd =>
      rw [List.getLast?_concat] at h
      obtain rfl := Option.some.inj h
      cases hi : d.important <;> simp_all

/-- The declarations in force are among those given. -/
theorem mem_of_mem_inForce {ds : List Declaration} {d : Declaration} (h : d ∈ inForce ds) : d ∈ ds := by
  unfold inForce at h
  rcases List.mem_append.1 h with h | h
  · exact (List.takeWhile_sublist _).subset h
  · exact (List.dropWhile_sublist _).subset (List.mem_filter.1 h).1

/-! ## What the property holds -/

namespace Property

/-- The initial value never changes. -/
theorem reset_heldAfter (q : Property) (ds : List Declaration) : (q.heldAfter ds).reset = q.reset := by
  unfold heldAfter
  cases (ds.filter fun d => (q.answer d.value).any Specified.settles).getLast? with
  | none => rfl
  | some d => exact q.reset_after d.value

/-- What is held after one more accepted declaration is what the declaration makes of the property. -/
theorem heldAfter_concat (q : Property) (ds : List Declaration) {d : Declaration} {s : Specified}
    (h : q.answer d.value = some s) : q.heldAfter (ds ++ [d]) = (q.heldAfter ds).after d.value := by
  have hreset := q.reset_heldAfter ds
  have hanswer : (q.heldAfter ds).answer d.value = some s := by rw [answer_eq_of_reset_eq hreset, h]
  cases hs : s.settles with
  | true =>
    rw [after_eq_of_settles hreset hanswer hs]
    simp [heldAfter, h, hs]
  | false =>
    rw [after_eq_self_of_not_settles hanswer hs]
    simp [heldAfter, h, hs]

/-- One more declaration comes into force: the entry is that of the declaration. -/
theorem entryAfter?_concat (q : Property) (ds : List Declaration) {d : Declaration} {s : Specified}
    (h : q.answer d.value = some s) :
    q.entryAfter? (ds ++ [d]) = some ⟨(q.heldAfter ds).after d.value, s, d.important⟩ := by
  rw [entryAfter?, List.getLast?_concat, Option.bind_some, h, q.heldAfter_concat ds h]
  rfl

end Property

/-! ## Applying the declarations of a history -/

/-- The entry after some declarations holds what those in force leave, and is important if one of them is. -/
theorem of_entryAfter?_eq_some {q : Property} {ds : List Declaration} {e : Entry}
    (h : q.entryAfter? (inForce ds) = some e) :
    e.property = q.heldAfter (inForce ds) ∧ e.important = ds.any (·.important) := by
  obtain ⟨w, hw, he⟩ := Option.bind_eq_some_iff.1 h
  obtain ⟨s, -, rfl⟩ := Option.map_eq_some_iff.1 he
  exact ⟨rfl, important_of_getLast?_inForce hw⟩

/-- If every declaration is answered, only the empty list leaves no entry. -/
theorem eq_nil_of_entryAfter?_eq_none {q : Property} {ds : List Declaration}
    (hds : ∀ d ∈ ds, (q.answer d.value).isSome = true) (h : q.entryAfter? (inForce ds) = none) : ds = [] := by
  by_contra hne
  obtain ⟨before, w, hw⟩ := exists_winner? hne
  have hforce := inForce_of_winner? hw
  have hmem : w ∈ ds := mem_of_mem_inForce (by rw [hforce]; simp)
  obtain ⟨s, hs⟩ := Option.isSome_iff_exists.1 (hds w hmem)
  rw [hforce, q.entryAfter?_concat (inForce before) hs] at h
  cases h

/-- A declaration that is refused, or outranked, changes nothing of the entry; any other becomes the entry. -/
theorem nextEntry_entryAfter? {r : Registry} {name : String} {q : Property} (hq : r.fresh? name = some q)
    {ds : List Declaration} (hds : ∀ d ∈ ds, (q.answer d.value).isSome = true) (d : Declaration) :
    Block.nextEntry r name (q.entryAfter? (inForce ds)) d =
      q.entryAfter? (inForce (if (q.answer d.value).isSome then ds ++ [d] else ds)) := by
  cases he : q.entryAfter? (inForce ds) with
  | none =>
    -- nothing came into force yet, so the declaration meets a new property
    obtain rfl := eq_nil_of_entryAfter?_eq_none hds he
    rw [Block.nextEntry, hq, Option.bind_some, Block.firstEntry]
    cases ha : q.answer d.value with
    | none => rfl
    | some s =>
      rw [Option.isSome_some, if_pos rfl, inForce_concat]
      exact (q.entryAfter?_concat [] ha).symm
  | some e =>
    obtain ⟨hprop, himp⟩ := of_entryAfter?_eq_some he
    have hanswer : e.property.answer d.value = q.answer d.value := by
      rw [hprop, Property.answer_eq_of_reset_eq (q.reset_heldAfter _)]
    rw [Block.nextEntry, Entry.redeclared, hanswer, himp]
    cases ha : q.answer d.value with
    | none => simp [he]
    | some s =>
      rw [Option.isSome_some, if_pos rfl, inForce_concat]
      split
      · exact he.symm
      · rw [q.entryAfter?_concat _ ha, hprop]
        rfl

/-- A new property takes the value of every accepted declaration. -/
theorem answer_of_mem_accepted {r : Registry} {name : String} {q : Property} (hq : r.fresh? name = some q)
    {ds : List Declaration} {d : Declaration} (h : d ∈ r.accepted name ds) : (q.answer d.value).isSome = true := by
  have ha := (List.mem_filter.1 h).2
  simp only [Registry.accepts, hq, Option.any_some, Bool.and_eq_true] at ha
  exact ha.2

/-- The entry of a property after declarations, from the whole of them. -/
theorem entry?_appliedAll {r : Registry} (hr : r.Coherent) (ds : List Declaration) (name : String) :
    Block.entry? (Block.empty.appliedAll r ds) name =
      (r.fresh? name).bind fun q => q.entryAfter? (inForce (r.accepted name ds)) := by
  induction ds using List.reverseRecOn with
  | nil => cases r.fresh? name <;> rfl
  | append_singleton ds d ih =>
    rw [Block.appliedAll_concat, Registry.accepted, List.filter_append, ← Registry.accepted]
    cases hd : eqIgnoringCase d.name name with
    | false =>
      rw [Block.entry?_applied_other hr _ hd, ih]
      simp [Registry.accepts, hd]
    | true =>
      rw [Block.entry?_applied_same hr _ hd, ih]
      cases hq : r.fresh? name with
      | none => simp [Block.nextEntry, hq]
      | some q =>
        rw [Option.bind_some, Option.bind_some, nextEntry_entryAfter? hq (fun e he => answer_of_mem_accepted hq he)]
        congr 2
        cases ha : (q.answer d.value).isSome <;> simp [Registry.accepts, hd, hq, ha]

/-- The entry is that of the winner, made on top of what came into force before it. -/
theorem entry?_of_winner? {r : Registry} (hr : r.Coherent) {ds : List Declaration} {name : String} {q : Property}
    (hq : r.fresh? name = some q) {before : List Declaration} {w : Declaration}
    (hw : winner? (r.accepted name ds) = some (before, w)) :
    ∃ s, q.answer w.value = some s ∧ Block.entry? (Block.empty.appliedAll r ds) name =
      some ⟨(q.heldAfter (inForce before)).after w.value, s, w.important⟩ := by
  have hforce := inForce_of_winner? hw
  have hmem : w ∈ r.accepted name ds := mem_of_mem_inForce (by rw [hforce]; simp)
  obtain ⟨s, hs⟩ := Option.isSome_iff_exists.1 (answer_of_mem_accepted hq hmem)
  refine ⟨s, hs, ?_⟩
  rw [entry?_appliedAll hr, hq, Option.bind_some, hforce, q.entryAfter?_concat _ hs]

/-- A property has an entry exactly if it is known and one of its declarations is accepted. -/
theorem isSome_entry?_appliedAll {r : Registry} (hr : r.Coherent) (ds : List Declaration) (name : String) :
    (Block.entry? (Block.empty.appliedAll r ds) name).isSome = true ↔
      r.contains name = true ∧ ∃ d ∈ ds, r.accepts name d = true := by
  constructor
  · intro h
    rw [entry?_appliedAll hr] at h
    obtain ⟨e, he⟩ := Option.isSome_iff_exists.1 h
    obtain ⟨q, hq, he⟩ := Option.bind_eq_some_iff.1 he
    obtain ⟨w, hw, -⟩ := Option.bind_eq_some_iff.1 he
    have hmem : w ∈ r.accepted name ds := mem_of_mem_inForce (List.mem_of_getLast? hw)
    refine ⟨by rw [← r.isSome_fresh?, hq]; rfl, w, ?_⟩
    exact List.mem_filter.1 hmem
  · rintro ⟨hc, d, hd, ha⟩
    rw [← r.isSome_fresh?] at hc
    obtain ⟨q, hq⟩ := Option.isSome_iff_exists.1 hc
    have hne : r.accepted name ds ≠ [] := List.ne_nil_of_mem (List.mem_filter.2 ⟨hd, ha⟩)
    obtain ⟨before, w, hw⟩ := exists_winner? hne
    obtain ⟨s, -, he⟩ := entry?_of_winner? hr hq hw
    rw [he]
    rfl

/-- Applying declarations to an empty block arrives at the winner of the history. A property has an entry exactly if it is
known and one of its declarations is accepted. The entry is important, and was given its value, as the winner says. It holds
the winner's own value, or its initial value if the winner is `initial`; under `inherit` and `unset` it holds the result of the
last declaration that decided it among the accepted ones before the winner, less the normal ones after an important one. -/
theorem applyAll_entry_of_winner {r : Registry} (hr : r.Coherent) (ds : List Declaration) (name : String) :
    let b := (Block.empty.applyAll r ds).value.2
    ((b.entry? name).isSome = true ↔ r.contains name = true ∧ ∃ d ∈ ds, r.accepts name d = true) ∧
    ((b.entry? name).isSome = true → ∃ before w q,
      winner? (r.accepted name ds) = some (before, w) ∧ r.fresh? name = some q ∧
      b.specified? name = q.answer w.value ∧ b.isImportant name = w.important ∧
      (q.answer w.value = some .value →
        ∃ p, q.commit w.value = .ok p ∧ p.status = .committed ∧ b.property? name = some p) ∧
      (q.answer w.value = some .initial → q.reset = q ∧ q.status = .initial ∧ b.property? name = some q) ∧
      (q.answer w.value = some .inherit ∨ q.answer w.value = some .unset →
        b.property? name = some (q.heldAfter (inForce before)))) := by
  intro b
  refine ⟨isSome_entry?_appliedAll hr ds name, fun h => ?_⟩
  obtain ⟨hc, d, hd, ha⟩ := (isSome_entry?_appliedAll hr ds name).1 h
  rw [← r.isSome_fresh?] at hc
  obtain ⟨q, hq⟩ := Option.isSome_iff_exists.1 hc
  obtain ⟨before, w, hw⟩ := exists_winner? (List.ne_nil_of_mem (List.mem_filter.2 ⟨hd, ha⟩))
  obtain ⟨s, hs, he⟩ := entry?_of_winner? hr hq hw
  have hentry : b.entry? name = some ⟨(q.heldAfter (inForce before)).after w.value, s, w.important⟩ := he
  have hproperty : b.property? name = some ((q.heldAfter (inForce before)).after w.value) := by
    rw [Block.property?, hentry]
    rfl
  have hreset := q.reset_heldAfter (inForce before)
  have hanswer : (q.heldAfter (inForce before)).answer w.value = q.answer w.value :=
    Property.answer_eq_of_reset_eq hreset w.value
  refine ⟨before, w, q, hw, hq, ?_, ?_, fun hv => ?_, fun hi => ?_, fun hu => ?_⟩
  · rw [Block.specified?, hentry, hs]
    rfl
  · rw [Block.isImportant, hentry]
    rfl
  · have hcommit := Property.commit_eq_ok_of_answer_eq_value hv
    refine ⟨_, hcommit, (Property.of_commit_eq_ok hcommit).1, ?_⟩
    rw [hproperty, Property.after_eq_of_settles hreset (hanswer.trans hv) rfl]
  · have hinitial := Registry.reset_of_fresh? hq
    refine ⟨hinitial, by rw [← hinitial, Property.status_reset], ?_⟩
    rw [hproperty, Property.after_eq_reset_of_answer_eq_initial (hanswer.trans hi), hreset, hinitial]
  · rw [hproperty]
    rcases hu with hu | hu <;> rw [Property.after_eq_self_of_not_settles (hanswer.trans hu) rfl]

/-- The built-in register is coherent. -/
theorem coherent_builtin : Registry.builtin.Coherent := by
  intro e he
  simp only [Registry.builtin, List.mem_cons, List.not_mem_nil, or_false] at he
  rcases he with rfl | rfl | rfl | rfl | rfl <;> decide

/-- An important `inherit` wins over the normal `initial` after it, although an important value that is refused stands between
them, and the property still holds the important value before it, not the normal one that was outranked. -/
theorem applyAll_entry_of_inherit :
    let ds : List Declaration :=
      [⟨"background-clip", .keyword "content-box", true⟩, ⟨"Background-Clip", .keyword "padding-box", false⟩,
        ⟨"BACKGROUND-CLIP", .keyword "inherit", true⟩, ⟨"background-clip", .keyword "bogus", true⟩,
        ⟨"background-clip", .keyword "initial", false⟩]
    let b := (Block.empty.applyAll .builtin ds).value.2
    Registry.builtin.Coherent ∧ b.specified? "background-clip" = some .inherit ∧
      b.isImportant "background-clip" = true ∧
      b.property? "background-clip" = some (.keyword .box ⟨backgroundClip, [BackgroundBox.content], .committed⟩) := by
  intro ds b
  obtain ⟨before, w, q, hw, hq, hspecified, himportant, -, -, hheld⟩ :=
    (applyAll_entry_of_winner coherent_builtin ds "background-clip").2 (by decide +kernel)
  have hw' : some ([⟨"background-clip", .keyword "content-box", true⟩, ⟨"Background-Clip", .keyword "padding-box", false⟩],
      ⟨"BACKGROUND-CLIP", .keyword "inherit", true⟩) = some (before, w) := hw
  have hq' : some (Property.keyword .box (.new backgroundClip)) = some q := hq
  obtain ⟨rfl, rfl⟩ := Prod.mk.inj (Option.some.inj hw')
  obtain rfl := Option.some.inj hq'
  exact ⟨coherent_builtin, hspecified, himportant, hheld (.inl (by decide))⟩

end StyleCheck
