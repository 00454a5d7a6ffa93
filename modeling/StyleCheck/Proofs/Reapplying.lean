import StyleCheck.Proofs.Distinct

/-!
# Declarations applied a second time

Applying declarations again finds other entries than the first time: what was normal may have become important, and a property
under `inherit` still holds what an earlier declaration left in it. Yet nothing changes. A block comes from the history of all
declarations applied to it, and to apply the last of them again only repeats the end of what already came into force
(`exists_inForce_again`), so that every property keeps its entry; and a block with names of its own is known by the order of its
names and by its entries (`eq_of_entry?_eq`). Main statement: `applyAll_again`.
-/

namespace StyleCheck

/-! ## What comes into force the second time -/

/-- After an important declaration only the important ones come into force. -/
theorem inForce_append (xs ys : List Declaration) :
    inForce (xs ++ ys) = inForce xs ++ if xs.any (·.important) then ys.filter (·.important) else inForce ys := by
  induction xs with
  | nil => rfl
  | cons x xs ih =>
    rw [List.cons_append, inForce_cons, inForce_cons, List.any_cons, ih]
    cases x.important with
    | true => simp
    | false => simp

/-- The important declarations are the last of those in force. -/
theorem filter_important_suffix_inForce (ds : List Declaration) : ds.filter (·.important) <:+ inForce ds := by
  induction ds with
  | nil => exact List.suffix_refl _
  | cons d ds ih =>
    rw [inForce_cons]
    cases hd : d.important with
    | true =>
      rw [List.filter_cons_of_pos hd]
      exact List.suffix_refl _
    | false =>
      rw [List.filter_cons_of_neg (by simp [hd])]
      exact ih.trans (List.suffix_cons _ _)

/-- What comes into force when the last declarations are applied again is what came into force last. -/
theorem exists_inForce_again (xs ys : List Declaration) :
    ∃ again, again <:+ inForce (xs ++ ys) ∧ inForce (xs ++ ys ++ ys) = inForce (xs ++ ys) ++ again := by
  refine ⟨_, ?_, inForce_append (xs ++ ys) ys⟩
  rw [inForce_append xs ys, List.any_append]
  cases hx : xs.any (·.important) with
  | true =>
    -- an important declaration stood before both passes
    exact List.suffix_append _ _
  | false =>
    cases hy : ys.any (·.important) with
    | true =>
      -- the first pass made the property important, and the second pass skips what is normal
      exact (filter_important_suffix_inForce ys).trans (List.suffix_append _ _)
    | false => exact List.suffix_append _ _

theorem getLast?_append_of_suffix {α : Type} {xs ys : List α} (h : ys <:+ xs) : (xs ++ ys).getLast? = xs.getLast? := by
  obtain ⟨before, rfl⟩ := h
  rw [List.getLast?_append, List.getLast?_append]
  cases ys.getLast? <;> rfl

namespace Property

/-- Declarations repeated from some place to the end leave what is held. -/
theorem heldAfter_append_of_suffix (q : Property) {ds again : List Declaration} (h : again <:+ ds) :
    q.heldAfter (ds ++ again) = q.heldAfter ds := by
  unfold heldAfter
  rw [List.filter_append, getLast?_append_of_suffix (h.filter _)]

/-- The end of a history, repeated, makes no other entry. -/
theorem entryAfter?_append_of_suffix (q : Property) {ds again : List Declaration} (h : again <:+ ds) :
    q.entryAfter? (ds ++ again) = q.entryAfter? ds := by
  unfold entryAfter?
  rw [getLast?_append_of_suffix h, q.heldAfter_append_of_suffix h]

end Property

namespace Block

/-! ## A block and its history -/

/-- Whatever was called, the block is that of some declarations applied in order. -/
theorem exists_appliedAll_of_calledAll (r : Registry) (calls : List Call) :
    ∃ ds, empty.calledAll r calls = empty.appliedAll r ds := by
  refine calledAll_induction (P := fun b => ∃ ds, b = empty.appliedAll r ds) ⟨[], rfl⟩ ?_
  rintro c - d - b ⟨ds, rfl⟩
  exact ⟨ds ++ [d], (appliedAll_concat r empty ds d).symm⟩

/-- A second pass leaves every entry as it was. -/
theorem entry?_appliedAll_again {r : Registry} (hr : r.Coherent) (history ds : List Declaration) (name : String) :
    entry? (empty.appliedAll r (history ++ ds ++ ds)) name = entry? (empty.appliedAll r (history ++ ds)) name := by
  rw [entry?_appliedAll hr, entry?_appliedAll hr]
  simp only [Registry.accepted, List.filter_append]
  obtain ⟨again, hsuffix, hforce⟩ :=
    exists_inForce_again (history.filter (r.accepts name)) (ds.filter (r.accepts name))
  cases r.fresh? name with
  | none => rfl
  | some q => rw [Option.bind_some, Option.bind_some, hforce, q.entryAfter?_append_of_suffix hsuffix]

/-! ## A block and its entries -/

/-- Applying declarations keeps the names and their order, and adds new ones at the end. -/
theorem names_prefix_appliedAll (r : Registry) (b : Block) (ds : List Declaration) : b.names <+: (b.appliedAll r ds).names := by
  induction ds generalizing b with
  | nil => exact List.prefix_refl _
  | cons d ds ih =>
    rw [appliedAll_cons]
    refine List.IsPrefix.trans ?_ (ih (b.applied r d))
    rcases b.names_applied r d with h | ⟨q, -, -, h⟩
    · exact h ▸ List.prefix_refl _
    · exact h ▸ List.prefix_append _ _

/-- Under a coherent register no two entries of a block share a name. -/
theorem distinctNames_appliedAll {r : Registry} (hr : r.Coherent) (ds : List Declaration) :
    DistinctNames (empty.appliedAll r ds).names := by
  induction ds using List.reverseRecOn with
  | nil => exact List.Pairwise.nil
  | append_singleton ds d ih =>
    rw [appliedAll_concat]
    exact distinctNames_applied hr d ih

/-- Where names are distinct, every entry is found under its own name. -/
theorem entry?_of_mem {b : Block} (hb : DistinctNames b.names) {e : Entry} (he : e ∈ b.entries) :
    b.entry? e.property.name = some e := by
  obtain ⟨entries⟩ := b
  unfold entry?
  induction entries with
  | nil => cases he
  | cons x rest ih =>
    obtain ⟨hx, hrest⟩ := List.pairwise_cons.1 hb
    rcases List.mem_cons.1 he with rfl | he
    · exact List.find?_cons_of_pos (eqIgnoringCase_refl _)
    · have hother : x.isNamed e.property.name = false := hx _ (List.mem_map.2 ⟨e, he, rfl⟩)
      rw [List.find?_cons_of_neg (by simp [hother])]
      exact ih hrest he

/-- If the names differ, each finds its own entry. -/
theorem map_entry?_names {b : Block} (hb : DistinctNames b.names) : b.names.map b.entry? = b.entries.map some := by
  rw [names, List.map_map]
  exact List.map_congr_left fun e he => entry?_of_mem hb he

/-- A block that starts with the names of another, has names of its own and finds the same entries is the other. -/
theorem eq_of_entry?_eq {b c : Block} (hnames : b.names <+: c.names) (hc : DistinctNames c.names)
    (hentry : ∀ name, c.entry? name = b.entry? name) : c = b := by
  obtain ⟨more, hmore⟩ := hnames
  rw [← hmore] at hc
  obtain ⟨hb, -, hapart⟩ := List.pairwise_append.1 hc
  -- a further name would have an entry in both blocks, and so be one of the first names as well
  have hnil : more = [] := by
    refine List.eq_nil_iff_forall_not_mem.2 fun name hname => ?_
    have hnone : c.entry? name = none := by
      rw [hentry, entry?_eq_none_iff]
      exact fun n hn => hapart n hn name hname
    rw [entry?_eq_none_iff] at hnone
    have hself := hnone name (hmore ▸ List.mem_append_right _ hname)
    rw [eqIgnoringCase_refl] at hself
    cases hself
  rw [hnil, List.append_nil] at hmore
  have hentries : c.entries.map some = b.entries.map some := by
    rw [← map_entry?_names (hmore ▸ hb), ← map_entry?_names hb, hmore]
    exact List.map_congr_left fun name _ => hentry name
  obtain ⟨centries⟩ := c
  obtain ⟨bentries⟩ := b
  exact congrArg Block.mk ((List.map_inj_right fun _ _ => Option.some.inj).1 hentries)

end Block

/-- Declarations that were just applied change nothing when all of them are applied again, whatever was called on the block
before: all entries stay, in their order, with what they hold, how it was given and whether that was important. -/
theorem applyAll_again {r : Registry} (hr : r.Coherent) (calls : List Call) (ds : List Declaration) :
    let once := ((Block.empty.calledAll r calls).applyAll r ds).value.2
    (once.applyAll r ds).value.2 = once := by
  intro once
  obtain ⟨history, hhistory⟩ := Block.exists_appliedAll_of_calledAll r calls
  have honce : once = Block.empty.appliedAll r (history ++ ds) := by
    rw [Block.appliedAll_append, ← hhistory]
    rfl
  have htwice : (once.applyAll r ds).value.2 = Block.empty.appliedAll r (history ++ ds ++ ds) := by
    rw [Block.appliedAll_append, ← honce]
    rfl
  rw [htwice, honce]
  refine Block.eq_of_entry?_eq ?_ (Block.distinctNames_appliedAll hr _) (Block.entry?_appliedAll_again hr history ds)
  rw [Block.appliedAll_append r Block.empty (history ++ ds)]
  exact Block.names_prefix_appliedAll r _ ds

/-- The second time a normal value is outranked that came into force the first time, and the property still holds it under the
important `unset` after it. -/
theorem applyAll_again_outranked :
    let calls : List Call := [.apply ⟨"background-clip", .keyword "content-box", false⟩]
    let ds : List Declaration :=
      [⟨"Background-Clip", .keyword "padding-box", false⟩, ⟨"background-clip", .keyword "unset", true⟩,
        ⟨"background-clip", .keyword "border-box", false⟩]
    let once := (Block.empty.calledAll .builtin calls).applyAll .builtin ds
    let twice := once.value.2.applyAll .builtin ds
    Registry.builtin.Coherent ∧ once.value.1 = [true, true, false] ∧ twice.value.1 = [false, true, false] ∧
      twice.value.2 = once.value.2 ∧
      twice.value.2.property? "background-clip" =
        some (.keyword .box ⟨backgroundClip, [BackgroundBox.padding], .committed⟩) := by
  intro calls ds once twice
  have hsame : twice.value.2 = once.value.2 := applyAll_again coherent_builtin calls ds
  refine ⟨coherent_builtin, by decide +kernel, by decide +kernel, hsame, ?_⟩
  rw [hsame]
  rfl

end StyleCheck
