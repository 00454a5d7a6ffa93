import StyleCheck.Value.Basic

/-!
# Vocabularies

A vocabulary gives meanings to keywords. No two of its spellings are equal without regard to case, so that a keyword has at
most one meaning; several spellings may share a meaning, and the first of them is the one that is printed.
-/

namespace StyleCheck

/-- Keywords with their meanings, in a fixed order. -/
structure Vocabulary (α : Type) where
  entries : List (String × α)
  distinct : entries.Pairwise (fun a b => eqIgnoringCase a.1 b.1 = false)

/-- A spelling that stands in a vocabulary more than once. -/
structure DuplicateKeyword where
  spelling : String
  deriving DecidableEq, Repr

/-- The wording of a refused vocabulary. -/
def DuplicateKeyword.message (d : DuplicateKeyword) : String :=
  "duplicate keyword `" ++ d.spelling ++ "` in keyword table"

/-- The first spelling that stands again further on, without regard to case. -/
def firstDuplicate? {α : Type} : List (String × α) → Option String
  | [] => none
  | (spelling, _) :: rest =>
    if rest.any (fun e => eqIgnoringCase spelling e.1) then some spelling else firstDuplicate? rest

/-- A table without a duplicate has all its spellings distinct. -/
theorem pairwise_of_firstDuplicate? {α : Type} {entries : List (String × α)} (h : firstDuplicate? entries = none) :
    entries.Pairwise (fun a b => eqIgnoringCase a.1 b.1 = false) := by
  induction entries with
  | nil => exact List.Pairwise.nil
  | cons e rest ih =>
    rw [firstDuplicate?] at h
    split at h
    · simp at h
    · next hn =>
      refine List.pairwise_cons.2 ⟨fun b hb => ?_, ih h⟩
      simpa using fun hd => hn (List.any_eq_true.2 ⟨b, hb, hd⟩)

namespace Vocabulary

variable {α : Type}

/-- The vocabulary with the given entries, unless a spelling stands in them twice. -/
def ofEntries (entries : List (String × α)) : Except DuplicateKeyword (Vocabulary α) :=
  match h : firstDuplicate? entries with
  | some spelling => .error ⟨spelling⟩
  | none => .ok ⟨entries, pairwise_of_firstDuplicate? h⟩

/-- The meaning of a keyword, without regard to case. -/
def lookup (t : Vocabulary α) (text : String) : Option α :=
  (t.entries.find? (fun e => eqIgnoringCase e.1 text)).map Prod.snd

/-- The meaning of a value; only a keyword has one. -/
def project (t : Vocabulary α) (v : Value) : Option α := v.keyword?.bind t.lookup

/-- The first spelling with a meaning, by the equality that the meanings come with. A meaning that is not equal to itself has
none. -/
def spelling? [BEq α] (t : Vocabulary α) (a : α) : Option String :=
  (t.entries.find? (fun e => e.2 == a)).map Prod.fst

/-- All spellings, in order. -/
def spellings (t : Vocabulary α) : List String := t.entries.map Prod.fst

/-- The number of spellings. -/
def size (t : Vocabulary α) : Nat := t.entries.length

end Vocabulary

end StyleCheck
