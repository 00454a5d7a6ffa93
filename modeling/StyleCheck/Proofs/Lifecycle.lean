import StyleCheck.Proofs.Declaring

/-!
# The life of a property

A property is put back to its initial value, or given values in three ways: by `commit`, which says why it refuses one, by
`validate`, which records that, and by `declare`, which knows the keywords that every property takes. Whatever is asked of a
property one after the other, only the last request that has an effect counts: a property keeps no trace of the ones before it,
and what is refused leaves no trace at all. Main statement: `decidedByLast_keyword_lines`.
-/

namespace StyleCheck

/-- What can be asked of a property. -/
inductive Request where
  | reset
  | commit (v : Value)
  | validate (v : Value)
  | declare (v : Value)

/-- What a property replies to a request, apart from the events it records. -/
inductive Reply where
  | done
  | committed (result : Except Mismatch Unit)
  | validated (accepted : Bool)
  | declared (specified : Option Specified)

/-- Whether the value is the one keyword and nothing else, whatever its case. -/
def Value.isOnly (keyword : String) (v : Value) : Bool :=
  match v.components with
  | [.keyword text] => eqIgnoringCase text keyword
  | _ => false

/-- The effect of a request on a property with the given initial value and grammar: what is then held, and where it comes from.
A request for a value that is refused has no effect, and neither has declaring `inherit` or `unset`. -/
def Request.effect? {α : Type} (initial : List α) (read : Value → Except Mismatch (List α)) :
    Request → Option (List α × Status)
  | .reset => some (initial, .initial)
  | .commit v | .validate v => (read v).toOption.map (·, .committed)
  | .declare v =>
    if v.isOnly "initial" then some (initial, .initial)
    else if v.isOnly "inherit" || v.isOnly "unset" then none
    else (read v).toOption.map (·, .committed)

/-- The keywords that every property takes are known by their spelling, as the whole of a value. -/
theorem WideKeyword.ofValue?_eq (v : Value) :
    ofValue? v =
      if v.isOnly "initial" then some .initial
      else if v.isOnly "inherit" then some .inherit
      else if v.isOnly "unset" then some .unset
      else none := by
  unfold ofValue? Value.isOnly
  rcases v.components with _ | ⟨c, _ | ⟨d, rest⟩⟩
  · rfl
  · cases c with
    | keyword text =>
      simp only [Vocabulary.project, Value.keyword?, Option.bind_some, Vocabulary.lookup, vocabulary, List.find?_cons,
        List.find?_nil, eqIgnoringCase_comm text]
      cases eqIgnoringCase "initial" text with
      | true => rfl
      | false => cases eqIgnoringCase "inherit" text <;> cases eqIgnoringCase "unset" text <;> rfl
    | _ => rfl
  · cases c <;> rfl

namespace Property

/-- Answers a request: the reply, and the property then. -/
def serve (p : Property) : Request → Logged (Reply × Property)
  | .reset => return (.done, p.reset)
  | .commit v =>
    match p.commit v with
    | .ok q => return (.committed (.ok ()), q)
    | .error reason => return (.committed (.error reason), p)
  | .validate v => do
    let (accepted, q) ← p.validate v
    return (.validated accepted, q)
  | .declare v => do
    let (specified, q) ← p.declare v
    return (.declared specified, q)

/-- The property after a request. -/
def served (p : Property) (u : Request) : Property := (p.serve u).value.2

/-- The property after requests in order. -/
def servedAll (p : Property) (us : List Request) : Property := us.foldl served p

/-! ## Replies -/

/-- What a commit comes to depends on the grammar alone, not on what is held. -/
theorem commit_eq_of_reset_eq {p q : Property} (h : p.reset = q.reset) (v : Value) : p.commit v = q.commit v := by
  rw [← commit_reset p, h, commit_reset]

/-- Whether a value is accepted, and what is recorded of it, does not depend on what is held. -/
theorem validate_eq_of_reset_eq {p q : Property} (h : p.reset = q.reset) (v : Value) :
    (p.validate v).value.1 = (q.validate v).value.1 ∧ (p.validate v).log = (q.validate v).log := by
  unfold validate
  rw [commit_eq_of_reset_eq h, name_eq_of_reset_eq h]
  cases q.commit v <;> exact ⟨rfl, rfl⟩

/-- How a value is taken, and what is recorded of it, does not depend on what is held. -/
theorem declare_eq_of_reset_eq {p q : Property} (h : p.reset = q.reset) (v : Value) :
    (p.declare v).value.1 = (q.declare v).value.1 ∧ (p.declare v).log = (q.declare v).log := by
  obtain ⟨haccepted, hlog⟩ := validate_eq_of_reset_eq h v
  unfold declare
  cases WideKeyword.ofValue? v with
  | some k => cases k <;> exact ⟨rfl, rfl⟩
  | none => simp [haccepted, hlog]

/-- A reply, and the events recorded with it, do not depend on what is held. -/
theorem serve_eq_of_reset_eq {p q : Property} (h : p.reset = q.reset) (u : Request) :
    (p.serve u).value.1 = (q.serve u).value.1 ∧ (p.serve u).log = (q.serve u).log := by
  cases u with
  | reset => exact ⟨rfl, rfl⟩
  | commit v =>
    simp only [serve, commit_eq_of_reset_eq h]
    cases q.commit v <;> exact ⟨rfl, rfl⟩
  | validate v =>
    obtain ⟨haccepted, hlog⟩ := validate_eq_of_reset_eq h v
    simp [serve, haccepted, hlog]
  | declare v =>
    obtain ⟨hspecified, hlog⟩ := declare_eq_of_reset_eq h v
    simp [serve, hspecified, hlog]

/-! ## What is held -/

/-- The property after a value is accepted or refused. -/
theorem value_validate_snd (p : Property) (v : Value) : (p.validate v).value.2 = (p.commit v).toOption.getD p := by
  unfold validate
  cases p.commit v <;> rfl

end Property

/-- Properties that differ only in what they hold: `hold` puts values and their status into one of them, and each has the same
initial value and the same grammar. -/
structure SameGrammar {α : Type} (hold : List α → Status → Property) (initial : List α)
    (read : Value → Except Mismatch (List α)) : Prop where
  reset : ∀ values status, (hold values status).reset = hold initial .initial
  commit : ∀ values status v, (hold values status).commit v = (read v).map (hold · .committed)

namespace SameGrammar

/-- Properties held as keywords share the grammar that reads them. -/
theorem keyword (kind : Kind) (g : Grammar kind.Meaning) :
    SameGrammar (fun values status => .keyword kind ⟨g, values, status⟩) [g.initial] g.read where
  reset _ _ := rfl
  commit _ _ v := by
    simp only [Property.commit, KeywordProperty.commit]
    cases g.read v <;> rfl

/-- Lines share the grammar that reads them. -/
theorem lines : SameGrammar (fun lines status => .lines ⟨lines, status⟩) [] Line.read where
  reset _ _ := rfl
  commit _ _ v := by
    simp only [Property.commit, LineProperty.commit]
    cases Line.read v <;> rfl

variable {α : Type} {hold : List α → Status → Property} {initial : List α} {read : Value → Except Mismatch (List α)}

/-- After a commit the property holds what was read, or what it held before if nothing was. -/
theorem getD_commit (h : SameGrammar hold initial read) (values : List α) (status : Status) (v : Value) :
    ((hold values status).commit v).toOption.getD (hold values status) =
      ((read v).toOption.map (·, Status.committed)).elim (hold values status) fun e => hold e.1 e.2 := by
  rw [h.commit]
  cases read v <;> rfl

/-- One request: its effect takes the place of what is held, and without an effect nothing changes. -/
theorem served (h : SameGrammar hold initial read) (values : List α) (status : Status) (u : Request) :
    (hold values status).served u = (u.effect? initial read).elim (hold values status) fun e => hold e.1 e.2 := by
  cases u with
  | reset => exact h.reset values status
  | commit v =>
    rw [Request.effect?, ← h.getD_commit, Property.served, Property.serve]
    cases (hold values status).commit v <;> rfl
  | validate v => rw [Request.effect?, ← h.getD_commit, ← Property.value_validate_snd]; rfl
  | declare v =>
    rw [Request.effect?, Property.served, Property.serve, Property.declare, WideKeyword.ofValue?_eq]
    cases v.isOnly "initial" with
    | true => exact h.reset values status
    | false =>
      cases v.isOnly "inherit" with
      | true => rfl
      | false =>
        cases v.isOnly "unset" with
        | true => rfl
        | false =>
          simp only [Bool.or_self, Bool.false_eq_true, if_false]
          rw [← h.getD_commit, ← Property.value_validate_snd]
          rfl

/-- Requests in order: what is held is as the last request with an effect would have left a new property, and what was held before
if there is none. -/
theorem servedAll (h : SameGrammar hold initial read) (values : List α) (status : Status) (us : List Request) :
    (hold values status).servedAll us =
      ((us.filter fun u => (u.effect? initial read).isSome).getLast?).elim (hold values status)
        (hold initial .initial).served := by
  -- each request starts from where the one before it has left the property
  induction us generalizing values status with
  | nil => rfl
  | cons u us ih =>
    have hstep : (hold values status).servedAll (u :: us) = ((hold values status).served u).servedAll us := rfl
    rw [hstep, h.served]
    cases he : u.effect? initial read with
    | none =>
      rw [List.filter_cons_of_neg (by simp [he])]
      exact ih values status
    | some e =>
      have hnew : (hold initial .initial).served u = hold e.1 e.2 := by rw [h.served, he]; rfl
      rw [List.filter_cons_of_pos (by simp [he]), List.getLast?_cons]
      refine (ih e.1 e.2).trans ?_
      cases (us.filter fun u => (u.effect? initial read).isSome).getLast? with
      | none => exact hnew.symm
      | some w => rfl

end SameGrammar

/-- What a property does over its life, for properties made by `hold` that start with the value `initial` and take the values that
`read` takes. -/
structure DecidedByLast {α : Type} (hold : List α → Status → Property) (initial : List α)
    (read : Value → Except Mismatch (List α)) : Prop where
  /-- After any requests a new property is as the last of them with an effect would have left it alone, and still new if none had
  one. -/
  last : ∀ us, (hold initial .initial).servedAll us =
    ((us.filter fun u => (u.effect? initial read).isSome).getLast?).elim (hold initial .initial) (hold initial .initial).served
  /-- A request that has an effect leaves exactly that in a new property. -/
  alone : ∀ u values status, u.effect? initial read = some (values, status) →
    (hold initial .initial).served u = hold values status
  /-- Replies and records are those of a new property, whatever is held. -/
  replies : ∀ u values status, ((hold values status).serve u).value.1 = ((hold initial .initial).serve u).value.1 ∧
    ((hold values status).serve u).log = ((hold initial .initial).serve u).log

/-- Under one grammar the last request with an effect decides. -/
theorem SameGrammar.decidedByLast {α : Type} {hold : List α → Status → Property} {initial : List α}
    {read : Value → Except Mismatch (List α)} (h : SameGrammar hold initial read) : DecidedByLast hold initial read where
  last := h.servedAll initial .initial
  alone u values status hu := by rw [h.served, hu]; rfl
  replies u values status := by
    refine Property.serve_eq_of_reset_eq ?_ u
    rw [h.reset, h.reset]

/-- The life of a property of keywords under any grammar, and of the property of lines. -/
theorem decidedByLast_keyword_lines :
    (∀ (kind : Kind) (g : Grammar kind.Meaning),
      DecidedByLast (fun values status => .keyword kind ⟨g, values, status⟩) [g.initial] g.read) ∧
    DecidedByLast (fun lines status => .lines ⟨lines, status⟩) [] Line.read :=
  ⟨fun kind g => (SameGrammar.keyword kind g).decidedByLast, SameGrammar.lines.decidedByLast⟩

/-- A style that was committed is given up for `initial`, and stays given up: `inherit` has no effect, `initial` is no style by
itself, and `initial` among other components is none of the keywords that every property takes. Lines that are committed after
`initial` stay, since what comes after them is refused or is `unset`. -/
theorem decidedByLast_keyword_lines_initial :
    let style := Property.keyword .lineStyle (.new textDecorationStyle)
    let lines := Property.lines .new
    style.servedAll [.declare (.keyword "WAVY"), .declare (.list [.keyword "Initial"]), .declare (.keyword "INHERIT"),
        .commit (.keyword "initial"), .declare (.list [.keyword "initial", .keyword "wavy"])] = style ∧
      lines.servedAll [.declare (.keyword "initial"), .validate (.list [.keyword "blink", .keyword "Overline"]),
        .declare (.keyword "unset"), .validate (.keyword "inherit"), .commit (.list [])] =
          .lines ⟨[.blink, .overline], .committed⟩ := by
  intro style lines
  obtain ⟨hkeyword, hlines⟩ := decidedByLast_keyword_lines
  exact ⟨((hkeyword .lineStyle textDecorationStyle).last _).trans rfl, (hlines.last _).trans rfl⟩

end StyleCheck
