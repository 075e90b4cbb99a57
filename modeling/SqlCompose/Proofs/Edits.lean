/-
  Edits — what the edits of a draft do, and what they leave when they fail.

  * `run_write`, `run_writeTo` and `run_onParameters_eq_ok_iff` say what the parts of
    a phrase do to a draft;
  * `Quiet` holds of an edit that changes parameters only, and `run_guarded` says
    that writing what a quiet edit gives fails only as that edit does;
  * `kept_of_write`: whatever a phrase is, if it fails the draft is `Kept`.
-/
import SqlCompose.Phrase

namespace SqlCompose

/-- The draft `d'` is `d`, or it has parameters that hold nothing where `d` has none. -/
inductive Draft.Kept (d : Draft) : Draft → Prop where
  | same : Kept d d
  | empty : d.parameters = none → Kept d (d.holding (.empty d.marking))

namespace Draft.Kept

variable {d d' : Draft} (h : d.Kept d')
include h

theorem marking_eq : d'.marking = d.marking := by cases h <;> rfl

theorem statement_eq : d'.statement = d.statement := by cases h <;> rfl

theorem compiled_eq : d'.compiled = d.compiled := by
  cases h with
  | same => rfl
  | empty hn =>
    rw [compiled, compiled, hn]
    rfl

theorem parameters_cases : d'.parameters = d.parameters ∨
    d.parameters = none ∧ d'.parameters = some (.empty d.marking) := by
  cases h with
  | same => exact .inl rfl
  | empty hn => exact .inr ⟨hn, rfl⟩

theorem ownParameters_eq : d'.ownParameters = d.ownParameters := by
  rcases h.parameters_cases with he | ⟨hn, he⟩
  · rw [ownParameters, he, h.marking_eq]
    rfl
  · rw [ownParameters, ownParameters, he, hn]
    rfl

end Draft.Kept

namespace Edit

/-! ## What the parts do -/

theorem run_requireClause (d : Draft) :
    requireClause.run d = match d.statement.current with
      | none => .error .noClause d
      | some _ => .ok () d := by
  show (do let _ ← ofExcept d.statement.requireCurrent : Edit Unit).run d = _
  unfold Statement.requireCurrent
  cases d.statement.current <;> rfl

theorem run_write (ts : List Text) (d : Draft) :
    (write ts).run d = match d.statement.current with
      | none => .error .noClause d
      | some k =>
        .ok () { d with statement := d.statement.setTokens k ((d.statement.tokens? k).getD [] ++ ts) } := by
  show (do let statement ← ofExcept (d.statement.append ts); set { d with statement } : Edit Unit).run d
    = _
  rw [Statement.append_eq]
  cases d.statement.current <;> rfl

theorem run_writeTo (k : Clause) (ts : List Text) (d : Draft) :
    (writeTo k ts).run d = match d.statement.tokens? k with
      | none => .error (.clauseNotOpen k) d
      | some us => .ok () { d with statement := d.statement.setTokens k (us ++ ts) } := by
  show (do let statement ← ofExcept (d.statement.appendTo k ts); set { d with statement } : Edit Unit).run
    d = _
  unfold Statement.appendTo
  cases d.statement.tokens? k <;> rfl

theorem run_onParameters_error {α : Type} {f : Parameters → Except Error (α × Parameters)}
    {d : Draft} {e : Error} (h : f d.ownParameters = .error e) :
    (onParameters f).run d = .error e (d.holding d.ownParameters) := by
  show (ofExcept (f d.ownParameters) >>= _ : Edit α).run (d.holding d.ownParameters) = _
  rw [h]
  rfl

theorem run_onParameters_ok {α : Type} {f : Parameters → Except Error (α × Parameters)} {d : Draft}
    {a : α} {q : Parameters} (h : f d.ownParameters = .ok (a, q)) :
    (onParameters f).run d = .ok a (d.holding q) := by
  show (ofExcept (f d.ownParameters) >>= _ : Edit α).run (d.holding d.ownParameters) = _
  rw [h]
  rfl

/-- A change of the parameters succeeds iff it does by itself. -/
theorem run_onParameters_eq_ok_iff {α : Type} {f : Parameters → Except Error (α × Parameters)}
    {d d' : Draft} {a : α} : (onParameters f).run d = .ok a d' ↔
      ∃ q, f d.ownParameters = .ok (a, q) ∧ d' = d.holding q := by
  constructor
  · intro h
    cases hf : f d.ownParameters with
    | error e => rw [run_onParameters_error hf] at h; cases h
    | ok r => rw [run_onParameters_ok hf] at h; cases h; exact ⟨_, rfl, rfl⟩
  · rintro ⟨q, hf, rfl⟩
    exact run_onParameters_ok hf

/-- All that taking a statement in can do: without slots it is only its text, and
    otherwise its parameters are merged. -/
theorem run_embed_cases {sub : Argument Source} {d d' : Draft} {t : Text}
    (h : (embed sub).run d = .ok t d') :
    ∃ raw o, sub = .given (.statement (.other raw o)) ∧
      ((∀ inner, o = some inner → inner.slotCount = 0) ∧ t = raw ∧ d' = d ∨
        ∃ inner q, o = some inner ∧ d.ownParameters.merge raw inner = .ok (t, q) ∧
          d' = d.holding q) := by
  unfold embed at h
  split at h
  · cases h
  · cases h
    exact ⟨_, none, rfl, .inl ⟨nofun, rfl, rfl⟩⟩
  · next raw inner =>
    refine ⟨raw, some inner, rfl, ?_⟩
    split at h
    · next h₀ =>
      cases h
      refine .inl ⟨?_, rfl, rfl⟩
      rintro _ ⟨⟩
      exact h₀
    · obtain ⟨q, hq, hd⟩ := run_onParameters_eq_ok_iff.1 h
      exact .inr ⟨inner, q, rfl, hq, hd⟩
  · cases h

theorem run_map_eq_ok {α β : Type} {x : Edit α} {f : α → β} {d d' : Draft} {b : β}
    (h : (do return f (← x)).run d = .ok b d') : ∃ a, x.run d = .ok a d' ∧ f a = b := by
  rw [EStateM.run_bind] at h
  cases hx : x.run d with
  | error e d'' => rw [hx] at h; cases h
  | ok a d'' => rw [hx] at h; cases h; exact ⟨a, rfl, rfl⟩

/-! ## Edits that write nothing -/

/-- An edit that changes parameters only, and keeps the draft if it fails. -/
def Quiet {α : Type} (x : Edit α) : Prop :=
  ∀ d, match x.run d with
    | .ok _ d' => d'.marking = d.marking ∧ d'.statement = d.statement
    | .error _ d' => d.Kept d'

variable {α β : Type}

theorem quiet_pure (a : α) : Quiet (pure a) := fun _ => ⟨rfl, rfl⟩

theorem quiet_throw (e : Error) : Quiet (throw e : Edit α) := fun _ => .same

theorem Quiet.map {x : Edit α} (h : Quiet x) (f : α → β) : Quiet (do return f (← x)) := by
  intro d
  have hd := h d
  rw [EStateM.run_bind]
  cases hx : x.run d with
  | ok a d' => rw [hx] at hd; exact hd
  | error e d' => rw [hx] at hd; exact hd

theorem quiet_onParameters (f : Parameters → Except Error (α × Parameters)) :
    Quiet (onParameters f) := by
  intro d
  cases hf : f d.ownParameters with
  | ok r =>
    rw [run_onParameters_ok hf]
    exact ⟨rfl, rfl⟩
  | error e =>
    rw [run_onParameters_error hf]
    obtain ⟨m, statement, _ | p⟩ := d
    · exact .empty rfl
    · exact .same

theorem quiet_embed (sub : Argument Source) : Quiet (embed sub) := by
  unfold embed
  split
  · exact quiet_throw _
  · exact quiet_pure _
  · split
    · exact quiet_pure _
    · exact quiet_onParameters _
  · exact quiet_throw _

/-- Writing what a quiet edit gives, if there is a clause to write to, fails only as
    that edit does. -/
theorem run_guarded (x : Edit α) (f : α → List Text) (d : Draft) (h : Quiet x) :
    (do requireClause; let a ← x; write (f a)).run d = match d.statement.current with
      | none => .error .noClause d
      | some k => match x.run d with
        | .error e d' => .error e d'
        | .ok a d' => .ok () { d' with
            statement := d.statement.setTokens k ((d.statement.tokens? k).getD [] ++ f a) } := by
  rw [EStateM.run_bind, run_requireClause]
  have hd := h d
  cases hk : d.statement.current with
  | none => rfl
  | some k =>
    show (do let a ← x; write (f a)).run d = _
    rw [EStateM.run_bind]
    cases hx : x.run d with
    | error e d' => rfl
    | ok a d' =>
      rw [hx] at hd
      obtain ⟨-, hs⟩ := hd
      simp only [run_write, hs, hk]

end Edit

/-! ## Phrases that fail -/

namespace Phrase

open Edit

theorem quiet_writtenArgument (a : Argument Source) : Quiet (writtenArgument a) := by
  cases a with
  | param g => exact quiet_onParameters fun p => p.allocate (.ofValue g.toValue)
  | given | column | value => exact quiet_pure _

theorem quiet_writtenArguments (as : List (Argument Source)) : Quiet (writtenArguments as) := by
  unfold writtenArguments
  split
  · exact quiet_pure _
  · exact (quiet_onParameters _).map _

theorem quiet_writtenCandidates (gs : List (Given Source)) : Quiet (writtenCandidates gs) := by
  unfold writtenCandidates
  split
  · exact (quiet_embed _).map _
  · split
    · exact quiet_throw _
    · exact (quiet_onParameters _).map _
  · exact (quiet_onParameters _).map _

theorem kept_of_write_tokens {d d' : Draft} {e : Error} {ts : List Text}
    (h : (Edit.write ts).run d = .error e d') : d.Kept d' := by
  rw [run_write] at h
  split at h
  · cases h; exact .same
  · cases h

theorem kept_of_writeTo {d d' : Draft} {e : Error} {k : Clause} {ts : List Text}
    (h : (writeTo k ts).run d = .error e d') : d.Kept d' := by
  rw [run_writeTo] at h
  split at h
  · cases h; exact .same
  · cases h

theorem kept_of_guarded {α : Type} {x : Edit α} {f : α → List Text} (hx : Quiet x) {d d' : Draft}
    {e : Error} (h : (do requireClause; let a ← x; Edit.write (f a)).run d = .error e d') :
    d.Kept d' := by
  rw [run_guarded x f d hx] at h
  have hd := hx d
  split at h
  · cases h; exact .same
  · split at h
    · next hr => rw [hr] at hd; cases h; exact hd
    · cases h

/-- **A phrase that fails keeps the draft.** -/
theorem kept_of_write {q : Phrase Source} {d d' : Draft} {e : Error}
    (h : q.write.run d = .error e d') : d.Kept d' := by
  cases q with
  | clause k => cases h
  | keyword w =>
    unfold write at h
    dsimp only at h
    split at h
    · exact kept_of_writeTo h
    · exact kept_of_write_tokens h
  | using_ columns =>
    unfold write at h
    dsimp only at h
    split at h
    · cases h; exact .same
    · exact kept_of_writeTo h
  | column path type label =>
    unfold write at h
    dsimp only at h
    split at h
    · cases h; exact .same
    · exact kept_of_write_tokens h
  | allColumns qualifier =>
    rcases qualifier with _ | (_ | ⟨c, n⟩) <;> exact kept_of_write_tokens h
  | table | literal | bare | verbatim => exact kept_of_write_tokens h
  | definition | subquery | existence => exact kept_of_guarded (quiet_embed _) h
  | membership candidates =>
    cases candidates with
    | nil => cases h; exact .same
    | cons g gs => exact kept_of_guarded (quiet_writtenCandidates _) h
  | param reference => exact kept_of_guarded (quiet_onParameters _) h
  | procedure | function => exact kept_of_guarded (quiet_writtenArguments _) h
  | aggregate => exact kept_of_guarded (quiet_writtenArgument _) h

end Phrase

end SqlCompose
