/-
  Atomicity — a call that fails changes nothing that can be seen.

  All that a failure can leave behind are parameters in which nothing is declared, where
  there were none.  Whether these are there makes no difference to any call.

  * `Draft.supplied` is a draft with its parameters there, and `Edit.Indifferent` holds of
    edits that do the same to both; `indifferent_write`: all phrases are such edits;
  * `Source.Alike` relates what others see of both, and `respond_congr` says that no call
    depends on it;
  * `replies_supplied`: so drafts answer every run of calls in the same way, whether they
    are supplied or not;
  * `kept_of_respond`: a call that fails keeps the draft, and `failure_changes_nothing` is
    what can be seen of that.
-/
import SqlCompose.Proofs.Forgetting

namespace SqlCompose

/-! ## Drafts with parameters -/

namespace Draft

/-- The draft with its parameters there, whether they were asked for or not. -/
def supplied (d : Draft) : Draft := d.holding d.ownParameters

theorem statement_supplied (d : Draft) : d.supplied.statement = d.statement := rfl

theorem Kept.supplied_eq {d d' : Draft} (h : d.Kept d') : d'.supplied = d.supplied := by
  unfold supplied
  rw [h.ownParameters_eq, holding, h.marking_eq, h.statement_eq]
  rfl

theorem compiled_supplied (d : Draft) : d.supplied.compiled = d.compiled := by
  unfold compiled supplied ownParameters
  cases d.parameters with
  | none => rfl
  | some p => rfl

end Draft

/-! ## Edits that make no difference -/

namespace Edit

variable {α β : Type}

/-- The edit does the same to a draft whether its parameters are there or not. -/
def Indifferent (x : Edit α) : Prop :=
  ∀ d, x.run d.supplied = match x.run d with
    | .ok a d' => .ok a d'.supplied
    | .error e d' => .error e d'.supplied

theorem indifferent_pure (a : α) : Indifferent (pure a) := fun _ => rfl

theorem indifferent_throw (e : Error) : Indifferent (throw e : Edit α) := fun _ => rfl

theorem Indifferent.bind {x : Edit α} {f : α → Edit β} (hx : x.Indifferent)
    (hf : ∀ a, (f a).Indifferent) : Indifferent (x >>= f) := by
  intro d
  rw [EStateM.run_bind, EStateM.run_bind, hx d]
  cases x.run d with
  | ok a d' => exact hf a d'
  | error e d' => rfl

theorem indifferent_start (k : Clause) : Indifferent (start k) := fun _ => rfl

theorem indifferent_requireClause : Indifferent requireClause := by
  intro d
  rw [run_requireClause, run_requireClause, d.statement_supplied]
  cases d.statement.current <;> rfl

theorem indifferent_write (ts : List Text) : Indifferent (write ts) := by
  intro d
  rw [run_write, run_write, d.statement_supplied]
  cases d.statement.current <;> rfl

theorem indifferent_writeTo (k : Clause) (ts : List Text) : Indifferent (writeTo k ts) := by
  intro d
  rw [run_writeTo, run_writeTo, d.statement_supplied]
  cases d.statement.tokens? k <;> rfl

theorem indifferent_onParameters (f : Parameters → Except Error (α × Parameters)) :
    Indifferent (onParameters f) := by
  intro d
  cases hf : f (d.ownParameters) with
  | error e =>
    rw [run_onParameters_error hf]
    exact run_onParameters_error hf
  | ok r =>
    rw [run_onParameters_ok hf]
    exact run_onParameters_ok hf

theorem indifferent_embed (sub : Argument Source) : Indifferent (embed sub) := by
  unfold embed
  split
  · exact indifferent_throw _
  · exact indifferent_pure _
  · split
    · exact indifferent_pure _
    · exact indifferent_onParameters _
  · exact indifferent_throw _

/-- Writing what an indifferent edit gives. -/
theorem Indifferent.guarded {x : Edit α} (hx : x.Indifferent) (f : α → List Text) :
    Indifferent (do requireClause; let a ← x; write (f a)) :=
  indifferent_requireClause.bind fun _ => hx.bind fun a => indifferent_write (f a)

end Edit

namespace Phrase

open Edit

theorem indifferent_writtenArguments (as : List (Argument Source)) :
    Indifferent (writtenArguments as) := by
  unfold writtenArguments
  split
  · exact (indifferent_pure _).bind fun _ => indifferent_pure _
  · exact (indifferent_onParameters _).bind fun _ => indifferent_pure _

theorem indifferent_writtenArgument (a : Argument Source) : Indifferent (writtenArgument a) := by
  cases a with
  | param g => exact indifferent_onParameters fun p => p.allocate (.ofValue g.toValue)
  | given | column | value => exact indifferent_pure _

theorem indifferent_writtenCandidates (gs : List (Given Source)) :
    Indifferent (writtenCandidates gs) := by
  unfold writtenCandidates
  split
  · exact (indifferent_embed _).bind fun _ => indifferent_pure _
  · split
    · exact indifferent_throw _
    · exact (indifferent_onParameters _).bind fun _ => indifferent_pure _
  · exact (indifferent_onParameters _).bind fun _ => indifferent_pure _

/-- **A phrase does the same to a draft whether its parameters are there or not.** -/
theorem indifferent_write (q : Phrase Source) : Indifferent q.write := by
  cases q with
  | clause k => exact indifferent_start k
  | keyword w =>
    unfold write
    dsimp only
    split
    · exact indifferent_writeTo _ _
    · exact Edit.indifferent_write _
  | using_ columns =>
    unfold write
    dsimp only
    split
    · exact indifferent_throw _
    · exact indifferent_writeTo _ _
  | column path type label =>
    unfold write
    dsimp only
    split
    · exact indifferent_throw _
    · exact Edit.indifferent_write _
  | allColumns qualifier =>
    rcases qualifier with _ | (_ | ⟨c, n⟩) <;> exact Edit.indifferent_write _
  | table | literal | bare | verbatim => exact Edit.indifferent_write _
  | definition | subquery | existence => exact (indifferent_embed _).guarded _
  | membership candidates =>
    cases candidates with
    | nil => exact indifferent_throw _
    | cons g gs => exact (indifferent_writtenCandidates _).guarded _
  | param reference => exact (indifferent_onParameters _).guarded _
  | procedure | function => exact (indifferent_writtenArguments _).guarded _
  | aggregate => exact (indifferent_writtenArgument _).guarded _

end Phrase

namespace Draft

variable (d : Draft)

/-- What is answered, and the draft supplied with its parameters. -/
def alsoSupplied {α : Type} (r : Except Error α × Draft) : Except Error α × Draft :=
  (r.1, r.2.supplied)

theorem say_supplied (q : Phrase Source) : d.supplied.say q = alsoSupplied (d.say q) := by
  unfold say
  rw [q.indifferent_write d]
  cases q.write.run d <;> rfl

theorem page_supplied (k : Clause) (g : Given Source) :
    d.supplied.page k g = alsoSupplied (d.page k g) :=
  let d' := { d with statement := d.statement.start k }
  d'.say_supplied (.bare (g.reread d'.raw))

theorem assign_supplied {r r' : Except Error Draft} (h : r' = r.map supplied) :
    d.supplied.assign r' = alsoSupplied (d.assign r) := by
  rw [h]
  cases r <;> rfl

theorem setParam_supplied (reference value : Value) :
    d.supplied.setParam reference value = (d.setParam reference value).map supplied := by
  obtain ⟨m, statement, o⟩ := d
  cases o with
  | none => rfl
  | some p =>
    show (p.set reference value).map _ = ((p.set reference value).map _).map _
    cases p.set reference value <;> rfl

theorem setParams_supplied (values : List Value) :
    d.supplied.setParams values = (d.setParams values).map supplied := by
  obtain ⟨m, statement, o⟩ := d
  cases o with
  | none => cases values <;> rfl
  | some p =>
    show (p.setAll values).map _ = ((p.setAll values).map _).map _
    cases p.setAll values <;> rfl

theorem clearParams_supplied : d.supplied.clearParams = d.clearParams.supplied := by
  obtain ⟨m, statement, o⟩ := d
  cases o <;> rfl

/-- **A draft answers every call in the same way whether its parameters are there or
    not**, and so it does afterwards. -/
theorem respond_supplied (c : Call Source) :
    d.supplied.respond c = alsoSupplied (d.respond c) := by
  cases c with
  | say q => exact congrArg acknowledge (d.say_supplied q)
  | page k g => exact congrArg acknowledge (d.page_supplied k g)
  | setParam reference value =>
    exact congrArg acknowledge (d.assign_supplied (d.setParam_supplied _ _))
  | setParams values => exact congrArg acknowledge (d.assign_supplied (d.setParams_supplied _))
  | clearParams =>
    have hclear : (.ok d.supplied.clearParams : Except Error Draft) =
        (Except.ok d.clearParams).map supplied := congrArg Except.ok d.clearParams_supplied
    exact congrArg acknowledge (d.assign_supplied hclear)
  | compiled pretty =>
    show (d.supplied.compiled.map _, _) = _
    rw [d.compiled_supplied]
    rfl
  | raw | quoted | marking => rfl

end Draft

/-! ## What others see -/

/-- The same statement for those who take it in: parameters in which nothing is declared
    may be there or not. -/
inductive Source.Alike : Source → Source → Prop where
  | refl (s : Source) : Alike s s
  | supplied (raw : Text) (m : Marking) : Alike (.other raw none) (.other raw (some (.empty m)))

section
variable {f g : Text → Source} (h : ∀ r, (f r).Alike (g r))
include h

theorem toValue_congr (a : Given Text) : (a.map f).toValue = (a.map g).toValue := by
  cases a with
  | value v => rfl
  | statement r =>
    have hr := h r
    show Value.statement (f r).raw = Value.statement (g r).raw
    generalize f r = s, g r = s' at hr
    cases hr <;> rfl

theorem reread_congr (a : Given Text) (t : Text) :
    ((a.map f).reread t).toValue = ((a.map g).reread t).toValue := by
  cases a with
  | value v => rfl
  | statement r =>
    have hr := h r
    show ((Given.statement (f r)).reread t).toValue = ((Given.statement (g r)).reread t).toValue
    generalize f r = s, g r = s' at hr
    cases hr <;> rfl

theorem embed_congr (a : Argument Text) : Edit.embed (a.map f) = Edit.embed (a.map g) := by
  cases a with
  | column | value | param => rfl
  | given b =>
    cases b with
    | value v => rfl
    | statement r =>
      have hr := h r
      show Edit.embed (.given (.statement (f r))) = Edit.embed (.given (.statement (g r)))
      generalize f r = s, g r = s' at hr
      cases hr <;> rfl

theorem toValues_congr (as : List (Given Text)) :
    (as.map (·.map f)).map (·.toValue) = (as.map (·.map g)).map (·.toValue) := by
  simp only [List.map_map, Function.comp_def, toValue_congr h]

namespace Phrase

theorem declarations_congr (as : List (Argument Text)) :
    declarations (as.map (·.map f)) = declarations (as.map (·.map g)) := by
  unfold declarations
  rw [List.filterMap_map, List.filterMap_map]
  congr 1
  funext a
  cases a with
  | param b => exact congrArg (fun v => some (Declaration.ofValue v)) (toValue_congr h b)
  | given | column | value => rfl

theorem argumentText_congr (a : Argument Text) : argumentText (a.map f) = argumentText (a.map g) := by
  cases a with
  | given b => exact congrArg Value.display (toValue_congr h b)
  | value b => exact congrArg Value.literal (toValue_congr h b)
  | column | param => rfl

theorem argumentTexts_congr (ms : List Text) (as : List (Argument Text)) :
    argumentTexts ms (as.map (·.map f)) = argumentTexts ms (as.map (·.map g)) := by
  induction as generalizing ms with
  | nil => cases ms <;> rfl
  | cons a as ih =>
    have ha := argumentText_congr h a
    cases a with
    | param b =>
      cases ms with
      | nil => exact congrArg₂ List.cons ha (ih [])
      | cons m ms => exact congrArg (List.cons m) (ih ms)
    | given | column | value => cases ms <;> exact congrArg₂ List.cons ha (ih _)

theorem writtenArguments_congr (as : List (Argument Text)) :
    writtenArguments (as.map (·.map f)) = writtenArguments (as.map (·.map g)) := by
  simp only [writtenArguments, declarations_congr h, argumentTexts_congr h]

theorem writtenArgument_congr (a : Argument Text) :
    writtenArgument (a.map f) = writtenArgument (a.map g) := by
  have ha := argumentText_congr h a
  cases a with
  | param b => exact congrArg (fun v => Edit.declare (.ofValue v)) (toValue_congr h b)
  | given | column | value => exact congrArg pure ha

theorem writtenCandidates_congr (as : List (Given Text)) :
    writtenCandidates (as.map (·.map f)) = writtenCandidates (as.map (·.map g)) := by
  have hall : (as.map (·.map f)).map (fun a => Declaration.ofValue a.toValue) =
      (as.map (·.map g)).map fun a => Declaration.ofValue a.toValue := by
    simp only [List.map_map, Function.comp_def, toValue_congr h]
  have hlist := congrArg (fun ds => (do return Fragment.list (← Edit.declareAll ds) : Edit Text)) hall
  rcases as with _ | ⟨a, _ | ⟨b, as⟩⟩
  · exact hlist
  · cases a with
    | statement r =>
      exact congrArg (fun x : Edit Text => (do return Fragment.group (← x) : Edit Text))
        (embed_congr h (.given (.statement r)))
    | value v => rfl
  · cases a with
    | statement r => exact hlist
    | value v => cases v <;> exact hlist

/-- No phrase depends on whether the parameters of others are there. -/
theorem write_congr (q : Phrase Text) : (q.map f).write = (q.map g).write := by
  cases q with
  | literal a | bare a | param a => simp only [map, write, toValue_congr h]
  | definition sub | subquery sub | existence sub => simp only [map, write, embed_congr h]
  | membership as =>
    simp only [map, write, writtenCandidates_congr h, List.isEmpty_map]
  | procedure name as => simp only [map, write, writtenArguments_congr h]
  | function name type label as => simp only [map, write, writtenArguments_congr h]
  | aggregate name type label distinct a => simp only [map, write, writtenArgument_congr h]
  | _ => rfl

end Phrase

/-- **No answer depends on whether the parameters of others are there.** -/
theorem respond_congr (d : Draft) (c : Call Text) : d.respond (c.map f) = d.respond (c.map g) := by
  cases c with
  | say q =>
    show Draft.acknowledge (d.say (q.map f)) = Draft.acknowledge (d.say (q.map g))
    simp only [Draft.say, q.write_congr h]
  | page k a =>
    show Draft.acknowledge (d.page k (a.map f)) = Draft.acknowledge (d.page k (a.map g))
    simp only [Draft.page, Draft.say, Phrase.write, reread_congr h]
  | setParam a b => simp only [Call.map, Draft.respond, toValue_congr h]
  | setParams as => simp only [Call.map, Draft.respond, toValues_congr h]
  | _ => rfl

end

namespace Drafts

/-- All drafts with their parameters there. -/
def supplied (s : Drafts) : Drafts := fun n => (s n).supplied

theorem alike_source (s : Drafts) (name r : Text) :
    (s.source name r).Alike (s.supplied.source name r) := by
  unfold source supplied Draft.supplied Draft.ownParameters
  split
  · exact .refl _
  · show (Source.other (s r).raw _).Alike (.other (s r).raw _)
    cases (s r).parameters with
    | none => exact .supplied _ _
    | some p => exact .refl _

/-- **Supplied drafts answer as the drafts do**, and stay supplied drafts. -/
theorem step_supplied (s : Drafts) (name : Text) (call : Call Text) :
    s.supplied.step name call = ((s.step name call).1, (s.step name call).2.supplied) := by
  have hrespond : (s name).supplied.respond (call.map (s.supplied.source name)) =
      Draft.alsoSupplied ((s name).respond (call.map (s.source name))) := by
    rw [← respond_congr (s.alike_source name), Draft.respond_supplied]
  have hreply : (s.supplied.step name call).1 = (s.step name call).1 := by
    show ((s name).supplied.respond _).1 = _
    rw [hrespond]
    rfl
  have hdrafts : (s.supplied.step name call).2 = (s.step name call).2.supplied := by
    funext n
    show (if n = name then ((s name).supplied.respond _).2 else (s n).supplied) =
      Draft.supplied (if n = name then _ else s n)
    rw [hrespond]
    split <;> rfl
  exact Prod.ext hreply hdrafts

theorem replies_supplied (s : Drafts) (run : List (Text × Call Text)) :
    s.supplied.replies run = s.replies run := by
  induction run generalizing s with
  | nil => rfl
  | cons c run ih => rw [replies, replies, step_supplied, ih]

end Drafts

/-! ## Calls that fail -/

namespace Builder

variable {b b' : Builder} {e : Error}

theorem dirty_compile_of_error (h : b.compile.1 = .error e) : b.compile.2.dirty = b.dirty := by
  revert h
  unfold compile
  split
  · nofun
  · split
    · nofun
    · exact fun _ => rfl

/-- **A call that fails keeps the draft**, and what the builder knows to be clean. -/
theorem kept_of_respond {c : Call Source} (h : b.respond c = (.error e, b')) :
    b.draft.Kept b'.draft ∧ b'.dirty = b.dirty := by
  have hassign : ∀ {r : Except Error Draft}, acknowledge (b.assign r) = (.error e, b') →
      b.draft.Kept b'.draft ∧ b'.dirty = b.dirty := by
    intro r hr
    cases r with
    | ok d => cases hr
    | error e' => cases hr; exact ⟨.same, rfl⟩
  cases c with
  | say q =>
    have h : acknowledge (b.say q) = (.error e, b') := h
    unfold say at h
    cases hr : q.write.run b.draft with
    | ok u d => rw [hr] at h; cases h
    | error e' d =>
      rw [hr] at h
      cases h
      exact ⟨Phrase.kept_of_write hr, rfl⟩
  | page k g => cases h
  | setParam reference value => exact hassign h
  | setParams values =>
    have h : acknowledge (b.setParams (values.map (·.toValue))) = (.error e, b') := h
    unfold setParams at h
    split at h
    · cases h
    · exact hassign h
  | clearParams => cases h
  | compiled pretty =>
    have h : (b.compile.1.map _, b.compile.2) = (.error e, b') := h
    obtain ⟨herror, rfl⟩ := Prod.mk.inj h
    rw [b.draft_compile]
    cases hc : b.compile.1 with
    | ok t => rw [hc] at herror; cases herror
    | error e' => exact ⟨.same, dirty_compile_of_error hc⟩
  | raw | quoted | marking => cases h

end Builder

namespace Session

/-- A call that fails keeps all drafts. -/
theorem kept_of_step {s : Session} {name : Text} {call : Call Text} {e : Error}
    (h : (s.step name call).1 = .error e) (n : Text) :
    (s n).draft.Kept ((s.step name call).2 n).draft ∧
      ((s.step name call).2 n).dirty = (s n).dirty := by
  by_cases hn : n = name
  · subst hn
    rw [step_self]
    exact Builder.kept_of_respond (Prod.ext h rfl)
  · rw [step_of_ne hn]
    exact ⟨.same, rfl⟩

/-- **A call that fails changes nothing that can be seen.**  After every run of calls to
    builders with any markings, if a call fails, then the text of every builder is what it
    was, its open clauses and the current one are, and so are the values, references and
    ordinals of its parameters, where a builder without parameters has declared nothing.
    It compiles as it did, to the same text or the same error; and every run of calls that
    follows gets the answers that it would have got without the failed call. -/
theorem failure_changes_nothing (m : Text → Marking) (run : List (Text × Call Text)) {name : Text}
    {call : Call Text} {e : Error}
    (h : (((opened m).after run).step name call).1 = .error e) :
    let s := (opened m).after run
    let s' := (s.step name call).2
    (∀ n, (s' n).text = (s n).text ∧ (s' n).draft.statement = (s n).draft.statement ∧
      (s' n).draft.ownParameters = (s n).draft.ownParameters ∧ (s' n).dirty = (s n).dirty ∧
      (s' n).compile.1 = (s n).compile.1) ∧
    ∀ run', s'.replies run' = s.replies run' := by
  intro s s'
  have hcoh : s.Coherent := ((coherent_opened m).after_eq run).2.2
  have hcoh' : s'.Coherent := (hcoh.step_eq name call).2.2
  refine ⟨?_, ?_⟩
  · intro n
    obtain ⟨hkept, hdirty⟩ := kept_of_step h n
    refine ⟨?_, hkept.statement_eq, hkept.ownParameters_eq, hdirty, ?_⟩
    · rw [(hcoh' n).text_eq, (hcoh n).text_eq, Draft.raw, Draft.raw, hkept.statement_eq]
    · rw [(hcoh' n).compile_eq, (hcoh n).compile_eq, hkept.compiled_eq]
  · intro run'
    have hsupplied : s'.drafts.supplied = s.drafts.supplied :=
      funext fun n => (kept_of_step h n).1.supplied_eq
    calc s'.replies run'
      _ = s'.drafts.replies run' := (hcoh'.after_eq run').1
      _ = s'.drafts.supplied.replies run' := (Drafts.replies_supplied _ _).symm
      _ = s.drafts.supplied.replies run' := by rw [hsupplied]
      _ = s.drafts.replies run' := Drafts.replies_supplied _ _
      _ = s.replies run' := ((hcoh.after_eq run').1).symm

/-- The last argument of a call cannot be declared.  The builder asked for its parameters,
    and yet takes a statement in, sets its value and compiles as if it had not. -/
theorem failure_changes_nothing_in_call :
    let run : List (Text × Call Text) := [
      ("q", .say (.clause .select)),
      ("q", .say (.param (.value (.text "x")))),
      ("r", .say (.clause .where_))]
    let call : Call Text := .say (.function "f".toList none none
      [.param (.value .null), .param (.value (.text "x")), .param (.value (.text "a b"))])
    let run' : List (Text × Call Text) := [
      ("r", .say (.existence (.given (.statement "q")))),
      ("r", .setParams [.value (.text "b")]),
      ("r", .compiled false)]
    let s := (opened fun _ => .standard).after run
    let t := (s.step "r" call).2
    (s.step "r" call).1 = .error (.unusableName "a b") ∧
      (s "r").draft.parameters = none ∧ (t "r").draft.parameters = some (.empty .standard) ∧
      t.replies run' = [.ok .done, .ok .done, .ok (.text "WHERE EXISTS ( SELECT b )")] := by
  intro run call run' s t
  have hfails : (s.step "r" call).1 = .error (.unusableName "a b") := by decide +kernel
  have hreplies : s.replies run' =
      [.ok .done, .ok .done, .ok (.text "WHERE EXISTS ( SELECT b )")] := by decide +kernel
  have hsame := (failure_changes_nothing (fun _ => .standard) run hfails).2 run'
  exact ⟨hfails, by decide +kernel, by decide +kernel, hsame.trans hreplies⟩

end Session

end SqlCompose
