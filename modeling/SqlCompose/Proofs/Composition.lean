/-
  Composition — a composed phrase writes its placeholders, and no others.

  A composed phrase may also call and convert, and may hold texts that are written as
  they are.  It is structured up to this, and these texts are unmarked.

  * `Phrase.Composed` lists these phrases, and `Phrase.Structured.composed` says that
    the structured ones are among them;
  * `carryAll_argumentTexts`: the texts of the arguments of a call carry the placeholders
    among these;
  * `grown_of_write`: a composed phrase writes tokens that carry its placeholders.
-/
import SqlCompose.Proofs.Expressions
import SqlCompose.Proofs.Phrases

namespace SqlCompose

open Template

/-! ## Composed phrases -/

/-- A value whose plain text is unmarked. -/
def Given.Word : Given Text → Prop
  | .value (.text t) | .value (.float t) | .value (.statement t) => Unmarked t
  | .value _ => True
  | .statement _ => False

/-- A value whose literal is unmarked; that of a text always is. -/
def Given.Literal : Given Text → Prop
  | .value (.float t) | .value (.statement t) => Unmarked t
  | .value _ => True
  | .statement _ => False

/-- An argument whose text is unmarked, or a placeholder without quotes in it. -/
def Argument.Composed : Argument Text → Prop
  | .given g => g.Word
  | .column path => ∀ n ∈ path.cutAt '.', ¬ Text.WrappedIn '"' n
  | .value g => g.Literal
  | .param g => g.Plain

/-- The phrases in which texts that are written as they are spell no placeholder. -/
def Phrase.Composed : Phrase Text → Prop
  | .column path type label =>
    (∀ n ∈ path, ¬ Text.WrappedIn '"' n) ∧ Unmarked (type.getD []) ∧ Unwrapped label
  | .literal g => g.Literal
  | .bare g => g.Word
  | .verbatim t => Unmarked t
  | .procedure name arguments => Unmarked name ∧ ∀ a ∈ arguments, a.Composed
  | .function name type label arguments =>
    Unmarked name ∧ Unmarked (type.getD []) ∧ Unwrapped label ∧ ∀ a ∈ arguments, a.Composed
  | .aggregate name type label _ argument =>
    Unmarked name ∧ Unmarked (type.getD []) ∧ Unwrapped label ∧ argument.Composed
  | q => q.Structured

instance (g : Given Text) : Decidable g.Word :=
  match g with
  | .value (.text t) | .value (.float t) | .value (.statement t) =>
    inferInstanceAs (Decidable (Unmarked t))
  | .value .null | .value (.bool _) | .value (.int _) => .isTrue trivial
  | .statement _ => .isFalse id

instance (g : Given Text) : Decidable g.Literal :=
  match g with
  | .value (.float t) | .value (.statement t) => inferInstanceAs (Decidable (Unmarked t))
  | .value .null | .value (.bool _) | .value (.int _) | .value (.text _) => .isTrue trivial
  | .statement _ => .isFalse id

instance (a : Argument Text) : Decidable a.Composed :=
  match a with
  | .given g => inferInstanceAs (Decidable g.Word)
  | .column path => inferInstanceAs (Decidable (∀ n ∈ path.cutAt '.', ¬ Text.WrappedIn '"' n))
  | .value g => inferInstanceAs (Decidable g.Literal)
  | .param g => inferInstanceAs (Decidable g.Plain)

instance (q : Phrase Text) : Decidable q.Composed :=
  match q with
  | .column path _ _ =>
    inferInstanceAs (Decidable ((∀ n ∈ path, ¬ Text.WrappedIn '"' n) ∧ Unmarked _ ∧ Unwrapped _))
  | .literal g => inferInstanceAs (Decidable g.Literal)
  | .bare g => inferInstanceAs (Decidable g.Word)
  | .verbatim t => inferInstanceAs (Decidable (Unmarked t))
  | .procedure _ arguments =>
    inferInstanceAs (Decidable (Unmarked _ ∧ ∀ a ∈ arguments, a.Composed))
  | .function _ _ _ arguments =>
    inferInstanceAs (Decidable (Unmarked _ ∧ Unmarked _ ∧ Unwrapped _ ∧ ∀ a ∈ arguments, a.Composed))
  | .aggregate _ _ _ _ argument =>
    inferInstanceAs (Decidable (Unmarked _ ∧ Unmarked _ ∧ Unwrapped _ ∧ argument.Composed))
  | .clause k => inferInstanceAs (Decidable (Phrase.clause k).Structured)
  | .keyword w => inferInstanceAs (Decidable (Phrase.keyword w).Structured)
  | .using_ columns => inferInstanceAs (Decidable (Phrase.using_ columns).Structured)
  | .allColumns qualifier => inferInstanceAs (Decidable (Phrase.allColumns qualifier).Structured)
  | .table schema name label => inferInstanceAs (Decidable (Phrase.table schema name label).Structured)
  | .definition sub label => inferInstanceAs (Decidable (Phrase.definition sub label).Structured)
  | .subquery sub label => inferInstanceAs (Decidable (Phrase.subquery sub label).Structured)
  | .existence sub => inferInstanceAs (Decidable (Phrase.existence sub).Structured)
  | .membership gs => inferInstanceAs (Decidable (Phrase.membership gs).Structured)
  | .param reference => inferInstanceAs (Decidable (Phrase.param reference).Structured)

theorem Given.Integer.word {g : Given Text} (h : g.Integer) : g.Word := by
  obtain ⟨n, rfl⟩ := h.exists_int
  trivial

theorem Given.Scalar.literal {g : Given Text} (h : g.Scalar) : g.Literal := by
  cases g with
  | statement r => cases h
  | value v =>
    cases v with
    | null | bool | int | text => trivial
    | float | statement => cases h

theorem unmarked_nil : Unmarked [] := (inert_of_isBare (by simp)).unmarked

/-- A structured phrase is composed: it holds no text that is written as it is. -/
theorem Phrase.Structured.composed {q : Phrase Text} (h : q.Structured) : q.Composed := by
  cases q with
  | column path type label =>
    obtain ⟨hpath, rfl, hlabel⟩ := h
    exact ⟨hpath, unmarked_nil, hlabel⟩
  | literal g => exact Given.Scalar.literal h
  | bare g => exact Given.Integer.word h
  | verbatim | procedure | function | aggregate => cases h
  | clause | keyword | using_ | allColumns | table | definition | subquery | existence | membership
  | param => exact h

/-! ## Texts that carry nothing -/

theorem Given.Word.unmarked {v : Value} (h : (Given.value v).Word) : Unmarked v.display := by
  cases v with
  | null => exact (inert_of_isBare (by decide)).unmarked
  | bool b => cases b <;> exact (inert_of_isBare (by decide)).unmarked
  | int n => exact (inert_ofInt n).unmarked
  | float t | text t | statement t => exact h

theorem Given.Literal.unmarked {v : Value} (h : (Given.value v).Literal) : Unmarked v.literal := by
  cases v with
  | null => exact (inert_of_isBare (by decide)).unmarked
  | bool b => cases b <;> exact (inert_of_isBare (by decide)).unmarked
  | int n => exact (inert_ofInt n).unmarked
  | text t => exact (inert_literal t).unmarked
  | float t | statement t => exact h

section
variable {source : Text → Source} {carried : Text → List Text} {d d' : Draft} {ms : List Text}

/-- An argument that is no placeholder carries nothing. -/
theorem carries_argumentText {a : Argument Text} (ha : a.Composed) (hp : ∀ g, a ≠ .param g) :
    Carries (Phrase.argumentText (a.map source)) [] := by
  cases a with
  | given g =>
    cases g with
    | value v => exact (Given.Word.unmarked ha).carries
    | statement r => cases ha
  | column path => exact (inert_qualified ha).carries
  | value g =>
    cases g with
    | value v => exact (Given.Literal.unmarked ha).carries
    | statement r => cases ha
  | param g => exact absurd rfl (hp g)

/-- **The texts of arguments carry the placeholders among these**, in their order. -/
theorem carryAll_argumentTexts {as : List (Argument Text)} (has : ∀ a ∈ as, a.Composed)
    (hlen : ms.length = (Phrase.declarations (as.map (·.map source))).length)
    (hms : ∀ t ∈ ms, Carries t [t]) :
    CarryAll (Phrase.argumentTexts ms (as.map (·.map source))) ms := by
  induction as generalizing ms with
  | nil =>
    rw [List.eq_nil_of_length_eq_zero hlen]
    exact .nil
  | cons a as ih =>
    have hrest : ∀ b ∈ as, b.Composed := fun b hb => has b (by simp [hb])
    by_cases hp : ∃ g, a = .param g
    · obtain ⟨g, rfl⟩ := hp
      obtain ⟨m, ms, rfl⟩ := List.exists_cons_of_length_eq_add_one hlen
      refine .cons (hms m (by simp)) (ih hrest (Nat.succ.inj hlen) ?_)
      intro t ht
      exact hms t (by simp [ht])
    · have hp : ∀ g, a ≠ .param g := not_exists.1 hp
      have ha := @carries_argumentText source a (has a (by simp)) hp
      have hskip : Phrase.declarations ((a :: as).map (·.map source)) =
          Phrase.declarations (as.map (·.map source)) := by
        cases a with
        | param g => exact absurd rfl (hp g)
        | given | column | value => rfl
      have htexts : Phrase.argumentTexts ms ((a :: as).map (·.map source)) =
          Phrase.argumentText (a.map source) :: Phrase.argumentTexts ms (as.map (·.map source)) := by
        cases a with
        | param g => exact absurd rfl (hp g)
        | given | column | value => cases ms <;> rfl
      rw [hskip] at hlen
      rw [htexts]
      exact .cons ha (ih hrest hlen hms)

theorem plainDeclaration_of_mem (hs : ∀ r, (source r).Sound (carried r)) {as : List (Argument Text)}
    (has : ∀ a ∈ as, a.Composed) :
    ∀ e ∈ Phrase.declarations (as.map (·.map source)), Parameters.PlainDeclaration e := by
  intro e he
  obtain ⟨b, hb, hbe⟩ := List.mem_filterMap.1 he
  obtain ⟨a, ha, rfl⟩ := List.mem_map.1 hb
  cases a with
  | param g =>
    cases hbe
    exact Parameters.plainDeclaration_ofValue hs (has _ ha)
  | given | column | value => cases hbe

/-- Arguments are written with their placeholders declared. -/
theorem run_writtenArguments (hs : ∀ r, (source r).Sound (carried r)) (hd : d.Ready)
    {as : List (Argument Text)} (has : ∀ a ∈ as, a.Composed) {ts : List Text}
    (h : (Phrase.writtenArguments (as.map (·.map source))).run d = .ok ts d') :
    let ms := ((held d.parameters).declareAll (Phrase.declarations (as.map (·.map source)))).1
    CarryAll ts ms ∧ Grows source carried d.parameters ms d'.parameters := by
  intro ms
  have hlen := ((held d.parameters).length_declareAll
    (Phrase.declarations (as.map (·.map source)))).1
  unfold Phrase.writtenArguments at h
  split at h
  · next hnone =>
    cases h
    have hms : ms = [] := List.eq_nil_of_length_eq_zero (by rw [hlen, hnone]; rfl)
    rw [hms]
    refine ⟨carryAll_argumentTexts has ?_ nofun, .same⟩
    rw [hnone]
    rfl
  · obtain ⟨ms', hr, rfl⟩ := Edit.run_map_eq_ok h
    obtain ⟨hc, rfl, hp⟩ := run_declareAll hd hr
    have hmarkers := Parameters.carries_declareAll hd.parameters.spec.2 hc
      (plainDeclaration_of_mem hs has)
    refine ⟨carryAll_argumentTexts has hlen hmarkers, ?_⟩
    rw [hp]
    exact .declared hc

/-- An argument by itself is written with its placeholder declared. -/
theorem gives_writtenArgument (hs : ∀ r, (source r).Sound (carried r)) (hd : d.Ready)
    {a : Argument Text} (ha : a.Composed) :
    Gives source carried (Phrase.writtenArgument (a.map source)) d
      ((held d.parameters).declareAll (Phrase.declarations [a.map source])).1 := by
  by_cases hp : ∃ g, a = .param g
  · obtain ⟨g, rfl⟩ := hp
    exact gives_declare hd (Parameters.plainDeclaration_ofValue hs ha)
  · have hp : ∀ g, a ≠ .param g := not_exists.1 hp
    have htext := @carries_argumentText source a ha hp
    intro t d' h
    cases a with
    | param g => exact absurd rfl (hp g)
    | given | column | value =>
      cases h
      exact ⟨htext, .same⟩

theorem Template.Carries.finished {t : Text} (ht : Carries t ms) {type label : Option Text}
    (htype : Unmarked (type.getD [])) (hlabel : Unwrapped label) :
    Carries (Phrase.finished type label t) ms := by
  cases type with
  | none => exact ht.aliased hlabel
  | some type => exact (ht.convert htype).aliased hlabel

/-- **A composed phrase writes tokens that carry its placeholders**, unless it opens a
    clause. -/
theorem grown_of_write {q : Phrase Text} (hq : q.Composed) (hk : ∀ k, q ≠ .clause k)
    (hs : ∀ r, (source r).Sound (carried r)) (hd : d.Ready)
    (h : (q.map source).write.run d = .ok () d') :
    d.Grown source carried d' (q.markers (held d.parameters) source carried) := by
  have hstar : ¬ Text.WrappedIn '"' ['*'] := by decide
  cases q with
  | clause k => exact absurd rfl (hk k)
  | keyword w =>
    have hw := CarryAll.single (inert_keyword w).carries
    unfold Phrase.map Phrase.write at h
    dsimp only at h
    split at h
    · exact .of_writeTo hw h
    · exact .of_write hw h
  | using_ columns =>
    unfold Phrase.map Phrase.write at h
    dsimp only at h
    split at h
    · cases h
    · exact .of_writeTo (.cons (inert_keyword _).carries (.single (inert_columns hq))) h
  | column path type label =>
    obtain ⟨hpath, htype, hlabel⟩ := hq
    unfold Phrase.map Phrase.write at h
    dsimp only at h
    split at h
    · cases h
    · exact .of_write (.single ((inert_qualified hpath).carries.finished htype hlabel)) h
  | allColumns qualifier =>
    have hall : CarryAll [['*']] [] := .single (inert_of_isBare (by simp [IsBare])).carries
    rcases qualifier with _ | (_ | ⟨c, n⟩)
    · exact .of_write hall h
    · exact .of_write hall h
    · refine .of_write (.single (inert_qualified ?_).carries) h
      simpa using ⟨hq _ rfl, hstar⟩
  | table schema name label =>
    obtain ⟨h₁, h₂, hlabel⟩ := hq
    refine .of_write (.single (Carries.aliased (inert_qualified ?_).carries hlabel)) h
    simpa using ⟨h₁, h₂⟩
  | literal g =>
    cases g with
    | value v => exact .of_write (.single (Given.Literal.unmarked hq).carries) h
    | statement r => cases hq
  | bare g =>
    cases g with
    | value v => exact .of_write (.single (Given.Word.unmarked hq).carries) h
    | statement r => cases hq
  | verbatim t => exact .of_write (.single (Unmarked.carries hq)) h
  | definition sub label =>
    refine .of_guarded (Edit.quiet_embed _) (gives_embed hs hd sub) ?_ h
    intro t ht
    exact .single (ht.group.defining hq)
  | subquery sub label =>
    refine .of_guarded (Edit.quiet_embed _) (gives_embed hs hd sub) ?_ h
    intro t ht
    exact .single (ht.group.aliased hq)
  | existence sub =>
    refine .of_guarded (Edit.quiet_embed _) (gives_embed hs hd sub) ?_ h
    intro t ht
    exact .cons (inert_keyword _).carries (.single ht.group)
  | membership gs =>
    cases gs with
    | nil => cases h
    | cons g gs =>
      refine .of_guarded (Phrase.quiet_writtenCandidates _) (gives_writtenCandidates hs hd hq) ?_ h
      intro t ht
      exact .cons (inert_keyword _).carries (.single ht)
  | param g =>
    have hgives := @gives_declare source carried d hd _ (Parameters.plainDeclaration_ofValue hs hq)
    refine .of_guarded (Edit.quiet_onParameters _) hgives ?_ h
    intro t ht
    exact .single ht
  | procedure name as =>
    obtain ⟨hname, has⟩ := hq
    refine .of_quiet (Phrase.quiet_writtenArguments _) ?_ h
    intro ts d'' hr
    obtain ⟨hts, hgrows⟩ := run_writtenArguments hs hd has hr
    exact ⟨.single (hts.call hname), hgrows⟩
  | function name type label as =>
    obtain ⟨hname, htype, hlabel, has⟩ := hq
    refine .of_quiet (Phrase.quiet_writtenArguments _) ?_ h
    intro ts d'' hr
    obtain ⟨hts, hgrows⟩ := run_writtenArguments hs hd has hr
    exact ⟨.single ((hts.call hname).finished htype hlabel), hgrows⟩
  | aggregate name type label distinct a =>
    obtain ⟨hname, htype, hlabel, ha⟩ := hq
    refine .of_guarded (Phrase.quiet_writtenArgument _) (gives_writtenArgument hs hd ha) ?_ h
    intro t ht
    exact .single ((ht.aggregate hname distinct).finished htype hlabel)

end

end SqlCompose
