/-
  Interchange — one legible marking is as good as another.

  The same calls are put to two sessions, one with each marking, and the drafts of the one
  stay related to those of the other.

  * `Edit.Parallel` relates the results of edits, and `parallel_phrase`: a structured phrase
    keeps drafts related if what it reads as a value is the same value in both;
  * `Draft.Together` relates the answers to calls, `together_respond` says the same of calls,
    and `Respelled.sameRead` that values and statements without placeholders are the same;
  * `replies_interchangeable` says it of runs of calls, and `replies_differ_digit_sign` that a
    marking that is not legible is not as good: numbers look like its placeholders.
-/
import SqlCompose.Proofs.Counterparts
import SqlCompose.Proofs.Survival

namespace SqlCompose

open Template

variable {m m' : Marking}

/-! ## Edits -/

namespace Edit

/-- The results of two edits: both give something, and the drafts and what is given are
    related, or both fail in the same way and the drafts are related. -/
inductive Parallel {α : Type} (m m' : Marking) (R : Nat → α → α → Prop) :
    EStateM.Result Error Draft α → EStateM.Result Error Draft α → Prop where
  | ok {a a' : α} {d d' : Draft} : R d.ownParameters.slotCount a a' → d.Respelled m m' d' →
    Parallel m m' R (.ok a d) (.ok a' d')
  | error (e : Error) {d d' : Draft} : d.Respelled m m' d' → Parallel m m' R (.error e d) (.error e d')

variable {α β : Type} {R : Nat → α → α → Prop} {S : Nat → β → β → Prop} {x x' : Edit α} {d d' : Draft}

theorem Parallel.map (h : Parallel m m' R (x.run d) (x'.run d')) {f : α → β}
    (hf : ∀ n a a', R n a a' → S n (f a) (f a')) :
    Parallel m m' S ((do return f (← x)).run d) ((do return f (← x')).run d') := by
  rw [EStateM.run_bind, EStateM.run_bind]
  generalize x.run d = r, x'.run d' = r' at h
  cases h with
  | ok ha hd => exact .ok (hf _ _ _ ha) hd
  | error e hd => exact .error e hd

theorem parallel_start (hd : d.Respelled m m' d') (k : Clause) :
    Parallel m m' (fun _ _ _ => True) ((start k).run d) ((start k).run d') :=
  .ok trivial (hd.start k)

theorem parallel_write (hd : d.Respelled m m' d') {ts ts' : List Text}
    (hts : List.Forall₂ (Text.Respelled m m' d.ownParameters.slotCount) ts ts') :
    Parallel m m' (fun _ _ _ => True) ((write ts).run d) ((write ts').run d') := by
  rw [run_write, run_write, hd.current_eq]
  cases d.statement.current with
  | none => exact .error _ hd
  | some k => exact .ok trivial (hd.setTokens k (List.rel_append (hd.tokens_getD k) hts))

theorem parallel_writeTo (hd : d.Respelled m m' d') (k : Clause) {ts ts' : List Text}
    (hts : List.Forall₂ (Text.Respelled m m' d.ownParameters.slotCount) ts ts') :
    Parallel m m' (fun _ _ _ => True) ((writeTo k ts).run d) ((writeTo k ts').run d') := by
  rw [run_writeTo, run_writeTo]
  have hk := hd.tokens k
  generalize d.statement.tokens? k = o, d'.statement.tokens? k = o' at hk
  cases hk with
  | none => exact .error _ hd
  | some hus => exact .ok trivial (hd.setTokens k (List.rel_append hus hts))

/-- Writing what quiet edits give. -/
theorem Parallel.guarded (hd : d.Respelled m m' d') (hq : Quiet x) (hq' : Quiet x')
    (hx : Parallel m m' R (x.run d) (x'.run d')) {f : α → List Text}
    (hf : ∀ n a a', R n a a' → List.Forall₂ (Text.Respelled m m' n) (f a) (f a')) :
    Parallel m m' (fun _ _ _ => True) ((do requireClause; let a ← x; write (f a)).run d)
      ((do requireClause; let a ← x'; write (f a)).run d') := by
  rw [run_guarded x f d hq, run_guarded x' f d' hq', hd.current_eq]
  have hs := hq d
  have hs' := hq' d'
  cases d.statement.current with
  | none => exact .error _ hd
  | some k =>
    generalize x.run d = r, x'.run d' = r' at hx hs hs'
    cases hx with
    | error e he => exact .error e he
    | ok ha he =>
      -- a quiet edit leaves the statement
      rw [← hs.2, ← hs'.2]
      exact .ok trivial (he.setTokens k (List.rel_append (he.tokens_getD k) (hf _ _ _ ha)))

theorem parallel_onParameters (hd : d.Respelled m m' d')
    {f f' : Parameters → Except Error (α × Parameters)}
    (h : Jointly (fun r r' => R r.2.slotCount r.1 r'.1 ∧ r.2.Respelled m m' r'.2 ∧
      d.ownParameters.slotCount ≤ r.2.slotCount) (f d.ownParameters) (f' d'.ownParameters)) :
    Parallel m m' R ((onParameters f).run d) ((onParameters f').run d') := by
  cases hf : f d.ownParameters with
  | error e =>
    rw [hf] at h
    cases hf' : f' d'.ownParameters with
    | ok r' => rw [hf'] at h; cases h
    | error e' =>
      rw [hf'] at h
      cases h
      rw [run_onParameters_error hf, run_onParameters_error hf']
      exact .error e (hd.holding hd.ownParameters (Nat.le_refl _))
  | ok r =>
    rw [hf] at h
    cases hf' : f' d'.ownParameters with
    | error e' => rw [hf'] at h; cases h
    | ok r' =>
      rw [hf'] at h
      cases h with
      | ok hr =>
        obtain ⟨ha, hq, hle⟩ := hr
        rw [run_onParameters_ok hf, run_onParameters_ok hf']
        exact .ok ha (hd.holding hq hle)

section
variable (hm : m.Legible) (hm' : m'.Legible) (hd : d.Respelled m m' d')
include hm hm' hd

theorem parallel_declare {e : Declaration} (he : Parameters.PlainDeclaration e) :
    Parallel m m' (Text.Respelled m m') ((declare e).run d) ((declare e).run d') := by
  have hp := hd.ownParameters
  apply parallel_onParameters hd
  unfold Parameters.allocate
  rw [hp.ordinals_eq]
  cases hc : Parameters.check d.ownParameters.ordinals e with
  | error e => exact .error e
  | ok u =>
    have hk := Parameters.readable_key hc he
    have hlt : d.ownParameters.slotCount < (d.ownParameters.declare e).slotCount := by
      rw [Parameters.slotCount_declare]
      omega
    have hmarker := Parameters.respelled_markerFor hm hm' hp (Nat.zero_lt_of_lt hlt) hk
    exact .ok ⟨hmarker, hp.declare hk, Nat.le_of_lt hlt⟩

theorem parallel_declareAll {ds : List Declaration} (hds : ∀ e ∈ ds, Parameters.PlainDeclaration e) :
    Parallel m m' (fun n => List.Forall₂ (Text.Respelled m m' n)) ((declareAll ds).run d)
      ((declareAll ds).run d') := by
  have hp := hd.ownParameters
  apply parallel_onParameters hd
  unfold Parameters.allocateAll
  rw [hp.ordinals_eq]
  cases hc : Parameters.checkAll d.ownParameters.ordinals ds with
  | error e => exact .error e
  | ok u =>
    obtain ⟨hmarkers, hq⟩ := Parameters.respelled_declareAll hm hm' hp hc hds
    have hcount := (Parameters.length_declareAll d.ownParameters ds).2
    exact .ok ⟨hmarkers, hq, by omega⟩

theorem parallel_list {ds : List Declaration} (hds : ∀ e ∈ ds, Parameters.PlainDeclaration e) :
    Parallel m m' (Text.Respelled m m') ((do return Fragment.list (← declareAll ds)).run d)
      ((do return Fragment.list (← declareAll ds)).run d') :=
  (parallel_declareAll hm hm' hd hds).map fun _ _ _ h => respelled_list hm hm' h

omit hm hm' in
/-- Related statements are taken in alike. -/
theorem parallel_embed {source source' : Text → Source}
    (hs : ∀ r, (source r).Respelled m m' (source' r)) (sub : Argument Text) :
    Parallel m m' (Text.Respelled m m') ((embed (sub.map source)).run d)
      ((embed (sub.map source')).run d') := by
  cases sub with
  | column | value | param => exact .error _ hd
  | given g =>
    cases g with
    | value v => exact .error _ hd
    | statement r =>
      have hr := hs r
      show Parallel m m' _ ((embed (.given (.statement (source r)))).run d)
        ((embed (.given (.statement (source' r)))).run d')
      generalize source r = s, source' r = s' at hr
      cases hr with
      | own => exact .error _ hd
      | other ho hraw =>
        cases ho with
        | none => exact .ok (hraw.mono (Nat.zero_le _)) hd
        | @some c c' hc =>
          have hraw : Text.Respelled m m' c.slotCount _ _ := hraw
          simp only [embed, hc.slotCount_eq]
          split
          · next h₀ =>
            rw [h₀] at hraw
            exact .ok (hraw.mono (Nat.zero_le _)) hd
          · apply parallel_onParameters hd
            obtain ⟨t, t', ht, ht', htt⟩ := Parameters.respelled_merge hd.ownParameters hc hraw
            have hle : d.ownParameters.slotCount ≤ (d.ownParameters.absorb c).slotCount := by
              rw [Parameters.slotCount_absorb]
              omega
            rw [ht, ht']
            exact .ok ⟨htt, hd.ownParameters.absorb hc, hle⟩

end

end Edit

/-! ## Phrases -/

/-- All that a phrase reads as a value satisfies `P`.  A statement is not read where it is
    taken in, which `IN` does with a single operand. -/
def Phrase.AllRead (P : Given Text → Prop) : Phrase Text → Prop
  | .param reference => P reference
  | .membership candidates => candidates.length = 1 ∨ ∀ g ∈ candidates, P g
  | _ => True

/-- All that a call reads as a value satisfies `P`. -/
def Call.AllRead (P : Given Text → Prop) : Call Text → Prop
  | .say p => p.AllRead P
  | .setParam reference value => P reference ∧ P value
  | .setParams values => ∀ g ∈ values, P g
  | _ => True

section
variable {P Q : Given Text → Prop}

theorem Phrase.AllRead.imp {p : Phrase Text} (h : p.AllRead P) (hPQ : ∀ g, P g → Q g) : p.AllRead Q := by
  cases p with
  | param g => exact hPQ g h
  | membership gs => exact Or.imp_right (fun hgs g hg => hPQ g (hgs g hg)) h
  | _ => trivial

theorem Call.AllRead.imp {c : Call Text} (h : c.AllRead P) (hPQ : ∀ g, P g → Q g) : c.AllRead Q := by
  cases c with
  | say p => exact Phrase.AllRead.imp h hPQ
  | setParam reference value => exact ⟨hPQ _ h.1, hPQ _ h.2⟩
  | setParams values => exact fun g hg => hPQ g (h g hg)
  | _ => trivial

variable [DecidablePred P]

instance (p : Phrase Text) : Decidable (p.AllRead P) :=
  match p with
  | .param g => inferInstanceAs (Decidable (P g))
  | .membership gs => inferInstanceAs (Decidable (gs.length = 1 ∨ ∀ g ∈ gs, P g))
  | .clause _ | .keyword _ | .using_ _ | .column _ _ _ | .allColumns _ | .table _ _ _ | .literal _
  | .bare _ | .verbatim _ | .definition _ _ | .subquery _ _ | .existence _ | .procedure _ _
  | .function _ _ _ _ | .aggregate _ _ _ _ _ => .isTrue trivial

instance (c : Call Text) : Decidable (c.AllRead P) :=
  match c with
  | .say p => inferInstanceAs (Decidable (p.AllRead P))
  | .setParam g v => inferInstanceAs (Decidable (P g ∧ P v))
  | .setParams vs => inferInstanceAs (Decidable (∀ v ∈ vs, P v))
  | .page _ _ | .clearParams | .raw _ | .compiled _ | .quoted | .marking => .isTrue trivial

end

/-- What is given stands for the same value in both sessions. -/
def Given.SameRead (source source' : Text → Source) (g : Given Text) : Prop :=
  (g.map source').toValue = (g.map source).toValue

section
variable {source source' : Text → Source} {gs : List (Given Text)}
  (h : ∀ g ∈ gs, g.SameRead source source')
include h

theorem toValues_eq_of_sameRead :
    (gs.map (·.map source')).map (·.toValue) = (gs.map (·.map source)).map (·.toValue) := by
  rw [List.map_map, List.map_map]
  exact List.map_congr_left h

theorem declarations_eq_of_sameRead :
    ((gs.map (·.map source')).map fun g => Declaration.ofValue g.toValue) =
      (gs.map (·.map source)).map fun g => Declaration.ofValue g.toValue := by
  have := congrArg (List.map Declaration.ofValue) (toValues_eq_of_sameRead h)
  simpa only [List.map_map, Function.comp_def] using this

end

namespace Phrase

open Edit

variable {d d' : Draft} {source source' : Text → Source}

section
variable (hm : m.Legible) (hm' : m'.Legible) (hd : d.Respelled m m' d')
  (hs : ∀ r, (source r).Respelled m m' (source' r))
  (hw : ∀ r, (source r).raw.IsWord → (source r).raw.Unquoted)
include hm hm' hd hs hw

theorem parallel_writtenCandidates {gs : List (Given Text)} (hg : ∀ g ∈ gs, g.Plain)
    (hv : gs.length = 1 ∨ ∀ g ∈ gs, g.SameRead source source') :
    Parallel m m' (Text.Respelled m m') ((writtenCandidates (gs.map (·.map source))).run d)
      ((writtenCandidates (gs.map (·.map source'))).run d') := by
  have hall : (∀ g ∈ gs, g.SameRead source source') → ∀ ds ds' : List Declaration,
      ds = ((gs.map (·.map source)).map fun g => Declaration.ofValue g.toValue) →
      ds' = ((gs.map (·.map source')).map fun g => Declaration.ofValue g.toValue) →
      Parallel m m' (Text.Respelled m m') ((do return Fragment.list (← declareAll ds)).run d)
        ((do return Fragment.list (← declareAll ds')).run d') := by
    rintro hv ds _ rfl rfl
    rw [declarations_eq_of_sameRead hv]
    refine parallel_list hm hm' hd ?_
    intro e he
    obtain ⟨_, hg', rfl⟩ := List.mem_map.1 he
    obtain ⟨g, hgs, rfl⟩ := List.mem_map.1 hg'
    exact Parameters.plainDeclaration_of_unquoted hw (hg g hgs)
  rcases gs with _ | ⟨g, _ | ⟨g', gs⟩⟩
  · exact hall nofun _ _ rfl rfl
  · cases g with
    | statement r =>
      exact (parallel_embed hd hs (.given (.statement r))).map fun _ _ _ h => h.group hm hm'
    | value v =>
      have hall := hall (by simp [Given.SameRead, Given.map]) _ _ rfl rfl
      cases v with
      | int n =>
        show Parallel m m' _
          ((if n < 1 then throw (.countNotPositive n)
            else do return Fragment.list (← declareAll (List.replicate n.toNat none)) : Edit Text).run d)
          ((if n < 1 then throw (.countNotPositive n)
            else do return Fragment.list (← declareAll (List.replicate n.toNat none)) : Edit Text).run d')
        split
        · exact .error _ hd
        · refine parallel_list hm hm' hd ?_
          intro e he name hname
          rw [List.eq_of_mem_replicate he] at hname
          cases hname
      | null | bool | float | text | statement => exact hall
  · have hall := hall (hv.resolve_left (by simp)) _ _ rfl rfl
    cases g with
    | statement r => exact hall
    | value v => cases v <;> exact hall

/-- **A structured phrase that reads the same values does the same with either marking.** -/
theorem parallel_phrase {q : Phrase Text} (hq : q.Structured)
    (hv : q.AllRead (Given.SameRead source source')) :
    Parallel m m' (fun _ _ _ => True) ((q.map source).write.run d) ((q.map source').write.run d') := by
  have hspoken : ∀ {t : Text}, Spoken t → List.Forall₂ (Text.Respelled m m' d.ownParameters.slotCount) [t] [t] :=
    fun ht => .cons (ht.respelled hm hm') .nil
  have hstar : ¬ Text.WrappedIn '"' ['*'] := by decide
  cases q with
  | clause k => exact parallel_start hd k
  | keyword w =>
    have hw := hspoken (spoken_keyword w)
    unfold Phrase.map Phrase.write
    dsimp only
    split
    · exact parallel_writeTo hd _ hw
    · exact Edit.parallel_write hd hw
  | using_ columns =>
    unfold Phrase.map Phrase.write
    dsimp only
    split
    · exact .error _ hd
    · refine parallel_writeTo hd _ (.cons ((spoken_keyword _).respelled hm hm') (.cons ?_ .nil))
      refine respelled_list hm hm' (List.forall₂_same.2 ?_)
      intro t ht
      obtain ⟨n, hn, rfl⟩ := List.mem_map.1 ht
      exact (spoken_identifier (hq n hn)).respelled hm hm'
  | column path type label =>
    obtain ⟨hpath, rfl, hlabel⟩ := hq
    unfold Phrase.map Phrase.write
    dsimp only
    split
    · exact .error _ hd
    · have hname : Text.Respelled m m' d.ownParameters.slotCount (Fragment.qualified path) _ :=
        (spoken_qualified hpath).respelled hm hm'
      exact Edit.parallel_write hd (.cons (hname.aliased hm hm' hlabel) .nil)
  | allColumns qualifier =>
    have hstarred : Spoken (Fragment.qualified [['*']]) := spoken_qualified (by simpa using hstar)
    have hall := hspoken hstarred
    rcases qualifier with _ | (_ | ⟨c, n⟩)
    · exact Edit.parallel_write hd hall
    · exact Edit.parallel_write hd hall
    · refine Edit.parallel_write hd (hspoken (spoken_qualified ?_))
      simpa using ⟨hq _ rfl, hstar⟩
  | table schema name label =>
    obtain ⟨h₁, h₂, hlabel⟩ := hq
    have hname : Text.Respelled m m' d.ownParameters.slotCount (Fragment.qualified [schema, name]) _ :=
      (spoken_qualified (by simpa using ⟨h₁, h₂⟩)).respelled hm hm'
    exact Edit.parallel_write hd (.cons (hname.aliased hm hm' hlabel) .nil)
  | literal g =>
    cases g with
    | value v => exact Edit.parallel_write hd (hspoken (spoken_scalar hq))
    | statement r => cases hq
  | bare g =>
    obtain ⟨n, rfl⟩ := hq.exists_int
    exact Edit.parallel_write hd (hspoken (spoken_ofInt n))
  | verbatim | procedure | function | aggregate => cases hq
  | definition sub label =>
    refine (parallel_embed hd hs sub).guarded hd (quiet_embed _) (quiet_embed _) ?_
    intro n t t' ht
    exact .cons ((ht.group hm hm').defining hm hm' hq) .nil
  | subquery sub label =>
    refine (parallel_embed hd hs sub).guarded hd (quiet_embed _) (quiet_embed _) ?_
    intro n t t' ht
    exact .cons ((ht.group hm hm').aliased hm hm' hq) .nil
  | existence sub =>
    refine (parallel_embed hd hs sub).guarded hd (quiet_embed _) (quiet_embed _) ?_
    intro n t t' ht
    exact .cons ((spoken_keyword _).respelled hm hm') (.cons (ht.group hm hm') .nil)
  | membership gs =>
    cases gs with
    | nil => exact .error _ hd
    | cons g gs =>
      refine (parallel_writtenCandidates hm hm' hd hs hw hq hv).guarded hd (quiet_writtenCandidates _)
        (quiet_writtenCandidates _) ?_
      intro n t t' ht
      exact .cons ((spoken_keyword _).respelled hm hm') (.cons ht .nil)
  | param g =>
    have hv : (g.map source').toValue = (g.map source).toValue := hv
    have hdeclare := parallel_declare hm hm' hd (Parameters.plainDeclaration_of_unquoted hw hq)
    unfold Phrase.map Phrase.write
    dsimp only
    rw [hv]
    refine hdeclare.guarded hd (quiet_onParameters _) (quiet_onParameters _) ?_
    intro n t t' ht
    exact .cons ht .nil

end

end Phrase

/-! ## Calls -/

/-- The calls that answer with placeholders, with texts as they are shown, or with the marking. -/
def Call.ShowsMarking {ρ : Type} : Call ρ → Prop
  | .raw _ | .compiled true | .quoted | .marking => True
  | _ => False

namespace Draft

variable {d d' : Draft} {source source' : Text → Source}

/-- Answers of the same outcome, with related drafts. -/
def Together {α : Type} (m m' : Marking) (r r' : Except Error α × Draft) : Prop :=
  SameOutcome r.1 r'.1 ∧ r.2.Respelled m m' r'.2

theorem Together.acknowledge {r r' : Except Error Unit × Draft} (h : Together m m' r r') :
    Together m m' (acknowledge r) (acknowledge r') :=
  ⟨h.1.map _, h.2⟩

theorem together_say {p p' : Phrase Source}
    (h : Edit.Parallel m m' (fun _ _ _ => True) (p.write.run d) (p'.write.run d')) :
    Together m m' (d.say p) (d'.say p') := by
  unfold say
  generalize p.write.run d = r, p'.write.run d' = r' at h
  cases h with
  | ok _ he => exact ⟨rfl, he⟩
  | error e he => exact ⟨rfl, he⟩

theorem together_assign (hd : d.Respelled m m' d') {x x' : Except Error Draft}
    (h : Jointly (Respelled m m') x x') : Together m m' (d.assign x) (d'.assign x') := by
  cases h with
  | ok he => exact ⟨rfl, he⟩
  | error e => exact ⟨rfl, hd⟩

namespace Respelled

variable (hd : d.Respelled m m' d')
include hd

theorem setParam (reference value : Value) :
    Jointly (Respelled m m') (d.setParam reference value) (d'.setParam reference value) := by
  obtain ⟨marking, statement, o⟩ := d
  obtain ⟨marking', statement', o'⟩ := d'
  have hp : Option.Rel (Parameters.Respelled m m') o o' := hd.parameters
  cases hp with
  | none => exact .error _
  | some hp =>
    refine (hp.set reference value).map ?_
    rintro q q' ⟨hq, hcount⟩
    exact hd.holding hq (Nat.le_of_eq hcount.symm)

theorem setParams (values : List Value) :
    Jointly (Respelled m m') (d.setParams values) (d'.setParams values) := by
  obtain ⟨marking, statement, o⟩ := d
  obtain ⟨marking', statement', o'⟩ := d'
  have hp : Option.Rel (Parameters.Respelled m m') o o' := hd.parameters
  cases hp with
  | none =>
    unfold Draft.setParams
    dsimp only
    split
    · exact .ok hd
    · exact .error _
  | some hp =>
    refine (hp.setAll values).map ?_
    rintro q q' ⟨hq, hcount⟩
    exact hd.holding hq (Nat.le_of_eq hcount.symm)

theorem clearParams : d.clearParams.Respelled m m' d'.clearParams := by
  obtain ⟨marking, statement, o⟩ := d
  obtain ⟨marking', statement', o'⟩ := d'
  have hp : Option.Rel (Parameters.Respelled m m') o o' := hd.parameters
  cases hp with
  | none => exact hd
  | @some p p' hp => exact hd.holding hp.clear (Nat.le_of_eq p.slotCount_clear.symm)

end Respelled

section
variable (hm : m.Legible) (hm' : m'.Legible) (hd : d.Respelled m m' d')
  (hs : ∀ r, (source r).Respelled m m' (source' r))
  (hw : ∀ r, (source r).raw.IsWord → (source r).raw.Unquoted)
include hm hm' hd hs hw

/-- **A call is answered alike with either marking**, unless it asks for the marking. -/
theorem together_respond {call : Call Text} (hc : call.Structured)
    (hv : call.AllRead (Given.SameRead source source')) (hshow : ¬ call.ShowsMarking) :
    Together m m' (d.respond (call.map source)) (d'.respond (call.map source')) := by
  cases call with
  | say q => exact (together_say (Phrase.parallel_phrase hm hm' hd hs hw hc hv)).acknowledge
  | page k g =>
    obtain ⟨n, rfl⟩ := Given.Integer.exists_int hc
    refine Together.acknowledge ?_
    have hbare : (Phrase.bare (.value (.int n))).Structured := trivial
    exact together_say (Phrase.parallel_phrase hm hm' (hd.start k) hs hw hbare trivial)
  | setParam reference value =>
    have h₁ : (reference.map source').toValue = (reference.map source).toValue := hv.1
    have h₂ : (value.map source').toValue = (value.map source).toValue := hv.2
    refine Together.acknowledge ?_
    rw [h₁, h₂]
    exact together_assign hd (hd.setParam _ _)
  | setParams values =>
    refine Together.acknowledge ?_
    rw [toValues_eq_of_sameRead hv]
    exact together_assign hd (hd.setParams _)
  | clearParams => exact (together_assign hd (.ok hd.clearParams)).acknowledge
  | compiled pretty =>
    cases pretty with
    | false => exact ⟨(hd.compiled hm hm').map _, hd⟩
    | true => exact absurd trivial hshow
  | raw | quoted | marking => exact absurd trivial hshow

end

end Draft

/-! ## Runs of calls -/

theorem Call.ShowsMarking.reads {call : Call Text} (h : call.ShowsMarking) : call.Reads := by
  cases call with
  | raw | compiled | quoted | marking => trivial
  | say | page | setParam | setParams | clearParams => cases h

namespace Drafts

variable {s s' : Drafts}

/-- What is given is a value, or a statement that reads without placeholders. -/
def Unmarked (s : Drafts) : Given Text → Prop
  | .value _ => True
  | .statement r => placeholders (s r).marking (ofText (s r).raw) = []

instance (s : Drafts) : DecidablePred s.Unmarked := fun g =>
  match g with
  | .value _ => .isTrue trivial
  | .statement r => inferInstanceAs (Decidable (placeholders (s r).marking (ofText (s r).raw) = []))

/-- The same statements, written with each marking. -/
def Respelled (m m' : Marking) (s s' : Drafts) : Prop := ∀ n, (s n).Respelled m m' (s' n)

theorem raw_source (s : Drafts) (name r : Text) : (s.source name r).raw = (s r).raw := by
  unfold source
  split <;> rfl

section
variable (hm : m.Legible) (hm' : m'.Legible) (h : s.Respelled m m' s')
include hm hm' h

theorem Respelled.source (name r : Text) :
    (s.source name r).Respelled m m' (s'.source name r) := by
  unfold Drafts.source
  split
  · exact .own _ _
  · exact .other (h r).parameters ((h r).ownParameters_eq ▸ (h r).raw hm hm')

/-- A statement without placeholders reads the same with either marking. -/
theorem Respelled.sameRead (name : Text) {g : Given Text} (hg : s.Unmarked g) :
    g.SameRead (s.source name) (s'.source name) := by
  cases g with
  | value v => rfl
  | statement r =>
    have hnone : placeholders (s r).marking (ofText (s r).raw) = [] := hg
    rw [(h r).marking_left] at hnone
    show Value.statement (s'.source name r).raw = Value.statement (s.source name r).raw
    rw [raw_source, raw_source, ((h r).raw hm hm').eq_of_placeholders_eq_nil hnone]

/-- **A call keeps drafts related.** -/
theorem respelled_step (name : Text) {call : Call Text} (hc : call.Structured)
    (hread : call.AllRead s.Unmarked) :
    (¬ call.ShowsMarking → SameOutcome (s.step name call).1 (s'.step name call).1) ∧
      (s.step name call).2.Respelled m m' (s'.step name call).2 := by
  by_cases hshow : call.ShowsMarking
  · refine ⟨absurd hshow, ?_⟩
    rw [step_of_reads s name hshow.reads, step_of_reads s' name hshow.reads]
    exact h
  · have hword : ∀ r, (s.source name r).raw.IsWord → (s.source name r).raw.Unquoted := by
      intro r hr
      rw [raw_source] at hr ⊢
      exact (s r).statement.unquoted_render hr
    obtain ⟨hsame, hnext⟩ := Draft.together_respond hm hm' (h name) (h.source hm hm' name) hword hc
      (hread.imp fun _ hg => h.sameRead hm hm' name hg) hshow
    refine ⟨fun _ => hsame, ?_⟩
    intro n
    show Draft.Respelled m m' (if n = name then _ else s n) (if n = name then _ else s' n)
    split
    · exact hnext
    · exact h n

end

end Drafts

namespace Session

/-- Statements that calls read as values have no placeholders at that time. -/
def ReadsUnmarked (s : Session) : List (Text × Call Text) → Prop
  | [] => True
  | (name, call) :: run => call.AllRead s.drafts.Unmarked ∧ ReadsUnmarked (s.step name call).2 run

instance decidableReadsUnmarked (s : Session) (run : List (Text × Call Text)) :
    Decidable (s.ReadsUnmarked run) :=
  match run with
  | [] => .isTrue trivial
  | (name, call) :: run =>
    @instDecidableAnd _ _ inferInstance (decidableReadsUnmarked (s.step name call).2 run)

theorem sameOutcome_replies (hm : m.Legible) (hm' : m'.Legible) {s s' : Session} (hs : s.Coherent)
    (hs' : s'.Coherent) (h : s.drafts.Respelled m m' s'.drafts) {run : List (Text × Call Text)}
    (hrun : ∀ c ∈ run, c.2.Structured) (hread : s.ReadsUnmarked run) {i : Nat} {name : Text}
    {call : Call Text} (hi : run[i]? = some (name, call)) (hshow : ¬ call.ShowsMarking) :
    ∃ x x', (s.replies run)[i]? = some x ∧ (s'.replies run)[i]? = some x' ∧ SameOutcome x x' := by
  induction run generalizing s s' i with
  | nil => cases hi
  | cons c run ih =>
    obtain ⟨hc, hrest⟩ := List.forall_mem_cons.1 hrun
    obtain ⟨hr, hread⟩ := hread
    obtain ⟨hsame, hnext⟩ := Drafts.respelled_step hm hm' h c.1 hc hr
    obtain ⟨hreply, hdrafts, hcoh⟩ := hs.step_eq c.1 c.2
    obtain ⟨hreply', hdrafts', hcoh'⟩ := hs'.step_eq c.1 c.2
    rw [← hreply, ← hreply'] at hsame
    rw [← hdrafts, ← hdrafts'] at hnext
    cases i with
    | zero =>
      cases hi
      exact ⟨_, _, rfl, rfl, hsame hshow⟩
    | succ i => exact ih hcoh hcoh' hnext hrest hread hi

/-- **Legible markings are interchangeable.**  Structured calls are put to builders that all
    have one marking, and the same calls to builders that all have another.  If both markings
    are legible, every call is answered alike: a statement compiles to the same text with
    either, or to a failure with the same cause, which may show another placeholder.  Only
    what asks for placeholders or for the marking is answered differently: a call that does, or
    one that takes the text of a statement with placeholders for a value. -/
theorem replies_interchangeable (hm : m.Legible) (hm' : m'.Legible) {run : List (Text × Call Text)}
    (hrun : ∀ c ∈ run, c.2.Structured) (hread : (opened fun _ => m).ReadsUnmarked run) (i : Nat)
    (name : Text) (call : Call Text) (hi : run[i]? = some (name, call)) (hshow : ¬ call.ShowsMarking) :
    ∃ x x', ((opened fun _ => m).replies run)[i]? = some x ∧
      ((opened fun _ => m').replies run)[i]? = some x' ∧
        x.mapError Error.unspelled = x'.mapError Error.unspelled := by
  have hstart : Drafts.Respelled m m' (opened fun _ => m).drafts (opened fun _ => m').drafts :=
    fun _ => Draft.respelled_empty m m'
  exact sameOutcome_replies hm hm' (coherent_opened _) (coherent_opened _) hstart hrun hread hi hshow

/-- A statement with a name in it takes in one with an ordinal, and is compiled too early: the
    failure shows the placeholder as the marking does.  Then it is compiled with values, one of
    which is another statement that has no placeholders. -/
theorem replies_interchangeable_subquery :
    let at_ : Marking := ⟨"@@", "@:", "#", by decide, by decide, by decide, by decide⟩
    let run : List (Text × Call Text) := [
      ("e", .say (.clause .select)),
      ("e", .say (.literal (.value (.int 1)))),
      ("c", .say (.clause .where_)),
      ("c", .say (.column ["v"] none none)),
      ("c", .say (.keyword .equal)),
      ("c", .say (.param (.value .null))),
      ("q", .say (.clause .select)),
      ("q", .say (.param (.value (.text "x")))),
      ("q", .say (.clause .from_)),
      ("q", .say (.subquery (.given (.statement "c")) (some "s".toList))),
      ("q", .page .limit (.value (.int 10))),
      ("q", .compiled false),
      ("q", .setParams [.value (.text "a"), .statement "e"]),
      ("q", .compiled false)]
    (∀ c ∈ run, c.2.Structured) ∧ (opened fun _ => .standard).ReadsUnmarked run ∧
      Marking.standard.Legible ∧ at_.Legible ∧
      (∃ x x', ((opened fun _ => .standard).replies run)[11]? = some x ∧
        ((opened fun _ => at_).replies run)[11]? = some x' ∧
          x.mapError Error.unspelled = x'.mapError Error.unspelled) ∧
      ((opened fun _ => .standard).replies run)[11]? = some (.error (.missingValue "$x")) ∧
      ((opened fun _ => at_).replies run)[11]? = some (.error (.missingValue "#x")) ∧
      ((opened fun _ => .standard).replies run)[13]? =
        some (.ok (.text "SELECT a FROM ( WHERE \"v\" = SELECT 1 ) AS \"s\" LIMIT 10")) ∧
      ((opened fun _ => at_).replies run)[13]? =
        some (.ok (.text "SELECT a FROM ( WHERE \"v\" = SELECT 1 ) AS \"s\" LIMIT 10")) := by
  intro at_ run
  have hrun : ∀ c ∈ run, c.2.Structured := by decide
  have hread : (opened fun _ => .standard).ReadsUnmarked run := by decide +kernel
  have hat : at_.Legible :=
    ⟨by decide, by decide, Marking.apart_of_foreign ⟨'@', by decide +kernel⟩ ⟨'@', by decide +kernel⟩⟩
  refine ⟨hrun, hread, Marking.legible_standard, hat, ?_, by decide +kernel, by decide +kernel,
    by decide +kernel, by decide +kernel⟩
  exact replies_interchangeable Marking.legible_standard hat hrun hread 11 "q" (.compiled false) rfl
    not_false

/-- A marking whose ordinal sign is a digit is accepted, but a number that is written after it
    is taken for a placeholder: what compiles with the standard marking fails with this one. -/
theorem replies_differ_digit_sign :
    let digit : Marking := ⟨"1", "$?", "$", by decide, by decide, by decide, by decide⟩
    let run : List (Text × Call Text) := [
      ("q", .say (.clause .select)),
      ("q", .say (.param (.value .null))),
      ("q", .page .limit (.value (.int 10))),
      ("q", .setParams [.value (.text "v")]),
      ("q", .compiled false)]
    Marking.ofSigns "1" "$?" "$" = .ok digit ∧ digit.ordinalSign.Unquoted ∧
      digit.namedSign.Unquoted ∧ (∀ c ∈ run, c.2.Structured) ∧
      (opened fun _ => .standard).ReadsUnmarked run ∧
      ((opened fun _ => .standard).replies run)[4]? = some (.ok (.text "SELECT v LIMIT 10")) ∧
      ((opened fun _ => digit).replies run)[4]? = some (.error (.outOfBounds 1 1 "$0")) := by
  intro digit run
  exact ⟨by decide, by decide, by decide, by decide, by decide +kernel, by decide +kernel,
    by decide +kernel⟩

end Session

end SqlCompose
