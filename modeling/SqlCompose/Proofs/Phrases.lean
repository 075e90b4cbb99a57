/-
  Phrases — which placeholders a phrase writes.

  * `Phrase.markers` lists the placeholders that a phrase writes: those that it declares
    and those of the statements that it takes in;
  * `Phrase.Structured` lists the phrases that have no text of their own in them: their
    names are quoted here, their literals are escaped here, and what they refer to is
    declared here;
  * `gives_declare`, `gives_embed` and `gives_writtenCandidates` say what is carried by the
    texts of which a phrase is made;
  * `Draft.Grown` says that tokens were written that carry certain placeholders.
-/
import SqlCompose.Proofs.Edits
import SqlCompose.Proofs.Growth

namespace SqlCompose

open Template

/-! ## Structured phrases -/

/-- A name that is written with quotes around it, if there is one. -/
def Unwrapped (label : Option Text) : Prop := ∀ n, label = some n → ¬ Text.WrappedIn '"' n

/-- A reference that has no quotes in it, if it can be a name at all. -/
def Given.Plain : Given Text → Prop
  | .value v => v.display.IsWord → v.display.Unquoted
  | .statement _ => True

/-- A literal that is no floating point number. -/
def Given.Scalar : Given Text → Prop
  | .value .null | .value (.bool _) | .value (.int _) | .value (.text _) => True
  | _ => False

/-- A number. -/
def Given.Integer : Given Text → Prop
  | .value (.int _) => True
  | _ => False

/-- The phrases without a text that is written as it is. -/
def Phrase.Structured : Phrase Text → Prop
  | .clause _ | .keyword _ | .existence _ => True
  | .using_ columns => ∀ n ∈ columns, ¬ Text.WrappedIn '"' n
  | .column path type label => (∀ n ∈ path, ¬ Text.WrappedIn '"' n) ∧ type = none ∧ Unwrapped label
  | .allColumns qualifier => Unwrapped qualifier
  | .table schema name label =>
    ¬ Text.WrappedIn '"' schema ∧ ¬ Text.WrappedIn '"' name ∧ Unwrapped label
  | .literal g => g.Scalar
  | .bare g => g.Integer
  | .definition _ label | .subquery _ label => Unwrapped label
  | .membership candidates => ∀ g ∈ candidates, g.Plain
  | .param reference => reference.Plain
  | .verbatim _ | .procedure _ _ | .function _ _ _ _ | .aggregate _ _ _ _ _ => False

instance (label : Option Text) : Decidable (Unwrapped label) :=
  match label with
  | none => .isTrue nofun
  | some n =>
    decidable_of_iff (¬ Text.WrappedIn '"' n) ⟨fun h _ hk => Option.some.inj hk ▸ h, fun h => h n rfl⟩

instance (g : Given Text) : Decidable g.Plain :=
  match g with
  | .value _ => inferInstanceAs (Decidable (_ → _))
  | .statement _ => .isTrue trivial

instance (g : Given Text) : Decidable g.Scalar :=
  match g with
  | .value .null | .value (.bool _) | .value (.int _) | .value (.text _) => .isTrue trivial
  | .value (.float _) | .value (.statement _) | .statement _ => .isFalse id

instance (g : Given Text) : Decidable g.Integer :=
  match g with
  | .value (.int _) => .isTrue trivial
  | .value .null | .value (.bool _) | .value (.float _) | .value (.text _)
  | .value (.statement _) | .statement _ => .isFalse id

instance (q : Phrase Text) : Decidable q.Structured :=
  match q with
  | .clause _ | .keyword _ | .existence _ => .isTrue trivial
  | .using_ columns => inferInstanceAs (Decidable (∀ n ∈ columns, ¬ Text.WrappedIn '"' n))
  | .column path _ _ =>
    inferInstanceAs (Decidable ((∀ n ∈ path, ¬ Text.WrappedIn '"' n) ∧ _ = none ∧ Unwrapped _))
  | .table _ _ _ => inferInstanceAs (Decidable (¬ _ ∧ ¬ _ ∧ Unwrapped _))
  | .allColumns _ | .definition _ _ | .subquery _ _ => inferInstanceAs (Decidable (Unwrapped _))
  | .literal g => inferInstanceAs (Decidable g.Scalar)
  | .bare g => inferInstanceAs (Decidable g.Integer)
  | .membership candidates => inferInstanceAs (Decidable (∀ g ∈ candidates, g.Plain))
  | .param g => inferInstanceAs (Decidable g.Plain)
  | .verbatim _ | .procedure _ _ | .function _ _ _ _ | .aggregate _ _ _ _ _ => .isFalse id

/-! ## The placeholders of a phrase -/

section
variable (p : Parameters) (source : Text → Source) (carried : Text → List Text)

/-- What is carried by a statement that is taken in, with its ordinals moved on. -/
def takenIn : Argument Text → List Text
  | .given (.statement r) => (carried r).map (p.marking.shift p.ordinals)
  | _ => []

/-- The placeholders that `IN` writes. -/
def candidateMarkers : List (Given Text) → List Text
  | [.statement r] => takenIn p carried (.given (.statement r))
  | [.value (.int n)] => (p.declareAll (List.replicate n.toNat none)).1
  | candidates => (p.declareAll ((candidates.map (·.map source)).map fun g => .ofValue g.toValue)).1

/-- The placeholders that a phrase writes where `p` is declared: those that it declares, by
    itself or among the arguments of a call, and those that are `carried` by the statements
    it takes in. -/
def Phrase.markers : Phrase Text → List Text
  | .definition sub _ | .subquery sub _ | .existence sub => takenIn p carried sub
  | .membership candidates => candidateMarkers p source carried candidates
  | .param reference => [p.markerFor (.ofValue (reference.map source).toValue)]
  | .procedure _ arguments | .function _ _ _ arguments =>
    (p.declareAll (declarations (arguments.map (·.map source)))).1
  | .aggregate _ _ _ _ argument => (p.declareAll (declarations [argument.map source])).1
  | _ => []

end

/-! ## What is written -/

/-- The draft `d'` is `d` with tokens that carry `ms`.  Other clauses than the
    current one are written to without placeholders only. -/
structure Draft.Grown (source : Text → Source) (carried : Text → List Text) (d d' : Draft)
    (ms : List Text) : Prop where
  marking_eq : d'.marking = d.marking
  written : ∃ k ts, (d.statement.current = some k ∨ (d.statement.tokens? k).isSome ∧ ms = []) ∧
    CarryAll ts ms ∧
      d'.statement = d.statement.setTokens k ((d.statement.tokens? k).getD [] ++ ts)
  grows : Grows source carried d.parameters ms d'.parameters

/-! ## Placeholders that are declared -/

namespace Parameters

theorem carries_of_isKey {ordinals : Nat} {t : Text} (h : Marking.standard.IsKey ordinals t)
    (hn : ∀ name : Text, t = Marking.standard.namedMarker name → name.Unquoted) :
    Carries t [t] := by
  rcases h with ⟨n, -, -, rfl⟩ | ⟨name, hw, rfl⟩
  · obtain ⟨hspace, hq₁, hq₂⟩ := not_mem_of_nat? (Numeral.nat?_ofNat n)
    have hp : Marking.standard.isPlaceholder (Marking.standard.ordinalMarker n) = true := by
      rw [Marking.isPlaceholder, Marking.read?_ordinalMarker]
      rfl
    refine carries_marker hp ?_ ?_ ?_
    · simpa [Marking.ordinalMarker, Marking.standard] using hspace
    · simpa [Marking.ordinalMarker, Marking.standard] using hq₁
    · simpa [Marking.ordinalMarker, Marking.standard] using hq₂
  · obtain ⟨h₁, h₂⟩ := hn name rfl
    have hspace := hw.not_mem_space
    have hp : Marking.standard.isPlaceholder (Marking.standard.namedMarker name) = true := by
      rw [Marking.isPlaceholder, Marking.read?_namedMarker _ hw]
      rfl
    refine carries_marker hp ?_ ?_ ?_
    · simpa [Marking.namedMarker, Marking.standard] using hspace
    · simpa [Marking.namedMarker, Marking.standard] using h₁
    · simpa [Marking.namedMarker, Marking.standard] using h₂

/-- A declaration whose name, if it can be one, has no quotes. -/
def PlainDeclaration (d : Declaration) : Prop :=
  ∀ name : Text, d = some (.named name) → name.IsWord → name.Unquoted

variable {p : Parameters}

theorem carries_markerFor (hm : p.marking = .standard) {d : Declaration}
    (hc : check p.ordinals d = .ok ()) (hd : PlainDeclaration d) :
    Carries (p.markerFor d) [p.markerFor d] := by
  have hkey := isKey_markerFor hc
  rw [hm] at hkey
  apply carries_of_isKey hkey
  intro name he
  rw [check_eq_ok_iff] at hc
  rw [← hm] at he
  rcases d with _ | n | name'
  · exact absurd he (p.marking.ordinalSign_append_ne_namedSign_append _ _)
  · exact absurd he (p.marking.ordinalSign_append_ne_namedSign_append _ _)
  · cases List.append_cancel_left he
    exact hd _ rfl hc

theorem carries_declareAll (hm : p.marking = .standard) {ds : List Declaration}
    (hc : checkAll p.ordinals ds = .ok ()) (hd : ∀ d ∈ ds, PlainDeclaration d) :
    ∀ t ∈ (p.declareAll ds).1, Carries t [t] := by
  induction ds generalizing p with
  | nil =>
    intro t ht
    cases ht
  | cons d ds ih =>
    intro t ht
    obtain ⟨hc₁, hc₂⟩ := checkAll_cons_eq_ok_iff.1 hc
    have hds : ∀ e ∈ ds, PlainDeclaration e := by
      intro e he
      exact hd e (by simp [he])
    rcases List.mem_cons.1 ht with rfl | ht
    · exact carries_markerFor hm hc₁ (hd d (by simp))
    · exact ih (p.marking_declare d ▸ hm) hc₂ hds t ht

theorem plainDeclaration_of_unquoted {source : Text → Source}
    (hs : ∀ r, (source r).raw.IsWord → (source r).raw.Unquoted) {g : Given Text} (hg : g.Plain) :
    PlainDeclaration (.ofValue (g.map source).toValue) := by
  intro name he hw
  cases g with
  | value v =>
    cases v with
    | null | int => cases he
    | bool | float | text | statement => cases he; exact hg hw
  | statement r =>
    cases he
    exact hs r hw

theorem plainDeclaration_ofValue {source : Text → Source} {carried : Text → List Text}
    (hs : ∀ r, (source r).Sound (carried r)) {g : Given Text} (hg : g.Plain) :
    PlainDeclaration (.ofValue (g.map source).toValue) := by
  refine plainDeclaration_of_unquoted ?_ hg
  intro r hw
  have hr := hs r
  cases hsrc : source r with
  | own raw => rw [hsrc] at hr hw; exact hr hw
  | other raw o => rw [hsrc] at hr hw; exact hr.1 hw

theorem carries_of_merge {c q : Parameters} {raw t : Text} {ms : List Text}
    (hm : p.marking = .standard) (hraw : Carries raw ms) {ordinals : Nat}
    (hkey : ∀ u ∈ ms, p.marking.IsKey ordinals u) (h : p.merge raw c = .ok (t, q)) :
    q = p.absorb c ∧ Carries t (ms.map (Marking.standard.shift p.ordinals)) := by
  obtain ⟨-, rfl, rfl⟩ := merge_eq_ok_iff.1 h
  refine ⟨rfl, ?_⟩
  by_cases h₀ : p.ordinals = 0
  · have hid : ∀ u ∈ ms, Marking.standard.shift p.ordinals u = u := by
      intro u hu
      rw [← hm, shift_of_isKey (hkey u hu), renumber_of_isKey_of_ordinals (hkey u hu) h₀]
    rw [if_pos h₀, List.map_congr_left hid, List.map_id']
    exact hraw
  · rw [if_neg h₀, hm]
    exact hraw.movedOn p.ordinals

end Parameters

/-! ## What edits give -/

/-- A draft whose placeholders are written in the standard way and are consistent. -/
structure Draft.Ready (d : Draft) : Prop where
  marking_eq : d.marking = .standard
  parameters : Sane d.parameters

theorem Draft.Ready.ownParameters_eq {d : Draft} (hd : d.Ready) :
    d.ownParameters = held d.parameters := by
  rw [Draft.ownParameters, hd.marking_eq]

/-- A draft that is kept holds what it held. -/
theorem Draft.Ready.held_eq {d d' : Draft} (hd : d.Ready) (hk : d.Kept d') :
    held d'.parameters = held d.parameters := by
  have hkept := hk.ownParameters_eq
  rw [hd.ownParameters_eq, Draft.ownParameters, hk.marking_eq, hd.marking_eq] at hkept
  exact hkept

/-- The edit gives a text that carries `ms`, and the parameters get these. -/
def Gives (source : Text → Source) (carried : Text → List Text) (x : Edit Text) (d : Draft)
    (ms : List Text) : Prop :=
  ∀ t d', x.run d = .ok t d' → Carries t ms ∧ Grows source carried d.parameters ms d'.parameters

section
variable {source : Text → Source} {carried : Text → List Text} {d d' : Draft} {ms : List Text}

theorem run_declareAll (hd : d.Ready) {ds : List Declaration}
    (h : (Edit.declareAll ds).run d = .ok ms d') :
    Parameters.checkAll (held d.parameters).ordinals ds = .ok () ∧
      ms = ((held d.parameters).declareAll ds).1 ∧
      d'.parameters = some ((held d.parameters).declareAll ds).2 := by
  obtain ⟨q, hq, rfl⟩ := Edit.run_onParameters_eq_ok_iff.1 h
  rw [hd.ownParameters_eq] at hq
  obtain ⟨hc, he⟩ := Parameters.allocateAll_eq_ok_iff.1 hq
  rw [← he]
  exact ⟨hc, rfl, rfl⟩

theorem gives_declare (hd : d.Ready) {e : Declaration} (he : Parameters.PlainDeclaration e) :
    Gives source carried (Edit.declare e) d [(held d.parameters).markerFor e] := by
  intro t d' h
  obtain ⟨q, hq, rfl⟩ := Edit.run_onParameters_eq_ok_iff.1 h
  rw [hd.ownParameters_eq] at hq
  obtain ⟨hc, rfl, rfl⟩ := Parameters.allocate_eq_ok_iff.1 hq
  refine ⟨Parameters.carries_markerFor hd.parameters.spec.2 hc he, ?_⟩
  exact @Grows.declared _ _ _ [e] (Parameters.checkAll_cons_eq_ok_iff.2 ⟨hc, rfl⟩)

theorem gives_list (hd : d.Ready) {ds : List Declaration}
    (hds : ∀ e ∈ ds, Parameters.PlainDeclaration e) :
    Gives source carried (do return Fragment.list (← Edit.declareAll ds)) d
      ((held d.parameters).declareAll ds).1 := by
  intro t d' h
  obtain ⟨ms, hr, rfl⟩ := Edit.run_map_eq_ok h
  obtain ⟨hc, rfl, hp⟩ := run_declareAll hd hr
  have hmarkers := Parameters.carries_declareAll hd.parameters.spec.2 hc hds
  refine ⟨(CarryAll.of_markers hmarkers).list, ?_⟩
  rw [hp]
  exact .declared hc

/-- A statement that is taken in carries what it carried, moved on behind what is
    declared so far. -/
theorem gives_embed (hs : ∀ r, (source r).Sound (carried r)) (hd : d.Ready) (sub : Argument Text) :
    Gives source carried (Edit.embed (sub.map source)) d
      (takenIn (held d.parameters) carried sub) := by
  intro t d' h
  obtain ⟨hP, hm⟩ := hd.parameters.spec
  obtain ⟨raw, o, hsub, hcases⟩ := Edit.run_embed_cases h
  cases sub with
  | column | value | param => cases hsub
  | given g =>
    cases g with
    | value => cases hsub
    | statement r =>
      have hsrc : source r = .other raw o := by injection hsub with h; injection h
      have hr := hs r
      rw [hsrc] at hr
      obtain ⟨-, hraw, ho, hown⟩ := hr
      rw [takenIn, hm]
      rcases hcases with ⟨hnone, rfl, rfl⟩ | ⟨inner, q, rfl, hq, rfl⟩
      · -- without slots nothing is carried
        have hcarried : carried r = [] := by
          rw [List.eq_nil_iff_forall_not_mem]
          intro u hu
          obtain ⟨p, s, rfl, hb⟩ := hown u hu
          have hlt := (ho p rfl).1.lt_of_isBound hb
          have h₀ := hnone p rfl
          omega
        rw [hcarried] at hraw ⊢
        exact ⟨hraw, .same⟩
      · obtain ⟨hi, him⟩ := ho inner rfl
        rw [hd.ownParameters_eq] at hq
        have hkey : ∀ u ∈ carried r, (held d.parameters).marking.IsKey inner.ordinals u := by
          rintro u hu
          obtain ⟨_, s, ⟨⟩, hb⟩ := hown u hu
          rw [hm, ← him]
          exact hi.isKey_of_isBound hb
        obtain ⟨rfl, ht⟩ := Parameters.carries_of_merge hm hraw hkey hq
        exact ⟨ht, .absorbed hsrc⟩

/-- What `IN` looks in carries the placeholders declared for it. -/
theorem gives_writtenCandidates (hs : ∀ r, (source r).Sound (carried r)) (hd : d.Ready)
    {gs : List (Given Text)} (hg : ∀ g ∈ gs, g.Plain) :
    Gives source carried (Phrase.writtenCandidates (gs.map (·.map source))) d
      (candidateMarkers (held d.parameters) source carried gs) := by
  have hplain : ∀ e ∈ (gs.map (·.map source)).map fun g => Declaration.ofValue g.toValue,
      Parameters.PlainDeclaration e := by
    intro e he
    rw [List.map_map] at he
    obtain ⟨g, hgs, rfl⟩ := List.mem_map.1 he
    exact Parameters.plainDeclaration_ofValue hs (hg g hgs)
  have hall := @gives_list source carried _ hd _ hplain
  rcases gs with _ | ⟨g, _ | ⟨g', gs⟩⟩
  · exact hall
  · cases g with
    | statement r =>
      intro t d' h
      obtain ⟨u, hr, rfl⟩ := Edit.run_map_eq_ok h
      obtain ⟨hu, hgrows⟩ := gives_embed hs hd (.given (.statement r)) u d' hr
      exact ⟨hu.group, hgrows⟩
    | value v =>
      cases v with
      | int n =>
        intro t d' h
        have h : (if n < 1 then throw (.countNotPositive n)
          else do return Fragment.list (← Edit.declareAll (List.replicate n.toNat none)) :
            Edit Text).run d = .ok t d' := h
        split at h
        · cases h
        · refine gives_list hd ?_ t d' h
          intro e he name hname
          rw [List.eq_of_mem_replicate he] at hname
          cases hname
      | null | bool | float | text | statement => exact hall
  · cases g with
    | statement r => exact hall
    | value v => cases v <;> exact hall

/-! ## What phrases write -/

namespace Draft.Grown

theorem of_write {ts : List Text} (hts : CarryAll ts []) (h : (Edit.write ts).run d = .ok () d') :
    d.Grown source carried d' [] := by
  rw [Edit.run_write] at h
  split at h
  · cases h
  · next k hk =>
    cases h
    exact ⟨rfl, ⟨k, ts, .inl hk, hts, rfl⟩, .same⟩

theorem of_writeTo {k : Clause} {ts : List Text} (hts : CarryAll ts [])
    (h : (Edit.writeTo k ts).run d = .ok () d') : d.Grown source carried d' [] := by
  rw [Edit.run_writeTo] at h
  split at h
  · cases h
  · next us hk =>
    cases h
    refine ⟨rfl, ⟨k, ts, .inr ⟨by rw [hk]; rfl, rfl⟩, hts, ?_⟩, .same⟩
    rw [hk]
    rfl

/-- Writing what a quiet edit gives. -/
theorem of_quiet {α : Type} {x : Edit α} (hq : Edit.Quiet x) {f : α → List Text}
    (hx : ∀ a d', x.run d = .ok a d' →
      CarryAll (f a) ms ∧ Grows source carried d.parameters ms d'.parameters)
    (h : (do Edit.requireClause; let a ← x; Edit.write (f a)).run d = .ok () d') :
    d.Grown source carried d' ms := by
  rw [Edit.run_guarded x f d hq] at h
  have hd := hq d
  split at h
  · cases h
  · next k hk =>
    cases hr : x.run d with
    | error e d'' => rw [hr] at h; cases h
    | ok a d'' =>
      rw [hr] at h hd
      cases h
      obtain ⟨ha, hgrows⟩ := hx a d'' hr
      exact ⟨hd.1, ⟨k, f a, .inl hk, ha, rfl⟩, hgrows⟩

theorem of_guarded {x : Edit Text} (hq : Edit.Quiet x) (hx : Gives source carried x d ms)
    {f : Text → List Text} (hf : ∀ t, Carries t ms → CarryAll (f t) ms)
    (h : (do Edit.requireClause; let a ← x; Edit.write (f a)).run d = .ok () d') :
    d.Grown source carried d' ms := by
  refine of_quiet hq ?_ h
  intro t d'' hr
  obtain ⟨ht, hgrows⟩ := hx t d'' hr
  exact ⟨hf t ht, hgrows⟩

end Draft.Grown

end

/-! ## Tokens that carry nothing -/

theorem inert_keyword (w : Keyword) : Inert w.text := by
  refine inert_of_isBare ?_
  cases w <;> decide

theorem inert_ofInt (n : Int) : Inert (Numeral.ofInt n) := by
  have hdigit : ∀ k : Nat, ∀ c ∈ Numeral.ofNat k, IsBare c := by
    intro k c hc
    have hc := Numeral.isDigit_of_mem_ofNat hc
    refine ⟨?_, ?_, ?_⟩ <;> rintro rfl <;> revert hc <;> decide
  cases n with
  | ofNat k => exact inert_of_isBare (hdigit k)
  | negSucc k => exact (inert_of_isBare (hdigit (k + 1))).cons (by simp [IsBare])

theorem Given.Integer.exists_int {g : Given Text} (h : g.Integer) : ∃ n, g = .value (.int n) := by
  cases g with
  | statement r => cases h
  | value v =>
    cases v with
    | int n => exact ⟨n, rfl⟩
    | null | bool | float | text | statement => cases h

theorem inert_columns {columns : List Text} (h : ∀ n ∈ columns, ¬ Text.WrappedIn '"' n) :
    Carries (Fragment.list (columns.map Fragment.identifier)) [] := by
  refine (CarryAll.of_inert ?_).list
  intro t ht
  obtain ⟨n, hn, rfl⟩ := List.mem_map.1 ht
  have := inert_qualified (show ∀ k ∈ [n], ¬ Text.WrappedIn '"' k by simpa using h n hn)
  rwa [Fragment.qualified, List.map_singleton, List.intercalate_singleton] at this

end SqlCompose
