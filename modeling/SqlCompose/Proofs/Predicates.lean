/-
  Predicates — where `EXISTS` and `IN` stand in the text of a statement.

  A predicate is a word and something in parentheses.  The two are written as tokens of their
  own, so what stands between them is up to the clause: a space in a clause that is one
  expression, a comma in a clause that is a list.

  * `Statement.front` and `Statement.back` are the texts between which the next token of a clause
    stands, and `render_adding` says what two tokens make of the whole text;
  * `Phrase.Encloses` says what a predicate has in its parentheses, and `encloses_of_write` that
    nothing else is written;
  * `predicate_in_clause`: a predicate stands in one piece iff its clause is no list.
-/
import SqlCompose.Proofs.Associativity
import SqlCompose.Proofs.Batching
import SqlCompose.Proofs.Forgetting
import SqlCompose.Proofs.Sorting

namespace SqlCompose

open Fragment

/-! ## The place of a token -/

theorem intercalate_append_cons {α : Type} (sep t : List α) (ts us : List (List α)) :
    sep.intercalate (ts ++ t :: us) = ts.flatMap (· ++ sep) ++ t ++ us.flatMap (sep ++ ·) := by
  induction ts with
  | nil => exact intercalate_cons_eq sep t us
  | cons u ts ih =>
    rw [List.cons_append, List.intercalate_cons_of_ne_nil (by simp), ih]
    simp only [List.flatMap_cons, List.append_assoc]

namespace Clause

/-- The clauses in front of a clause. -/
def before (k : Clause) : List Clause := all.takeWhile (· ≠ k)

/-- The clauses behind a clause. -/
def behind (k : Clause) : List Clause := (all.dropWhile (· ≠ k)).tail

theorem all_eq_before_behind (k : Clause) : all = k.before ++ k :: k.behind := by
  cases k <;> rfl

theorem not_mem_before_behind (k : Clause) : k ∉ k.before ∧ k ∉ k.behind := by
  cases k <;> decide

/-- The tokens of a clause and what stands between them and one more token. -/
def led (k : Clause) (tokens : List Text) : Text :=
  if tokens = [] then [] else k.body tokens ++ k.separator

/-- A token that is no direction stands behind the separator of its clause. -/
theorem body_concat (k : Clause) (ts : List Text) {t : Text} (ht : ¬ IsDirection t) :
    k.body (ts ++ [t]) = k.led ts ++ t := by
  unfold led
  split
  · next hts =>
    subst hts
    unfold body
    split <;> simp [sortingKeys]
  · next hts =>
    unfold body
    split
    · next hk =>
      subst hk
      rw [sortingKeys_append hts, List.flatMap_singleton, sortingStep, if_neg ht, List.append_assoc]
      rfl
    · obtain ⟨u, us, rfl⟩ := List.exists_cons_of_ne_nil hts
      rw [List.cons_append, intercalate_cons_eq, intercalate_cons_eq, List.flatMap_append,
        List.flatMap_singleton]
      simp only [List.append_assoc]

end Clause

namespace Statement

/-- The texts of those of the given clauses that are open. -/
def texts (s : Statement) (ks : List Clause) : List Text :=
  ks.filterMap fun k => (s.tokens? k).map k.render

/-- The text in front of the next token of a clause. -/
def front (s : Statement) (k : Clause) : Text :=
  (s.texts k.before).flatMap (· ++ [' ']) ++ k.keyword ++ [' '] ++ k.led ((s.tokens? k).getD [])

/-- The text behind a clause. -/
def back (s : Statement) (k : Clause) : Text := (s.texts k.behind).flatMap ([' '] ++ ·)

theorem texts_setTokens (s : Statement) {k : Clause} (ts : List Text) {ks : List Clause}
    (hk : k ∉ ks) : (s.setTokens k ts).texts ks = s.texts ks := by
  refine List.filterMap_congr ?_
  intro k' hk'
  rw [tokens?_setTokens, if_neg]
  rintro rfl
  exact hk hk'

/-- The text of a statement around one of its clauses. -/
theorem render_setTokens (s : Statement) (k : Clause) (ts : List Text) :
    (s.setTokens k ts).render =
      (s.texts k.before).flatMap (· ++ [' ']) ++ k.render ts ++ s.back k := by
  obtain ⟨hbefore, hbehind⟩ := k.not_mem_before_behind
  show List.intercalate [' '] ((s.setTokens k ts).texts Clause.all) = _
  have hall : (s.setTokens k ts).texts Clause.all =
      s.texts k.before ++ k.render ts :: s.texts k.behind := by
    rw [k.all_eq_before_behind, texts, List.filterMap_append, List.filterMap_cons,
      tokens?_setTokens, if_pos rfl, ← s.texts_setTokens ts hbefore, ← s.texts_setTokens ts hbehind]
    rfl
  rw [hall, intercalate_append_cons]
  rfl

/-- **Two tokens stand between the front and the back of their clause**, with the separator of
    the clause between them. -/
theorem render_adding (s : Statement) (k : Clause) {t u : Text} (ht : ¬ IsDirection t)
    (hu : ¬ IsDirection u) (hne : u ≠ []) :
    (s.setTokens k ((s.tokens? k).getD [] ++ [t, u])).render =
      s.front k ++ (t ++ k.separator ++ u) ++ s.back k := by
  have hbody : k.body ((s.tokens? k).getD [] ++ [t, u]) =
      k.led ((s.tokens? k).getD []) ++ (t ++ k.separator ++ u) := by
    rw [List.append_cons, k.body_concat _ hu, Clause.led, if_neg (by simp), k.body_concat _ ht]
    simp only [List.append_assoc]
  have hrender : k.render ((s.tokens? k).getD [] ++ [t, u]) =
      k.keyword ++ [' '] ++ (k.led ((s.tokens? k).getD []) ++ (t ++ k.separator ++ u)) := by
    rw [Clause.render, hbody, if_neg (by simp [hne])]
  rw [render_setTokens, hrender, front]
  simp only [List.append_assoc]

end Statement

/-! ## What predicates write -/

/-- What is in parentheses is there, and is no direction. -/
theorem group_spec (t : Text) : group t ≠ [] ∧ ¬ IsDirection (group t) := by
  refine ⟨by simp [group], ?_⟩
  rintro (h | h) <;> cases h

namespace Draft

/-- The text of a statement in this one: its ordinals are moved on behind those there are.  A
    statement without slots stays as it is. -/
def takenText (d : Draft) (raw : Text) : Option Parameters → Text
  | none => raw
  | some inner =>
    if inner.slotCount = 0 ∨ d.ownParameters.ordinals = 0 then raw
    else Template.movedOn d.ownParameters.marking d.ownParameters.ordinals raw

/-- The next `n` ordinals. -/
def freshMarkers (d : Draft) (n : Nat) : List Text :=
  (List.range n).map fun i => d.ownParameters.marking.ordinalMarker (d.ownParameters.ordinals + i + 1 : Nat)

end Draft

/-- The word that a predicate begins with. -/
def Phrase.predicate? {ρ : Type} : Phrase ρ → Option Keyword
  | existence _ => some .exists_
  | membership _ => some .in_
  | _ => none

/-- What a predicate has in its parentheses: the text of a statement, as many fresh ordinals as
    a number says, or the placeholders of references. -/
inductive Phrase.Encloses (d : Draft) : Phrase Source → Text → Prop where
  | existence (raw : Text) (o : Option Parameters) :
    Encloses d (.existence (.given (.statement (.other raw o)))) (d.takenText raw o)
  | statement (raw : Text) (o : Option Parameters) :
    Encloses d (.membership [.statement (.other raw o)]) (d.takenText raw o)
  | count {n : Nat} : 1 ≤ n →
    Encloses d (.membership [.value (.int n)]) (comma.intercalate (d.freshMarkers n))
  | references {gs : List (Given Source)} {markers : List Text} {q : Parameters} :
    gs ≠ [] → (∀ r, gs ≠ [.statement r]) → (∀ n, gs ≠ [.value (.int n)]) →
      d.ownParameters.allocateAll (gs.map fun g => .ofValue g.toValue) = .ok (markers, q) →
        Encloses d (.membership gs) (comma.intercalate markers)

namespace Phrase

open Edit

variable {d d' : Draft}

theorem run_embed_eq_ok {sub : Argument Source} {t : Text} (h : (embed sub).run d = .ok t d') :
    ∃ raw o, sub = .given (.statement (.other raw o)) ∧ t = d.takenText raw o := by
  unfold embed at h
  split at h
  · cases h
  · cases h
    exact ⟨_, none, rfl, rfl⟩
  · next raw inner =>
    refine ⟨raw, some inner, rfl, ?_⟩
    split at h
    · next h₀ =>
      cases h
      rw [Draft.takenText, if_pos (.inl h₀)]
    · next h₀ =>
      obtain ⟨q, hq, -⟩ := run_onParameters_eq_ok_iff.1 h
      have hq : d.ownParameters.merge raw inner = .ok (t, q) := hq
      obtain ⟨-, -, rfl⟩ := Parameters.merge_eq_ok_iff.1 hq
      simp only [Draft.takenText, h₀, false_or]
  · cases h

/-- Fresh ordinals are numbered on from those there are. -/
theorem declareAll_replicate (p : Parameters) (n : Nat) :
    (p.declareAll (List.replicate n none)).1 =
      (List.range n).map fun i => p.marking.ordinalMarker (p.ordinals + i + 1 : Nat) := by
  induction n generalizing p with
  | zero => rfl
  | succ n ih =>
    have hplace : ∀ i, p.ordinals + 1 + i + 1 = p.ordinals + (i + 1) + 1 := by
      intro i
      omega
    rw [List.replicate_succ, List.range_succ_eq_map, List.map_cons, List.map_map]
    show p.markerFor none :: ((p.declare none).declareAll (List.replicate n none)).1 = _
    rw [ih]
    congr 1
    refine List.map_congr_left ?_
    intro i _
    show p.marking.ordinalMarker (p.ordinals + 1 + i + 1 : Nat) =
      p.marking.ordinalMarker (p.ordinals + (i + 1) + 1 : Nat)
    rw [hplace]

theorem run_list_eq_ok {ds : List Declaration} {t : Text}
    (h : (do return list (← Edit.declareAll ds) : Edit Text).run d = .ok t d') :
    ∃ markers q, d.ownParameters.allocateAll ds = .ok (markers, q) ∧ t = list markers := by
  obtain ⟨markers, hrun, rfl⟩ := run_map_eq_ok h
  obtain ⟨q, hq, -⟩ := run_onParameters_eq_ok_iff.1 hrun
  exact ⟨markers, q, hq, rfl⟩

/-- What `IN` looks in stands in parentheses. -/
theorem encloses_of_writtenCandidates {gs : List (Given Source)} (hgs : gs ≠ []) {t : Text}
    (h : (writtenCandidates gs).run d = .ok t d') :
    ∃ inside, Encloses d (.membership gs) inside ∧ t = group inside := by
  unfold writtenCandidates at h
  split at h
  · obtain ⟨u, hrun, rfl⟩ := run_map_eq_ok h
    obtain ⟨raw, o, hsub, rfl⟩ := run_embed_eq_ok hrun
    cases hsub
    exact ⟨_, .statement raw o, rfl⟩
  · next n =>
    split at h
    · cases h
    · next hn =>
      obtain ⟨k, rfl⟩ := Int.eq_ofNat_of_zero_le (show 0 ≤ n by omega)
      obtain ⟨markers, q, hq, rfl⟩ := run_list_eq_ok h
      have hmarkers : markers = d.freshMarkers k := by
        have hfresh := declareAll_replicate d.ownParameters k
        rw [← Int.toNat_natCast k, ← (Parameters.allocateAll_eq_ok_iff.1 hq).2, Int.toNat_natCast] at hfresh
        exact hfresh
      rw [hmarkers]
      exact ⟨_, .count (by omega), rfl⟩
  · next hstatement hint =>
    obtain ⟨markers, q, hq, rfl⟩ := run_list_eq_ok h
    exact ⟨_, .references hgs hstatement hint hq, rfl⟩

/-- What is written if there is a clause to write to. -/
theorem of_guarded_eq_ok {α : Type} {x : Edit α} (hx : Quiet x) {f : α → List Text}
    (h : (do requireClause; let a ← x; Edit.write (f a)).run d = .ok () d') :
    ∃ k a d₁, d.statement.current = some k ∧ x.run d = .ok a d₁ ∧
      d'.statement = d.statement.setTokens k ((d.statement.tokens? k).getD [] ++ f a) := by
  rw [run_guarded x f d hx] at h
  cases hk : d.statement.current with
  | none => rw [hk] at h; cases h
  | some k =>
    rw [hk] at h
    cases hr : x.run d with
    | error e d₁ => rw [hr] at h; cases h
    | ok a d₁ => rw [hr] at h; cases h; exact ⟨k, a, d₁, rfl, rfl, rfl⟩

/-- **A predicate writes its word and its parentheses, and nothing else.** -/
theorem encloses_of_write {p : Phrase Source} {word : Keyword} (hp : p.predicate? = some word)
    (h : p.write.run d = .ok () d') : ∃ k inside, d.statement.current = some k ∧
      Encloses d p inside ∧ d'.statement = d.statement.setTokens k
        ((d.statement.tokens? k).getD [] ++ [word.text, group inside]) := by
  cases p with
  | existence sub =>
    cases hp
    obtain ⟨k, t, d₁, hk, hrun, hd⟩ := of_guarded_eq_ok (quiet_embed sub) h
    obtain ⟨raw, o, rfl, rfl⟩ := run_embed_eq_ok hrun
    exact ⟨k, _, hk, .existence raw o, hd⟩
  | membership gs =>
    cases hp
    cases gs with
    | nil => cases h
    | cons g gs =>
      obtain ⟨k, t, d₁, hk, hrun, hd⟩ := of_guarded_eq_ok (quiet_writtenCandidates (g :: gs)) h
      obtain ⟨inside, hinside, rfl⟩ := encloses_of_writtenCandidates (List.cons_ne_nil g gs) hrun
      exact ⟨k, inside, hk, hinside, hd⟩
  | clause | keyword | using_ | column | allColumns | table | literal | bare | verbatim
  | definition | subquery | param | procedure | function | aggregate => cases hp

end Phrase

/-! ## What a session shows -/

@[simp] theorem Phrase.predicate?_map {ρ σ : Type} (f : ρ → σ) (p : Phrase ρ) :
    (p.map f).predicate? = p.predicate? := by
  cases p <;> rfl

theorem Phrase.not_isDirection_of_predicate? {ρ : Type} {p : Phrase ρ} {word : Keyword}
    (h : p.predicate? = some word) : ¬ IsDirection word.text := by
  cases p with
  | existence | membership => cases h; decide
  | clause | keyword | using_ | column | allColumns | table | literal | bare | verbatim
  | definition | subquery | param | procedure | function | aggregate => cases h

/-- The clauses that are lists. -/
def Clause.lists : List Clause := [with_, select, selectDistinct, groupBy, orderBy]

theorem Clause.separator_eq (k : Clause) :
    k.separator = if k ∈ lists then comma else [' '] := by
  cases k <;> rfl

/-- A builder that wrote a phrase reads as the statement that it has by then. -/
theorem Builder.say_eq_ok {b : Builder} {p : Phrase Source} (h : (b.say p).1 = .ok ()) :
    ∃ d, p.write.run b.draft = .ok () d ∧ (b.say p).2.text = d.raw := by
  unfold Builder.say at h ⊢
  cases hrun : p.write.run b.draft with
  | error e d => rw [hrun] at h; cases h
  | ok u d => exact ⟨d, rfl, rfl⟩

/-- A call that is carried out answers so. -/
theorem Builder.eq_ok_of_acknowledge {result : Except Error Unit × Builder}
    (h : (acknowledge result).1 = .ok .done) : result.1 = .ok () := by
  obtain ⟨r, b⟩ := result
  cases r with
  | ok u => rfl
  | error e => cases h

namespace Session

/-- **A predicate stands in its clause in one piece iff the clause is no list.**  Whatever is
    written already, and in every clause, a predicate that is accepted adds its word and its
    parentheses at the end of the current clause and changes nothing else: in front of them stand
    the clauses before it, its keyword and the tokens it has, behind them the other clauses.  In
    the parentheses are the text of the statement, as many fresh ordinals as the number says, or
    the placeholders of the references.  Between the word and the parentheses stands what
    separates the items of the clause, which is a space exactly in the clauses that are one
    expression, and a comma in the others. -/
theorem predicate_in_clause {s : Session} {name : Text} {p : Phrase Text} {word : Keyword}
    (hp : p.predicate? = some word) (hok : (s.step name (.say p)).1 = .ok .done) :
    let d := (s name).draft
    ∃ k inside, d.statement.current = some k ∧ (p.map (s.source name)).Encloses d inside ∧
      let raw := d.statement.front k ++ (word.text ++ k.separator ++ group inside) ++
        d.statement.back k
      ((s.step name (.say p)).2.step name (.raw false)).1 = .ok (.text raw) ∧
      (raw = d.statement.front k ++ (word.text ++ [' '] ++ group inside) ++ d.statement.back k ↔
        k ∉ Clause.lists) ∧
      (k ∈ Clause.lists → k.separator = comma) := by
  intro d
  have hsay : ((s name).say (p.map (s.source name))).1 = .ok () := Builder.eq_ok_of_acknowledge hok
  obtain ⟨d', hrun, htext⟩ := Builder.say_eq_ok hsay
  obtain ⟨k, inside, hk, hinside, hd⟩ :=
    Phrase.encloses_of_write ((Phrase.predicate?_map _ p).trans hp) hrun
  obtain ⟨hne, hgroup⟩ := group_spec inside
  refine ⟨k, inside, hk, hinside, ?_, ?_, ?_⟩
  · have hword := Phrase.not_isDirection_of_predicate? hp
    have hrender := (s name).draft.statement.render_adding k hword hgroup hne
    rw [← hd] at hrender
    rw [← hrender]
    show Except.ok (Reply.text ((s.step name (.say p)).2 name).text) = .ok (.text d'.raw)
    rw [← htext, step_self]
    rfl
  · rw [List.append_left_inj, List.append_right_inj, List.append_left_inj, List.append_right_inj,
      Clause.separator_eq]
    split
    · next h => simp [h, comma]
    · next h => simp [h]
  · intro h
    rw [Clause.separator_eq, if_pos h]

/-- A statement with an ordinal of its own, looked in behind a column of a statement that has an
    ordinal already. -/
theorem predicate_in_clause_membership :
    let s := start.after [
      ("c", .say (.clause .select)), ("c", .say (.param (.value .null))),
      ("q", .say (.clause .limit)), ("q", .say (.bare (.value (.int 3)))),
      ("q", .say (.clause .select)), ("q", .say (.param (.value .null))),
      ("q", .say (.clause .where_)), ("q", .say (.column ["a"] none none))]
    let p : Phrase Text := .membership [.statement "c"]
    p.predicate? = some .in_ ∧ (s.step "q" (.say p)).1 = .ok .done ∧
      ((s.step "q" (.say p)).2.step "q" (.raw false)).1 =
        .ok (.text "SELECT $$1 WHERE \"a\" IN ( SELECT $$2 ) LIMIT 3") ∧
      ∃ k inside, k ∉ Clause.lists ∧
        ((s.step "q" (.say p)).2.step "q" (.raw false)).1 =
          .ok (.text ((s "q").draft.statement.front k ++ ("IN".toList ++ [' '] ++ group inside) ++
            (s "q").draft.statement.back k)) := by
  intro s p
  have hok : (s.step "q" (.say p)).1 = .ok .done := by decide +kernel
  have hcurrent : (s "q").draft.statement.current = some .where_ := by decide +kernel
  obtain ⟨k, inside, hk, -, hraw, hone, -⟩ := predicate_in_clause (p := p) rfl hok
  cases hcurrent.symm.trans hk
  have hwhere : Clause.where_ ∉ Clause.lists := by decide
  refine ⟨rfl, hok, by decide +kernel, _, inside, hwhere, ?_⟩
  rw [hraw, hone.2 hwhere]
  rfl

/-- **In a list a predicate falls apart**: a comma stands between its word and its
    parentheses. -/
theorem predicate_divided_by_comma :
    let s := start.after [
      ("c", .say (.clause .select)), ("c", .say (.literal (.value (.int 1)))),
      ("q", .say (.clause .select))]
    let p : Phrase Text := .existence (.given (.statement "c"))
    (s.step "q" (.say p)).1 = .ok .done ∧
      ((s.step "q" (.say p)).2.step "q" (.raw false)).1 =
        .ok (.text "SELECT EXISTS , ( SELECT 1 )") ∧
      ¬ "EXISTS ( SELECT 1 )".toList <:+: "SELECT EXISTS , ( SELECT 1 )".toList := by
  decide +kernel

end Session

end SqlCompose
