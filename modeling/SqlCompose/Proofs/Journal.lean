/-
  Journal — what was written to the statements of a session.

  A journal is kept beside a session: it notes which clauses were opened and which
  placeholders were written, and knows nothing of the texts.

  * `History.markers` lists the placeholders written since their clause was opened
    last, in the order of the clauses and then of writing;
  * `Session.journal` is the journal after a run of calls;
  * `Draft.Moves` lists all that a call can do to a draft and what is noted of it, and
    `Draft.Answers` says that an answer comes with such a move;
  * `moves_of_step`: for a composed call this is all.
-/
import SqlCompose.Proofs.Composition
import SqlCompose.Proofs.Memory
import SqlCompose.Session

namespace SqlCompose

open Template

/-! ## Histories -/

/-- What happened to a statement. -/
inductive Entry where
  /-- A clause was opened, and what was in it is gone. -/
  | opened (k : Clause)
  /-- Tokens with the given placeholders were written to a clause. -/
  | wrote (k : Clause) (markers : List Text)

/-- What happened to a statement, the newest first. -/
abbrev History := List Entry

namespace History

/-- The clause that was opened last. -/
def current? : History → Option Clause
  | [] => none
  | .opened k :: _ => some k
  | .wrote _ _ :: h => current? h

/-- The placeholders written to a clause since it was opened last. -/
def surviving (k : Clause) : History → List Text
  | [] => []
  | .opened k' :: h => if k' = k then [] else surviving k h
  | .wrote k' ms :: h => if k' = k then surviving k h ++ ms else surviving k h

/-- The placeholders that still stand in the statement. -/
def markers (h : History) : List Text := Clause.all.flatMap fun k => surviving k h

end History

section
variable (p : Parameters) (source : Text → Source) (carried : Text → List Text) (h : History)

/-- What a phrase adds to the history `h`, if it does not fail. -/
def Phrase.entries : Phrase Text → List Entry
  | .clause k => [.opened k]
  | q =>
    match h.current? with
    | some k => [.wrote k (q.markers p source carried)]
    | none => []

/-- What a call adds to the history `h`, if it does not fail. -/
def Call.entries : Call Text → List Entry
  | .say q => q.entries p source carried h
  | .page k _ => [.wrote k [], .opened k]
  | _ => []

end

/-- A phrase opens a clause, or it is none that does. -/
theorem Phrase.eq_clause_or_ne {ρ : Type} (q : Phrase ρ) : (∃ k, q = .clause k) ∨ ∀ k, q ≠ .clause k := by
  rw [← not_exists]
  exact Classical.em _

/-- What is not the opening of a clause is noted for the open one, if there is one. -/
theorem Phrase.entries_of_ne {p : Parameters} {source : Text → Source} {carried : Text → List Text}
    {h : History} {q : Phrase Text} (hq : ∀ k, q ≠ .clause k) :
    q.entries p source carried h =
      (h.current?.map fun k => .wrote k (q.markers p source carried)).toList := by
  cases q with
  | clause k => exact absurd rfl (hq k)
  | _ =>
    simp only [entries]
    cases h.current? <;> rfl

/-! ## Sessions with a journal -/

/-- The calls that put structured phrases, or none. -/
def Call.Structured : Call Text → Prop
  | .say p => p.Structured
  | .page _ g => g.Integer
  | _ => True

instance (c : Call Text) : Decidable c.Structured :=
  match c with
  | .say p => inferInstanceAs (Decidable p.Structured)
  | .page _ g => inferInstanceAs (Decidable g.Integer)
  | .setParam _ _ | .setParams _ | .clearParams | .raw _ | .compiled _ | .quoted | .marking =>
    .isTrue trivial

/-- The calls that put composed phrases, or none. -/
def Call.Composed : Call Text → Prop
  | .say p => p.Composed
  | .page _ g => g.Word
  | _ => True

instance (c : Call Text) : Decidable c.Composed :=
  match c with
  | .say p => inferInstanceAs (Decidable p.Composed)
  | .page _ g => inferInstanceAs (Decidable g.Word)
  | .setParam _ _ | .setParams _ | .clearParams | .raw _ | .compiled _ | .quoted | .marking =>
    .isTrue trivial

theorem Call.Structured.composed {c : Call Text} (h : c.Structured) : c.Composed := by
  cases c with
  | say p => exact Phrase.Structured.composed h
  | page k g => exact Given.Integer.word h
  | setParam | setParams | clearParams | raw | compiled | quoted | marking => trivial

namespace Session

/-- The history of every builder. -/
abbrev Journal := Text → History

/-- The session in which nothing was asked yet of builders with the given markings. -/
def opened (m : Text → Marking) : Session := fun n => Builder.empty (m n)

/-- The session in which nothing was asked yet of builders with the standard marking. -/
def start : Session := opened fun _ => .standard

/-- The session after calls to its builders. -/
def after (s : Session) : List (Text × Call Text) → Session
  | [] => s
  | (name, call) :: run => after (s.step name call).2 run

/-- What a call adds to the history of a builder. -/
def news (s : Session) (j : Journal) (name : Text) (call : Call Text) : List Entry :=
  match (s.step name call).1 with
  | .ok _ =>
    call.entries (held (s name).draft.parameters) (s.source name) (fun r => (j r).markers) (j name)
  | .error _ => []

/-- The journal after a call. -/
def noted (s : Session) (j : Journal) (name : Text) (call : Call Text) : Journal :=
  fun n => if n = name then s.news j name call ++ j n else j n

/-- The journal after calls. -/
def journal (s : Session) (j : Journal) : List (Text × Call Text) → Journal
  | [] => j
  | (name, call) :: run => journal (s.step name call).2 (s.noted j name call) run

end Session

/-! ## What calls can do -/

/-- The draft is in order, and the history knows its open clause. -/
structure Draft.Follows (d : Draft) (h : History) : Prop where
  ready : d.Ready
  current_eq : d.statement.current = h.current?
  closed : h.current? = none → ∀ k, d.statement.tokens? k = none

/-- What a composed call can do to a draft with the history `h`, and what is noted of it. -/
inductive Draft.Moves (source : Text → Source) (carried : Text → List Text) (h : History)
    (d : Draft) : Draft → List Entry → Prop where
  | refilled {d' : Draft} : d.Refilled d' → Moves source carried h d d' []
  | kept {d' : Draft} : d.Kept d' → Moves source carried h d d' []
  | opened (k : Clause) :
    Moves source carried h d { d with statement := d.statement.start k } [.opened k]
  | grown {d' : Draft} {k : Clause} {ms : List Text} : h.current? = some k →
    d.Grown source carried d' ms → Moves source carried h d d' [.wrote k ms]
  | paged (k : Clause) {d' : Draft} :
    { d with statement := d.statement.start k }.Grown source carried d' [] →
      Moves source carried h d d' [.wrote k [], .opened k]

/-- The answer to a call comes with a draft that has moved, and `news` is what is noted
    unless the answer is a failure. -/
def Draft.Answers {α : Type} (source : Text → Source) (carried : Text → List Text) (h : History)
    (d : Draft) (r : Except Error α × Builder) (news : List Entry) : Prop :=
  d.Moves source carried h r.2.draft (match r.1 with
    | .ok _ => news
    | .error _ => [])

/-- Without an open clause there is nothing to write to. -/
theorem Draft.Grown.exists_current {source : Text → Source} {carried : Text → List Text} {h : History}
    {d d' : Draft} {ms : List Text} (hg : d.Grown source carried d' ms) (hd : d.Follows h) :
    ∃ k, h.current? = some k := by
  obtain ⟨k, ts, hwhere, -⟩ := hg.written
  rw [← Option.ne_none_iff_exists']
  intro hnone
  rw [hd.current_eq, hnone, hd.closed hnone k] at hwhere
  rcases hwhere with h' | ⟨h', -⟩ <;> cases h'

theorem Draft.Ready.start {d : Draft} (hd : d.Ready) (k : Clause) :
    { d with statement := d.statement.start k }.Ready :=
  ⟨hd.marking_eq, hd.parameters⟩

section
variable {source : Text → Source} {carried : Text → List Text} {b : Builder} {h : History}

theorem answers_acknowledge {d : Draft} {r : Except Error Unit × Builder} {news : List Entry}
    (hr : d.Answers source carried h r news) :
    d.Answers source carried h (Builder.acknowledge r) news := by
  obtain ⟨reply, b'⟩ := r
  cases reply <;> exact hr

theorem answers_of_writesNothing {call : Call Source} (hc : call.WritesNothing) :
    b.draft.Answers source carried h (b.respond call) [] := by
  have hrefilled := Builder.refilled_of_respond b hc
  unfold Draft.Answers
  split <;> exact .refilled hrefilled

/-- Writing a phrase is noted with its placeholders if there is a clause to write to. -/
theorem answers_say (hd : b.draft.Follows h) {q : Phrase Text} {ms : List Text} {news : List Entry}
    (hgrown : ∀ d', (q.map source).write.run b.draft = .ok () d' → b.draft.Grown source carried d' ms)
    (hnews : ∀ k, h.current? = some k → news = [.wrote k ms]) :
    b.draft.Answers source carried h (b.say (q.map source)) news := by
  unfold Builder.say
  cases hr : (q.map source).write.run b.draft with
  | error e d => exact .kept (Phrase.kept_of_write hr)
  | ok u d =>
    have hg := hgrown d hr
    obtain ⟨k, hc⟩ := hg.exists_current hd
    show b.draft.Moves source carried h d news
    rw [hnews k hc]
    exact .grown hc hg

/-- Opening a clause and writing a value to it does not fail. -/
theorem answers_page (k : Clause) {v : Value}
    (hgrown : ∀ d', (Phrase.bare (.value v)).write.run
        { b.draft with statement := b.draft.statement.start k } = .ok () d' →
      { b.draft with statement := b.draft.statement.start k }.Grown source carried d' []) :
    b.draft.Answers source carried h (b.page k ((Given.value v).map source))
      [.wrote k [], .opened k] :=
  .paged k (hgrown _ rfl)

/-- A composed call is noted if it does not fail, and writes nothing otherwise. -/
theorem answers_respond (hs : ∀ r, (source r).Sound (carried r)) (hd : b.draft.Follows h)
    {call : Call Text} (hc : call.Composed) :
    b.draft.Answers source carried h (b.respond (call.map source))
      (call.entries (held b.draft.parameters) source carried h) := by
  cases call with
  | say q =>
    apply answers_acknowledge
    rcases q.eq_clause_or_ne with ⟨k, rfl⟩ | hk
    · exact .opened k
    · have hnews : ∀ k, h.current? = some k → q.entries (held b.draft.parameters) source carried h =
          [.wrote k (q.markers (held b.draft.parameters) source carried)] := by
        intro k hcur
        rw [Phrase.entries_of_ne hk, hcur]
        rfl
      refine answers_say hd ?_ hnews
      intro d' hr
      exact grown_of_write hc hk hs hd.ready hr
  | page k g =>
    cases g with
    | statement r => cases hc
    | value v =>
      apply answers_acknowledge
      refine answers_page k ?_
      intro d' hr
      exact grown_of_write (q := .bare (.value v)) hc nofun hs (hd.ready.start k) hr
  | setParam | setParams | clearParams | raw | compiled | quoted | marking =>
    exact answers_of_writesNothing trivial

end

namespace Session

variable {s : Session} {j : Journal}

theorem step_self (s : Session) (name : Text) (call : Call Text) :
    (s.step name call).2 name = ((s name).respond (call.map (s.source name))).2 := if_pos rfl

theorem step_of_ne {name n : Text} (hn : n ≠ name) (call : Call Text) :
    (s.step name call).2 n = s n := if_neg hn

theorem noted_of_ne {name n : Text} (hn : n ≠ name) (call : Call Text) :
    s.noted j name call n = j n := if_neg hn

theorem noted_self (name : Text) (call : Call Text) :
    s.noted j name call name = s.news j name call ++ j name := if_pos rfl

/-- What a builder answers is what moves it in the session. -/
theorem moves_of_answers {name : Text} {call : Call Text} {source : Text → Source}
    {carried : Text → List Text} {h : History} {news : List Entry}
    (ha : (s name).draft.Answers source carried h ((s name).respond (call.map (s.source name))) news) :
    (s name).draft.Moves source carried h ((s.step name call).2 name).draft
      (match (s.step name call).1 with
        | .ok _ => news
        | .error _ => []) := by
  have hreply : (s.step name call).1 = ((s name).respond (call.map (s.source name))).1 := rfl
  rw [step_self, hreply]
  unfold Draft.Answers at ha
  cases hr : ((s name).respond (call.map (s.source name))).1 with
  | ok reply => rw [hr] at ha; exact ha
  | error e => rw [hr] at ha; exact ha

/-- **All that a composed call can do.** -/
theorem moves_of_step {name : Text}
    (hs : ∀ r, (s.source name r).Sound ((j r).markers)) (hd : (s name).draft.Follows (j name))
    {call : Call Text} (hc : call.Composed) :
    (s name).draft.Moves (s.source name) (fun r => (j r).markers) (j name)
      ((s.step name call).2 name).draft (s.news j name call) :=
  moves_of_answers (answers_respond hs hd hc)

end Session

end SqlCompose
