/-
  Builder — a draft that remembers its texts, and the calls it answers.

  A builder keeps the text of its statement until a phrase changes it, and the
  compiled text until a phrase or a value changes.  A call that fails leaves the
  remembered texts alone.

  * `Call` lists what can be asked of a builder, and `Reply` what it answers;
  * `Builder.respond` answers a call.
-/
import SqlCompose.Phrase

namespace SqlCompose

/-! ## Calls -/

/-- What can be asked of a builder; `ρ` identifies other statements. -/
inductive Call (ρ : Type) where
  /-- Write a phrase. -/
  | say (p : Phrase ρ)
  /-- Open a clause and write one value to it. -/
  | page (k : Clause) (g : Given ρ)
  | setParam (reference value : Given ρ)
  | setParams (values : List (Given ρ))
  | clearParams
  /-- The text with placeholders, or that text as it is shown. -/
  | raw (pretty : Bool)
  /-- The text with values, or that text as it is shown. -/
  | compiled (pretty : Bool)
  /-- The builder as messages show it. -/
  | quoted
  | marking
  deriving Repr

/-- The same call with another identification of statements. -/
def Call.map {ρ σ : Type} (f : ρ → σ) : Call ρ → Call σ
  | say p => say (p.map f)
  | page k g => page k (g.map f)
  | setParam reference value => setParam (reference.map f) (value.map f)
  | setParams values => setParams (values.map (·.map f))
  | clearParams => clearParams
  | raw pretty => raw pretty
  | compiled pretty => compiled pretty
  | quoted => quoted
  | marking => marking

/-- The answer to a call. -/
inductive Reply where
  | done
  | text (t : Text)
  | marking (m : Marking)
  deriving DecidableEq

/-- Takes the statement itself at the text it has by now. -/
def Given.reread (raw : Text) : Given Source → Given Source
  | statement (.own _) => statement (.own raw)
  | g => g

/-! ## Builders -/

/-- A draft and the texts remembered of it. -/
structure Builder where
  draft : Draft
  /-- The text of the statement, if it was asked for since the last phrase. -/
  raw? : Option Text
  /-- The text compiled last. -/
  compiled? : Option Text
  /-- Whether a phrase or a value changed since then. -/
  dirty : Bool

namespace Builder

/-- A builder of which nothing was asked yet. -/
def empty (m : Marking) : Builder := ⟨Draft.empty m, none, none, true⟩

/-- The text of the statement: the remembered one if there is one. -/
def text (b : Builder) : Text := b.raw?.getD b.draft.raw

/-- The builder with the text of its statement remembered. -/
def remember (b : Builder) : Builder := { b with raw? := some b.text }

/-- The text with values, and the builder that remembers it: the remembered text
    if nothing changed since, a new one otherwise. -/
def compile (b : Builder) : Except Error Text × Builder :=
  match b.dirty, b.compiled? with
  | false, some t => (.ok t, b)
  | _, _ =>
    match Parameters.compile b.text b.draft.parameters with
    | .ok t => (.ok t, { b.remember with compiled? := some t, dirty := false })
    | .error e => (.error e, b.remember)

/-- Writes a phrase; if it is written, nothing remembered holds any more. -/
def say (b : Builder) (p : Phrase Source) : Except Error Unit × Builder :=
  match p.write.run b.draft with
  | .ok () d => (.ok (), { b with draft := d, raw? := none, dirty := true })
  | .error e d => (.error e, { b with draft := d })

/-- Opens a clause and writes one value to it. -/
def page (b : Builder) (k : Clause) (g : Given Source) : Except Error Unit × Builder :=
  match b.say (.clause k) with
  | (.ok (), b) => b.say (.bare (g.reread b.text))
  | (.error e, b) => (.error e, b)

/-- Takes over a draft with other values; if there is one, the compiled text does
    not hold any more. -/
def assign (b : Builder) : Except Error Draft → Except Error Unit × Builder
  | .ok d => (.ok (), { b with draft := d, dirty := true })
  | .error e => (.error e, b)

/-- Sets values in the order of declaration.  Without any placeholder there is
    nothing to set, and what is remembered still holds. -/
def setParams (b : Builder) (values : List Value) : Except Error Unit × Builder :=
  match b.draft.parameters, values with
  | none, [] => (.ok (), b)
  | _, _ => b.assign (b.draft.setParams values)

/-- A text, as it is or as it is shown. -/
def shown (b : Builder) (pretty : Bool) (t : Text) : Text :=
  if pretty then b.draft.marking.display t else t

/-- The answer to a call that only has to be carried out. -/
def acknowledge (result : Except Error Unit × Builder) : Except Error Reply × Builder :=
  (result.1.map fun () => .done, result.2)

/-- The answer to a call, and the builder after it. -/
def respond (b : Builder) : Call Source → Except Error Reply × Builder
  | .say p => acknowledge (b.say p)
  | .page k g => acknowledge (b.page k g)
  | .setParam reference value =>
    acknowledge (b.assign (b.draft.setParam reference.toValue value.toValue))
  | .setParams values => acknowledge (b.setParams (values.map (·.toValue)))
  | .clearParams => acknowledge (b.assign (.ok b.draft.clearParams))
  | .raw pretty => (.ok (.text (b.shown pretty b.text)), b.remember)
  | .compiled pretty =>
    let (text, b') := b.compile
    (text.map fun t => .text (b.shown pretty t), b')
  | .quoted => (.ok (.text (Value.statement b.text).quoted), b.remember)
  | .marking => (.ok (.marking b.draft.marking), b)

end Builder

end SqlCompose
