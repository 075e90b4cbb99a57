/-
  Forgetting — builders answer as if they remembered nothing.

  A draft answers every call without memory: it makes its text and compiles it anew
  whenever it is asked for.

  * `Draft.respond` and `Drafts.step` are calls to drafts and to drafts that are known
    by name; a session has the drafts `Session.drafts`;
  * `Builder.Coherent.respond_eq`: what a builder answers, and what becomes of its
    draft, is what happens to a draft, and `after_eq` says the same of a run of calls;
  * `step_remembering`: a builder that another one reads may remember its text then or not;
  * `replies_forgetful`: so remembered texts are never noticed, and a call that only
    reads can be left out.
-/
import SqlCompose.Proofs.Journal

namespace SqlCompose

/-! ## Drafts that answer -/

namespace Draft

/-- Writes a phrase. -/
def say (d : Draft) (p : Phrase Source) : Except Error Unit × Draft :=
  match p.write.run d with
  | .ok () d' => (.ok (), d')
  | .error e d' => (.error e, d')

/-- Opens a clause and writes one value to it. -/
def page (d : Draft) (k : Clause) (g : Given Source) : Except Error Unit × Draft :=
  match d.say (.clause k) with
  | (.ok (), d') => d'.say (.bare (g.reread d'.raw))
  | (.error e, d') => (.error e, d')

/-- Takes over a draft with other values, if there is one. -/
def assign (d : Draft) : Except Error Draft → Except Error Unit × Draft
  | .ok d' => (.ok (), d')
  | .error e => (.error e, d)

/-- A text, as it is or as it is shown. -/
def shown (d : Draft) (pretty : Bool) (t : Text) : Text := if pretty then d.marking.display t else t

/-- The answer to a call that only has to be carried out. -/
def acknowledge (result : Except Error Unit × Draft) : Except Error Reply × Draft :=
  (result.1.map fun () => .done, result.2)

/-- The answer to a call, with every text made anew, and the draft after it. -/
def respond (d : Draft) : Call Source → Except Error Reply × Draft
  | .say p => acknowledge (d.say p)
  | .page k g => acknowledge (d.page k g)
  | .setParam reference value => acknowledge (d.assign (d.setParam reference.toValue value.toValue))
  | .setParams values => acknowledge (d.assign (d.setParams (values.map (·.toValue))))
  | .clearParams => acknowledge (d.assign (.ok d.clearParams))
  | .raw pretty => (.ok (.text (d.shown pretty d.raw)), d)
  | .compiled pretty => (d.compiled.map fun t => .text (d.shown pretty t), d)
  | .quoted => (.ok (.text (Value.statement d.raw).quoted), d)
  | .marking => (.ok (.marking d.marking), d)

end Draft

/-- The draft of every name. -/
abbrev Drafts := Text → Draft

namespace Drafts

/-- Nothing is written in drafts with the given markings. -/
def start (m : Text → Marking) : Drafts := fun n => Draft.empty (m n)

/-- What the draft `name` sees of the draft `other`: of itself only the text. -/
def source (s : Drafts) (name other : Text) : Source :=
  if other = name then .own (s other).raw else .other (s other).raw (s other).parameters

/-- Puts a call to the draft `name`. -/
def step (s : Drafts) (name : Text) (call : Call Text) : Except Error Reply × Drafts :=
  let (reply, d) := (s name).respond (call.map (s.source name))
  (reply, fun n => if n = name then d else s n)

/-- The answers to calls, one after the other. -/
def replies (s : Drafts) : List (Text × Call Text) → List (Except Error Reply)
  | [] => []
  | (name, call) :: run => (s.step name call).1 :: replies (s.step name call).2 run

/-- The drafts after calls. -/
def after (s : Drafts) : List (Text × Call Text) → Drafts
  | [] => s
  | (name, call) :: run => after (s.step name call).2 run

end Drafts

namespace Session

/-- The answers to calls, one after the other. -/
def replies (s : Session) : List (Text × Call Text) → List (Except Error Reply)
  | [] => []
  | (name, call) :: run => (s.step name call).1 :: replies (s.step name call).2 run

/-- The drafts of the builders. -/
def drafts (s : Session) : Drafts := fun n => (s n).draft

end Session

/-! ## Builders answer as their drafts do -/

namespace Builder

/-- The answer is that of a draft, and the draft becomes what it would become. -/
def Matches {α : Type} (result : Except Error α × Builder) (expected : Except Error α × Draft) : Prop :=
  result.1 = expected.1 ∧ result.2.draft = expected.2

theorem Matches.acknowledge {result : Except Error Unit × Builder}
    {expected : Except Error Unit × Draft} (h : Matches result expected) :
    Matches (acknowledge result) (Draft.acknowledge expected) := by
  obtain ⟨h₁, h₂⟩ := h
  refine ⟨?_, h₂⟩
  show result.1.map _ = expected.1.map _
  rw [h₁]

theorem matches_say (b : Builder) (p : Phrase Source) : Matches (b.say p) (b.draft.say p) := by
  unfold say Draft.say
  cases p.write.run b.draft <;> exact ⟨rfl, rfl⟩

/-- The draft reads its own text again where the builder does: opening a clause leaves
    nothing remembered. -/
theorem matches_page (b : Builder) (k : Clause) (g : Given Source) :
    Matches (b.page k g) (b.draft.page k g) :=
  matches_say { b with draft := { b.draft with statement := b.draft.statement.start k }
                       raw? := none
                       dirty := true } _

theorem matches_assign (b : Builder) (r : Except Error Draft) :
    Matches (b.assign r) (b.draft.assign r) := by
  cases r <;> exact ⟨rfl, rfl⟩

theorem matches_setParams (b : Builder) (values : List Value) :
    Matches (b.setParams values) (b.draft.assign (b.draft.setParams values)) := by
  unfold setParams
  split
  · next hp =>
    have hd : b.draft.setParams [] = .ok b.draft := by
      simp only [Draft.setParams, hp, if_true]
    rw [hd]
    exact ⟨rfl, rfl⟩
  · exact b.matches_assign _

/-- **A builder answers as its draft does.** -/
theorem Coherent.respond_eq {b : Builder} (h : b.Coherent) (c : Call Source) :
    Matches (b.respond c) (b.draft.respond c) := by
  have htext := h.text_eq
  cases c with
  | say p => exact (b.matches_say p).acknowledge
  | page k g => exact (b.matches_page k g).acknowledge
  | setParam reference value => exact (b.matches_assign _).acknowledge
  | setParams values => exact (b.matches_setParams _).acknowledge
  | clearParams => exact (b.matches_assign _).acknowledge
  | raw pretty =>
    refine ⟨?_, rfl⟩
    show Except.ok (Reply.text (b.draft.shown pretty b.text)) = _
    rw [htext]
    rfl
  | compiled pretty =>
    refine ⟨?_, b.draft_compile⟩
    show b.compile.1.map _ = _
    rw [h.compile_eq]
    rfl
  | quoted =>
    refine ⟨?_, rfl⟩
    show Except.ok (Reply.text (Value.statement b.text).quoted) = _
    rw [htext]
    rfl
  | marking => exact ⟨rfl, rfl⟩

end Builder

/-! ## Sessions answer as their drafts do -/

namespace Session

variable {s : Session}

/-- Nothing that a builder remembers has changed since. -/
def Coherent (s : Session) : Prop := ∀ n, (s n).Coherent

theorem coherent_opened (m : Text → Marking) : (opened m).Coherent := fun n =>
  Builder.coherent_empty (m n)

theorem Coherent.source_eq (h : s.Coherent) (name : Text) : s.source name = s.drafts.source name := by
  funext other
  unfold source Drafts.source drafts
  rw [(h other).text_eq]

/-- **A session answers as its drafts do.** -/
theorem Coherent.step_eq (h : s.Coherent) (name : Text) (call : Call Text) :
    (s.step name call).1 = (s.drafts.step name call).1 ∧
      (s.step name call).2.drafts = (s.drafts.step name call).2 ∧ (s.step name call).2.Coherent := by
  have hstep := (h name).respond_eq (call.map (s.source name))
  have hcoh := (h name).respond (call.map (s.source name))
  unfold step Drafts.step
  rw [← h.source_eq name]
  refine ⟨hstep.1, ?_, ?_⟩
  · funext n
    by_cases hn : n = name
    · simp only [drafts, hn, if_true]
      exact hstep.2
    · simp only [drafts, hn, if_false]
  · intro n
    by_cases hn : n = name
    · simp only [hn, if_true]
      exact hcoh
    · simp only [hn, if_false]
      exact h n

/-- The session in which a builder remembers the text that it shows. -/
def remembering (s : Session) (other : Text) : Session :=
  fun n => if n = other then (s n).remember else s n

/-- A builder is seen in the same way whether it remembers its text or not. -/
theorem source_remembering (s : Session) (other name : Text) :
    (s.remembering other).source name = s.source name := by
  funext n
  unfold source remembering
  by_cases hn : n = other
  · simp only [hn, if_true]
    rfl
  · simp only [hn, if_false]

/-- **A builder that another one reads may remember its text before the call or behind it**:
    the answer is the same, and so are all builders. -/
theorem step_remembering (s : Session) {name other : Text} (h : other ≠ name) (call : Call Text) :
    (s.remembering other).step name call =
      ((s.step name call).1, (s.step name call).2.remembering other) := by
  have hname : s.remembering other name = s name := if_neg (Ne.symm h)
  unfold step
  rw [source_remembering, hname]
  refine Prod.ext rfl ?_
  funext n
  by_cases hn : n = name
  · subst hn
    simp only [remembering, if_true, Ne.symm h, if_false]
  · simp only [remembering, hn, if_false]

theorem Coherent.after_eq (h : s.Coherent) (run : List (Text × Call Text)) :
    s.replies run = s.drafts.replies run ∧ (s.after run).drafts = s.drafts.after run ∧
      (s.after run).Coherent := by
  induction run generalizing s with
  | nil => exact ⟨rfl, rfl, h⟩
  | cons c run ih =>
    obtain ⟨hreply, hdrafts, hcoh⟩ := h.step_eq c.1 c.2
    obtain ⟨hreplies, hafter, hcoh'⟩ := ih hcoh
    rw [hdrafts] at hreplies hafter
    refine ⟨?_, hafter, hcoh'⟩
    rw [replies, Drafts.replies, hreply, hreplies]

end Session

/-! ## Calls that only read -/

/-- The calls that ask for a text or for the marking. -/
def Call.Reads {ρ : Type} : Call ρ → Prop
  | .raw _ | .compiled _ | .quoted | .marking => True
  | _ => False

namespace Drafts

/-- Reading changes no draft. -/
theorem step_of_reads (s : Drafts) (name : Text) {call : Call Text} (h : call.Reads) :
    (s.step name call).2 = s := by
  have hd : ((s name).respond (call.map (s.source name))).2 = s name := by
    cases call with
    | raw | compiled | quoted | marking => rfl
    | say | page | setParam | setParams | clearParams => cases h
  funext n
  show (if n = name then _ else s n) = s n
  split
  · next hn =>
    subst hn
    exact hd
  · rfl

theorem length_replies (s : Drafts) (run : List (Text × Call Text)) :
    (s.replies run).length = run.length := by
  induction run generalizing s with
  | nil => rfl
  | cons c run ih => rw [replies, List.length_cons, List.length_cons, ih]

theorem replies_append (s : Drafts) (run run' : List (Text × Call Text)) :
    s.replies (run ++ run') = s.replies run ++ (s.after run).replies run' := by
  induction run generalizing s with
  | nil => rfl
  | cons c run ih => rw [List.cons_append, replies, replies, ih, List.cons_append, after]

/-- A call that only reads can be left out: no other answer changes. -/
theorem eraseIdx_replies (s : Drafts) (run run' : List (Text × Call Text)) (name : Text)
    {call : Call Text} (h : call.Reads) :
    (s.replies (run ++ (name, call) :: run')).eraseIdx run.length = s.replies (run ++ run') := by
  have hlen := s.length_replies run
  rw [replies_append, replies_append, replies, step_of_reads _ _ h,
    List.eraseIdx_append_of_length_le (by omega), hlen, Nat.sub_self, List.eraseIdx_cons_zero]

end Drafts

namespace Session

/-- **Nobody notices what builders remember.**  In every run of calls, whichever fail,
    all answers are those of drafts that make every text anew.  A builder that is not
    dirty remembers the text that its draft compiles to now.  And a call that only reads
    can be put in or left out anywhere without a change of any other answer; a builder
    that is taken into another is read in this way first. -/
theorem replies_forgetful (m : Text → Marking) (run : List (Text × Call Text)) :
    (opened m).replies run = (Drafts.start m).replies run ∧
      (∀ name, let b := (opened m).after run name
        b.dirty = false → ∃ t, b.compiled? = some t ∧
          Parameters.compile b.draft.statement.render b.draft.parameters = .ok t) ∧
      ∀ run' name call, call.Reads →
        ((opened m).replies (run ++ (name, call) :: run')).eraseIdx run.length =
          (opened m).replies (run ++ run') := by
  have h := coherent_opened m
  refine ⟨(h.after_eq run).1, ?_, ?_⟩
  · intro name b
    exact ((h.after_eq run).2.2 name).compiled
  · intro run' name call hcall
    rw [(h.after_eq _).1, (h.after_eq _).1]
    exact Drafts.eraseIdx_replies _ run run' name hcall

/-- A value is set and set again behind a compiled text, a phrase fails behind it, and a
    builder that was compiled is taken in. -/
theorem replies_forgetful_set_again :
    let m : Text → Marking := fun _ => .standard
    let run : List (Text × Call Text) := [
      ("q", .say (.clause .select)),
      ("q", .say (.param (.value (.text "x")))),
      ("q", .setParam (.value (.text "x")) (.value (.text "a"))),
      ("q", .compiled false),
      ("q", .setParam (.value (.text "x")) (.value (.text "b")))]
    let run' : List (Text × Call Text) := [
      ("q", .say (.param (.value (.text "")))),
      ("q", .compiled false),
      ("r", .say (.clause .where_)),
      ("r", .say (.existence (.given (.statement "q")))),
      ("r", .compiled false)]
    (opened m).replies (run ++ run') = (Drafts.start m).replies (run ++ run') ∧
      ((opened m).after (run ++ run') "q").dirty = false ∧
      (∃ t, ((opened m).after (run ++ run') "q").compiled? = some t ∧ t = "SELECT b".toList) ∧
      ((opened m).replies (run ++ ("q".toList, .compiled true) :: run')).eraseIdx 5 =
        (opened m).replies (run ++ run') ∧
      (opened m).replies (run ++ run') =
        [.ok .done, .ok .done, .ok .done, .ok (.text "SELECT a"), .ok .done,
          .error (.unusableName []), .ok (.text "SELECT b"), .ok .done, .ok .done,
          .ok (.text "WHERE EXISTS ( SELECT b )")] := by
  intro m run run'
  obtain ⟨hreplies, hclean, -⟩ := replies_forgetful m (run ++ run')
  have hread := (replies_forgetful m run).2.2 run' "q" (.compiled true) trivial
  have hdirty : ((opened m).after (run ++ run') "q").dirty = false := by decide +kernel
  obtain ⟨t, ht, hfresh⟩ := hclean "q" hdirty
  refine ⟨hreplies, hdirty, ⟨t, ht, ?_⟩, hread, by decide +kernel⟩
  have hcompiled : Parameters.compile ((opened m).after (run ++ run') "q").draft.statement.render
      ((opened m).after (run ++ run') "q").draft.parameters = .ok "SELECT b".toList := by
    decide +kernel
  exact Except.ok.inj (hfresh.symm.trans hcompiled)

end Session

end SqlCompose
