/-
  Interleaving — the text of a statement depends on what was done to each clause.

  A step of writing goes to the clause that it names, or else to the one that was opened
  last, and touches no other.  So the steps of different clauses may be mixed in any way.

  * `Step` is a step of writing, and `written` the statement after a row of steps, in which
    those that fail are passed over;
  * `Step.target?` is the clause that a step goes to, told from the steps before it;
  * `doings` lists what was done to a clause, and `sent` the tokens that count;
  * `follows_written`: the statement holds what was sent, clause by clause, and
    `render_by_histories` is what this means for its text.
-/
import SqlCompose.Statement
import Mathlib.Data.List.DropRight

namespace SqlCompose.Statement

/-! ## Steps -/

/-- A step of writing. -/
inductive Step where
  | start (k : Clause)
  | append (tokens : List Text)
  | appendTo (k : Clause) (tokens : List Text)
  deriving DecidableEq

/-- The statement after a step, if it does not fail. -/
def step? (s : Statement) : Step → Except Error Statement
  | .start k => .ok (s.start k)
  | .append tokens => s.append tokens
  | .appendTo k tokens => s.appendTo k tokens

/-- The statement after a step; one that fails leaves it. -/
def afterStep (s : Statement) (step : Step) : Statement :=
  match s.step? step with
  | .ok s' => s'
  | .error _ => s

/-- The statement after a row of steps. -/
def written (run : List Step) : Statement := run.foldl afterStep empty

theorem written_concat (run : List Step) (step : Step) :
    written (run ++ [step]) = (written run).afterStep step := by
  rw [written, List.foldl_append]
  rfl

/-! ## Histories -/

/-- The clause that a step opens. -/
def Step.opens? : Step → Option Clause
  | start k => some k
  | _ => none

/-- The clause that was opened last. -/
def lastOpened (run : List Step) : Option Clause := (run.filterMap Step.opens?).getLast?

/-- The clause that a step goes to behind the steps `before`, if there is one. -/
def Step.target? (before : List Step) : Step → Option Clause
  | start k => some k
  | append _ => lastOpened before
  | appendTo k _ => if start k ∈ before then some k else none

/-- What can be done to a clause. -/
inductive Doing where
  | opened
  | wrote (tokens : List Text)
  deriving DecidableEq

/-- What a step does to the clause that it goes to. -/
def Step.doing : Step → Doing
  | start _ => .opened
  | append tokens | appendTo _ tokens => .wrote tokens

/-- The tokens that are written. -/
def Doing.tokens : Doing → List Text
  | opened => []
  | wrote tokens => tokens

/-- What the steps `run` did to the clause `k`, behind the steps `before`. -/
def doingsFrom (k : Clause) (before : List Step) : List Step → List Doing
  | [] => []
  | step :: run =>
    (if step.target? before = some k then [step.doing] else []) ++
      doingsFrom k (before ++ [step]) run

/-- What a row of steps did to the clause `k`. -/
def doings (k : Clause) (run : List Step) : List Doing := doingsFrom k [] run

/-- The tokens written since the last opening. -/
def sinceOpened (ds : List Doing) : List Text := (ds.rtakeWhile (· ≠ .opened)).flatMap Doing.tokens

/-- The tokens sent to the clause `k` since it was opened last. -/
def sent (k : Clause) (run : List Step) : List Text := sinceOpened (doings k run)

theorem doings_concat (k : Clause) (run : List Step) (step : Step) :
    doings k (run ++ [step]) =
      doings k run ++ if step.target? run = some k then [step.doing] else [] := by
  have hfrom : ∀ (run before : List Step), doingsFrom k before (run ++ [step]) =
      doingsFrom k before run ++ if step.target? (before ++ run) = some k then [step.doing] else [] := by
    intro run
    induction run with
    | nil =>
      intro before
      simp [doingsFrom]
    | cons first run ih =>
      intro before
      rw [List.cons_append, doingsFrom, doingsFrom, ih, List.append_assoc, List.append_assoc,
        List.singleton_append]
  exact hfrom run []

theorem sinceOpened_opened (ds : List Doing) : sinceOpened (ds ++ [.opened]) = [] := by
  rw [sinceOpened, List.rtakeWhile_concat_neg _ _ _ (by simp)]
  rfl

theorem sinceOpened_wrote (ds : List Doing) (ts : List Text) :
    sinceOpened (ds ++ [.wrote ts]) = sinceOpened ds ++ ts := by
  rw [sinceOpened, List.rtakeWhile_concat_pos _ _ _ (by simp), List.flatMap_append]
  simp [sinceOpened, Doing.tokens]

theorem lastOpened_concat (run : List Step) (step : Step) :
    lastOpened (run ++ [step]) = (step.opens? <|> lastOpened run) := by
  unfold lastOpened
  rw [List.filterMap_append, List.getLast?_append]
  cases step <;> rfl

theorem start_mem_concat_iff (run : List Step) {step : Step} (h : step.opens? = none) (k : Clause) :
    .start k ∈ run ++ [step] ↔ .start k ∈ run := by
  cases step with
  | start k' => cases h
  | append | appendTo => simp

/-! ## The statement and its histories -/

/-- The statement `s` is what the steps `run` make. -/
structure Follows (s : Statement) (run : List Step) : Prop where
  current_eq : s.current = lastOpened run
  tokens?_eq : ∀ k, s.tokens? k = if .start k ∈ run then some (sent k run) else none
  isOpen : ∀ k, s.current = some k → .start k ∈ run
  opened_iff : ∀ k, .opened ∈ doings k run ↔ .start k ∈ run

theorem follows_empty : empty.Follows [] where
  current_eq := rfl
  tokens?_eq _ := rfl
  isOpen := nofun
  opened_iff k := by simp [doings, doingsFrom]

namespace Follows

variable {s : Statement} {run : List Step} (h : s.Follows run)
include h

/-- A step succeeds exactly if there is a clause that it goes to, and opens this clause or
    writes to it. -/
theorem step?_eq (step : Step) : s.step? step = match step.target? run, step with
    | some k, .start _ => .ok (s.start k)
    | some k, _ => .ok (s.setTokens k (sent k run ++ step.doing.tokens))
    | none, .appendTo k _ => .error (.clauseNotOpen k)
    | none, _ => .error .noClause := by
  cases step with
  | start k => rfl
  | append ts =>
    rw [step?, append_eq, Step.target?, ← h.current_eq]
    cases hk : s.current with
    | none => rfl
    | some k =>
      simp only [h.tokens?_eq, h.isOpen k hk, if_true]
      rfl
  | appendTo k ts =>
    rw [step?, appendTo, Step.target?, h.tokens?_eq]
    by_cases hk : Step.start k ∈ run
    · simp only [hk, if_true]
      rfl
    · simp only [hk, if_false]

/-- A step that goes to no clause is passed over. -/
theorem passed {step : Step} (ht : step.target? run = none) : s.Follows (run ++ [step]) := by
  have hno : step.opens? = none := by cases step <;> first | rfl | cases ht
  have hstart := start_mem_concat_iff run hno
  have hdoings : ∀ k, doings k (run ++ [step]) = doings k run := by
    intro k
    rw [doings_concat, ht]
    simp
  refine ⟨?_, ?_, ?_, ?_⟩
  · rw [lastOpened_concat, hno]
    exact h.current_eq
  · intro k
    simp only [hstart, sent, hdoings]
    exact h.tokens?_eq k
  · intro k hk
    exact (hstart k).2 (h.isOpen k hk)
  · intro k
    rw [hstart, hdoings]
    exact h.opened_iff k

theorem started (k : Clause) : (s.start k).Follows (run ++ [.start k]) := by
  have hdoings : ∀ k', doings k' (run ++ [.start k]) =
      doings k' run ++ if k = k' then [.opened] else [] := by
    intro k'
    rw [doings_concat]
    simp [Step.target?, Step.doing]
  refine ⟨?_, ?_, ?_, ?_⟩
  · rw [lastOpened_concat]
    rfl
  · intro k'
    rw [tokens?_start, sent, hdoings, h.tokens?_eq]
    by_cases hk : k' = k
    · subst hk
      simp [sinceOpened_opened]
    · simp [hk, Ne.symm hk, sent]
  · rintro k' ⟨⟩
    simp
  · intro k'
    rw [hdoings, List.mem_append, h.opened_iff]
    by_cases hk : k = k' <;> simp [hk, eq_comm]

/-- Tokens that are written go behind those that were sent before. -/
theorem appended {step : Step} {k : Clause} (ht : step.target? run = some k) {ts : List Text}
    (hd : step.doing = .wrote ts) : (s.setTokens k (sent k run ++ ts)).Follows (run ++ [step]) := by
  have hno : step.opens? = none := by cases step <;> first | rfl | cases hd
  have hstart := start_mem_concat_iff run hno
  have hopen : Step.start k ∈ run := by
    cases step with
    | start => cases hno
    | append ts => exact h.isOpen k (h.current_eq.trans ht)
    | appendTo k' ts =>
      obtain ⟨hk, he⟩ := Option.ite_none_right_eq_some.1 ht
      exact Option.some.inj he ▸ hk
  have hdoings : ∀ k', doings k' (run ++ [step]) =
      doings k' run ++ if k = k' then [.wrote ts] else [] := by
    intro k'
    rw [doings_concat, ht, hd]
    simp
  refine ⟨?_, ?_, ?_, ?_⟩
  · rw [lastOpened_concat, hno]
    exact h.current_eq
  · intro k'
    rw [tokens?_setTokens, h.tokens?_eq]
    simp only [sent, hdoings, hstart]
    by_cases hk : k' = k
    · subst hk
      simp [hopen, sinceOpened_wrote]
    · simp [hk, Ne.symm hk]
  · intro k' hk
    exact (hstart k').2 (h.isOpen k' hk)
  · intro k'
    rw [hstart, hdoings, List.mem_append, h.opened_iff]
    split <;> simp

theorem afterStep (step : Step) : (s.afterStep step).Follows (run ++ [step]) := by
  unfold Statement.afterStep
  rw [h.step?_eq]
  cases ht : step.target? run with
  | none => cases step <;> exact h.passed ht
  | some k =>
    cases step with
    | start k' =>
      cases ht
      exact h.started k
    | append ts => exact h.appended ht rfl
    | appendTo k' ts => exact h.appended ht rfl

end Follows

/-- **The statement holds what was sent to its clauses**, whatever the order of the steps. -/
theorem follows_written (run : List Step) : (written run).Follows run := by
  induction run using List.reverseRecOn with
  | nil => exact follows_empty
  | append_singleton run step ih =>
    rw [written_concat]
    exact ih.afterStep step

theorem lastOpened_eq_none_iff {run : List Step} : lastOpened run = none ↔ ∀ k, .start k ∉ run := by
  rw [lastOpened, List.getLast?_eq_none_iff, List.filterMap_eq_nil_iff]
  constructor
  · intro h k hk
    cases h _ hk
  · intro h step hstep
    cases step with
    | start k => exact absurd hstep (h k)
    | append | appendTo => rfl

/-- The text has the clauses that were opened, each with what was sent to it. -/
theorem render_written (run : List Step) :
    (written run).render = List.intercalate [' '] (Clause.all.filterMap fun k =>
      if .opened ∈ doings k run then some (k.render (sent k run)) else none) := by
  have hs := follows_written run
  unfold render
  congr 2
  funext k
  rw [hs.tokens?_eq]
  simp only [hs.opened_iff]
  split <;> rfl

/-- **The text of a statement depends on what was done to each clause.**  After every row of
    steps, a step fails exactly if it writes where no clause was opened, or to a clause that
    was not, and then it changes nothing.  The current clause is the one opened last, and it
    is open.  The text consists, in the fixed order, of the clauses that were opened, each
    with the tokens sent to it since it was opened last, put together by its separator or, in
    `ORDER BY`, as sorting keys; a clause without any is its keyword.  So another row of steps
    that did the same to each clause, in whatever order, makes the same text. -/
theorem render_by_histories (run : List Step) :
    let s := written run
    (∀ k e, s.step? (.start k) ≠ .error e) ∧
      (∀ ts e, s.step? (.append ts) = .error e ↔ e = .noClause ∧ ∀ k, .start k ∉ run) ∧
      (∀ k ts e, s.step? (.appendTo k ts) = .error e ↔ e = .clauseNotOpen k ∧ .start k ∉ run) ∧
      (∀ step e, s.step? step = .error e → written (run ++ [step]) = s) ∧
      s.current = lastOpened run ∧ (∀ k, s.current = some k → (s.tokens? k).isSome) ∧
      s.render = List.intercalate [' '] ((Clause.all.filter (.start · ∈ run)).map fun k =>
        let body := if k = .orderBy then Clause.sortingKeys (sent k run)
          else k.separator.intercalate (sent k run)
        if body = [] then k.keyword else k.keyword ++ [' '] ++ body) ∧
      ∀ run', (∀ k, doings k run' = doings k run) → (written run').render = s.render := by
  intro s
  have hs := follows_written run
  refine ⟨nofun, ?_, ?_, ?_, hs.current_eq, ?_, ?_, ?_⟩
  · intro ts e
    rw [hs.step?_eq, ← lastOpened_eq_none_iff]
    cases ht : lastOpened run with
    | none => simp [Step.target?, ht, eq_comm]
    | some k => simp [Step.target?, ht]
  · intro k ts e
    rw [hs.step?_eq]
    by_cases hk : Step.start k ∈ run
    · simp [Step.target?, hk]
    · simp [Step.target?, hk, eq_comm]
  · intro step e he
    rw [written_concat, Statement.afterStep, he]
  · intro k hk
    rw [hs.tokens?_eq, if_pos (hs.isOpen k hk)]
    rfl
  · rw [render_written, ← List.filterMap_eq_map', ← List.filterMap_eq_filter, List.filterMap_filterMap]
    congr 2
    funext k
    simp only [hs.opened_iff]
    by_cases hk : Step.start k ∈ run <;> simp [hk, Option.guard, Clause.render, Clause.body]
  · intro run' hsame
    rw [render_written, render_written]
    simp only [sent, hsame]

/-- `WHERE` is opened twice, once with `SELECT` in between and once after `ORDER BY`, which
    gets tokens before and behind that; two steps of the first row fail, and `LIMIT` is left
    without a token. -/
theorem render_by_histories_reopened :
    let run : List Step := [
      .append ["x"], .start .where_, .append ["a"], .start .select, .appendTo .where_ ["=", "1"],
      .append ["b"], .appendTo .from_ ["t"], .start .orderBy, .append ["b", "DESC"],
      .start .where_, .append ["c", "="], .appendTo .orderBy ["d"], .append ["2"],
      .appendTo .select ["d"], .start .limit]
    let run' : List Step := [
      .start .select, .append ["b"], .append ["d"], .start .where_, .append ["a"],
      .append ["=", "1"], .start .where_, .append ["c", "="], .append ["2"], .start .orderBy,
      .append ["b", "DESC"], .append ["d"], .start .limit]
    (∀ k, doings k run' = doings k run) ∧ (written run').render = (written run).render ∧
      (written run).render =
        "SELECT b , d WHERE c = 2 ORDER BY b DESC , d LIMIT".toList ∧
      (written (run ++ [.appendTo .from_ ["t"]])).render = (written run).render ∧
      (written run).current = some .limit := by
  intro run run'
  have hsame : ∀ k, doings k run' = doings k run := by
    intro k
    cases k <;> decide +kernel
  obtain ⟨-, -, hrefused, hkept, hcurrent, -, htext, hrender⟩ := render_by_histories run
  have hfail : (written run).step? (.appendTo .from_ ["t"]) = .error (.clauseNotOpen .from_) :=
    (hrefused _ _ _).2 ⟨rfl, by decide +kernel⟩
  refine ⟨hsame, hrender run' hsame, htext.trans (by decide +kernel), ?_,
    hcurrent.trans (by decide +kernel)⟩
  rw [hkept _ _ hfail]

end SqlCompose.Statement
