/-
  Batching — declaring placeholders in a row is declaring them one after the other.

  A row is checked before its first placeholder is declared, so that it is declared as a
  whole or not at all.  The check counts the ordinals that the row itself will add.

  * `allocateEach` declares one after the other, and `allocateEach_eq_error_iff` says that
    the first that is refused decides the error;
  * `allocateAll_eq_allocateEach`: the check counts right, so the row comes to the same;
  * `InPlace.run_allocateAll`: where parameters change in place the check in front is what
    keeps a row that is refused from being declared up to there, and `run_declareAll_inPlace`
    says that a draft may be thought of so;
  * `run_params`, `run_fresh` and `run_call` say what placeholders by themselves, those of an
    `IN` and those of a call do to a draft;
  * `batch_one_by_one` puts these together.
-/
import SqlCompose.Proofs.Edits
import SqlCompose.Proofs.Evolution

namespace SqlCompose

namespace Parameters

variable {p : Parameters} {ds : List Declaration} {e : Error}

/-! ## One after the other -/

/-- Declares placeholders one after the other and gives their texts.  The first that is
    refused decides the error. -/
def allocateEach (p : Parameters) : List Declaration → Except Error (List Text × Parameters)
  | [] => .ok ([], p)
  | d :: ds => do
    let (marker, q) ← p.allocate d
    let (markers, r) ← q.allocateEach ds
    return (marker :: markers, r)

theorem allocateEach_cons_of_error {d : Declaration} (h : p.allocate d = .error e)
    (ds : List Declaration) : p.allocateEach (d :: ds) = .error e := by
  rw [allocateEach, h]
  rfl

theorem allocateEach_cons_of_ok {d : Declaration} {marker : Text} {q : Parameters}
    (h : p.allocate d = .ok (marker, q)) (ds : List Declaration) :
    p.allocateEach (d :: ds) = (q.allocateEach ds).map fun r => (marker :: r.1, r.2) := by
  rw [allocateEach, h]
  show (do let (markers, r) ← q.allocateEach ds; return (marker :: markers, r)) = _
  cases q.allocateEach ds <;> rfl

theorem allocateEach_cons_eq_ok {d : Declaration} {r : List Text × Parameters}
    (h : p.allocateEach (d :: ds) = .ok r) :
    ∃ marker q markers, p.allocate d = .ok (marker, q) ∧
      q.allocateEach ds = .ok (markers, r.2) ∧ r.1 = marker :: markers := by
  cases hd : p.allocate d with
  | error e =>
    rw [allocateEach_cons_of_error hd] at h
    cases h
  | ok r' =>
    rw [allocateEach_cons_of_ok hd] at h
    cases hds : r'.2.allocateEach ds with
    | error e => rw [hds] at h; cases h
    | ok r'' =>
      rw [hds] at h
      cases h
      exact ⟨r'.1, r'.2, r''.1, rfl, hds, rfl⟩

/-- A declaration that is refused behind others is refused for the whole. -/
theorem allocateEach_append_of_error {before : List Declaration} {markers : List Text}
    {q : Parameters} (h : p.allocateEach before = .ok (markers, q)) {d : Declaration}
    (he : q.allocate d = .error e) (behind : List Declaration) :
    p.allocateEach (before ++ d :: behind) = .error e := by
  induction before generalizing p markers with
  | nil =>
    cases h
    exact allocateEach_cons_of_error he behind
  | cons c before ih =>
    obtain ⟨marker, q', markers', hc, hbefore, -⟩ := allocateEach_cons_eq_ok h
    rw [List.cons_append, allocateEach_cons_of_ok hc, ih hbefore]
    rfl

/-- **The first declaration that is refused decides the error**: those in front of it are
    accepted, and it is refused by what the parameters hold then. -/
theorem allocateEach_eq_error_iff : p.allocateEach ds = .error e ↔
    ∃ before d behind markers q, ds = before ++ d :: behind ∧
      p.allocateEach before = .ok (markers, q) ∧ q.allocate d = .error e := by
  constructor
  · intro h
    induction ds generalizing p with
    | nil => cases h
    | cons d ds ih =>
      cases hd : p.allocate d with
      | error e' =>
        rw [allocateEach_cons_of_error hd] at h
        cases h
        exact ⟨[], d, ds, [], p, rfl, rfl, hd⟩
      | ok r =>
        rw [allocateEach_cons_of_ok hd] at h
        cases hds : r.2.allocateEach ds with
        | ok r' => rw [hds] at h; cases h
        | error e' =>
          rw [hds] at h
          cases h
          obtain ⟨before, d', behind, markers, q, rfl, hbefore, he⟩ := ih hds
          refine ⟨d :: before, d', behind, r.1 :: markers, q, rfl, ?_, he⟩
          rw [allocateEach_cons_of_ok hd, hbefore]
          rfl
  · rintro ⟨before, d, behind, markers, q, rfl, hbefore, he⟩
    exact allocateEach_append_of_error hbefore he behind

/-- **Declaring in a row is declaring one after the other**: the ordinals that the check
    counts are those that there are when a declaration's turn comes. -/
theorem allocateAll_eq_allocateEach (p : Parameters) (ds : List Declaration) :
    p.allocateAll ds = p.allocateEach ds := by
  induction ds generalizing p with
  | nil => rfl
  | cons d ds ih =>
    have hrest := ih (p.declare d)
    unfold allocateAll at hrest ⊢
    rw [checkAll]
    cases hd : check p.ordinals d with
    | error e =>
      have hrefused : p.allocate d = .error e := by
        rw [allocate, hd]
        rfl
      rw [allocateEach_cons_of_error hrefused]
      rfl
    | ok u =>
      rw [allocateEach_cons_of_ok (allocate_eq_ok_iff.2 ⟨hd, rfl, rfl⟩), ← hrest]
      show (do checkAll (p.declare d).ordinals ds; return p.declareAll (d :: ds)) = _
      cases checkAll (p.declare d).ordinals ds <;> rfl

/-- A row that is refused changes nothing. -/
theorem after_declareAll_of_error {references : List Value}
    (h : p.allocateAll (references.map .ofValue) = .error e) :
    p.after (.declareAll references) = p := by
  have hrefused : p.changed? (.declareAll references) = .error e := by
    show (p.allocateAll _).map Prod.snd = _
    rw [h]
    rfl
  rw [Parameters.after, hrefused]

/-- There is a placeholder for every declaration. -/
theorem length_of_allocateEach {markers : List Text} {q : Parameters}
    (h : p.allocateEach ds = .ok (markers, q)) : markers.length = ds.length := by
  rw [← allocateAll_eq_allocateEach] at h
  rw [← (p.length_declareAll ds).1, ← (allocateAll_eq_ok_iff.1 h).2]

/-- Fresh ordinals are never refused. -/
theorem exists_allocateEach_replicate (p : Parameters) (n : Nat) :
    ∃ markers q, p.allocateEach (List.replicate n none) = .ok (markers, q) := by
  induction n generalizing p with
  | zero => exact ⟨[], p, rfl⟩
  | succ n ih =>
    obtain ⟨markers, q, hq⟩ := ih (p.declare none)
    have hfirst : p.allocate none = .ok (p.markerFor none, p.declare none) := rfl
    refine ⟨p.markerFor none :: markers, q, ?_⟩
    rw [List.replicate_succ, allocateEach_cons_of_ok hfirst, hq]
    rfl

/-! ## In place -/

/-- A change of parameters in place.  A failure keeps what was declared before it. -/
abbrev InPlace := EStateM Error Parameters

namespace InPlace

/-- Checks one declaration and declares it. -/
def allocate (d : Declaration) : InPlace Text := do
  let p ← get
  ofExcept (check p.ordinals d)
  modify (·.declare d)
  return p.markerFor d

/-- Declares placeholders one after the other, each behind its own check. -/
def allocateEach : List Declaration → InPlace (List Text)
  | [] => return []
  | d :: ds => do
    let marker ← allocate d
    let markers ← allocateEach ds
    return marker :: markers

/-- Declares placeholders in a row in two phases: all are checked before the first is
    declared, and each is checked once more when its turn comes. -/
def allocateAll (ds : List Declaration) : InPlace (List Text) := do
  let p ← get
  ofExcept (checkAll p.ordinals ds)
  allocateEach ds

theorem run_allocate (p : Parameters) (d : Declaration) :
    (allocate d).run p = match p.allocate d with
      | .error e => .error e p
      | .ok (marker, q) => .ok marker q := by
  show (do ofExcept (check p.ordinals d); modify (·.declare d); return p.markerFor d :
    InPlace Text).run p = _
  unfold Parameters.allocate
  cases check p.ordinals d <;> rfl

theorem run_allocateEach_of_ok {markers : List Text} {q : Parameters}
    (h : p.allocateEach ds = .ok (markers, q)) : (allocateEach ds).run p = .ok markers q := by
  induction ds generalizing p markers with
  | nil =>
    cases h
    rfl
  | cons d ds ih =>
    obtain ⟨marker, p', markers', hd, hds, rfl⟩ := allocateEach_cons_eq_ok h
    rw [allocateEach, EStateM.run_bind, run_allocate, hd]
    show (do let markers ← allocateEach ds; return marker :: markers : InPlace _).run p' = _
    rw [EStateM.run_bind, ih hds]
    rfl

/-- **Without a check in front a refusal comes too late**: the declarations before it stay. -/
theorem run_allocateEach_of_error {before : List Declaration} {markers : List Text} {q : Parameters}
    (h : p.allocateEach before = .ok (markers, q)) {d : Declaration} (he : q.allocate d = .error e)
    (behind : List Declaration) : (allocateEach (before ++ d :: behind)).run p = .error e q := by
  induction before generalizing p markers with
  | nil =>
    cases h
    rw [List.nil_append, allocateEach, EStateM.run_bind, run_allocate, he]
  | cons c before ih =>
    obtain ⟨marker, p', markers', hc, hbefore, -⟩ := allocateEach_cons_eq_ok h
    rw [List.cons_append, allocateEach, EStateM.run_bind, run_allocate, hc]
    show (do let markers ← allocateEach _; return marker :: markers : InPlace _).run p' = _
    rw [EStateM.run_bind, ih hbefore]

/-- **With the check in front a row is declared as a whole or not at all**, for no check behind
    it fails any more. -/
theorem run_allocateAll (p : Parameters) (ds : List Declaration) :
    (allocateAll ds).run p = match p.allocateAll ds with
      | .error e => .error e p
      | .ok (markers, q) => .ok markers q := by
  show (do ofExcept (checkAll p.ordinals ds); allocateEach ds : InPlace (List Text)).run p = _
  have hall := allocateAll_eq_allocateEach p ds
  cases hds : checkAll p.ordinals ds with
  | error e =>
    rw [Parameters.allocateAll, hds]
    rfl
  | ok u =>
    rw [allocateAll_eq_ok_iff.2 ⟨hds, rfl⟩] at hall ⊢
    exact run_allocateEach_of_ok hall.symm

end InPlace

end Parameters

/-! ## Drafts -/

theorem Statement.setTokens_setTokens (s : Statement) (k : Clause) (ts us : List Text) :
    (s.setTokens k ts).setTokens k us = s.setTokens k us := by
  unfold setTokens
  congr 1
  funext k'
  by_cases hk : k' = k <;> simp [hk]

namespace Draft

/-- The draft with tokens added to a clause. -/
def adding (d : Draft) (k : Clause) (tokens : List Text) : Draft :=
  { d with statement := d.statement.setTokens k ((d.statement.tokens? k).getD [] ++ tokens) }

/-- The draft after declarations, if they lead to the parameters `q`.  Where nothing is
    declared nothing changes. -/
def declaring (d : Draft) (ds : List Declaration) (q : Parameters) : Draft :=
  if ds = [] then d else d.holding q

@[simp] theorem ownParameters_adding (d : Draft) (k : Clause) (tokens : List Text) :
    (d.adding k tokens).ownParameters = d.ownParameters := rfl

theorem adding_adding (d : Draft) (k : Clause) (ts us : List Text) :
    (d.adding k ts).adding k us = d.adding k (ts ++ us) := by
  unfold adding
  simp only [Statement.setTokens_setTokens, Statement.tokens?_setTokens, if_true, Option.getD_some,
    List.append_assoc]

end Draft

namespace Phrase

open Edit Parameters

variable {d : Draft} {k : Clause}

/-- What guarded writing does to a draft with an open clause, said by what the guarded edit
    does. -/
theorem run_guarded_of_current {α : Type} {x : Edit α} (hx : Quiet x) (f : α → List Text)
    (hk : d.statement.current = some k) :
    (do requireClause; let a ← x; Edit.write (f a)).run d = match x.run d with
      | .error e d' => .error e d'
      | .ok a d' => .ok () (d'.adding k (f a)) := by
  rw [run_guarded x f d hx, hk]
  have hd := hx d
  cases hr : x.run d with
  | error e d' => rfl
  | ok a d' =>
    rw [hr] at hd
    show EStateM.Result.ok () _ = EStateM.Result.ok () _
    rw [Draft.adding, hd.2]

/-- A placeholder by itself is declared and written. -/
theorem run_param (hk : d.statement.current = some k) (g : Given Source) :
    (param g).write.run d = match d.ownParameters.allocate (.ofValue g.toValue) with
      | .error e => .error e (d.holding d.ownParameters)
      | .ok (marker, q) => .ok () ((d.holding q).adding k [marker]) := by
  refine (run_guarded_of_current (quiet_onParameters fun p => p.allocate (.ofValue g.toValue))
    (fun marker => [marker]) hk).trans ?_
  cases hg : d.ownParameters.allocate (.ofValue g.toValue) with
  | error e => rw [run_onParameters_error hg]
  | ok r => rw [run_onParameters_ok hg]

/-- Placeholders by themselves behind tokens that were added before. -/
theorem run_params_adding (hk : d.statement.current = some k) {gs : List (Given Source)}
    {p q : Parameters} {markers : List Text}
    (h : p.allocateEach (gs.map fun g => .ofValue g.toValue) = .ok (markers, q)) (ts : List Text) :
    (gs.forM fun g => (param g).write).run ((d.holding p).adding k ts) =
      .ok () ((d.holding q).adding k (ts ++ markers)) := by
  induction gs generalizing p ts markers with
  | nil =>
    cases h
    rw [List.append_nil]
    rfl
  | cons g gs ih =>
    obtain ⟨marker, p', markers', hg, hgs, rfl⟩ := allocateEach_cons_eq_ok h
    have hfirst : (param g).write.run ((d.holding p).adding k ts) =
        .ok () ((d.holding p').adding k (ts ++ [marker])) := by
      have hcurrent : ((d.holding p).adding k ts).statement.current = some k := hk
      rw [run_param hcurrent, Draft.ownParameters_adding, Draft.ownParameters_holding, hg,
        ← Draft.adding_adding]
      rfl
    show ((param g).write >>= fun _ => gs.forM fun g => (param g).write).run _ = _
    rw [EStateM.run_bind, hfirst]
    show (gs.forM fun g => (param g).write).run _ = _
    rw [ih hgs, List.append_assoc]
    rfl

/-- **Placeholders by themselves are declared one after the other**, and each is a token of
    its own. -/
theorem run_params (hk : d.statement.current = some k) {gs : List (Given Source)} (hgs : gs ≠ [])
    {markers : List Text} {q : Parameters}
    (h : d.ownParameters.allocateEach (gs.map fun g => .ofValue g.toValue) = .ok (markers, q)) :
    (gs.forM fun g => (param g).write).run d = .ok () ((d.holding q).adding k markers) := by
  obtain ⟨g, gs, rfl⟩ := List.exists_cons_of_ne_nil hgs
  obtain ⟨marker, p', markers', hg, hrest, rfl⟩ := allocateEach_cons_eq_ok h
  show ((param g).write >>= fun _ => gs.forM fun g => (param g).write).run d = _
  rw [EStateM.run_bind, run_param hk, hg]
  exact run_params_adding hk hrest [marker]

/-! ## Rows in a phrase -/

/-- A row is declared as it is by itself. -/
theorem run_declareAll_eq (d : Draft) (ds : List Declaration) :
    (Edit.declareAll ds).run d = match d.ownParameters.allocateEach ds with
      | .error e => .error e (d.holding d.ownParameters)
      | .ok (markers, q) => .ok markers (d.holding q) := by
  have hall := allocateAll_eq_allocateEach d.ownParameters ds
  cases hds : d.ownParameters.allocateEach ds with
  | error e => exact run_onParameters_error (hall.trans hds)
  | ok r => exact run_onParameters_ok (hall.trans hds)

/-- Taking the parameters out of a draft and putting them back comes to changing them in place:
    a row that is refused leaves in the draft what it leaves there. -/
theorem run_declareAll_inPlace (d : Draft) (ds : List Declaration) :
    (Edit.declareAll ds).run d = match (InPlace.allocateAll ds).run d.ownParameters with
      | .error e q => .error e (d.holding q)
      | .ok markers q => .ok markers (d.holding q) := by
  rw [InPlace.run_allocateAll]
  cases hds : d.ownParameters.allocateAll ds with
  | error e => exact run_onParameters_error hds
  | ok r => exact run_onParameters_ok hds

/-- **A number in `IN` declares as many fresh ordinals**, and writes them as one list. -/
theorem run_fresh (hk : d.statement.current = some k) {n : Nat} (hn : 1 ≤ n) {markers : List Text}
    {q : Parameters} (h : d.ownParameters.allocateEach (List.replicate n none) = .ok (markers, q)) :
    (membership [.value (.int n)]).write.run d =
      .ok () ((d.holding q).adding k [Keyword.in_.text, Fragment.list markers]) := by
  have hwritten : (writtenCandidates [.value (.int n)]).run d =
      .ok (Fragment.list markers) (d.holding q) := by
    have hpos : ¬ (n : Int) < 1 := by omega
    show (if (n : Int) < 1 then throw (.countNotPositive n)
      else do return Fragment.list (← Edit.declareAll (List.replicate (n : Int).toNat none)) :
        Edit Text).run d = _
    rw [if_neg hpos, Int.toNat_natCast, EStateM.run_bind, run_declareAll_eq, h]
    rfl
  refine (run_guarded_of_current (quiet_writtenCandidates _)
    (fun text => [Keyword.in_.text, text]) hk).trans ?_
  rw [hwritten]

/-! ## Calls -/

/-- The call of a procedure, a function or an aggregate: its arguments, and the token that
    it writes for their texts. -/
inductive Calls : Phrase Source → List (Argument Source) → (List Text → Text) → Prop where
  | procedure (name : Text) (as : List (Argument Source)) :
    Calls (.procedure name as) as (Fragment.call name)
  | function (name : Text) (type label : Option Text) (as : List (Argument Source)) :
    Calls (.function name type label as) as fun ts => finished type label (Fragment.call name ts)
  | aggregate (name : Text) (type label : Option Text) (distinct : Bool) (a : Argument Source) :
    Calls (.aggregate name type label distinct a) [a] fun ts =>
      finished type label (Fragment.aggregate name ts.flatten distinct)

/-- The texts `ts` of the arguments `as`: a placeholder among the arguments has that of the
    `markers` whose number is the number of placeholders in front of it, and any other
    argument has its own text. -/
structure Places (markers : List Text) (as : List (Argument Source)) (ts : List Text) : Prop where
  length_eq : ts.length = as.length
  of_param : ∀ (i : Nat) (g : Given Source), as[i]? = some (.param g) →
    ts[i]? = markers[(declarations (as.take i)).length]?
  of_other : ∀ (i : Nat) (a : Argument Source), as[i]? = some a → (∀ g, a ≠ .param g) →
    ts[i]? = some (argumentText a)

theorem argumentTexts_cons_of_ne {a : Argument Source} (ha : ∀ g, a ≠ .param g)
    (markers : List Text) (as : List (Argument Source)) :
    argumentTexts markers (a :: as) = argumentText a :: argumentTexts markers as ∧
      declarations (a :: as) = declarations as := by
  cases a with
  | param g => exact absurd rfl (ha g)
  | given | column | value => cases markers <;> exact ⟨rfl, rfl⟩

theorem Places.cons_param {markers ts : List Text} {as : List (Argument Source)}
    (h : Places markers as ts) (marker : Text) (g : Given Source) :
    Places (marker :: markers) (.param g :: as) (marker :: ts) where
  length_eq := congrArg (· + 1) h.length_eq
  of_param i g' hi := by
    cases i with
    | zero => rfl
    | succ i => exact h.of_param i g' hi
  of_other i a hi ha := by
    cases i with
    | zero => cases hi; exact absurd rfl (ha g)
    | succ i => exact h.of_other i a hi ha

theorem Places.cons_other {markers ts : List Text} {as : List (Argument Source)}
    (h : Places markers as ts) {a : Argument Source} (ha : ∀ g, a ≠ .param g) :
    Places markers (a :: as) (argumentText a :: ts) where
  length_eq := congrArg (· + 1) h.length_eq
  of_param i g hi := by
    cases i with
    | zero => cases hi; exact absurd rfl (ha g)
    | succ i =>
      rw [List.take_succ_cons, (argumentTexts_cons_of_ne ha [] (as.take i)).2]
      exact h.of_param i g hi
  of_other i a' hi ha' := by
    cases i with
    | zero => cases hi; rfl
    | succ i => exact h.of_other i a' hi ha'

/-- The texts of arguments have the placeholders in their places. -/
theorem places_argumentTexts {markers : List Text} {as : List (Argument Source)}
    (h : markers.length = (declarations as).length) :
    Places markers as (argumentTexts markers as) := by
  induction as generalizing markers with
  | nil =>
    rw [List.eq_nil_of_length_eq_zero h]
    exact ⟨rfl, nofun, nofun⟩
  | cons a as ih =>
    by_cases ha : ∃ g, a = .param g
    · obtain ⟨g, rfl⟩ := ha
      obtain ⟨marker, markers, rfl⟩ := List.exists_cons_of_length_eq_add_one h
      exact (ih (Nat.succ.inj h)).cons_param marker g
    · have ha := not_exists.1 ha
      obtain ⟨htexts, hds⟩ := argumentTexts_cons_of_ne ha markers as
      rw [hds] at h
      rw [htexts]
      exact (ih h).cons_other ha

/-- Arguments are written with their placeholders declared one after the other. -/
theorem run_writtenArguments_eq (d : Draft) (as : List (Argument Source)) :
    (writtenArguments as).run d = match d.ownParameters.allocateEach (declarations as) with
      | .error e => .error e (d.holding d.ownParameters)
      | .ok (markers, q) => .ok (argumentTexts markers as) (d.declaring (declarations as) q) := by
  unfold writtenArguments
  by_cases hds : declarations as = []
  · rw [if_pos hds, hds]
    rfl
  · have hheld : ∀ q, d.declaring (declarations as) q = d.holding q := fun q => if_neg hds
    rw [if_neg hds, EStateM.run_bind, run_declareAll_eq]
    cases d.ownParameters.allocateEach (declarations as) with
    | error e => rfl
    | ok r => exact congrArg (EStateM.Result.ok _) (hheld r.2).symm

/-- An argument by itself is written like a row of one. -/
theorem run_writtenArgument_eq (d : Draft) (a : Argument Source) :
    (writtenArgument a).run d = match d.ownParameters.allocateEach (declarations [a]) with
      | .error e => .error e (d.holding d.ownParameters)
      | .ok (markers, q) =>
        .ok (argumentTexts markers [a]).flatten (d.declaring (declarations [a]) q) := by
  by_cases ha : ∃ g, a = .param g
  · obtain ⟨g, rfl⟩ := ha
    show (Edit.declare (.ofValue g.toValue)).run d =
      match d.ownParameters.allocateEach [.ofValue g.toValue] with
      | .error e => .error e (d.holding d.ownParameters)
      | .ok (markers, q) => .ok (argumentTexts markers [.param g]).flatten (d.holding q)
    cases hg : d.ownParameters.allocate (.ofValue g.toValue) with
    | error e =>
      rw [allocateEach_cons_of_error hg]
      exact run_onParameters_error hg
    | ok r =>
      have hone : (argumentTexts [r.1] [.param g]).flatten = r.1 := List.append_nil r.1
      rw [allocateEach_cons_of_ok hg]
      show _ = EStateM.Result.ok (argumentTexts [r.1] [.param g]).flatten _
      rw [hone]
      exact run_onParameters_ok hg
  · obtain ⟨htexts, hds⟩ := argumentTexts_cons_of_ne (not_exists.1 ha) [] []
    have hone : (argumentTexts [] [a]).flatten = argumentText a := by
      rw [htexts]
      exact List.append_nil _
    rw [hds]
    show _ = EStateM.Result.ok (argumentTexts [] [a]).flatten d
    rw [hone]
    cases a with
    | param g => exact absurd ⟨g, rfl⟩ ha
    | given | column | value => rfl

/-- **A call declares the placeholders among its arguments one after the other**, and writes
    one token. -/
theorem run_call (hk : d.statement.current = some k) {c : Phrase Source}
    {as : List (Argument Source)} {token : List Text → Text} (hc : c.Calls as token) :
    c.write.run d = match d.ownParameters.allocateEach (declarations as) with
      | .error e => .error e (d.holding d.ownParameters)
      | .ok (markers, q) =>
        .ok () ((d.declaring (declarations as) q).adding k [token (argumentTexts markers as)]) := by
  cases hc with
  | procedure name =>
    refine (run_guarded_of_current (quiet_writtenArguments as)
      (fun ts => [Fragment.call name ts]) hk).trans ?_
    rw [run_writtenArguments_eq]
    cases d.ownParameters.allocateEach (declarations as) <;> rfl
  | function name type label =>
    refine (run_guarded_of_current (quiet_writtenArguments as)
      (fun ts => [finished type label (Fragment.call name ts)]) hk).trans ?_
    rw [run_writtenArguments_eq]
    cases d.ownParameters.allocateEach (declarations as) <;> rfl
  | aggregate name type label distinct a =>
    refine (run_guarded_of_current (quiet_writtenArgument a)
      (fun t => [finished type label (Fragment.aggregate name t distinct)]) hk).trans ?_
    rw [run_writtenArgument_eq]
    cases d.ownParameters.allocateEach (declarations [a]) <;> rfl

end Phrase

section
open Parameters Phrase

/-- **A batch is declared as its placeholders would be one by one.**  Declaring in a row
    succeeds exactly if declaring one after the other does, and then gives the same
    placeholders and parameters; otherwise it fails as the first of these that is refused
    does, and the parameters stay as they are, also where they change in place.  So a number
    in `IN` declares what as many placeholders by themselves do, and in a call every
    placeholder among the arguments gets its text as if the placeholders were declared alone,
    in the order of the arguments, while every other argument keeps its place. -/
theorem batch_one_by_one :
    (∀ (p : Parameters) (ds : List Declaration), p.allocateAll ds = p.allocateEach ds ∧
      ∀ e, p.allocateAll ds = .error e ↔ ∃ before d behind markers q,
        ds = before ++ d :: behind ∧ p.allocateEach before = .ok (markers, q) ∧
          q.allocate d = .error e) ∧
    (∀ (p : Parameters) (references : List Value) (e : Error),
      p.allocateAll (references.map .ofValue) = .error e →
        p.after (.declareAll references) = p) ∧
    (∀ (p : Parameters) (ds : List Declaration), (InPlace.allocateAll ds).run p =
      match p.allocateEach ds with
      | .error e => .error e p
      | .ok (markers, q) => .ok markers q) ∧
    ∀ (d : Draft) (k : Clause), d.statement.current = some k →
      (∀ n : Nat, 1 ≤ n → ∃ markers q, markers.length = n ∧
        ((List.replicate n (Given.value .null)).forM fun g => (param g).write).run d =
          .ok () ((d.holding q).adding k markers) ∧
        (membership [.value (.int n)]).write.run d =
          .ok () ((d.holding q).adding k [Keyword.in_.text, Fragment.list markers])) ∧
      ∀ c as token, Calls c as token → match d.ownParameters.allocateEach (declarations as) with
        | .error e => c.write.run d = .error e (d.holding d.ownParameters)
        | .ok (markers, q) => ∃ ts, Places markers as ts ∧
          c.write.run d = .ok () ((d.declaring (declarations as) q).adding k [token ts]) := by
  refine ⟨?_, ?_, ?_, ?_⟩
  · intro p ds
    have hall := allocateAll_eq_allocateEach p ds
    refine ⟨hall, fun e => ?_⟩
    rw [hall]
    exact allocateEach_eq_error_iff
  · intro p references e
    exact after_declareAll_of_error
  · intro p ds
    rw [InPlace.run_allocateAll, allocateAll_eq_allocateEach]
  · intro d k hk
    refine ⟨?_, ?_⟩
    · intro n hn
      obtain ⟨markers, q, hq⟩ := exists_allocateEach_replicate d.ownParameters n
      have hlen := length_of_allocateEach hq
      rw [List.length_replicate] at hlen
      have hne : List.replicate n (Given.value (ρ := Source) .null) ≠ [] := by
        intro h
        have := congrArg List.length h
        rw [List.length_replicate, List.length_nil] at this
        omega
      refine ⟨markers, q, hlen, run_params hk hne ?_, run_fresh hk hn hq⟩
      rw [List.map_replicate]
      exact hq
    · intro c as token hc
      have hrun := run_call hk hc
      cases hds : d.ownParameters.allocateEach (declarations as) with
      | error e =>
        rw [hds] at hrun
        exact hrun
      | ok r =>
        rw [hds] at hrun
        exact ⟨_, places_argumentTexts (length_of_allocateEach hds), hrun⟩

/-- The name `x` and one ordinal are declared.  A row that asks for the ordinal after the one
    that it adds itself is refused as a whole, where the same declarations one by one leave
    three slots; two fresh ordinals go into `IN`; and a call has a fresh ordinal, a column, the
    same ordinal again, a literal and the name. -/
theorem batch_one_by_one_mixed_arguments :
    let p := (empty .standard).after (.declareAll [.text "x", .null])
    let refused : List Value := [.null, .int 2, .text "x", .int 3]
    let d : Draft := ⟨.standard, Statement.empty.start .call, some p⟩
    let as : List (Argument Source) := [.param (.value .null), .column "t.c",
      .param (.value (.int 2)), .value (.value (.text "a")), .param (.value (.text "x"))]
    p.allocateAll (refused.map .ofValue) = .error (.undeclaredOrdinal 3 2) ∧
      p.after (.declareAll refused) = p ∧
      (InPlace.allocateAll (refused.map .ofValue)).run p = .error (.undeclaredOrdinal 3 2) p ∧
      (∃ q, (InPlace.allocateEach (refused.map .ofValue)).run p = .error (.undeclaredOrdinal 3 2) q ∧
        q.slotCount = p.slotCount + 3) ∧
      (∃ markers q, markers.length = 2 ∧
        ((List.replicate 2 (Given.value .null)).forM fun g => (param g).write).run d =
          .ok () ((d.holding q).adding .call markers) ∧
        (membership [.value (.int 2)]).write.run d =
          .ok () ((d.holding q).adding .call [Keyword.in_.text, Fragment.list markers])) ∧
      (∃ q ts, Places ["$$2", "$$2", "$?x"] as ts ∧ (procedure "f" as).write.run d =
        .ok () ((d.declaring (declarations as) q).adding .call [Fragment.call "f" ts])) ∧
      argumentTexts ["$$2", "$$2", "$?x"] as =
        ["$$2".toList, "\"t\".\"c\"".toList, "$$2".toList, "'a'".toList, "$?x".toList] := by
  intro p refused d as
  obtain ⟨hrow, hfailed, hinplace, hdrafts⟩ := batch_one_by_one
  have hrefused : p.allocateAll (refused.map .ofValue) = .error (.undeclaredOrdinal 3 2) := by
    decide +kernel
  have hkept : (InPlace.allocateAll (refused.map .ofValue)).run p =
      .error (.undeclaredOrdinal 3 2) p := by
    rw [hinplace, ← (hrow p _).1, hrefused]
  have heach : d.ownParameters.allocateEach (declarations as) =
      .ok (["$$2".toList, "$$2".toList, "$?x".toList], (p.declareAll (declarations as)).2) := by
    decide +kernel
  obtain ⟨hfresh, hcalls⟩ := hdrafts d .call rfl
  have hcall := hcalls _ as _ (.procedure "f" as)
  rw [heach] at hcall
  obtain ⟨ts, hts, hrun⟩ := hcall
  exact ⟨hrefused, hfailed p refused _ hrefused, hkept, ⟨_, rfl, by decide +kernel⟩,
    hfresh 2 (by decide), ⟨_, ts, hts, hrun⟩, by decide +kernel⟩

end

end SqlCompose
