/-
  Accounting — what becomes of the slots of a statement.

  A slot is there for good, while its placeholder is gone when the clause in which it
  stands is opened again.  So there are as many slots as placeholders that still stand
  and placeholders that were lost.

  * `Edit.Takes` says how many slots an edit adds, and `Phrase.takes_write` that a phrase
    adds one for every placeholder that it writes and every loss of what it takes in;
  * `Session.losses` is a ledger beside the session, in which only the opening of a clause
    and the taking in of a statement are entered;
  * `Balanced.charged` and `Balanced.after`: the ledger accounts for all slots;
  * `slots_accounted`: how many values a builder accepts after every composed run.
-/
import SqlCompose.Proofs.Alignment

namespace SqlCompose

open Template

/-! ## Slots that an edit adds -/

/-- The number of slots of a draft. -/
def Draft.slotCount (d : Draft) : Nat := (held d.parameters).slotCount

theorem Draft.slotCount_ownParameters (d : Draft) : d.ownParameters.slotCount = d.slotCount := by
  unfold slotCount ownParameters
  cases d.parameters <;> rfl

theorem Draft.Kept.slotCount_eq {d d' : Draft} (h : d.Kept d') : d'.slotCount = d.slotCount := by
  unfold slotCount
  rcases h.parameters_cases with he | ⟨hn, he⟩
  · rw [he]
  · rw [he, hn]
    rfl

theorem Draft.Refilled.slotCount_eq {d d' : Draft} (h : d.Refilled d') :
    d'.slotCount = d.slotCount := by
  have hp := h.parameters
  unfold slotCount
  generalize d.parameters = o, d'.parameters = o' at hp ⊢
  cases hp with
  | none => rfl
  | some hr =>
    obtain ⟨values, hv, rfl⟩ := hr
    exact hv

namespace Edit

variable {α β : Type} {x : Edit α} {n : Nat}

/-- The edit adds `n` slots, unless it fails. -/
def Takes (x : Edit α) (n : Nat) (d : Draft) : Prop :=
  ∀ a d', x.run d = .ok a d' → d'.slotCount = d.slotCount + n

variable {d : Draft}

theorem takes_pure (a : α) : Takes (pure a) 0 d := by
  rintro _ _ ⟨⟩
  rfl

theorem takes_throw (e : Error) : Takes (throw e : Edit α) n d := nofun

theorem Takes.map (h : Takes x n d) (f : α → β) : Takes (do return f (← x)) n d := by
  intro b d' hr
  obtain ⟨a, hx, -⟩ := run_map_eq_ok hr
  exact h a d' hx

theorem takes_onParameters {f : Parameters → Except Error (α × Parameters)}
    (h : ∀ p a q, f p = .ok (a, q) → q.slotCount = p.slotCount + n) : Takes (onParameters f) n d := by
  intro a d' hr
  obtain ⟨q, hq, rfl⟩ := run_onParameters_eq_ok_iff.1 hr
  rw [← d.slotCount_ownParameters]
  exact h _ a q hq

theorem takes_declare (e : Declaration) : Takes (declare e) 1 d := by
  refine takes_onParameters fun p t q hq => ?_
  obtain ⟨-, -, rfl⟩ := Parameters.allocate_eq_ok_iff.1 hq
  exact p.slotCount_declare e

theorem takes_declareAll (ds : List Declaration) : Takes (declareAll ds) ds.length d := by
  refine takes_onParameters fun p ts q hq => ?_
  have hlen := (p.length_declareAll ds).2
  rwa [← (Parameters.allocateAll_eq_ok_iff.1 hq).2] at hlen

theorem takes_write (ts : List Text) : Takes (write ts) 0 d := by
  intro a d' hr
  rw [run_write] at hr
  split at hr
  · cases hr
  · cases hr; rfl

theorem takes_writeTo (k : Clause) (ts : List Text) : Takes (writeTo k ts) 0 d := by
  intro a d' hr
  rw [run_writeTo] at hr
  split at hr
  · cases hr
  · cases hr; rfl

/-- Writing takes no slots but those of what is written. -/
theorem Takes.guarded (h : Takes x n d) (hq : Quiet x) (f : α → List Text) :
    Takes (do requireClause; let a ← x; write (f a)) n d := by
  intro u d' hr
  rw [run_guarded x f d hq] at hr
  split at hr
  · cases hr
  · cases hx : x.run d with
    | error e d'' => rw [hx] at hr; cases hr
    | ok a d'' =>
      rw [hx] at hr
      cases hr
      exact h a d'' hx

end Edit

/-! ## Slots that a phrase adds -/

/-- The statement that an argument is. -/
def Argument.statement? {ρ : Type} : Argument ρ → Option ρ
  | .given (.statement r) => some r
  | _ => none

/-- The statement that a phrase takes in. -/
def Phrase.takenIn? {ρ : Type} : Phrase ρ → Option ρ
  | .definition sub _ | .subquery sub _ | .existence sub => sub.statement?
  | .membership [.statement r] => some r
  | _ => none

theorem Parameters.slotCount_of_merge {p q inner : Parameters} {raw t : Text}
    (h : p.merge raw inner = .ok (t, q)) : q.slotCount = p.slotCount + inner.slotCount := by
  obtain ⟨-, rfl, -⟩ := merge_eq_ok_iff.1 h
  exact p.slotCount_absorb inner

section
variable {source : Text → Source} {carried : Text → List Text} {lost : Text → Nat} {d : Draft}
  (hs : ∀ r raw o, source r = .other raw o → (held o).slotCount = (carried r).length + lost r)
include hs

/-- Taking a statement in takes the slots of what it carries and of what it lost. -/
theorem takes_embed (p : Parameters) (sub : Argument Text) :
    Edit.Takes (Edit.embed (sub.map source))
      ((takenIn p carried sub).length + sub.statement?.elim 0 lost) d := by
  intro t d' h
  obtain ⟨raw, o, hsub, hcases⟩ := Edit.run_embed_cases h
  cases sub with
  | column | value | param => cases hsub
  | given g =>
    cases g with
    | value => cases hsub
    | statement r =>
      have hsrc : source r = .other raw o := by injection hsub with h; injection h
      have hslots := hs r raw o hsrc
      show d'.slotCount = d.slotCount + (((carried r).map _).length + lost r)
      rw [List.length_map, ← hslots]
      rcases hcases with ⟨hnone, -, rfl⟩ | ⟨inner, q, rfl, hq, rfl⟩
      · have h₀ : (held o).slotCount = 0 := by
          cases o with
          | none => rfl
          | some inner => exact hnone inner rfl
        rw [h₀]
        rfl
      · rw [← d.slotCount_ownParameters]
        exact Parameters.slotCount_of_merge hq

/-- What `IN` looks in takes a slot for every placeholder, or those of the statement. -/
theorem takes_writtenCandidates (p : Parameters) (gs : List (Given Text)) :
    Edit.Takes (Phrase.writtenCandidates (gs.map (·.map source)))
      ((candidateMarkers p source carried gs).length +
        (Phrase.membership gs).takenIn?.elim 0 lost) d := by
  have hall : Edit.Takes (do return Fragment.list (← Edit.declareAll
      ((gs.map (·.map source)).map fun g => .ofValue g.toValue)))
        (p.declareAll ((gs.map (·.map source)).map fun g => .ofValue g.toValue)).1.length d := by
    rw [(p.length_declareAll _).1]
    exact (Edit.takes_declareAll _).map _
  rcases gs with _ | ⟨g, _ | ⟨g', gs⟩⟩
  · exact hall
  · cases g with
    | statement r => exact (takes_embed hs p (.given (.statement r))).map _
    | value v =>
      cases v with
      | int n =>
        have hlen := (p.length_declareAll (List.replicate n.toNat none)).1
        show Edit.Takes (if n < 1 then throw (.countNotPositive n)
          else do return Fragment.list (← Edit.declareAll (List.replicate n.toNat none))) _ d
        split
        · exact Edit.takes_throw _
        · show Edit.Takes _ (p.declareAll (List.replicate n.toNat none)).1.length d
          rw [hlen]
          exact (Edit.takes_declareAll _).map _
      | null | bool | float | text | statement => exact hall
  · cases g with
    | statement r => exact hall
    | value v => cases v <;> exact hall

omit hs in
theorem takes_writtenArguments (p : Parameters) (as : List (Argument Source)) :
    Edit.Takes (Phrase.writtenArguments as) (p.declareAll (Phrase.declarations as)).1.length d := by
  rw [(p.length_declareAll _).1]
  unfold Phrase.writtenArguments
  split
  · next hnone =>
    rw [hnone]
    exact Edit.takes_pure _
  · exact (Edit.takes_declareAll _).map _

omit hs in
theorem takes_writtenArgument (p : Parameters) (a : Argument Source) :
    Edit.Takes (Phrase.writtenArgument a) (p.declareAll (Phrase.declarations [a])).1.length d := by
  rw [(p.length_declareAll _).1]
  cases a with
  | param g => exact Edit.takes_declare _
  | given | column | value => exact Edit.takes_pure _

/-- **A phrase takes a slot for every placeholder that it writes**, and one for every loss
    of the statement that it takes in. -/
theorem Phrase.takes_write (p : Parameters) (q : Phrase Text) :
    Edit.Takes (q.map source).write
      ((q.markers p source carried).length + q.takenIn?.elim 0 lost) d := by
  cases q with
  | clause k => rintro _ _ ⟨⟩; rfl
  | keyword w =>
    unfold Phrase.map Phrase.write
    dsimp only
    split
    · exact Edit.takes_writeTo _ _
    · exact Edit.takes_write _
  | using_ columns =>
    unfold Phrase.map Phrase.write
    dsimp only
    split
    · exact Edit.takes_throw _
    · exact Edit.takes_writeTo _ _
  | column path type label =>
    unfold Phrase.map Phrase.write
    dsimp only
    split
    · exact Edit.takes_throw _
    · exact Edit.takes_write _
  | allColumns qualifier => rcases qualifier with _ | (_ | ⟨c, n⟩) <;> exact Edit.takes_write _
  | table | literal | bare | verbatim => exact Edit.takes_write _
  | definition sub label => exact (takes_embed hs p sub).guarded (Edit.quiet_embed _) _
  | subquery sub label => exact (takes_embed hs p sub).guarded (Edit.quiet_embed _) _
  | existence sub => exact (takes_embed hs p sub).guarded (Edit.quiet_embed _) _
  | membership gs =>
    cases gs with
    | nil => exact Edit.takes_throw _
    | cons g gs =>
      exact (takes_writtenCandidates hs p (g :: gs)).guarded (Phrase.quiet_writtenCandidates _) _
  | param g => exact (Edit.takes_declare _).guarded (Edit.quiet_onParameters _) _
  | procedure name as =>
    exact (takes_writtenArguments p _).guarded (Phrase.quiet_writtenArguments _) _
  | function name type label as =>
    exact (takes_writtenArguments p _).guarded (Phrase.quiet_writtenArguments _) _
  | aggregate name type label distinct a =>
    exact (takes_writtenArgument p _).guarded (Phrase.quiet_writtenArgument _) _

end

/-! ## Placeholders that go -/

/-- What a call loses at a builder with the history `h`, if it does not fail: opening a
    clause loses what stands in it, and a statement that is taken in brings its own losses. -/
def Call.loses (lost : Text → Nat) (h : History) : Call Text → Nat
  | .say (.clause k) | .page k _ => (h.surviving k).length
  | .say q => q.takenIn?.elim 0 lost
  | _ => 0

theorem Call.loses_say {lost : Text → Nat} {h : History} {q : Phrase Text} (hq : ∀ k, q ≠ .clause k) :
    (Call.say q).loses lost h = q.takenIn?.elim 0 lost := by
  cases q with
  | clause k => exact absurd rfl (hq k)
  | _ => rfl

section
variable {source : Text → Source} {carried : Text → List Text} {lost : Text → Nat} {b : Builder}
  {h : History} (hl : ∀ r raw o, source r = .other raw o → (held o).slotCount = (carried r).length + lost r)
  (hs : ∀ r, (source r).Sound (carried r)) (hd : b.draft.Follows h)

/-- What holds of the slots of a builder after a call: with the history `h` and `past`
    losses before, they are those of its placeholders and of all losses up to now. -/
def Builder.Balances (source : Text → Source) (carried : Text → List Text) (lost : Text → Nat)
    (b : Builder) (h : History) (past : Nat) (call : Call Text) : Prop :=
  (b.respond (call.map source)).2.draft.slotCount = match (b.respond (call.map source)).1 with
    | .ok _ => (History.markers (call.entries (held b.draft.parameters) source carried h ++ h)).length +
        (call.loses lost h + past)
    | .error _ => h.markers.length + past

section
variable {past : Nat} (hb : b.draft.slotCount = h.markers.length + past)
include hb

theorem balances_of_writesNothing {call : Call Text} (hw : (call.map source).WritesNothing)
    (hn : call.entries (held b.draft.parameters) source carried h = []) (hlose : call.loses lost h = 0) :
    b.Balances source carried lost h past call := by
  have hslots := (Builder.refilled_of_respond b hw).slotCount_eq.trans hb
  unfold Builder.Balances
  rw [hn, hlose, List.nil_append, Nat.zero_add, hslots]
  split <;> rfl

theorem balances_clause (k : Clause) : b.Balances source carried lost h past (.say (.clause k)) := by
  have hlen := h.length_markers_opened k
  show b.draft.slotCount = (History.markers (.opened k :: h)).length + ((h.surviving k).length + past)
  omega

theorem balances_page (k : Clause) (g : Given Text) :
    b.Balances source carried lost h past (.page k g) := by
  have hopened := h.length_markers_opened k
  have hwrote := History.length_markers_wrote k [] (.opened k :: h)
  rw [List.length_nil] at hwrote
  show b.draft.slotCount =
    (History.markers (.wrote k [] :: .opened k :: h)).length + ((h.surviving k).length + past)
  omega

include hl hs hd in
theorem balances_say {q : Phrase Text} (hq : q.Composed) (hk : ∀ k, q ≠ .clause k) :
    b.Balances source carried lost h past (.say q) := by
  have htakes := Phrase.takes_write (d := b.draft) hl (held b.draft.parameters) q
  have hrespond : b.respond ((Call.say q).map source) = Builder.acknowledge (b.say (q.map source)) := rfl
  unfold Builder.Balances
  rw [hrespond]
  unfold Builder.say
  cases hr : (q.map source).write.run b.draft with
  | error e d' => exact (Phrase.kept_of_write hr).slotCount_eq.trans hb
  | ok u d' =>
    obtain ⟨k, hcur⟩ := (grown_of_write hq hk hs hd.ready hr).exists_current hd
    have hentries : (Call.say q).entries (held b.draft.parameters) source carried h =
        [.wrote k (q.markers (held b.draft.parameters) source carried)] := by
      show q.entries _ source carried h = _
      rw [Phrase.entries_of_ne hk, hcur]
      rfl
    have hlen := h.length_markers_wrote k (q.markers (held b.draft.parameters) source carried)
    have hslots := htakes () d' hr
    show d'.slotCount = (History.markers (_ ++ h)).length + (_ + past)
    rw [hentries, Call.loses_say hk, List.singleton_append]
    omega

include hl hs hd in
/-- **Slots are only added with placeholders and with losses.** -/
theorem balances_of_composed {call : Call Text} (hc : call.Composed) :
    b.Balances source carried lost h past call := by
  cases call with
  | say q =>
    rcases q.eq_clause_or_ne with ⟨k, rfl⟩ | hk
    · exact balances_clause hb k
    · exact balances_say hl hs hd hb hc hk
  | page k g => exact balances_page hb k g
  | setParam | setParams | clearParams | raw | compiled | quoted | marking =>
    exact balances_of_writesNothing hb trivial rfl rfl

end

end

/-! ## Runs -/

namespace Session

/-- The losses of every builder. -/
abbrev Ledger := Text → Nat

/-- The ledger after a call. -/
def charged (s : Session) (j : Journal) (l : Ledger) (name : Text) (call : Call Text) : Ledger :=
  fun n =>
    if n = name then
      match (s.step name call).1 with
      | .ok _ => call.loses l (j name) + l n
      | .error _ => l n
    else l n

/-- The ledger after calls. -/
def losses (s : Session) (j : Journal) (l : Ledger) : List (Text × Call Text) → Ledger
  | [] => l
  | (name, call) :: run =>
    losses (s.step name call).2 (s.noted j name call) (s.charged j l name call) run

/-- The ledger accounts for the slots of all builders. -/
def Balanced (s : Session) (j : Journal) (l : Ledger) : Prop :=
  ∀ n, (s n).draft.slotCount = (j n).markers.length + l n

theorem balanced_start : start.Balanced (fun _ => []) fun _ => 0 := fun _ => rfl

variable {s : Session} {j : Journal} {l : Ledger}

/-- What a builder sees of the others is accounted for. -/
theorem Balanced.slotCount_source (hb : s.Balanced j l) {name r raw : Text} {o : Option Parameters}
    (h : s.source name r = .other raw o) : (held o).slotCount = (j r).markers.length + l r := by
  unfold source at h
  split at h
  · cases h
  · obtain ⟨-, rfl⟩ := Source.other.inj h
    exact hb r

/-- **A composed call keeps the account.** -/
theorem Balanced.charged (hb : s.Balanced j l) (ht : s.Tracked j) (name : Text) {call : Call Text}
    (hc : call.Composed) :
    (s.step name call).2.Balanced (s.noted j name call) (s.charged j l name call) := by
  intro n
  unfold Session.charged
  by_cases hn : n = name
  · subst hn
    have hbalances : (s n).Balances (s.source n) (fun r => (j r).markers) l (j n) (l n) call :=
      balances_of_composed (fun _ _ _ => hb.slotCount_source) (ht.sound_source n) (ht n).2.toFollows
        (hb n) hc
    have hreply : (s.step n call).1 = ((s n).respond (call.map (s.source n))).1 := rfl
    rw [noted_self, news, if_pos rfl, step_self, hreply]
    unfold Builder.Balances at hbalances
    cases hr : ((s n).respond (call.map (s.source n))).1 with
    | ok reply => rw [hr] at hbalances; exact hbalances
    | error e => rw [hr] at hbalances; exact hbalances
  · rw [noted_of_ne hn, if_neg hn, step_of_ne hn]
    exact hb n

/-- **After every composed run the ledger accounts for all slots.** -/
theorem Balanced.after {run : List (Text × Call Text)} (hrun : ∀ c ∈ run, c.2.Composed)
    (hb : s.Balanced j l) (ht : s.Tracked j) :
    (s.after run).Balanced (s.journal j run) (s.losses j l run) := by
  induction run generalizing s j l with
  | nil => exact hb
  | cons c run ih =>
    have hc := hrun c (by simp)
    refine ih ?_ (hb.charged ht c.1 hc) (ht.step c.1 hc)
    intro c' hc'
    exact hrun c' (by simp [hc'])

end Session

/-! ## Clauses that are opened once -/

/-- The clause was not opened yet, so nothing stands in it. -/
def History.Untouched (k : Clause) (h : History) : Prop := h.surviving k = [] ∧ h.current? ≠ some k

section
variable {p : Parameters} {source : Text → Source} {carried : Text → List Text} {h : History}

/-- Only the clause that is open or is opened is touched. -/
theorem untouched_entries {call : Call Text} {k : Clause} (hu : h.Untouched k)
    (hk : call.opens? ≠ some k) : History.Untouched k (call.entries p source carried h ++ h) := by
  obtain ⟨hnone, hcur⟩ := hu
  have hopened : ∀ {k'}, some k' ≠ some k → History.Untouched k (.opened k' :: h) := by
    intro k' hne
    refine ⟨?_, hne⟩
    rw [History.surviving, if_neg fun he => hne (congrArg some he), hnone]
  have hwrote : ∀ {k' ms h'}, some k' ≠ some k → History.Untouched k h' →
      History.Untouched k (.wrote k' ms :: h') := by
    rintro k' ms h' hne ⟨hnone', hcur'⟩
    refine ⟨?_, hcur'⟩
    rw [History.surviving, if_neg fun he => hne (congrArg some he), hnone']
  cases call with
  | say q =>
    rcases q.eq_clause_or_ne with ⟨k', rfl⟩ | hq
    · exact hopened hk
    · show History.Untouched k (q.entries p source carried h ++ h)
      rw [Phrase.entries_of_ne hq]
      cases hc : h.current? with
      | some k' => exact hwrote (hc ▸ hcur) ⟨hnone, hcur⟩
      | none => exact ⟨hnone, hcur⟩
  | page k' g => exact hwrote hk (hopened hk)
  | setParam | setParams | clearParams | raw | compiled | quoted | marking => exact ⟨hnone, hcur⟩

theorem Call.loses_eq_zero {lost : Text → Nat} (hl : ∀ r, lost r = 0) {call : Call Text}
    (hk : ∀ k, call.opens? = some k → h.surviving k = []) : call.loses lost h = 0 := by
  cases call with
  | say q =>
    rcases q.eq_clause_or_ne with ⟨k', rfl⟩ | hq
    · exact congrArg List.length (hk k' rfl)
    · rw [Call.loses_say hq]
      cases q.takenIn? with
      | none => rfl
      | some r => exact hl r
  | page k' g => exact congrArg List.length (hk k' rfl)
  | setParam | setParams | clearParams | raw | compiled | quoted | marking => rfl

end

namespace Session

variable {s : Session} {j : Journal} {l : Ledger}

/-- **Nothing is lost where no clause is opened twice.** -/
theorem losses_eq_zero {run : List (Text × Call Text)} (hl : ∀ n, l n = 0)
    (hfresh : ∀ n, ∀ k ∈ openings n run, (j n).Untouched k) (hrun : ∀ n, (openings n run).Nodup)
    (n : Text) : s.losses j l run n = 0 := by
  induction run generalizing s j l with
  | nil => exact hl n
  | cons c run ih =>
    obtain ⟨name, call⟩ := c
    simp only [openings_cons] at hfresh hrun
    refine ih ?_ ?_ fun n => (List.nodup_append.1 (hrun n)).2.1
    · intro n
      unfold charged
      have hzero : call.loses l (j name) = 0 := by
        refine Call.loses_eq_zero hl fun k hk => ?_
        exact (hfresh name k (by simp [hk])).1
      split
      · next hn =>
        subst hn
        split
        · rw [hzero, hl]
        · exact hl n
      · exact hl n
    · intro n k hk
      have hu := hfresh n k (List.mem_append_right _ hk)
      by_cases hn : n = name
      · subst hn
        rw [noted_self, news]
        split
        · refine untouched_entries hu fun ho => ?_
          -- the clause is opened now and once more later
          have hnodup := hrun n
          rw [if_pos rfl, ho] at hnodup
          exact (List.nodup_cons.1 hnodup).1 hk
        · exact hu
      · rw [noted_of_ne hn]
        exact hu

/-! ## Values in a row -/

/-- Values in a row are refused iff there are more than slots. -/
theorem reply_setParams (s : Session) (name : Text) (values : List (Given Text)) :
    (s.step name (.setParams values)).1 =
      if (s name).draft.slotCount < values.length then
        .error (.tooManyValues values.length (s name).draft.slotCount)
      else .ok .done := by
  have hreply : (s.step name (.setParams values)).1 = ((s name).setParams
      ((values.map (·.map (s.source name))).map (·.toValue))).1.map fun () => .done := rfl
  have hlen : ((values.map (·.map (s.source name))).map (·.toValue)).length = values.length := by
    rw [List.length_map, List.length_map]
  rw [hreply]
  generalize (values.map (·.map (s.source name))).map (·.toValue) = vs at hlen
  rw [← hlen]
  unfold Builder.setParams Draft.setParams Draft.slotCount
  cases hp : (s name).draft.parameters with
  | none =>
    cases vs with
    | nil => rfl
    | cons v vs => exact (if_pos (Nat.succ_pos _)).symm
  | some p =>
    show Except.map _ (Builder.assign _ ((p.setAll vs).map _)).1 = _
    unfold Parameters.setAll
    show _ = if p.slotCount < vs.length then _ else _
    split <;> rfl

/-- **A builder has a slot for every placeholder that stands, and one for every placeholder
    that was lost.**  After every composed run, with the clauses opened in any order and
    any number of times, the slots of a builder are as many as the placeholders that are
    read in its text, and as those that stood in a clause that was opened again, by itself
    or by what it took in.  So many values it accepts in a row, and no more; and if no
    clause was opened twice, nothing is lost. -/
theorem slots_accounted {run : List (Text × Call Text)} (hrun : ∀ c ∈ run, c.2.Composed)
    (name : Text) :
    let s := start.after run
    let lost := start.losses (fun _ => []) (fun _ => 0) run name
    ∃ raw, (s.step name (.raw false)).1 = .ok (.text raw) ∧
      let count := (placeholders .standard (ofText raw)).length
      (s name).slots.length = count + lost ∧
      (∀ values, (s.step name (.setParams values)).1 =
        if count + lost < values.length then .error (.tooManyValues values.length (count + lost))
        else .ok .done) ∧
      ((∀ n, (openings n run).Nodup) → lost = 0) := by
  intro s lost
  obtain ⟨hcoh, ht⟩ := tracked_start.after hrun name
  have hbalanced : (s name).draft.slotCount = _ + lost := balanced_start.after hrun tracked_start name
  refine ⟨(s name).draft.raw, ?_, ?_⟩
  · show Except.ok (Reply.text (s name).text) = _
    rw [hcoh.text_eq]
  · intro count
    have hcount : (s name).draft.slotCount = count + lost := by
      rw [hbalanced]
      show _ = (placeholders _ _).length + _
      rw [ht.carries_raw.placeholders_eq]
    refine ⟨?_, ?_, ?_⟩
    · rw [← values_held]
      exact hcount
    · intro values
      rw [reply_setParams, hcount]
    · intro honce
      exact losses_eq_zero (fun _ => rfl) (fun _ _ _ => ⟨rfl, fun h => by cases h⟩) honce name

/-- Both statements open a clause again in which placeholders stand, the inner one before
    it is taken in. -/
theorem slots_accounted_reopened :
    let run : List (Text × Call Text) := [
      ("inner", .say (.clause .where_)),
      ("inner", .say (.param (.value (.text "x")))),
      ("inner", .say (.clause .where_)),
      ("inner", .say (.param (.value .null))),
      ("outer", .say (.clause .select)),
      ("outer", .say (.membership [.value (.int 2)])),
      ("outer", .say (.clause .where_)),
      ("outer", .say (.existence (.given (.statement "inner")))),
      ("outer", .page .limit (.value (.int 5))),
      ("outer", .say (.clause .select)),
      ("outer", .say (.function "age".toList none none [.param (.value (.text "x"))]))]
    let reply (n : Nat) :=
      ((start.after run).step "outer" (.setParams (List.replicate n (.value .null)))).1
    (∀ c ∈ run, c.2.Composed) ∧ start.losses (fun _ => []) (fun _ => 0) run "outer" = 3 ∧
      ((start.after run).step "outer" (.raw false)).1 =
        .ok (.text "SELECT age( $?x ) WHERE EXISTS ( WHERE $$3 ) LIMIT 5") ∧
      (start.after run "outer").slots.length = 2 + 3 ∧
      reply 5 = .ok .done ∧ reply 6 = .error (.tooManyValues 6 5) := by
  intro run reply
  have hrun : ∀ c ∈ run, c.2.Composed := by decide +kernel
  have hlost : start.losses (fun _ => []) (fun _ => 0) run "outer" = 3 := by decide +kernel
  have htext : ((start.after run).step "outer" (.raw false)).1 =
      .ok (.text "SELECT age( $?x ) WHERE EXISTS ( WHERE $$3 ) LIMIT 5") := by decide +kernel
  obtain ⟨raw, hraw, hslots, hreply, -⟩ := slots_accounted hrun "outer"
  cases htext.symm.trans hraw
  have hcount : (placeholders .standard
      (ofText "SELECT age( $?x ) WHERE EXISTS ( WHERE $$3 ) LIMIT 5")).length = 2 := by decide +kernel
  rw [hlost, hcount] at hslots
  simp only [hlost, hcount] at hreply
  exact ⟨hrun, hlost, htext, hslots, hreply _, hreply _⟩

/-- A placeholder is lost with its clause, but its slot is not: one value is accepted where
    there is no placeholder. -/
theorem value_accepted_without_placeholder :
    let run : List (Text × Call Text) := [
      ("q", .say (.clause .select)),
      ("q", .say (.param (.value (.text "a")))),
      ("q", .say (.clause .select)),
      ("q", .say (.column ["b"] none none))]
    (∀ c ∈ run, c.2.Structured) ∧
      ((start.after run).step "q" (.raw false)).1 = .ok (.text "SELECT \"b\"") ∧
      placeholders .standard (ofText "SELECT \"b\"") = [] ∧
      (start.after run "q").slots.length = 1 ∧
      ((start.after run).step "q" (.setParams [.value (.text "v")])).1 = .ok .done := by
  intro run
  refine ⟨?_, ?_, ?_, ?_, ?_⟩
  · decide
  · rfl
  · decide +kernel
  · decide +kernel
  · decide +kernel

end Session

end SqlCompose
