/-
  Alignment — the placeholders of a statement stand in the order of their slots.

  Slots are numbered as placeholders are declared, placeholders are counted as they
  stand in the text.  Both agree as long as clauses are opened in their fixed order.

  * `Ordered` says that nothing stands behind the clause opened last, so that what is
    written next stands at the end, and `Aligned` that slots and placeholders agree;
  * `InStep.moves`: a composed call that opens no earlier clause keeps both;
  * `compile_of_aligned`: what is aligned compiles iff all values are set, and
    `compiled_in_order` says what a builder answers after every such run.
-/
import SqlCompose.Proofs.Survival

namespace SqlCompose

open Template

/-! ## The order of the clauses -/

/-- The place of a clause in a statement. -/
def Clause.rank (k : Clause) : Nat := all.idxOf k

/-- A clause stands between earlier and later ones. -/
theorem Clause.all_eq_append (k : Clause) :
    ∃ ks ks', all = ks ++ k :: ks' ∧ k ∉ ks ∧ ∀ k' ∈ ks', k.rank < k'.rank := by
  refine ⟨all.takeWhile (· ≠ k), (all.dropWhile (· ≠ k)).tail, ?_⟩
  cases k <;> decide

/-- Lists by clauses that differ in one clause only differ in length by this one. -/
theorem Clause.length_flatMap_all {α : Type} {f g : Clause → List α} {k : Clause}
    (h : ∀ k', k ≠ k' → f k' = g k') :
    (all.flatMap f).length + (g k).length = (all.flatMap g).length + (f k).length := by
  obtain ⟨ks, ks', hall, hbefore, hbehind⟩ := k.all_eq_append
  have h₁ : ks.flatMap f = ks.flatMap g := by
    apply List.flatMap_congr
    intro k' hk'
    apply h
    rintro rfl
    exact hbefore hk'
  have h₂ : ks'.flatMap f = ks'.flatMap g := by
    apply List.flatMap_congr
    intro k' hk'
    apply h
    rintro rfl
    exact Nat.lt_irrefl _ (hbehind k hk')
  simp only [hall, List.flatMap_append, List.flatMap_cons, h₁, h₂, List.length_append]
  omega

namespace History

/-- Opening a clause takes away what stood in it. -/
theorem length_markers_opened (k : Clause) (h : History) :
    (markers (.opened k :: h)).length + (surviving k h).length = (markers h).length := by
  have hlen := Clause.length_flatMap_all (f := fun k' => surviving k' (.opened k :: h))
    (g := fun k' => surviving k' h) fun k' hk' => if_neg hk'
  have hself : surviving k (.opened k :: h) = [] := if_pos rfl
  rw [hself] at hlen
  exact hlen

theorem length_markers_wrote (k : Clause) (ms : List Text) (h : History) :
    (markers (.wrote k ms :: h)).length = (markers h).length + ms.length := by
  have hlen := Clause.length_flatMap_all (f := fun k' => surviving k' (.wrote k ms :: h))
    (g := fun k' => surviving k' h) fun k' hk' => if_neg hk'
  have hself : surviving k (.wrote k ms :: h) = surviving k h ++ ms := if_pos rfl
  rw [hself, List.length_append] at hlen
  unfold markers
  omega

/-- Nothing stands in the clauses behind the one that was opened last. -/
def Ordered (h : History) : Prop :=
  ∀ k, (∀ c, current? h = some c → c.rank < k.rank) → surviving k h = []

variable {h : History}

theorem Ordered.opened (ho : Ordered h) {k : Clause}
    (hk : ∀ c, current? h = some c → c.rank < k.rank) :
    Ordered (.opened k :: h) ∧ markers (.opened k :: h) = markers h := by
  have hempty := ho k hk
  constructor
  · intro k' hk'
    have hlt : k.rank < k'.rank := hk' k rfl
    have hne : k ≠ k' := by
      rintro rfl
      omega
    rw [surviving, if_neg hne]
    apply ho k'
    intro c hc
    have := hk c hc
    omega
  · unfold markers
    congr 1
    ext1 k'
    rw [surviving]
    split
    · next he => rw [← he, hempty]
    · rfl

theorem Ordered.wrote (ho : Ordered h) {k : Clause} (hk : current? h = some k) (ms : List Text) :
    Ordered (.wrote k ms :: h) ∧ markers (.wrote k ms :: h) = markers h ++ ms := by
  have hlater : ∀ k', k.rank < k'.rank → surviving k' h = [] ∧ surviving k' (.wrote k ms :: h) = [] := by
    intro k' hlt
    have hempty : surviving k' h = [] := by
      apply ho k'
      intro c hc
      rw [hk] at hc
      cases hc
      exact hlt
    have hne : k ≠ k' := by
      rintro rfl
      omega
    refine ⟨hempty, ?_⟩
    rw [surviving, if_neg hne, hempty]
  constructor
  · intro k' hk'
    exact (hlater k' (hk' k hk)).2
  · obtain ⟨ks, ks', hall, hbefore, hbehind⟩ := k.all_eq_append
    have h₁ : ks.flatMap (fun k' => surviving k' (.wrote k ms :: h)) =
        ks.flatMap fun k' => surviving k' h := by
      apply List.flatMap_congr
      intro k' hk'
      rw [surviving, if_neg]
      rintro rfl
      exact hbefore hk'
    have h₂ : ks'.flatMap (fun k' => surviving k' (.wrote k ms :: h)) = [] := by
      rw [List.flatMap_eq_nil_iff]
      intro k' hk'
      exact (hlater k' (hbehind k' hk')).2
    have h₃ : ks'.flatMap (fun k' => surviving k' h) = [] := by
      rw [List.flatMap_eq_nil_iff]
      intro k' hk'
      exact (hlater k' (hbehind k' hk')).1
    have hself : surviving k (.wrote k ms :: h) = surviving k h ++ ms := if_pos rfl
    simp only [markers, hall, List.flatMap_append, List.flatMap_cons, h₁, h₂, h₃, hself,
      List.append_nil, List.append_assoc]

end History

/-! ## Slots and placeholders -/

namespace Parameters

/-- There are as many placeholders as slots, and each owns the slot of its number. -/
structure Aligned (p : Parameters) (ms : List Text) : Prop where
  length_eq : ms.length = p.slotCount
  isBound : ∀ i t, ms[i]? = some t → p.isBound t i = true

variable {p q : Parameters} {ms ns : List Text}

theorem aligned_empty (m : Marking) : (empty m).Aligned [] := ⟨rfl, nofun⟩

/-- New placeholders behind the old ones take the new slots behind the old ones. -/
theorem Aligned.append (h : p.Aligned ms) (hc : p.Continues q)
    (hn : p.slotCount + ns.length = q.slotCount)
    (hb : ∀ i t, ns[i]? = some t → q.isBound t (p.slotCount + i) = true) :
    q.Aligned (ms ++ ns) where
  length_eq := by rw [List.length_append, h.length_eq, hn]
  isBound i t ht := by
    by_cases hlt : i < ms.length
    · rw [List.getElem?_append_left hlt] at ht
      rw [hc.isBound_eq i (h.length_eq ▸ hlt)]
      exact h.isBound i t ht
    · have hle : ms.length ≤ i := by omega
      rw [List.getElem?_append_right hle] at ht
      have := hb _ t ht
      rwa [← h.length_eq, Nat.add_sub_cancel' hle] at this

end Parameters

theorem Grows.aligned {source : Text → Source} {carried : Text → List Text}
    {o o' : Option Parameters} {ms ns : List Text} (h : Grows source carried o ns o') (ho : Sane o)
    (hs : ∀ r, (source r).Sound (carried r))
    (hi : ∀ r raw inner, source r = .other raw (some inner) → inner.Aligned (carried r))
    (ha : (held o).Aligned ms) : (held o').Aligned (ms ++ ns) := by
  have hcont := (h.continues ho hs).2
  cases h with
  | same =>
    rw [List.append_nil]
    exact ha
  | @declared ds hc =>
    obtain ⟨h₁, h₂⟩ := (held o).length_declareAll ds
    apply ha.append hcont
    · rw [h₁]
      exact h₂.symm
    · intro i t ht
      exact Parameters.isBound_declareAll ho.spec.1 hc ht
  | @absorbed r raw inner hr =>
    obtain ⟨hic, him, -⟩ := Source.Sound.inner (hr ▸ hs r)
    have hinner := hi r raw inner hr
    apply ha.append hcont
    · show _ = ((held o).absorb inner).slotCount
      rw [List.length_map, hinner.length_eq, Parameters.slotCount_absorb]
    · intro i t ht
      rw [List.getElem?_map, Option.map_eq_some_iff] at ht
      obtain ⟨u, hu, rfl⟩ := ht
      exact ho.isBound_absorb hic him (hinner.isBound i u hu)

/-! ## Compiling what is aligned -/

namespace Parameters

variable {p : Parameters}

theorem valueAt_of_isBound {t : Text} {position : Nat} (hb : p.isBound t position = true)
    {o : Option Text} (ho : p.values[position]? = some o) :
    p.valueAt position t = o.elim (.error (.missingValue (p.marking.display t))) .ok := by
  obtain ⟨hlt, -⟩ := List.getElem?_eq_some_iff.1 ho
  have hlt : ¬ p.slotCount ≤ position := by
    show ¬ p.values.length ≤ position
    omega
  rw [valueAt, if_neg hlt, if_neg (by simp [hb]), ho]
  cases o <;> rfl

/-- Placeholders that own the slots from `position` on: their values are found if all
    are set, and the first that is not set is missed. -/
theorem valuesFrom_of_isBound {ts : List Text} {position : Nat} {os : List (Option Text)}
    (hlen : ts.length = os.length)
    (hos : ∀ (i : Nat) (o : Option Text), os[i]? = some o → p.values[position + i]? = some o)
    (hb : ∀ (i : Nat) (t : Text), ts[i]? = some t → p.isBound t (position + i) = true) :
    (∀ vs : List Text, os = vs.map some → p.valuesFrom position ts = .ok vs) ∧
      ∀ i : Nat, os[i]? = some none → (∀ k < i, os[k]? ≠ some none) → ∃ t, ts[i]? = some t ∧
        p.valuesFrom position ts = .error (.missingValue (p.marking.display t)) := by
  induction ts generalizing position os with
  | nil =>
    rw [List.eq_nil_of_length_eq_zero hlen.symm]
    refine ⟨?_, nofun⟩
    intro vs hvs
    rw [List.map_eq_nil_iff.1 hvs.symm]
    rfl
  | cons t ts ih =>
    obtain ⟨o, os, rfl⟩ := List.exists_cons_of_length_eq_add_one hlen.symm
    have hfirst := valueAt_of_isBound (hb 0 t rfl) (hos 0 o rfl)
    rw [Nat.add_zero] at hfirst
    have hos' : ∀ (i : Nat) (o : Option Text), os[i]? = some o →
        p.values[position + 1 + i]? = some o := by
      intro i o ho
      rw [Nat.add_assoc, Nat.add_comm 1]
      exact hos (i + 1) o ho
    have hb' : ∀ (i : Nat) (u : Text), ts[i]? = some u → p.isBound u (position + 1 + i) = true := by
      intro i u hu
      rw [Nat.add_assoc, Nat.add_comm 1]
      exact hb (i + 1) u hu
    have hrest := ih (Nat.succ.inj hlen) hos' hb'
    rw [valuesFrom, hfirst]
    constructor
    · rintro (_ | ⟨v, vs⟩) hvs
      · cases hvs
      · obtain ⟨rfl, hvs'⟩ := List.cons.inj hvs
        rw [hrest.1 vs hvs']
        rfl
    · intro i hi hbefore
      cases i with
      | zero =>
        cases hi
        exact ⟨t, rfl, rfl⟩
      | succ i =>
        cases o with
        | none =>
          -- then this slot would come first
          exact absurd rfl (hbefore 0 (by omega))
        | some v =>
          have hbefore' : ∀ k < i, os[k]? ≠ some none := by
            intro k hk
            exact hbefore (k + 1) (by omega)
          obtain ⟨u, hu, he⟩ := hrest.2 i hi hbefore'
          rw [he]
          exact ⟨u, hu, rfl⟩

/-- A statement compiles as values are found for the placeholders that are read in it. -/
theorem compile_eq_valuesFrom {o : Option Parameters} (ho : Sane o) {raw : Text} {ms : List Text}
    (hraw : placeholders .standard (ofText raw) = ms) (hnone : (held o).slotCount = 0 → ms = []) :
    compile raw o = ((held o).valuesFrom 0 ms).map fun vs => filled .standard vs (ofText raw) := by
  have hread : placeholders (held o).marking (ofText raw) = ms := by rw [ho.spec.2, hraw]
  rw [compile_orEmpty .standard, compile_eq_map (fun h₀ => hread.trans (hnone h₀)), hread, ho.spec.2]

/-- **What is aligned compiles iff all values are set.**  Then every placeholder has
    the value of the slot of its number; otherwise the first slot without a value
    decides the error. -/
theorem compile_of_aligned {o : Option Parameters} (ho : Sane o) {raw : Text} {ms : List Text}
    (hraw : placeholders .standard (ofText raw) = ms) (ha : (held o).Aligned ms) :
    (∀ vs : List Text, (held o).values = vs.map some →
        compile raw o = .ok (filled .standard vs (ofText raw))) ∧
      ∀ i : Nat, (held o).values[i]? = some none → (∀ k < i, (held o).values[k]? ≠ some none) →
        ∃ t, ms[i]? = some t ∧ compile raw o = .error (.missingValue (Marking.standard.display t)) := by
  have hslot : ∀ (i : Nat) (v : Option Text), (held o).values[i]? = some v →
      (held o).values[0 + i]? = some v := by
    intro i v h
    rw [Nat.zero_add]
    exact h
  have hbound : ∀ (i : Nat) (t : Text), ms[i]? = some t → (held o).isBound t (0 + i) = true := by
    intro i t h
    rw [Nat.zero_add]
    exact ha.isBound i t h
  have hspec := valuesFrom_of_isBound ha.length_eq hslot hbound
  have hnone : (held o).slotCount = 0 → ms = [] := by
    intro h₀
    exact List.eq_nil_of_length_eq_zero (ha.length_eq.trans h₀)
  have hcompile := compile_eq_valuesFrom ho hraw hnone
  rw [hcompile]
  constructor
  · intro vs hvs
    rw [hspec.1 vs hvs]
    rfl
  · intro i hi hbefore
    obtain ⟨t, ht, he⟩ := hspec.2 i hi hbefore
    rw [he, ho.spec.2]
    exact ⟨t, ht, rfl⟩

end Parameters

/-! ## Builders that are in step -/

/-- The values of the slots of a builder. -/
def Builder.slots (b : Builder) : List (Option Text) :=
  (b.draft.parameters.map (·.values)).getD []

theorem values_held (b : Builder) : (held b.draft.parameters).values = b.slots := by
  unfold Builder.slots
  cases b.draft.parameters <;> rfl

/-- The clauses of a draft were opened in their order so far, and its placeholders
    stand in the order of their slots. -/
structure InStep (d : Draft) (h : History) : Prop where
  ordered : h.Ordered
  aligned : (held d.parameters).Aligned h.markers

theorem inStep_empty : InStep (Draft.empty .standard) [] := ⟨fun _ _ => rfl, Parameters.aligned_empty _⟩

namespace InStep

variable {d d' : Draft} {h : History} (hi : InStep d h)
include hi

/-- **A composed call that opens no earlier clause keeps a draft in step**, if the
    statements that it takes in are. -/
theorem moves {source : Text → Source} {carried : Text → List Text}
    (hs : ∀ r, (source r).Sound (carried r)) (hd : d.Ready)
    (hinner : ∀ r raw inner, source r = .other raw (some inner) → inner.Aligned (carried r))
    {news : List Entry} (hm : d.Moves source carried h d' news)
    (hopen : ∀ k, .opened k ∈ news → ∀ c, h.current? = some c → c.rank < k.rank) :
    InStep d' (news ++ h) := by
  cases hm with
  | refilled hr =>
    obtain ⟨-, hlen, hcont, -⟩ := hd.parameters.refilled hr.parameters
    have haligned : (held d'.parameters).Aligned (h.markers ++ []) :=
      hi.aligned.append hcont hlen.symm nofun
    rw [List.append_nil] at haligned
    exact ⟨hi.ordered, haligned⟩
  | kept hk =>
    refine ⟨hi.ordered, ?_⟩
    rw [hd.held_eq hk]
    exact hi.aligned
  | opened k =>
    obtain ⟨ho, hmarkers⟩ := hi.ordered.opened (hopen k (by simp))
    refine ⟨ho, ?_⟩
    show (held d.parameters).Aligned (History.markers (.opened k :: h))
    rw [hmarkers]
    exact hi.aligned
  | grown hk hg =>
    obtain ⟨ho, hmarkers⟩ := hi.ordered.wrote hk _
    refine ⟨ho, ?_⟩
    show (held d'.parameters).Aligned (History.markers (.wrote _ _ :: h))
    rw [hmarkers]
    exact hg.grows.aligned hd.parameters hs hinner hi.aligned
  | paged k hg =>
    obtain ⟨ho, hmarkers⟩ := hi.ordered.opened (hopen k (by simp))
    obtain ⟨ho', hmarkers'⟩ := ho.wrote (k := k) rfl []
    refine ⟨ho', ?_⟩
    show (held d'.parameters).Aligned (History.markers (.wrote k [] :: .opened k :: h))
    rw [hmarkers', hmarkers]
    exact hg.grows.aligned hd.parameters hs hinner hi.aligned

end InStep

/-! ## Runs in order -/

/-- The clause that a call opens. -/
def Call.opens? {ρ : Type} : Call ρ → Option Clause
  | .say (.clause k) | .page k _ => some k
  | _ => none

section
variable {p : Parameters} {source : Text → Source} {carried : Text → List Text} {h : History}

theorem opens?_of_mem_entries {call : Call Text} {k : Clause}
    (hk : .opened k ∈ call.entries p source carried h) : call.opens? = some k := by
  cases call with
  | say q =>
    cases q with
    | clause k' =>
      cases List.mem_singleton.1 hk
      rfl
    | _ =>
      simp only [Call.entries, Phrase.entries] at hk
      split at hk <;> simp at hk
  | page k' g =>
    simp only [Call.entries, List.mem_cons, List.not_mem_nil, or_false, reduceCtorEq, false_or,
      Entry.opened.injEq] at hk
    rw [hk]
    rfl
  | _ => cases hk

theorem current?_entries (call : Call Text) :
    History.current? (call.entries p source carried h ++ h) = call.opens?.or h.current? := by
  cases call with
  | say q =>
    cases q with
    | clause k => rfl
    | _ =>
      simp only [Call.entries, Phrase.entries]
      split <;> rfl
  | _ => rfl

end

namespace Session

/-- The clauses that are opened at a builder. -/
def openings (name : Text) (run : List (Text × Call Text)) : List Clause :=
  run.filterMap fun c => if c.1 = name then c.2.opens? else none

theorem openings_cons (n name : Text) (call : Call Text) (run : List (Text × Call Text)) :
    openings n ((name, call) :: run) =
      (if name = n then call.opens?.toList else []) ++ openings n run := by
  unfold openings
  rw [List.filterMap_cons]
  by_cases hn : name = n
  · rw [if_pos hn, if_pos hn]
    cases call.opens? <;> rfl
  · rw [if_neg hn, if_neg hn]
    rfl

/-- The clauses of every builder are opened in their order, and none twice. -/
def InOrder (run : List (Text × Call Text)) : Prop :=
  ∀ name, (openings name run).Pairwise fun k k' => k.rank < k'.rank

instance (run : List (Text × Call Text)) : Decidable (InOrder run) :=
  decidable_of_iff (∀ c ∈ run, (openings c.1 run).Pairwise fun k k' => k.rank < k'.rank) <| by
    constructor
    · intro h name
      by_cases hname : ∃ c ∈ run, c.1 = name
      · obtain ⟨c, hc, rfl⟩ := hname
        exact h c hc
      · have hnone : openings name run = [] := by
          rw [openings, List.filterMap_eq_nil_iff]
          intro c hc
          rw [if_neg]
          intro hcn
          exact hname ⟨c, hc, hcn⟩
        rw [hnone]
        exact .nil
    · intro h c _
      exact h c.1

variable {s : Session} {j : Journal}

theorem opens?_of_mem_news {name : Text} {call : Call Text} {k : Clause}
    (hk : .opened k ∈ s.news j name call) : call.opens? = some k := by
  unfold news at hk
  split at hk
  · exact opens?_of_mem_entries hk
  · cases hk

theorem current?_news (name : Text) (call : Call Text) :
    History.current? (s.news j name call ++ j name) = (j name).current? ∨
      ∃ k, call.opens? = some k ∧ History.current? (s.news j name call ++ j name) = some k := by
  unfold news
  split
  · rw [current?_entries]
    cases call.opens? with
    | none => exact .inl rfl
    | some k => exact .inr ⟨k, rfl, rfl⟩
  · exact .inl rfl

/-- **A composed call in order keeps all builders in step.** -/
theorem inStep_step (ht : s.Tracked j) (hi : ∀ n, InStep (s n).draft (j n)) {name : Text}
    {call : Call Text} (hc : call.Composed)
    (hopen : ∀ k, call.opens? = some k → ∀ c, (j name).current? = some c → c.rank < k.rank)
    (n : Text) : InStep ((s.step name call).2 n).draft (s.noted j name call n) := by
  by_cases hn : n = name
  · subst hn
    have hs := ht.sound_source n
    have hinner : ∀ r raw inner, s.source n r = .other raw (some inner) →
        inner.Aligned (j r).markers := by
      intro r raw inner hr
      have haligned := (hi r).aligned
      unfold source at hr
      split at hr
      · cases hr
      · obtain ⟨-, hp⟩ := Source.other.inj hr
        rw [hp] at haligned
        exact haligned
    have hmoves := moves_of_step hs (ht n).2.toFollows hc
    rw [noted_self]
    refine (hi n).moves hs (ht n).2.ready hinner hmoves ?_
    intro k hk
    exact hopen k (opens?_of_mem_news hk)
  · rw [step_of_ne hn, noted_of_ne hn]
    exact hi n

/-- All builders are in step after every composed run in order. -/
theorem inStep_after {run : List (Text × Call Text)} (hrun : ∀ c ∈ run, c.2.Composed)
    (ht : s.Tracked j) (hi : ∀ n, InStep (s n).draft (j n))
    (hord : ∀ n, ((j n).current?.toList ++ openings n run).Pairwise fun k k' => k.rank < k'.rank)
    (n : Text) : InStep (s.after run n).draft (s.journal j run n) := by
  induction run generalizing s j with
  | nil => exact hi n
  | cons c run ih =>
    obtain ⟨name, call⟩ := c
    have hc := hrun _ List.mem_cons_self
    have hself : openings name ((name, call) :: run) = call.opens?.toList ++ openings name run := by
      rw [openings_cons, if_pos rfl]
    have hopen : ∀ k, call.opens? = some k → ∀ c, (j name).current? = some c → c.rank < k.rank := by
      intro k hk c hcur
      have hpair := hord name
      rw [hself, hk, hcur] at hpair
      exact (List.pairwise_cons.1 hpair).1 k (by simp)
    have hrest : ∀ c' ∈ run, c'.2.Composed := by
      intro c' hc'
      exact hrun c' (by simp [hc'])
    refine ih hrest (ht.step name hc) (inStep_step ht hi hc hopen) ?_
    -- the clause that is open now stands in front of those that are still to be opened
    intro n
    by_cases hn : n = name
    · subst hn
      refine (hord n).sublist ?_
      rw [hself, noted_self]
      rcases current?_news n call with he | ⟨k, hk, he⟩
      · rw [he]
        exact (List.sublist_append_right _ _).append_left _
      · rw [he, hk]
        exact List.sublist_append_right _ _
    · have hother : openings n ((name, call) :: run) = openings n run := by
        rw [openings_cons, if_neg (Ne.symm hn), List.nil_append]
      rw [noted_of_ne hn, ← hother]
      exact hord n

end Session

/-! ## What a builder answers -/

/-- A builder in step has a slot for every placeholder, and compiles as its slots say. -/
theorem Tracks.compile_of_inStep {b : Builder} {h : History} (ht : Tracks b.draft h)
    (hc : b.Coherent) (hi : InStep b.draft h) :
    (placeholders .standard (ofText b.draft.raw)).length = b.slots.length ∧
      (∀ vs : List Text, b.slots = vs.map some →
        b.compile.1 = .ok (filled .standard vs (ofText b.draft.raw))) ∧
      ∀ i : Nat, b.slots[i]? = some none → (∀ k < i, b.slots[k]? ≠ some none) →
        ∃ t, (placeholders .standard (ofText b.draft.raw))[i]? = some t ∧
          (held b.draft.parameters).isBound t i = true ∧
            b.compile.1 = .error (.missingValue (Marking.standard.display t)) := by
  have hph := ht.carries_raw.placeholders_eq
  obtain ⟨hset, hunset⟩ := Parameters.compile_of_aligned ht.ready.parameters hph hi.aligned
  rw [values_held] at hset hunset
  rw [hc.compile_eq, hph]
  refine ⟨?_, hset, ?_⟩
  · rw [hi.aligned.length_eq, ← values_held]
    rfl
  · intro i hnone hbefore
    obtain ⟨t, htext, he⟩ := hunset i hnone hbefore
    exact ⟨t, htext, hi.aligned.isBound i t htext, he⟩

/-- Either all values are set, or there is a first that is not. -/
theorem all_set_or_first_unset (os : List (Option Text)) : (∃ vs : List Text, os = vs.map some) ∨
    ∃ i : Nat, os[i]? = some none ∧ ∀ k < i, os[k]? ≠ some none := by
  induction os with
  | nil => exact .inl ⟨[], rfl⟩
  | cons o os ih =>
    cases o with
    | none => exact .inr ⟨0, rfl, nofun⟩
    | some v =>
      rcases ih with ⟨vs, rfl⟩ | ⟨i, hi, hbefore⟩
      · exact .inl ⟨v :: vs, rfl⟩
      · refine .inr ⟨i + 1, hi, ?_⟩
        intro k hk
        cases k with
        | zero => simp
        | succ k => exact hbefore k (by omega)

namespace Session

/-- **Statements written in order compile iff all values are set.**  After every
    structured run in which the clauses of every builder are opened in order, and in
    which values are set and cleared anywhere, a builder answers with the text in
    which every placeholder has the value of the slot of its number.  If a value is
    not set, the placeholder of the first such slot is missing one.  Nothing else can
    be wrong. -/
theorem compiled_in_order {run : List (Text × Call Text)} (hrun : ∀ c ∈ run, c.2.Structured)
    (hord : InOrder run) (name : Text) :
    let slots := (start.after run name).slots
    let reply := ((start.after run).step name (.compiled false)).1
    ∃ raw, ((start.after run).step name (.raw false)).1 = .ok (.text raw) ∧
      (placeholders .standard (ofText raw)).length = slots.length ∧
      ((∃ t, reply = .ok (.text t)) ↔ ∀ v ∈ slots, v ≠ none) ∧
      (∀ vs : List Text, slots = vs.map some →
        reply = .ok (.text (filled .standard vs (ofText raw)))) ∧
      (∀ i : Nat, slots[i]? = some none → (∀ k < i, slots[k]? ≠ some none) →
        ∃ t, (placeholders .standard (ofText raw))[i]? = some t ∧
          (held (start.after run name).draft.parameters).isBound t i = true ∧
            reply = .error (.missingValue (Marking.standard.display t))) ∧
      ∀ e, reply = .error e → ∃ t ∈ placeholders .standard (ofText raw),
        e = .missingValue (Marking.standard.display t) := by
  intro slots reply
  have hcomposed : ∀ c ∈ run, c.2.Composed := fun c hc => (hrun c hc).composed
  obtain ⟨hcoh, ht⟩ := tracked_start.after hcomposed name
  have hi : InStep (start.after run name).draft (start.journal (fun _ => []) run name) :=
    inStep_after hcomposed tracked_start (fun _ => inStep_empty) hord name
  obtain ⟨hlen, hset, hunset⟩ := ht.compile_of_inStep hcoh hi
  have hreply : reply = (start.after run name).compile.1.map .text := rfl
  have hset' : ∀ vs : List Text, slots = vs.map some → reply =
      .ok (.text (filled .standard vs (ofText (start.after run name).draft.raw))) := by
    intro vs hvs
    rw [hreply, hset vs hvs]
    rfl
  have hunset' : ∀ i : Nat, slots[i]? = some none → (∀ k < i, slots[k]? ≠ some none) →
      ∃ t, (placeholders .standard (ofText (start.after run name).draft.raw))[i]? = some t ∧
        (held (start.after run name).draft.parameters).isBound t i = true ∧
          reply = .error (.missingValue (Marking.standard.display t)) := by
    intro i hnone hbefore
    obtain ⟨t, htext, hb, he⟩ := hunset i hnone hbefore
    refine ⟨t, htext, hb, ?_⟩
    rw [hreply, he]
    rfl
  refine ⟨(start.after run name).draft.raw, ?_, hlen, ?_, hset', hunset', ?_⟩
  · show Except.ok (Reply.text (start.after run name).text) = _
    rw [hcoh.text_eq]
  · constructor
    · rintro ⟨t, hok⟩ v hv rfl
      rcases all_set_or_first_unset slots with ⟨vs, hvs⟩ | ⟨i, hnone, hbefore⟩
      · rw [hvs] at hv
        simp at hv
      · obtain ⟨u, -, -, he⟩ := hunset' i hnone hbefore
        rw [he] at hok
        cases hok
    · intro hall
      rcases all_set_or_first_unset slots with ⟨vs, hvs⟩ | ⟨i, hnone, -⟩
      · exact ⟨_, hset' vs hvs⟩
      · exact absurd rfl (hall none (List.mem_of_getElem? hnone))
  · intro e he
    rcases all_set_or_first_unset slots with ⟨vs, hvs⟩ | ⟨i, hnone, hbefore⟩
    · rw [hset' vs hvs] at he
      cases he
    · obtain ⟨t, htext, -, he'⟩ := hunset' i hnone hbefore
      rw [he'] at he
      cases he
      exact ⟨t, List.mem_of_getElem? htext, rfl⟩

/-- A statement taken in between two ordinals, a name that both sides use, and one
    value that is still missing. -/
theorem compiled_in_order_missing_one :
    let run : List (Text × Call Text) := [
      ("inner", .say (.clause .where_)),
      ("inner", .say (.membership [.value .null, .value (.text "x")])),
      ("outer", .say (.clause .select)),
      ("outer", .say (.param (.value (.text "x")))),
      ("outer", .say (.clause .where_)),
      ("outer", .say (.existence (.given (.statement "inner")))),
      ("outer", .setParams [.value (.int 1), .value (.int 2)]),
      ("outer", .page .limit (.value (.int 5))),
      ("outer", .say (.param (.value (.int 1)))),
      ("outer", .setParam (.value (.text "x")) (.value (.text "a")))]
    (∀ c ∈ run, c.2.Structured) ∧ InOrder run ∧
      (start.after run "outer").slots = [some "a".toList, some "2".toList, some "a".toList, none] ∧
        ((start.after run).step "outer" (.compiled false)).1 =
          .error (.missingValue "$1".toList) := by
  intro run
  have hrun : ∀ c ∈ run, c.2.Structured := by decide
  have hord : InOrder run := by decide +kernel
  have hslots : (start.after run "outer").slots =
      [some "a".toList, some "2".toList, some "a".toList, none] := by decide +kernel
  have htext : ((start.after run).step "outer" (.raw false)).1 = .ok (.text
      "SELECT $?x WHERE EXISTS ( WHERE IN ( $$1 , $?x ) ) LIMIT 5 $$1") := by rfl
  obtain ⟨raw, hraw, -, -, -, hmissing, -⟩ := compiled_in_order hrun hord "outer"
  obtain ⟨t, ht, -, he⟩ := hmissing 3 (by rw [hslots]; rfl) (by rw [hslots]; decide)
  cases htext.symm.trans hraw
  have hread : placeholders .standard (ofText
      "SELECT $?x WHERE EXISTS ( WHERE IN ( $$1 , $?x ) ) LIMIT 5 $$1") =
        ["$?x".toList, "$$1".toList, "$?x".toList, "$$1".toList] := by decide +kernel
  rw [hread] at ht
  cases ht
  exact ⟨hrun, hord, hslots, he.trans (by decide +kernel)⟩

end Session

end SqlCompose
