/-
  Survival — what is read in a statement is what was written to it.

  * `Tracks` says that a draft and its history agree: the tokens of every clause
    carry the placeholders that the history lists for it;
  * `Tracks.moves`: whatever a composed call does, they agree again, and `Tracked.after`
    says that they do after every composed run;
  * `placeholders_raw`: what is read in the text of a statement are exactly the
    placeholders of its history.
-/
import SqlCompose.Proofs.Journal

namespace SqlCompose

open Template

namespace History

theorem mem_markers {h : History} {t : Text} : t ∈ markers h ↔ ∃ k, t ∈ surviving k h := by
  simp only [markers, List.mem_flatMap]
  constructor
  · rintro ⟨k, -, ht⟩
    exact ⟨k, ht⟩
  · rintro ⟨k, ht⟩
    exact ⟨k, k.mem_all, ht⟩

theorem mem_markers_of_opened {h : History} {k : Clause} {t : Text}
    (ht : t ∈ markers (.opened k :: h)) : t ∈ markers h := by
  obtain ⟨k', ht⟩ := mem_markers.1 ht
  rw [surviving] at ht
  split at ht
  · cases ht
  · exact mem_markers.2 ⟨k', ht⟩

theorem mem_markers_of_wrote {h : History} {k : Clause} {ms : List Text} {t : Text}
    (ht : t ∈ markers (.wrote k ms :: h)) : t ∈ markers h ∨ t ∈ ms := by
  obtain ⟨k', ht⟩ := mem_markers.1 ht
  rw [surviving] at ht
  split at ht
  · rcases List.mem_append.1 ht with ht | ht
    · exact .inl (mem_markers.2 ⟨k', ht⟩)
    · exact .inr ht
  · exact .inl (mem_markers.2 ⟨k', ht⟩)

end History

/-! ## Texts that are one word -/

/-- A statement that is a single word is a keyword, so it has no quotes. -/
theorem Statement.unquoted_render (s : Statement) (h : s.render.IsWord) : s.render.Unquoted := by
  have hspace := h.not_mem_space
  revert hspace
  unfold render
  cases hp : Clause.all.filterMap fun k => (s.tokens? k).map k.render with
  | nil =>
    intro _
    constructor
    · simp
    · simp
  | cons t ts =>
    cases ts with
    | cons u us =>
      -- a space stands between two clauses
      intro hspace
      simp at hspace
    | nil =>
      rw [List.intercalate_singleton]
      intro hspace
      have ht : t ∈ Clause.all.filterMap fun k => (s.tokens? k).map k.render := by simp [hp]
      obtain ⟨k, -, hk⟩ := List.mem_filterMap.1 ht
      obtain ⟨ts, -, rfl⟩ := Option.map_eq_some_iff.1 hk
      unfold Clause.render at hspace ⊢
      split
      · cases k <;> exact ⟨by decide, by decide⟩
      · next hbody =>
        rw [if_neg hbody] at hspace
        simp at hspace

/-! ## What a journal knows -/

/-- The draft and its history agree: the tokens of every clause carry what the
    history lists for it, and what still stands there owns slots. -/
structure Tracks (d : Draft) (h : History) : Prop extends d.Follows h where
  carries : ∀ k, CarryAll ((d.statement.tokens? k).getD []) (h.surviving k)
  owned : ∀ t ∈ h.markers, Owned d.parameters t

theorem tracks_empty : Tracks (Draft.empty .standard) [] where
  ready := ⟨rfl, nofun⟩
  current_eq := rfl
  closed _ _ := rfl
  carries _ := .nil
  owned t ht := by
    obtain ⟨k, ht⟩ := History.mem_markers.1 ht
    cases ht

namespace Tracks

variable {d d' : Draft} {h : History} (ht : Tracks d h)
include ht

theorem carries_raw : Carries d.raw h.markers := carries_render ht.carries

/-- Where the statement stays and no slot is lost, nothing changes. -/
theorem of_statement_eq (hm : d'.marking = d.marking) (hs : d'.statement = d.statement)
    (hp : Sane d'.parameters) (hown : ∀ t, Owned d.parameters t → Owned d'.parameters t) :
    Tracks d' h where
  ready := ⟨hm.trans ht.ready.marking_eq, hp⟩
  current_eq := by rw [hs]; exact ht.current_eq
  closed := by rw [hs]; exact ht.closed
  carries := by rw [hs]; exact ht.carries
  owned t hmem := hown t (ht.owned t hmem)

theorem refilled (hd : d.Refilled d') : Tracks d' h := by
  obtain ⟨hsane, -, -, hown⟩ := ht.ready.parameters.refilled hd.parameters
  exact ht.of_statement_eq hd.marking_eq hd.statement_eq hsane hown

theorem kept (hd : d.Kept d') : Tracks d' h := by
  apply ht.of_statement_eq hd.marking_eq hd.statement_eq
  · rcases hd.parameters_cases with he | ⟨-, he⟩
    · rw [he]
      exact ht.ready.parameters
    · rw [he, ht.ready.marking_eq]
      rintro _ ⟨⟩
      exact ⟨Parameters.consistent_empty _, rfl⟩
  · intro t hown
    rcases hd.parameters_cases with he | ⟨hn, -⟩
    · rw [he]
      exact hown
    · obtain ⟨p, s, hp, -⟩ := hown
      rw [hn] at hp
      cases hp

theorem opened (k : Clause) :
    Tracks { d with statement := d.statement.start k } (.opened k :: h) where
  ready := ht.ready.start k
  current_eq := rfl
  closed := nofun
  carries k' := by
    rw [Statement.tokens?_start, History.surviving]
    by_cases hk : k' = k
    · rw [if_pos hk, if_pos hk.symm]
      exact .nil
    · rw [if_neg hk, if_neg (Ne.symm hk)]
      exact ht.carries k'
  owned t hm := ht.owned t (History.mem_markers_of_opened hm)

theorem grown {source : Text → Source} {carried : Text → List Text}
    (hs : ∀ r, (source r).Sound (carried r)) {ms : List Text} (hd : d.Grown source carried d' ms)
    {k : Clause} (hk : h.current? = some k) : Tracks d' (.wrote k ms :: h) := by
  obtain ⟨hmark, ⟨k', ts, hwhere, hts, hstat⟩, hgrows⟩ := hd
  have hcur : d.statement.current = some k := ht.current_eq.trans hk
  refine ⟨⟨⟨hmark.trans ht.ready.marking_eq, (hgrows.continues ht.ready.parameters hs).1⟩, ?_, ?_⟩,
    ?_, ?_⟩
  · rw [hstat]
    exact ht.current_eq
  · intro hn
    rw [show h.current? = none from hn] at hk
    cases hk
  · intro k''
    have hold := ht.carries k''
    rw [hstat, Statement.tokens?_setTokens, History.surviving]
    by_cases hk' : k'' = k'
    · subst hk'
      rw [if_pos rfl, Option.getD_some]
      have hnew := hold.append hts
      rcases hwhere with hc | ⟨-, rfl⟩
      · rw [hcur] at hc
        cases hc
        rwa [if_pos rfl]
      · rw [List.append_nil] at hnew ⊢
        rwa [ite_self]
    · rw [if_neg hk']
      rcases hwhere with hc | ⟨-, rfl⟩
      · rw [hcur] at hc
        cases hc
        rwa [if_neg (Ne.symm hk')]
      · rwa [List.append_nil, ite_self]
  · intro t hm
    rcases History.mem_markers_of_wrote hm with hm | hm
    · exact hgrows.owned_of_owned ht.ready.parameters hs (ht.owned t hm)
    · exact hgrows.owned_of_mem ht.ready.parameters hs hm

/-- **Whatever a composed call does, draft and history agree again.** -/
theorem moves {source : Text → Source} {carried : Text → List Text}
    (hs : ∀ r, (source r).Sound (carried r)) {news : List Entry}
    (hm : d.Moves source carried h d' news) : Tracks d' (news ++ h) := by
  cases hm with
  | refilled hr => exact ht.refilled hr
  | kept hk => exact ht.kept hk
  | opened k => exact ht.opened k
  | grown hk hg => exact ht.grown hs hg hk
  | paged k hg => exact (ht.opened k).grown hs hg rfl

end Tracks

/-! ## Runs -/

namespace Session

/-- The journal agrees with all builders. -/
def Tracked (s : Session) (j : Journal) : Prop := ∀ n, (s n).Coherent ∧ Tracks (s n).draft (j n)

theorem tracked_start : start.Tracked fun _ => [] := by
  intro n
  exact ⟨Builder.coherent_empty _, tracks_empty⟩

variable {s : Session} {j : Journal}

/-- What a builder sees of the others, and of itself, is sound. -/
theorem Tracked.sound_source (ht : s.Tracked j) (name r : Text) :
    (s.source name r).Sound ((j r).markers) := by
  obtain ⟨hcoh, hr⟩ := ht r
  have hword : (s r).text.IsWord → (s r).text.Unquoted := by
    rw [hcoh.text_eq]
    exact Statement.unquoted_render _
  unfold source
  split
  · exact hword
  · refine ⟨hword, ?_, hr.ready.parameters, hr.owned⟩
    rw [hcoh.text_eq]
    exact hr.carries_raw

/-- **A composed call keeps the journal in agreement with all builders.** -/
theorem Tracked.step (ht : s.Tracked j) (name : Text) {call : Call Text} (hc : call.Composed) :
    (s.step name call).2.Tracked (s.noted j name call) := by
  have hm := moves_of_step (ht.sound_source name) (ht name).2.toFollows hc
  intro n
  by_cases hn : n = name
  · subst hn
    rw [noted_self]
    refine ⟨?_, (ht n).2.moves (ht.sound_source n) hm⟩
    rw [step_self]
    exact (ht n).1.respond _
  · rw [noted_of_ne hn, step_of_ne hn]
    exact ht n

/-- **Journal and builders agree after every composed run.** -/
theorem Tracked.after {run : List (Text × Call Text)} (hrun : ∀ c ∈ run, c.2.Composed)
    (ht : s.Tracked j) : (s.after run).Tracked (s.journal j run) := by
  induction run generalizing s j with
  | nil => exact ht
  | cons c run ih =>
    have hc := hrun c (by simp)
    refine ih ?_ (ht.step c.1 hc)
    intro c' hc'
    exact hrun c' (by simp [hc'])

/-- **What is read in a statement is what was written to it.**  After every structured
    run the placeholders that are read in the text of a builder are those that its
    journal lists: all that were written since their clause was opened last, in order,
    and nothing else. -/
theorem placeholders_raw {run : List (Text × Call Text)} (hrun : ∀ c ∈ run, c.2.Structured)
    (name : Text) : ∃ raw, ((start.after run).step name (.raw false)).1 = .ok (.text raw) ∧
      placeholders .standard (ofText raw) = ((start.journal (fun _ => []) run) name).markers := by
  obtain ⟨hcoh, ht⟩ := tracked_start.after (fun c hc => (hrun c hc).composed) name
  refine ⟨((start.after run) name).text, rfl, ?_⟩
  rw [hcoh.text_eq]
  exact ht.carries_raw.placeholders_eq

/-- A clause that is opened again, a statement taken in behind an ordinal that is
    lost by then, and markers in a name and in a literal. -/
theorem placeholders_raw_reopened :
    let run : List (Text × Call Text) := [
      ("inner", .say (.clause .where_)),
      ("inner", .say (.column ["$$7 \" '"] none none)),
      ("inner", .say (.membership [.value (.int 2)])),
      ("outer", .say (.clause .where_)),
      ("outer", .say (.param (.value .null))),
      ("outer", .say (.clause .select)),
      ("outer", .say (.literal (.value (.text "it's $$8 ")))),
      ("outer", .say (.param (.value (.text "x")))),
      ("outer", .say (.clause .where_)),
      ("outer", .say (.existence (.given (.statement "inner"))))]
    (∀ c ∈ run, c.2.Structured) ∧
      ∃ raw, ((start.after run).step "outer" (.raw false)).1 = .ok (.text raw) ∧
        placeholders .standard (ofText raw) =
          ["$?x".toList, "$$2".toList, "$$3".toList] := by
  intro run
  have hrun : ∀ c ∈ run, c.2.Structured := by decide
  obtain ⟨raw, hraw, hp⟩ := placeholders_raw hrun "outer"
  exact ⟨hrun, raw, hraw, hp.trans (by decide +kernel)⟩

end Session

end SqlCompose
