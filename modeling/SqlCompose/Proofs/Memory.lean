/-
  Memory — a builder remembers nothing that does not hold any more.

  * `Coherent` says that what is remembered is what would be found anew, and
    `Coherent.respond` that every call keeps this, whatever it does;
  * `Coherent.text_eq` and `Coherent.compile_eq`: what a builder answers depends on
    its draft only;
  * `refilled_of_respond`: a call that writes nothing changes values at most.
-/
import SqlCompose.Builder
import SqlCompose.Proofs.Consistency
import SqlCompose.Proofs.Edits

namespace SqlCompose

/-- The draft `d'` is `d` with other values. -/
structure Draft.Refilled (d d' : Draft) : Prop where
  marking_eq : d'.marking = d.marking
  statement_eq : d'.statement = d.statement
  parameters : Option.Rel Parameters.Refills d.parameters d'.parameters

namespace Draft

theorem Refilled.refl (d : Draft) : d.Refilled d := by
  refine ⟨rfl, rfl, ?_⟩
  cases d.parameters with
  | none => exact .none
  | some p => exact .some ⟨p.values, rfl, rfl⟩

theorem refilled_of_setParam {d d' : Draft} {reference value : Value}
    (h : d.setParam reference value = .ok d') : d.Refilled d' := by
  unfold setParam at h
  split at h
  · cases h
  · next p hp =>
    cases hq : p.set reference value with
    | error e => rw [hq] at h; cases h
    | ok q =>
      rw [hq] at h
      cases h
      refine ⟨rfl, rfl, ?_⟩
      rw [hp]
      exact .some (Parameters.refills_of_set hq)

theorem refilled_of_setParams {d d' : Draft} {values : List Value}
    (h : d.setParams values = .ok d') : d.Refilled d' := by
  unfold setParams at h
  split at h
  · split at h
    · cases h; exact .refl d
    · cases h
  · next p hp =>
    cases hq : p.setAll values with
    | error e => rw [hq] at h; cases h
    | ok q =>
      rw [hq] at h
      cases h
      refine ⟨rfl, rfl, ?_⟩
      rw [hp]
      exact .some (Parameters.refills_of_setAll hq)

theorem refilled_clearParams (d : Draft) : d.Refilled d.clearParams := by
  refine ⟨rfl, rfl, ?_⟩
  unfold clearParams
  cases d.parameters with
  | none => exact .none
  | some p => exact .some (Parameters.refills_clear p)

end Draft

/-- The calls that write no phrase. -/
def Call.WritesNothing {ρ : Type} : Call ρ → Prop
  | .say _ | .page _ _ => False
  | _ => True

namespace Builder

/-- What is remembered is what would be found anew. -/
structure Coherent (b : Builder) : Prop where
  raw : ∀ t, b.raw? = some t → t = b.draft.raw
  compiled : b.dirty = false → ∃ t, b.compiled? = some t ∧ b.draft.compiled = .ok t

theorem coherent_empty (m : Marking) : (empty m).Coherent := ⟨nofun, nofun⟩

namespace Coherent

variable {b : Builder} (h : b.Coherent)
include h

/-- The text of a builder is that of its draft. -/
theorem text_eq : b.text = b.draft.raw := by
  unfold text
  cases hr : b.raw? with
  | none => rfl
  | some t => exact h.raw t hr

theorem remember : b.remember.Coherent where
  raw t ht := by
    cases ht
    exact h.text_eq
  compiled := h.compiled

/-- Whether the compiled text was remembered makes no difference. -/
theorem compile_eq : b.compile.1 = b.draft.compiled := by
  unfold compile
  split
  · next t hd ht =>
    obtain ⟨u, hu, hc⟩ := h.compiled hd
    rw [ht] at hu
    cases hu
    exact hc.symm
  · rw [h.text_eq, Draft.compiled]
    cases Parameters.compile b.draft.raw b.draft.parameters <;> rfl

theorem compile : b.compile.2.Coherent := by
  unfold Builder.compile
  split
  · exact h
  · split
    · next t ht =>
      rw [h.text_eq] at ht
      refine ⟨h.remember.raw, ?_⟩
      intro _
      exact ⟨t, rfl, ht⟩
    · exact h.remember

theorem say (p : Phrase Source) : (b.say p).2.Coherent := by
  unfold Builder.say
  cases hr : p.write.run b.draft with
  | ok u d => exact ⟨nofun, nofun⟩
  | error e d =>
    have hk := Phrase.kept_of_write hr
    constructor
    · intro t ht
      rw [h.raw t ht, Draft.raw, Draft.raw, hk.statement_eq]
    · intro hd
      rw [hk.compiled_eq]
      exact h.compiled hd

theorem page (k : Clause) (g : Given Source) : (b.page k g).2.Coherent := by
  have hs := h.say (.clause k)
  unfold Builder.page
  split
  · next b' hb => rw [hb] at hs; exact hs.say _
  · next e b' hb => rw [hb] at hs; exact hs

theorem assign {r : Except Error Draft} (hr : ∀ d, r = .ok d → b.draft.Refilled d) :
    (b.assign r).2.Coherent := by
  cases r with
  | error e => exact h
  | ok d =>
    refine ⟨fun t ht => ?_, nofun⟩
    rw [h.raw t ht, Draft.raw, Draft.raw, ← (hr d rfl).statement_eq]
    rfl

theorem setParams (values : List Value) : (b.setParams values).2.Coherent := by
  unfold Builder.setParams
  split
  · exact h
  · exact h.assign fun _ => Draft.refilled_of_setParams

/-- **Every call keeps the memory coherent.** -/
theorem respond (c : Call Source) : (b.respond c).2.Coherent := by
  cases c with
  | say p => exact h.say p
  | page k g => exact h.page k g
  | setParam reference value => exact h.assign fun _ => Draft.refilled_of_setParam
  | setParams values => exact h.setParams _
  | clearParams =>
    refine h.assign ?_
    rintro _ ⟨⟩
    exact Draft.refilled_clearParams _
  | raw | quoted => exact h.remember
  | compiled => exact h.compile
  | marking => exact h

end Coherent

theorem draft_compile (b : Builder) : b.compile.2.draft = b.draft := by
  unfold Builder.compile
  split
  · rfl
  · split <;> rfl

theorem refilled_of_assign {b : Builder} {r : Except Error Draft}
    (hr : ∀ d, r = .ok d → b.draft.Refilled d) : b.draft.Refilled (b.assign r).2.draft := by
  cases r with
  | error e => exact .refl _
  | ok d => exact hr d rfl

/-- **A call that writes nothing changes values at most.** -/
theorem refilled_of_respond (b : Builder) {c : Call Source} (h : c.WritesNothing) :
    b.draft.Refilled (b.respond c).2.draft := by
  cases c with
  | say | page => cases h
  | setParam reference value => exact refilled_of_assign fun _ => Draft.refilled_of_setParam
  | setParams values =>
    show b.draft.Refilled (b.setParams _).2.draft
    unfold Builder.setParams
    split
    · exact .refl _
    · exact refilled_of_assign fun _ => Draft.refilled_of_setParams
  | clearParams =>
    refine refilled_of_assign ?_
    rintro _ ⟨⟩
    exact Draft.refilled_clearParams _
  | compiled pretty =>
    show b.draft.Refilled b.compile.2.draft
    rw [b.draft_compile]
    exact .refl _
  | raw | quoted | marking => exact .refl _

end Builder

end SqlCompose
