/-
  References — what references hold after slots were added to several of them.

  * `slots?_eq_some_iff`: looking a reference up finds the entry that is there;
  * `extendAll` adds the slots of several references, one after the other, and
    `slots?_extendAll` says what each of them holds then;
  * `nodup_extendAll` and `perm_extendAll`: no reference occurs twice, and no slot
    is lost or made up.
-/
import SqlCompose.Parameters
import Mathlib.Data.List.Perm.Basic
import Mathlib.Data.List.Nodup

namespace SqlCompose.References

/-- The keys of the references. -/
def keys (refs : References) : List Text := refs.map Prod.fst

/-- All slots of the references. -/
def slots (refs : References) : List Nat := refs.flatMap Prod.snd

@[simp] theorem keys_cons (r : Text × List Nat) (refs : References) :
    keys (r :: refs) = r.1 :: keys refs := rfl

@[simp] theorem slots_cons (r : Text × List Nat) (refs : References) :
    slots (r :: refs) = r.2 ++ slots refs := List.flatMap_cons

theorem mem_keys_of_mem {refs : References} {r : Text × List Nat} (h : r ∈ refs) : r.1 ∈ refs.keys :=
  List.mem_map_of_mem h

theorem mem_of_slots? {refs : References} {k : Text} {ss : List Nat} (h : refs.slots? k = some ss) :
    (k, ss) ∈ refs := by
  induction refs with
  | nil => cases h
  | cons r refs ih =>
    rw [slots?] at h
    split at h
    · next hk =>
      cases h
      simp [← hk]
    · exact List.mem_cons_of_mem r (ih h)

theorem slots?_eq_none {refs : References} {k : Text} (h : k ∉ refs.keys) : refs.slots? k = none := by
  rw [Option.eq_none_iff_forall_ne_some]
  intro ss hs
  exact h (mem_keys_of_mem (mem_of_slots? hs))

theorem slots?_eq_some_iff {refs : References} (h : refs.keys.Nodup) {k : Text} {ss : List Nat} :
    refs.slots? k = some ss ↔ (k, ss) ∈ refs := by
  refine ⟨mem_of_slots?, ?_⟩
  intro hmem
  induction refs with
  | nil => cases hmem
  | cons r refs ih =>
    obtain ⟨hr, hrefs⟩ := List.nodup_cons.1 h
    rcases List.mem_cons.1 hmem with rfl | hmem
    · exact if_pos rfl
    · have hkey : k ∈ keys refs := mem_keys_of_mem hmem
      have hne : r.1 ≠ k := by
        intro hk
        rw [← hk] at hkey
        exact hr hkey
      rw [slots?, if_neg hne]
      exact ih hrefs hmem

/-! ## Adding slots to one reference -/

theorem keys_extend (refs : References) (k : Text) (ss : List Nat) :
    (refs.extend k ss).keys = if k ∈ refs.keys then refs.keys else refs.keys ++ [k] := by
  induction refs with
  | nil => rfl
  | cons r refs ih =>
    rw [extend]
    by_cases hk : r.1 = k
    · simp [hk]
    · simp only [hk, if_false, keys_cons, ih, List.mem_cons, Ne.symm hk, false_or]
      split <;> rfl

theorem nodup_extend {refs : References} (h : refs.keys.Nodup) (k : Text) (ss : List Nat) :
    (refs.extend k ss).keys.Nodup := by
  rw [keys_extend]
  split
  · exact h
  · next hk => exact List.nodup_append_comm.1 (List.nodup_cons.2 ⟨hk, h⟩)

theorem perm_extend (refs : References) (k : Text) (ss : List Nat) :
    (refs.extend k ss).slots.Perm (refs.slots ++ ss) := by
  induction refs with
  | nil => simp [extend, slots]
  | cons r refs ih =>
    rw [extend]
    split
    · simp only [slots_cons, List.append_assoc]
      exact List.perm_append_comm.append_left _
    · simp only [slots_cons, List.append_assoc]
      exact ih.append_left _

/-! ## Adding slots to several references -/

/-- Adds the slots of several references, one after the other. -/
def extendAll (refs added : References) : References :=
  added.foldl (fun refs r => refs.extend r.1 r.2) refs

/-- Every reference holds its own slots and then those added to it. -/
theorem slots?_extendAll (refs : References) {added : References} (h : added.keys.Nodup) (k : Text) :
    (refs.extendAll added).slots? k = match added.slots? k with
      | some ss => some ((refs.slots? k).getD [] ++ ss)
      | none => refs.slots? k := by
  induction added generalizing refs with
  | nil => rfl
  | cons r added ih =>
    obtain ⟨hr, hadded⟩ := List.nodup_cons.1 h
    rw [extendAll, List.foldl_cons, ← extendAll, ih _ hadded, slots?_extend, slots?]
    by_cases hk : r.1 = k
    · subst hk
      simp [slots?_eq_none hr]
    · simp [hk, Ne.symm hk]

theorem nodup_extendAll {refs : References} (h : refs.keys.Nodup) (added : References) :
    (refs.extendAll added).keys.Nodup := by
  induction added generalizing refs with
  | nil => exact h
  | cons r added ih => exact ih (nodup_extend h r.1 r.2)

theorem perm_extendAll (refs added : References) :
    (refs.extendAll added).slots.Perm (refs.slots ++ added.slots) := by
  induction added generalizing refs with
  | nil => simp [extendAll, slots]
  | cons r added ih =>
    rw [slots_cons, ← List.append_assoc]
    exact (ih _).trans ((perm_extend refs r.1 r.2).append_right _)

end SqlCompose.References
