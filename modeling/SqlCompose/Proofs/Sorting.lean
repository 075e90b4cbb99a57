/-
  Sorting — sorting keys are a list of groups.

  The tokens of `ORDER BY` are joined one after the other, and what stands between two of them
  depends on the second.  Seen as a whole they are a list like that of other clauses, but a list
  of groups: a token and the directions behind it.

  * `Clause.sortingGroups` cuts the tokens into these groups;
  * `Clause.sortingKeys_append` says what tokens that come later add;
  * `Clause.sortingKeys_flatten`: rows of tokens that are divided like groups are joined by
    spaces inside and by commas between them;
  * `Clause.sorting_by_groups` puts these together.
-/
import SqlCompose.Statement
import Mathlib.Data.List.SplitBy

namespace SqlCompose

open Fragment

/-! ## Lists -/

/-- What is joined begins with its first item, and every other item is behind a separator. -/
theorem intercalate_cons_eq {α : Type} (sep t : List α) (ts : List (List α)) :
    sep.intercalate (t :: ts) = t ++ ts.flatMap (sep ++ ·) := by
  induction ts generalizing t with
  | nil => rw [List.intercalate_singleton, List.flatMap_nil, List.append_nil]
  | cons u us ih =>
    rw [List.intercalate_cons_cons, ih, List.flatMap_cons, List.append_assoc, List.append_assoc]

/-- Whatever is not first in a chain has something in front of it. -/
theorem exists_rel_of_mem_tail {α : Type} {R : α → α → Prop} {l : List α} (h : l.IsChain R) {b : α}
    (hb : b ∈ l.tail) : ∃ a, R a b := by
  induction l with
  | nil => cases hb
  | cons a l ih =>
    obtain ⟨hhead, htail⟩ := List.isChain_cons.1 h
    cases l with
    | nil => cases hb
    | cons c l =>
      rcases List.mem_cons.1 hb with rfl | hb
      · exact ⟨a, hhead b rfl⟩
      · exact ih htail hb

namespace Clause

/-! ## One token after the other -/

/-- What a token adds behind others: a space if it is a direction and a comma otherwise, and
    itself. -/
def sortingStep (t : Text) : Text := (if IsDirection t then [' '] else comma) ++ t

theorem sortingKeys_cons (t : Text) (ts : List Text) :
    sortingKeys (t :: ts) = t ++ ts.flatMap sortingStep := rfl

/-- Tokens that come later are joined to what is there, and do not change it. -/
theorem sortingKeys_append {ts : List Text} (h : ts ≠ []) (us : List Text) :
    sortingKeys (ts ++ us) = sortingKeys ts ++ us.flatMap sortingStep := by
  obtain ⟨t, ts, rfl⟩ := List.exists_cons_of_ne_nil h
  rw [List.cons_append, sortingKeys_cons, sortingKeys_cons, List.flatMap_append, List.append_assoc]

/-- The last token stands at the end. -/
theorem isSuffix_sortingKeys (ts : List Text) (t : Text) : t <:+ sortingKeys (ts ++ [t]) := by
  cases ts with
  | nil =>
    have hbody : sortingKeys [t] = t := List.append_nil t
    exact ⟨[], hbody.symm⟩
  | cons u us =>
    rw [sortingKeys_append (List.cons_ne_nil u us), List.flatMap_singleton, sortingStep,
      ← List.append_assoc]
    exact List.suffix_append _ t

/-! ## Groups -/

/-- The tokens cut in front of every token but the first and the directions. -/
def sortingGroups (tokens : List Text) : List (List Text) :=
  tokens.splitBy fun _ t => decide (IsDirection t)

/-- A group is a token with directions behind it. -/
theorem exists_of_mem_sortingGroups {tokens g : List Text} (hg : g ∈ sortingGroups tokens) :
    ∃ t ds, g = t :: ds ∧ ∀ d ∈ ds, IsDirection d := by
  obtain ⟨t, ds, rfl⟩ := List.exists_cons_of_ne_nil (List.ne_nil_of_mem_splitBy hg)
  refine ⟨t, ds, rfl, ?_⟩
  intro d hd
  obtain ⟨-, hdirection⟩ := exists_rel_of_mem_tail (List.isChain_of_mem_splitBy hg) hd
  exact of_decide_eq_true hdirection

/-- A group behind others begins with a token that is no direction. -/
theorem exists_of_mem_tail_sortingGroups {tokens g : List Text}
    (hg : g ∈ (sortingGroups tokens).tail) : ∃ t ds, g = t :: ds ∧ ¬ IsDirection t := by
  obtain ⟨-, -, hne, hkey⟩ :=
    exists_rel_of_mem_tail (List.isChain_getLast_head_splitBy _ tokens) hg
  obtain ⟨t, ds, rfl⟩ := List.exists_cons_of_ne_nil hne
  exact ⟨t, ds, rfl, of_decide_eq_false hkey⟩

/-- A group by itself is joined by spaces. -/
theorem sortingKeys_group {ds : List Text} (hds : ∀ d ∈ ds, IsDirection d) (t : Text) :
    sortingKeys (t :: ds) = List.intercalate [' '] (t :: ds) := by
  rw [sortingKeys_cons, intercalate_cons_eq]
  congr 1
  refine List.flatMap_congr ?_
  intro d hd
  rw [sortingStep, if_pos (hds d hd)]

/-- **Groups are joined by spaces inside and by commas between them.** -/
theorem sortingKeys_flatten {gs : List (List Text)}
    (hgroup : ∀ g ∈ gs, ∃ t ds, g = t :: ds ∧ ∀ d ∈ ds, IsDirection d)
    (hkey : ∀ g ∈ gs.tail, ∃ t ds, g = t :: ds ∧ ¬ IsDirection t) :
    sortingKeys gs.flatten = comma.intercalate (gs.map (List.intercalate [' '])) := by
  induction gs with
  | nil => rfl
  | cons g gs ih =>
    obtain ⟨t, ds, rfl, hds⟩ := hgroup g (by simp)
    cases gs with
    | nil =>
      rw [List.flatten_cons, List.flatten_nil, List.append_nil, sortingKeys_group hds,
        List.map_singleton, List.intercalate_singleton]
    | cons g' gs =>
      have hrest := ih (fun g hg => hgroup g (by simp [hg])) fun g hg =>
        hkey g (List.mem_cons_of_mem g' hg)
      obtain ⟨u, us, rfl, hu⟩ := hkey g' (by simp)
      rw [List.map_cons, List.map_cons, List.intercalate_cons_cons, ← List.map_cons, ← hrest,
        ← sortingKeys_group hds, List.flatten_cons, sortingKeys_append (List.cons_ne_nil t ds)]
      -- the first token of the next group brings the comma
      rw [List.flatten_cons, List.cons_append, List.flatMap_cons, sortingStep, if_neg hu,
        sortingKeys_cons u, List.append_assoc, List.append_assoc]

/-- Without directions behind the first token the keys are a list like any other. -/
theorem sortingKeys_of_not_isDirection {tokens : List Text}
    (h : ∀ t ∈ tokens.tail, ¬ IsDirection t) : sortingKeys tokens = comma.intercalate tokens := by
  cases tokens with
  | nil => rfl
  | cons t ts =>
    rw [sortingKeys_cons, intercalate_cons_eq]
    congr 1
    refine List.flatMap_congr ?_
    intro u hu
    rw [sortingStep, if_neg (h u hu)]

/-- **Sorting keys are a list of groups.**  The tokens of `ORDER BY` are cut in front of every
    token but the first and the directions; a group is joined by spaces, and the groups are
    joined by commas.  So the groups make up the tokens, no two tokens that are no directions
    share a group, and only the first group may begin with a direction.  What is joined to a
    token stands right behind it: a direction behind a space, any other token behind a comma.
    Without a direction behind the first token the keys are joined as the tokens of every
    other clause are that is a list. -/
theorem sorting_by_groups (tokens : List Text) :
    let groups := sortingGroups tokens
    body .orderBy tokens = comma.intercalate (groups.map (List.intercalate [' '])) ∧
      groups.flatten = tokens ∧
      (∀ g ∈ groups, ∃ t ds, g = t :: ds ∧ ∀ d ∈ ds, IsDirection d) ∧
      (∀ g ∈ groups.tail, ∃ t ds, g = t :: ds ∧ ¬ IsDirection t) ∧
      (∀ before t u behind, tokens = before ++ t :: u :: behind →
        t <:+ body .orderBy (before ++ [t]) ∧
          body .orderBy (before ++ [t]) ++ (if IsDirection u then [' '] else comma) ++ u <+:
            body .orderBy tokens) ∧
      ((∀ t ∈ tokens.tail, ¬ IsDirection t) →
        ∀ k : Clause, k.separator = comma → body .orderBy tokens = k.body tokens) := by
  intro groups
  have hbody : ∀ ts, body .orderBy ts = sortingKeys ts := fun _ => if_pos rfl
  have hgroup : ∀ g ∈ groups, ∃ t ds, g = t :: ds ∧ ∀ d ∈ ds, IsDirection d :=
    fun _ => exists_of_mem_sortingGroups
  have hkey : ∀ g ∈ groups.tail, ∃ t ds, g = t :: ds ∧ ¬ IsDirection t :=
    fun _ => exists_of_mem_tail_sortingGroups
  have hflatten : groups.flatten = tokens := List.flatten_splitBy _ tokens
  simp only [hbody]
  refine ⟨?_, hflatten, hgroup, hkey, ?_, ?_⟩
  · rw [← sortingKeys_flatten hgroup hkey, hflatten]
  · rintro before t u behind rfl
    refine ⟨isSuffix_sortingKeys before t, ?_⟩
    have hne : before ++ [t] ≠ [] := by simp
    have hjoined := sortingKeys_append hne (u :: behind)
    rw [← List.append_cons] at hjoined
    rw [hjoined, List.flatMap_cons, sortingStep, ← List.append_assoc,
      ← List.append_assoc]
    exact List.prefix_append _ _
  · intro h k hk
    have hplain := sortingKeys_of_not_isDirection h
    unfold body
    split
    · rfl
    · rw [hk, hplain]

/-- A direction in front, an empty token, two directions in a row and one at the end; and keys
    of which only the first is a direction. -/
theorem sorting_by_groups_repeated_directions :
    let tokens : List Text := ["DESC", "", "ASC", "DESC", "b", "c", "ASC"]
    let groups : List (List Text) := [["DESC"], ["", "ASC", "DESC"], ["b"], ["c", "ASC"]]
    sortingGroups tokens = groups ∧ body .orderBy tokens = "DESC ,  ASC DESC , b , c ASC" ∧
      (∃ t ds, ["".toList, "ASC".toList, "DESC".toList] = t :: ds ∧ ∀ d ∈ ds, IsDirection d) ∧
      (∃ t ds, ["b".toList] = t :: ds ∧ ¬ IsDirection t) ∧
      body .orderBy ["DESC", ""] ++ [' '] ++ "ASC".toList <+: body .orderBy tokens ∧
      body .orderBy ["ASC", "a", "b"] = body .select ["ASC", "a", "b"] := by
  intro tokens groups
  have hgroups : sortingGroups tokens = groups := by decide
  obtain ⟨hjoined, -, hgroup, hkey, hstep, -⟩ := sorting_by_groups tokens
  obtain ⟨-, -, -, -, -, hplain⟩ := sorting_by_groups ["ASC", "a", "b"]
  rw [hgroups] at hjoined hgroup hkey
  refine ⟨hgroups, hjoined.trans (by decide), hgroup _ (by simp [groups]),
    hkey _ (by simp [groups]), ?_, hplain (by decide) .select rfl⟩
  exact (hstep ["DESC"] "" "ASC" ["DESC", "b", "c", "ASC"] rfl).2

end Clause

end SqlCompose
