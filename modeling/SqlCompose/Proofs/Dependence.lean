/-
  Dependence — a call depends on the statements that it names, and on no others.

  * `Call.statements` lists the statements that a call names;
  * `Call.map_congr` and `Call.entries_congr`: what a call does and what is noted of it
    are the same for all sources that agree on these.
-/
import SqlCompose.Proofs.Survival

namespace SqlCompose

/-! ## The statements that a call names -/

section
variable {ρ σ : Type} {f g : ρ → σ}

/-- The statement that is given, if it is one. -/
def Given.statements : Given ρ → List ρ
  | .value _ => []
  | .statement r => [r]

/-- The statements that an argument names. -/
def Argument.statements : Argument ρ → List ρ
  | .given g | .value g | .param g => g.statements
  | .column _ => []

/-- The statements that a phrase names. -/
def Phrase.statements : Phrase ρ → List ρ
  | .literal g | .bare g | .param g => g.statements
  | .definition sub _ | .subquery sub _ | .existence sub => sub.statements
  | .membership candidates => candidates.flatMap (·.statements)
  | .procedure _ arguments | .function _ _ _ arguments => arguments.flatMap (·.statements)
  | .aggregate _ _ _ _ argument => argument.statements
  | _ => []

/-- The statements that a call names. -/
def Call.statements : Call ρ → List ρ
  | .say p => p.statements
  | .page _ g => g.statements
  | .setParam reference value => reference.statements ++ value.statements
  | .setParams values => values.flatMap (·.statements)
  | _ => []

theorem Given.map_congr {a : Given ρ} (h : ∀ r ∈ a.statements, f r = g r) : a.map f = a.map g := by
  cases a with
  | value v => rfl
  | statement r => exact congrArg statement (h r (by simp [statements]))

theorem Argument.map_congr {a : Argument ρ} (h : ∀ r ∈ a.statements, f r = g r) :
    a.map f = a.map g := by
  cases a with
  | column path => rfl
  | given b => exact congrArg given (Given.map_congr h)
  | value b => exact congrArg value (Given.map_congr h)
  | param b => exact congrArg param (Given.map_congr h)

/-- What is made of the members of a list depends on the statements that they name. -/
theorem map_congr_of_named {α β : Type} {named : α → List ρ} {m n : α → β}
    (hm : ∀ a, (∀ r ∈ named a, f r = g r) → m a = n a) {as : List α}
    (h : ∀ r ∈ as.flatMap named, f r = g r) : as.map m = as.map n := by
  apply List.map_congr_left
  intro a ha
  apply hm
  intro r hr
  exact h r (List.mem_flatMap.2 ⟨a, ha, hr⟩)

theorem Given.mapAll_congr {as : List (Given ρ)} (h : ∀ r ∈ as.flatMap (·.statements), f r = g r) :
    as.map (·.map f) = as.map (·.map g) :=
  map_congr_of_named (fun _ => map_congr) h

theorem Argument.mapAll_congr {as : List (Argument ρ)}
    (h : ∀ r ∈ as.flatMap (·.statements), f r = g r) : as.map (·.map f) = as.map (·.map g) :=
  map_congr_of_named (fun _ => map_congr) h

theorem Phrase.map_congr {q : Phrase ρ} (h : ∀ r ∈ q.statements, f r = g r) : q.map f = q.map g := by
  cases q with
  | literal a | bare a | param a => simp only [map, Given.map_congr h]
  | definition sub | subquery sub | existence sub => simp only [map, Argument.map_congr h]
  | membership candidates => simp only [map, Given.mapAll_congr h]
  | procedure name as => simp only [map, Argument.mapAll_congr h]
  | function name type label as => simp only [map, Argument.mapAll_congr h]
  | aggregate name type label distinct a => simp only [map, Argument.map_congr h]
  | _ => rfl

/-- A call depends on the statements that it names, and on no others. -/
theorem Call.map_congr {c : Call ρ} (h : ∀ r ∈ c.statements, f r = g r) : c.map f = c.map g := by
  cases c with
  | say p => exact congrArg say (Phrase.map_congr h)
  | page k a => exact congrArg (page k) (Given.map_congr h)
  | setParam a b =>
    have ha := Given.map_congr fun r hr => h r (List.mem_append_left _ hr)
    have hb := Given.map_congr fun r hr => h r (List.mem_append_right _ hr)
    simp only [map, ha, hb]
  | setParams values => exact congrArg setParams (Given.mapAll_congr h)
  | _ => rfl

end

section
variable {p : Parameters} {source source' : Text → Source} {carried carried' : Text → List Text}

theorem takenIn_congr {sub : Argument Text} (h : ∀ r ∈ sub.statements, carried r = carried' r) :
    takenIn p carried sub = takenIn p carried' sub := by
  cases sub with
  | column | value | param => rfl
  | given a =>
    cases a with
    | value v => rfl
    | statement r =>
      show (carried r).map _ = (carried' r).map _
      rw [h r (List.mem_singleton_self r)]

theorem candidateMarkers_congr {gs : List (Given Text)}
    (h : ∀ r ∈ gs.flatMap (·.statements), source r = source' r ∧ carried r = carried' r) :
    candidateMarkers p source carried gs = candidateMarkers p source' carried' gs := by
  have hmap : gs.map (·.map source) = gs.map (·.map source') :=
    Given.mapAll_congr fun r hr => (h r hr).1
  rcases gs with _ | ⟨a, _ | ⟨a', gs⟩⟩
  · rfl
  · cases a with
    | statement r =>
      refine @takenIn_congr p carried carried' (.given (.statement r)) ?_
      intro r' hr
      exact (h r' (List.mem_flatMap.2 ⟨_, List.mem_singleton_self _, hr⟩)).2
    | value v => cases v <;> rfl
  · cases a with
    | statement r => simp only [candidateMarkers, hmap]
    | value v => cases v <;> simp only [candidateMarkers, hmap]

theorem Phrase.markers_congr {q : Phrase Text}
    (h : ∀ r ∈ q.statements, source r = source' r ∧ carried r = carried' r) :
    q.markers p source carried = q.markers p source' carried' := by
  cases q with
  | definition sub | subquery sub | existence sub => exact takenIn_congr fun r hr => (h r hr).2
  | membership gs => exact candidateMarkers_congr h
  | param a =>
    have ha := Given.map_congr fun r hr => (h r hr).1
    simp only [markers, ha]
  | procedure name as =>
    have has := Argument.mapAll_congr fun r hr => (h r hr).1
    simp only [markers, has]
  | function name type label as =>
    have has := Argument.mapAll_congr fun r hr => (h r hr).1
    simp only [markers, has]
  | aggregate name type label distinct a =>
    have ha := Argument.map_congr fun r hr => (h r hr).1
    simp only [markers, ha]
  | _ => rfl

/-- What is noted of a call depends on the statements that it names, and on no others. -/
theorem Call.entries_congr {c : Call Text} {hist : History}
    (h : ∀ r ∈ c.statements, source r = source' r ∧ carried r = carried' r) :
    c.entries p source carried hist = c.entries p source' carried' hist := by
  cases c with
  | say q =>
    have hq : q.markers p source carried = q.markers p source' carried' :=
      Phrase.markers_congr h
    cases q with
    | clause k => rfl
    | _ => simp only [entries, Phrase.entries, hq]
  | _ => rfl

end

end SqlCompose
