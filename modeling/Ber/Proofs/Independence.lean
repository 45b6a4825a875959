import Ber.Proofs.Poisoning

/-!
# Independent cursors

The cursors of a session do not know of each other. A step changes the one that it is carried out on,
and of that its place in the array and whether it is usable, if it is a move (`StepFrame`). So it does not
matter to a cursor what is done with the others in between: its answers, the cursors that are opened from
it and what becomes of it are those of a session that has no other cursor, and carries out the steps on
this one only (`run_agrees_alone`).

Names are what can tie cursors together, as a step may put a cursor under a name that is in use. What is
said here of a name holds where only the steps on the cursor itself put something under it (`OwnedBy`).
-/

namespace Ber
namespace Session

variable {Name : Type}

/-- Only the steps on the cursor of `name` put something under the name `other`, and if this is another
name, no step is carried out on it. -/
structure OwnedBy (name : Name) (steps : List (Step Name)) (other : Name) : Prop where
  placed : ∀ st ∈ steps, st.keepAs = some other → st.on = name
  still : other ≠ name → ∀ st ∈ steps, st.on ≠ other

theorem OwnedBy.tail {name other : Name} {st : Step Name} {steps : List (Step Name)}
    (h : OwnedBy name (st :: steps) other) : OwnedBy name steps other :=
  ⟨fun st later => h.placed st (List.mem_cons_of_mem _ later),
    fun apart st later => h.still apart st (List.mem_cons_of_mem _ later)⟩

/-! ### One step -/

/-- The names that are in use. -/
def names (s : Session Name) : List Name := s.entries.map Prod.fst

variable [DecidableEq Name]

theorem map_fst_keep_go (name : Name) (c : Cursor) (entries : List (Name × Cursor)) :
    (keep.go name c entries).map Prod.fst =
      if name ∈ entries.map Prod.fst then entries.map Prod.fst else entries.map Prod.fst ++ [name] := by
  induction entries with
  | nil => rfl
  | cons entry rest ih =>
    rw [keep.go]
    by_cases here : entry.1 = name
    · simp [here]
    · have apart : name ≠ entry.1 := fun same => here same.symm
      rw [if_neg here, List.map_cons, ih, List.map_cons]
      by_cases later : name ∈ rest.map Prod.fst
      · rw [if_pos later, if_pos (List.mem_cons_of_mem _ later)]
      · have absent : name ∉ entry.1 :: rest.map Prod.fst := by simp [apart, later]
        rw [if_neg later, if_neg absent, List.cons_append]

theorem names_keep (s : Session Name) (name : Name) (c : Cursor) :
    (s.keep name c).names = if name ∈ s.names then s.names else s.names ++ [name] :=
  map_fst_keep_go name c s.entries

theorem mem_names_of_find? {s : Session Name} {name : Name} {c : Cursor} (h : s.find? name = some c) :
    name ∈ s.names := by
  obtain ⟨entry, found, -⟩ := Option.map_eq_some_iff.mp h
  have named : entry.1 = name := by simpa using List.find?_some found
  exact named ▸ List.mem_map_of_mem (List.mem_of_find?_eq_some found)

/-- What a step may change in a session. -/
structure StepFrame (s : Session Name) (st : Step Name) : Prop where
  others : ∀ name, name ≠ st.on → s.placed? st name = none → (s.step st).2.find? name = s.find? name
  own : ∀ c, s.find? st.on = some c → s.placed? st st.on = none →
    ∃ after, (s.step st).2.find? st.on = some after ∧ after.window.origin = c.window.origin ∧
      after.tagContext = c.tagContext ∧ (st.action.moves = false → after = c)
  opened : ∀ name d, s.placed? st name = some d →
    st.keepAs = some name ∧ (s.step st).1 = some (.opened d) ∧ (s.step st).2.find? name = some d ∧
      ∃ c, s.find? st.on = some c ∧ d.window.origin = c.window.origin
  names : (s.step st).2.names = s.names ∨
    ∃ name, st.keepAs = some name ∧ (s.step st).2.names = s.names ++ [name]

end Session

theorem Cursor.perform_of_not_moves {c : Cursor} {action : Action} (h : action.moves = false) :
    (c.perform action).2 = c := by
  have done := c.performs action
  generalize (c.perform action).1 = answer at done
  generalize (c.perform action).2 = after at done
  cases done with
  | next asked advanced => rcases asked with rfl | rfl <;> cases h
  | noNext refused => cases h
  | raisedNext refused => cases h
  | skipContext => cases h
  | _ => rfl

/-- No action changes the array that a cursor reads, nor its context number. -/
theorem Cursor.perform_origin_and_tagContext (c : Cursor) (action : Action) :
    (c.perform action).2.window.origin = c.window.origin ∧
      (c.perform action).2.tagContext = c.tagContext := by
  refine perform_preserves (P := fun d => d.window.origin = c.window.origin ∧ d.tagContext = c.tagContext)
    ?_ (fun d same => same) ⟨rfl, rfl⟩ action
  intro d e same advanced
  exact ⟨(origin_of_advance advanced).trans same.1, (tagContext_of_advance advanced).trans same.2⟩

theorem Cursor.origin_of_opened {c d : Cursor} {action : Action}
    (h : (c.perform action).1 = .opened d) : d.window.origin = c.window.origin := by
  rcases perform_eq_opened h with ⟨-, rfl⟩ | ⟨-, kind, entered⟩
  · rfl
  · obtain ⟨e, found, rfl⟩ := map_eq_ok_iff.mp entered
    exact (fills_of_element found).contentOrigin

namespace Session

variable {Name : Type} [DecidableEq Name] {s t : Session Name} {st : Step Name} {steps : List (Step Name)}
  {name other : Name}

theorem stepFrame (s : Session Name) (st : Step Name) : s.StepFrame st := by
  refine ⟨?_, ?_, ?_, ?_⟩
  · intro name apart unplaced
    rw [find?_step_of_placed?_none unplaced, if_neg apart]
  · intro c found unplaced
    obtain ⟨origin, context⟩ := c.perform_origin_and_tagContext st.action
    refine ⟨(c.perform st.action).2, ?_, origin, context, Cursor.perform_of_not_moves⟩
    rw [find?_step_of_placed?_none unplaced, if_pos rfl, found]
    rfl
  · intro name d placed
    obtain ⟨keep, answered⟩ := placed?_eq_some_iff.mp placed
    cases on : s.find? st.on with
    | none =>
      rw [step_of_find?_none on] at answered
      cases answered
    | some c =>
      have opened := Option.some.inj ((step_fst on).symm.trans answered)
      refine ⟨keep, answered, ?_, c, rfl, Cursor.origin_of_opened opened⟩
      rw [find?_step on, kept?_eq_some_iff.mpr ⟨keep, opened⟩, Option.some_or]
  · cases on : s.find? st.on with
    | none =>
      rw [step_of_find?_none on]
      exact .inl rfl
    | some c =>
      have same : (s.keep st.on (c.perform st.action).2).names = s.names := by
        rw [names_keep, if_pos (mem_names_of_find? on)]
      simp only [step, on]
      split
      · next opened kept found keep =>
        rw [names_keep, same]
        split
        · exact .inl rfl
        · exact .inr ⟨kept, keep, rfl⟩
      · exact .inl same

/-! ### Runs -/

/-- The answers that are given on the cursor of a name. -/
def answersOn (name : Name) : List (Step Name) → List (Option Outcome) → List (Option Outcome)
  | st :: steps, answer :: answers =>
    if st.on = name then answer :: answersOn name steps answers else answersOn name steps answers
  | _, _ => []

/-- The steps on the cursor of a name. -/
def stepsOn (name : Name) (steps : List (Step Name)) : List (Step Name) :=
  steps.filter fun st => st.on = name

/-- Steps on the cursor of a name do the same in sessions that agree there. -/
theorem step_agrees (own : st.on = name) (same : s.find? name = t.find? name)
    (there : s.find? other = t.find? other) :
    (s.step st).1 = (t.step st).1 ∧ (s.step st).2.find? other = (t.step st).2.find? other := by
  subst own
  cases on : s.find? st.on with
  | none =>
    rw [step_of_find?_none on, step_of_find?_none (same.symm.trans on)]
    exact ⟨rfl, there⟩
  | some c =>
    have on' := same.symm.trans on
    rw [step_fst on, step_fst on', find?_step on, find?_step on', there]
    exact ⟨rfl, rfl⟩

/-- Steps on other cursors change nothing under a name that is not theirs. -/
theorem find?_step_of_ownedBy (foreign : st.on ≠ name) (owned : OwnedBy name (st :: steps) other) :
    (s.step st).2.find? other = s.find? other := by
  have unplaced : s.placed? st other = none := by
    rw [Option.eq_none_iff_forall_ne_some]
    intro d placed
    exact foreign (owned.placed st List.mem_cons_self (placed?_eq_some_iff.mp placed).1)
  have apart : other ≠ st.on := by
    by_cases self : other = name
    · exact fun on => foreign (on.symm.trans self)
    · exact fun on => owned.still self st List.mem_cons_self on.symm
  rw [find?_step_of_placed?_none unplaced, if_neg apart]

/-- A run goes for the cursor of a name as the steps on it alone go in a session that agrees there. -/
theorem run_agrees_alone (own : OwnedBy name steps name) (owned : OwnedBy name steps other)
    (same : s.find? name = t.find? name) (there : s.find? other = t.find? other) :
    answersOn name steps (s.run steps).1 = (t.run (stepsOn name steps)).1 ∧
      (s.run steps).2.find? other = (t.run (stepsOn name steps)).2.find? other := by
  induction steps generalizing s t with
  | nil => exact ⟨rfl, there⟩
  | cons st rest ih =>
    rw [run_cons, answersOn, stepsOn, List.filter_cons]
    by_cases mine : st.on = name
    · obtain ⟨answer, same'⟩ := step_agrees mine same same
      obtain ⟨-, there'⟩ := step_agrees mine same there
      obtain ⟨answers, final⟩ := ih own.tail owned.tail same' there'
      rw [if_pos mine, if_pos (decide_eq_true mine), run_cons, answer, answers]
      exact ⟨rfl, final⟩
    · have same' := (find?_step_of_ownedBy mine own).trans same
      have there' := (find?_step_of_ownedBy mine owned).trans there
      rw [if_neg mine, if_neg (by simp [mine])]
      exact ih own.tail owned.tail same' there'

/-- No step touches a cursor that it is not carried out on, and so every cursor goes through a session as
it goes alone, and so do the cursors that are opened from it. -/
theorem cursors_are_independent (s : Session Name) :
    (∀ st, s.StepFrame st) ∧
    ∀ steps name c, s.find? name = some c → OwnedBy name steps name →
      let alone := (ofCursor name c).run (stepsOn name steps)
      answersOn name steps (s.run steps).1 = alone.1 ∧
      (s.run steps).2.find? name = alone.2.find? name ∧
      ∀ child, s.find? child = none → OwnedBy name steps child →
        (s.run steps).2.find? child = alone.2.find? child := by
  refine ⟨s.stepFrame, ?_⟩
  intro steps name c found own
  have same : s.find? name = (ofCursor name c).find? name := by
    rw [found, find?_ofCursor, if_pos rfl]
  obtain ⟨answers, final⟩ := run_agrees_alone own own same same
  refine ⟨answers, final, ?_⟩
  intro child unused owned
  have apart : name ≠ child := by
    rintro rfl
    cases found.symm.trans unused
  have there : s.find? child = (ofCursor name c).find? child := by
    rw [unused, find?_ofCursor, if_neg apart]
  exact (run_agrees_alone own owned same there).2

/-- A sequence of an empty sequence and of an element that is cut off. -/
def sequenceAndCutOff : ByteArray := ⟨#[0x30, 0x06, 0x30, 0x02, 0x05, 0x00, 0x04, 0x05]⟩

/-- The cursor on the sequence is poisoned among the steps on a fork of it. -/
def stepsOnSequenceAndFork : List (Step Nat) :=
  [⟨1, .next, none⟩, ⟨2, .tag, none⟩, ⟨1, .next, none⟩, ⟨2, .enter .sequence, some 3⟩,
    ⟨0, .expectNext, none⟩, ⟨2, .expectNext, none⟩]

theorem fork_is_independent_of_poisoned_source :
    let s := ((ofCursor 0 (.ofBytes sequenceAndCutOff)).run
      [⟨0, .expectEnter .sequence, some 1⟩, ⟨1, .fork, some 2⟩]).2
    answersOn 2 stepsOnSequenceAndFork (s.run stepsOnSequenceAndFork).1 =
        [some (.tag (some 0x30)), some (.opened ⟨⟨sequenceAndCutOff, 4, 2, by decide⟩, none, true⟩),
          some (.flag true)] ∧
      (s.run stepsOnSequenceAndFork).2.find? 2 =
        some ⟨⟨sequenceAndCutOff, 6, 2, by decide⟩, none, true⟩ ∧
      (s.run stepsOnSequenceAndFork).2.find? 3 =
        some ⟨⟨sequenceAndCutOff, 4, 2, by decide⟩, none, true⟩ := by
  intro s
  obtain ⟨answers, final, children⟩ := (cursors_are_independent s).2 stepsOnSequenceAndFork 2
    ⟨⟨sequenceAndCutOff, 2, 6, by decide⟩, none, true⟩ (by decide) ⟨by decide, by decide⟩
  have child := children 3 (by decide) ⟨by decide, by decide⟩
  exact ⟨answers.trans (by decide), final.trans (by decide), child.trans (by decide)⟩

end Session
end Ber
