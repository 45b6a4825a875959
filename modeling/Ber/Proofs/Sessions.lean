import Ber.Session

/-!
# Sessions step by step

What one step does to the cursors of a session, and how runs are put together. A step changes the
cursor that it is carried out on, gives one name to a cursor that it opened, and changes nothing else
(`find?_step`); so a property of cursors that actions preserve holds at every moment of a run
(`forall_find?_run`).
-/

namespace Ber
namespace Session

variable {Name : Type} [DecidableEq Name]

theorem find?_ofCursor (name other : Name) (c : Cursor) :
    (ofCursor name c).find? other = if name = other then some c else none := by
  by_cases h : name = other
  · simp [ofCursor, find?, h]
  · simp [ofCursor, find?, h]

theorem find?_keep (s : Session Name) (name other : Name) (c : Cursor) :
    (s.keep name c).find? other = if other = name then some c else s.find? other := by
  obtain ⟨entries⟩ := s
  simp only [keep, find?]
  induction entries with
  | nil => by_cases h : other = name <;> simp [keep.go, h, eq_comm]
  | cons entry rest ih =>
    rw [keep.go]
    by_cases here : entry.1 = name
    · rw [if_pos here]
      by_cases h : other = name
      · simp [h]
      · have apart : name ≠ other := fun same => h same.symm
        simp [h, here, apart]
    · rw [if_neg here, List.find?_cons, List.find?_cons]
      by_cases h : entry.1 = other
      · have apart : other ≠ name := fun same => here (h.trans same)
        simp [h, apart]
      · simp only [decide_eq_false h]
        exact ih

/-- The cursor that a step keeps under a name. -/
def kept? (outcome : Outcome) (st : Step Name) (name : Name) : Option Cursor :=
  if st.keepAs = some name then outcome.cursor? else none

theorem kept?_eq_some_iff {outcome : Outcome} {st : Step Name} {name : Name} {d : Cursor} :
    kept? outcome st name = some d ↔ st.keepAs = some name ∧ outcome = .opened d := by
  rw [kept?]
  by_cases keep : st.keepAs = some name
  · rw [if_pos keep]
    cases outcome with
    | _ => simp [keep, Outcome.cursor?]
  · simp [keep]

theorem step_of_find?_none {s : Session Name} {st : Step Name} (h : s.find? st.on = none) :
    s.step st = (none, s) := by
  rw [step, h]

theorem step_fst {s : Session Name} {st : Step Name} {c : Cursor} (h : s.find? st.on = some c) :
    (s.step st).1 = some (c.perform st.action).1 := by
  simp only [step, h]
  split
  · rfl
  · rfl

/-- A step changes the cursor that it is carried out on and the one that it keeps. -/
theorem find?_step {s : Session Name} {st : Step Name} {c : Cursor} (h : s.find? st.on = some c)
    (name : Name) :
    (s.step st).2.find? name =
      ((kept? (c.perform st.action).1 st name).or
        (if name = st.on then some (c.perform st.action).2 else s.find? name)) := by
  simp only [step, h]
  split
  · next opened kept found keep =>
    rw [find?_keep, find?_keep, kept?, keep, found]
    by_cases same : name = kept
    · simp [same]
    · have apart : kept ≠ name := fun other => same other.symm
      simp [same, apart]
  · next unkept =>
    have nothing : kept? (c.perform st.action).1 st name = none := by
      rw [kept?]
      split
      · next keep =>
        cases found : (c.perform st.action).1.cursor? with
        | none => rfl
        | some opened => exact absurd keep (fun keep => unkept opened name found keep)
      · rfl
    rw [nothing, Option.none_or, find?_keep]

/-- The cursor that a step puts under a name, if it puts one there. -/
def placed? (s : Session Name) (st : Step Name) (name : Name) : Option Cursor :=
  (s.step st).1.bind fun outcome => kept? outcome st name

theorem placed?_eq_some_iff {s : Session Name} {st : Step Name} {name : Name} {d : Cursor} :
    s.placed? st name = some d ↔ st.keepAs = some name ∧ (s.step st).1 = some (.opened d) := by
  rw [placed?, Option.bind_eq_some_iff]
  simp only [kept?_eq_some_iff]
  constructor
  · rintro ⟨outcome, answered, keep, rfl⟩
    exact ⟨keep, answered⟩
  · rintro ⟨keep, answered⟩
    exact ⟨_, answered, keep, rfl⟩

/-- Under a name where a step puts no cursor, it changes only the one that it is carried out on. -/
theorem find?_step_of_placed?_none {s : Session Name} {st : Step Name} {name : Name}
    (h : s.placed? st name = none) :
    (s.step st).2.find? name =
      if name = st.on then (s.find? name).map fun c => (c.perform st.action).2 else s.find? name := by
  cases on : s.find? st.on with
  | none =>
    rw [step_of_find?_none on]
    by_cases same : name = st.on
    · rw [if_pos same, same, on]
      rfl
    · rw [if_neg same]
  | some c =>
    rw [placed?, step_fst on, Option.bind_some] at h
    rw [find?_step on, h, Option.none_or]
    by_cases same : name = st.on
    · rw [if_pos same, if_pos same, same, on]
      rfl
    · rw [if_neg same, if_neg same]

theorem run_cons (s : Session Name) (st : Step Name) (rest : List (Step Name)) :
    s.run (st :: rest) =
      ((s.step st).1 :: ((s.step st).2.run rest).1, ((s.step st).2.run rest).2) := rfl

/-! ### Notes on cursors -/

variable {Note : Type}

/-- The notes after a step with this answer: the name under which it kept a cursor has a new one. -/
def renew (new : Cursor → Note) (st : Step Name) (answer : Option Outcome) (notes : Name → Note) :
    Name → Note :=
  fun name =>
    match answer.bind fun outcome => kept? outcome st name with
    | some opened => new opened
    | none => notes name

/-- The notes after some steps with these answers. What is noted of a new cursor may depend on the step
and on the notes before it. -/
def notesAfter (new : Step Name → (Name → Note) → Cursor → Note) (notes : Name → Note) :
    List (Step Name) → List (Option Outcome) → Name → Note
  | st :: steps, answer :: answers =>
    notesAfter new (renew (new st notes) st answer notes) steps answers
  | _, _ => notes

/-- What a step preserves of cursors and their notes, if actions preserve it and new cursors have it. -/
theorem forall_find?_step {P : Note → Cursor → Prop} {s : Session Name} {notes : Name → Note}
    {st : Step Name} {new : Cursor → Note}
    (after : ∀ note c, P note c → P note (c.perform st.action).2)
    (opened : ∀ c d, P (notes st.on) c → (c.perform st.action).1 = .opened d → P (new d) d)
    (start : ∀ name c, s.find? name = some c → P (notes name) c) (name : Name) {d : Cursor}
    (found : (s.step st).2.find? name = some d) : P (renew new st (s.step st).1 notes name) d := by
  cases on : s.find? st.on with
  | none =>
    rw [step_of_find?_none on] at found ⊢
    exact start name d found
  | some c =>
    have here := start st.on c on
    rw [find?_step on, Option.or_eq_some_iff] at found
    rw [step_fst on]
    simp only [renew, Option.bind_some]
    rcases found with kept | ⟨unkept, found⟩
    · rw [kept]
      exact opened c d here (kept?_eq_some_iff.mp kept).2
    · rw [unkept]
      by_cases same : name = st.on
      · rw [if_pos same] at found
        cases found
        rw [same]
        exact after _ c here
      · rw [if_neg same] at found
        exact start name d found

/-- What actions preserve and what new cursors have, every cursor of a run has, with its note. -/
theorem forall_find?_run {P : Note → Cursor → Prop}
    {new : Step Name → (Name → Note) → Cursor → Note}
    (after : ∀ note c action, P note c → P note (Cursor.perform action c).2)
    (opened : ∀ (st : Step Name) notes c d, P (notes st.on) c →
      (c.perform st.action).1 = .opened d → P (new st notes d) d)
    (steps : List (Step Name)) {s : Session Name} {notes : Name → Note}
    (start : ∀ name c, s.find? name = some c → P (notes name) c) (name : Name) {c : Cursor}
    (found : (s.run steps).2.find? name = some c) :
    P (notesAfter new notes steps (s.run steps).1 name) c := by
  induction steps generalizing s notes with
  | nil => exact start name c found
  | cons st rest ih =>
    rw [run_cons] at found ⊢
    refine ih (fun other d kept => ?_) found
    exact forall_find?_step (fun note c => after note c st.action) (opened st notes) start other kept

/-- Every answer of a run is given by the cursor that a step is carried out on, as it is at that moment. -/
theorem exists_find?_of_mem_run {s : Session Name} {steps : List (Step Name)} {outcome : Outcome}
    (h : some outcome ∈ (s.run steps).1) :
    ∃ (before : List (Step Name)) (st : Step Name) (c : Cursor),
      (s.run before).2.find? st.on = some c ∧ (c.perform st.action).1 = outcome := by
  induction steps generalizing s with
  | nil => cases h
  | cons st rest ih =>
    rw [run_cons] at h
    rcases List.mem_cons.mp h with here | later
    · cases on : s.find? st.on with
      | none =>
        rw [step_of_find?_none on] at here
        cases here
      | some c =>
        rw [step_fst on] at here
        exact ⟨[], st, c, on, (Option.some.inj here).symm⟩
    · obtain ⟨before, other, c, found, answer⟩ := ih later
      exact ⟨st :: before, other, c, found, answer⟩

end Session

/-! ### Reachable cursors -/

/-- The cursors that actions lead to, from the one on the whole of `bytes`. -/
inductive Cursor.Reachable (bytes : ByteArray) : Cursor → Prop where
  | root : Reachable bytes (.ofBytes bytes)
  | after {c : Cursor} (reached : Reachable bytes c) (action : Action) :
      Reachable bytes (c.perform action).2
  | opened {c d : Cursor} {action : Action} (reached : Reachable bytes c)
      (answer : (c.perform action).1 = .opened d) : Reachable bytes d

namespace Session

variable {Name : Type} [DecidableEq Name] {bytes : ByteArray} {root name : Name}
  {steps : List (Step Name)}

theorem reachable_of_run {c : Cursor}
    (found : ((ofCursor root (.ofBytes bytes)).run steps).2.find? name = some c) :
    c.Reachable bytes := by
  have start : ∀ other d, (ofCursor root (.ofBytes bytes)).find? other = some d →
      Cursor.Reachable bytes d := by
    intro other d start
    rw [find?_ofCursor] at start
    split at start
    · cases start
      exact .root
    · cases start
  -- nothing is noted of the cursors
  exact @forall_find?_run Name _ Unit (fun _ c => Cursor.Reachable bytes c) (fun _ _ _ => ())
    (fun _ _ action reached => reached.after action) (fun _ _ _ _ reached answer => reached.opened answer)
    steps (ofCursor root (.ofBytes bytes)) (fun _ => ()) start name c found

theorem exists_reachable_of_mem_run {outcome : Outcome}
    (h : some outcome ∈ ((ofCursor root (.ofBytes bytes)).run steps).1) :
    ∃ c action, Cursor.Reachable bytes c ∧ (c.perform action).1 = outcome := by
  obtain ⟨before, st, c, found, answer⟩ := exists_find?_of_mem_run h
  exact ⟨c, st.action, reachable_of_run found, answer⟩

end Session
end Ber
