import Ber.Proofs.Nesting
import Ber.Proofs.Relocation

/-!
# Poisoned cursors

A cursor becomes unusable by a failed move of its own and by nothing else, and it stays so.

`Cursor.FailsAt` says where a move in place fails and with which failure: `next` and `expectNext` where
the cursor stands, `skipContext` behind the well-formed `[n]` elements that it has passed. These are the
actions that poison (`Cursor.unusable_perform_iff_failsAt`), and they leave the cursor at the place of the
failure with nothing left to read (`Cursor.FailsAt.perform_eq`).

On a poisoned cursor every action answers with a refusal, and leaves the cursor as it is
(`Cursor.perform_of_unusable`). In a session this holds of the cursor under all its names, those of the
forks that are taken from it included (`kinOf`), however long the session goes on.
-/

namespace Ber

/-- The actions that move a cursor in place. -/
def Action.moves : Action → Bool
  | .next => true
  | .expectNext => true
  | .skipContext => true
  | _ => false

/-- The answer says that a move has failed. -/
def Outcome.refuses : Outcome → Bool
  | .flag false => true
  | .raised _ => true
  | _ => false

namespace Cursor

variable {c d : Cursor} {action : Action} {failure : Failure}

/-! ### Failing moves -/

/-- A move of `c` in place fails at `d`, where no header can be read. -/
inductive FailsAt (c : Cursor) : Action → Cursor → Failure → Prop where
  | next {failure : Failure} (refused : c.header = .error failure) : FailsAt c .next c failure
  | expectNext {failure : Failure} (refused : c.header = .error failure) :
      FailsAt c .expectNext c failure
  | skipContext (row : List Encoding) (tail : List UInt8) {d : Cursor} {tag : Tag} {failure : Failure}
      (cut : c.window.toList = Encoding.rowBytes row ++ tail)
      (passed : ∀ x ∈ row, 0xa0 ≤ x.tag ∧ x.tag ≤ 0xbf)
      (behind : d.On c.window.origin (c.position + (Encoding.rowBytes row).length) tail)
      (context : d.tagContext = c.tagContext)
      (found : d.tag? = some tag) (tagged : 0xa0 ≤ tag ∧ tag ≤ 0xbf)
      (refused : d.header = .error failure) : FailsAt c .skipContext d failure

theorem atContext_iff : c.atContext = true ↔ ∃ tag, c.tag? = some tag ∧ 0xa0 ≤ tag ∧ tag ≤ 0xbf := by
  rw [atContext, Option.any_eq_true]
  simp only [Tag.isContext_iff]

/-- Skipping fails behind a row of `[n]` elements, if it fails. -/
theorem exists_failsAt_of_skipContext (usable : c.usable = true) (h : c.skipContext.2.usable = false) :
    ∃ d failure, c.FailsAt .skipContext d failure := by
  fun_induction Cursor.skipContext c with
  | case1 c front moved advanced ih =>
    have on := on_self usable
    obtain ⟨x, after, cut, onMoved, context⟩ := (advance_eq_ok_iff on).mp advanced
    obtain ⟨d, failure, later⟩ := ih onMoved.usable h
    cases later with
    | @skipContext row tail d tag failure cut' passed behind context' found tagged refused =>
      have tagOfFirst : 0xa0 ≤ x.tag ∧ x.tag ≤ 0xbf := by
        have accepted := atContext_eq on
        rw [front, cut] at accepted
        exact (Tag.isContext_iff x.tag).mp accepted.symm
      rw [onMoved.window.toList] at cut'
      refine ⟨d, failure, .skipContext (x :: row) tail ?_ ?_ ?_ (context'.trans context) found tagged
        refused⟩
      · rw [cut, cut', Encoding.rowBytes_cons, List.append_assoc]
      · intro y hy
        rcases List.mem_cons.mp hy with rfl | hy
        · exact tagOfFirst
        · exact passed y hy
      · rw [Encoding.rowBytes_cons, List.length_append, ← Nat.add_assoc]
        have place : moved.position = c.position + x.bytes.length := onMoved.window.start
        rw [onMoved.window.origin, place] at behind
        exact behind
  | case2 c front failure refused =>
    obtain ⟨tag, found, tagged⟩ := atContext_iff.mp front
    exact ⟨c, failure, .skipContext [] c.window.toList rfl (fun x hx => absurd hx List.not_mem_nil)
      (on_self usable) rfl found tagged (advance_eq_error_iff.mp refused)⟩
  | case3 c front => exact absurd (usable.symm.trans h) Bool.noConfusion

namespace FailsAt

/-- A failing move leaves the cursor poisoned where it fails. -/
theorem perform_eq (usable : c.usable = true) (h : c.FailsAt action d failure) :
    (c.perform action).1.refuses = true ∧ (c.perform action).2 = d.poisoned := by
  cases h with
  | next refused =>
    have refused := advance_eq_error_iff.mpr refused
    rw [perform, Cursor.next, refused]
    exact ⟨rfl, rfl⟩
  | expectNext refused =>
    have refused := advance_eq_error_iff.mpr refused
    rw [perform, Cursor.expectNext, refused]
    exact ⟨rfl, rfl⟩
  | @skipContext row tail d tag failure cut passed behind context found tagged refused =>
    have on : c.On c.window.origin c.position (Encoding.rowBytes row ++ tail) := cut ▸ on_self usable
    have tags : ∀ x ∈ row, x.tag.isContext = true := fun x hx => (Tag.isContext_iff x.tag).mpr (passed x hx)
    obtain ⟨d', skipped, behind', context'⟩ := exists_skipContext_eq row on tags
    obtain rfl := behind'.unique behind (context'.trans context.symm)
    have front : d'.atContext = true := atContext_iff.mpr ⟨tag, found, tagged⟩
    rw [perform, skipped, skipContext_of_error front (advance_eq_error_iff.mpr refused)]
    exact ⟨rfl, rfl⟩

theorem tagContext_eq (h : c.FailsAt action d failure) : d.tagContext = c.tagContext := by
  cases h with
  | next refused => rfl
  | expectNext refused => rfl
  | skipContext row tail cut passed behind context found tagged refused => exact context

theorem moves (h : c.FailsAt action d failure) : action.moves = true := by
  cases h with
  | _ => rfl

end FailsAt

/-- The actions that poison a usable cursor are the failing moves. -/
theorem unusable_perform_iff_failsAt (usable : c.usable = true) :
    (c.perform action).2.usable = false ↔ ∃ d failure, c.FailsAt action d failure := by
  constructor
  · intro h
    have done := c.performs action
    generalize (c.perform action).1 = answer at done
    generalize (c.perform action).2 = after at done h
    cases done with
    | next asked advanced =>
      obtain ⟨x, tail, -, on, -⟩ := (advance_eq_ok_iff (on_self usable)).mp advanced
      exact absurd (on.usable.symm.trans h) Bool.noConfusion
    | noNext refused => exact ⟨c, _, .next (advance_eq_error_iff.mp refused)⟩
    | raisedNext refused => exact ⟨c, _, .expectNext (advance_eq_error_iff.mp refused)⟩
    | skipContext => exact exists_failsAt_of_skipContext usable h
    | _ => exact absurd (usable.symm.trans h) Bool.noConfusion
  · rintro ⟨d, failure, fails⟩
    rw [(fails.perform_eq usable).2]
    rfl

/-- A move says whether it has failed. -/
theorem usable_skipContext (c : Cursor) : c.skipContext.2.usable = c.skipContext.1 := by
  fun_induction Cursor.skipContext c with
  | case1 c front moved advanced ih => exact ih
  | case2 c front failure refused => rfl
  | case3 c front => rfl

/-- The actions that poison a usable cursor are the moves that say that they failed. -/
theorem unusable_perform_iff_refuses (usable : c.usable = true) :
    (c.perform action).2.usable = false ↔ action.moves = true ∧ (c.perform action).1.refuses = true := by
  constructor
  · intro h
    obtain ⟨d, failure, fails⟩ := (unusable_perform_iff_failsAt usable).mp h
    exact ⟨fails.moves, (fails.perform_eq usable).1⟩
  · rintro ⟨moves, refuses⟩
    cases action with
    | next =>
      cases advanced : c.advance with
      | ok d => simp [perform, next, advanced, Outcome.refuses] at refuses
      | error failure => rw [perform, next, advanced]; rfl
    | expectNext =>
      cases advanced : c.advance with
      | ok d => simp [perform, expectNext, advanced, Outcome.refuses] at refuses
      | error failure => rw [perform, expectNext, advanced]; rfl
    | skipContext =>
      have refuses : (Outcome.flag c.skipContext.1).refuses = true := refuses
      show c.skipContext.2.usable = false
      rw [usable_skipContext]
      cases flag : c.skipContext.1 with
      | true =>
        rw [flag] at refuses
        cases refuses
      | false => rfl
    | _ => cases moves

/-! ### Poisoned cursors -/

/-- What is answered on a cursor that is not usable. -/
def refusal (c : Cursor) (failure : Failure) : Action → Outcome
  | .fork => .opened c
  | .tag => .tag none
  | .header => .failed failure
  | .enter _ => .nothing
  | .expectEnter kind => .raised ⟨kind.expectName, failure⟩
  | .content _ => .nothing
  | .expectContent kind => .raised ⟨kind.expectName, failure⟩
  | .next => .flag false
  | .expectNext => .raised ⟨"expectNext", failure⟩
  | .skipContext => .flag false

theorem poisoned_eq_self (unusable : c.usable = false) (empty : c.remaining = 0) : c.poisoned = c := by
  obtain ⟨window, tagContext, usable⟩ := c
  simp only at unusable
  subst unusable
  have nothing : window.take 0 = window := Window.ext rfl rfl ((Nat.zero_min _).trans empty.symm)
  show (⟨window.take 0, tagContext, false⟩ : Cursor) = _
  rw [nothing]

theorem element_of_unusable (unusable : c.usable = false) (rule : TagRule) :
    c.element rule = .error ⟨.unusable, c.position⟩ := by
  rw [element, unusable]
  rfl

theorem perform_of_unusable (unusable : c.usable = false) (empty : c.remaining = 0) (action : Action) :
    c.perform action = (c.refusal ⟨.unusable, c.position⟩ action, c) := by
  have refused := element_of_unusable unusable
  have stays := poisoned_eq_self unusable empty
  have untagged : c.tag? = none := by
    rw [tag?, unusable]
    rfl
  cases action with
  | fork => rfl
  | tag => rw [perform, untagged, refusal]
  | header => rw [perform, header, refused]; rfl
  | enter kind => rw [perform, enter, refused]; rfl
  | expectEnter kind => rw [perform, expectEnter, enter, refused]; rfl
  | content kind => rw [perform, content, refused]; rfl
  | expectContent kind => rw [perform, expectContent, content, refused]; rfl
  | next =>
    rw [perform, next, advance, refused]
    exact congrArg (Prod.mk _) stays
  | expectNext =>
    rw [perform, expectNext, advance, refused]
    exact congrArg (Prod.mk _) stays
  | skipContext =>
    have front : c.atContext = false := by
      rw [atContext, untagged]
      rfl
    rw [perform, skipContext_of_not_atContext front, unusable]
    rfl

end Cursor

/-! ### Sessions -/

theorem Action.opensKin_eq_true_iff (action : Action) {kin : Bool} :
    action.opensKin kin = true ↔ action = .fork ∧ kin = true := by
  cases action with
  | _ => simp [opensKin]

section

variable {Name : Type} [DecidableEq Name]

/-- Which names hold the cursor of `name`, or a fork that was taken of it since, after some steps with
these answers. -/
def kinOf (name : Name) (steps : List (Step Name)) (answers : List (Option Outcome)) : Name → Bool :=
  Session.notesAfter (fun st kin _ => st.opensKin kin) (fun other => other = name) steps answers

namespace Session

variable {s : Session Name} {name : Name} {c : Cursor}

/-- What makes the usable cursor of a name unusable. A step that puts another cursor under the name
leaves none to speak of. -/
structure PoisonedByFailure (s : Session Name) (name : Name) (c : Cursor) : Prop where
  refuses : ∀ st d, (s.step st).2.find? name = some d → s.placed? st name = none →
    (d.usable = false ↔ st.on = name ∧ st.action.moves = true ∧
      ∃ answer, (s.step st).1 = some answer ∧ answer.refuses = true)
  fails : ∀ st d, (s.step st).2.find? name = some d → s.placed? st name = none →
    (d.usable = false ↔ st.on = name ∧ ∃ place failure, c.FailsAt st.action place failure)
  left : ∀ st d place failure, (s.step st).2.find? name = some d → s.placed? st name = none →
    st.on = name → c.FailsAt st.action place failure →
    d.view = ⟨place.position, 0, false, c.tagContext⟩

/-- How an unusable cursor stays. Its kin are itself and the forks that are taken of it from now on. -/
structure StaysPoisoned (s : Session Name) (name : Name) (c : Cursor) : Prop where
  remaining : c.remaining = 0
  unchanged : ∀ steps other, kinOf name steps (s.run steps).1 other = true →
    (s.run steps).2.find? other = some c
  refuses : ∃ failure : Failure, failure.code = .unusableCursor ∧ failure.offset = c.position ∧
    ∀ steps st, kinOf name steps (s.run steps).1 st.on = true →
      ((s.run steps).2.step st).1 = some (c.refusal failure st.action)

theorem poisonedByFailure (found : s.find? name = some c) (usable : c.usable = true) :
    s.PoisonedByFailure name c := by
  have step : ∀ st d, (s.step st).2.find? name = some d → s.placed? st name = none →
      st.on = name ∧ (s.step st).1 = some (c.perform st.action).1 ∧ d = (c.perform st.action).2 ∨
        st.on ≠ name ∧ d = c := by
    intro st d held unplaced
    rw [find?_step_of_placed?_none unplaced, found] at held
    by_cases same : name = st.on
    · rw [if_pos same] at held
      exact .inl ⟨same.symm, step_fst (same ▸ found), (Option.some.inj held).symm⟩
    · rw [if_neg same] at held
      exact .inr ⟨fun other => same other.symm, (Option.some.inj held).symm⟩
  refine ⟨?_, ?_, ?_⟩
  · intro st d held unplaced
    rcases step st d held unplaced with ⟨on, answered, rfl⟩ | ⟨off, rfl⟩
    · rw [Cursor.unusable_perform_iff_refuses usable, answered]
      simp [on]
    · simp [off, usable]
  · intro st d held unplaced
    rcases step st d held unplaced with ⟨on, -, rfl⟩ | ⟨off, rfl⟩
    · rw [Cursor.unusable_perform_iff_failsAt usable]
      simp [on]
    · simp [off, usable]
  · intro st d place failure held unplaced on fails
    rcases step st d held unplaced with ⟨-, -, rfl⟩ | ⟨off, -⟩
    · rw [(fails.perform_eq usable).2, ← fails.tagContext_eq]
      show (⟨_, min 0 _, _, _⟩ : CursorView) = _
      rw [Nat.zero_min]
      rfl
    · exact absurd on off

/-- Where no action changes the cursor `c`, a step leaves all its kin as they are. -/
theorem find?_step_kin {kin : Name → Bool} (still : ∀ action, (c.perform action).2 = c)
    (h : ∀ other, kin other = true → s.find? other = some c) (st : Step Name) (other : Name)
    (isKin : renew (fun _ => st.opensKin kin) st (s.step st).1 kin other = true) :
    (s.step st).2.find? other = some c := by
  cases on : s.find? st.on with
  | none =>
    rw [step_of_find?_none on] at isKin ⊢
    exact h other isKin
  | some d =>
    rw [step_fst on] at isKin
    rw [find?_step on]
    simp only [renew, Option.bind_some] at isKin
    cases kept : kept? (d.perform st.action).1 st other with
    | some opened =>
      rw [kept] at isKin
      obtain ⟨fork, kinOn⟩ := st.action.opensKin_eq_true_iff.mp isKin
      cases on.symm.trans (h st.on kinOn)
      rw [fork] at kept
      cases (kept?_eq_some_iff.mp kept).2
      rfl
    | none =>
      rw [kept] at isKin
      have held := h other isKin
      rw [Option.none_or]
      by_cases same : other = st.on
      · rw [same, on] at held
        cases held
        rw [if_pos same, still]
      · rw [if_neg same, held]

theorem find?_run_kin (still : ∀ action, (c.perform action).2 = c) (steps : List (Step Name))
    {s : Session Name} {kin : Name → Bool} (h : ∀ other, kin other = true → s.find? other = some c)
    (other : Name)
    (isKin : notesAfter (fun st kin _ => st.opensKin kin) kin steps (s.run steps).1 other = true) :
    (s.run steps).2.find? other = some c := by
  induction steps generalizing s kin with
  | nil => exact h other isKin
  | cons st rest ih => exact ih (find?_step_kin still h st) isKin

theorem staysPoisoned (found : s.find? name = some c) (unusable : c.usable = false)
    (empty : c.remaining = 0) : s.StaysPoisoned name c := by
  have performed := Cursor.perform_of_unusable unusable empty
  have unchanged : ∀ steps other, kinOf name steps (s.run steps).1 other = true →
      (s.run steps).2.find? other = some c := by
    intro steps other isKin
    refine find?_run_kin (fun action => by rw [performed]) steps ?_ other isKin
    intro first isName
    rw [of_decide_eq_true isName, found]
  refine ⟨empty, unchanged, ⟨.unusable, c.position⟩, rfl, rfl, ?_⟩
  intro steps st isKin
  rw [step_fst (unchanged steps st.on isKin), performed]

/-- In every run a cursor becomes unusable by a failing move of its own only, and then for good. -/
theorem poisoned_by_own_failure_for_good (bytes : ByteArray) (root : Name) (before : List (Step Name)) :
    let s := ((ofCursor root (.ofBytes bytes)).run before).2
    ∀ name c, s.find? name = some c →
      (c.usable = true → s.PoisonedByFailure name c) ∧ (c.usable = false → s.StaysPoisoned name c) := by
  intro s name c found
  have reached : c.Reachable bytes := reachable_of_run found
  exact ⟨poisonedByFailure found, fun unusable =>
    staysPoisoned found unusable (reached.onTile.empty unusable)⟩

/-- An empty `[0]` element, and a `[1]` element of which four bytes are missing. -/
def cutOffContext : ByteArray := ⟨#[0xa0, 0x00, 0xa1, 0x05, 0x04]⟩

/-- Skipping fails behind the first element, and so does a fork that is taken later. -/
theorem poisoned_behind_context_element :
    (∃ place failure, (Cursor.ofBytes cutOffContext).FailsAt .skipContext place failure ∧
      place.position = 2) ∧
    (((ofCursor false (.ofBytes cutOffContext)).run [⟨false, .skipContext, none⟩]).2.run
        [⟨false, .fork, some true⟩, ⟨true, .next, none⟩]).2.find? true =
      some ⟨⟨cutOffContext, 2, 0, by decide⟩, none, false⟩ := by
  have usable := (poisoned_by_own_failure_for_good cutOffContext false [] false (.ofBytes cutOffContext)
    (by decide)).1 rfl
  have poisoned := (poisoned_by_own_failure_for_good cutOffContext false [⟨false, .skipContext, none⟩]
    false ⟨⟨cutOffContext, 2, 0, by decide⟩, none, false⟩ (by decide +kernel)).2 rfl
  obtain ⟨-, place, failure, fails⟩ := (usable.fails ⟨false, .skipContext, none⟩
    ⟨⟨cutOffContext, 2, 0, by decide⟩, none, false⟩ (by decide +kernel) (by decide +kernel)).mp rfl
  have left := usable.left ⟨false, .skipContext, none⟩ ⟨⟨cutOffContext, 2, 0, by decide⟩, none, false⟩ place
    failure (by decide +kernel) (by decide +kernel) rfl fails
  exact ⟨⟨place, failure, fails, (congrArg CursorView.position left).symm⟩,
    poisoned.unchanged [⟨false, .fork, some true⟩, ⟨true, .next, none⟩] true (by decide +kernel)⟩

end Session
end
end Ber
