import Ber.Session

/-!
# What an action can do

`Cursor.Performs` lists what an action may answer and which cursor it may leave, each case with the
read or the move that it comes from. An action does nothing else (`performs`), so what holds of every
action is shown by these cases.
-/

namespace Ber.Cursor

/-- The answer of an action on `c`, and the cursor afterwards. -/
inductive Performs (c : Cursor) : Action → Outcome → Cursor → Prop where
  | fork : Performs c .fork (.opened c) c
  | tag : Performs c .tag (.tag c.tag?) c
  | header {h : Header} (read : c.header = .ok h) : Performs c .header (.header h) c
  | noHeader {failure : Failure} (refused : c.header = .error failure) :
      Performs c .header (.failed failure) c
  | enter {kind : Container} {action : Action} {child : Cursor}
      (asked : action = .enter kind ∨ action = .expectEnter kind) (entered : c.enter kind = .ok child) :
      Performs c action (.opened child) c
  | noChild {kind : Container} {failure : Failure} (refused : c.enter kind = .error failure) :
      Performs c (.enter kind) .nothing c
  | raisedChild {kind : Container} {failure : Failure} (refused : c.enter kind = .error failure) :
      Performs c (.expectEnter kind) (.raised ⟨kind.expectName, failure⟩) c
  | content {kind : Primitive} {action : Action} {range : Window}
      (asked : action = .content kind ∨ action = .expectContent kind)
      (read : c.content kind = .ok range) : Performs c action (.range range) c
  | noContent {kind : Primitive} {failure : Failure} (refused : c.content kind = .error failure) :
      Performs c (.content kind) .nothing c
  | raisedContent {kind : Primitive} {failure : Failure} (refused : c.content kind = .error failure) :
      Performs c (.expectContent kind) (.raised ⟨kind.expectName, failure⟩) c
  | next {action : Action} {moved : Cursor} (asked : action = .next ∨ action = .expectNext)
      (advanced : c.advance = .ok moved) : Performs c action (.flag true) moved
  | noNext {failure : Failure} (refused : c.advance = .error failure) :
      Performs c .next (.flag false) c.poisoned
  | raisedNext {failure : Failure} (refused : c.advance = .error failure) :
      Performs c .expectNext (.raised ⟨"expectNext", failure⟩) c.poisoned
  | skipContext : Performs c .skipContext (.flag c.skipContext.1) c.skipContext.2

variable {c d : Cursor} {w : Window} {action : Action}

theorem performs (c : Cursor) (action : Action) :
    c.Performs action (c.perform action).1 (c.perform action).2 := by
  cases action with
  | fork => exact .fork
  | tag => exact .tag
  | header =>
    cases found : c.header with
    | ok h =>
      rw [perform, found]
      exact .header found
    | error failure =>
      rw [perform, found]
      exact .noHeader found
  | enter kind =>
    cases found : c.enter kind with
    | ok child =>
      rw [perform, found]
      exact .enter (.inl rfl) found
    | error failure =>
      rw [perform, found]
      exact .noChild found
  | expectEnter kind =>
    cases found : c.enter kind with
    | ok child =>
      rw [perform, expectEnter, found]
      exact .enter (.inr rfl) found
    | error failure =>
      rw [perform, expectEnter, found]
      exact .raisedChild found
  | content kind =>
    cases found : c.content kind with
    | ok range =>
      rw [perform, found]
      exact .content (.inl rfl) found
    | error failure =>
      rw [perform, found]
      exact .noContent found
  | expectContent kind =>
    cases found : c.content kind with
    | ok range =>
      rw [perform, expectContent, found]
      exact .content (.inr rfl) found
    | error failure =>
      rw [perform, expectContent, found]
      exact .raisedContent found
  | next =>
    cases found : c.advance with
    | ok moved =>
      rw [perform, next, found]
      exact .next (.inl rfl) found
    | error failure =>
      rw [perform, next, found]
      exact .noNext found
  | expectNext =>
    cases found : c.advance with
    | ok moved =>
      rw [perform, expectNext, found]
      exact .next (.inr rfl) found
    | error failure =>
      rw [perform, expectNext, found]
      exact .raisedNext found
  | skipContext => exact .skipContext

/-- A cursor is opened by a fork, or on the content of an element of the kind that was asked for. -/
theorem perform_eq_opened_by (h : (c.perform action).1 = .opened d) :
    (action = .fork ∧ d = c) ∨
      ∃ kind, (action = .enter kind ∨ action = .expectEnter kind) ∧ c.enter kind = .ok d := by
  have done := c.performs action
  rw [h] at done
  generalize (c.perform action).2 = after at done
  cases done with
  | fork => exact .inl ⟨rfl, rfl⟩
  | enter asked entered => exact .inr ⟨_, asked, entered⟩

/-- A cursor is opened by a fork, or on the content of an element. -/
theorem perform_eq_opened (h : (c.perform action).1 = .opened d) :
    (action = .fork ∧ d = c) ∨ (action ≠ .fork ∧ ∃ kind, c.enter kind = .ok d) := by
  rcases perform_eq_opened_by h with fork | ⟨kind, rfl | rfl, entered⟩
  · exact .inl fork
  · exact .inr ⟨Action.noConfusion, kind, entered⟩
  · exact .inr ⟨Action.noConfusion, kind, entered⟩

theorem perform_eq_range (h : (c.perform action).1 = .range w) : ∃ kind, c.content kind = .ok w := by
  have done := c.performs action
  rw [h] at done
  generalize (c.perform action).2 = after at done
  cases done with
  | content asked read => exact ⟨_, read⟩

/-- What moving over an element preserves, and being poisoned, every action preserves. -/
theorem perform_preserves {P : Cursor → Prop} (advance : ∀ c d, P c → c.advance = .ok d → P d)
    (poisoned : ∀ c, P c → P c.poisoned) (h : P c) (action : Action) : P (c.perform action).2 := by
  have skip : ∀ c : Cursor, P c → P c.skipContext.2 := by
    intro c h
    fun_induction skipContext c with
    | case1 c front moved advanced ih => exact ih (advance c moved h advanced)
    | case2 c front failure refused => exact poisoned c h
    | case3 c front => exact h
  have done := c.performs action
  generalize (c.perform action).1 = answer at done
  generalize (c.perform action).2 = after at done
  cases done with
  | next asked advanced => exact advance c after h advanced
  | noNext refused => exact poisoned c h
  | raisedNext refused => exact poisoned c h
  | skipContext => exact skip c h
  | _ => exact h

end Ber.Cursor
