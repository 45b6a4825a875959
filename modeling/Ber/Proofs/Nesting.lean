import Ber.Proofs.Actions
import Ber.Proofs.Reading
import Ber.Proofs.Sessions

/-!
# Nesting

The regions that are handed out are nested as the elements are, also where the input is malformed: any
two of them are apart, or one lies inside the other.

Reading cuts a window into the content of the element at its front and what follows the element. The
windows that are found by cutting again and again are its tiles (`Window.Tile`). Which tile is cut how
does not depend on who reads it, so all readers of one array, on whatever ways they came, see tiles of
the same window (`Cursor.Reachable.onTile`). The ways to two tiles are the same up to a window where one
of them ends, and then one tile lies inside the other, or where one goes into the content and the other
on to what follows, and then the tiles are apart (`Window.Tile.nested`).
-/

namespace Ber

theorem Element.read_any_of_read {rule : TagRule} {w : Window} {e : Element} (h : read rule w = .ok e) :
    read .any w = .ok e := by
  obtain ⟨x, tail, front, -, spells⟩ := (read_eq_ok_iff w.shows_self).mp h
  exact (read_eq_ok_iff w.shows_self).mpr ⟨x, tail, front, rfl, spells⟩

namespace Window

variable {u v w : Window}

/-- As intervals of places, the windows are apart, or one lies inside the other. -/
def Nested (v w : Window) : Prop :=
  v.stop ≤ w.start ∨ w.stop ≤ v.start ∨
    (w.start ≤ v.start ∧ v.stop ≤ w.stop) ∨ (v.start ≤ w.start ∧ w.stop ≤ v.stop)

/-- The first window lies inside the second. -/
structure LiesIn (v w : Window) : Prop where
  origin : v.origin = w.origin
  start : w.start ≤ v.start
  stop : v.stop ≤ w.stop

theorem LiesIn.trans (h : u.LiesIn v) (h' : v.LiesIn w) : u.LiesIn w :=
  ⟨h.origin.trans h'.origin, Nat.le_trans h'.start h.start, Nat.le_trans h.stop h'.stop⟩

theorem LiesIn.nested (h : v.LiesIn w) : v.Nested w := .inr (.inr (.inl ⟨h.start, h.stop⟩))

theorem Nested.symm (h : v.Nested w) : w.Nested v := by
  unfold Nested at h ⊢
  omega

/-- A window in which nothing is left is nested with every other one. -/
theorem nested_of_size_eq_zero (h : v.size = 0) (w : Window) : v.Nested w := by
  unfold Nested stop
  omega

/-! ### Tiles -/

/-- The windows that are cut out of a window, from element to element. -/
inductive Tile : Window → Window → Prop where
  | self {w : Window} : Tile w w
  | content {w v : Window} {e : Element} (read : Element.read .any w = .ok e)
      (inner : Tile e.content v) : Tile w v
  | rest {w v : Window} {e : Element} (read : Element.read .any w = .ok e) (later : Tile e.rest v) :
      Tile w v

theorem content_liesIn {e : Element} (h : e.Fills w) : e.content.LiesIn w := by
  have start := h.contentStart
  have size := h.size
  refine ⟨h.contentOrigin, ?_, ?_⟩
  · omega
  · unfold stop
    omega

theorem rest_liesIn {e : Element} (h : e.Fills w) : e.rest.LiesIn w := by
  have start := h.restStart
  have size := h.size
  refine ⟨h.restOrigin, ?_, ?_⟩
  · omega
  · unfold stop
    omega

namespace Tile

theorem liesIn (h : w.Tile v) : v.LiesIn w := by
  induction h with
  | self => exact ⟨rfl, Nat.le_refl _, Nat.le_refl _⟩
  | content read _ ih => exact ih.trans (content_liesIn (Element.fills_of_read read))
  | rest read _ ih => exact ih.trans (rest_liesIn (Element.fills_of_read read))

theorem trans (h : w.Tile v) (h' : v.Tile u) : w.Tile u := by
  induction h with
  | self => exact h'
  | content read _ ih => exact .content read (ih h')
  | rest read _ ih => exact .rest read (ih h')

/-- A tile of the content of an element is apart from every tile of what follows the element. -/
theorem nested_of_content_of_rest {e : Element} (read : Element.read .any w = .ok e)
    (inner : e.content.Tile u) (later : e.rest.Tile v) : u.Nested v := by
  have fills := Element.fills_of_read read
  have contentStart := fills.contentStart
  have restStart := fills.restStart
  have inside := inner.liesIn.stop
  have behind := later.liesIn.start
  refine .inl ?_
  unfold stop at inside ⊢
  omega

/-- Two tiles of one window are apart, or one lies inside the other. -/
theorem nested (h : w.Tile u) (h' : w.Tile v) : u.Nested v := by
  -- along the way to the first tile, as long as the way to the second is the same
  induction h with
  | self => exact h'.liesIn.nested.symm
  | @content w u e read inner ih =>
    cases h' with
    | self => exact (content read inner).liesIn.nested
    | content read' inner' =>
      cases read.symm.trans read'
      exact ih inner'
    | rest read' later' =>
      cases read.symm.trans read'
      exact nested_of_content_of_rest read inner later'
  | @rest w u e read later ih =>
    cases h' with
    | self => exact (rest read later).liesIn.nested
    | content read' inner' =>
      cases read.symm.trans read'
      exact (nested_of_content_of_rest read inner' later).symm
    | rest read' later' =>
      cases read.symm.trans read'
      exact ih later'

end Tile
end Window

/-! ### Cursors stand on tiles -/

/-- What is left to the cursor is a tile of the whole of `bytes`, or nothing. -/
structure Cursor.OnTile (bytes : ByteArray) (c : Cursor) : Prop where
  tile : c.usable = true → (Window.ofBytes bytes).Tile c.window
  empty : c.usable = false → c.remaining = 0

namespace Cursor

variable {bytes : ByteArray} {c d : Cursor} {rule : TagRule} {e : Element}

namespace OnTile

theorem content (h : c.OnTile bytes) (found : c.element rule = .ok e) :
    (Window.ofBytes bytes).Tile e.content := by
  have read := Element.read_any_of_read (read_of_element found)
  exact (h.tile (usable_of_element found)).trans (.content read .self)

theorem rest (h : c.OnTile bytes) (found : c.element rule = .ok e) :
    (Window.ofBytes bytes).Tile e.rest := by
  have read := Element.read_any_of_read (read_of_element found)
  exact (h.tile (usable_of_element found)).trans (.rest read .self)

theorem advance (h : c.OnTile bytes) (advanced : c.advance = .ok d) : d.OnTile bytes := by
  have usable := usable_of_advance advanced
  obtain ⟨e, found, rfl⟩ := map_eq_ok_iff.mp advanced
  exact ⟨fun _ => h.rest found, fun unusable => absurd (usable.symm.trans unusable) Bool.noConfusion⟩

theorem poisoned (c : Cursor) : c.poisoned.OnTile bytes :=
  ⟨fun usable => Bool.noConfusion usable, fun _ => Nat.zero_min _⟩

theorem opened (h : c.OnTile bytes) {action : Action} (answer : (c.perform action).1 = .opened d) :
    d.OnTile bytes := by
  rcases perform_eq_opened answer with ⟨-, rfl⟩ | ⟨-, kind, entered⟩
  · exact h
  · obtain ⟨e, found, rfl⟩ := map_eq_ok_iff.mp entered
    exact ⟨fun _ => h.content found, fun unusable => Bool.noConfusion unusable⟩

end OnTile

theorem Reachable.onTile (h : c.Reachable bytes) : c.OnTile bytes := by
  induction h with
  | root => exact ⟨fun _ => .self, fun unusable => Bool.noConfusion unusable⟩
  | after _ action ih =>
    exact perform_preserves (fun _ _ on => on.advance) (fun c _ => OnTile.poisoned c) ih action
  | opened _ answer ih => exact ih.opened answer

end Cursor

/-! ### What runs hand out -/

/-- The window of a cursor that was opened, or of a range. -/
def Outcome.window? : Outcome → Option Window
  | opened cursor => some cursor.window
  | range content => some content
  | _ => none

/-- Some run on `bytes` hands out the window. -/
def HandedOut (bytes : ByteArray) (w : Window) : Prop :=
  ∃ (Name : Type) (_ : DecidableEq Name) (root : Name) (steps : List (Step Name)) (outcome : Outcome),
    some outcome ∈ ((Session.ofCursor root (.ofBytes bytes)).run steps).1 ∧ outcome.window? = some w

theorem HandedOut.tile_or_empty {bytes : ByteArray} {w : Window} (h : HandedOut bytes w) :
    (Window.ofBytes bytes).Tile w ∨ w.size = 0 := by
  obtain ⟨Name, _, root, steps, outcome, answered, handed⟩ := h
  obtain ⟨c, action, reached, rfl⟩ := Session.exists_reachable_of_mem_run answered
  cases answer : (c.perform action).1 with
  | opened d =>
    rw [answer] at handed
    cases handed
    have on := reached.onTile.opened answer
    cases usable : d.usable with
    | true => exact .inl (on.tile usable)
    | false => exact .inr (on.empty usable)
  | range content =>
    rw [answer] at handed
    cases handed
    obtain ⟨kind, read⟩ := Cursor.perform_eq_range answer
    obtain ⟨e, found, rfl⟩ := map_eq_ok_iff.mp read
    exact .inl (reached.onTile.content found)
  | _ =>
    rw [answer] at handed
    cases handed

/-- Any two regions that are handed out in runs on one array are apart, or one lies inside the other. -/
theorem handed_out_regions_are_nested (bytes : ByteArray) (v w : Window) (first : HandedOut bytes v)
    (second : HandedOut bytes w) : v.Nested w := by
  rcases first.tile_or_empty with tile | empty
  · rcases second.tile_or_empty with tile' | empty'
    · exact tile.nested tile'
    · exact (Window.nested_of_size_eq_zero empty' v).symm
  · exact Window.nested_of_size_eq_zero empty w

/-- A sequence of an element that is a sequence as well as a `[16]` element, and of one that is cut off. -/
def cutOffSequence : ByteArray := ⟨#[0x30, 0x05, 0xb0, 0x02, 0x04, 0x00, 0x30, 0xff]⟩

/-- What a fork reads after its source has failed lies in what another run opens as a `[16]` element. -/
theorem region_behind_poisoned_fork_is_nested :
    HandedOut cutOffSequence ⟨cutOffSequence, 4, 2, by decide⟩ ∧
      HandedOut cutOffSequence ⟨cutOffSequence, 6, 0, by decide⟩ ∧
      Window.Nested ⟨cutOffSequence, 4, 2, by decide⟩ ⟨cutOffSequence, 6, 0, by decide⟩ := by
  have asContext : HandedOut cutOffSequence ⟨cutOffSequence, 4, 2, by decide⟩ :=
    ⟨Nat, inferInstance, 0, [⟨0, .enter .sequence, some 1⟩, ⟨1, .enter .context, none⟩],
      .opened ⟨⟨cutOffSequence, 4, 2, by decide⟩, some 16, true⟩, by decide, rfl⟩
  have asSequence : HandedOut cutOffSequence ⟨cutOffSequence, 6, 0, by decide⟩ :=
    ⟨Nat, inferInstance, 0, [⟨0, .expectEnter .sequence, some 1⟩, ⟨1, .fork, some 2⟩, ⟨1, .next, none⟩,
      ⟨1, .next, none⟩, ⟨2, .enter .sequence, some 3⟩, ⟨3, .content .octetString, none⟩],
      .range ⟨cutOffSequence, 6, 0, by decide⟩, by decide, rfl⟩
  exact ⟨asContext, asSequence, handed_out_regions_are_nested _ _ _ asContext asSequence⟩

end Ber
