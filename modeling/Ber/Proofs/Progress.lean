import Mathlib.Data.Set.Card
import Ber.Proofs.Nesting
import Ber.Proofs.Siblings

/-!
# Progress

However an input is made, a caller does not do more with it than its length allows. A header takes two
bytes at least, also where the content is empty, and every move leaves a header behind: so a chain of
moves has at most half as many moves as there are bytes (`two_mul_length_le_of_isChain`), and a walk that
tries every reader at every sibling and goes into every child comes to its end with calls nested no
deeper than that (`exists_walk`).

This bounds one way through the input. The ways are many, with forks, and with elements that can be opened
as two kinds, but together they do not find more headers than one of them could: a header is found only at
the start of a tile, and the elements of the tiles are listed by going through content and rest of each
element once (`Window.elementStarts`). As these have no byte in common with the header, the list is at
most half as long as the input.
-/

namespace Ber

/-! ### Moves -/

namespace Cursor

variable {c d : Cursor}

/-- A successful move: over the next element, or into its content. -/
inductive Move (c d : Cursor) : Prop where
  | past (moved : c.perform .next = (.flag true, d) ∨ c.perform .expectNext = (.flag true, d))
  | into {kind : Container} (opened : (c.perform (.enter kind)).1 = .opened d ∨
      (c.perform (.expectEnter kind)).1 = .opened d)

theorem move_iff : c.Move d ↔ c.advance = .ok d ∨ ∃ kind, c.enter kind = .ok d := by
  constructor
  · intro move
    cases move with
    | past moved =>
      refine .inl ?_
      cases advanced : c.advance with
      | ok e => simpa [perform, next, expectNext, advanced] using moved
      | error failure => simp [perform, next, expectNext, advanced] at moved
    | into opened =>
      refine .inr ?_
      rcases opened with opened | opened
      all_goals
        rcases perform_eq_opened opened with ⟨fork, -⟩ | ⟨-, entered⟩
        · cases fork
        · exact entered
  · rintro (advanced | ⟨kind, entered⟩)
    · exact .past (.inl (by rw [perform, next, advanced]))
    · exact .into (.inl (by rw [perform, entered]))

/-- A move leaves a header of two bytes at least behind. -/
theorem Move.remaining_add_two_le (h : c.Move d) : d.remaining + 2 ≤ c.remaining := by
  rcases move_iff.mp h with advanced | ⟨kind, entered⟩
  · obtain ⟨e, found, rfl⟩ := map_eq_ok_iff.mp advanced
    have sizes := (fills_of_element found).two_add_sizes_le
    show e.rest.size + 2 ≤ c.window.size
    omega
  · obtain ⟨e, found, rfl⟩ := map_eq_ok_iff.mp entered
    have sizes := (fills_of_element found).two_add_sizes_le
    show e.content.size + 2 ≤ c.window.size
    omega

theorem two_mul_length_le_of_isChain {trail : List Cursor} (h : List.IsChain Move (c :: trail)) :
    2 * trail.length ≤ c.remaining := by
  induction trail generalizing c with
  | nil => exact Nat.zero_le _
  | cons d trail ih =>
    obtain ⟨move, later⟩ := List.isChain_cons_cons.mp h
    have less := move.remaining_add_two_le
    have rest := ih later
    rw [List.length_cons]
    omega

/-- Skipping `[n]` elements is moving over them one after another, by way of the cursors of `trail`. At the
last one it stops or fails to move. -/
def SkipsAlong (c : Cursor) (trail : List Cursor) : Prop :=
  List.IsChain (fun a b => a.perform .next = (.flag true, b)) (c :: trail) ∧
    (c.skipContext = ((trail.getLastD c).usable, trail.getLastD c) ∨
      (trail.getLastD c).next.1 = false ∧ c.skipContext = (trail.getLastD c).next)

theorem exists_skipsAlong (c : Cursor) : ∃ trail, c.SkipsAlong trail := by
  fun_induction skipContext c with
  | case1 c front moved advanced ih =>
    obtain ⟨trail, chain, final⟩ := ih
    have step : c.perform .next = (.flag true, moved) := by rw [perform, next_of_advance advanced]
    refine ⟨moved :: trail, List.isChain_cons_cons.mpr ⟨step, chain⟩, ?_⟩
    rw [skipContext_of_advance front advanced, List.getLastD_cons]
    exact final
  | case2 c front failure refused =>
    have failed : c.next = (false, c.poisoned) := by rw [next, refused]
    refine ⟨[], List.isChain_singleton c, .inr ?_⟩
    rw [List.getLastD_nil, skipContext_of_error front refused, failed]
    exact ⟨rfl, rfl⟩
  | case3 c front =>
    exact ⟨[], List.isChain_singleton c, .inl (skipContext_of_not_atContext (Bool.eq_false_iff.mpr front))⟩

/-! ### A walk through everything -/

/-- The operations that look at the next element and do not move. -/
def readers : List Action :=
  [.tag, .header] ++
    [Container.context, .sequence, .set].flatMap (fun kind => [.enter kind, .expectEnter kind]) ++
    [Primitive.objectIdentifier, .octetString].flatMap fun kind => [.content kind, .expectContent kind]

/-- What all readers answer. -/
def readings (c : Cursor) : List Outcome := readers.map fun action => (c.perform action).1

/-- The children that the readers open, and the next sibling. -/
def onward (c : Cursor) : List Cursor :=
  c.readings.filterMap Outcome.cursor? ++ if c.next.1 then [c.next.2] else []

/-- The answers of a walk that tries every reader at every sibling and goes into every child, if the
calls need not be nested deeper than `depth`. -/
def walk : (depth : Nat) → Cursor → Option (List Outcome)
  | 0, _ => none
  | depth + 1, c => do
    let logs ← c.onward.mapM (walk depth)
    return c.readings ++ logs.flatten

theorem move_of_mem_onward (h : d ∈ c.onward) : c.Move d := by
  rcases List.mem_append.mp h with child | sibling
  · obtain ⟨answer, asked, opened⟩ := List.mem_filterMap.mp child
    obtain ⟨action, reader, rfl⟩ := List.mem_map.mp asked
    have answered : (c.perform action).1 = .opened d := by
      cases answer : (c.perform action).1 with
      | opened e =>
        rw [answer] at opened
        exact congrArg Outcome.opened (Option.some.inj opened)
      | _ =>
        rw [answer] at opened
        cases opened
    rcases perform_eq_opened answered with ⟨rfl, -⟩ | ⟨-, entered⟩
    · exact absurd reader (by decide)
    · exact move_iff.mpr (.inr entered)
  · split at sibling
    · next moved =>
      obtain ⟨e, advanced⟩ := exists_advance_of_next moved
      rw [next_of_advance advanced, List.mem_singleton] at sibling
      rw [sibling]
      exact move_iff.mpr (.inl advanced)
    · cases sibling

/-- Walks on several cursors come to their ends if each of them does. -/
theorem exists_mapM_walk {n : Nat} {cursors : List Cursor}
    (h : ∀ d ∈ cursors, ∃ log, ∀ depth, n ≤ depth → walk depth d = some log) :
    ∃ logs, ∀ depth, n ≤ depth → cursors.mapM (walk depth) = some logs := by
  induction cursors with
  | nil => exact ⟨[], fun depth _ => rfl⟩
  | cons d cursors ih =>
    obtain ⟨log, first⟩ := h d List.mem_cons_self
    obtain ⟨logs, later⟩ := ih fun e he => h e (List.mem_cons_of_mem _ he)
    refine ⟨log :: logs, fun depth deep => ?_⟩
    rw [List.mapM_cons, first depth deep, later depth deep]
    rfl

/-- The walk comes to its end, and with more room for nested calls it is the same walk. -/
theorem exists_walk (c : Cursor) :
    ∃ log, ∀ depth, c.remaining / 2 < depth → walk depth c = some log := by
  induction left : c.remaining using Nat.strongRecOn generalizing c with
  | _ n ih =>
    subst left
    -- after a move less depth is needed by one
    have onward : ∀ d ∈ c.onward,
        ∃ log, ∀ depth, c.remaining / 2 ≤ depth → walk depth d = some log := by
      intro d way
      have less := (move_of_mem_onward way).remaining_add_two_le
      obtain ⟨log, walked⟩ := ih d.remaining (by omega) d rfl
      exact ⟨log, fun depth deep => walked depth (by omega)⟩
    obtain ⟨logs, walked⟩ := exists_mapM_walk onward
    refine ⟨c.readings ++ logs.flatten, fun depth deep => ?_⟩
    cases depth with
    | zero => exact absurd deep (Nat.not_lt_zero _)
    | succ depth =>
      rw [walk, walked depth (Nat.le_of_lt_succ deep)]
      rfl

end Cursor

/-! ### All headers of an input -/

namespace Window

variable {v w : Window}

/-- Where the elements stand that are found in a window, also inside of other elements. -/
def elementStarts (w : Window) : List Nat :=
  match _h : Element.read .any w with
  | .ok e => w.start :: (elementStarts e.content ++ elementStarts e.rest)
  | .error _ => []
termination_by w.size
decreasing_by
  all_goals
    have sizes := (Element.fills_of_read _h).two_add_sizes_le
    omega

theorem elementStarts_of_read {e : Element} (h : Element.read .any w = .ok e) :
    w.elementStarts = w.start :: (e.content.elementStarts ++ e.rest.elementStarts) := by
  rw [elementStarts]
  split
  · next e' read =>
    cases h.symm.trans read
    rfl
  · next failure refused => cases h.symm.trans refused

/-- Each element has two bytes of the window to itself. -/
theorem two_mul_length_elementStarts_le (w : Window) : 2 * w.elementStarts.length ≤ w.size := by
  fun_induction elementStarts w with
  | case1 w e read inContent inRest =>
    have sizes := (Element.fills_of_read read).two_add_sizes_le
    rw [List.length_cons, List.length_append]
    omega
  | case2 w failure refused => exact Nat.zero_le _

/-- Empty elements, of either length form, are as many as that. -/
example : (Window.ofBytes ⟨#[0x05, 0x80, 0x30, 0x00]⟩).elementStarts = [0, 2] := by decide +kernel

theorem Tile.start_mem_elementStarts {e : Element} (h : w.Tile v) (found : Element.read .any v = .ok e) :
    v.start ∈ w.elementStarts := by
  induction h with
  | self =>
    rw [elementStarts_of_read found]
    exact List.mem_cons_self
  | content read _ ih =>
    rw [elementStarts_of_read read]
    exact List.mem_cons_of_mem _ (List.mem_append_left _ (ih found))
  | rest read _ ih =>
    rw [elementStarts_of_read read]
    exact List.mem_cons_of_mem _ (List.mem_append_right _ (ih found))

end Window

/-- The places where some cursor of some run on `bytes` finds a header. -/
def headerOffsets (bytes : ByteArray) : Set Nat :=
  {place | ∃ (Name : Type) (_ : DecidableEq Name) (root name : Name) (steps : List (Step Name))
    (c : Cursor) (h : Header),
    ((Session.ofCursor root (.ofBytes bytes)).run steps).2.find? name = some c ∧ c.header = .ok h ∧
      c.position = place}

theorem mem_elementStarts_of_mem_headerOffsets {bytes : ByteArray} {place : Nat}
    (h : place ∈ headerOffsets bytes) : place ∈ (Window.ofBytes bytes).elementStarts := by
  obtain ⟨Name, _, root, name, steps, c, header, held, found, rfl⟩ := h
  obtain ⟨e, read, -⟩ := map_eq_ok_iff.mp found
  have tile := (Session.reachable_of_run held).onTile.tile (Cursor.usable_of_element read)
  exact tile.start_mem_elementStarts (Cursor.read_of_element read)

theorem encard_headerOffsets_le (bytes : ByteArray) :
    (headerOffsets bytes).encard ≤ (bytes.size / 2 : Nat) := by
  have listed : headerOffsets bytes ⊆ ((Window.ofBytes bytes).elementStarts.toFinset : Set Nat) := by
    intro place h
    rw [Finset.mem_coe, List.mem_toFinset]
    exact mem_elementStarts_of_mem_headerOffsets h
  have few : (Window.ofBytes bytes).elementStarts.toFinset.card ≤ bytes.size / 2 := by
    have distinct := (Window.ofBytes bytes).elementStarts.toFinset_card_le
    have long := (Window.ofBytes bytes).two_mul_length_elementStarts_le
    have whole : (Window.ofBytes bytes).size = bytes.size := rfl
    omega
  calc (headerOffsets bytes).encard
      ≤ ((Window.ofBytes bytes).elementStarts.toFinset : Set Nat).encard := Set.encard_le_encard listed
    _ = (Window.ofBytes bytes).elementStarts.toFinset.card := Set.encard_coe_eq_coe_finsetCard _
    _ ≤ (bytes.size / 2 : Nat) := by exact_mod_cast few

/-- Every move makes progress, and no input makes a caller find more than half as many elements as it has
bytes, be it along one way or along all of them. -/
structure MakesProgress (bytes : ByteArray) : Prop where
  moves : ∀ c d : Cursor, c.Move d → d.remaining + 2 ≤ c.remaining
  skips : ∀ c : Cursor, ∃ trail, c.SkipsAlong trail
  chains : ∀ trail, List.IsChain Cursor.Move (.ofBytes bytes :: trail) → trail.length ≤ bytes.size / 2
  walks : ∃ log, ∀ depth, bytes.size / 2 < depth → Cursor.walk depth (.ofBytes bytes) = some log
  headers : (headerOffsets bytes).encard ≤ (bytes.size / 2 : Nat)

theorem makes_progress (bytes : ByteArray) : MakesProgress bytes := by
  refine ⟨fun c d move => move.remaining_add_two_le, Cursor.exists_skipsAlong, ?_,
    Cursor.exists_walk (.ofBytes bytes), encard_headerOffsets_le bytes⟩
  intro trail chain
  have short : 2 * trail.length ≤ bytes.size := Cursor.two_mul_length_le_of_isChain chain
  omega

end Ber
