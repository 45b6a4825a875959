import Ber.Session
import Ber.Proofs.Reading

/-!
# Sibling iteration

Calling `next` over and over undoes the concatenation of elements. On a region that is a row of
encodings and then a tail, each call passes over one encoding of the row, and the header before the
call is the one of that encoding, whatever the tail looks like (`nexts_rowBytes`). Conversely the bytes
that successful calls passed over are such a row (`exists_row_of_nexts`), and since the code is prefix
free there is no other row with these bytes. The main theorem is both.
-/

namespace Ber
namespace Cursor

variable {c d : Cursor} {origin : ByteArray} {start : Nat} {bytes tail : List UInt8}

/-- The cursor after `n` calls of `next`. -/
def nexts : Nat → Cursor → Cursor
  | 0, c => c
  | n + 1, c => nexts n c.next.2

theorem next_of_advance (h : c.advance = .ok d) : c.next = (true, d) := by
  rw [next, h]

theorem exists_advance_of_next (h : c.next.1 = true) : ∃ d, c.advance = .ok d := by
  cases found : c.advance with
  | ok d => exact ⟨d, rfl⟩
  | error failure => simp [next, found] at h

theorem next_of_header_error {failure : Failure} (h : c.header = .error failure) :
    c.next = (false, c.poisoned) ∧
      c.expectNext = (.error ⟨"expectNext", failure⟩, c.poisoned) := by
  rw [next, expectNext, advance_eq_error_iff.mpr h]
  exact ⟨rfl, rfl⟩

/-- A usable cursor with nothing left fails where its region ends. -/
theorem header_at_end (h : c.On origin start []) :
    c.header = .error ⟨.missingTag, (start : Nat)⟩ := by
  rw [header, element, if_pos h.usable, Element.read_eq_scan, h.window.toList, h.window.start]
  rfl

theorem remaining_eq (h : c.On origin start bytes) : c.remaining = bytes.length := h.window.size

/-- The calls pass over one encoding each. -/
theorem nexts_rowBytes (row : List Encoding) (h : c.On origin start (Encoding.rowBytes row ++ tail)) :
    (c.nexts row.length).On origin (start + (Encoding.rowBytes row).length) tail ∧
      ∀ (k : Nat) (hk : k < row.length),
        (c.nexts k).header = .ok row[k].header ∧ (c.nexts k).next.1 = true := by
  induction row generalizing c start with
  | nil => exact ⟨h, fun k hk => absurd hk (Nat.not_lt_zero k)⟩
  | cons x row ih =>
    rw [Encoding.rowBytes_cons, List.append_assoc] at h
    obtain ⟨d, advanced, on, -⟩ := exists_advance h
    have moved := next_of_advance advanced
    obtain ⟨final, each⟩ := ih on
    refine ⟨?_, ?_⟩
    · rw [Encoding.rowBytes_cons, List.length_append, ← Nat.add_assoc, List.length_cons, nexts,
        moved]
      exact final
    · intro k hk
      cases k with
      | zero => exact ⟨(header_eq_ok_iff h).mpr ⟨x, _, rfl, rfl⟩, by rw [nexts, moved]⟩
      | succ k =>
        rw [nexts, moved]
        exact each k (Nat.lt_of_succ_lt_succ hk)

/-- What successful calls passed over is a row of encodings. -/
theorem exists_row_of_nexts (n : Nat) (h : c.On origin start bytes)
    (moved : ∀ k < n, (c.nexts k).next.1 = true) :
    ∃ row tail, row.length = n ∧ bytes = Encoding.rowBytes row ++ tail := by
  induction n generalizing c start bytes with
  | zero => exact ⟨[], bytes, rfl, rfl⟩
  | succ n ih =>
    obtain ⟨d, advanced⟩ := exists_advance_of_next (moved 0 (Nat.succ_pos n))
    have next := next_of_advance advanced
    obtain ⟨x, after, rfl, on, -⟩ := (advance_eq_ok_iff h).mp advanced
    have later : ∀ k < n, (d.nexts k).next.1 = true := by
      intro k hk
      have call := moved (k + 1) (Nat.succ_lt_succ hk)
      rw [nexts, show c.next = (true, d) from next] at call
      exact call
    obtain ⟨row, tail, length, rfl⟩ := ih on later
    exact ⟨x :: row, tail, by rw [List.length_cons, length], by simp⟩

/-- The bytes of the array from a cursor on, as far as they are `s`. -/
theorem extract_of_on {s : List UInt8} (h : c.On origin start (s ++ tail)) :
    (origin.extract start (start + s.length)).data.toList = s := by
  have shown := h.window.take
  have view := shown.toList
  rw [Window.toList, Window.bytes, Window.stop, shown.origin, shown.start, shown.size] at view
  exact view

/-- Sibling iteration undoes the concatenation of elements, and there is only one way to undo it. -/
theorem siblings_undo_concatenation :
    (∀ (c : Cursor) (row : List Encoding) (tail : List UInt8), c.usable = true →
      c.window.toList = Encoding.rowBytes row ++ tail →
        (∀ (k : Nat) (hk : k < row.length),
          (c.nexts k).header = .ok row[k].header ∧ (c.nexts k).next.1 = true) ∧
        (c.nexts row.length).usable = true ∧
        (c.nexts row.length).position = c.position + (Encoding.rowBytes row).length ∧
        (c.nexts row.length).remaining = tail.length ∧
        (c.nexts row.length).window.toList = tail ∧
        (tail = [] → ∃ failure : Failure,
          failure.code = .truncatedInput ∧ failure.offset = (c.position + c.remaining : Nat) ∧
          (c.nexts row.length).header = .error failure ∧
          (c.nexts row.length).expectNext.1 = .error ⟨"expectNext", failure⟩ ∧
          (c.nexts row.length).next.1 = false ∧
          (c.nexts row.length).next.2.usable = false ∧
          (c.nexts row.length).next.2.remaining = 0 ∧
          (c.nexts row.length).next.2.position = c.position + c.remaining)) ∧
    (∀ (c : Cursor) (n : Nat), (∀ k < n, (c.nexts k).next.1 = true) →
      ∃ row : List Encoding, row.length = n ∧
        (c.window.origin.extract c.position (c.nexts n).position).data.toList
          = Encoding.rowBytes row ∧
        (∀ (k : Nat) (hk : k < row.length), (c.nexts k).header = .ok row[k].header) ∧
        ∀ other : List Encoding,
          Encoding.rowBytes other
            = (c.window.origin.extract c.position (c.nexts n).position).data.toList →
          other = row) := by
  constructor
  · intro c row tail usable shown
    have on : c.On c.window.origin c.position (Encoding.rowBytes row ++ tail) :=
      shown ▸ on_self usable
    obtain ⟨final, each⟩ := nexts_rowBytes row on
    refine ⟨each, final.usable, final.window.start, remaining_eq final, final.window.toList, ?_⟩
    rintro rfl
    have stop := header_at_end final
    have place : c.position + (Encoding.rowBytes row).length = c.position + c.remaining := by
      rw [remaining_eq on, List.append_nil]
    rw [place] at stop
    obtain ⟨refused, raised⟩ := next_of_header_error stop
    refine ⟨_, rfl, rfl, stop, ?_⟩
    rw [refused, raised]
    exact ⟨rfl, rfl, rfl, Nat.zero_min _, final.window.start.trans place⟩
  · intro c n moved
    cases n with
    | zero =>
      have empty : (c.window.origin.extract c.position c.position).data.toList = [] := by simp
      refine ⟨[], rfl, empty, fun k hk => absurd hk (Nat.not_lt_zero k), ?_⟩
      intro other same
      exact Encoding.rowBytes_inj (same.trans empty)
    | succ n =>
      obtain ⟨d, advanced⟩ := exists_advance_of_next (moved 0 (Nat.succ_pos n))
      have on := on_self (usable_of_advance advanced)
      obtain ⟨row, tail, length, cut⟩ := exists_row_of_nexts (n + 1) on moved
      rw [cut] at on
      obtain ⟨final, each⟩ := nexts_rowBytes row on
      rw [length] at final
      have passed := extract_of_on on
      rw [← final.window.start] at passed
      refine ⟨row, length, passed, fun k hk => (each k hk).1, ?_⟩
      intro other same
      exact Encoding.rowBytes_inj (same.trans passed)

/-- An element of each length form, the last with a length field of no octets after its first. -/
def threeForms : List Encoding :=
  [⟨0x04, .short 1 (by decide), [0xaa], rfl⟩,
    ⟨0xff, .long [0x00, 0x01] (by decide) (by decide), [0xbb], rfl⟩,
    ⟨0x05, .long [] (by decide) (by decide), [], rfl⟩]

def onThreeForms : Cursor :=
  .ofBytes ⟨#[0x04, 0x01, 0xaa, 0xff, 0x82, 0x00, 0x01, 0xbb, 0x05, 0x80]⟩

theorem siblings_of_three_forms :
    (onThreeForms.nexts 3).position = 10 ∧ (onThreeForms.nexts 3).next.1 = false ∧
      ∀ other : List Encoding,
        Encoding.rowBytes other
          = (onThreeForms.window.origin.extract onThreeForms.position
              (onThreeForms.nexts 3).position).data.toList →
        other.length = 3 := by
  have forward := siblings_undo_concatenation.1 onThreeForms threeForms [] rfl (by decide)
  obtain ⟨row, length, -, -, only⟩ := siblings_undo_concatenation.2 onThreeForms 3 (by decide)
  obtain ⟨-, -, position, -, -, stop⟩ := forward
  obtain ⟨failure, -, -, -, -, refused, -⟩ := stop rfl
  refine ⟨position, refused, ?_⟩
  intro other same
  rw [only other same, length]

end Cursor
end Ber
