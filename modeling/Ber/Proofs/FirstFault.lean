import Mathlib.Data.List.Induction
import Mathlib.Data.Nat.Find
import Ber.Proofs.Reading
import Ber.Proofs.Subidentifiers

/-!
# The first fault in an object identifier

Every content is cut into subidentifiers in one way, if the last of them may be left open: a `Cut` holds
those that are closed and the bytes behind them. Reading goes from cut to cut. One more byte either leads
beyond `maxExact`, and reading ends there, or it is pushed onto the cut (`Cut.read_cons`). So reading the
bytes before a place leads to their cut, unless one of them is too large (`subidentifiers_append_eq_read`),
and from the cut it is told what is found at the place: a byte that is too large, the end inside a
subidentifier, or the end behind a row of them.

`RendersExactly` says what is shown for every content: the first byte that is too large, whatever follows
it; else the end, if it stands inside a subidentifier; else the arcs. Of the groups in a row only the values
are seen, so zeros in front of them change nothing (`Subidentifier.value_padded`).
-/

namespace Ber.ObjectIdentifier

open Subidentifier (rowBytes)

/-! ### Cuts -/

/-- Some bytes, cut into subidentifiers. -/
structure Cut where
  closed : List Subidentifier
  /-- The bytes of a subidentifier whose end has not been seen. -/
  begun : List UInt8
  begun_continue : ∀ byte ∈ begun, 0x80 ≤ byte

namespace Cut

def bytes (cut : Cut) : List UInt8 := rowBytes cut.closed ++ cut.begun

/-- The cut of no bytes. -/
def start : Cut := ⟨[], [], by simp⟩

/-- The cut with one more byte behind it. -/
def push (cut : Cut) (byte : UInt8) : Cut :=
  if ends : byte < 0x80 then ⟨cut.closed ++ [⟨cut.begun, byte, cut.begun_continue, ends⟩], [], by simp⟩
  else ⟨cut.closed, cut.begun ++ [byte], by
    simpa [or_imp, forall_and] using ⟨cut.begun_continue, UInt8.not_lt.mp ends⟩⟩

/-- The cut of some bytes. -/
def ofBytes (bytes : List UInt8) : Cut := bytes.foldl push start

/-- The value that was accumulated of the subidentifier that is open. -/
def value (cut : Cut) : Nat := ofBase128 0 cut.begun

/-- The value that one more byte leads to. -/
def reached (cut : Cut) (byte : UInt8) : Nat := ofBase128 0 (cut.begun ++ [byte])

variable {cut cut' : Cut} {byte : UInt8} {bytes tail : List UInt8}

theorem closed_push_of_ends (cut : Cut) (ends : byte < 0x80) :
    (cut.push byte).closed = cut.closed ++ [⟨cut.begun, byte, cut.begun_continue, ends⟩] := by
  rw [push, dif_pos ends]

theorem begun_push_of_ends (cut : Cut) (ends : byte < 0x80) : (cut.push byte).begun = [] := by
  rw [push, dif_pos ends]

theorem closed_push_of_continues (cut : Cut) (goesOn : 0x80 ≤ byte) :
    (cut.push byte).closed = cut.closed := by
  rw [push, dif_neg (UInt8.not_lt.mpr goesOn)]

theorem begun_push_of_continues (cut : Cut) (goesOn : 0x80 ≤ byte) :
    (cut.push byte).begun = cut.begun ++ [byte] := by
  rw [push, dif_neg (UInt8.not_lt.mpr goesOn)]

theorem bytes_push (cut : Cut) (byte : UInt8) : (cut.push byte).bytes = cut.bytes ++ [byte] := by
  by_cases ends : byte < 0x80
  · rw [Cut.bytes, closed_push_of_ends cut ends, begun_push_of_ends cut ends, Cut.bytes]
    simp [rowBytes, Subidentifier.bytes]
  · have goesOn := UInt8.not_lt.mp ends
    rw [Cut.bytes, closed_push_of_continues cut goesOn, begun_push_of_continues cut goesOn,
      ← List.append_assoc, Cut.bytes]

theorem ofBytes_concat (bytes : List UInt8) (byte : UInt8) :
    ofBytes (bytes ++ [byte]) = (ofBytes bytes).push byte := by
  rw [ofBytes, List.foldl_append]
  rfl

theorem bytes_ofBytes (bytes : List UInt8) : (ofBytes bytes).bytes = bytes := by
  induction bytes using List.reverseRecOn with
  | nil => rfl
  | append_singleton bytes byte ih => rw [ofBytes_concat, bytes_push, ih]

/-- In bytes that continue no subidentifier ends. -/
theorem ne_bytes_append {begun : List UInt8} (begun_continue : ∀ byte ∈ begun, 0x80 ≤ byte)
    (x : Subidentifier) (tail : List UInt8) : begun ≠ x.bytes ++ tail := by
  rintro rfl
  have last_continues := begun_continue x.last (by simp [Subidentifier.bytes])
  exact absurd x.last_ends (UInt8.not_lt.mpr last_continues)

/-- Bytes are cut in one way only. -/
theorem bytes_inj (same : cut.bytes = cut'.bytes) : cut = cut' := by
  obtain ⟨closed, begun, begun_continue⟩ := cut
  obtain ⟨closed', begun', begun_continue'⟩ := cut'
  simp only [Cut.bytes] at same
  suffices closed = closed' ∧ begun = begun' by
    obtain ⟨rfl, rfl⟩ := this
    rfl
  induction closed generalizing closed' with
  | nil =>
    cases closed' with
    | nil => exact ⟨rfl, same⟩
    | cons y closed' =>
      rw [Subidentifier.rowBytes_cons, List.append_assoc] at same
      exact absurd same (ne_bytes_append begun_continue y _)
  | cons x closed ih =>
    rw [Subidentifier.rowBytes_cons, List.append_assoc] at same
    cases closed' with
    | nil => exact absurd same.symm (ne_bytes_append begun_continue' x _)
    | cons y closed' =>
      rw [Subidentifier.rowBytes_cons, List.append_assoc] at same
      obtain ⟨rfl, rest⟩ := Subidentifier.append_inj same
      obtain ⟨rfl, same_begun⟩ := ih closed' rest
      exact ⟨rfl, same_begun⟩

theorem reached_eq (cut : Cut) (byte : UInt8) : cut.reached byte = cut.value * 128 + digit byte :=
  ofBase128_concat 0 cut.begun byte

/-! ### Reading from cut to cut -/

/-- The values of the subidentifiers that are closed. -/
def values (cut : Cut) : List Nat := cut.closed.map Subidentifier.value

/-- What was read of the subidentifier that is open, if one is. -/
def value? (cut : Cut) : Option Nat := if cut.begun = [] then none else some cut.value

/-- What is read of a content when the bytes of the cut have been read and `tail` is left. -/
def read (cut : Cut) (tail : List UInt8) : Except Fault (List Nat) :=
  (subidentifiers cut.bytes.length cut.value? tail).map (cut.values ++ ·)

theorem getD_value? (cut : Cut) : cut.value?.getD 0 = cut.value := by
  rw [value?]
  split
  · next none_begun => rw [value, none_begun]; rfl
  · rfl

theorem value?_push_of_ends (cut : Cut) (ends : byte < 0x80) : (cut.push byte).value? = none :=
  if_pos (begun_push_of_ends cut ends)

theorem values_push_of_ends (cut : Cut) (ends : byte < 0x80) :
    (cut.push byte).values = cut.values ++ [cut.reached byte] := by
  rw [values, closed_push_of_ends cut ends, List.map_append]
  rfl

theorem value?_push_of_continues (cut : Cut) (goesOn : 0x80 ≤ byte) :
    (cut.push byte).value? = some (cut.reached byte) := by
  rw [value?, value, begun_push_of_continues cut goesOn, if_neg (by simp), reached]

/-- One more byte is too large, or it is read as a part of the cut. -/
theorem read_cons (cut : Cut) (byte : UInt8) (tail : List UInt8) :
    cut.read (byte :: tail) =
      if maxExact < cut.reached byte then .error (.arcTooLarge cut.bytes.length)
      else (cut.push byte).read tail := by
  have next : (cut.push byte).bytes.length = cut.bytes.length + 1 := by
    rw [bytes_push, List.length_append, List.length_singleton]
  rw [read, subidentifiers_cons, getD_value?, ← reached_eq]
  dsimp only
  split
  · rfl
  · by_cases ends : byte < 0x80
    · have stops : ¬ continues byte = true := by
        rw [continues_iff]
        exact UInt8.not_le.mpr ends
      rw [if_neg stops, read, next, value?_push_of_ends cut ends, values_push_of_ends cut ends]
      cases subidentifiers (cut.bytes.length + 1) none tail with
      | error fault => rfl
      | ok later => simp [Except.map]
    · have goesOn := UInt8.not_lt.mp ends
      rw [if_pos ((continues_iff byte).mpr goesOn), read, next, value?_push_of_continues cut goesOn,
        values, values, closed_push_of_continues cut goesOn]

/-- A byte leads too far just where the value before it is above the bound that the byte leaves. -/
theorem maxExact_lt_reached_iff (cut : Cut) (byte : UInt8) :
    maxExact < cut.reached byte ↔ ((maxExact : Rat) - digit byte) / 128 < cut.value := by
  rw [reached_eq]
  exact maxExact_lt_iff (by decide) cut.value (digit byte)

theorem read_nil_of_begun (begun : cut.begun ≠ []) :
    cut.read [] = .error (.truncated cut.bytes.length) := by
  rw [read, value?, if_neg begun]
  rfl

theorem read_nil_of_closed (closed : cut.begun = []) : cut.read [] = .ok cut.values := by
  rw [read, value?, if_pos closed]
  exact congrArg Except.ok (List.append_nil cut.values)

end Cut

/-! ### The first byte that is too large -/

variable {content : ByteArray} {front tail bytes : List UInt8} {byte last : UInt8} {place : Nat}

/-- The value that the subidentifier at `place` has reached with the byte there is too large. -/
def TooLargeAt (bytes : List UInt8) (place : Nat) : Prop :=
  ∃ front byte tail, bytes = front ++ byte :: tail ∧ front.length = place ∧
    maxExact < (Cut.ofBytes front).reached byte

theorem tooLargeAt_append_iff :
    TooLargeAt (front ++ byte :: tail) front.length ↔ maxExact < (Cut.ofBytes front).reached byte := by
  constructor
  · rintro ⟨front', byte', tail', same, length, large⟩
    obtain ⟨rfl, same_tail⟩ := List.append_inj same length.symm
    obtain ⟨rfl, -⟩ := List.cons.inj same_tail
    exact large
  · intro large
    exact ⟨front, byte, tail, rfl, rfl, large⟩

/-- Reading leads to the cut of the bytes that were read, if none of them was too large. -/
theorem subidentifiers_append_eq_read (front tail : List UInt8)
    (small : ∀ place < front.length, ¬ TooLargeAt (front ++ tail) place) :
    subidentifiers 0 none (front ++ tail) = (Cut.ofBytes front).read tail := by
  -- On the bytes that were read, since it is behind the last of them that a cut grows.
  induction front using List.reverseRecOn generalizing tail with
  | nil =>
    show subidentifiers 0 none tail = (subidentifiers 0 none tail).map ([] ++ ·)
    cases subidentifiers 0 none tail with
    | error fault => rfl
    | ok values => rfl
  | append_singleton front byte ih =>
    rw [List.append_assoc, List.singleton_append] at small ⊢
    rw [List.length_append, List.length_singleton] at small
    have here : ¬ maxExact < (Cut.ofBytes front).reached byte :=
      mt tooLargeAt_append_iff.mpr (small front.length (Nat.lt_succ_self _))
    rw [ih (byte :: tail) fun place before => small place (Nat.lt_succ_of_lt before), Cut.read_cons,
      if_neg here, Cut.ofBytes_concat]

theorem subidentifiers_of_tooLargeAt (large : TooLargeAt bytes place)
    (first : ∀ earlier < place, ¬ TooLargeAt bytes earlier) :
    subidentifiers 0 none bytes = .error (.arcTooLarge place) := by
  obtain ⟨front, byte, tail, rfl, rfl, large⟩ := large
  rw [subidentifiers_append_eq_read front _ first, Cut.read_cons, if_pos large, Cut.bytes_ofBytes]

theorem subidentifiers_of_small (small : ∀ place, ¬ TooLargeAt bytes place) :
    subidentifiers 0 none bytes = (Cut.ofBytes bytes).read [] := by
  have run := subidentifiers_append_eq_read bytes [] fun place _ => by
    rw [List.append_nil]
    exact small place
  rwa [List.append_nil] at run

theorem exists_first_tooLargeAt (large : TooLargeAt bytes place) :
    ∃ first ≤ place, TooLargeAt bytes first ∧ ∀ earlier < first, ¬ TooLargeAt bytes earlier := by
  classical
  have exists_large : ∃ place, TooLargeAt bytes place := ⟨place, large⟩
  exact ⟨Nat.find exists_large, Nat.find_min' exists_large large, Nat.find_spec exists_large,
    fun _ => Nat.find_min exists_large⟩

/-! ### What is decoded -/

theorem decode_of_ne_nil (nonempty : content.data.toList ≠ []) :
    decode content =
      (subidentifiers 0 none content.data.toList).map fun values => ⟨arcsOf values⟩ := by
  have size_ne_zero : content.size ≠ 0 := fun empty => nonempty (List.eq_nil_of_length_eq_zero empty)
  rw [decode, if_neg size_ne_zero]

theorem decode_of_small (nonempty : content.data.toList ≠ [])
    (small : ∀ place, ¬ TooLargeAt content.data.toList place) :
    decode content =
      ((Cut.ofBytes content.data.toList).read []).map fun values => ⟨arcsOf values⟩ := by
  rw [decode_of_ne_nil nonempty, subidentifiers_of_small small]

theorem decode_of_tooLargeAt (large : TooLargeAt content.data.toList place)
    (first : ∀ earlier < place, ¬ TooLargeAt content.data.toList earlier) :
    decode content = .error (.arcTooLarge place) := by
  have nonempty : content.data.toList ≠ [] := by
    obtain ⟨front, byte, tail, split, -⟩ := large
    rw [split]
    exact List.append_ne_nil_of_right_ne_nil front (List.cons_ne_nil byte tail)
  rw [decode_of_ne_nil nonempty, subidentifiers_of_tooLargeAt large first]
  rfl

/-- A content that ends in a byte that continues is cut off, if no byte before the end is too large. -/
theorem decode_of_continues (split : content.data.toList = front ++ [last]) (goesOn : 0x80 ≤ last)
    (small : ∀ place, ¬ TooLargeAt content.data.toList place) :
    decode content = .error (.truncated content.size) := by
  have begun : (Cut.ofBytes content.data.toList).begun ≠ [] := by
    rw [split, Cut.ofBytes_concat, Cut.begun_push_of_continues _ goesOn]
    exact List.concat_ne_nil last _
  have nonempty : content.data.toList ≠ [] := by
    rw [split]
    exact List.concat_ne_nil last front
  rw [decode_of_small nonempty small, Cut.read_nil_of_begun begun, Cut.bytes_ofBytes]
  rfl

/-- A content that ends in the last byte of a subidentifier is decoded, if no byte is too large. -/
theorem decode_of_ends (split : content.data.toList = front ++ [last]) (ends : last < 0x80)
    (small : ∀ place, ¬ TooLargeAt content.data.toList place) :
    ∃ first rest, content.data.toList = rowBytes (first :: rest) ∧
      decode content = .ok ⟨arcsOf (first.value :: rest.map Subidentifier.value)⟩ := by
  have closed : (Cut.ofBytes content.data.toList).begun = [] := by
    rw [split, Cut.ofBytes_concat, Cut.begun_push_of_ends _ ends]
  have closed_nonempty : (Cut.ofBytes content.data.toList).closed ≠ [] := by
    rw [split, Cut.ofBytes_concat, Cut.closed_push_of_ends _ ends]
    exact List.concat_ne_nil _ _
  obtain ⟨first, rest, row⟩ := List.exists_cons_of_ne_nil closed_nonempty
  have whole := Cut.bytes_ofBytes content.data.toList
  rw [Cut.bytes, row, closed, List.append_nil] at whole
  have nonempty : content.data.toList ≠ [] := by
    rw [split]
    exact List.concat_ne_nil last front
  refine ⟨first, rest, whole.symm, ?_⟩
  rw [decode_of_small nonempty small, Cut.read_nil_of_closed closed, Cut.values, row]
  rfl

/-! ### Zeros in front -/

namespace Subidentifier

/-- The subidentifier with zeros in front. -/
def padded (x : Subidentifier) (zeros : Nat) : Subidentifier :=
  ⟨List.replicate zeros 0x80 ++ x.more, x.last, by
    intro byte mem
    rcases List.mem_append.mp mem with zero | mem
    · rw [List.eq_of_mem_replicate zero]
      exact UInt8.le_refl _
    · exact x.more_continue byte mem, x.last_ends⟩

theorem bytes_padded (x : Subidentifier) (zeros : Nat) :
    (x.padded zeros).bytes = List.replicate zeros 0x80 ++ x.bytes :=
  List.append_assoc _ _ _

theorem value_padded (x : Subidentifier) (zeros : Nat) : (x.padded zeros).value = x.value := by
  rw [value, bytes_padded]
  induction zeros with
  | zero => rfl
  | succ zeros ih => exact ih

end Subidentifier

/-- Of a row of groups only the values are seen. -/
theorem decode_eq_ok_iff_of_row {row : List Subidentifier} (cut : content.data.toList = rowBytes row)
    {oid : ObjectIdentifier} :
    decode content = .ok oid ↔ row.map Subidentifier.value ≠ [] ∧
      (∀ value ∈ row.map Subidentifier.value, value ≤ maxExact) ∧
        oid = ⟨arcsOf (row.map Subidentifier.value)⟩ := by
  have nonempty : rowBytes row ≠ [] ↔ row.map Subidentifier.value ≠ [] := by
    cases row with
    | nil => simp
    | cons x row => simp [Subidentifier.bytes]
  rw [decode_eq_ok_iff, cut, nonempty, List.forall_mem_map]
  constructor
  · rintro ⟨values_nonempty, row', same, small, rfl⟩
    obtain rfl := Subidentifier.rowBytes_inj same
    exact ⟨values_nonempty, small, rfl⟩
  · rintro ⟨values_nonempty, small, rfl⟩
    exact ⟨values_nonempty, row, rfl, small, rfl⟩

/-! ### Texts -/

/-- What is shown of a content: the arcs in it, or what is wrong with it. -/
def render (content : ByteArray) : Except String String :=
  ((decode content).map text).mapError Fault.message

/-- Some values, with a dot in front of each. -/
def dotted (values : List Nat) : String := String.join (values.map fun value => "." ++ toString value)

/-- The text shows the values of some subidentifiers, the first of which carries two arcs. -/
structure Shows (text : String) (first : Nat) (rest : List Nat) : Prop where
  zero : first < 40 → text = "0." ++ toString first ++ dotted rest
  one : 40 ≤ first → first < 80 → text = "1." ++ toString (first - 40) ++ dotted rest
  two : 80 ≤ first → text = "2." ++ toString (first - 80) ++ dotted rest

theorem intercalate_map_toString (arc : Nat) (arcs : List Nat) :
    ".".intercalate ((arc :: arcs).map toString) = toString arc ++ dotted arcs := by
  induction arcs generalizing arc with
  | nil => exact (String.append_empty).symm
  | cons next arcs ih =>
    have later := ih next
    rw [List.map_cons] at later
    rw [List.map_cons, List.map_cons, String.intercalate_cons_cons, later, dotted, dotted, List.map_cons,
      String.join_cons]
    simp only [String.append_assoc]

theorem text_two_arcs (first second : Nat) (rest : List Nat) :
    text ⟨first :: second :: rest⟩ = toString first ++ "." ++ toString second ++ dotted rest := by
  rw [text, intercalate_map_toString, dotted, List.map_cons, String.join_cons, ← dotted]
  simp only [String.append_assoc]

theorem shows_text (first : Nat) (rest : List Nat) : Shows (text ⟨arcsOf (first :: rest)⟩) first rest := by
  refine ⟨?_, ?_, ?_⟩
  · intro below
    rw [arcsOf, firstArcs, if_pos below]
    exact text_two_arcs 0 first rest
  · intro above below
    rw [arcsOf, firstArcs, if_neg (Nat.not_lt.mpr above), if_pos below]
    exact text_two_arcs 1 (first - 40) rest
  · intro above
    rw [arcsOf, firstArcs, if_neg (by omega), if_neg (Nat.not_lt.mpr above)]
    exact text_two_arcs 2 (first - 80) rest

theorem render_eq_ok_iff {shown : String} :
    render content = .ok shown ↔ ∃ oid, decode content = .ok oid ∧ oid.text = shown := by
  rw [render, mapError_eq_ok_iff, map_eq_ok_iff]

theorem render_of_error {fault : Fault} (refused : decode content = .error fault) :
    render content = .error fault.message := by
  rw [render, refused]
  rfl

/-! ### Every content -/

/-- What is shown for a content. -/
structure RendersExactly (content : ByteArray) : Prop where
  /-- The bytes are cut into subidentifiers in one way. -/
  cut : ∀ cut : Cut, cut.bytes = content.data.toList ↔ cut = Cut.ofBytes content.data.toList
  empty : content.size = 0 → render content = .error "Empty OID encoding (0 bytes)"
  /-- The first byte that is too large is named, whatever follows it. -/
  tooLarge : ∀ place, TooLargeAt content.data.toList place →
    ∃ first ≤ place, TooLargeAt content.data.toList first ∧
      (∀ earlier < first, ¬ TooLargeAt content.data.toList earlier) ∧
      render content = .error ("OID arc exceeds safe integer range at byte index " ++ toString first)
  /-- Whether a byte is too large can be told from the value before it. -/
  guarded : ∀ front byte tail, content.data.toList = front ++ byte :: tail →
    (TooLargeAt content.data.toList front.length ↔
      ((maxExact : Rat) - digit byte) / 128 < (Cut.ofBytes front).value)
  truncated : (∀ place, ¬ TooLargeAt content.data.toList place) →
    ∀ last, content.data.toList.getLast? = some last → 0x80 ≤ last →
      render content = .error ("Truncated OID at byte index " ++ toString content.size)
  complete : (∀ place, ¬ TooLargeAt content.data.toList place) →
    ∀ last, content.data.toList.getLast? = some last → last < 0x80 →
      ∃ first rest shown, content.data.toList = rowBytes (first :: rest) ∧
        render content = .ok shown ∧ Shows shown first.value (rest.map Subidentifier.value)
  accepted : (∃ shown, render content = .ok shown) ↔ WellFormed content.data.toList
  /-- Zeros in front of the subidentifiers, however many in front of each, do not change what is shown. -/
  padded : ∀ (row : List (Subidentifier × Nat)) (content' : ByteArray),
    content.data.toList = rowBytes (row.map fun x => x.1) →
    content'.data.toList = rowBytes (row.map fun x => x.1.padded x.2) →
    ∀ shown, render content' = .ok shown ↔ render content = .ok shown

/-- Every content is shown as its arcs, or refused at its first fault. -/
theorem renders_exactly (content : ByteArray) : RendersExactly content := by
  refine ⟨?_, ?_, ?_, ?_, ?_, ?_, ?_, ?_⟩
  · intro cut
    constructor
    · intro same
      exact Cut.bytes_inj (same.trans (Cut.bytes_ofBytes _).symm)
    · rintro rfl
      exact Cut.bytes_ofBytes _
  · intro empty
    exact render_of_error (if_pos empty)
  · intro place large
    obtain ⟨first, before, large, least⟩ := exists_first_tooLargeAt large
    exact ⟨first, before, large, least, render_of_error (decode_of_tooLargeAt large least)⟩
  · intro front byte tail split
    rw [split, tooLargeAt_append_iff, Cut.maxExact_lt_reached_iff]
  · intro small last ended goesOn
    obtain ⟨front, split⟩ := List.getLast?_eq_some_iff.mp ended
    exact render_of_error (decode_of_continues split goesOn small)
  · intro small last ended ends
    obtain ⟨front, split⟩ := List.getLast?_eq_some_iff.mp ended
    obtain ⟨first, rest, cut, decoded⟩ := decode_of_ends split ends small
    exact ⟨first, rest, _, cut, render_eq_ok_iff.mpr ⟨_, decoded, rfl⟩, shows_text _ _⟩
  · rw [← exists_decode_iff_wellFormed]
    constructor
    · rintro ⟨shown, rendered⟩
      obtain ⟨oid, decoded, -⟩ := render_eq_ok_iff.mp rendered
      exact ⟨oid, decoded⟩
    · rintro ⟨oid, decoded⟩
      exact ⟨oid.text, render_eq_ok_iff.mpr ⟨oid, decoded, rfl⟩⟩
  · intro row content' cut cut' shown
    have values : (row.map fun x => x.1.padded x.2).map Subidentifier.value =
        (row.map fun x => x.1).map Subidentifier.value := by
      simp only [List.map_map, Function.comp_def, Subidentifier.value_padded]
    simp only [render_eq_ok_iff, decode_eq_ok_iff_of_row cut, decode_eq_ok_iff_of_row cut', values]

/-- The greatest number that is read, and the one after it behind a zero and before a cut. -/
example : decode ⟨#[0x8f, 0xff, 0xff, 0xff, 0xff, 0xff, 0xff, 0x7f]⟩ = .ok ⟨[2, maxExact - 80]⟩ ∧
    decode ⟨#[0x80, 0x90, 0x80, 0x80, 0x80, 0x80, 0x80, 0x80, 0x00, 0x81]⟩ = .error (.arcTooLarge 8) := by
  decide

end Ber.ObjectIdentifier
