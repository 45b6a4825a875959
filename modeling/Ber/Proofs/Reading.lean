import Ber.Cursor
import Ber.Proofs.Scan

/-!
# What readers and moves find

The specification of each operation of a cursor, in terms of encodings. A window is described by the
array and the place it lies at and by the bytes it shows (`Window.Shows`), a cursor by that and by
being usable (`Cursor.On`). Every reader and every move succeeds just where an encoding with an
accepted tag stands in front, and what it hands out is described again:

* `enter?_eq_some_iff`, `content?_eq_some_iff`: the content of the encoding, after its header;
* `next?_eq_some_iff`: what follows the encoding;
* `skipContext?_eq_some_iff`: what follows a row of encodings of `[n]` elements, where no further
  `[n]` tag stands.

Nothing below this file unfolds a reader.
-/

namespace Ber

/-- The window lies at `start` in `origin` and shows `bytes`. -/
structure Window.Shows (w : Window) (origin : ByteArray) (start : Nat) (bytes : List UInt8) :
    Prop where
  origin : w.origin = origin
  start : w.start = start
  toList : w.toList = bytes

namespace Window

variable {v w : Window} {origin : ByteArray} {start : Nat} {bytes s t : List UInt8}

theorem shows_self (w : Window) : w.Shows w.origin w.start w.toList := ⟨rfl, rfl, rfl⟩

namespace Shows

theorem size (h : w.Shows origin start bytes) : w.size = bytes.length := by
  rw [← h.toList, length_toList]

theorem unique (hv : v.Shows origin start bytes) (hw : w.Shows origin start bytes) : v = w :=
  ext (hv.origin.trans hw.origin.symm) (hv.start.trans hw.start.symm) (hv.size.trans hw.size.symm)

theorem drop (h : w.Shows origin start (s ++ t)) :
    (w.drop s.length).Shows origin (start + s.length) t := by
  have room : s.length ≤ w.size := by
    rw [h.size, List.length_append]
    omega
  refine ⟨h.origin, ?_, ?_⟩
  · rw [start_drop room, h.start]
  · rw [toList_drop, h.toList, List.drop_left]

theorem take (h : w.Shows origin start (s ++ t)) : (w.take s.length).Shows origin start s :=
  ⟨h.origin, h.start, by rw [toList_take, h.toList, List.take_left]⟩

end Shows
end Window

/-! ### Elements -/

/-- The element has the parts of an encoding that stands at `start` in `origin`, before `tail`. -/
structure Element.Spells (e : Element) (origin : ByteArray) (start : Nat) (x : Encoding)
    (tail : List UInt8) : Prop where
  header : e.header = x.header
  content : e.content.Shows origin (start + x.headerLength) x.content
  rest : e.rest.Shows origin (start + x.bytes.length) tail

namespace Element

variable {w : Window} {origin : ByteArray} {start : Nat} {bytes tail : List UInt8} {rule : TagRule}
  {x : Encoding} {e f : Element}

theorem Spells.unique (he : e.Spells origin start x tail) (hf : f.Spells origin start x tail) :
    e = f := by
  have sameHeader := he.header.trans hf.header.symm
  have sameContent := he.content.unique hf.content
  have sameRest := he.rest.unique hf.rest
  obtain ⟨tag, headerLength, content, rest⟩ := e
  obtain ⟨tag', headerLength', content', rest'⟩ := f
  simp only [Element.header, Header.mk.injEq] at sameHeader
  obtain ⟨rfl, rfl, -⟩ := sameHeader
  simp only at sameContent sameRest
  rw [sameContent, sameRest]

theorem spells_elementIn (h : w.Shows origin start (x.bytes ++ tail)) :
    (x.header.elementIn w).Spells origin start x tail := by
  have split : x.bytes ++ tail = (x.tag :: x.form.octets) ++ (x.content ++ tail) := by
    simp [Encoding.bytes]
  have front : (x.tag :: x.form.octets).length = x.headerLength := by
    simp [Encoding.headerLength, Nat.add_comm]
  have content : (x.header.elementIn w).content.Shows origin (start + x.headerLength) x.content := by
    have behind := (split ▸ h).drop
    rw [front] at behind
    exact behind.take
  refine ⟨?_, content, ?_⟩
  · show (⟨x.tag, x.headerLength, (x.header.elementIn w).content.size⟩ : Header) = x.header
    rw [content.size]
    rfl
  · have rest := h.drop
    rw [Encoding.length_bytes] at rest ⊢
    exact rest

/-- Reading succeeds just where an encoding stands in front. -/
theorem read_eq_ok_iff (h : w.Shows origin start bytes) :
    read rule w = .ok e ↔
      ∃ x tail, bytes = Encoding.bytes x ++ tail ∧ rule.accepts x.tag ∧
        e.Spells origin start x tail := by
  rw [read_eq_scan, h.toList]
  constructor
  · intro found
    split at found
    · next header scanned =>
      cases found
      obtain ⟨x, accepted, ⟨tail, rfl⟩, rfl⟩ := Header.scan_eq_ok_iff.mp scanned
      exact ⟨x, tail, rfl, accepted, spells_elementIn h⟩
    · cases found
  · rintro ⟨x, tail, rfl, accepted, spells⟩
    rw [Header.scan_bytes x accepted]
    exact congrArg Except.ok ((spells_elementIn h).unique spells)

/-- Header, content and rest follow one another in the window, and fill it. -/
structure Fills (e : Element) (w : Window) : Prop where
  headerLength : 2 ≤ e.headerLength
  contentOrigin : e.content.origin = w.origin
  contentStart : e.content.start = w.start + e.headerLength
  restOrigin : e.rest.origin = w.origin
  restStart : e.rest.start = w.start + (e.headerLength + e.content.size)
  size : e.headerLength + e.content.size + e.rest.size = w.size

theorem fills_of_read (h : read rule w = .ok e) : e.Fills w := by
  have shown := w.shows_self
  obtain ⟨x, tail, front, -, spells⟩ := (read_eq_ok_iff shown).mp h
  have header : e.headerLength = x.headerLength := congrArg Header.headerLength spells.header
  have length := congrArg List.length front
  rw [List.length_append, Encoding.length_bytes, w.length_toList] at length
  refine ⟨?_, spells.content.origin, ?_, spells.rest.origin, ?_, ?_⟩
  · rw [header]
    exact x.two_le_headerLength
  · rw [header, spells.content.start]
  · rw [header, spells.rest.start, spells.content.size, Encoding.length_bytes]
  · rw [header, spells.content.size, spells.rest.size, length]

/-- A header has two bytes at least, which neither content nor rest has. -/
theorem Fills.two_add_sizes_le (h : e.Fills w) : 2 + e.content.size + e.rest.size ≤ w.size := by
  have headerLength := h.headerLength
  have size := h.size
  omega

end Element

/-! ### Cursors -/

theorem toOption_eq_some_iff {ε α : Type} {r : Except ε α} {a : α} :
    r.toOption = some a ↔ r = .ok a := by
  cases r <;> simp [Except.toOption]

theorem map_eq_ok_iff {ε α β : Type} {r : Except ε α} {f : α → β} {b : β} :
    r.map f = .ok b ↔ ∃ a, r = .ok a ∧ f a = b := by
  cases r <;> simp [Except.map]

theorem map_eq_error_iff {ε α β : Type} {r : Except ε α} {f : α → β} {failure : ε} :
    r.map f = .error failure ↔ r = .error failure := by
  cases r <;> simp [Except.map]

theorem mapError_eq_ok_iff {ε δ α : Type} {r : Except ε α} {f : ε → δ} {a : α} :
    r.mapError f = .ok a ↔ r = .ok a := by
  cases r with
  | error cause => exact ⟨nofun, nofun⟩
  | ok b =>
    constructor
    · intro same
      cases same
      rfl
    · intro same
      cases same
      rfl

theorem mapError_eq_error_iff {ε δ α : Type} {r : Except ε α} {f : ε → δ} {failure : δ} :
    r.mapError f = .error failure ↔ ∃ cause, r = .error cause ∧ f cause = failure := by
  cases r with
  | ok b => exact ⟨nofun, nofun⟩
  | error cause =>
    constructor
    · intro same
      exact ⟨cause, rfl, Except.error.inj same⟩
    · rintro ⟨_, same, rfl⟩
      cases same
      rfl

/-- The cursor is usable, stands at `start` in `origin`, and `bytes` are left to it. -/
structure Cursor.On (c : Cursor) (origin : ByteArray) (start : Nat) (bytes : List UInt8) :
    Prop where
  usable : c.usable = true
  window : c.window.Shows origin start bytes

namespace Cursor

variable {c d : Cursor} {origin : ByteArray} {start : Nat} {bytes tail : List UInt8} {rule : TagRule}
  {x : Encoding}

theorem on_self (usable : c.usable = true) : c.On c.window.origin c.position c.window.toList :=
  ⟨usable, c.window.shows_self⟩

theorem on_ofBytes (bytes : ByteArray) : (ofBytes bytes).On bytes 0 bytes.data.toList :=
  ⟨rfl, rfl, rfl, Window.toList_ofBytes bytes⟩

theorem On.unique (hc : c.On origin start bytes) (hd : d.On origin start bytes)
    (context : c.tagContext = d.tagContext) : c = d := by
  have sameWindow := hc.window.unique hd.window
  have sameUsable := hc.usable.trans hd.usable.symm
  obtain ⟨window, tagContext, usable⟩ := c
  obtain ⟨window', tagContext', usable'⟩ := d
  simp only at context sameWindow sameUsable
  rw [context, sameWindow, sameUsable]

theorem element_eq_ok_iff (h : c.On origin start bytes) {e : Element} :
    c.element rule = .ok e ↔
      ∃ x tail, bytes = Encoding.bytes x ++ tail ∧ rule.accepts x.tag ∧
        e.Spells origin start x tail := by
  rw [element, if_pos h.usable]
  exact Element.read_eq_ok_iff h.window

/-- Nothing is found with a cursor that is not usable. -/
theorem usable_of_element {e : Element} (h : c.element rule = .ok e) : c.usable = true := by
  unfold element at h
  split at h
  · assumption
  · cases h

theorem read_of_element {e : Element} (h : c.element rule = .ok e) :
    Element.read rule c.window = .ok e := by
  rwa [element, if_pos (usable_of_element h)] at h

theorem fills_of_element {e : Element} (h : c.element rule = .ok e) : e.Fills c.window :=
  Element.fills_of_read (read_of_element h)

theorem header_eq_ok_iff (h : c.On origin start bytes) {header : Header} :
    c.header = .ok header ↔ ∃ x tail, bytes = Encoding.bytes x ++ tail ∧ header = x.header := by
  rw [Cursor.header, map_eq_ok_iff]
  constructor
  · rintro ⟨e, found, rfl⟩
    obtain ⟨x, tail, front, -, spells⟩ := (element_eq_ok_iff h).mp found
    exact ⟨x, tail, front, spells.header⟩
  · rintro ⟨x, tail, rfl, rfl⟩
    have spells := Element.spells_elementIn h.window
    exact ⟨_, (element_eq_ok_iff h).mpr ⟨x, tail, rfl, rfl, spells⟩, spells.header⟩

/-- Entering an encoding in front. -/
theorem exists_enter {kind : Container} (h : c.On origin start (x.bytes ++ tail))
    (accepted : kind.rule.accepts x.tag) :
    ∃ d, c.enter kind = .ok d ∧ d.On origin (start + x.headerLength) x.content ∧
      d.tagContext = kind.contextOf x.tag := by
  have spells := Element.spells_elementIn h.window
  have found := (element_eq_ok_iff h).mpr ⟨x, tail, rfl, accepted, spells⟩
  exact ⟨_, map_eq_ok_iff.mpr ⟨_, found, rfl⟩, ⟨rfl, spells.content⟩, rfl⟩

theorem enter_eq_ok_iff (h : c.On origin start bytes) {kind : Container} :
    c.enter kind = .ok d ↔
      ∃ x tail, bytes = Encoding.bytes x ++ tail ∧ kind.rule.accepts x.tag ∧
        d.On origin (start + x.headerLength) x.content ∧ d.tagContext = kind.contextOf x.tag := by
  constructor
  · intro entered
    obtain ⟨e, found, rfl⟩ := map_eq_ok_iff.mp entered
    obtain ⟨x, tail, front, accepted, spells⟩ := (element_eq_ok_iff h).mp found
    have tag : e.tag = x.tag := congrArg Header.tag spells.header
    exact ⟨x, tail, front, accepted, ⟨rfl, spells.content⟩, by simp only [tag]⟩
  · rintro ⟨x, tail, rfl, accepted, on, context⟩
    obtain ⟨d', entered, on', context'⟩ := exists_enter h accepted
    rw [entered, on'.unique on (context'.trans context.symm)]

/-- The content of an encoding in front. -/
theorem exists_content {kind : Primitive} (h : c.On origin start (x.bytes ++ tail))
    (accepted : kind.rule.accepts x.tag) :
    ∃ w, c.content kind = .ok w ∧ w.Shows origin (start + x.headerLength) x.content := by
  have spells := Element.spells_elementIn h.window
  have found := (element_eq_ok_iff h).mpr ⟨x, tail, rfl, accepted, spells⟩
  exact ⟨_, map_eq_ok_iff.mpr ⟨_, found, rfl⟩, spells.content⟩

theorem content_eq_ok_iff (h : c.On origin start bytes) {kind : Primitive} {w : Window} :
    c.content kind = .ok w ↔
      ∃ x tail, bytes = Encoding.bytes x ++ tail ∧ kind.rule.accepts x.tag ∧
        w.Shows origin (start + x.headerLength) x.content := by
  constructor
  · intro read
    obtain ⟨e, found, rfl⟩ := map_eq_ok_iff.mp read
    obtain ⟨x, tail, front, accepted, spells⟩ := (element_eq_ok_iff h).mp found
    exact ⟨x, tail, front, accepted, spells.content⟩
  · rintro ⟨x, tail, rfl, accepted, shown⟩
    obtain ⟨w', read, shown'⟩ := exists_content h accepted
    rw [read, shown'.unique shown]

/-- Moving over an encoding in front. -/
theorem exists_advance (h : c.On origin start (x.bytes ++ tail)) :
    ∃ d, c.advance = .ok d ∧ d.On origin (start + x.bytes.length) tail ∧
      d.tagContext = c.tagContext := by
  have spells := Element.spells_elementIn h.window
  have found : c.element .any = .ok _ := (element_eq_ok_iff h).mpr ⟨x, tail, rfl, rfl, spells⟩
  exact ⟨_, map_eq_ok_iff.mpr ⟨_, found, rfl⟩, ⟨h.usable, spells.rest⟩, rfl⟩

theorem advance_eq_ok_iff (h : c.On origin start bytes) :
    c.advance = .ok d ↔
      ∃ x tail, bytes = Encoding.bytes x ++ tail ∧ d.On origin (start + x.bytes.length) tail ∧
        d.tagContext = c.tagContext := by
  constructor
  · intro advanced
    obtain ⟨e, found, rfl⟩ := map_eq_ok_iff.mp advanced
    obtain ⟨x, tail, front, -, spells⟩ := (element_eq_ok_iff h).mp found
    exact ⟨x, tail, front, ⟨h.usable, spells.rest⟩, rfl⟩
  · rintro ⟨x, tail, rfl, on, context⟩
    obtain ⟨d', advanced, on', context'⟩ := exists_advance h
    rw [advanced, on'.unique on (context'.trans context.symm)]

/-- Moving fails where there is no header to read. -/
theorem advance_eq_error_iff {failure : Failure} :
    c.advance = .error failure ↔ c.header = .error failure := by
  rw [advance, Cursor.header, map_eq_error_iff, map_eq_error_iff]

theorem usable_of_advance (h : c.advance = .ok d) : c.usable = true := by
  obtain ⟨e, found, -⟩ := map_eq_ok_iff.mp h
  exact usable_of_element found

theorem origin_of_advance (h : c.advance = .ok d) : d.window.origin = c.window.origin := by
  obtain ⟨e, found, rfl⟩ := map_eq_ok_iff.mp h
  exact (fills_of_element found).restOrigin

theorem tagContext_of_advance (h : c.advance = .ok d) : d.tagContext = c.tagContext := by
  obtain ⟨e, -, rfl⟩ := map_eq_ok_iff.mp h
  rfl

theorem tag?_eq (h : c.On origin start bytes) : c.tag? = bytes.head? := by
  rw [tag?, if_pos h.usable, Window.get?_eq_getElem?, h.window.toList, List.head?_eq_getElem?]

theorem atContext_eq (h : c.On origin start bytes) :
    c.atContext = bytes.head?.any Tag.isContext := by
  rw [atContext, tag?_eq h]

/-- Skipping passes over a row of `[n]` elements in front, and goes on behind it. -/
theorem exists_skipContext_eq (row : List Encoding)
    (h : c.On origin start (Encoding.rowBytes row ++ tail)) (tags : ∀ x ∈ row, x.tag.isContext = true) :
    ∃ d : Cursor, c.skipContext = d.skipContext ∧ d.On origin (start + (Encoding.rowBytes row).length) tail ∧
      d.tagContext = c.tagContext := by
  induction row generalizing c start with
  | nil => exact ⟨c, rfl, h, rfl⟩
  | cons x row ih =>
    rw [Encoding.rowBytes_cons, List.append_assoc] at h
    have tagged : x.tag.isContext = true := tags x List.mem_cons_self
    have front : c.atContext = true := by simpa [Encoding.bytes, tagged] using atContext_eq h
    obtain ⟨moved, advanced, on, context⟩ := exists_advance h
    obtain ⟨d, skipped, final, context'⟩ := ih on fun y hy => tags y (List.mem_cons_of_mem _ hy)
    refine ⟨d, ?_, ?_, context'.trans context⟩
    · rw [skipContext_of_advance front advanced]
      exact skipped
    · rw [Encoding.rowBytes_cons, List.length_append, ← Nat.add_assoc]
      exact final

/-- Skipping passes over a row of `[n]` elements in front, where no further `[n]` tag stands. -/
theorem exists_skipContext (row : List Encoding)
    (h : c.On origin start (Encoding.rowBytes row ++ tail))
    (tags : ∀ x ∈ row, x.tag.isContext = true) (stop : tail.head?.any Tag.isContext = false) :
    ∃ d, c.skipContext = (true, d) ∧ d.On origin (start + (Encoding.rowBytes row).length) tail ∧
      d.tagContext = c.tagContext := by
  obtain ⟨d, skipped, on, context⟩ := exists_skipContext_eq row h tags
  refine ⟨d, ?_, on, context⟩
  rw [skipped, skipContext_of_not_atContext ((atContext_eq on).trans stop), on.usable]

theorem skipContext_eq_true_iff (h : c.On origin start bytes) :
    c.skipContext = (true, d) ↔
      ∃ row tail, bytes = Encoding.rowBytes row ++ tail ∧ (∀ x ∈ row, x.tag.isContext = true) ∧
        tail.head?.any Tag.isContext = false ∧
        d.On origin (start + (Encoding.rowBytes row).length) tail ∧
        d.tagContext = c.tagContext := by
  constructor
  · intro skipped
    have front := atContext_eq h
    fun_induction skipContext c generalizing start bytes with
    | case1 c atContext moved advanced ih =>
      obtain ⟨x, after, rfl, on, context⟩ := (advance_eq_ok_iff h).mp advanced
      have tagged : x.tag.isContext = true := by simpa [atContext, Encoding.bytes] using front.symm
      obtain ⟨row, tail, rfl, tags, stop, final, context'⟩ := ih on skipped (atContext_eq on)
      refine ⟨x :: row, tail, by simp, ?_, stop, ?_, context'.trans context⟩
      · intro y hy
        rcases List.mem_cons.mp hy with rfl | hy
        · exact tagged
        · exact tags y hy
      · rw [Encoding.rowBytes_cons, List.length_append, ← Nat.add_assoc]
        exact final
    | case2 c atContext failure refused => cases skipped
    | case3 c elsewhere =>
      obtain ⟨-, rfl⟩ := Prod.mk.inj skipped
      exact ⟨[], bytes, rfl, by simp, by simpa [elsewhere] using front.symm, h, rfl⟩
  · rintro ⟨row, tail, rfl, tags, stop, on, context⟩
    obtain ⟨d', skipped, on', context'⟩ := exists_skipContext row h tags stop
    rw [skipped, on'.unique on (context'.trans context.symm)]

/-! ### Answers as options -/

theorem enter?_eq_some_iff (h : c.On origin start bytes) {kind : Container} :
    c.enter? kind = some d ↔
      ∃ x tail, bytes = Encoding.bytes x ++ tail ∧ kind.rule.accepts x.tag ∧
        d.On origin (start + x.headerLength) x.content ∧ d.tagContext = kind.contextOf x.tag := by
  rw [enter?, toOption_eq_some_iff, enter_eq_ok_iff h]

theorem exists_enter? {kind : Container} (h : c.On origin start (x.bytes ++ tail))
    (accepted : kind.rule.accepts x.tag) :
    ∃ d, c.enter? kind = some d ∧ d.On origin (start + x.headerLength) x.content ∧
      d.tagContext = kind.contextOf x.tag := by
  obtain ⟨d, entered, found⟩ := exists_enter h accepted
  exact ⟨d, toOption_eq_some_iff.mpr entered, found⟩

theorem content?_eq_some_iff (h : c.On origin start bytes) {kind : Primitive} {w : Window} :
    c.content? kind = some w ↔
      ∃ x tail, bytes = Encoding.bytes x ++ tail ∧ kind.rule.accepts x.tag ∧
        w.Shows origin (start + x.headerLength) x.content := by
  rw [content?, toOption_eq_some_iff, content_eq_ok_iff h]

theorem exists_content? {kind : Primitive} (h : c.On origin start (x.bytes ++ tail))
    (accepted : kind.rule.accepts x.tag) :
    ∃ w, c.content? kind = some w ∧ w.Shows origin (start + x.headerLength) x.content := by
  obtain ⟨w, read, shown⟩ := exists_content h accepted
  exact ⟨w, toOption_eq_some_iff.mpr read, shown⟩

theorem next?_eq_some_iff (h : c.On origin start bytes) :
    c.next? = some d ↔
      ∃ x tail, bytes = Encoding.bytes x ++ tail ∧ d.On origin (start + x.bytes.length) tail ∧
        d.tagContext = c.tagContext := by
  rw [next?, toOption_eq_some_iff, advance_eq_ok_iff h]

theorem exists_next? (h : c.On origin start (x.bytes ++ tail)) :
    ∃ d, c.next? = some d ∧ d.On origin (start + x.bytes.length) tail ∧
      d.tagContext = c.tagContext := by
  obtain ⟨d, advanced, found⟩ := exists_advance h
  exact ⟨d, toOption_eq_some_iff.mpr advanced, found⟩

theorem skipContext?_eq_some_iff_skipContext : c.skipContext? = some d ↔ c.skipContext = (true, d) := by
  rw [skipContext?]
  split
  · next moved skipped => simp [skipped]
  · next moved skipped => simp [skipped]

theorem skipContext?_eq_some_iff (h : c.On origin start bytes) :
    c.skipContext? = some d ↔
      ∃ row tail, bytes = Encoding.rowBytes row ++ tail ∧ (∀ x ∈ row, x.tag.isContext = true) ∧
        tail.head?.any Tag.isContext = false ∧
        d.On origin (start + (Encoding.rowBytes row).length) tail ∧
        d.tagContext = c.tagContext := by
  rw [skipContext?_eq_some_iff_skipContext, skipContext_eq_true_iff h]

theorem exists_skipContext? (row : List Encoding)
    (h : c.On origin start (Encoding.rowBytes row ++ tail))
    (tags : ∀ x ∈ row, x.tag.isContext = true) (stop : tail.head?.any Tag.isContext = false) :
    ∃ d, c.skipContext? = some d ∧ d.On origin (start + (Encoding.rowBytes row).length) tail ∧
      d.tagContext = c.tagContext := by
  obtain ⟨d, skipped, found⟩ := exists_skipContext row h tags stop
  exact ⟨d, skipContext?_eq_some_iff_skipContext.mpr skipped, found⟩

end Cursor
end Ber
