/-!
# Windows

A `Window` is a contiguous part of an input: the array it lies in, where it starts, and how many
bytes it has. Nothing is copied, and the proof field `fits` keeps every window inside its array,
so a byte is read by giving an index below `size` and no other byte can be read at all.

`toList` is the view through which everything else is stated: a window stands for the list of
its bytes. Reading, `take` and `drop` are reading, `take` and `drop` on that list
(`get?_eq_getElem?`, `toList_take`, `toList_drop`), and `sameBytes` is its equality (`sameBytes_iff`).
-/

namespace Ber

/-- A contiguous part of a byte array. -/
structure Window where
  /-- The array that the window lies in. -/
  origin : ByteArray
  /-- The index in `origin` of the first byte in view. -/
  start : Nat
  /-- How many bytes are in view. -/
  size : Nat
  /-- The window lies inside its array. -/
  fits : start + size ≤ origin.size

namespace Window

@[ext] theorem ext {v w : Window} (origin : v.origin = w.origin) (start : v.start = w.start)
    (size : v.size = w.size) : v = w := by
  cases v
  cases w
  cases origin
  cases start
  cases size
  rfl

instance : DecidableEq Window := fun v w =>
  decidable_of_iff (v.origin.data = w.origin.data ∧ v.start = w.start ∧ v.size = w.size)
    ⟨fun ⟨origin, start, size⟩ => ext (ByteArray.ext origin) start size, fun h => by simp [h]⟩

/-- The whole of a byte array. -/
def ofBytes (bytes : ByteArray) : Window := ⟨bytes, 0, bytes.size, by omega⟩

/-- The index in `origin` just after the last byte in view. -/
def stop (w : Window) : Nat := w.start + w.size

/-- The byte at an index counted from the start of the window. -/
def get (w : Window) (i : Nat) (h : i < w.size) : UInt8 :=
  w.origin.get (w.start + i) (by have := w.fits; omega)

/-- The byte at an index counted from the start of the window, if the window reaches that far. -/
def get? (w : Window) (i : Nat) : Option UInt8 :=
  if h : i < w.size then some (w.get i h) else none

/-- The first `n` bytes in view, or all of them if there are fewer. -/
def take (w : Window) (n : Nat) : Window :=
  ⟨w.origin, w.start, min n w.size, by have := w.fits; omega⟩

/-- What is in view after the first `n` bytes, nothing if there are fewer. -/
def drop (w : Window) (n : Nat) : Window :=
  ⟨w.origin, w.start + min n w.size, w.size - n, by have := w.fits; omega⟩

/-- The bytes in view, copied out. -/
def bytes (w : Window) : ByteArray := w.origin.extract w.start w.stop

/-- The bytes in view, as a list. -/
def toList (w : Window) : List UInt8 := w.bytes.data.toList

/-- Two windows, be they of different arrays, show the same bytes. -/
def sameBytes (v w : Window) : Bool :=
  v.size == w.size && v.size.all fun i _ => v.get? i == w.get? i

/-! ### The view -/

theorem toList_eq (w : Window) :
    w.toList = (w.origin.data.toList.drop w.start).take w.size := by
  simp [toList, bytes, stop, List.extract_eq_take_drop]

@[simp] theorem toList_ofBytes (bytes : ByteArray) : (ofBytes bytes).toList = bytes.data.toList := by
  rw [toList_eq]
  exact List.take_of_length_le (by simp [ofBytes])

@[simp] theorem length_toList (w : Window) : w.toList.length = w.size := by
  have fits := w.fits
  have : w.origin.data.size = w.origin.size := rfl
  simp only [toList_eq, List.length_take, List.length_drop, Array.length_toList]
  omega

@[simp] theorem size_take (w : Window) (n : Nat) : (w.take n).size = min n w.size := rfl

@[simp] theorem size_drop (w : Window) (n : Nat) : (w.drop n).size = w.size - n := rfl

theorem start_drop {w : Window} {n : Nat} (h : n ≤ w.size) : (w.drop n).start = w.start + n := by
  show w.start + min n w.size = w.start + n
  rw [Nat.min_eq_left h]

theorem drop_drop (w : Window) (m n : Nat) : (w.drop m).drop n = w.drop (m + n) := by
  apply ext
  · rfl
  · simp only [drop]
    omega
  · simp only [size_drop]
    omega

@[simp] theorem toList_take (w : Window) (n : Nat) : (w.take n).toList = w.toList.take n := by
  simp only [toList_eq, take, List.take_take]

@[simp] theorem toList_drop (w : Window) (n : Nat) : (w.drop n).toList = w.toList.drop n := by
  simp only [toList_eq, drop, List.drop_take, List.drop_drop]
  rcases Nat.le_total n w.size with h | h
  · rw [Nat.min_eq_left h]
  · simp [Nat.sub_eq_zero_of_le h]

/-- Reading a byte of the window is reading it in the list. -/
theorem get?_eq_getElem? (w : Window) (i : Nat) : w.get? i = w.toList[i]? := by
  have fits := w.fits
  have : w.origin.data.size = w.origin.size := rfl
  rw [toList_eq, get?]
  split
  · next h =>
    rw [List.getElem?_take_of_lt h, List.getElem?_drop, List.getElem?_eq_getElem (by simp; omega)]
    rfl
  · next h => exact (List.getElem?_eq_none (by simp; omega)).symm

/-- Windows of one size that agree at every index stand for one list. -/
@[simp] theorem sameBytes_iff (v w : Window) : v.sameBytes w ↔ v.toList = w.toList := by
  simp only [sameBytes, Nat.all_eq_finRange_all, get?_eq_getElem?, Bool.and_eq_true, beq_iff_eq,
    List.all_eq_true, List.mem_finRange, forall_const]
  constructor
  · intro ⟨size, agree⟩
    apply List.ext_getElem?
    intro i
    rcases Nat.lt_or_ge i v.size with h | h
    · exact agree ⟨i, h⟩
    · rw [List.getElem?_eq_none (by simpa using h),
        List.getElem?_eq_none (by simpa [← size] using h)]
  · intro same
    exact ⟨by rw [← length_toList v, ← length_toList w, same], fun i => by rw [same]⟩

end Window

/-! ### Parts of an array -/

theorem toList_extract (bytes : ByteArray) (start size : Nat) :
    (bytes.extract start (start + size)).data.toList = (bytes.data.toList.drop start).take size := by
  simp [List.extract_eq_take_drop]

theorem toList_extract_zero (bytes : ByteArray) (k : Nat) :
    (bytes.extract 0 k).data.toList = bytes.data.toList.take k := by
  simp [List.extract_eq_take_drop]

end Ber
