import Mathlib

/-!
# C strings and bounded character buffers

A C string is the byte sequence in front of its terminator, so it holds no
zero byte. A `char buf[cap]` holds such a string with room left for the
terminator. Copies into a buffer cut at the capacity, as `snprintf("%s")` and
the `strncpy(dst, src, cap - 1)` idiom do.
-/

namespace MoonFlare

/-- Raw bytes, as a socket or a serial port delivers them. -/
abbrev Bytes := List UInt8

/-- The bytes of an ASCII literal of the source. -/
def ascii (s : String) : Bytes := s.toList.map fun c => UInt8.ofNat c.toNat

/-- The letters of a literal, one by one. A rewrite with it spares the checker the decoding. -/
theorem ascii_ofList (cs : List Char) :
    ascii (String.ofList cs) = cs.map fun c => UInt8.ofNat c.toNat := by
  rw [ascii, String.toList_ofList]

/-- A literal with one text in front of another and a third behind it. -/
theorem ascii_around {pre mid post cs : List Char} (h : pre ++ (mid ++ post) = cs) :
    ascii (String.ofList cs) = ascii (String.ofList pre) ++
      (ascii (String.ofList mid) ++ ascii (String.ofList post)) := by
  subst h
  simp only [ascii_ofList, List.map_append]

/-- What a C program sees of a `char *`: the bytes before the terminator. -/
@[ext] structure CString where
  /-- The bytes, without the terminator. -/
  bytes : Bytes
  /-- The terminator is not one of them. -/
  noNul : (0 : UInt8) ∉ bytes
  deriving DecidableEq

namespace CString

/-- Read raw bytes as a C string: everything up to the first zero byte. -/
def ofBytes (b : Bytes) : CString :=
  ⟨b.takeWhile (· ≠ 0), fun h => by simpa using List.mem_takeWhile_imp h⟩

/-- A string literal of the source. -/
def lit (s : String) : CString := ofBytes (ascii s)

/-- The empty string. -/
def empty : CString := ⟨[], List.not_mem_nil⟩

instance : Inhabited CString := ⟨empty⟩

/-- `strlen`. -/
def length (s : CString) : ℕ := s.bytes.length

/-- `s[0]` tested for truth: the string is not empty. -/
def nonempty (s : CString) : Bool := !s.bytes.isEmpty

/-- Joining two strings, as a `"%s%s"` format does. -/
def append (s t : CString) : CString :=
  ⟨s.bytes ++ t.bytes, by simp [s.noNul, t.noNul]⟩

instance : Append CString := ⟨append⟩

/-- The first `n` bytes. -/
def take (s : CString) (n : ℕ) : CString :=
  ⟨s.bytes.take n, fun h => s.noNul (List.mem_of_mem_take h)⟩

/-- Everything after the first `n` bytes. -/
def drop (s : CString) (n : ℕ) : CString :=
  ⟨s.bytes.drop n, fun h => s.noNul (List.mem_of_mem_drop h)⟩

/-- `tolower` in the C locale. -/
def tolower (b : UInt8) : UInt8 := if 65 ≤ b ∧ b ≤ 90 then b + 32 else b

/-- Equality up to ASCII case. -/
def eqNoCase (s t : CString) : Bool := s.bytes.map tolower == t.bytes.map tolower

/-- `strncmp(s, p, strlen(p)) == 0`. -/
def startsWith (s p : CString) : Bool := p.bytes.isPrefixOf s.bytes

/-- `strchr`: the text before the first `c` and the text after it. -/
def splitAt (s : CString) (c : UInt8) : Option (CString × CString) :=
  if c ∈ s.bytes then
    let n := (s.bytes.takeWhile (· ≠ c)).length
    some (s.take n, s.drop (n + 1))
  else none

@[simp] theorem bytes_empty : empty.bytes = [] := rfl

@[simp] theorem length_empty : empty.length = 0 := rfl

@[simp] theorem nonempty_empty : empty.nonempty = false := rfl

@[simp] theorem bytes_append (s t : CString) : (s ++ t).bytes = s.bytes ++ t.bytes := rfl

@[simp] theorem bytes_take (s : CString) (n : ℕ) : (s.take n).bytes = s.bytes.take n := rfl

@[simp] theorem bytes_drop (s : CString) (n : ℕ) : (s.drop n).bytes = s.bytes.drop n := rfl

@[simp] theorem nonempty_eq_false {s : CString} : s.nonempty = false ↔ s = empty := by
  simp [nonempty, CString.ext_iff]

theorem nonempty_iff {s : CString} : s.nonempty = true ↔ s ≠ empty := by
  rw [ne_eq, ← nonempty_eq_false, Bool.not_eq_false]

/-- Taking at least the whole length changes nothing. -/
theorem take_of_length_le {s : CString} {n : ℕ} (h : s.length ≤ n) : s.take n = s :=
  CString.ext (List.take_of_length_le h)

/-- Reading the bytes of a C string gives the string back. -/
@[simp] theorem ofBytes_bytes (s : CString) : ofBytes s.bytes = s := by
  refine CString.ext (List.takeWhile_eq_self_iff.mpr fun b hb => ?_)
  simpa using fun h : b = 0 => s.noNul (h ▸ hb)

/-- Bytes without a zero are read whole. -/
theorem bytes_ofBytes {b : Bytes} (h : (0 : UInt8) ∉ b) : (ofBytes b).bytes = b :=
  congrArg bytes (ofBytes_bytes ⟨b, h⟩)

end CString

/-- A `char buf[cap]` that holds a terminated string. -/
@[ext] structure CBuf (cap : ℕ) where
  /-- The string held. -/
  str : CString
  /-- The terminator fits too. -/
  fits : str.length < cap
  deriving DecidableEq

/-! The sizes of the buffers. -/

instance neZero8 : NeZero 8 := ⟨by decide⟩

instance neZero16 : NeZero 16 := ⟨by decide⟩

instance neZero24 : NeZero 24 := ⟨by decide⟩

instance neZero32 : NeZero 32 := ⟨by decide⟩

instance neZero37 : NeZero 37 := ⟨by decide⟩

instance neZero40 : NeZero 40 := ⟨by decide⟩

instance neZero48 : NeZero 48 := ⟨by decide⟩

instance neZero64 : NeZero 64 := ⟨by decide⟩

instance neZero96 : NeZero 96 := ⟨by decide⟩

instance neZero128 : NeZero 128 := ⟨by decide⟩

instance neZero160 : NeZero 160 := ⟨by decide⟩

instance neZero192 : NeZero 192 := ⟨by decide⟩

instance neZero256 : NeZero 256 := ⟨by decide⟩

instance neZero1024 : NeZero 1024 := ⟨by decide⟩

instance neZero4096 : NeZero 4096 := ⟨by decide⟩

instance neZero16384 : NeZero 16384 := ⟨by decide⟩

instance neZero65536 : NeZero 65536 := ⟨by decide⟩

namespace CBuf

variable {cap : ℕ}

/-- `snprintf(buf, cap, "%s", s)`: a longer string is cut. -/
def copy (cap : ℕ) [NeZero cap] (s : CString) : CBuf cap :=
  ⟨s.take (cap - 1), by
    have h := NeZero.pos cap
    simp only [CString.length, CString.bytes_take, List.length_take]
    omega⟩

/-- A zeroed buffer. -/
def zero (cap : ℕ) [NeZero cap] : CBuf cap := ⟨CString.empty, NeZero.pos cap⟩

instance [NeZero cap] : Inhabited (CBuf cap) := ⟨zero cap⟩

@[simp] theorem str_zero [NeZero cap] : (zero cap).str = CString.empty := rfl

@[simp] theorem str_copy [NeZero cap] (s : CString) : (copy cap s).str = s.take (cap - 1) := rfl

/-- A string that fits is copied whole. -/
theorem str_copy_of_lt [NeZero cap] {s : CString} (h : s.length < cap) :
    (copy cap s).str = s :=
  CString.take_of_length_le (by omega)

/-- Copying a buffer's own string back changes nothing. -/
@[simp] theorem copy_str [NeZero cap] (b : CBuf cap) : copy cap b.str = b :=
  CBuf.ext (str_copy_of_lt b.fits)

end CBuf

end MoonFlare
