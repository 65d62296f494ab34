import Mathlib.Data.List.DropRight
import Mathlib.Tactic
/-
# Byte strings, the platform and path names

A `std::string` is a list of bytes. A path string is resolved to the name the kernel finds: the
components from the root, empty and `.` components dropped, `..` taken back lexically. There are
no links, so a directory entry has one name. That something on the way there is missing or no
directory is one of the errors a call on the path can fail with (`Walk.lean` says when).

| here | there |
| --- | --- |
| `Str`             | `std::string`, `char const*` |
| `Platform`        | `sysconf(_SC_PAGE_SIZE)` (file.cpp:812) and the working directory |
| `resolve`         | path resolution of `open`, `fopen`, `stat`, `mkdir`, `remove` |
| `dirname`         | `::dirname` (log.cpp:162) |
| `slashPrefixes`   | the prefixes `buf` takes in the `MkDirs` loop (file.cpp:244-258) |
| `dot1`            | the suffix of `path + ".1"` (log.cpp:613) |
-/

namespace CtiLog

abbrev Str := List UInt8

/-- The bytes of a literal. -/
def str (s : String) : Str := s.toUTF8.data.toList

/-- A `char const*` as text: the bytes before the first NUL. -/
def cstr (s : Str) : Str := s.takeWhile (· ≠ 0)

/-- A directory entry: its components from the root. -/
abbrev Name := List Str

/-- What the machine promises: a page of `2 ^ pageBits` bytes that divides `kBigPerReadBytes`
(128 MB), and the directory relative paths start from. -/
structure Platform where
  pageBits : Nat
  pageBits_le : pageBits ≤ 27
  cwd : Name

def slash : UInt8 := 47
def dot : UInt8 := 46
def dot1 : Str := [46, 49]

/-- One component of a path, entered from the directory `acc`. -/
def enter (acc : Name) (seg : Str) : Name :=
  if seg = [] ∨ seg = [dot] then acc
  else if seg = [dot, dot] then acc.dropLast
  else acc ++ [seg]

/-- Read one character: the directory so far and the component being read. -/
def readChar (st : Name × Str) (c : UInt8) : Name × Str :=
  if c = slash then (enter st.1 st.2, []) else (st.1, st.2 ++ [c])

def base (pf : Platform) (p : Str) : Name := if p.head? = some slash then [] else pf.cwd

def resolve (pf : Platform) (p : Str) : Name :=
  let st := p.foldl readChar (base pf p, [])
  enter st.1 st.2

/-- POSIX `dirname`. -/
def dirname (p : Str) : Str :=
  let q := p.rdropWhile (· == slash)
  let r := q.rdropWhile (· != slash)
  if q = [] then (if p = [] then [dot] else [slash])
  else if r = [] then [dot]
  else
    let d := r.rdropWhile (· == slash)
    if d = [] then [slash] else d

/-- The strings that end right before a `/` of `buf`, the one at index 0 excepted. -/
def slashPrefixes (buf : Str) : List Str :=
  ((List.range buf.length).filter fun i => decide (0 < i) && (buf[i]? == some slash)).map buf.take

/-- The path as `MkDirs` walks it: with a slash at its end. -/
def withSlash (p : Str) : Str := if p.getLast? = some slash then p else p ++ [slash]

/-! ## A log and its backup are two entries -/

theorem enter_dot1 (acc : Name) (seg : Str) : enter acc (seg ++ dot1) = acc ++ [seg ++ dot1] := by
  have h0 : ¬ (seg ++ dot1 = [] ∨ seg ++ dot1 = [dot]) := by
    rintro (h | h)
    · simp [dot1] at h
    · have := congrArg List.length h
      simp [dot1] at this
  have h1 : seg ++ dot1 ≠ [dot, dot] := by
    intro h
    have := congrArg List.getLast? h
    simp [dot1, dot] at this
  rw [enter, if_neg h0, if_neg h1]

theorem foldl_readChar_dot1 (st : Name × Str) : dot1.foldl readChar st = (st.1, st.2 ++ dot1) := by
  simp [dot1, readChar, slash]

theorem base_dot1 (pf : Platform) (p : Str) : base pf (p ++ dot1) = base pf p := by
  cases p <;> simp [base, dot1, slash]

/-- **`path + ".1"` never names the entry of `path`.** -/
theorem resolve_dot1_ne (pf : Platform) (p : Str) : resolve pf (p ++ dot1) ≠ resolve pf p := by
  unfold resolve
  simp only [base_dot1, List.foldl_append, foldl_readChar_dot1, enter_dot1]
  generalize p.foldl readChar (base pf p, []) = st
  obtain ⟨acc, seg⟩ := st
  intro h
  unfold enter at h
  split at h
  · have := congrArg List.length h; simp at this
  · split at h
    · have := congrArg List.length h; simp at this; omega
    · simp [dot1] at h

end CtiLog
