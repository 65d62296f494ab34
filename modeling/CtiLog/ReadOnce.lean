import CtiLog.Transfer
/-
# `File::read(size, checkavail)`: one read at the position

| here | there |
| --- | --- |
| `readOnce`    | `File::read(size, checkavail)` (file.cpp:638-735) |
| `readOnceMax` | its `maxRead` (:663-678) |

A negative size asks for the rest of the file, which is refused above `kFileIoUpperBound`. The code compares the bound
with the whole file: from a file above the bound it refuses the smallest rest (`readOnce_iff`).
-/

namespace CtiLog

/-! ## The call -/

structure ReadOnceIO where
  fstat : Option Nat
  /-- `new std::vector` did not throw. -/
  buffer : Bool
  /-- `buffer->reserve` did not throw. -/
  reserve : Bool
  view : View
  sys : Sys

/-- The code, the data (`none` is a null pointer) and the position of the descriptor afterwards. -/
structure ReadOnce where
  ret : Int
  data : Option Str
  pos : Nat
deriving DecidableEq, Repr

/-- `maxRead`, or the code of a failed `fstat`; the size is only looked at when it matters. -/
def readOnceMax (fileSize : Nat) (size : Int) (checkavail : Bool) (fstat : Option Nat) : Except Int Nat :=
  if checkavail ∨ size < 0 then
    match fstat with
    | some e => .error (sysCode .statError e)
    | none => .ok (maxRead size fileSize)
  else .ok size.toNat

/-- `p` is the position of the descriptor when the call starts. -/
def readOnce (f : File) (content : Str) (p : Nat) (size : Int) (checkavail : Bool) (io : ReadOnceIO) : ReadOnce :=
  if f.ioBusy then ⟨-Errno.busy.code, none, p⟩
  else if f.fd < 0 then ⟨-Errno.notOpen.code, none, p⟩
  else
    match readOnceMax content.length size checkavail io.fstat with
    | .error ret => ⟨ret, none, p⟩
    | .ok max =>
      if kFileIoUpperBound < max then ⟨-Errno.invalidParam.code, none, p⟩
      else if !io.buffer then ⟨-Errno.noMem.code, none, p⟩
      else if !io.reserve then ⟨-Errno.noMem.code, some [], p⟩
      else if io.view ≠ f.view then ⟨-Errno.fileChanged.code, none, p⟩
      else
        match io.sys with
        | .fail e => ⟨sysCode .readError e, none, p⟩
        | .ok n =>
          let m := readMoved n max (content.length - p)
          ⟨0, some ((content.drop p).take m), p + m⟩

/-! ## What it consumes -/

section
variable {f : File} {content : Str} {p : Nat} {size : Int} {checkavail : Bool} {io : ReadOnceIO}

/-- The call fails, and the descriptor stays. -/
def Unread (p : Nat) (r : ReadOnce) : Prop := r.ret < 0 ∧ r.pos = p

theorem unread_code {e : Errno} (he : 0 < e.code) (data : Option Str) : Unread p ⟨-e.code, data, p⟩ :=
  ⟨neg_neg_of_pos he, rfl⟩

theorem readOnceMax_error {fileSize : Nat} {fstat : Option Nat} {ret : Int}
    (h : readOnceMax fileSize size checkavail fstat = .error ret) : ret < 0 := by
  unfold readOnceMax at h
  split at h
  · cases fstat with
    | some e => cases h; exact sysCode_neg (by decide) e
    | none => cases h
  · cases h

/-- **A failed read consumes nothing**, and one that succeeds what it returns. -/
theorem readOnce_cases (f : File) (content : Str) (p : Nat) (size : Int) (checkavail : Bool) (io : ReadOnceIO) :
    Unread p (readOnce f content p size checkavail io) ∨
      ∃ m ≤ content.length - p, readOnce f content p size checkavail io = ⟨0, some ((content.drop p).take m), p + m⟩ := by
  unfold readOnce
  by_cases hbusy : f.ioBusy
  · rw [if_pos hbusy]
    exact .inl (unread_code (by decide) none)
  rw [if_neg hbusy]
  by_cases hopen : f.fd < 0
  · rw [if_pos hopen]
    exact .inl (unread_code (by decide) none)
  rw [if_neg hopen]
  cases hmax : readOnceMax content.length size checkavail io.fstat with
  | error ret => exact .inl ⟨readOnceMax_error hmax, rfl⟩
  | ok max =>
    dsimp only
    split_ifs
    · exact .inl (unread_code (by decide) none)
    · exact .inl (unread_code (by decide) none)
    · exact .inl (unread_code (by decide) (some []))
    · exact .inl (unread_code (by decide) none)
    · cases io.sys with
      | fail e => exact .inl ⟨sysCode_neg (by decide) e, rfl⟩
      | ok n => exact .inr ⟨_, min_le_right _ _, rfl⟩

/-- The position stays within the file. -/
theorem readOnce_pos_le (hp : p ≤ content.length) : (readOnce f content p size checkavail io).pos ≤ content.length := by
  obtain ⟨-, hpos⟩ | ⟨m, hm, hr⟩ := readOnce_cases f content p size checkavail io
  · rw [hpos]
    exact hp
  · rw [hr]
    show p + m ≤ content.length
    omega

/-! ## From where the file stands -/

/-- Every system call succeeds, and `::read` gives all it is asked for and the file has. -/
structure ReadOnceIO.Ok (f : File) (io : ReadOnceIO) : Prop where
  fstat : io.fstat = none
  buffer : io.buffer = true
  reserve : io.reserve = true
  view : io.view = f.view
  sys : ∃ n, io.sys = .ok n ∧ ∀ request ≤ kFileIoUpperBound, ∀ avail, readMoved n request avail = min request avail

/-- The call when nothing fails. -/
theorem readOnce_ok (hopen : 0 ≤ f.fd) (hbusy : f.ioBusy = false) (hio : io.Ok f) {max : Nat}
    (hmax : readOnceMax content.length size checkavail none = .ok max) :
    readOnce f content p size checkavail io =
      if kFileIoUpperBound < max then ⟨-Errno.invalidParam.code, none, p⟩
      else ⟨0, some ((content.drop p).take (min max (content.length - p))), p + min max (content.length - p)⟩ := by
  obtain ⟨n, hsys, hmoved⟩ := hio.sys
  unfold readOnce
  rw [hbusy, hio.fstat, hio.buffer, hio.reserve, hio.view, hsys, hmax]
  simp only [Bool.false_eq_true, if_false, not_lt.2 hopen, Bool.not_true, ne_eq, not_true]
  split
  · rfl
  · rw [hmoved _ (by omega)]

/-- The call returns these bytes and leaves the descriptor behind them. -/
def Gives (p : Nat) (bytes : Str) (r : ReadOnce) : Prop := r = ⟨0, some bytes, p + bytes.length⟩

/-- **One read at the position**: the rest of the file, if it is not too much, or the next bytes. -/
structure ReadsHere (content : Str) (p : Nat) (size : Int) (r : ReadOnce) : Prop where
  rest : size < 0 → content.length - p ≤ kFileIoUpperBound → Gives p (content.drop p) r
  refused : size < 0 → kFileIoUpperBound < content.length - p → r.ret = -Errno.invalidParam.code
  next : 0 ≤ size → size ≤ kFileIoUpperBound → Gives p ((content.drop p).take (min size.toNat (content.length - p))) r
  kept : r.ret < 0 → r.pos = p

/-- Within the bound the call gives the bytes it settled on. -/
theorem readOnce_gives (hopen : 0 ≤ f.fd) (hbusy : f.ioBusy = false) (hio : io.Ok f) {max : Nat}
    (hmax : readOnceMax content.length size checkavail none = .ok max) (hbound : max ≤ kFileIoUpperBound) :
    Gives p ((content.drop p).take (min max (content.length - p))) (readOnce f content p size checkavail io) := by
  rw [readOnce_ok hopen hbusy hio hmax, if_neg (not_lt.2 hbound)]
  simp [Gives]

theorem readOnceMax_neg (fileSize : Nat) (checkavail : Bool) (h : size < 0) :
    readOnceMax fileSize size checkavail none = .ok fileSize := by
  unfold readOnceMax maxRead
  rw [if_pos (.inr h), if_pos (.inl h)]

/-- A size that is not negative: as much as asked for, or less where less is there. -/
theorem readOnceMax_nonneg (fileSize : Nat) (checkavail : Bool) (h : 0 ≤ size) :
    ∃ max ≤ size.toNat, readOnceMax fileSize size checkavail none = .ok max ∧ min size.toNat fileSize ≤ max := by
  unfold readOnceMax maxRead
  by_cases hcheck : checkavail ∨ size < 0
  · rw [if_pos hcheck]
    by_cases hmore : (fileSize : Int) < size
    · exact ⟨fileSize, by omega, by rw [if_pos (.inr hmore)], min_le_right _ _⟩
    · exact ⟨size.toNat, le_rfl, by rw [if_neg (by omega)], min_le_left _ _⟩
  · rw [if_neg hcheck]
    exact ⟨size.toNat, le_rfl, rfl, min_le_left _ _⟩

/-- **Exactly a rest that fits, of a file that does not**, is not read. -/
theorem readOnce_iff {f : File} {content : Str} {p : Nat} {io : ReadOnceIO} (hopen : 0 ≤ f.fd)
    (hbusy : f.ioBusy = false)
    (hio : io.Ok f) (size : Int) (checkavail : Bool) :
    ReadsHere content p size (readOnce f content p size checkavail io) ↔
      ¬ (size < 0 ∧ content.length - p ≤ kFileIoUpperBound ∧ kFileIoUpperBound < content.length) := by
  constructor
  · rintro h ⟨hsize, hrest, hfile⟩
    have hgives := h.rest hsize hrest
    rw [readOnce_ok hopen hbusy hio (readOnceMax_neg _ _ hsize), if_pos hfile] at hgives
    have hcode : -Errno.invalidParam.code = 0 := congrArg ReadOnce.ret hgives
    exact absurd hcode (by decide)
  · intro hfits
    refine ⟨fun hsize hrest => ?_, fun hsize hrest => ?_, fun hsize hbound => ?_, fun hneg => ?_⟩
    · have hgives := @readOnce_gives f content p size checkavail io hopen hbusy hio _ (readOnceMax_neg _ _ hsize)
        (not_lt.1 fun hfile => hfits ⟨hsize, hrest, hfile⟩)
      rwa [min_eq_right (Nat.sub_le _ _), List.take_of_length_le (by simp)] at hgives
    · rw [readOnce_ok hopen hbusy hio (readOnceMax_neg _ _ hsize), if_pos (by omega)]
    · obtain ⟨max, hle, hmax, hge⟩ := readOnceMax_nonneg content.length checkavail hsize
      have hgives := @readOnce_gives f content p size checkavail io hopen hbusy hio _ hmax (by omega)
      rwa [show min max (content.length - p) = min size.toNat (content.length - p) by omega] at hgives
    · obtain ⟨-, hpos⟩ | ⟨m, -, hr⟩ := readOnce_cases f content p size checkavail io
      · exact hpos
      · rw [hr] at hneg
        exact absurd hneg (lt_irrefl 0)

end

/-! ## A file of one byte more than the bound -/

def largeFile : Str := List.replicate (kFileIoUpperBound + 1) 0

def wholeRead : ReadOnceIO := ⟨none, true, true, openA.view, .ok kFileIoUpperBound⟩

theorem wholeRead_ok : wholeRead.Ok openA where
  fstat := rfl
  buffer := rfl
  reserve := rfl
  view := rfl
  sys := by
    refine ⟨kFileIoUpperBound, rfl, fun request hle avail => ?_⟩
    unfold readMoved
    rw [min_eq_right (le_max_of_le_right hle)]

/-- Two bytes, from the second byte on. -/
theorem readOnce_iff_two : ReadsHere (str "abc") 1 2 (readOnce openA (str "abc") 1 2 true wholeRead) :=
  (readOnce_iff (by decide) rfl wholeRead_ok 2 true).2 (by decide)

/-- **One byte is left, and refused.** -/
theorem last_byte_refused :
    largeFile.length - kFileIoUpperBound = 1 ∧ wholeRead.Ok openA ∧
      readOnce openA largeFile kFileIoUpperBound (-1) true wholeRead =
        ⟨-Errno.invalidParam.code, none, kFileIoUpperBound⟩ ∧
      ¬ ReadsHere largeFile kFileIoUpperBound (-1) (readOnce openA largeFile kFileIoUpperBound (-1) true wholeRead) := by
  have hlen : largeFile.length = kFileIoUpperBound + 1 := List.length_replicate
  have hrest : largeFile.length - kFileIoUpperBound = 1 := by rw [hlen, Nat.add_sub_cancel_left]
  have hret : readOnce openA largeFile kFileIoUpperBound (-1) true wholeRead =
      ⟨-Errno.invalidParam.code, none, kFileIoUpperBound⟩ := by
    rw [readOnce_ok (by decide) rfl wholeRead_ok (readOnceMax_neg _ _ (by decide)),
      if_pos (by rw [hlen]; exact Nat.lt_succ_self _)]
  refine ⟨hrest, wholeRead_ok, hret, fun h => ?_⟩
  have hgives := h.rest (by decide) (by rw [hrest]; decide)
  rw [hret] at hgives
  have hcode : -Errno.invalidParam.code = 0 := congrArg ReadOnce.ret hgives
  exact absurd hcode (by decide)

end CtiLog
