import CtiLog.ReadOnce
import CtiLog.Runs
/-
# The position of a descriptor, and the rest behind it

| here | there |
| --- | --- |
| `ioRestPostion`                                     | `File::ioRestPostion` (file.cpp:464-488) |
| `File.jump2Begin`, `jump2Offset`, `rjump2Offset`    | file.cpp:490-556 |
| `FileOp`                                            | a call of a jump, of `readOnce`, of `readCb`, or of one of the four `write` |

`ioRestPostion` is `size - position`, and not clamped: it is negative behind the end, where `lseek` may go, and
where the callback read goes on its own (`readCb_pos`): it jumps by what it has read, a second time.
-/

namespace CtiLog

open Chunks Runs

/-! ## Seeking -/

/-- `::lseek` to `base + offset`; there is no position before the beginning. -/
def lseek (base : Nat) (offset : Int) (fail : Option Nat) : Except Nat Nat :=
  match fail with
  | some e => .error e
  | none => if base + offset < 0 then .error EINVAL else .ok (base + offset).toNat

/-- The three jumps: `base` is what the offset counts from. The code and the position afterwards. -/
def File.jump (f : File) (pos base : Nat) (offset : Int) (fail : Option Nat) : Int × Nat :=
  if f.fd < 0 then (-Errno.notOpen.code, pos)
  else
    match lseek base offset fail with
    | .error e => (sysCode .seekError e, pos)
    | .ok p => (0, p)

def File.jump2Begin (f : File) (pos : Nat) (fail : Option Nat) : Int × Nat := f.jump pos 0 0 fail
def File.jump2Offset (f : File) (pos : Nat) (offset : Int) (fail : Option Nat) : Int × Nat := f.jump pos pos offset fail
def File.rjump2Offset (f : File) (pos size : Nat) (offset : Int) (fail : Option Nat) : Int × Nat :=
  f.jump pos size offset fail

/-- A jump ends within the file iff it fails or its target is there. -/
theorem jump_le_iff {f : File} {pos base size : Nat} (offset : Int) (fail : Option Nat) (hopen : 0 ≤ f.fd)
    (hpos : pos ≤ size) :
    (f.jump pos base offset fail).2 ≤ size ↔ fail ≠ none ∨ base + offset ≤ size := by
  unfold File.jump lseek
  rw [if_neg (not_lt.2 hopen)]
  cases fail with
  | some e => simp [hpos]
  | none =>
    by_cases hneg : (base : Int) + offset < 0
    · rw [if_pos hneg]
      exact iff_of_true hpos (.inr (by omega))
    · rw [if_neg hneg]
      simp only [ne_eq, not_true, false_or]
      omega

/-! ## A file with a position -/

/-- A descriptor that is open, with its file and the state of the callbacks. -/
structure Seekable (σ : Type*) where
  file : File
  isOpen : 0 ≤ file.fd
  /-- Opened with `O_APPEND`. -/
  append : Bool
  content : Str
  pos : Nat
  user : σ

structure RestIO where
  lseek : Option Nat
  fstat : Option Nat

namespace Seekable

variable {σ : Type*}

def ioRestPostion (t : Seekable σ) (io : RestIO) : Int :=
  if t.file.fd < 0 then -Errno.notOpen.code
  else
    match io.lseek with
    | some e => sysCode .seekError e
    | none =>
      match io.fstat with
      | some e => sysCode .statError e
      | none => t.content.length - t.pos

/-- `::write` accepts bytes: at the position, or at the end; what it skips is filled with zeros. -/
def accept (t : Seekable σ) (bytes : Str) : Seekable σ :=
  if bytes = [] then t
  else
    let start := if t.append then t.content.length else t.pos
    { t with
      content := t.content.takeD start 0 ++ bytes ++ t.content.drop (start + bytes.length)
      pos := start + bytes.length }

/-- The callback of a `write`. -/
def wrote (didWrote : DidWrote σ) : DidWrote (Seekable σ) := fun t done rest =>
  let (stop, u) := didWrote t.user done rest
  (stop, { t with user := u })

def Within (t : Seekable σ) : Prop := t.pos ≤ t.content.length

end Seekable

/-- One call on the file; nobody else changes its descriptor or name meanwhile. -/
inductive FileOp (σ : Type*) where
  | jump2Begin (lseek : Option Nat)
  | jump2Offset (offset : Int) (lseek : Option Nat)
  | rjump2Offset (offset : Int) (lseek : Option Nat)
  | read (size : Int) (checkavail : Bool) (io : ReadOnceIO)
  | readCb (didRead : σ → Str → Bool × σ) (eachRead0 : Nat) (limit : Int) (io : ReadIO)
  | writeAny (data : Option Bundle) (eachWrite0 limit : Int) (sys : Nat → Sys)
  | writeRaw (data : Option Str) (eachWrite0 : Int) (sys : Nat → Sys)
  | writeAnyCb (didWrote : DidWrote σ) (data : Option Bundle) (eachWrite0 limit : Int) (sys : Nat → Sys)
  | writeRawCb (didWrote : DidWrote σ) (data : Option Str) (eachWrite0 limit : Int) (sys : Nat → Sys)

namespace Seekable

variable {σ : Type*}

/-- The callback read, from the position on. -/
def readCb (t : Seekable σ) (didRead : σ → Str → Bool × σ) (eachRead0 : Nat) (limit : Int) (io : ReadIO) :
    Outcome σ × Nat :=
  CtiLog.readCb t.file (fun _ => t.content) t.pos didRead eachRead0 limit { io with view := fun _ => t.file.view } t.user

def run (t : Seekable σ) : FileOp σ → Seekable σ
  | .jump2Begin fail => { t with pos := (t.file.jump2Begin t.pos fail).2 }
  | .jump2Offset offset fail => { t with pos := (t.file.jump2Offset t.pos offset fail).2 }
  | .rjump2Offset offset fail => { t with pos := (t.file.rjump2Offset t.pos t.content.length offset fail).2 }
  | .read size checkavail io =>
    { t with pos := (readOnce t.file t.content t.pos size checkavail { io with view := t.file.view }).pos }
  | .readCb didRead eachRead0 limit io =>
    let (o, p) := t.readCb didRead eachRead0 limit io
    { t with pos := p, user := o.st }
  | .writeAny data each limit sys => (writeAny t.file accept data each limit ⟨fun _ => t.file.view, sys⟩ t).st
  | .writeRaw data each sys => (writeRaw t.file accept data each ⟨fun _ => t.file.view, sys⟩ t).st
  | .writeAnyCb didWrote data each limit sys =>
    (CtiLog.writeAnyCb t.file accept (wrote didWrote) data each limit ⟨fun _ => t.file.view, sys⟩ t).st
  | .writeRawCb didWrote data each limit sys =>
    (CtiLog.writeRawCb t.file accept (wrote didWrote) data each limit ⟨fun _ => t.file.view, sys⟩ t).st

end Seekable

def SeekStep {σ : Type*} (t : Seekable σ) (a : FileOp σ) (u : Seekable σ) : Prop := t.run a = u

/-! ## What a read does to the position -/

section
variable {σ : Type*} {f : File} {content : Str} {p : Nat} {didRead : σ → Str → Bool × σ} {eachRead0 : Nat} {limit : Int}
  {io : ReadIO} {st : σ}

/-- **The exit path jumps** from behind what was read, by as much again. -/
theorem readCb_pos (hopen : 0 ≤ f.fd) :
    (readCb f (fun _ => content) p didRead eachRead0 limit io st).2 =
      (f.jump2Offset (p + (readCb f (fun _ => content) p didRead eachRead0 limit io st).1.total)
        (readCb f (fun _ => content) p didRead eachRead0 limit io st).1.total io.lseek).2 := by
  have hjump : ∀ total : Nat, (if io.lseek.isSome then p + total else p + total + total) =
      (f.jump2Offset (p + total) total io.lseek).2 := by
    intro total
    unfold File.jump2Offset File.jump lseek
    rw [if_neg (not_lt.2 hopen)]
    cases io.lseek with
    | some e => rfl
    | none =>
      have htarget : ((p + total : Nat) : Int) + total = (p + total + total : Nat) := by omega
      have hback : ¬ ((p + total : Nat) : Int) + total < 0 := by omega
      dsimp only
      rw [if_neg hback, htarget]
      rfl
  unfold readCb
  by_cases hbusy : f.ioBusy
  · rw [if_pos hbusy]
    dsimp only
    rw [← hjump]
    simp [Outcome.early]
  rw [if_neg hbusy, if_neg (not_lt.2 hopen)]
  cases io.fstat with
  | some e => exact hjump _
  | none =>
    cases io.alloc with
    | false => exact hjump _
    | true => exact hjump _

/-- It reads what is there. -/
theorem readCb_total_le :
    (readCb f (fun _ => content) p didRead eachRead0 limit io st).1.total ≤ content.length - p := by
  unfold readCb
  by_cases hbusy : f.ioBusy
  · rw [if_pos hbusy]
    exact Nat.zero_le _
  by_cases hopen : f.fd < 0
  · rw [if_neg hbusy, if_pos hopen]
    exact Nat.zero_le _
  rw [if_neg hbusy, if_neg hopen]
  cases io.fstat with
  | some e => exact Nat.zero_le _
  | none =>
    cases io.alloc with
    | false => exact Nat.zero_le _
    | true =>
      refine loop_total_le fun k t s => ?_
      unfold readTurn
      split_ifs
      · exact Nat.zero_le _
      · cases io.sys k with
        | fail e => exact Nat.zero_le _
        | ok n =>
          have hmoved : ∀ request, readMoved n request (content.length - (p + t)) ≤ content.length - p - t := by
            intro request
            rw [Nat.sub_sub]
            exact min_le_right _ _
          dsimp only
          split
          · exact hmoved _
          · exact hmoved _

end

/-! ## What a write does to it -/

namespace Seekable

variable {σ : Type*} {t : Seekable σ}

/-- What is written lies within the file. -/
theorem accept_within (bytes : Str) (h : t.Within) : (t.accept bytes).Within := by
  unfold accept
  by_cases hnil : bytes = []
  · rw [if_pos hnil]
    exact h
  · rw [if_neg hnil]
    unfold Within
    dsimp only
    rw [List.length_append, List.length_append, List.takeD_length]
    omega

/-- A callback that leaves the file alone. -/
def KeepsWithin (cb : DidWrote (Seekable σ)) : Prop := ∀ t done rest, Within t → (cb t done rest).2.Within

theorem wrote_within (didWrote : DidWrote σ) : KeepsWithin (wrote didWrote) := fun _ _ _ h => h

variable {f : File} {didWrote : Option (DidWrote (Seekable σ))} {io : WriteIO}

theorem writeTurn_within (hcb : ∀ cb ∈ didWrote, KeepsWithin cb) (data : Str) (max each k total : Nat)
    (s : St (Seekable σ)) (h : s.user.Within) :
    (writeTurn f accept didWrote data io max each k total s).st.user.Within := by
  unfold writeTurn
  split
  · exact h
  · cases io.sys k with
    | fail e => exact h
    | ok n =>
      have haccept := accept_within ((data.drop total).take (min n (request each max total))) h
      cases didWrote with
      | none => exact haccept
      | some cb =>
        have hcalled := hcb cb rfl _ (total + min n (request each max total))
          (max - (total + min n (request each max total))) haccept
        dsimp only
        split
        · exact hcalled
        · exact hcalled

theorem writeLoop_within (hcb : ∀ cb ∈ didWrote, KeepsWithin cb) (data : Str) (max each : Nat) (ret : Option Int)
    (h : t.Within) : (writeLoop f accept didWrote data max each ret io t).st.Within :=
  loop_inv (fun s => s.user.Within) h fun k total s hs => writeTurn_within hcb data max each k total s hs

theorem writeBundle_within (hcb : ∀ cb ∈ didWrote, KeepsWithin cb) (data : Option Bundle) (each limit : Int)
    (h : t.Within) : (writeBundle f accept didWrote data each limit io t).st.Within := by
  cases data with
  | none => exact h
  | some b =>
    unfold writeBundle
    dsimp only
    split_ifs
    · exact h
    · exact h
    · exact h
    · exact writeLoop_within hcb _ _ _ _ h

theorem writePointer_within (hcb : ∀ cb ∈ didWrote, KeepsWithin cb) (data : Option Str) (each limit : Int)
    (h : t.Within) : (writePointer f accept didWrote data each limit io t).st.Within := by
  cases data with
  | none => exact h
  | some bytes =>
    unfold writePointer
    dsimp only
    split_ifs
    · exact h
    · exact h
    · exact writeLoop_within hcb _ _ _ _ h

/-! ## The rest -/

/-- The number of bytes up to the end of the file; an error means an error. -/
structure TellsRest (t : Seekable σ) : Prop where
  rest : ∀ io : RestIO, io.lseek = none → io.fstat = none → t.ioRestPostion io = (t.content.length - t.pos : Nat)
  error : ∀ io : RestIO, t.ioRestPostion io < 0 → t.file.fd < 0 ∨ io.lseek ≠ none ∨ io.fstat ≠ none

theorem ioRestPostion_ok (t : Seekable σ) : t.ioRestPostion ⟨none, none⟩ = t.content.length - t.pos := by
  unfold ioRestPostion
  rw [if_neg (not_lt.2 t.isOpen)]

theorem tellsRest_iff : t.TellsRest ↔ t.Within := by
  constructor
  · intro h
    have hrest := h.rest ⟨none, none⟩ rfl rfl
    rw [ioRestPostion_ok] at hrest
    unfold Within
    omega
  · intro h
    have hrest : ∀ io : RestIO, io.lseek = none → io.fstat = none →
        t.ioRestPostion io = (t.content.length - t.pos : Nat) := by
      rintro ⟨_, _⟩ rfl rfl
      rw [ioRestPostion_ok, Int.ofNat_sub h]
    refine ⟨hrest, fun io hneg => .inr ?_⟩
    by_contra hio
    obtain ⟨hseek, hstat⟩ : io.lseek = none ∧ io.fstat = none := by simpa using hio
    rw [hrest io hseek hstat] at hneg
    exact absurd hneg (by omega)

/-- A jump does not go behind the end, or fails; a callback read reads at most half of what is left, or the jump at its
end fails. -/
def StaysWithin (t : Seekable σ) : FileOp σ → Prop
  | .jump2Offset offset fail => fail ≠ none ∨ t.pos + offset ≤ t.content.length
  | .rjump2Offset offset fail => fail ≠ none ∨ offset ≤ 0
  | .readCb didRead each limit io =>
    io.lseek ≠ none ∨ t.pos + 2 * (t.readCb didRead each limit io).1.total ≤ t.content.length
  | _ => True

/-- **Step lemma**: from within the file a call ends within the file iff it stays there. -/
theorem run_within_iff (h : t.Within) (a : FileOp σ) : (t.run a).Within ↔ t.StaysWithin a := by
  cases a with
  | jump2Begin fail => exact iff_of_true ((jump_le_iff 0 fail t.isOpen h).2 (.inr (by simp))) trivial
  | jump2Offset offset fail => exact jump_le_iff offset fail t.isOpen h
  | rjump2Offset offset fail =>
    refine (jump_le_iff offset fail t.isOpen h).trans (or_congr_right ?_)
    omega
  | read size checkavail io => exact iff_of_true (readOnce_pos_le h) trivial
  | readCb didRead each limit io =>
    have hpos : (t.run (.readCb didRead each limit io)).pos = _ := readCb_pos t.isOpen
    have hle := @readCb_total_le σ t.file t.content t.pos didRead each limit
      { io with view := fun _ => t.file.view } t.user
    unfold Within at h
    refine (iff_of_eq (congrArg (· ≤ t.content.length) hpos)).trans ((jump_le_iff _ _ t.isOpen (by omega)).trans ?_)
    refine or_congr_right ?_
    show _ ↔ t.pos + 2 * (t.readCb didRead each limit io).1.total ≤ t.content.length
    unfold Seekable.readCb
    omega
  | writeAny data each limit sys => exact iff_of_true (writeBundle_within (by simp) data each limit h) trivial
  | writeRaw data each sys => exact iff_of_true (writePointer_within (by simp) data each _ h) trivial
  | writeAnyCb didWrote data each limit sys =>
    refine iff_of_true (writeBundle_within ?_ data each limit h) trivial
    rintro _ ⟨⟩
    exact wrote_within didWrote
  | writeRawCb didWrote data each limit sys =>
    refine iff_of_true (writePointer_within ?_ data each limit h) trivial
    rintro _ ⟨⟩
    exact wrote_within didWrote

/-- **The rest is told** in the runs whose calls all stay within the file, and in no others. -/
theorem rest_told_iff {t u : Seekable σ} (h : t.Within) (as : List (FileOp σ)) :
    Run (Kept TellsRest SeekStep) t as u ↔ Run (Guarded StaysWithin SeekStep) t as u := by
  have hstep : ∀ (t : Seekable σ) (a : FileOp σ) (u : Seekable σ), t.Within → SeekStep t a u →
      (u.Within ↔ t.StaysWithin a) := by
    rintro t a _ ht rfl
    exact run_within_iff ht a
  exact Run.kept_iff Within TellsRest h (fun t a u ht hst => tellsRest_iff.trans (hstep t a u ht hst))
    fun t a u ht hst hG => (hstep t a u ht hst).2 hG

/-! ## One byte -/

def oneByte : Seekable (Unit × List Str) := ⟨openA, by decide, false, str "a", 0, ((), [])⟩

/-- To the end, where nothing is left. -/
theorem rest_told_iff_end :
    Run (Kept TellsRest SeekStep) oneByte [.jump2Offset 1 none] (oneByte.run (.jump2Offset 1 none)) :=
  (rest_told_iff (by unfold Within; decide) _).2 (.single ⟨.inr (by decide), rfl⟩)

/-- **A rest of minus one byte**: after a jump behind the end, and after a callback read of the whole file. -/
theorem rest_negative :
    oneByte.Within ∧
      (∃ u, Run SeekStep oneByte [.jump2Offset 2 none] u ∧ u.ioRestPostion ⟨none, none⟩ = -1 ∧ ¬ u.TellsRest) ∧
      ∃ u, Run SeekStep oneByte [.readCb (record keepOn) 1 1 fullReads] u ∧ u.ioRestPostion ⟨none, none⟩ = -1 ∧
        ¬ u.TellsRest := by
  have hcb : NeverCancels keepOn := fun _ _ => rfl
  have hread : (oneByte.run (.readCb (record keepOn) 1 1 fullReads)).pos = 2 :=
    (@readCb_limited Unit openA (str "a") 0 keepOn fullReads rfl (by decide) fullReads_succeeds hcb 1 (by decide) 1 ()).2
  have hrest : (oneByte.run (.readCb (record keepOn) 1 1 fullReads)).ioRestPostion ⟨none, none⟩ = -1 := by
    rw [ioRestPostion_ok, hread]
    decide
  refine ⟨by unfold Within; decide, ⟨_, .single rfl, by decide, fun h => ?_⟩, ⟨_, .single rfl, hrest, fun h => ?_⟩⟩
  · exact absurd (tellsRest_iff.1 h) (by unfold Within; decide)
  · have hwithin := tellsRest_iff.1 h
    unfold Within at hwithin
    rw [hread] at hwithin
    exact absurd hwithin (by decide)

end Seekable

end CtiLog
