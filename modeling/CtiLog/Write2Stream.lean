import CtiLog.Chunks
import CtiLog.FileUtil
/-
# `Write2Stream`

| here | there |
| --- | --- |
| `write2Stream`  | `Write2Stream` (file.cpp:262-301) |
| `streamTurn`    | one turn of its loop (:277-292) |
| `writeFail`     | its `write_fail` exit (:295-300) |

The function returns how much it has written, or an error when a `fwrite` takes less than it is given. It leaves its
loop when a `fwrite` takes nothing, too, and a chunk size of 0 asks for nothing: then nothing is written, and the
function returns 0 (`write2Stream_iff`).

* `streamTurn_steps` — what one turn does; `fed_of_pending` — where the turns start.
-/

namespace CtiLog

open Chunks

/-! ## The loop -/

/-- Memory of which `n` bytes at least can be read. -/
structure Buffer (n : Nat) where
  bytes : Str
  le : n ≤ bytes.length

/-- What the `k`-th `fwrite` answers: how much it takes at most, and `errno` afterwards. -/
structure StreamIO where
  taken : Nat → Nat
  errno : Nat → Nat

/-- What the stream was given: the bytes it took, and offset and size of every request. -/
structure Fed where
  accepted : Str
  requests : List (Nat × Nat)
deriving DecidableEq, Repr

def Fed.none : Fed := ⟨[], []⟩

structure Streamed where
  ret : Int
  stream : Fed
deriving DecidableEq, Repr

def writeFail (en : Nat) : Int := if en ≠ 0 then -en else -1

/-- `::fwrite(buffer + wt, 1, tow, stream)` and the look at its result. -/
def streamWrite (bytes : Str) (io : StreamIO) (k wt tow : Nat) (s : Fed) : Turn Fed :=
  let w := min (io.taken k) tow
  let s : Fed := ⟨s.accepted ++ (bytes.drop wt).take w, s.requests ++ [(wt, tow)]⟩
  if w ≠ tow then .leave (writeFail (io.errno k)) w s else .move w s

/-- One turn. The difference of a `uint32_t` and an `int64_t` is an `int64_t`, and compared as one. -/
def streamTurn (bytes : Str) (shouldWrite perWriteBytes : BitVec 32) (io : StreamIO) (k wt : Nat) (s : Fed) :
    Turn Fed :=
  let rest : Int := shouldWrite.toNat - wt
  if perWriteBytes.toNat ≤ rest then streamWrite bytes io k wt perWriteBytes.toNat s
  else if 0 < rest then streamWrite bytes io k wt rest.toNat s
  else .move 0 s

/-- `stream` tells whether there is one. -/
def write2Stream (shouldWrite perWriteBytes : BitVec 32) (buf : Option (Buffer shouldWrite.toNat)) (stream : Bool)
    (io : StreamIO) : Streamed :=
  match buf with
  | none => ⟨-EINVAL, .none⟩
  | some buffer =>
    if !stream then ⟨-EINVAL, .none⟩
    else
      let r := loop (streamTurn buffer.bytes shouldWrite perWriteBytes io) shouldWrite.toNat (some 0) 0 0 .none
      -- the negative codes are those of `write_fail`
      let en := r.ret.getD 0
      ⟨if en < 0 then en else r.total, r.st⟩

theorem writeFail_neg (en : Nat) : writeFail en < 0 := by
  unfold writeFail
  split <;> omega

/-! ## What a turn does -/

section
variable {bytes : Str} {shouldWrite perWriteBytes : BitVec 32} {io : StreamIO} {k wt : Nat} {s : Fed}

/-- A turn finds nothing left, or asks for a part of the rest and goes on with it or fails. -/
inductive StreamSteps (n : Nat) (bytes : Str) (wt : Nat) (s : Fed) : Turn Fed → Prop
  | done : n ≤ wt → StreamSteps n bytes wt s (.move 0 s)
  | wrote {tow : Nat} : wt + tow ≤ n →
      StreamSteps n bytes wt s (.move tow ⟨s.accepted ++ (bytes.drop wt).take tow, s.requests ++ [(wt, tow)]⟩)
  | short {tow w en : Nat} : wt + tow ≤ n → w < tow →
      StreamSteps n bytes wt s
        (.leave (writeFail en) w ⟨s.accepted ++ (bytes.drop wt).take w, s.requests ++ [(wt, tow)]⟩)

theorem streamWrite_steps {n tow : Nat} (h : wt + tow ≤ n) :
    StreamSteps n bytes wt s (streamWrite bytes io k wt tow s) := by
  unfold streamWrite
  dsimp only
  by_cases hw : min (io.taken k) tow = tow
  · rw [if_neg (not_not.2 hw), hw]
    exact .wrote h
  · rw [if_pos hw]
    exact .short h (lt_of_le_of_ne (min_le_right _ _) hw)

theorem streamTurn_steps (bytes : Str) (shouldWrite perWriteBytes : BitVec 32) (io : StreamIO) (k wt : Nat) (s : Fed) :
    StreamSteps shouldWrite.toNat bytes wt s (streamTurn bytes shouldWrite perWriteBytes io k wt s) := by
  unfold streamTurn
  dsimp only
  split
  · exact streamWrite_steps (by omega)
  · split
    · exact streamWrite_steps (by omega)
    · exact .done (by omega)

/-- With a chunk size, the only turn that moves nothing is one that finds nothing left. -/
theorem streamTurn_dry {s' : Fed} (hper : perWriteBytes ≠ 0)
    (h : streamTurn bytes shouldWrite perWriteBytes io k wt s = .move 0 s') : shouldWrite.toNat ≤ wt := by
  have hpos : 0 < perWriteBytes.toNat := Nat.pos_of_ne_zero fun h0 => hper (BitVec.eq_of_toNat_eq h0)
  have hwrite : ∀ tow, 0 < tow → streamWrite bytes io k wt tow s ≠ .move 0 s' := by
    intro tow htow he
    unfold streamWrite at he
    dsimp only at he
    split at he
    · cases he
    · have hmin := (Turn.move.inj he).1
      omega
  unfold streamTurn at h
  dsimp only at h
  split at h
  · exact absurd h (hwrite _ hpos)
  · split at h
    · exact absurd h (hwrite _ (by omega))
    · omega

/-! ## Where the turns start -/

/-- The stream has the first `wt` bytes, in requests that moved at least one byte each. -/
structure FedTo (n : Nat) (bytes : Str) (wt : Nat) (s : Fed) : Prop where
  le : wt ≤ n
  accepted : s.accepted = bytes.take wt
  inside : ∀ q ∈ s.requests, q.1 + q.2 ≤ n
  requests : s.requests.length ≤ wt

/-- A request, and what the stream takes of it. -/
theorem FedTo.write {n tow : Nat} (h : FedTo n bytes wt s) (w : Nat) (htow : wt + tow ≤ n) :
    s.accepted ++ (bytes.drop wt).take w = bytes.take (wt + w) ∧ (∀ q ∈ s.requests ++ [(wt, tow)], q.1 + q.2 ≤ n) ∧
      (s.requests ++ [(wt, tow)]).length ≤ wt + 1 := by
  refine ⟨?_, ?_, ?_⟩
  · rw [h.accepted, List.take_add]
  · intro q hq
    rcases List.mem_append.1 hq with hq | hq
    · exact h.inside q hq
    · cases List.mem_singleton.1 hq
      exact htow
  · have hle := h.requests
    simp only [List.length_append, List.length_singleton]
    omega

theorem fed_of_pending (hk : Pending (streamTurn bytes shouldWrite perWriteBytes io) shouldWrite.toNat .none k) :
    FedTo shouldWrite.toNat bytes (pos (streamTurn bytes shouldWrite perWriteBytes io) .none k).1
      (pos (streamTurn bytes shouldWrite perWriteBytes io) .none k).2 := by
  refine pos_inv (fun _ wt s => FedTo shouldWrite.toNat bytes wt s) ?_ ?_ k hk
  · exact ⟨Nat.zero_le _, rfl, fun q hq => (by cases hq), le_rfl⟩
  · intro k wt s n s' h hmove hn hlt
    have hsteps := streamTurn_steps bytes shouldWrite perWriteBytes io k wt s
    rw [hmove] at hsteps
    cases hsteps with
    | done => exact absurd rfl hn
    | wrote htow =>
      obtain ⟨haccepted, hinside, hrequests⟩ := h.write n htow
      exact ⟨htow, haccepted, hinside, hrequests.trans (by omega)⟩

/-! ## What is reported -/

/-- Requests lie within the `n` bytes of the buffer, the stream gets a prefix of it, and a result that is not an error
says that it got all. -/
structure AllOrNothing (n : Nat) (bytes : Str) (r : Streamed) : Prop where
  inside : ∀ q ∈ r.stream.requests, q.1 + q.2 ≤ n
  order : r.stream.accepted <+: bytes
  ends : r.stream.requests.length ≤ n + 1
  whole : 0 ≤ r.ret → r.stream.accepted.length = n ∧ r.ret = n

theorem allOrNothing_refused {n : Nat} : AllOrNothing n bytes ⟨-EINVAL, .none⟩ where
  inside := fun q hq => by cases hq
  order := List.nil_prefix
  ends := Nat.zero_le _
  whole := fun h => absurd h (by decide)

/-- The stream got the whole buffer, and its size is returned. -/
theorem allOrNothing_whole {n : Nat} {s : Fed} (hle : n ≤ bytes.length) (haccepted : s.accepted = bytes.take n)
    (hinside : ∀ q ∈ s.requests, q.1 + q.2 ≤ n) (hrequests : s.requests.length ≤ n + 1) :
    AllOrNothing n bytes ⟨n, s⟩ where
  inside := hinside
  order := by
    dsimp only
    rw [haccepted]
    exact List.take_prefix n bytes
  ends := hrequests
  whole := fun _ => by
    dsimp only
    rw [haccepted, List.length_take, Nat.min_eq_left hle]
    exact ⟨rfl, rfl⟩

/-- A turn that ends the loop, with a chunk size, or with nothing to write. -/
theorem ends_allOrNothing {r : Result Fed} (h : perWriteBytes ≠ 0 ∨ shouldWrite = 0)
    (hle : shouldWrite.toNat ≤ bytes.length) (hfed : FedTo shouldWrite.toNat bytes wt s)
    (hends : Ends (streamTurn bytes shouldWrite perWriteBytes io) shouldWrite.toNat (some 0) k wt s r) :
    AllOrNothing shouldWrite.toNat bytes ⟨if r.ret.getD 0 < 0 then r.ret.getD 0 else r.total, r.st⟩ := by
  have hsteps := streamTurn_steps bytes shouldWrite perWriteBytes io k wt s
  cases hends with
  | @left en w s' hturn =>
    rw [hturn] at hsteps
    cases hsteps with
    | @short tow _ e htow hw =>
      obtain ⟨haccepted, hinside, hrequests⟩ := hfed.write w htow
      refine ⟨hinside, ?_, hrequests.trans (by omega), fun hret => ?_⟩
      · dsimp only
        rw [haccepted]
        exact List.take_prefix _ _
      · have hneg := writeFail_neg e
        dsimp only [Option.getD_some] at hret
        rw [if_pos hneg] at hret
        omega
  | @dry s' hturn =>
    have hall : shouldWrite.toNat ≤ wt := by
      rcases h with hper | hzero
      · exact streamTurn_dry hper hturn
      · rw [hzero]
        exact Nat.zero_le _
    obtain rfl : wt = shouldWrite.toNat := le_antisymm hfed.le hall
    rw [hturn] at hsteps
    cases hsteps with
    | done => exact allOrNothing_whole hle hfed.accepted hfed.inside (hfed.requests.trans (Nat.le_succ _))
    | wrote htow =>
      obtain ⟨haccepted, hinside, hrequests⟩ := hfed.write 0 htow
      exact allOrNothing_whole hle haccepted hinside hrequests
  | @full w s' hturn hn hmax =>
    rw [hturn] at hsteps
    cases hsteps with
    | done => exact absurd rfl hn
    | wrote htow =>
      obtain ⟨haccepted, hinside, hrequests⟩ := hfed.write w htow
      have hwt : wt + w = shouldWrite.toNat := le_antisymm htow hmax
      rw [hwt] at haccepted ⊢
      exact allOrNothing_whole hle haccepted hinside (hrequests.trans (by omega))

theorem loop_allOrNothing (buffer : Buffer shouldWrite.toNat) (h : perWriteBytes ≠ 0 ∨ shouldWrite = 0) :
    AllOrNothing shouldWrite.toNat buffer.bytes (write2Stream shouldWrite perWriteBytes (some buffer) true io) := by
  obtain ⟨k, hk, hends⟩ := loop_ends (streamTurn buffer.bytes shouldWrite perWriteBytes io) shouldWrite.toNat (some 0) .none
  exact ends_allOrNothing h buffer.le (fed_of_pending hk) hends

/-- A chunk size of 0: one request of no bytes, and 0 returned. -/
theorem write2Stream_zero (buffer : Buffer shouldWrite.toNat) :
    write2Stream shouldWrite 0 (some buffer) true io = ⟨0, ⟨[], [(0, 0)]⟩⟩ := by
  have hturn : streamTurn buffer.bytes shouldWrite 0 io 0 0 .none = .move 0 ⟨[], [(0, 0)]⟩ := by
    unfold streamTurn streamWrite
    simp [Fed.none]
  unfold write2Stream
  dsimp only
  rw [if_neg (by decide), loop_of_ends_here (.dry hturn)]
  rfl

/-- **All or nothing**, unless a chunk size of 0 is given for something to write. -/
theorem write2Stream_iff (shouldWrite perWriteBytes : BitVec 32) (buf : Option (Buffer shouldWrite.toNat))
    (stream : Bool)
    (io : StreamIO) :
    AllOrNothing shouldWrite.toNat (buf.elim [] Buffer.bytes) (write2Stream shouldWrite perWriteBytes buf stream io) ↔
      buf = none ∨ stream = false ∨ perWriteBytes ≠ 0 ∨ shouldWrite = 0 := by
  cases buf with
  | none => exact iff_of_true allOrNothing_refused (.inl rfl)
  | some buffer =>
    cases stream with
    | false => exact iff_of_true allOrNothing_refused (.inr (.inl rfl))
    | true =>
      by_cases h : perWriteBytes ≠ 0 ∨ shouldWrite = 0
      · exact iff_of_true (loop_allOrNothing buffer h) (.inr (.inr h))
      · refine iff_of_false (fun hall => h (.inr ?_)) (by simpa using not_or.1 h)
        obtain rfl : perWriteBytes = 0 := not_not.1 fun hper => h (.inl hper)
        rw [write2Stream_zero] at hall
        exact BitVec.eq_of_toNat_eq (hall.whole le_rfl).1.symm

end

/-! ## Five bytes in chunks of none -/

def helloBuffer : Buffer (5#32).toNat := ⟨str "hello", by decide⟩

/-- **Nothing is written, and 0 returned**: the stream would take all. -/
theorem nothing_written :
    write2Stream 5 0 (some helloBuffer) true ⟨fun _ => 8192, fun _ => 0⟩ = ⟨0, ⟨[], [(0, 0)]⟩⟩ ∧
      ¬ AllOrNothing 5 (str "hello") (write2Stream 5 0 (some helloBuffer) true ⟨fun _ => 8192, fun _ => 0⟩) := by
  have hret : write2Stream 5 0 (some helloBuffer) true ⟨fun _ => 8192, fun _ => 0⟩ = ⟨0, ⟨[], [(0, 0)]⟩⟩ :=
    write2Stream_zero helloBuffer
  refine ⟨hret, fun h => ?_⟩
  have hwhole := h.whole
  rw [hret] at hwhole
  exact absurd (hwhole le_rfl).1 (by decide)

end CtiLog
