import Mathlib.Tactic
/-
# A log with a buffered end and one backup

What a rotating log is for, over any kind of bytes: what is written is on disk, still in a buffer, or
in the backup a rotation made. Nothing here knows of files or loggers.

* `Tape` — disk, buffer, backup; `put`, `spill`, `flush`, `fit` (the size check).
* `fit_all_suffix` — a check loses no byte in the middle, if the log is not longer than the limit.
* `Tally` — the records of a log, how many of them are not flushed and how many the last check missed;
  `Tally.Bounded` bounds the log by its limit and these records, and every operation keeps it.
-/

namespace Rotating

variable {α : Type*}

/-! ## Tapes -/

@[ext]
structure Tape (α : Type*) where
  disk : List α
  buf : List α
  backup : List α

namespace Tape

/-- What the log holds, written out or not. -/
def live (t : Tape α) : List α := t.disk ++ t.buf

/-- Backup and log. -/
def all (t : Tape α) : List α := t.backup ++ t.live

def put (t : Tape α) (bs : List α) : Tape α := { t with buf := t.buf ++ bs }

/-- The first `k` buffered bytes are written out. -/
def spill (t : Tape α) (k : Nat) : Tape α := { t with disk := t.disk ++ t.buf.take k, buf := t.buf.drop k }

def flush (t : Tape α) : Tape α := { t with disk := t.live, buf := [] }

/-- The log is copied to the backup, `limit` bytes at most, and emptied. -/
def rotate (t : Tape α) (limit : Nat) : Tape α := ⟨[], [], t.live.take limit⟩

/-- The size check: what is on disk may be half of the limit. -/
def fit (t : Tape α) (limit : Nat) : Tape α := if limit / 2 < t.disk.length then t.rotate limit else t

variable (t : Tape α) (bs cs : List α) (j k limit : Nat)

@[simp] theorem live_put : (t.put bs).live = t.live ++ bs := by simp [put, live]
@[simp] theorem live_spill : (t.spill k).live = t.live := by simp [spill, live]
@[simp] theorem live_flush : t.flush.live = t.live := by simp [flush, live]
@[simp] theorem all_put : (t.put bs).all = t.all ++ bs := by simp [all, put, live]
@[simp] theorem all_spill : (t.spill k).all = t.all := by simp [all, spill, live]
@[simp] theorem all_flush : t.flush.all = t.all := by simp [all, flush, live]
@[simp] theorem buf_put : (t.put bs).buf = t.buf ++ bs := rfl
@[simp] theorem disk_put : (t.put bs).disk = t.disk := rfl
@[simp] theorem buf_flush : t.flush.buf = [] := rfl
@[simp] theorem live_rotate : (t.rotate limit).live = [] := rfl
@[simp] theorem buf_rotate : (t.rotate limit).buf = [] := rfl

theorem length_live : t.live.length = t.disk.length + t.buf.length := by simp [live]

theorem buf_spill_le : (t.spill k).buf.length ≤ t.buf.length := by simp [spill]

/-- Bytes written out before more was put are written out after it. -/
theorem spill_put : (t.spill k).put bs = (t.put bs).spill (min k t.buf.length) := by
  ext1
  · simp [spill, put, List.take_append_of_le_length (Nat.min_le_right k t.buf.length), List.take_eq_take_min]
  · rcases Nat.le_total k t.buf.length with h | h
    · simp [spill, put, Nat.min_eq_left h, List.drop_append_of_le_length h]
    · simp [spill, put, Nat.min_eq_right h, List.drop_of_length_le h]
  · rfl

theorem spill_spill : (t.spill j).spill k = t.spill (min j t.buf.length + k) := by
  rcases Nat.le_total j t.buf.length with h | h
  · rw [Nat.min_eq_left h]
    ext1
    · simp [spill, List.take_add]
    · simp [spill]
    · rfl
  · rw [Nat.min_eq_right h]
    ext1
    · simp [spill, List.take_of_length_le h, List.drop_of_length_le h]
    · simp [spill, List.drop_of_length_le h]
    · rfl

/-- A record that is written in two pieces. -/
theorem put_in_pieces : ∃ i, ((((t.put bs).spill j).put cs).spill k) = (t.put (bs ++ cs)).spill i := by
  have hput : (t.put bs).put cs = t.put (bs ++ cs) := by simp [put]
  rw [spill_put, spill_spill, hput]
  exact ⟨_, rfl⟩

theorem fit_of_le (h : t.disk.length ≤ limit / 2) : t.fit limit = t := if_neg (not_lt.2 h)

theorem fit_of_lt (h : limit / 2 < t.disk.length) : t.fit limit = t.rotate limit := if_pos h

/-- **A check loses no byte in the middle** of a log that is not longer than the limit. -/
theorem fit_all_suffix (h : t.live.length ≤ limit) : (t.fit limit).all <:+ t.all := by
  unfold fit
  split
  · rw [all, live_rotate, List.append_nil, rotate, List.take_of_length_le h]
    exact List.suffix_append _ _
  · exact List.suffix_refl _

/-- What is left of the log is at most half of the limit and what was buffered. -/
theorem fit_length : (t.fit limit).live.length ≤ limit / 2 + t.buf.length := by
  by_cases h : limit / 2 < t.disk.length
  · rw [fit_of_lt t limit h, live_rotate]
    exact Nat.zero_le _
  · rw [fit_of_le t limit (not_lt.1 h), length_live]
    omega

theorem fit_buf_le : (t.fit limit).buf.length ≤ t.buf.length := by
  unfold fit
  split
  · simp
  · exact le_rfl

end Tape

/-! ## Tallies -/

/-- Total length of the newest `n` records. -/
def newestLength (n : Nat) (recs : List (List α)) : Nat := ((recs.take n).map List.length).sum

theorem newestLength_cons (n : Nat) (r : List α) (recs : List (List α)) :
    newestLength (n + 1) (r :: recs) = r.length + newestLength n recs := by
  simp [newestLength]

theorem newestLength_mono {n m : Nat} (h : n ≤ m) (recs : List (List α)) :
    newestLength n recs ≤ newestLength m recs := by
  induction recs generalizing n m with
  | nil => simp [newestLength]
  | cons r recs ih =>
    cases n with
    | zero => simp [newestLength]
    | succ n =>
      obtain ⟨m, rfl⟩ : ∃ m', m = m' + 1 := ⟨m - 1, by omega⟩
      rw [newestLength_cons, newestLength_cons]
      exact Nat.add_le_add_left (ih (Nat.le_of_succ_le_succ h)) _

structure Tally (α : Type*) where
  /-- Newest first. -/
  recs : List (List α)
  /-- Records since the last flush. -/
  held : Nat
  /-- Records that the last check cannot have seen. -/
  lag : Nat

namespace Tally

def put (c : Tally α) (r : List α) : Tally α := ⟨r :: c.recs, c.held + 1, c.lag + 1⟩

def flush (c : Tally α) : Tally α := { c with held := 0 }

/-- A check that left `t`: it saw what was flushed, or it rotated. -/
def fit (c : Tally α) (t : Tape α) : Tally α :=
  if t.live.length = 0 then { c with held := 0, lag := 0 } else { c with lag := c.held }

structure Bounded (limit : Nat) (t : Tape α) (c : Tally α) : Prop where
  buf : t.buf.length ≤ newestLength c.held c.recs
  live : t.live.length ≤ limit / 2 + newestLength c.lag c.recs

variable {limit : Nat} {t : Tape α} {c : Tally α}

theorem Bounded.put (h : Bounded limit t c) (r : List α) : Bounded limit (t.put r) (c.put r) := by
  constructor
  · have := h.buf
    simp only [Tally.put, Tape.buf_put, List.length_append, newestLength_cons]
    omega
  · have := h.live
    simp only [Tally.put, Tape.live_put, List.length_append, newestLength_cons]
    omega

theorem Bounded.spill (h : Bounded limit t c) (k : Nat) : Bounded limit (t.spill k) c := by
  refine ⟨(t.buf_spill_le k).trans h.buf, ?_⟩
  rw [Tape.live_spill]
  exact h.live

theorem Bounded.flush (h : Bounded limit t c) : Bounded limit t.flush c.flush := by
  refine ⟨Nat.zero_le _, ?_⟩
  rw [Tape.live_flush]
  exact h.live

/-- **A check bounds the log anew**, by the records that were not flushed before it. -/
theorem Bounded.fit (h : Bounded limit t c) : Bounded limit (t.fit limit) (c.fit (t.fit limit)) := by
  have hlive := t.fit_length limit
  have hbuf := t.fit_buf_le limit
  have hheld := h.buf
  unfold Tally.fit
  split
  · rename_i hempty
    rw [Tape.length_live] at hempty
    exact ⟨by omega, by rw [Tape.length_live]; omega⟩
  · refine ⟨hbuf.trans hheld, ?_⟩
    show (t.fit limit).live.length ≤ limit / 2 + newestLength c.held c.recs
    omega

/-- A check of a log with no records. -/
theorem fit_fresh (hheld : c.held = 0) (hlag : c.lag = 0) (t : Tape α) : c.fit t = c := by
  unfold fit
  obtain ⟨recs, held, lag⟩ := c
  obtain rfl : held = 0 := hheld
  obtain rfl : lag = 0 := hlag
  split <;> rfl

/-- A log whose last check missed at most `n` records. -/
theorem Bounded.within (h : Bounded limit t c) {n : Nat} (hn : c.lag ≤ n) :
    t.live.length ≤ limit / 2 + newestLength n c.recs :=
  h.live.trans (Nat.add_le_add_left (newestLength_mono hn _) _)

end Tally

end Rotating
