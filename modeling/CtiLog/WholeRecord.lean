import CtiLog.SpinLevel
/-
# What `append` reports of a record

The five-argument `append` writes a record with two `fwrite`s, reports the first, and never looks at the second. What
it reports is an `int64_t` that it returns as an `int`.

* `logStream` — the stream of the append, if it gets one; `enter_file` — the way to it.
* `AcceptsWhole` — the log takes the line and its newline.
* `append5_ret` — what is returned, by how the line went.
* `append5_whole_iff` — when the sign of the result tells whether the record is whole.
-/

namespace CtiLog

namespace Logger

/-- The log that is open, or that the append opens. -/
def logStream (pf : Platform) (io : AppendIO) (ll : LogLevel) (l : Logger) (w : World) : Option Stream :=
  if l.path = [] then none else ((l.gate ll).2.ensureLog pf io.reset0 io.fit w).2.1.log

/-- The line an append at `lvl` writes. -/
def lineOf (io : AppendIO) (m : Msg) (lvl : LogLevel) (l : Logger) (w : World) : Str :=
  lineText l.hasIdx l.hasTid (nextIdx w.idx) io.time io.tid lvl m

/-- The two `fwrite`s of an append put its line and a newline into the log. -/
def AcceptsWhole (pf : Platform) (io : AppendIO) (m : Msg) (l : Logger) (w : World) : Prop :=
  ∃ lvl l' w' s, l.enter pf io m.logLevel w = (.ok lvl, l', w') ∧ l'.log = some s ∧
    let line := l'.lineOf io m lvl w'
    let put := putRecord io line s w'.countRecord
    put.2.1.flushed put.2.2 = s.flushed w'.countRecord ++ (line ++ [10])

end Logger

theorem putRecord_flushed (io : AppendIO) (text : Str) (s : Stream) (w : World) :
    (Logger.putRecord io text s w).2.1.flushed (Logger.putRecord io text s w).2.2 =
      s.flushed w ++ (text.take (min io.line.taken text.length) ++ [10].take (min io.newline.taken 1)) := by
  rw [← List.append_assoc]
  unfold Logger.putRecord Logger.flushDue
  dsimp only
  split
  · rw [fflush_flushed, fwrite_flushed, fwrite_flushed]
    rfl
  · rw [fwrite_flushed, fwrite_flushed]
    rfl

/-! ## The way to the log -/

section
variable {pf : Platform} {l : Logger} {w : World} {io : AppendIO} {m : Msg} {lvl : LogLevel} {ll : LogLevel}

theorem ensureLog_code {reset0 : ResetIO} {fit : ShrinkIO} {r : Int} (h : (l.ensureLog pf reset0 fit w).1 = some r) :
    r = -EFAULT := by
  unfold Logger.ensureLog at h
  split at h
  · dsimp only at h
    split at h
    · split at h
      · cases h
      · exact (Option.some.inj h).symm
    · cases h
  · cases h

/-- **An append to a file** fails for want of a log, or gets to its log, if it has one. -/
theorem enter_file (hpath : l.path ≠ []) (hgate : (l.gate ll).1 = some lvl) (hout : l.outputs.testFlag .file = true) :
    (∃ l' w', l.enter pf io ll w = (.error (-EFAULT), l', w') ∧ l.logStream pf io ll w = none) ∨
    ∃ l' w', l.enter pf io ll w = (.ok lvl, l', w') ∧ l'.log = l.logStream pf io ll w := by
  have hrefused := fun r => @ensureLog_refused pf { l with spinOnceLogLevel := .unchange } w io.reset0 io.fit r hpath
  have hcode := fun r => @ensureLog_code pf { l with spinOnceLogLevel := .unchange } w io.reset0 io.fit r
  have henter := enter_enters pf io ll l w
  unfold Logger.logStream
  rw [if_neg hpath, gate_takes]
  generalize l.enter pf io ll w = e at *
  cases henter with
  | pathless h => exact absurd h hpath
  | gated _ hnone =>
    rw [hnone] at hgate
    cases hgate
  | silent _ _ hnone => exact absurd hnone (outputs_ne_none hout)
  | @refused _ r l' w' _ _ _ he =>
    rw [he] at hrefused hcode ⊢
    obtain rfl := hcode r rfl
    exact .inl ⟨l', w', rfl, (hrefused _ rfl).2⟩
  | @entered lvl' l' w' _ hlvl _ he =>
    rw [he]
    rw [hlvl] at hgate
    cases hgate
    exact .inr ⟨l', w', rfl, rfl⟩

theorem enter_line (hpath : l.path ≠ []) {l' : Logger} {w' : World} {v : Except Int LogLevel}
    (h : l.enter pf io ll w = (v, l', w')) (lvl : LogLevel) :
    l'.outputs = l.outputs ∧ l'.lineOf io m lvl w' = l.lineOf io m lvl w := by
  obtain ⟨o, ho⟩ := @enter_settings pf l w io ll hpath
  have hidx : (l.enter pf io ll w).2.2.idx = w.idx := @acts_idx pf _ True _ _ (enter_acts io ll)
  rw [gate_takes] at ho
  rw [h] at ho hidx
  obtain rfl : l' = _ := ho
  exact ⟨rfl, by simp only [Logger.lineOf, show w'.idx = w.idx from hidx]⟩

end

/-! ## Two `fwrite`s -/

theorem take_take_eq_iff (line : Str) (j k : Nat) :
    line.take (min j line.length) ++ [10].take (min k 1) = line ++ [10] ↔ line.length ≤ j ∧ 0 < k := by
  constructor
  · intro h
    have hlen := congrArg List.length h
    simp only [List.length_append, List.length_take, List.length_singleton] at hlen
    omega
  · rintro ⟨hj, hk⟩
    rw [Nat.min_eq_right hj, Nat.min_eq_right hk, List.take_length]
    rfl

theorem toInt32_nonneg_iff (n : Nat) : 0 ≤ toInt32 n ↔ n % 2 ^ 32 < 2 ^ 31 := by
  unfold toInt32 Int.bmod
  dsimp only
  split <;> omega

theorem toInt32_neg {n : Int} (hlt : n < 0) (hge : -2 ^ 31 < n) : toInt32 n < 0 := by
  unfold toInt32 Int.bmod
  dsimp only
  split <;> omega

theorem writeErrno_neg {errno : Nat} (h : errno < 2 ^ 31) : toInt32 (Logger.writeErrno errno) < 0 := by
  unfold Logger.writeErrno
  split
  · decide
  · exact toInt32_neg (by omega) (by omega)

section
variable {pf : Platform} {l : Logger} {w : World} {io : AppendIO} {m : Msg} {lvl : LogLevel}

/-- The record is in the log if the log takes both. -/
theorem acceptsWhole_iff (hpath : l.path ≠ []) (hgate : (l.gate m.logLevel).1 = some lvl)
    (hout : l.outputs.testFlag .file = true) :
    Logger.AcceptsWhole pf io m l w ↔ (l.logStream pf io m.logLevel w).isSome = true ∧
      (l.lineOf io m lvl w).length ≤ io.line.taken ∧ 0 < io.newline.taken := by
  unfold Logger.AcceptsWhole
  rcases @enter_file pf l w io lvl m.logLevel hpath hgate hout with ⟨l', w', he, hs⟩ | ⟨l', w', he, hs⟩
  · rw [he, hs]
    simp
  · have hline := fun lvl => (@enter_line pf l w io m m.logLevel hpath l' w' _ he lvl).2
    rw [← hs]
    constructor
    · rintro ⟨lvl', l'', w'', s, he', hlog, hput⟩
      cases he.symm.trans he'
      dsimp only at hput
      rw [putRecord_flushed, List.append_cancel_left_eq, take_take_eq_iff, hline] at hput
      exact ⟨by rw [hlog]; rfl, hput⟩
    · rintro ⟨hlog, hput⟩
      obtain ⟨s, hlog⟩ := Option.isSome_iff_exists.1 hlog
      refine ⟨lvl, l', w', s, he, hlog, ?_⟩
      dsimp only
      rw [putRecord_flushed, List.append_cancel_left_eq, take_take_eq_iff, hline]
      exact hput

/-- What the critical section makes of a line. -/
theorem writeRecord_ret (hout : l.outputs.testFlag .file = true) : (l.writeRecord io m lvl w).1.ret =
    let line := lineText l.hasIdx l.hasTid w.idx io.time io.tid lvl m
    match l.log with
    | none => (-ENOENT : Int)
    | some _ => if io.line.taken < line.length then Logger.writeErrno io.errno else line.length := by
  unfold Logger.writeRecord Logger.putRecord
  dsimp only
  rw [if_pos hout]
  cases hlog : l.log with
  | none => rfl
  | some s =>
    dsimp only
    rw [fwrite_count]
    by_cases hlt : io.line.taken < (lineText l.hasIdx l.hasTid w.idx io.time io.tid lvl m).length
    · rw [if_pos hlt, if_pos (by omega)]
    · rw [if_neg hlt, if_neg (by omega), Nat.min_eq_right (not_lt.1 hlt)]

/-- **What is returned** depends on the log and on how much of the line it takes. -/
theorem append5_ret (hpath : l.path ≠ []) (hgate : (l.gate m.logLevel).1 = some lvl)
    (hout : l.outputs.testFlag .file = true) :
    match l.logStream pf io m.logLevel w with
    | none => (l.append5 pf io m w).1.ret < 0
    | some _ => (l.append5 pf io m w).1.ret =
        toInt32 (if io.line.taken < (l.lineOf io m lvl w).length then Logger.writeErrno io.errno
          else (l.lineOf io m lvl w).length) := by
  unfold Logger.append5
  rcases @enter_file pf l w io lvl m.logLevel hpath hgate hout with ⟨l', w', he, hs⟩ | ⟨l', w', he, hs⟩
  · rw [he, hs]
    show (-EFAULT : Int) < 0
    decide
  · obtain ⟨hout', hline⟩ := @enter_line pf l w io m m.logLevel hpath l' w' _ he lvl
    have hret := @writeRecord_ret l' w'.countRecord io m lvl (by rw [hout']; exact hout)
    rw [he, ← hs, ← hline]
    dsimp only
    rw [hret]
    cases l'.log with
    | none =>
      show toInt32 (-ENOENT) < 0
      decide
    | some s => rfl

/-- **The result tells whether the record is whole** when there is no log, when the log takes only a part of the
line, and else when a newline is lost only after a line whose length is negative as an `int`, and lost after
each of these. -/
theorem append5_whole_iff (hgate : (l.gate m.logLevel).1 = some lvl) (hout : l.outputs.testFlag .file = true)
    (herrno : io.errno < 2 ^ 31) :
    (0 ≤ (l.append5 pf io m w).1.ret ↔ l.AcceptsWhole pf io m w) ↔
      l.logStream pf io m.logLevel w = none ∨ io.line.taken < (l.lineOf io m lvl w).length ∨
        ((l.lineOf io m lvl w).length % 2 ^ 32 < 2 ^ 31 ↔ 0 < io.newline.taken) := by
  by_cases hpath : l.path = []
  · have hret : (l.append5 pf io m w).1.ret = -EPERM := by simp [Logger.append5, Logger.enter, hpath]
    have hno : ¬ l.AcceptsWhole pf io m w := by
      rintro ⟨lvl, l', w', s, he, -⟩
      simp [Logger.enter, hpath] at he
    rw [hret]
    exact iff_of_true (iff_of_false (by decide) hno) (.inl (if_pos hpath))
  · have hret := @append5_ret pf l w io m lvl hpath hgate hout
    rw [acceptsWhole_iff hpath hgate hout]
    cases hs : l.logStream pf io m.logLevel w with
    | none =>
      rw [hs] at hret
      simp [not_le.2 hret]
    | some s =>
      rw [hs] at hret
      dsimp only at hret
      rw [hret]
      by_cases hlt : io.line.taken < (l.lineOf io m lvl w).length
      · have hneg := writeErrno_neg herrno
        rw [if_pos hlt]
        exact iff_of_true (iff_of_false (by omega) (by rintro ⟨-, h, -⟩; omega)) (.inr (.inl hlt))
      · rw [if_neg hlt, toInt32_nonneg_iff]
        simp [not_lt.1 hlt, hlt]

end

/-- Every `fwrite` takes all but the newline. -/
def AppendIO.lostNewline : AppendIO := { AppendIO.ok with newline := ⟨0, 0⟩ }

/-- The line is taken whole and its newline refused: the append returns its length. -/
theorem newline_lost :
    (openedA.append5 plain .lostNewline hello (openedWorld [])).1.ret = 21 ∧
      ¬ (0 ≤ (openedA.append5 plain .lostNewline hello (openedWorld [])).1.ret ↔
        openedA.AcceptsWhole plain .lostNewline hello (openedWorld [])) := by
  have hret : (openedA.append5 plain .lostNewline hello (openedWorld [])).1.ret = 21 := by decide
  refine ⟨hret, fun h => ?_⟩
  have hwhole := h.1 (by rw [hret]; decide)
  rw [@acceptsWhole_iff _ _ _ _ _ .note (by decide) (by decide) (by decide)] at hwhole
  exact absurd hwhole.2.2 (by decide)

theorem append5_whole_iff_hello :
    0 ≤ (openedA.append5 plain .ok hello (openedWorld [])).1.ret ↔
      openedA.AcceptsWhole plain .ok hello (openedWorld []) :=
  (@append5_whole_iff _ _ _ _ _ .note (by decide) (by decide) (by decide)).2 (.inr (.inr (by decide)))

end CtiLog
