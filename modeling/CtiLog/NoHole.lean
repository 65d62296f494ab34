import CtiLog.Append
import CtiLog.Frame
import CtiLog.Runs
/-
# No hole in what is retained

One logger, the only one, whose lines are at most a fourteenth of `maxSize`: the backup and the log
hold a suffix of everything there was and everything emitted since (`no_hole`).

A rotation copies at most `maxSize` bytes, so nothing may be lost as long as the log is not longer
when it is checked. Between two checks it grows by five lines; what a check does not see is what was
not flushed, two lines at most; and what it sees is half of `maxSize`:

| | fourteenths of `maxSize` |
| --- | --- |
| on disk at a check that does not rotate   | 7 |
| buffered, `kLogIdx % 3` lines             | 2 |
| since the check, `kLogIdx % 5` lines      | 5 |

An append that opens the log checks it. A `reset` opens it too, and does not: then five lines may come
before the first check, and a log that has no room for them loses what is over (`five_lost`).

* `Paced` — the room a log has; `Paced.append` — one record keeps it.
-/

namespace CtiLog

open Rotating Runs

/-! ## The pace of flushes and checks -/

/-- The counter's remainder starts anew or grows by one, also where the counter wraps. -/
theorem nextIdx_mod {i n : Nat} (hi : i < 2 ^ 64) (hn : 0 < n) : nextIdx i % n = 0 ∨ nextIdx i % n = i % n + 1 := by
  unfold nextIdx
  by_cases hwrap : i + 1 = 2 ^ 64
  · left
    simp [hwrap]
  · have hlt : i + 1 < 2 ^ 64 := by omega
    rw [Nat.mod_eq_of_lt hlt, ← Nat.mod_add_mod i n 1]
    have := Nat.mod_lt i hn
    by_cases hlast : i % n + 1 = n
    · left
      rw [hlast, Nat.mod_self]
    · right
      rw [Nat.mod_eq_of_lt (by omega)]

theorem nextIdx_lt (i : Nat) : nextIdx i < 2 ^ 64 := Nat.mod_lt _ (by decide)

/-- Room for the lines that a size check will see too late, each a fourteenth of the limit, at a given `kLogIdx`. -/
structure Paced (limit idx : Nat) (t : Tape UInt8) : Prop where
  /-- The log is not longer than the limit when it is checked. -/
  room : t.live.length + (kShrinkToFitInteval - idx % kShrinkToFitInteval) * (limit / 14) ≤ limit
  /-- A check that comes before a flush does not see what is buffered; then neither is it too long at the
  check after it. -/
  unseen : kShrinkToFitInteval - idx % kShrinkToFitInteval < kFlushInteval - idx % kFlushInteval →
    t.disk.length ≤ limit / 2 →
      t.live.length + (kShrinkToFitInteval - idx % kShrinkToFitInteval + kShrinkToFitInteval) * (limit / 14) ≤ limit

variable {limit idx k : Nat} {t : Tape UInt8} {line : Str}

/-- Half of the limit, and seven lines. -/
theorem half_room (limit : Nat) {i : Nat} (hi : i ≤ 7) : limit / 2 + i * (limit / 14) ≤ limit := by
  have hmul : i * (limit / 14) ≤ 7 * (limit / 14) := Nat.mul_le_mul_right _ hi
  omega

/-- What is on disk is at most a half, and nothing is buffered. -/
theorem Paced.of_disk (hdisk : t.disk.length ≤ limit / 2) (hbuf : t.buf = []) : Paced limit idx t := by
  have hlive : t.live.length = t.disk.length := by rw [Tape.length_live, hbuf, List.length_nil, Nat.add_zero]
  have hroom : ∀ i ≤ 7, t.live.length + i * (limit / 14) ≤ limit := fun i hi =>
    (Nat.add_le_add_right (hlive ▸ hdisk) _).trans (half_room limit hi)
  have hflush : kFlushInteval - idx % kFlushInteval ≤ 3 := Nat.sub_le 3 _
  refine ⟨hroom _ ((Nat.sub_le 5 _).trans (by decide)), fun hlt _ => hroom _ ?_⟩
  show _ + 5 ≤ 7
  omega

theorem Paced.spill (h : Paced limit idx t) (k : Nat) : Paced limit idx (t.spill k) := by
  have hdisk : t.disk.length ≤ (t.spill k).disk.length := (List.prefix_append t.disk (t.buf.take k)).length_le
  constructor
  · rw [Tape.live_spill]
    exact h.room
  · rw [Tape.live_spill]
    exact fun hlt hle => h.unseen hlt (hdisk.trans hle)

/-- A log just opened and checked. -/
theorem Paced.opened (hbuf : t.buf = []) : Paced limit idx (t.fit limit) := by
  have hle := t.fit_length limit
  have hbuf' := t.fit_buf_le limit
  rw [hbuf] at hle hbuf'
  refine .of_disk ?_ (List.eq_nil_of_length_eq_zero (Nat.le_zero.1 hbuf'))
  rw [Tape.length_live] at hle
  exact (Nat.le_add_right _ _).trans hle

/-- The log is not longer than the limit when it is checked. -/
theorem Paced.live_le (h : Paced limit idx t) (hline : 14 * line.length ≤ limit) :
    (t.put line).live.length ≤ limit := by
  have hroom := h.room
  have hmod : idx % kShrinkToFitInteval < 5 := Nat.mod_lt _ (by decide)
  have hmul : 1 * (limit / 14) ≤ (kShrinkToFitInteval - idx % kShrinkToFitInteval) * (limit / 14) :=
    Nat.mul_le_mul_right _ (Nat.sub_pos_of_lt hmod)
  rw [Tape.live_put, List.length_append]
  omega

/-- One record fewer until the next check. -/
theorem next_check (hidx : idx < 2 ^ 64) (h : nextIdx idx % kShrinkToFitInteval ≠ 0) :
    kShrinkToFitInteval - nextIdx idx % kShrinkToFitInteval + 1 = kShrinkToFitInteval - idx % kShrinkToFitInteval := by
  have hnext := (nextIdx_mod (n := kShrinkToFitInteval) hidx (by decide)).resolve_left h
  have hmod : nextIdx idx % kShrinkToFitInteval < kShrinkToFitInteval := Nat.mod_lt _ (by decide)
  omega

/-- … and until the next flush. -/
theorem next_flush (hidx : idx < 2 ^ 64) (h : nextIdx idx % kFlushInteval ≠ 0) :
    kFlushInteval - nextIdx idx % kFlushInteval + 1 = kFlushInteval - idx % kFlushInteval := by
  have hnext := (nextIdx_mod (n := kFlushInteval) hidx (by decide)).resolve_left h
  have hmod : nextIdx idx % kFlushInteval < kFlushInteval := Nat.mod_lt _ (by decide)
  omega

/-- A check without a flush: the next one was to come before the next flush. -/
theorem check_unflushed (hidx : idx < 2 ^ 64) (hcheck : nextIdx idx % kShrinkToFitInteval = 0)
    (hflush : nextIdx idx % kFlushInteval ≠ 0) :
    kShrinkToFitInteval - idx % kShrinkToFitInteval = 1 ∧
      kShrinkToFitInteval - idx % kShrinkToFitInteval < kFlushInteval - idx % kFlushInteval := by
  have hnext : nextIdx idx = idx + 1 := by
    by_contra hne
    have hzero : nextIdx idx = 0 := by
      unfold nextIdx at hne ⊢
      omega
    rw [hzero] at hflush
    exact hflush rfl
  rw [hnext] at hcheck hflush
  unfold kShrinkToFitInteval at hcheck ⊢
  unfold kFlushInteval at hflush ⊢
  omega

/-- **One record keeps the pace.** -/
theorem Paced.append (hidx : idx < 2 ^ 64) (hline : 14 * line.length ≤ limit) (h : Paced limit idx t) :
    Paced limit (nextIdx idx)
      (tapeCheck (nextIdx idx) limit (tapeFlush (nextIdx idx) (((t.put line).spill k)))) := by
  have hline' : line.length ≤ limit / 14 := by omega
  have hroom := h.room
  have hunseen := h.unseen
  -- the log grows by a line; it is flushed, or less of it is on disk than is to come
  obtain ⟨u, hu, hlive, hdisk, hflushed⟩ : ∃ u, u = tapeFlush (nextIdx idx) ((t.put line).spill k) ∧
      u.live.length = t.live.length + line.length ∧ t.disk.length ≤ u.disk.length ∧
      (nextIdx idx % kFlushInteval = 0 → u.buf = []) := by
    refine ⟨_, rfl, ?_⟩
    unfold tapeFlush
    split
    · refine ⟨by simp, ?_, fun _ => rfl⟩
      simp [Tape.flush, Tape.live, Tape.put, Tape.spill]
    · rename_i hne
      refine ⟨by simp, ?_, fun h => absurd h hne⟩
      simp [Tape.put, Tape.spill]
  rw [← hu]
  unfold tapeCheck
  split
  · rename_i hcheck
    unfold Tape.fit
    split
    · exact .of_disk (Nat.zero_le _) rfl
    · rename_i hhalf
      have hhalf := not_lt.1 hhalf
      by_cases hf : nextIdx idx % kFlushInteval = 0
      · exact .of_disk hhalf (hflushed hf)
      -- what is not flushed has not been seen
      · obtain ⟨hc, hf'⟩ := check_unflushed hidx hcheck hf
        have hold := hunseen hf' (hdisk.trans hhalf)
        rw [hc] at hold
        constructor
        · rw [hcheck]
          show _ + 5 * _ ≤ _
          change _ + 6 * _ ≤ _ at hold
          omega
        · rw [hcheck]
          intro hlt
          exact absurd (hlt.trans_le (Nat.sub_le 3 _)) (by decide)
  · rename_i hcheck
    have hnext := next_check hidx hcheck
    rw [← hnext, Nat.add_mul] at hroom
    refine ⟨by omega, fun hlt hhalf => ?_⟩
    by_cases hf : nextIdx idx % kFlushInteval = 0
    · have hlen := u.length_live
      rw [hflushed hf, List.length_nil, Nat.add_zero] at hlen
      rw [hlen]
      refine (Nat.add_le_add_right hhalf _).trans (half_room limit ?_)
      rw [hf] at hlt
      show _ + 5 ≤ 7
      have hlt : kShrinkToFitInteval - nextIdx idx % kShrinkToFitInteval < 3 := hlt
      omega
    · have hflush := next_flush hidx hf
      have hold := hunseen (by omega) (hdisk.trans hhalf)
      rw [← hnext, Nat.add_right_comm, Nat.add_mul _ 1] at hold
      omega

/-- What one record leaves is a suffix of what was there and the record. -/
theorem Paced.append_suffix (hline : 14 * line.length ≤ limit) (h : Paced limit idx t) {i : Nat} :
    (tapeCheck i limit (tapeFlush i ((t.put line).spill k))).all <:+ t.all ++ line := by
  have hle := h.live_le hline
  have hflush : (tapeFlush i ((t.put line).spill k)).live = (t.put line).live ∧
      (tapeFlush i ((t.put line).spill k)).all = t.all ++ line := by
    unfold tapeFlush
    split <;> simp
  generalize tapeFlush i ((t.put line).spill k) = u at *
  rw [← hflush.2]
  unfold tapeCheck
  split
  · exact u.fit_all_suffix limit (hflush.1 ▸ hle)
  · exact List.suffix_refl _

/-! ## Runs of a single logger -/

/-- The only logger of a process, and the lines it has emitted, newlines included. -/
structure Sole where
  log : Logger
  world : World
  emitted : Str

/-- An append, or stdio writing out buffered bytes on its own. -/
inductive SoleAct where
  | append (io : AppendIO) (m : Msg)
  | spill (k : Nat)

/-- Every call succeeds, and a line is at most a fourteenth of `maxSize`. -/
inductive SoleStep (pf : Platform) : Sole → SoleAct → Sole → Prop
  | append {t : Sole} (io : AppendIO) (m : Msg) : io.Ok pf m t.log t.world →
      (∀ e ∈ (t.log.append5 pf io m t.world).1.entry, 14 * e.line.length ≤ t.log.maxSize.bytes) →
      SoleStep pf t (.append io m)
        ⟨(t.log.append5 pf io m t.world).2.1, (t.log.append5 pf io m t.world).2.2,
          t.emitted ++ (t.log.append5 pf io m t.world).1.entry.elim [] Entry.line⟩
  | spill {t : Sole} {s : Stream} (k : Nat) : t.log.log = some s →
      SoleStep pf t (.spill k)
        ⟨{ t.log with log := some (s.spill k t.world).1 }, (s.spill k t.world).2, t.emitted⟩

def Sole.tape (pf : Platform) (t : Sole) : Tape UInt8 := t.log.tape pf t.world

structure SoleInv (pf : Platform) (start : Str) (t : Sole) : Prop where
  path : t.log.path ≠ []
  outputs : t.log.outputs = .file
  sound : Sound pf t.log t.world
  idx : t.world.idx < 2 ^ 64
  closed : t.log.log = none → (t.tape pf).live.length ≤ t.log.maxSize.bytes
  opened : t.log.log ≠ none → Paced t.log.maxSize.bytes t.world.idx (t.tape pf)
  suffix : (t.tape pf).all <:+ start ++ t.emitted

/-- The tape an append writes to: if it has to open the log, that checks it first. -/
theorem SoleInv.ready {pf : Platform} {start : Str} {t : Sole} (h : SoleInv pf start t) :
    Paced t.log.maxSize.bytes t.world.idx (tapeOpen t.log (t.tape pf)) ∧
      (tapeOpen t.log (t.tape pf)).all <:+ start ++ t.emitted := by
  unfold tapeOpen
  split
  · rename_i hlog
    have hbuf : (t.tape pf).buf = [] := by
      show t.log.log.elim [] Stream.buf = []
      rw [hlog]
      rfl
    exact ⟨.opened hbuf, ((t.tape pf).fit_all_suffix _ (h.closed hlog)).trans h.suffix⟩
  · rename_i hlog
    exact ⟨h.opened hlog, h.suffix⟩

/-- **Step lemma.** -/
theorem soleStep_inv {pf : Platform} {start : Str} {t u : Sole} {a : SoleAct} (ht : SoleInv pf start t)
    (h : SoleStep pf t a u) : SoleInv pf start u := by
  cases h with
  | append io m hio hshort =>
    have hout : t.log.outputs.testFlag .file = true := by
      rw [ht.outputs]
      rfl
    obtain ⟨hpaced, hsuffix⟩ := ht.ready
    rcases append5_tape ht.path hout ht.sound hio with ⟨q, he, hr⟩ | ⟨e, q, k, s, w', he, hr, hopen, hidx, htape⟩
    · rw [he, hr]
      refine ⟨ht.path, ht.outputs, ?_, ht.idx, ht.closed, ht.opened, ?_⟩
      · exact ht.sound.imp id fun ⟨s, hs⟩ => ⟨s, hs.spin⟩
      · rw [Option.elim, List.append_nil]
        exact ht.suffix
    · have hline : 14 * e.line.length ≤ t.log.maxSize.bytes := hshort e he
      rw [he, hr]
      refine ⟨ht.path, ht.outputs, .inr ⟨s, hopen⟩, ?_, fun hlog => (by cases hlog), fun _ => ?_, ?_⟩
      · rw [hidx]
        exact nextIdx_lt _
      · unfold Sole.tape
        rw [htape, hidx]
        exact hpaced.append ht.idx hline
      · unfold Sole.tape
        rw [htape, Option.elim, ← List.append_assoc]
        exact (hpaced.append_suffix hline).trans (List.suffix_append_self_iff.2 hsuffix)
  | spill k hs =>
    rename_i s
    obtain ⟨s', hopen⟩ := ht.sound.resolve_left (by simp [hs])
    obtain rfl : s = s' := by
      rw [hopen.log] at hs
      exact (Option.some.inj hs).symm
    have hopen' : Open pf _ _ _ := hopen.moved (spill_name s k t.world) (spill_onDisk k hopen.onDisk)
    have htape : ({ t.log with log := some (s.spill k t.world).1 } : Logger).tape pf (s.spill k t.world).2 =
        (t.tape pf).spill k := by
      refine hopen'.tape.trans ((spill_tape k hopen.onDisk hopen.name1_ne).trans ?_)
      rw [Sole.tape, hopen.tape]
    refine ⟨ht.path, ht.outputs, .inr ⟨_, hopen'⟩, ht.idx, fun hlog => (by cases hlog), fun _ => ?_, ?_⟩
    · unfold Sole.tape
      rw [htape]
      exact (ht.opened (by simp [hs])).spill k
    · unfold Sole.tape
      rw [htape, Tape.all_spill]
      exact ht.suffix

/-- Without output to the file, a `reset` of a logger that is closed does nothing. -/
theorem reset_console {pf : Platform} {l : Logger} {w : World} (trunc : Bool) (io : ResetIO)
    (hout : l.outputs.testFlag .file = false) (hlog : l.log = none) : (l.reset pf trunc io w).2 = (l, w) := by
  unfold Logger.reset
  split
  · rfl
  · rw [if_pos (by simp [hout])]
    unfold Logger.finish
    split
    · rfl
    · unfold Logger.closeLog
      rw [hlog]

theorem shrinkToFit_closed {pf : Platform} {l : Logger} {w : World} (io : ShrinkIO) (hlog : l.log = none) :
    l.shrinkToFit pf io w = (l, w) := by
  unfold Logger.shrinkToFit
  split
  · rfl
  · rw [hlog]

/-- The constructor only stores its arguments: its `reset` still sees the default outputs. -/
theorem construct_eq {pf : Platform} (io : Logger.CtorIO) (path : Str) (o : Outputs) (maxSize : BitVec 32)
    (trunc : Bool)
    (w : World) :
    Logger.construct pf io path o maxSize trunc w =
      (if o = .none then (Logger.new path).setMaxSize maxSize
        else ((Logger.new path).setMaxSize maxSize).setOutputs o, w) := by
  obtain ⟨m, hm⟩ := setMaxSize_settings maxSize (Logger.new path)
  have hlog : ({ Logger.new path with maxSize := m } : Logger).log = none := rfl
  have hout : Outputs.coutOrCerr.testFlag .file = false := by decide
  have hreset := @reset_console pf { Logger.new path with maxSize := m } w trunc io.reset hout hlog
  unfold Logger.construct
  rw [hm]
  dsimp only
  simp only [hreset, shrinkToFit_closed io.fit hlog, ite_self]
  rfl

/-- So it never opens the log. -/
theorem construct_closed {pf : Platform} (io : Logger.CtorIO) (path : Str) (o : Outputs) (maxSize : BitVec 32)
    (trunc : Bool)
    (w : World) : (Logger.construct pf io path o maxSize trunc w).1.log = none := by
  obtain ⟨m, hm⟩ := setMaxSize_settings maxSize (Logger.new path)
  rw [construct_eq, hm]
  split <;> rfl

/-- **No hole in the retained log.** A logger with outputs `File` and a log of at most `maxSize` bytes, which is not
open yet or has room: in every run of appends whose lines are at most a fourteenth of `maxSize`, backup and log hold a
suffix of all there was and was emitted. -/
theorem no_hole {pf : Platform} {l : Logger} {w : World} (hpath : l.path ≠ []) (hout : l.outputs = .file)
    (hsound : Sound pf l w) (hidx : w.idx < 2 ^ 64) (hsize : (w.content (l.name pf)).length ≤ l.maxSize.bytes)
    (hroom : l.log ≠ none → Paced l.maxSize.bytes w.idx (l.tape pf w))
    {as : List SoleAct} {t : Sole} (hrun : Run (SoleStep pf) ⟨l, w, []⟩ as t) :
    t.world.content (t.log.name1 pf) ++ t.log.written pf t.world <:+
      w.content (l.name1 pf) ++ l.written pf w ++ t.emitted := by
  have hstart : SoleInv pf (w.content (l.name1 pf) ++ l.written pf w) ⟨l, w, []⟩ := by
    refine ⟨hpath, hout, hsound, hidx, fun hlog => ?_, hroom, ?_⟩
    · have hlog : l.log = none := hlog
      simpa [Sole.tape, Logger.tape, Tape.live, hlog] using hsize
    · rw [List.append_nil]
      exact List.suffix_rfl
  exact (hrun.inv _ hstart fun _ _ _ => soleStep_inv).suffix

/-! ## A log without room -/

/-- `hello` is appended, and all goes well. -/
def Sole.hello (t : Sole) : Sole :=
  ⟨(t.log.append5 plain .ok CtiLog.hello t.world).2.1, (t.log.append5 plain .ok CtiLog.hello t.world).2.2,
    t.emitted ++ (t.log.append5 plain .ok CtiLog.hello t.world).1.entry.elim [] Entry.line⟩

/-- What a logger for `a` is after `k` records, none of them checked yet, on a log that was `bs`. -/
structure Filled (bs : Str) (k : Nat) (t : Sole) : Prop where
  log : ∃ s, t.log = { openedA with log := some s } ∧ Open plain t.log s t.world
  idx : t.world.idx = k
  disk : bs <+: (t.tape plain).disk
  live : (t.tape plain).live = bs ++ t.emitted
  backup : (t.tape plain).backup = []

theorem filled_start (bs : Str) : Filled bs 0 ⟨openedA, openedWorld bs, []⟩ := by
  have htape := openedA_tape bs
  refine ⟨⟨streamA1, rfl, openedA_open bs⟩, rfl, ?_, ?_, ?_⟩
  · show bs <+: (openedA.tape plain (openedWorld bs)).disk
    rw [htape]
  · show (openedA.tape plain (openedWorld bs)).live = bs ++ []
    rw [htape]
    rfl
  · show (openedA.tape plain (openedWorld bs)).backup = []
    rw [htape]

/-- The record, on a log that is open. -/
theorem opened_entry {l : Logger} {s : Stream} {w : World} (hl : l = { openedA with log := some s }) :
    (l.append5 plain .ok hello w).1.entry =
      some ⟨some (nextIdx w.idx), .note, lineText true false (nextIdx w.idx) (str "time") 7 .note hello⟩ := by
  have hpath : l.path ≠ [] := hl ▸ (show str "a" ≠ [] by decide)
  have hfile : l.outputs = .file := by rw [hl]; rfl
  have hout : l.outputs.testFlag .file = true := by rw [hfile]; rfl
  have hlog : l.log = some s := by rw [hl]
  have hgate : l.gate .note = (some .note, l) := by
    rw [hl]
    simp [Logger.gate, openedA, freshA, Logger.new]
  have henter : l.enter plain .ok hello.logLevel w = (.ok .note, l, w) := by
    unfold Logger.enter
    rw [if_neg hpath, show hello.logLevel = LogLevel.note from rfl, hgate]
    dsimp only
    rw [ensureLog_open hlog, if_neg (outputs_ne_none hout)]
  unfold Logger.append5
  rw [henter]
  show (l.writeRecord .ok hello .note w.countRecord).1.entry = _
  unfold Logger.writeRecord
  dsimp only
  rw [if_pos hout, hlog, hl]
  rfl

/-- Its line is short, and ends with a newline. -/
theorem hello_line {k : Nat} (hk : k < 5) : 14 * (Entry.line ⟨some (nextIdx k), .note,
    lineText true false (nextIdx k) (str "time") 7 .note hello⟩).length ≤ openedA.maxSize.bytes := by
  interval_cases k <;> decide

/-- What an append to a log that is not checked does, and what the check does. -/
theorem filled_step {bs : Str} {k : Nat} {t : Sole} (hk : k < 5) (h : Filled bs k t) :
    SoleStep plain t (.append .ok hello) t.hello ∧ ∃ line, t.hello.emitted = t.emitted ++ (line ++ [10]) ∧
      (k < 4 → Filled bs (k + 1) t.hello) ∧
      (k = 4 → 4096 < bs.length → t.hello.tape plain = ⟨[], [], (bs ++ t.hello.emitted).take 8192⟩) := by
  obtain ⟨⟨s, hlog, hopen⟩, hidx, hdisk, hlive, hbackup⟩ := h
  have hpath : t.log.path ≠ [] := hlog ▸ (show str "a" ≠ [] by decide)
  have hfile : t.log.outputs = .file := by rw [hlog]; rfl
  have hout : t.log.outputs.testFlag .file = true := by rw [hfile]; rfl
  have hsize : t.log.maxSize.bytes = 8192 := by rw [hlog]; rfl
  have hopened : t.log.log ≠ none := by simp [hlog]
  have hentry := opened_entry (w := t.world) hlog
  rw [hidx] at hentry
  have hline := hello_line hk
  have hshort : ∀ e ∈ (t.log.append5 plain .ok hello t.world).1.entry, 14 * e.line.length ≤ t.log.maxSize.bytes := by
    rw [hentry, hlog]
    rintro e ⟨⟩
    exact hline
  have hio : AppendIO.ok.Ok plain hello t.log t.world := by
    refine ⟨fun hnone => absurd hnone hopened, ShrinkIO.ok_ok, fun e he => ?_, le_rfl, rfl, ShrinkIO.ok_ok⟩
    have hlen := hshort e he
    rw [hsize, Entry.line, List.length_append] at hlen
    show e.text.length ≤ 8192
    omega
  refine ⟨.append .ok hello hio hshort, lineText true false (nextIdx k) (str "time") 7 .note hello, ?_, ?_⟩
  · unfold Sole.hello
    rw [hentry]
    rfl
  obtain ⟨-, hnone, -⟩ | ⟨e, q, j, s', w', he, hr, hopen', hidx', htape⟩ :=
    append5_tape hpath hout (.inr ⟨s, hopen⟩) hio
  · rw [hentry] at hnone
    cases hnone
  -- the tape before the check
  have hu : ∀ u, u = tapeFlush w'.idx (((t.tape plain).put e.line).spill j) →
      bs <+: u.disk ∧ u.live = bs ++ t.hello.emitted ∧ u.backup = [] := by
    have hemitted : t.hello.emitted = t.emitted ++ e.line := by
      unfold Sole.hello
      rw [he]
      rfl
    rintro u rfl
    rw [hemitted, ← List.append_assoc, ← hlive]
    unfold tapeFlush
    split
    · refine ⟨?_, by simp, hbackup⟩
      rw [Tape.flush, Tape.live_spill, Tape.live_put, hlive, List.append_assoc]
      exact List.prefix_append _ _
    · exact ⟨hdisk.trans (List.prefix_append _ _), by simp, hbackup⟩
  have hnext : w'.idx = k + 1 := by
    rw [hidx', hidx]
    exact Nat.mod_eq_of_lt (by omega)
  have hlog' : t.hello.log = { openedA with log := some s' } := by
    obtain ⟨o, ho⟩ := @append5_settings plain t.log t.world .ok hello hpath
    rw [gate_takes] at ho
    have hlast : (t.log.append5 plain .ok hello t.world).2.1.log = some s' := by rw [hr]
    rw [ho] at hlast
    have hlast : o = some s' := hlast
    show (t.log.append5 plain .ok hello t.world).2.1 = _
    rw [ho, hlog, hlast]
    rfl
  have hworld : t.hello.world = w' := congrArg Prod.snd hr
  have hopen'' : Open plain t.hello.log s' t.hello.world := by
    rw [hworld, hlog']
    exact ⟨rfl, hopen'.name.trans (by rw [Logger.name, Logger.name, hlog]), hopen'.onDisk⟩
  have htape' : t.hello.tape plain = tapeCheck (k + 1) 8192
      (tapeFlush w'.idx (((t.tape plain).put e.line).spill j)) := by
    unfold Sole.tape Sole.hello
    rw [hr, htape, hsize, hnext, tapeOpen, if_neg hopened]
  obtain ⟨hdisk', hlive', hbackup'⟩ := hu _ rfl
  constructor
  · intro hk
    have hcheck : ¬ (k + 1) % kShrinkToFitInteval = 0 := by
      rw [Nat.mod_eq_of_lt (show k + 1 < kShrinkToFitInteval by unfold kShrinkToFitInteval; omega)]
      exact Nat.succ_ne_zero k
    rw [tapeCheck, if_neg hcheck] at htape'
    refine ⟨⟨s', hlog', hopen''⟩, hworld ▸ hnext, ?_, ?_, ?_⟩ <;> rw [htape']
    · exact hdisk'
    · exact hlive'
    · exact hbackup'
  · rintro rfl hlong
    have hhalf : 8192 / 2 < (tapeFlush w'.idx (((t.tape plain).put e.line).spill j)).disk.length :=
      hlong.trans_le hdisk'.length_le
    have hcheck : (4 + 1) % kShrinkToFitInteval = 0 := by decide
    rw [htape', tapeCheck, if_pos hcheck, Tape.fit_of_lt _ _ hhalf, Tape.rotate, hlive']

/-- The rotation at the fifth record. -/
theorem hello_rotates {bs : Str} (hlong : 4096 < bs.length) : ∃ t : Sole,
    Run (SoleStep plain) ⟨openedA, openedWorld bs, []⟩ (List.replicate 5 (.append .ok hello)) t ∧
      (∃ lines, t.emitted = lines ++ [10]) ∧ t.tape plain = ⟨[], [], (bs ++ t.emitted).take 8192⟩ := by
  obtain ⟨h1, -, -, hfill1, -⟩ := filled_step (by decide) (filled_start bs)
  obtain ⟨h2, -, -, hfill2, -⟩ := filled_step (by decide) (hfill1 (by decide))
  obtain ⟨h3, -, -, hfill3, -⟩ := filled_step (by decide) (hfill2 (by decide))
  obtain ⟨h4, -, -, hfill4, -⟩ := filled_step (by decide) (hfill3 (by decide))
  obtain ⟨h5, line, hline, -, hrotated⟩ := filled_step (by decide) (hfill4 (by decide))
  exact ⟨_, .snoc (.snoc (.snoc (.snoc (.snoc .nil h1) h2) h3) h4) h5,
    ⟨_, hline.trans (List.append_assoc _ line [10]).symm⟩, hrotated rfl hlong⟩

/-- `reset` opens a log of 8192 bytes, `maxSize`, without a check; the next one comes after five records, and
all are lost. -/
theorem five_lost : let bs := List.replicate 8192 (120 : UInt8)
    freshA.reset plain false .ok (oneFile bs) = (0, openedA, openedWorld bs) ∧
    ((openedWorld bs).content (openedA.name plain)).length ≤ openedA.maxSize.bytes ∧
    ∃ t : Sole, Run (SoleStep plain) ⟨openedA, openedWorld bs, []⟩ (List.replicate 5 (.append .ok hello)) t ∧
      ¬ t.world.content (t.log.name1 plain) ++ t.log.written plain t.world <:+
        (openedWorld bs).content (openedA.name1 plain) ++ openedA.written plain (openedWorld bs) ++ t.emitted := by
  intro bs
  have hlength : bs.length = 8192 := List.length_replicate
  have hstart := openedA_tape bs
  have hcontent : (openedWorld bs).content (openedA.name plain) = bs := congrArg Tape.disk hstart
  obtain ⟨t, hrun, ⟨lines, hlines⟩, htape⟩ := @hello_rotates bs (by rw [hlength]; decide)
  refine ⟨reset_freshA bs, ?_, t, hrun, fun h => ?_⟩
  · rw [hcontent, hlength]
    exact le_refl 8192
  -- what is left ends in `x`, what there was ends in a newline
  have hleft : t.world.content (t.log.name1 plain) ++ t.log.written plain t.world = bs := by
    have hall : (t.tape plain).all = bs := by
      rw [htape, Tape.all, Tape.live, List.append_nil, List.append_nil, List.take_left' hlength]
    exact hall
  obtain ⟨lost, hlost⟩ := h
  rw [hleft, hlines, ← List.append_assoc] at hlost
  have hlast := congrArg List.getLast? hlost
  rw [List.getLast?_append, List.getLast?_concat] at hlast
  have hx : bs.getLast? = some 120 := List.getLast?_replicate.trans (if_neg (by decide))
  rw [hx] at hlast
  exact absurd (Option.some.inj hlast) (by decide)

/-- A log of 5000 bytes that is opened like that has room for five such lines; they and the rotation after them
leave no hole. -/
theorem no_hole_hello : let bs := List.replicate 5000 (120 : UInt8)
    ∃ t : Sole, Run (SoleStep plain) ⟨openedA, openedWorld bs, []⟩ (List.replicate 5 (.append .ok hello)) t ∧
      t.world.content (t.log.name1 plain) ++ t.log.written plain t.world <:+
        (openedWorld bs).content (openedA.name1 plain) ++ openedA.written plain (openedWorld bs) ++ t.emitted := by
  intro bs
  have hlength : bs.length = 5000 := List.length_replicate
  have hstart := openedA_tape bs
  have hcontent : (openedWorld bs).content (openedA.name plain) = bs := congrArg Tape.disk hstart
  obtain ⟨t, hrun, -⟩ := @hello_rotates bs (by rw [hlength]; decide)
  have hroom : Paced 8192 0 ⟨bs, [], []⟩ := by
    refine ⟨?_, fun h => absurd h (by decide)⟩
    rw [Tape.live, List.append_nil, hlength]
    decide
  refine ⟨t, hrun, no_hole (by decide) rfl (.inr ⟨streamA1, openedA_open _⟩) (by decide) ?_ (fun _ => ?_) hrun⟩
  · rw [hcontent, hlength]
    show 5000 ≤ 8192
    decide
  · rw [hstart]
    exact hroom

end CtiLog
