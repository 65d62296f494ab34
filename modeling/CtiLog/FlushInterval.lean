import CtiLog.Frame
import CtiLog.SpinLevel
import CtiLog.Runs
/-
# Records that wait for a flush

A record is flushed when `kLogIdx` is divisible by three, and `kLogIdx` counts the records of all loggers. A
logger whose records fall on the other numbers is not flushed by them; only a rotation, at a number divisible by
five, saves it.

* `unflushed`, `Logger.waiting` — the `fwrite`s of a stream, and the records of a log, since the last `fflush`
  or `fopen`.
* `shrinkToFit_noneWaits`, `append5_waiting` — what a rotation and an append make of them.
* `act_elsewhere` — what happens to another stream meanwhile: nothing.
* `flushed_iff` — the runs in which at most two records wait.
-/

namespace CtiLog

open Runs

/-! ## What waits in a stream -/

/-- One more call: a `fwrite` waits until the next `fflush`, and a stream opened anew has nothing that waits. -/
def Call.wait (file n : Nat) : Call → Nat
  | .fwrite f => if f = file then n + 1 else n
  | .fflush f | .fopen f _ _ => if f = file then 0 else n
  | .fclose _ | .write _ _ => n

/-- `fwrite`s of a stream since its last `fflush` or `fopen`. -/
def unflushed (file : Nat) (calls : List Call) : Nat := calls.foldl (Call.wait file) 0

/-- Complete records, a line and its newline each, that wait in the stream of a log. -/
def Logger.waiting (l : Logger) (w : World) : Nat := l.log.elim 0 fun s => unflushed s.file w.calls / 2

section
variable {file : Nat} {cs ds : List Call}

theorem unflushed_snoc (c : Call) : unflushed file (cs ++ [c]) = c.wait file (unflushed file cs) := by
  simp [unflushed]

theorem unflushed_write : unflushed file (cs ++ [.fwrite file]) = unflushed file cs + 1 := by
  rw [unflushed_snoc]
  exact if_pos rfl

theorem unflushed_flush : unflushed file (cs ++ [.fflush file]) = 0 := by
  rw [unflushed_snoc]
  exact if_pos rfl

theorem unflushed_open (n : Name) (mode : Mode) : unflushed file (cs ++ [.fopen file n mode]) = 0 := by
  rw [unflushed_snoc]
  exact if_pos rfl

/-- Calls that leave a stream alone. -/
theorem unflushed_append (h : ∀ c ∈ ds, ∀ n, Call.wait file n c = n) :
    unflushed file (cs ++ ds) = unflushed file cs := by
  induction ds using List.reverseRecOn with
  | nil => rw [List.append_nil]
  | append_singleton ds d ih =>
    rw [← List.append_assoc, unflushed_snoc, h d (by simp)]
    exact ih fun c hc => h c (by simp [hc])

theorem unflushed_onlyTmp {n : Name} {w w' : World} (h : OnlyTmp n w w') :
    unflushed file w'.calls = unflushed file w.calls := by
  obtain ⟨ws, hws, hall⟩ := h.calls
  rw [hws]
  refine unflushed_append fun c hc k => ?_
  obtain ⟨res, rfl⟩ := hall c hc
  rfl

end

/-! ## A check -/

section
variable {pf : Platform} {l : Logger} {s : Stream} {w : World}

/-- Nothing waits in the log. -/
def NoneWaits (r : Logger × World) : Prop := ∀ s ∈ r.1.log, unflushed s.file r.2.calls = 0

theorem NoneWaits.waiting {r : Logger × World} (h : NoneWaits r) : r.1.waiting r.2 = 0 := by
  unfold Logger.waiting
  cases hlog : r.1.log with
  | none => rfl
  | some s => simp [h s hlog]

/-- A stream that was opened last. -/
theorem fopen_noneWaits {w' : World} {n : Name} {mode : Mode} {fail : Option Nat} (l : Logger)
    (h : w.fopen n mode fail = (some s, w')) : NoneWaits ({ l with log := some s }, w') := by
  obtain ⟨hfile, -, -, -, hcalls, -⟩ := fopen_some h
  rintro _ ⟨⟩
  dsimp only
  rw [hcalls, hfile, unflushed_open]

theorem replaceLog_noneWaits (io : ShrinkIO) (s : Stream) (l : Logger) (w : World) :
    NoneWaits (l.replaceLog pf io s w) := by
  unfold Logger.replaceLog
  dsimp only
  split
  · rename_i ho
    exact fopen_noneWaits l ho
  · split
    · rename_i ho
      exact fopen_noneWaits l ho
    · exact fun _ h => by cases h

/-- **A rotation leaves nothing that waits**, whatever comes of it. -/
theorem shrinkToFit_noneWaits {io : ShrinkIO} (hs : l.log = some s) (h : Due pf io l w) :
    NoneWaits (l.shrinkToFit pf io w) := by
  rw [shrinkToFit_due hs h]
  have htmp := copyLog_onlyTmp pf io { l with log := some (s.fflush io.flush w).1 } (s.fflush io.flush w).2
  dsimp only
  split
  · exact replaceLog_noneWaits io _ _ _
  · rintro _ ⟨⟩
    dsimp only
    rw [unflushed_onlyTmp htmp, fflush_calls, fflush_file, unflushed_flush]

/-- A log that was just opened, after its check. -/
theorem ensureLog_noneWaits {reset0 : ResetIO} {fit : ShrinkIO} (hpath : l.path ≠ [])
    (hout : l.outputs.testFlag .file = true) (hlog : l.log = none) : NoneWaits (l.ensureLog pf reset0 fit w).2 := by
  have hclosed : (l.outputs.testFlag .file && l.log.isNone) = true := by simp [hout, hlog]
  have hreset : NoneWaits (l.reset pf false reset0 w).2 := by
    rw [reset_closed false reset0 hpath hout hlog]
    split
    · rename_i ho
      exact fopen_noneWaits l ho
    · exact fun s h => by simp [hlog] at h
  unfold Logger.ensureLog
  rw [if_pos hclosed]
  generalize l.reset pf false reset0 w = r at *
  obtain ⟨e, l₁, w₁⟩ := r
  dsimp only at hreset ⊢
  split
  · exact hreset
  · cases hs : l₁.log with
    | none =>
      have hidle : l₁.shrinkToFit pf fit w₁ = (l₁, w₁) := by
        unfold Logger.shrinkToFit
        rw [hs]
        split <;> rfl
      rw [hidle]
      exact hreset
    | some s =>
      by_cases hdue : Due pf fit l₁ w₁
      · exact shrinkToFit_noneWaits hs hdue
      · rw [shrinkToFit_idle hs hdue]
        exact hreset

end

/-! ## An append -/

namespace Logger

/-- The state in which an append looks at the size of its log. -/
def beforeCheck (pf : Platform) (io : AppendIO) (m : Msg) (l : Logger) (w : World) : Option (Logger × World) :=
  match l.enter pf io m.logLevel w with
  | (.error _, _, _) => none
  | (.ok lvl, l, w) => some (l.writeRecord io m lvl w.countRecord).2

/-- The append checks the size, and starts a rotation. -/
def RotatesAfter (pf : Platform) (io : AppendIO) (m : Msg) (l : Logger) (w : World) : Prop :=
  nextIdx w.idx % kShrinkToFitInteval = 0 ∧ ∃ q ∈ l.beforeCheck pf io m w, Due pf io.shrink q.1 q.2

end Logger

section
variable {pf : Platform} {l : Logger} {s : Stream} {w : World} {io : AppendIO} {m : Msg} {lvl : LogLevel}

/-- Two `fwrite`s, and the flush that is due. -/
theorem putRecord_unflushed (io : AppendIO) (text : Str) (s : Stream) (w : World) :
    unflushed (Logger.putRecord io text s w).2.1.file (Logger.putRecord io text s w).2.2.calls =
      if w.idx % kFlushInteval = 0 then 0 else unflushed s.file w.calls + 2 := by
  unfold Logger.putRecord Logger.flushDue
  dsimp only
  rw [fwrite_idx, fwrite_idx]
  split
  · rw [fflush_file, fflush_calls, unflushed_flush]
  · rw [fwrite_file, fwrite_file, fwrite_calls, fwrite_file, unflushed_write, fwrite_calls, unflushed_write]

/-- The critical section with an open log that takes the line. -/
theorem writeRecord_waiting (hout : l.outputs.testFlag .file = true) (hs : l.log = some s)
    (hline : ∀ e ∈ (l.writeRecord io m lvl w).1.entry, e.text.length ≤ io.line.taken) :
    0 ≤ (l.writeRecord io m lvl w).1.ret ∧ (∃ s', (l.writeRecord io m lvl w).2.1.log = some s') ∧
      (l.writeRecord io m lvl w).2.1.waiting (l.writeRecord io m lvl w).2.2 =
        if w.idx % kFlushInteval = 0 then 0 else l.waiting w + 1 := by
  have hput := putRecord_unflushed io (lineText l.hasIdx l.hasTid w.idx io.time io.tid lvl m) s w
  unfold Logger.writeRecord at hline ⊢
  dsimp only at hline ⊢
  rw [if_pos hout] at hline ⊢
  rw [hs] at hline ⊢
  dsimp only at hline ⊢
  have hcount : (Logger.putRecord io (lineText l.hasIdx l.hasTid w.idx io.time io.tid lvl m) s w).1 =
      (lineText l.hasIdx l.hasTid w.idx io.time io.tid lvl m).length := Nat.min_eq_right (hline _ rfl)
  refine ⟨?_, ⟨_, rfl⟩, ?_⟩
  · rw [hcount, if_neg (by simp)]
    omega
  · unfold Logger.waiting
    rw [hs]
    show unflushed _ _ / 2 = _
    rw [hput]
    split
    · rfl
    · show (unflushed s.file w.calls + 2) / 2 = unflushed s.file w.calls / 2 + 1
      omega

/-- Before the record is counted nothing is written, and a log that has to be opened has nothing that waits. -/
theorem enter_waiting (hpath : l.path ≠ []) (hout : l.outputs.testFlag .file = true)
    (hgate : (l.gate m.logLevel).1 = some lvl) (hio : io.Ok pf m l w) :
    ∃ l₁ w₁ s, l.enter pf io m.logLevel w = (.ok lvl, l₁, w₁) ∧ l₁.log = some s ∧ l₁.outputs = l.outputs ∧
      w₁.idx = w.idx ∧ l₁.waiting w₁ = l.waiting w := by
  have hopened := hio.opened
  rw [gate_takes] at hopened
  have hensure : ∃ l₁ w₁ s,
      Logger.ensureLog pf io.reset0 io.fit { l with spinOnceLogLevel := .unchange } w =
          (none, l₁, w₁) ∧
        l₁.log = some s ∧ l₁.outputs = l.outputs ∧ w₁.idx = w.idx ∧ l₁.waiting w₁ = l.waiting w := by
    obtain hlog | ⟨s, hlog⟩ := Option.eq_none_or_eq_some l.log
    · have hok := hopened hlog (by simp [hgate])
      obtain ⟨s, w₁, he, -, -, hidx⟩ := @ensureLog_opens pf { l with spinOnceLogLevel := .unchange } w io.reset0 io.fit
        hpath hout hlog hok hio.fit
      have hnone := @ensureLog_noneWaits pf { l with spinOnceLogLevel := .unchange } w io.reset0 io.fit hpath hout hlog
      rw [he] at hnone
      refine ⟨_, w₁, s, he, rfl, rfl, hidx, hnone.waiting.trans ?_⟩
      simp [Logger.waiting, hlog]
    · exact ⟨_, w, s, ensureLog_open hlog, hlog, rfl, rfl, rfl⟩
  obtain ⟨l₁, w₁, s, he, hrest⟩ := hensure
  have henter := enter_enters pf io m.logLevel l w
  generalize l.enter pf io m.logLevel w = e at henter ⊢
  cases henter with
  | pathless h => exact absurd h hpath
  | gated _ hnone =>
    rw [hnone] at hgate
    cases hgate
  | silent _ _ hnone => exact absurd hnone (outputs_ne_none hout)
  | refused _ _ _ he' =>
    rw [he] at he'
    cases he'
  | entered _ hlvl _ he' =>
    rw [he] at he'
    cases he'
    rw [hlvl] at hgate
    cases hgate
    exact ⟨l₁, w₁, s, rfl, hrest⟩

/-- **What waits after an append.** -/
theorem append5_waiting (hpath : l.path ≠ []) (hout : l.outputs.testFlag .file = true)
    (hgate : (l.gate m.logLevel).1 = some lvl) (hio : io.Ok pf m l w) :
    (nextIdx w.idx % kFlushInteval = 0 ∨ l.RotatesAfter pf io m w →
      (l.append5 pf io m w).2.1.waiting (l.append5 pf io m w).2.2 = 0) ∧
    (¬ (nextIdx w.idx % kFlushInteval = 0 ∨ l.RotatesAfter pf io m w) →
      (l.append5 pf io m w).2.1.waiting (l.append5 pf io m w).2.2 = l.waiting w + 1) := by
  have hline := hio.line
  obtain ⟨l₁, w₁, s, he, hs, hout₁, hidx₁, hwait₁⟩ := enter_waiting hpath hout hgate hio
  unfold Logger.RotatesAfter Logger.beforeCheck
  unfold Logger.append5 at hline ⊢
  rw [he] at hline ⊢
  dsimp only at hline ⊢
  have hidx : w₁.countRecord.idx = nextIdx w.idx := congrArg nextIdx hidx₁
  have hout₂ : l₁.outputs.testFlag .file = true := by rw [hout₁]; exact hout
  obtain ⟨hret, ⟨s₂, hs₂⟩, hwait₂⟩ := writeRecord_waiting hout₂ hs hline
  have hidx₂ : (l₁.writeRecord io m lvl w₁.countRecord).2.2.idx = nextIdx w.idx :=
    (@acts_idx pf False False _ _ (writeRecord_acts io m lvl)).trans hidx
  rw [hidx, show l₁.waiting w₁.countRecord = l.waiting w from hwait₁] at hwait₂
  generalize l₁.writeRecord io m lvl w₁.countRecord = r at *
  obtain ⟨r, l₂, w₂⟩ := r
  dsimp only at hret hs₂ hwait₂ hidx₂ ⊢
  unfold Logger.settle
  rw [if_neg (not_lt.2 hret), hidx₂]
  by_cases hcheck : nextIdx w.idx % kShrinkToFitInteval = 0 ∧ Due pf io.shrink l₂ w₂
  · rw [if_pos hcheck.1]
    refine ⟨fun _ => (shrinkToFit_noneWaits hs₂ hcheck.2).waiting, fun h => ?_⟩
    exact absurd (.inr ⟨hcheck.1, _, rfl, hcheck.2⟩) h
  · have hsettle : (if nextIdx w.idx % kShrinkToFitInteval = 0 then l₂.shrinkToFit pf io.shrink w₂ else (l₂, w₂)) =
        (l₂, w₂) := by
      split
      · rename_i hfive
        exact shrinkToFit_idle hs₂ fun hdue => hcheck ⟨hfive, hdue⟩
      · rfl
    rw [hsettle, hwait₂]
    constructor
    · rintro (hthree | ⟨hfive, q, hq, hdue⟩)
      · exact if_pos hthree
      · cases hq
        exact absurd ⟨hfive, hdue⟩ hcheck
    · exact fun h => if_neg fun hthree => h (.inl hthree)

/-- A record that the gate does not let through leaves the log as it is, and so does one for a logger without a path. -/
theorem append5_dropped (h : l.path = [] ∨ (l.gate m.logLevel).1 = none) :
    (l.append5 pf io m w).2.1.waiting (l.append5 pf io m w).2.2 = l.waiting w := by
  have henter := enter_enters pf io m.logLevel l w
  unfold Logger.append5
  generalize l.enter pf io m.logLevel w = e at *
  cases henter with
  | pathless | gated => rfl
  | silent hpath hgate | refused hpath hgate | entered hpath hgate =>
    rw [h.resolve_left hpath] at hgate
    cases hgate

theorem append5_outputs (io : AppendIO) (m : Msg) : (l.append5 pf io m w).2.1.outputs = l.outputs := by
  by_cases hpath : l.path = []
  · rw [append5_pathless io m hpath]
  · obtain ⟨o, ho⟩ := @append5_settings pf l w io m hpath
    rw [ho, gate_takes]

end

/-! ## Another logger's stream -/

section
variable {pf : Platform} {twice counts sets : Prop} {a b : Logger × World} {file n : Nat}

/-- A stream that is open, and not this logger's. -/
structure Elsewhere (file n : Nat) (a : Logger × World) : Prop where
  other : ∀ s ∈ a.1.log, s.file ≠ file
  opened : file < a.2.files
  waits : unflushed file a.2.calls = n

theorem Elsewhere.call {c : Call} (h : Elsewhere file n a) (hc : ∀ k, c.wait file k = k) :
    unflushed file (a.2.calls ++ [c]) = n := by
  rw [unflushed_snoc, hc, h.waits]

/-- **What a logger does** is nothing to the streams of the others. -/
theorem act_elsewhere (hact : Act pf twice counts sets a b) (h : Elsewhere file n a) : Elsewhere file n b := by
  cases hact with
  | config _ _ hlog => exact ⟨by rw [hlog]; exact h.other, h.opened, h.waits⟩
  | fflush o hs =>
    have hne := h.other _ hs
    refine ⟨by rintro _ ⟨⟩; exact hne, h.opened, h.call fun k => if_neg hne⟩
  | fwrite bs o hs =>
    have hne := h.other _ hs
    refine ⟨by rintro _ ⟨⟩; exact hne, h.opened, h.call fun k => if_neg hne⟩
  | fclose o hs => exact ⟨fun _ hs => (by cases hs), h.opened, h.call fun k => rfl⟩
  | again f _ _ => exact ⟨h.other, h.opened, h.call fun k => rfl⟩
  | mkdirs io =>
    refine ⟨h.other, ?_, ?_⟩
    · rw [mkDirs_files]
      exact h.opened
    · rw [mkDirs_calls]
      exact h.waits
  | @fopen l w w' s mode fail _ _ ho =>
    obtain ⟨hfile, -, -, -, hcalls, hfiles, -⟩ := fopen_some ho
    have hne : w.files ≠ file := h.opened.ne'
    refine ⟨?_, ?_, ?_⟩
    · rintro _ ⟨⟩
      rw [hfile]
      exact hne
    · rw [hfiles]
      exact h.opened.trans (Nat.lt_succ_self _)
    · rw [hcalls]
      exact h.call fun k => if_neg hne
  | count => exact ⟨h.other, h.opened, h.waits⟩
  | copy hc => exact ⟨h.other, by rw [hc.files]; exact h.opened, (unflushed_onlyTmp hc).trans h.waits⟩

theorem acts_elsewhere (h : Acts pf twice counts sets a b) (ha : Elsewhere file n a) : Elsewhere file n b :=
  h.inv (Elsewhere file n) (fun _ _ => act_elsewhere) ha

theorem act_log_lt (hact : Act pf twice counts sets a b) (h : ∀ s ∈ a.1.log, s.file < a.2.files) :
    ∀ s ∈ b.1.log, s.file < b.2.files := by
  cases hact with
  | config _ _ hlog => rwa [hlog]
  | fflush o hs =>
    have hlt := h _ hs
    rintro _ ⟨⟩
    exact hlt
  | fwrite bs o hs =>
    have hlt := h _ hs
    rintro _ ⟨⟩
    exact hlt
  | fclose o hs => exact fun _ hs => (by cases hs)
  | mkdirs io => rwa [mkDirs_files]
  | fopen mode fail _ _ ho =>
    obtain ⟨hfile, -, -, -, -, hfiles, -⟩ := fopen_some ho
    rintro _ ⟨⟩
    dsimp only
    rw [hfile, hfiles]
    exact Nat.lt_succ_self _
  | copy hc => rwa [hc.files]
  | _ => exact h

end

/-! ## Several loggers -/

/-- Loggers with output to a file, in one process. -/
structure Loggers (ι : Type*) where
  log : ι → Logger
  world : World

section
variable {ι : Type*} [DecidableEq ι]

/-- An append of one logger. -/
structure OneAppend (ι : Type*) where
  i : ι
  io : AppendIO
  m : Msg

def Loggers.append5 (pf : Platform) (t : Loggers ι) (a : OneAppend ι) : Loggers ι :=
  ⟨Function.update t.log a.i ((t.log a.i).append5 pf a.io a.m t.world).2.1,
    ((t.log a.i).append5 pf a.io a.m t.world).2.2⟩

/-- One append at a time; every system call succeeds. -/
inductive LoggersStep (pf : Platform) : Loggers ι → OneAppend ι → Loggers ι → Prop
  | append5 {t : Loggers ι} {a : OneAppend ι} : a.io.Ok pf a.m (t.log a.i) t.world → LoggersStep pf t a (t.append5 pf a)

/-- In every log fewer records wait than a flush is due for. -/
def Flushed (t : Loggers ι) : Prop := ∀ i, (t.log i).waiting t.world < kFlushInteval

/-- The append writes nothing, or its logger has room for a record that waits, or the record is flushed with it or by
the rotation it starts. -/
def FlushedInTime (pf : Platform) (t : Loggers ι) (a : OneAppend ι) : Prop :=
  ((t.log a.i).path = [] ∨ ((t.log a.i).gate a.m.logLevel).1 = none) ∨
    (t.log a.i).waiting t.world + 1 < kFlushInteval ∨
      nextIdx t.world.idx % kFlushInteval = 0 ∨ (t.log a.i).RotatesAfter pf a.io a.m t.world

/-- Loggers for files, with open streams of their own. -/
structure Loggers.Sane (t : Loggers ι) : Prop where
  file : ∀ i, (t.log i).outputs.testFlag .file = true
  opened : ∀ i, ∀ s ∈ (t.log i).log, s.file < t.world.files
  apart : ∀ i j, i ≠ j → ∀ s ∈ (t.log i).log, ∀ s' ∈ (t.log j).log, s.file ≠ s'.file

variable {pf : Platform} {t u : Loggers ι} {a : OneAppend ι}

omit [DecidableEq ι] in
/-- The other loggers' streams, as one logger sees them. -/
theorem Loggers.Sane.elsewhere (h : t.Sane) {i j : ι} (hij : i ≠ j) {s : Stream} (hs : s ∈ (t.log j).log) :
    Elsewhere s.file (unflushed s.file t.world.calls) (t.log i, t.world) :=
  ⟨fun _ hs' => h.apart i j hij _ hs' _ hs, h.opened j s hs, rfl⟩

theorem append5_log_self (t : Loggers ι) (a : OneAppend ι) :
    (t.append5 pf a).log a.i = ((t.log a.i).append5 pf a.io a.m t.world).2.1 := Function.update_self ..

theorem append5_log_other (t : Loggers ι) (a : OneAppend ι) {j : ι} (hj : j ≠ a.i) : (t.append5 pf a).log j = t.log j :=
  Function.update_of_ne hj ..

theorem append5_sane (h : t.Sane) (a : OneAppend ι) : (t.append5 pf a).Sane := by
  have hacts := @append5_acts pf (t.log a.i) t.world a.io a.m
  have hout := @append5_outputs pf (t.log a.i) t.world a.io a.m
  have hlt := hacts.inv (fun a => ∀ s ∈ a.1.log, s.file < a.2.files) (fun _ _ => act_log_lt) (h.opened a.i)
  have hother : ∀ j, a.i ≠ j → ∀ s ∈ (t.log j).log, Elsewhere s.file _ _ := fun j hj s hs =>
    acts_elsewhere hacts (h.elsewhere hj hs)
  have hself := @append5_log_self _ _ pf t a
  have hrest := fun j => @append5_log_other _ _ pf t a j
  have hworld : (t.append5 pf a).world = ((t.log a.i).append5 pf a.io a.m t.world).2.2 := rfl
  generalize t.append5 pf a = v at *
  generalize (t.log a.i).append5 pf a.io a.m t.world = r at *
  obtain ⟨r, l, w⟩ := r
  dsimp only at hout hlt hother hself hworld
  refine ⟨fun j => ?_, fun j => ?_, fun j k hjk => ?_⟩
  · by_cases hj : j = a.i
    · rw [hj, hself, hout]
      exact h.file a.i
    · rw [hrest j hj]
      exact h.file j
  · by_cases hj : j = a.i
    · rw [hj, hself, hworld]
      exact hlt
    · rw [hrest j hj, hworld]
      exact fun s hs => (hother j (Ne.symm hj) s hs).opened
  · by_cases hj : j = a.i
    · rw [hj] at hjk ⊢
      rw [hself, hrest k hjk.symm]
      exact fun s hs s' hs' => (hother k hjk s' hs').other s hs
    · rw [hrest j hj]
      by_cases hk : k = a.i
      · rw [hk, hself]
        exact fun s hs s' hs' => ((hother j (Ne.symm hj) s hs).other s' hs').symm
      · rw [hrest k hk]
        exact h.apart j k hjk

/-- Nothing changes for the other loggers. -/
theorem append5_other (h : t.Sane) (a : OneAppend ι) {j : ι} (hj : j ≠ a.i) :
    ((t.append5 pf a).log j).waiting (t.append5 pf a).world = (t.log j).waiting t.world := by
  have hacts := @append5_acts pf (t.log a.i) t.world a.io a.m
  unfold Logger.waiting
  rw [append5_log_other t a hj]
  cases hlog : (t.log j).log with
  | none => rfl
  | some s => exact congrArg (· / 2) (acts_elsewhere hacts (h.elsewhere hj.symm hlog)).waits

/-- **Step lemma**: an append leaves at most two records that wait iff it is flushed in time. -/
theorem loggersStep_iff (h : t.Sane) (hflushed : Flushed t) (hst : LoggersStep pf t a u) :
    Flushed u ↔ FlushedInTime pf t a := by
  cases hst with
  | append5 hio =>
    have hothers : Flushed (t.append5 pf a) ↔
        ((t.log a.i).append5 pf a.io a.m t.world).2.1.waiting ((t.log a.i).append5 pf a.io a.m t.world).2.2 <
          kFlushInteval := by
      constructor
      · intro hu
        have hi := hu a.i
        rwa [append5_log_self] at hi
      · intro hi j
        by_cases hj : j = a.i
        · subst hj
          rwa [append5_log_self]
        · rw [append5_other h a hj]
          exact hflushed j
    rw [hothers]
    unfold FlushedInTime
    by_cases hdrop : (t.log a.i).path = [] ∨ ((t.log a.i).gate a.m.logLevel).1 = none
    · rw [append5_dropped hdrop]
      exact iff_of_true (hflushed a.i) (.inl hdrop)
    obtain ⟨hpath, hgate⟩ := not_or.1 hdrop
    obtain ⟨lvl, hgate⟩ := Option.ne_none_iff_exists'.1 hgate
    obtain ⟨hzero, hone⟩ := append5_waiting hpath (h.file a.i) hgate hio
    by_cases hflush : nextIdx t.world.idx % kFlushInteval = 0 ∨ (t.log a.i).RotatesAfter pf a.io a.m t.world
    · rw [hzero hflush]
      exact iff_of_true (by decide) (.inr (.inr hflush))
    · rw [hone hflush]
      simp [hflush, hdrop]

/-- **At most two records wait** in the runs whose appends are all flushed in time, and in no others. -/
theorem flushed_iff {pf : Platform} {t u : Loggers ι} (h : t.Sane) (hflushed : Flushed t) (as : List (OneAppend ι)) :
    Run (Kept Flushed (LoggersStep pf)) t as u ↔ Run (Guarded (FlushedInTime pf) (LoggersStep pf)) t as u := by
  refine Run.kept_iff (fun t => t.Sane ∧ Flushed t) Flushed ⟨h, hflushed⟩
    (fun t a u ht hst => loggersStep_iff ht.1 ht.2 hst)
    fun t a u ht hst hG => ⟨?_, (loggersStep_iff ht.1 ht.2 hst).2 hG⟩
  cases hst with
  | append5 => exact append5_sane ht.1 a

end

/-! ## Two loggers -/

def freshB : Logger := { freshA with path := str "b" }

/-- Two loggers that have not opened their files yet. -/
def loggersAB : Loggers Bool := ⟨fun i => if i then freshB else freshA, oneFile []⟩

/-- One record after the other, each for the logger it names. -/
def hellos (is : List Bool) : Loggers Bool := is.foldl (fun t i => t.append5 plain ⟨i, .ok, hello⟩) loggersAB

theorem loggersAB_sane : loggersAB.Sane where
  file := by decide
  opened := fun i s hs => by cases i <;> cases hs
  apart := fun i _ _ s hs => by cases i <;> cases hs

theorem hello_step {t : Loggers Bool} (i : Bool)
    (hopened : (t.log i).log.isSome ∨ 0 ≤ (((t.log i).gate hello.logLevel).2.reset plain false .ok t.world).1)
    (hline : ∀ e ∈ ((t.log i).append5 plain .ok hello t.world).1.entry, e.text.length ≤ AppendIO.ok.line.taken) :
    LoggersStep plain t ⟨i, .ok, hello⟩ (t.append5 plain ⟨i, .ok, hello⟩) :=
  .append5 ⟨fun hlog _ => hopened.resolve_left (by simp [hlog]), ShrinkIO.ok_ok, hline, le_rfl, rfl, ShrinkIO.ok_ok⟩

/-- Three records for `a`, the third with the flush, and one for `b`. -/
theorem flushed_iff_hellos :
    Run (Kept Flushed (LoggersStep plain)) loggersAB [⟨false, .ok, hello⟩, ⟨false, .ok, hello⟩, ⟨false, .ok, hello⟩,
      ⟨true, .ok, hello⟩] (hellos [false, false, false, true]) := by
  have h₁ : Run (Guarded (FlushedInTime plain) (LoggersStep plain)) loggersAB [⟨false, .ok, hello⟩] (hellos [false]) :=
    .single ⟨.inr (.inl (by decide)), hello_step false (.inr (by decide)) (by decide)⟩
  have h₂ : Run _ _ _ (hellos [false, false]) :=
    h₁.snoc ⟨.inr (.inl (by decide)), hello_step false (.inl (by decide)) (by decide)⟩
  have h₃ : Run _ _ _ (hellos [false, false, false]) :=
    h₂.snoc ⟨.inr (.inr (.inl (by decide))), hello_step false (.inl (by decide)) (by decide)⟩
  have h₄ : Run _ _ _ (hellos [false, false, false, true]) :=
    h₃.snoc ⟨.inr (.inl (by decide)), hello_step true (.inr (by decide)) (by decide)⟩
  exact (flushed_iff loggersAB_sane (by unfold Flushed; decide) _).2 h₄

/-- **Three records wait in `a`**: the third number, and the flush with it, goes to `b`. -/
theorem three_records_wait :
    loggersAB.Sane ∧ Flushed loggersAB ∧ ∃ as u, Run (LoggersStep plain) loggersAB as u ∧ ¬ Flushed u := by
  have h₁ : Run (LoggersStep plain) loggersAB _ (hellos [false]) :=
    .single (hello_step false (.inr (by decide)) (by decide))
  have h₂ : Run _ _ _ (hellos [false, false]) := h₁.snoc (hello_step false (.inl (by decide)) (by decide))
  have h₃ : Run _ _ _ (hellos [false, false, true]) := h₂.snoc (hello_step true (.inr (by decide)) (by decide))
  have h₄ : Run _ _ _ (hellos [false, false, true, false]) := h₃.snoc (hello_step false (.inl (by decide)) (by decide))
  have hthree : ((hellos [false, false, true, false]).log false).waiting
      (hellos [false, false, true, false]).world = 3 := by decide
  exact ⟨loggersAB_sane, by unfold Flushed; decide, _, _, h₄, fun h => absurd (h false) (by rw [hthree]; decide)⟩

end CtiLog
