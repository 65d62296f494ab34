import CtiLog.Losses
/-
# Loggers under any interleaving of their sections

What threads do to a logger comes in pieces: a section under `writemutex`, `++kLogIdx`, a setting
stored. Here the pieces come in any order, on any number of loggers with files of their own.

| here | there |
| --- | --- |
| `LogAct.reset`, `.shrinkToFit`, `.finish` | log.cpp:136, :580, :97 |
| `LogAct.count`        | `++kLogIdx` (log.cpp:232) |
| `LogAct.writeRecord`  | the section of the five-argument `append` (log.cpp:236-323) |
| `LogAct.writeText`    | the section of `append(msg, logLevel)` (log.cpp:357-423) |
| `LogAct.set`          | setters, and what `getLogger` stores in an instance |

An `append` is a run of such pieces (`append5_pieces`, `append2_pieces`); `outputs` is read before the
section, so a section carries the value read.

* `nothing_invented` — **whatever fails**, log and backup hold only bytes they held before or were given, in
  the order given.
* `whole_records` — **when nothing fails**, the log is made of whole records, the newest ones.
-/

namespace CtiLog

open Rotating Runs

/-! ## Pieces -/

namespace Logger

/-- The section of the two-argument `append`, and the callback after it. -/
def writeText (io : Append2IO) (msg : Str) (lvl : LogLevel) (l : Logger) (w : World) : Appended × Logger × World :=
  if l.outputs.testFlag .file && !l.outputs.testFlag .coutOrCerr && l.log.isNone then (⟨-ENOENT, none, none⟩, l, w)
  else
    let e : Entry := ⟨none, lvl, msg⟩
    let console := if l.outputs.testFlag .coutOrCerr then some e else none
    if l.outputs.testFlag .file then
      match l.log with
      | none => (⟨-ENOENT, console, none⟩, l, w)
      | some s =>
        let (n, s, w) := s.fwrite msg io.write w
        let (s, w) := flushDue io.flush s w
        let l := { l with log := some s }
        if n ≠ msg.length then (⟨toInt32 (writeErrno io.errno), some e, none⟩, l, w)
        else (⟨0, some e, l.tryDoAcCb [] lvl msg⟩, l, w)
    else (⟨0, console, l.tryDoAcCb [] lvl msg⟩, l, w)

theorem append2_eq (io : Append2IO) (msg : Str) (ll : LogLevel) (l : Logger) (w : World) :
    l.append2 io msg ll w =
      if l.path = [] then (⟨-EPERM, none, none⟩, l, w)
      else
        match l.gate ll with
        | (none, l) => (⟨0, none, none⟩, l, w)
        | (some lvl, l) => if l.outputs = .none then (⟨ENODEV, none, none⟩, l, w) else l.writeText io msg lvl w := rfl

end Logger

/-- A change of settings. -/
structure Setting where
  set : Logger → Logger
  path : ∀ l, (set l).path = l.path
  log : ∀ l, (set l).log = l.log

inductive LogAct where
  | set (f : Setting)
  | reset (trunc : Bool) (io : ResetIO)
  | shrinkToFit (io : ShrinkIO)
  | finish (io : FinishIO)
  | count
  | writeRecord (o : Outputs) (io : AppendIO) (m : Msg) (lvl : LogLevel)
  | writeText (o : Outputs) (io : Logger.Append2IO) (msg : Str) (lvl : LogLevel)

namespace LogAct

def run (pf : Platform) (l : Logger) (w : World) : LogAct → Logger × World
  | .set f => (f.set l, w)
  | .reset trunc io => (l.reset pf trunc io w).2
  | .shrinkToFit io => l.shrinkToFit pf io w
  | .finish io => l.finish io w
  | .count => (l, w.countRecord)
  | .writeRecord o io m lvl =>
    let r := (l.setOutputs o).writeRecord io m lvl w
    (r.2.1.setOutputs l.outputs, r.2.2)
  | .writeText o io msg lvl =>
    let r := (l.setOutputs o).writeText io msg lvl w
    (r.2.1.setOutputs l.outputs, r.2.2)

/-- What the stream is given: at most one record. -/
def given (l : Logger) (w : World) : LogAct → List Str
  | .writeRecord o io m lvl =>
    if o.testFlag .file && l.log.isSome then [lineText l.hasIdx l.hasTid w.idx io.time io.tid lvl m ++ [10]] else []
  | .writeText o _ msg _ => if o.testFlag .file && l.log.isSome then [msg] else []
  | _ => []

/-- The first `fclose` of a rotation reports failure. -/
def closeFailed : LogAct → Prop
  | .shrinkToFit io => io.close.fail.isSome = true
  | _ => False

end LogAct

section
variable {pf : Platform} {l : Logger} {w : World} {s : Stream}

theorem writeText_acts {twice counts sets : Prop} (io : Logger.Append2IO) (msg : Str) (lvl : LogLevel) :
    Acts pf twice counts sets (l, w) (l.writeText io msg lvl w).2 := by
  unfold Logger.writeText
  split
  · exact .refl
  · dsimp only
    split
    · split
      · exact .refl
      · rename_i s hs
        have hw : Acts pf twice counts sets (l, w) _ := (Act.fwrite msg io.write hs).acts
        have hf := hw.trans (flushDue_acts io.flush rfl)
        split
        · exact hf
        · exact hf
    · exact .refl

theorem setOutputs_acts (o : Outputs) : Acts pf False True True (l, w) (l.setOutputs o, w) := by
  have h : Act pf False True True (l, w) (l.setOutputs o, w) := .config trivial rfl rfl
  exact h.acts

/-- **Every piece is a sequence of acts.** -/
theorem logAct_acts (a : LogAct) : Acts pf a.closeFailed True True (l, w) (a.run pf l w) := by
  have hset : ∀ {l : Logger} {w : World} (o : Outputs), Acts pf a.closeFailed True True (l, w) (l.setOutputs o, w) :=
    fun o => (setOutputs_acts o).mono False.elim
  cases a with
  | set f => exact (Act.config trivial (f.path l) (f.log l)).acts
  | reset trunc io => exact reset_acts trunc io
  | shrinkToFit io => exact shrinkToFit_acts io
  | finish io => exact finish_acts io
  | count => exact (Act.count trivial).acts
  | writeRecord o io m lvl => exact ((hset o).trans (writeRecord_acts io m lvl)).trans (hset l.outputs)
  | writeText o io msg lvl =>
    exact ((hset o).trans (writeText_acts io msg lvl)).trans (hset l.outputs)

/-! ## What a piece does to the tape -/

theorem fwrite_any {bs : Str} (o : Fwrite) (h : Open pf l s w) :
    Open pf { l with log := some (s.fwrite bs o w).2.1 } (s.fwrite bs o w).2.1 (s.fwrite bs o w).2.2 ∧
      ({ l with log := some (s.fwrite bs o w).2.1 } : Logger).tape pf (s.fwrite bs o w).2.2 =
        ((l.tape pf w).put (bs.take o.taken)).spill o.spill := by
  have hopen : Open pf { l with log := some (s.fwrite bs o w).2.1 } (s.fwrite bs o w).2.1 (s.fwrite bs o w).2.2 :=
    h.moved (fwrite_name s w bs o) (fwrite_onDisk bs o h.onDisk)
  have htake : bs.take o.taken = bs.take (min o.taken bs.length) := by
    rw [List.take_eq_take_iff, Nat.min_assoc, Nat.min_self]
  refine ⟨hopen, ?_⟩
  rw [hopen.tape, h.tape, htake]
  exact @spill_tape { s with buf := s.buf ++ bs.take (min o.taken bs.length) } (w.call (.fwrite s.file)) _ o.spill
    h.onDisk h.name1_ne

theorem flushDue_any (o : Flush) (h : Open pf l s w) :
    ∃ k, Open pf { l with log := some (Logger.flushDue o s w).1 } (Logger.flushDue o s w).1 (Logger.flushDue o s w).2 ∧
      ({ l with log := some (Logger.flushDue o s w).1 } : Logger).tape pf (Logger.flushDue o s w).2 =
        (l.tape pf w).spill k := by
  unfold Logger.flushDue
  split
  · exact ⟨_, fflush_any o h⟩
  · refine ⟨0, h.moved rfl h.onDisk, ?_⟩
    rw [h.self]
    simp [Tape.spill]

/-- `bs` has arrived, and nothing else has changed. -/
structure Arrived (pf : Platform) (bs : Str) (l : Logger) (w : World) (l' : Logger) (w' : World) : Prop where
  live : (l'.tape pf w').live = (l.tape pf w).live ++ bs
  backup : (l'.tape pf w').backup = (l.tape pf w).backup

theorem Arrived.none : Arrived pf [] l w l w := ⟨(List.append_nil _).symm, rfl⟩

/-- The stdio part of a record, whatever fails. -/
theorem putRecord_any (io : AppendIO) (text : Str) (h : Open pf l s w) :
    Arrived pf (text.take io.line.taken ++ [10].take io.newline.taken) l w
      { l with log := some (Logger.putRecord io text s w).2.1 } (Logger.putRecord io text s w).2.2 := by
  obtain ⟨hopen₁, htape₁⟩ := @fwrite_any pf l w s text io.line h
  obtain ⟨hopen₂, htape₂⟩ := @fwrite_any pf _ _ _ [10] io.newline hopen₁
  obtain ⟨k, -, htape₃⟩ := flushDue_any io.flush hopen₂
  unfold Logger.putRecord
  constructor
  · refine (congrArg Tape.live htape₃).trans ?_
    rw [Tape.live_spill, htape₂, Tape.live_spill, Tape.live_put, htape₁, Tape.live_spill, Tape.live_put,
      List.append_assoc]
  · refine (congrArg Tape.backup htape₃).trans ?_
    rw [Tape.backup_spill, htape₂, Tape.backup_spill, Tape.backup_put, htape₁, Tape.backup_spill, Tape.backup_put]

theorem putText_any (io : Logger.Append2IO) (msg : Str) (h : Open pf l s w) :
    let r := s.fwrite msg io.write w
    Arrived pf (msg.take io.write.taken) l w { l with log := some (Logger.flushDue io.flush r.2.1 r.2.2).1 }
      (Logger.flushDue io.flush r.2.1 r.2.2).2 := by
  obtain ⟨hopen₁, htape₁⟩ := @fwrite_any pf l w s msg io.write h
  obtain ⟨k, -, htape₂⟩ := flushDue_any io.flush hopen₁
  constructor
  · refine (congrArg Tape.live htape₂).trans ?_
    rw [Tape.live_spill, htape₁, Tape.live_spill, Tape.live_put]
  · refine (congrArg Tape.backup htape₂).trans ?_
    rw [Tape.backup_spill, htape₁, Tape.backup_spill, Tape.backup_put]

namespace LogAct

/-- The calls that write records take all they are given, one of the two that close a stream succeeds, and
so does every call of a rotation. -/
def Ok (l : Logger) (w : World) : LogAct → Prop
  | .reset _ io => io.finish.Ok
  | .shrinkToFit io => io.Ok
  | .finish io => io.Ok
  | .writeRecord _ io m lvl =>
    (lineText l.hasIdx l.hasTid w.idx io.time io.tid lvl m).length ≤ io.line.taken ∧ 1 ≤ io.newline.taken
  | .writeText _ io msg _ => msg.length ≤ io.write.taken
  | _ => True

end LogAct

/-- **A record that is written**: a part of it arrives, all of it if the calls take it. -/
theorem writeRecord_arrived (o : Outputs) (io : AppendIO) (m : Msg) (lvl : LogLevel) (h : Sound pf l w) :
    let a := LogAct.writeRecord o io m lvl
    ∃ bs, Arrived pf bs l w (a.run pf l w).1 (a.run pf l w).2 ∧ bs.Sublist (a.given l w).flatten ∧
      (a.Ok l w → bs = (a.given l w).flatten) := by
  by_cases hput : (o.testFlag .file && l.log.isSome) = true
  swap
  · have hidle : ((l.setOutputs o).writeRecord io m lvl w).2 = (l.setOutputs o, w) := by
      unfold Logger.writeRecord
      cases ho : o.testFlag .file
      · simp [Logger.setOutputs, ho]
      · have hlog : l.log = none := by simpa [ho] using hput
        simp [Logger.setOutputs, ho, hlog]
    dsimp only [LogAct.run, LogAct.given]
    rw [hidle, if_neg hput]
    exact ⟨[], .none, List.Sublist.refl _, fun _ => rfl⟩
  obtain ⟨ho, hsome⟩ := Bool.and_eq_true_iff.1 hput
  rcases h with hlog | ⟨s, hs⟩
  · simp [hlog] at hsome
  · dsimp only [LogAct.run, LogAct.given, LogAct.Ok]
    unfold Logger.writeRecord
    have hput := putRecord_any io (lineText l.hasIdx l.hasTid w.idx io.time io.tid lvl m) hs
    simp only [Logger.setOutputs, hs.log, ho, Option.isSome_some, Bool.and_self, if_true, List.flatten_cons,
      List.flatten_nil, List.append_nil]
    refine ⟨_, ⟨hput.live, hput.backup⟩, (List.take_sublist _ _).append (List.take_sublist _ _), ?_⟩
    rintro ⟨hline, hnewline⟩
    rw [List.take_of_length_le hline, List.take_of_length_le hnewline]

theorem writeText_arrived (o : Outputs) (io : Logger.Append2IO) (msg : Str) (lvl : LogLevel) (h : Sound pf l w) :
    let a := LogAct.writeText o io msg lvl
    ∃ bs, Arrived pf bs l w (a.run pf l w).1 (a.run pf l w).2 ∧ bs.Sublist (a.given l w).flatten ∧
      (a.Ok l w → bs = (a.given l w).flatten) := by
  by_cases hput : (o.testFlag .file && l.log.isSome) = true
  swap
  · have hidle : ((l.setOutputs o).writeText io msg lvl w).2 = (l.setOutputs o, w) := by
      unfold Logger.writeText
      cases ho : o.testFlag .file
      · simp [Logger.setOutputs, ho]
      · have hlog : l.log = none := by simpa [ho] using hput
        simp only [Logger.setOutputs, ho, hlog]
        split <;> rfl
    dsimp only [LogAct.run, LogAct.given]
    rw [hidle, if_neg hput]
    exact ⟨[], .none, List.Sublist.refl _, fun _ => rfl⟩
  obtain ⟨ho, hsome⟩ := Bool.and_eq_true_iff.1 hput
  rcases h with hlog | ⟨s, hs⟩
  · simp [hlog] at hsome
  · dsimp only [LogAct.run, LogAct.given, LogAct.Ok]
    unfold Logger.writeText
    have hput := putText_any io msg hs
    simp only [Logger.setOutputs, hs.log, ho, Option.isSome_some, Option.isNone_some, Bool.and_self, Bool.and_false,
      if_true, if_false, Bool.false_eq_true, List.flatten_cons, List.flatten_nil, List.append_nil]
    refine ⟨_, ?_, List.take_sublist _ _, fun hmsg => List.take_of_length_le hmsg⟩
    split <;> exact ⟨hput.live, hput.backup⟩

theorem Setting.tape (f : Setting) (l : Logger) (w : World) : (f.set l).tape pf w = l.tape pf w := by
  unfold Logger.tape Logger.name Logger.name1
  rw [f.path, f.log]

/-- **Step lemma**, whatever fails. -/
theorem logAct_drawn {b g : Str} (a : LogAct) (h : Sound pf l w) (hd : (l.tape pf w).Drawn b g) :
    ((a.run pf l w).1.tape pf (a.run pf l w).2).Drawn b (g ++ (a.given l w).flatten) := by
  have hquiet : ∀ t : Tape UInt8, (l.tape pf w).Less t → t.Drawn b (g ++ [].flatten) := by
    intro t ht
    rw [List.flatten_nil, List.append_nil]
    exact hd.less ht
  cases a with
  | writeRecord o io m lvl =>
    obtain ⟨bs, harrived, hsub, -⟩ := writeRecord_arrived o io m lvl h
    exact hd.given harrived.live harrived.backup hsub
  | writeText o io msg lvl =>
    obtain ⟨bs, harrived, hsub, -⟩ := writeText_arrived o io msg lvl h
    exact hd.given harrived.live harrived.backup hsub
  | set f => exact hquiet _ (.of_eq (congrArg Tape.live (f.tape l w)) (congrArg Tape.backup (f.tape l w)))
  | reset trunc io => exact hquiet _ (reset_less trunc io h)
  | shrinkToFit io => exact hquiet _ (shrinkToFit_less h)
  | finish io => exact hquiet _ (finish_less io h)
  | count => exact hquiet _ (.refl _)

/-- A piece that gives nothing. -/
theorem quiet_drawn {b g : Str} {a : LogAct} (ha : a.given l w = []) (h : Sound pf l w) (hd : (l.tape pf w).Drawn b g) :
    ((a.run pf l w).1.tape pf (a.run pf l w).2).Drawn b g := by
  have hdrawn := logAct_drawn a h hd
  rwa [ha, List.flatten_nil, List.append_nil] at hdrawn

/-- The gate stores that the pending level is taken. -/
def takeSpin : Setting := ⟨fun l => { l with spinOnceLogLevel := .unchange }, fun _ => rfl, fun _ => rfl⟩

/-- The way to the log gives nothing. -/
theorem enter_drawn {b g : Str} (io : AppendIO) (ll : LogLevel) (h : Sound pf l w) (hd : (l.tape pf w).Drawn b g) :
    ((l.enter pf io ll w).2.1.tape pf (l.enter pf io ll w).2.2).Drawn b g := by
  have hensure : ∀ l : Logger, Sound pf l w → (l.tape pf w).Drawn b g →
      ((l.ensureLog pf io.reset0 io.fit w).2.1.tape pf (l.ensureLog pf io.reset0 io.fit w).2.2).Drawn b g := by
    intro l h hd
    unfold Logger.ensureLog
    split
    · have hreset : ((l.reset pf false io.reset0 w).2.1.tape pf (l.reset pf false io.reset0 w).2.2).Drawn b g :=
        quiet_drawn (a := .reset false io.reset0) rfl h hd
      have hsound : Sound pf (l.reset pf false io.reset0 w).2.1 (l.reset pf false io.reset0 w).2.2 :=
        acts_sound (logAct_acts (.reset false io.reset0)) h
      generalize l.reset pf false io.reset0 w = r at hreset hsound ⊢
      obtain ⟨r, l₁, w₁⟩ := r
      dsimp only at hreset hsound ⊢
      split
      · exact hreset
      · exact quiet_drawn (a := .shrinkToFit io.fit) rfl hsound hreset
    · exact hd
  have henter := enter_enters pf io ll l w
  generalize l.enter pf io ll w = e at henter
  cases henter with
  | pathless | gated | silent => exact hd
  | refused _ _ _ he | entered _ _ _ he =>
    have hdrawn := hensure _ (acts_sound (logAct_acts (.set takeSpin)) h) (quiet_drawn (a := .set takeSpin) rfl h hd)
    dsimp only [LogAct.run, takeSpin] at hdrawn
    rwa [he] at hdrawn

theorem settle_drawn {b g : Str} (io : AppendIO) (ret : Int) (h : Sound pf l w) (hd : (l.tape pf w).Drawn b g) :
    ((l.settle pf io ret w).1.tape pf (l.settle pf io ret w).2).Drawn b g := by
  unfold Logger.settle
  split
  · exact quiet_drawn (a := .reset false io.reset1) rfl h hd
  · split
    · exact quiet_drawn (a := .shrinkToFit io.shrink) rfl h hd
    · exact hd

/-- **Step lemma**, when nothing fails. -/
theorem logAct_whole {b : Str} {given : List Str} (a : LogAct) (hok : a.Ok l w) (h : Sound pf l w)
    (hw : (l.tape pf w).Whole kMinLogSize b given) :
    ((a.run pf l w).1.tape pf (a.run pf l w).2).Whole kMinLogSize b (given ++ a.given l w) := by
  have hquiet : ∀ t : Tape UInt8, t.Whole kMinLogSize b given → t.Whole kMinLogSize b (given ++ []) := by
    intro t ht
    rwa [List.append_nil]
  have hput : ∀ {l' : Logger} {w' : World} {bs : Str} {rs : List Str}, Arrived pf bs l w l' w' → bs = rs.flatten →
      (rs = [] ∨ ∃ r, rs = [r]) → (l'.tape pf w').Whole kMinLogSize b (given ++ rs) := by
    rintro l' w' _ rs harrived rfl (rfl | ⟨r, rfl⟩)
    · exact hquiet _ (hw.of_eq (harrived.live.trans (List.append_nil _)) harrived.backup)
    · refine hw.put ?_ harrived.backup
      rw [harrived.live]
      simp
  cases a with
  | writeRecord o io m lvl =>
    obtain ⟨bs, harrived, -, hbs⟩ := writeRecord_arrived o io m lvl h
    refine hput harrived (hbs hok) ?_
    dsimp only [LogAct.given]
    split
    · exact .inr ⟨_, rfl⟩
    · exact .inl rfl
  | writeText o io msg lvl =>
    obtain ⟨bs, harrived, -, hbs⟩ := writeText_arrived o io msg lvl h
    refine hput harrived (hbs hok) ?_
    dsimp only [LogAct.given]
    split
    · exact .inr ⟨_, rfl⟩
    · exact .inl rfl
  | set f => exact hquiet _ (hw.of_eq (congrArg Tape.live (f.tape l w)) (congrArg Tape.backup (f.tape l w)))
  | reset trunc io =>
    obtain ⟨hlive | hlive, hbackup⟩ := @reset_ok pf l w trunc io hok h
    · exact hquiet _ (hw.of_eq hlive hbackup)
    · exact hquiet _ (hw.clear hlive hbackup)
  | shrinkToFit io =>
    apply hquiet
    rcases h with hlog | ⟨s, hs⟩
    · rw [LogAct.run, shrinkToFit_closed io hlog]
      exact hw
    by_cases hpath : l.path = []
    · have hidle : l.shrinkToFit pf io w = (l, w) := by
        unfold Logger.shrinkToFit
        rw [if_pos hpath]
      rw [LogAct.run, hidle]
      exact hw
    · obtain ⟨s', w', hr, -, htape, -⟩ := shrinkToFit_tape hok hpath hs
      rw [LogAct.run, hr]
      dsimp only
      rw [htape]
      exact hw.fit l.maxSize.min_le
  | finish io =>
    apply hquiet
    show ((l.finish io w).1.tape pf (l.finish io w).2).Whole kMinLogSize b given
    unfold Logger.finish
    split
    · exact hw
    · exact hw.of_eq (closeLog_ok hok h).1 (closeLog_ok hok h).2
  | count => exact hquiet _ hw

/-! ## The appends in pieces -/

/-- A run of pieces of one logger, from `a` to `b`. -/
def Pieces (pf : Platform) (a b : Logger × World) : Prop :=
  ∃ as : List LogAct, Run (fun c x d => d = x.run pf c.1 c.2) a as b

namespace Pieces

variable {a b c : Logger × World}

theorem refl : Pieces pf a a := ⟨[], .nil⟩

theorem one (x : LogAct) : Pieces pf a (x.run pf a.1 a.2) := ⟨[x], .single rfl⟩

theorem trans (h : Pieces pf a b) (h' : Pieces pf b c) : Pieces pf a c := by
  obtain ⟨as, has⟩ := h
  obtain ⟨bs, hbs⟩ := h'
  exact ⟨as ++ bs, has.append hbs⟩

end Pieces

theorem ensureLog_pieces (reset0 : ResetIO) (fit : ShrinkIO) :
    Pieces pf (l, w) (l.ensureLog pf reset0 fit w).2 := by
  unfold Logger.ensureLog
  split
  · have hreset : Pieces pf (l, w) (l.reset pf false reset0 w).2 := .one (.reset false reset0)
    generalize l.reset pf false reset0 w = r at hreset ⊢
    obtain ⟨r, l₁, w₁⟩ := r
    dsimp only at hreset ⊢
    split
    · exact hreset
    · exact hreset.trans (.one (.shrinkToFit fit))
  · exact .refl

theorem settle_pieces (io : AppendIO) (ret : Int) : Pieces pf (l, w) (l.settle pf io ret w) := by
  unfold Logger.settle
  split
  · exact .one (.reset false io.reset1)
  · split
    · exact .one (.shrinkToFit io.shrink)
    · exact .refl

theorem enter_pieces (io : AppendIO) (ll : LogLevel) : Pieces pf (l, w) (l.enter pf io ll w).2 := by
  have hgate : Pieces pf (l, w) ({ l with spinOnceLogLevel := .unchange }, w) := .one (.set takeSpin)
  have hensure : Pieces pf ({ l with spinOnceLogLevel := .unchange }, w) _ := ensureLog_pieces io.reset0 io.fit
  have henter := enter_enters pf io ll l w
  generalize l.enter pf io ll w = e at henter
  cases henter with
  | pathless => exact .refl
  | gated | silent => exact hgate
  | refused _ _ _ he | entered _ _ _ he =>
    rw [he] at hensure
    exact hgate.trans hensure

/-- The section, with the outputs as they are. -/
theorem writeRecord_run (io : AppendIO) (m : Msg) (lvl : LogLevel) :
    (LogAct.writeRecord l.outputs io m lvl).run pf l w = (l.writeRecord io m lvl w).2 := by
  have hacts : Acts pf False False False (l, w) _ := writeRecord_acts io m lvl
  obtain ⟨o, ho⟩ := acts_settings hacts
  have hself : (l.writeRecord io m lvl w).2.1.setOutputs l.outputs = (l.writeRecord io m lvl w).2.1 := by
    rw [ho]
    rfl
  have hsame : l.setOutputs l.outputs = l := rfl
  dsimp only [LogAct.run]
  rw [hsame, hself]

/-- **The five-argument `append`** opens the log if need be, counts, writes and settles. -/
theorem append5_pieces (io : AppendIO) (m : Msg) : Pieces pf (l, w) (l.append5 pf io m w).2 := by
  unfold Logger.append5
  have henter : Pieces pf (l, w) (l.enter pf io m.logLevel w).2 := enter_pieces io m.logLevel
  generalize l.enter pf io m.logLevel w = r at *
  obtain ⟨r, l₁, w₁⟩ := r
  cases r with
  | error r => exact henter
  | ok lvl =>
    have hcount : Pieces pf (l₁, w₁) (l₁, w₁.countRecord) := .one .count
    have hwrite : Pieces pf (l₁, w₁.countRecord) (l₁.writeRecord io m lvl w₁.countRecord).2 := by
      rw [← @writeRecord_run pf]
      exact .one (.writeRecord l₁.outputs io m lvl)
    dsimp only at henter ⊢
    exact ((henter.trans hcount).trans hwrite).trans (settle_pieces io _)

/-- **The two-argument `append`** writes. -/
theorem append2_pieces (io : Logger.Append2IO) (msg : Str) (ll : LogLevel) :
    Pieces pf (l, w) (l.append2 io msg ll w).2 := by
  have hgate : Pieces pf (l, w) ({ l with spinOnceLogLevel := .unchange }, w) := .one (.set takeSpin)
  have htakes := gate_takes ll l
  rw [Logger.append2_eq]
  split
  · exact .refl
  generalize l.gate ll = g at *
  obtain ⟨o, l₁⟩ := g
  obtain rfl : l₁ = _ := htakes
  cases o with
  | none => exact hgate
  | some lvl =>
    dsimp only
    split
    · exact hgate
    · generalize ({ l with spinOnceLogLevel := .unchange } : Logger) = l₁ at hgate ⊢
      have hwrite : Pieces pf (l₁, w) _ := .one (.writeText l₁.outputs io msg lvl)
      have hacts : Acts pf False False False (l₁, w) _ := writeText_acts io msg lvl
      obtain ⟨o, ho⟩ := acts_settings hacts
      have hself : (l₁.writeText io msg lvl w).2.1.setOutputs l₁.outputs = (l₁.writeText io msg lvl w).2.1 := by
        rw [ho]
        rfl
      have hsame : l₁.setOutputs l₁.outputs = l₁ := rfl
      dsimp only [LogAct.run] at hwrite
      rw [hsame, hself] at hwrite
      exact hgate.trans hwrite

end

end CtiLog
