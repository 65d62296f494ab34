import CtiLog.Acts
import CtiLog.Rotation
import CtiLog.Tape
/-
# An append as an operation on a tape

The log of a logger, what stdio buffers of it and the backup are a `Tape`; the appends in which every
system call succeeds are operations on it.

* `Logger.tape` — the tape of a logger; `Open` — its stream writes to the file of its path.
* `fwrite_tape`, `fflush_tape`, `shrinkToFit_tape`, `reset_tape` — the calls an append is made of.
* `append5_tape`, `append2_tape` — **the appends refine the tape**: one record is put, then comes
  the flush and (five arguments) the check that `kLogIdx` makes due.
-/

namespace CtiLog

open Rotating

variable {pf : Platform} {l : Logger} {s : Stream} {w : World} {n1 : Name}

/-! ## The tape of a stream -/

/-- The stream writes to the file its entry names. -/
def Stream.OnDisk (s : Stream) (w : World) : Prop := (w.fs s.name).node = some (.regular s.gen)

/-- The tape of a stream whose backup is `n1`. -/
def Stream.tape (s : Stream) (n1 : Name) (w : World) : Tape UInt8 := ⟨w.content s.name, s.buf, w.content n1⟩

theorem spill_onDisk (k : Nat) (h : s.OnDisk w) : (s.spill k w).1.OnDisk (s.spill k w).2 := by
  unfold Stream.OnDisk
  rw [spill_name, Stream.spill, World.put_node]
  exact h

theorem spill_tape (k : Nat) (h : s.OnDisk w) (hn : n1 ≠ s.name) :
    (s.spill k w).1.tape n1 (s.spill k w).2 = (s.tape n1 w).spill k := by
  ext1
  · show ((w.put s.name s.gen (s.buf.take k)).fs s.name).content = _
    rw [World.put_same, Cell.content_put h]
    rfl
  · rfl
  · show (w.put s.name s.gen (s.buf.take k)).content n1 = w.content n1
    rw [World.content, w.put_other _ _ hn, World.content]

theorem fflush_onDisk (o : Flush) (h : s.OnDisk w) : (s.fflush o w).1.OnDisk (s.fflush o w).2 :=
  @spill_onDisk s (w.call _) _ h

theorem fflush_tape {o : Flush} (ho : o.fail = none) (h : s.OnDisk w) (hn : n1 ≠ s.name) :
    (s.fflush o w).1.tape n1 (s.fflush o w).2 = (s.tape n1 w).flush := by
  have hout : o.out s.buf.length = s.buf.length := by simp [Flush.out, ho]
  have hsp := @spill_tape s (w.call (.fflush s.file)) n1 s.buf.length h hn
  unfold Stream.fflush
  rw [hout, hsp]
  simp [Tape.spill, Tape.flush, Tape.live, Stream.tape, World.content]

theorem fwrite_onDisk (bs : Str) (o : Fwrite) (h : s.OnDisk w) :
    (s.fwrite bs o w).2.1.OnDisk (s.fwrite bs o w).2.2 := by
  unfold Stream.fwrite
  exact spill_onDisk (s := { s with buf := s.buf ++ bs.take (min o.taken bs.length) }) (w := w.call _) _ h

/-- `fwrite` of all of `bs`: some of what is buffered then may reach the file. -/
theorem fwrite_tape {bs : Str} {o : Fwrite} (ho : bs.length ≤ o.taken) (h : s.OnDisk w) (hn : n1 ≠ s.name) :
    (s.fwrite bs o w).2.1.tape n1 (s.fwrite bs o w).2.2 = ((s.tape n1 w).put bs).spill o.spill := by
  have htake : bs.take (min o.taken bs.length) = bs := by rw [Nat.min_eq_right ho, List.take_length]
  unfold Stream.fwrite
  dsimp only
  rw [htake]
  exact @spill_tape { s with buf := s.buf ++ bs } (w.call (.fwrite s.file)) n1 o.spill h hn

/-! ## The tape of a logger -/

/-- The log is open and its stream writes to the file of the path. -/
structure Open (pf : Platform) (l : Logger) (s : Stream) (w : World) : Prop where
  log : l.log = some s
  name : s.name = l.name pf
  onDisk : s.OnDisk w

namespace Logger

def tape (pf : Platform) (l : Logger) (w : World) : Tape UInt8 :=
  ⟨w.content (l.name pf), l.log.elim [] Stream.buf, w.content (l.name1 pf)⟩

/-- The bytes of the log, flushed or buffered. -/
def written (pf : Platform) (l : Logger) (w : World) : Str := w.content (l.name pf) ++ l.log.elim [] Stream.buf

end Logger

theorem Open.tape (h : Open pf l s w) : l.tape pf w = s.tape (l.name1 pf) w := by
  unfold Logger.tape Stream.tape
  rw [h.log, h.name]
  rfl

theorem Open.self (h : Open pf l s w) : { l with log := some s } = l := by
  rw [← h.log]

theorem Open.name1_ne (h : Open pf l s w) : l.name1 pf ≠ s.name := by
  rw [h.name]
  exact CtiLog.name1_ne

/-- A change of settings that no file depends on. -/
theorem Open.spin {q : LogLevel} (h : Open pf l s w) : Open pf { l with spinOnceLogLevel := q } s w :=
  ⟨h.log, h.name, h.onDisk⟩

/-- A new state of the stream. -/
theorem Open.moved {s' : Stream} {w' : World} (h : Open pf l s w) (hname : s'.name = s.name) (hdisk : s'.OnDisk w') :
    Open pf { l with log := some s' } s' w' := ⟨rfl, hname.trans h.name, hdisk⟩

/-- **A rotation that succeeds is a check of the tape.** -/
theorem shrinkToFit_tape {io : ShrinkIO} (hio : io.Ok) (hpath : l.path ≠ []) (h : Open pf l s w) :
    ∃ s' w', l.shrinkToFit pf io w = ({ l with log := some s' }, w') ∧ Open pf { l with log := some s' } s' w' ∧
      ({ l with log := some s' } : Logger).tape pf w' = (l.tape pf w).fit l.maxSize.bytes ∧ w'.idx = w.idx := by
  have hg : (w.fs (l.name pf)).node = some (.regular s.gen) := h.name ▸ h.onDisk
  have hdue : Due pf io l w ↔ l.maxSize.bytes / 2 < (l.tape pf w).disk.length := due_iff hpath hio.stat hg
  by_cases hd : Due pf io l w
  · obtain ⟨g, w', hr, hg', hempty, htmp, hidx, -, -⟩ := shrinkToFit_ok hio h.log h.name h.onDisk hd
    refine ⟨_, w', hr, ⟨rfl, rfl, hg'⟩, ?_, hidx⟩
    have hlive : (l.tape pf w).live = s.flushed w := by
      rw [Tape.live, h.tape, Stream.flushed]
      show w.content s.name ++ s.buf = _
      rw [World.content, Cell.content_regular h.onDisk]
    rw [Tape.fit_of_lt _ _ (hdue.1 hd)]
    ext1
    · exact hempty
    · rfl
    · rw [Tape.rotate, hlive]
      exact htmp
  · rw [shrinkToFit_idle h.log hd]
    refine ⟨s, w, by rw [h.self], ?_, ?_, rfl⟩
    · rw [h.self]
      exact h
    · rw [h.self, Tape.fit_of_le _ _ (not_lt.1 (fun hlt => hd (hdue.2 hlt)))]

/-- What an opening leaves of the content; an entry that was not there had none. -/
theorem fopen_content {n : Name} {mode : Mode} {fail : Option Nat} {w' : World}
    (h : w.fopen n mode fail = (some s, w')) :
    w'.content n = if mode = .wb then [] else w.content n := by
  unfold World.fopen at h
  split at h
  · cases h
  · dsimp only at h
    split at h
    · cases h
    · rename_i g hg
      cases h
      cases mode
      · simp [World.content, Cell.content, hg]
      · simp [World.content]
    · rename_i hn
      cases h
      cases mode <;> simp [World.content, Cell.content, hn]

/-- A `reset` that reports success has opened the log, emptied if `trunc`, and changed no other content. -/
theorem reset_opens {trunc : Bool} {io : ResetIO} (hpath : l.path ≠ []) (hout : l.outputs.testFlag .file = true)
    (hlog : l.log = none) (hok : 0 ≤ (l.reset pf trunc io w).1) :
    ∃ s w', l.reset pf trunc io w = (0, { l with log := some s }, w') ∧ Open pf { l with log := some s } s w' ∧
      ({ l with log := some s } : Logger).tape pf w' =
        { l.tape pf w with disk := if trunc then [] else (l.tape pf w).disk } ∧ w'.idx = w.idx := by
  have hdirs := mkDirs_content pf (dirname l.path) io.mkdirs w
  have hidx := mkDirs_idx pf (dirname l.path) io.mkdirs w
  rw [reset_closed trunc io hpath hout hlog] at hok ⊢
  generalize (mkDirs pf (dirname l.path) io.mkdirs w).2 = w₀ at *
  cases ho : w₀.fopen (l.name pf) (if trunc then .wb else .ab) io.fopen with
  | mk o w' =>
    rw [ho] at hok
    cases o with
    | none =>
      -- a failed `fopen` reports a negative code
      exfalso
      dsimp only at hok
      generalize io.fopen.getD EISDIR = e at hok
      split at hok
      · exact absurd hok (by decide)
      · omega
    | some s =>
      obtain ⟨-, hname, hbuf, hnode, -, -, hidx', hfs⟩ := fopen_some ho
      refine ⟨s, w', rfl, ⟨rfl, hname, ?_⟩, ?_, hidx'.trans hidx⟩
      · unfold Stream.OnDisk
        rw [hname]
        exact hnode
      · ext1
        · have hcontent := fopen_content ho
          rw [hdirs] at hcontent
          refine hcontent.trans ?_
          cases trunc <;> rfl
        · show s.buf = l.log.elim [] Stream.buf
          rw [hbuf, hlog]
          rfl
        · show w'.content (l.name1 pf) = w.content (l.name1 pf)
          rw [World.content, hfs _ name1_ne]
          exact hdirs _

/-- A `reset` that does not truncate changes no content. -/
theorem reset_tape {io : ResetIO} (hpath : l.path ≠ []) (hout : l.outputs.testFlag .file = true) (hlog : l.log = none)
    (hok : 0 ≤ (l.reset pf false io w).1) :
    ∃ s w', l.reset pf false io w = (0, { l with log := some s }, w') ∧ Open pf { l with log := some s } s w' ∧
      ({ l with log := some s } : Logger).tape pf w' = l.tape pf w ∧ w'.idx = w.idx := by
  obtain ⟨s, w', hr, hopen, htape, hidx⟩ := reset_opens hpath hout hlog hok
  exact ⟨s, w', hr, hopen, htape, hidx⟩

/-! ## The appends -/

/-- The line of a record, with its newline. -/
def Entry.line (e : Entry) : Str := e.text ++ [10]

/-- The flush that is due. -/
def tapeFlush (idx : Nat) (t : Tape UInt8) : Tape UInt8 := if idx % kFlushInteval = 0 then t.flush else t

/-- The check that is due. -/
def tapeCheck (idx limit : Nat) (t : Tape UInt8) : Tape UInt8 :=
  if idx % kShrinkToFitInteval = 0 then t.fit limit else t

/-- A log that an append opens is checked first. -/
def tapeOpen (l : Logger) (t : Tape UInt8) : Tape UInt8 := if l.log = none then t.fit l.maxSize.bytes else t

theorem flushDue_tape {o : Flush} (ho : o.fail = none) (h : Open pf l s w) :
    ∃ s' w', Logger.flushDue o s w = (s', w') ∧ Open pf { l with log := some s' } s' w' ∧
      ({ l with log := some s' } : Logger).tape pf w' = tapeFlush w.idx (l.tape pf w) ∧ w'.idx = w.idx := by
  unfold Logger.flushDue tapeFlush
  split
  · have hopen : Open pf _ _ _ := h.moved (fflush_name s o w) (fflush_onDisk o h.onDisk)
    refine ⟨_, _, rfl, hopen, hopen.tape.trans ?_, rfl⟩
    rw [h.tape]
    exact fflush_tape ho h.onDisk h.name1_ne
  · have hopen : Open pf { l with log := some s } s w := h.moved rfl h.onDisk
    exact ⟨s, w, rfl, hopen, hopen.tape.trans h.tape.symm, rfl⟩

theorem fwrite_tape_open {bs : Str} {o : Fwrite} (ho : bs.length ≤ o.taken) (h : Open pf l s w) :
    ∃ s' w', s.fwrite bs o w = (bs.length, s', w') ∧ Open pf { l with log := some s' } s' w' ∧
      ({ l with log := some s' } : Logger).tape pf w' = ((l.tape pf w).put bs).spill o.spill ∧ w'.idx = w.idx := by
  have hopen : Open pf _ _ _ := h.moved (fwrite_name s w bs o) (fwrite_onDisk bs o h.onDisk)
  have hcount : (s.fwrite bs o w).1 = bs.length := Nat.min_eq_right ho
  refine ⟨_, _, ?_, hopen, ?_, rfl⟩
  · rw [← hcount]
  · rw [hopen.tape, h.tape]
    exact fwrite_tape ho h.onDisk h.name1_ne

/-- One record: its text and its newline are put, then comes the flush that is due. -/
theorem putRecord_tape {io : AppendIO} {text : Str} (hline : text.length ≤ io.line.taken) (hnl : 1 ≤ io.newline.taken)
    (hfl : io.flush.fail = none) (h : Open pf l s w) :
    ∃ k s' w', Logger.putRecord io text s w = (text.length, s', w') ∧ Open pf { l with log := some s' } s' w' ∧
      ({ l with log := some s' } : Logger).tape pf w' = tapeFlush w.idx (((l.tape pf w).put (text ++ [10])).spill k) ∧
      w'.idx = w.idx := by
  obtain ⟨s₁, w₁, h₁, hopen₁, htape₁, hidx₁⟩ := fwrite_tape_open hline h
  obtain ⟨s₂, w₂, h₂, hopen₂, htape₂, hidx₂⟩ := fwrite_tape_open (show [(10 : UInt8)].length ≤ _ from hnl) hopen₁
  obtain ⟨s₃, w₃, h₃, hopen₃, htape₃, hidx₃⟩ := flushDue_tape hfl hopen₂
  obtain ⟨k, hk⟩ := (l.tape pf w).put_in_pieces text [10] io.line.spill io.newline.spill
  refine ⟨k, s₃, w₃, ?_, hopen₃, ?_, ?_⟩
  · unfold Logger.putRecord
    rw [h₁]
    dsimp only
    rw [h₂]
    dsimp only
    rw [h₃]
  · rw [htape₃, htape₂, htape₁, hk, hidx₂, hidx₁]
  · rw [hidx₃, hidx₂, hidx₁]

/-- A record that the gate does not let through is not emitted. -/
theorem append5_refused {io : AppendIO} {m : Msg} (h : (l.gate m.logLevel).1 = none) :
    (l.append5 pf io m w).1.entry = none := by
  have henter := enter_enters pf io m.logLevel l w
  unfold Logger.append5
  generalize l.enter pf io m.logLevel w = e at *
  cases henter with
  | entered _ hgate =>
    rw [h] at hgate
    cases hgate
  | _ => rfl

theorem append2_refused {io : Logger.Append2IO} {msg : Str} {ll : LogLevel} (h : (l.gate ll).1 = none) :
    (l.append2 io msg ll w).1.entry = none := by
  unfold Logger.append2
  generalize l.gate ll = g at *
  obtain ⟨o, l₁⟩ := g
  obtain rfl : o = none := h
  split <;> rfl

/-- The record: what it carries of the counter and the level, and its text. -/
theorem writeRecord_some {io : AppendIO} {m : Msg} {lvl : LogLevel} {e : Entry}
    (he : (l.writeRecord io m lvl w).1.entry = some e) :
    e = ⟨if l.hasIdx then some w.idx else none, lvl, lineText l.hasIdx l.hasTid w.idx io.time io.tid lvl m⟩ := by
  unfold Logger.writeRecord at he
  dsimp only at he
  split at he
  · split at he
    · split at he
      · exact (Option.some.inj he).symm
      · cases he
    · exact (Option.some.inj he).symm
  · dsimp only at he
    split at he
    · exact (Option.some.inj he).symm
    · cases he

theorem ensureLog_open {reset0 : ResetIO} {fit : ShrinkIO} (hlog : l.log = some s) :
    l.ensureLog pf reset0 fit w = (none, l, w) := by
  have hopen : ¬ (l.outputs.testFlag .file && l.log.isNone) = true := by simp [hlog]
  unfold Logger.ensureLog
  rw [if_neg hopen]

/-- A log that is not open is opened and checked. -/
theorem ensureLog_opens {reset0 : ResetIO} {fit : ShrinkIO} (hpath : l.path ≠ [])
    (hout : l.outputs.testFlag .file = true)
    (hlog : l.log = none) (hok : 0 ≤ (l.reset pf false reset0 w).1) (hfit : fit.Ok) :
    ∃ s w', l.ensureLog pf reset0 fit w = (none, { l with log := some s }, w') ∧ Open pf { l with log := some s } s w' ∧
      ({ l with log := some s } : Logger).tape pf w' = (l.tape pf w).fit l.maxSize.bytes ∧ w'.idx = w.idx := by
  have hclosed : (l.outputs.testFlag .file && l.log.isNone) = true := by simp [hout, hlog]
  obtain ⟨s₁, w₁, hr, hopen₁, htape₁, hidx₁⟩ := reset_tape hpath hout hlog hok
  obtain ⟨s₂, w₂, hf, hopen₂, htape₂, hidx₂⟩ := shrinkToFit_tape (l := { l with log := some s₁ }) hfit hpath hopen₁
  refine ⟨s₂, w₂, ?_, hopen₂, ?_, hidx₂.trans hidx₁⟩
  · unfold Logger.ensureLog
    rw [if_pos hclosed, hr]
    dsimp only
    rw [if_neg (by decide), hf]
  · exact htape₂.trans (congrArg (fun t => Tape.fit t l.maxSize.bytes) htape₁)

theorem outputs_ne_none {o : Outputs} (hout : o.testFlag .file = true) : ¬ o = .none := by
  rintro rfl
  cases hout

/-- The open log of a logger, if any, is as it should be. -/
def Sound (pf : Platform) (l : Logger) (w : World) : Prop := l.log = none ∨ ∃ s, Open pf l s w

/-- Every call of a five-argument append succeeds and takes all it is given. -/
structure AppendIO.Ok (pf : Platform) (io : AppendIO) (m : Msg) (l : Logger) (w : World) : Prop where
  opened : l.log = none → (l.gate m.logLevel).1 ≠ none → 0 ≤ ((l.gate m.logLevel).2.reset pf false io.reset0 w).1
  fit : io.fit.Ok
  line : ∀ e ∈ (l.append5 pf io m w).1.entry, e.text.length ≤ io.line.taken
  newline : 1 ≤ io.newline.taken
  flush : io.flush.fail = none
  shrink : io.shrink.Ok

/-- A log that is open, or can be opened, is there afterwards, and checked if it was not open before. -/
theorem ensureLog_tape {reset0 : ResetIO} {fit : ShrinkIO} (hpath : l.path ≠ [])
    (hout : l.outputs.testFlag .file = true)
    (hl : Sound pf l w) (hok : l.log = none → 0 ≤ (l.reset pf false reset0 w).1) (hfit : fit.Ok) :
    ∃ s w', l.ensureLog pf reset0 fit w = (none, { l with log := some s }, w') ∧ Open pf { l with log := some s } s w' ∧
      ({ l with log := some s } : Logger).tape pf w' = tapeOpen l (l.tape pf w) ∧ w'.idx = w.idx := by
  unfold tapeOpen
  rcases hl with hlog | ⟨s, hopen⟩
  · rw [if_pos hlog]
    exact ensureLog_opens hpath hout hlog (hok hlog) hfit
  · have hl : ({ l with log := some s } : Logger) = l := by rw [← hopen.log]
    have hlog : ¬ l.log = none := by simp [hopen.log]
    refine ⟨s, w, ?_, ?_, ?_, rfl⟩
    · rw [ensureLog_open hopen.log, hl]
    · rw [hl]
      exact hopen
    · rw [hl, if_neg hlog]

/-- What comes before the record is counted: the log is opened, and then checked, if it has to be. -/
theorem enter_tape {io : AppendIO} {m : Msg} (hpath : l.path ≠ []) (hout : l.outputs.testFlag .file = true)
    (hl : Sound pf l w) (hio : io.Ok pf m l w) :
    (∃ q r, l.enter pf io m.logLevel w = (.error r, { l with spinOnceLogLevel := q }, w)) ∨
    ∃ lvl q s w', l.enter pf io m.logLevel w = (.ok lvl, { l with spinOnceLogLevel := q, log := some s }, w') ∧
      Open pf { l with spinOnceLogLevel := q, log := some s } s w' ∧
      ({ l with spinOnceLogLevel := q, log := some s } : Logger).tape pf w' = tapeOpen l (l.tape pf w) ∧
        w'.idx = w.idx := by
  have hopened := hio.opened
  rw [gate_takes] at hopened
  have hensure : (l.gate m.logLevel).1 ≠ none → _ := fun hgate =>
    @ensureLog_tape pf { l with spinOnceLogLevel := .unchange } w io.reset0 io.fit hpath hout
      (hl.imp_right fun ⟨s, h⟩ => ⟨s, h.spin⟩)
      (fun hlog => hopened hlog hgate) hio.fit
  have henter := enter_enters pf io m.logLevel l w
  generalize l.enter pf io m.logLevel w = e at *
  cases henter with
  | pathless h => exact absurd h hpath
  | gated => exact .inl ⟨.unchange, 0, rfl⟩
  | silent _ _ hnone => exact absurd hnone (outputs_ne_none hout)
  | refused _ hgate _ he =>
    obtain ⟨s, w', hs, -⟩ := hensure (by simp [hgate])
    rw [he] at hs
    cases hs
  | entered _ hgate _ he =>
    obtain ⟨s, w', hs, hopen, htape, hidx⟩ := hensure (by simp [hgate])
    rw [he] at hs
    cases hs
    exact .inr ⟨_, .unchange, s, _, rfl, hopen, htape, hidx⟩

/-- The critical section of a record that is written in full. -/
theorem writeRecord_tape {io : AppendIO} {m : Msg} {lvl : LogLevel} (hout : l.outputs.testFlag .file = true)
    (h : Open pf l s w) (hnl : 1 ≤ io.newline.taken) (hfl : io.flush.fail = none)
    (hline : ∀ e ∈ (l.writeRecord io m lvl w).1.entry, e.text.length ≤ io.line.taken) :
    ∃ r e k s' w', l.writeRecord io m lvl w = (r, { l with log := some s' }, w') ∧ r.entry = some e ∧ 0 ≤ r.ret ∧
      Open pf { l with log := some s' } s' w' ∧
      ({ l with log := some s' } : Logger).tape pf w' = tapeFlush w.idx (((l.tape pf w).put e.line).spill k) ∧
      w'.idx = w.idx := by
  unfold Logger.writeRecord at hline ⊢
  dsimp only at hline ⊢
  rw [if_pos hout] at hline ⊢
  rw [h.log] at hline ⊢
  dsimp only at hline ⊢
  generalize lineText l.hasIdx l.hasTid w.idx io.time io.tid lvl m = text at *
  obtain ⟨k, s', w', hp, hopen, htape, hidx⟩ := putRecord_tape (hline _ rfl) hnl hfl h
  rw [hp]
  refine ⟨_, _, k, s', w', rfl, rfl, ?_, hopen, htape, hidx⟩
  simp

theorem settle_tape {io : AppendIO} {ret : Int} (hret : 0 ≤ ret) (hpath : l.path ≠ []) (hshrink : io.shrink.Ok)
    (h : Open pf l s w) :
    ∃ s' w', l.settle pf io ret w = ({ l with log := some s' }, w') ∧ Open pf { l with log := some s' } s' w' ∧
      ({ l with log := some s' } : Logger).tape pf w' = tapeCheck w.idx l.maxSize.bytes (l.tape pf w) ∧
        w'.idx = w.idx := by
  unfold Logger.settle tapeCheck
  rw [if_neg (not_lt.2 hret)]
  split
  · exact shrinkToFit_tape hshrink hpath h
  · exact ⟨s, w, by rw [h.self], by rw [h.self]; exact h, by rw [h.self], rfl⟩

theorem countRecord_open (h : Open pf l s w) : Open pf l s w.countRecord := ⟨h.log, h.name, h.onDisk⟩

/-- **The five-argument append refines the tape.** -/
theorem append5_tape {io : AppendIO} {m : Msg} (hpath : l.path ≠ []) (hout : l.outputs.testFlag .file = true)
    (hl : Sound pf l w) (hio : io.Ok pf m l w) :
    (∃ q, (l.append5 pf io m w).1.entry = none ∧ (l.append5 pf io m w).2 = ({ l with spinOnceLogLevel := q }, w)) ∨
    ∃ e q k s' w', (l.append5 pf io m w).1.entry = some e ∧
      (l.append5 pf io m w).2 = ({ l with spinOnceLogLevel := q, log := some s' }, w') ∧
      Open pf { l with spinOnceLogLevel := q, log := some s' } s' w' ∧ w'.idx = nextIdx w.idx ∧
      ({ l with spinOnceLogLevel := q, log := some s' } : Logger).tape pf w' =
        tapeCheck w'.idx l.maxSize.bytes (tapeFlush w'.idx (((tapeOpen l (l.tape pf w)).put e.line).spill k)) := by
  have hline := hio.line
  unfold Logger.append5 at hline ⊢
  rcases enter_tape hpath hout hl hio with ⟨q, r, he⟩ | ⟨lvl, q, s₁, w₁, he, hopen₁, htape₁, hidx₁⟩
  · left
    rw [he]
    exact ⟨q, rfl, rfl⟩
  · right
    rw [he] at hline ⊢
    dsimp only at hline ⊢
    obtain ⟨r, e, k, s₂, w₂, hw, hentry, hret, hopen₂, htape₂, hidx₂⟩ :=
      writeRecord_tape (l := { l with spinOnceLogLevel := q, log := some s₁ }) hout (countRecord_open hopen₁) hio.newline
        hio.flush hline
    rw [hw]
    dsimp only
    obtain ⟨s₃, w₃, hs, hopen₃, htape₃, hidx₃⟩ :=
      settle_tape (l := { l with spinOnceLogLevel := q, log := some s₂ }) hret hpath
      hio.shrink hopen₂
    rw [hs]
    have hidx : w₃.idx = nextIdx w.idx := by
      rw [hidx₃, hidx₂, ← hidx₁]
      rfl
    refine ⟨e, q, k, s₃, w₃, hentry, rfl, hopen₃, hidx, ?_⟩
    rw [← htape₁]
    apply htape₃.trans
    rw [htape₂, hidx₂, hidx₃, hidx₂]
    rfl

/-- Every call of a two-argument append succeeds and takes all it is given. -/
structure Logger.Append2IO.Ok (io : Logger.Append2IO) (msg : Str) : Prop where
  write : msg.length ≤ io.write.taken
  flush : io.flush.fail = none

/-- **The two-argument append refines the tape**: a log that is not open stays so, and nothing is checked. -/
theorem append2_tape {io : Logger.Append2IO} {msg : Str} {ll : LogLevel} (hpath : l.path ≠ [])
    (hout : l.outputs.testFlag .file = true) (hl : Sound pf l w) (hio : io.Ok msg) :
    (∃ q, (l.append2 io msg ll w).2 = ({ l with spinOnceLogLevel := q }, w) ∧
      ((l.append2 io msg ll w).1.entry = none ∨ l.log = none)) ∨
    ∃ e q k s' w', (l.append2 io msg ll w).1.entry = some e ∧ e.text = msg ∧ l.log ≠ none ∧
      (l.append2 io msg ll w).2 = ({ l with spinOnceLogLevel := q, log := some s' }, w') ∧
      Open pf { l with spinOnceLogLevel := q, log := some s' } s' w' ∧ w'.idx = w.idx ∧
      ({ l with spinOnceLogLevel := q, log := some s' } : Logger).tape pf w' =
        tapeFlush w'.idx (((l.tape pf w).put msg).spill k) := by
  obtain ⟨q, hq⟩ : ∃ q, (l.gate ll).2 = { l with spinOnceLogLevel := q } := ⟨_, gate_takes ll l⟩
  have hnone := outputs_ne_none hout
  unfold Logger.append2
  rw [if_neg hpath]
  generalize l.gate ll = r at *
  obtain ⟨o, l₁⟩ := r
  obtain rfl : l₁ = { l with spinOnceLogLevel := q } := hq
  cases o with
  | none => exact .inl ⟨q, rfl, .inl rfl⟩
  | some lvl =>
    dsimp only
    rw [if_neg hnone]
    rcases hl with hlog | ⟨s, hopen⟩
    · left
      refine ⟨q, ?_, .inr hlog⟩
      split
      · rfl
      · simp [hlog]
    · right
      have hclosed : ¬ (l.outputs.testFlag .file && !l.outputs.testFlag .coutOrCerr && l.log.isNone) = true := by
        simp [hopen.log]
      obtain ⟨s₁, w₁, h₁, hopen₁, htape₁, hidx₁⟩ := fwrite_tape_open hio.write hopen.spin
      obtain ⟨s₂, w₂, h₂, hopen₂, htape₂, hidx₂⟩ := flushDue_tape hio.flush hopen₁
      rw [if_neg hclosed, if_pos hout, hopen.log]
      dsimp only
      rw [h₁]
      dsimp only
      rw [h₂]
      dsimp only
      rw [if_neg (by simp)]
      refine ⟨_, q, io.write.spill, s₂, w₂, rfl, rfl, by simp, rfl, hopen₂, hidx₂.trans hidx₁, ?_⟩
      rw [hidx₂]
      exact htape₂.trans (congrArg _ htape₁)

/-! ## A log that is opened, and a first record -/

/-- A logger for the file `a` that has not opened it yet. -/
def freshA : Logger := { Logger.new (str "a") with outputs := .file, maxSize := minSize }

def FinishIO.ok : FinishIO := ⟨.ok, .ok⟩

def ResetIO.ok : ResetIO := ⟨.ok, fun _ => ⟨none, none⟩, none⟩

theorem fopen_ab {w : World} {n : Name} {g : Nat} (hg : (w.fs n).node = some (.regular g)) :
    w.fopen n .ab none = (some ⟨w.files, n, g, []⟩, { w.call (.fopen w.files n .ab) with files := w.files + 1 }) := by
  simp [World.fopen, hg, World.setCell, World.call]

/-- The directory of `a` is there. -/
theorem mkDirs_freshA (bs : Str) :
    mkDirs plain (dirname (str "a")) ResetIO.ok.mkdirs (oneFile bs) = (0, oneFile bs) := by
  have hd : slashPrefixes (withSlash (dirname (str "a"))) = [str "."] := by decide
  have hr : resolve plain (str ".") = [] := by decide
  have hne : dirname (str "a") ≠ [] := by decide
  have hex : ¬ isExists (oneFile bs) [] none = 0 := by
    simp [isExists, getFileSize, World.stat, oneFile, rootCell]
  rw [mkDirs, if_neg hne, hd, mkDirsLoop, hr]
  exact if_neg hex

theorem reset_freshA (bs : Str) :
    freshA.reset plain false .ok (oneFile bs) =
      (0, { freshA with log := some ⟨1, [str "a"], 0, []⟩ },
        { (oneFile bs).call (.fopen 1 [str "a"] .ab) with files := 2 }) := by
  have hg : ((oneFile bs).fs [str "a"]).node = some (.regular 0) := by simp [oneFile, fileCell]
  have hn : freshA.name plain = [str "a"] := by decide
  have hdirs : mkDirs plain (dirname freshA.path) ResetIO.ok.mkdirs (oneFile bs) = (0, oneFile bs) := mkDirs_freshA bs
  have hopen : (oneFile bs).fopen [str "a"] (if false then .wb else .ab) ResetIO.ok.fopen = _ := fopen_ab hg
  rw [reset_closed false .ok (by decide) (by decide) rfl, hn, hdirs, hopen]
  rfl

/-- The stream `reset` opens there. -/
def streamA1 : Stream := ⟨1, [str "a"], 0, []⟩

def openedA : Logger := { freshA with log := some streamA1 }

def openedWorld (bs : Str) : World := { (oneFile bs).call (.fopen 1 [str "a"] .ab) with files := 2 }

theorem openedA_open (bs : Str) : Open plain openedA streamA1 (openedWorld bs) := by
  refine ⟨rfl, by decide, ?_⟩
  simp [Stream.OnDisk, streamA1, openedWorld, oneFile, fileCell]

theorem openedA_tape (bs : Str) : openedA.tape plain (openedWorld bs) = ⟨bs, [], []⟩ := by
  have hn : openedA.name plain = [str "a"] := by decide
  have hn1 : openedA.name1 plain = [str "a.1"] := by decide
  ext1
  · show (openedWorld bs).content (openedA.name plain) = bs
    rw [hn]
    simp [openedWorld, oneFile, fileCell, World.content, Cell.content]
  · rfl
  · show (openedWorld bs).content (openedA.name1 plain) = []
    rw [hn1]
    rfl

def AppendIO.ok : AppendIO where
  reset0 := .ok
  fit := .ok
  time := str "time"
  tid := 7
  stale := 0
  line := ⟨8192, 0⟩
  newline := ⟨1, 0⟩
  flush := .ok
  errno := 0
  reset1 := .ok
  shrink := .ok

def hello : Msg := ⟨none, none, -1, str "hello", .note⟩

theorem hello_entry :
    (freshA.append5 plain .ok hello (oneFile [])).1.entry = some ⟨some 1, .note, str "1[time Note(3)] hello"⟩ := by
  decide

theorem hello_ok : AppendIO.ok.Ok plain hello freshA (oneFile []) where
  opened := fun _ _ => by decide
  fit := ShrinkIO.ok_ok
  line := by
    rw [hello_entry]
    rintro e ⟨⟩
    decide
  newline := le_rfl
  flush := rfl
  shrink := ShrinkIO.ok_ok

end CtiLog
