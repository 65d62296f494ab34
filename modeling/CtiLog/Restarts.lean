import CtiLog.Durable
import CtiLog.Sections
/-
# A logger that is killed and started again

A process can be killed anywhere: while `append` opens the log, writes a record or rotates. What it does not
live to do changes no file, and neither does a call that fails; so an `append` in which the process is
killed is one whose calls fail from some point on, after which the buffer of its stream is gone.

| here | there |
| --- | --- |
| `ShrinkIO.Killed` | `shrinkToFit` (log.cpp:580) that does not come to empty the log (:645) |
| `AppendIO.Dies`   | `append` (log.cpp:191) that does not come to its end |
| `LivesAct.quit`   | `~Logger` (log.cpp:93), `finish` |
| `World.restart`   | a new process: the files, and `kLogIdx` at 0 (log.cpp:190) |

`lives_durable`: however often the process ends and is started again, the files hold consecutive pieces of what
the processes have written, all of them or more than half of `maxSize`.
-/

namespace CtiLog

open Rotating Runs Chunks Finset

/-! ## A rotation that is killed -/

/-- A rotation killed before it has emptied the log. A `::write` that is made takes something, or fails. -/
structure ShrinkIO.Killed (io : ShrinkIO) : Prop where
  write : ∀ i k, (io.chunk i).write k ≠ .ok 0
  fopen1 : io.fopen1 ≠ none
  fopen2 : io.fopen2 ≠ none

/-- A chunk is written to its end, or a call fails before that. -/
theorem drains_or_fails {write : Nat → Sys} (hw : ∀ k, write k ≠ .ok 0) (len : Nat) :
    Drains write len ∨ Fails write len := by
  have hpos : ∀ k, (∀ e, write k ≠ .fail e) → 0 < (write k).amount := by
    intro k hk
    cases h : write k with
    | fail e => exact absurd h (hk e)
    | ok n =>
      apply Nat.pos_of_ne_zero
      rintro rfl
      exact hw k h
  classical
  by_cases hfail : ∃ k e, write k = .fail e
  swap
  · push Not at hfail
    exact .inl (drains_of_pos (fun k => hpos k (hfail k)) len)
  -- the first call that fails
  obtain ⟨e, he⟩ := Nat.find_spec hfail
  have hbefore : ∀ i < Nat.find hfail, 0 < (write i).amount := by
    intro i hi
    have hi' := Nat.find_min hfail hi
    push Not at hi'
    exact hpos i hi'
  rcases Nat.lt_or_ge (∑ i ∈ range (Nat.find hfail), (write i).amount) len with hlt | hge
  · exact .inr ⟨_, e, he, hbefore, hlt⟩
  · exact .inl ⟨_, hbefore, hge⟩

section
variable {pf : Platform} {io : ShrinkIO} {l : Logger} {w : World} {s : Stream}

/-- A copy that is killed leaves the beginning of the log. -/
theorem copyFile_beginning (hio : ∀ i k, (io.chunk i).write k ≠ .ok 0) : io.Leaves pf List.IsPrefix := by
  intro w log tmp dl dt L M hl hlb ht hb hne hL hempty hM hpos
  have hstep : ∀ k (c : Copy), k * kBigPerReadBytes < min M L.length → CopyInv io dt (min M L.length) L w k c →
      io.Reached (min M L.length) k → (c.world.fs dt.name).data dt.gen <+: L →
      ((doWrite2Tmp tmp dt.name io.chunk c (chunkOf L (min M L.length) k)).2.world.fs dt.name).data dt.gen <+: L := by
    intro k c hk hinv hreach _
    -- the chunks before were written to their ends
    have hsaved := (hinv.saved fun j hj => (drains_or_fails (hio j) _).resolve_right fun h => (hreach j hj).2 (.inl h)).1
    have hlen := chunkOf_length hk (Nat.min_le_right M L.length)
    have hpos := chunkLen_pos hk
    have hbound : (chunkOf L (min M L.length) k).length ≤ kFileIoUpperBound := by
      have := chunkLen_le (min M L.length) k
      have : kBigPerReadBytes ≤ kFileIoUpperBound := by decide
      omega
    obtain ⟨n, cs, -, -, -, -, -, hworld⟩ := doWrite2Tmp_spec ht hb io.chunk c (by omega) hbound
    have hdata : ((doWrite2Tmp tmp dt.name io.chunk c (chunkOf L (min M L.length) k)).2.world.fs dt.name).data dt.gen =
        (c.world.fs dt.name).data dt.gen ++ (chunkOf L (min M L.length) k).take n := by
      rw [hworld]
      simp
    rw [hdata, hsaved, copied, Nat.min_eq_left hk.le, chunkOf, List.take_take, ← List.take_add]
    exact List.take_prefix _ _
  have h0 : (w.fs dt.name).data dt.gen <+: L := by
    rw [hempty]
    exact List.nil_prefix
  obtain ⟨k, hbegin, hnode⟩ :=
    copyFile_inv (fun _ (c : Copy) => (c.world.fs dt.name).data dt.gen <+: L) hl hlb ht hb hne hL hempty hM hpos 0 h0 hstep
  exact ⟨hbegin, hnode⟩

/-- **A rotation that is killed** leaves the log, and the old backup or an unfinished copy of the log. -/
theorem shrinkToFit_torn (hio : io.Killed) (h : Sound pf l w) :
    (l.tape pf w).Torn (l.maxSize.bytes / 2) ((l.shrinkToFit pf io w).1.tape pf (l.shrinkToFit pf io w).2) :=
  shrinkToFit_respects Tape.Torn.respects (copyFile_beginning hio.write) (fun _ => List.nil_prefix)
    (fun _ _ => And.intro) (fun h => h ⟨hio.fopen1, hio.fopen2⟩) h

end

/-! ## An append that is killed -/

/-- Killed while the log is opened, an append writes nothing; a newline follows a whole text; and the rotation that is
due does not empty the log. -/
structure AppendIO.Dies (pf : Platform) (io : AppendIO) (m : Msg) (l : Logger) (w : World) : Prop where
  fit : io.fit.Ok ∨ io.fit.Killed ∧ io.line.taken = 0 ∧ io.newline.taken = 0
  newline : 0 < io.newline.taken → ∀ e ∈ (l.append5 pf io m w).1.entry, e.text.length ≤ io.line.taken
  shrink : io.shrink.Killed

section
variable {pf : Platform} {l : Logger} {w : World} {s : Stream}

/-- Opening the log: it is open and checked, or the append ends here, or the process does. -/
theorem ensureLog_dies {reset0 : ResetIO} {fit : ShrinkIO} (hpath : l.path ≠ []) (hout : l.outputs = .file)
    (hfit : fit.Ok ∨ fit.Killed) (h : Sound pf l w) {r : Option Int} {l' : Logger} {w' : World}
    (he : l.ensureLog pf reset0 fit w = (r, l', w')) :
    Sound pf l' w' ∧ (l'.tape pf w' = tapeOpen l (l.tape pf w) ∨
      (l.tape pf w).Torn (l.maxSize.bytes / 2) (l'.tape pf w') ∧ (r = none → fit.Killed)) := by
  have hacts := acts_sound (@ensureLog_acts pf True True l w reset0 fit) h
  rw [he] at hacts
  refine ⟨hacts, ?_⟩
  have hfile : l.outputs.testFlag .file = true := by
    rw [hout]
    rfl
  rcases h with hlog | ⟨s, hs⟩
  swap
  · -- the log is open
    rw [ensureLog_open hs.log] at he
    cases he
    left
    rw [tapeOpen, if_neg (by simp [hs.log])]
  by_cases hok : 0 ≤ (l.reset pf false reset0 w).1
  swap
  · -- it cannot be opened
    have htorn := reset_respects (@Tape.Torn.respects UInt8 (l.maxSize.bytes / 2)) false reset0 (fun h => by cases h)
      (.inl hlog : Sound pf l w)
    obtain ⟨o, ho⟩ : ∃ o, (l.reset pf false reset0 w).2.1 = { l with log := o } :=
      @acts_settings pf True True _ _ (reset_acts false reset0)
    unfold Logger.ensureLog at he
    rw [if_pos (by simp [hfile, hlog])] at he
    generalize l.reset pf false reset0 w = q at *
    obtain ⟨c, l₁, w₁⟩ := q
    have hneg : c < 0 := not_le.1 hok
    obtain rfl : l₁ = _ := ho
    have hcout : ({ l with log := o } : Logger).outputs.testFlag .coutOrCerr = false := by
      show l.outputs.testFlag .coutOrCerr = false
      rw [hout]
      rfl
    dsimp only at he
    rw [if_pos hneg, hcout] at he
    cases he
    exact .inr ⟨htorn, fun h => by cases h⟩
  rcases hfit with hfit | hkilled
  · obtain ⟨s, w₁, hr, -, htape, -⟩ := ensureLog_opens hpath hfile hlog hok hfit
    rw [he] at hr
    cases hr
    left
    rw [tapeOpen, if_pos hlog]
    exact htape
  · obtain ⟨s₁, w₁, hr, hopen₁, htape₁, -⟩ := reset_tape hpath hfile hlog hok
    have htorn := shrinkToFit_torn hkilled (.inr ⟨s₁, hopen₁⟩)
    unfold Logger.ensureLog at he
    rw [if_pos (by simp [hfile, hlog]), hr] at he
    dsimp only at he
    rw [if_neg (by decide), Prod.mk.injEq] at he
    obtain ⟨-, he⟩ := he
    rw [he, htape₁] at htorn
    exact .inr ⟨htorn, fun _ => hkilled⟩

/-- The stdio part of a record, as far as it comes. -/
theorem putRecord_torn (least : Nat) (io : AppendIO) (text : Str) (h : Open pf l s w) :
    ((l.tape pf w).put (text.take io.line.taken ++ [10].take io.newline.taken)).Torn least
      (({ l with log := some (Logger.putRecord io text s w).2.1 } : Logger).tape pf
        (Logger.putRecord io text s w).2.2) := by
  obtain ⟨hopen₁, htape₁⟩ := @fwrite_any pf l w s text io.line h
  obtain ⟨hopen₂, htape₂⟩ := @fwrite_any pf _ _ _ [10] io.newline hopen₁
  obtain ⟨k, -, htape₃⟩ := flushDue_any io.flush hopen₂
  obtain ⟨i, hi⟩ := (l.tape pf w).put_in_pieces (text.take io.line.taken) ([10].take io.newline.taken) io.line.spill
    io.newline.spill
  have hspills := (@Tape.Torn.respects UInt8 least).trans (Tape.Torn.respects.spill
    ((l.tape pf w).put (text.take io.line.taken ++ [10].take io.newline.taken)) i) (Tape.Torn.respects.spill _ k)
  rw [← hi, ← htape₁] at hspills
  unfold Logger.putRecord
  refine Eq.mp (congrArg _ ?_) hspills
  rw [← htape₂]
  exact htape₃.symm

/-- **The critical section**: the beginning of a line arrives. -/
theorem writeRecord_torn (least : Nat) (io : AppendIO) (m : Msg) (lvl : LogLevel) (h : Sound pf l w)
    (hnewline : 0 < io.newline.taken → ∀ e ∈ (l.writeRecord io m lvl w).1.entry, e.text.length ≤ io.line.taken) :
    ∃ bs, bs <+: ((l.writeRecord io m lvl w).1.entry.map Entry.line).toList.flatten ∧
      (io.line.taken = 0 ∧ io.newline.taken = 0 → bs = []) ∧
      ((l.tape pf w).put bs).Torn least ((l.writeRecord io m lvl w).2.1.tape pf (l.writeRecord io m lvl w).2.2) := by
  have hidle : (l.writeRecord io m lvl w).2 = (l, w) → ∃ bs,
      bs <+: ((l.writeRecord io m lvl w).1.entry.map Entry.line).toList.flatten ∧
      (io.line.taken = 0 ∧ io.newline.taken = 0 → bs = []) ∧
      ((l.tape pf w).put bs).Torn least ((l.writeRecord io m lvl w).2.1.tape pf (l.writeRecord io m lvl w).2.2) := by
    intro heq
    refine ⟨[], List.nil_prefix, fun _ => rfl, ?_⟩
    rw [heq, Tape.put_nil]
    exact .refl _
  by_cases hout : l.outputs.testFlag .file = true
  swap
  · apply hidle
    unfold Logger.writeRecord
    dsimp only
    rw [if_neg hout]
  rcases h with hlog | ⟨s, hs⟩
  · apply hidle
    unfold Logger.writeRecord
    dsimp only
    rw [if_pos hout, hlog]
  · unfold Logger.writeRecord at hnewline ⊢
    dsimp only at hnewline ⊢
    rw [if_pos hout, hs.log] at hnewline ⊢
    dsimp only at hnewline ⊢
    generalize lineText l.hasIdx l.hasTid w.idx io.time io.tid lvl m = text at *
    refine ⟨_, ?_, ?_, putRecord_torn least io text hs⟩
    · show _ <+: [text ++ [10]].flatten
      rw [List.flatten_cons, List.flatten_nil, List.append_nil]
      rcases Nat.eq_zero_or_pos io.newline.taken with hzero | hpos
      · rw [hzero, List.take_zero, List.append_nil]
        exact (List.take_prefix _ _).trans (List.prefix_append _ _)
      · have hline : text.length ≤ io.line.taken := hnewline hpos _ rfl
        rw [List.take_of_length_le hline, List.prefix_append_right_inj]
        exact List.take_prefix _ _
    · rintro ⟨hline, hnewline⟩
      rw [hline, hnewline]
      rfl

/-- What follows the critical section does not empty the log. -/
theorem settle_torn (io : AppendIO) (ret : Int) (hshrink : io.shrink.Killed) (h : Sound pf l w) :
    (l.tape pf w).Torn (l.maxSize.bytes / 2) ((l.settle pf io ret w).1.tape pf (l.settle pf io ret w).2) := by
  unfold Logger.settle
  split
  · exact reset_respects Tape.Torn.respects false io.reset1 (fun h => by cases h) h
  · split
    · exact shrinkToFit_torn hshrink h
    · exact .refl _

/-- **An append that is killed**: the beginning of its line may have arrived, on a log that it may have opened. -/
theorem append5_dies {io : AppendIO} {m : Msg} (hpath : l.path ≠ []) (hout : l.outputs = .file) (h : Sound pf l w)
    (hio : io.Dies pf m l w) :
    ∃ t bs, (t = l.tape pf w ∧ bs = [] ∨ t = tapeOpen l (l.tape pf w)) ∧
      bs <+: ((l.append5 pf io m w).1.entry.map Entry.line).toList.flatten ∧
      (t.put bs).Torn (l.maxSize.bytes / 2) ((l.append5 pf io m w).2.1.tape pf (l.append5 pf io m w).2.2) := by
  have hnewline := hio.newline
  have hnone : l.outputs ≠ .none := by
    rw [hout]
    decide
  unfold Logger.append5 at hnewline ⊢
  have hensure : ∀ {r l' w'}, Logger.ensureLog pf io.reset0 io.fit { l with spinOnceLogLevel := .unchange } w =
      (r, l', w') →
      Sound pf l' w' ∧ (l'.tape pf w' = tapeOpen l (l.tape pf w) ∨
        (l.tape pf w).Torn (l.maxSize.bytes / 2) (l'.tape pf w') ∧ (r = none → io.fit.Killed)) := fun he =>
    ensureLog_dies (l := { l with spinOnceLogLevel := .unchange }) hpath hout (hio.fit.imp id fun h => h.1)
      (h.imp_right fun ⟨s, hs⟩ => ⟨s, hs.spin⟩) he
  have henter := enter_enters pf io m.logLevel l w
  generalize l.enter pf io m.logLevel w = e at *
  cases henter with
  | pathless h => exact absurd h hpath
  | silent _ _ h => exact absurd h hnone
  | gated =>
    refine ⟨_, [], .inl ⟨rfl, rfl⟩, List.nil_prefix, ?_⟩
    rw [Tape.put_nil]
    exact .refl _
  | refused _ _ _ he =>
    obtain ⟨-, hopened | ⟨htorn, -⟩⟩ := hensure he
    · refine ⟨_, [], .inr rfl, List.nil_prefix, ?_⟩
      rw [Tape.put_nil, ← hopened]
      exact .refl _
    · refine ⟨_, [], .inl ⟨rfl, rfl⟩, List.nil_prefix, ?_⟩
      rw [Tape.put_nil]
      exact htorn
  | @entered lvl l₁ w₁ _ _ _ he =>
    obtain ⟨hsound, hensured⟩ := hensure he
    dsimp only at hnewline ⊢
    have hcount : Sound pf l₁ w₁.countRecord := hsound.imp_right fun ⟨s, hs⟩ => ⟨s, countRecord_open hs⟩
    obtain ⟨bs, hbs, hnothing, hwritten⟩ := writeRecord_torn (l.maxSize.bytes / 2) io m lvl hcount hnewline
    have hsound₂ : Sound pf (l₁.writeRecord io m lvl w₁.countRecord).2.1 (l₁.writeRecord io m lvl w₁.countRecord).2.2 :=
      acts_sound (@writeRecord_acts pf True True True l₁ w₁.countRecord io m lvl) hcount
    have hmax : (l₁.writeRecord io m lvl w₁.countRecord).2.1.maxSize = l.maxSize := by
      obtain ⟨o, ho⟩ := acts_settings (@writeRecord_acts pf True True False l₁ w₁.countRecord io m lvl)
      obtain ⟨o', ho'⟩ :=
        acts_settings (@ensureLog_acts pf True False { l with spinOnceLogLevel := .unchange } w io.reset0 io.fit)
      rw [he] at ho'
      have hsame : l₁.maxSize = l.maxSize := by rw [show l₁ = _ from ho']
      exact (congrArg Logger.maxSize ho).trans hsame
    generalize l₁.writeRecord io m lvl w₁.countRecord = q at *
    obtain ⟨r, l₂, w₂⟩ := q
    dsimp only at hbs hwritten hsound₂ hmax ⊢
    have hsettled := settle_torn io r.ret hio.shrink hsound₂
    rw [hmax] at hsettled
    have hwhole := hwritten.trans hsettled
    rcases hensured with hopened | ⟨htorn, hkilled⟩
    · refine ⟨_, bs, .inr rfl, hbs, ?_⟩
      rw [← hopened]
      exact hwhole
    · -- killed while the log was opened
      have hkilled := hkilled rfl
      obtain ⟨-, htaken⟩ := hio.fit.resolve_left fun hok => hkilled.fopen1 hok.fopen1
      obtain rfl := hnothing htaken
      rw [Tape.put_nil] at hwhole
      refine ⟨_, [], .inl ⟨rfl, rfl⟩, hbs, ?_⟩
      rw [Tape.put_nil]
      exact htorn.trans hwhole

end

/-! ## Process after process -/

/-- A process that has ended: what it has emitted, and how many of the newest records its end may have cost. -/
structure Ended where
  recs : List Str
  most : Nat

/-- What is left of the records of a process, and of the next record a part. -/
def Ended.Survives (ended : Ended) (rest : List Str × Str) : Prop :=
  ∃ lost, ended.recs = rest.1 ++ lost ∧ lost.length ≤ ended.most ∧ rest.2 <+: lost.flatten

/-- The pieces that the processes have left in the files, oldest first. -/
def pieces (rests : List (List Str × Str)) : List Str := rests.flatMap fun rest => rest.1 ++ [rest.2]

/-- The process that runs, and those before it. -/
structure Lives where
  sole : Sole
  recs : List Str
  past : List Ended

/-- A new process. -/
def World.restart (w : World) : World := ⟨w.fs, 0, 0, []⟩

/-- The process ends in `w`, and another begins with the logger `l`. -/
def Lives.next (t : Lives) (l : Logger) (w : World) (rs : List Str) (most : Nat) : Lives :=
  ⟨⟨l, w.restart, []⟩, [], t.past ++ [⟨t.recs ++ rs, most⟩]⟩

inductive LivesAct where
  | act (a : SoleAct)
  | quit (io : FinishIO)
  | kill
  | die (io : AppendIO) (m : Msg)

/-- Killed between two appends, a process loses what it has not flushed; in the middle of one, that record too. -/
inductive LivesStep (pf : Platform) (l : Logger) : Lives → LivesAct → Lives → Prop
  | act {t : Lives} {a : SoleAct} {s : Sole} : SoleStep pf t.sole a s →
      LivesStep pf l t (.act a) ⟨s, t.recs ++ a.lines pf t.sole, t.past⟩
  | quit {t : Lives} {io : FinishIO} : io.Ok →
      LivesStep pf l t (.quit io) (t.next l (t.sole.log.finish io t.sole.world).2 [] 0)
  | kill {t : Lives} : LivesStep pf l t .kill (t.next l t.sole.world [] (kFlushInteval - 1))
  | die {t : Lives} {io : AppendIO} {m : Msg} : io.Dies pf m t.sole.log t.sole.world →
      (∀ e ∈ (t.sole.log.append5 pf io m t.sole.world).1.entry, 14 * e.line.length ≤ t.sole.log.maxSize.bytes) →
      LivesStep pf l t (.die io m) (t.next l (t.sole.log.append5 pf io m t.sole.world).2.2
        ((t.sole.log.append5 pf io m t.sole.world).1.entry.map Entry.line).toList kFlushInteval)

/-- What the files held at the start counts as two pieces. -/
structure LivesInv (pf : Platform) (l : Logger) (b c : Str) (t : Lives) : Prop where
  sole : ∃ start, SoleInv pf start t.sole
  path : t.sole.log.path = l.path
  maxSize : t.sole.log.maxSize = l.maxSize
  tape : ∃ rests n, List.Forall₂ Ended.Survives t.past rests ∧ n ≤ t.sole.world.idx % kFlushInteval ∧
    n ≤ t.recs.length ∧
    (t.sole.tape pf).Durable True (l.maxSize.bytes / 2) n (b :: c :: pieces rests ++ t.recs)
  backup : (t.sole.tape pf).backup.length ≤ max b.length l.maxSize.bytes

section
variable {pf : Platform} {l : Logger} {b c start : Str} {t u : Lives} {a : LivesAct}

theorem tapeOpen_backup_le {t : Tape UInt8} {l : Logger} {most : Nat} (h : t.backup.length ≤ most)
    (hlimit : l.maxSize.bytes ≤ most) : (tapeOpen l t).backup.length ≤ most := by
  unfold tapeOpen
  split
  · exact Tape.fit_backup_le h hlimit
  · exact h

/-- No action makes the backup longer than the limit. -/
theorem soleStep_backup_le {t u : Sole} {a : SoleAct} {most : Nat} (ht : SoleInv pf start t) (hstep : SoleStep pf t a u)
    (h : (t.tape pf).backup.length ≤ most) (hlimit : t.log.maxSize.bytes ≤ most) :
    (u.tape pf).backup.length ≤ most := by
  cases hstep with
  | append io m hio _ =>
    have hout : t.log.outputs.testFlag .file = true := by
      rw [ht.outputs]
      rfl
    rcases append5_tape ht.path hout ht.sound hio with ⟨q, he, hr⟩ | ⟨e, q, k, s, w', he, hr, hopen, hidx, htape⟩
    · rw [hr]
      exact h
    · have hflush : ∀ t : Tape UInt8, (tapeFlush w'.idx t).backup = t.backup := by
        intro t
        unfold tapeFlush
        split <;> rfl
      have hput := tapeOpen_backup_le h hlimit
      rw [← Tape.backup_put _ e.line, ← Tape.backup_spill _ k, ← hflush] at hput
      rw [hr]
      unfold Sole.tape
      rw [htape]
      unfold tapeCheck
      split
      · exact Tape.fit_backup_le hput hlimit
      · exact hput
  | spill k hs =>
    rename_i s
    obtain ⟨s', hopen⟩ := ht.sound.resolve_left (by simp [hs])
    obtain rfl : s = s' := by
      rw [hopen.log] at hs
      exact (Option.some.inj hs).symm
    have hfs : ((s.spill k t.world).2.fs (t.log.name1 pf)) = t.world.fs (t.log.name1 pf) :=
      spill_other s k t.world hopen.name1_ne
    show ((s.spill k t.world).2.content (t.log.name1 pf)).length ≤ most
    rw [World.content, hfs]
    exact h

/-- The log is not longer than the limit, also with one more short line on it. -/
theorem SoleInv.live_le {t : Sole} (h : SoleInv pf start t) : (t.tape pf).live.length ≤ t.log.maxSize.bytes := by
  by_cases hlog : t.log.log = none
  · exact h.closed hlog
  · have hle : ((t.tape pf).put []).live.length ≤ _ := (h.opened hlog).live_le (Nat.zero_le _)
    rwa [Tape.put_nil] at hle

theorem pieces_snoc (rests : List (List Str × Str)) (kept : List Str) (part : Str) :
    pieces (rests ++ [(kept, part)]) = pieces rests ++ (kept ++ [part]) := by
  simp [pieces]

/-- **The end of a process**, whatever it was: of its logger `l'` the files remain. -/
theorem lives_next {l' : Logger} {w : World} {rs : List Str} {most n : Nat} {t₀ : Tape UInt8} {bs : Str}
    {rests : List (List Str × Str)} (hpath : l.path ≠ []) (hout : l.outputs = .file) (hlog : l.log = none)
    (hsame : l'.path = l.path) (hrests : List.Forall₂ Ended.Survives t.past rests)
    (hdurable : t₀.Durable True (l.maxSize.bytes / 2) n (b :: c :: pieces rests ++ t.recs))
    (hn : n ≤ t.recs.length) (hmost : n + rs.length ≤ most)
    (hbs : bs <+: rs.flatten) (hroom : (t₀.put bs).live.length ≤ l.maxSize.bytes)
    (hback : t₀.backup.length ≤ max b.length l.maxSize.bytes)
    (hu : (t₀.put bs).Torn (l.maxSize.bytes / 2) (l'.tape pf w)) :
    LivesInv pf l b c (t.next l w rs most) := by
  obtain ⟨front, back, late, part, hsuffix, hlate, hpart, hsaved, hleft⟩ := hdurable.torn hbs hu
  -- what is lost is of this process
  obtain ⟨kept, hkept⟩ : late <:+ t.recs ++ rs := by
    refine List.suffix_of_suffix_length_le ((List.suffix_append _ _).trans hsuffix) ?_ ?_
    · rw [List.append_assoc]
      exact List.suffix_append _ _
    · rw [List.length_append]
      omega
  rw [List.append_assoc (b :: c :: pieces rests), ← hkept, ← List.append_assoc (b :: c :: pieces rests),
    List.suffix_append_self_iff] at hsuffix
  have hname : l'.name pf = l.name pf := by rw [Logger.name, Logger.name, hsame]
  have hname1 : l'.name1 pf = l.name1 pf := by rw [Logger.name1, Logger.name1, hsame]
  have hdisk : (l'.tape pf w).disk = w.restart.content (l.name pf) := by
    rw [← hname]
    rfl
  have hbackup : (l'.tape pf w).backup = w.restart.content (l.name1 pf) := by
    rw [← hname1]
    rfl
  have hdisk_le : (l'.tape pf w).disk.length ≤ l.maxSize.bytes :=
    ((List.prefix_append _ (l'.tape pf w).buf).trans hu.live).length_le.trans hroom
  have hback_le : (l'.tape pf w).backup.length ≤ max b.length l.maxSize.bytes := by
    rcases hu.backup with h | h
    · rw [h]
      exact hback
    · exact (h.1.length_le.trans hdisk_le).trans (Nat.le_max_right _ _)
  obtain ⟨hsole, htape⟩ :=
    @soleInv_start pf l w.restart hpath hout hlog (Nat.zero_lt_succ _) (hdisk ▸ hdisk_le)
  rw [← hdisk, ← hbackup] at htape
  refine ⟨⟨_, hsole⟩, rfl, rfl, ⟨rests ++ [(kept, part)], 0, ?_, Nat.zero_le _, Nat.zero_le _, ?_⟩, ?_⟩
  · exact List.rel_append hrests (.cons ⟨late, hkept.symm, hlate.trans hmost, hpart⟩ .nil)
  · show (l.tape pf w.restart).Durable True _ 0 (b :: c :: pieces (rests ++ [(kept, part)]) ++ [])
    rw [htape, pieces_snoc]
    have hgiven : b :: c :: (pieces rests ++ (kept ++ [part])) = b :: c :: pieces rests ++ kept ++ [part] := by simp
    rw [List.append_nil, hgiven]
    refine ⟨front, back ++ [part], [], ?_, Nat.zero_le _, hsaved.mono (fun hall => ?_) rfl List.prefix_rfl, ?_,
      List.nil_suffix⟩
    · rw [List.append_nil, ← List.append_assoc]
      exact List.suffix_append_self_iff.2 hsuffix
    · rw [List.append_assoc (b :: c :: pieces rests), ← hkept, ← List.append_assoc (b :: c :: pieces rests)] at hall
      rw [← List.append_cancel_right hall, List.append_nil, List.append_assoc]
    · simp [Tape.live, hleft]
  · show (l.tape pf w.restart).backup.length ≤ _
    rw [htape]
    exact hback_le

/-- A logger that is destroyed has written out all it was given. -/
theorem finish_tape {t : Sole} {io : FinishIO} (hio : io.Ok) (h : SoleInv pf start t) :
    (t.log.finish io t.world).1.tape pf (t.log.finish io t.world).2 = (t.tape pf).flush := by
  unfold Logger.finish
  rw [if_neg h.path]
  obtain ⟨hlive, hbackup⟩ := closeLog_ok hio h.sound
  have hclosed : (t.log.closeLog io t.world).1.log = none := closeLog_log io
  have hbuf : ((t.log.closeLog io t.world).1.tape pf (t.log.closeLog io t.world).2).buf = [] := by
    rw [Logger.tape, hclosed, Option.elim]
  ext1
  · rw [Tape.live, hbuf, List.append_nil] at hlive
    exact hlive
  · exact hbuf
  · exact hbackup

/-- What an append that is killed has put on the tape leaves room. -/
theorem dies_room {t : Sole} {e : Option Entry} {t₀ : Tape UInt8} {bs : Str} (h : SoleInv pf start t)
    (ht₀ : t₀ = t.tape pf ∧ bs = [] ∨ t₀ = tapeOpen t.log (t.tape pf)) (hbs : bs <+: (e.map Entry.line).toList.flatten)
    (hshort : ∀ e' ∈ e, 14 * e'.line.length ≤ t.log.maxSize.bytes) : (t₀.put bs).live.length ≤ t.log.maxSize.bytes := by
  have hline : 14 * bs.length ≤ t.log.maxSize.bytes := by
    have hlen := hbs.length_le
    cases e with
    | none =>
      have hzero : bs.length = 0 := Nat.le_zero.1 hlen
      omega
    | some e' =>
      have hle := hshort e' rfl
      simp only [Option.map_some, Option.toList_some, List.flatten_cons, List.flatten_nil, List.append_nil] at hlen
      omega
  rcases ht₀ with ⟨rfl, rfl⟩ | rfl
  · rw [Tape.put_nil]
    exact h.live_le
  · exact h.ready.1.live_le hline

/-- **Step lemma.** -/
theorem livesStep_inv (hout : l.outputs = .file) (hlog : l.log = none) (ht : LivesInv pf l b c t)
    (h : LivesStep pf l t a u) :
    LivesInv pf l b c u := by
  obtain ⟨⟨start, hsole⟩, hpath, hmaxSize, ⟨rests, n, hrests, hn, hrecs, hdurable⟩, hback⟩ := ht
  have hlimit : t.sole.log.maxSize.bytes ≤ max b.length l.maxSize.bytes := by
    rw [hmaxSize]
    exact Nat.le_max_right _ _
  have hne : l.path ≠ [] := hpath ▸ hsole.path
  have hmod : t.sole.world.idx % kFlushInteval < kFlushInteval := Nat.mod_lt _ (by decide)
  cases h with
  | act hstep =>
    rw [← hmaxSize] at hdurable
    obtain ⟨m, hm, hm', hdurable'⟩ := durable_step hsole hstep hn hdurable
    rw [hmaxSize] at hdurable'
    obtain ⟨hpath', hmaxSize'⟩ := soleStep_settings hsole.path hstep
    refine ⟨⟨start, soleStep_inv hsole hstep⟩, hpath'.trans hpath, hmaxSize'.trans hmaxSize,
      ⟨rests, m, hrests, hm', ?_, ?_⟩,
      soleStep_backup_le hsole hstep hback hlimit⟩
    · rw [List.length_append]
      omega
    · rw [← List.append_assoc]
      exact hdurable'
  | @quit io hio =>
    have htape := finish_tape hio hsole
    have hroom : ((t.sole.tape pf).flush.put []).live.length ≤ l.maxSize.bytes := by
      rw [Tape.put_nil, Tape.live_flush, ← hmaxSize]
      exact hsole.live_le
    have hfinish : (t.sole.log.finish io t.sole.world).1.path = t.sole.log.path :=
      @acts_path pf True True True _ _ (finish_acts io)
    refine lives_next hne hout hlog (hfinish.trans hpath) hrests (hdurable.flush 0)
      (Nat.zero_le _) le_rfl List.nil_prefix
      hroom hback ?_
    rw [htape, Tape.put_nil]
    exact .refl _
  | kill =>
    have hroom : ((t.sole.tape pf).put []).live.length ≤ l.maxSize.bytes := by
      rw [Tape.put_nil, ← hmaxSize]
      exact hsole.live_le
    refine lives_next hne hout hlog hpath hrests hdurable hrecs ?_ List.nil_prefix hroom hback ?_
    · rw [List.length_nil]
      omega
    · rw [Tape.put_nil]
      exact .refl _
  | @die io m hio hshort =>
    obtain ⟨t₀, bs, ht₀, hbs, htorn⟩ := append5_dies hsole.path hsole.outputs hsole.sound hio
    have hdurable₀ : t₀.Durable True (l.maxSize.bytes / 2) n (b :: c :: pieces rests ++ t.recs) := by
      rcases ht₀ with ⟨rfl, -⟩ | rfl
      · exact hdurable
      · rw [← hmaxSize] at hdurable ⊢
        exact durable_open hsole hdurable
    have hback₀ : t₀.backup.length ≤ max b.length l.maxSize.bytes := by
      rcases ht₀ with ⟨rfl, -⟩ | rfl
      · exact hback
      · exact tapeOpen_backup_le hback hlimit
    have hroom := dies_room hsole ht₀ hbs hshort
    rw [hmaxSize] at hroom htorn
    have hpath' : (t.sole.log.append5 pf io m t.sole.world).2.1.path = l.path :=
      (acts_path (append5_acts io m)).trans hpath
    refine lives_next hne hout hlog hpath' hrests hdurable₀ hrecs ?_ hbs hroom hback₀ htorn
    have hone := Option.length_toList_le (o := (t.sole.log.append5 pf io m t.sole.world).1.entry.map Entry.line)
    omega

end

/-- At the start nothing has been emitted. -/
theorem livesInv_start {pf : Platform} {l : Logger} {w : World} (hpath : l.path ≠ []) (hout : l.outputs = .file)
    (hlog : l.log = none) (hidx : w.idx < 2 ^ 64) (hsize : (w.content (l.name pf)).length ≤ l.maxSize.bytes) :
    LivesInv pf l (w.content (l.name1 pf)) (w.content (l.name pf)) ⟨⟨l, w, []⟩, [], []⟩ := by
  obtain ⟨hsole, htape⟩ := soleInv_start hpath hout hlog hidx hsize
  have h : (l.tape pf w).Durable True (l.maxSize.bytes / 2) 0 _ := .start 0 (congrArg Tape.buf htape)
  rw [htape, Tape.live, List.append_nil] at h
  refine ⟨⟨_, hsole⟩, rfl, rfl, ⟨[], 0, .nil, Nat.zero_le _, Nat.zero_le _, ?_⟩, Nat.le_max_left _ _⟩
  show (l.tape pf w).Durable True _ 0 _
  rw [htape]
  exact h

/-- What the files hold of the pieces. -/
theorem livesInv_left {pf : Platform} {l : Logger} {b c : Str} {t : Lives} (ht : LivesInv pf l b c t) :
    ∃ rests, List.Forall₂ Ended.Survives t.past rests ∧ ∃ front back late part,
      front ++ back ++ late <:+ b :: c :: pieces rests ++ t.recs ∧ late <:+ t.recs ∧ late.length ≤ 2 ∧
      part <+: late.flatten ∧ t.sole.world.content (l.name pf) = back.flatten ++ part ∧
      (t.sole.world.content (l.name1 pf) = front.flatten ∧
          (front ++ back ++ late = b :: c :: pieces rests ++ t.recs ∨
            l.maxSize.bytes / 2 < (t.sole.world.content (l.name1 pf)).length) ∨
        front = [] ∧ t.sole.world.content (l.name1 pf) <+: t.sole.world.content (l.name pf) ∧
          l.maxSize.bytes / 2 < (t.sole.world.content (l.name pf)).length) := by
  obtain ⟨-, hpath', -, ⟨rests, n, hrests, hn, hrecs, hdurable⟩, -⟩ := ht
  have hmod : t.sole.world.idx % kFlushInteval ≤ 2 := Nat.le_of_lt_succ (Nat.mod_lt _ (by decide))
  obtain ⟨front, back, late, part, hsuffix, hlate, hpart, hsaved, hdisk⟩ := hdurable.crash
  have hname : t.sole.log.name pf = l.name pf := by rw [Logger.name, Logger.name, hpath']
  have hname1 : t.sole.log.name1 pf = l.name1 pf := by rw [Logger.name1, Logger.name1, hpath']
  refine ⟨rests, hrests, front, back, late, part, hsuffix, ?_, hlate.trans (hn.trans hmod), hpart, ?_, ?_⟩
  · exact List.suffix_of_suffix_length_le ((List.suffix_append _ _).trans hsuffix) (List.suffix_append _ _)
      (hlate.trans hrecs)
  · rw [← hname]
    exact hdisk
  · rw [← hname, ← hname1]
    exact hsaved.imp_right fun h => h.2

/-- **However often the process ends and is started again**, killed or not, also in the middle of an append: of every
process all records are left when it ends but the newest, none if it was not killed, two if it was killed between
appends and three if it was killed in one; of the oldest of those a part. Of these pieces the log holds the newest,
and the backup those right before them: all there are, or more than half of `maxSize` of them in the backup; unless
the backup is a copy of the log or of its beginning, and then the log is longer than that. -/
theorem lives_durable {pf : Platform} {l : Logger} {w : World} (hpath : l.path ≠ []) (hout : l.outputs = .file)
    (hlog : l.log = none) (hidx : w.idx < 2 ^ 64) (hsize : (w.content (l.name pf)).length ≤ l.maxSize.bytes)
    {as : List LivesAct} {t : Lives} (hrun : Run (LivesStep pf l) ⟨⟨l, w, []⟩, [], []⟩ as t) :
    ∃ rests, List.Forall₂ Ended.Survives t.past rests ∧ ∃ front back late part,
      front ++ back ++ late <:+ w.content (l.name1 pf) :: w.content (l.name pf) :: pieces rests ++ t.recs ∧
      late <:+ t.recs ∧ late.length ≤ 2 ∧ part <+: late.flatten ∧
      t.sole.world.content (l.name pf) = back.flatten ++ part ∧
      (t.sole.world.content (l.name1 pf) = front.flatten ∧
          (front ++ back ++ late = w.content (l.name1 pf) :: w.content (l.name pf) :: pieces rests ++ t.recs ∨
            l.maxSize.bytes / 2 < (t.sole.world.content (l.name1 pf)).length) ∨
        front = [] ∧ t.sole.world.content (l.name1 pf) <+: t.sole.world.content (l.name pf) ∧
          l.maxSize.bytes / 2 < (t.sole.world.content (l.name pf)).length) :=
  livesInv_left (hrun.inv _ (livesInv_start hpath hout hlog hidx hsize) fun _ _ _ => livesStep_inv hout hlog)

/-- **What it takes of the disk**: the log at most `maxSize`, the backup too, unless it was larger at the start. -/
theorem lives_bounded {pf : Platform} {l : Logger} {w : World} (hpath : l.path ≠ []) (hout : l.outputs = .file)
    (hlog : l.log = none) (hidx : w.idx < 2 ^ 64) (hsize : (w.content (l.name pf)).length ≤ l.maxSize.bytes)
    {as : List LivesAct} {t : Lives} (hrun : Run (LivesStep pf l) ⟨⟨l, w, []⟩, [], []⟩ as t) :
    (t.sole.world.content (l.name pf)).length ≤ l.maxSize.bytes ∧
      (t.sole.world.content (l.name1 pf)).length ≤ max (w.content (l.name1 pf)).length l.maxSize.bytes := by
  obtain ⟨⟨start, hsole⟩, hpath', hmaxSize, -, hback⟩ :=
    hrun.inv _ (livesInv_start hpath hout hlog hidx hsize) fun _ _ _ => livesStep_inv hout hlog
  have hlive := hsole.live_le
  rw [hmaxSize, Sole.tape, Tape.live, List.length_append] at hlive
  have hname : l.name pf = t.sole.log.name pf := by rw [Logger.name, Logger.name, hpath']
  have hname1 : t.sole.world.content (l.name1 pf) = (t.sole.tape pf).backup := by
    rw [Logger.name1, ← hpath']
    rfl
  constructor
  · rw [hname]
    exact (Nat.le_add_right _ _).trans hlive
  · rw [hname1]
    exact hback

/-- The process is killed when stdio has written three bytes of its record. -/
def AppendIO.torn : AppendIO :=
  { AppendIO.ok with
    line := ⟨3, 3⟩, newline := ⟨0, 0⟩, shrink := { ShrinkIO.ok with fopen1 := some EIO, fopen2 := some EIO } }

theorem torn_entry :
    (freshA.append5 plain .torn hello (oneFile [])).1.entry = some ⟨some 1, .note, str "1[time Note(3)] hello"⟩ := by
  decide

/-- The process after it. -/
def tornLives : Lives :=
  (⟨⟨freshA, oneFile [], []⟩, [], []⟩ : Lives).next freshA (freshA.append5 plain .torn hello (oneFile [])).2.2
    ((freshA.append5 plain .torn hello (oneFile [])).1.entry.map Entry.line).toList kFlushInteval

example : tornLives.sole.world.content (freshA.name plain) = str "1[t" := by decide

theorem torn_step : LivesStep plain freshA ⟨⟨freshA, oneFile [], []⟩, [], []⟩ (.die .torn hello) tornLives := by
  have hkilled : AppendIO.torn.shrink.Killed := ⟨fun _ _ h => absurd (Sys.ok.inj h) (by decide), by decide, by decide⟩
  have hdies : AppendIO.torn.Dies plain hello freshA (oneFile []) :=
    ⟨.inl ShrinkIO.ok_ok, fun h => absurd h (by decide), hkilled⟩
  refine .die hdies ?_
  show ∀ e ∈ (freshA.append5 plain .torn hello (oneFile [])).1.entry, _
  rw [torn_entry]
  rintro e ⟨⟩
  decide

theorem lives_durable_torn : ∃ rests, List.Forall₂ Ended.Survives tornLives.past rests ∧ ∃ front back late part,
    front ++ back ++ late <:+ (oneFile []).content (freshA.name1 plain) :: (oneFile []).content (freshA.name plain) ::
      pieces rests ++ tornLives.recs ∧
    late <:+ tornLives.recs ∧ late.length ≤ 2 ∧ part <+: late.flatten ∧
    tornLives.sole.world.content (freshA.name plain) = back.flatten ++ part ∧
    (tornLives.sole.world.content (freshA.name1 plain) = front.flatten ∧
        (front ++ back ++ late = (oneFile []).content (freshA.name1 plain) :: (oneFile []).content (freshA.name plain) ::
            pieces rests ++ tornLives.recs ∨
          freshA.maxSize.bytes / 2 < (tornLives.sole.world.content (freshA.name1 plain)).length) ∨
      front = [] ∧
        tornLives.sole.world.content (freshA.name1 plain) <+: tornLives.sole.world.content (freshA.name plain) ∧
        freshA.maxSize.bytes / 2 < (tornLives.sole.world.content (freshA.name plain)).length) :=
  lives_durable (by decide) rfl rfl (by decide) (by decide) (.single torn_step)

theorem lives_bounded_torn : (tornLives.sole.world.content (freshA.name plain)).length ≤ freshA.maxSize.bytes ∧
    (tornLives.sole.world.content (freshA.name1 plain)).length ≤
      max ((oneFile []).content (freshA.name1 plain)).length freshA.maxSize.bytes :=
  lives_bounded (by decide) rfl rfl (by decide) (by decide) (.single torn_step)

end CtiLog
