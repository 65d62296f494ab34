import CtiLog.Journal
import CtiLog.Macros
/-
# Levels without a name

Any `LogLevel` can be asked for, casts included (`GetNextLogLevel`, log.hpp:357), of `append` and of `getLogger`. None
without a name is ever written: `setLogLevel` and `toggleLogLevel` keep the level of a logger among the names, and
every record passes a gate. So the `default` of `logLevelToString` (log.cpp:673) and of the console's `switch` (:290)
is not for records.

Threads pass a gate and come to their section later, when the level of the logger may be another one.

| here | there |
| --- | --- |
| `LogLevel.logf` | `LOGFFATA` … `LOGFALL` and the `switch` over them (log.cpp:262-300, and without the newline :367-405) |
-/

namespace CtiLog

open Runs

inductive ConsoleStream where
  | stdout
  | stderr
deriving DecidableEq

/-- A macro: its stream, and what it puts around `%s`. -/
structure Logf where
  stream : ConsoleStream
  before : Str
  after : Str

/-- `\033[…m%s\033[0m`. -/
def Logf.coloured (stream : ConsoleStream) (numbers : Str) : Logf := ⟨stream, 27 :: numbers, 27 :: str "[0m"⟩

namespace LogLevel

def logf (lvl : LogLevel) : Logf :=
  if lvl = fata then .coloured .stderr (str "[1;31;49m")
  else if lvl = erro then .coloured .stderr (str "[31;49m")
  else if lvl = warn then .coloured .stderr (str "[33;49m")
  else if lvl = note then .coloured .stdout (str "[1;30;49m")
  else if lvl = info then ⟨.stdout, [], []⟩
  else if lvl = trac then .coloured .stdout (str "[34;49m")
  else if lvl = debu then .coloured .stdout (str "[36;49m")
  else if lvl = deta then ⟨.stdout, [], []⟩
  else .coloured .stdout (str "[30;49m")

def named : List LogLevel := [fata, erro, warn, note, info, trac, debu, deta]

theorem mem_named {lvl : LogLevel} : lvl ∈ named ↔ lvl.val ≤ max.val := by
  constructor
  · intro h
    have hall : ∀ lvl ∈ named, lvl.val ≤ max.val := by decide
    exact hall lvl h
  · intro h
    obtain ⟨v⟩ := lvl
    have hv : v.toNat ≤ 7 := UInt32.le_iff_toNat_le.1 h
    have hof : v = UInt32.ofNat v.toNat := (UInt32.ofNat_toNat).symm
    rw [hof]
    generalize v.toNat = n at hv
    interval_cases n <;> decide

end LogLevel

/-- The level of the record in a section. -/
def LogAct.level : LogAct → Option LogLevel
  | .writeRecord _ _ _ lvl => some lvl
  | .writeText _ _ _ lvl => some lvl
  | _ => none

/-- The loggers, the levels that gates have let through, and those of the records so far. -/
structure Leveled (ι : Type*) where
  journal : Journal ι
  passed : List LogLevel
  written : List LogLevel

inductive LevelAct (ι : Type*) where
  | config (i : ι) (c : Config)
  | spin (i : ι) (ll : LogLevel)
  | gate (i : ι) (ll : LogLevel)
  | piece (i : ι) (a : LogAct)

variable {ι : Type*} [DecidableEq ι]

namespace Leveled

def start (log : ι → Logger) (w : World) : Leveled ι := ⟨.start log w, [], []⟩

def setLog (i : ι) (l : Logger) (t : Leveled ι) : Leveled ι :=
  { t with journal := { t.journal with log := Function.update t.journal.log i l } }

def act (pf : Platform) (t : Leveled ι) : LevelAct ι → Leveled ι
  | .config i c => t.setLog i (c.set (t.journal.log i))
  | .spin i ll => t.setLog i { t.journal.log i with spinOnceLogLevel := ll }
  | .gate i ll =>
    let g := (t.journal.log i).gate ll
    { t.setLog i g.2 with passed := t.passed ++ g.1.toList }
  | .piece i a => { t with journal := t.journal.act pf i a, written := t.written ++ a.level.toList }

/-- A section is no setter, and comes after the gate of its record. -/
def Ok (t : Leveled ι) : LevelAct ι → Prop
  | .piece _ a => (∀ f, a ≠ .set f) ∧ ∀ lvl ∈ a.level, lvl ∈ t.passed
  | _ => True

end Leveled

def LevelStep (pf : Platform) (t : Leveled ι) (a : LevelAct ι) (u : Leveled ι) : Prop := u = t.act pf a

/-! ## What keeps the level of a logger -/

section
variable {pf : Platform} {l : Logger} {w : World}

theorem setLogLevel_named (ll : LogLevel) (h : l.logLevel ∈ LogLevel.named) :
    (l.setLogLevel ll).logLevel ∈ LogLevel.named := by
  unfold Logger.setLogLevel
  split
  · rename_i hll
    exact LogLevel.mem_named.2 hll.2
  · exact h

/-- The next one, and behind the last the first. -/
theorem toggleLogLevel_named : l.toggleLogLevel.logLevel ∈ LogLevel.named := by
  unfold Logger.toggleLogLevel
  dsimp only
  split
  · decide
  · rename_i hlv
    exact LogLevel.mem_named.2 (UInt32.not_lt.1 hlv)

theorem config_named (c : Config) (h : l.logLevel ∈ LogLevel.named) : (c.set l).logLevel ∈ LogLevel.named := by
  cases c with
  | setLogLevel ll => exact setLogLevel_named ll h
  | toggleLogLevel => exact toggleLogLevel_named
  | setMaxSize n =>
    obtain ⟨m, hm⟩ := setMaxSize_settings n l
    show (l.setMaxSize n).logLevel ∈ _
    rw [hm]
    exact h
  | _ => exact h

/-- What a gate lets through is no higher than the level of the logger. -/
theorem gate_named {ll : LogLevel} (h : l.logLevel ∈ LogLevel.named) : ∀ lvl ∈ (l.gate ll).1, lvl ∈ LogLevel.named := by
  have hlow : ∀ lvl : LogLevel, ¬ l.logLevel.val < lvl.val → lvl ∈ LogLevel.named :=
    fun lvl hlt => LogLevel.mem_named.2 (UInt32.le_trans (UInt32.not_lt.1 hlt) (LogLevel.mem_named.1 h))
  intro lvl hlvl
  unfold Logger.gate at hlvl
  split at hlvl
  · obtain ⟨hlt, hsome⟩ := Option.ite_none_left_eq_some.1 hlvl
    obtain rfl := Option.some.inj hsome
    exact hlow _ hlt
  · obtain ⟨hlt, hsome⟩ := Option.ite_none_left_eq_some.1 hlvl
    obtain rfl := Option.some.inj hsome
    exact hlow _ hlt

/-- Sections do not set levels. -/
theorem run_logLevel {a : LogAct} (h : ∀ f, a ≠ .set f) : (a.run pf l w).1.logLevel = l.logLevel := by
  have hkept : ∀ {twice : Prop} {l : Logger} {b : Logger × World}, Acts pf twice False False (l, w) b →
      b.1.logLevel = l.logLevel := by
    intro twice l b hacts
    obtain ⟨o, ho⟩ := acts_settings hacts
    rw [ho]
  cases a with
  | set f => exact absurd rfl (h f)
  | reset trunc io => exact @hkept False _ _ (reset_acts trunc io)
  | shrinkToFit io => exact hkept (shrinkToFit_acts io)
  | finish io => exact @hkept False _ _ (finish_acts io)
  | count => rfl
  | writeRecord o io m lvl => exact @hkept False (l.setOutputs o) (Logger.writeRecord io m lvl _ w).2 (writeRecord_acts io m lvl)
  | writeText o io msg lvl => exact @hkept False (l.setOutputs o) (Logger.writeText io msg lvl _ w).2 (writeText_acts io msg lvl)

end

/-! ## Runs -/

namespace Leveled

/-- Every level that can come to a record has a name. -/
structure Named (t : Leveled ι) : Prop where
  log : ∀ i, (t.journal.log i).logLevel ∈ LogLevel.named
  passed : ∀ lvl ∈ t.passed, lvl ∈ LogLevel.named
  written : ∀ lvl ∈ t.written, lvl ∈ LogLevel.named

variable {pf : Platform} {t : Leveled ι}

theorem Named.setLog (h : t.Named) (i : ι) {l : Logger} (hl : l.logLevel ∈ LogLevel.named) : (t.setLog i l).Named := by
  refine ⟨fun j => ?_, h.passed, h.written⟩
  by_cases hj : j = i
  · subst hj
    simpa [Leveled.setLog] using hl
  · simpa [Leveled.setLog, hj] using h.log j

/-- **Step lemma.** -/
theorem Named.act (h : t.Named) {a : LevelAct ι} (hok : t.Ok a) : (t.act pf a).Named := by
  cases a with
  | config i c => exact h.setLog i (config_named c (h.log i))
  | spin i ll => exact h.setLog i (h.log i)
  | gate i ll =>
    have hgate : ((t.journal.log i).gate ll).2.logLevel ∈ LogLevel.named := by
      rw [gate_takes]
      exact h.log i
    have hset := h.setLog i hgate
    refine ⟨hset.log, fun lvl hlvl => ?_, h.written⟩
    rcases List.mem_append.1 hlvl with hold | hnew
    · exact h.passed lvl hold
    · exact gate_named (h.log i) lvl (Option.mem_toList.1 hnew)
  | piece i a =>
    obtain ⟨hset, hpassed⟩ := hok
    refine ⟨fun j => ?_, h.passed, fun lvl hlvl => ?_⟩
    · by_cases hj : j = i
      · subst hj
        simpa [Leveled.act, Journal.act, run_logLevel hset] using h.log j
      · simpa [Leveled.act, Journal.act, hj] using h.log j
    · rcases List.mem_append.1 hlvl with hold | hnew
      · exact h.written lvl hold
      · exact h.passed lvl (hpassed lvl (Option.mem_toList.1 hnew))

end Leveled

/-- **Every record has a level with a name**, whatever levels are asked for and whenever the threads come to their
sections; so neither its text nor its colours are those of the `default`. -/
theorem records_named {pf : Platform} {log : ι → Logger} {w : World} (hlog : ∀ i, (log i).logLevel ∈ LogLevel.named)
    {as : List (LevelAct ι)} {t : Leveled ι} (hrun : Run (Guarded Leveled.Ok (LevelStep pf)) (.start log w) as t) :
    ∀ lvl ∈ t.written, lvl ∈ LogLevel.named ∧ ¬ str "(unknown)" <+: logLevelToString lvl ∧
      lvl.logf.before ≠ 27 :: str "[30;49m" := by
  have hnamed : t.Named := by
    refine hrun.inv Leveled.Named ⟨hlog, by simp [Leveled.start], by simp [Leveled.start]⟩ ?_
    rintro t a _ ht ⟨hok, rfl⟩
    exact ht.act hok
  have hall : ∀ lvl ∈ LogLevel.named, ¬ str "(unknown)" <+: logLevelToString lvl ∧
      lvl.logf.before ≠ 27 :: str "[30;49m" := by
    decide
  intro lvl hlvl
  exact ⟨hnamed.written lvl hlvl, hall lvl (hnamed.written lvl hlvl)⟩

/-- A level without a name is asked for, and then `hello` at its own. -/
theorem records_named_hello :
    let t := ((Leveled.start (fun _ : Unit => freshA) (oneFile [])).act plain (.gate () ⟨100⟩)).act plain (.gate () .note)
    let u := t.act plain (.piece () (.writeRecord .coutOrCerr .ok hello .note))
    ∀ lvl ∈ u.written, lvl ∈ LogLevel.named ∧ ¬ str "(unknown)" <+: logLevelToString lvl ∧
      lvl.logf.before ≠ 27 :: str "[30;49m" := by
  intro t u
  have hgates : Run (Guarded Leveled.Ok (LevelStep plain)) (.start (fun _ : Unit => freshA) (oneFile []))
      [.gate () ⟨100⟩, .gate () .note] t := .snoc (.single ⟨trivial, rfl⟩) ⟨trivial, rfl⟩
  have hpassed : LogLevel.note ∈ t.passed := by decide
  have hsection : t.Ok (.piece () (.writeRecord .coutOrCerr .ok hello .note)) :=
    ⟨by rintro f ⟨⟩, by rintro _ ⟨⟩; exact hpassed⟩
  exact records_named (fun _ => by decide) (hgates.snoc ⟨hsection, rfl⟩)

end CtiLog
