import CtiLog.Copy
import Mathlib.Logic.Relation
/-
# What an operation of a logger is made of

Every operation is a sequence of acts on the logger and the `World`, each of one kind: a change of
settings, one stdio call on the open stream, `MkDirs`, an `fopen` of the log, `++kLogIdx`, a copy
to `path + ".1"`. What each act keeps, every operation keeps; the modules on handles and on frames
look at the acts only.

`Act pf twice counts sets`: with `twice` the second `fclose` of the same stream (log.cpp:638) is an act too.

* `reset_acts`, `finish_acts`, `shrinkToFit_acts`, `append5_acts`, `append2_acts`, `construct_acts`.
* `Enters` — the ways an append gets to the record it writes, or does not.
-/

namespace CtiLog

open Relation

inductive Act (pf : Platform) (twice counts sets : Prop) : Logger × World → Logger × World → Prop
  | config {l l' : Logger} {w : World} : sets → l'.path = l.path → l'.log = l.log → Act pf twice counts sets (l, w) (l', w)
  | fflush {l : Logger} {w : World} {s : Stream} (o : Flush) : l.log = some s →
      Act pf twice counts sets (l, w) ({ l with log := some (s.fflush o w).1 }, (s.fflush o w).2)
  | fwrite {l : Logger} {w : World} {s : Stream} (bs : Str) (o : Fwrite) : l.log = some s →
      Act pf twice counts sets (l, w) ({ l with log := some (s.fwrite bs o w).2.1 }, (s.fwrite bs o w).2.2)
  | fclose {l : Logger} {w : World} {s : Stream} (o : Flush) : l.log = some s →
      Act pf twice counts sets (l, w) ({ l with log := none }, s.fclose o w)
  | again {l : Logger} {w : World} (file : Nat) : twice → l.log = none →
      Act pf twice counts sets (l, w) (l, w.call (.fclose file))
  | mkdirs {l : Logger} {w : World} (io : Nat → DirIO) : Act pf twice counts sets (l, w) (l, (mkDirs pf (dirname l.path) io w).2)
  | fopen {l : Logger} {w w' : World} {s : Stream} (mode : Mode) (fail : Option Nat) : l.path ≠ [] → l.log = none →
      w.fopen (l.name pf) mode fail = (some s, w') → Act pf twice counts sets (l, w) ({ l with log := some s }, w')
  | count {l : Logger} {w : World} : counts → Act pf twice counts sets (l, w) (l, w.countRecord)
  | copy {l : Logger} {w w' : World} : OnlyTmp (l.name1 pf) w w' → Act pf twice counts sets (l, w) (l, w')

/-- A sequence of acts. -/
abbrev Acts (pf : Platform) (twice counts sets : Prop) : Logger × World → Logger × World → Prop :=
  ReflTransGen (Act pf twice counts sets)

section
variable {pf : Platform} {twice counts sets : Prop} {l l' : Logger} {w w' : World} {s : Stream}

theorem Act.acts {a b : Logger × World} (h : Act pf twice counts sets a b) : Acts pf twice counts sets a b := .single h

/-- A run that needs no second `fclose` is a run in which it may happen. -/
theorem Acts.mono {twice' : Prop} (h : twice → twice') {a b : Logger × World} (hab : Acts pf twice counts sets a b) :
    Acts pf twice' counts sets a b := by
  induction hab with
  | refl => exact .refl
  | tail _ hst ih =>
    apply ih.tail
    cases hst with
    | config hs hp hl => exact .config hs hp hl
    | fflush o hs => exact .fflush o hs
    | fwrite bs o hs => exact .fwrite bs o hs
    | fclose o hs => exact .fclose o hs
    | again f ht hl => exact .again f (h ht) hl
    | mkdirs io => exact .mkdirs io
    | fopen m fl hp hl hf => exact .fopen m fl hp hl hf
    | count hc => exact .count hc
    | copy hc => exact .copy hc

/-- What every act keeps, a sequence of acts keeps. -/
theorem Acts.inv (P : Logger × World → Prop) (hact : ∀ a b, Act pf twice counts sets a b → P a → P b)
    {a b : Logger × World}
    (h : Acts pf twice counts sets a b) (h0 : P a) : P b := by
  induction h with
  | refl => exact h0
  | tail _ hst ih => exact hact _ _ hst ih

theorem fopen_none {n : Name} {mode : Mode} {fail : Option Nat} (h : w.fopen n mode fail = (none, w')) : w' = w := by
  unfold World.fopen at h
  split at h
  · cases h; rfl
  · dsimp only at h
    split at h
    · cases h; rfl
    · cases h
    · cases h

/-- What a successful `fopen` does. -/
theorem fopen_some {n : Name} {mode : Mode} {fail : Option Nat} (h : w.fopen n mode fail = (some s, w')) :
    s.file = w.files ∧ s.name = n ∧ s.buf = [] ∧ (w'.fs n).node = some (.regular s.gen) ∧
      w'.calls = w.calls ++ [.fopen w.files n mode] ∧ w'.files = w.files + 1 ∧ w'.idx = w.idx ∧
      ∀ m, m ≠ n → w'.fs m = w.fs m := by
  unfold World.fopen at h
  split at h
  · cases h
  · dsimp only at h
    split at h
    · cases h
    · rename_i g hg
      cases h
      refine ⟨rfl, rfl, rfl, ?_, rfl, rfl, rfl, fun m hm => w.setCell_other _ hm⟩
      cases mode <;> simp [hg]
    · cases h
      exact ⟨rfl, rfl, rfl, by simp, rfl, rfl, rfl, fun m hm => w.setCell_other _ hm⟩

/-! ## The operations -/

theorem closeLog_acts (io : FinishIO) : Acts pf twice counts sets (l, w) (l.closeLog io w) := by
  unfold Logger.closeLog
  split
  · exact .refl
  · rename_i s hs
    exact (Act.fflush io.flush hs).acts.tail (.fclose io.close rfl)

theorem closeLog_log (io : FinishIO) : (l.closeLog io w).1.log = none := by
  unfold Logger.closeLog
  split
  · assumption
  · rfl

theorem closeLog_path (io : FinishIO) : (l.closeLog io w).1.path = l.path := by
  unfold Logger.closeLog
  split <;> rfl

theorem finish_acts (io : FinishIO) : Acts pf twice counts sets (l, w) (l.finish io w) := by
  unfold Logger.finish
  split
  · exact .refl
  · exact closeLog_acts io

theorem reset_acts (trunc : Bool) (io : ResetIO) : Acts pf twice counts sets (l, w) (l.reset pf trunc io w).2 := by
  unfold Logger.reset
  split
  · exact .refl
  · rename_i hne
    split
    · exact finish_acts io.finish
    · have hclose : Acts pf twice counts sets (l, w) (l.closeLog io.finish w) := closeLog_acts io.finish
      have hlog : (l.closeLog io.finish w).1.log = none := closeLog_log io.finish
      have hpath : (l.closeLog io.finish w).1.path = l.path := closeLog_path io.finish
      generalize l.closeLog io.finish w = r at *
      obtain ⟨l₁, w₁⟩ := r
      dsimp only at hlog hpath ⊢
      rw [← hpath] at hne
      have hdirs := hclose.tail (.mkdirs io.mkdirs)
      split
      · rename_i s w₂ ho
        exact hdirs.tail (.fopen _ _ hne hlog ho)
      · rename_i w₂ ho
        obtain rfl := fopen_none ho
        exact hdirs

/-- `reset` of a logger whose stream is closed comes down to the `fopen`. -/
theorem reset_closed (trunc : Bool) (io : ResetIO) (hpath : l.path ≠ []) (hout : l.outputs.testFlag .file = true)
    (hlog : l.log = none) :
    l.reset pf trunc io w =
      match (mkDirs pf (dirname l.path) io.mkdirs w).2.fopen (l.name pf) (if trunc then .wb else .ab) io.fopen with
      | (some s, w) => (0, { l with log := some s }, w)
      | (none, w) =>
        let e := io.fopen.getD EISDIR
        (-(if e = 0 then EACCES else e : Nat), l, w) := by
  have hclose : l.closeLog io.finish w = (l, w) := by
    unfold Logger.closeLog
    rw [hlog]
  have hfile : ¬ (!l.outputs.testFlag .file) = true := by simp [hout]
  unfold Logger.reset
  rw [if_neg hpath, if_neg hfile]
  generalize l.closeLog io.finish w = closed at hclose ⊢
  subst hclose
  rfl

theorem replaceLog_acts (io : ShrinkIO) (hpath : l.path ≠ []) (hs : l.log = some s) :
    Acts pf (io.close.fail.isSome = true) counts sets (l, w) (l.replaceLog pf io s w) := by
  unfold Logger.replaceLog
  have hclose : Acts pf (io.close.fail.isSome = true) counts sets (l, w) ({ l with log := none },
      if io.close.fail.isSome then (s.fclose io.close w).call (.fclose s.file) else s.fclose io.close w) := by
    split
    · rename_i ht
      exact (Act.fclose io.close hs).acts.tail (.again s.file ht rfl)
    · exact (Act.fclose io.close hs).acts
  dsimp only
  split
  · rename_i s₁ w₁ ho
    exact hclose.tail (.fopen _ _ hpath rfl ho)
  · rename_i w₁ ho
    obtain rfl := fopen_none ho
    split
    · rename_i s₂ w₂ ho₂
      exact hclose.tail (.fopen _ _ hpath rfl ho₂)
    · rename_i w₂ ho₂
      obtain rfl := fopen_none ho₂
      exact hclose

theorem shrinkToFit_acts (io : ShrinkIO) :
    Acts pf (io.close.fail.isSome = true) counts sets (l, w) (l.shrinkToFit pf io w) := by
  unfold Logger.shrinkToFit
  split
  · exact .refl
  · rename_i hpath
    split
    · exact .refl
    · rename_i s hs
      dsimp only
      split
      · exact .refl
      · split
        · exact .refl
        · have hflush : Acts pf (io.close.fail.isSome = true) counts sets (l, w) _ := (Act.fflush io.flush hs).acts
          have hcopy := hflush.tail (.copy (copyLog_onlyTmp pf io _ _))
          split
          · exact hcopy.trans (replaceLog_acts io hpath rfl)
          · exact hcopy

/-- The gate takes the pending level. -/
theorem gate_takes (ll : LogLevel) (l : Logger) : (l.gate ll).2 = { l with spinOnceLogLevel := .unchange } := by
  unfold Logger.gate
  split
  · rfl
  · rename_i h
    rw [← not_not.1 h]

theorem gate_acts (ll : LogLevel) : Acts pf twice counts True (l, w) ((l.gate ll).2, w) := by
  have h : Act pf twice counts True (l, w) ({ l with spinOnceLogLevel := .unchange }, w) := .config trivial rfl rfl
  rw [gate_takes]
  exact h.acts

/-- Some `fclose` of a rotation inside an `append` failed. -/
def AppendIO.closeFailed (io : AppendIO) : Prop := io.fit.close.fail.isSome = true ∨ io.shrink.close.fail.isSome = true

theorem ensureLog_acts (reset0 : ResetIO) (fit : ShrinkIO) :
    Acts pf (fit.close.fail.isSome = true) counts sets (l, w) (l.ensureLog pf reset0 fit w).2 := by
  unfold Logger.ensureLog
  split
  · have hr : Acts pf (fit.close.fail.isSome = true) counts sets (l, w) (l.reset pf false reset0 w).2 :=
      reset_acts false reset0
    generalize l.reset pf false reset0 w = q at *
    obtain ⟨r, l₁, w₁⟩ := q
    dsimp only at hr ⊢
    split
    · exact hr
    · exact hr.trans (shrinkToFit_acts fit)
  · exact .refl

/-- The ways through what comes before the record is counted. -/
inductive Enters (pf : Platform) (io : AppendIO) (ll : LogLevel) (l : Logger) (w : World) :
    Except Int LogLevel × Logger × World → Prop
  | pathless : l.path = [] → Enters pf io ll l w (.error (-EPERM), l, w)
  | gated : l.path ≠ [] → (l.gate ll).1 = none →
      Enters pf io ll l w (.error 0, { l with spinOnceLogLevel := .unchange }, w)
  | silent {lvl : LogLevel} : l.path ≠ [] → (l.gate ll).1 = some lvl → l.outputs = .none →
      Enters pf io ll l w (.error ENODEV, { l with spinOnceLogLevel := .unchange }, w)
  | refused {lvl : LogLevel} {r : Int} {l' : Logger} {w' : World} : l.path ≠ [] → (l.gate ll).1 = some lvl →
      l.outputs ≠ .none →
      Logger.ensureLog pf io.reset0 io.fit { l with spinOnceLogLevel := .unchange } w = (some r, l', w') →
      Enters pf io ll l w (.error r, l', w')
  | entered {lvl : LogLevel} {l' : Logger} {w' : World} : l.path ≠ [] → (l.gate ll).1 = some lvl →
      l.outputs ≠ .none →
      Logger.ensureLog pf io.reset0 io.fit { l with spinOnceLogLevel := .unchange } w = (none, l', w') →
      Enters pf io ll l w (.ok lvl, l', w')

theorem enter_enters (pf : Platform) (io : AppendIO) (ll : LogLevel) (l : Logger) (w : World) :
    Enters pf io ll l w (l.enter pf io ll w) := by
  have htakes := gate_takes ll l
  cases hgate : l.gate ll with
  | mk v l₁ =>
    rw [hgate] at htakes
    obtain rfl : l₁ = _ := htakes
    have hv : (l.gate ll).1 = v := congrArg Prod.fst hgate
    unfold Logger.enter
    by_cases hpath : l.path = []
    · rw [if_pos hpath]
      exact .pathless hpath
    rw [if_neg hpath, hgate]
    cases v with
    | none => exact .gated hpath hv
    | some lvl =>
      dsimp only
      by_cases hnone : l.outputs = .none
      · rw [if_pos hnone]
        exact .silent hpath hv hnone
      rw [if_neg hnone]
      cases he : Logger.ensureLog pf io.reset0 io.fit { l with spinOnceLogLevel := .unchange } w with
      | mk r p =>
        cases r with
        | none => exact .entered hpath hv hnone he
        | some r => exact .refused hpath hv hnone he

theorem enter_acts (io : AppendIO) (ll : LogLevel) :
    Acts pf io.closeFailed counts True (l, w) (l.enter pf io ll w).2 := by
  have hgate : Acts pf io.closeFailed counts True (l, w) ((l.gate ll).2, w) := gate_acts ll
  rw [gate_takes] at hgate
  have hensure : Acts pf io.closeFailed counts True ({ l with spinOnceLogLevel := .unchange }, w) _ :=
    (ensureLog_acts io.reset0 io.fit).mono .inl
  have h := enter_enters pf io ll l w
  generalize l.enter pf io ll w = e at h
  cases h with
  | pathless => exact .refl
  | gated | silent => exact hgate
  | refused _ _ _ he | entered _ _ _ he =>
    rw [he] at hensure
    exact hgate.trans hensure

theorem flushDue_acts (o : Flush) (hs : l.log = some s) :
    Acts pf twice counts sets (l, w) ({ l with log := some (Logger.flushDue o s w).1 }, (Logger.flushDue o s w).2) := by
  unfold Logger.flushDue
  split
  · exact (Act.fflush o hs).acts
  · rw [← hs]

theorem putRecord_acts (io : AppendIO) (text : Str) (hs : l.log = some s) :
    Acts pf twice counts sets (l, w)
      ({ l with log := some (Logger.putRecord io text s w).2.1 }, (Logger.putRecord io text s w).2.2) := by
  have h : Acts pf twice counts sets (l, w) _ := (Act.fwrite text io.line hs).acts
  have h' := h.tail (.fwrite [10] io.newline rfl)
  exact h'.trans (flushDue_acts io.flush rfl)

theorem writeRecord_acts (io : AppendIO) (m : Msg) (lvl : LogLevel) :
    Acts pf twice counts sets (l, w) (l.writeRecord io m lvl w).2 := by
  unfold Logger.writeRecord
  dsimp only
  split
  · split
    · exact .refl
    · rename_i s hs
      exact putRecord_acts io _ hs
  · exact .refl

theorem settle_acts (io : AppendIO) (ret : Int) : Acts pf io.closeFailed counts sets (l, w) (l.settle pf io ret w) := by
  unfold Logger.settle
  split
  · exact reset_acts false io.reset1
  · split
    · exact (shrinkToFit_acts io.shrink).mono .inr
    · exact .refl

theorem append5_acts (io : AppendIO) (m : Msg) : Acts pf io.closeFailed True True (l, w) (l.append5 pf io m w).2 := by
  unfold Logger.append5
  have he : Acts pf io.closeFailed True True (l, w) (l.enter pf io m.logLevel w).2 := enter_acts io m.logLevel
  generalize l.enter pf io m.logLevel w = r at *
  obtain ⟨r, l₁, w₁⟩ := r
  cases r with
  | error r => exact he
  | ok lvl =>
    have hw : Acts pf io.closeFailed True True (l₁, w₁.countRecord) (l₁.writeRecord io m lvl w₁.countRecord).2 :=
      writeRecord_acts io m lvl
    dsimp only at he ⊢
    exact (he.tail (.count trivial)).trans (hw.trans (settle_acts io _))

theorem append2_acts (io : Logger.Append2IO) (msg : Str) (ll : LogLevel) :
    Acts pf twice counts True (l, w) (l.append2 io msg ll w).2 := by
  unfold Logger.append2
  split
  · exact .refl
  · have hg : Acts pf twice counts True (l, w) ((l.gate ll).2, w) := gate_acts ll
    generalize l.gate ll = r at *
    obtain ⟨o, l₁⟩ := r
    cases o with
    | none => exact hg
    | some lvl =>
      dsimp only at hg ⊢
      split
      · exact hg
      · split
        · exact hg
        · split
          · split
            · exact hg
            · rename_i s hs
              have hw := hg.tail (.fwrite msg io.write hs)
              have hf := hw.trans (flushDue_acts io.flush rfl)
              split
              · exact hf
              · exact hf
          · exact hg

theorem setMaxSize_settings (n : BitVec 32) (l : Logger) : ∃ m, l.setMaxSize n = { l with maxSize := m } := by
  unfold Logger.setMaxSize
  split
  · split
    · exact ⟨_, rfl⟩
    · exact ⟨_, rfl⟩
  · exact ⟨l.maxSize, rfl⟩

theorem construct_acts (io : Logger.CtorIO) (path : Str) (o : Outputs) (maxSize : BitVec 32) (trunc : Bool) :
    Acts pf (io.fit.close.fail.isSome = true) counts True (Logger.new path, w)
      (Logger.construct pf io path o maxSize trunc w) := by
  obtain ⟨m, hm⟩ := setMaxSize_settings maxSize (Logger.new path)
  unfold Logger.construct
  rw [hm]
  have hset : Act pf (io.fit.close.fail.isSome = true) counts True (Logger.new path, w)
      ({ Logger.new path with maxSize := m }, w) := .config trivial rfl rfl
  generalize ({ Logger.new path with maxSize := m } : Logger) = l at *
  have hopen : Acts pf (io.fit.close.fail.isSome = true) counts True (l, w)
      (if (decide (path ≠ []) && o.testFlag .file) = true then
        if 0 ≤ (l.reset pf trunc io.reset w).1 then
          (l.reset pf trunc io.reset w).2.1.shrinkToFit pf io.fit (l.reset pf trunc io.reset w).2.2
        else ((l.reset pf trunc io.reset w).2.1, (l.reset pf trunc io.reset w).2.2)
      else (l, w)) := by
    split
    · have hr : Acts pf (io.fit.close.fail.isSome = true) counts True (l, w) (l.reset pf trunc io.reset w).2 :=
        reset_acts trunc io.reset
      split
      · exact hr.trans (shrinkToFit_acts io.fit)
      · exact hr
    · exact .refl
  dsimp only
  generalize (if (decide (path ≠ []) && o.testFlag .file) = true then
      if 0 ≤ (l.reset pf trunc io.reset w).1 then
        (l.reset pf trunc io.reset w).2.1.shrinkToFit pf io.fit (l.reset pf trunc io.reset w).2.2
      else ((l.reset pf trunc io.reset w).2.1, (l.reset pf trunc io.reset w).2.2)
    else (l, w)) = r at *
  apply (hset.acts.trans hopen).tail
  split
  · exact .config trivial rfl rfl
  · exact .config trivial rfl rfl

end

/-! ## Operations as data -/

/-- An operation on a logger, with its outcomes. -/
inductive Op where
  | setLogLevel (ll : LogLevel)
  | toggleLogLevel
  | setMaxSize (maxSize : BitVec 32)
  | setOutputs (o : Outputs)
  | reset (trunc : Bool) (io : ResetIO)
  | append5 (io : AppendIO) (m : Msg)
  | append2 (io : Logger.Append2IO) (msg : Str) (ll : LogLevel)
  | shrinkToFit (io : ShrinkIO)
  | finish (io : FinishIO)

def Op.run (pf : Platform) (l : Logger) (w : World) : Op → Logger × World
  | .setLogLevel ll => (l.setLogLevel ll, w)
  | .toggleLogLevel => (l.toggleLogLevel, w)
  | .setMaxSize n => (l.setMaxSize n, w)
  | .setOutputs o => (l.setOutputs o, w)
  | .reset trunc io => (l.reset pf trunc io w).2
  | .append5 io m => (l.append5 pf io m w).2
  | .append2 io msg ll => (l.append2 io msg ll w).2
  | .shrinkToFit io => l.shrinkToFit pf io w
  | .finish io => l.finish io w

/-- The first `fclose` of a rotation in it reports failure. -/
def Op.closeFailed : Op → Prop
  | .append5 io _ => io.closeFailed
  | .shrinkToFit io => io.close.fail.isSome = true
  | _ => False

/-- **Every operation is a sequence of acts.** -/
theorem op_acts (pf : Platform) (op : Op) (l : Logger) (w : World) :
    Acts pf op.closeFailed True True (l, w) (op.run pf l w) := by
  cases op with
  | setLogLevel ll =>
    have h : Act pf False True True (l, w) (l.setLogLevel ll, w) := by
      unfold Logger.setLogLevel
      split <;> exact .config trivial rfl rfl
    exact h.acts
  | toggleLogLevel =>
    have h : Act pf False True True (l, w) (l.toggleLogLevel, w) := .config trivial rfl rfl
    exact h.acts
  | setMaxSize n =>
    obtain ⟨m, hm⟩ := setMaxSize_settings n l
    have h : Act pf False True True (l, w) (l.setMaxSize n, w) := .config trivial (by rw [hm]) (by rw [hm])
    exact h.acts
  | setOutputs o =>
    have h : Act pf False True True (l, w) (l.setOutputs o, w) := .config trivial rfl rfl
    exact h.acts
  | reset trunc io => exact reset_acts trunc io
  | append5 io m => exact append5_acts io m
  | append2 io msg ll => exact append2_acts io msg ll
  | shrinkToFit io => exact shrinkToFit_acts io
  | finish io => exact finish_acts io

end CtiLog
