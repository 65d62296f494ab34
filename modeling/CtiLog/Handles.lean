import CtiLog.Append
import CtiLog.Runs
/-
# The `FILE*` of a logger

A `FILE*` is closed at most once and not used after that, in every run whose rotations get 0 from
their first `fclose` (`handles_ok`). When that `fclose` reports a failure the stream is closed all the
same, and log.cpp:638 passes it to `fclose` again (`second_fclose`).

* `WellUsed` — no call is handed a `FILE*` that an earlier `fclose` took.
* `Tidy` — the invariant: the only stream not closed is the logger's own.
-/

namespace CtiLog

open Runs

/-- The `FILE*` a call is handed. -/
def Call.stream : Call → Option Nat
  | .fwrite file | .fflush file | .fclose file => some file
  | .fopen _ _ _ | .write _ _ => none

/-- No call is handed a stream closed before. -/
def WellUsed (cs : List Call) : Prop := cs.Pairwise fun a b => ∀ file, a = .fclose file → b.stream ≠ some file

/-- Nothing is handed a closed stream, and of the streams opened only `open_` is not closed yet;
`n` streams were opened. -/
structure Tidy (cs : List Call) (open_ : Option Nat) (n : Nat) : Prop where
  used : WellUsed cs
  fresh : ∀ file, .fclose file ∈ cs → file < n
  isOpen : ∀ file ∈ open_, file < n ∧ .fclose file ∉ cs
  closed : ∀ file name mode, .fopen file name mode ∈ cs → file ∈ open_ ∨ .fclose file ∈ cs

section
variable {cs ds : List Call} {o : Option Nat} {n f : Nat}

theorem wellUsed_snoc {c : Call} (h : WellUsed cs) (hc : ∀ file, c.stream = some file → .fclose file ∉ cs) :
    WellUsed (cs ++ [c]) := by
  refine List.pairwise_append.2 ⟨h, List.pairwise_singleton _ _, ?_⟩
  rintro a ha b hb file rfl
  obtain rfl := List.mem_singleton.1 hb
  exact fun hs => hc file hs ha

/-- The open stream is used. -/
theorem Tidy.use {c : Call} (h : Tidy cs (some f) n) (hc : c.stream = some f) (hno : ∀ file, c ≠ .fclose file) :
    Tidy (cs ++ [c]) (some f) n := by
  have hmem : ∀ file, .fclose file ∈ cs ++ [c] → .fclose file ∈ cs := by
    intro file hm
    rcases List.mem_append.1 hm with hm | hm
    · exact hm
    · exact absurd (List.mem_singleton.1 hm).symm (hno file)
  refine ⟨wellUsed_snoc h.used ?_, fun file hm => h.fresh file (hmem file hm), ?_, ?_⟩
  · intro file hs
    rw [hc] at hs
    exact (h.isOpen file hs).2
  · intro file hf
    obtain ⟨hlt, hn⟩ := h.isOpen file hf
    exact ⟨hlt, fun hm => hn (hmem file hm)⟩
  · intro file name mode hm
    rcases List.mem_append.1 hm with hm | hm
    · exact (h.closed file name mode hm).imp id (List.mem_append_left _)
    · obtain rfl := List.mem_singleton.1 hm
      cases hc

/-- The open stream is closed. -/
theorem Tidy.close (h : Tidy cs (some f) n) : Tidy (cs ++ [.fclose f]) none n := by
  obtain ⟨hlt, hn⟩ := h.isOpen f rfl
  refine ⟨wellUsed_snoc h.used ?_, ?_, by simp, ?_⟩
  · intro file hs
    cases hs
    exact hn
  · intro file hm
    rcases List.mem_append.1 hm with hm | hm
    · exact h.fresh file hm
    · cases List.mem_singleton.1 hm
      exact hlt
  · intro file name mode hm
    rcases List.mem_append.1 hm with hm | hm
    · right
      rcases h.closed file name mode hm with ho | hc
      · cases ho
        simp
      · exact List.mem_append_left _ hc
    · cases List.mem_singleton.1 hm

/-- A stream is opened when none is open. -/
theorem Tidy.opened (h : Tidy cs none n) (name : Name) (mode : Mode) :
    Tidy (cs ++ [.fopen n name mode]) (some n) (n + 1) := by
  have hmem : ∀ file, .fclose file ∈ cs ++ [Call.fopen n name mode] → .fclose file ∈ cs := by
    intro file hm
    simpa using hm
  refine ⟨wellUsed_snoc h.used (fun file hs => by cases hs), ?_, ?_, ?_⟩
  · intro file hm
    have := h.fresh file (hmem file hm)
    omega
  · rintro file ⟨⟩
    refine ⟨by omega, fun hm => ?_⟩
    have := h.fresh n (hmem n hm)
    omega
  · intro file name' mode' hm
    rcases List.mem_append.1 hm with hm | hm
    · right
      rcases h.closed file name' mode' hm with ho | hc
      · cases ho
      · exact List.mem_append_left _ hc
    · left
      cases List.mem_singleton.1 hm
      rfl

/-- Calls on descriptors are no business of the streams. -/
theorem Tidy.writes (h : Tidy cs o n) (hds : ∀ c ∈ ds, ∃ name res, c = Call.write name res) : Tidy (cs ++ ds) o n := by
  have hmem : ∀ c, c ∈ cs ++ ds → (∀ name res, c ≠ .write name res) → c ∈ cs := by
    intro c hm hc
    rcases List.mem_append.1 hm with hm | hm
    · exact hm
    · obtain ⟨name, res, rfl⟩ := hds c hm
      exact absurd rfl (hc name res)
  have hclose : ∀ file, .fclose file ∈ cs ++ ds → .fclose file ∈ cs := fun file hm => hmem _ hm (by simp)
  refine ⟨?_, fun file hm => h.fresh file (hclose file hm), ?_, ?_⟩
  · refine List.pairwise_append.2 ⟨h.used, ?_, ?_⟩
    · refine List.Pairwise.imp_of_mem ?_ (List.pairwise_of_forall (R := fun _ _ => True) (fun _ _ => trivial))
      intro a b ha hb _ file rfl
      obtain ⟨name, res, hw⟩ := hds _ ha
      cases hw
    · intro a _ b hb file _
      obtain ⟨name, res, rfl⟩ := hds b hb
      simp [Call.stream]
  · intro file hf
    obtain ⟨hlt, hn⟩ := h.isOpen file hf
    exact ⟨hlt, fun hm => hn (hclose file hm)⟩
  · intro file name mode hm
    exact (h.closed file name mode (hmem _ hm (by simp))).imp id (List.mem_append_left _)

end

/-! ## Acts keep the streams tidy -/

/-- The streams of a logger are tidy. -/
def TidyLog (lw : Logger × World) : Prop := Tidy lw.2.calls (lw.1.log.map Stream.file) lw.2.files

/-- **Step lemma**: every act but the second `fclose`. -/
theorem act_tidy (pf : Platform) (a b : Logger × World) (h : Act pf False True True a b) (ha : TidyLog a) :
    TidyLog b := by
  unfold TidyLog at *
  cases h with
  | config _ _ hl =>
    dsimp only at ha ⊢
    rwa [hl]
  | fflush o hs =>
    rw [hs] at ha
    exact ha.use rfl (by simp)
  | fwrite bs o hs =>
    rw [hs] at ha
    exact ha.use rfl (by simp)
  | fclose o hs =>
    rw [hs] at ha
    exact ha.close
  | again _ h => exact h.elim
  | mkdirs io => simpa using ha
  | fopen mode fail _ hl ho =>
    rw [hl] at ha
    obtain ⟨hfile, -, -, -, hcalls, hfiles, -⟩ := fopen_some ho
    dsimp only at ha ⊢
    rw [hcalls, hfiles, Option.map_some, hfile]
    exact ha.opened _ _
  | count => exact ha
  | copy hc =>
    obtain ⟨ws, hws, hw⟩ := hc.calls
    dsimp only at ha ⊢
    rw [hws, hc.files]
    exact ha.writes fun c hm => ⟨_, hw c hm⟩

theorem acts_tidy {pf : Platform} {a b : Logger × World} (h : Acts pf False True True a b) (ha : TidyLog a) :
    TidyLog b :=
  h.inv TidyLog (act_tidy pf) ha

/-! ## The life of a logger -/

inductive Life where
  | unborn
  | alive (l : Logger)
  | gone

inductive LifeOp where
  | construct (path : Str) (outputs : Outputs) (maxSize : BitVec 32) (trunc : Bool) (io : Logger.CtorIO)
  | op (a : Op)
  | destroy (io : FinishIO)

/-- The first `fclose` of a rotation in it reports failure. -/
def LifeOp.closeFailed : LifeOp → Prop
  | .construct _ _ _ _ io => io.fit.close.fail.isSome = true
  | .op a => a.closeFailed
  | .destroy _ => False

/-- `Logger::Logger`, the operations, `~Logger`. -/
inductive LifeStep (pf : Platform) : Life × World → LifeOp → Life × World → Prop
  | construct {w : World} (path : Str) (outputs : Outputs) (maxSize : BitVec 32) (trunc : Bool) (io : Logger.CtorIO) :
      LifeStep pf (.unborn, w) (.construct path outputs maxSize trunc io)
        (.alive (Logger.construct pf io path outputs maxSize trunc w).1,
          (Logger.construct pf io path outputs maxSize trunc w).2)
  | op {l : Logger} {w : World} (a : Op) : LifeStep pf (.alive l, w) (.op a) (.alive (a.run pf l w).1, (a.run pf l w).2)
  | destroy {l : Logger} {w : World} (io : FinishIO) : LifeStep pf (.alive l, w) (.destroy io) (.gone, (l.finish io w).2)

/-- No stream is ever opened on the empty path. -/
def Pathless (lw : Logger × World) : Prop := lw.1.path = [] → lw.1.log = none

theorem act_pathless (pf : Platform) (a b : Logger × World) (h : Act pf False True True a b) (ha : Pathless a) :
    Pathless b := by
  unfold Pathless at *
  cases h with
  | config _ hp hl =>
    dsimp only at ha ⊢
    rwa [hp, hl]
  | fflush o hs => intro hp; rw [ha hp] at hs; cases hs
  | fwrite bs o hs => intro hp; rw [ha hp] at hs; cases hs
  | fclose o hs => exact fun _ => rfl
  | again _ h => exact h.elim
  | fopen mode fail hp => exact fun h => absurd h hp
  | mkdirs | count | copy => exact ha

theorem acts_pathless {pf : Platform} {a b : Logger × World} (h : Acts pf False True True a b) (ha : Pathless a) :
    Pathless b :=
  h.inv Pathless (act_pathless pf) ha

/-- Tidy at every age. -/
def TidyLife : Life × World → Prop
  | (.alive l, w) => TidyLog (l, w) ∧ Pathless (l, w)
  | (_, w) => Tidy w.calls none w.files

/-- **Step lemma**: what does not meet a failed `fclose` keeps a life tidy. -/
theorem lifeStep_tidy {pf : Platform} {t u : Life × World} {a : LifeOp} (hok : ¬ a.closeFailed) (h : LifeStep pf t a u)
    (ht : TidyLife t) : TidyLife u := by
  cases h with
  | @construct w path outputs maxSize trunc io =>
    have hacts : Acts pf False True True (Logger.new path, w) (Logger.construct pf io path outputs maxSize trunc w) :=
      (construct_acts io path outputs maxSize trunc).mono hok
    exact ⟨acts_tidy hacts ht, acts_pathless hacts fun _ => rfl⟩
  | @op l w a =>
    have hacts : Acts pf False True True (l, w) (a.run pf l w) := (op_acts pf a l w).mono hok
    exact ⟨acts_tidy hacts ht.1, acts_pathless hacts ht.2⟩
  | @destroy l w io =>
    have hacts : Acts pf False True True (l, w) (l.finish io w) := finish_acts io
    have htidy := acts_tidy hacts ht.1
    have hnone : (l.finish io w).1.log = none := by
      unfold Logger.finish
      split
      · rename_i hp
        exact ht.2 hp
      · exact closeLog_log io
    unfold TidyLog at htidy
    rw [hnone] at htidy
    exact htidy

/-- A stream closed is closed once. -/
theorem count_close {cs : List Call} (h : WellUsed cs) {file : Nat} (hm : .fclose file ∈ cs) :
    cs.count (.fclose file) = 1 := by
  induction cs with
  | nil => cases hm
  | cons c cs ih =>
    obtain ⟨hc, hcs⟩ := List.pairwise_cons.1 h
    by_cases he : c = .fclose file
    · subst he
      have hno : Call.fclose file ∉ cs := fun hm => hc _ hm file rfl rfl
      rw [List.count_cons_self, List.count_eq_zero_of_not_mem hno]
    · have hm' : Call.fclose file ∈ cs := (List.mem_cons.1 hm).resolve_left (Ne.symm he)
      rw [List.count_cons_of_ne he]
      exact ih hcs hm'

/-- No `FILE*` is used after it was closed, and a logger that is gone has closed every one of its
own exactly once. -/
structure HandlesOk (t : Life × World) : Prop where
  used : WellUsed t.2.calls
  closed : t.1 = .gone → ∀ file name mode, .fopen file name mode ∈ t.2.calls → t.2.calls.count (.fclose file) = 1

theorem tidyLife_ok {t : Life × World} (h : TidyLife t) : HandlesOk t := by
  obtain ⟨life, w⟩ := t
  cases life with
  | unborn => exact ⟨h.used, fun he => by cases he⟩
  | alive l => exact ⟨h.1.used, fun he => by cases he⟩
  | gone =>
    refine ⟨h.used, fun _ file name mode hm => count_close h.used ?_⟩
    exact (h.closed file name mode hm).resolve_left (by simp)

/-- **The `FILE*`s of a logger are used and closed as they should**, in every run in which no rotation's
first `fclose` reports a failure. -/
theorem handles_ok {pf : Platform} {w : World} (hw : w.calls = []) {as : List LifeOp} {t : Life × World}
    (hrun : Run (Guarded (fun _ a => ¬ a.closeFailed) (LifeStep pf)) (.unborn, w) as t) : HandlesOk t := by
  refine tidyLife_ok (hrun.inv TidyLife ?_ fun t a u ht hstep => lifeStep_tidy hstep.1 hstep.2 ht)
  show Tidy w.calls none w.files
  rw [hw]
  exact ⟨.nil, by simp, by simp, by simp⟩

/-! ## The second `fclose` -/

/-- log.cpp:638: `log_` is handed to `fclose` a second time. -/
theorem replaceLog_closes_twice {pf : Platform} {io : ShrinkIO} {s : Stream} (l : Logger) (w : World)
    (hfail : io.close.fail.isSome = true) :
    ∃ ds, (Logger.replaceLog pf io s l w).2.calls = w.calls ++ ([.fclose s.file, .fclose s.file] ++ ds) := by
  unfold Logger.replaceLog
  dsimp only
  rw [if_pos hfail]
  split
  · rename_i ho
    obtain ⟨-, -, -, -, hcalls, -⟩ := fopen_some ho
    exact ⟨[.fopen w.files (l.name pf) .wb], by rw [hcalls]; simp⟩
  · rename_i ho
    obtain rfl := fopen_none ho
    split
    · rename_i ho₂
      obtain ⟨-, -, -, -, hcalls, -⟩ := fopen_some ho₂
      exact ⟨[.fopen w.files (l.name pf) .wb], by rw [hcalls]; simp⟩
    · rename_i ho₂
      obtain rfl := fopen_none ho₂
      exact ⟨[], by simp⟩

/-- **A rotation whose first `fclose` reports a failure closes the stream again.** -/
theorem second_fclose {pf : Platform} {io : ShrinkIO} {l : Logger} {s : Stream} {w : World} (hs : l.log = some s)
    (hdue : Due pf io l w) (hb : Begun pf io l (s.fflush io.flush w).2)
    (hun : ¬ io.Unmapped (min l.maxSize.bytes ((s.fflush io.flush w).2.content (l.name pf)).length))
    (hfail : io.close.fail.isSome = true) : ¬ WellUsed (l.shrinkToFit pf io w).2.calls := by
  have hpre := fflush_content s io.flush w (l.name pf)
  have hnode := fflush_node s io.flush w (l.name pf)
  have hfile : (s.fflush io.flush w).1.file = s.file := rfl
  rw [shrinkToFit_due hs hdue]
  dsimp only
  generalize (s.fflush io.flush w).1 = s' at *
  generalize (s.fflush io.flush w).2 = w' at *
  obtain ⟨g, hg⟩ := hb.entry
  obtain ⟨d, -, -, hcop⟩ := @copyLog_begun pf io { l with log := some s' } w' hdue.1
    ⟨hb.1, hb.2, hb.3, hb.4, hb.5⟩ (due_pos hdue (hnode.symm.trans hg) hpre)
  generalize Logger.copyLog pf io { l with log := some s' } w' = r at *
  obtain ⟨c, w₁⟩ := r
  have hc : 0 ≤ c := by
    cases hcop with
    | unmapped h _ => exact absurd h hun
    | saved _ _ h _ _ => exact h
    | short _ _ h _ => exact h
  rw [if_pos hc]
  obtain ⟨ds, hds⟩ := @replaceLog_closes_twice pf io s' { l with log := some s' } w₁ hfail
  rw [hds]
  intro h
  have hpair := (List.pairwise_append.1 (List.pairwise_append.1 h).2.1).1
  exact (List.pairwise_cons.1 hpair).1 (.fclose s'.file) (by simp) s'.file rfl rfl

/-! ## A log of 5000 bytes whose first `fclose` fails -/

/-- The first `fclose` reports `EIO`. -/
def ShrinkIO.badClose : ShrinkIO := { ShrinkIO.ok with close := ⟨some EIO, 0⟩ }

/-- The logger is made and its log opened. -/
def openingA : List LifeOp := [.construct (str "a") .file 8192 false ⟨.ok, .ok⟩] ++ [.op (.reset false .ok)]

theorem run_openingA (bs : Str) :
    Run (Guarded (fun _ a => ¬ a.closeFailed) (LifeStep plain)) (.unborn, oneFile bs) openingA
      (.alive openedA, openedWorld bs) := by
  have hreset : LifeStep plain (.alive freshA, oneFile bs) (.op (.reset false .ok)) _ := .op (.reset false .ok)
  rw [Op.run, reset_freshA] at hreset
  refine .snoc (.single ⟨?_, .construct (str "a") .file 8192 false ⟨.ok, .ok⟩⟩) ⟨?_, hreset⟩
  · simp [LifeOp.closeFailed, ShrinkIO.ok, Flush.ok]
  · simp [LifeOp.closeFailed, Op.closeFailed]

theorem openedA_node (bs : Str) : ((openedWorld bs).fs (openedA.name plain)).node = some (.regular 0) := by
  have hname : openedA.name plain = [str "a"] := by decide
  simp [openedWorld, hname, oneFile, fileCell]

/-- A log of 5000 bytes is due. -/
theorem openedA_due {io : ShrinkIO} (hstat : io.stat = none) {bs : Str} (hlen : bs.length = 5000) :
    Due plain io openedA (openedWorld bs) := by
  have hname : openedA.name plain = [str "a"] := by decide
  have hsize : (openedWorld bs).content (openedA.name plain) = bs := by
    simp [openedWorld, hname, oneFile, fileCell, World.content, Cell.content]
  apply (due_iff (by decide) hstat (openedA_node bs)).2
  rw [hsize, hlen]
  decide

/-- The log is opened and rotated, and the logger destroyed. -/
theorem handles_ok_rotated :
    let bs := List.replicate 5000 (0 : UInt8)
    let r := openedA.shrinkToFit plain .ok (openedWorld bs)
    Due plain .ok openedA (openedWorld bs) ∧ HandlesOk (.gone, (r.1.finish .ok r.2).2) := by
  intro bs r
  have hrotated : Run (Guarded (fun _ a => ¬ a.closeFailed) (LifeStep plain)) (.unborn, oneFile bs)
      (openingA ++ [.op (.shrinkToFit .ok)]) (.alive r.1, r.2) := by
    refine (run_openingA bs).snoc ⟨?_, .op (.shrinkToFit .ok)⟩
    simp [LifeOp.closeFailed, Op.closeFailed, ShrinkIO.ok, Flush.ok]
  refine ⟨openedA_due rfl List.length_replicate,
    @handles_ok plain (oneFile bs) rfl _ _ (hrotated.snoc ⟨?_, .destroy .ok⟩)⟩
  simp [LifeOp.closeFailed]

/-- **A stream is closed twice**: a log of 5000 bytes, and an `fclose` that reports `EIO`. -/
theorem fclose_again :
    ∃ as t, Run (LifeStep plain) (.unborn, oneFile (List.replicate 5000 0)) as t ∧ ¬ HandlesOk t := by
  have hlen : (List.replicate 5000 (0 : UInt8)).length = 5000 := List.length_replicate
  generalize List.replicate 5000 (0 : UInt8) = bs at *
  refine ⟨_, _, (run_openingA bs).unguard.snoc (.op (.shrinkToFit .badClose)), fun h => ?_⟩
  have hbegun : Begun plain .badClose openedA (streamA1.fflush .ok (openedWorld bs)).2 :=
    begun_of_opened ((fflush_node streamA1 .ok _ _).trans (openedA_node bs)) rfl rfl rfl rfl rfl
  have hmapped : ∀ max, ¬ ShrinkIO.badClose.Unmapped max := by
    rintro max ⟨i, -, -, hm⟩
    exact hm rfl
  exact second_fclose rfl (openedA_due rfl hlen) hbegun (hmapped _) rfl h.used

end CtiLog
