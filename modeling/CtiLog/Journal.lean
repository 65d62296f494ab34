import CtiLog.Sections
/-
# What the logs hold of what they were given

Any number of loggers with files of their own, their pieces in any order, as threads interleave them.

* `nothing_invented` — **whatever fails**, a log and its backup hold only bytes that were in the log before or
  were given to its logger, in the order in which they were given.
* `whole_records` — **when nothing fails**, a log is made of the newest of the records its logger was given,
  whole; a rotation cuts the backup only where the records exceed `kMinLogSize`.
-/

namespace CtiLog

open Rotating Runs

/-- The loggers of a process, and the records each was given. -/
structure Journal (ι : Type*) where
  log : ι → Logger
  world : World
  given : ι → List Str

variable {ι : Type*}

def Journal.start (log : ι → Logger) (w : World) : Journal ι := ⟨log, w, fun _ => []⟩

/-- No file of a logger is a file of another. -/
structure FilesApart (pf : Platform) (log : ι → Logger) : Prop where
  ofLog : ∀ i j, j ≠ i → Apart pf (log i).path ((log j).name pf)
  ofBackup : ∀ i j, j ≠ i → Apart pf (log i).path ((log j).name1 pf)

theorem FilesApart.congr {pf : Platform} {log log' : ι → Logger} (h : FilesApart pf log)
    (hpath : ∀ i, (log' i).path = (log i).path) :
    FilesApart pf log' := by
  constructor
  · intro i j hj
    rw [hpath i, Logger.name, hpath j]
    exact h.ofLog i j hj
  · intro i j hj
    rw [hpath i, Logger.name1, hpath j]
    exact h.ofBackup i j hj

variable [DecidableEq ι]

def Journal.act (pf : Platform) (i : ι) (a : LogAct) (t : Journal ι) : Journal ι :=
  { log := Function.update t.log i (a.run pf (t.log i) t.world).1
    world := (a.run pf (t.log i) t.world).2
    given := Function.update t.given i (t.given i ++ a.given (t.log i) t.world) }

/-- One piece of one logger. -/
def JournalStep (pf : Platform) (t : Journal ι) (a : ι × LogAct) (u : Journal ι) : Prop := u = t.act pf a.1 a.2

/-- No call that matters fails. -/
def Journal.Ok (t : Journal ι) (a : ι × LogAct) : Prop := a.2.Ok (t.log a.1) t.world

/-- `P` of every logger's tape and of what it was given. -/
structure JournalInv (pf : Platform) (P : ι → Tape UInt8 → List Str → Prop) (t : Journal ι) : Prop where
  apart : FilesApart pf t.log
  sound : ∀ i, Sound pf (t.log i) t.world
  holds : ∀ i, P i ((t.log i).tape pf t.world) (t.given i)

/-- The logs and their backups hold nothing but what was there at the start and what was given, in that order. -/
def Journal.InOrder (pf : Platform) (log : ι → Logger) (w : World) : Journal ι → Prop :=
  JournalInv pf fun i u given => u.Drawn (w.content ((log i).name1 pf)) ((log i).written pf w ++ given.flatten)

section
variable {pf : Platform} {P : ι → Tape UInt8 → List Str → Prop} {t u : Journal ι} {log : ι → Logger} {w : World}

/-- The tape of another logger. -/
theorem tape_other {twice : Prop} {l l' : Logger} {b : Logger × World} (hacts : Acts pf twice True True (l, w) b)
    (hnamed : Named pf l) (hlog : Apart pf l.path (l'.name pf)) (hbackup : Apart pf l.path (l'.name1 pf)) :
    l'.tape pf b.2 = l'.tape pf w := by
  unfold Logger.tape
  rw [acts_content hacts hnamed hlog, acts_content hacts hnamed hbackup]

/-- **Step lemma**: what is done by and for one logger. -/
theorem JournalInv.acts {twice : Prop} (h : JournalInv pf P t) {i : ι} {l : Logger} {w : World} {given : List Str}
    (hacts : Acts pf twice True True (t.log i, t.world) (l, w)) (hP : P i (l.tape pf w) given) :
    JournalInv pf P ⟨Function.update t.log i l, w, Function.update t.given i given⟩ := by
  have hnamed : Named pf (t.log i) := (h.sound i).named
  refine ⟨h.apart.congr fun j => ?_, fun j => ?_, fun j => ?_⟩
  · by_cases hj : j = i
    · subst hj
      simp only [Function.update_self]
      exact acts_path hacts
    · simp only [Function.update_of_ne hj]
  · by_cases hj : j = i
    · subst hj
      simp only [Function.update_self]
      exact acts_sound hacts (h.sound j)
    · simp only [Function.update_of_ne hj]
      exact (h.sound j).other hacts hnamed (h.apart.ofLog i j hj)
  · by_cases hj : j = i
    · subst hj
      simp only [Function.update_self]
      exact hP
    · simp only [Function.update_of_ne hj]
      rw [tape_other hacts hnamed (h.apart.ofLog i j hj) (h.apart.ofBackup i j hj)]
      exact h.holds j

/-- A piece keeps what it keeps of the tape of its own logger. -/
theorem JournalInv.step {a : ι × LogAct} (h : JournalInv pf P t)
    (hP : P a.1 ((a.2.run pf (t.log a.1) t.world).1.tape pf (a.2.run pf (t.log a.1) t.world).2)
      (t.given a.1 ++ a.2.given (t.log a.1) t.world)) :
    JournalInv pf P (t.act pf a.1 a.2) :=
  h.acts (logAct_acts a.2) hP

omit [DecidableEq ι] in
theorem start_inOrder (hapart : FilesApart pf log) (hsound : ∀ i, Sound pf (log i) w) :
    (Journal.start log w).InOrder pf log w := by
  refine ⟨hapart, hsound, fun i => ?_⟩
  show Tape.Drawn _ ((log i).written pf w ++ []) _
  rw [List.append_nil]
  exact .start ((log i).tape pf w)

/-- **Run lemma**, whatever fails. -/
theorem journal_drawn (hapart : FilesApart pf log) (hsound : ∀ i, Sound pf (log i) w) {as : List (ι × LogAct)}
    (hrun : Run (JournalStep pf) (.start log w) as t) (i : ι) :
    ((t.log i).tape pf t.world).Drawn (w.content ((log i).name1 pf)) ((log i).written pf w ++ (t.given i).flatten) := by
  have hinv : t.InOrder pf log w := by
    refine hrun.inv (Journal.InOrder pf log w) (start_inOrder hapart hsound) ?_
    rintro t a u ht rfl
    apply ht.step
    have hd := logAct_drawn a.2 (ht.sound a.1) (ht.holds a.1)
    rw [List.append_assoc, ← List.flatten_append] at hd
    exact hd
  exact hinv.holds i

/-- **Run lemma**, when nothing fails. -/
theorem journal_whole (hapart : FilesApart pf log) (hsound : ∀ i, Sound pf (log i) w) {as : List (ι × LogAct)}
    (hrun : Run (Guarded Journal.Ok (JournalStep pf)) (.start log w) as t) (i : ι) :
    ((t.log i).tape pf t.world).Whole kMinLogSize (w.content ((log i).name1 pf)) ((log i).written pf w :: t.given i) := by
  let P := fun i (u : Tape UInt8) (given : List Str) =>
    u.Whole kMinLogSize (w.content ((log i).name1 pf)) ((log i).written pf w :: given)
  have hstart : JournalInv pf P (.start log w) :=
    ⟨hapart, hsound, fun i => .start kMinLogSize ((log i).tape pf w)⟩
  have hinv : JournalInv pf P t := by
    apply hrun.inv _ hstart
    rintro t a u ht ⟨hok, rfl⟩
    apply ht.step
    exact logAct_whole a.2 hok (ht.sound a.1) (ht.holds a.1)
  exact hinv.holds i

/-- **Nothing invented.** Whatever fails, a log holds bytes it held before and bytes it was given, in that
order, and its backup is the old one or holds such bytes. -/
theorem nothing_invented (hapart : FilesApart pf log) (hsound : ∀ i, Sound pf (log i) w) {as : List (ι × LogAct)}
    (hrun : Run (JournalStep pf) (.start log w) as t) (i : ι) :
    let all := (log i).written pf w ++ (t.given i).flatten
    ((t.log i).written pf t.world).Sublist all ∧
      (t.world.content ((t.log i).name1 pf) = w.content ((log i).name1 pf) ∨
        (t.world.content ((t.log i).name1 pf)).Sublist all) :=
  ⟨(journal_drawn hapart hsound hrun i).live, (journal_drawn hapart hsound hrun i).backup⟩

/-- **Whole records.** When nothing fails, a log is made of the newest of the records that its logger was
given (what it held at the start counts as one), and its backup is the old one or was made of consecutive
records, cut behind at least `kMinLogSize` bytes. -/
theorem whole_records (hapart : FilesApart pf log) (hsound : ∀ i, Sound pf (log i) w) {as : List (ι × LogAct)}
    (hrun : Run (Guarded Journal.Ok (JournalStep pf)) (.start log w) as t) (i : ι) :
    let all := (log i).written pf w :: t.given i
    (∃ rs, rs <:+ all ∧ (t.log i).written pf t.world = rs.flatten) ∧
      (t.world.content ((t.log i).name1 pf) = w.content ((log i).name1 pf) ∨
        ∃ rs n, rs <:+: all ∧ kMinLogSize ≤ n ∧ t.world.content ((t.log i).name1 pf) = rs.flatten.take n) :=
  ⟨(journal_whole hapart hsound hrun i).live, (journal_whole hapart hsound hrun i).backup⟩

end

/-- One logger, with `a` open. -/
def journalA (bs : Str) : Journal Unit := .start (fun _ => openedA) (openedWorld bs)

theorem journalA_apart : FilesApart plain fun _ : Unit => openedA :=
  ⟨fun _ _ h => (h rfl).elim, fun _ _ h => (h rfl).elim⟩

/-- `fwrite` takes the first of two bytes. -/
def tornText : LogAct := .writeText .file ⟨⟨1, 0⟩, ⟨some EACCES, 0⟩, EACCES⟩ (str "xy") .note

theorem nothing_invented_torn :
    let t := (journalA (str "old")).act plain () tornText
    ((t.log ()).written plain t.world).Sublist (openedA.written plain (openedWorld (str "old")) ++ (t.given ()).flatten) ∧
      (t.world.content ((t.log ()).name1 plain) = (openedWorld (str "old")).content (openedA.name1 plain) ∨
        (t.world.content ((t.log ()).name1 plain)).Sublist
          (openedA.written plain (openedWorld (str "old")) ++ (t.given ()).flatten)) :=
  nothing_invented journalA_apart (fun _ => .inr ⟨streamA1, openedA_open _⟩) (Run.single (a := ((), tornText)) rfl) ()

/-- `fwrite` takes both bytes. -/
def wholeText : LogAct := .writeText .file .ok (str "xy") .note

theorem whole_records_one :
    let t := (journalA (str "old")).act plain () wholeText
    (∃ rs, rs <:+ openedA.written plain (openedWorld (str "old")) :: t.given () ∧
        (t.log ()).written plain t.world = rs.flatten) ∧
      (t.world.content ((t.log ()).name1 plain) = (openedWorld (str "old")).content (openedA.name1 plain) ∨
        ∃ rs n, rs <:+: openedA.written plain (openedWorld (str "old")) :: t.given () ∧ kMinLogSize ≤ n ∧
          t.world.content ((t.log ()).name1 plain) = rs.flatten.take n) :=
  have hok : (str "xy").length ≤ 8192 := by decide
  whole_records journalA_apart (fun _ => .inr ⟨streamA1, openedA_open _⟩) (Run.single (a := ((), wholeText)) ⟨hok, rfl⟩) ()

end CtiLog
