import CtiLog.Journal
/-
# Record numbers

`append` increments `kLogIdx` before it takes `writemutex` and reads it again under the mutex. A thread
that increments in between makes two records read one number (`same_number`). Numbers are unique, and
increase in every log, in every run in which no thread increments between the increment and the
critical section of another (`numbered`). In every run the log of a logger has its records in the order of
their critical sections (`emitted_inFile`).

| here | there |
| --- | --- |
| `SerialStep.enter`  | log.cpp:193-230 |
| `SerialStep.count`  | `++kLogIdx` (log.cpp:232) |
| `SerialStep.write`  | the section under `writemutex` (log.cpp:236-323) |
| `SerialStep.settle` | log.cpp:325-329 |
-/

namespace CtiLog

open Runs

/-! ## Threads in `append` -/

/-- Where a thread is, and what it knows there. -/
inductive Phase (ι : Type*) where
  | idle
  | entered (i : ι) (m : Msg) (lvl : LogLevel)
  | counted (i : ι) (m : Msg) (lvl : LogLevel)
  | wrote (i : ι) (ret : Int)

/-- Between its increment and its critical section. -/
def Phase.isCounted {ι : Type*} : Phase ι → Prop
  | .counted _ _ _ => True
  | _ => False

structure Serial (ι : Type*) where
  log : ι → Logger
  world : World
  phase : Nat → Phase ι
  /-- The records in the order of their critical sections, each with its logger. -/
  emitted : List (ι × Entry)

inductive SerialAct (ι : Type*) where
  | enter (thread : Nat) (i : ι) (io : AppendIO) (m : Msg)
  | count (thread : Nat)
  | write (thread : Nat) (io : AppendIO)
  | settle (thread : Nat) (io : AppendIO)

section
variable {ι : Type*} [DecidableEq ι]

def Serial.start (log : ι → Logger) (w : World) : Serial ι := ⟨log, w, fun _ => .idle, []⟩

inductive SerialStep (pf : Platform) : Serial ι → SerialAct ι → Serial ι → Prop
  | enter {t : Serial ι} {thread : Nat} (i : ι) (io : AppendIO) (m : Msg) : t.phase thread = .idle →
      SerialStep pf t (.enter thread i io m)
        { log := Function.update t.log i ((t.log i).enter pf io m.logLevel t.world).2.1
          world := ((t.log i).enter pf io m.logLevel t.world).2.2
          phase := Function.update t.phase thread
            (match ((t.log i).enter pf io m.logLevel t.world).1 with | .ok lvl => .entered i m lvl | .error _ => .idle)
          emitted := t.emitted }
  | count {t : Serial ι} {thread : Nat} {i : ι} {m : Msg} {lvl : LogLevel} : t.phase thread = .entered i m lvl →
      SerialStep pf t (.count thread)
        { t with world := t.world.countRecord, phase := Function.update t.phase thread (.counted i m lvl) }
  | write {t : Serial ι} {thread : Nat} {i : ι} {m : Msg} {lvl : LogLevel} (io : AppendIO) :
      t.phase thread = .counted i m lvl →
      SerialStep pf t (.write thread io)
        { log := Function.update t.log i ((t.log i).writeRecord io m lvl t.world).2.1
          world := ((t.log i).writeRecord io m lvl t.world).2.2
          phase := Function.update t.phase thread (.wrote i ((t.log i).writeRecord io m lvl t.world).1.ret)
          emitted := t.emitted ++ (((t.log i).writeRecord io m lvl t.world).1.entry.map (i, ·)).toList }
  | settle {t : Serial ι} {thread : Nat} {i : ι} {ret : Int} (io : AppendIO) : t.phase thread = .wrote i ret →
      SerialStep pf t (.settle thread io)
        { log := Function.update t.log i ((t.log i).settle pf io ret t.world).1
          world := ((t.log i).settle pf io ret t.world).2
          phase := Function.update t.phase thread .idle
          emitted := t.emitted }

/-- An `append` that no other thread interrupts is a run of its four steps. -/
theorem append5_run {pf : Platform} {t : Serial ι} {thread : Nat} (i : ι) (io : AppendIO) (m : Msg)
    (hidle : t.phase thread = .idle) :
    ∃ as, Run (SerialStep pf) t as
      { log := Function.update t.log i ((t.log i).append5 pf io m t.world).2.1
        world := ((t.log i).append5 pf io m t.world).2.2
        phase := t.phase
        emitted := t.emitted ++ (((t.log i).append5 pf io m t.world).1.entry.map (i, ·)).toList } := by
  have henter := Run.single (SerialStep.enter i io m hidle : SerialStep pf t _ _)
  have hback : Function.update t.phase thread .idle = t.phase := by
    rw [← hidle, Function.update_eq_self]
  unfold Logger.append5
  generalize (t.log i).enter pf io m.logLevel t.world = e at *
  obtain ⟨e, l, w⟩ := e
  cases e with
  | error r =>
    dsimp only at henter ⊢
    rw [hback] at henter
    simpa using ⟨_, henter⟩
  | ok lvl =>
    dsimp only at henter ⊢
    have hcount := henter.snoc (.count (Function.update_self ..))
    have hwrite := hcount.snoc (.write io (Function.update_self ..))
    have hsettle := hwrite.snoc (.settle io (Function.update_self ..))
    simp only [Function.update_self, Function.update_idem, hback] at hsettle
    exact ⟨_, hsettle⟩

/-- No thread increments while another is between increment and critical section, nor past `2 ^ 64`. -/
def Alone (t : Serial ι) : SerialAct ι → Prop
  | .count _ => (∀ thread, ¬ (t.phase thread).isCounted) ∧ t.world.idx + 1 < 2 ^ 64
  | _ => True

/-- The number of the first record is the smaller one. -/
def Before (a b : ι × Entry) : Prop := ∃ m n, a.2.idx = some m ∧ b.2.idx = some n ∧ m < n

/-- The number stands at the head of the text, before the `[`. -/
def Shown (e : ι × Entry) : Prop := ∃ n rest, e.2.idx = some n ∧ e.2.text = str (toString n) ++ str "[" ++ rest

/-- The records of `i` with their newlines, in the order of their critical sections. -/
def Serial.lines (t : Serial ι) (i : ι) : List Str := (t.emitted.filter (·.1 = i)).map fun e => e.2.line

/-- No two records have one number; those of each logger increase, and stand at the heads of the records. Where no file
of a logger is a file of another, the log of each has what it had at the start and its records, in that order. -/
structure Numbered (pf : Platform) (log : ι → Logger) (w : World) (t : Serial ι) : Prop where
  unique : t.emitted.Pairwise fun a b => a.2.idx ≠ b.2.idx
  increasing : ∀ i, (t.emitted.filter (·.1 = i)).Pairwise Before
  shown : ∀ e ∈ t.emitted, Shown e
  inFile : FilesApart pf log → (∀ i, Sound pf (log i) w) →
    ∀ i, ((t.log i).written pf t.world).Sublist ((log i).written pf w ++ (t.lines i).flatten)

/-! ## The order in a log -/

variable {pf : Platform} {t u : Serial ι}

/-- The loggers with what each was given. -/
def Serial.journal (t : Serial ι) : Journal ι := ⟨t.log, t.world, t.lines⟩

theorem lines_emit (t : Serial ι) (i : ι) (e : Option Entry) (log : ι → Logger) (w : World) (ph : Nat → Phase ι) :
    Serial.lines ⟨log, w, ph, t.emitted ++ (e.map (i, ·)).toList⟩ =
      Function.update t.lines i (t.lines i ++ (e.map Entry.line).toList) := by
  funext j
  by_cases hj : j = i
  · subst hj
    cases e <;> simp [Serial.lines]
  · cases e <;> simp [Serial.lines, hj, Ne.symm hj]

theorem lineText_head (hasTid : Bool) (idx : Nat) (time : Str) (tid : Nat) (lvl : LogLevel) (m : Msg) :
    ∃ rest, lineText true hasTid idx time tid lvl m = str (toString idx) ++ str "[" ++ rest := by
  unfold lineText
  simp only [if_true, List.append_assoc]
  exact ⟨_, rfl⟩

/-- The section of a record gives the log at most what it emits. -/
theorem given_emitted (io : AppendIO) (m : Msg) (lvl : LogLevel) (l : Logger) (w : World) :
    ((LogAct.writeRecord l.outputs io m lvl).given l w).Sublist
      ((l.writeRecord io m lvl w).1.entry.map Entry.line).toList := by
  unfold LogAct.given Logger.writeRecord
  dsimp only
  by_cases hput : (l.outputs.testFlag .file && l.log.isSome) = true
  · obtain ⟨hfile, hsome⟩ := Bool.and_eq_true_iff.1 hput
    obtain ⟨s, hs⟩ := Option.isSome_iff_exists.1 hsome
    rw [if_pos hput, if_pos hfile, hs]
    exact List.Sublist.refl _
  · rw [if_neg hput]
    exact List.nil_sublist _

/-- **Step lemma**, whatever fails. -/
theorem serialStep_inOrder {log : ι → Logger} {w : World} {a : SerialAct ι} (ht : t.journal.InOrder pf log w)
    (hstep : SerialStep pf t a u) : u.journal.InOrder pf log w := by
  have hself : ∀ i, Function.update t.journal.given i (t.journal.given i) = t.journal.given :=
    fun i => Function.update_eq_self i t.journal.given
  cases hstep with
  | @enter thread i io m =>
    have hafter := ht.acts (enter_acts io m.logLevel) (enter_drawn io m.logLevel (ht.sound i) (ht.holds i))
    rwa [hself] at hafter
  | @count thread i m lvl =>
    have hafter := ht.acts (logAct_acts (.count : LogAct)) (quiet_drawn (a := .count) rfl (ht.sound i) (ht.holds i))
    rwa [hself, Function.update_eq_self] at hafter
  | @write thread i m lvl io =>
    have hdrawn := logAct_drawn (.writeRecord (t.log i).outputs io m lvl) (ht.sound i) (ht.holds i)
    have hrun := @writeRecord_run pf (t.log i) t.world io m lvl
    have hemitted := given_emitted io m lvl (t.log i) t.world
    dsimp only [Serial.journal] at hdrawn
    rw [hrun, List.append_assoc, ← List.flatten_append] at hdrawn
    have hlines := ((List.Sublist.refl (t.lines i)).append hemitted).flatten
    have hafter := ht.acts (@writeRecord_acts pf False True True _ _ io m lvl)
      (hdrawn.mono ((List.Sublist.refl _).append hlines))
    unfold Serial.journal
    rw [lines_emit]
    exact hafter
  | @settle thread i ret io =>
    have hafter := ht.acts (settle_acts io ret) (settle_drawn io ret (ht.sound i) (ht.holds i))
    rwa [hself] at hafter

/-- **In file order.** Whatever fails, the log of a logger holds what it held at the start and the records of the
logger, in the order of their critical sections. -/
theorem emitted_inFile {log : ι → Logger} {w : World} (hapart : FilesApart pf log) (hsound : ∀ i, Sound pf (log i) w)
    {as : List (SerialAct ι)} (hrun : Run (SerialStep pf) (.start log w) as t) (i : ι) :
    ((t.log i).written pf t.world).Sublist ((log i).written pf w ++ (t.lines i).flatten) := by
  have hinv : t.journal.InOrder pf log w :=
    hrun.inv (fun t => t.journal.InOrder pf log w) (start_inOrder hapart hsound) fun _ _ _ => serialStep_inOrder
  exact (hinv.holds i).live

/-! ## The invariant -/

structure SerialInv (t : Serial ι) : Prop where
  hasIdx : ∀ i, (t.log i).hasIdx = true
  alone : ∀ x y, (t.phase x).isCounted → (t.phase y).isCounted → x = y
  sorted : t.emitted.Pairwise Before
  shown : ∀ e ∈ t.emitted, Shown e
  last : ∀ e ∈ t.emitted, ∃ n, e.2.idx = some n ∧ n ≤ t.world.idx ∧ ((∃ x, (t.phase x).isCounted) → n < t.world.idx)

omit [DecidableEq ι] in
theorem SerialInv.unique (h : SerialInv t) : t.emitted.Pairwise fun a b => a.2.idx ≠ b.2.idx := by
  refine h.sorted.imp ?_
  rintro a b ⟨m, n, hm, hn, hlt⟩ he
  rw [hm, hn] at he
  have := Option.some.inj he
  omega

omit [DecidableEq ι] in
theorem update_isCounted {ph : Nat → Phase ι} {thread x : Nat} {p : Phase ι} (hp : ¬ p.isCounted)
    (h : (Function.update ph thread p x).isCounted) : (ph x).isCounted ∧ x ≠ thread := by
  by_cases hx : x = thread
  · subst hx
    rw [Function.update_self] at h
    exact absurd h hp
  · rw [Function.update_of_ne hx] at h
    exact ⟨h, hx⟩

/-- A step that emits nothing, counts nothing and takes no thread between increment and section. -/
theorem SerialInv.quiet {i : ι} {l : Logger} {w : World} {thread : Nat} {p : Phase ι} (ht : SerialInv t)
    (hl : l.hasIdx = (t.log i).hasIdx) (hw : w.idx = t.world.idx) (hp : ¬ p.isCounted) :
    SerialInv ⟨Function.update t.log i l, w, Function.update t.phase thread p, t.emitted⟩ := by
  refine ⟨?_, ?_, ht.sorted, ht.shown, ?_⟩
  · intro j
    by_cases hj : j = i
    · subst hj
      simpa [hl] using ht.hasIdx j
    · simpa [hj] using ht.hasIdx j
  · intro x y hx hy
    exact ht.alone x y (update_isCounted hp hx).1 (update_isCounted hp hy).1
  · intro e he
    obtain ⟨n, hn, hle, hlt⟩ := ht.last e he
    refine ⟨n, hn, hle.trans hw.ge, ?_⟩
    rintro ⟨x, hx⟩
    exact (hlt ⟨x, (update_isCounted hp hx).1⟩).trans_eq hw.symm

theorem enter_hasIdx (pf : Platform) (io : AppendIO) (ll : LogLevel) (l : Logger) (w : World) :
    (l.enter pf io ll w).2.1.hasIdx = l.hasIdx := by
  by_cases hpath : l.path = []
  · unfold Logger.enter
    rw [if_pos hpath]
  · obtain ⟨o, ho⟩ := @enter_settings pf l w io ll hpath
    rw [ho, gate_takes]

omit [DecidableEq ι] in
/-- An increment while no thread is between increment and section. -/
theorem SerialInv.count {thread : Nat} {i : ι} {m : Msg} {lvl : LogLevel} (ht : SerialInv t)
    (hnone : ∀ x, ¬ (t.phase x).isCounted) (hlt : t.world.idx + 1 < 2 ^ 64) :
    SerialInv { t with world := t.world.countRecord, phase := Function.update t.phase thread (.counted i m lvl) } := by
  have hidx : t.world.countRecord.idx = t.world.idx + 1 := Nat.mod_eq_of_lt hlt
  refine ⟨ht.hasIdx, ?_, ht.sorted, ht.shown, ?_⟩
  · -- the thread that counts is the only one
    have honly : ∀ x, (Function.update t.phase thread (.counted i m lvl) x).isCounted → x = thread := by
      intro x hx
      by_contra hne
      rw [Function.update_of_ne hne] at hx
      exact hnone x hx
    intro x y hx hy
    exact (honly x hx).trans (honly y hy).symm
  · intro e he
    obtain ⟨n, hn, hle, -⟩ := ht.last e he
    exact ⟨n, hn, by rw [hidx]; omega, fun _ => by rw [hidx]; omega⟩

/-- A critical section: its record, if any, has the largest number so far. -/
theorem SerialInv.write {thread : Nat} {i : ι} {p : Phase ι} {l : Logger} {w : World} {es : List (ι × Entry)}
    (ht : SerialInv t) (hl : l.hasIdx = (t.log i).hasIdx) (hw : w.idx = t.world.idx) (hp : ¬ p.isCounted)
    (hcounted : (t.phase thread).isCounted) (hnew : ∀ e ∈ es, e.2.idx = some t.world.idx ∧ Shown e)
    (hone : es.length ≤ 1) :
    SerialInv ⟨Function.update t.log i l, w, Function.update t.phase thread p, t.emitted ++ es⟩ := by
  have hquiet : SerialInv ⟨_, w, Function.update t.phase thread p, t.emitted⟩ := ht.quiet hl hw hp
  refine ⟨hquiet.hasIdx, hquiet.alone, ?_, ?_, ?_⟩
  · refine List.pairwise_append.2 ⟨ht.sorted, ?_, ?_⟩
    · match es, hone with
      | [], _ => exact .nil
      | [e], _ => exact List.pairwise_singleton _ e
    · intro x hx y hy
      obtain ⟨n, hn, -, hlt⟩ := ht.last x hx
      exact ⟨n, t.world.idx, hn, (hnew y hy).1, hlt ⟨thread, hcounted⟩⟩
  · intro e he
    exact (List.mem_append.1 he).elim (ht.shown e) fun h => (hnew e h).2
  · intro e he
    rcases List.mem_append.1 he with he | he
    · exact hquiet.last e he
    · refine ⟨t.world.idx, (hnew e he).1, hw.ge, ?_⟩
      -- no other thread is between increment and section
      rintro ⟨x, hx⟩
      obtain ⟨hx, hne⟩ := update_isCounted hp hx
      exact absurd (ht.alone x thread hx hcounted) hne

/-- **Step lemma**: a critical section that its thread reaches alone. -/
theorem serialStep_inv {a : SerialAct ι} (ht : SerialInv t) (h : Guarded Alone (SerialStep pf) t a u) :
    SerialInv u := by
  obtain ⟨hguard, hstep⟩ := h
  cases hstep with
  | @enter thread i io m =>
    apply ht.quiet (enter_hasIdx pf io m.logLevel _ _)
    · exact @acts_idx pf _ True _ _ (enter_acts io m.logLevel)
    · split <;> exact id
  | count hphase => exact ht.count hguard.1 hguard.2
  | @write thread i m lvl io hphase =>
    obtain ⟨o, ho⟩ := @acts_settings pf False False _ _ (writeRecord_acts io m lvl :
      Acts pf False False False (t.log i, t.world) _)
    apply ht.write
    · rw [ho]
    · exact @acts_idx pf False False _ _ (writeRecord_acts io m lvl)
    · exact id
    · rw [hphase]
      trivial
    · intro e he
      obtain ⟨e', he', rfl⟩ := Option.map_eq_some_iff.1 (Option.mem_toList.1 he)
      rw [writeRecord_some he', if_pos (ht.hasIdx i)]
      obtain ⟨rest, hrest⟩ := lineText_head (t.log i).hasTid t.world.idx io.time io.tid lvl m
      rw [ht.hasIdx i]
      exact ⟨rfl, t.world.idx, rest, rfl, hrest⟩
    · cases ((t.log i).writeRecord io m lvl t.world).1.entry <;> simp
  | @settle thread i ret io hphase =>
    obtain ⟨o, ho⟩ := @acts_settings pf io.closeFailed False _ _ (settle_acts io ret :
      Acts pf io.closeFailed False False (t.log i, t.world) _)
    apply ht.quiet
    · rw [ho]
    · exact @acts_idx pf _ False _ _ (settle_acts io ret)
    · exact id

/-- **Record numbers are unique, and increase in every log**, in every run in which no thread increments
between the increment and the critical section of another. -/
theorem numbered {log : ι → Logger} {w : World} (hidx : ∀ i, (log i).hasIdx = true) {as : List (SerialAct ι)}
    (hrun : Run (Guarded Alone (SerialStep pf)) (.start log w) as t) : Numbered pf log w t := by
  have hstart : SerialInv (.start log w) :=
    ⟨hidx, fun _ _ h => h.elim, .nil, nofun, nofun⟩
  have hinv : SerialInv t := hrun.inv _ hstart fun _ _ _ => serialStep_inv
  exact ⟨hinv.unique, fun i => hinv.sorted.filter _, hinv.shown,
    fun hapart hsound => emitted_inFile hapart hsound hrun.unguard⟩

end

/-! ## Two threads -/

/-- One logger, with an empty log open. -/
def serialA : Serial Unit := .start (fun _ => openedA) (openedWorld [])

/-- Two threads enter; each counts when the other is not between increment and section. -/
theorem numbered_hello : ∃ t : Serial Unit, t.emitted.map (·.2.idx) = [some 1, some 2] ∧
    Numbered plain (fun _ => openedA) (openedWorld []) t := by
  have henter : Run (Guarded Alone (SerialStep plain)) serialA _ _ :=
    .single ⟨by trivial, @SerialStep.enter Unit _ plain serialA 0 () .ok hello rfl⟩
  have henters := henter.snoc ⟨by trivial, @SerialStep.enter Unit _ plain _ 1 () .ok hello rfl⟩
  have hnone : ∀ x, ¬ (Function.update (Function.update serialA.phase 0 (Phase.entered () hello .note)) 1
      (Phase.entered () hello .note) x).isCounted := by
    intro x hx
    exact (update_isCounted id (update_isCounted id hx).1).1
  have hcount := henters.snoc ⟨by exact ⟨hnone, by decide⟩, @SerialStep.count _ _ plain _ 0 () hello .note rfl⟩
  have hwrite := hcount.snoc ⟨by trivial, @SerialStep.write _ _ plain _ 0 () hello .note .ok rfl⟩
  have hnone' : ∀ (ret : Int) x, ¬ (Function.update (Function.update (Function.update (Function.update serialA.phase 0
      (Phase.entered () hello .note)) 1 (Phase.entered () hello .note)) 0 (Phase.counted () hello .note)) 0
      (Phase.wrote () ret) x).isCounted := by
    intro ret x hx
    obtain ⟨hx, hne⟩ := update_isCounted id hx
    rw [Function.update_of_ne hne] at hx
    exact hnone x hx
  have hcounts := hwrite.snoc ⟨by exact ⟨hnone' _, by decide⟩, @SerialStep.count _ _ plain _ 1 () hello .note rfl⟩
  have hwrites := hcounts.snoc ⟨by trivial, @SerialStep.write _ _ plain _ 1 () hello .note .ok rfl⟩
  exact ⟨_, by decide, numbered (fun _ => rfl) hwrites⟩

/-- **Two records with one number**: both threads increment, then both write. -/
theorem same_number :
    ∃ as t, Run (SerialStep plain) serialA as t ∧ ¬ Numbered plain (fun _ => openedA) (openedWorld []) t := by
  have henter := Run.single (@SerialStep.enter Unit _ plain serialA 0 () .ok hello rfl)
  have henters := henter.snoc (@SerialStep.enter Unit _ plain _ 1 () .ok hello rfl)
  have hcount := henters.snoc (@SerialStep.count _ _ plain _ 0 () hello .note rfl)
  have hcounts := hcount.snoc (@SerialStep.count _ _ plain _ 1 () hello .note rfl)
  have hwrite := hcounts.snoc (@SerialStep.write _ _ plain _ 0 () hello .note .ok rfl)
  have hwrites := hwrite.snoc (@SerialStep.write _ _ plain _ 1 () hello .note .ok rfl)
  refine ⟨_, _, hwrites, fun h => ?_⟩
  exact absurd h.unique (by decide)

end CtiLog
