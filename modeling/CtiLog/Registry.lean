import CtiLog.Append
import CtiLog.Frame
import CtiLog.Runs
/-
# `Logger::instances`

The static members of `Logger` and the objects the map owns. An object is named by the number of
objects made before it; its `shared_ptr` is in the map only, so the object dies when its entry is
erased or assigned.

| here | there |
| --- | --- |
| `Registry`        | `defaultLogFile`, `instances` (log.hpp:301-305) |
| `hasLogger`       | log.cpp:31 |
| `Logger.request`  | what `getLogger` asks of the instance (log.cpp:53-58, :64-69) |
| `insert`          | `getLogger` under the write lock (log.cpp:61-70) |
| `GetStep`         | the two sections of `getLogger`; alone, a call is both (`getLogger_run`) |
| `releaseLogger`   | log.cpp:74 |

**Two loggers for one file** (`two_loggers`): the lookup and the insertion are two critical sections,
and the second does not look again. A file has one logger in every run whose insertions find no
instance of their file (`one_logger`).
-/

namespace CtiLog

open Runs

structure Registry where
  defaultLogFile : Str
  instances : Str → Option Nat
  /-- The objects that live. -/
  heap : Nat → Option Logger
  made : Nat
  world : World

def Logger.request (spinOnceLogLevel : LogLevel) (outputs : Outputs) (l : Logger) : Logger :=
  let l := if spinOnceLogLevel ≠ .unchange then { l with spinOnceLogLevel := spinOnceLogLevel } else l
  if outputs.testFlag .coutOrCerr || outputs.testFlag .file then { l with outputs := outputs } else l

/-- Outcomes of the constructor, and of the destructor of the instance replaced. -/
structure InsertIO where
  ctor : Logger.CtorIO
  old : FinishIO

namespace Registry

/-- Before the first call. -/
def start (w : World) : Registry := ⟨str "logger.log", fun _ => none, fun _ => none, 0, w⟩

def setDefaultLogger (path : Str) (r : Registry) : Registry :=
  if path = [] then r else { r with defaultLogFile := path }

def fileOf (path : Str) (r : Registry) : Str := if path = [] then r.defaultLogFile else path

def hasLogger (file : Str) (r : Registry) : Option Nat := r.instances file

def alter (i : Nat) (f : Logger → Logger) (r : Registry) : Registry :=
  { r with heap := Function.update r.heap i ((r.heap i).map f) }

/-- The last `shared_ptr` is gone: `~Logger`. -/
def destroy (io : FinishIO) (i : Nat) (r : Registry) : Registry :=
  match r.heap i with
  | none => r
  | some l => { r with heap := Function.update r.heap i none, world := (l.finish io r.world).2 }

/-- `new Logger(file, outputs)`. -/
def make (pf : Platform) (io : Logger.CtorIO) (file : Str) (outputs : Outputs) (r : Registry) : Registry :=
  let (l, w) := Logger.construct pf io file outputs (-1) false r.world
  { r with heap := Function.update r.heap r.made (some l), made := r.made + 1, world := w }

/-- `instances[file] = ret`. -/
def assign (io : FinishIO) (file : Str) (i : Nat) (r : Registry) : Registry :=
  let r' := { r with instances := Function.update r.instances file (some i) }
  match r.instances file with
  | none => r'
  | some old => r'.destroy io old

def insert (pf : Platform) (io : InsertIO) (spinOnceLogLevel : LogLevel) (outputs : Outputs) (file : Str)
    (r : Registry) :
    Nat × Registry :=
  (r.made, ((r.make pf io.ctor file outputs).assign io.old file r.made).alter r.made
    (Logger.request spinOnceLogLevel outputs))

def getLogger (pf : Platform) (io : InsertIO) (spinOnceLogLevel : LogLevel) (path : Str) (outputs : Outputs)
    (r : Registry) : Nat × Registry :=
  match r.hasLogger (r.fileOf path) with
  | some i => (i, r.alter i (Logger.request spinOnceLogLevel outputs))
  | none => r.insert pf io spinOnceLogLevel outputs (r.fileOf path)

def releaseLogger (io : FinishIO) (file : Str) (r : Registry) : Registry :=
  match r.instances file with
  | none => r
  | some i => { r.destroy io i with instances := Function.update r.instances file none }

end Registry

/-! ## The map and its objects -/

/-- Every entry of the map has its object: the one for that path. -/
structure Registry.Ok (pf : Platform) (r : Registry) : Prop where
  owned : ∀ file i, r.instances file = some i → ∃ l, r.heap i = some l ∧ l.path = file ∧ Named pf l
  lt : ∀ i, r.heap i ≠ none → i < r.made

section
variable {pf : Platform} {r : Registry} {file : Str} {i : Nat}

theorem start_ok (w : World) : (Registry.start w).Ok pf := ⟨by simp [Registry.start], by simp [Registry.start]⟩

/-- An object has one entry. -/
theorem Registry.Ok.inj {file' : Str} (h : r.Ok pf) (hi : r.instances file = some i)
    (hi' : r.instances file' = some i) :
    file = file' := by
  obtain ⟨l, hl, hp, -⟩ := h.owned _ _ hi
  obtain ⟨l', hl', hp', -⟩ := h.owned _ _ hi'
  rw [hl] at hl'
  cases hl'
  exact hp.symm.trans hp'

theorem request_path (ll : LogLevel) (o : Outputs) (l : Logger) : (l.request ll o).path = l.path := by
  unfold Logger.request
  split <;> split <;> rfl

theorem request_log (ll : LogLevel) (o : Outputs) (l : Logger) : (l.request ll o).log = l.log := by
  unfold Logger.request
  split <;> split <;> rfl

theorem request_named {l : Logger} (ll : LogLevel) (o : Outputs) (h : Named pf l) : Named pf (l.request ll o) := by
  unfold Named Logger.name
  rw [request_path, request_log]
  exact h

/-- A new state of an object, for the same path. -/
theorem Registry.Ok.alter {f : Logger → Logger} (h : r.Ok pf)
    (hf : ∀ l, Named pf l → (f l).path = l.path ∧ Named pf (f l)) :
    (r.alter i f).Ok pf := by
  constructor
  · intro file j hj
    obtain ⟨l, hl, hp, hn⟩ := h.owned file j hj
    by_cases hij : j = i
    · subst hij
      obtain ⟨hfp, hfn⟩ := hf l hn
      exact ⟨f l, by simp [Registry.alter, hl], hfp.trans hp, hfn⟩
    · exact ⟨l, by simp [Registry.alter, hij, hl], hp, hn⟩
  · intro j hj
    apply h.lt j
    intro hnone
    apply hj
    by_cases hij : j = i
    · subst hij
      simp [Registry.alter, hnone]
    · simp [Registry.alter, hij, hnone]

theorem construct_path (io : Logger.CtorIO) (path : Str) (o : Outputs) (n : BitVec 32) (trunc : Bool) (w : World) :
    (Logger.construct pf io path o n trunc w).1.path = path :=
  @acts_path pf _ False True _ _ (construct_acts io path o n trunc)

theorem construct_named (io : Logger.CtorIO) (path : Str) (o : Outputs) (n : BitVec 32) (trunc : Bool) (w : World) :
    Named pf (Logger.construct pf io path o n trunc w).1 :=
  @acts_named pf _ False True _ _ (construct_acts io path o n trunc) (by simp [Named, Logger.new])

/-- A new object, with no entry yet. -/
theorem Registry.Ok.make (h : r.Ok pf) (io : Logger.CtorIO) (file : Str) (o : Outputs) :
    (r.make pf io file o).Ok pf := by
  constructor
  · intro file' j hj
    obtain ⟨l, hl, hp, hn⟩ := h.owned file' j hj
    have hlt := h.lt j (by simp [hl])
    have hne : j ≠ r.made := by omega
    exact ⟨l, by simp [Registry.make, hne, hl], hp, hn⟩
  · intro j hj
    show j < r.made + 1
    by_cases hne : j = r.made
    · omega
    · have := h.lt j (by simpa [Registry.make, hne] using hj)
      omega

/-- The new object gets its entry; the one that had it dies. -/
theorem Registry.Ok.assign {l : Logger} (h : r.Ok pf) (io : FinishIO) (hl : r.heap i = some l) (hp : l.path = file)
    (hn : Named pf l) (hnew : ∀ file', r.instances file' ≠ some i) : (r.assign io file i).Ok pf := by
  unfold Registry.assign
  dsimp only
  split
  · refine ⟨?_, h.lt⟩
    intro file' j hj
    by_cases hf : file' = file
    · subst hf
      obtain rfl : i = j := by simpa using hj
      exact ⟨l, hl, hp, hn⟩
    · exact h.owned file' j (by simpa [hf] using hj)
  · rename_i old hold
    obtain ⟨lo, hlo, -, -⟩ := h.owned file old hold
    have hio : i ≠ old := fun he => hnew file (he ▸ hold)
    unfold Registry.destroy
    rw [hlo]
    constructor
    · intro file' j hj
      by_cases hf : file' = file
      · subst hf
        obtain rfl : i = j := by simpa using hj
        exact ⟨l, by simp [hio, hl], hp, hn⟩
      · have hj' : r.instances file' = some j := by simpa [hf] using hj
        have hjo : j ≠ old := fun he => hf (h.inj hj' (he ▸ hold))
        obtain ⟨l', hl', hp', hn'⟩ := h.owned file' j hj'
        exact ⟨l', by simp [hjo, hl'], hp', hn'⟩
    · intro j hj
      apply h.lt j
      intro hnone
      apply hj
      by_cases hjo : j = old
      · simp [hjo]
      · simp [hjo, hnone]

/-- The object of the newest number. -/
theorem make_newest (io : Logger.CtorIO) (o : Outputs) :
    ∃ l, (r.make pf io file o).heap r.made = some l ∧ l.path = file ∧ Named pf l :=
  ⟨_, by simp [Registry.make], construct_path io file o (-1) false r.world,
    construct_named io file o (-1) false r.world⟩

/-- **An insertion keeps map and objects together**, also where it replaces an instance. -/
theorem Registry.Ok.insert (h : r.Ok pf) (io : InsertIO) (ll : LogLevel) (o : Outputs) (file : Str) :
    (r.insert pf io ll o file).2.Ok pf := by
  obtain ⟨l, hl, hp, hn⟩ := @make_newest pf r file io.ctor o
  have hnew : ∀ file', (r.make pf io.ctor file o).instances file' ≠ some r.made := by
    intro file' hi
    obtain ⟨l', hl', -, -⟩ := h.owned file' r.made hi
    have := h.lt r.made (by simp [hl'])
    omega
  apply ((h.make io.ctor file o).assign io.old hl hp hn hnew).alter
  intro l hn
  exact ⟨request_path ll o l, request_named ll o hn⟩

/-- What an insertion does to the map. -/
theorem insert_instances (io : InsertIO) (ll : LogLevel) (o : Outputs) :
    (r.insert pf io ll o file).2.instances = Function.update r.instances file (some r.made) := by
  unfold Registry.insert Registry.assign Registry.alter
  dsimp only
  split
  · rfl
  · unfold Registry.destroy
    split <;> rfl

end

/-! ## Threads in `getLogger` -/

/-- A thread whose lookup found nothing. -/
structure Missing where
  file : Str
  spinOnceLogLevel : LogLevel
  outputs : Outputs

structure Callers where
  reg : Registry
  /-- The threads between lookup and insertion. -/
  missing : Nat → Option Missing
  /-- The calls that returned: their file and the instance. -/
  returned : List (Str × Nat)

def Callers.start (w : World) : Callers := ⟨.start w, fun _ => none, []⟩

inductive GetAct where
  | lookup (thread : Nat) (path : Str) (spinOnceLogLevel : LogLevel) (outputs : Outputs)
  | insert (thread : Nat) (io : InsertIO)

/-- The sections of `getLogger`, each under its lock. -/
inductive GetStep (pf : Platform) : Callers → GetAct → Callers → Prop
  | found {t : Callers} {thread i : Nat} {path : Str} (ll : LogLevel) (o : Outputs) : t.missing thread = none →
      t.reg.hasLogger (t.reg.fileOf path) = some i →
      GetStep pf t (.lookup thread path ll o)
        { t with reg := t.reg.alter i (Logger.request ll o), returned := t.returned ++ [(t.reg.fileOf path, i)] }
  | missing {t : Callers} {thread : Nat} {path : Str} (ll : LogLevel) (o : Outputs) : t.missing thread = none →
      t.reg.hasLogger (t.reg.fileOf path) = none →
      GetStep pf t (.lookup thread path ll o)
        { t with missing := Function.update t.missing thread (some ⟨t.reg.fileOf path, ll, o⟩) }
  | insert {t : Callers} {thread : Nat} {q : Missing} (io : InsertIO) : t.missing thread = some q →
      GetStep pf t (.insert thread io)
        { reg := (t.reg.insert pf io q.spinOnceLogLevel q.outputs q.file).2,
          missing := Function.update t.missing thread none,
          returned := t.returned ++ [(q.file, (t.reg.insert pf io q.spinOnceLogLevel q.outputs q.file).1)] }

/-- A call that no other thread interrupts is a run of its sections. -/
theorem getLogger_run {pf : Platform} {t : Callers} {thread : Nat} (io : InsertIO) (ll : LogLevel) (path : Str)
    (o : Outputs)
    (hidle : t.missing thread = none) :
    ∃ as, Run (GetStep pf) t as ⟨(t.reg.getLogger pf io ll path o).2, t.missing,
      t.returned ++ [(t.reg.fileOf path, (t.reg.getLogger pf io ll path o).1)]⟩ := by
  unfold Registry.getLogger
  cases hfound : t.reg.hasLogger (t.reg.fileOf path) with
  | some i => exact ⟨_, .single (.found ll o hidle hfound)⟩
  | none =>
    have hlookup : Run (GetStep pf) t _ _ := .single (.missing ll o hidle hfound)
    have hinsert := hlookup.snoc (@GetStep.insert pf _ thread ⟨t.reg.fileOf path, ll, o⟩ io (by simp))
    have hback :
        Function.update (Function.update t.missing thread (some ⟨t.reg.fileOf path, ll, o⟩)) thread none = t.missing := by
      rw [Function.update_idem, ← hidle, Function.update_eq_self]
    rw [hback] at hinsert
    exact ⟨_, hinsert⟩

/-- An insertion finds no instance of its file. -/
def StillMissing (t : Callers) : GetAct → Prop
  | .lookup _ _ _ _ => True
  | .insert thread _ => ∀ q ∈ t.missing thread, t.reg.instances q.file = none

/-- What was returned is the instance of its file, and lives. -/
structure OneLogger (t : Callers) : Prop where
  same : ∀ file i j, (file, i) ∈ t.returned → (file, j) ∈ t.returned → i = j
  registered : ∀ file i, (file, i) ∈ t.returned → t.reg.instances file = some i
  alive : ∀ file i, (file, i) ∈ t.returned → t.reg.heap i ≠ none

/-- The invariant of guarded runs. -/
structure CallersInv (pf : Platform) (t : Callers) : Prop where
  ok : t.reg.Ok pf
  registered : ∀ file i, (file, i) ∈ t.returned → t.reg.instances file = some i

theorem CallersInv.oneLogger {pf : Platform} {t : Callers} (h : CallersInv pf t) : OneLogger t := by
  refine ⟨?_, h.registered, ?_⟩
  · intro file i j hi hj
    have := (h.registered file i hi).symm.trans (h.registered file j hj)
    exact Option.some.inj this
  · intro file i hi
    obtain ⟨l, hl, -⟩ := h.ok.owned file i (h.registered file i hi)
    simp [hl]

/-- **Step lemma**: an insertion that finds no instance replaces none. -/
theorem getStep_inv {pf : Platform} {t u : Callers} {a : GetAct} (ht : CallersInv pf t)
    (h : Guarded StillMissing (GetStep pf) t a u) : CallersInv pf u := by
  obtain ⟨hguard, hstep⟩ := h
  cases hstep with
  | @found thread i path ll o _ hfound =>
    refine ⟨ht.ok.alter fun l hn => ⟨request_path ll o l, request_named ll o hn⟩, ?_⟩
    intro file j hj
    rcases List.mem_append.1 hj with hj | hj
    · exact ht.registered file j hj
    · cases List.mem_singleton.1 hj
      exact hfound
  | missing => exact ⟨ht.ok, ht.registered⟩
  | @insert thread q io hq =>
    have hnone : t.reg.instances q.file = none := hguard q hq
    refine ⟨ht.ok.insert io q.spinOnceLogLevel q.outputs q.file, ?_⟩
    intro file j hj
    show (t.reg.insert pf io q.spinOnceLogLevel q.outputs q.file).2.instances file = some j
    rw [insert_instances]
    rcases List.mem_append.1 hj with hj | hj
    · have hreg := ht.registered file j hj
      have hne : file ≠ q.file := by
        rintro rfl
        rw [hnone] at hreg
        cases hreg
      simpa [hne] using hreg
    · cases List.mem_singleton.1 hj
      simp [Registry.insert]

/-- **One logger per file**, in every run whose insertions find no instance of their file. -/
theorem one_logger {pf : Platform} {w : World} {as : List GetAct} {t : Callers}
    (hrun : Run (Guarded StillMissing (GetStep pf)) (.start w) as t) : OneLogger t := by
  have hstart : CallersInv pf (.start w) := ⟨start_ok w, by simp [Callers.start]⟩
  exact (hrun.inv _ hstart fun _ _ _ => getStep_inv).oneLogger

def InsertIO.ok : InsertIO := ⟨⟨.ok, .ok⟩, .ok⟩

/-- A thread that looks `a` up. -/
theorem lookup_a (t : Callers) (thread : Nat) (hidle : t.missing thread = none)
    (hnone : t.reg.instances (str "a") = none) :
    GetStep plain t (.lookup thread (str "a") .unchange .file)
      { t with missing := Function.update t.missing thread (some ⟨str "a", .unchange, .file⟩) } :=
  .missing .unchange .file hidle hnone

/-- One call inserts the logger, the next one finds it. -/
theorem one_logger_twice : ∃ t : Callers, t.returned = [(str "a", 0), (str "a", 0)] ∧ OneLogger t := by
  have hlookup : Run (Guarded StillMissing (GetStep plain)) (.start (oneFile [])) _ _ :=
    .single ⟨by trivial, lookup_a (.start (oneFile [])) 0 rfl rfl⟩
  have hinsert := hlookup.snoc
    ⟨by rintro q ⟨⟩; rfl, @GetStep.insert plain _ 0 ⟨str "a", .unchange, .file⟩ .ok rfl⟩
  have hfound := hinsert.snoc ⟨by trivial, @GetStep.found plain _ 1 0 (str "a") .unchange .file rfl rfl⟩
  exact ⟨_, rfl, one_logger hfound⟩

/-- **Two loggers for one file**: two threads look `a` up before either inserts. -/
theorem two_loggers : ∃ as t, Run (GetStep plain) (.start (oneFile [])) as t ∧ ¬ OneLogger t := by
  have hlookup := Run.single (lookup_a (.start (oneFile [])) 0 rfl rfl)
  have hlookups := hlookup.snoc (lookup_a _ 1 rfl rfl)
  have hinsert := hlookups.snoc (@GetStep.insert plain _ 0 ⟨str "a", .unchange, .file⟩ .ok rfl)
  have hinserts := hinsert.snoc (@GetStep.insert plain _ 1 ⟨str "a", .unchange, .file⟩ .ok rfl)
  refine ⟨_, _, hinserts, fun h => ?_⟩
  exact absurd (h.same (str "a") 0 1 (by decide) (by decide)) (by decide)

end CtiLog
