import CtiLog.Journal
import CtiLog.Neighbours
/-
# The process and its journal

What the loggers of a process are for is told by a `Journal`: every file has its records, from start to end.
The process has instances instead: `getLogger` makes one, on a race it replaces one, `releaseLogger` destroys
it, and the next one for the file starts closed and with default settings. For the files this makes no
difference: every run of a process is a run of the journal of its files (`process_refines`), so what holds of
every journal holds of every process (`process_whole_records`).

| here | there |
| --- | --- |
| `ProcAct.found`, `.insert` | the sections of `getLogger` (log.cpp:31, :61-70) |
| `ProcAct.piece`            | a section of an operation on the registered instance |
| `ProcAct.releaseLogger`    | log.cpp:74 |
-/

namespace CtiLog

open Rotating Runs

/-- The map and its objects, and the records each file was given. -/
structure Process where
  reg : Registry
  given : Str → List Str

inductive ProcAct where
  | found (path : Str) (spinOnceLogLevel : LogLevel) (outputs : Outputs)
  | insert (io : InsertIO) (spinOnceLogLevel : LogLevel) (outputs : Outputs) (file : Str)
  | piece (file : Str) (a : LogAct)
  | setDefaultLogger (path : Str)
  | releaseLogger (io : FinishIO) (file : Str)

namespace Registry

/-- The instance of a file, if there is one. -/
def instanceOf (file : Str) (r : Registry) : Option (Nat × Logger) :=
  (r.instances file).bind fun i => (r.heap i).map fun l => (i, l)

def piece (pf : Platform) (file : Str) (a : LogAct) (r : Registry) : Registry :=
  match r.instanceOf file with
  | none => r
  | some (i, l) => { r with heap := Function.update r.heap i (some (a.run pf l r.world).1), world := (a.run pf l r.world).2 }

/-- The bytes of a file, flushed or buffered by its instance. -/
def written (pf : Platform) (file : Str) (r : Registry) : Str :=
  r.world.content (resolve pf file) ++ (r.instanceOf file).elim [] fun p => p.2.log.elim [] Stream.buf

end Registry

namespace ProcAct

def run (pf : Platform) (r : Registry) : ProcAct → Registry
  | .found path ll o =>
    match r.hasLogger (r.fileOf path) with
    | some i => r.alter i (Logger.request ll o)
    | none => r
  | .insert io ll o file => (r.insert pf io ll o file).2
  | .piece file a => r.piece pf file a
  | .setDefaultLogger path => r.setDefaultLogger path
  | .releaseLogger io file => r.releaseLogger io file

/-- What the file is given. -/
def given (r : Registry) : ProcAct → Str → List Str
  | .piece file a, p => if p = file then (r.instanceOf file).elim [] fun q => a.given q.2 r.world else []
  | _, _ => []

/-- The file it is about is one of `S`. -/
def Within (S : Set Str) (r : Registry) : ProcAct → Prop
  | .found path _ _ => r.fileOf path ∈ S
  | .insert _ _ _ file => file ∈ S
  | .piece file _ => file ∈ S
  | .setDefaultLogger _ => True
  | .releaseLogger _ file => file ∈ S

/-- No call that matters fails. -/
def Ok (r : Registry) : ProcAct → Prop
  | .insert io _ _ _ => io.old.Ok
  | .piece file a => ∀ q ∈ r.instanceOf file, a.Ok q.2 r.world
  | .releaseLogger io _ => io.Ok
  | _ => True

end ProcAct

namespace Process

def start (w : World) : Process := ⟨.start w, fun _ => []⟩

def act (pf : Platform) (t : Process) (a : ProcAct) : Process := ⟨a.run pf t.reg, fun p => t.given p ++ a.given t.reg p⟩

end Process

def ProcStep (pf : Platform) (t : Process) (a : ProcAct) (u : Process) : Prop := u = t.act pf a

/-- A run within `S`, all of whose calls succeed if `calls`. -/
def Process.Allowed (S : Set Str) (calls : Prop) (t : Process) (a : ProcAct) : Prop :=
  a.Within S t.reg ∧ (calls → a.Ok t.reg)

/-! ## Settings of a new instance -/

/-- The instance that replaces another: as the constructor makes it, and asked for once. -/
def Logger.renewed (ll : LogLevel) (o : Outputs) (path : Str) : Logger :=
  Logger.request ll o
    (if o = .none then (Logger.new path).setMaxSize (-1) else ((Logger.new path).setMaxSize (-1)).setOutputs o)

def renew (ll : LogLevel) (o : Outputs) : Setting where
  set l := { Logger.renewed ll o l.path with log := l.log }
  path l := by
    obtain ⟨m, hm⟩ := setMaxSize_settings (-1) (Logger.new l.path)
    show (Logger.renewed ll o l.path).path = l.path
    unfold Logger.renewed
    rw [request_path, hm]
    split <;> rfl
  log _ := rfl

def ask (ll : LogLevel) (o : Outputs) : Setting := ⟨Logger.request ll o, request_path ll o, request_log ll o⟩

theorem renewed_log (ll : LogLevel) (o : Outputs) (path : Str) : (Logger.renewed ll o path).log = none := by
  obtain ⟨m, hm⟩ := setMaxSize_settings (-1) (Logger.new path)
  unfold Logger.renewed
  rw [request_log, hm]
  split <;> rfl

/-- The constructor touches no file. -/
theorem construct_renewed {pf : Platform} (io : Logger.CtorIO) (ll : LogLevel) (o : Outputs) (path : Str) (w : World) :
    (Logger.request ll o (Logger.construct pf io path o (-1) false w).1) = Logger.renewed ll o path ∧
      (Logger.construct pf io path o (-1) false w).2 = w := by
  rw [construct_eq]
  exact ⟨rfl, rfl⟩

section
variable {pf : Platform} {S : Set Str} {calls : Prop} {t : Process} {u : Journal S} {r : Registry} {file : Str} {i : Nat}
  {l : Logger}

/-- **The process and its journal**: one logger for every file, closed where the map has none. -/
structure Refines (pf : Platform) (S : Set Str) (t : Process) (u : Journal S) : Prop where
  ok : t.reg.Ok pf
  world : u.world = t.reg.world
  given : ∀ p : S, u.given p = t.given p
  path : ∀ p : S, (u.log p).path = p
  registered : ∀ (p : S) i, t.reg.instances p = some i → t.reg.heap i = some (u.log p)
  missing : ∀ p : S, t.reg.instances p = none → (u.log p).log = none

theorem instanceOf_eq (hi : r.instances file = some i) (hl : r.heap i = some l) : r.instanceOf file = some (i, l) := by
  simp [Registry.instanceOf, hi, hl]

theorem instanceOf_none (hi : r.instances file = none) : r.instanceOf file = none := by
  simp [Registry.instanceOf, hi]

/-- The bytes of a file are those of its logger in the journal. -/
theorem Refines.written (h : Refines pf S t u) (p : S) : t.reg.written pf p = (u.log p).written pf u.world := by
  unfold Registry.written Logger.written Logger.name
  rw [h.world, h.path]
  cases hi : t.reg.instances p with
  | none =>
    rw [instanceOf_none hi, h.missing p hi]
    rfl
  | some i =>
    rw [instanceOf_eq hi (h.registered p i hi)]
    rfl

/-- What one piece of the logger of `f` changes. -/
structure Changed (pf : Platform) (f : S) (a : LogAct) (t : Process) (u : Journal S) (t' : Process) : Prop where
  ok : t'.reg.Ok pf
  world : t'.reg.world = (a.run pf (u.log f) u.world).2
  given : ∀ p : S, t'.given p = t.given p ++ if p = f then a.given (u.log f) u.world else []
  registered : ∀ i, t'.reg.instances f = some i → t'.reg.heap i = some (a.run pf (u.log f) u.world).1
  missing : t'.reg.instances f = none → (a.run pf (u.log f) u.world).1.log = none
  instances : ∀ p : S, p ≠ f → t'.reg.instances p = t.reg.instances p
  heap : ∀ (p : S) i, p ≠ f → t.reg.instances p = some i → t'.reg.heap i = t.reg.heap i

/-- Such a change is a step of the journal. -/
theorem Refines.change {f : S} {a : LogAct} {t' : Process} (h : Refines pf S t u) (hc : Changed pf f a t u t') :
    Refines pf S t' (u.act pf f a) := by
  have hacts : Acts pf a.closeFailed True True (u.log f, u.world) (a.run pf (u.log f) u.world) := logAct_acts a
  refine ⟨hc.ok, hc.world.symm, fun p => ?_, fun p => ?_, fun p i hi => ?_, fun p hi => ?_⟩
  · rw [hc.given p, ← h.given p]
    by_cases hp : p = f
    · subst hp
      simp [Journal.act]
    · simp [Journal.act, hp]
  · by_cases hp : p = f
    · subst hp
      simp only [Journal.act, Function.update_self]
      exact (acts_path hacts).trans (h.path p)
    · simp only [Journal.act, Function.update_of_ne hp]
      exact h.path p
  · by_cases hp : p = f
    · subst hp
      simp only [Journal.act, Function.update_self]
      exact hc.registered i hi
    · rw [hc.instances p hp] at hi
      simp only [Journal.act, Function.update_of_ne hp]
      rw [hc.heap p i hp hi]
      exact h.registered p i hi
  · by_cases hp : p = f
    · subst hp
      simp only [Journal.act, Function.update_self]
      exact hc.missing hi
    · rw [hc.instances p hp] at hi
      simp only [Journal.act, Function.update_of_ne hp]
      exact h.missing p hi

/-- Two files have two instances. -/
theorem Registry.Ok.ne {file' : Str} {j : Nat} (h : r.Ok pf) (hi : r.instances file = some i)
    (hj : r.instances file' = some j)
    (hne : file' ≠ file) : j ≠ i := by
  rintro rfl
  exact hne (h.inj hj hi)

/-- The lookup of `getLogger` asks the instance. -/
theorem changed_found (h : Refines pf S t u) {f : S} (hi : t.reg.instances f = some i) (ll : LogLevel) (o : Outputs) :
    Changed pf f (.set (ask ll o)) t u ⟨t.reg.alter i (Logger.request ll o), t.given⟩ where
  ok := h.ok.alter fun l hn => ⟨request_path ll o l, request_named ll o hn⟩
  world := h.world.symm
  given := by simp [LogAct.given]
  registered := by
    intro j hj
    obtain rfl : i = j := Option.some.inj (hi.symm.trans hj)
    show Function.update t.reg.heap i ((t.reg.heap i).map (Logger.request ll o)) i = _
    rw [Function.update_self, h.registered f i hi]
    rfl
  missing := by
    intro hnone
    have : t.reg.instances f = none := hnone
    rw [hi] at this
    cases this
  instances _ _ := rfl
  heap := by
    intro p j hp hj
    have hne : (p : Str) ≠ f := fun he => hp (Subtype.ext he)
    exact Function.update_of_ne (h.ok.ne hi hj hne) _ _

/-- A piece of an operation on the registered instance. -/
theorem changed_piece (h : Refines pf S t u) {f : S} (hi : t.reg.instances f = some i) (a : LogAct) :
    Changed pf f a t u
      ⟨t.reg.piece pf f a, fun p => t.given p ++ (ProcAct.piece f a).given t.reg p⟩ := by
  have hl := h.registered f i hi
  have hinst := instanceOf_eq hi hl
  have hacts : Acts pf a.closeFailed True True (u.log f, u.world) (a.run pf (u.log f) u.world) := logAct_acts a
  have hpiece : t.reg.piece pf f a = { t.reg with
      heap := Function.update t.reg.heap i (some (a.run pf (u.log f) t.reg.world).1)
      world := (a.run pf (u.log f) t.reg.world).2 } := by
    unfold Registry.piece
    rw [hinst]
  rw [hpiece, h.world.symm]
  refine ⟨⟨?_, ?_⟩, rfl, ?_, ?_, ?_, fun _ _ => rfl, ?_⟩
  · intro file j hj
    obtain ⟨l, hlj, hp, hn⟩ := h.ok.owned file j hj
    by_cases hij : j = i
    · subst hij
      obtain rfl : u.log f = l := Option.some.inj (hl.symm.trans hlj)
      exact ⟨_, by simp, (acts_path hacts).trans hp, acts_named hacts hn⟩
    · exact ⟨l, by simp [hij, hlj], hp, hn⟩
  · intro j hj
    apply h.ok.lt j
    intro hnone
    apply hj
    have hij : j ≠ i := by
      rintro rfl
      rw [hl] at hnone
      cases hnone
    simp [hij, hnone]
  · intro p
    have hiff : (p : Str) = f ↔ p = f := ⟨fun he => Subtype.ext he, congrArg _⟩
    simp only [ProcAct.given, hinst, Option.elim, hiff, h.world]
  · intro j hj
    obtain rfl : i = j := Option.some.inj (hi.symm.trans hj)
    simp
  · intro hnone
    have : t.reg.instances f = none := hnone
    rw [hi] at this
    cases this
  · intro p j hp hj
    have hne : (p : Str) ≠ f := fun he => hp (Subtype.ext he)
    exact Function.update_of_ne (h.ok.ne hi hj hne) _ _

theorem finish_log {io : FinishIO} {w : World} (hpath : l.path ≠ []) : (l.finish io w).1.log = none := by
  unfold Logger.finish
  rw [if_neg hpath]
  exact closeLog_log io

theorem releaseLogger_eq {io : FinishIO} (hi : r.instances file = some i) (hl : r.heap i = some l) :
    r.releaseLogger io file = { r with
      instances := Function.update r.instances file none
      heap := Function.update r.heap i none
      world := (l.finish io r.world).2 } := by
  unfold Registry.releaseLogger Registry.destroy
  rw [hi]
  dsimp only
  rw [hl]

theorem releaseLogger_none {io : FinishIO} (hi : r.instances file = none) : r.releaseLogger io file = r := by
  unfold Registry.releaseLogger
  rw [hi]

/-- The instance is destroyed. -/
theorem changed_release (h : Refines pf S t u) {f : S} (hf : (f : Str) ≠ []) (hi : t.reg.instances f = some i)
    (io : FinishIO) :
    Changed pf f (.finish io) t u ⟨t.reg.releaseLogger io f, t.given⟩ := by
  have hl := h.registered f i hi
  have hok : (t.reg.releaseLogger io f).Ok pf := h.ok.release io f
  have hpath : (u.log f).path ≠ [] := (h.path f).symm ▸ hf
  rw [releaseLogger_eq hi hl] at hok ⊢
  refine ⟨hok, ?_, ?_, ?_, fun _ => finish_log hpath, ?_, ?_⟩
  · rw [h.world]
    rfl
  · simp [LogAct.given]
  · intro j hj
    have : Function.update t.reg.instances f none f = some j := hj
    simp at this
  · intro p hp
    have hne : (p : Str) ≠ f := fun he => hp (Subtype.ext he)
    exact Function.update_of_ne hne _ _
  · intro p j hp hj
    have hne : (p : Str) ≠ f := fun he => hp (Subtype.ext he)
    exact Function.update_of_ne (h.ok.ne hi hj hne) _ _

/-- An insertion is a release and a new instance. -/
theorem insert_eq (hok : r.Ok pf) (io : InsertIO) (ll : LogLevel) (o : Outputs) :
    (r.insert pf io ll o file).2 = { r.releaseLogger io.old file with
      instances := Function.update (r.releaseLogger io.old file).instances file (some r.made)
      heap := Function.update (r.releaseLogger io.old file).heap r.made (some (Logger.renewed ll o file))
      made := r.made + 1 } := by
  obtain ⟨hnew, hworld⟩ := @construct_renewed pf io.ctor ll o file r.world
  unfold Registry.insert Registry.assign Registry.make
  generalize Logger.construct pf io.ctor file o (-1) false r.world = c at *
  cases hi : r.instances file with
  | none =>
    rw [releaseLogger_none hi]
    simp [Registry.alter, hnew, hworld]
  | some old =>
    obtain ⟨l, hl, -⟩ := hok.owned file old hi
    have hne : old ≠ r.made := (hok.lt old (by simp [hl])).ne
    rw [releaseLogger_eq hi hl]
    simp only [Registry.destroy, Function.update_of_ne hne, hl, Registry.alter, hworld, Function.update_idem]
    congr 1
    funext j
    by_cases hj : j = r.made
    · subst hj
      simp [Function.update_of_ne hne.symm, hnew]
    · by_cases hjo : j = old
      · subst hjo
        simp [hj]
      · simp [hj, hjo]

/-- A new instance where the map has none. -/
theorem changed_renew {t₁ : Process} (h : Refines pf S t₁ u) {f : S} {t' : Process} {made : Nat} {ll : LogLevel}
    {o : Outputs}
    (hi : t₁.reg.instances f = none) (hok : t'.reg.Ok pf) (hgiven : t'.given = t₁.given)
    (hmade : ∀ p j, t₁.reg.instances p = some j → j ≠ made)
    (hreg : t'.reg = { t₁.reg with
      instances := Function.update t₁.reg.instances f (some made)
      heap := Function.update t₁.reg.heap made (some (Logger.renewed ll o f))
      made := made + 1 }) :
    Changed pf f (.set (renew ll o)) t₁ u t' := by
  have hlog := h.missing f hi
  refine ⟨hok, ?_, ?_, ?_, ?_, ?_, ?_⟩
  · rw [hreg, LogAct.run, h.world]
  · simp [hgiven, LogAct.given]
  · intro j hj
    rw [hreg] at hj ⊢
    obtain rfl : made = j := by simpa using hj
    have hset : (renew ll o).set (u.log f) = Logger.renewed ll o f := by
      show ({ Logger.renewed ll o (u.log f).path with log := (u.log f).log } : Logger) = _
      rw [hlog, ← renewed_log ll o (u.log f).path, h.path f]
    simp [LogAct.run, hset]
  · intro hnone
    rw [hreg] at hnone
    simp at hnone
  · intro p hp
    have hne : (p : Str) ≠ f := fun he => hp (Subtype.ext he)
    rw [hreg]
    exact Function.update_of_ne hne _ _
  · intro p j hp hj
    rw [hreg]
    exact Function.update_of_ne (hmade p j hj) _ _

/-! ## Runs -/

/-- A step of the journal whose calls succeed, if `calls`. -/
def Journal.Allowed (calls : Prop) (u : Journal S) (b : S × LogAct) : Prop := calls → u.Ok b

theorem Refines.single {f : S} {a : LogAct} {t' : Process} (h : Refines pf S t u) (hc : Changed pf f a t u t')
    (hok : calls → a.Ok (u.log f) u.world) :
    Run (Guarded (Journal.Allowed calls) (JournalStep pf)) u [(f, a)] (u.act pf f a) ∧ Refines pf S t' (u.act pf f a) :=
  ⟨.single ⟨hok, rfl⟩, h.change hc⟩

/-- **Step lemma**: a step of a process is a run of its journal. -/
theorem refines_step (h : Refines pf S t u) (hS : [] ∉ S) {a : ProcAct} {t' : Process}
    (hstep : Guarded (Process.Allowed S calls) (ProcStep pf) t a t') :
    ∃ bs u', Run (Guarded (Journal.Allowed calls) (JournalStep pf)) u bs u' ∧ Refines pf S t' u' := by
  obtain ⟨⟨hin, hcalls⟩, rfl⟩ := hstep
  have hstay : ∀ {r' : Registry}, r' = t.reg →
      ∃ bs u', Run (Guarded (Journal.Allowed calls) (JournalStep pf)) u bs u' ∧
        Refines pf S ⟨r', fun p => t.given p ++ []⟩ u' := by
    rintro _ rfl
    simp only [List.append_nil]
    exact ⟨[], u, .nil, h⟩
  cases a with
  | found path ll o =>
    show ∃ bs u', _ ∧ Refines pf S ⟨ProcAct.run pf t.reg (.found path ll o), fun p => t.given p ++ []⟩ u'
    unfold ProcAct.run
    dsimp only
    split
    · rename_i i hi
      simp only [List.append_nil]
      have hc := @changed_found pf S t u i h ⟨t.reg.fileOf path, hin⟩ hi ll o
      exact ⟨_, _, h.single hc fun _ => trivial⟩
    · exact hstay rfl
  | insert io ll o file =>
    show ∃ bs u', _ ∧ Refines pf S ⟨(t.reg.insert pf io ll o file).2, fun p => t.given p ++ []⟩ u'
    simp only [List.append_nil]
    have hok := h.ok.insert io ll o file
    have heq := @insert_eq pf t.reg file h.ok io ll o
    have hlt : ∀ p j, t.reg.instances p = some j → j ≠ t.reg.made := by
      intro p j hj
      obtain ⟨l, hl, -⟩ := h.ok.owned p j hj
      exact (h.ok.lt j (by simp [hl])).ne
    cases hi : t.reg.instances file with
    | none =>
      rw [releaseLogger_none hi] at heq
      have hc := @changed_renew pf S u t h ⟨file, hin⟩ ⟨_, t.given⟩ t.reg.made ll o hi hok rfl hlt heq
      exact ⟨_, _, h.single hc fun _ => trivial⟩
    | some i =>
      have hne : file ≠ [] := fun he => hS (he ▸ hin)
      have hc := @changed_release pf S t u i h ⟨file, hin⟩ hne hi io.old
      have h₁ := h.change hc
      have hl := h.registered ⟨file, hin⟩ i hi
      have hgone : (t.reg.releaseLogger io.old file).instances file = none := by
        rw [releaseLogger_eq hi hl]
        simp
      have hlt₁ : ∀ p j, (t.reg.releaseLogger io.old file).instances p = some j → j ≠ t.reg.made := by
        intro p j hj
        rw [releaseLogger_eq hi hl] at hj
        by_cases hp : p = file
        · subst hp
          simp at hj
        · exact hlt p j (by simpa [hp] using hj)
      have hc₁ := @changed_renew pf S _ _ h₁ ⟨file, hin⟩ ⟨_, t.given⟩ t.reg.made ll o hgone hok rfl hlt₁ heq
      obtain ⟨hrun, -⟩ := h.single hc fun hcs => hcalls hcs
      obtain ⟨hrun₁, href⟩ := h₁.single hc₁ fun _ => trivial
      exact ⟨_, _, hrun.append hrun₁, href⟩
  | piece file a =>
    cases hi : t.reg.instances file with
    | none =>
      have hnone := instanceOf_none hi
      have hgiven : ∀ p, (ProcAct.piece file a).given t.reg p = [] := by
        intro p
        simp [ProcAct.given, hnone]
      show ∃ bs u', _ ∧ Refines pf S ⟨_, fun p => t.given p ++ (ProcAct.piece file a).given t.reg p⟩ u'
      simp only [hgiven]
      apply hstay
      show t.reg.piece pf file a = t.reg
      unfold Registry.piece
      rw [hnone]
    | some i =>
      have hl := h.registered ⟨file, hin⟩ i hi
      have hc := @changed_piece pf S t u i h ⟨file, hin⟩ hi a
      refine ⟨_, _, h.single hc fun hcs => ?_⟩
      have hok := hcalls hcs (i, u.log ⟨file, hin⟩) (instanceOf_eq hi hl)
      rw [h.world]
      exact hok
  | setDefaultLogger path =>
    refine ⟨[], u, .nil, ?_⟩
    show Refines pf S ⟨t.reg.setDefaultLogger path, fun p => t.given p ++ []⟩ u
    unfold Registry.setDefaultLogger
    simp only [List.append_nil]
    split
    · exact h
    · exact ⟨⟨h.ok.owned, h.ok.lt⟩, h.world, h.given, h.path, h.registered, h.missing⟩
  | releaseLogger io file =>
    show ∃ bs u', _ ∧ Refines pf S ⟨t.reg.releaseLogger io file, fun p => t.given p ++ []⟩ u'
    cases hi : t.reg.instances file with
    | none => exact hstay (releaseLogger_none hi)
    | some i =>
      have hne : file ≠ [] := fun he => hS (he ▸ hin)
      have hc := @changed_release pf S t u i h ⟨file, hin⟩ hne hi io
      simp only [List.append_nil]
      exact ⟨_, _, h.single hc fun hcs => hcalls hcs⟩

/-- The journal of a process that has not begun: every file closed. -/
def Journal.blank (S : Set Str) (w : World) : Journal S := .start (fun p => Logger.new p) w

/-- **Run lemma.** -/
theorem refines_run {w : World} (hS : [] ∉ S) {as : List ProcAct}
    (hrun : Run (Guarded (Process.Allowed S calls) (ProcStep pf)) (.start w) as t) :
    ∃ bs u, Run (Guarded (Journal.Allowed calls) (JournalStep pf)) (.blank S w) bs u ∧ Refines pf S t u := by
  induction hrun with
  | nil => exact ⟨[], _, .nil, start_ok w, rfl, fun _ => rfl, fun _ => rfl, by simp [Process.start, Registry.start], fun _ _ => rfl⟩
  | snoc _ hst ih =>
    obtain ⟨bs, u, hu, href⟩ := ih
    obtain ⟨cs, u', hu', href'⟩ := refines_step href hS hst
    exact ⟨bs ++ cs, u', hu.append hu', href'⟩

/-- **Every run of a process is a run of the journal of its files**: with the same bytes in every file, flushed or
buffered, the same backups and the same records given; and if no call of the one fails, none of the other does. -/
theorem process_refines {w : World} (hS : [] ∉ S) {as : List ProcAct}
    (hrun : Run (Guarded (Process.Allowed S calls) (ProcStep pf)) (.start w) as t) :
    ∃ bs u, Run (Guarded (Journal.Allowed calls) (JournalStep pf)) (.blank S w) bs u ∧ u.world = t.reg.world ∧
      ∀ p : S, (u.log p).path = p ∧ u.given p = t.given p ∧ (u.log p).written pf u.world = t.reg.written pf p := by
  obtain ⟨bs, u, hu, href⟩ := refines_run hS hrun
  exact ⟨bs, u, hu, href.world, fun p => ⟨href.path p, href.given p, (href.written p).symm⟩⟩

/-- **Whole records, whoever logs**: where no file of `S` is the log or the backup of another and nothing fails, every
log of a process is made of the newest of the records its file was given, across all instances the file had. -/
theorem process_whole_records {w : World} (hS : [] ∉ S) (hapart : FilesApart pf fun p : S => Logger.new p)
    {as : List ProcAct} (hrun : Run (Guarded (Process.Allowed S True) (ProcStep pf)) (.start w) as t) (p : S) :
    (∃ rs, rs <:+ w.content (resolve pf p) :: t.given p ∧ t.reg.written pf p = rs.flatten) ∧
      (t.reg.world.content (resolve pf (p ++ dot1)) = w.content (resolve pf (p ++ dot1)) ∨
        ∃ rs n, rs <:+: w.content (resolve pf p) :: t.given p ∧ kMinLogSize ≤ n ∧
          t.reg.world.content (resolve pf (p ++ dot1)) = rs.flatten.take n) := by
  obtain ⟨bs, u, hu, href⟩ := refines_run hS hrun
  have hrun' : Run (Guarded Journal.Ok (JournalStep pf)) (.blank S w) bs u := hu.mono fun _ _ _ h => ⟨h.1 trivial, h.2⟩
  have hwhole := journal_whole hapart (fun _ => .inl rfl) hrun' p
  have hfirst : (Logger.new p).written pf w = w.content (resolve pf p) := by
    unfold Logger.written
    exact List.append_nil _
  rw [hfirst, href.given p] at hwhole
  refine ⟨?_, ?_⟩
  · rw [href.written p]
    exact hwhole.live
  · have hbackup := hwhole.backup
    have hname : (u.log p).name1 pf = resolve pf (p ++ dot1) := by rw [Logger.name1, href.path p]
    change u.world.content ((u.log p).name1 pf) = _ ∨
      ∃ rs n, _ ∧ _ ∧ u.world.content ((u.log p).name1 pf) = _ at hbackup
    rw [hname, href.world] at hbackup
    exact hbackup

end

/-- A logger for `a` is made, opened and given a text, which is released and made again. -/
def firstActs : List ProcAct :=
  [.insert .ok .unchange .file (str "a"), .piece (str "a") (.reset false .ok), .piece (str "a") wholeText,
    .releaseLogger .ok (str "a"), .insert .ok .unchange .file (str "a")]

def firstProcess : Process := firstActs.foldl (Process.act plain) (.start (oneFile []))

theorem firstProcess_run :
    ∃ as, Run (Guarded (Process.Allowed {str "a"} True) (ProcStep plain)) (.start (oneFile [])) as firstProcess := by
  have hmade : Run (Guarded (Process.Allowed {str "a"} True) (ProcStep plain)) (.start (oneFile [])) _ _ :=
    Run.single (a := ProcAct.insert .ok .unchange .file (str "a")) ⟨⟨rfl, fun _ => .inl rfl⟩, rfl⟩
  have hopened := hmade.snoc (a := ProcAct.piece (str "a") (.reset false .ok)) ⟨⟨rfl, fun _ _ _ => .inl rfl⟩, rfl⟩
  have hlen : (str "xy").length ≤ 8192 := by decide
  have hgiven := hopened.snoc (a := ProcAct.piece (str "a") wholeText) ⟨⟨rfl, fun _ _ _ => hlen⟩, rfl⟩
  have hreleased := hgiven.snoc (a := ProcAct.releaseLogger .ok (str "a")) ⟨⟨rfl, fun _ => .inl rfl⟩, rfl⟩
  exact ⟨_, hreleased.snoc (a := ProcAct.insert .ok .unchange .file (str "a")) ⟨⟨rfl, fun _ => .inl rfl⟩, rfl⟩⟩

theorem process_refines_first : ∃ bs u,
    Run (Guarded (Journal.Allowed True) (JournalStep plain)) (.blank {str "a"} (oneFile [])) bs u ∧
      u.world = firstProcess.reg.world ∧ ∀ p : ({str "a"} : Set Str), (u.log p).path = p ∧
        u.given p = firstProcess.given p ∧
        (u.log p).written plain u.world = firstProcess.reg.written plain p := by
  obtain ⟨as, hrun⟩ := firstProcess_run
  exact process_refines (by decide) hrun

theorem process_whole_records_first :
    (∃ rs, rs <:+ (oneFile []).content (resolve plain (str "a")) :: firstProcess.given (str "a") ∧
        firstProcess.reg.written plain (str "a") = rs.flatten) ∧
      (firstProcess.reg.world.content (resolve plain (str "a" ++ dot1)) =
          (oneFile []).content (resolve plain (str "a" ++ dot1)) ∨
        ∃ rs n, rs <:+: (oneFile []).content (resolve plain (str "a")) :: firstProcess.given (str "a") ∧
          kMinLogSize ≤ n ∧
          firstProcess.reg.world.content (resolve plain (str "a" ++ dot1)) = rs.flatten.take n) := by
  obtain ⟨as, hrun⟩ := firstProcess_run
  have hsame : ∀ i j : ({str "a"} : Set Str), j = i := fun i j => Subtype.ext (j.2.trans i.2.symm)
  exact process_whole_records (by decide) ⟨fun i j h => absurd (hsame i j) h, fun i j h => absurd (hsame i j) h⟩ hrun
    ⟨str "a", rfl⟩

end CtiLog
