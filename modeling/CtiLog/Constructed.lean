import CtiLog.NoHole
/-
# A logger constructed with output to the file

`Logger(path, outputs, maxSize, trunc)` calls `reset` and `shrinkToFit` before it stores `outputs`: `reset` finds the
default outputs, has no stream to close and reports success. The log is not opened and not truncated. A logger that is
set up by its setters in the same order opens it.

| here | there |
| --- | --- |
| `construct` | `Logger::Logger` (log.cpp:79) |
| `configure` | a logger of the default arguments, then `setMaxSize`, `setOutputs`, `reset`, `shrinkToFit` |
| `SameState` | fields, stream and file content |

* `configure_opens` — the setters open the log, empty it if `trunc`, and check its size.
* `construct_never_configured` — the constructor never gets there.
-/

namespace CtiLog

open Rotating

namespace Logger

def configure (pf : Platform) (io : CtorIO) (path : Str) (outputs : Outputs) (maxSize : BitVec 32) (trunc : Bool)
    (w : World) : Logger × World :=
  let (l, w) := construct pf io path .none (-1) false w
  let l := (l.setMaxSize maxSize).setOutputs outputs
  let (_, l, w) := l.reset pf trunc io.reset w
  l.shrinkToFit pf io.fit w

/-- Every system call of `configure` succeeds. -/
structure CtorIO.Ok (pf : Platform) (io : CtorIO) (path : Str) (outputs : Outputs) (maxSize : BitVec 32) (trunc : Bool)
    (w : World) : Prop where
  reset : 0 ≤ ((((Logger.new path).setMaxSize maxSize).setOutputs outputs).reset pf trunc io.reset w).1
  fit : io.fit.Ok

end Logger

/-- Two loggers and their worlds, but for which `FILE*` a stream is. -/
structure SameState (a b : Logger × World) : Prop where
  fields : { a.1 with log := none } = { b.1 with log := none }
  stream : a.1.log.map (fun s => (s.name, s.buf)) = b.1.log.map (fun s => (s.name, s.buf))
  content : ∀ n, a.2.content n = b.2.content n

section
variable {pf : Platform} {io : Logger.CtorIO} {path : Str} {outputs : Outputs} {maxSize : BitVec 32} {trunc : Bool}
  {w : World}

/-- The default arguments store nothing. -/
theorem construct_default (pf : Platform) (io : Logger.CtorIO) (path : Str) (w : World) :
    Logger.construct pf io path .none (-1) false w = (Logger.new path, w) := by
  have hneg : ¬ 0 ≤ (-1 : BitVec 32).toInt := by decide
  rw [construct_eq, if_pos rfl, Logger.setMaxSize, dif_neg hneg]

/-- **The setters open the log**, empty if `trunc`, and check its size. -/
theorem configure_opens (hpath : path ≠ []) (hout : outputs.testFlag .file = true)
    (hio : io.Ok pf path outputs maxSize trunc w) :
    ∃ m s w', Logger.configure pf io path outputs maxSize trunc w =
        ({ Logger.new path with maxSize := m, outputs := outputs, log := some s }, w') ∧
      Open pf { Logger.new path with maxSize := m, outputs := outputs, log := some s } s w' ∧
      ({ Logger.new path with maxSize := m, outputs := outputs, log := some s } : Logger).tape pf w' =
        Tape.fit ⟨if trunc then [] else w.content (resolve pf path), [], w.content (resolve pf (path ++ dot1))⟩ m.bytes := by
  obtain ⟨m, hm⟩ := setMaxSize_settings maxSize (Logger.new path)
  have hreset := hio.reset
  unfold Logger.configure
  rw [construct_default]
  dsimp only
  rw [hm] at hreset ⊢
  obtain ⟨s₁, w₁, hr, hopen₁, htape₁, -⟩ :=
    @reset_opens pf (({ Logger.new path with maxSize := m } : Logger).setOutputs outputs) w trunc io.reset hpath hout rfl
      hreset
  obtain ⟨s₂, w₂, hf, hopen₂, htape₂, -⟩ := shrinkToFit_tape hio.fit hpath hopen₁
  rw [hr]
  exact ⟨m, s₂, w₂, hf, hopen₂, htape₂.trans (congrArg (fun t => Tape.fit t m.bytes) htape₁)⟩

/-- So a log configured with `trunc` starts empty. -/
theorem configure_empty (hpath : path ≠ []) (hout : outputs.testFlag .file = true)
    (hio : io.Ok pf path outputs maxSize true w) :
    (Logger.configure pf io path outputs maxSize true w).2.content (resolve pf path) = [] := by
  obtain ⟨m, s, w', hc, -, htape⟩ := configure_opens hpath hout hio
  rw [Tape.fit_of_le _ _ (Nat.zero_le _)] at htape
  rw [hc]
  exact congrArg Tape.disk htape

/-- **The constructor is never the setters**: it leaves the log closed and every file as it was. -/
theorem construct_never_configured (hpath : path ≠ []) (hout : outputs.testFlag .file = true)
    (hio : io.Ok pf path outputs maxSize trunc w) :
    ¬ SameState (Logger.construct pf io path outputs maxSize trunc w)
        (Logger.configure pf io path outputs maxSize trunc w) ∧
      (Logger.construct pf io path outputs maxSize trunc w).1.log = none ∧
      (Logger.construct pf io path outputs maxSize trunc w).2 = w := by
  have hclosed := @construct_closed pf io path outputs maxSize trunc w
  obtain ⟨m, s, w', hc, -, -⟩ := configure_opens hpath hout hio
  refine ⟨fun hsame => ?_, hclosed, by rw [construct_eq]⟩
  have hstream := hsame.stream
  rw [hclosed, hc] at hstream
  cases hstream

end

/-! ## An old log -/

def ctorOk : Logger.CtorIO := ⟨.ok, .ok⟩

/-- All goes well for a log `a` that is there, truncated or not. -/
theorem ctorOk_ok (trunc : Bool) : ctorOk.Ok plain (str "a") .file 8192 trunc (oneFile (str "old")) where
  reset := by cases trunc <;> decide
  fit := ShrinkIO.ok_ok

/-- The constructor, and the setters, with a log `a` of three bytes. -/
def constructedOld (trunc : Bool) : Logger × World :=
  Logger.construct plain ctorOk (str "a") .file 8192 trunc (oneFile (str "old"))

def configuredOld (trunc : Bool) : Logger × World :=
  Logger.configure plain ctorOk (str "a") .file 8192 trunc (oneFile (str "old"))

theorem construct_never_configured_old :
    ¬ SameState (constructedOld false) (configuredOld false) ∧ (constructedOld false).1.log = none ∧
      (constructedOld false).2 = oneFile (str "old") :=
  construct_never_configured (by decide) (by decide) (ctorOk_ok false)

/-- **An old log is kept** by the constructor that is told to truncate it; the setters empty and open it. -/
theorem old_log_kept :
    (constructedOld true).1.log = none ∧ (constructedOld true).2.content [str "a"] = str "old" ∧
      (configuredOld true).1.log ≠ none ∧ (configuredOld true).2.content [str "a"] = [] ∧
      ¬ SameState (constructedOld true) (configuredOld true) := by
  have hempty : (configuredOld true).2.content [str "a"] = [] :=
    configure_empty (by decide) (by decide) (ctorOk_ok true)
  obtain ⟨m, s, w', hc, -⟩ := configure_opens (by decide) (by decide) (ctorOk_ok true)
  have hopen : (configuredOld true).1.log = some s := congrArg (fun r => r.1.log) hc
  have hold : (constructedOld true).2.content [str "a"] = str "old" := by
    unfold constructedOld
    rw [construct_eq]
    rfl
  refine ⟨construct_closed _ _ _ _ _ _, hold, by simp [hopen], hempty, fun hsame => ?_⟩
  have hcontent := hsame.content [str "a"]
  rw [hold, hempty] at hcontent
  exact absurd hcontent (by decide)

end CtiLog
