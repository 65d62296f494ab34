import CtiLog.Scopes
/-
# The locks of `Logger` and `File`

What every operation does with the six kinds of locks. A branch on anything else goes either way
(`maybe` is an early exit), a loop runs any number of times; the local `File`s of `shrinkToFit`, the logger
that `getLogger` makes and the one it replaces may be any. Callbacks of the user are `user`: they may
call all of this again.

| here | there |
| --- | --- |
| `open_`, `close`, `setFilename`           | `File::open` (file.cpp:562), `::close` (:620), `::setFilename` (:369) |
| `look`                                    | a copy of `fd` and `filename`; `isDirectory`, `isOpen`, `size` (:385-416) |
| `seek`                                    | `ioPostion`, `ioRestPostion`, `jump2Begin`, `jump2Offset`, `rjump2Offset` (:442-556) |
| `rounds`                                  | the do-while loop of a transfer, with its callback |
| `read`, `readCb`, `traverse`, `write`     | :637, :862, :736, the four from :983 on |
| `finish`, `reset`, `shrinkToFit`          | log.cpp:97, :136, :580 |
| `append5`, `append2`, `tryDoAcCb`         | `Logger::append` (:191, :336), `::tryDoAcCb` (:428) |
| `construct`, `getLogger`, `releaseLogger` | :80, :43, :74 |
| `readFilters`, `writeFilters`             | :447-482 |

Locks nest in one order: `instancesRwlock`, `writemutex`, `filenameRwlock`, `fdRwlock`, `ioMutex`.
-/

namespace CtiLog

open Runs Locks

/-- The locks of `File` objects `F` and loggers `G`. -/
inductive LogLock (F G : Type*) where
  | instancesRwlock
  | writemutex (g : G)
  | acNameFiltersRwlock (g : G)
  | filenameRwlock (f : F)
  | fdRwlock (f : F)
  | ioMutex (f : F)

/-- `acNameFiltersRwlock` is taken alone. -/
def LogLock.rank {F G : Type*} : LogLock F G → Nat
  | .instancesRwlock => 0
  | .acNameFiltersRwlock _ => 0
  | .writemutex _ => 1
  | .filenameRwlock _ => 2
  | .fdRwlock _ => 3
  | .ioMutex _ => 4

namespace Locking

variable {F G : Type*}

/-! ## `File` -/

/-- Exclusive io. -/
def io (f : F) : Script (LogLock F G) := .lock .mutex (.ioMutex f) .skip

def open_ (f : F) : Script (LogLock F G) := .lock .write (.fdRwlock f) (io f).maybe

/-- Also the destructor. -/
def close (f : F) : Script (LogLock F G) := .lock .write (.fdRwlock f) (io f).maybe

def setFilename (f : F) : Script (LogLock F G) := .lock .write (.filenameRwlock f) (close f).maybe

def look (f : F) : Script (LogLock F G) := .lock .read (.fdRwlock f) .skip

def seek (f : F) : Script (LogLock F G) := .lock .read (.fdRwlock f) (io f).maybe

/-- Whole rounds, and a last one that may be left early. -/
def rounds (f : F) (callback : Script (LogLock F G)) : Script (LogLock F G) :=
  (Script.loop ((look f).seq ((io f).seq callback))).seq ((look f).seq ((io f).seq callback.maybe).maybe)

def read (f : F) : Script (LogLock F G) :=
  ((look f).seq ((look f).seq (io f).maybe).maybe).maybe

def traverse (f : F) (didRead : Script (LogLock F G)) : Script (LogLock F G) :=
  ((look f).seq (rounds f didRead).maybe).maybe

/-- The exit path moves the descriptor. -/
def readCb (f : F) (didRead : Script (LogLock F G)) : Script (LogLock F G) :=
  ((look f).seq ((rounds f didRead).maybe.seq (seek f))).maybe

/-- All overloads; without a callback it is `skip`. -/
def write (f : F) (didWrote : Script (LogLock F G)) : Script (LogLock F G) :=
  ((look f).seq (rounds f didWrote).maybe).maybe

/-! ## `Logger` -/

def finish (g : G) : Script (LogLock F G) := (Script.lock .mutex (.writemutex g) .skip).maybe

def reset (g : G) : Script (LogLock F G) :=
  (Script.alt (finish g) (.lock .mutex (.writemutex g) .skip)).maybe

/-- `currentLog` and `tmpFile` are closed by their destructors once more, still under `writemutex`. -/
def shrinkToFit (g : G) (currentLog tmpFile : F) : Script (LogLock F G) :=
  let copy := (traverse currentLog (write tmpFile .skip)).seq ((close currentLog).seq (close tmpFile))
  let withTmp := ((open_ tmpFile).seq copy.maybe).seq (close tmpFile)
  let withLog := ((open_ currentLog).seq ((seek currentLog).seq withTmp).maybe).seq (close currentLog)
  (Script.lock .mutex (.writemutex g) withLog.maybe).maybe

def tryDoAcCb (g : G) : Script (LogLock F G) :=
  ((Script.lock .read (.acNameFiltersRwlock g) .skip).seq Script.user.maybe).maybe

def append5 (g : G) (currentLog tmpFile : F) : Script (LogLock F G) :=
  let fit := shrinkToFit g currentLog tmpFile
  let write := (Script.lock .mutex (.writemutex g) .skip).seq ((Script.alt (reset g) fit.maybe).seq (tryDoAcCb g))
  (Script.alt write ((reset g).seq (Script.alt write (fit.seq write)).maybe)).maybe

def append2 (g : G) : Script (LogLock F G) :=
  ((Script.lock .mutex (.writemutex g) .skip).seq (tryDoAcCb g).maybe).maybe

/-- The constructor. -/
def construct (g : G) (currentLog tmpFile : F) : Script (LogLock F G) :=
  ((reset g).seq (shrinkToFit g currentLog tmpFile).maybe).maybe

/-- The `new` logger is made, and the `old` one of that name dies, under `instancesRwlock`. -/
def getLogger (new old : G) (currentLog tmpFile : F) : Script (LogLock F G) :=
  (Script.lock .read .instancesRwlock .skip).seq
    (Script.lock .write .instancesRwlock ((construct new currentLog tmpFile).seq (finish old).maybe)).maybe

def releaseLogger (g : G) : Script (LogLock F G) := .lock .write .instancesRwlock (finish g).maybe

/-- `getAcNameFilters`, `hasAcNameFilter`. -/
def readFilters (g : G) : Script (LogLock F G) := .lock .read (.acNameFiltersRwlock g) .skip

/-- `addAcNameFilter`, `removeAcNameFilter`, `clearAcNameFilters`. -/
def writeFilters (g : G) : Script (LogLock F G) := .lock .write (.acNameFiltersRwlock g) .skip

end Locking

/-- The operations, with the objects they are called on. -/
inductive LogOp (F G : Type*) where
  | getLogger (new old : G) (currentLog tmpFile : F)
  | releaseLogger (g : G)
  | append5 (g : G) (currentLog tmpFile : F)
  | append2 (g : G)
  | reset (g : G)
  | shrinkToFit (g : G) (currentLog tmpFile : F)
  | finish (g : G)
  | getAcNameFilters (g : G)
  | hasAcNameFilter (g : G)
  | addAcNameFilter (g : G)
  | removeAcNameFilter (g : G)
  | clearAcNameFilters (g : G)
  | open_ (f : F)
  | close (f : F)
  | setFilename (f : F)
  | isDirectory (f : F)
  | isOpen (f : F)
  | size (f : F)
  | ioPostion (f : F)
  | ioRestPostion (f : F)
  | jump2Begin (f : F)
  | jump2Offset (f : F)
  | rjump2Offset (f : F)
  | read (f : F)
  | readCb (f : F)
  | write (f : F)
  | writeCb (f : F)
  | traverse (f : F)

open Locking in
def LogOp.script {F G : Type*} : LogOp F G → Script (LogLock F G)
  | .getLogger new old currentLog tmpFile => Locking.getLogger new old currentLog tmpFile
  | .releaseLogger g => Locking.releaseLogger g
  | .append5 g currentLog tmpFile => Locking.append5 g currentLog tmpFile
  | .append2 g => Locking.append2 g
  | .reset g => Locking.reset g
  | .shrinkToFit g currentLog tmpFile => Locking.shrinkToFit g currentLog tmpFile
  | .finish g => Locking.finish g
  | .getAcNameFilters g | .hasAcNameFilter g => readFilters g
  | .addAcNameFilter g | .removeAcNameFilter g | .clearAcNameFilters g => writeFilters g
  | .open_ f => Locking.open_ f
  | .close f => Locking.close f
  | .setFilename f => Locking.setFilename f
  | .isDirectory f | .isOpen f | .size f => look f
  | .ioPostion f | .ioRestPostion f | .jump2Begin f | .jump2Offset f | .rjump2Offset f => seek f
  | .read f => Locking.read f
  | .readCb f => Locking.readCb f .user
  | .write f => Locking.write f .skip
  | .writeCb f => Locking.write f .user
  | .traverse f => Locking.traverse f .user

/-! ## The order -/

section
variable {F G : Type*} {n : Nat}

namespace Locking

theorem io_ordered (f : F) (h : n ≤ 4) : (io f : Script (LogLock F G)).Ordered LogLock.rank n := .empty h

theorem look_ordered (f : F) (h : n ≤ 3) : (look f : Script (LogLock F G)).Ordered LogLock.rank n := .empty h

theorem open_ordered (f : F) (h : n ≤ 3) : (open_ f : Script (LogLock F G)).Ordered LogLock.rank n :=
  .lock h (io_ordered f le_rfl).maybe

theorem close_ordered (f : F) (h : n ≤ 3) : (close f : Script (LogLock F G)).Ordered LogLock.rank n :=
  .lock h (io_ordered f le_rfl).maybe

theorem seek_ordered (f : F) (h : n ≤ 3) : (seek f : Script (LogLock F G)).Ordered LogLock.rank n :=
  .lock h (io_ordered f le_rfl).maybe

theorem setFilename_ordered (f : F) (h : n ≤ 2) : (setFilename f : Script (LogLock F G)).Ordered LogLock.rank n :=
  .lock h (close_ordered f le_rfl).maybe

theorem read_ordered (f : F) (h : n ≤ 3) : (read f : Script (LogLock F G)).Ordered LogLock.rank n := by
  have hlook := look_ordered (G := G) f h
  have hio := io_ordered (G := G) f (h.trans (by decide))
  exact (hlook.seq (hlook.seq hio.maybe).maybe).maybe

section
variable {callback : Script (LogLock F G)} (f : F)

/-- The callback runs with the locks of the caller only. -/
theorem rounds_ordered (hcb : callback.Ordered LogLock.rank n) (h : n ≤ 3) :
    (rounds f callback).Ordered LogLock.rank n := by
  have hlook := look_ordered (G := G) f h
  have hio := io_ordered (G := G) f (h.trans (by decide))
  have hwhole := (hlook.seq (hio.seq hcb)).loop
  have hlast := hlook.seq (hio.seq hcb.maybe).maybe
  exact hwhole.seq hlast

theorem traverse_ordered (hcb : callback.Ordered LogLock.rank n) (h : n ≤ 3) :
    (traverse f callback).Ordered LogLock.rank n :=
  ((look_ordered f h).seq (rounds_ordered f hcb h).maybe).maybe

theorem write_ordered (hcb : callback.Ordered LogLock.rank n) (h : n ≤ 3) :
    (write f callback).Ordered LogLock.rank n :=
  ((look_ordered f h).seq (rounds_ordered f hcb h).maybe).maybe

theorem readCb_ordered (hcb : callback.Ordered LogLock.rank n) (h : n ≤ 3) :
    (readCb f callback).Ordered LogLock.rank n :=
  ((look_ordered f h).seq ((rounds_ordered f hcb h).maybe.seq (seek_ordered f h))).maybe

end

section
variable (g : G) (currentLog tmpFile : F)

/-- A section of `writemutex` that takes no other lock. -/
theorem writemutex_ordered (h : n ≤ 1) :
    (.lock .mutex (.writemutex g) .skip : Script (LogLock F G)).Ordered LogLock.rank n := .empty h

theorem finish_ordered (h : n ≤ 1) : (finish g : Script (LogLock F G)).Ordered LogLock.rank n :=
  (writemutex_ordered g h).maybe

theorem reset_ordered (h : n ≤ 1) : (reset g : Script (LogLock F G)).Ordered LogLock.rank n :=
  ((finish_ordered g h).alt (writemutex_ordered g h)).maybe

/-- The two local `File`s are locked one after the other, never inside each other. -/
theorem shrinkToFit_ordered (h : n ≤ 1) : (shrinkToFit g currentLog tmpFile).Ordered LogLock.rank n := by
  have hopen (f : F) := open_ordered (G := G) (n := 2) f (by decide)
  have hclose (f : F) := close_ordered (G := G) (n := 2) f (by decide)
  have hseek := seek_ordered (G := G) (n := 2) currentLog (by decide)
  have hwrite : (write tmpFile .skip : Script (LogLock F G)).Ordered LogLock.rank 2 :=
    write_ordered tmpFile trivial (by decide)
  have hcopy := (traverse_ordered currentLog hwrite (by decide)).seq ((hclose currentLog).seq (hclose tmpFile))
  have htmp := ((hopen tmpFile).seq hcopy.maybe).seq (hclose tmpFile)
  have hlog := ((hopen currentLog).seq (hseek.seq htmp).maybe).seq (hclose currentLog)
  exact Script.Ordered.maybe (.lock h hlog.maybe)

/-- The callback of the user is called with no lock held. -/
theorem tryDoAcCb_ordered : (tryDoAcCb g : Script (LogLock F G)).Ordered LogLock.rank 0 := by
  have hac : (.user : Script (LogLock F G)).Ordered LogLock.rank 0 := rfl
  have hfilter : (.lock .read (.acNameFiltersRwlock g) .skip : Script (LogLock F G)).Ordered LogLock.rank 0 :=
    .empty le_rfl
  exact (hfilter.seq hac.maybe).maybe

theorem append5_ordered : (append5 g currentLog tmpFile).Ordered LogLock.rank 0 := by
  have hreset := reset_ordered (F := F) (n := 0) g (by decide)
  have hfit := shrinkToFit_ordered (n := 0) g currentLog tmpFile (by decide)
  have hlock := writemutex_ordered (F := F) (n := 0) g (by decide)
  have hwrite := hlock.seq ((hreset.alt hfit.maybe).seq (tryDoAcCb_ordered g))
  exact (hwrite.alt (hreset.seq (hwrite.alt (hfit.seq hwrite)).maybe)).maybe

theorem append2_ordered : (append2 g : Script (LogLock F G)).Ordered LogLock.rank 0 :=
  ((writemutex_ordered g (by decide)).seq (tryDoAcCb_ordered g).maybe).maybe

theorem getLogger_ordered (new old : G) : (getLogger new old currentLog tmpFile).Ordered LogLock.rank 0 := by
  have hnew : (construct new currentLog tmpFile).Ordered LogLock.rank 1 :=
    ((reset_ordered new le_rfl).seq (shrinkToFit_ordered new currentLog tmpFile le_rfl).maybe).maybe
  have hmake := hnew.seq (finish_ordered old le_rfl).maybe
  have hfound : (.lock .read .instancesRwlock .skip : Script (LogLock F G)).Ordered LogLock.rank 0 := .empty le_rfl
  exact hfound.seq (Script.Ordered.maybe (.lock le_rfl hmake))

end

end Locking

open Locking in
/-- Every operation takes its locks in order. -/
theorem script_ordered (o : LogOp F G) : o.script.Ordered LogLock.rank 0 := by
  cases o with
  | getLogger new old currentLog tmpFile => exact getLogger_ordered currentLog tmpFile new old
  | releaseLogger g => exact .lock le_rfl (finish_ordered g le_rfl).maybe
  | append5 g currentLog tmpFile => exact append5_ordered g currentLog tmpFile
  | append2 g => exact append2_ordered g
  | reset g => exact reset_ordered g (by decide)
  | shrinkToFit g currentLog tmpFile => exact shrinkToFit_ordered g currentLog tmpFile (by decide)
  | finish g => exact finish_ordered g (by decide)
  | getAcNameFilters g => exact .empty le_rfl
  | hasAcNameFilter g => exact .empty le_rfl
  | addAcNameFilter g => exact .empty le_rfl
  | removeAcNameFilter g => exact .empty le_rfl
  | clearAcNameFilters g => exact .empty le_rfl
  | open_ f => exact open_ordered f (by decide)
  | close f => exact close_ordered f (by decide)
  | setFilename f => exact setFilename_ordered f (by decide)
  | isDirectory f => exact look_ordered f (by decide)
  | isOpen f => exact look_ordered f (by decide)
  | size f => exact look_ordered f (by decide)
  | ioPostion f => exact seek_ordered f (by decide)
  | ioRestPostion f => exact seek_ordered f (by decide)
  | jump2Begin f => exact seek_ordered f (by decide)
  | jump2Offset f => exact seek_ordered f (by decide)
  | rjump2Offset f => exact seek_ordered f (by decide)
  | read f => exact read_ordered f (by decide)
  | readCb f => exact readCb_ordered f rfl (by decide)
  | write f => exact write_ordered f trivial (by decide)
  | writeCb f => exact write_ordered f rfl (by decide)
  | traverse f => exact traverse_ordered f rfl (by decide)

theorem rank_le (l : LogLock F G) : l.rank ≤ 4 := by
  cases l <;> simp [LogLock.rank]

end

/-! ## No deadlock -/

section
variable {F G τ : Type*} [DecidableEq τ] {s : τ → List (Item (LogLock F G))} {as : List τ}

/-- What any number of threads does that call the operations. -/
abbrev logThreads (F G : Type*) : Machine (List (Item (LogLock F G))) (LogLock F G) :=
  machine (LogOp.script : LogOp F G → _)

/-- **Logger and File operations cannot deadlock**, and no thread asks for a lock it holds, but to
convert its own upgrade lock. -/
theorem no_lock_deadlock (h : Run (logThreads F G).Step start as s) :
    ¬ (logThreads F G).Deadlocked s ∧
      ∀ t l w d, (logThreads F G).wants (s t) = some (l, w) → (logThreads F G).holds (s t) l d →
        w = .convert ∧ d = .upgrade :=
  ⟨not_deadlocked_of_ordered 4 rank_le script_ordered h, fun _ _ _ _ => not_held_of_wants script_ordered h⟩

/-- One thread is closing a `File` when another one asks for its size. -/
theorem no_lock_deadlock_two : ∃ s : Bool → List (Item (LogLock Unit Unit)),
    Run (logThreads Unit Unit).Step start [false, false, false, true] s ∧
      (logThreads Unit Unit).Waits s true false ∧ ¬ (logThreads Unit Unit).Deadlocked s := by
  let fd : LogLock Unit Unit := .fdRwlock ()
  let s1 := Function.update start false [.run (Locking.close ()), .run (Script.user : Script (LogLock Unit Unit))]
  let s2 := Function.update s1 false [.convert fd (Locking.io ()).maybe, .unlock fd .upgrade, .run .user]
  let s3 := Function.update s2 false [.run (Locking.io ()).maybe, .downgrade fd, .run .user]
  let s4 := Function.update s3 true [.run (Locking.look ()), .run .user]
  have hclose : (logThreads Unit Unit).Step start false s1 :=
    ⟨_, @Move.call _ _ LogOp.script (.close ()) [], Machine.not_waits_of_wants rfl, rfl⟩
  have hupgrade : (logThreads Unit Unit).Step s1 false s2 := by
    refine ⟨_, Move.write, ?_, rfl⟩
    rintro u ⟨l, w, h, -, hl, -⟩
    cases u <;> simp [machine, s1, start] at hl
  have hconvert : (logThreads Unit Unit).Step s2 false s3 := by
    refine ⟨_, Move.convert, ?_, rfl⟩
    rintro u ⟨l, w, h, hw, hl, hb⟩
    obtain ⟨rfl, rfl⟩ : l = fd ∧ w = .convert := by cases hw; exact ⟨rfl, rfl⟩
    cases u <;> simp [machine, s2, s1, start] at hl
    subst hl
    cases hb
  have hsize : (logThreads Unit Unit).Step s3 true s4 :=
    ⟨_, @Move.call _ _ LogOp.script (.size ()) [], Machine.not_waits_of_wants rfl, rfl⟩
  have hrun := (((Run.single hclose).snoc hupgrade).snoc hconvert).snoc hsize
  have hwaits : (logThreads Unit Unit).Waits s4 true false :=
    ⟨fd, .shared, .unique, rfl, ⟨.downgrade fd, by simp [s4, s3], rfl, rfl⟩, rfl⟩
  exact ⟨s4, hrun, hwaits, (no_lock_deadlock hrun).1⟩

/-- Some thread can go on, unless all have returned. -/
theorem lock_progress (h : Run (logThreads F G).Step start as s) {t : τ} (ht : s t ≠ []) :
    ∃ t s', (logThreads F G).Step s t s' :=
  progress (inOrder_of_run script_ordered h) (not_deadlocked_of_ordered 4 rank_le script_ordered h) ht

end

end CtiLog
