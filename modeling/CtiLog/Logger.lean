import CtiLog.File
/-
# `Logger`

One logger and its operations. Each system call of an operation has its own outcome, named by its
place in the code, so an operation is a function of the logger, the `World` and one record of
outcomes.

| here | there |
| --- | --- |
| `LogLevel`                                | loglevel.hpp:18 |
| `Outputs`, `testFlag`                     | `Flags<Output>` (flags.hpp:65, :162), log.hpp:37-44 |
| `LogSize`, `setMaxSize`                   | `maxSize` and its setter (log.cpp:126) |
| `finish`, `reset`                         | log.cpp:97, :136 |
| `shrinkToFit`                             | log.cpp:580; `copyLog` :603-636, `replaceLog` :637-655 |
| `append5` = `enter`, `countRecord`, `writeRecord`, `settle`, `tryDoAcCb` | `append(name, file, line, msg, logLevel)` (log.cpp:191) |
| `append2`                                 | `append(msg, logLevel)` (log.cpp:336) |
| `construct`                               | `Logger::Logger` (log.cpp:79) |

No result of the console is read, so what it shows is left out, and so is the text of the diagnostics.
-/

namespace CtiLog

/-! ## Levels, outputs, sizes -/

/-- `enum class LogLevel: uint32_t`; casts make values without a name. -/
structure LogLevel where
  val : UInt32
deriving DecidableEq, Repr

namespace LogLevel

def fata : LogLevel := ⟨0⟩
def erro : LogLevel := ⟨1⟩
def warn : LogLevel := ⟨2⟩
def note : LogLevel := ⟨3⟩
def info : LogLevel := ⟨4⟩
def trac : LogLevel := ⟨5⟩
def debu : LogLevel := ⟨6⟩
def deta : LogLevel := ⟨7⟩
def min : LogLevel := fata
def max : LogLevel := deta
def unchange : LogLevel := ⟨max.val + 2⟩

end LogLevel

/-- `logLevelToString` (log.cpp:659). -/
def logLevelToString (ll : LogLevel) : Str :=
  let name :=
    if ll = .fata then "Fata" else if ll = .erro then "Erro" else if ll = .warn then "Warn"
    else if ll = .note then "Note" else if ll = .info then "Info" else if ll = .trac then "Trac"
    else if ll = .debu then "Debu" else if ll = .deta then "Deta" else "(unknown)"
  str name ++ str "(" ++ str (toString ll.val.toNat) ++ str ")"

/-- `Flags<Output>`. -/
structure Outputs where
  i : BitVec 64
deriving DecidableEq, Repr

namespace Outputs

def none : Outputs := ⟨0⟩
def coutOrCerr : Outputs := ⟨1⟩
def file : Outputs := ⟨2⟩
def both : Outputs := ⟨3⟩

def testFlag (o f : Outputs) : Bool := (o.i &&& f.i) = f.i && (f.i ≠ 0 || o.i = f.i)

end Outputs

def kMinLogSize : Nat := 8192

/-- `maxSize`, a `uint32_t` that `setMaxSize(int32_t)` keeps within these bounds. -/
structure LogSize where
  bytes : Nat
  min_le : kMinLogSize ≤ bytes
  lt : bytes < 2 ^ 31

def kDefaultLogSize : LogSize := ⟨8 * 32 * 1024 * 1024, by decide, by decide⟩

/-! ## State -/

structure Logger where
  path : Str
  logLevel : LogLevel
  spinOnceLogLevel : LogLevel
  log : Option Stream
  outputs : Outputs
  maxSize : LogSize
  hasIdx : Bool
  hasTid : Bool
  /-- A callback is set. -/
  appendCallback : Bool
  acNameFilters : List Str

/-- The default member initialisers. -/
def Logger.new (path : Str) : Logger :=
  ⟨path, .note, .unchange, none, .coutOrCerr, kDefaultLogSize, true, false, false, []⟩

def kShrinkToFitInteval : Nat := 5
def kFlushInteval : Nat := 3

/-- `++kLogIdx`. -/
def nextIdx (k : Nat) : Nat := (k + 1) % 2 ^ 64

/-! ## Outcomes -/

/-- `::fflush` and `::fclose` of a stream that is closed. -/
structure FinishIO where
  flush : Flush
  close : Flush

structure ResetIO where
  finish : FinishIO
  mkdirs : Nat → DirIO
  /-- `errno` of a failed `fopen`. -/
  fopen : Option Nat

/-- One chunk of the copy: the `mmap`, the `::write`s of the chunk, and what `code` happens to hold
when `File::write` leaves its result unassigned. -/
structure ChunkIO where
  mmap : Option Nat
  write : Nat → Sys
  stale : Int

structure ShrinkIO where
  stat : Option Nat
  flush : Flush
  openLog : OpenIO
  statTmp : Option Nat
  remove : Option Nat
  openTmp : OpenIO
  fstat : Option Nat
  chunk : Nat → ChunkIO
  close : Flush
  fopen1 : Option Nat
  fopen2 : Option Nat

structure AppendIO where
  reset0 : ResetIO
  fit : ShrinkIO
  /-- `LogRealTime()`. -/
  time : Str
  /-- `::pthread_self()`. -/
  tid : Nat
  /-- What `ret` holds when no output assigns it. -/
  stale : Int
  line : Fwrite
  newline : Fwrite
  flush : Flush
  errno : Nat
  reset1 : ResetIO
  shrink : ShrinkIO

namespace Logger

/-- The log's directory entry. -/
def name (pf : Platform) (l : Logger) : Name := resolve pf l.path

/-- The entry of `path + ".1"`. -/
def name1 (pf : Platform) (l : Logger) : Name := resolve pf (l.path ++ dot1)

def setLogLevel (ll : LogLevel) (l : Logger) : Logger :=
  if LogLevel.min.val ≤ ll.val ∧ ll.val ≤ LogLevel.max.val then { l with logLevel := ll } else l

def toggleLogLevel (l : Logger) : Logger :=
  let lv := l.logLevel.val + 1
  { l with logLevel := if LogLevel.max.val < lv then .min else ⟨lv⟩ }

/-- `int32_t` argument. -/
def setMaxSize (maxSize : BitVec 32) (l : Logger) : Logger :=
  if h : 0 ≤ maxSize.toInt then
    if h' : maxSize.toInt.toNat < kMinLogSize then { l with maxSize := ⟨kMinLogSize, le_rfl, by decide⟩ }
    else { l with maxSize := ⟨maxSize.toInt.toNat, not_lt.1 h', by have := BitVec.toInt_lt (x := maxSize); omega⟩ }
  else l

def setOutputs (o : Outputs) (l : Logger) : Logger := { l with outputs := o }

/-! ## Closing and opening the stream -/

def closeLog (io : FinishIO) (l : Logger) (w : World) : Logger × World :=
  match l.log with
  | none => (l, w)
  | some s =>
    let (s, w) := s.fflush io.flush w
    ({ l with log := none }, s.fclose io.close w)

def finish (io : FinishIO) (l : Logger) (w : World) : Logger × World :=
  if l.path = [] then (l, w) else closeLog io l w

def reset (pf : Platform) (trunc : Bool) (io : ResetIO) (l : Logger) (w : World) : Int × Logger × World :=
  if l.path = [] then (-EPERM, l, w)
  else if !l.outputs.testFlag .file then (0, finish io.finish l w)
  else
    let (l, w) := closeLog io.finish l w
    -- a failure of `MkDirs` is only printed
    let w := (mkDirs pf (dirname l.path) io.mkdirs w).2
    match w.fopen (l.name pf) (if trunc then .wb else .ab) io.fopen with
    | (some s, w) => (0, { l with log := some s }, w)
    | (none, w) =>
      let e := io.fopen.getD EISDIR
      (-(if e = 0 then EACCES else e : Nat), l, w)

/-! ## Rotation -/

end Logger

/-- The file behind a descriptor, as `mmap` shows it. -/
def File.content (f : File) (w : World) : Str := f.ofd.elim [] fun d => (w.fs d.name).data d.gen

/-- Bytes accepted by a descriptor that stands at the end of its file. -/
def File.accept (f : File) (w : World) (bs : Str) : World := f.ofd.elim w fun d => w.put d.name d.gen bs

/-- The `::write` a loop's event stands for. -/
def Event.writeCall (n : Name) : Event → Option Call
  | .io _ _ res => some (.write n res)
  | _ => none

/-- State of the copy: the `code` the callback captures, and the chunk it is called for. -/
structure Copy where
  world : World
  code : Int
  chunk : Nat

/-- The callback of the copy (log.cpp:623). -/
def doWrite2Tmp (tmpFile : File) (n : Name) (io : Nat → ChunkIO) (c : Copy) (data : Str) : Bool × Copy :=
  let o := writeRaw tmpFile tmpFile.accept (some data) 0 ⟨fun _ => tmpFile.view, (io c.chunk).write⟩ c.world
  let code := o.ret.getD (io c.chunk).stale
  let w := { o.st with calls := o.st.calls ++ o.events.filterMap (Event.writeCall n) }
  (decide (code < 0), ⟨w, code, c.chunk + 1⟩)

/-- `currentLog.traverse(doWrite2Tmp, kBigPerReadBytes, maxSize)`. -/
def copyFile (pf : Platform) (io : ShrinkIO) (currentLog tmpFile : File) (n : Name) (maxSize : Nat) (code : Int)
    (w : World) : Outcome Copy :=
  traverse currentLog pf.pageBits (fun c => currentLog.content c.world) (doWrite2Tmp tmpFile n io.chunk) kBigPerReadBytes
    maxSize ⟨io.fstat, fun _ => currentLog.view, fun k => (io.chunk k).mmap⟩ ⟨w, code, 0⟩

namespace Logger

/-- From the opening of the log for reading to the closing of both files; the value of `code`. -/
def copyLog (pf : Platform) (io : ShrinkIO) (l : Logger) (w : World) : Int × World :=
  match (File.new l.path).open_ pf (.ofAccess O_RDONLY) io.openLog w with
  | (code, currentLog, w) =>
    if code < 0 then (code, w)
    else
      let tmpFilename := l.path ++ dot1
      -- a negative `IsExists`, an error, removes the file too
      let w := if isExists w (l.name1 pf) io.statTmp ≠ 0 then (removeFiles w (l.name1 pf) io.remove).2 else w
      match (File.new tmpFilename).open_ pf (.ofCreate O_RDWR 0o644) io.openTmp w with
      | (e, tmpFile, w) =>
        if e < 0 then (e, w)
        else
          let o := copyFile pf io currentLog tmpFile (l.name1 pf) l.maxSize.bytes code w
          -- `traverse` assigns the variable that the callback wrote to
          (o.ret.getD o.st.code, o.st.world)

/-- The stream is closed and the log opened empty; `fopen` is tried twice. -/
def replaceLog (pf : Platform) (io : ShrinkIO) (s : Stream) (l : Logger) (w : World) : Logger × World :=
  let w := s.fclose io.close w
  -- `fclose` of a stream that is gone: only the call is left
  let w := if io.close.fail.isSome then w.call (.fclose s.file) else w
  match w.fopen (l.name pf) .wb io.fopen1 with
  | (some s, w) => ({ l with log := some s }, w)
  | (none, w) =>
    match w.fopen (l.name pf) .wb io.fopen2 with
    | (some s, w) => ({ l with log := some s }, w)
    | (none, w) => ({ l with log := none }, w)

def shrinkToFit (pf : Platform) (io : ShrinkIO) (l : Logger) (w : World) : Logger × World :=
  if l.path = [] then (l, w)
  else
    match l.log with
    | none => (l, w)
    | some s =>
      let size := getFileSize w (l.name pf) io.stat
      if size < 0 then (l, w)
      else if size ≤ (l.maxSize.bytes / 2 : Nat) then (l, w)
      else
        let (s, w) := s.fflush io.flush w
        let l := { l with log := some s }
        match copyLog pf io l w with
        | (code, w) => if 0 ≤ code then replaceLog pf io s l w else (l, w)

/-! ## Appending -/

/-- The level gate of both overloads: the level to emit at, if any. -/
def gate (logLevel : LogLevel) (l : Logger) : Option LogLevel × Logger :=
  if l.spinOnceLogLevel ≠ .unchange then
    let lvl := l.spinOnceLogLevel
    let l := { l with spinOnceLogLevel := .unchange }
    (if l.logLevel.val < lvl.val then none else some lvl, l)
  else (if l.logLevel.val < logLevel.val then none else some logLevel, l)

end Logger

/-- What the caller passes to the five-argument `append`. -/
structure Msg where
  name : Option Str
  file : Option Str
  line : Int
  msg : Str
  logLevel : LogLevel

/-- A record as it leaves the logger; `idx` is the number printed. -/
structure Entry where
  idx : Option Nat
  level : LogLevel
  text : Str
deriving DecidableEq

/-- Arguments of the append callback. -/
structure Notice where
  name : Str
  level : LogLevel
  msg : Str

/-- What the critical section of `append` hands on: `ret`, the text built, the record if some
output received it. -/
structure Written where
  ret : Int
  text : Str
  entry : Option Entry

structure Appended where
  ret : Int
  entry : Option Entry
  notice : Option Notice

/-- `int64_t` to `int`. -/
def toInt32 (n : Int) : Int := n.bmod (2 ^ 32)

/-- The text of a record, without its newline (log.cpp:238-259). -/
def lineText (hasIdx hasTid : Bool) (idx : Nat) (time : Str) (tid : Nat) (lvl : LogLevel) (m : Msg) : Str :=
  (if hasIdx then str (toString idx) else []) ++ str "[" ++ time ++ str " " ++
  (if hasTid then str (toString tid) ++ str " " else []) ++ logLevelToString lvl ++ str "]" ++
  m.name.elim [] (fun n => str "[" ++ n ++ str "]") ++ str " " ++ m.msg ++
  m.file.elim [] (fun f => str " (" ++ f ++
    (if 0 ≤ m.line then str "+" ++ str (toString m.line) else []) ++ str ")")

namespace Logger

/-- `-errno`, or `EIO` negated where `errno` is 0. -/
def writeErrno (errno : Nat) : Int := if errno = 0 then - EIO else -errno

/-- The stream is opened when there is none; `some code` returns it (log.cpp:214-230). -/
def ensureLog (pf : Platform) (reset0 : ResetIO) (fit : ShrinkIO) (l : Logger) (w : World) :
    Option Int × Logger × World :=
  if l.outputs.testFlag .file && l.log.isNone then
    match l.reset pf false reset0 w with
    | (r, l, w) =>
      if r < 0 then (if l.outputs.testFlag .coutOrCerr then none else some (-EFAULT), l, w)
      else (none, l.shrinkToFit pf fit w)
  else (none, l, w)

/-- What comes before the record is counted: the level to emit at, or the code to return. -/
def enter (pf : Platform) (io : AppendIO) (logLevel : LogLevel) (l : Logger) (w : World) :
    Except Int LogLevel × Logger × World :=
  if l.path = [] then (.error (-EPERM), l, w)
  else
    match l.gate logLevel with
    | (none, l) => (.error 0, l, w)
    | (some lvl, l) =>
      if l.outputs = .none then (.error ENODEV, l, w)
      else
        match l.ensureLog pf io.reset0 io.fit w with
        | (some r, l, w) => (.error r, l, w)
        | (none, l, w) => (.ok lvl, l, w)

end Logger

/-- `++kLogIdx`. -/
def World.countRecord (w : World) : World := { w with idx := nextIdx w.idx }

namespace Logger

/-- `if (0 == (kLogIdx % kFlushInteval)) ::fflush(log)`. -/
def flushDue (o : Flush) (s : Stream) (w : World) : Stream × World :=
  if w.idx % kFlushInteval = 0 then s.fflush o w else (s, w)

/-- The stdio part of a record: the line, its newline, the flush that is due. -/
def putRecord (io : AppendIO) (text : Str) (s : Stream) (w : World) : Nat × Stream × World :=
  let (n, s, w) := s.fwrite text io.line w
  let (_, s, w) := s.fwrite [10] io.newline w
  let (s, w) := flushDue io.flush s w
  (n, s, w)

/-- The critical section under `writemutex` (log.cpp:237-323). -/
def writeRecord (io : AppendIO) (m : Msg) (lvl : LogLevel) (l : Logger) (w : World) : Written × Logger × World :=
  let text := lineText l.hasIdx l.hasTid w.idx io.time io.tid lvl m
  let e : Entry := ⟨if l.hasIdx then some w.idx else none, lvl, text⟩
  let console := if l.outputs.testFlag .coutOrCerr then some e else none
  if l.outputs.testFlag .file then
    match l.log with
    | none => (⟨-ENOENT, text, console⟩, l, w)
    | some s =>
      match putRecord io text s w with
      | (n, s, w) => (⟨if n ≠ text.length then writeErrno io.errno else n, text, some e⟩, { l with log := some s }, w)
  else (⟨if l.outputs.testFlag .coutOrCerr then 0 else io.stale, text, console⟩, l, w)

/-- After the critical section: reopen after an error, else check the size when it is due. -/
def settle (pf : Platform) (io : AppendIO) (ret : Int) (l : Logger) (w : World) : Logger × World :=
  if ret < 0 then (l.reset pf false io.reset1 w).2
  else if w.idx % kShrinkToFitInteval = 0 then l.shrinkToFit pf io.shrink w
  else (l, w)

def tryDoAcCb (name : Str) (lvl : LogLevel) (msg : Str) (l : Logger) : Option Notice :=
  if l.appendCallback && l.acNameFilters ≠ [] && l.acNameFilters.contains name then some ⟨name, lvl, msg⟩ else none

def append5 (pf : Platform) (io : AppendIO) (m : Msg) (l : Logger) (w : World) : Appended × Logger × World :=
  match l.enter pf io m.logLevel w with
  | (.error r, l, w) => (⟨r, none, none⟩, l, w)
  | (.ok lvl, l, w) =>
    match l.writeRecord io m lvl w.countRecord with
    | (r, l, w) =>
      let (l, w) := l.settle pf io r.ret w
      (⟨toInt32 r.ret, r.entry, l.tryDoAcCb (m.name.getD []) lvl r.text⟩, l, w)

/-- Outcomes of the stdio calls of the two-argument `append`. -/
structure Append2IO where
  write : Fwrite
  flush : Flush
  errno : Nat

/-- `append(msg, logLevel)`: nothing is counted, opened or checked. -/
def append2 (io : Append2IO) (msg : Str) (logLevel : LogLevel) (l : Logger) (w : World) : Appended × Logger × World :=
  if l.path = [] then (⟨-EPERM, none, none⟩, l, w)
  else
    match l.gate logLevel with
    | (none, l) => (⟨0, none, none⟩, l, w)
    | (some lvl, l) =>
      if l.outputs = .none then (⟨ENODEV, none, none⟩, l, w)
      else if l.outputs.testFlag .file && !l.outputs.testFlag .coutOrCerr && l.log.isNone then
        (⟨-ENOENT, none, none⟩, l, w)
      else
        let e : Entry := ⟨none, lvl, msg⟩
        let console := if l.outputs.testFlag .coutOrCerr then some e else none
        if l.outputs.testFlag .file then
          match l.log with
          | none => (⟨-ENOENT, console, none⟩, l, w)
          | some s =>
            let (n, s, w) := s.fwrite msg io.write w
            let (s, w) := flushDue io.flush s w
            let l := { l with log := some s }
            if n ≠ msg.length then (⟨toInt32 (writeErrno io.errno), some e, none⟩, l, w)
            else (⟨0, some e, l.tryDoAcCb [] lvl msg⟩, l, w)
        else (⟨0, console, l.tryDoAcCb [] lvl msg⟩, l, w)

/-! ## Construction -/

structure CtorIO where
  reset : ResetIO
  fit : ShrinkIO

/-- `Logger(path, outputs, maxSize, trunc)`: `outputs` is stored after `reset` has looked at it. -/
def construct (pf : Platform) (io : CtorIO) (path : Str) (outputs : Outputs) (maxSize : BitVec 32) (trunc : Bool)
    (w : World) : Logger × World :=
  let l := (Logger.new path).setMaxSize maxSize
  let (l, w) :=
    if path ≠ [] && outputs.testFlag .file then
      match l.reset pf trunc io.reset w with
      | (r, l, w) => if 0 ≤ r then l.shrinkToFit pf io.fit w else (l, w)
    else (l, w)
  (if outputs = .none then l else { l with outputs := outputs }, w)

end Logger

end CtiLog
