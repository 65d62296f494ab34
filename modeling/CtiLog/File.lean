import CtiLog.Chunks
import CtiLog.FileUtil
/-
# `File`: open, and the chunked `traverse`, `read` and `write`

One call of a chunked operation is a function of what its environment answers, turn by turn: the
descriptor and name found under `fdRwlock` (`view k`) and the result of the system call (`mmap k`,
`sys k`). The user's callback is any function on a state `σ`, which also stands for the files
(`content`, `accept`). A code that no path has assigned is `none`. The events of a call are what
its system calls and its callback answered, in order.

| here | there |
| --- | --- |
| `Errno`, `Errno.code`, `sysCode`  | `Errno`, `GetErrno` (errno.hpp:18-44) |
| `FileOpenConfig`                  | file.cpp:303-365, file.hpp:249 |
| `File.open_`, `File.close`        | `File::open` (file.cpp:562-618), `File::close` (:620) |
| `traverse`                        | `File::traverse` (file.cpp:736) |
| `readCb`                          | `File::read(didRead, …)` (file.cpp:862) |
| `writeAny`, `writeRaw`            | `File::write(Any, …)` (:983), `File::write(void const*, …)` (:1097) |
| `writeAnyCb`, `writeRawCb`        | the same two with a callback (:1202, :1326) |

An `Any` is seen through `operator bool` and `getDataBundle`: `none` when it holds nothing, else
its `Bundle`.
-/

namespace CtiLog

/-! ## Codes -/

inductive Errno where
  | ok | notSet | invalidType | badAnyCast | alreadyOpen | invalidFilename | invalidData | invalidParam
  | openError | statError | notOpen | noMem | readError | cancelled | busy | interrupt | seekError | fileChanged
deriving DecidableEq, Repr

/-- `GetErrno(Errno)`. -/
def Errno.code (e : Errno) : Int := e.ctorIdx

def kCppbaseErrnoOffset : Int := 100000

/-- The code of a failed system call: `-GetErrno(errno)`, or `-GetErrno(dflt)` where `errno` is 0. -/
def sysCode (dflt : Errno) (errno : Nat) : Int :=
  if errno = 0 then -dflt.code else -(errno + kCppbaseErrnoOffset)

theorem sysCode_neg {dflt : Errno} (h : 0 < dflt.code) (errno : Nat) : sysCode dflt errno < 0 := by
  unfold sysCode kCppbaseErrnoOffset
  split <;> omega

/-! ## Sizes (LP64) -/

def kFileIoUpperBound : Nat := 8 * 128 * 1024 * 1024
def kMaxFileRdMem : Nat := 8 * 512 * 1024 * 1024
def kBigPerReadBytes : Nat := 8 * 16 * 1024 * 1024

/-! ## Opening and closing -/

/-- An open descriptor: its number and the file behind it. -/
structure Ofd where
  fd : Nat
  name : Name
  gen : Nat

structure File where
  filename : Str
  ofd : Option Ofd
  ioBusy : Bool

/-- What one look at `fd` and `filename` under `fdRwlock` finds. -/
structure View where
  fd : Int
  filename : Str
deriving DecidableEq, Repr

namespace File

def new (filename : Str) : File := ⟨filename, none, false⟩

def fd (f : File) : Int :=
  match f.ofd with
  | some o => o.fd
  | none => -1

def view (f : File) : View := ⟨f.fd, f.filename⟩

end File

def O_RDONLY : Nat := 0
def O_WRONLY : Nat := 1
def O_RDWR : Nat := 2
def O_CREAT : Nat := 64
def O_TRUNC : Nat := 512

structure FileOpenConfig where
  flags : Nat
  mode : Option Nat

/-- `FileOpenConfig{access}`. -/
def FileOpenConfig.ofAccess (access : Nat) : FileOpenConfig := ⟨access, none⟩

/-- `FileOpenConfig{access, SimplifiedFileOpenFlag::Create, &mode}`: the access is replaced. -/
def FileOpenConfig.ofCreate (_access mode : Nat) : FileOpenConfig := ⟨O_CREAT ||| O_WRONLY ||| O_TRUNC, some mode⟩

/-- Outcome of `::open`: `errno`, or the descriptor handed out. -/
structure OpenIO where
  fail : Option Nat
  fd : Nat

/-- `::open`; a directory is refused at once (for reading it would open, and its `mmap` fail). -/
def World.open_ (w : World) (n : Name) (flags : Nat) (o : OpenIO) : Except Nat Ofd × World :=
  match o.fail with
  | some e => (.error e, w)
  | none =>
    match (w.fs n).node with
    | some .directory => (.error EISDIR, w)
    | some (.regular g) =>
      (.ok ⟨o.fd, n, g⟩, if flags &&& O_TRUNC ≠ 0 then w.setCell n ((w.fs n).setData g []) else w)
    | none =>
      if flags &&& O_CREAT ≠ 0 then (.ok ⟨o.fd, n, (w.fs n).gens⟩, w.setCell n (w.fs n).create)
      else (.error ENOENT, w)

def File.open_ (pf : Platform) (f : File) (cfg : FileOpenConfig) (o : OpenIO) (w : World) : Int × File × World :=
  if 0 ≤ f.fd then (-Errno.alreadyOpen.code, f, w)
  else if f.filename.length ≤ 0 then (-Errno.invalidFilename.code, f, w)
  else if cfg.mode.isNone && (cfg.flags &&& O_CREAT ≠ 0) then (-Errno.invalidParam.code, f, w)
  else
    match w.open_ (resolve pf f.filename) cfg.flags o with
    | (.error e, w) => (sysCode .openError e, f, w)
    | (.ok d, w) => (Errno.ok.code, { f with ofd := some d }, w)

def File.close (f : File) : File := { f with ofd := none }

/-! ## The chunked operations -/

/-- What a system call or the callback answered. -/
inductive Event where
  /-- Turned away: another transfer is active, or there is no data. -/
  | rejected
  | notOpen
  /-- `fstat` or the allocation of the buffer failed. -/
  | setupFailed
  /-- The descriptor or the name is not the one the call started with. -/
  | changed
  | map (offset paOffset length : Nat) (fail : Option Nat)
  | io (offset request : Nat) (res : Sys)
  | asked (done rest : Nat) (stop : Bool)
deriving DecidableEq, Repr

structure St (σ : Type*) where
  user : σ
  events : List Event

def St.log {σ : Type*} (s : St σ) (e : Event) : St σ := { s with events := s.events ++ [e] }

/-- What a chunked operation returns, and what it left behind. -/
structure Outcome (σ : Type*) where
  ret : Option Int
  total : Nat
  st : σ
  events : List Event

def Outcome.early {σ : Type*} (ret : Int) (st : σ) (e : Event) : Outcome σ := ⟨some ret, 0, st, [e]⟩

def Outcome.ofLoop {σ : Type*} (r : Chunks.Result (St σ)) : Outcome σ := ⟨r.ret, r.total, r.st.user, r.st.events⟩

/-- `min(eachX, maxX - total)` as the loops write it. -/
def request (each max total : Nat) : Nat := if each ≤ max - total then each else max - total

/-- Upper end of a limited read: the whole file unless `0 <= limit <= size`. -/
def maxRead (limit : Int) (size : Nat) : Nat := if limit < 0 ∨ (size : Int) < limit then size else limit.toNat

/-- Chunk size of a read: 0 is `kFileIoUpperBound`, at most `kMaxFileRdMem` and the range. -/
def eachRead (eachRead0 max : Nat) : Nat :=
  let e := if eachRead0 = 0 then kFileIoUpperBound
    else if kMaxFileRdMem < eachRead0 then kMaxFileRdMem else eachRead0
  if max < e then max else e

def maxWrite (limit : Int) (size : Nat) : Nat := if limit < 0 ∨ size < limit.toNat then size else limit.toNat

/-- Chunk size of a write: 0 is `kFileIoUpperBound`, negative is the whole range. -/
def eachWrite (eachWrite0 : Int) (max : Nat) : Nat :=
  let e := if eachWrite0 = 0 then kFileIoUpperBound else if eachWrite0 < 0 then max else eachWrite0.toNat
  if max < e then max else e

section
variable {σ : Type*}

/-! ### `traverse` -/

structure TraverseIO where
  /-- `errno` of a failed `fstat`. -/
  fstat : Option Nat
  view : Nat → View
  mmap : Nat → Option Nat

/-- `offset & ~(::sysconf(_SC_PAGE_SIZE) - 1)` on 64 bits. -/
def pageAlign (pageBits offset : Nat) : Nat :=
  (BitVec.ofNat 64 offset &&& ~~~(BitVec.ofNat 64 (2 ^ pageBits - 1))).toNat

/-- Masking keeps the pages below. -/
theorem pageAlign_eq (pageBits : Nat) {offset : Nat} (h : offset < 2 ^ 64) :
    pageAlign pageBits offset = offset - offset % 2 ^ pageBits := by
  have hx : BitVec.ofNat 64 offset &&& ~~~BitVec.ofNat 64 (2 ^ pageBits - 1) =
      BitVec.ofNat 64 (offset / 2 ^ pageBits * 2 ^ pageBits) := by
    apply BitVec.eq_of_getLsbD_eq
    intro j hj
    simp only [BitVec.getLsbD_and, BitVec.getLsbD_not, BitVec.getLsbD_ofNat, hj, decide_true, Bool.true_and,
      Nat.testBit_mul_two_pow, Nat.testBit_two_pow_sub_one]
    by_cases h : pageBits ≤ j
    · have : ¬ j < pageBits := by omega
      simp [this, h, Nat.testBit_div_two_pow]
    · simp [h]
      omega
  have hdiv := Nat.div_add_mod' offset (2 ^ pageBits)
  rw [pageAlign, hx, BitVec.toNat_ofNat, Nat.mod_eq_of_lt (by omega)]
  omega

/-- An empty mapping is refused. -/
def mmapFail (length : Nat) (fail : Option Nat) : Option Nat := if length = 0 then some EINVAL else fail

/-- One turn: map from the page boundary below `total`, hand out `length` bytes (a `uint32_t`)
from the start of the mapping. -/
def traverseTurn (f : File) (pageBits : Nat) (content : σ → Str) (didRead : σ → Str → Bool × σ) (io : TraverseIO)
    (max each k total : Nat) (s : St σ) : Chunks.Turn (St σ) :=
  if io.view k ≠ f.view then .leave (-Errno.fileChanged.code) 0 (s.log .changed)
  else
    let paOffset := pageAlign pageBits total
    let length := request each max total
    match mmapFail (length + total - paOffset) (io.mmap k) with
    | some e => .leave (sysCode .readError e) 0 (s.log (.map total paOffset length (some e)))
    | none =>
      let s := s.log (.map total paOffset length none)
      let (stop, u) := didRead s.user (((content s.user).drop paOffset).take (length % 2 ^ 32))
      let s := { s with user := u }.log (.asked (total + length) (max - (total + length)) stop)
      if stop then .leave Errno.cancelled.code length s else .move length s

def traverse (f : File) (pageBits : Nat) (content : σ → Str) (didRead : σ → Str → Bool × σ) (eachRead0 : Nat)
    (limit : Int) (io : TraverseIO) (st : σ) : Outcome σ :=
  if f.ioBusy then .early (-Errno.busy.code) st .rejected
  else if f.fd < 0 then .early (-Errno.notOpen.code) st .notOpen
  else
    match io.fstat with
    | some e => .early (sysCode .statError e) st .setupFailed
    | none =>
      let max := maxRead limit (content st).length
      .ofLoop (Chunks.loop (traverseTurn f pageBits content didRead io max (eachRead eachRead0 max)) max (some 0) 0 0
        ⟨st, []⟩)

/-! ### The callback `read` -/

structure ReadIO where
  fstat : Option Nat
  /-- `buffer->reserve` did not throw. -/
  alloc : Bool
  view : Nat → View
  sys : Nat → Sys
  /-- `errno` of a failed `lseek` on the exit path. -/
  lseek : Option Nat

/-- What `::read` of `request` bytes gives with `avail` bytes left in the file: nothing at the end
of the file only, else at least one byte. -/
def readMoved (n request avail : Nat) : Nat := min (min (Nat.max 1 n) request) avail

/-- One turn; `p` is the position of the descriptor when the call started. -/
def readTurn (f : File) (content : σ → Str) (p : Nat) (didRead : σ → Str → Bool × σ) (io : ReadIO)
    (max each k total : Nat) (s : St σ) : Chunks.Turn (St σ) :=
  if io.view k ≠ f.view then .leave (-Errno.fileChanged.code) 0 (s.log .changed)
  else
    let req := request each max total
    match io.sys k with
    | .fail e => .leave (sysCode .readError e) 0 (s.log (.io total req (.fail e)))
    | .ok n =>
      let m := readMoved n req ((content s.user).length - (p + total))
      let s := s.log (.io total req (.ok m))
      let (stop, u) := didRead s.user (((content s.user).drop (p + total)).take m)
      let s := { s with user := u }.log (.asked (total + m) (max - (total + m)) stop)
      if stop then .leave Errno.cancelled.code m s else .move m s

/-- The outcome and the position of the descriptor afterwards: the exit path moves it once more. -/
def readCb (f : File) (content : σ → Str) (p : Nat) (didRead : σ → Str → Bool × σ) (eachRead0 : Nat) (limit : Int)
    (io : ReadIO) (st : σ) : Outcome σ × Nat :=
  if f.ioBusy then (.early (-Errno.busy.code) st .rejected, p)
  else if f.fd < 0 then (.early (-Errno.notOpen.code) st .notOpen, p)
  else
    let jump2Offset (o : Outcome σ) : Outcome σ × Nat :=
      (o, if io.lseek.isSome then p + o.total else p + o.total + o.total)
    match io.fstat with
    | some e => jump2Offset (.early (sysCode .statError e) st .setupFailed)
    | none =>
      if !io.alloc then jump2Offset (.early (-Errno.noMem.code) st .setupFailed)
      else
        let max := maxRead limit (content st).length
        jump2Offset (.ofLoop (Chunks.loop (readTurn f content p didRead io max (eachRead eachRead0 max)) max none 0 0
          ⟨st, []⟩))

/-! ### `write` -/

structure WriteIO where
  view : Nat → View
  sys : Nat → Sys

/-- `Any::getDataBundle`: `Ok` or a negative code, and the bytes. -/
structure Bundle where
  ret : Int
  bytes : Str
  ret_le : ret ≤ 0

/-- The callback of the overloads that have one. -/
abbrev DidWrote (σ : Type*) := σ → Nat → Nat → Bool × σ

/-- One turn: `accept` is what the file becomes when the descriptor accepts bytes. -/
def writeTurn (f : File) (accept : σ → Str → σ) (didWrote : Option (DidWrote σ)) (data : Str) (io : WriteIO)
    (max each k total : Nat) (s : St σ) : Chunks.Turn (St σ) :=
  if io.view k ≠ f.view then .leave (-Errno.fileChanged.code) 0 (s.log .changed)
  else
    let req := request each max total
    match io.sys k with
    | .fail e => .leave (sysCode .readError e) 0 (s.log (.io total req (.fail e)))
    | .ok n =>
      let m := min n req
      let s := { s with user := accept s.user ((data.drop total).take m) }.log (.io total req (.ok m))
      match didWrote with
      | none => .move m s
      | some cb =>
        let (stop, u) := cb s.user (total + m) (max - (total + m))
        let s := { s with user := u }.log (.asked (total + m) (max - (total + m)) stop)
        if stop then .leave Errno.cancelled.code m s else .move m s

/-- The loop of the four overloads, entered with the code `ret`. -/
def writeLoop (f : File) (accept : σ → Str → σ) (didWrote : Option (DidWrote σ)) (data : Str) (max each : Nat)
    (ret : Option Int) (io : WriteIO) (st : σ) : Outcome σ :=
  .ofLoop (Chunks.loop (writeTurn f accept didWrote data io max each) max ret 0 0 ⟨st, []⟩)

/-- The `Any` overloads: the loop is entered with the code of the bundle. -/
def writeBundle (f : File) (accept : σ → Str → σ) (didWrote : Option (DidWrote σ)) (data : Option Bundle)
    (eachWrite0 limit : Int) (io : WriteIO) (st : σ) : Outcome σ :=
  match data with
  | none => .early (-Errno.invalidData.code) st .rejected
  | some b =>
    if f.ioBusy then .early (-Errno.busy.code) st .rejected
    else if f.fd < 0 then .early (-Errno.notOpen.code) st .notOpen
    else if b.ret < 0 then .early b.ret st .rejected
    else
      let max := maxWrite limit b.bytes.length
      writeLoop f accept didWrote b.bytes max (eachWrite eachWrite0 max) (some b.ret) io st

/-- The pointer overloads: the loop is entered with `ret` unassigned. -/
def writePointer (f : File) (accept : σ → Str → σ) (didWrote : Option (DidWrote σ)) (data : Option Str)
    (eachWrite0 limit : Int) (io : WriteIO) (st : σ) : Outcome σ :=
  match data with
  | none => .early (-Errno.invalidData.code) st .rejected
  | some bytes =>
    if f.ioBusy then .early (-Errno.busy.code) st .rejected
    else if f.fd < 0 then .early (-Errno.notOpen.code) st .notOpen
    else
      let max := maxWrite limit bytes.length
      writeLoop f accept didWrote bytes max (eachWrite eachWrite0 max) none io st

/-- `File::write(Any const&, eachWrite0, limit)`. -/
def writeAny (f : File) (accept : σ → Str → σ) (data : Option Bundle) (eachWrite0 limit : Int) (io : WriteIO)
    (st : σ) : Outcome σ := writeBundle f accept none data eachWrite0 limit io st

/-- `File::write(void const*, maxWrite, eachWrite0)`: the range is the whole buffer. -/
def writeRaw (f : File) (accept : σ → Str → σ) (data : Option Str) (eachWrite0 : Int) (io : WriteIO) (st : σ) :
    Outcome σ := writePointer f accept none data eachWrite0 (-1) io st

/-- `File::write(didWrote, Any const&, eachWrite0, limit)`. -/
def writeAnyCb (f : File) (accept : σ → Str → σ) (didWrote : DidWrote σ) (data : Option Bundle)
    (eachWrite0 limit : Int) (io : WriteIO) (st : σ) : Outcome σ :=
  writeBundle f accept (some didWrote) data eachWrite0 limit io st

/-- `File::write(didWrote, void const*, size, eachWrite0, limit)`. -/
def writeRawCb (f : File) (accept : σ → Str → σ) (didWrote : DidWrote σ) (data : Option Str) (eachWrite0 limit : Int)
    (io : WriteIO) (st : σ) : Outcome σ := writePointer f accept (some didWrote) data eachWrite0 limit io st

end

end CtiLog
