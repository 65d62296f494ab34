import CtiLog.Path
/-
# Files, descriptors' targets and stdio streams

What the code relies on of POSIX and of stdio. A directory entry (`Cell`) keeps every file ever
created under its name, one per generation, so a stream or a descriptor still writes to its own
file after the entry was removed or replaced. A system call that may fail takes its outcome as
an argument (`none` = success, `some e` = it failed with `errno = e`); a theorem over all outcomes
quantifies over these arguments.

| here | there |
| --- | --- |
| `Cell`, `Node`        | a directory entry and the files behind it |
| `Stream`              | `FILE*`: the file it writes to and the bytes stdio still buffers |
| `Call`                | the calls a run has made on streams and descriptors |
| `World`               | the file system and the process-wide `kLogIdx` (log.cpp:190) |
| `Flush`               | outcome of writing a buffer out (`fflush`, `fclose`) |
| `Fwrite`              | outcome of `fwrite`: bytes taken, bytes of the buffer written out meanwhile |
-/

namespace CtiLog

inductive Node where
  | directory
  | regular (gen : Nat)
deriving DecidableEq, Repr

/-- A directory entry. `data g` is the content of the `g`-th file created under this name. -/
structure Cell where
  node : Option Node
  gens : Nat
  data : Nat → Str
  /-- The file the entry names has been created. -/
  node_lt : ∀ g, node = some (.regular g) → g < gens

namespace Cell

/-- The bytes a reader of the entry finds. -/
def content (c : Cell) : Str :=
  match c.node with
  | some (.regular g) => c.data g
  | _ => []

/-- A new, empty regular file under this name. -/
def create (c : Cell) : Cell where
  node := some (.regular c.gens)
  gens := c.gens + 1
  data := Function.update c.data c.gens []
  node_lt := by intro g h; cases h; omega

def setData (c : Cell) (g : Nat) (bs : Str) : Cell := { c with data := Function.update c.data g bs }

/-- Append to the `g`-th file of this name. -/
def put (c : Cell) (g : Nat) (bs : Str) : Cell := c.setData g (c.data g ++ bs)

def unlink (c : Cell) : Cell := { c with node := none, node_lt := by simp }

def makeDir (c : Cell) : Cell := { c with node := some .directory, node_lt := by simp }

@[simp] theorem setData_node (c : Cell) (g : Nat) (bs : Str) : (c.setData g bs).node = c.node := rfl
@[simp] theorem put_node (c : Cell) (g : Nat) (bs : Str) : (c.put g bs).node = c.node := rfl
@[simp] theorem unlink_node (c : Cell) : c.unlink.node = none := rfl
@[simp] theorem makeDir_node (c : Cell) : c.makeDir.node = some .directory := rfl
@[simp] theorem create_node (c : Cell) : c.create.node = some (.regular c.gens) := rfl
@[simp] theorem setData_data (c : Cell) (g : Nat) (bs : Str) : (c.setData g bs).data g = bs := by simp [setData]
@[simp] theorem put_data (c : Cell) (g : Nat) (bs : Str) : (c.put g bs).data g = c.data g ++ bs := by simp [put]
@[simp] theorem create_data (c : Cell) : c.create.data c.gens = [] := by simp [create]
@[simp] theorem content_create (c : Cell) : c.create.content = [] := by simp [content]
@[simp] theorem content_unlink (c : Cell) : c.unlink.content = [] := rfl
@[simp] theorem content_makeDir (c : Cell) : c.makeDir.content = [] := rfl

theorem content_regular {c : Cell} {g : Nat} (h : c.node = some (.regular g)) : c.content = c.data g := by
  simp [content, h]

theorem content_put {c : Cell} {g : Nat} (h : c.node = some (.regular g)) (bs : Str) :
    (c.put g bs).content = c.content ++ bs := by
  rw [content_regular h, content_regular (by simpa using h), put_data]

theorem put_put (c : Cell) (g : Nat) (as bs : Str) : (c.put g as).put g bs = c.put g (as ++ bs) := by
  simp [put, setData]

@[simp] theorem put_nil (c : Cell) (g : Nat) : c.put g [] = c := by
  simp [put, setData]

/-- No file of the entry loses a byte when something is appended to one of them. -/
theorem data_prefix_put (c : Cell) (g g' : Nat) (bs : Str) : c.data g <+: (c.put g' bs).data g := by
  by_cases h : g = g'
  · subst h
    rw [put_data]
    exact List.prefix_append _ _
  · simp [put, setData, h]

theorem content_prefix_put (c : Cell) (g : Nat) (bs : Str) : c.content <+: (c.put g bs).content := by
  unfold content
  rw [put_node]
  split
  · exact c.data_prefix_put _ _ _
  · exact List.prefix_rfl

end Cell

abbrev Fs := Name → Cell

/-- Result of a data transfer: bytes moved, or `errno`. -/
inductive Sys where
  | ok (n : Nat)
  | fail (errno : Nat)
deriving DecidableEq, Repr

inductive Mode where
  | wb
  | ab
deriving DecidableEq, Repr

/-- A call on a stream (named by its `FILE*`) or on a descriptor (named by its file). -/
inductive Call where
  | fopen (file : Nat) (name : Name) (mode : Mode)
  | fwrite (file : Nat)
  | fflush (file : Nat)
  | fclose (file : Nat)
  | write (name : Name) (res : Sys)
deriving DecidableEq, Repr

structure World where
  fs : Fs
  /-- `kLogIdx`. -/
  idx : Nat
  /-- `FILE*`s handed out so far. -/
  files : Nat
  /-- Calls made, oldest first. -/
  calls : List Call

namespace World

def content (w : World) (n : Name) : Str := (w.fs n).content

def setCell (w : World) (n : Name) (c : Cell) : World := { w with fs := Function.update w.fs n c }

def call (w : World) (c : Call) : World := { w with calls := w.calls ++ [c] }

/-- Append to the `g`-th file of `n`. -/
def put (w : World) (n : Name) (g : Nat) (bs : Str) : World := w.setCell n ((w.fs n).put g bs)

@[simp] theorem setCell_same (w : World) (n : Name) (c : Cell) : (w.setCell n c).fs n = c := by simp [setCell]
@[simp] theorem setCell_idx (w : World) (n : Name) (c : Cell) : (w.setCell n c).idx = w.idx := rfl
@[simp] theorem setCell_files (w : World) (n : Name) (c : Cell) : (w.setCell n c).files = w.files := rfl
@[simp] theorem setCell_calls (w : World) (n : Name) (c : Cell) : (w.setCell n c).calls = w.calls := rfl
@[simp] theorem call_fs (w : World) (c : Call) : (w.call c).fs = w.fs := rfl
@[simp] theorem call_idx (w : World) (c : Call) : (w.call c).idx = w.idx := rfl
@[simp] theorem call_files (w : World) (c : Call) : (w.call c).files = w.files := rfl
@[simp] theorem call_calls (w : World) (c : Call) : (w.call c).calls = w.calls ++ [c] := rfl
@[simp] theorem put_same (w : World) (n : Name) (g : Nat) (bs : Str) : (w.put n g bs).fs n = (w.fs n).put g bs := by
  simp [put]
@[simp] theorem put_idx (w : World) (n : Name) (g : Nat) (bs : Str) : (w.put n g bs).idx = w.idx := rfl
@[simp] theorem put_files (w : World) (n : Name) (g : Nat) (bs : Str) : (w.put n g bs).files = w.files := rfl
@[simp] theorem put_calls (w : World) (n : Name) (g : Nat) (bs : Str) : (w.put n g bs).calls = w.calls := rfl

theorem put_put (w : World) (n : Name) (g : Nat) (as bs : Str) : (w.put n g as).put n g bs = w.put n g (as ++ bs) := by
  simp [put, setCell, Cell.put_put]

@[simp] theorem put_nil (w : World) (n : Name) (g : Nat) : w.put n g [] = w := by
  simp [put, setCell]

theorem setCell_other (w : World) {n m : Name} (c : Cell) (h : m ≠ n) : (w.setCell n c).fs m = w.fs m := by
  simp [setCell, h]

theorem put_other (w : World) {n m : Name} (g : Nat) (bs : Str) (h : m ≠ n) : (w.put n g bs).fs m = w.fs m :=
  w.setCell_other _ h

theorem content_prefix_put (w : World) (n m : Name) (g : Nat) (bs : Str) :
    w.content m <+: (w.put n g bs).content m := by
  unfold content
  by_cases h : m = n
  · subst h
    rw [put_same]
    exact Cell.content_prefix_put _ _ _
  · rw [w.put_other g bs h]

theorem put_node (w : World) (n m : Name) (g : Nat) (bs : Str) : ((w.put n g bs).fs m).node = (w.fs m).node := by
  by_cases h : m = n
  · subst h; simp
  · rw [w.put_other g bs h]

end World

/-! ## stdio -/

/-- An open stream. Its logger is the only writer of the file, so it writes at the end. -/
structure Stream where
  file : Nat
  name : Name
  gen : Nat
  buf : Str

/-- Writing out a buffer: all of it, or `part` bytes and then `errno`. -/
structure Flush where
  fail : Option Nat
  part : Nat

structure Fwrite where
  taken : Nat
  spill : Nat

/-- How many of `n` buffered bytes reach the file. -/
def Flush.out (o : Flush) (n : Nat) : Nat := if o.fail.isNone then n else min o.part n

/-- `::fopen`: the entry's file, truncated for `"wb"`; a new file where there is none. -/
def World.fopen (w : World) (n : Name) (mode : Mode) (fail : Option Nat) : Option Stream × World :=
  if fail.isSome then (none, w) else
  let open_ (g : Nat) (c : Cell) : Option Stream × World :=
    (some ⟨w.files, n, g, []⟩, { (w.setCell n c).call (.fopen w.files n mode) with files := w.files + 1 })
  match (w.fs n).node with
  | some .directory => (none, w)
  | some (.regular g) => open_ g (match mode with | .wb => (w.fs n).setData g [] | .ab => w.fs n)
  | none => open_ (w.fs n).gens (w.fs n).create

/-- Move the first `k` buffered bytes to the file. -/
def Stream.spill (f : Stream) (k : Nat) (w : World) : Stream × World :=
  ({ f with buf := f.buf.drop k }, w.put f.name f.gen (f.buf.take k))

def Stream.fflush (f : Stream) (o : Flush) (w : World) : Stream × World :=
  f.spill (o.out f.buf.length) (w.call (.fflush f.file))

/-- `::fclose`: what cannot be written out any more is lost; the stream is closed all the same. -/
def Stream.fclose (f : Stream) (o : Flush) (w : World) : World :=
  (f.spill (o.out f.buf.length) (w.call (.fclose f.file))).2

/-- `::fwrite(bs, 1, bs.length(), f)`: the number of bytes taken. -/
def Stream.fwrite (f : Stream) (bs : Str) (o : Fwrite) (w : World) : Nat × Stream × World :=
  let k := min o.taken bs.length
  (k, ({ f with buf := f.buf ++ bs.take k }).spill o.spill (w.call (.fwrite f.file)))

/-- What the stream's file will hold once the buffer is written out. -/
def Stream.flushed (f : Stream) (w : World) : Str := (w.fs f.name).data f.gen ++ f.buf

section
variable (f : Stream) (k : Nat) (o : Flush) (w : World) (bs : Str) (p : Fwrite)

@[simp] theorem spill_file : (f.spill k w).1.file = f.file := rfl
@[simp] theorem spill_name : (f.spill k w).1.name = f.name := rfl
@[simp] theorem spill_gen : (f.spill k w).1.gen = f.gen := rfl
@[simp] theorem spill_calls : (f.spill k w).2.calls = w.calls := rfl
@[simp] theorem spill_files : (f.spill k w).2.files = w.files := rfl
@[simp] theorem spill_idx : (f.spill k w).2.idx = w.idx := rfl
@[simp] theorem fflush_file : (f.fflush o w).1.file = f.file := rfl
@[simp] theorem fflush_name : (f.fflush o w).1.name = f.name := rfl
@[simp] theorem fflush_gen : (f.fflush o w).1.gen = f.gen := rfl
@[simp] theorem fflush_idx : (f.fflush o w).2.idx = w.idx := rfl
@[simp] theorem fflush_files : (f.fflush o w).2.files = w.files := rfl
@[simp] theorem fflush_calls : (f.fflush o w).2.calls = w.calls ++ [.fflush f.file] := rfl
@[simp] theorem fclose_idx : (f.fclose o w).idx = w.idx := rfl
@[simp] theorem fclose_files : (f.fclose o w).files = w.files := rfl
@[simp] theorem fclose_calls : (f.fclose o w).calls = w.calls ++ [.fclose f.file] := rfl
@[simp] theorem fwrite_count : (f.fwrite bs p w).1 = min p.taken bs.length := rfl
@[simp] theorem fwrite_file : (f.fwrite bs p w).2.1.file = f.file := rfl
@[simp] theorem fwrite_name : (f.fwrite bs p w).2.1.name = f.name := rfl
@[simp] theorem fwrite_gen : (f.fwrite bs p w).2.1.gen = f.gen := rfl
@[simp] theorem fwrite_idx : (f.fwrite bs p w).2.2.idx = w.idx := rfl
@[simp] theorem fwrite_files : (f.fwrite bs p w).2.2.files = w.files := rfl
@[simp] theorem fwrite_calls : (f.fwrite bs p w).2.2.calls = w.calls ++ [.fwrite f.file] := rfl

theorem spill_other {m : Name} (h : m ≠ f.name) : (f.spill k w).2.fs m = w.fs m := w.put_other _ _ h
theorem fflush_other {m : Name} (h : m ≠ f.name) : (f.fflush o w).2.fs m = w.fs m := spill_other f _ _ h
theorem fclose_other {m : Name} (h : m ≠ f.name) : (f.fclose o w).fs m = w.fs m := spill_other f _ _ h
theorem fwrite_other {m : Name} (h : m ≠ f.name) : (f.fwrite bs p w).2.2.fs m = w.fs m := spill_other _ _ _ h

/-- Writing buffered bytes out changes nothing about what the file will hold. -/
theorem spill_flushed : (f.spill k w).1.flushed (f.spill k w).2 = f.flushed w := by
  simp [Stream.flushed, Stream.spill]

theorem fflush_flushed : (f.fflush o w).1.flushed (f.fflush o w).2 = f.flushed w :=
  spill_flushed f _ (w.call _)

theorem fwrite_flushed :
    (f.fwrite bs p w).2.1.flushed (f.fwrite bs p w).2.2 = f.flushed w ++ bs.take (min p.taken bs.length) := by
  rw [Stream.fwrite, spill_flushed]
  simp [Stream.flushed]

/-- A flush that succeeds empties the buffer. -/
theorem fflush_buf (h : o.fail = none) : (f.fflush o w).1.buf = [] := by
  simp [Stream.fflush, Stream.spill, Flush.out, h]

end

end CtiLog
