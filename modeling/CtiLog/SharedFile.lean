import CtiLog.Rotation
import CtiLog.Runs
/-
# One `File` shared by several threads

The locked sections of `setFilename`, `open`, `close` and one `write` call, one atomic step each; any
thread may take the next one. `setFilename` holds `filenameRwlock` for its whole length, so at most one
is in progress, but the other members do not look at that lock. `write` copies `fd` and `filename` under
`fdRwlock` and calls `::write` later, under `ioMutex`.

| here | there |
| --- | --- |
| `setBegin`, `setClose`, `setAssign` | `File::setFilename` (file.cpp:369): the comparison, the inner `close()`, the assignment |
| `open_`, `close`                    | `File::open` (:562), `File::close` (:620) |
| `writeStart`, `writeLook`, `write`  | `File::write`: `primaryFd` (:1118), the check (:1145), `::write` (:1159) |

Kept beside the code's own state, to speak about it: the name the descriptor was opened from, and the
number of opens so far, which names the open file.
-/

namespace CtiLog

open Runs Chunks

/-! ## One `write` call -/

/-- What the loop of a `write` overload is entered with; a negative `ret` ends the call before it. -/
structure WriteArgs (σ : Type*) where
  didWrote : Option (DidWrote σ)
  data : Str
  max : Nat
  each : Nat
  ret : Option Int
  user : σ

namespace WriteArgs

variable {σ : Type*}

/-- The `Any` overloads, past their checks. -/
def ofBundle (didWrote : Option (DidWrote σ)) (b : Bundle) (eachWrite0 limit : Int) (user : σ) : WriteArgs σ :=
  let max := maxWrite limit b.bytes.length
  ⟨didWrote, b.bytes, max, eachWrite eachWrite0 max, some b.ret, user⟩

/-- The pointer overloads, past their checks. -/
def ofPointer (didWrote : Option (DidWrote σ)) (bytes : Str) (eachWrite0 limit : Int) (user : σ) : WriteArgs σ :=
  let max := maxWrite limit bytes.length
  ⟨didWrote, bytes, max, eachWrite eachWrite0 max, none, user⟩

/-- The loop of the call, for a `File` that was `file0` when it started. -/
def turn (W : WriteArgs σ) (file0 : File) (io : WriteIO) : Nat → Nat → St σ → Turn (St σ) :=
  writeTurn file0 (fun u _ => u) W.didWrote W.data io W.max W.each

def next (W : WriteArgs σ) (k total : Nat) (u : Turn (St σ)) : Result (St σ) ⊕ (Nat × Nat × St σ) :=
  Chunks.next W.max W.ret k total u

end WriteArgs

/-- Where a call stands: before the check of iteration `k`, between the check and `::write`, at its end. -/
inductive Progress (σ : Type*) where
  | ready (k total : Nat) (st : St σ)
  | looked (k total : Nat) (st : St σ)
  | done (r : Result (St σ))

def Progress.ofNext {σ : Type*} : Result (St σ) ⊕ (Nat × Nat × St σ) → Progress σ
  | .inl r => .done r
  | .inr (k, total, st) => .ready k total st

structure WriteCall (σ : Type*) where
  /-- The `File` when `primaryFd` and `primaryFilename` were copied. -/
  file0 : File
  opened0 : Nat
  progress : Progress σ
  /-- What the iterations so far have found. -/
  io : WriteIO
  /-- What `::write` calls have put into which open file. -/
  sent : List (Nat × Str)
  /-- The last check or `::write` came after the file was closed or replaced. -/
  lost : Bool

/-! ## The shared state -/

structure Setter where
  name : Str
  /-- The names differ, and the inner `close()` is still to come. -/
  closing : Bool

structure Shared (σ : Type*) where
  file : File
  world : World
  /-- The `setFilename` in progress. -/
  setter : Option Setter
  /-- `filename` when the descriptor was opened. -/
  openedFrom : Str
  opened : Nat
  call : Option (WriteCall σ)

namespace Shared

variable {σ : Type*}

def start (filename : Str) (w : World) : Shared σ := ⟨.new filename, w, none, filename, 0, none⟩

def setBegin (name : Str) (s : Shared σ) : Shared σ := { s with setter := some ⟨name, s.file.filename != name⟩ }

def setClose (p : Setter) (s : Shared σ) : Shared σ :=
  { s with file := s.file.close, setter := some { p with closing := false } }

def setAssign (p : Setter) (s : Shared σ) : Shared σ :=
  { s with file := { s.file with filename := p.name }, setter := none }

def open_ (pf : Platform) (cfg : FileOpenConfig) (o : OpenIO) (s : Shared σ) : Shared σ :=
  let (ret, file, world) := s.file.open_ pf cfg o s.world
  if ret = Errno.ok.code then { s with file := file, world := world, openedFrom := s.file.filename, opened := s.opened + 1 }
  else { s with file := file, world := world }

def close (s : Shared σ) : Shared σ := { s with file := s.file.close }

/-- The file a call has started with is the one that is open. -/
def Current (s : Shared σ) (c : WriteCall σ) : Prop := 0 ≤ s.file.fd ∧ s.opened = c.opened0

instance (s : Shared σ) (c : WriteCall σ) : Decidable (s.Current c) :=
  inferInstanceAs (Decidable (_ ∧ _))

def writeStart (W : WriteArgs σ) (s : Shared σ) : Shared σ :=
  { s with
    call := some {
      file0 := s.file
      opened0 := s.opened
      progress :=
        if s.file.fd < 0 then .done ⟨some (-Errno.notOpen.code), 0, ⟨W.user, [.notOpen]⟩⟩
        else if W.ret.any (· < 0) then .done ⟨W.ret, 0, ⟨W.user, [.rejected]⟩⟩
        else .ready 0 0 ⟨W.user, []⟩
      io := ⟨fun _ => s.file.view, fun _ => .ok 0⟩
      sent := []
      lost := false } }

/-- The check of iteration `k`. -/
def writeLook (W : WriteArgs σ) (c : WriteCall σ) (k total : Nat) (st : St σ) (s : Shared σ) : Shared σ :=
  let io := { c.io with view := Function.update c.io.view k s.file.view }
  let progress :=
    if s.file.view = c.file0.view then .looked k total st
    else .ofNext (W.next k total (W.turn c.file0 io k total st))
  { s with call := some { c with io := io, progress := progress, lost := decide (¬ s.Current c) } }

/-- The `::write` of iteration `k`: the bytes go to the file behind the number. -/
def write (W : WriteArgs σ) (c : WriteCall σ) (k total : Nat) (st : St σ) (res : Sys) (s : Shared σ) : Shared σ :=
  let io := { c.io with sys := Function.update c.io.sys k res }
  let turn := W.turn c.file0 io k total st
  let bytes := (W.data.drop total).take turn.moved
  { s with
    world := s.file.accept s.world bytes
    call := some { c with
      io := io
      progress := .ofNext (W.next k total turn)
      sent := match res with
        | .ok _ => c.sent ++ [(s.opened, bytes)]
        | .fail _ => c.sent
      lost := decide (¬ s.Current c) } }

end Shared

inductive FileAct where
  | setBegin (name : Str)
  | setClose
  | setAssign
  | open_ (cfg : FileOpenConfig) (o : OpenIO)
  | close
  | writeStart
  | writeLook
  | write (res : Sys)

/-- The kernel hands out the lowest number that is not `used` by other files. -/
def Lowest (used : Set Nat) (n : Nat) : Prop := n ∉ used ∧ ∀ m < n, m ∈ used

/-- One section. A number that is not the `File`'s own is nobody's: `::write` fails. -/
inductive FileStep {σ : Type*} (pf : Platform) (used : Set Nat) (W : WriteArgs σ) (s : Shared σ) :
    FileAct → Shared σ → Prop
  | setBegin {name : Str} : s.setter = none → FileStep pf used W s (.setBegin name) (s.setBegin name)
  | setClose {p : Setter} : s.setter = some p → p.closing = true → FileStep pf used W s .setClose (s.setClose p)
  | setAssign {p : Setter} : s.setter = some p → p.closing = false → FileStep pf used W s .setAssign (s.setAssign p)
  | open_ {cfg : FileOpenConfig} {o : OpenIO} : (s.file.ofd = none → o.fail = none → Lowest used o.fd) →
      FileStep pf used W s (.open_ cfg o) (s.open_ pf cfg o)
  | close : FileStep pf used W s .close s.close
  | writeStart : s.call = none → FileStep pf used W s .writeStart (s.writeStart W)
  | writeLook {c : WriteCall σ} {k total : Nat} {st : St σ} : s.call = some c → c.progress = .ready k total st →
      FileStep pf used W s .writeLook (s.writeLook W c k total st)
  | write {c : WriteCall σ} {k total : Nat} {st : St σ} {res : Sys} : s.call = some c →
      c.progress = .looked k total st → (s.file.fd ≠ c.file0.fd → ∃ e, res = .fail e) →
      FileStep pf used W s (.write res) (s.write W c k total st res)

/-! ## What the sections do to the descriptor -/

section
variable {σ : Type*} {pf : Platform} {used : Set Nat} {W : WriteArgs σ} {s t : Shared σ}

theorem close_fd (f : File) : f.close.fd < 0 := show (-1 : Int) < 0 by decide

/-- `open` in the shared state: nothing, or a new open file under the current name. -/
theorem shared_open_cases (pf : Platform) (cfg : FileOpenConfig) (o : OpenIO) (s : Shared σ) :
    (∃ w, s.open_ pf cfg o = { s with world := w }) ∨
      s.file.fd < 0 ∧ o.fail = none ∧ ∃ d w, d.fd = o.fd ∧
        s.open_ pf cfg o = { s with file := { s.file with ofd := some d }, world := w, openedFrom := s.file.filename,
                                    opened := s.opened + 1 } := by
  have hcases := file_open_cases pf s.file cfg o s.world
  unfold Shared.open_
  generalize s.file.open_ pf cfg o s.world = r at hcases ⊢
  obtain ⟨ret, file, world⟩ := r
  dsimp only at hcases ⊢
  rcases hcases with ⟨hret, rfl⟩ | ⟨hret, hfd, hfail, d, rfl, hd, -⟩
  · exact .inl ⟨world, if_neg hret⟩
  · exact .inr ⟨hfd, hfail, d, world, hd, if_pos hret⟩

/-! ## The descriptor and the name -/

/-- The descriptor, if there is one, was opened from the current name. -/
def OfName (s : Shared σ) : Prop := 0 ≤ s.file.fd → s.openedFrom = s.file.filename

/-- … in every state with no `setFilename` in progress. -/
def OfNameWhenQuiet (s : Shared σ) : Prop := s.setter = none → OfName s

/-- `setFilename` stores a new name only into a `File` that is closed: no `open` since its inner `close()`
that has not been closed again. -/
def StoresClosed (s : Shared σ) : FileAct → Prop
  | .setAssign => ∀ p ∈ s.setter, s.file.filename ≠ p.name → s.file.fd < 0
  | _ => True

theorem ofName_closed (h : s.file.fd < 0) : OfName s := fun h' => absurd h' (by omega)

/-- Every step but a late assignment keeps the descriptor with its name, also inside `setFilename`. -/
theorem fileStep_ofName {a : FileAct} (h : OfName s) (hst : FileStep pf used W s a t) (hG : StoresClosed s a) :
    OfName t := by
  cases hst with
  | setBegin _ => exact h
  | setClose _ _ => exact ofName_closed (close_fd s.file)
  | @setAssign p hp _ =>
    intro (hfd : 0 ≤ s.file.fd)
    by_cases hname : s.file.filename = p.name
    · exact (h hfd).trans hname
    · exact absurd (hG p hp hname) (by omega)
  | open_ _ =>
    rename_i cfg o _
    rcases shared_open_cases pf cfg o s with ⟨w, heq⟩ | ⟨-, -, d, w, -, heq⟩
    · rw [heq]; exact h
    · rw [heq]; exact fun _ => rfl
  | close => exact ofName_closed (close_fd s.file)
  | writeStart _ => exact h
  | writeLook _ _ => exact h
  | write _ _ _ => exact h

/-- A late assignment parts the descriptor from the name, with no `setFilename` left to mend it. -/
theorem late_assign {p : Setter} (h : OfName s) (hname : s.file.filename ≠ p.name) (hfd : 0 ≤ s.file.fd) :
    ¬ OfNameWhenQuiet (s.setAssign p) :=
  fun hq => hname ((h hfd).symm.trans (hq rfl hfd))

/-- **The descriptor belongs to the name**, in exactly the runs in which no `setFilename` stores a new name
while a descriptor is open. -/
theorem descriptor_of_name_iff {filename : Str} {w : World} {as : List FileAct} :
    Run (Kept OfNameWhenQuiet (FileStep pf used W)) (Shared.start filename w) as s ↔
      Run (Guarded StoresClosed (FileStep pf used W)) (Shared.start filename w) as s := by
  refine Run.kept_iff OfName OfNameWhenQuiet (ofName_closed (show (-1 : Int) < 0 by decide)) (fun t a u h hst => ?_)
    (fun t a u h hst hG => fileStep_ofName h hst hG)
  constructor
  · intro hq
    cases hst with
    | @setAssign p hp _ =>
      intro p' hp' hname
      obtain rfl : p = p' := Option.some.inj (hp.symm.trans hp')
      by_contra hfd
      exact late_assign h hname (by omega) hq
    | _ => trivial
  · intro hG _
    exact fileStep_ofName h hst hG

end

/-! ### An `open` between the two halves of `setFilename` -/

/-- `::open` with `O_CREAT` that hands out descriptor 3. -/
def createdFd3 : FileAct := .open_ (.ofCreate O_WRONLY 438) ⟨none, 3⟩

/-- Descriptors 0 to 2 are the standard streams. -/
def stdFds : Set Nat := {n | n < 3}

theorem lowest_fd3 : Lowest stdFds 3 := ⟨fun h => absurd h (lt_irrefl 3), fun _ h => h⟩

/-- The `File` of `a` is open under the name `b`, and nothing is in progress. -/
theorem late_open_keeps_fd : ∃ s : Shared Unit,
    Run (FileStep plain stdFds (.ofPointer none [1] 1 (-1) ())) (.start (str "a") (oneFile []))
        [.setBegin (str "b"), .setClose, createdFd3, .setAssign] s ∧
      s.openedFrom = str "a" ∧ s.file.filename = str "b" ∧ ¬ OfNameWhenQuiet s := by
  refine ⟨_, .snoc (.snoc (.snoc (.snoc .nil (.setBegin rfl)) (.setClose rfl (by decide)))
    (.open_ fun _ _ => lowest_fd3)) (.setAssign rfl rfl), by decide, rfl, fun h => ?_⟩
  exact absurd (h rfl (by decide)) (by decide)

end CtiLog
