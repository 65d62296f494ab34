import CtiLog.Posix
/-
# File helpers: `GetFileSize`, `IsExists`, `RemoveFiles`, `MkDirs`

| here | there |
| --- | --- |
| `getFileSize`   | `GetFileSize` (file.cpp:62) |
| `isExists`      | `IsExists` (file.cpp:99) |
| `removeFiles`   | `RemoveFiles` (file.cpp:192) |
| `mkDirs`        | `MkDirs` (file.cpp:228); turn `i` of the loop asks `io i` |
-/

namespace CtiLog

def EPERM : Nat := 1
def ENOENT : Nat := 2
def EIO : Nat := 5
def EACCES : Nat := 13
def EFAULT : Nat := 14
def EEXIST : Nat := 17
def ENODEV : Nat := 19
def ENOTDIR : Nat := 20
def EISDIR : Nat := 21
def EINVAL : Nat := 22

/-- `::stat`: the size, or `errno`. A directory is one 4 KiB block. -/
def World.stat (w : World) (n : Name) (fail : Option Nat) : Except Nat Nat :=
  match fail with
  | some e => .error e
  | none =>
    match (w.fs n).node with
    | none => .error ENOENT
    | some .directory => .ok 4096
    | some (.regular g) => .ok ((w.fs n).data g).length

def getFileSize (w : World) (n : Name) (fail : Option Nat) : Int :=
  match w.stat n fail with
  | .ok size => size
  | .error e => if e = 0 then -1 else -e

def isExists (w : World) (n : Name) (fail : Option Nat) : Int :=
  let sz := getFileSize w n fail
  if 0 ≤ sz then 1 else if sz = -ENOENT then 0 else sz

/-- `::remove`. -/
def World.remove (w : World) (n : Name) (fail : Option Nat) : Option Nat × World :=
  match fail with
  | some e => (some e, w)
  | none =>
    match (w.fs n).node with
    | none => (some ENOENT, w)
    | some _ => (none, w.setCell n (w.fs n).unlink)

def removeFiles (w : World) (n : Name) (fail : Option Nat) : Int × World :=
  match w.remove n fail with
  | (some e, w) => (if e = 0 then -EPERM else -e, w)
  | (none, w) => (0, w)

/-- `::mkdir`. -/
def World.mkdir (w : World) (n : Name) (fail : Option Nat) : Option Nat × World :=
  match fail with
  | some e => (some e, w)
  | none =>
    match (w.fs n).node with
    | none => (none, w.setCell n (w.fs n).makeDir)
    | some _ => (some EEXIST, w)

/-- Outcomes of the `stat` and the `mkdir` of one turn. -/
structure DirIO where
  stat : Option Nat
  mkdir : Option Nat

def mkDirsLoop (pf : Platform) (io : Nat → DirIO) : Nat → List Str → World → Int × World
  | _, [], w => (0, w)
  | i, d :: ds, w =>
    if isExists w (resolve pf d) (io i).stat = 0 then
      match w.mkdir (resolve pf d) (io i).mkdir with
      | (some e, w) => (if e = 0 then -EPERM else -e, w)
      | (none, w) => mkDirsLoop pf io (i + 1) ds w
    else mkDirsLoop pf io (i + 1) ds w

def mkDirs (pf : Platform) (path : Str) (io : Nat → DirIO) (w : World) : Int × World :=
  if path = [] then (-EINVAL, w) else mkDirsLoop pf io 0 (slashPrefixes (withSlash path)) w

/-- The entries `MkDirs(path)` may create. -/
def dirNames (pf : Platform) (path : Str) : List Name := (slashPrefixes (withSlash path)).map (resolve pf)

/-! ## Frames -/

theorem mkdir_frame (w : World) {n m : Name} (fail : Option Nat) (h : m ≠ n ∨ (w.fs m).node ≠ none) :
    (w.mkdir n fail).2.fs m = w.fs m := by
  unfold World.mkdir
  cases fail with
  | some e => rfl
  | none =>
    cases hn : (w.fs n).node with
    | some nd => rfl
    | none =>
      have hne : m ≠ n := h.elim id (fun hm e => hm (e ▸ hn))
      exact w.setCell_other _ hne

/-- A directory that appears holds no bytes. -/
theorem mkdir_content (w : World) (n m : Name) (fail : Option Nat) : (w.mkdir n fail).2.content m = w.content m := by
  by_cases h : m ≠ n ∨ (w.fs m).node ≠ none
  · rw [World.content, mkdir_frame w fail h, World.content]
  · obtain ⟨rfl, hn⟩ : m = n ∧ (w.fs m).node = none := by simpa using h
    unfold World.mkdir
    cases fail with
    | some e => rfl
    | none => simp [World.content, Cell.content, hn]

/-- **Rule for `MkDirs`**: what every `mkdir` of a prefix keeps, the whole call keeps. -/
theorem mkDirs_rule (pf : Platform) (path : Str) (io : Nat → DirIO) (P : World → Prop)
    (hstep : ∀ w n fail, n ∈ dirNames pf path → P w → P (w.mkdir n fail).2) (w : World) (h0 : P w) :
    P (mkDirs pf path io w).2 := by
  have hloop : ∀ (ds : List Str) (i : Nat) (w : World), (∀ n ∈ ds.map (resolve pf), n ∈ dirNames pf path) → P w →
      P (mkDirsLoop pf io i ds w).2 := by
    intro ds
    induction ds with
    | nil => intro i w _ h; exact h
    | cons d ds ih =>
      intro i w hds h
      have hd := hstep w (resolve pf d) (io i).mkdir (hds _ (by simp)) h
      have hds' : ∀ n ∈ ds.map (resolve pf), n ∈ dirNames pf path := fun n hn => hds n (by simp at hn ⊢; exact .inr hn)
      simp only [mkDirsLoop]
      split
      · split
        · rename_i he; rw [he] at hd; exact hd
        · rename_i he; rw [he] at hd; exact ih (i + 1) _ hds' hd
      · exact ih (i + 1) w hds' h
  unfold mkDirs
  split
  · exact h0
  · exact hloop _ 0 w (fun _ hn => hn) h0

/-- `MkDirs` touches no entry that exists and no entry it does not name. -/
theorem mkDirs_frame (pf : Platform) (path : Str) (io : Nat → DirIO) (w : World) {m : Name}
    (h : m ∉ dirNames pf path ∨ (w.fs m).node ≠ none) : (mkDirs pf path io w).2.fs m = w.fs m := by
  refine mkDirs_rule pf path io (fun w' => w'.fs m = w.fs m) ?_ w rfl
  intro w' n fail hn hw
  have hmn : m ≠ n ∨ (w'.fs m).node ≠ none := by
    rcases h with h | h
    · exact .inl (fun e => h (e ▸ hn))
    · exact .inr (by rw [hw]; exact h)
  rw [mkdir_frame w' fail hmn, hw]

theorem mkDirs_content (pf : Platform) (path : Str) (io : Nat → DirIO) (w : World) (m : Name) :
    (mkDirs pf path io w).2.content m = w.content m :=
  mkDirs_rule pf path io (fun w' => w'.content m = w.content m)
    (fun w' n fail _ hw => (mkdir_content w' n m fail).trans hw) w rfl

/-- What `MkDirs` leaves alone besides the entries. -/
theorem mkDirs_rest (pf : Platform) (path : Str) (io : Nat → DirIO) (w : World) :
    (mkDirs pf path io w).2.idx = w.idx ∧ (mkDirs pf path io w).2.files = w.files ∧
      (mkDirs pf path io w).2.calls = w.calls := by
  refine mkDirs_rule pf path io (fun w' => w'.idx = w.idx ∧ w'.files = w.files ∧ w'.calls = w.calls) ?_ w
    ⟨rfl, rfl, rfl⟩
  intro w' n fail _ hw
  unfold World.mkdir
  split
  · exact hw
  · split <;> exact hw

@[simp] theorem mkDirs_idx (pf : Platform) (path : Str) (io : Nat → DirIO) (w : World) :
    (mkDirs pf path io w).2.idx = w.idx := (mkDirs_rest pf path io w).1

@[simp] theorem mkDirs_files (pf : Platform) (path : Str) (io : Nat → DirIO) (w : World) :
    (mkDirs pf path io w).2.files = w.files := (mkDirs_rest pf path io w).2.1

@[simp] theorem mkDirs_calls (pf : Platform) (path : Str) (io : Nat → DirIO) (w : World) :
    (mkDirs pf path io w).2.calls = w.calls := (mkDirs_rest pf path io w).2.2

end CtiLog
