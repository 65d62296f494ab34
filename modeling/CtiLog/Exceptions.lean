import CtiLog.RecordText
/-
# The text of an exception

An `Exception` keeps its message only inside one text, with its code and the place it was thrown (exception.cpp:30).
All four can be read from the text again, the message whatever it is; so an exception whose message holds the text of
another one tells both (`wrapped_eq_iff`), and one that `CreateSymlink` throws tells which of its calls has failed
(`createSymlink_told`).

| here | there |
| --- | --- |
| `Exception`, `Exception.new` | `struct Exception` and its constructor (exception.cpp:30-40) |
| `Exception.getMsg`           | `getMsg` (exception.hpp:55); `what` is its `c_str()` |
| `Exception.wrap`             | `CreateSymlink` about a failed `GetCurrentWorkDirectory` (file.cpp:148-152) |
| `getCurrentWorkDirectory`, `createSymlink` | `GetCurrentWorkDirectory` (:116), `CreateSymlink` (:138) |
-/

namespace CtiLog

open Decimal

/-- The members. -/
structure Exception where
  msg : Str
  code : Int

namespace Exception

/-- `<<` of an `int` is `%d`. -/
def new (msg : Str) (code : Int) (file : Str) (line : Int) : Exception where
  msg := str "Exception: msg: `" ++ msg ++ str "', code: `" ++ fmtInt 0 code ++ str "', file: `" ++ file ++
    str "', line: `" ++ fmtInt 0 line ++ str "'."
  code := code

def getMsg (e : Exception) : Str := e.msg

/-- One exception about another. -/
def wrap (before : Str) (e : Exception) (file : Str) (line : Int) : Exception :=
  new (before ++ e.getMsg) e.code file line

end Exception

namespace Exception

variable {msg msg' file file' : Str} {code code' line line' : Int}

theorem backtick_not_mem_fmtInt (n : Int) : (96 : UInt8) ∉ fmtInt 0 n := by
  intro h
  rcases mem_fmtInt h with h | h
  · exact absurd h (by decide)
  · exact absurd h (by decide)

/-- Before the last three backticks that open something. -/
theorem getMsg_eq (msg : Str) (code : Int) (file : Str) (line : Int) :
    (new msg code file line).getMsg =
      (((str "Exception: msg: `" ++ msg ++ str "', code: ") ++ 96 :: (fmtInt 0 code ++ str "', file: ")) ++
        96 :: (file ++ str "', line: ")) ++ 96 :: (fmtInt 0 line ++ str "'.") := by
  have hcode : str "', code: `" = str "', code: " ++ [96] := by decide
  have hfile : str "', file: `" = str "', file: " ++ [96] := by decide
  have hline : str "', line: `" = str "', line: " ++ [96] := by decide
  unfold getMsg new
  rw [hcode, hfile, hline]
  simp

theorem backtick_not_mem_number (n : Int) {after : Str} (hafter : (96 : UInt8) ∉ after) :
    (96 : UInt8) ∉ fmtInt 0 n ++ after := by
  simp [backtick_not_mem_fmtInt, hafter]

/-- The last number is the line, whatever is before it. -/
theorem getMsg_line (h : (new msg code file line).getMsg = (new msg' code' file' line').getMsg) :
    line = line' ∧ (str "Exception: msg: `" ++ msg ++ str "', code: ") ++ 96 :: (fmtInt 0 code ++ str "', file: ") ++
        96 :: (file ++ str "', line: ") =
      (str "Exception: msg: `" ++ msg' ++ str "', code: ") ++ 96 :: (fmtInt 0 code' ++ str "', file: ") ++
        96 :: (file' ++ str "', line: ") := by
  rw [getMsg_eq, getMsg_eq] at h
  obtain ⟨hbefore, hline⟩ := append_cons_inj_last (backtick_not_mem_number line (by decide))
    (backtick_not_mem_number line' (by decide)) h
  exact ⟨fmtInt_inj.1 (List.append_cancel_right hline), hbefore⟩

/-- And the last number before the file is the code. -/
theorem getMsg_code (h : (str "Exception: msg: `" ++ msg ++ str "', code: ") ++ 96 :: (fmtInt 0 code ++ str "', file: ") =
    (str "Exception: msg: `" ++ msg' ++ str "', code: ") ++ 96 :: (fmtInt 0 code' ++ str "', file: ")) :
    msg = msg' ∧ code = code' := by
  obtain ⟨hmsg, hcode⟩ := append_cons_inj_last (backtick_not_mem_number code (by decide))
    (backtick_not_mem_number code' (by decide)) h
  exact ⟨List.append_cancel_left (List.append_cancel_right hmsg), fmtInt_inj.1 (List.append_cancel_right hcode)⟩

/-- **The text tells** the message, the code, the file and the line; the message may be anything. -/
theorem getMsg_eq_iff (hfile : (96 : UInt8) ∉ file) (hfile' : (96 : UInt8) ∉ file') :
    (new msg code file line).getMsg = (new msg' code' file' line').getMsg ↔
      msg = msg' ∧ code = code' ∧ file = file' ∧ line = line' := by
  have hplace : ∀ {f : Str}, (96 : UInt8) ∉ f → (96 : UInt8) ∉ f ++ str "', line: " := by
    intro f hf
    have hclean : (96 : UInt8) ∉ str "', line: " := by decide
    simp [hf, hclean]
  constructor
  · intro h
    obtain ⟨hline, hbefore⟩ := getMsg_line h
    obtain ⟨hcode, hf⟩ := append_cons_inj_last (hplace hfile) (hplace hfile') hbefore
    obtain ⟨hmsg, hcode⟩ := getMsg_code hcode
    exact ⟨hmsg, hcode, List.append_cancel_right hf, hline⟩
  · rintro ⟨rfl, rfl, rfl, rfl⟩
    rfl

/-- From one file, the text tells the code and the line, whatever the name of the file. -/
theorem getMsg_told (h : (new msg code file line).getMsg = (new msg' code' file line').getMsg) :
    code = code' ∧ line = line' := by
  obtain ⟨hline, hbefore⟩ := getMsg_line h
  exact ⟨(getMsg_code (List.append_cancel_right hbefore)).2, hline⟩

/-- **The text of an exception about another one tells both.** -/
theorem wrapped_eq_iff {before outer outer' : Str} {place place' : Int} (hfile : (96 : UInt8) ∉ file)
    (hfile' : (96 : UInt8) ∉ file') (houter : (96 : UInt8) ∉ outer) (houter' : (96 : UInt8) ∉ outer') :
    (wrap before (new msg code file line) outer place).getMsg =
        (wrap before (new msg' code' file' line') outer' place').getMsg ↔
      (msg = msg' ∧ code = code' ∧ file = file' ∧ line = line') ∧ outer = outer' ∧ place = place' := by
  unfold wrap
  rw [getMsg_eq_iff houter houter', List.append_cancel_left_eq, getMsg_eq_iff hfile hfile']
  constructor
  · rintro ⟨hinner, -, ho, hp⟩
    exact ⟨hinner, ho, hp⟩
  · rintro ⟨hinner, ho, hp⟩
    exact ⟨hinner, hinner.2.1, ho, hp⟩

/-- `getcwd` fails in `CreateSymlink`: the directory is gone, or it may not be read. -/
theorem wrapped_eq_iff_getcwd :
    (wrap (str "GetCurrentWorkDirectory fail ") (new (str "getcwd fail") (-2) (str "file.cpp") 122)
        (str "file.cpp") 151).getMsg ≠
      (wrap (str "GetCurrentWorkDirectory fail ") (new (str "getcwd fail") (-13) (str "file.cpp") 122)
        (str "file.cpp") 151).getMsg := by
  intro h
  have htold := (wrapped_eq_iff (by decide) (by decide) (by decide) (by decide)).1 h
  exact absurd htold.1.2.1 (by decide)

end Exception

/-! ## Links -/

/-- The working directory, and the links: where each is, to what it leads, and its name. -/
structure Links where
  cwd : Str
  made : List (Str × Str × Str)

/-- The system calls of `CreateSymlink` that fail, with their `errno`. -/
structure LinkIO where
  getcwd : Option Nat
  chdir : Option Nat
  symlink : Option Nat
  back : Option Nat

/-- `e ? -e : -EPERM`. -/
def Exception.ofErrno (e : Nat) : Int := if e = 0 then -EPERM else -e

section
-- `__FILE__`, and where a path leads from a directory
variable (src : Str) (go : Str → Str → Str)

def getCurrentWorkDirectory (io : LinkIO) (p : Links) : Except Exception Str :=
  match io.getcwd with
  | some e => .error (.new (str "getcwd fail") (Exception.ofErrno e) src 122)
  | none => .ok p.cwd

/-- `::symlink`, and what is thrown for it. -/
def link (io : LinkIO) (filename symname : Str) (p : Links) : Except Exception Unit × Links :=
  match io.symlink with
  | some e => (.error (.new (str "symlink fail") (Exception.ofErrno e) src 169), p)
  | none => (.ok (), { p with made := p.made ++ [(p.cwd, filename, symname)] })

/-- Nobody looks whether the way back succeeds. -/
def createSymlink (io : LinkIO) (directory filename symname : Str) (p : Links) : Except Exception Unit × Links :=
  if directory = [] then link src io filename symname p
  else
    match getCurrentWorkDirectory src io p with
    | .error e => (.error (e.wrap (str "GetCurrentWorkDirectory fail ") src 151), p)
    | .ok oldPwd =>
      match io.chdir with
      | some e => (.error (.new (str "chdir fail") (Exception.ofErrno e) src 157), p)
      | none =>
        let r := link src io filename symname { p with cwd := go directory p.cwd }
        (r.1, if io.back.isSome then r.2 else { r.2 with cwd := go oldPwd r.2.cwd })

end

/-- The calls whose failure is thrown. -/
inductive LinkCall where
  | getcwd | chdir | symlink
deriving DecidableEq

/-- The first call that fails, and its code. -/
def LinkIO.failed (io : LinkIO) (directory : Str) : Option (LinkCall × Int) :=
  let symlink := io.symlink.map fun e => (LinkCall.symlink, Exception.ofErrno e)
  if directory = [] then symlink
  else
    (io.getcwd.map fun e => (LinkCall.getcwd, Exception.ofErrno e)).or
      ((io.chdir.map fun e => (LinkCall.chdir, Exception.ofErrno e)).or symlink)

/-- What is thrown for a failed call. -/
def LinkCall.thrown (src : Str) : LinkCall × Int → Exception
  | (.getcwd, code) =>
    (Exception.new (str "getcwd fail") code src 122).wrap (str "GetCurrentWorkDirectory fail ") src 151
  | (.chdir, code) => .new (str "chdir fail") code src 157
  | (.symlink, code) => .new (str "symlink fail") code src 169

section
variable {src : Str} {go : Str → Str → Str} {io io' : LinkIO} {p p' : Links}
variable {directory directory' filename filename' symname symname' : Str}

theorem link_eq : link src io filename symname p =
    match io.symlink with
    | some e => (.error (LinkCall.thrown src (.symlink, Exception.ofErrno e)), p)
    | none => (.ok (), { p with made := p.made ++ [(p.cwd, filename, symname)] }) := rfl

/-- **What a call does**: the first failure is thrown, without one there is a link; and the way back. -/
theorem createSymlink_eq : createSymlink src go io directory filename symname p =
    (match io.failed directory with | some f => .error (LinkCall.thrown src f) | none => .ok (),
      ⟨if directory = [] ∨ io.getcwd ≠ none ∨ io.chdir ≠ none then p.cwd
        else if io.back = none then go p.cwd (go directory p.cwd) else go directory p.cwd,
      p.made ++ if io.failed directory = none then
        [(if directory = [] then p.cwd else go directory p.cwd, filename, symname)] else []⟩) := by
  by_cases hd : directory = []
  · cases hs : io.symlink with
    | none => simp [createSymlink, LinkIO.failed, link_eq, hd, hs]
    | some e => simp [createSymlink, LinkIO.failed, link_eq, hd, hs]
  · cases hg : io.getcwd with
    | some e =>
      simp [createSymlink, getCurrentWorkDirectory, LinkIO.failed, LinkCall.thrown, Exception.ofErrno, hd, hg]
    | none =>
      cases hc : io.chdir with
      | some e => simp [createSymlink, getCurrentWorkDirectory, LinkIO.failed, LinkCall.thrown, hd, hg, hc]
      | none =>
        cases hs : io.symlink with
        | none =>
          cases hb : io.back <;>
            simp [createSymlink, getCurrentWorkDirectory, LinkIO.failed, link_eq, hd, hg, hc, hs, hb]
        | some e =>
          cases hb : io.back <;>
            simp [createSymlink, getCurrentWorkDirectory, LinkIO.failed, link_eq, hd, hg, hc, hs, hb]

/-- The place in the source tells the call. -/
theorem LinkCall.thrown_inj (f f' : LinkCall × Int) : (thrown src f).getMsg = (thrown src f').getMsg ↔ f = f' := by
  constructor
  · intro h
    obtain ⟨call, code⟩ := f
    obtain ⟨call', code'⟩ := f'
    cases call <;> cases call' <;> obtain ⟨rfl, hline⟩ := Exception.getMsg_told h <;>
      first | rfl | exact absurd hline (by decide)
  · rintro rfl
    rfl

/-- The text of what is thrown. -/
def told (r : Except Exception Unit) : Option Str :=
  match r with
  | .error e => some e.getMsg
  | .ok _ => none

/-- **What `CreateSymlink` throws tells which of its calls has failed, and how.** -/
theorem createSymlink_told :
    told (createSymlink src go io directory filename symname p).1 =
        told (createSymlink src go io' directory' filename' symname' p').1 ↔
      io.failed directory = io'.failed directory' := by
  rw [createSymlink_eq, createSymlink_eq]
  cases io.failed directory with
  | none =>
    cases io'.failed directory' with
    | none => simp [told]
    | some f' => simp [told]
  | some f =>
    cases io'.failed directory' with
    | none => simp [told]
    | some f' => simp [told, LinkCall.thrown_inj]

/-- **The working directory is as before, whatever is thrown**, unless the way back fails. -/
theorem createSymlink_cwd (hback : io.back = none) (habs : ∀ q, go p.cwd q = p.cwd) :
    (createSymlink src go io directory filename symname p).2.cwd = p.cwd := by
  rw [createSymlink_eq]
  simp [hback, habs]

end

/-- There is no `/x`; or there is one, and in it a `b`. -/
theorem createSymlink_told_missing :
    told (createSymlink (str "file.cpp") (fun q _ => q) ⟨none, some 2, none, none⟩ (str "/x") (str "a") (str "b")
        ⟨str "/", []⟩).1 ≠
      told (createSymlink (str "file.cpp") (fun q _ => q) ⟨none, none, some 17, none⟩ (str "/x") (str "a") (str "b")
        ⟨str "/", []⟩).1 := by
  intro h
  exact absurd (createSymlink_told.1 h) (by decide)

end CtiLog
