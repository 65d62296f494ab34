import CtiLog.SpinLevel
/-
# The macros of loghelper.cpp.hpp

A program that logs through the macros alone. Most of them look at the level first, so that a message nobody reads is
not built; `append` looks again. A message is an expression of the program, which may change variables and throw, and
is evaluated where the macro has it: behind the look.

| here | there |
| --- | --- |
| `Expr`                   | an expression of the program, over its variables |
| `Macro.guard`, `Macro.build`, `Macro.throws` | loghelper.cpp.hpp:26-86; `kN` is the name the file defines, `Place` its `__FILE__` and `__LINE__` |
| `Logger.isLogable`       | log.hpp:337 |
| `Config`                 | the setters that a program calls between its statements |

* `guards_invisible` — without a pending level, and where the messages only read, the first look changes nothing: not
  the records, not the callbacks, not what is thrown, not the variables, not the files.
* `pending_kept` — with a level pending it does: the statement that is turned away leaves the level to the next one.
-/

namespace CtiLog

variable {σ : Type}

/-- It gives a value or throws a text, and may have changed variables. -/
abbrev Expr (σ α : Type) := ExceptT Str (StateM σ) α

/-- It gives a value and changes nothing. -/
def Expr.Reads {α : Type} (e : Expr σ α) : Prop := ∀ s, ∃ v, e.run.run s = (.ok v, s)

structure Place where
  file : Str
  line : Nat

/-- ` (file+line)`, as the macros append it to a message. -/
def Place.text (p : Place) : Str := str " (" ++ p.file ++ str "+" ++ str (toString p.line) ++ str ")"

inductive Macro (σ : Type) where
  | fatal (msg : Expr σ Str)
  | error (msg : Expr σ Str)
  | warn (msg : Expr σ Str)
  | note (msg : Expr σ Str)
  | info (msg : Expr σ Str)
  | trace (func : Str)
  | debug (msg : Expr σ Str)
  | detail (msg : Expr σ Str)
  /-- `Assert(cond, msg)`, with the text of `cond`. -/
  | assert_ (cond : Expr σ Bool) (text : Str) (msg : Expr σ Str)
  | throw_ (msg : Expr σ Str)

/-- The message and its place as one text, for `f`, `e`, `w`, `n`, `i` and `d`. -/
def streamed (kN : Str) (p : Place) (lvl : LogLevel) (msg : Str) : Msg := ⟨some kN, none, -1, msg ++ p.text, lvl⟩

namespace Macro

def guard : Macro σ → Option LogLevel
  | fatal _ => some .fata
  | error _ => some .erro
  | warn _ => some .warn
  | note _ => some .note
  | info _ => some .info
  | debug _ => some .debu
  | detail _ => some .deta
  | trace _ | assert_ .. | throw_ _ => none

/-- What comes behind the guard, up to the call of `append`. -/
def build (kN : Str) (p : Place) : Macro σ → Expr σ (Option Msg)
  | fatal msg => return some (streamed kN p .fata (← msg))
  | error msg => return some (streamed kN p .erro (← msg))
  | warn msg => return some (streamed kN p .warn (← msg))
  | note msg => return some (streamed kN p .note (← msg))
  | info msg => return some (streamed kN p .info (← msg))
  | trace func => return some ⟨some kN, some p.file, p.line, func, .trac⟩
  | debug msg => return some (streamed kN p .debu (← msg))
  | detail msg => return some ⟨some kN, some p.file, p.line, ← msg, .deta⟩
  | assert_ cond text msg => do
    if ← cond then return none
    return some (streamed kN p .erro (text ++ str " fail: " ++ (← msg)))
  | throw_ msg => return some (streamed kN p .erro (← msg))

/-- Whether the text that was logged is thrown. -/
def throws : Macro σ → Bool
  | assert_ .. | throw_ _ => true
  | _ => false

/-- The message behind a guard. -/
def guarded : Macro σ → Option (Expr σ Str)
  | fatal msg | error msg | warn msg | note msg | info msg | debug msg | detail msg => some msg
  | trace _ | assert_ .. | throw_ _ => none

end Macro

namespace Logger

def isLogable (ll : LogLevel) (l : Logger) : Bool := decide (ll.val ≤ l.logLevel.val)

def enableIdx (enable : Bool) (l : Logger) : Logger := { l with hasIdx := enable }
def enableTid (enable : Bool) (l : Logger) : Logger := { l with hasTid := enable }

end Logger

inductive Config where
  | setLogLevel (ll : LogLevel)
  | toggleLogLevel
  | setMaxSize (maxSize : BitVec 32)
  | setOutputs (o : Outputs)
  | enableIdx (enable : Bool)
  | enableTid (enable : Bool)

def Config.set : Config → Logger → Logger
  | .setLogLevel ll, l => l.setLogLevel ll
  | .toggleLogLevel, l => l.toggleLogLevel
  | .setMaxSize maxSize, l => l.setMaxSize maxSize
  | .setOutputs o, l => l.setOutputs o
  | .enableIdx enable, l => l.enableIdx enable
  | .enableTid enable, l => l.enableTid enable

/-- A line of a program; the outcomes of its `append` come with it. -/
inductive Line (σ : Type) where
  | config (c : Config)
  | assign (f : σ → σ)
  | use (m : Macro σ) (p : Place) (io : AppendIO)

/-- What a program has done when it ends, or when an exception leaves it. -/
structure Ran (σ : Type) where
  entries : List Entry
  notices : List Notice
  thrown : Option Str
  log : Logger
  world : World
  vars : σ

namespace Ran

/-- `append`, before what comes after it. -/
def after (a : Appended) (r : Ran σ) : Ran σ :=
  { r with entries := a.entry.toList ++ r.entries, notices := a.notice.toList ++ r.notices }

end Ran

/-- What is behind the guard, and then the rest of the program. -/
def Macro.run (pf : Platform) (kN : Str) (p : Place) (io : AppendIO) (m : Macro σ) (rest : Logger → World → σ → Ran σ)
    (l : Logger) (w : World) (s : σ) : Ran σ :=
  match (m.build kN p).run.run s with
  | (.error e, s) => ⟨[], [], some e, l, w, s⟩
  | (.ok none, s) => rest l w s
  | (.ok (some msg), s) =>
    match l.append5 pf io msg w with
    | (a, l, w) => Ran.after a (if m.throws then ⟨[], [], some msg.msg, l, w, s⟩ else rest l w s)

/-- The lines in turn, up to the first that throws; with `guards` the macros look at the level, as they do. -/
def exec (pf : Platform) (kN : Str) (guards : Bool) : List (Line σ) → Logger → World → σ → Ran σ
  | [], l, w, s => ⟨[], [], none, l, w, s⟩
  | .config c :: lines, l, w, s => exec pf kN guards lines (c.set l) w s
  | .assign f :: lines, l, w, s => exec pf kN guards lines l w (f s)
  | .use m p io :: lines, l, w, s =>
    if guards && !m.guard.all l.isLogable then exec pf kN guards lines l w s
    else m.run pf kN p io (exec pf kN guards lines) l w s

/-- A message behind a guard only reads. -/
def Line.Quiet : Line σ → Prop
  | .use m _ _ => ∀ msg ∈ m.guarded, msg.Reads
  | _ => True

/-! ## The two looks at the level -/

section
variable {pf : Platform} {l : Logger} {w : World}

/-- A guard asks for the level of its own record, and what is behind it throws nothing of its own. -/
theorem build_guarded {kN : Str} {p : Place} {m : Macro σ} (hquiet : ∀ msg ∈ m.guarded, msg.Reads) {lvl : LogLevel}
    (hlvl : m.guard = some lvl) (s : σ) :
    ∃ msg, (m.build kN p).run.run s = (.ok (some msg), s) ∧ msg.logLevel = lvl ∧ m.throws = false := by
  have hreads : ∀ {msg : Expr σ Str} (f : Str → Msg), msg.Reads → (∀ t, (f t).logLevel = lvl) →
      ∃ m', ((do return some (f (← msg)) : Expr σ (Option Msg))).run.run s = (.ok (some m'), s) ∧
        m'.logLevel = lvl := by
    intro msg f hmsg hf
    obtain ⟨t, ht⟩ := hmsg s
    refine ⟨f t, ?_, hf t⟩
    simp only [ExceptT.run_bind, StateT.run_bind, ht]
    rfl
  cases m with
  | trace | assert_ | throw_ => cases hlvl
  | detail msg =>
    obtain rfl := Option.some.inj hlvl
    obtain ⟨m', hm', hlevel⟩ := hreads (fun t => ⟨some kN, some p.file, p.line, t, .deta⟩) (hquiet msg rfl) fun _ => rfl
    exact ⟨m', hm', hlevel, rfl⟩
  | fatal msg | error msg | warn msg | note msg | info msg | debug msg =>
    obtain rfl := Option.some.inj hlvl
    obtain ⟨m', hm', hlevel⟩ := hreads (streamed kN p _) (hquiet msg rfl) fun _ => rfl
    exact ⟨m', hm', hlevel, rfl⟩

/-- Nothing is pending, and the level is too high: `append` does nothing. -/
theorem append5_turned_away (io : AppendIO) (m : Msg) (hspin : l.spinOnceLogLevel = .unchange)
    (hlevel : l.isLogable m.logLevel = false) : ∃ ret, l.append5 pf io m w = (⟨ret, none, none⟩, l, w) := by
  have hgate : l.gate m.logLevel = (none, l) := by
    have hlt : l.logLevel.val < m.logLevel.val := by
      simpa [Logger.isLogable] using hlevel
    unfold Logger.gate
    rw [if_neg (not_not.2 hspin), if_pos hlt]
  unfold Logger.append5 Logger.enter
  by_cases hpath : l.path = []
  · rw [if_pos hpath]
    exact ⟨_, rfl⟩
  · rw [if_neg hpath, hgate]
    exact ⟨_, rfl⟩

/-- No level is pending after an `append`. -/
theorem append5_spin (io : AppendIO) (m : Msg) (hspin : l.spinOnceLogLevel = .unchange) :
    (l.append5 pf io m w).2.1.spinOnceLogLevel = .unchange := by
  by_cases hpath : l.path = []
  · unfold Logger.append5 Logger.enter
    rw [if_pos hpath]
    exact hspin
  · obtain ⟨o, ho⟩ := @append5_settings pf l w io m hpath
    rw [ho, gate_takes]

theorem config_spin (c : Config) (hspin : l.spinOnceLogLevel = .unchange) : (c.set l).spinOnceLogLevel = .unchange := by
  cases c with
  | setLogLevel ll =>
    show (l.setLogLevel ll).spinOnceLogLevel = _
    unfold Logger.setLogLevel
    split <;> exact hspin
  | setMaxSize maxSize =>
    show (l.setMaxSize maxSize).spinOnceLogLevel = _
    unfold Logger.setMaxSize
    split
    · split <;> exact hspin
    · exact hspin
  | _ => exact hspin

/-- **The guards are only an optimisation.** Where no level of a `getX` is pending, and the guarded messages only
read, a program ends the same with the guards of its macros and without them, whatever fails and wherever it is left
by an exception. -/
theorem guards_invisible (kN : Str) (lines : List (Line σ)) (s : σ) (hquiet : ∀ line ∈ lines, line.Quiet)
    (hspin : l.spinOnceLogLevel = .unchange) : exec pf kN true lines l w s = exec pf kN false lines l w s := by
  induction lines generalizing l w s with
  | nil => rfl
  | cons line lines ih =>
    have hrest : ∀ line ∈ lines, line.Quiet := fun line hline => hquiet line (List.mem_cons_of_mem _ hline)
    cases line with
    | config c => exact ih s hrest (config_spin c hspin)
    | assign f => exact ih (f s) hrest hspin
    | use m p io =>
      unfold exec
      have hplain : ¬ (false && !m.guard.all l.isLogable) = true := by simp
      rw [if_neg hplain]
      by_cases hguard : m.guard.all l.isLogable = true
      · -- the same statement, and the rest of the program from a state without a pending level
        rw [if_neg (by simp [hguard])]
        unfold Macro.run
        split
        · rfl
        · exact ih _ hrest hspin
        · rename_i msg s' hbuild
          have hnext := @append5_spin pf l w io msg hspin
          generalize l.append5 pf io msg w = r at hnext ⊢
          obtain ⟨a, l', w'⟩ := r
          dsimp only
          rw [ih s' hrest hnext]
      · -- what the guard turns away, `append` would
        obtain ⟨lvl, hlvl, hlow⟩ : ∃ lvl, m.guard = some lvl ∧ l.isLogable lvl = false := by
          cases hg : m.guard with
          | none => simp [hg] at hguard
          | some lvl => exact ⟨lvl, rfl, by simpa [hg] using hguard⟩
        obtain ⟨msg, hbuild, hlevel, hthrows⟩ := @build_guarded σ kN p m (hquiet _ List.mem_cons_self) lvl hlvl s
        obtain ⟨ret, happend⟩ := @append5_turned_away pf l w io msg hspin (hlevel ▸ hlow)
        rw [if_pos (by simp [hguard]), Macro.run, hbuild]
        dsimp only
        rw [happend, hthrows]
        exact ih s hrest hspin

end

/-! ### A program with a counter -/

def exampleCpp (n : Nat) : Place := ⟨str "example.cpp", n⟩

/-- `"data1=" << data1`. -/
def data1 : Expr Nat Str := return str "data1=" ++ str (toString (← get))

/-- A level, an assignment, a message that is turned away, and a `Throw`. -/
def fourLines : List (Line Nat) :=
  [.config (.setLogLevel .erro), .assign (· + 100), .use (.info data1) (exampleCpp 69) .ok,
    .use (.throw_ (return str "some things error!")) (exampleCpp 60) .ok]

theorem guards_invisible_four :
    exec plain (str "main") true fourLines freshA (oneFile []) 0 =
      exec plain (str "main") false fourLines freshA (oneFile []) 0 := by
  have hdata1 : data1.Reads := fun s => ⟨str "data1=" ++ str (toString s), rfl⟩
  have hquiet : ∀ line ∈ fourLines, line.Quiet := by
    unfold fourLines
    simp only [List.forall_mem_cons]
    refine ⟨trivial, trivial, ?_, ?_, by simp⟩
    · rintro _ ⟨⟩
      exact hdata1
    · rintro _ ⟨⟩
  exact guards_invisible (str "main") fourLines 0 hquiet rfl

/-- `Info(++n)` counts only where `Info` is read. -/
example :
    let count : Expr Nat Str := do
      set ((← get) + 1)
      return str (toString (← get))
    let lines : List (Line Nat) := [.config (.setLogLevel .erro), .use (.info count) (exampleCpp 1) .ok]
    (exec plain (str "main") true lines freshA (oneFile []) 0).vars = 0 ∧
      (exec plain (str "main") false lines freshA (oneFile []) 0).vars = 1 :=
  ⟨rfl, rfl⟩

/-- **A pending level is left or taken**: `getDebug` has asked, then comes an `Info` above the level of the logger. -/
theorem pending_kept :
    let l := { freshA with spinOnceLogLevel := .debu }
    let lines : List (Line Unit) := [.use (.info (return str "x")) (exampleCpp 1) .ok]
    (exec plain (str "main") true lines l (oneFile []) ()).log.spinOnceLogLevel = .debu ∧
      (exec plain (str "main") false lines l (oneFile []) ()).log.spinOnceLogLevel = .unchange :=
  ⟨rfl, rfl⟩

end CtiLog
