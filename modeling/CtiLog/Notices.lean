import CtiLog.WholeRecord
/-
# Who is notified of a record

Both overloads of `append` end with the callback, but not after the same records. With five arguments every record
that is counted is announced, also one that no output took. With two arguments a record that the file does not take is
not announced, even if it is on the console.

| here | there |
| --- | --- |
| `AppendCall` | a call of `append`, of five arguments (log.cpp:191) or of two (:336) |
| `Listened`   | what `tryDoAcCb` (log.cpp:428) looks at |
| `Reached`    | the console, or the file, takes the record |

* `append5_notice`, `append2_notice` — which appends notify.
* `notified_iff` — when these are the appends whose records reached an output.
-/

namespace CtiLog

/-- A call of either overload. `printed` is what comes of the `fprintf` to the console, which neither looks at. -/
inductive AppendCall where
  | five (io : AppendIO) (m : Msg) (printed : Bool)
  | two (io : Logger.Append2IO) (msg : Str) (logLevel : LogLevel) (printed : Bool)

namespace AppendCall

def run (pf : Platform) (c : AppendCall) (l : Logger) (w : World) : Appended × Logger × World :=
  match c with
  | five io m _ => l.append5 pf io m w
  | two io msg ll _ => l.append2 io msg ll w

/-- The name the record is announced under: empty if there is none. -/
def name : AppendCall → Str
  | five _ m _ => m.name.getD []
  | two .. => []

def logLevel : AppendCall → LogLevel
  | five _ m _ => m.logLevel
  | two _ _ ll _ => ll

def printed : AppendCall → Bool
  | five _ _ p | two _ _ _ p => p

/-- The stream of the log when the record is written: only five arguments open one. -/
def stream (pf : Platform) (c : AppendCall) (l : Logger) (w : World) : Option Stream :=
  match c with
  | five io m _ => l.logStream pf io m.logLevel w
  | two .. => l.log

/-- The `fwrite` of the record takes all of it. -/
def WritesAll (c : AppendCall) (l : Logger) (w : World) : Prop :=
  match c with
  | five io m _ => ∀ lvl ∈ (l.gate m.logLevel).1, (l.lineOf io m lvl w).length ≤ io.line.taken
  | two io msg _ _ => msg.length ≤ io.write.taken

/-- There is a callback, and the name is in its filters. -/
def Listened (c : AppendCall) (l : Logger) : Prop := l.appendCallback = true ∧ c.name ∈ l.acNameFilters

/-- The logger has a path, and the record passes the level gate. -/
def Passed (c : AppendCall) (l : Logger) : Prop := l.path ≠ [] ∧ (l.gate c.logLevel).1 ≠ none

def OnConsole (c : AppendCall) (l : Logger) : Prop := l.outputs.testFlag .coutOrCerr = true ∧ c.printed = true

def InFile (pf : Platform) (c : AppendCall) (l : Logger) (w : World) : Prop :=
  l.outputs.testFlag .file = true ∧ (c.stream pf l w).isSome = true ∧ c.WritesAll l w

/-- Some output takes the record. -/
def Reached (pf : Platform) (c : AppendCall) (l : Logger) (w : World) : Prop := c.OnConsole l ∨ c.InFile pf l w

/-- The callback is called, once, for a record that passed the gate and reached an output, and for no other. -/
def NotifiesReached (pf : Platform) (c : AppendCall) (l : Logger) (w : World) : Prop :=
  (c.run pf l w).1.notice.isSome = true ↔ c.Listened l ∧ c.Passed l ∧ c.Reached pf l w

/-- With five arguments the record is counted: nothing had to be opened, or it was, or there is the console. With two,
the file is no output or takes the record. -/
def Announces (pf : Platform) (c : AppendCall) (l : Logger) (w : World) : Prop :=
  match c with
  | five io m _ => ((l.gate m.logLevel).2.ensureLog pf io.reset0 io.fit w).1 = none
  | two .. => l.outputs.testFlag .file = true → c.InFile pf l w

/-- With five arguments: if the log can be opened where it has to be, some output takes the record. With two: if the
file is an output, it takes what the console takes, and if it is not, the console takes the record. -/
def Taken (pf : Platform) (c : AppendCall) (l : Logger) (w : World) : Prop :=
  match c with
  | five io m _ => ((l.gate m.logLevel).2.ensureLog pf io.reset0 io.fit w).1 = none → c.Reached pf l w
  | two .. => if l.outputs.testFlag .file = true then c.OnConsole l → c.InFile pf l w else c.OnConsole l

end AppendCall

section
variable {pf : Platform} {l l' : Logger} {w : World}

/-! ## Which appends notify -/

theorem tryDoAcCb_isSome (name : Str) (lvl : LogLevel) (msg : Str) :
    (l.tryDoAcCb name lvl msg).isSome = true ↔ l.appendCallback = true ∧ name ∈ l.acNameFilters := by
  unfold Logger.tryDoAcCb
  by_cases h : (l.appendCallback && l.acNameFilters ≠ [] && l.acNameFilters.contains name) = true
  · rw [if_pos h]
    simp only [Bool.and_eq_true, List.contains_iff_mem] at h
    exact iff_of_true rfl ⟨h.1.1, h.2⟩
  · rw [if_neg h]
    refine iff_of_false (by simp) ?_
    rintro ⟨hcallback, hmem⟩
    have hne : l.acNameFilters ≠ [] := List.ne_nil_of_mem hmem
    exact h (by simp [hcallback, hne, hmem])

theorem append5_notice (io : AppendIO) (m : Msg) : (l.append5 pf io m w).1.notice.isSome = true ↔
    (l.appendCallback = true ∧ m.name.getD [] ∈ l.acNameFilters) ∧ (l.path ≠ [] ∧ (l.gate m.logLevel).1 ≠ none) ∧
      l.outputs ≠ .none ∧ ((l.gate m.logLevel).2.ensureLog pf io.reset0 io.fit w).1 = none := by
  have henter := enter_enters pf io m.logLevel l w
  have hsettings := @append5_settings pf l w io m
  rw [gate_takes] at hsettings ⊢
  unfold Logger.append5 at hsettings ⊢
  generalize l.enter pf io m.logLevel w = e at *
  cases henter with
  | pathless hpath => simp [hpath]
  | gated _ hgate => simp [hgate]
  | silent _ _ hnone => simp [hnone]
  | refused _ _ _ he => simp [he]
  | entered hpath hgate hout he =>
    obtain ⟨o, ho⟩ := hsettings hpath
    dsimp only at ho ⊢
    rw [tryDoAcCb_isSome, ho, he, hgate]
    simp [hpath, hout]

theorem append2_notice (io : Logger.Append2IO) (msg : Str) (ll : LogLevel) :
    (l.append2 io msg ll w).1.notice.isSome = true ↔
    (l.appendCallback = true ∧ [] ∈ l.acNameFilters) ∧ (l.path ≠ [] ∧ (l.gate ll).1 ≠ none) ∧ l.outputs ≠ .none ∧
      (l.outputs.testFlag .file = true → l.log.isSome = true ∧ msg.length ≤ io.write.taken) := by
  have htakes := gate_takes ll l
  unfold Logger.append2
  by_cases hpath : l.path = []
  · simp [hpath]
  rw [if_neg hpath]
  generalize l.gate ll = g at *
  obtain ⟨o, l₁⟩ := g
  obtain rfl : l₁ = { l with spinOnceLogLevel := .unchange } := htakes
  cases o with
  | none => simp
  | some lvl =>
    dsimp only
    by_cases hnone : l.outputs = .none
    · rw [if_pos hnone]
      simp [hnone]
    rw [if_neg hnone]
    by_cases hfile : l.outputs.testFlag .file = true
    · cases hlog : l.log with
      | none =>
        -- no log: the console may have the record, and nobody hears of it
        rw [if_pos hfile]
        split <;> simp [hfile]
      | some s =>
        rw [if_neg (by simp), if_pos hfile]
        dsimp only
        rw [fwrite_count]
        by_cases hall : msg.length ≤ io.write.taken
        · rw [if_neg (by omega)]
          dsimp only
          rw [tryDoAcCb_isSome]
          simp [hpath, hnone, hall]
        · rw [if_pos (by omega)]
          simp [hall, hfile]
    · rw [if_neg (by simp [hfile]), if_neg hfile]
      dsimp only
      rw [tryDoAcCb_isSome]
      simp [hpath, hnone, hfile]

/-- **Which appends notify.** -/
theorem run_notice (c : AppendCall) : (c.run pf l w).1.notice.isSome = true ↔
    c.Listened l ∧ c.Passed l ∧ l.outputs ≠ .none ∧ c.Announces pf l w := by
  cases c with
  | five io m p => exact append5_notice io m
  | two io msg ll p =>
    refine (append2_notice io msg ll).trans (and_congr_right' (and_congr_right' (and_congr_right' ?_)))
    exact forall_congr' fun hfile => (and_iff_right hfile).symm

/-! ## Which records reach an output -/

theorem reached_outputs {c : AppendCall} (h : c.Reached pf l w) : l.outputs ≠ .none := by
  intro hnone
  rcases h with ⟨hflag, -⟩ | ⟨hflag, -⟩
  all_goals
    rw [hnone] at hflag
    cases hflag

/-- A record that reaches an output was not refused for want of a log. -/
theorem reached_entered {io : AppendIO} {m : Msg} {p : Bool} (hpath : l.path ≠ [])
    (h : (AppendCall.five io m p).Reached pf l w) :
    ((l.gate m.logLevel).2.ensureLog pf io.reset0 io.fit w).1 = none := by
  have hgate := gate_takes m.logLevel l
  cases hr : ((l.gate m.logLevel).2.ensureLog pf io.reset0 io.fit w).1 with
  | none => rfl
  | some r =>
    exfalso
    obtain ⟨hconsole, hlog⟩ := ensureLog_refused (by rw [hgate]; exact hpath) hr
    rcases h with ⟨hflag, -⟩ | ⟨-, hstream, -⟩
    · rw [hgate] at hconsole
      exact absurd hflag (by simp [hconsole])
    · have hopen : (l.logStream pf io m.logLevel w).isSome = true := hstream
      unfold Logger.logStream at hopen
      rw [if_neg hpath, hlog] at hopen
      cases hopen

/-- The records an append announces are those that reach an output when they are `Taken`. -/
theorem taken_iff (c : AppendCall) (hpath : l.path ≠ []) :
    (c.Announces pf l w ↔ c.Reached pf l w) ↔ c.Taken pf l w := by
  cases c with
  | five io m p => exact ⟨fun h => h.1, fun h => ⟨h, reached_entered hpath⟩⟩
  | two io msg ll p =>
    unfold AppendCall.Announces AppendCall.Reached AppendCall.Taken
    dsimp only
    by_cases hfile : l.outputs.testFlag .file = true
    · rw [if_pos hfile]
      constructor
      · exact fun h hconsole => h.2 (.inl hconsole) hfile
      · exact fun h => ⟨fun hin => .inr (hin hfile), fun hreach _ => hreach.elim h id⟩
    · rw [if_neg hfile]
      constructor
      · exact fun h => (h.1 fun hf => absurd hf hfile).resolve_right fun hin => hfile hin.1
      · exact fun h => ⟨fun _ => .inl h, fun _ hf => absurd hf hfile⟩

/-- **When the records that are announced are those that reached an output**: nobody listens, or the record does not
pass, or there is no output, or the record is `Taken`. -/
theorem notified_iff (pf : Platform) (c : AppendCall) (l : Logger) (w : World) :
    c.NotifiesReached pf l w ↔ (c.Listened l → c.Passed l → l.outputs ≠ .none → c.Taken pf l w) := by
  unfold AppendCall.NotifiesReached
  rw [run_notice]
  constructor
  · intro h hlist hpass hout
    refine (taken_iff c hpass.1).1 ⟨fun ha => ?_, fun hr => ?_⟩
    · exact (h.1 ⟨hlist, hpass, hout, ha⟩).2.2
    · exact (h.2 ⟨hlist, hpass, hr⟩).2.2.2
  · intro h
    constructor
    · rintro ⟨hlist, hpass, hout, ha⟩
      exact ⟨hlist, hpass, ((taken_iff c hpass.1).2 (h hlist hpass hout)).1 ha⟩
    · rintro ⟨hlist, hpass, hr⟩
      have hout := reached_outputs hr
      exact ⟨hlist, hpass, hout, ((taken_iff c hpass.1).2 (h hlist hpass hout)).2 hr⟩

end

/-! ## One logger that is listened to -/

/-- A logger for the file `a`, with a callback for records without a name. -/
def heardA (outputs : Outputs) : Logger :=
  { freshA with outputs := outputs, appendCallback := true, acNameFilters := [[]] }

/-- With two arguments, on a logger that never opened its log: the console takes the record. -/
def helloTwo : AppendCall := .two ⟨⟨8192, 0⟩, .ok, 0⟩ (str "hello") .note true

/-- With five, the log opened, and a `fwrite` that takes nothing. -/
def helloFive : AppendCall := .five { AppendIO.ok with line := ⟨0, 0⟩, errno := 28 } hello true

/-- **Printed and not announced, announced and not written.** -/
theorem notices_unlike :
    ((helloTwo.run plain (heardA .both) (oneFile [])).1.notice.isSome = false ∧
      ¬ helloTwo.NotifiesReached plain (heardA .both) (oneFile [])) ∧
    (helloFive.run plain (heardA .file) (oneFile [])).1.notice.isSome = true ∧
      ¬ helloFive.NotifiesReached plain (heardA .file) (oneFile []) := by
  have hsilent : (helloTwo.run plain (heardA .both) (oneFile [])).1.notice.isSome = false := by decide
  have hheard : (helloFive.run plain (heardA .file) (oneFile [])).1.notice.isSome = true := by decide
  refine ⟨⟨hsilent, fun h => ?_⟩, hheard, fun h => ?_⟩
  · have hpass : helloTwo.Passed (heardA .both) := ⟨by decide, by decide⟩
    have hconsole : helloTwo.OnConsole (heardA .both) := ⟨by decide, rfl⟩
    have hnotice := h.2 ⟨⟨rfl, by decide⟩, hpass, .inl hconsole⟩
    rw [hsilent] at hnotice
    cases hnotice
  · obtain ⟨-, -, hconsole | ⟨-, -, hall⟩⟩ := h.1 hheard
    · exact absurd hconsole.1 (by decide)
    · exact absurd (hall .note (by decide)) (by decide)

end CtiLog
