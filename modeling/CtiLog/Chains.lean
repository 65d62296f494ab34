import CtiLog.SpinLevel
/-
# The level of a chain

`Logger::getX(path) << a << b, c` is one statement to its writer, and one `append` for each operand to the logger. The
first takes the level of `getX`; the others ask for `logLevel`, which always passes the gate, so a suppressed
statement loses its first operand only, and an emitted one is at its own level there only.

| here | there |
| --- | --- |
| `Operand.shiftLeft` | `operator<<` (log.hpp:674-694) |
| `Operand.comma`     | `operator,` (log.hpp:695-716) |
| `chain`             | the operands of one statement, from left to right |

* `operand_level`, `operand_settings` — what one operand does.
* `chain_rest` — after the first operand all are at `logLevel`.
* `chain_kept_iff` — a statement is kept iff it is for `logLevel`, or no output takes an operand after the first.
-/

namespace CtiLog

/-- One operand, with the outcomes of its `append`. -/
inductive Operand where
  | shiftLeft (io : AppendIO) (msg : Str)
  | comma (io : Logger.Append2IO) (msg : Str)

namespace Operand

def append (pf : Platform) : Operand → Logger → World → Appended × Logger × World
  | shiftLeft io msg, l, w => l.shiftLeft pf io msg w
  | comma io msg, l, w => l.append2 io msg l.logLevel w

/-- Some output takes what is appended: the console, or the log; only `<<` opens one that is not open. -/
def taken (pf : Platform) (o : Operand) (l : Logger) (w : World) : Bool :=
  l.path ≠ [] &&
    match o with
    | shiftLeft io _ => (l.gate l.logLevel).2.delivers pf io w
    | comma _ _ => l.outputs.testFlag .coutOrCerr || (l.outputs.testFlag .file && l.log.isSome)

end Operand

/-- What became of one operand. -/
structure Emitted where
  taken : Bool
  level : Option LogLevel

def chain (pf : Platform) : List Operand → Logger → World → List Emitted
  | [], _, _ => []
  | o :: os, l, w =>
    let (a, l', w') := o.append pf l w
    ⟨o.taken pf l w, a.entry.map Entry.level⟩ :: chain pf os l' w'

/-- As a statement for `X` asks: nothing above `logLevel`, else at `X` wherever an output takes it. -/
def Emitted.Kept (X logLevel : LogLevel) (e : Emitted) : Prop :=
  e.level = if logLevel.val < X.val then none else if e.taken then some X else none

/-! ## One operand -/

section
variable {pf : Platform} {l : Logger} {w : World}

/-- An empty path: the append returns at once. -/
theorem operand_empty (o : Operand) (hpath : l.path = []) :
    (o.append pf l w).1.entry = none ∧ (o.append pf l w).2.1 = l ∧ o.taken pf l w = false := by
  cases o with
  | shiftLeft io msg =>
    simp [Operand.append, Operand.taken, Logger.shiftLeft, Logger.append5, Logger.enter, hpath]
  | comma io msg => simp [Operand.append, Operand.taken, Logger.append2, hpath]

theorem append2_level (io : Logger.Append2IO) (msg : Str) (ll : LogLevel) (hpath : l.path ≠ []) :
    (l.append2 io msg ll w).1.entry.map Entry.level =
      if l.outputs.testFlag .coutOrCerr || (l.outputs.testFlag .file && l.log.isSome) then (l.gate ll).1 else none := by
  have hout : (l.gate ll).2.outputs = l.outputs := by rw [gate_takes]
  have hlog : (l.gate ll).2.log = l.log := by rw [gate_takes]
  unfold Logger.append2
  rw [if_neg hpath, ← hout, ← hlog]
  generalize l.gate ll = g
  obtain ⟨v, l⟩ := g
  cases v with
  | none => simp
  | some lvl =>
    dsimp only
    by_cases hnone : l.outputs = .none
    · simp [hnone, Outputs.none, Outputs.testFlag, Outputs.coutOrCerr, Outputs.file]
    rw [if_neg hnone]
    cases hf : l.outputs.testFlag .file with
    | false => cases hc : l.outputs.testFlag .coutOrCerr <;> simp
    | true =>
      cases hlog : l.log with
      | none => cases hc : l.outputs.testFlag .coutOrCerr <;> simp
      | some s =>
        simp only [Option.isNone_some, Option.isSome_some, Bool.and_false, Bool.false_eq_true, if_false, if_true,
          Bool.or_true, Bool.and_true]
        split <;> rfl

theorem append2_settings (io : Logger.Append2IO) (msg : Str) (hpath : l.path ≠ []) :
    ∃ o, (l.append2 io msg l.logLevel w).2.1 = { l with spinOnceLogLevel := .unchange, log := o } := by
  have htakes := gate_takes l.logLevel l
  unfold Logger.append2
  rw [if_neg hpath]
  generalize l.gate l.logLevel = g at *
  obtain ⟨v, l₁⟩ := g
  obtain rfl : l₁ = _ := htakes
  cases v with
  | none => exact ⟨l.log, rfl⟩
  | some lvl =>
    dsimp only
    split
    · exact ⟨l.log, rfl⟩
    split
    · exact ⟨l.log, rfl⟩
    split
    · cases hlog : l.log with
      | none => exact ⟨none, by simp⟩
      | some s =>
        dsimp only
        split <;> exact ⟨_, rfl⟩
    · exact ⟨l.log, rfl⟩

/-- **The level of an operand** is what the gate says, if an output takes it. -/
theorem operand_level (o : Operand) :
    (o.append pf l w).1.entry.map Entry.level = if o.taken pf l w then (l.gate l.logLevel).1 else none := by
  by_cases hpath : l.path = []
  · obtain ⟨hentry, -, htaken⟩ := @operand_empty pf l w o hpath
    simp [hentry, htaken]
  · cases o with
    | shiftLeft io msg =>
      have htaken : Operand.taken pf (.shiftLeft io msg) l w = (l.gate l.logLevel).2.delivers pf io w := by
        simp [Operand.taken, hpath]
      rw [htaken]
      exact append5_level hpath
    | comma io msg =>
      have htaken : Operand.taken pf (.comma io msg) l w =
          (l.outputs.testFlag .coutOrCerr || (l.outputs.testFlag .file && l.log.isSome)) := by
        simp [Operand.taken, hpath]
      rw [htaken]
      exact append2_level io msg l.logLevel hpath

theorem operand_settings (o : Operand) (hpath : l.path ≠ []) :
    ∃ s, (o.append pf l w).2.1 = { l with spinOnceLogLevel := .unchange, log := s } := by
  cases o with
  | shiftLeft io msg => exact shiftLeft_settings io msg hpath
  | comma io msg => exact append2_settings io msg hpath

/-! ## The operands after the first -/

theorem chain_cons (o : Operand) (os : List Operand) : chain pf (o :: os) l w =
    ⟨o.taken pf l w, (o.append pf l w).1.entry.map Entry.level⟩ ::
      chain pf os (o.append pf l w).2.1 (o.append pf l w).2.2 :=
  rfl

/-- Nothing is ever written for an empty path. -/
theorem chain_empty (os : List Operand) (hpath : l.path = []) : ∀ e ∈ chain pf os l w, e = ⟨false, none⟩ := by
  induction os generalizing w with
  | nil => simp [chain]
  | cons o os ih =>
    obtain ⟨hentry, hl, htaken⟩ := @operand_empty pf l w o hpath
    intro e he
    rw [chain_cons] at he
    rcases List.mem_cons.1 he with rfl | he
    · simp [hentry, htaken]
    · rw [hl] at he
      exact ih e he

/-- **No level is pending any more**: all other operands are at `logLevel`. -/
theorem chain_rest (os : List Operand) (hspin : l.spinOnceLogLevel = .unchange) :
    ∀ e ∈ chain pf os l w, e.level = if e.taken then some l.logLevel else none := by
  by_cases hpath : l.path = []
  · intro e he
    rw [chain_empty os hpath e he]
    rfl
  induction os generalizing l w with
  | nil => simp [chain]
  | cons o os ih =>
    intro e he
    rw [chain_cons] at he
    rcases List.mem_cons.1 he with rfl | he
    · rw [← gate_logLevel hspin]
      exact operand_level o
    · obtain ⟨s, hs⟩ := @operand_settings pf l w o hpath
      rw [hs] at he
      exact @ih { l with spinOnceLogLevel := .unchange, log := s } _ rfl hpath e he

end

/-! ## A statement -/

section
variable {pf : Platform} {X logLevel : LogLevel} {e : Emitted}

/-- What is at `logLevel` is kept only where nothing takes it, but for a statement that asks for `logLevel`. -/
theorem kept_rest_iff (h : e.level = if e.taken then some logLevel else none) :
    e.Kept X logLevel ↔ X = logLevel ∨ e.taken = false := by
  unfold Emitted.Kept
  rw [h]
  cases e.taken with
  | false => simp
  | true =>
    by_cases hlt : logLevel.val < X.val
    · have hne : X ≠ logLevel := by
        rintro rfl
        exact absurd hlt (by simp)
      simp [hlt, hne]
    · simp [hlt, eq_comm]

variable {l : Logger} {w : World}

/-- The first operand of a statement is kept, and each of the others where it may be. -/
theorem statement_kept_iff {g : Getter} (hspin : l.spinOnceLogLevel = g.level) (o : Operand) (os : List Operand) :
    (∀ e ∈ chain pf (o :: os) l w, e.Kept g.level l.logLevel) ↔
      g.level = l.logLevel ∨ ∀ e ∈ (chain pf (o :: os) l w).tail, e.taken = false := by
  rw [chain_cons, List.tail_cons]
  -- the first operand takes the level of the statement
  have hfirst : Emitted.Kept g.level l.logLevel ⟨o.taken pf l w, (o.append pf l w).1.entry.map Entry.level⟩ := by
    unfold Emitted.Kept
    dsimp only
    rw [operand_level, gate_pending _ hspin]
    cases o.taken pf l w <;> simp
  have hrest : ∀ e ∈ chain pf os (o.append pf l w).2.1 (o.append pf l w).2.2,
      e.Kept g.level l.logLevel ↔ g.level = l.logLevel ∨ e.taken = false := by
    by_cases hpath : l.path = []
    · rw [(@operand_empty pf l w o hpath).2.1]
      intro e he
      rw [chain_empty os hpath e he]
      exact kept_rest_iff rfl
    · obtain ⟨s, hs⟩ := @operand_settings pf l w o hpath
      rw [hs]
      have hlater := @chain_rest pf { l with spinOnceLogLevel := .unchange, log := s } (o.append pf l w).2.2 os rfl
      exact fun e he => kept_rest_iff (hlater e he)
  rw [List.forall_mem_cons, and_iff_right hfirst, forall₂_congr hrest]
  by_cases hX : g.level = l.logLevel <;> simp [hX]

/-- A console takes every operand. -/
theorem console_taken (os : List Operand) (hpath : l.path ≠ []) (hout : l.outputs.testFlag .coutOrCerr = true) :
    ∀ e ∈ chain pf os l w, e.taken = true := by
  induction os generalizing l w with
  | nil => simp [chain]
  | cons o os ih =>
    intro e he
    rw [chain_cons] at he
    rcases List.mem_cons.1 he with rfl | he
    · cases o with
      | shiftLeft io msg => simp [Operand.taken, hpath, Logger.delivers, gate_takes, hout]
      | comma io msg => simp [Operand.taken, hpath, hout]
    · obtain ⟨s, hs⟩ := @operand_settings pf l w o hpath
      rw [hs] at he
      exact @ih { l with spinOnceLogLevel := .unchange, log := s } _ hpath hout e he

theorem console_none_taken_iff (o : Operand) (os : List Operand) (hpath : l.path ≠ [])
    (hout : l.outputs.testFlag .coutOrCerr = true) :
    (∀ e ∈ (chain pf (o :: os) l w).tail, e.taken = false) ↔ os = [] := by
  constructor
  · intro h
    cases os with
    | nil => rfl
    | cons o' os =>
      have hmem := (List.mem_cons_self : _ ∈ (chain pf (o :: o' :: os) l w).tail)
      have htaken := console_taken (o :: o' :: os) hpath hout _ (List.mem_of_mem_tail hmem)
      exact absurd (htaken.symm.trans (h _ hmem)) (by decide)
  · rintro rfl
    simp [chain]

end

/-- **A statement is kept** iff it asks for `logLevel`, or nothing takes an operand after the first; with a console,
iff it asks for `logLevel` or has one operand. -/
theorem chain_kept_iff {pf : Platform} (g : Getter) (outputs : Outputs) (l : Logger) (w : World) (o : Operand)
    (os : List Operand) :
    ((∀ e ∈ chain pf (o :: os) (l.request g.level outputs) w, e.Kept g.level l.logLevel) ↔
      g.level = l.logLevel ∨ ∀ e ∈ (chain pf (o :: os) (l.request g.level outputs) w).tail, e.taken = false) ∧
    (l.path ≠ [] → (l.request g.level outputs).outputs.testFlag .coutOrCerr = true →
      ((∀ e ∈ chain pf (o :: os) (l.request g.level outputs) w, e.Kept g.level l.logLevel) ↔
        g.level = l.logLevel ∨ os = [])) := by
  have hspin := request_spin g outputs l
  have hlevel := request_logLevel g.level outputs l
  have hpath : (l.request g.level outputs).path = l.path := request_path _ _ _
  generalize l.request g.level outputs = r at *
  rw [← hlevel, ← hpath]
  refine ⟨statement_kept_iff hspin o os, fun hne hout => ?_⟩
  rw [statement_kept_iff hspin, console_none_taken_iff o os hne hout]

/-- `getDebug() << "a" << "b"` on a logger at `Note`: the second half is written, at `Note`. -/
theorem second_operand_shown :
    let statement := chain plain [.shiftLeft .ok (str "a"), .shiftLeft .ok (str "b")]
      (openedA.request Getter.getDebug.level .none) (openedWorld [])
    openedA.spinOnceLogLevel = .unchange ∧ openedA.logLevel = .note ∧ statement.map Emitted.level = [none, some .note] ∧
      ¬ ∀ e ∈ statement, e.Kept Getter.getDebug.level openedA.logLevel := by
  intro statement
  have hlevels : statement.map Emitted.level = [none, some .note] := by decide
  refine ⟨rfl, rfl, hlevels, fun h => ?_⟩
  obtain ⟨e, he, hlevel⟩ := List.mem_map.1 (hlevels ▸ List.mem_cons_of_mem _ (List.mem_singleton_self _) :
    some .note ∈ statement.map Emitted.level)
  have hkept := h e he
  rw [Emitted.Kept, hlevel, if_pos (by decide)] at hkept
  cases hkept

/-- `getNote() << "a" << "b"`, with a console. -/
theorem chain_kept_iff_two : ∀ e ∈ chain plain [.shiftLeft .ok (str "a"), .shiftLeft .ok (str "b")]
    (openedA.request Getter.getNote.level .both) (openedWorld []), e.Kept Getter.getNote.level openedA.logLevel :=
  ((chain_kept_iff .getNote .both openedA (openedWorld []) (.shiftLeft .ok (str "a")) [.shiftLeft .ok (str "b")]).2
    (by decide) (by decide)).2 (.inl rfl)

end CtiLog
