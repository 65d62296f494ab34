import CtiLog.LogLines
import CtiLog.Restarts
/-
# What a kill does to the lines of a log

A logger that is killed in the middle of a line leaves a part of it, without a newline, and the first line of
the next process is written right behind it. That is all the damage there is: in the runs of `lives_durable`,
with callers that pass no newline, each kill spoils at most one line of the log and one of the backup
(`lives_lines`). A process whose logger is destroyed spoils none.
-/

namespace CtiLog

open Rotating Runs

/-! ## Texts -/

section
variable {pf : Platform} {l : Logger} {w : World} {io : AppendIO} {m : Msg} {e : Entry}

/-- An append that is passed no newline emits one line. -/
theorem append5_line (hm : m.Lacks 10) (htime : ∃ c, io.time = logRealTime c)
    (he : (l.append5 pf io m w).1.entry = some e) : (10 : UInt8) ∉ e.text := by
  obtain ⟨c, hc⟩ := htime
  unfold Logger.append5 at he
  generalize l.enter pf io m.logLevel w = r at he
  obtain ⟨lvl | lvl, l', w'⟩ := r
  · cases he
  · rw [writeRecord_some he]
    exact not_mem_lineText (by decide) (hc ▸ (printed_logRealTime c).not_mem (by decide)) hm

theorem append5_lines (hm : m.Lacks 10) (htime : ∃ c, io.time = logRealTime c) :
    ∃ texts, ((l.append5 pf io m w).1.entry.map Entry.line).toList = Tape.lines 10 texts ∧
      ∀ s ∈ texts, (10 : UInt8) ∉ s := by
  cases he : (l.append5 pf io m w).1.entry with
  | none => exact ⟨[], rfl, by simp⟩
  | some e =>
    refine ⟨[e.text], rfl, ?_⟩
    simpa using append5_line hm htime he

end

/-- An append is passed no newline. -/
def LivesAct.OneLine : LivesAct → Prop
  | .act (.append io m) | .die io m => m.Lacks 10 ∧ ∃ c, io.time = logRealTime c
  | _ => True

/-- The process is killed. -/
def LivesAct.Kills : LivesAct → Bool
  | .kill | .die _ _ => true
  | _ => false

/-- All that the processes have written. -/
def Lives.given (t : Lives) : List Str := t.past.flatMap Ended.recs ++ t.recs

/-- How many of them were killed. -/
def Lives.kills (t : Lives) : Nat := t.past.countP (·.most ≠ 0)

section
variable {pf : Platform} {l : Logger} {w : World} {t u : Lives} {a : LivesAct}

theorem given_next (t : Lives) (l : Logger) (w : World) (rs : List Str) (most : Nat) :
    (t.next l w rs most).given = t.given ++ rs := by
  simp [Lives.given, Lives.next]

theorem kills_next (t : Lives) (l : Logger) (w : World) (rs : List Str) (most : Nat) :
    (t.next l w rs most).kills = t.kills + if most ≠ 0 then 1 else 0 := by
  simp [Lives.kills, Lives.next]

/-- **Step lemma**: one line is written at most. -/
theorem livesStep_given (ha : a.OneLine) (h : LivesStep pf l t a u) :
    ∃ texts, u.given = t.given ++ Tape.lines 10 texts ∧ ∀ s ∈ texts, (10 : UInt8) ∉ s := by
  cases h with
  | @act a s _ =>
    cases a with
    | append io m =>
      obtain ⟨texts, htexts, hclean⟩ := append5_lines ha.1 ha.2
      refine ⟨texts, ?_, hclean⟩
      rw [← htexts]
      exact (List.append_assoc _ _ _).symm
    | spill k =>
      refine ⟨[], ?_, by simp⟩
      exact (List.append_assoc _ _ _).symm
  | quit _ =>
    refine ⟨[], ?_, by simp⟩
    rw [given_next]
    rfl
  | kill =>
    refine ⟨[], ?_, by simp⟩
    rw [given_next]
    rfl
  | die _ _ =>
    obtain ⟨texts, htexts, hclean⟩ := append5_lines ha.1 ha.2
    refine ⟨texts, ?_, hclean⟩
    rw [given_next, htexts]

theorem livesStep_kills (h : LivesStep pf l t a u) : u.kills = t.kills + if a.Kills then 1 else 0 := by
  cases h with
  | act _ => rfl
  | quit _ => exact kills_next _ _ _ _ _
  | kill => exact kills_next _ _ _ _ _
  | die _ _ => exact kills_next _ _ _ _ _

/-- **Run lemma.** -/
theorem lives_given {as : List LivesAct}
    (hrun : Run (Guarded (fun _ a => a.OneLine) (LivesStep pf l)) ⟨⟨l, w, []⟩, [], []⟩ as t) :
    (∃ texts, t.given = Tape.lines 10 texts ∧ ∀ s ∈ texts, (10 : UInt8) ∉ s) ∧ t.kills = as.countP LivesAct.Kills := by
  induction hrun with
  | nil => exact ⟨⟨[], rfl, by simp⟩, rfl⟩
  | snoc _ hst ih =>
    obtain ⟨⟨texts, htexts, hclean⟩, hkills⟩ := ih
    obtain ⟨new, hnew, hcleannew⟩ := livesStep_given hst.1 hst.2
    refine ⟨⟨texts ++ new, ?_, fun s hs => (List.mem_append.1 hs).elim (hclean s) (hcleannew s)⟩, ?_⟩
    · rw [hnew, htexts, Tape.lines_append]
    · rw [livesStep_kills hst.2, hkills, List.countP_append, List.countP_singleton]

end

/-! ## Pieces -/

section
variable {pf : Platform} {l : Logger} {b c : Str} {t : Lives} {past : List Ended} {rests : List (List Str × Str)}
  {texts : List Str}

/-- A piece is the beginning of some records. -/
theorem pieces_begin (h : List.Forall₂ Ended.Survives past rests)
    (hlines : ∀ r ∈ past.flatMap Ended.recs, r ∈ Tape.lines 10 texts) {p : Str} (hp : p ∈ pieces rests) :
    Tape.Begins 10 texts p := by
  induction h with
  | nil => cases hp
  | @cons ended rest past rests hsurvives _ ih =>
    obtain ⟨lost, hrecs, -, hpart⟩ := hsurvives
    rw [List.flatMap_cons, hrecs] at hlines
    rw [pieces, List.flatMap_cons, List.append_assoc] at hp
    have hnewest : ∀ r ∈ rest.1 ++ lost, r ∈ Tape.lines 10 texts := fun r hr => hlines r (List.mem_append_left _ hr)
    rcases List.mem_append.1 hp with hkept | hp
    · exact (Tape.ofLines_of_mem (hnewest p (List.mem_append_left _ hkept))).begins
    rcases List.mem_cons.1 hp with rfl | hold
    · exact Tape.begins_of_mem (fun r hr => hnewest r (List.mem_append_right _ hr)) hpart
    · exact ih (fun r hr => hlines r (List.mem_append_right _ hr)) hold

/-- Of a process that was not killed, every piece is whole. -/
theorem pieces_countP_le [DecidablePred (Tape.OfLines 10 texts)] (h : List.Forall₂ Ended.Survives past rests)
    (hlines : ∀ r ∈ past.flatMap Ended.recs, r ∈ Tape.lines 10 texts) :
    (pieces rests).countP (¬ Tape.OfLines 10 texts ·) ≤ past.countP (·.most ≠ 0) := by
  induction h with
  | nil => exact le_rfl
  | @cons ended rest past rests hsurvives _ ih =>
    obtain ⟨lost, hrecs, hlost, hpart⟩ := hsurvives
    rw [List.flatMap_cons, hrecs] at hlines
    have hkept : rest.1.countP (¬ Tape.OfLines 10 texts ·) = 0 := by
      refine List.countP_eq_zero.2 fun r hr => ?_
      simpa using Tape.ofLines_of_mem (hlines r (List.mem_append_left _ (List.mem_append_left _ hr)))
    have hlast : [rest.2].countP (¬ Tape.OfLines 10 texts ·) ≤ if ended.most ≠ 0 then 1 else 0 := by
      by_cases hmost : ended.most = 0
      · obtain rfl : lost = [] := List.eq_nil_of_length_eq_zero (Nat.le_zero.1 (hmost ▸ hlost))
        have hrest : rest.2 = [] := List.prefix_nil.1 hpart
        have hnil : Tape.OfLines 10 texts [] := ⟨[], by simp, rfl⟩
        simp [hrest, hnil]
      · rw [if_pos hmost]
        exact List.countP_le_length
    have hrest : (rests.flatMap fun rest => rest.1 ++ [rest.2]).countP (¬ Tape.OfLines 10 texts ·) ≤
        past.countP (·.most ≠ 0) :=
      ih fun r hr => hlines r (List.mem_append_right _ hr)
    rw [pieces, List.flatMap_cons, List.countP_append, List.countP_append, hkept, Nat.zero_add, Nat.add_comm]
    refine (Nat.add_le_add hrest hlast).trans (le_of_eq ?_)
    simp [List.countP_cons]

/-- What the files are made of: lines, and the beginnings of lines that killed processes have left, one each. -/
theorem all_begin [DecidablePred (Tape.OfLines 10 texts)] (hb : Tape.OfLines 10 texts b) (hc : Tape.OfLines 10 texts c)
    (hrests : List.Forall₂ Ended.Survives t.past rests) (hgiven : ∀ r ∈ t.given, r ∈ Tape.lines 10 texts) :
    (∀ p ∈ b :: c :: pieces rests ++ t.recs, Tape.Begins 10 texts p) ∧
      (b :: c :: pieces rests ++ t.recs).countP (¬ Tape.OfLines 10 texts ·) ≤ t.kills := by
  have hpast : ∀ r ∈ t.past.flatMap Ended.recs, r ∈ Tape.lines 10 texts := fun r hr =>
    hgiven r (List.mem_append_left _ hr)
  have hrecs : ∀ r ∈ t.recs, Tape.OfLines 10 texts r := fun r hr =>
    Tape.ofLines_of_mem (hgiven r (List.mem_append_right _ hr))
  constructor
  · intro p hp
    rcases List.mem_append.1 hp with hp | hp
    · rcases List.mem_cons.1 hp with rfl | hp
      · exact hb.begins
      rcases List.mem_cons.1 hp with rfl | hp
      · exact hc.begins
      · exact pieces_begin hrests hpast hp
    · exact (hrecs p hp).begins
  · have hnew : t.recs.countP (¬ Tape.OfLines 10 texts ·) = 0 :=
      List.countP_eq_zero.2 fun r hr => by simpa using hrecs r hr
    rw [List.countP_append, List.countP_cons_of_neg (by simpa using hb),
      List.countP_cons_of_neg (by simpa using hc), hnew]
    exact pieces_countP_le hrests hpast

/-- At any time each kill has spoiled at most one line of the log, and one of the backup. -/
theorem livesInv_spoiled (ht : LivesInv pf l b c t) (hb : Tape.OfLines 10 texts b) (hc : Tape.OfLines 10 texts c)
    (hgiven : ∀ r ∈ t.given, r ∈ Tape.lines 10 texts) (hclean : ∀ s ∈ texts, (10 : UInt8) ∉ s) :
    Tape.spoiled 10 texts (t.sole.world.content (l.name pf)) ≤ t.kills ∧
      Tape.spoiled 10 texts (t.sole.world.content (l.name1 pf)) ≤ t.kills := by
  classical
  obtain ⟨rests, hrests, front, back, late, part, hsuffix, hlate, -, hpart, hdisk, hbackup⟩ := livesInv_left ht
  obtain ⟨hbegin, hcount⟩ := all_begin hb hc hrests hgiven
  -- log and backup are consecutive pieces
  have hspoiled : ∀ {ps : List Str} {bs : Str}, ps <:+: b :: c :: pieces rests ++ t.recs →
      Tape.spoiled 10 texts bs = 0 →
      Tape.spoiled 10 texts (ps.flatten ++ bs) ≤ t.kills := by
    intro ps bs hps hbs
    have hle : Tape.spoiled 10 texts (ps.flatten ++ bs) ≤ _ :=
      Tape.spoiled_flatten_le (fun p hp => hbegin p (hps.subset hp)) hclean
    rw [hbs, Nat.zero_add] at hle
    exact hle.trans (hps.sublist.countP_le.trans hcount)
  have hlogged : Tape.spoiled 10 texts (t.sole.world.content (l.name pf)) ≤ t.kills := by
    have hlines : ∀ r ∈ late, r ∈ Tape.lines 10 texts :=
      fun r hr => hgiven r (List.mem_append_right _ (hlate.subset hr))
    rw [hdisk]
    exact hspoiled ((List.infix_append front back late).trans hsuffix.isInfix)
      (Tape.spoiled_begins (Tape.begins_of_mem hlines hpart) hclean)
  refine ⟨hlogged, ?_⟩
  rcases hbackup with ⟨hfront, -⟩ | ⟨-, hcopy, -⟩
  · rw [List.append_assoc] at hsuffix
    rw [hfront, ← List.append_nil front.flatten]
    exact hspoiled ((List.prefix_append front (back ++ late)).isInfix.trans hsuffix.isInfix) rfl
  · exact (Tape.spoiled_mono hcopy).trans hlogged

end

/-- **Each kill spoils one line.** However often the process ends and is started again, killed or not, also in the
middle of an append: if the files were lines at the start and no text passed has a newline inside, then in the log,
and in the backup, all terminated lines but one for each kill are lines of the start or texts that were written. -/
theorem lives_lines {pf : Platform} {l : Logger} {w : World} (hpath : l.path ≠ []) (hout : l.outputs = .file)
    (hlog : l.log = none) (hidx : w.idx < 2 ^ 64) (hsize : (w.content (l.name pf)).length ≤ l.maxSize.bytes)
    {older first : List Str} (holder : w.content (l.name1 pf) = (Tape.lines 10 older).flatten)
    (hfirst : w.content (l.name pf) = (Tape.lines 10 first).flatten) (hclean : ∀ s ∈ older ++ first, (10 : UInt8) ∉ s)
    {as : List LivesAct} {t : Lives}
    (hrun : Run (Guarded (fun _ a => a.OneLine) (LivesStep pf l)) ⟨⟨l, w, []⟩, [], []⟩ as t) :
    ∃ texts, t.given = Tape.lines 10 texts ∧
      Tape.spoiled 10 (older ++ first ++ texts) (t.sole.world.content (l.name pf)) ≤ as.countP LivesAct.Kills ∧
      Tape.spoiled 10 (older ++ first ++ texts) (t.sole.world.content (l.name1 pf)) ≤ as.countP LivesAct.Kills := by
  obtain ⟨⟨texts, htexts, hcleantexts⟩, hkills⟩ := lives_given hrun
  refine ⟨texts, htexts, ?_⟩
  rw [← hkills]
  apply livesInv_spoiled
    (hrun.unguard.inv _ (livesInv_start hpath hout hlog hidx hsize) fun _ _ _ => livesStep_inv hout hlog)
  · exact ⟨older, fun s hs => List.mem_append_left _ (List.mem_append_left _ hs), holder⟩
  · exact ⟨first, fun s hs => List.mem_append_left _ (List.mem_append_right _ hs), hfirst⟩
  · intro r hr
    rw [htexts] at hr
    rw [Tape.lines_append]
    exact List.mem_append_right _ hr
  · exact fun s hs => (List.mem_append.1 hs).elim (hclean s) (hcleantexts s)

/-- `hello`, at the time of `lastSecond`; the process is killed when three bytes of it are written. -/
def AppendIO.tornAt : AppendIO := { AppendIO.torn with time := logRealTime lastSecond }

theorem lives_lines_torn :
    let t := (⟨⟨freshA, oneFile [], []⟩, [], []⟩ : Lives).next freshA (freshA.append5 plain .tornAt hello (oneFile [])).2.2
      ((freshA.append5 plain .tornAt hello (oneFile [])).1.entry.map Entry.line).toList kFlushInteval
    ∃ texts, t.given = Tape.lines 10 texts ∧
      Tape.spoiled 10 ([] ++ [] ++ texts) (t.sole.world.content (freshA.name plain)) ≤ 1 ∧
      Tape.spoiled 10 ([] ++ [] ++ texts) (t.sole.world.content (freshA.name1 plain)) ≤ 1 := by
  have hkilled : AppendIO.tornAt.shrink.Killed := ⟨fun _ _ h => absurd (Sys.ok.inj h) (by decide), by decide, by decide⟩
  have hdies : AppendIO.tornAt.Dies plain hello freshA (oneFile []) :=
    ⟨.inl ShrinkIO.ok_ok, fun h => absurd h (by decide), hkilled⟩
  have hshort : ∀ e ∈ (freshA.append5 plain .tornAt hello (oneFile [])).1.entry,
      14 * e.line.length ≤ freshA.maxSize.bytes := by
    decide
  have hline : (LivesAct.die .tornAt hello).OneLine := ⟨⟨by decide, by decide, by decide⟩, lastSecond, rfl⟩
  exact lives_lines (by decide) rfl rfl (by decide) (by decide) rfl rfl (by simp) (.single ⟨hline, .die hdies hshort⟩)

end CtiLog
