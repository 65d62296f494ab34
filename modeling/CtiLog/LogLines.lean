import CtiLog.Journal
import CtiLog.RecordText
/-
# A log read line by line

Loggers as in `whole_records`, and callers that pass no newline but the one at the end of a whole text: then a log, cut
at its newlines, gives back the newest of the texts its logger was given, whole and in order, whatever the interleaving
(`log_lines`); and each text tells its record (`Record.text_eq_iff`). The time is read under the lock of the logger, so
the records of a log are in the order of their times, unless the clock is turned back (`log_sorted`).
-/

namespace CtiLog

open Decimal Rotating Runs

/-- Of the texts of one logger, none has a newline inside and each ends with one. -/
def LogAct.OneLine : LogAct → Prop
  | .writeRecord _ io m _ => m.Lacks 10 ∧ ∃ c, io.time = logRealTime c
  | .writeText _ _ msg _ => ∃ text, (10 : UInt8) ∉ text ∧ msg = text ++ [10]
  | _ => True

section
variable {pf : Platform} {l : Logger} {w : World}

theorem given_lines {a : LogAct} (h : a.OneLine) :
    ∃ texts, a.given l w = Tape.lines 10 texts ∧ ∀ s ∈ texts, (10 : UInt8) ∉ s := by
  have hnone : ∃ texts, ([] : List Str) = Tape.lines 10 texts ∧ ∀ s ∈ texts, (10 : UInt8) ∉ s := ⟨[], rfl, by simp⟩
  cases a with
  | writeRecord o io m lvl =>
    obtain ⟨hm, c, hc⟩ := h
    dsimp only [LogAct.given]
    split
    · have htext : (10 : UInt8) ∉ lineText l.hasIdx l.hasTid w.idx io.time io.tid lvl m :=
        not_mem_lineText (by decide) (hc ▸ (printed_logRealTime c).not_mem (by decide)) hm
      refine ⟨[lineText l.hasIdx l.hasTid w.idx io.time io.tid lvl m], rfl, ?_⟩
      simpa using htext
    · exact hnone
  | writeText o io msg lvl =>
    obtain ⟨text, htext, rfl⟩ := h
    dsimp only [LogAct.given]
    split
    · exact ⟨[text], rfl, by simpa using htext⟩
    · exact hnone
  | _ => exact hnone

end

variable {ι : Type*} [DecidableEq ι]

def Journal.OneLine (t : Journal ι) (a : ι × LogAct) : Prop := t.Ok a ∧ a.2.OneLine

/-- Where every text is one line, the log reads as the newest of them. -/
theorem lines_read {pf : Platform} {log : ι → Logger} {w : World} (hapart : FilesApart pf log)
    (hsound : ∀ i, Sound pf (log i) w) {as : List (ι × LogAct)} {t : Journal ι}
    (hrun : Run (Guarded Journal.Ok (JournalStep pf)) (.start log w) as t) {i : ι} {first texts : List Str}
    (hfirst : (log i).written pf w = (Tape.lines 10 first).flatten ∧ ∀ s ∈ first, (10 : UInt8) ∉ s)
    (htexts : t.given i = Tape.lines 10 texts) (hclean : ∀ s ∈ texts, (10 : UInt8) ∉ s) :
    ∃ ts, ts <:+ first ++ texts ∧ ((t.log i).written pf t.world).splitOn 10 = ts ++ [[]] := by
  have hwhole := journal_whole hapart hsound hrun i
  rw [htexts, hfirst.1] at hwhole
  apply hwhole.splitOn
  intro s hs
  exact (List.mem_append.1 hs).elim (hfirst.2 s) (hclean s)

/-- **A log read line by line.** When nothing fails and no text has a newline inside, a log that started as the lines
`first` is cut by its newlines into the newest of these and of the texts its logger was given. -/
theorem log_lines {pf : Platform} {log : ι → Logger} {w : World} (hapart : FilesApart pf log)
    (hsound : ∀ i, Sound pf (log i) w) {first : ι → List Str}
    (hfirst : ∀ i, (log i).written pf w = (Tape.lines 10 (first i)).flatten ∧ ∀ s ∈ first i, (10 : UInt8) ∉ s)
    {as : List (ι × LogAct)} {t : Journal ι} (hrun : Run (Guarded Journal.OneLine (JournalStep pf)) (.start log w) as t)
    (i : ι) :
    ∃ texts ts, t.given i = Tape.lines 10 texts ∧ ts <:+ first i ++ texts ∧
      ((t.log i).written pf t.world).splitOn 10 = ts ++ [[]] := by
  have hgiven : ∀ i, ∃ texts, t.given i = Tape.lines 10 texts ∧ ∀ s ∈ texts, (10 : UInt8) ∉ s := by
    refine hrun.inv (fun u => ∀ i, ∃ texts, u.given i = Tape.lines 10 texts ∧ ∀ s ∈ texts, (10 : UInt8) ∉ s)
      (fun _ => ⟨[], rfl, by simp⟩) ?_
    rintro u a _ ih ⟨⟨-, hline⟩, rfl⟩ j
    obtain ⟨texts, htexts, hclean⟩ := ih j
    by_cases hj : j = a.1
    · subst hj
      obtain ⟨new, hnew, hcleannew⟩ := given_lines (l := u.log a.1) (w := u.world) hline
      refine ⟨texts ++ new, ?_, fun s hs => (List.mem_append.1 hs).elim (hclean s) (hcleannew s)⟩
      simp [Journal.act, htexts, hnew, Tape.lines_append]
    · exact ⟨texts, by simp [Journal.act, hj, htexts], hclean⟩
  obtain ⟨texts, htexts, hclean⟩ := hgiven i
  obtain ⟨ts, hts, hsplit⟩ := lines_read hapart hsound (hrun.mono fun _ _ _ h => ⟨h.1.1, h.2⟩) (hfirst i) htexts hclean
  exact ⟨texts, ts, htexts, hts, hsplit⟩

/-- One line, written behind another. -/
def lineOfText : LogAct := .writeText .file .ok (str "x" ++ [10]) .note

theorem log_lines_two :
    let t := (journalA (str "old" ++ [10])).act plain () lineOfText
    ∃ texts ts, t.given () = Tape.lines 10 texts ∧ ts <:+ [str "old"] ++ texts ∧
      ((t.log ()).written plain t.world).splitOn 10 = ts ++ [[]] := by
  have hok : (str "x" ++ [10]).length ≤ 8192 := by decide
  have hfirst : ∀ i : Unit, openedA.written plain (openedWorld (str "old" ++ [10])) =
      (Tape.lines 10 ((fun _ => [str "old"]) i)).flatten ∧ ∀ s ∈ (fun _ : Unit => [str "old"]) i, (10 : UInt8) ∉ s := by
    intro _
    refine ⟨congrArg Tape.live (openedA_tape _), ?_⟩
    show ∀ s ∈ [str "old"], (10 : UInt8) ∉ s
    decide
  exact log_lines journalA_apart (fun _ => .inr ⟨streamA1, openedA_open _⟩) hfirst
    (Run.single (a := ((), lineOfText)) ⟨⟨hok, str "x", by decide, rfl⟩, rfl⟩) ()

/-! ## In the order of time -/

/-- The time in a line, behind the zone. -/
def stamp (line : Str) : Str := ((((line.dropWhile (· != 91)).drop 1).dropWhile (· != 32)).drop 1).take 29

theorem dropWhile_append_cons {b : UInt8} {xs as : Str} (h : b ∉ xs) :
    (xs ++ b :: as).dropWhile (· != b) = b :: as := by
  induction xs with
  | nil => simp
  | cons x xs ih =>
    have hx : b ≠ x ∧ b ∉ xs := by simpa using h
    simp [hx.1.symm, ih hx.2]

namespace Clock

def year (c : Clock) : Nat := (c.tm.tm_year + 1900).toNat

/-- The local time. -/
def now (c : Clock) : List Nat := c.time c.year

end Clock

theorem stamp_lineText {c : Clock} (h : c.Tells c.year) (hasIdx hasTid : Bool) (idx tid : Nat) (lvl : LogLevel)
    (m : Msg) :
    stamp (lineText hasIdx hasTid idx (logRealTime c) tid lvl m) = c.timeText c.year := by
  have hidx : (91 : UInt8) ∉ if hasIdx then digits idx else [] := by
    cases hasIdx
    · simp
    · exact not_mem_of_isDigit (isDigit_digits idx) (by decide)
  have hspace : (32 : UInt8) ∉ padded 2 c.tz := not_mem_of_isDigit (isDigit_padded 2 c.tz) (by decide)
  obtain ⟨rest, hline⟩ : ∃ rest, lineText hasIdx hasTid idx (logRealTime c) tid lvl m =
      (if hasIdx then digits idx else []) ++ 91 :: (padded 2 c.tz ++ 32 :: (c.timeText c.year ++ rest)) := by
    unfold lineText
    rw [c.logRealTime_eq h, str_toString, str_toString, str_open]
    simp only [List.append_assoc, List.cons_append, List.nil_append]
    exact ⟨_, rfl⟩
  unfold stamp
  rw [hline, dropWhile_append_cons hidx, List.drop_succ_cons, List.drop_zero, dropWhile_append_cons hspace,
    List.drop_succ_cons, List.drop_zero]
  exact List.take_left' (Clock.length_timeText h.lt)

/-- A section that writes a record has read the clock `c`; a text of the caller's own has no time. -/
def LogAct.Stamped (c : Clock) : LogAct → Prop
  | .writeRecord _ io m _ => m.Lacks 10 ∧ io.time = logRealTime c ∧ c.Tells c.year
  | .writeText _ _ _ _ => False
  | _ => True

/-- What a section gives: one line with the time it has read, or nothing. -/
theorem given_stamped {l : Logger} {w : World} {a : LogAct} {c : Clock} (h : a.Stamped c) :
    a.given l w = [] ∨ ∃ line, a.given l w = Tape.lines 10 [line] ∧ (10 : UInt8) ∉ line ∧
      stamp line = c.timeText c.year ∧ c.Tells c.year := by
  cases a with
  | writeRecord o io m lvl =>
    obtain ⟨hm, htime, htells⟩ := h
    dsimp only [LogAct.given]
    split
    · refine .inr ⟨_, rfl, ?_, ?_, htells⟩
      · exact not_mem_lineText (by decide) (htime ▸ (printed_logRealTime c).not_mem (by decide)) hm
      · rw [htime]
        exact stamp_lineText htells _ _ _ _ _ _
    · exact .inl rfl
  | writeText o io msg lvl => exact h.elim
  | _ => exact .inl rfl

/-- A section, with what the clock answers in it. -/
abbrev Tick (ι : Type*) := ι × LogAct × Clock

def TickStep (pf : Platform) (t : Journal ι) (x : Tick ι) (u : Journal ι) : Prop := JournalStep pf t (x.1, x.2.1) u

/-- The logger `i` writes records only. -/
def Journal.Stamped (i : ι) (t : Journal ι) (x : Tick ι) : Prop := t.Ok (x.1, x.2.1) ∧ (x.1 = i → x.2.1.Stamped x.2.2)

/-- What the clock answers in the sections of `i`. -/
def clocksOf (i : ι) (ticks : List (Tick ι)) : List Clock :=
  ticks.filterMap fun x => if x.1 = i then some x.2.2 else none

section
variable {pf : Platform} {log : ι → Logger} {w : World} {ticks : List (Tick ι)} {t : Journal ι} {i : ι}

theorem run_sections (hrun : Run (Guarded (Journal.Stamped i) (TickStep pf)) (.start log w) ticks t) :
    Run (Guarded Journal.Ok (JournalStep pf)) (.start log w) (ticks.map fun x => (x.1, x.2.1)) t := by
  induction hrun with
  | nil => exact .nil
  | snoc _ hst ih =>
    rw [List.map_append]
    exact ih.snoc ⟨hst.1.1, hst.2⟩

/-- **Run lemma**: the lines of a logger have the times of some of its sections, in their order. -/
theorem given_clocks (hrun : Run (Guarded (Journal.Stamped i) (TickStep pf)) (.start log w) ticks t) :
    ∃ (texts : List Str) (clocks : List Clock), t.given i = Tape.lines 10 texts ∧ (∀ s ∈ texts, (10 : UInt8) ∉ s) ∧
      texts.map stamp = clocks.map (fun c => c.timeText c.year) ∧ clocks.Sublist (clocksOf i ticks) ∧
        ∀ c ∈ clocks, c.Tells c.year := by
  induction hrun with
  | nil => exact ⟨[], [], rfl, by simp, rfl, .slnil, by simp⟩
  | @snoc ticks u x _ _ hst ih =>
    obtain ⟨texts, clocks, htexts, hclean, hstamps, hsub, htells⟩ := ih
    obtain ⟨⟨-, hstamped⟩, rfl⟩ := hst
    have hold : clocks.Sublist (clocksOf i (ticks ++ [x])) := by
      unfold clocksOf
      rw [List.filterMap_append]
      exact hsub.trans (List.sublist_append_left _ _)
    by_cases hi : i = x.1
    swap
    · exact ⟨texts, clocks, by simp [Journal.act, hi, htexts], hclean, hstamps, hold, htells⟩
    subst hi
    rcases given_stamped (l := u.log x.1) (w := u.world) (hstamped rfl) with hnone | ⟨line, hline, hnl, hstamp, ht⟩
    · exact ⟨texts, clocks, by simp [Journal.act, hnone, htexts], hclean, hstamps, hold, htells⟩
    · refine ⟨texts ++ [line], clocks ++ [x.2.2], ?_, ?_, ?_, ?_, ?_⟩
      · simp [Journal.act, htexts, hline, Tape.lines_append]
      · intro s hs
        rcases List.mem_append.1 hs with hs | hs
        · exact hclean s hs
        · rwa [List.mem_singleton.1 hs]
      · simp [hstamps, hstamp]
      · unfold clocksOf
        rw [List.filterMap_append]
        exact hsub.append (by simp)
      · intro c hc
        rcases List.mem_append.1 hc with hc | hc
        · exact htells c hc
        · rwa [List.mem_singleton.1 hc]

/-- A suffix of two lists is one of each. -/
theorem suffix_append {as bs ts : List Str} (h : ts <:+ as ++ bs) :
    ∃ old new, ts = old ++ new ∧ old <:+ as ∧ new <:+ bs := by
  obtain ⟨pre, h⟩ := h
  rcases List.append_eq_append_iff.1 h with ⟨old, has, hts⟩ | ⟨mid, -, hbs⟩
  · exact ⟨old, bs, hts, ⟨pre, has.symm⟩, List.suffix_rfl⟩
  · exact ⟨[], ts, rfl, List.nil_suffix, ⟨mid, hbs.symm⟩⟩

/-- **A log is in the order of time.** When nothing fails, a logger that writes records without newlines only and whose
local time never goes back from one section to the next has a log that reads as old lines and then new ones whose times
never go back, whatever the other loggers do, the interleaving and the rotations. -/
theorem log_sorted (hapart : FilesApart pf log) (hsound : ∀ i, Sound pf (log i) w) {first : List Str}
    (hfirst : (log i).written pf w = (Tape.lines 10 first).flatten ∧ ∀ s ∈ first, (10 : UInt8) ∉ s)
    (hclock : ticks.Pairwise fun x y => x.1 = i → y.1 = i → ¬ y.2.2.now < x.2.2.now)
    (hrun : Run (Guarded (Journal.Stamped i) (TickStep pf)) (.start log w) ticks t) :
    ∃ texts old new, t.given i = Tape.lines 10 texts ∧ old <:+ first ∧ new <:+ texts ∧
      ((t.log i).written pf t.world).splitOn 10 = old ++ new ++ [[]] ∧
        (new.map stamp).Pairwise fun s s' => ¬ s' < s := by
  obtain ⟨texts, clocks, htexts, hclean, hstamps, hsub, htells⟩ := given_clocks hrun
  obtain ⟨ts, hts, hsplit⟩ := lines_read hapart hsound (run_sections hrun) hfirst htexts hclean
  obtain ⟨old, new, rfl, hold, hnew⟩ := suffix_append hts
  refine ⟨texts, old, new, htexts, hold, hnew, hsplit, ?_⟩
  have hclocks : (clocksOf i ticks).Pairwise fun c c' => ¬ c'.now < c.now := by
    refine List.pairwise_filterMap.2 (hclock.imp ?_)
    intro x y hxy c hc c' hc'
    by_cases hx : x.1 = i <;> by_cases hy : y.1 = i
    · obtain rfl : x.2.2 = c := by simpa [hx] using hc
      obtain rfl : y.2.2 = c' := by simpa [hy] using hc'
      exact hxy hx hy
    · simp [hy] at hc'
    · simp [hx] at hc
    · simp [hx] at hc
  have htexts : (texts.map stamp).Pairwise fun s s' => ¬ s' < s := by
    rw [hstamps]
    refine List.pairwise_map.2 ((hclocks.sublist hsub).imp_of_mem ?_)
    intro c c' hc hc' hle
    rwa [Clock.timeText_lt_iff (htells c' hc').lt (htells c hc).lt]
  exact htexts.sublist (hnew.sublist.map stamp)

end

/-- `hello`, at the time of `c`; `fwrite` takes all of it. -/
def helloAt (l : Logger) (w : World) (c : Clock) : LogAct :=
  let line := lineText l.hasIdx l.hasTid w.idx (logRealTime c) AppendIO.ok.tid .note hello
  .writeRecord .file { AppendIO.ok with time := logRealTime c, line := ⟨line.length, 0⟩ } hello .note

theorem helloAt_stamped {l : Logger} {w : World} {c : Clock} (h : c.Tells c.year) :
    (helloAt l w c).Ok l w ∧ (helloAt l w c).Stamped c :=
  ⟨⟨le_rfl, le_refl 1⟩, ⟨by decide, by decide, by decide⟩, rfl, h⟩

/-- The last second of 1999, and the next one. -/
theorem log_sorted_millennium :
    let t := journalA (str "old" ++ [10])
    let u := t.act plain () (helloAt (t.log ()) t.world lastSecond)
    let v := u.act plain () (helloAt (u.log ()) u.world firstSecond)
    ∃ texts old new, v.given () = Tape.lines 10 texts ∧ old <:+ [str "old"] ∧ new <:+ texts ∧
      ((v.log ()).written plain v.world).splitOn 10 = old ++ new ++ [[]] ∧
        (new.map stamp).Pairwise fun s s' => ¬ s' < s := by
  intro t u v
  have hlast : lastSecond.Tells lastSecond.year := ⟨rfl, by decide, by decide⟩
  have hnext : firstSecond.Tells firstSecond.year := ⟨rfl, by decide, by decide⟩
  have hfirst : openedA.written plain (openedWorld (str "old" ++ [10])) = (Tape.lines 10 [str "old"]).flatten ∧
      ∀ s ∈ [str "old"], (10 : UInt8) ∉ s := ⟨congrArg Tape.live (openedA_tape _), by decide⟩
  have hrun : Run (Guarded (Journal.Stamped ()) (TickStep plain)) t
      [((), helloAt (t.log ()) t.world lastSecond, lastSecond),
        ((), helloAt (u.log ()) u.world firstSecond, firstSecond)] v :=
    .snoc (.single ⟨(helloAt_stamped hlast).imp_right fun h _ => h, rfl⟩)
      ⟨(helloAt_stamped hnext).imp_right fun h _ => h, rfl⟩
  exact log_sorted journalA_apart (fun _ => .inr ⟨streamA1, openedA_open _⟩) hfirst (by decide) hrun

end CtiLog
