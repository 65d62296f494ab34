import CtiLog.Ledger
import CtiLog.NoHole
/-
# What survives a crash

A process that dies loses what stdio still buffers, and nothing else. For the single logger of `no_hole`,
after any run: the files hold consecutive records, whole but for the last one, and at most two of the
newest records are missing; no record is divided between `path + ".1"` and the log. Older records are only
dropped for a backup of more than half of `maxSize` (`crash_durable`).
-/

namespace CtiLog

open Rotating Runs

/-- The only logger of a process, and the records it has emitted. -/
structure Diary where
  sole : Sole
  recs : List Str

/-- The lines an action emits: one at most. -/
def SoleAct.lines (pf : Platform) (t : Sole) : SoleAct → List Str
  | .append io m => ((t.log.append5 pf io m t.world).1.entry.map Entry.line).toList
  | .spill _ => []

def DiaryStep (pf : Platform) (t : Diary) (a : SoleAct) (u : Diary) : Prop :=
  SoleStep pf t.sole a u.sole ∧ u.recs = t.recs ++ a.lines pf t.sole

/-- What the files held at the start counts as two records. -/
structure DiaryInv (pf : Platform) (limit : Nat) (b c : Str) (t : Diary) : Prop where
  sole : SoleInv pf (b ++ c) t.sole
  maxSize : t.sole.log.maxSize.bytes = limit
  tape : (t.sole.tape pf).Durable False (limit / 2) (t.sole.world.idx % kFlushInteval) (b :: c :: t.recs)

section
variable {pf : Platform} {b c start : Str} {limit idx k n : Nat} {line : Str} {half : Prop} {given : List Str}

/-- One record, the flush and the check that are due. -/
theorem durable_record {t : Tape UInt8} (hidx : idx < 2 ^ 64) (hline : 14 * line.length ≤ limit)
    (hp : Paced limit idx t)
    (hn : n ≤ idx % kFlushInteval) (h : t.Durable half (limit / 2) n given) :
    ∃ m, m ≤ n + 1 ∧ m ≤ nextIdx idx % kFlushInteval ∧
      (tapeCheck (nextIdx idx) limit (tapeFlush (nextIdx idx) ((t.put line).spill k))).Durable half (limit / 2) m
        (given ++ [line]) := by
  have hle := hp.live_le hline
  have hput := (h.put (r := line)).spill k
  obtain ⟨m, hm, hm', hdurable, hlive⟩ : ∃ m, m ≤ n + 1 ∧ m ≤ nextIdx idx % kFlushInteval ∧
      (tapeFlush (nextIdx idx) ((t.put line).spill k)).Durable half (limit / 2) m (given ++ [line]) ∧
      (tapeFlush (nextIdx idx) ((t.put line).spill k)).live = (t.put line).live := by
    unfold tapeFlush
    split
    · exact ⟨0, Nat.zero_le _, Nat.zero_le _, hput.flush 0, by simp⟩
    · rename_i hne
      have hnext := (nextIdx_mod (n := kFlushInteval) hidx (by decide)).resolve_left hne
      exact ⟨n + 1, le_rfl, by omega, hput, by simp⟩
  refine ⟨m, hm, hm', ?_⟩
  unfold tapeCheck
  split
  · exact hdurable.fit (hlive ▸ hle)
  · exact hdurable

/-- The tape that an append writes to. -/
theorem durable_open {t : Sole} (ht : SoleInv pf start t)
    (h : (t.tape pf).Durable half (t.log.maxSize.bytes / 2) n given) :
    (tapeOpen t.log (t.tape pf)).Durable half (t.log.maxSize.bytes / 2) n given := by
  unfold tapeOpen
  split
  · rename_i hlog
    exact h.fit (ht.closed hlog)
  · exact h

/-- **One action**: it emits at most one record, and what is not on disk are records since the last flush. -/
theorem durable_step {t u : Sole} {a : SoleAct} (ht : SoleInv pf start t) (hstep : SoleStep pf t a u)
    (hn : n ≤ t.world.idx % kFlushInteval) (h : (t.tape pf).Durable half (t.log.maxSize.bytes / 2) n given) :
    ∃ m, m ≤ n + (a.lines pf t).length ∧ m ≤ u.world.idx % kFlushInteval ∧
      (u.tape pf).Durable half (t.log.maxSize.bytes / 2) m (given ++ a.lines pf t) := by
  cases hstep with
  | append io m hio hshort =>
    have hout : t.log.outputs.testFlag .file = true := by
      rw [ht.outputs]
      rfl
    obtain ⟨hpaced, -⟩ := ht.ready
    have hready := durable_open ht h
    dsimp only [SoleAct.lines]
    rcases append5_tape ht.path hout ht.sound hio with ⟨q, he, hr⟩ | ⟨e, q, k, s, w', he, hr, hopen, hidx, htape⟩
    · rw [he, hr]
      refine ⟨n, Nat.le_add_right _ _, hn, ?_⟩
      show (t.tape pf).Durable half _ n (given ++ [])
      rw [List.append_nil]
      exact h
    · have hline : 14 * e.line.length ≤ t.log.maxSize.bytes := hshort e he
      rw [he, hr]
      unfold Sole.tape
      rw [htape, hidx]
      exact durable_record ht.idx hline hpaced hn hready
  | spill k hs =>
    rename_i s
    obtain ⟨s', hopen⟩ := ht.sound.resolve_left (by simp [hs])
    obtain rfl : s = s' := by
      rw [hopen.log] at hs
      exact (Option.some.inj hs).symm
    have hopen' : Open pf _ _ _ := hopen.moved (spill_name s k t.world) (spill_onDisk k hopen.onDisk)
    have htape : ({ t.log with log := some (s.spill k t.world).1 } : Logger).tape pf (s.spill k t.world).2 =
        (t.tape pf).spill k := by
      refine hopen'.tape.trans ((spill_tape k hopen.onDisk hopen.name1_ne).trans ?_)
      rw [Sole.tape, hopen.tape]
    refine ⟨n, Nat.le_add_right _ _, hn, ?_⟩
    unfold Sole.tape
    rw [htape]
    simpa [SoleAct.lines] using h.spill k

theorem soleStep_settings {t u : Sole} {a : SoleAct} (hpath : t.log.path ≠ []) (h : SoleStep pf t a u) :
    u.log.path = t.log.path ∧ u.log.maxSize = t.log.maxSize := by
  cases h with
  | append io m _ _ =>
    obtain ⟨o, ho⟩ := @append5_settings pf t.log t.world io m hpath
    rw [gate_takes] at ho
    rw [ho]
    exact ⟨rfl, rfl⟩
  | spill k _ => exact ⟨rfl, rfl⟩

/-- **Step lemma.** -/
theorem diaryStep_inv {t u : Diary} {a : SoleAct} (ht : DiaryInv pf limit b c t) (h : DiaryStep pf t a u) :
    DiaryInv pf limit b c u := by
  obtain ⟨hsole, rfl, hdurable⟩ := ht
  obtain ⟨hstep, hrecs⟩ := h
  obtain ⟨m, -, hm, htape⟩ := durable_step hsole hstep le_rfl hdurable
  refine ⟨soleStep_inv hsole hstep, ?_, ?_⟩
  · rw [(soleStep_settings hsole.path hstep).2]
  · rw [hrecs]
    exact htape.mono hm

/-- The start of a process. -/
theorem soleInv_start {l : Logger} {w : World} (hpath : l.path ≠ []) (hout : l.outputs = .file) (hlog : l.log = none)
    (hidx : w.idx < 2 ^ 64) (hsize : (w.content (l.name pf)).length ≤ l.maxSize.bytes) :
    SoleInv pf (w.content (l.name1 pf) ++ w.content (l.name pf)) ⟨l, w, []⟩ ∧
      l.tape pf w = ⟨w.content (l.name pf), [], w.content (l.name1 pf)⟩ := by
  have htape : l.tape pf w = ⟨w.content (l.name pf), [], w.content (l.name1 pf)⟩ := by
    rw [Logger.tape, hlog, Option.elim]
  refine ⟨⟨hpath, hout, .inl hlog, hidx, fun _ => ?_, fun h => absurd hlog h, ?_⟩, htape⟩
  · rw [Sole.tape, htape, Tape.live, List.append_nil]
    exact hsize
  · rw [Sole.tape, htape, Tape.all, Tape.live, List.append_nil, List.append_nil]

end

/-- **What survives a crash.** The logger of `no_hole`, a log of at most `maxSize` bytes and lines of at most a
fourteenth of `maxSize`: where the process dies between two appends, the backup holds whole records and the log the
whole records that follow and a part of the next; at most the two newest records are missing, and no older one is
unless the backup is longer than half of `maxSize`. -/
theorem crash_durable {pf : Platform} {l : Logger} {w : World} (hpath : l.path ≠ []) (hout : l.outputs = .file)
    (hlog : l.log = none) (hidx : w.idx < 2 ^ 64) (hsize : (w.content (l.name pf)).length ≤ l.maxSize.bytes)
    {as : List SoleAct} {t : Diary} (hrun : Run (DiaryStep pf) ⟨⟨l, w, []⟩, []⟩ as t) :
    ∃ front back late part,
      front ++ back ++ late <:+ w.content (l.name1 pf) :: w.content (l.name pf) :: t.recs ∧ late.length ≤ 2 ∧
      part <+: late.flatten ∧ t.sole.world.content (t.sole.log.name1 pf) = front.flatten ∧
      t.sole.world.content (t.sole.log.name pf) = back.flatten ++ part ∧
      (front ++ back ++ late = w.content (l.name1 pf) :: w.content (l.name pf) :: t.recs ∨
        l.maxSize.bytes / 2 < (t.sole.world.content (t.sole.log.name1 pf)).length) := by
  obtain ⟨hsole, htape⟩ := soleInv_start hpath hout hlog hidx hsize
  have hstart : DiaryInv pf l.maxSize.bytes (w.content (l.name1 pf)) (w.content (l.name pf)) ⟨⟨l, w, []⟩, []⟩ := by
    refine ⟨hsole, rfl, ?_⟩
    have h : (l.tape pf w).Durable False (l.maxSize.bytes / 2) (w.idx % kFlushInteval) _ :=
      .start _ (congrArg Tape.buf htape)
    rw [htape, Tape.live, List.append_nil] at h
    rw [Sole.tape, htape]
    exact h
  have hinv : DiaryInv pf _ _ _ t := hrun.inv _ hstart fun _ _ _ => diaryStep_inv
  have hmod : t.sole.world.idx % kFlushInteval ≤ 2 := Nat.le_of_lt_succ (Nat.mod_lt _ (by decide))
  obtain ⟨front, back, late, part, hsuffix, hlate, hpart, hsaved, hdisk⟩ := hinv.tape.crash
  obtain ⟨hbackup, hkept⟩ := hsaved.resolve_right fun h => h.1
  exact ⟨front, back, late, part, hsuffix, hlate.trans hmod, hpart, hbackup, hdisk, hkept⟩

/-- A first record, in an empty file. -/
def helloDiary : Diary :=
  ⟨(⟨freshA, oneFile [], []⟩ : Sole).hello, [] ++ (SoleAct.append .ok hello).lines plain ⟨freshA, oneFile [], []⟩⟩

theorem crash_durable_hello : ∃ front back late part,
    front ++ back ++ late <:+ (oneFile []).content (freshA.name1 plain) :: (oneFile []).content (freshA.name plain) ::
      helloDiary.recs ∧ late.length ≤ 2 ∧ part <+: late.flatten ∧
    helloDiary.sole.world.content (helloDiary.sole.log.name1 plain) = front.flatten ∧
    helloDiary.sole.world.content (helloDiary.sole.log.name plain) = back.flatten ++ part ∧
    (front ++ back ++ late = (oneFile []).content (freshA.name1 plain) :: (oneFile []).content (freshA.name plain) ::
      helloDiary.recs ∨
      freshA.maxSize.bytes / 2 < (helloDiary.sole.world.content (helloDiary.sole.log.name1 plain)).length) := by
  have hshort : ∀ e ∈ (freshA.append5 plain .ok hello (oneFile [])).1.entry,
      14 * e.line.length ≤ freshA.maxSize.bytes := by
    rw [hello_entry]
    rintro e ⟨⟩
    decide
  have hstep : DiaryStep plain ⟨⟨freshA, oneFile [], []⟩, []⟩ (.append .ok hello) helloDiary :=
    ⟨.append .ok hello hello_ok hshort, rfl⟩
  exact crash_durable (by decide) rfl rfl (by decide) (by decide) (.single hstep)

end CtiLog
