import CtiLog.Append
import CtiLog.Frame
import CtiLog.Runs
/-
# The size limit of several loggers

A log may exceed half of `maxSize` by what was appended since the last check, and by what that check
could not see. `kLogIdx` is one counter for all loggers and does not count the two-argument appends, so
a logger may be appended to for ever without a check (`eleven_records`). The limit holds with ten
records in every run in which no logger gets more than ten records that its last check missed
(`size_limit`).
-/

namespace CtiLog

open Rotating Runs

/-! ## Several loggers in one process -/

/-- The loggers, and of each one the records appended and how many its last check missed. -/
structure Fleet (ι : Type*) where
  log : ι → Logger
  world : World
  tally : ι → Tally UInt8

namespace Fleet

variable {ι : Type*}

def start (log : ι → Logger) (w : World) : Fleet ι := ⟨log, w, fun _ => ⟨[], 0, 0⟩⟩

variable [DecidableEq ι]

/-- The record of a five-argument append, the flush and the check that left `t`. -/
def tally5 (idx : Nat) (line : Str) (t : Tape UInt8) (c : Tally UInt8) : Tally UInt8 :=
  let c := c.put line
  let c := if idx % kFlushInteval = 0 then c.flush else c
  if idx % kShrinkToFitInteval = 0 then c.fit t else c

/-- The record of a two-argument append. -/
def tally2 (idx : Nat) (msg : Str) (c : Tally UInt8) : Tally UInt8 :=
  let c := c.put msg
  if idx % kFlushInteval = 0 then c.flush else c

def append5 (pf : Platform) (i : ι) (io : AppendIO) (m : Msg) (t : Fleet ι) : Fleet ι :=
  let (r, l, w) := (t.log i).append5 pf io m t.world
  { log := Function.update t.log i l
    world := w
    tally := Function.update t.tally i
      (r.entry.elim (t.tally i) fun e => tally5 w.idx e.line (l.tape pf w) (t.tally i)) }

/-- A logger without a stream records nothing. -/
def append2 (i : ι) (io : Logger.Append2IO) (msg : Str) (ll : LogLevel) (t : Fleet ι) : Fleet ι :=
  let (r, l, w) := (t.log i).append2 io msg ll t.world
  { log := Function.update t.log i l
    world := w
    tally := Function.update t.tally i
      (if l.log.isNone then t.tally i else r.entry.elim (t.tally i) fun e => tally2 w.idx e.text (t.tally i)) }

end Fleet

variable {ι : Type*}

inductive FleetAct (ι : Type*) where
  | append5 (i : ι) (io : AppendIO) (m : Msg)
  | append2 (i : ι) (io : Logger.Append2IO) (msg : Str) (ll : LogLevel)

/-- An append in which every system call succeeds. -/
inductive FleetStep (pf : Platform) [DecidableEq ι] : Fleet ι → FleetAct ι → Fleet ι → Prop
  | append5 {t : Fleet ι} (i : ι) (io : AppendIO) (m : Msg) : io.Ok pf m (t.log i) t.world →
      FleetStep pf t (.append5 i io m) (t.append5 pf i io m)
  | append2 {t : Fleet ι} (i : ι) (io : Logger.Append2IO) (msg : Str) (ll : LogLevel) : io.Ok msg →
      FleetStep pf t (.append2 i io msg ll) (t.append2 i io msg ll)

/-- Records that the last check has missed after one more, when `kLogIdx` is `idx`. -/
def lagAfter (idx : Nat) (c : Tally UInt8) : Nat :=
  if idx % kShrinkToFitInteval = 0 then (if idx % kFlushInteval = 0 then 0 else c.held + 1) else c.lag + 1

/-- Of the records of the logger appended to, its last check has missed ten at most. -/
def InTime (t : Fleet ι) : FleetAct ι → Prop
  | .append5 i _ m => ((t.log i).gate m.logLevel).1 ≠ none → lagAfter (nextIdx t.world.idx) (t.tally i) ≤ 10
  | .append2 i _ _ ll => (t.log i).log ≠ none → ((t.log i).gate ll).1 ≠ none → (t.tally i).lag + 1 ≤ 10

/-! ## The invariant -/

/-- Loggers with output to files of their own: none is the log or the backup of another. -/
structure Fleet.Apart (pf : Platform) (log : ι → Logger) : Prop where
  path : ∀ i, (log i).path ≠ []
  file : ∀ i, (log i).outputs.testFlag .file = true
  apart : ∀ i j, j ≠ i → CtiLog.Apart pf (log i).path ((log j).name pf)

structure FleetInv (pf : Platform) (t : Fleet ι) : Prop where
  apart : Fleet.Apart pf t.log
  sound : ∀ i, Sound pf (t.log i) t.world
  bounded : ∀ i, Tally.Bounded (t.log i).maxSize.bytes ((t.log i).tape pf t.world) (t.tally i)
  fresh : ∀ i, (t.log i).log = none → (t.tally i).held = 0 ∧ (t.tally i).lag = 0
  lag : ∀ i, (t.tally i).lag ≤ 10

section
variable {pf : Platform} {t : Fleet ι} {l : Logger} {w w' : World} {i j : ι}

theorem Sound.named (h : Sound pf l w) : Named pf l := by
  rcases h with hlog | ⟨s, hs⟩
  · simp [Named, hlog]
  · simp [Named, hs.log, hs.name]

/-- An operation of another logger, on files apart. -/
theorem Sound.other {a b : Logger × World} {twice counts sets : Prop} (h : Sound pf l a.2)
    (hacts : Acts pf twice counts sets a b)
    (hnamed : Named pf a.1) (hn : Apart pf a.1.path (l.name pf)) : Sound pf l b.2 := by
  apply h.imp id
  rintro ⟨s, hs⟩
  have hnode : (a.2.fs (l.name pf)).node ≠ none := by
    rw [← hs.name, hs.onDisk]
    simp
  refine ⟨s, hs.log, hs.name, ?_⟩
  unfold Stream.OnDisk
  rw [hs.name, acts_frame hacts hnamed hn (.inr hnode), ← hs.name]
  exact hs.onDisk

theorem bounded_other {a b : Logger × World} {twice counts sets : Prop} {limit : Nat} {c : Tally UInt8}
    (h : Tally.Bounded limit (l.tape pf a.2) c) (hacts : Acts pf twice counts sets a b)
    (hnamed : Named pf a.1) (hn : Apart pf a.1.path (l.name pf)) : Tally.Bounded limit (l.tape pf b.2) c := by
  refine ⟨h.buf, ?_⟩
  show (b.2.content (l.name pf) ++ _).length ≤ _
  rw [acts_content hacts hnamed hn]
  exact h.live

/-- What holds of logger `i` after its operation, and of every other before, holds of all after. -/
theorem Fleet.forall_update [DecidableEq ι] (t : Fleet ι) (l : Logger) (c : Tally UInt8)
    {P : ι → Logger → Tally UInt8 → Prop} (hi : P i l c) (hother : ∀ j, j ≠ i → P j (t.log j) (t.tally j)) (j : ι) :
    P j (Function.update t.log i l j) (Function.update t.tally i c j) := by
  by_cases hj : j = i
  · subst hj
    simpa using hi
  · simpa [hj] using hother j hj

/-- What is left to show of an operation of logger `i`. -/
theorem FleetInv.update [DecidableEq ι] {c : Tally UInt8} {twice counts sets : Prop} (ht : FleetInv pf t)
    (hacts : Acts pf twice counts sets (t.log i, t.world) (l, w)) (hout : l.outputs = (t.log i).outputs)
    (hsound : Sound pf l w) (hbounded : Tally.Bounded l.maxSize.bytes (l.tape pf w) c)
    (hfresh : l.log = none → c.held = 0 ∧ c.lag = 0) (hlag : c.lag ≤ 10) :
    FleetInv pf ⟨Function.update t.log i l, w, Function.update t.tally i c⟩ := by
  have hpath : l.path = (t.log i).path := acts_path hacts
  have hname : ∀ j, (Function.update t.log i l j).path = (t.log j).path :=
    t.forall_update l c (P := fun j l _ => l.path = (t.log j).path) hpath fun _ _ => rfl
  have hother : ∀ j, j ≠ i → Apart pf (t.log i).path ((t.log j).name pf) := fun j hj => ht.apart.apart i j hj
  refine ⟨⟨?_, ?_, ?_⟩, ?_, ?_, ?_, ?_⟩
  · intro j
    rw [hname]
    exact ht.apart.path j
  · refine t.forall_update l c (P := fun _ l _ => l.outputs.testFlag .file = true) ?_ fun j _ => ht.apart.file j
    rw [hout]
    exact ht.apart.file i
  · intro j k hk
    rw [hname, Logger.name, hname]
    exact ht.apart.apart j k hk
  · exact t.forall_update l c (P := fun _ l _ => Sound pf l w) hsound fun j hj =>
      (ht.sound j).other hacts (ht.sound i).named (hother j hj)
  · exact t.forall_update l c (P := fun _ l c => Tally.Bounded l.maxSize.bytes (l.tape pf w) c) hbounded
      fun j hj => bounded_other (ht.bounded j) hacts (ht.sound i).named (hother j hj)
  · exact t.forall_update l c (P := fun _ l c => l.log = none → c.held = 0 ∧ c.lag = 0) hfresh
      fun j _ => ht.fresh j
  · exact t.forall_update l c (P := fun _ _ c => c.lag ≤ 10) hlag fun j _ => ht.lag j

/-- An append that emits nothing only takes the pending level. -/
theorem FleetInv.quiet [DecidableEq ι] {twice counts sets : Prop} {q : LogLevel} (ht : FleetInv pf t)
    (hacts : Acts pf twice counts sets (t.log i, t.world) ({ t.log i with spinOnceLogLevel := q }, t.world)) :
    FleetInv pf ⟨Function.update t.log i { t.log i with spinOnceLogLevel := q }, t.world,
      Function.update t.tally i (t.tally i)⟩ := by
  refine ht.update hacts rfl ?_ (ht.bounded i) (ht.fresh i) (ht.lag i)
  exact (ht.sound i).imp id fun ⟨s, hs⟩ => ⟨s, hs.spin⟩

/-- The tape and the tally of a five-argument append. -/
theorem bounded_tally5 {limit idx k : Nat} {tape : Tape UInt8} {c : Tally UInt8} {line : Str}
    (h : Tally.Bounded limit tape c) :
    Tally.Bounded limit (tapeCheck idx limit (tapeFlush idx ((tape.put line).spill k)))
      (Fleet.tally5 idx line (tapeCheck idx limit (tapeFlush idx ((tape.put line).spill k))) c) := by
  have hput := (h.put line).spill k
  have hflush : Tally.Bounded limit (tapeFlush idx ((tape.put line).spill k))
      (if idx % kFlushInteval = 0 then (c.put line).flush else c.put line) := by
    unfold tapeFlush
    split
    · exact hput.flush
    · exact hput
  unfold Fleet.tally5 tapeCheck
  dsimp only
  split
  · exact hflush.fit
  · exact hflush

theorem bounded_tally2 {limit idx k : Nat} {tape : Tape UInt8} {c : Tally UInt8} {msg : Str}
    (h : Tally.Bounded limit tape c) :
    Tally.Bounded limit (tapeFlush idx ((tape.put msg).spill k)) (Fleet.tally2 idx msg c) := by
  have hput := (h.put msg).spill k
  unfold Fleet.tally2 tapeFlush
  dsimp only
  split
  · exact hput.flush
  · exact hput

theorem lag_tally5 (idx : Nat) (line : Str) (tape : Tape UInt8) (c : Tally UInt8) :
    (Fleet.tally5 idx line tape c).lag ≤ lagAfter idx c := by
  unfold Fleet.tally5 lagAfter Tally.fit Tally.flush Tally.put
  dsimp only
  split
  · split
    · split <;> simp
    · split <;> simp
  · split <;> simp

theorem lag_tally2 (idx : Nat) (msg : Str) (c : Tally UInt8) : (Fleet.tally2 idx msg c).lag = c.lag + 1 := by
  unfold Fleet.tally2
  dsimp only
  split <;> rfl

theorem recs_tally2 (idx : Nat) (msg : Str) (c : Tally UInt8) : (Fleet.tally2 idx msg c).recs = msg :: c.recs := by
  unfold Fleet.tally2
  dsimp only
  split <;> rfl

/-- The tape an append writes to, and its tally: if the log has to be opened, that checks it. -/
theorem FleetInv.ready (ht : FleetInv pf t) (i : ι) :
    Tally.Bounded (t.log i).maxSize.bytes (tapeOpen (t.log i) ((t.log i).tape pf t.world)) (t.tally i) := by
  unfold tapeOpen
  split
  · rename_i hlog
    obtain ⟨hheld, hlag⟩ := ht.fresh i hlog
    have hfit := (ht.bounded i).fit
    rwa [Tally.fit_fresh hheld hlag] at hfit
  · exact ht.bounded i

/-- **Step lemma**: an append in time. -/
theorem fleetStep_inv [DecidableEq ι] {u : Fleet ι} {a : FleetAct ι} (ht : FleetInv pf t)
    (h : Guarded InTime (FleetStep pf) t a u) : FleetInv pf u := by
  obtain ⟨hguard, hstep⟩ := h
  cases hstep with
  | append5 i io m hio =>
    have hacts := @append5_acts pf (t.log i) t.world io m
    have hgate : ((t.log i).append5 pf io m t.world).1.entry ≠ none → ((t.log i).gate m.logLevel).1 ≠ none :=
      fun he hg => he (append5_refused hg)
    have hspec := append5_tape (ht.apart.path i) (ht.apart.file i) (ht.sound i) hio
    unfold Fleet.append5
    generalize (t.log i).append5 pf io m t.world = r at *
    obtain ⟨r, l', w'⟩ := r
    dsimp only at hacts hgate hspec ⊢
    rcases hspec with ⟨q, he, hr⟩ | ⟨e, q, k, s, w'', he, hr, hopen, hidx, htape⟩
    · cases hr
      rw [he]
      exact ht.quiet hacts
    · cases hr
      rw [he]
      refine ht.update hacts rfl (.inr ⟨s, hopen⟩) ?_ (fun hlog => (by cases hlog)) ((lag_tally5 _ _ _ _).trans ?_)
      · dsimp only [Option.elim]
        rw [htape]
        exact bounded_tally5 (ht.ready i)
      · rw [hidx]
        exact hguard (hgate (by simp [he]))
  | append2 i io msg ll hio =>
    have hacts := @append2_acts pf False False (t.log i) t.world io msg ll
    have hgate : ((t.log i).append2 io msg ll t.world).1.entry ≠ none → ((t.log i).gate ll).1 ≠ none :=
      fun he hg => he (append2_refused hg)
    have hspec := @append2_tape pf _ _ io msg ll (ht.apart.path i) (ht.apart.file i) (ht.sound i) hio
    unfold Fleet.append2
    generalize (t.log i).append2 io msg ll t.world = r at *
    obtain ⟨r, l', w'⟩ := r
    dsimp only at hacts hgate hspec ⊢
    rcases hspec with ⟨q, hr, he⟩ | ⟨e, q, k, s, w'', he, rfl, hlog, hr, hopen, hidx, htape⟩
    · cases hr
      have htally : (if (t.log i).log.isNone then t.tally i
          else r.entry.elim (t.tally i) fun e => Fleet.tally2 t.world.idx e.text (t.tally i)) = t.tally i := by
        rcases he with he | hlog
        · rw [he]
          simp
        · simp [hlog]
      rw [htally]
      exact ht.quiet hacts
    · cases hr
      rw [he]
      refine ht.update hacts rfl (.inr ⟨s, hopen⟩) ?_ (fun hlog => (by cases hlog)) ?_
      · rw [htape]
        exact bounded_tally2 (ht.bounded i)
      · exact (lag_tally2 _ _ _).le.trans (hguard hlog (hgate (by simp [he])))

end

/-- Loggers that have written nothing yet, with logs of at most half of `maxSize`. -/
structure Fleet.Fresh (pf : Platform) (log : ι → Logger) (w : World) : Prop where
  stream : ∀ i, (log i).log = none ∨ ∃ s, Open pf (log i) s w ∧ s.buf = []
  small : ∀ i, (w.content ((log i).name pf)).length ≤ (log i).maxSize.bytes / 2

/-- **The size limit**: half of `maxSize` and the ten newest records, in every run in which no logger gets
more than ten records that its last check missed. -/
theorem size_limit [DecidableEq ι] {pf : Platform} {log : ι → Logger} {w : World} (hapart : Fleet.Apart pf log)
    (hfresh : Fleet.Fresh pf log w) {as : List (FleetAct ι)} {t : Fleet ι}
    (hrun : Run (Guarded InTime (FleetStep pf)) (.start log w) as t) (i : ι) :
    ((t.log i).written pf t.world).length ≤ (t.log i).maxSize.bytes / 2 + newestLength 10 (t.tally i).recs := by
  have hbuf : ∀ i, ((log i).tape pf w).buf = [] := by
    intro i
    show (log i).log.elim [] Stream.buf = []
    rcases hfresh.stream i with hlog | ⟨s, hs, hb⟩
    · rw [hlog]
      rfl
    · rw [hs.log]
      exact hb
  have hstart : FleetInv pf (.start log w) := by
    refine ⟨hapart, fun i => ?_, fun i => ⟨?_, ?_⟩, fun i _ => ⟨rfl, rfl⟩, fun i => Nat.zero_le _⟩
    · exact (hfresh.stream i).imp id fun ⟨s, hs, _⟩ => ⟨s, hs⟩
    · show ((log i).tape pf w).buf.length ≤ _
      rw [hbuf]
      exact Nat.zero_le _
    · show ((log i).tape pf w).live.length ≤ _
      rw [Tape.length_live, hbuf]
      exact (hfresh.small i).trans (Nat.le_add_right _ _)
  have hinv := hrun.inv _ hstart fun _ _ _ => fleetStep_inv
  exact (hinv.bounded i).within (hinv.lag i)

/-! ## Eleven records without a check -/

def Logger.Append2IO.ok : Logger.Append2IO := ⟨⟨8192, 0⟩, .ok, 0⟩

/-- The file `a` is flushed while `kLogIdx` is 0. -/
theorem append2_openedA {w : World} (hidx : w.idx = 0) :
    ∃ e w', openedA.append2 .ok (str "x") .note w = (⟨0, some e, none⟩, openedA, w') ∧ e.text = str "x" ∧
      w'.idx = 0 := by
  have hdue : (streamA1.fwrite (str "x") ⟨8192, 0⟩ w).2.2.idx % kFlushInteval = 0 := by
    rw [fwrite_idx, hidx]
    rfl
  refine ⟨⟨none, .note, str "x"⟩, ((streamA1.fwrite (str "x") ⟨8192, 0⟩ w).2.1.fflush .ok
    (streamA1.fwrite (str "x") ⟨8192, 0⟩ w).2.2).2, ?_, rfl, ?_⟩
  · have hgate : openedA.gate .note = (some .note, openedA) := rfl
    have hflush : Logger.flushDue .ok (streamA1.fwrite (str "x") ⟨8192, 0⟩ w).2.1
        (streamA1.fwrite (str "x") ⟨8192, 0⟩ w).2.2 =
        (streamA1.fwrite (str "x") ⟨8192, 0⟩ w).2.1.fflush .ok (streamA1.fwrite (str "x") ⟨8192, 0⟩ w).2.2 := if_pos hdue
    unfold Logger.append2
    rw [if_neg (by decide), hgate]
    dsimp only
    rw [if_neg (by decide), if_neg (by decide), if_pos (by decide)]
    dsimp only [openedA, Logger.Append2IO.ok]
    rw [hflush]
    rfl
  · rw [fflush_idx, fwrite_idx, hidx]

/-- One logger, with `a` open. -/
def fleetA (bs : Str) : Fleet Unit := .start (fun _ => openedA) (openedWorld bs)

theorem fleetA_apart : Fleet.Apart plain fun _ : Unit => openedA :=
  ⟨fun _ => show openedA.path ≠ [] by decide, fun _ => show openedA.outputs.testFlag .file = true by decide,
    fun _ _ h => (h rfl).elim⟩

theorem fleetA_fresh {bs : Str} (h : bs.length ≤ 4096) :
    Fleet.Fresh plain (fun _ : Unit => openedA) (openedWorld bs) := by
  refine ⟨fun _ => .inr ⟨streamA1, openedA_open bs, rfl⟩, fun _ => ?_⟩
  have hdisk : (openedWorld bs).content (openedA.name plain) = bs := congrArg Tape.disk (openedA_tape bs)
  rw [hdisk]
  exact h.trans (by decide)

/-- `n` records of one byte are appended. -/
theorem fleetA_records (bs : Str) (n : Nat) :
    ∃ as t, Run (FleetStep plain) (fleetA bs) as t ∧ t.log = (fun _ => openedA) ∧ Open plain openedA streamA1 t.world ∧
      t.world.idx = 0 ∧ (openedA.written plain t.world).length = bs.length + n ∧
      (t.tally ()).recs = List.replicate n (str "x") := by
  induction n with
  | zero =>
    refine ⟨[], _, .nil, rfl, openedA_open bs, rfl, ?_, rfl⟩
    show (openedA.tape plain (openedWorld bs)).live.length = _
    rw [openedA_tape]
    simp [Tape.live]
  | succ n ih =>
    obtain ⟨as, t, hrun, hlog, hopen, hidx, hlen, hrecs⟩ := ih
    obtain ⟨e, w', hr, he, hidx'⟩ := append2_openedA hidx
    have hio : Logger.Append2IO.ok.Ok (str "x") := ⟨by decide, rfl⟩
    have hspec := @append2_tape plain openedA t.world .ok (str "x") .note (by decide) (by decide) (.inr ⟨_, hopen⟩) hio
    rw [hr] at hspec
    rcases hspec with ⟨q, -, h | h⟩ | ⟨e', q, k, s, w'', -, -, -, hw, hopen', -, htape⟩
    · cases h
    · cases h
    obtain ⟨hl, rfl⟩ := Prod.mk.inj hw
    rw [← hl] at hopen' htape
    obtain rfl : streamA1 = s := Option.some.inj hopen'.log
    have hstep := @FleetStep.append2 Unit plain _ t () .ok (str "x") .note hio
    refine ⟨_, _, hrun.snoc hstep, ?_⟩
    unfold Fleet.append2
    rw [hlog, hr]
    dsimp only
    refine ⟨Function.update_eq_self () (fun _ => openedA), hopen', hidx', ?_, ?_⟩
    · have hlive : (tapeFlush w'.idx (((openedA.tape plain t.world).put (str "x")).spill k)).live =
          (openedA.tape plain t.world).live ++ str "x" := by
        unfold tapeFlush
        split <;> simp
      calc (openedA.written plain w').length = (openedA.tape plain w').live.length := rfl
        _ = (openedA.written plain t.world).length + 1 := by
          rw [htape, hlive, List.length_append]
          rfl
        _ = bs.length + (n + 1) := by rw [hlen, Nat.add_assoc]
    · rw [Function.update_self]
      show (Fleet.tally2 w'.idx e.text (t.tally ())).recs = _
      rw [recs_tally2, he, hrecs, List.replicate_succ]

/-- `n` records of five arguments. -/
def fleetHellos (n : Nat) : Fleet Unit := n.repeat (fun t => t.append5 plain () .ok hello) (fleetA [])

theorem hello_inTime (n : Nat) (hopened : ((fleetHellos n).log ()).log.isSome)
    (hline : ∀ e ∈ (((fleetHellos n).log ()).append5 plain .ok hello (fleetHellos n).world).1.entry, e.text.length ≤ 8192)
    (hlag : lagAfter (nextIdx (fleetHellos n).world.idx) ((fleetHellos n).tally ()) ≤ 10) :
    Guarded InTime (FleetStep plain) (fleetHellos n) (.append5 () .ok hello) (fleetHellos (n + 1)) :=
  ⟨fun _ => hlag, .append5 () .ok hello
    ⟨fun hlog => absurd hopened (by simp [hlog]), ShrinkIO.ok_ok, hline, le_rfl, rfl, ShrinkIO.ok_ok⟩⟩

/-- Five records with a check, which does not see the two that wait for a flush, and one more. -/
theorem size_limit_six :
    let t := (fleetHellos 5).append2 () .ok (str "x") .note
    (t.tally ()).lag = 3 ∧
      ((t.log ()).written plain t.world).length ≤ (t.log ()).maxSize.bytes / 2 + newestLength 10 (t.tally ()).recs := by
  have h₁ : Run (Guarded InTime (FleetStep plain)) (fleetA []) _ (fleetHellos 1) :=
    .single (hello_inTime 0 (by decide) (by decide) (by decide))
  have h₂ : Run _ _ _ (fleetHellos 2) := h₁.snoc (hello_inTime 1 (by decide) (by decide) (by decide))
  have h₃ : Run _ _ _ (fleetHellos 3) := h₂.snoc (hello_inTime 2 (by decide) (by decide) (by decide))
  have h₄ : Run _ _ _ (fleetHellos 4) := h₃.snoc (hello_inTime 3 (by decide) (by decide) (by decide))
  have h₅ : Run _ _ _ (fleetHellos 5) := h₄.snoc (hello_inTime 4 (by decide) (by decide) (by decide))
  have hlast : Guarded InTime (FleetStep plain) (fleetHellos 5) (.append2 () .ok (str "x") .note) _ :=
    ⟨fun _ _ => by decide, .append2 () .ok (str "x") .note ⟨by decide, rfl⟩⟩
  exact ⟨by decide, size_limit fleetA_apart (fleetA_fresh (by decide)) (h₅.snoc hlast) ()⟩

/-- **Eleven records without a check**: a log of 4096 bytes and two-argument appends. -/
theorem eleven_records :
    let bs := List.replicate 4096 0
    Fleet.Apart plain (fun _ : Unit => openedA) ∧ Fleet.Fresh plain (fun _ : Unit => openedA) (openedWorld bs) ∧
      ∃ as t, Run (FleetStep plain) (fleetA bs) as t ∧
        ¬ ((t.log ()).written plain t.world).length ≤
          (t.log ()).maxSize.bytes / 2 + newestLength 10 (t.tally ()).recs := by
  intro bs
  have hlen : bs.length = 4096 := List.length_replicate
  refine ⟨fleetA_apart, fleetA_fresh hlen.le, ?_⟩
  obtain ⟨as, t, hrun, hlog, -, -, hwritten, hrecs⟩ := fleetA_records bs 11
  refine ⟨as, t, hrun, ?_⟩
  rw [hlog, hrecs, hwritten, hlen]
  decide

end CtiLog
