import CtiLog.Ledger
import CtiLog.NoHole
import CtiLog.SizeLimit
/-
# What the operations lose when calls fail

The operations of a logger as operations on its tape, whatever the outcomes of their calls: the stream
stays on the file of the path (`acts_sound`), and every relation that the tape's operations respect holds
between the tape before and the tape after. One of them is that log and backup hold no more than before.

| operation | what may be lost |
| --- | --- |
| `fflush`          | nothing: what is not written stays in the buffer (`fflush_any`) |
| `fclose`          | the bytes that it cannot write (`fclose_tape`) |
| `reset`, `finish` | what the `fclose` loses; with `trunc`, the log (`reset_respects`) |
| `copyLog`         | the old backup (`copyLog_sublist`) |
| `shrinkToFit`     | the old backup, what the `fclose` loses, what the copy left out (`shrinkToFit_respects`) |
-/

namespace CtiLog

open Rotating Runs Chunks

section
variable {pf : Platform} {l : Logger} {w : World} {s : Stream}

/-! ## The stream stays on its file -/

theorem act_sound {twice counts sets : Prop} {a b : Logger × World} (h : Act pf twice counts sets a b)
    (ha : Sound pf a.1 a.2) : Sound pf b.1 b.2 := by
  cases h with
  | @config l l' w _ hp hl =>
    rcases ha with hlog | ⟨s, hs⟩
    · left
      rw [← hlog]
      exact hl
    · refine .inr ⟨s, hl.trans hs.log, ?_, hs.onDisk⟩
      rw [hs.name, Logger.name, Logger.name, hp]
  | fflush o hl =>
    obtain ⟨s', hs⟩ := ha.resolve_left (by simp [hl])
    obtain rfl := Option.some.inj (hl.symm.trans hs.log)
    exact .inr ⟨_, hs.moved rfl (fflush_onDisk o hs.onDisk)⟩
  | fwrite bs o hl =>
    obtain ⟨s', hs⟩ := ha.resolve_left (by simp [hl])
    obtain rfl := Option.some.inj (hl.symm.trans hs.log)
    exact .inr ⟨_, hs.moved rfl (fwrite_onDisk bs o hs.onDisk)⟩
  | fclose o hl => exact .inl rfl
  | again f _ hl => exact .inl hl
  | @mkdirs l w io =>
    apply ha.imp id
    rintro ⟨s, hs⟩
    refine ⟨s, hs.log, hs.name, ?_⟩
    have hnode : (w.fs s.name).node = some (.regular s.gen) := hs.onDisk
    unfold Stream.OnDisk
    rw [mkDirs_frame _ _ _ _ (.inr (by rw [hnode]; simp))]
    exact hnode
  | fopen mode fail _ _ ho =>
    obtain ⟨-, hname, -, hnode, -⟩ := fopen_some ho
    refine .inr ⟨_, rfl, hname, ?_⟩
    unfold Stream.OnDisk
    rw [hname]
    exact hnode
  | count _ =>
    apply ha.imp id
    rintro ⟨s, hs⟩
    exact ⟨s, countRecord_open hs⟩
  | copy hc =>
    apply ha.imp id
    rintro ⟨s, hs⟩
    refine ⟨s, hs.log, hs.name, ?_⟩
    unfold Stream.OnDisk
    rw [hc.fs _ hs.name1_ne.symm]
    exact hs.onDisk

theorem acts_sound {twice counts sets : Prop} {a b : Logger × World} (h : Acts pf twice counts sets a b)
    (ha : Sound pf a.1 a.2) : Sound pf b.1 b.2 :=
  h.inv (fun c => Sound pf c.1 c.2) (fun _ _ => act_sound) ha

/-! ## Losses, whatever fails -/

theorem fflush_any (o : Flush) (h : Open pf l s w) :
    Open pf { l with log := some (s.fflush o w).1 } (s.fflush o w).1 (s.fflush o w).2 ∧
      ({ l with log := some (s.fflush o w).1 } : Logger).tape pf (s.fflush o w).2 =
        (l.tape pf w).spill (o.out s.buf.length) := by
  have hopen : Open pf { l with log := some (s.fflush o w).1 } (s.fflush o w).1 (s.fflush o w).2 :=
    h.moved rfl (fflush_onDisk o h.onDisk)
  refine ⟨hopen, ?_⟩
  rw [hopen.tape, h.tape]
  exact @spill_tape s (w.call (.fflush s.file)) _ _ h.onDisk h.name1_ne

theorem fclose_tape (o : Flush) (h : Open pf l s w) :
    ({ l with log := none } : Logger).tape pf (s.fclose o w) = (l.tape pf w).cut (o.out s.buf.length) := by
  have hspill := @spill_tape s (w.call (.fclose s.file)) (l.name1 pf) (o.out s.buf.length) h.onDisk h.name1_ne
  have hdisk := congrArg Tape.disk hspill
  have hbackup := congrArg Tape.backup hspill
  rw [h.tape]
  ext1
  · show (s.fclose o w).content (l.name pf) = _
    rw [← h.name]
    exact hdisk
  · rfl
  · exact hbackup

/-- A stream that is closed: the flush may write only a part, and so may the close. -/
theorem closeLog_tape (io : FinishIO) (h : Open pf l s w) :
    ((l.closeLog io w).1).tape pf (l.closeLog io w).2 =
      ((l.tape pf w).spill (io.flush.out s.buf.length)).cut (io.close.out (s.fflush io.flush w).1.buf.length) := by
  obtain ⟨hopen, htape⟩ := fflush_any io.flush h
  have hclose := fclose_tape io.close hopen
  unfold Logger.closeLog
  rw [h.log]
  exact hclose.trans (by rw [htape])

/-- The flush of a closing, or the close, writes out all there is. -/
def FinishIO.Ok (io : FinishIO) : Prop := io.flush.fail = none ∨ io.close.fail = none

/-- Then nothing is lost. -/
theorem closeLog_ok {io : FinishIO} (hio : io.Ok) (h : Sound pf l w) :
    ((l.closeLog io w).1.tape pf (l.closeLog io w).2).live = (l.tape pf w).live ∧
      ((l.closeLog io w).1.tape pf (l.closeLog io w).2).backup = (l.tape pf w).backup := by
  rcases h with hlog | ⟨s, hs⟩
  · unfold Logger.closeLog
    rw [hlog]
    exact ⟨rfl, rfl⟩
  · have hbuf : ((l.tape pf w).spill (io.flush.out s.buf.length)).buf = (s.fflush io.flush w).1.buf := by
      rw [hs.tape]
      rfl
    rw [closeLog_tape io hs]
    refine ⟨?_, rfl⟩
    rw [Tape.live_cut_all, Tape.live_spill]
    rw [hbuf]
    rcases hio with hflush | hclose
    · rw [fflush_buf s io.flush w hflush]
      exact Nat.zero_le _
    · simp [Flush.out, hclose]

/-- An opening of a log that is closed keeps its bytes, or none. -/
theorem fopen_tape {mode : Mode} {fail : Option Nat} {w' : World} (hlog : l.log = none)
    (h : w.fopen (l.name pf) mode fail = (some s, w')) :
    ({ l with log := some s } : Logger).tape pf w' = if mode = .wb then (l.tape pf w).clear else l.tape pf w := by
  obtain ⟨-, -, hbuf, -, -, -, -, hfs⟩ := fopen_some h
  have hcontent := fopen_content h
  have hbackup : w'.content (l.name1 pf) = w.content (l.name1 pf) := by
    rw [World.content, hfs _ name1_ne, World.content]
  have htape : ({ l with log := some s } : Logger).tape pf w' =
    ⟨w'.content (l.name pf), s.buf, w'.content (l.name1 pf)⟩ := rfl
  have hold : l.tape pf w = ⟨w.content (l.name pf), [], w.content (l.name1 pf)⟩ := by
    rw [Logger.tape, hlog]
    rfl
  rw [htape, hold, hcontent, hbuf, hbackup]
  split <;> rfl

/-- Making directories changes no content. -/
theorem mkDirs_tape (path : Str) (io : Nat → DirIO) : l.tape pf (mkDirs pf path io w).2 = l.tape pf w := by
  unfold Logger.tape
  rw [mkDirs_content, mkDirs_content]

section
variable {saved : Str → Str → Prop} {empties : Prop} {R : Tape UInt8 → Tape UInt8 → Prop}
  (hR : Tape.Respects saved empties R)
include hR

theorem closeLog_respects (io : FinishIO) (h : Sound pf l w) :
    R (l.tape pf w) ((l.closeLog io w).1.tape pf (l.closeLog io w).2) := by
  rcases h with hlog | ⟨s, hs⟩
  · unfold Logger.closeLog
    rw [hlog]
    exact hR.refl _
  · rw [closeLog_tape io hs]
    exact hR.trans (hR.spill _ _) (hR.cut _ _)

theorem finish_respects (io : FinishIO) (h : Sound pf l w) :
    R (l.tape pf w) ((l.finish io w).1.tape pf (l.finish io w).2) := by
  unfold Logger.finish
  split
  · exact hR.refl _
  · exact closeLog_respects hR io h

theorem fopen_respects {mode : Mode} {fail : Option Nat} {w' : World} (hlog : l.log = none)
    (hmode : mode = .wb → empties)
    (h : w.fopen (l.name pf) mode fail = (some s, w')) :
    R (l.tape pf w) (({ l with log := some s } : Logger).tape pf w') := by
  rw [fopen_tape hlog h]
  split
  · rename_i hwb
    exact hR.clear _ (hmode hwb)
  · exact hR.refl _

theorem reset_respects (trunc : Bool) (io : ResetIO) (htrunc : trunc = true → empties) (h : Sound pf l w) :
    R (l.tape pf w) ((l.reset pf trunc io w).2.1.tape pf (l.reset pf trunc io w).2.2) := by
  unfold Logger.reset
  split
  · exact hR.refl _
  split
  · exact finish_respects hR io.finish h
  have hclose := closeLog_respects hR io.finish h
  have hlog : (l.closeLog io.finish w).1.log = none := closeLog_log io.finish
  generalize l.closeLog io.finish w = r at *
  obtain ⟨l₁, w₁⟩ := r
  dsimp only at hclose hlog ⊢
  have hdirs : l₁.tape pf (mkDirs pf (dirname l₁.path) io.mkdirs w₁).2 = l₁.tape pf w₁ := mkDirs_tape _ _
  rw [← hdirs] at hclose
  split
  · rename_i s w₂ ho
    refine hR.trans hclose (fopen_respects hR hlog (fun hmode => htrunc ?_) ho)
    cases trunc
    · cases hmode
    · rfl
  · rename_i w₂ ho
    obtain rfl := fopen_none ho
    exact hclose

end

theorem reset_less (trunc : Bool) (io : ResetIO) (h : Sound pf l w) :
    (l.tape pf w).Less ((l.reset pf trunc io w).2.1.tape pf (l.reset pf trunc io w).2.2) :=
  reset_respects Tape.Less.respects trunc io (fun _ => trivial) h

/-- A `reset` whose closing writes out all there is keeps the log, or empties it. -/
theorem reset_ok {trunc : Bool} {io : ResetIO} (hio : io.finish.Ok) (h : Sound pf l w) :
    let t := (l.reset pf trunc io w).2.1.tape pf (l.reset pf trunc io w).2.2
    (t.live = (l.tape pf w).live ∨ t.live = []) ∧ t.backup = (l.tape pf w).backup := by
  dsimp only
  obtain ⟨hlive, hbackup⟩ := closeLog_ok hio h
  unfold Logger.reset
  split
  · exact ⟨.inl rfl, rfl⟩
  split
  · unfold Logger.finish
    split
    · exact ⟨.inl rfl, rfl⟩
    · exact ⟨.inl hlive, hbackup⟩
  have hlog : (l.closeLog io.finish w).1.log = none := closeLog_log io.finish
  generalize l.closeLog io.finish w = r at *
  obtain ⟨l₁, w₁⟩ := r
  dsimp only at hlive hbackup hlog ⊢
  have hdirs : l₁.tape pf (mkDirs pf (dirname l₁.path) io.mkdirs w₁).2 = l₁.tape pf w₁ := mkDirs_tape _ _
  rw [← hdirs] at hlive hbackup
  split
  · rename_i s w₂ ho
    rw [fopen_tape hlog ho]
    split
    · exact ⟨.inr rfl, hbackup⟩
    · exact ⟨.inl hlive, hbackup⟩
  · rename_i w₂ ho
    obtain rfl := fopen_none ho
    exact ⟨.inl hlive, hbackup⟩

/-! ## The backup after a copy -/

variable {io : ShrinkIO} {log tmp : File} {dl dt : Ofd} {max : Nat} {L : Str}

/-- **Step lemma of the copy**: one more chunk, of which a prefix arrives. -/
theorem chunk_sublist (ht : tmp.ofd = some dt) (hb : tmp.ioBusy = false) {k : Nat} {c : Copy}
    (hk : k * kBigPerReadBytes < max) (hL : max ≤ L.length)
    (h : ((c.world.fs dt.name).data dt.gen).Sublist (L.take (k * kBigPerReadBytes))) :
    (((doWrite2Tmp tmp dt.name io.chunk c (chunkOf L max k)).2.world.fs dt.name).data dt.gen).Sublist
      (L.take (k * kBigPerReadBytes + chunkLen max k)) := by
  have hlen := chunkOf_length hk hL
  have hpos := chunkLen_pos hk
  have hbound : (chunkOf L max k).length ≤ kFileIoUpperBound := by
    have := chunkLen_le max k
    have : kBigPerReadBytes ≤ kFileIoUpperBound := by decide
    omega
  obtain ⟨n, cs, -, -, -, -, -, hworld⟩ := doWrite2Tmp_spec ht hb io.chunk c (by omega) hbound
  have hdata : ((doWrite2Tmp tmp dt.name io.chunk c (chunkOf L max k)).2.world.fs dt.name).data dt.gen =
      (c.world.fs dt.name).data dt.gen ++ (chunkOf L max k).take n := by
    rw [hworld]
    simp
  rw [hdata, List.take_add]
  exact h.append (List.take_sublist n _)

/-- Where turn `k` of the copy starts, what every turn keeps holds. -/
theorem copy_pos_inv (P : Nat → Copy → Prop) (hl : log.ofd = some dl) (ht : tmp.ofd = some dt) (hb : tmp.ioBusy = false)
    (hne : dl.name ≠ dt.name) (hL : (w.fs dl.name).data dl.gen = L) (hempty : (w.fs dt.name).data dt.gen = [])
    (hmax : max < 2 ^ 31) (hpos : 0 < max) (hle : max ≤ L.length) (code : Int) (h0 : P 0 ⟨w, code, 0⟩)
    (hstep : ∀ k c, k * kBigPerReadBytes < max → CopyInv io dt max L w k c → io.Reached max k → P k c →
      P (k + 1) (doWrite2Tmp tmp dt.name io.chunk c (chunkOf L max k)).2) : ∀ k,
    Pending (copyTurn pf io log tmp dt max) max ⟨⟨w, code, 0⟩, []⟩ k →
    P k (pos (copyTurn pf io log tmp dt max) ⟨⟨w, code, 0⟩, []⟩ k).2.user := by
  -- the induction is on the turns before `k`; `copy_pos` says where each of them starts
  intro k
  induction k with
  | zero => exact fun _ => h0
  | succ k ih =>
    intro hk
    have hk' : Pending (copyTurn pf io log tmp dt max) max ⟨⟨w, code, 0⟩, []⟩ k := fun j hj => hk j (by omega)
    obtain ⟨hp, hlt, hinv, hreach⟩ := copy_pos hl ht hb hne hL hempty hmax hpos hle code k hk'
    have hprev := ih hk'
    obtain ⟨n, s', hturn, -, -⟩ := hk k (by omega)
    rw [pos_succ]
    generalize pos (copyTurn pf io log tmp dt max) ⟨⟨w, code, 0⟩, []⟩ k = q at *
    obtain ⟨t, s⟩ := q
    dsimp only at *
    subst hp
    obtain ⟨hfail, hmap⟩ := @copyTurn_eq pf io log tmp dt max L k s hlt hmax (hinv.content hl hne hL)
    cases hm : (io.chunk k).mmap with
    | some e =>
      obtain ⟨s'', -, h⟩ := hfail e hm
      rw [hturn] at h
      cases h
    | none =>
      obtain ⟨s'', hu, h⟩ := hmap hm
      rw [hturn] at h
      split at h
      · cases h
      · obtain ⟨rfl, rfl⟩ := Turn.move.inj h
        rw [hturn]
        show P (k + 1) s'.user
        rw [hu]
        exact hstep k s.user hlt hinv hreach hprev

/-- **Invariant rule of the copy**: what one more chunk keeps, the copy keeps. -/
theorem copyFile_inv (P : Nat → Copy → Prop) (hl : log.ofd = some dl) (hlb : log.ioBusy = false)
    (ht : tmp.ofd = some dt)
    (hb : tmp.ioBusy = false) (hne : dl.name ≠ dt.name) (hL : (w.fs dl.name).data dl.gen = L)
    (hempty : (w.fs dt.name).data dt.gen = []) {M : Nat} (hM : M < 2 ^ 31) (hpos : 0 < min M L.length) (code : Int)
    (h0 : P 0 ⟨w, code, 0⟩)
    (hstep : ∀ k c, k * kBigPerReadBytes < min M L.length → CopyInv io dt (min M L.length) L w k c →
      io.Reached (min M L.length) k → P k c →
      P (k + 1) (doWrite2Tmp tmp dt.name io.chunk c (chunkOf L (min M L.length) k)).2) :
    ∃ k, P k (copyFile pf io log tmp dt.name M code w).st ∧
      ((copyFile pf io log tmp dt.name M code w).st.world.fs dt.name).node = (w.fs dt.name).node := by
  cases hfstat : io.fstat with
  | some e =>
    have hfd : ¬ log.fd < 0 := by simp [File.fd, hl]
    have hst : (copyFile pf io log tmp dt.name M code w).st = ⟨w, code, 0⟩ := by
      unfold copyFile traverse
      rw [hlb, if_neg Bool.false_ne_true, if_neg hfd]
      simp only [hfstat, Outcome.early]
    rw [hst]
    exact ⟨0, h0, rfl⟩
  | none =>
    have hmin : min M L.length < 2 ^ 31 := by omega
    have hle : min M L.length ≤ L.length := Nat.min_le_right _ _
    rw [copyFile_loop hl hlb hL hfstat]
    obtain ⟨k, hp, he⟩ :=
      loop_ends (copyTurn pf io log tmp dt (min M L.length)) (min M L.length) (some 0) ⟨⟨w, code, 0⟩, []⟩
    obtain ⟨hpk, hlt, hinv, hreach⟩ := copy_pos hl ht hb hne hL hempty hmin hpos hle code k hp
    have hP := copy_pos_inv P hl ht hb hne hL hempty hmin hpos hle code h0 hstep k hp
    generalize loop (copyTurn pf io log tmp dt (min M L.length)) (min M L.length) (some 0) 0 0 ⟨⟨w, code, 0⟩, []⟩ = r
      at he ⊢
    generalize pos (copyTurn pf io log tmp dt (min M L.length)) ⟨⟨w, code, 0⟩, []⟩ k = q at *
    obtain ⟨t, s⟩ := q
    dsimp only at *
    subst hpk
    -- the turn that ends the loop: nothing was mapped, or the chunk was handed to the callback
    obtain ⟨hfail, hmap⟩ :=
      @copyTurn_eq pf io log tmp dt (min M L.length) L k s hlt hmin (hinv.content hl hne hL)
    have hturn : ∀ s' : St Copy, (copyTurn pf io log tmp dt (min M L.length) k (k * kBigPerReadBytes) s).st = s' →
        ∃ k, P k s'.user ∧ (s'.user.world.fs dt.name).node = (w.fs dt.name).node := by
      rintro s' rfl
      cases hm : (io.chunk k).mmap with
      | some e =>
        obtain ⟨s'', hu, h⟩ := hfail e hm
        rw [h]
        show ∃ k, P k s''.user ∧ (s''.user.world.fs dt.name).node = _
        rw [hu]
        exact ⟨k, hP, hinv.node⟩
      | none =>
        obtain ⟨s'', hu, h⟩ := hmap hm
        have hst : (copyTurn pf io log tmp dt (min M L.length) k (k * kBigPerReadBytes) s).st = s'' := by
          rw [h]
          split <;> rfl
        rw [hst, hu]
        exact ⟨k + 1, hstep k s.user hlt hinv hreach hP, (hinv.step ht hb hlt hle).1.node⟩
    cases he with
    | left h => exact hturn _ (by rw [h]; rfl)
    | dry h => exact hturn _ (by rw [h]; rfl)
    | full h => exact hturn _ (by rw [h]; rfl)

/-- What a copy of `L` to a fresh file leaves in it. -/
def ShrinkIO.Leaves (pf : Platform) (io : ShrinkIO) (saved : Str → Str → Prop) : Prop :=
  ∀ {w : World} {log tmp : File} {dl dt : Ofd} {L : Str} {M : Nat}, log.ofd = some dl → log.ioBusy = false →
    tmp.ofd = some dt → tmp.ioBusy = false → dl.name ≠ dt.name → (w.fs dl.name).data dl.gen = L →
    (w.fs dt.name).data dt.gen = [] → M < 2 ^ 31 → 0 < min M L.length →
    saved (((copyFile pf io log tmp dt.name M 0 w).st.world.fs dt.name).data dt.gen) L ∧
      ((copyFile pf io log tmp dt.name M 0 w).st.world.fs dt.name).node = (w.fs dt.name).node

/-- The file a copy writes holds bytes of the log, in their order. -/
theorem copyFile_sublist : io.Leaves pf List.Sublist := by
  intro w log tmp dl dt L M hl hlb ht hb hne hL hempty hM hpos
  have hstep : ∀ k (c : Copy), k * kBigPerReadBytes < min M L.length → CopyInv io dt (min M L.length) L w k c →
      io.Reached (min M L.length) k → ((c.world.fs dt.name).data dt.gen).Sublist (L.take (copied (min M L.length) k)) →
      (((doWrite2Tmp tmp dt.name io.chunk c (chunkOf L (min M L.length) k)).2.world.fs dt.name).data dt.gen).Sublist
        (L.take (copied (min M L.length) (k + 1))) := by
    intro k c hk _ _ hsub
    rw [copied_succ hk]
    rw [copied, Nat.min_eq_left hk.le] at hsub
    exact chunk_sublist ht hb hk (Nat.min_le_right _ _) hsub
  have h0 : ((w.fs dt.name).data dt.gen).Sublist (L.take (copied (min M L.length) 0)) := by
    rw [hempty]
    exact List.nil_sublist _
  obtain ⟨k, hsub, hnode⟩ := copyFile_inv _ hl hlb ht hb hne hL hempty hM hpos 0 h0 hstep
  exact ⟨hsub.trans (List.take_sublist _ _), hnode⟩

/-- Clearing keeps the old backup or leaves none. -/
theorem cleared_content :
    (io.cleared pf l w).content (l.name1 pf) = w.content (l.name1 pf) ∨
      (io.cleared pf l w).content (l.name1 pf) = [] := by
  unfold ShrinkIO.cleared
  split
  · unfold removeFiles World.remove
    cases io.remove with
    | some e => exact .inl rfl
    | none =>
      cases (w.fs (l.name1 pf)).node with
      | none => exact .inl rfl
      | some nd =>
        right
        simp [World.content]
  · exact .inl rfl

/-- `copyLog` with the log open. -/
theorem copyLog_opened (hpath : l.path ≠ []) (hopen : io.openLog.fail = none) {g : Nat}
    (hg : (w.fs (l.name pf)).node = some (.regular g)) {e : Int} {tmpFile : File} {w' : World}
    (he : (File.new (l.path ++ dot1)).open_ pf (.ofCreate O_RDWR 0o644) io.openTmp (io.cleared pf l w) =
      (e, tmpFile, w')) :
    let r := copyFile pf io ⟨l.path, some ⟨io.openLog.fd, l.name pf, g⟩, false⟩ tmpFile (l.name1 pf) l.maxSize.bytes 0 w'
    l.copyLog pf io w = if e < 0 then (e, w') else (r.ret.getD r.st.code, r.st.world) := by
  intro r
  unfold Logger.copyLog
  rw [open_log hpath hopen hg]
  dsimp only
  rw [if_neg (by decide)]
  simp only [ ShrinkIO.cleared] at he
  rw [he]

/-- **The backup after a copy**, whatever fails: the old one, or what the copy leaves of the log. -/
theorem copyLog_backup {saved : Str → Str → Prop} (hcopy : io.Leaves pf saved) (hnil : ∀ L, saved [] L)
    (hpath : l.path ≠ [])
    {g : Nat} (hg : (w.fs (l.name pf)).node = some (.regular g)) (hpos : 0 < (w.content (l.name pf)).length) :
    (l.copyLog pf io w).2.content (l.name1 pf) = w.content (l.name1 pf) ∨
      saved ((l.copyLog pf io w).2.content (l.name1 pf)) (w.content (l.name pf)) := by
  have hcleared : (io.cleared pf l w).content (l.name1 pf) = w.content (l.name1 pf) ∨
      saved ((io.cleared pf l w).content (l.name1 pf)) (w.content (l.name pf)) := by
    apply cleared_content.imp id
    intro h
    rw [h]
    exact hnil _
  have hframe : (io.cleared pf l w).fs (l.name pf) = w.fs (l.name pf) := cleared_onlyTmp.fs _ name1_ne.symm
  by_cases hopen : io.openLog.fail = none
  swap
  · have hneg : ((File.new l.path).open_ pf (.ofAccess O_RDONLY) io.openLog w).1 < 0 :=
      open_log_fails hpath fun h => hopen h.1
    have hro := file_open_readonly pf (File.new l.path) io.openLog w
    unfold Logger.copyLog
    split
    rename_i code currentLog w₁ he
    rw [he] at hneg hro
    rw [if_pos hneg]
    exact .inl (congrArg (World.content · _) hro)
  by_cases htmp : io.openTmp.fail = none ∧ ((io.cleared pf l w).fs (l.name1 pf)).node ≠ some .directory
  swap
  · obtain ⟨hneg, hsame⟩ := open_tmp_fails (io.cleared pf l w) htmp
    obtain ⟨e, tmpFile, w', he⟩ : ∃ e tmpFile w', (File.new (l.path ++ dot1)).open_ pf (.ofCreate O_RDWR 0o644)
        io.openTmp (io.cleared pf l w) = (e, tmpFile, w') := ⟨_, _, _, rfl⟩
    rw [he] at hneg hsame
    obtain rfl : w' = io.cleared pf l w := hsame
    rw [copyLog_opened hpath hopen hg he, if_pos hneg]
    exact hcleared
  obtain ⟨g', w', he, hnode, hempty, -⟩ := open_tmp (io.cleared pf l w) htmp.1 htmp.2
  have hw' := file_open_onlyTmp pf (File.new (l.path ++ dot1)) (.ofCreate O_RDWR 0o644) io.openTmp (io.cleared pf l w)
  rw [copyLog_opened hpath hopen hg he, if_neg (by decide)]
  rw [he] at hw'
  right
  have hdata : (w'.fs (l.name pf)).data g = w.content (l.name pf) := by
    have hne : l.name pf ≠ resolve pf (l.path ++ dot1) := name1_ne.symm
    rw [hw'.fs _ hne, hframe, World.content, Cell.content_regular hg]
  have hmin : 0 < min l.maxSize.bytes (w.content (l.name pf)).length := by
    have := l.maxSize.min_le
    have : 0 < kMinLogSize := by decide
    omega
  obtain ⟨hsub, hsame⟩ := @hcopy w' ⟨l.path, some ⟨io.openLog.fd, l.name pf, g⟩, false⟩
    ⟨l.path ++ dot1, some ⟨io.openTmp.fd, l.name1 pf, g'⟩, false⟩ ⟨io.openLog.fd, l.name pf, g⟩
    ⟨io.openTmp.fd, l.name1 pf, g'⟩ (w.content (l.name pf)) l.maxSize.bytes rfl rfl rfl rfl name1_ne.symm hdata hempty
    l.maxSize.lt hmin
  rw [World.content, Cell.content_regular (hsame.trans hnode)]
  exact hsub

/-! ## A rotation -/

theorem closed_tape (o : Flush) (h : Open pf l s w) :
    let w' := if o.fail.isSome then (s.fclose o w).call (.fclose s.file) else s.fclose o w
    ({ l with log := none } : Logger).tape pf w' = (l.tape pf w).cut (o.out s.buf.length) := by
  dsimp only
  have hclose := fclose_tape o h
  split
  · exact hclose
  · exact hclose

section
variable {saved : Str → Str → Prop} {empties : Prop} {R : Tape UInt8 → Tape UInt8 → Prop}
  (hR : Tape.Respects saved empties R)
include hR

theorem replaceLog_respects (hempties : ¬ (io.fopen1 ≠ none ∧ io.fopen2 ≠ none) → empties) (h : Open pf l s w) :
    R (l.tape pf w) ((l.replaceLog pf io s w).1.tape pf (l.replaceLog pf io s w).2) := by
  have hclosed := closed_tape io.close h
  have hcut := hR.cut (l.tape pf w) (io.close.out s.buf.length)
  rw [← hclosed] at hcut
  unfold Logger.replaceLog
  dsimp only
  generalize (if io.close.fail.isSome = true then (s.fclose io.close w).call (.fclose s.file) else s.fclose io.close w) =
    w₁ at *
  have hopened : ∀ {fail s₂ w₂}, w₁.fopen (l.name pf) .wb fail = (some s₂, w₂) → ¬ fail ≠ none := by
    intro fail s₂ w₂ ho hfail
    rw [fopen_fail w₁ _ _ hfail] at ho
    cases ho
  split
  · rename_i s₂ w₂ ho
    have hfirst := hopened ho
    exact hR.trans hcut (fopen_respects hR (l := { l with log := none }) rfl (fun _ => hempties fun h => hfirst h.1) ho)
  · rename_i w₂ ho
    obtain rfl := fopen_none ho
    split
    · rename_i s₃ w₃ ho'
      have hsecond := hopened ho'
      exact hR.trans hcut (fopen_respects hR (l := { l with log := none }) rfl (fun _ => hempties fun h => hsecond h.2) ho')
    · rename_i w₃ ho'
      obtain rfl := fopen_none ho'
      exact hcut

/-- **A rotation**, whatever fails: it copies a log that is longer than half of the limit. -/
theorem shrinkToFit_respects {copied : Str → Str → Prop} (hcopy : io.Leaves pf copied) (hnil : ∀ L, copied [] L)
    (hsaved : ∀ b L, copied b L → l.maxSize.bytes / 2 < L.length → saved b L)
    (hempties : ¬ (io.fopen1 ≠ none ∧ io.fopen2 ≠ none) → empties) (h : Sound pf l w) :
    R (l.tape pf w) ((l.shrinkToFit pf io w).1.tape pf (l.shrinkToFit pf io w).2) := by
  rcases h with hlog | ⟨s, hs⟩
  · rw [shrinkToFit_closed io hlog]
    exact hR.refl _
  by_cases hdue : Due pf io l w
  swap
  · rw [shrinkToFit_idle hs.log hdue]
    exact hR.refl _
  rw [shrinkToFit_due hs.log hdue]
  dsimp only
  obtain ⟨hopen, htape⟩ := fflush_any io.flush hs
  have hflush := hR.spill (l.tape pf w) (io.flush.out s.buf.length)
  rw [← htape] at hflush
  have hdisk : w.content (l.name pf) <+: (s.fflush io.flush w).2.content (l.name pf) := fflush_content s io.flush w _
  have hg : ((s.fflush io.flush w).2.fs (l.name pf)).node = some (.regular s.gen) := by
    rw [fflush_node, ← hs.name]
    exact hs.onDisk
  have hlong : l.maxSize.bytes / 2 < ((s.fflush io.flush w).2.content (l.name pf)).length :=
    due_lt hdue ((fflush_node s io.flush w _).symm.trans hg) hdisk
  generalize (s.fflush io.flush w).1 = s₁ at *
  generalize (s.fflush io.flush w).2 = w₁ at *
  have hbackup := copyLog_backup (l := { l with log := some s₁ }) hcopy hnil hdue.1 hg (Nat.zero_lt_of_lt hlong)
  have honly := copyLog_onlyTmp pf io { l with log := some s₁ } w₁
  generalize Logger.copyLog pf io { l with log := some s₁ } w₁ = r at *
  obtain ⟨c, w₂⟩ := r
  dsimp only at hbackup honly ⊢
  have hfs : w₂.fs (l.name pf) = w₁.fs (l.name pf) := honly.fs _ name1_ne.symm
  have hcontent : w₂.content (l.name pf) = w₁.content (l.name pf) := by rw [World.content, hfs, World.content]
  have hcopied : ({ l with log := some s₁ } : Logger).tape pf w₂ =
      { ({ l with log := some s₁ } : Logger).tape pf w₁ with backup := w₂.content (l.name1 pf) } := by
    ext1
    · exact hcontent
    · rfl
    · rfl
  have hcopy' : R (({ l with log := some s₁ } : Logger).tape pf w₁)
      (({ l with log := some s₁ } : Logger).tape pf w₂) := by
    rw [hcopied]
    rcases hbackup with hb | hb
    · have hsame : w₂.content (l.name1 pf) = w₁.content (l.name1 pf) := hb
      rw [hsame]
      exact hR.refl _
    · exact hR.save _ _ (hsaved _ _ hb hlong)
  have hopen₂ : Open pf { l with log := some s₁ } s₁ w₂ := by
    refine ⟨rfl, hopen.name, ?_⟩
    have hname : s₁.name = l.name pf := hopen.name
    unfold Stream.OnDisk
    rw [hname, hfs, ← hname]
    exact hopen.onDisk
  have hboth := hR.trans hflush hcopy'
  split
  · exact hR.trans hboth (replaceLog_respects hR hempties hopen₂)
  · exact hboth

end

theorem shrinkToFit_less (h : Sound pf l w) :
    (l.tape pf w).Less ((l.shrinkToFit pf io w).1.tape pf (l.shrinkToFit pf io w).2) :=
  shrinkToFit_respects Tape.Less.respects copyFile_sublist List.nil_sublist (fun _ _ hb _ => hb) (fun _ => trivial) h

theorem finish_less (io : FinishIO) (h : Sound pf l w) :
    (l.tape pf w).Less ((l.finish io w).1.tape pf (l.finish io w).2) := finish_respects Tape.Less.respects io h

end

end CtiLog
