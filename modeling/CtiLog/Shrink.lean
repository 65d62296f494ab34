import CtiLog.Acts
import CtiLog.CopySpec
/-
# `shrinkToFit`

| here | there |
| --- | --- |
| `Due`          | the size check (log.cpp:591-600) |
| `Begun`        | both files opened, `fstat` answered (log.cpp:603-621, file.cpp:769) |
| `copyLog_begun`, `copyLog_not_begun` | the copy, from `copy_spec` |
| `replaceLog_spec` | closing the stream and opening the log empty (log.cpp:637-655) |

`Rotated` lists every way a call can end and `shrinkToFit_rotated` proves the list complete;
`shrinkToFit_ok` is the run in which every system call succeeds.
-/

namespace CtiLog

variable {pf : Platform} {io : ShrinkIO} {l : Logger} {s : Stream} {w : World} {L : Str}

/-! ## The copy as a whole -/

/-- The backup's entry cleared for the copy. -/
def ShrinkIO.cleared (pf : Platform) (io : ShrinkIO) (l : Logger) (w : World) : World :=
  if isExists w (l.name1 pf) io.statTmp ≠ 0 then (removeFiles w (l.name1 pf) io.remove).2 else w

/-- The copy gets to its first chunk. -/
structure Begun (pf : Platform) (io : ShrinkIO) (l : Logger) (w : World) : Prop where
  openLog : io.openLog.fail = none
  entry : ∃ g, (w.fs (l.name pf)).node = some (.regular g)
  openTmp : io.openTmp.fail = none
  tmp : ((io.cleared pf l w).fs (l.name1 pf)).node ≠ some .directory
  fstat : io.fstat = none

theorem removeFiles_calls (w : World) (n : Name) (fail : Option Nat) : (removeFiles w n fail).2.calls = w.calls := by
  unfold removeFiles World.remove
  cases fail with
  | some e => rfl
  | none => cases (w.fs n).node <;> rfl

theorem cleared_calls : (io.cleared pf l w).calls = w.calls := by
  unfold ShrinkIO.cleared
  split
  · exact removeFiles_calls _ _ _
  · rfl

theorem cleared_onlyTmp : OnlyTmp (l.name1 pf) w (io.cleared pf l w) := by
  unfold ShrinkIO.cleared
  split
  · exact removeFiles_onlyTmp _ _ _
  · exact .refl _ _

/-- Opening the log for reading. -/
theorem open_log (hpath : l.path ≠ []) {g : Nat} (hok : io.openLog.fail = none)
    (hg : (w.fs (l.name pf)).node = some (.regular g)) :
    (File.new l.path).open_ pf (.ofAccess O_RDONLY) io.openLog w =
      (0, ⟨l.path, some ⟨io.openLog.fd, l.name pf, g⟩, false⟩, w) := by
  have htrunc : ¬ O_RDONLY &&& O_TRUNC ≠ 0 := by decide
  have hopen : w.open_ (l.name pf) O_RDONLY io.openLog = (.ok ⟨io.openLog.fd, l.name pf, g⟩, w) := by
    unfold World.open_
    simp only [hok, hg]
    rw [if_neg htrunc]
  unfold File.open_
  rw [if_neg (by simp [File.new, File.fd]), if_neg (by simpa [File.new] using hpath), if_neg (by decide)]
  unfold Logger.name at hopen
  simp only [File.new, FileOpenConfig.ofAccess, hopen]
  rfl

theorem open_log_fails (hpath : l.path ≠ [])
    (h : ¬ (io.openLog.fail = none ∧ ∃ g, (w.fs (l.name pf)).node = some (.regular g))) :
    ((File.new l.path).open_ pf (.ofAccess O_RDONLY) io.openLog w).1 < 0 := by
  have hcreat : ¬ O_RDONLY &&& O_CREAT ≠ 0 := by decide
  have hopen : ∃ e, w.open_ (l.name pf) O_RDONLY io.openLog = (.error e, w) := by
    unfold World.open_
    split
    · exact ⟨_, rfl⟩
    · rename_i hok
      split
      · exact ⟨_, rfl⟩
      · rename_i g hg
        exact absurd ⟨hok, g, hg⟩ h
      · rw [if_neg hcreat]
        exact ⟨_, rfl⟩
  obtain ⟨e, he⟩ := hopen
  unfold File.open_
  rw [if_neg (by simp [File.new, File.fd]), if_neg (by simpa [File.new] using hpath), if_neg (by decide)]
  unfold Logger.name at he
  simp only [File.new, FileOpenConfig.ofAccess, he]
  exact openError_neg e

/-- Opening the backup: a file of its own, empty. -/
theorem open_tmp (w : World) (hok : io.openTmp.fail = none) (hdir : (w.fs (l.name1 pf)).node ≠ some .directory) :
    ∃ g w', (File.new (l.path ++ dot1)).open_ pf (.ofCreate O_RDWR 0o644) io.openTmp w =
        (0, ⟨l.path ++ dot1, some ⟨io.openTmp.fd, l.name1 pf, g⟩, false⟩, w') ∧
      (w'.fs (l.name1 pf)).node = some (.regular g) ∧ (w'.fs (l.name1 pf)).data g = [] ∧ w'.calls = w.calls := by
  have hcreat : O_CREAT ||| O_WRONLY ||| O_TRUNC &&& O_CREAT ≠ 0 := by decide
  have htrunc : O_CREAT ||| O_WRONLY ||| O_TRUNC &&& O_TRUNC ≠ 0 := by decide
  have hopen : ∃ g w', w.open_ (l.name1 pf) (O_CREAT ||| O_WRONLY ||| O_TRUNC) io.openTmp =
      (.ok ⟨io.openTmp.fd, l.name1 pf, g⟩, w') ∧
      (w'.fs (l.name1 pf)).node = some (.regular g) ∧ (w'.fs (l.name1 pf)).data g = [] ∧ w'.calls = w.calls := by
    unfold World.open_
    simp only [hok]
    split
    · rename_i hd
      exact absurd hd hdir
    · rename_i g hg
      refine ⟨g, _, rfl, ?_⟩
      rw [if_pos (by decide)]
      simp [hg]
    · rw [if_pos (by decide)]
      exact ⟨_, _, rfl, by simp, by simp, rfl⟩
  obtain ⟨g, w', he, h⟩ := hopen
  refine ⟨g, w', ?_, h⟩
  unfold File.open_
  rw [if_neg (by simp [File.new, File.fd]), if_neg (by simp [File.new, dot1]), if_neg (by decide)]
  unfold Logger.name1 at he
  simp only [File.new, FileOpenConfig.ofCreate, he]
  rfl

theorem open_tmp_fails (w : World) (h : ¬ (io.openTmp.fail = none ∧ (w.fs (l.name1 pf)).node ≠ some .directory)) :
    ((File.new (l.path ++ dot1)).open_ pf (.ofCreate O_RDWR 0o644) io.openTmp w).1 < 0 ∧
      ((File.new (l.path ++ dot1)).open_ pf (.ofCreate O_RDWR 0o644) io.openTmp w).2.2 = w := by
  have hopen : ∃ e, w.open_ (l.name1 pf) (O_CREAT ||| O_WRONLY ||| O_TRUNC) io.openTmp = (.error e, w) := by
    unfold World.open_
    split
    · exact ⟨_, rfl⟩
    · rename_i hok
      split
      · exact ⟨_, rfl⟩
      · rename_i hg
        exact absurd ⟨hok, by simp [hg]⟩ h
      · rename_i hg
        exact absurd ⟨hok, by simp [hg]⟩ h
  obtain ⟨e, he⟩ := hopen
  unfold File.open_
  rw [if_neg (by simp [File.new, File.fd]), if_neg (by simp [File.new, dot1]), if_neg (by decide)]
  unfold Logger.name1 at he
  simp only [File.new, FileOpenConfig.ofCreate, he]
  exact ⟨openError_neg e, trivial⟩

/-- A `traverse` whose `fstat` fails calls nobody. -/
theorem traverse_fstat {σ : Type*} {f : File} (hb : f.ioBusy = false) (hfd : ¬ f.fd < 0) {tio : TraverseIO} {e : Nat}
    (he : tio.fstat = some e) (pageBits : Nat) (content : σ → Str) (didRead : σ → Str → Bool × σ) (eachRead0 : Nat)
    (limit : Int) (st : σ) : traverse f pageBits content didRead eachRead0 limit tio st =
      .early (sysCode .statError e) st .setupFailed := by
  unfold traverse
  rw [hb, if_neg Bool.false_ne_true, if_neg hfd, he]

theorem name1_ne : l.name1 pf ≠ l.name pf := resolve_dot1_ne pf l.path

/-- A copy that does not begin fails, and writes nothing. -/
theorem copyLog_not_begun (hpath : l.path ≠ []) (h : ¬ Begun pf io l w) :
    (l.copyLog pf io w).1 < 0 ∧ (l.copyLog pf io w).2.calls = w.calls := by
  unfold Logger.copyLog
  by_cases hlog : io.openLog.fail = none ∧ ∃ g, (w.fs (l.name pf)).node = some (.regular g)
  · obtain ⟨hok, g, hg⟩ := hlog
    rw [open_log hpath hok hg]
    dsimp only
    rw [if_neg (lt_irrefl 0)]
    by_cases htmp : io.openTmp.fail = none ∧ ((io.cleared pf l w).fs (l.name1 pf)).node ≠ some .directory
    · obtain ⟨g', w', ho, -, -, hcalls⟩ := open_tmp (io.cleared pf l w) htmp.1 htmp.2
      have hfstat : io.fstat ≠ none := fun hf => h ⟨hok, ⟨g, hg⟩, htmp.1, htmp.2, hf⟩
      obtain ⟨e, he⟩ := Option.ne_none_iff_exists'.1 hfstat
      unfold ShrinkIO.cleared at ho hcalls
      rw [ho]
      dsimp only
      rw [if_neg (lt_irrefl 0), copyFile, traverse_fstat rfl (by simp [File.fd]) he]
      exact ⟨sysCode_neg (by decide) e, hcalls.trans cleared_calls⟩
    · have hf := open_tmp_fails (io.cleared pf l w) htmp
      have hcalls : (io.cleared pf l w).calls = w.calls := cleared_calls
      unfold ShrinkIO.cleared at hf hcalls
      rw [if_pos hf.1]
      exact ⟨hf.1, by rw [hf.2, hcalls]⟩
  · have hf := open_log_fails hpath hlog
    have hro := file_open_readonly pf (File.new l.path) io.openLog w
    split
    rename_i code currentLog w1 he
    rw [he] at hf hro
    rw [if_pos hf]
    exact ⟨hf, by rw [← hro]⟩

/-- **A copy that begins** ends as `copy_spec` says. -/
theorem copyLog_begun (hpath : l.path ≠ []) (hb : Begun pf io l w) (hpos : 0 < (w.content (l.name pf)).length) :
    ∃ d : Ofd, d.name = l.name1 pf ∧ ((l.copyLog pf io w).2.fs (l.name1 pf)).node = some (.regular d.gen) ∧
      Copied io d (min l.maxSize.bytes (w.content (l.name pf)).length) (w.content (l.name pf)) w (l.copyLog pf io w).2
        (l.copyLog pf io w).1 := by
  obtain ⟨g, hg⟩ := hb.entry
  obtain ⟨g', w', ho, hnode, hempty, hcalls⟩ := open_tmp (io.cleared pf l w) hb.openTmp hb.tmp
  have honly := file_open_onlyTmp pf (File.new (l.path ++ dot1)) (.ofCreate O_RDWR 0o644) io.openTmp (io.cleared pf l w)
  rw [ho] at honly
  have hfs : w'.fs (l.name pf) = w.fs (l.name pf) :=
    (honly.fs _ name1_ne.symm).trans (cleared_onlyTmp.fs _ name1_ne.symm)
  have hcont : w.content (l.name pf) = (w.fs (l.name pf)).data g := Cell.content_regular hg
  have hM : l.maxSize.bytes < 2 ^ 31 := l.maxSize.lt
  have hmin : kMinLogSize ≤ l.maxSize.bytes := l.maxSize.min_le
  unfold kMinLogSize at hmin
  let d : Ofd := ⟨io.openTmp.fd, l.name1 pf, g'⟩
  let log : File := ⟨l.path, some ⟨io.openLog.fd, l.name pf, g⟩, false⟩
  let tmp : File := ⟨l.path ++ dot1, some d, false⟩
  obtain ⟨c, hret, hn, hc⟩ := @copy_spec pf io log tmp _ d w' (w.content (l.name pf)) rfl rfl rfl rfl name1_ne.symm
    (by rw [hcont, hfs]) hempty hb.fstat l.maxSize.bytes hM (by omega) 0
  refine ⟨d, rfl, ?_⟩
  have hcopy : l.copyLog pf io w = (c, (copyFile pf io log tmp (l.name1 pf) l.maxSize.bytes 0 w').st.world) := by
    unfold Logger.copyLog
    rw [open_log hpath hb.openLog hg]
    dsimp only
    rw [if_neg (lt_irrefl 0)]
    unfold ShrinkIO.cleared at ho
    rw [ho]
    dsimp only
    rw [if_neg (lt_irrefl 0)]
    show (Option.getD (copyFile pf io log tmp d.name l.maxSize.bytes 0 w').ret _, _) = _
    rw [hret]
    rfl
  rw [hcopy]
  refine ⟨hn.trans hnode, ?_⟩
  cases hc with
  | unmapped hu h => exact .unmapped hu h
  | saved hu hs h hd hws =>
    refine .saved hu hs h hd ?_
    rwa [hcalls, cleared_calls] at hws
  | short hu hs h hlt => exact .short hu hs h hlt

/-! ## The replacement -/

theorem fopen_fail (w : World) (n : Name) (mode : Mode) {fail : Option Nat} (h : fail ≠ none) :
    w.fopen n mode fail = (none, w) := by
  unfold World.fopen
  rw [if_pos (Option.isSome_iff_ne_none.2 h)]

/-- `fopen(…, "wb")` of a regular file empties it. -/
theorem fopen_wb {n : Name} {g : Nat} (hg : (w.fs n).node = some (.regular g)) :
    w.fopen n .wb none = (some ⟨w.files, n, g, []⟩,
      { (w.setCell n ((w.fs n).setData g [])).call (.fopen w.files n .wb) with files := w.files + 1 }) := by
  simp only [World.fopen, hg, Option.isSome_none, Bool.false_eq_true, if_false]

/-- The world after the old stream was closed, once or twice. -/
theorem closed_spec (o : Flush) (hname : s.name = l.name pf) :
    let w' := if o.fail.isSome then (s.fclose o w).call (.fclose s.file) else s.fclose o w
    (∃ cs, (∀ c ∈ cs, c = Call.fclose s.file) ∧ w'.calls = w.calls ++ cs) ∧ (∀ m, m ≠ l.name pf → w'.fs m = w.fs m) ∧
      w'.idx = w.idx ∧ w'.files = w.files ∧ (w'.fs (l.name pf)).node = (w.fs (l.name pf)).node ∧
      w.content (l.name pf) <+: w'.content (l.name pf) := by
  dsimp only
  have hfs : ∀ m, m ≠ l.name pf → (s.fclose o w).fs m = w.fs m := fun m hm => fclose_other s o w (hname ▸ hm)
  have hnode : ((s.fclose o w).fs (l.name pf)).node = (w.fs (l.name pf)).node := World.put_node _ _ _ _ _
  have hcont : w.content (l.name pf) <+: (s.fclose o w).content (l.name pf) := World.content_prefix_put _ _ _ _ _
  split
  · exact ⟨⟨[.fclose s.file, .fclose s.file], by simp, by simp⟩, hfs, rfl, rfl, hnode, hcont⟩
  · exact ⟨⟨[.fclose s.file], by simp, by simp⟩, hfs, rfl, rfl, hnode, hcont⟩

/-- **Closing the stream and opening the log empty.** -/
theorem replaceLog_spec {g : Nat} (hname : s.name = l.name pf) (hg : (w.fs (l.name pf)).node = some (.regular g)) :
    let r := l.replaceLog pf io s w
    ∃ cs, (∀ c ∈ cs, c = Call.fclose s.file) ∧ (∀ m, m ≠ l.name pf → r.2.fs m = w.fs m) ∧ r.2.idx = w.idx ∧
      ((io.fopen1 ≠ none ∧ io.fopen2 ≠ none ∧ r.1 = { l with log := none } ∧ r.2.calls = w.calls ++ cs ∧
          w.content (l.name pf) <+: r.2.content (l.name pf)) ∨
        (¬ (io.fopen1 ≠ none ∧ io.fopen2 ≠ none) ∧ r.1 = { l with log := some ⟨w.files, l.name pf, g, []⟩ } ∧
          r.2.calls = w.calls ++ (cs ++ [.fopen w.files (l.name pf) .wb]) ∧ r.2.files = w.files + 1 ∧
          (r.2.fs (l.name pf)).node = some (.regular g) ∧ r.2.content (l.name pf) = [])) := by
  obtain ⟨⟨cs, hcs, hcalls⟩, hfs, hidx, hfiles, hnode, hcont⟩ := closed_spec (w := w) io.close hname
  rw [hg] at hnode
  unfold Logger.replaceLog
  dsimp only
  generalize (if io.close.fail.isSome = true then (s.fclose io.close w).call (.fclose s.file) else s.fclose io.close w) =
    w' at *
  refine ⟨cs, hcs, ?_⟩
  have hopened : let r : World := { (w'.setCell (l.name pf) ((w'.fs (l.name pf)).setData g [])).call
        (.fopen w'.files (l.name pf) .wb) with files := w'.files + 1 }
      (∀ m, m ≠ l.name pf → r.fs m = w.fs m) ∧ r.idx = w.idx ∧
        r.calls = w.calls ++ (cs ++ [.fopen w.files (l.name pf) .wb]) ∧ r.files = w.files + 1 ∧
        (r.fs (l.name pf)).node = some (.regular g) ∧ r.content (l.name pf) = [] := by
    refine ⟨fun m hm => ?_, hidx, ?_, by rw [hfiles], by simpa using hnode, ?_⟩
    · exact (w'.setCell_other _ hm).trans (hfs m hm)
    · simp [hcalls, hfiles]
    · have hn : ((w'.fs (l.name pf)).setData g []).node = some (.regular g) := by simpa using hnode
      simp [World.content, Cell.content_regular hn]
  by_cases h1 : io.fopen1 = none
  · rw [h1, fopen_wb hnode]
    obtain ⟨h, h', hrest⟩ := hopened
    exact ⟨h, h', .inr ⟨by simp, by rw [hfiles], hrest⟩⟩
  · rw [fopen_fail w' _ _ h1]
    dsimp only
    by_cases h2 : io.fopen2 = none
    · rw [h2, fopen_wb hnode]
      obtain ⟨h, h', hrest⟩ := hopened
      exact ⟨h, h', .inr ⟨by simp, by rw [hfiles], hrest⟩⟩
    · rw [fopen_fail w' _ _ h2]
      exact ⟨hfs, hidx, .inl ⟨h1, h2, rfl, hcalls, hcont⟩⟩

/-! ## A whole rotation -/

/-- The log is larger than half of `maxSize` on disk. -/
def Due (pf : Platform) (io : ShrinkIO) (l : Logger) (w : World) : Prop :=
  l.path ≠ [] ∧ ((l.maxSize.bytes / 2 : Nat) : Int) < getFileSize w (l.name pf) io.stat

theorem shrinkToFit_idle (hs : l.log = some s) (h : ¬ Due pf io l w) : l.shrinkToFit pf io w = (l, w) := by
  unfold Logger.shrinkToFit
  split
  · rfl
  · rename_i hpath
    have hsize : ¬ ((l.maxSize.bytes / 2 : Nat) : Int) < getFileSize w (l.name pf) io.stat := fun hlt => h ⟨hpath, hlt⟩
    rw [hs]
    dsimp only
    split
    · rfl
    · rw [if_pos (not_lt.1 hsize)]

theorem shrinkToFit_due (hs : l.log = some s) (h : Due pf io l w) :
    l.shrinkToFit pf io w =
      let l' := { l with log := some (s.fflush io.flush w).1 }
      let c := l'.copyLog pf io (s.fflush io.flush w).2
      if 0 ≤ c.1 then l'.replaceLog pf io (s.fflush io.flush w).1 c.2 else (l', c.2) := by
  unfold Logger.shrinkToFit
  obtain ⟨hpath, hsize⟩ := h
  rw [if_neg hpath, hs]
  dsimp only
  rw [if_neg (by omega), if_neg (not_le.2 hsize)]

/-- Every way a rotation ends: `w'` is the world after its flush, `w₁` after the copy. -/
inductive Rotated (pf : Platform) (io : ShrinkIO) (l : Logger) (s : Stream) (w w' : World) : Logger × World → Prop
  | idle : ¬ Due pf io l w → Rotated pf io l s w w' (l, w)
  | refused {s' : Stream} {w₁ : World} : Due pf io l w → ¬ Begun pf io l w' → OnlyTmp (l.name1 pf) w' w₁ →
      w₁.calls = w'.calls → Rotated pf io l s w w' ({ l with log := some s' }, w₁)
  | unmapped {s' : Stream} {w₁ : World} : Due pf io l w → Begun pf io l w' →
      io.Unmapped (min l.maxSize.bytes (w'.content (l.name pf)).length) → OnlyTmp (l.name1 pf) w' w₁ →
      Rotated pf io l s w w' ({ l with log := some s' }, w₁)
  | closed {w₁ w₂ : World} {cs : List Call} : Due pf io l w → Begun pf io l w' →
      io.fopen1 ≠ none ∧ io.fopen2 ≠ none → OnlyTmp (l.name1 pf) w' w₁ → (∀ c ∈ cs, c = .fclose s.file) →
      w₂.calls = w₁.calls ++ cs → w'.content (l.name pf) <+: w₂.content (l.name pf) →
      Rotated pf io l s w w' ({ l with log := none }, w₂)
  | emptied {w₁ w₂ : World} {cs : List Call} {g : Nat} : Due pf io l w → Begun pf io l w' →
      ¬ (io.fopen1 ≠ none ∧ io.fopen2 ≠ none) → OnlyTmp (l.name1 pf) w' w₁ → (∀ c ∈ cs, c = .fclose s.file) →
      ¬ io.Unmapped (min l.maxSize.bytes (w'.content (l.name pf)).length) →
      (io.Saves (min l.maxSize.bytes (w'.content (l.name pf)).length) →
        w₂.content (l.name1 pf) = (w'.content (l.name pf)).take l.maxSize.bytes ∧
        ∃ ws, w₁.calls = w'.calls ++ ws ∧ ∀ call ∈ ws, ¬ call.failedWrite (l.name1 pf)) →
      (¬ io.Saves (min l.maxSize.bytes (w'.content (l.name pf)).length) →
        (w₂.content (l.name1 pf)).length < min l.maxSize.bytes (w'.content (l.name pf)).length) →
      w₂.calls = w₁.calls ++ (cs ++ [.fopen w₁.files (l.name pf) .wb]) → w₂.idx = w₁.idx → w₂.files = w₁.files + 1 →
      (w₂.fs (l.name pf)).node = some (.regular g) → w₂.content (l.name pf) = [] →
      (∀ m, m ≠ l.name pf → w₂.fs m = w₁.fs m) →
      Rotated pf io l s w w' ({ l with log := some ⟨w₁.files, l.name pf, g, []⟩ }, w₂)

theorem getFileSize_le {n : Name} {g : Nat} {fail : Option Nat} (hg : (w.fs n).node = some (.regular g)) :
    getFileSize w n fail ≤ (w.content n).length := by
  unfold getFileSize World.stat
  cases fail with
  | some e => dsimp only; split <;> omega
  | none => simp [hg, World.content, Cell.content_regular hg]

/-- What the copy finds is longer than half of the limit. -/
theorem due_lt {w' : World} (h : Due pf io l w) {g : Nat} (hg : (w.fs (l.name pf)).node = some (.regular g))
    (hpre : w.content (l.name pf) <+: w'.content (l.name pf)) :
    l.maxSize.bytes / 2 < (w'.content (l.name pf)).length := by
  have h1 := h.2
  have h2 : getFileSize w (l.name pf) io.stat ≤ _ := getFileSize_le hg
  have h3 := hpre.length_le
  omega

theorem due_pos {w' : World} (h : Due pf io l w) {g : Nat} (hg : (w.fs (l.name pf)).node = some (.regular g))
    (hpre : w.content (l.name pf) <+: w'.content (l.name pf)) : 0 < (w'.content (l.name pf)).length :=
  Nat.zero_lt_of_lt (due_lt h hg hpre)

theorem fflush_content (s : Stream) (o : Flush) (w : World) (n : Name) : w.content n <+: (s.fflush o w).2.content n :=
  World.content_prefix_put _ _ _ _ _

theorem fflush_node (s : Stream) (o : Flush) (w : World) (n : Name) :
    ((s.fflush o w).2.fs n).node = (w.fs n).node := World.put_node _ _ _ _ _

/-- **Case analysis of a rotation.** -/
theorem shrinkToFit_rotated (hs : l.log = some s) (hname : s.name = l.name pf) :
    Rotated pf io l s w (s.fflush io.flush w).2 (l.shrinkToFit pf io w) := by
  by_cases hdue : Due pf io l w
  swap
  · rw [shrinkToFit_idle hs hdue]
    exact .idle hdue
  rw [shrinkToFit_due hs hdue]
  dsimp only
  have hpre := fflush_content s io.flush w (l.name pf)
  have hnode := fflush_node s io.flush w (l.name pf)
  have hsname : (s.fflush io.flush w).1.name = l.name pf := hname
  have hsfile : (s.fflush io.flush w).1.file = s.file := rfl
  generalize (s.fflush io.flush w).1 = s' at *
  generalize (s.fflush io.flush w).2 = w' at *
  have honly := copyLog_onlyTmp pf io { l with log := some s' } w'
  by_cases hbegun : Begun pf io l w'
  swap
  · have hneg := @copyLog_not_begun pf io { l with log := some s' } w' hdue.1 fun h => hbegun ⟨h.1, h.2, h.3, h.4, h.5⟩
    rw [if_neg (not_le.2 hneg.1)]
    exact .refused hdue hbegun honly hneg.2
  obtain ⟨g, hg⟩ := hbegun.entry
  have hpos := due_pos hdue (hnode.symm.trans hg) hpre
  obtain ⟨d, hd, hdn, hcop⟩ := @copyLog_begun pf io { l with log := some s' } w' hdue.1
    ⟨hbegun.1, hbegun.2, hbegun.3, hbegun.4, hbegun.5⟩ hpos
  generalize Logger.copyLog pf io { l with log := some s' } w' = r at *
  obtain ⟨c, w₁⟩ := r
  dsimp only at hcop honly hdn ⊢
  have hne : l.name pf ≠ l.name1 pf := name1_ne.symm
  have hg₁ : (w₁.fs (l.name pf)).node = some (.regular g) := by
    rw [honly.fs _ hne]
    exact hg
  by_cases hc : 0 ≤ c
  swap
  · rw [if_neg hc]
    exact .unmapped hdue hbegun (hcop.unmapped_of_neg hc) honly
  rw [if_pos hc]
  obtain ⟨cs, hcs, hfs, hidx, hcase⟩ := @replaceLog_spec pf io { l with log := some s' } s' w₁ g hsname hg₁
  rw [hsfile] at hcs
  generalize Logger.replaceLog pf io s' { l with log := some s' } w₁ = r at *
  obtain ⟨l₂, w₂⟩ := r
  rcases hcase with ⟨h1, h2, rfl, hcalls, hcont⟩ | ⟨hopen, rfl, hcalls, hfiles, hnode₂, hempty⟩
  · refine .closed hdue hbegun ⟨h1, h2⟩ honly hcs hcalls (List.IsPrefix.trans ?_ hcont)
    rw [World.content, ← honly.fs _ hne]
    exact List.prefix_rfl
  · have hcont : w₂.content (l.name1 pf) = (w₁.fs d.name).data d.gen := by
      rw [hd]
      have hfs1 : w₂.fs (l.name1 pf) = w₁.fs (l.name1 pf) := hfs _ name1_ne
      rw [World.content, hfs1]
      exact Cell.content_regular hdn
    refine .emptied hdue hbegun hopen honly hcs (hcop.mapped hc) ?_ ?_ hcalls hidx hfiles hnode₂ hempty hfs
    · intro hsaves
      obtain ⟨hdata, hwrites⟩ := hcop.whole hc hsaves
      rw [hd] at hwrites
      refine ⟨?_, hwrites⟩
      rw [hcont, hdata]
      exact List.take_eq_take_iff.2 (by omega)
    · intro hsaves
      rw [hcont]
      exact hcop.cut hc hsaves

/-! ## A rotation in which every call succeeds -/

/-- Every call succeeds; a `::write` may be short, and `File::write` reports 0 after a full write. -/
structure ShrinkIO.Ok (io : ShrinkIO) : Prop where
  stat : io.stat = none
  flush : io.flush.fail = none
  openLog : io.openLog.fail = none
  statTmp : io.statTmp = none
  remove : io.remove = none
  openTmp : io.openTmp.fail = none
  fstat : io.fstat = none
  mmap : ∀ i, (io.chunk i).mmap = none
  write : ∀ i k, 0 < ((io.chunk i).write k).amount
  stale : ∀ i, (io.chunk i).stale = 0
  close : io.close.fail = none
  fopen1 : io.fopen1 = none

theorem drains_of_pos {write : Nat → Sys} (h : ∀ k, 0 < (write k).amount) (len : Nat) : Drains write len := by
  refine ⟨len, fun i _ => h i, ?_⟩
  calc len = ∑ _i ∈ Finset.range len, 1 := by simp
    _ ≤ ∑ i ∈ Finset.range len, (write i).amount := Finset.sum_le_sum fun i _ => h i

theorem ShrinkIO.Ok.saves (h : io.Ok) (max : Nat) : io.Saves max :=
  fun i _ => ⟨h.mmap i, drains_of_pos (h.write i) _, .inl (h.stale i).ge⟩

theorem begun_of_opened {g : Nat} (hg : (w.fs (l.name pf)).node = some (.regular g)) (hopen : io.openLog.fail = none)
    (hstat : io.statTmp = none) (hrm : io.remove = none) (htmp : io.openTmp.fail = none) (hfstat : io.fstat = none) :
    Begun pf io l w := by
  refine ⟨hopen, ⟨g, hg⟩, htmp, ?_, hfstat⟩
  unfold ShrinkIO.cleared removeFiles World.remove
  rw [hstat, hrm]
  cases hn : (w.fs (l.name1 pf)).node with
  | none =>
    dsimp only
    split <;> simp [hn]
  | some nd =>
    have hex : isExists w (l.name1 pf) none ≠ 0 := by
      unfold isExists getFileSize World.stat
      cases nd <;> simp [hn]
    rw [if_pos hex]
    simp

/-- What is on disk once a flush that succeeds is through. -/
theorem fflush_flushed_content {o : Flush} (ho : o.fail = none) (hg : (w.fs s.name).node = some (.regular s.gen)) :
    (s.fflush o w).2.content s.name = s.flushed w := by
  have hn : ((s.fflush o w).2.fs s.name).node = some (.regular s.gen) := (fflush_node s o w s.name).trans hg
  have hf := fflush_flushed s o w
  unfold Stream.flushed at hf
  rw [fflush_buf s o w ho, List.append_nil] at hf
  rw [World.content, Cell.content_regular hn]
  exact hf

theorem getFileSize_ok {n : Name} {g : Nat} (hg : (w.fs n).node = some (.regular g)) :
    getFileSize w n none = (w.content n).length := by
  simp [getFileSize, World.stat, hg, World.content, Cell.content_regular hg]

/-- The size check when its `stat` succeeds. -/
theorem due_iff {g : Nat} (hpath : l.path ≠ []) (hstat : io.stat = none)
    (hg : (w.fs (l.name pf)).node = some (.regular g)) :
    Due pf io l w ↔ l.maxSize.bytes / 2 < (w.content (l.name pf)).length := by
  unfold Due
  rw [hstat, getFileSize_ok hg]
  simp only [ne_eq, hpath, not_false_eq_true, true_and, Nat.cast_lt]

/-- **A rotation in which every call succeeds** leaves the log empty and open, and the first
`maxSize` bytes of the flushed log in the backup. -/
theorem shrinkToFit_ok (hio : io.Ok) (hs : l.log = some s) (hname : s.name = l.name pf)
    (hg : (w.fs s.name).node = some (.regular s.gen)) (hdue : Due pf io l w) :
    ∃ g w₂, l.shrinkToFit pf io w = ({ l with log := some ⟨w.files, l.name pf, g, []⟩ }, w₂) ∧
      (w₂.fs (l.name pf)).node = some (.regular g) ∧ w₂.content (l.name pf) = [] ∧
      w₂.content (l.name1 pf) = (s.flushed w).take l.maxSize.bytes ∧ w₂.idx = w.idx ∧ w₂.files = w.files + 1 ∧
      ∀ m, m ≠ l.name pf → m ≠ l.name1 pf → w₂.fs m = w.fs m := by
  have hcont := fflush_flushed_content hio.flush hg
  have hnode : ((s.fflush io.flush w).2.fs s.name).node = some (.regular s.gen) :=
    (fflush_node s io.flush w s.name).trans hg
  have hfs : ∀ m, m ≠ l.name pf → (s.fflush io.flush w).2.fs m = w.fs m := fun m hm => fflush_other s _ w (hname ▸ hm)
  have hidx : (s.fflush io.flush w).2.idx = w.idx := rfl
  have hfiles : (s.fflush io.flush w).2.files = w.files := rfl
  have hrot : Rotated pf io l s w _ _ := shrinkToFit_rotated hs hname
  rw [hname] at hcont hnode
  generalize (s.fflush io.flush w).2 = w' at *
  generalize l.shrinkToFit pf io w = r at hrot
  cases hrot with
  | idle h => exact absurd hdue h
  | refused _ h =>
    exact absurd (begun_of_opened hnode hio.openLog hio.statTmp hio.remove hio.openTmp hio.fstat) h
  | unmapped _ _ hun =>
    obtain ⟨i, _, _, hm⟩ := hun
    exact absurd (hio.mmap i) hm
  | closed _ _ h => exact absurd hio.fopen1 h.1
  | @emptied w₁ w₂ cs g _ _ _ honly _ _ hsaved _ _ hidx₂ hfiles₂ hg₂ hempty hfs₂ =>
    refine ⟨g, w₂, ?_, hg₂, hempty, ?_, ?_, ?_, ?_⟩
    · rw [honly.files, hfiles]
    · rw [(hsaved (hio.saves _)).1, hcont]
    · rw [hidx₂, honly.idx, hidx]
    · rw [hfiles₂, honly.files, hfiles]
    · intro m hm hm1
      rw [hfs₂ m hm, honly.fs m hm1, hfs m hm]

end CtiLog
