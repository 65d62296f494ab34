import CtiLog.FileCodes
import CtiLog.Logger
/-
# What the copy to `path + ".1"` can change

Whatever the outcomes, `copyLog` changes one directory entry, that of `path + ".1"`, and makes
no call but `::write`s to it.

* `traverse_inv`, `writeRaw_inv` — the invariant rules of the two operations the copy is made of.
* `OnlyTmp n w w'` — `w'` is `w` but for the entry `n` and the writes to it.
* `copyLog_onlyTmp`.
-/

namespace CtiLog

open Chunks

/-! ## Invariant rules -/

section
variable {σ : Type*}

theorem traverseTurn_inv (P : σ → Prop) {f : File} {pageBits : Nat} {content : σ → Str} {didRead : σ → Str → Bool × σ}
    {io : TraverseIO} {max each : Nat} (hread : ∀ u bs, P u → P (didRead u bs).2) (k t : Nat) (s : St σ)
    (hs : P s.user) : P (traverseTurn f pageBits content didRead io max each k t s).st.user := by
  unfold traverseTurn
  split
  · exact hs
  · dsimp only
    split
    · exact hs
    · split
      · exact hread _ _ hs
      · exact hread _ _ hs

/-- What the callback keeps, `traverse` keeps. -/
theorem traverse_inv (P : σ → Prop) (f : File) (pageBits : Nat) (content : σ → Str) (didRead : σ → Str → Bool × σ)
    (eachRead0 : Nat) (limit : Int) (io : TraverseIO) (st : σ) (hread : ∀ u bs, P u → P (didRead u bs).2) (h0 : P st) :
    P (traverse f pageBits content didRead eachRead0 limit io st).st := by
  unfold traverse
  split
  · exact h0
  · split
    · exact h0
    · split
      · exact h0
      · exact loop_inv (fun s : St σ => P s.user) h0 fun k t s hs => traverseTurn_inv P hread k t s hs

/-- What the descriptor keeps when it accepts bytes, `File::write` keeps. -/
theorem writeRaw_inv (P : σ → Prop) (f : File) (accept : σ → Str → σ) (data : Option Str) (eachWrite0 : Int)
    (io : WriteIO) (st : σ) (hacc : ∀ u bs, P u → P (accept u bs)) (h0 : P st) :
    P (writeRaw f accept data eachWrite0 io st).st := by
  unfold writeRaw writePointer
  split
  · exact h0
  · split
    · exact h0
    · split
      · exact h0
      · refine loop_inv (fun s : St σ => P s.user) h0 fun k t s hs => ?_
        unfold writeTurn
        split
        · exact hs
        · split
          · exact hs
          · exact hacc _ _ hs

end

/-! ## The frame of the copy -/

structure OnlyTmp (n : Name) (w w' : World) : Prop where
  fs : ∀ m, m ≠ n → w'.fs m = w.fs m
  idx : w'.idx = w.idx
  files : w'.files = w.files
  calls : ∃ ws, w'.calls = w.calls ++ ws ∧ ∀ c ∈ ws, ∃ res, c = Call.write n res

namespace OnlyTmp

variable {n : Name} {w w' w'' : World}

theorem refl (n : Name) (w : World) : OnlyTmp n w w := ⟨fun _ _ => rfl, rfl, rfl, [], by simp, by simp⟩

theorem trans (h : OnlyTmp n w w') (h' : OnlyTmp n w' w'') : OnlyTmp n w w'' := by
  obtain ⟨as, ha, has⟩ := h.calls
  obtain ⟨bs, hb, hbs⟩ := h'.calls
  refine ⟨fun m hm => (h'.fs m hm).trans (h.fs m hm), h'.idx.trans h.idx, h'.files.trans h.files, as ++ bs, ?_, ?_⟩
  · rw [hb, ha, List.append_assoc]
  · intro c hc
    exact (List.mem_append.1 hc).elim (has c) (hbs c)

theorem setCell (n : Name) (w : World) (c : Cell) : OnlyTmp n w (w.setCell n c) :=
  ⟨fun _ hm => w.setCell_other c hm, rfl, rfl, [], by simp, by simp⟩

theorem calls_append (n : Name) (w : World) {cs : List Call} (h : ∀ c ∈ cs, ∃ res, c = Call.write n res) :
    OnlyTmp n w { w with calls := w.calls ++ cs } :=
  ⟨fun _ _ => rfl, rfl, rfl, cs, rfl, h⟩

end OnlyTmp

theorem removeFiles_onlyTmp (w : World) (n : Name) (fail : Option Nat) : OnlyTmp n w (removeFiles w n fail).2 := by
  unfold removeFiles World.remove
  cases fail with
  | some e => exact .refl n w
  | none =>
    cases (w.fs n).node with
    | none => exact .refl n w
    | some nd => exact .setCell n w _

theorem world_open_onlyTmp (w : World) (n : Name) (flags : Nat) (o : OpenIO) : OnlyTmp n w (w.open_ n flags o).2 := by
  unfold World.open_
  split
  · exact .refl n w
  · split
    · exact .refl n w
    · split
      · exact .setCell n w _
      · exact .refl n w
    · split
      · exact .setCell n w _
      · exact .refl n w

/-- `::open` hands out the number the kernel chose, for the file of that name. -/
theorem world_open_ok {w w' : World} {n : Name} {flags : Nat} {o : OpenIO} {d : Ofd}
    (h : w.open_ n flags o = (.ok d, w')) : o.fail = none ∧ d.fd = o.fd ∧ d.name = n := by
  unfold World.open_ at h
  cases ho : o.fail with
  | some e => rw [ho] at h; cases h
  | none =>
    rw [ho] at h
    dsimp only at h
    split at h
    · cases h
    · cases h; exact ⟨rfl, rfl, rfl⟩
    · split at h
      · cases h; exact ⟨rfl, rfl, rfl⟩
      · cases h

theorem file_open_onlyTmp (pf : Platform) (f : File) (cfg : FileOpenConfig) (o : OpenIO) (w : World) :
    OnlyTmp (resolve pf f.filename) w (f.open_ pf cfg o w).2.2 := by
  unfold File.open_
  split
  · exact .refl _ w
  · split
    · exact .refl _ w
    · split
      · exact .refl _ w
      · have h := world_open_onlyTmp w (resolve pf f.filename) cfg.flags o
        split <;> (rename_i he; rw [he] at h; exact h)

theorem openError_neg (e : Nat) : sysCode .openError e < 0 := sysCode_neg (by decide) e

/-- `File::open` opens a closed `File`, or leaves it alone. -/
theorem file_open_cases (pf : Platform) (f : File) (cfg : FileOpenConfig) (o : OpenIO) (w : World) :
    ((f.open_ pf cfg o w).1 ≠ Errno.ok.code ∧ (f.open_ pf cfg o w).2.1 = f) ∨
      (f.open_ pf cfg o w).1 = Errno.ok.code ∧ f.fd < 0 ∧ o.fail = none ∧
        ∃ d, (f.open_ pf cfg o w).2.1 = { f with ofd := some d } ∧ d.fd = o.fd ∧ d.name = resolve pf f.filename := by
  have hok : Errno.ok.code = 0 := by decide
  unfold File.open_
  split
  · exact .inl ⟨show -Errno.alreadyOpen.code ≠ Errno.ok.code by decide, rfl⟩
  · rename_i hfd
    split
    · exact .inl ⟨show -Errno.invalidFilename.code ≠ Errno.ok.code by decide, rfl⟩
    · split
      · exact .inl ⟨show -Errno.invalidParam.code ≠ Errno.ok.code by decide, rfl⟩
      · rcases hop : w.open_ (resolve pf f.filename) cfg.flags o with ⟨e | d, w'⟩
        · exact .inl ⟨(hok ▸ openError_neg e).ne, rfl⟩
        · obtain ⟨hfail, hd⟩ := world_open_ok hop
          exact .inr ⟨rfl, by omega, hfail, d, rfl, hd⟩

/-- A file opened by name is that name's, or stays closed. -/
theorem file_open_name (pf : Platform) (path : Str) (cfg : FileOpenConfig) (o : OpenIO) (w : World) :
    ∀ d ∈ ((File.new path).open_ pf cfg o w).2.1.ofd, d.name = resolve pf path := by
  intro d hd
  rcases file_open_cases pf (File.new path) cfg o w with ⟨-, hf⟩ | ⟨-, -, -, d', hf, -, hname⟩
  · rw [hf] at hd
    cases hd
  · rw [hf] at hd
    cases hd
    exact hname

/-- Opening for reading changes nothing. -/
theorem file_open_readonly (pf : Platform) (f : File) (o : OpenIO) (w : World) :
    (f.open_ pf (.ofAccess O_RDONLY) o w).2.2 = w := by
  have htrunc : ¬ O_RDONLY &&& O_TRUNC ≠ 0 := by decide
  have hcreat : ¬ O_RDONLY &&& O_CREAT ≠ 0 := by decide
  have hro : (w.open_ (resolve pf f.filename) O_RDONLY o).2 = w := by
    unfold World.open_
    split
    · rfl
    · split
      · rfl
      · rw [if_neg htrunc]
      · rw [if_neg hcreat]
  unfold File.open_ FileOpenConfig.ofAccess
  split
  · rfl
  · split
    · rfl
    · split
      · rfl
      · dsimp only
        split <;> (rename_i he; rw [he] at hro; exact hro)

/-- The callback of the copy only touches the file it writes to. -/
theorem doWrite2Tmp_onlyTmp {tmpFile : File} {n : Name} (hn : ∀ d ∈ tmpFile.ofd, d.name = n) (io : Nat → ChunkIO)
    (c : Copy) (data : Str) : OnlyTmp n c.world (doWrite2Tmp tmpFile n io c data).2.world := by
  unfold doWrite2Tmp
  refine OnlyTmp.trans ?_ (.calls_append n _ ?_)
  · refine writeRaw_inv (fun w => OnlyTmp n c.world w) tmpFile _ _ _ _ _ ?_ (.refl n _)
    intro w bs hw
    unfold File.accept
    cases hd : tmpFile.ofd with
    | none => exact hw
    | some d =>
      obtain rfl := hn d hd
      exact hw.trans (.setCell _ w _)
  · intro call hc
    obtain ⟨e, -, he⟩ := List.mem_filterMap.1 hc
    cases e with
    | io a b res => cases he; exact ⟨res, rfl⟩
    | _ => cases he

/-- **The copy changes no entry but that of `path + ".1"`.** -/
theorem copyLog_onlyTmp (pf : Platform) (io : ShrinkIO) (l : Logger) (w : World) :
    OnlyTmp (l.name1 pf) w (l.copyLog pf io w).2 := by
  unfold Logger.copyLog
  have hro := file_open_readonly pf (File.new l.path) io.openLog w
  split
  rename_i code currentLog w1 he
  rw [he] at hro
  obtain rfl : w1 = w := hro
  split
  · exact .refl _ _
  · dsimp only
    -- the entry is removed if it seems to exist, and made anew
    have hrm : OnlyTmp (l.name1 pf) w1
        (if isExists w1 (l.name1 pf) io.statTmp ≠ 0 then (removeFiles w1 (l.name1 pf) io.remove).2 else w1) := by
      split
      · exact removeFiles_onlyTmp _ _ _
      · exact .refl _ _
    generalize (if isExists w1 (l.name1 pf) io.statTmp ≠ 0 then (removeFiles w1 (l.name1 pf) io.remove).2 else w1) = w2 at *
    have hop := file_open_onlyTmp pf (File.new (l.path ++ dot1)) (.ofCreate O_RDWR 0o644) io.openTmp w2
    have hnm := file_open_name pf (l.path ++ dot1) (.ofCreate O_RDWR 0o644) io.openTmp w2
    generalize (File.new (l.path ++ dot1)).open_ pf (.ofCreate O_RDWR 0o644) io.openTmp w2 = r at *
    obtain ⟨e, tmpFile, w3⟩ := r
    split
    · exact hrm.trans hop
    · apply (hrm.trans hop).trans
      refine traverse_inv (fun c : Copy => OnlyTmp (l.name1 pf) w3 c.world) _ _ _ _ _ _ _ _ ?_ (.refl _ _)
      intro c bs hc
      exact hc.trans (doWrite2Tmp_onlyTmp hnm io.chunk c bs)

end CtiLog
