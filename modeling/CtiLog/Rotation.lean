import CtiLog.Shrink
/-
# What a rotation keeps

**Rotation is not safe**: a failed `::write` makes the callback stop `traverse`, whose code for that
is the positive `Cancelled`; it overwrites the negative `code` of the write, and the log is emptied
(`shrinkToFit_safe_iff`, `badWrite_not_safe`).

**Rotation keeps the oldest bytes**: the copy starts at the beginning of the log and is `maxSize`
bytes long, so what is past that is lost (`shrinkToFit_keeps_newest_iff`, `last_byte_lost`).
-/

namespace CtiLog

variable {pf : Platform} {io : ShrinkIO} {l : Logger} {s : Stream} {w : World} {L : Str}

/-! ## Safety -/

/-- The calls a rotation makes. -/
def rotationCalls (pf : Platform) (io : ShrinkIO) (l : Logger) (w : World) : List Call :=
  (l.shrinkToFit pf io w).2.calls.drop w.calls.length

/-- Nothing is lost: the log is truncated only when its first `min size maxSize` bytes are in the
backup, and not at all when a `::write` to the backup failed. `L` is what the log holds on disk
once the rotation has flushed it. -/
structure RotationSafe (pf : Platform) (io : ShrinkIO) (l : Logger) (w : World) (L : Str) : Prop where
  saved : (∃ file, .fopen file (l.name pf) .wb ∈ rotationCalls pf io l w) →
    (l.shrinkToFit pf io w).2.content (l.name1 pf) = L.take l.maxSize.bytes
  kept : (∃ call ∈ rotationCalls pf io l w, call.failedWrite (l.name1 pf)) →
    L <+: (l.shrinkToFit pf io w).2.content (l.name pf)

/-- The copy does not begin, or the log cannot be opened again, or a reached chunk cannot be mapped,
or every chunk is written to its end. -/
def SafeWhen (pf : Platform) (io : ShrinkIO) (l : Logger) (s : Stream) (w : World) : Prop :=
  let w' := (s.fflush io.flush w).2
  let max := min l.maxSize.bytes (w'.content (l.name pf)).length
  ¬ (Due pf io l w ∧ Begun pf io l w') ∨ (io.fopen1 ≠ none ∧ io.fopen2 ≠ none) ∨ io.Unmapped max ∨ io.Saves max

theorem rotationCalls_eq {cs : List Call} (h : (l.shrinkToFit pf io w).2.calls = w.calls ++ cs) :
    rotationCalls pf io l w = cs := by
  rw [rotationCalls, h, List.drop_left]

/-- A rotation that makes no `fopen` is safe if it keeps the log. -/
theorem safe_of_no_fopen {cs : List Call} (hcalls : (l.shrinkToFit pf io w).2.calls = w.calls ++ cs)
    (hcs : ∀ file, Call.fopen file (l.name pf) .wb ∉ cs) (hkept : L <+: (l.shrinkToFit pf io w).2.content (l.name pf)) :
    RotationSafe pf io l w L := by
  refine ⟨?_, fun _ => hkept⟩
  rw [rotationCalls_eq hcalls]
  rintro ⟨file, hf⟩
  exact absurd hf (hcs file)

theorem fopen_not_mem {file f : Nat} {n n1 : Name} {m : Mode} {ws : List Call}
    (hws : ∀ c ∈ ws, ∃ res, c = Call.write n1 res) :
    Call.fopen file n m ∉ Call.fflush f :: ws := by
  rw [List.mem_cons]
  rintro (h | h)
  · cases h
  · obtain ⟨res, hres⟩ := hws _ h
    cases hres

theorem safe_of_safeWhen (hs : l.log = some s) (hname : s.name = l.name pf) (h : SafeWhen pf io l s w) :
    RotationSafe pf io l w ((s.fflush io.flush w).2.content (l.name pf)) := by
  have hrot : Rotated pf io l s w _ _ := shrinkToFit_rotated hs hname
  have hflush : (s.fflush io.flush w).2.calls = w.calls ++ [.fflush s.file] := rfl
  unfold SafeWhen at h
  dsimp only at h
  generalize (s.fflush io.flush w).2 = w' at *
  generalize hr : l.shrinkToFit pf io w = r at hrot
  cases hrot with
  | idle =>
    have hcalls : rotationCalls pf io l w = [] := rotationCalls_eq (by rw [hr]; simp)
    refine ⟨?_, ?_⟩ <;> rw [hcalls]
    · rintro ⟨_, h⟩; cases h
    · rintro ⟨_, h, _⟩; cases h
  | refused _ _ honly hcalls =>
    have hrc : rotationCalls pf io l w = [.fflush s.file] := rotationCalls_eq (by rw [hr, hcalls, hflush])
    refine ⟨?_, ?_⟩ <;> rw [hrc]
    · rintro ⟨_, h⟩; simp at h
    · rintro ⟨_, h, _, rfl⟩; simp at h
  | @unmapped _ w₁ _ _ _ honly =>
    obtain ⟨ws, hws, hwr⟩ := honly.calls
    have hcalls : (l.shrinkToFit pf io w).2.calls = w.calls ++ (.fflush s.file :: ws) := by
      rw [hr, hws, hflush, List.append_assoc, List.singleton_append]
    refine safe_of_no_fopen hcalls (fun _ => fopen_not_mem hwr) ?_
    rw [hr, World.content, World.content, honly.fs _ name1_ne.symm]
  | @closed w₁ w₂ cs _ _ _ honly hcs hcalls hcont =>
    obtain ⟨ws, hws, hwr⟩ := honly.calls
    have hcalls' : (l.shrinkToFit pf io w).2.calls = w.calls ++ ((.fflush s.file :: ws) ++ cs) := by
      rw [hr, hcalls, hws, hflush]
      simp
    refine safe_of_no_fopen hcalls' ?_ ?_
    · intro file hm
      rcases List.mem_append.1 hm with h | h
      · exact fopen_not_mem hwr h
      · cases hcs _ h
    · rw [hr]
      exact hcont
  | @emptied w₁ w₂ cs g hdue hbegun hopen honly hcs hun hsaved _ hcalls =>
    have hS : io.Saves _ := ((h.resolve_left (not_not.2 ⟨hdue, hbegun⟩)).resolve_left hopen).resolve_left hun
    obtain ⟨hcont, ws, hws, hok⟩ := hsaved hS
    refine ⟨fun _ => by rw [hr]; exact hcont, ?_⟩
    have hrc : rotationCalls pf io l w = (.fflush s.file :: ws) ++ (cs ++ [.fopen w₁.files (l.name pf) .wb]) :=
      rotationCalls_eq (by rw [hr, hcalls, hws, hflush]; simp)
    rw [hrc]
    -- no call of this rotation is a failed `::write`
    rintro ⟨c, hm, e, rfl⟩
    simp only [List.cons_append, List.mem_cons, List.mem_append, reduceCtorEq, List.not_mem_nil, or_false,
      false_or] at hm
    rcases hm with h | h
    · exact absurd ⟨e, rfl⟩ (hok _ h)
    · cases hcs _ h

theorem safeWhen_of_safe (hs : l.log = some s) (hname : s.name = l.name pf)
    (hsafe : RotationSafe pf io l w ((s.fflush io.flush w).2.content (l.name pf))) : SafeWhen pf io l s w := by
  have hrot : Rotated pf io l s w _ _ := shrinkToFit_rotated hs hname
  have hflush : (s.fflush io.flush w).2.calls = w.calls ++ [.fflush s.file] := rfl
  unfold SafeWhen
  dsimp only
  generalize (s.fflush io.flush w).2 = w' at *
  generalize hr : l.shrinkToFit pf io w = r at hrot
  cases hrot with
  | idle hdue => exact .inl fun h => hdue h.1
  | refused _ hbegun => exact .inl fun h => hbegun h.2
  | unmapped _ _ hun => exact .inr (.inr (.inl hun))
  | closed _ _ hopen => exact .inr (.inl hopen)
  | @emptied w₁ w₂ cs g hdue hbegun hopen honly hcs hun hsaved hshort hcalls =>
    obtain ⟨ws, hws, hwr⟩ := honly.calls
    have hrc : rotationCalls pf io l w = (.fflush s.file :: ws) ++ (cs ++ [.fopen w₁.files (l.name pf) .wb]) :=
      rotationCalls_eq (by rw [hr, hcalls, hws, hflush]; simp)
    have hcont := hsafe.saved ⟨w₁.files, by rw [hrc]; simp⟩
    rw [hr] at hcont
    refine .inr (.inr (.inr ?_))
    by_contra hS
    have hlt := hshort hS
    rw [hcont, List.length_take] at hlt
    omega

/-- **When a rotation is safe**: unless its copy begins, the log can be opened again, no chunk fails
to be mapped and some chunk is not written to its end. -/
theorem shrinkToFit_safe_iff (hs : l.log = some s) (hname : s.name = l.name pf) :
    RotationSafe pf io l w ((s.fflush io.flush w).2.content (l.name pf)) ↔ SafeWhen pf io l s w :=
  ⟨safeWhen_of_safe hs hname, safe_of_safeWhen hs hname⟩

/-! ## Which bytes a rotation keeps -/

/-- The last `min size maxSize` bytes of `F`. -/
def newest (F : Str) (maxSize : Nat) : Str := F.drop (F.length - min F.length maxSize)

/-- A log of at most half of `maxSize` on disk stays as it is; a larger one ends up empty and open,
its newest bytes in the backup. -/
def KeepsNewest (pf : Platform) (io : ShrinkIO) (l : Logger) (s : Stream) (w : World) : Prop :=
  let r := l.shrinkToFit pf io w
  if (w.content (l.name pf)).length ≤ l.maxSize.bytes / 2 then
    r.2.fs (l.name pf) = w.fs (l.name pf) ∧ r.2.fs (l.name1 pf) = w.fs (l.name1 pf)
  else
    r.2.content (l.name pf) = [] ∧ (∃ s' ∈ r.1.log, (r.2.fs (l.name pf)).node = some (.regular s'.gen)) ∧
      r.2.content (l.name1 pf) = newest (s.flushed w) l.maxSize.bytes

/-- The log is not due, or not longer than `maxSize`, or its first `maxSize` bytes are its last. -/
def OldestIsNewest (pf : Platform) (l : Logger) (s : Stream) (w : World) : Prop :=
  (w.content (l.name pf)).length ≤ l.maxSize.bytes / 2 ∨ (s.flushed w).length ≤ l.maxSize.bytes ∨
    (s.flushed w).take l.maxSize.bytes = (s.flushed w).drop ((s.flushed w).length - l.maxSize.bytes)

theorem take_eq_newest_iff (F : Str) (M : Nat) :
    F.take M = newest F M ↔ F.length ≤ M ∨ F.take M = F.drop (F.length - M) := by
  unfold newest
  rcases Nat.le_total F.length M with h | h
  · rw [Nat.min_eq_left h, Nat.sub_self, List.drop_zero, List.take_of_length_le h]
    simp [h]
  · rw [Nat.min_eq_right h]
    constructor
    · exact .inr
    · rintro (h' | h')
      · obtain rfl : M = F.length := by omega
        simp
      · exact h'

/-- A log that is due is emptied, and the backup gets its first `maxSize` bytes. -/
theorem keepsNewest_of_due (hio : io.Ok) (hpath : l.path ≠ []) (hs : l.log = some s) (hname : s.name = l.name pf)
    (hg : (w.fs s.name).node = some (.regular s.gen)) (hlt : l.maxSize.bytes / 2 < (w.content (l.name pf)).length) :
    KeepsNewest pf io l s w ↔ (s.flushed w).take l.maxSize.bytes = newest (s.flushed w) l.maxSize.bytes := by
  have hdue : Due pf io l w ↔ _ := due_iff hpath hio.stat (hname ▸ hg)
  obtain ⟨g, w₂, hr, hg₂, hempty, htmp, -⟩ := shrinkToFit_ok hio hs hname hg (hdue.2 hlt)
  unfold KeepsNewest
  dsimp only
  rw [if_neg (not_le.2 hlt), hr]
  simp only [hempty, htmp, hg₂, true_and, Option.mem_some_iff, exists_eq_left']

/-- **Which bytes a rotation keeps**: the newest ones only where they are the oldest ones too. -/
theorem shrinkToFit_keeps_newest_iff (hio : io.Ok) (hpath : l.path ≠ []) (hs : l.log = some s)
    (hname : s.name = l.name pf) (hg : (w.fs s.name).node = some (.regular s.gen)) :
    KeepsNewest pf io l s w ↔ OldestIsNewest pf l s w := by
  by_cases hle : (w.content (l.name pf)).length ≤ l.maxSize.bytes / 2
  · have hdue : Due pf io l w ↔ _ := due_iff hpath hio.stat (hname ▸ hg)
    refine iff_of_true ?_ (.inl hle)
    unfold KeepsNewest
    dsimp only
    rw [if_pos hle, shrinkToFit_idle hs (fun h => absurd (hdue.1 h) (not_lt.2 hle))]
    exact ⟨rfl, rfl⟩
  · rw [keepsNewest_of_due hio hpath hs hname hg (not_le.1 hle), take_eq_newest_iff]
    exact (or_iff_right hle).symm

/-! ## One log of `size` zero bytes -/

/-- 4 KiB pages, relative paths at the root. -/
def plain : Platform := ⟨12, by decide, []⟩

/-- A file that was made under its name once. -/
def fileCell (bs : Str) : Cell where
  node := some (.regular 0)
  gens := 1
  data := fun _ => bs
  node_lt := by intro g h; cases h; decide

def noCell : Cell := ⟨none, 0, fun _ => [], by simp⟩

def rootCell : Cell := ⟨some .directory, 0, fun _ => [], by simp⟩

/-- The file `a` in the root directory, with the content `bs` and opened once. -/
def oneFile (bs : Str) : World :=
  ⟨fun n => if n = [str "a"] then fileCell bs else if n = [] then rootCell else noCell, 0, 1, []⟩

def streamA : Stream := ⟨0, [str "a"], 0, []⟩

def minSize : LogSize := ⟨8192, by decide, by decide⟩

/-- A logger with the file `a` open, of the smallest `maxSize`. -/
def loggerA : Logger := { Logger.new (str "a") with log := some streamA, outputs := .file, maxSize := minSize }

def Flush.ok : Flush := ⟨none, 0⟩

/-- Every call succeeds, every `::write` takes all it is given. -/
def ShrinkIO.ok : ShrinkIO where
  stat := none
  flush := .ok
  openLog := ⟨none, 3⟩
  statTmp := none
  remove := none
  openTmp := ⟨none, 4⟩
  fstat := none
  chunk := fun _ => ⟨none, fun _ => .ok kFileIoUpperBound, 0⟩
  close := .ok
  fopen1 := none
  fopen2 := none

/-- The first `::write` fails with `EIO`. -/
def ShrinkIO.badWrite : ShrinkIO := { ShrinkIO.ok with chunk := fun _ => ⟨none, fun _ => .fail 5, 0⟩ }

theorem oneFile_content (bs : Str) : (oneFile bs).content (loggerA.name plain) = bs := by
  have hn : loggerA.name plain = [str "a"] := by decide
  simp [oneFile, World.content, hn, Cell.content, fileCell]

theorem oneFile_due (io : ShrinkIO) (hio : io.stat = none) {bs : Str} (h : 4096 < bs.length) :
    Due plain io loggerA (oneFile bs) := by
  have hn : loggerA.name plain = [str "a"] := by decide
  refine ⟨by decide, ?_⟩
  have hsize : getFileSize (oneFile bs) (loggerA.name plain) io.stat = bs.length := by
    simp [getFileSize, World.stat, hio, oneFile, hn, fileCell]
  rw [hsize]
  show ((8192 / 2 : Nat) : Int) < _
  omega

theorem oneFile_node (bs : Str) : ((oneFile bs).fs streamA.name).node = some (.regular streamA.gen) := by
  simp [oneFile, streamA, fileCell]

theorem streamA_name : streamA.name = loggerA.name plain := by decide

/-- The flush of an empty buffer changes no file. -/
theorem streamA_fflush (o : Flush) (w : World) : (streamA.fflush o w).2 = w.call (.fflush 0) := by
  simp [streamA, Stream.fflush, Stream.spill]

theorem ShrinkIO.ok_ok : ShrinkIO.ok.Ok :=
  ⟨rfl, rfl, rfl, rfl, rfl, rfl, rfl, fun _ => rfl, fun _ _ => show 0 < kFileIoUpperBound by decide, fun _ => rfl,
    rfl, rfl⟩

/-- **A failed `::write` loses the log**: 5000 bytes, none of them in the backup. -/
theorem badWrite_not_safe :
    ¬ RotationSafe plain .badWrite loggerA (oneFile (List.replicate 5000 0)) (List.replicate 5000 0) := by
  intro h
  have hlen : (List.replicate 5000 (0 : UInt8)).length = 5000 := List.length_replicate
  generalize List.replicate 5000 (0 : UInt8) = bs at *
  have hL : (streamA.fflush ShrinkIO.badWrite.flush (oneFile bs)).2.content (loggerA.name plain) = bs := by
    rw [streamA_fflush]
    exact oneFile_content bs
  have hsafe := @safeWhen_of_safe plain .badWrite loggerA streamA (oneFile bs) rfl streamA_name (by rw [hL]; exact h)
  unfold SafeWhen at hsafe
  dsimp only at hsafe
  rw [hL] at hsafe
  rcases hsafe with h | h | h | h
  · have hg : ((streamA.fflush ShrinkIO.badWrite.flush (oneFile bs)).2.fs (loggerA.name plain)).node =
        some (.regular streamA.gen) := by
      rw [streamA_fflush, ← streamA_name]
      exact oneFile_node bs
    exact h ⟨oneFile_due _ rfl (by omega), begun_of_opened hg rfl rfl rfl rfl rfl⟩
  · exact h.1 rfl
  · obtain ⟨i, _, _, hm⟩ := h
    exact hm rfl
  · have hmin : loggerA.maxSize.bytes = 8192 := rfl
    obtain ⟨j, hpos, hle⟩ := (h 0 (by omega)).2.1
    have hpos0 : 0 < chunkLen (min loggerA.maxSize.bytes bs.length) 0 := chunkLen_pos (by omega)
    cases j with
    | zero => simp at hle; omega
    | succ j =>
      have := hpos 0 (by omega)
      simp [Sys.amount, ShrinkIO.badWrite] at this

/-- The rotation of a healthy disk. -/
theorem shrinkToFit_safe_iff_ok :
    RotationSafe plain .ok loggerA (oneFile (List.replicate 5000 0))
        ((streamA.fflush ShrinkIO.ok.flush (oneFile (List.replicate 5000 0))).2.content (loggerA.name plain)) ↔
      SafeWhen plain .ok loggerA streamA (oneFile (List.replicate 5000 0)) :=
  shrinkToFit_safe_iff rfl streamA_name

theorem shrinkToFit_keeps_newest_iff_ok :
    KeepsNewest plain .ok loggerA streamA (oneFile (List.replicate 5000 0)) ↔
      OldestIsNewest plain loggerA streamA (oneFile (List.replicate 5000 0)) :=
  shrinkToFit_keeps_newest_iff ShrinkIO.ok_ok (by decide) rfl streamA_name (oneFile_node _)

theorem take_ne_drop_replicate {n k : Nat} (hk : k ≤ n) :
    (List.replicate n (0 : UInt8) ++ [1]).take n ≠ (List.replicate n (0 : UInt8) ++ [1]).drop k := by
  intro h
  have hone : (1 : UInt8) ∈ (List.replicate n (0 : UInt8) ++ [1]).drop k := by
    rw [List.drop_append_of_le_length (by simpa using hk)]
    simp
  rw [← h, List.take_append_of_le_length (by simp), List.take_of_length_le (by simp)] at hone
  exact absurd (List.eq_of_mem_replicate hone) (by decide)

/-- **The newest byte is lost**: 8192 zeros and a one, rotated to 8192 zeros. -/
theorem last_byte_lost :
    ¬ KeepsNewest plain .ok loggerA streamA (oneFile (List.replicate 8192 0 ++ [1])) := by
  have hflushed : ∀ bs, streamA.flushed (oneFile bs) = bs := fun bs => by
    simp [Stream.flushed, streamA, oneFile, fileCell]
  have hmax : loggerA.maxSize.bytes = 8192 := rfl
  have hdue : loggerA.maxSize.bytes / 2 <
      ((oneFile (List.replicate 8192 0 ++ [1])).content (loggerA.name plain)).length := by
    rw [oneFile_content, hmax, List.length_append, List.length_replicate]
    decide
  rw [keepsNewest_of_due ShrinkIO.ok_ok (by decide) rfl streamA_name (oneFile_node _) hdue, take_eq_newest_iff,
    hflushed,
    hmax, List.length_append, List.length_replicate]
  rintro (h | h)
  · simp at h
  · exact take_ne_drop_replicate (by decide) h

end CtiLog
