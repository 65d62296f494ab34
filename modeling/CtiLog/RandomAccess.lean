import CtiLog.Patch
import CtiLog.RestPosition
/-
# A `File` as a random-access file

What the calls of a `File` are for: bytes stay where they were written until something else is written there.
Chunk sizes, limits, callbacks, short transfers and failures only decide how much of its data a call stores, and
that is what it returns (`After`); nothing else of them shows in the file.

* `last_write_wins` — after any run, every byte is the one stored there last, else the old one, else zero.
* `read_back` — what a call has stored is read back from there, after any run that spares it.
-/

namespace CtiLog

open Patch Runs Chunks

namespace Seekable

variable {σ : Type*}

/-- Where the next byte is put. -/
def target (t : Seekable σ) : Nat := if t.append then t.content.length else t.pos

/-- What a call stores: as much of its data as it says it has written. -/
def stored (t : Seekable σ) : FileOp σ → Str
  | .writeAny (some b) each limit sys =>
    b.bytes.take (writeAny t.file accept (some b) each limit ⟨fun _ => t.file.view, sys⟩ t).total
  | .writeRaw (some data) each sys =>
    data.take (writeRaw t.file accept (some data) each ⟨fun _ => t.file.view, sys⟩ t).total
  | .writeAnyCb didWrote (some b) each limit sys =>
    b.bytes.take (writeAnyCb t.file accept (wrote didWrote) (some b) each limit ⟨fun _ => t.file.view, sys⟩ t).total
  | .writeRawCb didWrote (some data) each limit sys =>
    data.take (writeRawCb t.file accept (wrote didWrote) (some data) each limit ⟨fun _ => t.file.view, sys⟩ t).total
  | _ => []

/-- The pieces that the calls of a run store. -/
def pieces (t : Seekable σ) : List (FileOp σ) → List (Nat × Str)
  | [] => []
  | a :: as => (t.target, t.stored a) :: (t.run a).pieces as

/-! ## One call -/

/-- `u` is `t` after `bytes` were written; the state of the callbacks may be any. -/
structure After (t : Seekable σ) (bytes : Str) (u : Seekable σ) : Prop where
  file : u.file = t.file
  append : u.append = t.append
  content : u.content = put 0 t.target bytes t.content
  pos : u.pos = if bytes = [] then t.pos else t.target + bytes.length

variable {t u : Seekable σ} {bytes : Str}

theorem After.refl : t.After [] t := ⟨rfl, rfl, rfl, rfl⟩

theorem accept_after (t : Seekable σ) (bytes : Str) : t.After bytes (t.accept bytes) := by
  unfold accept
  by_cases hnil : bytes = []
  · rw [if_pos hnil, hnil]
    exact .refl
  · rw [if_neg hnil]
    exact ⟨rfl, rfl, by rw [put, if_neg hnil]; rfl, by rw [if_neg hnil]; rfl⟩

theorem After.target (h : t.After bytes u) (hne : bytes ≠ []) : u.target = t.target + bytes.length := by
  unfold Seekable.target
  rw [h.append, h.pos, if_neg hne]
  cases happ : t.append with
  | false => simp [Seekable.target, happ]
  | true =>
    have hlen : bytes.length ≠ 0 := by simpa using hne
    simp [h.content, length_put, reach, Seekable.target, happ, hlen]

/-- **Two writes are one** of the bytes of both. -/
theorem After.trans {v : Seekable σ} {bytes' : Str} (h : t.After bytes u) (h' : u.After bytes' v) :
    t.After (bytes ++ bytes') v := by
  by_cases hne : bytes = []
  · subst hne
    have htarget : u.target = t.target := by
      unfold Seekable.target
      rw [h.append, h.content, h.pos]
      rfl
    refine ⟨h'.file.trans h.file, h'.append.trans h.append, ?_, ?_⟩
    · rw [h'.content, htarget, h.content]
      rfl
    · rw [h'.pos, htarget, h.pos]
      rfl
  · have htarget := h.target hne
    refine ⟨h'.file.trans h.file, h'.append.trans h.append, ?_, ?_⟩
    · rw [h'.content, htarget, h.content, put_put]
    · rw [h'.pos, htarget, h.pos]
      by_cases hne' : bytes' = []
      · simp [hne, hne']
      · simp [hne, hne', Nat.add_assoc]

/-- A callback that leaves the file as it is. -/
def KeepsFile (cb : DidWrote (Seekable σ)) : Prop := ∀ t done rest, After t [] (cb t done rest).2

theorem wrote_keeps (didWrote : DidWrote σ) : KeepsFile (wrote didWrote) := fun _ _ _ => ⟨rfl, rfl, rfl, rfl⟩

section
variable {f : File} {didWrote : Option (DidWrote (Seekable σ))} {io : WriteIO}

/-- The invariant of the loop: the file is as after all that was recorded. -/
def Recorded (t : Seekable σ) (s : St (Seekable σ × List Str)) : Prop := t.After s.user.2.flatten s.user.1

theorem writeTurn_recorded (hcb : ∀ cb ∈ didWrote, KeepsFile cb) (data : Str) (max each k total : Nat)
    (s : St (Seekable σ × List Str)) (h : t.Recorded s) :
    t.Recorded (writeTurn f (recordAccept accept) (didWrote.map besides) data io max each k total s).st := by
  unfold writeTurn
  split
  · exact h
  · cases io.sys k with
    | fail e => exact h
    | ok n =>
      have hpiece : ∀ bytes, t.After (s.user.2 ++ [bytes]).flatten (s.user.1.accept bytes) := by
        intro bytes
        rw [List.flatten_append, List.flatten_singleton]
        exact h.trans (accept_after _ bytes)
      cases didWrote with
      | none => exact hpiece _
      | some cb =>
        have hcalled : ∀ bytes done rest, t.After (s.user.2 ++ [bytes]).flatten
            (cb (s.user.1.accept bytes) done rest).2 := by
          intro bytes done rest
          have hkept := (hpiece bytes).trans (hcb cb rfl (s.user.1.accept bytes) done rest)
          rwa [List.append_nil] at hkept
        dsimp only [Option.map_some]
        split
        · exact hcalled _ _ _
        · exact hcalled _ _ _

theorem writeLoop_recorded (hcb : ∀ cb ∈ didWrote, KeepsFile cb) (data : Str) (max each : Nat) (ret : Option Int) :
    t.After (writeLoop f (recordAccept accept) (didWrote.map besides) data max each ret io (t, [])).st.2.flatten
      (writeLoop f (recordAccept accept) (didWrote.map besides) data max each ret io (t, [])).st.1 :=
  loop_inv t.Recorded After.refl fun k total s hs => writeTurn_recorded hcb data max each k total s hs

/-- **The `Any` overloads**: what is stored is what the call returns. -/
theorem writeBundle_after (hcb : ∀ cb ∈ didWrote, KeepsFile cb) (b : Bundle) (each limit : Int) :
    t.After (b.bytes.take (writeBundle f accept didWrote (some b) each limit io t).total)
      (writeBundle f accept didWrote (some b) each limit io t).st := by
  have hbytes := (writeBundle_transfers f t accept didWrote b each limit io).bytes
  rw [← writeBundle_forget f t accept didWrote (some b) each limit io []]
  show t.After
    (b.bytes.take (writeBundle f (recordAccept accept) (didWrote.map besides) (some b) each limit io (t, [])).total)
    (writeBundle f (recordAccept accept) (didWrote.map besides) (some b) each limit io (t, [])).st.1
  rw [← hbytes]
  unfold writeBundle
  dsimp only
  split_ifs
  · exact .refl
  · exact .refl
  · exact .refl
  · exact writeLoop_recorded hcb _ _ _ _

/-- **The pointer overloads.** -/
theorem writePointer_after (hcb : ∀ cb ∈ didWrote, KeepsFile cb) (data : Str) (each limit : Int) :
    t.After (data.take (writePointer f accept didWrote (some data) each limit io t).total)
      (writePointer f accept didWrote (some data) each limit io t).st := by
  have hbytes := (writePointer_transfers f t accept didWrote data each limit io).bytes
  rw [← writePointer_forget f t accept didWrote (some data) each limit io []]
  show t.After
    (data.take (writePointer f (recordAccept accept) (didWrote.map besides) (some data) each limit io (t, [])).total)
    (writePointer f (recordAccept accept) (didWrote.map besides) (some data) each limit io (t, [])).st.1
  rw [← hbytes]
  unfold writePointer
  dsimp only
  split_ifs
  · exact .refl
  · exact .refl
  · exact writeLoop_recorded hcb _ _ _ _

end

/-- A call stores a piece, or only moves the position. -/
theorem run_after (t : Seekable σ) (a : FileOp σ) :
    t.After (t.stored a) (t.run a) ∨ t.stored a = [] ∧ ∃ p user, t.run a = { t with pos := p, user := user } := by
  cases a with
  | jump2Begin fail => exact .inr ⟨rfl, _, _, rfl⟩
  | jump2Offset offset fail => exact .inr ⟨rfl, _, _, rfl⟩
  | rjump2Offset offset fail => exact .inr ⟨rfl, _, _, rfl⟩
  | read size checkavail io => exact .inr ⟨rfl, _, _, rfl⟩
  | readCb didRead each limit io => exact .inr ⟨rfl, _, _, rfl⟩
  | writeAny data each limit sys =>
    left
    cases data with
    | none => exact .refl
    | some b => exact writeBundle_after (by simp) b each limit
  | writeRaw data each sys =>
    left
    cases data with
    | none => exact .refl
    | some bytes => exact writePointer_after (by simp) bytes each _
  | writeAnyCb didWrote data each limit sys =>
    left
    cases data with
    | none => exact .refl
    | some b =>
      apply writeBundle_after
      rintro _ ⟨⟩
      exact wrote_keeps didWrote
  | writeRawCb didWrote data each limit sys =>
    left
    cases data with
    | none => exact .refl
    | some bytes =>
      apply writePointer_after
      rintro _ ⟨⟩
      exact wrote_keeps didWrote

theorem run_content (t : Seekable σ) (a : FileOp σ) : (t.run a).content = put 0 t.target (t.stored a) t.content := by
  rcases run_after t a with h | ⟨hnil, p, user, hrun⟩
  · exact h.content
  · rw [hrun, hnil]
    rfl

/-! ## Runs -/

theorem pieces_snoc (t : Seekable σ) (as : List (FileOp σ)) (a : FileOp σ) :
    t.pieces (as ++ [a]) = t.pieces as ++ [((as.foldl run t).target, (as.foldl run t).stored a)] := by
  induction as generalizing t with
  | nil => rfl
  | cons b bs ih => simp [pieces, ih]

theorem run_foldl {as : List (FileOp σ)} (h : Run SeekStep t as u) : u = as.foldl run t := by
  induction h with
  | nil => rfl
  | snoc _ hst ih =>
    rw [List.foldl_append, ← ih]
    exact hst.symm

/-- **Run lemma**: the file is the history of the pieces. -/
theorem content_eq_play {as : List (FileOp σ)} (h : Run SeekStep t as u) :
    u.content = play 0 (t.pieces as) t.content := by
  induction h with
  | nil => rfl
  | snoc hrun hst ih =>
    rw [pieces_snoc, ← run_foldl hrun, play_snoc, ← ih, ← hst]
    exact run_content _ _

/-- **Last write wins.** After any run every byte is the one that was stored there last; a byte nobody stored is as it
was, or zero if it was behind the end. -/
theorem last_write_wins {as : List (FileOp σ)} (h : Run SeekStep t as u) (i : Nat) :
    u.content[i]? = if i < extent t.content.length (t.pieces as) then
      some ((latest (t.pieces as) i).getD (t.content[i]?.getD 0)) else none := by
  rw [content_eq_play h]
  exact getElem?_play

/-- The call does not store into the `n` bytes from `start` on. -/
def Sparing (start n : Nat) (t : Seekable σ) (a : FileOp σ) : Prop := Spares start n (t.target, t.stored a)

theorem holds_run {start : Nat} {as : List (FileOp σ)} (h : Run (Guarded (Sparing start bytes.length) SeekStep) t as u)
    (ht : Holds start bytes t.content) : Holds start bytes u.content := by
  refine h.inv (fun s => Holds start bytes s.content) ht ?_
  rintro s a _ hs ⟨hspared, rfl⟩
  rw [run_content]
  exact hs.put hspared

theorem run_holds (t : Seekable σ) (a : FileOp σ) : Holds t.target (t.stored a) (t.run a).content := by
  rw [run_content]
  exact holds_put

/-- **What was stored is read back.** A call stores some bytes; then come any calls that spare them and leave the
position at their beginning. A read of `n` of them, chunk by chunk or at once, gives the first `n` of them. -/
theorem read_back {a : FileOp σ} {as : List (FileOp σ)} {n : Nat}
    (h : Run (Guarded (Sparing t.target (t.stored a).length) SeekStep) (t.run a) as u) (hpos : u.pos = t.target)
    (hidle : u.file.ioBusy = false) (hn : 0 < n) (hle : n ≤ (t.stored a).length) :
    (∀ (didRead : σ → Str → Bool × σ) (io : ReadIO), NeverCancels didRead → io.Succeeds u.file → ∀ each st,
        (CtiLog.readCb u.file (fun _ => u.content) u.pos (record didRead) each n io (st, [])).1.st.2.flatten =
          (t.stored a).take n) ∧
      ∀ (io : ReadOnceIO) (checkavail : Bool), io.Ok u.file → n ≤ kFileIoUpperBound →
        (readOnce u.file u.content u.pos n checkavail io).data = some ((t.stored a).take n) := by
  have hholds := holds_run h (run_holds t a)
  have hread := hholds.read hle
  have hinside : t.target + n ≤ u.content.length := by
    have hlast := hholds (n - 1) (by omega)
    rw [List.getElem?_eq_getElem (show n - 1 < (t.stored a).length by omega)] at hlast
    obtain ⟨hlt, -⟩ := List.getElem?_eq_some_iff.1 hlast
    omega
  rw [hpos]
  constructor
  · intro didRead io hcb hio each st
    rw [← hread]
    exact (readCb_limited hidle (not_lt.2 u.isOpen) hio hcb hinside each st).1
  · intro io checkavail hio hbound
    obtain ⟨max, hmax, hok, hmin⟩ := readOnceMax_nonneg u.content.length checkavail (Int.natCast_nonneg n)
    rw [Int.toNat_natCast] at hmax hmin
    obtain rfl : max = n := by omega
    have hgives : Gives t.target _ _ := readOnce_gives u.isOpen hidle hio hok hbound
    have hall : min max (u.content.length - t.target) = max := by omega
    rw [hgives, hall, hread]

/-! ### Two bytes -/

/-- `xy` is written over `a`, one byte at a time. -/
def writeXY : FileOp (Unit × List Str) := .writeRaw (some (str "xy")) 1 fun _ => .ok 1

theorem writeXY_stored : oneByte.stored writeXY = str "xy" := by
  have hturn : ∀ k total (s : St (Seekable (Unit × List Str))), total < 2 →
      ∃ s', writeTurn openA accept none (str "xy") ⟨fun _ => openA.view, fun _ => .ok 1⟩ 2 1 k total s = .move 1 s' := by
    intro k total s htotal
    have hreq : min 1 (request 1 2 total) = 1 := by
      unfold request
      split <;> omega
    unfold writeTurn
    dsimp only
    rw [if_neg (by simp), hreq]
    exact ⟨_, rfl⟩
  have htotal : (writeRaw openA accept (some (str "xy")) 1 ⟨fun _ => openA.view, fun _ => .ok 1⟩ oneByte).total = 2 := by
    obtain ⟨s₁, h₁⟩ := hturn 0 0 ⟨oneByte, []⟩ (by decide)
    obtain ⟨s₂, h₂⟩ := hturn 1 1 s₁ (by decide)
    show (loop (writeTurn openA accept none (str "xy") ⟨fun _ => openA.view, fun _ => .ok 1⟩ 2 1) 2 none 0 0
      ⟨oneByte, []⟩).total = 2
    rw [loop_of_moves ⟨_, _, h₁, by decide, by decide⟩, h₁]
    exact congrArg Result.total (loop_of_ends_here (.full h₂ (by decide) (by decide)))
  show (str "xy").take _ = _
  rw [show (writeRaw oneByte.file accept (some (str "xy")) 1 ⟨fun _ => oneByte.file.view, fun _ => .ok 1⟩ oneByte).total = 2
    from htotal]
  rfl

theorem last_write_wins_xy : (oneByte.run writeXY).content[0]? = some 120 := by
  have hpieces : oneByte.pieces [writeXY] = [(0, str "xy")] := by
    rw [← writeXY_stored]
    rfl
  have hlast := last_write_wins (.single rfl : Run SeekStep oneByte [writeXY] (oneByte.run writeXY)) 0
  rw [hpieces] at hlast
  exact hlast.trans (by decide)

/-- Back to the beginning, `xy` is read. -/
theorem read_back_xy :
    let u := (oneByte.run writeXY).run (.jump2Begin none)
    (CtiLog.readCb u.file (fun _ => u.content) u.pos (record (record keepOn)) 1 (2 : Nat) fullReads
      (((), []), [])).1.st.2.flatten = str "xy" := by
  intro u
  have hafter := (run_after oneByte writeXY).resolve_right fun h => absurd (writeXY_stored.symm.trans h.1) (by decide)
  have hfile : u.file = openA := hafter.file
  have hpos : u.pos = 0 := by
    show ((oneByte.run writeXY).file.jump2Begin _ none).2 = 0
    rw [show (oneByte.run writeXY).file = openA from hafter.file]
    rfl
  have hread := (read_back (n := 2) (.single ⟨.inl rfl, rfl⟩ : Run _ (oneByte.run writeXY) [.jump2Begin none] u) hpos
    (by rw [hfile]; rfl) (by decide) (by rw [writeXY_stored]; decide)).1 (record keepOn) fullReads (fun _ _ => rfl)
    (hfile ▸ fullReads_succeeds) 1 ((), [])
  rw [writeXY_stored] at hread
  exact hread

end Seekable

end CtiLog
