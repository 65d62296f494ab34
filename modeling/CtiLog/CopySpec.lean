import CtiLog.Copy
/-
# What the copy writes

The result of `copyLog` as a function of the answers of its system calls: which chunks are
written in full, with which code it ends.

* `Drains write len` — the answers to `::write`, taken in order, use up `len` bytes.
* `Fails write len` — one of them fails before that.
* `writeRaw_spec` — `File::write` of one chunk: three ways to end.
* `copy_spec` — the traversal: an `mmap` failed, or everything was written, or bytes are missing
  and the code is not negative.
-/

namespace CtiLog

open Chunks Finset

/-! ## One chunk -/

/-- Bytes a `::write` took. -/
def Sys.amount : Sys → Nat
  | .ok n => n
  | .fail _ => 0

def Drains (write : Nat → Sys) (len : Nat) : Prop :=
  ∃ j, (∀ i < j, 0 < (write i).amount) ∧ len ≤ ∑ i ∈ range j, (write i).amount

def Fails (write : Nat → Sys) (len : Nat) : Prop :=
  ∃ j e, write j = .fail e ∧ (∀ i < j, 0 < (write i).amount) ∧ ∑ i ∈ range j, (write i).amount < len

/-- A call that takes nothing before `len` bytes are through: they never will be. -/
theorem not_drains {write : Nat → Sys} {len j : Nat} (hj : (write j).amount = 0)
    (hlt : ∑ i ∈ range j, (write i).amount < len) : ¬ Drains write len := by
  rintro ⟨j', hpos, hle⟩
  rcases Nat.lt_or_ge j j' with h | h
  · have := hpos j h
    omega
  · have := sum_le_sum_of_subset (f := fun i => (write i).amount) (range_subset_range.2 h)
    omega

/-- A call that takes nothing without failing, before `len` bytes are through: none fails. -/
theorem not_fails_of_dry {write : Nat → Sys} {len j : Nat} (hj : write j = .ok 0)
    (hpos : ∀ i < j, 0 < (write i).amount) : ¬ Fails write len := by
  rintro ⟨j', e, he, hpos', -⟩
  rcases Nat.lt_trichotomy j j' with h | h | h
  · have := hpos' j h
    simp [hj, Sys.amount] at this
  · rw [← h, hj] at he
    cases he
  · have := hpos j' h
    simp [he, Sys.amount] at this

theorem not_fails_of_drains {write : Nat → Sys} {len : Nat} (h : Drains write len) : ¬ Fails write len := by
  rintro ⟨j, e, he, -, hlt⟩
  exact not_drains (by simp [he, Sys.amount]) hlt h

/-- How `File::write` of one chunk ends: `ret`, the bytes written, whether a call failed. -/
inductive Wrote (write : Nat → Sys) (len : Nat) : Option Int → Nat → Bool → Prop
  | full : Drains write len → Wrote write len none len false
  | dry {n : Nat} : n < len → ¬ Drains write len → ¬ Fails write len → Wrote write len (some 0) n false
  | failed {n : Nat} {c : Int} : n < len → c < 0 → ¬ Drains write len → Fails write len → Wrote write len (some c) n true

def Event.writeFailed : Event → Bool
  | .io _ _ (.fail _) => true
  | _ => false

section
variable {f : File} {d : Ofd} {data : Str} {write : Nat → Sys} {w : World}

/-- The loop of one chunk: every request is the rest of the chunk. -/
theorem writeRaw_loop (hd : f.ofd = some d) (hb : f.ioBusy = false) (hbound : data.length ≤ kFileIoUpperBound) :
    writeRaw f f.accept (some data) 0 ⟨fun _ => f.view, write⟩ w =
      .ofLoop (loop (writeTurn f f.accept none data ⟨fun _ => f.view, write⟩ data.length data.length) data.length none 0 0
        ⟨w, []⟩) := by
  have hfd : ¬ f.fd < 0 := by simp [File.fd, hd]
  have hmax : maxWrite (-1) data.length = data.length := by simp [maxWrite]
  have heach : eachWrite 0 data.length = data.length := by unfold eachWrite; simp; omega
  simp only [writeRaw, writePointer, hb, hfd, Bool.false_eq_true, if_false, writeLoop, hmax, heach]

theorem request_rest {len t : Nat} (h : t ≤ len) : request len len t = len - t := by
  unfold request
  split <;> omega

theorem accept_eq (hd : f.ofd = some d) (bs : Str) : f.accept w bs = w.put d.name d.gen bs := by
  simp [File.accept, hd]

/-- One `::write` of a chunk. -/
theorem writeTurn_chunk (hd : f.ofd = some d) {k t : Nat} {s : St World} (ht : t ≤ data.length) :
    writeTurn f f.accept none data ⟨fun _ => f.view, write⟩ data.length data.length k t s =
      match write k with
      | .fail e => .leave (sysCode .readError e) 0 (s.log (.io t (data.length - t) (.fail e)))
      | .ok n => .move (min n (data.length - t))
          ({ s with user := s.user.put d.name d.gen ((data.drop t).take (min n (data.length - t))) }.log
            (.io t (data.length - t) (.ok (min n (data.length - t))))) := by
  unfold writeTurn
  dsimp only
  rw [request_rest ht]
  cases write k with
  | fail e => simp
  | ok n => simp [accept_eq hd]

/-- Where the `::write` number `k` of a chunk starts. -/
theorem chunk_pos (hd : f.ofd = some d) (hlen : 0 < data.length) : ∀ k,
    Pending (writeTurn f f.accept none data ⟨fun _ => f.view, write⟩ data.length data.length) data.length ⟨w, []⟩ k →
    let p := pos (writeTurn f f.accept none data ⟨fun _ => f.view, write⟩ data.length data.length) ⟨w, []⟩ k
    p.1 < data.length ∧ p.1 = ∑ i ∈ range k, (write i).amount ∧ (∀ i < k, 0 < (write i).amount) ∧
      p.2.user = w.put d.name d.gen (data.take p.1) ∧ p.2.events.any Event.writeFailed = false := by
  refine pos_inv (fun k t (s : St World) => t < data.length ∧ t = ∑ i ∈ range k, (write i).amount ∧
    (∀ i < k, 0 < (write i).amount) ∧ s.user = w.put d.name d.gen (data.take t) ∧
    s.events.any Event.writeFailed = false) ?_ ?_
  · exact ⟨hlen, by simp, by simp, by simp, rfl⟩
  · rintro k t s n s' ⟨hlt, hsum, hpos, hw, hev⟩ hturn hn hmax
    rw [writeTurn_chunk hd hlt.le] at hturn
    split at hturn
    · cases hturn
    · rename_i m hm
      cases hturn
      have hmin : min m (data.length - t) = m := by omega
      rw [hmin] at hn hmax ⊢
      refine ⟨hmax, ?_, ?_, ?_, ?_⟩
      · rw [sum_range_succ, ← hsum, hm, Sys.amount]
      · intro i hi
        rcases Nat.lt_succ_iff_lt_or_eq.1 hi with hi | rfl
        · exact hpos i hi
        · rw [hm, Sys.amount]; omega
      · simp only [St.log, hw, World.put_put]
        rw [← List.take_add]
      · simp [St.log, hev, Event.writeFailed]

/-- **`File::write` of one chunk** writes a prefix of it. -/
theorem writeRaw_spec (hd : f.ofd = some d) (hb : f.ioBusy = false) (hlen : 0 < data.length)
    (hbound : data.length ≤ kFileIoUpperBound) :
    let o := writeRaw f f.accept (some data) 0 ⟨fun _ => f.view, write⟩ w
    ∃ n failed, Wrote write data.length o.ret n failed ∧ o.st = w.put d.name d.gen (data.take n) ∧
      o.events.any Event.writeFailed = failed := by
  dsimp only
  rw [writeRaw_loop hd hb hbound]
  obtain ⟨k, hp, he⟩ := loop_ends (writeTurn f f.accept none data ⟨fun _ => f.view, write⟩ data.length data.length)
    data.length none ⟨w, []⟩
  obtain ⟨hlt, hsum, hpos, hw, hev⟩ := chunk_pos hd hlen k hp
  generalize loop (writeTurn f f.accept none data ⟨fun _ => f.view, write⟩ data.length data.length) data.length none 0 0
    ⟨w, []⟩ = r at he
  generalize pos (writeTurn f f.accept none data ⟨fun _ => f.view, write⟩ data.length data.length) ⟨w, []⟩ k = p at *
  obtain ⟨t, s⟩ := p
  dsimp only at *
  have hturn := @writeTurn_chunk f d data write hd k t s hlt.le
  cases hk : write k with
  | fail e =>
    have hz : (write k).amount = 0 := by simp [hk, Sys.amount]
    simp only [hk] at hturn
    cases he with
    | left h =>
      rw [hturn] at h; cases h
      refine ⟨t, true, .failed hlt (readError_neg e) (not_drains hz (by omega)) ⟨k, e, hk, hpos, by omega⟩, hw, ?_⟩
      simp [Outcome.ofLoop, St.log, Event.writeFailed]
    | dry h => rw [hturn] at h; cases h
    | full h => rw [hturn] at h; cases h
  | ok m =>
    simp only [hk] at hturn
    cases he with
    | left h => rw [hturn] at h; cases h
    | dry h =>
      obtain ⟨hmin, rfl⟩ := Turn.move.inj (hturn.symm.trans h)
      obtain rfl : m = 0 := by omega
      refine ⟨t, false, .dry hlt (not_drains (by rw [hk]; rfl) (by omega)) (not_fails_of_dry hk hpos), ?_, ?_⟩
      · simp [Outcome.ofLoop, St.log, hw]
      · simp [Outcome.ofLoop, St.log, hev, Event.writeFailed]
    | full h hn hge =>
      obtain ⟨rfl, rfl⟩ := Turn.move.inj (hturn.symm.trans h)
      have hdr : Drains write data.length := by
        refine ⟨k + 1, fun i hi => ?_, ?_⟩
        · rcases Nat.lt_succ_iff_lt_or_eq.1 hi with hi | rfl
          · exact hpos i hi
          · rw [hk, Sys.amount]; omega
        · rw [sum_range_succ, hk, Sys.amount]; omega
      refine ⟨data.length, false, .full hdr, ?_, ?_⟩
      · have hrest : t + min m (data.length - t) = data.length := by omega
        simp only [Outcome.ofLoop, St.log, hw, World.put_put, ← List.take_add, hrest]
      · simp [Outcome.ofLoop, St.log, hev, Event.writeFailed]

end

/-! ## The callback -/

/-- The callback asks to stop: the chunk's write failed, or `code` was left at a negative value. -/
def ChunkIO.Stops (io : ChunkIO) (len : Nat) : Prop := Fails io.write len ∨ Drains io.write len ∧ io.stale < 0

def Call.failedWrite (n : Name) (c : Call) : Prop := ∃ e, c = .write n (.fail e)

theorem wrote_stops {io : ChunkIO} {len : Nat} {ret : Option Int} {n : Nat} {failed : Bool}
    (h : Wrote io.write len ret n failed) : ret.getD io.stale < 0 ↔ io.Stops len := by
  unfold ChunkIO.Stops
  cases h with
  | full hd => simp [hd, not_fails_of_drains hd]
  | dry _ hd hf => simp [hd, hf]
  | failed _ hc hd hf => simpa [hf] using hc

theorem wrote_le {write : Nat → Sys} {len : Nat} {ret : Option Int} {n : Nat} {failed : Bool}
    (h : Wrote write len ret n failed) :
    n ≤ len ∧ (n = len ↔ Drains write len) ∧ (Drains write len → failed = false) := by
  cases h with
  | full hd => exact ⟨le_rfl, by simp [hd], fun _ => rfl⟩
  | dry hlt hd _ => exact ⟨hlt.le, by simp [hd, hlt.ne], fun h => absurd h hd⟩
  | failed hlt _ hd _ => exact ⟨hlt.le, by simp [hd, hlt.ne], fun h => absurd h hd⟩

/-- **One call of the copy's callback.** -/
theorem doWrite2Tmp_spec {f : File} {d : Ofd} (hd : f.ofd = some d) (hb : f.ioBusy = false) (io : Nat → ChunkIO)
    (c : Copy) {data : Str} (hlen : 0 < data.length) (hbound : data.length ≤ kFileIoUpperBound) :
    ∃ n cs, n ≤ data.length ∧ (n = data.length ↔ Drains (io c.chunk).write data.length) ∧
      (Drains (io c.chunk).write data.length → ∀ call ∈ cs, ¬ call.failedWrite d.name) ∧
      ((doWrite2Tmp f d.name io c data).1 = true ↔ (io c.chunk).Stops data.length) ∧
      (doWrite2Tmp f d.name io c data).2.chunk = c.chunk + 1 ∧
      (doWrite2Tmp f d.name io c data).2.world =
        { c.world.put d.name d.gen (data.take n) with calls := c.world.calls ++ cs } := by
  obtain ⟨n, failed, hw, hst, hev⟩ := @writeRaw_spec f d data (io c.chunk).write c.world hd hb hlen hbound
  obtain ⟨hle, hiff, hfail⟩ := wrote_le hw
  have hstop := wrote_stops hw
  unfold doWrite2Tmp
  dsimp only
  generalize writeRaw f f.accept (some data) 0 ⟨fun _ => f.view, (io c.chunk).write⟩ c.world = o at *
  refine ⟨n, o.events.filterMap (Event.writeCall d.name), hle, hiff, ?_, ?_, rfl, ?_⟩
  · rintro hdr call hm ⟨e, rfl⟩
    obtain ⟨ev, hev', hcall⟩ := List.mem_filterMap.1 hm
    have hnone : o.events.any Event.writeFailed = false := hev.trans (hfail hdr)
    have hno := List.any_eq_false.1 hnone ev hev'
    cases ev with
    | io a b res => cases hcall; simp [Event.writeFailed] at hno
    | _ => cases hcall
  · rw [decide_eq_true_iff]
    exact hstop
  · rw [hst]
    rfl

/-! ## The traversal -/

/-- Length of chunk `i` of a range of `max` bytes. -/
def chunkLen (max i : Nat) : Nat := min kBigPerReadBytes (max - i * kBigPerReadBytes)

namespace ShrinkIO

/-- Chunk `i` is mapped next: every earlier one was mapped, and its callback let the copy go on. -/
def Reached (io : ShrinkIO) (max i : Nat) : Prop :=
  ∀ j < i, (io.chunk j).mmap = none ∧ ¬ (io.chunk j).Stops (chunkLen max j)

/-- Some reached chunk cannot be mapped. -/
def Unmapped (io : ShrinkIO) (max : Nat) : Prop :=
  ∃ i, i * kBigPerReadBytes < max ∧ io.Reached max i ∧ (io.chunk i).mmap ≠ none

/-- Every chunk is mapped and written to its end, and none but the last stops the copy. -/
def Saves (io : ShrinkIO) (max : Nat) : Prop :=
  ∀ i, i * kBigPerReadBytes < max → (io.chunk i).mmap = none ∧ Drains (io.chunk i).write (chunkLen max i) ∧
    (0 ≤ (io.chunk i).stale ∨ max ≤ (i + 1) * kBigPerReadBytes)

end ShrinkIO

theorem kBigPerReadBytes_eq : kBigPerReadBytes = 2 ^ 27 := by decide

/-- A multiple of the chunk size is page aligned. -/
theorem pageAlign_chunk {pageBits i : Nat} (hb : pageBits ≤ 27) (hi : i * kBigPerReadBytes < 2 ^ 64) :
    pageAlign pageBits (i * kBigPerReadBytes) = i * kBigPerReadBytes := by
  have hdvd : 2 ^ pageBits ∣ i * kBigPerReadBytes :=
    kBigPerReadBytes_eq ▸ (pow_dvd_pow 2 hb).mul_left i
  rw [pageAlign_eq pageBits hi, Nat.mod_eq_zero_of_dvd hdvd, Nat.sub_zero]

theorem chunkLen_pos {max i : Nat} (h : i * kBigPerReadBytes < max) : 0 < chunkLen max i := by
  have := kBigPerReadBytes_eq
  unfold chunkLen
  simp only [Nat.min_def]
  split <;> omega

theorem chunkLen_le (max i : Nat) : chunkLen max i ≤ kBigPerReadBytes := Nat.min_le_left _ _

/-- Where the copy stands after `k` chunks. -/
def copied (max k : Nat) : Nat := min (k * kBigPerReadBytes) max

theorem copied_succ {max k : Nat} (h : k * kBigPerReadBytes < max) :
    copied max (k + 1) = k * kBigPerReadBytes + chunkLen max k := by
  unfold copied chunkLen
  simp only [Nat.min_def, Nat.succ_mul]
  split <;> split <;> omega

theorem request_chunk {max k : Nat} (h : k * kBigPerReadBytes < max) :
    request (eachRead kBigPerReadBytes max) max (k * kBigPerReadBytes) = chunkLen max k := by
  have hk : 0 < kBigPerReadBytes := by decide
  have hm : ¬ kMaxFileRdMem < kBigPerReadBytes := by decide
  unfold eachRead
  rw [if_neg hk.ne', if_neg hm]
  unfold request chunkLen
  generalize kBigPerReadBytes = K at *
  simp only [Nat.min_def]
  rcases Nat.eq_zero_or_pos k with rfl | hpos
  · split_ifs <;> omega
  · have : K ≤ k * K := Nat.le_mul_of_pos_left _ hpos
    split_ifs <;> omega

section
variable {pf : Platform} {io : ShrinkIO} {log tmp : File} {dl dt : Ofd} {max : Nat} {w : World} {L : Str}

/-- One turn of the copy. -/
abbrev copyTurn (pf : Platform) (io : ShrinkIO) (log tmp : File) (dt : Ofd) (max : Nat) :
    Nat → Nat → St Copy → Turn (St Copy) :=
  traverseTurn log pf.pageBits (fun c => log.content c.world) (doWrite2Tmp tmp dt.name io.chunk)
    ⟨io.fstat, fun _ => log.view, fun k => (io.chunk k).mmap⟩ max (eachRead kBigPerReadBytes max)

/-- Chunk `k` of the log `L`. -/
def chunkOf (L : Str) (max k : Nat) : Str := (L.drop (k * kBigPerReadBytes)).take (chunkLen max k)

theorem chunkOf_length {k : Nat} (h : k * kBigPerReadBytes < max) (hL : max ≤ L.length) :
    (chunkOf L max k).length = chunkLen max k := by
  unfold chunkOf chunkLen
  simp only [List.length_take, List.length_drop, Nat.min_def]
  split <;> split <;> omega

/-- A page-aligned turn of `traverse` with nothing changed. -/
theorem traverseTurn_aligned {σ : Type*} (f : File) (pageBits max each k t len : Nat) (content : σ → Str)
    (didRead : σ → Str → Bool × σ) (io : TraverseIO) (s : St σ) (hv : io.view k = f.view)
    (hr : request each max t = len) (hp : pageAlign pageBits t = t) (hpos : 0 < len) (hlen : len % 2 ^ 32 = len) :
    (∀ e, io.mmap k = some e → ∃ s' : St σ, s'.user = s.user ∧
      traverseTurn f pageBits content didRead io max each k t s = .leave (sysCode .readError e) 0 s') ∧
    (io.mmap k = none → ∃ s' : St σ, s'.user = (didRead s.user (((content s.user).drop t).take len)).2 ∧
      traverseTurn f pageBits content didRead io max each k t s =
        if (didRead s.user (((content s.user).drop t).take len)).1 = true
        then .leave Errno.cancelled.code len s' else .move len s') := by
  have hfail : mmapFail (len + t - t) (io.mmap k) = io.mmap k := by
    unfold mmapFail
    rw [if_neg (by omega)]
  unfold traverseTurn
  rw [if_neg (not_not.2 hv)]
  simp only [hp, hr, hfail, hlen, St.log]
  constructor
  · intro e he
    rw [he]
    refine ⟨s.log (.map t t len (some e)), rfl, ?_⟩
    rfl
  · intro he
    rw [he]
    exact ⟨⟨_, _⟩, rfl, rfl⟩

/-- **A turn of the copy** hands chunk `k` to the callback, or stops at its `mmap`. -/
theorem copyTurn_eq {k : Nat} {s : St Copy} (hk : k * kBigPerReadBytes < max) (hmax : max < 2 ^ 31)
    (hL : log.content s.user.world = L) :
    (∀ e, (io.chunk k).mmap = some e → ∃ s' : St Copy, s'.user = s.user ∧
      copyTurn pf io log tmp dt max k (k * kBigPerReadBytes) s = .leave (sysCode .readError e) 0 s') ∧
    ((io.chunk k).mmap = none → ∃ s' : St Copy,
      s'.user = (doWrite2Tmp tmp dt.name io.chunk s.user (chunkOf L max k)).2 ∧
      copyTurn pf io log tmp dt max k (k * kBigPerReadBytes) s =
        if (doWrite2Tmp tmp dt.name io.chunk s.user (chunkOf L max k)).1 = true
        then .leave Errno.cancelled.code (chunkLen max k) s' else .move (chunkLen max k) s') := by
  have hlen : chunkLen max k % 2 ^ 32 = chunkLen max k := by
    have := chunkLen_le max k
    rw [kBigPerReadBytes_eq] at this
    omega
  have hpage : pageAlign pf.pageBits (k * kBigPerReadBytes) = k * kBigPerReadBytes :=
    pageAlign_chunk pf.pageBits_le (by omega)
  unfold chunkOf copyTurn
  subst hL
  exact traverseTurn_aligned log pf.pageBits max _ k _ _ (fun c : Copy => log.content c.world) _
    ⟨io.fstat, fun _ => log.view, fun k => (io.chunk k).mmap⟩ s rfl (request_chunk hk) hpage (chunkLen_pos hk) hlen

/-- What the copy has done after `k` chunks of the range of `max` bytes of `L`, started in `w`. -/
structure CopyInv (io : ShrinkIO) (dt : Ofd) (max : Nat) (L : Str) (w : World) (k : Nat) (c : Copy) : Prop where
  chunk : c.chunk = k
  frame : OnlyTmp dt.name w c.world
  node : (c.world.fs dt.name).node = (w.fs dt.name).node
  length_le : ((c.world.fs dt.name).data dt.gen).length ≤ copied max k
  saved : (∀ j < k, Drains (io.chunk j).write (chunkLen max j)) →
    (c.world.fs dt.name).data dt.gen = L.take (copied max k) ∧
      ∃ ws, c.world.calls = w.calls ++ ws ∧ ∀ call ∈ ws, ¬ call.failedWrite dt.name
  short : ¬ (∀ j < k, Drains (io.chunk j).write (chunkLen max j)) →
    ((c.world.fs dt.name).data dt.gen).length < copied max k

theorem CopyInv.start (hempty : (w.fs dt.name).data dt.gen = []) (code : Int) :
    CopyInv io dt max L w 0 ⟨w, code, 0⟩ where
  chunk := rfl
  frame := .refl _ w
  node := rfl
  length_le := by simp [hempty]
  saved := fun _ => ⟨by simp [hempty, copied], [], by simp, by simp⟩
  short := fun h => absurd (fun j hj => by omega) h

/-- **Step lemma of the copy**: one more chunk. -/
theorem CopyInv.step (ht : tmp.ofd = some dt) (hb : tmp.ioBusy = false) {k : Nat} {c : Copy}
    (hk : k * kBigPerReadBytes < max) (hL : max ≤ L.length) (h : CopyInv io dt max L w k c) :
    CopyInv io dt max L w (k + 1) (doWrite2Tmp tmp dt.name io.chunk c (chunkOf L max k)).2 ∧
      ((doWrite2Tmp tmp dt.name io.chunk c (chunkOf L max k)).1 = true ↔ (io.chunk k).Stops (chunkLen max k)) := by
  have hlen := chunkOf_length hk hL
  have hpos := chunkLen_pos hk
  have hbound : (chunkOf L max k).length ≤ kFileIoUpperBound := by
    have := chunkLen_le max k
    have : kBigPerReadBytes ≤ kFileIoUpperBound := by decide
    omega
  obtain ⟨n, cs, hle, hiff, hok, hstop, hchunk, hworld⟩ :=
    doWrite2Tmp_spec ht hb io.chunk c (by omega) hbound
  rw [h.chunk, hlen] at hiff hok hstop
  rw [hlen] at hle
  have honly : OnlyTmp dt.name c.world (doWrite2Tmp tmp dt.name io.chunk c (chunkOf L max k)).2.world := by
    refine doWrite2Tmp_onlyTmp ?_ io.chunk c _
    simp [ht]
  have hcop : copied max k = k * kBigPerReadBytes := Nat.min_eq_left hk.le
  have hsucc := copied_succ hk
  have htake : ((chunkOf L max k).take n).length = n := by simp only [List.length_take, hlen]; omega
  have hdata : ((doWrite2Tmp tmp dt.name io.chunk c (chunkOf L max k)).2.world.fs dt.name).data dt.gen =
      (c.world.fs dt.name).data dt.gen ++ (chunkOf L max k).take n := by
    rw [hworld]
    simp
  refine ⟨⟨by rw [hchunk, h.chunk], h.frame.trans honly, ?_, ?_, ?_, ?_⟩, hstop⟩
  · rw [hworld]
    simpa using h.node
  · have := h.length_le
    rw [hdata, List.length_append, htake]
    omega
  · intro hall
    have hn : n = chunkLen max k := hiff.2 (hall k (by omega))
    obtain ⟨hd, ws, hws, hwok⟩ := h.saved fun j hj => hall j (by omega)
    refine ⟨?_, ws ++ cs, ?_, ?_⟩
    · rw [hdata, hd, hn, hsucc, hcop, List.take_add, chunkOf, List.take_take, Nat.min_self]
    · rw [hworld]
      simp [hws]
    · intro call hm
      exact (List.mem_append.1 hm).elim (hwok call) (hok (hall k (by omega)) call)
  · intro hnot
    rw [hdata, List.length_append, htake]
    have hl := h.length_le
    rw [Nat.forall_lt_succ_right, not_and_or] at hnot
    rcases hnot with hall | hnk
    · have := h.short hall
      omega
    · have : n ≠ chunkLen max k := fun e => hnk (hiff.1 e)
      omega

theorem CopyInv.content (hl : log.ofd = some dl) (hne : dl.name ≠ dt.name) (hL : (w.fs dl.name).data dl.gen = L)
    {k : Nat}
    {c : Copy} (h : CopyInv io dt max L w k c) : log.content c.world = L := by
  unfold File.content
  rw [hl, Option.elim, h.frame.fs dl.name hne, hL]

/-- Where turn `k` of the copy starts. -/
theorem copy_pos (hl : log.ofd = some dl) (ht : tmp.ofd = some dt) (hb : tmp.ioBusy = false) (hne : dl.name ≠ dt.name)
    (hL : (w.fs dl.name).data dl.gen = L) (hempty : (w.fs dt.name).data dt.gen = []) (hmax : max < 2 ^ 31)
    (hpos : 0 < max) (hle : max ≤ L.length) (code : Int) : ∀ k,
    Pending (copyTurn pf io log tmp dt max) max ⟨⟨w, code, 0⟩, []⟩ k →
    (pos (copyTurn pf io log tmp dt max) ⟨⟨w, code, 0⟩, []⟩ k).1 = k * kBigPerReadBytes ∧ k * kBigPerReadBytes < max ∧
      CopyInv io dt max L w k (pos (copyTurn pf io log tmp dt max) ⟨⟨w, code, 0⟩, []⟩ k).2.user ∧ io.Reached max k := by
  refine pos_inv (fun k t (s : St Copy) => t = k * kBigPerReadBytes ∧ k * kBigPerReadBytes < max ∧
    CopyInv io dt max L w k s.user ∧ io.Reached max k) ?_ ?_
  · exact ⟨by simp, by simpa using hpos, .start hempty code, fun j hj => absurd hj (by omega)⟩
  · rintro k t s n s' ⟨rfl, hk, hinv, hreach⟩ hturn hn hlt
    obtain ⟨hfail, hmap⟩ := @copyTurn_eq pf io log tmp dt max L k s hk hmax (hinv.content hl hne hL)
    obtain ⟨hinv', hstop⟩ := hinv.step ht hb hk hle
    cases hm : (io.chunk k).mmap with
    | some e =>
      obtain ⟨s'', -, h⟩ := hfail e hm
      rw [hturn] at h
      cases h
    | none =>
      obtain ⟨s'', hu, h⟩ := hmap hm
      rw [hturn] at h
      split at h
      · cases h
      · rename_i hns
        cases h
        have hsucc := copied_succ hk
        unfold copied at hsucc
        have hnext : k * kBigPerReadBytes + chunkLen max k = (k + 1) * kBigPerReadBytes := by
          simp only [Nat.min_def] at hsucc
          split at hsucc <;> omega
        refine ⟨hnext, by omega, hu ▸ hinv', fun j hj => ?_⟩
        rcases Nat.lt_succ_iff_lt_or_eq.1 hj with hj | rfl
        · exact hreach j hj
        · exact ⟨hm, fun h => hns (hstop.2 h)⟩

/-- How the copy of `max` bytes of `L` to the file behind `dt` ends. -/
inductive Copied (io : ShrinkIO) (dt : Ofd) (max : Nat) (L : Str) (w w' : World) (c : Int) : Prop
  | unmapped : io.Unmapped max → c < 0 → Copied io dt max L w w' c
  | saved : ¬ io.Unmapped max → io.Saves max → 0 ≤ c → (w'.fs dt.name).data dt.gen = L.take max →
      (∃ ws, w'.calls = w.calls ++ ws ∧ ∀ call ∈ ws, ¬ call.failedWrite dt.name) → Copied io dt max L w w' c
  | short : ¬ io.Unmapped max → ¬ io.Saves max → 0 ≤ c → ((w'.fs dt.name).data dt.gen).length < max →
      Copied io dt max L w w' c

section
variable {w' : World} {c : Int} (h : Copied io dt max L w w' c)
include h

theorem Copied.unmapped_of_neg (hc : ¬ 0 ≤ c) : io.Unmapped max := by
  cases h with
  | unmapped hu _ => exact hu
  | saved _ _ hc' _ _ => exact absurd hc' hc
  | short _ _ hc' _ => exact absurd hc' hc

theorem Copied.mapped (hc : 0 ≤ c) : ¬ io.Unmapped max := by
  cases h with
  | unmapped _ hneg => omega
  | saved hu _ _ _ _ => exact hu
  | short hu _ _ _ => exact hu

theorem Copied.whole (hc : 0 ≤ c) (hsaves : io.Saves max) : (w'.fs dt.name).data dt.gen = L.take max ∧
    ∃ ws, w'.calls = w.calls ++ ws ∧ ∀ call ∈ ws, ¬ call.failedWrite dt.name := by
  cases h with
  | unmapped _ hneg => omega
  | saved _ _ _ hdata hcalls => exact ⟨hdata, hcalls⟩
  | short _ hnot _ _ => exact absurd hsaves hnot

theorem Copied.cut (hc : 0 ≤ c) (hsaves : ¬ io.Saves max) : ((w'.fs dt.name).data dt.gen).length < max := by
  cases h with
  | unmapped _ hneg => omega
  | saved _ hs _ _ _ => exact absurd hs hsaves
  | short _ _ _ hlt => exact hlt

end

/-- The chunk a copy stops after is mapped, so nothing reached is unmapped. -/
theorem not_unmapped {k : Nat} (hreach : io.Reached max k) (hm : (io.chunk k).mmap = none)
    (hlast : (io.chunk k).Stops (chunkLen max k) ∨ max ≤ (k + 1) * kBigPerReadBytes) : ¬ io.Unmapped max := by
  rintro ⟨i, hi, hri, hmi⟩
  rcases Nat.lt_trichotomy i k with h | rfl | h
  · exact hmi (hreach i h).1
  · exact hmi hm
  · rcases hlast with hs | hl
    · exact (hri k h).2 hs
    · have : (k + 1) * kBigPerReadBytes ≤ i * kBigPerReadBytes := Nat.mul_le_mul_right _ h
      omega

/-- A copy that ends after chunk `k` with a code that is not negative. -/
theorem copied_of_last {k : Nat} {c : Int} {u : Copy} (hk : k * kBigPerReadBytes < max) (hreach : io.Reached max k)
    (hm : (io.chunk k).mmap = none) (hinv : CopyInv io dt max L w (k + 1) u) (hc : 0 ≤ c)
    (hlast : (io.chunk k).Stops (chunkLen max k) ∨ max ≤ (k + 1) * kBigPerReadBytes) :
    Copied io dt max L w u.world c := by
  have hun := not_unmapped hreach hm hlast
  by_cases hend : max ≤ (k + 1) * kBigPerReadBytes
  · have hcop : copied max (k + 1) = max := Nat.min_eq_right hend
    by_cases hall : ∀ j < k + 1, Drains (io.chunk j).write (chunkLen max j)
    · obtain ⟨hd, hws⟩ := hinv.saved hall
      rw [hcop] at hd
      refine .saved hun ?_ hc hd hws
      intro i hi
      have hik : i ≤ k := by
        by_contra hlt
        have : (k + 1) * kBigPerReadBytes ≤ i * kBigPerReadBytes := Nat.mul_le_mul_right _ (by omega)
        omega
      rcases Nat.lt_or_eq_of_le hik with h | rfl
      · obtain ⟨hmi, hsi⟩ := hreach i h
        refine ⟨hmi, hall i (by omega), .inl ?_⟩
        by_contra hneg
        exact hsi (.inr ⟨hall i (by omega), by omega⟩)
      · exact ⟨hm, hall i (by omega), .inr hend⟩
    · have hs := hinv.short hall
      rw [hcop] at hs
      refine .short hun (fun hsave => hall fun j hj => ?_) hc hs
      have hjk : j * kBigPerReadBytes ≤ k * kBigPerReadBytes := Nat.mul_le_mul_right _ (by omega)
      exact (hsave j (by omega)).2.1
  · have hstop := hlast.resolve_right hend
    refine .short hun (fun hsave => ?_) hc ?_
    · obtain ⟨-, hd, hstale⟩ := hsave k hk
      rcases hstop with hf | ⟨-, hneg⟩
      · exact not_fails_of_drains hd hf
      · rcases hstale with h | h
        · omega
        · exact hend h
    · have hle := hinv.length_le
      unfold copied at hle
      rw [Nat.min_eq_left (by omega)] at hle
      omega

/-- A copy whose `fstat` answers is the loop of `traverse` over the log's content. -/
theorem copyFile_loop (hl : log.ofd = some dl) (hlb : log.ioBusy = false) (hL : (w.fs dl.name).data dl.gen = L)
    (hfstat : io.fstat = none) (M : Nat) (code : Int) :
    copyFile pf io log tmp dt.name M code w =
      .ofLoop (loop (copyTurn pf io log tmp dt (min M L.length)) (min M L.length) (some 0) 0 0 ⟨⟨w, code, 0⟩, []⟩) := by
  have hfd : ¬ log.fd < 0 := by simp [File.fd, hl]
  have hcont : log.content w = L := by simp [File.content, hl, hL]
  have hmaxr : maxRead (M : Int) L.length = min M L.length := by
    unfold maxRead
    simp only [Int.toNat_natCast]
    split <;> omega
  unfold copyFile traverse
  rw [hlb, if_neg Bool.false_ne_true, if_neg hfd]
  dsimp only
  rw [hcont, hmaxr]
  split
  · rename_i e he
    rw [hfstat] at he
    cases he
  · rfl

/-- The turn that ends the loop of a copy: its chunk cannot be mapped, or is the last one written. -/
theorem ends_copied (hl : log.ofd = some dl) (ht : tmp.ofd = some dt) (hb : tmp.ioBusy = false)
    (hne : dl.name ≠ dt.name)
    (hL : (w.fs dl.name).data dl.gen = L) (hmax : max < 2 ^ 31) (hle : max ≤ L.length) {k : Nat} {s : St Copy}
    {r : Result (St Copy)} (hk : k * kBigPerReadBytes < max) (hinv : CopyInv io dt max L w k s.user)
    (hreach : io.Reached max k)
    (he : Ends (copyTurn pf io log tmp dt max) max (some 0) k (k * kBigPerReadBytes) s r) :
    ∃ c, r.ret = some c ∧ (r.st.user.world.fs dt.name).node = (w.fs dt.name).node ∧
      Copied io dt max L w r.st.user.world c := by
  obtain ⟨hfail, hmap⟩ := @copyTurn_eq pf io log tmp dt max L k s hk hmax (hinv.content hl hne hL)
  obtain ⟨hinv', hstop⟩ := hinv.step ht hb hk hle
  cases hm : (io.chunk k).mmap with
  | some e =>
    obtain ⟨s', hu, h⟩ := hfail e hm
    cases he with
    | left h' =>
      obtain ⟨rfl, rfl, rfl⟩ := Turn.leave.inj (h.symm.trans h')
      refine ⟨_, rfl, ?_, .unmapped ⟨k, hk, hreach, by simp [hm]⟩ (readError_neg e)⟩
      rw [hu, hinv.node]
    | dry h' => rw [h] at h'; cases h'
    | full h' => rw [h] at h'; cases h'
  | none =>
    obtain ⟨s', hu, h⟩ := hmap hm
    have hnode : (s'.user.world.fs dt.name).node = (w.fs dt.name).node := hu ▸ hinv'.node
    rw [← hu] at hinv'
    cases he with
    | left h' =>
      rw [h] at h'
      split at h'
      · rename_i hs
        obtain ⟨rfl, rfl, rfl⟩ := Turn.leave.inj h'
        exact ⟨_, rfl, hnode, copied_of_last hk hreach hm hinv' cancelled_pos.le (.inl (hstop.1 hs))⟩
      · cases h'
    | dry h' =>
      rw [h] at h'
      split at h'
      · cases h'
      · have := chunkLen_pos hk
        have := (Turn.move.inj h').1
        omega
    | full h' hn hge =>
      rw [h] at h'
      split at h'
      · cases h'
      · obtain ⟨rfl, rfl⟩ := Turn.move.inj h'
        have hsucc := copied_succ hk
        have hend : max ≤ (k + 1) * kBigPerReadBytes := by
          have : copied max (k + 1) ≤ (k + 1) * kBigPerReadBytes := Nat.min_le_left _ _
          omega
        exact ⟨0, rfl, hnode, copied_of_last hk hreach hm hinv' le_rfl (.inr hend)⟩

/-- **The copy** of the first `min M size` bytes of the log `L`. -/
theorem copy_spec (hl : log.ofd = some dl) (hlb : log.ioBusy = false) (ht : tmp.ofd = some dt) (hb : tmp.ioBusy = false)
    (hne : dl.name ≠ dt.name) (hL : (w.fs dl.name).data dl.gen = L) (hempty : (w.fs dt.name).data dt.gen = [])
    (hfstat : io.fstat = none) {M : Nat} (hM : M < 2 ^ 31) (hpos : 0 < min M L.length) (code : Int) :
    ∃ c, (copyFile pf io log tmp dt.name M code w).ret = some c ∧
      ((copyFile pf io log tmp dt.name M code w).st.world.fs dt.name).node = (w.fs dt.name).node ∧
      Copied io dt (min M L.length) L w (copyFile pf io log tmp dt.name M code w).st.world c := by
  rw [copyFile_loop hl hlb hL hfstat M code]
  generalize hmx : min M L.length = max at hpos ⊢
  have hmax : max < 2 ^ 31 := by omega
  have hle : max ≤ L.length := by omega
  obtain ⟨k, hp, he⟩ := loop_ends (copyTurn pf io log tmp dt max) max (some 0) ⟨⟨w, code, 0⟩, []⟩
  obtain ⟨ht0, hk, hinv, hreach⟩ := copy_pos hl ht hb hne hL hempty hmax hpos hle code k hp
  rw [ht0] at he
  exact ends_copied hl ht hb hne hL hmax hle hk hinv hreach he

end

end CtiLog
