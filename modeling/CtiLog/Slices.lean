import CtiLog.Transfer
/-
# What `traverse` hands out

Every chunk is mapped from the page boundary below its offset, and the callback is given the start
of the mapping. So chunk `k` is the one it should be when `k * eachRead` is a page boundary, or when
the file happens to repeat itself there; the chunks that are handed out depend in turn on what the
callback was given before.

* `fed`, `Handed` — the user's state after `k` slices, and the iterations that hand one out.
* `traverse_slices` — the slices are `mapped 0`, `mapped 1`, …, as many as are handed out.
* `traverse_exact_iff` — they are the bytes of the file iff every chunk that is handed out fits.
-/

namespace CtiLog

open Chunks

/-! ## The slices of a call -/

/-- What a chunk of `traverse` is meant to be, and what it is: from the page boundary on. -/
def chunkAt (content : Str) (max each k : Nat) : Str := (content.drop (k * each)).take (request each max (k * each))

def mappedAt (pageBits : Nat) (content : Str) (max each k : Nat) : Str :=
  (content.drop (k * each - k * each % 2 ^ pageBits)).take (request each max (k * each))

section
variable {σ : Type*}

/-- The user's state once the callback was given `slices 0, …, slices (k - 1)`. -/
def fed (didRead : σ → Str → Bool × σ) (slices : Nat → Str) (st : σ) : Nat → σ
  | 0 => st
  | k + 1 => (didRead (fed didRead slices st k) (slices k)).2

/-- Iteration `k` hands a slice out: the range is not complete, the file did not change, and the
callback, given `slices`, has not asked to stop. -/
def Handed (f : File) (io : TraverseIO) (didRead : σ → Str → Bool × σ) (slices : Nat → Str) (max each : Nat) (st : σ)
    (k : Nat) : Prop :=
  k * each < max ∧ (∀ j ≤ k, io.view j = f.view) ∧
    ∀ j < k, (didRead (fed didRead slices st j) (slices j)).1 = false

/-- Every slice is the piece of the file after the slices before it. -/
structure HandsOut (content : Str) (o : Outcome (σ × List Str)) : Prop where
  slice : ∀ pre s post, o.st.2 = pre ++ s :: post → s = (content.drop pre.flatten.length).take s.length
  all : o.st.2.flatten = content.take o.total

variable {f : File} {pageBits : Nat} {content : Str} {didRead : σ → Str → Bool × σ} {io : TraverseIO}
variable {max each k : Nat} {st : σ}

theorem chunkAt_length (hmax : max ≤ content.length) :
    (chunkAt content max each k).length = request each max (k * each) := by
  have := request_le each max (k * each)
  simp only [chunkAt, List.length_take, List.length_drop]
  omega

theorem mappedAt_length (hmax : max ≤ content.length) :
    (mappedAt pageBits content max each k).length = request each max (k * each) := by
  have := request_le each max (k * each)
  simp only [mappedAt, List.length_take, List.length_drop]
  omega

/-- The bytes of `m` chunks. -/
theorem flatten_chunkAt (content : Str) (max each m : Nat) :
    ((List.range m).map (chunkAt content max each)).flatten = content.take (min (m * each) max) := by
  induction m with
  | zero => simp
  | succ m ih =>
    rw [List.range_succ, List.map_append, List.flatten_append, ih]
    simp only [List.map_cons, List.map_nil, List.flatten_cons, List.flatten_nil, List.append_nil, chunkAt]
    have hsucc : (m + 1) * each = m * each + each := Nat.succ_mul m each
    rcases Nat.lt_or_ge (m * each) max with h | h
    · have hreq : min ((m + 1) * each) max = m * each + request each max (m * each) := by
        unfold request
        split <;> omega
      rw [hreq, Nat.min_eq_left h.le, List.take_add]
    · have hreq : request each max (m * each) = 0 := by have := request_le each max (m * each); omega
      rw [hreq, List.take_zero, List.append_nil, Nat.min_eq_right h, Nat.min_eq_right (by omega)]

/-- The same slices leave the user's state the same. -/
theorem fed_congr {a b : Nat → Str} (h : ∀ j < k, a j = b j) : ∀ i ≤ k, fed didRead a st i = fed didRead b st i
  | 0, _ => rfl
  | i + 1, hi => by
    rw [fed, fed, fed_congr h i (by omega), h i (by omega)]

theorem Handed.congr {a b : Nat → Str} (h : ∀ j < k, a j = b j) (hk : Handed f io didRead a max each st k) :
    Handed f io didRead b max each st k := by
  refine ⟨hk.1, hk.2.1, fun j hj => ?_⟩
  rw [← fed_congr h j hj.le, ← h j hj]
  exact hk.2.2 j hj

theorem Handed.earlier {a : Nat → Str} {j : Nat} (hk : Handed f io didRead a max each st k) (hj : j ≤ k) :
    Handed f io didRead a max each st j :=
  ⟨(Nat.mul_le_mul_right each hj).trans_lt hk.1, fun i hi => hk.2.1 i (hi.trans hj), fun i hi => hk.2.2 i (by omega)⟩

/-! ## The loop -/

/-- Every `mmap` of a chunk succeeds, and no size overflows. -/
structure Mappable (io : TraverseIO) (max each : Nat) : Prop where
  each_pos : 0 < max → 0 < each
  each_lt : each < 2 ^ 32
  max_lt : max < 2 ^ 64
  mmap : ∀ k, io.mmap k = none

/-- Where iteration `k` starts: after `k` whole chunks. -/
structure AtChunk (f : File) (io : TraverseIO) (didRead : σ → Str → Bool × σ) (slices : Nat → Str) (max each : Nat)
    (st : σ) (k t : Nat) (s : St (σ × List Str)) : Prop where
  pos : t = k * each
  lt : k * each < max
  user : s.user = (fed didRead slices st k, (List.range k).map slices)
  views : ∀ j < k, io.view j = f.view
  goes : ∀ j < k, (didRead (fed didRead slices st j) (slices j)).1 = false

theorem AtChunk.handed {slices : Nat → Str} {t : Nat} {s : St (σ × List Str)}
    (h : AtChunk f io didRead slices max each st k t s) {j : Nat} (hj : j < k) :
    Handed f io didRead slices max each st j :=
  ⟨(Nat.mul_le_mul_right each hj.le).trans_lt h.lt, fun i hi => h.views i (by omega), fun i hi => h.goes i (by omega)⟩

section
variable (f) (pageBits) (content) (didRead)

/-- A turn with nothing changed maps the chunk and hands it to the callback. -/
theorem traverseTurn_maps (hio : Mappable io max each) (hv : io.view k = f.view) (hk : k * each < max)
    (s : St (σ × List Str)) :
    let slice := mappedAt pageBits content max each k
    let answer := didRead s.user.1 slice
    ∃ s' : St (σ × List Str), s'.user = (answer.2, s.user.2 ++ [slice]) ∧
      traverseTurn f pageBits (fun _ => content) (record didRead) io max each k (k * each) s =
        if answer.1 = true then .leave Errno.cancelled.code (request each max (k * each)) s'
        else .move (request each max (k * each)) s' := by
  have hpos : 0 < request each max (k * each) := request_pos hio.each_pos hk
  have hle := request_le_each each max (k * each)
  have hword := hio.each_lt
  have hmax := hio.max_lt
  have hfail : ∀ p, p ≤ k * each → mmapFail (request each max (k * each) + k * each - p) (io.mmap k) = none := by
    intro p hp
    rw [mmapFail, if_neg (by omega), hio.mmap]
  unfold traverseTurn
  rw [if_neg (not_not.2 hv)]
  dsimp only
  rw [pageAlign_eq pageBits (by omega), hfail _ (by omega),
    Nat.mod_eq_of_lt (show request each max (k * each) < 2 ^ 32 by omega)]
  exact ⟨_, rfl, rfl⟩

theorem atChunk_of_pending (hio : Mappable io max each) (hpos : 0 < max) : ∀ k,
    let turn := traverseTurn f pageBits (fun _ => content) (record didRead) io max each
    Pending turn max ⟨(st, []), []⟩ k →
      AtChunk f io didRead (mappedAt pageBits content max each) max each st k (pos turn ⟨(st, []), []⟩ k).1
        (pos turn ⟨(st, []), []⟩ k).2 := by
  refine pos_inv (AtChunk f io didRead (mappedAt pageBits content max each) max each st) ?_ ?_
  · exact ⟨by omega, by omega, rfl, fun j hj => by omega, fun j hj => by omega⟩
  · intro k t s n s' h ht hn hlt
    obtain rfl := h.pos
    have hv : io.view k = f.view := by
      by_contra hv
      unfold traverseTurn at ht
      rw [if_pos hv] at ht
      cases ht
    obtain ⟨s'', hu, hturn⟩ := traverseTurn_maps f pageBits content didRead hio hv h.lt s
    rw [hturn] at ht
    split at ht
    · cases ht
    · rename_i hgo
      obtain ⟨rfl, rfl⟩ := Turn.move.inj ht
      rw [h.user] at hu hgo
      have heach : request each max (k * each) = each := by
        unfold request at hlt ⊢
        split at hlt <;> rename_i hle
        · rw [if_pos hle]
        · omega
      have hsucc : (k + 1) * each = k * each + each := Nat.succ_mul k each
      refine ⟨by omega, by omega, ?_, fun j hj => ?_, fun j hj => ?_⟩
      · rw [hu, List.range_succ, List.map_append]
        rfl
      · rcases Nat.lt_succ_iff_lt_or_eq.1 hj with hj | rfl
        · exact h.views j hj
        · exact hv
      · rcases Nat.lt_succ_iff_lt_or_eq.1 hj with hj | rfl
        · exact h.goes j hj
        · simpa using hgo

/-- The turn that meets a changed file. -/
theorem traverseTurn_changed (max each : Nat) (hv : io.view k ≠ f.view) (t : Nat) (s : St (σ × List Str)) :
    traverseTurn f pageBits (fun _ => content) (record didRead) io max each k t s =
      .leave (-Errno.fileChanged.code) 0 (s.log .changed) := by
  unfold traverseTurn
  rw [if_pos hv]

/-- An empty range is not even mapped: its first turn leaves. -/
theorem traverseTurn_empty (io : TraverseIO) (each : Nat) (s : St (σ × List Str)) :
    ∃ r s', s'.user = s.user ∧
      traverseTurn f pageBits (fun _ => content) (record didRead) io 0 each 0 0 s = .leave r 0 s' := by
  by_cases hv : io.view 0 = f.view
  · have hreq : request each 0 0 = 0 := by have := request_le each 0 0; omega
    unfold traverseTurn
    rw [if_neg (not_not.2 hv)]
    dsimp only
    rw [hreq, mmapFail, if_pos (by omega)]
    exact ⟨_, s.log _, rfl, rfl⟩
  · exact ⟨_, s.log _, rfl, traverseTurn_changed f pageBits content didRead 0 each hv 0 s⟩

/-- A loop that has handed out the chunks below `m`, and no other one. -/
structure EndedAfter (f : File) (io : TraverseIO) (didRead : σ → Str → Bool × σ) (slices : Nat → Str) (max each : Nat)
    (st : σ) (r : Result (St (σ × List Str))) (m : Nat) : Prop where
  handed : ∀ k, Handed f io didRead slices max each st k ↔ k < m
  slices : r.st.user.2 = (List.range m).map slices
  total : r.total = min (m * each) max

/-- Chunk `k` is handed out by the last turn. -/
theorem ended_mapped (hio : Mappable io max each) {s : St (σ × List Str)} {r : Result (St (σ × List Str))}
    (hk : AtChunk f io didRead (mappedAt pageBits content max each) max each st k (k * each) s)
    (hv : io.view k = f.view)
    (he : Ends (traverseTurn f pageBits (fun _ => content) (record didRead) io max each) max (some 0) k (k * each) s r) :
    EndedAfter f io didRead (mappedAt pageBits content max each) max each st r (k + 1) := by
  have hlt := hk.lt
  obtain ⟨s', hu, hturn⟩ := traverseTurn_maps f pageBits content didRead hio hv hlt s
  rw [hk.user] at hu hturn
  have hhere : Handed f io didRead (mappedAt pageBits content max each) max each st k := by
    refine ⟨hlt, fun i hi => ?_, hk.goes⟩
    rcases Nat.lt_or_eq_of_le hi with hi | rfl
    · exact hk.views i hi
    · exact hv
  have hsucc : (k + 1) * each = k * each + each := Nat.succ_mul k each
  have htotal : k * each + request each max (k * each) = min ((k + 1) * each) max := by
    unfold request; split <;> omega
  have hslices : s'.user.2 = (List.range (k + 1)).map (mappedAt pageBits content max each) := by
    rw [hu, List.range_succ, List.map_append]
    rfl
  -- a later chunk would be the next turn
  have hlast : ∀ j, Handed f io didRead (mappedAt pageBits content max each) max each st j → j < k + 1 := by
    intro j hj
    by_contra hkj
    have hle : (k + 1) * each ≤ j * each := Nat.mul_le_mul_right each (by omega)
    have hjlt := hle.trans_lt hj.1
    have hreq : request each max (k * each) = each := if_pos (by omega)
    rw [hj.2.2 k (by omega), if_neg Bool.false_ne_true, hreq] at hturn
    have hmoves : Moves _ max k (k * each) s := ⟨each, s', hturn, (hio.each_pos (by omega)).ne', by omega⟩
    exact hmoves.not_ends he
  refine ⟨fun j => ⟨hlast j, fun hj => ?_⟩, ?_, ?_⟩
  · exact hhere.earlier (by omega)
  all_goals
    split at hturn
    · cases he with
      | left h => rw [hturn] at h; cases h; assumption
      | dry h => rw [hturn] at h; cases h
      | full h => rw [hturn] at h; cases h
    · cases he with
      | left h => rw [hturn] at h; cases h
      | dry h =>
        obtain ⟨hreq, rfl⟩ := Turn.move.inj (hturn.symm.trans h)
        rw [hreq] at htotal
        assumption
      | full h =>
        obtain ⟨rfl, rfl⟩ := Turn.move.inj (hturn.symm.trans h)
        assumption

/-- The last turn leaves before it hands anything out. -/
theorem ended_changed {s : St (σ × List Str)} {r : Result (St (σ × List Str))}
    (hk : AtChunk f io didRead (mappedAt pageBits content max each) max each st k (k * each) s)
    (hv : io.view k ≠ f.view)
    (he : Ends (traverseTurn f pageBits (fun _ => content) (record didRead) io max each) max (some 0) k (k * each) s r) :
    EndedAfter f io didRead (mappedAt pageBits content max each) max each st r k := by
  have hlt := hk.lt
  have hturn := traverseTurn_changed f pageBits content didRead max each hv (k * each) s
  have hlast : ∀ j, Handed f io didRead (mappedAt pageBits content max each) max each st j → j < k := by
    intro j hj
    by_contra hkj
    exact hv (hj.2.1 k (by omega))
  cases he with
  | left h =>
    rw [hturn] at h
    cases h
    exact ⟨fun j => ⟨hlast j, hk.handed⟩, congrArg Prod.snd hk.user, by dsimp only; omega⟩
  | dry h => rw [hturn] at h; cases h
  | full h => rw [hturn] at h; cases h

/-- **The slices of one loop** are the mapped chunks, as many as are handed out. -/
theorem traverse_slices (hio : Mappable io max each) (st : σ) :
    ∃ m, EndedAfter f io didRead (mappedAt pageBits content max each) max each st
      (loop (traverseTurn f pageBits (fun _ => content) (record didRead) io max each) max (some 0) 0 0 ⟨(st, []), []⟩)
      m := by
  rcases Nat.eq_zero_or_pos max with rfl | hpos
  · obtain ⟨r, s', hu, hturn⟩ := traverseTurn_empty f pageBits content didRead io each ⟨(st, []), []⟩
    rw [loop_of_ends_here (.left hturn)]
    refine ⟨0, fun k => ⟨fun h => absurd h.1 (by omega), fun h => absurd h (by omega)⟩, ?_, ?_⟩
    · simp [hu]
    · simp
  obtain ⟨k, hp, he⟩ := loop_ends (traverseTurn f pageBits (fun _ => content) (record didRead) io max each) max (some 0)
    ⟨(st, []), []⟩
  have hk := atChunk_of_pending f pageBits content didRead hio hpos k hp
  have hstart := hk.pos
  rw [hstart] at hk he
  by_cases hv : io.view k = f.view
  · exact ⟨k + 1, ended_mapped f pageBits content didRead hio hk hv he⟩
  · exact ⟨k, ended_changed f pageBits content didRead hk hv he⟩

end

/-! ## When the slices are the file -/

/-- The file repeats itself: the `n` bytes from `off` on are those from the page boundary below. -/
def Repeats (pageBits : Nat) (content : Str) (off n : Nat) : Prop :=
  ∀ i < n, content[off + i]? = content[off - off % 2 ^ pageBits + i]?

/-- At a page boundary nothing needs to repeat. -/
theorem repeats_of_dvd {off n : Nat} (h : 2 ^ pageBits ∣ off) : Repeats pageBits content off n := by
  intro i _
  rw [Nat.mod_eq_zero_of_dvd h, Nat.sub_zero]

theorem repeats_iff : Repeats pageBits content (k * each) (request each max (k * each)) ↔
    mappedAt pageBits content max each k = chunkAt content max each k := by
  unfold Repeats mappedAt chunkAt
  constructor
  · intro h
    apply List.ext_getElem?
    intro i
    by_cases hi : i < request each max (k * each)
    · simp [hi, h i hi]
    · simp [hi]
  · intro h i hi
    have hgot := congrArg (fun l : Str => l[i]?) h
    simpa [List.getElem?_take, hi] using hgot.symm

/-- A list of slices that fills a prefix has every slice in its place. -/
theorem slice_of_all {gs : List Str} {n : Nat} (h : gs.flatten = content.take n) (pre : List Str) (s : Str)
    (post : List Str) (hgs : gs = pre ++ s :: post) : s = (content.drop pre.flatten.length).take s.length := by
  have hprefix : pre.flatten ++ s <+: content := by
    refine List.IsPrefix.trans ⟨post.flatten, ?_⟩ (List.take_prefix n content)
    rw [← h, hgs]
    simp
  obtain ⟨rest, hrest⟩ := hprefix
  rw [← hrest]
  simp

theorem handsOut_iff {o : Outcome (σ × List Str)} {m : Nat} (hmax : max ≤ content.length)
    (hm : ∀ k, Handed f io didRead (mappedAt pageBits content max each) max each st k ↔ k < m)
    (hslices : o.st.2 = (List.range m).map (mappedAt pageBits content max each))
    (htotal : o.total = min (m * each) max) :
    HandsOut content o ↔ ∀ k < m, mappedAt pageBits content max each k = chunkAt content max each k := by
  constructor
  · intro h k hk
    obtain ⟨d, rfl⟩ : ∃ d, m = k + 1 + d := ⟨m - (k + 1), by omega⟩
    have hslice := h.slice ((List.range k).map (mappedAt pageBits content max each))
      (mappedAt pageBits content max each k)
      (((List.range d).map (k + 1 + ·)).map (mappedAt pageBits content max each))
      (by rw [hslices, List.range_add, List.range_succ]; simp)
    -- the slices before it have the lengths of the chunks before it
    have hlen : ((List.range k).map (mappedAt pageBits content max each)).flatten.length = k * each := by
      have hlt := ((hm k).2 hk).1
      have hchunks := congrArg List.length (flatten_chunkAt content max each k)
      simp only [List.length_flatten, List.map_map, Function.comp_def, mappedAt_length hmax, chunkAt_length hmax,
        List.length_take] at hchunks ⊢
      rw [hchunks]
      omega
    rw [hlen, mappedAt_length hmax] at hslice
    exact hslice
  · intro h
    have hsame : o.st.2 = (List.range m).map (chunkAt content max each) := by
      rw [hslices]
      exact List.map_congr_left fun k hk => h k (List.mem_range.1 hk)
    have hall : o.st.2.flatten = content.take o.total := by rw [hsame, flatten_chunkAt, htotal]
    exact ⟨fun pre s post hgs => slice_of_all hall pre s post hgs, hall⟩

/-- Whether the callback is imagined to be given the chunks of the file or what is mapped makes no
difference to the first chunk that does not fit. -/
theorem all_fit_iff {m : Nat} (hm : ∀ k, Handed f io didRead (mappedAt pageBits content max each) max each st k ↔ k < m) :
    (∀ k < m, mappedAt pageBits content max each k = chunkAt content max each k) ↔
      ∀ k, Handed f io didRead (chunkAt content max each) max each st k →
        mappedAt pageBits content max each k = chunkAt content max each k := by
  constructor
  · intro h k hk
    have hlt : ∀ j ≤ k, j < m := by
      intro j
      induction j using Nat.strong_induction_on with
      | _ j ih =>
        intro hj
        exact (hm j).1 ((hk.earlier hj).congr fun i hi => (h i (ih i hi (by omega))).symm)
    exact h k (hlt k le_rfl)
  · intro h k
    induction k using Nat.strong_induction_on with
    | _ k ih =>
      intro hk
      exact h k (((hm k).2 hk).congr fun j hj => ih j hj (by omega))

/-- The call is turned away, or every chunk that is handed out, as long as the callback is given the
bytes of the file, starts at a page boundary or repeats the bytes that follow that boundary. -/
def PagesFit (f : File) (pageBits : Nat) (content : Str) (didRead : σ → Str → Bool × σ) (eachRead0 : Nat) (limit : Int)
    (io : TraverseIO) (st : σ) : Prop :=
  f.ioBusy = true ∨ f.fd < 0 ∨ io.fstat ≠ none ∨
    let max := maxRead limit content.length
    let each := eachRead eachRead0 max
    ∀ k, Handed f io didRead (chunkAt content max each) max each st k →
      2 ^ pageBits ∣ k * each ∨ Repeats pageBits content (k * each) (request each max (k * each))

theorem handsOut_early (ret : Int) (e : Event) : HandsOut content (Outcome.early ret (st, []) e) where
  slice := by simp [Outcome.early]
  all := by simp [Outcome.early]

theorem eachRead_lt {eachRead0 : Nat} (h0 : 0 < eachRead0) (h : eachRead0 < 2 ^ 32) (max : Nat) :
    eachRead eachRead0 max < 2 ^ 32 := by
  have hle : eachRead eachRead0 max ≤ eachRead0 := by
    unfold eachRead
    dsimp only
    rw [if_neg (show ¬ eachRead0 = 0 by omega)]
    split_ifs <;> omega
  omega

/-- **`traverse` hands out the bytes of the file iff every chunk fits its page.** -/
theorem traverse_exact_iff (f : File) (pageBits : Nat) (content : Str) (didRead : σ → Str → Bool × σ) (eachRead0 : Nat)
    (limit : Int) (io : TraverseIO) (st : σ) (h0 : 0 < eachRead0) (h32 : eachRead0 < 2 ^ 32)
    (hsize : content.length < 2 ^ 63) (hmap : ∀ k, io.mmap k = none) :
    HandsOut content (traverse f pageBits (fun _ => content) (record didRead) eachRead0 limit io (st, [])) ↔
      PagesFit f pageBits content didRead eachRead0 limit io st := by
  unfold traverse PagesFit
  by_cases hb : f.ioBusy = true
  · simpa [hb] using handsOut_early _ _
  by_cases hf : f.fd < 0
  · simpa [hb, hf] using handsOut_early _ _
  cases hs : io.fstat with
  | some e => simpa [hb, hf] using handsOut_early _ _
  | none =>
    simp only [hb, hf, Bool.false_eq_true, if_false, ne_eq, not_true_eq_false, false_or]
    have hmax := maxRead_le limit content.length
    generalize maxRead limit content.length = max at hmax ⊢
    have hio : Mappable io max (eachRead eachRead0 max) := ⟨eachRead_pos, eachRead_lt h0 h32 max, by omega, hmap⟩
    obtain ⟨m, hm, hslices, htotal⟩ := traverse_slices f pageBits content didRead hio st
    rw [handsOut_iff hmax hm hslices htotal, all_fit_iff hm]
    refine forall₂_congr fun k _ => ?_
    rw [← repeats_iff]
    exact ⟨.inr, fun h => h.elim repeats_of_dvd id⟩

end

/-! ## Two bytes, one at a time -/

/-- A `traverse` of `openA` in which nothing fails. -/
def quietIO : TraverseIO := ⟨none, fun _ => openA.view, fun _ => none⟩

/-- The page boundary below offset 1 is 0: the second chunk is the first byte again. -/
theorem first_byte_twice :
    let o := traverse openA 12 (fun _ => str "ab") (record keepOn) 1 (-1) quietIO ((), [])
    o.st.2 = [str "a", str "a"] ∧ o.total = 2 ∧ ¬ HandsOut (str "ab") o := by
  intro o
  have hio : Mappable quietIO 2 1 := ⟨fun _ => by decide, by decide, by decide, fun _ => rfl⟩
  obtain ⟨m, hm, hslices, htotal⟩ := traverse_slices openA 12 (str "ab") keepOn hio ()
  have h1 : 1 < m := (hm 1).1 ⟨by decide, fun _ _ => rfl, fun _ _ => rfl⟩
  have h2 : ¬ 2 < m := fun h => absurd ((hm 2).2 h).1 (by decide)
  obtain rfl : m = 2 := by omega
  have hgot : o.st.2 = [str "a", str "a"] := hslices.trans (by decide)
  have htotal : o.total = 2 := htotal
  refine ⟨hgot, htotal, fun h => ?_⟩
  have hall := h.all
  rw [hgot, htotal] at hall
  exact absurd hall (by decide)

/-- A page and one byte, in chunks of a page: the second chunk starts at a page boundary. -/
theorem traverse_exact_iff_two :
    let content := List.replicate 4096 (0 : UInt8) ++ [1]
    Handed openA quietIO keepOn (chunkAt content 4097 4096) 4097 4096 () 1 ∧
      HandsOut content (traverse openA 12 (fun _ => content) (record keepOn) 4096 (-1) quietIO ((), [])) := by
  intro content
  have hlen : content.length = 4097 := by rw [List.length_append, List.length_replicate]; rfl
  generalize content = content at hlen ⊢
  refine ⟨⟨by decide, fun _ _ => rfl, fun _ _ => rfl⟩, ?_⟩
  refine (traverse_exact_iff openA 12 content keepOn 4096 (-1) quietIO () (by decide) (by decide) (by rw [hlen]; decide)
    (fun _ => rfl)).2 (.inr (.inr (.inr ?_)))
  have heach : eachRead 4096 (maxRead (-1) content.length) = 4096 := by
    rw [hlen]
    decide
  dsimp only
  rw [heach]
  exact fun k _ => .inl (Dvd.intro_left k rfl)

end CtiLog
