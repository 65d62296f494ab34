import CtiLog.Slices
/-
# The sizes of `traverse`

An iteration maps `length + offset - paOffset` bytes from the page boundary `paOffset` below `offset`, and
gives `length` to the callback as a `uint32_t`. All of it is exact but for two ranges: an empty one, for
which the loop asks for a mapping of no bytes, and one of 4 GiB or more that is read in chunks of
`kMaxFileRdMem`, whose length is 0 as a `uint32_t`.

* `SizesExact` — what holds of the sizes of one iteration.
* `sizes_exact_iff` — every iteration is exact iff the range is not empty and the chunk fits.
-/

namespace CtiLog

open Chunks

/-- The `size` the callback is given for `length`. -/
def didReadSize (length : Nat) : Nat := length % 2 ^ 32

/-- The sizes of an iteration that starts after `total` bytes of a range of `max`, in a file of `size`. -/
structure SizesExact (pageBits size max each total : Nat) : Prop where
  total_le : total ≤ max
  max_le : max ≤ size
  aligned : 2 ^ pageBits ∣ pageAlign pageBits total
  below : pageAlign pageBits total ≤ total
  mapped_pos : 0 < request each max total + total - pageAlign pageBits total
  mapped_le : pageAlign pageBits total + (request each max total + total - pageAlign pageBits total) ≤ size
  given : didReadSize (request each max total) = request each max total

section
variable {σ : Type*}

/-- The sizes of every iteration of a call that gets to its loop and finds the file unchanged. -/
def TraverseExact (f : File) (pageBits : Nat) (content : σ → Str) (didRead : σ → Str → Bool × σ) (eachRead0 : Nat)
    (limit : Int) (io : TraverseIO) (st : σ) : Prop :=
  let max := maxRead limit (content st).length
  let each := eachRead eachRead0 max
  let turn := traverseTurn f pageBits content didRead io max each
  f.ioBusy = false → 0 ≤ f.fd → io.fstat = none →
    ∀ k, Pending turn max ⟨st, []⟩ k → io.view k = f.view →
      SizesExact pageBits (content st).length max each (pos turn ⟨st, []⟩ k).1

/-- The call is turned away, the file has changed at the first look, or the range is not empty and less than
4 GiB long or read in chunks of less. -/
def SizesFit (f : File) (size eachRead0 : Nat) (limit : Int) (io : TraverseIO) : Prop :=
  f.ioBusy = true ∨ f.fd < 0 ∨ io.fstat ≠ none ∨ io.view 0 ≠ f.view ∨
    (0 < maxRead limit size ∧ (eachRead0 < 2 ^ 32 ∨ maxRead limit size < 2 ^ 32))

/-! ## The chunk -/

/-- The chunk of a range fits a `uint32_t`, except one of `kMaxFileRdMem`. -/
theorem eachRead_lt_iff (eachRead0 max : Nat) :
    eachRead eachRead0 max < 2 ^ 32 ↔ eachRead0 < 2 ^ 32 ∨ max < 2 ^ 32 := by
  unfold eachRead kFileIoUpperBound kMaxFileRdMem
  dsimp only
  split_ifs <;> omega

/-- The first request is a whole chunk. -/
theorem request_zero (eachRead0 max : Nat) : request (eachRead eachRead0 max) max 0 = eachRead eachRead0 max := by
  have hle : eachRead eachRead0 max ≤ max := by
    unfold eachRead
    dsimp only
    split_ifs <;> omega
  unfold request
  rw [if_pos (by omega)]

/-- **The sizes of one iteration**, in a range that is not empty and with a chunk that fits. -/
theorem sizesExact_of_pos {pageBits size max each total : Nat} (hsize : size < 2 ^ 63) (hmax : max ≤ size)
    (htotal : total ≤ max) (hpos : 0 < request each max total) (heach : each < 2 ^ 32) :
    SizesExact pageBits size max each total := by
  have hreq := request_le each max total
  have hword := request_le_each each max total
  have halign := pageAlign_eq pageBits (show total < 2 ^ 64 by omega)
  have hmod : total % 2 ^ pageBits ≤ total := Nat.mod_le _ _
  refine ⟨htotal, hmax, ?_, by omega, by omega, by omega, Nat.mod_eq_of_lt (by omega)⟩
  rw [halign]
  exact Nat.dvd_sub_mod total

/-- What the first iteration asks for. -/
theorem sizes_fit_of_exact {pageBits size eachRead0 max : Nat}
    (h : SizesExact pageBits size max (eachRead eachRead0 max) 0) : 0 < max ∧ (eachRead0 < 2 ^ 32 ∨ max < 2 ^ 32) := by
  have hpos := h.mapped_pos
  have hgiven := h.given
  rw [request_zero] at hpos hgiven
  have hle : eachRead eachRead0 max ≤ max := by
    have := request_le (eachRead eachRead0 max) max 0
    rwa [request_zero] at this
  refine ⟨by omega, (eachRead_lt_iff eachRead0 max).1 ?_⟩
  rw [← hgiven]
  exact Nat.mod_lt _ (by decide)

/-- **The sizes of `traverse` are exact** iff the range is not empty, and it or the chunk asked for is less than
4 GiB long. -/
theorem sizes_exact_iff (f : File) (pageBits : Nat) (content : σ → Str) (didRead : σ → Str → Bool × σ) (eachRead0 : Nat)
    (limit : Int) (io : TraverseIO) (st : σ) (hsize : (content st).length < 2 ^ 63) :
    TraverseExact f pageBits content didRead eachRead0 limit io st ↔
      SizesFit f (content st).length eachRead0 limit io := by
  unfold TraverseExact SizesFit
  have hmax := maxRead_le limit (content st).length
  generalize maxRead limit (content st).length = max at hmax ⊢
  dsimp only
  constructor
  · intro h
    by_contra hno
    simp only [not_or, Bool.not_eq_true, not_lt, not_not] at hno
    obtain ⟨hb, hf, hs, hv, hfit⟩ := hno
    exact hfit (sizes_fit_of_exact (h hb hf hs 0 (fun j hj => absurd hj (by omega)) hv))
  · intro h hb hf hs k hk hv
    rcases h with h | h | h | h | ⟨hpos, hfit⟩
    · rw [hb] at h
      cases h
    · omega
    · exact absurd hs h
    · -- the first look at the file decides whether there is a second
      cases k with
      | zero => exact absurd hv h
      | succ k =>
        obtain ⟨n, s', ht, -⟩ := hk 0 (by omega)
        unfold traverseTurn at ht
        rw [if_pos h] at ht
        cases ht
    · have hle := pos_lt hpos k hk
      exact sizesExact_of_pos hsize hmax hle.le (request_pos eachRead_pos hle) ((eachRead_lt_iff _ _).2 hfit)

end

/-! ## An empty file, and one of 4 GiB -/

/-- The first iteration on an empty file maps no bytes, which `mmap` refuses; on one of 4 GiB read in one piece it
gives the callback no bytes and counts all of them. -/
theorem empty_and_4GiB_inexact :
    (¬ TraverseExact openA 12 (fun _ => []) keepOn 1 (-1) quietIO () ∧
      (traverse openA 12 (fun _ => []) keepOn 1 (-1) quietIO ()).ret = some (-(EINVAL + kCppbaseErrnoOffset))) ∧
    ¬ TraverseExact openA 12 (fun _ => List.replicate (2 ^ 32) 0) keepOn (2 ^ 32) (-1) quietIO () := by
  have hstart : ∀ content eachRead0, TraverseExact openA 12 (fun _ => content) keepOn eachRead0 (-1) quietIO () →
      0 < content.length ∧ (eachRead0 < 2 ^ 32 ∨ content.length < 2 ^ 32) := fun content eachRead0 h =>
    sizes_fit_of_exact (h rfl (by decide) rfl 0 (fun j hj => absurd hj (by omega)) rfl)
  refine ⟨⟨fun h => absurd (hstart _ _ h).1 (by decide), ?_⟩, fun h => ?_⟩
  · have hturn : traverseTurn openA 12 (fun _ => []) keepOn quietIO 0 0 0 0 ⟨(), []⟩ =
        .leave (sysCode .readError EINVAL) 0 ⟨(), [.map 0 0 0 (some EINVAL)]⟩ := rfl
    have hends : Ends (traverseTurn openA 12 (fun _ => []) keepOn quietIO 0 0) 0 (some 0) 0 0 ⟨(), []⟩ _ := .left hturn
    exact congrArg (fun r => (Outcome.ofLoop r).ret) (loop_of_ends_here hends)
  · have h2 := (hstart _ _ h).2
    rw [List.length_replicate] at h2
    omega

/-- A file that fits into one chunk. -/
theorem sizes_exact_iff_ab : TraverseExact openA 12 (fun _ => str "ab") keepOn 1 (-1) quietIO () :=
  (sizes_exact_iff openA 12 (fun _ => str "ab") keepOn 1 (-1) quietIO () (by decide)).2
    (.inr (.inr (.inr (.inr ⟨by decide, .inl (by decide)⟩))))

end CtiLog
