import CtiLog.Candidates
import CtiLog.Transfer
import CtiLog.TypeTag
/-
# The data bundle of an `Any`

`getDataBundle` looks at the tag of an `Any` and says where its bytes are and how many there are. Four of the
eleven integer types have a branch, one of them with the size of another type, and an `AnyableVector` counts its
elements where it should count bytes.

| here | there |
| --- | --- |
| `Any.getDataBundle`       | `Any::getDataBundle`, `Any::getDataBundleb` (any.cpp:52, :137) |
| `AnyableVector.toAnyable` | the virtual functions of `AnyableVector<T>` (anytype.hpp:63-88) |
| `DataBundle.toBundle`     | `data.getDataBundle()` in `File::write` (file.cpp:1021) |

Memory is what lies between an address and the end of the object it is in.

* `Held` — what an `Any` can be given, with its payload; `held_init`, `init_held` — every such value, and nothing else.
* `BundleIs` — the bundle is the payload, and so is what `File::write` writes.
* `bundle_iff` — which values have such a bundle.
-/

namespace CtiLog

open Chunks

/-! ## Objects in memory -/

/-- `sizeof` of the integer types (LP64). -/
def Ty.sizeof : Ty → Nat
  | .bool | .char | .unsignedChar => 1
  | .short | .unsignedShort => 2
  | .int | .unsigned => 4
  | .long | .longLong | .unsignedLong | .unsignedLongLong => 8
  | _ => 0

/-- `k` bytes of a number, the lowest first. -/
def intBytes : Nat → Int → Str
  | 0, _ => []
  | k + 1, n => UInt8.ofNat (n % 256).toNat :: intBytes k (n / 256)

@[simp] theorem length_intBytes (k : Nat) (n : Int) : (intBytes k n).length = k := by
  induction k generalizing n with
  | zero => rfl
  | succ k ih => simp [intBytes, ih]

/-- The bytes of an integer object. -/
def Obj.bytes (o : Obj) : Option Str := (o.ty.toInt o.val).map (intBytes o.ty.sizeof)

/-- `reinterpretToTPtr<T>`, read; an object of another type is undefined. -/
def Obj.as (T : Ty) (o : Obj) : Option T.Val := if h : o.ty = T then some (h ▸ o.val) else none

/-- An `AnyableVector<T>`: the elements as they are in memory. -/
structure AnyableVector where
  typeInfo : Nat
  sizeofT : Nat
  elems : List Str
  sizeofT_pos : 0 < sizeofT
  elem_length : ∀ e ∈ elems, e.length = sizeofT

/-- `getDataBundle` returns `this->size()`. -/
def AnyableVector.toAnyable (v : AnyableVector) : Anyable :=
  ⟨some v.elems.flatten, v.elems.length, true, .user v.typeInfo⟩

/-- The returned tuple, with the memory at its pointer. -/
structure DataBundle where
  ret : Int
  addr : Option Str
  size : Nat
  isBinary : Bool
  ret_le : ret ≤ 0

namespace Any

/-- `{Ok, this->data.get(), size}`. -/
def rawBundle (size : Nat) (o : Obj) : Option DataBundle :=
  o.bytes.map fun bytes => ⟨Errno.ok.code, some bytes, size, true, by decide⟩

/-- `none` is an `Any` whose tag does not name its object. -/
def getDataBundle (a : Any) : Option DataBundle :=
  match a.data with
  | none => some ⟨-Errno.notSet.code, none, 0, true, by decide⟩
  | some o =>
    if a.isT .short then rawBundle Ty.int.sizeof o
    else if a.isT .int then rawBundle Ty.int.sizeof o
    else if a.isT .long then rawBundle Ty.long.sizeof o
    else if a.isT .longLong then rawBundle Ty.longLong.sizeof o
    else if a.isT .string then
      -- `c_str()` ends in a zero that `length()` leaves out
      (o.as .string).map fun (s : Str) => ⟨Errno.ok.code, some (s ++ [0]), s.length, false, by decide⟩
    else if a.isT .anyVector then
      (o.as .anyVector).map fun (v : Str) => ⟨Errno.ok.code, some v, v.length, true, by decide⟩
    else if a.isT .dataAndSize then
      (o.as .dataAndSize).map fun (d : DataAndSize) => ⟨Errno.ok.code, d.data, d.size, true, by decide⟩
    else if a.isT .anyable then
      (o.as .anyable).map fun (x : Anyable) => ⟨Errno.ok.code, x.data, x.size, x.isBinary, by decide⟩
    else some ⟨-Errno.invalidType.code, none, 0, true, by decide⟩

end Any

/-! ## Values and their payload -/

/-- What the virtual functions of an `Anyable` say of its payload is right. -/
def Anyable.Shows (x : Anyable) (payload : Str) : Prop :=
  x.size = payload.length ∧ (x.data.getD []).take x.size = payload

inductive Held where
  | integer (T : Ty) (hT : T ∈ Ty.integers) (n : T.Val)
  | string (s : Str)
  | anyVector (v : Str)
  | dataAndSize (d : DataAndSize)
  | vector (v : AnyableVector)
  | anyable (x : Anyable) (payload : Str) (shows_ : x.Shows payload)

namespace Held

def obj : Held → Obj
  | integer T _ n => ⟨T, n⟩
  | string s => ⟨.string, s⟩
  | anyVector v => ⟨.anyVector, v⟩
  | dataAndSize d => ⟨.dataAndSize, d⟩
  | vector v => ⟨.anyable, v.toAnyable⟩
  | anyable x _ _ => ⟨.anyable, x⟩

def payload : Held → Str
  | integer T _ n => (Obj.bytes ⟨T, n⟩).getD []
  | string s => s
  | anyVector v => v
  | dataAndSize d => (d.data.getD []).take d.size
  | vector v => v.elems.flatten
  | anyable _ p _ => p

/-- The `Any` that holds the value. -/
def toAny (h : Held) : Any := ⟨some h.obj, h.obj.ty⟩

/-- The values whose bundle is their payload. -/
def Fits : Held → Prop
  | integer T _ _ => T = .int ∨ T = .long ∨ T = .longLong
  | dataAndSize d => d.size ≤ (d.data.getD []).length
  | vector v => v.sizeofT = 1 ∨ v.elems = []
  | string _ | anyVector _ | anyable _ _ _ => True

end Held

/-- The bundle says Ok, and its size covers exactly the payload. -/
structure DataBundle.Covers (b : DataBundle) (payload : Str) : Prop where
  ret : b.ret = Errno.ok.code
  size : b.size = payload.length
  bytes : (b.addr.getD []).take b.size = payload

/-- What is read through the bundle; `beyond` is in memory after the object. -/
def DataBundle.toBundle (b : DataBundle) (beyond : Nat → UInt8) : Bundle where
  ret := b.ret
  bytes := (List.range b.size).map fun i => ((b.addr.getD [])[i]?).getD (beyond i)
  ret_le := b.ret_le

/-- Nothing fails and nothing changes during a `write` of `f`, and every `::write` accepts something. -/
structure WriteIO.Succeeds (io : WriteIO) (f : File) : Prop where
  view : ∀ k, io.view k = f.view
  sys : ∀ k, ∃ n, io.sys k = .ok n ∧ 0 < n

/-- The bundle of `a` is `payload`, and so is what `File::write(a)` writes. -/
structure BundleIs (a : Any) (payload : Str) : Prop where
  covers : ∃ b, a.getDataBundle = some b ∧ b.Covers payload
  writes : ∀ b ∈ a.getDataBundle, ∀ (beyond : Nat → UInt8) {σ : Type} (f : File) (accept : σ → Str → σ)
    (eachWrite0 limit : Int) (io : WriteIO) (st : σ),
    Transfers payload (maxWrite limit payload.length) (eachWrite eachWrite0 (maxWrite limit payload.length))
      (writeAny f (recordAccept accept) (some (b.toBundle beyond)) eachWrite0 limit io (st, []))
  whole : ∀ b ∈ a.getDataBundle, ∀ (beyond : Nat → UInt8) {σ : Type} (f : File) (accept : σ → Str → σ)
    (eachWrite0 limit : Int) (io : WriteIO) (st : σ), f.ioBusy = false → ¬ f.fd < 0 → io.Succeeds f → limit < 0 →
    (writeAny f (recordAccept accept) (some (b.toBundle beyond)) eachWrite0 limit io (st, [])).st.2.flatten = payload

/-! ## What `init` leaves -/

section
variable {T : Ty} {value : BoostAny} {a : Any}

/-- Every such value gets into an `Any`. -/
theorem held_init (h : Held) : ∃ value, RightType h.obj.ty value ∧ Any.init h.obj.ty value .new = (h.toAny, true) := by
  have htyped : ∀ o ∈ some h.obj, o.ty = h.obj.ty := fun o ho => by cases ho; rfl
  refine ⟨.ptr h.obj.ty true ⟨some h.obj, fun _ => htyped⟩, fun _ _ hv => ?_, ?_⟩
  · exact absurd (BoostAny.ptr.inj hv).1 h.obj.ty_ne_void
  have hptr : Any.initByPtr h.obj.ty (.ptr h.obj.ty true ⟨some h.obj, fun _ => htyped⟩) .new = h.toAny := by
    rcases Any.initByPtr_cases h.obj.ty (.ptr h.obj.ty true ⟨some h.obj, fun _ => htyped⟩) .new with
      ⟨S, c, p, hv, -, hinit⟩ | ⟨hno, -⟩
    · cases hv
      exact hinit
    · refine absurd ?_ (hno _ _ _ rfl)
      unfold Any.Takes
      split
      · exact .inr rfl
      · exact ⟨rfl, rfl⟩
  unfold Any.init
  rw [hptr]
  rfl

/-- And nothing else does, of these types. -/
theorem init_held (hright : RightType T value)
    (hT : T ∈ Ty.integers ∨ T = .string ∨ T = .anyVector ∨ T = .dataAndSize) (hret : (a.init T value).2 = true)
    (hset : (a.init T value).1.isSet = true) : ∃ h : Held, (a.init T value).1 = h.toAny := by
  rcases (Any.init_done hright a).returned hret with hnew | ⟨⟨S, v⟩, ho, hS⟩
  · rw [hnew] at hset
    cases hset
  rw [ho]
  subst hS
  rcases hT with hT | rfl | rfl | rfl
  · exact ⟨.integer S hT v, rfl⟩
  · exact ⟨.string v, rfl⟩
  · exact ⟨.anyVector v, rfl⟩
  · exact ⟨.dataAndSize v, rfl⟩

end

/-! ## Which bundles cover the payload -/

section
variable {T : Ty} {b : DataBundle} {payload : Str}

theorem bytes_integer (hT : T ∈ Ty.integers) (n : T.Val) :
    ∃ bytes, Obj.bytes ⟨T, n⟩ = some bytes ∧ bytes.length = T.sizeof := by
  have hnum : ∃ m, T.toInt n = some m := by
    simp only [Ty.integers, List.mem_cons, List.not_mem_nil, or_false] at hT
    rcases hT with rfl | rfl | rfl | rfl | rfl | rfl | rfl | rfl | rfl | rfl | rfl <;> exact ⟨n, rfl⟩
  obtain ⟨m, hm⟩ := hnum
  exact ⟨intBytes T.sizeof m, by simp [Obj.bytes, hm], length_intBytes _ _⟩

theorem covers_all (memory : Str) (hret : b.ret = 0) (haddr : b.addr = some memory) (hsize : b.size = payload.length)
    (hp : memory.take payload.length = payload) : b.Covers payload :=
  ⟨hret, hsize, by rw [haddr, hsize]; exact hp⟩

/-- A branch for integers has the size of the type it is for. -/
theorem rawBundle_covers_iff (hT : T ∈ Ty.integers) (n : T.Val) (size : Nat) :
    (∃ b, Any.rawBundle size ⟨T, n⟩ = some b ∧ b.Covers (Held.integer T hT n).payload) ↔ size = T.sizeof := by
  obtain ⟨bytes, hbytes, hlen⟩ := bytes_integer hT n
  simp only [Any.rawBundle, Held.payload, hbytes, Option.map_some, Option.getD_some, Option.some.injEq, exists_eq_left']
  constructor
  · intro h
    exact h.size.trans hlen
  · rintro rfl
    exact covers_all bytes rfl rfl hlen.symm (List.take_length)

/-- No branch is for the other integer types. -/
theorem integer_covers_iff (hT : T ∈ Ty.integers) (n : T.Val) :
    (∃ b, (Held.integer T hT n).toAny.getDataBundle = some b ∧ b.Covers (Held.integer T hT n).payload) ↔
      T = .int ∨ T = .long ∨ T = .longLong := by
  have hno : ¬ ∃ b : DataBundle, some ⟨-Errno.invalidType.code, none, 0, true, by decide⟩ = some b ∧
      b.Covers (Held.integer T hT n).payload := by
    rintro ⟨b, hb, hc⟩
    cases hb
    exact absurd hc.ret (by decide)
  simp only [Ty.integers, List.mem_cons, List.not_mem_nil, or_false] at hT
  rcases hT with rfl | rfl | rfl | rfl | rfl | rfl | rfl | rfl | rfl | rfl | rfl
  · exact iff_of_false hno (by decide)
  · exact iff_of_false hno (by decide)
  · exact (rawBundle_covers_iff _ n 4).trans (by decide)
  · exact (rawBundle_covers_iff _ n 4).trans (by decide)
  · exact (rawBundle_covers_iff _ n 8).trans (by decide)
  · exact (rawBundle_covers_iff _ n 8).trans (by decide)
  · exact iff_of_false hno (by decide)
  · exact iff_of_false hno (by decide)
  · exact iff_of_false hno (by decide)
  · exact iff_of_false hno (by decide)
  · exact iff_of_false hno (by decide)

theorem AnyableVector.length_flatten (v : AnyableVector) : v.elems.flatten.length = v.elems.length * v.sizeofT := by
  rw [List.length_flatten, List.map_congr_left v.elem_length, List.map_const', List.sum_replicate, smul_eq_mul]

/-- Its number of elements is the size of the payload of an `AnyableVector` of single bytes, or of none. -/
theorem AnyableVector.size_iff (v : AnyableVector) :
    v.elems.length = v.elems.flatten.length ↔ v.sizeofT = 1 ∨ v.elems = [] := by
  have hpos := v.sizeofT_pos
  rw [v.length_flatten]
  constructor
  · intro h
    rcases Nat.eq_zero_or_pos v.elems.length with hz | hne
    · exact .inr (List.eq_nil_of_length_eq_zero hz)
    · exact .inl (Nat.eq_of_mul_eq_mul_left hne (by omega))
  · rintro (h | h)
    · rw [h, Nat.mul_one]
    · simp [h]

theorem covers_iff (h : Held) : (∃ b, h.toAny.getDataBundle = some b ∧ b.Covers h.payload) ↔ h.Fits := by
  cases h with
  | integer T hT n => exact integer_covers_iff hT n
  | string s =>
    refine iff_of_true ⟨_, rfl, ?_⟩ trivial
    exact covers_all (s ++ [0]) rfl rfl rfl (List.take_left' rfl)
  | anyVector v => exact iff_of_true ⟨_, rfl, covers_all v rfl rfl rfl List.take_length⟩ trivial
  | dataAndSize d =>
    constructor
    · rintro ⟨b, hb, hc⟩
      cases hb
      have hsize : d.size = ((d.data.getD []).take d.size).length := hc.size
      rw [List.length_take] at hsize
      show d.size ≤ (d.data.getD []).length
      omega
    · intro hfit
      have hfit' : d.size ≤ (d.data.getD []).length := hfit
      have hsize : d.size = ((d.data.getD []).take d.size).length := by
        rw [List.length_take]
        omega
      exact ⟨_, rfl, rfl, hsize, rfl⟩
  | vector v =>
    constructor
    · rintro ⟨b, hb, hc⟩
      cases hb
      exact v.size_iff.1 hc.size
    · intro hfit
      exact ⟨_, rfl, covers_all v.elems.flatten rfl rfl (v.size_iff.2 hfit) List.take_length⟩
  | anyable x p hx => exact iff_of_true ⟨_, rfl, rfl, hx.1, hx.2⟩ trivial

/-! ## What `File::write` writes -/

/-- Nothing outside the object is read through a bundle that covers its payload. -/
theorem DataBundle.Covers.bytes_eq (h : b.Covers payload) (beyond : Nat → UInt8) :
    (b.toBundle beyond).bytes = payload := by
  have hlen : b.size ≤ (b.addr.getD []).length := by
    have := congrArg List.length h.bytes
    rw [List.length_take] at this
    have := h.size
    omega
  rw [← h.bytes]
  refine List.ext_getElem (by simpa [toBundle] using hlen) fun i hi _ => ?_
  have hin : i < (b.addr.getD []).length := by
    have : i < b.size := by simpa [toBundle] using hi
    omega
  simp [toBundle, hin]

end

section
variable {σ : Type} {f : File} {io : WriteIO}

theorem writeTurn_goes (accept : σ → Str → σ) (hio : io.Succeeds f) (data : Str) (max each k t : Nat) (s : St σ) :
    ∃ n s', writeTurn f accept none data io max each k t s = .move n s' := by
  obtain ⟨n, hn, -⟩ := hio.sys k
  unfold writeTurn
  rw [if_neg (not_not.2 (hio.view k)), hn]
  exact ⟨_, _, rfl⟩

/-- When every `::write` accepts something the whole range is written. -/
theorem writeLoop_total (accept : σ → Str → σ) (hio : io.Succeeds f) (data : Str) {max each : Nat}
    (heach : 0 < max → 0 < each) (ret : Option Int) (st : σ) :
    (writeLoop f accept none data max each ret io st).total = max := by
  unfold writeLoop
  obtain ⟨k, hp, he⟩ := loop_ends (writeTurn f accept none data io max each) max ret ⟨st, []⟩
  have hle : (pos (writeTurn f accept none data io max each) ⟨st, []⟩ k).1 ≤ max := pos_le k hp
  obtain ⟨n, s', hturn⟩ := writeTurn_goes accept hio data max each k
    (pos (writeTurn f accept none data io max each) ⟨st, []⟩ k).1
    (pos (writeTurn f accept none data io max each) ⟨st, []⟩ k).2
  generalize loop (writeTurn f accept none data io max each) max ret 0 0 ⟨st, []⟩ = r at he ⊢
  generalize pos (writeTurn f accept none data io max each) ⟨st, []⟩ k = q at he hle hturn
  cases he with
  | left h => rw [hturn] at h; cases h
  | dry h =>
    -- a turn that moves nothing is at the end of the range
    by_contra hne
    change ¬ q.1 = max at hne
    obtain ⟨m, hm, hpos⟩ := hio.sys k
    have hzero := (writeTurn_dry_iff f max each k q.1 q.2 (request_pos heach (by omega)) h).1 rfl
    rw [hm, Sys.ok.injEq] at hzero
    omega
  | full h _ hge =>
    have := writeTurn_le f max each k q.1 q.2 _ _ hle h
    dsimp only [Outcome.ofLoop]
    omega

end

/-- A `write` of a bundle that covers the payload, in which nothing fails, writes the payload. -/
theorem DataBundle.Covers.writes_whole {b : DataBundle} {payload : Str} (hc : b.Covers payload)
    (beyond : Nat → UInt8) {σ : Type}
    {f : File} {io : WriteIO} (accept : σ → Str → σ) (eachWrite0 : Int) {limit : Int} (st : σ)
    (hbusy : f.ioBusy = false)
    (hopen : ¬ f.fd < 0) (hio : io.Succeeds f) (hlimit : limit < 0) :
    (writeAny f (recordAccept accept) (some (b.toBundle beyond)) eachWrite0 limit io (st, [])).st.2.flatten = payload := by
  have hbytes := hc.bytes_eq beyond
  have hret : ¬ (b.toBundle beyond).ret < 0 := by
    have : (b.toBundle beyond).ret = Errno.ok.code := hc.ret
    rw [this]
    decide
  have hmax : maxWrite limit payload.length = payload.length := by simp [maxWrite, hlimit]
  have ht := (writeBundle_transfers f st accept none (b.toBundle beyond) eachWrite0 limit io).bytes
  have htotal : (writeAny f (recordAccept accept) (some (b.toBundle beyond)) eachWrite0 limit io (st, [])).total =
      payload.length := by
    simp only [writeAny, writeBundle, hbusy, hopen, hret, hbytes, hmax, Bool.false_eq_true, if_false]
    exact writeLoop_total (recordAccept accept) hio payload eachWrite_pos _ (st, [])
  refine ht.trans ?_
  rw [hbytes]
  exact (congrArg payload.take htotal).trans List.take_length

/-- **The bundle of an `Any` is its payload** for an `int`, a `long` or a `long long` among the integers, for strings
and byte vectors, for a `DataAndSize` inside its memory, and for an `AnyableVector` of single bytes or of none. -/
theorem bundle_iff (h : Held) : BundleIs h.toAny h.payload ↔ h.Fits := by
  rw [← covers_iff]
  constructor
  · exact fun hb => hb.covers
  · rintro ⟨b, hb, hc⟩
    refine ⟨⟨b, hb, hc⟩, fun b' hb' beyond σ f accept eachWrite0 limit io st => ?_,
      fun b' hb' beyond σ f accept eachWrite0 limit io st hbusy hopen hio hlimit => ?_⟩
    · cases hb.symm.trans hb'
      have ht := writeBundle_transfers f st accept none (b.toBundle beyond) eachWrite0 limit io
      rwa [hc.bytes_eq beyond] at ht
    · cases hb.symm.trans hb'
      exact hc.writes_whole beyond accept eachWrite0 st hbusy hopen hio hlimit

/-- An `AnyableVector<int>` of one 1. -/
def oneInt : AnyableVector := ⟨0, 4, [intBytes 4 1], by decide, by decide⟩

/-- A `short` has four bytes of which it owns two, a `bool` no type, and a vector of one `int` one byte of four. -/
theorem short_bool_vector_inexact :
    let short := Held.integer .short (by decide) (1 : Int)
    let bool := Held.integer .bool (by decide) (1 : Int)
    let vector := Held.vector oneInt
    (∃ b, short.toAny.getDataBundle = some b ∧ b.ret = 0 ∧ b.size = 4 ∧ b.addr = some [1, 0]) ∧
      (∃ b, bool.toAny.getDataBundle = some b ∧ b.ret = -Errno.invalidType.code) ∧
      (∃ b, vector.toAny.getDataBundle = some b ∧ b.ret = 0 ∧ b.size = 1 ∧ b.addr = some [1, 0, 0, 0]) ∧
      ¬ BundleIs short.toAny short.payload ∧ ¬ BundleIs bool.toAny bool.payload ∧
      ¬ BundleIs vector.toAny vector.payload := by
  intro short bool vector
  refine ⟨⟨_, rfl, rfl, rfl, rfl⟩, ⟨_, rfl, rfl⟩, ⟨_, rfl, rfl, rfl, rfl⟩, fun h => ?_, fun h => ?_, fun h => ?_⟩
  all_goals
    obtain ⟨b, hb, hc⟩ := h.covers
    cases hb
  · exact absurd hc.size (by decide)
  · exact absurd hc.ret (by decide)
  · exact absurd hc.size (by decide)

end CtiLog
