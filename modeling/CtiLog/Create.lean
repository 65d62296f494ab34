import CtiLog.DataBundle
import CtiLog.RealTime
/-
# `Any`s from memory

`Any::create` is the way back from a data bundle: memory, a size and a type (any.cpp:160, and the template
any.hpp:575). A number is read from its text, a string up to its first zero, and only a vector by its size.

| here | there |
| --- | --- |
| `atoll`       | `::atoll`, at the limits of `long long` as `::strtoll` |
| `Any.create`  | `Any::create`; for any other type the `Any` is not set |
| `Held.shown`  | how a caller passes a value in: the text of a number, a C string, the bytes of a vector |

* `create_iff` — which values come back.
* `recreated_iff` — which come back from their own bundle.
-/

namespace CtiLog

open Decimal

def isSpace (b : UInt8) : Bool := b = 32 ∨ 9 ≤ b ∧ b ≤ 13

/-- The number after white space and a sign. -/
def atoll (s : Str) : Int :=
  let t := s.dropWhile isSpace
  let n : Int := if t.head? = some 45 then -lead t.tail else if t.head? = some 43 then lead t.tail else lead t
  max (-2 ^ 63) (min n (2 ^ 63 - 1))

/-- `AnyDataType(new T(v))`. -/
def newData (o : Obj) : BoostAny := .ptr .void false ⟨some o, fun h => absurd rfl h⟩

namespace Any

/-- `data` is the memory from the address on. -/
def create (data : Str) (size : Nat) (typeinfo : Ty) : Any :=
  if typeinfo = .longLong then (Any.new.init2 .longLong (newData ⟨.longLong, atoll data⟩) true).1
  else if typeinfo = .string then (Any.new.init2 .string (newData ⟨.string, cstr data⟩) true).1
  else if typeinfo = .anyVector then (Any.new.init2 .anyVector (newData ⟨.anyVector, data.take size⟩) true).1
  else .new

/-- The pointer is taken as one of the type asked for. -/
theorem init2_newData {T : Ty} (hT : T ∈ probes) (v : T.Val) :
    (Any.new.init2 T (newData ⟨T, v⟩) true).1 = ⟨some ⟨T, v⟩, T⟩ := by
  show Any.new.initByPtr T (newData ⟨T, v⟩) = _
  rcases initByPtr_cases T (newData ⟨T, v⟩) .new with ⟨S, c, p, hv, -, hinit⟩ | ⟨hno, -⟩
  · cases hv
    exact hinit
  · refine absurd ?_ (hno _ _ _ rfl)
    unfold Takes
    rw [if_pos hT]
    exact .inl rfl

theorem create_longLong (data : Str) (size : Nat) :
    create data size .longLong = ⟨some ⟨.longLong, atoll data⟩, .longLong⟩ :=
  @init2_newData .longLong (by decide) (atoll data)

theorem create_string (data : Str) (size : Nat) : create data size .string = ⟨some ⟨.string, cstr data⟩, .string⟩ :=
  @init2_newData .string (by decide) (cstr data)

theorem create_anyVector (data : Str) (size : Nat) :
    create data size .anyVector = ⟨some ⟨.anyVector, data.take size⟩, .anyVector⟩ :=
  @init2_newData .anyVector (by decide) (data.take size)

end Any

/-! ## Numbers as text -/

section
variable {b d : UInt8}

theorem not_isSpace (h : IsDigit d) : isSpace d = false := by
  obtain ⟨hlow, -⟩ := h
  have hlow' : (48 : UInt8).toNat ≤ d.toNat := UInt8.le_iff_toNat_le.1 hlow
  have hne : d ≠ 32 := by
    rintro rfl
    exact absurd hlow' (by decide)
  have hle : ¬ d ≤ 13 := by
    intro hle
    exact absurd (hlow'.trans (UInt8.le_iff_toNat_le.1 hle)) (by decide)
  simp [isSpace, hne, hle]

/-- **A number is read from its text**, up to the limits. -/
theorem atoll_fmtInt (hb : ¬ IsDigit b) (n : Int) (rest : Str) :
    atoll (fmtInt 0 n ++ b :: rest) = max (-2 ^ 63) (min n (2 ^ 63 - 1)) := by
  rw [fmtInt_zero]
  unfold atoll
  by_cases hn : n < 0
  · have htext : (45 :: (digits n.natAbs ++ b :: rest)).dropWhile isSpace = 45 :: (digits n.natAbs ++ b :: rest) := rfl
    simp only [hn, if_true, List.cons_append, htext, List.head?_cons, List.tail_cons, lead_digits hb]
    congr 2
    omega
  · obtain ⟨d, ds, hd, hdigit⟩ := digits_cons n.natAbs
    have htext : (digits n.natAbs ++ b :: rest).dropWhile isSpace = digits n.natAbs ++ b :: rest := by
      rw [hd, List.cons_append, List.dropWhile_cons_of_neg (by simp [not_isSpace hdigit])]
    have hhead : (digits n.natAbs ++ b :: rest).head? = some d := by rw [hd]; rfl
    have hne : d ≠ 45 ∧ d ≠ 43 := by
      constructor
      · rintro rfl
        exact absurd hdigit (by decide)
      · rintro rfl
        exact absurd hdigit (by decide)
    simp only [hn, if_false, htext, hhead, Option.some.injEq, hne.1, hne.2, lead_digits hb]
    congr 2
    omega

end

/-! ## What comes back -/

namespace Held

/-- A value as it is passed to `create`. -/
def shown : Held → Str
  | integer T _ n => (T.toInt n).elim [] (fmtInt 0) ++ [0]
  | string s => s ++ [0]
  | anyVector v => v
  | _ => []

/-- A `long long`, a string without a zero, or a vector. -/
def Creatable : Held → Prop
  | integer T _ n => T = .longLong ∧ ∀ m ∈ T.toInt n, -2 ^ 63 ≤ m ∧ m < 2 ^ 63
  | string s => (0 : UInt8) ∉ s
  | anyVector _ => True
  | _ => False

end Held

theorem holding_inj {T : Ty} {v w : T.Val} : (⟨some ⟨T, v⟩, T⟩ : Any) = ⟨some ⟨T, w⟩, T⟩ ↔ v = w := by
  constructor
  · intro h
    have hobj : (⟨T, v⟩ : Obj) = ⟨T, w⟩ := Option.some.inj (congrArg Any.data h)
    cases hobj
    rfl
  · rintro rfl
    rfl

theorem toAny_ne_new (h : Held) : h.toAny ≠ .new := fun he => by cases congrArg Any.data he

/-- Types `create` does not know. -/
theorem create_other {T : Ty} (data : Str) (size : Nat) (hl : T ≠ .longLong) (hs : T ≠ .string) (hv : T ≠ .anyVector) :
    Any.create data size T = .new := by
  rw [Any.create, if_neg hl, if_neg hs, if_neg hv]

theorem cstr_append_zero (s rest : Str) : cstr (s ++ 0 :: rest) = s ↔ (0 : UInt8) ∉ s := by
  constructor
  · intro h hmem
    have hall : ∀ b ∈ cstr (s ++ 0 :: rest), b ≠ 0 := fun b hb => by simpa using List.mem_takeWhile_imp hb
    rw [h] at hall
    exact hall 0 hmem rfl
  · intro h
    have hpos : ∀ b ∈ s, decide (b ≠ 0) = true := fun b hb => by simpa using fun h0 : b = 0 => h (h0 ▸ hb)
    unfold cstr
    rw [List.takeWhile_append_of_pos hpos]
    simp

theorem create_number (n : Int) (rest : Str) (size : Nat) :
    Any.create ((fmtInt 0 n ++ [0]) ++ rest) size .longLong = ⟨some ⟨.longLong, n⟩, .longLong⟩ ↔
      -2 ^ 63 ≤ n ∧ n < 2 ^ 63 := by
  have hnotdigit : ¬ IsDigit 0 := by decide
  have htext : atoll ((fmtInt 0 n ++ [0]) ++ rest) = max (-2 ^ 63) (min n (2 ^ 63 - 1)) := by
    rw [List.append_assoc, List.singleton_append, atoll_fmtInt hnotdigit]
  rw [Any.create_longLong, htext]
  refine (@holding_inj .longLong _ n).trans ?_
  show max (-2 ^ 63) (min n (2 ^ 63 - 1)) = n ↔ _
  omega

/-- What comes back of a value that is passed to `create`. -/
theorem create_shown_iff (h : Held) (rest : Str) :
    Any.create (h.shown ++ rest) h.payload.length h.obj.ty = h.toAny ↔ h.Creatable := by
  cases h with
  | integer T hT n =>
    show Any.create _ _ T = ⟨some ⟨T, n⟩, T⟩ ↔ T = .longLong ∧ _
    by_cases hl : T = .longLong
    · subst hl
      refine (create_number n rest _).trans ⟨fun h => ⟨rfl, ?_⟩, fun h => h.2 n rfl⟩
      rintro m ⟨⟩
      exact h
    · have hs : T ≠ .string := by rintro rfl; exact absurd hT (by decide)
      have hv : T ≠ .anyVector := by rintro rfl; exact absurd hT (by decide)
      rw [create_other _ _ hl hs hv]
      exact iff_of_false (fun he => toAny_ne_new (.integer T hT n) he.symm) fun hc => hl hc.1
  | string s =>
    show Any.create ((s ++ [0]) ++ rest) _ .string = ⟨some ⟨.string, s⟩, .string⟩ ↔ (0 : UInt8) ∉ s
    rw [Any.create_string, List.append_assoc, List.singleton_append, ← cstr_append_zero s rest]
    exact @holding_inj .string (cstr (s ++ 0 :: rest)) s
  | anyVector v =>
    show Any.create (v ++ rest) v.length .anyVector = ⟨some ⟨.anyVector, v⟩, .anyVector⟩ ↔ True
    rw [Any.create_anyVector, List.take_left]
    exact iff_of_true rfl trivial
  | dataAndSize d => exact iff_of_false (fun he => toAny_ne_new (.dataAndSize d) he.symm) id
  | vector v => exact iff_of_false (fun he => toAny_ne_new (.vector v) he.symm) id
  | anyable x p hx => exact iff_of_false (fun he => toAny_ne_new (.anyable x p hx) he.symm) id

theorem create_new_iff {T : Ty} {data : Str} {size : Nat} :
    Any.create data size T = .new ↔ T ∉ [Ty.longLong, Ty.string, Ty.anyVector] := by
  simp only [List.mem_cons, List.not_mem_nil, or_false, not_or]
  refine ⟨fun h => ⟨?_, ?_, ?_⟩, fun h => create_other data size h.1 h.2.1 h.2.2⟩
  · rintro rfl
    rw [Any.create_longLong] at h
    cases h
  · rintro rfl
    rw [Any.create_string] at h
    cases h
  · rintro rfl
    rw [Any.create_anyVector] at h
    cases h

/-- **Round trip**: which values come back, whatever lies behind them in memory; of any other type nothing is made. -/
theorem create_iff :
    (∀ (h : Held) (rest : Str), Any.create (h.shown ++ rest) h.payload.length h.obj.ty = h.toAny ↔ h.Creatable) ∧
      ∀ (T : Ty) (data : Str) (size : Nat), Any.create data size T = .new ↔
        T ∉ [Ty.longLong, Ty.string, Ty.anyVector] :=
  ⟨create_shown_iff, fun _ _ _ => create_new_iff⟩

/-! ## From bundles -/

theorem intBytes_concat (k : Nat) (n : Int) :
    intBytes (k + 1) n = intBytes k n ++ [UInt8.ofNat (n / 256 ^ k % 256).toNat] := by
  induction k generalizing n with
  | zero => simp [intBytes]
  | succ k ih =>
    have hdiv : n / 256 / 256 ^ k = n / 256 ^ (k + 1) := by
      rw [Int.ediv_ediv_of_nonneg (by decide), pow_succ']
    rw [intBytes, ih, hdiv]
    rfl

theorem take_intBytes {j k : Nat} (h : j ≤ k) (n : Int) : (intBytes k n).take j = intBytes j n := by
  induction j generalizing k n with
  | zero => rfl
  | succ j ih =>
    obtain ⟨k, rfl⟩ : ∃ i, k = i + 1 := ⟨k - 1, by omega⟩
    rw [intBytes, intBytes, List.take_succ_cons, ih (by omega)]

/-- A number that is read is zero, or comes from digits behind bytes that are none, and is no longer than they. -/
theorem atoll_cases (s : Str) : atoll s = 0 ∨
    ∃ before ds after, s = before ++ ds ++ after ∧ (0 : UInt8) ∉ before ∧ ds ≠ [] ∧ (∀ d ∈ ds, IsDigit d) ∧
      (atoll s).natAbs < 10 ^ ds.length := by
  have hread : ∀ before t : Str, ∀ sign : Int, s = before ++ t → (0 : UInt8) ∉ before → (sign = 1 ∨ sign = -1) →
      atoll s = max (-2 ^ 63) (min (sign * lead t) (2 ^ 63 - 1)) → atoll s = 0 ∨
        ∃ before ds after, s = before ++ ds ++ after ∧ (0 : UInt8) ∉ before ∧ ds ≠ [] ∧ (∀ d ∈ ds, IsDigit d) ∧
          (atoll s).natAbs < 10 ^ ds.length := by
    intro before t sign hs hbefore hsign hatoll
    have hdigits : ∀ d ∈ t.takeWhile IsDigit, IsDigit d := fun d hd => by simpa using List.mem_takeWhile_imp hd
    have hlt : lead t < 10 ^ (t.takeWhile IsDigit).length := value_lt hdigits
    by_cases hnil : t.takeWhile IsDigit = []
    · left
      rw [hnil, List.length_nil, pow_zero] at hlt
      rw [hatoll]
      obtain rfl | rfl := hsign <;> omega
    · refine .inr ⟨before, t.takeWhile IsDigit, t.dropWhile IsDigit, ?_, hbefore, hnil, hdigits, ?_⟩
      · rw [List.append_assoc, List.takeWhile_append_dropWhile]
        exact hs
      · rw [hatoll]
        obtain rfl | rfl := hsign <;> omega
  have hspaces : (0 : UInt8) ∉ s.takeWhile isSpace := by
    intro hmem
    exact absurd (List.mem_takeWhile_imp hmem) (by decide)
  have hcut : s = s.takeWhile isSpace ++ s.dropWhile isSpace := List.takeWhile_append_dropWhile.symm
  have hsign : ∀ c : UInt8, c ≠ 0 → (s.dropWhile isSpace).head? = some c →
      s = (s.takeWhile isSpace ++ [c]) ++ (s.dropWhile isSpace).tail ∧ (0 : UInt8) ∉ s.takeWhile isSpace ++ [c] := by
    intro c hc hhead
    obtain ⟨t, ht⟩ : ∃ t, s.dropWhile isSpace = c :: t := by
      cases hd : s.dropWhile isSpace with
      | nil => simp [hd] at hhead
      | cons c' t =>
        obtain rfl : c' = c := by simpa [hd] using hhead
        exact ⟨t, rfl⟩
    constructor
    · rw [ht] at hcut ⊢
      simpa using hcut
    · simp [hspaces, hc.symm]
  by_cases hminus : (s.dropWhile isSpace).head? = some 45
  · obtain ⟨hs, hbefore⟩ := hsign 45 (by decide) hminus
    exact hread _ _ (-1) hs hbefore (.inr rfl) (by simp [atoll, hminus])
  · by_cases hplus : (s.dropWhile isSpace).head? = some 43
    · obtain ⟨hs, hbefore⟩ := hsign 43 (by decide) hplus
      exact hread _ _ 1 hs hbefore (.inl rfl) (by simp [atoll, hplus])
    · exact hread _ _ 1 hcut hspaces (.inl rfl) (by simp [atoll, hminus, hplus])

/-- A digit at the top of the lowest `k + 1` bytes of a number: it is far from zero. -/
theorem far_of_digit {k : Nat} {n : Int} (h : IsDigit (UInt8.ofNat (n / 256 ^ k % 256).toNat)) :
    10 ^ (k + 1) ≤ n.natAbs := by
  have hpow : (10 : Int) ^ k ≤ 256 ^ k := by gcongr; decide
  have hpos : (0 : Int) < 10 ^ k := by positivity
  have hmod : 0 ≤ n / 256 ^ k % 256 ∧ n / 256 ^ k % 256 < 256 :=
    ⟨Int.emod_nonneg _ (by decide), Int.emod_lt_of_pos _ (by decide)⟩
  have hbyte : 48 ≤ n / 256 ^ k % 256 ∧ n / 256 ^ k % 256 < 58 := by
    obtain ⟨hlow, hhigh⟩ := h
    have hnat : (UInt8.ofNat (n / 256 ^ k % 256).toNat).toNat = (n / 256 ^ k % 256).toNat := by
      rw [UInt8.toNat_ofNat']
      omega
    have hlow' : 48 ≤ (UInt8.ofNat (n / 256 ^ k % 256).toNat).toNat := UInt8.le_iff_toNat_le.1 hlow
    have hhigh' : (UInt8.ofNat (n / 256 ^ k % 256).toNat).toNat < 58 := UInt8.lt_iff_toNat_lt.1 hhigh
    omega
  have hcut := Int.mul_ediv_add_emod n (256 ^ k)
  have hrest : 0 ≤ n % 256 ^ k ∧ n % 256 ^ k < 256 ^ k :=
    ⟨Int.emod_nonneg _ (by positivity), Int.emod_lt_of_pos _ (by positivity)⟩
  have hfar : 10 * (256 : Int) ^ k ≤ n ∨ n ≤ -(10 * 256 ^ k) := by
    generalize n / 256 ^ k = q at *
    by_cases hq : 0 ≤ q
    · left
      have hq' : 48 ≤ q := by omega
      nlinarith
    · right
      have hq' : q ≤ -198 := by omega
      nlinarith
  have hgoal : (10 : Int) ^ (k + 1) ≤ |n| := by
    rw [pow_succ']
    rcases hfar with h | h
    · exact (by linarith : _ ≤ n).trans (le_abs_self n)
    · exact (by linarith : _ ≤ -n).trans (neg_le_abs n)
  zify
  exact hgoal

/-- No number but zero is read from its own bytes, if behind them is a zero. -/
theorem atoll_intBytes_iff (k : Nat) (n : Int) (beyond : Str) : atoll (intBytes k n ++ 0 :: beyond) = n ↔ n = 0 := by
  rcases atoll_cases (intBytes k n ++ 0 :: beyond) with hzero | ⟨before, ds, after, hs, hbefore, hne, hdigits, hlt⟩
  · rw [hzero]
    exact eq_comm
  · have hclean : (0 : UInt8) ∉ before ++ ds := by
      have hds : (0 : UInt8) ∉ ds := not_mem_of_isDigit hdigits (by decide)
      simp [hbefore, hds]
    have hprefix : before ++ ds <+: intBytes k n := by
      have hwhole : before ++ ds <+: intBytes k n ++ 0 :: beyond := ⟨after, hs.symm⟩
      have hzero : intBytes k n ++ [0] <+: intBytes k n ++ 0 :: beyond := ⟨beyond, by simp⟩
      rcases List.prefix_or_prefix_of_prefix hwhole hzero with h | h
      · rcases List.prefix_concat_iff.1 h with heq | h
        · exact absurd (heq ▸ by simp : (0 : UInt8) ∈ before ++ ds) hclean
        · exact h
      · exact absurd (h.mem (by simp)) hclean
    obtain ⟨ds', d, rfl⟩ : ∃ ds' d, ds = ds' ++ [d] :=
      ⟨ds.dropLast, ds.getLast hne, (List.dropLast_append_getLast hne).symm⟩
    have hlen : (before ++ (ds' ++ [d])).length = (before ++ ds').length + 1 := by simp [Nat.add_assoc]
    have hle : (before ++ ds').length + 1 ≤ k := by simpa [hlen] using hprefix.length_le
    have hlast : d = UInt8.ofNat (n / 256 ^ (before ++ ds').length % 256).toNat := by
      have htake := List.prefix_iff_eq_take.1 hprefix
      rw [hlen, take_intBytes hle, intBytes_concat, ← List.append_assoc] at htake
      exact List.singleton_inj.1 (List.append_inj' htake rfl).2
    have hfar : 10 ^ ((before ++ ds').length + 1) ≤ n.natAbs := far_of_digit (hlast ▸ hdigits d (by simp))
    have hshort : 10 ^ (ds' ++ [d]).length ≤ 10 ^ ((before ++ ds').length + 1) := by
      apply Nat.pow_le_pow_right (by decide)
      simp
    refine iff_of_false ?_ ?_
    · intro heq
      rw [heq] at hlt
      omega
    · rintro rfl
      have hpos : 0 < 10 ^ ((before ++ ds').length + 1) := by positivity
      simp at hfar

namespace Held

/-- Zero, a string without a zero, or a vector. -/
def Returns : Held → Prop
  | integer T _ n => T = .longLong ∧ T.toInt n = some 0
  | string s => (0 : UInt8) ∉ s
  | anyVector _ => True
  | _ => False

end Held

/-- An `Any` made from the bundle of another one, with `beyond` behind the object in memory, is that one. -/
def Held.Comes (h : Held) (beyond : Str) : Prop :=
  ∃ b memory, h.toAny.getDataBundle = some b ∧ b.addr = some memory ∧
    Any.create (memory ++ beyond) b.size h.obj.ty = h.toAny

theorem not_comes {h : Held} {T : Ty} (hT : h.obj.ty = T) (hother : T ∉ [Ty.longLong, Ty.string, Ty.anyVector])
    (beyond : Str) : ¬ h.Comes beyond := by
  rintro ⟨b, memory, -, -, hcreate⟩
  rw [hT, create_new_iff.2 hother] at hcreate
  exact toAny_ne_new h hcreate.symm

/-- Eight zeros are read as zero. -/
theorem atoll_zero (rest : Str) : atoll (0 :: rest) = 0 := by
  have hlead : lead (0 :: rest) = 0 := rfl
  have hspace : (0 :: rest : Str).dropWhile isSpace = 0 :: rest := rfl
  simp [atoll, hspace, hlead]

theorem comes_number_iff {n : Int} {hT : Ty.longLong ∈ Ty.integers} {beyond : Str} :
    (Held.integer .longLong hT n).Comes beyond ↔ atoll (intBytes 8 n ++ beyond) = n := by
  have hcreate : Any.create (intBytes 8 n ++ beyond) 8 .longLong = ⟨some ⟨.longLong, n⟩, .longLong⟩ ↔
      atoll (intBytes 8 n ++ beyond) = n := by
    rw [Any.create_longLong]
    exact @holding_inj .longLong _ n
  constructor
  · rintro ⟨b, memory, hb, hmemory, h⟩
    cases hb
    cases hmemory
    exact hcreate.1 h
  · exact fun h => ⟨_, _, rfl, rfl, hcreate.2 h⟩

/-- **From a bundle and back.** An `Any` made from the bundle of another one is that one, whatever lies behind the
object in memory, for vectors, for strings without a zero, and for the number zero; for no other value. -/
theorem recreated_iff (h : Held) : (∀ beyond, h.Comes beyond) ↔ h.Returns := by
  cases h with
  | integer T hT n =>
    by_cases hl : T = .longLong
    · subst hl
      constructor
      · -- with a zero behind it a number ends there
        exact fun h => ⟨rfl, congrArg some ((atoll_intBytes_iff 8 n []).1 (comes_number_iff.1 (h [0])))⟩
      · rintro ⟨-, hn⟩ beyond
        obtain rfl : n = (0 : Int) := Option.some.inj hn
        exact comes_number_iff.2 (atoll_zero _)
    · have hother : T ∉ [Ty.longLong, Ty.string, Ty.anyVector] := by
        simp only [List.mem_cons, List.not_mem_nil, or_false, not_or]
        refine ⟨hl, ?_, ?_⟩
        · rintro rfl
          exact absurd hT (by decide)
        · rintro rfl
          exact absurd hT (by decide)
      exact iff_of_false (fun h => not_comes (T := T) rfl hother [] (h [])) fun h => hl h.1
  | string s =>
    have hcreate : ∀ beyond, Any.create ((s ++ [0]) ++ beyond) s.length .string = ⟨some ⟨.string, s⟩, .string⟩ ↔
        (0 : UInt8) ∉ s := by
      intro beyond
      rw [Any.create_string, List.append_assoc, List.singleton_append, ← cstr_append_zero s beyond]
      exact @holding_inj .string _ s
    constructor
    · intro h
      obtain ⟨b, memory, hb, hmemory, h⟩ := h []
      cases hb
      cases hmemory
      exact (hcreate []).1 h
    · exact fun h beyond => ⟨_, _, rfl, rfl, (hcreate beyond).2 h⟩
  | anyVector v =>
    refine iff_of_true (fun beyond => ⟨_, _, rfl, rfl, ?_⟩) trivial
    show Any.create (v ++ beyond) v.length .anyVector = ⟨some ⟨.anyVector, v⟩, .anyVector⟩
    rw [Any.create_anyVector, List.take_left]
  | dataAndSize d => exact iff_of_false (fun h => not_comes (T := .dataAndSize) rfl (by decide) [] (h [])) id
  | vector v => exact iff_of_false (fun h => not_comes (T := .anyable) rfl (by decide) [] (h [])) id
  | anyable x p hx => exact iff_of_false (fun h => not_comes (T := .anyable) rfl (by decide) [] (h [])) id

end CtiLog
