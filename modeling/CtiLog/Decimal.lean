import Mathlib.Tactic
/-
# Numbers as decimal digits

The ASCII digits of a number, as `std::to_string` and `%0wd` print them, and what can be read off them.

* `digits`, `padded w` — without padding, and padded with zeros to at least `w` digits.
* `digits_inj`, `padded_inj` — the digits say which number it is, also between other text (`digits_append_inj`).
* `padded_append_lt_iff` — texts that start with numbers of one width compare as the numbers do.
-/

namespace Decimal

def IsDigit (b : UInt8) : Prop := 48 ≤ b ∧ b < 58

instance (b : UInt8) : Decidable (IsDigit b) := inferInstanceAs (Decidable (_ ∧ _))

/-- The number that the digits `ds` make behind the digits of `n`. -/
def valueFrom (n : Nat) (ds : List UInt8) : Nat := ds.foldl (fun m d => 10 * m + (d.toNat - 48)) n

def value (ds : List UInt8) : Nat := valueFrom 0 ds

def digits (n : Nat) : List UInt8 := (Nat.toDigits 10 n).map fun c => c.val.toUInt8

def padded (w n : Nat) : List UInt8 := List.replicate (w - (digits n).length) 48 ++ digits n

/-! ## Values -/

@[simp] theorem valueFrom_nil (n : Nat) : valueFrom n [] = n := rfl

@[simp] theorem valueFrom_cons (n : Nat) (d : UInt8) (ds : List UInt8) :
    valueFrom n (d :: ds) = valueFrom (10 * n + (d.toNat - 48)) ds := by
  rw [valueFrom, List.foldl_cons, valueFrom]

theorem valueFrom_eq (n : Nat) (ds : List UInt8) : valueFrom n ds = 10 ^ ds.length * n + value ds := by
  induction ds generalizing n with
  | nil => simp [value]
  | cons d ds ih =>
    have h : value (d :: ds) = valueFrom (d.toNat - 48) ds := by simp [value]
    rw [valueFrom_cons, ih, h, ih (d.toNat - 48), List.length_cons]
    ring

theorem value_cons (d : UInt8) (ds : List UInt8) : value (d :: ds) = 10 ^ ds.length * (d.toNat - 48) + value ds := by
  rw [← valueFrom_eq]
  simp [value]

theorem value_append (as bs : List UInt8) : value (as ++ bs) = 10 ^ bs.length * value as + value bs := by
  induction as with
  | nil => simp [value]
  | cons a as ih =>
    rw [List.cons_append, value_cons, value_cons, ih, List.length_append]
    ring

theorem value_zeros (k : Nat) : value (List.replicate k 48) = 0 := by
  induction k with
  | zero => rfl
  | succ k ih => simp [List.replicate_succ, value_cons, ih]

theorem value_lt {ds : List UInt8} (h : ∀ d ∈ ds, IsDigit d) : value ds < 10 ^ ds.length := by
  induction ds with
  | nil => simp [value]
  | cons d ds ih =>
    have hd : d.toNat < 58 := (h d List.mem_cons_self).2
    have hds := ih fun e he => h e (List.mem_cons_of_mem d he)
    have hle : 10 ^ ds.length * (d.toNat - 48) ≤ 10 ^ ds.length * 9 := Nat.mul_le_mul_left _ (by omega)
    rw [value_cons, List.length_cons, pow_succ]
    omega

/-- **Digits of one length compare as their values.** -/
theorem lt_iff_value {ds es : List UInt8} (hds : ∀ d ∈ ds, IsDigit d) (hes : ∀ e ∈ es, IsDigit e)
    (hlen : ds.length = es.length) : ds < es ↔ value ds < value es := by
  induction ds generalizing es with
  | nil =>
    obtain rfl := List.length_eq_zero_iff.1 hlen.symm
    simp
  | cons d ds ih =>
    cases es with
    | nil => simp at hlen
    | cons e es =>
      have hlen' : ds.length = es.length := by simpa using hlen
      have hd : IsDigit d := hds d List.mem_cons_self
      have he : IsDigit e := hes e List.mem_cons_self
      have hds' : ∀ x ∈ ds, IsDigit x := fun x hx => hds x (List.mem_cons_of_mem d hx)
      have hes' : ∀ x ∈ es, IsDigit x := fun x hx => hes x (List.mem_cons_of_mem e hx)
      have hlt := value_lt hds'
      have hlt' := value_lt hes'
      rw [List.cons_lt_cons_iff, ih hds' hes' hlen', value_cons, value_cons, hlen']
      rw [hlen'] at hlt
      have hd48 : 48 ≤ d.toNat := hd.1
      have he48 : 48 ≤ e.toNat := he.1
      generalize 10 ^ es.length = p at *
      -- the first digit that differs decides
      rcases lt_trichotomy d.toNat e.toNat with hde | hde | hde
      · have hmul : p * (d.toNat - 48 + 1) ≤ p * (e.toNat - 48) := Nat.mul_le_mul_left p (by omega)
        rw [Nat.mul_add] at hmul
        have hord : d < e := hde
        simp only [hord, true_or, true_iff]
        omega
      · obtain rfl : d = e := UInt8.toNat.inj hde
        simp
      · have hmul : p * (e.toNat - 48 + 1) ≤ p * (d.toNat - 48) := Nat.mul_le_mul_left p (by omega)
        rw [Nat.mul_add] at hmul
        have hnot : ¬ d < e := fun h => absurd (show d.toNat < e.toNat from h) (by omega)
        have hne : d ≠ e := by
          rintro rfl
          omega
        simp only [hnot, hne, false_and, or_self, false_iff]
        omega

/-! ## Digits -/

theorem isDigit_toUInt8 {c : Char} (h : c.isDigit = true) : IsDigit c.val.toUInt8 ∧ c.val.toUInt8.toNat = c.toNat := by
  have hc : 48 ≤ c.toNat ∧ c.toNat ≤ 57 := by simpa [Char.isDigit, UInt32.le_iff_toNat_le] using h
  have hnat : c.val.toUInt8.toNat = c.toNat := by
    rw [UInt32.toNat_toUInt8]
    exact Nat.mod_eq_of_lt (show c.toNat < 256 by omega)
  refine ⟨⟨?_, ?_⟩, hnat⟩
  · show (48 : UInt8).toNat ≤ c.val.toUInt8.toNat
    rw [hnat]
    exact hc.1
  · show c.val.toUInt8.toNat < (58 : UInt8).toNat
    rw [hnat]
    exact Nat.lt_succ_of_le hc.2

theorem isDigit_digits (n : Nat) : ∀ d ∈ digits n, IsDigit d := by
  intro d hd
  obtain ⟨c, hc, rfl⟩ := List.mem_map.1 hd
  exact (isDigit_toUInt8 (Nat.isDigit_of_mem_toDigits (by decide) (by decide) hc)).1

theorem value_digits (n : Nat) : value (digits n) = n := by
  have h : ∀ (cs : List Char) (m : Nat), (∀ c ∈ cs, c.isDigit = true) →
      valueFrom m (cs.map fun c => c.val.toUInt8) = Nat.ofDigitChars 10 cs m := by
    intro cs
    induction cs with
    | nil => simp
    | cons c cs ih =>
      intro m hcs
      have hc := (isDigit_toUInt8 (hcs c List.mem_cons_self)).2
      rw [List.map_cons, valueFrom_cons, Nat.ofDigitChars_cons, hc]
      exact ih _ fun x hx => hcs x (List.mem_cons_of_mem c hx)
  rw [value, digits, h _ _ fun c hc => Nat.isDigit_of_mem_toDigits (by decide) (by decide) hc,
    Nat.ofDigitChars_ten_toDigits]

theorem digits_inj {m n : Nat} : digits m = digits n ↔ m = n := by
  constructor
  · intro h
    rw [← value_digits m, h, value_digits]
  · rintro rfl
    rfl

theorem not_mem_of_isDigit {ds : List UInt8} (h : ∀ d ∈ ds, IsDigit d) {b : UInt8} (hb : ¬ IsDigit b) : b ∉ ds :=
  fun hm => hb (h b hm)

/-- A text is cut at the first `b`. -/
theorem append_cons_inj {b : UInt8} {xs ys as bs : List UInt8} (hx : b ∉ xs) (hy : b ∉ ys)
    (h : xs ++ b :: as = ys ++ b :: bs) : xs = ys ∧ as = bs := by
  induction xs generalizing ys with
  | nil =>
    cases ys with
    | nil => simpa using h
    | cons y ys =>
      obtain ⟨rfl, -⟩ : b = y ∧ as = ys ++ b :: bs := by simpa using h
      simp at hy
  | cons x xs ih =>
    cases ys with
    | nil =>
      obtain ⟨rfl, -⟩ : x = b ∧ xs ++ b :: as = bs := by simpa using h
      simp at hx
    | cons y ys =>
      obtain ⟨rfl, h'⟩ : x = y ∧ xs ++ b :: as = ys ++ b :: bs := by simpa using h
      obtain ⟨rfl, has⟩ := ih (fun hm => hx (List.mem_cons_of_mem x hm)) (fun hm => hy (List.mem_cons_of_mem x hm)) h'
      exact ⟨rfl, has⟩

/-- A text is cut at the last `b`. -/
theorem append_cons_inj_last {b : UInt8} {xs ys as bs : List UInt8} (ha : b ∉ as) (hb : b ∉ bs)
    (h : xs ++ b :: as = ys ++ b :: bs) : xs = ys ∧ as = bs := by
  have hrev : as.reverse ++ b :: xs.reverse = bs.reverse ++ b :: ys.reverse := by
    have h' := congrArg List.reverse h
    simpa using h'
  obtain ⟨has, hxs⟩ := append_cons_inj (by simpa using ha) (by simpa using hb) hrev
  exact ⟨List.reverse_inj.1 hxs, List.reverse_inj.1 has⟩

instance : DecidablePred IsDigit := fun b => inferInstanceAs (Decidable (48 ≤ b ∧ b < 58))

/-- The number that a text begins with. -/
def lead (s : List UInt8) : Nat := value (s.takeWhile IsDigit)

/-- **What is printed is read back**, up to the first byte that is no digit. -/
theorem lead_digits {b : UInt8} (hb : ¬ IsDigit b) (n : Nat) (rest : List UInt8) :
    lead (digits n ++ b :: rest) = n := by
  have htake : (digits n ++ b :: rest).takeWhile IsDigit = digits n := by
    rw [List.takeWhile_append_of_pos fun d hd => decide_eq_true (isDigit_digits n d hd)]
    simp [hb]
  rw [lead, htake, value_digits]

theorem digits_cons (n : Nat) : ∃ d ds, digits n = d :: ds ∧ IsDigit d := by
  cases h : digits n with
  | nil =>
    have hpos := Nat.length_toDigits_pos (b := 10) (n := n)
    have hlen := congrArg List.length h
    simp only [digits, List.length_map, List.length_nil] at hlen
    omega
  | cons d ds => exact ⟨d, ds, rfl, isDigit_digits n d (h ▸ List.mem_cons_self)⟩

/-! ## Numbers of one width -/

theorem isDigit_padded (w n : Nat) : ∀ d ∈ padded w n, IsDigit d := by
  intro d hd
  rcases List.mem_append.1 hd with h | h
  · obtain rfl := List.eq_of_mem_replicate h
    decide
  · exact isDigit_digits n d h

theorem value_padded (w n : Nat) : value (padded w n) = n := by
  rw [padded, value_append, value_zeros, value_digits, Nat.mul_zero, Nat.zero_add]

theorem length_padded_le {v w n : Nat} (hv : 0 < v) (hle : w ≤ v) (h : n < 10 ^ v) : (padded w n).length ≤ v := by
  have hdigits : (digits n).length ≤ v := by
    rw [digits, List.length_map]
    exact (Nat.length_toDigits_le_iff (by decide) hv).2 h
  rw [padded, List.length_append, List.length_replicate]
  omega

theorem length_padded {w n : Nat} (hw : 0 < w) (h : n < 10 ^ w) : (padded w n).length = w := by
  have hle : (digits n).length ≤ w := by
    rw [digits, List.length_map]
    exact (Nat.length_toDigits_le_iff (by decide) hw).2 h
  rw [padded, List.length_append, List.length_replicate]
  omega

theorem padded_inj {w m n : Nat} : padded w m = padded w n ↔ m = n := by
  constructor
  · intro h
    rw [← value_padded w m, h, value_padded]
  · rintro rfl
    rfl

theorem padded_append_eq_iff {w m n : Nat} (hw : 0 < w) (hm : m < 10 ^ w) (hn : n < 10 ^ w) {as bs : List UInt8} :
    padded w m ++ as = padded w n ++ bs ↔ m = n ∧ as = bs := by
  have hlen : (padded w m).length = (padded w n).length := by rw [length_padded hw hm, length_padded hw hn]
  constructor
  · intro h
    obtain ⟨hpad, has⟩ := List.append_inj h hlen
    exact ⟨padded_inj.1 hpad, has⟩
  · rintro ⟨rfl, rfl⟩
    rfl

theorem append_lt_append_iff {as as' bs bs' : List UInt8} (h : as.length = as'.length) :
    as ++ bs < as' ++ bs' ↔ as < as' ∨ as = as' ∧ bs < bs' := by
  induction as generalizing as' with
  | nil =>
    obtain rfl := List.length_eq_zero_iff.1 h.symm
    simp
  | cons a as ih =>
    cases as' with
    | nil => simp at h
    | cons a' as' =>
      rw [List.cons_append, List.cons_append, List.cons_lt_cons_iff, List.cons_lt_cons_iff, ih (by simpa using h),
        List.cons.injEq]
      tauto

/-- **Texts that start with numbers of one width** compare as the numbers do. -/
theorem padded_append_lt_iff {w m n : Nat} (hw : 0 < w) (hm : m < 10 ^ w) (hn : n < 10 ^ w) {as bs : List UInt8} :
    padded w m ++ as < padded w n ++ bs ↔ m < n ∨ m = n ∧ as < bs := by
  have hlen : (padded w m).length = (padded w n).length := by rw [length_padded hw hm, length_padded hw hn]
  rw [append_lt_append_iff hlen, lt_iff_value (isDigit_padded w m) (isDigit_padded w n) hlen, value_padded,
    value_padded,
    padded_inj]

end Decimal
