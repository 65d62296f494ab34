import CtiLog.Any
/-
# The candidate types of `Any::toT`

An overload accepts what it names but for a value of its fifth candidate type (`Template.lean`); `initByObj<T>`
goes from the wider of the narrower types to `bool`, so a `long long` misses it.

* `convert_eq` — `initByObj` of an integer type converts by one overload of the template.
* `candidates_iff` — what an overload accepts; and `initByObj<T>` stores a narrower integer iff it is not a `bool`
  for a `long long`.
-/

namespace CtiLog

/-! ## The overloads of `initByObj` -/

/-- Which overload `initByObj<T>` calls for an integer type. -/
def Ty.overload : Ty → Template.Overload Ty
  | .char | .unsignedChar => .one .bool
  | .short => .two .char .bool
  | .int => .three .short .char .bool
  | .long => .four .int .short .char .bool
  | .longLong => .five .long .int .short .char .bool
  | .unsignedShort => .two .unsignedChar .bool
  | .unsigned => .three .unsignedShort .unsignedChar .bool
  | .unsignedLong => .four .unsigned .unsignedShort .unsignedChar .bool
  | .unsignedLongLong => .five .unsignedLong .unsigned .unsignedShort .unsignedChar .bool
  | _ => .none

def Ty.integers : List Ty :=
  [.bool, .char, .short, .int, .long, .longLong, .unsignedChar, .unsignedShort, .unsigned, .unsignedLong, .unsignedLongLong]

/-- `n` is a number of the type. -/
def Ty.Holds (t : Ty) (n : Int) : Prop := (t.ofInt n).bind t.toInt = some n

variable {T S : Ty} {n : Int}

/-- **`initByObj` of an integer type converts by the template.** -/
theorem convert_eq (hT : T ∈ Ty.integers) (value : BoostAny) :
    Any.convert T value = T.overload.toT staticCast T value.held := by
  cases T with
  | bool | char | short | int | long | longLong => rfl
  | unsignedChar | unsignedShort | unsigned | unsignedLong | unsignedLongLong => rfl
  | _ => simp [Ty.integers] at hT

theorem staticCast_integer (hS : S ∈ Ty.integers) (v : S.Val) (T : Ty) :
    staticCast S v T = (S.toInt v).bind T.ofInt := by
  simp only [Ty.integers, List.mem_cons, List.not_mem_nil, or_false] at hS
  rcases hS with rfl | rfl | rfl | rfl | rfl | rfl | rfl | rfl | rfl | rfl | rfl <;> rfl

theorem bmod_self_iff {h : Nat} (hpos : 0 < h) : n.bmod (2 * h) = n ↔ -(h : Int) ≤ n ∧ n < h := by
  constructor
  · intro heq
    have hle := Int.le_bmod (x := n) (show 0 < 2 * h by omega)
    have hlt := Int.bmod_lt (x := n) (show 0 < 2 * h by omega)
    omega
  · rintro ⟨hle, hlt⟩
    exact Int.bmod_eq_of_le (by omega) (by omega)

theorem emod_self_iff {m : Nat} (hpos : 0 < m) : n % m = n ↔ 0 ≤ n ∧ n < m := by
  constructor
  · intro heq
    have := Int.emod_nonneg n (show (m : Int) ≠ 0 by omega)
    have := Int.emod_lt_of_pos n (show (0 : Int) < m by omega)
    omega
  · rintro ⟨hle, hlt⟩
    exact Int.emod_eq_of_lt hle hlt

/-- The numbers of the integer types (LP64). -/
def Ty.range : Ty → Int × Int
  | .bool => (0, 2)
  | .char => (-2 ^ 7, 2 ^ 7)
  | .short => (-2 ^ 15, 2 ^ 15)
  | .int => (-2 ^ 31, 2 ^ 31)
  | .long | .longLong => (-2 ^ 63, 2 ^ 63)
  | .unsignedChar => (0, 2 ^ 8)
  | .unsignedShort => (0, 2 ^ 16)
  | .unsigned => (0, 2 ^ 32)
  | .unsignedLong | .unsignedLongLong => (0, 2 ^ 64)
  | _ => (0, 0)

theorem holds_iff (hT : T ∈ Ty.integers) : T.Holds n ↔ T.range.1 ≤ n ∧ n < T.range.2 := by
  have hsome : ∀ m : Int, some m = some n ↔ m = n := fun m => Option.some.injEq m n ▸ Iff.rfl
  cases T with
  | bool =>
    have h : Ty.bool.Holds n ↔ (if n = 0 then (0 : Int) else 1) = n := hsome _
    rw [h]
    show _ ↔ (0 : Int) ≤ n ∧ n < 2
    split <;> omega
  | char => exact (hsome _).trans (bmod_self_iff (show 0 < 2 ^ 7 by decide))
  | short => exact (hsome _).trans (bmod_self_iff (show 0 < 2 ^ 15 by decide))
  | int => exact (hsome _).trans (bmod_self_iff (show 0 < 2 ^ 31 by decide))
  | long => exact (hsome _).trans (bmod_self_iff (show 0 < 2 ^ 63 by decide))
  | longLong => exact (hsome _).trans (bmod_self_iff (show 0 < 2 ^ 63 by decide))
  | unsignedChar => exact (hsome _).trans (emod_self_iff (show 0 < 2 ^ 8 by decide))
  | unsignedShort => exact (hsome _).trans (emod_self_iff (show 0 < 2 ^ 16 by decide))
  | unsigned => exact (hsome _).trans (emod_self_iff (show 0 < 2 ^ 32 by decide))
  | unsignedLong => exact (hsome _).trans (emod_self_iff (show 0 < 2 ^ 64 by decide))
  | unsignedLongLong => exact (hsome _).trans (emod_self_iff (show 0 < 2 ^ 64 by decide))
  | _ => simp [Ty.integers] at hT

/-- A narrower type of the chain is another integer type, with no other numbers. -/
theorem chain_narrower (hT : T ∈ Ty.integers) (hS : S ∈ T.overload.candidates) :
    S ∈ Ty.integers ∧ S ≠ T ∧ T.range.1 ≤ S.range.1 ∧ S.range.2 ≤ T.range.2 := by
  have hall : ∀ T ∈ Ty.integers, ∀ S ∈ T.overload.candidates,
      S ∈ Ty.integers ∧ S ≠ T ∧ T.range.1 ≤ S.range.1 ∧ S.range.2 ≤ T.range.2 := by decide
  exact hall T hT S hS

/-- What is not tried of a chain. -/
theorem chain_tried_iff (hT : T ∈ Ty.integers) (hS : S ∈ T.overload.candidates) :
    S ∈ T.overload.tried ↔ ¬ (S = .bool ∧ (T = .longLong ∨ T = .unsignedLongLong)) := by
  have hall : ∀ T ∈ Ty.integers, ∀ S ∈ T.overload.candidates,
      S ∈ T.overload.tried ↔ ¬ (S = .bool ∧ (T = .longLong ∨ T = .unsignedLongLong)) := by decide
  exact hall T hT S hS

/-- `initByObj<T>` of an `S` leaves a `T` with the same number. -/
def Stores (T S : Ty) (v : S.Val) (a : Any) : Prop :=
  ∃ x, a.initByObj T (.obj ⟨S, v⟩) = (⟨some ⟨T, x⟩, T⟩, true) ∧ T.toInt x = S.toInt v

/-- **A narrower integer is stored** iff the conversion tries its type. -/
theorem stores_iff (hT : T ∈ Ty.integers) (hS : S ∈ T.overload.candidates) {v : S.Val} (hv : S.toInt v = some n)
    (hn : S.Holds n) (a : Any) : Stores T S v a ↔ ¬ (S = .bool ∧ (T = .longLong ∨ T = .unsignedLongLong)) := by
  obtain ⟨hint, hne, hlo, hhi⟩ := chain_narrower hT hS
  have hmeets : Template.Meets staticCast T T.overload.tried S v (Any.convert T (.obj ⟨S, v⟩)) := by
    rw [convert_eq hT]
    exact Template.meets_tried T.overload T v
  rw [← chain_tried_iff hT hS]
  unfold Stores Any.initByObj
  by_cases ht : S ∈ T.overload.tried
  · refine iff_of_true ?_ ht
    have hrange := (holds_iff hint).1 hn
    have hwide : T.Holds n := (holds_iff hT).2 ⟨by omega, by omega⟩
    obtain ⟨x, hx, hxn⟩ := Option.bind_eq_some_iff.1 hwide
    have hcast : staticCast S v T = some x := by
      rw [staticCast_integer hint, hv]
      exact hx
    rw [hmeets.candidate hne ht, hcast]
    exact ⟨x, rfl, hxn.trans hv.symm⟩
  · refine iff_of_false ?_ ht
    obtain ⟨code, -, hr⟩ := hmeets.refused hne ht
    rw [hr]
    rintro ⟨x, hx, -⟩
    cases hx

/-- **`Any::toT` accepts its candidates** iff the value is of its target, of one of the first four, or of none of
them; and `initByObj` stores the narrower integers iff the `bool` is not for a `long long`. -/
theorem candidates_iff {τ : Type*} [DecidableEq τ] {Val : τ → Type*} (cast : Template.StaticCast Val) :
    (∀ (o : Template.Overload τ) (T S : τ) (v : Val S),
      Template.Meets cast T o.candidates S v (o.toT cast T (some ⟨S, v⟩)) ↔
        S = T ∨ S ∈ o.candidates.take 4 ∨ S ∉ o.candidates) ∧
    (∀ (T S : Ty) (v : S.Val) (n : Int) (a : Any), T ∈ Ty.integers → S ∈ T.overload.candidates → S.toInt v = some n →
      S.Holds n → (Stores T S v a ↔ ¬ (S = .bool ∧ (T = .longLong ∨ T = .unsignedLongLong)))) :=
  ⟨fun o T _ v => Template.meets_candidates_iff o T v, fun _ _ _ _ a hT hS hv hn => stores_iff hT hS hv hn a⟩

/-- `true` is refused for a `long long`: `bool` is its fifth candidate. -/
theorem bool_refused :
    let value : BoostAny := .obj ⟨.bool, (1 : Int)⟩
    (toT5 .longLong .long .int .short .char .bool value).map Prod.fst = some (-Errno.badAnyCast.code) ∧
      (Any.new.initByObj .longLong value).1.isSet = false ∧
      ¬ Template.Meets staticCast .longLong [.long, .int, .short, .char, .bool] .bool (1 : Int)
        (Ty.longLong.overload.toT staticCast .longLong value.held) := by
  intro value
  refine ⟨rfl, rfl, fun h => ?_⟩
  have hcast : some Template.badCast = some (0, some (1 : Int)) := h.candidate (by decide) (by decide)
  exact absurd (congrArg (Option.map Prod.fst) hcast) (by decide)

/-- A `char` is stored as an `int`. -/
theorem candidates_iff_char : Stores .int .char (65 : Int) .new :=
  ((candidates_iff staticCast).2 .int .char (65 : Int) 65 .new (by decide) (by decide) rfl (by rfl)).2 (by decide)

end CtiLog
