import CtiLog.Any
/-
# The four accessors of an `Any`

`toT` and `toTPtr`, each with and without a default, take the same decision, written out four times: not set,
another type, a bad cast, or the stored value. They agree but for one place: of another type than the stored one,
`toTPtrd` returns `nullptr`, where `toT` returns the default.

| here | there |
| --- | --- |
| `Any.toTPtr`, `Any.toTPtrd` | `Any::toTPtr`, `Any::toTPtrd` (any.hpp:447, :467) |
| `Any.toT`, `Any.toTDft`     | `Any::toT`, `Any::toT(dft, e)` (:498, :523) |

A value is read through its pointer, so it is the object the pointer leads to.
-/

namespace CtiLog

namespace Any

/-- `reinterpret_pointer_cast`: the pointer stays the same. -/
def reinterpretToTPtr (_T : Ty) (value : Option Obj) : Option Obj := value

/-- `this->data` as the `boost::any` that the static `toTPtr<T>` is handed. -/
def dataAny (a : Any) : BoostAny := .ptr .void true ⟨a.data, fun h => absurd rfl h⟩

/-- What `toTPtrd(dft, e)` returns, and what it sets `*e` to. -/
def toTPtrd (T : Ty) (dft : Option Obj) (a : Any) : Option Obj × Int :=
  if a.data = none then (dft, -Errno.notSet.code)
  else if .void = a.typeinfo ∨ T ≠ a.typeinfo then (none, -Errno.invalidType.code)
  else
    let (ret, ptr) := CtiLog.toTPtr T a.dataAny
    (ptr, ret)

def toT (T : Ty) (a : Any) : Int × Option Obj :=
  if a.data = none then (-Errno.notSet.code, none)
  else if .void = a.typeinfo ∨ T ≠ a.typeinfo then (-Errno.invalidType.code, none)
  else
    match reinterpretToTPtr T a.data with
    | none => (-Errno.badAnyCast.code, none)
    | some o => (Errno.ok.code, some o)

/-- What `toT(dft, e)` returns, and what it sets `*e` to. -/
def toTDft (T : Ty) (dft : Obj) (a : Any) : Obj × Int :=
  if a.data = none then (dft, -Errno.notSet.code)
  else if .void = a.typeinfo ∨ T ≠ a.typeinfo then (dft, -Errno.invalidType.code)
  else
    match reinterpretToTPtr T a.data with
    | none => (dft, -Errno.badAnyCast.code)
    | some o => (o, Errno.ok.code)

/-- The four accessors tell the same story. -/
structure Agree (T : Ty) (dft : Obj) (dftPtr : Option Obj) (a : Any) : Prop where
  succeed : (a.toT T).1 = 0 ↔ (a.toTPtr T).1 = 0
  stored : (a.toT T).1 = 0 → ∃ o, a.data = some o ∧ (a.toT T).2 = some o ∧ (a.toTPtr T).2 = some o
  toT_e : (a.toTDft T dft).2 = (a.toT T).1
  toT_ok : (a.toT T).1 = 0 → some (a.toTDft T dft).1 = (a.toT T).2
  toT_dft : (a.toT T).1 < 0 → (a.toTDft T dft).1 = dft
  toTPtrd_e : (a.toTPtrd T dftPtr).2 = (a.toTPtr T).1
  toTPtrd_ok : (a.toTPtr T).1 = 0 → (a.toTPtrd T dftPtr).1 = (a.toTPtr T).2
  toTPtrd_dft : (a.toTPtr T).1 < 0 → (a.toTPtrd T dftPtr).1 = dftPtr

variable {T : Ty} {a : Any} {o : Obj}

/-! ## The three cases -/

theorem toTPtr_dataAny (T : Ty) (a : Any) : CtiLog.toTPtr T a.dataAny = (0, a.data) := by
  simp [CtiLog.toTPtr, dataAny]

/-- Nothing is stored: every code is `NotSet`. -/
theorem agree_unset (h : a.data = none) (dft : Obj) (dftPtr : Option Obj) : a.Agree T dft dftPtr := by
  have hneg : ¬ -Errno.notSet.code = 0 := by decide
  have htoT : a.toT T = (-Errno.notSet.code, none) := by rw [toT, if_pos h]
  have hptr : a.toTPtr T = (-Errno.notSet.code, none) := by rw [toTPtr, h]
  have hdft : a.toTDft T dft = (dft, -Errno.notSet.code) := by rw [toTDft, if_pos h]
  have hptrd : a.toTPtrd T dftPtr = (dftPtr, -Errno.notSet.code) := by rw [toTPtrd, if_pos h]
  constructor <;> simp [htoT, hptr, hdft, hptrd, hneg]

/-- The stored object, under its own type. -/
theorem agree_typed (h : a.data = some o) (hvoid : a.typeinfo ≠ .void) (hT : T = a.typeinfo) (dft : Obj)
    (dftPtr : Option Obj) : a.Agree T dft dftPtr := by
  have hset : ¬ a.data = none := by simp [h]
  have hok : ¬ (.void = a.typeinfo ∨ T ≠ a.typeinfo) := by tauto
  have htoT : a.toT T = (0, some o) := by
    rw [toT, if_neg hset, if_neg hok, h]
    rfl
  have hptr : a.toTPtr T = (0, some o) := by
    rw [toTPtr, h]
    exact if_neg (by tauto)
  have hdft : a.toTDft T dft = (o, 0) := by
    rw [toTDft, if_neg hset, if_neg hok, h]
    rfl
  have hptrd : a.toTPtrd T dftPtr = (some o, 0) := by
    rw [toTPtrd, if_neg hset, if_neg hok, toTPtr_dataAny, h]
  constructor <;> simp [htoT, hptr, hdft, hptrd, h]

/-- Asked for another type: only the default of `toTPtrd` is lost. -/
theorem agree_other_iff (h : a.data = some o) (hT : .void = a.typeinfo ∨ T ≠ a.typeinfo) (dft : Obj)
    (dftPtr : Option Obj) : a.Agree T dft dftPtr ↔ dftPtr = none := by
  have hset : ¬ a.data = none := by simp [h]
  have hneg : ¬ -Errno.invalidType.code = 0 := by decide
  have hlt : -Errno.invalidType.code < 0 := by decide
  have htoT : a.toT T = (-Errno.invalidType.code, none) := by rw [toT, if_neg hset, if_pos hT]
  have hptr : a.toTPtr T = (-Errno.invalidType.code, none) := by
    rw [toTPtr, h]
    exact if_pos (by tauto)
  have hdft : a.toTDft T dft = (dft, -Errno.invalidType.code) := by rw [toTDft, if_neg hset, if_pos hT]
  have hptrd : a.toTPtrd T dftPtr = (none, -Errno.invalidType.code) := by rw [toTPtrd, if_neg hset, if_pos hT]
  constructor
  · intro hagree
    have hdefault := hagree.toTPtrd_dft (by rw [hptr]; exact hlt)
    rw [hptrd] at hdefault
    exact hdefault.symm
  · rintro rfl
    constructor <;> simp [htoT, hptr, hdft, hptrd, hneg]

/-- **The accessors agree** unless `toTPtrd` is asked for another type than the stored one with a default that is
not null. -/
theorem agree_iff (T : Ty) (dft : Obj) (dftPtr : Option Obj) (a : Any) :
    a.Agree T dft dftPtr ↔ a.data = none ∨ (a.typeinfo ≠ .void ∧ T = a.typeinfo) ∨ dftPtr = none := by
  cases hd : a.data with
  | none => exact iff_of_true (agree_unset hd dft dftPtr) (.inl rfl)
  | some o =>
    by_cases hT : .void = a.typeinfo ∨ T ≠ a.typeinfo
    · rw [agree_other_iff hd hT]
      have hno : ¬ (a.typeinfo ≠ .void ∧ T = a.typeinfo) := by tauto
      simp [hno]
    · have hyes : a.typeinfo ≠ .void ∧ T = a.typeinfo := by tauto
      exact iff_of_true (agree_typed hd hyes.1 hyes.2 dft dftPtr) (.inr (.inl hyes))

/-- An `Any` of the `int` 3, asked for a `short` with a pointer to 7 as default: the pointer accessor returns null. -/
theorem default_pointer_lost :
    let a : Any := ⟨some ⟨.int, (3 : Int)⟩, .int⟩
    let seven : Obj := ⟨.short, (7 : Int)⟩
    (a.toTDft .short seven).1 = seven ∧ (a.toTPtrd .short (some seven)).1 = none ∧
      ¬ a.Agree .short seven (some seven) := by
  intro a seven
  refine ⟨rfl, rfl, fun h => ?_⟩
  have hdefault := h.toTPtrd_dft (by decide)
  cases hdefault

end Any

end CtiLog
