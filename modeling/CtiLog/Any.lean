import CtiLog.Template
/-
# `Any`: a value and the name of its type

The C++ types that `Any` and `boost::any` deal with are a `Ty`; an object (`Obj`) carries a value of
its own type, so an ill-typed object cannot be built, and a `boost::shared_ptr<T>` is null or points
to a `T`. `Any` itself is just its two members: nothing in the type ties `data` to `typeinfo`.

| here | there |
| --- | --- |
| `BoostAny`                        | what a `boost::any` argument can hold |
| `toT`, `toT1` … `toT5`            | `Any::toT<T, C1, …>` (any.hpp:667-840), by the template of `Template.lean` |
| `toTPtr`                          | `Any::toTPtr<T>(boost::any const&)` (:641) |
| `Any.toTPtrProbe`, `Any.initByPtr`| `Any::__toTPtr` (:64), `Any::initByPtr` (:84) |
| `convert`, `Any.initByObj`        | `Any::initByObj` (:194) |
| `Any.init`, `Any.init2`           | `Any::init` (:38, :52); `assign` is the same |
| `Any.reset`, `Any.toTPtr`         | `Any::reset` (any.cpp:153), `Any::toTPtr` (:446) |
-/

namespace CtiLog

/-! ## Types and objects -/

inductive Ty where
  | void
  | bool | char | short | int | long | longLong
  | unsignedChar | unsignedShort | unsigned | unsignedLong | unsignedLongLong
  | string | anyVector | dataAndSize | anyable
  | constCharPtr | charPtr
  | user (n : Nat)
deriving DecidableEq, Repr

/-- `DataAndSize`: the memory its pointer leads to, and the size recorded for it. -/
structure DataAndSize where
  data : Option Str
  size : Nat

/-- What the virtual functions of an `Anyable` return. -/
structure Anyable where
  data : Option Str
  size : Nat
  isBinary : Bool
  typeInfo : Ty

/-- The values of a type; there is no object of type `void`. -/
def Ty.Val : Ty → Type
  | .void => Empty
  | .bool | .char | .short | .int | .long | .longLong => Int
  | .unsignedChar | .unsignedShort | .unsigned | .unsignedLong | .unsignedLongLong => Int
  | .string | .anyVector => Str
  | .dataAndSize => DataAndSize
  | .anyable => Anyable
  | .constCharPtr | .charPtr => Option Str
  | .user _ => Nat

structure Obj where
  ty : Ty
  val : ty.Val

theorem Obj.ty_ne_void (o : Obj) : o.ty ≠ .void := by
  obtain ⟨ty, val⟩ := o
  rintro rfl
  exact val.elim

/-- A `boost::shared_ptr<T>` or `boost::shared_ptr<T const>`; one of `void` may point to anything. -/
structure SharedPtr (T : Ty) where
  get : Option Obj
  typed : T ≠ .void → ∀ o ∈ get, o.ty = T

inductive BoostAny where
  | empty
  | obj (o : Obj)
  | ptr (T : Ty) (isConst : Bool) (p : SharedPtr T)

/-! ## Conversions -/

/-- The number in an integer object. -/
def Ty.toInt : (s : Ty) → s.Val → Option Int
  | .bool, v | .char, v | .short, v | .int, v | .long, v | .longLong, v => some v
  | .unsignedChar, v | .unsignedShort, v | .unsigned, v | .unsignedLong, v | .unsignedLongLong, v => some v
  | _, _ => none

/-- Conversion of a number to an integer type (LP64, `char` signed). -/
def Ty.ofInt : (t : Ty) → Int → Option t.Val
  | .bool, v => some (if v = 0 then (0 : Int) else (1 : Int))
  | .char, v => some (v.bmod (2 ^ 8))
  | .short, v => some (v.bmod (2 ^ 16))
  | .int, v => some (v.bmod (2 ^ 32))
  | .long, v | .longLong, v => some (v.bmod (2 ^ 64))
  | .unsignedChar, v => some (v % 2 ^ 8)
  | .unsignedShort, v => some (v % 2 ^ 16)
  | .unsigned, v => some (v % 2 ^ 32)
  | .unsignedLong, v | .unsignedLongLong, v => some (v % 2 ^ 64)
  | _, _ => none

/-- `static_cast`; `none` is a cast that does not exist, or `std::string` of a null pointer, which throws. -/
def staticCast : (s : Ty) → s.Val → (t : Ty) → Option t.Val
  | .constCharPtr, p, .string => p
  | .charPtr, p, .string => p
  | s, x, t => (s.toInt x).bind t.ofInt

/-- A code and a value. -/
abbrev Casted (T : Ty) := Template.Casted T.Val

def badCast {T : Ty} : Casted T := Template.badCast

/-- The value a `boost::any` holds, if it is one of a `Ty`. -/
def BoostAny.held : BoostAny → Template.Held Ty.Val
  | .obj o => some ⟨o.ty, o.val⟩
  | _ => none

section
variable (T C1 C2 C3 C4 C5 : Ty) (value : BoostAny)

def toT : Casted T := Template.toT T value.held

def toT1 : Option (Casted T) := Template.toT1 staticCast T C1 value.held

def toT2 : Option (Casted T) := Template.toT2 staticCast T C1 C2 value.held

def toT3 : Option (Casted T) := Template.toT3 staticCast T C1 C2 C3 value.held

def toT4 : Option (Casted T) := Template.toT4 staticCast T C1 C2 C3 C4 value.held

def toT5 : Option (Casted T) := Template.toT5 staticCast T C1 C2 C3 C4 C5 value.held

end

/-- `Any::toTPtr<T>(value)`: pointers to `void` are reinterpreted. -/
def toTPtr (T : Ty) : BoostAny → Int × Option Obj
  | .ptr S _ p => if S = .void ∨ S = T then (0, p.get) else (-Errno.badAnyCast.code, none)
  | _ => (-Errno.badAnyCast.code, none)

/-! ## `Any` -/

structure Any where
  data : Option Obj
  typeinfo : Ty

namespace Any

def new : Any := ⟨none, .void⟩

/-- The label `fail`, and `reset`. -/
def reset (_ : Any) : Any := ⟨none, .void⟩

/-- `Any::__toTPtr<P>` in `initByPtr<T>`. -/
def toTPtrProbe (P T : Ty) (value : BoostAny) (a : Any) : Int × Any :=
  if T ≠ P then (Errno.invalidType.code, a)
  else
    let (ret, casted) := CtiLog.toTPtr P value
    if ret < 0 then (ret, { a with data := casted }) else (0, ⟨casted, P⟩)

/-- The types `initByPtr` probes for, in order. -/
def probes : List Ty :=
  [.bool, .char, .short, .int, .long, .longLong, .unsignedChar, .unsignedShort, .unsigned, .unsignedLong,
    .unsignedLongLong, .string, .anyVector, .dataAndSize, .anyable]

/-- After all probes: a `boost::shared_ptr<T const>` of any other `T`. -/
def initByPtrGeneric (T : Ty) (value : BoostAny) (a : Any) : Any :=
  match value with
  | .ptr S true p => if S = T then ⟨p.get, T⟩ else a.reset
  | _ => a.reset

/-- The probes from some point on. -/
def initByPtrFrom (T : Ty) (value : BoostAny) : List Ty → Any → Any
  | [], a => initByPtrGeneric T value a
  | P :: Ps, a =>
    let (ret, a') := toTPtrProbe P T value a
    if ret < 0 then a'.reset else if ret = 0 then a' else initByPtrFrom T value Ps a'

def initByPtr (T : Ty) (value : BoostAny) (a : Any) : Any := initByPtrFrom T value probes a

/-- What `initByObj<T>` converts `value` to. -/
def convert (T : Ty) (value : BoostAny) : Option (Casted T) :=
  match T with
  | .bool => some (toT .bool value)
  | .char => toT1 .char .bool value
  | .short => toT2 .short .char .bool value
  | .int => toT3 .int .short .char .bool value
  | .long => toT4 .long .int .short .char .bool value
  | .longLong => toT5 .longLong .long .int .short .char .bool value
  | .unsignedChar => toT1 .unsignedChar .bool value
  | .unsignedShort => toT2 .unsignedShort .unsignedChar .bool value
  | .unsigned => toT3 .unsigned .unsignedShort .unsignedChar .bool value
  | .unsignedLong => toT4 .unsignedLong .unsigned .unsignedShort .unsignedChar .bool value
  | .unsignedLongLong => toT5 .unsignedLongLong .unsignedLong .unsigned .unsignedShort .unsignedChar .bool value
  | .string => toT2 .string .constCharPtr .charPtr value
  | .anyVector => some (toT .anyVector value)
  | .dataAndSize => some (toT .dataAndSize value)
  | _ => some badCast

/-- `initByObj<T>`, and whether it returned: when the conversion throws the `Any` stays as it was. -/
def initByObj (T : Ty) (value : BoostAny) (a : Any) : Any × Bool :=
  match convert T value with
  | none => (a, false)
  | some (_, some v) => (⟨some ⟨T, v⟩, T⟩, true)
  | some (_, none) => (a.reset, true)

/-- `operator bool`. -/
def isSet (a : Any) : Bool := a.data.isSome

/-- `init<T>(value)`: as a pointer, and if that leaves nothing, as an object. -/
def init (T : Ty) (value : BoostAny) (a : Any) : Any × Bool :=
  let a := a.initByPtr T value
  if a.isSet then (a, true) else a.initByObj T value

/-- `init<T>(value, isPtr)`. -/
def init2 (T : Ty) (value : BoostAny) (isPtr : Bool) (a : Any) : Any × Bool :=
  if isPtr then (a.initByPtr T value, true) else a.initByObj T value

def isT (T : Ty) (a : Any) : Bool := T == a.typeinfo

/-- `toTPtr<T>()`: the member function. -/
def toTPtr (T : Ty) (a : Any) : Int × Option Obj :=
  match a.data with
  | none => (-Errno.notSet.code, none)
  | some o =>
    if a.typeinfo = .void ∨ T ≠ a.typeinfo then (-Errno.invalidType.code, none) else (0, some o)

end Any

/-! ## Any number of `Any` objects -/

inductive AnyOp (ι : Type*) where
  | construct (i : ι)
  | copy (i j : ι)
  | assign (i j : ι)
  | init (i : ι) (T : Ty) (value : BoostAny)
  | init2 (i : ι) (T : Ty) (value : BoostAny) (isPtr : Bool)
  | reset (i : ι)

/-- The objects that exist. -/
abbrev Anys (ι : Type*) := ι → Option Any

/-- The caller names the right type for an object behind a `boost::shared_ptr<void>`. -/
def RightType (T : Ty) (value : BoostAny) : Prop :=
  ∀ isConst p, value = .ptr .void isConst p → ∀ o ∈ p.get, o.ty = T

/-- One operation on one object. -/
inductive AnyStep {ι : Type*} [DecidableEq ι] (s : Anys ι) : AnyOp ι → Anys ι → Prop
  | construct {i : ι} : s i = none → AnyStep s (.construct i) (Function.update s i (some .new))
  | copy {i j : ι} {other : Any} : s i = none → s j = some other →
      AnyStep s (.copy i j) (Function.update s i (some other))
  | assign {i j : ι} {a other : Any} : s i = some a → s j = some other →
      AnyStep s (.assign i j) (Function.update s i (some (if i = j then a else other)))
  | init {i : ι} {T : Ty} {value : BoostAny} {a : Any} : RightType T value → s i = some a →
      AnyStep s (.init i T value) (Function.update s i (some (a.init T value).1))
  | init2 {i : ι} {T : Ty} {value : BoostAny} {isPtr : Bool} {a : Any} : RightType T value → s i = some a →
      AnyStep s (.init2 i T value isPtr) (Function.update s i (some (a.init2 T value isPtr).1))
  | reset {i : ι} {a : Any} : s i = some a → AnyStep s (.reset i) (Function.update s i (some a.reset))

end CtiLog
