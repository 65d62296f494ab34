import CtiLog.TypeTag
import Mathlib.Data.Finset.Basic
/-
# `Any`s that share their objects

`data` is a `boost::shared_ptr`: a copy of an `Any`, an assigned one, and one that was given a pointer do not have an
object of their own. Everywhere else in this development an `Any` has its object itself; that is right as long as no
caller writes through a pointer of its own to an object that an `Any` has (`shared_values_iff`). `initByObj` makes a
new object, to which no caller has a pointer that is not `const`; the `Any`s that have it are safe (`left_alone_iff`).
That is said of objects that have their values in themselves: the bytes of a `DataAndSize`, of an `Anyable` or of a
`char const*` lie behind a raw pointer, where their owner may write at any time (`Ty.Whole`).

| here | there |
| --- | --- |
| `Members`                   | `data`, `typeinfo` (any.hpp:859) |
| `Arg`                       | a `boost::any` argument, a pointer in it by the number of its object |
| `Members.toTPtr` … `init2`  | as in `Any.lean`, with the pointer (any.hpp:64-192, :641) and not with its object |
| `initByObj`                 | `initByObj`: `boost::make_shared` (:194) |
| `ShareOp.make`, `.write`, `.drop` | a caller's own `boost::shared_ptr<T>`: made, written through, given up |

Objects are numbered as they are made, and stay: nobody looks at one that nobody has.
-/

namespace CtiLog

open Runs

/-! ## Pointers -/

structure Members where
  data : Option ℕ
  typeinfo : Ty

inductive Arg where
  | empty
  | obj (o : Obj)
  | ptr (T : Ty) (isConst : Bool) (p : Option ℕ)

namespace Arg

/-- `Any::toTPtr<T>(value)`. -/
def toTPtr (T : Ty) : Arg → Int × Option ℕ
  | .ptr S _ p => if S = .void ∨ S = T then (0, p) else (-Errno.badAnyCast.code, none)
  | _ => (-Errno.badAnyCast.code, none)

/-- What a cast to a type that is no pointer finds. -/
def held : Arg → BoostAny
  | .obj o => .obj o
  | _ => .empty

end Arg

namespace Members

def new : Members := ⟨none, .void⟩

def reset (_ : Members) : Members := ⟨none, .void⟩

def toTPtrProbe (P T : Ty) (value : Arg) (m : Members) : Int × Members :=
  if T ≠ P then (Errno.invalidType.code, m)
  else
    let (ret, casted) := value.toTPtr P
    if ret < 0 then (ret, { m with data := casted }) else (0, ⟨casted, P⟩)

def initByPtrGeneric (T : Ty) (value : Arg) (m : Members) : Members :=
  match value with
  | .ptr S true p => if S = T then ⟨p, T⟩ else m.reset
  | _ => m.reset

def initByPtrFrom (T : Ty) (value : Arg) : List Ty → Members → Members
  | [], m => initByPtrGeneric T value m
  | P :: Ps, m =>
    let (ret, m') := toTPtrProbe P T value m
    if ret < 0 then m'.reset else if ret = 0 then m' else initByPtrFrom T value Ps m'

def initByPtr (T : Ty) (value : Arg) (m : Members) : Members := initByPtrFrom T value Any.probes m

end Members

/-- All objects, oldest first. -/
abbrev Objs := List Obj

namespace Members

variable (mem : Objs)

/-- `initByObj<T>`: a throwing conversion leaves everything as it was. -/
def initByObj (T : Ty) (value : Arg) (m : Members) : Members × Objs :=
  match Any.convert T value.held with
  | none => (m, mem)
  | some (_, some v) => (⟨some mem.length, T⟩, mem ++ [⟨T, v⟩])
  | some (_, none) => (m.reset, mem)

def init (T : Ty) (value : Arg) (m : Members) : Members × Objs :=
  let m := m.initByPtr T value
  if m.data.isSome then (m, mem) else m.initByObj mem T value

def init2 (T : Ty) (value : Arg) (isPtr : Bool) (m : Members) : Members × Objs :=
  if isPtr then (m.initByPtr T value, mem) else m.initByObj mem T value

end Members

/-! ## Any number of `Any`s, and their callers -/

/-- The value of an object of the type is in the object. -/
def Ty.Whole : Ty → Prop
  | .dataAndSize | .anyable | .constCharPtr | .charPtr => False
  | _ => True

structure Sharing (ι : Type*) where
  mem : Objs
  anys : ι → Option Members
  /-- The objects a caller has a pointer to that is not `const`. -/
  writable : Finset ℕ

inductive ShareOp (ι : Type*) where
  | construct (i : ι)
  | copy (i j : ι)
  | assign (i j : ι)
  | init (i : ι) (T : Ty) (value : Arg)
  | init2 (i : ι) (T : Ty) (value : Arg) (isPtr : Bool)
  | reset (i : ι)
  | make (o : Obj)
  | write (p : ℕ) (o : Obj)
  | drop (p : ℕ)

/-- The argument, with the object instead of the pointer; a pointer is null or points to an object of its type. -/
inductive Looks (mem : Objs) : Arg → BoostAny → Prop
  | empty : Looks mem .empty .empty
  | obj {o : Obj} : Looks mem (.obj o) (.obj o)
  | ptr {S : Ty} {isConst : Bool} {p : Option ℕ} {sp : SharedPtr S} : (∀ k ∈ p, k < mem.length) →
      sp.get = p.bind (mem[·]?) → Looks mem (.ptr S isConst p) (.ptr S isConst sp)

/-- An `Any` with its object. -/
def Members.look (mem : Objs) (m : Members) : Any := ⟨m.data.bind (mem[·]?), m.typeinfo⟩

namespace Sharing

variable {ι : Type*}

def start : Sharing ι := ⟨[], fun _ => none, ∅⟩

def values (s : Sharing ι) : Anys ι := fun i => (s.anys i).map (Members.look s.mem)

variable [DecidableEq ι]

/-- The `Any` and the objects after an operation. -/
def put (s : Sharing ι) (i : ι) (r : Members × Objs) : Sharing ι :=
  { s with mem := r.2, anys := Function.update s.anys i (some r.1) }

end Sharing

inductive ShareStep {ι : Type*} [DecidableEq ι] (s : Sharing ι) : ShareOp ι → Sharing ι → Prop
  | construct {i : ι} : s.anys i = none → ShareStep s (.construct i) (s.put i (.new, s.mem))
  | copy {i j : ι} {other : Members} : s.anys i = none → s.anys j = some other →
      ShareStep s (.copy i j) (s.put i (other, s.mem))
  | assign {i j : ι} {m other : Members} : s.anys i = some m → s.anys j = some other →
      ShareStep s (.assign i j) (s.put i (if i = j then m else other, s.mem))
  | init {i : ι} {T : Ty} {value : Arg} {seen : BoostAny} {m : Members} : T.Whole → Looks s.mem value seen →
      RightType T seen → s.anys i = some m → ShareStep s (.init i T value) (s.put i (m.init s.mem T value))
  | init2 {i : ι} {T : Ty} {value : Arg} {isPtr : Bool} {seen : BoostAny} {m : Members} : T.Whole →
      Looks s.mem value seen → RightType T seen → s.anys i = some m →
      ShareStep s (.init2 i T value isPtr) (s.put i (m.init2 s.mem T value isPtr))
  | reset {i : ι} {m : Members} : s.anys i = some m → ShareStep s (.reset i) (s.put i (m.reset, s.mem))
  | make {o : Obj} : o.ty.Whole →
      ShareStep s (.make o) { s with mem := s.mem ++ [o], writable := insert s.mem.length s.writable }
  | write {p : ℕ} {old o : Obj} : p ∈ s.writable → s.mem[p]? = some old → o.ty = old.ty →
      ShareStep s (.write p o) { s with mem := s.mem.set p o }
  | drop {p : ℕ} : ShareStep s (.drop p) { s with writable := s.writable.erase p }

/-! ## An operation on pointers is the operation on objects -/

section
variable {mem : Objs} {T : Ty} {value : Arg} {seen : BoostAny}

theorem Looks.toTPtr (h : Looks mem value seen) (P : Ty) :
    (value.toTPtr P).1 = (CtiLog.toTPtr P seen).1 ∧
      (value.toTPtr P).2.bind (mem[·]?) = (CtiLog.toTPtr P seen).2 ∧ ∀ k ∈ (value.toTPtr P).2, k < mem.length := by
  cases h with
  | empty => simp [Arg.toTPtr, CtiLog.toTPtr]
  | obj => simp [Arg.toTPtr, CtiLog.toTPtr]
  | @ptr S isConst p sp hp hsp =>
    by_cases hS : S = .void ∨ S = P
    · simpa [Arg.toTPtr, CtiLog.toTPtr, hS, hsp] using hp
    · simp [Arg.toTPtr, CtiLog.toTPtr, hS]

namespace Members

theorem look_initByPtrGeneric (h : Looks mem value seen) (m : Members) :
    (initByPtrGeneric T value m).look mem = Any.initByPtrGeneric T seen (m.look mem) ∧
      ∀ k ∈ (initByPtrGeneric T value m).data, k < mem.length := by
  cases h with
  | empty => simp [initByPtrGeneric, Any.initByPtrGeneric, reset, Any.reset, look]
  | obj => simp [initByPtrGeneric, Any.initByPtrGeneric, reset, Any.reset, look]
  | @ptr S isConst p sp hp hsp =>
    cases isConst with
    | false => simp [initByPtrGeneric, Any.initByPtrGeneric, reset, Any.reset, look]
    | true =>
      by_cases hS : S = T
      · simpa [initByPtrGeneric, Any.initByPtrGeneric, hS, look, hsp] using hp
      · simp [initByPtrGeneric, Any.initByPtrGeneric, hS, reset, Any.reset, look]

theorem look_initByPtrFrom (h : Looks mem value seen) (Ps : List Ty) (m : Members) :
    (initByPtrFrom T value Ps m).look mem = Any.initByPtrFrom T seen Ps (m.look mem) ∧
      ∀ k ∈ (initByPtrFrom T value Ps m).data, k < mem.length := by
  induction Ps generalizing m with
  | nil => exact look_initByPtrGeneric h m
  | cons P Ps ih =>
    by_cases hT : T = P
    · obtain ⟨hret, hget, hlt⟩ := h.toTPtr P
      simp only [initByPtrFrom, Any.initByPtrFrom, toTPtrProbe, Any.toTPtrProbe, hT, ne_eq, not_true_eq_false, if_false,
        hret]
      by_cases hneg : (CtiLog.toTPtr P seen).1 < 0
      · simp [hneg, reset, Any.reset, look]
      · simpa [hneg, look, hget] using hlt
    · have hcode : ¬ Errno.invalidType.code < 0 ∧ ¬ Errno.invalidType.code = 0 := by decide
      simp only [initByPtrFrom, Any.initByPtrFrom, toTPtrProbe, Any.toTPtrProbe, ne_eq, hT, not_false_eq_true, if_true,
        hcode.1, hcode.2, if_false]
      exact ih m

theorem look_initByPtr (h : Looks mem value seen) (m : Members) :
    (m.initByPtr T value).look mem = (m.look mem).initByPtr T seen ∧ ∀ k ∈ (m.initByPtr T value).data, k < mem.length :=
  look_initByPtrFrom h Any.probes m

/-- A pointer converts to nothing, and neither does nothing. -/
theorem convert_held (h : Looks mem value seen) : Any.convert T value.held = Any.convert T seen := by
  cases h with
  | empty => rfl
  | obj => rfl
  | ptr _ _ => cases T <;> rfl

end Members

/-- What an operation may leave: the objects that were, and perhaps a new one. -/
structure Leaves (mem : Objs) (a : Any) (r : Members × Objs) : Prop where
  look : r.1.look r.2 = a
  prefix_ : mem <+: r.2
  bound : ∀ k ∈ r.1.data, k < r.2.length

namespace Members

variable {m : Members}

theorem initByObj_leaves (h : Looks mem value seen) (hm : ∀ k ∈ m.data, k < mem.length) :
    Leaves mem ((m.look mem).initByObj T seen).1 (m.initByObj mem T value) := by
  unfold initByObj Any.initByObj
  rw [convert_held h]
  rcases Any.convert T seen with _ | ⟨ret, _ | v⟩
  · exact ⟨rfl, List.prefix_refl mem, hm⟩
  · exact ⟨rfl, List.prefix_refl mem, by simp [reset]⟩
  · exact ⟨by simp [look], List.prefix_append _ _, by simp⟩

theorem init_leaves (h : Looks mem value seen) : Leaves mem ((m.look mem).init T seen).1 (m.init mem T value) := by
  obtain ⟨hlook, hlt⟩ := look_initByPtr (T := T) h m
  have hset : ((m.look mem).initByPtr T seen).isSet = (m.initByPtr T value).data.isSome := by
    rw [← hlook]
    cases hdata : (m.initByPtr T value).data with
    | none => simp [look, Any.isSet, hdata]
    | some k => simp [look, Any.isSet, hdata, hlt k hdata]
  unfold init Any.init
  simp only [hset]
  split
  · exact ⟨hlook, List.prefix_refl mem, hlt⟩
  · rw [← hlook]
    exact initByObj_leaves h hlt

theorem init2_leaves (h : Looks mem value seen) (hm : ∀ k ∈ m.data, k < mem.length) (isPtr : Bool) :
    Leaves mem ((m.look mem).init2 T seen isPtr).1 (m.init2 mem T value isPtr) := by
  unfold init2 Any.init2
  cases isPtr with
  | false => exact initByObj_leaves h hm
  | true =>
    obtain ⟨hlook, hlt⟩ := look_initByPtr (T := T) h m
    exact ⟨hlook, List.prefix_refl mem, hlt⟩

end Members

end

/-! ## Runs -/

/-- Pointers point to objects that have been made. -/
structure Sharing.Ok {ι : Type*} (s : Sharing ι) : Prop where
  anys : ∀ i m, s.anys i = some m → ∀ k ∈ m.data, k < s.mem.length
  writable : ∀ k ∈ s.writable, k < s.mem.length

/-- The `Any` an operation is called on; none for what callers do with their own pointers. -/
def ShareOp.target {ι : Type*} : ShareOp ι → Option ι
  | .construct i | .copy i _ | .assign i _ | .init i _ _ | .init2 i _ _ _ | .reset i => some i
  | .make _ | .write _ _ | .drop _ => none

/-- The operation on values that an operation of an `Any` is. -/
def ShareOp.Means {ι : Type*} (mem : Objs) : ShareOp ι → AnyOp ι → Prop
  | .construct i, op => op = .construct i
  | .copy i j, op => op = .copy i j
  | .assign i j, op => op = .assign i j
  | .init i T value, op => ∃ seen, Looks mem value seen ∧ op = .init i T seen
  | .init2 i T value isPtr, op => ∃ seen, Looks mem value seen ∧ op = .init2 i T seen isPtr
  | .reset i, op => op = .reset i
  | .make _, _ | .write _ _, _ | .drop _, _ => False

/-- No `Any` has the object, or it stays as it is. -/
def Unseen {ι : Type*} (s : Sharing ι) : ShareOp ι → Prop
  | .write p o => (∃ i m, s.anys i = some m ∧ m.data = some p) → s.mem[p]? = some o
  | _ => True

section
variable {ι : Type*} [DecidableEq ι] {s t : Sharing ι} {a : ShareOp ι}

/-- The `Any`s do as if each had its object itself: an operation does what it does to values, and what a caller
does with its own pointers does nothing. -/
def ByValue (s : Sharing ι) (a : ShareOp ι) (t : Sharing ι) : Prop :=
  (∃ op, a.Means s.mem op ∧ AnyStep s.values op t.values) ∨ (∀ op, ¬ a.Means s.mem op) ∧ t.values = s.values

theorem Members.look_prefix {mem mem' : Objs} {m : Members} (hpre : mem <+: mem') (hm : ∀ k ∈ m.data, k < mem.length) :
    m.look mem' = m.look mem := by
  obtain ⟨new, rfl⟩ := hpre
  cases hdata : m.data with
  | none => simp [look, hdata]
  | some k => simp [look, hdata, List.getElem?_append_left (hm k hdata)]

namespace Sharing

omit [DecidableEq ι] in
theorem ok_start : (start : Sharing ι).Ok where
  anys := fun _ _ h => by cases h
  writable := fun _ h => absurd h (Finset.notMem_empty _)

omit [DecidableEq ι] in
theorem values_eq {i : ι} {m : Members} (hi : s.anys i = some m) : s.values i = some (m.look s.mem) := by
  simp [values, hi]

omit [DecidableEq ι] in
theorem values_none {i : ι} (hi : s.anys i = none) : s.values i = none := by
  simp [values, hi]

/-- The other `Any`s have what they had. -/
theorem values_put {i : ι} {v : Any} {r : Members × Objs} (hs : s.Ok) (hr : Leaves s.mem v r) :
    (s.put i r).values = Function.update s.values i (some v) := by
  funext j
  by_cases hj : j = i
  · subst hj
    simp [values, put, hr.look]
  · cases hm : s.anys j with
    | none => simp [values, put, hj, hm]
    | some m => simp [values, put, hj, hm, Members.look_prefix hr.prefix_ (hs.anys j m hm)]

theorem ok_put {i : ι} {v : Any} {r : Members × Objs} (hs : s.Ok) (hr : Leaves s.mem v r) : (s.put i r).Ok where
  anys := by
    intro j m hm k hk
    by_cases hj : j = i
    · subst hj
      simp only [put, Function.update_self, Option.some.injEq] at hm
      exact hr.bound k (hm ▸ hk)
    · simp only [put, ne_eq, hj, not_false_eq_true, Function.update_of_ne] at hm
      exact (hs.anys j m hm k hk).trans_le hr.prefix_.length_le
  writable := fun k hk => (hs.writable k hk).trans_le hr.prefix_.length_le

omit [DecidableEq ι] in
theorem ok_make (hs : s.Ok) (o : Obj) :
    ({ s with mem := s.mem ++ [o], writable := insert s.mem.length s.writable } : Sharing ι).Ok where
  anys := by
    intro i m hm k hk
    have hlt := hs.anys i m hm k hk
    simp only [List.length_append, List.length_singleton]
    omega
  writable := by
    intro k hk
    have hle : k ≤ s.mem.length := by
      rcases Finset.mem_insert.1 hk with rfl | hk
      · exact le_refl _
      · exact (hs.writable k hk).le
    simp only [List.length_append, List.length_singleton]
    omega

omit [DecidableEq ι] in
/-- An `Any` keeps what it has. -/
theorem leaves_self {i : ι} {m : Members} (hs : s.Ok) (hi : s.anys i = some m) :
    Leaves s.mem (m.look s.mem) (m, s.mem) :=
  ⟨rfl, List.prefix_refl _, hs.anys i m hi⟩

theorem leaves_new (mem : Objs) : Leaves mem .new (.new, mem) := ⟨rfl, List.prefix_refl _, fun _ h => by cases h⟩

omit [DecidableEq ι] in
/-- What is written to an object is seen where somebody has it. -/
theorem values_write_iff {p : ℕ} {old o : Obj} (hp : s.mem[p]? = some old) :
    ({ s with mem := s.mem.set p o } : Sharing ι).values = s.values ↔ Unseen s (.write p o) := by
  obtain ⟨hlt, hold⟩ := List.getElem?_eq_some_iff.1 hp
  constructor
  · rintro h ⟨i, m, hm, hdata⟩
    have hi := congrFun h i
    simpa [values, hm, Members.look, hdata, hlt, hold, hp, eq_comm] using hi
  · intro h
    funext j
    cases hm : s.anys j with
    | none => simp [values, hm]
    | some m =>
      by_cases hdata : m.data = some p
      · have ho : some old = some o := hp.symm.trans (h ⟨j, m, hm, hdata⟩)
        simpa [values, hm, Members.look, hdata, hlt, hold] using ho.symm
      · cases hk : m.data with
        | none => simp [values, hm, Members.look, hk]
        | some k =>
          have hne : p ≠ k := fun h => hdata (hk.trans (congrArg some h.symm))
          simp [values, hm, Members.look, hk, List.getElem?_set_ne hne]

end Sharing

open Sharing

/-- **What a step can do.** -/
theorem shareStep_cases (hs : s.Ok) (hst : ShareStep s a t) :
    (∃ i v r op, a.target = some i ∧ Leaves s.mem v r ∧ t = s.put i r ∧ a.Means s.mem op ∧
      AnyStep s.values op (Function.update s.values i (some v))) ∨
    (∃ o, a = .make o ∧ t = { s with mem := s.mem ++ [o], writable := insert s.mem.length s.writable }) ∨
    (∃ p old o, a = .write p o ∧ p ∈ s.writable ∧ s.mem[p]? = some old ∧ t = { s with mem := s.mem.set p o }) ∨
    ∃ p, a = .drop p ∧ t = { s with writable := s.writable.erase p } := by
  cases hst with
  | construct hi => exact .inl ⟨_, _, _, _, rfl, leaves_new s.mem, rfl, rfl, .construct (values_none hi)⟩
  | copy hi hj => exact .inl ⟨_, _, _, _, rfl, leaves_self hs hj, rfl, rfl, .copy (values_none hi) (values_eq hj)⟩
  | @assign i j m other hi hj =>
    have hr : Leaves s.mem (if i = j then m.look s.mem else other.look s.mem) (if i = j then m else other, s.mem) := by
      split
      · exact leaves_self hs hi
      · exact leaves_self hs hj
    exact .inl ⟨_, _, _, _, rfl, hr, rfl, rfl, .assign (values_eq hi) (values_eq hj)⟩
  | init _ hlooks hright hi =>
    exact .inl ⟨_, _, _, _, rfl, Members.init_leaves hlooks, rfl, ⟨_, hlooks, rfl⟩, .init hright (values_eq hi)⟩
  | init2 _ hlooks hright hi =>
    exact .inl ⟨_, _, _, _, rfl, Members.init2_leaves hlooks (hs.anys _ _ hi) _, rfl, ⟨_, hlooks, rfl⟩,
      .init2 hright (values_eq hi)⟩
  | reset hi => exact .inl ⟨_, _, _, _, rfl, leaves_new s.mem, rfl, rfl, .reset (values_eq hi)⟩
  | make _ => exact .inr (.inl ⟨_, rfl, rfl⟩)
  | write hw hp _ => exact .inr (.inr (.inl ⟨_, _, _, rfl, hw, hp, rfl⟩))
  | drop => exact .inr (.inr (.inr ⟨_, rfl, rfl⟩))

theorem shareStep_ok (hs : s.Ok) (hst : ShareStep s a t) : t.Ok := by
  rcases shareStep_cases hs hst with
    ⟨i, v, r, op, -, hr, rfl, -, -⟩ | ⟨o, -, rfl⟩ | ⟨p, old, o, -, -, -, rfl⟩ | ⟨p, -, rfl⟩
  · exact ok_put hs hr
  · exact ok_make hs o
  · refine ⟨?_, ?_⟩
    · simpa using hs.anys
    · simpa using hs.writable
  · exact ⟨hs.anys, fun k hk => hs.writable k (Finset.mem_of_mem_erase hk)⟩

theorem byValue_caller (ha : ∀ op, ¬ a.Means s.mem op) : ByValue s a t ↔ t.values = s.values := by
  constructor
  · rintro (⟨op, hop, -⟩ | ⟨-, h⟩)
    · exact absurd hop (ha op)
    · exact h
  · exact fun h => .inr ⟨ha, h⟩

/-- **Step lemma.** -/
theorem byValue_iff (hs : s.Ok) (hst : ShareStep s a t) : ByValue s a t ↔ Unseen s a := by
  rcases shareStep_cases hs hst with
    ⟨i, v, r, op, ha, hr, rfl, hmeans, hop⟩ | ⟨o, rfl, rfl⟩ | ⟨p, old, o, rfl, -, hp, rfl⟩ | ⟨p, rfl, rfl⟩
  · refine iff_of_true (.inl ⟨op, hmeans, values_put hs hr ▸ hop⟩) ?_
    cases a with
    | write p o => cases ha
    | _ => trivial
  · refine iff_of_true ((byValue_caller (by simp [ShareOp.Means])).2 ?_) trivial
    funext i
    cases hm : s.anys i with
    | none => simp [values, hm]
    | some m => simp [values, hm, Members.look_prefix (List.prefix_append s.mem [o]) (hs.anys i m hm)]
  · exact (byValue_caller (by simp [ShareOp.Means])).trans (values_write_iff hp)
  · exact iff_of_true ((byValue_caller (by simp [ShareOp.Means])).2 rfl) trivial

/-- A run in which the `Any`s are values is a run of values. -/
theorem run_values {as : List (ShareOp ι)} (h : Run (fun s a t => ShareStep s a t ∧ ByValue s a t) .start as t) :
    ∃ ops, Run AnyStep (fun _ => none) ops t.values := by
  induction h with
  | nil => exact ⟨[], .nil⟩
  | snoc _ hst ih =>
    obtain ⟨ops, hops⟩ := ih
    rcases hst.2 with ⟨op, -, hop⟩ | ⟨-, hsame⟩
    · exact ⟨ops ++ [op], .snoc hops hop⟩
    · exact ⟨ops, hsame ▸ hops⟩

/-- **An `Any` can be taken for its value in exactly the runs in which no caller writes to an object that one has**;
every such run is a run of `Any`s that have their objects themselves. -/
theorem shared_values_iff :
    (∀ as, Run (fun s a t => ShareStep s a t ∧ ByValue s a t) (.start : Sharing ι) as t ↔
      Run (Guarded Unseen ShareStep) .start as t) ∧
    (∀ as, Run (Guarded Unseen ShareStep) (.start : Sharing ι) as t →
      ∃ ops, Run AnyStep (fun _ => none) ops t.values) := by
  have hiff : ∀ as, Run (fun s a t => ShareStep s a t ∧ ByValue s a t) (.start : Sharing ι) as t ↔
      Run (Guarded Unseen ShareStep) .start as t := fun as =>
    Run.steps_iff Ok ok_start (fun _ _ _ h hst => byValue_iff h hst) fun _ _ _ h hst _ => shareStep_ok h hst
  exact ⟨hiff, fun as h => run_values ((hiff as).2 h)⟩

/-! ## `Any`s that are left alone -/

/-- Every type that has objects has two values. -/
theorem exists_other (o : Obj) : ∃ o' : Obj, o'.ty = o.ty ∧ o' ≠ o := by
  obtain ⟨ty, val⟩ := o
  have hother : ∃ v : ty.Val, v ≠ val := by
    cases ty with
    | void => exact val.elim
    | bool | char | short | int | long | longLong => exact @exists_ne Int _ val
    | unsignedChar | unsignedShort | unsigned | unsignedLong | unsignedLongLong => exact @exists_ne Int _ val
    | string | anyVector => exact @exists_ne Str _ val
    | dataAndSize =>
      refine ⟨{ val with size := val.size + 1 }, fun h => ?_⟩
      exact absurd (congrArg DataAndSize.size h) (Nat.succ_ne_self _)
    | anyable =>
      refine ⟨{ val with size := val.size + 1 }, fun h => ?_⟩
      exact absurd (congrArg Anyable.size h) (Nat.succ_ne_self _)
    | constCharPtr | charPtr => exact @exists_ne (Option Str) _ val
    | user n => exact @exists_ne Nat _ val
  obtain ⟨v, hv⟩ := hother
  refine ⟨⟨ty, v⟩, rfl, fun h => hv ?_⟩
  cases h
  rfl

/-- An `Any` that nothing is done to has what it had, with an object that no caller writes to. -/
structure Untouched (s : Sharing ι) (i : ι) (m : Members) (v : Any) : Prop where
  ok : s.Ok
  anys : s.anys i = some m
  look : m.look s.mem = v
  safe : ∀ p ∈ m.data, p ∉ s.writable

theorem untouched_step {i : ι} {m : Members} {v : Any} (h : Untouched s i m v) (ha : a.target ≠ some i)
    (hst : ShareStep s a t) : Untouched t i m v := by
  have hbound := h.ok.anys i m h.anys
  have hok := shareStep_ok h.ok hst
  rcases shareStep_cases h.ok hst with
    ⟨j, v', r, op, hj, hr, rfl, -, -⟩ | ⟨o, -, rfl⟩ | ⟨p, old, o, -, hp, -, rfl⟩ | ⟨p, -, rfl⟩
  · have hne : i ≠ j := fun hij => ha (hj.trans (congrArg some hij.symm))
    refine ⟨hok, ?_, ?_, h.safe⟩
    · simp [put, hne, h.anys]
    · exact (Members.look_prefix hr.prefix_ hbound).trans h.look
  · refine ⟨hok, h.anys, (Members.look_prefix (List.prefix_append _ _) hbound).trans h.look, fun k hk hmem => ?_⟩
    -- the new object has a number of its own
    rcases Finset.mem_insert.1 hmem with rfl | hmem
    · exact absurd (hbound _ hk) (lt_irrefl _)
    · exact h.safe k hk hmem
  · refine ⟨hok, h.anys, ?_, h.safe⟩
    rw [← h.look]
    cases hk : m.data with
    | none => simp [Members.look, hk]
    | some k =>
      have hne : p ≠ k := by
        rintro rfl
        exact h.safe p hk hp
      simp [Members.look, hk, List.getElem?_set_ne hne]
  · exact ⟨hok, h.anys, h.look, fun k hk hmem => h.safe k hk (Finset.mem_of_mem_erase hmem)⟩

/-- **An `Any` that is left alone keeps its value, whatever is done elsewhere, exactly if its object is none that a
caller can write to.** -/
theorem left_alone_iff {as : List (ShareOp ι)} {i : ι} {m : Members} (hs : Run ShareStep .start as s)
    (hi : s.anys i = some m) :
    (∀ bs t, Run (Guarded (fun _ a => a.target ≠ some i) ShareStep) s bs t → t.values i = s.values i) ↔
      ∀ p ∈ m.data, p ∉ s.writable := by
  have hok : s.Ok := hs.inv Ok ok_start fun _ _ _ h hst => shareStep_ok h hst
  constructor
  · intro h p hp hw
    obtain ⟨old, hold⟩ : ∃ old, s.mem[p]? = some old := ⟨_, List.getElem?_eq_getElem (hok.anys i m hi p hp)⟩
    obtain ⟨o, hty, hne⟩ := exists_other old
    have hsame := h [.write p o] _ (.single ⟨nofun, .write hw hold hty⟩)
    obtain ⟨hlt, hget⟩ := List.getElem?_eq_some_iff.1 hold
    have hobj : o = old := by simpa [values, hi, Members.look, Option.mem_def.1 hp, hlt, hget, hold] using hsame
    exact hne hobj
  · intro hsafe bs t h
    have hend := h.inv (fun u => Untouched u i m (m.look s.mem)) ⟨hok, hi, rfl, hsafe⟩ fun _ _ _ hu hst =>
      untouched_step hu hst.1 hst.2
    rw [values_eq hend.anys, values_eq hi, hend.look]

end

/-! ### The 3 of an `Any`, and the 3 of a caller -/

def three : Obj := ⟨.int, (3 : Int)⟩

/-- `fromInt(3)`. -/
def byObj : Sharing (Fin 2) := (Sharing.start.put 0 (.new, [])).put 0 (Members.new.init2 [] .int (.obj three) false)

theorem run_byObj : Run ShareStep .start [.construct 0, .init2 0 .int (.obj three) false] byObj := by
  have hright : RightType .int (.obj three) := fun _ _ h => by cases h
  exact .snoc (.single (.construct rfl)) (.init2 trivial .obj hright rfl)

/-- A caller's own `int` is another one. -/
theorem left_alone_iff_byObj : ∃ t : Sharing (Fin 2),
    Run (Guarded (fun _ a => a.target ≠ some 0) ShareStep) byObj [.make three, .write 1 ⟨.int, (7 : Int)⟩] t ∧
      t.values 0 = byObj.values 0 := by
  have hrun : Run (Guarded (fun _ a => a.target ≠ some 0) ShareStep) byObj
      [.make three, .write 1 ⟨.int, (7 : Int)⟩] _ :=
    .snoc (.single ⟨nofun, .make trivial⟩) ⟨nofun, .write (Finset.mem_insert_self _ _) (show _ = some three from rfl) rfl⟩
  exact ⟨_, hrun, (left_alone_iff run_byObj rfl).2 (fun _ _ hmem => absurd hmem (Finset.notMem_empty _)) _ _ hrun⟩

/-- A pointer to an `int`, of which two `Any`s have the object: when its owner writes a 7, both are 7. -/
theorem written_seen : ∃ t : Sharing (Fin 2),
    Run ShareStep .start [.construct 0, .make three, .init2 0 .int (.ptr .int false (some 0)) true, .copy 1 0,
      .write 0 ⟨.int, (7 : Int)⟩] t ∧
      ∀ i, t.values i = some ⟨some ⟨.int, (7 : Int)⟩, .int⟩ := by
  have hlooks : Looks [three] (.ptr .int false (some 0)) (.ptr .int false ⟨some three, fun _ o h => by cases h; rfl⟩) :=
    .ptr (by simp) rfl
  have hright : RightType .int (.ptr .int false ⟨some three, fun _ o h => by cases h; rfl⟩) := fun _ _ h => by cases h
  refine ⟨_, .snoc (.snoc (.snoc (.snoc (.single (.construct rfl)) (.make trivial)) (.init2 trivial hlooks hright rfl))
    (.copy rfl rfl))
    (.write (Finset.mem_insert_self _ _) (show _ = some three from rfl) rfl), fun i => ?_⟩
  fin_cases i
  · rfl
  · rfl

end CtiLog
