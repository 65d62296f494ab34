import CtiLog.Candidates
import CtiLog.Runs
/-
# The tag of an `Any` names the type of its data

`initByPtr` writes the tag `T` without looking at the pointer it has cast, so a null pointer leaves
an `Any` that holds nothing and still claims to be a `T`. Nothing else parts the two members; but a
conversion that throws leaves an `Any` as it was, set or not.

* `Consistent` — `data` and `typeinfo` agree; `Settled` — an init set a `T`, or nothing at all.
* `TakesNull` — the value is a null pointer that `initByPtr<T>` takes; `Throws` — a null `char const*`
  for a `std::string`.
* `initByPtr_cases`, `convert_eq_none_iff` — what the two ways to initialise can do.
* `any_consistent_iff` — the runs that stay consistent are those that hand `init<T>(…, true)` no
  such pointer; and which inits leave a `T` or an unset `Any`.
-/

namespace CtiLog

open Runs

namespace Any

/-- `operator bool`, `getTypeInfo` and the object itself agree. -/
structure Consistent (a : Any) : Prop where
  unset : a.data = none ↔ a.typeinfo = .void
  typed : ∀ o ∈ a.data, o.ty = a.typeinfo

/-- What a finished `init<T>` may leave. -/
def Settled (T : Ty) (a : Any) : Prop := a = .new ∨ ∃ o, a = ⟨some o, T⟩ ∧ o.ty = T

/-- What an `init<T>` leaves that has returned or thrown: a `T`, or an unset `Any` where it has failed. -/
structure Done (T : Ty) (r : Any × Bool) : Prop where
  returned : r.2 = true → Settled T r.1
  thrown : r.2 = false → r.1 = .new

theorem consistent_new : Consistent .new where
  unset := by simp [new]
  typed := by simp [new]

theorem Settled.consistent {T : Ty} {a : Any} (h : Settled T a) : a.Consistent := by
  rcases h with rfl | ⟨o, rfl, ho⟩
  · exact consistent_new
  · refine ⟨?_, ?_⟩
    · simp [← ho, o.ty_ne_void]
    · simp [ho]

/-- The members and the tag tell the same story. -/
theorem Consistent.isSet_iff {a : Any} (h : a.Consistent) : a.isSet = true ↔ a.isT .void = false := by
  have hunset := h.unset
  cases hd : a.data with
  | none => simp [isSet, isT, hd, hunset.1 hd]
  | some o =>
    have hne : ¬ Ty.void = a.typeinfo := fun hv => by simp [hunset.2 hv.symm] at hd
    simp [isSet, isT, hd, hne]

/-- **The reinterpreting casts are sound**: what `toTPtr<T>` hands out is a `T`. -/
theorem Consistent.toTPtr_sound {T : Ty} {a : Any} (h : a.Consistent) (hret : (a.toTPtr T).1 = 0) :
    a.isT T = true ∧ ∃ o, (a.toTPtr T).2 = some o ∧ o.ty = T := by
  unfold toTPtr at hret ⊢
  cases hd : a.data with
  | none =>
    rw [hd] at hret
    exact absurd (show -Errno.notSet.code = 0 from hret) (by decide)
  | some o =>
    simp only [hd] at hret ⊢
    split at hret
    · exact absurd hret (by decide)
    · rename_i hT
      have hT' : T = a.typeinfo := by tauto
      rw [if_neg hT]
      exact ⟨by simp [isT, hT'], o, rfl, (h.typed o hd).trans hT'.symm⟩

/-! ## What an initialisation leaves -/

/-- The pointers `initByPtr<T>` takes. -/
def Takes (T S : Ty) (isConst : Bool) : Prop :=
  if T ∈ probes then S = .void ∨ S = T else S = T ∧ isConst = true

/-- A null pointer that `initByPtr<T>` takes. -/
def TakesNull (T : Ty) (value : BoostAny) : Prop :=
  T ≠ .void ∧ ∃ S isConst p, value = .ptr S isConst p ∧ Takes T S isConst ∧ p.get = none

theorem toTPtrProbe_self (P : Ty) (value : BoostAny) (a : Any) :
    toTPtrProbe P P value a =
      if (CtiLog.toTPtr P value).1 < 0 then ((CtiLog.toTPtr P value).1, { a with data := (CtiLog.toTPtr P value).2 })
      else (0, ⟨(CtiLog.toTPtr P value).2, P⟩) := by
  unfold toTPtrProbe
  rw [if_neg (not_not.2 rfl)]

theorem toTPtrProbe_other {P T : Ty} (h : T ≠ P) (value : BoostAny) (a : Any) :
    toTPtrProbe P T value a = (Errno.invalidType.code, a) := by
  unfold toTPtrProbe
  rw [if_pos h]

/-- The probe that fits decides; without one the generic case does. -/
theorem initByPtrFrom_eq (T : Ty) (value : BoostAny) (Ps : List Ty) (a : Any) :
    initByPtrFrom T value Ps a =
      if T ∈ Ps then if (CtiLog.toTPtr T value).1 < 0 then .new else ⟨(CtiLog.toTPtr T value).2, T⟩
      else initByPtrGeneric T value a := by
  induction Ps with
  | nil => simp [initByPtrFrom]
  | cons P Ps ih =>
    by_cases hT : T = P
    · subst hT
      rw [initByPtrFrom, toTPtrProbe_self, if_pos List.mem_cons_self]
      by_cases hneg : (CtiLog.toTPtr T value).1 < 0
      · simp [hneg, reset, new]
      · simp [hneg]
    · have hcode : ¬ Errno.invalidType.code < 0 ∧ ¬ Errno.invalidType.code = 0 := by decide
      rw [initByPtrFrom, toTPtrProbe_other hT]
      simp only [hcode.1, hcode.2, if_false, ih, List.mem_cons, hT, false_or]

/-- **`initByPtr` takes a pointer, null or not, or resets.** -/
theorem initByPtr_cases (T : Ty) (value : BoostAny) (a : Any) :
    (∃ S isConst p, value = .ptr S isConst p ∧ Takes T S isConst ∧ a.initByPtr T value = ⟨p.get, T⟩) ∨
      (∀ S isConst p, value = .ptr S isConst p → ¬ Takes T S isConst) ∧ a.initByPtr T value = .new := by
  unfold initByPtr Takes
  rw [initByPtrFrom_eq]
  by_cases hT : T ∈ probes
  · simp only [hT, if_true]
    cases value with
    | empty => exact .inr ⟨fun _ _ _ h => (by cases h), rfl⟩
    | obj o => exact .inr ⟨fun _ _ _ h => (by cases h), rfl⟩
    | ptr S c p =>
      by_cases hS : S = .void ∨ S = T
      · refine .inl ⟨S, c, p, rfl, hS, ?_⟩
        simp [CtiLog.toTPtr, hS]
      · refine .inr ⟨fun _ _ _ h => (by cases h; exact hS), ?_⟩
        simp [CtiLog.toTPtr, hS, Errno.code, Errno.ctorIdx]
  · simp only [hT, if_false]
    cases value with
    | empty => exact .inr ⟨fun _ _ _ h => (by cases h), rfl⟩
    | obj o => exact .inr ⟨fun _ _ _ h => (by cases h), rfl⟩
    | ptr S c p =>
      cases c with
      | false => exact .inr ⟨fun _ _ _ h => (by cases h; simp), rfl⟩
      | true =>
        by_cases hS : S = T
        · exact .inl ⟨S, true, p, rfl, ⟨hS, rfl⟩, by simp [initByPtrGeneric, hS]⟩
        · exact .inr ⟨fun _ _ _ h => (by cases h; simp [hS]), by simp [initByPtrGeneric, hS, reset, new]⟩

theorem initByObj_settled (T : Ty) (value : BoostAny) (a : Any) :
    (a.initByObj T value).2 = true → Settled T (a.initByObj T value).1 := by
  unfold initByObj
  split
  · intro h
    cases h
  · exact fun _ => .inr ⟨_, rfl, rfl⟩
  · exact fun _ => .inl rfl

/-- A throwing conversion leaves the `Any` alone. -/
theorem initByObj_thrown {T : Ty} {value : BoostAny} {a : Any} (h : (a.initByObj T value).2 = false) :
    (a.initByObj T value).1 = a := by
  unfold initByObj at h ⊢
  split at h
  · rfl
  · cases h
  · cases h

theorem initByObj_consistent {a : Any} (h : a.Consistent) (T : Ty) (value : BoostAny) :
    (a.initByObj T value).1.Consistent := by
  cases hret : (a.initByObj T value).2 with
  | true => exact (initByObj_settled T value a hret).consistent
  | false => rwa [initByObj_thrown hret]

/-- A `std::string` of a null `char const*` or `char*`. -/
def Throws (T : Ty) (value : BoostAny) : Prop :=
  T = .string ∧ (value = .obj ⟨.constCharPtr, none⟩ ∨ value = .obj ⟨.charPtr, none⟩)

variable {T : Ty} {value : BoostAny}

/-- Where no object is held, nothing is converted and nothing is thrown. -/
theorem convert_not_held (T : Ty) (h : value.held = none) : convert T value = some badCast := by
  cases value with
  | obj o => cases h
  | empty | ptr S isConst p => cases T <;> rfl

theorem ofInt_ne_none (hT : T ∈ Ty.integers) (n : Int) : T.ofInt n ≠ none := by
  simp only [Ty.integers, List.mem_cons, List.not_mem_nil, or_false] at hT
  rcases hT with rfl | rfl | rfl | rfl | rfl | rfl | rfl | rfl | rfl | rfl | rfl <;> exact Option.some_ne_none _

theorem toInt_ne_none {S : Ty} (hS : S ∈ Ty.integers) (v : S.Val) : S.toInt v ≠ none := by
  simp only [Ty.integers, List.mem_cons, List.not_mem_nil, or_false] at hS
  rcases hS with rfl | rfl | rfl | rfl | rfl | rfl | rfl | rfl | rfl | rfl | rfl <;> exact Option.some_ne_none _

/-- What meets its candidates throws iff the cast to a candidate does. -/
theorem meets_none_iff {cs : List Ty} {S : Ty} {v : S.Val} {r : Option (Casted T)}
    (h : Template.Meets staticCast T cs S v r) : r = none ↔ S ≠ T ∧ S ∈ cs ∧ staticCast S v T = none := by
  by_cases hT : S = T
  · simp [h.own hT, hT]
  · by_cases hs : S ∈ cs
    · simp [h.candidate hT hs, hT, hs]
    · obtain ⟨code, -, hr⟩ := h.refused hT hs
      simp [hr, hs]

/-- No conversion between numbers throws. -/
theorem convert_integer_ne_none (hT : T ∈ Ty.integers) {S : Ty} (v : S.Val) : convert T (.obj ⟨S, v⟩) ≠ none := by
  have hmeets : Template.Meets staticCast T T.overload.tried S v (convert T (.obj ⟨S, v⟩)) := by
    rw [convert_eq hT]
    exact Template.meets_tried T.overload T v
  rw [ne_eq, meets_none_iff hmeets]
  rintro ⟨-, hs, hnone⟩
  have hS := (chain_narrower hT (List.mem_of_mem_take hs)).1
  obtain ⟨n, hn⟩ := Option.ne_none_iff_exists'.1 (toInt_ne_none hS v)
  rw [staticCast_integer hS, hn] at hnone
  exact ofInt_ne_none hT n hnone

/-- `std::string` throws at a null pointer. -/
theorem convert_string_iff {S : Ty} (v : S.Val) :
    convert .string (.obj ⟨S, v⟩) = none ↔ Throws .string (.obj ⟨S, v⟩) := by
  refine (meets_none_iff (Template.meets_toT2 .string .constCharPtr .charPtr v)).trans ⟨?_, ?_⟩
  · rintro ⟨-, hs, hnone⟩
    rcases List.mem_pair.1 hs with rfl | rfl
    · exact ⟨rfl, .inl (by rw [show v = none from hnone])⟩
    · exact ⟨rfl, .inr (by rw [show v = none from hnone])⟩
  · rintro ⟨-, h | h⟩
    · cases h
      exact ⟨by decide, by decide, rfl⟩
    · cases h
      exact ⟨by decide, by decide, rfl⟩

/-- **What `initByObj` throws at**: only `std::string` has a cast that throws. -/
theorem convert_eq_none_iff : convert T value = none ↔ Throws T value := by
  have hnot : value.held = none → ¬ Throws T value := by
    rintro h (⟨-, rfl | rfl⟩) <;> cases h
  cases value with
  | empty | ptr S isConst p => exact iff_of_false (by rw [convert_not_held T rfl]; exact Option.some_ne_none _) (hnot rfl)
  | obj o =>
    by_cases hint : T ∈ Ty.integers
    · refine iff_of_false (convert_integer_ne_none hint o.val) ?_
      rintro ⟨rfl, -⟩
      revert hint
      decide
    · cases T with
      | string => exact convert_string_iff o.val
      | bool | char | short | int | long | longLong => exact absurd (by decide) hint
      | unsignedChar | unsignedShort | unsigned | unsignedLong | unsignedLongLong => exact absurd (by decide) hint
      | _ => exact iff_of_false (Option.some_ne_none _) fun h => by cases h.1

/-- **`initByObj` is done**, unless it throws at an `Any` that is set. -/
theorem initByObj_done_iff (a : Any) : Done T (a.initByObj T value) ↔ (Throws T value → a = .new) := by
  rw [← convert_eq_none_iff]
  cases hc : convert T value with
  | none =>
    have hthrow : a.initByObj T value = (a, false) := by rw [initByObj, hc]
    rw [hthrow]
    exact ⟨fun h _ => h.thrown rfl, fun h => ⟨nofun, fun _ => h rfl⟩⟩
  | some r =>
    refine iff_of_true ⟨initByObj_settled T value a, ?_⟩ (nofun : some r = none → a = .new)
    rcases r with ⟨code, _ | v⟩ <;> simp [initByObj, hc]

/-- An object behind a pointer that `initByPtr<T>` takes is a `T`. -/
theorem Takes.typed (hright : RightType T value) {S : Ty} {isConst : Bool} {p : SharedPtr S}
    (hv : value = .ptr S isConst p) (ht : Takes T S isConst) : ∀ o ∈ p.get, o.ty = T := by
  intro o ho
  by_cases hS : S = .void
  · subst hS
    exact hright isConst p hv o ho
  · have hST : S = T := by
      unfold Takes at ht
      split at ht
      · exact ht.resolve_left hS
      · exact ht.1
    exact hST ▸ p.typed hS o ho

/-- **`initByPtr` settles the `Any` iff it does not take a null pointer.** -/
theorem initByPtr_settled_iff (hright : RightType T value) (a : Any) :
    Settled T (a.initByPtr T value) ↔ ¬ TakesNull T value := by
  rcases initByPtr_cases T value a with ⟨S, c, p, hv, ht, heq⟩ | ⟨hno, heq⟩
  · rw [heq]
    cases hp : p.get with
    | some o =>
      refine iff_of_true (.inr ⟨o, rfl, Takes.typed hright hv ht o hp⟩) ?_
      rintro ⟨-, S', c', p', hv', -, hnull⟩
      rw [hv] at hv'
      cases hv'
      rw [hp] at hnull
      cases hnull
    | none =>
      constructor
      · rintro (h | ⟨o, h, -⟩) ⟨hT, -⟩
        · exact hT (congrArg typeinfo h)
        · cases h
      · intro h
        by_cases hT : T = .void
        · exact .inl (by rw [hT]; rfl)
        · exact absurd ⟨hT, S, c, p, hv, ht, hp⟩ h
  · rw [heq]
    refine iff_of_true (.inl rfl) ?_
    rintro ⟨-, S, c, p, hv, ht, -⟩
    exact hno S c p hv ht

/-- A null pointer leaves the tag without data. -/
theorem initByPtr_consistent_iff (hright : RightType T value) (a : Any) :
    (a.initByPtr T value).Consistent ↔ ¬ TakesNull T value := by
  rw [← initByPtr_settled_iff hright a]
  refine ⟨fun h => ?_, Settled.consistent⟩
  rcases initByPtr_cases T value a with ⟨S, c, p, hv, ht, heq⟩ | ⟨-, heq⟩
  · rw [heq] at h ⊢
    cases hp : p.get with
    | some o => exact .inr ⟨o, rfl, Takes.typed hright hv ht o hp⟩
    | none =>
      rw [hp] at h
      exact .inl (congrArg (Any.mk none) (h.unset.1 rfl))
  · exact .inl heq

/-- `init` without the flag leaves a consistent `Any` even when the conversion throws. -/
theorem init_consistent (hright : RightType T value) (a : Any) : (a.init T value).1.Consistent := by
  unfold init
  dsimp only
  rcases initByPtr_cases T value a with ⟨S, c, p, hv, ht, heq⟩ | ⟨-, heq⟩
  · rw [heq]
    cases hp : p.get with
    | some o => exact Settled.consistent (.inr ⟨o, rfl, Takes.typed hright hv ht o hp⟩)
    | none =>
      -- a null pointer: `initByObj` resets the tag
      have hobj : initByObj T value ⟨none, T⟩ = (.new, true) := by
        rw [initByObj, hv, convert_not_held T rfl]
        rfl
      exact hobj ▸ consistent_new
  · rw [heq]
    exact initByObj_consistent consistent_new T value

/-- **`init` without the flag is always done**: a null pointer goes on to `initByObj`, which cannot throw at it. -/
theorem init_done (hright : RightType T value) (a : Any) : Done T (a.init T value) := by
  unfold init
  dsimp only
  rcases initByPtr_cases T value a with ⟨S, c, p, hv, ht, heq⟩ | ⟨-, heq⟩
  · rw [heq]
    cases hp : p.get with
    | some o => exact ⟨fun _ => .inr ⟨o, rfl, Takes.typed hright hv ht o hp⟩, nofun⟩
    | none =>
      refine (initByObj_done_iff _).2 fun h => ?_
      rw [hv] at h
      rcases h.2 with h | h <;> cases h
  · rw [heq]
    exact (initByObj_done_iff .new).2 fun _ => rfl

/-- With the flag the caller says which it is. -/
theorem init2_done_iff (hright : RightType T value) (isPtr : Bool) (a : Any) :
    Done T (a.init2 T value isPtr) ↔
      ¬ (isPtr = true ∧ TakesNull T value) ∧ (isPtr = false → Throws T value → a = .new) := by
  cases isPtr with
  | true =>
    have hdone : Done T (a.init2 T value true) ↔ Settled T (a.initByPtr T value) :=
      ⟨fun h => h.returned rfl, fun h => ⟨fun _ => h, nofun⟩⟩
    rw [hdone, initByPtr_settled_iff hright]
    simp
  | false => exact (initByObj_done_iff a).trans (by simp)

end Any

/-! ## Runs -/

/-- Every `Any` is consistent. -/
def AllConsistent {ι : Type*} (s : Anys ι) : Prop := ∀ i a, s i = some a → a.Consistent

/-- No null pointer is handed to `init<T>(…, true)` with a `T` that takes it. -/
def NoNull {ι : Type*} (_ : Anys ι) : AnyOp ι → Prop
  | .init2 _ T value isPtr => ¬ (isPtr = true ∧ Any.TakesNull T value)
  | _ => True

theorem allConsistent_start {ι : Type*} : AllConsistent (fun _ => none : Anys ι) := fun _ _ h => by cases h

section
variable {ι : Type*} [DecidableEq ι] {s t : Anys ι}

theorem allConsistent_update (h : AllConsistent s) (i : ι) (a : Any) :
    AllConsistent (Function.update s i (some a)) ↔ a.Consistent := by
  constructor
  · intro h'
    exact h' i a (by simp)
  · intro ha j b hb
    by_cases hj : j = i
    · subst hj
      rw [Function.update_self] at hb
      exact Option.some.inj hb ▸ ha
    · rw [Function.update_of_ne hj] at hb
      exact h j b hb

open Any in
/-- **Step lemma.** -/
theorem anyStep_consistent {op : AnyOp ι} (h : AllConsistent s) (hst : AnyStep s op t) :
    AllConsistent t ↔ NoNull s op := by
  cases hst with
  | construct _ => exact iff_of_true ((allConsistent_update h _ _).2 consistent_new) trivial
  | copy _ hj => exact iff_of_true ((allConsistent_update h _ _).2 (h _ _ hj)) trivial
  | assign hi hj =>
    refine iff_of_true ((allConsistent_update h _ _).2 ?_) trivial
    split
    · exact h _ _ hi
    · exact h _ _ hj
  | init hright _ => exact iff_of_true ((allConsistent_update h _ _).2 (init_consistent hright _)) trivial
  | @init2 i T value isPtr a hright hi =>
    rw [allConsistent_update h]
    cases isPtr with
    | true =>
      have hiff := initByPtr_consistent_iff hright a
      exact hiff.trans ⟨fun h h' => h h'.2, fun h h' => h ⟨rfl, h'⟩⟩
    | false =>
      refine iff_of_true (initByObj_consistent (h i a hi) T value) ?_
      rintro ⟨hf, -⟩
      cases hf
  | reset _ => exact iff_of_true ((allConsistent_update h _ _).2 consistent_new) trivial

/-- **The tag of an `Any` names its data** in exactly the runs that hand `init<T>(…, true)` no null
pointer it takes; and an init that is over has set a `T` or left the `Any` unset, but for such a
pointer, and for an `init<std::string>(…, false)` that throws at a set `Any`. -/
theorem any_consistent_iff :
    (∀ as, Run (Kept AllConsistent AnyStep) (fun _ => none) as t ↔
      Run (Guarded NoNull AnyStep) (fun _ => none) as t) ∧
    (∀ T value isPtr a, RightType T value →
      (Any.Done T (Any.init2 T value isPtr a) ↔
        ¬ (isPtr = true ∧ Any.TakesNull T value) ∧ (isPtr = false → Any.Throws T value → a = .new))) ∧
    (∀ T value a, RightType T value → Any.Done T (Any.init T value a)) := by
  refine ⟨fun as => ?_, fun T value isPtr a hright => Any.init2_done_iff hright isPtr a,
    fun T value a hright => Any.init_done hright a⟩
  exact Run.kept_iff AllConsistent AllConsistent allConsistent_start (fun _ _ _ h hst => anyStep_consistent h hst)
    fun _ _ _ h hst hG => (anyStep_consistent h hst).2 hG

end

/-- A null `boost::shared_ptr<int const>`. -/
def nullInt : SharedPtr .int := ⟨none, fun _ _ h => by cases h⟩

/-- `init<int>(null, true)`: nothing is set, and `isT<int>()` says `true`. -/
theorem null_is_int : ∃ s : Anys (Fin 1),
    Run AnyStep (fun _ => none) [.construct 0, .init2 0 .int (.ptr .int true nullInt) true] s ∧
      (∃ a, s 0 = some a ∧ a.isSet = false ∧ a.isT .int = true) ∧ ¬ AllConsistent s := by
  have hright : RightType .int (.ptr .int true nullInt) := fun _ _ h => by cases h
  have hone : AnyStep (fun _ => none : Anys (Fin 1)) (.construct 0) _ := .construct rfl
  have htwo : AnyStep (Function.update (fun _ => none) (0 : Fin 1) (some .new))
      (.init2 0 .int (.ptr .int true nullInt) true) _ := .init2 hright rfl
  refine ⟨_, .snoc (.snoc .nil hone) htwo, ⟨_, rfl, rfl, rfl⟩, fun h => ?_⟩
  have hcon := (h 0 _ rfl).unset
  exact absurd (hcon.1 rfl) (by decide)

/-- A `boost::shared_ptr<int const>` to a 3. -/
def threePtr : SharedPtr .int := ⟨some ⟨.int, (3 : Int)⟩, fun _ o h => by cases h; rfl⟩

/-- The pointer sets an `int`, and a null `char const*` thrown at it afterwards does not unset it. -/
theorem any_consistent_iff_three :
    Any.Done .int (Any.init2 .int (.ptr .int true threePtr) true .new) ∧
      ¬ Any.Done .string (Any.init2 .string (.obj ⟨.constCharPtr, none⟩) false ⟨threePtr.get, .int⟩) := by
  have h := (@any_consistent_iff (Fin 1) _ (fun _ => none)).2.1
  refine ⟨(h .int (.ptr .int true threePtr) true .new fun _ _ hv => by cases hv).2 ⟨?_, nofun⟩, ?_⟩
  · rintro ⟨-, -, S, c, p, hv, -, hnull⟩
    cases hv
    cases hnull
  · intro hdone
    have hiff := h .string (.obj ⟨.constCharPtr, none⟩) false ⟨threePtr.get, .int⟩ nofun
    exact absurd ((hiff.1 hdone).2 rfl ⟨rfl, .inl rfl⟩) nofun

end CtiLog
