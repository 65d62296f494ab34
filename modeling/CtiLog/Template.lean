import CtiLog.File
/-
# The template `Any::toT`

`Any::toT<T, C1, …, Cn>` over any types with any `static_cast`s between them; `Any.lean` has it at the types of
the C++ program. Each overload is a chain of attempts, and a chain accepts exactly the types its attempts accept.
With five candidates no attempt names the last one.

* `toT`, `toT1` … `toT5` — the overloads (any.hpp:667-840).
* `Meets` — what a result of `toT` has to be for a list of candidates.
* `Meets.orElse` — a chain of attempts meets the candidates of all of them.
* `meets_candidates_iff` — an overload meets its candidates iff the value is not of the fifth type alone.
-/

namespace CtiLog

namespace Template

section
variable {τ : Type*} {Val : τ → Type*} {T : τ} {α : Type*}

/-- What a `boost::any` holds: a value of some type. -/
abbrev Held (Val : τ → Type*) := Option ((S : τ) × Val S)

/-- A code and a value. -/
abbrev Casted (α : Type*) := Int × Option α

def badCast : Casted α := (-Errno.badAnyCast.code, none)

/-- `if (0 == ret) return`, else the next attempt; `none` is an exception. -/
def orElse (first next : Option (Casted α)) : Option (Casted α) := first.bind fun r => if r.1 = 0 then some r else next

/-- `static_cast<T>(v)` of an `S`; one that gives nothing throws. -/
abbrev StaticCast (Val : τ → Type*) := (S : τ) → Val S → (T : τ) → Option (Val T)

/-! ## What a result has to be -/

/-- The value is a `T`, or of a candidate type and cast, or refused. -/
structure Meets (cast : StaticCast Val) (T : τ) (cs : List τ) (S : τ) (v : Val S) (r : Option (Casted (Val T))) :
    Prop where
  own : ∀ h : S = T, r = some (0, some (h ▸ v))
  candidate : S ≠ T → S ∈ cs → r = (cast S v T).map fun x => (0, some x)
  refused : S ≠ T → S ∉ cs → ∃ code < 0, r = some (code, none)

variable {cast : StaticCast Val} {S : τ} {v : Val S} {cs ds : List τ} {r q : Option (Casted (Val T))}

/-- Nothing is left to try. -/
theorem meets_badCast (h : S ≠ T) : Meets cast T [] S v (some badCast) where
  own hS := absurd hS h
  candidate _ hs := by cases hs
  refused _ _ := ⟨-Errno.badAnyCast.code, by decide, rfl⟩

theorem Meets.congr (h : Meets cast T cs S v r) (hcs : S ∈ cs ↔ S ∈ ds) : Meets cast T ds S v r :=
  ⟨h.own, fun hT hs => h.candidate hT (hcs.2 hs), fun hT hs => h.refused hT fun h' => hs (hcs.1 h')⟩

/-- **A chain of attempts meets the candidates of all of them.** The later attempts matter only for other
types than `T`. -/
theorem Meets.orElse (h : Meets cast T cs S v r) (h' : S ≠ T → Meets cast T ds S v q) :
    Meets cast T (cs ++ ds) S v (orElse r q) := by
  by_cases hT : S = T
  · refine ⟨fun hS => ?_, fun hS => absurd hT hS, fun hS => absurd hT hS⟩
    rw [h.own hS]
    rfl
  · have hq := h' hT
    by_cases hs : S ∈ cs
    · refine ⟨fun hS => absurd hS hT, fun _ _ => ?_, fun _ hno => absurd (List.mem_append_left _ hs) hno⟩
      rw [h.candidate hT hs]
      cases cast S v T <;> rfl
    · obtain ⟨code, hneg, hr⟩ := h.refused hT hs
      have hnext : Template.orElse r q = q := by
        rw [hr]
        exact if_neg hneg.ne
      rw [hnext]
      exact hq.congr (by simp [hs])

theorem Meets.orElse_bad (h : Meets cast T cs S v r) : Meets cast T cs S v (Template.orElse r (some badCast)) :=
  (h.orElse fun hT => meets_badCast hT).congr (by simp)

/-! ## The overloads -/

variable [DecidableEq τ]

def toT (T : τ) : Held Val → Casted (Val T)
  | some ⟨S, v⟩ => if h : S = T then (0, some (h ▸ v)) else badCast
  | none => badCast

variable (cast)

def toT1 (T C1 : τ) (value : Held Val) : Option (Casted (Val T)) :=
  orElse (some (toT T value)) <|
    match toT C1 value with
    | (_, some v) => (cast C1 v T).map fun x => (0, some x)
    | (_, none) => some badCast

def toT2 (T C1 C2 : τ) (value : Held Val) : Option (Casted (Val T)) :=
  orElse (some (toT T value)) <| orElse (toT1 cast T C1 value) <| orElse (toT1 cast T C2 value) (some badCast)

def toT3 (T C1 C2 C3 : τ) (value : Held Val) : Option (Casted (Val T)) :=
  orElse (some (toT T value)) <| orElse (toT2 cast T C1 C2 value) <| orElse (toT1 cast T C3 value) (some badCast)

def toT4 (T C1 C2 C3 C4 : τ) (value : Held Val) : Option (Casted (Val T)) :=
  orElse (some (toT T value)) <| orElse (toT3 cast T C1 C2 C3 value) <| orElse (toT1 cast T C4 value) (some badCast)

/-- The fifth candidate is not tried. -/
def toT5 (T C1 C2 C3 C4 _C5 : τ) (value : Held Val) : Option (Casted (Val T)) :=
  orElse (some (toT T value)) <| orElse (toT4 cast T C1 C2 C3 C4 value) <|
    orElse (toT3 cast T C1 C2 C3 value) <| orElse (toT1 cast T C4 value) (some badCast)

/-- The overloads, by their candidates. -/
inductive Overload (τ : Type*) where
  | none
  | one (C1 : τ)
  | two (C1 C2 : τ)
  | three (C1 C2 C3 : τ)
  | four (C1 C2 C3 C4 : τ)
  | five (C1 C2 C3 C4 C5 : τ)

namespace Overload

def candidates : Overload τ → List τ
  | none => []
  | one C1 => [C1]
  | two C1 C2 => [C1, C2]
  | three C1 C2 C3 => [C1, C2, C3]
  | four C1 C2 C3 C4 => [C1, C2, C3, C4]
  | five C1 C2 C3 C4 C5 => [C1, C2, C3, C4, C5]

def toT (T : τ) (value : Held Val) : Overload τ → Option (Casted (Val T))
  | none => some (Template.toT T value)
  | one C1 => toT1 cast T C1 value
  | two C1 C2 => toT2 cast T C1 C2 value
  | three C1 C2 C3 => toT3 cast T C1 C2 C3 value
  | four C1 C2 C3 C4 => toT4 cast T C1 C2 C3 C4 value
  | five C1 C2 C3 C4 C5 => toT5 cast T C1 C2 C3 C4 C5 value

/-- The candidates some attempt names. -/
def tried (o : Overload τ) : List τ := o.candidates.take 4

end Overload

variable {cast}

theorem meets_toT (T : τ) (v : Val S) : Meets cast T [] S v (some (toT T (some ⟨S, v⟩))) where
  own h := by simp [toT, h]
  candidate _ hs := by cases hs
  refused h _ := ⟨-Errno.badAnyCast.code, by decide, by rw [toT, dif_neg h, badCast]⟩

theorem meets_toT1 (T C1 : τ) (v : Val S) : Meets cast T [C1] S v (toT1 cast T C1 (some ⟨S, v⟩)) := by
  unfold toT1
  refine Meets.orElse (meets_toT T v) (?_ : S ≠ T → Meets cast T [C1] S v _)
  intro hT
  by_cases hC : S = C1
  · subst hC
    refine ⟨fun hS => absurd hS hT, fun _ _ => ?_, fun _ hno => absurd (List.mem_singleton_self S) hno⟩
    simp [toT]
  · have hbad : toT C1 (some ⟨S, v⟩) = (badCast : Casted (Val C1)) := dif_neg hC
    rw [hbad]
    exact (meets_badCast hT).congr (by simp [hC])

theorem meets_toT2 (T C1 C2 : τ) (v : Val S) : Meets cast T [C1, C2] S v (toT2 cast T C1 C2 (some ⟨S, v⟩)) :=
  (meets_toT T v).orElse fun _ => (meets_toT1 T C1 v).orElse fun _ => (meets_toT1 T C2 v).orElse_bad

theorem meets_toT3 (T C1 C2 C3 : τ) (v : Val S) : Meets cast T [C1, C2, C3] S v (toT3 cast T C1 C2 C3 (some ⟨S, v⟩)) :=
  (meets_toT T v).orElse fun _ => (meets_toT2 T C1 C2 v).orElse fun _ => (meets_toT1 T C3 v).orElse_bad

theorem meets_toT4 (T C1 C2 C3 C4 : τ) (v : Val S) :
    Meets cast T [C1, C2, C3, C4] S v (toT4 cast T C1 C2 C3 C4 (some ⟨S, v⟩)) :=
  (meets_toT T v).orElse fun _ => (meets_toT3 T C1 C2 C3 v).orElse fun _ => (meets_toT1 T C4 v).orElse_bad

/-- What comes after the first four candidates are those four again. -/
theorem meets_toT5 (T C1 C2 C3 C4 C5 : τ) (v : Val S) :
    Meets cast T [C1, C2, C3, C4] S v (toT5 cast T C1 C2 C3 C4 C5 (some ⟨S, v⟩)) := by
  have hchain : Meets cast T ([] ++ ([C1, C2, C3, C4] ++ ([C1, C2, C3] ++ [C4]))) S v
      (toT5 cast T C1 C2 C3 C4 C5 (some ⟨S, v⟩)) :=
    (meets_toT T v).orElse fun _ => (meets_toT4 T C1 C2 C3 C4 v).orElse fun _ =>
      (meets_toT3 T C1 C2 C3 v).orElse fun _ => (meets_toT1 T C4 v).orElse_bad
  exact hchain.congr (by simp; tauto)

theorem meets_tried (o : Overload τ) (T : τ) (v : Val S) : Meets cast T o.tried S v (o.toT cast T (some ⟨S, v⟩)) := by
  cases o with
  | none => exact meets_toT T v
  | one C1 => exact meets_toT1 T C1 v
  | two C1 C2 => exact meets_toT2 T C1 C2 v
  | three C1 C2 C3 => exact meets_toT3 T C1 C2 C3 v
  | four C1 C2 C3 C4 => exact meets_toT4 T C1 C2 C3 C4 v
  | five C1 C2 C3 C4 C5 => exact meets_toT5 T C1 C2 C3 C4 C5 v

/-- An overload accepts what it should iff the value is of no candidate type that is not tried. -/
theorem meets_candidates_iff (o : Overload τ) (T : τ) (v : Val S) :
    Meets cast T o.candidates S v (o.toT cast T (some ⟨S, v⟩)) ↔ S = T ∨ S ∈ o.tried ∨ S ∉ o.candidates := by
  have h : Meets cast T o.tried S v (o.toT cast T (some ⟨S, v⟩)) := meets_tried o T v
  constructor
  · intro hall
    by_contra hno
    simp only [not_or, not_not] at hno
    obtain ⟨code, hneg, hr⟩ := h.refused hno.1 hno.2.1
    rw [hall.candidate hno.1 hno.2.2] at hr
    obtain ⟨x, -, hx⟩ := Option.map_eq_some_iff.1 hr
    exact hneg.ne' (congrArg Prod.fst hx)
  · rintro (hT | ht | hno)
    · exact ⟨h.own, fun hS => absurd hT hS, fun hS => absurd hT hS⟩
    · exact h.congr (iff_of_true ht (List.mem_of_mem_take ht))
    · exact h.congr (iff_of_false (fun ht => hno (List.mem_of_mem_take ht)) hno)

end

end Template

end CtiLog
