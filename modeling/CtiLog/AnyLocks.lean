import CtiLog.Locks
/-
# Assigning `Any` objects

`operator=` holds `other.rwlock` shared while it waits for its own lock, so assignments wait for each
other along their operands. Threads that assign in a ring, `a = b` and `b = a`, wait for ever; `init` and
`reset` take one lock and add nothing to a ring.

| here | there |
| --- | --- |
| `AnyCall.enter`                          | `if ((*this) == other)` (any.cpp:29), by address |
| `lockOther`, `lockThis`, `convertThis`   | before `rLock` (:33), `uplock` (:35), `wLock` (:36); any.hpp:88, :199, any.cpp:155 without `rLock` |
| `body`, `downgraded`, `unlocked`         | the assignment; after `~wLock`; after `~uplock` |

* `Assigning`, `NoRing` — the assignments in progress, and the shared locks that close no ring of them.
* `any_not_deadlocked` — no deadlock without a ring: what an assignment waits for is higher up.
* `ring_leads_to_deadlock` — a ring stays, and its threads can all go on until each waits for the next.
-/

namespace CtiLog

open Runs Locks Relation

/-- Where a thread is; `other` is the operand of an assignment. -/
inductive AnyPc (ι : Type*) where
  /-- Between two calls. -/
  | user
  | lockOther (this other : ι)
  | lockThis (other : Option ι) (this : ι)
  | convertThis (other : Option ι) (this : ι)
  | body (other : Option ι) (this : ι)
  | downgraded (other : Option ι) (this : ι)
  | unlocked (other : Option ι)

/-- `init<T>(value)` is an `initByPtr` and, if that leaves the `Any` unset, an `initByObj`. -/
inductive AnyCall (ι : Type*) where
  | assign (this other : ι)
  | initByPtr (this : ι)
  | initByObj (this : ι)
  | reset (this : ι)

variable {ι : Type*}

def AnyCall.enter [DecidableEq ι] : AnyCall ι → AnyPc ι
  | .assign this other => if this = other then .user else .lockOther this other
  | .initByPtr this | .initByObj this | .reset this => .lockThis none this

namespace AnyPc

def holds : AnyPc ι → ι → Hold → Prop
  | .lockThis other _, i, h => other = some i ∧ h = .shared
  | .convertThis other this, i, h => other = some i ∧ h = .shared ∨ this = i ∧ h = .upgrade
  | .body other this, i, h => other = some i ∧ h = .shared ∨ this = i ∧ h = .unique
  | .downgraded other this, i, h => other = some i ∧ h = .shared ∨ this = i ∧ h = .upgrade
  | .unlocked other, i, h => other = some i ∧ h = .shared
  | _, _, _ => False

def wants : AnyPc ι → Option (ι × Want)
  | .lockOther _ other => some (other, .shared)
  | .lockThis _ this => some (this, .upgrade)
  | .convertThis _ this => some (this, .convert)
  | _ => none

/-- A thread calls anything between two calls, and else goes on. -/
inductive Next [DecidableEq ι] : AnyPc ι → AnyPc ι → Prop
  | call {c : AnyCall ι} : Next .user c.enter
  | lockOther {this other : ι} : Next (.lockOther this other) (.lockThis (some other) this)
  | lockThis {other : Option ι} {this : ι} : Next (.lockThis other this) (.convertThis other this)
  | convertThis {other : Option ι} {this : ι} : Next (.convertThis other this) (.body other this)
  | body {other : Option ι} {this : ι} : Next (.body other this) (.downgraded other this)
  | downgraded {other : Option ι} {this : ι} : Next (.downgraded other this) (.unlocked other)
  | unlocked {other : Option ι} : Next (.unlocked other) .user

end AnyPc

def anyThreads (ι : Type*) [DecidableEq ι] : Machine (AnyPc ι) ι where
  holds := AnyPc.holds
  wants := AnyPc.wants
  step := AnyPc.Next

section
variable {τ : Type*} {s s' : τ → AnyPc ι} {x y : ι}

/-- An assignment `y = x` has its shared lock of `x`, and not yet its own lock of `y`. -/
def Assigning (s : τ → AnyPc ι) (x y : ι) : Prop := ∃ t, s t = .lockThis (some x) y ∨ s t = .convertThis (some x) y

/-- `this = other` takes its shared lock only if no chain of assignments in progress leads from `this` to
`other`. -/
def NoRing (s : τ → AnyPc ι) (t : τ) : Prop :=
  ∀ this other, s t = .lockOther this other → ¬ ReflTransGen (Assigning s) this other

/-- How far up a thread waits. -/
def AnyPc.height (ρ : ι → Nat) : AnyPc ι → Nat
  | .lockThis _ this => 2 * ρ this
  | .convertThis _ this => 2 * ρ this + 1
  | _ => 0

theorem height_le_rank {ρ : ι → Nat} {N : Nat} (hN : ∀ x, ρ x ≤ N) (k : AnyPc ι) : k.height ρ ≤ 2 * N + 1 := by
  cases k with
  | lockThis other this => have := hN this; simp only [AnyPc.height]; omega
  | convertThis other this => have := hN this; simp only [AnyPc.height]; omega
  | _ => exact Nat.zero_le _

/-- Who holds a lock and waits is in the middle of an assignment, or converts. -/
theorem holds_of_waiting {k : AnyPc ι} {l : ι} {h : Hold} (hl : k.holds l h) (hw : k.wants ≠ none) :
    (∃ y, (k = .lockThis (some l) y ∨ k = .convertThis (some l) y) ∧ h = .shared) ∨
      ∃ other, k = .convertThis other l ∧ h = .upgrade := by
  cases k with
  | lockThis other this =>
    obtain ⟨rfl, rfl⟩ := hl
    exact .inl ⟨this, .inl rfl, rfl⟩
  | convertThis other this =>
    rcases hl with ⟨rfl, rfl⟩ | ⟨rfl, rfl⟩
    · exact .inl ⟨this, .inr rfl, rfl⟩
    · exact .inr ⟨other, rfl, rfl⟩
  | user => cases hl
  | lockOther this other => cases hl
  | _ => exact absurd rfl hw

/-- Shared locks stop a conversion only. -/
theorem wants_convert {k : AnyPc ι} {l : ι} {w : Want} (hw : k.wants = some (l, w))
    (hb : w.blockedBy .shared = true) : ∃ other, k = .convertThis other l := by
  cases k with
  | convertThis other this => cases hw; exact ⟨other, rfl⟩
  | lockThis other this => cases hw; cases hb
  | lockOther this other => cases hw; cases hb
  | _ => cases hw

/-- An upgrade lock stops another upgrade lock only. -/
theorem wants_upgrade {k : AnyPc ι} {l : ι} {w : Want} (hw : k.wants = some (l, w))
    (hb : w.blockedBy .upgrade = true) : ∃ other, k = .lockThis other l := by
  cases k with
  | lockThis other this => cases hw; exact ⟨other, rfl⟩
  | convertThis other this => cases hw; cases hb
  | lockOther this other => cases hw; cases hb
  | _ => cases hw

/-- Its own lock is there, converted or not. -/
def AnyPc.Owns (k : AnyPc ι) (y : ι) : Prop :=
  ∃ other, k = .convertThis other y ∨ k = .body other y ∨ k = .downgraded other y

/-- Nobody shares the lock of an `Any` that is converted, or about to be. -/
def Exclusive (s : τ → AnyPc ι) : Prop := ∀ y t u, (s t).Owns y → (s u).Owns y → t = u

/-- Some thread waits for the shared locks of `y` to go. -/
def Converting (s : τ → AnyPc ι) (y : ι) : Prop := ∃ t other, s t = .convertThis other y

theorem holds_of_owns {k : AnyPc ι} (h : k.Owns y) : ∃ d, k.holds y d ∧ Want.upgrade.blockedBy d = true := by
  obtain ⟨other, rfl | rfl | rfl⟩ := h
  · exact ⟨.upgrade, .inr ⟨rfl, rfl⟩, rfl⟩
  · exact ⟨.unique, .inr ⟨rfl, rfl⟩, rfl⟩
  · exact ⟨.upgrade, .inr ⟨rfl, rfl⟩, rfl⟩

theorem owns_of_holds {k : AnyPc ι} {d : Hold} (h : k.holds y d) (hd : Want.upgrade.blockedBy d = true) : k.Owns y := by
  cases k with
  | user => cases h
  | lockOther this other => cases h
  | lockThis other this => obtain ⟨-, rfl⟩ := h; cases hd
  | convertThis other this =>
    rcases h with ⟨-, rfl⟩ | ⟨rfl, -⟩
    · cases hd
    · exact ⟨other, .inl rfl⟩
  | body other this =>
    rcases h with ⟨-, rfl⟩ | ⟨rfl, -⟩
    · cases hd
    · exact ⟨other, .inr (.inl rfl)⟩
  | downgraded other this =>
    rcases h with ⟨-, rfl⟩ | ⟨rfl, -⟩
    · cases hd
    · exact ⟨other, .inr (.inr rfl)⟩
  | unlocked other => obtain ⟨-, rfl⟩ := h; cases hd

theorem holds_of_assigning (h : Assigning s x y) : ∃ t, (s t).holds x .shared := by
  obtain ⟨t, ht | ht⟩ := h
  · exact ⟨t, ht ▸ ⟨rfl, rfl⟩⟩
  · exact ⟨t, ht ▸ .inl ⟨rfl, rfl⟩⟩

theorem exclusive_start : Exclusive (fun _ : τ => (.user : AnyPc ι)) := by
  rintro y t u ⟨other, ht | ht | ht⟩ <;> cases ht

variable [DecidableEq ι]

/-- Whoever is waited for waits higher up. -/
theorem anyHeight_lt {ρ : ι → Nat} (hρ : ∀ x y, Assigning s x y → ρ x < ρ y) {t u v : τ}
    (htu : (anyThreads ι).Waits s t u) (huv : (anyThreads ι).Waits s u v) : (s t).height ρ < (s u).height ρ := by
  obtain ⟨l, w, h, hw, hl, hb⟩ := htu
  obtain ⟨l', w', -, hw', -, -⟩ := huv
  have hw' : (s u).wants ≠ none := fun hnone => by cases hw'.symm.trans hnone
  rcases holds_of_waiting hl hw' with ⟨y, hu, rfl⟩ | ⟨other, hu, rfl⟩
  · -- `u` is in the middle of `y = l`
    obtain ⟨other, ht⟩ := wants_convert hw hb
    have hly := hρ l y ⟨u, hu⟩
    rw [ht]
    rcases hu with hu | hu <;> rw [hu] <;> simp only [AnyPc.height] <;> omega
  · -- `u` converts `l` itself
    obtain ⟨other', ht⟩ := wants_upgrade hw hb
    rw [ht, hu]
    simp only [AnyPc.height]
    omega

/-- Only a shared lock makes a new assignment in progress. -/
theorem assigning_step [DecidableEq τ] {t : τ} (hst : (anyThreads ι).Step s t s') (h : Assigning s' x y) :
    Assigning s x y ∨ s t = .lockOther y x := by
  obtain ⟨k, hk, -, rfl⟩ := hst
  obtain ⟨u, hu⟩ := h
  by_cases hut : u = t
  · subst hut
    rw [Function.update_self] at hu
    have hk : AnyPc.Next (s u) k := hk
    generalize hs : s u = k₀ at hk
    cases hk with
    | lockOther => rcases hu with hu | hu <;> cases hu; exact .inr rfl
    | lockThis => rcases hu with hu | hu <;> cases hu; exact .inl ⟨u, .inl hs⟩
    | @call c =>
      unfold AnyCall.enter at hu
      rcases hu with hu | hu <;> split at hu <;> try split at hu
      all_goals cases hu
    | _ => rcases hu with hu | hu <;> cases hu
  · rw [Function.update_of_ne hut] at hu
    exact .inl ⟨u, hu⟩

/-- **Step lemma.** -/
theorem ranked_step [DecidableEq τ] {t : τ} (h : Ranked (Assigning s)) (hst : (anyThreads ι).Step s t s')
    (hG : NoRing s t) : Ranked (Assigning s') := by
  by_cases hlock : ∃ this other, s t = .lockOther this other
  · obtain ⟨this, other, ht⟩ := hlock
    refine (h.insert (hG this other ht)).mono fun x y hxy => ?_
    refine (assigning_step hst hxy).imp_right fun hxy => ?_
    rw [ht] at hxy
    cases hxy
    exact ⟨rfl, rfl⟩
  · exact h.mono fun x y hxy => (assigning_step hst hxy).resolve_right fun h' => hlock ⟨_, _, h'⟩

/-- **Assigning `Any` values does not deadlock** as long as no shared lock closes a ring of assignments. -/
theorem any_not_deadlocked [DecidableEq τ] {as : List τ}
    (h : Run (Guarded NoRing (anyThreads ι).Step) (fun _ => .user) as s) : ¬ (anyThreads ι).Deadlocked s := by
  have hrank : Ranked (Assigning s) := by
    refine h.inv (fun s => Ranked (Assigning s)) ?_ fun _ _ _ hs hst => ranked_step hs hst.2 hst.1
    refine ⟨fun _ => 0, 0, fun _ => le_rfl, ?_⟩
    rintro x y ⟨t, ht | ht⟩ <;> cases ht
  obtain ⟨ρ, N, hN, hρ⟩ := hrank
  exact Machine.not_deadlocked (fun t => (s t).height ρ) (2 * N + 1) (fun t => height_le_rank hN (s t))
    fun t u v => anyHeight_lt hρ

/-! ## A ring that closes -/

/-- A lock of its own comes from `lockThis`. -/
theorem owns_next {k k' : AnyPc ι} (hk : AnyPc.Next k k') (h : k'.Owns y) :
    k.Owns y ∨ ∃ other, k = .lockThis other y := by
  obtain ⟨other, hk'⟩ := h
  cases hk with
  | lockThis => rcases hk' with h | h | h <;> cases h; exact .inr ⟨other, rfl⟩
  | convertThis => rcases hk' with h | h | h <;> cases h; exact .inl ⟨other, .inl rfl⟩
  | body => rcases hk' with h | h | h <;> cases h; exact .inl ⟨other, .inr (.inl rfl)⟩
  | @call c =>
    exfalso
    unfold AnyCall.enter at hk'
    rcases hk' with h | h | h <;> split at h <;> try split at h
    all_goals cases h
  | _ => rcases hk' with h | h | h <;> cases h

variable {t : τ} {C : List ι}

/-- No conversion on a ring gets through. -/
theorem ring_blocks (hC : RingOf (Assigning s) C) (hfree : ∀ u, ¬ (anyThreads ι).Waits s t u) (hy : y ∈ C)
    (other : Option ι) : s t ≠ .convertThis other y := by
  intro ht
  obtain ⟨z, -, hyz⟩ := hC.next y hy
  obtain ⟨u, hu⟩ := holds_of_assigning hyz
  have hw : (s t).wants = some (y, .convert) := by rw [ht]; rfl
  exact hfree u ⟨y, .convert, .shared, hw, hu, rfl⟩

/-- When all of a ring are converted, each conversion waits for the next one. -/
theorem ring_deadlocked (hC : RingOf (Assigning s) C) (hconv : ∀ y ∈ C, Converting s y) :
    (anyThreads ι).Deadlocked s := by
  refine ⟨{t | ∃ y ∈ C, ∃ other, s t = .lockThis other y ∨ s t = .convertThis other y}, ?_, ?_⟩
  · obtain ⟨y, hy⟩ := hC.nonempty
    obtain ⟨t, other, ht⟩ := hconv y hy
    exact ⟨t, y, hy, other, .inr ht⟩
  · rintro t ⟨y, hy, other, ht | ht⟩
    · obtain ⟨u, other', hu⟩ := hconv y hy
      refine ⟨u, ⟨y, hy, other', .inr hu⟩, y, .upgrade, .upgrade, congrArg AnyPc.wants ht, ?_, rfl⟩
      show (s u).holds y .upgrade
      rw [hu]
      exact .inr ⟨rfl, rfl⟩
    · obtain ⟨z, hz, hyz⟩ := hC.next y hy
      obtain ⟨u, hu⟩ := hyz
      refine ⟨u, ⟨z, hz, some y, hu⟩, y, .convert, .shared, congrArg AnyPc.wants ht, ?_, rfl⟩
      show (s u).holds y .shared
      rcases hu with hu | hu
      · rw [hu]; exact ⟨rfl, rfl⟩
      · rw [hu]; exact .inl ⟨rfl, rfl⟩

variable [DecidableEq τ]

/-- One at a time has its own lock of `y`. -/
theorem exclusive_step (h : Exclusive s) (hst : (anyThreads ι).Step s t s') : Exclusive s' := by
  obtain ⟨k, hk, hfree, rfl⟩ := hst
  -- the new lock of the thread that moved is nobody else's
  have hnew : ∀ y u, k.Owns y → (s u).Owns y → t = u := by
    intro y u hky hu
    rcases owns_next hk hky with ht | ⟨other, ht⟩
    · exact h y t u ht hu
    · obtain ⟨d, hd, hb⟩ := holds_of_owns hu
      have hw : (s t).wants = some (y, .upgrade) := by rw [ht]; rfl
      exact absurd ⟨y, .upgrade, d, hw, hd, hb⟩ (hfree u)
  intro y u v hu hv
  by_cases hut : u = t <;> by_cases hvt : v = t
  · rw [hut, hvt]
  · rw [hut, Function.update_self] at hu
    rw [Function.update_of_ne hvt] at hv
    exact hut.trans (hnew y v hu hv)
  · rw [Function.update_of_ne hut] at hu
    rw [hvt, Function.update_self] at hv
    exact ((hnew y u hv hu).symm).trans hvt.symm
  · rw [Function.update_of_ne hut] at hu
    rw [Function.update_of_ne hvt] at hv
    exact h y u v hu hv

/-- A ring stays, and so do the conversions on it. -/
theorem ring_step (hC : RingOf (Assigning s) C) (hst : (anyThreads ι).Step s t s') :
    RingOf (Assigning s') C ∧ ∀ y ∈ C, Converting s y → Converting s' y := by
  obtain ⟨k, hk, hfree, rfl⟩ := hst
  have hk : AnyPc.Next (s t) k := hk
  refine ⟨hC.mono fun x _ y hy => ?_, fun y hy => ?_⟩
  · rintro ⟨u, hu⟩
    by_cases hut : u = t
    · subst hut
      refine ⟨u, ?_⟩
      rw [Function.update_self]
      rcases hu with hu | hu
      · rw [hu] at hk
        cases hk
        exact .inr rfl
      · exact absurd hu (ring_blocks hC hfree hy _)
    · exact ⟨u, by rwa [Function.update_of_ne hut]⟩
  · rintro ⟨u, other, hu⟩
    have hut : u ≠ t := by
      rintro rfl
      exact ring_blocks hC hfree hy _ hu
    exact ⟨u, other, by rwa [Function.update_of_ne hut]⟩

/-- A thread that wants nothing goes on. -/
theorem step_of_free {k k' : AnyPc ι} (ht : s t = k) (hk : AnyPc.Next k k') (hw : k.wants = none) :
    (anyThreads ι).Step s t (Function.update s t k') := by
  subst ht
  exact ⟨k', hk, Machine.not_waits_of_wants hw, rfl⟩

theorem step_convert {other : Option ι} (ht : s t = .lockThis other y) (hfree : ∀ u, ¬ (s u).Owns y) :
    (anyThreads ι).Step s t (Function.update s t (.convertThis other y)) := by
  refine ⟨_, ht ▸ .lockThis, ?_, rfl⟩
  rintro u ⟨l, w, d, hw, hd, hb⟩
  have hw : (s t).wants = some (l, w) := hw
  rw [ht] at hw
  cases hw
  exact hfree u (owns_of_holds hd hb)

/-- The lock of `y` is given back, and the next assignment to `y` asks for its conversion. -/
theorem convert_after {u : τ} {other other' : Option ι} (h : Exclusive s) (ht : s t = .lockThis other y)
    (hu : s u = .downgraded other' y) : ∃ as s', Run (anyThreads ι).Step s as s' ∧ Converting s' y := by
  have hne : t ≠ u := by
    rintro rfl
    cases ht.symm.trans hu
  have hgive := step_of_free hu .downgraded rfl
  have ht' : Function.update s u (.unlocked other') t = .lockThis other y := by rwa [Function.update_of_ne hne]
  have htake := step_convert ht' fun v hv => by
    by_cases hvu : v = u
    · subst hvu
      rw [Function.update_self] at hv
      obtain ⟨o, hv | hv | hv⟩ := hv <;> cases hv
    · rw [Function.update_of_ne hvu] at hv
      exact hvu (h y v u hv ⟨other', .inr (.inr hu)⟩)
  exact ⟨_, _, (Run.single hgive).snoc htake, t, other, Function.update_self ..⟩

/-- Sooner or later an assignment on the ring asks for its conversion. -/
theorem exists_converting (h : Exclusive s) (hC : RingOf (Assigning s) C) (hy : y ∈ C) :
    ∃ as s', Run (anyThreads ι).Step s as s' ∧ Converting s' y := by
  obtain ⟨x, -, t, ht | ht⟩ := hC.prev y hy
  · by_cases hown : ∃ u, (s u).Owns y
    · obtain ⟨u, other, hu | hu | hu⟩ := hown
      · exact ⟨[], s, .nil, u, other, hu⟩
      · have hdown := step_of_free hu .body rfl
        have hne : t ≠ u := by
          rintro rfl
          cases ht.symm.trans hu
        obtain ⟨as, s', hrun, hconv⟩ := convert_after (exclusive_step h hdown)
          (by rwa [Function.update_of_ne hne]) (Function.update_self ..)
        exact ⟨_, s', (Run.single hdown).append hrun, hconv⟩
      · exact convert_after h ht hu
    · have htake := step_convert ht fun u hu => hown ⟨u, hu⟩
      exact ⟨_, _, .single htake, t, some x, Function.update_self ..⟩
  · exact ⟨[], s, .nil, t, some x, ht⟩

/-- What stays once there is a ring. -/
theorem ring_run {as : List τ} {D : List ι} (hsub : D ⊆ C) (h : Exclusive s) (hC : RingOf (Assigning s) C)
    (hD : ∀ y ∈ D, Converting s y) (hrun : Run (anyThreads ι).Step s as s') :
    Exclusive s' ∧ RingOf (Assigning s') C ∧ ∀ y ∈ D, Converting s' y := by
  refine hrun.inv (fun s => Exclusive s ∧ RingOf (Assigning s) C ∧ ∀ y ∈ D, Converting s y) ⟨h, hC, hD⟩ ?_
  rintro s t s' ⟨h, hC, hD⟩ hst
  obtain ⟨hC', hconv⟩ := ring_step hC hst
  exact ⟨exclusive_step h hst, hC', fun y hy => hconv y (hsub hy) (hD y hy)⟩

/-- One after the other, all assignments of the ring ask for their conversion. -/
theorem exists_all_converting (h : Exclusive s) (hC : RingOf (Assigning s) C) (D : List ι) (hsub : D ⊆ C) :
    ∃ as s', Run (anyThreads ι).Step s as s' ∧ RingOf (Assigning s') C ∧ ∀ y ∈ D, Converting s' y := by
  induction D with
  | nil => exact ⟨[], s, .nil, hC, fun _ hy => by cases hy⟩
  | cons z D ih =>
    obtain ⟨hz, hD⟩ := List.cons_subset.1 hsub
    obtain ⟨as, s₁, hrun, hC₁, hD₁⟩ := ih hD
    have h₁ := (ring_run (List.nil_subset C) h hC (fun _ hy => by cases hy) hrun).1
    obtain ⟨bs, s₂, hrun₂, hconv⟩ := exists_converting h₁ hC₁ hz
    obtain ⟨-, hC₂, hD₂⟩ := ring_run hD h₁ hC₁ hD₁ hrun₂
    exact ⟨_, s₂, hrun.append hrun₂, hC₂, List.forall_mem_cons.2 ⟨hconv, hD₂⟩⟩

/-- The shared lock that closes a ring. -/
theorem ring_of_step (hst : (anyThreads ι).Step s t s') (hG : ¬ NoRing s t) : ∃ C, RingOf (Assigning s') C := by
  unfold NoRing at hG
  push Not at hG
  obtain ⟨this, other, ht, hpath⟩ := hG
  obtain ⟨k, hk, -, rfl⟩ := hst
  have hk : AnyPc.Next (s t) k := hk
  rw [ht] at hk
  cases hk
  have hmono : ∀ x y, Assigning s x y → Assigning (Function.update s t (.lockThis (some other) this)) x y := by
    rintro x y ⟨u, hu⟩
    have hut : u ≠ t := by
      rintro rfl
      rcases hu with hu | hu <;> cases ht.symm.trans hu
    exact ⟨u, by rwa [Function.update_of_ne hut]⟩
  exact ring_of_path (ReflTransGen.mono hmono _ _ hpath) ⟨t, .inl (Function.update_self ..)⟩

/-- **A ring that closes ends in a deadlock** if its threads go on. -/
theorem ring_leads_to_deadlock {as : List τ} (hrun : Run (anyThreads ι).Step (fun _ => .user) as s)
    (hst : (anyThreads ι).Step s t s') (hG : ¬ NoRing s t) :
    ∃ bs s'', Run (anyThreads ι).Step s' bs s'' ∧ (anyThreads ι).Deadlocked s'' := by
  have h : Exclusive s := hrun.inv Exclusive exclusive_start fun _ _ _ h hst => exclusive_step h hst
  obtain ⟨C, hC⟩ := ring_of_step hst hG
  obtain ⟨bs, s'', hrun', hC', hconv⟩ := exists_all_converting (exclusive_step h hst) hC C (List.Subset.refl C)
  exact ⟨bs, s'', hrun', ring_deadlocked hC' hconv⟩

/-- **Assigning `Any` values deadlocks by rings of assignments only**: not in a run in which no shared
lock closes a ring, and after one that does it is only a matter of time. -/
theorem any_deadlock_by_ring :
    (∀ (as : List τ) (s : τ → AnyPc ι), Run (Guarded NoRing (anyThreads ι).Step) (fun _ => .user) as s →
      ¬ (anyThreads ι).Deadlocked s) ∧
    ∀ (as : List τ) (t : τ) (s s' : τ → AnyPc ι), Run (anyThreads ι).Step (fun _ => .user) as s →
      (anyThreads ι).Step s t s' → ¬ NoRing s t →
      ∃ bs s'', Run (anyThreads ι).Step s' bs s'' ∧ (anyThreads ι).Deadlocked s'' :=
  ⟨fun _ _ => any_not_deadlocked, fun _ _ _ _ => ring_leads_to_deadlock⟩

end

/-! ## `a = b` and `b = a` -/

/-- The first thread has `b` shared for `a = b`, the second one is about to share `a` for `b = a`. -/
def crossing : Bool → AnyPc Bool
  | false => .lockThis (some true) false
  | true => .lockOther true false

/-- Each thread has shared what the other one assigns to. -/
def crossed : Bool → AnyPc Bool
  | false => .lockThis (some true) false
  | true => .lockThis (some false) true

/-- None of the locks that are asked for in `crossing_run` closes a ring. -/
theorem crossing_guarded :
    Run (Guarded NoRing (anyThreads Bool).Step) (fun _ => .user) [false, true, false] crossing := by
  let s1 : Bool → AnyPc Bool := Function.update (fun _ => .user) false (.lockOther false true)
  let s2 := Function.update s1 true (.lockOther true false)
  have hcall₀ : (anyThreads Bool).Step (fun _ => .user) false s1 :=
    ⟨_, @AnyPc.Next.call _ _ (.assign false true), Machine.not_waits_of_wants rfl, rfl⟩
  have hcall₁ : (anyThreads Bool).Step s1 true s2 :=
    ⟨_, @AnyPc.Next.call _ _ (.assign true false), Machine.not_waits_of_wants rfl, rfl⟩
  have hshare : (anyThreads Bool).Step s2 false crossing := by
    refine ⟨_, @AnyPc.Next.lockOther Bool _ false true, Machine.not_waits_of_free rfl fun u d hl => ?_, ?_⟩
    · cases u <;> cases hl
    · funext u; cases u <;> rfl
  have hfree : NoRing s2 false := by
    rintro this other ⟨⟩ hpath
    -- nobody assigns yet
    have hnone : ∀ x y, ¬ Assigning s2 x y := by
      rintro x y ⟨u, hu | hu⟩ <;> cases u <;> cases hu
    rcases ReflTransGen.cases_head hpath with h | ⟨c, hc, -⟩
    · cases h
    · exact hnone _ _ hc
  exact ((Run.single ⟨nofun, hcall₀⟩).snoc ⟨nofun, hcall₁⟩).snoc ⟨hfree, hshare⟩

theorem crossing_run : Run (anyThreads Bool).Step (fun _ => .user) [false, true, false] crossing :=
  crossing_guarded.unguard

theorem crossing_step : (anyThreads Bool).Step crossing true crossed := by
  refine ⟨_, @AnyPc.Next.lockOther Bool _ true false, Machine.not_waits_of_free rfl fun u d hl => ?_, ?_⟩
  · cases u with
    | false => obtain ⟨h, -⟩ := hl; cases h
    | true => cases hl
  · funext u; cases u <;> rfl

/-- The ring of the two assignments closes. -/
theorem crossing_closes : ¬ NoRing crossing true := fun h => h true false rfl (.single ⟨false, .inl rfl⟩)

/-- Before the second of two assignments has its shared lock, and after. -/
theorem any_deadlock_by_ring_two : (¬ (anyThreads Bool).Deadlocked crossing) ∧
    ∃ bs s, Run (anyThreads Bool).Step crossed bs s ∧ (anyThreads Bool).Deadlocked s :=
  ⟨any_deadlock_by_ring.1 _ _ crossing_guarded,
    any_deadlock_by_ring.2 _ _ _ _ crossing_run crossing_step crossing_closes⟩

/-- Both threads wait for the other one's shared lock. -/
theorem crossing_assignments_deadlock : ∃ s : Bool → AnyPc Bool,
    Run (anyThreads Bool).Step (fun _ => .user) [false, true, false, true, false, true] s ∧
      s false = .convertThis (some true) false ∧ s true = .convertThis (some false) true ∧
      (anyThreads Bool).Deadlocked s := by
  let s1 := Function.update crossed false (.convertThis (some true) false)
  let s2 := Function.update s1 true (.convertThis (some false) true)
  have hown₀ : (anyThreads Bool).Step crossed false s1 := by
    refine ⟨_, @AnyPc.Next.lockThis Bool _ (some true) false, Machine.not_waits_of_free rfl fun u d hl => ?_, rfl⟩
    cases u with
    | false => obtain ⟨h, -⟩ := hl; cases h
    | true => obtain ⟨-, rfl⟩ := hl; rfl
  have hown₁ : (anyThreads Bool).Step s1 true s2 := by
    refine ⟨_, @AnyPc.Next.lockThis Bool _ (some false) true, Machine.not_waits_of_free rfl fun u d hl => ?_, rfl⟩
    cases u with
    | false =>
      rcases hl with ⟨-, rfl⟩ | ⟨h, -⟩
      · rfl
      · cases h
    | true => obtain ⟨h, -⟩ := hl; cases h
  have hrun := ((crossing_run.snoc crossing_step).snoc hown₀).snoc hown₁
  refine ⟨s2, hrun, rfl, rfl, Set.univ, ⟨false, trivial⟩, fun t _ => ⟨!t, trivial, ?_⟩⟩
  cases t with
  | false => exact ⟨false, .convert, .shared, rfl, .inl ⟨rfl, rfl⟩, rfl⟩
  | true => exact ⟨true, .convert, .shared, rfl, .inl ⟨rfl, rfl⟩, rfl⟩

end CtiLog
