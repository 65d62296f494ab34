import CtiLog.Runs
/-
# Threads that wait for locks

The general part of the deadlock results: any number of threads over any set of locks. What a thread
does on its own is a `Machine`; together they interleave, and a thread whose next step needs a lock
moves only when no thread holds that lock in a way that keeps it out. Nothing here knows which locks
there are or what the threads do.

* `Hold`, `Want` — the modes of an upgradeable reader-writer lock (`boost::shared_mutex`); a mutex is
  wanted with `lock` and held `unique`.
* `Machine.Waits` — one thread keeps another one out.
* `Machine.Deadlocked` — a nonempty set of threads that only wait for each other.
* `Machine.inv_threads` — what every thread keeps on its own holds of all threads in every run.
* `Machine.not_deadlocked` — a bounded measure that rises along `Waits` excludes deadlock.
* `Ranked.insert` — a relation with such a measure keeps one as long as no edge closes a ring.
* `RingOf` — what an edge that closes one makes.
-/

namespace Locks

open Runs

/-- How a lock is held. -/
inductive Hold where
  | shared | upgrade | unique
deriving DecidableEq, Repr

/-- What a thread asks of a lock; `convert` turns its own `upgrade` into `unique`. -/
inductive Want where
  | shared | upgrade | convert | lock
deriving DecidableEq, Repr

/-- An upgrade hold coexists with shared ones; the conversion waits until all of these have left. -/
def Want.blockedBy : Want → Hold → Bool
  | .shared, h => h == .unique
  | .upgrade, h => h == .upgrade || h == .unique
  | .convert, h => h == .shared
  | .lock, _ => true

/-- What one thread does: `step` is its next step once it has what it `wants`. -/
structure Machine (κ L : Type*) where
  holds : κ → L → Hold → Prop
  wants : κ → Option (L × Want)
  step : κ → κ → Prop

namespace Machine

variable {τ κ L : Type*} (M : Machine κ L)

/-- Thread `t` waits for a lock that `u` holds. -/
def Waits (s : τ → κ) (t u : τ) : Prop :=
  ∃ l w h, M.wants (s t) = some (l, w) ∧ M.holds (s u) l h ∧ w.blockedBy h = true

/-- Each thread of a nonempty set waits for a lock held in the set. -/
def Deadlocked (s : τ → κ) : Prop := ∃ S : Set τ, S.Nonempty ∧ ∀ t ∈ S, ∃ u ∈ S, M.Waits s t u

/-- Thread `t` takes its step. -/
def Step [DecidableEq τ] (s : τ → κ) (t : τ) (s' : τ → κ) : Prop :=
  ∃ k, M.step (s t) k ∧ (∀ u, ¬ M.Waits s t u) ∧ s' = Function.update s t k

variable {M} {s s' : τ → κ}

theorem not_waits_of_wants {t : τ} (h : M.wants (s t) = none) (u : τ) : ¬ M.Waits s t u := by
  rintro ⟨l, w, _, hw, -⟩
  rw [h] at hw
  cases hw

theorem not_waits_of_free {t : τ} {l : L} {w : Want} (h : M.wants (s t) = some (l, w))
    (hfree : ∀ u d, M.holds (s u) l d → w.blockedBy d = false) (u : τ) : ¬ M.Waits s t u := by
  rintro ⟨l', w', d, hw, hl, hb⟩
  obtain ⟨rfl, rfl⟩ := Prod.mk.inj (Option.some.inj (h.symm.trans hw))
  rw [hfree u d hl] at hb
  cases hb

/-- **Measure rule.** Whoever is waited for and waits itself is higher up. -/
theorem not_deadlocked (m : τ → Nat) (N : Nat) (hN : ∀ t, m t ≤ N)
    (hup : ∀ t u v, M.Waits s t u → M.Waits s u v → m t < m u) : ¬ M.Deadlocked s := by
  rintro ⟨S, ⟨t₀, ht₀⟩, hS⟩
  -- from any thread of the set one can climb any number of steps
  have hclimb : ∀ n, ∃ t ∈ S, n ≤ m t := by
    intro n
    induction n with
    | zero => exact ⟨t₀, ht₀, Nat.zero_le _⟩
    | succ n ih =>
      obtain ⟨t, ht, hn⟩ := ih
      obtain ⟨u, hu, htu⟩ := hS t ht
      obtain ⟨v, -, huv⟩ := hS u hu
      exact ⟨u, hu, Nat.lt_of_le_of_lt hn (hup t u v htu huv)⟩
  obtain ⟨t, -, ht⟩ := hclimb (N + 1)
  have := hN t
  omega

section
variable [DecidableEq τ] {as : List τ}

/-- What holds of each thread alone. -/
theorem inv_threads (I : κ → Prop) (h0 : ∀ t, I (s t)) (hstep : ∀ k k', I k → M.step k k' → I k')
    (h : Run M.Step s as s') : ∀ t, I (s' t) := by
  refine h.inv (fun s => ∀ t, I (s t)) h0 ?_
  rintro s t _ hs ⟨k, hk, -, rfl⟩ u
  by_cases hu : u = t
  · subst hu
    rw [Function.update_self]
    exact hstep _ _ (hs _) hk
  · rw [Function.update_of_ne hu]
    exact hs u

end

end Machine

/-! ## Relations without rings -/

/-- The edges of `R` go up, and not for ever. -/
def Ranked {ι : Type*} (R : ι → ι → Prop) : Prop :=
  ∃ (ρ : ι → Nat) (N : Nat), (∀ x, ρ x ≤ N) ∧ ∀ x y, R x y → ρ x < ρ y

section
variable {ι : Type*} {R R' : ι → ι → Prop} {a b : ι}

theorem Ranked.mono (h : Ranked R) (hR : ∀ x y, R' x y → R x y) : Ranked R' := by
  obtain ⟨ρ, N, hN, hρ⟩ := h
  exact ⟨ρ, N, hN, fun x y hxy => hρ x y (hR x y hxy)⟩

open Classical in
/-- An edge from `b` to `a` closes no ring when there is no path from `a` to `b`. -/
theorem Ranked.insert (h : Ranked R) (hab : ¬ Relation.ReflTransGen R a b) :
    Ranked fun x y => R x y ∨ x = b ∧ y = a := by
  obtain ⟨ρ, N, hN, hρ⟩ := h
  -- what `a` leads to is lifted above `b`
  refine ⟨fun x => if Relation.ReflTransGen R a x then ρ x + ρ b + 1 else ρ x, N + N + 1, fun x => ?_, ?_⟩
  · have hx := hN x
    have hb := hN b
    dsimp only
    split_ifs <;> omega
  · rintro x y (hxy | ⟨rfl, rfl⟩) <;> dsimp only
    · have hlt := hρ x y hxy
      by_cases hx : Relation.ReflTransGen R a x
      · rw [if_pos hx, if_pos (hx.tail hxy)]
        omega
      · rw [if_neg hx]
        split_ifs <;> omega
    · rw [if_neg hab, if_pos .refl]
      omega

/-- Everything in `C` has an edge into `C` and one out of `C`. -/
structure RingOf (R : ι → ι → Prop) (C : List ι) : Prop where
  nonempty : ∃ x, x ∈ C
  next : ∀ x ∈ C, ∃ y ∈ C, R x y
  prev : ∀ y ∈ C, ∃ x ∈ C, R x y

theorem RingOf.mono {C : List ι} (h : RingOf R C) (hR : ∀ x ∈ C, ∀ y ∈ C, R x y → R' x y) : RingOf R' C where
  nonempty := h.nonempty
  next x hx := by
    obtain ⟨y, hy, hxy⟩ := h.next x hx
    exact ⟨y, hy, hR x hx y hy hxy⟩
  prev y hy := by
    obtain ⟨x, hx, hxy⟩ := h.prev y hy
    exact ⟨x, hx, hR x hx y hy hxy⟩

/-- The points of a path. -/
theorem exists_points (h : Relation.ReflTransGen R a b) : ∃ C : List ι, a ∈ C ∧ b ∈ C ∧
    (∀ x ∈ C, x = b ∨ ∃ y ∈ C, R x y) ∧ ∀ y ∈ C, y = a ∨ ∃ x ∈ C, R x y := by
  induction h with
  | refl => exact ⟨[a], by simp⟩
  | @tail b c _ hbc ih =>
    obtain ⟨C, ha, hb, hnext, hprev⟩ := ih
    refine ⟨c :: C, .tail _ ha, .head _, fun x hx => ?_, fun y hy => ?_⟩
    · rcases List.mem_cons.1 hx with rfl | hx
      · exact .inl rfl
      · rcases hnext x hx with rfl | ⟨y, hy, hxy⟩
        · exact .inr ⟨c, .head _, hbc⟩
        · exact .inr ⟨y, .tail _ hy, hxy⟩
    · rcases List.mem_cons.1 hy with rfl | hy
      · exact .inr ⟨b, .tail _ hb, hbc⟩
      · refine (hprev y hy).imp_right ?_
        rintro ⟨x, hx, hxy⟩
        exact ⟨x, .tail _ hx, hxy⟩

theorem ring_of_path (h : Relation.ReflTransGen R a b) (hba : R b a) : ∃ C, RingOf R C := by
  obtain ⟨C, ha, hb, hnext, hprev⟩ := exists_points h
  refine ⟨C, ⟨a, ha⟩, fun x hx => ?_, fun y hy => ?_⟩
  · rcases hnext x hx with rfl | hy
    · exact ⟨a, ha, hba⟩
    · exact hy
  · rcases hprev y hy with rfl | hx
    · exact ⟨b, hb, hba⟩
    · exact hx

end

end Locks
