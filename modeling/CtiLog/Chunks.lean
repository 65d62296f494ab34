import Mathlib.Tactic
/-
# A chunked transfer loop

The do-while loop behind every chunked transfer: turn `k` starts after `total` bytes, talks to
its environment (a state of any type `σ`), and either leaves with a code or moves `n` more bytes;
a turn that moves nothing ends the loop with code 0, and so does reaching the range, which
leaves the code as it was before the loop.

* `loop` — the loop; it ends because every turn that goes on moves at least one byte.
* `pos` — where turn `k` starts, if every turn before it moved on.
* `Pending` — every turn before `k` moved on without reaching the range, so turn `k` is run.
* `Ends` — the three ways a turn ends the loop.
* `loop_ends`, `loop_of_ends` — the loop ends at exactly one pending turn, in one of these ways.
* `pos_inv`, `loop_inv`, `loop_total_le` — the invariant rules.
* `next`, `loop_next` — the loop taken turn by turn.
* `loop_map` — a turn that does the same in another environment gives the same loop.
-/

namespace Chunks

variable {σ : Type*}

/-- What one turn does: leave (having moved `n` bytes first), or move `n` bytes and go on. -/
inductive Turn (σ : Type*) where
  | leave (ret : Int) (n : Nat) (st : σ)
  | move (n : Nat) (st : σ)

/-- What the loop returns; `ret = none` is a code that no path has assigned. -/
structure Result (σ : Type*) where
  ret : Option Int
  total : Nat
  st : σ

def Turn.moved : Turn σ → Nat
  | .leave _ n _ => n
  | .move n _ => n

def Turn.st : Turn σ → σ
  | .leave _ _ s => s
  | .move _ s => s

def Turn.map {τ : Type*} (g : σ → τ) : Turn σ → Turn τ
  | .leave r n s => .leave r n (g s)
  | .move n s => .move n (g s)

def Result.map {τ : Type*} (g : σ → τ) (r : Result σ) : Result τ := ⟨r.ret, r.total, g r.st⟩

/-- `do { … } while (total < max)`, entered with the code `ret`. -/
def loop (turn : Nat → Nat → σ → Turn σ) (max : Nat) (ret : Option Int) (k total : Nat) (st : σ) : Result σ :=
  match turn k total st with
  | .leave r n st' => ⟨some r, total + n, st'⟩
  | .move n st' =>
    if n = 0 then ⟨some 0, total, st'⟩
    else if total + n < max then loop turn max ret (k + 1) (total + n) st'
    else ⟨ret, total + n, st'⟩
termination_by max - total

/-- One turn at a time: the result, or where the next turn starts. -/
def next (max : Nat) (ret : Option Int) (k total : Nat) : Turn σ → Result σ ⊕ (Nat × Nat × σ)
  | .leave r n st => .inl ⟨some r, total + n, st⟩
  | .move n st =>
    if n = 0 then .inl ⟨some 0, total, st⟩
    else if total + n < max then .inr (k + 1, total + n, st)
    else .inl ⟨ret, total + n, st⟩

/-- The three ways a turn started at `(k, t, s)` ends the loop, with the result of each. -/
inductive Ends (turn : Nat → Nat → σ → Turn σ) (max : Nat) (ret : Option Int) (k t : Nat) (s : σ) :
    Result σ → Prop
  | left {r : Int} {n : Nat} {s' : σ} : turn k t s = .leave r n s' → Ends turn max ret k t s ⟨some r, t + n, s'⟩
  | dry {s' : σ} : turn k t s = .move 0 s' → Ends turn max ret k t s ⟨some 0, t, s'⟩
  | full {n : Nat} {s' : σ} : turn k t s = .move n s' → n ≠ 0 → max ≤ t + n →
      Ends turn max ret k t s ⟨ret, t + n, s'⟩

/-- Turn `(k, t, s)` moves on to the next one. -/
def Moves (turn : Nat → Nat → σ → Turn σ) (max k t : Nat) (s : σ) : Prop :=
  ∃ n s', turn k t s = .move n s' ∧ n ≠ 0 ∧ t + n < max

/-- Where turn `k` starts when every turn before it is taken. -/
def pos (turn : Nat → Nat → σ → Turn σ) (s₀ : σ) : Nat → Nat × σ
  | 0 => (0, s₀)
  | k + 1 =>
    let p := pos turn s₀ k
    let u := turn k p.1 p.2
    (p.1 + u.moved, u.st)

/-- Turn `k` is reached. -/
def Pending (turn : Nat → Nat → σ → Turn σ) (max : Nat) (s₀ : σ) (k : Nat) : Prop :=
  ∀ j < k, Moves turn max j (pos turn s₀ j).1 (pos turn s₀ j).2

variable {turn : Nat → Nat → σ → Turn σ} {max : Nat} {ret : Option Int} {s₀ : σ} {k t : Nat} {s : σ}

theorem ends_or_moves (turn : Nat → Nat → σ → Turn σ) (max : Nat) (ret : Option Int) (k t : Nat) (s : σ) :
    (∃ r, Ends turn max ret k t s r) ∨ Moves turn max k t s := by
  cases h : turn k t s with
  | leave r n s' => exact .inl ⟨_, .left h⟩
  | move n s' =>
    by_cases hn : n = 0
    · subst hn; exact .inl ⟨_, .dry h⟩
    · by_cases hm : t + n < max
      · exact .inr ⟨n, s', h, hn, hm⟩
      · exact .inl ⟨_, .full h hn (by omega)⟩

/-- A turn that moves on does not end the loop. -/
theorem Moves.not_ends {r : Result σ} (hm : Moves turn max k t s) : ¬ Ends turn max ret k t s r := by
  obtain ⟨n, s', h, hn, hlt⟩ := hm
  intro he
  cases he with
  | left h' => rw [h] at h'; cases h'
  | dry h' => rw [h] at h'; cases h'; exact hn rfl
  | full h' _ hge => rw [h] at h'; cases h'; omega

theorem loop_of_ends_here {r : Result σ} (he : Ends turn max ret k t s r) : loop turn max ret k t s = r := by
  rw [loop]
  cases he with
  | left h => simp [h]
  | dry h => simp [h]
  | full h hn hge => simp [h, hn, Nat.not_lt.2 hge]

theorem loop_of_moves (hm : Moves turn max k t s) :
    loop turn max ret k t s = loop turn max ret (k + 1) (t + (turn k t s).moved) (turn k t s).st := by
  obtain ⟨n, s', h, hn, hlt⟩ := hm
  rw [loop]
  simp [h, hn, hlt, Turn.moved, Turn.st]

theorem pos_succ (turn : Nat → Nat → σ → Turn σ) (s₀ : σ) (k : Nat) :
    pos turn s₀ (k + 1) = ((pos turn s₀ k).1 + (turn k (pos turn s₀ k).1 (pos turn s₀ k).2).moved,
      (turn k (pos turn s₀ k).1 (pos turn s₀ k).2).st) := rfl

/-- Up to a pending turn the loop only moves on. -/
theorem loop_eq_of_pending : ∀ k, Pending turn max s₀ k →
    loop turn max ret 0 0 s₀ = loop turn max ret k (pos turn s₀ k).1 (pos turn s₀ k).2
  | 0, _ => rfl
  | k + 1, h => by
    rw [loop_eq_of_pending k (fun j hj => h j (by omega)), loop_of_moves (h k (by omega)), pos_succ]

/-- **Evaluation rule.** The way a pending turn ends the loop is the result of the loop. -/
theorem loop_of_ends {r : Result σ} (hp : Pending turn max s₀ k)
    (he : Ends turn max ret k (pos turn s₀ k).1 (pos turn s₀ k).2 r) : loop turn max ret 0 0 s₀ = r := by
  rw [loop_eq_of_pending k hp, loop_of_ends_here he]

/-- As many bytes as turns have been moved at a pending turn. -/
theorem le_pos_of_pending : ∀ k, Pending turn max s₀ k → k ≤ (pos turn s₀ k).1
  | 0, _ => Nat.zero_le _
  | k + 1, h => by
    have ih := le_pos_of_pending k (fun j hj => h j (by omega))
    obtain ⟨n, s', ht, hn, _⟩ := h k (by omega)
    rw [pos_succ]
    simp only [ht, Turn.moved]
    omega

theorem pos_lt_of_pending (h : Pending turn max s₀ (k + 1)) : (pos turn s₀ (k + 1)).1 < max := by
  obtain ⟨n, s', ht, _, hlt⟩ := h k (by omega)
  rw [pos_succ]
  simpa [ht, Turn.moved] using hlt

/-- Turn `max` cannot be reached: the loop ends. -/
theorem not_pending (hmax : 0 < max) : ¬ Pending turn max s₀ max := by
  intro h
  obtain ⟨m, rfl⟩ : ∃ m, max = m + 1 := ⟨max - 1, by omega⟩
  have h1 := le_pos_of_pending _ h
  have h2 := pos_lt_of_pending h
  omega

/-- **The loop ends** at a pending turn, in one of the three ways. -/
theorem loop_ends (turn : Nat → Nat → σ → Turn σ) (max : Nat) (ret : Option Int) (s₀ : σ) :
    ∃ k, Pending turn max s₀ k ∧
      Ends turn max ret k (pos turn s₀ k).1 (pos turn s₀ k).2 (loop turn max ret 0 0 s₀) := by
  by_contra hno
  -- otherwise every turn would be pending, the `max`-th one included
  have hall : ∀ k, Pending turn max s₀ k := by
    intro k
    induction k with
    | zero => intro j hj; omega
    | succ k ih =>
      intro j hj
      rcases Nat.lt_succ_iff_lt_or_eq.1 hj with hj | rfl
      · exact ih j hj
      · rcases ends_or_moves turn max ret j (pos turn s₀ j).1 (pos turn s₀ j).2 with ⟨r, he⟩ | hm
        · exact absurd ⟨j, ih, loop_of_ends ih he ▸ he⟩ hno
        · exact hm
  obtain ⟨n, s', _, _, hlt⟩ := hall 1 0 (by omega)
  exact not_pending (by omega) (hall max)

/-- The loop is its first turn and the rest. -/
theorem loop_next (turn : Nat → Nat → σ → Turn σ) (max : Nat) (ret : Option Int) (k t : Nat) (s : σ) :
    loop turn max ret k t s =
      (next max ret k t (turn k t s)).elim id fun p => loop turn max ret p.1 p.2.1 p.2.2 := by
  rw [loop]
  cases turn k t s with
  | leave r n s' => rfl
  | move n s' =>
    simp only [next]
    split
    · rfl
    · split <;> rfl

/-- Another turn is the next one. -/
theorem next_inr {u : Turn σ} {k' t' : Nat} {s' : σ} (h : next max ret k t u = .inr (k', t', s')) : k' = k + 1 := by
  cases u with
  | leave r n st => cases h
  | move n st =>
    simp only [next] at h
    split_ifs at h with hn hlt
    cases h
    rfl

/-- The turn that ends the loop is unique. -/
theorem ends_unique {k' : Nat} {r r' : Result σ} (hp : Pending turn max s₀ k)
    (he : Ends turn max ret k (pos turn s₀ k).1 (pos turn s₀ k).2 r) (hp' : Pending turn max s₀ k')
    (he' : Ends turn max ret k' (pos turn s₀ k').1 (pos turn s₀ k').2 r') : k = k' := by
  rcases Nat.lt_trichotomy k k' with h | h | h
  · exact absurd he (hp' k h).not_ends
  · exact h
  · exact absurd he' (hp k' h).not_ends

/-- **Invariant rule.** A fact about where a turn starts, kept by every turn that moves on, holds
where every pending turn starts. -/
theorem pos_inv (I : Nat → Nat → σ → Prop) (h0 : I 0 0 s₀)
    (hstep : ∀ k t s n s', I k t s → turn k t s = .move n s' → n ≠ 0 → t + n < max → I (k + 1) (t + n) s') :
    ∀ k, Pending turn max s₀ k → I k (pos turn s₀ k).1 (pos turn s₀ k).2
  | 0, _ => h0
  | k + 1, h => by
    have ih := pos_inv I h0 hstep k (fun j hj => h j (by omega))
    obtain ⟨n, s', ht, hn, hlt⟩ := h k (by omega)
    have := hstep k _ _ n s' ih ht hn hlt
    rw [pos_succ]
    simpa [ht, Turn.moved, Turn.st] using this

/-- What every turn keeps of the environment, the loop keeps. -/
theorem loop_inv (I : σ → Prop) (h0 : I s₀) (hturn : ∀ k t s, I s → I (turn k t s).st) :
    I (loop turn max ret 0 0 s₀).st := by
  obtain ⟨k, hp, he⟩ := loop_ends turn max ret s₀
  have hk : I (pos turn s₀ k).2 := by
    refine pos_inv (fun _ _ s => I s) h0 ?_ k hp
    intro k t s n s' hs ht _ _
    have := hturn k t s hs
    rwa [ht] at this
  have hlast := hturn k (pos turn s₀ k).1 _ hk
  generalize loop turn max ret 0 0 s₀ = r at he
  cases he with
  | left h => rwa [h] at hlast
  | dry h => rwa [h] at hlast
  | full h => rwa [h] at hlast

/-- **Bound rule.** If no turn moves past `b`, the loop does not. -/
theorem loop_total_le {b : Nat} (hturn : ∀ k t s, (turn k t s).moved ≤ b - t) :
    (loop turn max ret 0 0 s₀).total ≤ b := by
  obtain ⟨k, hp, he⟩ := loop_ends turn max ret s₀
  have hk : (pos turn s₀ k).1 ≤ b := by
    refine pos_inv (fun _ t _ => t ≤ b) (Nat.zero_le b) ?_ k hp
    intro k t s n s' ht hmove _ _
    have hn := hturn k t s
    rw [hmove] at hn
    simp only [Turn.moved] at hn
    omega
  have hlast := hturn k (pos turn s₀ k).1 (pos turn s₀ k).2
  generalize loop turn max ret 0 0 s₀ = r at he
  cases he with
  | left h => rw [h] at hlast; simp only [Turn.moved] at hlast; dsimp only; omega
  | dry h => exact hk
  | full h => rw [h] at hlast; simp only [Turn.moved] at hlast; dsimp only; omega

/-- **Simulation rule.** A loop that does turn by turn what another does, seen through `g`, has the
same result, seen through `g`. -/
theorem loop_map {τ : Type*} {turn' : Nat → Nat → τ → Turn τ} (g : σ → τ)
    (h : ∀ k t s, turn' k t (g s) = (turn k t s).map g) (k t : Nat) (s : σ) :
    loop turn' max ret k t (g s) = (loop turn max ret k t s).map g := by
  fun_induction loop turn max ret k t s with
  | case1 k t s r n s' ht => rw [loop, h, ht]; rfl
  | case2 k t s s' ht => rw [loop, h, ht]; simp [Turn.map, Result.map]
  | case3 k t s n s' ht hn hlt ih => rw [loop, h, ht]; simp [Turn.map, hn, hlt, ih]
  | case4 k t s n s' ht hn hlt => rw [loop, h, ht]; simp [Turn.map, Result.map, hn, hlt]

end Chunks
