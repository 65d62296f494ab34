import CtiLog.Locks
/-
# Scoped locks taken in order

A language for what functions do with scoped locks, whatever else they compute: a section holds its
lock while its body runs, branches and loops go either way, and `user` is code of the user, who may
call any of the functions again. A thread is what it has left to do, the locks it has to give back
included.

* `Script`, `Item`, `machine` — the language and its steps.
* `Script.Ordered` — sections nest in the order of a rank, and user code runs outside of them.
* `not_deadlocked_of_ordered` — functions that are all `Ordered` do not deadlock, in whatever way any
  number of threads interleaves them.
* `progress` — where there is no deadlock, somebody moves on.
-/

namespace Locks

open Runs

/-- The kinds of section: a shared lock, an upgrade lock converted at once, a mutex. -/
inductive Kind where
  | read | write | mutex
deriving DecidableEq, Repr

inductive Script (L : Type*) where
  | skip
  | lock (k : Kind) (l : L) (body : Script L)
  | seq (p q : Script L)
  | alt (p q : Script L)
  | loop (p : Script L)
  | user

/-- `p`, or an exit before it. -/
def Script.maybe {L : Type*} (p : Script L) : Script L := .alt .skip p

/-- What is left to do. `unlock` and `downgrade` are locks still held. -/
inductive Item (L : Type*) where
  | run (p : Script L)
  /-- The upgrade lock is there, the conversion is not. -/
  | convert (l : L) (body : Script L)
  /-- Gives back `unique`, keeps `upgrade`. -/
  | downgrade (l : L)
  | unlock (l : L) (h : Hold)

variable {L O : Type*}

/-- The steps of one thread; `body` is what the functions do. -/
inductive Move (body : O → Script L) : List (Item L) → List (Item L) → Prop
  | skip {K : List (Item L)} : Move body (.run .skip :: K) K
  | read {l : L} {p : Script L} {K : List (Item L)} :
      Move body (.run (.lock .read l p) :: K) (.run p :: .unlock l .shared :: K)
  | mutex {l : L} {p : Script L} {K : List (Item L)} :
      Move body (.run (.lock .mutex l p) :: K) (.run p :: .unlock l .unique :: K)
  | write {l : L} {p : Script L} {K : List (Item L)} :
      Move body (.run (.lock .write l p) :: K) (.convert l p :: .unlock l .upgrade :: K)
  | convert {l : L} {p : Script L} {K : List (Item L)} :
      Move body (.convert l p :: .unlock l .upgrade :: K) (.run p :: .downgrade l :: K)
  | downgrade {l : L} {K : List (Item L)} : Move body (.downgrade l :: K) (.unlock l .upgrade :: K)
  | unlock {l : L} {h : Hold} {K : List (Item L)} : Move body (.unlock l h :: K) K
  | seq {p q : Script L} {K : List (Item L)} : Move body (.run (.seq p q) :: K) (.run p :: .run q :: K)
  | left {p q : Script L} {K : List (Item L)} : Move body (.run (.alt p q) :: K) (.run p :: K)
  | right {p q : Script L} {K : List (Item L)} : Move body (.run (.alt p q) :: K) (.run q :: K)
  | again {p : Script L} {K : List (Item L)} : Move body (.run (.loop p) :: K) (.run p :: .run (.loop p) :: K)
  | leave {p : Script L} {K : List (Item L)} : Move body (.run (.loop p) :: K) K
  | call {o : O} {K : List (Item L)} : Move body (.run .user :: K) (.run (body o) :: .run .user :: K)
  | return_ {K : List (Item L)} : Move body (.run .user :: K) K

def Item.Holds : Item L → L → Hold → Prop
  | .unlock l h, l', h' => l = l' ∧ h = h'
  | .downgrade l, l', h' => l = l' ∧ h' = .unique
  | _, _, _ => False

def Kind.want : Kind → Want
  | .read => .shared
  | .write => .upgrade
  | .mutex => .lock

/-- The lock the next step needs. -/
def wants : List (Item L) → Option (L × Want)
  | .run (.lock k l _) :: _ => some (l, k.want)
  | .convert l _ :: _ => some (l, .convert)
  | _ => none

def holds (K : List (Item L)) (l : L) (h : Hold) : Prop := ∃ i ∈ K, i.Holds l h

def machine (body : O → Script L) : Machine (List (Item L)) L where
  holds := holds
  wants := wants
  step := Move body

/-! ## The order -/

variable (rank : L → Nat)

/-- Locks are taken from rank `n` on, each one above those around it; user code runs with none held. -/
def Script.Ordered (n : Nat) : Script L → Prop
  | .skip => True
  | .lock _ l p => n ≤ rank l ∧ p.Ordered (rank l + 1)
  | .seq p q => p.Ordered n ∧ q.Ordered n
  | .alt p q => p.Ordered n ∧ q.Ordered n
  | .loop p => p.Ordered n
  | .user => n = 0

/-- Where the next lock may be. -/
def floor : List (Item L) → Nat
  | [] => 0
  | .unlock l _ :: _ => rank l + 1
  | .downgrade l :: _ => rank l + 1
  | .run _ :: K => floor K
  | .convert _ _ :: K => floor K

/-- What a thread has left is in order, and so are the locks it holds. -/
def InOrder : List (Item L) → Prop
  | [] => True
  | .run p :: K => p.Ordered rank (floor rank K) ∧ InOrder K
  | .convert l p :: K => p.Ordered rank (rank l + 1) ∧ (∃ K', K = .unlock l .upgrade :: K') ∧ InOrder K
  | .unlock l _ :: K => floor rank K ≤ rank l ∧ InOrder K
  | .downgrade l :: K => floor rank K ≤ rank l ∧ InOrder K

section
variable {rank : L → Nat} {body : O → Script L} {K K' : List (Item L)} {l l' : L} {h : Hold} {w : Want}

namespace Script.Ordered

variable {k : Kind} {p q : Script L} {n : Nat}

theorem lock (hl : n ≤ rank l) (hp : p.Ordered rank (rank l + 1)) : (Script.lock k l p).Ordered rank n := ⟨hl, hp⟩

theorem seq (hp : p.Ordered rank n) (hq : q.Ordered rank n) : (p.seq q).Ordered rank n := ⟨hp, hq⟩

theorem alt (hp : p.Ordered rank n) (hq : q.Ordered rank n) : (p.alt q).Ordered rank n := ⟨hp, hq⟩

theorem loop (hp : p.Ordered rank n) : p.loop.Ordered rank n := hp

theorem maybe (hp : p.Ordered rank n) : p.maybe.Ordered rank n := ⟨trivial, hp⟩

/-- A section with nothing in it. -/
theorem empty (hl : n ≤ rank l) : (Script.lock k l .skip).Ordered rank n := ⟨hl, trivial⟩

end Script.Ordered

/-- **Step lemma.** -/
theorem Move.inOrder (hbody : ∀ o, (body o).Ordered rank 0) (hK : InOrder rank K) (h : Move body K K') :
    InOrder rank K' := by
  cases h with
  | skip => exact hK.2
  | read => exact ⟨hK.1.2, hK.1.1, hK.2⟩
  | mutex => exact ⟨hK.1.2, hK.1.1, hK.2⟩
  | write => exact ⟨hK.1.2, ⟨_, rfl⟩, hK.1.1, hK.2⟩
  | convert => exact ⟨hK.1, hK.2.2⟩
  | downgrade => exact hK
  | unlock => exact hK.2
  | seq => exact ⟨hK.1.1, hK.1.2, hK.2⟩
  | left => exact ⟨hK.1.1, hK.2⟩
  | right => exact ⟨hK.1.2, hK.2⟩
  | again => exact ⟨hK.1, hK.1, hK.2⟩
  | leave => exact hK.2
  | @call o K =>
    -- no lock is held around user code
    have h0 : floor rank K = 0 := hK.1
    refine ⟨?_, hK⟩
    show (body o).Ordered rank (floor rank K)
    rw [h0]
    exact hbody o
  | return_ => exact hK.2

@[simp] theorem holds_nil : holds [] l h ↔ False := by simp [holds]

@[simp] theorem holds_cons {i : Item L} : holds (i :: K) l h ↔ i.Holds l h ∨ holds K l h := by
  unfold holds
  simp only [List.mem_cons, exists_eq_or_imp]

@[simp] theorem holds_run {p : Script L} : (Item.run p).Holds l h ↔ False := Iff.rfl

@[simp] theorem holds_convert {p : Script L} : (Item.convert l' p).Holds l h ↔ False := Iff.rfl

@[simp] theorem holds_downgrade : (Item.downgrade l').Holds l h ↔ l' = l ∧ h = .unique := Iff.rfl

@[simp] theorem holds_unlock {d : Hold} : (Item.unlock l' d).Holds l h ↔ l' = l ∧ d = h := Iff.rfl

/-- A thread with something left has a next step, once it has the lock for it. -/
theorem exists_move (body : O → Script L) (hK : InOrder rank K) (hne : K ≠ []) : ∃ K', Move body K K' := by
  match K with
  | [] => exact absurd rfl hne
  | .run .skip :: K => exact ⟨_, .skip⟩
  | .run (.lock .read l p) :: K => exact ⟨_, .read⟩
  | .run (.lock .write l p) :: K => exact ⟨_, .write⟩
  | .run (.lock .mutex l p) :: K => exact ⟨_, .mutex⟩
  | .run (.seq p q) :: K => exact ⟨_, .seq⟩
  | .run (.alt p q) :: K => exact ⟨_, .left⟩
  | .run (.loop p) :: K => exact ⟨_, .leave⟩
  | .run .user :: K => exact ⟨_, .return_⟩
  | .convert l p :: K => obtain ⟨-, ⟨K', rfl⟩, -⟩ := hK; exact ⟨_, .convert⟩
  | .downgrade l :: K => exact ⟨_, .downgrade⟩
  | .unlock l h :: K => exact ⟨_, .unlock⟩

/-- Every lock held is below the floor. -/
theorem lt_floor (hK : InOrder rank K) (hl : holds K l h) : rank l < floor rank K := by
  induction K with
  | nil => exact (holds_nil.1 hl).elim
  | cons i K ih =>
    rcases holds_cons.1 hl with hi | hrest
    · cases i with
      | run p => cases hi
      | convert l' p => cases hi
      | downgrade l' => obtain ⟨rfl, -⟩ := hi; exact Nat.lt_succ_self _
      | unlock l' h' => obtain ⟨rfl, -⟩ := hi; exact Nat.lt_succ_self _
    · cases i with
      | run p => exact ih hK.2 hrest
      | convert l' p => exact ih hK.2.2 hrest
      | downgrade l' => exact Nat.lt_succ_of_lt (Nat.lt_of_lt_of_le (ih hK.2 hrest) hK.1)
      | unlock l' h' => exact Nat.lt_succ_of_lt (Nat.lt_of_lt_of_le (ih hK.2 hrest) hK.1)

/-- What a thread asks for is above all it holds, but for its own upgrade lock. -/
theorem wants_above (hK : InOrder rank K) (hw : wants K = some (l, w)) (hl : holds K l' h) :
    rank l' < rank l ∨ l' = l ∧ h = .upgrade ∧ w = .convert := by
  match K, hw with
  | .run (.lock k _ _) :: K, rfl =>
    rcases holds_cons.1 hl with hl | hl
    · cases hl
    · exact .inl (Nat.lt_of_lt_of_le (lt_floor hK.2 hl) hK.1.1)
  | .convert _ _ :: K, rfl =>
    obtain ⟨-, ⟨K', rfl⟩, hle, hK'⟩ := hK
    rcases holds_cons.1 hl with hl | hl
    · cases hl
    · rcases holds_cons.1 hl with ⟨rfl, rfl⟩ | hl
      · exact .inr ⟨rfl, rfl, rfl⟩
      · exact .inl (Nat.lt_of_lt_of_le (lt_floor hK' hl) hle)

/-- How far up a thread waits: a conversion is above the lock itself. -/
def height (rank : L → Nat) (K : List (Item L)) : Nat :=
  match wants K with
  | none => 0
  | some (l, .convert) => 2 * rank l + 2
  | some (l, _) => 2 * rank l + 1

theorem height_le (rank : L → Nat) (hw : wants K = some (l, w)) : height rank K ≤ 2 * rank l + 2 := by
  unfold height
  rw [hw]
  cases w <;> simp

theorem lt_height (rank : L → Nat) (hw : wants K = some (l, w)) : 2 * rank l < height rank K := by
  unfold height
  rw [hw]
  cases w <;> simp

end

section
variable {τ : Type*} {rank : L → Nat} {body : O → Script L} {s : τ → List (Item L)} {as : List τ}

/-- Every thread starts in user code. -/
def start : τ → List (Item L) := fun _ => [.run .user]

/-- Whoever is waited for waits higher up. -/
theorem height_lt {t u v : τ} (hs : ∀ t, InOrder rank (s t)) (htu : (machine body).Waits s t u)
    (huv : (machine body).Waits s u v) : height rank (s t) < height rank (s u) := by
  obtain ⟨l, w, h, hw, hl, hblock⟩ := htu
  obtain ⟨l', w', -, hw', -, -⟩ := huv
  have hw : wants (s t) = some (l, w) := hw
  have hw' : wants (s u) = some (l', w') := hw'
  rcases wants_above (hs u) hw' hl with hlt | ⟨rfl, rfl, rfl⟩
  · have h1 := height_le rank hw
    have h2 := lt_height rank hw'
    omega
  · -- the other thread converts the very lock; this one is not converting, as only shared locks stop that
    have hconv : height rank (s u) = 2 * rank l + 2 := by unfold height; rw [hw']
    have hnot : height rank (s t) = 2 * rank l + 1 := by
      unfold height
      rw [hw]
      cases w with
      | convert => cases hblock
      | _ => rfl
    omega

variable [DecidableEq τ]

theorem inOrder_of_run (hbody : ∀ o, (body o).Ordered rank 0) (h : Run (machine body).Step start as s) :
    ∀ t, InOrder rank (s t) :=
  have h0 : InOrder rank [.run .user] := ⟨rfl, trivial⟩
  Machine.inv_threads (InOrder rank) (fun _ => h0) (fun _ _ hK hst => Move.inOrder hbody hK hst) h

/-- **No deadlock is reachable** when all functions take their locks in order. -/
theorem not_deadlocked_of_ordered (R : Nat) (hR : ∀ l, rank l ≤ R) (hbody : ∀ o, (body o).Ordered rank 0)
    (h : Run (machine body).Step start as s) : ¬ (machine body).Deadlocked s := by
  have hs := inOrder_of_run hbody h
  refine Machine.not_deadlocked (fun t => height rank (s t)) (2 * R + 2) (fun t => ?_)
    (fun t u v => height_lt hs)
  cases hw : wants (s t) with
  | none => unfold height; rw [hw]; exact Nat.zero_le _
  | some p =>
    obtain ⟨l, w⟩ := p
    have h1 := height_le rank hw
    have h2 := hR l
    omega

/-- Somebody moves on, as long as somebody has something left to do. -/
theorem progress (hs : ∀ t, InOrder rank (s t)) (hno : ¬ (machine body).Deadlocked s) {t : τ} (ht : s t ≠ []) :
    ∃ t s', (machine body).Step s t s' := by
  by_contra hstuck
  -- otherwise everybody with something left waits, and only those hold locks
  refine hno ⟨{t | s t ≠ []}, ⟨t, ht⟩, fun u hu => ?_⟩
  obtain ⟨K, hK⟩ := exists_move body (hs u) hu
  by_contra hfree
  refine hstuck ⟨u, _, K, hK, fun v hv => hfree ⟨v, fun hv0 => ?_, hv⟩, rfl⟩
  obtain ⟨l, w, h, -, ⟨i, hi, -⟩, -⟩ := hv
  rw [hv0] at hi
  cases hi

/-- No thread asks for a lock it holds, but to convert its upgrade lock. -/
theorem not_held_of_wants (hbody : ∀ o, (body o).Ordered rank 0) (h : Run (machine body).Step start as s) {t : τ}
    {l : L} {w : Want} {d : Hold} (hw : (machine body).wants (s t) = some (l, w))
    (hd : (machine body).holds (s t) l d) :
    w = .convert ∧ d = .upgrade := by
  rcases wants_above (inOrder_of_run hbody h t) hw hd with hlt | ⟨-, hd, hw⟩
  · exact absurd hlt (lt_irrefl _)
  · exact ⟨hw, hd⟩

end

end Locks
