import CtiLog.File
/-
# The codes of the chunked operations

A code is `Truthful` when it is assigned, 0 for a call in which nothing went wrong, 0 only for a
complete range (or, for reads, the end of the file), positive for a cancelled call and negative
for a failed one. `traverse` is always truthful. The others are not: the loops of the callback
`read` and of the two pointer overloads of `write` leave `ret` unassigned when they reach the end
of their range, and every `write` reports 0 when the descriptor accepts no byte.
-/

namespace CtiLog

open Chunks

/-! ## Truthful codes -/

namespace Event

/-- Nothing went wrong, and nobody asked to stop. -/
def fine : Event → Bool
  | .map _ _ _ none | .io _ _ (.ok _) | .asked _ _ false => true
  | _ => false

/-- A system call, or the allocation of the buffer, failed. -/
def failed : Event → Bool
  | .setupFailed | .map _ _ _ (some _) | .io _ _ (.fail _) => true
  | _ => false

def stopped : Event → Bool
  | .asked _ _ true => true
  | _ => false

/-- `::read` found the end of the file. -/
def eof : Event → Bool
  | .io _ req (.ok 0) => decide (0 < req)
  | _ => false

theorem fine_not_failed {e : Event} (h : e.fine = true) : e.failed = false := by
  cases e with
  | map a b c f => cases f <;> simp_all [fine, failed]
  | io a b r => cases r <;> simp_all [fine, failed]
  | _ => simp_all [fine, failed]

theorem fine_not_stopped {e : Event} (h : e.fine = true) : e.stopped = false := by
  cases e with
  | asked a b s => cases s <;> simp_all [fine, stopped]
  | _ => simp_all [stopped]

end Event

structure Truthful {σ : Type*} (range : Nat) (eof : Event → Bool) (o : Outcome σ) : Prop where
  assigned : o.ret ≠ none
  clean : (∀ e ∈ o.events, e.fine = true) → o.ret = some 0
  complete : o.ret = some 0 → o.total = range ∨ ∃ e ∈ o.events, eof e = true
  cancelled : (∃ e ∈ o.events, e.stopped = true) → o.total < range → ∃ c, o.ret = some c ∧ 0 < c
  failed : (∃ e ∈ o.events, e.failed = true) → ∃ c, o.ret = some c ∧ c < 0

/-- Only reads may stop early at the end of the file. -/
def noEof : Event → Bool := fun _ => false

section
variable {σ : Type*} {range : Nat} {eof : Event → Bool}

theorem truthful_early {ret : Int} (h : ret < 0) (st : σ) (e : Event) (hf : e.fine = false) (hs : e.stopped = false) :
    Truthful range eof (Outcome.early ret st e) where
  assigned := by simp [Outcome.early]
  clean := by simp [Outcome.early, hf]
  complete := by simp only [Outcome.early, Option.some.injEq]; omega
  cancelled := by simp [Outcome.early, hs]
  failed := fun _ => ⟨ret, rfl, h⟩

/-! ## What a turn reports -/

/-- A turn that leaves was told why; a turn that goes on heard nothing bad. -/
inductive Reported (s : St σ) : Turn (St σ) → Prop
  | broke {r : Int} {e : Event} {s' : St σ} : s'.events = s.events ++ [e] → e.fine = false → e.stopped = false →
      r < 0 → Reported s (.leave r 0 s')
  | stopped {r : Int} {n : Nat} {e a : Event} {s' : St σ} : s'.events = s.events ++ [e, a] → e.fine = true →
      a.stopped = true → a.fine = false → a.failed = false → 0 < r → Reported s (.leave r n s')
  | moved {n : Nat} {es : List Event} {s' : St σ} : s'.events = s.events ++ es → (∀ e ∈ es, e.fine = true) →
      Reported s (.move n s')

/-- A turn started at `t` whose end makes the code truthful. -/
def Settles (turn : Nat → Nat → St σ → Turn (St σ)) (max : Nat) (ret : Option Int) (eof : Event → Bool) (k t : Nat)
    (s : St σ) : Prop :=
  match turn k t s with
  | .leave _ _ _ => True
  | .move n s' => if n = 0 then t = max ∨ ∃ e ∈ s'.events, eof e = true else max ≤ t + n ∧ ret = some 0

variable {turn : Nat → Nat → St σ → Turn (St σ)} {max : Nat} {ret : Option Int} {st : σ}

/-- After a turn that goes on, still nothing went wrong. -/
theorem moved_fine {s s' : St σ} {n : Nat} (hr : Reported s (.move n s')) (hs : ∀ e ∈ s.events, e.fine = true) :
    ∀ e ∈ s'.events, e.fine = true := by
  cases hr with
  | moved he hf =>
    rw [he]
    intro e hm
    exact (List.mem_append.1 hm).elim (hs e) (hf e)

theorem not_failed_of_fine {es : List Event} {P : Prop} (h : ∀ e ∈ es, e.fine = true) :
    (∃ e ∈ es, e.failed = true) → P := by
  rintro ⟨e, hm, hf⟩
  rw [Event.fine_not_failed (h e hm)] at hf
  cases hf

theorem not_stopped_of_fine {es : List Event} {P : Prop} (h : ∀ e ∈ es, e.fine = true) :
    (∃ e ∈ es, e.stopped = true) → P := by
  rintro ⟨e, hm, hs⟩
  rw [Event.fine_not_stopped (h e hm)] at hs
  cases hs

theorem pos_fine (hrep : ∀ k t s, Reported s (turn k t s)) :
    ∀ k, Pending turn max ⟨st, []⟩ k → ∀ e ∈ (pos turn ⟨st, []⟩ k).2.events, e.fine = true := by
  refine pos_inv (fun _ _ (s : St σ) => ∀ e ∈ s.events, e.fine = true) (by simp) ?_
  intro k t s n s' ih ht _ _
  have hr := hrep k t s
  rw [ht] at hr
  exact moved_fine hr ih

theorem pos_le {turn : Nat → Nat → St σ → Turn (St σ)} {st : σ} : ∀ k, Pending turn max ⟨st, []⟩ k →
    (pos turn ⟨st, []⟩ k).1 ≤ max
  | 0, _ => Nat.zero_le _
  | _ + 1, h => Nat.le_of_lt (pos_lt_of_pending h)

/-- A turn that leaves says why in its code. -/
theorem truthful_left {s s' : St σ} {r : Int} {n : Nat} (t : Nat) (hr : Reported s (.leave r n s'))
    (hfine : ∀ e ∈ s.events, e.fine = true) : Truthful max eof (Outcome.ofLoop ⟨some r, t + n, s'⟩) := by
  cases hr with
  | @broke _ e _ hev hnf hns hneg =>
    refine ⟨by simp [Outcome.ofLoop], ?_, ?_, ?_, fun _ => ⟨r, rfl, hneg⟩⟩
    · intro hall
      have := hall e (by simp [Outcome.ofLoop, hev])
      rw [hnf] at this; cases this
    · simp only [Outcome.ofLoop, Option.some.injEq]; omega
    · rintro ⟨e', hm, hs'⟩ _
      simp only [Outcome.ofLoop, hev, List.mem_append, List.mem_singleton] at hm
      rcases hm with hm | rfl
      · rw [Event.fine_not_stopped (hfine e' hm)] at hs'; cases hs'
      · rw [hns] at hs'; cases hs'
  | @stopped _ _ e a _ hev hf hst hnf hna hpos' =>
    refine ⟨by simp [Outcome.ofLoop], ?_, ?_, fun _ _ => ⟨r, rfl, hpos'⟩, ?_⟩
    · intro hall
      have := hall a (by simp [Outcome.ofLoop, hev])
      rw [hnf] at this; cases this
    · simp only [Outcome.ofLoop, Option.some.injEq]; omega
    · rintro ⟨e', hm, hs'⟩
      simp only [Outcome.ofLoop, hev, List.mem_append, List.mem_cons, List.not_mem_nil, or_false] at hm
      rcases hm with hm | rfl | rfl
      · rw [Event.fine_not_failed (hfine e' hm)] at hs'; cases hs'
      · rw [Event.fine_not_failed hf] at hs'; cases hs'
      · rw [hna] at hs'; cases hs'

/-- Code 0 after nothing bad tells the truth when all is moved. -/
theorem truthful_moved {s : St σ} {t : Nat} (hfine : ∀ e ∈ s.events, e.fine = true)
    (hdone : t = max ∨ ∃ e ∈ s.events, eof e = true) : Truthful max eof (Outcome.ofLoop ⟨some 0, t, s⟩) where
  assigned := by simp [Outcome.ofLoop]
  clean := fun _ => rfl
  complete := fun _ => hdone
  cancelled := not_stopped_of_fine hfine
  failed := not_failed_of_fine hfine

/-- One loop, read off the turn that ends it. -/
theorem truthful_of_ends (hrep : ∀ k t s, Reported s (turn k t s))
    (hle : ∀ k t s n s', t ≤ max → turn k t s = .move n s' → t + n ≤ max) (hret : ret = none ∨ ret = some 0)
    {k : Nat} {r : Result (St σ)} (hp : Pending turn max ⟨st, []⟩ k)
    (he : Ends turn max ret k (pos turn ⟨st, []⟩ k).1 (pos turn ⟨st, []⟩ k).2 r) :
    Truthful max eof (Outcome.ofLoop r) ↔
      Settles turn max ret eof k (pos turn ⟨st, []⟩ k).1 (pos turn ⟨st, []⟩ k).2 := by
  have hfine := pos_fine hrep k hp
  have hr := hrep k (pos turn ⟨st, []⟩ k).1 (pos turn ⟨st, []⟩ k).2
  have hpos := pos_le k hp
  generalize (pos turn ⟨st, []⟩ k).2 = s at *
  generalize (pos turn ⟨st, []⟩ k).1 = t at *
  cases he with
  | @left r n s' ht =>
    simp only [Settles, ht, iff_true]
    rw [ht] at hr
    exact truthful_left t hr hfine
  | @dry s' ht =>
    simp only [Settles, ht, ↓reduceIte]
    rw [ht] at hr
    exact ⟨fun h => h.complete rfl, truthful_moved (moved_fine hr hfine)⟩
  | @full n s' ht hn hge =>
    simp only [Settles, ht, hn, ↓reduceIte]
    rw [ht] at hr
    have hmax : t + n = max := by have := hle k t s n s' hpos ht; omega
    constructor
    · intro h
      refine ⟨hge, ?_⟩
      rcases hret with rfl | rfl
      · exact absurd rfl h.assigned
      · rfl
    · rintro ⟨_, rfl⟩
      exact truthful_moved (moved_fine hr hfine) (.inl hmax)

/-- **A loop is truthful iff the turn that ends it settles the code.** -/
theorem truthful_iff (hrep : ∀ k t s, Reported s (turn k t s))
    (hle : ∀ k t s n s', t ≤ max → turn k t s = .move n s' → t + n ≤ max) (hret : ret = none ∨ ret = some 0)
    (st : σ) : Truthful max eof (Outcome.ofLoop (loop turn max ret 0 0 ⟨st, []⟩)) ↔
      ∃ k, Pending turn max ⟨st, []⟩ k ∧ Settles turn max ret eof k (pos turn ⟨st, []⟩ k).1 (pos turn ⟨st, []⟩ k).2 ∧
        ¬ Moves turn max k (pos turn ⟨st, []⟩ k).1 (pos turn ⟨st, []⟩ k).2 := by
  obtain ⟨k, hp, he⟩ := loop_ends turn max ret ⟨st, []⟩
  rw [truthful_of_ends hrep hle hret hp he]
  constructor
  · intro h
    exact ⟨k, hp, h, fun hm => hm.not_ends he⟩
  · rintro ⟨k', hp', h', hm'⟩
    rcases ends_or_moves turn max ret k' (pos turn ⟨st, []⟩ k').1 (pos turn ⟨st, []⟩ k').2 with ⟨r, he'⟩ | hm
    · rwa [ends_unique hp he hp' he']
    · exact absurd hm hm'

/-- A loop entered with no code assigned is truthful iff a reached turn leaves, or moves nothing at
the end of the range or of the file. -/
theorem truthful_unassigned_iff (hrep : ∀ k t s, Reported s (turn k t s))
    (hle : ∀ k t s n s', t ≤ max → turn k t s = .move n s' → t + n ≤ max) (st : σ) :
    Truthful max eof (Outcome.ofLoop (loop turn max none 0 0 ⟨st, []⟩)) ↔
      ∃ k, Pending turn max ⟨st, []⟩ k ∧
        let (t, s) := pos turn ⟨st, []⟩ k
        (∃ r n s', turn k t s = .leave r n s') ∨
          ∃ s', turn k t s = .move 0 s' ∧ (t = max ∨ ∃ e ∈ s'.events, eof e = true) := by
  rw [truthful_iff hrep hle (.inl rfl) st]
  refine exists_congr fun k => and_congr_right fun _ => ?_
  unfold Settles Moves
  generalize pos turn ⟨st, []⟩ k = q
  obtain ⟨t, s⟩ := q
  cases ht : turn k t s with
  | leave r n s' => simp [ht]
  | move n s' =>
    by_cases hn : n = 0
    · subst hn; simp [ht]
    · simp [ht, hn]

/-- Its first turn settles an empty range. -/
theorem unassigned_empty {turn : Nat → Nat → St σ → Turn (St σ)} {eof : Event → Bool}
    (hle : ∀ k t s n s', t ≤ 0 → turn k t s = .move n s' → t + n ≤ 0) (st : σ) :
    ∃ k, Pending turn 0 ⟨st, []⟩ k ∧
      let (t, s) := pos turn ⟨st, []⟩ k
      (∃ r n s', turn k t s = .leave r n s') ∨
        ∃ s', turn k t s = .move 0 s' ∧ (t = 0 ∨ ∃ e ∈ s'.events, eof e = true) := by
  refine ⟨0, fun j hj => absurd hj (by omega), ?_⟩
  show (∃ r n s', turn 0 0 ⟨st, []⟩ = .leave r n s') ∨ _
  cases ht : turn 0 0 ⟨st, []⟩ with
  | leave r n s' => exact .inl ⟨r, n, s', rfl⟩
  | move n s' =>
    have := hle 0 0 _ n s' le_rfl ht
    obtain rfl : n = 0 := by omega
    exact .inr ⟨s', rfl, .inl rfl⟩

/-- A loop entered with 0 is truthful iff no reached turn moves nothing before the end of the
range (and of the file). -/
theorem truthful_zero_iff (hrep : ∀ k t s, Reported s (turn k t s))
    (hle : ∀ k t s n s', t ≤ max → turn k t s = .move n s' → t + n ≤ max) (st : σ) :
    Truthful max eof (Outcome.ofLoop (loop turn max (some 0) 0 0 ⟨st, []⟩)) ↔
      ∀ k, Pending turn max ⟨st, []⟩ k →
        let (t, s) := pos turn ⟨st, []⟩ k
        ∀ s', turn k t s = .move 0 s' → t = max ∨ ∃ e ∈ s'.events, eof e = true := by
  obtain ⟨k, hp, he⟩ := loop_ends turn max (some 0) ⟨st, []⟩
  rw [truthful_of_ends hrep hle (.inr rfl) hp he]
  constructor
  · intro h k' hp' s' ht
    obtain rfl : k = k' := ends_unique hp he hp' (.dry ht)
    simpa only [Settles, ht, ↓reduceIte] using h
  · intro h
    unfold Settles
    split
    · trivial
    · rename_i n s' ht
      split
      · rename_i hn
        exact h k hp s' (hn ▸ ht)
      · rename_i hn
        refine ⟨?_, rfl⟩
        by_contra hlt
        exact (show Moves turn max k _ _ from ⟨n, s', ht, hn, by omega⟩).not_ends he

theorem pos_lt (hmax : 0 < max) : ∀ k, Pending turn max ⟨st, []⟩ k → (pos turn ⟨st, []⟩ k).1 < max
  | 0, _ => hmax
  | _ + 1, h => pos_lt_of_pending h

end

/-! ## What the turns of the six loops report -/

section
variable {σ : Type*} (f : File) (max each k t : Nat) (s : St σ)

theorem request_le (each max total : Nat) : request each max total ≤ max - total := by
  unfold request
  split <;> omega

theorem cancelled_pos : 0 < Errno.cancelled.code := by decide

theorem changed_neg : -Errno.fileChanged.code < 0 := by decide

theorem readError_neg (e : Nat) : sysCode .readError e < 0 := sysCode_neg (by decide) e

/-- After a system call that went well, the callback's answer. -/
theorem reported_asked {e : Event} (he : e.fine = true) (answer : Bool × σ) (n done rest : Nat) :
    let s' : St σ := ⟨answer.2, s.events ++ [e] ++ [.asked done rest answer.1]⟩
    Reported s (if answer.1 = true then .leave Errno.cancelled.code n s' else .move n s') := by
  obtain ⟨stop, u⟩ := answer
  dsimp only
  rw [List.append_assoc]
  cases stop with
  | true => exact .stopped rfl he rfl rfl rfl cancelled_pos
  | false =>
    refine .moved rfl fun a ha => ?_
    rcases List.mem_pair.1 ha with rfl | rfl
    · exact he
    · rfl

theorem traverseTurn_reported (pageBits : Nat) (content : σ → Str) (didRead : σ → Str → Bool × σ) (io : TraverseIO) :
    Reported s (traverseTurn f pageBits content didRead io max each k t s) := by
  unfold traverseTurn
  split
  · exact .broke rfl rfl rfl changed_neg
  · dsimp only
    split
    · exact .broke rfl rfl rfl (readError_neg _)
    · exact reported_asked s rfl (didRead s.user _) _ _ _

theorem readTurn_reported (content : σ → Str) (p : Nat) (didRead : σ → Str → Bool × σ) (io : ReadIO) :
    Reported s (readTurn f content p didRead io max each k t s) := by
  unfold readTurn
  split
  · exact .broke rfl rfl rfl changed_neg
  · split
    · exact .broke rfl rfl rfl (readError_neg _)
    · exact reported_asked s rfl (didRead s.user _) _ _ _

theorem writeTurn_reported (accept : σ → Str → σ) (didWrote : Option (DidWrote σ)) (data : Str) (io : WriteIO) :
    Reported s (writeTurn f accept didWrote data io max each k t s) := by
  unfold writeTurn
  split
  · exact .broke rfl rfl rfl changed_neg
  · split
    · exact .broke rfl rfl rfl (readError_neg _)
    · dsimp only
      split
      · exact .moved rfl (by simp [Event.fine])
      · rename_i cb
        exact reported_asked s rfl (cb _ _ _) _ _ _

/-- A mapping turn that goes on moved its whole request, which was not empty. -/
theorem traverseTurn_move {pageBits : Nat} {content : σ → Str} {didRead : σ → Str → Bool × σ} {io : TraverseIO}
    {n : Nat} {s' : St σ} (h : traverseTurn f pageBits content didRead io max each k t s = .move n s') :
    n = request each max t ∧ mmapFail (n + t - pageAlign pageBits t) (io.mmap k) = none := by
  unfold traverseTurn at h
  split at h
  · cases h
  · dsimp only at h
    split at h
    · cases h
    · rename_i hm
      split at h <;> cases h
      exact ⟨rfl, hm⟩

theorem readTurn_move {content : σ → Str} {p : Nat} {didRead : σ → Str → Bool × σ} {io : ReadIO}
    {n : Nat} {s' : St σ} (h : readTurn f content p didRead io max each k t s = .move n s') :
    n ≤ request each max t ∧ (n = 0 → 0 < request each max t → ∃ e ∈ s'.events, e.eof = true) := by
  unfold readTurn at h
  split at h
  · cases h
  · split at h
    · cases h
    · dsimp only at h
      split at h <;> cases h
      refine ⟨by unfold readMoved; omega, fun h0 hreq => ?_⟩
      refine ⟨.io t (request each max t) (.ok 0), ?_, by simp [Event.eof, hreq]⟩
      simp [St.log, h0]

theorem writeTurn_move {accept : σ → Str → σ} {didWrote : Option (DidWrote σ)} {data : Str} {io : WriteIO}
    {n : Nat} {s' : St σ} (h : writeTurn f accept didWrote data io max each k t s = .move n s') :
    ∃ m, io.sys k = .ok m ∧ n = min m (request each max t) := by
  unfold writeTurn at h
  split at h
  · cases h
  · split at h
    · cases h
    · rename_i m hm
      dsimp only at h
      split at h
      · cases h; exact ⟨m, hm, rfl⟩
      · split at h <;> cases h
        exact ⟨m, hm, rfl⟩

theorem eachRead_pos {eachRead0 max : Nat} (h : 0 < max) : 0 < eachRead eachRead0 max := by
  unfold eachRead kFileIoUpperBound kMaxFileRdMem
  dsimp only
  split <;> split <;> (try split at *) <;> omega

theorem eachWrite_pos {eachWrite0 : Int} {max : Nat} (h : 0 < max) : 0 < eachWrite eachWrite0 max := by
  unfold eachWrite kFileIoUpperBound
  dsimp only
  split <;> split <;> (try split at *) <;> omega

theorem request_pos {each max t : Nat} (he : 0 < max → 0 < each) (h : t < max) : 0 < request each max t := by
  have := he (by omega)
  unfold request
  split <;> omega

/-! ## `traverse` -/

/-- The turn that ends a traversal settles the code: a mapping is never short. -/
theorem traverseTurn_settles {pageBits : Nat} {content : σ → Str} {didRead : σ → Str → Bool × σ} {io : TraverseIO}
    (heach : 0 < max → 0 < each) (hle : t ≤ max)
    (hends : ¬ Moves (traverseTurn f pageBits content didRead io max each) max k t s) :
    Settles (traverseTurn f pageBits content didRead io max each) max (some 0) noEof k t s := by
  unfold Settles
  split
  · trivial
  · rename_i n s' ht
    have hn := (traverseTurn_move f max each k t s ht).1
    split
    · left
      by_contra hne
      have := request_pos heach (Nat.lt_of_le_of_ne hle hne)
      omega
    · rename_i hn0
      refine ⟨?_, rfl⟩
      by_contra hlt
      exact hends ⟨n, s', ht, hn0, by omega⟩

/-- `traverse` enters its loop with the code 0, and a mapping is never short. -/
theorem traverse_truthful (pageBits : Nat) (content : σ → Str) (didRead : σ → Str → Bool × σ) (eachRead0 : Nat)
    (limit : Int) (io : TraverseIO) (st : σ) :
    Truthful (maxRead limit (content st).length) noEof (traverse f pageBits content didRead eachRead0 limit io st) := by
  unfold traverse
  split
  · exact truthful_early (by decide) st _ rfl rfl
  · split
    · exact truthful_early (by decide) st _ rfl rfl
    · split
      · exact truthful_early (sysCode_neg (by decide) _) st _ rfl rfl
      · dsimp only
        generalize maxRead limit (content st).length = max
        have hrep := fun k t s => traverseTurn_reported f max (eachRead eachRead0 max) k t s pageBits content didRead io
        have hle : ∀ k t s n s', t ≤ max →
            traverseTurn f pageBits content didRead io max (eachRead eachRead0 max) k t s = .move n s' →
              t + n ≤ max := by
          intro k t s n s' ht hm
          have := request_le (eachRead eachRead0 max) max t
          rw [(traverseTurn_move f _ _ k t s hm).1]
          omega
        apply (truthful_iff hrep hle (.inr rfl) st).2
        obtain ⟨k, hp, he⟩ := loop_ends (traverseTurn f pageBits content didRead io max (eachRead eachRead0 max)) max
          (some 0) ⟨st, []⟩
        exact ⟨k, hp, traverseTurn_settles f max _ k _ _ eachRead_pos (pos_le k hp) fun hm => hm.not_ends he,
          fun hm => hm.not_ends he⟩

/-! ## The callback `read` -/

/-- Turn `k` meets a changed file, a failed `::read`, or a callback that asks to stop. -/
def ReadInterrupted (f : File) (content : σ → Str) (p : Nat) (didRead : σ → Str → Bool × σ) (io : ReadIO)
    (max each k total : Nat) (s : σ) : Prop :=
  io.view k ≠ f.view ∨ (∃ e, io.sys k = .fail e) ∨
    ∃ n, io.sys k = .ok n ∧
      (didRead s (((content s).drop (p + total)).take
        (readMoved n (request each max total) ((content s).length - (p + total))))).1 = true

/-- The call is turned away, its range is empty, or some reached turn is interrupted or finds the
end of the file. -/
def ReadSettled (f : File) (content : σ → Str) (p : Nat) (didRead : σ → Str → Bool × σ) (eachRead0 : Nat) (limit : Int)
    (io : ReadIO) (st : σ) : Prop :=
  f.ioBusy = true ∨ f.fd < 0 ∨ io.fstat ≠ none ∨ io.alloc = false ∨
    let max := maxRead limit (content st).length
    let each := eachRead eachRead0 max
    let turn := readTurn f content p didRead io max each
    max = 0 ∨ ∃ k, Pending turn max ⟨st, []⟩ k ∧
      let (total, s) := pos turn ⟨st, []⟩ k
      ReadInterrupted f content p didRead io max each k total s.user ∨ (content s.user).length ≤ p + total

theorem readTurn_leave_iff (content : σ → Str) (p : Nat) (didRead : σ → Str → Bool × σ) (io : ReadIO) :
    (∃ r n s', readTurn f content p didRead io max each k t s = .leave r n s') ↔
      ReadInterrupted f content p didRead io max each k t s.user := by
  unfold readTurn ReadInterrupted
  by_cases hv : io.view k ≠ f.view
  · simp [hv]
  · rw [if_neg hv]
    cases hs : io.sys k with
    | fail e => simp
    | ok n =>
      dsimp only [St.log]
      by_cases hd : (didRead s.user (((content s.user).drop (p + t)).take
        (readMoved n (request each max t) ((content s.user).length - (p + t))))).1 = true
      · rw [if_pos hd]
        simp [hd]
      · rw [if_neg hd]
        simp [hv, hd]

theorem readTurn_dry_iff {content : σ → Str} {p : Nat} {didRead : σ → Str → Bool × σ} {io : ReadIO} {n : Nat}
    {s' : St σ} (hreq : 0 < request each max t)
    (h : readTurn f content p didRead io max each k t s = .move n s') :
    n = 0 ↔ (content s.user).length ≤ p + t := by
  unfold readTurn at h
  split at h
  · cases h
  · split at h
    · cases h
    · rename_i m _
      dsimp only at h
      split at h <;> cases h
      have : 1 ≤ Nat.max 1 m := Nat.le_max_left 1 m
      unfold readMoved
      omega

theorem readTurn_le {content : σ → Str} {p : Nat} {didRead : σ → Str → Bool × σ} {io : ReadIO} :
    ∀ k t s n s', t ≤ max → readTurn f content p didRead io max each k t s = .move n s' → t + n ≤ max := by
  intro k t s n s' ht hm
  have := request_le each max t
  have := (readTurn_move f _ _ k t s hm).1
  omega

/-- A turn of a nonempty request assigns a truthful code iff it is interrupted or at the end of the file. -/
theorem readTurn_settles_iff (content : σ → Str) (p : Nat) (didRead : σ → Str → Bool × σ) (io : ReadIO)
    (hreq : 0 < request each max t) :
    ((∃ r n s', readTurn f content p didRead io max each k t s = .leave r n s') ∨
        ∃ s', readTurn f content p didRead io max each k t s = .move 0 s' ∧
          (t = max ∨ ∃ e ∈ s'.events, e.eof = true)) ↔
      ReadInterrupted f content p didRead io max each k t s.user ∨ (content s.user).length ≤ p + t := by
  rw [← readTurn_leave_iff]
  constructor
  · rintro (h | ⟨s', ht, -⟩)
    · exact .inl h
    · exact .inr ((readTurn_dry_iff f max each k t s hreq ht).1 rfl)
  · rintro (h | hend)
    · exact .inl h
    · cases ht : readTurn f content p didRead io max each k t s with
      | leave r n s' => exact .inl ⟨r, n, s', rfl⟩
      | move n s' =>
        obtain rfl := (readTurn_dry_iff f max each k t s hreq ht).2 hend
        exact .inr ⟨s', rfl, .inr ((readTurn_move f max each k t s ht).2 rfl hreq)⟩

/-- **The callback `read` is truthful iff it does not leave `ret` unassigned**: the last turn of a
range that is read to its end by a nonempty `::read` assigns no code. -/
theorem readCb_truthful_iff (content : σ → Str) (p : Nat) (didRead : σ → Str → Bool × σ) (eachRead0 : Nat)
    (limit : Int) (io : ReadIO) (st : σ) :
    Truthful (maxRead limit (content st).length) Event.eof
        (readCb f content p didRead eachRead0 limit io st).1 ↔
      ReadSettled f content p didRead eachRead0 limit io st := by
  unfold readCb ReadSettled
  by_cases hb : f.ioBusy = true
  · simpa [hb] using truthful_early (by decide) st _ rfl rfl
  by_cases hf : f.fd < 0
  · simpa [hb, hf] using truthful_early (by decide) st _ rfl rfl
  cases hs : io.fstat with
  | some e => simpa [hb, hf] using truthful_early (sysCode_neg (by decide) _) st _ rfl rfl
  | none =>
    cases ha : io.alloc with
    | false => simpa [hb, hf] using truthful_early (by decide) st _ rfl rfl
    | true =>
      simp only [hb, hf, Bool.not_true, Bool.false_eq_true, if_false, ne_eq, not_true_eq_false, reduceCtorEq, false_or]
      generalize maxRead limit (content st).length = max
      have hrep := fun k t s => readTurn_reported f max (eachRead eachRead0 max) k t s content p didRead io
      rw [truthful_unassigned_iff hrep (readTurn_le f max _) st]
      rcases Nat.eq_zero_or_pos max with rfl | hmax
      · exact iff_of_true (unassigned_empty (readTurn_le f 0 _) st) (.inl rfl)
      · simp only [hmax.ne', false_or]
        refine exists_congr fun k => and_congr_right fun hp => ?_
        have hreq := request_pos (@eachRead_pos eachRead0 max) (pos_lt hmax k hp)
        exact readTurn_settles_iff f max _ k _ _ content p didRead io hreq

/-! ## `write` -/

/-- Turn `k` meets a changed file, a failed `::write`, or a callback that asks to stop. -/
def WriteInterrupted (f : File) (accept : σ → Str → σ) (didWrote : Option (DidWrote σ)) (data : Str) (io : WriteIO)
    (max each k total : Nat) (s : σ) : Prop :=
  io.view k ≠ f.view ∨ (∃ e, io.sys k = .fail e) ∨
    ∃ n cb, io.sys k = .ok n ∧ didWrote = some cb ∧
      let m := min n (request each max total)
      (cb (accept s ((data.drop total).take m)) (total + m) (max - (total + m))).1 = true

/-- The call is turned away, or every reached `::write` of a nonempty request that accepts no byte
is followed by a callback that asks to stop. -/
def BundleSettled (f : File) (accept : σ → Str → σ) (didWrote : Option (DidWrote σ)) (data : Option Bundle)
    (eachWrite0 limit : Int) (io : WriteIO) (st : σ) : Prop :=
  f.ioBusy = true ∨ f.fd < 0 ∨ ∀ b ∈ data, b.ret < 0 ∨
    let max := maxWrite limit b.bytes.length
    let each := eachWrite eachWrite0 max
    let turn := writeTurn f accept didWrote b.bytes io max each
    ∀ k, Pending turn max ⟨st, []⟩ k →
      let (total, s) := pos turn ⟨st, []⟩ k
      total < max → io.sys k = .ok 0 → WriteInterrupted f accept didWrote b.bytes io max each k total s.user

/-- The call is turned away, its range is empty, or some reached turn is interrupted. -/
def PointerSettled (f : File) (accept : σ → Str → σ) (didWrote : Option (DidWrote σ)) (data : Option Str)
    (eachWrite0 limit : Int) (io : WriteIO) (st : σ) : Prop :=
  f.ioBusy = true ∨ f.fd < 0 ∨ ∀ bytes ∈ data,
    let max := maxWrite limit bytes.length
    let each := eachWrite eachWrite0 max
    let turn := writeTurn f accept didWrote bytes io max each
    max = 0 ∨ ∃ k, Pending turn max ⟨st, []⟩ k ∧
      let (total, s) := pos turn ⟨st, []⟩ k
      WriteInterrupted f accept didWrote bytes io max each k total s.user

theorem writeTurn_leave_iff (accept : σ → Str → σ) (didWrote : Option (DidWrote σ)) (data : Str) (io : WriteIO) :
    (∃ r n s', writeTurn f accept didWrote data io max each k t s = .leave r n s') ↔
      WriteInterrupted f accept didWrote data io max each k t s.user := by
  unfold writeTurn WriteInterrupted
  by_cases hv : io.view k ≠ f.view
  · simp [hv]
  · rw [if_neg hv]
    cases hs : io.sys k with
    | fail e => simp
    | ok n =>
      cases didWrote with
      | none => simp [hv]
      | some cb =>
        dsimp only [St.log]
        by_cases hd : (cb (accept s.user ((data.drop t).take (min n (request each max t))))
          (t + min n (request each max t)) (max - (t + min n (request each max t)))).1 = true
        · rw [if_pos hd]
          simp [hd]
        · rw [if_neg hd]
          simp [hv, hd]

theorem writeTurn_dry_iff {accept : σ → Str → σ} {didWrote : Option (DidWrote σ)} {data : Str} {io : WriteIO}
    {n : Nat} {s' : St σ} (hreq : 0 < request each max t)
    (h : writeTurn f accept didWrote data io max each k t s = .move n s') : n = 0 ↔ io.sys k = .ok 0 := by
  obtain ⟨m, hs, rfl⟩ := writeTurn_move f max each k t s h
  rw [hs, Sys.ok.injEq]
  omega

theorem writeTurn_le {accept : σ → Str → σ} {didWrote : Option (DidWrote σ)} {data : Str} {io : WriteIO} :
    ∀ k t s n s', t ≤ max → writeTurn f accept didWrote data io max each k t s = .move n s' → t + n ≤ max := by
  intro k t s n s' ht hm
  have := request_le each max t
  obtain ⟨m, -, rfl⟩ := writeTurn_move f _ _ k t s hm
  omega

/-- A turn that moves nothing is at the end of the range, or not the turn of a `::write` that accepts
nothing. -/
theorem writeTurn_settles_iff (accept : σ → Str → σ) (didWrote : Option (DidWrote σ)) (data : Str) (io : WriteIO)
    (hle : t ≤ max) (hreq : t < max → 0 < request each max t) :
    (∀ s', writeTurn f accept didWrote data io max each k t s = .move 0 s' →
        t = max ∨ ∃ e ∈ s'.events, noEof e = true) ↔
      (t < max → io.sys k = .ok 0 → WriteInterrupted f accept didWrote data io max each k t s.user) := by
  rw [← writeTurn_leave_iff]
  constructor
  · intro h hlt hs
    cases ht : writeTurn f accept didWrote data io max each k t s with
    | leave r n s' => exact ⟨r, n, s', rfl⟩
    | move n s' =>
      obtain rfl := (writeTurn_dry_iff f max each k t s (hreq hlt) ht).2 hs
      rcases h s' ht with h | ⟨e, _, he⟩
      · omega
      · cases he
  · intro h s' ht
    left
    by_contra hne
    have hlt : t < max := Nat.lt_of_le_of_ne hle hne
    obtain ⟨r, n, s'', hl⟩ := h hlt ((writeTurn_dry_iff f max each k t s (hreq hlt) ht).1 rfl)
    rw [ht] at hl
    cases hl

/-- **The `Any` overloads are truthful iff no `::write` accepts nothing**: such a turn ends the
loop with code 0 before the range is complete. -/
theorem writeBundle_truthful_iff (accept : σ → Str → σ) (didWrote : Option (DidWrote σ)) (data : Option Bundle)
    (eachWrite0 limit : Int) (io : WriteIO) (st : σ) :
    Truthful (data.elim 0 fun b => maxWrite limit b.bytes.length) noEof
        (writeBundle f accept didWrote data eachWrite0 limit io st) ↔
      BundleSettled f accept didWrote data eachWrite0 limit io st := by
  unfold writeBundle BundleSettled
  cases data with
  | none => simpa using truthful_early (by decide) st _ rfl rfl
  | some b =>
    by_cases hb : f.ioBusy = true
    · simpa [hb] using truthful_early (by decide) st _ rfl rfl
    by_cases hf : f.fd < 0
    · simpa [hb, hf] using truthful_early (by decide) st _ rfl rfl
    by_cases hr : b.ret < 0
    · simpa [hb, hf, hr] using truthful_early hr st _ rfl rfl
    have hret : b.ret = 0 := by have := b.ret_le; omega
    simp only [hb, hf, hret, lt_self_iff_false, Bool.false_eq_true, if_false, false_or, Option.mem_some_iff, forall_eq',
      Option.elim, writeLoop]
    generalize maxWrite limit b.bytes.length = max
    have hrep := fun k t s => writeTurn_reported f max (eachWrite eachWrite0 max) k t s accept didWrote b.bytes io
    rw [truthful_zero_iff hrep (writeTurn_le f max _) st]
    refine forall₂_congr fun k hp => ?_
    exact writeTurn_settles_iff f max _ k _ _ accept didWrote b.bytes io (pos_le k hp) (request_pos eachWrite_pos)

/-- **The pointer overloads are truthful iff their loop is left from inside**: reaching the end of
the range leaves `ret` unassigned, a `::write` that accepts nothing gives 0. -/
theorem writePointer_truthful_iff (accept : σ → Str → σ) (didWrote : Option (DidWrote σ)) (data : Option Str)
    (eachWrite0 limit : Int) (io : WriteIO) (st : σ) :
    Truthful (data.elim 0 fun bytes => maxWrite limit bytes.length) noEof
        (writePointer f accept didWrote data eachWrite0 limit io st) ↔
      PointerSettled f accept didWrote data eachWrite0 limit io st := by
  unfold writePointer PointerSettled
  cases data with
  | none => simpa using truthful_early (by decide) st _ rfl rfl
  | some bytes =>
    by_cases hb : f.ioBusy = true
    · simpa [hb] using truthful_early (by decide) st _ rfl rfl
    by_cases hf : f.fd < 0
    · simpa [hb, hf] using truthful_early (by decide) st _ rfl rfl
    simp only [hb, hf, Bool.false_eq_true, if_false, false_or, Option.mem_some_iff, forall_eq', Option.elim, writeLoop]
    generalize maxWrite limit bytes.length = max
    have hrep := fun k t s => writeTurn_reported f max (eachWrite eachWrite0 max) k t s accept didWrote bytes io
    rw [truthful_unassigned_iff hrep (writeTurn_le f max _) st]
    rcases Nat.eq_zero_or_pos max with rfl | hmax
    · exact iff_of_true (unassigned_empty (writeTurn_le f 0 _) st) (.inl rfl)
    · simp only [hmax.ne', false_or]
      refine exists_congr fun k => and_congr_right fun hp => ?_
      have hlt := pos_lt hmax k hp
      rw [← writeTurn_leave_iff]
      constructor
      · rintro (h | ⟨s', _, h | ⟨e, _, he⟩⟩)
        · exact h
        · omega
        · cases he
      · exact .inl

end

/-! ## The six operations -/

/-- **When the code of a chunked operation is truthful**, operation by operation: `traverse` always,
the callback `read` and the pointer overloads when their loop is not left by reaching the end of the
range, the `Any` overloads when no `::write` accepts nothing. -/
theorem codes_truthful_iff {σ : Type*} (f : File) (st : σ) :
    (∀ pageBits content didRead eachRead0 limit io, Truthful (maxRead limit (content st).length) noEof
        (traverse f pageBits content didRead eachRead0 limit io st)) ∧
    (∀ content p didRead eachRead0 limit io, Truthful (maxRead limit (content st).length) Event.eof
        (readCb f content p didRead eachRead0 limit io st).1 ↔
      ReadSettled f content p didRead eachRead0 limit io st) ∧
    (∀ accept data eachWrite0 limit io, Truthful (data.elim 0 fun b => maxWrite limit b.bytes.length) noEof
        (writeAny f accept data eachWrite0 limit io st) ↔
      BundleSettled f accept none data eachWrite0 limit io st) ∧
    (∀ accept data eachWrite0 io, Truthful (data.elim 0 fun bytes => bytes.length) noEof
        (writeRaw f accept data eachWrite0 io st) ↔
      PointerSettled f accept none data eachWrite0 (-1) io st) ∧
    (∀ accept didWrote data eachWrite0 limit io, Truthful (data.elim 0 fun b => maxWrite limit b.bytes.length) noEof
        (writeAnyCb f accept didWrote data eachWrite0 limit io st) ↔
      BundleSettled f accept (some didWrote) data eachWrite0 limit io st) ∧
    (∀ accept didWrote data eachWrite0 limit io, Truthful (data.elim 0 fun bytes => maxWrite limit bytes.length) noEof
        (writeRawCb f accept didWrote data eachWrite0 limit io st) ↔
      PointerSettled f accept (some didWrote) data eachWrite0 limit io st) := by
  refine ⟨?_, ?_, ?_, ?_, ?_, ?_⟩
  · intro pageBits content didRead eachRead0 limit io
    exact traverse_truthful f pageBits content didRead eachRead0 limit io st
  · intro content p didRead eachRead0 limit io
    exact readCb_truthful_iff f content p didRead eachRead0 limit io st
  · intro accept data eachWrite0 limit io
    exact writeBundle_truthful_iff f accept none data eachWrite0 limit io st
  · intro accept data eachWrite0 io
    exact writePointer_truthful_iff f accept none data eachWrite0 (-1) io st
  · intro accept didWrote data eachWrite0 limit io
    exact writeBundle_truthful_iff f accept (some didWrote) data eachWrite0 limit io st
  · intro accept didWrote data eachWrite0 limit io
    exact writePointer_truthful_iff f accept (some didWrote) data eachWrite0 limit io st

/-- A `::write` that takes the whole buffer at once leaves the code unassigned. -/
theorem writeRaw_one_byte :
    let f : File := ⟨str "a", some ⟨3, [str "a"], 0⟩, false⟩
    let o := writeRaw f (fun (s : Str) bs => s ++ bs) (some (str "x")) 0 ⟨fun _ => f.view, fun _ => .ok 1⟩ []
    o.ret = none ∧ o.st = str "x" ∧ ¬ Truthful 1 noEof o := by
  intro f o
  have ho : o = ⟨none, 1, str "x", [.io 0 1 (.ok 1)]⟩ := by
    have hends : Ends (writeTurn f (fun (s : Str) bs => s ++ bs) none (str "x") ⟨fun _ => f.view, fun _ => .ok 1⟩ 1 1)
        1 none 0 0 ⟨[], []⟩ ⟨none, 0 + 1, ⟨str "x", [.io 0 1 (.ok 1)]⟩⟩ :=
      .full rfl (by decide) (by decide)
    show Outcome.ofLoop (loop _ 1 none 0 0 ⟨[], []⟩) = _
    exact congrArg Outcome.ofLoop (loop_of_ends_here hends)
  rw [ho]
  exact ⟨rfl, rfl, fun h => h.assigned rfl⟩

end CtiLog
