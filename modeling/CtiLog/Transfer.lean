import CtiLog.FileCodes
/-
# What the chunked operations move

The callback `read` and the four `write` overloads are the same transfer: the bytes that reach the
callback, or the descriptor, are a prefix of a source (the file from the position of the
descriptor on, or the data), request by request and without a gap. What is handed out is recorded
beside the user's state; recording changes nothing.

* `record`, `recordAccept` — a callback, a descriptor, with everything it was given.
* `InStep` — every event speaks of the bytes moved by the events before it.
* `Transfers` — the result: a prefix is moved, in step, in at most `total + 1` calls.
* `transfers_of_steps` — a loop whose turns all are `Steps` transfers a prefix.
-/

namespace CtiLog

open Chunks

/-! ## Recording -/

section
variable {σ : Type*}

/-- A reading callback that keeps what it was given. -/
def record (didRead : σ → Str → Bool × σ) (s : σ × List Str) (data : Str) : Bool × (σ × List Str) :=
  ((didRead s.1 data).1, (didRead s.1 data).2, s.2 ++ [data])

/-- A descriptor that keeps what it accepted. -/
def recordAccept (accept : σ → Str → σ) (s : σ × List Str) (data : Str) : σ × List Str :=
  (accept s.1 data, s.2 ++ [data])

/-- A writing callback beside the record. -/
def besides (didWrote : DidWrote σ) : DidWrote (σ × List Str) := fun s wrote rest =>
  ((didWrote s.1 wrote rest).1, (didWrote s.1 wrote rest).2, s.2)

end

/-! ### Recording changes nothing -/

/-- A state, and an outcome, without the record. -/
def St.forget {σ : Type*} (s : St (σ × List Str)) : St σ := ⟨s.user.1, s.events⟩

def Outcome.forget {σ : Type*} (o : Outcome (σ × List Str)) : Outcome σ := ⟨o.ret, o.total, o.st.1, o.events⟩

section
variable {σ : Type*} (f : File) (st : σ)

/-- The two ends of a turn, without the record. -/
theorem ite_forget (b : Bool) {u v : Turn (St σ)} {u' v' : Turn (St (σ × List Str))} (hu : u = u'.map St.forget)
    (hv : v = v'.map St.forget) :
    (if b = true then u else v) = Turn.map St.forget (if b = true then u' else v') := by
  rw [hu, hv]
  cases b <;> rfl

theorem readTurn_forget (content : σ → Str) (p : Nat) (didRead : σ → Str → Bool × σ) (io : ReadIO)
    (max each k t : Nat) (s : St (σ × List Str)) :
    readTurn f content p didRead io max each k t s.forget =
      (readTurn f (fun s => content s.1) p (record didRead) io max each k t s).map St.forget := by
  unfold readTurn
  split
  · rfl
  · cases io.sys k with
    | fail e => rfl
    | ok n =>
      dsimp only [record]
      exact ite_forget _ rfl rfl

theorem traverseTurn_forget (pageBits : Nat) (content : σ → Str) (didRead : σ → Str → Bool × σ) (io : TraverseIO)
    (max each k t : Nat) (s : St (σ × List Str)) :
    traverseTurn f pageBits content didRead io max each k t s.forget =
      (traverseTurn f pageBits (fun s => content s.1) (record didRead) io max each k t s).map St.forget := by
  unfold traverseTurn
  split
  · rfl
  · dsimp only
    cases mmapFail (request each max t + t - pageAlign pageBits t) (io.mmap k) with
    | some e => rfl
    | none =>
      dsimp only [record]
      exact ite_forget _ rfl rfl

theorem writeTurn_forget (accept : σ → Str → σ) (didWrote : Option (DidWrote σ)) (data : Str) (io : WriteIO)
    (max each k t : Nat) (s : St (σ × List Str)) :
    writeTurn f accept didWrote data io max each k t s.forget =
      (writeTurn f (recordAccept accept) (didWrote.map besides) data io max each k t s).map St.forget := by
  unfold writeTurn
  split
  · rfl
  · cases io.sys k with
    | fail e => rfl
    | ok n =>
      cases didWrote with
      | none => rfl
      | some cb =>
        dsimp only [besides, recordAccept, Option.map_some]
        exact ite_forget _ rfl rfl

/-- The loop of a call that keeps a record is the loop of the call. -/
theorem ofLoop_forget {turn : Nat → Nat → St σ → Turn (St σ)}
    {turn' : Nat → Nat → St (σ × List Str) → Turn (St (σ × List Str))}
    (h : ∀ k t s, turn k t s.forget = (turn' k t s).map St.forget) (max : Nat) (ret : Option Int) (gs : List Str) :
    (Outcome.ofLoop (loop turn' max ret 0 0 ⟨(st, gs), []⟩)).forget = Outcome.ofLoop (loop turn max ret 0 0 ⟨st, []⟩) :=
  (congrArg Outcome.ofLoop (loop_map St.forget h 0 0 ⟨(st, gs), []⟩)).symm

/-- A callback `read` that keeps a record is the `read`. -/
theorem readCb_forget (content : σ → Str) (p : Nat) (didRead : σ → Str → Bool × σ) (eachRead0 : Nat) (limit : Int)
    (io : ReadIO) (gs : List Str) :
    let r := readCb f (fun s => content s.1) p (record didRead) eachRead0 limit io (st, gs)
    (r.1.forget, r.2) = readCb f content p didRead eachRead0 limit io st := by
  unfold readCb
  split
  · rfl
  split
  · rfl
  cases io.fstat with
  | some e => rfl
  | none =>
    cases io.alloc with
    | false => rfl
    | true =>
      have h := ofLoop_forget st (readTurn_forget f content p didRead io (maxRead limit (content st).length)
        (eachRead eachRead0 (maxRead limit (content st).length))) (maxRead limit (content st).length) none gs
      dsimp only
      rw [← h]
      rfl

/-- A `traverse` that keeps a record is the `traverse`. -/
theorem traverse_forget (pageBits : Nat) (content : σ → Str) (didRead : σ → Str → Bool × σ) (eachRead0 : Nat)
    (limit : Int) (io : TraverseIO) (gs : List Str) :
    (traverse f pageBits (fun s => content s.1) (record didRead) eachRead0 limit io (st, gs)).forget =
      traverse f pageBits content didRead eachRead0 limit io st := by
  unfold traverse
  split
  · rfl
  split
  · rfl
  cases io.fstat with
  | some e => rfl
  | none => exact ofLoop_forget st (traverseTurn_forget f pageBits content didRead io _ _) _ _ gs

/-- A `write` of an `Any` that keeps a record is the `write`. -/
theorem writeBundle_forget (accept : σ → Str → σ) (didWrote : Option (DidWrote σ)) (data : Option Bundle)
    (eachWrite0 limit : Int) (io : WriteIO) (gs : List Str) :
    (writeBundle f (recordAccept accept) (didWrote.map besides) data eachWrite0 limit io (st, gs)).forget =
      writeBundle f accept didWrote data eachWrite0 limit io st := by
  unfold writeBundle
  cases data with
  | none => rfl
  | some b =>
    dsimp only
    split
    · rfl
    split
    · rfl
    split
    · rfl
    · exact ofLoop_forget st (writeTurn_forget f accept didWrote b.bytes io _ _) _ _ gs

/-- A `write` of a buffer that keeps a record is the `write`. -/
theorem writePointer_forget (accept : σ → Str → σ) (didWrote : Option (DidWrote σ)) (data : Option Str)
    (eachWrite0 limit : Int) (io : WriteIO) (gs : List Str) :
    (writePointer f (recordAccept accept) (didWrote.map besides) data eachWrite0 limit io (st, gs)).forget =
      writePointer f accept didWrote data eachWrite0 limit io st := by
  unfold writePointer
  cases data with
  | none => rfl
  | some bytes =>
    dsimp only
    split
    · rfl
    split
    · rfl
    · exact ofLoop_forget st (writeTurn_forget f accept didWrote bytes io _ _) _ _ gs

end

/-! ## Events in step -/

/-- Bytes a system call moved. -/
def Event.moved : Event → Nat
  | .io _ _ (.ok n) => n
  | _ => 0

def movedBy (es : List Event) : Nat := (es.map Event.moved).sum

/-- Calls of `::read` or `::write`. -/
def Event.isIo : Event → Bool
  | .io _ _ _ => true
  | _ => false

/-- One event after `t` bytes: a request starts there and stays inside the range, the callback is
told `t` and what is left. -/
def Event.InStep (max each t : Nat) : Event → Prop
  | .io off req res => off = t ∧ off ≤ max ∧ off + req ≤ max ∧ req ≤ each ∧ Event.moved (.io off req res) ≤ req
  | .asked done rest _ => done = t ∧ done + rest = max
  | _ => True

/-- The events of a call of which `t` bytes are moved already. -/
def InStep (max each : Nat) : Nat → List Event → Prop
  | _, [] => True
  | t, e :: es => e.InStep max each t ∧ InStep max each (t + e.moved) es

@[simp] theorem movedBy_nil : movedBy [] = 0 := rfl

@[simp] theorem movedBy_append (es es' : List Event) : movedBy (es ++ es') = movedBy es + movedBy es' := by
  simp [movedBy]

@[simp] theorem movedBy_cons (e : Event) (es : List Event) : movedBy (e :: es) = e.moved + movedBy es := by
  simp [movedBy]

theorem inStep_append {max each : Nat} (es es' : List Event) (t : Nat) :
    InStep max each t (es ++ es') ↔ InStep max each t es ∧ InStep max each (t + movedBy es) es' := by
  induction es generalizing t with
  | nil => simp [InStep]
  | cons e es ih => simp [InStep, ih, and_assoc, Nat.add_assoc]

/-- **A prefix of `src` is moved**, at most `max` bytes in requests of at most `each`. -/
structure Transfers {σ : Type*} (src : Str) (max each : Nat) (o : Outcome (σ × List Str)) : Prop where
  /-- What was handed out is the first `total` bytes of the source, in order. -/
  bytes : o.st.2.flatten = src.take o.total
  total_le : o.total ≤ max
  inside : o.total ≤ src.length
  moved : movedBy o.events = o.total
  inStep : InStep max each 0 o.events
  /-- Nothing happens after a callback has asked to stop. -/
  stops : o.events.Pairwise fun e _ => e.stopped = false
  /-- The loop ends. -/
  calls : o.events.countP Event.isIo ≤ o.total + 1

section
variable {σ : Type*} {src : Str} {max each : Nat}

theorem transfers_early (ret : Int) (st : σ) {e : Event} (hm : e.moved = 0) (hi : e.isIo = false)
    (hs : ∀ t, e.InStep max each t) : Transfers src max each (Outcome.early ret (st, []) e) where
  bytes := by simp [Outcome.early]
  total_le := Nat.zero_le _
  inside := Nat.zero_le _
  moved := by simp [Outcome.early, hm]
  inStep := by simp [Outcome.early, InStep, hs]
  stops := by simp [Outcome.early]
  calls := by simp [Outcome.early, hi]

/-! ## Turns in step -/

/-- One turn from `(t, s)`: it finds a changed file, its system call fails, or one call moves `n`
bytes of the source, after which the callback may be asked. -/
inductive Steps (src : Str) (max each t : Nat) (s : St (σ × List Str)) : Turn (St (σ × List Str)) → Prop
  | changed (r : Int) : Steps src max each t s (.leave r 0 (s.log .changed))
  | failed (r : Int) (e : Nat) : Steps src max each t s (.leave r 0 (s.log (.io t (request each max t) (.fail e))))
  | quiet {n : Nat} (u : σ) : n ≤ request each max t → n ≤ src.length - t →
      Steps src max each t s
        (.move n ⟨(u, s.user.2 ++ [(src.drop t).take n]), s.events ++ [.io t (request each max t) (.ok n)]⟩)
  | stopped {n : Nat} (r : Int) (u : σ) : n ≤ request each max t → n ≤ src.length - t →
      Steps src max each t s (.leave r n ⟨(u, s.user.2 ++ [(src.drop t).take n]),
        s.events ++ [.io t (request each max t) (.ok n), .asked (t + n) (max - (t + n)) true]⟩)
  | told {n : Nat} (u : σ) : n ≤ request each max t → n ≤ src.length - t →
      Steps src max each t s (.move n ⟨(u, s.user.2 ++ [(src.drop t).take n]),
        s.events ++ [.io t (request each max t) (.ok n), .asked (t + n) (max - (t + n)) false]⟩)

/-- Where a transfer stands after `t` bytes, before it has ended. -/
structure Underway (src : Str) (max each t : Nat) (s : St (σ × List Str)) : Prop where
  bytes : s.user.2.flatten = src.take t
  total_le : t ≤ max
  inside : t ≤ src.length
  moved : movedBy s.events = t
  inStep : InStep max each 0 s.events
  going : ∀ e ∈ s.events, e.stopped = false

theorem underway_start (st : σ) : Underway src max each 0 ⟨(st, []), []⟩ where
  bytes := by simp
  total_le := Nat.zero_le _
  inside := Nat.zero_le _
  moved := rfl
  inStep := trivial
  going := by simp

theorem request_le_each (each max t : Nat) : request each max t ≤ each := by
  unfold request
  split <;> omega

/-- A call that moves `n` bytes, and the question after it, are in step. -/
theorem io_inStep {t n : Nat} (ht : t ≤ max) (hn : n ≤ request each max t) (tail : List Event)
    (htail : InStep max each (t + n) tail) : InStep max each t (.io t (request each max t) (.ok n) :: tail) := by
  have h1 := request_le each max t
  have h2 := request_le_each each max t
  exact ⟨⟨rfl, ht, by omega, h2, hn⟩, htail⟩

/-- What a transfer has after the call that moves `n` more bytes. -/
theorem Underway.io {t n : Nat} {s : St (σ × List Str)} (h : Underway src max each t s) (u : σ)
    (hn : n ≤ request each max t) (hsrc : n ≤ src.length - t) (tail : List Event) (htail : InStep max each (t + n) tail)
    (hmoved : movedBy tail = 0) (hgo : ∀ e ∈ tail, e.stopped = false) :
    Underway src max each (t + n)
      ⟨(u, s.user.2 ++ [(src.drop t).take n]), s.events ++ .io t (request each max t) (.ok n) :: tail⟩ where
  bytes := by simp [h.bytes, List.take_add]
  total_le := by have := request_le each max t; have := h.total_le; omega
  inside := by have := h.inside; omega
  moved := by simp [h.moved, Event.moved, hmoved]
  inStep := by
    rw [inStep_append, h.moved, Nat.zero_add]
    exact ⟨h.inStep, io_inStep h.total_le hn tail htail⟩
  going := by
    intro e he
    simp only [List.mem_append, List.mem_cons] at he
    rcases he with he | rfl | he
    · exact h.going e he
    · rfl
    · exact hgo e he

/-- The question after a call is in step. -/
theorem asked_inStep {t : Nat} (ht : t ≤ max) (stop : Bool) : InStep max each t [.asked t (max - t) stop] :=
  ⟨⟨rfl, by omega⟩, trivial⟩

/-- **Step lemma**: a turn that moves on leaves the transfer underway. -/
theorem Underway.move {t n : Nat} {s s' : St (σ × List Str)} (h : Underway src max each t s)
    (hs : Steps src max each t s (.move n s')) : Underway src max each (t + n) s' := by
  have hreq := request_le each max t
  have ht := h.total_le
  cases hs with
  | quiet u hn hsrc => exact h.io u hn hsrc [] trivial rfl (by simp)
  | told u hn hsrc => exact h.io u hn hsrc _ (asked_inStep (by omega) false) rfl (by simp [Event.stopped])

/-- Every turn makes at most one call. -/
theorem Steps.calls {t : Nat} {s : St (σ × List Str)} {u : Turn (St (σ × List Str))} (h : Steps src max each t s u) :
    u.st.events.countP Event.isIo ≤ s.events.countP Event.isIo + 1 := by
  cases h <;> simp [Turn.st, St.log, Event.isIo, List.countP_cons]

/-- A transfer that ends with `tail`, one more event or none. -/
theorem Underway.ended {t : Nat} {s : St (σ × List Str)} (h : Underway src max each t s) (ret : Option Int)
    (tail : List Event) (hone : tail.length ≤ 1) (hmoved : movedBy tail = 0) (hin : InStep max each t tail)
    (hcalls : (s.events ++ tail).countP Event.isIo ≤ t + 1) :
    Transfers src max each ⟨ret, t, s.user, s.events ++ tail⟩ where
  bytes := h.bytes
  total_le := h.total_le
  inside := h.inside
  moved := by simp [h.moved, hmoved]
  inStep := by
    rw [inStep_append, h.moved, Nat.zero_add]
    exact ⟨h.inStep, hin⟩
  stops := by
    rw [List.pairwise_append]
    refine ⟨List.pairwise_of_forall_mem_list fun e he _ _ => h.going e he, ?_, fun e he _ _ => h.going e he⟩
    match tail, hone with
    | [], _ => exact .nil
    | [_], _ => exact List.pairwise_singleton _ _
  calls := hcalls

variable {turn : Nat → Nat → St (σ × List Str) → Turn (St (σ × List Str))}

/-- Every turn that is reached starts from a transfer underway. -/
theorem underway_of_pending (hturn : ∀ k t s, Steps src max each t s (turn k t s)) (st : σ) :
    ∀ k, Pending turn max ⟨(st, []), []⟩ k →
      Underway src max each (pos turn ⟨(st, []), []⟩ k).1 (pos turn ⟨(st, []), []⟩ k).2 := by
  refine pos_inv (fun _ t s => Underway src max each t s) (underway_start st) ?_
  intro k t s n s' h ht _ _
  exact h.move (ht ▸ hturn k t s)

/-- Turn `k` is reached after at most `k` calls. -/
theorem calls_of_pending (hturn : ∀ k t s, Steps src max each t s (turn k t s)) (st : σ) :
    ∀ k, Pending turn max ⟨(st, []), []⟩ k → (pos turn ⟨(st, []), []⟩ k).2.events.countP Event.isIo ≤ k := by
  refine pos_inv (fun k _ (s : St (σ × List Str)) => s.events.countP Event.isIo ≤ k) (Nat.le_refl 0) ?_
  intro k t s n s' h ht _ _
  have := (hturn k t s).calls
  rw [ht] at this
  exact this.trans (by omega)

/-- **A loop whose turns are all in step transfers a prefix of its source.** -/
theorem transfers_of_steps (hturn : ∀ k t s, Steps src max each t s (turn k t s)) (ret : Option Int) (st : σ) :
    Transfers src max each (Outcome.ofLoop (loop turn max ret 0 0 ⟨(st, []), []⟩)) := by
  obtain ⟨k, hp, he⟩ := loop_ends turn max ret ⟨(st, []), []⟩
  have hu := underway_of_pending hturn st k hp
  have hk := calls_of_pending hturn st k hp
  have hkt := le_pos_of_pending k hp
  have hs := hturn k (pos turn ⟨(st, []), []⟩ k).1 (pos turn ⟨(st, []), []⟩ k).2
  generalize loop turn max ret 0 0 ⟨(st, []), []⟩ = r at he ⊢
  generalize (pos turn ⟨(st, []), []⟩ k).1 = t at *
  generalize (pos turn ⟨(st, []), []⟩ k).2 = s at *
  have hcalls := hs.calls
  -- a turn that moves on has left the transfer underway
  have hmoved : ∀ n s' ret, turn k t s = .move n s' → Transfers src max each (Outcome.ofLoop ⟨ret, t + n, s'⟩) := by
    intro n s' ret ht
    rw [ht] at hs hcalls
    have hend := (hu.move hs).ended ret [] (by simp) rfl trivial
      (by simp only [List.append_nil]; exact hcalls.trans (by omega))
    rwa [List.append_nil] at hend
  cases he with
  | dry ht => exact hmoved 0 _ (some 0) ht
  | full ht => exact hmoved _ _ ret ht
  | @left r n s' ht =>
    rw [ht] at hs hcalls
    cases hs with
    | changed => exact hu.ended _ [.changed] (by simp) rfl (by simp [InStep, Event.InStep]) (hcalls.trans (by omega))
    | failed r e =>
      refine hu.ended _ [.io t (request each max t) (.fail e)] (by simp) rfl ⟨?_, trivial⟩ (hcalls.trans (by omega))
      have := request_le each max t
      have := hu.total_le
      exact ⟨rfl, hu.total_le, by omega, request_le_each each max t, Nat.zero_le _⟩
    | stopped r u hn hsrc =>
      have hio := hu.io u hn hsrc [] trivial rfl (by simp)
      have hend := hio.ended (some r) [.asked (t + n) (max - (t + n)) true] (by simp) rfl
        (asked_inStep hio.total_le true) (by simpa [Turn.st] using hcalls.trans (by omega))
      simpa [Outcome.ofLoop] using hend

end

/-! ## `read` and `write` in step -/

section
variable {σ : Type*} (f : File) (max each k t : Nat)

/-- A call that moved `n` bytes, with the callback's answer. -/
theorem steps_asked {src : Str} {n : Nat} (s : St (σ × List Str)) (answer : Bool × σ) (hn : n ≤ request each max t)
    (hsrc : n ≤ src.length - t) :
    let s' : St (σ × List Str) := ⟨(answer.2, s.user.2 ++ [(src.drop t).take n]),
      s.events ++ [.io t (request each max t) (.ok n)] ++ [.asked (t + n) (max - (t + n)) answer.1]⟩
    Steps src max each t s (if answer.1 = true then .leave Errno.cancelled.code n s' else .move n s') := by
  obtain ⟨stop, u⟩ := answer
  dsimp only
  rw [List.append_assoc]
  cases stop with
  | true => exact .stopped _ u hn hsrc
  | false => exact .told u hn hsrc

theorem readTurn_steps (content : Str) (p : Nat) (didRead : σ → Str → Bool × σ) (io : ReadIO)
    (s : St (σ × List Str)) : Steps (content.drop p) max each t s
      (readTurn f (fun _ => content) p (record didRead) io max each k t s) := by
  unfold readTurn
  split
  · exact .changed _
  · split
    · exact .failed _ _
    · rename_i m _
      have hn : readMoved m (request each max t) (content.length - (p + t)) ≤ request each max t := by
        unfold readMoved; omega
      have hsrc : readMoved m (request each max t) (content.length - (p + t)) ≤ (content.drop p).length - t := by
        unfold readMoved; simp only [List.length_drop]; omega
      dsimp only
      rw [← List.drop_drop]
      exact steps_asked max each t s (didRead s.user.1 _) hn hsrc

theorem writeTurn_steps (accept : σ → Str → σ) (didWrote : Option (DidWrote σ)) (data : Str) (io : WriteIO)
    (hmax : max ≤ data.length) (s : St (σ × List Str)) : Steps data max each t s
      (writeTurn f (recordAccept accept) (didWrote.map besides) data io max each k t s) := by
  have hreq := request_le each max t
  unfold writeTurn
  split
  · exact .changed _
  · split
    · exact .failed _ _
    · rename_i m _
      have hn : min m (request each max t) ≤ request each max t := Nat.min_le_right _ _
      dsimp only
      generalize min m (request each max t) = n at hn ⊢
      have hsrc : n ≤ data.length - t := by omega
      cases didWrote with
      | none => exact .quiet (accept s.user.1 ((data.drop t).take n)) hn hsrc
      | some cb => exact steps_asked max each t s (cb _ (t + n) (max - (t + n))) hn hsrc

end

theorem maxWrite_le (limit : Int) (size : Nat) : maxWrite limit size ≤ size := by
  unfold maxWrite
  split <;> omega

theorem maxRead_le (limit : Int) (size : Nat) : maxRead limit size ≤ size := by
  unfold maxRead
  split <;> omega

section
variable {σ : Type*} (f : File) (st : σ)

theorem writeBundle_transfers (accept : σ → Str → σ) (didWrote : Option (DidWrote σ)) (b : Bundle)
    (eachWrite0 limit : Int) (io : WriteIO) :
    Transfers b.bytes (maxWrite limit b.bytes.length) (eachWrite eachWrite0 (maxWrite limit b.bytes.length))
      (writeBundle f (recordAccept accept) (didWrote.map besides) (some b) eachWrite0 limit io (st, [])) := by
  unfold writeBundle
  dsimp only
  split
  · exact transfers_early _ st rfl rfl (fun _ => trivial)
  split
  · exact transfers_early _ st rfl rfl (fun _ => trivial)
  split
  · exact transfers_early _ st rfl rfl (fun _ => trivial)
  · exact transfers_of_steps
      (fun k t s => writeTurn_steps f _ _ k t accept didWrote b.bytes io (maxWrite_le limit _) s) _ st

theorem writePointer_transfers (accept : σ → Str → σ) (didWrote : Option (DidWrote σ)) (bytes : Str)
    (eachWrite0 limit : Int) (io : WriteIO) :
    Transfers bytes (maxWrite limit bytes.length) (eachWrite eachWrite0 (maxWrite limit bytes.length))
      (writePointer f (recordAccept accept) (didWrote.map besides) (some bytes) eachWrite0 limit io (st, [])) := by
  unfold writePointer
  dsimp only
  split
  · exact transfers_early _ st rfl rfl (fun _ => trivial)
  split
  · exact transfers_early _ st rfl rfl (fun _ => trivial)
  · exact transfers_of_steps
      (fun k t s => writeTurn_steps f _ _ k t accept didWrote bytes io (maxWrite_le limit _) s) _ st

end

/-- **Every `write` overload writes a prefix of its data**, for every data, chunk size, limit, callback
and sequence of `::write` results. -/
theorem write_prefix {σ : Type*} (f : File) (accept : σ → Str → σ) (eachWrite0 limit : Int) (io : WriteIO) (st : σ) :
    (∀ b : Bundle,
      Transfers b.bytes (maxWrite limit b.bytes.length) (eachWrite eachWrite0 (maxWrite limit b.bytes.length))
        (writeAny f (recordAccept accept) (some b) eachWrite0 limit io (st, []))) ∧
    (∀ data : Str, Transfers data data.length (eachWrite eachWrite0 data.length)
        (writeRaw f (recordAccept accept) (some data) eachWrite0 io (st, []))) ∧
    (∀ (didWrote : DidWrote σ) (b : Bundle),
      Transfers b.bytes (maxWrite limit b.bytes.length) (eachWrite eachWrite0 (maxWrite limit b.bytes.length))
        (writeAnyCb f (recordAccept accept) (besides didWrote) (some b) eachWrite0 limit io (st, []))) ∧
    (∀ (didWrote : DidWrote σ) (data : Str),
      Transfers data (maxWrite limit data.length) (eachWrite eachWrite0 (maxWrite limit data.length))
        (writeRawCb f (recordAccept accept) (besides didWrote) (some data) eachWrite0 limit io (st, []))) := by
  refine ⟨fun b => ?_, fun data => ?_, fun didWrote b => ?_, fun didWrote data => ?_⟩
  · exact writeBundle_transfers f st accept none b eachWrite0 limit io
  · exact writePointer_transfers f st accept none data eachWrite0 (-1) io
  · exact writeBundle_transfers f st accept (some didWrote) b eachWrite0 limit io
  · exact writePointer_transfers f st accept (some didWrote) data eachWrite0 limit io

/-- **The callback `read` delivers a contiguous piece of the file**, from the position of the
descriptor on. -/
theorem readCb_contiguous {σ : Type*} (f : File) (content : Str) (p : Nat) (didRead : σ → Str → Bool × σ)
    (eachRead0 : Nat) (limit : Int) (io : ReadIO) (st : σ) :
    Transfers (content.drop p) (maxRead limit content.length) (eachRead eachRead0 (maxRead limit content.length))
      (readCb f (fun _ => content) p (record didRead) eachRead0 limit io (st, [])).1 := by
  unfold readCb
  split
  · exact transfers_early _ st rfl rfl (fun _ => trivial)
  split
  · exact transfers_early _ st rfl rfl (fun _ => trivial)
  dsimp only
  split
  · exact transfers_early _ st rfl rfl (fun _ => trivial)
  split
  · exact transfers_early _ st rfl rfl (fun _ => trivial)
  · exact transfers_of_steps (fun k t s => readTurn_steps f _ _ k t content p didRead io s) none st

/-! ## Two limited reads -/

/-- Nothing fails and nothing changes during a `read` of `f`. -/
structure ReadIO.Succeeds (io : ReadIO) (f : File) : Prop where
  fstat : io.fstat = none
  alloc : io.alloc = true
  view : ∀ k, io.view k = f.view
  sys : ∀ k e, io.sys k ≠ .fail e
  lseek : io.lseek = none

/-- A callback that never asks to stop. -/
def NeverCancels {σ : Type*} (didRead : σ → Str → Bool × σ) : Prop := ∀ s data, (didRead s data).1 = false

section
variable {σ : Type*} {f : File} {content : Str} {p : Nat} {didRead : σ → Str → Bool × σ} {io : ReadIO}

theorem readTurn_goes (content : Str) (p : Nat) (hio : io.Succeeds f) (hcb : NeverCancels didRead)
    (max each k t : Nat) (s : St (σ × List Str)) :
    ∃ n s', readTurn f (fun _ => content) p (record didRead) io max each k t s = .move n s' := by
  unfold readTurn
  rw [if_neg (not_not.2 (hio.view k))]
  cases hk : io.sys k with
  | fail e => exact absurd hk (hio.sys k e)
  | ok n =>
    dsimp only [record]
    rw [if_neg (by rw [hcb]; exact Bool.false_ne_true)]
    exact ⟨_, _, rfl⟩

/-- A range inside the file is read to its end. -/
theorem readLoop_total (hio : io.Succeeds f) (hcb : NeverCancels didRead) (eachRead0 : Nat) {max : Nat}
    (hsize : p + max ≤ content.length) (st : σ) :
    (loop (readTurn f (fun _ => content) p (record didRead) io max (eachRead eachRead0 max)) max none 0 0
      ⟨(st, []), []⟩).total = max := by
  obtain ⟨k, hp, he⟩ := loop_ends (readTurn f (fun _ => content) p (record didRead) io max (eachRead eachRead0 max)) max
    none ⟨(st, []), []⟩
  have hle := pos_le k hp
  obtain ⟨n, s', hturn⟩ := readTurn_goes content p hio hcb max (eachRead eachRead0 max) k
    (pos (readTurn f (fun _ => content) p (record didRead) io max (eachRead eachRead0 max)) ⟨(st, []), []⟩ k).1
    (pos (readTurn f (fun _ => content) p (record didRead) io max (eachRead eachRead0 max)) ⟨(st, []), []⟩ k).2
  have hmove := (readTurn_move f max _ k _ _ hturn).1
  generalize loop (readTurn f (fun _ => content) p (record didRead) io max (eachRead eachRead0 max)) max none 0 0
    ⟨(st, []), []⟩ = r at he ⊢
  generalize pos (readTurn f (fun _ => content) p (record didRead) io max (eachRead eachRead0 max)) ⟨(st, []), []⟩ k = q
    at he hle hturn hmove
  cases he with
  | left h => rw [hturn] at h; cases h
  | dry h =>
    rw [hturn] at h
    cases h
    -- a call that moves nothing is at the end of the range: the file goes on
    by_contra hne
    change ¬ q.1 = max at hne
    have hreq : 0 < request (eachRead eachRead0 max) max q.1 := request_pos eachRead_pos (by omega)
    have hend := (readTurn_dry_iff f max _ k _ _ hreq hturn).1 rfl
    omega
  | full h hn hge =>
    rw [hturn] at h
    cases h
    have := request_le (eachRead eachRead0 max) max q.1
    dsimp only
    omega

theorem maxRead_limit {a size : Nat} (h : a ≤ size) : maxRead (a : Int) size = a := by
  unfold maxRead
  rw [if_neg (by omega)]
  exact Int.toNat_natCast a

/-- **A limited read inside the file** delivers its whole range, and leaves the position one range too far. -/
theorem readCb_limited (hbusy : f.ioBusy = false) (hopen : ¬ f.fd < 0) (hio : io.Succeeds f)
    (hcb : NeverCancels didRead)
    {a : Nat} (hsize : p + a ≤ content.length) (eachRead0 : Nat) (st : σ) :
    let r := readCb f (fun _ => content) p (record didRead) eachRead0 a io (st, [])
    r.1.st.2.flatten = (content.drop p).take a ∧ r.2 = p + a + a := by
  have hbytes : Transfers (content.drop p) a (eachRead eachRead0 a) (.ofLoop (loop (readTurn f (fun _ => content) p
      (record didRead) io a (eachRead eachRead0 a)) a none 0 0 ⟨(st, []), []⟩)) :=
    transfers_of_steps (fun k t s => readTurn_steps f _ _ k t content p didRead io s) none st
  have hmax := maxRead_limit (show a ≤ content.length by omega)
  have hloop := readLoop_total hio hcb eachRead0 hsize st
  have hread : readCb f (fun _ => content) p (record didRead) eachRead0 a io (st, []) =
      (.ofLoop (loop (readTurn f (fun _ => content) p (record didRead) io a (eachRead eachRead0 a)) a none 0 0
        ⟨(st, []), []⟩), p + a + a) := by
    simp only [readCb, hbusy, hopen, hio.fstat, hio.alloc, hio.lseek, hmax, Outcome.ofLoop, hloop, Bool.false_eq_true,
      Bool.not_true, if_false, Option.isSome_none]
  rw [hread]
  refine ⟨?_, rfl⟩
  have htotal := hbytes.bytes
  simp only [Outcome.ofLoop, hloop] at htotal
  exact htotal

end

/-- What two reads, the second from where the first left the position, should be together. -/
structure Composes {σ : Type*} (content : Str) (p a b : Nat) (first second whole : Outcome (σ × List Str) × Nat) :
    Prop where
  position : first.2 = p + a
  delivered : second.1.st.2.flatten = (content.drop (p + a)).take b
  together : first.1.st.2.flatten ++ second.1.st.2.flatten = whole.1.st.2.flatten

/-- **Two limited reads compose only when the first is empty**: `jump2Offset(total)` on the exit path
moves a position that the reads have moved already. -/
theorem reads_compose_iff {σ : Type*} (f : File) (content : Str) (p a b : Nat) (hbusy : f.ioBusy = false)
    (hopen : ¬ f.fd < 0) (hsize : p + a + b ≤ content.length) (each₁ each₂ each₃ : Nat)
    (cb₁ cb₂ cb₃ : σ → Str → Bool × σ) (io₁ io₂ io₃ : ReadIO) (st₁ st₂ st₃ : σ)
    (hcb₁ : NeverCancels cb₁) (hcb₂ : NeverCancels cb₂) (hcb₃ : NeverCancels cb₃)
    (hio₁ : io₁.Succeeds f) (hio₂ : io₂.Succeeds f) (hio₃ : io₃.Succeeds f) :
    let first := readCb f (fun _ => content) p (record cb₁) each₁ a io₁ (st₁, [])
    let second := readCb f (fun _ => content) first.2 (record cb₂) each₂ b io₂ (st₂, [])
    let whole := readCb f (fun _ => content) p (record cb₃) each₃ ((a + b : Nat) : Int) io₃ (st₃, [])
    Composes content p a b first second whole ↔ a = 0 := by
  intro first second whole
  obtain ⟨hone, hpos⟩ := readCb_limited hbusy hopen hio₁ hcb₁ (show p + a ≤ content.length by omega) each₁ st₁
  constructor
  · intro h
    have := h.position.symm.trans hpos
    omega
  · rintro rfl
    have hfirst : first.2 = p := hpos
    have htwo : second.1.st.2.flatten = (content.drop p).take b := by
      have hgot := (readCb_limited hbusy hopen hio₂ hcb₂ (show first.2 + b ≤ content.length by omega) each₂ st₂).1
      exact hgot.trans (by rw [hfirst])
    have hall := (readCb_limited hbusy hopen hio₃ hcb₃ (show p + (0 + b) ≤ content.length by omega) each₃ st₃).1
    refine ⟨hfirst, htwo, ?_⟩
    calc first.1.st.2.flatten ++ second.1.st.2.flatten
        = [] ++ (content.drop p).take b := congrArg₂ (· ++ ·) hone htwo
      _ = (content.drop p).take (0 + b) := by rw [List.nil_append, Nat.zero_add]
      _ = whole.1.st.2.flatten := hall.symm

/-! ## Three bytes, one at a time -/

/-- An open file `a`. -/
def openA : File := ⟨str "a", some ⟨3, [str "a"], 0⟩, false⟩

/-- A callback that never asks to stop. -/
def keepOn (s : Unit) (_ : Str) : Bool × Unit := (false, s)

def fullReads : ReadIO := ⟨none, true, fun _ => openA.view, fun _ => .ok 8, none⟩

theorem fullReads_succeeds : fullReads.Succeeds openA :=
  ⟨rfl, rfl, fun _ => rfl, fun _ _ h => Sys.noConfusion h, rfl⟩

/-- After one byte the position is 2, so the second byte is never read. -/
theorem second_byte_skipped :
    let first := readCb openA (fun _ => str "abc") 0 (record keepOn) 1 1 fullReads ((), [])
    let second := readCb openA (fun _ => str "abc") first.2 (record keepOn) 1 1 fullReads ((), [])
    let whole := readCb openA (fun _ => str "abc") 0 (record keepOn) 1 2 fullReads ((), [])
    first.2 = 2 ∧ second.1.st.2.flatten = str "c" ∧ ¬ Composes (str "abc") 0 1 1 first second whole := by
  intro first second whole
  have hcb : NeverCancels keepOn := fun _ _ => rfl
  have hpos : first.2 = 2 :=
    (@readCb_limited Unit openA (str "abc") 0 keepOn fullReads rfl (by decide) fullReads_succeeds hcb 1 (by decide) 1 ()).2
  have hsecond : second.1.st.2.flatten = str "c" := by
    refine (readCb_limited rfl (by decide) fullReads_succeeds hcb (by rw [hpos]; decide) 1 ()).1.trans ?_
    rw [hpos]
    decide
  refine ⟨hpos, hsecond, fun h => ?_⟩
  exact absurd (hpos.symm.trans h.position) (by decide)

theorem reads_compose_iff_empty :
    let first := readCb openA (fun _ => str "abc") 0 (record keepOn) 1 ((0 : Nat) : Int) fullReads ((), [])
    let second := readCb openA (fun _ => str "abc") first.2 (record keepOn) 1 ((3 : Nat) : Int) fullReads ((), [])
    let whole := readCb openA (fun _ => str "abc") 0 (record keepOn) 2 ((0 + 3 : Nat) : Int) fullReads ((), [])
    Composes (str "abc") 0 0 3 first second whole :=
  (reads_compose_iff openA (str "abc") 0 0 3 rfl (by decide) (by decide) 1 1 2 keepOn keepOn keepOn fullReads fullReads
    fullReads () () () (fun _ _ => rfl) (fun _ _ => rfl) (fun _ _ => rfl) fullReads_succeeds fullReads_succeeds
    fullReads_succeeds).2 rfl

end CtiLog
