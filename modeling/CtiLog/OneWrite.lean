import CtiLog.SharedFile
/-
# One `write`, one file?

Each iteration of a `write` compares the descriptor's number and the name with the copies made at the
start, and calls `::write` under another lock. The kernel hands a closed `File` its old number again, so
the check sees a new name only, and the `::write` sees nothing.

* `OneFile` — no byte in another file, and a call that has lost its file stops.
* `Undisturbed` — what the other threads may do meanwhile; `undisturbed_oneFile` — then the property holds.
* `NotReopened` — where a close and an `open` in between go unnoticed: a step keeps the property exactly
  where there is no such moment.
* `finished` — a finished call has run the loop of the `write` overload on what its iterations found.
-/

namespace CtiLog

open Runs Chunks

section
variable {σ : Type*}

/-- The codes for a file that is gone: `FileChanged`, or the error of a `::write`. -/
def Stopped (ret : Option Int) : Prop := ret = some (-Errno.fileChanged.code) ∨ ∃ e, ret = some (sysCode .readError e)

/-- What is promised of a call. -/
structure WriteCall.OneFile (c : WriteCall σ) : Prop where
  sent : ∀ x ∈ c.sent, x.1 = c.opened0
  lost : c.lost = true → ∃ r, c.progress = .done r ∧ Stopped r.ret

def OneFile (s : Shared σ) : Prop := ∀ c ∈ s.call, c.OneFile

/-- At a check the `File` is not open again under the name it had, at a `::write` that succeeds it is not
open again at all. -/
def NotReopened (s : Shared σ) : FileAct → Prop
  | .writeLook => ∀ c ∈ s.call, 0 ≤ s.file.fd → s.file.filename = c.file0.filename → s.opened = c.opened0
  | .write (.ok _) => ∀ c ∈ s.call, s.opened = c.opened0
  | _ => True

/-! ## Numbers -/

/-- The descriptor has the lowest number that is left. -/
def LowestFd (used : Set Nat) (f : File) : Prop := ∀ d ∈ f.ofd, Lowest used d.fd

theorem lowest_unique {used : Set Nat} {m n : Nat} (hm : Lowest used m) (hn : Lowest used n) : m = n := by
  rcases Nat.lt_trichotomy m n with h | h | h
  · exact absurd (hn.2 m h) hm.1
  · exact h
  · exact absurd (hm.2 n h) hn.1

theorem ofd_of_fd {f : File} (h : 0 ≤ f.fd) : ∃ d, f.ofd = some d ∧ f.fd = d.fd := by
  cases hd : f.ofd with
  | none => rw [File.fd, hd] at h; exact absurd h (by decide)
  | some d => exact ⟨d, rfl, by rw [File.fd, hd]⟩

/-- A `File` that is opened again has the old number. -/
theorem same_fd {used : Set Nat} {f g : File} (hf : LowestFd used f) (hg : LowestFd used g) (hf0 : 0 ≤ f.fd)
    (hg0 : 0 ≤ g.fd) : f.fd = g.fd := by
  obtain ⟨d, hd, hfd⟩ := ofd_of_fd hf0
  obtain ⟨e, he, hge⟩ := ofd_of_fd hg0
  rw [hfd, hge, lowest_unique (hf d hd) (hg e he)]

/-! ## One iteration -/

namespace WriteArgs

variable {W : WriteArgs σ} {f : File} {io : WriteIO} {k total : Nat} {st : St σ}

theorem turn_changed (h : io.view k ≠ f.view) :
    W.turn f io k total st = .leave (-Errno.fileChanged.code) 0 (st.log .changed) := if_pos h

theorem turn_fail {e : Nat} (h : io.view k = f.view) (hsys : io.sys k = .fail e) :
    W.turn f io k total st =
      .leave (sysCode .readError e) 0 (st.log (.io total (request W.each W.max total) (.fail e))) := by
  unfold turn writeTurn
  rw [if_neg (not_not.2 h), hsys]

/-- An iteration depends on what it finds itself. -/
theorem turn_congr {io' : WriteIO} (hview : io'.view k = io.view k) (hsys : io'.sys k = io.sys k) :
    W.turn f io' k total st = W.turn f io k total st := by
  unfold turn writeTurn
  rw [hview, hsys]

end WriteArgs

/-- What holds of a call between its iterations. -/
def WriteCall.Going (c : WriteCall σ) : Prop :=
  match c.progress with
  | .ready _ _ _ => 0 ≤ c.file0.fd
  | .looked k _ _ => 0 ≤ c.file0.fd ∧ c.io.view k = c.file0.view
  | .done _ => True

/-- A call whose last section left the loop. -/
theorem stopped_oneFile {c : WriteCall σ} (r : Result (St σ)) (hsent : ∀ x ∈ c.sent, x.1 = c.opened0)
    (hr : c.progress = .done r) (hret : Stopped r.ret) : c.OneFile :=
  ⟨hsent, fun _ => ⟨r, hr, hret⟩⟩

theorem going_ofNext {c : WriteCall σ} {x : Result (St σ) ⊕ (Nat × Nat × St σ)} (hx : c.progress = .ofNext x)
    (hfd : 0 ≤ c.file0.fd) : c.Going := by
  unfold WriteCall.Going
  rw [hx]
  cases x with
  | inl r => trivial
  | inr p => exact hfd

theorem going_ready {c : WriteCall σ} {k total : Nat} {st : St σ} (h : c.Going) (hp : c.progress = .ready k total st) :
    0 ≤ c.file0.fd := by
  unfold WriteCall.Going at h
  rwa [hp] at h

theorem going_looked {c : WriteCall σ} {k total : Nat} {st : St σ} (h : c.Going)
    (hp : c.progress = .looked k total st) : 0 ≤ c.file0.fd ∧ c.io.view k = c.file0.view := by
  unfold WriteCall.Going at h
  rwa [hp] at h

/-- What holds of the call in progress, if there is one. -/
structure Sane (used : Set Nat) (s : Shared σ) : Prop where
  number : LowestFd used s.file
  going : ∀ c ∈ s.call, c.Going ∧ LowestFd used c.file0

section
variable {pf : Platform} {used : Set Nat} {W : WriteArgs σ} {s t : Shared σ} {c : WriteCall σ} {k total : Nat}
  {st : St σ} {a : FileAct}

theorem lowestFd_close (f : File) : LowestFd used f.close := fun _ hd => by cases hd

theorem lowestFd_open {cfg : FileOpenConfig} {o : OpenIO} (h : LowestFd used s.file)
    (hfresh : s.file.ofd = none → o.fail = none → Lowest used o.fd) : LowestFd used (s.open_ pf cfg o).file := by
  rcases shared_open_cases pf cfg o s with ⟨w, heq⟩ | ⟨hfd, hfail, d, w, hd, heq⟩
  · rw [heq]; exact h
  · rw [heq]
    intro e he
    obtain rfl : d = e := Option.some.inj he
    have hofd : s.file.ofd = none := by
      cases hofd : s.file.ofd with
      | none => rfl
      | some e => rw [File.fd, hofd] at hfd; exact absurd hfd (by dsimp only; omega)
    rw [hd]
    exact hfresh hofd hfail

theorem open_call (pf : Platform) (cfg : FileOpenConfig) (o : OpenIO) (s : Shared σ) :
    (s.open_ pf cfg o).call = s.call := by
  rcases shared_open_cases pf cfg o s with ⟨w, heq⟩ | ⟨-, -, d, w, -, heq⟩ <;> rw [heq]

theorem sane_start (filename : Str) (w : World) : Sane used (Shared.start filename w : Shared σ) :=
  ⟨fun _ h => (by cases h), fun _ h => (by cases h)⟩

/-- **Step lemma.** Whoever takes the step. -/
theorem fileStep_sane (h : Sane used s) (hst : FileStep pf used W s a t) : Sane used t := by
  cases hst with
  | setBegin _ => exact ⟨h.number, h.going⟩
  | setClose _ _ => exact ⟨lowestFd_close _, h.going⟩
  | setAssign _ _ => exact ⟨h.number, h.going⟩
  | @open_ cfg o hfresh =>
    exact ⟨lowestFd_open h.number hfresh, fun c hc => h.going c (open_call pf cfg o s ▸ hc)⟩
  | close => exact ⟨lowestFd_close _, h.going⟩
  | writeStart _ =>
    refine ⟨h.number, ?_⟩
    rintro c ⟨⟩
    refine ⟨?_, h.number⟩
    unfold WriteCall.Going
    dsimp only
    split_ifs with hfd hret
    · trivial
    · trivial
    · exact not_lt.1 hfd
  | @writeLook c k total st hc hp =>
    refine ⟨h.number, ?_⟩
    obtain ⟨hgo, hnum⟩ := h.going c hc
    have hfd := going_ready hgo hp
    rintro c' ⟨⟩
    refine ⟨?_, hnum⟩
    by_cases hview : s.file.view = c.file0.view
    · unfold WriteCall.Going
      dsimp only
      rw [if_pos hview]
      exact ⟨hfd, by rw [Function.update_self, hview]⟩
    · exact going_ofNext (if_neg hview) hfd
  | @write c k total st res hc hp _ =>
    refine ⟨h.number, ?_⟩
    obtain ⟨hgo, hnum⟩ := h.going c hc
    rintro c' ⟨⟩
    exact ⟨going_ofNext rfl (going_looked hgo hp).1, hnum⟩

/-! ## The property, step by step -/

/-- A check keeps the property unless the `File` is open again under the same name. -/
theorem writeLook_oneFile (h : Sane used s) (hone : OneFile s) (hc : s.call = some c)
    (hp : c.progress = .ready k total st) :
    OneFile (s.writeLook W c k total st) ↔ NotReopened s .writeLook := by
  obtain ⟨hgo, hnum⟩ := h.going c hc
  have hfd0 := going_ready hgo hp
  have hsent := (hone c hc).sent
  by_cases hview : s.file.view = c.file0.view
  · -- the check passes: the file must be the one of the start
    have hsame : s.file.fd = c.file0.fd := congrArg View.fd hview
    have hfd : 0 ≤ s.file.fd := hsame ▸ hfd0
    have hname : s.file.filename = c.file0.filename := congrArg View.filename hview
    constructor
    · rintro hone' c' hc' - -
      obtain rfl : c = c' := Option.some.inj (hc.symm.trans hc')
      by_contra hne
      obtain ⟨r, hr, -⟩ := (hone' _ rfl).lost (decide_eq_true fun hcur => hne hcur.2)
      have hr : (if s.file.view = c.file0.view then Progress.looked k total st else _) = Progress.done r := hr
      rw [if_pos hview] at hr
      cases hr
    · rintro hG c' ⟨⟩
      refine ⟨hsent, fun hlost => ?_⟩
      exact absurd ⟨hfd, hG c hc hfd hname⟩ (of_decide_eq_true hlost)
  · refine iff_of_true ?_ ?_
    · rintro c' ⟨⟩
      refine stopped_oneFile ⟨some (-Errno.fileChanged.code), total + 0, st.log .changed⟩ hsent ?_ (.inl rfl)
      have hk : Function.update c.io.view k s.file.view k ≠ c.file0.view := by rwa [Function.update_self]
      dsimp only
      rw [if_neg hview, WriteArgs.turn_changed hk]
      rfl
    · intro c' hc' hfd hname
      obtain rfl : c = c' := Option.some.inj (hc.symm.trans hc')
      have hsame := same_fd h.number hnum hfd hfd0
      exact absurd (View.mk.injEq .. ▸ ⟨hsame, hname⟩ : s.file.view = c.file0.view) hview

/-- A `::write` that succeeds has found the number of the start. -/
theorem fd_of_ok {n : Nat} (h : s.file.fd ≠ c.file0.fd → ∃ e, Sys.ok n = .fail e) : s.file.fd = c.file0.fd := by
  by_contra hne
  obtain ⟨e, he⟩ := h hne
  cases he

/-- A `::write` keeps the property unless it succeeds in another file. -/
theorem write_oneFile {res : Sys} (h : Sane used s) (hone : OneFile s) (hc : s.call = some c)
    (hp : c.progress = .looked k total st) (hgone : s.file.fd ≠ c.file0.fd → ∃ e, res = .fail e) :
    OneFile (s.write W c k total st res) ↔ NotReopened s (.write res) := by
  obtain ⟨hgo, -⟩ := h.going c hc
  obtain ⟨hfd0, hview⟩ := going_looked hgo hp
  have hsent := (hone c hc).sent
  cases res with
  | ok n =>
    have hfd := fd_of_ok hgone
    constructor
    · intro hone' c' hc'
      obtain rfl : c = c' := Option.some.inj (hc.symm.trans hc')
      exact (hone' _ rfl).sent _ (List.mem_append_right _ (List.mem_singleton_self _))
    · intro hG
      have hopened := hG c hc
      rintro c' ⟨⟩
      refine ⟨fun x hx => ?_, fun hlost => ?_⟩
      · rcases List.mem_append.1 hx with hx | hx
        · exact hsent x hx
        · rw [List.mem_singleton.1 hx]; exact hopened
      · exact absurd ⟨hfd ▸ hfd0, hopened⟩ (of_decide_eq_true hlost)
  | fail e =>
    refine iff_of_true ?_ trivial
    rintro c' ⟨⟩
    refine stopped_oneFile
      ⟨some (sysCode .readError e), total + 0, st.log (.io total (request W.each W.max total) (.fail e))⟩ hsent ?_
      (.inr ⟨e, rfl⟩)
    have hview' : ({ c.io with sys := Function.update c.io.sys k (.fail e) } : WriteIO).view k = c.file0.view := hview
    dsimp only
    rw [WriteArgs.turn_fail hview' (Function.update_self ..)]
    rfl

/-- **Step lemma.** -/
theorem fileStep_oneFile (h : Sane used s) (hone : OneFile s) (hst : FileStep pf used W s a t) :
    OneFile t ↔ NotReopened s a := by
  cases hst with
  | setBegin _ => exact iff_of_true hone trivial
  | setClose _ _ => exact iff_of_true hone trivial
  | setAssign _ _ => exact iff_of_true hone trivial
  | open_ _ => exact iff_of_true (fun c hc => hone c (open_call pf _ _ s ▸ hc)) trivial
  | close => exact iff_of_true hone trivial
  | writeStart _ =>
    refine iff_of_true ?_ trivial
    rintro c ⟨⟩
    exact ⟨fun _ hx => absurd hx List.not_mem_nil, fun hlost => Bool.noConfusion hlost⟩
  | writeLook hc hp => exact writeLook_oneFile h hone hc hp
  | write hc hp hgone => exact write_oneFile h hone hc hp hgone

/-! ## What the other threads may do meanwhile -/

/-- Between a check and its `::write` the `File` is not opened. Before a check it may be opened under
another name, and is not given the old one back while it is open. -/
def Undisturbed (s : Shared σ) : FileAct → Prop
  | .open_ _ _ => ∀ c ∈ s.call, s.file.fd < 0 →
      match c.progress with
      | .ready _ _ _ => s.file.filename ≠ c.file0.filename
      | .looked _ _ _ => False
      | .done _ => True
  | .setAssign => ∀ c ∈ s.call, ∀ p ∈ s.setter, 0 ≤ s.file.fd → p.name = c.file0.filename → s.opened = c.opened0
  | _ => True

/-- The file of the call is open where the next section looks for it, or is known to be gone. -/
def Placed (s : Shared σ) : Prop := ∀ c ∈ s.call, 0 ≤ s.file.fd →
  match c.progress with
  | .ready _ _ _ => s.file.filename = c.file0.filename → s.opened = c.opened0
  | .looked _ _ _ => s.opened = c.opened0
  | .done _ => True

theorem placed_closed (h : s.file.fd < 0) : Placed s := fun _ _ h' => absurd h' (by omega)

theorem placed_ofNext {x : Result (St σ) ⊕ (Nat × Nat × St σ)} (hc : s.call = some c) (hx : c.progress = .ofNext x)
    (h : 0 ≤ s.file.fd → s.file.filename = c.file0.filename → s.opened = c.opened0) : Placed s := by
  intro c' hc' hfd
  obtain rfl : c = c' := Option.some.inj (hc.symm.trans hc')
  rw [hx]
  cases x with
  | inl r => trivial
  | inr p => exact h hfd

/-- **Step lemma.** -/
theorem fileStep_placed (h : Placed s) (hst : FileStep pf used W s a t) (hG : Undisturbed s a) : Placed t := by
  cases hst with
  | setBegin _ => exact h
  | setClose _ _ => exact placed_closed (close_fd s.file)
  | close => exact placed_closed (close_fd s.file)
  | @setAssign p hp _ =>
    intro c hc hfd
    have hc' := h c hc hfd
    have hname := hG c hc p hp hfd
    cases hprog : c.progress with
    | ready k total st => exact hname
    | looked k total st => rw [hprog] at hc'; exact hc'
    | done r => trivial
  | @open_ cfg o _ =>
    rcases shared_open_cases pf cfg o s with ⟨w, heq⟩ | ⟨hfd, -, d, w, -, heq⟩
    · rw [heq]; exact h
    · rw [heq]
      intro c hc _
      have hc' := hG c hc hfd
      cases hprog : c.progress with
      | ready k total st => rw [hprog] at hc'; exact fun hname => absurd hname hc'
      | looked k total st => rw [hprog] at hc'; exact hc'.elim
      | done r => trivial
  | writeStart _ =>
    rintro c ⟨⟩ -
    dsimp only
    split
    · exact fun _ => rfl
    · rfl
    · trivial
  | @writeLook c k total st hc hp =>
    have hready : 0 ≤ s.file.fd → s.file.filename = c.file0.filename → s.opened = c.opened0 := by
      intro hfd
      have hc' := h c hc hfd
      rwa [hp] at hc'
    by_cases hview : s.file.view = c.file0.view
    · rintro c' ⟨⟩ hfd
      dsimp only
      rw [if_pos hview]
      exact hready hfd (congrArg View.filename hview)
    · exact placed_ofNext rfl (if_neg hview) hready
  | @write c k total st res hc hp _ =>
    refine placed_ofNext rfl rfl fun hfd _ => ?_
    have hc' := h c hc hfd
    rwa [hp] at hc'

/-- An undisturbed run has no such moment. -/
theorem notReopened_of_placed (h : Sane used s) (hplaced : Placed s) (hst : FileStep pf used W s a t) :
    NotReopened s a := by
  cases hst with
  | @writeLook c k total st hc hp =>
    intro c' hc' hfd
    obtain rfl : c = c' := Option.some.inj (hc.symm.trans hc')
    have hc' := hplaced c hc hfd
    rwa [hp] at hc'
  | @write c k total st res hc hp hgone =>
    cases res with
    | fail e => trivial
    | ok n =>
      intro c' hc'
      obtain rfl : c = c' := Option.some.inj (hc.symm.trans hc')
      have hfd := fd_of_ok hgone
      have hc' := hplaced c hc (hfd ▸ (going_looked (h.going c hc).1 hp).1)
      rwa [hp] at hc'
  | _ => trivial

/-- **An undisturbed `write` goes to one file**, and stops when that is gone. -/
theorem undisturbed_oneFile {filename : Str} {w : World} {as : List FileAct}
    (h : Run (Guarded Undisturbed (FileStep pf used W)) (Shared.start filename w) as s) : OneFile s := by
  refine (h.inv (fun s => Sane used s ∧ OneFile s ∧ Placed s)
    ⟨sane_start filename w, fun _ h => (by cases h), fun _ h => (by cases h)⟩ ?_).2.1
  rintro t a u ⟨hsane, hone, hplaced⟩ ⟨hG, hst⟩
  exact ⟨fileStep_sane hsane hst, (fileStep_oneFile hsane hone hst).2 (notReopened_of_placed hsane hplaced hst),
    fileStep_placed hplaced hst hG⟩

end

/-- After the first of two bytes the `File` is closed and opened under another name: the call stops. -/
theorem undisturbed_oneFile_renamed : ∃ s : Shared Unit, ∃ c,
    Run (Guarded Undisturbed (FileStep plain stdFds (.ofPointer none [1, 2] 1 (-1) ()))) (.start (str "a") (oneFile []))
        [createdFd3, .writeStart, .writeLook, .write (.ok 1), .setBegin (str "b"), .setClose, .setAssign, createdFd3,
          .writeLook] s ∧
      s.call = some c ∧ c.opened0 = 1 ∧ s.opened = 2 ∧ c.sent = [(1, [1])] ∧ c.lost = true ∧ OneFile s := by
  have hother : str "b" ≠ str "a" := by decide
  have hclosed : ¬ (0 : Int) ≤ -1 := by decide
  have hopen : Run (Guarded Undisturbed (FileStep plain stdFds (.ofPointer none [1, 2] 1 (-1) ())))
      (Shared.start (str "a") (oneFile []) : Shared Unit) _ _ :=
    .single (a := createdFd3) ⟨fun c hc => (by cases hc), .open_ fun _ _ => lowest_fd3⟩
  have hfirst := ((hopen.snoc (a := FileAct.writeStart) ⟨trivial, .writeStart rfl⟩).snoc (a := FileAct.writeLook)
    ⟨trivial, .writeLook rfl rfl⟩).snoc (a := FileAct.write (.ok 1)) ⟨trivial, .write rfl rfl fun h => absurd rfl h⟩
  have hrenamed := ((hfirst.snoc (a := FileAct.setBegin (str "b")) ⟨trivial, .setBegin rfl⟩).snoc (a := FileAct.setClose)
    ⟨trivial, .setClose rfl (by decide)⟩).snoc (a := FileAct.setAssign)
    ⟨fun _ _ _ _ h => absurd h hclosed, .setAssign rfl rfl⟩
  have hrun := (hrenamed.snoc (a := createdFd3)
    ⟨fun c hc _ => (by cases hc; exact hother), .open_ fun _ _ => lowest_fd3⟩).snoc (a := FileAct.writeLook)
    ⟨trivial, .writeLook rfl rfl⟩
  exact ⟨_, _, hrun, rfl, rfl, rfl, rfl, rfl, undisturbed_oneFile hrun⟩

/-! ## A finished call is a call of the overload -/

/-- The whole call, on what its iterations find. -/
def WriteArgs.whole (W : WriteArgs σ) (file0 : File) (io : WriteIO) : Result (St σ) :=
  if file0.fd < 0 then ⟨some (-Errno.notOpen.code), 0, ⟨W.user, [.notOpen]⟩⟩
  else if W.ret.any (· < 0) then ⟨W.ret, 0, ⟨W.user, [.rejected]⟩⟩
  else loop (W.turn file0 io) W.max W.ret 0 0 ⟨W.user, []⟩

theorem whole_ofBundle {f : File} (didWrote : Option (DidWrote σ)) (b : Bundle) (eachWrite0 limit : Int) (user : σ)
    (io : WriteIO) (hbusy : f.ioBusy = false) :
    Outcome.ofLoop ((WriteArgs.ofBundle didWrote b eachWrite0 limit user).whole f io) =
      writeBundle f (fun u _ => u) didWrote (some b) eachWrite0 limit io user := by
  have hfree : ¬ f.ioBusy = true := by simp [hbusy]
  unfold WriteArgs.whole writeBundle
  dsimp only
  rw [if_neg hfree]
  by_cases hfd : f.fd < 0
  · rw [if_pos hfd, if_pos hfd]; rfl
  · rw [if_neg hfd, if_neg hfd]
    by_cases hret : b.ret < 0
    · rw [if_pos hret, if_pos (by simpa [WriteArgs.ofBundle] using hret)]; rfl
    · rw [if_neg hret, if_neg (by simpa [WriteArgs.ofBundle] using hret)]; rfl

theorem whole_ofPointer {f : File} (didWrote : Option (DidWrote σ)) (bytes : Str) (eachWrite0 limit : Int) (user : σ)
    (io : WriteIO) (hbusy : f.ioBusy = false) :
    Outcome.ofLoop ((WriteArgs.ofPointer didWrote bytes eachWrite0 limit user).whole f io) =
      writePointer f (fun u _ => u) didWrote (some bytes) eachWrite0 limit io user := by
  have hfree : ¬ f.ioBusy = true := by simp [hbusy]
  unfold WriteArgs.whole writePointer
  dsimp only
  rw [if_neg hfree]
  by_cases hfd : f.fd < 0
  · rw [if_pos hfd, if_pos hfd]; rfl
  · rw [if_neg hfd, if_neg hfd]; rfl

/-- The first `k` iterations find the same. -/
def Agree (k : Nat) (io io' : WriteIO) : Prop := ∀ j < k, io.view j = io'.view j ∧ io.sys j = io'.sys j

/-- The loop of the call is at iteration `k`, whatever this and the later ones find. -/
def WriteCall.Replays (W : WriteArgs σ) (c : WriteCall σ) : Prop :=
  match c.progress with
  | .ready k total st => ∀ io, Agree k io c.io →
      W.whole c.file0 io = loop (W.turn c.file0 io) W.max W.ret k total st
  | .looked k total st => ∀ io, Agree k io c.io → io.view k = c.io.view k →
      W.whole c.file0 io = loop (W.turn c.file0 io) W.max W.ret k total st
  | .done r => W.whole c.file0 c.io = r

section
variable {pf : Platform} {used : Set Nat} {W : WriteArgs σ} {s t : Shared σ} {c : WriteCall σ} {k total : Nat}
  {st : St σ} {a : FileAct}

/-- Iteration `k` is run on what it has found. -/
theorem replays_ofNext (hp : c.progress = .ofNext (W.next k total (W.turn c.file0 c.io k total st)))
    (h : ∀ io, Agree (k + 1) io c.io → W.whole c.file0 io = loop (W.turn c.file0 io) W.max W.ret k total st) :
    c.Replays W := by
  have hturn : ∀ io, Agree (k + 1) io c.io →
      W.whole c.file0 io = (W.next k total (W.turn c.file0 c.io k total st)).elim id
        fun p => loop (W.turn c.file0 io) W.max W.ret p.1 p.2.1 p.2.2 := by
    intro io hio
    obtain ⟨hview, hsys⟩ := hio k (by omega)
    rw [h io hio, loop_next, WriteArgs.turn_congr hview hsys]
    rfl
  have hself := hturn c.io fun _ _ => ⟨rfl, rfl⟩
  unfold WriteCall.Replays
  rw [hp]
  generalize hnext : W.next k total (W.turn c.file0 c.io k total st) = x at hturn hself
  cases x with
  | inl r => exact hself
  | inr p =>
    obtain ⟨k', total', st'⟩ := p
    have hk : k' = k + 1 := next_inr hnext
    subst hk
    exact hturn

/-- **Step lemma.** -/
theorem fileStep_replays (h : ∀ c ∈ s.call, c.Replays W) (hst : FileStep pf used W s a t) :
    ∀ c ∈ t.call, c.Replays W := by
  cases hst with
  | setBegin _ => exact h
  | setClose _ _ => exact h
  | setAssign _ _ => exact h
  | open_ _ => exact fun c hc => h c (open_call pf _ _ s ▸ hc)
  | close => exact h
  | writeStart _ =>
    rintro c ⟨⟩
    unfold WriteCall.Replays
    dsimp only
    split_ifs with hfd hret
    · exact if_pos hfd
    · exact (if_neg hfd).trans (if_pos hret)
    · exact fun io _ => (if_neg hfd).trans (if_neg hret)
  | @writeLook c k total st hc hp =>
    have hc := h c hc
    unfold WriteCall.Replays at hc
    rw [hp] at hc
    rintro c' ⟨⟩
    -- what the iterations before `k` have found stays
    have hold : ∀ io, Agree k io { c.io with view := Function.update c.io.view k s.file.view } → Agree k io c.io :=
      fun io hio j hj => by simpa [Function.update_of_ne (Nat.ne_of_lt hj)] using hio j hj
    by_cases hview : s.file.view = c.file0.view
    · unfold WriteCall.Replays
      dsimp only
      rw [if_pos hview]
      exact fun io hio _ => hc io (hold io hio)
    · exact replays_ofNext (if_neg hview) fun io hio => hc io (hold io fun j hj => hio j (by omega))
  | @write c k total st res hc hp _ =>
    have hc := h c hc
    unfold WriteCall.Replays at hc
    rw [hp] at hc
    rintro c' ⟨⟩
    refine replays_ofNext rfl fun io hio => hc io (fun j hj => ?_) (hio k (by omega)).1
    simpa [Function.update_of_ne (Nat.ne_of_lt hj)] using hio j (by omega)

/-- **Run lemma.** What a finished call returns is what its overload returns, when each of its iterations
finds what the shared `File` held at that time. -/
theorem finished {filename : Str} {w : World} {as : List FileAct} {r : Result (St σ)}
    (h : Run (FileStep pf used W) (Shared.start filename w) as s) (hc : s.call = some c) (hr : c.progress = .done r) :
    W.whole c.file0 c.io = r := by
  have hall := h.inv (fun s => ∀ c ∈ s.call, c.Replays W) (fun _ h => by cases h)
    fun _ _ _ h hst => fileStep_replays h hst
  have hc := hall c hc
  unfold WriteCall.Replays at hc
  rwa [hr] at hc

end

/-! ## Lost between the check and the `::write` -/

/-- The `File` is closed and opened under another name after the check; the byte goes there. -/
theorem byte_in_other_file : ∃ s : Shared Unit, ∃ c,
    Run (FileStep plain stdFds (.ofPointer none [1] 1 (-1) ())) (.start (str "a") (oneFile []))
        [createdFd3, .writeStart, .writeLook, .setBegin (str "b"), .setClose, .setAssign, createdFd3, .write (.ok 1)] s ∧
      s.call = some c ∧ c.opened0 = 1 ∧ c.sent = [(2, [1])] ∧ ¬ OneFile s := by
  refine ⟨_, _, .snoc (.snoc (.snoc (.snoc (.snoc (.snoc (.snoc (.snoc .nil
    (.open_ fun _ _ => lowest_fd3)) (.writeStart rfl)) (.writeLook rfl rfl)) (.setBegin rfl))
    (.setClose rfl (by decide))) (.setAssign rfl rfl)) (.open_ fun _ _ => lowest_fd3)) (.write rfl rfl fun h => absurd rfl h),
    rfl, rfl, rfl, fun h => ?_⟩
  exact absurd ((h _ rfl).sent _ (List.mem_singleton_self _)) (by decide)

end

end CtiLog
