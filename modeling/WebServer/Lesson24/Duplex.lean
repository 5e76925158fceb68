/-
The chat of lesson24/chatA1.c and lesson24/chatB1.c, in which each program forks: the parent sends what is typed, the
child prints what arrives.

The parent of A and the child of B share fifo1, the parent of B and the child of A share fifo2, and the two pairs share
nothing else. The model is one such pair: a sender and a receiver with their pipe. Both create the pipe if it does not
exist, and a failing `mkfifo` ends the process; each `open` waits for the other one. The receiver reads at most 128 bytes
at a time into an array of 128 bytes and prints it as a string; how much of what is in the pipe a `read` gives is chosen by
the kernel. A user may stop either process at any time: then the receiver's `read` returns 0, or a signal ends the sender.
The capacity of the pipe is left out: a full pipe only delays the sender.

- `Stream`: what was printed, followed by what is in the pipe, is what was sent.
- `display_full`: 128 bytes without a zero are printed beyond the array.
- `duplex_run`: in every run the text arrives complete and in order, and the array is overrun exactly by a `read` that
  gives 128 bytes, for which more than one line has to wait in the pipe.
-/
import WebServer.Lesson24.Chat

namespace WebServer.Lesson24.Duplex

/-! ## Model -/

inductive Role where
  | sender
  | receiver
deriving DecidableEq, Repr

def Role.other : Role → Role
  | .sender => .receiver
  | .receiver => .sender

inductive Phase where
  | access
  | mkfifo
  /-- in `open` -/
  | opening
  | running
  /-- `exit(0)` after a failing `mkfifo` -/
  | failed
  /-- stopped by the user -/
  | stopped
  /-- the sender by SIGPIPE, the receiver after a `read` that returns 0 -/
  | finished
  /-- `printf` reads outside `buf` -/
  | overrun
deriving DecidableEq, Repr

/-- the process has ended -/
def Phase.gone : Phase → Bool
  | .failed | .stopped | .finished => true
  | _ => false

structure Link where
  phase : Role → Phase
  /-- the pipe exists -/
  made : Bool
  /-- both processes have reached their `open` -/
  met : Bool
  pipe : Bytes
  /-- what the sender has written, call by call -/
  said : List Bytes
  /-- what the receiver has printed, call by call -/
  shown : List Bytes

def Link.start (made : Bool) : Link := ⟨fun _ => .access, made, false, [], [], []⟩

inductive Op where
  | setup (r : Role)
  | opens (r : Role)
  /-- `fgets` stores `line`, and it is written -/
  | say (line : Bytes)
  /-- a `read` that gives `n` bytes if there are any -/
  | read (n : ℕ)
  | stop (r : Role)
deriving DecidableEq, Repr

def Link.goto (s : Link) (r : Role) (p : Phase) : Link := { s with phase := Function.update s.phase r p }

/-- `sizeof(buf)` -/
def bufSize : ℕ := 128

/-- `read` and `printf` of the receiver -/
def Link.receive (s : Link) (n : ℕ) : Option Link :=
  if s.pipe = [] then
    if (s.phase .sender).gone then some (s.goto .receiver .finished) else none
  else if 0 < n ∧ n ≤ bufSize ∧ n ≤ s.pipe.length then
    match display (s.pipe.take n) with
    | some text => some { s with pipe := s.pipe.drop n, shown := s.shown ++ [text] }
    | none => some (s.goto .receiver .overrun)
  else none

/-- `write` of the sender -/
def Link.send (s : Link) (text : Bytes) : Link :=
  if text ≠ [] ∧ (s.phase .receiver).gone = true then s.goto .sender .finished
  else { s with pipe := s.pipe ++ text, said := s.said ++ [text] }

def step (s : Link) : Op → Option Link
  | .setup r =>
    match s.phase r with
    | .access => some (s.goto r (if s.made then .opening else .mkfifo))
    | .mkfifo => if s.made then some (s.goto r .failed) else some { s.goto r .opening with made := true }
    | _ => none
  | .opens r =>
    if s.phase r = .opening ∧ (s.phase r.other = .opening ∨ s.met = true) then some { s.goto r .running with met := true }
    else none
  | .say line => if s.phase .sender = .running ∧ line.length ≤ 127 then some (s.send (typed line)) else none
  | .read n => if s.phase .receiver = .running then s.receive n else none
  | .stop r => if (s.phase r).gone then none else some (s.goto r .stopped)

/-! ## Printing -/

/-- a string in the array is printed as it is -/
theorem display_fits {chunk : Bytes} (h : nul ∉ chunk) (hlength : chunk.length < bufSize) : display chunk = some chunk :=
  (display_line ⟨Nat.lt_succ_iff.mp hlength, h⟩).2.2

/-- an array without a zero is printed beyond its end -/
theorem display_full {chunk : Bytes} (h : nul ∉ chunk) (hlength : chunk.length = bufSize) : display chunk = none := by
  unfold display
  have hpad : 128 - chunk.length = 0 := by
    rw [hlength]
    rfl
  have hnone : strchr chunk nul = none := by
    refine List.findIdx?_eq_none_iff.mpr fun b hb => ?_
    simp only [decide_eq_false_iff_not]
    rintro rfl
    exact h hb
  rw [hpad, List.replicate_zero, List.append_nil, hnone]
  rfl

/-! ## Invariant -/

/-- what was printed, followed by what is in the pipe, is what was sent -/
structure Stream (s : Link) : Prop where
  bytes : s.shown.flatten ++ s.pipe = s.said.flatten
  clean : nul ∉ s.pipe
  /-- after a `read` that returned 0 nothing comes any more -/
  ended : s.phase .receiver = .finished → s.pipe = [] ∧ (s.phase .sender).gone = true
  full : s.phase .receiver = .overrun → bufSize ≤ s.pipe.length

/-- the process has the pipe, or has been stopped -/
def Phase.past : Phase → Bool
  | .access | .mkfifo | .failed => false
  | _ => true

/-- a process whose `mkfifo` fails, or has failed, has the other one ahead of it -/
def Ahead (s : Link) : Prop :=
  ∀ r, (s.phase r = .mkfifo ∧ s.made = true) ∨ s.phase r = .failed → (s.phase r.other).past = true

variable {s s' : Link} {r : Role} {p : Phase}

theorem Role.other_ne (r : Role) : r.other ≠ r := by cases r <;> decide

theorem Role.cases_other (r q : Role) : q = r ∨ q = r.other := by cases r <;> cases q <;> decide

theorem goto_self (s : Link) (r : Role) (p : Phase) : (s.goto r p).phase r = p := Function.update_self _ _ _

theorem goto_other (s : Link) (r : Role) (p : Phase) : (s.goto r p).phase r.other = s.phase r.other :=
  Function.update_of_ne r.other_ne _ _

/-! ## The bytes -/

theorem stream_start (made : Bool) : Stream (Link.start made) where
  bytes := rfl
  clean := List.not_mem_nil
  ended := nofun
  full := nofun

/-- a sender that has not ended moves on: the receiver cannot have seen the end of the pipe -/
theorem Stream.sender (h : Stream s) (hs : (s.phase .sender).gone = false) (p : Phase) : Stream (s.goto .sender p) where
  bytes := h.bytes
  clean := h.clean
  ended := fun hfinished => by cases hs.symm.trans (h.ended hfinished).2
  full := h.full

theorem Stream.receiver (h : Stream s) (hfinished : p = .finished → s.pipe = [] ∧ (s.phase .sender).gone = true)
    (hover : p = .overrun → bufSize ≤ s.pipe.length) : Stream (s.goto .receiver p) where
  bytes := h.bytes
  clean := h.clean
  ended := hfinished
  full := hover

theorem Stream.goto (h : Stream s) (hr : (s.phase r).gone = false) (hp : p ≠ .finished ∧ p ≠ .overrun) :
    Stream (s.goto r p) := by
  cases r with
  | sender => exact h.sender hr p
  | receiver => exact h.receiver (fun hfin => absurd hfin hp.1) (fun hover => absurd hover hp.2)

theorem Stream.send (h : Stream s) (hs : s.phase .sender = .running) {text : Bytes} (htext : nul ∉ text) :
    Stream (s.send text) := by
  have hgoes : (s.phase .sender).gone = false := by
    rw [hs]
    rfl
  unfold Link.send
  split_ifs
  · exact h.sender hgoes .finished
  · refine ⟨?_, ?_, fun hfinished => ?_, fun hover => ?_⟩
    · calc s.shown.flatten ++ (s.pipe ++ text) = (s.shown.flatten ++ s.pipe) ++ text := (List.append_assoc ..).symm
        _ = s.said.flatten ++ text := by rw [h.bytes]
        _ = (s.said ++ [text]).flatten := by rw [List.flatten_append, List.flatten_singleton]
    · exact fun hmem => (List.mem_append.mp hmem).elim h.clean htext
    · cases hgoes.symm.trans (h.ended hfinished).2
    · exact (h.full hover).trans (by simp)

theorem Stream.receive (h : Stream s) (hr : s.phase .receiver = .running) {n : ℕ} (hs : s.receive n = some s') :
    Stream s' := by
  unfold Link.receive at hs
  split_ifs at hs with hempty hgone hn
  · cases hs
    exact h.receiver (fun _ => ⟨hempty, hgone⟩) nofun
  · obtain ⟨-, hfits, hlength⟩ := hn
    have hclean : nul ∉ s.pipe.take n := fun hmem => h.clean (List.mem_of_mem_take hmem)
    have htake : (s.pipe.take n).length = n := List.length_take_of_le hlength
    rcases Nat.lt_or_eq_of_le hfits with hless | rfl
    · rw [display_fits hclean (htake.trans_lt hless)] at hs
      cases hs
      refine ⟨?_, fun hmem => h.clean (List.mem_of_mem_drop hmem), fun hfin => ?_, fun hover => ?_⟩
      · calc (s.shown ++ [s.pipe.take n]).flatten ++ s.pipe.drop n
            = s.shown.flatten ++ (s.pipe.take n ++ s.pipe.drop n) := by
              rw [List.flatten_append, List.flatten_singleton, List.append_assoc]
          _ = s.said.flatten := by rw [List.take_append_drop, h.bytes]
      · cases hr.symm.trans hfin
      · cases hr.symm.trans hover
    · rw [display_full hclean htake] at hs
      cases hs
      exact h.receiver nofun (fun _ => hlength)

/-- **Every step keeps the stream.** -/
theorem Stream.step {op : Op} (h : Stream s) (hs : Duplex.step s op = some s') : Stream s' := by
  cases op with
  | setup r =>
    simp only [Duplex.step] at hs
    split at hs
    · rename_i hr
      cases hs
      exact h.goto (by rw [hr]; rfl) (by split_ifs <;> decide)
    · rename_i hr
      have hgoes : (s.phase r).gone = false := by
        rw [hr]
        rfl
      split_ifs at hs
      · cases hs
        exact h.goto hgoes (by decide)
      · cases hs
        have hnext := h.goto hgoes (p := .opening) (by decide)
        exact ⟨hnext.bytes, hnext.clean, hnext.ended, hnext.full⟩
    · cases hs
  | opens r =>
    simp only [Duplex.step] at hs
    split_ifs at hs with hr
    cases hs
    have hnext := h.goto (r := r) (p := .running) (by rw [hr.1]; rfl) (by decide)
    exact ⟨hnext.bytes, hnext.clean, hnext.ended, hnext.full⟩
  | say line =>
    simp only [Duplex.step] at hs
    split_ifs at hs with hr
    cases hs
    exact h.send hr.1 (line_typed hr.2).2
  | read n =>
    simp only [Duplex.step] at hs
    split_ifs at hs with hr
    exact h.receive hr hs
  | stop r =>
    simp only [Duplex.step] at hs
    split_ifs at hs with hr
    cases hs
    exact h.goto (Bool.eq_false_iff.mpr hr) (by decide)

/-! ## Creating the pipe -/

theorem ahead_start (made : Bool) : Ahead (Link.start made) := by
  rintro r (⟨hr, -⟩ | hr) <;> cases hr

theorem Role.other_other (r : Role) : r.other.other = r := by cases r <;> rfl

/-- a process that has the pipe is ahead of any other -/
theorem ahead_of_past (hr : (s.phase r).past = true) : Ahead s := by
  intro q hq
  rcases r.cases_other q with rfl | rfl
  · rcases hq with ⟨hq, -⟩ | hq <;> rw [hq] at hr <;> cases hr
  · rw [r.other_other]
    exact hr

theorem ahead_goto (hp : p.past = true) : Ahead (s.goto r p) := ahead_of_past (r := r) (by rw [goto_self]; exact hp)

theorem Ahead.setup (h : Ahead s) (hs : Duplex.step s (.setup r) = some s') : Ahead s' := by
  -- nobody is behind a process that has still to create the pipe
  have hnot : (s.phase r).past = false → ¬ ((s.phase r.other = .mkfifo ∧ s.made = true) ∨ s.phase r.other = .failed) := by
    intro hr hfails
    have hpast := h r.other hfails
    rw [r.other_other] at hpast
    cases hr.symm.trans hpast
  simp only [Duplex.step] at hs
  split at hs
  · rename_i hr
    cases hs
    intro q hq
    rcases r.cases_other q with rfl | rfl
    · rw [goto_self] at hq
      cases hmade : s.made <;> simp [hmade, Link.goto] at hq
    · rw [goto_other] at hq
      exact absurd hq (hnot (by rw [hr]; rfl))
  · rename_i hr
    split_ifs at hs with hmade
    · cases hs
      intro q hq
      rcases r.cases_other q with rfl | rfl
      · rw [goto_other]
        exact h q (Or.inl ⟨hr, hmade⟩)
      · rw [goto_other] at hq
        exact absurd hq (hnot (by rw [hr]; rfl))
    · cases hs
      exact ahead_of_past (r := r) (by simp [Link.goto, Phase.past])
  · cases hs

theorem Ahead.step {op : Op} (h : Ahead s) (hs : Duplex.step s op = some s') : Ahead s' := by
  cases op with
  | setup r => exact h.setup hs
  | opens r =>
    simp only [Duplex.step] at hs
    split_ifs at hs
    cases hs
    exact ahead_of_past (r := r) (by simp [Link.goto, Phase.past])
  | say line =>
    simp only [Duplex.step] at hs
    split_ifs at hs with hr
    cases hs
    unfold Link.send
    split_ifs
    · exact ahead_goto rfl
    · exact h
  | read n =>
    simp only [Duplex.step] at hs
    split_ifs at hs with hr
    unfold Link.receive at hs
    split_ifs at hs
    · cases hs
      exact ahead_goto rfl
    · split at hs
      · cases hs
        exact h
      · cases hs
        exact ahead_goto rfl
  | stop r =>
    simp only [Duplex.step] at hs
    split_ifs at hs
    cases hs
    exact ahead_goto rfl

theorem run_link {made : Bool} {ops : List Op} (h : Run.exec Duplex.step (Link.start made) ops = some s) :
    Stream s ∧ Ahead s :=
  Run.exec_inv (I := fun s => Stream s ∧ Ahead s) (fun _ _ _ hi hs => ⟨hi.1.step hs, hi.2.step hs⟩)
    ⟨stream_start made, ahead_start made⟩ h

/-! ## Main result -/

/-- **One direction of the chat.** In every run of a sender and its receiver, whoever creates the pipe and however the
kernel cuts the text: what was printed, followed by what is in the pipe, is what was sent; when the receiver ends because
nothing more can come, it has printed all of it; the array is overrun only beside 128 bytes or more in the pipe, and a
`read` that gives 128 bytes always overruns it; and at most one of the two processes fails to create the pipe. -/
theorem duplex_run {made : Bool} {ops : List Op} (h : Run.exec Duplex.step (Link.start made) ops = some s) :
    s.shown.flatten ++ s.pipe = s.said.flatten ∧
    (s.phase .receiver = .finished → s.shown.flatten = s.said.flatten) ∧
    (s.phase .receiver = .overrun → bufSize ≤ s.pipe.length) ∧
    (s.phase .receiver = .running → bufSize ≤ s.pipe.length →
      Duplex.step s (.read bufSize) = some (s.goto .receiver .overrun)) ∧
    ¬ (s.phase .sender = .failed ∧ s.phase .receiver = .failed) := by
  obtain ⟨hstream, hahead⟩ := run_link h
  refine ⟨hstream.bytes, fun hfinished => ?_, hstream.full, fun hrunning hlength => ?_, fun hfailed => ?_⟩
  · have hall := hstream.bytes
    rwa [(hstream.ended hfinished).1, List.append_nil] at hall
  · have hne : s.pipe ≠ [] := by
      intro hempty
      rw [hempty] at hlength
      cases hlength
    have hclean : nul ∉ s.pipe.take bufSize := fun hmem => hstream.clean (List.mem_of_mem_take hmem)
    have hfull := display_full hclean (List.length_take_of_le hlength)
    simp only [Duplex.step, if_pos hrunning, Link.receive, if_neg hne]
    rw [if_pos ⟨by decide, le_refl _, hlength⟩, hfull]
  · have hpast := hahead .sender (Or.inr hfailed.1)
    rw [show Role.sender.other = .receiver from rfl, hfailed.2] at hpast
    cases hpast

/-- two lines arrive in pieces that are not the lines -/
def linkOps : List Op := [.setup .sender, .setup .sender, .setup .receiver, .opens .sender, .opens .receiver,
  .say (ascii "hi\n"), .say (ascii "there\n"), .read 5, .read 4, .stop .sender, .read 1]

def linkRun : Option Link := Run.exec Duplex.step (Link.start false) linkOps

theorem linkRun_isSome : linkRun.isSome = true := by decide +kernel

theorem duplex_run_linkRun : (linkRun.get linkRun_isSome).shown = [ascii "hi\nth", ascii "ere\n"] ∧
    (linkRun.get linkRun_isSome).shown.flatten = (linkRun.get linkRun_isSome).said.flatten :=
  ⟨by decide +kernel, (duplex_run (Option.some_get linkRun_isSome).symm).2.1 (by decide +kernel)⟩

end WebServer.Lesson24.Duplex
