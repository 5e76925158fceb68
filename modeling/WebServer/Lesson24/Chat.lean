/-
The chat of lesson24/chatA.c and lesson24/chatB.c over two named pipes.

Both programs create the pipes if they do not exist, open them, and then take turns: A writes a line and waits for one, B
waits for a line and writes one. A pipe is open for one side only when the other side opens it too. Creating a pipe is a
test and then a call that fails if the pipe has appeared in between, and a failing call ends the program.

- `Setup`: which of the two programs may end while the pipes are created; never both.
- `Talk`: at most one line is under way; everything else that was written has been shown by the other side.
- `chat_transcript`: in every run each side has shown the lines of the other side, complete and in order.
- `chat_stuck_iff`: the chat stops for good if and only if one program ended while the other created the pipes, or
  somebody enters an empty line (the end of the input, or a line that begins with a zero byte).
-/
import WebServer.Core.Run
import WebServer.Core.Scan

namespace WebServer.Lesson24

/-! ## Model -/

inductive Side where
  | a
  | b
deriving DecidableEq, Repr

def Side.other : Side → Side
  | .a => .b
  | .b => .a

inductive Pc where
  | access1
  | mkfifo1
  | access2
  | mkfifo2
  /-- in the first `open`, of fifo1 -/
  | open1
  /-- in the second `open`, of fifo2 -/
  | open2
  | write
  | read
  /-- `exit(0)` after a failing `mkfifo` -/
  | exited
  /-- `printf` reads outside `buf` -/
  | overrun
deriving DecidableEq, Repr

structure State where
  pc : Side → Pc
  exists1 : Bool
  exists2 : Bool
  /-- what a side has written and the other has not read: fifo1 for A, fifo2 for B -/
  pipe : Side → Bytes
  /-- the lines a side has written -/
  said : Side → List Bytes
  /-- the lines a side has printed -/
  shown : Side → List Bytes

def start (exists1 exists2 : Bool) : State :=
  ⟨fun _ => .access1, exists1, exists2, fun _ => [], fun _ => [], fun _ => []⟩

/-- the statements up to the first `open` -/
def setup (exists1 exists2 : Bool) : Pc → Option (Pc × Bool × Bool)
  | .access1 => some (if exists1 then .access2 else .mkfifo1, exists1, exists2)
  | .mkfifo1 => if exists1 then some (.exited, exists1, exists2) else some (.access2, true, exists2)
  | .access2 => some (if exists2 then .open1 else .mkfifo2, exists1, exists2)
  | .mkfifo2 => if exists2 then some (.exited, exists1, exists2) else some (.open1, exists1, true)
  | _ => none

/-- how many of its calls of `open` a program has reached, and three when they have returned -/
def Pc.opened : Pc → ℕ
  | .open1 => 1
  | .open2 => 2
  | .write | .read | .overrun => 3
  | _ => 0

/-- the first statement of the loop -/
def Side.first : Side → Pc
  | .a => .write
  | .b => .read

/-- `strlen(buf)` bytes of what `fgets` stored -/
def typed (line : Bytes) : Bytes := line.takeWhile (· ≠ nul)

/-- the string in `buf`, which was cleared before the `read` -/
def display (chunk : Bytes) : Option Bytes :=
  (strchr (chunk ++ List.replicate (128 - chunk.length) nul) nul).map
    (chunk ++ List.replicate (128 - chunk.length) nul).take

inductive Op where
  | setup (p : Side)
  | opens (p : Side)
  /-- `fgets` stores `line`; the line is written -/
  | say (p : Side) (line : Bytes)
  | read (p : Side)
deriving DecidableEq, Repr

def State.goto (s : State) (p : Side) (pc : Pc) : State := { s with pc := Function.update s.pc p pc }

def step (s : State) : Op → Option State
  | .setup p => (setup s.exists1 s.exists2 (s.pc p)).map fun r => { s.goto p r.1 with exists1 := r.2.1, exists2 := r.2.2 }
  | .opens p =>
    match s.pc p with
    | .open1 => if 1 ≤ (s.pc p.other).opened then some (s.goto p .open2) else none
    | .open2 => if 2 ≤ (s.pc p.other).opened then some (s.goto p p.first) else none
    | _ => none
  | .say p line =>
    if s.pc p = .write ∧ line.length ≤ 127 then
      some { s.goto p .read with
        pipe := Function.update s.pipe p (s.pipe p ++ typed line)
        said := Function.update s.said p (s.said p ++ [typed line]) }
    else none
  | .read p =>
    let pipe := s.pipe p.other
    -- an empty pipe blocks: the other side has not closed it
    if s.pc p = .read ∧ pipe ≠ [] then
      match display (pipe.take 128) with
      | some text =>
        some { s.goto p .write with
          pipe := Function.update s.pipe p.other (pipe.drop 128)
          shown := Function.update s.shown p (s.shown p ++ [text]) }
      | none => some (s.goto p .overrun)
    else none

/-! ## Lines -/

/-- a line that was written: it fits the array of the reader with a zero behind it -/
def Line (m : Bytes) : Prop := m.length ≤ 127 ∧ nul ∉ m

theorem line_typed {line : Bytes} (h : line.length ≤ 127) : Line (typed line) := by
  refine ⟨(List.takeWhile_sublist _).length_le.trans h, fun hmem => ?_⟩
  have := List.mem_takeWhile_imp hmem
  simp at this

/-- **A line is read in one piece and shown as it is.** -/
theorem display_line {m : Bytes} (h : Line m) : m.take 128 = m ∧ m.drop 128 = [] ∧ display m = some m := by
  refine ⟨List.take_of_length_le (h.1.trans (by decide)), List.drop_eq_nil_iff.2 (h.1.trans (by decide)), ?_⟩
  unfold display
  obtain ⟨k, hk⟩ : ∃ k, 128 - m.length = k + 1 := ⟨127 - m.length, by have := h.1; omega⟩
  rw [hk, List.replicate_succ, strchr_append h.2, Option.map_some, List.take_left]

/-! ## Creating and opening the pipes -/

/-- how far a program has come -/
def Pc.stage : Pc → ℕ
  | .mkfifo1 => 1
  | .access2 => 2
  | .mkfifo2 => 3
  | .open1 => 4
  | .open2 => 5
  | .write | .read | .overrun => 6
  | .access1 | .exited => 0

/-- a program at `x` whose `mkfifo` fails, or has failed, has the other one, at `y`, ahead of it -/
def behind (x y : Pc) (exists1 exists2 : Bool) : Bool :=
  match x with
  | .mkfifo1 => !exists1 || decide (2 ≤ y.stage)
  | .mkfifo2 => !exists2 || decide (4 ≤ y.stage)
  | .exited => decide (2 ≤ y.stage) && (decide (y ≠ .mkfifo2) || !exists2)
  | _ => true

/-- a program passes its `open` only when the other one has reached it -/
def met (x y : Pc) : Bool :=
  (decide (x.opened < 2) || decide (1 ≤ y.opened)) && (decide (x.opened < 3) || decide (2 ≤ y.opened))

/-- where the two programs can be together -/
def Setup (x y : Pc) (exists1 exists2 : Bool) : Prop :=
  (behind x y exists1 exists2 = true ∧ behind y x exists1 exists2 = true) ∧ met x y = true ∧ met y x = true

theorem Setup.symm {x y : Pc} {e1 e2 : Bool} (h : Setup x y e1 e2) : Setup y x e1 e2 := ⟨h.1.symm, h.2.symm⟩

instance (x y : Pc) (e1 e2 : Bool) : Decidable (Setup x y e1 e2) := by unfold Setup; infer_instance

theorem Setup.setup {x y : Pc} {e1 e2 : Bool} {r : Pc × Bool × Bool} (h : Setup x y e1 e2)
    (hr : Lesson24.setup e1 e2 x = some r) : Setup r.1 y r.2.1 r.2.2 := by
  cases x <;> simp only [Lesson24.setup] at hr <;> try cases hr
  · revert h; cases e1 <;> cases e2 <;> cases y <;> decide
  · cases e1 <;> cases hr <;> revert h <;> cases e2 <;> cases y <;> decide
  · revert h; cases e1 <;> cases e2 <;> cases y <;> decide
  · cases e2 <;> cases hr <;> revert h <;> cases e1 <;> cases y <;> decide

theorem Setup.open1 {y : Pc} {e1 e2 : Bool} (h : Setup .open1 y e1 e2) (hy : 1 ≤ y.opened) : Setup .open2 y e1 e2 := by
  revert h hy
  cases y <;> cases e1 <;> cases e2 <;> decide

theorem Setup.open2 {y : Pc} {e1 e2 : Bool} (h : Setup .open2 y e1 e2) (hy : 2 ≤ y.opened) :
    Setup .write y e1 e2 ∧ Setup .read y e1 e2 := by
  revert h hy
  cases y <;> cases e1 <;> cases e2 <;> decide

/-- the statements of the loop stand for the same position -/
theorem Setup.loop {x x' y : Pc} {e1 e2 : Bool} (h : Setup x y e1 e2) (hx : x = .write ∨ x = .read)
    (hx' : x' = .write ∨ x' = .read) : Setup x' y e1 e2 := by
  rcases hx with rfl | rfl <;> rcases hx' with rfl | rfl <;> exact h

/-! ## Taking turns -/

/-- the line that is under way -/
inductive Turn where
  | quiet
  | flight (p : Side) (m : Bytes)
deriving DecidableEq

def Turn.lines : Turn → Side → List Bytes
  | .quiet, _ => []
  | .flight p m, q => if p = q then [m] else []

/-- where the two sides are in their loops -/
def Turn.fits : Turn → Pc → Pc → Prop
  | .quiet, x, y => (x ≠ .read ∧ y ≠ .write) ∨ (x = .read ∧ y = .write)
  | .flight .a _, x, y => x = .read ∧ y ≠ .write
  | .flight .b _, x, y => x = .read ∧ y = .read

structure Talk (turn : Turn) (s : State) : Prop where
  setup : Setup (s.pc .a) (s.pc .b) s.exists1 s.exists2
  fits : turn.fits (s.pc .a) (s.pc .b)
  pipe : ∀ p, s.pipe p = (turn.lines p).flatten
  said : ∀ p, s.said p = s.shown p.other ++ turn.lines p
  line : ∀ p, ∀ m ∈ turn.lines p, Line m
  shown : ∀ p, [] ∉ s.shown p
  safe : ∀ p, s.pc p ≠ .overrun

theorem talk_start (exists1 exists2 : Bool) : Talk .quiet (start exists1 exists2) where
  setup := by
    cases exists1 <;> cases exists2 <;> decide
  fits := Or.inl ⟨Pc.noConfusion, Pc.noConfusion⟩
  pipe := fun _ => rfl
  said := fun _ => rfl
  line := fun _ _ h => by cases h
  shown := fun _ h => by cases h
  safe := fun _ h => by cases h

variable {turn : Turn} {s t : State}

theorem Side.other_ne (p : Side) : p.other ≠ p := by cases p <;> decide

@[simp] theorem goto_self (s : State) (p : Side) (x : Pc) : (s.goto p x).pc p = x := Function.update_self _ _ _

@[simp] theorem goto_other (s : State) (p : Side) (x : Pc) : (s.goto p x).pc p.other = s.pc p.other :=
  Function.update_of_ne p.other_ne _ _

/-- a fact about both sides, told from one of them -/
theorem Setup.of_side {f : Side → Pc} {e1 e2 : Bool} {p : Side} (h : Setup (f p) (f p.other) e1 e2) :
    Setup (f .a) (f .b) e1 e2 := by
  cases p with
  | a => exact h
  | b => exact h.symm

/-- what the side `p` knows -/
theorem Talk.setupFor (h : Talk turn s) (p : Side) : Setup (s.pc p) (s.pc p.other) s.exists1 s.exists2 := by
  cases p with
  | a => exact h.setup
  | b => exact h.setup.symm

/-- a program that is not in its loop yet moves on, possibly to the head of the loop -/
theorem Talk.goto (h : Talk turn s) {p : Side} {x : Pc} {e1 e2 : Bool} (hset : Setup x (s.pc p.other) e1 e2)
    (hout : s.pc p ≠ .read ∧ s.pc p ≠ .write) (hx : x ≠ p.other.first) (hsafe : x ≠ .overrun) :
    Talk turn { s.goto p x with exists1 := e1, exists2 := e2 } where
  setup := by
    refine Setup.of_side (p := p) (f := (s.goto p x).pc) ?_
    rw [goto_self, goto_other]
    exact hset
  fits := by
    have hfits := h.fits
    cases p <;> cases turn with
    | quiet => simp_all [Turn.fits, State.goto, Side.first, Side.other]
    | flight q m => cases q <;> simp_all [Turn.fits, State.goto, Side.first, Side.other]
  pipe := h.pipe
  said := h.said
  line := h.line
  shown := h.shown
  safe := by
    intro q
    by_cases hq : q = p
    · rw [hq]
      exact fun hover => hsafe ((goto_self s p x).symm.trans hover)
    · exact fun hover => h.safe q ((Function.update_of_ne hq _ _).symm.trans hover)

theorem setup_outside {e1 e2 : Bool} {x : Pc} {r : Pc × Bool × Bool} (h : setup e1 e2 x = some r) :
    (x ≠ .read ∧ x ≠ .write) ∧ r.1 ≠ .read ∧ r.1 ≠ .write ∧ r.1 ≠ .overrun := by
  cases x <;> cases e1 <;> cases e2 <;> cases h <;> decide

theorem talk_setup (h : Talk turn s) {p : Side} (ht : step s (.setup p) = some t) : Talk turn t := by
  obtain ⟨r, hr, rfl⟩ := Option.map_eq_some_iff.1 ht
  have hset := (h.setupFor p).setup hr
  have hpc := setup_outside hr
  refine h.goto hset hpc.1 ?_ hpc.2.2.2
  cases p
  · exact hpc.2.1
  · exact hpc.2.2.1

theorem talk_opens (h : Talk turn s) {p : Side} (ht : step s (.opens p) = some t) : Talk turn t := by
  have hset := h.setupFor p
  simp only [step] at ht
  split at ht
  · rename_i hpc
    split_ifs at ht with hm
    obtain rfl := Option.some.inj ht
    rw [hpc] at hset
    refine h.goto (hset.open1 hm) (by rw [hpc]; decide) ?_ (by decide)
    cases p <;> decide
  · rename_i hpc
    split_ifs at ht with hm
    obtain rfl := Option.some.inj ht
    rw [hpc] at hset
    refine h.goto ?_ (by rw [hpc]; decide) ?_ ?_
    · cases p
      · exact (hset.open2 hm).1
      · exact (hset.open2 hm).2
    · cases p <;> decide
    · cases p <;> decide
  · cases ht

/-- a side can write only when nothing is under way, and the other one is not writing -/
theorem Talk.write_turn (h : Talk turn s) {p : Side} (hpc : s.pc p = .write) :
    turn = .quiet ∧ ∀ m, (Turn.flight p m).fits ((s.goto p .read).pc .a) ((s.goto p .read).pc .b) := by
  have hfits := h.fits
  cases p <;> cases turn with
  | quiet => simp_all [Turn.fits, State.goto]
  | flight q m => cases q <;> simp_all [Turn.fits]

theorem talk_say (h : Talk turn s) {p : Side} {line : Bytes} (ht : step s (.say p line) = some t) :
    Talk (.flight p (typed line)) t := by
  simp only [step] at ht
  split_ifs at ht with hc
  obtain rfl := Option.some.inj ht
  obtain ⟨rfl, hfits⟩ := h.write_turn hc.1
  have hlines : ∀ q, (Turn.flight p (typed line)).lines q = if q = p then [typed line] else [] := by
    intro q
    simp only [Turn.lines, eq_comm]
  refine ⟨?_, hfits _, ?_, ?_, ?_, h.shown, ?_⟩
  · refine Setup.of_side (p := p) (f := (s.goto p .read).pc) ?_
    rw [goto_self, goto_other]
    exact (h.setupFor p).loop (Or.inl hc.1) (Or.inr rfl)
  · intro q
    rw [hlines]
    by_cases hq : q = p
    · subst hq
      simp [h.pipe, Turn.lines]
    · simp [hq, h.pipe, Turn.lines]
  · intro q
    rw [hlines]
    by_cases hq : q = p
    · subst hq
      simp [State.goto, h.said, Turn.lines]
    · simp [State.goto, hq, h.said, Turn.lines]
  · intro q m hm
    rw [hlines] at hm
    split_ifs at hm
    · rw [List.mem_singleton.1 hm]
      exact line_typed hc.2
    · cases hm
  · intro q
    by_cases hq : q = p
    · subst hq
      simp
    · simpa [State.goto, hq] using h.safe q

/-- a side that finds something in the pipe finds the one line that is under way -/
theorem Talk.read_turn (h : Talk turn s) {p : Side} (hpc : s.pc p = .read) (hne : s.pipe p.other ≠ []) :
    ∃ m, turn = .flight p.other m ∧ s.pipe p.other = m ∧
      Turn.quiet.fits ((s.goto p .write).pc .a) ((s.goto p .write).pc .b) := by
  have hfits := h.fits
  have hpipe := h.pipe p.other
  cases turn with
  | quiet => exact absurd hpipe hne
  | flight q m =>
    by_cases hq : q = p.other
    · subst hq
      refine ⟨m, rfl, by rw [hpipe]; simp [Turn.lines], ?_⟩
      cases p <;> simp_all [Turn.fits, State.goto, Side.other]
    · simp only [Turn.lines, if_neg hq] at hpipe
      exact absurd hpipe hne

theorem talk_read (h : Talk turn s) {p : Side} (ht : step s (.read p) = some t) : Talk .quiet t := by
  simp only [step] at ht
  split_ifs at ht with hc
  obtain ⟨m, rfl, hpipe, hfits⟩ := h.read_turn hc.1 hc.2
  have hm : Line m := h.line p.other m (by simp [Turn.lines])
  obtain ⟨htake, hdrop, hshow⟩ := display_line hm
  rw [hpipe, htake, hshow, hdrop] at ht
  obtain rfl := Option.some.inj ht
  have hother : p.other.other = p := by cases p <;> rfl
  have hlines : ∀ q, (Turn.flight p.other m).lines q = if q = p.other then [m] else [] := by
    intro q
    simp only [Turn.lines, eq_comm]
  refine ⟨?_, hfits, ?_, ?_, fun _ _ => fun hx => absurd hx List.not_mem_nil, ?_, ?_⟩
  · refine Setup.of_side (p := p) (f := (s.goto p .write).pc) ?_
    rw [goto_self, goto_other]
    exact (h.setupFor p).loop (Or.inr hc.1) (Or.inl rfl)
  · intro q
    by_cases hq : q = p.other
    · subst hq
      simp [Turn.lines]
    · have hpq := h.pipe q
      rw [hlines, if_neg hq] at hpq
      simpa [hq, Turn.lines, State.goto] using hpq
  · intro q
    have hsaid := h.said q
    rw [hlines] at hsaid
    by_cases hq : q = p.other
    · subst hq
      simpa [State.goto, hother, Turn.lines] using hsaid
    · have hqp : q.other ≠ p := by
        rintro rfl
        exact hq (by cases q <;> rfl)
      simpa [State.goto, hq, hqp, Turn.lines] using hsaid
  · intro q
    by_cases hq : q = p
    · subst hq
      have hne : m ≠ [] := hpipe ▸ hc.2
      simpa [State.goto, hne.symm] using h.shown q
    · simpa [State.goto, hq] using h.shown q
  · intro q
    by_cases hq : q = p
    · subst hq
      simp
    · simpa [State.goto, hq] using h.safe q

theorem talk_step {o : Op} (h : ∃ turn, Talk turn s) (ht : step s o = some t) : ∃ turn, Talk turn t := by
  obtain ⟨turn, h⟩ := h
  cases o with
  | setup p => exact ⟨turn, talk_setup h ht⟩
  | opens p => exact ⟨turn, talk_opens h ht⟩
  | say p line => exact ⟨_, talk_say h ht⟩
  | read p => exact ⟨_, talk_read h ht⟩

theorem talk_run {exists1 exists2 : Bool} {os : List Op} (h : Run.exec step (start exists1 exists2) os = some s) :
    ∃ turn, Talk turn s :=
  have hstep : ∀ s o t, (∃ turn, Talk turn s) → step s o = some t → ∃ turn, Talk turn t :=
    fun _ _ _ hs ht => talk_step hs ht
  Run.exec_inv hstep ⟨.quiet, talk_start exists1 exists2⟩ h

/-! ## Results -/

/-- **Nothing is lost, mixed up or repeated.** In every run, whatever exists at the start and in whatever order the two
programs come to run, each side has shown exactly the lines of the other side, in order, except that of at most one side
the last line may still be under way. No side ever reads outside its array. -/
theorem chat_transcript {exists1 exists2 : Bool} {os : List Op}
    (h : Run.exec step (start exists1 exists2) os = some s) :
    (∃ p, s.said p = s.shown p.other ∧
      (s.said p.other = s.shown p ∨ ∃ m, s.said p.other = s.shown p ++ [m])) ∧
    ∀ p, s.pc p ≠ .overrun := by
  obtain ⟨turn, htalk⟩ := talk_run h
  refine ⟨?_, htalk.safe⟩
  have hother : ∀ p : Side, p.other.other = p := fun p => by cases p <;> rfl
  cases turn with
  | quiet =>
    refine ⟨.a, ?_, Or.inl ?_⟩
    · simpa [Turn.lines] using htalk.said .a
    · simpa [Turn.lines, Side.other] using htalk.said .b
  | flight p m =>
    refine ⟨p.other, ?_, Or.inr ⟨m, ?_⟩⟩
    · simpa [Turn.lines, p.other_ne.symm] using htalk.said p.other
    · rw [hother]
      simpa [Turn.lines] using htalk.said p

/-- nobody has anything to do any more -/
def Stuck (s : State) : Prop := ∀ o, step s o = none

theorem stuck_iff {s : State} : Stuck s ↔ ∀ p, setup s.exists1 s.exists2 (s.pc p) = none ∧
    (s.pc p = .open1 → (s.pc p.other).opened < 1) ∧ (s.pc p = .open2 → (s.pc p.other).opened < 2) ∧
    s.pc p ≠ .write ∧ (s.pc p = .read → s.pipe p.other = []) := by
  constructor
  · intro h p
    refine ⟨?_, ?_, ?_, ?_, ?_⟩
    · have := h (.setup p)
      simpa [step] using this
    · intro hpc
      have := h (.opens p)
      simpa [step, hpc] using this
    · intro hpc
      have := h (.opens p)
      simpa [step, hpc] using this
    · intro hpc
      have := h (.say p [])
      simp [step, hpc] at this
    · intro hpc
      by_contra hne
      have := h (.read p)
      simp only [step, hpc, true_and] at this
      rw [if_pos hne] at this
      cases hd : display ((s.pipe p.other).take 128) <;> rw [hd] at this <;> cases this
  · intro h o
    cases o with
    | setup p => simp [step, (h p).1]
    | opens p =>
      simp only [step]
      split
      · rename_i hpc
        rw [if_neg (Nat.not_le.2 ((h p).2.1 hpc))]
      · rename_i hpc
        rw [if_neg (Nat.not_le.2 ((h p).2.2.1 hpc))]
      · rfl
    | say p line => simp [step, (h p).2.2.2.1]
    | read p =>
      simp only [step]
      rw [if_neg]
      rintro ⟨hpc, hne⟩
      exact hne ((h p).2.2.2.2 hpc)

/-- an empty line is never shown, so it can only be the one under way -/
theorem Talk.empty_turn (h : Talk turn s) {p : Side} (hempty : [] ∈ s.said p) : turn = .flight p [] := by
  rw [h.said p, List.mem_append] at hempty
  have hmem := hempty.resolve_left (h.shown p.other)
  cases turn with
  | quiet => cases hmem
  | flight q m =>
    simp only [Turn.lines] at hmem
    split_ifs at hmem with hq
    · rw [hq, ← List.mem_singleton.1 hmem]
    · cases hmem

/-- where a program can wait -/
theorem waits {x : Pc} {e1 e2 : Bool} (hs : setup e1 e2 x = none) (hw : x ≠ .write) (ho : x ≠ .overrun) :
    x = .open1 ∨ x = .open2 ∨ x = .read ∨ x = .exited := by
  cases x <;> cases e1 <;> cases e2 <;> simp_all [setup]

/-- two programs that both wait: one has ended, or both are in `read` -/
theorem both_wait {x y : Pc} {e1 e2 : Bool} (h : Setup x y e1 e2)
    (hx : x = .open1 ∨ x = .open2 ∨ x = .read ∨ x = .exited) (hy : y = .open1 ∨ y = .open2 ∨ y = .read ∨ y = .exited)
    (hx1 : x = .open1 → y.opened < 1) (hx2 : x = .open2 → y.opened < 2) (hy1 : y = .open1 → x.opened < 1)
    (hy2 : y = .open2 → x.opened < 2) :
    (x = .exited ∧ y = .open1) ∨ (y = .exited ∧ x = .open1) ∨ (x = .read ∧ y = .read) := by
  rcases hx with rfl | rfl | rfl | rfl <;> rcases hy with rfl | rfl | rfl | rfl <;>
    simp_all [Setup, met, behind, Pc.opened, Pc.stage]

/-- **When the chat stops for good.** In every run, no program can take another step if and only if one of them has ended
because the other one created a pipe between its test and its call, and the other one waits to open the first pipe; or B
waits to read and one of the two has entered an empty line. -/
theorem chat_stuck_iff {exists1 exists2 : Bool} {os : List Op}
    (h : Run.exec step (start exists1 exists2) os = some s) :
    Stuck s ↔ (∃ p, s.pc p = .exited ∧ s.pc p.other = .open1) ∨ (s.pc .b = .read ∧ ∃ p, [] ∈ s.said p) := by
  obtain ⟨turn, htalk⟩ := talk_run h
  rw [stuck_iff]
  constructor
  · intro hstuck
    obtain ⟨a1, a2, a3, a4, a5⟩ := hstuck .a
    obtain ⟨b1, b2, b3, b4, b5⟩ := hstuck .b
    rcases both_wait htalk.setup (waits a1 a4 (htalk.safe .a)) (waits b1 b4 (htalk.safe .b)) a2 a3 b2 b3 with
      hexit | hexit | ⟨ha, hb⟩
    · exact Or.inl ⟨.a, hexit⟩
    · exact Or.inl ⟨.b, hexit⟩
    · refine Or.inr ⟨hb, ?_⟩
      have hfits := htalk.fits
      cases turn with
      | quiet =>
        rw [ha, hb] at hfits
        simp [Turn.fits] at hfits
      | flight p m =>
        have hpipe : s.pipe p = [] := by
          cases p
          · exact b5 hb
          · exact a5 ha
        have hm : m = [] := by
          have := htalk.pipe p
          rw [hpipe] at this
          simpa [Turn.lines] using this.symm
        refine ⟨p, ?_⟩
        rw [htalk.said p, hm]
        simp [Turn.lines]
  · rintro (⟨p, hexit, hopen⟩ | ⟨hb, p, hempty⟩)
    · have hother : p.other.other = p := by cases p <;> rfl
      have hcase : ∀ q, (s.pc q = .exited ∧ s.pc q.other = .open1) ∨ (s.pc q = .open1 ∧ s.pc q.other = .exited) := by
        intro q
        by_cases hq : q = p
        · exact Or.inl (hq ▸ ⟨hexit, hopen⟩)
        · have hqo : q = p.other := by revert hq; cases q <;> cases p <;> decide
          exact Or.inr ⟨hqo ▸ hopen, by rw [hqo, hother]; exact hexit⟩
      intro q
      rcases hcase q with ⟨h1, h2⟩ | ⟨h1, h2⟩ <;> simp [h1, h2, setup, Pc.opened]
    · obtain rfl := htalk.empty_turn hempty
      have hfits := htalk.fits
      have ha : s.pc .a = .read := by
        cases p <;> exact hfits.1
      have hnil : ∀ q, s.pipe q = [] := by
        intro q
        rw [htalk.pipe q]
        simp only [Turn.lines]
        split_ifs <;> rfl
      intro q
      have hq : s.pc q = .read := by cases q <;> assumption
      simp [hq, hnil, setup]

/-- B creates the first pipe while A has found it missing -/
def raceRun : Option State := Run.exec step (start false false)
  [.setup .a, .setup .b, .setup .b, .setup .a, .setup .b, .setup .b]

theorem raceRun_isSome : raceRun.isSome = true := by decide +kernel

theorem chat_stuck_iff_race : Stuck (raceRun.get raceRun_isSome) ↔
    (∃ p, (raceRun.get raceRun_isSome).pc p = .exited ∧ (raceRun.get raceRun_isSome).pc p.other = .open1) ∨
      ((raceRun.get raceRun_isSome).pc .b = .read ∧ ∃ p, [] ∈ (raceRun.get raceRun_isSome).said p) :=
  chat_stuck_iff (Option.some_get raceRun_isSome).symm

/-- two lines each way -/
def talkRun : Option State := Run.exec step (start true true)
  [.setup .a, .setup .a, .setup .b, .setup .b, .opens .a, .opens .b, .opens .a, .say .a (ascii "hello\n"), .opens .b,
    .read .b, .say .b (ascii "hi\n"), .read .a, .say .a (ascii "bye\n")]

theorem talkRun_isSome : talkRun.isSome = true := by decide +kernel

theorem chat_transcript_talk :
    (∃ p, (talkRun.get talkRun_isSome).said p = (talkRun.get talkRun_isSome).shown p.other ∧
      ((talkRun.get talkRun_isSome).said p.other = (talkRun.get talkRun_isSome).shown p ∨
        ∃ m, (talkRun.get talkRun_isSome).said p.other = (talkRun.get talkRun_isSome).shown p ++ [m])) ∧
    ∀ p, (talkRun.get talkRun_isSome).pc p ≠ .overrun :=
  chat_transcript (Option.some_get talkRun_isSome).symm

end WebServer.Lesson24
