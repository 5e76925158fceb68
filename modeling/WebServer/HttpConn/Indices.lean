/-
The indices of the read buffer, in every state of a connection.

`Reached` are the request members after `init()`, after a `read()` and after a round of `processRead`'s loop, the last
round of a call included, in any order and with any `lineStatus`: more than the server does, since it calls `init()`
after a request. Nothing but a line end is removed from the bytes below `checkIndex`, so the scanner never finds a CR
behind it: of the two branches of `parseLine` that accept a line end, the second is dead.

- `Tidy.parseLine`, `Tidy.loopBody`: the scanner and the handlers keep the indices in order (`Tidy`).
- `lateLfLoop_eq_false`: the scanner does not take the branch.
- `reached_tidy`: all reached states are tidy. `Session.run_reached`: the states of sessions are reached.
-/
import WebServer.HttpConn.Session

namespace WebServer.HttpConn

open WebServer

/-- `init()`, `read()` and rounds of `processRead`'s loop -/
inductive Reached : ReadSide → Prop
  | init : Reached ReadSide.fresh
  | read {r r' : ReadSide} {rs : List Recv} {b : Bool} (h : Reached r) (hr : read rs r = some (b, r')) : Reached r'
  | round {r r' : ReadSide} {ls ls' : LineStatus} (h : Reached r) (hr : loopRound (ls, r) = .inl (ls', r')) : Reached r'
  /-- the round in which `processRead` answers -/
  | answer {r r' : ReadSide} {ls : LineStatus} {code : HttpCode} (h : Reached r)
      (hr : loopRound (ls, r) = .inr (code, r')) : Reached r'

/-! ## The scanner -/

/-- the loop of `parseLine`, with `k` bytes left to look at, comes to a LF behind a CR and takes the branch for it -/
def lateLfLoop : ℕ → ReadSide → Bool
  | 0, _ => false
  | k + 1, r =>
    let temp := r.readBuffer.get r.checkIndex
    if temp = cr then false
    else if temp = lf then decide (r.checkIndex > 1 ∧ r.readBuffer.get (r.checkIndex - 1) = cr)
    else lateLfLoop k { r with checkIndex := r.checkIndex + 1 }

def lateLf (r : ReadSide) : Bool := lateLfLoop (r.readIndex - r.checkIndex) r

/-- with no CR below `checkIndex` the branch is not taken -/
theorem lateLfLoop_eq_false {k : ℕ} {r : ReadSide} (h : ∀ i < r.checkIndex, r.readBuffer.get i ≠ cr) :
    lateLfLoop k r = false := by
  induction k generalizing r with
  | zero => rfl
  | succ k ih =>
    unfold lateLfLoop
    dsimp only
    split_ifs with hcr hlf
    · rfl
    · apply decide_eq_false
      rintro ⟨hpos, hprev⟩
      exact h (r.checkIndex - 1) (by omega) hprev
    · apply ih
      intro i hi
      rcases Nat.lt_succ_iff_lt_or_eq.1 hi with hlt | rfl
      · exact h i hlt
      · exact hcr

theorem Tidy.lateLf {r : ReadSide} (h : Tidy r) : lateLf r = false := lateLfLoop_eq_false fun i hi => (h.clean i hi).1

theorem Tidy.parseLine {r : ReadSide} (h : Tidy r) : Tidy (parseLine r).2 := by
  rw [parseLine_eq r fun i hi => (h.clean i hi).1]
  rcases nextLine_cases r.unread with ⟨l, rest, hn, hs, hc⟩ | ⟨l, hn, hs, hc⟩ | ⟨l, t, hn, hs, hc, -⟩ | ⟨hn, hc⟩
  · rw [hn]
    exact h.pass hs hc
  · rw [hn]
    exact h.skip hs hc
  · rw [hn]
    exact h.skip hs hc
  · rw [hn]
    exact h.skip (List.append_nil _).symm hc

theorem Tidy.loopTest {r : ReadSide} (h : Tidy r) (ls : LineStatus) : Tidy (loopTest ls r).2 := by
  unfold HttpConn.loopTest
  split_ifs
  · exact h
  · exact h.parseLine

/-! ## The handlers -/

theorem parseHeader_zeroes (text : ℕ) (r : ReadSide) : Zeroes r (parseHeader text r).2 := by
  obtain ⟨code, state, linger, n, host, hparse, -⟩ := parseHeader_spec text r
  rw [hparse]
  exact ⟨rfl, rfl, rfl, fun _ => Or.inl rfl⟩

theorem parseContext_zeroes (text : ℕ) (r : ReadSide) : Zeroes r (parseContext text r).2 := by
  unfold parseContext
  by_cases hdone : (r.readIndex : ℤ) ≥ int32 (r.contentLength + r.checkIndex)
  · rw [if_pos hdone]
    refine ⟨rfl, rfl, rfl, fun k => ?_⟩
    dsimp only [Buf.setInt]
    split_ifs
    · rw [Buf.get_set_zero]
      split_ifs
      · exact Or.inr rfl
      · exact Or.inl rfl
    · exact Or.inl rfl
  · rw [if_neg hdone]
    exact ⟨rfl, rfl, rfl, fun _ => Or.inl rfl⟩

/-- `getLine`, and then the handler of the state -/
theorem Tidy.loopBody {r : ReadSide} (h : Tidy r) : Tidy (loopBody r).2 := by
  have hline : Tidy { r with startLine := r.checkIndex } := ⟨le_rfl, h.check_le, h.read_le, h.clean, h.tail⟩
  cases hs : r.checkState with
  | requestLine =>
    rw [loopBody_parseRequestLine hs]
    exact (parseRequestLine_zeroes _ _).tidy hline
  | header =>
    rw [loopBody_parseHeader hs]
    exact (parseHeader_zeroes _ _).tidy hline
  | content =>
    rw [loopBody_parseContext hs]
    exact (parseContext_zeroes _ _).tidy hline

/-! ## All states -/

/-- a round ends behind the loop's test or behind a handler -/
theorem Tidy.loopRound {r : ReadSide} (h : Tidy r) (ls : LineStatus) :
    Sum.elim (fun x => Tidy x.2) (fun x => Tidy x.2) (loopRound (ls, r)) := by
  have htest := h.loopTest ls
  unfold HttpConn.loopRound
  dsimp only
  generalize HttpConn.loopTest ls r = x at htest ⊢
  obtain ⟨ls', r'⟩ := x
  have hbody := htest.loopBody
  cases ls' with
  | lineOk =>
    dsimp only at hbody ⊢
    generalize HttpConn.loopBody r' = y at hbody ⊢
    obtain ⟨code, r''⟩ := y
    cases code <;> exact hbody
  | lineBad => exact htest
  | lineOpen => exact htest

theorem Reached.tidy {r : ReadSide} (h : Reached r) : Tidy r := by
  induction h with
  | init => exact tidy_fresh
  | read _ hr ih =>
    obtain ⟨q, rfl, hq⟩ := read_load hr ih.read_le
    exact ih.load hq
  | @round r r' ls ls' _ hr ih =>
    have hround := ih.loopRound ls
    rw [hr] at hround
    exact hround
  | @answer r r' ls code _ hr ih =>
    have hround := ih.loopRound ls
    rw [hr] at hround
    exact hround

theorem Session.run_reached {s : Session} {ms : List Move} (h : Run.exec Session.step Session.start ms = some s) :
    Reached s.request := by
  apply Run.exec_inv (I := fun s => Reached s.request) _ Reached.init h
  intro s m t hs hstep
  cases m with
  | read rs =>
    obtain ⟨-, b, r, hr, rfl⟩ := Session.step_read hstep
    exact .read hs hr
  | call =>
    obtain ⟨-, rfl⟩ := Session.step_call hstep
    exact hs
  | round =>
    obtain ⟨ls, -, -, ⟨ls', -, hr⟩ | ⟨-, hr⟩⟩ := Session.step_loopRound hstep
    · exact .round hs hr
    · exact .answer hs hr

/-- **The indices of the read buffer.** In every state of a connection: `startLine`, `checkIndex` and `readIndex` are in
this order and at most READ_BUFFER_SIZE, no byte below `checkIndex` is CR or LF, every byte from `readIndex` on is zero,
and `parseLine` does not take its branch for a LF behind a CR that an earlier call has seen. -/
theorem reached_tidy {r : ReadSide} (h : Reached r) :
    r.startLine ≤ r.checkIndex ∧ r.checkIndex ≤ r.readIndex ∧ r.readIndex ≤ readBufferSize ∧
    (∀ i < r.checkIndex, r.readBuffer.get i ≠ cr ∧ r.readBuffer.get i ≠ lf) ∧
    (∀ i, r.readIndex ≤ i → i < readBufferSize → r.readBuffer.get i = 0) ∧ lateLf r = false := by
  have htidy := h.tidy
  exact ⟨htidy.start_le, htidy.check_le, htidy.read_le, htidy.clean, fun i hi _ => htidy.tail i hi, htidy.lateLf⟩

/-- a request line was read and parsed, and part of a header line is there -/
def lineRun : Option Session :=
  Run.exec Session.step Session.start (Session.arrival (ascii "GET / HTTP/1.1\r\nHost: a\r") ++ [.round])

theorem lineRun_isSome : lineRun.isSome = true := by decide +kernel

theorem reached_tidy_lineRun : (lineRun.get lineRun_isSome).request.startLine = 16 ∧
    (∀ i < (lineRun.get lineRun_isSome).request.checkIndex, (lineRun.get lineRun_isSome).request.readBuffer.get i ≠ cr) ∧
    lateLf (lineRun.get lineRun_isSome).request = false := by
  obtain ⟨-, -, -, hclean, -, hlate⟩ := reached_tidy (Session.run_reached (Option.some_get lineRun_isSome).symm)
  exact ⟨by decide +kernel, fun i hi => (hclean i hi).1, hlate⟩

end WebServer.HttpConn
