/-
Webbench: one of its clients, the loop of `benchcore`.

A client connects, sends the request, reads the answer and closes, until the alarm has set `timerexpired`. A run is the
sequence of its system calls with their results; the alarm may come between any two of them.

- `Account`: what the counters `speed`, `failed` and `bytes` and the open descriptors are, in terms of the calls made.
- `benchcore_account`: a client that returns has counted every attempt once as a success or as a failure, except that
  one failure is taken back; its descriptors are the connections that were refused, which nobody closes; and at most one
  page counts as a success whose answer was not read to its end.
-/
import WebServer.Core.Run
import WebServer.Webbench.Request

namespace WebServer.Webbench

/-! ## The loop of a client -/

/-- the ways in which `Socket` returns -/
inductive Connect where
  | connected
  /-- `connect` failed; the descriptor of the socket is not closed -/
  | refused
  /-- no address, or no socket -/
  | noSocket
deriving DecidableEq, Repr

inductive Call where
  /-- the handler of SIGALRM runs -/
  | alarm
  /-- a test of `timerexpired` -/
  | test
  | socket (r : Connect)
  /-- `write`, of the whole request or not -/
  | write (whole : Bool)
  | shutdown (ok : Bool)
  /-- `read`; `none` is an error -/
  | read (i : Option ℕ)
  /-- the `close` after a failure, whose result is not looked at -/
  | discard
  | close (ok : Bool)
deriving DecidableEq, Repr

/-- where the client is -/
inductive Pc where
  | top
  | socket
  | write
  | shutdown
  /-- the test at the head of the inner loop -/
  | inner
  | read
  | discard
  | close
  | returned
deriving DecidableEq, Repr

structure Child where
  pc : Pc
  timerexpired : Bool
  speed : ℤ
  failed : ℤ
  bytes : ℤ
  /-- open sockets -/
  fds : ℕ
deriving DecidableEq, Repr

structure Config where
  http10 : Protocol
  force : Bool

def Child.start : Child := ⟨.top, false, 0, 0, 0, 0⟩

def Config.afterSend (cfg : Config) : Pc := if cfg.force then .close else .inner

/-- a failure is counted -/
@[simp] def Child.fail (s : Child) (pc : Pc) : Child := { s with failed := int32 (s.failed + 1), pc := pc }

/-- the correction at the end: the attempt that the alarm interrupted is not a failure -/
@[simp] def Child.correct (s : Child) : Child :=
  { s with failed := if 0 < s.failed then s.failed - 1 else s.failed, pc := .returned }

def benchcore (cfg : Config) (s : Child) : Call → Option Child
  | .alarm => if s.pc = .returned ∨ s.timerexpired then none else some { s with timerexpired := true }
  | .test =>
    match s.pc with
    | .top => some (if s.timerexpired then s.correct else { s with pc := .socket })
    | .inner => some { s with pc := if s.timerexpired then .close else .read }
    | _ => none
  | .socket r =>
    if s.pc = .socket then
      match r with
      | .connected => some { s with fds := s.fds + 1, pc := .write }
      | .refused => some ({ s with fds := s.fds + 1 }.fail .top)
      | .noSocket => some (s.fail .top)
    else none
  | .write whole =>
    if s.pc = .write then
      if whole then some { s with pc := if cfg.http10 = .v09 then .shutdown else cfg.afterSend }
      else some (s.fail .discard)
    else none
  | .shutdown ok =>
    if s.pc = .shutdown then if ok then some { s with pc := cfg.afterSend } else some (s.fail .discard) else none
  | .read i =>
    if s.pc = .read then
      match i with
      | none => some (s.fail .discard)
      | some n =>
        if n = 0 then some { s with pc := .close }
        else if n ≤ 1500 then some { s with bytes := int32 (s.bytes + n), pc := .inner }
        else none
    else none
  | .discard => if s.pc = .discard then some { s with fds := s.fds - 1, pc := .top } else none
  | .close ok =>
    if s.pc = .close then
      if ok then some { s with fds := s.fds - 1, speed := int32 (s.speed + 1), pc := .top }
      else some ({ s with fds := s.fds - 1 }.fail .top)
    else none

/-! ## Accounting -/

@[simp] def Call.begins : Call → Bool
  | .socket _ => true
  | _ => false

@[simp] def Call.fails : Call → Bool
  | .socket .connected => false
  | .socket _ => true
  | .write whole => !whole
  | .shutdown ok => !ok
  | .read none => true
  | .close ok => !ok
  | _ => false

@[simp] def Call.received : Call → ℕ
  | .read (some n) => n
  | _ => 0

/-- the attempts of a run -/
def attempts (h : List Call) : ℕ := h.countP Call.begins

def failures (h : List Call) : ℕ := h.countP Call.fails

def successes (h : List Call) : ℕ := h.count (.close true)

def received (h : List Call) : ℕ := (h.map Call.received).sum

/-- the sockets whose `connect` failed -/
def refused (h : List Call) : ℕ := h.count (.socket .refused)

/-- whether the answer of the current attempt was read to its end, and how many pages were counted without that -/
def pageStep : Bool × ℕ → Call → Bool × ℕ
  | (_, n), .socket _ => (false, n)
  | (_, n), .read (some 0) => (true, n)
  | (ended, n), .close true => (ended, if ended then n else n + 1)
  | p, _ => p

def pages (h : List Call) : Bool × ℕ := h.foldl pageStep (false, 0)

/-- the pages that were counted although their answer was not read to its end -/
def cutPages (h : List Call) : ℕ := (pages h).2

/-- an attempt is under way that is not counted yet -/
@[simp] def Pc.uncounted : Pc → ℕ
  | .write | .shutdown | .inner | .read | .close => 1
  | _ => 0

/-- the client holds an open socket -/
@[simp] def Pc.holds : Pc → ℕ
  | .write | .shutdown | .inner | .read | .close | .discard => 1
  | _ => 0

/-- the counters after the calls `h` -/
structure Account (h : List Call) (s : Child) : Prop where
  speed : s.speed = int32 (successes h)
  failed : s.pc ≠ .returned → s.failed = int32 (failures h)
  corrected : s.pc = .returned → s.failed = if 0 < int32 (failures h) then int32 (failures h) - 1 else int32 (failures h)
  bytes : s.bytes = int32 (received h)
  attempts : attempts h = successes h + failures h + s.pc.uncounted
  fds : s.fds = refused h + s.pc.holds

/-- no page was counted without its end, unless the alarm has cut off the last one -/
inductive Cut (h : List Call) (s : Child) : Prop where
  | none (hn : cutPages h = 0) (hclose : s.pc = .close → (pages h).1 = true ∨ s.timerexpired = true)
  | last (hn : cutPages h = 1) (hexp : s.timerexpired = true) (hpc : s.pc = .top ∨ s.pc = .returned)

/-- what one call does to the counters -/
structure Effect (cfg : Config) (s : Child) (c : Call) (t : Child) : Prop where
  running : s.pc ≠ .returned
  speed : t.speed = if c = .close true then int32 (s.speed + 1) else s.speed
  failed : t.pc ≠ .returned → t.failed = if c.fails then int32 (s.failed + 1) else s.failed
  corrected : t.pc = .returned → c.fails = false ∧ t.failed = if 0 < s.failed then s.failed - 1 else s.failed
  bytes : t.bytes = if c.received = 0 then s.bytes else int32 (s.bytes + c.received)
  uncounted : s.pc.uncounted + (if c.begins then 1 else 0) =
    (if c = .close true then 1 else 0) + (if c.fails then 1 else 0) + t.pc.uncounted
  fds : s.pc.holds ≤ s.fds → t.fds + s.pc.holds = s.fds + (if c = .socket .refused then 1 else 0) + t.pc.holds
  /-- the client comes to its `close` after the end of the answer, or because the alarm has come -/
  toClose : cfg.force = false → t.pc = .close → c = .read (some 0) ∨ t.timerexpired = true
  closed : c = .close true → s.pc = .close ∧ t.pc = .top
  expired : s.timerexpired = true → t.timerexpired = true
  last : s.timerexpired = true → s.pc = .top → t.pc = .returned

theorem afterSend_counts (cfg : Config) : cfg.afterSend.uncounted = 1 ∧ cfg.afterSend.holds = 1 ∧
    cfg.afterSend ≠ .returned ∧ (cfg.force = false → cfg.afterSend ≠ .close) := by
  unfold Config.afterSend
  cases cfg.force <;> decide

theorem benchcore_effect {cfg : Config} {s t : Child} {c : Call} (h : benchcore cfg s c = some t) : Effect cfg s c t := by
  obtain ⟨h1, h2, h3, h4⟩ := afterSend_counts cfg
  obtain ⟨pc, timerexpired, speed, failed, bytes, fds⟩ := s
  cases c with
  | alarm =>
    simp only [benchcore] at h
    split_ifs at h with hpc
    obtain rfl := Option.some.inj h
    rw [not_or] at hpc
    constructor <;> simp_all
  | test =>
    cases pc <;> simp only [benchcore] at h <;> try cases h
    · cases timerexpired <;> constructor <;>
        simp
    · cases timerexpired <;> constructor <;>
        simp
  | socket r =>
    simp only [benchcore] at h
    split_ifs at h with hpc
    cases hpc
    cases r <;> cases h <;> constructor <;>
      simp
  | write whole =>
    simp only [benchcore] at h
    split_ifs at h with hpc hw hp <;> cases h <;> cases hpc <;> constructor <;>
      simp_all
  | shutdown ok =>
    simp only [benchcore] at h
    split_ifs at h with hpc hw <;> cases h <;> cases hpc <;> constructor <;>
      simp_all
  | read i =>
    simp only [benchcore] at h
    split_ifs at h with hpc
    cases hpc
    cases i with
    | none =>
      cases h
      constructor <;> simp
    | some n =>
      dsimp only at h
      split_ifs at h with h0 hn <;> cases h <;> constructor <;>
        simp_all
  | discard =>
    simp only [benchcore] at h
    split_ifs at h with hpc
    cases hpc
    cases h
    constructor <;> simp
    omega
  | close ok =>
    simp only [benchcore] at h
    split_ifs at h with hpc hok <;> cases h <;> cases hpc <;> constructor <;>
      simp_all

theorem account_start : Account [] Child.start where
  speed := rfl
  failed := fun _ => rfl
  corrected := fun h => by cases h
  bytes := rfl
  attempts := rfl
  fds := rfl

/-- one more occurrence in the counters of the calls -/
theorem int32_count {n : ℕ} {p : Prop} [Decidable p] :
    (if p then int32 (int32 (n : ℤ) + 1) else int32 (n : ℤ)) = int32 ((n + if p then 1 else 0 : ℕ) : ℤ) := by
  split_ifs
  · rw [int32_add]
    push_cast
    rfl
  · rfl

theorem successes_concat (h : List Call) (c : Call) :
    successes (h ++ [c]) = successes h + if c = .close true then 1 else 0 := by
  simp [successes, List.count_append, List.count_singleton]

theorem account_step {cfg : Config} {h : List Call} {s t : Child} {c : Call} (hs : Account h s)
    (ht : benchcore cfg s c = some t) : Account (h ++ [c]) t := by
  have e := benchcore_effect ht
  have hfail : failures (h ++ [c]) = failures h + if c.fails then 1 else 0 := by
    simp [failures, List.countP_append, List.countP_singleton]
  have hatt : attempts (h ++ [c]) = attempts h + if c.begins then 1 else 0 := by
    simp [attempts, List.countP_append, List.countP_singleton]
  have href : refused (h ++ [c]) = refused h + if c = .socket .refused then 1 else 0 := by
    simp [refused, List.count_append, List.count_singleton]
  have hrec : received (h ++ [c]) = received h + c.received := by
    simp [received]
  constructor
  · rw [e.speed, hs.speed, successes_concat, int32_count]
  · intro hpc
    rw [e.failed hpc, hs.failed e.running, hfail, int32_count]
  · intro hpc
    obtain ⟨hf, heq⟩ := e.corrected hpc
    rw [heq, hs.failed e.running, hfail, hf]
    rfl
  · rw [e.bytes, hs.bytes, hrec]
    split_ifs with h0
    · rw [h0, Nat.add_zero]
    · rw [int32_add]
      push_cast
      rfl
  · have h1 := hs.attempts
    have h2 := e.uncounted
    rw [hatt, successes_concat, hfail]
    omega
  · have h1 := hs.fds
    have h2 := e.fds (by omega)
    rw [href]
    omega

theorem cut_start : Cut [] Child.start := .none rfl nofun

theorem pages_concat (h : List Call) (c : Call) : pages (h ++ [c]) = pageStep (pages h) c := by
  rw [pages, List.foldl_append]
  rfl

theorem pageStep_count {c : Call} (hc : c ≠ .close true) (p : Bool × ℕ) : (pageStep p c).2 = p.2 := by
  unfold pageStep
  split <;> first | rfl | exact absurd rfl hc

theorem cut_step {cfg : Config} (hforce : cfg.force = false) {h : List Call} {s t : Child} {c : Call} (hs : Cut h s)
    (ht : benchcore cfg s c = some t) : Cut (h ++ [c]) t := by
  have e := benchcore_effect ht
  have hpages := pages_concat h c
  cases hs with
  | none hn hclose =>
    by_cases hc : c = .close true
    · obtain ⟨hpc, hpc'⟩ := e.closed hc
      subst hc
      cases hended : (pages h).1 with
      | true =>
        refine .none ?_ (by rw [hpc']; nofun)
        rw [cutPages, hpages, ← hn, cutPages]
        simp [pageStep, hended]
      | false =>
        have hexp := (hclose hpc).resolve_left (by rw [hended]; nofun)
        refine .last ?_ (e.expired hexp) (Or.inl hpc')
        rw [cutPages, hpages, pageStep, ← cutPages, hn, hended]
        rfl
    · refine .none (by rw [cutPages, hpages, pageStep_count hc]; exact hn) fun hpc' => ?_
      rcases e.toClose hforce hpc' with rfl | hexp
      · rw [hpages]
        exact Or.inl rfl
      · exact Or.inr hexp
  | last hn hexp hpc =>
    have hreturned := e.last hexp (hpc.resolve_right e.running)
    have hc : c ≠ .close true := fun hc => by
      rw [(e.closed hc).2] at hreturned
      cases hreturned
    exact .last (by rw [cutPages, hpages, pageStep_count hc]; exact hn) (e.expired hexp) (Or.inr hreturned)

/-- **The accounts of a client.** When `benchcore` returns, `speed` counts the successful attempts; `speed` and `failed`
together are all attempts, but for one failure that is always taken back if there was any; `bytes` is the number of
bytes received, as an int; the sockets that were refused are still open; and, unless answers are not waited for, at most
one page was counted whose answer was not read to its end. -/
theorem benchcore_account {cfg : Config} {h : List Call} {s : Child}
    (hrun : Run.exec (benchcore cfg) Child.start h = some s) (hret : s.pc = .returned) (hint : attempts h < 2 ^ 31) :
    s.speed = successes h ∧ s.speed + s.failed + (if failures h = 0 then 0 else 1) = attempts h ∧
      s.bytes = int32 (received h) ∧ s.fds = refused h ∧ (cfg.force = false → cutPages h ≤ 1) := by
  have hacc : Account h s := Run.exec_history (fun h s c t => account_step) account_start hrun
  have hatt := hacc.attempts
  rw [hret] at hatt
  simp only [Pc.uncounted, Nat.add_zero] at hatt
  have hspeed : s.speed = successes h := by rw [hacc.speed, int32_natCast (by omega)]
  have hfailed := hacc.corrected hret
  rw [int32_natCast (by omega)] at hfailed
  refine ⟨hspeed, ?_, hacc.bytes, ?_, ?_⟩
  · rw [hspeed, hfailed, hatt]
    split_ifs <;> push_cast <;> omega
  · rw [hacc.fds, hret]
    rfl
  · intro hforce
    have hcut : Cut h s := Run.exec_history (fun h s c t => cut_step hforce) cut_start hrun
    cases hcut <;> omega

/-- a page that arrives, a refused connection, and a page that the alarm cuts off -/
def sampleCalls : List Call :=
  [.test, .socket .connected, .write true, .test, .read (some 700), .test, .read (some 0), .close true,
    .test, .socket .refused,
    .test, .socket .connected, .write true, .test, .read (some 1500), .alarm, .test, .close true, .test]

def sampleChild : Option Child := Run.exec (benchcore ⟨.v11, false⟩) Child.start sampleCalls

theorem sampleChild_eq : sampleChild = some ⟨.returned, true, 2, 0, 2200, 1⟩ := by decide +kernel

theorem benchcore_account_sample : (2 : ℤ) = successes sampleCalls ∧
    (2 : ℤ) + 0 + (if failures sampleCalls = 0 then 0 else 1) = attempts sampleCalls ∧
    (2200 : ℤ) = int32 (received sampleCalls) ∧ 1 = refused sampleCalls ∧
    ((Config.mk .v11 false).force = false → cutPages sampleCalls ≤ 1) :=
  benchcore_account (s := ⟨.returned, true, 2, 0, 2200, 1⟩) sampleChild_eq rfl (by decide)

end WebServer.Webbench
