/-
The phases of a connection.

A connection is armed for EPOLLOUT exactly while a response waits to be sent, and for EPOLLIN while none does. The phase
follows the slot through the batch and the pool (`Phase.step`), so a worker always finds an empty write buffer:

- `phases`: in every state of every run without negative lengths, armed descriptors are in their phase; `processWrite`
  starts with an empty buffer, gets one of four codes and returns true; and no step of a worker changes a `sockfd` or
  `userCount`.
- `worker_overwrites`: with a negative length, a worker changes the `sockfd` of its connection.

The files are small enough for `bytesToSend` to hold the length of the response.
-/
import WebServer.Server.Owner

namespace WebServer.Server

open WebServer.HttpConn WebServer.ThreadPool

/-! ## Phases -/

/-- no response is there -/
def NothingPending (c : Conn) : Prop := c.writeIndex = 0 ∧ c.bytesToSend = 0 ∧ c.bytesHaveSend = 0

/-- a response waits to be sent, or the rest of one -/
def ResponsePending (c : Conn) : Prop := 0 < c.bytesToSend ∧ 0 < c.writeIndex ∧ (c.ivCount = 1 ∨ c.ivCount = 2)

def phaseOf : Interest → Conn → Prop
  | .epollIn => NothingPending
  | .epollOut => ResponsePending

def Phase (v : Slot) : Prop := ∀ i, v.WaitsFor i → phaseOf i v.conn

theorem nothingPending_init (c : Conn) : NothingPending c.init := ⟨rfl, rfl, rfl⟩

/-- the response that `process` leaves is pending, if its length is an `int` -/
theorem responsePending_answer {c c' : Conn} {code : HttpCode} {l : List Call} (hq : Requested c code c' l)
    (hc : c.writeIndex = 0)
    (hfit : code = .fileRequest → (processWrite code c').2.writeIndex + c'.fileStat.stSize < 2 ^ 31) :
    ResponsePending (processWrite code c').2 := by
  obtain ⟨-, hp⟩ := processWrite_spec hq.answered (hq.writeIndex.trans hc)
  have hpos := hp.index_pos
  by_cases hfile : code = .fileRequest
  · obtain ⟨hiv, -, hto⟩ := hp.file hfile
    refine ⟨?_, hpos, Or.inr hiv⟩
    have hlt := hfit hfile
    rw [hto, int32_eq (by omega) (by omega)]
    omega
  · obtain ⟨hiv, hto⟩ := hp.error hfile
    exact ⟨by rw [hto]; omega, hpos, Or.inl hiv⟩

theorem Phase.step {fd : ℤ} {v v' : Slot} {act : Act} (hown : Own fd v) (hph : Phase v) (hstep : SlotStep fd v act v')
    (hfit : act = .process .fileRequest → v'.conn.writeIndex + v'.conn.fileStat.stSize < 2 ^ 31) : Phase v' := by
  intro i hi
  have horigin := hstep.origin hown hi
  generalize v'.conn = c', v'.log = log at horigin hfit ⊢
  cases horigin with
  | same h => exact hph i h
  | reset c log => exact nothingPending_init c
  | received hp h => exact hph .epollIn h
  | sent h hs hb =>
    obtain ⟨h1, h2, h3⟩ := hph .epollOut h
    refine ⟨?_, by rwa [hs.writeIndex], by rwa [hs.ivCount]⟩
    rcases hb with hb | hb
    · rwa [hb]
    · exact hb
  | parsed h => exact hph .epollIn h
  | answered h hq =>
    refine responsePending_answer hq (hph .epollIn h).1 ?_
    rintro rfl
    have := hfit rfl
    rwa [(processWrite_kept _ _).fileStat] at this

/-! ## Runs -/

section Runs

variable {κ : Type*}

/-- the length of a file response is less than 2^31 -/
def fileFits (s : State κ) : Op κ → Bool
  | .process j fs =>
    match s.pool.workers j with
    | .running fd =>
      match HttpConn.process fs (s.users fd) (s.env fd) with
      | some (.fileRequest, c, _) => decide (c.writeIndex + c.fileStat.stSize < 2 ^ 31)
      | _ => true
    | _ => true
  | _ => true

/-- the operations of the worker threads -/
def Op.isWorker : Op κ → Bool
  | .wait _ | .waitEarly _ | .run _ | .process _ _ => true
  | _ => false

variable [Fintype κ] [DecidableEq κ] {maxRequests : ℕ} {users : ℤ → Conn} {ops : List (Op κ)} {s s' : State κ}

omit [Fintype κ] in
theorem fits_of_cause {op : Op κ} {fd : ℤ} (hok : fileFits s op = true) (hin : contained s op)
    (hst : Server.step maxRequests s op = some s') (hcause : Cause maxRequests s op fd (.process .fileRequest)) :
    (s'.users fd).writeIndex + (s'.users fd).fileStat.stSize < 2 ^ 31 := by
  obtain ⟨j, fs, x, hop, hj, hx⟩ := hcause
  rw [users_process hop hj hx hin hst]
  subst hop
  simpa only [fileFits, hj, hx, decide_eq_true_eq] using hok

theorem run_phase
    (hin : Run.Along (Server.step maxRequests) (fun s op => lengthsInside s op = true) (State.start users) ops)
    (hfit : Run.Along (Server.step maxRequests) (fun s op => fileFits s op = true) (State.start users) ops)
    (h : Run.exec (Server.step maxRequests) (State.start users) ops = some s) : Reads s ∧ ∀ fd, Phase (s.slot fd) := by
  refine run_slots (P := fun _ => Phase) (fun fd i hi => ?_) ?_ hin hfit h
  · cases i <;> simp [Slot.WaitsFor] at hi
  · intro s op s' fd act hok hc hst hcause hown hph hstep
    exact hph.step hown hstep fun hact => fits_of_cause hok hc hst (hact ▸ hcause)

omit [DecidableEq κ] in
/-- a worker finds its connection in the reading phase -/
theorem nothingPending_running {j : κ} {fd : ℤ} (hph : Phase (s.slot fd)) (hj : s.pool.workers j = .running fd) :
    NothingPending (s.users fd) :=
  hph .epollIn (Or.inr (Or.inr (ownersOf_running hj)))

/-- `processWrite` in a worker -/
theorem processWrite_running {c c' : Conn} {e e' : Env} {fs : FileSystem} {code : HttpCode} (hc : NothingPending c)
    (hr : processRead fs c e = some (code, c', e')) (hcode : code ≠ .noRequest) (hdef : code ≠ .undefined) :
    c'.writeIndex = 0 ∧ c'.bytesHaveSend = 0 ∧
      code ∈ [HttpCode.badRequest, .noResource, .forbiddenRequest, .fileRequest] ∧ (processWrite code c').1 = true := by
  rcases (processRead_requested hr hdef).2 with ⟨rfl, -⟩ | ⟨l, fd, hq, -⟩
  · exact absurd rfl hcode
  · have hw : c'.writeIndex = 0 := hq.writeIndex.trans hc.1
    refine ⟨hw, hq.bytesHaveSend.trans hc.2.2, ?_, (processWrite_spec hq.answered hw).1⟩
    simpa using hq.code_mem

/-- workers close nothing -/
theorem step_worker (hph : ∀ fd, Phase (s.slot fd)) {op : Op κ} (hop : op.isWorker = true) (hin : contained s op)
    (h : Server.step maxRequests s op = some s') :
    (∀ fd, (s'.users fd).sockfd = (s.users fd).sockfd) ∧ s'.userCount = s.userCount := by
  cases op with
  | epollWait _ => cases hop
  | handle _ => cases hop
  | post => cases hop
  | wait | waitEarly | run =>
    obtain ⟨p, -, rfl⟩ := setPool_some h
    exact ⟨fun _ => rfl, rfl⟩
  | process j fs =>
    obtain ⟨fd, code, x, p, hj, -, hend, -, rfl⟩ := step_process_contained h hin
    have hc := nothingPending_running (hph fd) hj
    have hkept : x.1.sockfd = (s.users fd).sockfd ∧ x.2.userCount = s.userCount := by
      cases hend with
      | waits => exact ⟨rfl, (modfd_shared _ _ _).2⟩
      | answers hq hw => exact ⟨(processWrite_kept _ _).sockfd.trans hq.sockfd, (modfd_shared _ _ _).2⟩
      | refuses hq hw =>
        rw [(processWrite_spec hq.answered (hq.writeIndex.trans hc.1)).1] at hw
        cases hw
    refine ⟨fun g => ?_, hkept.2⟩
    by_cases hg : g = fd
    · subst hg
      rw [← hkept.1]
      exact congrArg _ (Function.update_self _ _ _)
    · exact congrArg _ (Function.update_of_ne hg _ _)

/-- **The phases of a connection.** In every state of every run in which the file responses are shorter than 2^31 and no
request announces a negative length: descriptors are armed for EPOLLOUT only while a response is pending and for EPOLLIN
only while none is. So a worker that gets to `processWrite` has an empty write buffer and one of four codes, and
`processWrite` returns true; and no step of a worker changes a `sockfd` or `userCount`. -/
theorem phases
    (hin : Run.Along (Server.step maxRequests) (fun s op => lengthsInside s op = true) (State.start users) ops)
    (hfit : Run.Along (Server.step maxRequests) (fun s op => fileFits s op = true) (State.start users) ops)
    (h : Run.exec (Server.step maxRequests) (State.start users) ops = some s) :
    (∀ fd, (s.epoll fd = .armed .epollOut → ResponsePending (s.users fd)) ∧
      (s.epoll fd = .armed .epollIn → NothingPending (s.users fd))) ∧
    (∀ j fd fs code c e, s.pool.workers j = .running fd → processRead fs (s.users fd) (s.env fd) = some (code, c, e) →
      code ≠ .noRequest → code ≠ .undefined → c.writeIndex = 0 ∧ c.bytesHaveSend = 0 ∧
        code ∈ [HttpCode.badRequest, .noResource, .forbiddenRequest, .fileRequest] ∧ (processWrite code c).1 = true) ∧
    (∀ op s', op.isWorker = true → lengthsInside s op = true → Server.step maxRequests s op = some s' →
      (∀ fd, (s'.users fd).sockfd = (s.users fd).sockfd) ∧ s'.userCount = s.userCount) := by
  obtain ⟨hreads, hph⟩ := run_phase hin hfit h
  refine ⟨fun fd => ⟨fun hi => hph fd .epollOut (Or.inl hi), fun hi => hph fd .epollIn (Or.inl hi)⟩, ?_, ?_⟩
  · intro j fd fs code c e hj hr hcode hdef
    exact processWrite_running (nothingPending_running (hph fd) hj) hr hcode hdef
  · exact fun op s' hop hlen hst => step_worker hph hop (hreads.contained hlen) hst

end Runs

/-- a client sends a request, which the only worker answers -/
def requestOps (fs : FileSystem) : List (Op Unit) := parseOps (ascii "GET / HTTP/1.1\r\n\r\n") ++ [.process () fs]

/-- the response is sent in part -/
def answeredOps : List (Op Unit) := requestOps (plainFiles 10) ++
  [.epollWait [.client 5 writable], .handle ⟨none, [], [.sent 20, .eagain]⟩]

def answeredRun : Option (State Unit) := Run.exec (Server.step 1) (State.start fun _ => Conn.blank) answeredOps

theorem answeredRun_isSome : answeredRun.isSome = true := by decide +kernel

theorem phases_answeredRun : ResponsePending ((answeredRun.get answeredRun_isSome).users 5) :=
  ((phases (by decide +kernel) (by decide +kernel) (Option.some_get answeredRun_isSome).symm).1 5).1 (by decide +kernel)

/-- a request whose body starts at 49, so that its zero goes to the first byte of its own object -/
def overwritingRun : Option (State Unit) := Run.exec (Server.step 1) (State.start fun _ => Conn.blank)
  (parseOps (ascii "GET /index.html HTTP/1.1\r\nContent-Length: -69\r\n\r\n"))

theorem overwritingRun_isSome : overwritingRun.isSome = true := by decide +kernel

/-- **A negative length.** A step of a worker changes the descriptor in its object. -/
theorem worker_overwrites : ((overwritingRun.get overwritingRun_isSome).users 5).sockfd = 5 ∧
    (Server.step 1 (overwritingRun.get overwritingRun_isSome) (.process () (plainFiles 10))).map
      (fun s => (s.users 5).sockfd) = some 0 := by
  decide +kernel

end WebServer.Server
