/-
The responses of the server.

What `processWrite` puts into `writeBuffer` in a worker is read by the main thread, possibly much later and over several
calls of `write`.

- `Emptied`: a connection to be read or parsed has an empty write buffer, so a worker generates a complete response.
- `Outgoing`: until it is sent or given up, the response is in `writeBuffer`, and the counters count the bytes that
  `writev` has taken of it.
- `responses`: in every run without negative lengths, what a worker generates is a complete response with consistent
  lengths; and after the call of `write` in which `writev` takes the last byte of it, the connection is open if and only if
  the `Connection` line of the response says keep-alive.
- `response_closed`: with a negative length, a client takes the keep-alive mark out of the object of another one.
-/
import WebServer.HttpConn.ResponseText
import WebServer.Server.Phase

namespace WebServer.Server

open WebServer.HttpConn WebServer.ThreadPool

/-! ## Before the response -/

/-- a connection to be read or parsed has nothing in its write buffer -/
def Emptied (v : Slot) : Prop := v.WaitsFor .epollIn → v.conn.writeIndex = 0 ∧ v.conn.bytesHaveSend = 0

theorem Emptied.step {fd : ℤ} {v v' : Slot} {act : Act} (hown : Own fd v) (h : Emptied v)
    (hstep : SlotStep fd v act v') : Emptied v' := by
  intro hi
  have horigin := hstep.origin hown hi
  generalize v'.conn = c', v'.log = log at horigin ⊢
  cases horigin with
  | same hw => exact h hw
  | reset c log => exact ⟨rfl, rfl⟩
  | received hp hw => exact h hw
  | parsed hw => exact h hw

/-! ## Until it is sent -/

/-- of the response that `process` has left in `c`, the bytes that the calls `l` took are sent -/
structure Outgoing (c : Conn) (l : List Call) (d : Conn) : Prop where
  written : d.written = c.written
  linger : d.linger = c.linger
  sent : taken l ≤ c.bytesToSend →
    taken l < c.bytesToSend ∧ d.bytesHaveSend = taken l ∧ d.bytesToSend = c.bytesToSend - taken l

/-- the slot since the response was generated, when its calls were `log` -/
structure Since (c : Conn) (log : List Call) (v : Slot) : Prop where
  log_prefix : log <+: v.log
  outgoing : v.WaitsFor .epollOut → Outgoing c (v.log.drop log.length) v.conn

theorem SlotStep.log_prefix {fd : ℤ} {v v' : Slot} {act : Act} (hstep : SlotStep fd v act v') : v.log <+: v'.log := by
  cases hstep with
  | deliver | accept | enqueue | drop | sendIdle | ignore | waits => exact List.prefix_refl _
  | hangup | readClose | sendBlocked | sendKept | answers => exact List.prefix_append _ _
  | sendClose | refuses => exact (List.prefix_append _ _).trans (List.prefix_append _ _)

theorem Since.drop_append {c : Conn} {log : List Call} {v : Slot} (h : Since c log v) (l : List Call) :
    (v.log ++ l).drop log.length = v.log.drop log.length ++ l :=
  List.drop_append_of_le_length h.log_prefix.length_le

/-- more `writev` calls for the response -/
theorem Outgoing.sends {c d d' : Conn} {l m : List Call} (h : Outgoing c l d) (hlt : c.bytesToSend < 2 ^ 31)
    (hs : Sends d d' m) (hle : taken (l ++ m) ≤ c.bytesToSend) :
    d'.bytesHaveSend = taken (l ++ m) ∧ d'.bytesToSend = c.bytesToSend - taken (l ++ m) ∧
      d.bytesToSend = c.bytesToSend - taken l := by
  rw [taken_append] at hle ⊢
  push_cast at hle ⊢
  obtain ⟨-, h1, h2⟩ := h.sent (by omega)
  obtain ⟨h3, h4⟩ := hs.counters (by omega) (by omega) (by omega)
  exact ⟨by omega, by omega, h2⟩

theorem Since.step {fd : ℤ} {v v' : Slot} {act : Act} {c : Conn} {log : List Call} (hown : Own fd v)
    (h : Since c log v) (hlt : c.bytesToSend < 2 ^ 31) (hstep : SlotStep fd v act v')
    (hact : ∀ code, act ≠ .process code) : Since c log v' := by
  refine ⟨h.log_prefix.trans hstep.log_prefix, fun hi => ?_⟩
  have horigin := hstep.origin hown hi
  generalize v'.conn = c', v'.log = log' at horigin ⊢
  cases horigin with
  | same hw => exact h.outgoing hw
  | @sent d l hw hs hb =>
    have hout := h.outgoing hw
    rw [h.drop_append]
    refine ⟨?_, (congrArg ReadSide.linger hs.readSide).trans hout.linger, fun hle => ?_⟩
    · rw [← hout.written, Conn.written, Conn.written, hs.writeBuffer, hs.writeIndex]
    · obtain ⟨h1, h2, h3⟩ := hout.sends hlt hs hle
      refine ⟨?_, h1, h2⟩
      -- the loop goes on only while something is left
      rw [taken_append] at hle h2 ⊢
      push_cast at hle h2 ⊢
      obtain ⟨h4, -⟩ := hout.sent (by omega)
      omega
  | @answered code => exact absurd rfl (hact code)

/-- **The step in which the last byte is taken.** -/
theorem Since.last {fd : ℤ} {v v' : Slot} {act : Act} {c : Conn} {log : List Call} (hown : Own fd v)
    (h : Since c log v) (hlt : c.bytesToSend < 2 ^ 31) (hstep : SlotStep fd v act v')
    (hact : ∀ code, act ≠ .process code) (hbefore : taken (v.log.drop log.length) < c.bytesToSend)
    (hafter : taken (v'.log.drop log.length) = c.bytesToSend) :
    v.conn.written = c.written ∧ (v'.opened = true ↔ c.linger = true) := by
  have hmore : ∀ {l}, v'.log = v.log ++ l → taken (v'.log.drop log.length) = taken (v.log.drop log.length) + taken l :=
    fun heq => by rw [heq, h.drop_append, taken_append]
  have hsame : taken (v'.log.drop log.length) ≠ taken (v.log.drop log.length) := by omega
  have hwaits : ∀ {ev rest}, v.pending = ev :: rest → ev.epollOut = true →
      Outgoing c (v.log.drop log.length) v.conn := fun hp hev =>
    h.outgoing (Or.inr ⟨_, hp ▸ List.mem_cons_self, hev⟩)
  -- after an EAGAIN or another error something is left
  have hleft : ∀ {d l}, Outgoing c (v.log.drop log.length) v.conn → Sends v.conn d l →
      taken (v'.log.drop log.length) = taken (v.log.drop log.length) + taken l →
      (d.bytesToSend = v.conn.bytesToSend ∨ 0 < d.bytesToSend) → False := by
    intro d l hout hs htaken hb
    rw [htaken] at hafter
    push_cast at hafter
    have hle : (taken (v.log.drop log.length ++ l) : ℤ) ≤ c.bytesToSend := by
      rw [taken_append]
      push_cast
      omega
    obtain ⟨-, h2, h3⟩ := hout.sends hlt hs hle
    rw [taken_append] at h2
    push_cast at h2
    omega
  cases hstep with
  | deliver | accept | enqueue | drop | sendIdle | ignore => exact absurd rfl hsame
  | hangup | readClose => exact absurd (hmore rfl) (by simpa [taken] using hsame)
  | sendBlocked hp hev hs hb => exact (hleft (hwaits hp hev) hs (hmore rfl) hb).elim
  | sendKept hp hev hs hl =>
    have hout := hwaits hp hev
    refine ⟨hout.written, fun _ => hout.linger ▸ hl, fun _ => (hown.delivered hp).2.2.2.1⟩
  | @sendClose ev rest d l hp hev hs hl =>
    have hout := hwaits hp hev
    refine ⟨hout.written, fun ho => absurd ho Bool.false_ne_true, fun hc => ?_⟩
    rcases hl with hl | hb
    · rw [hout.linger, hc] at hl
      cases hl
    · have hlog : (v.log ++ (l ++ d.munmaps)) ++ [.close fd] = v.log ++ (l ++ (d.munmaps ++ [.close fd])) := by
        simp only [List.append_assoc]
      have htaken := hmore hlog
      rw [taken_append l, taken_append, taken_munmaps] at htaken
      exact (hleft hout hs htaken hb).elim
  | waits => exact absurd rfl (hact _)
  | answers => exact absurd rfl (hact _)
  | refuses => exact absurd rfl (hact _)

/-- what `process` leaves when it answers on an empty write buffer -/
theorem process_response {fs : FileSystem} {c c' : Conn} {e e' : Env} {code : HttpCode}
    (h : ProcessEnd fs c e (code, c', e')) (hempty : c.writeIndex = 0) (hnone : c.bytesHaveSend = 0)
    (hcode : code ≠ .noRequest) (hfit : code = .fileRequest → c'.writeIndex + c'.fileStat.stSize < 2 ^ 31) :
    Response code c' ∧ c'.bytesHaveSend = 0 ∧ c'.bytesToSend < 2 ^ 31 := by
  cases h with
  | waits => exact absurd rfl hcode
  | answers hq hw =>
    obtain ⟨-, hp⟩ := processWrite_spec hq.answered (hq.writeIndex.trans hempty)
    refine ⟨processWrite_response hq.answered (hq.writeIndex.trans hempty) fun hfile => ?_, ?_, ?_⟩
    · rw [← hp.kept.fileStat]
      exact hfit hfile
    · exact hp.kept.bytesHaveSend.trans (hq.bytesHaveSend.trans hnone)
    · by_cases hfile : code = .fileRequest
      · rw [(hp.file hfile).2.2]
        exact (int32_spec _).2.1
      · have hindex := hp.index_lt
        have hsize : writeBufferSize = 2048 := rfl
        rw [(hp.error hfile).2]
        omega
  | refuses hq hw =>
    rw [(processWrite_spec hq.answered (hq.writeIndex.trans hempty)).1] at hw
    cases hw

/-! ## Runs -/

section Runs

variable {κ : Type*} [DecidableEq κ]

/-- the operation is `users[fd].process()` -/
def processes (fd : ℤ) (s : State κ) : Op κ → Bool
  | .process j _ => s.pool.workers j = .running fd
  | _ => false

/-- the bytes that `writev` took for `fd` from one state to a later one -/
def bytesTaken (s t : State κ) (fd : ℤ) : ℕ := taken ((t.logs fd).drop (s.logs fd).length)

variable [Fintype κ] {maxRequests : ℕ} {users : ℤ → Conn} {ops : List (Op κ)} {s s' : State κ}

/-- the invariant of the server, with the requests and the write buffers of its slots -/
structure Serving (s : State κ) : Prop extends Reads s where
  emptied : ∀ fd, Emptied (s.slot fd)

theorem Serving.step {op : Op κ} (h : Serving s) (hop : lengthsInside s op = true)
    (hst : Server.step maxRequests s op = some s') : Serving s' :=
  ⟨h.toReads.step hop hst, slots_step (P := fun _ => Emptied) h.inv (h.contained hop) hst
    (fun fd _ _ hstep => (h.emptied fd).step (h.inv.slots fd) hstep) h.emptied⟩

theorem run_serving
    (hin : Run.Along (Server.step maxRequests) (fun s op => lengthsInside s op = true) (State.start users) ops)
    (h : Run.exec (Server.step maxRequests) (State.start users) ops = some s) : Serving s := by
  refine Run.exec_inv_along (fun _ _ _ hs hop hst => hs.step hop hst) ⟨reads_start users, fun fd hw => ?_⟩ hin h
  rw [slot_start] at hw
  simp [Slot.WaitsFor] at hw

omit [DecidableEq κ] in
/-- a worker has a connection with an empty write buffer -/
theorem Serving.empty {j : κ} {fd : ℤ} (h : Serving s) (hj : s.pool.workers j = .running fd) :
    (s.users fd).writeIndex = 0 ∧ (s.users fd).bytesHaveSend = 0 :=
  h.emptied fd (Or.inr (Or.inr (ownersOf_running hj)))

omit [Fintype κ] [DecidableEq κ] in
theorem not_process {op : Op κ} {fd : ℤ} {act : Act} (hop : processes fd s op = false)
    (hcause : Cause maxRequests s op fd act) (code : HttpCode) : act ≠ .process code := by
  rintro rfl
  obtain ⟨j, fs, x, rfl, hj, -⟩ := hcause
  simp [processes, hj] at hop

/-- the response on its way -/
theorem run_since {fd : ℤ} {c : Conn} {log : List Call} {ops : List (Op κ)} {s t : State κ} (hr : Reads s)
    (hs : Since c log (s.slot fd)) (hlt : c.bytesToSend < 2 ^ 31)
    (hok : Run.Along (Server.step maxRequests) (fun s op => lengthsInside s op = true ∧ processes fd s op = false) s ops)
    (h : Run.exec (Server.step maxRequests) s ops = some t) : Reads t ∧ Since c log (t.slot fd) := by
  refine Run.exec_inv_along (I := fun s : State κ => Reads s ∧ Since c log (s.slot fd)) ?_ ⟨hr, hs⟩ hok h
  rintro s op t ⟨hr, hs⟩ ⟨hop, hproc⟩ hst
  refine ⟨hr.step hop hst, ?_⟩
  rcases step_slot hr.inv.slots (hr.contained hop) hst fd with heq | ⟨act, hact, hcause⟩
  · exact heq ▸ hs
  · exact hs.step (hr.inv.slots fd) hlt hact (not_process hproc hcause)

/-- **The responses of the server.** In every state of every run without negative lengths, for every worker in `process`:
what it generates, for a file whose response is shorter than 2^31, is a complete response with consistent lengths. And
when, before the next `process` of the connection, the main thread has `writev` take the last byte of it, the text it sends
from is that of the response, and the connection is open afterwards if and only if the `Connection` line of that text says
keep-alive. -/
theorem responses
    (hin : Run.Along (Server.step maxRequests) (fun s op => lengthsInside s op = true) (State.start users) ops)
    (h : Run.exec (Server.step maxRequests) (State.start users) ops = some s) {j : κ} {fd : ℤ} {fs : FileSystem}
    {code : HttpCode} {c : Conn} {e : Env} (hj : s.pool.workers j = .running fd)
    (hproc : HttpConn.process fs (s.users fd) (s.env fd) = some (code, c, e)) (hcode : code ≠ .noRequest)
    (hdef : code ≠ .undefined) (hfit : code = .fileRequest → c.writeIndex + c.fileStat.stSize < 2 ^ 31) :
    Response code c ∧
    ∀ s₁ ops' s₂ a s₃, lengthsInside s (.process j fs) = true → Server.step maxRequests s (.process j fs) = some s₁ →
      Run.Along (Server.step maxRequests) (fun s op => lengthsInside s op = true ∧ processes fd s op = false) s₁ ops' →
      Run.exec (Server.step maxRequests) s₁ ops' = some s₂ → Server.step maxRequests s₂ (.handle a) = some s₃ →
      bytesTaken s₁ s₂ fd < (responseHead code (bodyLength code c) c.linger).length + bodyLength code c →
      bytesTaken s₁ s₃ fd = (responseHead code (bodyLength code c) c.linger).length + bodyLength code c →
      (s₂.users fd).written = c.written ∧ (fd ∈ s₃.opened ↔ c.linger = true) := by
  have hserving := run_serving hin h
  have hr := hserving.toReads
  obtain ⟨hempty, hnone⟩ := hserving.empty hj
  obtain ⟨g, hend, -⟩ := process_end hproc hdef
  obtain ⟨hresponse, hzero, hlt⟩ := process_response hend hempty hnone hcode hfit
  refine ⟨hresponse, fun s₁ ops' s₂ a s₃ hop hst hok hrun hlast hbefore hafter => ?_⟩
  have hwhole := hresponse.whole
  have hpos : (0 : ℤ) < c.bytesToSend := by omega
  have hslot : (s₁.slot fd).conn = c := users_process rfl hj hproc (hr.contained hop) hst
  have hstart : Since c (s₁.logs fd) (s₁.slot fd) := by
    refine ⟨List.prefix_refl _, fun _ => ?_⟩
    rw [hslot, show (s₁.slot fd).log = s₁.logs fd from rfl, List.drop_length]
    exact ⟨rfl, rfl, fun _ => ⟨hpos, hzero, (sub_zero _).symm⟩⟩
  obtain ⟨hr₂, hsince⟩ := run_since (hr.step hop hst) hstart hlt hok hrun
  replace hbefore : bytesTaken s₁ s₂ fd < c.bytesToSend := by omega
  replace hafter : bytesTaken s₁ s₃ fd = c.bytesToSend := by omega
  have hin₂ : contained s₂ (.handle a) := hr₂.contained rfl
  rcases step_slot hr₂.inv.slots hin₂ hlast fd with heq | ⟨act, hact, hcause⟩
  · have hlogs : s₃.logs fd = s₂.logs fd := congrArg Slot.log heq
    unfold bytesTaken at hbefore hafter
    rw [hlogs] at hafter
    omega
  · obtain ⟨hwritten, hiff⟩ := hsince.last (hr₂.inv.slots fd) hlt hact (not_process (by rfl) hcause) hbefore hafter
    refine ⟨hwritten, ?_⟩
    rw [← hiff]
    exact (decide_eq_true_iff (p := fd ∈ s₃.opened)).symm

end Runs

/-- a client asks for a file and for the connection to be kept -/
def keptOps : List (Op Unit) := parseOps (ascii "GET / HTTP/1.1\r\nConnection: keep-alive\r\n\r\n")

def keptRun : Option (State Unit) := Run.exec (Server.step 1) (State.start fun _ => Conn.blank) keptOps

theorem keptRun_isSome : keptRun.isSome = true := by decide +kernel

/-- the response to it -/
def keptAnswer : Option (HttpCode × Conn × Env) :=
  HttpConn.process (plainFiles 10) ((keptRun.get keptRun_isSome).users 5) ((keptRun.get keptRun_isSome).env 5)

theorem keptAnswer_isSome : keptAnswer.isSome = true := by decide +kernel

def keptResponse : Option (State Unit) :=
  Server.step 1 (keptRun.get keptRun_isSome) (.process () (plainFiles 10))

theorem keptResponse_isSome : keptResponse.isSome = true := by decide +kernel

/-- the first 20 of its 97 bytes are sent -/
def startedOps : List (Op Unit) :=
  [.epollWait [.client 5 writable], .handle ⟨none, [], [.sent 20, .eagain]⟩, .epollWait [.client 5 writable]]

def startedRun : Option (State Unit) := Run.exec (Server.step 1) (keptResponse.get keptResponse_isSome) startedOps

theorem startedRun_isSome : startedRun.isSome = true := by decide +kernel

/-- and then the rest -/
def sentRun : Option (State Unit) :=
  Server.step 1 (startedRun.get startedRun_isSome) (.handle ⟨none, [], [.sent 77]⟩)

theorem sentRun_isSome : sentRun.isSome = true := by decide +kernel

theorem responses_sentRun : Response (keptAnswer.get keptAnswer_isSome).1 (keptAnswer.get keptAnswer_isSome).2.1 ∧
    5 ∈ (sentRun.get sentRun_isSome).opened := by
  have hj : (keptRun.get keptRun_isSome).pool.workers () = .running 5 := by decide +kernel
  obtain ⟨hresponse, hlast⟩ := responses (by decide +kernel) (Option.some_get keptRun_isSome).symm hj
    (Option.some_get keptAnswer_isSome).symm (by decide +kernel) (by decide +kernel) (by decide +kernel)
  have hkept := hlast (keptResponse.get keptResponse_isSome) startedOps (startedRun.get startedRun_isSome)
    ⟨none, [], [.sent 77]⟩ (sentRun.get sentRun_isSome) (by decide +kernel) (Option.some_get keptResponse_isSome).symm
    (by decide +kernel) (Option.some_get startedRun_isSome).symm (Option.some_get sentRun_isSome).symm
    (by decide +kernel) (by decide +kernel)
  exact ⟨hresponse, hkept.2.2 (by decide +kernel)⟩

/-- while that response waits, another client sends a request whose body starts at 42: its zero goes to `linger` of the
object before its own -/
def lingerRun : Option (State Unit) := Run.exec (Server.step 1) (State.start fun _ => Conn.blank)
  (keptOps ++ [.process () (plainFiles 10)] ++ connect 6 ++ [.epollWait [.client 6 readable],
    .handle ⟨none, [.data (ascii "GET / HTTP/1.1\r\nContent-Length: -02322\r\n\r\n"), .eagain], []⟩, .post, .wait (),
    .run (), .process () (plainFiles 10), .epollWait [.client 5 writable]])

theorem lingerRun_isSome : lingerRun.isSome = true := by decide +kernel

def lingerSent : Option (State Unit) :=
  Server.step 1 (lingerRun.get lingerRun_isSome) (.handle ⟨none, [], [.sent 97]⟩)

theorem lingerSent_isSome : lingerSent.isSome = true := by decide +kernel

/-- **A negative length.** The response says keep-alive, all 97 bytes of it are sent, and the connection is closed. -/
theorem response_closed :
    ((lingerRun.get lingerRun_isSome).users 5).written = responseHead .fileRequest 10 true ∧
    bytesTaken (lingerRun.get lingerRun_isSome) (lingerSent.get lingerSent_isSome) 5 =
      (responseHead .fileRequest 10 true).length + 10 ∧
    5 ∈ (lingerRun.get lingerRun_isSome).opened ∧ 5 ∉ (lingerSent.get lingerSent_isSome).opened := by
  decide +kernel

end WebServer.Server
