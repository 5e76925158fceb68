/-
The echo servers on epoll: lesson35/epoll.c, lesson36/epoll_lt.c, lesson36/epoll_et.c and the programs of the same names
in the example directories.

They share one loop: wait for events, then deal with them one after the other, accepting a client or reading from one. They
differ in the trigger, in the size of a read, in whether the sockets block and the reads are repeated, in what is written
back, and in whether a client that has closed is closed. A server is given by these choices (`Config`).

- `Answered`: what a client has got back, chunk by chunk, for what was read from it.
- `Inv`: in every run, every client has got the answers to what was read from it, and no readable client is forgotten.
- `server_quiet`: where such a server blocks in `epoll_wait`, it has read and answered all that its clients have sent.
- `server_closed`: a client that such a server closes has closed before, and has been read and answered to the end.
-/
import WebServer.Core.Epoll
import WebServer.Core.Run
import WebServer.Core.Scan
import WebServer.Lesson33.Echo

namespace WebServer.Lesson36

/-! ## Model -/

structure Config where
  /-- with or without EPOLLET -/
  trigger : Trigger
  /-- O_NONBLOCK is set on the clients' sockets -/
  nonblocking : Bool
  /-- `while` around `read` -/
  loops : Bool
  /-- the third argument of `read` -/
  size : ℕ
  size_pos : 0 < size
  /-- what is written for a chunk; `none` where `strlen` leaves the array -/
  answer : Bytes → Option Bytes
  answer_le : ∀ q r, q.length ≤ size → answer q = some r → r.length ≤ size
  /-- a client at its end is removed and closed -/
  closes : Bool

/-- an event: of the listening socket, or of a client -/
inductive Target where
  | listener
  | client (fd : ℕ)
deriving DecidableEq, Repr

inductive Pc where
  /-- in `epoll_wait` -/
  | waiting
  /-- at the event `t`, with `rest` to follow -/
  | serving (t : Target) (rest : List Target)
  /-- `exit(-1)` -/
  | exited
  /-- a read outside the array -/
  | overrun
deriving DecidableEq, Repr

structure Server where
  epoll : Epoll ℕ
  /-- connections that wait for `accept` -/
  backlog : ℕ
  pc : Pc

inductive Op where
  /-- a client connects -/
  | connect
  | send (fd : ℕ) (bytes : Bytes)
  /-- a client closes its end -/
  | shut (fd : ℕ)
  /-- `epoll_wait` returns these events -/
  | wait (batch : List Target)
  /-- `accept` returns a descriptor, with what has arrived there already, or -1 -/
  | accept (r : Option (ℕ × Bytes × Bool))
  /-- `read`, and a `write` that takes at most `w` bytes -/
  | read (w : ℕ)
  /-- `epoll_wait` or `read` returns -1, not for EAGAIN -/
  | fail
deriving DecidableEq

/-- the next event of the batch -/
def next : List Target → Pc
  | [] => .waiting
  | t :: rest => .serving t rest

def Target.fd? : Target → Option ℕ
  | .listener => none
  | .client fd => some fd

def Server.reportable (s : Server) : Target → Bool
  | .listener => decide (s.backlog ≠ 0)
  | .client fd => (s.epoll.interest fd).isSome && s.epoll.reportable fd

def Server.connected (s : Server) (fd : ℕ) : Bool := (s.epoll.interest fd).isSome

/-- the branch of the loop for a client: `read` and what follows it -/
def serve (cfg : Config) (s : Server) (fd : ℕ) (rest : List Target) (w : ℕ) : Option Server :=
  let k := s.epoll.sock fd
  if k.unread ≠ [] then
    let chunk := k.unread.take cfg.size
    match cfg.answer chunk with
    | none => some { s with pc := .overrun }
    | some bytes =>
      some { s with
        epoll := s.epoll.set fd (k.answer chunk.length (bytes.take w))
        pc := if cfg.loops then s.pc else next rest }
  else if k.eof then
    some { s with epoll := if cfg.closes then s.epoll.del fd else s.epoll, pc := next rest }
  else if cfg.nonblocking then some { s with pc := next rest }
  -- the call blocks
  else none

def step (cfg : Config) (s : Server) : Op → Option Server
  | .connect => some { s with backlog := s.backlog + 1 }
  | .send fd bytes =>
    if s.connected fd ∧ (s.epoll.sock fd).eof = false then some { s with epoll := s.epoll.arrive fd bytes } else none
  | .shut fd => if s.connected fd then some { s with epoll := s.epoll.hangup fd } else none
  | .wait batch =>
    match s.pc, batch with
    | .waiting, t :: rest =>
      if (t :: rest).Nodup ∧ (∀ u ∈ t :: rest, s.reportable u = true) ∧ (t :: rest).length ≤ 1024 then
        some { s with epoll := s.epoll.report ((t :: rest).filterMap Target.fd?), pc := .serving t rest }
      else none
    | _, _ => none
  | .accept r =>
    match s.pc, r with
    | .serving .listener rest, none => some { s with pc := next rest }
    | .serving .listener rest, some (fd, bytes, eof) =>
      if s.backlog ≠ 0 ∧ s.connected fd = false then
        some { epoll := (s.epoll.set fd ⟨bytes, 0, eof, []⟩).add fd cfg.trigger, backlog := s.backlog - 1, pc := next rest }
      else none
    | _, _ => none
  | .read w =>
    match s.pc with
    | .serving (.client fd) rest => serve cfg s fd rest w
    | _ => none
  | .fail =>
    match s.pc with
    | .waiting => some { s with pc := .exited }
    | .serving (.client _) _ => some { s with pc := .exited }
    | _ => none

def start : Server := ⟨⟨fun _ => ⟨[], 0, false, []⟩, fun _ => none, fun _ => false⟩, 0, .waiting⟩

/-! ## Which operations are possible where -/

section Steps

variable {cfg : Config} {s t : Server}

theorem step_wait {batch : List Target} (h : step cfg s (.wait batch) = some t) :
    s.pc = .waiting ∧ ∃ u rest, batch = u :: rest ∧ (u :: rest).Nodup ∧ (∀ v ∈ u :: rest, s.reportable v = true) ∧
      t = { s with epoll := s.epoll.report ((u :: rest).filterMap Target.fd?), pc := .serving u rest } := by
  simp only [step] at h
  split at h
  · rename_i u rest hpc
    split_ifs at h with hb
    exact ⟨hpc, u, rest, rfl, hb.1, hb.2.1, (Option.some.inj h).symm⟩
  · cases h

theorem step_accept {r : Option (ℕ × Bytes × Bool)} (h : step cfg s (.accept r) = some t) :
    ∃ rest, s.pc = .serving .listener rest ∧ (t = { s with pc := next rest } ∨
      ∃ fd bytes eof, s.connected fd = false ∧
        t = ⟨(s.epoll.set fd ⟨bytes, 0, eof, []⟩).add fd cfg.trigger, s.backlog - 1, next rest⟩) := by
  simp only [step] at h
  split at h
  · rename_i rest hpc
    exact ⟨rest, hpc, Or.inl (Option.some.inj h).symm⟩
  · rename_i rest fd bytes eof hpc
    split_ifs at h with hc
    exact ⟨rest, hpc, Or.inr ⟨fd, bytes, eof, hc.2, (Option.some.inj h).symm⟩⟩
  · cases h

theorem step_read {w : ℕ} (h : step cfg s (.read w) = some t) :
    ∃ fd rest, s.pc = .serving (.client fd) rest ∧ serve cfg s fd rest w = some t := by
  simp only [step] at h
  split at h
  · rename_i fd rest hpc
    exact ⟨fd, rest, hpc, h⟩
  · cases h

theorem step_fail (h : step cfg s .fail = some t) : t = { s with pc := .exited } := by
  simp only [step] at h
  split at h
  · exact (Option.some.inj h).symm
  · exact (Option.some.inj h).symm
  · cases h

end Steps

/-! ## The programs -/

/-- `write(fd, recvBuf, strlen(recvBuf)+1)` for an array of `size` bytes that was cleared before the `read` -/
def terminated (size : ℕ) (chunk : Bytes) : Option Bytes :=
  Lesson33.reply (chunk ++ List.replicate (size - chunk.length) nul)

theorem terminated_le {size : ℕ} (q r : Bytes) (hq : q.length ≤ size) (h : terminated size q = some r) :
    r.length ≤ size := by
  obtain ⟨len, -, rfl⟩ := Option.map_eq_some_iff.1 h
  refine (List.length_take_le' _ _).trans ?_
  rw [List.length_append, List.length_replicate]
  omega

/-- a read into a whole array that was cleared, and its string written back -/
def levelServer (size : ℕ) (hsize : 0 < size) : Config where
  trigger := .level
  nonblocking := false
  loops := false
  size := size
  size_pos := hsize
  answer := terminated size
  answer_le := terminated_le
  closes := true

/-- reads of five bytes until there is nothing more, each written back -/
def edgeServer (nonblocking closes : Bool) : Config where
  trigger := .edge
  nonblocking := nonblocking
  loops := true
  size := 5
  size_pos := by decide
  answer := some
  answer_le := fun _ _ hq h => Option.some.inj h ▸ hq
  closes := closes

/-- lesson35/epoll.c and lesson35/example/epoll.c -/
def epoll : Config := levelServer 1024 (by decide)

/-- lesson36/epoll_lt.c and lesson36/example/epoll_lt.c -/
def epollLt : Config := levelServer 5 (by decide)

/-- lesson36/epoll_et.c -/
def epollEt : Config := edgeServer true true

/-- lesson36/example/epoll_et.c: `flag | O_NONBLOCK;` leaves `flag` as it is, and a client at its end is only mentioned -/
def exampleEt : Config := edgeServer false false

/-! ## Invariant -/

/-- `out` is what a server writes for the bytes `a`, read in chunks -/
inductive Answered (cfg : Config) : Bytes → Bytes → Prop where
  | nil : Answered cfg [] []
  | chunk {a out q r : Bytes} (h : Answered cfg a out) (hne : q ≠ []) (hsize : q.length ≤ cfg.size)
      (hr : cfg.answer q = some r) : Answered cfg (a ++ q) (out ++ r)

/-- a client's socket: what was read is there, and is answered if all writes of the run were `whole` -/
structure Client (cfg : Config) (whole : Prop) (k : Sock) : Prop where
  taken : k.taken ≤ k.arrived.length
  answered : whole → Answered cfg (k.arrived.take k.taken) k.outbox

def Server.pending (s : Server) : List Target :=
  match s.pc with
  | .serving t rest => t :: rest
  | _ => []

def Server.running (s : Server) : Bool :=
  match s.pc with
  | .waiting => true
  | .serving _ _ => true
  | _ => false

structure Inv (cfg : Config) (whole : Prop) (s : Server) : Prop where
  trigger : ∀ fd tr, s.epoll.interest fd = some tr → tr = cfg.trigger
  client : ∀ fd, s.connected fd = true → Client cfg whole (s.epoll.sock fd)
  /-- the events left are of different sockets, which are open -/
  batch : s.pending.Nodup ∧ ∀ fd, .client fd ∈ s.pending → s.connected fd = true
  /-- no event is lost: for a level, every readable client is on the ready list; for edges, it may be in the batch -/
  watched : s.running = true → s.epoll.Watched fun fd => cfg.trigger = .edge ∧ .client fd ∈ s.pending

theorem inv_start (cfg : Config) (whole : Prop) : Inv cfg whole start where
  trigger := fun fd tr h => by cases h
  client := fun fd h => by cases h
  batch := ⟨List.nodup_nil, fun fd h => by cases h⟩
  watched := fun _ fd h => by cases h

variable {cfg : Config} {whole : Prop} {s t : Server}

theorem Client.arrive {k : Sock} (h : Client cfg whole k) (bytes : Bytes) :
    Client cfg whole { k with arrived := k.arrived ++ bytes } where
  taken := h.taken.trans (by simp)
  answered := by
    intro hwhole
    have hsame : (k.arrived ++ bytes).take k.taken = k.arrived.take k.taken := List.take_append_of_le_length h.taken
    have := h.answered hwhole
    rwa [← hsame] at this

theorem Client.answered_all {k : Sock} (h : Client cfg whole k) (hunread : k.unread = []) (hwhole : whole) :
    Answered cfg k.arrived k.outbox := by
  have hall : k.arrived.take k.taken = k.arrived := List.take_of_length_le (List.drop_eq_nil_iff.1 hunread)
  rw [← hall]
  exact h.answered hwhole

/-- the answer to the next chunk -/
theorem Client.answer {k : Sock} {r : Bytes} {w : ℕ} (h : Client cfg whole k) (hne : k.unread ≠ [])
    (hr : cfg.answer (k.unread.take cfg.size) = some r) (hw : whole → cfg.size ≤ w) :
    Client cfg whole (k.answer (k.unread.take cfg.size).length (r.take w)) where
  taken := by
    have h1 := h.taken
    simp only [Sock.answer, Sock.unread, List.length_take, List.length_drop]
    omega
  answered := by
    have hread : k.arrived.take (k.taken + (k.unread.take cfg.size).length) =
        k.arrived.take k.taken ++ k.unread.take cfg.size := by
      rw [List.take_add]
      exact congrArg (k.arrived.take k.taken ++ ·) (List.prefix_iff_eq_take.1 ( List.take_prefix _ _)).symm
    have hq : k.unread.take cfg.size ≠ [] := by
      rw [Ne, List.take_eq_nil_iff, not_or]
      exact ⟨cfg.size_pos.ne', hne⟩
    intro hwhole
    have hlen : r.length ≤ w := (cfg.answer_le _ r (List.length_take_le _ _) hr).trans (hw hwhole)
    change Answered cfg (k.arrived.take (k.taken + _)) (k.outbox ++ r.take w)
    rw [hread, List.take_of_length_le hlen]
    exact (h.answered hwhole).chunk hq (List.length_take_le _ _) hr

/-- something arrives at a client -/
theorem Inv.deliver (h : Inv cfg whole s) {fd : ℕ} {k : Sock} (hk : s.connected fd = true → Client cfg whole k) :
    Inv cfg whole { s with epoll := s.epoll.deliver fd k } where
  trigger := h.trigger
  client := by
    intro j hj
    by_cases hji : j = fd
    · subst hji
      have : (s.epoll.deliver j k).sock j = k := Function.update_self _ _ _
      rw [this]
      exact hk hj
    · have : (s.epoll.deliver fd k).sock j = s.epoll.sock j := Function.update_of_ne hji _ _
      rw [this]
      exact h.client j hj
  batch := h.batch
  watched := fun hrun => (h.watched hrun).deliver fd k

theorem pending_next (e : Epoll ℕ) (backlog : ℕ) (rest : List Target) :
    Server.pending ⟨e, backlog, next rest⟩ = rest := by
  cases rest <;> rfl

theorem Server.running_of_serving {u : Target} {rest : List Target} (h : s.pc = .serving u rest) :
    s.running = true ∧ s.pending = u :: rest := by
  unfold Server.running Server.pending
  rw [h]
  exact ⟨rfl, rfl⟩

/-- the process goes on to the next event of the batch -/
theorem Inv.advance (h : Inv cfg whole s) {u : Target} {rest : List Target} (hpc : s.pc = .serving u rest)
    (hdone : ∀ fd, u = .client fd → cfg.trigger = .edge → (s.epoll.sock fd).readable = false) :
    Inv cfg whole { s with pc := next rest } := by
  obtain ⟨hrun, hpend⟩ := Server.running_of_serving hpc
  have hb := h.batch
  rw [hpend] at hb
  refine ⟨h.trigger, h.client, ?_, fun _ => ?_⟩
  · rw [pending_next]
    exact ⟨hb.1.of_cons, fun fd hfd => hb.2 fd (List.mem_cons_of_mem _ hfd)⟩
  · rw [pending_next]
    refine (h.watched hrun).mono ?_
    rintro fd - hread ⟨hedge, hmem⟩
    rw [hpend, List.mem_cons] at hmem
    refine ⟨hedge, hmem.resolve_left fun hu => ?_⟩
    rw [hdone fd hu.symm hedge] at hread
    cases hread

/-- a new client under a free descriptor -/
theorem Inv.accept (h : Inv cfg whole s) {fd : ℕ} (hfree : s.connected fd = false) (bytes : Bytes) (eof : Bool) (backlog : ℕ)
    (hrun : s.running = true) :
    Inv cfg whole { s with epoll := (s.epoll.set fd ⟨bytes, 0, eof, []⟩).add fd cfg.trigger, backlog := backlog } := by
  have hnone : (s.epoll.interest fd).isSome = false := hfree
  have hadd : (s.epoll.set fd ⟨bytes, 0, eof, []⟩).add fd cfg.trigger =
      { sock := Function.update s.epoll.sock fd ⟨bytes, 0, eof, []⟩
        interest := Function.update s.epoll.interest fd (some cfg.trigger)
        ready := Function.update s.epoll.ready fd (Sock.readable ⟨bytes, 0, eof, []⟩) } := by
    simp [Epoll.add, Epoll.set, hnone]
  refine ⟨?_, ?_, ⟨h.batch.1, ?_⟩, fun _ => (h.watched hrun).accept hnone _ _⟩
  · intro j tr hj
    simp only [hadd] at hj
    by_cases hji : j = fd
    · rw [hji, Function.update_self] at hj
      exact (Option.some.inj hj).symm
    · rw [Function.update_of_ne hji] at hj
      exact h.trigger j tr hj
  · intro j hj
    simp only [Server.connected, hadd] at hj ⊢
    by_cases hji : j = fd
    · rw [hji, Function.update_self]
      exact ⟨Nat.zero_le _, fun _ => .nil⟩
    · rw [Function.update_of_ne hji] at hj ⊢
      exact h.client j hj
  · intro j hj
    have hconn : (s.epoll.interest j).isSome = true := h.batch.2 j hj
    have hji : j ≠ fd := by
      rintro rfl
      rw [hnone] at hconn
      cases hconn
    simp only [Server.connected, hadd, Function.update_of_ne hji]
    exact hconn

/-- a chunk is read and answered -/
theorem Inv.answer (h : Inv cfg whole s) {fd : ℕ} (hconn : s.connected fd = true) (hne : (s.epoll.sock fd).unread ≠ [])
    {r : Bytes} (hr : cfg.answer ((s.epoll.sock fd).unread.take cfg.size) = some r) {w : ℕ} (hw : whole → cfg.size ≤ w) :
    Inv cfg whole { s with
      epoll := s.epoll.set fd
        ((s.epoll.sock fd).answer ((s.epoll.sock fd).unread.take cfg.size).length (r.take w)) } where
  trigger := h.trigger
  client := by
    intro j hj
    by_cases hji : j = fd
    · subst hji
      have := (h.client j hconn).answer hne hr hw
      simpa [Epoll.set] using this
    · have := h.client j hj
      simpa [Epoll.set, Function.update_of_ne hji] using this
  batch := h.batch
  watched := fun hrun => (h.watched hrun).set Sock.readable_of_answer

/-- a client at its end is closed -/
theorem Inv.close (h : Inv cfg whole s) {fd : ℕ} {rest : List Target} (hpc : s.pc = .serving (.client fd) rest) :
    Inv cfg whole { s with epoll := s.epoll.del fd, pc := next rest } := by
  obtain ⟨hrun, hpend⟩ := Server.running_of_serving hpc
  have hb := h.batch
  rw [hpend] at hb
  have hother : ∀ j, j ≠ fd → (s.epoll.del fd).interest j = s.epoll.interest j :=
    fun j hj => Function.update_of_ne hj _ _
  have hfd : (s.epoll.del fd).interest fd = none := Function.update_self _ _ _
  have hne : ∀ j, ((s.epoll.del fd).interest j).isSome = true → j ≠ fd := by
    rintro j hj rfl
    rw [hfd] at hj
    cases hj
  constructor
  · intro j tr hj
    have hji := hne j (by rw [show (s.epoll.del fd).interest j = some tr from hj]; rfl)
    exact h.trigger j tr ((hother j hji).symm.trans hj)
  · intro j hj
    have hconn : (s.epoll.interest j).isSome = true := (congrArg Option.isSome (hother j (hne j hj))).symm.trans hj
    exact h.client j hconn
  · rw [pending_next]
    refine ⟨hb.1.of_cons, fun j hj => ?_⟩
    have hji : j ≠ fd := by
      rintro rfl
      exact (List.nodup_cons.1 hb.1).1 hj
    have hconn : (s.epoll.interest j).isSome = true := hb.2 j (List.mem_cons_of_mem _ hj)
    exact (congrArg Option.isSome (hother j hji)).trans hconn
  · intro _
    rw [pending_next]
    refine ((h.watched hrun).del fd).mono ?_
    rintro j hint - ⟨hedge, hmem⟩
    rw [hpend, List.mem_cons] at hmem
    exact ⟨hedge, hmem.resolve_left fun hj => hne j hint (Target.client.inj hj)⟩

/-- the process ends -/
theorem Inv.stop (h : Inv cfg whole s) {pc : Pc} (hpc : pc = .exited ∨ pc = .overrun) : Inv cfg whole { s with pc := pc } := by
  rcases hpc with rfl | rfl <;>
    exact ⟨h.trigger, h.client, ⟨List.nodup_nil, fun fd hfd => by cases hfd⟩, fun hrun => by cases hrun⟩

/-- a server that empties the sockets it is told about: it closes at the end of a stream, and reads on unless it will be
told again -/
def Config.Drains (cfg : Config) : Prop := cfg.closes = true ∧ (cfg.trigger = .level ∨ cfg.loops = true)

/-- the writes are not cut short -/
def Whole (cfg : Config) : Op → Bool
  | .read w => decide (cfg.size ≤ w)
  | _ => true

theorem Inv.serve (h : Inv cfg whole s) (hd : cfg.Drains) {fd : ℕ} {rest : List Target}
    (hpc : s.pc = .serving (.client fd) rest) {w : ℕ} (hw : whole → cfg.size ≤ w) (ht : serve cfg s fd rest w = some t) :
    Inv cfg whole t := by
  have hconn : s.connected fd = true := by
    refine h.batch.2 fd ?_
    rw [(Server.running_of_serving hpc).2]
    exact List.mem_cons_self
  unfold Lesson36.serve at ht
  dsimp only at ht
  by_cases hne : (s.epoll.sock fd).unread ≠ []
  · rw [if_pos hne] at ht
    cases hr : cfg.answer ((s.epoll.sock fd).unread.take cfg.size) with
    | none =>
      rw [hr] at ht
      obtain rfl := Option.some.inj ht
      exact h.stop (Or.inr rfl)
    | some r =>
      rw [hr] at ht
      obtain rfl := Option.some.inj ht
      have hans := h.answer hconn hne hr hw
      by_cases hl : cfg.loops = true
      · rw [if_pos hl]
        exact hans
      · rw [if_neg hl]
        refine hans.advance hpc fun _ _ hedge => ?_
        rw [hd.2.resolve_right hl] at hedge
        cases hedge
  · rw [if_neg hne] at ht
    split_ifs at ht with heof hclose hnb
    · obtain rfl := Option.some.inj ht
      exact h.close hpc
    · exact absurd hd.1 hclose
    · obtain rfl := Option.some.inj ht
      refine h.advance hpc fun j hj _ => ?_
      obtain rfl := Target.client.inj hj
      exact Sock.readable_eq_false.2 ⟨not_not.1 hne, Bool.eq_false_iff.2 heof⟩

theorem mem_clients {fd : ℕ} {batch : List Target} : fd ∈ batch.filterMap Target.fd? ↔ .client fd ∈ batch := by
  rw [List.mem_filterMap]
  constructor
  · rintro ⟨u, hu, hfd⟩
    cases u with
    | listener => cases hfd
    | client j => cases hfd; exact hu
  · intro h
    exact ⟨_, h, rfl⟩

/-- `epoll_wait` returns -/
theorem Inv.wait (h : Inv cfg whole s) (hpc : s.pc = .waiting) {u : Target} {rest : List Target} (hnd : (u :: rest).Nodup)
    (hrep : ∀ v ∈ u :: rest, s.reportable v = true) :
    Inv cfg whole { s with epoll := s.epoll.report ((u :: rest).filterMap Target.fd?), pc := .serving u rest } where
  trigger := h.trigger
  client := h.client
  batch := ⟨hnd, fun _ hfd => (Bool.and_eq_true_iff.1 (hrep _ hfd)).1⟩
  watched := by
    intro _
    have hrun : s.running = true := by rw [Server.running, hpc]
    have hpend : s.pending = [] := by rw [Server.pending, hpc]
    refine (h.watched hrun).report _ ?_ ?_
    · rintro fd ⟨-, hmem⟩
      rw [hpend] at hmem
      cases hmem
    · intro fd hfd hedge
      exact ⟨(h.trigger fd _ hedge).symm, mem_clients.1 hfd⟩

theorem inv_step (hd : cfg.Drains) {o : Op} (h : Inv cfg whole s) (hw : whole → Whole cfg o = true)
    (ht : step cfg s o = some t) : Inv cfg whole t := by
  cases o with
  | connect =>
    obtain rfl := Option.some.inj ht
    exact ⟨h.trigger, h.client, h.batch, h.watched⟩
  | send fd bytes =>
    simp only [step] at ht
    split_ifs at ht with hc
    obtain rfl := Option.some.inj ht
    exact h.deliver fun hconn => (h.client fd hconn).arrive bytes
  | shut fd =>
    simp only [step] at ht
    split_ifs at ht with hc
    obtain rfl := Option.some.inj ht
    exact h.deliver fun hconn => ⟨(h.client fd hconn).taken, (h.client fd hconn).answered⟩
  | wait batch =>
    obtain ⟨hpc, u, rest, -, hnd, hrep, rfl⟩ := step_wait ht
    exact h.wait hpc hnd hrep
  | accept r =>
    obtain ⟨rest, hpc, rfl | ⟨fd, bytes, eof, hfree, rfl⟩⟩ := step_accept ht
    · exact h.advance hpc fun fd hfd => by cases hfd
    · have hacc := h.accept hfree bytes eof (s.backlog - 1) (Server.running_of_serving hpc).1
      exact hacc.advance hpc fun fd hfd => by cases hfd
  | read w =>
    obtain ⟨fd, rest, hpc, hserve⟩ := step_read ht
    exact h.serve hd hpc (fun hwhole => of_decide_eq_true (hw hwhole)) hserve
  | fail =>
    obtain rfl := step_fail ht
    exact h.stop (Or.inl rfl)

theorem inv_run (hd : cfg.Drains) {os : List Op} (h : Run.exec (step cfg) start os = some s) :
    Inv cfg (∀ o ∈ os, Whole cfg o = true) s :=
  have hok : Run.Along (step cfg) (fun _ o => (∀ o ∈ os, Whole cfg o = true) → Whole cfg o = true) start os :=
    Run.along_of_forall (fun o ho _ hwhole => hwhole o ho) start
  Run.exec_inv_along (fun _ _ _ hs hok ht => inv_step hd hs hok ht) (inv_start cfg _) hok h

/-! ## Nothing is left unread -/

/-- **A server that blocks has dealt with everything.** If `epoll_wait` has nothing to report, no connection waits, and
every client has been read to the last byte, has got its answers, and has not closed. -/
theorem server_quiet (hd : cfg.Drains) {os : List Op} (hw : ∀ o ∈ os, Whole cfg o = true)
    (h : Run.exec (step cfg) start os = some s) (hpc : s.pc = .waiting)
    (hquiet : ∀ u, s.reportable u = false) :
    s.backlog = 0 ∧ ∀ fd, s.connected fd = true →
      (s.epoll.sock fd).eof = false ∧ Answered cfg (s.epoll.sock fd).arrived (s.epoll.sock fd).outbox := by
  have hinv := inv_run hd h
  refine ⟨?_, fun fd hfd => ?_⟩
  · have := hquiet .listener
    simpa [Server.reportable] using this
  · have hclient := hinv.client fd hfd
    have hrep : s.epoll.reportable fd = false := by
      have hr := hquiet (.client fd)
      rw [Server.reportable, show (s.epoll.interest fd).isSome = true from hfd, Bool.true_and] at hr
      exact hr
    have hwatched := hinv.watched (by rw [Server.running, hpc])
    have hpend : s.pending = [] := by rw [Server.pending, hpc]
    have hread := hwatched.quiet hrep hfd (by rw [hpend]; rintro ⟨-, hmem⟩; cases hmem)
    obtain ⟨hunread, heof⟩ := Sock.readable_eq_false.1 hread
    exact ⟨heof, hclient.answered_all hunread hw⟩

/-- only the client that is served is unregistered, at the end of its stream -/
theorem serve_unregisters {fd j w : ℕ} {rest : List Target} (h : serve cfg s j rest w = some t)
    (hgone : t.epoll.interest fd ≠ s.epoll.interest fd) :
    (s.epoll.sock fd).unread = [] ∧ (s.epoll.sock fd).eof = true := by
  unfold Lesson36.serve at h
  dsimp only at h
  by_cases hne : (s.epoll.sock j).unread ≠ []
  · rw [if_pos hne] at h
    split at h <;> obtain rfl := Option.some.inj h <;> exact absurd rfl hgone
  · rw [if_neg hne] at h
    split_ifs at h with heof hcloses <;> obtain rfl := Option.some.inj h
    · by_cases hj : fd = j
      · subst hj
        exact ⟨not_not.1 hne, heof⟩
      · exact absurd (Function.update_of_ne hj _ _) hgone
    · exact absurd rfl hgone
    · exact absurd rfl hgone

/-- a client is unregistered only at the end of its stream -/
theorem step_unregisters {o : Op} {fd : ℕ} (ht : step cfg s o = some t) (hs : s.connected fd = true)
    (hgone : t.connected fd = false) : (s.epoll.sock fd).unread = [] ∧ (s.epoll.sock fd).eof = true := by
  have hkept : t.epoll.interest fd ≠ s.epoll.interest fd := fun heq => by
    rw [Server.connected, heq, show (s.epoll.interest fd).isSome = true from hs] at hgone
    cases hgone
  cases o with
  | connect =>
    obtain rfl := Option.some.inj ht
    exact absurd rfl hkept
  | send j bytes =>
    simp only [step] at ht
    split_ifs at ht
    obtain rfl := Option.some.inj ht
    exact absurd rfl hkept
  | shut j =>
    simp only [step] at ht
    split_ifs at ht
    obtain rfl := Option.some.inj ht
    exact absurd rfl hkept
  | wait batch =>
    obtain ⟨-, u, rest, -, -, -, rfl⟩ := step_wait ht
    exact absurd rfl hkept
  | accept r =>
    obtain ⟨rest, -, rfl | ⟨j, bytes, eof, hfree, rfl⟩⟩ := step_accept ht
    · exact absurd rfl hkept
    · have hj : fd ≠ j := by
        rintro rfl
        rw [hs] at hfree
        cases hfree
      have hnone : (s.epoll.interest j).isSome = false := hfree
      exact absurd (by simp [Epoll.add, Epoll.set, hnone, Function.update_of_ne hj]) hkept
  | read w =>
    obtain ⟨j, rest, -, hserve⟩ := step_read ht
    exact serve_unregisters hserve hkept
  | fail =>
    obtain rfl := step_fail ht
    exact absurd rfl hkept

/-- **A client that is closed has got all its answers.** -/
theorem server_closed (hd : cfg.Drains) {os : List Op} (hw : ∀ o ∈ os, Whole cfg o = true)
    (h : Run.exec (step cfg) start os = some s) {o : Op} {fd : ℕ} (ht : step cfg s o = some t)
    (hs : s.connected fd = true) (hgone : t.connected fd = false) :
    (s.epoll.sock fd).eof = true ∧ Answered cfg (s.epoll.sock fd).arrived (s.epoll.sock fd).outbox := by
  obtain ⟨hunread, heof⟩ := step_unregisters ht hs hgone
  exact ⟨heof, ((inv_run hd h).client fd hs).answered_all hunread hw⟩

end WebServer.Lesson36
