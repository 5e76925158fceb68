/-
What the echo servers on epoll do for their clients, program by program.

- `epollEt_echoes`: lesson36/epoll_et.c sends back every byte, to every client, in every run, before it closes the client.
- `levelServer_overrun`: lesson35/epoll.c and lesson36/epoll_lt.c read outside their array exactly when a chunk fills it
  and has no zero.
- `exampleEt_starves`: lesson36/example/epoll_et.c stays with a client until it closes.
-/
import WebServer.Lesson36.EchoServer

namespace WebServer.Lesson36

variable {cfg : Config} {whole : Prop} {s t : Server}

/-! ## The edge-triggered server -/

theorem epollEt_drains : epollEt.Drains := ⟨rfl, Or.inr rfl⟩

theorem levelServer_drains (size : ℕ) (hsize : 0 < size) : (levelServer size hsize).Drains := ⟨rfl, Or.inl rfl⟩

/-- where every chunk is written back as it is, the client gets what it sent -/
theorem answered_some (hans : cfg.answer = some) {a out : Bytes} (h : Answered cfg a out) : out = a := by
  induction h with
  | nil => rfl
  | chunk h hne hsize hr ih =>
    rw [hans] at hr
    rw [ih, Option.some.inj hr]

/-- **The edge-triggered server echoes everything.** In every run of lesson36/epoll_et.c whose writes are not cut short,
whatever the order in which clients connect, send and close and in which events are reported: when the server blocks in
`epoll_wait`, no connection waits, no client that is still there has closed, and every client that is still there has got
back exactly the bytes it sent; and the server closes a client only after it has closed and has got back all its bytes. -/
theorem epollEt_echoes {os : List Op} (hw : ∀ o ∈ os, Whole epollEt o = true)
    (h : Run.exec (step epollEt) start os = some s) :
    (s.pc = .waiting → (∀ u, s.reportable u = false) → s.backlog = 0 ∧ ∀ fd, s.connected fd = true →
      (s.epoll.sock fd).eof = false ∧ (s.epoll.sock fd).outbox = (s.epoll.sock fd).arrived) ∧
    ∀ o t fd, step epollEt s o = some t → s.connected fd = true → t.connected fd = false →
      (s.epoll.sock fd).eof = true ∧ (s.epoll.sock fd).outbox = (s.epoll.sock fd).arrived := by
  constructor
  · intro hpc hquiet
    obtain ⟨hback, hall⟩ := server_quiet epollEt_drains hw h hpc hquiet
    exact ⟨hback, fun fd hfd => ⟨(hall fd hfd).1, answered_some rfl (hall fd hfd).2⟩⟩
  · intro o t fd ht hs hgone
    obtain ⟨heof, hall⟩ := server_closed epollEt_drains hw h ht hs hgone
    exact ⟨heof, answered_some rfl hall⟩

/-- two clients; the second one closes -/
def etOps : List Op :=
  [.connect, .connect, .wait [.listener], .accept (some (5, [], false)), .wait [.listener],
    .accept (some (6, ascii "ab", false)), .send 5 (ascii "hello world"), .wait [.client 6, .client 5], .read 5, .read 5,
    .shut 6, .read 5, .read 5, .send 5 (ascii "!"), .read 5, .read 5, .wait [.client 6], .read 5]

def etRun : Option Server := Run.exec (step epollEt) start etOps

theorem etRun_isSome : etRun.isSome = true := by decide +kernel

/-- only two descriptors were ever used -/
theorem etRun_quiet (u : Target) : (etRun.get etRun_isSome).reportable u = false := by
  have hint : (etRun.get etRun_isSome).epoll.interest =
      Function.update (Function.update (Function.update (fun _ => none) 5 (some .edge)) 6 (some .edge)) 6 none := rfl
  cases u with
  | listener => decide +kernel
  | client fd =>
    by_cases h5 : fd = 5
    · subst h5
      decide +kernel
    · by_cases h6 : fd = 6
      · subst h6
        decide +kernel
      · have : (etRun.get etRun_isSome).epoll.interest fd = none := by
          rw [hint]
          simp [h5, h6]
        simp [Server.reportable, this]

theorem epollEt_echoes_run : (etRun.get etRun_isSome).backlog = 0 ∧
    ∀ fd, (etRun.get etRun_isSome).connected fd = true → ((etRun.get etRun_isSome).epoll.sock fd).eof = false ∧
      ((etRun.get etRun_isSome).epoll.sock fd).outbox = ((etRun.get etRun_isSome).epoll.sock fd).arrived :=
  (epollEt_echoes (by decide +kernel) (Option.some_get etRun_isSome).symm).1 (by decide +kernel) etRun_quiet

/-! ## The level-triggered servers -/

/-- when `strlen` leaves the array -/
theorem terminated_eq_none_iff {size : ℕ} {q : Bytes} (hq : q.length ≤ size) :
    terminated size q = none ↔ q.length = size ∧ nul ∉ q := by
  unfold terminated Lesson33.reply
  rw [Option.map_eq_none_iff]
  constructor
  · intro h
    have hmem : nul ∉ q ++ List.replicate (size - q.length) nul := by
      intro hmem
      obtain ⟨k, hk⟩ := strchr_of_mem hmem
      rw [show Lesson33.strlen _ = strchr _ nul from rfl, hk] at h
      cases h
    rw [List.mem_append, not_or, List.mem_replicate, not_and_or] at hmem
    refine ⟨?_, hmem.1⟩
    have := hmem.2.resolve_right (not_not.2 rfl)
    omega
  · rintro ⟨rfl, hnul⟩
    rw [Nat.sub_self, List.replicate_zero, List.append_nil]
    exact strchr_eq_none hnul

/-- an unread window that fills the array with no zero in it -/
def Unterminated (size : ℕ) (k : Sock) : Prop := size ≤ k.unread.length ∧ nul ∉ k.unread.take size

theorem unterminated_iff {size : ℕ} {k : Sock} : terminated size (k.unread.take size) = none ↔ Unterminated size k := by
  rw [terminated_eq_none_iff (List.length_take_le _ _), List.length_take, Unterminated, min_eq_left_iff]

theorem Unterminated.arrive {size : ℕ} (hsize : 0 < size) {k : Sock} (h : Unterminated size k) (bytes : Bytes) :
    Unterminated size { k with arrived := k.arrived ++ bytes } := by
  have hlen := h.1
  rw [Sock.unread, List.length_drop] at hlen
  have htaken : k.taken ≤ k.arrived.length := by omega
  have hunread : Sock.unread { k with arrived := k.arrived ++ bytes } = k.unread ++ bytes :=
    List.drop_append_of_le_length htaken
  unfold Unterminated
  rw [hunread, List.length_append, List.take_append_of_le_length h.1]
  exact ⟨h.1.trans (Nat.le_add_right _ _), h.2⟩

theorem next_ne_overrun (rest : List Target) : next rest ≠ .overrun := by
  cases rest <;> exact fun h => by cases h

/-- the only way out of the array -/
theorem serve_overrun {fd : ℕ} {rest : List Target} {w : ℕ} (hpc : s.pc ≠ .overrun)
    (h : serve cfg s fd rest w = some t) (ht : t.pc = .overrun) :
    cfg.answer ((s.epoll.sock fd).unread.take cfg.size) = none ∧ t.epoll = s.epoll := by
  unfold serve at h
  dsimp only at h
  by_cases hne : (s.epoll.sock fd).unread ≠ []
  · rw [if_pos hne] at h
    cases hr : cfg.answer ((s.epoll.sock fd).unread.take cfg.size) with
    | none =>
      rw [hr] at h
      obtain rfl := Option.some.inj h
      exact ⟨rfl, rfl⟩
    | some r =>
      rw [hr] at h
      obtain rfl := Option.some.inj h
      dsimp only at ht
      split_ifs at ht
      · exact absurd ht hpc
      · exact absurd ht (next_ne_overrun rest)
  · rw [if_neg hne] at h
    split_ifs at h <;> obtain rfl := Option.some.inj h <;> exact absurd ht (next_ne_overrun rest)

/-- a level server that has left its array has a client whose next bytes fill the array without a zero -/
def Blamed (size : ℕ) (s : Server) : Prop :=
  s.pc = .overrun → ∃ fd, s.connected fd = true ∧ Unterminated size (s.epoll.sock fd)

theorem blamed_deliver {size : ℕ} (h : Blamed size s) {fd : ℕ} {k : Sock}
    (hk : Unterminated size (s.epoll.sock fd) → Unterminated size k) :
    Blamed size { s with epoll := s.epoll.deliver fd k } := by
  intro hpc
  obtain ⟨j, hconn, hj⟩ := h hpc
  refine ⟨j, hconn, ?_⟩
  by_cases hji : j = fd
  · subst hji
    simpa [Epoll.deliver] using hk hj
  · simpa [Epoll.deliver, Function.update_of_ne hji] using hj

theorem blamed_step {size : ℕ} {hsize : 0 < size} {o : Op} (hinv : Inv (levelServer size hsize) whole s)
    (h : Blamed size s) (ht : step (levelServer size hsize) s o = some t) : Blamed size t := by
  cases o with
  | connect =>
    obtain rfl := Option.some.inj ht
    exact h
  | send fd bytes =>
    simp only [step] at ht
    split_ifs at ht with hc
    obtain rfl := Option.some.inj ht
    exact blamed_deliver h fun hk => hk.arrive hsize bytes
  | shut fd =>
    simp only [step] at ht
    split_ifs at ht with hc
    obtain rfl := Option.some.inj ht
    exact blamed_deliver h fun hk => hk
  | wait batch =>
    obtain ⟨-, u, rest, -, -, -, rfl⟩ := step_wait ht
    exact fun hpc => by cases hpc
  | accept r =>
    obtain ⟨rest, -, rfl | ⟨fd, bytes, eof, -, rfl⟩⟩ := step_accept ht <;>
      exact fun hpc => absurd hpc (next_ne_overrun rest)
  | read w =>
    obtain ⟨fd, rest, hpc, hserve⟩ := step_read ht
    intro hover
    obtain ⟨hnone, hsame⟩ := serve_overrun (by rw [hpc]; exact fun h => by cases h) hserve hover
    have hconn : s.connected fd = true := by
      refine hinv.batch.2 fd ?_
      rw [(Server.running_of_serving hpc).2]
      exact List.mem_cons_self
    refine ⟨fd, ?_, ?_⟩
    · rw [Server.connected, hsame]
      exact hconn
    · rw [hsame]
      exact unterminated_iff.1 hnone
  | fail =>
    obtain rfl := step_fail ht
    exact fun hpc => by cases hpc

/-- **When a level-triggered server reads outside its array.** In every run of a server with an array of `size` bytes: if
it has left the array, there is a client whose next `size` bytes have no zero among them; and whenever the event of such
a client comes up, the server leaves the array. -/
theorem levelServer_overrun {size : ℕ} {hsize : 0 < size} {os : List Op}
    (h : Run.exec (step (levelServer size hsize)) start os = some s) :
    (s.pc = .overrun → ∃ fd, s.connected fd = true ∧ Unterminated size (s.epoll.sock fd)) ∧
    ∀ fd rest, s.pc = .serving (.client fd) rest → Unterminated size (s.epoll.sock fd) →
      ∀ w, step (levelServer size hsize) s (.read w) = some { s with pc := .overrun } := by
  constructor
  · have hd := levelServer_drains size hsize
    have hstep : ∀ s o t, Inv (levelServer size hsize) False s ∧ Blamed size s →
        step (levelServer size hsize) s o = some t → Inv (levelServer size hsize) False t ∧ Blamed size t :=
      fun s o t hs ht => ⟨inv_step hd hs.1 False.elim ht, blamed_step hs.1 hs.2 ht⟩
    have hstart : Inv (levelServer size hsize) False start ∧ Blamed size start :=
      ⟨inv_start _ _, fun hpc => by cases hpc⟩
    exact (Run.exec_inv hstep hstart h).2
  · intro fd rest hpc hwin w
    have hne : (s.epoll.sock fd).unread ≠ [] := by
      intro hnil
      have := hwin.1
      rw [hnil, List.length_nil] at this
      omega
    have hnone : (levelServer size hsize).answer ((s.epoll.sock fd).unread.take (levelServer size hsize).size) = none :=
      unterminated_iff.2 hwin
    simp only [step, hpc, serve]
    rw [if_pos hne, hnone]

/-- five letters are too many for lesson36/epoll_lt.c -/
def ltRun : Option Server := Run.exec (step epollLt) start
  [.connect, .wait [.listener], .accept (some (5, ascii "hello", false)), .wait [.client 5], .read 5]

theorem ltRun_isSome : ltRun.isSome = true := by decide +kernel

theorem levelServer_overrun_run :
    ∃ fd, (ltRun.get ltRun_isSome).connected fd = true ∧ Unterminated 5 ((ltRun.get ltRun_isSome).epoll.sock fd) :=
  (levelServer_overrun (Option.some_get ltRun_isSome).symm).1 (by decide +kernel)

/-! ## The blocking server -/

/-- what stays as it is while the client `fd` is served -/
structure Stuck (s₀ : Server) (fd : ℕ) (s : Server) : Prop where
  pc : s.pc = s₀.pc
  interest : s.epoll.interest = s₀.epoll.interest
  eof : (s.epoll.sock fd).eof = false
  others : ∀ j, j ≠ fd → (s.epoll.sock j).taken = (s₀.epoll.sock j).taken ∧
    (s.epoll.sock j).outbox = (s₀.epoll.sock j).outbox

theorem stuck_step {s₀ : Server} {fd : ℕ} {rest : List Target} (hpc : s₀.pc = .serving (.client fd) rest) {o : Op}
    (h : Stuck s₀ fd s) (ho : o ≠ .shut fd ∧ o ≠ .fail) (ht : step exampleEt s o = some t) : Stuck s₀ fd t := by
  have hs : s.pc = .serving (.client fd) rest := h.pc.trans hpc
  cases o with
  | connect =>
    obtain rfl := Option.some.inj ht
    exact ⟨h.pc, h.interest, h.eof, h.others⟩
  | send j bytes =>
    simp only [step] at ht
    split_ifs at ht with hc
    obtain rfl := Option.some.inj ht
    refine ⟨h.pc, h.interest, ?_, ?_⟩
    · by_cases hj : fd = j
      · subst hj
        simpa [Epoll.arrive, Epoll.deliver] using h.eof
      · simpa [Epoll.arrive, Epoll.deliver, Function.update_of_ne hj] using h.eof
    · intro i hi
      by_cases hj : i = j
      · subst hj
        simpa [Epoll.arrive, Epoll.deliver] using h.others i hi
      · simpa [Epoll.arrive, Epoll.deliver, Function.update_of_ne hj] using h.others i hi
  | shut j =>
    simp only [step] at ht
    split_ifs at ht with hc
    obtain rfl := Option.some.inj ht
    have hj : fd ≠ j := fun hj => ho.1 (hj ▸ rfl)
    refine ⟨h.pc, h.interest, ?_, ?_⟩
    · simpa [Epoll.hangup, Epoll.deliver, Function.update_of_ne hj] using h.eof
    · intro i hi
      by_cases hij : i = j
      · subst hij
        simpa [Epoll.hangup, Epoll.deliver] using h.others i hi
      · simpa [Epoll.hangup, Epoll.deliver, Function.update_of_ne hij] using h.others i hi
  | wait batch =>
    obtain ⟨hw, -⟩ := step_wait ht
    rw [hs] at hw
    cases hw
  | accept r =>
    obtain ⟨rest', ha, -⟩ := step_accept ht
    rw [hs] at ha
    cases ha
  | read w =>
    simp only [step, hs, serve] at ht
    by_cases hne : (s.epoll.sock fd).unread ≠ []
    · rw [if_pos hne] at ht
      obtain rfl := Option.some.inj ht
      refine ⟨hs.symm.trans h.pc, h.interest, ?_, ?_⟩
      · simpa [Epoll.set, Sock.answer] using h.eof
      · intro i hi
        simpa [Epoll.set, Function.update_of_ne hi] using h.others i hi
    · -- nothing to read and no end: the call blocks
      rw [if_neg hne, h.eof] at ht
      cases ht
  | fail => exact absurd rfl ho.2

/-- **One client stops the server.** In lesson36/example/epoll_et.c the sockets block: from any state in which the server
serves a client that has not closed, whatever happens next as long as that client does not close and no call fails, the
server stays with it: no other client is read from or written to, and no connection is accepted. -/
theorem exampleEt_starves {fd : ℕ} {rest : List Target} {os : List Op} (hpc : s.pc = .serving (.client fd) rest)
    (heof : (s.epoll.sock fd).eof = false) (hos : ∀ o ∈ os, o ≠ .shut fd ∧ o ≠ .fail)
    (h : Run.exec (step exampleEt) s os = some t) :
    t.pc = s.pc ∧ t.epoll.interest = s.epoll.interest ∧ ∀ j, j ≠ fd →
      (t.epoll.sock j).taken = (s.epoll.sock j).taken ∧ (t.epoll.sock j).outbox = (s.epoll.sock j).outbox := by
  have hok : Run.Along (step exampleEt) (fun _ o => o ≠ .shut fd ∧ o ≠ .fail) s os :=
    Run.along_of_forall (fun o ho _ => hos o ho) s
  have hstart : Stuck s fd s := ⟨rfl, rfl, heof, fun _ _ => ⟨rfl, rfl⟩⟩
  have hstuck : Stuck s fd t := Run.exec_inv_along (fun _ _ _ hs ho ht => stuck_step hpc hs ho ht) hstart hok h
  exact ⟨hstuck.pc, hstuck.interest, hstuck.others⟩

/-- the first of two clients is served -/
def servingRun : Option Server := Run.exec (step exampleEt) start
  [.connect, .connect, .wait [.listener], .accept (some (5, ascii "a", false)), .wait [.listener],
    .accept (some (6, [], false)), .wait [.client 5]]

theorem servingRun_isSome : servingRun.isSome = true := by decide +kernel

theorem servingRun_pc : (servingRun.get servingRun_isSome).pc = .serving (.client 5) [] := by decide +kernel

/-- the second one sends, to no avail -/
def starvingOps : List Op := [.read 5, .send 6 (ascii "hello"), .connect, .send 5 (ascii "b"), .read 5]

def starvingRun : Option Server := Run.exec (step exampleEt) (servingRun.get servingRun_isSome) starvingOps

theorem starvingRun_isSome : starvingRun.isSome = true := by decide +kernel

theorem exampleEt_starves_run :
    (starvingRun.get starvingRun_isSome).pc = (servingRun.get servingRun_isSome).pc ∧
    (starvingRun.get starvingRun_isSome).epoll.interest = (servingRun.get servingRun_isSome).epoll.interest ∧
    ∀ j, j ≠ 5 →
      ((starvingRun.get starvingRun_isSome).epoll.sock j).taken = ((servingRun.get servingRun_isSome).epoll.sock j).taken ∧
      ((starvingRun.get starvingRun_isSome).epoll.sock j).outbox =
        ((servingRun.get servingRun_isSome).epoll.sock j).outbox :=
  have hos : ∀ o ∈ starvingOps, o ≠ .shut 5 ∧ o ≠ .fail := by decide
  exampleEt_starves servingRun_pc (by decide +kernel) hos (Option.some_get starvingRun_isSome).symm

end WebServer.Lesson36
