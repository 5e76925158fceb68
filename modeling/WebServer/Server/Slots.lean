/-
The server seen from one descriptor.

A `Slot` is everything that concerns the descriptor `fd`: the object `users[fd]`, its entry in the epoll set, whether it is
open, the calls made for it, its events in the current batch, and how often the pointer `users + fd` occurs in the queue
and in the workers' hands. `SlotStep` lists what can happen to it.

- `Own`: the slot has at most one owner (the epoll set, the batch, or the pool), and none when it is closed.
- `Own.step`: that stays so.
- `SlotStep.origin`: the cases from which the invariants of waiting connections follow.
`Server.Refine` proves that the server does nothing else to a slot.
-/
import WebServer.HttpConn.Effects
import WebServer.Server.Model

namespace WebServer.Server

open WebServer.HttpConn WebServer.ThreadPool

/-! ## Slots -/

structure Slot where
  conn : Conn
  item : EpollItem
  opened : Bool
  log : List Call
  /-- its events in the batch -/
  pending : List Events
  /-- occurrences in `workQueue` and in the workers' hands -/
  owners : ℕ

def Event.toward (fd : ℤ) : Event → Option Events
  | .listen => none
  | .client x ev => if x = fd then some ev else none

def pendingFor (fd : ℤ) (batch : List Event) : List Events := batch.filterMap (Event.toward fd)

/-- the worker is in `users[fd].process()` -/
def holds (fd : ℤ) : Worker ℤ → ℕ
  | .running x => if x = fd then 1 else 0
  | _ => 0

section Owners

variable {κ : Type*} [Fintype κ]

def ownersOf (pool : Pool ℤ Unit κ) (fd : ℤ) : ℕ := pool.workQueue.count (some fd) + ∑ j, holds fd (pool.workers j)

def State.slot (s : State κ) (fd : ℤ) : Slot :=
  ⟨s.users fd, s.epoll fd, decide (fd ∈ s.opened), s.logs fd, pendingFor fd s.batch, ownersOf s.pool fd⟩

end Owners

/-- the slot after `close_conn` -/
def Slot.close (v : Slot) (fd : ℤ) : Slot :=
  { v with conn := { v.conn with sockfd := -1 }, item := .absent, opened := false, log := v.log ++ [.close fd] }

inductive Act where
  | deliver | accept | hangup | readClose | enqueue | drop | send | sendClose | ignore
  | process (code : HttpCode)

/-- what can happen to the slot of `fd` -/
inductive SlotStep (fd : ℤ) : Slot → Act → Slot → Prop
  | deliver {v : Slot} {ev : Events} (hp : v.pending = []) (hr : reports v.item ev = true) :
      SlotStep fd v .deliver { v with item := .disarmed, pending := [ev] }
  | accept {v : Slot} (h0 : 0 ≤ fd) (ho : v.opened = false) :
      SlotStep fd v .accept
        { v with conn := Conn.init { v.conn with sockfd := fd }, item := .armed .epollIn, opened := true }
  | hangup {v : Slot} {ev : Events} {rest : List Events} (hp : v.pending = ev :: rest) (hev : ev.hup = true) :
      SlotStep fd v .hangup ({ v with pending := rest }.close fd)
  | readClose {v : Slot} {ev : Events} {rest : List Events} {r : ReadSide} (hp : v.pending = ev :: rest)
      (hev : ev.epollIn = true) :
      SlotStep fd v .readClose ({ v with conn := v.conn.setRead r, pending := rest }.close fd)
  | enqueue {v : Slot} {ev : Events} {rest : List Events} {r : ReadSide} (hp : v.pending = ev :: rest)
      (hev : ev.epollIn = true) :
      SlotStep fd v .enqueue { v with conn := v.conn.setRead r, pending := rest, owners := v.owners + 1 }
  | drop {v : Slot} {ev : Events} {rest : List Events} {r : ReadSide} (hp : v.pending = ev :: rest)
      (hev : ev.epollIn = true) : SlotStep fd v .drop { v with conn := v.conn.setRead r, pending := rest }
  | sendIdle {v : Slot} {ev : Events} {rest : List Events} (hp : v.pending = ev :: rest) (hev : ev.epollOut = true)
      (h0 : v.conn.bytesToSend = 0) :
      SlotStep fd v .send { v with conn := v.conn.init, item := .armed .epollIn, pending := rest }
  | sendBlocked {v : Slot} {ev : Events} {rest : List Events} {c : Conn} {l : List Call} (hp : v.pending = ev :: rest)
      (hev : ev.epollOut = true) (hs : Sends v.conn c l) (hb : c.bytesToSend = v.conn.bytesToSend ∨ 0 < c.bytesToSend) :
      SlotStep fd v .send { v with conn := c, item := .armed .epollOut, log := v.log ++ l, pending := rest }
  | sendKept {v : Slot} {ev : Events} {rest : List Events} {c : Conn} {l : List Call} (hp : v.pending = ev :: rest)
      (hev : ev.epollOut = true) (hs : Sends v.conn c l) (hl : v.conn.linger = true) :
      SlotStep fd v .send { v with
        conn := c.unmapped.init, item := .armed .epollIn, log := v.log ++ (l ++ c.munmaps), pending := rest }
  | sendClose {v : Slot} {ev : Events} {rest : List Events} {c : Conn} {l : List Call} (hp : v.pending = ev :: rest)
      (hev : ev.epollOut = true) (hs : Sends v.conn c l)
      (hl : v.conn.linger = false ∨ c.bytesToSend = v.conn.bytesToSend ∨ 0 < c.bytesToSend) :
      SlotStep fd v .sendClose
        ({ v with conn := c.unmapped, log := v.log ++ (l ++ c.munmaps), pending := rest }.close fd)
  | ignore {v : Slot} {ev : Events} {rest : List Events} (hp : v.pending = ev :: rest)
      (hev : ev.hup = false ∧ ev.epollIn = false ∧ ev.epollOut = false) : SlotStep fd v .ignore { v with pending := rest }
  | waits {v : Slot} {n : ℕ} {r : ReadSide} (ho : v.owners = n + 1) :
      SlotStep fd v (.process .noRequest) { v with conn := v.conn.setRead r, item := .armed .epollIn, owners := n }
  | answers {v : Slot} {n : ℕ} {code : HttpCode} {c : Conn} {l : List Call} (ho : v.owners = n + 1)
      (hq : Requested v.conn code c l) (hw : (processWrite code c).1 = true) :
      SlotStep fd v (.process code)
        { v with conn := (processWrite code c).2, item := .armed .epollOut, log := v.log ++ l, owners := n }
  | refuses {v : Slot} {n : ℕ} {code : HttpCode} {c : Conn} {l : List Call} (ho : v.owners = n + 1)
      (hq : Requested v.conn code c l) (hw : (processWrite code c).1 = false) :
      SlotStep fd v (.process code) ({ v with conn := (processWrite code c).2, log := v.log ++ l, owners := n }.close fd)

/-! ## One owner -/

def isArmed : EpollItem → ℕ
  | .armed _ => 1
  | _ => 0

/-- the places that can hand the connection to a thread -/
def Slot.places (v : Slot) : ℕ := v.owners + v.pending.length + isArmed v.item

structure Own (fd : ℤ) (v : Slot) : Prop where
  one : v.places ≤ 1
  opened : 0 < v.places → v.opened = true
  sock : v.opened = true → v.conn.sockfd = fd ∧ 0 ≤ fd
  absent : v.item = .absent ↔ v.opened = false

theorem Own.live {fd : ℤ} {v : Slot} (h : Own fd v) (hp : 0 < v.places) :
    v.opened = true ∧ v.conn.sockfd = fd ∧ fd ≠ -1 ∧ v.item ≠ .absent := by
  have ho := h.opened hp
  obtain ⟨hs, h0⟩ := h.sock ho
  refine ⟨ho, hs, by omega, fun ha => ?_⟩
  rw [h.absent.1 ha] at ho
  cases ho

/-- a slot with an event in the batch is in no other place -/
theorem Own.delivered {fd : ℤ} {v : Slot} (h : Own fd v) {ev : Events} {rest : List Events}
    (hp : v.pending = ev :: rest) :
    rest = [] ∧ v.owners = 0 ∧ isArmed v.item = 0 ∧ v.opened = true ∧ v.item ≠ .absent := by
  have hone := h.one
  obtain ⟨hopened, -, -, hi⟩ := h.live (by rw [Slot.places, hp, List.length_cons]; omega)
  rw [Slot.places, hp, List.length_cons] at hone
  exact ⟨List.eq_nil_of_length_eq_zero (by omega), by omega, by omega, hopened, hi⟩

/-- a slot that the pool has is in no other place -/
theorem Own.held {fd : ℤ} {v : Slot} (h : Own fd v) {n : ℕ} (ho : v.owners = n + 1) :
    n = 0 ∧ v.pending = [] ∧ isArmed v.item = 0 ∧ v.opened = true := by
  have hone := h.one
  obtain ⟨hopened, -⟩ := h.live (by rw [Slot.places]; omega)
  rw [Slot.places] at hone
  exact ⟨by omega, List.eq_nil_of_length_eq_zero (by omega), by omega, hopened⟩

/-- an armed slot is in no other place -/
theorem Own.armed {fd : ℤ} {v : Slot} (h : Own fd v) {i : Interest} (hi : v.item = .armed i) :
    v.owners = 0 ∧ v.pending = [] ∧ v.opened = true := by
  have hone := h.one
  obtain ⟨hopened, -⟩ := h.live (by rw [Slot.places, hi, isArmed]; omega)
  rw [Slot.places, hi, isArmed] at hone
  exact ⟨by omega, List.eq_nil_of_length_eq_zero (by omega), hopened⟩

/-- closing a slot that no place holds any more -/
theorem Own.close {fd : ℤ} {v : Slot} (ho : v.owners = 0) (hp : v.pending = []) : Own fd (v.close fd) := by
  have hplaces : (v.close fd).places = 0 := by
    simp only [Slot.places, Slot.close, ho, hp, List.length_nil, isArmed]
  exact ⟨by omega, fun h => by omega, nofun, fun _ => rfl, fun _ => rfl⟩

/-- an open slot in one place, or in none -/
theorem Own.of_opened {fd : ℤ} {v v' : Slot} (h : Own fd v) (ho : v.opened = true) (hone : v'.places ≤ 1)
    (hopened : v'.opened = true) (hsock : v'.conn.sockfd = v.conn.sockfd) (hitem : v'.item ≠ .absent) : Own fd v' := by
  have hno : v'.opened ≠ false := by rw [hopened]; decide
  exact ⟨hone, fun _ => hopened, fun _ => hsock ▸ h.sock ho, fun ha => absurd ha hitem, fun hc => absurd hc hno⟩

/-- **A slot keeps having at most one owner.** -/
theorem Own.step {fd : ℤ} {v v' : Slot} {act : Act} (h : Own fd v) (hstep : SlotStep fd v act v') : Own fd v' := by
  cases hstep with
  | @deliver ev hp hr =>
    obtain ⟨i, hi⟩ : ∃ i, v.item = .armed i := by
      cases hi : v.item with
      | armed i => exact ⟨i, rfl⟩
      | absent => rw [hi] at hr; cases hr
      | disarmed => rw [hi] at hr; cases hr
    obtain ⟨h1, -, h3⟩ := h.armed hi
    exact h.of_opened h3 (by simp [Slot.places, isArmed, h1]) h3 rfl (by simp)
  | accept h0 ho =>
    have hz : v.places = 0 := by
      by_contra hne
      rw [h.opened (Nat.pos_of_ne_zero hne)] at ho
      cases ho
    unfold Slot.places at hz
    refine ⟨?_, fun _ => rfl, fun _ => ⟨rfl, h0⟩, nofun, nofun⟩
    simp only [Slot.places, isArmed]
    omega
  | hangup hp hev => exact Own.close (h.delivered hp).2.1 (h.delivered hp).1
  | readClose hp hev => exact Own.close (h.delivered hp).2.1 (h.delivered hp).1
  | sendClose hp hev hs => exact Own.close (h.delivered hp).2.1 (h.delivered hp).1
  | @enqueue ev rest r hp hev =>
    obtain ⟨rfl, h2, h3, h4, h5⟩ := h.delivered hp
    exact h.of_opened h4 (by simp [Slot.places, h2, h3]) h4 rfl h5
  | @drop ev rest r hp hev =>
    obtain ⟨rfl, h2, h3, h4, h5⟩ := h.delivered hp
    exact h.of_opened h4 (by simp [Slot.places, h2, h3]) h4 rfl h5
  | @ignore ev rest hp hev =>
    obtain ⟨rfl, h2, h3, h4, h5⟩ := h.delivered hp
    exact h.of_opened h4 (by simp [Slot.places, h2, h3]) h4 rfl h5
  | @sendIdle ev rest hp hev h0 =>
    obtain ⟨rfl, h2, h3, h4, h5⟩ := h.delivered hp
    exact h.of_opened h4 (by simp [Slot.places, isArmed, h2]) h4 rfl (by simp)
  | @sendBlocked ev rest c l hp hev hs hb =>
    obtain ⟨rfl, h2, h3, h4, h5⟩ := h.delivered hp
    exact h.of_opened h4 (by simp [Slot.places, isArmed, h2]) h4 hs.sockfd (by simp)
  | @sendKept ev rest c l hp hev hs =>
    obtain ⟨rfl, h2, h3, h4, h5⟩ := h.delivered hp
    exact h.of_opened h4 (by simp [Slot.places, isArmed, h2]) h4 hs.sockfd (by simp)
  | @waits n r ho =>
    obtain ⟨rfl, h2, -, h4⟩ := h.held ho
    exact h.of_opened h4 (by simp [Slot.places, isArmed, h2]) h4 rfl (by simp)
  | @answers n code c l ho hq hw =>
    obtain ⟨rfl, h2, -, h4⟩ := h.held ho
    exact h.of_opened h4 (by simp [Slot.places, isArmed, h2]) h4
      ((processWrite_kept code c).sockfd.trans hq.sockfd) (by simp)
  | @refuses n code c l ho hq hw =>
    obtain ⟨rfl, h2, -⟩ := h.held ho
    exact Own.close rfl h2

/-! ## What a slot waits for -/

/-- the direction the slot's next event is for; the pool has it only after its data was read -/
def Slot.WaitsFor (v : Slot) : Interest → Prop
  | .epollIn => v.item = .armed .epollIn ∨ (∃ ev ∈ v.pending, ev.epollIn = true) ∨ 0 < v.owners
  | .epollOut => v.item = .armed .epollOut ∨ ∃ ev ∈ v.pending, ev.epollOut = true

theorem Own.waitsFor_armed {fd : ℤ} {v : Slot} (h : Own fd v) {i j : Interest} (hi : v.item = .armed i)
    (hj : v.WaitsFor j) : j = i := by
  obtain ⟨h1, h2, -⟩ := h.armed hi
  cases i <;> cases j <;> simp_all [Slot.WaitsFor]

theorem Own.waitsFor_held {fd : ℤ} {v : Slot} (h : Own fd v) {n : ℕ} {j : Interest} (ho : v.owners = n + 1)
    (hj : v.WaitsFor j) : j = .epollIn := by
  obtain ⟨-, h2, h3, -⟩ := h.held ho
  cases j with
  | epollIn => rfl
  | epollOut =>
    rcases hj with hi | ⟨ev, hev, -⟩
    · rw [hi] at h3
      cases h3
    · rw [h2] at hev
      cases hev

/-- a slot in no place waits for nothing -/
theorem Slot.places_pos {v : Slot} {j : Interest} (hj : v.WaitsFor j) : 0 < v.places := by
  have hpend : ∀ ev, ev ∈ v.pending → 0 < v.places := fun ev hev => by
    have := List.length_pos_of_mem hev
    rw [Slot.places]
    omega
  have hitem : ∀ i, v.item = .armed i → 0 < v.places := fun i hi => by
    rw [Slot.places, hi, isArmed]
    omega
  cases j with
  | epollIn =>
    rcases hj with hi | ⟨ev, hev, -⟩ | ho
    · exact hitem _ hi
    · exact hpend ev hev
    · rw [Slot.places]; omega
  | epollOut =>
    rcases hj with hi | ⟨ev, hev, -⟩
    · exact hitem _ hi
    · exact hpend ev hev

theorem Own.waitsFor_opened {fd : ℤ} {v : Slot} (h : Own fd v) {j : Interest} (hj : v.WaitsFor j) : v.opened = true :=
  h.opened (Slot.places_pos hj)

/-- once its event is taken from the batch, nothing waits for the slot -/
theorem Own.waitsFor_taken {fd : ℤ} {v v' : Slot} (h : Own fd v) {ev : Events} {rest : List Events} {j : Interest}
    (hp : v.pending = ev :: rest) (hj : v'.WaitsFor j) (hpend : v'.pending = rest) (hitem : v'.item = v.item)
    (ho : v'.owners = v.owners) : False := by
  obtain ⟨rfl, h2, h3, -⟩ := h.delivered hp
  have := Slot.places_pos hj
  simp [Slot.places, hpend, hitem, ho, h2, h3] at this

/-- an event in the batch is for the direction the slot was armed for -/
theorem Own.waitsFor_deliver {fd : ℤ} {v : Slot} (h : Own fd v) {ev : Events} {j : Interest}
    (hr : reports v.item ev = true) (hj : Slot.WaitsFor { v with item := .disarmed, pending := [ev] } j) :
    v.WaitsFor j := by
  cases hi : v.item with
  | absent => rw [hi] at hr; cases hr
  | disarmed => rw [hi] at hr; cases hr
  | armed i =>
    obtain ⟨h1, -⟩ := h.armed hi
    rw [hi] at hr
    cases i <;> cases j <;> simp_all [Slot.WaitsFor, reports]

/-- where the connection of a waiting slot and its calls come from -/
inductive Origin (v : Slot) : Act → Interest → Conn → List Call → Prop
  | same {act : Act} {i : Interest} (h : v.WaitsFor i) : Origin v act i v.conn v.log
  | reset {act : Act} (c : Conn) (log : List Call) : Origin v act .epollIn c.init log
  | received {act : Act} {r : ReadSide} (hp : v.pending ≠ []) (h : v.WaitsFor .epollIn) :
      Origin v act .epollIn (v.conn.setRead r) v.log
  | sent {c : Conn} {l : List Call} (h : v.WaitsFor .epollOut) (hs : Sends v.conn c l)
      (hb : c.bytesToSend = v.conn.bytesToSend ∨ 0 < c.bytesToSend) : Origin v .send .epollOut c (v.log ++ l)
  | parsed {r : ReadSide} (h : v.WaitsFor .epollIn) :
      Origin v (.process .noRequest) .epollIn (v.conn.setRead r) v.log
  | answered {code : HttpCode} {c : Conn} {l : List Call} (h : v.WaitsFor .epollIn) (hq : Requested v.conn code c l) :
      Origin v (.process code) .epollOut (processWrite code c).2 (v.log ++ l)

/-- **What a slot waits for after a step.** The invariants of the connections that wait follow from these cases; the
other steps leave a slot for which nothing waits. -/
theorem SlotStep.origin {fd : ℤ} {v v' : Slot} {act : Act} (hown : Own fd v) (hstep : SlotStep fd v act v')
    {i : Interest} (hi : v'.WaitsFor i) : Origin v act i v'.conn v'.log := by
  have hown' := hown.step hstep
  have hclosed : v'.opened ≠ false := by rw [hown'.waitsFor_opened hi]; decide
  have hin : ∀ {ev rest}, v.pending = ev :: rest → ev.epollIn = true → v.WaitsFor .epollIn := fun hp hev =>
    Or.inr (Or.inl ⟨_, hp ▸ List.mem_cons_self, hev⟩)
  have hout : ∀ {ev rest}, v.pending = ev :: rest → ev.epollOut = true → v.WaitsFor .epollOut := fun hp hev =>
    Or.inr ⟨_, hp ▸ List.mem_cons_self, hev⟩
  have hheld : ∀ {n}, v.owners = n + 1 → v.WaitsFor .epollIn := fun ho => Or.inr (Or.inr (by omega))
  cases hstep with
  | deliver hp hr => exact .same (hown.waitsFor_deliver hr hi)
  | accept h0 ho =>
    obtain rfl := hown'.waitsFor_armed rfl hi
    exact .reset _ _
  | hangup hp hev => exact absurd rfl hclosed
  | readClose hp hev => exact absurd rfl hclosed
  | enqueue hp hev =>
    obtain rfl := hown'.waitsFor_held rfl hi
    exact .received (by rw [hp]; exact List.cons_ne_nil _ _) (hin hp hev)
  | drop hp hev => exact (hown.waitsFor_taken hp hi rfl rfl rfl).elim
  | sendIdle hp hev h0 =>
    obtain rfl := hown'.waitsFor_armed rfl hi
    exact .reset _ _
  | sendBlocked hp hev hs hb =>
    obtain rfl := hown'.waitsFor_armed rfl hi
    exact .sent (hout hp hev) hs hb
  | sendKept hp hev hs =>
    obtain rfl := hown'.waitsFor_armed rfl hi
    exact .reset _ _
  | sendClose hp hev hs => exact absurd rfl hclosed
  | ignore hp hev => exact (hown.waitsFor_taken hp hi rfl rfl rfl).elim
  | waits ho =>
    obtain rfl := hown'.waitsFor_armed rfl hi
    exact .parsed (hheld ho)
  | answers ho hq hw =>
    obtain rfl := hown'.waitsFor_armed rfl hi
    exact .answered (hheld ho) hq
  | refuses ho hq hw => exact absurd rfl hclosed

end WebServer.Server
