/-
The main thread of lesson33/server.c and its table of worker threads.

For every accepted client the main thread looks for a slot of `sockInfos` with `fd == -1`, stores the descriptor there and
starts a thread on it. Workers run at any time between the steps of the search, and one whose client has closed stores -1
in its slot. When the search has looked at the last slot in vain it sleeps a second and sets `i = 0`; the loop's `++i`
follows, so that the next pass begins with slot 1.

The table size is a parameter `max` (1024 in the source). A worker's turn (`turn` of `Lesson33.Echo`) is one step: only
its last store, of -1, is seen by the main thread.

- `Sound.step`: the counter stays inside the table, and a search that has ended has ended at a free slot. This needs
  `2 ≤ max`: with one slot the counter leaves the loop after the sleep, and `pinfo` was never set.
- `pass_selects`: a pass that has a free slot ahead of it ends at a free slot, under every schedule of the workers.
- `pass_sleeps`: a pass over taken slots ends in `sleep`, with the table unchanged.
- `search_selects_iff`: the pass after a sleep selects a free slot whenever there is one, unless the only free slot is
  slot 0.
- `search_overlooks`: while slot 0 is the only free slot, the search goes on for ever.
- `search_overlooks_first`: such a state of a table of two slots.
-/
import WebServer.Core.Run
import WebServer.Lesson33.Echo

namespace WebServer.Lesson33

/-! ## Model -/

/-- a slot in use: the descriptor, and the `recvBuf` of its thread (`none` if `pthread_create` failed, which the main
thread does not look at) -/
structure Worker where
  fd : ℕ
  thread : Option (Buf recvSize)

/-- where the main thread is in its loop -/
inductive MainThread
  /-- before `accept` -/
  | accepting
  /-- before the test `i < max` of the search -/
  | looking (cfd i : ℕ)
  /-- in `sleep(1)` -/
  | sleeping (cfd : ℕ)
  /-- behind the search; `none` if `pinfo` was not set -/
  | found (cfd : ℕ) (pinfo : Option ℕ)
  /-- the process has ended -/
  | ended
deriving DecidableEq, Repr

structure ThreadServer where
  /-- `none` is a slot with `fd == -1` -/
  sockInfos : ℕ → Option Worker
  main : MainThread

inductive Move
  /-- `accept` returns, with `none` for -1 -/
  | accept (cfd : Option ℕ)
  /-- one round of the search loop -/
  | look
  /-- `sleep` returns -/
  | wake
  /-- the slot is filled in and the thread started -/
  | start (thread : Option (Buf recvSize))
  /-- a turn of the thread of slot `k` -/
  | work (k : ℕ) (t : Turn)

namespace ThreadServer

/-- before the loop -/
def init : ThreadServer := ⟨fun _ => none, .accepting⟩

def free (s : ThreadServer) (k : ℕ) : Bool := (s.sockInfos k).isNone

/-- the body of the search loop with its test; `i == max - 1` is the last slot -/
def look (max : ℕ) (s : ThreadServer) (cfd i : ℕ) : MainThread :=
  if i < max then
    if s.free i then .found cfd (some i)
    else if i = max - 1 then .sleeping cfd
    else .looking cfd (i + 1)
  else .found cfd none

/-- a turn of the thread of slot `k`, which holds `w` -/
def work (s : ThreadServer) (k : ℕ) (w : Worker) (recvBuf : Buf recvSize) (t : Turn) : ThreadServer :=
  match (turn recvBuf t).2 with
  | .reading recvBuf => { s with sockInfos := Function.update s.sockInfos k (some { w with thread := some recvBuf }) }
  | .freed => { s with sockInfos := Function.update s.sockInfos k none }
  | .exited => { s with main := .ended }
  | .killed => { s with main := .ended }

def step (max : ℕ) (s : ThreadServer) : Move → Option ThreadServer
  | .accept cfd =>
    match s.main, cfd with
    | .accepting, some cfd => some { s with main := .looking cfd 0 }
    | .accepting, none => some { s with main := .ended }
    | _, _ => none
  | .look =>
    match s.main with
    | .looking cfd i => some { s with main := s.look max cfd i }
    | _ => none
  | .wake =>
    match s.main with
    -- `i = 0` and then `++i`
    | .sleeping cfd => some { s with main := .looking cfd 1 }
    | _ => none
  | .start thread =>
    match s.main with
    | .found cfd (some k) => some ⟨Function.update s.sockInfos k (some ⟨cfd, thread⟩), .accepting⟩
    | _ => none
  | .work k t =>
    match s.main, s.sockInfos k with
    | .ended, _ => none
    | _, some ⟨fd, some recvBuf⟩ => some (s.work k ⟨fd, some recvBuf⟩ recvBuf t)
    | _, _ => none

end ThreadServer

open ThreadServer

/-- the steps that can happen during a pass of the search -/
def Move.inPass : Move → Bool
  | .look | .work .. => true
  | _ => false

/-- how many slots were looked at -/
def looks (ms : List Move) : ℕ := ms.countP fun
  | .look => true
  | _ => false

/-- **Purpose of a pass.** However the workers run, and unless one of them ends the process: the pass that follows the
sleep is still looking, at a slot of the table, or has ended at a free slot. -/
def Selects (max : ℕ) (s : ThreadServer) (cfd : ℕ) : Prop :=
  ∀ (ms : List Move) (t : ThreadServer), (∀ m ∈ ms, m.inPass = true) →
    Run.exec (step max) s (.wake :: ms) = some t → t.main ≠ .ended →
      (t.main = .looking cfd (1 + looks ms) ∧ 1 + looks ms < max) ∨
        ∃ k < max, t.main = .found cfd (some k) ∧ t.free k = true

def onlyFirstFree (max : ℕ) (s : ThreadServer) : Prop := s.free 0 = true ∧ ∀ k < max, 0 < k → s.free k = false

/-! ## One step -/

namespace ThreadServer

/-- **What a worker can do** to the main thread: end the process, or at most free slots -/
theorem step_work {max : ℕ} {s u : ThreadServer} {k : ℕ} {t : Turn} (h : s.step max (.work k t) = some u) :
    u.main = .ended ∨ u.main = s.main ∧ ∀ j, s.free j = true → u.free j = true := by
  simp only [step] at h
  split at h
  · cases h
  · rename_i fd recvBuf hslot _
    obtain rfl := Option.some.inj h
    have htaken : s.free k = false := by simp [free, hslot]
    have hother : ∀ j, s.free j = true → j ≠ k := by
      rintro j hj rfl
      exact Bool.false_ne_true (htaken.symm.trans hj)
    unfold work
    split
    · exact .inr ⟨rfl, fun j hj => by simpa only [free, Function.update_of_ne (hother j hj)] using hj⟩
    · exact .inr ⟨rfl, fun j hj => by simpa only [free, Function.update_of_ne (hother j hj)] using hj⟩
    · exact .inl rfl
    · exact .inl rfl
  · cases h

theorem step_look {max : ℕ} {s u : ThreadServer} (h : s.step max .look = some u) :
    ∃ cfd i, s.main = .looking cfd i ∧ u = { s with main := s.look max cfd i } := by
  simp only [step] at h
  split at h
  · rename_i cfd i hmain; exact ⟨cfd, i, hmain, (Option.some.inj h).symm⟩
  · cases h

/-- the counter is in the table, and the search ends only at a free slot -/
def Sound (max : ℕ) (s : ThreadServer) : Prop :=
  match s.main with
  | .looking _ i => i < max
  | .found _ pinfo => ∃ k < max, pinfo = some k ∧ s.free k = true
  | _ => True

theorem sound_of_ended {max : ℕ} {s : ThreadServer} (h : s.main = .ended) : Sound max s := by
  unfold Sound
  rw [h]
  trivial

theorem sound_look {max : ℕ} (s : ThreadServer) (cfd : ℕ) {i : ℕ} (hi : i < max) :
    Sound max { s with main := s.look max cfd i } := by
  unfold look
  rw [if_pos hi]
  split_ifs with hfree hlast
  · exact ⟨i, hi, rfl, hfree⟩
  · trivial
  · have hnext : i + 1 < max := by omega
    exact hnext

/-- what a worker does keeps it: a slot that was found stays free -/
theorem Sound.mono {max : ℕ} {s u : ThreadServer} (hs : Sound max s) (hmain : u.main = s.main)
    (hfree : ∀ j, s.free j = true → u.free j = true) : Sound max u := by
  unfold Sound at hs ⊢
  rw [hmain]
  split
  · rename_i h; simpa only [h] using hs
  · rename_i h
    simp only [h] at hs
    obtain ⟨k, hk, hpinfo, hkfree⟩ := hs
    exact ⟨k, hk, hpinfo, hfree k hkfree⟩
  · trivial

theorem Sound.step {max : ℕ} (hmax : 2 ≤ max) (s : ThreadServer) (m : Move) (u : ThreadServer) (hs : Sound max s)
    (h : s.step max m = some u) : Sound max u := by
  cases m with
  | accept cfd =>
    simp only [ThreadServer.step] at h
    split at h
    · cases h; exact (by omega : 0 < max)
    · cases h; trivial
    · cases h
  | look =>
    obtain ⟨cfd, i, hmain, rfl⟩ := step_look h
    have hi : i < max := by simpa only [Sound, hmain] using hs
    exact sound_look s cfd hi
  | wake =>
    simp only [ThreadServer.step] at h
    split at h
    · cases h; exact (by omega : 1 < max)
    · cases h
  | start thread =>
    simp only [ThreadServer.step] at h
    split at h
    · cases h; trivial
    · cases h
  | work k t =>
    rcases step_work h with hended | ⟨hmain, hfree⟩
    · exact sound_of_ended hended
    · exact hs.mono hmain hfree

theorem run_sound {max : ℕ} (hmax : 2 ≤ max) {s : ThreadServer} {ms : List Move}
    (h : Run.exec (ThreadServer.step max) init ms = some s) : Sound max s :=
  Run.exec_inv (Sound.step hmax) (show Sound max init from trivial) h

/-! ## One pass of the search -/

/-- a pass that has the free slot `k` ahead of it, with its counter at `i`: it goes on looking no further than `k`, or has
ended at a free slot -/
def Passing (max cfd k i : ℕ) (s : ThreadServer) : Prop :=
  s.main = .ended ∨ (s.main = .looking cfd i ∧ i ≤ k ∧ s.free k = true) ∨
    ∃ j < max, s.main = .found cfd (some j) ∧ s.free j = true

theorem Passing.step {max cfd k i : ℕ} (hk : k < max) {s u : ThreadServer} {m : Move} (hs : Passing max cfd k i s)
    (hm : m.inPass = true) (h : s.step max m = some u) : Passing max cfd k (i + looks [m]) u := by
  cases m with
  | look =>
    obtain ⟨cfd', i', hmain, rfl⟩ := step_look h
    rcases hs with hended | ⟨hlooking, hik, hfree⟩ | ⟨j, -, hfound, -⟩
    · cases hmain.symm.trans hended
    · cases hmain.symm.trans hlooking
      refine .inr ?_
      unfold ThreadServer.look
      rw [if_pos (by omega)]
      split_ifs with hi hlast
      · exact .inr ⟨i, by omega, rfl, hi⟩
      · -- the last slot is taken, so it is not `k`
        obtain rfl : i = k := by omega
        exact absurd hfree hi
      · have hne : i ≠ k := by rintro rfl; exact hi hfree
        exact .inl ⟨rfl, (by omega : i + 1 ≤ k), hfree⟩
    · cases hmain.symm.trans hfound
  | work j t =>
    rcases step_work h with hended | ⟨hmain, hkept⟩
    · exact .inl hended
    · rcases hs with hended | ⟨hlooking, hik, hfree⟩ | ⟨j, hj, hfound, hfree⟩
      · exact .inl (hmain.trans hended)
      · exact .inr (.inl ⟨hmain.trans hlooking, hik, hkept k hfree⟩)
      · exact .inr (.inr ⟨j, hj, hmain.trans hfound, hkept j hfree⟩)
  | accept cfd => cases hm
  | wake => cases hm
  | start thread => cases hm

theorem looks_cons (m : Move) (ms : List Move) : looks (m :: ms) = looks [m] + looks ms := by
  unfold looks
  rw [← List.countP_append, List.singleton_append]

/-- **A pass with a free slot ahead of it**, under every schedule of the workers -/
theorem pass_selects {max cfd k i : ℕ} (hk : k < max) {s t : ThreadServer} {ms : List Move}
    (hpass : ∀ m ∈ ms, m.inPass = true) (hs : Passing max cfd k i s)
    (h : Run.exec (ThreadServer.step max) s ms = some t) : Passing max cfd k (i + looks ms) t := by
  induction ms generalizing s i with
  | nil => cases h; exact hs
  | cons m ms ih =>
    obtain ⟨u, hu, ht⟩ := Run.exec_cons h
    rw [looks_cons, ← Nat.add_assoc]
    exact ih (fun m' hm' => hpass m' (List.mem_cons_of_mem m hm')) (hs.step hk (hpass m List.mem_cons_self) hu) ht

/-- **A pass over taken slots** ends in `sleep`, with the table as it was. -/
theorem pass_sleeps {max cfd i : ℕ} {s : ThreadServer} (hi : i < max) (htaken : ∀ k < max, i ≤ k → s.free k = false)
    (hmain : s.main = .looking cfd i) :
    Run.exec (ThreadServer.step max) s (List.replicate (max - i) .look) = some { s with main := .sleeping cfd } := by
  -- by induction on the number of slots behind the counter
  obtain ⟨n, hn⟩ : ∃ n, max = i + n + 1 := ⟨max - i - 1, by omega⟩
  induction n generalizing i s with
  | zero =>
    have hlook : s.look max cfd i = .sleeping cfd := by
      unfold look
      rw [if_pos hi, htaken i hi le_rfl, if_neg Bool.false_ne_true, if_pos (by omega)]
    rw [show max - i = 1 by omega]
    simp only [List.replicate, Run.exec, ThreadServer.step, hmain, hlook]
  | succ n ih =>
    have hlook : s.look max cfd i = .looking cfd (i + 1) := by
      unfold look
      rw [if_pos hi, htaken i hi le_rfl, if_neg Bool.false_ne_true, if_neg (by omega)]
    rw [show max - i = max - (i + 1) + 1 by omega]
    simp only [List.replicate_succ, Run.exec, ThreadServer.step, hmain, hlook]
    exact ih (by omega) (fun k hk hik => htaken k hk (by omega)) rfl (by omega)

/-! ## The search after a sleep -/

theorem step_wake {max cfd : ℕ} {s : ThreadServer} (h : s.main = .sleeping cfd) :
    s.step max .wake = some { s with main := .looking cfd 1 } := by
  simp only [step, h]

/-- with slot 0 as the only free slot, a pass that no worker interferes with comes back to the same sleep -/
theorem pass_returns {max cfd : ℕ} (hmax : 2 ≤ max) {s : ThreadServer} (hs : s.main = .sleeping cfd)
    (hfirst : onlyFirstFree max s) :
    Run.exec (ThreadServer.step max) s (.wake :: List.replicate (max - 1) .look) = some s := by
  obtain ⟨table, main⟩ := s
  cases hs
  have hwake : ThreadServer.step max ⟨table, .sleeping cfd⟩ .wake = some ⟨table, .looking cfd 1⟩ := step_wake rfl
  simp only [Run.exec, hwake]
  exact pass_sleeps (by omega) (fun k hk hk1 => hfirst.2 k hk hk1) rfl

/-- the table is the one of `s`, and the search is asleep or looks at a slot other than slot 0 -/
def Overlooks (max cfd : ℕ) (s t : ThreadServer) : Prop :=
  t.sockInfos = s.sockInfos ∧ (t.main = .sleeping cfd ∨ ∃ i, t.main = .looking cfd i ∧ 0 < i ∧ i < max)

theorem Overlooks.step {max cfd : ℕ} (hmax : 2 ≤ max) {s : ThreadServer} (hfirst : onlyFirstFree max s)
    (t : ThreadServer) (m : Move) (u : ThreadServer) (ht : Overlooks max cfd s t) (hm : m = .wake ∨ m = .look)
    (h : t.step max m = some u) : Overlooks max cfd s u := by
  obtain ⟨htable, hmain⟩ := ht
  rcases hm with rfl | rfl
  · rcases hmain with hsleeping | ⟨i, hlooking, -, -⟩
    · obtain rfl := Option.some.inj (h.symm.trans (step_wake hsleeping))
      exact ⟨htable, .inr ⟨1, rfl, Nat.one_pos, hmax⟩⟩
    · simp only [ThreadServer.step, hlooking] at h
      cases h
  · obtain ⟨cfd', i', hat, rfl⟩ := step_look h
    refine ⟨htable, ?_⟩
    rcases hmain with hsleeping | ⟨i, hlooking, hi0, hi⟩
    · cases hat.symm.trans hsleeping
    · obtain ⟨rfl, rfl⟩ := MainThread.looking.inj (hlooking.symm.trans hat)
      have htaken : t.free i = false := by
        unfold free
        rw [htable]
        exact hfirst.2 i hi hi0
      unfold look
      rw [if_pos hi, htaken, if_neg Bool.false_ne_true]
      split_ifs with hlast
      · exact .inl rfl
      · exact .inr ⟨i + 1, rfl, Nat.succ_pos i, by omega⟩

/-- **A search that does not end.** While slot 0 is the only free slot and no worker runs, the search sleeps and looks for
ever: no number of passes ends it. -/
theorem search_overlooks {max cfd : ℕ} (hmax : 2 ≤ max) {s t : ThreadServer} {ms : List Move}
    (hs : s.main = .sleeping cfd) (hfirst : onlyFirstFree max s) (hms : ∀ m ∈ ms, m = .wake ∨ m = .look)
    (h : Run.exec (ThreadServer.step max) s ms = some t) : Overlooks max cfd s t :=
  Run.exec_inv_along (Overlooks.step hmax hfirst) ⟨rfl, .inl hs⟩ (Run.along_of_forall (fun m hm _ => hms m hm) s) h

theorem selects_of_free {max cfd k : ℕ} {s : ThreadServer} (hs : s.main = .sleeping cfd) (hk : k < max) (hk0 : 0 < k)
    (hfree : s.free k = true) : Selects max s cfd := by
  intro ms t hpass h hrunning
  obtain ⟨u, hu, ht⟩ := Run.exec_cons h
  obtain rfl := Option.some.inj (hu.symm.trans (step_wake hs))
  have hstart : Passing max cfd k 1 { s with main := .looking cfd 1 } := .inr (.inl ⟨rfl, hk0, hfree⟩)
  rcases pass_selects hk hpass hstart ht with hended | ⟨hlooking, hle, -⟩ | hfound
  · exact absurd hended hrunning
  · exact .inl ⟨hlooking, by omega⟩
  · exact .inr hfound

theorem not_selects {max cfd : ℕ} (hmax : 2 ≤ max) {s : ThreadServer} (hs : s.main = .sleeping cfd)
    (hfirst : onlyFirstFree max s) : ¬ Selects max s cfd := by
  intro hselects
  have hlooks : ∀ m ∈ List.replicate (max - 1) Move.look, m.inPass = true := fun m hm => by
    rw [List.eq_of_mem_replicate hm]; rfl
  rcases hselects _ s hlooks (pass_returns hmax hs hfirst) (by rw [hs]; exact MainThread.noConfusion) with h | ⟨k, -, h, -⟩
  · cases hs.symm.trans h.1
  · cases hs.symm.trans h

/-- **The search.** In every state of every run: the pass that follows a sleep selects a free slot if there is one, unless
slot 0 is the only one (in that case the pass comes back to the sleep). A search that has ended has ended at a free
slot. -/
theorem search_selects_iff {max : ℕ} (hmax : 2 ≤ max) {s : ThreadServer} {ms : List Move}
    (h : Run.exec (ThreadServer.step max) init ms = some s) :
    (∀ cfd, s.main = .sleeping cfd →
      (((∃ k < max, s.free k = true) → Selects max s cfd) ↔ ¬ onlyFirstFree max s) ∧
        (onlyFirstFree max s →
          Run.exec (ThreadServer.step max) s (.wake :: List.replicate (max - 1) .look) = some s)) ∧
      ∀ cfd pinfo, s.main = .found cfd pinfo → ∃ k < max, pinfo = some k ∧ s.free k = true := by
  refine ⟨fun cfd hs => ⟨⟨fun hsel hfirst => ?_, fun hnot hfree => ?_⟩, pass_returns hmax hs⟩, fun cfd pinfo hs => ?_⟩
  · exact not_selects hmax hs hfirst (hsel ⟨0, by omega, hfirst.1⟩)
  · obtain ⟨k, hk, hkfree⟩ := hfree
    -- a free slot other than slot 0: `k`, or one that shows that slot 0 is not alone
    have hother : ∃ j < max, 0 < j ∧ s.free j = true := by
      by_contra hno
      have htaken : ∀ j < max, 0 < j → s.free j = false := fun j hj hj0 =>
        Bool.eq_false_of_not_eq_true fun hjfree => hno ⟨j, hj, hj0, hjfree⟩
      obtain rfl : k = 0 := by
        by_contra hk0
        exact hno ⟨k, hk, Nat.pos_of_ne_zero hk0, hkfree⟩
      exact hnot ⟨hkfree, htaken⟩
    obtain ⟨j, hj, hj0, hjfree⟩ := hother
    exact selects_of_free hs hj hj0 hjfree
  · simpa only [Sound, hs] using run_sound hmax h

/-! ## Two slots -/

/-- three clients for two slots: the third waits, and the client of slot `k` leaves -/
def fullRun (k : ℕ) : Option ThreadServer :=
  Run.exec (ThreadServer.step 2) init
    [.accept (some 4), .look, .start (some Buf.zero), .accept (some 5), .look, .look, .start (some Buf.zero),
      .accept (some 6), .look, .look, .work k ⟨.closed, []⟩]

theorem fullRun_zero_isSome : (fullRun 0).isSome = true := by decide +kernel

theorem fullRun_one_isSome : (fullRun 1).isSome = true := by decide +kernel

theorem search_selects_second : Selects 2 ((fullRun 1).get fullRun_one_isSome) 6 := by
  have hrun := (Option.some_get fullRun_one_isSome).symm
  have hsearch := ((search_selects_iff le_rfl hrun).1 6 (by decide +kernel)).1
  have hfirst : ((fullRun 1).get fullRun_one_isSome).free 0 = false := by decide +kernel
  exact hsearch.2 (fun honly => Bool.false_ne_true (hfirst.symm.trans honly.1)) ⟨1, by decide, by decide +kernel⟩

/-- **The first slot is overlooked.** It is free and stays free, and the search goes past it. -/
theorem search_overlooks_first :
    ((fullRun 0).get fullRun_zero_isSome).main = .sleeping 6 ∧ ((fullRun 0).get fullRun_zero_isSome).free 0 = true ∧
      ¬ Selects 2 ((fullRun 0).get fullRun_zero_isSome) 6 := by
  have hmain : ((fullRun 0).get fullRun_zero_isSome).main = .sleeping 6 := by decide +kernel
  have hfirst : ((fullRun 0).get fullRun_zero_isSome).free 0 = true := by decide +kernel
  have hsecond : ((fullRun 0).get fullRun_zero_isSome).free 1 = false := by decide +kernel
  refine ⟨hmain, hfirst, not_selects le_rfl hmain ⟨hfirst, fun k hk hk0 => ?_⟩⟩
  obtain rfl : k = 1 := by omega
  exact hsecond

end ThreadServer

end WebServer.Lesson33
