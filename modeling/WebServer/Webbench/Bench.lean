/-
Webbench: the clients and the process that adds up their results.

`bench` forks its clients and reads one line from each through a pipe. A client prints its three numbers after
`benchcore` has returned; the line is shorter than what a pipe takes in one piece, so lines do not mix. The parent keeps
its own end of the pipe open for writing, so it never reads an end of file: where a line is missing, `fscanf` waits.

- `Inv`: the pipe holds the lines of the clients that have reported and are not read yet, in the order of the reports,
  and the totals are those of the clients read.
- `bench_scan_iff`: the parent goes on if and only if a client has reported that is not counted yet; the message that
  clients have died is never printed.
- `bench_totals`: when the parent is done, every client has reported and the totals are the sums of the clients' numbers,
  in whatever order they ran and reported. The exit status is the number of pages of the last one.
-/
import WebServer.Webbench.Child

namespace WebServer.Webbench

variable {n : ℕ}

/-! ## The processes -/

/-- what a client prints: "%d %d %d\n" -/
def Child.line (c : Child) : Bytes :=
  decimal c.speed ++ (space :: (decimal c.failed ++ (space :: (decimal c.bytes ++ [lf]))))

inductive Status where
  | reading
  /-- the message "Some of our childrens died." -/
  | died
  | finished
deriving DecidableEq, Repr

structure Parent where
  status : Status
  clients : ℕ
  i : ℤ
  j : ℤ
  k : ℤ
  speed : ℤ
  failed : ℤ
  bytes : ℤ
deriving DecidableEq, Repr

/-- the body of the loop, after `fscanf` has stored the numbers `vs` -/
def Parent.add (p : Parent) (vs : List ℤ) : Parent :=
  let p := { p with i := vs[0]?.getD p.i, j := vs[1]?.getD p.j, k := vs[2]?.getD p.k }
  if vs.length < 2 then { p with status := .died }
  else
    { p with
      speed := int32 (p.speed + p.i)
      failed := int32 (p.failed + p.j)
      bytes := int32 (p.bytes + p.k)
      clients := p.clients - 1
      status := if p.clients - 1 = 0 then .finished else .reading }

structure Bench (n : ℕ) where
  child : Fin n → Child
  /-- the clients that have written their line -/
  reported : Fin n → Bool
  pipe : Bytes
  parent : Parent

/-- after the last `fork`; `i` has counted the clients -/
def Bench.start (n : ℕ) : Bench n := ⟨fun _ => .start, fun _ => false, [], ⟨.reading, n, n, 0, 0, 0, 0, 0⟩⟩

inductive Op (n : ℕ) where
  | call (k : Fin n) (c : Call)
  | report (k : Fin n)
  | scan

def bench (cfg : Config) (s : Bench n) : Op n → Option (Bench n)
  | .call k c => (benchcore cfg (s.child k) c).map fun t => { s with child := Function.update s.child k t }
  | .report k =>
    if (s.child k).pc = .returned ∧ s.reported k = false then
      some { s with reported := Function.update s.reported k true, pipe := s.pipe ++ (s.child k).line }
    else none
  | .scan =>
    if s.parent.status = .reading then
      (scanInts 3 s.pipe).map fun r => { s with pipe := r.2, parent := s.parent.add r.1 }
    else none

/-! ## Lines -/

/-- the counters of a client are ints -/
def Child.Ints (c : Child) : Prop :=
  ∀ x ∈ [c.speed, c.failed, c.bytes], -2 ^ 31 ≤ x ∧ x < 2 ^ 31

/-- **The parent reads what the client printed**, up to the line end -/
theorem scanInts_line {ws : Bytes} (hws : ∀ b ∈ ws, isSpace b = true) {c : Child} (hc : c.Ints) (t : Bytes) :
    scanInts 3 (ws ++ (c.line ++ t)) = some ([c.speed, c.failed, c.bytes], lf :: t) := by
  have hsp : ∀ b ∈ [space], isSpace b = true := by decide +kernel
  obtain ⟨s1, s2⟩ := hc c.speed (by simp)
  obtain ⟨f1, f2⟩ := hc c.failed (by simp)
  obtain ⟨b1, b2⟩ := hc c.bytes (by simp)
  have hbytes : scanInts 1 ([space] ++ (decimal c.bytes ++ lf :: t)) = some ([c.bytes], lf :: t) :=
    scanInts_decimal hsp (by decide) b1 b2
  have hfailed : scanInts 2 ([space] ++ (decimal c.failed ++ space :: (decimal c.bytes ++ lf :: t))) =
      some ([c.failed, c.bytes], lf :: t) :=
    (scanInts_decimal hsp (by decide) f1 f2).trans (congrArg (Option.map _) hbytes)
  calc scanInts 3 (ws ++ (c.line ++ t)) =
      scanInts 3 (ws ++ (decimal c.speed ++ space :: (decimal c.failed ++ space :: (decimal c.bytes ++ lf :: t)))) := by
        simp [Child.line]
    _ = (scanInts 2 _).map fun r => (c.speed :: r.1, r.2) := scanInts_decimal hws (by decide) s1 s2
    _ = _ := congrArg (Option.map _) hfailed

theorem ints_start : Child.start.Ints := by
  unfold Child.Ints
  decide

theorem int32_range (x : ℤ) : -2 ^ 31 ≤ int32 x ∧ int32 x < 2 ^ 31 := ⟨(int32_spec x).1, (int32_spec x).2.1⟩

theorem ints_step {cfg : Config} {s t : Child} {c : Call} (hs : s.Ints) (ht : benchcore cfg s c = some t) : t.Ints := by
  have e := benchcore_effect ht
  obtain ⟨hspeed, hfailed, hbytes⟩ :
      (-2 ^ 31 ≤ s.speed ∧ s.speed < 2 ^ 31) ∧ (-2 ^ 31 ≤ s.failed ∧ s.failed < 2 ^ 31) ∧
        (-2 ^ 31 ≤ s.bytes ∧ s.bytes < 2 ^ 31) := by
    simpa [Child.Ints] using hs
  unfold Child.Ints
  simp only [List.mem_cons, List.not_mem_nil, or_false, forall_eq_or_imp, forall_eq]
  refine ⟨?_, ?_, ?_⟩
  · rw [e.speed]
    split_ifs
    · exact int32_range _
    · exact hspeed
  · by_cases hret : t.pc = .returned
    · rw [(e.corrected hret).2]
      split_ifs <;> omega
    · rw [e.failed hret]
      split_ifs
      · exact int32_range _
      · exact hfailed
  · rw [e.bytes]
    split_ifs
    · exact hbytes
    · exact int32_range _

/-! ## The invariant -/

/-- `done` are the clients that the parent has counted, `due` those whose lines are in the pipe -/
structure Inv (done due : List (Fin n)) (s : Bench n) : Prop where
  nodup : (done ++ due).Nodup
  reported : ∀ k, s.reported k = true ↔ k ∈ done ++ due
  returned : ∀ k ∈ done ++ due, (s.child k).pc = .returned
  ints : ∀ k, (s.child k).Ints
  /-- the line end of the line before is still there -/
  pipe : s.pipe = (if done = [] then [] else [lf]) ++ (due.map fun k => (s.child k).line).flatten
  clients : s.parent.clients + done.length = n
  speed : s.parent.speed = int32 (done.map fun k => (s.child k).speed).sum
  failed : s.parent.failed = int32 (done.map fun k => (s.child k).failed).sum
  bytes : s.parent.bytes = int32 (done.map fun k => (s.child k).bytes).sum
  status : s.parent.status = if s.parent.clients = 0 then .finished else .reading
  last : ∀ k ∈ done.getLast?, s.parent.i = (s.child k).speed

theorem inv_start (hn : 0 < n) : Inv [] [] (Bench.start n) where
  nodup := List.nodup_nil
  reported := fun k => by simp [Bench.start]
  returned := fun k hk => by cases hk
  ints := fun k => ints_start
  pipe := rfl
  clients := rfl
  speed := rfl
  failed := rfl
  bytes := rfl
  status := (if_neg hn.ne').symm
  last := fun k hk => by cases hk

variable {done due : List (Fin n)} {s t : Bench n} {cfg : Config}

/-- a client that still runs is not among the reported ones, so its counters are in no line and in no sum -/
theorem Inv.call (hs : Inv done due s) {k : Fin n} {c : Call} {u : Child} (hu : benchcore cfg (s.child k) c = some u) :
    Inv done due { s with child := Function.update s.child k u } := by
  have hk : k ∉ done ++ due := fun hk => (benchcore_effect hu).running (hs.returned k hk)
  have hsame : ∀ j ∈ done ++ due, Function.update s.child k u j = s.child j :=
    fun j hj => Function.update_of_ne (ne_of_mem_of_not_mem hj hk) _ _
  have hdone : ∀ f : Child → ℤ,
      (done.map fun j => f (Function.update s.child k u j)) = done.map fun j => f (s.child j) :=
    fun f => List.map_congr_left fun j hj => congrArg f (hsame j (List.mem_append_left _ hj))
  have hdue : (due.map fun j => (Function.update s.child k u j).line) = due.map fun j => (s.child j).line :=
    List.map_congr_left fun j hj => congrArg Child.line (hsame j (List.mem_append_right _ hj))
  refine ⟨hs.nodup, hs.reported, ?_, ?_, ?_, hs.clients, ?_, ?_, ?_, hs.status, ?_⟩
  · intro j hj
    dsimp only
    rw [hsame j hj]
    exact hs.returned j hj
  · intro j
    dsimp only
    by_cases hj : j = k
    · rw [hj, Function.update_self]
      exact ints_step (hs.ints k) hu
    · rw [Function.update_of_ne hj]
      exact hs.ints j
  · exact hs.pipe.trans (by rw [hdue])
  · exact hs.speed.trans (by rw [hdone Child.speed])
  · exact hs.failed.trans (by rw [hdone Child.failed])
  · exact hs.bytes.trans (by rw [hdone Child.bytes])
  · intro j hj
    dsimp only
    rw [hsame j (List.mem_append_left _ (List.mem_of_mem_getLast? hj))]
    exact hs.last j hj

theorem Inv.report (hs : Inv done due s) {k : Fin n} (hret : (s.child k).pc = .returned)
    (hk : s.reported k = false) : Inv done (due ++ [k])
      { s with reported := Function.update s.reported k true, pipe := s.pipe ++ (s.child k).line } := by
  have hmem : k ∉ done ++ due := by
    rw [← hs.reported k, hk]
    exact Bool.false_ne_true
  have happ : done ++ (due ++ [k]) = (done ++ due) ++ [k] := (List.append_assoc _ _ _).symm
  refine ⟨?_, ?_, ?_, hs.ints, ?_, hs.clients, hs.speed, hs.failed, hs.bytes, hs.status, hs.last⟩
  · rw [happ]
    exact hs.nodup.append (List.nodup_singleton k) (by simpa using hmem)
  · intro j
    rw [happ, List.mem_append, List.mem_singleton, ← hs.reported j]
    by_cases hj : j = k <;> simp [hj]
  · intro j hj
    rw [happ, List.mem_append, List.mem_singleton] at hj
    rcases hj with hj | rfl
    · exact hs.returned j hj
    · exact hret
  · dsimp only
    rw [List.map_append, List.flatten_append, ← List.append_assoc, ← hs.pipe]
    simp

theorem gap_space (done : List (Fin n)) : ∀ b ∈ (if done = [] then [] else [lf] : Bytes), isSpace b = true := by
  split_ifs <;> decide +kernel

/-- what `fscanf` finds: the line of the client that reported first, or nothing yet -/
theorem Inv.scanInts (hs : Inv done due s) : WebServer.scanInts 3 s.pipe =
    match due with
    | [] => none
    | k :: due => some ([(s.child k).speed, (s.child k).failed, (s.child k).bytes],
        lf :: (due.map fun k => (s.child k).line).flatten) := by
  rw [hs.pipe]
  cases due with
  | nil =>
    rw [List.map_nil, List.flatten_nil, List.append_nil]
    exact scanInts_wait (gap_space done) 2
  | cons k due =>
    rw [List.map_cons, List.flatten_cons]
    exact scanInts_line (gap_space done) (hs.ints k) _

theorem Inv.scan {k : Fin n} (hs : Inv done (k :: due) s) (hread : s.parent.status = .reading) :
    Inv (done ++ [k]) due
      { s with
        pipe := lf :: (due.map fun k => (s.child k).line).flatten
        parent := s.parent.add [(s.child k).speed, (s.child k).failed, (s.child k).bytes] } := by
  have hclients : s.parent.clients ≠ 0 := by
    intro h0
    have := hs.status
    rw [hread, if_pos h0] at this
    cases this
  have hadd := hs.clients
  have hall : done ++ [k] ++ due = done ++ k :: due := by simp
  have hsum : ∀ f : Fin n → ℤ, int32 (int32 (done.map f).sum + f k) = int32 ((done ++ [k]).map f).sum := by
    intro f
    rw [int32_add]
    simp
  refine ⟨?_, ?_, ?_, hs.ints, ?_, ?_, ?_, ?_, ?_, ?_, ?_⟩
  · rw [hall]
    exact hs.nodup
  · rw [hall]
    exact hs.reported
  · rw [hall]
    exact hs.returned
  · simp
  · rw [List.length_append, List.length_singleton]
    change s.parent.clients - 1 + (done.length + 1) = n
    omega
  · change int32 (s.parent.speed + (s.child k).speed) = _
    rw [hs.speed]
    exact hsum fun k => (s.child k).speed
  · change int32 (s.parent.failed + (s.child k).failed) = _
    rw [hs.failed]
    exact hsum fun k => (s.child k).failed
  · change int32 (s.parent.bytes + (s.child k).bytes) = _
    rw [hs.bytes]
    exact hsum fun k => (s.child k).bytes
  · rfl
  · intro j hj
    rw [List.getLast?_concat] at hj
    cases hj
    rfl

theorem inv_step (hs : Inv done due s) {o : Op n} (ht : bench cfg s o = some t) : ∃ done due, Inv done due t := by
  cases o with
  | call k c =>
    obtain ⟨u, hu, rfl⟩ := Option.map_eq_some_iff.1 ht
    exact ⟨done, due, hs.call hu⟩
  | report k =>
    simp only [bench] at ht
    split_ifs at ht with hk
    obtain rfl := Option.some.inj ht
    exact ⟨done, due ++ [k], hs.report hk.1 hk.2⟩
  | scan =>
    simp only [bench] at ht
    split_ifs at ht with hread
    rw [hs.scanInts] at ht
    cases due with
    | nil => cases ht
    | cons k due =>
      obtain rfl := Option.some.inj ht
      exact ⟨done ++ [k], due, hs.scan hread⟩

theorem inv_run (hn : 0 < n) {os : List (Op n)} (h : Run.exec (bench cfg) (Bench.start n) os = some s) :
    ∃ done due, Inv done due s :=
  have hstep : ∀ s o t, (∃ done due, Inv done due s) → bench cfg s o = some t → ∃ done due, Inv done due t :=
    fun _ _ _ hs ht => inv_step hs.choose_spec.choose_spec ht
  Run.exec_inv hstep ⟨[], [], inv_start hn⟩ h

/-! ## Results -/

/-- the clients that have reported -/
def Bench.reports (s : Bench n) : Finset (Fin n) := Finset.univ.filter fun k => s.reported k = true

theorem Inv.reports (hs : Inv done due s) : s.reports = (done ++ due).toFinset := by
  ext k
  rw [Bench.reports, Finset.mem_filter, List.mem_toFinset, ← hs.reported k]
  exact and_iff_right (Finset.mem_univ k)

/-- **The parent waits for every client.** In every state of every run, the parent has not given up; it can read a line
if and only if more clients have reported than it has counted. A client that never reports keeps it waiting. -/
theorem bench_scan_iff (hn : 0 < n) {os : List (Op n)} (h : Run.exec (bench cfg) (Bench.start n) os = some s) :
    s.parent.status ≠ .died ∧ ((bench cfg s .scan).isSome ↔ n - s.parent.clients < s.reports.card) := by
  obtain ⟨done, due, hs⟩ := inv_run hn h
  have hcard : s.reports.card = done.length + due.length := by
    rw [hs.reports, List.toFinset_card_of_nodup hs.nodup, List.length_append]
  have hle : s.reports.card ≤ n := (Finset.card_le_univ _).trans_eq (Fintype.card_fin n)
  have hadd := hs.clients
  refine ⟨?_, ?_⟩
  · rw [hs.status]
    split_ifs <;> decide
  · unfold bench
    rw [hs.scanInts, hs.status, hcard]
    cases due with
    | nil => simp; omega
    | cons k due =>
      have hne : s.parent.clients ≠ 0 := by
        rw [hcard, List.length_cons] at hle
        omega
      simp [hne]
      omega

def firstClient : Fin 2 := ⟨0, by decide⟩

def secondClient : Fin 2 := ⟨1, by decide⟩

/-- two clients, one of which has reported -/
def waitingBench : Option (Bench 2) := Run.exec (bench ⟨.v11, false⟩) (Bench.start 2)
  [.call secondClient .alarm, .call secondClient .test, .report secondClient]

theorem waitingBench_isSome : waitingBench.isSome = true := by decide +kernel

theorem bench_scan_iff_waiting : (waitingBench.get waitingBench_isSome).parent.status ≠ .died ∧
    ((bench ⟨.v11, false⟩ (waitingBench.get waitingBench_isSome) .scan).isSome ↔
      2 - (waitingBench.get waitingBench_isSome).parent.clients <
        (waitingBench.get waitingBench_isSome).reports.card) :=
  bench_scan_iff (by decide) (Option.some_get waitingBench_isSome).symm

/-- **The totals are the sums over the clients.** When the parent is done, every client has reported, and `speed`,
`failed` and `bytes` are the sums of the clients' numbers, as ints, for every order in which the clients ran and
reported. The value that `bench` returns is the number of pages of one of them. -/
theorem bench_totals (hn : 0 < n) {os : List (Op n)} (h : Run.exec (bench cfg) (Bench.start n) os = some s)
    (hdone : s.parent.status = .finished) :
    (∀ k, s.reported k = true ∧ (s.child k).pc = .returned) ∧
      s.parent.speed = int32 (∑ k, (s.child k).speed) ∧ s.parent.failed = int32 (∑ k, (s.child k).failed) ∧
      s.parent.bytes = int32 (∑ k, (s.child k).bytes) ∧ ∃ k, s.parent.i = (s.child k).speed := by
  obtain ⟨done, due, hs⟩ := inv_run hn h
  have hzero : s.parent.clients = 0 := by
    have := hs.status
    rw [hdone] at this
    by_contra h0
    rw [if_neg h0] at this
    cases this
  have hlen : done.length = n := by
    have := hs.clients
    omega
  have hnd : done.Nodup := (List.nodup_append.1 hs.nodup).1
  have huniv : done.toFinset = Finset.univ := by
    rw [← Finset.card_eq_iff_eq_univ, List.toFinset_card_of_nodup hnd, hlen, Fintype.card_fin]
  have hmem : ∀ k, k ∈ done := fun k => List.mem_toFinset.1 (huniv ▸ Finset.mem_univ k)
  have hsum : ∀ f : Fin n → ℤ, (done.map f).sum = ∑ k, f k := by
    intro f
    rw [← List.sum_toFinset f hnd, huniv]
  refine ⟨fun k => ⟨?_, ?_⟩, ?_, ?_, ?_, ?_⟩
  · exact (hs.reported k).2 (List.mem_append_left _ (hmem k))
  · exact hs.returned k (List.mem_append_left _ (hmem k))
  · rw [hs.speed, hsum]
  · rw [hs.failed, hsum]
  · rw [hs.bytes, hsum]
  · have hne : done ≠ [] := List.length_pos_iff.1 (by omega)
    exact ⟨done.getLast hne, hs.last _ (List.getLast?_eq_some_getLast hne)⟩

/-- two clients; the second one reports first -/
def sampleOps : List (Op 2) :=
  sampleCalls.map (.call firstClient) ++ [.call secondClient .alarm, .call secondClient .test, .report secondClient, .scan,
    .report firstClient, .scan]

def sampleBench : Option (Bench 2) := Run.exec (bench ⟨.v11, false⟩) (Bench.start 2) sampleOps

theorem sampleBench_isSome : sampleBench.isSome = true := by decide +kernel

theorem bench_totals_sample :
    (∀ k, (sampleBench.get sampleBench_isSome).reported k = true ∧
      ((sampleBench.get sampleBench_isSome).child k).pc = .returned) ∧
    (sampleBench.get sampleBench_isSome).parent.speed =
      int32 (∑ k, ((sampleBench.get sampleBench_isSome).child k).speed) ∧
    (sampleBench.get sampleBench_isSome).parent.failed =
      int32 (∑ k, ((sampleBench.get sampleBench_isSome).child k).failed) ∧
    (sampleBench.get sampleBench_isSome).parent.bytes =
      int32 (∑ k, ((sampleBench.get sampleBench_isSome).child k).bytes) ∧
    ∃ k, (sampleBench.get sampleBench_isSome).parent.i = ((sampleBench.get sampleBench_isSome).child k).speed :=
  bench_totals (by decide) (Option.some_get sampleBench_isSome).symm (by decide +kernel)

end WebServer.Webbench
