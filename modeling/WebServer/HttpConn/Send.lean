/-
Sending a prepared response: what `write` hands to the kernel over any number of calls.

A byte is named by the place it is taken from (`Ptr`): `iovBytes` lists the places that an iov covers, in the order in
which `writev` takes them. The calls are read off the log of `Env`: `sentBytes` is the concatenation of what the
`writev` calls took, `counts` the list of their results.

`write` compares the running total `bytesHaveSend` with `iv[0].iov_len`, which shrinks with every partial send of the
header. So after a second short send the header may count as sent although bytes of it are left (`jump`). From then on
the entries point before the start of the mapped file.

- `Progress`: the counters and entries after `s` bytes, before or after such a jump.
- `advance_progress`: one `writev` result.
- `write_sends_iff`: what was sent and what is pending make up the response if and only if no jump happened.
-/
import WebServer.HttpConn.Response

namespace WebServer.HttpConn

open WebServer

/-! ## Places -/

def Ptr.plus : Ptr → ℕ → Ptr
  | .writeBuffer off, k => .writeBuffer (off + k)
  | .mem addr, k => .mem (addr + k)

/-- `k` consecutive places -/
def Ptr.run (p : Ptr) (k : ℕ) : List Ptr := (List.range k).map p.plus

def iovBytes (iov : List IoVec) : List Ptr := iov.flatMap fun v => v.base.run v.len

theorem Ptr.plus_plus (p : Ptr) (m k : ℕ) : (p.plus m).plus k = p.plus (m + k) := by
  cases p <;> simp [Ptr.plus, Int.add_assoc]

theorem Ptr.length_run (p : Ptr) (k : ℕ) : (p.run k).length = k := by simp [Ptr.run]

theorem Ptr.run_add (p : Ptr) (m k : ℕ) : p.run (m + k) = p.run m ++ (p.plus m).run k := by
  simp [Ptr.run, List.range_add, Function.comp_def, Ptr.plus_plus]

theorem Ptr.drop_run (p : Ptr) {n k : ℕ} (h : n ≤ k) : (p.run k).drop n = (p.plus n).run (k - n) := by
  obtain ⟨d, rfl⟩ := Nat.exists_eq_add_of_le h
  rw [Ptr.run_add, List.drop_left' (Ptr.length_run p n), Nat.add_sub_cancel_left]

/-! ## The log -/

/-- the places whose bytes the `writev` calls of a log took -/
def sentBytes (log : List Call) : List Ptr :=
  log.flatMap fun
    | .writev iov n => (iovBytes iov).take n
    | _ => []

/-- the results of the `writev` calls of a log -/
def counts (log : List Call) : List ℕ :=
  log.filterMap fun
    | .writev _ n => some n
    | _ => none

/-- a `writev` takes between one byte and all the bytes it is given -/
def Call.legal : Call → Bool
  | .writev iov n => 1 ≤ n ∧ n ≤ (iovBytes iov).length
  | _ => true

def LegalLog (log : List Call) : Prop := ∀ x ∈ log, x.legal = true

instance (log : List Call) : Decidable (LegalLog log) := inferInstanceAs (Decidable (∀ x ∈ log, x.legal = true))

/-- `write` called once for each list of `writev` results -/
def writeCalls : List (List Writev) → Conn → Env → Option (Conn × Env)
  | [], c, e => some (c, e)
  | rs :: rss, c, e =>
    match write rs c e with
    | some (_, c, e) => writeCalls rss c e
    | none => none

/-- with `s` bytes sent before it, a `writev` of `n` bytes makes `write` take the header of `w` bytes for sent too early -/
def jump (w s n : ℕ) : Bool := s + n < w ∧ w ≤ s + (s + n)

/-- no `writev` result of the list makes `write` jump -/
def noJump (w : ℕ) : ℕ → List ℕ → Bool
  | _, [] => true
  | s, n :: ns => !jump w s n && noJump w (s + n) ns

/-- the places of a response: the header, and the mapped file of a file response -/
def responseBytes (ret : HttpCode) (c : Conn) : List Ptr :=
  (Ptr.writeBuffer 0).run c.writeIndex ++
    if ret = .fileRequest then (Ptr.mem c.fileAddress).run c.fileStat.stSize else []

/-! ## One result -/

/-- a response being sent: the length of the header, and address and length of the mapped file if there is one -/
structure Shape where
  header : ℕ
  file : Option (ℕ × ℕ)

namespace Shape

def size (σ : Shape) : ℕ := σ.file.elim 0 Prod.snd

def total (σ : Shape) : ℕ := σ.header + σ.size

/-- the places of the file from the offset `k` on, which may lie before its start -/
def fileFrom (σ : Shape) (k : ℤ) (len : ℕ) : List Ptr := σ.file.elim [] fun f => (Ptr.mem (f.1 + k)).run len

def whole (σ : Shape) : List Ptr := (Ptr.writeBuffer 0).run σ.header ++ σ.fileFrom 0 σ.size

theorem length_fileFrom (σ : Shape) (k : ℤ) : (σ.fileFrom k σ.size).length = σ.size := by
  unfold fileFrom size
  cases σ.file with
  | none => rfl
  | some f => exact Ptr.length_run _ _

theorem length_whole (σ : Shape) : σ.whole.length = σ.total := by
  rw [whole, List.length_append, Ptr.length_run, length_fileFrom, total]

theorem drop_fileFrom (σ : Shape) (k : ℤ) {n len : ℕ} (h : n ≤ len) :
    (σ.fileFrom k len).drop n = σ.fileFrom (k + n) (len - n) := by
  unfold fileFrom
  cases σ.file with
  | none => exact List.drop_nil
  | some f => simp only [Option.elim, Ptr.drop_run _ h, Ptr.plus, Int.add_assoc]

/-- what is left of the response after `s` bytes -/
theorem drop_whole (σ : Shape) {s : ℕ} (hs : s ≤ σ.total) : σ.whole.drop s =
    (Ptr.writeBuffer s).run (σ.header - s) ++ σ.fileFrom (s - σ.header : ℕ) (σ.size - (s - σ.header)) := by
  rw [whole, List.drop_append, Ptr.length_run, drop_fileFrom _ _ (by unfold total at hs; omega), Int.zero_add]
  congr 1
  rcases Nat.le_total s σ.header with h | h
  · rw [Ptr.drop_run _ h]
    simp [Ptr.plus]
  · rw [List.drop_of_length_le (by rw [Ptr.length_run]; exact h), Nat.sub_eq_zero_of_le h]
    rfl

end Shape

/-- the counters and entries after `s` bytes of the response; `jumped` when the header was taken for sent too early -/
structure Progress (σ : Shape) (s : ℕ) (jumped : Bool) (c : Conn) : Prop where
  writeIndex : c.writeIndex = σ.header
  fileAddress : ∀ f, σ.file = some f → c.fileAddress = f.1
  ivCount : c.ivCount = if σ.file.isSome then 2 else 1
  haveSent : c.bytesHaveSend = s
  toSend : c.bytesToSend = σ.total - s
  inHeader : jumped = false → s < σ.header →
    c.iv0 = ⟨.writeBuffer s, σ.header - s⟩ ∧ ∀ f, σ.file = some f → c.iv1 = ⟨.mem f.1, f.2⟩
  past : jumped = true ∨ σ.header ≤ s →
    c.iv0.len = 0 ∧ ∀ f, σ.file = some f → c.iv1 = ⟨.mem (f.1 + (s - σ.header)), σ.total - s⟩

/-- the bytes that the next `writev` is given -/
def pending (σ : Shape) (s : ℕ) (jumped : Bool) : List Ptr :=
  if jumped = false ∧ s < σ.header then (Ptr.writeBuffer s).run (σ.header - s) ++ σ.fileFrom 0 σ.size
  else σ.fileFrom (s - σ.header) (σ.total - s)

theorem Progress.iovBytes {σ : Shape} {s : ℕ} {j : Bool} {c : Conn} (h : Progress σ s j c) :
    iovBytes c.iov = pending σ s j := by
  have hcount := h.ivCount
  unfold HttpConn.iovBytes Conn.iov pending Shape.fileFrom Shape.size
  split_ifs with hc
  · obtain ⟨h0, h1⟩ := h.inHeader hc.1 hc.2
    cases hf : σ.file with
    | none => simp [hf] at hcount; simp [hcount, h0]
    | some f => simp [hf] at hcount; simp [hcount, h0, h1 f hf]
  · have hpast : j = true ∨ σ.header ≤ s := by
      cases j with
      | true => exact Or.inl rfl
      | false => exact Or.inr (not_lt.1 fun hlt => hc ⟨rfl, hlt⟩)
    obtain ⟨h0, h1⟩ := h.past hpast
    cases hf : σ.file with
    | none => simp [hf] at hcount; simp [hcount, h0, Ptr.run]
    | some f => simp [hf] at hcount; simp [hcount, h0, h1 f hf, Ptr.run]

theorem length_pending_le (σ : Shape) (s : ℕ) (j : Bool) : (pending σ s j).length ≤ σ.total - s := by
  unfold pending
  split_ifs with hc
  · rw [List.length_append, Ptr.length_run, Shape.length_fileFrom]
    unfold Shape.total
    omega
  · unfold Shape.fileFrom
    cases σ.file with
    | none => exact Nat.zero_le _
    | some f => exact (Ptr.length_run _ _).le

/-- **One `writev` result.** -/
theorem advance_progress {σ : Shape} {s n : ℕ} {j : Bool} {c : Conn} (h : Progress σ s j c) (ht : σ.total < 2 ^ 31)
    (hn : s + n ≤ σ.total) : Progress σ (s + n) (j || jump σ.header s n) (advance c n) := by
  have hw : σ.header ≤ σ.total := Nat.le_add_right _ _
  have hint : int32 (n : ℤ) = n := int32_natCast (by omega)
  have hsum : int32 (c.bytesHaveSend + n) = (s + n : ℕ) := by
    rw [h.haveSent, int32_eq (by omega) (by omega)]
    push_cast; rfl
  have hleft : int32 (c.bytesToSend - n) = (σ.total - (s + n) : ℕ) := by
    rw [h.toSend, int32_eq (by omega) (by omega)]
    omega
  have hoff : int32 ((s + n : ℕ) - c.writeIndex) = (s + n : ℕ) - σ.header := by
    rw [h.writeIndex, int32_eq (by omega) (by omega)]
  have hsize1 : sizeT ((s + n : ℕ) : ℤ) = s + n := sizeT_natCast (by omega)
  have hsize2 : sizeT ((σ.total - (s + n) : ℕ) : ℤ) = σ.total - (s + n) := sizeT_natCast (by omega)
  have hend : ((σ.total - (s + n) : ℕ) : ℤ) = σ.total - (s + n : ℕ) := by omega
  unfold advance
  simp only [hint, hsum, hleft, hsize1]
  by_cases hpast : j = true ∨ σ.header ≤ s
  · -- the header counts as sent
    obtain ⟨h0, h1⟩ := h.past hpast
    rw [if_pos (by rw [h0]; exact Nat.zero_le _)]
    refine ⟨h.writeIndex, h.fileAddress, h.ivCount, rfl, hend, fun hj hs => ?_, fun _ => ⟨rfl, fun f hf => ?_⟩⟩
    · rcases hpast with rfl | hle
      · cases hj
      · omega
    · simp only [h.fileAddress f hf, hoff, hsize2]
  · obtain ⟨hj, hlt⟩ := not_or.1 hpast
    obtain rfl : j = false := Bool.eq_false_iff.2 hj
    obtain ⟨h0, h1⟩ := h.inHeader rfl (not_le.1 hlt)
    rw [h0]
    simp only [Bool.false_or]
    by_cases htest : s + n ≥ σ.header - s
    · rw [if_pos htest]
      refine ⟨h.writeIndex, h.fileAddress, h.ivCount, rfl, hend, fun hj hs => ?_, fun _ => ⟨rfl, fun f hf => ?_⟩⟩
      · simp only [jump, decide_eq_false_iff_not] at hj
        omega
      · simp only [h.fileAddress f hf, hoff, hsize2]
    · rw [if_neg htest]
      have hrest : sizeT (((σ.header - s : ℕ) : ℤ) - n) = σ.header - (s + n) := by
        rw [show ((σ.header - s : ℕ) : ℤ) - n = (σ.header - (s + n) : ℕ) by omega]
        exact sizeT_natCast (by omega)
      refine ⟨h.writeIndex, h.fileAddress, h.ivCount, rfl, hend, fun _ _ => ⟨?_, h1⟩, fun hp => ?_⟩
      · simp only [hrest]
      · simp only [jump, decide_eq_true_eq] at hp
        omega

/-- without a new jump the next `writev` continues where the last one ended -/
theorem pending_drop {σ : Shape} {s n : ℕ} {j : Bool} (hn : n ≤ (pending σ s j).length)
    (hj : j = true ∨ jump σ.header s n = false) : pending σ (s + n) (j || jump σ.header s n) = (pending σ s j).drop n := by
  have hlen := hn.trans (length_pending_le σ s j)
  have hjump : (j || jump σ.header s n) = j := by rcases hj with rfl | hj <;> simp_all
  rw [hjump]
  unfold pending at *
  by_cases hc : j = false ∧ s < σ.header
  · rw [if_pos hc] at hn ⊢
    by_cases hc' : s + n < σ.header
    · rw [if_pos ⟨hc.1, hc'⟩, List.drop_append_of_le_length (by rw [Ptr.length_run]; omega), Ptr.drop_run _ (by omega),
        Nat.sub_sub]
      rfl
    · rw [if_neg fun h => hc' h.2, List.drop_append, Ptr.length_run,
        List.drop_of_length_le (by rw [Ptr.length_run]; omega), List.nil_append,
        Shape.drop_fileFrom _ _ (by unfold Shape.total at hlen; omega)]
      unfold Shape.total
      congr 1 <;> omega
  · have hc' : ¬ (j = false ∧ s + n < σ.header) := fun h => hc ⟨h.1, by omega⟩
    rw [if_neg hc] at hn ⊢
    rw [if_neg hc', Shape.drop_fileFrom _ _ hlen]
    congr 1 <;> omega

/-- a jump leaves a byte of the header behind -/
theorem pending_jump {σ : Shape} {s n : ℕ} (hj : jump σ.header s n = true) :
    pending σ (s + n) true ≠ σ.whole.drop (s + n) := by
  simp only [jump, decide_eq_true_eq] at hj
  have hw : σ.header ≤ σ.total := Nat.le_add_right _ _
  intro heq
  have hhead := congrArg (fun l => l[0]?) heq
  rw [Shape.drop_whole σ (by omega)] at hhead
  obtain ⟨k, hk⟩ : ∃ k, σ.header - (s + n) = k + 1 := ⟨σ.header - (s + n) - 1, by omega⟩
  simp only [hk, Ptr.run, List.range_succ_eq_map, List.map_cons, List.cons_append, List.getElem?_cons_zero] at hhead
  unfold pending Shape.fileFrom at hhead
  cases hf : σ.file with
  | none => simp [hf] at hhead
  | some f =>
    simp only [hf, Option.elim, Ptr.run] at hhead
    cases hlen : σ.total - (s + n) with
    | zero => simp [hlen] at hhead
    | succ m => simp [hlen, List.range_succ_eq_map, Ptr.plus] at hhead

/-! ## Whole calls -/

theorem noJump_concat (w s n : ℕ) (ns : List ℕ) :
    noJump w s (ns ++ [n]) = (noJump w s ns && !jump w (s + ns.sum) n) := by
  induction ns generalizing s with
  | nil => simp [noJump]
  | cons m ns ih => simp [noJump, ih, Bool.and_assoc, Nat.add_assoc]

theorem sentBytes_append (l m : List Call) : sentBytes (l ++ m) = sentBytes l ++ sentBytes m := List.flatMap_append

theorem counts_append (l m : List Call) : counts (l ++ m) = counts l ++ counts m := List.filterMap_append

/-- part of the response has been handed over: `log` is what was done for it -/
structure Sending (σ : Shape) (c : Conn) (log : List Call) (s : ℕ) (j : Bool) : Prop where
  progress : Progress σ s j c
  sum : (counts log).sum = s
  jumped : noJump σ.header 0 (counts log) = !j
  good : j = false → sentBytes log = σ.whole.take s ∧ pending σ s j = σ.whole.drop s
  bad : j = true → sentBytes log ++ pending σ s j ≠ σ.whole

theorem Sending.step {σ : Shape} {c : Conn} {log : List Call} {s n : ℕ} {j : Bool} (h : Sending σ c log s j)
    (ht : σ.total < 2 ^ 31) (h1 : 1 ≤ n) (hn : n ≤ (iovBytes c.iov).length) :
    s + n ≤ σ.total ∧
      Sending σ (advance c n) (log ++ [.writev c.iov n]) (s + n) (j || jump σ.header s n) := by
  have hiov := h.progress.iovBytes
  rw [hiov] at hn
  have hle : s + n ≤ σ.total := by
    have := hn.trans (length_pending_le σ s j)
    omega
  have hsent : sentBytes (log ++ [.writev c.iov n]) = sentBytes log ++ (pending σ s j).take n := by
    rw [sentBytes_append, ← hiov]
    simp [sentBytes]
  have hcounts : counts (log ++ [.writev c.iov n]) = counts log ++ [n] := by
    rw [counts_append]
    rfl
  refine ⟨hle, advance_progress h.progress ht hle, ?_, ?_, fun hj => ?_, fun hj => ?_⟩
  · rw [hcounts, List.sum_append, h.sum, List.sum_singleton]
  · rw [hcounts, noJump_concat, h.jumped, h.sum, Nat.zero_add]
    cases j <;> simp
  · obtain ⟨hj1, hj2⟩ := Bool.or_eq_false_iff.1 hj
    obtain ⟨hs, hp⟩ := h.good hj1
    rw [hsent, pending_drop hn (Or.inr hj2), hs, hp, ← List.take_add, List.drop_drop]
    exact ⟨rfl, rfl⟩
  · rw [hsent]
    cases hj1 : j with
    | true =>
      subst hj1
      rw [pending_drop hn (Or.inl rfl), List.append_assoc, List.take_append_drop]
      exact h.bad rfl
    | false =>
      subst hj1
      obtain ⟨hs, hp⟩ := h.good rfl
      have hj2 : jump σ.header s n = true := by simpa using hj
      rw [Bool.false_or, hj2, hs, hp, ← List.take_add]
      intro heq
      refine pending_jump hj2 (@List.append_cancel_left _ (σ.whole.take (s + n)) _ _ ?_)
      rw [heq, List.take_append_drop]

/-- the response counts as sent: no bytes are pending -/
structure Sent (σ : Shape) (c : Conn) (log : List Call) : Prop where
  toSend : c.bytesToSend = 0
  pending : iovBytes c.iov = []
  exact_ : sentBytes log = σ.whole ↔ noJump σ.header 0 (counts log) = true
  sum : (counts log).sum = σ.total

theorem Sending.sent {σ : Shape} {c c' : Conn} {log log' : List Call} {s : ℕ} {j : Bool} (h : Sending σ c log s j)
    (hs : s = σ.total) (hto : c'.bytesToSend = 0) (hiov : c'.iov = c.iov) (hlog1 : sentBytes log' = sentBytes log)
    (hlog2 : counts log' = counts log) : Sent σ c' log' := by
  have hnil : pending σ s j = [] := by
    have := length_pending_le σ s j
    exact List.eq_nil_of_length_eq_zero (by omega)
  refine ⟨hto, ?_, ?_, ?_⟩
  · rw [hiov, h.progress.iovBytes, hnil]
  · rw [hlog1, hlog2, h.jumped]
    cases j with
    | false =>
      have := (h.good rfl).1
      rw [hs, List.take_of_length_le (by rw [Shape.length_whole])] at this
      simp [this]
    | true =>
      have := h.bad rfl
      rw [hnil, List.append_nil] at this
      simp [this]
  · rw [hlog2, h.sum, hs]

theorem unmap_calls (c : Conn) (e : Env) :
    ∃ l, (unmap c e).2.calls = e.calls ++ l ∧ sentBytes l = [] ∧ counts l = [] := by
  unfold unmap
  split_ifs
  · exact ⟨[_], rfl, rfl, rfl⟩
  · exact ⟨[], (List.append_nil _).symm, rfl, rfl⟩

theorem unmap_iov (c : Conn) (e : Env) : (unmap c e).1.iov = c.iov ∧ (unmap c e).1.bytesToSend = c.bytesToSend := by
  unfold unmap
  split_ifs <;> exact ⟨rfl, rfl⟩

/-- the end of a call whose `writev` emptied `bytesToSend` -/
theorem writeLoop_last {rs : List Writev} {n : ℕ} {c c' : Conn} {e e' : Env} {b : Bool}
    (hz : (advance c n).bytesToSend ≤ 0) (h : writeLoop (.sent n :: rs) c e = some (b, c', e')) :
    ∃ l, e'.calls = e.calls ++ (.writev c.iov n :: l) ∧ sentBytes l = [] ∧ counts l = [] ∧
      c'.iov = (advance c n).iov ∧ (c'.bytesToSend = (advance c n).bytesToSend ∨ c'.bytesToSend = 0) := by
  simp only [writeLoop, if_pos hz] at h
  obtain ⟨l, hl, h1, h2⟩ := unmap_calls (advance c n) (e.record (.writev c.iov n))
  obtain ⟨h3, h4⟩ := unmap_iov (advance c n) (e.record (.writev c.iov n))
  have hcalls : (unmap (advance c n) (e.record (.writev c.iov n))).2.calls = e.calls ++ (.writev c.iov n :: l) := by
    rw [hl, Env.record, List.append_assoc]
    rfl
  refine ⟨l, ?_, h1, h2, ?_⟩
  · split_ifs at h <;> cases h <;> rw [modfd_calls, hcalls]
  · split_ifs at h <;> cases h
    · exact ⟨h3, Or.inr rfl⟩
    · exact ⟨h3, Or.inl h4⟩

theorem writeLoop_calls {rs : List Writev} {c c' : Conn} {e e' : Env} {b : Bool}
    (h : writeLoop rs c e = some (b, c', e')) : ∃ l, e'.calls = e.calls ++ l := by
  induction rs generalizing c e with
  | nil => cases h
  | cons r rs ih =>
    cases r with
    | eagain =>
      cases h
      exact ⟨[], by rw [modfd_calls, List.append_nil]⟩
    | error =>
      cases h
      obtain ⟨l, hl, -⟩ := unmap_calls c e
      exact ⟨l, hl⟩
    | sent n =>
      by_cases hz : (advance c n).bytesToSend ≤ 0
      · obtain ⟨l, hl, -⟩ := writeLoop_last hz h
        exact ⟨_, hl⟩
      · simp only [writeLoop, if_neg hz] at h
        obtain ⟨l, hl⟩ := ih h
        exact ⟨.writev c.iov n :: l, by rw [hl, Env.record, List.append_assoc]; rfl⟩

/-- the response is being sent, or has been sent -/
def Underway (σ : Shape) (c : Conn) (log : List Call) : Prop :=
  (∃ s j, s < σ.total ∧ Sending σ c log s j) ∨ Sent σ c log

/-- a call of `write` without an error, in the middle of a response -/
theorem Sending.writeLoop {σ : Shape} (ht : σ.total < 2 ^ 31) {rs : List Writev} {c c' : Conn} {e e' : Env} {b : Bool}
    {log l : List Call} {s : ℕ} {j : Bool} (hs : s < σ.total) (h : Sending σ c log s j)
    (hrun : writeLoop rs c e = some (b, c', e')) (herr : .error ∉ rs) (hl : e'.calls = e.calls ++ l)
    (hlegal : LegalLog l) : Underway σ c' (log ++ l) := by
  induction rs generalizing c e log l s j with
  | nil => cases hrun
  | cons r rs ih =>
    cases r with
    | eagain =>
      cases hrun
      rw [modfd_calls] at hl
      obtain rfl : l = [] := List.append_right_eq_self.1 hl.symm
      rw [List.append_nil]
      exact Or.inl ⟨s, j, hs, h⟩
    | error => exact absurd List.mem_cons_self herr
    | sent n =>
      have hstep : ∀ l', l = .writev c.iov n :: l' → s + n ≤ σ.total ∧
          Sending σ (advance c n) (log ++ [.writev c.iov n]) (s + n) (j || jump σ.header s n) := by
        rintro l' rfl
        obtain ⟨h1, hn⟩ := of_decide_eq_true (hlegal _ List.mem_cons_self)
        exact h.step ht h1 hn
      by_cases hz : (advance c n).bytesToSend ≤ 0
      · obtain ⟨l', hl', h1, h2, h3, h4⟩ := writeLoop_last hz hrun
        obtain rfl := List.append_cancel_left (hl.symm.trans hl')
        obtain ⟨hle, hsend⟩ := hstep l' rfl
        have hto := hsend.progress.toSend
        refine Or.inr (hsend.sent (by omega) (h4.elim (fun h => by omega) id) h3 ?_ ?_)
        · rw [List.append_cons, sentBytes_append, h1, List.append_nil]
        · rw [List.append_cons, counts_append, h2, List.append_nil]
      · simp only [HttpConn.writeLoop, if_neg hz] at hrun
        obtain ⟨l', hl'⟩ := writeLoop_calls hrun
        have heq : l = .writev c.iov n :: l' := by
          refine @List.append_cancel_left _ e.calls _ _ (hl.symm.trans ?_)
          rw [hl', Env.record, List.append_assoc]
          rfl
        obtain ⟨hle, hsend⟩ := hstep l' heq
        have hto := hsend.progress.toSend
        rw [heq, List.append_cons]
        refine ih (by omega) hsend hrun (fun h => herr (List.mem_cons_of_mem _ h)) hl' fun x hm => ?_
        exact hlegal x (heq ▸ List.mem_cons_of_mem _ hm)

theorem write_calls {rs : List Writev} {c c' : Conn} {e e' : Env} {b : Bool} (h : write rs c e = some (b, c', e')) :
    ∃ l, e'.calls = e.calls ++ l := by
  unfold write at h
  split_ifs at h
  · cases h
    exact ⟨[], by rw [modfd_calls, List.append_nil]⟩
  · exact writeLoop_calls h

theorem writeCalls_calls {rss : List (List Writev)} {c c' : Conn} {e e' : Env}
    (h : writeCalls rss c e = some (c', e')) : ∃ l, e'.calls = e.calls ++ l := by
  induction rss generalizing c e with
  | nil =>
    cases h
    exact ⟨[], (List.append_nil _).symm⟩
  | cons rs rss ih =>
    unfold writeCalls at h
    cases hw : write rs c e with
    | none => rw [hw] at h; cases h
    | some x =>
      rw [hw] at h
      obtain ⟨l1, h1⟩ := write_calls hw
      obtain ⟨l2, h2⟩ := ih h
      exact ⟨l1 ++ l2, by rw [h2, h1, List.append_assoc]⟩

theorem Underway.write {σ : Shape} (ht : σ.total < 2 ^ 31) {rs : List Writev} {c c' : Conn} {e e' : Env} {b : Bool}
    {log l : List Call} (h : Underway σ c log) (hrun : write rs c e = some (b, c', e')) (herr : .error ∉ rs)
    (hl : e'.calls = e.calls ++ l) (hlegal : LegalLog l) : Underway σ c' (log ++ l) := by
  unfold HttpConn.write at hrun
  rcases h with ⟨s, j, hs, h⟩ | h
  · have hto := h.progress.toSend
    rw [if_neg (by omega)] at hrun
    exact h.writeLoop ht hs hrun herr hl hlegal
  · rw [if_pos h.toSend] at hrun
    cases hrun
    rw [modfd_calls] at hl
    obtain rfl : l = [] := List.append_right_eq_self.1 hl.symm
    rw [List.append_nil]
    exact Or.inr ⟨rfl, h.pending, h.exact_, h.sum⟩

/-- any number of calls -/
theorem Underway.writeCalls {σ : Shape} (ht : σ.total < 2 ^ 31) {rss : List (List Writev)} {c c' : Conn} {e e' : Env}
    {log l : List Call} (h : Underway σ c log) (hrun : writeCalls rss c e = some (c', e'))
    (herr : ∀ rs ∈ rss, .error ∉ rs) (hl : e'.calls = e.calls ++ l) (hlegal : LegalLog l) :
    Underway σ c' (log ++ l) := by
  induction rss generalizing c e log l with
  | nil =>
    cases hrun
    obtain rfl : l = [] := List.append_right_eq_self.1 hl.symm
    rwa [List.append_nil]
  | cons rs rss ih =>
    unfold HttpConn.writeCalls at hrun
    cases hw : HttpConn.write rs c e with
    | none => rw [hw] at hrun; cases hrun
    | some x =>
      obtain ⟨b, c1, e1⟩ := x
      rw [hw] at hrun
      obtain ⟨l1, h1⟩ := write_calls hw
      obtain ⟨l2, h2⟩ := writeCalls_calls hrun
      obtain rfl : l = l1 ++ l2 := @List.append_cancel_left _ e.calls _ _ (by rw [← hl, h2, h1, List.append_assoc])
      rw [← List.append_assoc]
      refine ih (h.write ht hw (herr rs List.mem_cons_self) h1 fun x hm => ?_) hrun
        (fun rs h => herr rs (List.mem_cons_of_mem _ h)) h2 fun x hm => ?_
      · exact hlegal x (List.mem_append_left _ hm)
      · exact hlegal x (List.mem_append_right _ hm)

/-! ## Prepared responses -/

/-- the shape of the response that `processWrite` prepares -/
def shape (ret : HttpCode) (c : Conn) : Shape :=
  ⟨c.writeIndex, if ret = .fileRequest then some (c.fileAddress, c.fileStat.stSize) else none⟩

theorem whole_shape (ret : HttpCode) (c : Conn) : (shape ret c).whole = responseBytes ret c := by
  unfold Shape.whole Shape.fileFrom Shape.size shape responseBytes
  split_ifs <;> simp

theorem prepared_sending {ret : HttpCode} {c c' : Conn} (h : Prepared ret c c') (hhave : c.bytesHaveSend = 0)
    (ht : (shape ret c').total < 2 ^ 31) : Sending (shape ret c') c' [] 0 false := by
  have hpos := h.index_pos
  have hkept := h.kept
  have hprog : Progress (shape ret c') 0 false c' := by
    by_cases hf : ret = .fileRequest
    · obtain ⟨h1, h2, h3⟩ := h.file hf
      have hfile : (shape ret c').file = some (c'.fileAddress, c'.fileStat.stSize) := if_pos hf
      have htotal : (shape ret c').total = c'.writeIndex + c'.fileStat.stSize := by
        rw [Shape.total, Shape.size, hfile]; rfl
      refine ⟨rfl, fun f hf' => ?_, ?_, hkept.bytesHaveSend.trans hhave, ?_, fun _ _ => ⟨h.iv0, fun f hf' => ?_⟩,
        fun hp => ?_⟩
      · rw [hfile] at hf'; cases hf'; rfl
      · rw [hfile, h1]; rfl
      · rw [h3, htotal, ← hkept.fileStat, int32_eq (by omega) (by omega)]; omega
      · rw [hfile] at hf'; cases hf'; rw [h2, hkept.fileAddress, hkept.fileStat]
      · exact absurd hp (by simp [shape]; omega)
    · obtain ⟨h1, h2⟩ := h.error hf
      have hfile : (shape ret c').file = none := if_neg hf
      have htotal : (shape ret c').total = c'.writeIndex := by rw [Shape.total, Shape.size, hfile]; rfl
      refine ⟨rfl, fun f hf' => ?_, ?_, hkept.bytesHaveSend.trans hhave, ?_, fun _ _ => ⟨h.iv0, fun f hf' => ?_⟩,
        fun hp => ?_⟩
      · rw [hfile] at hf'; cases hf'
      · rw [hfile, h1]; rfl
      · rw [h2, htotal]; omega
      · rw [hfile] at hf'; cases hf'
      · exact absurd hp (by simp [shape]; omega)
  refine ⟨hprog, rfl, rfl, fun _ => ⟨rfl, ?_⟩, fun hj => by cases hj⟩
  unfold pending Shape.whole
  rw [if_pos ⟨rfl, hpos⟩]
  rfl

/-- **What `write` sends.** A response prepared by `processWrite` is sent by any number of `write` calls whose `writev`
results are EAGAIN or counts between one and the bytes given. What was handed to the kernel, followed by what the next
`writev` is given, is the header and then the file, if and only if no result made `write` jump. When the counts add up
to `bytesToSend`, nothing is pending. -/
theorem write_sends_iff {ret : HttpCode} {c₀ c' : Conn} {e e' : Env} {rss : List (List Writev)} {log : List Call}
    (hret : ret.answered = true) (hw : c₀.writeIndex = 0) (hh : c₀.bytesHaveSend = 0)
    (hsize : ret = .fileRequest → (processWrite ret c₀).2.writeIndex + c₀.fileStat.stSize < 2 ^ 31)
    (hrun : writeCalls rss (processWrite ret c₀).2 e = some (c', e')) (herr : ∀ rs ∈ rss, .error ∉ rs)
    (hlog : e'.calls = e.calls ++ log) (hlegal : LegalLog log) :
    (sentBytes log ++ iovBytes c'.iov = responseBytes ret (processWrite ret c₀).2 ↔
      noJump (processWrite ret c₀).2.writeIndex 0 (counts log) = true) ∧
    ((counts log).sum = (processWrite ret c₀).2.bytesToSend → iovBytes c'.iov = []) := by
  have hprep := (processWrite_spec hret hw).2
  generalize hc : (processWrite ret c₀).2 = c at *
  have htotal : (shape ret c).total < 2 ^ 31 := by
    have hlt := hprep.index_lt
    have hbuf : writeBufferSize = 2048 := rfl
    unfold Shape.total Shape.size shape
    split_ifs with hf
    · have := hsize hf
      rw [← hprep.kept.fileStat] at this
      exact this
    · simp only [Option.elim]; omega
  have hsend := prepared_sending hprep hh htotal
  have hto := hsend.progress.toSend
  have hpos : 0 < (shape ret c).total := Nat.lt_of_lt_of_le hprep.index_pos (Nat.le_add_right _ _)
  have hend := Underway.writeCalls htotal (Or.inl ⟨0, false, hpos, hsend⟩) hrun herr hlog hlegal
  rw [List.nil_append] at hend
  rw [← whole_shape]
  rcases hend with ⟨s, j, hs, h⟩ | h
  · constructor
    · rw [h.progress.iovBytes]
      show _ ↔ noJump (shape ret c).header 0 (counts log) = true
      rw [h.jumped]
      cases j with
      | false =>
        obtain ⟨h1, h2⟩ := h.good rfl
        rw [h1, h2, List.take_append_drop]
        simp
      | true => simp [h.bad rfl]
    · intro hsum
      have := h.sum
      omega
  · refine ⟨?_, fun _ => h.pending⟩
    rw [h.pending, List.append_nil]
    exact h.exact_

/-- a connection with a mapped file of ten bytes; its response has a header of 82 bytes -/
def tenBytes : Conn := { Conn.blank with fileAddress := 4096, fileStat := ⟨0o100644, 10⟩ }

/-- two `write` calls that send 40 and 52 bytes -/
def twoCalls : Option (Conn × Env) :=
  writeCalls [[.sent 40, .eagain], [.sent 52]] (processWrite .fileRequest tenBytes).2 Env.blank

theorem twoCalls_isSome : twoCalls.isSome = true := by decide +kernel

theorem write_sends_twoCalls :
    (sentBytes (twoCalls.get twoCalls_isSome).2.calls ++ iovBytes (twoCalls.get twoCalls_isSome).1.iov =
        responseBytes .fileRequest (processWrite .fileRequest tenBytes).2 ↔
      noJump (processWrite .fileRequest tenBytes).2.writeIndex 0 (counts (twoCalls.get twoCalls_isSome).2.calls) =
        true) ∧
    ((counts (twoCalls.get twoCalls_isSome).2.calls).sum = (processWrite .fileRequest tenBytes).2.bytesToSend →
      iovBytes (twoCalls.get twoCalls_isSome).1.iov = []) :=
  @write_sends_iff _ _ _ Env.blank _ [[.sent 40, .eagain], [.sent 52]] _ (by decide) (by decide) (by decide)
    (by decide +kernel) (Option.some_get twoCalls_isSome).symm (by decide) rfl (by decide +kernel)

/-- 60, 10 and 22 bytes: after 70 bytes `write` skips the last 12 bytes of the header and sends 12 bytes from before the
mapped file instead -/
theorem write_skips_header : ∃ c' e',
    writeCalls [[.sent 60, .sent 10, .sent 22]] (processWrite .fileRequest tenBytes).2 Env.blank = some (c', e') ∧
      LegalLog e'.calls ∧ (counts e'.calls).sum = (processWrite .fileRequest tenBytes).2.bytesToSend ∧
      sentBytes e'.calls ≠ responseBytes .fileRequest (processWrite .fileRequest tenBytes).2 := by
  have h : (writeCalls [[.sent 60, .sent 10, .sent 22]] (processWrite .fileRequest tenBytes).2 Env.blank).isSome = true := by
    decide +kernel
  refine ⟨_, _, (Option.some_get h).symm, ?_⟩
  decide +kernel

end WebServer.HttpConn
