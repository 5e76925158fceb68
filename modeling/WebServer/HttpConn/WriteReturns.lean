/-
Whether a call of `write` returns, for any response that is being sent and any results of `writev`.

The loop of `write` has no exit for a `writev` that is given no bytes and returns 0. So a call returns as long as the
entries cover what `bytesToSend` counts:
- a file response always does, also after the header was taken for sent too early (`jump`): `iv[1]` then has
  `bytesToSend` bytes;
- an error response has `ivCount` 1: after a jump `iv[0]` is empty, `bytesToSend` is not zero, and only a failing `writev`
  ends the loop.

- `Pending`: the states that a response goes through while it is sent.
- `Unsent`: what the two kinds of responses keep until they are sent.
- `write_returns_iff`: a call returns within `bytesToSend + 1` results if and only if the response has a file, or a result
  is -1, or neither an earlier result nor one of this call makes `write` jump.
-/
import WebServer.HttpConn.Send

namespace WebServer.HttpConn

open WebServer

/-! ## Results of `writev` -/

/-- the bytes that `writev` is given -/
def Conn.iovLen (c : Conn) : ℕ := (c.iov.map IoVec.len).sum

/-- a count that `writev` can return: between one and the bytes given, or zero if no bytes are given; one call transfers
fewer than 2^31 bytes -/
def takes (c : Conn) (n : ℕ) : Bool := n < 2 ^ 31 ∧ n ≤ c.iovLen ∧ (1 ≤ n ∨ c.iovLen = 0)

/-- results that the `writev` calls of one `write` can return, one after the other -/
def possible : List Writev → Conn → Bool
  | .sent n :: rs, c => takes c n && (decide ((advance c n).bytesToSend ≤ 0) || possible rs (advance c n))
  | _, _ => true

def Writev.failed : Writev → Bool
  | .sent _ => false
  | _ => true

/-- the counts among the results of one `write` -/
def sentCounts (rs : List Writev) : List ℕ :=
  rs.filterMap fun
    | .sent n => some n
    | _ => none

/-- a response that `processWrite` has prepared and of which some `writev` calls have sent a part -/
inductive Pending : Conn → Prop
  | prepared {ret : HttpCode} {c : Conn} (hret : ret.answered = true) (hw : c.writeIndex = 0)
      (hh : c.bytesHaveSend = 0) (hpos : 0 < (processWrite ret c).2.bytesToSend) : Pending (processWrite ret c).2
  | sent {c : Conn} {n : ℕ} (h : Pending c) (hn : takes c n = true) (hpos : 0 < (advance c n).bytesToSend) :
      Pending (advance c n)

/-! ## One result -/

/-- what a response keeps until it is sent -/
structure Unsent (c : Conn) : Prop where
  have_nonneg : 0 ≤ c.bytesHaveSend
  toSend_pos : 0 < c.bytesToSend
  bound : c.bytesHaveSend + c.bytesToSend < 2 ^ 31
  header_lt : c.iv0.len < 2 ^ 64
  count : c.ivCount = 1 ∨ c.ivCount = 2
  /-- a file response has bytes for the next `writev` -/
  file : c.ivCount = 2 → 0 < c.iovLen
  /-- an error response has all the bytes left for the next `writev`, or none -/
  error : c.ivCount = 1 → c.bytesHaveSend + c.bytesToSend = c.writeIndex ∧ (c.iv0.len = c.bytesToSend ∨ c.iv0.len = 0)

theorem iovLen_one {c : Conn} (h : c.ivCount = 1) : c.iovLen = c.iv0.len := by
  simp [Conn.iovLen, Conn.iov, h]

theorem iovLen_two {c : Conn} (h : c.ivCount = 2) : c.iovLen = c.iv0.len + c.iv1.len := by
  simp [Conn.iovLen, Conn.iov, h]

theorem advance_ivCount (c : Conn) (n : ℕ) : (advance c n).ivCount = c.ivCount := by
  unfold advance
  dsimp only
  split_ifs <;> rfl

theorem advance_writeIndex (c : Conn) (n : ℕ) : (advance c n).writeIndex = c.writeIndex := by
  unfold advance
  dsimp only
  split_ifs <;> rfl

/-- the counters after a result, as long as none of them overflows -/
theorem Unsent.counters {c : Conn} (h : Unsent c) {n : ℕ} (hn : n < 2 ^ 31) :
    (advance c n).bytesToSend = c.bytesToSend - n ∧
      (n ≤ c.bytesToSend → (advance c n).bytesHaveSend = c.bytesHaveSend + n) := by
  have h1 := h.have_nonneg
  have h2 := h.toSend_pos
  have h3 := h.bound
  have hint : int32 (n : ℤ) = n := int32_natCast (by omega)
  have hto : int32 (c.bytesToSend - n) = c.bytesToSend - n := int32_eq (by omega) (by omega)
  constructor
  · unfold advance
    dsimp only
    split_ifs <;> rw [hint, hto]
  · intro hle
    have hhave : int32 (c.bytesHaveSend + n) = c.bytesHaveSend + n := int32_eq (by omega) (by omega)
    unfold advance
    dsimp only
    split_ifs <;> rw [hint, hhave]

/-- the entries after a result that leaves bytes to send: the header counts as sent, or it is shortened -/
theorem Unsent.entries {c : Conn} (h : Unsent c) {n : ℕ} (hn : (n : ℤ) < c.bytesToSend) :
    ((c.iv0.len : ℤ) ≤ c.bytesHaveSend + n ∧ (advance c n).iv0.len = 0 ∧
      ((advance c n).iv1.len : ℤ) = c.bytesToSend - n) ∨
    (c.bytesHaveSend + n < c.iv0.len ∧ ((advance c n).iv0.len : ℤ) = c.iv0.len - n) := by
  have h1 := h.have_nonneg
  have h3 := h.bound
  have h4 := h.header_lt
  have hint : int32 (n : ℤ) = n := int32_natCast (by omega)
  have hto : int32 (c.bytesToSend - n) = c.bytesToSend - n := int32_eq (by omega) (by omega)
  have hhave : int32 (c.bytesHaveSend + n) = c.bytesHaveSend + n := int32_eq (by omega) (by omega)
  obtain ⟨a, ha⟩ := Int.eq_ofNat_of_zero_le (a := c.bytesHaveSend + n) (by omega)
  obtain ⟨b, hb⟩ := Int.eq_ofNat_of_zero_le (a := c.bytesToSend - n) (by omega)
  have hsa : sizeT (a : ℤ) = a := sizeT_natCast (by omega)
  have hsb : sizeT (b : ℤ) = b := sizeT_natCast (by omega)
  unfold advance
  dsimp only
  rw [hint, hto, hhave, ha, hb, hsa, hsb]
  split_ifs with htest
  · left
    exact ⟨by exact_mod_cast htest, rfl, rfl⟩
  · right
    have hlt : a < c.iv0.len := not_le.1 htest
    refine ⟨by exact_mod_cast hlt, ?_⟩
    obtain ⟨d, hd⟩ := Int.eq_ofNat_of_zero_le (a := (c.iv0.len : ℤ) - n) (by omega)
    rw [hd, sizeT_natCast (by omega)]

/-- **A result that leaves bytes to send.** -/
theorem Unsent.sent {c : Conn} (h : Unsent c) {n : ℕ} (ht : takes c n = true)
    (hpos : 0 < (advance c n).bytesToSend) : Unsent (advance c n) := by
  obtain ⟨hint, hle, -⟩ := of_decide_eq_true ht
  obtain ⟨hto, hhave⟩ := h.counters hint
  have hn : (n : ℤ) < c.bytesToSend := by omega
  have hhave := hhave hn.le
  have h1 := h.have_nonneg
  have h3 := h.bound
  have hentries := h.entries hn
  refine ⟨?_, hpos, ?_, ?_, ?_, fun hc => ?_, fun hc => ?_⟩
  · rw [hhave]
    exact Int.add_nonneg h1 (Int.natCast_nonneg n)
  · calc (advance c n).bytesHaveSend + (advance c n).bytesToSend
        = c.bytesHaveSend + c.bytesToSend := by rw [hhave, hto]; ring
      _ < 2 ^ 31 := h3
  · have h4 := h.header_lt
    omega
  · rw [advance_ivCount]
    exact h.count
  · -- bytes are left: in the file entry, or in the shortened header
    rw [iovLen_two hc]
    omega
  · rw [advance_ivCount] at hc
    obtain ⟨hsum, hall⟩ := h.error hc
    rw [iovLen_one hc] at hle
    refine ⟨?_, ?_⟩
    · rw [hhave, hto, advance_writeIndex, ← hsum]
      ring
    · omega

theorem Pending.unsent {c : Conn} (h : Pending c) : Unsent c := by
  induction h with
  | @prepared ret c hret hw hh hpos =>
    have hprep := (processWrite_spec hret hw).2
    have hhave : (processWrite ret c).2.bytesHaveSend = 0 := hprep.kept.bytesHaveSend.trans hh
    have hlt := hprep.index_lt
    have hbuf : writeBufferSize = 2048 := rfl
    have hlen : (processWrite ret c).2.iv0.len = (processWrite ret c).2.writeIndex := by rw [hprep.iv0]
    by_cases hf : ret = .fileRequest
    · obtain ⟨h1, -, h2⟩ := hprep.file hf
      have hint := (int32_spec ((processWrite ret c).2.writeIndex + c.fileStat.stSize)).2
      refine ⟨hhave.ge, hpos, ?_, by omega, Or.inr h1, fun _ => ?_, fun hc => ?_⟩
      · rw [hhave, h2]
        omega
      · rw [iovLen_two h1, hlen]
        exact Nat.lt_add_right _ hprep.index_pos
      · rw [h1] at hc
        cases hc
    · obtain ⟨h1, h2⟩ := hprep.error hf
      refine ⟨hhave.ge, hpos, ?_, by omega, Or.inl h1, fun hc => ?_, fun _ => ⟨?_, Or.inl ?_⟩⟩
      · rw [hhave, h2]
        omega
      · rw [h1] at hc
        cases hc
      · rw [hhave, h2, Int.zero_add]
      · rw [hlen, h2]
  | sent h hn hpos ih => exact ih.sent hn hpos

/-! ## Whole calls -/

theorem writeLoop_failed {rs : List Writev} (h : ∃ r ∈ rs, r.failed = true) (c : Conn) (e : Env) :
    (writeLoop rs c e).isSome = true := by
  induction rs generalizing c e with
  | nil => obtain ⟨r, hr, -⟩ := h; cases hr
  | cons r rs ih =>
    cases r with
    | eagain => rfl
    | error => rfl
    | sent n =>
      obtain ⟨r, hr, hf⟩ := h
      have hrest : ∃ r ∈ rs, r.failed = true := by
        rcases List.mem_cons.1 hr with rfl | hr
        · cases hf
        · exact ⟨r, hr, hf⟩
      simp only [writeLoop]
      split_ifs
      · rfl
      · rfl
      · exact ih hrest _ _

theorem writeLoop_last_isSome {n : ℕ} {c : Conn} (hz : (advance c n).bytesToSend ≤ 0) (rs : List Writev) (e : Env) :
    (writeLoop (.sent n :: rs) c e).isSome = true := by
  simp only [writeLoop, if_pos hz]
  split_ifs <;> rfl

theorem writeLoop_sent {n : ℕ} {c : Conn} (hz : 0 < (advance c n).bytesToSend) (rs : List Writev) (e : Env) :
    writeLoop (.sent n :: rs) c e = writeLoop rs (advance c n) (e.record (.writev c.iov n)) := by
  simp only [writeLoop, if_neg (not_le.2 hz)]

theorem possible_tail {n : ℕ} {c : Conn} {rs : List Writev} (h : possible (.sent n :: rs) c = true)
    (hz : 0 < (advance c n).bytesToSend) : takes c n = true ∧ possible rs (advance c n) = true := by
  simpa [possible, not_le.2 hz] using h

/-- every result takes a byte at least, so a file response is sent after `bytesToSend` results -/
theorem writeLoop_file {rs : List Writev} {c : Conn} (h : Unsent c) (hc : c.ivCount = 2) (hp : possible rs c = true)
    (hlen : c.bytesToSend.toNat ≤ rs.length) (e : Env) : (writeLoop rs c e).isSome = true := by
  induction rs generalizing c e with
  | nil =>
    have hpos := h.toSend_pos
    simp only [List.length_nil] at hlen
    omega
  | cons r rs ih =>
    cases r with
    | eagain => rfl
    | error => rfl
    | sent n =>
      rcases le_or_gt (advance c n).bytesToSend 0 with hz | hz
      · exact writeLoop_last_isSome hz rs e
      · obtain ⟨ht, hp⟩ := possible_tail hp hz
        rw [writeLoop_sent hz]
        obtain ⟨hint, -, hone⟩ := of_decide_eq_true ht
        have hn : 1 ≤ n := hone.resolve_right (h.file hc).ne'
        have hto := (h.counters hint).1
        refine ih (h.sent ht hz) ((advance_ivCount c n).trans hc) hp ?_ _
        simp only [List.length_cons] at hlen
        omega

/-- an error response whose header was taken for sent too early: `writev` is given no bytes any more -/
theorem writeLoop_stuck {rs : List Writev} {c : Conn} (h : Unsent c) (hc : c.ivCount = 1) (h0 : c.iv0.len = 0)
    (hp : possible rs c = true) (hf : ∀ r ∈ rs, r.failed = false) (e : Env) : writeLoop rs c e = none := by
  induction rs generalizing c e with
  | nil => rfl
  | cons r rs ih =>
    have hfail := hf r List.mem_cons_self
    cases r with
    | eagain => cases hfail
    | error => cases hfail
    | sent n =>
      have htakes : takes c n = true := by
        simp only [possible, Bool.and_eq_true] at hp
        exact hp.1
      obtain ⟨hint, hle, -⟩ := of_decide_eq_true htakes
      rw [iovLen_one hc, h0] at hle
      obtain rfl : n = 0 := Nat.le_zero.1 hle
      have hto := (h.counters hint).1
      have hz : 0 < (advance c 0).bytesToSend := by
        have hpos := h.toSend_pos
        omega
      have hempty : (advance c 0).iv0.len = 0 := by
        have hhave := h.have_nonneg
        rcases h.entries (n := 0) (by exact_mod_cast h.toSend_pos) with ⟨-, h1, -⟩ | ⟨h1, -⟩
        · exact h1
        · omega
      rw [writeLoop_sent hz]
      exact ih (h.sent htakes hz) ((advance_ivCount c 0).trans hc) hempty (possible_tail hp hz).2
        (fun r hr => hf r (List.mem_cons_of_mem _ hr)) _

/-- after the header nothing counts as a jump -/
theorem noJump_past {w s : ℕ} (h : w ≤ s) (ns : List ℕ) : noJump w s ns = true := by
  induction ns generalizing s with
  | nil => rfl
  | cons n ns ih =>
    have hj : jump w s n = false := by
      simp only [jump, decide_eq_false_iff_not]
      omega
    rw [noJump, hj, ih (Nat.le_add_right_of_le h)]
    rfl

/-- the next result of an error response: `write` jumps, or the entry still covers all the bytes left -/
theorem Unsent.error_next {c : Conn} (h : Unsent c) (hc : c.ivCount = 1) (hall : c.iv0.len = c.bytesToSend) {n : ℕ}
    (hz : 0 < (advance c n).bytesToSend) (hn : n < 2 ^ 31) :
    (jump c.writeIndex c.bytesHaveSend.toNat n = true ∧ (advance c n).iv0.len = 0) ∨
    (jump c.writeIndex c.bytesHaveSend.toNat n = false ∧ (advance c n).iv0.len = (advance c n).bytesToSend) := by
  obtain ⟨hto, -⟩ := h.counters hn
  have hsum := (h.error hc).1
  have hhave := h.have_nonneg
  simp only [jump, decide_eq_true_eq, decide_eq_false_iff_not]
  rcases h.entries (n := n) (by omega) with ⟨h1, h2, -⟩ | ⟨h1, h2⟩
  · left
    exact ⟨by omega, h2⟩
  · right
    exact ⟨by omega, by omega⟩

/-- an error response that still has all its bytes left for the next `writev`, when no result is -1 -/
theorem writeLoop_error {rs : List Writev} {c : Conn} (h : Unsent c) (hc : c.ivCount = 1)
    (hall : c.iv0.len = c.bytesToSend) (hp : possible rs c = true) (hf : ∀ r ∈ rs, r.failed = false)
    (hlen : c.bytesToSend.toNat ≤ rs.length) (e : Env) :
    (writeLoop rs c e).isSome = noJump c.writeIndex c.bytesHaveSend.toNat (sentCounts rs) := by
  induction rs generalizing c e with
  | nil =>
    have hpos := h.toSend_pos
    simp only [List.length_nil] at hlen
    omega
  | cons r rs ih =>
    have hfail := hf r List.mem_cons_self
    cases r with
    | eagain => cases hfail
    | error => cases hfail
    | sent n =>
      have htakes : takes c n = true := by
        simp only [possible, Bool.and_eq_true] at hp
        exact hp.1
      obtain ⟨hint, hle, hone⟩ := of_decide_eq_true htakes
      have hpos := h.toSend_pos
      have hhave := h.have_nonneg
      have hsum := (h.error hc).1
      rw [iovLen_one hc] at hle hone
      have hn : 1 ≤ n := hone.resolve_right (by omega)
      obtain ⟨hto, hs⟩ := h.counters hint
      have hs := hs (by omega)
      have hcounts : noJump c.writeIndex c.bytesHaveSend.toNat (sentCounts (.sent n :: rs)) =
          (!jump c.writeIndex c.bytesHaveSend.toNat n &&
            noJump c.writeIndex (c.bytesHaveSend.toNat + n) (sentCounts rs)) := rfl
      rw [hcounts]
      rcases le_or_gt (advance c n).bytesToSend 0 with hz | hz
      · -- the last result
        have hjump : jump c.writeIndex c.bytesHaveSend.toNat n = false := by
          simp only [jump, decide_eq_false_iff_not]
          omega
        rw [writeLoop_last_isSome hz, hjump, noJump_past (by omega)]
        rfl
      · have hunsent := h.sent htakes hz
        have hp := (possible_tail hp hz).2
        have hrest : ∀ r ∈ rs, r.failed = false := fun r hr => hf r (List.mem_cons_of_mem _ hr)
        have hcount : (advance c n).ivCount = 1 := (advance_ivCount c n).trans hc
        rw [writeLoop_sent hz]
        rcases h.error_next hc hall hz hint with ⟨hj, h0⟩ | ⟨hj, hall'⟩
        · rw [hj, writeLoop_stuck hunsent hcount h0 hp hrest]
          rfl
        · have hstart : c.bytesHaveSend.toNat + n = (advance c n).bytesHaveSend.toNat := by omega
          rw [hj, hstart, ← advance_writeIndex c n]
          simp only [List.length_cons] at hlen
          exact ih hunsent hcount hall' hp hrest (by omega) _

/-- a call that stops in the middle leaves a pending response -/
theorem Pending.write {rs : List Writev} {c c' : Conn} {e e' : Env} (h : Pending c) (hp : possible rs c = true)
    (hrun : write rs c e = some (true, c', e')) (hpos : 0 < c'.bytesToSend) : Pending c' := by
  have hloop : HttpConn.write rs c e = writeLoop rs c e := if_neg h.unsent.toSend_pos.ne'
  rw [hloop] at hrun
  clear hloop
  induction rs generalizing c e with
  | nil => cases hrun
  | cons r rs ih =>
    cases r with
    | eagain =>
      cases hrun
      exact h
    | error => cases hrun
    | sent n =>
      rcases le_or_gt (advance c n).bytesToSend 0 with hz | hz
      · -- everything was sent, so the counter is zero after `init`
        simp only [writeLoop, if_pos hz] at hrun
        split_ifs at hrun
        · cases hrun
          exact absurd hpos (lt_irrefl 0)
        · cases hrun
      · obtain ⟨ht, hp⟩ := possible_tail hp hz
        rw [writeLoop_sent hz] at hrun
        exact ih (h.sent ht hz) hp hrun

/-! ## Main result -/

/-- **When `write` returns.** A pending response and results that `writev` can return: the call returns within
`bytesToSend + 1` results if and only if the response has a file, or one of the results is -1, or `iv[0]` still covers all
the bytes left and no result of the call makes `write` jump. -/
theorem write_returns_iff {c : Conn} (h : Pending c) {rs : List Writev} (hp : possible rs c = true)
    (hlen : rs.length = c.bytesToSend.toNat + 1) (e : Env) :
    (write rs c e).isSome = true ↔
      c.ivCount = 2 ∨ (∃ r ∈ rs, r.failed = true) ∨
        (c.iv0.len = c.bytesToSend ∧ noJump c.writeIndex c.bytesHaveSend.toNat (sentCounts rs) = true) := by
  have hunsent := h.unsent
  have hloop : write rs c e = writeLoop rs c e := if_neg hunsent.toSend_pos.ne'
  rw [hloop]
  by_cases hfail : ∃ r ∈ rs, r.failed = true
  · simp only [writeLoop_failed hfail, hfail, true_or, or_true]
  · have hf : ∀ r ∈ rs, r.failed = false := fun r hr => Bool.eq_false_iff.2 fun hr' => hfail ⟨r, hr, hr'⟩
    rcases hunsent.count with hc | hc
    · have hno : ¬ c.ivCount = 2 := by omega
      simp only [hfail, hno, false_or]
      rcases (hunsent.error hc).2 with hall | h0
      · rw [writeLoop_error hunsent hc hall hp hf (by omega)]
        simp only [hall, true_and]
      · rw [writeLoop_stuck hunsent hc h0 hp hf]
        have hpos := hunsent.toSend_pos
        simp only [Option.isSome_none, Bool.false_eq_true, false_iff]
        omega
    · simp only [writeLoop_file hunsent hc hp (by omega), hc, true_or]

/-- the answer to a request for a file that does not exist: 138 bytes -/
def notFound : Conn := (processWrite .noResource Conn.blank).2

theorem notFound_pending : Pending notFound := .prepared rfl rfl rfl (by decide +kernel)

/-- all 138 bytes at once -/
def allAtOnce : List Writev := .sent 138 :: List.replicate 138 .eagain

theorem write_returns_allAtOnce : (write allAtOnce notFound Env.blank).isSome = true ↔
    notFound.ivCount = 2 ∨ (∃ r ∈ allAtOnce, r.failed = true) ∨
      (notFound.iv0.len = notFound.bytesToSend ∧
        noJump notFound.writeIndex notFound.bytesHaveSend.toNat (sentCounts allAtOnce) = true) :=
  write_returns_iff notFound_pending (by decide +kernel) (by decide +kernel) Env.blank

/-- 80 bytes, then 10: `write` takes the header for sent, and every further `writev` is given no bytes -/
def emptyEntries : List Writev := .sent 80 :: .sent 10 :: List.replicate 137 (.sent 0)

/-- **A call that does not return.** -/
theorem write_spins : Pending notFound ∧ possible emptyEntries notFound = true ∧
    emptyEntries.length = notFound.bytesToSend.toNat + 1 ∧ (write emptyEntries notFound Env.blank).isNone = true :=
  ⟨notFound_pending, by decide +kernel, by decide +kernel, by decide +kernel⟩

end WebServer.HttpConn
