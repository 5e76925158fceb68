/-
Large files: a 64-bit size in a response that counts with `int`.

`addHeaders` takes the size as an `int`, and `bytesToSend` and `bytesHaveSend` are `int` too. `CountsExactly` says that
none of the three loses anything: the header line shows the size, and after any results of `writev` the two counters add
up to the length of the response.

- `exec_progress`: the counters after any number of results, for a response shorter than 2^31.
- `file_counts_iff`: a file response counts exactly if and only if the head for the size of the file and the file together
  are shorter than 2^31.
- `file_counts_wrap`: a file of 2^31 bytes.
-/
import WebServer.Core.Run
import WebServer.HttpConn.ResponseText
import WebServer.HttpConn.WriteReturns

namespace WebServer.HttpConn

open WebServer

/-- one result of `writev` while a response is being sent -/
def sendStep (c : Conn) (n : ℕ) : Option Conn :=
  if 0 < c.bytesToSend ∧ takes c n = true then some (advance c n) else none

theorem sendStep_some {c d : Conn} {n : ℕ} (h : sendStep c n = some d) :
    0 < c.bytesToSend ∧ takes c n = true ∧ d = advance c n := by
  unfold sendStep at h
  split_ifs at h with hc
  exact ⟨hc.1, hc.2, (Option.some.inj h).symm⟩

theorem length_iovBytes (iov : List IoVec) : (iovBytes iov).length = (iov.map IoVec.len).sum := by
  simp only [iovBytes, List.length_flatMap, Ptr.length_run]

/-- no result of `writev` is larger than what is left -/
theorem Progress.takes_le {σ : Shape} {s n : ℕ} {j : Bool} {c : Conn} (h : Progress σ s j c) (hs : s ≤ σ.total)
    (hn : takes c n = true) : s + n ≤ σ.total := by
  simp only [takes, Bool.decide_and, Bool.and_eq_true, decide_eq_true_eq] at hn
  have hlen : c.iovLen = (pending σ s j).length := by
    rw [← h.iovBytes, length_iovBytes]
    rfl
  have hle := length_pending_le σ s j
  omega

/-- **The counters of a response that is shorter than 2^31, after any results of `writev`.** -/
theorem exec_progress {σ : Shape} (ht : σ.total < 2 ^ 31) {ns : List ℕ} {s : ℕ} {j : Bool} {c d : Conn}
    (h : Progress σ s j c) (hs : s ≤ σ.total) (hrun : Run.exec sendStep c ns = some d) :
    s + ns.sum ≤ σ.total ∧ ∃ j', Progress σ (s + ns.sum) j' d := by
  induction ns generalizing s j c with
  | nil =>
    cases hrun
    exact ⟨hs, j, h⟩
  | cons n ns ih =>
    obtain ⟨u, hu, hrun'⟩ := Run.exec_cons hrun
    obtain ⟨-, htakes, rfl⟩ := sendStep_some hu
    have hle := h.takes_le hs htakes
    have hnext := ih (advance_progress h ht hle) hle hrun'
    rwa [Nat.add_assoc, ← List.sum_cons] at hnext

/-- a call of `write` that gets one result ends with it or goes on -/
theorem write_one {c : Conn} {n : ℕ} (hpos : 0 < c.bytesToSend) (e : Env) :
    (write [.sent n] c e).isSome = true ↔ (advance c n).bytesToSend ≤ 0 := by
  rw [write, if_neg hpos.ne']
  by_cases hz : (advance c n).bytesToSend ≤ 0
  · exact iff_of_true (writeLoop_last_isSome hz _ _) hz
  · rw [writeLoop_sent (not_le.1 hz)]
    exact iff_of_false nofun hz

/-- the size of the file goes through the `int`s of the response without loss -/
structure CountsExactly (c : Conn) : Prop where
  text : c.written = responseHead .fileRequest c.fileStat.stSize c.linger
  whole : c.bytesToSend = c.writeIndex + c.fileStat.stSize
  sending : ∀ ns d, Run.exec sendStep c ns = some d →
    d.bytesHaveSend = ns.sum ∧ d.bytesToSend + d.bytesHaveSend = c.writeIndex + c.fileStat.stSize
  /-- `write` ends with the result that makes the sum complete, and with no other -/
  completion : ∀ ns d, Run.exec sendStep c ns = some d → 0 < d.bytesToSend → ∀ n, takes d n = true → ∀ e,
    ((write [.sent n] d e).isSome = true ↔ ns.sum + n = c.writeIndex + c.fileStat.stSize)

theorem total_shape (c : Conn) : (shape .fileRequest c).total = c.writeIndex + c.fileStat.stSize := rfl

/-- the head that `processWrite` generates has the length of the head for this size, if the size is an `int` -/
theorem length_fileHead {c : Conn} (hw : c.writeIndex = 0) (hsize : c.fileStat.stSize < 2 ^ 31) :
    (processWrite .fileRequest c).2.writeIndex = (responseHead .fileRequest c.fileStat.stSize c.linger).length := by
  have hanswered : HttpCode.fileRequest.answered = true := rfl
  have htext := processWrite_written hanswered hw
  have hform : HttpCode.fileRequest.form = [] := rfl
  have hbody : bodyLength .fileRequest c = c.fileStat.stSize := rfl
  rw [hform, List.append_nil, hbody, int32_natCast hsize] at htext
  rw [← length_written, htext]

theorem fileHead_fits_iff {c : Conn} (hw : c.writeIndex = 0) :
    (processWrite .fileRequest c).2.writeIndex + c.fileStat.stSize < 2 ^ 31 ↔
      (responseHead .fileRequest c.fileStat.stSize c.linger).length + c.fileStat.stSize < 2 ^ 31 := by
  by_cases hsize : c.fileStat.stSize < 2 ^ 31
  · rw [length_fileHead hw hsize]
  · omega

/-- **File sizes.** From a fresh write side, for every file size and all results that `writev` can return: the response
counts exactly if and only if the head for this size and the file together are shorter than 2^31. -/
theorem file_counts_iff {c : Conn} (hw : c.writeIndex = 0) (hh : c.bytesHaveSend = 0) :
    CountsExactly (processWrite .fileRequest c).2 ↔
      (responseHead .fileRequest c.fileStat.stSize c.linger).length + c.fileStat.stSize < 2 ^ 31 := by
  rw [← fileHead_fits_iff hw]
  have hprep : Prepared .fileRequest c (processWrite .fileRequest c).2 := (processWrite_spec rfl hw).2
  obtain ⟨-, -, hto⟩ := hprep.file rfl
  have hstat := hprep.kept.fileStat
  constructor
  · intro h
    have hwhole := h.whole
    have hrange := (int32_spec ((processWrite .fileRequest c).2.writeIndex + c.fileStat.stSize)).2.1
    rw [← hto, hwhole, hstat] at hrange
    exact_mod_cast hrange
  · intro hlt
    have hresponse : Response .fileRequest (processWrite .fileRequest c).2 :=
      processWrite_response rfl hw fun _ => hlt
    have htotal : (shape .fileRequest (processWrite .fileRequest c).2).total < 2 ^ 31 := by
      rw [total_shape, hstat]
      exact hlt
    have hstart := (prepared_sending hprep hh htotal).progress
    have hrun := fun ns d (hd : Run.exec sendStep (processWrite .fileRequest c).2 ns = some d) =>
      exec_progress htotal hstart (Nat.zero_le _) hd
    generalize (processWrite .fileRequest c).2 = c' at *
    refine ⟨?_, ?_, ?_, ?_⟩
    · have hform : HttpCode.fileRequest.form = [] := rfl
      have htext := hresponse.text
      rwa [hform, List.append_nil] at htext
    · have hsend := hstart.toSend
      rwa [total_shape, Nat.cast_zero, sub_zero, Nat.cast_add] at hsend
    · intro ns d hd
      obtain ⟨-, j, hprog⟩ := hrun ns d hd
      have hhave := hprog.haveSent
      have hleft := hprog.toSend
      rw [Nat.zero_add] at hhave hleft
      rw [total_shape] at hleft
      exact ⟨hhave, by rw [hhave, hleft]; push_cast; ring⟩
    · intro ns d hd hpos n hn e
      obtain ⟨hle, j, hprog⟩ := hrun ns d hd
      have hle' := hprog.takes_le hle hn
      have hleft := (advance_progress hprog htotal hle').toSend
      rw [write_one hpos, hleft]
      rw [total_shape, Nat.zero_add] at hle' ⊢
      omega

theorem file_counts_tenBytes : CountsExactly (processWrite .fileRequest tenBytes).2 :=
  (file_counts_iff rfl rfl).2 (by decide +kernel)

/-- a file of 2^31 bytes -/
def largeFile : Conn := { Conn.blank with fileAddress := 4096, fileStat := ⟨0o100644, 2 ^ 31⟩ }

/-- **A file of 2^31 bytes.** The header announces a negative length, `bytesToSend` is negative, and `write` takes the
response for complete after one byte. -/
theorem file_counts_wrap :
    (processWrite .fileRequest largeFile).2.written = responseHead .fileRequest (-2147483648) false ∧
    (processWrite .fileRequest largeFile).2.bytesToSend < 0 ∧
    takes (processWrite .fileRequest largeFile).2 1 = true ∧
    (write [.sent 1] (processWrite .fileRequest largeFile).2 Env.blank).isSome = true := by
  decide +kernel

end WebServer.HttpConn
