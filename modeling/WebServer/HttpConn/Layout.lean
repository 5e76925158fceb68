/-
Where the bytes of an `http_conn` object lie (webServer/http_conn.h), and what lies next to the parameter `text` of
`parseHeader` on the stack. Two stores of the parser leave the array or the variable they are meant for:
- `text[contentLength] = '\0'` in `parseContext`, with a negative length, goes in front of `readBuffer`: to a member of
  the same object, or to an object with a smaller index in the array `users`. `locate` says which member an offset
  belongs to;
- `strtol(text, &text + strlen(text), 10)` in `parseHeader` stores the end of the number as many words behind `text` as
  the value has characters. `endSlot` says what is there.

Offsets are computed from the members' sizes and alignments on x86-64, in the order of the class (`layout_disjoint`,
`objectSize_eq`). The stack is that of the unoptimised build of the makefile.
-/
import Mathlib.Data.List.Basic
import Mathlib.Tactic.IntervalCases

namespace WebServer.HttpConn

/-! ## The object -/

/-- the members of `http_conn` that are not static -/
inductive Member where
  | sockfd | address | readBuffer | readIndex | checkIndex | startLine | checkState | method | realFile | url | version
  | host | contentLength | linger | writeBuffer | writeIndex | fileAddress | fileStat | iv | ivCount | bytesHaveSend
  | bytesToSend
deriving DecidableEq, Repr

/-- the members in the order of the class, each with its size and its alignment -/
def members : List (Member × ℕ × ℕ) :=
  [(.sockfd, 4, 4), (.address, 16, 4), (.readBuffer, 2048, 1), (.readIndex, 4, 4), (.checkIndex, 4, 4),
    (.startLine, 4, 4), (.checkState, 4, 4), (.method, 4, 4), (.realFile, 200, 1), (.url, 8, 8), (.version, 8, 8),
    (.host, 8, 8), (.contentLength, 4, 4), (.linger, 1, 1), (.writeBuffer, 2048, 1), (.writeIndex, 4, 4),
    (.fileAddress, 8, 8), (.fileStat, 144, 8), (.iv, 32, 8), (.ivCount, 4, 4), (.bytesHaveSend, 4, 4),
    (.bytesToSend, 4, 4)]

/-- the first multiple of `a` from `n` on -/
def roundUp (n a : ℕ) : ℕ := n + (a - n % a) % a

/-- the members of `l` with their offsets and sizes, when the first free byte is at `n` -/
def place (n : ℕ) : List (Member × ℕ × ℕ) → List (Member × ℕ × ℕ)
  | [] => []
  | (m, size, align) :: l => (m, roundUp n align, size) :: place (roundUp n align + size) l

/-- every member with its offset and its size -/
def layout : List (Member × ℕ × ℕ) := place 0 members

/-- sizeof(http_conn); the object is aligned like its pointers -/
def objectSize : ℕ := roundUp ((layout.map fun p => p.2.1 + p.2.2).foldl max 0) 8

def offsetOf (m : Member) : ℕ := ((layout.find? fun p => p.1 = m).map fun p => p.2.1).getD 0

/-- the member that the byte at offset `k` of an object belongs to, and the byte's place in it; `none` is padding -/
def locate (k : ℕ) : Option (Member × ℕ) :=
  (layout.find? fun p => p.2.1 ≤ k ∧ k < p.2.1 + p.2.2).map fun p => (p.1, k - p.2.1)

/-- no two members share a byte, and none reaches behind the object -/
theorem layout_disjoint : layout.Pairwise (fun p q => p.2.1 + p.2.2 ≤ q.2.1) ∧
    ∀ p ∈ layout, p.2.1 + p.2.2 ≤ objectSize := by
  decide

theorem objectSize_eq : objectSize = 4576 := by decide

theorem offsetOf_readBuffer : offsetOf .readBuffer = 20 := by decide

/-! ## The stack -/

/-- what a word of the stack is used for when `strtol` has stored into it -/
inductive StackSlot where
  /-- padding, a saved register that no caller uses, or a variable that is written before it is read again -/
  | unused
  /-- the parameter `this` of `parseHeader` -/
  | this
  /-- a saved frame pointer, a return address, or a variable of a caller -/
  | inUse
deriving DecidableEq, Repr

/-- the word that lies `n` words behind the parameter `text` of `parseHeader` -/
def endSlot : ℕ → StackSlot
  -- `text` itself
  | 0 => .unused
  | 1 => .this
  | 2 => .unused
  | 3 => .unused
  -- the caller's frame pointer and the return address
  | 4 => .inUse
  | 5 => .inUse
  | 6 => .unused
  -- the parameter `this` of `processRead`
  | 7 => .inUse
  -- `lineStatus` and `ret`, then `text` of `processRead`
  | 8 => .unused
  | 9 => .unused
  -- the frames of `process` and of the worker
  | _ => .inUse

theorem endSlot_this {n : ℕ} (h : endSlot n = .this) : n = 1 := by
  unfold endSlot at h
  split at h <;> first | rfl | cases h

theorem endSlot_far (n : ℕ) : endSlot (n + 10) = .inUse := rfl

/-- the numbers of characters for which no word in use is overwritten -/
theorem endSlot_iff {n : ℕ} : endSlot n ≠ .inUse ↔ n ∈ [0, 1, 2, 3, 6, 8, 9] := by
  by_cases hn : n < 10
  · interval_cases n <;> decide
  · obtain ⟨m, rfl⟩ : ∃ m, n = m + 10 := ⟨n - 10, by omega⟩
    simp [endSlot_far]

theorem endSlot_le {n : ℕ} (h : endSlot n ≠ .inUse) : n ≤ 9 := by
  have hmem := endSlot_iff.1 h
  simp only [List.mem_cons, List.not_mem_nil, or_false] at hmem
  omega

/-- the digit lies in front of `writeIndex` when the number is stored behind `this = readBuffer + k` in the place of
`contentLength`; the three bytes behind the digit are zero, as `writeIndex` is while a request is read -/
def storedInWriteBuffer (k : ℕ) : Bool := offsetOf .readBuffer + k + offsetOf .contentLength < offsetOf .writeIndex

theorem storedInWriteBuffer_iff {k : ℕ} : storedInWriteBuffer k = true ↔ k < 2036 := by
  have h1 : offsetOf .contentLength = 2312 := by decide
  have h2 : offsetOf .writeIndex = 4368 := by decide
  simp only [storedInWriteBuffer, decide_eq_true_eq, offsetOf_readBuffer, h1, h2]
  omega

end WebServer.HttpConn
