/-
The thread function `working` of the threaded server lesson33/server.c: it reads a chunk into `recvBuf` and writes back the
string it finds there.

`read` stores the chunk at the start of `recvBuf`, which is never cleared, and adds no terminator. `printf` and `strlen`
then run on to the first zero byte: in the chunk, in what earlier reads left behind it, or in the memory behind the array
(`beyond`, which may be different at every turn). If there is no zero in the readable memory at all, the process is killed.

- `reply_append_of_mem`, `reply_append_of_notMem`: what is sent, for a chunk with a zero and for one without.
- `working_echoes_iff`: after any history, the bytes written back for a chunk are exactly the chunk if and only if its
  first zero byte is its last byte. With a zero anywhere in the chunk the history and the memory behind do not matter.
- `loop_echoes`: a whole connection whose chunks are all of that form.
- `working_leaks`: a chunk without a zero is answered with the end of an earlier chunk.
-/
import WebServer.Core.CString

namespace WebServer.Lesson33

/-! ## Model -/

/-- `sizeof(recvBuf)` -/
def recvSize : ℕ := 1024

/-- what a successful `read` stores -/
structure Chunk where
  bytes : Bytes
  nonempty : bytes ≠ []
  fits : bytes.length ≤ recvSize
deriving DecidableEq

inductive ReadResult
  /-- -1 -/
  | error
  /-- 0 -/
  | closed
  | data (c : Chunk)
deriving DecidableEq

/-- one call of `read`, and the readable memory behind `recvBuf` after it -/
structure Turn where
  result : ReadResult
  beyond : Bytes
deriving DecidableEq

inductive Event
  /-- to stdout -/
  | print (text : Bytes)
  | perror (what : Bytes)
  /-- to `pinfo->fd` -/
  | write (bytes : Bytes)
  | close
deriving DecidableEq, Repr

/-- where the thread is after some turns -/
inductive After
  /-- before the next `read` -/
  | reading (recvBuf : Buf recvSize)
  /-- `fd = -1` was stored and the thread has ended -/
  | freed
  /-- `exit(-1)` -/
  | exited
  /-- by a read outside the memory of the process -/
  | killed

/-- `strlen`: the offset of the first zero, if there is one in the memory -/
def strlen (mem : Bytes) : Option ℕ := strchr mem nul

/-- the bytes that are written back: `strlen(recvBuf) + 1` of them -/
def reply (mem : Bytes) : Option Bytes := (strlen mem).map fun len => mem.take (len + 1)

/-- the memory from the start of `recvBuf` on -/
def memory (recvBuf : Buf recvSize) (beyond : Bytes) : Bytes := recvBuf.slice 0 recvSize ++ beyond

/-- the body of `while (1)`, and after `break` the rest of the function -/
def turn (recvBuf : Buf recvSize) (t : Turn) : List Event × After :=
  match t.result with
  | .error => ([.perror (ascii "read")], .exited)
  | .closed => ([.print (ascii "clinet closed...\n"), .close], .freed)
  | .data c =>
    let recvBuf := recvBuf.write 0 c.bytes
    let mem := memory recvBuf t.beyond
    match strlen mem, reply mem with
    | some len, some bytes =>
      ([.print (ascii "recv client data : " ++ mem.take len ++ [lf]), .write bytes], .reading recvBuf)
    | _, _ => ([], .killed)

def loop (recvBuf : Buf recvSize) : List Turn → List Event × After
  | [] => ([], .reading recvBuf)
  | t :: ts =>
    match turn recvBuf t with
    | (out, .reading recvBuf) => ((out ++ (loop recvBuf ts).1), (loop recvBuf ts).2)
    | (out, after) => (out, after)

/-- `clientAddr`: the address and the port in network order -/
structure Client where
  addr : UInt8 × UInt8 × UInt8 × UInt8
  port : UInt8 × UInt8
deriving DecidableEq

/-- `inet_ntop(AF_INET, ...)` -/
def Client.ip (c : Client) : Bytes :=
  decimal c.addr.1.toNat ++ [dot] ++ decimal c.addr.2.1.toNat ++ [dot] ++ decimal c.addr.2.2.1.toNat ++ [dot] ++
    decimal c.addr.2.2.2.toNat

/-- `ntohs` -/
def Client.hostPort (c : Client) : ℕ := 256 * c.port.1.toNat + c.port.2.toNat

/-- `recvBuf` holds whatever the stack had there -/
def working (client : Client) (recvBuf : Buf recvSize) (ts : List Turn) : List Event × After :=
  let out := loop recvBuf ts
  (.print (ascii "client ip is : " ++ client.ip ++ ascii ", port is : " ++ decimal client.hostPort ++ [lf]) :: out.1, out.2)

/-- what the client gets, one entry for each `write` -/
def writes (out : List Event) : List Bytes :=
  out.filterMap fun
    | .write bytes => some bytes
    | _ => none

/-- the first zero of the chunk is its last byte -/
def Chunk.endsAtZero (c : Chunk) : Prop := strlen c.bytes = some (c.bytes.length - 1)

instance (c : Chunk) : Decidable c.endsAtZero := inferInstanceAs (Decidable (_ = _))

/-! ## The string found behind a chunk -/

theorem strlen_of_mem {l : Bytes} (h : nul ∈ l) : ∃ k < l.length, strlen l = some k := by
  obtain ⟨k, hk⟩ := strchr_of_mem h
  exact ⟨k, strchr_lt hk, hk⟩

theorem strlen_append_of_mem {l : Bytes} (h : nul ∈ l) (rest : Bytes) : strlen (l ++ rest) = strlen l := by
  obtain ⟨k, -, hk⟩ := strlen_of_mem h
  unfold strlen strchr at *
  rw [List.findIdx?_append, hk, Option.some_or]

theorem strlen_append_of_notMem {l : Bytes} (h : nul ∉ l) (rest : Bytes) :
    strlen (l ++ rest) = (strlen rest).map (· + l.length) := by
  have hnone : l.findIdx? (fun b => decide (b = nul)) = none :=
    List.findIdx?_eq_none_iff.2 fun x hx => decide_eq_false fun hx0 => h (hx0 ▸ hx)
  unfold strlen strchr
  rw [List.findIdx?_append, hnone, Option.none_or]

/-- a chunk with a zero is cut after it, whatever follows -/
theorem reply_append_of_mem {l : Bytes} (h : nul ∈ l) (rest : Bytes) : reply (l ++ rest) = reply l := by
  obtain ⟨k, hlt, hk⟩ := strlen_of_mem h
  unfold reply
  rw [strlen_append_of_mem h, hk, Option.map_some, Option.map_some, List.take_append_of_le_length hlt]

/-- a chunk without a zero is followed by what is behind it, up to the first zero there -/
theorem reply_append_of_notMem {l : Bytes} (h : nul ∉ l) (rest : Bytes) :
    reply (l ++ rest) = (reply rest).map (l ++ ·) := by
  unfold reply
  rw [strlen_append_of_notMem h, Option.map_map, Option.map_map]
  refine congrArg (Option.map · (strlen rest)) (funext fun k => ?_)
  calc (l ++ rest).take (k + l.length + 1) = (l ++ rest).take (l.length + (k + 1)) := by
        rw [Nat.add_right_comm, Nat.add_comm _ l.length]
    _ = l ++ rest.take (k + 1) := List.take_length_add_append (k + 1)

theorem reply_ne_nil {mem bytes : Bytes} (h : reply mem = some bytes) : bytes ≠ [] := by
  obtain ⟨k, hk, rfl⟩ := Option.map_eq_some_iff.1 h
  have hlt : k < mem.length := strchr_lt hk
  intro hnil
  have hlen := congrArg List.length hnil
  rw [List.length_take, List.length_nil] at hlen
  omega

theorem Chunk.length_pos (c : Chunk) : 0 < c.bytes.length := List.length_pos_of_ne_nil c.nonempty

theorem Chunk.endsAtZero.mem {c : Chunk} (h : c.endsAtZero) : nul ∈ c.bytes := by
  by_contra hno
  have hnone : strlen c.bytes = none := by
    simpa [strlen, strchr] using strlen_append_of_notMem hno []
  exact Option.some_ne_none _ (h.symm.trans hnone)

/-- **One reply.** What is written for a chunk is the chunk exactly when its first zero is its last byte. -/
theorem reply_eq_chunk_iff (c : Chunk) (rest : Bytes) : reply (c.bytes ++ rest) = some c.bytes ↔ c.endsAtZero := by
  have hpos := c.length_pos
  by_cases hmem : nul ∈ c.bytes
  · obtain ⟨k, hlt, hk⟩ := strlen_of_mem hmem
    rw [reply_append_of_mem hmem]
    unfold reply Chunk.endsAtZero
    rw [hk, Option.map_some, Option.some.injEq, Option.some.injEq, List.take_eq_self_iff]
    omega
  · refine iff_of_false (fun h => ?_) fun h => hmem h.mem
    rw [reply_append_of_notMem hmem] at h
    obtain ⟨more, hmore, heq⟩ := Option.map_eq_some_iff.1 h
    exact reply_ne_nil hmore (List.append_right_eq_self.1 heq)

/-! ## One turn -/

/-- after a `read` the memory starts with the chunk; behind it stands what was there before -/
theorem memory_write (recvBuf : Buf recvSize) (c : Chunk) (beyond : Bytes) :
    memory (recvBuf.write 0 c.bytes) beyond = c.bytes ++ (recvBuf.slice c.bytes.length recvSize ++ beyond) := by
  have hfits := c.fits
  have hchunk : (recvBuf.write 0 c.bytes).slice 0 c.bytes.length = c.bytes := by
    simpa using recvBuf.slice_write 0 c.bytes (by omega)
  have hstale : (recvBuf.write 0 c.bytes).slice c.bytes.length recvSize = recvBuf.slice c.bytes.length recvSize :=
    Buf.slice_congr fun k hk _ => Buf.get_write_ge _ _ (by omega)
  unfold memory
  rw [← Buf.slice_append _ (Nat.zero_le _) hfits, hchunk, hstale, List.append_assoc]

theorem writes_append (a b : List Event) : writes (a ++ b) = writes a ++ writes b := List.filterMap_append

/-- what one turn with a chunk writes -/
theorem writes_turn (recvBuf : Buf recvSize) (c : Chunk) (beyond : Bytes) :
    writes (turn recvBuf ⟨.data c, beyond⟩).1 =
      (reply (c.bytes ++ (recvBuf.slice c.bytes.length recvSize ++ beyond))).toList := by
  simp only [turn, memory_write]
  generalize c.bytes ++ (recvBuf.slice c.bytes.length recvSize ++ beyond) = mem
  unfold reply
  cases strlen mem with
  | none => rfl
  | some len => rfl

theorem turn_reading {recvBuf : Buf recvSize} {c : Chunk} (h : nul ∈ c.bytes) (beyond : Bytes) :
    (turn recvBuf ⟨.data c, beyond⟩).2 = .reading (recvBuf.write 0 c.bytes) := by
  obtain ⟨k, -, hk⟩ := strlen_of_mem h
  simp only [turn, memory_write, reply, strlen_append_of_mem h, hk, Option.map_some]

/-! ## Runs -/

theorem loop_cons {recvBuf recvBuf' : Buf recvSize} {t : Turn} (h : (turn recvBuf t).2 = .reading recvBuf')
    (ts : List Turn) :
    loop recvBuf (t :: ts) = ((turn recvBuf t).1 ++ (loop recvBuf' ts).1, (loop recvBuf' ts).2) := by
  rcases hturn : turn recvBuf t with ⟨out, after⟩
  rw [hturn] at h
  cases h
  simp only [loop, hturn]

theorem loop_singleton (recvBuf : Buf recvSize) (t : Turn) : loop recvBuf [t] = turn recvBuf t := by
  rcases hturn : turn recvBuf t with ⟨out, after⟩
  cases after with
  | reading recvBuf' => simp only [loop, hturn, List.append_nil]
  | freed => simp only [loop, hturn]
  | exited => simp only [loop, hturn]
  | killed => simp only [loop, hturn]

theorem loop_append {recvBuf recvBuf' : Buf recvSize} {pre : List Turn} (h : (loop recvBuf pre).2 = .reading recvBuf')
    (ts : List Turn) : (loop recvBuf (pre ++ ts)).1 = (loop recvBuf pre).1 ++ (loop recvBuf' ts).1 := by
  induction pre generalizing recvBuf with
  | nil => cases h; rfl
  | cons t pre ih =>
    rcases hturn : turn recvBuf t with ⟨out, after⟩
    have hafter : (turn recvBuf t).2 = after := congrArg Prod.snd hturn
    cases after with
    | reading recvBuf₁ =>
      rw [loop_cons hafter] at h
      rw [List.cons_append, loop_cons hafter, loop_cons hafter, ih h, List.append_assoc]
    -- the thread does not come back from the other three
    | freed => simp only [loop, hturn] at h; cases h
    | exited => simp only [loop, hturn] at h; cases h
    | killed => simp only [loop, hturn] at h; cases h

theorem writes_working (client : Client) (recvBuf : Buf recvSize) (ts : List Turn) :
    writes (working client recvBuf ts).1 = writes (loop recvBuf ts).1 := rfl

/-- **The echo.** After any history of the connection, the bytes written back for the next chunk are exactly the chunk if
and only if its first zero byte is its last byte. A chunk with a zero is answered with its bytes up to that zero,
independently of earlier chunks and of the memory behind `recvBuf`. -/
theorem working_echoes_iff (client : Client) {recvBuf recvBuf' : Buf recvSize} {pre : List Turn}
    (h : (working client recvBuf pre).2 = .reading recvBuf') (c : Chunk) (beyond : Bytes) :
    (writes (working client recvBuf (pre ++ [⟨.data c, beyond⟩])).1 =
        writes (working client recvBuf pre).1 ++ [c.bytes] ↔ c.endsAtZero) ∧
      (nul ∈ c.bytes → writes (working client recvBuf (pre ++ [⟨.data c, beyond⟩])).1 =
        writes (working client recvBuf pre).1 ++ (reply c.bytes).toList) := by
  have hout : writes (loop recvBuf (pre ++ [⟨.data c, beyond⟩])).1 = writes (loop recvBuf pre).1 ++
      (reply (c.bytes ++ (recvBuf'.slice c.bytes.length recvSize ++ beyond))).toList := by
    rw [loop_append h, writes_append, loop_singleton, writes_turn]
  simp only [writes_working, hout]
  refine ⟨?_, fun hmem => by rw [reply_append_of_mem hmem]⟩
  rw [List.append_right_inj, ← reply_eq_chunk_iff c (recvBuf'.slice c.bytes.length recvSize ++ beyond)]
  exact Option.toList_eq_singleton_iff

/-- a connection whose chunks are all strings with their zero at the end is echoed, chunk by chunk -/
theorem loop_echoes (recvBuf : Buf recvSize) (reads : List (Chunk × Bytes)) (h : ∀ r ∈ reads, r.1.endsAtZero) :
    writes (loop recvBuf (reads.map fun r => ⟨.data r.1, r.2⟩)).1 = reads.map (·.1.bytes) := by
  induction reads generalizing recvBuf with
  | nil => rfl
  | cons r reads ih =>
    have hr := h r List.mem_cons_self
    have hnext := ih (recvBuf.write 0 r.1.bytes) fun q hq => h q (List.mem_cons_of_mem r hq)
    rw [List.map_cons, List.map_cons, loop_cons (turn_reading hr.mem r.2), writes_append, writes_turn,
      (reply_eq_chunk_iff r.1 _).2 hr, hnext, Option.toList_some, List.singleton_append]

/-! ## Instances -/

def localhost : Client := ⟨(127, 0, 0, 1), (195, 80)⟩

/-- "hi" with its terminator, as a client sends it that writes `strlen + 1` bytes -/
def greeting : Chunk := ⟨ascii "hi" ++ [nul], by decide, by decide⟩

/-- the same without the terminator -/
def bareGreeting : Chunk := ⟨ascii "hi", by decide, by decide⟩

def password : Chunk := ⟨ascii "secret" ++ [nul], by decide, by decide⟩

theorem working_echoes_greeting :
    writes (working localhost Buf.zero ([⟨.data password, []⟩] ++ [⟨.data greeting, []⟩])).1 =
      writes (working localhost Buf.zero [⟨.data password, []⟩]).1 ++ [ascii "hi" ++ [nul]] := by
  have hreading : (working localhost Buf.zero [⟨.data password, []⟩]).2 = .reading (Buf.zero.write 0 password.bytes) :=
    (congrArg Prod.snd (loop_singleton _ _)).trans (turn_reading (c := password) (by decide) [])
  exact (working_echoes_iff localhost hreading greeting []).1.2 (by decide)

/-- **A leak.** The second chunk is answered with the end of the first one. -/
theorem working_leaks :
    writes (working localhost Buf.zero [⟨.data password, []⟩, ⟨.data bareGreeting, []⟩]).1 =
      [ascii "secret" ++ [nul], ascii "hicret" ++ [nul]] := by
  decide +kernel

end WebServer.Lesson33
